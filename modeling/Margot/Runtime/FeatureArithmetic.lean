/-
The distance between features in the arithmetic of their type.  Integers are
promoted, and what is returned is reduced modulo the width of the type, so that
a distance may wrap.
-/
import Margot.Library.MachineInteger
import Margot.Runtime.Clusters

namespace Margot

/-- The operations of a feature type on copies of the features.  The scaling of
a value to the range between `low` and `high` may be undefined. -/
structure FeatureArithmetic (K T : Type) where
  copy : K → T
  less : T → T → Bool
  sub : T → T → T
  mul : T → T → T
  add : T → T → T
  store : T → T
  scale : (low high value : T) → Option T

namespace FeatureArithmetic

variable {K T : Type} {n : Nat}

theorem lower_lt {n index : Nat} (hindex : index + 1 < n + 1) :
    index < n + 1 := by
  omega

/-- `data_features_distance`, as it is returned for every field. -/
def distance (A : FeatureArithmetic K T) (origin target : Fin (n + 1) → T) :
    (index : Nat) → index < n + 1 → T
  | 0, hindex =>
      let distance := A.sub (origin ⟨0, hindex⟩) (target ⟨0, hindex⟩)
      A.store (A.mul distance distance)
  | index + 1, hindex =>
      let distance := A.sub (origin ⟨index + 1, hindex⟩) (target ⟨index + 1, hindex⟩)
      A.store (A.add (A.mul distance distance)
        (A.distance origin target index (lower_lt hindex)))

/-- `data_feature_selector` with the Euclidean distance. -/
def getClosest [LinearOrder K] (A : FeatureArithmetic K T)
    (cfs : Fin (n + 1) → FeatureComparison)
    (origin best target : Fin (n + 1) → K) : Bool :=
  let isBestValid := dataFeaturesAdmissible cfs best origin n
  let isTargetValid := dataFeaturesAdmissible cfs target origin n
  if isBestValid && !isTargetValid then false
  else if !isBestValid && isTargetValid then true
  else
    let distanceBest :=
      A.distance (A.copy ∘ origin) (A.copy ∘ best) n n.lt_succ_self
    let distanceTarget :=
      A.distance (A.copy ∘ origin) (A.copy ∘ target) n n.lt_succ_self
    A.less distanceTarget distanceBest

theorem admissible_congr [LinearOrder K] {cfs : Fin (n + 1) → FeatureComparison}
    {origin best target : Fin (n + 1) → K}
    (hvalidity : Admissible cfs origin best ↔ Admissible cfs origin target) :
    dataFeaturesAdmissible cfs best origin n =
      dataFeaturesAdmissible cfs target origin n := by
  rw [Bool.eq_iff_iff, dataFeaturesAdmissible_iff_admissible,
    dataFeaturesAdmissible_iff_admissible]
  exact hvalidity

/-- Clusters of the same validity are compared by their distances. -/
theorem getClosest_eq [LinearOrder K] (A : FeatureArithmetic K T)
    {cfs : Fin (n + 1) → FeatureComparison} {origin best target : Fin (n + 1) → K}
    (hvalidity : Admissible cfs origin best ↔ Admissible cfs origin target) :
    A.getClosest cfs origin best target =
      A.less (A.distance (A.copy ∘ origin) (A.copy ∘ target) n n.lt_succ_self)
        (A.distance (A.copy ∘ origin) (A.copy ∘ best) n n.lt_succ_self) := by
  rw [getClosest, admissible_congr hvalidity]
  cases dataFeaturesAdmissible cfs target origin n <;> rfl

end FeatureArithmetic

namespace IntegerType

/-- A difference in the promoted type, which a signed type has to hold. -/
def difference (type : IntegerType) (a b : Int) : Option Int :=
  if type.promoted.signed then
    if type.promoted.Holds (a - b) then some (a - b) else none
  else some (type.promoted.wrap (a - b))

def quotient (a b : Int) : Option Int := if b = 0 then none else some (a.tdiv b)

def arithmetic (type : IntegerType) : FeatureArithmetic type.Value Int where
  copy := Subtype.val
  less a b := a < b
  sub a b := type.promoted.wrap (a - b)
  mul a b := type.promoted.wrap (a * b)
  add a b := type.promoted.wrap (a + b)
  store := type.wrap
  scale low high value := do
    let width ← type.difference high low
    let offset ← type.difference value low
    let scaled ← quotient offset width
    return type.wrap scaled

variable {type : IntegerType} {n : Nat}

/-- The distance is the exact one modulo the width. -/
theorem distance_eq_wrap (type : IntegerType) (origin target : Fin (n + 1) → Int)
    (index : Nat) (hindex : index < n + 1) :
    type.arithmetic.distance origin target index hindex =
      type.wrap (dataFeaturesDistance origin target index hindex) := by
  have hsquare : ∀ a b : Int, type.promoted.wrap
      (type.promoted.wrap (a - b) * type.promoted.wrap (a - b)) ≡
        (a - b) * (a - b) [ZMOD type.modulus] := by
    intro a b
    have hdifference := type.wrap_promoted_modEq (a - b)
    exact (type.wrap_promoted_modEq _).trans (hdifference.mul hdifference)
  induction index with
  | zero => exact wrap_congr (hsquare _ _)
  | succ index ih =>
      rw [FeatureArithmetic.distance, ih, dataFeaturesDistance]
      apply wrap_congr
      apply (type.wrap_promoted_modEq _).trans
      exact (hsquare _ _).add (type.wrap_modEq _)

/-- The exact square of the distance. -/
def exactDistance (input key : Fin (n + 1) → type.Value) : Int :=
  squaredDistance (fun field => (input field).val) fun field => (key field).val

theorem distance_eq (input key : Fin (n + 1) → type.Value) :
    type.arithmetic.distance (type.arithmetic.copy ∘ input)
        (type.arithmetic.copy ∘ key) n n.lt_succ_self =
      type.wrap (exactDistance input key) := by
  rw [distance_eq_wrap, dataFeaturesDistance_eq]
  rfl

/-- The distances compare as the exact ones, and the selector prefers the
target when it is strictly closer. -/
structure Compares (input best target : Fin (n + 1) → type.Value) : Prop where
  distance : type.arithmetic.distance (type.arithmetic.copy ∘ input)
      (type.arithmetic.copy ∘ target) n n.lt_succ_self <
    type.arithmetic.distance (type.arithmetic.copy ∘ input)
      (type.arithmetic.copy ∘ best) n n.lt_succ_self ↔
    exactDistance input target < exactDistance input best
  selector : ∀ cfs : Fin (n + 1) → FeatureComparison,
    (Admissible cfs input best ↔ Admissible cfs input target) →
      (type.arithmetic.getClosest cfs input best target = true ↔
        exactDistance input target < exactDistance input best)

/-- The distances compare as the exact ones exactly when these wrap equally
often, or differ by more than what they wrap differently. -/
theorem compares_iff (input best target : Fin (n + 1) → type.Value) :
    Compares input best target ↔
      type.wraps (exactDistance input target) =
        type.wraps (exactDistance input best) ∨
      (type.wraps (exactDistance input target) <
          type.wraps (exactDistance input best) ∧
        type.modulus * (type.wraps (exactDistance input best) -
            type.wraps (exactDistance input target)) <
          exactDistance input best - exactDistance input target) ∨
      (type.wraps (exactDistance input best) <
          type.wraps (exactDistance input target) ∧
        type.modulus * (type.wraps (exactDistance input target) -
            type.wraps (exactDistance input best)) ≤
          exactDistance input target - exactDistance input best) := by
  rw [← wrap_lt_wrap_iff, ← distance_eq, ← distance_eq]
  constructor
  · exact fun hcompares => hcompares.distance
  · intro hdistance
    refine ⟨hdistance, fun cfs hvalidity => ?_⟩
    rw [FeatureArithmetic.getClosest_eq _ hvalidity]
    exact decide_eq_true_iff.trans hdistance

section Wrapped

/-- A key of one feature of eight bits. -/
def byteKey (value : Int) (hholds : (⟨.bits8, true⟩ : IntegerType).Holds value) :
    Fin 1 → (⟨.bits8, true⟩ : IntegerType).Value :=
  fun _ => ⟨value, hholds⟩

/-- The square of twelve is negative in eight bits, and preferred to one. -/
theorem not_compares_wrapped :
    ¬ ∀ (type : IntegerType) (n : Nat)
      (input best target : Fin (n + 1) → type.Value),
      Compares input best target := by
  intro hall
  have hcompares := (hall ⟨.bits8, true⟩ 0 (byteKey 0 (by decide))
    (byteKey 1 (by decide)) (byteKey 12 (by decide))).distance
  exact absurd hcompares (by decide +kernel)

end Wrapped

end IntegerType

end Margot
