/-
The normalized comparison in the types that the features may have.  A
floating-point type rounds, and an integer type truncates, so that the
comparison is the exact one within a margin.
-/
import Margot.Runtime.NormalizedError
import Margot.Runtime.NormalizedInteger

namespace Margot

/-- The types of the features: floating-point ones and integers. -/
inductive FeatureType where
  | floating (format : FloatFormat)
  | integer (type : IntegerType)

namespace FeatureType

/-- The values of a key; of a floating-point type, the numbers. -/
def Key : FeatureType → Type
  | floating format => format.Value
  | integer type => type.Value

instance : (type : FeatureType) → LinearOrder type.Key
  | floating format => inferInstanceAs (LinearOrder format.Value)
  | integer type => inferInstanceAs (LinearOrder type.Value)

def toRat : (type : FeatureType) → type.Key → ℚ
  | floating _, key => key.val
  | integer _, key => (key.val : ℚ)

/-- The selector with the normalized distance in the arithmetic of the type. -/
def getClosestNormalized {n : Nat} :
    (type : FeatureType) → (Fin (n + 1) → FeatureComparison) →
      (origin best target : Fin (n + 1) → type.Key) → Option Bool
  | floating format, cfs, origin, best, target =>
      format.arithmetic.getClosestNormalized cfs origin best target
  | integer type, cfs, origin, best, target =>
      type.arithmetic.getClosestNormalized cfs origin best target

/-- The divisor of an axis, as it is computed. -/
def divisor {n : Nat} : (type : FeatureType) →
    (input best target : Fin (n + 1) → type.Key) → Fin (n + 1) → ℚ
  | floating format, input, best, target, field =>
      format.round (axisRange (FloatFormat.values input)
        (FloatFormat.values best) (FloatFormat.values target) field)
  | integer type, input, best, target, field =>
      (type.promoted.wrap (axisRange (IntegerType.values input)
        (IntegerType.values best) (IntegerType.values target) field) : ℤ)

section Computes

variable {n : Nat} (type : FeatureType) (cfs : Fin (n + 1) → FeatureComparison)
  (input best target key : Fin (n + 1) → type.Key)

/-- The exact normalized distance of a key. -/
def exactNormalized : ℚ :=
  normalizedDistance (type.toRat ∘ input) (type.toRat ∘ best)
    (type.toRat ∘ target) (type.toRat ∘ key)

/-- No division has a zero divisor, and the target is selected when its
normalized distance is strictly smaller. -/
structure ComputesNormalized : Prop where
  divisors : ∀ field, type.divisor input best target field ≠ 0
  selector : type.getClosestNormalized cfs input best target = some (decide (
    type.exactNormalized input best target target <
      type.exactNormalized input best target best))

/-- How far the distances have to be from each other to be told apart. -/
def margin (n : Nat) : FeatureType → ℚ
  | floating format => format.margin n
  | integer _ => 0

/-- No division has a zero divisor, and of the keys that are not within the
margin the closer one is selected. -/
structure ComputesWithin : Prop where
  divisors : ∀ field, type.divisor input best target field ≠ 0
  closer : type.exactNormalized input best target target + type.margin n <
      type.exactNormalized input best target best →
    type.getClosestNormalized cfs input best target = some true
  farther : type.exactNormalized input best target best + type.margin n ≤
      type.exactNormalized input best target target →
    type.getClosestNormalized cfs input best target = some false

end Computes

/-- Every axis has a range, which the type holds; the divisions of integers
leave no remainder, and the number of the fields does not wrap. -/
def Scalable {n : Nat} : (type : FeatureType) →
    (input best target : Fin (n + 1) → type.Key) → Prop
  | floating format, input, best, target =>
      format.Spanned (FloatFormat.values input) (FloatFormat.values best)
        (FloatFormat.values target)
  | integer type, input, best, target =>
      type.Spanned (IntegerType.values input) (IntegerType.values best)
          (IntegerType.values target) ∧
        IntegerType.Divides (IntegerType.values input) (IntegerType.values best)
          (IntegerType.values target) (IntegerType.values input) ∧
        IntegerType.Divides (IntegerType.values input) (IntegerType.values best)
          (IntegerType.values target) (IntegerType.values best) ∧
        IntegerType.Divides (IntegerType.values input) (IntegerType.values best)
          (IntegerType.values target) (IntegerType.values target) ∧
        type.Holds (n + 1)

section Within

variable {n : Nat} {cfs : Fin (n + 1) → FeatureComparison}

theorem floating_computesWithin {format : FloatFormat}
    {input best target : Fin (n + 1) → (floating format).Key}
    (hvalidity : Admissible cfs input best ↔ Admissible cfs input target)
    (hscalable : Scalable (floating format) input best target) :
    ComputesWithin (floating format) cfs input best target where
  divisors field :=
    (FloatFormat.round_axisRange_pos (hscalable field).1).ne'
  closer := (FloatFormat.floating_selector hvalidity hscalable).1
  farther := (FloatFormat.floating_selector hvalidity hscalable).2

theorem integer_computesWithin {type : IntegerType}
    {input best target : Fin (n + 1) → (integer type).Key}
    (hvalidity : Admissible cfs input best ↔ Admissible cfs input target)
    (hscalable : Scalable (integer type) input best target) :
    ComputesWithin (integer type) cfs input best target := by
  obtain ⟨hspanned, hinput, hbest, htarget, hholds⟩ := hscalable
  have hrange := fun field => (hspanned field).1
  have hbest : exactNormalized _ input best target best = _ :=
    IntegerType.normalizedDistance_eq_apart hrange hinput hbest
      (best_within _ _ _)
  have htarget : exactNormalized _ input best target target = _ :=
    IntegerType.normalizedDistance_eq_apart hrange hinput htarget
      (target_within _ _ _)
  have hcomputed := IntegerType.integer_getClosestNormalized hvalidity hspanned
  rw [IntegerType.wrap_apart hholds, IntegerType.wrap_apart hholds] at hcomputed
  refine ⟨fun field => ?_, ?_, ?_⟩
  · rw [divisor, IntegerType.wrap_of_holds (hspanned field).2]
    exact Int.cast_ne_zero.mpr (hrange field)
  · intro hcloser
    rw [hbest, htarget, margin, add_zero, Int.cast_lt] at hcloser
    exact hcomputed.trans (congrArg some (decide_eq_true hcloser))
  · intro hfarther
    rw [hbest, htarget, margin, add_zero, Int.cast_le] at hfarther
    exact hcomputed.trans
      (congrArg some (decide_eq_false (not_lt.mpr hfarther)))

end Within

section Rounded

/-- A key of one feature, in the type with the name `float`. -/
def floatKey (value : ℚ) (hholds : FloatFormat.binary32.Holds value) :
    Fin 1 → (floating .binary32).Key :=
  fun _ => ⟨value, hholds⟩

/-- A key of one feature, in the type with the name `int32_t`. -/
def intKey (value : Int)
    (hholds : (⟨.bits32, true⟩ : IntegerType).Holds value) :
    Fin 1 → (integer ⟨.bits32, true⟩).Key :=
  fun _ => ⟨value, hholds⟩

theorem admissible_dontCare {K : Type} [LinearOrder K] {n : Nat}
    (input key : Fin (n + 1) → K) : Admissible (fun _ => .dontCare) input key :=
  fun _ => rfl

theorem scalable_floatKey : Scalable _ (floatKey 0 (by decide +kernel))
    (floatKey (-3) (by decide +kernel)) (floatKey 1 (by decide +kernel)) := by
  unfold Scalable
  decide +kernel

theorem scalable_intKey : Scalable _ (intKey 0 (by decide))
    (intKey 3 (by decide)) (intKey 0 (by decide)) := by
  refine ⟨?_, ?_, ?_, ?_, ?_⟩ <;> decide +kernel

/-- The normalized comparison is exact for all the keys of a type. -/
def ComputesAll (type : FeatureType) : Prop :=
  ∀ (n : Nat) (cfs : Fin (n + 1) → FeatureComparison)
    (input best target : Fin (n + 1) → type.Key),
    (Admissible cfs input best ↔ Admissible cfs input target) →
      ComputesNormalized type cfs input best target

end Rounded

end FeatureType

end Margot
