/-
The normalized distance between features.  Each axis is scaled to the range of
the three points, in the arithmetic of the feature type: an axis without a
range divides by zero.
-/
import Mathlib.Data.Rat.Lemmas
import Mathlib.Tactic.Ring
import Mathlib.Tactic.FieldSimp
import Margot.Runtime.FeatureArithmetic

namespace Margot

/-- A coordinate of the three points. -/
structure Axis (T : Type) where
  origin : T
  best : T
  target : T

namespace FeatureArithmetic

variable {K T : Type} {n : Nat}

/-- `std::min` -/
def stdMin (A : FeatureArithmetic K T) (a b : T) : T := if A.less b a then b else a

/-- `std::max` -/
def stdMax (A : FeatureArithmetic K T) (a b : T) : T := if A.less a b then b else a

/-- The normalization of a field. -/
def normalizeAxis (A : FeatureArithmetic K T) (axis : Axis T) :
    Option (Axis T) := do
  let coordMin := A.stdMin (A.stdMin axis.origin axis.best) axis.target
  let coordMax := A.stdMax (A.stdMax axis.origin axis.best) axis.target
  let origin ← A.scale coordMin coordMax axis.origin
  let best ← A.scale coordMin coordMax axis.best
  let target ← A.scale coordMin coordMax axis.target
  return ⟨origin, best, target⟩

/-- `normalize_datafeatures`, from the field down to the first one. -/
def normalizeDatafeatures (A : FeatureArithmetic K T) :
    (index : Nat) → index < n + 1 → (Fin (n + 1) → Axis T) →
      Option (Fin (n + 1) → Axis T)
  | 0, hindex, points =>
      (A.normalizeAxis (points ⟨0, hindex⟩)).map
        (Function.update points ⟨0, hindex⟩)
  | index + 1, hindex, points =>
      (A.normalizeAxis (points ⟨index + 1, hindex⟩)).bind fun axis =>
        A.normalizeDatafeatures index (lower_lt hindex)
          (Function.update points ⟨index + 1, hindex⟩ axis)

/-- `data_feature_selector` with the normalized distance. -/
def getClosestNormalized [LinearOrder K] (A : FeatureArithmetic K T)
    (cfs : Fin (n + 1) → FeatureComparison)
    (origin best target : Fin (n + 1) → K) : Option Bool :=
  let isBestValid := dataFeaturesAdmissible cfs best origin n
  let isTargetValid := dataFeaturesAdmissible cfs target origin n
  if isBestValid && !isTargetValid then some false
  else if !isBestValid && isTargetValid then some true
  else do
    let points ← A.normalizeDatafeatures n n.lt_succ_self fun field =>
      ⟨A.copy (origin field), A.copy (best field), A.copy (target field)⟩
    let distanceBest := A.distance (fun field => (points field).origin)
      (fun field => (points field).best) n n.lt_succ_self
    let distanceTarget := A.distance (fun field => (points field).origin)
      (fun field => (points field).target) n n.lt_succ_self
    return A.less distanceTarget distanceBest

section Normalizing

variable {A : FeatureArithmetic K T}

theorem normalizeDatafeatures_eq_some {index : Nat} (hindex : index < n + 1)
    {points normalized : Fin (n + 1) → Axis T} :
    A.normalizeDatafeatures index hindex points = some normalized ↔
      (∀ field : Fin (n + 1), field.val ≤ index →
        A.normalizeAxis (points field) = some (normalized field)) ∧
      ∀ field : Fin (n + 1), index < field.val →
        normalized field = points field := by
  induction index generalizing points with
  | zero =>
      have hfirst : ∀ field : Fin (n + 1), 0 < field.val →
          field ≠ ⟨0, hindex⟩ := by
        rintro field hpos rfl
        exact hpos.false
      rw [normalizeDatafeatures, Option.map_eq_some_iff]
      constructor
      · rintro ⟨axis, haxis, rfl⟩
        constructor
        · intro field hfield
          obtain rfl : field = ⟨0, hindex⟩ := Fin.ext (Nat.le_zero.mp hfield)
          rw [Function.update_self]
          exact haxis
        · intro field hfield
          exact Function.update_of_ne (hfirst field hfield) _ _
      · rintro ⟨hscaled, hkept⟩
        refine ⟨normalized ⟨0, hindex⟩, hscaled _ le_rfl, ?_⟩
        funext field
        by_cases hfield : field = ⟨0, hindex⟩
        · rw [hfield, Function.update_self]
        · have hpos : 0 < field.val :=
            Nat.pos_of_ne_zero fun hzero => hfield (Fin.ext hzero)
          rw [Function.update_of_ne hfield, hkept field hpos]
  | succ index ih =>
      rw [normalizeDatafeatures, Option.bind_eq_some_iff]
      constructor
      · rintro ⟨axis, haxis, hrest⟩
        obtain ⟨hscaled, hkept⟩ := (ih (by omega)).mp hrest
        constructor
        · intro field hfield
          by_cases htop : field = ⟨index + 1, hindex⟩
          · rw [htop, hkept _ (Nat.lt_succ_self index), Function.update_self]
            exact haxis
          · have hne : field.val ≠ index + 1 := fun heq => htop (Fin.ext heq)
            have hlower := hscaled field (by omega)
            rw [Function.update_of_ne htop] at hlower
            exact hlower
        · intro field hfield
          have htop : field ≠ ⟨index + 1, hindex⟩ :=
            fun heq => hfield.ne' (congrArg Fin.val heq)
          rw [hkept field (by omega), Function.update_of_ne htop]
      · rintro ⟨hscaled, hkept⟩
        refine ⟨normalized ⟨index + 1, hindex⟩, hscaled _ le_rfl,
          (ih (by omega)).mpr ⟨?_, ?_⟩⟩
        · intro field hfield
          have htop : field ≠ ⟨index + 1, hindex⟩ := by
            rintro rfl
            simp at hfield
          rw [Function.update_of_ne htop]
          exact hscaled field (by omega)
        · intro field hfield
          by_cases htop : field = ⟨index + 1, hindex⟩
          · rw [htop, Function.update_self]
          · have hne : field.val ≠ index + 1 := fun heq => htop (Fin.ext heq)
            rw [Function.update_of_ne htop, hkept field (by omega)]

/-- The points are normalized when each of their axes is. -/
theorem normalizeDatafeatures_eq {points normalized : Fin (n + 1) → Axis T} :
    A.normalizeDatafeatures n n.lt_succ_self points = some normalized ↔
      ∀ field, A.normalizeAxis (points field) = some (normalized field) := by
  rw [normalizeDatafeatures_eq_some]
  constructor
  · rintro ⟨hscaled, -⟩ field
    exact hscaled field (by omega)
  · intro hscaled
    exact ⟨fun field _ => hscaled field, fun field hfield => by omega⟩

theorem getClosestNormalized_eq [LinearOrder K]
    {cfs : Fin (n + 1) → FeatureComparison} {origin best target : Fin (n + 1) → K}
    (hvalidity : Admissible cfs origin best ↔ Admissible cfs origin target) :
    A.getClosestNormalized cfs origin best target =
      (A.normalizeDatafeatures n n.lt_succ_self fun field =>
        ⟨A.copy (origin field), A.copy (best field),
          A.copy (target field)⟩).map fun points =>
        A.less
          (A.distance (fun field => (points field).origin)
            (fun field => (points field).target) n n.lt_succ_self)
          (A.distance (fun field => (points field).origin)
            (fun field => (points field).best) n n.lt_succ_self) := by
  rw [getClosestNormalized, admissible_congr hvalidity, Option.map_eq_bind]
  cases dataFeaturesAdmissible cfs target origin n <;> rfl

/-- A valid cluster comes before one that is not. -/
theorem getClosestNormalized_of_valid_target [LinearOrder K]
    {cfs : Fin (n + 1) → FeatureComparison} {origin best target : Fin (n + 1) → K}
    (hbest : ¬ Admissible cfs origin best)
    (htarget : Admissible cfs origin target) :
    A.getClosestNormalized cfs origin best target = some true := by
  rw [← dataFeaturesAdmissible_iff_admissible, Bool.not_eq_true] at hbest
  rw [← dataFeaturesAdmissible_iff_admissible] at htarget
  rw [getClosestNormalized, hbest, htarget]
  rfl

theorem getClosestNormalized_of_valid_best [LinearOrder K]
    {cfs : Fin (n + 1) → FeatureComparison} {origin best target : Fin (n + 1) → K}
    (hbest : Admissible cfs origin best)
    (htarget : ¬ Admissible cfs origin target) :
    A.getClosestNormalized cfs origin best target = some false := by
  rw [← dataFeaturesAdmissible_iff_admissible] at hbest
  rw [← dataFeaturesAdmissible_iff_admissible, Bool.not_eq_true] at htarget
  rw [getClosestNormalized, hbest, htarget]
  rfl

end Normalizing

end FeatureArithmetic

theorem admissible_self {K : Type} [LinearOrder K] {n : Nat}
    (cfs : Fin (n + 1) → FeatureComparison) (known : Fin (n + 1) → K) :
    Admissible cfs known known := by
  intro field
  cases hcf : cfs field <;> simp [FeatureComparison.compare]

section Ranges

variable {K : Type} [LinearOrder K] {n : Nat}
  (input best target : Fin (n + 1) → K) (field : Fin (n + 1))

def axisLow : K := min (min (input field) (best field)) (target field)

def axisHigh : K := max (max (input field) (best field)) (target field)

/-- The range spanned by the three points on an axis. -/
def axisRange [Sub K] : K :=
  axisHigh input best target field - axisLow input best target field

theorem input_within : axisLow input best target field ≤ input field ∧
    input field ≤ axisHigh input best target field :=
  ⟨(min_le_left _ _).trans (min_le_left _ _),
    (le_max_left _ _).trans (le_max_left _ _)⟩

theorem best_within : axisLow input best target field ≤ best field ∧
    best field ≤ axisHigh input best target field :=
  ⟨(min_le_left _ _).trans (min_le_right _ _),
    (le_max_right _ _).trans (le_max_left _ _)⟩

theorem target_within : axisLow input best target field ≤ target field ∧
    target field ≤ axisHigh input best target field :=
  ⟨min_le_right _ _, le_max_right _ _⟩

theorem axisRange_eq_zero_iff {K : Type} [LinearOrder K] [AddCommGroup K]
    [IsOrderedAddMonoid K] {n : Nat} {input best target : Fin (n + 1) → K}
    {field : Fin (n + 1)} :
    axisRange input best target field = 0 ↔
      best field = input field ∧ target field = input field := by
  have hinput := input_within input best target field
  have hbest := best_within input best target field
  have htarget := target_within input best target field
  rw [axisRange, sub_eq_zero]
  constructor
  · intro hsame
    rw [hsame] at hinput hbest htarget
    have hlow := le_antisymm hinput.2 hinput.1
    exact ⟨(le_antisymm hbest.2 hbest.1).trans hlow.symm,
      (le_antisymm htarget.2 htarget.1).trans hlow.symm⟩
  · rintro ⟨hbest, htarget⟩
    rw [axisHigh, axisLow, hbest, htarget, max_self, max_self, min_self, min_self]

end Ranges

/-- The square of the distance of a key from the input, with every axis scaled
to the range of the three points; an axis without a range contributes
nothing. -/
def normalizedDistance {n : Nat} (input best target key : Fin (n + 1) → ℚ) : ℚ :=
  ∑ field, ((input field - key field) / axisRange input best target field) ^ 2

namespace FeatureArithmetic

section Copies

variable {K T V : Type} [LinearOrder V] {A : FeatureArithmetic K T} {f : V → T}
  {n : Nat}

theorem stdMin_eq (hless : ∀ a b, A.less (f a) (f b) = decide (a < b)) (a b : V) :
    A.stdMin (f a) (f b) = f (min a b) := by
  rw [stdMin, hless]
  by_cases hlt : b < a
  · rw [if_pos (decide_eq_true hlt), min_eq_right hlt.le]
  · rw [if_neg (by simpa using hlt), min_eq_left (not_lt.mp hlt)]

theorem stdMax_eq (hless : ∀ a b, A.less (f a) (f b) = decide (a < b)) (a b : V) :
    A.stdMax (f a) (f b) = f (max a b) := by
  rw [stdMax, hless]
  by_cases hlt : a < b
  · rw [if_pos (decide_eq_true hlt), max_eq_right hlt.le]
  · rw [if_neg (by simpa using hlt), max_eq_left (not_lt.mp hlt)]

/-- Each of the points is scaled to the range of the three. -/
theorem normalizeAxis_eq (hless : ∀ a b, A.less (f a) (f b) = decide (a < b))
    (input best target : Fin (n + 1) → V) (field : Fin (n + 1)) :
    A.normalizeAxis ⟨f (input field), f (best field), f (target field)⟩ =
      (do
        let low := f (axisLow input best target field)
        let high := f (axisHigh input best target field)
        let origin ← A.scale low high (f (input field))
        let best ← A.scale low high (f (best field))
        let target ← A.scale low high (f (target field))
        return ⟨origin, best, target⟩) := by
  simp only [normalizeAxis, stdMin_eq hless, stdMax_eq hless]
  rfl

end Copies

/-- The exact arithmetic, with zero divided by zero, which is not a number and
spoils what is computed from it. -/
def exact : FeatureArithmetic ℚ (Option ℚ) where
  copy := some
  less
    | some a, some b => a < b
    | _, _ => false
  sub a b := do return (← a) - (← b)
  mul a b := do return (← a) * (← b)
  add a b := do return (← a) + (← b)
  store := id
  scale low high value := some do
    let width := (← high) - (← low)
    if width = 0 then none else return ((← value) - (← low)) / width

section Exact

variable {n : Nat}

theorem exact_scale (low high value : ℚ) :
    exact.scale (exact.copy low) (exact.copy high)
        (exact.copy value) =
      some (if high - low = 0 then none
        else some ((value - low) / (high - low))) :=
  rfl

theorem exact_distance (origin key : Fin (n + 1) → ℚ) (index : Nat)
    (hindex : index < n + 1) :
    exact.distance (fun field => some (origin field))
        (fun field => some (key field)) index hindex =
      some (dataFeaturesDistance origin key index hindex) := by
  induction index with
  | zero => rfl
  | succ index ih =>
      rw [distance, ih]
      rfl

theorem exact_less (a b : ℚ) :
    exact.less (exact.copy a) (exact.copy b) = decide (a < b) :=
  rfl

/-- The normalized point, where the axis of a field has a range. -/
def exactScaled (input best target key : Fin (n + 1) → ℚ)
    (field : Fin (n + 1)) : Option ℚ :=
  if axisRange input best target field = 0 then none
  else some ((key field - axisLow input best target field) /
    axisRange input best target field)

theorem exact_normalize (input best target : Fin (n + 1) → ℚ) :
    exact.normalizeDatafeatures n n.lt_succ_self
        (fun field => ⟨exact.copy (input field), exact.copy (best field),
          exact.copy (target field)⟩) =
      some fun field => ⟨exactScaled input best target input field,
        exactScaled input best target best field,
        exactScaled input best target target field⟩ := by
  rw [normalizeDatafeatures_eq]
  intro field
  rw [normalizeAxis_eq exact_less]
  simp only [exact_scale]
  rfl

theorem exactScaled_eq {input best target : Fin (n + 1) → ℚ}
    (hrange : ∀ field, axisRange input best target field ≠ 0)
    (key : Fin (n + 1) → ℚ) :
    exactScaled input best target key = fun field =>
      some ((key field - axisLow input best target field) /
        axisRange input best target field) := by
  funext field
  exact if_neg (hrange field)

/-- The scaled points are as far from each other as the normalized distance
says. -/
theorem squaredDistance_scaled (input best target key : Fin (n + 1) → ℚ) :
    squaredDistance
      (fun field => (input field - axisLow input best target field) /
        axisRange input best target field)
      (fun field => (key field - axisLow input best target field) /
        axisRange input best target field) =
      normalizedDistance input best target key := by
  apply Finset.sum_congr rfl
  intro field _
  ring

variable {cfs : Fin (n + 1) → FeatureComparison}
  {input best target : Fin (n + 1) → ℚ}

/-- When every axis has a range, clusters of the same validity are compared by
the normalized distance. -/
theorem exact_getClosestNormalized
    (hvalidity : Admissible cfs input best ↔ Admissible cfs input target)
    (hrange : ∀ field, axisRange input best target field ≠ 0) :
    exact.getClosestNormalized cfs input best target =
      some (decide (normalizedDistance input best target target <
        normalizedDistance input best target best)) := by
  rw [getClosestNormalized_eq hvalidity, exact_normalize, Option.map_some]
  simp only [exactScaled_eq hrange, exact_distance,
    dataFeaturesDistance_eq, squaredDistance_scaled]
  rfl

end Exact

end FeatureArithmetic

end Margot
