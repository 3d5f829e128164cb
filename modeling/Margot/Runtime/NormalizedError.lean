/-
How far the distance between floating-point numbers is from the normalized
distance.  Each operation rounds by a part of its size, so the errors of the
fields add up to a margin.
-/
import Mathlib.Algebra.Order.BigOperators.Group.Finset
import Margot.Runtime.NormalizedFloating

namespace Margot

namespace FloatFormat

variable {f : FloatFormat} {n : Nat}

/-- Twice the error of a distance, at most. -/
def margin (f : FloatFormat) (n : Nat) : ℚ := f.unit * ((n + 1) * (n + 40))

section Operations

variable {x y : Floating f} {a b p q e : ℚ}

theorem ofRat_is_of_le {k : ℤ} (hk : |k| ≤ 2 ^ f.precision) (ha : |a| ≤ k) :
    (Floating.ofRat f a).Is (f.round a) := by
  have hbits : (k : ℚ) ≤ 2 ^ f.precision := by
    exact_mod_cast (le_abs_self k).trans hk
  apply Floating.ofRat_is
  exact (abs_round_le hk ha).trans_lt (hbits.trans_lt two_pow_lt_bound)

theorem abs_round_sub_le_of_le (ha : |a| ≤ b) (hb : 1 ≤ b) :
    |f.round a - a| ≤ f.unit * b :=
  (abs_round_sub_le_unit a).trans
    (mul_le_mul_of_nonneg_left (max_le ha hb) unit_pos.le)

/-- A ratio of roundings is near the ratio of what was rounded. -/
theorem abs_ratio_sub_le {offset width : ℚ} (hwidth : 0 < width)
    (hnonneg : 0 ≤ offset) (hle : offset ≤ width)
    (hoffset : |f.round offset - offset| ≤ f.unit * |offset|)
    (hrounded : |f.round width - width| ≤ f.unit * |width|) :
    |f.round offset / f.round width - offset / width| ≤ 3 * f.unit := by
  have hunit : 0 < f.unit := unit_pos
  have hsmall : f.unit ≤ 1 / 4 := unit_le
  rw [abs_of_nonneg hnonneg] at hoffset
  rw [abs_of_pos hwidth] at hrounded
  obtain ⟨hlow, hhigh⟩ := abs_le.mp hrounded
  have hpart : f.unit * width ≤ width / 4 := by nlinarith
  have hpos : 0 < f.round width := by linarith
  have hcross : |f.round offset * width - f.round width * offset| ≤
      2 * (f.unit * (width * width)) := by
    have hsplit : f.round offset * width - f.round width * offset =
        (f.round offset - offset) * width -
          (f.round width - width) * offset := by ring
    have hfirst : |(f.round offset - offset) * width| ≤
        f.unit * (width * width) := by
      rw [abs_mul, abs_of_pos hwidth, ← mul_assoc]
      apply mul_le_mul_of_nonneg_right _ hwidth.le
      exact hoffset.trans (mul_le_mul_of_nonneg_left hle hunit.le)
    have hsecond : |(f.round width - width) * offset| ≤
        f.unit * (width * width) := by
      rw [abs_mul, abs_of_nonneg hnonneg, ← mul_assoc]
      exact mul_le_mul hrounded hle hnonneg (mul_nonneg hunit.le hwidth.le)
    rw [hsplit]
    have hsum := abs_sub ((f.round offset - offset) * width)
      ((f.round width - width) * offset)
    linarith
  rw [div_sub_div _ _ hpos.ne' hwidth.ne', abs_div, abs_of_pos (mul_pos hpos hwidth),
    div_le_iff₀ (mul_pos hpos hwidth)]
  calc |f.round offset * width - f.round width * offset|
      ≤ 2 * (f.unit * (width * width)) := hcross
    _ ≤ 3 * f.unit * (f.round width * width) := by
        have hwide : 3 / 4 * width ≤ f.round width := by linarith
        have hproduct : 3 / 4 * width * width ≤ f.round width * width :=
          mul_le_mul_of_nonneg_right hwide hwidth.le
        nlinarith [mul_pos hunit (mul_pos hwidth hwidth)]

/-- Scaled numbers are subtracted with a rounding of the size of one. -/
theorem exists_difference (hx : x.Is a) (hy : y.Is b) (ha : 0 ≤ a ∧ a ≤ 1)
    (hb : 0 ≤ b ∧ b ≤ 1) (hp : |a - p| ≤ 4 * f.unit)
    (hq : |b - q| ≤ 4 * f.unit) :
    ∃ d, (x.sub y).Is d ∧ |d| ≤ 1 ∧ |d - (p - q)| ≤ 9 * f.unit := by
  have hsize : |a - b| ≤ ((1 : ℤ) : ℚ) := by
    rw [abs_le]
    push_cast
    constructor
    · linarith [ha.1, hb.2]
    · linarith [ha.2, hb.1]
  have hone : |(1 : ℤ)| ≤ 2 ^ f.precision := one_le_pow₀ one_le_two
  refine ⟨f.round (a - b), ?_, ?_, ?_⟩
  · rw [Floating.sub_eq hx hy]
    exact ofRat_is_of_le hone hsize
  · have hround := abs_round_le hone hsize
    rwa [Int.cast_one] at hround
  · rw [Int.cast_one] at hsize
    have hround := abs_round_sub_le_of_le (f := f) hsize le_rfl
    rw [abs_le] at hround hp hq ⊢
    constructor
    · linarith [hround.1, hp.1, hq.2]
    · linarith [hround.2, hp.2, hq.1]

theorem exists_square (hx : x.Is a) (ha : |a| ≤ 1) (hp : |p| ≤ 1)
    (hnear : |a - p| ≤ 9 * f.unit) :
    ∃ s, (x.mul x).Is s ∧ 0 ≤ s ∧ s ≤ 1 ∧ |s - p ^ 2| ≤ 19 * f.unit := by
  have hnonneg : 0 ≤ a * a := mul_self_nonneg a
  have hsize : |a * a| ≤ ((1 : ℤ) : ℚ) := by
    rw [abs_mul, Int.cast_one]
    exact mul_le_one₀ ha (abs_nonneg a) ha
  have hone : |(1 : ℤ)| ≤ 2 ^ f.precision := one_le_pow₀ one_le_two
  refine ⟨f.round (a * a), ?_, round_nonneg hnonneg, ?_, ?_⟩
  · rw [Floating.mul_eq hx hx]
    exact ofRat_is_of_le hone hsize
  · have hround := abs_round_le hone hsize
    rw [Int.cast_one] at hround
    exact (le_abs_self _).trans hround
  · rw [Int.cast_one] at hsize
    have hround := abs_round_sub_le_of_le (f := f) hsize le_rfl
    have hexact : |a * a - p ^ 2| ≤ 18 * f.unit := by
      have hfactor : a * a - p ^ 2 = (a - p) * (a + p) := by ring
      have hsum : |a + p| ≤ 2 := (abs_add_le a p).trans (by linarith)
      rw [hfactor, abs_mul]
      calc |a - p| * |a + p| ≤ 9 * f.unit * 2 :=
            mul_le_mul hnear hsum (abs_nonneg _)
              (mul_nonneg (by norm_num) unit_pos.le)
        _ = 18 * f.unit := by ring
    rw [abs_le] at hround hexact ⊢
    constructor
    · linarith [hround.1, hexact.1]
    · linarith [hround.2, hexact.2]

theorem exists_sum {k : ℕ} (hk : k + 1 ≤ 2 ^ f.precision) (hx : x.Is a)
    (hy : y.Is b) (ha : 0 ≤ a ∧ a ≤ 1) (hb : 0 ≤ b ∧ b ≤ k)
    (hp : |a - p| ≤ 19 * f.unit) (hq : |b - q| ≤ e) :
    ∃ s, (x.add y).Is s ∧ 0 ≤ s ∧ s ≤ k + 1 ∧
      |s - (p + q)| ≤ e + 19 * f.unit + f.unit * (k + 1) := by
  have hnonneg : 0 ≤ a + b := add_nonneg ha.1 hb.1
  have hsize : |a + b| ≤ k + 1 := by
    rw [abs_of_nonneg hnonneg]
    linarith [ha.2, hb.2]
  have hcast : (((k + 1 : ℕ) : ℤ) : ℚ) = k + 1 := by push_cast; rfl
  have hbits : |((k + 1 : ℕ) : ℤ)| ≤ 2 ^ f.precision := by
    rw [abs_of_nonneg (Int.natCast_nonneg _)]
    exact_mod_cast hk
  have hinteger : |a + b| ≤ (((k + 1 : ℕ) : ℤ) : ℚ) := by rwa [hcast]
  refine ⟨f.round (a + b), ?_, round_nonneg hnonneg, ?_, ?_⟩
  · rw [Floating.add_eq hx hy]
    exact ofRat_is_of_le hbits hinteger
  · have hround := abs_round_le hbits hinteger
    rw [hcast] at hround
    exact (le_abs_self _).trans hround
  · have hlarge : (1 : ℚ) ≤ k + 1 := by
      have hk : (0 : ℚ) ≤ k := Nat.cast_nonneg k
      linarith
    have hround := abs_round_sub_le_of_le (f := f) hsize hlarge
    rw [abs_le] at hround hp hq ⊢
    constructor
    · linarith [hround.1, hp.1, hq.1]
    · linarith [hround.2, hp.2, hq.2]

/-- A value is scaled to a number near its part of the range. -/
theorem exists_quotient {value low high : f.Value} (hlow : low ≤ value)
    (hhigh : value ≤ high) (hrange : high.val - low.val ≠ 0)
    (hbound : f.round (high.val - low.val) < f.bound) :
    ∃ c, (((Floating.finite value).sub (.finite low)).div
        ((Floating.finite high).sub (.finite low))).Is c ∧ (0 ≤ c ∧ c ≤ 1) ∧
      |c - (value.val - low.val) / (high.val - low.val)| ≤ 4 * f.unit := by
  have hnonneg : 0 ≤ value.val - low.val := sub_nonneg.mpr hlow
  have hbelow : value.val ≤ high.val := hhigh
  have hle : value.val - low.val ≤ high.val - low.val :=
    sub_le_sub_right hbelow low.val
  have hwide : 0 < high.val - low.val :=
    lt_of_le_of_ne (hnonneg.trans hle) hrange.symm
  have hoffset : 0 ≤ f.round (value.val - low.val) := round_nonneg hnonneg
  have hrounded : f.round (value.val - low.val) ≤ f.round (high.val - low.val) :=
    round_mono hle
  have hwidth : 0 < f.round (high.val - low.val) :=
    lt_of_le_of_ne (hoffset.trans hrounded)
      (round_sub_ne_zero high.2 low.2 hrange).symm
  have hratio := abs_ratio_sub_le (f := f) hwide hnonneg hle
    (abs_round_sub_sub_le value.2 low.2) (abs_round_sub_sub_le high.2 low.2)
  have hpart : 0 ≤ f.round (value.val - low.val) / f.round (high.val - low.val) :=
    div_nonneg hoffset hwidth.le
  have hsize : |f.round (value.val - low.val) / f.round (high.val - low.val)| ≤
      ((1 : ℤ) : ℚ) := by
    rw [abs_of_nonneg hpart, Int.cast_one]
    exact div_le_one_of_le₀ hrounded hwidth.le
  have hone : |(1 : ℤ)| ≤ 2 ^ f.precision := one_le_pow₀ one_le_two
  have hwidthIs : ((Floating.finite high).sub (.finite low)).Is
      (f.round (high.val - low.val)) := by
    rw [Floating.sub_eq (Floating.is_finite _) (Floating.is_finite _)]
    exact Floating.ofRat_is (by rwa [abs_of_pos hwidth])
  have hoffsetIs : ((Floating.finite value).sub (.finite low)).Is
      (f.round (value.val - low.val)) := by
    rw [Floating.sub_eq (Floating.is_finite _) (Floating.is_finite _)]
    apply Floating.ofRat_is
    rw [abs_of_nonneg hoffset]
    exact hrounded.trans_lt hbound
  refine ⟨f.round (f.round (value.val - low.val) /
    f.round (high.val - low.val)), ?_, ⟨round_nonneg hpart, ?_⟩, ?_⟩
  · rw [Floating.div_eq hoffsetIs hwidthIs hwidth.ne']
    exact ofRat_is_of_le hone hsize
  · have hround := abs_round_le hone hsize
    rw [Int.cast_one] at hround
    exact (le_abs_self _).trans hround
  · rw [Int.cast_one] at hsize
    have hround := abs_round_sub_le_of_le (f := f) hsize le_rfl
    rw [abs_le] at hround hratio ⊢
    constructor
    · linarith [hround.1, hratio.1]
    · linarith [hround.2, hratio.2]

end Operations

section Points

variable {input best target key : Fin (n + 1) → f.Value} {field : Fin (n + 1)}

/-- The part of the range that a coordinate is at. -/
def part (input best target key : Fin (n + 1) → ℚ) (field : Fin (n + 1)) : ℚ :=
  (key field - axisLow input best target field) /
    axisRange input best target field

/-- The point lies within the range of the three. -/
def Inside (input best target key : Fin (n + 1) → f.Value) : Prop :=
  ∀ field, axisLow input best target field ≤ key field ∧
    key field ≤ axisHigh input best target field

theorem exists_scaled
    (hspanned : Spanned f (values input) (values best) (values target))
    (hinside : Inside input best target key) (field : Fin (n + 1)) :
    ∃ c, (scaled input best target field key).Is c ∧ (0 ≤ c ∧ c ≤ 1) ∧
      |c - part (values input) (values best) (values target) (values key) field| ≤
        4 * f.unit := by
  obtain ⟨hrange, hbound⟩ := hspanned field
  obtain ⟨hlow, hhigh⟩ := hinside field
  rw [← axisRange_values] at hrange hbound
  obtain ⟨c, his, hunit, hnear⟩ := exists_quotient hlow hhigh hrange hbound
  refine ⟨c, his, hunit, ?_⟩
  rw [axisRange_values, val_axisLow] at hnear
  exact hnear

theorem part_mem_unit (field : Fin (n + 1))
    (hinside : Inside input best target key) :
    0 ≤ part (values input) (values best) (values target) (values key) field ∧
      part (values input) (values best) (values target) (values key) field ≤
        1 := by
  have hnonneg := axisRange_nonneg field (values input) (values best)
    (values target)
  obtain ⟨hlow, hhigh⟩ := hinside field
  have hlow : axisLow (values input) (values best) (values target) field ≤
      values key field := by
    rw [← val_axisLow]
    exact hlow
  have hhigh : values key field ≤
      axisHigh (values input) (values best) (values target) field := by
    rw [← val_axisHigh]
    exact hhigh
  constructor
  · exact div_nonneg (sub_nonneg.mpr hlow) hnonneg
  · exact div_le_one_of_le₀ (sub_le_sub_right hhigh _) hnonneg

theorem exists_square_scaled
    (hspanned : Spanned f (values input) (values best) (values target))
    (hinput : Inside input best target input)
    (hkey : Inside input best target key) (field : Fin (n + 1)) :
    ∃ s, (((scaled input best target field input).sub
        (scaled input best target field key)).mul
      ((scaled input best target field input).sub
        (scaled input best target field key))).Is s ∧ 0 ≤ s ∧ s ≤ 1 ∧
      |s - (part (values input) (values best) (values target) (values input)
          field -
        part (values input) (values best) (values target) (values key)
          field) ^ 2| ≤ 19 * f.unit := by
  obtain ⟨hinputLow, hinputHigh⟩ := part_mem_unit field hinput
  obtain ⟨hkeyLow, hkeyHigh⟩ := part_mem_unit field hkey
  obtain ⟨a, ha, haunit, hanear⟩ := exists_scaled hspanned hinput field
  obtain ⟨b, hb, hbunit, hbnear⟩ := exists_scaled hspanned hkey field
  obtain ⟨d, hd, hdunit, hdnear⟩ :=
    exists_difference ha hb haunit hbunit hanear hbnear
  apply exists_square hd hdunit _ hdnear
  rw [abs_le]
  constructor
  · linarith
  · linarith

/-- The errors of the fields add up. -/
theorem exists_distance {origin target : Fin (n + 1) → Floating f}
    {p q : Fin (n + 1) → ℚ}
    (hsquares : ∀ field, ∃ s, (((origin field).sub (target field)).mul
        ((origin field).sub (target field))).Is s ∧ 0 ≤ s ∧ s ≤ 1 ∧
      |s - (p field - q field) ^ 2| ≤ 19 * f.unit) {index : Nat}
    (hindex : index < n + 1) (hbits : index + 1 ≤ 2 ^ f.precision) :
    ∃ s, (f.arithmetic.distance origin target index hindex).Is s ∧ 0 ≤ s ∧
      s ≤ (index + 1 : ℕ) ∧
      |s - dataFeaturesDistance p q index hindex| ≤
        f.unit * ((index + 1) * (index + 40) / 2) := by
  have hunit : 0 < f.unit := unit_pos
  induction index with
  | zero =>
      obtain ⟨s, his, hnonneg, hone, hnear⟩ := hsquares ⟨0, hindex⟩
      refine ⟨s, his, hnonneg, by simpa using hone, ?_⟩
      rw [pow_two] at hnear
      refine hnear.trans ?_
      push_cast
      linarith
  | succ index ih =>
      obtain ⟨t, hlower, htnonneg, htsize, htnear⟩ := ih (by omega) (by omega)
      obtain ⟨s, his, hnonneg, hone, hnear⟩ := hsquares ⟨index + 1, hindex⟩
      obtain ⟨r, hsum, hrnonneg, hrsize, hrnear⟩ := exists_sum hbits his hlower
        ⟨hnonneg, hone⟩ ⟨htnonneg, htsize⟩ hnear htnear
      refine ⟨r, hsum, hrnonneg, by push_cast at hrsize ⊢; exact hrsize, ?_⟩
      rw [pow_two] at hrnear
      refine hrnear.trans (le_of_eq ?_)
      push_cast
      ring

/-- The distance of a key, as it is computed, is half a margin away at most. -/
theorem exists_normalized
    (hspanned : Spanned f (values input) (values best) (values target))
    (hkey : Inside input best target key) (hbits : n + 1 ≤ 2 ^ f.precision) :
    ∃ s, (f.arithmetic.distance
        (fun field => scaled input best target field input)
        (fun field => scaled input best target field key) n n.lt_succ_self).Is s ∧
      |s - normalizedDistance (values input) (values best) (values target)
        (values key)| ≤ margin f n / 2 := by
  have hinput : Inside input best target input := input_within input best target
  obtain ⟨s, his, -, -, hnear⟩ := exists_distance
    (exists_square_scaled hspanned hinput hkey) n.lt_succ_self hbits
  refine ⟨s, his, ?_⟩
  rw [dataFeaturesDistance_eq] at hnear
  have hexact := FeatureArithmetic.squaredDistance_scaled (values input)
    (values best) (values target) (values key)
  rw [← hexact]
  refine hnear.trans (le_of_eq ?_)
  rw [margin]
  ring

theorem normalizedDistance_le (hkey : Inside input best target key) :
    normalizedDistance (values input) (values best) (values target)
      (values key) ≤ n + 1 := by
  have hterm : ∀ field ∈ (Finset.univ : Finset (Fin (n + 1))),
      ((values input field - values key field) /
        axisRange (values input) (values best) (values target) field) ^ 2 ≤
          1 := by
    intro field _
    obtain ⟨hinputLow, hinputHigh⟩ :=
      part_mem_unit field (input_within input best target)
    obtain ⟨hkeyLow, hkeyHigh⟩ := part_mem_unit field hkey
    have hparts : (values input field - values key field) /
        axisRange (values input) (values best) (values target) field =
      part (values input) (values best) (values target) (values input) field -
        part (values input) (values best) (values target) (values key) field := by
      rw [part, part]
      ring
    rw [hparts, sq_le_one_iff_abs_le_one, abs_le]
    constructor
    · linarith
    · linarith
  have hsum := Finset.sum_le_card_nsmul _ _ _ hterm
  rw [Finset.card_univ, Fintype.card_fin, nsmul_one] at hsum
  push_cast at hsum
  exact hsum

/-- So many fields have a margin above every distance. -/
theorem lt_margin (hbits : 2 ^ f.precision < n + 1) : (n : ℚ) + 1 < margin f n := by
  have hpower : f.unit * 2 ^ f.precision = 1 := by
    rw [unit, ← zpow_natCast, ← zpow_add₀ two_ne_zero, neg_add_cancel, zpow_zero]
  have hcast : (2 : ℚ) ^ f.precision < n + 1 := by exact_mod_cast hbits
  have hn : (0 : ℚ) ≤ n := Nat.cast_nonneg n
  have hone : 1 < f.unit * (n + 1) :=
    calc 1 = f.unit * 2 ^ f.precision := hpower.symm
      _ < f.unit * (n + 1) := mul_lt_mul_of_pos_left hcast unit_pos
  rw [margin, ← mul_assoc]
  nlinarith

end Points

section Selector

variable {cfs : Fin (n + 1) → FeatureComparison}
  {input best target : Fin (n + 1) → f.Value}

/-- Where every axis is spanned, the key that is closer by more than the margin
is selected, and the best one if it is closer by the margin. -/
theorem floating_selector
    (hvalidity : Admissible cfs input best ↔ Admissible cfs input target)
    (hspanned : Spanned f (values input) (values best) (values target)) :
    (normalizedDistance (values input) (values best) (values target)
          (values target) + margin f n <
        normalizedDistance (values input) (values best) (values target)
          (values best) →
      f.arithmetic.getClosestNormalized cfs input best target = some true) ∧
    (normalizedDistance (values input) (values best) (values target)
          (values best) + margin f n ≤
        normalizedDistance (values input) (values best) (values target)
          (values target) →
      f.arithmetic.getClosestNormalized cfs input best target =
        some false) := by
  have hbest : Inside input best target best := best_within input best target
  have htarget : Inside input best target target :=
    target_within input best target
  rcases le_or_gt (n + 1) (2 ^ f.precision) with hbits | hbits
  · obtain ⟨b, hb, hbnear⟩ := exists_normalized hspanned hbest hbits
    obtain ⟨t, ht, htnear⟩ := exists_normalized hspanned htarget hbits
    have hcomputed := floating_getClosestNormalized input best target hvalidity
    rw [Floating.less_eq ht hb] at hcomputed
    rw [hcomputed]
    rw [abs_le] at hbnear htnear
    constructor
    · intro hcloser
      exact congrArg some (decide_eq_true (by linarith [htnear.2, hbnear.1]))
    · intro hfarther
      exact congrArg some (decide_eq_false
        (by linarith [htnear.1, hbnear.2]))
  · -- no two distances are so far from each other
    have hmargin := lt_margin hbits
    have hbestLe := normalizedDistance_le hbest
    have htargetLe := normalizedDistance_le htarget
    have hbestNonneg : 0 ≤ normalizedDistance (values input) (values best)
        (values target) (values best) :=
      Finset.sum_nonneg fun _ _ => sq_nonneg _
    have htargetNonneg : 0 ≤ normalizedDistance (values input) (values best)
        (values target) (values target) :=
      Finset.sum_nonneg fun _ _ => sq_nonneg _
    constructor
    · intro hcloser
      linarith
    · intro hfarther
      linarith

end Selector

end FloatFormat

end Margot
