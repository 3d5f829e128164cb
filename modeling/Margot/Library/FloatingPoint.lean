/-
Binary floating-point numbers: the numbers of a format, and the operations that
round to the nearest of them, and to the even one of two.  The sign of a zero is
left out; it shows in a division by zero only.
-/
import Mathlib.Algebra.Order.Field.Power
import Mathlib.Data.Int.Log
import Mathlib.Data.Rat.Floor
import Mathlib.Tactic.FieldSimp
import Mathlib.Tactic.Linarith
import Mathlib.Tactic.Ring

namespace Margot

/-- The nearest integer, and the even one of two. -/
def roundEven (x : ℚ) : ℤ :=
  if x - ⌊x⌋ < 1 / 2 then ⌊x⌋
  else if 1 / 2 < x - ⌊x⌋ then ⌊x⌋ + 1
  else if ⌊x⌋ % 2 = 0 then ⌊x⌋
  else ⌊x⌋ + 1

section Nearest

theorem roundEven_cases (x : ℚ) :
    (roundEven x = ⌊x⌋ ∧ x - ⌊x⌋ ≤ 1 / 2) ∨
      (roundEven x = ⌊x⌋ + 1 ∧ 1 / 2 ≤ x - ⌊x⌋) := by
  rw [roundEven]
  split_ifs with hlow hhigh heven
  · exact .inl ⟨rfl, hlow.le⟩
  · exact .inr ⟨rfl, hhigh.le⟩
  · exact .inl ⟨rfl, not_lt.mp hhigh⟩
  · exact .inr ⟨rfl, not_lt.mp hlow⟩

theorem abs_roundEven_sub_le (x : ℚ) : |roundEven x - x| ≤ 1 / 2 := by
  have hfloor := Int.floor_le x
  have hceil := Int.lt_floor_add_one x
  rw [abs_le]
  rcases roundEven_cases x with ⟨hround, hpart⟩ | ⟨hround, hpart⟩
  · rw [hround]
    constructor
    · linarith
    · linarith
  · rw [hround]
    push_cast
    constructor
    · linarith
    · linarith

theorem roundEven_intCast (k : ℤ) : roundEven (k : ℚ) = k := by
  rw [roundEven, Int.floor_intCast, sub_self, if_pos one_half_pos]

theorem roundEven_mono {x y : ℚ} (hle : x ≤ y) :
    roundEven x ≤ roundEven y := by
  have hfloor : ⌊x⌋ ≤ ⌊y⌋ := Int.floor_le_floor hle
  rcases hfloor.lt_or_eq with hless | hsame
  · rcases roundEven_cases x with ⟨hx, -⟩ | ⟨hx, -⟩ <;>
      rcases roundEven_cases y with ⟨hy, -⟩ | ⟨hy, -⟩ <;> omega
  · -- in one interval the parts below the point decide
    rw [roundEven, roundEven, ← hsame]
    have hpart : x - ⌊x⌋ ≤ y - ⌊x⌋ := by linarith
    split_ifs
    all_goals first
      | exact le_rfl
      | exact (lt_add_one _).le
      | (exfalso; linarith)

theorem le_roundEven {x : ℚ} {k : ℤ} (hle : (k : ℚ) ≤ x) :
    k ≤ roundEven x := by
  rw [← roundEven_intCast k]
  exact roundEven_mono hle

theorem roundEven_le {x : ℚ} {k : ℤ} (hle : x ≤ k) : roundEven x ≤ k := by
  rw [← roundEven_intCast k]
  exact roundEven_mono hle

theorem roundEven_neg (x : ℚ) : roundEven (-x) = -roundEven x := by
  have hfloor := Int.floor_le x
  have habove := Int.lt_floor_add_one x
  rcases hfloor.eq_or_lt with hinteger | hpart
  · have hneg : -x = ((-⌊x⌋ : ℤ) : ℚ) := by
      rw [Int.cast_neg, hinteger]
    rw [hneg, roundEven_intCast, ← hinteger, roundEven_intCast,
      Int.floor_intCast]
  · have hneg : ⌊-x⌋ = -⌊x⌋ - 1 := by
      rw [Int.floor_eq_iff]
      push_cast
      constructor
      · linarith
      · linarith
    rw [roundEven, roundEven, hneg]
    push_cast
    split_ifs
    all_goals first
      | omega
      | (exfalso; linarith)

end Nearest

/-- The number of the bits, the exponent of the smallest positive number, and
the exponent that bounds all the numbers. -/
structure FloatFormat where
  precision : ℕ
  lowest : ℤ
  highest : ℤ
  two_le : 2 ≤ precision
  lowest_le : lowest ≤ 1 - precision
  lt_highest : (precision : ℤ) < highest

namespace FloatFormat

/-- `float` -/
def binary32 : FloatFormat :=
  ⟨24, -149, 128, by decide, by decide, by decide⟩

/-- `double` -/
def binary64 : FloatFormat :=
  ⟨53, -1074, 1024, by decide, by decide, by decide⟩

/-- `long double` of ten bytes -/
def extended : FloatFormat :=
  ⟨64, -16445, 16384, by decide, by decide, by decide⟩

variable (f : FloatFormat)

/-- The exponent of the last bit of a number of this size. -/
def exponent (x : ℚ) : ℤ := max (Int.log 2 |x| + 1 - f.precision) f.lowest

def quantum (x : ℚ) : ℚ := 2 ^ f.exponent x

/-- The nearest number, were there no bound. -/
def round (x : ℚ) : ℚ := roundEven (x / f.quantum x) * f.quantum x

/-- The bound on all the numbers. -/
def bound : ℚ := 2 ^ f.highest

/-- How far apart a number and its rounding are, at most, for a number near
one. -/
def unit : ℚ := 2 ^ (-(f.precision : ℤ))

/-- A number of the format. -/
def Holds (x : ℚ) : Prop := f.round x = x ∧ |x| < f.bound

instance : DecidablePred f.Holds := fun x =>
  inferInstanceAs (Decidable (f.round x = x ∧ |x| < f.bound))

section Rounding

variable {f} {x y : ℚ}

theorem quantum_pos : 0 < f.quantum x := zpow_pos two_pos _

theorem unit_pos : 0 < f.unit := zpow_pos two_pos _

theorem bound_pos : 0 < f.bound := zpow_pos two_pos _

theorem two_pow_lt_bound : (2 : ℚ) ^ f.precision < f.bound := by
  rw [bound, ← zpow_natCast]
  exact zpow_lt_zpow_right₀ one_lt_two f.lt_highest

theorem one_lt_bound : 1 < f.bound :=
  (one_le_pow₀ one_le_two).trans_lt two_pow_lt_bound

theorem unit_le : f.unit ≤ 1 / 4 := by
  have hprecision : -(f.precision : ℤ) ≤ -2 := by
    have htwo := f.two_le
    omega
  calc f.unit ≤ 2 ^ (-2 : ℤ) := zpow_le_zpow_right₀ one_le_two hprecision
    _ = 1 / 4 := by norm_num

theorem lt_two_zpow (x : ℚ) :
    |x| < 2 ^ (f.exponent x + f.precision) := by
  have hlog : |x| < ((2 : ℕ) : ℚ) ^ (Int.log 2 |x| + 1) :=
    Int.lt_zpow_succ_log_self one_lt_two |x|
  have hexponent : Int.log 2 |x| + 1 ≤ f.exponent x + f.precision := by
    have hmax := le_max_left (Int.log 2 |x| + 1 - f.precision) f.lowest
    rw [exponent]
    omega
  exact hlog.trans_le (zpow_le_zpow_right₀ one_le_two hexponent)

theorem abs_round_sub_le (x : ℚ) : |f.round x - x| ≤ f.quantum x / 2 := by
  have hpos : 0 < f.quantum x := quantum_pos
  have hscaled : f.round x - x =
      (roundEven (x / f.quantum x) - x / f.quantum x) * f.quantum x := by
    rw [round, sub_mul, div_mul_cancel₀ x hpos.ne']
  calc |f.round x - x|
      = |roundEven (x / f.quantum x) - x / f.quantum x| * f.quantum x := by
        rw [hscaled, abs_mul, abs_of_pos hpos]
    _ ≤ 1 / 2 * f.quantum x :=
        mul_le_mul_of_nonneg_right (abs_roundEven_sub_le _) hpos.le
    _ = f.quantum x / 2 := by ring

/-- The last bit of a number that is not a small one. -/
theorem quantum_le_of_exponent (hx : x ≠ 0)
    (hexponent : f.exponent x = Int.log 2 |x| + 1 - f.precision) :
    f.quantum x / 2 ≤ f.unit * |x| := by
  have hlog : ((2 : ℕ) : ℚ) ^ Int.log 2 |x| ≤ |x| :=
    Int.zpow_log_le_self one_lt_two (abs_pos.mpr hx)
  have hsplit : f.quantum x / 2 = f.unit * 2 ^ Int.log 2 |x| := by
    rw [quantum, hexponent, unit, ← zpow_add₀ two_ne_zero, div_eq_iff two_ne_zero,
      ← zpow_add_one₀ two_ne_zero]
    congr 1
    ring
  rw [hsplit]
  exact mul_le_mul_of_nonneg_left hlog unit_pos.le

theorem quantum_of_lowest (hexponent : f.exponent x = f.lowest) :
    f.quantum x / 2 ≤ f.unit := by
  have hle : (2 : ℚ) ^ f.lowest ≤ 2 ^ (1 - (f.precision : ℤ)) :=
    zpow_le_zpow_right₀ one_le_two f.lowest_le
  have hunit : (2 : ℚ) ^ (1 - (f.precision : ℤ)) = 2 * f.unit := by
    rw [unit, ← zpow_one_add₀ two_ne_zero]
    congr 1
  rw [quantum, hexponent]
  linarith

/-- A result is rounded by a part of its size, or of one if it is smaller. -/
theorem abs_round_sub_le_unit (x : ℚ) :
    |f.round x - x| ≤ f.unit * max |x| 1 := by
  have hunit : 0 < f.unit := unit_pos
  have hone := mul_le_mul_of_nonneg_left (le_max_right |x| 1) hunit.le
  have hself := mul_le_mul_of_nonneg_left (le_max_left |x| 1) hunit.le
  refine (abs_round_sub_le x).trans ?_
  by_cases hx : x = 0
  · have hzero : f.exponent x = 1 - f.precision ∨ f.exponent x = f.lowest := by
      rw [exponent, hx, abs_zero, Int.log_zero_right, zero_add]
      exact max_choice _ _
    have hlowest : f.quantum x / 2 ≤ f.unit := by
      rcases hzero with hexponent | hexponent
      · rw [quantum, hexponent, unit, div_le_iff₀ two_pos,
          ← zpow_add_one₀ two_ne_zero]
        apply le_of_eq
        congr 1
        ring
      · exact quantum_of_lowest hexponent
    linarith
  · rcases max_choice (Int.log 2 |x| + 1 - f.precision) f.lowest with
      hexponent | hexponent
    · exact (quantum_le_of_exponent hx hexponent).trans hself
    · have hlowest := quantum_of_lowest hexponent
      linarith

theorem round_zero : f.round 0 = 0 := by
  have hzero : roundEven ((0 : ℤ) : ℚ) = 0 := roundEven_intCast 0
  rw [round, zero_div]
  rw [Int.cast_zero] at hzero
  rw [hzero, Int.cast_zero, zero_mul]

/-- A multiple of the smallest positive number is rounded by a part of its
size, and not at all if it is small. -/
theorem abs_round_sub_le_mul {k : ℤ} (hx : x = k * 2 ^ f.lowest) :
    |f.round x - x| ≤ f.unit * |x| := by
  by_cases hzero : x = 0
  · rw [hzero, round_zero, sub_zero, abs_zero, mul_zero]
  · rcases max_choice (Int.log 2 |x| + 1 - f.precision) f.lowest with
      hexponent | hexponent
    · exact (abs_round_sub_le x).trans (quantum_le_of_exponent hzero hexponent)
    · have hquantum : f.quantum x = 2 ^ f.lowest := congrArg (2 ^ ·) hexponent
      have hexact : f.round x = x := by
        have hpos : (0 : ℚ) < 2 ^ f.lowest := zpow_pos two_pos _
        rw [round, hquantum]
        nth_rewrite 1 [hx]
        rw [mul_div_cancel_right₀ _ hpos.ne', roundEven_intCast, ← hx]
      rw [hexact, sub_self, abs_zero]
      exact mul_nonneg unit_pos.le (abs_nonneg x)

/-- What has few bits is not rounded. -/
theorem round_of_lt {k e : ℤ} (he : f.lowest ≤ e) (hk : |k| < 2 ^ f.precision) :
    f.round (k * 2 ^ e) = k * 2 ^ e := by
  by_cases hzero : k = 0
  · rw [hzero, Int.cast_zero, zero_mul, round_zero]
  · have hpos : 0 < |(k : ℚ) * 2 ^ e| :=
      abs_pos.mpr (mul_ne_zero (Int.cast_ne_zero.mpr hzero)
        (zpow_ne_zero _ two_ne_zero))
    have hless : |(k : ℚ) * 2 ^ e| < ((2 : ℕ) : ℚ) ^ (f.precision + e) := by
      have hcast : |(k : ℚ)| < 2 ^ f.precision := by exact_mod_cast hk
      have hpower : |(2 : ℚ) ^ e| = 2 ^ e := abs_of_pos (zpow_pos two_pos e)
      rw [Nat.cast_ofNat, zpow_add₀ two_ne_zero, abs_mul, hpower, zpow_natCast]
      exact mul_lt_mul_of_pos_right hcast (zpow_pos two_pos e)
    have hlog := (Int.lt_zpow_iff_log_lt one_lt_two hpos).mp hless
    have hexponent : f.exponent (k * 2 ^ e) ≤ e := by
      rw [exponent]
      exact max_le (by omega) he
    -- the number is a multiple of its last bit
    obtain ⟨shift, hshift⟩ := Int.eq_ofNat_of_zero_le (sub_nonneg.mpr hexponent)
    have hpow : (2 : ℚ) ^ e =
        ((2 ^ shift : ℤ) : ℚ) * f.quantum (k * 2 ^ e) := by
      rw [quantum, Int.cast_pow, Int.cast_ofNat, ← zpow_natCast,
        ← zpow_add₀ two_ne_zero]
      congr 1
      omega
    have hmultiple : (k : ℚ) * 2 ^ e / f.quantum (k * 2 ^ e) =
        ((k * 2 ^ shift : ℤ) : ℚ) := by
      rw [div_eq_iff quantum_pos.ne', Int.cast_mul, mul_assoc, ← hpow]
    rw [round, hmultiple, roundEven_intCast, ← hmultiple,
      div_mul_cancel₀ _ quantum_pos.ne']

theorem round_of_le {k e : ℤ} (he : f.lowest ≤ e) (hk : |k| ≤ 2 ^ f.precision) :
    f.round (k * 2 ^ e) = k * 2 ^ e := by
  rcases hk.lt_or_eq with hless | hsame
  · exact round_of_lt he hless
  · -- a power of two has one bit
    obtain ⟨sign, hsign, hk⟩ : ∃ sign : ℤ, |sign| = 1 ∧
        k = sign * 2 ^ f.precision := by
      rcases abs_choice k with hpos | hneg
      · exact ⟨1, rfl, by omega⟩
      · exact ⟨-1, rfl, by omega⟩
    have hshifted : (k : ℚ) * 2 ^ e =
        (sign : ℚ) * 2 ^ (e + (f.precision : ℤ)) := by
      rw [hk, Int.cast_mul, Int.cast_pow, Int.cast_ofNat,
        zpow_add₀ two_ne_zero, zpow_natCast]
      ring
    have hfew : |sign| < 2 ^ f.precision := by
      rw [hsign]
      exact one_lt_pow₀ one_lt_two (by have htwo := f.two_le; omega)
    rw [hshifted]
    exact round_of_lt (by omega) hfew

/-- A rounding is a number of few bits. -/
theorem exists_round_eq (x : ℚ) : ∃ k e : ℤ, f.lowest ≤ e ∧
    |k| ≤ 2 ^ f.precision ∧ f.round x = k * 2 ^ e := by
  refine ⟨roundEven (x / f.quantum x), f.exponent x, le_max_right _ _, ?_, rfl⟩
  have hpos : 0 < f.quantum x := quantum_pos
  have hless : |x / f.quantum x| < 2 ^ f.precision := by
    rw [abs_div, abs_of_pos hpos, div_lt_iff₀ hpos, quantum, ← zpow_natCast,
      ← zpow_add₀ two_ne_zero, add_comm]
    exact lt_two_zpow x
  obtain ⟨hlow, hhigh⟩ := abs_lt.mp hless
  rw [abs_le]
  constructor
  · apply le_roundEven
    push_cast
    exact hlow.le
  · apply roundEven_le
    push_cast
    exact hhigh.le

theorem round_round (x : ℚ) : f.round (f.round x) = f.round x := by
  obtain ⟨k, e, he, hk, hround⟩ := exists_round_eq (f := f) x
  rw [hround]
  exact round_of_le he hk

theorem holds_round (hless : |f.round x| < f.bound) : f.Holds (f.round x) :=
  ⟨round_round x, hless⟩

theorem exists_multiple_of_holds (hx : f.Holds x) :
    ∃ k : ℤ, x = k * 2 ^ f.lowest := by
  obtain ⟨k, e, he, -, hround⟩ := exists_round_eq (f := f) x
  obtain ⟨shift, hshift⟩ := Int.eq_ofNat_of_zero_le (sub_nonneg.mpr he)
  refine ⟨k * 2 ^ shift, ?_⟩
  rw [← hx.1, hround, Int.cast_mul, Int.cast_pow, Int.cast_ofNat, mul_assoc,
    ← zpow_natCast, ← zpow_add₀ two_ne_zero]
  congr 2
  omega

/-- A difference of numbers is rounded by a part of its size. -/
theorem abs_round_sub_sub_le (hx : f.Holds x) (hy : f.Holds y) :
    |f.round (x - y) - (x - y)| ≤ f.unit * |x - y| := by
  obtain ⟨k, hk⟩ := exists_multiple_of_holds hx
  obtain ⟨l, hl⟩ := exists_multiple_of_holds hy
  apply abs_round_sub_le_mul (k := k - l)
  rw [hk, hl, Int.cast_sub, sub_mul]

/-- Numbers that differ have a difference that is no zero. -/
theorem round_sub_ne_zero (hx : f.Holds x) (hy : f.Holds y) (hne : x - y ≠ 0) :
    f.round (x - y) ≠ 0 := by
  intro hzero
  have hround := abs_round_sub_sub_le hx hy
  have hpos : 0 < |x - y| := abs_pos.mpr hne
  have hunit : f.unit ≤ 1 / 4 := unit_le
  rw [hzero, zero_sub, abs_neg] at hround
  nlinarith

theorem round_intCast {k : ℤ} (hk : |k| ≤ 2 ^ f.precision) :
    f.round k = k := by
  have hlowest : f.lowest ≤ 0 := by
    have hle := f.lowest_le
    have htwo := f.two_le
    omega
  have hround := round_of_le hlowest hk
  rwa [zpow_zero, mul_one] at hround

theorem round_one : f.round 1 = 1 := by
  have hround := round_intCast (f := f) (k := 1) (one_le_pow₀ one_le_two)
  rwa [Int.cast_one] at hround

theorem exponent_mono (hx : x ≠ 0) (hle : |x| ≤ |y|) :
    f.exponent x ≤ f.exponent y := by
  have hlog := Int.log_mono_right (b := 2) (abs_pos.mpr hx) hle
  apply max_le_max_right
  omega

theorem round_neg (x : ℚ) : f.round (-x) = -f.round x := by
  have hquantum : f.quantum (-x) = f.quantum x := by
    rw [quantum, quantum, exponent, exponent, abs_neg]
  rw [round, round, hquantum, neg_div, roundEven_neg, Int.cast_neg, neg_mul]

theorem round_nonneg (hx : 0 ≤ x) : 0 ≤ f.round x := by
  have hpos : 0 < f.quantum x := quantum_pos
  have hscaled : ((0 : ℤ) : ℚ) ≤ x / f.quantum x := by
    rw [Int.cast_zero]
    exact div_nonneg hx hpos.le
  exact mul_nonneg (Int.cast_nonneg (le_roundEven hscaled)) hpos.le

/-- A rounding does not pass the power of two above. -/
theorem round_le_two_zpow (x : ℚ) :
    f.round x ≤ 2 ^ (f.exponent x + f.precision) := by
  have hpos : 0 < f.quantum x := quantum_pos
  have hpower : (2 : ℚ) ^ (f.exponent x + f.precision) =
      ((2 ^ f.precision : ℤ) : ℚ) * f.quantum x := by
    rw [quantum, Int.cast_pow, Int.cast_ofNat, ← zpow_natCast,
      ← zpow_add₀ two_ne_zero, add_comm]
  rw [hpower, round]
  apply mul_le_mul_of_nonneg_right _ hpos.le
  rw [Int.cast_le]
  apply roundEven_le
  rw [div_le_iff₀ hpos, ← hpower]
  exact (le_abs_self x).trans (lt_two_zpow x).le

/-- Nor the one below, if the number is not a small one. -/
theorem two_zpow_le_round (hx : 0 < x)
    (hexponent : f.exponent x ≤ Int.log 2 x) :
    2 ^ Int.log 2 x ≤ f.round x := by
  have hpos : 0 < f.quantum x := quantum_pos
  obtain ⟨shift, hshift⟩ := Int.eq_ofNat_of_zero_le (sub_nonneg.mpr hexponent)
  have hpower : (2 : ℚ) ^ Int.log 2 x = ((2 ^ shift : ℤ) : ℚ) * f.quantum x := by
    rw [quantum, Int.cast_pow, Int.cast_ofNat, ← zpow_natCast,
      ← zpow_add₀ two_ne_zero]
    congr 1
    omega
  have hlog : ((2 : ℕ) : ℚ) ^ Int.log 2 x ≤ x :=
    Int.zpow_log_le_self one_lt_two hx
  rw [hpower, round]
  apply mul_le_mul_of_nonneg_right _ hpos.le
  rw [Int.cast_le]
  apply le_roundEven
  rw [le_div_iff₀ hpos, ← hpower]
  exact hlog

theorem round_le_round (hx : 0 < x) (hle : x ≤ y) : f.round x ≤ f.round y := by
  have hy : 0 < y := hx.trans_le hle
  have hexponent : f.exponent x ≤ f.exponent y := by
    apply exponent_mono hx.ne'
    rwa [abs_of_pos hx, abs_of_pos hy]
  rcases hexponent.lt_or_eq with hless | hsame
  · -- a power of two lies between the numbers
    have habove : f.exponent y = Int.log 2 y + 1 - f.precision := by
      rcases max_choice (Int.log 2 |y| + 1 - f.precision) f.lowest with
        hlarge | hsmall
      · rw [exponent, hlarge, abs_of_pos hy]
      · have hlowest : f.lowest ≤ f.exponent x := le_max_right _ _
        have hy : f.exponent y = f.lowest := hsmall
        omega
    have htwo := f.two_le
    calc f.round x ≤ 2 ^ (f.exponent x + f.precision) := round_le_two_zpow x
      _ ≤ 2 ^ Int.log 2 y := zpow_le_zpow_right₀ one_le_two (by omega)
      _ ≤ f.round y := two_zpow_le_round hy (by omega)
  · have hquantum : f.quantum x = f.quantum y := congrArg (2 ^ ·) hsame
    have hpos : 0 < f.quantum y := quantum_pos
    rw [round, round, hquantum]
    apply mul_le_mul_of_nonneg_right _ hpos.le
    rw [Int.cast_le]
    exact roundEven_mono (div_le_div_of_nonneg_right hle hpos.le)

theorem round_mono : Monotone f.round := by
  intro x y hle
  rcases lt_or_ge 0 x with hpos | hneg
  · exact round_le_round hpos hle
  · have hx : 0 ≤ f.round (-x) := round_nonneg (neg_nonneg.mpr hneg)
    rw [round_neg] at hx
    rcases lt_or_ge y 0 with hyneg | hypos
    · have hback := round_le_round (f := f) (neg_pos.mpr hyneg)
        (neg_le_neg hle)
      rw [round_neg, round_neg] at hback
      exact neg_le_neg_iff.mp hback
    · exact (neg_nonneg.mp hx).trans (round_nonneg hypos)

theorem abs_round_le {k : ℤ} (hk : |k| ≤ 2 ^ f.precision) (hx : |x| ≤ k) :
    |f.round x| ≤ k := by
  obtain ⟨hlow, hhigh⟩ := abs_le.mp hx
  have hround := round_intCast hk
  rw [abs_le]
  constructor
  · rw [← hround, ← round_neg]
    exact round_mono hlow
  · rw [← hround]
    exact round_mono hhigh

end Rounding

end FloatFormat

end Margot
