/-
The values of a floating-point format: its numbers, the infinities and what is
not a number.  An operation rounds the exact result, and gives an infinity where
that passes the bound.
-/
import Margot.Library.FloatingPoint

namespace Margot

namespace FloatFormat

/-- The numbers of the format. -/
def Value (f : FloatFormat) : Type := {x : ℚ // f.Holds x}

instance (f : FloatFormat) : LinearOrder f.Value :=
  inferInstanceAs (LinearOrder {x : ℚ // f.Holds x})

end FloatFormat

inductive Floating (f : FloatFormat) where
  | nan
  | infinite (negative : Bool)
  | finite (value : f.Value)

namespace Floating

variable {f : FloatFormat}

/-- The result of an operation. -/
def ofRat (f : FloatFormat) (x : ℚ) : Floating f :=
  if hbound : |f.round x| < f.bound then
    .finite ⟨f.round x, FloatFormat.holds_round hbound⟩
  else .infinite (x < 0)

def add : Floating f → Floating f → Floating f
  | .nan, _ => .nan
  | _, .nan => .nan
  | .infinite first, .infinite second =>
      if first = second then .infinite first else .nan
  | .infinite negative, .finite _ => .infinite negative
  | .finite _, .infinite negative => .infinite negative
  | .finite a, .finite b => ofRat f (a.val + b.val)

def sub : Floating f → Floating f → Floating f
  | .nan, _ => .nan
  | _, .nan => .nan
  | .infinite first, .infinite second =>
      if first = second then .nan else .infinite first
  | .infinite negative, .finite _ => .infinite negative
  | .finite _, .infinite negative => .infinite (!negative)
  | .finite a, .finite b => ofRat f (a.val - b.val)

def mul : Floating f → Floating f → Floating f
  | .nan, _ => .nan
  | _, .nan => .nan
  | .infinite first, .infinite second => .infinite (first ^^ second)
  | .infinite negative, .finite b =>
      if b.val = 0 then .nan else .infinite (negative ^^ decide (b.val < 0))
  | .finite a, .infinite negative =>
      if a.val = 0 then .nan else .infinite (decide (a.val < 0) ^^ negative)
  | .finite a, .finite b => ofRat f (a.val * b.val)

def div : Floating f → Floating f → Floating f
  | .nan, _ => .nan
  | _, .nan => .nan
  | .infinite _, .infinite _ => .nan
  | .infinite negative, .finite b => .infinite (negative ^^ decide (b.val < 0))
  | .finite _, .infinite _ => ofRat f 0
  | .finite a, .finite b =>
      if b.val = 0 then if a.val = 0 then .nan else .infinite (a.val < 0)
      else ofRat f (a.val / b.val)

/-- What is not a number is neither less nor greater than anything. -/
def less : Floating f → Floating f → Bool
  | .nan, _ => false
  | _, .nan => false
  | .infinite first, .infinite second => first && !second
  | .infinite negative, .finite _ => negative
  | .finite _, .infinite negative => !negative
  | .finite a, .finite b => a < b

/-- It is this number. -/
def Is (x : Floating f) (q : ℚ) : Prop :=
  ∃ value : f.Value, x = .finite value ∧ value.val = q

section Numbers

variable {x y : Floating f} {a b : ℚ}

theorem is_finite (value : f.Value) : (finite value).Is value.val :=
  ⟨value, rfl, rfl⟩

theorem Is.unique (ha : x.Is a) (hb : x.Is b) : a = b := by
  obtain ⟨value, rfl, rfl⟩ := ha
  obtain ⟨other, hsame, rfl⟩ := hb
  injection hsame with hsame
  rw [hsame]

theorem ofRat_is (hbound : |f.round a| < f.bound) :
    (ofRat f a).Is (f.round a) :=
  ⟨_, dif_pos hbound, rfl⟩

theorem ofRat_of_le (hbound : f.bound ≤ |f.round a|) :
    ofRat f a = .infinite (a < 0) :=
  dif_neg (not_lt.mpr hbound)

theorem add_eq (hx : x.Is a) (hy : y.Is b) : x.add y = ofRat f (a + b) := by
  obtain ⟨value, rfl, rfl⟩ := hx
  obtain ⟨other, rfl, rfl⟩ := hy
  rfl

theorem sub_eq (hx : x.Is a) (hy : y.Is b) : x.sub y = ofRat f (a - b) := by
  obtain ⟨value, rfl, rfl⟩ := hx
  obtain ⟨other, rfl, rfl⟩ := hy
  rfl

theorem mul_eq (hx : x.Is a) (hy : y.Is b) : x.mul y = ofRat f (a * b) := by
  obtain ⟨value, rfl, rfl⟩ := hx
  obtain ⟨other, rfl, rfl⟩ := hy
  rfl

theorem div_eq (hx : x.Is a) (hy : y.Is b) (hb : b ≠ 0) :
    x.div y = ofRat f (a / b) := by
  obtain ⟨value, rfl, rfl⟩ := hx
  obtain ⟨other, rfl, rfl⟩ := hy
  exact if_neg hb

theorem less_eq (hx : x.Is a) (hy : y.Is b) : x.less y = decide (a < b) := by
  obtain ⟨value, rfl, rfl⟩ := hx
  obtain ⟨other, rfl, rfl⟩ := hy
  rfl

end Numbers

section Spoiled

variable (x : Floating f)

@[simp] theorem add_nan : x.add nan = nan := by
  cases x <;> rfl

@[simp] theorem nan_sub : (nan : Floating f).sub x = nan := rfl

@[simp] theorem sub_nan : x.sub nan = nan := by
  cases x <;> rfl

@[simp] theorem less_nan : x.less nan = false := by
  cases x <;> rfl

variable {x}

/-- Nothing but a number other than zero divides itself. -/
theorem div_self_of_not (hnot : ∀ q, x.Is q → q = 0) : x.div x = nan := by
  cases x with
  | nan => rfl
  | infinite negative => rfl
  | finite value =>
      have hzero : value.val = 0 := hnot value.val (is_finite value)
      rw [div, if_pos hzero, if_pos hzero]

end Spoiled

/-- It is at least this number, which what is not a number is not. -/
def AtLeast (q : ℚ) : Floating f → Prop
  | .nan => False
  | .infinite negative => negative = false
  | .finite value => q ≤ value.val

/-- It is not less than zero. -/
def NotNegative : Floating f → Prop
  | .nan => True
  | .infinite negative => negative = false
  | .finite value => 0 ≤ value.val

/-- It is zero, if it is a number. -/
def Vanishes : Floating f → Prop
  | .nan => True
  | .infinite _ => False
  | .finite value => value.val = 0

section Signs

variable {x y : Floating f} {a q : ℚ}

theorem ofRat_zero_is : (ofRat f 0).Is 0 := by
  have hround : f.round 0 = 0 := FloatFormat.round_zero
  have hbound : |f.round 0| < f.bound := by
    rw [hround, abs_zero]
    exact FloatFormat.bound_pos
  have his := ofRat_is hbound
  rwa [hround] at his

theorem ofRat_one_is : (ofRat f 1).Is 1 := by
  have hround : f.round 1 = 1 := FloatFormat.round_one
  have hbound : |f.round 1| < f.bound := by
    rw [hround, abs_one]
    exact FloatFormat.one_lt_bound
  have his := ofRat_is hbound
  rwa [hround] at his

theorem ofRat_neg_one_is : (ofRat f (-1)).Is (-1) := by
  have hround : f.round (-1) = -1 := by
    rw [FloatFormat.round_neg, FloatFormat.round_one]
  have hbound : |f.round (-1)| < f.bound := by
    rw [hround, abs_neg, abs_one]
    exact FloatFormat.one_lt_bound
  have his := ofRat_is hbound
  rwa [hround] at his

theorem ofRat_atLeast (hq : f.round q = q) (hnonneg : 0 ≤ q) (hle : q ≤ a) :
    (ofRat f a).AtLeast q := by
  rcases lt_or_ge |f.round a| f.bound with hbound | hbound
  · obtain ⟨value, hvalue, hval⟩ := ofRat_is hbound
    rw [hvalue, AtLeast, hval, ← hq]
    exact FloatFormat.round_mono hle
  · rw [ofRat_of_le hbound]
    exact decide_eq_false (not_lt.mpr (hnonneg.trans hle))

theorem Is.atLeast (hx : x.Is a) (hle : q ≤ a) : x.AtLeast q := by
  obtain ⟨value, rfl, rfl⟩ := hx
  exact hle

theorem AtLeast.trans (hx : x.AtLeast a) (hle : q ≤ a) : x.AtLeast q := by
  cases x with
  | nan => exact hx
  | infinite negative => exact hx
  | finite value => exact le_trans hle hx

theorem AtLeast.notNegative (hx : x.AtLeast 0) : x.NotNegative := by
  cases x with
  | nan => trivial
  | infinite negative => exact hx
  | finite value => exact hx

theorem mul_self_notNegative (x : Floating f) : (x.mul x).NotNegative := by
  cases x with
  | nan => trivial
  | infinite negative => exact Bool.xor_self negative
  | finite value =>
      exact (ofRat_atLeast FloatFormat.round_zero le_rfl
        (mul_self_nonneg value.val)).notNegative

theorem add_notNegative (hx : x.NotNegative) (hy : y.NotNegative) :
    (x.add y).NotNegative := by
  cases x with
  | nan => trivial
  | infinite negative =>
      cases y with
      | nan => trivial
      | infinite other =>
          obtain rfl : negative = false := hx
          obtain rfl : other = false := hy
          rfl
      | finite value => exact hx
  | finite value =>
      cases y with
      | nan => trivial
      | infinite other => exact hy
      | finite other =>
          exact (ofRat_atLeast FloatFormat.round_zero le_rfl
            (add_nonneg hx hy)).notNegative

/-- Adding what is not less than zero to a number keeps what it is at least. -/
theorem add_atLeast (hq : f.round q = q) (hnonneg : 0 ≤ q) (hx : x.AtLeast 0)
    (hy : y.AtLeast q) : (x.add y).AtLeast q := by
  cases x with
  | nan => exact hx.elim
  | infinite negative =>
      obtain rfl : negative = false := hx
      cases y with
      | nan => exact hy.elim
      | infinite other =>
          obtain rfl : other = false := hy
          rfl
      | finite other => rfl
  | finite value =>
      cases y with
      | nan => exact hy.elim
      | infinite other => exact hy
      | finite other =>
          have hvalue : 0 ≤ value.val := hx
          have hother : q ≤ other.val := hy
          exact ofRat_atLeast hq hnonneg (by linarith)

theorem sub_self_vanishes (x : Floating f) : (x.sub x).Vanishes := by
  cases x with
  | nan => trivial
  | infinite negative =>
      rw [sub, if_pos rfl]
      trivial
  | finite value =>
      have hzero := sub_eq (is_finite value) (is_finite value)
      rw [sub_self] at hzero
      obtain ⟨zero, his, hval⟩ := ofRat_zero_is (f := f)
      rw [hzero, his]
      exact hval

theorem Vanishes.cases (hx : x.Vanishes) : x = nan ∨ x.Is 0 := by
  cases x with
  | nan => exact .inl rfl
  | infinite negative => exact hx.elim
  | finite value => exact .inr ⟨value, rfl, hx⟩

theorem Is.vanishes (hx : x.Is 0) : x.Vanishes := by
  obtain ⟨value, rfl, hval⟩ := hx
  exact hval

theorem Vanishes.mul_self (hx : x.Vanishes) : (x.mul x).Vanishes := by
  rcases hx.cases with rfl | his
  · trivial
  · rw [mul_eq his his, mul_zero]
    exact ofRat_zero_is.vanishes

theorem Vanishes.add (hx : x.Vanishes) (hy : y.Vanishes) :
    (x.add y).Vanishes := by
  rcases hx.cases with rfl | hx
  · trivial
  · rcases hy.cases with rfl | hy
    · rw [add_nan]
      trivial
    · rw [add_eq hx hy, add_zero]
      exact ofRat_zero_is.vanishes

theorem less_of_vanishes (hx : x.NotNegative) (hy : y.Vanishes) :
    x.less y = false := by
  rcases hy.cases with rfl | ⟨zero, rfl, hzero⟩
  · exact less_nan x
  · cases x with
    | nan => rfl
    | infinite negative => exact hx
    | finite value =>
        have hvalue : 0 ≤ value.val := hx
        rw [less_eq (is_finite value) (is_finite zero), hzero]
        exact decide_eq_false (not_lt.mpr hvalue)

theorem less_of_atLeast (hq : 0 < q) (hx : x.Is 0) (hy : y.AtLeast q) :
    x.less y = true := by
  obtain ⟨zero, rfl, hzero⟩ := hx
  cases y with
  | nan => exact hy.elim
  | infinite negative =>
      obtain rfl : negative = false := hy
      rfl
  | finite value =>
      have hvalue : q ≤ value.val := hy
      rw [less_eq (is_finite zero) (is_finite value), hzero]
      exact decide_eq_true (hq.trans_le hvalue)

end Signs

end Floating

end Margot
