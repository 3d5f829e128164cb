/-
Arithmetic progressions below a bound, and the loop that counts them up in a
variable of a machine type.
-/
import Mathlib.Data.List.Range
import Mathlib.Tactic.Ring
import Margot.Library.MachineInteger

namespace Margot

namespace Progression

variable {low high step : Int}

/-- How many of `low`, `low + step`, ... are below `high`. -/
def count (low high step : Int) : Nat := ((high - low + (step - 1)) / step).toNat

/-- The numbers `low`, `low + step`, ... that are below `high`. -/
def terms (low high step : Int) : List Int :=
  (List.range (count low high step)).map fun k : Nat => low + k * step

/-- The first number that is not below `high`. -/
def passing (low high step : Int) : Int := low + count low high step * step

/-- The terms are all the numbers below the bound. -/
theorem lt_count_iff (hstep : 0 < step) (k : Nat) :
    k < count low high step ↔ low + k * step < high := by
  rw [count, Int.lt_toNat, ← Int.add_one_le_iff, Int.le_ediv_iff_mul_le hstep]
  constructor
  · intro hle
    linarith
  · intro hlt
    linarith

theorem count_of_le (hstep : 0 < step) (hle : high ≤ low) :
    count low high step = 0 := by
  by_contra hsome
  have hlt := (lt_count_iff hstep 0).mp (Nat.pos_of_ne_zero hsome)
  simp at hlt
  omega

theorem count_of_lt (hstep : 0 < step) (hlt : low < high) :
    count low high step = count (low + step) high step + 1 := by
  have hnonneg : 0 ≤ (high - (low + step) + (step - 1)) / step :=
    Int.ediv_nonneg (by omega) hstep.le
  have hsplit : high - low + (step - 1) =
      high - (low + step) + (step - 1) + 1 * step := by
    omega
  rw [count, count, hsplit, Int.add_mul_ediv_right _ _ hstep.ne']
  omega

theorem terms_of_le (hstep : 0 < step) (hle : high ≤ low) :
    terms low high step = [] := by
  rw [terms, count_of_le hstep hle]
  rfl

theorem terms_of_lt (hstep : 0 < step) (hlt : low < high) :
    terms low high step = low :: terms (low + step) high step := by
  rw [terms, terms, count_of_lt hstep hlt, List.range_succ_eq_map,
    List.map_cons, List.map_map]
  congr 1
  · simp
  · apply List.map_congr_left
    intro k _
    simp only [Function.comp_apply, Nat.cast_succ]
    ring

theorem passing_of_lt (hstep : 0 < step) (hlt : low < high) :
    passing low high step = passing (low + step) high step := by
  rw [passing, passing, count_of_lt hstep hlt]
  push_cast
  ring

theorem le_passing (hstep : 0 < step) : low ≤ passing low high step := by
  have hnonneg : 0 ≤ (count low high step : Int) * step :=
    mul_nonneg (Int.natCast_nonneg _) hstep.le
  rw [passing]
  omega

end Progression

namespace IntegerType

variable {type : IntegerType} {low high step : Int}

/-- An addition that is stored in a variable of the type; the promoted type, if
it is signed, has to hold the sum. -/
def increment (type : IntegerType) (value step : Int) : Option Int :=
  if type.promoted.signed then
    if type.promoted.Holds (value + step) then some (type.wrap (value + step))
    else none
  else some (type.wrap (value + step))

inductive Counting where
  | running
  | undefined
  | done (values : List Int)
deriving Repr, DecidableEq

def Counting.push (value : Int) : Counting → Counting
  | .done values => .done (value :: values)
  | other => other

/-- A loop whose variable is of the type, until the fuel is used up. -/
def countUp (type : IntegerType) (high step : Int) : Nat → Int → Counting
  | 0, _ => .running
  | fuel + 1, value =>
      if value < high then
        match type.increment value step with
        | none => .undefined
        | some next => (type.countUp high step fuel next).push value
      else .done []

theorem holds_promoted {value : Int} (hholds : type.Holds value) :
    type.promoted.Holds value := by
  obtain ⟨width, signed⟩ := type
  cases width with
  | bits8 =>
      cases signed <;> simp [Holds, promoted, modulus, IntegerWidth.bits] at * <;>
        omega
  | bits16 =>
      cases signed <;> simp [Holds, promoted, modulus, IntegerWidth.bits] at * <;>
        omega
  | bits32 => exact hholds
  | bits64 => exact hholds

theorem increment_of_holds (hholds : type.Holds (low + step)) :
    type.increment low step = some (low + step) := by
  rw [increment, wrap_of_holds hholds, if_pos (holds_promoted hholds)]
  split
  · rfl
  · rfl

theorem increment_eq (type : IntegerType) (value step : Int) :
    type.increment value step = none ∨
      type.increment value step = some (type.wrap (value + step)) := by
  rw [increment]
  split
  · split
    · exact .inr rfl
    · exact .inl rfl
  · exact .inr rfl

/-- Numbers between two that a type holds are held. -/
theorem holds_of_between {middle : Int} (hlow : type.Holds low)
    (hhigh : type.Holds high) (hle : low ≤ middle) (hge : middle ≤ high) :
    type.Holds middle := by
  rw [Holds] at hlow hhigh ⊢
  split at hlow
  · next hsigned =>
      rw [if_pos hsigned] at hhigh ⊢
      omega
  · next hsigned =>
      rw [if_neg hsigned] at hhigh ⊢
      omega

/-- A sum that is too large comes back below the bound. -/
theorem wrap_lt_of_not_holds (hlow : type.Holds low) (hhigh : type.Holds high)
    (hstep : type.Holds step) (hpos : 0 < step) (hlt : low < high)
    (hpassed : ¬ type.Holds (low + step)) : type.wrap (low + step) < high := by
  have hwrapped := type.holds_wrap (low + step)
  have hsplit := type.wrap_add_wraps (low + step)
  have hmodulus := type.modulus_pos
  have hwraps : 0 < type.wraps (low + step) := by
    by_contra hnone
    have hproduct : (type.modulus : Int) * type.wraps (low + step) ≤ 0 :=
      mul_nonpos_of_nonneg_of_nonpos (Int.natCast_nonneg _) (not_lt.mp hnone)
    apply hpassed
    apply holds_of_between hlow hwrapped
    · omega
    · omega
  have hproduct : (type.modulus : Int) * 1 ≤
      type.modulus * type.wraps (low + step) :=
    mul_le_mul_of_nonneg_left (Int.add_one_le_iff.mpr hwraps)
      (Int.natCast_nonneg _)
  rw [Holds] at hhigh hstep
  split at hhigh
  · next hsigned =>
      rw [if_pos hsigned] at hstep
      omega
  · next hsigned =>
      rw [if_neg hsigned] at hstep
      omega

theorem push_eq_done {counting : Counting} {value : Int} {values : List Int}
    (hdone : counting.push value = .done values) :
    ∃ rest, counting = .done rest ∧ values = value :: rest := by
  cases counting with
  | running => contradiction
  | undefined => contradiction
  | done rest => exact ⟨rest, rfl, (Counting.done.inj hdone).symm⟩

theorem countUp_of_le (hle : high ≤ low) (fuel : Nat) :
    type.countUp high step (fuel + 1) low = .done [] :=
  if_neg (not_lt.mpr hle)

theorem countUp_ne_nil (hlt : low < high) (fuel : Nat) :
    type.countUp high step fuel low ≠ .done [] := by
  intro hdone
  cases fuel with
  | zero => contradiction
  | succ fuel =>
      rw [countUp, if_pos hlt] at hdone
      split at hdone
      · contradiction
      · obtain ⟨rest, -, hnil⟩ := push_eq_done hdone
        contradiction

theorem first_of_countUp {fuel : Nat} {first : Int} {rest : List Int}
    (hdone : type.countUp high step fuel low = .done (first :: rest)) :
    first = low := by
  cases fuel with
  | zero => contradiction
  | succ fuel =>
      rw [countUp] at hdone
      split at hdone
      · split at hdone
        · contradiction
        · obtain ⟨others, -, hvalues⟩ := push_eq_done hdone
          exact (List.cons.inj hvalues).1
      · have hnil := Counting.done.inj hdone
        contradiction

/-- Without an overflow the loop counts up the terms. -/
theorem countUp_terms (hpos : 0 < step) (n : Nat) (hlow : type.Holds low)
    (hpassing : type.Holds (Progression.passing low high step))
    (hcount : Progression.count low high step = n) :
    type.countUp high step (n + 1) low =
      .done (Progression.terms low high step) := by
  induction n generalizing low with
  | zero =>
      have hle : high ≤ low := by
        by_contra hlt
        have hsome := (Progression.lt_count_iff hpos 0).mpr
          (by simpa using not_le.mp hlt)
        omega
      rw [countUp_of_le hle, Progression.terms_of_le hpos hle]
  | succ n ih =>
      have hlt : low < high := by
        have hsome : 0 < Progression.count low high step := by omega
        simpa using (Progression.lt_count_iff hpos 0).mp hsome
      rw [Progression.count_of_lt hpos hlt] at hcount
      rw [Progression.passing_of_lt hpos hlt] at hpassing
      have hbetween : low + step ≤ Progression.passing (low + step) high step :=
        Progression.le_passing hpos
      have hle : low ≤ low + step := by omega
      have hnext := holds_of_between hlow hpassing hle hbetween
      rw [countUp, if_pos hlt, increment_of_holds hnext,
        Progression.terms_of_lt hpos hlt]
      simp only [ih hnext hpassing (Nat.succ.inj hcount), Counting.push]

/-- Where the loop has counted up the terms, there was no overflow: after one the
loop goes on with a term too many. -/
theorem holds_passing_of_countUp (hpos : 0 < step) (hhigh : type.Holds high)
    (hstep : type.Holds step) {fuel : Nat} (hlow : type.Holds low)
    (hdone : type.countUp high step fuel low =
      .done (Progression.terms low high step)) :
    type.Holds (Progression.passing low high step) := by
  induction fuel generalizing low with
  | zero => contradiction
  | succ fuel ih =>
      by_cases hlt : low < high
      · rw [countUp, if_pos hlt, Progression.terms_of_lt hpos hlt] at hdone
        by_cases hnext : type.Holds (low + step)
        · rw [Progression.passing_of_lt hpos hlt]
          apply ih hnext
          rw [increment_of_holds hnext] at hdone
          obtain ⟨rest, hrest, hterms⟩ := push_eq_done hdone
          rw [hrest, (List.cons.inj hterms).2]
        · have hbelow := wrap_lt_of_not_holds hlow hhigh hstep hpos hlt hnext
          have hlast : high ≤ low + step := by
            by_contra hmore
            exact hnext (holds_of_between hlow hhigh (by omega) (by omega))
          rw [Progression.terms_of_le hpos hlast] at hdone
          rcases increment_eq type low step with hnone | hsome
          · rw [hnone] at hdone
            contradiction
          · rw [hsome] at hdone
            obtain ⟨rest, hrest, hterms⟩ := push_eq_done hdone
            obtain rfl := (List.cons.inj hterms).2
            exact absurd hrest (countUp_ne_nil hbelow fuel)
      · rw [Progression.passing, Progression.count_of_le hpos (not_lt.mp hlt)]
        simpa using hlow

/-- The loop counts up the terms exactly when the type holds the number at which
it stops. -/
theorem exists_countUp_iff (hlow : type.Holds low) (hhigh : type.Holds high)
    (hstep : type.Holds step) (hpos : 0 < step) :
    (∃ fuel, type.countUp high step fuel low =
        .done (Progression.terms low high step)) ↔
      type.Holds (Progression.passing low high step) := by
  constructor
  · rintro ⟨fuel, hdone⟩
    exact holds_passing_of_countUp hpos hhigh hstep hlow hdone
  · intro hpassing
    exact ⟨_, countUp_terms hpos _ hlow hpassing rfl⟩

end IntegerType

end Margot
