/-
Integers of a fixed width: the values that a type holds, the promotion of the
narrow types, and the reduction of a result modulo the width.
-/
import Mathlib.Data.Int.ModEq
import Mathlib.Tactic.Linarith

namespace Margot

inductive IntegerWidth where
  | bits8
  | bits16
  | bits32
  | bits64
deriving Repr, DecidableEq

def IntegerWidth.bits : IntegerWidth → Nat
  | bits8 => 8
  | bits16 => 16
  | bits32 => 32
  | bits64 => 64

structure IntegerType where
  width : IntegerWidth
  signed : Bool
deriving Repr, DecidableEq

namespace IntegerType

/-- The number of the values of the type. -/
def modulus (type : IntegerType) : Nat := 2 ^ type.width.bits

def Holds (type : IntegerType) (value : Int) : Prop :=
  if type.signed then -type.modulus ≤ 2 * value ∧ 2 * value < type.modulus
  else 0 ≤ value ∧ value < type.modulus

instance (type : IntegerType) (value : Int) : Decidable (type.Holds value) := by
  unfold Holds
  infer_instance

/-- The values of the type. -/
abbrev Value (type : IntegerType) : Type := {value : Int // type.Holds value}

def wrap (type : IntegerType) (value : Int) : Int :=
  if type.signed then value.bmod type.modulus else value % type.modulus

/-- How often the value has to be wrapped to be held. -/
def wraps (type : IntegerType) (value : Int) : Int :=
  if type.signed then value.bdiv type.modulus else value / type.modulus

/-- The type of the operations on values of the type. -/
def promoted (type : IntegerType) : IntegerType :=
  match type.width with
  | .bits8 => ⟨.bits32, true⟩
  | .bits16 => ⟨.bits32, true⟩
  | .bits32 => type
  | .bits64 => type

variable {type : IntegerType} {x y : Int}

theorem modulus_pos (type : IntegerType) : 0 < type.modulus :=
  Nat.two_pow_pos _

theorem modulus_dvd_promoted (type : IntegerType) :
    type.modulus ∣ type.promoted.modulus := by
  obtain ⟨width, signed⟩ := type
  cases width <;>
    exact Nat.pow_dvd_pow 2 (by simp [promoted, IntegerWidth.bits])

theorem holds_wrap (type : IntegerType) (x : Int) :
    type.Holds (type.wrap x) := by
  have hpos := type.modulus_pos
  rw [Holds, wrap]
  by_cases hsigned : type.signed = true
  · rw [if_pos hsigned, if_pos hsigned]
    have hlow := Int.le_bmod (x := x) hpos
    have hhigh := Int.bmod_lt (x := x) hpos
    omega
  · rw [if_neg hsigned, if_neg hsigned]
    exact ⟨Int.emod_nonneg _ (by omega), Int.emod_lt_of_pos _ (by omega)⟩

theorem wrap_add_wraps (type : IntegerType) (x : Int) :
    type.wrap x + type.modulus * type.wraps x = x := by
  rw [wrap, wraps]
  by_cases hsigned : type.signed = true
  · rw [if_pos hsigned, if_pos hsigned]
    exact Int.bmod_add_bdiv x _
  · rw [if_neg hsigned, if_neg hsigned]
    exact Int.emod_add_mul_ediv x _

theorem wrap_modEq (type : IntegerType) (x : Int) :
    type.wrap x ≡ x [ZMOD type.modulus] := by
  have hsplit := type.wrap_add_wraps x
  apply Int.modEq_iff_dvd.mpr
  exact ⟨type.wraps x, by omega⟩

theorem wrap_congr (hmod : x ≡ y [ZMOD type.modulus]) :
    type.wrap x = type.wrap y := by
  rw [wrap, wrap]
  split
  · rw [Int.bmod_eq_emod, Int.bmod_eq_emod, hmod]
  · exact hmod

/-- A result of the promoted type is the same modulo the width. -/
theorem wrap_promoted_modEq (type : IntegerType) (x : Int) :
    type.promoted.wrap x ≡ x [ZMOD type.modulus] :=
  (type.promoted.wrap_modEq x).of_dvd
    (Int.natCast_dvd_natCast.mpr type.modulus_dvd_promoted)

/-- A value that the type holds is not changed. -/
theorem wrap_of_holds (hholds : type.Holds x) : type.wrap x = x := by
  rw [Holds] at hholds
  rw [wrap]
  split at hholds
  · next hsigned =>
      rw [if_pos hsigned]
      exact Int.bmod_eq_of_le_mul_two (by omega) (by omega)
  · next hsigned =>
      rw [if_neg hsigned]
      exact Int.emod_eq_of_lt hholds.1 hholds.2

theorem holds_of_le (hnonneg : 0 ≤ y) (hle : y ≤ x) (hholds : type.Holds x) :
    type.Holds y := by
  rw [Holds] at hholds ⊢
  split at hholds
  · next hsigned =>
      rw [if_pos hsigned]
      omega
  · next hsigned =>
      rw [if_neg hsigned]
      omega

theorem holds_one (type : IntegerType) : type.Holds 1 := by
  obtain ⟨width, signed⟩ := type
  cases width <;> cases signed <;> decide

theorem wrap_zero (type : IntegerType) : type.wrap 0 = 0 :=
  wrap_of_holds (holds_of_le le_rfl Int.one_nonneg type.holds_one)

/-- An unsigned type holds the differences of its values. -/
theorem holds_sub_of_unsigned (hunsigned : ¬ type.signed = true)
    (hx : type.Holds x) (hy : type.Holds y) (hle : y ≤ x) :
    type.Holds (x - y) := by
  rw [Holds, if_neg hunsigned] at hx hy ⊢
  omega

theorem wrap_sub_wrap_lt (type : IntegerType) (x y : Int) :
    type.wrap x - type.wrap y < type.modulus := by
  have hx := type.holds_wrap x
  have hy := type.holds_wrap y
  rw [Holds] at hx hy
  by_cases hsigned : type.signed = true
  · rw [if_pos hsigned] at hx hy
    omega
  · rw [if_neg hsigned] at hx hy
    omega

/-- Wrapped values compare as they do exactly when they wrap equally often, or
differ by more than what they wrap differently. -/
theorem wrap_lt_wrap_iff :
    (type.wrap x < type.wrap y ↔ x < y) ↔
      type.wraps x = type.wraps y ∨
      (type.wraps x < type.wraps y ∧
        type.modulus * (type.wraps y - type.wraps x) < y - x) ∨
      (type.wraps y < type.wraps x ∧
        type.modulus * (type.wraps x - type.wraps y) ≤ x - y) := by
  have hx := type.wrap_add_wraps x
  have hy := type.wrap_add_wraps y
  have hclose := wrap_sub_wrap_lt type x y
  have hfar := wrap_sub_wrap_lt type y x
  have hpos : (0 : Int) < type.modulus := by exact_mod_cast type.modulus_pos
  have hfirst := mul_sub (type.modulus : Int) (type.wraps x) (type.wraps y)
  have hsecond := mul_sub (type.modulus : Int) (type.wraps y) (type.wraps x)
  rcases lt_trichotomy (type.wraps x) (type.wraps y) with hlt | heq | hgt
  · have hstep : type.modulus ≤ type.modulus * (type.wraps y - type.wraps x) :=
      le_mul_of_one_le_right hpos.le (by omega)
    have hless : x < y := by omega
    constructor
    · intro hagree
      have hwrapped := hagree.mpr hless
      exact .inr (.inl ⟨hlt, by omega⟩)
    · rintro (heq | ⟨-, hdiffer⟩ | ⟨hgt, -⟩)
      · omega
      · exact iff_of_true (by omega) hless
      · omega
  · rw [heq] at hx
    exact iff_of_true (by omega) (.inl heq)
  · have hstep : type.modulus ≤ type.modulus * (type.wraps x - type.wraps y) :=
      le_mul_of_one_le_right hpos.le (by omega)
    have hless : ¬ x < y := by omega
    constructor
    · intro hagree
      have hwrapped := fun h => hless (hagree.mp h)
      exact .inr (.inr ⟨hgt, by omega⟩)
    · rintro (heq | ⟨hlt, -⟩ | ⟨-, hdiffer⟩)
      · omega
      · omega
      · exact iff_of_false (by omega) hless

end IntegerType

end Margot
