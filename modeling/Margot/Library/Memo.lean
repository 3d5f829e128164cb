/-
A memoised value with the time of the change it was computed for.  It is
computed again when it is older than the last change.
-/
import Mathlib.Order.Lattice

namespace Margot

universe u v

structure Memo (C : Type u) (V : Type v) where
  computedTime : C
  previous : V
deriving Repr

namespace Memo

variable {C : Type u} {V : Type v} [LinearOrder C]

def refresh (memo : Memo C V) (lastChange : C) (value : V) : Memo C V :=
  if memo.computedTime < lastChange then ⟨lastChange, value⟩ else memo

/-- The memo will be computed again, or it holds the value. -/
def Current (memo : Memo C V) (lastChange : C) (value : V) : Prop :=
  memo.computedTime < lastChange ∨ memo.previous = value

variable {memo : Memo C V} {lastChange : C} {value : V}

theorem previous_refresh (hcurrent : memo.Current lastChange value) :
    (memo.refresh lastChange value).previous = value := by
  rw [refresh]
  split
  · rfl
  · next hnot => exact hcurrent.resolve_left hnot

theorem current_refresh (hcurrent : memo.Current lastChange value) :
    (memo.refresh lastChange value).Current lastChange value :=
  .inr (previous_refresh hcurrent)

end Memo

end Margot
