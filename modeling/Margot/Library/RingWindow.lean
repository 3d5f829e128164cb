/-
A window of fixed length that is overwritten round and round.  Read backwards
from the cell that is overwritten next, it holds what was written last.
-/
import Mathlib.Data.List.Basic
import Mathlib.Data.List.Perm.Basic
import Mathlib.Data.List.Rotate
import Mathlib.Data.List.TakeDrop

namespace Margot

namespace RingWindow

universe u

variable {A : Type u}

/-- The cells, the one that was written last first. -/
def latest (cells : List A) (next : Nat) : List A :=
  (cells.take next).reverse ++ (cells.drop next).reverse

/-- The cell after `next`, the first one after the last. -/
def advance (length next : Nat) : Nat :=
  if next + 1 < length then next + 1 else 0

theorem latest_perm (cells : List A) (next : Nat) :
    (latest cells next).Perm cells := by
  have hparts := (List.reverse_perm (cells.take next)).append
    (List.reverse_perm (cells.drop next))
  rwa [List.take_append_drop] at hparts

/-- What is written comes first, and what was written first of all is lost. -/
theorem latest_set {cells : List A} {next : Nat} (hnext : next < cells.length)
    (value : A) :
    latest (cells.set next value) (advance cells.length next) =
      value :: (latest cells next).dropLast := by
  obtain ⟨old, rest, hdrop⟩ : ∃ old rest, cells.drop next = old :: rest :=
    List.exists_cons_of_ne_nil (by simpa using hnext)
  have hlength : (cells.take next).length = next := by simp; omega
  have hsplit : cells = cells.take next ++ old :: rest := by
    rw [← hdrop, List.take_append_drop]
  have hset : cells.set next value = (cells.take next ++ [value]) ++ rest := by
    conv_lhs => rw [hsplit]
    rw [List.set_append_right _ _ (by omega), hlength, Nat.sub_self]
    simp
  have hold : (latest cells next).dropLast =
      (cells.take next).reverse ++ rest.reverse := by
    rw [latest, hdrop, List.reverse_cons, ← List.append_assoc,
      List.dropLast_concat]
  have hwritten : (cells.take next ++ [value]).length = next + 1 := by
    simp [hlength]
  rw [hold, hset, latest, advance]
  split
  · rw [List.take_left' hwritten, List.drop_left' hwritten,
      List.reverse_append]
    rfl
  · next hlast =>
      have hrest : rest = [] := by
        have htotal := congrArg List.length hsplit
        rw [List.length_append, List.length_cons, hlength] at htotal
        exact List.length_eq_zero_iff.mp (by omega)
      simp [hrest]

/-- Read forwards from `next`, the cells are in the order of the writing. -/
theorem latest_eq_rotate {cells : List A} {next : Nat}
    (hnext : next ≤ cells.length) :
    latest cells next = (cells.rotate next).reverse := by
  rw [List.rotate_eq_drop_append_take hnext, List.reverse_append, latest]

/-- The cell before `next` was written last, the last cell before the first
one. -/
theorem head?_latest {cells : List A} {next : Nat}
    (hnext : next ≤ cells.length) :
    (latest cells next).head? =
      if next = 0 then cells.getLast? else cells[next - 1]? := by
  rw [latest]
  split
  · next hfirst =>
      rw [hfirst, List.take_zero, List.drop_zero, List.reverse_nil,
        List.nil_append, List.head?_reverse]
  · next hlater =>
      have hsome : (cells.take next).reverse ≠ [] := by
        rw [List.reverse_ne_nil_iff]
        intro hnone
        have hlength := congrArg List.length hnone
        rw [List.length_take, List.length_nil] at hlength
        omega
      rw [List.head?_append_of_ne_nil _ hsome, List.head?_reverse,
        List.getLast?_eq_getElem?, List.length_take,
        Nat.min_eq_left hnext, List.getElem?_take_of_lt (by omega)]

theorem latest_replicate (length next : Nat) (value : A) :
    latest (List.replicate length value) next =
      List.replicate length value :=
  List.perm_replicate.mp (latest_perm _ next)

end RingWindow

end Margot
