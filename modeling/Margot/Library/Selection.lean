/-
The first least element of a list, by the rank of its elements, and the fold
that finds it: the candidate is replaced only by an element of smaller rank.
-/
import Mathlib.Data.Prod.Lex
import Mathlib.Order.BooleanAlgebra.Basic
import Mathlib.Order.Bounds.Basic

namespace Margot

universe u v

variable {A : Type u} {R : Type v} [LinearOrder R]

/-- The position of the first element of least rank. -/
structure FirstLeast (rank : A → R) (items : List A) (position : Nat) :
    Prop where
  bound : position < items.length
  least : ∀ other ∈ items, rank items[position] ≤ rank other
  first : ∀ before (hbefore : before < position),
    rank items[position] < rank items[before]

section Fold

variable {rank : A → R} {items : List A} {position : Nat}

theorem firstLeast_singleton (rank : A → R) (item : A) : FirstLeast rank [item] 0 := by
  refine ⟨by simp, ?_, ?_⟩
  · intro other hother
    obtain rfl := List.mem_singleton.mp hother
    exact le_rfl
  · intro before hbefore
    omega

/-- An element that is not smaller does not replace the candidate. -/
theorem FirstLeast.concat_kept (hfirst : FirstLeast rank items position)
    {item : A} (hitem : rank (items.get ⟨position, hfirst.bound⟩) ≤ rank item) :
    FirstLeast rank (items ++ [item]) position := by
  have hbound := hfirst.bound
  refine ⟨by simp; omega, ?_, ?_⟩
  · intro other hother
    rw [List.getElem_append_left hbound]
    rcases List.mem_append.mp hother with hold | hnew
    · exact hfirst.least other hold
    · obtain rfl := List.mem_singleton.mp hnew
      exact hitem
  · intro before hbefore
    rw [List.getElem_append_left hbound,
      List.getElem_append_left (hbefore.trans hbound)]
    exact hfirst.first before hbefore

/-- A smaller element is smaller than everything before it. -/
theorem FirstLeast.concat_replaced (hfirst : FirstLeast rank items position)
    {item : A} (hitem : rank item < rank (items.get ⟨position, hfirst.bound⟩)) :
    FirstLeast rank (items ++ [item]) items.length := by
  have hbound : items.length < (items ++ [item]).length := by simp
  have hlast : (items ++ [item])[items.length] = item := by simp
  refine ⟨by simp, ?_, ?_⟩
  · intro other hother
    rw [hlast]
    rcases List.mem_append.mp hother with hold | hnew
    · exact (hitem.trans_le (hfirst.least other hold)).le
    · obtain rfl := List.mem_singleton.mp hnew
      exact le_rfl
  · intro before hbefore
    rw [hlast, List.getElem_append_left hbefore]
    exact hitem.trans_le (hfirst.least _ (List.getElem_mem hbefore))

/-- The fold over the elements with their positions keeps the first least of
those it has seen. -/
theorem firstLeast_foldl (rest : List A)
    (hfirst : FirstLeast rank items position) :
    FirstLeast rank (items ++ rest)
      ((rest.zipIdx items.length).foldl
        (fun best target =>
          if rank target.1 < rank best.1 then target else best)
        (items.get ⟨position, hfirst.bound⟩, position)).2 := by
  induction rest generalizing items position with
  | nil => simpa using hfirst
  | cons item rest ih =>
      rw [List.zipIdx_cons, List.foldl_cons]
      have hsplit : items ++ item :: rest = (items ++ [item]) ++ rest := by simp
      have hlength : items.length + 1 = (items ++ [item]).length := by simp
      rw [hsplit, hlength]
      by_cases hitem : rank item < rank (items.get ⟨position, hfirst.bound⟩)
      · rw [if_pos hitem]
        have hreplaced := ih (hfirst.concat_replaced hitem)
        simpa only [List.get_eq_getElem, List.getElem_concat_length] using
          hreplaced
      · rw [if_neg hitem]
        have hkept := ih (hfirst.concat_kept (not_lt.mp hitem))
        simpa only [List.get_eq_getElem, List.getElem_append_left hfirst.bound]
          using hkept

end Fold

/-- Where the rank first separates two classes, the first least element is the
first least of the better class, if there is one. -/
theorem FirstLeast.of_lex {D : Type v} [LinearOrder D] {worse : A → Bool}
    {distance : A → D} {items : List A} {position : Nat}
    (hfirst : FirstLeast (fun item => toLex (worse item, distance item)) items
      position) :
    (∀ other ∈ items, worse other = false →
      worse (items.get ⟨position, hfirst.bound⟩) = false) ∧
    (∀ other ∈ items,
      worse (items.get ⟨position, hfirst.bound⟩) = worse other →
        distance (items.get ⟨position, hfirst.bound⟩) ≤ distance other) ∧
    (∀ before (hbefore : before < position),
      worse (items.get ⟨position, hfirst.bound⟩) =
          worse (items.get ⟨before, hbefore.trans hfirst.bound⟩) →
        distance (items.get ⟨position, hfirst.bound⟩) <
          distance (items.get ⟨before, hbefore.trans hfirst.bound⟩)) := by
  refine ⟨?_, ?_, ?_⟩
  · intro other hother hbetter
    have hle := hfirst.least other hother
    rw [Prod.Lex.toLex_le_toLex] at hle
    rcases hle with hlt | ⟨heq, -⟩
    · rw [hbetter] at hlt
      exact absurd hlt (by simp)
    · exact heq.trans hbetter
  · intro other hother hsame
    have hle := hfirst.least other hother
    rw [Prod.Lex.toLex_le_toLex] at hle
    rcases hle with hlt | ⟨-, hdistance⟩
    · exact absurd hsame hlt.ne
    · exact hdistance
  · intro before hbefore hsame
    have hlt := hfirst.first before hbefore
    rw [Prod.Lex.toLex_lt_toLex] at hlt
    rcases hlt with hlt | ⟨-, hdistance⟩
    · exact absurd hsame hlt.ne
    · exact hdistance

end Margot
