/-
Lists of names in which some are missing: what is filled in, and when the names
are then different from each other.
-/
import Mathlib.Data.List.Chain
import Mathlib.Data.List.Nodup
import Mathlib.Order.Defs.LinearOrder
import Mathlib.Order.Lattice

namespace Margot

namespace Naming

universe u

/-- Names differ when no two positions have the same. -/
theorem nodup_iff_positions {N : Type u} {elements : List N} :
    elements.Nodup ↔ ∀ (i j : Nat) (name : N), i < j → elements[i]? = some name →
      elements[j]? ≠ some name := by
  rw [List.Nodup, List.pairwise_iff_getElem]
  constructor
  · intro hall i j name hij hi hj
    obtain ⟨hi', rfl⟩ := List.getElem?_eq_some_iff.mp hi
    obtain ⟨hj', hsame⟩ := List.getElem?_eq_some_iff.mp hj
    exact hall i j hi' hj' hij hsame.symm
  · intro hall i j hi hj hij hsame
    apply hall i j _ hij (List.getElem?_eq_getElem hi)
    rw [List.getElem?_eq_getElem hj, hsame]

variable {N : Type u} [DecidableEq N] (missing : N) (fresh : Nat → N)

/-- A missing name is filled in by its position. -/
def fill (position : Nat) (name : N) : N :=
  if name = missing then fresh position else name

def filled (names : List N) : List N := names.mapIdx (fill missing fresh)

/-- No name that is filled in is given as well. -/
def DefaultsFree (names : List N) : Prop :=
  ∀ position, names[position]? = some missing → fresh position ∉ names

/-- The names that are given differ. -/
def GivenDiffer (names : List N) : Prop :=
  (names.filter fun name => name ≠ missing).Nodup

section Filled

variable {missing fresh} {names : List N} {name : N} {i j : Nat}

theorem length_filled : (filled missing fresh names).length = names.length :=
  List.length_mapIdx

theorem getElem?_filled : (filled missing fresh names)[i]? =
    names[i]?.map (fill missing fresh i) :=
  List.getElem?_mapIdx

theorem fill_missing : fill missing fresh i missing = fresh i := if_pos rfl

theorem fill_given (hgiven : name ≠ missing) :
    fill missing fresh i name = name := if_neg hgiven

theorem givenDiffer_iff_positions :
    GivenDiffer missing names ↔ ∀ (i j : Nat) (name : N), i < j →
      name ≠ missing →
      names[i]? = some name → names[j]? ≠ some name := by
  rw [GivenDiffer, List.Nodup, List.pairwise_filter, List.pairwise_iff_getElem]
  constructor
  · intro hall i j name hij hgiven hi hj
    obtain ⟨hi', rfl⟩ := List.getElem?_eq_some_iff.mp hi
    obtain ⟨hj', hsame⟩ := List.getElem?_eq_some_iff.mp hj
    have hgiven' : names[j] ≠ missing := fun h => hgiven (hsame ▸ h)
    exact hall i j hi' hj' hij (decide_eq_true hgiven)
      (decide_eq_true hgiven') hsame.symm
  · intro hall i j hi hj hij hgiven _ hsame
    apply hall i j _ hij (of_decide_eq_true hgiven) (List.getElem?_eq_getElem hi)
    rw [List.getElem?_eq_getElem hj, hsame]

/-- The names differ exactly when those that are given do and none of them is
one that is filled in. -/
theorem nodup_filled_iff (hfresh : Function.Injective fresh)
    (hsome : ∀ position, fresh position ≠ missing) :
    (filled missing fresh names).Nodup ↔
      GivenDiffer missing names ∧ DefaultsFree missing fresh names := by
  rw [nodup_iff_positions, givenDiffer_iff_positions]
  constructor
  · intro hdiffer
    constructor
    · intro i j name hij hgiven hi hj
      apply hdiffer i j name hij
      · rw [getElem?_filled, hi, Option.map_some, fill_given hgiven]
      · rw [getElem?_filled, hj, Option.map_some, fill_given hgiven]
    · intro i hi hmem
      obtain ⟨j, hj⟩ := List.mem_iff_getElem?.mp hmem
      have hfilledI : (filled missing fresh names)[i]? = some (fresh i) := by
        rw [getElem?_filled, hi, Option.map_some, fill_missing]
      have hfilledJ : (filled missing fresh names)[j]? = some (fresh i) := by
        rw [getElem?_filled, hj, Option.map_some, fill_given (hsome i)]
      rcases Nat.lt_trichotomy i j with hij | rfl | hij
      · exact hdiffer i j _ hij hfilledI hfilledJ
      · exact hsome i (Option.some.inj (hj.symm.trans hi))
      · exact hdiffer j i _ hij hfilledJ hfilledI
  · rintro ⟨hgiven, hfree⟩ i j name hij hi hj
    rw [getElem?_filled] at hi hj
    obtain ⟨first, hfirst, rfl⟩ := Option.map_eq_some_iff.mp hi
    obtain ⟨second, hsecond, hsame⟩ := Option.map_eq_some_iff.mp hj
    by_cases hnoneI : first = missing
    · subst hnoneI
      rw [fill_missing] at hsame
      by_cases hnoneJ : second = first
      · subst hnoneJ
        rw [fill_missing] at hsame
        exact absurd (hfresh hsame) (Nat.ne_of_gt hij)
      · rw [fill_given hnoneJ] at hsame
        exact hfree i hfirst (hsame ▸ List.mem_of_getElem? hsecond)
    · rw [fill_given hnoneI] at hsame
      by_cases hnoneJ : second = missing
      · subst hnoneJ
        rw [fill_missing] at hsame
        exact hfree j hsecond (hsame ▸ List.mem_of_getElem? hfirst)
      · rw [fill_given hnoneJ] at hsame
        exact hgiven i j first hij hnoneI hfirst (hsame ▸ hsecond)

/-- Sorted names of which no two neighbours are the same differ: between two
that are the same there is nothing else. -/
theorem givenDiffer_of_sorted {N : Type u} [LinearOrder N] [DecidableEq N]
    {missing : N} {fresh : Nat → N} {names : List N}
    (hsorted : names.Pairwise (· ≤ ·))
    (hneighbours : (filled missing fresh names).IsChain (· ≠ ·)) :
    GivenDiffer missing names := by
  rw [givenDiffer_iff_positions]
  intro i j name hij hgiven hi hj
  rw [List.pairwise_iff_getElem] at hsorted
  rw [List.isChain_iff_getElem] at hneighbours
  obtain ⟨hi', rfl⟩ := List.getElem?_eq_some_iff.mp hi
  obtain ⟨hj', hsame⟩ := List.getElem?_eq_some_iff.mp hj
  have hnext : i + 1 < names.length := Nat.lt_of_le_of_lt hij hj'
  have hbelow : names[i] ≤ names[i + 1] :=
    hsorted i (i + 1) hi' hnext (Nat.lt_succ_self i)
  have habove : names[i + 1] ≤ names[i] := by
    rcases Nat.eq_or_lt_of_le hij with rfl | hlater
    · exact le_of_eq hsame
    · rw [← hsame]
      exact hsorted (i + 1) j hnext hj' hlater
  have hequal : names[i + 1] = names[i] := le_antisymm habove hbelow
  have hgiven' : names[i + 1] ≠ missing := hequal ▸ hgiven
  have hdiffer := hneighbours i (by rw [length_filled]; exact hnext)
  simp only [filled, List.getElem_mapIdx, fill_given hgiven,
    fill_given hgiven'] at hdiffer
  exact hdiffer hequal.symm

end Filled

end Naming

end Margot
