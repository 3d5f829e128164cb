/-
Sorting by comparisons that may fail: an algorithm is a tree of questions, and
the answers that it has seen are all it knows about the order.
-/
import Mathlib.Data.List.FinRange
import Mathlib.Data.List.Pairwise
import Mathlib.Data.List.Sort
import Margot.Library.Checked

namespace Margot

universe u v

/-- An order with ties. -/
structure StrictWeak {ι : Type u} (less : ι → ι → Bool) : Prop where
  asymm : ∀ a b, less a b = true → less b a = false
  between : ∀ a b c, less a c = true → less a b = true ∨ less b c = true

/-- The questions of an algorithm, and the order that it ends with. -/
inductive SortTree (ι : Type u) where
  | done (order : List ι)
  | ask (a b : ι) (next : Bool → SortTree ι)

namespace SortTree

variable {ι : Type u} {ε : Type} {compare : ι → ι → Except ε Bool}
  {less : ι → ι → Bool}

/-- The order for comparisons that do not fail. -/
def answer (less : ι → ι → Bool) : SortTree ι → List ι
  | done order => order
  | ask a b next => (next (less a b)).answer less

/-- The first comparison that fails ends the sorting. -/
def run (compare : ι → ι → Except ε Bool) : SortTree ι → Except ε (List ι)
  | done order => .ok order
  | ask a b next =>
      match compare a b with
      | .error message => .error message
      | .ok smaller => (next smaller).run compare

/-- Comparisons that have not failed are those of every order that agrees with
them. -/
theorem answer_of_run {tree : SortTree ι} {order : List ι}
    (hrun : tree.run compare = .ok order)
    (hagrees : ∀ a b smaller, compare a b = .ok smaller → less a b = smaller) :
    tree.answer less = order := by
  induction tree with
  | done found => exact Except.ok.inj hrun
  | ask a b next ih =>
      rw [run] at hrun
      cases hcompare : compare a b with
      | error message =>
          rw [hcompare] at hrun
          contradiction
      | ok smaller =>
          rw [hcompare] at hrun
          rw [answer, hagrees a b smaller hcompare]
          exact ih smaller hrun

end SortTree

/-- A correct algorithm: it sorts every order of its elements. -/
structure ComparisonSort where
  tree : (n : Nat) → SortTree (Fin n)
  perm : ∀ (n : Nat) (less : Fin n → Fin n → Bool), StrictWeak less →
    ((tree n).answer less).Perm (List.finRange n)
  sorted : ∀ (n : Nat) (less : Fin n → Fin n → Bool), StrictWeak less →
    ((tree n).answer less).Pairwise fun a b => less b a = false

namespace ComparisonSort

variable {ε : Type}

/-- The elements in the order of the algorithm. -/
def sort {α : Type u} (sorting : ComparisonSort) (compare : α → α → Except ε Bool)
    (elements : List α) : Except ε (List α) :=
  match (sorting.tree elements.length).run fun a b =>
      compare (elements.get a) (elements.get b) with
  | .error message => .error message
  | .ok order => .ok (order.map elements.get)

section Orders

variable {n : Nat} {side : Fin n → Bool} {rank : Fin n → Nat}

/-- The elements of one side come first, and those of a side by their rank. -/
def sideFirst (side : Fin n → Bool) (rank : Fin n → Nat) (first : Bool)
    (a b : Fin n) : Bool :=
  (side a == first && side b != first) ||
    (side a == side b && decide (rank a < rank b))

theorem strictWeak_sideFirst (side : Fin n → Bool) (rank : Fin n → Nat)
    (first : Bool) : StrictWeak (sideFirst side rank first) := by
  constructor
  · intro a b
    simp only [sideFirst]
    cases side a <;> cases side b <;> cases first <;> simp <;> omega
  · intro a b c
    simp only [sideFirst]
    cases side a <;> cases side b <;> cases side c <;> cases first <;>
      simp <;> omega

theorem sideFirst_of_same {a b : Fin n} (hsame : side a = side b)
    (first : Bool) : sideFirst side rank first a b = decide (rank a < rank b) := by
  simp [sideFirst, hsame]

theorem strictWeak_rank (rank : Fin n → Nat) :
    StrictWeak fun a b => decide (rank a < rank b) := by
  constructor
  · intro a b
    simp only [decide_eq_true_eq, decide_eq_false_iff_not]
    omega
  · intro a b c
    simp only [decide_eq_true_eq]
    omega

variable {sorting : ComparisonSort} {compare : Fin n → Fin n → Except ε Bool}
  {order : List (Fin n)}

/-- Elements that no comparison has told apart are on one side: otherwise either
side could come first. -/
theorem side_eq (hrun : (sorting.tree n).run compare = .ok order)
    (hrank : ∀ a b smaller, compare a b = .ok smaller →
      smaller = decide (rank a < rank b))
    (hside : ∀ a b smaller, compare a b = .ok smaller → side a = side b)
    (a b : Fin n) : side a = side b := by
  have hagrees : ∀ first a b smaller, compare a b = .ok smaller →
      sideFirst side rank first a b = smaller := by
    intro first a b smaller hcompare
    rw [sideFirst_of_same (hside a b smaller hcompare),
      hrank a b smaller hcompare]
  have hanswer := fun first => SortTree.answer_of_run hrun (hagrees first)
  have hsorted := fun first =>
    sorting.sorted n _ (strictWeak_sideFirst side rank first)
  simp only [hanswer] at hsorted
  have hsame : order.Pairwise fun a b => side a = side b := by
    apply ((hsorted true).and (hsorted false)).imp
    rintro a b ⟨htrue, hfalse⟩
    simp only [sideFirst] at htrue hfalse
    revert htrue hfalse
    cases side a <;> cases side b <;> simp
  have hmem : ∀ c, c ∈ order := by
    intro c
    have hperm := sorting.perm n _ (strictWeak_sideFirst side rank true)
    rw [hanswer] at hperm
    exact hperm.mem_iff.mpr (List.mem_finRange c)
  have hsymm : Std.Symm fun a b => side a = side b := ⟨fun _ _ => Eq.symm⟩
  exact List.Pairwise.forall_of_forall (R := fun a b => side a = side b)
    (fun _ _ => rfl) hsame (hmem a) (hmem b)

end Orders

section Places

variable {α : Type u} {κ : Type v} {sorting : ComparisonSort}
  {compare : α → α → Except ε Bool} {place : α → Option (κ × Nat)}
  {elements sorted : List α}

/-- Only elements of one kind are compared, and then by their rank. -/
def ComparesPlaces (compare : α → α → Except ε Bool)
    (place : α → Option (κ × Nat)) : Prop :=
  ∀ a b smaller, compare a b = .ok smaller → ∃ kind rankA rankB,
    place a = some (kind, rankA) ∧ place b = some (kind, rankB) ∧
      smaller = decide (rankA < rankB)

/-- The rank of an element, or zero if it has no place. -/
def rankOf (place : α → Option (κ × Nat)) (a : α) : Nat :=
  ((place a).map Prod.snd).getD 0

theorem rank_of_compares (hplaces : ComparesPlaces compare place) {a b : α}
    {smaller : Bool} (hcompare : compare a b = .ok smaller) :
    smaller = decide (rankOf place a < rankOf place b) := by
  obtain ⟨kind, rankA, rankB, hA, hB, rfl⟩ := hplaces a b smaller hcompare
  simp [rankOf, hA, hB]

theorem run_of_sort (hsort : sorting.sort compare elements = .ok sorted) :
    ∃ order, (sorting.tree elements.length).run
        (fun a b => compare (elements.get a) (elements.get b)) = .ok order ∧
      sorted = order.map elements.get := by
  rw [sort] at hsort
  split at hsort
  · contradiction
  · next order hrun => exact ⟨order, hrun, (Except.ok.inj hsort).symm⟩

/-- What is sorted is a permutation by increasing ranks. -/
theorem sort_spec (hplaces : ComparesPlaces compare place)
    (hsort : sorting.sort compare elements = .ok sorted) :
    sorted.Perm elements ∧
      sorted.Pairwise fun a b => rankOf place a ≤ rankOf place b := by
  obtain ⟨order, hrun, rfl⟩ := run_of_sort hsort
  let rank := fun a => rankOf place (elements.get a)
  have hanswer := SortTree.answer_of_run hrun
    fun a b smaller hcompare => (rank_of_compares hplaces hcompare).symm
  have hweak := strictWeak_rank rank
  have hperm := sorting.perm _ _ hweak
  have hsorted := sorting.sorted _ _ hweak
  rw [hanswer] at hperm hsorted
  constructor
  · have hmapped := hperm.map elements.get
    rwa [List.map_get_finRange] at hmapped
  · apply List.pairwise_map.mpr
    apply hsorted.imp
    exact fun hnot => not_lt.mp (of_decide_eq_false hnot)

/-- With several elements all have been compared, and all are of one kind. -/
theorem placed_of_sort [DecidableEq κ] (hplaces : ComparesPlaces compare place)
    (hsort : sorting.sort compare elements = .ok sorted)
    (hmany : 2 ≤ elements.length) :
    ∃ kind, ∀ a ∈ elements, ∃ rank, place a = some (kind, rank) := by
  obtain ⟨order, hrun, -⟩ := run_of_sort hsort
  have hsides : ∀ side : Fin elements.length → Bool,
      (∀ a b smaller, compare (elements.get a) (elements.get b) = .ok smaller →
        side a = side b) → ∀ a b, side a = side b := by
    intro side hside
    have hranks : ∀ a b smaller,
        compare (elements.get a) (elements.get b) = .ok smaller →
          smaller = decide (rankOf place (elements.get a) <
            rankOf place (elements.get b)) :=
      fun a b smaller hcompare => rank_of_compares hplaces hcompare
    exact side_eq hrun hranks hside
  have hplaced : ∀ i : Fin elements.length,
      ∃ found, place (elements.get i) = some found := by
    intro i
    by_contra hnone
    -- An element without a place is never compared, so it would be alone.
    have halone : ∀ j : Fin elements.length, j = i := by
      intro j
      have hside := hsides (fun k => decide (k = i)) (by
        intro a b smaller hcompare
        obtain ⟨kind, rankA, rankB, hA, hB, -⟩ := hplaces _ _ _ hcompare
        have ha : a ≠ i := fun h => hnone ⟨_, h ▸ hA⟩
        have hb : b ≠ i := fun h => hnone ⟨_, h ▸ hB⟩
        rw [decide_eq_false ha, decide_eq_false hb]) j i
      simpa using hside
    have hfirst := congrArg Fin.val (halone ⟨0, by omega⟩)
    have hsecond := congrArg Fin.val (halone ⟨1, by omega⟩)
    simp only at hfirst hsecond
    omega
  obtain ⟨⟨kind, rank⟩, hfirst⟩ := hplaced ⟨0, by omega⟩
  refine ⟨kind, fun a ha => ?_⟩
  obtain ⟨i, rfl⟩ := List.mem_iff_get.mp ha
  obtain ⟨⟨other, rankI⟩, hi⟩ := hplaced i
  have hside := hsides
    (fun k => decide ((place (elements.get k)).map Prod.fst = some kind)) (by
      intro a b smaller hcompare
      obtain ⟨same, rankA, rankB, hA, hB, -⟩ := hplaces _ _ _ hcompare
      simp only [hA, hB, Option.map_some]) i ⟨0, by omega⟩
  simp only [hfirst, hi, Option.map_some, decide_true, decide_eq_true_eq]
    at hside
  exact ⟨rankI, by rw [hi, Option.some.inj hside]⟩

/-- The last element has the largest rank. -/
theorem rank_le_last (hplaces : ComparesPlaces compare place)
    (hsort : sorting.sort compare elements = .ok sorted) {last : α}
    (hlast : sorted.getLast? = some last) {a : α} (ha : a ∈ elements) :
    rankOf place a ≤ rankOf place last := by
  obtain ⟨hperm, hsorted⟩ := sort_spec hplaces hsort
  obtain ⟨before, rfl⟩ := List.getLast?_eq_some_iff.mp hlast
  rcases List.mem_append.mp (hperm.mem_iff.mpr ha) with hbefore | hend
  · exact (List.pairwise_append.mp hsorted).2.2 a hbefore last
      List.mem_cons_self
  · rw [List.mem_singleton.mp hend]

end Places

section Insertion

variable {ι : Type u} {less : ι → ι → Bool}

/-- Where an element goes in a sorted list is asked from the front. -/
def insertTree (a : ι) : List ι → (List ι → SortTree ι) → SortTree ι
  | [], next => next [a]
  | first :: rest, next =>
      .ask a first fun smaller =>
        if smaller then next (a :: first :: rest)
        else insertTree a rest fun others => next (first :: others)

def insertionTree : List ι → List ι → SortTree ι
  | inserted, [] => .done inserted
  | inserted, a :: rest =>
      insertTree a inserted fun others => insertionTree others rest

theorem answer_insertTree (less : ι → ι → Bool) (a : ι) (inserted : List ι)
    (next : List ι → SortTree ι) :
    (insertTree a inserted next).answer less =
      (next (inserted.orderedInsert (fun a b => less a b = true) a)).answer
        less := by
  induction inserted generalizing next with
  | nil => rfl
  | cons first rest ih =>
      rw [insertTree, SortTree.answer, List.orderedInsert]
      split
      · rfl
      · exact ih _

/-- An element is inserted before the first one that is larger. -/
theorem pairwise_orderedInsert (hless : StrictWeak less) (a : ι)
    {inserted : List ι}
    (hsorted : inserted.Pairwise fun a b => less b a = false) :
    (inserted.orderedInsert (fun a b => less a b = true) a).Pairwise
      fun a b => less b a = false := by
  induction inserted with
  | nil => exact List.pairwise_singleton _ _
  | cons first rest ih =>
      obtain ⟨hfirst, hrest⟩ := List.pairwise_cons.mp hsorted
      rw [List.orderedInsert]
      split
      · next hbefore =>
          apply List.pairwise_cons.mpr
          refine ⟨fun b hb => ?_, hsorted⟩
          rcases List.mem_cons.mp hb with rfl | hlater
          · exact hless.asymm _ _ hbefore
          · by_contra hsmaller
            have hbetween := hless.between a b first hbefore
            have hnot := hfirst b hlater
            rcases hbetween with hab | hbf
            · exact hsmaller (hless.asymm _ _ hab)
            · rw [hbf] at hnot
              contradiction
      · next hafter =>
          apply List.pairwise_cons.mpr
          refine ⟨fun b hb => ?_, ih hrest⟩
          rcases (List.mem_orderedInsert _).mp hb with rfl | hlater
          · exact Bool.eq_false_iff.mpr hafter
          · exact hfirst b hlater

theorem answer_insertionTree (hless : StrictWeak less) {inserted rest : List ι}
    (hsorted : inserted.Pairwise fun a b => less b a = false) :
    ((insertionTree inserted rest).answer less).Perm (inserted ++ rest) ∧
      ((insertionTree inserted rest).answer less).Pairwise
        fun a b => less b a = false := by
  induction rest generalizing inserted with
  | nil => exact ⟨by rw [List.append_nil]; rfl, hsorted⟩
  | cons a rest ih =>
      rw [insertionTree, answer_insertTree]
      obtain ⟨hperm, hpairwise⟩ := ih (pairwise_orderedInsert hless a hsorted)
      refine ⟨hperm.trans ?_, hpairwise⟩
      have hinsert := List.perm_orderedInsert (fun a b => less a b = true) a
        inserted
      exact (hinsert.append_right rest).trans List.perm_middle.symm

/-- Insertion sort. -/
def insertion : ComparisonSort where
  tree := fun n => insertionTree [] (List.finRange n)
  perm := fun _ _ hless => (answer_insertionTree hless .nil).1
  sorted := fun _ _ hless => (answer_insertionTree hless .nil).2

end Insertion

end ComparisonSort

end Margot
