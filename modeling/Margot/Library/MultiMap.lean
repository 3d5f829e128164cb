/-
`std::multimap` for elements that carry their own key: the elements are kept
in increasing key order, and a new element goes behind the ones with an equal
key.
-/
import Mathlib.Data.List.Sort

namespace Margot

universe u v

structure MultiMap {A : Type u} {K : Type v} [LinearOrder K] (key : A → K) where
  elems : List A
  sorted : elems.Pairwise fun first second => key first ≤ key second

namespace MultiMap

variable {A : Type u} {K : Type v} [LinearOrder K] {key : A → K}

instance : Membership A (MultiMap key) := ⟨fun map a => a ∈ map.elems⟩

theorem mem_def {map : MultiMap key} {a : A} : a ∈ map ↔ a ∈ map.elems :=
  Iff.rfl

def empty : MultiMap key := ⟨[], List.Pairwise.nil⟩

theorem pairwise_orderedInsert {elems : List A} (a : A)
    (hsorted : elems.Pairwise fun first second => key first ≤ key second) :
    (elems.orderedInsert (fun first second => key first < key second) a).Pairwise
      fun first second => key first ≤ key second := by
  induction elems with
  | nil => simp
  | cons head tail ih =>
      obtain ⟨hhead, htail⟩ := List.pairwise_cons.mp hsorted
      by_cases hlt : key a < key head
      · rw [List.orderedInsert_cons, if_pos hlt, List.pairwise_cons]
        refine ⟨?_, hsorted⟩
        intro other hother
        rcases List.mem_cons.mp hother with rfl | hother
        · exact hlt.le
        · exact hlt.le.trans (hhead other hother)
      · rw [List.orderedInsert_cons, if_neg hlt, List.pairwise_cons]
        refine ⟨?_, ih htail⟩
        intro other hother
        rcases (List.mem_orderedInsert _).mp hother with rfl | hother
        · exact not_lt.mp hlt
        · exact hhead other hother

def emplace (map : MultiMap key) (a : A) : MultiMap key where
  elems := map.elems.orderedInsert
    (fun first second => key first < key second) a
  sorted := pairwise_orderedInsert a map.sorted

def emplaceAll (map : MultiMap key) (elems : List A) : MultiMap key :=
  elems.foldl emplace map

/-- Remove the first occurrence of an element. -/
def erase [DecidableEq A] (map : MultiMap key) (a : A) : MultiMap key where
  elems := map.elems.erase a
  sorted := map.sorted.sublist List.erase_sublist

def eraseAll [DecidableEq A] (map : MultiMap key) (elems : List A) :
    MultiMap key :=
  elems.foldl erase map

/-- The elements from `lower_bound low` to `upper_bound high`. -/
def range (map : MultiMap key) (low high : K) : List A :=
  (map.elems.dropWhile fun a => key a < low).takeWhile fun a => key a ≤ high

def front? (map : MultiMap key) : Option A := map.elems.head?

def back? (map : MultiMap key) : Option A := map.elems.getLast?

@[simp] theorem elems_empty : (empty : MultiMap key).elems = [] := rfl

theorem elems_emplace_perm (map : MultiMap key) (a : A) :
    (map.emplace a).elems.Perm (a :: map.elems) :=
  List.perm_orderedInsert _ a map.elems

theorem elems_emplaceAll_perm (map : MultiMap key) (elems : List A) :
    (map.emplaceAll elems).elems.Perm (map.elems ++ elems) := by
  induction elems generalizing map with
  | nil => simp [emplaceAll]
  | cons head tail ih =>
      have hstep : (map.emplaceAll (head :: tail)).elems =
          ((map.emplace head).emplaceAll tail).elems := rfl
      rw [hstep]
      have hhead : ((map.emplace head).elems ++ tail).Perm
          (head :: map.elems ++ tail) :=
        (elems_emplace_perm map head).append_right tail
      exact (ih (map.emplace head)).trans (hhead.trans List.perm_middle.symm)

@[simp] theorem mem_emplaceAll {map : MultiMap key} {elems : List A} {a : A} :
    a ∈ map.emplaceAll elems ↔ a ∈ map ∨ a ∈ elems := by
  rw [mem_def, (elems_emplaceAll_perm map elems).mem_iff, List.mem_append]
  exact Iff.rfl

theorem elems_eraseAll [DecidableEq A] (map : MultiMap key) (elems : List A) :
    (map.eraseAll elems).elems = map.elems.diff elems := by
  induction elems generalizing map with
  | nil => rfl
  | cons head tail ih =>
      rw [List.diff_cons]
      exact ih (map.erase head)

theorem mem_eraseAll [DecidableEq A] {map : MultiMap key} {elems : List A}
    {a : A} (hnodup : map.elems.Nodup) :
    a ∈ map.eraseAll elems ↔ a ∈ map ∧ a ∉ elems := by
  rw [mem_def, elems_eraseAll, hnodup.mem_sdiff_iff]
  exact Iff.rfl

theorem nodup_eraseAll [DecidableEq A] {map : MultiMap key} {elems : List A}
    (hnodup : map.elems.Nodup) : (map.eraseAll elems).elems.Nodup := by
  rw [elems_eraseAll]
  exact hnodup.diff

theorem mem_takeWhile_of_sorted {elems : List A} {high : K} {a : A}
    (hsorted : elems.Pairwise fun first second => key first ≤ key second) :
    a ∈ elems.takeWhile (fun b => key b ≤ high) ↔ a ∈ elems ∧ key a ≤ high := by
  induction elems with
  | nil => simp
  | cons head tail ih =>
      obtain ⟨hhead, htail⟩ := List.pairwise_cons.mp hsorted
      by_cases hle : key head ≤ high
      · rw [List.takeWhile_cons_of_pos (by simpa using hle), List.mem_cons,
          ih htail, List.mem_cons]
        constructor
        · rintro (rfl | ⟨hmem, hkey⟩)
          · exact ⟨Or.inl rfl, hle⟩
          · exact ⟨Or.inr hmem, hkey⟩
        · rintro ⟨rfl | hmem, hkey⟩
          · exact Or.inl rfl
          · exact Or.inr ⟨hmem, hkey⟩
      · rw [List.takeWhile_cons_of_neg (by simpa using hle)]
        simp only [List.not_mem_nil, List.mem_cons, false_iff, not_and]
        rintro (rfl | hmem) hkey
        · exact hle hkey
        · exact hle ((hhead a hmem).trans hkey)

theorem mem_dropWhile_of_sorted {elems : List A} {low : K} {a : A}
    (hsorted : elems.Pairwise fun first second => key first ≤ key second) :
    a ∈ elems.dropWhile (fun b => key b < low) ↔ a ∈ elems ∧ low ≤ key a := by
  induction elems with
  | nil => simp
  | cons head tail ih =>
      obtain ⟨hhead, htail⟩ := List.pairwise_cons.mp hsorted
      by_cases hlt : key head < low
      · rw [List.dropWhile_cons_of_pos (by simpa using hlt), ih htail,
          List.mem_cons]
        constructor
        · rintro ⟨hmem, hkey⟩
          exact ⟨Or.inr hmem, hkey⟩
        · rintro ⟨rfl | hmem, hkey⟩
          · exact absurd hkey (not_le.mpr hlt)
          · exact ⟨hmem, hkey⟩
      · rw [List.dropWhile_cons_of_neg (by simpa using hlt)]
        refine ⟨fun hmem => ⟨hmem, ?_⟩, fun h => h.1⟩
        rcases List.mem_cons.mp hmem with rfl | hmem
        · exact not_lt.mp hlt
        · exact (not_lt.mp hlt).trans (hhead a hmem)

theorem mem_range {map : MultiMap key} {low high : K} {a : A} :
    a ∈ map.range low high ↔ a ∈ map ∧ low ≤ key a ∧ key a ≤ high := by
  have hsorted := map.sorted.sublist
    (List.dropWhile_sublist fun b => decide (key b < low))
  rw [range, mem_takeWhile_of_sorted hsorted,
    mem_dropWhile_of_sorted map.sorted, and_assoc]
  exact Iff.rfl

theorem front?_le {map : MultiMap key} {a b : A} (hfront : map.front? = some a)
    (hb : b ∈ map) : key a ≤ key b := by
  obtain ⟨elems, hsorted⟩ := map
  cases elems with
  | nil => simp [front?] at hfront
  | cons head tail =>
      obtain rfl : head = a := by simpa [front?] using hfront
      rcases List.mem_cons.mp hb with rfl | hb
      · exact le_rfl
      · exact (List.pairwise_cons.mp hsorted).1 b hb

theorem le_back? {map : MultiMap key} {a b : A} (hback : map.back? = some a)
    (hb : b ∈ map) : key b ≤ key a := by
  obtain ⟨pre, hpre⟩ := List.getLast?_eq_some_iff.mp hback
  have hsorted := map.sorted
  rw [mem_def, hpre] at hb
  rw [hpre] at hsorted
  rcases List.mem_append.mp hb with hb | hb
  · exact (List.pairwise_append.mp hsorted).2.2 b hb a (by simp)
  · obtain rfl : b = a := by simpa using hb
    exact le_rfl

theorem mem_of_front? {map : MultiMap key} {a : A}
    (hfront : map.front? = some a) : a ∈ map :=
  List.mem_of_mem_head? hfront

theorem mem_of_back? {map : MultiMap key} {a : A}
    (hback : map.back? = some a) : a ∈ map :=
  List.mem_of_getLast? hback

end MultiMap

end Margot
