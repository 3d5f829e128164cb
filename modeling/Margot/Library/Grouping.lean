/-
The runs of equal keys of a list, and a traversal that knows only the key of
the element before: it closes what is open and opens the next where the key
changes.
-/
import Mathlib.Data.List.Basic
import Mathlib.Data.List.Pairwise
import Mathlib.Order.Defs.LinearOrder
import Mathlib.Order.Lattice

namespace Margot

namespace Grouping

universe u v w

variable {A : Type u} {B : Type v} {K : Type w} [DecidableEq K] (key : A → K)

/-- The maximal runs, each with its key. -/
def runs : List A → List (K × List A)
  | [] => []
  | a :: rest =>
      match runs rest with
      | [] => [(key a, [a])]
      | (first, members) :: others =>
          if first = key a then (first, a :: members) :: others
          else (key a, [a]) :: (first, members) :: others

/-- What follows while a group with the current key is open. -/
def between (opening : K → List B) (member : A → B) (closing : B) :
    K → List A → List B
  | _, [] => [closing]
  | current, a :: rest =>
      if key a = current then
        member a :: between opening member closing current rest
      else
        closing :: (opening (key a) ++
          member a :: between opening member closing (key a) rest)

/-- A group as it is written. -/
def written (opening : K → List B) (member : A → B) (closing : B)
    (group : K × List A) : List B :=
  opening group.1 ++ (group.2.map member ++ [closing])

section Runs

theorem exists_runs_cons (a : A) (rest : List A) :
    ∃ members others, runs key (a :: rest) = (key a, members) :: others := by
  rw [runs]
  cases runs key rest with
  | nil => exact ⟨_, _, rfl⟩
  | cons first others =>
      obtain ⟨first, members⟩ := first
      by_cases hsame : first = key a
      · subst hsame
        exact ⟨a :: members, others, if_pos rfl⟩
      · exact ⟨[a], (first, members) :: others, if_neg hsame⟩

theorem flatMap_runs (elements : List A) :
    (runs key elements).flatMap Prod.snd = elements := by
  induction elements with
  | nil => rfl
  | cons a rest ih =>
      rw [runs]
      cases hruns : runs key rest with
      | nil =>
          rw [hruns] at ih
          rw [← ih]
          rfl
      | cons first others =>
          obtain ⟨first, members⟩ := first
          rw [hruns] at ih
          rw [← ih]
          change List.flatMap _ (if first = key a then _ else _) = _
          split
          · rfl
          · rfl

/-- A run is not empty, and all of it has the key. -/
theorem mem_runs {elements : List A} {group : K × List A}
    (hmem : group ∈ runs key elements) :
    group.2 ≠ [] ∧ ∀ a ∈ group.2, key a = group.1 := by
  induction elements generalizing group with
  | nil => contradiction
  | cons a rest ih =>
      have hsingle : ([a] : List A) ≠ [] ∧ ∀ b ∈ [a], key b = key a := by
        refine ⟨List.cons_ne_nil _ _, fun b hb => ?_⟩
        rw [List.mem_singleton.mp hb]
      rw [runs] at hmem
      cases hruns : runs key rest with
      | nil =>
          rw [hruns] at hmem
          obtain rfl := List.mem_singleton.mp hmem
          exact hsingle
      | cons first others =>
          obtain ⟨first, members⟩ := first
          rw [hruns] at hmem ih
          change group ∈ (if first = key a then (first, a :: members) :: others
            else (key a, [a]) :: (first, members) :: others) at hmem
          split at hmem
          · next hsame =>
              rcases List.mem_cons.mp hmem with rfl | hmem
              · obtain ⟨-, hmembers⟩ := ih List.mem_cons_self
                exact ⟨List.cons_ne_nil _ _,
                  List.forall_mem_cons.mpr ⟨hsame.symm, hmembers⟩⟩
              · exact ih (List.mem_cons_of_mem _ hmem)
          · rcases List.mem_cons.mp hmem with rfl | hmem
            · exact hsingle
            · exact ih hmem

theorem key_mem_of_mem_runs {elements : List A} {group : K × List A}
    (hmem : group ∈ runs key elements) : group.1 ∈ elements.map key := by
  obtain ⟨hsome, hkeys⟩ := mem_runs key hmem
  obtain ⟨a, rest, hgroup⟩ := List.exists_cons_of_ne_nil hsome
  have ha : a ∈ group.2 := hgroup ▸ List.mem_cons_self
  rw [← hkeys a ha]
  apply List.mem_map_of_mem
  rw [← flatMap_runs key elements]
  exact List.mem_flatMap.mpr ⟨group, hmem, ha⟩

/-- An open group is closed, and each of the next ones is written whole. -/
theorem opening_between (opening : K → List B) (member : A → B) (closing : B)
    (a : A) (rest : List A) :
    opening (key a) ++
        member a :: between key opening member closing (key a) rest =
      (runs key (a :: rest)).flatMap (written opening member closing) := by
  induction rest generalizing a with
  | nil => simp [runs, between, written]
  | cons b rest ih =>
      have hrest := ih b
      obtain ⟨members, others, hruns⟩ := exists_runs_cons key b rest
      rw [runs, hruns]
      rw [hruns] at hrest
      change _ = List.flatMap _ (if key b = key a then
        (key b, a :: members) :: others
        else (key a, [a]) :: (key b, members) :: others)
      rw [between]
      by_cases hsame : key b = key a
      · rw [if_pos hsame, if_pos hsame, ← hsame, List.flatMap_cons]
        rw [List.flatMap_cons, written, List.append_assoc] at hrest
        have htail := List.append_cancel_left hrest
        rw [htail]
        simp [written]
      · rw [if_neg hsame, if_neg hsame, List.flatMap_cons, ← hrest]
        simp [written]

end Runs

/-- In a sorted list every key has one run. -/
theorem nodup_runs {K : Type w} [LinearOrder K] [DecidableEq K] {key : A → K}
    {elements : List A} (hsorted : (elements.map key).Pairwise (· ≤ ·)) :
    ((runs key elements).map Prod.fst).Nodup := by
  have hstrict : ((runs key elements).map Prod.fst).Pairwise (· < ·) := by
    induction elements with
    | nil => exact .nil
    | cons a rest ih =>
        rw [List.map_cons, List.pairwise_cons] at hsorted
        have hrest := ih hsorted.2
        have hleast : ∀ group ∈ runs key rest, key a ≤ group.1 :=
          fun group hmem => hsorted.1 _ (key_mem_of_mem_runs key hmem)
        rw [runs]
        cases hruns : runs key rest with
        | nil => exact List.pairwise_singleton _ _
        | cons first others =>
            obtain ⟨first, members⟩ := first
            rw [hruns] at hrest hleast
            change (List.map _ (if first = key a then _ else _)).Pairwise _
            split
            · exact hrest
            · next hother =>
                have hfirst : key a < first :=
                  lt_of_le_of_ne (hleast _ List.mem_cons_self) (Ne.symm hother)
                rw [List.map_cons, List.pairwise_cons]
                refine ⟨fun k hk => ?_, hrest⟩
                rw [List.map_cons, List.pairwise_cons] at hrest
                rcases List.mem_cons.mp hk with rfl | hk
                · exact hfirst
                · exact lt_trans hfirst (hrest.1 k hk)
  exact hstrict.imp ne_of_lt

end Grouping

end Margot
