/-
Hash containers.  The elements of a hash set or a hash map are visited in an
order that the standard leaves open; `HashOrder` is that order, an arbitrary
rearrangement of the stored elements.
-/
import Mathlib.Data.List.Basic
import Mathlib.Data.List.Nodup
import Mathlib.Data.List.Perm.Basic

namespace Margot

universe u v

/-- With one entry for each key, looking a key up finds its entry. -/
theorem lookup_eq_some_iff {K : Type u} {V : Type v} [DecidableEq K]
    {entries : List (K × V)} (hnodup : (entries.map Prod.fst).Nodup)
    {key : K} {value : V} :
    entries.lookup key = some value ↔ (key, value) ∈ entries := by
  induction entries with
  | nil => simp
  | cons head tail ih =>
      obtain ⟨first, stored⟩ := head
      obtain ⟨hhead, htail⟩ := List.nodup_cons.mp hnodup
      by_cases hkey : key = first
      · subst hkey
        have hnot : (key, value) ∉ tail := fun hmem =>
          hhead (List.mem_map.mpr ⟨_, hmem, rfl⟩)
        rw [List.lookup_cons_self]
        simp only [Option.some.injEq, List.mem_cons, Prod.mk.injEq, true_and,
          hnot, or_false]
        exact eq_comm
      · have hbeq : (key == first) = false := by simpa using hkey
        simp only [List.lookup_cons, hbeq, List.mem_cons, Prod.mk.injEq, hkey,
          false_and, false_or]
        exact ih htail

/-- Entries are determined by their keys and by what is found at each key. -/
theorem entries_ext {K : Type u} {V : Type v} [DecidableEq K]
    {first second : List (K × V)} (hnodup : (first.map Prod.fst).Nodup)
    (hkeys : first.map Prod.fst = second.map Prod.fst)
    (hlookup : ∀ key ∈ first.map Prod.fst,
      first.lookup key = second.lookup key) : first = second := by
  induction first generalizing second with
  | nil => exact (List.map_eq_nil_iff.mp hkeys.symm).symm
  | cons head rest ih =>
      obtain ⟨hhead, hrest⟩ := List.nodup_cons.mp hnodup
      cases second with
      | nil => exact absurd hkeys (List.cons_ne_nil _ _)
      | cons other others =>
          obtain ⟨hkey, htail⟩ := List.cons.inj hkeys
          have hvalue := hlookup head.1 List.mem_cons_self
          have hfirst : List.lookup head.1 (head :: rest) = some head.2 :=
            List.lookup_cons_self
          have hsecond : List.lookup head.1 (other :: others) =
              some other.2 := by
            rw [hkey]
            exact List.lookup_cons_self
          rw [hfirst, hsecond] at hvalue
          have hsame : head = other :=
            Prod.ext hkey (Option.some.inj hvalue)
          refine congrArg₂ List.cons hsame (ih hrest htail ?_)
          intro key hmem
          have hne : (key == head.1) = false := by
            simpa using fun heq : key = head.1 => hhead (heq ▸ hmem)
          have hothers := hlookup key (List.mem_cons_of_mem _ hmem)
          rw [List.lookup_cons, List.lookup_cons, ← hkey, hne] at hothers
          exact hothers

/-- The order in which a hash container visits its elements, and the order in
which a copy of the container stores them. -/
class HashOrder (A : Type u) where
  visit : List A → List A
  visit_perm : ∀ elems, (visit elems).Perm elems
  copy : List A → List A := id
  copy_perm : ∀ elems, (copy elems).Perm elems := by
    exact fun elems => List.Perm.refl elems

/-- The container that visits its elements in the order they are stored. -/
@[reducible] def HashOrder.stored (A : Type u) : HashOrder A where
  visit := id
  visit_perm := List.Perm.refl

@[simp] theorem HashOrder.mem_visit {A : Type u} [HashOrder A]
    {elems : List A} {a : A} : a ∈ HashOrder.visit elems ↔ a ∈ elems :=
  (HashOrder.visit_perm elems).mem_iff

theorem HashOrder.nodup_visit {A : Type u} [HashOrder A] {elems : List A} :
    (HashOrder.visit elems).Nodup ↔ elems.Nodup :=
  (HashOrder.visit_perm elems).nodup_iff

/-- `std::unordered_set`. -/
structure UnorderedSet (A : Type u) where
  elems : List A
  nodup : elems.Nodup

namespace UnorderedSet

variable {A : Type u} [DecidableEq A]

instance : Membership A (UnorderedSet A) := ⟨fun set a => a ∈ set.elems⟩

instance (a : A) (set : UnorderedSet A) : Decidable (a ∈ set) :=
  inferInstanceAs (Decidable (a ∈ set.elems))

omit [DecidableEq A] in
theorem mem_def {a : A} {set : UnorderedSet A} : a ∈ set ↔ a ∈ set.elems :=
  Iff.rfl

def empty : UnorderedSet A := ⟨[], List.nodup_nil⟩

def emplace (set : UnorderedSet A) (a : A) : UnorderedSet A :=
  if h : a ∈ set.elems then set
  else ⟨a :: set.elems, List.nodup_cons.mpr ⟨h, set.nodup⟩⟩

def erase (set : UnorderedSet A) (a : A) : UnorderedSet A :=
  ⟨set.elems.erase a, set.nodup.erase a⟩

/-- The elements in the order of an iteration over the set. -/
def iterate [HashOrder A] (set : UnorderedSet A) : List A :=
  HashOrder.visit set.elems

def emplaceAll (set : UnorderedSet A) (elems : List A) : UnorderedSet A :=
  elems.foldl emplace set

omit [DecidableEq A] in
@[simp] theorem not_mem_empty (a : A) : a ∉ (empty : UnorderedSet A) := by
  simp [mem_def, empty]

@[simp] theorem mem_emplace {set : UnorderedSet A} {a b : A} :
    b ∈ set.emplace a ↔ b = a ∨ b ∈ set := by
  unfold emplace
  split
  · next h =>
      constructor
      · exact Or.inr
      · rintro (rfl | hb)
        · exact h
        · exact hb
  · simp [mem_def]

theorem emplace_elems_ne_nil (set : UnorderedSet A) (a : A) :
    (set.emplace a).elems ≠ [] :=
  List.ne_nil_of_mem (mem_def.mp (mem_emplace.mpr (.inl rfl)))

@[simp] theorem mem_erase {set : UnorderedSet A} {a b : A} :
    b ∈ set.erase a ↔ b ≠ a ∧ b ∈ set := by
  simp only [mem_def, erase]
  exact set.nodup.mem_erase_iff

@[simp] theorem mem_emplaceAll {set : UnorderedSet A} {elems : List A} {b : A} :
    b ∈ set.emplaceAll elems ↔ b ∈ elems ∨ b ∈ set := by
  induction elems generalizing set with
  | nil => simp [emplaceAll]
  | cons head tail ih =>
      have hstep : b ∈ set.emplaceAll (head :: tail) ↔
          b ∈ (set.emplace head).emplaceAll tail := Iff.rfl
      rw [hstep, ih, mem_emplace, List.mem_cons]
      tauto

omit [DecidableEq A] in
@[simp] theorem mem_iterate [HashOrder A] {set : UnorderedSet A} {a : A} :
    a ∈ set.iterate ↔ a ∈ set :=
  HashOrder.mem_visit

omit [DecidableEq A] in
theorem iterate_nodup [HashOrder A] (set : UnorderedSet A) :
    set.iterate.Nodup :=
  HashOrder.nodup_visit.mpr set.nodup

omit [DecidableEq A] in
theorem iterate_eq_nil [HashOrder A] {set : UnorderedSet A} :
    set.iterate = [] ↔ ∀ a, a ∉ set := by
  rw [List.eq_nil_iff_forall_not_mem]
  simp

end UnorderedSet

/-- `std::unordered_map`: the stored entries, one for each key. -/
structure UnorderedMap (K : Type u) (V : Type v) where
  entries : List (K × V)
  nodup : (entries.map Prod.fst).Nodup

namespace UnorderedMap

variable {K : Type u} {V W : Type v} [DecidableEq K]

def empty : UnorderedMap K V := ⟨[], List.nodup_nil⟩

def keys (map : UnorderedMap K V) : List K := map.entries.map Prod.fst

def find? (map : UnorderedMap K V) (key : K) : Option V :=
  map.entries.lookup key

/-- The keys in the order of an iteration over the map. -/
def visitKeys [HashOrder K] (map : UnorderedMap K V) : List K :=
  HashOrder.visit map.keys

/-- Apply a function to every stored value. -/
def map (f : V → W) (table : UnorderedMap K V) : UnorderedMap K W where
  entries := table.entries.map fun entry => (entry.1, f entry.2)
  nodup := by simpa [Function.comp_def] using table.nodup

/-- Apply a function to every stored entry; the keys stay. -/
def mapWithKey (f : K → V → W) (table : UnorderedMap K V) :
    UnorderedMap K W where
  entries := table.entries.map fun entry => (entry.1, f entry.1 entry.2)
  nodup := by simpa [Function.comp_def] using table.nodup

/-- Apply a function to the value of one key. -/
def modify (table : UnorderedMap K V) (key : K) (f : V → V) :
    UnorderedMap K V where
  entries := table.entries.map fun entry =>
    if entry.1 = key then (entry.1, f entry.2) else entry
  nodup := by
    have hkeys : (table.entries.map fun entry =>
        if entry.1 = key then (entry.1, f entry.2) else entry).map Prod.fst =
        table.entries.map Prod.fst := by
      rw [List.map_map]
      apply List.map_congr_left
      intro entry _
      by_cases h : entry.1 = key <;> simp [h]
    rw [hkeys]
    exact table.nodup

def erase (table : UnorderedMap K V) (key : K) : UnorderedMap K V where
  entries := table.entries.filter fun entry => entry.1 ≠ key
  nodup := table.nodup.sublist (List.filter_sublist.map Prod.fst)

/-- Insert an entry unless its key is already there. -/
def emplace (table : UnorderedMap K V) (key : K) (value : V) :
    UnorderedMap K V :=
  if h : key ∈ table.keys then table
  else ⟨table.entries ++ [(key, value)], by
    rw [List.map_append, List.nodup_append]
    refine ⟨table.nodup, by simp, ?_⟩
    intro first hfirst second hsecond heq
    simp only [List.map_cons, List.map_nil, List.mem_singleton] at hsecond
    subst hsecond heq
    exact h hfirst⟩

/-- Insert an entry or replace the value of its key; whether it was new. -/
def insertOrAssign (table : UnorderedMap K V) (key : K) (value : V) :
    UnorderedMap K V × Bool :=
  if key ∈ table.keys then (table.modify key fun _ => value, false)
  else (table.emplace key value, true)

/-- A copy of the table: the same entries, perhaps in another order. -/
def copy [HashOrder K] (table : UnorderedMap K V) : UnorderedMap K V where
  entries := (HashOrder.copy table.keys).filterMap fun key =>
    (table.find? key).map fun value => (key, value)
  nodup := by
    have hkeys : table.keys.Nodup := table.nodup
    have hcopy := (HashOrder.copy_perm table.keys).nodup_iff.mpr hkeys
    rw [List.map_filterMap]
    refine hcopy.filterMap fun first second key hfirst hsecond => ?_
    simp only [Option.map_map, Function.comp_def, Option.mem_def,
      Option.map_eq_some_iff] at hfirst hsecond
    obtain ⟨-, -, rfl⟩ := hfirst
    obtain ⟨-, -, rfl⟩ := hsecond
    rfl

omit [DecidableEq K] in
theorem mem_keys {table : UnorderedMap K V} {key : K} :
    key ∈ table.keys ↔ ∃ value, (key, value) ∈ table.entries := by
  simp [keys]

theorem find?_eq_some {table : UnorderedMap K V} {key : K} {value : V} :
    table.find? key = some value ↔ (key, value) ∈ table.entries :=
  lookup_eq_some_iff table.nodup

theorem find?_eq_none {table : UnorderedMap K V} {key : K} :
    table.find? key = none ↔ key ∉ table.keys := by
  constructor
  · intro hnone hmem
    obtain ⟨value, hvalue⟩ := mem_keys.mp hmem
    rw [find?_eq_some.mpr hvalue] at hnone
    exact Option.some_ne_none value hnone
  · intro hnot
    rw [Option.eq_none_iff_forall_not_mem]
    intro value hvalue
    exact hnot (mem_keys.mpr ⟨value, find?_eq_some.mp hvalue⟩)

omit [DecidableEq K] in
@[simp] theorem keys_map (f : V → W) (table : UnorderedMap K V) :
    (table.map f).keys = table.keys := by
  simp [keys, map, Function.comp_def]

@[simp] theorem find?_map (f : V → W) (table : UnorderedMap K V) (key : K) :
    (table.map f).find? key = (table.find? key).map f := by
  simp only [find?, map]
  induction table.entries with
  | nil => rfl
  | cons head tail ih =>
      obtain ⟨first, stored⟩ := head
      by_cases hkey : key == first
      · simp [List.lookup_cons, hkey]
      · simp [List.lookup_cons, hkey, ih]

@[simp] theorem find?_mapWithKey (f : K → V → W) (table : UnorderedMap K V)
    (key : K) :
    (table.mapWithKey f).find? key = (table.find? key).map (f key) := by
  simp only [find?, mapWithKey]
  induction table.entries with
  | nil => rfl
  | cons head tail ih =>
      obtain ⟨first, stored⟩ := head
      by_cases hkey : key = first
      · subst hkey
        simp [List.lookup_cons_self]
      · have hbeq : (key == first) = false := by simpa using hkey
        simpa [List.lookup_cons, hbeq] using ih

@[simp] theorem keys_modify (table : UnorderedMap K V) (key : K) (f : V → V) :
    (table.modify key f).keys = table.keys := by
  simp only [keys, modify, List.map_map]
  apply List.map_congr_left
  intro entry _
  by_cases h : entry.1 = key <;> simp [h]

theorem find?_modify (table : UnorderedMap K V) (key other : K) (f : V → V) :
    (table.modify key f).find? other =
      (table.find? other).map fun value =>
        if other = key then f value else value := by
  simp only [find?, modify]
  induction table.entries with
  | nil => rfl
  | cons head tail ih =>
      obtain ⟨first, stored⟩ := head
      have hentry : (if first = key then (first, f stored)
          else (first, stored)) =
          (first, if first = key then f stored else stored) := by
        by_cases h : first = key <;> simp [h]
      by_cases hother : other = first
      · subst hother
        simp only [List.map_cons, hentry, List.lookup_cons_self,
          Option.map_some]
      · have hbeq : (other == first) = false := by simpa using hother
        simp only [List.map_cons, hentry, List.lookup_cons, hbeq]
        exact ih

theorem keys_emplace_of_not_mem {table : UnorderedMap K V} {key : K}
    (hkey : key ∉ table.keys) (value : V) :
    (table.emplace key value).keys = table.keys ++ [key] := by
  rw [emplace, dif_neg hkey]
  simp [keys]

theorem find?_emplace (table : UnorderedMap K V) (key other : K) (value : V) :
    (table.emplace key value).find? other =
      if other = key ∧ key ∉ table.keys then some value
      else table.find? other := by
  unfold emplace
  split
  · next h => simp [h]
  · next h =>
      simp only [find?]
      rw [List.lookup_append]
      by_cases hother : other = key
      · subst hother
        have hnone : List.lookup other table.entries = none :=
          find?_eq_none.mpr h
        simp [hnone, h]
      · have hbeq : (other == key) = false := by simpa using hother
        simp [hother, List.lookup_cons, hbeq]

theorem find?_erase (table : UnorderedMap K V) (key other : K) :
    (table.erase key).find? other =
      if other = key then none else table.find? other := by
  apply Option.ext
  intro value
  by_cases hother : other = key
  · rw [find?_eq_some]
    simp [erase, hother]
  · rw [if_neg hother, find?_eq_some, find?_eq_some]
    simp [erase, hother]

/-- The entries of stored keys have these keys. -/
theorem keys_filterMap_find? {table : UnorderedMap K V} {order : List K}
    (hfound : ∀ key ∈ order, key ∈ table.keys) :
    (order.filterMap fun key =>
        (table.find? key).map fun value => (key, value)).map Prod.fst =
      order := by
  induction order with
  | nil => rfl
  | cons key rest ih =>
      obtain ⟨hkey, hrest⟩ := List.forall_mem_cons.mp hfound
      obtain ⟨value, hvalue⟩ := mem_keys.mp hkey
      rw [List.filterMap_cons, find?_eq_some.mpr hvalue]
      exact congrArg (key :: ·) (ih hrest)

@[simp] theorem keys_copy [HashOrder K] (table : UnorderedMap K V) :
    table.copy.keys = HashOrder.copy table.keys :=
  keys_filterMap_find? fun _ =>
    (HashOrder.copy_perm table.keys).mem_iff.mp

@[simp] theorem find?_copy [HashOrder K] (table : UnorderedMap K V) (key : K) :
    table.copy.find? key = table.find? key := by
  apply Option.ext
  intro value
  rw [find?_eq_some]
  constructor
  · intro hmem
    obtain ⟨other, -, hother⟩ := List.mem_filterMap.mp hmem
    obtain ⟨stored, hstored, heq⟩ := Option.map_eq_some_iff.mp hother
    obtain ⟨rfl, rfl⟩ := Prod.mk.inj heq
    exact hstored
  · intro hfind
    have hkey : key ∈ table.keys := mem_keys.mpr ⟨value, find?_eq_some.mp hfind⟩
    refine List.mem_filterMap.mpr ⟨key, ?_, by rw [hfind, Option.map_some]⟩
    exact (HashOrder.copy_perm table.keys).mem_iff.mpr hkey

theorem mem_keys_find? {table : UnorderedMap K V} {key : K} :
    key ∈ table.keys ↔ ∃ value, table.find? key = some value := by
  simp only [mem_keys, find?_eq_some]

theorem find?_insertOrAssign (table : UnorderedMap K V) (key other : K)
    (value : V) :
    (table.insertOrAssign key value).1.find? other =
      if other = key then some value else table.find? other := by
  rw [insertOrAssign]
  split
  · next hkey =>
      rw [find?_modify]
      by_cases hother : other = key
      · obtain ⟨stored, hstored⟩ := mem_keys_find?.mp hkey
        rw [hother, hstored, if_pos rfl, Option.map_some, if_pos rfl]
      · simp [hother]
  · next hkey => simp [find?_emplace, hkey]

theorem insertOrAssign_new {table : UnorderedMap K V} {key : K} (value : V) :
    (table.insertOrAssign key value).2 = true ↔ key ∉ table.keys := by
  rw [insertOrAssign]
  split <;> simp_all

theorem ext_find? {first second : UnorderedMap K V}
    (hkeys : first.keys = second.keys)
    (hfind : ∀ key ∈ first.keys, first.find? key = second.find? key) :
    first = second := by
  have hentries := entries_ext first.nodup hkeys hfind
  cases first
  cases second
  cases hentries
  rfl

omit [DecidableEq K] in
@[simp] theorem keys_mapWithKey (f : K → V → W) (table : UnorderedMap K V) :
    (table.mapWithKey f).keys = table.keys := by
  simp [keys, mapWithKey, Function.comp_def]

section Map

variable (f : V → W) (table : UnorderedMap K V)

omit [DecidableEq K] in
theorem map_map {X : Type v} (h : W → X) :
    (table.map f).map h = table.map fun value => h (f value) := by
  simp [map, Function.comp_def]

@[simp] theorem map_emplace (key : K) (value : V) :
    (table.emplace key value).map f = (table.map f).emplace key (f value) := by
  by_cases hkey : key ∈ table.keys
  · rw [emplace, dif_pos hkey, emplace, dif_pos (by rwa [keys_map])]
  · rw [emplace, dif_neg hkey, emplace, dif_neg (by rwa [keys_map])]
    simp [map]

@[simp] theorem map_erase (key : K) :
    (table.erase key).map f = (table.map f).erase key := by
  simp [erase, map, List.filter_map, Function.comp_def]

@[simp] theorem modify_id (key : K) : table.modify key id = table := by
  simp [modify]

/-- A change of one value that amounts to a change of its image. -/
theorem map_modify (key : K) {change : V → V} (effect : W → W)
    (hchange : ∀ value, table.find? key = some value →
      f (change value) = effect (f value)) :
    (table.modify key change).map f = (table.map f).modify key effect := by
  refine ext_find? (by simp) fun other _ => ?_
  simp only [find?_map, find?_modify, Option.map_map]
  refine Option.map_congr fun value hvalue => ?_
  by_cases hother : other = key
  · subst hother
    simpa using hchange value hvalue
  · simp [hother]

end Map

omit [DecidableEq K] in
@[simp] theorem mem_visitKeys [HashOrder K] {table : UnorderedMap K V}
    {key : K} : key ∈ table.visitKeys ↔ key ∈ table.keys :=
  HashOrder.mem_visit

omit [DecidableEq K] in
theorem visitKeys_nodup [HashOrder K] (table : UnorderedMap K V) :
    table.visitKeys.Nodup :=
  HashOrder.nodup_visit.mpr table.nodup

end UnorderedMap

end Margot
