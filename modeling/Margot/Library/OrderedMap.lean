/-
`std::map`: entries in increasing key order.  Loops over a range of the map
that thread an accumulator and replace the visited values are `accumulate`.
-/
import Mathlib.Order.Defs.LinearOrder
import Mathlib.Data.List.Basic
import Mathlib.Data.List.Nodup
import Margot.Library.Unordered
import Mathlib.Order.Lattice

namespace Margot

universe u v w

structure OrderedMap (K : Type u) (V : Type v) [LinearOrder K] where
  entries : List (K × V)
  sorted : entries.Pairwise fun first second => first.1 < second.1

namespace OrderedMap

variable {K : Type u} {V : Type v} {S : Type w} [LinearOrder K]

def empty : OrderedMap K V := ⟨[], List.Pairwise.nil⟩

def keys (map : OrderedMap K V) : List K := map.entries.map Prod.fst

def find? (map : OrderedMap K V) (key : K) : Option V :=
  map.entries.lookup key

/-- The entries with a key smaller than the given one. -/
def before (map : OrderedMap K V) (key : K) : List (K × V) :=
  map.entries.filter fun entry => entry.1 < key

/-- The range from `lower_bound` to the end. -/
def lowerBound (map : OrderedMap K V) (key : K) : List (K × V) :=
  map.entries.filter fun entry => key ≤ entry.1

/-- The range from `upper_bound` to the end. -/
def upperBound (map : OrderedMap K V) (key : K) : List (K × V) :=
  map.entries.filter fun entry => key < entry.1

theorem sorted_around (map : OrderedMap K V) (key : K) (value : V) :
    (map.before key ++ (key, value) :: map.upperBound key).Pairwise
      fun first second => first.1 < second.1 := by
  rw [List.pairwise_append, List.pairwise_cons]
  refine ⟨map.sorted.sublist List.filter_sublist, ⟨?_,
    map.sorted.sublist List.filter_sublist⟩, ?_⟩
  · intro entry hentry
    simpa [upperBound] using (List.mem_filter.mp hentry).2
  · intro first hfirst second hsecond
    have hlow : first.1 < key := by
      simpa [before] using (List.mem_filter.mp hfirst).2
    rcases List.mem_cons.mp hsecond with rfl | hsecond
    · exact hlow
    · have hhigh : key < second.1 := by
        simpa [upperBound] using (List.mem_filter.mp hsecond).2
      exact hlow.trans hhigh

/-- `map[key] = value`: replaces the value of a key that is already there. -/
def insert (map : OrderedMap K V) (key : K) (value : V) : OrderedMap K V where
  entries := map.before key ++ (key, value) :: map.upperBound key
  sorted := map.sorted_around key value

def erase (map : OrderedMap K V) (key : K) : OrderedMap K V where
  entries := map.entries.filter fun entry => entry.1 ≠ key
  sorted := map.sorted.sublist List.filter_sublist

/-- Visit the entries whose key lies in the range, in increasing key order;
every visit replaces the value and hands the accumulator on. -/
def accumulateList (range : K → Bool) (visit : V → S → V × S) :
    List (K × V) → S → List (K × V) × S
  | [], acc => ([], acc)
  | (key, value) :: rest, acc =>
      if range key then
        let visited := visit value acc
        let result := accumulateList range visit rest visited.2
        ((key, visited.1) :: result.1, result.2)
      else
        let result := accumulateList range visit rest acc
        ((key, value) :: result.1, result.2)

omit [LinearOrder K] in
theorem keys_accumulateList (range : K → Bool) (visit : V → S → V × S)
    (entries : List (K × V)) (acc : S) :
    (accumulateList range visit entries acc).1.map Prod.fst =
      entries.map Prod.fst := by
  induction entries generalizing acc with
  | nil => rfl
  | cons head tail ih =>
      by_cases h : range head.1 <;> simp [accumulateList, h, ih]

theorem pairwise_keys {W : Type w} {entries : List (K × V)}
    {others : List (K × W)}
    (hkeys : others.map Prod.fst = entries.map Prod.fst)
    (hsorted : entries.Pairwise fun first second => first.1 < second.1) :
    others.Pairwise fun first second => first.1 < second.1 := by
  have hmap : (entries.map Prod.fst).Pairwise (· < ·) :=
    List.pairwise_map.mpr hsorted
  rw [← hkeys] at hmap
  exact List.pairwise_map.mp hmap

def accumulate (map : OrderedMap K V) (range : K → Bool)
    (visit : V → S → V × S) (acc : S) : OrderedMap K V × S :=
  (⟨(accumulateList range visit map.entries acc).1,
    pairwise_keys (keys_accumulateList range visit map.entries acc)
      map.sorted⟩,
    (accumulateList range visit map.entries acc).2)

/-- Apply a function to every value. -/
def mapValues {W : Type w} (f : V → W) (map : OrderedMap K V) :
    OrderedMap K W where
  entries := map.entries.map fun entry => (entry.1, f entry.2)
  sorted := pairwise_keys (by simp [Function.comp_def]) map.sorted

theorem ext_entries {first second : OrderedMap K V}
    (h : first.entries = second.entries) : first = second := by
  cases first
  cases second
  cases h
  rfl

@[simp] theorem entries_insert (map : OrderedMap K V) (key : K) (value : V) :
    (map.insert key value).entries =
      map.before key ++ (key, value) :: map.upperBound key :=
  rfl

@[simp] theorem entries_mapValues {W : Type w} (f : V → W)
    (map : OrderedMap K V) :
    (map.mapValues f).entries =
      map.entries.map fun entry => (entry.1, f entry.2) :=
  rfl

@[simp] theorem entries_accumulate (map : OrderedMap K V) (range : K → Bool)
    (visit : V → S → V × S) (acc : S) :
    (map.accumulate range visit acc).1.entries =
      (accumulateList range visit map.entries acc).1 :=
  rfl

@[simp] theorem acc_accumulate (map : OrderedMap K V) (range : K → Bool)
    (visit : V → S → V × S) (acc : S) :
    (map.accumulate range visit acc).2 =
      (accumulateList range visit map.entries acc).2 :=
  rfl

theorem nodup_keys (map : OrderedMap K V) : map.keys.Nodup := by
  have h : map.keys.Pairwise (· < ·) := List.pairwise_map.mpr map.sorted
  exact h.imp fun hlt => hlt.ne

theorem find?_eq_some {map : OrderedMap K V} {key : K} {value : V} :
    map.find? key = some value ↔ (key, value) ∈ map.entries :=
  lookup_eq_some_iff map.nodup_keys

theorem find?_eq_none {map : OrderedMap K V} {key : K} :
    map.find? key = none ↔ ∀ value, (key, value) ∉ map.entries := by
  rw [Option.eq_none_iff_forall_ne_some]
  exact forall_congr' fun value => not_congr find?_eq_some

/-- A sorted list splits around each of its entries. -/
theorem filter_split {entries : List (K × V)} {key : K} {value : V}
    (hsorted : entries.Pairwise fun first second => first.1 < second.1)
    (hmem : (key, value) ∈ entries) :
    entries = entries.filter (fun entry => entry.1 < key) ++
      (key, value) :: entries.filter fun entry => key < entry.1 := by
  induction entries with
  | nil => simp at hmem
  | cons head tail ih =>
      obtain ⟨hhead, htail⟩ := List.pairwise_cons.mp hsorted
      rcases List.mem_cons.mp hmem with rfl | hmem
      · have hnone : tail.filter (fun entry => entry.1 < key) = [] := by
          rw [List.filter_eq_nil_iff]
          intro entry hentry
          simpa using (hhead entry hentry).le
        have hall : tail.filter (fun entry => key < entry.1) = tail := by
          rw [List.filter_eq_self]
          intro entry hentry
          simpa using hhead entry hentry
        rw [List.filter_cons_of_neg (by simp),
          List.filter_cons_of_neg (by simp), hnone, hall]
        rfl
      · have hlt : head.1 < key := hhead (key, value) hmem
        rw [List.filter_cons_of_pos (by simpa using hlt),
          List.filter_cons_of_neg (by simpa using hlt.le)]
        exact congrArg (head :: ·) (ih htail hmem)

theorem entries_split {map : OrderedMap K V} {key : K} {value : V}
    (hfind : map.find? key = some value) :
    map.entries = map.before key ++ (key, value) :: map.upperBound key :=
  filter_split map.sorted (find?_eq_some.mp hfind)

theorem before_of_split {map : OrderedMap K V} {before after : List (K × V)}
    {entry : K × V} (hsplit : map.entries = before ++ entry :: after) :
    map.before entry.1 = before := by
  have hsorted := map.sorted
  rw [hsplit, List.pairwise_append, List.pairwise_cons] at hsorted
  obtain ⟨-, ⟨hafter, -⟩, hbefore⟩ := hsorted
  have hkeep : before.filter (fun other => other.1 < entry.1) = before := by
    rw [List.filter_eq_self]
    intro other hother
    simpa using hbefore other hother entry List.mem_cons_self
  have hdrop : after.filter (fun other => other.1 < entry.1) = [] := by
    rw [List.filter_eq_nil_iff]
    intro other hother
    simpa using (hafter other hother).le
  rw [OrderedMap.before, hsplit, List.filter_append,
    List.filter_cons_of_neg (by simp), hkeep, hdrop, List.append_nil]

theorem upperBound_of_split {map : OrderedMap K V}
    {before after : List (K × V)} {entry : K × V}
    (hsplit : map.entries = before ++ entry :: after) :
    map.upperBound entry.1 = after := by
  have hsorted := map.sorted
  rw [hsplit, List.pairwise_append, List.pairwise_cons] at hsorted
  obtain ⟨-, ⟨hafter, -⟩, hbefore⟩ := hsorted
  have hdrop : before.filter (fun other => entry.1 < other.1) = [] := by
    rw [List.filter_eq_nil_iff]
    intro other hother
    simpa using (hbefore other hother entry List.mem_cons_self).le
  have hkeep : after.filter (fun other => entry.1 < other.1) = after := by
    rw [List.filter_eq_self]
    intro other hother
    simpa using hafter other hother
  rw [upperBound, hsplit, List.filter_append,
    List.filter_cons_of_neg (by simp), hdrop, hkeep, List.nil_append]

/-- A list that is cut at a key it does not hold. -/
theorem cut_of_split {map : OrderedMap K V} {key : K}
    {before after : List (K × V)} (hsplit : map.entries = before ++ after)
    (hbefore : ∀ entry ∈ before, entry.1 < key)
    (hafter : ∀ entry ∈ after, key < entry.1) :
    map.find? key = none ∧ map.before key = before ∧
      map.upperBound key = after := by
  refine ⟨?_, ?_, ?_⟩
  · rw [find?_eq_none, hsplit]
    intro value hmem
    rcases List.mem_append.mp hmem with hmem | hmem
    · exact (hbefore _ hmem).ne rfl
    · exact (hafter _ hmem).ne rfl
  · have hkeep : before.filter (fun entry => entry.1 < key) = before :=
      List.filter_eq_self.mpr (by simpa using hbefore)
    have hdrop : after.filter (fun entry => entry.1 < key) = [] := by
      rw [List.filter_eq_nil_iff]
      intro entry hentry
      simpa using (hafter entry hentry).le
    rw [OrderedMap.before, hsplit, List.filter_append, hkeep, hdrop,
      List.append_nil]
  · have hdrop : before.filter (fun entry => key < entry.1) = [] := by
      rw [List.filter_eq_nil_iff]
      intro entry hentry
      simpa using (hbefore entry hentry).le
    have hkeep : after.filter (fun entry => key < entry.1) = after :=
      List.filter_eq_self.mpr (by simpa using hafter)
    rw [upperBound, hsplit, List.filter_append, hdrop, hkeep,
      List.nil_append]

theorem mem_before {map : OrderedMap K V} {key : K} {entry : K × V} :
    entry ∈ map.before key ↔ entry ∈ map.entries ∧ entry.1 < key := by
  simp [before]

theorem mem_upperBound {map : OrderedMap K V} {key : K} {entry : K × V} :
    entry ∈ map.upperBound key ↔ entry ∈ map.entries ∧ key < entry.1 := by
  simp [upperBound]

theorem mem_lowerBound {map : OrderedMap K V} {key : K} {entry : K × V} :
    entry ∈ map.lowerBound key ↔ entry ∈ map.entries ∧ key ≤ entry.1 := by
  simp [lowerBound]

theorem entries_erase (map : OrderedMap K V) (key : K) :
    (map.erase key).entries = map.before key ++ map.upperBound key := by
  have hfilter : ∀ entries : List (K × V),
      entries.Pairwise (fun first second => first.1 < second.1) →
      entries.filter (fun entry => entry.1 ≠ key) =
        entries.filter (fun entry => entry.1 < key) ++
          entries.filter fun entry => key < entry.1 := by
    intro entries hsorted
    induction entries with
    | nil => rfl
    | cons head tail ih =>
        obtain ⟨hhead, htail⟩ := List.pairwise_cons.mp hsorted
        have hrest := ih htail
        have hlarge : key ≤ head.1 →
            tail.filter (fun entry => entry.1 < key) = [] := by
          intro hle
          rw [List.filter_eq_nil_iff]
          intro entry hentry
          simpa using (hle.trans_lt (hhead entry hentry)).le
        rcases lt_trichotomy head.1 key with hlt | heq | hgt
        · rw [List.filter_cons_of_pos (by simpa using hlt.ne),
            List.filter_cons_of_pos (by simpa using hlt),
            List.filter_cons_of_neg (by simpa using hlt.le), hrest]
          rfl
        · rw [List.filter_cons_of_neg (by simpa using heq),
            List.filter_cons_of_neg (by simpa using heq.ge),
            List.filter_cons_of_neg (by simpa using heq.le), hrest]
        · rw [List.filter_cons_of_pos (by simpa using hgt.ne'),
            List.filter_cons_of_neg (by simpa using hgt.le),
            List.filter_cons_of_pos (by simpa using hgt), hrest,
            hlarge hgt.le]
          rfl
  exact hfilter map.entries map.sorted

theorem entries_split_of_find?_none {map : OrderedMap K V} {key : K}
    (hfind : map.find? key = none) :
    map.entries = map.before key ++ map.upperBound key := by
  rw [← entries_erase]
  symm
  apply List.filter_eq_self.mpr
  intro entry hentry
  have hne : entry.1 ≠ key := by
    rintro rfl
    exact find?_eq_none.mp hfind entry.2 hentry
  simpa using hne

omit [LinearOrder K] in
theorem accumulateList_cons_true (visit : V → S → V × S) (entry : K × V)
    (rest : List (K × V)) (acc : S) :
    accumulateList (fun _ => true) visit (entry :: rest) acc =
      let visited := visit entry.2 acc
      let result := accumulateList (fun _ => true) visit rest visited.2
      ((entry.1, visited.1) :: result.1, result.2) :=
  rfl

omit [LinearOrder K] in
theorem accumulateList_append (range : K → Bool) (visit : V → S → V × S)
    (first second : List (K × V)) (acc : S) :
    accumulateList range visit (first ++ second) acc =
      let front := accumulateList range visit first acc
      let back := accumulateList range visit second front.2
      (front.1 ++ back.1, back.2) := by
  induction first generalizing acc with
  | nil => rfl
  | cons head tail ih =>
      by_cases h : range head.1 <;> simp [accumulateList, h, ih]

omit [LinearOrder K] in
theorem accumulateList_of_not_mem_range {range : K → Bool}
    (visit : V → S → V × S) {entries : List (K × V)}
    (hout : ∀ entry ∈ entries, range entry.1 = false) (acc : S) :
    accumulateList range visit entries acc = (entries, acc) := by
  induction entries with
  | nil => rfl
  | cons head tail ih =>
      have hhead := hout head List.mem_cons_self
      have htail := ih fun entry hentry =>
        hout entry (List.mem_cons_of_mem _ hentry)
      simp [accumulateList, hhead, htail]

omit [LinearOrder K] in
theorem accumulateList_of_mem_range {range : K → Bool}
    (other : K → Bool) (visit : V → S → V × S) {entries : List (K × V)}
    (hsame : ∀ entry ∈ entries, range entry.1 = other entry.1) (acc : S) :
    accumulateList range visit entries acc =
      accumulateList other visit entries acc := by
  induction entries generalizing acc with
  | nil => rfl
  | cons head tail ih =>
      have hhead := hsame head List.mem_cons_self
      have htail := fun acc => ih (fun entry hentry =>
        hsame entry (List.mem_cons_of_mem _ hentry)) acc
      by_cases h : other head.1 <;> simp [accumulateList, hhead, h, htail]

/-- The range behind a key that is there. -/
theorem accumulateList_upperBound {map : OrderedMap K V} {key : K} {value : V}
    (hfind : map.find? key = some value) (visit : V → S → V × S) (acc : S) :
    accumulateList (key < ·) visit map.entries acc =
      let result := accumulateList (fun _ => true) visit
        (map.upperBound key) acc
      (map.before key ++ (key, value) :: result.1, result.2) := by
  rw [entries_split hfind, accumulateList_append,
    accumulateList_of_not_mem_range visit
      (fun entry hentry => by simpa using (mem_before.mp hentry).2.le)]
  have hkey : ¬ key < key := lt_irrefl key
  simp only [accumulateList, hkey, decide_false, Bool.false_eq_true,
    if_false]
  rw [accumulateList_of_mem_range (fun _ => true) visit
    fun entry hentry => by simpa using (mem_upperBound.mp hentry).2]

theorem before_insert (map : OrderedMap K V) (key : K) (value : V) :
    (map.insert key value).before key = map.before key := by
  have hbefore := before_of_split (entries_insert map key value)
  exact hbefore

theorem upperBound_insert (map : OrderedMap K V) (key : K) (value : V) :
    (map.insert key value).upperBound key = map.upperBound key := by
  have hupper := upperBound_of_split (entries_insert map key value)
  exact hupper

theorem insert_eq_self {map : OrderedMap K V} {key : K} {value : V}
    (hfind : map.find? key = some value) : map.insert key value = map :=
  ext_entries (entries_split hfind).symm

@[simp] theorem find?_insert_self (map : OrderedMap K V) (key : K)
    (value : V) : (map.insert key value).find? key = some value := by
  simp [find?_eq_some]

theorem find?_insert (map : OrderedMap K V) (key other : K) (value : V) :
    (map.insert key value).find? other =
      if other = key then some value else map.find? other := by
  by_cases hother : other = key
  · rw [if_pos hother, hother, find?_insert_self]
  · rw [if_neg hother]
    apply Option.ext
    intro stored
    simp only [find?_eq_some, entries_insert, List.mem_append, List.mem_cons,
      Prod.mk.injEq, hother, false_and, false_or, mem_before, mem_upperBound]
    rw [← and_or_left, and_iff_left (lt_or_gt_of_ne hother)]

theorem find?_erase (map : OrderedMap K V) (key other : K) :
    (map.erase key).find? other =
      if other = key then none else map.find? other := by
  apply Option.ext
  intro value
  by_cases hother : other = key
  · rw [find?_eq_some]
    simp [erase, hother]
  · rw [if_neg hother, find?_eq_some, find?_eq_some]
    simp [erase, hother]

theorem ext_find? {first second : OrderedMap K V}
    (hkeys : first.keys = second.keys)
    (hfind : ∀ key ∈ first.keys, first.find? key = second.find? key) :
    first = second :=
  ext_entries (entries_ext first.nodup_keys hkeys hfind)

theorem mem_keys {map : OrderedMap K V} {key : K} :
    key ∈ map.keys ↔ ∃ value, map.find? key = some value := by
  simp [keys, find?_eq_some]

section MapValues

variable {W : Type w} (f : V → W)

@[simp] theorem keys_mapValues (map : OrderedMap K V) :
    (map.mapValues f).keys = map.keys := by
  simp [keys, Function.comp_def]

omit [LinearOrder K] in
/-- A change of the values keeps every selection by key. -/
theorem filter_map_values (keep : K → Bool) (entries : List (K × V)) :
    (entries.map fun entry => (entry.1, f entry.2)).filter
        (fun entry => keep entry.1) =
      (entries.filter fun entry => keep entry.1).map
        fun entry => (entry.1, f entry.2) := by
  rw [List.filter_map]
  rfl

@[simp] theorem mapValues_insert (map : OrderedMap K V) (key : K) (value : V) :
    (map.insert key value).mapValues f =
      (map.mapValues f).insert key (f value) := by
  apply ext_entries
  have hbefore := filter_map_values f (fun other => decide (other < key))
    map.entries
  have hafter := filter_map_values f (fun other => decide (key < other))
    map.entries
  simp only [entries_mapValues, entries_insert, List.map_append, List.map_cons]
  exact congrArg₂ (· ++ (key, f value) :: ·) hbefore.symm hafter.symm

@[simp] theorem mapValues_erase (map : OrderedMap K V) (key : K) :
    (map.erase key).mapValues f = (map.mapValues f).erase key :=
  ext_entries (filter_map_values f (fun other => decide (other ≠ key))
    map.entries).symm

theorem mapValues_mapValues {X : Type w} (h : W → X) (map : OrderedMap K V) :
    (map.mapValues f).mapValues h = map.mapValues fun value => h (f value) :=
  ext_entries (by simp [Function.comp_def])

@[simp] theorem find?_mapValues (map : OrderedMap K V) (key : K) :
    (map.mapValues f).find? key = (map.find? key).map f := by
  simp only [find?, entries_mapValues]
  induction map.entries with
  | nil => rfl
  | cons head tail ih =>
      obtain ⟨first, stored⟩ := head
      by_cases hkey : key == first
      · simp [List.lookup_cons, hkey]
      · simp [List.lookup_cons, hkey, ih]

/-- Replacing a value by one with the same image changes no image. -/
theorem mapValues_insert_of_eq {map : OrderedMap K V} {key : K}
    {old value : V} (hfind : map.find? key = some old)
    (hvalue : f value = f old) :
    (map.insert key value).mapValues f = map.mapValues f := by
  rw [mapValues_insert, hvalue]
  exact insert_eq_self (by rw [find?_mapValues, hfind, Option.map_some])

theorem mapValues_congr {first second : V → W} (map : OrderedMap K V)
    (h : ∀ value, first value = second value) :
    map.mapValues first = map.mapValues second :=
  ext_entries (List.map_congr_left fun entry _ => by rw [h])

/-- A loop that replaces values by others with the same image. -/
theorem mapValues_accumulate {range : K → Bool} {visit : V → S → V × S}
    (hvisit : ∀ value acc, f (visit value acc).1 = f value)
    (map : OrderedMap K V) (acc : S) :
    (map.accumulate range visit acc).1.mapValues f = map.mapValues f := by
  apply ext_entries
  rw [entries_mapValues, entries_mapValues, entries_accumulate]
  induction map.entries generalizing acc with
  | nil => rfl
  | cons entry rest ih =>
      by_cases hrange : range entry.1
      · simp [accumulateList, hrange, hvisit, ih]
      · simp [accumulateList, hrange, ih]

end MapValues

end OrderedMap

end Margot
