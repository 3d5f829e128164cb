/-
Nodes that are filled one element after the other: a value is put at its name,
and a list is added under its own.  A name may come more than once.
-/
import Margot.Library.JsonParts

namespace Margot

/-- What an element adds to a node. -/
inductive Filling where
  | value (text : Text)
  | list (elements : List Ptree)

namespace Filling

def text? : Filling → Option Text
  | .value text => some text
  | .list _ => none

/-- The children of the node that the element makes. -/
def children : Filling → List (Text × Ptree)
  | .value _ => []
  | .list elements => (Ptree.array elements).children

def fill (node : List (Text × Ptree)) (entry : Text × Filling) :
    List (Text × Ptree) :=
  match entry.2 with
  | .value text =>
      Ptree.force entry.1 (fun child => .node text child.children) node
  | .list elements => node ++ [(entry.1, Ptree.array elements)]

/-- The children of a node after all the elements. -/
def filled (entries : List (Text × Filling)) : List (Text × Ptree) :=
  entries.foldl fill []

/-- The first element of a name. -/
def firstOf (entries : List (Text × Filling)) (name : Text) : Option Filling :=
  (entries.find? fun entry => entry.1 = name).map Prod.snd

/-- The last value that is put at a name, empty if there is none. -/
def lastValue (entries : List (Text × Filling)) (name : Text) : Text :=
  (entries.reverse.findSome? fun entry =>
    if entry.1 = name then entry.2.text? else none).getD []

/-- No value is put where a list is. -/
def Writable (entries : List (Text × Filling)) : Prop :=
  ∀ name elements, firstOf entries name = some (.list elements) →
    lastValue entries name = []

/-- There is something in every list, and it can be written. -/
def PlainLists (entries : List (Text × Filling)) : Prop :=
  ∀ name elements, (name, .list elements) ∈ entries →
    elements ≠ [] ∧ ∀ element ∈ elements, Json.plainNodes element = true

/-- The texts of the lists, and the value that every name ends with. -/
def texts (entries : List (Text × Filling)) : List Text :=
  entries.flatMap fun entry =>
    match entry.2 with
    | .value _ => [lastValue entries entry.1]
    | .list elements => elements.flatMap fun element =>
        Json.values element ++ Json.keys element

/-- A node whose sections are filled. -/
def sectioned (sections : List (Text × List (Text × Filling))) : Ptree :=
  .node [] (sections.map fun part => (part.1, .node [] (filled part.2)))

section Forcing

variable {key other : Text} {change : Ptree → Ptree}
  {node : List (Text × Ptree)}

theorem find_force_self :
    Ptree.find key (Ptree.force key change node) =
      some (change ((Ptree.find key node).getD Ptree.empty)) := by
  induction node with
  | nil => exact Ptree.find_cons_self _
  | cons child rest ih =>
      obtain ⟨first, child⟩ := child
      rw [Ptree.force]
      by_cases hfirst : first = key
      · subst hfirst
        rw [if_pos rfl, Ptree.find_cons_self, Ptree.find_cons_self,
          Option.getD_some]
      · rw [if_neg hfirst, Ptree.find_cons_ne hfirst, ih,
          Ptree.find_cons_ne hfirst]

theorem find_force_ne (hne : key ≠ other) :
    Ptree.find other (Ptree.force key change node) =
      Ptree.find other node := by
  induction node with
  | nil => exact Ptree.find_cons_ne hne _
  | cons child rest ih =>
      obtain ⟨first, child⟩ := child
      rw [Ptree.force]
      by_cases hfirst : first = key
      · subst hfirst
        rw [if_pos rfl, Ptree.find_cons_ne hne, Ptree.find_cons_ne hne]
      · rw [if_neg hfirst]
        by_cases hother : first = other
        · subst hother
          rw [Ptree.find_cons_self, Ptree.find_cons_self]
        · rw [Ptree.find_cons_ne hother, ih, Ptree.find_cons_ne hother]

/-- A child is an old one, or it has the key. -/
theorem mem_of_mem_force {child : Text × Ptree}
    (hmem : child ∈ Ptree.force key change node) :
    child ∈ node ∨ child.1 = key := by
  induction node with
  | nil =>
      obtain rfl := List.mem_singleton.mp hmem
      exact .inr rfl
  | cons first rest ih =>
      rw [Ptree.force] at hmem
      split at hmem
      · next hfirst =>
          rcases List.mem_cons.mp hmem with rfl | hmem
          · exact .inr hfirst
          · exact .inl (List.mem_cons_of_mem _ hmem)
      · rcases List.mem_cons.mp hmem with rfl | hmem
        · exact .inl List.mem_cons_self
        · rcases ih hmem with hold | hkey
          · exact .inl (List.mem_cons_of_mem _ hold)
          · exact .inr hkey

/-- No child loses its own children. -/
theorem exists_mem_force (hchange : ∀ tree, (change tree).children =
      tree.children) {child : Text × Ptree} (hmem : child ∈ node) :
    ∃ kept ∈ Ptree.force key change node, kept.1 = child.1 ∧
      kept.2.children = child.2.children := by
  induction node with
  | nil => contradiction
  | cons first rest ih =>
      rw [Ptree.force]
      split
      · rcases List.mem_cons.mp hmem with rfl | hmem
        · exact ⟨_, List.mem_cons_self, rfl, hchange _⟩
        · exact ⟨child, List.mem_cons_of_mem _ hmem, rfl, rfl⟩
      · rcases List.mem_cons.mp hmem with rfl | hmem
        · exact ⟨_, List.mem_cons_self, rfl, rfl⟩
        · obtain ⟨kept, hkept, hsame⟩ := ih hmem
          exact ⟨kept, List.mem_cons_of_mem _ hkept, hsame⟩

/-- Only the first child with the key is changed. -/
theorem pairwise_force {later : Text × Ptree → Prop}
    (hpairs : node.Pairwise fun a b => b.1 = a.1 → later b) :
    (Ptree.force key change node).Pairwise fun a b => b.1 = a.1 → later b := by
  induction node with
  | nil => exact List.pairwise_singleton _ _
  | cons first rest ih =>
      rw [List.pairwise_cons] at hpairs
      rw [Ptree.force]
      split
      · next hfirst =>
          rw [List.pairwise_cons]
          exact ⟨hpairs.1, hpairs.2⟩
      · next hfirst =>
          rw [List.pairwise_cons]
          refine ⟨fun child hmem hsame => ?_, ih hpairs.2⟩
          rcases mem_of_mem_force hmem with hold | hkey
          · exact hpairs.1 child hold hsame
          · exact absurd (hsame.symm.trans hkey) hfirst

theorem mem_of_find {tree : Ptree} (hfound : Ptree.find key node = some tree) :
    (key, tree) ∈ node := by
  rw [Ptree.find, Option.map_eq_some_iff] at hfound
  obtain ⟨child, hchild, rfl⟩ := hfound
  have hkey : child.1 = key := by
    simpa using List.find?_some hchild
  rw [← hkey]
  exact List.mem_of_find?_eq_some hchild

/-- A child is the first one with its key, or a later one. -/
theorem find_or_later {later : Text × Ptree → Prop}
    (hpairs : node.Pairwise fun a b => b.1 = a.1 → later b)
    {child : Text × Ptree} (hmem : child ∈ node) :
    Ptree.find child.1 node = some child.2 ∨ later child := by
  induction node with
  | nil => contradiction
  | cons first rest ih =>
      rw [List.pairwise_cons] at hpairs
      rcases List.mem_cons.mp hmem with rfl | hmem
      · exact .inl (Ptree.find_cons_self child.2)
      · by_cases hsame : child.1 = first.1
        · exact .inr (hpairs.1 child hmem hsame)
        · have hother : Ptree.find child.1 (first :: rest) =
              Ptree.find child.1 rest :=
            Ptree.find_cons_ne (Ne.symm hsame) first.2
          rw [hother]
          exact ih hpairs.2 hmem

end Forcing

section Filled

variable {entries : List (Text × Filling)} {name : Text}

theorem filled_concat (entries : List (Text × Filling))
    (entry : Text × Filling) :
    filled (entries ++ [entry]) = fill (filled entries) entry := by
  rw [filled, List.foldl_concat, filled]

theorem firstOf_concat (entries : List (Text × Filling))
    (entry : Text × Filling) :
    firstOf (entries ++ [entry]) name =
      (firstOf entries name).or (if entry.1 = name then some entry.2 else none) := by
  rw [firstOf, List.find?_append, firstOf, Option.map_or]
  by_cases hname : entry.1 = name
  · simp [hname]
  · simp [hname]

theorem lastValue_concat (entries : List (Text × Filling))
    (entry : Text × Filling) :
    lastValue (entries ++ [entry]) name =
      ((if entry.1 = name then entry.2.text? else none).getD
        (lastValue entries name)) := by
  rw [lastValue, List.reverse_concat, List.findSome?_cons, lastValue]
  cases (if entry.1 = name then entry.2.text? else none) with
  | some text => rfl
  | none => rfl

theorem exists_firstOf {entry : Text × Filling} (hmem : entry ∈ entries) :
    ∃ first, firstOf entries entry.1 = some first := by
  rw [← Option.isSome_iff_exists, firstOf, Option.isSome_map,
    List.find?_isSome]
  exact ⟨entry, hmem, decide_eq_true rfl⟩

/-- Without a value there is none. -/
theorem lastValue_of_not_mem (hnone : ∀ text, (name, .value text) ∉ entries) :
    lastValue entries name = [] := by
  have hvalues : (entries.reverse.findSome? fun entry =>
      if entry.1 = name then entry.2.text? else none) = none := by
    rw [List.findSome?_eq_none_iff]
    rintro ⟨key, filling⟩ hmem
    cases filling with
    | value text =>
        apply if_neg
        rintro rfl
        exact hnone text (List.mem_reverse.mp hmem)
    | list elements => exact ite_self _
  rw [lastValue, hvalues]
  rfl

theorem lastValue_of_firstOf (hnone : firstOf entries name = none) :
    lastValue entries name = [] := by
  apply lastValue_of_not_mem
  intro text hmem
  obtain ⟨first, hfirst⟩ := exists_firstOf hmem
  rw [hnone] at hfirst
  contradiction

/-- The last element of a name puts the last value. -/
theorem lastValue_of_last {before after : List (Text × Filling)} {text : Text}
    (hlast : ∀ entry ∈ after, entry.1 ≠ name) :
    lastValue (before ++ (name, .value text) :: after) name = text := by
  induction after using List.reverseRecOn with
  | nil =>
      rw [lastValue_concat]
      simp [text?]
  | append_singleton after entry ih =>
      rw [List.forall_mem_append, List.forall_mem_singleton] at hlast
      rw [← List.cons_append, ← List.append_assoc, lastValue_concat,
        if_neg hlast.2, Option.getD_none, ih hlast.1]

/-- Some value is put last at a name, if there is one. -/
theorem mem_of_lastValue {text : Text} (hmem : (name, .value text) ∈ entries) :
    (name, .value (lastValue entries name)) ∈ entries := by
  induction entries using List.reverseRecOn with
  | nil => contradiction
  | append_singleton entries entry ih =>
      rw [lastValue_concat]
      by_cases hvalue : ∃ last, entry = (name, .value last)
      · obtain ⟨last, rfl⟩ := hvalue
        simp [text?]
      · have hbefore : (name, .value text) ∈ entries := by
          rcases List.mem_append.mp hmem with hmem | hmem
          · exact hmem
          · exact absurd ⟨text, (List.mem_singleton.mp hmem).symm⟩ hvalue
        have hnone : (if entry.1 = name then entry.2.text? else none) =
            none := by
          obtain ⟨key, filling⟩ := entry
          cases filling with
          | value last =>
              apply if_neg
              rintro rfl
              exact hvalue ⟨last, rfl⟩
          | list elements => exact ite_self _
        rw [hnone]
        exact List.mem_append_left _ (ih hbefore)

theorem mem_of_firstOf {first : Filling}
    (hfirst : firstOf entries name = some first) : (name, first) ∈ entries := by
  rw [firstOf, Option.map_eq_some_iff] at hfirst
  obtain ⟨entry, hentry, rfl⟩ := hfirst
  have hname : entry.1 = name := by
    simpa using List.find?_some hentry
  rw [← hname]
  exact List.mem_of_find?_eq_some hentry

/-- The first child of a name has the last value of the name, and the list of
its first element. -/
theorem find_filled (entries : List (Text × Filling)) (name : Text) :
    Ptree.find name (filled entries) = (firstOf entries name).map fun first =>
      .node (lastValue entries name) first.children := by
  induction entries using List.reverseRecOn with
  | nil => rfl
  | append_singleton entries entry ih =>
      obtain ⟨key, filling⟩ := entry
      rw [filled_concat, firstOf_concat, lastValue_concat]
      by_cases hkey : key = name
      · subst hkey
        rw [if_pos rfl, if_pos rfl]
        cases filling with
        | value text =>
            rw [fill, find_force_self, ih]
            cases firstOf entries key with
            | none => rfl
            | some first => rfl
        | list elements =>
            rw [fill, Ptree.find, List.find?_append, Option.map_or]
            rw [Ptree.find] at ih
            rw [ih]
            cases hfirst : firstOf entries key with
            | none =>
                have hlast := lastValue_of_firstOf hfirst
                simp [text?, hlast, children, Ptree.array, Ptree.children]
            | some first => rfl
      · rw [if_neg hkey, if_neg hkey, Option.or_none, Option.getD_none, ← ih]
        cases filling with
        | value text => exact find_force_ne hkey
        | list elements =>
            rw [fill, Ptree.find, List.find?_append, Option.map_or]
            simp [Ptree.find, hkey]

/-- Only the first child of a name is changed by what comes later. -/
theorem pairwise_filled (entries : List (Text × Filling)) :
    (filled entries).Pairwise fun a b => b.1 = a.1 →
      ∃ elements, (b.1, .list elements) ∈ entries ∧
        b.2 = Ptree.array elements := by
  induction entries using List.reverseRecOn with
  | nil => exact .nil
  | append_singleton entries entry ih =>
      obtain ⟨key, filling⟩ := entry
      have hmore : (filled entries).Pairwise fun a b => b.1 = a.1 →
          ∃ elements, (b.1, .list elements) ∈ entries ++ [(key, filling)] ∧
            b.2 = Ptree.array elements := by
        apply ih.imp
        intro a b hlater hsame
        obtain ⟨elements, hmem, hb⟩ := hlater hsame
        exact ⟨elements, List.mem_append_left _ hmem, hb⟩
      rw [filled_concat]
      cases filling with
      | value text => exact pairwise_force hmore
      | list elements =>
          rw [fill, List.pairwise_append]
          refine ⟨hmore, List.pairwise_singleton _ _, ?_⟩
          intro a _ b hb _
          obtain rfl := List.mem_singleton.mp hb
          exact ⟨elements, List.mem_append_right _ List.mem_cons_self, rfl⟩

/-- Every list is there. -/
theorem exists_list {elements : List Ptree}
    (hmem : (name, .list elements) ∈ entries) :
    ∃ child ∈ filled entries, child.1 = name ∧
      child.2.children = (Ptree.array elements).children := by
  induction entries using List.reverseRecOn with
  | nil => contradiction
  | append_singleton entries entry ih =>
      rw [filled_concat]
      rcases List.mem_append.mp hmem with hmem | hmem
      · obtain ⟨child, hchild, hname, hlist⟩ := ih hmem
        rw [fill]
        split
        · next text _ =>
            have hchange : ∀ tree : Ptree,
                (Ptree.node text tree.children).children = tree.children :=
              fun _ => rfl
            obtain ⟨kept, hkept, hkey, hkeptList⟩ :=
              exists_mem_force hchange hchild
            exact ⟨kept, hkept, hkey.trans hname, hkeptList.trans hlist⟩
        · exact ⟨child, List.mem_append_left _ hchild, hname, hlist⟩
      · obtain rfl := List.mem_singleton.mp hmem
        exact ⟨_, List.mem_append_right _ List.mem_cons_self, rfl, rfl⟩

/-- A child of a filled node. -/
theorem child_filled {child : Text × Ptree} (hmem : child ∈ filled entries) :
    (∃ first, firstOf entries child.1 = some first ∧
      child.2 = .node (lastValue entries child.1) first.children) ∨
    ∃ elements, (child.1, .list elements) ∈ entries ∧
      child.2 = Ptree.array elements := by
  rcases find_or_later (pairwise_filled entries) hmem with hfirst | hlater
  · rw [find_filled, Option.map_eq_some_iff] at hfirst
    obtain ⟨first, hfirst, hchild⟩ := hfirst
    exact .inl ⟨first, hfirst, hchild.symm⟩
  · exact .inr hlater

theorem mem_filled_of_firstOf {first : Filling}
    (hfirst : firstOf entries name = some first) :
    (name, .node (lastValue entries name) first.children) ∈ filled entries := by
  apply mem_of_find
  rw [find_filled, hfirst]
  rfl

end Filled

section Rules

variable {good : Text → Prop} {entries : List (Text × Filling)}

/-- What is written of a filled node: the names, the lists, and the last values
of the names that begin with a value. -/
theorem holdsOf_filled (hempty : good [])
    (hlists : ∀ name elements, (name, .list elements) ∈ entries →
      elements ≠ []) :
    Json.HoldsOf good (filled entries) ↔
      (∀ entry ∈ entries, good entry.1) ∧
      (∀ name elements, (name, .list elements) ∈ entries →
        ∀ element ∈ elements, Json.Holds good element) ∧
      ∀ name text, firstOf entries name = some (.value text) →
        good (lastValue entries name) := by
  have harray : ∀ (data : Text) {elements : List Ptree}, elements ≠ [] →
      (Json.Holds good (.node data (Ptree.array elements).children) ↔
        ∀ element ∈ elements, Json.Holds good element) := by
    intro data elements hsome
    have hchildren : (Ptree.array elements).children ≠ [] := by
      simpa [Ptree.array, Ptree.children] using hsome
    rw [Json.holds_of_children hchildren, ← Json.holds_array hempty,
      Ptree.array, Json.holds_node hempty]
    rfl
  constructor
  · intro hall
    refine ⟨fun entry hmem => ?_, fun name elements hmem => ?_,
      fun name text hfirst => ?_⟩
    · obtain ⟨first, hfirst⟩ := exists_firstOf hmem
      exact (hall _ (mem_filled_of_firstOf hfirst)).1
    · obtain ⟨⟨key, node⟩, hchild, rfl, hlist⟩ := exists_list hmem
      have hnode := (hall _ hchild).2
      cases node with
      | node data children =>
          change children = _ at hlist
          rw [hlist, harray data (hlists _ elements hmem)] at hnode
          exact hnode
    · exact Json.holds_leaf.mp (hall _ (mem_filled_of_firstOf hfirst)).2
  · rintro ⟨hnames, helements, hvalues⟩ child hmem
    rcases child_filled hmem with ⟨first, hfirst, hchild⟩ |
      ⟨elements, hlist, hchild⟩
    · refine ⟨hnames _ (mem_of_firstOf hfirst), ?_⟩
      rw [hchild]
      cases first with
      | value text => exact Json.holds_leaf.mpr (hvalues child.1 text hfirst)
      | list elements =>
          have hlist := mem_of_firstOf hfirst
          exact (harray _ (hlists child.1 elements hlist)).mpr
            (helements child.1 elements hlist)
    · refine ⟨hnames _ hlist, ?_⟩
      rw [hchild, Json.holds_array hempty]
      exact helements child.1 elements hlist

/-- Of a filled node that can be written, the names and the texts are. -/
theorem holdsOf_filled_iff (hempty : good [])
    (hlists : ∀ name elements, (name, .list elements) ∈ entries →
      elements ≠ []) (hwritable : Writable entries) :
    Json.HoldsOf good (filled entries) ↔
      (∀ entry ∈ entries, good entry.1) ∧ ∀ text ∈ texts entries, good text := by
  rw [holdsOf_filled hempty hlists, texts, List.forall_mem_flatMap]
  apply and_congr_right'
  constructor
  · rintro ⟨helements, hvalues⟩ ⟨name, filling⟩ hmem
    cases filling with
    | value text =>
        obtain ⟨first, hfirst⟩ := exists_firstOf hmem
        rw [List.forall_mem_singleton]
        cases first with
        | value first => exact hvalues name first hfirst
        | list elements =>
            have hlast : lastValue entries name = [] :=
              hwritable name elements hfirst
            rw [hlast]
            exact hempty
    | list elements =>
        rw [List.forall_mem_flatMap]
        intro element helement
        rw [List.forall_mem_append]
        exact helements name elements hmem element helement
  · intro htexts
    constructor
    · intro name elements hmem element helement
      have hlist := htexts (name, .list elements) hmem
      rw [List.forall_mem_flatMap] at hlist
      exact List.forall_mem_append.mp (hlist element helement)
    · intro name text hfirst
      have hvalue := htexts (name, .value text) (mem_of_firstOf hfirst)
      exact hvalue _ List.mem_cons_self

/-- A filled node can be written unless a value is put where a list is. -/
theorem plainChildren_filled (hlists : PlainLists entries) :
    Json.plainChildren (filled entries) = true ↔ Writable entries := by
  have hchildren : ∀ {elements : List Ptree},
      (∀ element ∈ elements, Json.plainNodes element = true) →
        ∀ child ∈ (Ptree.array elements).children,
          Json.plainNodes child.2 = true := by
    intro elements helements child hmem
    obtain ⟨element, helement, rfl⟩ := List.mem_map.mp hmem
    exact helements element helement
  rw [Json.plainChildren_iff]
  constructor
  · intro hall name elements hfirst
    have hplain := hall _ (mem_filled_of_firstOf hfirst)
    obtain ⟨hsome, -⟩ := hlists name elements (mem_of_firstOf hfirst)
    rw [Json.plainNodes, Bool.and_eq_true, Bool.or_eq_true] at hplain
    rcases hplain.1 with hdata | hnone
    · exact List.isEmpty_iff.mp hdata
    · have hnone : elements = [] := by
        simpa [children, Ptree.array, Ptree.children] using hnone
      exact absurd hnone hsome
  · intro hlast child hmem
    rcases child_filled hmem with ⟨first, hfirst, hchild⟩ |
      ⟨elements, hlist, hchild⟩
    · rw [hchild]
      cases first with
      | value text => exact Json.plainNodes_leaf _
      | list elements =>
          have hlist := hlists child.1 elements (mem_of_firstOf hfirst)
          have hdata : (Ptree.node (lastValue entries child.1)
              (Filling.list elements).children).data = [] :=
            hlast child.1 elements hfirst
          exact Json.plainNodes_of_children hdata (hchildren hlist.2)
    · rw [hchild]
      exact Json.plainNodes_of_children rfl
        (hchildren (hlists child.1 elements hlist).2)

end Rules

section Sections

variable {sections : List (Text × List (Text × Filling))}
  (hlists : ∀ part ∈ sections, PlainLists part.2)

include hlists

theorem plainNodes_sectioned :
    Json.plainNodes (sectioned sections) = true ↔
      ∀ part ∈ sections, Writable part.2 := by
  have hsection : ∀ part ∈ sections,
      (Json.plainNodes (.node [] (filled part.2)) = true ↔
        Writable part.2) := by
    intro part hmem
    rw [← plainChildren_filled (hlists part hmem)]
    simp [Json.plainNodes]
  have hnode : Json.plainNodes (sectioned sections) =
      Json.plainChildren (sections.map fun part =>
        (part.1, .node [] (filled part.2))) := by
    simp [sectioned, Json.plainNodes]
  rw [hnode, Json.plainChildren_iff, List.forall_mem_map]
  exact forall₂_congr hsection

theorem holds_sectioned {good : Text → Prop} (hempty : good [])
    (hwritable : ∀ part ∈ sections, Writable part.2) :
    Json.Holds good (sectioned sections) ↔ ∀ part ∈ sections, good part.1 ∧
      (∀ entry ∈ part.2, good entry.1) ∧ ∀ text ∈ texts part.2, good text := by
  rw [sectioned, Json.holds_node hempty, Json.HoldsOf, List.forall_mem_map]
  apply forall₂_congr
  intro part hmem
  have hsome : ∀ name elements, (name, .list elements) ∈ part.2 →
      elements ≠ [] := fun name elements hlist =>
    (hlists part hmem name elements hlist).1
  rw [Json.holds_node hempty,
    holdsOf_filled_iff hempty hsome (hwritable part hmem)]

end Sections

section Steps

/-- A value is put at its name. -/
theorem put_node {name : Text} (hsome : name ≠ []) (hplain : '.' ∉ name)
    (children : List (Text × Ptree)) (value : Text) :
    (Ptree.node [] children).put name value =
      .node [] (fill children (name, .value value)) := by
  rw [Ptree.put, Ptree.fragments_of_plain hsome hplain]
  rfl

/-- A node that is filled step by step. -/
theorem foldl_filled {α : Type} {step : Ptree → α → Ptree}
    {entry : α → Text × Filling} {elements : List α}
    (hstep : ∀ a ∈ elements, ∀ children,
      step (.node [] children) a = .node [] (fill children (entry a))) :
    elements.foldl step Ptree.empty =
      .node [] (filled (elements.map entry)) := by
  induction elements using List.reverseRecOn with
  | nil => rfl
  | append_singleton elements a ih =>
      have hbefore := ih fun b hmem => hstep b (List.mem_append_left _ hmem)
      rw [List.foldl_concat, hbefore, hstep a (by simp), List.map_append,
        List.map_singleton, filled_concat]

end Steps

end Filling

end Margot
