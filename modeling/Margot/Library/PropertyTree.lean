/-
Property trees: nodes with a text and an ordered list of children, in which the
key of a child need not be its own.  The library of the program is no part of
its sources: the definitions are the documented behaviour of the parts that the
program uses, in a release build, where an empty path is not asserted against.
-/
import Mathlib.Data.List.Basic
import Margot.Library.Text

namespace Margot

/-- `boost::property_tree::ptree` -/
inductive Ptree where
  | node (data : Text) (children : List (Text × Ptree))
deriving Repr

namespace Ptree

def data : Ptree → Text
  | .node data _ => data

def children : Ptree → List (Text × Ptree)
  | .node _ children => children

def empty : Ptree := .node [] []

/-- A node that is just a value. -/
def leaf (data : Text) : Ptree := .node data []

section Paths

/-- The fragments of a path.  After the last separator there is none unless
something follows it. -/
def fragments (path : Text) : List Text :=
  let tokens := path.splitOn '.'
  if tokens.getLast? = some [] then tokens.dropLast else tokens

/-- The first child with the key. -/
def find (key : Text) (children : List (Text × Ptree)) : Option Ptree :=
  (children.find? fun child => child.1 = key).map Prod.snd

/-- The first child with the key is changed, or a new one. -/
def force (key : Text) (change : Ptree → Ptree) :
    List (Text × Ptree) → List (Text × Ptree)
  | [] => [(key, change empty)]
  | (first, child) :: rest =>
      if first = key then (first, change child) :: rest
      else (first, child) :: force key change rest

def walk : List Text → Ptree → Option Ptree
  | [], tree => some tree
  | key :: rest, tree => (find key tree.children).bind (walk rest)

def putAt (value : Text) : List Text → Ptree → Ptree
  | [], tree => .node value tree.children
  | key :: rest, tree => .node tree.data (force key (putAt value rest) tree.children)

def addAt (child : Ptree) : List Text → Ptree → Ptree
  | [], tree => .node tree.data (tree.children ++ [([], child)])
  | [key], tree => .node tree.data (tree.children ++ [(key, child)])
  | key :: rest, tree => .node tree.data (force key (addAt child rest) tree.children)

/-- `get_child_optional` -/
def getChild? (tree : Ptree) (path : Text) : Option Ptree :=
  walk (fragments path) tree

/-- `put`: the value of the node at the path. -/
def put (tree : Ptree) (path value : Text) : Ptree :=
  putAt value (fragments path) tree

/-- `add_child`: one more child at the path. -/
def addChild (tree : Ptree) (path : Text) (child : Ptree) : Ptree :=
  addAt child (fragments path) tree

/-- Values at several paths. -/
def putAll (tree : Ptree) (entries : List (Text × Text)) : Ptree :=
  entries.foldl (fun tree entry => tree.put entry.1 entry.2) tree

/-- A node whose children have no key. -/
def array (elements : List Ptree) : Ptree :=
  .node [] (elements.map fun element => ([], element))

/-- The value at a path, empty if there is no such node. -/
def text (tree : Ptree) (path : Text) : Text :=
  ((tree.getChild? path).map data).getD []

/-- The elements of the list at a path. -/
def elements (tree : Ptree) (path : Text) : List Ptree :=
  ((tree.getChild? path).map fun node => node.children.map Prod.snd).getD []

/-- The list of a composed node, which is left out when it is empty. -/
def branch (tag : Text) (elements : List Ptree) : List (Text × Ptree) :=
  if elements.isEmpty then [] else [(tag, array elements)]

/-- The node of a list that is not empty. -/
def listNode (elements : List Ptree) : Option Ptree :=
  if elements.isEmpty then none else some (array elements)

/-- The sections of a composed node that are there. -/
def present (sections : List (Text × Option Ptree)) : List (Text × Ptree) :=
  sections.filterMap fun entry => entry.2.map fun child => (entry.1, child)

/-- The values of a composed node. -/
def leaves (entries : List (Text × Text)) : List (Text × Ptree) :=
  entries.map fun entry => (entry.1, leaf entry.2)

end Paths

section Rules

/-- A name without separators is one fragment. -/
theorem fragments_of_plain {name : Text} (hsome : name ≠ [])
    (hplain : '.' ∉ name) : fragments name = [name] := by
  have htokens : name.splitOn '.' = [name] :=
    List.splitOn_eq_singleton hplain
  simp [fragments, htokens, hsome]

theorem mem_splitOn_of_mem_fragments {path fragment : Text}
    (hmem : fragment ∈ fragments path) : fragment ∈ path.splitOn '.' := by
  rw [fragments] at hmem
  split at hmem
  · exact List.dropLast_subset _ hmem
  · exact hmem

theorem mem_of_mem_fragments {path fragment : Text} {c : Char}
    (hmem : fragment ∈ fragments path) (hc : c ∈ fragment) : c ∈ path :=
  (mem_of_mem_splitOn (mem_splitOn_of_mem_fragments hmem) hc).1

theorem not_mem_of_mem_fragments {path fragment : Text}
    (hmem : fragment ∈ fragments path) : '.' ∉ fragment := fun hdot =>
  (mem_of_mem_splitOn (mem_splitOn_of_mem_fragments hmem) hdot).2 rfl

/-- Every character of a path but the dots is in a fragment. -/
theorem exists_mem_fragments {path : Text} {c : Char} (hc : c ∈ path)
    (hdot : c ≠ '.') : ∃ fragment ∈ fragments path, c ∈ fragment := by
  obtain ⟨token, htoken, hmem⟩ := exists_mem_splitOn hc hdot
  refine ⟨token, ?_, hmem⟩
  rw [fragments]
  split
  · next hlast =>
      obtain ⟨before, hbefore⟩ := List.getLast?_eq_some_iff.mp hlast
      rw [hbefore] at htoken ⊢
      rw [List.dropLast_concat]
      rcases List.mem_append.mp htoken with htoken | htoken
      · exact htoken
      · rw [List.mem_singleton.mp htoken] at hmem
        contradiction
  · exact htoken

/-- A key that no child has yet comes last. -/
theorem force_new {key : Text} {children : List (Text × Ptree)}
    (hnew : key ∉ children.map Prod.fst) (change : Ptree → Ptree) :
    force key change children = children ++ [(key, change empty)] := by
  induction children with
  | nil => rfl
  | cons child rest ih =>
      rw [List.map_cons, List.mem_cons, not_or] at hnew
      rw [force, if_neg (Ne.symm hnew.1), ih hnew.2, List.cons_append]

theorem put_new {key : Text} {tree : Ptree} (hsome : key ≠ [])
    (hplain : '.' ∉ key) (hnew : key ∉ tree.children.map Prod.fst)
    (value : Text) :
    tree.put key value =
      .node tree.data (tree.children ++ [(key, leaf value)]) := by
  rw [put, fragments_of_plain hsome hplain, putAt, force_new hnew]
  rfl

theorem addChild_plain {key : Text} (hsome : key ≠ []) (hplain : '.' ∉ key)
    (tree child : Ptree) :
    tree.addChild key child =
      .node tree.data (tree.children ++ [(key, child)]) := by
  rw [addChild, fragments_of_plain hsome hplain, addAt]

/-- Children with different keys come one after the other. -/
theorem foldl_eq_node {α : Type} (name : α → Text) (child : α → Ptree)
    {step : Ptree → α → Ptree} {elements : List α}
    (hstep : ∀ a ∈ elements, ∀ tree, name a ∉ tree.children.map Prod.fst →
      step tree a = .node tree.data (tree.children ++ [(name a, child a)]))
    (hnodup : (elements.map name).Nodup) {tree : Ptree}
    (hnew : ∀ a ∈ elements, name a ∉ tree.children.map Prod.fst) :
    elements.foldl step tree =
      .node tree.data
        (tree.children ++ elements.map fun a => (name a, child a)) := by
  induction elements generalizing tree with
  | nil =>
      cases tree
      simp [data, children]
  | cons a rest ih =>
      rw [List.map_cons, List.nodup_cons] at hnodup
      rw [List.foldl_cons, hstep a List.mem_cons_self tree
        (hnew a List.mem_cons_self), ih (fun b hb =>
          hstep b (List.mem_cons_of_mem _ hb)) hnodup.2]
      · simp [data, children]
      · intro b hb
        simp only [children, List.map_append, List.mem_append, not_or]
        refine ⟨hnew b (List.mem_cons_of_mem _ hb), fun hsame => ?_⟩
        apply hnodup.1
        have hsame : name b = name a := List.mem_singleton.mp hsame
        exact hsame ▸ List.mem_map_of_mem hb

theorem foldl_empty {α : Type} (name : α → Text) (child : α → Ptree)
    {step : Ptree → α → Ptree} {elements : List α}
    (hstep : ∀ a ∈ elements, ∀ tree, name a ∉ tree.children.map Prod.fst →
      step tree a = .node tree.data (tree.children ++ [(name a, child a)]))
    (hnodup : (elements.map name).Nodup) :
    elements.foldl step empty =
      .node [] (elements.map fun a => (name a, child a)) :=
  foldl_eq_node name child hstep hnodup fun _ _ => List.not_mem_nil

/-- Among different keys each has its own child. -/
theorem find_map {α : Type} (name : α → Text) (child : α → Ptree)
    {elements : List α} (hnodup : (elements.map name).Nodup) {a : α}
    (hmem : a ∈ elements) :
    find (name a) (elements.map fun a => (name a, child a)) =
      some (child a) := by
  induction elements with
  | nil => contradiction
  | cons b rest ih =>
      rw [List.map_cons, List.nodup_cons] at hnodup
      rw [List.map_cons, find]
      rcases List.mem_cons.mp hmem with rfl | hrest
      · simp
      · have hother : name b ≠ name a := by
          intro hsame
          apply hnodup.1
          rw [hsame]
          exact List.mem_map_of_mem hrest
        rw [List.find?_cons_of_neg (by simpa using hother)]
        exact ih hnodup.2 hrest

theorem fragments_field {tag name : Text} (htag : '.' ∉ tag)
    (hsome : name ≠ []) (hplain : '.' ∉ name) :
    fragments (tag ++ '.' :: name) = [tag, name] := by
  have htokens : (tag ++ '.' :: name).splitOn '.' = [tag, name] := by
    rw [List.splitOn_append_cons_self_of_not_mem htag,
      List.splitOn_eq_singleton hplain]
  simp [fragments, htokens, hsome]

/-- A field of a section. -/
theorem getChild?_field {tag name : Text} (htag : '.' ∉ tag)
    (hsome : name ≠ []) (hplain : '.' ∉ name) (tree : Ptree) :
    tree.getChild? (tag ++ '.' :: name) =
      (find tag tree.children).bind fun node => find name node.children := by
  rw [getChild?, fragments_field htag hsome hplain, walk]
  congr
  funext node
  rw [walk]
  cases find name node.children <;> rfl

/-- The keys are single fragments. -/
def PlainKeys (keys : List Text) : Prop :=
  keys.Nodup ∧ ∀ key ∈ keys, key ≠ [] ∧ '.' ∉ key

instance (keys : List Text) : Decidable (PlainKeys keys) :=
  inferInstanceAs (Decidable (_ ∧ _))

/-- Values at new keys come one after the other. -/
theorem putAll_empty {entries : List (Text × Text)}
    (hkeys : PlainKeys (entries.map Prod.fst)) :
    putAll empty entries =
      .node [] (entries.map fun entry => (entry.1, leaf entry.2)) := by
  apply foldl_empty Prod.fst (fun entry => leaf entry.2) _ hkeys.1
  intro entry hmem tree hnew
  obtain ⟨hsome, hplain⟩ := hkeys.2 entry.1 (List.mem_map_of_mem hmem)
  exact put_new hsome hplain hnew entry.2

end Rules

section Composed

variable {key tag : Text} {entries : List (Text × Text)}
  {others : List (Text × Ptree)}

theorem getChild?_plain (hsome : key ≠ []) (hplain : '.' ∉ key) (tree : Ptree) :
    tree.getChild? key = find key tree.children := by
  rw [getChild?, fragments_of_plain hsome hplain, walk]
  cases find key tree.children <;> rfl

theorem find_cons_self (child : Ptree) :
    find key ((key, child) :: others) = some child := by
  simp [find]

theorem find_cons_ne (hne : tag ≠ key) (child : Ptree) :
    find key ((tag, child) :: others) = find key others := by
  simp [find, hne]

/-- A value of a composed node is found. -/
theorem find_leaves {value : Text} (hvalue : entries.lookup key = some value) :
    find key (leaves entries ++ others) = some (leaf value) := by
  induction entries with
  | nil => contradiction
  | cons entry rest ih =>
      rw [List.lookup_cons] at hvalue
      by_cases hkey : key = entry.1
      · have hsame : (key == entry.1) = true := by simpa using hkey
        simp only [hsame] at hvalue
        obtain rfl := Option.some.inj hvalue
        rw [hkey]
        exact find_cons_self _
      · have hother : (key == entry.1) = false := by simpa using hkey
        simp only [hother] at hvalue
        exact (find_cons_ne (Ne.symm hkey) _).trans (ih hvalue)

theorem find_leaves_of_not_mem (hkey : key ∉ entries.map Prod.fst) :
    find key (leaves entries ++ others) = find key others := by
  induction entries with
  | nil => rfl
  | cons entry rest ih =>
      rw [List.map_cons, List.mem_cons, not_or] at hkey
      exact (find_cons_ne (Ne.symm hkey.1) _).trans (ih hkey.2)

theorem find_branch_ne (hne : tag ≠ key) (elements : List Ptree) :
    find key (branch tag elements ++ others) = find key others := by
  rw [branch]
  split
  · rfl
  · exact find_cons_ne hne _

/-- The elements of a list of a composed node are found, also when there are
none. -/
theorem elements_find_branch (helse : find key others = none)
    (elements : List Ptree) :
    ((find key (branch key elements ++ others)).map fun node =>
      node.children.map Prod.snd).getD [] = elements := by
  rw [branch]
  split
  · next hempty => simp [helse, List.isEmpty_iff.mp hempty]
  · rw [List.singleton_append, find_cons_self]
    simp [array, children, Function.comp_def]

theorem find_branch_none (hne : tag ≠ key) (elements : List Ptree) :
    find key (branch tag elements) = none := by
  have hnone : find key (branch tag elements ++ []) = find key [] :=
    find_branch_ne hne elements
  rwa [List.append_nil] at hnone

theorem elements_branch (key : Text) (elements : List Ptree) :
    ((find key (branch key elements)).map fun node =>
      node.children.map Prod.snd).getD [] = elements := by
  have hfound : find key ([] : List (Text × Ptree)) = none := rfl
  have helements := elements_find_branch hfound elements
  rwa [List.append_nil] at helements

theorem present_cons_list (elements : List Ptree)
    (sections : List (Text × Option Ptree)) :
    present ((tag, listNode elements) :: sections) =
      branch tag elements ++ present sections := by
  by_cases hempty : elements.isEmpty = true
  · simp [present, listNode, branch, hempty]
  · simp [present, listNode, branch, hempty]

theorem present_nil : present [] = [] := rfl

theorem present_cons (entry : Text × Option Ptree)
    (sections : List (Text × Option Ptree)) :
    present (entry :: sections) = present [entry] ++ present sections :=
  List.filterMap_append (l := [entry])

theorem find_present_of_not_mem {sections : List (Text × Option Ptree)}
    (hkey : key ∉ sections.map Prod.fst) : find key (present sections) = none := by
  rw [find, Option.map_eq_none_iff, List.find?_eq_none]
  intro child hmem hsame
  obtain ⟨entry, hentry, hnode⟩ := List.mem_filterMap.mp hmem
  obtain ⟨_, -, rfl⟩ := Option.map_eq_some_iff.mp hnode
  have hkeys : entry.1 ∈ sections.map Prod.fst := List.mem_map_of_mem hentry
  have hsame : entry.1 = key := by simpa using hsame
  exact hkey (hsame ▸ hkeys)

/-- A section that is there is found, wherever it stands. -/
theorem find_present {sections : List (Text × Option Ptree)}
    (hnodup : (sections.map Prod.fst).Nodup) {child : Option Ptree}
    (hchild : sections.lookup key = some child) :
    find key (present sections) = child := by
  induction sections with
  | nil => contradiction
  | cons entry rest ih =>
      obtain ⟨tag, node⟩ := entry
      rw [List.map_cons, List.nodup_cons] at hnodup
      rw [List.lookup_cons] at hchild
      by_cases hkey : key = tag
      · subst hkey
        rw [beq_self_eq_true] at hchild
        obtain rfl := Option.some.inj hchild
        cases node with
        | some child => exact find_cons_self child
        | none =>
            change find key (present rest) = none
            exact find_present_of_not_mem hnodup.1
      · have hother : (key == tag) = false := by simpa using hkey
        rw [hother] at hchild
        cases node with
        | none => exact ih hnodup.2 hchild
        | some child =>
            exact (find_cons_ne (Ne.symm hkey) child).trans (ih hnodup.2 hchild)

theorem elements_listNode (elements : List Ptree) :
    ((listNode elements).map fun node => node.children.map Prod.snd).getD [] =
      elements := by
  rw [listNode]
  split
  · next hempty => simp [List.isEmpty_iff.mp hempty]
  · simp [array, children, Function.comp_def]

theorem text_node {value data : Text} (hsome : key ≠ []) (hplain : '.' ∉ key)
    (hvalue : entries.lookup key = some value) :
    (node data (leaves entries ++ others)).text key = value := by
  rw [text, getChild?_plain hsome hplain, children, find_leaves hvalue]
  rfl

theorem text_node_absent {data : Text} (hsome : key ≠ []) (hplain : '.' ∉ key)
    (hkey : key ∉ entries.map Prod.fst) (habsent : find key others = none) :
    (node data (leaves entries ++ others)).text key = [] := by
  rw [text, getChild?_plain hsome hplain, children,
    find_leaves_of_not_mem hkey, habsent]
  rfl

theorem elements_node {data : Text} (hsome : key ≠ []) (hplain : '.' ∉ key)
    (hkey : key ∉ entries.map Prod.fst) {elements : List Ptree}
    (hfound : ((find key others).map fun node =>
      node.children.map Prod.snd).getD [] = elements) :
    (node data (leaves entries ++ others)).elements key = elements := by
  rw [Ptree.elements, getChild?_plain hsome hplain, children,
    find_leaves_of_not_mem hkey, hfound]

end Composed

end Ptree

end Margot
