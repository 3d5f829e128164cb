/-
A written property tree, part by part: its values, its keys and the marks
between them.
-/
import Margot.Library.JsonReading

namespace Margot

namespace Json

section Parts

/-- What stands between the values and the keys. -/
def marks : Text := "\x7b\x7d[],: \n".toList

/-- A relation between a text and the values and the keys that are written in
it, which is kept when parts are joined. -/
structure Parts (value : Text → Text)
    (related : Text → List Text → List Text → Prop) : Prop where
  nil : related [] [] []
  append : ∀ {first second : Text} {values keys others more : List Text},
    related first values keys → related second others more →
      related (first ++ second) (values ++ others) (keys ++ more)
  mark : ∀ c ∈ marks, related [c] [] []
  value : ∀ data, related (value data) [data] []
  key : ∀ key, related (quoted key) [] [key]
  unwritten : related [] [] [[]]

variable {value : Text → Text}
  {related : Text → List Text → List Text → Prop}

theorem Parts.ofMarks (parts : Parts value related) {text : Text}
    (hmarks : ∀ c ∈ text, c ∈ marks) : related text [] [] := by
  induction text with
  | nil => exact parts.nil
  | cons c rest ih =>
      rw [List.forall_mem_cons] at hmarks
      exact parts.append (parts.mark c hmarks.1) (ih hmarks.2)

theorem mem_marks_padding (pretty : Bool) (indent : Nat) :
    ∀ c ∈ padding pretty indent, c ∈ marks := by
  intro c hc
  cases pretty with
  | true =>
      obtain rfl := List.eq_of_mem_replicate hc
      decide
  | false => contradiction

theorem mem_marks_lineEnd (pretty : Bool) :
    ∀ c ∈ lineEnd pretty, c ∈ marks := by
  cases pretty <;> decide

theorem Parts.label (parts : Parts value related) (pretty : Bool)
    {isObject : Bool} {key : Text} (hkey : isObject = false → key = []) :
    related (label pretty isObject key) [] [key] := by
  cases isObject with
  | false =>
      rw [hkey rfl]
      exact parts.unwritten
  | true =>
      have hcolon : ∀ c ∈ ':' :: (if pretty then [' '] else []),
          c ∈ marks := by
        cases pretty <;> decide
      exact parts.append (parts.key key) (parts.ofMarks hcolon)

/-- Brackets around what is written in a node. -/
theorem Parts.enclose (parts : Parts value related) (pretty asArray : Bool)
    (indent : Nat) {content : Text} {values keys : List Text}
    (hcontent : related content values keys) :
    related (enclose pretty indent asArray content) values keys := by
  have hopen : ∀ c ∈ (if asArray then '[' else '\x7b') :: lineEnd pretty,
      c ∈ marks := by
    cases asArray <;> cases pretty <;> decide
  have hclose : ∀ c ∈ [if asArray then ']' else '\x7d'], c ∈ marks := by
    cases asArray <;> decide
  have hpadding := parts.ofMarks (mem_marks_padding pretty indent)
  have hjoined := parts.append (parts.append (parts.append
    (parts.ofMarks hopen) hcontent) hpadding) (parts.ofMarks hclose)
  simpa only [Json.enclose, List.nil_append, List.append_nil] using hjoined

mutual

/-- What holds of the parts holds of a written tree. -/
theorem Parts.write (parts : Parts value related) (pretty : Bool)
    (tree : Ptree) {indent : Nat}
    (hwritten : 0 < indent ∨ tree.children ≠ []) :
    related (write value pretty indent tree) (values tree) (keys tree) := by
  match tree with
  | .node data [] =>
      have hindent : 0 < indent := hwritten.resolve_right fun hsome => hsome rfl
      have htext : Json.write value pretty indent (.node data []) =
          value data := by
        rw [Json.write]
        simp [hindent]
      rw [htext]
      exact parts.value data
  | .node data (child :: others) =>
      have hkeys : (!isArray indent (child :: others)) = false →
          ∀ key node, (key, node) ∈ child :: others → key = [] :=
        fun harray _ _ hmem => keys_of_isArray harray hmem
      have hchildren := parts.writeChildren pretty (child :: others)
        (Nat.succ_pos indent) hkeys
      have hcontent := parts.enclose pretty (isArray indent (child :: others))
        indent hchildren
      have hnode : ¬ (decide (0 < indent) &&
          (child :: others).isEmpty) = true := by simp
      rw [Json.write, if_neg hnode]
      exact hcontent

theorem Parts.writeChildren (parts : Parts value related) (pretty : Bool)
    (children : List (Text × Ptree)) {indent : Nat} {isObject : Bool}
    (hindent : 0 < indent)
    (hkeys : isObject = false →
      ∀ key child, (key, child) ∈ children → key = []) :
    related (writeChildren value pretty indent isObject children)
      (valuesOf children) (keysOf children) := by
  match children with
  | [] => exact parts.nil
  | (key, child) :: others =>
      have hpadding := parts.ofMarks (mem_marks_padding pretty indent)
      have hkey : isObject = false → key = [] := fun hlist =>
        hkeys hlist key child List.mem_cons_self
      have hlabel := parts.label pretty hkey
      have hchild := parts.write pretty child (.inl hindent)
      have hcomma : ∀ c ∈ (if others.isEmpty then [] else [',']),
          c ∈ marks := by
        split <;> decide
      have hothers := parts.writeChildren pretty others hindent
        fun hlist key node hmem =>
          hkeys hlist key node (List.mem_cons_of_mem _ hmem)
      have hjoined := parts.append (parts.append (parts.append (parts.append
        (parts.append hpadding hlabel) hchild) (parts.ofMarks hcomma))
        (parts.ofMarks (mem_marks_lineEnd pretty))) hothers
      simpa only [Json.writeChildren, valuesOf, keysOf, List.nil_append,
        List.append_nil, List.singleton_append, List.cons_append]
        using hjoined

end

/-- The characters of a written tree are those of its values and of its keys,
as they are written. -/
theorem forall_mem_write {p : Char → Prop} (hmarks : ∀ c ∈ marks, p c)
    (hquote : p '"') (pretty : Bool) (tree : Ptree) {indent : Nat}
    (hwritten : 0 < indent ∨ tree.children ≠ []) :
    (∀ c ∈ write value pretty indent tree, p c) ↔
      (∀ data ∈ values tree, ∀ c ∈ value data, p c) ∧
        ∀ key ∈ keys tree, ∀ c ∈ quoted key, p c := by
  have parts : Parts value fun text values keys =>
      (∀ c ∈ text, p c) ↔ (∀ data ∈ values, ∀ c ∈ value data, p c) ∧
        ∀ key ∈ keys, ∀ c ∈ quoted key, p c := by
    constructor
    · simp
    · intro first second values keys others more hfirst hsecond
      simp only [List.forall_mem_append, hfirst, hsecond]
      exact and_and_and_comm
    · intro c hc
      simpa using hmarks c hc
    · simp
    · simp
    · simpa [quoted, createEscapes] using hquote
  exact parts.write pretty tree hwritten

end Parts

section Holds

/-- Every value and every key of the tree satisfies the predicate. -/
def Holds (good : Text → Prop) (tree : Ptree) : Prop :=
  (∀ data ∈ values tree, good data) ∧ ∀ key ∈ keys tree, good key

/-- The children, with their keys. -/
def HoldsOf (good : Text → Prop) (children : List (Text × Ptree)) : Prop :=
  ∀ child ∈ children, good child.1 ∧ Holds good child.2

variable {good : Text → Prop}

theorem holds_leaf {data : Text} : Holds good (Ptree.leaf data) ↔ good data := by
  simp [Holds, Ptree.leaf, values, keys, keysOf]

theorem holds_of_children {data : Text} {children : List (Text × Ptree)}
    (hsome : children ≠ []) :
    Holds good (.node data children) ↔ HoldsOf good children := by
  have hvalues : ∀ text, text ∈ values (.node data children) ↔
      ∃ child ∈ children, text ∈ values child.2 := fun text =>
    @mem_values (.node data children) hsome text
  have hkeys : ∀ key, key ∈ keys (.node data children) ↔
      ∃ child ∈ children, key = child.1 ∨ key ∈ keys child.2 := fun key =>
    @mem_keys (.node data children) key
  simp only [Holds, HoldsOf, hvalues, hkeys]
  constructor
  · rintro ⟨hvalues, hkeys⟩ child hmem
    exact ⟨hkeys child.1 ⟨child, hmem, .inl rfl⟩,
      fun data hdata => hvalues data ⟨child, hmem, hdata⟩,
      fun key hkey => hkeys key ⟨child, hmem, .inr hkey⟩⟩
  · intro hall
    refine ⟨?_, ?_⟩
    · rintro data ⟨child, hmem, hdata⟩
      exact (hall child hmem).2.1 data hdata
    · rintro key ⟨child, hmem, rfl | hkey⟩
      · exact (hall child hmem).1
      · exact (hall child hmem).2.2 key hkey

/-- The value of a node that is not written is empty. -/
theorem holds_node (hempty : good []) {children : List (Text × Ptree)} :
    Holds good (.node [] children) ↔ HoldsOf good children := by
  cases children with
  | nil =>
      have hleaf : Holds good (.node [] []) ↔ good [] := holds_leaf
      rw [hleaf]
      exact iff_of_true hempty fun _ hmem => absurd hmem List.not_mem_nil
  | cons child others => exact holds_of_children (List.cons_ne_nil _ _)

theorem holdsOf_append {children others : List (Text × Ptree)} :
    HoldsOf good (children ++ others) ↔
      HoldsOf good children ∧ HoldsOf good others :=
  List.forall_mem_append

theorem holdsOf_leaves {entries : List (Text × Text)} :
    HoldsOf good (Ptree.leaves entries) ↔
      ∀ entry ∈ entries, good entry.1 ∧ good entry.2 := by
  simp only [HoldsOf, Ptree.leaves, List.forall_mem_map, holds_leaf]

theorem holds_array (hempty : good []) {elements : List Ptree} :
    Holds good (Ptree.array elements) ↔
      ∀ element ∈ elements, Holds good element := by
  rw [Ptree.array, holds_node hempty, HoldsOf, List.forall_mem_map]
  simp only [hempty, true_and]

theorem holdsOf_branch (hempty : good []) {tag : Text} (htag : good tag)
    {elements : List Ptree} :
    HoldsOf good (Ptree.branch tag elements) ↔
      ∀ element ∈ elements, Holds good element := by
  rw [Ptree.branch]
  split
  · next hnone =>
      rw [List.isEmpty_iff.mp hnone]
      exact iff_of_true (fun _ hmem => absurd hmem List.not_mem_nil)
        fun _ hmem => absurd hmem List.not_mem_nil
  · rw [HoldsOf, List.forall_mem_singleton, holds_array hempty]
    exact and_iff_right htag

end Holds

end Json

end Margot
