/-
What is read of a tree that has been written on one line: the tree itself if
each of its values is read back, and nothing if the text of one is cut short.
-/
import Margot.Library.Json

namespace Margot

namespace Json

section Strings

theorem isPlain_of_isAlphanum {c : Char} (hc : c.isAlphanum = true) :
    isPlain c = true :=
  forall_ascii (p := fun c => c.isAlphanum = true → isPlain c = true)
    (by decide +kernel) (toNat_lt_of_isAlphanum hc) hc

theorem createEscapes_cons (c : Char) (text : Text) :
    createEscapes (c :: text) = escape c ++ createEscapes text :=
  List.flatMap_cons

theorem escape_of_plain {c : Char} (hplain : isPlain c = true) :
    escape c = [c] := if_pos hplain

theorem escape_of_not_plain {c : Char} (hplain : isPlain c = false) :
    ∃ rest, escape c = '\\' :: rest := by
  rw [escape, if_neg (by rw [hplain]; exact Bool.false_ne_true)]
  split_ifs
  all_goals exact ⟨_, rfl⟩

/-- Only characters of ASCII are escaped. -/
theorem toNat_lt_of_not_plain {c : Char} (hplain : isPlain c = false) :
    c.toNat < 128 := by
  by_contra hlarge
  have hcontrol : ' ' ≤ c := by
    apply Char.not_lt.mp
    intro hlt
    have hless : c.toNat < 32 := hlt
    omega
  have hne : ∀ d : Char, d.toNat < 128 → c ≠ d := by
    rintro d hd rfl
    exact hlarge hd
  have hall : isPlain c = true := by
    simp [isPlain, hcontrol, hne '"' (by decide), hne '/' (by decide),
      hne '\\' (by decide)]
  rw [hall] at hplain
  contradiction

/-- A text with nothing to escape is written as it is. -/
theorem createEscapes_plain {text : Text}
    (hplain : ∀ c ∈ text, isPlain c = true) : createEscapes text = text := by
  induction text with
  | nil => rfl
  | cons c rest ih =>
      rw [List.forall_mem_cons] at hplain
      rw [createEscapes_cons, ih hplain.2, escape_of_plain hplain.1,
        List.singleton_append]

/-- Before the first character that is escaped nothing changes. -/
theorem exists_backslash {text : Text}
    (hescaped : ∃ c ∈ text, isPlain c = false) :
    ∃ first rest, createEscapes text = first ++ '\\' :: rest ∧
      ∀ c ∈ first, isPlain c = true := by
  induction text with
  | nil => simp at hescaped
  | cons c text ih =>
      rw [createEscapes_cons]
      cases hplain : isPlain c with
      | false =>
          obtain ⟨tail, htail⟩ := escape_of_not_plain hplain
          exact ⟨[], tail ++ createEscapes text, by rw [htail]; rfl,
            List.forall_mem_nil _⟩
      | true =>
          obtain ⟨first, rest, hrest, hfirst⟩ := ih (by simpa [hplain] using hescaped)
          refine ⟨c :: first, rest, ?_, List.forall_mem_cons.mpr ⟨hplain, hfirst⟩⟩
          rw [escape_of_plain hplain, hrest]
          rfl

theorem hexadecimal_mem (digit : Nat) :
    hexadecimal digit ∈ "0123456789ABCDEF".toList := by
  rw [hexadecimal, List.getD_eq_getElem?_getD]
  cases hdigit : "0123456789ABCDEF".toList[digit]? with
  | none => exact List.mem_cons_self
  | some c => exact List.mem_of_getElem? hdigit

/-- An escape is on one line, and has no quote unless it is that of one. -/
theorem mem_escape {c : Char} (hc : c ≠ '"') {d : Char} (hd : d ∈ escape c) :
    d ≠ '"' ∧ d ≠ '\n' := by
  cases hplain : isPlain c with
  | true =>
      rw [escape_of_plain hplain] at hd
      obtain rfl := List.mem_singleton.mp hd
      refine ⟨hc, ?_⟩
      rintro rfl
      contradiction
  | false =>
      rw [escape, if_neg (by rw [hplain]; exact Bool.false_ne_true)] at hd
      split_ifs at hd
      all_goals try (revert d; decide)
      have hall : ∀ d ∈ "0123456789ABCDEF".toList, d ≠ '"' ∧ d ≠ '\n' := by
        decide
      simp only [List.mem_cons, List.not_mem_nil, or_false] at hd
      rcases hd with rfl | rfl | rfl | rfl | rfl | rfl
      · decide
      · decide
      · decide
      · decide
      · exact hall _ (hexadecimal_mem _)
      · exact hall _ (hexadecimal_mem _)

theorem readString_plain {c : Char} (hplain : isPlain c = true) (rest : Text) :
    readString (c :: rest) = prepend c (readString rest) := by
  simp only [isPlain, Bool.and_eq_true, decide_eq_true_eq] at hplain
  obtain ⟨⟨⟨hcontrol, hquote⟩, -⟩, hescape⟩ := hplain
  rw [readString.eq_def]
  split
  · contradiction
  · next heq => exact absurd (List.cons.inj heq).1 hquote
  · next heq => exact absurd (List.cons.inj heq).1 hescape
  · next heq => exact absurd (List.cons.inj heq).1 hescape
  · next heq =>
      obtain ⟨rfl, rfl⟩ := List.cons.inj heq
      rw [if_pos hcontrol]

/-- A control character is read from its four digits. -/
theorem readString_control {c : Char} (hcontrol : c.toNat < 32) (rest : Text) :
    readString ('\\' :: 'u' :: '0' :: '0' :: hexadecimal (c.toNat / 16) ::
      hexadecimal (c.toNat % 16) :: rest) = prepend c (readString rest) := by
  have hunit : ∀ n < 32, codeUnit '0' '0' (hexadecimal (n / 16))
      (hexadecimal (n % 16)) = some n := by decide
  rw [readString, hunit _ hcontrol]
  have hlow : ¬ (0xDC00 ≤ c.toNat ∧ c.toNat ≤ 0xDFFF) := by omega
  have hhigh : ¬ (0xD800 ≤ c.toNat ∧ c.toNat ≤ 0xDBFF) := by omega
  simp only [if_neg hlow, if_neg hhigh, Char.ofNat_toNat]

/-- Every character is read back. -/
theorem readString_escape (c : Char) (rest : Text) :
    readString (escape c ++ rest) = prepend c (readString rest) := by
  rw [escape]
  split
  · next hplain => exact readString_plain hplain rest
  · next hplain =>
      split_ifs with hb hf hn hr ht hslash hquote hbackslash
      all_goals try (subst c; rfl)
      apply readString_control
      simp only [isPlain, hslash, hquote, hbackslash, ne_eq, not_false_eq_true,
        decide_true, Bool.and_true, decide_eq_true_eq] at hplain
      have hlt : c < ' ' := Char.not_le.mp hplain
      exact hlt

theorem readString_createEscapes (text rest : Text) :
    readString (createEscapes text ++ '"' :: rest) = some (text, rest) := by
  induction text with
  | nil => rfl
  | cons c text ih =>
      rw [createEscapes, List.flatMap_cons, List.append_assoc,
        readString_escape, ← createEscapes, ih]
      rfl

end Strings

section Values

/-- What may follow a value on one line. -/
def Delimited (rest : Text) : Prop :=
  ∀ c ∈ rest.head?, c = ',' ∨ c = '\x7d' ∨ c = ']'

/-- The text does not begin with a space, nor does it close anything. -/
def Begins (text : Text) : Prop :=
  ∃ c rest, text = c :: rest ∧
    isJsonSpace c = false ∧ c ≠ '\x7d' ∧ c ≠ ']'

/-- The way in which a value is written is read back. -/
structure Reads (value : Text → Text) (data : Text) : Prop where
  begins : Begins (value data)
  reads : ∀ fuel rest, Delimited rest →
    readValue (fuel + 1) (value data ++ rest) = some (.leaf data, rest)

/-- The way in which a value is written is not read up to its end. -/
structure Breaks (value : Text → Text) (data : Text) : Prop where
  begins : Begins (value data)
  breaks : ∀ fuel rest tree after, Delimited rest →
    readValue fuel (value data ++ rest) = some (tree, after) →
      ∃ c ∈ after.head?, c.isDigit = true

theorem Begins.append {text : Text} (hbegins : Begins text) (rest : Text) :
    Begins (text ++ rest) := by
  obtain ⟨c, tail, rfl, hbegins⟩ := hbegins
  exact ⟨c, tail ++ rest, rfl, hbegins⟩

theorem Begins.skipSpace {text : Text} (hbegins : Begins text) :
    skipSpace text = text := by
  obtain ⟨c, tail, rfl, hspace, -⟩ := hbegins
  rw [Json.skipSpace, List.dropWhile_cons_of_neg]
  rw [hspace]
  exact Bool.false_ne_true

theorem begins_quoted (data : Text) : Begins (quoted data) :=
  ⟨'"', _, rfl, rfl, by decide, by decide⟩

/-- Text that opens neither an object nor an array. -/
theorem readValue_scalar {c : Char} (hspace : isJsonSpace c = false)
    (hobject : c ≠ '\x7b') (harray : c ≠ '[') (fuel : Nat) (rest : Text) :
    readValue (fuel + 1) (c :: rest) =
      (readScalar (c :: rest)).map fun read => (.leaf read.1, read.2) := by
  have hskip : skipSpace (c :: rest) = c :: rest := by
    rw [skipSpace, List.dropWhile_cons_of_neg]
    rw [hspace]
    exact Bool.false_ne_true
  rw [readValue, hskip]
  split
  · next heq => exact absurd (List.cons.inj heq).1 hobject
  · next heq => exact absurd (List.cons.inj heq).1 harray
  · rfl

/-- A string is always read back. -/
theorem reads_of_quoted {value : Text → Text} {data : Text}
    (hquoted : value data = quoted data) : Reads value data := by
  refine ⟨hquoted ▸ begins_quoted data, fun fuel rest _ => ?_⟩
  have hshape : quoted data ++ rest =
      '"' :: (createEscapes data ++ '"' :: rest) := by
    simp [quoted]
  rw [hquoted, hshape, readValue_scalar rfl (by decide) (by decide)]
  change (readString _).map _ = _
  rw [readString_createEscapes, Option.map_some]

end Values

section Trees

mutual

/-- The values that are written. -/
def values : Ptree → List Text
  | .node data children =>
      if children.isEmpty then [data] else valuesOf children

def valuesOf : List (Text × Ptree) → List Text
  | [] => []
  | (_, child) :: rest => values child ++ valuesOf rest

end

mutual

/-- The keys that can be written. -/
def keys : Ptree → List Text
  | .node _ children => keysOf children

def keysOf : List (Text × Ptree) → List Text
  | [] => []
  | (key, child) :: rest => key :: keys child ++ keysOf rest

end

mutual

/-- The calls that reading a tree takes. -/
def cost : Ptree → Nat
  | .node _ children => 3 + costOf children

def costOf : List (Text × Ptree) → Nat
  | [] => 0
  | (_, child) :: rest => 1 + cost child + costOf rest

end

theorem mem_valuesOf {children : List (Text × Ptree)} {data : Text} :
    data ∈ valuesOf children ↔ ∃ child ∈ children, data ∈ values child.2 := by
  induction children with
  | nil => simp [valuesOf]
  | cons child rest ih =>
      rw [valuesOf, List.mem_append, ih, List.exists_mem_cons_iff]

theorem mem_keysOf {children : List (Text × Ptree)} {key : Text} :
    key ∈ keysOf children ↔
      ∃ child ∈ children, key = child.1 ∨ key ∈ keys child.2 := by
  induction children with
  | nil => simp [keysOf]
  | cons child rest ih =>
      rw [keysOf, List.cons_append, List.mem_cons, List.mem_append, ih,
        List.exists_mem_cons_iff, or_assoc]

theorem plainChildren_iff {children : List (Text × Ptree)} :
    plainChildren children = true ↔
      ∀ child ∈ children, plainNodes child.2 = true := by
  induction children with
  | nil => simp [plainChildren]
  | cons child rest ih =>
      rw [plainChildren, Bool.and_eq_true, ih, List.forall_mem_cons]

theorem values_leaf (data : Text) : values (Ptree.leaf data) = [data] := rfl

theorem mem_values {tree : Ptree} (hsome : tree.children ≠ []) {data : Text} :
    data ∈ values tree ↔ ∃ child ∈ tree.children, data ∈ values child.2 := by
  match tree with
  | .node _ children =>
      change children ≠ [] at hsome
      rw [values, if_neg (by rwa [List.isEmpty_iff])]
      exact mem_valuesOf

theorem mem_values_map {α : Type} {elements : List α} (hsome : elements ≠ [])
    (name : α → Text) (child : α → Ptree) {data : Text} :
    data ∈ values (.node [] (elements.map fun a => (name a, child a))) ↔
      ∃ a ∈ elements, data ∈ values (child a) := by
  rw [mem_values]
  · constructor
    · rintro ⟨_, hmem, hdata⟩
      obtain ⟨a, ha, rfl⟩ := List.mem_map.mp hmem
      exact ⟨a, ha, hdata⟩
    · rintro ⟨a, ha, hdata⟩
      exact ⟨_, List.mem_map_of_mem ha, hdata⟩
  · exact fun hnone => hsome (List.map_eq_nil_iff.mp hnone)

theorem mem_values_leaves {α : Type} {elements : List α} (hsome : elements ≠ [])
    (name : α → Text) (text : α → Text) {data : Text} :
    data ∈ values
        (.node [] (elements.map fun a => (name a, Ptree.leaf (text a)))) ↔
      data ∈ elements.map text := by
  rw [mem_values_map hsome, List.mem_map]
  apply exists_congr
  intro a
  rw [values_leaf, List.mem_singleton, eq_comm]

theorem mem_keys {tree : Ptree} {key : Text} :
    key ∈ keys tree ↔
      ∃ child ∈ tree.children, key = child.1 ∨ key ∈ keys child.2 := by
  match tree with
  | .node _ children => exact mem_keysOf

theorem plainNodes_of_children {tree : Ptree} (hdata : tree.data = [])
    (hchildren : ∀ child ∈ tree.children, plainNodes child.2 = true) :
    plainNodes tree = true := by
  match tree with
  | .node data children =>
      obtain rfl : data = [] := hdata
      have hplain : plainChildren children = true :=
        plainChildren_iff.mpr hchildren
      rw [plainNodes, hplain]
      rfl

theorem plainNodes_leaf (data : Text) : plainNodes (Ptree.leaf data) = true := by
  rw [Ptree.leaf, plainNodes]
  simp [plainChildren]

variable {value : Text → Text} {indent : Nat}

theorem write_leaf (hindent : 0 < indent) (data : Text) :
    write value false indent (.node data []) = value data := by
  rw [write]
  simp [hindent]

/-- A node with children on one line. -/
theorem write_node {data : Text} {children : List (Text × Ptree)}
    (hwritten : 0 < indent → children ≠ []) :
    write value false indent (.node data children) =
      (if isArray indent children then '[' else '\x7b') ::
        (writeChildren value false (indent + 1) (!isArray indent children)
          children ++ [if isArray indent children then ']' else '\x7d']) := by
  have hnode : (decide (0 < indent) && children.isEmpty) = false := by
    rw [Bool.and_eq_false_imp]
    intro hindent
    rw [List.isEmpty_eq_false_iff]
    exact hwritten (of_decide_eq_true hindent)
  rw [write, hnode]
  simp [enclose, lineEnd, padding]

theorem begins_write (hindent : 0 < indent) {tree : Ptree}
    (hvalues : ∀ data ∈ values tree, Begins (value data)) :
    Begins (write value false indent tree) := by
  match tree with
  | .node data [] =>
      rw [write_leaf hindent]
      exact hvalues data (by simp [values])
  | .node data (child :: rest) =>
      rw [write_node fun _ => List.cons_ne_nil _ _]
      split
      · exact ⟨'[', _, rfl, by decide, by decide, by decide⟩
      · exact ⟨'\x7b', _, rfl, by decide, by decide, by decide⟩

/-- The children on one line, one after the other. -/
theorem writeChildren_cons (isObject : Bool) (key : Text) (child : Ptree)
    (others : List (Text × Ptree)) (rest : Text) :
    writeChildren value false indent isObject ((key, child) :: others) ++ rest =
      label false isObject key ++ (write value false indent child ++
        ((if others.isEmpty then [] else [',']) ++
          (writeChildren value false indent isObject others ++ rest))) := by
  rw [writeChildren]
  simp [padding, lineEnd]

/-- The children on one line are joined by commas. -/
theorem writeChildren_eq (isObject : Bool) (children : List (Text × Ptree)) :
    writeChildren value false indent isObject children =
      [','].intercalate (children.map fun child =>
        label false isObject child.1 ++
          write value false indent child.2) := by
  induction children with
  | nil => rfl
  | cons child rest ih =>
      rw [← List.append_nil (writeChildren ..), writeChildren_cons,
        List.append_nil, ih, List.map_cons]
      cases rest with
      | nil => simp
      | cons next others =>
          rw [List.map_cons, List.intercalate_cons_cons]
          simp

/-- An object on one line. -/
theorem write_object {data : Text} {children : List (Text × Ptree)}
    (hsome : children ≠ []) (hobject : isArray indent children = false) :
    write value false indent (.node data children) =
      '\x7b' :: [','].intercalate (children.map fun child =>
        label false true child.1 ++ write value false (indent + 1) child.2) ++
          ['\x7d'] := by
  rw [write_node fun _ => hsome, hobject, writeChildren_eq]
  rfl

/-- An array on one line. -/
theorem write_array {elements : List Ptree} (hindent : 0 < indent)
    (hsome : elements ≠ []) :
    write value false indent (Ptree.array elements) =
      '[' :: [','].intercalate
        (elements.map (write value false (indent + 1))) ++ [']'] := by
  have harray : isArray indent
      (elements.map fun element => ([], element)) = true := by
    simp [isArray, hindent]
  have hchildren : (elements.map fun element => (([] : Text), element)) ≠ [] :=
    fun hnil => hsome (List.map_eq_nil_iff.mp hnil)
  rw [Ptree.array, write_node fun _ => hchildren, harray, writeChildren_eq,
    List.map_map]
  rfl

theorem begins_writeChildren (hindent : 0 < indent) (isObject : Bool)
    {children : List (Text × Ptree)} (hsome : children ≠ [])
    (hvalues : ∀ data ∈ valuesOf children, Begins (value data)) :
    Begins (writeChildren value false indent isObject children) := by
  match children with
  | (key, child) :: others =>
      rw [← List.append_nil (writeChildren ..), writeChildren_cons]
      cases isObject with
      | true => exact ((begins_quoted key).append _).append _
      | false =>
          refine (begins_write hindent fun data hmem => ?_).append _
          exact hvalues data (List.mem_append_left _ hmem)

theorem readLabel_label {isObject : Bool} {key : Text}
    (hkey : isObject = false → key = []) (rest : Text) :
    readLabel isObject (label false isObject key ++ rest) = some (key, rest) := by
  cases isObject with
  | false =>
      obtain rfl := hkey rfl
      rfl
  | true =>
      have hshape : label false true key ++ rest =
          '"' :: (createEscapes key ++ '"' :: (':' :: rest)) := by
        simp [label, quoted]
      rw [hshape]
      change (readString _).bind _ = _
      rw [readString_createEscapes]
      rfl

theorem skipSpace_closing (isObject : Bool) (rest : Text) :
    skipSpace (closing isObject :: rest) = closing isObject :: rest := by
  cases isObject <;> rfl

theorem delimited_closing (isObject : Bool) (rest : Text) :
    Delimited (closing isObject :: rest) := by
  intro c hc
  obtain rfl := Option.some.inj hc
  cases isObject with
  | true => exact .inr (.inl rfl)
  | false => exact .inr (.inr rfl)

/-- What follows a child. -/
theorem delimited_after (isObject : Bool) (others : List (Text × Ptree))
    (rest : Text) :
    Delimited ((if others.isEmpty then [] else [',']) ++
      (writeChildren value false indent isObject others ++
        closing isObject :: rest)) := by
  cases others with
  | nil => exact delimited_closing isObject rest
  | cons child others =>
      intro c hc
      exact .inl (Option.some.inj hc).symm

/-- The first child is read, and then the others. -/
theorem readItems_cons {isObject : Bool} {key : Text} {child : Ptree}
    {others : List (Text × Ptree)} {fuel : Nat} {rest : Text}
    (hkey : isObject = false → key = [])
    (hchild : ∀ after, Delimited after →
      readValue fuel (write value false indent child ++ after) =
        some (child, after)) :
    readItems (fuel + 1) isObject
        (writeChildren value false indent isObject ((key, child) :: others) ++
          closing isObject :: rest) =
      if others.isEmpty then some ([(key, child)], rest)
      else (readItems fuel isObject
        (writeChildren value false indent isObject others ++
          closing isObject :: rest)).map fun read =>
            ((key, child) :: read.1, read.2) := by
  rw [writeChildren_cons, readItems, readLabel_label hkey]
  simp only [hchild _ (delimited_after isObject others rest)]
  cases others with
  | nil =>
      rw [writeChildren]
      simp only [List.isEmpty_nil, if_true, List.nil_append, skipSpace_closing]
      cases isObject <;> rfl
  | cons next others => rfl

/-- A node with children is read by reading these. -/
theorem readValue_node {children : List (Text × Ptree)} {fuel : Nat}
    {rest : Text} (hsome : children ≠ [])
    (hvalues : ∀ data ∈ valuesOf children, Begins (value data)) :
    readValue (fuel + 2) (write value false indent (.node [] children) ++ rest) =
      (readItems fuel (!isArray indent children)
        (writeChildren value false (indent + 1) (!isArray indent children)
          children ++ closing (!isArray indent children) :: rest)).map
        fun read => (.node [] read.1, read.2) := by
  have hbegins := begins_writeChildren (Nat.succ_pos indent)
    (!isArray indent children) hsome hvalues
  obtain ⟨c, tail, hfirst, hspace, hobject, harray⟩ :=
    hbegins.append (closing (!isArray indent children) :: rest)
  have hskip : skipSpace (c :: tail) = c :: tail := by
    rw [skipSpace, List.dropWhile_cons_of_neg]
    rw [hspace]
    exact Bool.false_ne_true
  have hopen : readValue (fuel + 2)
      (write value false indent (.node [] children) ++ rest) =
      readChildren (fuel + 1) (!isArray indent children) (c :: tail) := by
    rw [write_node fun _ => hsome, List.cons_append, List.append_assoc]
    cases hkind : isArray indent children with
    | true =>
        rw [hkind] at hfirst
        change readChildren (fuel + 1) false _ = _
        exact congrArg _ hfirst
    | false =>
        rw [hkind] at hfirst
        change readChildren (fuel + 1) true _ = _
        exact congrArg _ hfirst
  rw [hopen, hfirst, readChildren, hskip]
  cases isArray indent children with
  | true => exact if_neg harray
  | false => exact if_neg hobject

theorem keys_of_isArray {children : List (Text × Ptree)}
    (harray : (!isArray indent children) = false) {key : Text} {child : Ptree}
    (hmem : (key, child) ∈ children) : key = [] := by
  rw [Bool.not_eq_false', isArray, Bool.and_eq_true, List.all_eq_true] at harray
  exact of_decide_eq_true (harray.2 _ hmem)

mutual

/-- A tree is read back if its values are. -/
theorem readValue_write (tree : Ptree) (indent : Nat) {fuel : Nat}
    (rest : Text) (hwritten : 0 < indent ∨ tree.children ≠ [])
    (hplain : plainNodes tree = true)
    (hreads : ∀ data ∈ values tree, Reads value data)
    (hfuel : cost tree ≤ fuel) (hrest : Delimited rest) :
    readValue fuel (write value false indent tree ++ rest) =
      some (tree, rest) := by
  match tree with
  | .node data [] =>
      have hindent : 0 < indent := hwritten.resolve_right fun hsome => hsome rfl
      obtain ⟨fuel, rfl⟩ : ∃ less, fuel = less + 1 :=
        Nat.exists_eq_add_of_le' (Nat.le_trans (by rw [cost]; omega) hfuel)
      rw [write_leaf hindent]
      exact (hreads data (by simp [values])).reads fuel rest hrest
  | .node data (child :: others) =>
      simp only [plainNodes, List.isEmpty_cons, Bool.or_false,
        Bool.and_eq_true, List.isEmpty_iff] at hplain
      obtain ⟨rfl, hplain⟩ := hplain
      rw [cost] at hfuel
      obtain ⟨fuel, rfl⟩ : ∃ less, fuel = less + 2 :=
        Nat.exists_eq_add_of_le' (by omega)
      rw [readValue_node (List.cons_ne_nil _ _)
        fun data hmem => (hreads data hmem).begins]
      rw [readItems_write (child :: others) (List.cons_ne_nil _ _) hplain
        (fun harray key child hmem => keys_of_isArray harray hmem) hreads
        (by omega)]
      rfl

theorem readItems_write (children : List (Text × Ptree)) {indent fuel : Nat}
    {isObject : Bool} {rest : Text} (hsome : children ≠ [])
    (hplain : plainChildren children = true)
    (hkeys : isObject = false → ∀ key child, (key, child) ∈ children → key = [])
    (hreads : ∀ data ∈ valuesOf children, Reads value data)
    (hfuel : costOf children ≤ fuel) :
    readItems fuel isObject
        (writeChildren value false (indent + 1) isObject children ++
          closing isObject :: rest) = some (children, rest) := by
  match children with
  | (key, child) :: others =>
      rw [plainChildren, Bool.and_eq_true] at hplain
      rw [costOf] at hfuel
      obtain ⟨fuel, rfl⟩ : ∃ less, fuel = less + 1 :=
        Nat.exists_eq_add_of_le' (by omega)
      have hchild : ∀ after, Delimited after →
          readValue fuel (write value false (indent + 1) child ++ after) =
            some (child, after) := by
        intro after hafter
        exact readValue_write child _ _ (.inl (Nat.succ_pos indent)) hplain.1
          (fun data hmem => hreads data (List.mem_append_left _ hmem))
          (by omega) hafter
      rw [readItems_cons (fun harray => hkeys harray key child
        List.mem_cons_self) hchild]
      match others with
      | [] => rfl
      | next :: others =>
          rw [readItems_write (next :: others) (List.cons_ne_nil _ _) hplain.2
            (fun harray key child hmem => hkeys harray key child
              (List.mem_cons_of_mem _ hmem))
            (fun data hmem => hreads data (List.mem_append_right _ hmem))
            (by omega)]
          rfl

end

/-- A digit is none of what may follow a child. -/
theorem readItems_digit {isObject : Bool} {key rest : Text} {child : Ptree}
    {fuel : Nat} {text after : Text}
    (hlabel : readLabel isObject text = some (key, rest))
    (hvalue : readValue fuel rest = some (child, after))
    (hdigit : ∃ c ∈ after.head?, c.isDigit = true) :
    readItems (fuel + 1) isObject text = none := by
  obtain ⟨c, hhead, hdigit⟩ := hdigit
  obtain ⟨tail, rfl⟩ : ∃ tail, after = c :: tail :=
    List.head?_eq_some_iff.mp hhead
  have hspace : isJsonSpace c = false := by
    by_contra hspace
    simp only [isJsonSpace, Bool.not_eq_false, Bool.or_eq_true,
      beq_iff_eq] at hspace
    rcases hspace with ((rfl | rfl) | rfl) | rfl
    all_goals contradiction
  have hskip : skipSpace (c :: tail) = c :: tail := by
    rw [skipSpace, List.dropWhile_cons_of_neg]
    rw [hspace]
    exact Bool.false_ne_true
  have hcomma : c ≠ ',' := by
    rintro rfl
    contradiction
  have hclosing : c ≠ closing isObject := by
    rintro rfl
    cases isObject <;> contradiction
  rw [readItems, hlabel]
  simp only [hvalue, hskip, if_neg hcomma, if_neg hclosing]

mutual

/-- A tree with a value that is cut short is not read up to its end. -/
theorem breaks_write (tree : Ptree) {indent fuel : Nat} {rest : Text}
    (hindent : 0 < indent) (hplain : plainNodes tree = true)
    (hknown : ∀ data ∈ values tree, Reads value data ∨ Breaks value data)
    (hbroken : ∃ data ∈ values tree, Breaks value data)
    (hfuel : cost tree ≤ fuel) (hrest : Delimited rest) {read : Ptree}
    {after : Text}
    (hread : readValue fuel (write value false indent tree ++ rest) =
      some (read, after)) : ∃ c ∈ after.head?, c.isDigit = true := by
  match tree with
  | .node data [] =>
      obtain ⟨broken, hmem, hbroken⟩ := hbroken
      obtain rfl : broken = data := by simpa [values] using hmem
      rw [write_leaf hindent] at hread
      exact hbroken.breaks fuel rest read after hrest hread
  | .node data (child :: others) =>
      simp only [plainNodes, List.isEmpty_cons, Bool.or_false,
        Bool.and_eq_true, List.isEmpty_iff] at hplain
      obtain ⟨rfl, hplain⟩ := hplain
      rw [cost] at hfuel
      obtain ⟨fuel, rfl⟩ : ∃ less, fuel = less + 2 :=
        Nat.exists_eq_add_of_le' (by omega)
      rw [readValue_node (List.cons_ne_nil _ _) fun data hmem =>
        (hknown data hmem).elim Reads.begins Breaks.begins] at hread
      rw [readItems_broken (child :: others) hplain
        (fun harray key child hmem => keys_of_isArray harray hmem) hknown
        hbroken (by omega)] at hread
      contradiction

theorem readItems_broken (children : List (Text × Ptree)) {indent fuel : Nat}
    {isObject : Bool} {rest : Text} (hplain : plainChildren children = true)
    (hkeys : isObject = false → ∀ key child, (key, child) ∈ children → key = [])
    (hknown : ∀ data ∈ valuesOf children,
      Reads value data ∨ Breaks value data)
    (hbroken : ∃ data ∈ valuesOf children, Breaks value data)
    (hfuel : costOf children ≤ fuel) :
    readItems fuel isObject
        (writeChildren value false (indent + 1) isObject children ++
          closing isObject :: rest) = none := by
  match children with
  | [] =>
      obtain ⟨data, hmem, -⟩ := hbroken
      contradiction
  | (key, child) :: others =>
      rw [plainChildren, Bool.and_eq_true] at hplain
      rw [costOf] at hfuel
      obtain ⟨fuel, rfl⟩ : ∃ less, fuel = less + 1 :=
        Nat.exists_eq_add_of_le' (by omega)
      have hkey : isObject = false → key = [] := fun harray =>
        hkeys harray key child List.mem_cons_self
      by_cases hfirst : ∃ data ∈ values child, Breaks value data
      · rw [writeChildren_cons]
        have hlabel := readLabel_label hkey
          (write value false (indent + 1) child ++
            ((if others.isEmpty then [] else [',']) ++
              (writeChildren value false (indent + 1) isObject others ++
                closing isObject :: rest)))
        cases hvalue : readValue fuel (write value false (indent + 1) child ++
            ((if others.isEmpty then [] else [',']) ++
              (writeChildren value false (indent + 1) isObject others ++
                closing isObject :: rest))) with
        | none =>
            rw [readItems, hlabel]
            simp only [hvalue]
        | some read =>
            exact readItems_digit hlabel hvalue <|
              breaks_write child (Nat.succ_pos indent) hplain.1
                (fun data hmem => hknown data (List.mem_append_left _ hmem))
                hfirst (by omega) (delimited_after isObject others rest) hvalue
      · have hreads : ∀ data ∈ values child, Reads value data := by
          intro data hmem
          refine (hknown data (List.mem_append_left _ hmem)).resolve_right ?_
          exact fun hbreaks => hfirst ⟨data, hmem, hbreaks⟩
        have hothers : ∃ data ∈ valuesOf others, Breaks value data := by
          obtain ⟨data, hmem, hbreaks⟩ := hbroken
          rcases List.mem_append.mp hmem with hmem | hmem
          · exact absurd ⟨data, hmem, hbreaks⟩ hfirst
          · exact ⟨data, hmem, hbreaks⟩
        have hchild : ∀ after, Delimited after →
            readValue fuel (write value false (indent + 1) child ++ after) =
              some (child, after) := by
          intro after hafter
          exact readValue_write child _ _ (.inl (Nat.succ_pos indent)) hplain.1
            hreads (by omega) hafter
        rw [readItems_cons hkey hchild, readItems_broken others hplain.2
          (fun harray key child hmem => hkeys harray key child
            (List.mem_cons_of_mem _ hmem))
          (fun data hmem => hknown data (List.mem_append_right _ hmem)) hothers
          (by omega)]
        obtain ⟨data, hmem, -⟩ := hothers
        cases others with
        | nil => contradiction
        | cons next others => rfl

end

mutual

/-- Reading takes a few calls for each character. -/
theorem cost_lt (tree : Ptree) {indent : Nat} (hindent : 0 < indent)
    (hvalues : ∀ data ∈ values tree, Begins (value data)) :
    cost tree < 4 * (write value false indent tree).length := by
  match tree with
  | .node data [] =>
      obtain ⟨c, rest, hdata, -⟩ := hvalues data (by simp [values])
      rw [write_leaf hindent, hdata, cost, costOf, List.length_cons]
      omega
  | .node data (child :: others) =>
      have hdeeper : 0 < indent + 1 := Nat.succ_pos indent
      have hchildren := costOf_le (child :: others) hdeeper
        (!isArray indent (child :: others)) hvalues
      rw [write_node fun _ => List.cons_ne_nil _ _, cost]
      simp only [List.length_cons, List.length_append, List.length_nil]
      omega

theorem costOf_le (children : List (Text × Ptree)) {indent : Nat}
    (hindent : 0 < indent) (isObject : Bool)
    (hvalues : ∀ data ∈ valuesOf children, Begins (value data)) :
    costOf children ≤
      4 * (writeChildren value false indent isObject children).length := by
  match children with
  | [] => simp [costOf]
  | (key, child) :: others =>
      have hchild := cost_lt child hindent fun data hmem =>
        hvalues data (List.mem_append_left _ hmem)
      have hothers := costOf_le others hindent isObject fun data hmem =>
        hvalues data (List.mem_append_right _ hmem)
      rw [← List.append_nil (writeChildren ..), writeChildren_cons, costOf]
      simp only [List.length_append, List.length_nil]
      omega

end

theorem cost_root_le {children : List (Text × Ptree)} (hsome : children ≠ [])
    (hvalues : ∀ data ∈ valuesOf children, Begins (value data)) :
    cost (.node [] children) ≤
      4 * (write value false 0 (.node [] children)).length := by
  have hdeeper : 0 < 0 + 1 := Nat.one_pos
  have hchildren := costOf_le children hdeeper (!isArray 0 children) hvalues
  rw [write_node fun _ => hsome, cost]
  simp only [List.length_cons, List.length_append, List.length_nil]
  omega

/-- What has been written is read back if every value is. -/
theorem readJson_write {children : List (Text × Ptree)}
    (hplain : plainChildren children = true)
    (hreads : ∀ data ∈ valuesOf children, Reads value data) :
    readJson (write value false 0 (.node [] children)) =
      some (.node [] children) := by
  by_cases hsome : children = []
  · subst hsome
    rfl
  · have hroot : values (.node [] children) = valuesOf children := by
      rw [values, if_neg]
      rwa [List.isEmpty_iff]
    have hread := readValue_write (.node [] children) 0 []
      (.inr hsome) (by rwa [plainNodes, List.isEmpty_nil, Bool.true_or, Bool.true_and])
      (hroot ▸ hreads)
      (cost_root_le hsome fun data hmem => (hreads data hmem).begins)
      (by intro c hc; contradiction)
    rw [List.append_nil] at hread
    rw [readJson, hread]
    rfl

/-- What has been written is not read if a value is cut short. -/
theorem readJson_write_eq_none {children : List (Text × Ptree)}
    (hplain : plainChildren children = true)
    (hknown : ∀ data ∈ valuesOf children,
      Reads value data ∨ Breaks value data)
    (hbroken : ∃ data ∈ valuesOf children, Breaks value data) :
    readJson (write value false 0 (.node [] children)) = none := by
  have hsome : children ≠ [] := by
    rintro rfl
    obtain ⟨data, hmem, -⟩ := hbroken
    contradiction
  have hbegins : ∀ data ∈ valuesOf children, Begins (value data) :=
    fun data hmem => (hknown data hmem).elim Reads.begins Breaks.begins
  have hcost := cost_root_le hsome hbegins
  rw [cost] at hcost
  obtain ⟨fuel, hfuel⟩ : ∃ less,
      4 * (write value false 0 (.node [] children)).length = less + 2 :=
    Nat.exists_eq_add_of_le' (by omega)
  rw [hfuel] at hcost
  rw [readJson, hfuel, ← List.append_nil (write ..),
    readValue_node hsome hbegins]
  rw [readItems_broken children hplain
    (fun harray key child hmem => keys_of_isArray harray hmem) hknown hbroken
    (by omega)]
  rfl

end Trees

section Numbers

variable {text rest : Text}

/-- A text in front of what may follow a value, read by a part of a number. -/
theorem digits_append (hrest : Delimited rest) (text : Text) :
    digits (text ++ rest) = ((digits text).1, (digits text).2 ++ rest) := by
  induction text with
  | nil =>
      match rest with
      | [] => rfl
      | c :: tail =>
          rcases hrest c rfl with rfl | rfl | rfl
          all_goals rfl
  | cons c text ih =>
      simp only [digits, List.cons_append, List.takeWhile_cons,
        List.dropWhile_cons, Prod.mk.injEq] at ih ⊢
      split
      · exact ⟨congrArg (c :: ·) ih.1, ih.2⟩
      · exact ⟨rfl, rfl⟩

theorem readSign_append (hrest : Delimited rest) (text : Text) :
    readSign (text ++ rest) =
      ((readSign text).1, (readSign text).2 ++ rest) := by
  match text with
  | [] =>
      match rest with
      | [] => rfl
      | c :: tail =>
          rcases hrest c rfl with rfl | rfl | rfl
          all_goals rfl
  | c :: text =>
      by_cases hminus : c = '-'
      · subst hminus
        rfl
      · simp [readSign, hminus]

theorem readInteger_cons {c : Char} (hzero : c ≠ '0') (tail : Text) :
    readInteger (c :: tail) =
      if (digits (c :: tail)).1 = [] then none
      else some (digits (c :: tail)) := by
  rw [readInteger.eq_def]
  split
  · next heq => exact absurd (List.cons.inj heq).1 hzero
  · rfl

theorem readFraction_cons {c : Char} (hdot : c ≠ '.') (tail : Text) :
    readFraction (c :: tail) = some ([], c :: tail) := by
  rw [readFraction.eq_def]
  split
  · next heq => exact absurd (List.cons.inj heq).1 hdot
  · rfl

theorem readInteger_append (hrest : Delimited rest) {read : Text × Text}
    (hread : readInteger text = some read) :
    readInteger (text ++ rest) = some (read.1, read.2 ++ rest) := by
  match text with
  | [] => contradiction
  | c :: text =>
      by_cases hzero : c = '0'
      · subst hzero
        obtain rfl := Option.some.inj hread
        rfl
      · rw [readInteger_cons hzero] at hread
        rw [List.cons_append, readInteger_cons hzero, ← List.cons_append,
          digits_append hrest]
        split at hread
        · contradiction
        · next hdigits =>
            obtain rfl := Option.some.inj hread
            rw [if_neg hdigits]

theorem readFraction_append (hrest : Delimited rest) {read : Text × Text}
    (hread : readFraction text = some read) :
    readFraction (text ++ rest) = some (read.1, read.2 ++ rest) := by
  match text with
  | [] =>
      obtain rfl := Option.some.inj hread
      match rest with
      | [] => rfl
      | c :: tail =>
          rcases hrest c rfl with rfl | rfl | rfl
          all_goals rfl
  | c :: text =>
      by_cases hdot : c = '.'
      · subst hdot
        simp only [readFraction, List.cons_append] at hread ⊢
        rw [digits_append hrest]
        split at hread
        · contradiction
        · next hdigits =>
            obtain rfl := Option.some.inj hread
            rw [if_neg hdigits]
      · rw [readFraction_cons hdot] at hread
        obtain rfl := Option.some.inj hread
        rw [List.cons_append, readFraction_cons hdot]

theorem readExponentSign_append (hrest : Delimited rest) (text : Text) :
    readExponentSign (text ++ rest) =
      ((readExponentSign text).1, (readExponentSign text).2 ++ rest) := by
  match text with
  | [] =>
      match rest with
      | [] => rfl
      | c :: tail =>
          rcases hrest c rfl with rfl | rfl | rfl
          all_goals rfl
  | c :: text =>
      by_cases hplus : c = '+'
      · subst hplus
        rfl
      · by_cases hminus : c = '-'
        · subst hminus
          rfl
        · simp [readExponentSign, hplus, hminus]

theorem readExponent_append (hrest : Delimited rest) {read : Text × Text}
    (hread : readExponent text = some read) :
    readExponent (text ++ rest) = some (read.1, read.2 ++ rest) := by
  match text with
  | [] =>
      obtain rfl := Option.some.inj hread
      match rest with
      | [] => rfl
      | c :: tail =>
          rcases hrest c rfl with rfl | rfl | rfl
          all_goals rfl
  | c :: text =>
      rw [readExponent] at hread
      rw [List.cons_append, readExponent]
      split at hread
      · next hletter =>
          rw [if_pos hletter, readExponentSign_append hrest]
          simp only [digits_append hrest] at hread ⊢
          split at hread
          · contradiction
          · next hdigits =>
              obtain rfl := Option.some.inj hread
              rw [if_neg hdigits]
      · next hletter =>
          obtain rfl := Option.some.inj hread
          rw [if_neg hletter]
          rfl

theorem readNumber_append (hrest : Delimited rest) {read : Text × Text}
    (hread : readNumber text = some read) :
    readNumber (text ++ rest) = some (read.1, read.2 ++ rest) := by
  simp only [readNumber, bind, Option.bind_eq_some_iff, pure,
    Option.some.injEq] at hread
  obtain ⟨integer, hinteger, fraction, hfraction, exponent, hexponent, rfl⟩ :=
    hread
  rw [readNumber, readSign_append hrest]
  simp only [readInteger_append hrest hinteger,
    readFraction_append hrest hfraction, readExponent_append hrest hexponent,
    bind, Option.bind_some, pure]

/-- A number begins with a digit or with a sign. -/
theorem head_of_isNumber (hnumber : isNumber text = true) :
    ∃ c tail, text = c :: tail ∧ (c.isDigit = true ∨ c = '-') := by
  have hread : readNumber text = some (text, []) := of_decide_eq_true hnumber
  match text with
  | [] => contradiction
  | c :: tail =>
      refine ⟨c, tail, rfl, ?_⟩
      by_contra hother
      rw [not_or] at hother
      obtain ⟨hdigit, hminus⟩ := hother
      have hzero : c ≠ '0' := by
        rintro rfl
        contradiction
      have hsign : readSign (c :: tail) = ([], c :: tail) := by
        simp [readSign, hminus]
      have hinteger : readInteger (c :: tail) = none := by
        rw [readInteger_cons hzero]
        simp [digits, hdigit]
      rw [readNumber, hsign] at hread
      simp only [hinteger, bind, Option.bind_none] at hread
      contradiction

/-- A character of a number. -/
def NumberChar (c : Char) : Prop := c.isDigit = true ∨ c ∈ "+-.eE".toList

theorem numberChar_digits (text : Text) :
    ∀ c ∈ (digits text).1, NumberChar c :=
  fun _ hc => .inl (List.mem_takeWhile_imp hc)

theorem numberChar_sign {c : Char} (hc : c ∈ "+-.eE".toList) : NumberChar c :=
  .inr hc

theorem numberChar_readSign (text : Text) :
    ∀ c ∈ (readSign text).1, NumberChar c := by
  rw [readSign.eq_def]
  split
  · exact List.forall_mem_singleton.mpr (numberChar_sign (by decide))
  · exact List.forall_mem_nil _

theorem numberChar_readInteger {read : Text × Text}
    (hread : readInteger text = some read) : ∀ c ∈ read.1, NumberChar c := by
  rw [readInteger.eq_def] at hread
  split at hread
  · obtain rfl := Option.some.inj hread
    exact List.forall_mem_singleton.mpr (.inl rfl)
  · split at hread
    · contradiction
    · obtain rfl := Option.some.inj hread
      exact numberChar_digits text

theorem numberChar_readFraction {read : Text × Text}
    (hread : readFraction text = some read) : ∀ c ∈ read.1, NumberChar c := by
  rw [readFraction.eq_def] at hread
  split at hread
  · split at hread
    · contradiction
    · obtain rfl := Option.some.inj hread
      exact List.forall_mem_cons.mpr
        ⟨numberChar_sign (by decide), numberChar_digits _⟩
  · obtain rfl := Option.some.inj hread
    exact List.forall_mem_nil _

theorem numberChar_readExponentSign (text : Text) :
    ∀ c ∈ (readExponentSign text).1, NumberChar c := by
  rw [readExponentSign.eq_def]
  split
  · exact List.forall_mem_singleton.mpr (numberChar_sign (by decide))
  · exact List.forall_mem_singleton.mpr (numberChar_sign (by decide))
  · exact List.forall_mem_nil _

theorem numberChar_readExponent {read : Text × Text}
    (hread : readExponent text = some read) : ∀ c ∈ read.1, NumberChar c := by
  rw [readExponent.eq_def] at hread
  split at hread
  · split at hread
    · next c rest hletter =>
        simp only at hread
        split at hread
        · contradiction
        · obtain rfl := Option.some.inj hread
          have hfirst : NumberChar c := by
            rcases hletter with rfl | rfl
            · exact numberChar_sign (by decide)
            · exact numberChar_sign (by decide)
          rw [List.cons_append, List.forall_mem_cons, List.forall_mem_append]
          exact ⟨hfirst, numberChar_readExponentSign rest,
            numberChar_digits _⟩
    · obtain rfl := Option.some.inj hread
      exact List.forall_mem_nil _
  · obtain rfl := Option.some.inj hread
    exact List.forall_mem_nil _

/-- A number has a sign, digits, a point and an exponent, and nothing else. -/
theorem numberChar_of_isNumber (hnumber : isNumber text = true) :
    ∀ c ∈ text, NumberChar c := by
  have hread : readNumber text = some (text, []) := of_decide_eq_true hnumber
  simp only [readNumber, bind, Option.bind_eq_some_iff, pure,
    Option.some.injEq] at hread
  obtain ⟨integer, hinteger, fraction, hfraction, exponent, hexponent, heq⟩ :=
    hread
  obtain ⟨htext, -⟩ := Prod.mk.inj heq
  rw [← htext, List.forall_mem_append, List.forall_mem_append,
    List.forall_mem_append]
  exact ⟨⟨⟨numberChar_readSign text, numberChar_readInteger hinteger⟩,
    numberChar_readFraction hfraction⟩, numberChar_readExponent hexponent⟩

/-- A text that begins like a number is read as one. -/
theorem readValue_number {c : Char} (hfirst : c.isDigit = true ∨ c = '-')
    (fuel : Nat) (tail : Text) :
    readValue (fuel + 1) (c :: tail) =
      (readNumber (c :: tail)).map fun read => (.leaf read.1, read.2) := by
  have hother : ∀ d, d.isDigit = false → d ≠ '-' → c ≠ d := by
    rintro d hdigit hminus rfl
    rcases hfirst with hfirst | hfirst
    · exact Bool.false_ne_true (hdigit.symm.trans hfirst)
    · exact hminus hfirst
  have hspace : isJsonSpace c = false := by
    simp [isJsonSpace, hother ' ' rfl (by decide), hother '\t' rfl (by decide),
      hother '\n' rfl (by decide), hother '\r' rfl (by decide)]
  rw [readValue_scalar hspace (hother _ rfl (by decide))
    (hother _ rfl (by decide)), readScalar.eq_def]
  split
  · next heq => exact absurd (List.cons.inj heq).1 (hother _ rfl (by decide))
  · next heq => exact absurd (List.cons.inj heq).1 (hother _ rfl (by decide))
  · next heq => exact absurd (List.cons.inj heq).1 (hother _ rfl (by decide))
  · next heq => exact absurd (List.cons.inj heq).1 (hother _ rfl (by decide))
  · rfl

theorem begins_number {c : Char} (hfirst : c.isDigit = true ∨ c = '-')
    (tail : Text) : Begins (c :: tail) := by
  refine ⟨c, tail, rfl, ?_, ?_, ?_⟩
  · rcases hfirst with hdigit | rfl
    · by_contra hspace
      simp only [isJsonSpace, Bool.not_eq_false, Bool.or_eq_true,
        beq_iff_eq] at hspace
      rcases hspace with ((rfl | rfl) | rfl) | rfl
      all_goals contradiction
    · rfl
  all_goals
    rintro rfl
    rcases hfirst with hdigit | hminus
    all_goals contradiction

/-- A number is read back. -/
theorem reads_of_number {value : Text → Text} {data : Text}
    (hvalue : value data = data) (hnumber : isNumber data = true) :
    Reads value data := by
  obtain ⟨c, tail, rfl, hfirst⟩ := head_of_isNumber hnumber
  have hread : readNumber (c :: tail) = some (c :: tail, []) :=
    of_decide_eq_true hnumber
  refine ⟨hvalue.symm ▸ begins_number hfirst tail,
    fun fuel rest hrest => ?_⟩
  rw [hvalue, List.cons_append, readValue_number hfirst, ← List.cons_append,
    readNumber_append hrest hread]
  rfl

/-- A numeral has no zero in front. -/
theorem readInteger_numeral (n : Nat) {rest : Text}
    (hrest : ∀ c ∈ rest.head?, c.isDigit = false) :
    readInteger (numeral n ++ rest) = some (numeral n, rest) := by
  have hdigits : digits (numeral n ++ rest) = (numeral n, rest) := by
    have htake := takeWhile_append_of_head
      (fun c hc => isDigit_of_mem_numeral (n := n) hc) hrest
    have hparts : (numeral n ++ rest).takeWhile Char.isDigit ++
        (numeral n ++ rest).dropWhile Char.isDigit = numeral n ++ rest :=
      List.takeWhile_append_dropWhile
    rw [htake] at hparts
    rw [digits, htake, List.append_cancel_left hparts]
  match n with
  | 0 => rfl
  | n + 1 =>
      obtain ⟨c, others, hnumeral⟩ :=
        List.exists_cons_of_ne_nil (numeral_ne_nil (n + 1))
      have hzero : c ≠ '0' := by
        rintro rfl
        exact head_numeral_ne_zero n.succ_pos (by rw [hnumeral]; rfl)
      rw [hnumeral, List.cons_append] at hdigits ⊢
      rw [readInteger_cons hzero, hdigits, if_neg (List.cons_ne_nil _ _)]

theorem readSign_numeral (n : Nat) (rest : Text) :
    readSign (numeral n ++ rest) = ([], numeral n ++ rest) := by
  obtain ⟨c, others, hnumeral⟩ :=
    List.exists_cons_of_ne_nil (numeral_ne_nil n)
  have hminus : c ≠ '-' := by
    rintro rfl
    have hdigit := isDigit_of_mem_numeral (n := n) (c := '-')
      (hnumeral ▸ List.mem_cons_self)
    contradiction
  rw [hnumeral]
  simp [readSign, hminus]

/-- The parts of a number that follow its digits, for the text after them. -/
theorem readNumber_numeral (n : Nat) {rest : Text}
    (hrest : ∀ c ∈ rest.head?, c.isDigit = false) :
    readNumber (numeral n ++ rest) = (do
      let fraction ← readFraction rest
      let exponent ← readExponent fraction.2
      return (numeral n ++ fraction.1 ++ exponent.1, exponent.2)) := by
  rw [readNumber, readSign_numeral]
  simp [readInteger_numeral n hrest]

theorem readNumber_minus_numeral (n : Nat) {rest : Text}
    (hrest : ∀ c ∈ rest.head?, c.isDigit = false) :
    readNumber ('-' :: numeral n ++ rest) = (do
      let fraction ← readFraction rest
      let exponent ← readExponent fraction.2
      return ('-' :: numeral n ++ fraction.1 ++ exponent.1, exponent.2)) := by
  rw [readNumber]
  simp [readSign, readInteger_numeral n hrest]

theorem isNumber_numeral (n : Nat) : isNumber (numeral n) = true := by
  have hempty : ∀ c ∈ ([] : Text).head?, c.isDigit = false := by simp
  have hread := readNumber_numeral n hempty
  rw [List.append_nil] at hread
  rw [isNumber, decide_eq_true_eq, hread]
  simp [readFraction, readExponent]

theorem isNumber_minus_numeral (n : Nat) :
    isNumber ('-' :: numeral n) = true := by
  have hempty : ∀ c ∈ ([] : Text).head?, c.isDigit = false := by simp
  have hread := readNumber_minus_numeral n hempty
  rw [List.append_nil] at hread
  rw [isNumber, decide_eq_true_eq, hread]
  simp [readFraction, readExponent]

end Numbers

end Json

end Margot
