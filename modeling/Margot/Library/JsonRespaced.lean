/-
The spaces between the marks of a property tree that is written on several
lines.  Whatever becomes of them, the tree is read back, with what becomes of
its values and keys.
-/
import Mathlib.Data.List.DropRight
import Margot.Library.JsonParts

namespace Margot

mutual

/-- The tree with other values and keys. -/
def Ptree.mapTexts (change : Text → Text) : Ptree → Ptree
  | .node data children => .node (change data) (mapTextsOf change children)

def Ptree.mapTextsOf (change : Text → Text) :
    List (Text × Ptree) → List (Text × Ptree)
  | [] => []
  | (key, child) :: rest =>
      (change key, child.mapTexts change) :: mapTextsOf change rest

end

namespace Json

mutual

/-- The tree stays as it is if its values and keys do. -/
theorem mapTexts_eq_self {change : Text → Text} (hempty : change [] = [])
    (tree : Ptree) (hplain : plainNodes tree = true)
    (hsame : Holds (fun text => change text = text) tree) :
    tree.mapTexts change = tree := by
  match tree with
  | .node data [] =>
      rw [Ptree.mapTexts, hsame.1 data (by simp [values])]
      rfl
  | .node data (child :: others) =>
      simp only [plainNodes, List.isEmpty_cons, Bool.or_false,
        Bool.and_eq_true, List.isEmpty_iff] at hplain
      obtain ⟨rfl, hplain⟩ := hplain
      rw [Ptree.mapTexts, hempty, mapTextsOf_eq_self hempty _ hplain
        ((holds_of_children (List.cons_ne_nil _ _)).mp hsame)]

theorem mapTextsOf_eq_self {change : Text → Text} (hempty : change [] = [])
    (children : List (Text × Ptree)) (hplain : plainChildren children = true)
    (hsame : HoldsOf (fun text => change text = text) children) :
    Ptree.mapTextsOf change children = children := by
  match children with
  | [] => rfl
  | (key, child) :: others =>
      rw [plainChildren, Bool.and_eq_true] at hplain
      obtain ⟨hkey, hchild⟩ := hsame _ List.mem_cons_self
      rw [Ptree.mapTextsOf, hkey, mapTexts_eq_self hempty child hplain.1 hchild,
        mapTextsOf_eq_self hempty others hplain.2 fun child hmem =>
          hsame child (List.mem_cons_of_mem _ hmem)]

end

/-- What becomes of a written tree: its marks are kept, its strings are written
again with a change, and spaces stay or go. -/
structure Respaces (respace change : Text → Text) (good : Text → Prop) :
    Prop where
  nil : respace [] = []
  mark : ∀ c ∈ "\x7b\x7d[],:".toList, ∀ rest,
    respace (c :: rest) = c :: respace rest
  space : ∀ c ∈ " \n".toList, ∀ rest,
    skipSpace (respace (c :: rest)) = skipSpace (respace rest)
  string : ∀ text rest, good text →
    respace (quoted text ++ rest) = quoted (change text) ++ respace rest
  empty : change [] = []

section Skip

variable {first second : Text}

/-- Reading a value skips the spaces before it. -/
theorem readValue_congr (fuel : Nat)
    (hskip : skipSpace first = skipSpace second) :
    readValue fuel first = readValue fuel second := by
  cases fuel with
  | zero => rfl
  | succ fuel => rw [readValue, readValue, hskip]

theorem readChildren_congr (fuel : Nat) (isObject : Bool)
    (hskip : skipSpace first = skipSpace second) :
    readChildren fuel isObject first = readChildren fuel isObject second := by
  cases fuel with
  | zero => rfl
  | succ fuel => rw [readChildren, readChildren, hskip]

theorem readItems_congr (fuel : Nat) (isObject : Bool)
    (hskip : skipSpace first = skipSpace second) :
    readItems fuel isObject first = readItems fuel isObject second := by
  cases fuel with
  | zero => rfl
  | succ fuel =>
      cases isObject with
      | true =>
          have hlabel : readLabel true first = readLabel true second := by
            simp only [readLabel, hskip, if_true]
          rw [readItems, readItems, hlabel]
      | false =>
          have hlabel : ∀ text, readLabel false text = some ([], text) :=
            fun _ => rfl
          rw [readItems, readItems, hlabel, hlabel]
          simp only [readValue_congr fuel hskip]

theorem skipSpace_skipSpace (text : Text) :
    skipSpace (skipSpace text) = skipSpace text :=
  List.dropWhile_idempotent _ text

theorem length_skipSpace_le (text : Text) :
    (skipSpace text).length ≤ text.length :=
  (List.dropWhile_suffix _).length_le

end Skip

section Pretty

variable {indent : Nat}

/-- A node with children on several lines. -/
theorem write_lines {data : Text} {children : List (Text × Ptree)}
    (hsome : children ≠ []) (rest : Text) :
    write quoted true indent (.node data children) ++ rest =
      (if isArray indent children then '[' else '\x7b') ::
        ('\n' :: (writeChildren quoted true (indent + 1)
          (!isArray indent children) children ++ (padding true indent ++
            closing (!isArray indent children) :: rest))) := by
  have hnode : (decide (0 < indent) && children.isEmpty) = false := by
    rw [List.isEmpty_eq_false_iff.mpr hsome, Bool.and_false]
  rw [write, hnode]
  cases isArray indent children <;> simp [enclose, lineEnd, closing]

theorem writeChildren_lines (isObject : Bool) (key : Text) (child : Ptree)
    (others : List (Text × Ptree)) (rest : Text) :
    writeChildren quoted true indent isObject ((key, child) :: others) ++ rest =
      padding true indent ++ (label true isObject key ++
        (write quoted true indent child ++
          ((if others.isEmpty then [] else [',']) ++
            ('\n' :: (writeChildren quoted true indent isObject others ++
              rest))))) := by
  rw [writeChildren]
  simp [lineEnd]

theorem mem_padding {c : Char} (hc : c ∈ padding true indent) :
    c ∈ " \n".toList := by
  obtain rfl := List.eq_of_mem_replicate hc
  decide

variable {respace change : Text → Text} {good : Text → Prop}
  (respaces : Respaces respace change good)

include respaces

theorem Respaces.blank {blank : Text} (hblank : ∀ c ∈ blank, c ∈ " \n".toList)
    (rest : Text) :
    skipSpace (respace (blank ++ rest)) = skipSpace (respace rest) := by
  induction blank with
  | nil => rfl
  | cons c blank ih =>
      rw [List.forall_mem_cons] at hblank
      rw [List.cons_append, respaces.space c hblank.1, ih hblank.2]

/-- Before a child there may be spaces. -/
theorem Respaces.children (isObject : Bool) (key : Text) (child : Ptree)
    (others : List (Text × Ptree)) (rest : Text) :
    skipSpace (respace (writeChildren quoted true indent isObject
        ((key, child) :: others) ++ rest)) =
      skipSpace (respace (label true isObject key ++
        (write quoted true indent child ++
          ((if others.isEmpty then [] else [',']) ++
            ('\n' :: (writeChildren quoted true indent isObject others ++
              rest)))))) := by
  rw [writeChildren_lines]
  exact respaces.blank (fun c => mem_padding) _

theorem Respaces.closing (isObject : Bool) (rest : Text) :
    respace (Json.closing isObject :: rest) =
      Json.closing isObject :: respace rest := by
  cases isObject with
  | true => exact respaces.mark '\x7d' (by decide) rest
  | false => exact respaces.mark ']' (by decide) rest

/-- The text of a node begins with a mark that closes nothing. -/
theorem Respaces.begins (hindent : 0 < indent) {tree : Ptree}
    (hgood : ∀ data ∈ values tree, good data) (rest : Text) :
    Begins (respace (write quoted true indent tree ++ rest)) := by
  match tree with
  | .node data [] =>
      have hleaf : write quoted true indent (.node data []) = quoted data := by
        rw [write]
        simp [hindent]
      rw [hleaf, respaces.string data rest (hgood data (by simp [values]))]
      exact (begins_quoted _).append _
  | .node data (child :: others) =>
      rw [write_lines (List.cons_ne_nil _ _)]
      split
      · rw [respaces.mark '[' (by decide)]
        exact ⟨'[', _, rfl, by decide, by decide, by decide⟩
      · rw [respaces.mark '\x7b' (by decide)]
        exact ⟨'\x7b', _, rfl, by decide, by decide, by decide⟩

theorem Respaces.label {key : Text} (hkey : good key) (rest : Text) :
    respace (label true true key ++ rest) =
      quoted (change key) ++ (':' :: respace (' ' :: rest)) := by
  have hshape : Json.label true true key ++ rest =
      quoted key ++ (':' :: (' ' :: rest)) := by
    simp [Json.label]
  rw [hshape, respaces.string key _ hkey, respaces.mark ':' (by decide)]

/-- What is read of the label of a child, and where its value is read. -/
theorem Respaces.readLabel {isObject : Bool} {key : Text}
    (hkey : isObject = false → key = []) (hgood : good key) (rest : Text) :
    ∃ after, Json.readLabel isObject
        (respace (Json.label true isObject key ++ rest)) =
          some (change key, after) ∧
      skipSpace after = skipSpace (respace rest) := by
  cases isObject with
  | false =>
      obtain rfl := hkey rfl
      refine ⟨respace rest, ?_, rfl⟩
      rw [respaces.empty]
      rfl
  | true =>
      refine ⟨respace (' ' :: rest), ?_, respaces.space ' ' (by decide) rest⟩
      have hshape : quoted (change key) ++ (':' :: respace (' ' :: rest)) =
          '"' :: (createEscapes (change key) ++ '"' ::
            (':' :: respace (' ' :: rest))) := by
        simp [quoted]
      rw [respaces.label hgood, hshape]
      change (readString _).bind _ = _
      rw [readString_createEscapes]
      rfl

/-- The first child begins with a mark that closes nothing. -/
theorem Respaces.opens (isObject : Bool) {children : List (Text × Ptree)}
    (hsome : children ≠ []) (hgood : HoldsOf good children)
    (hindent : 0 < indent) (rest : Text) :
    Begins (skipSpace (respace
      (writeChildren quoted true indent isObject children ++ rest))) := by
  match children with
  | (key, child) :: others =>
      obtain ⟨hkey, hchild⟩ := hgood _ List.mem_cons_self
      rw [respaces.children]
      cases isObject with
      | true =>
          rw [respaces.label hkey]
          have hbegins := (begins_quoted (change key)).append
            (':' :: respace (' ' :: (write quoted true indent child ++
              ((if others.isEmpty then [] else [',']) ++
                ('\n' :: (writeChildren quoted true indent true others ++
                  rest))))))
          rw [hbegins.skipSpace]
          exact hbegins
      | false =>
          have hbegins := respaces.begins hindent hchild.1
            ((if others.isEmpty then [] else [',']) ++
              ('\n' :: (writeChildren quoted true indent false others ++ rest)))
          rw [← hbegins.skipSpace] at hbegins
          exact hbegins

omit respaces in
theorem comma_ne_closing (isObject : Bool) : Json.closing isObject ≠ ',' := by
  cases isObject <;> decide

omit respaces in
theorem skipSpace_mark (isObject : Bool) (text : Text) :
    skipSpace (Json.closing isObject :: text) =
      Json.closing isObject :: text := by
  cases isObject <;> rfl

mutual

/-- A tree is read back as what becomes of it. -/
theorem Respaces.readValue (tree : Ptree) (indent : Nat) {fuel : Nat}
    (rest : Text) (hwritten : 0 < indent ∨ tree.children ≠ [])
    (hplain : plainNodes tree = true) (hgood : Holds good tree)
    (hfuel : cost tree ≤ fuel) :
    Json.readValue fuel (respace (write quoted true indent tree ++ rest)) =
      some (tree.mapTexts change, respace rest) := by
  match tree with
  | .node data [] =>
      have hindent : 0 < indent := hwritten.resolve_right fun hsome => hsome rfl
      have hleaf : write quoted true indent (.node data []) = quoted data := by
        rw [write]
        simp [hindent]
      obtain ⟨fuel, rfl⟩ : ∃ less, fuel = less + 1 :=
        Nat.exists_eq_add_of_le' (Nat.le_trans (by rw [cost]; omega) hfuel)
      have hshape : quoted (change data) ++ respace rest =
          '"' :: (createEscapes (change data) ++ '"' :: respace rest) := by
        simp [quoted]
      rw [hleaf, respaces.string data rest (hgood.1 data (by simp [values])),
        hshape, readValue_scalar rfl (by decide) (by decide)]
      change (readString _).map _ = _
      rw [readString_createEscapes]
      rfl
  | .node data (child :: others) =>
      simp only [plainNodes, List.isEmpty_cons, Bool.or_false,
        Bool.and_eq_true, List.isEmpty_iff] at hplain
      obtain ⟨rfl, hplain⟩ := hplain
      have hgood := (holds_of_children (List.cons_ne_nil _ _)).mp hgood
      rw [cost] at hfuel
      obtain ⟨fuel, rfl⟩ : ∃ less, fuel = less + 2 :=
        Nat.exists_eq_add_of_le' (by omega)
      have hopens := respaces.opens (!isArray indent (child :: others))
        (List.cons_ne_nil _ _) hgood (Nat.succ_pos indent)
        (padding true indent ++
          Json.closing (!isArray indent (child :: others)) :: rest)
      have hitems := Respaces.readItems (child :: others) indent
        (!isArray indent (child :: others)) rest (List.cons_ne_nil _ _) hplain
        (fun hlist key child hmem => keys_of_isArray hlist hmem) hgood
        (by omega : costOf (child :: others) ≤ fuel)
      have hskip := hopens.skipSpace
      obtain ⟨c, tail, hfirst, -, hobject, harray⟩ := hopens
      rw [hfirst] at hskip
      have hchildren : readChildren (fuel + 1)
          (!isArray indent (child :: others)) (c :: tail) =
          some (.node [] (Ptree.mapTextsOf change (child :: others)),
            respace rest) := by
        rw [← readItems_congr fuel _ (hskip.trans hfirst.symm)] at hitems
        have hother : c ≠ Json.closing (!isArray indent (child :: others)) := by
          cases isArray indent (child :: others) with
          | true => exact harray
          | false => exact hobject
        rw [readChildren, hskip]
        simp only [if_neg hother, hitems, Option.map_some]
      rw [← hfirst, readChildren_congr _ _ (skipSpace_skipSpace _),
        ← readChildren_congr _ _ (respaces.space '\n' (by decide) _)]
        at hchildren
      rw [write_lines (List.cons_ne_nil _ _), Ptree.mapTexts, respaces.empty,
        ← hchildren]
      cases isArray indent (child :: others) with
      | true =>
          rw [respaces.mark _ (by decide)]
          rfl
      | false =>
          rw [respaces.mark _ (by decide)]
          rfl

theorem Respaces.readItems (children : List (Text × Ptree))
    (indent : Nat) {fuel : Nat} (isObject : Bool) (rest : Text)
    (hsome : children ≠ []) (hplain : plainChildren children = true)
    (hkeys : isObject = false → ∀ key child, (key, child) ∈ children → key = [])
    (hgood : HoldsOf good children) (hfuel : costOf children ≤ fuel) :
    Json.readItems fuel isObject
        (respace (writeChildren quoted true (indent + 1) isObject children ++
          (padding true indent ++ Json.closing isObject :: rest))) =
      some (Ptree.mapTextsOf change children, respace rest) := by
  match children with
  | (key, child) :: others =>
      rw [plainChildren, Bool.and_eq_true] at hplain
      rw [costOf] at hfuel
      obtain ⟨fuel, rfl⟩ : ∃ less, fuel = less + 1 :=
        Nat.exists_eq_add_of_le' (by omega)
      obtain ⟨hkey, hchild⟩ := hgood _ List.mem_cons_self
      obtain ⟨after, hlabel, hafter⟩ := respaces.readLabel
        (fun hlist => hkeys hlist key child List.mem_cons_self) hkey
        (write quoted true (indent + 1) child ++
          ((if others.isEmpty then [] else [',']) ++
            ('\n' :: (writeChildren quoted true (indent + 1) isObject others ++
              (padding true indent ++ Json.closing isObject :: rest)))))
      rw [readItems_congr _ _ (respaces.children ..), Json.readItems, hlabel]
      simp only [readValue_congr fuel hafter,
        Respaces.readValue child (indent + 1) _ (.inl (Nat.succ_pos indent))
          hplain.1 hchild (by omega : cost child ≤ fuel)]
      match others with
      | [] =>
          have hend : skipSpace (respace ('\n' ::
              (padding true indent ++ Json.closing isObject :: rest))) =
                Json.closing isObject :: respace rest := by
            rw [respaces.space '\n' (by decide),
              respaces.blank (fun c => mem_padding), respaces.closing,
              skipSpace_mark]
          rw [writeChildren]
          simp only [List.isEmpty_nil, if_true, List.nil_append, hend,
            if_neg (comma_ne_closing isObject)]
          rfl
      | next :: others =>
          have hcomma : respace (',' :: '\n' :: (writeChildren quoted true
              (indent + 1) isObject (next :: others) ++
                (padding true indent ++ Json.closing isObject :: rest))) =
              ',' :: respace ('\n' :: (writeChildren quoted true
                (indent + 1) isObject (next :: others) ++
                  (padding true indent ++ Json.closing isObject :: rest))) :=
            respaces.mark ',' (by decide) _
          have hskip : ∀ text, skipSpace (',' :: text) = ',' :: text :=
            fun _ => rfl
          have hothers := Respaces.readItems (next :: others) indent isObject
            rest (List.cons_ne_nil _ _) hplain.2
            (fun hlist key child hmem => hkeys hlist key child
              (List.mem_cons_of_mem _ hmem))
            (fun child hmem => hgood child (List.mem_cons_of_mem _ hmem))
            (by omega : costOf (next :: others) ≤ fuel)
          simp only [List.isEmpty_cons, Bool.false_eq_true, if_false,
            List.singleton_append, hcomma, hskip, if_true]
          rw [readItems_congr _ _ (respaces.space '\n' (by decide) _), hothers]
          rfl

end

/-- What a text is after its first spaces is no longer than the text, whatever
its spaces become. -/
theorem Respaces.length_space {c : Char} (hspace : c ∈ " \n".toList)
    (rest : Text) : (skipSpace (respace rest)).length ≤
      (respace (c :: rest)).length := by
  rw [← respaces.space c hspace rest]
  exact length_skipSpace_le _

mutual

/-- Reading takes a few calls for each character that is left. -/
theorem Respaces.cost_lt (tree : Ptree) {indent : Nat} (rest : Text)
    (hindent : 0 < indent) (hgood : Holds good tree) :
    cost tree + 4 * (skipSpace (respace rest)).length <
      4 * (skipSpace (respace
        (write quoted true indent tree ++ rest))).length := by
  have hskip := length_skipSpace_le (respace rest)
  rw [(respaces.begins hindent hgood.1 rest).skipSpace]
  match tree with
  | .node data [] =>
      have hleaf : write quoted true indent (.node data []) = quoted data := by
        rw [write]
        simp [hindent]
      rw [hleaf, respaces.string data rest (hgood.1 data (by simp [values])),
        cost, costOf, quoted]
      simp only [List.length_append, List.length_cons, List.length_nil]
      omega
  | .node data (child :: others) =>
      have hgood := (holds_of_children (List.cons_ne_nil _ _)).mp hgood
      have hchildren := Respaces.costOf_le (child :: others)
        (padding true indent ++
          Json.closing (!isArray indent (child :: others)) :: rest)
        (Nat.succ_pos indent) (!isArray indent (child :: others)) hgood
      rw [respaces.blank fun c => mem_padding, respaces.closing,
        skipSpace_mark, List.length_cons, Nat.succ_eq_add_one] at hchildren
      have hline := respaces.length_space (by decide : '\n' ∈ " \n".toList)
        (writeChildren quoted true (indent + 1)
          (!isArray indent (child :: others)) (child :: others) ++
            (padding true indent ++
              Json.closing (!isArray indent (child :: others)) :: rest))
      have hopen : ∀ text, respace ((if isArray indent (child :: others)
          then '[' else '\x7b') :: text) = (if isArray indent
            (child :: others) then '[' else '\x7b') :: respace text := by
        cases isArray indent (child :: others) with
        | true => exact respaces.mark '[' (by decide)
        | false => exact respaces.mark '\x7b' (by decide)
      rw [write_lines (List.cons_ne_nil _ _), hopen, List.length_cons, cost]
      omega

theorem Respaces.costOf_le (children : List (Text × Ptree)) {indent : Nat}
    (rest : Text) (hindent : 0 < indent) (isObject : Bool)
    (hgood : HoldsOf good children) :
    costOf children + 4 * (skipSpace (respace rest)).length ≤
      4 * (skipSpace (respace
        (writeChildren quoted true indent isObject children ++
          rest))).length := by
  match children with
  | [] =>
      rw [costOf, writeChildren, List.nil_append]
      omega
  | (key, child) :: others =>
      obtain ⟨hkey, hchild⟩ := hgood _ List.mem_cons_self
      have hothers := Respaces.costOf_le others rest hindent isObject
        fun child hmem => hgood child (List.mem_cons_of_mem _ hmem)
      have hfirst := Respaces.cost_lt child
        ((if others.isEmpty then [] else [',']) ++
          ('\n' :: (writeChildren quoted true indent isObject others ++ rest)))
        hindent hchild
      have hcomma : (skipSpace (respace (writeChildren quoted true indent
          isObject others ++ rest))).length ≤
          (skipSpace (respace ((if others.isEmpty then [] else [',']) ++
            ('\n' :: (writeChildren quoted true indent isObject others ++
              rest))))).length := by
        cases others with
        | nil =>
            simp only [List.isEmpty_nil, if_true, List.nil_append]
            rw [respaces.space '\n' (by decide)]
        | cons next others =>
            have hskip : ∀ text, skipSpace (',' :: text) = ',' :: text :=
              fun _ => rfl
            have hlength := respaces.length_space
              (by decide : '\n' ∈ " \n".toList)
              (writeChildren quoted true indent isObject (next :: others) ++
                rest)
            simp only [List.isEmpty_cons, Bool.false_eq_true, if_false,
              List.singleton_append]
            rw [respaces.mark ',' (by decide), hskip, List.length_cons]
            omega
      rw [respaces.children, costOf]
      cases isObject with
      | true =>
          have hvalue := respaces.length_space (by decide : ' ' ∈ " \n".toList)
            (write quoted true indent child ++
              ((if others.isEmpty then [] else [',']) ++
                ('\n' :: (writeChildren quoted true indent true others ++
                  rest))))
          rw [respaces.label hkey, ((begins_quoted _).append _).skipSpace,
            quoted]
          simp only [List.length_append, List.length_cons, List.length_nil]
          omega
      | false =>
          rw [Json.label]
          simp only [Bool.false_eq_true, if_false, List.nil_append]
          omega

end

/-- The fuel of the reader is enough for the root. -/
theorem Respaces.cost_root_le {children : List (Text × Ptree)}
    (hsome : children ≠ []) (hgood : HoldsOf good children) (rest : Text) :
    cost (.node [] children) ≤
      4 * (respace (write quoted true 0 (.node [] children) ++ rest)).length := by
  have hchildren := respaces.costOf_le children
    (padding true 0 ++ Json.closing (!isArray 0 children) :: rest)
    Nat.one_pos (!isArray 0 children) hgood
  have hline := respaces.length_space (by decide : '\n' ∈ " \n".toList)
    (writeChildren quoted true 1 (!isArray 0 children) children ++
      (padding true 0 ++ Json.closing (!isArray 0 children) :: rest))
  have hroot : isArray 0 children = false := rfl
  rw [write_lines hsome, hroot]
  rw [hroot] at hchildren hline
  simp only [Bool.false_eq_true, if_false, cost, Nat.zero_add]
  rw [respaces.mark '\x7b' (by decide), List.length_cons]
  omega

/-- What has been written on several lines is read back, whatever becomes of
the spaces, as what becomes of the tree. -/
theorem Respaces.readJson {children : List (Text × Ptree)}
    (hplain : plainChildren children = true) (hgood : HoldsOf good children) :
    Json.readJson (respace
        (write quoted true 0 (.node [] children) ++ lineEnd true)) =
      some ((Ptree.node [] children).mapTexts change) := by
  have hline : skipSpace (respace (lineEnd true)) = [] := by
    change skipSpace (respace ['\n']) = []
    rw [respaces.space '\n' (by decide), respaces.nil]
    rfl
  by_cases hsome : children = []
  · subst hsome
    have hwritten : write quoted true 0 (.node [] []) ++ lineEnd true =
        '\x7b' :: '\n' :: '\x7d' :: lineEnd true := rfl
    have hclosing : respace ('\x7d' :: lineEnd true) =
        '\x7d' :: respace (lineEnd true) := respaces.mark '\x7d' (by decide) _
    obtain ⟨fuel, hfuel⟩ : ∃ less, 4 * ('\x7b' :: respace
        ('\n' :: '\x7d' :: lineEnd true)).length = less + 2 :=
      Nat.exists_eq_add_of_le' (by rw [List.length_cons]; omega)
    have hchildren : readChildren (fuel + 1) true
        (respace ('\n' :: '\x7d' :: lineEnd true)) =
          some (Ptree.empty, respace (lineEnd true)) := by
      rw [readChildren_congr _ _ (respaces.space '\n' (by decide) _), hclosing]
      rfl
    have hread : Json.readValue (fuel + 2) ('\x7b' :: respace
        ('\n' :: '\x7d' :: lineEnd true)) =
          some (Ptree.empty, respace (lineEnd true)) := hchildren
    rw [hwritten, respaces.mark '\x7b' (by decide), Json.readJson, hfuel, hread,
      Ptree.mapTexts, respaces.empty]
    simp only [hline, if_true]
    rfl
  · have hread := respaces.readValue (.node [] children) 0 (lineEnd true)
      (.inr hsome) (by rwa [plainNodes, List.isEmpty_nil, Bool.true_or,
        Bool.true_and]) ((holds_of_children hsome).mpr hgood)
      (respaces.cost_root_le hsome hgood (lineEnd true))
    rw [Json.readJson, hread]
    simp only [hline, if_true]

end Pretty

end Json

end Margot
