/-
Tables of comma-separated values: what is written for a table, and readers that
give a table back as its rows.
-/
import Margot.Library.Checked

namespace Margot

namespace Csv

inductive Cell where
  | plain (value : Text)
  | quoted (value : Text)
deriving Repr, DecidableEq

def Cell.value : Cell → Text
  | plain value => value
  | quoted value => value

def Cell.text : Cell → Text
  | plain value => value
  | quoted value => '"' :: value ++ ['"']

def line (cells : List Cell) : Text := [','].intercalate (cells.map Cell.text)

def table (header : List Text) (rows : List (List Cell)) : Text :=
  (header.map .plain :: rows).flatMap fun row => line row ++ ['\n']

/-- A value without separators, quotes and line breaks. -/
def Clean (value : Text) : Prop := ∀ c ∈ value, c ∉ [',', '"', '\n', '\r']

instance (value : Text) : Decidable (Clean value) :=
  decidableForallMem _ value

/-- The cells of a row by the names of their columns. -/
abbrev Row := List (Text × Text)

/-- A row as it is read. -/
def row (header : List Text) (cells : List Cell) : Row :=
  header.zip (cells.map Cell.value)

/-- A table whose rows are as long as its header, with clean values. -/
structure WellFormed (header : List Text) (rows : List (List Cell)) :
    Prop where
  columns : 2 ≤ header.length
  names : ∀ name ∈ header, Clean name
  lengths : ∀ cells ∈ rows, cells.length = header.length
  values : ∀ cells ∈ rows, ∀ cell ∈ cells, Clean cell.value

/-- A reader of files that reads every well-formed table. -/
structure Reader where
  read : Text → Checked (List Row)
  read_table : ∀ {header : List Text} {rows : List (List Cell)},
    WellFormed header rows → read (table header rows) = .ok (rows.map (row header))

/-- A reader that reads tables of one column too, without their blank lines. -/
structure LineReader extends Reader where
  read_column : ∀ {name : Text} {values : List Text}, name ≠ [] → Clean name →
    (∀ value ∈ values, Clean value) →
    read (table [name] (values.map fun value => [.plain value])) =
      .ok ((values.filter (· ≠ [])).map fun value => [(name, value)])

/-- The value in the first column of a name. -/
def getFirst (column : Text) (cells : Row) : Checked Text :=
  match cells.lookup column with
  | some value => .ok value
  | none => .error "Can't find a column named".toList

/-- `CSVRow::operator[]`: the positions are kept in a map by the names of the
columns, so that of the columns with one name the last one is found. -/
def get (column : Text) (cells : Row) : Checked Text :=
  getFirst column cells.reverse

section Columns

/-- A line of values is read with the names of its columns. -/
theorem row_columns (columns : Row) :
    row (columns.map Prod.fst) (columns.map fun column => .plain column.2) =
      columns := by
  rw [row, List.map_map, List.zip_map']
  exact List.map_id _

/-- The table of lines that are given by their columns. -/
def columnTable {A : Type} (header : List Text) (columns : A → Row)
    (elements : List A) : Text :=
  table header (elements.map fun element =>
    (columns element).map fun column => .plain column.2)

/-- What is found in the first column of a name. -/
def first (columns : Row) (name : Text) : Text := (columns.lookup name).getD []

/-- What is found in the last column of a name. -/
def last (columns : Row) (name : Text) : Text := first columns.reverse name

variable {columns rest : Row} {name value : Text}

theorem lookup_eq_first (hname : name ∈ columns.map Prod.fst) :
    columns.lookup name = some (first columns name) := by
  obtain ⟨column, hcolumn, rfl⟩ := List.mem_map.mp hname
  obtain ⟨value, hvalue⟩ := Option.isSome_iff_exists.mp
    (List.lookup_isSome_iff.mpr ⟨column, hcolumn, beq_self_eq_true _⟩)
  rw [first, hvalue, Option.getD_some]

theorem getFirst_columns (hname : name ∈ columns.map Prod.fst) :
    getFirst name columns = .ok (first columns name) := by
  rw [getFirst, lookup_eq_first hname]

theorem get_columns (hname : name ∈ columns.map Prod.fst) :
    get name columns = .ok (last columns name) := by
  apply getFirst_columns
  rwa [List.map_reverse, List.mem_reverse]

theorem first_cons_self (name value : Text) (rest : Row) :
    first ((name, value) :: rest) name = value := by
  rw [first, List.lookup_cons_self, Option.getD_some]

/-- A later column of the name hides the one before it. -/
theorem last_cons_of_mem (column : Text × Text)
    (hname : name ∈ rest.map Prod.fst) :
    last (column :: rest) name = last rest name := by
  have hreverse : name ∈ rest.reverse.map Prod.fst := by
    rwa [List.map_reverse, List.mem_reverse]
  rw [last, last, first, List.reverse_cons, List.lookup_append,
    lookup_eq_first hreverse, Option.some_or, Option.getD_some]

theorem last_cons_of_not_mem (hname : name ∉ rest.map Prod.fst) :
    last ((name, value) :: rest) name = value := by
  have hnone : rest.reverse.lookup name = none := by
    rw [List.lookup_eq_none_iff]
    intro column hcolumn
    have hmem := List.mem_map_of_mem (f := Prod.fst)
      (List.mem_reverse.mp hcolumn)
    simpa using fun heq : name = column.1 => hname (heq ▸ hmem)
  rw [last, first, List.reverse_cons, List.lookup_append, hnone, Option.none_or,
    List.lookup_cons_self, Option.getD_some]

/-- The columns whose values depend on their names only. -/
theorem last_map {A : Type} (key : A → Text) (value : Text → Text)
    {elements : List A} {name : Text} (hname : name ∈ elements.map key) :
    last (elements.map fun element => (key element, value (key element)))
      name = value name := by
  induction elements with
  | nil => contradiction
  | cons element rest ih =>
      rw [List.map_cons]
      by_cases hrest : name ∈ rest.map key
      · rw [last_cons_of_mem _ (by simpa using hrest)]
        exact ih hrest
      · obtain rfl := (List.mem_cons.mp hname).resolve_right hrest
        exact last_cons_of_not_mem (by simpa using hrest)

end Columns

section Splitting

/-- The value between the quotes, if there are any. -/
def unquote : Text → Text
  | '"' :: rest => rest.dropLast
  | value => value

def splitLine (text : Text) : List Text := (text.splitOn ',').map unquote

/-- Reading by splitting at every line break and every comma. -/
def split (content : Text) : List Row :=
  match (content.splitOn '\n').dropLast with
  | [] => []
  | header :: lines => lines.map fun text => (splitLine header).zip (splitLine text)

theorem not_mem_text {cell : Cell} (hclean : Clean cell.value) :
    ',' ∉ cell.text ∧ '\n' ∉ cell.text := by
  have hvalue : ',' ∉ cell.value ∧ '\n' ∉ cell.value :=
    ⟨fun hmem => hclean _ hmem (by simp), fun hmem => hclean _ hmem (by simp)⟩
  cases cell with
  | plain value => exact hvalue
  | quoted value => simpa [Cell.text, Cell.value] using hvalue

theorem unquote_text {cell : Cell} (hclean : Clean cell.value) :
    unquote cell.text = cell.value := by
  cases cell with
  | plain value =>
      have hquote : '"' ∉ value := fun hmem => hclean _ hmem (by simp)
      cases value with
      | nil => rfl
      | cons c rest =>
          have hc : c ≠ '"' := fun heq => hquote (heq ▸ List.mem_cons_self)
          simp only [Cell.text, Cell.value]
          unfold unquote
          split
          · next heq => exact absurd (List.cons.inj heq).1 hc
          · rfl
  | quoted value => simp [Cell.text, Cell.value, unquote]

theorem splitLine_line {cells : List Cell} (hsome : cells ≠ [])
    (hclean : ∀ cell ∈ cells, Clean cell.value) :
    splitLine (line cells) = cells.map Cell.value := by
  have hsplit : (line cells).splitOn ',' = cells.map Cell.text := by
    apply List.splitOn_intercalate
    · intro text hmem
      obtain ⟨cell, hcell, rfl⟩ := List.mem_map.mp hmem
      exact (not_mem_text (hclean cell hcell)).1
    · simpa using hsome
  rw [splitLine, hsplit, List.map_map]
  exact List.map_congr_left fun cell hmem => unquote_text (hclean cell hmem)

theorem not_mem_line {cells : List Cell}
    (hclean : ∀ cell ∈ cells, Clean cell.value) : '\n' ∉ line cells := by
  intro hmem
  rcases mem_of_mem_intercalate hmem with hcomma | ⟨text, htext, hmem⟩
  · contradiction
  · obtain ⟨cell, hcell, rfl⟩ := List.mem_map.mp htext
    exact (not_mem_text (hclean cell hcell)).2 hmem

/-- Every line of a table is found again. -/
theorem splitOn_table {rows : List (List Cell)}
    (hclean : ∀ cells ∈ rows, ∀ cell ∈ cells, Clean cell.value) :
    (rows.flatMap fun cells => line cells ++ ['\n']).splitOn '\n' =
      rows.map line ++ [[]] := by
  induction rows with
  | nil => rfl
  | cons cells rest ih =>
      rw [List.forall_mem_cons] at hclean
      rw [List.flatMap_cons, List.append_assoc, List.singleton_append,
        List.splitOn_append_cons_self_of_not_mem (not_mem_line hclean.1),
        ih hclean.2]
      rfl

theorem splitLine_header {header : List Text} (hsome : header ≠ [])
    (hnames : ∀ name ∈ header, Clean name) :
    splitLine (line (header.map .plain)) = header := by
  rw [splitLine_line (by simpa using hsome), List.map_map]
  · exact List.map_id _
  · intro cell hcell
    obtain ⟨name, hname, rfl⟩ := List.mem_map.mp hcell
    exact hnames name hname

namespace WellFormed

variable {header : List Text} {rows : List (List Cell)}

theorem header_ne_nil (hwell : WellFormed header rows) : header ≠ [] := by
  rintro rfl
  have hcolumns := hwell.columns
  contradiction

theorem columns_of_mem (hwell : WellFormed header rows) {cells : List Cell}
    (hcells : cells ∈ rows) : 2 ≤ cells.length := by
  rw [hwell.lengths cells hcells]
  exact hwell.columns

theorem splitLine_row (hwell : WellFormed header rows) {cells : List Cell}
    (hcells : cells ∈ rows) :
    splitLine (line cells) = cells.map Cell.value := by
  apply splitLine_line _ (hwell.values cells hcells)
  rintro rfl
  exact absurd (hwell.columns_of_mem hcells) (by simp)

theorem clean_cells (hwell : WellFormed header rows) :
    ∀ cells ∈ header.map Cell.plain :: rows, ∀ cell ∈ cells,
      Clean cell.value := by
  apply List.forall_mem_cons.mpr ⟨?_, hwell.values⟩
  intro cell hcell
  obtain ⟨name, hname, rfl⟩ := List.mem_map.mp hcell
  exact hwell.names name hname

end WellFormed

theorem split_table {header : List Text} {rows : List (List Cell)}
    (hwell : WellFormed header rows) :
    split (table header rows) = rows.map (row header) := by
  have hsplit := splitLine_header hwell.header_ne_nil hwell.names
  rw [split, table, splitOn_table hwell.clean_cells, List.map_cons,
    List.dropLast_concat]
  simp only [List.map_map, hsplit]
  apply List.map_congr_left
  intro cells hcells
  rw [Function.comp_apply, hwell.splitLine_row hcells]
  rfl

/-- The table that the lines make, if they begin with a header. -/
def rowsOf : List Text → List Row
  | [] => []
  | header :: lines => lines.map fun text => (splitLine header).zip (splitLine text)

theorem rowsOf_lines {header : List Text} {rows : List (List Cell)}
    (hheader : splitLine (line (header.map .plain)) = header)
    (hrows : ∀ cells ∈ rows, splitLine (line cells) = cells.map Cell.value) :
    rowsOf ((header.map .plain :: rows).map line) = rows.map (row header) := by
  rw [List.map_cons, rowsOf, hheader, List.map_map]
  apply List.map_congr_left
  intro cells hcells
  rw [Function.comp_apply, hrows cells hcells]
  rfl

/-- Reading by splitting, where blank lines are passed over. -/
def splitLines (content : Text) : List Row :=
  rowsOf ((content.splitOn '\n').filter (· ≠ []))

theorem line_ne_nil {cells : List Cell} (hcolumns : 2 ≤ cells.length) :
    line cells ≠ [] := by
  match cells, hcolumns with
  | first :: second :: rest, _ => simp [line, List.intercalate_cons_cons]

theorem splitLines_table {header : List Text} {rows : List (List Cell)}
    (hwell : WellFormed header rows) :
    splitLines (table header rows) = rows.map (row header) := by
  have hlines : ∀ cells ∈ header.map Cell.plain :: rows, line cells ≠ [] := by
    rw [List.forall_mem_cons]
    exact ⟨line_ne_nil (by simpa using hwell.columns),
      fun cells hcells => line_ne_nil (hwell.columns_of_mem hcells)⟩
  have hkept : ((header.map Cell.plain :: rows).map line ++ [[]]).filter
      (· ≠ []) = (header.map Cell.plain :: rows).map line := by
    rw [List.filter_append, List.filter_eq_self.mpr]
    · simp
    · intro text htext
      obtain ⟨cells, hcells, rfl⟩ := List.mem_map.mp htext
      simpa using hlines cells hcells
  rw [splitLines, table, splitOn_table hwell.clean_cells, hkept]
  exact rowsOf_lines (splitLine_header hwell.header_ne_nil hwell.names)
    fun cells hcells => hwell.splitLine_row hcells

theorem splitLines_column {name : Text} {values : List Text} (hname : name ≠ [])
    (hclean : Clean name) (hvalues : ∀ value ∈ values, Clean value) :
    splitLines (table [name] (values.map fun value => [.plain value])) =
      (values.filter (· ≠ [])).map fun value => [(name, value)] := by
  have hcells : ∀ cells ∈ [Cell.plain name] ::
      values.map fun value => [Cell.plain value], ∀ cell ∈ cells,
        Clean cell.value := by
    rw [List.forall_mem_cons]
    refine ⟨List.forall_mem_singleton.mpr hclean, fun cells hmem => ?_⟩
    obtain ⟨value, hvalue, rfl⟩ := List.mem_map.mp hmem
    exact List.forall_mem_singleton.mpr (hvalues value hvalue)
  have hline : ∀ value : Text, line [.plain value] = value := by
    intro value
    simp [line, Cell.text]
  have hkept : (([Cell.plain name] :: values.map fun value =>
      [Cell.plain value]).map line ++ [[]]).filter (· ≠ []) =
        ([name].map Cell.plain :: (values.filter (· ≠ [])).map fun value =>
          [Cell.plain value]).map line := by
    simp [Function.comp_def, hline, hname]
  rw [splitLines, table, List.map_singleton, splitOn_table hcells, hkept,
    rowsOf_lines (splitLine_header (by simp) (by simpa using hclean))]
  · rw [List.map_map]
    rfl
  · intro cells hmem
    obtain ⟨value, hvalue, rfl⟩ := List.mem_map.mp hmem
    apply splitLine_line (by simp)
    exact List.forall_mem_singleton.mpr
      (hvalues value (List.mem_of_mem_filter hvalue))

/-- The reader that splits, and passes over blank lines. -/
def splittingLines : LineReader where
  read content := .ok (splitLines content)
  read_table hwell := congrArg Except.ok (splitLines_table hwell)
  read_column hname hclean hvalues :=
    congrArg Except.ok (splitLines_column hname hclean hvalues)

/-- The reader that splits. -/
def splitting : Reader where
  read content := .ok (split content)
  read_table hwell := congrArg Except.ok (split_table hwell)

end Splitting

end Csv

end Margot
