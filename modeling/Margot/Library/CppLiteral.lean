/-
String literals of C++: what the characters between the quotes stand for.  An
escape that is not listed stands for the character after the backslash.
-/
import Margot.Library.Text

namespace Margot

namespace CppLiteral

/-- What the characters that have been read since a backslash are. -/
inductive Mode where
  | plain
  | escape
  | octal (digits : Nat) (value : Nat)
  | hex (digits : Nat) (value : Nat)
  | universal (left : Nat) (value : Nat)
deriving Repr, DecidableEq

def octalDigit (c : Char) : Option Nat :=
  if '0' ≤ c ∧ c ≤ '7' then some (c.toNat - '0'.toNat) else none

def hexDigit (c : Char) : Option Nat :=
  if '0' ≤ c ∧ c ≤ '9' then some (c.toNat - '0'.toNat)
  else if 'a' ≤ c ∧ c ≤ 'f' then some (c.toNat - 'a'.toNat + 10)
  else if 'A' ≤ c ∧ c ≤ 'F' then some (c.toNat - 'A'.toNat + 10)
  else none

/-- The bytes of a code point in UTF-8. -/
def utf8 (value : Nat) : Text :=
  if value < 0x80 then [Char.ofNat value]
  else if value < 0x800 then
    [Char.ofNat (0xC0 + value / 64), Char.ofNat (0x80 + value % 64)]
  else if value < 0x10000 then
    [Char.ofNat (0xE0 + value / 4096), Char.ofNat (0x80 + value / 64 % 64),
      Char.ofNat (0x80 + value % 64)]
  else
    [Char.ofNat (0xF0 + value / 262144), Char.ofNat (0x80 + value / 4096 % 64),
      Char.ofNat (0x80 + value / 64 % 64), Char.ofNat (0x80 + value % 64)]

/-- Outside of an escape, a quote or the end of the line ends the literal. -/
def readPlain (c : Char) : Option (Text × Mode) :=
  if c = '\\' then some ([], .escape)
  else if c = '"' ∨ c = '\n' then none
  else some ([c], .plain)

/-- The character after a backslash. -/
def readEscape (c : Char) : Option (Text × Mode) :=
  if c = 'n' then some (['\n'], .plain)
  else if c = 't' then some (['\t'], .plain)
  else if c = 'r' then some (['\r'], .plain)
  else if c = 'a' then some (['\x07'], .plain)
  else if c = 'b' then some (['\x08'], .plain)
  else if c = 'f' then some (['\x0c'], .plain)
  else if c = 'v' then some (['\x0b'], .plain)
  else if c = 'x' then some ([], .hex 0 0)
  else if c = 'u' then some ([], .universal 4 0)
  else if c = 'U' then some ([], .universal 8 0)
  else
    match octalDigit c with
    | some digit => some ([], .octal 1 digit)
    | none => some ([c], .plain)

/-- An escape is over: its character comes before what is read next. -/
def after (value : Nat) (next : Option (Text × Mode)) : Option (Text × Mode) :=
  if value < 256 then next.map fun read => (Char.ofNat value :: read.1, read.2)
  else none

/-- What one more character stands for. -/
def read : Mode → Char → Option (Text × Mode)
  | .plain, c => readPlain c
  | .escape, c => readEscape c
  | .octal digits value, c =>
      match octalDigit c with
      | some digit =>
          if digits < 3 then some ([], .octal (digits + 1) (value * 8 + digit))
          else after value (readPlain c)
      | none => after value (readPlain c)
  | .hex digits value, c =>
      match hexDigit c with
      | some digit => some ([], .hex (digits + 1) (value * 16 + digit))
      | none => if digits = 0 then none else after value (readPlain c)
  | .universal left value, c =>
      match hexDigit c with
      | some digit =>
          if left = 1 then some (utf8 (value * 16 + digit), .plain)
          else some ([], .universal (left - 1) (value * 16 + digit))
      | none => none

/-- What is left to say at the closing quote. -/
def close : Mode → Option Text
  | .plain => some []
  | .octal _ value => if value < 256 then some [Char.ofNat value] else none
  | .hex digits value =>
      if digits = 0 then none
      else if value < 256 then some [Char.ofNat value] else none
  | _ => none

def decodeFrom (mode : Mode) : Text → Option Text
  | [] => close mode
  | c :: rest =>
      match read mode c with
      | none => none
      | some next => (decodeFrom next.2 rest).map (next.1 ++ ·)

/-- The text that a literal stands for, `none` if the characters are not those
between the quotes of one literal. -/
def decode (body : Text) : Option Text := decodeFrom .plain body

theorem decode_cons_plain {c : Char} (hescape : c ≠ '\\') (hquote : c ≠ '"')
    (hline : c ≠ '\n') (rest : Text) :
    decode (c :: rest) = (decode rest).map (c :: ·) := by
  simp [decode, decodeFrom, read, readPlain, hescape, hquote, hline]

theorem decode_cons_quote (rest : Text) :
    decode ('\\' :: '"' :: rest) = (decode rest).map ('"' :: ·) := by
  simp [decode, decodeFrom, read, readPlain, readEscape, octalDigit,
    Option.map_map, Function.comp_def]

/-- What a part stands for, and how the characters after it are read. -/
def readAll (mode : Mode) : Text → Option (Text × Mode)
  | [] => some ([], mode)
  | c :: rest =>
      match read mode c with
      | none => none
      | some next => (readAll next.2 rest).map fun last =>
          (next.1 ++ last.1, last.2)

theorem decodeFrom_append (mode : Mode) (part rest : Text) :
    decodeFrom mode (part ++ rest) = (readAll mode part).bind fun last =>
      (decodeFrom last.2 rest).map (last.1 ++ ·) := by
  induction part generalizing mode with
  | nil => simp [readAll]
  | cons c part ih =>
      rw [List.cons_append, decodeFrom, readAll]
      cases read mode c with
      | none => rfl
      | some next =>
          simp only [ih, Option.map_bind, Option.bind_map]
          apply Option.bind_congr
          intro last _
          simp [Function.comp_def]

/-- A part that ends outside of an escape stands for itself. -/
theorem decode_append {part heard : Text}
    (hread : readAll .plain part = some (heard, .plain)) (rest : Text) :
    decode (part ++ rest) = (decode rest).map (heard ++ ·) := by
  rw [decode, decodeFrom_append, hread]
  rfl

/-- After a part that is no literal nothing is read. -/
theorem decode_append_none {part : Text} (hread : readAll .plain part = none)
    (rest : Text) : decode (part ++ rest) = none := by
  rw [decode, decodeFrom_append, hread]
  rfl

/-- Only the quotes are escaped. -/
def quoted (text : Text) : Text :=
  text.flatMap fun c => if c = '"' then ['\\', '"'] else [c]

/-- What the characters since a backslash have saved so far, in half
characters. -/
def credit : Mode → Nat
  | .plain => 0
  | .escape => 1
  | .octal _ _ => 2
  | .hex _ _ => 2
  | .universal left _ => 8 - 2 * left

/-- What one character costs: a backslash and a quote cost more. -/
def cost (c : Char) : Nat :=
  [c].count '\\' + [c].count '"'

/-- A text with nothing to escape stands for itself. -/
theorem decode_plain {body : Text}
    (hplain : ∀ c ∈ body, c ≠ '\\' ∧ c ≠ '"' ∧ c ≠ '\n') :
    decode body = some body := by
  induction body with
  | nil => rfl
  | cons c rest ih =>
      rw [List.forall_mem_cons] at hplain
      obtain ⟨⟨hescape, hquote, hline⟩, hrest⟩ := hplain
      rw [decode_cons_plain hescape hquote hline, ih hrest, Option.map_some]

section Length

variable {mode : Mode} {c : Char} {read' : Text × Mode}

theorem count_cons (a c : Char) (rest : Text) :
    (c :: rest).count a = [c].count a + rest.count a := by
  rw [← List.count_append, List.singleton_append]

theorem cost_le_one (c : Char) : cost c ≤ 1 := by
  by_cases hescape : c = '\\'
  · subst hescape
    decide
  · by_cases hquote : c = '"'
    · subst hquote
      decide
    · simp [cost, hescape, hquote]

theorem cost_of_hexDigit {digit : Nat} (hdigit : hexDigit c = some digit) :
    cost c = 0 := by
  have hescape : c ≠ '\\' := by
    rintro rfl
    have hnone : hexDigit '\\' = none := by decide
    rw [hnone] at hdigit
    contradiction
  have hquote : c ≠ '"' := by
    rintro rfl
    have hnone : hexDigit '"' = none := by decide
    rw [hnone] at hdigit
    contradiction
  simp [cost, hescape, hquote]

theorem length_utf8_le (value : Nat) : (utf8 value).length ≤ 4 := by
  rw [utf8]
  split
  · simp
  · split
    · simp
    · split
      · simp
      · simp

theorem readPlain_pays (hread : readPlain c = some read') :
    2 * read'.1.length + cost c + credit read'.2 ≤ 2 := by
  rw [readPlain] at hread
  split at hread
  · next hescape =>
      obtain rfl := Option.some.inj hread
      subst hescape
      decide
  · next hescape =>
      split at hread
      · contradiction
      · next hplain =>
          obtain rfl := Option.some.inj hread
          have hquote : c ≠ '"' := fun hquote => hplain (.inl hquote)
          simp [cost, credit, hescape, hquote]

theorem readEscape_pays (hread : readEscape c = some read') :
    2 * read'.1.length + cost c + credit read'.2 ≤ 3 := by
  have hcost := cost_le_one c
  have hpiece : 2 * read'.1.length + credit read'.2 ≤ 2 := by
    rw [readEscape] at hread
    split_ifs at hread
    case neg =>
      split at hread
      · obtain rfl := Option.some.inj hread
        exact le_rfl
      · obtain rfl := Option.some.inj hread
        exact le_rfl
    all_goals
      obtain rfl := Option.some.inj hread
      decide
  omega

theorem after_pays {value : Nat} (hafter : after value (readPlain c) = some read') :
    2 * read'.1.length + cost c + credit read'.2 ≤ 4 := by
  rw [after] at hafter
  split at hafter
  · obtain ⟨next, hnext, rfl⟩ := Option.map_eq_some_iff.mp hafter
    have hpays := readPlain_pays hnext
    simp only [List.length_cons]
    omega
  · contradiction

/-- What is written and the cost of the character are paid by the character and
the credit. -/
theorem read_pays (hread : read mode c = some read') :
    2 * read'.1.length + cost c + credit read'.2 ≤ 2 + credit mode := by
  have hcost := cost_le_one c
  cases mode with
  | plain => exact readPlain_pays hread
  | escape => exact readEscape_pays hread
  | octal digits value =>
      simp only [read] at hread
      split at hread
      · split at hread
        · obtain rfl := Option.some.inj hread
          simp only [credit, List.length_nil]
          omega
        · exact after_pays hread
      · exact after_pays hread
  | hex digits value =>
      simp only [read] at hread
      split at hread
      · obtain rfl := Option.some.inj hread
        simp only [credit, List.length_nil]
        omega
      · split at hread
        · contradiction
        · exact after_pays hread
  | universal left value =>
      simp only [read] at hread
      split at hread
      · next digit hdigit =>
          have hfree := cost_of_hexDigit hdigit
          split at hread
          · next hlast =>
              obtain rfl := Option.some.inj hread
              have hutf8 := length_utf8_le (value * 16 + digit)
              simp only [credit, hlast]
              omega
          · obtain rfl := Option.some.inj hread
            simp only [credit, List.length_nil]
            omega
      · contradiction

theorem close_pays {out : Text} (hclose : close mode = some out) :
    2 * out.length ≤ credit mode := by
  cases mode with
  | plain =>
      obtain rfl := Option.some.inj hclose
      exact le_rfl
  | escape => contradiction
  | octal digits value =>
      simp only [close] at hclose
      split at hclose
      · obtain rfl := Option.some.inj hclose
        exact le_rfl
      · contradiction
  | hex digits value =>
      simp only [close] at hclose
      split at hclose
      · contradiction
      · split at hclose
        · obtain rfl := Option.some.inj hclose
          exact le_rfl
        · contradiction
  | universal left value => contradiction

/-- A literal stands for a text that is shorter by half a character at least
for each backslash and each quote. -/
theorem length_decodeFrom_le {body out : Text}
    (hdecode : decodeFrom mode body = some out) :
    2 * out.length + (body.count '\\' + body.count '"') ≤
      2 * body.length + credit mode := by
  induction body generalizing mode out with
  | nil =>
      have hpays := close_pays hdecode
      simpa using hpays
  | cons c rest ih =>
      rw [decodeFrom] at hdecode
      split at hdecode
      · contradiction
      · next next hread =>
          obtain ⟨tail, htail, rfl⟩ := Option.map_eq_some_iff.mp hdecode
          have hpays := read_pays hread
          have hrest := ih htail
          rw [cost] at hpays
          rw [List.length_append, List.length_cons, count_cons '\\' c rest,
            count_cons '"' c rest]
          omega

end Length

section Quoted

theorem quoted_cons (c : Char) (rest : Text) :
    quoted (c :: rest) =
      (if c = '"' then ['\\', '"'] else [c]) ++ quoted rest :=
  List.flatMap_cons

theorem count_quote_quoted (text : Text) :
    (quoted text).count '"' = text.count '"' := by
  induction text with
  | nil => rfl
  | cons c rest ih =>
      have hunit : (if c = '"' then ['\\', '"'] else [c]).count '"' =
          [c].count '"' := by
        split
        · next hquote =>
            subst hquote
            decide
        · rfl
      rw [quoted_cons, List.count_append, ih, hunit, count_cons _ c rest]

theorem count_backslash_quoted (text : Text) :
    (quoted text).count '\\' = text.count '\\' + text.count '"' := by
  induction text with
  | nil => rfl
  | cons c rest ih =>
      have hunit : (if c = '"' then ['\\', '"'] else [c]).count '\\' =
          [c].count '\\' + [c].count '"' := by
        split
        · next hquote =>
            subst hquote
            decide
        · next hquote => simp [hquote]
      rw [quoted_cons, List.count_append, ih, hunit, count_cons '\\' c rest,
        count_cons '"' c rest]
      omega

/-- There is one more character for each quote. -/
theorem length_quoted (text : Text) :
    (quoted text).length = text.length + text.count '"' := by
  induction text with
  | nil => rfl
  | cons c rest ih =>
      have hunit : (if c = '"' then ['\\', '"'] else [c]).length =
          1 + [c].count '"' := by
        split
        · next hquote =>
            subst hquote
            decide
        · next hquote => simp [hquote]
      rw [quoted_cons, List.length_append, ih, hunit, count_cons _ c rest,
        List.length_cons]
      omega

theorem decode_quoted {text : Text}
    (hplain : ∀ c ∈ text, c ≠ '\\' ∧ c ≠ '\n') :
    decode (quoted text) = some text := by
  induction text with
  | nil => rfl
  | cons c rest ih =>
      rw [List.forall_mem_cons] at hplain
      obtain ⟨⟨hescape, hline⟩, hrest⟩ := hplain
      rw [quoted_cons]
      by_cases hquote : c = '"'
      · subst hquote
        rw [if_pos rfl]
        change decode ('\\' :: '"' :: quoted rest) = _
        rw [decode_cons_quote, ih hrest, Option.map_some]
      · rw [if_neg hquote, List.singleton_append,
          decode_cons_plain hescape hquote hline, ih hrest, Option.map_some]

/-- With only its quotes escaped, a text on one line stands for itself exactly
when it has no backslash. -/
theorem decode_quoted_iff {text : Text} (hline : '\n' ∉ text) :
    decode (quoted text) = some text ↔ '\\' ∉ text := by
  constructor
  · intro hdecode
    have hlength : 2 * text.length + ((quoted text).count '\\' +
        (quoted text).count '"') ≤ 2 * (quoted text).length + credit .plain :=
      length_decodeFrom_le hdecode
    rw [length_quoted, count_quote_quoted, count_backslash_quoted] at hlength
    apply List.count_eq_zero.mp
    simp only [credit] at hlength
    omega
  · intro hescape
    apply decode_quoted
    intro c hc
    exact ⟨fun h => hescape (h ▸ hc), fun h => hline (h ▸ hc)⟩

end Quoted

end CppLiteral

end Margot
