/-
Texts as lists of characters, and the conversions of the standard library that
the programs apply to them.
-/
import Mathlib.Algebra.Group.Int.Defs
import Mathlib.Algebra.Group.Nat.Defs
import Mathlib.Data.Char
import Mathlib.Data.List.Basic
import Mathlib.Data.List.DropRight
import Mathlib.Data.List.Lex

namespace Margot

/-- A `std::string`: its characters in order. -/
abbrev Text := List Char

/-- A text is checked character by character. -/
instance decidableForallMem (p : Char → Prop) [DecidablePred p]
    (text : Text) : Decidable (∀ c ∈ text, p c) :=
  List.decidableBAll p text

/-- `std::isspace` in the default locale. -/
def isSpace (c : Char) : Bool :=
  c == ' ' || c == '\t' || c == '\n' || c == '\x0b' || c == '\x0c' || c == '\r'

/-- Of every run of spaces only the first one is kept. -/
def collapseFrom (spaced : Bool) : Text → Text
  | [] => []
  | c :: rest =>
      if spaced && isSpace c then collapseFrom true rest
      else c :: collapseFrom (isSpace c) rest

def collapseSpaces (text : Text) : Text := collapseFrom false text

/-- `boost::trim` -/
def trim (text : Text) : Text :=
  (text.dropWhile isSpace).rdropWhile isSpace

/-- The longest numeral at the beginning of the text. -/
def leadingInteger (text : Text) : Option Int :=
  let trimmed := text.dropWhile isSpace
  let unsigned :=
    match trimmed with
    | '-' :: rest => rest
    | '+' :: rest => rest
    | rest => rest
  let digits := unsigned.takeWhile Char.isDigit
  let magnitude : Int := Nat.ofDigitChars 10 digits 0
  if digits = [] then none
  else some (if trimmed.head? = some '-' then -magnitude else magnitude)

/-- `std::stoi`, `none` where it throws. -/
def stoi (text : Text) : Option Int :=
  (leadingInteger text).filter fun value => -2 ^ 31 ≤ value ∧ value < 2 ^ 31

/-- A decimal numeral, as `std::to_string` writes it. -/
def numeral (n : Nat) : Text := Nat.toDigits 10 n

/-- The first character that is not one of those given. -/
def findFirstNotOf (accepted text : Text) : Option Char :=
  text.find? fun c => !accepted.contains c

/-- A text that begins with a numeral: blanks, a sign, digits, and the rest. -/
structure LeadingNumeral (text : Text) where
  blanks : Text
  sign : Text
  digits : Text
  rest : Text
  parts : text = blanks ++ (sign ++ (digits ++ rest))
  blanks_space : ∀ c ∈ blanks, isSpace c = true
  sign_mem : sign ∈ [[], ['+'], ['-']]
  digits_ne_nil : digits ≠ []
  digits_digit : ∀ c ∈ digits, c.isDigit = true
  rest_head : ∀ c ∈ rest.head?, c.isDigit = false

def LeadingNumeral.value {text : Text} (n : LeadingNumeral text) : Int :=
  if n.sign = ['-'] then -(Nat.ofDigitChars 10 n.digits 0 : Int)
  else (Nat.ofDigitChars 10 n.digits 0 : Int)

section Rules

theorem isDigit_of_mem_numeral {n : Nat} {c : Char} (hc : c ∈ numeral n) :
    c.isDigit = true :=
  Nat.isDigit_of_mem_toDigits (by decide) (le_refl _) hc

theorem numeral_injective : Function.Injective numeral := by
  intro m n hsame
  have hvalue := congrArg (fun digits => Nat.ofDigitChars 10 digits 0) hsame
  simpa [numeral] using hvalue

theorem numeral_ne_nil (n : Nat) : numeral n ≠ [] := Nat.toDigits_ne_nil

/-- A numeral begins with a zero only if it is that of zero. -/
theorem head_numeral_ne_zero {n : Nat} (hpos : 0 < n) :
    (numeral n).head? ≠ some '0' := by
  induction n using Nat.strongRecOn with
  | ind n ih =>
      by_cases hsmall : n < 10
      · rw [numeral, Nat.toDigits_of_lt_base hsmall]
        have hdigits : ∀ n < 10, 0 < n → [n.digitChar].head? ≠ some '0' := by
          decide
        exact hdigits n hsmall hpos
      · have hless : n / 10 < n := by omega
        have hhead := ih (n / 10) hless (by omega)
        rw [numeral, Nat.toDigits_of_base_le (by decide) (by omega)]
        rwa [List.head?_append_of_ne_nil _ Nat.toDigits_ne_nil]

theorem not_isSpace_of_isDigit {c : Char} (hc : c.isDigit = true) :
    isSpace c = false := by
  by_contra hspace
  simp only [isSpace, Bool.not_eq_false, Bool.or_eq_true, beq_iff_eq] at hspace
  rcases hspace with ((((rfl | rfl) | rfl) | rfl) | rfl) | rfl
  all_goals contradiction

theorem takeWhile_append_of_head {p : Char → Bool} {first rest : Text}
    (hfirst : ∀ c ∈ first, p c = true) (hrest : ∀ c ∈ rest.head?, p c = false) :
    (first ++ rest).takeWhile p = first := by
  rw [List.takeWhile_append_of_pos hfirst]
  cases rest with
  | nil => simp
  | cons c rest =>
      have hc := hrest c rfl
      simp [hc]

/-- The value of a numeral at the beginning is read. -/
theorem leadingInteger_of_numeral {text : Text} (n : LeadingNumeral text) :
    leadingInteger text = some n.value := by
  obtain ⟨first, others, hdigits⟩ :=
    List.exists_cons_of_ne_nil n.digits_ne_nil
  have hfirst : first.isDigit = true :=
    n.digits_digit first (hdigits ▸ List.mem_cons_self)
  have hminus : first ≠ '-' := by
    rintro rfl
    contradiction
  have hplus : first ≠ '+' := by
    rintro rfl
    contradiction
  have hall := takeWhile_append_of_head n.digits_digit n.rest_head
  have htrimmed : text.dropWhile isSpace = n.sign ++ (n.digits ++ n.rest) := by
    rw [congrArg (List.dropWhile isSpace) n.parts,
      List.dropWhile_append_of_pos n.blanks_space]
    have hsign := n.sign_mem
    simp only [List.mem_cons, List.not_mem_nil, or_false] at hsign
    rcases hsign with hsign | hsign | hsign
    · rw [hsign, hdigits]
      simp [not_isSpace_of_isDigit hfirst]
    · rw [hsign]
      rfl
    · rw [hsign]
      rfl
  have hsign := n.sign_mem
  simp only [List.mem_cons, List.not_mem_nil, or_false] at hsign
  simp only [leadingInteger, htrimmed, LeadingNumeral.value]
  rcases hsign with hsign | hsign | hsign
  · simp only [hsign, List.nil_append]
    rw [hdigits] at hall ⊢
    split
    · next heq => exact absurd (List.cons.inj heq).1 hminus
    · next heq => exact absurd (List.cons.inj heq).1 hplus
    · simp only [hall]
      simp [hminus]
  · simp only [hsign, List.cons_append, List.nil_append, hall,
      if_neg n.digits_ne_nil]
    simp
  · simp only [hsign, List.cons_append, List.nil_append, hall,
      if_neg n.digits_ne_nil]
    simp

theorem exists_numeral_of_leadingInteger {text : Text} {value : Int}
    (hvalue : leadingInteger text = some value) :
    ∃ n : LeadingNumeral text, n.value = value := by
  have hparts : text.takeWhile isSpace ++ text.dropWhile isSpace = text :=
    List.takeWhile_append_dropWhile
  have hspace : ∀ c ∈ text.takeWhile isSpace, isSpace c = true :=
    fun c hc => List.mem_takeWhile_imp hc
  have hnumeral : ∀ sign unsigned : Text, sign ∈ [[], ['+'], ['-']] →
      text.dropWhile isSpace = sign ++ unsigned →
      unsigned.takeWhile Char.isDigit ≠ [] →
      ∃ n : LeadingNumeral text, n.value =
        if sign = ['-'] then
          -(Nat.ofDigitChars 10 (unsigned.takeWhile Char.isDigit) 0 : Int)
        else (Nat.ofDigitChars 10 (unsigned.takeWhile Char.isDigit) 0 : Int) := by
    intro sign unsigned hsign htrimmed hdigits
    refine ⟨⟨text.takeWhile isSpace, sign, unsigned.takeWhile Char.isDigit,
      unsigned.dropWhile Char.isDigit, ?_, hspace, hsign, hdigits,
      fun c hc => List.mem_takeWhile_imp hc, ?_⟩, rfl⟩
    · rw [List.takeWhile_append_dropWhile, ← htrimmed, hparts]
    · intro c hc
      have hhead := List.head?_dropWhile_not Char.isDigit unsigned
      rw [Option.mem_def.mp hc] at hhead
      simpa using hhead
  simp only [leadingInteger] at hvalue
  split at hvalue
  · next rest htrimmed =>
      obtain ⟨hdigits, hsome⟩ := Option.ite_none_left_eq_some.mp hvalue
      obtain rfl := Option.some.inj hsome
      obtain ⟨n, hn⟩ := hnumeral ['-'] rest (by simp) htrimmed hdigits
      exact ⟨n, hn.trans (by simp [htrimmed])⟩
  · next rest htrimmed =>
      obtain ⟨hdigits, hsome⟩ := Option.ite_none_left_eq_some.mp hvalue
      obtain rfl := Option.some.inj hsome
      obtain ⟨n, hn⟩ := hnumeral ['+'] rest (by simp) htrimmed hdigits
      exact ⟨n, hn.trans (by simp [htrimmed])⟩
  · next hminus _ =>
      obtain ⟨hdigits, hsome⟩ := Option.ite_none_left_eq_some.mp hvalue
      obtain rfl := Option.some.inj hsome
      have hhead : (text.dropWhile isSpace).head? ≠ some '-' := by
        intro hhead
        obtain ⟨rest, hrest⟩ := List.head?_eq_some_iff.mp hhead
        exact hminus rest hrest
      obtain ⟨n, hn⟩ := hnumeral [] _ (by simp) rfl hdigits
      exact ⟨n, hn.trans (by simp [hhead])⟩

/-- A numeral is read back. -/
theorem leadingInteger_numeral (n : Nat) :
    leadingInteger (numeral n) = some n := by
  let leading : LeadingNumeral (numeral n) :=
    ⟨[], [], numeral n, [], by simp, by simp, by simp, numeral_ne_nil n,
      fun c => isDigit_of_mem_numeral, by simp⟩
  have hvalue : Nat.ofDigitChars 10 (numeral n) 0 = n :=
    Nat.ofDigitChars_ten_toDigits
  rw [leadingInteger_of_numeral leading]
  simp [LeadingNumeral.value, leading, hvalue]

/-- What can be decided of every character of ASCII. -/
theorem forall_ascii {p : Char → Prop} (hall : ∀ n < 128, p (Char.ofNat n))
    {c : Char} (hc : c.toNat < 128) : p c := by
  have hp := hall c.toNat hc
  rwa [Char.ofNat_toNat] at hp

theorem toNat_lt_of_isAlphanum {c : Char} (hc : c.isAlphanum = true) :
    c.toNat < 128 := by
  have hclass : (decide ('A'.val ≤ c.val ∧ c.val ≤ 'Z'.val) ||
      decide ('a'.val ≤ c.val) && decide (c.val ≤ 'z'.val) ||
      decide ('0'.val ≤ c.val) && decide (c.val ≤ '9'.val)) = true := hc
  simp only [Bool.or_eq_true, Bool.and_eq_true, decide_eq_true_eq,
    UInt32.le_iff_toNat_le] at hclass
  have hvalue : c.toNat = c.val.toNat := rfl
  rw [hvalue]
  rcases hclass with (⟨-, hle⟩ | ⟨-, hle⟩) | ⟨-, hle⟩
  all_goals exact Nat.lt_of_le_of_lt hle (by decide)

theorem not_isDigit_of_isAlpha {c : Char} (hc : c.isAlpha = true) :
    ¬ c.isDigit = true :=
  forall_ascii (p := fun c => c.isAlpha = true → ¬ c.isDigit = true)
    (by decide +kernel)
    (toNat_lt_of_isAlphanum (by simp [Char.isAlphanum, hc])) hc

/-- The characters of a token come from the text, and none is the separator. -/
theorem mem_of_mem_splitOn {text : Text} {separator : Char} {token : Text}
    (htoken : token ∈ text.splitOn separator) {c : Char} (hc : c ∈ token) :
    c ∈ text ∧ c ≠ separator := by
  induction text generalizing token with
  | nil =>
      obtain rfl := List.mem_singleton.mp htoken
      simp at hc
  | cons first rest ih =>
      rw [List.splitOn_cons_eq_if_modifyHead] at htoken
      split at htoken
      · rcases List.mem_cons.mp htoken with rfl | htoken
        · simp at hc
        · exact ⟨List.mem_cons_of_mem _ (ih htoken hc).1, (ih htoken hc).2⟩
      · next hfirst =>
          cases hsplit : rest.splitOn separator with
          | nil => exact absurd hsplit (List.splitOn_ne_nil _ _)
          | cons head tail =>
              rw [hsplit] at ih htoken
              rcases List.mem_cons.mp htoken with rfl | htoken
              · rcases List.mem_cons.mp hc with rfl | hc
                · exact ⟨List.mem_cons_self, by simpa using hfirst⟩
                · have hrest := ih List.mem_cons_self hc
                  exact ⟨List.mem_cons_of_mem _ hrest.1, hrest.2⟩
              · have hrest := ih (List.mem_cons_of_mem _ htoken) hc
                exact ⟨List.mem_cons_of_mem _ hrest.1, hrest.2⟩

/-- Every character but the separator is in a token. -/
theorem exists_mem_splitOn {text : Text} {separator c : Char} (hc : c ∈ text)
    (hother : c ≠ separator) : ∃ token ∈ text.splitOn separator, c ∈ token := by
  induction text with
  | nil => contradiction
  | cons first rest ih =>
      rw [List.splitOn_cons_eq_if_modifyHead]
      split
      · next hfirst =>
          rcases List.mem_cons.mp hc with rfl | hc
          · exact absurd (beq_iff_eq.mp hfirst) hother
          · obtain ⟨token, htoken, hmem⟩ := ih hc
            exact ⟨token, List.mem_cons_of_mem _ htoken, hmem⟩
      · cases hsplit : rest.splitOn separator with
        | nil => exact absurd hsplit (List.splitOn_ne_nil _ _)
        | cons head tail =>
            rw [hsplit] at ih
            rcases List.mem_cons.mp hc with rfl | hc
            · exact ⟨_, List.mem_cons_self, List.mem_cons_self⟩
            · obtain ⟨token, htoken, hmem⟩ := ih hc
              rcases List.mem_cons.mp htoken with rfl | htoken
              · exact ⟨_, List.mem_cons_self, List.mem_cons_of_mem _ hmem⟩
              · exact ⟨token, List.mem_cons_of_mem _ htoken, hmem⟩

/-- The characters of joined texts come from the texts or the separator. -/
theorem mem_of_mem_intercalate {separator : Text} {texts : List Text} {c : Char}
    (hc : c ∈ separator.intercalate texts) :
    c ∈ separator ∨ ∃ text ∈ texts, c ∈ text := by
  induction texts with
  | nil => simp at hc
  | cons first rest ih =>
      cases rest with
      | nil =>
          rw [List.intercalate_singleton] at hc
          exact .inr ⟨first, List.mem_cons_self, hc⟩
      | cons next others =>
          rw [List.intercalate_cons_cons, List.mem_append,
            List.mem_append] at hc
          rcases hc with (hc | hc) | hc
          · exact .inr ⟨first, List.mem_cons_self, hc⟩
          · exact .inl hc
          · rcases ih hc with hc | ⟨text, htext, hc⟩
            · exact .inl hc
            · exact .inr ⟨text, List.mem_cons_of_mem _ htext, hc⟩

/-- Nothing is found exactly when every character is accepted. -/
theorem findFirstNotOf_eq_none {accepted text : Text} :
    findFirstNotOf accepted text = none ↔ ∀ c ∈ text, c ∈ accepted := by
  simp [findFirstNotOf, List.find?_eq_none]

end Rules

end Margot
