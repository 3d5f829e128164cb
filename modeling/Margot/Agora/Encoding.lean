/-
The messages with a configuration or with a prediction, as the remote handler
of an application writes them.
-/
import Margot.Library.JsonReading
import Margot.Heel.Composer
import Margot.Heel.Validate

namespace Margot.Agora

open Heel

section Regex

/-- The whole text matches `\d+\.?\d*`. -/
def isNumeral (text : Text) : Bool :=
  text.takeWhile Char.isDigit ≠ [] &&
    match text.dropWhile Char.isDigit with
    | [] => true
    | c :: decimals => c = '.' && decimals.all Char.isDigit

/-- The number between a quote and the next one.  A number holds no quote: what
the group matches can only be all that stands before it. -/
def matchNumber (text : Text) : Option Text :=
  let candidate := text.takeWhile fun c => c ≠ '"'
  if isNumeral candidate && candidate.length < text.length then some candidate
  else none

/-- The matches from left to right, where `skip` characters of the last one are
still to be passed over. -/
def replaceFrom : Nat → Text → Text
  | _, [] => []
  | skip + 1, _ :: rest => replaceFrom skip rest
  | 0, c :: rest =>
      if c = '\n' then replaceFrom 0 rest
      else if c = '"' then
        match matchNumber rest with
        | some number => number ++ replaceFrom (number.length + 1) rest
        | none => c :: replaceFrom 0 rest
      else c :: replaceFrom 0 rest

/-- Every match of `"(\d+\.?\d*)"|\n` is replaced by its group. -/
def unquoteNumbers (text : Text) : Text := replaceFrom 0 text

end Regex

section Encoding

/-- `configuration_t`: a value for each knob. -/
abbrev KnobConfiguration := Text → Text

structure MetricValue where
  avg : Text
  std : Text
deriving Repr, DecidableEq

/-- A predicted result, with the configuration and the features it is about. -/
structure Prediction where
  features : Text → Text
  configuration : KnobConfiguration
  result : Text → MetricValue

/-- The value of a knob in a message: a string is between quotes of its own. -/
def knobValue (configuration : KnobConfiguration) (knob : KnobModel) : Text :=
  if knob.type = "string".toList then '"' :: configuration knob.name ++ ['"']
  else configuration knob.name

def putKnobs (description : BlockModel) (configuration : KnobConfiguration) :
    Ptree :=
  description.knobs.foldl (fun knobs knob =>
    knobs.put knob.name (knobValue configuration knob)) Ptree.empty

def putFeatures (description : BlockModel) (features : Text → Text) : Ptree :=
  description.features.fields.foldl (fun node feature =>
    node.put feature.name (features feature.name)) Ptree.empty

def putMetrics (description : BlockModel) (result : Text → MetricValue) :
    Ptree :=
  description.metrics.foldl (fun metrics metric =>
    if metric.distribution then
      addList composeText metrics
        [(result metric.name).avg, (result metric.name).std] metric.name
    else metrics.put metric.name (result metric.name).avg) Ptree.empty

def areFeaturesEnabled (description : BlockModel) : Bool :=
  !description.features.fields.isEmpty

/-- What the metrics of a configuration are: nothing is known about them. -/
def unknownMetric : MetricValue := ⟨"9999".toList, "0".toList⟩

def configurationOp (description : BlockModel)
    (configuration : KnobConfiguration) :
    Ptree :=
  let op := Ptree.empty.addChild "knobs".toList
    (putKnobs description configuration)
  let op :=
    if areFeaturesEnabled description then
      op.addChild "features".toList
        (putFeatures description fun _ => "9999".toList)
    else op
  op.addChild "metrics".toList (putMetrics description fun _ => unknownMetric)

def predictionOp (description : BlockModel) (prediction : Prediction) : Ptree :=
  let op :=
    if areFeaturesEnabled description then
      Ptree.empty.addChild "features".toList
        (putFeatures description prediction.features)
    else Ptree.empty
  let op := op.addChild "knobs".toList
    (putKnobs description prediction.configuration)
  op.addChild "metrics".toList (putMetrics description prediction.result)

/-- The text of a list of Operating Points, with bare numbers. -/
def encode (description : BlockModel) (ops : List Ptree) : Checked Text := do
  let root := Ptree.empty.addChild description.name (Ptree.array ops)
  let text ← Json.writeJson false root
  return unquoteNumbers text

def configurationToJson (description : BlockModel)
    (configuration : KnobConfiguration) : Checked Text :=
  encode description [configurationOp description configuration]

/-- The predicted results in the order in which they are visited. -/
def predictionToJson (description : BlockModel) (results : List Prediction) :
    Checked Text :=
  encode description (results.map (predictionOp description))

end Encoding

section Numerals

theorem isDigit_or_dot_of_isNumeral {text : Text}
    (hnumeral : isNumeral text = true) {c : Char} (hc : c ∈ text) :
    c.isDigit = true ∨ c = '.' := by
  rw [isNumeral, Bool.and_eq_true] at hnumeral
  rw [← List.takeWhile_append_dropWhile (p := Char.isDigit) (l := text),
    List.mem_append] at hc
  rcases hc with hc | hc
  · exact .inl (List.mem_takeWhile_imp hc)
  · obtain ⟨-, hrest⟩ := hnumeral
    split at hrest
    · next hnone =>
        rw [hnone] at hc
        contradiction
    · next first decimals hsome =>
        rw [Bool.and_eq_true, decide_eq_true_eq, List.all_eq_true] at hrest
        rw [hsome] at hc
        rcases List.mem_cons.mp hc with rfl | hc
        · exact .inr hrest.1
        · exact .inl (hrest.2 c hc)

theorem isPlain_of_isNumeral {text : Text} (hnumeral : isNumeral text = true)
    {c : Char} (hc : c ∈ text) : Json.isPlain c = true := by
  rcases isDigit_or_dot_of_isNumeral hnumeral hc with hdigit | rfl
  · exact Json.isPlain_of_isAlphanum (by simp [Char.isAlphanum, hdigit])
  · decide

/-- What stands between the quotes of a written text matches exactly if the
text does. -/
theorem matchNumber_escapes (text rest : Text) :
    matchNumber (Json.createEscapes text ++ '"' :: rest) =
      if isNumeral text then some text else none := by
  by_cases hplain : ∀ c ∈ text, Json.isPlain c = true
  · have hquote : ∀ c ∈ text, decide (c ≠ '"') = true := by
      rintro c hc
      rw [decide_eq_true_eq]
      rintro rfl
      exact absurd (hplain _ hc) (by decide)
    have hcandidate : (text ++ '"' :: rest).takeWhile (fun c => c ≠ '"') =
        text := by
      rw [List.takeWhile_append_of_pos hquote, List.takeWhile_cons_of_neg]
      · exact List.append_nil _
      · decide
    rw [Json.createEscapes_plain hplain, matchNumber, hcandidate]
    simp
  · have hescaped : ∃ c ∈ text, Json.isPlain c = false := by simpa using hplain
    obtain ⟨first, tail, hwritten, hfirst⟩ := Json.exists_backslash hescaped
    have hcandidate : '\\' ∈
        (first ++ '\\' :: tail ++ '"' :: rest).takeWhile fun c => c ≠ '"' := by
      rw [List.append_assoc, List.takeWhile_append_of_pos]
      · exact List.mem_append_right _ List.mem_cons_self
      · rintro c hc
        rw [decide_eq_true_eq]
        rintro rfl
        exact absurd (hfirst _ hc) (by decide)
    rw [hwritten, matchNumber, if_neg, if_neg]
    · exact fun hnumeral => hplain fun c => isPlain_of_isNumeral hnumeral
    · rw [Bool.and_eq_true]
      rintro ⟨hnumeral, -⟩
      exact absurd (isPlain_of_isNumeral hnumeral hcandidate) (by decide)

end Numerals

section Unquoting

/-- A quoted numeral loses its quotes. -/
def bareValue (text : Text) : Text :=
  if isNumeral text then text else Json.quoted text

/-- No quote of the text begins a match that its closing quote ends. -/
def Settled (text : Text) : Prop :=
  ∀ first last, text = first ++ '"' :: last → isNumeral last = false

/-- The text does not begin with a digit. -/
def Separated (rest : Text) : Prop := ∀ c ∈ rest.head?, c.isDigit = false

theorem settled_of_not_mem {text : Text} (hquote : '"' ∉ text) :
    Settled text := by
  rintro first last rfl
  exact absurd (List.mem_append_right first List.mem_cons_self) hquote

theorem unquoteNumbers_cons {c : Char} (hquote : c ≠ '"') (hline : c ≠ '\n')
    (rest : Text) : unquoteNumbers (c :: rest) = c :: unquoteNumbers rest := by
  rw [unquoteNumbers, replaceFrom, if_neg hline, if_neg hquote]
  rfl

theorem unquoteNumbers_pass {free : Text}
    (hfree : ∀ c ∈ free, c ≠ '"' ∧ c ≠ '\n') (rest : Text) :
    unquoteNumbers (free ++ rest) = free ++ unquoteNumbers rest := by
  induction free with
  | nil => rfl
  | cons c free ih =>
      rw [List.forall_mem_cons] at hfree
      obtain ⟨⟨hquote, hline⟩, hfree⟩ := hfree
      rw [List.cons_append, unquoteNumbers_cons hquote hline, ih hfree,
        List.cons_append]

theorem unquoteNumbers_quote {rest : Text} (hnone : matchNumber rest = none) :
    unquoteNumbers ('"' :: rest) = '"' :: unquoteNumbers rest := by
  rw [unquoteNumbers, replaceFrom, if_neg (by decide), if_pos rfl, hnone]
  rfl

theorem replaceFrom_skip (passed rest : Text) (skip : Nat) :
    replaceFrom (passed.length + skip) (passed ++ rest) =
      replaceFrom skip rest := by
  induction passed with
  | nil => rw [List.length_nil, Nat.zero_add, List.nil_append]
  | cons c passed ih =>
      rw [List.length_cons, Nat.add_right_comm, List.cons_append, replaceFrom,
        ih]

/-- A closing quote begins no match. -/
theorem unquoteNumbers_closing {rest : Text} (hrest : Separated rest) :
    unquoteNumbers ('"' :: rest) = '"' :: unquoteNumbers rest := by
  apply unquoteNumbers_quote
  rw [matchNumber, if_neg]
  rw [Bool.and_eq_true, isNumeral, Bool.and_eq_true, decide_eq_true_eq]
  rintro ⟨⟨hdigits, -⟩, -⟩
  apply hdigits
  match rest with
  | [] => rfl
  | c :: tail =>
      have hdigit := hrest c rfl
      rw [List.takeWhile_cons]
      split
      · rw [List.takeWhile_cons_of_neg]
        rw [hdigit]
        exact Bool.false_ne_true
      · rfl

/-- Nothing matches from inside of a settled text on. -/
theorem unquoteNumbers_escapes {text rest : Text} (hsettled : Settled text)
    (hrest : Separated rest) :
    unquoteNumbers (Json.createEscapes text ++ '"' :: rest) =
      Json.createEscapes text ++ '"' :: unquoteNumbers rest := by
  induction text with
  | nil => exact unquoteNumbers_closing hrest
  | cons c text ih =>
      have hlater : Settled text := fun first last hsplit =>
        hsettled (c :: first) last (by rw [hsplit]; rfl)
      rw [Json.createEscapes_cons, List.append_assoc]
      by_cases hc : c = '"'
      · subst hc
        have hnone : matchNumber (Json.createEscapes text ++ '"' :: rest) =
            none := by
          rw [matchNumber_escapes, hsettled [] text rfl]
          exact if_neg Bool.false_ne_true
        have hescape : Json.escape '"' = ['\\', '"'] := by decide
        rw [hescape, List.cons_append, List.singleton_append,
          unquoteNumbers_cons (by decide) (by decide),
          unquoteNumbers_quote hnone, ih hlater]
        rfl
      · rw [unquoteNumbers_pass fun d hd => Json.mem_escape hc hd, ih hlater,
          List.append_assoc]

/-- A written value loses its quotes exactly if it is a numeral. -/
theorem unquoteNumbers_quoted {text rest : Text} (hsettled : Settled text)
    (hrest : Separated rest) :
    unquoteNumbers (Json.quoted text ++ rest) =
      bareValue text ++ unquoteNumbers rest := by
  have hshape : Json.quoted text ++ rest =
      '"' :: (Json.createEscapes text ++ '"' :: rest) := by
    simp [Json.quoted]
  rw [hshape, bareValue]
  cases hnumeral : isNumeral text with
  | true =>
      have hplain := Json.createEscapes_plain fun c hc =>
        isPlain_of_isNumeral hnumeral hc
      rw [unquoteNumbers, replaceFrom, if_neg (by decide), if_pos rfl,
        matchNumber_escapes, hnumeral, if_pos rfl, if_pos rfl, hplain]
      change text ++ replaceFrom (text.length + 1) (text ++ '"' :: rest) = _
      rw [replaceFrom_skip]
      rfl
  | false =>
      have hnone : matchNumber (Json.createEscapes text ++ '"' :: rest) =
          none := by
        rw [matchNumber_escapes, hnumeral]
        exact if_neg Bool.false_ne_true
      rw [unquoteNumbers_quote hnone, unquoteNumbers_escapes hsettled hrest,
        if_neg Bool.false_ne_true, Json.quoted]
      simp

/-- A key that stays between its quotes. -/
structure KeyText (key : Text) : Prop where
  noQuote : '"' ∉ key
  notNumeral : isNumeral key = false

theorem unquoteNumbers_label {isObject : Bool} {key : Text}
    (hkey : KeyText key) (rest : Text) :
    unquoteNumbers (Json.label false isObject key ++ rest) =
      Json.label false isObject key ++ unquoteNumbers rest := by
  cases isObject with
  | false => rfl
  | true =>
      have hcolon : Separated (':' :: rest) := by
        intro c hc
        obtain rfl := Option.some.inj hc
        rfl
      have hshape : Json.label false true key ++ rest =
          Json.quoted key ++ (':' :: rest) := by
        simp [Json.label]
      have hbare : bareValue key = Json.quoted key := by
        rw [bareValue, hkey.notNumeral]
        exact if_neg Bool.false_ne_true
      rw [hshape, unquoteNumbers_quoted (settled_of_not_mem hkey.noQuote)
        hcolon, hbare, unquoteNumbers_cons (by decide) (by decide)]
      simp [Json.label]

theorem separated_cons {c : Char} (hc : c.isDigit = false) (rest : Text) :
    Separated (c :: rest) := by
  intro d hd
  obtain rfl := Option.some.inj hd
  exact hc

/-- What is enclosed is changed on its own. -/
theorem unquoteNumbers_enclosed {left right : Char} {content bare rest : Text}
    (hleft : left ≠ '"' ∧ left ≠ '\n') (hright : right ≠ '"' ∧ right ≠ '\n')
    (hcontent : unquoteNumbers (content ++ right :: rest) =
      bare ++ unquoteNumbers (right :: rest)) :
    unquoteNumbers (left :: (content ++ [right]) ++ rest) =
      left :: (bare ++ [right]) ++ unquoteNumbers rest := by
  have hshape : left :: (content ++ [right]) ++ rest =
      left :: (content ++ right :: rest) := by
    simp
  rw [hshape, unquoteNumbers_cons hleft.1 hleft.2, hcontent,
    unquoteNumbers_cons hright.1 hright.2]
  simp

mutual

/-- In the text of a tree exactly the numerals lose their quotes. -/
theorem unquoteNumbers_write (tree : Ptree) {indent : Nat} {rest : Text}
    (hwritten : 0 < indent ∨ tree.children ≠ [])
    (hsettled : ∀ data ∈ Json.values tree, Settled data)
    (hkeys : ∀ key ∈ Json.keys tree, KeyText key) (hrest : Separated rest) :
    unquoteNumbers (Json.write Json.quoted false indent tree ++ rest) =
      Json.write bareValue false indent tree ++ unquoteNumbers rest := by
  match tree with
  | .node data [] =>
      have hindent : 0 < indent := hwritten.resolve_right fun hsome => hsome rfl
      rw [Json.write_leaf hindent, Json.write_leaf hindent]
      exact unquoteNumbers_quoted (hsettled data (by simp [Json.values])) hrest
  | .node data (child :: others) =>
      have hdeeper : 0 < indent + 1 := Nat.succ_pos indent
      have hchildren := fun isObject rest (hrest : Separated rest) =>
        unquoteNumbers_writeChildren (child :: others) isObject hdeeper
          hsettled hkeys hrest
      have hsome : 0 < indent → child :: others ≠ [] := fun _ =>
        List.cons_ne_nil _ _
      rw [Json.write_node hsome, Json.write_node hsome]
      cases Json.isArray indent (child :: others) with
      | true =>
          exact unquoteNumbers_enclosed (by decide) (by decide)
            (hchildren false (']' :: rest) (separated_cons rfl rest))
      | false =>
          exact unquoteNumbers_enclosed (by decide) (by decide)
            (hchildren true ('\x7d' :: rest) (separated_cons rfl rest))

theorem unquoteNumbers_writeChildren (children : List (Text × Ptree))
    {indent : Nat} (isObject : Bool) {rest : Text} (hindent : 0 < indent)
    (hsettled : ∀ data ∈ Json.valuesOf children, Settled data)
    (hkeys : ∀ key ∈ Json.keysOf children, KeyText key)
    (hrest : Separated rest) :
    unquoteNumbers
        (Json.writeChildren Json.quoted false indent isObject children ++
          rest) =
      Json.writeChildren bareValue false indent isObject children ++
        unquoteNumbers rest := by
  match children with
  | [] => rfl
  | (key, child) :: others =>
      have hothers := unquoteNumbers_writeChildren others isObject hindent
        (fun data hmem => hsettled data (List.mem_append_right _ hmem))
        (fun key hmem => hkeys key
          (List.mem_cons_of_mem _ (List.mem_append_right _ hmem))) hrest
      have hafter : Separated ((if others.isEmpty then [] else [',']) ++
          (Json.writeChildren Json.quoted false indent isObject others ++
            rest)) := by
        cases others with
        | nil => exact hrest
        | cons next others => exact separated_cons rfl _
      have hcomma : ∀ rest, unquoteNumbers
          ((if others.isEmpty then [] else [',']) ++ rest) =
          (if others.isEmpty then [] else [',']) ++ unquoteNumbers rest := by
        intro rest
        apply unquoteNumbers_pass
        split <;> decide
      rw [Json.writeChildren_cons, unquoteNumbers_label (hkeys key
        List.mem_cons_self), unquoteNumbers_write child (.inl hindent)
        (fun data hmem => hsettled data (List.mem_append_left _ hmem))
        (fun key hmem => hkeys key
          (List.mem_cons_of_mem _ (List.mem_append_left _ hmem))) hafter,
        hcomma, hothers, Json.writeChildren_cons]

end

end Unquoting

section Bare

/-- The parts of a numeral. -/
structure NumeralParts (text integer decimals : Text) : Prop where
  text : text = integer ++ decimals
  some : integer ≠ []
  integer : ∀ c ∈ integer, c.isDigit = true
  decimals : decimals = [] ∨
    ∃ fraction, decimals = '.' :: fraction ∧ ∀ c ∈ fraction, c.isDigit = true

theorem exists_parts {text : Text} (hnumeral : isNumeral text = true) :
    ∃ integer decimals, NumeralParts text integer decimals := by
  rw [isNumeral, Bool.and_eq_true, decide_eq_true_eq] at hnumeral
  obtain ⟨hsome, hrest⟩ := hnumeral
  refine ⟨text.takeWhile Char.isDigit, text.dropWhile Char.isDigit,
    List.takeWhile_append_dropWhile.symm, hsome,
    fun c => List.mem_takeWhile_imp, ?_⟩
  split at hrest
  · next hnone => exact .inl hnone
  · next first fraction hdot =>
      rw [Bool.and_eq_true, decide_eq_true_eq, List.all_eq_true] at hrest
      obtain ⟨rfl, hfraction⟩ := hrest
      exact .inr ⟨fraction, hdot, hfraction⟩

theorem digits_append_digits {first : Text}
    (hfirst : ∀ c ∈ first, c.isDigit = true) {rest : Text}
    (hrest : Separated rest) : Json.digits (first ++ rest) = (first, rest) := by
  have hnone : rest.takeWhile Char.isDigit = [] ∧
      rest.dropWhile Char.isDigit = rest := by
    match rest with
    | [] => exact ⟨rfl, rfl⟩
    | c :: tail =>
        have hc : ¬ c.isDigit = true := by
          rw [hrest c rfl]
          exact Bool.false_ne_true
        exact ⟨List.takeWhile_cons_of_neg hc, List.dropWhile_cons_of_neg hc⟩
  rw [Json.digits, List.takeWhile_append_of_pos hfirst,
    List.dropWhile_append_of_pos hfirst, hnone.1, hnone.2, List.append_nil]

/-- A zero ends the integer part. -/
theorem readInteger_digits {c : Char} {others rest : Text}
    (hall : ∀ d ∈ c :: others, d.isDigit = true)
    (hshort : c = '0' → others = []) (hrest : Separated rest) :
    Json.readInteger (c :: others ++ rest) = some (c :: others, rest) := by
  by_cases hzero : c = '0'
  · subst hzero
    obtain rfl := hshort rfl
    rfl
  · rw [List.cons_append, Json.readInteger_cons hzero, ← List.cons_append,
      digits_append_digits hall hrest]
    exact if_neg (List.cons_ne_nil _ _)

theorem separated_of_delimited {rest : Text} (hrest : Json.Delimited rest) :
    Separated rest := by
  intro c hc
  rcases hrest c hc with rfl | rfl | rfl
  all_goals rfl

theorem readExponent_delimited {rest : Text} (hrest : Json.Delimited rest) :
    Json.readExponent rest = some ([], rest) := by
  match rest with
  | [] => rfl
  | c :: tail =>
      rcases hrest c rfl with rfl | rfl | rfl
      all_goals rfl

theorem readSign_digit {c : Char} (hc : c.isDigit = true) (rest : Text) :
    Json.readSign (c :: rest) = ([], c :: rest) := by
  have hminus : c ≠ '-' := by
    rintro rfl
    contradiction
  simp [Json.readSign, hminus]

/-- After a leading zero a digit is left over. -/
theorem readNumber_zero {d : Char} (hd : d.isDigit = true) (rest : Text) :
    Json.readNumber ('0' :: d :: rest) = some (['0'], d :: rest) := by
  have hdot : d ≠ '.' := by
    rintro rfl
    contradiction
  have hletter : ¬ (d = 'e' ∨ d = 'E') := by
    rintro (rfl | rfl)
    all_goals contradiction
  have hinteger : Json.readInteger ('0' :: d :: rest) =
      some (['0'], d :: rest) := rfl
  rw [Json.readNumber, readSign_digit rfl]
  simp only [hinteger, Json.readFraction_cons hdot, Json.readExponent,
    if_neg hletter, bind, Option.bind_some, pure]
  rfl

/-- A numeral is a number unless it has a leading zero or ends with its point. -/
theorem readNumber_parts {c : Char} {others decimals rest : Text}
    (hall : ∀ d ∈ c :: others, d.isDigit = true)
    (hshort : c = '0' → others = [])
    (hdecimals : decimals = [] ∨ ∃ fraction, decimals = '.' :: fraction ∧
      ∀ d ∈ fraction, d.isDigit = true)
    (hrest : Json.Delimited rest) :
    Json.readNumber (c :: others ++ decimals ++ rest) =
      if decimals = ['.'] then none
      else some (c :: others ++ decimals, rest) := by
  have hseparated := separated_of_delimited hrest
  have hafter : Separated (decimals ++ rest) := by
    rcases hdecimals with rfl | ⟨fraction, rfl, -⟩
    · exact hseparated
    · exact separated_cons rfl _
  have hinteger := readInteger_digits hall hshort hafter
  have hexponent := readExponent_delimited hrest
  rw [← List.append_assoc] at hinteger
  have hsign : Json.readSign (c :: others ++ decimals ++ rest) =
      ([], c :: others ++ decimals ++ rest) :=
    readSign_digit (hall c List.mem_cons_self) _
  rw [Json.readNumber, hsign]
  rcases hdecimals with rfl | ⟨fraction, rfl, hfraction⟩
  · have hfraction : Json.readFraction rest = some ([], rest) := by
      cases rest with
      | nil => rfl
      | cons d tail =>
          rcases hrest d rfl with rfl | rfl | rfl
          all_goals rfl
    simp only [hinteger, List.nil_append, hfraction, hexponent, bind,
      Option.bind_some, pure]
    simp
  · have hdigits := digits_append_digits hfraction hseparated
    have hpoint : Json.readFraction ('.' :: fraction ++ rest) =
        if fraction = [] then none else some ('.' :: fraction, rest) := by
      rw [List.cons_append, Json.readFraction, hdigits]
    simp only [hinteger, hpoint, bind, Option.bind_some]
    by_cases hnone : fraction = []
    · subst hnone
      rfl
    · have hpoint : '.' :: fraction ≠ ['.'] := by simpa using hnone
      rw [if_neg hnone, if_neg hpoint]
      simp [hexponent, pure]

/-- A bare value is read back, unless it is a numeral that is not a number. -/
theorem reads_bareValue {data : Text}
    (hnumber : isNumeral data = true → Json.isNumber data = true) :
    Json.Reads bareValue data := by
  cases hnumeral : isNumeral data with
  | true =>
      have hbare : bareValue data = data := by
        rw [bareValue, if_pos hnumeral]
      exact Json.reads_of_number hbare (hnumber hnumeral)
  | false =>
      apply Json.reads_of_quoted
      rw [bareValue, hnumeral]
      exact if_neg Bool.false_ne_true

theorem breaks_bareValue {data : Text} (hnumeral : isNumeral data = true)
    (hnumber : Json.isNumber data = false) : Json.Breaks bareValue data := by
  have hbare : bareValue data = data := by rw [bareValue, if_pos hnumeral]
  obtain ⟨integer, decimals, htext, hsome, hall, hdecimals⟩ :=
    exists_parts hnumeral
  obtain ⟨c, others, rfl⟩ := List.exists_cons_of_ne_nil hsome
  have hc : c.isDigit = true := hall c List.mem_cons_self
  refine ⟨?_, fun fuel rest tree after hrest hread => ?_⟩
  · rw [hbare, htext]
    exact Json.begins_number (.inl hc) _
  · obtain ⟨fuel, rfl⟩ : ∃ less, fuel = less + 1 := by
      cases fuel with
      | zero => contradiction
      | succ less => exact ⟨less, rfl⟩
    rw [hbare, htext, List.cons_append, List.cons_append,
      Json.readValue_number (.inl hc)] at hread
    by_cases hshort : c = '0' → others = []
    · rw [← List.cons_append, ← List.cons_append,
        readNumber_parts hall hshort hdecimals hrest] at hread
      split at hread
      · contradiction
      · next hpoint =>
          have hend : Json.Delimited [] := by
            intro d hd
            contradiction
          have hwhole := readNumber_parts hall hshort hdecimals hend
          rw [if_neg hpoint, List.append_nil, ← htext] at hwhole
          rw [Json.isNumber, decide_eq_false_iff_not] at hnumber
          exact absurd hwhole hnumber
    · rw [Classical.not_imp] at hshort
      obtain ⟨rfl, hothers⟩ := hshort
      obtain ⟨d, more, rfl⟩ := List.exists_cons_of_ne_nil hothers
      have hd : d.isDigit = true := hall d (by simp)
      rw [List.cons_append, List.cons_append, readNumber_zero hd] at hread
      obtain ⟨rfl, rfl⟩ := Prod.mk.inj (Option.some.inj hread)
      exact ⟨d, rfl, hd⟩

end Bare

end Margot.Agora
