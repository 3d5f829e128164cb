/-
The values of a knob that are given as a range: the numbers are read and counted
up in the type of the knob.
-/
import Margot.Library.Progression
import Margot.Heel.Observation

namespace Margot.Heel

section Decimals

def digitsValue (digits : Text) : Option Nat :=
  if digits ≠ [] ∧ digits.all Char.isDigit then
    some (Nat.ofDigitChars 10 digits 0)
  else none

/-- The number that is written in decimal, with or without a sign. -/
def decimalValue : Text → Option Int
  | '-' :: digits => (digitsValue digits).map fun n => -(n : Int)
  | '+' :: digits => (digitsValue digits).map fun n => (n : Int)
  | digits => (digitsValue digits).map fun n => (n : Int)

end Decimals

/-- `boost::lexical_cast` to an integer type: it reads a number, but into a type
of one byte a single character.  `generateFloating` stands for the instances of
`generate` for the floating-point types. -/
structure LexicalCast where
  cast : IntegerType → Text → Checked Int
  generateFloating : Text → Text → Text → Text → Checked (List Text)
  decimal : ∀ (type : IntegerType) (text : Text) (value : Int),
    type.width ≠ .bits8 → decimalValue text = some value → type.Holds value →
      cast type text = .ok value
  character : ∀ (type : IntegerType) (c : Char), type.width = .bits8 →
    c.toNat < 128 → cast type [c] = .ok c.toNat
  several : ∀ (type : IntegerType) (text : Text), type.width = .bits8 →
    text.length ≠ 1 → ∃ message, cast type text = .error message

section Generate

/-- How the computation of a range ends, if it does. -/
inductive Generated where
  | running
  | undefined
  | thrown (message : Text)
  | values (values : List Text)
deriving Repr, DecidableEq

def generated : IntegerType.Counting → Generated
  | .running => .running
  | .undefined => .undefined
  | .done values => .values (values.map integerText)

variable (lexical : LexicalCast)

/-- `generate`, with a bound on the rounds of its loop. -/
def generate (type : IntegerType) (fuel : Nat) (min max step : Text) :
    Generated :=
  let numbers : Checked (Int × Int × Int) := do
    let minNumeric ← lexical.cast type min
    let maxNumeric ← lexical.cast type max
    let stepNumeric ← lexical.cast type step
    return (minNumeric, maxNumeric, stepNumeric)
  match numbers with
  | .error message => .thrown message
  | .ok (minNumeric, maxNumeric, stepNumeric) =>
      generated (type.countUp maxNumeric stepNumeric fuel minNumeric)

/-- The integer types of the knobs. -/
def integerTypes : List (String × IntegerType) :=
  [("int8_t", ⟨.bits8, true⟩), ("uint8_t", ⟨.bits8, false⟩),
    ("int16_t", ⟨.bits16, true⟩), ("uint16_t", ⟨.bits16, false⟩),
    ("int32_t", ⟨.bits32, true⟩), ("uint32_t", ⟨.bits32, false⟩),
    ("int64_t", ⟨.bits64, true⟩), ("uint64_t", ⟨.bits64, false⟩)]

/-- `generate` for the type with the name. -/
def generateNamed (valueType type : Text) (fuel : Nat) (min max step : Text) :
    Generated :=
  match integerTypes.find? fun known => known.1.toList = type with
  | some known => generate lexical known.2 fuel min max step
  | none =>
      if ctypePromotionsFp.any fun known => known.toList = type then
        match lexical.generateFloating type min max step with
        | .error message => .thrown message
        | .ok values => .values values
      else .thrown (" error_range: unabale to generate a range for type \"".toList
        ++ valueType ++ "\"".toList)

/-- `compute_range`; without a step it is one. -/
def computeRange (fuel : Nat) (rangeNode : Ptree) (valueType : Text) :
    Generated :=
  match rangeNode.children.map fun valuePair => valuePair.2.data with
  | min :: max :: rest =>
      match sanitizeType valueType with
      | .error message => .thrown message
      | .ok type =>
          generateNamed lexical valueType type fuel min max
            (rest.headD "1".toList)
  | _ => .thrown ("compute range: unable to compute a range without a min " ++
      "and max value").toList

end Generate

/-- A range of a knob of an integer type, as a node of the description. -/
structure DecimalRange where
  node : Ptree
  valueType : Text
  type : IntegerType
  minText : Text
  maxText : Text
  others : List Text
  min : Int
  max : Int
  step : Int
  values : (node.children.map fun valuePair => valuePair.2.data) =
    minText :: maxText :: others
  known : ∃ name, (name, type) ∈ integerTypes ∧
    sanitizeType valueType = .ok name.toList
  minDecimal : decimalValue minText = some min
  maxDecimal : decimalValue maxText = some max
  stepDecimal : decimalValue (others.headD "1".toList) = some step
  minHolds : type.Holds min
  maxHolds : type.Holds max
  stepHolds : type.Holds step
  positive : 0 < step

namespace DecimalRange

variable (lexical : LexicalCast) (range : DecimalRange)

def stepText : Text := range.others.headD "1".toList

/-- The computation ends with the numerals below the maximum. -/
def Computed : Prop :=
  ∃ fuel, computeRange lexical fuel range.node range.valueType =
    .values ((Progression.terms range.min range.max range.step).map integerText)

/-- In one byte there is nothing to count, and each text is one character;
otherwise the type holds the number at which the counting stops. -/
def Fits : Prop :=
  if range.type.width = .bits8 then
    (range.minText.length = 1 ∧ range.maxText.length = 1 ∧
      range.stepText.length = 1) ∧ range.max ≤ range.min
  else
    range.type.Holds (Progression.passing range.min range.max range.step)

end DecimalRange

section Numerals

theorem integerText_injective : Function.Injective integerText := by
  intro a b hsame
  have hminus : ∀ n : Nat, '-' ∉ numeral n := fun n hmem =>
    absurd (isDigit_of_mem_numeral hmem) (by decide)
  rw [integerText, integerText] at hsame
  split at hsame
  · split at hsame
    · have hnumerals := numeral_injective (List.cons.inj hsame).2
      omega
    · exact absurd (hsame ▸ List.mem_cons_self) (hminus _)
  · split at hsame
    · exact absurd (hsame ▸ List.mem_cons_self) (hminus _)
    · have hnumerals := numeral_injective hsame
      omega

theorem generated_eq_values {counting : IntegerType.Counting}
    {values : List Int} :
    generated counting = .values (values.map integerText) ↔
      counting = .done values := by
  cases counting with
  | running => simp [generated]
  | undefined => simp [generated]
  | done others =>
      rw [generated, Generated.values.injEq, IntegerType.Counting.done.injEq]
      exact (List.map_injective_iff.mpr integerText_injective).eq_iff

/-- A decimal of one character is a digit. -/
theorem digit_of_decimal {c : Char} {value : Int}
    (hdecimal : decimalValue [c] = some value) :
    0 ≤ value ∧ c.toNat < 128 ∧ (c.toNat : Int) = 48 + value := by
  have hdigit : (digitsValue [c]).map (fun n => (n : Int)) = some value := by
    by_cases hminus : c = '-'
    · subst hminus
      contradiction
    · by_cases hplus : c = '+'
      · subst hplus
        contradiction
      · simpa [decimalValue, hminus, hplus] using hdecimal
  obtain ⟨n, hn, rfl⟩ := Option.map_eq_some_iff.mp hdigit
  rw [digitsValue] at hn
  split at hn
  · next hdigits =>
      obtain rfl := Option.some.inj hn
      have hc : c.isDigit = true := by simpa using hdigits.2
      obtain ⟨hlow, hhigh⟩ := Char.isDigit_iff_toNat.mp hc
      have hzero : '0'.toNat = 48 := rfl
      have hnine : '9'.toNat = 57 := rfl
      rw [Nat.ofDigitChars_cons, Nat.ofDigitChars_nil]
      omega
  · contradiction

end Numerals

namespace DecimalRange

variable (lexical : LexicalCast) (range : DecimalRange)

theorem find_integerTypes : ∀ known ∈ integerTypes,
    (integerTypes.find? fun other => other.1.toList = known.1.toList) =
      some known := by
  decide

/-- The type of the knob decides which instance generates the values. -/
theorem computeRange_eq (fuel : Nat) :
    computeRange lexical fuel range.node range.valueType =
      generate lexical range.type fuel range.minText range.maxText
        range.stepText := by
  obtain ⟨name, hknown, hname⟩ := range.known
  rw [computeRange, range.values]
  simp only [hname, generateNamed, find_integerTypes _ hknown]
  rfl

/-- Once the three texts are read, the numbers are counted up. -/
theorem generate_of_cast {type : IntegerType} {minText maxText stepText : Text}
    {min max step : Int} (hmin : lexical.cast type minText = .ok min)
    (hmax : lexical.cast type maxText = .ok max)
    (hstep : lexical.cast type stepText = .ok step) (fuel : Nat) :
    generate lexical type fuel minText maxText stepText =
      generated (type.countUp max step fuel min) := by
  rw [generate, hmin, hmax, hstep]
  rfl

theorem computed_iff_of_wide (hwide : range.type.width ≠ .bits8) :
    range.Computed lexical ↔
      range.type.Holds (Progression.passing range.min range.max range.step) := by
  have hmin := lexical.decimal _ _ _ hwide range.minDecimal range.minHolds
  have hmax := lexical.decimal _ _ _ hwide range.maxDecimal range.maxHolds
  have hstep := lexical.decimal _ _ _ hwide range.stepDecimal range.stepHolds
  rw [← IntegerType.exists_countUp_iff range.minHolds range.maxHolds
    range.stepHolds range.positive]
  apply exists_congr
  intro fuel
  rw [computeRange_eq, stepText, generate_of_cast lexical hmin hmax hstep,
    generated_eq_values]

/-- A text that is not one character throws in one byte. -/
theorem length_of_cast {type : IntegerType} {text : Text} {value : Int}
    (hbyte : type.width = .bits8) (hcast : lexical.cast type text = .ok value) :
    text.length = 1 := by
  by_contra hlength
  obtain ⟨message, hmessage⟩ := lexical.several type text hbyte hlength
  rw [hmessage] at hcast
  contradiction

/-- All texts have been read when there are values. -/
theorem cast_of_generate {type : IntegerType} {fuel : Nat}
    {minText maxText stepText : Text} {values : List Text}
    (hgenerate : generate lexical type fuel minText maxText stepText =
      .values values) :
    (∃ min, lexical.cast type minText = .ok min) ∧
      (∃ max, lexical.cast type maxText = .ok max) ∧
      ∃ step, lexical.cast type stepText = .ok step := by
  rw [generate] at hgenerate
  cases hmin : lexical.cast type minText with
  | error message =>
      rw [hmin] at hgenerate
      contradiction
  | ok min =>
      cases hmax : lexical.cast type maxText with
      | error message =>
          rw [hmin, hmax] at hgenerate
          contradiction
      | ok max =>
          cases hstep : lexical.cast type stepText with
          | error message =>
              rw [hmin, hmax, hstep] at hgenerate
              contradiction
          | ok step => exact ⟨⟨min, rfl⟩, ⟨max, rfl⟩, step, rfl⟩

/-- What is read of a digit in one byte is its character. -/
theorem cast_digit {type : IntegerType} {text : Text} {value : Int}
    (hbyte : type.width = .bits8) (hdecimal : decimalValue text = some value)
    (hlength : text.length = 1) :
    0 ≤ value ∧ lexical.cast type text = .ok (48 + value) := by
  obtain ⟨c, rfl⟩ := List.length_eq_one_iff.mp hlength
  obtain ⟨hnonneg, hascii, hcode⟩ := digit_of_decimal hdecimal
  exact ⟨hnonneg, hcode ▸ lexical.character type c hbyte hascii⟩

theorem computed_iff_of_byte (hbyte : range.type.width = .bits8) :
    range.Computed lexical ↔
      (range.minText.length = 1 ∧ range.maxText.length = 1 ∧
        range.stepText.length = 1) ∧ range.max ≤ range.min := by
  constructor
  · rintro ⟨fuel, hcomputed⟩
    rw [computeRange_eq] at hcomputed
    obtain ⟨⟨min, hmin⟩, ⟨max, hmax⟩, step, hstep⟩ :=
      cast_of_generate lexical hcomputed
    have hlengths := And.intro (length_of_cast lexical hbyte hmin)
      (And.intro (length_of_cast lexical hbyte hmax)
        (length_of_cast lexical hbyte hstep))
    refine ⟨hlengths, ?_⟩
    by_contra hless
    obtain ⟨hminNonneg, hminDigit⟩ :=
      cast_digit lexical hbyte range.minDecimal hlengths.1
    obtain ⟨-, hmaxDigit⟩ :=
      cast_digit lexical hbyte range.maxDecimal hlengths.2.1
    have hlt : range.min < range.max := not_le.mp hless
    rw [generate_of_cast lexical hminDigit hmaxDigit hstep,
      generated_eq_values, Progression.terms_of_lt range.positive hlt]
      at hcomputed
    have hfirst := IntegerType.first_of_countUp hcomputed
    omega
  · rintro ⟨⟨hmin, hmax, hstep⟩, hle⟩
    obtain ⟨-, hminDigit⟩ := cast_digit lexical hbyte range.minDecimal hmin
    obtain ⟨-, hmaxDigit⟩ := cast_digit lexical hbyte range.maxDecimal hmax
    obtain ⟨-, hstepDigit⟩ := cast_digit lexical hbyte range.stepDecimal hstep
    refine ⟨1, ?_⟩
    rw [computeRange_eq, stepText,
      generate_of_cast lexical hminDigit hmaxDigit hstepDigit,
      generated_eq_values, Progression.terms_of_le range.positive hle]
    exact IntegerType.countUp_of_le (by omega) 0

/-- A range is computed exactly when it fits its type. -/
theorem computed_iff : range.Computed lexical ↔ range.Fits := by
  rw [Fits]
  split
  · next hbyte => exact computed_iff_of_byte lexical range hbyte
  · next hwide => exact computed_iff_of_wide lexical range hwide

end DecimalRange

namespace Sample

def badCast : Text := "bad lexical cast".toList

/-- A cast that knows decimals and nothing else. -/
def decimalCast : LexicalCast where
  cast := fun type text =>
    if type.width = .bits8 then
      match text with
      | [c] => .ok (type.wrap c.toNat)
      | _ => .error badCast
    else
      match decimalValue text with
      | some value => if type.Holds value then .ok value else .error badCast
      | none => .error badCast
  generateFloating := fun _ _ _ _ => .error badCast
  decimal := by
    intro type text value hwide hdecimal hholds
    simp [hwide, hdecimal, hholds]
  character := by
    intro type c hbyte hascii
    obtain ⟨width, signed⟩ := type
    obtain rfl : width = .bits8 := hbyte
    have hholds : (⟨.bits8, signed⟩ : IntegerType).Holds (c.toNat : Int) := by
      cases signed <;> simp [IntegerType.Holds, IntegerType.modulus,
        IntegerWidth.bits] <;> omega
    simp [IntegerType.wrap_of_holds hholds]
  several := by
    intro type text hbyte hlength
    refine ⟨badCast, ?_⟩
    rw [if_pos hbyte]
    split
    · contradiction
    · rfl

/-- The even numbers of sixteen bits. -/
def evenNumbers : DecimalRange where
  node := .array [.leaf "0".toList, .leaf "65535".toList, .leaf "2".toList]
  valueType := "unsigned short".toList
  type := ⟨.bits16, false⟩
  minText := "0".toList
  maxText := "65535".toList
  others := ["2".toList]
  min := 0
  max := 65535
  step := 2
  values := rfl
  known := ⟨"uint16_t", by decide, by decide⟩
  minDecimal := by decide
  maxDecimal := by decide
  stepDecimal := by decide
  minHolds := by decide
  maxHolds := by decide
  stepHolds := by decide
  positive := by decide

/-- After the last even number the loop starts again with zero. -/
theorem not_computed_evenNumbers :
    ¬ ∀ (lexical : LexicalCast) (range : DecimalRange),
      range.Computed lexical := by
  intro hall
  have hholds := (evenNumbers.computed_iff_of_wide decimalCast (by decide)).mp
    (hall decimalCast evenNumbers)
  exact absurd hholds (by decide)

end Sample

end Margot.Heel
