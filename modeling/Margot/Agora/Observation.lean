/-
What the server reads of an observation.  The numbers are read as they are
written; of a string there is only the position in the list of its knob.
-/
import Margot.Heel.Observation
import Margot.Heel.ParsedBlock
import Margot.Agora.Delivery

namespace Margot.Agora

open Heel

section Server

/-- The description that an observation is parsed into. -/
def opDescription (description : BlockModel) : BlockModel :=
  { BlockModel.initial with
    name := description.name
    knobs := description.knobs
    features := { BlockModel.initial.features with
      fields := description.features.fields }
    metrics := description.metrics }

/-- `parse_observation`, `none` where it returns false. -/
def parseObservation (description : BlockModel) (observationValues : Text) :
    Option BlockModel :=
  match Json.readJson observationValues with
  | none => none
  | some opNode =>
      match parseOperatingPoints (opDescription description) opNode with
      | .error _ => none
      | .ok parsed => if parsed.ops = [] then none else some parsed

end Server

variable {F : Floats}

/-- The text says the value of a knob: its number, or the string as it is
listed. -/
def KnobSays (observation : Observation F) (knob : KnobModel) (text : Text) :
    Prop :=
  if knob.type = "string".toList then text = observation.strings knob.name
  else (observation.knobs knob.name).Says text

/-- The Operating Point says what has been observed. -/
structure Says (description : BlockModel) (observation : Observation F)
    (op : OperatingPointModel) : Prop where
  features : List.Forall₂ (fun field value =>
    (observation.features field.name).Says value.mean)
      description.features.fields op.features
  knobs : List.Forall₂ (fun knob value => KnobSays observation knob value.mean)
    description.knobs op.knobs
  metrics : List.Forall₂ (fun metric value =>
    (observation.metrics metric.name).Says value.mean)
      description.metrics op.metrics

/-- The observation is composed, and read as one Operating Point that says
it. -/
def Decoded (block description : BlockModel) (observation : Observation F) :
    Prop :=
  ∃ text, composeObservation block observation = some text ∧
    ∃ parsed op, parseObservation description text = some parsed ∧
      parsed.ops = [op] ∧ Says description observation op

/-- The strings of the observation are values of their knobs. -/
def Listed (block : BlockModel) (observation : Observation F) : Prop :=
  ∀ knob ∈ block.knobs, knob.type = "string".toList →
    observation.strings knob.name ∈ knob.values

/-- The string is the numeral of its own position. -/
def SpellsPosition (F : Floats) (type : Text) (knob : KnobModel)
    (value : Text) : Prop :=
  ∃ key index, CppLiteral.decode value = some key ∧
    knobToVal knob key = some index ∧ (constant F type index).text = value

/-- The condition under which an observation is decoded. -/
structure Decodable (block : BlockModel) (observation : Observation F) :
    Prop where
  compiles : composerCompiles block = true
  features : ∀ field ∈ block.features.fields,
    (observation.features field.name).Exact
  numbers : ∀ knob ∈ block.knobs, knob.type ≠ "string".toList →
    (observation.knobs knob.name).Exact
  strings : ∀ knob ∈ block.knobs, knob.type = "string".toList →
    SpellsPosition F block.knobsSegmentType knob
      (observation.strings knob.name)
  metrics : ∀ metric ∈ block.metrics,
    (observation.metrics metric.name).Exact

section Texts

variable {block : BlockModel} {observation : Observation F}

theorem parserCompiles_of_composerCompiles
    (hcompiles : composerCompiles block = true) :
    parserCompiles block = true := by
  rw [composerCompiles, Bool.and_eq_true, Bool.and_eq_true] at hcompiles
  exact hcompiles.1.1

theorem knobText_number {knob : KnobModel}
    (hnumber : knob.type ≠ "string".toList) :
    knobText block observation knob =
      some (observation.knobs knob.name).text := if_neg hnumber

/-- A listed string has a position, which is what is written. -/
theorem exists_position (hcompiles : composerCompiles block = true)
    (hlisted : Listed block observation) {knob : KnobModel}
    (hmem : knob ∈ block.knobs) (hstring : knob.type = "string".toList) :
    ∃ key index,
      CppLiteral.decode (observation.strings knob.name) = some key ∧
      knobToVal knob key = some index ∧
      knobText block observation knob =
        some (constant F block.knobsSegmentType index).text := by
  rw [composerCompiles, Bool.and_eq_true, List.all_eq_true] at hcompiles
  have hliterals : ∀ value ∈ knob.values,
      (CppLiteral.decode value).isSome = true := by
    simpa [hstring] using hcompiles.2 knob hmem
  have hvalue := hlisted knob hmem hstring
  obtain ⟨keys, hkeys⟩ := exists_map_some.mpr hliterals
  obtain ⟨key, hkey⟩ := Option.isSome_iff_exists.mp (hliterals _ hvalue)
  have hfound : key ∈ keys := by
    have hmapped := List.mem_map_of_mem (f := CppLiteral.decode) hvalue
    rw [hkey, hkeys] at hmapped
    simpa using hmapped
  obtain ⟨index, hindex⟩ := Option.isSome_iff_exists.mp
    (List.isSome_idxOf?.mpr hfound)
  have hposition : knobToVal knob key = some index := by
    rw [knobToVal, mapM_eq_some.mpr hkeys, Option.bind_some, hindex]
  refine ⟨key, index, hkey, hposition, ?_⟩
  rw [knobText, if_pos hstring, hkey]
  simp [hposition]

/-- Every knob has a text. -/
theorem knobText_isSome (hcompiles : composerCompiles block = true)
    (hlisted : Listed block observation) :
    ∀ knob ∈ block.knobs, (knobText block observation knob).isSome = true := by
  intro knob hmem
  by_cases hstring : knob.type = "string".toList
  · obtain ⟨key, index, -, -, htext⟩ :=
      exists_position hcompiles hlisted hmem hstring
    rw [htext]
    rfl
  · rw [knobText_number hstring]
    rfl

/-- Every text is a number, or that of a number that is not finite. -/
theorem spelled_observedTexts (hcompiles : composerCompiles block = true)
    (hlisted : Listed block observation) :
    ∀ data ∈ observedTexts block observation,
      Json.isNumber data = true ∨ data ∈ notFinite := by
  simp only [observedTexts, List.forall_mem_append, List.forall_mem_map,
    List.forall_mem_flatMap, List.forall_mem_cons]
  refine ⟨⟨fun field _ => isNumber_or_notFinite _, fun knob hmem => ?_⟩,
    fun metric _ => ⟨isNumber_or_notFinite _, ?_⟩⟩
  · by_cases hstring : knob.type = "string".toList
    · obtain ⟨key, index, -, -, htext⟩ :=
        exists_position hcompiles hlisted hmem hstring
      rw [htext]
      exact .inl (isNumber_constant F _ _)
    · rw [knobText_number hstring]
      exact isNumber_or_notFinite _
  · intro data hdata
    split at hdata
    · obtain rfl := List.mem_singleton.mp hdata
      exact .inl (by decide)
    · contradiction

end Texts

section Decoding

variable {block description : BlockModel} {observation : Observation F}

/-- The Operating Point that is read for the description says the observation
when every field does. -/
theorem says_readPoint_iff :
    Says description observation (readPoint block observation description) ↔
      (∀ field ∈ description.features.fields,
        (observation.features field.name).Says
          (observation.features field.name).text) ∧
      (∀ knob ∈ description.knobs, KnobSays observation knob
        ((knobText block observation knob).getD [])) ∧
      ∀ metric ∈ description.metrics, (observation.metrics metric.name).Says
        (observation.metrics metric.name).text := by
  constructor
  · rintro ⟨hfeatures, hknobs, hmetrics⟩
    simp only [readPoint, List.forall₂_map_right_iff,
      List.forall₂_same] at hfeatures hknobs hmetrics
    exact ⟨hfeatures, hknobs, hmetrics⟩
  · rintro ⟨hfeatures, hknobs, hmetrics⟩
    constructor
    all_goals simp only [readPoint, List.forall₂_map_right_iff,
      List.forall₂_same]
    · exact hfeatures
    · exact hknobs
    · exact hmetrics

section Parsed

variable (hvalid : ValidBlock block) (hsame : SameBlock description block)
  (hknobs : block.knobs ≠ []) (hmetrics : block.metrics ≠ [])

include hvalid hsame hknobs hmetrics

/-- One Operating Point is read of the text. -/
theorem parseObservation_observed (hcompiles : parserCompiles block = true)
    (hnumbers : ∀ data ∈ observedTexts block observation,
      Json.isNumber data = true) :
    ∃ parsed, parseObservation description (Json.write id false 0
        (.node [] (observedRoot block observation))) = some parsed ∧
      parsed.ops = [readPoint block observation description] := by
  have hchild : (Ptree.node [] (observedRoot block observation)).getChild?
      (opDescription description).name =
        some (Ptree.array [observedPoint block observation]) := by
    have hname : (opDescription description).name = block.name := hsame.name
    rw [hname, Ptree.getChild?_plain (isValidIdentifier_ne_nil hvalid.name)
      (dot_not_mem hvalid.name)]
    exact Ptree.find_cons_self _
  have hpoint : parseOperatingPoint (opDescription description)
      (observedPoint block observation) =
        .ok (readPoint block observation description) :=
    parseOperatingPoint_observed hvalid hcompiles
      hsame.fields.subset hsame.knobs.subset hsame.metrics.subset hnumbers
  have hparsed : parseOperatingPoints (opDescription description)
      (.node [] (observedRoot block observation)) =
        .ok { opDescription description with
          ops := [readPoint block observation description] } := by
    rw [parseOperatingPoints, hchild]
    simp only [Ptree.array, Ptree.children, List.map_cons, List.map_nil,
      List.mapM_cons, List.mapM_nil, hpoint]
    rfl
  rw [parseObservation, readJson_observed hknobs hmetrics hnumbers]
  simp only [hparsed, if_neg (List.cons_ne_nil _ _)]
  exact ⟨_, rfl, rfl⟩

/-- An observation is decoded exactly when its texts are numbers, and say
it. -/
theorem decoded_iff_texts (hcompiles : composerCompiles block = true)
    (hlisted : Listed block observation) :
    Decoded block description observation ↔
      (∀ data ∈ observedTexts block observation, Json.isNumber data = true) ∧
        Says description observation
          (readPoint block observation description) := by
  have hcomposed := composeObservation_eq hvalid hknobs hmetrics hcompiles
    (knobText_isSome hcompiles hlisted)
  have hparses := parserCompiles_of_composerCompiles hcompiles
  constructor
  · rintro ⟨text, htext, parsed, op, hparsed, hop, hsays⟩
    obtain rfl := Option.some.inj (hcomposed.symm.trans htext)
    have hspelled := spelled_observedTexts hcompiles hlisted
    have hnumbers : ∀ data ∈ observedTexts block observation,
        Json.isNumber data = true := by
      intro data hdata
      refine (hspelled data hdata).resolve_right fun hother => ?_
      have hnone := readJson_observed_eq_none hknobs hmetrics hspelled
        ⟨data, hdata, hother⟩
      rw [parseObservation, hnone] at hparsed
      contradiction
    obtain ⟨same, hsameParsed, hops⟩ :=
      parseObservation_observed hvalid hsame hknobs hmetrics hparses hnumbers
    obtain rfl := Option.some.inj (hsameParsed.symm.trans hparsed)
    obtain rfl := List.singleton_inj.mp (hops.symm.trans hop)
    exact ⟨hnumbers, hsays⟩
  · rintro ⟨hnumbers, hsays⟩
    obtain ⟨parsed, hparsed, hops⟩ :=
      parseObservation_observed hvalid hsame hknobs hmetrics hparses hnumbers
    exact ⟨_, hcomposed, parsed, _, hparsed, hops, hsays⟩

end Parsed

/-- What the text of a knob has to be. -/
theorem knob_decodable_iff (hcompiles : composerCompiles block = true)
    (hlisted : Listed block observation) {knob : KnobModel}
    (hmem : knob ∈ block.knobs) :
    Json.isNumber ((knobText block observation knob).getD []) = true ∧
        KnobSays observation knob
          ((knobText block observation knob).getD []) ↔
      (knob.type ≠ "string".toList → (observation.knobs knob.name).Exact) ∧
        (knob.type = "string".toList →
          SpellsPosition F block.knobsSegmentType knob
            (observation.strings knob.name)) := by
  by_cases hstring : knob.type = "string".toList
  · obtain ⟨key, index, hkey, hposition, htext⟩ :=
      exists_position hcompiles hlisted hmem hstring
    rw [htext, Option.getD_some, KnobSays, if_pos hstring]
    constructor
    · rintro ⟨-, hsays⟩
      exact ⟨fun hnumber => absurd hstring hnumber,
        fun _ => ⟨key, index, hkey, hposition, hsays⟩⟩
    · rintro ⟨-, hspells⟩
      refine ⟨isNumber_constant F _ _, ?_⟩
      obtain ⟨other, place, hother, hplace, hspelled⟩ := hspells hstring
      obtain rfl := Option.some.inj (hkey.symm.trans hother)
      obtain rfl := Option.some.inj (hposition.symm.trans hplace)
      exact hspelled
  · rw [knobText_number hstring, Option.getD_some, KnobSays, if_neg hstring,
      says_text_iff]
    exact ⟨fun hexact => ⟨fun _ => hexact, fun h => absurd h hstring⟩,
      fun h => h.1 hstring⟩

theorem decodable_iff_texts (hsame : SameBlock description block)
    (hcompiles : composerCompiles block = true)
    (hlisted : Listed block observation) :
    (∀ data ∈ observedTexts block observation, Json.isNumber data = true) ∧
        Says description observation
          (readPoint block observation description) ↔
      Decodable block observation := by
  simp only [says_readPoint_iff, hsame.fields.mem_iff, hsame.knobs.mem_iff,
    hsame.metrics.mem_iff, observedTexts, List.forall_mem_append,
    List.forall_mem_map, List.forall_mem_flatMap, List.forall_mem_cons]
  constructor
  · rintro ⟨⟨⟨hfields, hknobs⟩, hmetrics⟩, hfieldSays, hknobSays, hmetricSays⟩
    have hknob : ∀ knob ∈ block.knobs, _ := fun knob hmem =>
      (knob_decodable_iff hcompiles hlisted hmem).mp
        ⟨hknobs knob hmem, hknobSays knob hmem⟩
    exact ⟨hcompiles,
      fun field hmem => (says_text_iff _).mp
        ⟨hfields field hmem, hfieldSays field hmem⟩,
      fun knob hmem => (hknob knob hmem).1,
      fun knob hmem => (hknob knob hmem).2,
      fun metric hmem => (says_text_iff _).mp
        ⟨(hmetrics metric hmem).1, hmetricSays metric hmem⟩⟩
  · rintro ⟨-, hfeatures, hnumbers, hstrings, hmetrics⟩
    have hknob : ∀ knob ∈ block.knobs, _ := fun knob hmem =>
      (knob_decodable_iff hcompiles hlisted hmem).mpr
        ⟨hnumbers knob hmem, hstrings knob hmem⟩
    have hfield : ∀ field ∈ block.features.fields, _ := fun field hmem =>
      (says_text_iff _).mpr (hfeatures field hmem)
    have hmetric : ∀ metric ∈ block.metrics, _ := fun metric hmem =>
      (says_text_iff _).mpr (hmetrics metric hmem)
    refine ⟨⟨⟨fun field hmem => (hfield field hmem).1,
        fun knob hmem => (hknob knob hmem).1⟩, fun metric hmem =>
          ⟨(hmetric metric hmem).1, fun data hdata => ?_⟩⟩,
      fun field hmem => (hfield field hmem).2,
      fun knob hmem => (hknob knob hmem).2,
      fun metric hmem => (hmetric metric hmem).2⟩
    split at hdata
    · obtain rfl := List.mem_singleton.mp hdata
      decide
    · contradiction

theorem composerCompiles_of_decoded
    (hdecoded : Decoded block description observation) :
    composerCompiles block = true := by
  obtain ⟨text, htext, -⟩ := hdecoded
  rw [composeObservation] at htext
  split at htext
  · next hcompiles => exact hcompiles
  · contradiction

end Decoding

section Blocks

variable (b : AgoraBlock) {description : BlockModel}
  (hsame : SameBlock description b.block) (observation : Observation F)
  (hlisted : Listed b.block observation)

include hsame hlisted

theorem decodable_of_decoded
    (hdecoded : Decoded b.block description observation) :
    Decodable b.block observation := by
  obtain ⟨hmetrics, hknobs, -⟩ := b.valid.enabled b.enabled
  have hcompiles := composerCompiles_of_decoded hdecoded
  exact (decodable_iff_texts hsame hcompiles hlisted).mp
    ((decoded_iff_texts b.valid hsame hknobs hmetrics hcompiles hlisted).mp
      hdecoded)

/-- An observation of a block is decoded on the server exactly when its numbers
are exact, and its strings are the numerals of their positions. -/
theorem decoded_iff :
    Decoded b.block description observation ↔
      Decodable b.block observation := by
  obtain ⟨hmetrics, hknobs, -⟩ := b.valid.enabled b.enabled
  refine ⟨decodable_of_decoded b hsame observation hlisted,
    fun hdecodable => ?_⟩
  have hcompiles := hdecodable.compiles
  exact (decoded_iff_texts b.valid hsame hknobs hmetrics hcompiles hlisted).mpr
    ((decodable_iff_texts hsame hcompiles hlisted).mpr hdecodable)

end Blocks

namespace Sample

/-- Whole numbers, with the decimals that `std::to_string` adds. -/
def wholeText (n : Nat) : Text := numeral n ++ ".000000".toList

theorem isNumber_wholeText (n : Nat) : Json.isNumber (wholeText n) = true := by
  have hdigit : ∀ c ∈ (".000000".toList).head?, c.isDigit = false := by
    intro c hc
    obtain rfl := Option.some.inj hc
    rfl
  have hread := Json.readNumber_numeral n hdigit
  have hfraction : Json.readFraction ".000000".toList =
      some (".000000".toList, []) := rfl
  rw [Json.isNumber, decide_eq_true_eq, wholeText, hread, hfraction]
  simp [Json.readExponent]

def whole : Floats where
  Value := Nat
  toString := wholeText
  read text := (leadingInteger text).map Int.toNat
  ofNat n := n
  spelled n := .inl (isNumber_wholeText n)
  finite := isNumber_wholeText

/-- A latency of three with the first governor. -/
def observed : Observation whole where
  features _ := .integer 0
  knobs _ := .integer 0
  strings _ := "ondemand".toList
  metrics _ := .floating (3 : Nat)

theorem sameBlock_governed : SameBlock validGoverned validGoverned where
  name := rfl
  knobs := .refl _
  knobsSorted := List.pairwise_singleton _ _
  metrics := .refl _
  metricsSorted := List.pairwise_singleton _ _
  fields := .refl _
  fieldsSorted := .nil
  distance := rfl
  agora := rfl

theorem listed_observed : Listed validGoverned observed := by
  intro knob hmem _
  have hall : ∀ knob ∈ validGoverned.knobs,
      "ondemand".toList ∈ knob.values := by decide +kernel
  exact hall knob hmem

theorem decoded_iff_observed :
    Decoded validGoverned validGoverned observed ↔
      Decodable validGoverned observed :=
  decoded_iff governedBlock sameBlock_governed observed listed_observed

/-- The server reads the position of the string. -/
theorem not_decoded_observed :
    ¬ ∀ (F : Floats) (b : AgoraBlock) (description : BlockModel)
      (observation : Observation F), SameBlock description b.block →
        Listed b.block observation →
          Decoded b.block description observation := by
  intro hall
  have hdecoded := hall whole governedBlock validGoverned observed
    sameBlock_governed listed_observed
  have hdecodable := decodable_of_decoded governedBlock sameBlock_governed
    observed listed_observed hdecoded
  have hstring : ∃ knob ∈ validGoverned.knobs,
      knob.type = "string".toList := by decide +kernel
  obtain ⟨knob, hmem, htype⟩ := hstring
  obtain ⟨key, index, -, -, hspells⟩ := hdecodable.strings knob hmem htype
  have hnumber := isNumber_constant whole validGoverned.knobsSegmentType index
  have hspells : (constant whole validGoverned.knobsSegmentType index).text =
      "ondemand".toList := hspells
  rw [hspells] at hnumber
  exact absurd hnumber (by decide)

end Sample

end Margot.Agora
