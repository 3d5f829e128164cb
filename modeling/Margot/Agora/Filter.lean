/-
The filter of the payloads, and the messages of the protocol that it lets
through: what they carry of the user decides.
-/
import Margot.Library.Filling
import Margot.Heel.CompiledDescription
import Margot.Agora.Topics
import Margot.Agora.Delivery
import Margot.Agora.Observation

namespace Margot.Agora

open Heel

/-- The filter of the payloads has nothing against the text. -/
def Accepted (text : Text) : Prop := ∀ c ∈ text, c ∈ payloadAcceptedCharacters

instance (text : Text) : Decidable (Accepted text) := decidableForallMem _ text

/-- The text is accepted, and so is what is written of it between quotes. -/
def Spoken (text : Text) : Prop :=
  ∀ c ∈ text, c ∈ payloadAcceptedCharacters ∧ c ≠ '"'

instance (text : Text) : Decidable (Spoken text) := decidableForallMem _ text

section Sent

/-- The messages of the protocol that say something of an application: its
description in the welcome and the observations come from a client, the
configurations and the predictions from the server. -/
inductive Sent (F : Floats) where
  | description
  | observation (sec ns : Nat) (observation : Observation F)
  | configuration (configuration : KnobConfiguration)
  | prediction (results : List Prediction)

/-- What is sent, `none` if nothing is: what composes it throws, or it has not
been compiled. -/
def Sent.payload {F : Floats} (b : AgoraBlock) : Sent F → Option Text
  | .description => (applicationDescription b.app).toOption.join
  | .observation sec ns observed =>
      (composeObservation b.block observed).map (observationMessage sec ns)
  | .configuration chosen => (configurationToJson b.block chosen).toOption
  | .prediction results => (predictionToJson b.block results).toOption

/-- The filter lets the payload through, and does not change its message. -/
def LetThrough {F : Floats} (b : AgoraBlock) (sent : Sent F) : Prop :=
  ∀ payload, sent.payload b = some payload → Accepted payload ∧
    ∀ topic : Text, (∀ c ∈ topic, c ∈ topicAcceptedCharacters) →
      whitelist ⟨topic, payload⟩ = ⟨topic, payload⟩

theorem letThrough_iff_accepted {F : Floats} {b : AgoraBlock} {sent : Sent F} :
    LetThrough b sent ↔ ∀ payload, sent.payload b = some payload →
      Accepted payload := by
  constructor
  · exact fun hthrough payload hsent => (hthrough payload hsent).1
  · intro hall payload hsent
    have haccepted := hall payload hsent
    exact ⟨haccepted, fun topic htopic => whitelist_eq_self htopic haccepted⟩

end Sent

section Characters

theorem payload_of_isAlphanum {c : Char} (hc : c.isAlphanum = true) :
    c ∈ payloadAcceptedCharacters :=
  forall_ascii
    (p := fun c => c.isAlphanum = true → c ∈ payloadAcceptedCharacters)
    (by decide +kernel) (toNat_lt_of_isAlphanum hc) hc

theorem payload_of_isTagChar {c : Char} (hc : isTagChar c = true) :
    c ∈ payloadAcceptedCharacters := by
  simp only [isTagChar, Bool.or_eq_true, beq_iff_eq] at hc
  rcases hc with ((halphanum | rfl) | rfl) | rfl
  · exact payload_of_isAlphanum halphanum
  all_goals decide

/-- The marks between the values of a tree are accepted. -/
theorem payload_marks :
    ∀ c ∈ Json.marks, isSpace c = false → c ∈ payloadAcceptedCharacters := by
  decide

theorem accepted_append {first second : Text} :
    Accepted (first ++ second) ↔ Accepted first ∧ Accepted second :=
  List.forall_mem_append

theorem accepted_numeral (n : Nat) : Accepted (numeral n) := fun c hc =>
  payload_of_isTagChar (isTagChar_numeral n c hc)

theorem accepted_name {name : Text} (hname : isValidIdentifier name = true) :
    Accepted name := by
  intro c hc
  rcases mem_of_isValidIdentifier hname hc with halphanum | rfl
  · exact payload_of_isAlphanum halphanum
  · decide

theorem accepted_number {F : Floats} (number : Number F) :
    Accepted number.text := by
  intro c hc
  have hsigns : ∀ c ∈ "+-.eE".toList, c ∈ payloadAcceptedCharacters := by
    decide
  have hwords : ∀ word ∈ notFinite, ∀ c ∈ word,
      c ∈ payloadAcceptedCharacters := by
    decide
  rcases isNumber_or_notFinite number with hnumber | hother
  · rcases Json.numberChar_of_isNumber hnumber c hc with hdigit | hsign
    · exact payload_of_isAlphanum (by simp [Char.isAlphanum, hdigit])
    · exact hsigns c hsign
  · exact hwords _ hother c hc

end Characters

section Observations

variable {F : Floats} {block : BlockModel} {observed : Observation F}

theorem accepted_member {name value : Text}
    (hname : isValidIdentifier name = true) (hvalue : Accepted value) :
    Accepted (member name value) := by
  have hopen : Accepted ['"'] := by decide
  have hclose : Accepted "\":".toList := by decide
  have hlabel : Accepted ('"' :: name) :=
    accepted_append.mpr ⟨hopen, accepted_name hname⟩
  exact accepted_append.mpr ⟨accepted_append.mpr ⟨hlabel, hclose⟩, hvalue⟩

theorem accepted_join {members : List Text}
    (hmembers : ∀ text ∈ members, Accepted text) : Accepted (join members) := by
  intro c hc
  rcases mem_of_mem_intercalate hc with hcomma | ⟨text, hmem, hc⟩
  · obtain rfl := List.mem_singleton.mp hcomma
    decide
  · exact hmembers text hmem c hc

theorem accepted_knobText {knob : KnobModel} {text : Text}
    (htext : knobText block observed knob = some text) : Accepted text := by
  rw [knobText] at htext
  split at htext
  · simp only [bind, Option.bind_eq_some_iff, pure, Option.some.injEq] at htext
    obtain ⟨value, -, index, -, rfl⟩ := htext
    exact accepted_number _
  · obtain rfl := Option.some.inj htext
    exact accepted_number _

theorem accepted_metricText (metric : MetricModel) :
    Accepted (metricText observed metric) := by
  have hnumber := accepted_number (observed.metrics metric.name)
  rw [metricText]
  split
  · have hopen : Accepted ['['] := by decide
    have hclose : Accepted ",0]".toList := by decide
    exact accepted_append.mpr ⟨accepted_append.mpr ⟨hopen, hnumber⟩, hclose⟩
  · exact hnumber

theorem accepted_featuresText (hvalid : ValidBlock block) :
    Accepted (featuresText block observed) := by
  rw [featuresText]
  split
  · exact List.forall_mem_nil _
  · have hopen : Accepted "\"features\":\x7b".toList := by decide
    have hclose : Accepted "\x7d,".toList := by decide
    have hmembers : ∀ text ∈ block.features.fields.map (fun field =>
        member field.name (observed.features field.name).text),
        Accepted text := by
      rw [List.forall_mem_map]
      exact fun field hmem => accepted_member (hvalid.features field hmem).name
        (accepted_number _)
    exact accepted_append.mpr
      ⟨accepted_append.mpr ⟨hopen, accepted_join hmembers⟩, hclose⟩

/-- Numbers and names are all that an observation carries. -/
theorem accepted_composeObservation (hvalid : ValidBlock block) {text : Text}
    (htext : composeObservation block observed = some text) :
    Accepted text := by
  rw [composeObservation] at htext
  split at htext
  · simp only [bind, Option.bind_eq_some_iff, pure, Option.some.injEq] at htext
    obtain ⟨knobs, hknobs, rfl⟩ := htext
    have hknobTexts : ∀ text ∈ knobs, Accepted text := by
      intro text hmem
      have hmapped := List.mem_map_of_mem (f := some) hmem
      rw [← mapM_eq_some.mp hknobs, List.mem_map] at hmapped
      obtain ⟨knob, hknob, hwritten⟩ := hmapped
      obtain ⟨value, hvalue, rfl⟩ := Option.map_eq_some_iff.mp hwritten
      exact accepted_member (hvalid.knobs knob hknob).name
        (accepted_knobText hvalue)
    have hmetricTexts : ∀ text ∈ block.metrics.map (fun metric =>
        member metric.name (metricText observed metric)), Accepted text := by
      rw [List.forall_mem_map]
      exact fun metric hmem => accepted_member
        (hvalid.metrics metric hmem).name (accepted_metricText metric)
    have hname := accepted_name hvalid.name
    have hfeatures : Accepted (featuresText block observed) :=
      accepted_featuresText hvalid
    simp only [accepted_append]
    refine ⟨⟨⟨⟨⟨⟨⟨⟨⟨?_, hname⟩, ?_⟩, hfeatures⟩, ?_⟩,
      accepted_join hknobTexts⟩, ?_⟩, ?_⟩, accepted_join hmetricTexts⟩, ?_⟩
    all_goals decide
  · contradiction

theorem accepted_observationMessage (sec ns : Nat) {text : Text}
    (htext : Accepted text) : Accepted (observationMessage sec ns text) := by
  have hseparator : Accepted ['@'] := by decide
  have hrest : ∀ n : Nat, ∀ {rest : Text}, Accepted rest →
      Accepted (numeral n ++ '@' :: rest) := by
    intro n rest hrest
    exact accepted_append.mpr
      ⟨accepted_numeral n, accepted_append.mpr ⟨hseparator, hrest⟩⟩
  exact hrest sec (hrest ns htext)

/-- Every observation is let through. -/
theorem letThrough_observation (b : AgoraBlock) (sec ns : Nat)
    (observed : Observation F) : LetThrough b (.observation sec ns observed) := by
  rw [letThrough_iff_accepted]
  intro payload hsent
  obtain ⟨text, htext, rfl⟩ := Option.map_eq_some_iff.mp hsent
  exact accepted_observationMessage sec ns
    (accepted_composeObservation b.valid htext)

end Observations

section Description

/-- The description is let through exactly when all that it carries of the user
is accepted, or there is a quote in it and nothing is sent. -/
theorem letThrough_description_iff {F : Floats} (b : AgoraBlock) :
    LetThrough b (.description : Sent F) ↔
      (∀ text ∈ b.app.texts, '"' ∉ text) →
        ∀ text ∈ b.app.texts, Accepted text := by
  have haccepted := acceptedBlocks_of_validate b.accepted
  rw [letThrough_iff_accepted]
  by_cases hfree : ∀ text ∈ b.app.texts, '"' ∉ text
  · obtain ⟨heard, hdescription, hheard⟩ := exists_applicationDescription
      haccepted (fun c => payload_of_isTagChar) (by decide) payload_marks
      (by decide) hfree
    have hpayload : (Sent.description : Sent F).payload b = some heard := by
      rw [Sent.payload, hdescription]
      rfl
    rw [hpayload, forall_prop_of_true hfree]
    constructor
    · exact fun hall => hheard.mp (hall heard rfl)
    · intro htexts payload hsent
      obtain rfl := Option.some.inj hsent
      exact hheard.mpr htexts
  · have hpayload : (Sent.description : Sent F).payload b = none := by
      rw [Sent.payload, applicationDescription_of_quote haccepted hfree]
      rfl
    rw [hpayload]
    exact iff_of_true (fun _ hsent => absurd hsent (Option.some_ne_none _).symm)
      fun hall => absurd hall hfree

end Description

section Encoded

/-- What is matched stands before a quote. -/
theorem exists_of_matchNumber {rest number : Text}
    (hnumber : matchNumber rest = some number) :
    isNumeral number = true ∧ ∃ tail, rest = number ++ '"' :: tail := by
  rw [matchNumber] at hnumber
  split at hnumber
  · next hmatch =>
      obtain rfl := Option.some.inj hnumber
      rw [Bool.and_eq_true, decide_eq_true_eq] at hmatch
      obtain ⟨hnumeral, hlonger⟩ := hmatch
      refine ⟨hnumeral, ?_⟩
      have hparts := List.takeWhile_append_dropWhile
        (p := fun c => decide (c ≠ '"')) (l := rest)
      have hhead := List.head?_dropWhile_not (fun c => decide (c ≠ '"')) rest
      cases hafter : rest.dropWhile fun c => decide (c ≠ '"') with
      | nil =>
          rw [hafter, List.append_nil] at hparts
          rw [hparts] at hlonger
          exact absurd hlonger (Nat.lt_irrefl _)
      | cons c tail =>
          rw [hafter] at hparts hhead
          have hc : c = '"' := by simpa using hhead
          rw [hc] at hparts
          exact ⟨tail, hparts.symm⟩
  · contradiction

theorem ne_line_of_isNumeral {number : Text} (hnumeral : isNumeral number = true)
    {c : Char} (hc : c ∈ number) : c ≠ '\n' := by
  rintro rfl
  rcases isDigit_or_dot_of_isNumeral hnumeral hc with hdigit | hdot
  · contradiction
  · contradiction

/-- Nothing is lost of a text but quotes and ends of lines. -/
theorem forall_mem_replaceFrom {p : Char → Prop} (hquote : p '"') (text : Text)
    (skip : Nat) :
    (∀ c ∈ replaceFrom skip text, p c) ↔
      ∀ c ∈ text.drop skip, c ≠ '\n' → p c := by
  induction text generalizing skip with
  | nil => simp [replaceFrom]
  | cons c rest ih =>
      cases skip with
      | succ skip => exact ih skip
      | zero =>
          have hrest := ih 0
          rw [List.drop_zero] at hrest
          rw [List.drop_zero, replaceFrom, List.forall_mem_cons]
          split
          · next hline => simp [hrest, hline]
          · next hline =>
              split
              · next hc =>
                  subst hc
                  split
                  · next number hnumber =>
                      obtain ⟨hnumeral, tail, htail⟩ :=
                        exists_of_matchNumber hnumber
                      have hafter : rest.drop (number.length + 1) = tail := by
                        rw [htail, List.drop_append]
                        simp
                      have hdigits : (∀ c ∈ number, c ≠ '\n' → p c) ↔
                          ∀ c ∈ number, p c := by
                        apply forall₂_congr
                        intro c hc
                        exact forall_prop_of_true
                          (ne_line_of_isNumeral hnumeral hc)
                      rw [List.forall_mem_append, ih, hafter, htail,
                        List.forall_mem_append, List.forall_mem_cons, hdigits]
                      simp [hquote]
                  · rw [List.forall_mem_cons, hrest]
                    simp [hquote]
              · rw [List.forall_mem_cons, hrest]
                simp [hline]

/-- Nothing that is written with a backslash is accepted. -/
theorem accepted_escape_iff (c : Char) :
    (∀ d ∈ Json.escape c, d ≠ '\n' → d ∈ payloadAcceptedCharacters) ↔
      c ∈ payloadAcceptedCharacters ∧ c ≠ '"' := by
  cases hplain : Json.isPlain c with
  | true =>
      have hother : c ≠ '\n' ∧ c ≠ '"' := by
        refine ⟨?_, ?_⟩
        all_goals
          rintro rfl
          contradiction
      rw [Json.escape_of_plain hplain, List.forall_mem_singleton]
      simp [hother]
  | false =>
      have hquote : ∀ c ∈ payloadAcceptedCharacters,
          Json.isPlain c = false → c = '"' := by
        decide +kernel
      obtain ⟨rest, hescape⟩ := Json.escape_of_not_plain hplain
      rw [hescape]
      apply iff_of_false
      · intro hall
        exact absurd (hall '\\' List.mem_cons_self (by decide)) (by decide)
      · rintro ⟨hc, hother⟩
        exact hother (hquote c hc hplain)

theorem spoken_iff_quoted (text : Text) :
    (∀ c ∈ Json.quoted text, c ≠ '\n' → c ∈ payloadAcceptedCharacters) ↔
      Spoken text := by
  have hquote : '"' ∈ payloadAcceptedCharacters := by decide
  rw [Json.quoted, List.forall_mem_append, List.forall_mem_cons,
    List.forall_mem_singleton, Json.createEscapes, List.forall_mem_flatMap,
    forall₂_congr fun c _ => accepted_escape_iff c]
  simp [hquote, Spoken]

theorem spoken_of_accepted {text : Text} (haccepted : Accepted text)
    (hquote : '"' ∉ text) : Spoken text := fun c hc =>
  ⟨haccepted c hc, fun heq => hquote (heq ▸ hc)⟩

theorem spoken_name {name : Text} (hname : isValidIdentifier name = true) :
    Spoken name :=
  spoken_of_accepted (accepted_name hname) (quote_not_mem hname)

theorem spoken_empty : Spoken [] := List.forall_mem_nil _

variable {block : BlockModel}

theorem verifyJson_messageRoot (ops : List Ptree) :
    Json.verifyJson (.node [] (messageRoot block ops)) = true ↔
      ∀ op ∈ ops, Json.plainNodes op = true := by
  have hroot : Json.verifyJson (.node [] (messageRoot block ops)) =
      Json.plainChildren (ops.map fun op => ([], op)) := by
    simp [messageRoot, Json.verifyJson, Json.plainNodes, Json.plainChildren,
      Ptree.data, Ptree.array]
  rw [hroot, Json.plainChildren_iff, List.forall_mem_map]

theorem holds_messageRoot (hname : isValidIdentifier block.name = true)
    (ops : List Ptree) :
    Json.Holds Spoken (.node [] (messageRoot block ops)) ↔
      ∀ op ∈ ops, Json.Holds Spoken op := by
  rw [messageRoot, Json.holds_node spoken_empty, Json.HoldsOf,
    List.forall_mem_singleton, Json.holds_array spoken_empty]
  exact and_iff_right (spoken_name hname)

/-- What is written on one line is accepted exactly when its values and its keys
are, between their quotes. -/
theorem accepted_unquoteNumbers_iff {tree : Ptree} (hsome : tree.children ≠ []) :
    Accepted (unquoteNumbers (Json.write Json.quoted false 0 tree)) ↔
      Json.Holds Spoken tree := by
  have hquote : '"' ∈ payloadAcceptedCharacters := by decide
  have hmarks : ∀ c ∈ Json.marks, c ≠ '\n' → c ∈ payloadAcceptedCharacters := by
    decide
  have hall := forall_mem_replaceFrom hquote
    (Json.write Json.quoted false 0 tree) 0
  rw [List.drop_zero, Json.forall_mem_write hmarks (fun _ => hquote) false tree
    (.inr hsome)] at hall
  rw [Accepted, unquoteNumbers, hall, Json.Holds]
  simp only [spoken_iff_quoted]

theorem toOption_encode (hname : isValidIdentifier block.name = true)
    (ops : List Ptree) :
    (encode block ops).toOption =
      if Json.verifyJson (.node [] (messageRoot block ops)) then
        some (unquoteNumbers
          (Json.write Json.quoted false 0 (.node [] (messageRoot block ops))))
      else none := by
  have hroot : Ptree.empty.addChild block.name (Ptree.array ops) =
      .node [] (messageRoot block ops) :=
    Ptree.addChild_plain (isValidIdentifier_ne_nil hname) (dot_not_mem hname)
      _ _
  rw [encode, hroot, Json.writeJson]
  cases Json.verifyJson (.node [] (messageRoot block ops)) with
  | true =>
      simp only [require, Json.lineEnd, if_true, Bool.false_eq_true, if_false,
        List.append_nil]
      rfl
  | false => rfl

/-- Operating Points that can be written are accepted exactly when all that is
written in them is. -/
theorem accepted_encode_iff (hname : isValidIdentifier block.name = true)
    (ops : List Ptree) :
    (∀ payload, (encode block ops).toOption = some payload →
        Accepted payload) ↔
      ((∀ op ∈ ops, Json.plainNodes op = true) →
        ∀ op ∈ ops, Json.Holds Spoken op) := by
  have hsome : (Ptree.node [] (messageRoot block ops)).children ≠ [] :=
    List.cons_ne_nil _ _
  have hverify : Json.verifyJson (.node [] (messageRoot block ops)) = true ↔
      ∀ op ∈ ops, Json.plainNodes op = true := verifyJson_messageRoot ops
  rw [toOption_encode hname, ← hverify, ← holds_messageRoot hname,
    ← accepted_unquoteNumbers_iff hsome]
  cases Json.verifyJson (.node [] (messageRoot block ops)) with
  | true => simp
  | false => simp

end Encoded

section Entries

open Filling

variable (block : BlockModel)

def knobEntries (configuration : KnobConfiguration) : List (Text × Filling) :=
  block.knobs.map fun knob => (knob.name, .value (knobValue configuration knob))

def featureEntries (features : Text → Text) : List (Text × Filling) :=
  block.features.fields.map fun field =>
    (field.name, .value (features field.name))

/-- What a metric adds to its section: a list if it has a distribution. -/
def metricFilling (metric : MetricModel) (value : MetricValue) : Filling :=
  if metric.distribution then
    .list [Ptree.leaf value.avg, Ptree.leaf value.std]
  else .value value.avg

def metricEntries (result : Text → MetricValue) : List (Text × Filling) :=
  block.metrics.map fun metric =>
    (metric.name, metricFilling metric (result metric.name))

/-- The sections of an Operating Point. -/
def featureSections (features : Text → Text) :
    List (Text × List (Text × Filling)) :=
  if areFeaturesEnabled block then
    [("features".toList, featureEntries block features)]
  else []

def configurationSections (configuration : KnobConfiguration) :
    List (Text × List (Text × Filling)) :=
  ("knobs".toList, knobEntries block configuration) ::
    (featureSections block (fun _ => "9999".toList) ++
      [("metrics".toList, metricEntries block fun _ => unknownMetric)])

def predictionSections (prediction : Prediction) :
    List (Text × List (Text × Filling)) :=
  featureSections block prediction.features ++
    [("knobs".toList, knobEntries block prediction.configuration),
      ("metrics".toList, metricEntries block prediction.result)]

variable {block} (hvalid : ValidBlock block)

include hvalid

theorem putKnobs_eq_filled (configuration : KnobConfiguration) :
    putKnobs block configuration =
      .node [] (filled (knobEntries block configuration)) := by
  apply foldl_filled
  intro knob hmem children
  have hname := (hvalid.knobs knob hmem).name
  exact put_node (isValidIdentifier_ne_nil hname) (dot_not_mem hname) _ _

theorem putFeatures_eq_filled (features : Text → Text) :
    putFeatures block features =
      .node [] (filled (featureEntries block features)) := by
  apply foldl_filled
  intro field hmem children
  have hname := (hvalid.features field hmem).name
  exact put_node (isValidIdentifier_ne_nil hname) (dot_not_mem hname) _ _

theorem putMetrics_eq_filled (result : Text → MetricValue) :
    putMetrics block result =
      .node [] (filled (metricEntries block result)) := by
  apply foldl_filled
  intro metric hmem children
  have hname := (hvalid.metrics metric hmem).name
  have hsome := isValidIdentifier_ne_nil hname
  have hplain := dot_not_mem hname
  rw [metricFilling]
  split
  · rw [addList_node composeText hsome hplain]
    rfl
  · exact put_node hsome hplain _ _

theorem configurationOp_eq_sectioned (configuration : KnobConfiguration) :
    configurationOp block configuration =
      sectioned (configurationSections block configuration) := by
  rw [configurationOp, putKnobs_eq_filled hvalid, putFeatures_eq_filled hvalid,
    putMetrics_eq_filled hvalid, configurationSections, featureSections]
  cases areFeaturesEnabled block with
  | true => rfl
  | false => rfl

theorem predictionOp_eq_sectioned (prediction : Prediction) :
    predictionOp block prediction =
      sectioned (predictionSections block prediction) := by
  rw [predictionOp, putKnobs_eq_filled hvalid, putFeatures_eq_filled hvalid,
    putMetrics_eq_filled hvalid, predictionSections, featureSections]
  cases areFeaturesEnabled block with
  | true => rfl
  | false => rfl

end Entries

section Points

open Filling

variable {block : BlockModel} {prediction : Prediction}
  {sections : List (Text × List (Text × Filling))}

/-- The sections of an Operating Point, in some order. -/
def IsSections (block : BlockModel) (prediction : Prediction)
    (sections : List (Text × List (Text × Filling))) : Prop :=
  ∀ part, part ∈ sections ↔
    part = ("knobs".toList, knobEntries block prediction.configuration) ∨
    part = ("metrics".toList, metricEntries block prediction.result) ∨
    (block.features.fields ≠ [] ∧
      part = ("features".toList, featureEntries block prediction.features))

/-- No knob after this one has its name. -/
def IsLast (knobs : List KnobModel) (knob : KnobModel) : Prop :=
  ∃ before after, knobs = before ++ knob :: after ∧
    ∀ other ∈ after, other.name ≠ knob.name

/-- All that an Operating Point carries is accepted, between quotes too.  The
value of a string has quotes of its own. -/
structure Conveyed (block : BlockModel) (prediction : Prediction) : Prop where
  features : ∀ field ∈ block.features.fields,
    Spoken (prediction.features field.name)
  knobs : ∀ knob, IsLast block.knobs knob → knob.type ≠ "string".toList ∧
    Spoken (prediction.configuration knob.name)
  metrics : ∀ metric ∈ block.metrics,
    ∀ text ∈ metricTexts metric (prediction.result metric.name), Spoken text

/-- The value of a metric is put on the list of another one with its name. -/
def PutOnList (metrics : List MetricModel) (metric : MetricModel) : Prop :=
  metric.distribution = false ∧
    ∃ first, metrics.find? (fun other => other.name = metric.name) =
      some first ∧ first.distribution = true

/-- No value is put on a list. -/
def Composable (block : BlockModel) (result : Text → MetricValue) : Prop :=
  ∀ metric ∈ block.metrics, PutOnList block.metrics metric →
    (result metric.name).avg = []

theorem mem_featureSections (features : Text → Text)
    (part : Text × List (Text × Filling)) :
    part ∈ featureSections block features ↔ block.features.fields ≠ [] ∧
      part = ("features".toList, featureEntries block features) := by
  rw [featureSections, ← areFeaturesEnabled_iff]
  split
  · next henabled => simp [henabled]
  · next henabled => simp [henabled]

theorem isSections_configuration (configuration : KnobConfiguration) :
    IsSections block (unknownPrediction configuration)
      (configurationSections block configuration) := by
  intro part
  rw [configurationSections, List.mem_cons, List.mem_append,
    List.mem_singleton, mem_featureSections]
  exact or_congr_right or_comm

theorem isSections_prediction (prediction : Prediction) :
    IsSections block prediction (predictionSections block prediction) := by
  intro part
  rw [predictionSections, List.mem_append, List.mem_cons, List.mem_singleton,
    mem_featureSections, or_comm, or_assoc]

theorem plainLists_of_values {entries : List (Text × Filling)}
    (hvalues : ∀ name elements, (name, .list elements) ∉ entries) :
    PlainLists entries ∧ Writable entries := by
  constructor
  · exact fun name elements hmem => absurd hmem (hvalues name elements)
  · exact fun name elements hfirst =>
      absurd (mem_of_firstOf hfirst) (hvalues name elements)

theorem plainLists_knobs (configuration : KnobConfiguration) :
    PlainLists (knobEntries block configuration) ∧
      Writable (knobEntries block configuration) :=
  plainLists_of_values (by simp [knobEntries])

theorem plainLists_features (features : Text → Text) :
    PlainLists (featureEntries block features) ∧
      Writable (featureEntries block features) :=
  plainLists_of_values (by simp [featureEntries])

theorem plainLists_metrics (result : Text → MetricValue) :
    PlainLists (metricEntries block result) := by
  intro name elements hmem
  obtain ⟨metric, -, hentry⟩ := List.mem_map.mp hmem
  obtain ⟨-, hfilling⟩ := Prod.mk.inj hentry
  rw [metricFilling] at hfilling
  split at hfilling
  · obtain rfl := Filling.list.inj hfilling
    refine ⟨List.cons_ne_nil _ _, ?_⟩
    simp [Json.plainNodes_leaf]
  · contradiction

/-- Every knob has a last one of its name. -/
theorem exists_isLast {knobs : List KnobModel} {knob : KnobModel}
    (hmem : knob ∈ knobs) :
    ∃ last, IsLast knobs last ∧ last.name = knob.name := by
  induction knobs using List.reverseRecOn with
  | nil => contradiction
  | append_singleton knobs other ih =>
      by_cases hsame : other.name = knob.name
      · exact ⟨other, ⟨knobs, [], rfl, List.forall_mem_nil _⟩, hsame⟩
      · have hbefore : knob ∈ knobs := by
          rcases List.mem_append.mp hmem with hmem | hmem
          · exact hmem
          · exact absurd (List.mem_singleton.mp hmem ▸ rfl) hsame
        obtain ⟨last, ⟨before, after, rfl, hlast⟩, hname⟩ := ih hbefore
        refine ⟨last, ⟨before, after ++ [other], by simp, ?_⟩, hname⟩
        rw [List.forall_mem_append, List.forall_mem_singleton, hname]
        exact ⟨hname ▸ hlast, hsame⟩

theorem lastValue_knobs {configuration : KnobConfiguration} {knob : KnobModel}
    (hlast : IsLast block.knobs knob) :
    lastValue (knobEntries block configuration) knob.name =
      knobValue configuration knob := by
  obtain ⟨before, after, hknobs, hafter⟩ := hlast
  rw [knobEntries, hknobs, List.map_append, List.map_cons]
  apply lastValue_of_last
  rw [List.forall_mem_map]
  exact hafter

/-- A string is never accepted. -/
theorem spoken_knobValue_iff (configuration : KnobConfiguration)
    (knob : KnobModel) :
    Spoken (knobValue configuration knob) ↔ knob.type ≠ "string".toList ∧
      Spoken (configuration knob.name) := by
  rw [knobValue]
  split
  · next hstring =>
      apply iff_of_false
      · intro hspoken
        exact (hspoken '"' List.mem_cons_self).2 rfl
      · exact fun hother => hother.1 hstring
  · next hother => exact (and_iff_right hother).symm

theorem spoken_knobs_iff (configuration : KnobConfiguration) :
    (∀ text ∈ texts (knobEntries block configuration), Spoken text) ↔
      ∀ knob, IsLast block.knobs knob → knob.type ≠ "string".toList ∧
        Spoken (configuration knob.name) := by
  have htexts : (∀ text ∈ texts (knobEntries block configuration),
      Spoken text) ↔ ∀ knob ∈ block.knobs,
        Spoken (lastValue (knobEntries block configuration) knob.name) := by
    rw [texts, List.forall_mem_flatMap]
    simp [knobEntries]
  rw [htexts]
  constructor
  · intro hall knob hlast
    obtain ⟨before, after, hknobs, -⟩ := id hlast
    have hmem : knob ∈ block.knobs := by
      rw [hknobs]
      exact List.mem_append_right _ List.mem_cons_self
    have hspoken := hall knob hmem
    rwa [lastValue_knobs hlast, spoken_knobValue_iff] at hspoken
  · intro hall knob hmem
    obtain ⟨last, hlast, hname⟩ := exists_isLast hmem
    rw [← hname, lastValue_knobs hlast, spoken_knobValue_iff]
    exact hall last hlast

/-- The name of a field decides its value. -/
theorem texts_features (features : Text → Text) :
    texts (featureEntries block features) =
      block.features.fields.map fun field => features field.name := by
  have hlast : ∀ field ∈ block.features.fields,
      lastValue (featureEntries block features) field.name =
        features field.name := by
    intro field hmem
    have hentry : (field.name, .value (features field.name)) ∈
        featureEntries block features := List.mem_map_of_mem hmem
    obtain ⟨other, -, hother⟩ := List.mem_map.mp (mem_of_lastValue hentry)
    obtain ⟨hname, hvalue⟩ := Prod.mk.inj hother
    exact (Filling.value.inj hvalue).symm.trans (congrArg features hname)
  have htexts : texts (featureEntries block features) =
      block.features.fields.flatMap fun field =>
        [lastValue (featureEntries block features) field.name] := by
    rw [texts]
    nth_rewrite 2 [featureEntries]
    rw [List.flatMap_map]
  rw [htexts, ← List.map_eq_flatMap]
  exact List.map_congr_left hlast

/-- So does that of a metric. -/
theorem metric_of_value {result : Text → MetricValue} {name text : Text}
    (hmem : (name, .value text) ∈ metricEntries block result) :
    text = (result name).avg ∧ ∃ metric ∈ block.metrics,
      metric.name = name ∧ metric.distribution = false := by
  obtain ⟨metric, hmetric, hentry⟩ := List.mem_map.mp hmem
  obtain ⟨rfl, hfilling⟩ := Prod.mk.inj hentry
  rw [metricFilling] at hfilling
  split at hfilling
  · contradiction
  · next hvalue =>
      exact ⟨(Filling.value.inj hfilling).symm, metric, hmetric, rfl,
        Bool.eq_false_iff.mpr hvalue⟩

theorem lastValue_metrics (result : Text → MetricValue) {metric : MetricModel}
    (hmem : metric ∈ block.metrics) (hvalue : metric.distribution = false) :
    lastValue (metricEntries block result) metric.name =
      (result metric.name).avg := by
  have hentry : (metric.name, .value (result metric.name).avg) ∈
      metricEntries block result := by
    apply List.mem_map.mpr
    refine ⟨metric, hmem, ?_⟩
    rw [metricFilling, hvalue]
    rfl
  exact (metric_of_value (mem_of_lastValue hentry)).1

theorem texts_metrics (result : Text → MetricValue) :
    texts (metricEntries block result) = block.metrics.flatMap fun metric =>
      metricTexts metric (result metric.name) := by
  rw [texts]
  nth_rewrite 2 [metricEntries]
  rw [List.flatMap_map]
  apply List.flatMap_congr
  intro metric hmem
  rw [metricTexts, metricFilling]
  cases hvalue : metric.distribution with
  | true => rfl
  | false => simp [lastValue_metrics result hmem hvalue]

theorem firstOf_metrics (result : Text → MetricValue) (name : Text) :
    firstOf (metricEntries block result) name =
      (block.metrics.find? fun metric => metric.name = name).map fun metric =>
        metricFilling metric (result metric.name) := by
  rw [firstOf, metricEntries, List.find?_map, Option.map_map]
  rfl

theorem writable_metrics_iff (result : Text → MetricValue) :
    Writable (metricEntries block result) ↔ Composable block result := by
  have hfirst : ∀ name, (∃ elements,
      firstOf (metricEntries block result) name = some (.list elements)) ↔
      ∃ first, block.metrics.find? (fun other => other.name = name) =
        some first ∧ first.distribution = true := by
    intro name
    rw [firstOf_metrics]
    constructor
    · rintro ⟨elements, hlist⟩
      obtain ⟨first, hfound, hfilling⟩ := Option.map_eq_some_iff.mp hlist
      refine ⟨first, hfound, ?_⟩
      by_contra hvalue
      rw [metricFilling, if_neg hvalue] at hfilling
      contradiction
    · rintro ⟨first, hfound, hlist⟩
      rw [hfound, Option.map_some, metricFilling, if_pos hlist]
      exact ⟨_, rfl⟩
  constructor
  · rintro hwritable metric hmem ⟨hvalue, hlist⟩
    obtain ⟨elements, helements⟩ := (hfirst metric.name).mpr hlist
    have hlast := hwritable metric.name elements helements
    rwa [lastValue_metrics result hmem hvalue] at hlast
  · intro hcomposable name elements helements
    by_cases hsome : ∃ text, (name, .value text) ∈ metricEntries block result
    · obtain ⟨text, hentry⟩ := hsome
      obtain ⟨-, metric, hmem, rfl, hvalue⟩ := metric_of_value hentry
      rw [lastValue_metrics result hmem hvalue]
      exact hcomposable metric hmem
        ⟨hvalue, (hfirst metric.name).mp ⟨elements, helements⟩⟩
    · exact lastValue_of_not_mem fun text hentry => hsome ⟨text, hentry⟩

theorem IsSections.forall_iff (hsections : IsSections block prediction sections)
    {p : Text × List (Text × Filling) → Prop} :
    (∀ part ∈ sections, p part) ↔
      p ("knobs".toList, knobEntries block prediction.configuration) ∧
      p ("metrics".toList, metricEntries block prediction.result) ∧
      (block.features.fields ≠ [] →
        p ("features".toList, featureEntries block prediction.features)) := by
  constructor
  · intro hall
    refine ⟨hall _ ?_, hall _ ?_, fun hfields => hall _ ?_⟩
    · exact (hsections _).mpr (.inl rfl)
    · exact (hsections _).mpr (.inr (.inl rfl))
    · exact (hsections _).mpr (.inr (.inr ⟨hfields, rfl⟩))
  · rintro ⟨hknobs, hmetrics, hfeatures⟩ part hmem
    rcases (hsections part).mp hmem with rfl | rfl | ⟨hfields, rfl⟩
    · exact hknobs
    · exact hmetrics
    · exact hfeatures hfields

theorem IsSections.plainLists (hsections : IsSections block prediction sections) :
    ∀ part ∈ sections, PlainLists part.2 :=
  hsections.forall_iff.mpr ⟨(plainLists_knobs _).1, plainLists_metrics _,
    fun _ => (plainLists_features _).1⟩

theorem IsSections.writable_iff
    (hsections : IsSections block prediction sections) :
    (∀ part ∈ sections, Writable part.2) ↔
      Composable block prediction.result := by
  rw [hsections.forall_iff, ← writable_metrics_iff]
  constructor
  · exact fun hall => hall.2.1
  · exact fun hmetrics => ⟨(plainLists_knobs _).2, hmetrics,
      fun _ => (plainLists_features _).2⟩

/-- Only the metrics can keep an Operating Point from being written. -/
theorem IsSections.plainNodes_iff
    (hsections : IsSections block prediction sections) :
    Json.plainNodes (sectioned sections) = true ↔
      Composable block prediction.result := by
  rw [plainNodes_sectioned hsections.plainLists, hsections.writable_iff]

/-- The names of the fields are no obstacle. -/
theorem IsSections.spoken_names (hvalid : ValidBlock block)
    (hsections : IsSections block prediction sections) :
    ∀ part ∈ sections, Spoken part.1 ∧ ∀ entry ∈ part.2, Spoken entry.1 := by
  have htags : Spoken "knobs".toList ∧ Spoken "metrics".toList ∧
      Spoken "features".toList := by decide
  rw [hsections.forall_iff]
  refine ⟨⟨htags.1, ?_⟩, ⟨htags.2.1, ?_⟩, fun _ => ⟨htags.2.2, ?_⟩⟩
  · rw [knobEntries, List.forall_mem_map]
    exact fun knob hmem => spoken_name (hvalid.knobs knob hmem).name
  · rw [metricEntries, List.forall_mem_map]
    exact fun metric hmem => spoken_name (hvalid.metrics metric hmem).name
  · rw [featureEntries, List.forall_mem_map]
    exact fun field hmem => spoken_name (hvalid.features field hmem).name

theorem IsSections.holds_iff (hvalid : ValidBlock block)
    (hsections : IsSections block prediction sections)
    (hcomposable : Composable block prediction.result) :
    Json.Holds Spoken (sectioned sections) ↔ Conveyed block prediction := by
  have hnames := hsections.spoken_names hvalid
  have htexts : Json.Holds Spoken (sectioned sections) ↔
      ∀ part ∈ sections, ∀ text ∈ texts part.2, Spoken text := by
    rw [holds_sectioned hsections.plainLists spoken_empty
      (hsections.writable_iff.mpr hcomposable)]
    apply forall₂_congr
    intro part hmem
    obtain ⟨htag, hentries⟩ := hnames part hmem
    rw [and_iff_right htag, and_iff_right hentries]
  rw [htexts, hsections.forall_iff, spoken_knobs_iff, texts_metrics,
    texts_features, List.forall_mem_flatMap, List.forall_mem_map]
  constructor
  · rintro ⟨hknobs, hmetrics, hfeatures⟩
    exact ⟨fun field hmem => hfeatures (List.ne_nil_of_mem hmem) field hmem,
      hknobs, hmetrics⟩
  · rintro ⟨hfeatures, hknobs, hmetrics⟩
    exact ⟨hknobs, hmetrics, fun _ => hfeatures⟩

end Points

section Messages

open Filling

variable {F : Floats} (b : AgoraBlock)

/-- All that the Operating Points of a message carry is accepted, if they can be
written at all. -/
def AllConveyed (results : List Prediction) : Prop :=
  (∀ prediction ∈ results, Composable b.block prediction.result) →
    ∀ prediction ∈ results, Conveyed b.block prediction

/-- What is sent carries only what the filter accepts. -/
def Sent.Harmless : Sent F → Prop
  | .description => (∀ text ∈ b.app.texts, '"' ∉ text) →
      ∀ text ∈ b.app.texts, Accepted text
  | .observation _ _ _ => True
  | .configuration chosen => AllConveyed b [unknownPrediction chosen]
  | .prediction results => AllConveyed b results

/-- The Operating Points of predictions, with their sections in any order. -/
theorem accepted_points_iff {results : List Prediction}
    {sections : Prediction → List (Text × List (Text × Filling))}
    (hsections : ∀ prediction ∈ results,
      IsSections b.block prediction (sections prediction)) :
    (∀ payload, (encode b.block
        (results.map fun prediction => sectioned (sections prediction))
        ).toOption = some payload → Accepted payload) ↔
      AllConveyed b results := by
  rw [accepted_encode_iff b.valid.name, List.forall_mem_map,
    List.forall_mem_map, AllConveyed]
  have hplain : (∀ prediction ∈ results,
      Json.plainNodes (sectioned (sections prediction)) = true) ↔
      ∀ prediction ∈ results, Composable b.block prediction.result :=
    forall₂_congr fun prediction hmem =>
      (hsections prediction hmem).plainNodes_iff
  rw [hplain]
  apply forall_congr'
  intro hcomposable
  apply forall₂_congr
  intro prediction hmem
  exact (hsections prediction hmem).holds_iff b.valid
    (hcomposable prediction hmem)

theorem letThrough_configuration_iff (configuration : KnobConfiguration) :
    LetThrough b (.configuration configuration : Sent F) ↔
      AllConveyed b [unknownPrediction configuration] := by
  have hsections : ∀ prediction ∈ [unknownPrediction configuration],
      IsSections b.block prediction
        (configurationSections b.block configuration) := by
    rw [List.forall_mem_singleton]
    exact isSections_configuration configuration
  have hpayload : (Sent.configuration configuration : Sent F).payload b =
      (encode b.block [sectioned
        (configurationSections b.block configuration)]).toOption := by
    rw [Sent.payload, configurationToJson, configurationOp_eq_sectioned b.valid]
  rw [letThrough_iff_accepted, hpayload]
  exact accepted_points_iff b hsections

theorem letThrough_prediction_iff (results : List Prediction) :
    LetThrough b (.prediction results : Sent F) ↔ AllConveyed b results := by
  have hops : predictionOp b.block = fun prediction => sectioned
      (predictionSections b.block prediction) :=
    funext (predictionOp_eq_sectioned b.valid)
  have hpayload : (Sent.prediction results : Sent F).payload b =
      (encode b.block (results.map fun prediction => sectioned
        (predictionSections b.block prediction))).toOption := by
    rw [Sent.payload, predictionToJson, hops]
  rw [letThrough_iff_accepted, hpayload]
  exact accepted_points_iff b fun prediction _ =>
    isSections_prediction prediction

/-- The filter lets a message of the protocol through exactly when it carries
nothing that the filter does not accept.  The slash of a path in the description
is enough for the message to be replaced, and so are the quotes of a string in
a configuration. -/
theorem letThrough_iff (sent : Sent F) : LetThrough b sent ↔ sent.Harmless b := by
  cases sent with
  | description => exact letThrough_description_iff b
  | observation sec ns observed =>
      exact iff_true_intro (letThrough_observation b sec ns observed)
  | configuration chosen => exact letThrough_configuration_iff b chosen
  | prediction results => exact letThrough_prediction_iff b results

end Messages

namespace Sample

/-- The small application, with the certificate of an authority. -/
def certified : AgoraModel :=
  { Heel.Sample.block.agora with brokerCa := "/etc/ssl/ca.crt".toList }

def certifiedBlock : AgoraBlock where
  model := Heel.Sample.application "1.0".toList
    { Heel.Sample.block with agora := certified }
  app := Heel.Sample.application "1.0".toList
    { Heel.Sample.validBlock with agora := certified }
  accepted := rfl
  block := { Heel.Sample.validBlock with agora := certified }
  mem := List.mem_singleton.mpr rfl
  enabled := rfl

/-- The path of the certificate has slashes. -/
theorem not_letThrough_certificate :
    ¬ ∀ (F : Floats) (b : AgoraBlock) (sent : Sent F), LetThrough b sent := by
  intro hall
  have hthrough := hall whole certifiedBlock .description
  have hfree : ∀ text ∈ certifiedBlock.app.texts, '"' ∉ text := by
    decide +kernel
  have hpath : ∃ text ∈ certifiedBlock.app.texts, ¬ Accepted text := by
    decide +kernel
  obtain ⟨text, hmem, hslash⟩ := hpath
  exact hslash ((letThrough_description_iff certifiedBlock).mp hthrough hfree
    text hmem)

end Sample

end Margot.Agora
