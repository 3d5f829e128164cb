/-
The delivery of what the server composes.  The server has a description with
its lists sorted, the generated parser has the block as it was configured: the
fields of a message are found by their names, in whatever order they come.
-/
import Margot.Heel.Reordered
import Margot.Agora.Filter

namespace Margot.Agora

open Heel

section Reading

variable {T : Translator} {other block : BlockModel}
  {predictions : List Prediction} {nodes others : List Ptree}

theorem mem_predictionTexts_iff (hsame : SameFields other block)
    {prediction : Prediction} {data : Text} :
    data ∈ predictionTexts other prediction ↔
      data ∈ predictionTexts block prediction :=
  (((hsame.fields.map _).append (hsame.knobs.map _)).append
    (hsame.metrics.flatMap_right _)).mem_iff

theorem mem_messageTexts_iff (hsame : SameFields other block)
    {data : Text} :
    data ∈ messageTexts other predictions ↔
      data ∈ messageTexts block predictions := by
  rw [messageTexts, messageTexts, List.mem_flatMap, List.mem_flatMap]
  exact exists_congr fun prediction =>
    and_congr_right' (mem_predictionTexts_iff hsame)

theorem mapM_congr {α β : Type} {f g : α → Option β} {elements : List α}
    (hsame : ∀ element ∈ elements, f element = g element) :
    elements.mapM f = elements.mapM g := by
  induction elements with
  | nil => rfl
  | cons element rest ih =>
      rw [List.forall_mem_cons] at hsame
      rw [List.mapM_cons, List.mapM_cons, hsame.1, ih hsame.2]

variable (hsame : SameFields other block) (hother : ValidBlock other)
  (hvalid : ValidBlock block) (hcompiles : parserCompiles block = true)

include hsame hother hvalid hcompiles in
/-- The parser of the block reads the same of an Operating Point, whichever of
the two orders its fields have. -/
theorem parsePoint_sameFields {prediction : Prediction} {node same : Ptree}
    (hnode : IsPoint other prediction node)
    (hpoint : IsPoint block prediction same) :
    parsePoint T block node = parsePoint T block same := by
  have hcompiled : parserCompiles other = true :=
    hsame.parserCompiles.trans hcompiles
  have hfeatures : ∀ field ∈ block.features.fields,
      getValue T block.features.featuresType
          ("features.".toList ++ field.name) node =
        getValue T block.features.featuresType
          ("features.".toList ++ field.name) same := by
    intro field hmem
    rw [getValue, getValue, getChild_feature hvalid hcompiles hpoint hmem,
      getChild_feature hother hcompiled hnode (hsame.fields.mem_iff.mpr hmem)]
  have hknobs : ∀ knob ∈ block.knobs,
      getValue T block.knobsSegmentType ("knobs.".toList ++ knob.name) node =
        getValue T block.knobsSegmentType ("knobs.".toList ++ knob.name)
          same := by
    intro knob hmem
    rw [getValue, getValue, getChild_knob hvalid hcompiles hpoint hmem,
      getChild_knob hother hcompiled hnode (hsame.knobs.mem_iff.mpr hmem)]
  have hmetrics : ∀ metric ∈ block.metrics,
      parseMetricField T block node metric =
        parseMetricField T block same metric := by
    intro metric hmem
    simp only [parseMetricField, getValue,
      getChild_metric hvalid hcompiles hpoint hmem,
      getChild_metric hother hcompiled hnode (hsame.metrics.mem_iff.mpr hmem)]
  rw [parsePoint, parsePoint, mapM_congr hfeatures,
    mapM_congr hknobs, mapM_congr hmetrics]

variable (hknobs : block.knobs ≠ []) (hmetrics : block.metrics ≠ [])
  (hnodes : List.Forall₂ (IsPoint other) predictions nodes)
  (hpoints : List.Forall₂ (IsPoint block) predictions others)

include hsame hother hvalid hcompiles hnodes hpoints in
theorem mapM_parsePoint_sameFields :
    nodes.mapM (parsePoint T block) = others.mapM (parsePoint T block) := by
  induction hnodes generalizing others with
  | nil =>
      cases hpoints
      rfl
  | cons hnode _ ih =>
      cases hpoints with
      | cons hpoint hrest =>
          rw [List.mapM_cons, List.mapM_cons, ih hrest,
            parsePoint_sameFields hsame hother hvalid hcompiles hnode hpoint]

include hsame hother hvalid hcompiles hknobs hmetrics hnodes hpoints in
/-- The parser of the block reads the same of a message, whichever of the two
orders the fields of its Operating Points have. -/
theorem operatingPointParser_sameFields :
    operatingPointParser T block
        (Json.write bareValue false 0 (.node [] (messageRoot other nodes))) =
      operatingPointParser T block
        (Json.write bareValue false 0 (.node [] (messageRoot block others))) := by
  have hotherKnobs : other.knobs ≠ [] := fun hnone =>
    hknobs (List.nil_perm.mp (hnone ▸ hsame.knobs))
  have hotherMetrics : other.metrics ≠ [] := fun hnone =>
    hmetrics (List.nil_perm.mp (hnone ▸ hsame.metrics))
  by_cases hnumbers : ∀ data ∈ messageTexts block predictions,
      isNumeral data = true → Json.isNumber data = true
  · have hotherNumbers : ∀ data ∈ messageTexts other predictions,
        isNumeral data = true → Json.isNumber data = true := fun data hdata =>
      hnumbers data ((mem_messageTexts_iff hsame).mp hdata)
    have hchild : (Ptree.node [] (messageRoot other nodes)).getChild? block.name =
        some (Ptree.array nodes) := by
      rw [Ptree.getChild?, Ptree.fragments_of_plain
        (isValidIdentifier_ne_nil hvalid.name) (dot_not_mem hvalid.name),
        Ptree.walk, Ptree.find, Ptree.children, messageRoot]
      simp [Ptree.walk, hsame.name]
    rw [operatingPointParser_message hvalid hcompiles hknobs hmetrics hpoints
        hnumbers,
      ← mapM_parsePoint_sameFields hsame hother hvalid hcompiles hnodes hpoints,
      operatingPointParser, if_pos hcompiles,
      readJson_message hotherKnobs hotherMetrics hnodes hotherNumbers]
    simp only [Option.bind_eq_bind, Option.bind_some, hchild, Ptree.array,
      Ptree.children, List.mapM_map]
    rfl
  · simp only [not_forall] at hnumbers
    obtain ⟨data, hdata, hnumeral, hnumber⟩ := hnumbers
    rw [Bool.not_eq_true] at hnumber
    rw [operatingPointParser, operatingPointParser, if_pos hcompiles,
      if_pos hcompiles, readJson_message_eq_none hotherKnobs hotherMetrics hnodes
        ⟨data, (mem_messageTexts_iff hsame).mpr hdata, hnumeral, hnumber⟩,
      readJson_message_eq_none hknobs hmetrics hpoints
        ⟨data, hdata, hnumeral, hnumber⟩]

include hsame hother hvalid hcompiles hknobs hmetrics hnodes hpoints in
theorem delivered_sameFields
    (hsettled : ∀ data ∈ messageTexts block predictions, Settled data) :
    Delivered T block (encode other nodes) predictions ↔
      Delivered T block (encode block others) predictions := by
  have hotherKnobs : other.knobs ≠ [] := fun hnone =>
    hknobs (List.nil_perm.mp (hnone ▸ hsame.knobs))
  have hotherMetrics : other.metrics ≠ [] := fun hnone =>
    hmetrics (List.nil_perm.mp (hnone ▸ hsame.metrics))
  have hread : operatingPointParser T block _ = operatingPointParser T block _ :=
    operatingPointParser_sameFields hsame hother hvalid hcompiles hknobs
      hmetrics hnodes hpoints
  rw [encode_eq hvalid hknobs hmetrics hpoints hsettled,
    encode_eq hother hotherKnobs hotherMetrics hnodes fun data hdata =>
      hsettled data ((mem_messageTexts_iff hsame).mp hdata)]
  simp only [Delivered, Except.ok.injEq, exists_eq_left', hread]

end Reading

section Messages

variable {T : Translator} {description : BlockModel} (b : AgoraBlock)
  (hsame : SameFields description b.block)

include hsame in
/-- What the server composes of its description is delivered exactly when it
would be delivered from the block itself. -/
theorem delivered_described_iff (predictions : List Prediction)
    (point : BlockModel → Prediction → Ptree)
    (hpoint : ∀ block, ValidBlock block → parserCompiles block = true →
      ∀ prediction ∈ predictions, IsPoint block prediction (point block prediction))
    (houtline : ∀ knobsType metricsType featuresType,
      point (description.outline knobsType metricsType featuresType) =
        point description)
    (hsettled : ∀ data ∈ messageTexts b.block predictions, Settled data) :
    Delivered T b.block (encode description (predictions.map (point description)))
        predictions ↔
      Delivered T b.block (encode b.block (predictions.map (point b.block)))
        predictions := by
  by_cases hcompiles : parserCompiles b.block = true
  · obtain ⟨hmetrics, hknobs, -⟩ := b.valid.enabled b.enabled
    obtain ⟨knobsType, metricsType, featuresType, hother⟩ :=
      hsame.exists_valid b.valid
    have houtlined : SameFields
        (description.outline knobsType metricsType featuresType) b.block :=
      ⟨hsame.name, hsame.knobs, hsame.metrics, hsame.fields⟩
    have hall : ∀ block, ValidBlock block → parserCompiles block = true →
        List.Forall₂ (IsPoint block) predictions
          (predictions.map (point block)) := by
      intro block hvalid hcompiles
      rw [List.forall₂_map_right_iff, List.forall₂_same]
      exact hpoint block hvalid hcompiles
    have hdelivered := delivered_sameFields (T := T) houtlined hother b.valid
      hcompiles hknobs hmetrics
      (hall _ hother (houtlined.parserCompiles.trans hcompiles))
      (hall _ b.valid hcompiles) hsettled
    rw [houtline] at hdelivered
    exact hdelivered
  · exact iff_of_false (fun hdelivered =>
      hcompiles (parserCompiles_of_delivered hdelivered))
      fun hdelivered => hcompiles (parserCompiles_of_delivered hdelivered)

include hsame in
theorem configuration_described_iff {configuration : KnobConfiguration}
    (hover : OverKnobs T b.block configuration) :
    Delivered T b.block (configurationToJson description configuration)
        [unknownPrediction configuration] ↔
      ConfigurationLegible T b.block configuration := by
  rw [← configuration_delivered_iff b hover]
  refine delivered_described_iff b hsame [unknownPrediction configuration]
    (fun block _ => configurationOp block configuration)
    (fun block hvalid hcompiles prediction hmem => ?_) (fun _ _ _ => rfl) ?_
  · obtain rfl := List.mem_singleton.mp hmem
    exact isPoint_configurationOp hvalid hcompiles configuration
  · intro data hdata
    rw [messageTexts, List.flatMap_singleton] at hdata
    exact settled_unknownPrediction hover data hdata

include hsame in
theorem prediction_described_iff {results : List Prediction}
    (hover : ∀ prediction ∈ results, OverBlock T b.block prediction) :
    Delivered T b.block (predictionToJson description results) results ↔
      PredictionsLegible T b.block results := by
  rw [← prediction_delivered_iff b hover]
  refine delivered_described_iff b hsame results predictionOp
    (fun block hvalid hcompiles prediction _ =>
      isPoint_predictionOp hvalid hcompiles prediction) (fun _ _ _ => rfl) ?_
  intro data hdata
  obtain ⟨prediction, hmem, hdata⟩ := List.mem_flatMap.mp hdata
  exact (hover prediction hmem).settled data hdata

/-- A prediction of which all texts are accepted between quotes, too, is
conveyed in every order of the fields. -/
theorem conveyed_of_spoken {other block : BlockModel}
    (hsame : SameFields other block) {prediction : Prediction}
    (hspoken : ∀ data ∈ predictionTexts block prediction, Spoken data) :
    Conveyed other prediction := by
  simp only [predictionTexts, List.forall_mem_append, List.forall_mem_map,
    List.forall_mem_flatMap] at hspoken
  obtain ⟨⟨hfeatures, hknobs⟩, hmetrics⟩ := hspoken
  refine ⟨fun field hmem => hfeatures field (hsame.fields.mem_iff.mp hmem), ?_,
    fun metric hmem => hmetrics metric (hsame.metrics.mem_iff.mp hmem)⟩
  rintro knob ⟨before, after, hsplit, -⟩
  have hmem : knob ∈ other.knobs := by
    rw [hsplit]
    exact List.mem_append_right _ List.mem_cons_self
  have hvalue := hknobs knob (hsame.knobs.mem_iff.mp hmem)
  rw [knobValue] at hvalue
  split at hvalue
  · exact absurd rfl (hvalue '"' (List.mem_append_left _
      List.mem_cons_self)).2
  · next hnumber => exact ⟨hnumber, hvalue⟩

include hsame in
/-- What the server composes of its description is accepted if all that it
carries is. -/
theorem accepted_described (results : List Prediction)
    (point : BlockModel → Prediction → Ptree)
    (sections : BlockModel → Prediction →
      List (Text × List (Text × Filling)))
    (hpoint : ∀ block, ValidBlock block → ∀ prediction ∈ results,
      point block prediction = Filling.sectioned (sections block prediction) ∧
        IsSections block prediction (sections block prediction))
    (houtline : ∀ knobsType metricsType featuresType,
      point (description.outline knobsType metricsType featuresType) =
        point description)
    (hspoken : ∀ prediction ∈ results,
      ∀ data ∈ predictionTexts b.block prediction, Spoken data)
    {payload : Text}
    (hpayload : encode description (results.map (point description)) =
      .ok payload) : Accepted payload := by
  obtain ⟨knobsType, metricsType, featuresType, hother⟩ :=
    hsame.exists_valid b.valid
  have houtlined : SameFields
      (description.outline knobsType metricsType featuresType) b.block :=
    ⟨hsame.name, hsame.knobs, hsame.metrics, hsame.fields⟩
  have haccepted := (accepted_encode_iff hother.name
    (results.map (point description))).mpr
  refine haccepted ?_ payload ?_
  · rw [← houtline knobsType metricsType featuresType, List.forall_mem_map,
      List.forall_mem_map]
    intro hplain prediction hmem
    obtain ⟨hsectioned, hsections⟩ := hpoint _ hother prediction hmem
    have hcomposable := hplain prediction hmem
    rw [hsectioned, hsections.plainNodes_iff] at hcomposable
    rw [hsectioned, hsections.holds_iff hother hcomposable]
    exact conveyed_of_spoken houtlined (hspoken prediction hmem)
  · exact congrArg Except.toOption hpayload

include hsame in
theorem accepted_configuration {configuration : KnobConfiguration}
    (hspoken : ∀ data ∈ predictionTexts b.block
      (unknownPrediction configuration), Spoken data) {payload : Text}
    (hpayload : configurationToJson description configuration = .ok payload) :
    Accepted payload := by
  refine accepted_described b hsame [unknownPrediction configuration]
    (fun block _ => configurationOp block configuration)
    (fun block _ => configurationSections block configuration)
    (fun block hvalid prediction hmem => ?_) (fun _ _ _ => rfl) ?_ hpayload
  · obtain rfl := List.mem_singleton.mp hmem
    exact ⟨configurationOp_eq_sectioned hvalid configuration,
      isSections_configuration configuration⟩
  · rw [List.forall_mem_singleton]
    exact hspoken

include hsame in
theorem accepted_prediction {results : List Prediction}
    (hspoken : ∀ prediction ∈ results,
      ∀ data ∈ predictionTexts b.block prediction, Spoken data)
    {payload : Text}
    (hpayload : predictionToJson description results = .ok payload) :
    Accepted payload :=
  accepted_described b hsame results predictionOp predictionSections
    (fun _ hvalid prediction _ => ⟨predictionOp_eq_sectioned hvalid prediction,
      isSections_prediction prediction⟩) (fun _ _ _ => rfl) hspoken hpayload

end Messages

end Margot.Agora
