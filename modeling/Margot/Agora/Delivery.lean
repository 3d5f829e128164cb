/-
The delivery of configurations and predictions: what the generated parser of a
block reads of the messages that the remote handler writes for it.
-/
import Mathlib.Data.List.Forall2
import Margot.Agora.Encoding
import Margot.Heel.OperatingPointParser

namespace Margot.Agora

open Heel

section Shape

/-- The node of a metric. -/
def metricNode (metric : MetricModel) (value : MetricValue) : Ptree :=
  if metric.distribution then
    Ptree.array [Ptree.leaf value.avg, Ptree.leaf value.std]
  else Ptree.leaf value.avg

/-- The texts of the values of a prediction, as they are written. -/
def metricTexts (metric : MetricModel) (value : MetricValue) : List Text :=
  if metric.distribution then [value.avg, value.std] else [value.avg]

def predictionTexts (block : BlockModel) (prediction : Prediction) :
    List Text :=
  block.features.fields.map (fun field => prediction.features field.name) ++
    block.knobs.map (knobValue prediction.configuration) ++
    block.metrics.flatMap fun metric =>
      metricTexts metric (prediction.result metric.name)

/-- A configuration is a prediction about which nothing is known. -/
def unknownPrediction (configuration : KnobConfiguration) : Prediction :=
  ⟨fun _ => "9999".toList, configuration, fun _ => unknownMetric⟩

variable {block : BlockModel}

theorem putKnobs_eq (hvalid : ValidBlock block)
    (hnodup : (block.knobs.map (·.name)).Nodup)
    (configuration : KnobConfiguration) :
    putKnobs block configuration =
      .node [] (block.knobs.map fun knob =>
        (knob.name, Ptree.leaf (knobValue configuration knob))) := by
  apply Ptree.foldl_empty (fun knob : KnobModel => knob.name)
    (fun knob => Ptree.leaf (knobValue configuration knob)) _ hnodup
  intro knob hmem tree hnew
  have hname := (hvalid.knobs knob hmem).name
  exact Ptree.put_new (isValidIdentifier_ne_nil hname) (dot_not_mem hname) hnew _

theorem putFeatures_eq (hvalid : ValidBlock block)
    (hnodup : (block.features.fields.map (·.name)).Nodup)
    (features : Text → Text) :
    putFeatures block features =
      .node [] (block.features.fields.map fun field =>
        (field.name, Ptree.leaf (features field.name))) := by
  apply Ptree.foldl_empty (fun field : FeatureModel => field.name)
    (fun field => Ptree.leaf (features field.name)) _ hnodup
  intro field hmem tree hnew
  have hname := (hvalid.features field hmem).name
  exact Ptree.put_new (isValidIdentifier_ne_nil hname) (dot_not_mem hname) hnew _

theorem putMetrics_eq (hvalid : ValidBlock block)
    (hnodup : (block.metrics.map (·.name)).Nodup)
    (result : Text → MetricValue) :
    putMetrics block result =
      .node [] (block.metrics.map fun metric =>
        (metric.name, metricNode metric (result metric.name))) := by
  apply Ptree.foldl_empty (fun metric : MetricModel => metric.name)
    (fun metric => metricNode metric (result metric.name)) _ hnodup
  intro metric hmem tree hnew
  have hname := (hvalid.metrics metric hmem).name
  have hsome := isValidIdentifier_ne_nil hname
  rw [metricNode]
  split
  · exact Ptree.addChild_plain hsome (dot_not_mem hname) _ _
  · exact Ptree.put_new hsome (dot_not_mem hname) hnew _

/-- The section of an Operating Point with its knobs. -/
def knobsSection (block : BlockModel) (prediction : Prediction) :
    Text × Ptree :=
  ("knobs".toList, .node [] (block.knobs.map fun knob =>
    (knob.name, Ptree.leaf (knobValue prediction.configuration knob))))

def featuresSection (block : BlockModel) (prediction : Prediction) :
    Text × Ptree :=
  ("features".toList, .node [] (block.features.fields.map fun field =>
    (field.name, Ptree.leaf (prediction.features field.name))))

def metricsSection (block : BlockModel) (prediction : Prediction) :
    Text × Ptree :=
  ("metrics".toList, .node [] (block.metrics.map fun metric =>
    (metric.name, metricNode metric (prediction.result metric.name))))

/-- The node is an Operating Point with the values of a prediction. -/
structure IsPoint (block : BlockModel) (prediction : Prediction)
    (node : Ptree) : Prop where
  data : node.data = []
  knobs : Ptree.find "knobs".toList node.children =
    some (knobsSection block prediction).2
  metrics : Ptree.find "metrics".toList node.children =
    some (metricsSection block prediction).2
  features : block.features.fields ≠ [] →
    Ptree.find "features".toList node.children =
      some (featuresSection block prediction).2
  sections : ∀ child, child ∈ node.children ↔
    child = knobsSection block prediction ∨
      child = metricsSection block prediction ∨
      (block.features.fields ≠ [] ∧ child = featuresSection block prediction)

theorem areFeaturesEnabled_iff (block : BlockModel) :
    areFeaturesEnabled block = true ↔ block.features.fields ≠ [] := by
  rw [areFeaturesEnabled, Bool.not_eq_true', List.isEmpty_eq_false_iff]

theorem isPoint_configurationOp (hvalid : ValidBlock block)
    (hcompiles : parserCompiles block = true)
    (configuration : KnobConfiguration) :
    IsPoint block (unknownPrediction configuration)
      (configurationOp block configuration) := by
  obtain ⟨hfeatures, hknobs, hmetrics⟩ := nodup_fieldNames hcompiles
  have hshape : configurationOp block configuration =
      .node [] ([knobsSection block (unknownPrediction configuration)] ++
        (if areFeaturesEnabled block
          then [featuresSection block (unknownPrediction configuration)]
          else []) ++
        [metricsSection block (unknownPrediction configuration)]) := by
    rw [configurationOp, putKnobs_eq hvalid hknobs,
      putFeatures_eq hvalid hfeatures, putMetrics_eq hvalid hmetrics]
    cases areFeaturesEnabled block <;> rfl
  have henabled := areFeaturesEnabled_iff block
  rw [hshape]
  cases hfields : areFeaturesEnabled block with
  | true =>
      have hsome := henabled.mp hfields
      refine ⟨rfl, rfl, rfl, fun _ => rfl, fun child => ?_⟩
      simp [Ptree.children, hsome, or_comm, or_left_comm]
  | false =>
      have hnone : block.features.fields = [] := by simpa [hfields] using henabled
      refine ⟨rfl, rfl, rfl, fun hsome => absurd hnone hsome, fun child => ?_⟩
      simp [Ptree.children, hnone]

theorem isPoint_predictionOp (hvalid : ValidBlock block)
    (hcompiles : parserCompiles block = true) (prediction : Prediction) :
    IsPoint block prediction (predictionOp block prediction) := by
  obtain ⟨hfeatures, hknobs, hmetrics⟩ := nodup_fieldNames hcompiles
  have hshape : predictionOp block prediction =
      .node [] ((if areFeaturesEnabled block
          then [featuresSection block prediction] else []) ++
        [knobsSection block prediction, metricsSection block prediction]) := by
    rw [predictionOp, putKnobs_eq hvalid hknobs,
      putFeatures_eq hvalid hfeatures, putMetrics_eq hvalid hmetrics]
    cases areFeaturesEnabled block <;> rfl
  have henabled := areFeaturesEnabled_iff block
  rw [hshape]
  cases hfields : areFeaturesEnabled block with
  | true =>
      have hsome := henabled.mp hfields
      refine ⟨rfl, rfl, rfl, fun _ => rfl, fun child => ?_⟩
      simp [Ptree.children, hsome, or_comm, or_left_comm]
  | false =>
      have hnone : block.features.fields = [] := by simpa [hfields] using henabled
      refine ⟨rfl, rfl, rfl, fun hsome => absurd hnone hsome, fun child => ?_⟩
      simp [Ptree.children, hnone]

end Shape

section Points

variable {block : BlockModel} {prediction : Prediction} {node : Ptree}

theorem mem_values_metricNode {metric : MetricModel} {value : MetricValue}
    {data : Text} :
    data ∈ Json.values (metricNode metric value) ↔
      data ∈ metricTexts metric value := by
  rw [metricNode, metricTexts]
  split
  · rfl
  · rfl

theorem mem_values_knobs (hknobs : block.knobs ≠ []) {data : Text} :
    data ∈ Json.values (knobsSection block prediction).2 ↔
      data ∈ block.knobs.map (knobValue prediction.configuration) :=
  Json.mem_values_leaves hknobs _ _

theorem mem_values_features (hfields : block.features.fields ≠ [])
    {data : Text} :
    data ∈ Json.values (featuresSection block prediction).2 ↔
      data ∈ block.features.fields.map fun field =>
        prediction.features field.name :=
  Json.mem_values_leaves hfields _ _

theorem mem_values_metrics (hmetrics : block.metrics ≠ []) {data : Text} :
    data ∈ Json.values (metricsSection block prediction).2 ↔
      data ∈ block.metrics.flatMap fun metric =>
        metricTexts metric (prediction.result metric.name) := by
  rw [metricsSection, Json.mem_values_map hmetrics, List.mem_flatMap]
  simp only [mem_values_metricNode]

/-- The values of the node are those of the prediction. -/
theorem IsPoint.mem_values (hpoint : IsPoint block prediction node)
    (hknobs : block.knobs ≠ []) (hmetrics : block.metrics ≠ []) {data : Text} :
    data ∈ Json.values node ↔ data ∈ predictionTexts block prediction := by
  have hnode : node.children ≠ [] := List.ne_nil_of_mem <|
    (hpoint.sections _).mpr (.inl rfl)
  rw [Json.mem_values hnode, predictionTexts, List.mem_append, List.mem_append]
  constructor
  · rintro ⟨child, hchild, hdata⟩
    rcases (hpoint.sections child).mp hchild with rfl | rfl | ⟨hfields, rfl⟩
    · exact .inl (.inr ((mem_values_knobs hknobs).mp hdata))
    · exact .inr ((mem_values_metrics hmetrics).mp hdata)
    · exact .inl (.inl ((mem_values_features hfields).mp hdata))
  · rintro ((hdata | hdata) | hdata)
    · have hfields : block.features.fields ≠ [] := by
        intro hnone
        rw [hnone] at hdata
        contradiction
      exact ⟨_, (hpoint.sections _).mpr (.inr (.inr ⟨hfields, rfl⟩)),
        (mem_values_features hfields).mpr hdata⟩
    · exact ⟨_, (hpoint.sections _).mpr (.inl rfl),
        (mem_values_knobs hknobs).mpr hdata⟩
    · exact ⟨_, (hpoint.sections _).mpr (.inr (.inl rfl)),
        (mem_values_metrics hmetrics).mpr hdata⟩

theorem plainNodes_metricNode (metric : MetricModel) (value : MetricValue) :
    Json.plainNodes (metricNode metric value) = true := by
  rw [metricNode]
  split
  · apply Json.plainNodes_of_children rfl
    intro child hchild
    obtain ⟨leaf, hleaf, rfl⟩ := List.mem_map.mp hchild
    simp only [List.mem_cons, List.not_mem_nil, or_false] at hleaf
    rcases hleaf with rfl | rfl
    · exact Json.plainNodes_leaf _
    · exact Json.plainNodes_leaf _
  · exact Json.plainNodes_leaf _

/-- No node has both a value and children. -/
theorem IsPoint.plainNodes (hpoint : IsPoint block prediction node) :
    Json.plainNodes node = true := by
  apply Json.plainNodes_of_children hpoint.data
  intro child hchild
  rcases (hpoint.sections child).mp hchild with rfl | rfl | ⟨-, rfl⟩
  · apply Json.plainNodes_of_children rfl
    intro child hchild
    obtain ⟨knob, -, rfl⟩ := List.mem_map.mp hchild
    exact Json.plainNodes_leaf _
  · apply Json.plainNodes_of_children rfl
    intro child hchild
    obtain ⟨metric, -, rfl⟩ := List.mem_map.mp hchild
    exact plainNodes_metricNode _ _
  · apply Json.plainNodes_of_children rfl
    intro child hchild
    obtain ⟨field, -, rfl⟩ := List.mem_map.mp hchild
    exact Json.plainNodes_leaf _

theorem keyText_of_isValidIdentifier {name : Text}
    (hname : isValidIdentifier name = true) : KeyText name := by
  refine ⟨quote_not_mem hname, ?_⟩
  match name with
  | [] => contradiction
  | first :: rest =>
      rw [isValidIdentifier, Bool.and_eq_true, Bool.or_eq_true,
        beq_iff_eq] at hname
      have hdigit : ¬ first.isDigit = true := by
        rcases hname.1 with halpha | rfl
        · exact not_isDigit_of_isAlpha halpha
        · decide
      rw [isNumeral, List.takeWhile_cons_of_neg hdigit]
      rfl

theorem keyText_tag : KeyText "knobs".toList ∧ KeyText "metrics".toList ∧
    KeyText "features".toList ∧ KeyText [] :=
  ⟨⟨by decide, by decide⟩, ⟨by decide, by decide⟩, ⟨by decide, by decide⟩,
    ⟨by decide, by decide⟩⟩

/-- Below a section there are the names and what the nodes have. -/
theorem keyText_section {α : Type} {elements : List α} {name : α → Text}
    {child : α → Ptree} {tag : Text} (htag : KeyText tag)
    (hname : ∀ a ∈ elements, KeyText (name a))
    (hchild : ∀ a ∈ elements, ∀ key ∈ Json.keys (child a), KeyText key) :
    ∀ key, (key = tag ∨ key ∈ Json.keys
      (.node [] (elements.map fun a => (name a, child a)))) → KeyText key := by
  rintro key (rfl | hkey)
  · exact htag
  · obtain ⟨_, hmem, hkey⟩ := Json.mem_keys.mp hkey
    obtain ⟨a, ha, rfl⟩ := List.mem_map.mp hmem
    rcases hkey with rfl | hkey
    · exact hname a ha
    · exact hchild a ha key hkey

theorem keys_leaf (data : Text) : Json.keys (Ptree.leaf data) = [] := rfl

theorem keyText_metricNode {metric : MetricModel} {value : MetricValue} :
    ∀ key ∈ Json.keys (metricNode metric value), KeyText key := by
  intro key hkey
  rw [metricNode] at hkey
  split at hkey
  · have hempty : key = [] := by
      simpa [Json.keys, Json.keysOf, Ptree.array, Ptree.leaf] using hkey
    exact hempty ▸ keyText_tag.2.2.2
  · rw [keys_leaf] at hkey
    contradiction

/-- Every key of the node stays between its quotes. -/
theorem IsPoint.keyText (hvalid : ValidBlock block)
    (hpoint : IsPoint block prediction node) :
    ∀ key ∈ Json.keys node, KeyText key := by
  obtain ⟨hknobs, hmetrics, hfeatures, -⟩ := keyText_tag
  have hleaf : ∀ (data : Text), ∀ key ∈ Json.keys (Ptree.leaf data),
      KeyText key := by
    intro data key hkey
    rw [keys_leaf] at hkey
    contradiction
  intro key hkey
  obtain ⟨child, hchild, hkey⟩ := Json.mem_keys.mp hkey
  rcases (hpoint.sections child).mp hchild with rfl | rfl | ⟨-, rfl⟩
  · exact keyText_section hknobs (fun knob hmem =>
      keyText_of_isValidIdentifier (hvalid.knobs knob hmem).name)
      (fun knob _ => hleaf _) key hkey
  · exact keyText_section hmetrics (fun metric hmem =>
      keyText_of_isValidIdentifier (hvalid.metrics metric hmem).name)
      (fun metric _ => keyText_metricNode) key hkey
  · exact keyText_section hfeatures (fun field hmem =>
      keyText_of_isValidIdentifier (hvalid.features field hmem).name)
      (fun field _ => hleaf _) key hkey

section Fields

variable (hvalid : ValidBlock block) (hcompiles : parserCompiles block = true)
  (hpoint : IsPoint block prediction node)

include hvalid hcompiles hpoint

theorem getChild_knob {knob : KnobModel} (hmem : knob ∈ block.knobs) :
    node.getChild? ("knobs.".toList ++ knob.name) =
      some (Ptree.leaf (knobValue prediction.configuration knob)) := by
  have hname := (hvalid.knobs knob hmem).name
  change node.getChild? ("knobs".toList ++ '.' :: knob.name) = _
  rw [Ptree.getChild?_field (by decide) (isValidIdentifier_ne_nil hname)
    (dot_not_mem hname), hpoint.knobs]
  exact Ptree.find_map _ (fun knob =>
    Ptree.leaf (knobValue prediction.configuration knob))
    (nodup_fieldNames hcompiles).2.1 hmem

theorem getChild_feature {field : FeatureModel}
    (hmem : field ∈ block.features.fields) :
    node.getChild? ("features.".toList ++ field.name) =
      some (Ptree.leaf (prediction.features field.name)) := by
  have hname := (hvalid.features field hmem).name
  change node.getChild? ("features".toList ++ '.' :: field.name) = _
  rw [Ptree.getChild?_field (by decide) (isValidIdentifier_ne_nil hname)
    (dot_not_mem hname), hpoint.features (List.ne_nil_of_mem hmem)]
  exact Ptree.find_map _ (fun field : FeatureModel =>
    Ptree.leaf (prediction.features field.name))
    (nodup_fieldNames hcompiles).1 hmem

theorem getChild_metric {metric : MetricModel} (hmem : metric ∈ block.metrics) :
    node.getChild? ("metrics.".toList ++ metric.name) =
      some (metricNode metric (prediction.result metric.name)) := by
  have hname := (hvalid.metrics metric hmem).name
  change node.getChild? ("metrics".toList ++ '.' :: metric.name) = _
  rw [Ptree.getChild?_field (by decide) (isValidIdentifier_ne_nil hname)
    (dot_not_mem hname), hpoint.metrics]
  exact Ptree.find_map _ (fun metric : MetricModel =>
    metricNode metric (prediction.result metric.name))
    (nodup_fieldNames hcompiles).2.2 hmem

end Fields

end Points

section Delivery

variable (T : Translator)

/-- What the value of a knob stands for in the generated code: a number, or the
position of a string in the list of the knob. -/
def knobMeaning (block : BlockModel) (configuration : KnobConfiguration)
    (knob : KnobModel) : Option T.Value :=
  if knob.type = "string".toList then
    some (T.ofNat block.knobsSegmentType
      (knob.values.idxOf (configuration knob.name)))
  else T.get block.knobsSegmentType (configuration knob.name)

/-- The mean and the deviation, which is zero without a distribution. -/
def metricMeaning (block : BlockModel) (result : Text → MetricValue)
    (metric : MetricModel) : Option (T.Value × T.Value) := do
  let mean ← T.get block.metricsSegmentType (result metric.name).avg
  if metric.distribution then
    let deviation ← T.get block.metricsSegmentType (result metric.name).std
    return (mean, deviation)
  else return (mean, T.ofNat block.metricsSegmentType 0)

/-- The Operating Point that is read has the values of the prediction, in the
cluster of its features. -/
structure Represents (block : BlockModel) (prediction : Prediction)
    (read : ClusteredPoint T.Value) : Prop where
  features : (block.features.fields.map fun field =>
    T.get block.features.featuresType (prediction.features field.name)) =
      read.features.map some
  knobs : block.knobs.map (knobMeaning T block prediction.configuration) =
    read.point.knobs.map some
  metrics : block.metrics.map (metricMeaning T block prediction.result) =
    read.point.metrics.map some

/-- The message is read as one Operating Point for each prediction. -/
def Delivered (block : BlockModel) (message : Checked Text)
    (predictions : List Prediction) : Prop :=
  ∃ text, message = .ok text ∧ ∃ points,
    operatingPointParser T block text = some points ∧
      List.Forall₂ (Represents T block) predictions points

/-- A value for each knob of a block: a number, or one of its strings. -/
structure OverKnobs (block : BlockModel) (configuration : KnobConfiguration) :
    Prop where
  numeric : ∀ knob ∈ block.knobs, knob.type ≠ "string".toList →
    (T.get block.knobsSegmentType (configuration knob.name)).isSome
  listed : ∀ knob ∈ block.knobs, knob.type = "string".toList →
    configuration knob.name ∈ knob.values

/-- A prediction over a block: its features and its metrics are numbers. -/
structure OverBlock (block : BlockModel) (prediction : Prediction) : Prop where
  knobs : OverKnobs T block prediction.configuration
  features : ∀ field ∈ block.features.fields,
    (T.get block.features.featuresType (prediction.features field.name)).isSome
  means : ∀ metric ∈ block.metrics,
    (T.get block.metricsSegmentType (prediction.result metric.name).avg).isSome
  deviations : ∀ metric ∈ block.metrics, metric.distribution = true →
    (T.get block.metricsSegmentType (prediction.result metric.name).std).isSome

/-- The texts of a prediction that the other side can read. -/
structure Legible (block : BlockModel) (prediction : Prediction) : Prop where
  noString : ∀ knob ∈ block.knobs, knob.type ≠ "string".toList
  numbers : ∀ data ∈ predictionTexts block prediction,
    isNumeral data = true → Json.isNumber data = true
  features : ∀ field ∈ block.features.fields,
    (T.get block.features.featuresType (prediction.features field.name)).isSome
  metrics : ∀ metric ∈ block.metrics,
    (metricMeaning T block prediction.result metric).isSome

variable {T} {block : BlockModel} {predictions : List Prediction}
  {nodes : List Ptree}

theorem settled_of_get {type text : Text}
    (hget : (T.get type text).isSome = true) : Settled text := by
  obtain ⟨value, hvalue⟩ := Option.isSome_iff_exists.mp hget
  exact settled_of_not_mem (T.noQuote type text value hvalue)

/-- A string between quotes of its own is never unquoted. -/
theorem settled_knobValue {configuration : KnobConfiguration}
    (hover : OverKnobs T block configuration) {knob : KnobModel}
    (hmem : knob ∈ block.knobs) : Settled (knobValue configuration knob) := by
  rw [knobValue]
  split
  · next hstring =>
      intro first last hsplit
      rw [← Bool.not_eq_true]
      intro hnumeral
      rcases List.eq_nil_or_concat last with rfl | ⟨init, c, rfl⟩
      · contradiction
      · have hends : '"' :: configuration knob.name ++ ['"'] =
            (first ++ '"' :: init) ++ [c] := by simpa using hsplit
        obtain ⟨-, hlast⟩ := List.append_inj' hends rfl
        obtain rfl : '"' = c := (List.cons.inj hlast).1
        exact absurd (isPlain_of_isNumeral (c := '"') hnumeral (by simp))
          (by decide)
  · next hnumber => exact settled_of_get (hover.numeric knob hmem hnumber)

/-- The tree of a message. -/
def messageRoot (block : BlockModel) (nodes : List Ptree) :
    List (Text × Ptree) :=
  [(block.name, Ptree.array nodes)]

/-- The texts that a message has to carry. -/
def messageTexts (block : BlockModel) (predictions : List Prediction) :
    List Text :=
  predictions.flatMap (predictionTexts block)

section Message

variable (hvalid : ValidBlock block) (hknobs : block.knobs ≠ [])
  (hmetrics : block.metrics ≠ [])
  (hpoints : List.Forall₂ (IsPoint block) predictions nodes)

include hpoints in
theorem exists_isPoint {node : Ptree} (hmem : node ∈ nodes) :
    ∃ prediction ∈ predictions, IsPoint block prediction node := by
  induction hpoints with
  | nil => contradiction
  | cons hpoint _ ih =>
      rcases List.mem_cons.mp hmem with rfl | hmem
      · exact ⟨_, List.mem_cons_self, hpoint⟩
      · obtain ⟨prediction, hprediction, hpoint⟩ := ih hmem
        exact ⟨prediction, List.mem_cons_of_mem _ hprediction, hpoint⟩

include hpoints in
theorem plainChildren_messageRoot :
    Json.plainChildren (messageRoot block nodes) = true := by
  rw [Json.plainChildren_iff]
  intro child hchild
  obtain rfl := List.mem_singleton.mp hchild
  apply Json.plainNodes_of_children rfl
  intro child hchild
  obtain ⟨node, hmem, rfl⟩ := List.mem_map.mp hchild
  obtain ⟨prediction, -, hpoint⟩ := exists_isPoint hpoints hmem
  exact hpoint.plainNodes

include hknobs hmetrics hpoints in
theorem exists_values_iff {data : Text} :
    (∃ node ∈ nodes, data ∈ Json.values node) ↔
      data ∈ messageTexts block predictions := by
  rw [messageTexts, List.mem_flatMap]
  induction hpoints with
  | nil => simp
  | cons hpoint _ ih =>
      rw [List.exists_mem_cons_iff, List.exists_mem_cons_iff, ih,
        hpoint.mem_values hknobs hmetrics]

include hknobs hmetrics hpoints in
/-- The values of the tree are the texts of the predictions, or one empty value
for no prediction at all. -/
theorem mem_values_messageRoot {data : Text} :
    data ∈ Json.valuesOf (messageRoot block nodes) ↔
      data ∈ messageTexts block predictions ∨
        (predictions = [] ∧ data = []) := by
  have htexts : (∃ node ∈ nodes, data ∈ Json.values node) ↔
      data ∈ messageTexts block predictions :=
    exists_values_iff hknobs hmetrics hpoints
  rw [messageRoot, Json.mem_valuesOf, ← htexts]
  simp only [List.mem_singleton, exists_eq_left]
  cases hpoints with
  | nil => simp [Json.values, Ptree.array]
  | @cons prediction node predictions nodes hpoint hrest =>
      have hsome : (Ptree.array (node :: nodes)).children ≠ [] :=
        List.cons_ne_nil _ _
      rw [Json.mem_values hsome]
      simp [Ptree.array, Ptree.children]

include hvalid hpoints in
theorem keyText_messageRoot :
    ∀ key ∈ Json.keysOf (messageRoot block nodes), KeyText key := by
  intro key hkey
  obtain ⟨child, hchild, hkey⟩ := Json.mem_keysOf.mp hkey
  obtain rfl := List.mem_singleton.mp hchild
  rcases hkey with rfl | hkey
  · exact keyText_of_isValidIdentifier hvalid.name
  · obtain ⟨child, hchild, hkey⟩ := Json.mem_keys.mp hkey
    obtain ⟨node, hmem, rfl⟩ := List.mem_map.mp hchild
    rcases hkey with rfl | hkey
    · exact keyText_tag.2.2.2
    · obtain ⟨prediction, -, hpoint⟩ := exists_isPoint hpoints hmem
      exact hpoint.keyText hvalid key hkey

include hvalid hknobs hmetrics hpoints in
/-- What is sent: the tree on one line, with bare numerals. -/
theorem encode_eq
    (hsettled : ∀ data ∈ messageTexts block predictions, Settled data) :
    encode block nodes =
      .ok (Json.write bareValue false 0 (.node [] (messageRoot block nodes))) := by
  have hroot : Ptree.empty.addChild block.name (Ptree.array nodes) =
      .node [] (messageRoot block nodes) :=
    Ptree.addChild_plain (isValidIdentifier_ne_nil hvalid.name)
      (dot_not_mem hvalid.name) _ _
  have hplain := plainChildren_messageRoot hpoints
  have hverify : Json.verifyJson (.node [] (messageRoot block nodes)) = true := by
    rw [Json.verifyJson, Json.plainNodes, hplain]
    rfl
  have hbare : unquoteNumbers (Json.write Json.quoted false 0
      (.node [] (messageRoot block nodes)) ++ []) =
      Json.write bareValue false 0 (.node [] (messageRoot block nodes)) ++
        unquoteNumbers [] := by
    have hsome : (Ptree.node [] (messageRoot block nodes)).children ≠ [] :=
      List.cons_ne_nil _ _
    apply unquoteNumbers_write _ (.inr hsome) _
      (keyText_messageRoot hvalid hpoints)
    · intro c hc
      contradiction
    · intro data hdata
      rcases (mem_values_messageRoot hknobs hmetrics hpoints).mp hdata with
        htext | ⟨-, rfl⟩
      · exact hsettled data htext
      · exact settled_of_not_mem List.not_mem_nil
  rw [encode, hroot, Json.writeJson, hverify]
  exact congrArg Except.ok (hbare.trans (List.append_nil _))

include hknobs hmetrics hpoints in
theorem readJson_message
    (hnumbers : ∀ data ∈ messageTexts block predictions,
      isNumeral data = true → Json.isNumber data = true) :
    Json.readJson
        (Json.write bareValue false 0 (.node [] (messageRoot block nodes))) =
      some (.node [] (messageRoot block nodes)) := by
  apply Json.readJson_write (plainChildren_messageRoot hpoints)
  intro data hdata
  apply reads_bareValue
  rcases (mem_values_messageRoot hknobs hmetrics hpoints).mp hdata with
    htext | ⟨-, rfl⟩
  · exact hnumbers data htext
  · intro hnumeral
    contradiction

include hknobs hmetrics hpoints in
theorem readJson_message_eq_none
    (hbroken : ∃ data ∈ messageTexts block predictions,
      isNumeral data = true ∧ Json.isNumber data = false) :
    Json.readJson
        (Json.write bareValue false 0 (.node [] (messageRoot block nodes))) =
      none := by
  apply Json.readJson_write_eq_none (plainChildren_messageRoot hpoints)
  · intro data _
    cases hnumeral : isNumeral data with
    | false =>
        refine .inl (reads_bareValue fun hbare => ?_)
        rw [hnumeral] at hbare
        contradiction
    | true =>
        cases hnumber : Json.isNumber data with
        | true => exact .inl (reads_bareValue fun _ => hnumber)
        | false => exact .inr (breaks_bareValue hnumeral hnumber)
  · obtain ⟨data, hdata, hnumeral, hnumber⟩ := hbroken
    exact ⟨data,
      (mem_values_messageRoot hknobs hmetrics hpoints).mpr (.inl hdata),
      breaks_bareValue hnumeral hnumber⟩

end Message

section Points

variable {prediction : Prediction} {node : Ptree} (hvalid : ValidBlock block)
  (hcompiles : parserCompiles block = true)
  (hpoint : IsPoint block prediction node)

include hvalid hcompiles hpoint in
theorem parseMetricField_eq {metric : MetricModel} (hmem : metric ∈ block.metrics) :
    parseMetricField T block node metric =
      metricMeaning T block prediction.result metric := by
  have hchild := getChild_metric hvalid hcompiles hpoint hmem
  rw [parseMetricField, metricMeaning, getValue]
  simp only [hchild, Option.bind_some, metricNode]
  cases metric.distribution with
  | true => rfl
  | false => rfl

include hvalid hcompiles hpoint in
/-- What is read of a node: the numbers of its fields, if they are all there. -/
theorem parsePoint_eq_some {read : ClusteredPoint T.Value} :
    parsePoint T block node = some read ↔
      (block.features.fields.map fun field => T.get block.features.featuresType
        (prediction.features field.name)) = read.features.map some ∧
      (block.knobs.map fun knob => T.get block.knobsSegmentType
        (knobValue prediction.configuration knob)) =
          read.point.knobs.map some ∧
      block.metrics.map (metricMeaning T block prediction.result) =
        read.point.metrics.map some := by
  have hfeatures : (block.features.fields.map fun field =>
      getValue T block.features.featuresType
        ("features.".toList ++ field.name) node) =
      block.features.fields.map fun field =>
        T.get block.features.featuresType (prediction.features field.name) := by
    apply List.map_congr_left
    intro field hmem
    rw [getValue, getChild_feature hvalid hcompiles hpoint hmem]
    rfl
  have hknobs : (block.knobs.map fun knob => getValue T block.knobsSegmentType
        ("knobs.".toList ++ knob.name) node) =
      block.knobs.map fun knob => T.get block.knobsSegmentType
        (knobValue prediction.configuration knob) := by
    apply List.map_congr_left
    intro knob hmem
    rw [getValue, getChild_knob hvalid hcompiles hpoint hmem]
    rfl
  have hmetrics : block.metrics.map (parseMetricField T block node) =
      block.metrics.map (metricMeaning T block prediction.result) :=
    List.map_congr_left fun metric hmem =>
      parseMetricField_eq hvalid hcompiles hpoint hmem
  simp only [parsePoint, Option.bind_eq_bind, Option.bind_eq_some_iff,
    Option.pure_def, Option.some.injEq, mapM_eq_some, hfeatures, hknobs,
    hmetrics]
  constructor
  · rintro ⟨features, hfeatures, knobs, hknobs, metrics, hmetrics, rfl⟩
    exact ⟨hfeatures, hknobs, hmetrics⟩
  · rintro ⟨hfeatures, hknobs, hmetrics⟩
    exact ⟨_, hfeatures, _, hknobs, _, hmetrics, rfl⟩

include hvalid hcompiles hpoint in
/-- A node that can be read is legible. -/
theorem legible_of_parsePoint {read : ClusteredPoint T.Value}
    (hread : parsePoint T block node = some read)
    (hnumbers : ∀ data ∈ predictionTexts block prediction,
      isNumeral data = true → Json.isNumber data = true) :
    Legible T block prediction := by
  obtain ⟨hfeatures, hknobs, hmetrics⟩ :=
    (parsePoint_eq_some hvalid hcompiles hpoint).mp hread
  refine ⟨fun knob hmem hstring => ?_, hnumbers,
    exists_map_some.mp ⟨_, hfeatures⟩, exists_map_some.mp ⟨_, hmetrics⟩⟩
  -- The value of a string begins with a quote, which no number does.
  have hsome := exists_map_some.mp ⟨_, hknobs⟩ knob hmem
  obtain ⟨value, hvalue⟩ := Option.isSome_iff_exists.mp hsome
  apply T.noQuote _ _ _ hvalue
  rw [knobValue, if_pos hstring]
  exact List.mem_append_left _ List.mem_cons_self

include hvalid hcompiles hpoint in
/-- A legible node is read as what it represents. -/
theorem exists_represents
    (hover : OverKnobs T block prediction.configuration)
    (hlegible : Legible T block prediction) :
    ∃ read, parsePoint T block node = some read ∧
      Represents T block prediction read := by
  have hvalue : ∀ knob ∈ block.knobs,
      T.get block.knobsSegmentType (knobValue prediction.configuration knob) =
        knobMeaning T block prediction.configuration knob := by
    intro knob hmem
    have hnumber := hlegible.noString knob hmem
    rw [knobValue, knobMeaning, if_neg hnumber, if_neg hnumber]
  obtain ⟨features, hfeatures⟩ := exists_map_some.mpr hlegible.features
  obtain ⟨metrics, hmetrics⟩ := exists_map_some.mpr hlegible.metrics
  obtain ⟨knobs, hknobs⟩ : ∃ knobs : List T.Value,
      block.knobs.map (knobMeaning T block prediction.configuration) =
        knobs.map some := by
    apply exists_map_some.mpr
    intro knob hmem
    have hnumber := hlegible.noString knob hmem
    rw [knobMeaning, if_neg hnumber]
    exact hover.numeric knob hmem hnumber
  refine ⟨⟨features, ⟨knobs, metrics⟩⟩, ?_, ⟨hfeatures, hknobs, hmetrics⟩⟩
  rw [parsePoint_eq_some hvalid hcompiles hpoint]
  exact ⟨hfeatures, (List.map_congr_left hvalue).trans hknobs, hmetrics⟩

end Points

section Iff

variable (hvalid : ValidBlock block) (hcompiles : parserCompiles block = true)
  (hknobs : block.knobs ≠ []) (hmetrics : block.metrics ≠ [])
  (hpoints : List.Forall₂ (IsPoint block) predictions nodes)
  (hsettled : ∀ data ∈ messageTexts block predictions, Settled data)

include hvalid hcompiles hknobs hmetrics hpoints in
/-- The generated parser takes the nodes of the message one by one. -/
theorem operatingPointParser_message
    (hnumbers : ∀ data ∈ messageTexts block predictions,
      isNumeral data = true → Json.isNumber data = true) :
    operatingPointParser T block
        (Json.write bareValue false 0 (.node [] (messageRoot block nodes))) =
      nodes.mapM (parsePoint T block) := by
  have hchild : (Ptree.node [] (messageRoot block nodes)).getChild? block.name =
      some (Ptree.array nodes) := by
    rw [Ptree.getChild?, Ptree.fragments_of_plain
      (isValidIdentifier_ne_nil hvalid.name) (dot_not_mem hvalid.name),
      Ptree.walk, Ptree.find, Ptree.children, messageRoot]
    simp [Ptree.walk]
  rw [operatingPointParser, if_pos hcompiles,
    readJson_message hknobs hmetrics hpoints hnumbers]
  simp only [Option.bind_eq_bind, Option.bind_some, hchild, Ptree.array,
    Ptree.children, List.mapM_map]
  rfl

include hvalid hcompiles hpoints in
/-- Legible nodes are read one by one as what they represent. -/
theorem exists_points
    (hover : ∀ prediction ∈ predictions,
      OverKnobs T block prediction.configuration)
    (hlegible : ∀ prediction ∈ predictions, Legible T block prediction) :
    ∃ points, nodes.map (parsePoint T block) = points.map some ∧
      List.Forall₂ (Represents T block) predictions points := by
  induction hpoints with
  | nil => exact ⟨[], rfl, .nil⟩
  | cons hpoint _ ih =>
      rw [List.forall_mem_cons] at hover hlegible
      obtain ⟨read, hread, hrepresents⟩ :=
        exists_represents hvalid hcompiles hpoint hover.1 hlegible.1
      obtain ⟨points, hpoints, hall⟩ := ih hover.2 hlegible.2
      exact ⟨read :: points, by
        rw [List.map_cons, List.map_cons, hread, hpoints], .cons hrepresents hall⟩

include hvalid hcompiles hpoints in
theorem legible_of_points
    (hread : ∀ node ∈ nodes, (parsePoint T block node).isSome = true)
    (hnumbers : ∀ data ∈ messageTexts block predictions,
      isNumeral data = true → Json.isNumber data = true) :
    ∀ prediction ∈ predictions, Legible T block prediction := by
  induction hpoints with
  | nil => exact List.forall_mem_nil _
  | cons hpoint _ ih =>
      rw [List.forall_mem_cons] at hread ⊢
      rw [messageTexts, List.flatMap_cons, List.forall_mem_append] at hnumbers
      obtain ⟨read, hfirst⟩ := Option.isSome_iff_exists.mp hread.1
      exact ⟨legible_of_parsePoint hvalid hcompiles hpoint hfirst hnumbers.1,
        ih hread.2 hnumbers.2⟩

include hvalid hcompiles hknobs hmetrics hpoints hsettled in
/-- The message is delivered exactly when all its predictions are legible. -/
theorem delivered_encode_iff
    (hover : ∀ prediction ∈ predictions,
      OverKnobs T block prediction.configuration) :
    Delivered T block (encode block nodes) predictions ↔
      ∀ prediction ∈ predictions, Legible T block prediction := by
  have hencode := encode_eq hvalid hknobs hmetrics hpoints hsettled
  constructor
  · rintro ⟨text, htext, points, hread, -⟩
    obtain rfl := Except.ok.inj (hencode.symm.trans htext)
    have hnumbers : ∀ data ∈ messageTexts block predictions,
        isNumeral data = true → Json.isNumber data = true := by
      intro data hdata hnumeral
      by_contra hnumber
      rw [Bool.not_eq_true] at hnumber
      have hnone := readJson_message_eq_none hknobs hmetrics hpoints
        ⟨data, hdata, hnumeral, hnumber⟩
      rw [operatingPointParser, if_pos hcompiles, hnone] at hread
      contradiction
    rw [operatingPointParser_message hvalid hcompiles hknobs hmetrics hpoints
      hnumbers, mapM_eq_some] at hread
    exact legible_of_points hvalid hcompiles hpoints
      (exists_map_some.mp ⟨_, hread⟩) hnumbers
  · intro hlegible
    have hnumbers : ∀ data ∈ messageTexts block predictions,
        isNumeral data = true → Json.isNumber data = true := by
      intro data hdata
      obtain ⟨prediction, hmem, hdata⟩ := List.mem_flatMap.mp hdata
      exact (hlegible prediction hmem).numbers data hdata
    refine ⟨_, hencode, ?_⟩
    rw [operatingPointParser_message hvalid hcompiles hknobs hmetrics hpoints
      hnumbers]
    simp only [mapM_eq_some]
    exact exists_points hvalid hcompiles hpoints hover hlegible

end Iff

section Messages

theorem parserCompiles_of_delivered {message : Checked Text}
    (hdelivered : Delivered T block message predictions) :
    parserCompiles block = true := by
  obtain ⟨text, -, points, hread, -⟩ := hdelivered
  rw [operatingPointParser] at hread
  split at hread
  · next hcompiles => exact hcompiles
  · contradiction

/-- The texts of a prediction over the block are settled. -/
theorem OverBlock.settled {prediction : Prediction}
    (hover : OverBlock T block prediction) :
    ∀ data ∈ predictionTexts block prediction, Settled data := by
  intro data hdata
  rw [predictionTexts, List.mem_append, List.mem_append] at hdata
  rcases hdata with (hdata | hdata) | hdata
  · obtain ⟨field, hmem, rfl⟩ := List.mem_map.mp hdata
    exact settled_of_get (hover.features field hmem)
  · obtain ⟨knob, hmem, rfl⟩ := List.mem_map.mp hdata
    exact settled_knobValue hover.knobs hmem
  · obtain ⟨metric, hmem, hdata⟩ := List.mem_flatMap.mp hdata
    rw [metricTexts] at hdata
    split at hdata
    · next hdistribution =>
        simp only [List.mem_cons, List.not_mem_nil, or_false] at hdata
        rcases hdata with rfl | rfl
        · exact settled_of_get (hover.means metric hmem)
        · exact settled_of_get (hover.deviations metric hmem hdistribution)
    · obtain rfl := List.mem_singleton.mp hdata
      exact settled_of_get (hover.means metric hmem)

theorem settled_unknownPrediction {configuration : KnobConfiguration}
    (hover : OverKnobs T block configuration) :
    ∀ data ∈ predictionTexts block (unknownPrediction configuration),
      Settled data := by
  have hunknown : ∀ data ∈ ["9999".toList, "0".toList], Settled data := by
    intro data hdata
    apply settled_of_not_mem
    revert data
    decide
  intro data hdata
  rw [predictionTexts, List.mem_append, List.mem_append] at hdata
  rcases hdata with (hdata | hdata) | hdata
  · obtain ⟨field, hmem, rfl⟩ := List.mem_map.mp hdata
    exact hunknown _ List.mem_cons_self
  · obtain ⟨knob, hmem, rfl⟩ := List.mem_map.mp hdata
    exact settled_knobValue hover hmem
  · obtain ⟨metric, hmem, hdata⟩ := List.mem_flatMap.mp hdata
    rw [metricTexts] at hdata
    split at hdata
    · exact hunknown data hdata
    · obtain rfl := List.mem_singleton.mp hdata
      exact hunknown _ List.mem_cons_self

/-- The condition under which the configuration of a block is delivered. -/
def ConfigurationLegible (T : Translator) (block : BlockModel)
    (configuration : KnobConfiguration) : Prop :=
  parserCompiles block = true ∧
    Legible T block (unknownPrediction configuration)

/-- The condition under which predictions about a block are delivered. -/
def PredictionsLegible (T : Translator) (block : BlockModel)
    (results : List Prediction) : Prop :=
  parserCompiles block = true ∧
    ∀ prediction ∈ results, Legible T block prediction

theorem configuration_delivered_iff (b : AgoraBlock)
    {configuration : KnobConfiguration}
    (hover : OverKnobs T b.block configuration) :
    Delivered T b.block (configurationToJson b.block configuration)
        [unknownPrediction configuration] ↔
      ConfigurationLegible T b.block configuration := by
  obtain ⟨hmetrics, hknobs, -⟩ := b.valid.enabled b.enabled
  have hmessage (hcompiles : parserCompiles b.block = true) :
      Delivered T b.block (configurationToJson b.block configuration)
          [unknownPrediction configuration] ↔
        ∀ prediction ∈ [unknownPrediction configuration],
          Legible T b.block prediction := by
    apply delivered_encode_iff b.valid hcompiles hknobs hmetrics
    · exact .cons (isPoint_configurationOp b.valid hcompiles configuration) .nil
    · intro data hdata
      rw [messageTexts, List.flatMap_singleton] at hdata
      exact settled_unknownPrediction hover data hdata
    · rw [List.forall_mem_singleton]
      exact hover
  constructor
  · intro hdelivered
    have hcompiles := parserCompiles_of_delivered hdelivered
    exact ⟨hcompiles, (hmessage hcompiles).mp hdelivered _
      (List.mem_singleton.mpr rfl)⟩
  · rintro ⟨hcompiles, hlegible⟩
    rw [hmessage hcompiles, List.forall_mem_singleton]
    exact hlegible

theorem prediction_delivered_iff (b : AgoraBlock) {results : List Prediction}
    (hover : ∀ prediction ∈ results, OverBlock T b.block prediction) :
    Delivered T b.block (predictionToJson b.block results) results ↔
      PredictionsLegible T b.block results := by
  obtain ⟨hmetrics, hknobs, -⟩ := b.valid.enabled b.enabled
  have hmessage (hcompiles : parserCompiles b.block = true) :
      Delivered T b.block (predictionToJson b.block results) results ↔
        ∀ prediction ∈ results, Legible T b.block prediction := by
    apply delivered_encode_iff b.valid hcompiles hknobs hmetrics
    · rw [List.forall₂_map_right_iff, List.forall₂_same]
      exact fun prediction _ => isPoint_predictionOp b.valid hcompiles prediction
    · intro data hdata
      obtain ⟨prediction, hmem, hdata⟩ := List.mem_flatMap.mp hdata
      exact (hover prediction hmem).settled data hdata
    · exact fun prediction hmem => (hover prediction hmem).knobs
  constructor
  · intro hdelivered
    have hcompiles := parserCompiles_of_delivered hdelivered
    exact ⟨hcompiles, (hmessage hcompiles).mp hdelivered⟩
  · rintro ⟨hcompiles, hlegible⟩
    exact (hmessage hcompiles).mpr hlegible

/-- Configurations and predictions over a block are read back exactly when their
texts are legible for the generated parser. -/
theorem messages_delivered_iff (T : Translator) (b : AgoraBlock) :
    (∀ configuration, OverKnobs T b.block configuration →
      (Delivered T b.block (configurationToJson b.block configuration)
          [unknownPrediction configuration] ↔
        ConfigurationLegible T b.block configuration)) ∧
    ∀ results, (∀ prediction ∈ results, OverBlock T b.block prediction) →
      (Delivered T b.block (predictionToJson b.block results) results ↔
        PredictionsLegible T b.block results) :=
  ⟨fun _ hover => configuration_delivered_iff b hover,
    fun _ hover => prediction_delivered_iff b hover⟩

end Messages

end Delivery

namespace Sample

/-- Numbers without a sign or a point. -/
def digitsValue (text : Text) : Option Nat :=
  if text ≠ [] ∧ text.all Char.isDigit then some (Nat.ofDigitChars 10 text 0)
  else none

theorem quote_not_mem_of_digitsValue {text : Text} {value : Nat}
    (hvalue : digitsValue text = some value) : '"' ∉ text := by
  intro hquote
  rw [digitsValue] at hvalue
  split at hvalue
  · next hdigits =>
      have hdigit := List.all_eq_true.mp hdigits.2 '"' hquote
      contradiction
  · contradiction

def translator : Translator where
  Value := Nat
  get _ text := digitsValue text
  ofNat _ n := n
  noQuote _ _ _ hvalue := quote_not_mem_of_digitsValue hvalue

/-- A block with a knob of strings, and a metric with a distribution. -/
def governed : BlockModel :=
  { Heel.Sample.block with
    knobs := [⟨"governor".toList, "string".toList,
      ["ondemand".toList, "powersave".toList]⟩]
    metrics := [⟨"latency".toList, "float".toList, true, "linear".toList,
      "clock".toList, 0, []⟩] }

def validGoverned : BlockModel :=
  (validateBlock governed).toOption.get (by decide +kernel)

def governedBlock : AgoraBlock where
  model := Heel.Sample.application "1.0".toList governed
  app := Heel.Sample.application "1.0".toList validGoverned
  accepted := rfl
  block := validGoverned
  mem := List.mem_singleton.mpr rfl
  enabled := rfl

/-- A string is sent with quotes that are no part of a number. -/
theorem not_delivered_governor :
    ¬ ∀ (T : Translator) (b : AgoraBlock) configuration,
      OverKnobs T b.block configuration →
        Delivered T b.block (configurationToJson b.block configuration)
          [unknownPrediction configuration] := by
  intro hall
  have hover : OverKnobs translator governedBlock.block
      fun _ => "ondemand".toList := by
    have hstring : ∀ knob ∈ validGoverned.knobs, knob.type = "string".toList ∧
        "ondemand".toList ∈ knob.values := by decide +kernel
    refine ⟨fun knob hmem hnumber => ?_, fun knob hmem _ => ?_⟩
    · exact absurd (hstring knob hmem).1 hnumber
    · exact (hstring knob hmem).2
  have hdelivered := hall translator governedBlock _ hover
  have hlegible := ((configuration_delivered_iff governedBlock hover).mp
    hdelivered).2
  have hstring : ∃ knob ∈ validGoverned.knobs,
      knob.type = "string".toList := by decide +kernel
  obtain ⟨knob, hmem, htype⟩ := hstring
  exact hlegible.noString knob hmem htype

end Sample

end Margot.Agora
