/-
What is left of the blocks of an application when its composition is parsed.
Every part of a block is read under the tags it is written with; only the
distance of the features has a value that no tag stands for.
-/
import Margot.Heel.ParsedState

namespace Margot.Heel

/-- Without the url of a broker there is no section. -/
def AgoraModel.section? (agora : AgoraModel) : Option AgoraModel :=
  if agora.empty then none else some agora

/-- The parsed block describes the same geometry, with the lists sorted by
name. -/
structure SameBlock (parsed block : BlockModel) : Prop where
  name : parsed.name = block.name
  knobs : parsed.knobs.Perm block.knobs
  knobsSorted : (parsed.knobs.map (·.name)).Pairwise (· ≤ ·)
  metrics : parsed.metrics.Perm block.metrics
  metricsSorted : (parsed.metrics.map (·.name)).Pairwise (· ≤ ·)
  fields : parsed.features.fields.Perm block.features.fields
  fieldsSorted : (parsed.features.fields.map (·.name)).Pairwise (· ≤ ·)
  distance : parsed.features.distanceType = block.features.distanceType
  agora : parsed.agora.section? = block.agora.section?

/-- The composition of the application is parsed as the same blocks. -/
def BlocksSurvive (sorter : NameSort)
    (computeRange : Ptree → Text → Checked (List Text))
    (app : ApplicationModel) : Prop :=
  ∃ parsed, parseApplication sorter computeRange (composeApplication app) =
      .ok parsed ∧
    (parsed.blocks.map (·.name)).Pairwise (· ≤ ·) ∧
    ∃ blocks, parsed.blocks.Perm blocks ∧
      List.Forall₂ SameBlock blocks app.blocks

/-- The key is one fragment of a path. -/
def PairProperty.Plain (property : PairProperty) : Prop :=
  property.key ≠ [] ∧ '.' ∉ property.key

instance (property : PairProperty) : Decidable property.Plain :=
  inferInstanceAs (Decidable (_ ∧ _))

/-- The keys of the parameters of the plugins. -/
def BlockModel.PlainParameters (block : BlockModel) : Prop :=
  (∀ metric ∈ block.metrics, ∀ property ∈ metric.predictionParameters,
    property.Plain) ∧
  (∀ property ∈ block.agora.doeParameters, property.Plain) ∧
  ∀ property ∈ block.agora.clusteringParameters, property.Plain

instance (block : BlockModel) : Decidable block.PlainParameters :=
  inferInstanceAs (Decidable (_ ∧ _ ∧ _))

/-- The inertia of every metric is a `std::size_t`. -/
def BlockModel.FitsSize (block : BlockModel) : Prop :=
  ∀ metric ∈ block.metrics, metric.inertia < 2 ^ 64

instance (block : BlockModel) : Decidable block.FitsSize :=
  inferInstanceAs (Decidable (∀ metric ∈ block.metrics, _))

section Parts

/-- Elements that are read as they were written. -/
theorem map_map_self {α β : Type} {compose : α → β} {read : β → α}
    {elements : List α}
    (hread : ∀ element ∈ elements, read (compose element) = element) :
    (elements.map compose).map read = elements := by
  rw [List.map_map]
  calc elements.map (read ∘ compose)
      = elements.map id := List.map_congr_left hread
    _ = elements := List.map_id _

theorem parseProperty_compose {property : PairProperty}
    (hplain : property.Plain) :
    parseProperty (composeProperty property) = property := by
  rw [composeProperty, Ptree.put_new hplain.1 hplain.2 List.not_mem_nil]
  rfl

theorem composeKnob_eq (knob : KnobModel) :
    composeKnob knob = .node [] (Ptree.leaves
      [("name".toList, knob.name), ("type".toList, knob.type)] ++
        Ptree.branch "values".toList (knob.values.map composeText)) := by
  rw [composeKnob, Ptree.putAll_empty]
  · exact addList_node composeText (by decide) (by decide) _ _ _
  · simp only [List.map_cons, List.map_nil]
    decide

/-- The values of a knob are listed, so no range is computed. -/
theorem parseKnob_compose
    (computeRange : Ptree → Text → Checked (List Text)) (knob : KnobModel) :
    parseKnob computeRange (composeKnob knob) = .ok knob := by
  have hname : (composeKnob knob).text "name".toList = knob.name := by
    rw [composeKnob_eq]
    exact Ptree.text_node (by decide) (by decide) rfl
  have htype : (composeKnob knob).text "type".toList = knob.type := by
    rw [composeKnob_eq]
    exact Ptree.text_node (by decide) (by decide) rfl
  have hvalues : (composeKnob knob).elements "values".toList =
      knob.values.map composeText := by
    rw [composeKnob_eq]
    exact Ptree.elements_node (by decide) (by decide)
      (by simp only [List.map_cons, List.map_nil]; decide)
      (Ptree.elements_branch _ _)
  have hrange : (composeKnob knob).getChild? "range".toList = none := by
    rw [composeKnob_eq, Ptree.getChild?_plain (by decide) (by decide),
      Ptree.children, Ptree.find_leaves_of_not_mem]
    · exact Ptree.find_branch_none (by decide) _
    · simp only [List.map_cons, List.map_nil]
      decide
  rw [parseKnob, hname, htype, hvalues, hrange,
    map_map_self fun _ _ => rfl]
  obtain ⟨name, type, values⟩ := knob
  cases values <;> rfl

theorem composeMetric_eq (metric : MetricModel) :
    composeMetric metric = .node [] (Ptree.leaves
      [("name".toList, metric.name), ("type".toList, metric.type),
        ("distribution".toList, boolName metric.distribution),
        ("prediction_plugin".toList, metric.predictionPlugin),
        ("observed_by".toList, metric.monitorName),
        ("reactive_inertia".toList, numeral metric.inertia)] ++
      Ptree.branch "prediction_parameters".toList
        (metric.predictionParameters.map composeProperty)) := by
  rw [composeMetric, Ptree.putAll_empty]
  · exact addList_node composeProperty (by decide) (by decide) _ _ _
  · simp only [List.map_cons, List.map_nil]
    decide

theorem parseInertia_numeral {inertia : Nat} (hfits : inertia < 2 ^ 64) :
    parseInertia (numeral inertia) = .ok inertia := by
  have hdigits : ∀ c ∈ numeral inertia, c.isDigit = true :=
    fun c => isDigit_of_mem_numeral
  have hvalue : Nat.ofDigitChars 10 (numeral inertia) 0 = inertia :=
    Nat.ofDigitChars_ten_toDigits
  have hcast : castDigits (numeral inertia) = some inertia := by
    rw [castDigits, hvalue, if_pos]
    exact ⟨numeral_ne_nil inertia, List.all_eq_true.mpr hdigits, hfits⟩
  have hsigned : castSigned (numeral inertia) = some inertia := by
    unfold castSigned
    split
    · next hminus => exact absurd (hdigits '-' (by simp [hminus])) (by decide)
    · next hplus => exact absurd (hdigits '+' (by simp [hplus])) (by decide)
    · exact hcast
  rw [parseInertia, if_neg (numeral_ne_nil inertia), lexicalCast, hsigned]

theorem parseDistribution_boolName (value : Bool) :
    parseDistribution (boolName value) = .ok value := by
  cases value <;> decide

theorem parseMetric_compose {metric : MetricModel}
    (hfits : metric.inertia < 2 ^ 64)
    (hplain : ∀ property ∈ metric.predictionParameters, property.Plain) :
    parseMetric (composeMetric metric) = .ok metric := by
  have hparameters : ((composeMetric metric).elements
      "prediction_parameters".toList).map parseProperty =
        metric.predictionParameters := by
    rw [composeMetric_eq, Ptree.elements_node (by decide) (by decide)
      (by simp only [List.map_cons, List.map_nil]; decide)
      (Ptree.elements_branch _ _)]
    exact map_map_self fun property hmem =>
      parseProperty_compose (hplain property hmem)
  have hinertia : (composeMetric metric).text "reactive_inertia".toList =
      numeral metric.inertia := by
    rw [composeMetric_eq]
    exact Ptree.text_node (by decide) (by decide) rfl
  have hdistribution : (composeMetric metric).text "distribution".toList =
      boolName metric.distribution := by
    rw [composeMetric_eq]
    exact Ptree.text_node (by decide) (by decide) rfl
  rw [parseMetric, hinertia, hdistribution, parseInertia_numeral hfits,
    parseDistribution_boolName, hparameters]
  rw [composeMetric_eq]
  rfl

theorem parseFeature_compose (field : FeatureModel) :
    parseFeature (composeFeature field) = .ok field := by
  obtain ⟨name, type, comparison⟩ := field
  cases comparison <;> rfl

theorem composeAgora_eq (agora : AgoraModel) :
    composeAgora agora = .node [] (Ptree.leaves
      [("broker_url".toList, agora.url),
        ("broker_username".toList, agora.username),
        ("broker_password".toList, agora.password),
        ("broker_qos".toList, agora.qos), ("broker_ca".toList, agora.brokerCa),
        ("client_cert".toList, agora.clientCert),
        ("client_key".toList, agora.clientKey),
        ("number_configurations_per_iteration".toList,
          agora.numberConfigurationsPerIteration),
        ("number_observations_per_configuration".toList,
          agora.numberObservationsPerConfiguration),
        ("max_number_iteration".toList, agora.maxNumberIteration),
        ("doe_plugin".toList, agora.doePlugin),
        ("clustering_plugin".toList, agora.clusteringPlugin)] ++
      (Ptree.branch "doe_parameters".toList
        (agora.doeParameters.map composeProperty) ++
      Ptree.branch "clustering_parameters".toList
        (agora.clusteringParameters.map composeProperty))) := by
  rw [composeAgora, Ptree.putAll_empty]
  · rw [addList_node composeProperty (by decide) (by decide),
      addList_node composeProperty (by decide) (by decide), List.append_assoc]
    rfl
  · simp only [List.map_cons, List.map_nil]
    decide

theorem parseAgora_compose {agora : AgoraModel}
    (hdoe : ∀ property ∈ agora.doeParameters, property.Plain)
    (hclustering : ∀ property ∈ agora.clusteringParameters, property.Plain) :
    parseAgora (composeAgora agora) = agora := by
  have hdoeParameters : ((composeAgora agora).elements
      "doe_parameters".toList).map parseProperty = agora.doeParameters := by
    rw [composeAgora_eq, Ptree.elements_node (by decide) (by decide)
      (by simp only [List.map_cons, List.map_nil]; decide)
      (Ptree.elements_find_branch (Ptree.find_branch_none (by decide) _) _)]
    exact map_map_self fun property hmem =>
      parseProperty_compose (hdoe property hmem)
  have hclusteringParameters : ((composeAgora agora).elements
      "clustering_parameters".toList).map parseProperty =
        agora.clusteringParameters := by
    have hfound := Ptree.elements_branch "clustering_parameters".toList
      (agora.clusteringParameters.map composeProperty)
    have hne : "doe_parameters".toList ≠ "clustering_parameters".toList := by
      decide
    rw [← Ptree.find_branch_ne hne
      (agora.doeParameters.map composeProperty)] at hfound
    rw [composeAgora_eq, Ptree.elements_node (by decide) (by decide)
      (by simp only [List.map_cons, List.map_nil]; decide) hfound]
    exact map_map_self fun property hmem =>
      parseProperty_compose (hclustering property hmem)
  rw [parseAgora, hdoeParameters, hclusteringParameters, composeAgora_eq]
  rfl

end Parts

section Blocks

/-- The values of a composed block. -/
def blockValues (block : BlockModel) : List (Text × Text) :=
  [("name".toList, block.name)] ++
    if block.features.fields.isEmpty then []
    else [("feature_distance".toList, block.features.distanceType.toStr)]

/-- The sections of a composed block. -/
def blockSections (block : BlockModel) : List (Text × Option Ptree) :=
  [("monitors".toList, Ptree.listNode (block.monitors.map composeMonitor)),
    ("knobs".toList, Ptree.listNode (block.knobs.map composeKnob)),
    ("metrics".toList, Ptree.listNode (block.metrics.map composeMetric)),
    ("agora".toList,
      if block.agora.empty then none else some (composeAgora block.agora)),
    ("features".toList,
      Ptree.listNode (block.features.fields.map composeFeature)),
    ("extra-functional_requirements".toList,
      Ptree.listNode (block.states.map composeState))]

variable {block : BlockModel}

theorem composeBlock_eq (block : BlockModel) :
    composeBlock block = .node [] (Ptree.leaves (blockValues block) ++
      Ptree.present (blockSections block)) := by
  have hvalues : Ptree.empty.putAll (blockValues block) =
      .node [] (Ptree.leaves (blockValues block)) := by
    apply Ptree.putAll_empty
    rw [blockValues]
    split
    · simp only [List.append_nil, List.map_cons, List.map_nil]
      decide
    · simp only [List.cons_append, List.nil_append, List.map_cons,
        List.map_nil]
      decide
  have hagora : ∀ children : List (Text × Ptree),
      (if block.agora.empty then Ptree.node [] children
        else (Ptree.node [] children).addChild "agora".toList
          (composeAgora block.agora)) =
      .node [] (children ++ Ptree.present [("agora".toList,
        if block.agora.empty then none
        else some (composeAgora block.agora))]) := by
    intro children
    split
    · exact congrArg _ (List.append_nil _).symm
    · exact Ptree.addChild_plain (by decide) (by decide) _ _
  have hsections : Ptree.present (blockSections block) =
      Ptree.branch "monitors".toList (block.monitors.map composeMonitor) ++
      (Ptree.branch "knobs".toList (block.knobs.map composeKnob) ++
      (Ptree.branch "metrics".toList (block.metrics.map composeMetric) ++
      (Ptree.present [("agora".toList, if block.agora.empty then none
        else some (composeAgora block.agora))] ++
      (Ptree.branch "features".toList
        (block.features.fields.map composeFeature) ++
      Ptree.branch "extra-functional_requirements".toList
        (block.states.map composeState))))) := by
    rw [blockSections, Ptree.present_cons_list, Ptree.present_cons_list,
      Ptree.present_cons_list, Ptree.present_cons, Ptree.present_cons_list,
      Ptree.present_cons_list, Ptree.present_nil, List.append_nil]
  rw [blockValues] at hvalues
  simp (disch := decide) only [composeBlock, hvalues, addList_node, hagora,
    hsections, List.append_assoc]
  rfl

theorem nodup_blockSections (block : BlockModel) :
    ((blockSections block).map Prod.fst).Nodup := by
  simp only [blockSections, List.map_cons, List.map_nil]
  decide

theorem keys_blockValues_subset (block : BlockModel) :
    (blockValues block).map Prod.fst ⊆
      ["name".toList, "feature_distance".toList] := by
  rw [blockValues]
  split <;> simp

/-- A list of a composed block is found under its tag. -/
theorem elements_composeBlock {key : Text} {elements : List Ptree}
    (hplain : key ≠ [] ∧ '.' ∉ key)
    (hother : key ∉ ["name".toList, "feature_distance".toList])
    (hsection : (blockSections block).lookup key =
      some (Ptree.listNode elements)) :
    (composeBlock block).elements key = elements := by
  have hfound := Ptree.elements_listNode elements
  rw [← Ptree.find_present (nodup_blockSections block) hsection] at hfound
  rw [composeBlock_eq]
  exact Ptree.elements_node hplain.1 hplain.2
    (fun hmem => hother (keys_blockValues_subset block hmem)) hfound

theorem agora_composeBlock (block : BlockModel) :
    (composeBlock block).getChild? "agora".toList =
      if block.agora.empty then none else some (composeAgora block.agora) := by
  rw [composeBlock_eq, Ptree.getChild?_plain (by decide) (by decide),
    Ptree.children, Ptree.find_leaves_of_not_mem]
  · exact Ptree.find_present (nodup_blockSections block) rfl
  · intro hmem
    exact absurd (keys_blockValues_subset block hmem) (by decide)

theorem distance_composeBlock (block : BlockModel) :
    (composeBlock block).text "feature_distance".toList =
      if block.features.fields = [] then []
      else block.features.distanceType.toStr := by
  have habsent : Ptree.find "feature_distance".toList
      (Ptree.present (blockSections block)) = none := by
    apply Ptree.find_present_of_not_mem
    simp only [blockSections, List.map_cons, List.map_nil]
    decide
  rw [composeBlock_eq]
  split
  · next hnone =>
      have hvalues : blockValues block = [("name".toList, block.name)] := by
        simp [blockValues, hnone]
      rw [hvalues]
      exact Ptree.text_node_absent (by decide) (by decide)
        (by simp only [List.map_cons, List.map_nil]; decide) habsent
  · next hsome =>
      have hvalues : blockValues block = [("name".toList, block.name),
          ("feature_distance".toList, block.features.distanceType.toStr)] := by
        simp [blockValues, hsome]
      rw [hvalues]
      exact Ptree.text_node (by decide) (by decide) rfl

theorem name_composeBlock (block : BlockModel) :
    (composeBlock block).text "name".toList = block.name := by
  rw [composeBlock_eq]
  exact Ptree.text_node (by decide) (by decide) rfl

/-- The distance of the features is found again, unless there is none. -/
theorem parseDistance_compose_iff {distance : FeaturesDistanceType}
    (hfields : block.features.fields = [] → block.features.distanceType = .none) :
    parseDistance ((composeBlock block).text "feature_distance".toList) =
        .ok distance ↔
      distance = block.features.distanceType ∧
        (block.features.fields ≠ [] → block.features.distanceType ≠ .none) := by
  rw [distance_composeBlock]
  split
  · next hnone =>
      rw [hfields hnone]
      have hparse : parseDistance [] = .ok .none := rfl
      simp [hparse, hnone, eq_comm]
  · next hsome =>
      have hparse : ∀ written distance : FeaturesDistanceType,
          parseDistance written.toStr = .ok distance ↔
            distance = written ∧ written ≠ .none := by
        intro written distance
        cases written <;> cases distance <;> decide
      rw [hparse]
      simp [hsome]

/-- What the validation of a block leaves. -/
structure AcceptedBlock (block : BlockModel) : Prop where
  states : ∀ state ∈ block.states, AcceptedState state
  distance : block.features.fields = [] → block.features.distanceType = .none

theorem acceptedBlock_of_validate {model : BlockModel}
    (hvalid : validateBlock model = .ok block) : AcceptedBlock block := by
  simp only [validateBlock, validateBlockBy, bind_eq_ok, require_eq_ok,
    pure_eq_ok] at hvalid
  obtain ⟨-, -, monitors, -, knobs, -, fields, -, metrics, -, states, -, -, -,
    monitors', -, knobs', -, metrics', -, features, hfeatures, -, -, states',
    hstates, -, -, -, -, -, -, -, -, rfl⟩ := hvalid
  refine ⟨?_, ?_⟩
  · intro state hmem
    obtain ⟨original, -, hstate⟩ := exists_of_mem_mapM hstates hmem
    exact acceptedState_of_validate hstate
  · intro hnone
    rw [validateFeatures] at hfeatures
    split at hfeatures
    · simp only [bind_eq_ok, require_eq_ok, pure_eq_ok] at hfeatures
      obtain ⟨-, hdistance, rfl⟩ := hfeatures
      simpa using hdistance
    · next hsome =>
        simp only [bind_eq_ok, require_eq_ok, pure_eq_ok] at hfeatures
        obtain ⟨-, -, validated, hvalidated, rfl⟩ := hfeatures
        have hlength := (mapM_eq_ok.mp hvalidated).length_eq
        have hempty : validated = [] := hnone
        rw [hempty] at hlength
        exact absurd (List.length_eq_zero_iff.mp hlength) hsome

/-- Everything but the distance of the features is parsed. -/
theorem parseBlock_compose (sorter : NameSort)
    (computeRange : Ptree → Text → Checked (List Text))
    (haccepted : AcceptedBlock block) (hplain : block.PlainParameters)
    (hfits : block.FitsSize) :
    parseBlock sorter computeRange (composeBlock block) = (do
      let distance ←
        parseDistance ((composeBlock block).text "feature_distance".toList)
      return { BlockModel.initial with
        name := block.name
        monitors := sorter.sort (·.name)
          ((block.monitors.map composeMonitor).map parseMonitor)
        knobs := sorter.sort (·.name) block.knobs
        metrics := sorter.sort (·.name) block.metrics
        features := ⟨distance, [], sorter.sort (·.name) block.features.fields⟩
        agora := if block.agora.empty then .initial else block.agora
        states := block.states.map StateModel.reparsed }) := by
  have hmonitors : (composeBlock block).elements "monitors".toList =
      block.monitors.map composeMonitor :=
    elements_composeBlock (by decide) (by decide) rfl
  have hknobs : parseList (parseKnob computeRange) (composeBlock block)
      "knobs".toList = .ok block.knobs := by
    rw [parseList, elements_composeBlock (by decide) (by decide) rfl,
      mapM_map_ok fun knob _ => parseKnob_compose computeRange knob,
      List.map_id']
  have hmetrics : parseList parseMetric (composeBlock block)
      "metrics".toList = .ok block.metrics := by
    rw [parseList, elements_composeBlock (by decide) (by decide) rfl,
      mapM_map_ok fun metric hmem =>
        parseMetric_compose (hfits metric hmem) (hplain.1 metric hmem),
      List.map_id']
  have hfields : parseList parseFeature (composeBlock block)
      "features".toList = .ok block.features.fields := by
    rw [parseList, elements_composeBlock (by decide) (by decide) rfl,
      mapM_map_ok fun field _ => parseFeature_compose field, List.map_id']
  have hstates : parseList parseState (composeBlock block)
      "extra-functional_requirements".toList =
        .ok (block.states.map StateModel.reparsed) := by
    rw [parseList, elements_composeBlock (by decide) (by decide) rfl]
    exact mapM_map_ok fun state hmem =>
      parseState_compose (haccepted.states state hmem)
  have hagora : (((composeBlock block).getChild? "agora".toList).map
      parseAgora).getD .initial =
        if block.agora.empty then .initial else block.agora := by
    rw [agora_composeBlock]
    split
    · rfl
    · exact parseAgora_compose hplain.2.1 hplain.2.2
  rw [parseBlock, hknobs, hmetrics, hfields, hstates, hagora, hmonitors,
    name_composeBlock]
  rfl

/-- What is parsed of a block is the same block. -/
theorem sameBlock_of_parseBlock {sorter : NameSort}
    {computeRange : Ptree → Text → Checked (List Text)} {parsed : BlockModel}
    (haccepted : AcceptedBlock block) (hplain : block.PlainParameters)
    (hfits : block.FitsSize)
    (hparsed : parseBlock sorter computeRange (composeBlock block) =
      .ok parsed) : SameBlock parsed block := by
  rw [parseBlock_compose sorter computeRange haccepted hplain hfits] at hparsed
  obtain ⟨distance, hdistance, hpure⟩ := bind_eq_ok.mp hparsed
  obtain rfl := pure_eq_ok.mp hpure
  refine ⟨rfl, sorter.perm _ _, sorter.sorted _ _, sorter.perm _ _,
    sorter.sorted _ _, sorter.perm _ _, sorter.sorted _ _,
    ((parseDistance_compose_iff haccepted.distance).mp hdistance).1, ?_⟩
  simp only [AgoraModel.section?]
  split <;> rfl

/-- The block is parsed exactly when its features, if any, have a distance. -/
theorem exists_parseBlock_iff (sorter : NameSort)
    (computeRange : Ptree → Text → Checked (List Text))
    (haccepted : AcceptedBlock block) (hplain : block.PlainParameters)
    (hfits : block.FitsSize) :
    (∃ parsed, parseBlock sorter computeRange (composeBlock block) =
      .ok parsed) ↔
      (block.features.fields ≠ [] → block.features.distanceType ≠ .none) := by
  rw [parseBlock_compose sorter computeRange haccepted hplain hfits]
  constructor
  · rintro ⟨parsed, hparsed⟩
    obtain ⟨distance, hdistance, -⟩ := bind_eq_ok.mp hparsed
    exact ((parseDistance_compose_iff haccepted.distance).mp hdistance).2
  · intro hdistance
    have hparse := (parseDistance_compose_iff haccepted.distance).mpr
      ⟨rfl, hdistance⟩
    exact ⟨_, bind_eq_ok.mpr ⟨_, hparse, rfl⟩⟩

end Blocks

section Application

variable {model app : ApplicationModel}

theorem composeApplication_eq (app : ApplicationModel) :
    composeApplication app = .node [] (Ptree.leaves
      [("name".toList, app.name), ("version".toList, app.version)] ++
        Ptree.branch "blocks".toList (app.blocks.map composeBlock)) := by
  rw [composeApplication, Ptree.putAll_empty]
  · exact addList_node composeBlock (by decide) (by decide) _ _ _
  · simp only [List.map_cons, List.map_nil]
    decide

theorem elements_composeApplication (app : ApplicationModel) :
    (composeApplication app).elements "blocks".toList =
      app.blocks.map composeBlock := by
  rw [composeApplication_eq]
  exact Ptree.elements_node (by decide) (by decide)
    (by simp only [List.map_cons, List.map_nil]; decide)
    (Ptree.elements_branch _ _)

theorem acceptedBlocks_of_validate (hvalid : validate model = .ok app) :
    ∀ block ∈ app.blocks, AcceptedBlock block := by
  simp only [validate, bind_eq_ok, require_eq_ok, pure_eq_ok] at hvalid
  obtain ⟨-, -, named, -, blocks, hblocks, rfl⟩ := hvalid
  intro block hmem
  obtain ⟨original, -, hblock⟩ := exists_of_mem_mapM hblocks hmem
  exact acceptedBlock_of_validate hblock

/-- The blocks of an accepted application survive exactly when no block has
features without a distance. -/
theorem blocksSurvive_iff (sorter : NameSort)
    (computeRange : Ptree → Text → Checked (List Text))
    (hvalid : validate model = .ok app)
    (hplain : ∀ block ∈ app.blocks, block.PlainParameters)
    (hfits : ∀ block ∈ app.blocks, block.FitsSize) :
    BlocksSurvive sorter computeRange app ↔
      ∀ block ∈ app.blocks, block.features.fields ≠ [] →
        block.features.distanceType ≠ .none := by
  have haccepted := acceptedBlocks_of_validate hvalid
  have hparse : (∃ blocks, (app.blocks.map composeBlock).mapM
      (parseBlock sorter computeRange) = .ok blocks) ↔
        ∀ block ∈ app.blocks, block.features.fields ≠ [] →
          block.features.distanceType ≠ .none := by
    rw [exists_mapM, List.forall_mem_map]
    exact forall₂_congr fun block hmem => exists_parseBlock_iff sorter
      computeRange (haccepted block hmem) (hplain block hmem)
      (hfits block hmem)
  rw [← hparse, BlocksSurvive, parseApplication, parseList,
    elements_composeApplication]
  constructor
  · rintro ⟨parsed, hparsed, -⟩
    obtain ⟨blocks, hblocks, -⟩ := bind_eq_ok.mp hparsed
    exact ⟨blocks, hblocks⟩
  · rintro ⟨blocks, hblocks⟩
    refine ⟨_, bind_eq_ok.mpr ⟨blocks, hblocks, rfl⟩, sorter.sorted _ _,
      blocks, sorter.perm _ _, ?_⟩
    have hall := List.forall₂_map_left_iff.mp (mapM_eq_ok.mp hblocks)
    have hmem : ∀ block ∈ app.blocks, block ∈ app.blocks := fun _ => id
    have hboth := (List.forall₂_and_left _ _).mpr ⟨hmem, hall⟩
    have hsame : List.Forall₂ (fun block parsed => SameBlock parsed block)
        app.blocks blocks := by
      apply hboth.imp
      rintro block parsed ⟨hblock, hparsed⟩
      exact sameBlock_of_parseBlock (haccepted block hblock)
        (hplain block hblock) (hfits block hblock) hparsed
    exact hsame.flip

end Application

namespace Sample

/-- `std::sort`, with the order of equal names kept. -/
def stableSort : NameSort where
  sort := fun name elements =>
    elements.mergeSort fun a b => decide (name a ≤ name b)
  perm := fun _ _ => List.mergeSort_perm _ _
  sorted := by
    intro α name elements
    have hsorted : (elements.mergeSort fun a b => decide (name a ≤ name b)).Pairwise
        fun a b => decide (name a ≤ name b) = true := by
      apply List.pairwise_mergeSort
      · intro a b c hab hbc
        simp only [decide_eq_true_eq] at hab hbc ⊢
        exact hab.trans hbc
      · intro a b
        simpa using le_total (name a) (name b)
    exact List.pairwise_map.mpr (hsorted.imp of_decide_eq_true)

/-- The block with a feature and the given distance. -/
def featured (distance : FeaturesDistanceType) : BlockModel :=
  { block with
    features := ⟨distance, [],
      [⟨"size".toList, "int".toList, .dontCare⟩]⟩ }

def validFeatured (distance : FeaturesDistanceType) : BlockModel :=
  { validBlock with
    features := ⟨distance, "int32_t".toList,
      [⟨"size".toList, "int32_t".toList, .dontCare⟩]⟩ }

theorem validate_featured (distance : FeaturesDistanceType) :
    validate (application "1.0".toList (featured distance)) =
      .ok (application "1.0".toList (validFeatured distance)) := by
  cases distance <;> rfl

theorem blocksSurvive_iff_euclidean :
    BlocksSurvive stableSort (fun _ _ => .ok [])
        (application "1.0".toList (validFeatured .euclidean)) ↔
      ∀ block ∈ [validFeatured .euclidean], block.features.fields ≠ [] →
        block.features.distanceType ≠ .none :=
  blocksSurvive_iff _ _ (validate_featured .euclidean) (by decide +kernel)
    (by decide +kernel)

/-- Features without a distance are accepted, and written with a distance that
is not parsed. -/
theorem not_blocksSurvive_featured :
    ¬ ∀ sorter computeRange model app, validate model = .ok app →
      (∀ block ∈ app.blocks, block.PlainParameters) →
      (∀ block ∈ app.blocks, block.FitsSize) →
      BlocksSurvive sorter computeRange app := by
  intro hall
  have hvalid := validate_featured .none
  obtain ⟨parsed, hparsed, -⟩ := hall stableSort (fun _ _ => .ok []) _ _ hvalid
    (by decide +kernel) (by decide +kernel)
  rw [parseApplication, parseList, elements_composeApplication] at hparsed
  obtain ⟨blocks, hblocks, -⟩ := bind_eq_ok.mp hparsed
  have hblock := exists_mapM.mp ⟨blocks, hblocks⟩
    (composeBlock (validFeatured .none)) (by simp [application])
  have hdistance := (exists_parseBlock_iff _ _
    (acceptedBlocks_of_validate hvalid _ List.mem_cons_self)
    (by decide +kernel) (by decide +kernel)).mp hblock
  exact hdistance (by decide) rfl

end Sample

end Margot.Heel
