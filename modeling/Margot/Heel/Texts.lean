/-
The texts of a model that its composition carries: the composed tree has no
others but names of sections and numerals.
-/
import Margot.Heel.ParsedBlock
import Margot.Library.JsonParts

namespace Margot.Heel

section Texts

def Parameter.texts (parameter : Parameter) : List Text :=
  match parameter.type with
  | .immediate => [parameter.content]
  | .variable => [parameter.content, parameter.valueType]

def PairProperty.texts (property : PairProperty) : List Text :=
  [property.key, property.value]

def MonitorModel.texts (monitor : MonitorModel) : List Text :=
  monitor.name :: monitor.type :: (monitor.requestedStatistics ++
    (monitor.initializationParameters.flatMap Parameter.texts ++
      (monitor.startParameters.flatMap Parameter.texts ++
        monitor.stopParameters.flatMap Parameter.texts)))

def KnobModel.texts (knob : KnobModel) : List Text :=
  knob.name :: knob.type :: knob.values

def MetricModel.texts (metric : MetricModel) : List Text :=
  metric.name :: metric.type :: metric.predictionPlugin ::
    metric.monitorName :: metric.predictionParameters.flatMap PairProperty.texts

def FeatureModel.texts (field : FeatureModel) : List Text :=
  [field.name, field.type]

/-- Nothing is composed of an Agora that is not used. -/
def AgoraModel.texts (agora : AgoraModel) : List Text :=
  if agora.empty then []
  else [agora.url, agora.username, agora.password, agora.qos, agora.brokerCa,
      agora.clientCert, agora.clientKey, agora.numberConfigurationsPerIteration,
      agora.numberObservationsPerConfiguration, agora.maxNumberIteration,
      agora.doePlugin, agora.clusteringPlugin] ++
    (agora.doeParameters.flatMap PairProperty.texts ++
      agora.clusteringParameters.flatMap PairProperty.texts)

def RankFieldModel.texts (field : RankFieldModel) : List Text :=
  [field.name, field.coefficient]

def ConstraintModel.texts (constraint : ConstraintModel) : List Text :=
  [constraint.name, constraint.value, constraint.confidence]

def StateModel.texts (state : StateModel) : List Text :=
  state.name :: (state.rankFields.flatMap RankFieldModel.texts ++
    state.constraints.flatMap ConstraintModel.texts)

def BlockModel.texts (block : BlockModel) : List Text :=
  block.name :: (block.monitors.flatMap MonitorModel.texts ++
    (block.knobs.flatMap KnobModel.texts ++
      (block.metrics.flatMap MetricModel.texts ++
        (block.agora.texts ++
          (block.features.fields.flatMap FeatureModel.texts ++
            block.states.flatMap StateModel.texts)))))

/-- The texts of the user in the description of an application. -/
def ApplicationModel.texts (app : ApplicationModel) : List Text :=
  app.name :: app.version :: app.blocks.flatMap BlockModel.texts

end Texts

section Rules

theorem composeMonitor_eq (monitor : MonitorModel) :
    composeMonitor monitor = .node [] (Ptree.leaves
      [("name".toList, monitor.name), ("type".toList, monitor.type)] ++
        (Ptree.branch "log".toList
          (monitor.requestedStatistics.map composeText) ++
        (Ptree.branch "constructor".toList
          (monitor.initializationParameters.map composeParameter) ++
        (Ptree.branch "start".toList
          (monitor.startParameters.map composeParameter) ++
        Ptree.branch "stop".toList
          (monitor.stopParameters.map composeParameter))))) := by
  rw [composeMonitor, Ptree.putAll_empty]
  · simp (disch := decide) only [addList_node, List.append_assoc]
    rfl
  · simp only [List.map_cons, List.map_nil]
    decide


/-- The characters of the names of the sections, and of the numerals. -/
def isTagChar (c : Char) : Bool :=
  c.isAlphanum || c == '_' || c == '-' || c == '.'

theorem isTagChar_numeral (n : Nat) : ∀ c ∈ numeral n, isTagChar c = true := by
  intro c hc
  simp [isTagChar, Char.isAlphanum, isDigit_of_mem_numeral hc]

/-- A predicate of texts that holds of what the composition adds, and of a path
when it does of the fragments. -/
structure Lenient (good : Text → Prop) : Prop where
  tag : ∀ text, (∀ c ∈ text, isTagChar c = true) → good text
  path : ∀ text, (∀ fragment ∈ Ptree.fragments text, good fragment) ↔ good text

/-- A predicate of characters that holds of those of the tags. -/
theorem lenient_of_chars {p : Char → Prop}
    (htags : ∀ c, isTagChar c = true → p c) :
    Lenient fun text => ∀ c ∈ text, p c := by
  constructor
  · exact fun text htag c hc => htags c (htag c hc)
  · intro path
    constructor
    · intro hfragments c hc
      by_cases hdot : c = '.'
      · subst hdot
        exact htags _ (by decide)
      · obtain ⟨fragment, hfragment, hmem⟩ := Ptree.exists_mem_fragments hc hdot
        exact hfragments fragment hfragment c hmem
    · intro hpath fragment hfragment c hc
      exact hpath c (Ptree.mem_of_mem_fragments hfragment hc)

/-- The tree can be written, and carries exactly these texts. -/
structure Composed (good : Text → Prop) (tree : Ptree) (texts : List Text) :
    Prop where
  plain : Json.plainNodes tree = true
  holds : Json.Holds good tree ↔ ∀ text ∈ texts, good text

structure ComposedOf (good : Text → Prop) (children : List (Text × Ptree))
    (texts : List Text) : Prop where
  plain : Json.plainChildren children = true
  holds : Json.HoldsOf good children ↔ ∀ text ∈ texts, good text

variable {good : Text → Prop} (lenient : Lenient good)

include lenient

theorem Lenient.empty : good [] :=
  lenient.tag [] fun _ hc => absurd hc List.not_mem_nil

theorem ComposedOf.node {children : List (Text × Ptree)} {texts : List Text}
    (hchildren : ComposedOf good children texts) :
    Composed good (.node [] children) texts where
  plain := Json.plainNodes_of_children rfl
    (Json.plainChildren_iff.mp hchildren.plain)
  holds := (Json.holds_node lenient.empty).trans hchildren.holds

omit lenient in
theorem composed_leaf (data : Text) :
    Composed good (Ptree.leaf data) [data] where
  plain := Json.plainNodes_leaf data
  holds := by rw [Json.holds_leaf, List.forall_mem_singleton]

omit lenient in
theorem ComposedOf.append {children others : List (Text × Ptree)}
    {texts more : List Text} (hchildren : ComposedOf good children texts)
    (hothers : ComposedOf good others more) :
    ComposedOf good (children ++ others) (texts ++ more) where
  plain := by
    rw [Json.plainChildren_iff, List.forall_mem_append,
      ← Json.plainChildren_iff, ← Json.plainChildren_iff]
    exact ⟨hchildren.plain, hothers.plain⟩
  holds := by
    rw [Json.holdsOf_append, hchildren.holds, hothers.holds,
      List.forall_mem_append]

/-- One child under a name of a section. -/
theorem Composed.child {tag : Text} (htag : ∀ c ∈ tag, isTagChar c = true)
    {tree : Ptree} {texts : List Text} (htree : Composed good tree texts) :
    ComposedOf good [(tag, tree)] texts where
  plain := by
    rw [Json.plainChildren_iff, List.forall_mem_singleton]
    exact htree.plain
  holds := by
    rw [Json.HoldsOf, List.forall_mem_singleton, htree.holds]
    exact and_iff_right (lenient.tag tag htag)

/-- Values under names of sections; some of them may be good anyway. -/
theorem composedOf_leaves {entries : List (Text × Text)} {texts : List Text}
    (hkeys : ∀ key ∈ entries.map Prod.fst, ∀ c ∈ key, isTagChar c = true)
    (htexts : (∀ text ∈ entries.map Prod.snd, good text) ↔
      ∀ text ∈ texts, good text) :
    ComposedOf good (Ptree.leaves entries) texts where
  plain := by
    rw [Json.plainChildren_iff, Ptree.leaves, List.forall_mem_map]
    exact fun entry _ => Json.plainNodes_leaf entry.2
  holds := by
    rw [Json.holdsOf_leaves, ← htexts, List.forall_mem_map]
    apply forall₂_congr
    intro entry hmem
    exact and_iff_right
      (lenient.tag entry.1 (hkeys entry.1 (List.mem_map_of_mem hmem)))

theorem composedOf_branch {α : Type} {compose : α → Ptree}
    {texts : α → List Text} {tag : Text} {elements : List α}
    (htag : elements ≠ [] → ∀ c ∈ tag, isTagChar c = true)
    (helements : ∀ a ∈ elements, Composed good (compose a) (texts a)) :
    ComposedOf good (Ptree.branch tag (elements.map compose))
      (elements.flatMap texts) := by
  by_cases hnone : elements = []
  · subst hnone
    refine ⟨rfl, iff_of_true ?_ ?_⟩
    · exact fun _ hmem => absurd hmem List.not_mem_nil
    · exact fun _ hmem => absurd hmem List.not_mem_nil
  · constructor
    · rw [Json.plainChildren_iff, Ptree.branch]
      intro child hmem
      split at hmem
      · contradiction
      · obtain rfl := List.mem_singleton.mp hmem
        apply Json.plainNodes_of_children rfl
        intro child hmem
        obtain ⟨tree, htree, rfl⟩ := List.mem_map.mp hmem
        obtain ⟨a, ha, rfl⟩ := List.mem_map.mp htree
        exact (helements a ha).plain
    · rw [Json.holdsOf_branch lenient.empty (lenient.tag tag (htag hnone)),
        List.forall_mem_map, List.forall_mem_flatMap]
      apply forall₂_congr
      intro a ha
      exact (helements a ha).holds

/-- A value at a path. -/
theorem composed_put (path value : Text) :
    Composed good (Ptree.empty.put path value) [path, value] := by
  have hput : ∀ keys : List Text,
      Json.plainNodes (Ptree.putAt value keys Ptree.empty) = true ∧
        (Json.Holds good (Ptree.putAt value keys Ptree.empty) ↔
          (∀ key ∈ keys, good key) ∧ good value) := by
    intro keys
    induction keys with
    | nil =>
        refine ⟨Json.plainNodes_leaf value, ?_⟩
        rw [and_iff_right fun _ hmem => absurd hmem List.not_mem_nil]
        exact Json.holds_leaf
    | cons key rest ih =>
        have hnode : Ptree.putAt value (key :: rest) Ptree.empty =
            .node [] [(key, Ptree.putAt value rest Ptree.empty)] := rfl
        rw [hnode, Json.holds_node lenient.empty, Json.HoldsOf,
          List.forall_mem_singleton, ih.2, List.forall_mem_cons, and_assoc]
        refine ⟨Json.plainNodes_of_children rfl ?_, Iff.rfl⟩
        intro child hmem
        obtain rfl := List.mem_singleton.mp hmem
        exact ih.1
  obtain ⟨hplain, hholds⟩ := hput (Ptree.fragments path)
  refine ⟨hplain, hholds.trans ?_⟩
  rw [lenient.path, List.forall_mem_cons, List.forall_mem_singleton]

end Rules

section Compositions

variable {good : Text → Prop} (lenient : Lenient good)

include lenient

theorem composed_parameter (parameter : Parameter) :
    Composed good (composeParameter parameter) parameter.texts := by
  rw [composeParameter, Parameter.texts]
  cases parameter.type
  · exact composed_leaf parameter.content
  · exact composed_put lenient parameter.content parameter.valueType

theorem composed_property (property : PairProperty) :
    Composed good (composeProperty property) property.texts :=
  composed_put lenient property.key property.value

/-- A list of texts. -/
theorem composedOf_texts {tag : Text} (htag : ∀ c ∈ tag, isTagChar c = true)
    (texts : List Text) :
    ComposedOf good (Ptree.branch tag (texts.map composeText)) texts := by
  have hbranch : ComposedOf good (Ptree.branch tag (texts.map composeText))
      (texts.flatMap fun text => [text]) :=
    composedOf_branch lenient (fun _ => htag) fun text _ => composed_leaf text
  rwa [List.flatMap_singleton'] at hbranch

theorem composed_monitor (monitor : MonitorModel) :
    Composed good (composeMonitor monitor) monitor.texts := by
  rw [composeMonitor_eq]
  have hleaves : ComposedOf good (Ptree.leaves
      [("name".toList, monitor.name), ("type".toList, monitor.type)])
      [monitor.name, monitor.type] :=
    composedOf_leaves lenient (by
      simp only [List.map_cons, List.map_nil]
      decide) Iff.rfl
  have hparameters : ∀ parameters : List Parameter, ∀ parameter ∈ parameters,
      Composed good (composeParameter parameter) parameter.texts :=
    fun _ parameter _ => composed_parameter lenient parameter
  apply ComposedOf.node lenient
  exact hleaves.append ((composedOf_texts lenient (by decide) _).append
    ((composedOf_branch lenient (fun _ => by decide) (hparameters _)).append
      ((composedOf_branch lenient (fun _ => by decide) (hparameters _)).append
        (composedOf_branch lenient (fun _ => by decide) (hparameters _)))))

theorem composed_knob (knob : KnobModel) :
    Composed good (composeKnob knob) knob.texts := by
  rw [composeKnob_eq]
  have hleaves : ComposedOf good (Ptree.leaves
      [("name".toList, knob.name), ("type".toList, knob.type)])
      [knob.name, knob.type] :=
    composedOf_leaves lenient (by
      simp only [List.map_cons, List.map_nil]
      decide) Iff.rfl
  apply ComposedOf.node lenient
  exact hleaves.append (composedOf_texts lenient (by decide) _)

theorem composed_metric (metric : MetricModel) :
    Composed good (composeMetric metric) metric.texts := by
  rw [composeMetric_eq]
  have hdistribution : good (boolName metric.distribution) := by
    apply lenient.tag
    cases metric.distribution <;> decide
  have hinertia : good (numeral metric.inertia) :=
    lenient.tag _ (isTagChar_numeral metric.inertia)
  have hleaves : ComposedOf good (Ptree.leaves
      [("name".toList, metric.name), ("type".toList, metric.type),
        ("distribution".toList, boolName metric.distribution),
        ("prediction_plugin".toList, metric.predictionPlugin),
        ("observed_by".toList, metric.monitorName),
        ("reactive_inertia".toList, numeral metric.inertia)])
      [metric.name, metric.type, metric.predictionPlugin,
        metric.monitorName] := by
    apply composedOf_leaves lenient
    · simp only [List.map_cons, List.map_nil]
      decide
    · simp [hdistribution, hinertia]
  apply ComposedOf.node lenient
  exact hleaves.append (composedOf_branch lenient (fun _ => by decide)
    fun property _ => composed_property lenient property)

theorem composed_feature (field : FeatureModel) :
    Composed good (composeFeature field) field.texts := by
  have hcompose : composeFeature field = .node [] (Ptree.leaves
      [("name".toList, field.name), ("type".toList, field.type),
        ("comparison".toList, field.comparison.toStr)]) := by
    rw [composeFeature, Ptree.putAll_empty]
    · rfl
    · simp only [List.map_cons, List.map_nil]
      decide
  have hcomparison : good field.comparison.toStr := by
    apply lenient.tag
    cases field.comparison <;> decide
  rw [hcompose]
  apply ComposedOf.node lenient
  apply composedOf_leaves lenient
  · simp only [List.map_cons, List.map_nil]
    decide
  · simp [FeatureModel.texts, hcomparison]

/-- The section of an Agora that is used. -/
theorem composed_agora {agora : AgoraModel} (hused : agora.empty = false) :
    Composed good (composeAgora agora) agora.texts := by
  rw [composeAgora_eq, AgoraModel.texts, hused]
  apply ComposedOf.node lenient
  have hproperties : ∀ properties : List PairProperty,
      ∀ property ∈ properties, Composed good (composeProperty property)
        property.texts :=
    fun _ property _ => composed_property lenient property
  have hleaves : ComposedOf good (Ptree.leaves
      [("broker_url".toList, agora.url),
        ("broker_username".toList, agora.username),
        ("broker_password".toList, agora.password),
        ("broker_qos".toList, agora.qos), ("broker_ca".toList, agora.brokerCa),
        ("client_cert".toList, agora.clientCert),
        ("client_key".toList, agora.clientKey),
        ("number_configurations_per_iteration".toList,
          agora.numberConfigurationsPerIteration),
        ("number_observations_per_configuration".toList,
          agora.numberObservationsPerConfiguration),
        ("max_number_iteration".toList, agora.maxNumberIteration),
        ("doe_plugin".toList, agora.doePlugin),
        ("clustering_plugin".toList, agora.clusteringPlugin)])
      [agora.url, agora.username, agora.password, agora.qos, agora.brokerCa,
        agora.clientCert, agora.clientKey,
        agora.numberConfigurationsPerIteration,
        agora.numberObservationsPerConfiguration, agora.maxNumberIteration,
        agora.doePlugin, agora.clusteringPlugin] :=
    composedOf_leaves lenient (by
      simp only [List.map_cons, List.map_nil]
      decide) Iff.rfl
  exact hleaves.append
    ((composedOf_branch lenient (fun _ => by decide) (hproperties _)).append
      (composedOf_branch lenient (fun _ => by decide) (hproperties _)))

theorem composed_rank (field : RankFieldModel) :
    Composed good (composeRank field) field.texts :=
  composed_put lenient field.name field.coefficient

theorem composed_constraint (constraint : ConstraintModel) :
    Composed good (composeConstraint constraint) constraint.texts := by
  have hcompose : composeConstraint constraint = .node [] (Ptree.leaves
      [("name".toList, constraint.name),
        ("comparison".toList, constraint.cfun.toStr),
        ("value".toList, constraint.value),
        ("confidence".toList, constraint.confidence)]) := by
    rw [composeConstraint, Ptree.putAll_empty]
    · rfl
    · simp only [List.map_cons, List.map_nil]
      decide
  have hcomparison : good constraint.cfun.toStr := by
    apply lenient.tag
    cases constraint.cfun <;> decide
  rw [hcompose]
  apply ComposedOf.node lenient
  apply composedOf_leaves lenient
  · simp only [List.map_cons, List.map_nil]
    decide
  · simp [ConstraintModel.texts, hcomparison]

theorem composed_state {state : StateModel} (haccepted : AcceptedState state) :
    Composed good (composeState state) state.texts := by
  have hdirection : ∀ c ∈ rankDirectionTag state.direction,
      isTagChar c = true := by
    cases state.direction <;> decide
  have hcombination : ∀ c ∈ rankCombinationTag state.combination,
      isTagChar c = true := by
    cases state.combination <;> decide
  have hname : ComposedOf good [("name".toList, Ptree.leaf state.name)]
      [state.name] :=
    (composed_leaf state.name).child lenient (by decide)
  have hrank : Composed good (.node []
      (Ptree.branch (rankCombinationTag state.combination)
        (state.rankFields.map composeRank)))
      (state.rankFields.flatMap RankFieldModel.texts) :=
    ComposedOf.node lenient (composedOf_branch lenient (fun _ => hcombination)
      fun field _ => composed_rank lenient field)
  rw [composeState_eq haccepted]
  apply ComposedOf.node lenient
  exact hname.append ((hrank.child lenient hdirection).append
    (composedOf_branch lenient (fun _ => by decide) fun constraint _ =>
      composed_constraint lenient constraint))

/-- A section that may be missing. -/
theorem composedOf_present {tag : Text} (htag : ∀ c ∈ tag, isTagChar c = true)
    {child : Option Ptree} {texts : List Text}
    (hchild : ∀ tree ∈ child, Composed good tree texts)
    (hnone : child = none → texts = []) :
    ComposedOf good (Ptree.present [(tag, child)]) texts := by
  cases child with
  | none =>
      rw [hnone rfl]
      refine ⟨rfl, iff_of_true ?_ ?_⟩
      · exact fun _ hmem => absurd hmem List.not_mem_nil
      · exact fun _ hmem => absurd hmem List.not_mem_nil
  | some tree => exact (hchild tree rfl).child lenient htag

theorem composed_block {block : BlockModel} (haccepted : AcceptedBlock block) :
    Composed good (composeBlock block) block.texts := by
  have hvalues : ComposedOf good (Ptree.leaves (blockValues block))
      [block.name] := by
    have hdistance : good block.features.distanceType.toStr := by
      apply lenient.tag
      cases block.features.distanceType <;> decide
    apply composedOf_leaves lenient
    · intro key hkey
      have hkeys : ∀ key ∈ ["name".toList, "feature_distance".toList],
          ∀ c ∈ key, isTagChar c = true := by
        decide
      exact hkeys key (keys_blockValues_subset block hkey)
    · rw [blockValues]
      split
      · simp
      · simp [hdistance]
  have hagora : ComposedOf good (Ptree.present [("agora".toList,
      if block.agora.empty then none else some (composeAgora block.agora))])
        block.agora.texts := by
    apply composedOf_present lenient (by decide)
    · intro tree htree
      split at htree
      · contradiction
      · next hused =>
          obtain rfl := Option.some.inj htree
          exact composed_agora lenient (Bool.eq_false_iff.mpr hused)
    · intro hnone
      split at hnone
      · next hunused => exact if_pos hunused
      · contradiction
  rw [composeBlock_eq, blockSections, Ptree.present_cons_list,
    Ptree.present_cons_list, Ptree.present_cons_list, Ptree.present_cons,
    Ptree.present_cons_list, Ptree.present_cons_list, Ptree.present_nil,
    List.append_nil]
  apply ComposedOf.node lenient
  exact hvalues.append
    ((composedOf_branch lenient (fun _ => by decide) fun monitor _ =>
      composed_monitor lenient monitor).append
    ((composedOf_branch lenient (fun _ => by decide) fun knob _ =>
      composed_knob lenient knob).append
    ((composedOf_branch lenient (fun _ => by decide) fun metric _ =>
      composed_metric lenient metric).append
    (hagora.append
    ((composedOf_branch lenient (fun _ => by decide) fun field _ =>
      composed_feature lenient field).append
    (composedOf_branch lenient (fun _ => by decide) fun state hmem =>
      composed_state lenient (haccepted.states state hmem)))))))

/-- What the description of an accepted application carries. -/
theorem composed_application {app : ApplicationModel}
    (haccepted : ∀ block ∈ app.blocks, AcceptedBlock block) :
    Composed good (composeApplication app) app.texts := by
  have hleaves : ComposedOf good (Ptree.leaves
      [("name".toList, app.name), ("version".toList, app.version)])
      [app.name, app.version] :=
    composedOf_leaves lenient (by
      simp only [List.map_cons, List.map_nil]
      decide) Iff.rfl
  rw [composeApplication_eq]
  apply ComposedOf.node lenient
  exact hleaves.append (composedOf_branch lenient (fun _ => by decide)
    fun block hmem => composed_block lenient (haccepted block hmem))

end Compositions

end Margot.Heel
