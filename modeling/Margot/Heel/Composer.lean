/-
The composition of an application model into a property tree, and the text of
it that the generated code hands to Agora.
-/
import Margot.Library.CppLiteral
import Margot.Library.Json
import Margot.Heel.Model

namespace Margot.Heel

section Utilities

/-- A list of values without a key, unless there are none. -/
def addList {α : Type} (compose : α → Ptree) (parent : Ptree)
    (elements : List α) (tag : Text) : Ptree :=
  if elements.isEmpty then parent
  else parent.addChild tag (Ptree.array (elements.map compose))

def composeText (text : Text) : Ptree := Ptree.empty.put [] text

end Utilities

section Names

def FeaturesDistanceType.toStr : FeaturesDistanceType → Text
  | .euclidean => "euclidean".toList
  | .normalized => "normalized".toList
  | .none => "none".toList

def DistanceComparisonType.toStr : DistanceComparisonType → Text
  | .lessOrEqual => "le".toList
  | .greaterOrEqual => "ge".toList
  | .dontCare => "-".toList

def GoalComparison.toStr : GoalComparison → Text
  | .lessOrEqual => "le".toList
  | .greaterOrEqual => "ge".toList
  | .less => "lt".toList
  | .greater => "gt".toList

def boolName (value : Bool) : Text :=
  if value then "true".toList else "false".toList

end Names

section Compose

def composeParameter (parameter : Parameter) : Ptree :=
  match parameter.type with
  | .immediate => Ptree.empty.put [] parameter.content
  | .variable => Ptree.empty.put parameter.content parameter.valueType

def composeProperty (property : PairProperty) : Ptree :=
  Ptree.empty.put property.key property.value

def composeMonitor (monitor : MonitorModel) : Ptree :=
  let node := Ptree.empty.putAll
    [("name".toList, monitor.name), ("type".toList, monitor.type)]
  let node := addList composeText node monitor.requestedStatistics "log".toList
  let node := addList composeParameter node monitor.initializationParameters
    "constructor".toList
  let node := addList composeParameter node monitor.startParameters
    "start".toList
  addList composeParameter node monitor.stopParameters "stop".toList

def composeKnob (knob : KnobModel) : Ptree :=
  let node := Ptree.empty.putAll
    [("name".toList, knob.name), ("type".toList, knob.type)]
  addList composeText node knob.values "values".toList

def composeMetric (metric : MetricModel) : Ptree :=
  let node := Ptree.empty.putAll
    [("name".toList, metric.name), ("type".toList, metric.type),
      ("distribution".toList, boolName metric.distribution),
      ("prediction_plugin".toList, metric.predictionPlugin),
      ("observed_by".toList, metric.monitorName),
      ("reactive_inertia".toList, numeral metric.inertia)]
  addList composeProperty node metric.predictionParameters
    "prediction_parameters".toList

def composeFeature (field : FeatureModel) : Ptree :=
  Ptree.empty.putAll
    [("name".toList, field.name), ("type".toList, field.type),
      ("comparison".toList, field.comparison.toStr)]

def composeAgora (agora : AgoraModel) : Ptree :=
  let node := Ptree.empty.putAll
    [("broker_url".toList, agora.url),
      ("broker_username".toList, agora.username),
      ("broker_password".toList, agora.password),
      ("broker_qos".toList, agora.qos), ("broker_ca".toList, agora.brokerCa),
      ("client_cert".toList, agora.clientCert),
      ("client_key".toList, agora.clientKey),
      ("number_configurations_per_iteration".toList,
        agora.numberConfigurationsPerIteration),
      ("number_observations_per_configuration".toList,
        agora.numberObservationsPerConfiguration),
      ("max_number_iteration".toList, agora.maxNumberIteration),
      ("doe_plugin".toList, agora.doePlugin),
      ("clustering_plugin".toList, agora.clusteringPlugin)]
  let node := addList composeProperty node agora.doeParameters
    "doe_parameters".toList
  addList composeProperty node agora.clusteringParameters
    "clustering_parameters".toList

def composeRank (rank : RankFieldModel) : Ptree :=
  Ptree.empty.put rank.name rank.coefficient

def composeConstraint (constraint : ConstraintModel) : Ptree :=
  Ptree.empty.putAll
    [("name".toList, constraint.name),
      ("comparison".toList, constraint.cfun.toStr),
      ("value".toList, constraint.value),
      ("confidence".toList, constraint.confidence)]

/-- Both directions have the tag of the first one. -/
def rankDirectionTag : RankDirection → Text
  | .minimize => "minimize".toList
  | .maximize => "minimize".toList
  | .none => []

def rankCombinationTag : RankType → Text
  | .simple => "linear_mean".toList
  | .linear => "linear_mean".toList
  | .geometric => "geometric_mean".toList
  | .none => []

def composeState (state : StateModel) : Ptree :=
  let node := Ptree.empty.putAll [("name".toList, state.name)]
  let combination := addList composeRank Ptree.empty state.rankFields
    (rankCombinationTag state.combination)
  let node := node.addChild (rankDirectionTag state.direction) combination
  addList composeConstraint node state.constraints "subject_to".toList

def composeBlock (block : BlockModel) : Ptree :=
  let node := Ptree.empty.putAll ([("name".toList, block.name)] ++
    if block.features.fields.isEmpty then []
    else [("feature_distance".toList, block.features.distanceType.toStr)])
  let node := addList composeMonitor node block.monitors "monitors".toList
  let node := addList composeKnob node block.knobs "knobs".toList
  let node := addList composeMetric node block.metrics "metrics".toList
  let node :=
    if block.agora.empty then node
    else node.addChild "agora".toList (composeAgora block.agora)
  let node := addList composeFeature node block.features.fields
    "features".toList
  addList composeState node block.states "extra-functional_requirements".toList

def composeApplication (app : ApplicationModel) : Ptree :=
  let node := Ptree.empty.putAll
    [("name".toList, app.name), ("version".toList, app.version)]
  addList composeBlock node app.blocks "blocks".toList

end Compose

section Description

/-- A character of the description in the generated source. -/
def escapeDescription (c : Char) : Text :=
  if c = '"' then ['\\', '"'] else if isSpace c then [' '] else [c]

/-- The literal that the generated code hands to the support thread, without its
quotes. -/
def descriptionLiteral (appDescription : Text) : Text :=
  collapseSpaces (appDescription.flatMap escapeDescription)

/-- The description of the application that is sent at run time: the value of
the literal, `none` if the generated source is not one literal there. -/
def applicationDescription (app : ApplicationModel) : Checked (Option Text) := do
  let appDescription ← Json.writeJson true (composeApplication app)
  return CppLiteral.decode (descriptionLiteral appDescription)

end Description

end Margot.Heel
