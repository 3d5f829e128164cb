/-
The parsers of the application model: what is read from a property tree, and
what throws.  The warnings and the errors that are only logged are left out.
-/
import Mathlib.Data.List.Sort
import Margot.Library.Checked
import Margot.Library.PropertyTree
import Margot.Heel.Composer

namespace Margot.Heel

/-- `std::sort` by the names of the elements; the order of equal names is left
open. -/
structure NameSort where
  sort : {α : Type} → (α → Text) → List α → List α
  perm : ∀ {α : Type} (name : α → Text) (elements : List α),
    (sort name elements).Perm elements
  sorted : ∀ {α : Type} (name : α → Text) (elements : List α),
    ((sort name elements).map name).Pairwise (· ≤ ·)

section Utilities

def toLower (text : Text) : Text := text.map Char.toLower

def parseText (node : Ptree) : Text := node.data

/-- `parse_list` -/
def parseList {α : Type} (parse : Ptree → Checked α) (node : Ptree)
    (tag : Text) : Checked (List α) :=
  (node.elements tag).mapM parse

def trueValues : List String := ["1", "true", "yes", "enabled", "on", "high"]

def falseValues : List String := ["0", "false", "no", "disabled", "off", "low"]

def isBool (text : Text) (value : Bool) : Bool :=
  (if value then trueValues else falseValues).any fun known =>
    known.toList = toLower text

/-- The digits of a `boost::lexical_cast<std::size_t>`. -/
def castDigits (digits : Text) : Option Nat :=
  if digits ≠ [] ∧ digits.all Char.isDigit ∧
      Nat.ofDigitChars 10 digits 0 < 2 ^ 64 then
    some (Nat.ofDigitChars 10 digits 0)
  else none

/-- A minus wraps around. -/
def castSigned : Text → Option Nat
  | '-' :: digits => (castDigits digits).map fun n => (2 ^ 64 - n) % 2 ^ 64
  | '+' :: digits => castDigits digits
  | digits => castDigits digits

/-- `boost::lexical_cast<std::size_t>` -/
def lexicalCast (text : Text) : Checked Nat :=
  match castSigned text with
  | some value => .ok value
  | none => .error ("bad lexical cast: source type value could not be " ++
      "interpreted as target").toList

end Utilities

section Parse

def parseParameter (node : Ptree) : Parameter :=
  if parseText node = [] then
    node.children.foldl (fun parameter pair =>
      { parameter with content := pair.1, valueType := parseText pair.2 })
      ⟨.variable, [], []⟩
  else ⟨.immediate, parseText node, []⟩

/-- The last child, if there are several. -/
def parseProperty (node : Ptree) : PairProperty :=
  node.children.foldl (fun _ pair => ⟨pair.1, parseText pair.2⟩) ⟨[], []⟩

def parseMonitor (node : Ptree) : MonitorModel where
  name := node.text "name".toList
  type := node.text "type".toList
  requestedStatistics := (node.elements "log".toList).map parseText
  initializationParameters :=
    (node.elements "constructor".toList).map parseParameter
  startParameters := (node.elements "start".toList).map parseParameter
  stopParameters := (node.elements "stop".toList).map parseParameter

/-- The values of a range are computed by the type of the knob, which is only
done when there is no list of values. -/
def parseKnob (computeRange : Ptree → Text → Checked (List Text))
    (node : Ptree) : Checked KnobModel := do
  let name := node.text "name".toList
  let type := node.text "type".toList
  let values := (node.elements "values".toList).map parseText
  match values, node.getChild? "range".toList with
  | [], some rangeNode => do
      let computed ← computeRange rangeNode type
      return ⟨name, type, computed⟩
  | _, _ => return ⟨name, type, values⟩

def parseDistribution (text : Text) : Checked Bool :=
  if text = [] then .ok false
  else if isBool text true then .ok true
  else if isBool text false then .ok false
  else .error "Unknown distribution value".toList

def parseInertia (text : Text) : Checked Nat :=
  if text = [] then .ok 0 else lexicalCast text

def parseMetric (node : Ptree) : Checked MetricModel := do
  let inertia ← parseInertia (node.text "reactive_inertia".toList)
  let distribution ← parseDistribution (node.text "distribution".toList)
  return {
    name := node.text "name".toList
    type := node.text "type".toList
    distribution := distribution
    predictionPlugin := node.text "prediction_plugin".toList
    monitorName := node.text "observed_by".toList
    inertia := inertia
    predictionParameters :=
      (node.elements "prediction_parameters".toList).map parseProperty }

def parseDistanceComparison (text : Text) : Checked DistanceComparisonType :=
  if toLower text = DistanceComparisonType.lessOrEqual.toStr then
    .ok .lessOrEqual
  else if toLower text = DistanceComparisonType.greaterOrEqual.toStr then
    .ok .greaterOrEqual
  else if toLower text = DistanceComparisonType.dontCare.toStr then
    .ok .dontCare
  else if text ≠ [] then
    .error "field parser: unknown feature comparison".toList
  else .ok .dontCare

def parseFeature (node : Ptree) : Checked FeatureModel := do
  let comparison ← parseDistanceComparison (node.text "comparison".toList)
  return ⟨node.text "name".toList, node.text "type".toList, comparison⟩

def parseAgora (node : Ptree) : AgoraModel where
  url := node.text "broker_url".toList
  username := node.text "broker_username".toList
  password := node.text "broker_password".toList
  qos := node.text "broker_qos".toList
  brokerCa := node.text "broker_ca".toList
  clientCert := node.text "client_cert".toList
  clientKey := node.text "client_key".toList
  numberConfigurationsPerIteration :=
    node.text "number_configurations_per_iteration".toList
  numberObservationsPerConfiguration :=
    node.text "number_observations_per_configuration".toList
  maxNumberIteration := node.text "max_number_iteration".toList
  doePlugin := node.text "doe_plugin".toList
  clusteringPlugin := node.text "clustering_plugin".toList
  doeParameters := (node.elements "doe_parameters".toList).map parseProperty
  clusteringParameters :=
    (node.elements "clustering_parameters".toList).map parseProperty

/-- The last child, if there are several. -/
def parseRank (node : Ptree) : RankFieldModel :=
  node.children.foldl (fun field pair =>
    { field with name := pair.1, coefficient := parseText pair.2 })
    ⟨[], .unknown, []⟩

def parseGoalComparison (text : Text) : Checked GoalComparison :=
  if toLower text = GoalComparison.lessOrEqual.toStr then .ok .lessOrEqual
  else if toLower text = GoalComparison.greaterOrEqual.toStr then
    .ok .greaterOrEqual
  else if toLower text = GoalComparison.less.toStr then .ok .less
  else if toLower text = GoalComparison.greater.toStr then .ok .greater
  else .error "constraint parser: unknown comparison function".toList

/-- The subject of the constraint has a tag of its own. -/
def parseConstraint (node : Ptree) : Checked ConstraintModel := do
  let cfun ← parseGoalComparison (node.text "comparison".toList)
  return ⟨node.text "subject".toList, cfun, node.text "value".toList, .unknown,
    node.text "confidence".toList⟩

def RankDirection.toStr : RankDirection → Text
  | .minimize => "minimize".toList
  | .maximize => "maximize".toList
  | .none => "none".toList

def RankType.toStr : RankType → Text
  | .simple => "simple_mean".toList
  | .geometric => "geometric_mean".toList
  | .linear => "linear_mean".toList
  | .none => "none".toList

/-- The directions and combinations that are tried, one after the other. -/
def guessedRanks : List (RankDirection × RankType) :=
  [(.minimize, .geometric), (.minimize, .linear), (.maximize, .geometric),
    (.maximize, .linear)]

def rankElements (node : Ptree) (guess : RankDirection × RankType) :
    List Ptree :=
  node.elements (guess.1.toStr ++ '.' :: guess.2.toStr)

def parseState (node : Ptree) : Checked StateModel := do
  let constraints ← parseList parseConstraint node "subject_to".toList
  let name := node.text "name".toList
  match guessedRanks.find? fun guess => !(rankElements node guess).isEmpty with
  | some guess => return ⟨name, guess.1, guess.2,
      (rankElements node guess).map parseRank, constraints⟩
  | none => return ⟨name, .none, .none, [], constraints⟩

def parseDistance (text : Text) : Checked FeaturesDistanceType :=
  if toLower text = FeaturesDistanceType.euclidean.toStr then .ok .euclidean
  else if toLower text = FeaturesDistanceType.normalized.toStr then
    .ok .normalized
  else if text ≠ [] then
    .error "block parser: unknown feature distance".toList
  else .ok .none

def parseBlock (sorter : NameSort)
    (computeRange : Ptree → Text → Checked (List Text)) (node : Ptree) :
    Checked BlockModel := do
  let knobs ← parseList (parseKnob computeRange) node "knobs".toList
  let metrics ← parseList parseMetric node "metrics".toList
  let distance ← parseDistance (node.text "feature_distance".toList)
  let fields ← parseList parseFeature node "features".toList
  let states ← parseList parseState node "extra-functional_requirements".toList
  return { BlockModel.initial with
    name := node.text "name".toList
    monitors := sorter.sort (·.name)
      ((node.elements "monitors".toList).map parseMonitor)
    knobs := sorter.sort (·.name) knobs
    metrics := sorter.sort (·.name) metrics
    features := ⟨distance, [], sorter.sort (·.name) fields⟩
    agora := ((node.getChild? "agora".toList).map parseAgora).getD .initial
    states := states }

def parseApplication (sorter : NameSort)
    (computeRange : Ptree → Text → Checked (List Text)) (node : Ptree) :
    Checked ApplicationModel := do
  let blocks ← parseList (parseBlock sorter computeRange) node "blocks".toList
  return ⟨node.text "name".toList, node.text "version".toList,
    sorter.sort (·.name) blocks⟩

end Parse

end Margot.Heel
