/-
The validation of an application model: the names and the values that are
filled in, and what throws.  The warnings and the errors that are only logged
are left out.
-/
import Margot.Heel.Model
import Margot.Heel.Typer

namespace Margot.Heel

/-- The models that have a name, of which a block or an application has lists. -/
class Named (α : Type) where
  name : α → Text
  rename : Text → α → α

instance : Named MonitorModel where
  name := (·.name)
  rename := fun name model => { model with name := name }

instance : Named KnobModel where
  name := (·.name)
  rename := fun name model => { model with name := name }

instance : Named MetricModel where
  name := (·.name)
  rename := fun name model => { model with name := name }

instance : Named FeatureModel where
  name := (·.name)
  rename := fun name model => { model with name := name }

instance : Named StateModel where
  name := (·.name)
  rename := fun name model => { model with name := name }

instance : Named BlockModel where
  name := (·.name)
  rename := fun name model => { model with name := name }

section Names

variable {α : Type} [Named α]

/-- A default name for an element without a name. -/
def setName (what : Text) (counter : Nat) (element : α) : α :=
  if Named.name element = [] then
    Named.rename (what ++ "_".toList ++ numeral (counter + 1)) element
  else element

def setNames (container : List α) (what : Text) : List α :=
  container.mapIdx (setName what)

/-- No element has the name of the one before it. -/
def noNeighbours : List α → Bool
  | a :: b :: rest => Named.name a ≠ Named.name b && noNeighbours (b :: rest)
  | _ => true

/-- Only neighbours are compared. -/
def checkUniqueness (container : List α) (what : Text) : Checked (List α) := do
  require (noNeighbours (setNames container what))
    ("validation error: ".toList ++ what ++ "s names must be unique".toList)
  return setNames container what

end Names

section Monitor

/-- The parameters of a monitor when the user gives none. -/
structure MonitorSpec where
  defaultParamInitialization : List Parameter
  defaultParamStart : List Parameter
  defaultParamStop : List Parameter

def immediate (content valueType : String) : Parameter :=
  ⟨.immediate, content.toList, valueType.toList⟩

def variableParameter (content valueType : String) : Parameter :=
  ⟨.variable, content.toList, valueType.toList⟩

/-- The size of the window of the observations. -/
def windowSize : Parameter := immediate "1" "size_t"

def knownMonitors : List (String × MonitorSpec) :=
  [("collector", ⟨[variableParameter "topic" "std::string",
      variableParameter "address" "std::string",
      variableParameter "port" "int", windowSize], [], []⟩),
    ("energy", ⟨[immediate "margot::EnergyMonitor::Domain::Cores"
        "margot::EnergyMonitor::Domain",
      immediate "\x7b\x7d" "std::vector<std::size_t>", windowSize], [], []⟩),
    ("frequency", ⟨[windowSize], [], []⟩),
    ("memory", ⟨[windowSize], [], []⟩),
    ("odroid_energy", ⟨[immediate "margot::TimeUnit::MICROSECONDS"
        "margot::TimeUnit",
      variableParameter "polling_time_ms" "uint64_t", windowSize], [], []⟩),
    ("odroid_power", ⟨[windowSize], [], []⟩),
    ("papi", ⟨[immediate "margot::PapiEvent::L1_MISS" "margot::PapiEvent",
      windowSize], [], []⟩),
    ("process_cpu", ⟨[immediate "margot::CounterType::SoftwareCounter"
      "margot::CounterType", windowSize], [], []⟩),
    ("system_cpu", ⟨[windowSize], [], []⟩),
    ("temperature", ⟨[windowSize], [], []⟩),
    ("throughput", ⟨[windowSize], [],
      [variableParameter "amount_data" "float"]⟩),
    ("time", ⟨[immediate "margot::TimeUnit::MICROSECONDS" "margot::TimeUnit",
      windowSize], [], []⟩)]

/-- A monitor of numbers of a type that is known. -/
def genCustomSpec (monitorType : Text) : Checked MonitorSpec := do
  let realType ← sanitizeType monitorType
  require (realType ≠ "string".toList) "custom monitor: unsupported type".toList
  return ⟨[windowSize], [], [⟨.variable, "element".toList, monitorType⟩]⟩

def getMonitorCppSpec (monitorType : Text) : Checked MonitorSpec :=
  match knownMonitors.find? fun known => known.1.toList = monitorType with
  | some known => .ok known.2
  | none => genCustomSpec monitorType

def availableStatistics : List String :=
  ["average", "standard_deviation", "max", "min"]

/-- All the parameters or none, with the name of the monitor before that of a
variable. -/
def checkParameters (monitor : Text) (defaults parameters : List Parameter)
    (what : Text) : Checked (List Parameter) := do
  let chosen := if parameters = [] then defaults else parameters
  require (chosen.length = defaults.length)
    ("monitor model: mismatch on ".toList ++ what ++ " parameters".toList)
  return chosen.map fun parameter =>
    if parameter.type = .variable then
      { parameter with content := monitor ++ "_".toList ++ parameter.content }
    else parameter

def validateMonitor (model : MonitorModel) : Checked MonitorModel := do
  require (model.type ≠ []) "monitor model: monitor without a type".toList
  let type := trim model.type
  let spec ← getMonitorCppSpec type
  let initialization ← checkParameters model.name
    spec.defaultParamInitialization model.initializationParameters
    "initialization".toList
  let start ← checkParameters model.name spec.defaultParamStart
    model.startParameters "start".toList
  let stop ← checkParameters model.name spec.defaultParamStop
    model.stopParameters "stop".toList
  model.requestedStatistics.forM fun statistic =>
    require (availableStatistics.any fun known => known.toList = statistic)
      "Unknown log statistic".toList
  require (isValidIdentifier model.name)
    "monitor model: unsupported name".toList
  return { model with
    type := type
    initializationParameters := initialization
    startParameters := start
    stopParameters := stop }

end Monitor

def validateKnob (model : KnobModel) : Checked KnobModel := do
  require (model.type ≠ []) "knob model: knob without a type".toList
  let type ← sanitizeType model.type
  require (isValidIdentifier model.name) "knob model: unsupported name".toList
  require (type ≠ "string".toList || model.values ≠ [])
    "knob model: string enum missing".toList
  return { model with type := type }

def validateMetric (monitors : List MonitorModel) (model : MetricModel) :
    Checked MetricModel := do
  require (model.type ≠ []) "metric model: metric without a type".toList
  let type ← sanitizeType model.type
  require (type ≠ "string".toList) "metric model: unsupported type".toList
  require (isValidIdentifier model.name)
    "metric model: unsupported name".toList
  require (model.predictionParameters = [] || model.predictionPlugin ≠ [])
    "metric model: empty prediction plugin".toList
  require (model.monitorName = [] ||
      monitors.any fun monitor => model.monitorName = monitor.name)
    "metric model: non-existent monitor".toList
  require (model.inertia = 0 || model.monitorName ≠ [])
    "metric model: unable to active the reaction mechanism".toList
  return { model with type := type }

def validateFeature (field : FeatureModel) : Checked FeatureModel := do
  let type ← sanitizeType field.type
  require (type ≠ "string".toList) "features model: unsupported type".toList
  require (isValidIdentifier field.name)
    "features model: unsupported name".toList
  return { field with type := type }

def validateFeatures (model : FeaturesModel) : Checked FeaturesModel := do
  if model.fields = [] then
    require (model.distanceType = .none)
      "features model: inconsistent description".toList
    return model
  else
    require (noNeighbours model.fields)
      "features model: duplicated features".toList
    let fields ← model.fields.mapM validateFeature
    return { model with fields := fields }

/-- The checks of `validate(agora_model&, ...)` for an enabled Agora. -/
def checkAgora (model : AgoraModel) (metrics : List MetricModel)
    (knobs : List KnobModel) : Checked Unit := do
  require (model.url ≠ []) "agora model: empty broker url".toList
  require (model.qos ≠ []) "agora model: empty connection qos".toList
  require (model.qos = "0".toList || model.qos = "1".toList ||
    model.qos = "2".toList) "agora model: unknown qos level".toList
  require (model.doePlugin ≠ []) "agora model: empty doe plugin".toList
  require (model.clusteringPlugin ≠ [])
    "agora model: empty clustering plugin".toList
  require (metrics ≠ []) "agora error: no metric to predict".toList
  require (metrics.all fun metric => metric.monitorName ≠ [])
    "agora error: metric not observed".toList
  require (metrics.all fun metric => metric.predictionPlugin ≠ [])
    "agora error: metric not predicted".toList
  require (knobs.all fun knob => knob.values ≠ [])
    "agora error: unknown knob range".toList

def validateAgora (model : AgoraModel) (metrics : List MetricModel)
    (knobs : List KnobModel) : Checked Unit :=
  if model.empty then .ok () else checkAgora model metrics knobs

section State

/-- What a field of a rank or of a constraint is about. -/
def subjectKind (metrics : List MetricModel) (knobs : List KnobModel)
    (name : Text) (message : Text) : Checked SubjectKind :=
  if knobs.any fun knob => knob.name = name then .ok .knob
  else if metrics.any fun metric => metric.name = name then .ok .metric
  else .error message

def completeRankField (field : RankFieldModel) : Checked RankFieldModel := do
  require (field.name ≠ []) "state model: empty rank field".toList
  return { field with coefficient :=
    if field.coefficient = [] then "1".toList else field.coefficient }

def completeConstraint (constraint : ConstraintModel) :
    Checked ConstraintModel := do
  require (constraint.name ≠ []) "state model: empty constraint field".toList
  require (constraint.value ≠ []) "state model: no goal value".toList
  return { constraint with confidence :=
    if constraint.confidence = [] then "0".toList else constraint.confidence }

def validateState (metrics : List MetricModel) (knobs : List KnobModel)
    (model : StateModel) : Checked StateModel := do
  require (model.name ≠ []) "state model: empty state name".toList
  require (isValidIdentifier model.name)
    "state model: invalid state name".toList
  require (model.rankFields = [] || model.direction ≠ .none)
    "state model: missing rank direction".toList
  require (model.rankFields = [] || model.combination ≠ .none)
    "state model: missing rank type".toList
  let fields ← model.rankFields.mapM completeRankField
  let constraints ← model.constraints.mapM completeConstraint
  let rankFields ← fields.mapM fun field => do
    let kind ← subjectKind metrics knobs field.name
      "state model: unknown rank field".toList
    return { field with kind := kind }
  let subjects ← constraints.mapM fun constraint => do
    let kind ← subjectKind metrics knobs constraint.name
      "state model: unknown constraint field".toList
    return { constraint with kind := kind }
  return { model with rankFields := rankFields, constraints := subjects }

end State

section Types

/-- The comparison that sorts the types of a segment. -/
def compareTypes (message : Text) (a b : Text) : Checked Bool := do
  match ← typeSorter a b with
  | some smaller => return smaller
  | none => .error message

def insertType (message : Text) (type : Text) : List Text → Checked (List Text)
  | [] => .ok [type]
  | first :: rest => do
      if ← compareTypes message type first then return type :: first :: rest
      else
        let others ← insertType message type rest
        return first :: others

/-- Sorting the types of a segment, which fails as soon as two types that are
compared are of different categories. -/
def sortTypes (message : Text) (types : List Text) : Checked (List Text) :=
  types.foldlM (fun sorted type => insertType message type sorted) []

/-- The type that holds all the fields of a segment. -/
def segmentType (what : Text) (types : List Text) : Checked Text := do
  let sorted ← sortTypes
    ("model validation: mismatch between ".toList ++ what ++ " type".toList)
    types
  return sorted.getLastD []

/-- The types of the numeric knobs, or an integer if there are none. -/
def knobTypes (knobs : List KnobModel) : List Text :=
  let numeric := (knobs.filter fun knob => knob.type ≠ "string".toList).map
    (·.type)
  if numeric = [] then ["int32_t".toList] else numeric

end Types

/-- `validate` of a block, over the types of its segments. -/
def validateBlockBy (segmentType : Text → List Text → Checked Text)
    (block : BlockModel) : Checked BlockModel := do
  require (isValidIdentifier block.name)
    "block model: unsupported name".toList
  let monitors ← checkUniqueness block.monitors "monitor".toList
  let knobs ← checkUniqueness block.knobs "knob".toList
  let fields ← checkUniqueness block.features.fields "feature".toList
  let metrics ← checkUniqueness block.metrics "metric".toList
  let states ← checkUniqueness block.states "state".toList
  require (knobs.all fun knob => metrics.all fun metric =>
      metric.name ≠ knob.name) "validation error: ambiguous naming".toList
  let monitors ← monitors.mapM validateMonitor
  let knobs ← knobs.mapM validateKnob
  let metrics ← metrics.mapM (validateMetric monitors)
  let features ← validateFeatures { block.features with fields := fields }
  validateAgora block.agora metrics knobs
  let states ← states.mapM (validateState metrics knobs)
  let knobsType ← segmentType "knobs".toList (knobTypes knobs)
  let metricsType ← segmentType "metrics".toList (metrics.map (·.type))
  let featuresType ← segmentType "features".toList
    (features.fields.map (·.type))
  require (knobs.isEmpty == metrics.isEmpty)
    "model validation: block partially defined".toList
  return { block with
    monitors := monitors
    knobs := knobs
    knobsSegmentType := knobsType
    metrics := metrics
    metricsSegmentType := metricsType
    features := { features with featuresType := featuresType }
    states := states }

def validateBlock (block : BlockModel) : Checked BlockModel :=
  validateBlockBy segmentType block

def validate (model : ApplicationModel) : Checked ApplicationModel := do
  let name := if model.name = [] then "foo".toList else model.name
  let version := if model.version = [] then "1.0".toList else model.version
  require (isValidIdentifier name) "application model: unsupported name".toList
  let blocks ← checkUniqueness model.blocks "block".toList
  let blocks ← blocks.mapM validateBlock
  return ⟨name, version, blocks⟩

section Accepted

/-- What an accepted knob satisfies. -/
structure ValidKnob (knob : KnobModel) : Prop where
  name : isValidIdentifier knob.name = true
  values : knob.type = "string".toList → knob.values ≠ []

/-- What an accepted metric satisfies. -/
structure ValidMetric (metric : MetricModel) : Prop where
  name : isValidIdentifier metric.name = true
  type : metric.type ≠ "string".toList

/-- What an accepted feature satisfies. -/
structure ValidFeature (field : FeatureModel) : Prop where
  name : isValidIdentifier field.name = true
  type : field.type ≠ "string".toList

/-- What an accepted state satisfies for the fields of its block. -/
structure ValidState (metrics : List MetricModel) (knobs : List KnobModel)
    (state : StateModel) : Prop where
  name : isValidIdentifier state.name = true
  constraints : state.constraints ≠ [] → knobs ≠ [] ∨ metrics ≠ []
  known : ∀ constraint ∈ state.constraints, constraint.kind ≠ .unknown
  knownRank : ∀ field ∈ state.rankFields, field.kind ≠ .unknown

/-- What an accepted block satisfies. -/
structure ValidBlock (block : BlockModel) : Prop where
  name : isValidIdentifier block.name = true
  knobs : ∀ knob ∈ block.knobs, ValidKnob knob
  metrics : ∀ metric ∈ block.metrics, ValidMetric metric
  features : ∀ field ∈ block.features.fields, ValidFeature field
  agora : block.agora.empty = false →
    checkAgora block.agora block.metrics block.knobs = .ok ()
  states : ∀ state ∈ block.states, ValidState block.metrics block.knobs state
  knobsType : segmentType "knobs".toList (knobTypes block.knobs) =
    .ok block.knobsSegmentType
  metricsType : segmentType "metrics".toList (block.metrics.map (·.type)) =
    .ok block.metricsSegmentType
  featuresType : segmentType "features".toList
      (block.features.fields.map (·.type)) = .ok block.features.featuresType
  geometry : block.knobs = [] ↔ block.metrics = []

theorem validKnob_of_validate {model knob : KnobModel}
    (hknob : validateKnob model = .ok knob) : ValidKnob knob := by
  simp only [validateKnob, bind_eq_ok, require_eq_ok, pure_eq_ok] at hknob
  obtain ⟨-, -, type, -, -, hname, -, hvalues, rfl⟩ := hknob
  refine ⟨hname, fun hstring => ?_⟩
  rcases (Bool.or_eq_true _ _).mp hvalues with htype | hsome
  · exact absurd hstring (of_decide_eq_true htype)
  · exact of_decide_eq_true hsome

theorem validMetric_of_validate {monitors : List MonitorModel}
    {model metric : MetricModel}
    (hmetric : validateMetric monitors model = .ok metric) :
    ValidMetric metric := by
  simp only [validateMetric, bind_eq_ok, require_eq_ok, pure_eq_ok] at hmetric
  obtain ⟨-, -, type, -, -, htype, -, hname, -, -, -, -, -, -, rfl⟩ := hmetric
  exact ⟨hname, of_decide_eq_true htype⟩

theorem validFeature_of_validate {model field : FeatureModel}
    (hfield : validateFeature model = .ok field) : ValidFeature field := by
  simp only [validateFeature, bind_eq_ok, require_eq_ok, pure_eq_ok] at hfield
  obtain ⟨type, -, -, htype, -, hname, rfl⟩ := hfield
  exact ⟨hname, of_decide_eq_true htype⟩

theorem validFeatures_of_validate {model features : FeaturesModel}
    (hfeatures : validateFeatures model = .ok features) :
    ∀ field ∈ features.fields, ValidFeature field := by
  rw [validateFeatures] at hfeatures
  split at hfeatures
  · next hnone =>
      simp only [bind_eq_ok, pure_eq_ok] at hfeatures
      obtain ⟨-, -, rfl⟩ := hfeatures
      simp [hnone]
  · simp only [bind_eq_ok, pure_eq_ok] at hfeatures
    obtain ⟨-, -, fields, hfields, rfl⟩ := hfeatures
    intro field hmem
    obtain ⟨model, -, hfield⟩ := exists_of_mem_mapM hfields hmem
    exact validFeature_of_validate hfield

theorem subjectKind_eq_ok {metrics : List MetricModel} {knobs : List KnobModel}
    {name message : Text} {kind : SubjectKind}
    (hkind : subjectKind metrics knobs name message = .ok kind) :
    (knobs ≠ [] ∨ metrics ≠ []) ∧ kind ≠ .unknown := by
  rw [subjectKind] at hkind
  split at hkind
  · next hknob =>
      obtain rfl := Except.ok.inj hkind
      refine ⟨.inl ?_, SubjectKind.noConfusion⟩
      rintro rfl
      contradiction
  · split at hkind
    · next hmetric =>
        obtain rfl := Except.ok.inj hkind
        refine ⟨.inr ?_, SubjectKind.noConfusion⟩
        rintro rfl
        contradiction
    · contradiction

theorem validState_of_validate {metrics : List MetricModel}
    {knobs : List KnobModel} {model state : StateModel}
    (hstate : validateState metrics knobs model = .ok state) :
    ValidState metrics knobs state := by
  simp only [validateState, bind_eq_ok, require_eq_ok, pure_eq_ok] at hstate
  obtain ⟨-, -, -, hname, -, -, -, -, fields, -, constraints, -, rankFields,
    hrank, subjects, hsubjects, rfl⟩ := hstate
  refine ⟨hname, fun hsome => ?_, fun constraint hmem => ?_,
    fun field hmem => ?_⟩
  · obtain ⟨constraint, hmem⟩ := List.exists_mem_of_ne_nil _ hsome
    obtain ⟨completed, -, hkind⟩ := exists_of_mem_mapM hsubjects hmem
    obtain ⟨kind, hsubject, -⟩ := bind_eq_ok.mp hkind
    exact (subjectKind_eq_ok hsubject).1
  · obtain ⟨completed, -, hkind⟩ := exists_of_mem_mapM hsubjects hmem
    obtain ⟨kind, hsubject, hpure⟩ := bind_eq_ok.mp hkind
    obtain rfl := pure_eq_ok.mp hpure
    exact (subjectKind_eq_ok hsubject).2
  · obtain ⟨completed, -, hkind⟩ := exists_of_mem_mapM hrank hmem
    obtain ⟨kind, hsubject, hpure⟩ := bind_eq_ok.mp hkind
    obtain rfl := pure_eq_ok.mp hpure
    exact (subjectKind_eq_ok hsubject).2

theorem validBlock_of_validate {model block : BlockModel}
    (hblock : validateBlock model = .ok block) : ValidBlock block := by
  simp only [validateBlock, validateBlockBy, bind_eq_ok, require_eq_ok,
    pure_eq_ok] at hblock
  obtain ⟨-, hname, monitors, -, knobs, -, fields, -, metrics, -, states, -, -,
    -, monitors', -, knobs', hknobs, metrics', hmetrics, features, hfeatures,
    _, hagora, states', hstates, knobsType, hknobsType, metricsType,
    hmetricsType, featuresType, hfeaturesType, -, hgeometry, rfl⟩ := hblock
  have hfeature := validFeatures_of_validate hfeatures
  refine ⟨hname, ?_, ?_, fun field hmem => hfeature field hmem, ?_, ?_,
    hknobsType, hmetricsType, hfeaturesType, ?_⟩
  · intro knob hmem
    obtain ⟨element, -, hknob⟩ := exists_of_mem_mapM hknobs hmem
    exact validKnob_of_validate hknob
  · intro metric hmem
    obtain ⟨element, -, hmetric⟩ := exists_of_mem_mapM hmetrics hmem
    exact validMetric_of_validate hmetric
  · intro henabled
    have hoff : ¬ model.agora.empty = true := by
      rw [henabled]
      exact Bool.false_ne_true
    exact (if_neg hoff).symm.trans hagora
  · intro state hmem
    obtain ⟨element, -, hstate⟩ := exists_of_mem_mapM hstates hmem
    exact validState_of_validate hstate
  · have hsame : knobs'.isEmpty = metrics'.isEmpty := beq_iff_eq.mp hgeometry
    change knobs' = [] ↔ metrics' = []
    rw [← List.isEmpty_iff, ← List.isEmpty_iff, hsame]

/-- What an accepted application satisfies. -/
structure ValidApplication (app : ApplicationModel) : Prop where
  name : isValidIdentifier app.name = true
  blocks : ∀ block ∈ app.blocks, ValidBlock block

theorem validApplication_of_validate {model app : ApplicationModel}
    (happ : validate model = .ok app) : ValidApplication app := by
  simp only [validate, bind_eq_ok, require_eq_ok, pure_eq_ok] at happ
  obtain ⟨-, hname, unique, -, blocks, hblocks, rfl⟩ := happ
  refine ⟨hname, fun block hmem => ?_⟩
  obtain ⟨element, -, hblock⟩ := exists_of_mem_mapM hblocks hmem
  exact validBlock_of_validate hblock

/-- With Agora there are metrics, and therefore knobs, and every knob has
values. -/
theorem ValidBlock.enabled {block : BlockModel} (hvalid : ValidBlock block)
    (henabled : block.agora.empty = false) :
    block.metrics ≠ [] ∧ block.knobs ≠ [] ∧
      ∀ knob ∈ block.knobs, knob.values ≠ [] := by
  have hagora := hvalid.agora henabled
  simp only [checkAgora, bind_eq_ok, require_eq_ok] at hagora
  obtain ⟨-, -, -, -, -, -, -, -, -, -, -, hmetrics, -, -, -, -, hvalues⟩ :=
    hagora
  have hsome : block.metrics ≠ [] := of_decide_eq_true hmetrics
  refine ⟨hsome, fun hnone => hsome (hvalid.geometry.mp hnone), ?_⟩
  intro knob hmem
  exact of_decide_eq_true (List.all_eq_true.mp hvalues knob hmem)

/-- A block that uses Agora, in an application that is accepted. -/
structure AgoraBlock where
  model : ApplicationModel
  app : ApplicationModel
  accepted : validate model = .ok app
  block : BlockModel
  mem : block ∈ app.blocks
  enabled : block.agora.empty = false

namespace AgoraBlock

theorem valid (b : AgoraBlock) : ValidBlock b.block :=
  (validApplication_of_validate b.accepted).blocks b.block b.mem

theorem validName (b : AgoraBlock) : isValidIdentifier b.app.name = true :=
  (validApplication_of_validate b.accepted).name

end AgoraBlock

end Accepted

/-! ### A small application -/

namespace Sample

/-- A block with one knob, one metric and Agora, as a user writes it. -/
def block : BlockModel :=
  { BlockModel.initial with
    name := "kernel".toList
    monitors := [⟨"clock".toList, "time".toList, [], [], [], []⟩]
    knobs := [⟨"threads".toList, "int".toList, ["1".toList, "2".toList]⟩]
    metrics := [⟨"latency".toList, "float".toList, false, "linear".toList,
      "clock".toList, 0, []⟩]
    agora := { AgoraModel.initial with
      url := "127.0.0.1:1883".toList
      qos := "2".toList
      numberConfigurationsPerIteration := "1".toList
      doePlugin := "full".toList
      clusteringPlugin := "kmeans".toList } }

def application (version : Text) (block : BlockModel) : ApplicationModel :=
  ⟨"app".toList, version, [block]⟩

/-- The block after its validation. -/
def validBlock : BlockModel := (validateBlock block).toOption.get (by decide +kernel)

def agoraBlock (version : Text) (hversion : version ≠ []) : AgoraBlock where
  model := application version block
  app := application version validBlock
  accepted := by
    cases version with
    | nil => contradiction
    | cons first rest => rfl
  block := validBlock
  mem := List.mem_singleton.mpr rfl
  enabled := rfl

end Sample

end Margot.Heel
