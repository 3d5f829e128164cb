/-
The model of an application: what a configuration file says about it.
-/
import Margot.Library.Text

namespace Margot.Heel

inductive ParameterType where
  | immediate
  | variable
deriving Repr, DecidableEq

structure Parameter where
  type : ParameterType
  content : Text
  valueType : Text
deriving Repr, DecidableEq

structure PairProperty where
  key : Text
  value : Text
deriving Repr, DecidableEq

structure MonitorModel where
  name : Text
  type : Text
  requestedStatistics : List Text
  initializationParameters : List Parameter
  startParameters : List Parameter
  stopParameters : List Parameter
deriving Repr, DecidableEq

structure MetricModel where
  name : Text
  type : Text
  distribution : Bool
  predictionPlugin : Text
  monitorName : Text
  inertia : Nat
  predictionParameters : List PairProperty
deriving Repr, DecidableEq

structure KnobModel where
  name : Text
  type : Text
  values : List Text
deriving Repr, DecidableEq

inductive FeaturesDistanceType where
  | euclidean
  | normalized
  | none
deriving Repr, DecidableEq

inductive DistanceComparisonType where
  | lessOrEqual
  | greaterOrEqual
  | dontCare
deriving Repr, DecidableEq

structure FeatureModel where
  name : Text
  type : Text
  comparison : DistanceComparisonType
deriving Repr, DecidableEq

structure FeaturesModel where
  distanceType : FeaturesDistanceType
  featuresType : Text
  fields : List FeatureModel
deriving Repr, DecidableEq

structure AgoraModel where
  url : Text
  username : Text
  password : Text
  qos : Text
  brokerCa : Text
  clientCert : Text
  clientKey : Text
  numberConfigurationsPerIteration : Text
  numberObservationsPerConfiguration : Text
  maxNumberIteration : Text
  doePlugin : Text
  clusteringPlugin : Text
  doeParameters : List PairProperty
  clusteringParameters : List PairProperty
deriving Repr, DecidableEq

/-- Without the url of a broker the block does not use Agora. -/
def AgoraModel.empty (agora : AgoraModel) : Bool := agora.url.isEmpty

inductive GoalComparison where
  | lessOrEqual
  | greaterOrEqual
  | less
  | greater
deriving Repr, DecidableEq

inductive RankDirection where
  | minimize
  | maximize
  | none
deriving Repr, DecidableEq

inductive RankType where
  | simple
  | geometric
  | linear
  | none
deriving Repr, DecidableEq

inductive SubjectKind where
  | metric
  | knob
  | unknown
deriving Repr, DecidableEq

structure ConstraintModel where
  name : Text
  cfun : GoalComparison
  value : Text
  kind : SubjectKind
  confidence : Text
deriving Repr, DecidableEq

structure RankFieldModel where
  name : Text
  kind : SubjectKind
  coefficient : Text
deriving Repr, DecidableEq

structure StateModel where
  name : Text
  direction : RankDirection
  combination : RankType
  rankFields : List RankFieldModel
  constraints : List ConstraintModel
deriving Repr, DecidableEq

structure OperatingPointValue where
  mean : Text
  standardDeviation : Text
deriving Repr, DecidableEq

structure OperatingPointModel where
  features : List OperatingPointValue
  knobs : List OperatingPointValue
  metrics : List OperatingPointValue
deriving Repr, DecidableEq

structure BlockModel where
  name : Text
  monitors : List MonitorModel
  knobs : List KnobModel
  knobsSegmentType : Text
  metrics : List MetricModel
  metricsSegmentType : Text
  features : FeaturesModel
  agora : AgoraModel
  states : List StateModel
  ops : List OperatingPointModel
deriving Repr, DecidableEq

structure ApplicationModel where
  name : Text
  version : Text
  blocks : List BlockModel
deriving Repr, DecidableEq

def AgoraModel.initial : AgoraModel :=
  ⟨[], [], [], [], [], [], [], [], [], [], [], [], [], []⟩

/-- A block as its default constructor leaves it. -/
def BlockModel.initial : BlockModel :=
  ⟨[], [], [], [], [], [], ⟨.none, [], []⟩, .initial, [], []⟩

end Margot.Heel
