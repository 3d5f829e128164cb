/-
The functor that is generated for a block with Agora: it reads a list of
Operating Points, and it writes the one that has been observed.
-/
import Margot.Library.JsonReading
import Margot.Heel.Validate

namespace Margot.Heel

/-- The numbers of the generated code.  `get` is that of a property tree, which
reads a text as a number of a type; `ofNat` is the conversion of a constant. -/
structure Translator where
  Value : Type
  get : Text → Text → Option Value
  ofNat : Text → Nat → Value
  noQuote : ∀ type text value, get type text = some value → '"' ∉ text

/-- The mean and the deviation of each metric, and the value of each knob. -/
structure ParsedPoint (Value : Type) where
  knobs : List Value
  metrics : List (Value × Value)
deriving Repr, DecidableEq

/-- An Operating Point in the cluster with these features.  Without features
there is one cluster. -/
structure ClusteredPoint (Value : Type) where
  features : List Value
  point : ParsedPoint Value
deriving Repr, DecidableEq

/-- The parameters of the function that writes an observation, in order. -/
def BlockModel.fieldNames (block : BlockModel) : List Text :=
  block.features.fields.map (·.name) ++ block.knobs.map (·.name) ++
    block.metrics.map (·.name)

/-- What the compiler asks of the functor.  No two parameters have one name, and
the metrics are distributions: those that are not have no constructor with a
deviation. -/
def parserCompiles (block : BlockModel) : Bool :=
  block.fieldNames.Nodup && block.metrics.any (·.distribution)

section Parser

variable (T : Translator)

/-- `get<type>(path)`, `none` where it throws. -/
def getValue (type path : Text) (node : Ptree) : Option T.Value :=
  (node.getChild? path).bind fun child => T.get type child.data

/-- The lambda for the metrics with a distribution. -/
def distributionParser (type : Text) (metricNode : Ptree) :
    Option (T.Value × T.Value) :=
  match metricNode.children with
  | avg :: dev :: _ => do
      let mean ← T.get type avg.2.data
      let deviation ← T.get type dev.2.data
      return (mean, deviation)
  | _ => none

def parseMetricField (block : BlockModel) (node : Ptree) (metric : MetricModel) :
    Option (T.Value × T.Value) :=
  let path := "metrics.".toList ++ metric.name
  if metric.distribution then
    (node.getChild? path).bind (distributionParser T block.metricsSegmentType)
  else do
    let mean ← getValue T block.metricsSegmentType path node
    return (mean, T.ofNat block.metricsSegmentType 0)

def parsePoint (block : BlockModel) (node : Ptree) :
    Option (ClusteredPoint T.Value) := do
  let features ← block.features.fields.mapM fun field =>
    getValue T block.features.featuresType ("features.".toList ++ field.name) node
  let knobs ← block.knobs.mapM fun knob =>
    getValue T block.knobsSegmentType ("knobs.".toList ++ knob.name) node
  let metrics ← block.metrics.mapM (parseMetricField T block node)
  return ⟨features, ⟨knobs, metrics⟩⟩

/-- `operating_point_parser::operator()` of a text, `none` where it throws and
where it does not compile. -/
def operatingPointParser (block : BlockModel) (descriptionStr : Text) :
    Option (List (ClusteredPoint T.Value)) :=
  if parserCompiles block then do
    let content ← Json.readJson descriptionStr
    let blockNode ← content.getChild? block.name
    blockNode.children.mapM fun child => parsePoint T block child.2
  else none

end Parser

section Names

/-- An identifier is one fragment of a path, and a key that needs no escape. -/
theorem dot_not_mem {name : Text} (hname : isValidIdentifier name = true) :
    '.' ∉ name := by
  intro hdot
  rcases mem_of_isValidIdentifier hname hdot with hdigit | hunderscore
  · contradiction
  · contradiction

theorem quote_not_mem {name : Text} (hname : isValidIdentifier name = true) :
    '"' ∉ name := by
  intro hquote
  rcases mem_of_isValidIdentifier hname hquote with hdigit | hunderscore
  · contradiction
  · contradiction

theorem isPlain_of_isValidIdentifier {name : Text}
    (hname : isValidIdentifier name = true) {c : Char} (hc : c ∈ name) :
    Json.isPlain c = true := by
  rcases mem_of_isValidIdentifier hname hc with halphanum | rfl
  · exact Json.isPlain_of_isAlphanum halphanum
  · decide

theorem nodup_fieldNames {block : BlockModel}
    (hcompiles : parserCompiles block = true) :
    (block.features.fields.map (·.name)).Nodup ∧
      (block.knobs.map (·.name)).Nodup ∧
      (block.metrics.map (·.name)).Nodup := by
  rw [parserCompiles, Bool.and_eq_true, decide_eq_true_eq] at hcompiles
  have hnodup := hcompiles.1
  rw [BlockModel.fieldNames, List.nodup_append, List.nodup_append] at hnodup
  exact ⟨hnodup.1.1, hnodup.1.2.1, hnodup.2.1⟩

end Names

end Margot.Heel
