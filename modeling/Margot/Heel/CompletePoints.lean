/-
The Operating Points that are read of a document, and what the generated code
needs of them: the parser goes by the shape of a field, and the generator by the
metric.
-/
import Mathlib.Data.List.Forall2
import Margot.Heel.Knowledge
import Margot.Heel.Observation

namespace Margot.Heel

/-- The value is read of the field, and it has a mean. -/
def ReadOf (node : Ptree) (section_ name : Text) (value : OperatingPointValue) :
    Prop :=
  parseOpField (section_ ++ name) node = .ok value ∧ value.mean ≠ []

/-- Every argument that is written is there. -/
structure AllArguments (block : BlockModel) (op : OperatingPointModel) :
    Prop where
  knobs : (knobArguments block op).length = block.knobs.length ∧
    ∀ argument ∈ knobArguments block op, argument ≠ []
  metrics : (metricArguments block op).length = block.metrics.length ∧
    ∀ arguments ∈ List.zipWith (metricInitialiser block) block.metrics
      op.metrics, ∀ argument ∈ arguments, argument ≠ []

/-- A value for each field in the order of the block, a deviation for each
distribution, and all the arguments. -/
structure CompletePoint (block : BlockModel) (node : Ptree)
    (op : OperatingPointModel) : Prop where
  features : List.Forall₂ (fun field value =>
    ReadOf node "features.".toList field.name value)
      block.features.fields op.features
  knobs : List.Forall₂ (fun knob value =>
    ReadOf node "knobs.".toList knob.name value) block.knobs op.knobs
  metrics : List.Forall₂ (fun metric value =>
    ReadOf node "metrics.".toList metric.name value ∧
      (metric.distribution = true → value.standardDeviation ≠ []))
        block.metrics op.metrics
  arguments : AllArguments block op

/-- One complete Operating Point is appended for each node. -/
def AllComplete (block : BlockModel) (opNode : Ptree) (parsed : BlockModel) :
    Prop :=
  ∃ added, parsed.ops = block.ops ++ added ∧
    List.Forall₂ (CompletePoint block) (opNode.elements block.name) added

/-- The field is a pair with a deviation. -/
def HasDeviation (field : Ptree) : Prop :=
  field.data = [] ∧ ∃ mean deviation rest,
    field.children = mean :: deviation :: rest ∧ deviation.2.data ≠ []

/-- The document has a deviation for each distribution. -/
def AllDeviations (block : BlockModel) (opNode : Ptree) : Prop :=
  ∀ node ∈ opNode.elements block.name, ∀ metric ∈ block.metrics,
    metric.distribution = true →
      ∃ field, node.getChild? ("metrics.".toList ++ metric.name) = some field ∧
        HasDeviation field

section Fields

variable {tagName : Text} {node : Ptree} {value : OperatingPointValue}

/-- What is read of a field. -/
theorem parseOpField_eq_ok
    (hparse : parseOpField tagName node = .ok value) :
    ∃ field, node.getChild? tagName = some field ∧
      ((field.data ≠ [] ∧ value = ⟨field.data, []⟩) ∨
        (field.data = [] ∧ ∃ mean deviation rest,
          field.children = mean :: deviation :: rest ∧ mean.2.data ≠ [] ∧
            value = ⟨mean.2.data, deviation.2.data⟩)) := by
  rw [parseOpField] at hparse
  cases hfield : node.getChild? tagName with
  | none =>
      rw [hfield] at hparse
      contradiction
  | some field =>
      rw [hfield] at hparse
      refine ⟨field, rfl, ?_⟩
      by_cases hdata : field.data = []
      · simp only [hdata, ne_eq, not_true_eq_false, if_false] at hparse
        cases hchildren : field.children with
        | nil =>
            rw [hchildren] at hparse
            contradiction
        | cons mean others =>
            cases others with
            | nil =>
                rw [hchildren] at hparse
                contradiction
            | cons deviation rest =>
                simp only [hchildren] at hparse
                by_cases hmean : mean.2.data = []
                · rw [if_pos hmean] at hparse
                  contradiction
                · rw [if_neg hmean] at hparse
                  exact .inr ⟨hdata, mean, deviation, rest, rfl, hmean,
                    (Except.ok.inj hparse).symm⟩
      · simp only [ne_eq, hdata, not_false_eq_true, if_true] at hparse
        exact .inl ⟨hdata, (Except.ok.inj hparse).symm⟩

theorem mean_ne_nil (hparse : parseOpField tagName node = .ok value) :
    value.mean ≠ [] := by
  obtain ⟨field, -, ⟨hdata, rfl⟩ | ⟨-, mean, deviation, rest, -, hmean, rfl⟩⟩ :=
    parseOpField_eq_ok hparse
  · exact hdata
  · exact hmean

/-- Only a pair gives a deviation. -/
theorem deviation_ne_nil_iff (hparse : parseOpField tagName node = .ok value) :
    value.standardDeviation ≠ [] ↔
      ∃ field, node.getChild? tagName = some field ∧ HasDeviation field := by
  obtain ⟨field, hfield, hvalue⟩ := parseOpField_eq_ok hparse
  simp only [hfield, Option.some.injEq, exists_eq_left']
  rcases hvalue with ⟨hdata, rfl⟩ |
    ⟨hdata, mean, deviation, rest, hchildren, -, rfl⟩
  · exact iff_of_false (fun hsome => hsome rfl) fun hpair => hdata hpair.1
  · constructor
    · intro hsome
      exact ⟨hdata, mean, deviation, rest, hchildren, hsome⟩
    · rintro ⟨-, first, second, others, hpair, hsome⟩
      rw [hchildren] at hpair
      obtain ⟨-, rfl, -⟩ : mean = first ∧ deviation = second ∧ rest = others := by
        simpa using hpair
      exact hsome

end Fields

section Points

variable {block : BlockModel} {node : Ptree} {op : OperatingPointModel}

theorem forall₂_readOf {α : Type} {section_ : Text} {name : α → Text}
    {elements : List α} {values : List OperatingPointValue}
    (hparse : (elements.mapM fun a => parseOpField (section_ ++ name a) node) =
      .ok values) :
    List.Forall₂ (fun a value => ReadOf node section_ (name a) value)
      elements values :=
  (mapM_eq_ok.mp hparse).imp fun _ _ hvalue => ⟨hvalue, mean_ne_nil hvalue⟩

/-- The values that are written are the arguments. -/
theorem allArguments_of_values
    (hknobs : List.Forall₂ (fun knob value =>
      ReadOf node "knobs.".toList knob.name value) block.knobs op.knobs)
    (hmetrics : List.Forall₂ (fun metric value =>
      ReadOf node "metrics.".toList metric.name value ∧
        (metric.distribution = true → value.standardDeviation ≠ []))
          block.metrics op.metrics) :
    AllArguments block op := by
  constructor
  · constructor
    · rw [knobArguments, List.length_zipWith, ← hknobs.length_eq, Nat.min_self]
    · apply forall_mem_zipWith (P := fun argument : Text => argument ≠ []) hknobs
      rintro knob value ⟨-, hmean⟩
      split
      · exact hmean
      · simp
  · constructor
    · rw [metricArguments, List.length_map, List.length_zipWith,
        ← hmetrics.length_eq, Nat.min_self]
    · apply forall_mem_zipWith (P := fun arguments : List Text =>
        ∀ argument ∈ arguments, argument ≠ []) hmetrics
      rintro metric value ⟨⟨-, hmean⟩, hdeviation⟩
      rw [metricInitialiser]
      split
      · next hdistribution =>
          rw [List.forall_mem_cons, List.forall_mem_singleton]
          refine ⟨hmean, ?_⟩
          cases hmetric : metric.distribution with
          | true =>
              simp only [Bool.not_true, Bool.false_and, Bool.false_eq_true,
                if_false]
              exact hdeviation hmetric
          | false =>
              simp only [hdistribution, Bool.not_false, Bool.and_self, if_true]
              decide
      · exact List.forall_mem_singleton.mpr hmean

/-- A parsed Operating Point is complete exactly when its node has a deviation
for each distribution. -/
theorem completePoint_iff (hparse : parseOperatingPoint block node = .ok op) :
    CompletePoint block node op ↔
      ∀ metric ∈ block.metrics, metric.distribution = true →
        ∃ field, node.getChild? ("metrics.".toList ++ metric.name) =
          some field ∧ HasDeviation field := by
  simp only [parseOperatingPoint, bind_eq_ok, pure_eq_ok] at hparse
  obtain ⟨features, hfeatures, knobs, hknobs, metrics, hmetrics, rfl⟩ := hparse
  have hread := mapM_eq_ok.mp hmetrics
  constructor
  · intro hcomplete metric hmem hdistribution
    obtain ⟨value, -, hvalue, hdeviation⟩ :=
      exists_of_forall₂ hcomplete.metrics hmem
    exact (deviation_ne_nil_iff hvalue.1).mp (hdeviation hdistribution)
  · intro hdeviations
    have hvalues : List.Forall₂ (fun metric value =>
        ReadOf node "metrics.".toList metric.name value ∧
          (metric.distribution = true → value.standardDeviation ≠ []))
            block.metrics metrics := by
      have hmem : ∀ metric ∈ block.metrics, metric ∈ block.metrics :=
        fun _ => id
      have hboth := (List.forall₂_and_left _ _).mpr ⟨hmem, hread⟩
      apply hboth.imp
      rintro metric value ⟨hmetric, hvalue⟩
      exact ⟨⟨hvalue, mean_ne_nil hvalue⟩, fun hdistribution =>
        (deviation_ne_nil_iff hvalue).mpr
          (hdeviations metric hmetric hdistribution)⟩
    exact ⟨forall₂_readOf hfeatures, forall₂_readOf hknobs, hvalues,
      allArguments_of_values (forall₂_readOf hknobs) hvalues⟩

end Points

section Documents

variable {block parsed : BlockModel} {opNode : Ptree}

/-- One Operating Point is read of each node, behind those of the block. -/
theorem parseOperatingPoints_eq_ok
    (hparse : parseOperatingPoints block opNode = .ok parsed) :
    ∃ added, parsed.ops = block.ops ++ added ∧
      List.Forall₂ (fun node op => parseOperatingPoint block node = .ok op)
        (opNode.elements block.name) added := by
  rw [parseOperatingPoints] at hparse
  rw [Ptree.elements]
  cases hlist : opNode.getChild? block.name with
  | none =>
      rw [hlist] at hparse
      obtain rfl := Except.ok.inj hparse
      exact ⟨[], (List.append_nil _).symm, .nil⟩
  | some opsList =>
      rw [hlist] at hparse
      simp only [bind_eq_ok, pure_eq_ok] at hparse
      obtain ⟨added, hadded, rfl⟩ := hparse
      refine ⟨added, rfl, ?_⟩
      apply List.forall₂_map_left_iff.mpr
      exact mapM_eq_ok.mp hadded

/-- What is read of a document is complete exactly when the document has a
deviation for each distribution. -/
theorem allComplete_iff
    (hparse : parseOperatingPoints block opNode = .ok parsed) :
    AllComplete block opNode parsed ↔ AllDeviations block opNode := by
  obtain ⟨added, hops, hread⟩ := parseOperatingPoints_eq_ok hparse
  constructor
  · rintro ⟨others, hothers, hcomplete⟩ node hnode
    obtain rfl : added = others :=
      List.append_cancel_left (hops.symm.trans hothers)
    have hpoints : List.Forall₂ (fun node _ =>
        ∀ metric ∈ block.metrics, metric.distribution = true →
          ∃ field, node.getChild? ("metrics.".toList ++ metric.name) =
            some field ∧ HasDeviation field)
        (opNode.elements block.name) added := by
      apply List.Forall₂.mp _ hread hcomplete
      intro node op hop hpoint
      exact (completePoint_iff hop).mp hpoint
    obtain ⟨-, -, hnodes⟩ := exists_of_forall₂ hpoints hnode
    exact hnodes
  · intro hdeviations
    refine ⟨added, hops, ?_⟩
    have hboth := (List.forall₂_and_left _ _).mpr ⟨hdeviations, hread⟩
    apply hboth.imp
    rintro node op ⟨hnode, hop⟩
    exact (completePoint_iff hop).mpr hnode

end Documents

namespace Sample

/-- A block whose metric is a distribution. -/
def noisy : BlockModel :=
  { block with
    metrics := [⟨"latency".toList, "float".toList, true, [], [], 0, []⟩] }

/-- An Operating Point with the given latency, in a document. -/
def latencyDocument (latency : Ptree) : Ptree :=
  .node [] [("kernel".toList, .array [.node [] [
    ("knobs".toList, .node [] [("threads".toList, .leaf "1".toList)]),
    ("metrics".toList, .node [] [("latency".toList, latency)])]])]

def parsedPoint (deviation : Text) : BlockModel :=
  { noisy with
    ops := [⟨[], [⟨"1".toList, []⟩], [⟨"7".toList, deviation⟩]⟩] }

theorem allComplete_iff_pair :
    AllComplete noisy
        (latencyDocument (.array [.leaf "7".toList, .leaf "2".toList]))
        (parsedPoint "2".toList) ↔
      AllDeviations noisy
        (latencyDocument (.array [.leaf "7".toList, .leaf "2".toList])) :=
  allComplete_iff (by decide +kernel)

/-- A number in the place of a pair is read, and leaves an argument out. -/
theorem not_allComplete_scalar :
    ¬ ∀ (block parsed : BlockModel) (opNode : Ptree),
      parseOperatingPoints block opNode = .ok parsed →
        AllComplete block opNode parsed := by
  intro hall
  have hparse : parseOperatingPoints noisy
      (latencyDocument (.leaf "7".toList)) = .ok (parsedPoint []) := by
    decide +kernel
  obtain ⟨added, hops, hcomplete⟩ := hall _ _ _ hparse
  have hadded : (parsedPoint []).ops = added := hops
  subst hadded
  obtain ⟨hpoint, -⟩ := List.forall₂_cons.mp hcomplete
  obtain ⟨hmetric, -⟩ := List.forall₂_cons.mp hpoint.metrics
  exact hmetric.2 rfl rfl

end Sample

end Margot.Heel
