/-
The functor that writes what has been observed, and the parser of Operating
Points that reads it on the other side.
-/
import Margot.Library.CppLiteral
import Margot.Heel.OperatingPointParser

namespace Margot.Heel

section Numbers

/-- How `std::to_string` writes what is not finite. -/
def notFinite : List Text :=
  ["inf".toList, "-inf".toList, "nan".toList, "-nan".toList]

/-- The floating-point numbers of the generated code: `toString` is
`std::to_string`, `read` is what a text says, and `ofNat` is the conversion of
a constant, which is finite. -/
structure Floats where
  Value : Type
  toString : Value → Text
  read : Text → Option Value
  ofNat : Nat → Value
  spelled : ∀ value, Json.isNumber (toString value) = true ∨
    toString value ∈ notFinite
  finite : ∀ n, Json.isNumber (toString (ofNat n)) = true

inductive Number (F : Floats) where
  | integer (value : Int)
  | floating (value : F.Value)

def integerText (value : Int) : Text :=
  if value < 0 then '-' :: numeral value.natAbs else numeral value.natAbs

/-- `std::to_string` -/
def Number.text {F : Floats} : Number F → Text
  | .integer value => integerText value
  | .floating value => F.toString value

/-- The text says the number. -/
def Number.Says {F : Floats} (text : Text) : Number F → Prop
  | .integer value => text = integerText value
  | .floating value => F.read text = some value

/-- The number is finite, and has no more digits than are written. -/
def Number.Exact {F : Floats} : Number F → Prop
  | .integer _ => True
  | .floating value => Json.isNumber (F.toString value) = true ∧
      F.read (F.toString value) = some value

def signedWidths : List (String × Nat) :=
  [("int8_t", 8), ("int16_t", 16), ("int32_t", 32), ("int64_t", 64)]

def unsignedWidths : List (String × Nat) :=
  [("uint8_t", 8), ("uint16_t", 16), ("uint32_t", 32), ("uint64_t", 64)]

/-- A constant as a number of a type. -/
def constant (F : Floats) (type : Text) (n : Nat) : Number F :=
  if ctypePromotionsFp.any fun known => known.toList = type then
    .floating (F.ofNat n)
  else
    match signedWidths.find? fun known => known.1.toList = type with
    | some known => .integer ((n : Int).bmod (2 ^ known.2))
    | none =>
        match unsignedWidths.find? fun known => known.1.toList = type with
        | some known => .integer (n % 2 ^ known.2)
        | none => .integer n

end Numbers

section Composer

/-- The arguments of the functor, by the names of the fields.  The value of a
string knob is given as it is listed. -/
structure Observation (F : Floats) where
  features : Text → Number F
  knobs : Text → Number F
  strings : Text → Text
  metrics : Text → Number F

/-- The types of the parameters of the functor. -/
def BlockModel.fieldTypes (block : BlockModel) : List Text :=
  block.features.fields.map (·.type) ++ block.knobs.map (·.type) ++
    block.metrics.map (·.type)

/-- What the compiler asks of the functor, whose parameters need types, and of
the maps of the strings. -/
def composerCompiles (block : BlockModel) : Bool :=
  parserCompiles block && block.fieldTypes.all (· ≠ []) &&
    block.knobs.all fun knob => knob.type ≠ "string".toList ||
      knob.values.all fun value => (CppLiteral.decode value).isSome

/-- `knob_..._to_val`, `none` where it throws: the first one of equal keys. -/
def knobToVal (knob : KnobModel) (value : Text) : Option Nat :=
  (knob.values.mapM CppLiteral.decode).bind fun keys => keys.idxOf? value

variable {F : Floats} (block : BlockModel) (observation : Observation F)

def knobText (knob : KnobModel) : Option Text :=
  if knob.type = "string".toList then do
    let value ← CppLiteral.decode (observation.strings knob.name)
    let index ← knobToVal knob value
    return (constant F block.knobsSegmentType index).text
  else some (observation.knobs knob.name).text

def member (name value : Text) : Text :=
  '"' :: name ++ "\":".toList ++ value

def join (members : List Text) : Text := [','].intercalate members

def featuresText : Text :=
  if block.features.fields = [] then []
  else "\"features\":\x7b".toList ++
    join (block.features.fields.map fun field =>
      member field.name (observation.features field.name).text) ++
    "\x7d,".toList

def metricText (metric : MetricModel) : Text :=
  if metric.distribution then
    '[' :: (observation.metrics metric.name).text ++ ",0]".toList
  else (observation.metrics metric.name).text

/-- `operating_point_parser::operator()` of the values, `none` where it throws
and where it does not compile. -/
def composeObservation : Option Text :=
  if composerCompiles block then do
    let knobs ← block.knobs.mapM fun knob =>
      (knobText block observation knob).map (member knob.name)
    return "\x7b\"".toList ++ block.name ++ "\":[\x7b".toList ++
      featuresText block observation ++
      "\"knobs\":\x7b".toList ++ join knobs ++ "\x7d,".toList ++
      "\"metrics\":\x7b".toList ++
      join (block.metrics.map fun metric =>
        member metric.name (metricText observation metric)) ++
      "\x7d\x7d]\x7d".toList
  else none

end Composer

section Parser

/-- `parse_op_field` -/
def parseOpField (tagName : Text) (opNode : Ptree) :
    Checked OperatingPointValue :=
  match opNode.getChild? tagName with
  | none => .error "op parser: missing field".toList
  | some field =>
      if field.data ≠ [] then .ok ⟨field.data, []⟩
      else
        match field.children with
        | [] => .error "op parser: empty mean".toList
        | [_] => .error "op parser: empty standard deviation".toList
        | mean :: deviation :: _ =>
            if mean.2.data = [] then .error "op parser: empty mean".toList
            else .ok ⟨mean.2.data, deviation.2.data⟩

def parseOperatingPoint (block : BlockModel) (node : Ptree) :
    Checked OperatingPointModel := do
  let features ← block.features.fields.mapM fun field =>
    parseOpField ("features.".toList ++ field.name) node
  let knobs ← block.knobs.mapM fun knob =>
    parseOpField ("knobs.".toList ++ knob.name) node
  let metrics ← block.metrics.mapM fun metric =>
    parseOpField ("metrics.".toList ++ metric.name) node
  return ⟨features, knobs, metrics⟩

/-- `parse_operating_points`, which changes only the list of the block. -/
def parseOperatingPoints (block : BlockModel) (opNode : Ptree) :
    Checked BlockModel :=
  match opNode.getChild? block.name with
  | none => .ok block
  | some opsList => do
      let ops ← opsList.children.mapM fun p => parseOperatingPoint block p.2
      return { block with ops := block.ops ++ ops }

end Parser

section Written

variable {F : Floats}

theorem isNumber_integerText (value : Int) :
    Json.isNumber (integerText value) = true := by
  rw [integerText]
  split
  · exact Json.isNumber_minus_numeral _
  · exact Json.isNumber_numeral _

theorem isNumber_or_notFinite (number : Number F) :
    Json.isNumber number.text = true ∨ number.text ∈ notFinite := by
  cases number with
  | integer value => exact .inl (isNumber_integerText value)
  | floating value => exact F.spelled value

theorem isNumber_constant (F : Floats) (type : Text) (n : Nat) :
    Json.isNumber (constant F type n).text = true := by
  rw [constant]
  split
  · exact F.finite n
  · split
    · exact isNumber_integerText _
    · split
      · exact isNumber_integerText _
      · exact isNumber_integerText _

/-- A number is said by what is written for it exactly when it is exact, if
that can be read at all. -/
theorem says_text_iff (number : Number F) :
    Json.isNumber number.text = true ∧ number.Says number.text ↔
      number.Exact := by
  cases number with
  | integer value => exact iff_true_intro ⟨isNumber_integerText value, rfl⟩
  | floating value => exact Iff.rfl

/-- Nothing in JSON begins like what is not finite. -/
theorem breaks_notFinite {data : Text} (hdata : data ∈ notFinite) :
    Json.Breaks id data := by
  have hnone : ∀ rest, Json.readScalar (data ++ rest) = none := by
    intro rest
    simp only [notFinite, List.mem_cons, List.not_mem_nil, or_false] at hdata
    rcases hdata with rfl | rfl | rfl | rfl
    all_goals rfl
  obtain ⟨c, tail, rfl, hspace, hobject, harray, hends⟩ :
      ∃ c tail, data = c :: tail ∧ Json.isJsonSpace c = false ∧
        c ≠ '\x7b' ∧ c ≠ '[' ∧ c ≠ '\x7d' ∧ c ≠ ']' := by
    simp only [notFinite, List.mem_cons, List.not_mem_nil, or_false] at hdata
    rcases hdata with rfl | rfl | rfl | rfl
    all_goals exact ⟨_, _, rfl, by decide⟩
  refine ⟨⟨c, tail, rfl, hspace, hends⟩, fun fuel rest tree after _ hread => ?_⟩
  cases fuel with
  | zero => contradiction
  | succ fuel =>
      rw [id, List.cons_append, Json.readValue_scalar hspace hobject harray,
        ← List.cons_append, hnone] at hread
      contradiction

end Written

section Tree

variable {F : Floats} (block : BlockModel) (observation : Observation F)

/-- The node of a metric that has been observed. -/
def observedNode (metric : MetricModel) : Ptree :=
  if metric.distribution then
    Ptree.array [Ptree.leaf (observation.metrics metric.name).text,
      Ptree.leaf "0".toList]
  else Ptree.leaf (observation.metrics metric.name).text

/-- A section of an Operating Point: a node for each name. -/
def namedNodes {α : Type} [Named α] (child : α → Ptree) (elements : List α) :
    Ptree :=
  .node [] (elements.map fun a => (Named.name a, child a))

def featuresNode : Ptree :=
  namedNodes (fun field : FeatureModel =>
    Ptree.leaf (observation.features field.name).text) block.features.fields

def knobsNode : Ptree :=
  namedNodes (fun knob : KnobModel =>
    Ptree.leaf ((knobText block observation knob).getD [])) block.knobs

def metricsNode : Ptree :=
  namedNodes (observedNode observation) block.metrics

def observedSections : List (Text × Option Ptree) :=
  [("features".toList, if block.features.fields = [] then none
      else some (featuresNode block observation)),
    ("knobs".toList, some (knobsNode block observation)),
    ("metrics".toList, some (metricsNode block observation))]

def observedPoint : Ptree :=
  .node [] (Ptree.present (observedSections block observation))

/-- The tree whose text is composed. -/
def observedRoot : List (Text × Ptree) :=
  [(block.name, Ptree.array [observedPoint block observation])]

/-- The texts of the values that are composed. -/
def observedTexts : List Text :=
  block.features.fields.map (fun field =>
      (observation.features field.name).text) ++
    block.knobs.map (fun knob => (knobText block observation knob).getD []) ++
    block.metrics.flatMap fun metric =>
      (observation.metrics metric.name).text ::
        if metric.distribution then ["0".toList] else []

/-- The value that is read for a metric. -/
def observedMetric (metric : MetricModel) : OperatingPointValue :=
  ⟨(observation.metrics metric.name).text,
    if metric.distribution then "0".toList else []⟩

/-- The Operating Point that is read, with the fields in the order of the
description. -/
def readPoint (description : BlockModel) : OperatingPointModel where
  features := description.features.fields.map fun field =>
    ⟨(observation.features field.name).text, []⟩
  knobs := description.knobs.map fun knob =>
    ⟨(knobText block observation knob).getD [], []⟩
  metrics := description.metrics.map (observedMetric observation)

variable {block observation}

theorem label_identifier {name : Text} (hname : isValidIdentifier name = true) :
    Json.label false true name = '"' :: name ++ "\":".toList := by
  rw [Json.label, if_pos rfl, Json.quoted,
    Json.createEscapes_plain fun c hc => isPlain_of_isValidIdentifier hname hc]
  simp

theorem label_tag : Json.label false true "features".toList =
      "\"features\":".toList ∧
    Json.label false true "knobs".toList = "\"knobs\":".toList ∧
    Json.label false true "metrics".toList = "\"metrics\":".toList :=
  ⟨by decide, by decide, by decide⟩

/-- A section as it is composed. -/
theorem write_namedNodes {α : Type} [Named α] {child : α → Ptree}
    {elements : List α} (hsome : elements ≠ [])
    (hnames : ∀ a ∈ elements, isValidIdentifier (Named.name a) = true)
    (indent : Nat) :
    Json.write id false indent (namedNodes child elements) =
      '\x7b' :: join (elements.map fun a => member (Named.name a)
        (Json.write id false (indent + 1) (child a))) ++ ['\x7d'] := by
  have hobject : Json.isArray indent
      (elements.map fun a => (Named.name a, child a)) = false := by
    obtain ⟨a, rest, rfl⟩ := List.exists_cons_of_ne_nil hsome
    have hname := isValidIdentifier_ne_nil (hnames a List.mem_cons_self)
    simp [Json.isArray, hname]
  rw [namedNodes, Json.write_object
    (fun hnil => hsome (List.map_eq_nil_iff.mp hnil)) hobject, List.map_map]
  have hmembers : (elements.map fun a =>
      Json.label false true (Named.name a) ++
        Json.write id false (indent + 1) (child a)) =
      elements.map fun a => member (Named.name a)
        (Json.write id false (indent + 1) (child a)) := by
    apply List.map_congr_left
    intro a hmem
    rw [label_identifier (hnames a hmem), member]
  exact congrArg (fun members => '\x7b' :: join members ++ ['\x7d']) hmembers

theorem write_leaf (indent : Nat) (data : Text) :
    Json.write id false (indent + 1) (Ptree.leaf data) = data :=
  Json.write_leaf (Nat.succ_pos indent) data

theorem write_observedNode (metric : MetricModel) (indent : Nat) :
    Json.write id false (indent + 1) (observedNode observation metric) =
      metricText observation metric := by
  rw [observedNode, metricText]
  split
  · rw [Json.write_array (Nat.succ_pos indent) (List.cons_ne_nil _ _)]
    simp only [List.map_cons, List.map_nil, write_leaf]
    rw [List.intercalate_cons_cons, List.intercalate_singleton]
    simp
  · exact write_leaf indent _

theorem present_observedSections :
    Ptree.present (observedSections block observation) =
      (if block.features.fields = [] then []
        else [("features".toList, featuresNode block observation)]) ++
      [("knobs".toList, knobsNode block observation),
        ("metrics".toList, metricsNode block observation)] := by
  rw [observedSections]
  split
  · rfl
  · rfl

section Composed

variable (hvalid : ValidBlock block) (hknobs : block.knobs ≠ [])
  (hmetrics : block.metrics ≠ [])

include hvalid in
theorem write_featuresNode (hfields : block.features.fields ≠ [])
    (indent : Nat) :
    Json.write id false indent (featuresNode block observation) =
      '\x7b' :: join (block.features.fields.map fun field =>
        member field.name (observation.features field.name).text) ++
        ['\x7d'] := by
  rw [featuresNode, write_namedNodes hfields fun field hmem =>
    (hvalid.features field hmem).name]
  simp only [write_leaf]
  rfl

include hvalid hknobs in
theorem write_knobsNode (indent : Nat) :
    Json.write id false indent (knobsNode block observation) =
      '\x7b' :: join (block.knobs.map fun knob => member knob.name
        ((knobText block observation knob).getD [])) ++ ['\x7d'] := by
  rw [knobsNode, write_namedNodes hknobs fun knob hmem =>
    (hvalid.knobs knob hmem).name]
  simp only [write_leaf]
  rfl

include hvalid hmetrics in
theorem write_metricsNode (indent : Nat) :
    Json.write id false indent (metricsNode block observation) =
      '\x7b' :: join (block.metrics.map fun metric => member metric.name
        (metricText observation metric)) ++ ['\x7d'] := by
  rw [metricsNode, write_namedNodes hmetrics fun metric hmem =>
    (hvalid.metrics metric hmem).name]
  simp only [write_observedNode]
  rfl

include hvalid hknobs hmetrics in
theorem write_observedPoint (indent : Nat) :
    Json.write id false indent (observedPoint block observation) =
      '\x7b' :: featuresText block observation ++
        "\"knobs\":\x7b".toList ++ join (block.knobs.map fun knob =>
          member knob.name ((knobText block observation knob).getD [])) ++
        "\x7d,".toList ++ "\"metrics\":\x7b".toList ++
        join (block.metrics.map fun metric =>
          member metric.name (metricText observation metric)) ++
        "\x7d\x7d".toList := by
  rw [observedPoint, present_observedSections, featuresText]
  split
  · rw [List.nil_append, Json.write_object (List.cons_ne_nil _ _)
      (by simp [Json.isArray])]
    simp only [List.map_cons, List.map_nil,
      List.intercalate_cons_cons, List.intercalate_singleton, label_tag,
      write_knobsNode hvalid hknobs, write_metricsNode hvalid hmetrics]
    simp
  · next hfields =>
      rw [List.singleton_append, Json.write_object (List.cons_ne_nil _ _)
        (by simp [Json.isArray])]
      simp only [List.map_cons, List.map_nil, List.intercalate_cons_cons, List.intercalate_singleton, label_tag,
        write_featuresNode hvalid hfields, write_knobsNode hvalid hknobs,
        write_metricsNode hvalid hmetrics]
      simp

include hvalid hknobs hmetrics in
/-- What is composed is the tree on one line. -/
theorem composeObservation_eq (hcompiles : composerCompiles block = true)
    (hsome : ∀ knob ∈ block.knobs,
      (knobText block observation knob).isSome = true) :
    composeObservation block observation =
      some (Json.write id false 0
        (.node [] (observedRoot block observation))) := by
  have hmembers : (block.knobs.mapM fun knob =>
      (knobText block observation knob).map (member knob.name)) =
      some (block.knobs.map fun knob => member knob.name
        ((knobText block observation knob).getD [])) := by
    rw [mapM_eq_some, List.map_map]
    apply List.map_congr_left
    intro knob hmem
    obtain ⟨text, htext⟩ := Option.isSome_iff_exists.mp (hsome knob hmem)
    simp [htext]
  rw [composeObservation, if_pos hcompiles, hmembers, observedRoot,
    Json.write_object (List.cons_ne_nil _ _) (by rfl)]
  simp only [List.map_cons, List.map_nil, List.intercalate_singleton,
    label_identifier hvalid.name, Json.write_array (Nat.succ_pos _)
      (List.cons_ne_nil _ _), write_observedPoint hvalid hknobs hmetrics]
  simp

end Composed

section Values

theorem mem_values_namedNodes {α : Type} [Named α] {child : α → Ptree}
    {elements : List α} (hsome : elements ≠ []) {data : Text} :
    data ∈ Json.values (namedNodes child elements) ↔
      ∃ a ∈ elements, data ∈ Json.values (child a) :=
  Json.mem_values_map hsome _ _

theorem mem_values_observedNode {metric : MetricModel} {data : Text} :
    data ∈ Json.values (observedNode observation metric) ↔
      data ∈ (observation.metrics metric.name).text ::
        if metric.distribution then ["0".toList] else [] := by
  rw [observedNode]
  split
  · rfl
  · rfl

/-- The values of the tree are the texts. -/
theorem mem_values_observedPoint (hknobs : block.knobs ≠ [])
    (hmetrics : block.metrics ≠ []) {data : Text} :
    data ∈ Json.values (observedPoint block observation) ↔
      data ∈ observedTexts block observation := by
  have hknobsNode : data ∈ Json.values (knobsNode block observation) ↔
      data ∈ block.knobs.map fun knob =>
        (knobText block observation knob).getD [] :=
    Json.mem_values_leaves hknobs _ _
  have hmetricsNode : data ∈ Json.values (metricsNode block observation) ↔
      data ∈ block.metrics.flatMap fun metric =>
        (observation.metrics metric.name).text ::
          if metric.distribution then ["0".toList] else [] := by
    rw [metricsNode, mem_values_namedNodes hmetrics, List.mem_flatMap]
    simp only [mem_values_observedNode]
  have hchildren : (observedPoint block observation).children = _ :=
    present_observedSections
  have hsome : (observedPoint block observation).children ≠ [] := by
    rw [hchildren]
    exact List.append_ne_nil_of_right_ne_nil _ (List.cons_ne_nil _ _)
  rw [Json.mem_values hsome, hchildren, observedTexts, List.append_assoc,
    List.mem_append, List.mem_append, ← hknobsNode, ← hmetricsNode]
  by_cases hfields : block.features.fields = []
  · rw [if_pos hfields, hfields]
    simp only [List.nil_append, List.exists_mem_cons_iff, List.not_mem_nil,
      false_and, exists_false, or_false, List.map_nil, false_or]
  · have hfeaturesNode :
        data ∈ Json.values (featuresNode block observation) ↔
          data ∈ block.features.fields.map fun field =>
            (observation.features field.name).text :=
      Json.mem_values_leaves hfields _ _
    rw [if_neg hfields, ← hfeaturesNode]
    simp only [List.cons_append, List.nil_append, List.exists_mem_cons_iff,
      List.not_mem_nil, false_and, exists_false, or_false]

theorem mem_values_observedRoot (hknobs : block.knobs ≠ [])
    (hmetrics : block.metrics ≠ []) {data : Text} :
    data ∈ Json.valuesOf (observedRoot block observation) ↔
      data ∈ observedTexts block observation := by
  have hsome : (Ptree.array [observedPoint block observation]).children ≠ [] :=
    List.cons_ne_nil _ _
  rw [← mem_values_observedPoint hknobs hmetrics, observedRoot,
    Json.mem_valuesOf]
  simp only [List.mem_singleton, exists_eq_left]
  rw [Json.mem_values hsome]
  simp [Ptree.array, Ptree.children]

theorem plainNodes_namedNodes {α : Type} [Named α] {child : α → Ptree}
    {elements : List α}
    (hplain : ∀ a ∈ elements, Json.plainNodes (child a) = true) :
    Json.plainNodes (namedNodes child elements) = true := by
  apply Json.plainNodes_of_children rfl
  intro node hnode
  obtain ⟨a, hmem, rfl⟩ := List.mem_map.mp hnode
  exact hplain a hmem

theorem plainNodes_observedNode (metric : MetricModel) :
    Json.plainNodes (observedNode observation metric) = true := by
  rw [observedNode]
  split
  · apply Json.plainNodes_of_children rfl
    intro node hnode
    obtain ⟨leaf, hleaf, rfl⟩ := List.mem_map.mp hnode
    simp only [List.mem_cons, List.not_mem_nil, or_false] at hleaf
    rcases hleaf with rfl | rfl
    · exact Json.plainNodes_leaf _
    · exact Json.plainNodes_leaf _
  · exact Json.plainNodes_leaf _

theorem plainNodes_observedPoint :
    Json.plainNodes (observedPoint block observation) = true := by
  apply Json.plainNodes_of_children rfl
  intro node hnode
  obtain ⟨entry, hentry, hsection⟩ := List.mem_filterMap.mp hnode
  obtain ⟨child, hchild, rfl⟩ := Option.map_eq_some_iff.mp hsection
  simp only [observedSections, List.mem_cons, List.not_mem_nil,
    or_false] at hentry
  rcases hentry with rfl | rfl | rfl
  · split at hchild
    · contradiction
    · obtain rfl := Option.some.inj hchild
      exact plainNodes_namedNodes fun _ _ => Json.plainNodes_leaf _
  · obtain rfl := Option.some.inj hchild
    exact plainNodes_namedNodes fun _ _ => Json.plainNodes_leaf _
  · obtain rfl := Option.some.inj hchild
    exact plainNodes_namedNodes fun _ _ => plainNodes_observedNode _

theorem plainChildren_observedRoot :
    Json.plainChildren (observedRoot block observation) = true := by
  rw [Json.plainChildren_iff]
  intro child hchild
  obtain rfl := List.mem_singleton.mp hchild
  apply Json.plainNodes_of_children rfl
  intro node hnode
  obtain rfl := List.mem_singleton.mp hnode
  exact plainNodes_observedPoint

end Values

section Reading

/-- The text is read when all its values are numbers. -/
theorem readJson_observed (hknobs : block.knobs ≠ [])
    (hmetrics : block.metrics ≠ [])
    (hnumbers : ∀ data ∈ observedTexts block observation,
      Json.isNumber data = true) :
    Json.readJson (Json.write id false 0
        (.node [] (observedRoot block observation))) =
      some (.node [] (observedRoot block observation)) := by
  apply Json.readJson_write plainChildren_observedRoot
  intro data hdata
  have htext := (mem_values_observedRoot hknobs hmetrics).mp hdata
  exact Json.reads_of_number rfl (hnumbers data htext)

/-- The text is not read when one of its values is not finite. -/
theorem readJson_observed_eq_none (hknobs : block.knobs ≠ [])
    (hmetrics : block.metrics ≠ [])
    (hspelled : ∀ data ∈ observedTexts block observation,
      Json.isNumber data = true ∨ data ∈ notFinite)
    (hbroken : ∃ data ∈ observedTexts block observation, data ∈ notFinite) :
    Json.readJson (Json.write id false 0
        (.node [] (observedRoot block observation))) = none := by
  apply Json.readJson_write_eq_none plainChildren_observedRoot
  · intro data hdata
    have htext := (mem_values_observedRoot hknobs hmetrics).mp hdata
    rcases hspelled data htext with hnumber | hother
    · exact .inl (Json.reads_of_number rfl hnumber)
    · exact .inr (breaks_notFinite hother)
  · obtain ⟨data, htext, hother⟩ := hbroken
    exact ⟨data, (mem_values_observedRoot hknobs hmetrics).mpr htext,
      breaks_notFinite hother⟩

/-- A section is found under its tag. -/
theorem find_observedSection {tag : Text} {child : Option Ptree}
    (hchild : (observedSections block observation).lookup tag = some child) :
    Ptree.find tag (observedPoint block observation).children = child := by
  apply Ptree.find_present _ hchild
  have hkeys : (observedSections block observation).map Prod.fst =
      ["features".toList, "knobs".toList, "metrics".toList] := rfl
  rw [hkeys]
  decide

theorem parseOpField_leaf {tagName text : Text} {opNode : Ptree}
    (hchild : opNode.getChild? tagName = some (Ptree.leaf text))
    (hsome : text ≠ []) : parseOpField tagName opNode = .ok ⟨text, []⟩ := by
  rw [parseOpField, hchild]
  exact if_pos hsome

theorem parseOpField_observedNode {tagName : Text} {opNode : Ptree}
    {metric : MetricModel}
    (hchild : opNode.getChild? tagName =
      some (observedNode observation metric))
    (hsome : (observation.metrics metric.name).text ≠ []) :
    parseOpField tagName opNode = .ok (observedMetric observation metric) := by
  rw [parseOpField, hchild, observedNode, observedMetric]
  cases metric.distribution with
  | true => exact if_neg hsome
  | false => exact if_pos hsome

theorem ne_nil_of_isNumber {text : Text} (hnumber : Json.isNumber text = true) :
    text ≠ [] := by
  rintro rfl
  contradiction

/-- Every name of a section has its node. -/
theorem getChild_namedNodes {α : Type} [Named α] {child : α → Ptree}
    {elements : List α} {tag : Text} {point : Ptree}
    (hfound : Ptree.find tag point.children = some (namedNodes child elements))
    (htag : '.' ∉ tag) (hnodup : (elements.map Named.name).Nodup) {a : α}
    (hmem : a ∈ elements) (hname : isValidIdentifier (Named.name a) = true) :
    point.getChild? (tag ++ '.' :: Named.name a) = some (child a) := by
  rw [Ptree.getChild?_field htag (isValidIdentifier_ne_nil hname)
    (dot_not_mem hname), hfound]
  exact Ptree.find_map Named.name child hnodup hmem

theorem parseOperatingPoint_observed {description : BlockModel}
    (hvalid : ValidBlock block) (hcompiles : parserCompiles block = true)
    (hfields : description.features.fields ⊆ block.features.fields)
    (hknobs : description.knobs ⊆ block.knobs)
    (hmetrics : description.metrics ⊆ block.metrics)
    (hnumbers : ∀ data ∈ observedTexts block observation,
      Json.isNumber data = true) :
    parseOperatingPoint description (observedPoint block observation) =
      .ok (readPoint block observation description) := by
  obtain ⟨hnodupFields, hnodupKnobs, hnodupMetrics⟩ :=
    nodup_fieldNames hcompiles
  simp only [observedTexts, List.forall_mem_append, List.forall_mem_map,
    List.forall_mem_flatMap, List.forall_mem_cons] at hnumbers
  obtain ⟨⟨hfeatureTexts, hknobTexts⟩, hmetricTexts⟩ := hnumbers
  have hfeatures : ∀ field ∈ description.features.fields,
      parseOpField ("features.".toList ++ field.name)
        (observedPoint block observation) =
          .ok ⟨(observation.features field.name).text, []⟩ := by
    intro field hmem
    have hblock := hfields hmem
    have hfound : Ptree.find "features".toList
        (observedPoint block observation).children =
          some (featuresNode block observation) := by
      rw [find_observedSection rfl, if_neg (List.ne_nil_of_mem hblock)]
    exact parseOpField_leaf (getChild_namedNodes hfound (by decide)
        hnodupFields hblock (hvalid.features field hblock).name)
      (ne_nil_of_isNumber (hfeatureTexts field hblock))
  have hknobValues : ∀ knob ∈ description.knobs,
      parseOpField ("knobs.".toList ++ knob.name)
        (observedPoint block observation) =
          .ok ⟨(knobText block observation knob).getD [], []⟩ := by
    intro knob hmem
    have hblock := hknobs hmem
    have hfound : Ptree.find "knobs".toList
        (observedPoint block observation).children =
          some (knobsNode block observation) := find_observedSection rfl
    exact parseOpField_leaf (getChild_namedNodes hfound (by decide)
        hnodupKnobs hblock (hvalid.knobs knob hblock).name)
      (ne_nil_of_isNumber (hknobTexts knob hblock))
  have hmetricValues : ∀ metric ∈ description.metrics,
      parseOpField ("metrics.".toList ++ metric.name)
        (observedPoint block observation) =
          .ok (observedMetric observation metric) := by
    intro metric hmem
    have hblock := hmetrics hmem
    have hfound : Ptree.find "metrics".toList
        (observedPoint block observation).children =
          some (metricsNode block observation) := find_observedSection rfl
    exact parseOpField_observedNode (getChild_namedNodes hfound (by decide)
        hnodupMetrics hblock (hvalid.metrics metric hblock).name)
      (ne_nil_of_isNumber (hmetricTexts metric hblock).1)
  rw [parseOperatingPoint, mapM_ok hfeatures, mapM_ok hknobValues,
    mapM_ok hmetricValues]
  rfl

end Reading

end Tree

end Margot.Heel
