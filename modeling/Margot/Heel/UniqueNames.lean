/-
The names of an accepted application: they are sorted when they are parsed,
those that are missing are filled in when they are validated, and then only
neighbours are compared.
-/
import Margot.Library.Naming
import Margot.Heel.ParsedBlock

namespace Margot.Heel

/-- The names of a block do not repeat. -/
structure UniqueInBlock (block : BlockModel) : Prop where
  monitors : (block.monitors.map (·.name)).Nodup
  knobs : (block.knobs.map (·.name)).Nodup
  features : (block.features.fields.map (·.name)).Nodup
  metrics : (block.metrics.map (·.name)).Nodup
  states : (block.states.map (·.name)).Nodup

/-- The names of an application do not repeat. -/
structure UniqueNames (app : ApplicationModel) : Prop where
  blocks : (app.blocks.map (·.name)).Nodup
  within : ∀ block ∈ app.blocks, UniqueInBlock block

/-- The name of an element without a name. -/
def defaultName (what : Text) (counter : Nat) : Text :=
  what ++ "_".toList ++ numeral (counter + 1)

/-- No name is the default name of an element without a name. -/
def FreeDefaults (what : String) (names : List Text) : Prop :=
  Naming.DefaultsFree [] (defaultName what.toList) names

/-- The names of a block as it is parsed leave the default names free, and those
of the states, which are not sorted, do not repeat. -/
structure FreeInBlock (block : BlockModel) : Prop where
  monitors : FreeDefaults "monitor" (block.monitors.map (·.name))
  knobs : FreeDefaults "knob" (block.knobs.map (·.name))
  features : FreeDefaults "feature" (block.features.fields.map (·.name))
  metrics : FreeDefaults "metric" (block.metrics.map (·.name))
  states : FreeDefaults "state" (block.states.map (·.name))
  given : Naming.GivenDiffer [] (block.states.map (·.name))

structure FreeNames (model : ApplicationModel) : Prop where
  blocks : FreeDefaults "block" (model.blocks.map (·.name))
  within : ∀ block ∈ model.blocks, FreeInBlock block

section Defaults

theorem defaultName_ne_nil (what : Text) (counter : Nat) :
    defaultName what counter ≠ [] := by
  simp [defaultName]

theorem defaultName_injective (what : Text) :
    Function.Injective (defaultName what) := by
  intro m n hsame
  have hnumerals := List.append_cancel_left hsame
  exact Nat.succ_injective (numeral_injective hnumerals)

end Defaults

section Containers

/-- A renamed model has the new name. -/
class LawfulNamed (α : Type) [Named α] : Prop where
  name_rename : ∀ (name : Text) (element : α),
    Named.name (Named.rename name element) = name

instance : LawfulNamed MonitorModel := ⟨fun _ _ => rfl⟩

instance : LawfulNamed KnobModel := ⟨fun _ _ => rfl⟩

instance : LawfulNamed MetricModel := ⟨fun _ _ => rfl⟩

instance : LawfulNamed FeatureModel := ⟨fun _ _ => rfl⟩

instance : LawfulNamed StateModel := ⟨fun _ _ => rfl⟩

instance : LawfulNamed BlockModel := ⟨fun _ _ => rfl⟩

variable {α : Type} [Named α] {container named : List α} {what : Text}

theorem name_setName [LawfulNamed α] (counter : Nat) (element : α) :
    Named.name (setName what counter element) =
      Naming.fill [] (defaultName what) counter (Named.name element) := by
  rw [setName, Naming.fill]
  split
  · exact LawfulNamed.name_rename _ _
  · rfl

theorem map_name_setNames [LawfulNamed α] :
    (setNames container what).map Named.name =
      Naming.filled [] (defaultName what) (container.map Named.name) := by
  apply List.ext_getElem?
  intro counter
  rw [Naming.getElem?_filled, List.getElem?_map, List.getElem?_map, setNames,
    List.getElem?_mapIdx, Option.map_map, Option.map_map]
  congr 1
  funext element
  exact name_setName counter element

theorem noNeighbours_iff :
    noNeighbours container = true ↔
      (container.map Named.name).IsChain (· ≠ ·) := by
  induction container with
  | nil => simp [noNeighbours]
  | cons a rest ih =>
      cases rest with
      | nil => simp [noNeighbours]
      | cons b rest =>
          rw [noNeighbours, Bool.and_eq_true, ih, decide_eq_true_iff]
          simp only [List.map_cons, List.isChain_cons_cons]

/-- The names that are accepted are the filled ones. -/
theorem checkUniqueness_eq_ok [LawfulNamed α]
    (hunique : checkUniqueness container what = .ok named) :
    named.map Named.name =
        Naming.filled [] (defaultName what) (container.map Named.name) ∧
      (named.map Named.name).IsChain (· ≠ ·) := by
  simp only [checkUniqueness, bind_eq_ok, require_eq_ok, pure_eq_ok] at hunique
  obtain ⟨-, hneighbours, rfl⟩ := hunique
  exact ⟨map_name_setNames, noNeighbours_iff.mp hneighbours⟩

/-- The names after the validation are the filled ones, and only neighbours have
been compared. -/
structure AcceptedNames (what : String) (container validated : List α) : Prop where
  names : validated.map Named.name =
    Naming.filled [] (defaultName what.toList) (container.map Named.name)
  neighbours : (validated.map Named.name).IsChain (· ≠ ·)

theorem acceptedNames_of_check [LawfulNamed α] {what : String}
    {validated : List α}
    (hunique : checkUniqueness container what.toList = .ok named)
    (hnames : validated.map Named.name = named.map Named.name) :
    AcceptedNames what container validated := by
  obtain ⟨hfilled, hneighbours⟩ := checkUniqueness_eq_ok hunique
  exact ⟨hnames.trans hfilled, hnames ▸ hneighbours⟩

/-- The names differ exactly when the given ones do and leave the default ones
free. -/
theorem AcceptedNames.nodup_iff {what : String} {validated : List α}
    (haccepted : AcceptedNames what container validated) :
    (validated.map Named.name).Nodup ↔
      Naming.GivenDiffer [] (container.map Named.name) ∧
        FreeDefaults what (container.map Named.name) := by
  rw [haccepted.names]
  exact Naming.nodup_filled_iff (defaultName_injective _)
    (defaultName_ne_nil _)

/-- Where the names have been sorted, the given ones differ. -/
theorem AcceptedNames.nodup_iff_of_sorted {what : String} {validated : List α}
    (haccepted : AcceptedNames what container validated)
    (hsorted : (container.map Named.name).Pairwise (· ≤ ·)) :
    (validated.map Named.name).Nodup ↔
      FreeDefaults what (container.map Named.name) := by
  have hneighbours := haccepted.neighbours
  rw [haccepted.names] at hneighbours
  rw [haccepted.nodup_iff]
  exact and_iff_right (Naming.givenDiffer_of_sorted hsorted hneighbours)

end Containers

section Validated

theorem name_validateMonitor (model monitor : MonitorModel)
    (hmonitor : validateMonitor model = .ok monitor) :
    Named.name monitor = Named.name model := by
  simp only [validateMonitor, bind_eq_ok, require_eq_ok, pure_eq_ok] at hmonitor
  obtain ⟨-, -, spec, -, initialization, -, start, -, stop, -, -, -, -, -,
    rfl⟩ := hmonitor
  rfl

theorem name_validateKnob (model knob : KnobModel)
    (hknob : validateKnob model = .ok knob) :
    Named.name knob = Named.name model := by
  simp only [validateKnob, bind_eq_ok, require_eq_ok, pure_eq_ok] at hknob
  obtain ⟨-, -, type, -, -, -, -, -, rfl⟩ := hknob
  rfl

theorem name_validateMetric (monitors : List MonitorModel)
    (model metric : MetricModel)
    (hmetric : validateMetric monitors model = .ok metric) :
    Named.name metric = Named.name model := by
  simp only [validateMetric, bind_eq_ok, require_eq_ok, pure_eq_ok] at hmetric
  obtain ⟨-, -, type, -, -, -, -, -, -, -, -, -, -, -, rfl⟩ := hmetric
  rfl

theorem name_validateFeature (model field : FeatureModel)
    (hfield : validateFeature model = .ok field) :
    Named.name field = Named.name model := by
  simp only [validateFeature, bind_eq_ok, require_eq_ok, pure_eq_ok] at hfield
  obtain ⟨type, -, -, -, -, -, rfl⟩ := hfield
  rfl

theorem names_validateFeatures {model features : FeaturesModel}
    (hfeatures : validateFeatures model = .ok features) :
    features.fields.map Named.name = model.fields.map Named.name := by
  rw [validateFeatures] at hfeatures
  split at hfeatures
  · simp only [bind_eq_ok, pure_eq_ok] at hfeatures
    obtain ⟨-, -, rfl⟩ := hfeatures
    rfl
  · simp only [bind_eq_ok, pure_eq_ok] at hfeatures
    obtain ⟨-, -, fields, hfields, rfl⟩ := hfeatures
    exact map_of_mapM hfields name_validateFeature

theorem name_validateState (metrics : List MetricModel) (knobs : List KnobModel)
    (model state : StateModel)
    (hstate : validateState metrics knobs model = .ok state) :
    Named.name state = Named.name model := by
  simp only [validateState, bind_eq_ok, require_eq_ok, pure_eq_ok] at hstate
  obtain ⟨-, -, -, -, -, -, -, -, fields, -, constraints, -, rankFields, -,
    subjects, -, rfl⟩ := hstate
  rfl

/-- The names of a block after the validation. -/
structure NamedBlock (model block : BlockModel) : Prop where
  name : block.name = model.name
  monitors : AcceptedNames "monitor" model.monitors block.monitors
  knobs : AcceptedNames "knob" model.knobs block.knobs
  features : AcceptedNames "feature" model.features.fields block.features.fields
  metrics : AcceptedNames "metric" model.metrics block.metrics
  states : AcceptedNames "state" model.states block.states

theorem namedBlock_of_validate {model block : BlockModel}
    (hblock : validateBlock model = .ok block) : NamedBlock model block := by
  simp only [validateBlock, validateBlockBy, bind_eq_ok, require_eq_ok,
    pure_eq_ok] at hblock
  obtain ⟨-, -, monitors, hmonitors, knobs, hknobs, fields, hfields, metrics,
    hmetrics, states, hstates, -, -, monitors', hmonitors', knobs', hknobs',
    metrics', hmetrics', features, hfeatures, -, -, states', hstates', -, -, -,
    -, -, -, -, -, rfl⟩ := hblock
  constructor
  · rfl
  · apply acceptedNames_of_check hmonitors
    exact map_of_mapM hmonitors' name_validateMonitor
  · apply acceptedNames_of_check hknobs
    exact map_of_mapM hknobs' name_validateKnob
  · apply acceptedNames_of_check hfields
    exact names_validateFeatures hfeatures
  · apply acceptedNames_of_check hmetrics
    exact map_of_mapM hmetrics' (name_validateMetric monitors')
  · apply acceptedNames_of_check hstates
    exact map_of_mapM hstates' (name_validateState metrics' knobs')

end Validated

section Parsed

/-- The parser sorts all the names of a block but those of the states. -/
structure SortedBlock (block : BlockModel) : Prop where
  monitors : (block.monitors.map Named.name).Pairwise (· ≤ ·)
  knobs : (block.knobs.map Named.name).Pairwise (· ≤ ·)
  features : (block.features.fields.map Named.name).Pairwise (· ≤ ·)
  metrics : (block.metrics.map Named.name).Pairwise (· ≤ ·)

variable {sorter : NameSort}
  {computeRange : Ptree → Text → Checked (List Text)}

theorem sortedBlock_of_parse {node : Ptree} {block : BlockModel}
    (hparse : parseBlock sorter computeRange node = .ok block) :
    SortedBlock block := by
  simp only [parseBlock, bind_eq_ok, pure_eq_ok] at hparse
  obtain ⟨knobs, -, metrics, -, distance, -, fields, -, states, -, rfl⟩ := hparse
  exact ⟨sorter.sorted _ _, sorter.sorted _ _, sorter.sorted _ _,
    sorter.sorted _ _⟩

theorem sorted_of_parseApplication {node : Ptree} {model : ApplicationModel}
    (hparse : parseApplication sorter computeRange node = .ok model) :
    (model.blocks.map Named.name).Pairwise (· ≤ ·) ∧
      ∀ block ∈ model.blocks, SortedBlock block := by
  simp only [parseApplication, bind_eq_ok, pure_eq_ok] at hparse
  obtain ⟨blocks, hblocks, rfl⟩ := hparse
  refine ⟨sorter.sorted _ _, fun block hmem => ?_⟩
  have hparsed : block ∈ blocks := (sorter.perm _ _).mem_iff.mp hmem
  obtain ⟨element, -, hblock⟩ := exists_of_mem_mapM hblocks hparsed
  exact sortedBlock_of_parse hblock

end Parsed

section Unique

theorem uniqueInBlock_iff {model block : BlockModel}
    (hsorted : SortedBlock model) (hnamed : NamedBlock model block) :
    UniqueInBlock block ↔ FreeInBlock model := by
  have hmonitors := hnamed.monitors.nodup_iff_of_sorted hsorted.monitors
  have hknobs := hnamed.knobs.nodup_iff_of_sorted hsorted.knobs
  have hfeatures := hnamed.features.nodup_iff_of_sorted hsorted.features
  have hmetrics := hnamed.metrics.nodup_iff_of_sorted hsorted.metrics
  have hstates := hnamed.states.nodup_iff
  constructor
  · rintro ⟨uniqueMonitors, uniqueKnobs, uniqueFeatures, uniqueMetrics,
      uniqueStates⟩
    exact ⟨hmonitors.mp uniqueMonitors, hknobs.mp uniqueKnobs,
      hfeatures.mp uniqueFeatures, hmetrics.mp uniqueMetrics,
      (hstates.mp uniqueStates).2, (hstates.mp uniqueStates).1⟩
  · intro hfree
    exact ⟨hmonitors.mpr hfree.monitors, hknobs.mpr hfree.knobs,
      hfeatures.mpr hfree.features, hmetrics.mpr hfree.metrics,
      hstates.mpr ⟨hfree.given, hfree.states⟩⟩

/-- A block is renamed without touching its sections. -/
theorem sections_setName (what : Text) (counter : Nat) (block : BlockModel) :
    (SortedBlock (setName what counter block) ↔ SortedBlock block) ∧
      (FreeInBlock (setName what counter block) ↔ FreeInBlock block) := by
  rw [setName]
  split
  · constructor
    · constructor
      · rintro ⟨monitors, knobs, features, metrics⟩
        exact ⟨monitors, knobs, features, metrics⟩
      · rintro ⟨monitors, knobs, features, metrics⟩
        exact ⟨monitors, knobs, features, metrics⟩
    · constructor
      · rintro ⟨monitors, knobs, features, metrics, states, given⟩
        exact ⟨monitors, knobs, features, metrics, states, given⟩
      · rintro ⟨monitors, knobs, features, metrics, states, given⟩
        exact ⟨monitors, knobs, features, metrics, states, given⟩
  · exact ⟨Iff.rfl, Iff.rfl⟩

theorem forall_mem_setNames {what : Text} {blocks : List BlockModel}
    {P : BlockModel → Prop}
    (hsame : ∀ counter block, P (setName what counter block) ↔ P block) :
    (∀ block ∈ setNames blocks what, P block) ↔ ∀ block ∈ blocks, P block := by
  constructor
  · intro hall block hmem
    obtain ⟨counter, hcounter⟩ := List.mem_iff_getElem?.mp hmem
    apply (hsame counter block).mp
    apply hall
    apply List.mem_of_getElem? (i := counter)
    rw [setNames, List.getElem?_mapIdx, hcounter, Option.map_some]
  · intro hall block hmem
    obtain ⟨counter, hcounter, rfl⟩ := List.mem_mapIdx.mp hmem
    exact (hsame counter _).mpr (hall _ (List.getElem_mem hcounter))

/-- An accepted application has unique names exactly when no name is the default
name of an element without one and no two states have been given one name. -/
theorem uniqueNames_iff {sorter : NameSort}
    {computeRange : Ptree → Text → Checked (List Text)} {node : Ptree}
    {model app : ApplicationModel}
    (hparse : parseApplication sorter computeRange node = .ok model)
    (hvalid : validate model = .ok app) :
    UniqueNames app ↔ FreeNames model := by
  obtain ⟨hsorted, hblocks⟩ := sorted_of_parseApplication hparse
  simp only [validate, bind_eq_ok, require_eq_ok, pure_eq_ok] at hvalid
  obtain ⟨-, -, named, hnamed, validated, hvalidated, rfl⟩ := hvalid
  have hnames := map_of_mapM hvalidated fun model block hblock =>
    (namedBlock_of_validate hblock).name
  have haccepted : AcceptedNames "block" model.blocks validated :=
    acceptedNames_of_check hnamed hnames
  have hnodup := haccepted.nodup_iff_of_sorted hsorted
  simp only [checkUniqueness, bind_eq_ok, require_eq_ok, pure_eq_ok] at hnamed
  obtain ⟨-, -, rfl⟩ := hnamed
  have hsortedNamed := (forall_mem_setNames fun counter block =>
    (sections_setName "block".toList counter block).1).mpr hblocks
  have hwithin : (∀ block ∈ validated, UniqueInBlock block) ↔
      ∀ block ∈ setNames model.blocks "block".toList, FreeInBlock block := by
    have hall := (List.forall₂_and_left _ _).mpr
      ⟨hsortedNamed, mapM_eq_ok.mp hvalidated⟩
    apply forall_mem_iff_of_forall₂ hall
    rintro model block ⟨hsorted, hblock⟩
    exact uniqueInBlock_iff hsorted (namedBlock_of_validate hblock)
  rw [forall_mem_setNames fun counter block =>
    (sections_setName "block".toList counter block).2] at hwithin
  constructor
  · intro hunique
    exact ⟨hnodup.mp hunique.blocks, hwithin.mp hunique.within⟩
  · intro hfree
    exact ⟨hnodup.mpr hfree.blocks, hwithin.mpr hfree.within⟩

end Unique

namespace Sample

/-- A sort that can be evaluated in proofs. -/
def insertionSort : NameSort where
  sort := fun name elements =>
    elements.insertionSort fun a b => name a ≤ name b
  perm := fun _ elements => elements.perm_insertionSort _
  sorted := by
    intro α name elements
    let before : α → α → Prop := fun a b => name a ≤ name b
    have htotal : Std.Total before := ⟨fun a b => le_total (name a) (name b)⟩
    have htrans : IsTrans α before := ⟨fun _ _ _ => le_trans⟩
    exact List.pairwise_map.mpr (elements.pairwise_insertionSort before)

def namedNode (name : String) : Ptree :=
  .node [] [("name".toList, .leaf name.toList),
    ("type".toList, .leaf "int".toList)]

/-- An application of one block with one metric, as a user writes it. -/
def namesNode (knobs states : List String) : Ptree :=
  .node [] [("blocks".toList, .array [.node [] [
    ("name".toList, .leaf "kernel".toList),
    ("knobs".toList, .array (knobs.map namedNode)),
    ("metrics".toList, .array [namedNode "latency"]),
    ("extra-functional_requirements".toList,
      .array (states.map namedNode))]])]

def namesBlock (type : String) (knobs states : List String) : BlockModel :=
  { BlockModel.initial with
    name := "kernel".toList
    knobs := knobs.map fun name => ⟨name.toList, type.toList, []⟩
    metrics := [⟨"latency".toList, type.toList, false, [], [], 0, []⟩]
    states := states.map fun name => ⟨name.toList, .none, .none, [], []⟩ }

def parsedNames (knobs states : List String) : ApplicationModel :=
  ⟨[], [], [namesBlock "int" knobs states]⟩

def validNames (knobs states : List String) : ApplicationModel :=
  ⟨"foo".toList, "1.0".toList, [{ namesBlock "int32_t" knobs states with
    knobsSegmentType := "int32_t".toList
    metricsSegmentType := "int32_t".toList }]⟩

theorem uniqueNames_iff_default :
    UniqueNames (validNames ["knob_1", "a"] ["t", "s"]) ↔
      FreeNames (parsedNames ["", "a"] ["t", "s"]) := by
  have hparse : parseApplication insertionSort (fun _ _ => .ok [])
      (namesNode ["a", ""] ["t", "s"]) =
        .ok (parsedNames ["", "a"] ["t", "s"]) := by
    decide +kernel
  exact uniqueNames_iff hparse (by decide +kernel)

/-- The default name of the first knob is the name of the last one. -/
theorem not_uniqueNames_default :
    ¬ ∀ sorter computeRange node model app,
      parseApplication sorter computeRange node = .ok model →
        validate model = .ok app → UniqueNames app := by
  intro hall
  have hparse : parseApplication insertionSort (fun _ _ => .ok [])
      (namesNode ["", "a", "knob_1"] []) =
        .ok (parsedNames ["", "a", "knob_1"] []) := by
    decide +kernel
  have hvalid : validate (parsedNames ["", "a", "knob_1"] []) =
      .ok (validNames ["knob_1", "a", "knob_1"] []) := by
    decide +kernel
  have hunique := hall _ _ _ _ _ hparse hvalid
  have hblock := hunique.within _ List.mem_cons_self
  exact absurd hblock.knobs (by decide)

end Sample

end Margot.Heel
