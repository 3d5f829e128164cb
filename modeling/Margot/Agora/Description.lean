/-
The storage of the descriptions in tables of comma-separated values, and what
is left of a description that is stored and loaded.  The parameters of a metric
have a file of their own, which is written only if there are any.
-/
import Margot.Library.Csv
import Margot.Heel.Validate

namespace Margot.Agora

open Heel Csv

/-- The files in the directory of an application. -/
abbrev Folder := Text → Option Text

def Folder.store (folder : Folder) (name content : Text) : Folder :=
  Function.update folder name (some content)

def knobsName : Text := "knobs.csv".toList

def featuresName : Text := "features.csv".toList

def metricsName : Text := "metrics.csv".toList

def propertiesName : Text := "agora_properties.csv".toList

def doeParametersName : Text := "doe_parameters.csv".toList

def modelParametersName (metric : Text) : Text :=
  metric ++ "_model_parameters.csv".toList

def clusteringParametersName : Text := "clustering_parameters.csv".toList

section Store

/-- The values one after the other; there has to be a first one. -/
def joinValues : List Text → Option Text
  | [] => none
  | first :: rest => some (first ++ rest.flatMap (';' :: ·))

def knobCells (knob : KnobModel) : Option (List Cell) :=
  (joinValues knob.values).map fun values =>
    [.plain knob.name, .plain knob.type, .plain values]

def metricCells (metric : MetricModel) : List Cell :=
  [.plain metric.name, .plain metric.type, .plain metric.predictionPlugin]

def featureCells (field : FeatureModel) : List Cell :=
  [.plain field.name, .plain field.type]

def parameterCells (param : PairProperty) : List Cell :=
  [.plain param.key, .quoted param.value]

def settings (agora : AgoraModel) : List (Text × Text) :=
  [("doe_plugin".toList, agora.doePlugin),
    ("clustering_plugin".toList, agora.clusteringPlugin),
    ("number_configurations_per_iteration".toList,
      agora.numberConfigurationsPerIteration),
    ("number_observations_per_configuration".toList,
      agora.numberObservationsPerConfiguration),
    ("max_number_iteration".toList, agora.maxNumberIteration)]

def settingCells (setting : Text × Text) : List Cell :=
  [.plain setting.1, .plain setting.2]

def knobsHeader : List Text := ["name".toList, "type".toList, "values".toList]

def metricsHeader : List Text :=
  ["name".toList, "type".toList, "prediction".toList]

def featuresHeader : List Text := ["name".toList, "type".toList]

def propertiesHeader : List Text := ["property_name".toList, "value".toList]

def parametersHeader : List Text := ["parameter_name".toList, "value".toList]

def parametersTable (parameters : List PairProperty) : Text :=
  table parametersHeader (parameters.map parameterCells)

/-- A file is written only for a metric that has parameters. -/
def storeModelParameters (folder : Folder) (metric : MetricModel) : Folder :=
  if metric.predictionParameters = [] then folder
  else folder.store (modelParametersName metric.name)
    (parametersTable metric.predictionParameters)

/-- `CsvDescriptionStorage::store_description`, which asks every knob for its
first value. -/
def storeDescription (folder : Folder) (description : BlockModel) :
    Option Folder := do
  let knobs ← description.knobs.mapM knobCells
  let folder := folder.store knobsName (table knobsHeader knobs)
  let folder := folder.store metricsName
    (table metricsHeader (description.metrics.map metricCells))
  let folder := folder.store featuresName
    (table featuresHeader (description.features.fields.map featureCells))
  let folder := folder.store propertiesName
    (table propertiesHeader ((settings description.agora).map settingCells))
  let folder := description.metrics.foldl storeModelParameters folder
  let folder := folder.store doeParametersName
    (parametersTable description.agora.doeParameters)
  return folder.store clusteringParametersName
    (parametersTable description.agora.clusteringParameters)

end Store

section Load

inductive AgoraSettingType where
  | numberConfigPerIter
  | numberObsPerConfig
  | maxNumberIter
  | storageType
  | storageAddress
  | storageUsername
  | storagePassword
  | doePlugin
  | clusteringPlugin
  | invalidSetting
deriving Repr, DecidableEq

def settingTypes : List (String × AgoraSettingType) :=
  [("number_configurations_per_iteration", .numberConfigPerIter),
    ("number_observations_per_configuration", .numberObsPerConfig),
    ("max_number_iteration", .maxNumberIter),
    ("storage_type", .storageType),
    ("storage_address", .storageAddress),
    ("storage_username", .storageUsername),
    ("storage_password", .storagePassword),
    ("doe_plugin", .doePlugin),
    ("clustering_plugin", .clusteringPlugin)]

def resolveSettingType (input : Text) : AgoraSettingType :=
  match settingTypes.find? fun known => known.1.toList = input with
  | some known => known.2
  | none => .invalidSetting

def assignSetting (agora : AgoraModel) (name value : Text) : AgoraModel :=
  match resolveSettingType name with
  | .numberConfigPerIter =>
      { agora with numberConfigurationsPerIteration := value }
  | .numberObsPerConfig =>
      { agora with numberObservationsPerConfiguration := value }
  | .maxNumberIter => { agora with maxNumberIteration := value }
  | .doePlugin => { agora with doePlugin := value }
  | .clusteringPlugin => { agora with clusteringPlugin := value }
  | _ => agora

/-- The pieces that `std::getline` gives: none after a separator at the end. -/
def splitValues (values : Text) : List Text :=
  let pieces := values.splitOn ';'
  if pieces.getLast? = some [] then pieces.dropLast else pieces

def readKnob (row : Row) : Checked KnobModel := do
  let name ← get "name".toList row
  let type ← get "type".toList row
  let values ← get "values".toList row
  return ⟨name, type, splitValues values⟩

def readFeature (row : Row) : Checked FeatureModel := do
  let name ← get "name".toList row
  let type ← get "type".toList row
  return ⟨name, type, .lessOrEqual⟩

def readMetric (row : Row) : Checked MetricModel := do
  let name ← get "name".toList row
  let type ← get "type".toList row
  let predictor ← get "prediction".toList row
  return ⟨name, type, false, predictor, [], 0, []⟩

def readSetting (row : Row) : Checked (Text × Text) := do
  let name ← get "property_name".toList row
  let value ← get "value".toList row
  return (name, value)

def readParameter (row : Row) : Checked PairProperty := do
  let key ← get "parameter_name".toList row
  let value ← get "value".toList row
  return ⟨key, value⟩

/-- The elements of the rows up to the first one that throws, and whether there
is one. -/
def readRows {α : Type} (read : Row → Checked α) : List Row → List α × Bool
  | [] => ([], true)
  | row :: rest =>
      match read row with
      | .ok element => ((readRows read rest).map (element :: ·) id)
      | .error _ => ([], false)

/-- What is read of a file before anything throws. -/
def readTable {α : Type} (reader : Reader) (folder : Folder) (name : Text)
    (read : Row → Checked α) : List α × Bool :=
  match folder name with
  | none => ([], false)
  | some content =>
      match reader.read content with
      | .ok rows => readRows read rows
      | .error _ => ([], false)

def withParameters (metric : MetricModel) (parameters : List PairProperty) :
    MetricModel :=
  { metric with predictionParameters := parameters }

/-- The parameters are read for one metric after the other. -/
def loadModelParameters (reader : Reader) (folder : Folder) :
    List MetricModel → List MetricModel × Bool
  | [] => ([], true)
  | metric :: rest =>
      let (parameters, complete) := readTable reader folder
        (modelParametersName metric.name) readParameter
      if complete then
        (loadModelParameters reader folder rest).map
          (withParameters metric parameters :: ·) id
      else (withParameters metric parameters :: rest, false)

/-- A step of the loading, and whether it comes to its end. -/
abbrev Step := BlockModel → BlockModel × Bool

def loadKnobs (reader : Reader) (folder : Folder) : Step := fun description =>
  (readTable reader folder knobsName readKnob).map
    (fun knobs => { description with knobs := knobs }) id

def loadFeatures (reader : Reader) (folder : Folder) : Step :=
  fun description =>
    (readTable reader folder featuresName readFeature).map
      (fun fields => { description with
        features := { description.features with fields := fields } }) id

def loadMetrics (reader : Reader) (folder : Folder) : Step :=
  fun description =>
    (readTable reader folder metricsName readMetric).map
      (fun metrics => { description with metrics := metrics }) id

def loadProperties (reader : Reader) (folder : Folder) : Step :=
  fun description =>
    (readTable reader folder propertiesName readSetting).map
      (fun properties => { description with
        agora := properties.foldl (fun agora setting =>
          assignSetting agora setting.1 setting.2) description.agora }) id

def loadModels (reader : Reader) (folder : Folder) : Step := fun description =>
  (loadModelParameters reader folder description.metrics).map
    (fun metrics => { description with metrics := metrics }) id

def loadDoe (reader : Reader) (folder : Folder) : Step := fun description =>
  (readTable reader folder doeParametersName readParameter).map
    (fun parameters => { description with
      agora := { description.agora with doeParameters := parameters } }) id

def loadClustering (reader : Reader) (folder : Folder) : Step :=
  fun description =>
    (readTable reader folder clusteringParametersName readParameter).map
      (fun parameters => { description with
        agora := { description.agora with
          clusteringParameters := parameters } }) id

/-- What throws ends the loading, and the description is as it is by then. -/
def runSteps : List Step → BlockModel → BlockModel
  | [], description => description
  | step :: rest, description =>
      if (step description).2 then runSteps rest (step description).1
      else (step description).1

/-- `CsvDescriptionStorage::load_description` -/
def loadDescription (reader : Reader) (folder : Folder) (blockName : Text) :
    BlockModel :=
  runSteps [loadKnobs reader folder, loadFeatures reader folder,
    loadMetrics reader folder, loadProperties reader folder,
    loadModels reader folder, loadDoe reader folder,
    loadClustering reader folder] { BlockModel.initial with name := blockName }

end Load

/-- The loaded description says the same of what is stored. -/
structure SameDescription (loaded stored : BlockModel) : Prop where
  knobs : loaded.knobs = stored.knobs
  features : (loaded.features.fields.map fun field => (field.name, field.type)) =
    stored.features.fields.map fun field => (field.name, field.type)
  metrics :
    (loaded.metrics.map fun metric => (metric.name, metric.type,
      metric.predictionPlugin, metric.predictionParameters)) =
    stored.metrics.map fun metric => (metric.name, metric.type,
      metric.predictionPlugin, metric.predictionParameters)
  settings : settings loaded.agora = settings stored.agora
  doeParameters : loaded.agora.doeParameters = stored.agora.doeParameters
  clusteringParameters :
    loaded.agora.clusteringParameters = stored.agora.clusteringParameters

/-- The description is stored, and loaded as the same. -/
def LoadsBack (reader : Reader) (folder : Folder) (block : BlockModel) : Prop :=
  ∃ stored, storeDescription folder block = some stored ∧
    SameDescription (loadDescription reader stored block.name) block

/-- A string that can stand in a list of values. -/
def Storable (text : Text) : Prop := Clean text ∧ ';' ∉ text

instance (text : Text) : Decidable (Storable text) :=
  inferInstanceAs (Decidable (_ ∧ _))

/-- The strings of a description that are stored. -/
def storedTexts (block : BlockModel) : List Text :=
  (block.knobs.flatMap fun knob => knob.name :: knob.type :: knob.values) ++
  (block.metrics.flatMap fun metric =>
    metric.name :: metric.type :: metric.predictionPlugin ::
      metric.predictionParameters.flatMap fun param =>
        [param.key, param.value]) ++
  (block.features.fields.flatMap fun field => [field.name, field.type]) ++
  (settings block.agora).map Prod.snd ++
  (block.agora.doeParameters ++ block.agora.clusteringParameters).flatMap
    fun param => [param.key, param.value]

section Condition

/-- The last metric of the name that has parameters. -/
def lastWithParameters (metrics : List MetricModel) (name : Text) :
    Option MetricModel :=
  metrics.reverse.find? fun metric =>
    metric.name = name ∧ metric.predictionParameters ≠ []

/-- The parameters in the file of a metric after the storing, and whether it is
read to its end: those of the last metric of the name that has any, or what was
there before. -/
def foundParameters (reader : Reader) (folder : Folder)
    (metrics : List MetricModel) (name : Text) : List PairProperty × Bool :=
  match lastWithParameters metrics name with
  | some metric => (metric.predictionParameters, true)
  | none => readTable reader folder (modelParametersName name) readParameter

/-- Every metric finds its own parameters, up to a file that is missing; then
there are no other parameters. -/
def ParametersFound (found : Text → List PairProperty × Bool)
    (agora : AgoraModel) : List MetricModel → Prop
  | [] => True
  | metric :: rest =>
      (found metric.name).1 = metric.predictionParameters ∧
        if (found metric.name).2 then ParametersFound found agora rest
        else (∀ later ∈ rest, later.predictionParameters = []) ∧
          agora.doeParameters = [] ∧ agora.clusteringParameters = []

/-- The condition under which a description is loaded as it was stored. -/
def Retrievable (reader : Reader) (folder : Folder) (block : BlockModel) :
    Prop :=
  (∀ knob ∈ block.knobs, knob.values.getLast? ≠ some []) ∧
    ParametersFound (foundParameters reader folder block.metrics) block.agora
      block.metrics

end Condition

section Folders

variable {folder : Folder}

theorem store_self (folder : Folder) (name content : Text) :
    folder.store name content name = some content :=
  Function.update_self _ _ _

theorem store_of_ne {name other : Text} (hne : other ≠ name) (content : Text) :
    folder.store name content other = folder other :=
  Function.update_of_ne hne _ _

/-- The files of the metrics are told by the end of their names. -/
theorem modelParametersName_ne {name : Text}
    (hname : ¬ "_model_parameters.csv".toList <:+ name) (metric : Text) :
    name ≠ modelParametersName metric := by
  rintro rfl
  exact hname (List.suffix_append _ _)

theorem modelParametersName_injective :
    Function.Injective modelParametersName :=
  fun _ _ hsame => List.append_cancel_right hsame

theorem storeModels_of_ne {name : Text}
    (hname : ¬ "_model_parameters.csv".toList <:+ name)
    (metrics : List MetricModel) (folder : Folder) :
    metrics.foldl storeModelParameters folder name = folder name := by
  induction metrics generalizing folder with
  | nil => rfl
  | cons metric rest ih =>
      rw [List.foldl_cons, ih, storeModelParameters]
      split
      · rfl
      · exact store_of_ne (modelParametersName_ne hname metric.name) _

/-- The last metric of a name that has parameters leaves them in the file. -/
theorem storeModels_model (metrics : List MetricModel) (folder : Folder)
    (name : Text) :
    metrics.foldl storeModelParameters folder (modelParametersName name) =
      match lastWithParameters metrics name with
      | some metric => some (parametersTable metric.predictionParameters)
      | none => folder (modelParametersName name) := by
  induction metrics using List.reverseRecOn with
  | nil => rfl
  | append_singleton init metric ih =>
      rw [List.foldl_concat, lastWithParameters, List.reverse_concat,
        List.find?_cons, storeModelParameters]
      rw [lastWithParameters] at ih
      by_cases hnone : metric.predictionParameters = []
      · simp [hnone, ih]
      · by_cases hname : metric.name = name
        · subst hname
          simp [hnone, store_self]
        · have hne : modelParametersName name ≠
              modelParametersName metric.name := fun hsame =>
            hname (modelParametersName_injective hsame).symm
          simp [hnone, hname, store_of_ne hne, ih]

/-- What the files are after the storing. -/
structure Stored (folder : Folder) (block : BlockModel) (stored : Folder) :
    Prop where
  knobs : stored knobsName = some (table knobsHeader
    (block.knobs.map fun knob => [.plain knob.name, .plain knob.type,
      .plain ([';'].intercalate knob.values)]))
  metrics : stored metricsName =
    some (table metricsHeader (block.metrics.map metricCells))
  features : stored featuresName =
    some (table featuresHeader (block.features.fields.map featureCells))
  properties : stored propertiesName =
    some (table propertiesHeader ((settings block.agora).map settingCells))
  models : ∀ name, stored (modelParametersName name) =
    match lastWithParameters block.metrics name with
    | some metric => some (parametersTable metric.predictionParameters)
    | none => folder (modelParametersName name)
  doe : stored doeParametersName =
    some (parametersTable block.agora.doeParameters)
  clustering : stored clusteringParametersName =
    some (parametersTable block.agora.clusteringParameters)

theorem joinValues_eq {values : List Text} (hsome : values ≠ []) :
    joinValues values = some ([';'].intercalate values) := by
  obtain ⟨first, rest, rfl⟩ := List.exists_cons_of_ne_nil hsome
  rw [joinValues]
  congr 1
  induction rest generalizing first with
  | nil => simp
  | cons next others ih =>
      rw [List.intercalate_cons_cons, ← ih next (List.cons_ne_nil _ _)]
      simp

theorem exists_stored {block : BlockModel}
    (hvalues : ∀ knob ∈ block.knobs, knob.values ≠ []) (folder : Folder) :
    ∃ stored, storeDescription folder block = some stored ∧
      Stored folder block stored := by
  have hcells : block.knobs.mapM knobCells = some (block.knobs.map fun knob =>
      [.plain knob.name, .plain knob.type,
        .plain ([';'].intercalate knob.values)]) := by
    rw [mapM_eq_some, List.map_map]
    apply List.map_congr_left
    intro knob hknob
    rw [knobCells, joinValues_eq (hvalues knob hknob)]
    rfl
  refine ⟨_, by rw [storeDescription, hcells]; rfl, ?_⟩
  constructor
  · rw [store_of_ne (by decide), store_of_ne (by decide),
      storeModels_of_ne (by decide), store_of_ne (by decide),
      store_of_ne (by decide), store_of_ne (by decide), store_self]
  · rw [store_of_ne (by decide), store_of_ne (by decide),
      storeModels_of_ne (by decide), store_of_ne (by decide),
      store_of_ne (by decide), store_self]
  · rw [store_of_ne (by decide), store_of_ne (by decide),
      storeModels_of_ne (by decide), store_of_ne (by decide), store_self]
  · rw [store_of_ne (by decide), store_of_ne (by decide),
      storeModels_of_ne (by decide), store_self]
  · intro name
    have hfixed : ∀ fixed : Text,
        ¬ "_model_parameters.csv".toList <:+ fixed →
        modelParametersName name ≠ fixed :=
      fun fixed hfixed => (modelParametersName_ne hfixed name).symm
    rw [store_of_ne (hfixed _ (by decide)), store_of_ne (hfixed _ (by decide)),
      storeModels_model, store_of_ne (hfixed _ (by decide)),
      store_of_ne (hfixed _ (by decide)), store_of_ne (hfixed _ (by decide)),
      store_of_ne (hfixed _ (by decide))]
  · rw [store_of_ne (by decide), store_self]
  · exact store_self _ _ _

end Folders

section Tables

variable {α β : Type} {folder : Folder} {name : Text}
  {header : List Text} {cells : β → List Cell} {elements : List β}

theorem readRows_of_mem {columns : β → Row} {read : Row → Checked α}
    {result : β → α} (hread : ∀ element ∈ elements,
      read (columns element) = .ok (result element)) :
    readRows read (elements.map columns) = (elements.map result, true) := by
  induction elements with
  | nil => rfl
  | cons element rest ih =>
      rw [List.forall_mem_cons] at hread
      rw [List.map_cons, readRows, hread.1, ih hread.2]
      rfl

theorem readRows_map {read : Row → Checked α} {toRow : β → Row} {result : β → α}
    (hread : ∀ element, read (toRow element) = .ok (result element))
    (elements : List β) :
    readRows read (elements.map toRow) = (elements.map result, true) :=
  readRows_of_mem fun element _ => hread element

/-- A table of columns is read line by line. -/
theorem readTable_columnTable (reader : Reader) {columns : β → Row}
    (read : Row → Checked α)
    (hheader : ∀ element ∈ elements, (columns element).map Prod.fst = header)
    (hcolumns : 2 ≤ header.length) (hnames : ∀ name ∈ header, Clean name)
    (hvalues : ∀ element ∈ elements, ∀ column ∈ columns element,
      Clean column.2)
    (hfile : folder name = some (columnTable header columns elements)) :
    readTable reader folder name read =
      readRows read (elements.map columns) := by
  have hwell : WellFormed header (elements.map fun element =>
      (columns element).map fun column => .plain column.2) := by
    refine ⟨hcolumns, hnames, ?_, ?_⟩
    · rw [List.forall_mem_map]
      intro element helement
      rw [← hheader element helement, List.length_map, List.length_map]
    · rw [List.forall_mem_map]
      intro element helement
      rw [List.forall_mem_map]
      exact hvalues element helement
  have hrows : (elements.map fun element =>
      (columns element).map fun column => Cell.plain column.2).map
        (row header) = elements.map columns := by
    rw [List.map_map]
    apply List.map_congr_left
    intro element helement
    have hrow := row_columns (columns element)
    rw [hheader element helement] at hrow
    exact hrow
  rw [readTable, hfile]
  simp only [columnTable, reader.read_table hwell, hrows]

/-- A table of columns is read to its end. -/
theorem readTable_columns (reader : Reader) {columns : β → Row}
    {read : Row → Checked α} {result : β → α}
    (hheader : ∀ element ∈ elements, (columns element).map Prod.fst = header)
    (hcolumns : 2 ≤ header.length) (hnames : ∀ name ∈ header, Clean name)
    (hvalues : ∀ element ∈ elements, ∀ column ∈ columns element,
      Clean column.2)
    (hread : ∀ element ∈ elements,
      read (columns element) = .ok (result element))
    (hfile : folder name = some (columnTable header columns elements)) :
    readTable reader folder name read = (elements.map result, true) := by
  rw [readTable_columnTable reader read hheader hcolumns hnames hvalues hfile]
  exact readRows_of_mem hread

/-- A stored table is read to its end. -/
theorem readTable_table (reader : Reader) (read : Row → Checked α)
    (result : β → α)
    (hfile : folder name = some (table header (elements.map cells)))
    (hwell : WellFormed header (elements.map cells))
    (hread : ∀ element,
      read (row header (cells element)) = .ok (result element)) :
    readTable reader folder name read = (elements.map result, true) := by
  rw [readTable, hfile]
  simp only [reader.read_table hwell, List.map_map]
  exact readRows_map hread elements

theorem wellFormed_map (hcolumns : 2 ≤ header.length)
    (hnames : ∀ name ∈ header, Clean name)
    (hlengths : ∀ element, (cells element).length = header.length)
    (hvalues : ∀ element ∈ elements, ∀ cell ∈ cells element,
      Clean cell.value) :
    WellFormed header (elements.map cells) := by
  refine ⟨hcolumns, hnames, ?_, ?_⟩
  · intro row hrow
    obtain ⟨element, -, rfl⟩ := List.mem_map.mp hrow
    exact hlengths element
  · intro row hrow
    obtain ⟨element, helement, rfl⟩ := List.mem_map.mp hrow
    exact hvalues element helement

theorem clean_intercalate {values : List Text}
    (hclean : ∀ value ∈ values, Clean value) :
    Clean ([';'].intercalate values) := by
  intro c hc
  rcases mem_of_mem_intercalate hc with hc | ⟨value, hvalue, hc⟩
  · obtain rfl := List.mem_singleton.mp hc
    decide
  · exact hclean value hvalue c hc

/-- The values of a knob, of which the last one is lost when it is empty. -/
theorem splitValues_intercalate {values : List Text}
    (hclean : ∀ value ∈ values, ';' ∉ value) (hsome : values ≠ []) :
    splitValues ([';'].intercalate values) =
      if values.getLast? = some [] then values.dropLast else values := by
  rw [splitValues, List.splitOn_intercalate ';' hclean hsome]

theorem splitValues_eq_iff {values : List Text}
    (hclean : ∀ value ∈ values, ';' ∉ value) (hsome : values ≠ []) :
    splitValues ([';'].intercalate values) = values ↔
      values.getLast? ≠ some [] := by
  rw [splitValues_intercalate hclean hsome]
  split
  · next hlast =>
      refine iff_of_false (fun hsame => ?_) (not_not_intro hlast)
      have hlength := congrArg List.length hsame
      rw [List.length_dropLast] at hlength
      have hpos := List.length_pos_iff.mpr hsome
      omega
  · next hlast => exact iff_of_true rfl hlast

end Tables

section Loading

variable {reader : Reader} {folder stored : Folder} {block : BlockModel}

/-- A metric as the table of the metrics describes it. -/
def bareMetric (metric : MetricModel) : MetricModel :=
  ⟨metric.name, metric.type, false, metric.predictionPlugin, [], 0, []⟩

/-- What is stored of a metric. -/
def storedMetric (metric : MetricModel) :
    Text × Text × Text × List PairProperty :=
  (metric.name, metric.type, metric.predictionPlugin,
    metric.predictionParameters)

/-- The loaded metrics are the stored ones, and the loading went on unless there
was nothing to load any more. -/
theorem loadModelParameters_iff
    {found : Text → List PairProperty × Bool} {agora : AgoraModel}
    (hfound : ∀ name, readTable reader stored (modelParametersName name)
      readParameter = found name) (metrics : List MetricModel) :
    ((loadModelParameters reader stored (metrics.map bareMetric)).1.map
        storedMetric = metrics.map storedMetric ∧
      ((loadModelParameters reader stored (metrics.map bareMetric)).2 = true ∨
        agora.doeParameters = [] ∧ agora.clusteringParameters = [])) ↔
      ParametersFound found agora metrics := by
  induction metrics with
  | nil => simp [loadModelParameters, ParametersFound]
  | cons metric rest ih =>
      rw [ParametersFound, List.map_cons, loadModelParameters]
      have hname : (bareMetric metric).name = metric.name := rfl
      simp only [hname, hfound]
      have hhead : storedMetric
          (withParameters (bareMetric metric) (found metric.name).1) =
            storedMetric metric ↔
          (found metric.name).1 = metric.predictionParameters := by
        simp [storedMetric, bareMetric, withParameters]
      by_cases hcomplete : (found metric.name).2 = true
      · rw [if_pos hcomplete, if_pos hcomplete, ← ih]
        simp only [Prod.map, List.map_cons, List.cons.injEq, hhead, id_eq,
          and_assoc]
      · rw [if_neg hcomplete, if_neg hcomplete]
        -- The other metrics stay without parameters.
        have hbare : (rest.map bareMetric).map storedMetric =
            rest.map storedMetric ↔
              ∀ later ∈ rest, later.predictionParameters = [] := by
          rw [List.map_map, List.map_inj_left]
          apply forall₂_congr
          intro later _
          simp [storedMetric, bareMetric, eq_comm]
        simp only [List.map_cons, List.cons.injEq, hhead, hbare,
          Bool.false_eq_true, false_or, and_assoc]

/-- The strings of each part of a description are storable. -/
structure StorableParts (block : BlockModel) : Prop where
  knobs : ∀ knob ∈ block.knobs, Storable knob.name ∧ Storable knob.type ∧
    ∀ value ∈ knob.values, Storable value
  metrics : ∀ metric ∈ block.metrics, Storable metric.name ∧
    Storable metric.type ∧ Storable metric.predictionPlugin ∧
    ∀ param ∈ metric.predictionParameters,
      Storable param.key ∧ Storable param.value
  features : ∀ field ∈ block.features.fields,
    Storable field.name ∧ Storable field.type
  settings : ∀ setting ∈ settings block.agora, Storable setting.2
  doe : ∀ param ∈ block.agora.doeParameters,
    Storable param.key ∧ Storable param.value
  clustering : ∀ param ∈ block.agora.clusteringParameters,
    Storable param.key ∧ Storable param.value

theorem storableParts
    (hstorable : ∀ text ∈ storedTexts block, Storable text) :
    StorableParts block := by
  simp only [storedTexts, List.forall_mem_append, List.forall_mem_flatMap,
    List.forall_mem_cons, List.forall_mem_map, List.not_mem_nil,
    IsEmpty.forall_iff, implies_true, and_true] at hstorable
  obtain ⟨⟨⟨⟨hknobs, hmetrics⟩, hfeatures⟩, hsettings⟩, hdoe, hclustering⟩ :=
    hstorable
  exact ⟨hknobs, hmetrics, hfeatures, hsettings, hdoe, hclustering⟩

theorem readTable_parameters (reader : Reader)
    {parameters : List PairProperty} {name : Text}
    (hstorable : ∀ param ∈ parameters,
      Storable param.key ∧ Storable param.value)
    (hfile : stored name = some (parametersTable parameters)) :
    readTable reader stored name readParameter = (parameters, true) := by
  have hread := readTable_table reader readParameter id hfile
    (wellFormed_map (by decide) (by decide) (fun _ => rfl) ?_) fun _ => rfl
  · rw [hread, List.map_id]
  · intro param hparam
    obtain ⟨hkey, hvalue⟩ := hstorable param hparam
    simpa [parameterCells, Cell.value] using ⟨hkey.1, hvalue.1⟩

/-- Reading the files of the metrics after the storing. -/
theorem readTable_model (hstored : Stored folder block stored)
    (hparts : StorableParts block) (name : Text) :
    readTable reader stored (modelParametersName name) readParameter =
      foundParameters reader folder block.metrics name := by
  have hfile := hstored.models name
  rw [foundParameters]
  cases hlast : lastWithParameters block.metrics name with
  | some metric =>
      rw [hlast] at hfile
      have hmem := List.mem_reverse.mp (List.mem_of_find?_eq_some hlast)
      exact readTable_parameters reader (hparts.metrics metric hmem).2.2.2 hfile
  | none =>
      rw [hlast] at hfile
      rw [readTable, hfile, readTable]

/-- A description after the loading of the tables that are always there. -/
def loadedTables (block : BlockModel) : BlockModel :=
  { BlockModel.initial with
    name := block.name
    knobs := block.knobs.map fun knob =>
      ⟨knob.name, knob.type, splitValues ([';'].intercalate knob.values)⟩
    metrics := block.metrics.map bareMetric
    features := ⟨.none, [], block.features.fields.map fun field =>
      ⟨field.name, field.type, .lessOrEqual⟩⟩
    agora := { AgoraModel.initial with
      doePlugin := block.agora.doePlugin
      clusteringPlugin := block.agora.clusteringPlugin
      numberConfigurationsPerIteration :=
        block.agora.numberConfigurationsPerIteration
      numberObservationsPerConfiguration :=
        block.agora.numberObservationsPerConfiguration
      maxNumberIteration := block.agora.maxNumberIteration } }

theorem clean_pair {first second : Cell} (hfirst : Clean first.value)
    (hsecond : Clean second.value) :
    ∀ cell ∈ [first, second], Clean cell.value :=
  List.forall_mem_cons.mpr ⟨hfirst, List.forall_mem_singleton.mpr hsecond⟩

theorem loadDescription_eq (hstored : Stored folder block stored)
    (hparts : StorableParts block) :
    loadDescription reader stored block.name =
      runSteps [loadModels reader stored, loadDoe reader stored,
        loadClustering reader stored] (loadedTables block) := by
  have hnames : ∀ setting ∈ settings block.agora, Clean setting.1 := by
    have hall : ∀ name ∈ (settings block.agora).map Prod.fst, Clean name :=
      show ∀ name ∈ ["doe_plugin".toList, "clustering_plugin".toList,
        "number_configurations_per_iteration".toList,
        "number_observations_per_configuration".toList,
        "max_number_iteration".toList], Clean name by decide
    exact fun setting hsetting => hall _ (List.mem_map_of_mem hsetting)
  have hknobs := readTable_table reader readKnob _ hstored.knobs
    (wellFormed_map (by decide) (by decide) (fun _ => rfl) (by
      intro knob hknob
      obtain ⟨hname, htype, hvalues⟩ := hparts.knobs knob hknob
      have hjoined := clean_intercalate fun value hmem => (hvalues value hmem).1
      exact List.forall_mem_cons.mpr ⟨hname.1, clean_pair htype.1 hjoined⟩))
    fun _ => rfl
  have hfeatures := readTable_table reader readFeature _ hstored.features
    (wellFormed_map (by decide) (by decide) (fun _ => rfl) (by
      intro field hfield
      obtain ⟨hname, htype⟩ := hparts.features field hfield
      exact clean_pair hname.1 htype.1))
    fun _ => rfl
  have hmetrics := readTable_table reader readMetric bareMetric
    hstored.metrics
    (wellFormed_map (by decide) (by decide) (fun _ => rfl) (by
      intro metric hmetric
      obtain ⟨hname, htype, hplugin, -⟩ := hparts.metrics metric hmetric
      exact List.forall_mem_cons.mpr ⟨hname.1, clean_pair htype.1 hplugin.1⟩))
    fun _ => rfl
  have hproperties := readTable_table reader readSetting id
    hstored.properties
    (wellFormed_map (by decide) (by decide) (fun _ => rfl) (by
      intro setting hsetting
      exact clean_pair (hnames setting hsetting)
        (hparts.settings setting hsetting).1))
    fun _ => rfl
  simp only [loadDescription, runSteps, loadKnobs, hknobs, loadFeatures,
    hfeatures, loadMetrics, hmetrics, loadProperties, hproperties]
  rfl

/-- What the last steps of the loading leave. -/
theorem runSteps_last (hdoe : readTable reader stored doeParametersName
      readParameter = (block.agora.doeParameters, true))
    (hclustering : readTable reader stored clusteringParametersName
      readParameter = (block.agora.clusteringParameters, true))
    (description : BlockModel) {metrics : List MetricModel} {complete : Bool}
    (hmodels : loadModelParameters reader stored description.metrics =
      (metrics, complete)) :
    runSteps [loadModels reader stored, loadDoe reader stored,
        loadClustering reader stored] description =
      if complete then
        { description with
          metrics := metrics
          agora := { description.agora with
            doeParameters := block.agora.doeParameters
            clusteringParameters := block.agora.clusteringParameters } }
      else { description with metrics := metrics } := by
  cases complete <;>
    simp [runSteps, loadModels, hmodels, loadDoe, hdoe, loadClustering,
      hclustering]

theorem sameDescription_iff {found : Text → List PairProperty × Bool}
    (hfound : ∀ name, readTable reader stored (modelParametersName name)
      readParameter = found name)
    (hdoe : readTable reader stored doeParametersName readParameter =
      (block.agora.doeParameters, true))
    (hclustering : readTable reader stored clusteringParametersName
      readParameter = (block.agora.clusteringParameters, true))
    (hvalues : ∀ knob ∈ block.knobs, knob.values ≠ [] ∧
      ∀ value ∈ knob.values, ';' ∉ value) :
    SameDescription (runSteps [loadModels reader stored, loadDoe reader stored,
        loadClustering reader stored] (loadedTables block)) block ↔
      (∀ knob ∈ block.knobs, knob.values.getLast? ≠ some []) ∧
        ParametersFound found block.agora block.metrics := by
  have hknobs : (loadedTables block).knobs = block.knobs ↔
      ∀ knob ∈ block.knobs, knob.values.getLast? ≠ some [] := by
    have hsame : (loadedTables block).knobs = block.knobs ↔
        ∀ knob ∈ block.knobs,
          splitValues ([';'].intercalate knob.values) = knob.values := by
      conv_lhs => rhs; rw [← List.map_id block.knobs]
      rw [loadedTables, List.map_inj_left]
      apply forall₂_congr
      intro knob _
      obtain ⟨name, type, values⟩ := knob
      simp
    rw [hsame]
    apply forall₂_congr
    intro knob hknob
    obtain ⟨hsome, hfree⟩ := hvalues knob hknob
    exact splitValues_eq_iff hfree hsome
  have hfeatures : ((loadedTables block).features.fields.map fun field =>
      (field.name, field.type)) =
        block.features.fields.map fun field => (field.name, field.type) := by
    rw [loadedTables, List.map_map]
    rfl
  rw [← hknobs, ← loadModelParameters_iff hfound block.metrics]
  cases hmodels : loadModelParameters reader stored
      (block.metrics.map bareMetric) with
  | mk metrics complete =>
      rw [runSteps_last hdoe hclustering (loadedTables block) hmodels]
      cases complete with
      | true =>
          rw [if_pos rfl]
          constructor
          · intro hsame
            exact ⟨hsame.knobs, hsame.metrics, .inl rfl⟩
          · rintro ⟨hknobs, hmetrics, -⟩
            exact ⟨hknobs, hfeatures, hmetrics, rfl, rfl, rfl⟩
      | false =>
          rw [if_neg Bool.false_ne_true]
          constructor
          · intro hsame
            exact ⟨hsame.knobs, hsame.metrics, .inr
              ⟨hsame.doeParameters.symm, hsame.clusteringParameters.symm⟩⟩
          · rintro ⟨hknobs, hmetrics, hnone⟩
            rcases hnone with hcomplete | ⟨hdoe, hclustering⟩
            · contradiction
            · exact ⟨hknobs, hfeatures, hmetrics, rfl, hdoe.symm,
                hclustering.symm⟩

end Loading

/-- A description is loaded as it was stored exactly when no last value of a
knob is empty, and every file that is missing is the last one to be needed. -/
theorem loadsBack_iff (reader : Reader) (folder : Folder) (b : AgoraBlock)
    (hstorable : ∀ text ∈ storedTexts b.block, Storable text) :
    LoadsBack reader folder b.block ↔ Retrievable reader folder b.block := by
  have hparts := storableParts hstorable
  obtain ⟨-, -, hsome⟩ := b.valid.enabled b.enabled
  have hvalues : ∀ knob ∈ b.block.knobs, knob.values ≠ [] ∧
      ∀ value ∈ knob.values, ';' ∉ value := by
    intro knob hknob
    obtain ⟨-, -, hfree⟩ := hparts.knobs knob hknob
    exact ⟨hsome knob hknob, fun value hvalue => (hfree value hvalue).2⟩
  obtain ⟨stored, hstore, hstored⟩ := exists_stored hsome folder
  have hsame := sameDescription_iff (readTable_model hstored hparts)
    (readTable_parameters reader hparts.doe hstored.doe)
    (readTable_parameters reader hparts.clustering hstored.clustering) hvalues
  rw [Retrievable, ← hsame, ← loadDescription_eq hstored hparts]
  constructor
  · rintro ⟨other, hother, hsame⟩
    obtain rfl := Option.some.inj (hstore.symm.trans hother)
    exact hsame
  · intro hsame
    exact ⟨stored, hstore, hsame⟩

namespace Sample

def emptyFolder : Folder := fun _ => none

/-- A block with a parameter for the design of the experiments. -/
def designed : BlockModel :=
  { Heel.Sample.block with
    agora := { Heel.Sample.block.agora with
      doeParameters := [⟨"repetitions".toList, "3".toList⟩] } }

def validDesigned : BlockModel :=
  (validateBlock designed).toOption.get (by decide +kernel)

def designedBlock : AgoraBlock where
  model := Heel.Sample.application "1.0".toList designed
  app := Heel.Sample.application "1.0".toList validDesigned
  accepted := rfl
  block := validDesigned
  mem := List.mem_singleton.mpr rfl
  enabled := rfl

theorem storable_designed :
    ∀ text ∈ storedTexts validDesigned, Storable text := by
  decide +kernel

theorem loadsBack_iff_designed :
    LoadsBack splitting emptyFolder validDesigned ↔
      Retrievable splitting emptyFolder validDesigned :=
  loadsBack_iff splitting emptyFolder designedBlock storable_designed

/-- The metric has no parameters, so its file is missing, and the parameters
after it are lost. -/
theorem not_loadsBack_designed :
    ¬ ∀ (reader : Reader) (folder : Folder) (b : AgoraBlock),
      (∀ text ∈ storedTexts b.block, Storable text) →
        LoadsBack reader folder b.block := by
  intro hall
  obtain ⟨stored, hstore, hsame⟩ :=
    hall splitting emptyFolder designedBlock storable_designed
  have hloaded : (storeDescription emptyFolder validDesigned).map (fun stored =>
      (loadDescription splitting stored
        validDesigned.name).agora.doeParameters) = some [] := by
    decide +kernel
  rw [show storeDescription emptyFolder validDesigned = some stored from hstore,
    Option.map_some] at hloaded
  have hnone : validDesigned.agora.doeParameters = [] :=
    hsame.doeParameters.symm.trans (Option.some.inj hloaded)
  exact absurd hnone (by decide +kernel)

end Sample

end Margot.Agora
