/-
The storage of the predictions in a table of comma-separated values.  A column
is found by its name, here the first one of the name, so the columns of one name
have to hold the same.
-/
import Margot.Agora.Composing
import Margot.Agora.Description
import Margot.Agora.Prediction

namespace Margot.Agora

open Heel Csv

namespace PredictionStorage

section Store

def predictionsName : Text := "predictions.csv".toList

def averageName (metric : MetricModel) : Text := metric.name ++ "_avg".toList

def deviationName (metric : MetricModel) : Text := metric.name ++ "_std".toList

def header (description : BlockModel) : List Text :=
  "pred_id".toList :: (description.knobs.map (·.name) ++
    (description.features.fields.map (·.name) ++
      description.metrics.flatMap fun metric =>
        [averageName metric, deviationName metric]))

/-- The line of a prediction. -/
def predictionCells (description : BlockModel) (prediction : PredictionModel)
    (predId : Text) : Option (List Cell) := do
  let knobs ← description.knobs.mapM fun knob =>
    valueAt prediction.configurations predId knob.name
  let features ← description.features.fields.mapM fun field =>
    valueAt prediction.features predId field.name
  let metrics ← description.metrics.mapM fun metric =>
    valueAt prediction.predictedResults predId metric.name
  return .plain predId :: (knobs.map .plain ++ (features.map .plain ++
    metrics.flatMap fun value => [.plain value.avg, .plain value.std]))

/-- `CsvPredictionStorage::store_prediction` -/
def storePrediction [HashOrder Text] (folder : Folder)
    (description : BlockModel) (prediction : PredictionModel) :
    Option Folder := do
  let rows ← prediction.configurations.visitKeys.mapM
    (predictionCells description prediction)
  return folder.store predictionsName (table (header description) rows)

end Store

section Load

/-- The values of the names, one after the other. -/
def insertAll {V : Type} (read : Text → Checked V) :
    List Text → UnorderedMap Text V → Checked (UnorderedMap Text V)
  | [], table => .ok table
  | name :: rest, table => do
      let value ← read name
      insertAll read rest (table.insertOrAssign name value).1

/-- What is read of a line. -/
structure Entry where
  predId : Text
  config : Configuration
  features : UnorderedMap Text Text
  output : UnorderedMap Text MetricValueModel

def readMetricValue (row : Row) (name : Text) : Checked MetricValueModel := do
  let avg ← getFirst (name ++ "_avg".toList) row
  let std ← getFirst (name ++ "_std".toList) row
  return ⟨avg, std⟩

def readEntry (description : BlockModel) (row : Row) : Checked Entry := do
  let config ← insertAll (getFirst · row) (description.knobs.map (·.name)) .empty
  let features ←
    insertAll (getFirst · row) (description.features.fields.map (·.name)) .empty
  let output ←
    insertAll (readMetricValue row) (description.metrics.map (·.name)) .empty
  let predId ← getFirst "pred_id".toList row
  return ⟨predId, config, features, output⟩

def addEntry (prediction : PredictionModel) (entry : Entry) :
    PredictionModel :=
  (prediction.addResult entry.predId entry.config entry.features
    entry.output).2

/-- `CsvPredictionStorage::load_prediction`: what is read before anything
throws. -/
def loadPrediction (reader : Reader) (folder : Folder)
    (description : BlockModel) : PredictionModel :=
  (readTable reader folder predictionsName
    (readEntry description)).1.foldl addEntry .clear

end Load

/-- The tables hold the same, in whatever order. -/
def Agrees {V : Type} (first second : UnorderedMap Text V) : Prop :=
  ∀ key, first.find? key = second.find? key

structure SamePrediction (loaded stored : PredictionModel) : Prop where
  configurations : ∀ id, Option.Rel Agrees (loaded.configurations.find? id)
    (stored.configurations.find? id)
  features : ∀ id, Option.Rel Agrees (loaded.features.find? id)
    (stored.features.find? id)
  predictedResults : ∀ id, Option.Rel Agrees
    (loaded.predictedResults.find? id) (stored.predictedResults.find? id)

/-- The prediction is stored, and loaded as the same. -/
def LoadsBack [HashOrder Text] (reader : Reader) (folder : Folder)
    (block : BlockModel) (prediction : PredictionModel) : Prop :=
  ∃ stored, storePrediction folder block prediction = some stored ∧
    SamePrediction (loadPrediction reader stored block) prediction

/-- The parts have the same identifiers, and each of them values for the fields
of the block; without fields there are no features. -/
structure OverBlock (block : BlockModel) (prediction : PredictionModel) :
    Prop where
  results : ∀ id, id ∈ prediction.predictedResults.keys ↔
    id ∈ prediction.configurations.keys
  features : ∀ id, id ∈ prediction.features.keys ↔
    id ∈ prediction.configurations.keys ∧ block.features.fields ≠ []
  knobNames : ∀ id config, prediction.configurations.find? id = some config →
    ∀ name, name ∈ config.keys ↔ name ∈ block.knobs.map (·.name)
  featureNames : ∀ id values, prediction.features.find? id = some values →
    ∀ name, name ∈ values.keys ↔ name ∈ block.features.fields.map (·.name)
  metricNames : ∀ id values,
    prediction.predictedResults.find? id = some values →
      ∀ name, name ∈ values.keys ↔ name ∈ block.metrics.map (·.name)

section Columns

variable (block : BlockModel) (prediction : PredictionModel) (id : Text)

def knobValue (name : Text) : Text :=
  (valueAt prediction.configurations id name).getD []

def featureValue (name : Text) : Text :=
  (valueAt prediction.features id name).getD []

def metricValue (name : Text) : MetricValueModel :=
  (valueAt prediction.predictedResults id name).getD ⟨[], []⟩

/-- The values of a prediction by the names of their columns. -/
def columns : Row :=
  ("pred_id".toList, id) :: (
    (block.knobs.map fun knob => (knob.name, knobValue prediction id knob.name))
      ++ ((block.features.fields.map fun field =>
          (field.name, featureValue prediction id field.name)) ++
        block.metrics.flatMap fun metric =>
          [(averageName metric, (metricValue prediction id metric.name).avg),
            (deviationName metric,
              (metricValue prediction id metric.name).std)]))

/-- The columns of one name hold the same, and the line is not blank. -/
structure Retrievable : Prop where
  columns : ∀ column ∈ columns block prediction id,
    (columns block prediction id).lookup column.1 = some column.2
  line : id = [] → 2 ≤ (header block).length

end Columns

/-- Tables that hold the same have the same values. -/
theorem valueAt_congr {V : Type}
    {first second : UnorderedMap Text (UnorderedMap Text V)} {id : Text}
    (hsame : Option.Rel Agrees (first.find? id) (second.find? id))
    (name : Text) : valueAt first id name = valueAt second id name := by
  rw [valueAt, valueAt]
  generalize first.find? id = found at hsame ⊢
  generalize second.find? id = other at hsame ⊢
  cases hsame with
  | some hagrees => exact hagrees name
  | none => rfl

section Storing

variable {block : BlockModel} {prediction : PredictionModel} {id : Text}

theorem header_eq (block : BlockModel) (prediction : PredictionModel)
    (id : Text) :
    header block = (columns block prediction id).map Prod.fst := by
  simp [header, columns, List.map_flatMap, Function.comp_def]

/-- A value that is there. -/
theorem valueAt_eq {V : Type} {table : UnorderedMap Text (UnorderedMap Text V)}
    {name : Text} (hid : id ∈ table.keys)
    (hname : ∀ values, table.find? id = some values → name ∈ values.keys)
    (absent : V) :
    valueAt table id name = some ((valueAt table id name).getD absent) := by
  obtain ⟨values, hvalues⟩ := UnorderedMap.mem_keys_find?.mp hid
  obtain ⟨value, hvalue⟩ :=
    UnorderedMap.mem_keys_find?.mp (hname values hvalues)
  rw [valueAt, hvalues, Option.bind_some, hvalue, Option.getD_some]

theorem mapM_valueAt {V A : Type}
    {table : UnorderedMap Text (UnorderedMap Text V)} (elements : List A)
    (name : A → Text) (hid : elements ≠ [] → id ∈ table.keys)
    (hnames : ∀ values, table.find? id = some values →
      ∀ element ∈ elements, name element ∈ values.keys) (absent : V) :
    (elements.mapM fun element => valueAt table id (name element)) =
      some (elements.map fun element =>
        (valueAt table id (name element)).getD absent) := by
  rw [mapM_eq_some, List.map_map]
  apply List.map_congr_left
  intro element helement
  exact valueAt_eq (hid (List.ne_nil_of_mem helement))
    (fun values hvalues => hnames values hvalues element helement) absent

theorem predictionCells_eq (hover : OverBlock block prediction)
    (hid : id ∈ prediction.configurations.keys) :
    predictionCells block prediction id =
      some ((columns block prediction id).map fun column =>
        .plain column.2) := by
  have hknobs := mapM_valueAt block.knobs KnobModel.name (fun _ => hid)
    (fun values hvalues knob hknob =>
      (hover.knobNames id values hvalues knob.name).mpr
        (List.mem_map_of_mem hknob)) []
  have hfeatures := mapM_valueAt block.features.fields FeatureModel.name
    (fun hsome => (hover.features id).mpr ⟨hid, hsome⟩)
    (fun values hvalues field hfield =>
      (hover.featureNames id values hvalues field.name).mpr
        (List.mem_map_of_mem hfield)) []
  have hmetrics := mapM_valueAt block.metrics MetricModel.name
    (fun _ => (hover.results id).mpr hid) (fun values hvalues metric hmetric =>
      (hover.metricNames id values hvalues metric.name).mpr
        (List.mem_map_of_mem hmetric)) ⟨[], []⟩
  rw [predictionCells, hknobs, hfeatures, hmetrics]
  simp [columns, knobValue, featureValue, metricValue, List.map_flatMap,
    List.flatMap_map, Function.comp_def]

theorem storePrediction_eq [HashOrder Text] (folder : Folder)
    (hover : OverBlock block prediction) :
    storePrediction folder block prediction =
      some (folder.store predictionsName (columnTable (header block)
        (columns block prediction) prediction.configurations.visitKeys)) := by
  have hrows : prediction.configurations.visitKeys.mapM
      (predictionCells block prediction) =
        some (prediction.configurations.visitKeys.map fun id =>
          (columns block prediction id).map fun column =>
            .plain column.2) := by
    rw [mapM_eq_some, List.map_map]
    apply List.map_congr_left
    intro id hid
    exact predictionCells_eq hover (UnorderedMap.mem_visitKeys.mp hid)
  rw [storePrediction, hrows]
  rfl

end Storing

section Inserting

variable {V : Type} {value : Text → V} {names : List Text}

/-- The values of the names, where all of them are read. -/
def insertValues (value : Text → V) :
    List Text → UnorderedMap Text V → UnorderedMap Text V
  | [], table => table
  | name :: rest, table =>
      insertValues value rest (table.insertOrAssign name (value name)).1

theorem insertAll_eq {read : Text → Checked V} (value : Text → V)
    (names : List Text) (table : UnorderedMap Text V)
    (hread : ∀ name ∈ names, read name = .ok (value name)) :
    insertAll read names table = .ok (insertValues value names table) := by
  induction names generalizing table with
  | nil => rfl
  | cons name rest ih =>
      rw [List.forall_mem_cons] at hread
      rw [insertAll, hread.1]
      exact ih _ hread.2

theorem find?_insertValues (value : Text → V) (names : List Text)
    (table : UnorderedMap Text V) (key : Text) :
    (insertValues value names table).find? key =
      if key ∈ names then some (value key) else table.find? key := by
  induction names generalizing table with
  | nil => rfl
  | cons name rest ih =>
      rw [insertValues, ih, UnorderedMap.find?_insertOrAssign]
      by_cases hrest : key ∈ rest
      · simp [hrest]
      · by_cases hkey : key = name <;> simp [hrest, hkey]

theorem insertValues_isEmpty :
    (insertValues value names .empty).entries.isEmpty = true ↔ names = [] := by
  constructor
  · intro hempty
    rw [List.isEmpty_iff] at hempty
    cases names with
    | nil => rfl
    | cons name rest =>
        have hfound := find?_insertValues value (name :: rest) .empty name
        rw [if_pos List.mem_cons_self, UnorderedMap.find?, hempty] at hfound
        contradiction
  · rintro rfl
    rfl

/-- What is inserted is what was stored, when every value is the stored one. -/
theorem agrees_insertValues_iff {stored : UnorderedMap Text V}
    (hnames : ∀ name, name ∈ stored.keys ↔ name ∈ names) :
    Agrees (insertValues value names .empty) stored ↔
      ∀ name ∈ names, stored.find? name = some (value name) := by
  constructor
  · intro hagrees name hname
    rw [← hagrees name, find?_insertValues, if_pos hname]
  · intro hvalues name
    rw [find?_insertValues]
    by_cases hname : name ∈ names
    · rw [if_pos hname, hvalues name hname]
    · rw [if_neg hname, UnorderedMap.find?_eq_none.mpr
        fun hkey => hname ((hnames name).mp hkey)]
      rfl

end Inserting

section Reading

variable (block : BlockModel) (prediction : PredictionModel) (id : Text)

/-- What is found in the first column of a name. -/
def found (name : Text) : Text := first (columns block prediction id) name

def foundMetric (name : Text) : MetricValueModel :=
  ⟨found block prediction id (name ++ "_avg".toList),
    found block prediction id (name ++ "_std".toList)⟩

/-- The entry of the line of a prediction. -/
def entryOf : Entry where
  predId := id
  config := insertValues (found block prediction id)
    (block.knobs.map (·.name)) .empty
  features := insertValues (found block prediction id)
    (block.features.fields.map (·.name)) .empty
  output := insertValues (foundMetric block prediction id)
    (block.metrics.map (·.name)) .empty

variable {block prediction id}

theorem getFirst_found (prediction : PredictionModel) (id : Text) {name : Text}
    (hname : name ∈ header block) :
    getFirst name (columns block prediction id) =
      .ok (found block prediction id name) := by
  rw [header_eq block prediction id] at hname
  exact getFirst_columns hname

theorem readEntry_columns :
    readEntry block (columns block prediction id) =
      .ok (entryOf block prediction id) := by
  have hknobs := insertAll_eq (found block prediction id)
    (block.knobs.map (·.name)) .empty fun name hname =>
      getFirst_found prediction id (List.mem_cons_of_mem _
        (List.mem_append_left _ hname))
  have hfeatures := insertAll_eq (found block prediction id)
    (block.features.fields.map (·.name)) .empty fun name hname =>
      getFirst_found prediction id (List.mem_cons_of_mem _
        (List.mem_append_right _ (List.mem_append_left _ hname)))
  have hmetric : ∀ name ∈ block.metrics.map (·.name),
      readMetricValue (columns block prediction id) name =
        .ok (foundMetric block prediction id name) := by
    intro name hname
    obtain ⟨metric, hmem, rfl⟩ := List.mem_map.mp hname
    have hcolumn : ∀ column ∈ [averageName metric, deviationName metric],
        column ∈ header block := by
      intro column hcolumn
      apply List.mem_cons_of_mem
      apply List.mem_append_right
      apply List.mem_append_right
      exact List.mem_flatMap.mpr ⟨metric, hmem, hcolumn⟩
    have havg := getFirst_found prediction id (hcolumn _ List.mem_cons_self)
    have hstd := getFirst_found prediction id
      (hcolumn (deviationName metric) (by simp))
    rw [averageName] at havg
    rw [deviationName] at hstd
    rw [readMetricValue, havg, hstd]
    rfl
  have hid : getFirst "pred_id".toList (columns block prediction id) =
      .ok id := by
    rw [getFirst, columns, List.lookup_cons_self]
  rw [readEntry, hknobs, hfeatures, insertAll_eq _ _ _ hmetric, hid]
  rfl

/-- The identifiers of the lines that are not blank. -/
def lineIds [HashOrder Text] (block : BlockModel)
    (prediction : PredictionModel) : List Text :=
  if 2 ≤ (header block).length then prediction.configurations.visitKeys
  else prediction.configurations.visitKeys.filter (· ≠ [])

/-- The cells of a prediction are those of a table. -/
def CleanCells (block : BlockModel) (prediction : PredictionModel) : Prop :=
  ∀ id ∈ prediction.configurations.keys,
    ∀ column ∈ columns block prediction id, Clean column.2

theorem readTable_columns [HashOrder Text] (reader : LineReader)
    {folder : Folder} (hnames : ∀ name ∈ header block, Clean name)
    (hclean : CleanCells block prediction)
    (hfile : folder predictionsName = some (columnTable (header block)
      (columns block prediction) prediction.configurations.visitKeys)) :
    readTable reader.toReader folder predictionsName (readEntry block) =
      ((lineIds block prediction).map (entryOf block prediction), true) := by
  rw [lineIds]
  by_cases hcolumns : 2 ≤ (header block).length
  · rw [if_pos hcolumns]
    exact Agora.readTable_columns reader.toReader
      (fun id _ => (header_eq block prediction id).symm) hcolumns hnames
      (fun id hid => hclean id (UnorderedMap.mem_visitKeys.mp hid))
      (fun id _ => readEntry_columns) hfile
  · -- there is the column of the identifiers only
    have hheader : header block = ["pred_id".toList] := by
      rw [header, List.length_cons] at hcolumns
      rw [header, List.cons.injEq]
      refine ⟨rfl, List.eq_nil_of_length_eq_zero ?_⟩
      omega
    have hsingle : ∀ id, columns block prediction id =
        [("pred_id".toList, id)] := by
      intro id
      have hfirst := header_eq block prediction id
      rw [hheader, columns, List.map_cons, List.cons.injEq] at hfirst
      rw [columns, List.map_eq_nil_iff.mp hfirst.2.symm]
    have hids : ∀ id ∈ prediction.configurations.visitKeys, Clean id := by
      intro id hid
      exact hclean id (UnorderedMap.mem_visitKeys.mp hid) _
        List.mem_cons_self
    have hname : Clean "pred_id".toList := by decide
    have hread := reader.read_column (by decide) hname hids
    rw [if_neg hcolumns, readTable, hfile]
    simp only [columnTable, hheader, hsingle, List.map_singleton, hread]
    have hrows : ((prediction.configurations.visitKeys.filter (· ≠ [])).map
        fun id => [("pred_id".toList, id)]) =
          (prediction.configurations.visitKeys.filter (· ≠ [])).map
            (columns block prediction) :=
      List.map_congr_left fun id _ => (hsingle id).symm
    rw [hrows]
    exact readRows_map (fun id => readEntry_columns) _

end Reading

section Loaded

variable {block : BlockModel} {prediction loaded : PredictionModel}
  {ids : List Text} {id : Text}

/-- The loaded prediction holds the entries of the identifiers, and no other. -/
structure Holds (block : BlockModel) (prediction : PredictionModel)
    (ids : List Text) (loaded : PredictionModel) : Prop where
  configurations : ∀ id, loaded.configurations.find? id =
    if id ∈ ids then some (entryOf block prediction id).config else none
  features : ∀ id, loaded.features.find? id =
    if id ∈ ids ∧ block.features.fields ≠ [] then
      some (entryOf block prediction id).features
    else none
  predictedResults : ∀ id, loaded.predictedResults.find? id =
    if id ∈ ids then some (entryOf block prediction id).output else none

theorem holds_clear : Holds block prediction [] .clear :=
  ⟨fun _ => rfl, fun _ => (if_neg fun hmem => nomatch hmem.1).symm,
    fun _ => rfl⟩

/-- A line with a new identifier is added to all the parts. -/
theorem holds_addEntry (hholds : Holds block prediction ids loaded)
    (hnew : id ∉ ids) :
    Holds block prediction (ids ++ [id])
      (addEntry loaded (entryOf block prediction id)) := by
  have hconfiguration : id ∉ loaded.configurations.keys := by
    rw [← UnorderedMap.find?_eq_none, hholds.configurations, if_neg hnew]
  have hfeature : id ∉ loaded.features.keys := by
    rw [← UnorderedMap.find?_eq_none, hholds.features,
      if_neg fun hmem => hnew hmem.1]
  have hresult : id ∉ loaded.predictedResults.keys := by
    rw [← UnorderedMap.find?_eq_none, hholds.predictedResults, if_neg hnew]
  have hmem : ∀ other, other ∈ ids ++ [id] ↔ other = id ∨ other ∈ ids := by
    intro other
    rw [List.mem_append, List.mem_singleton, or_comm]
  have hempty : (entryOf block prediction id).features.entries.isEmpty = true ↔
      block.features.fields = [] :=
    insertValues_isEmpty.trans List.map_eq_nil_iff
  have hadd := PredictionModel.addResult_of_not_mem
    (entryOf block prediction id).config (entryOf block prediction id).features
    (entryOf block prediction id).output hconfiguration hfeature hresult
  have hadded : addEntry loaded (entryOf block prediction id) = _ :=
    congrArg Prod.snd hadd
  rw [hadded]
  refine ⟨fun other => ?_, fun other => ?_, fun other => ?_⟩
  · rw [UnorderedMap.find?_insertOrAssign, hholds.configurations]
    by_cases hother : other = id <;> simp [hother, hmem, entryOf]
  · by_cases hfields : block.features.fields = []
    · simp only [hempty.mpr hfields, if_true]
      rw [hholds.features, if_neg fun hboth => hboth.2 hfields,
        if_neg fun hboth => hboth.2 hfields]
    · simp only [Bool.eq_false_iff.mpr fun hnone => hfields (hempty.mp hnone)]
      rw [if_neg Bool.false_ne_true, UnorderedMap.find?_insertOrAssign,
        hholds.features]
      by_cases hother : other = id <;> simp [hother, hmem, hfields, entryOf]
  · rw [UnorderedMap.find?_insertOrAssign, hholds.predictedResults]
    by_cases hother : other = id <;> simp [hother, hmem, entryOf]

theorem holds_foldl {rest : List Text} (hnodup : (ids ++ rest).Nodup)
    (hholds : Holds block prediction ids loaded) :
    Holds block prediction (ids ++ rest)
      ((rest.map (entryOf block prediction)).foldl addEntry loaded) := by
  induction rest generalizing ids loaded with
  | nil => simpa using hholds
  | cons id rest ih =>
      have hnew : id ∉ ids := by
        intro hid
        exact (List.disjoint_of_nodup_append hnodup) hid List.mem_cons_self
      rw [List.append_cons] at hnodup ⊢
      exact ih hnodup (holds_addEntry hholds hnew)

theorem nodup_lineIds [HashOrder Text] (block : BlockModel)
    (prediction : PredictionModel) : (lineIds block prediction).Nodup := by
  have hnodup := UnorderedMap.visitKeys_nodup prediction.configurations
  rw [lineIds]
  split
  · exact hnodup
  · exact hnodup.filter _

theorem mem_lineIds [HashOrder Text] :
    id ∈ lineIds block prediction ↔ id ∈ prediction.configurations.keys ∧
      (id = [] → 2 ≤ (header block).length) := by
  rw [lineIds]
  split
  · next hcolumns => simp [hcolumns]
  · next hcolumns => simp [hcolumns]

/-- The columns hold the same when each name finds its own value. -/
theorem columns_iff :
    (∀ column ∈ columns block prediction id,
      (columns block prediction id).lookup column.1 = some column.2) ↔
      (∀ knob ∈ block.knobs, found block prediction id knob.name =
        knobValue prediction id knob.name) ∧
      (∀ field ∈ block.features.fields, found block prediction id field.name =
        featureValue prediction id field.name) ∧
      ∀ metric ∈ block.metrics, foundMetric block prediction id metric.name =
        metricValue prediction id metric.name := by
  have hlookup : (∀ column ∈ columns block prediction id,
      (columns block prediction id).lookup column.1 = some column.2) ↔
        ∀ column ∈ columns block prediction id,
          found block prediction id column.1 = column.2 := by
    apply forall₂_congr
    intro column hcolumn
    rw [lookup_eq_first (List.mem_map_of_mem hcolumn), Option.some.injEq, found]
  have hid : found block prediction id "pred_id".toList = id := by
    rw [found, columns, first_cons_self]
  have hall : ∀ find : Text → Text,
      (∀ column ∈ columns block prediction id, find column.1 = column.2) ↔
        find "pred_id".toList = id ∧
        (∀ knob ∈ block.knobs, find knob.name =
          knobValue prediction id knob.name) ∧
        (∀ field ∈ block.features.fields, find field.name =
          featureValue prediction id field.name) ∧
        ∀ metric ∈ block.metrics, find (averageName metric) =
            (metricValue prediction id metric.name).avg ∧
          find (deviationName metric) =
            (metricValue prediction id metric.name).std := by
    intro find
    simp only [columns, List.forall_mem_cons, List.forall_mem_append,
      List.forall_mem_map, List.forall_mem_flatMap, List.not_mem_nil,
      false_implies, implies_true, and_true]
  have hmetric : ∀ metric : MetricModel,
      (found block prediction id (averageName metric) =
          (metricValue prediction id metric.name).avg ∧
        found block prediction id (deviationName metric) =
          (metricValue prediction id metric.name).std) ↔
        foundMetric block prediction id metric.name =
          metricValue prediction id metric.name := by
    intro metric
    rw [← MetricValueModel.mk.injEq]
    rfl
  rw [hlookup, hall, and_iff_right hid]
  simp only [hmetric]

/-- What is there is the same, and it is there when the other is. -/
theorem rel_ite_iff {V : Type} {p : Prop} [Decidable p]
    {first : UnorderedMap Text V} {second : Option (UnorderedMap Text V)} :
    Option.Rel Agrees (if p then some first else none) second ↔
      (p ↔ second.isSome = true) ∧
        ∀ table, second = some table → Agrees first table := by
  by_cases hp : p
  · cases second with
    | none => simp [hp]
    | some table => simp [hp]
  · cases second with
    | none => simp [hp]
    | some table => simp [hp]

theorem agrees_values_iff {V : Type}
    {table : UnorderedMap Text (UnorderedMap Text V)}
    {stored : UnorderedMap Text V} {value : Text → V} {names : List Text}
    (absent : V) (hstored : table.find? id = some stored)
    (hnames : ∀ name, name ∈ stored.keys ↔ name ∈ names) :
    Agrees (insertValues value names .empty) stored ↔
      ∀ name ∈ names, value name = (valueAt table id name).getD absent := by
  rw [agrees_insertValues_iff hnames]
  apply forall₂_congr
  intro name hname
  obtain ⟨found, hfound⟩ :=
    UnorderedMap.mem_keys_find?.mp ((hnames name).mpr hname)
  rw [valueAt, hstored, Option.bind_some, hfound, Option.some.injEq,
    Option.getD_some, eq_comm]

/-- The loaded prediction is the stored one when every line is read, and the
columns of one name hold the same. -/
theorem samePrediction_iff (hover : OverBlock block prediction)
    (hholds : Holds block prediction ids loaded)
    (hids : ∀ id ∈ ids, id ∈ prediction.configurations.keys) :
    SamePrediction loaded prediction ↔
      ∀ id ∈ prediction.configurations.keys, id ∈ ids ∧
        ∀ column ∈ columns block prediction id,
          (columns block prediction id).lookup column.1 = some column.2 := by
  have hconfiguration : ∀ id config,
      prediction.configurations.find? id = some config →
        (Agrees (entryOf block prediction id).config config ↔
          ∀ knob ∈ block.knobs, found block prediction id knob.name =
            knobValue prediction id knob.name) := by
    intro id config hfound
    exact (agrees_values_iff [] hfound (hover.knobNames id config hfound)).trans
      List.forall_mem_map
  have hfeature : ∀ id values, prediction.features.find? id = some values →
      (Agrees (entryOf block prediction id).features values ↔
        ∀ field ∈ block.features.fields, found block prediction id field.name =
          featureValue prediction id field.name) := by
    intro id values hfound
    exact (agrees_values_iff [] hfound
      (hover.featureNames id values hfound)).trans List.forall_mem_map
  have hresult : ∀ id values,
      prediction.predictedResults.find? id = some values →
        (Agrees (entryOf block prediction id).output values ↔
          ∀ metric ∈ block.metrics, foundMetric block prediction id metric.name =
            metricValue prediction id metric.name) := by
    intro id values hfound
    exact (agrees_values_iff ⟨[], []⟩ hfound
      (hover.metricNames id values hfound)).trans List.forall_mem_map
  constructor
  · intro hsame id hid
    obtain ⟨config, hconfig⟩ := UnorderedMap.mem_keys_find?.mp hid
    have hconfigs := hsame.configurations id
    rw [hholds.configurations, rel_ite_iff] at hconfigs
    have hloaded : id ∈ ids := by
      rw [hconfigs.1, hconfig]
      rfl
    have hresults := hsame.predictedResults id
    rw [hholds.predictedResults, rel_ite_iff] at hresults
    obtain ⟨values, hvalues⟩ :=
      UnorderedMap.mem_keys_find?.mp ((hover.results id).mpr hid)
    refine ⟨hloaded, columns_iff.mpr
      ⟨(hconfiguration id config hconfig).mp (hconfigs.2 config hconfig),
        fun field hfield => ?_,
        (hresult id values hvalues).mp (hresults.2 values hvalues)⟩⟩
    have hfeatures := hsame.features id
    rw [hholds.features, rel_ite_iff] at hfeatures
    obtain ⟨fields, hfields⟩ := UnorderedMap.mem_keys_find?.mp
      ((hover.features id).mpr ⟨hid, List.ne_nil_of_mem hfield⟩)
    exact (hfeature id fields hfields).mp (hfeatures.2 fields hfields) field
      hfield
  · intro hall
    have hkeys : ∀ id, id ∈ ids ↔ id ∈ prediction.configurations.keys :=
      fun id => ⟨hids id, fun hid => (hall id hid).1⟩
    have hpart : ∀ {V : Type} {table : UnorderedMap Text V} {id : Text},
        (table.find? id).isSome = true ↔ id ∈ table.keys := by
      intro V table id
      rw [Option.isSome_iff_exists]
      exact UnorderedMap.mem_keys_find?.symm
    refine ⟨fun id => ?_, fun id => ?_, fun id => ?_⟩
    · rw [hholds.configurations, rel_ite_iff, hpart]
      refine ⟨hkeys id, fun config hconfig => ?_⟩
      obtain ⟨-, hcolumns⟩ := hall id (UnorderedMap.mem_keys_find?.mpr
        ⟨config, hconfig⟩)
      exact (hconfiguration id config hconfig).mpr (columns_iff.mp hcolumns).1
    · rw [hholds.features, rel_ite_iff, hpart, hkeys, hover.features]
      refine ⟨Iff.rfl, fun values hvalues => ?_⟩
      have hid := UnorderedMap.mem_keys_find?.mpr ⟨values, hvalues⟩
      obtain ⟨-, hcolumns⟩ := hall id ((hover.features id).mp hid).1
      exact (hfeature id values hvalues).mpr (columns_iff.mp hcolumns).2.1
    · rw [hholds.predictedResults, rel_ite_iff, hpart, hkeys, hover.results]
      refine ⟨Iff.rfl, fun values hvalues => ?_⟩
      have hid := UnorderedMap.mem_keys_find?.mpr ⟨values, hvalues⟩
      obtain ⟨-, hcolumns⟩ := hall id ((hover.results id).mp hid)
      exact (hresult id values hvalues).mpr (columns_iff.mp hcolumns).2.2

end Loaded

theorem clean_of_isValidIdentifier {name : Text}
    (hname : isValidIdentifier name = true) : Clean name := by
  intro c hc
  rcases mem_of_isValidIdentifier hname hc with hdigit | rfl
  · simp only [List.mem_cons, List.not_mem_nil, or_false, not_or]
    refine ⟨?_, ?_, ?_, ?_⟩ <;> rintro rfl <;> contradiction
  · decide

theorem clean_header {block : BlockModel} (hvalid : ValidBlock block) :
    ∀ name ∈ header block, Clean name := by
  have hsuffix : ∀ {name suffix : Text}, isValidIdentifier name = true →
      Clean suffix → Clean (name ++ suffix) := by
    intro name suffix hname hsuffix c hc
    rcases List.mem_append.mp hc with hc | hc
    · exact clean_of_isValidIdentifier hname c hc
    · exact hsuffix c hc
  have havg : Clean "_avg".toList := by decide
  have hstd : Clean "_std".toList := by decide
  have hid : Clean "pred_id".toList := by decide
  simp only [header, List.forall_mem_cons, List.forall_mem_append,
    List.forall_mem_map, List.forall_mem_flatMap, List.not_mem_nil,
    false_implies, implies_true, and_true]
  exact ⟨hid,
    fun knob hknob => clean_of_isValidIdentifier (hvalid.knobs knob hknob).name,
    fun field hfield =>
      clean_of_isValidIdentifier (hvalid.features field hfield).name,
    fun metric hmetric => ⟨hsuffix (hvalid.metrics metric hmetric).name havg,
      hsuffix (hvalid.metrics metric hmetric).name hstd⟩⟩

/-- A prediction is loaded as it was stored exactly when its columns of one
name hold the same and its lines are not blank. -/
theorem prediction_loadsBack_iff [HashOrder Text] (reader : LineReader) (folder : Folder)
    {model app : ApplicationModel} (haccepted : validate model = .ok app)
    {block : BlockModel} (hblock : block ∈ app.blocks)
    {prediction : PredictionModel} (hover : OverBlock block prediction)
    (hclean : CleanCells block prediction) :
    LoadsBack reader.toReader folder block prediction ↔
      ∀ id ∈ prediction.configurations.keys,
        Retrievable block prediction id := by
  have hvalid := (validApplication_of_validate haccepted).blocks block hblock
  have hstore := storePrediction_eq folder hover
  have hread := readTable_columns reader (clean_header hvalid) hclean
    (store_self folder predictionsName _)
  have hclear : Holds block prediction [] .clear := holds_clear
  have hholds : Holds block prediction (lineIds block prediction)
      (((lineIds block prediction).map (entryOf block prediction)).foldl
        addEntry .clear) := by
    rw [← List.nil_append (lineIds block prediction)]
    exact holds_foldl (nodup_lineIds block prediction) hclear
  have hsame := samePrediction_iff hover hholds fun id hid =>
    (mem_lineIds.mp hid).1
  have hretrievable : (∀ id ∈ prediction.configurations.keys,
      id ∈ lineIds block prediction ∧
        ∀ column ∈ columns block prediction id,
          (columns block prediction id).lookup column.1 = some column.2) ↔
      ∀ id ∈ prediction.configurations.keys,
        Retrievable block prediction id := by
    apply forall₂_congr
    intro id hid
    rw [mem_lineIds, and_iff_right hid]
    exact ⟨fun hboth => ⟨hboth.2, hboth.1⟩, fun h => ⟨h.line, h.columns⟩⟩
  rw [← hretrievable, ← hsame, LoadsBack, hstore]
  have hloaded : loadPrediction reader.toReader (folder.store predictionsName
      (columnTable (header block) (columns block prediction)
        prediction.configurations.visitKeys)) block = ((lineIds block prediction).map
        (entryOf block prediction)).foldl addEntry .clear := by
    rw [loadPrediction, hread]
  constructor
  · rintro ⟨stored, hstored, hloads⟩
    obtain rfl := Option.some.inj hstored
    rw [hloaded] at hloads
    exact hloads
  · intro hloads
    refine ⟨_, rfl, ?_⟩
    rw [hloaded]
    exact hloads

section Shadowed

local instance shadowedOrder : HashOrder Text := HashOrder.stored Text

/-- The knob has the name of the average of the metric. -/
def shadowed : BlockModel :=
  { Heel.Sample.block with
    knobs := [⟨"latency_avg".toList, "int".toList, ["1".toList, "2".toList]⟩] }

def validShadowed : BlockModel :=
  (validateBlock shadowed).toOption.get (by decide +kernel)

def shadowedPrediction : PredictionModel where
  configurations := (UnorderedMap.empty.insertOrAssign "0".toList
    (UnorderedMap.empty.insertOrAssign "latency_avg".toList "1".toList).1).1
  features := .empty
  predictedResults := (UnorderedMap.empty.insertOrAssign "0".toList
    (UnorderedMap.empty.insertOrAssign "latency".toList
      ⟨"7".toList, "0".toList⟩).1).1

theorem accepted_shadowed :
    validate (Heel.Sample.application "1.0".toList shadowed) =
      .ok (Heel.Sample.application "1.0".toList validShadowed) :=
  rfl

theorem mem_shadowed : validShadowed ∈
    (Heel.Sample.application "1.0".toList validShadowed).blocks :=
  List.mem_singleton.mpr rfl

theorem overBlock_shadowed : OverBlock validShadowed shadowedPrediction where
  results _ := Iff.rfl
  features _ := by
    have hnone : validShadowed.features.fields = [] := by decide +kernel
    simp [hnone, shadowedPrediction, UnorderedMap.empty, UnorderedMap.keys]
  knobNames id config hconfig name := by
    have hnames : validShadowed.knobs.map (·.name) = ["latency_avg".toList] := by
      decide +kernel
    rw [shadowedPrediction, UnorderedMap.find?_insertOrAssign] at hconfig
    split at hconfig
    · obtain rfl := Option.some.inj hconfig
      rw [hnames]
      exact Iff.rfl
    · contradiction
  featureNames id values hvalues := nomatch hvalues
  metricNames id values hvalues name := by
    have hnames : validShadowed.metrics.map (·.name) = ["latency".toList] := by
      decide +kernel
    rw [shadowedPrediction, UnorderedMap.find?_insertOrAssign] at hvalues
    split at hvalues
    · obtain rfl := Option.some.inj hvalues
      rw [hnames]
      exact Iff.rfl
    · contradiction

theorem cleanCells_shadowed : CleanCells validShadowed shadowedPrediction := by
  unfold CleanCells
  decide +kernel

theorem prediction_loadsBack_iff_shadowed :
    LoadsBack splittingLines.toReader Sample.emptyFolder validShadowed
        shadowedPrediction ↔
      ∀ id ∈ shadowedPrediction.configurations.keys,
        Retrievable validShadowed shadowedPrediction id :=
  prediction_loadsBack_iff splittingLines Sample.emptyFolder accepted_shadowed
    mem_shadowed overBlock_shadowed cleanCells_shadowed

/-- The average of the metric is loaded as the value of the knob. -/
theorem not_prediction_loadsBack :
    ¬ ∀ [HashOrder Text] (reader : LineReader) (folder : Folder)
      (model app : ApplicationModel) (block : BlockModel)
      (prediction : PredictionModel), validate model = .ok app →
        block ∈ app.blocks → OverBlock block prediction →
          CleanCells block prediction →
            LoadsBack reader.toReader folder block prediction := by
  intro hall
  obtain ⟨stored, hstore, hsame⟩ := hall splittingLines Sample.emptyFolder _ _ _ _
    accepted_shadowed mem_shadowed overBlock_shadowed cleanCells_shadowed
  have hloaded : (storePrediction Sample.emptyFolder validShadowed
      shadowedPrediction).bind (fun stored => valueAt
        (loadPrediction splittingLines.toReader stored
          validShadowed).predictedResults "0".toList "latency".toList) =
      some ⟨"1".toList, "0".toList⟩ := by
    decide +kernel
  rw [hstore, Option.bind_some,
    valueAt_congr (hsame.predictedResults "0".toList)] at hloaded
  exact absurd hloaded (by decide +kernel)

end Shadowed

end PredictionStorage

end Margot.Agora
