/-
The storage of what the plugins for the design of experiments and for the
clustering produce, in tables of comma-separated values.  A knob or a feature
with the name of another column hides it from the loading.
-/
import Margot.Heel.Observation
import Margot.Heel.ParsedBlock
import Margot.Agora.Doe
import Margot.Agora.PredictionStorage

namespace Margot.Agora

open Heel Csv

namespace DoeModel

section Store

def header (description : BlockModel) : List Text :=
  "config_id".toList :: "counter".toList :: description.knobs.map (·.name)

/-- The line of a configuration; `at` throws where a knob has no value. -/
def entryCells (description : BlockModel) (entry : ConfigurationModel) :
    Option (List Cell) := do
  let knobs ← description.knobs.mapM fun knob =>
    entry.configuration.find? knob.name
  return .plain entry.configurationId ::
    .plain (integerText entry.numberOfExplorations) :: knobs.map .plain

/-- `CsvDoeStorage::store_doe` -/
def storeDoe (folder : Folder) (description : BlockModel) (doe : DoeModel) :
    Option Folder := do
  let rows ← doe.requiredExplorations.mapM (entryCells description)
  return folder.store doeName (table (header description) rows)

end Store

/-- The loaded configuration says the same. -/
structure SameEntry (loaded stored : ConfigurationModel) : Prop where
  id : loaded.configurationId = stored.configurationId
  configuration : PredictionStorage.Agrees loaded.configuration
    stored.configuration
  number : loaded.numberOfExplorations = stored.numberOfExplorations

/-- The configurations that are still required, in the order in which they are
loaded: each one is put in front of those before it. -/
def stillRequired (doe : DoeModel) : List ConfigurationModel :=
  (doe.requiredExplorations.filter fun entry =>
    0 < entry.numberOfExplorations).reverse

/-- The design is stored, and what is still required of it is loaded. -/
def LoadsBack (reader : Reader) (folder : Folder) (block : BlockModel)
    (doe : DoeModel) : Prop :=
  ∃ stored, storeDoe folder block doe = some stored ∧
    List.Forall₂ SameEntry (loadDoe reader stored block).requiredExplorations
      doe.stillRequired

/-- Every configuration has values for the knobs of the block, and a number of
explorations that is an `int`. -/
structure OverBlock (block : BlockModel) (doe : DoeModel) : Prop where
  knobs : ∀ entry ∈ doe.requiredExplorations, ∀ name,
    name ∈ entry.configuration.keys ↔ name ∈ block.knobs.map (·.name)
  fits : ∀ entry ∈ doe.requiredExplorations,
    -2 ^ 31 ≤ entry.numberOfExplorations ∧
      entry.numberOfExplorations < 2 ^ 31

/-- The columns of a configuration. -/
def columns (block : BlockModel) (entry : ConfigurationModel) : Row :=
  ("config_id".toList, entry.configurationId) ::
    ("counter".toList, integerText entry.numberOfExplorations) ::
      block.knobs.map fun knob =>
        (knob.name, (entry.configuration.find? knob.name).getD [])

/-- The identifier that is found, which a knob of its name hides. -/
def foundId (block : BlockModel) (entry : ConfigurationModel) : Text :=
  last (columns block entry) "config_id".toList

/-- The counter that is found, if it can be read. -/
def foundCounter (block : BlockModel) (entry : ConfigurationModel) :
    Option Int :=
  stoi (last (columns block entry) "counter".toList)

/-- What is still required is found as it was stored, and nothing else is found
to be required, up to a line that ends the loading; nothing is required from
there on. -/
def Retrievable (block : BlockModel) : List ConfigurationModel → Prop
  | [] => True
  | entry :: rest =>
      match foundCounter block entry with
      | none => ∀ other ∈ entry :: rest, other.numberOfExplorations ≤ 0
      | some counter =>
          (if 0 < entry.numberOfExplorations then
            foundId block entry = entry.configurationId ∧
              counter = entry.numberOfExplorations
          else counter ≤ 0) ∧
          Retrievable block rest

section Loading

variable {block : BlockModel} {doe : DoeModel} {entry : ConfigurationModel}

theorem map_fst_columns (block : BlockModel) (entry : ConfigurationModel) :
    (columns block entry).map Prod.fst = header block := by
  simp [columns, header, Function.comp_def]

theorem find?_configuration {names : List Text} {configuration : Configuration}
    (hnames : ∀ name, name ∈ configuration.keys ↔ name ∈ names) {name : Text}
    (hname : name ∈ names) :
    configuration.find? name = some ((configuration.find? name).getD []) := by
  obtain ⟨value, hvalue⟩ :=
    UnorderedMap.mem_keys_find?.mp ((hnames name).mpr hname)
  rw [hvalue]
  rfl

theorem storeDoe_eq (folder : Folder) (hover : OverBlock block doe) :
    storeDoe folder block doe = some (folder.store doeName
      (columnTable (header block) (columns block) doe.requiredExplorations)) := by
  have hrows : doe.requiredExplorations.mapM (entryCells block) =
      some (doe.requiredExplorations.map fun entry =>
        (columns block entry).map fun column => .plain column.2) := by
    rw [mapM_eq_some, List.map_map]
    apply List.map_congr_left
    intro entry hentry
    have hknobs : (block.knobs.mapM fun knob =>
        entry.configuration.find? knob.name) =
          some (block.knobs.map fun knob =>
            (entry.configuration.find? knob.name).getD []) := by
      rw [mapM_eq_some, List.map_map]
      apply List.map_congr_left
      intro knob hknob
      exact find?_configuration (hover.knobs entry hentry)
        (List.mem_map_of_mem hknob)
    rw [entryCells, hknobs]
    simp [columns, Function.comp_def]
  rw [storeDoe, hrows]
  rfl

/-- The configuration of the values that are found. -/
def configurationOf (value : Text → Text) : List KnobModel → Configuration
  | [] => .empty
  | knob :: rest =>
      (configurationOf value rest).emplace knob.name (value knob.name)

theorem find?_configurationOf (value : Text → Text) (knobs : List KnobModel)
    (name : Text) :
    (configurationOf value knobs).find? name =
      if name ∈ knobs.map (·.name) then some (value name) else none := by
  induction knobs generalizing name with
  | nil => rfl
  | cons knob rest ih =>
      have hkeys : knob.name ∉ (configurationOf value rest).keys ↔
          knob.name ∉ rest.map (·.name) := by
        rw [← UnorderedMap.find?_eq_none, ih]
        split <;> simp_all
      rw [configurationOf, UnorderedMap.find?_emplace, ih]
      by_cases hname : name = knob.name
      · subst hname
        by_cases hmem : knob.name ∈ rest.map (·.name)
        · simp [hmem, hkeys]
        · simp [hmem, hkeys]
      · simp [hname]

/-- The value of a knob in a configuration. -/
def knobValue (entry : ConfigurationModel) (name : Text) : Text :=
  (entry.configuration.find? name).getD []

/-- No other column hides that of a knob. -/
theorem last_knob {name : Text} (hname : name ∈ block.knobs.map (·.name)) :
    last (columns block entry) name = knobValue entry name := by
  have hknobs := last_map KnobModel.name (knobValue entry) hname
  have hmem : name ∈ (block.knobs.map fun knob => (knob.name,
      (entry.configuration.find? knob.name).getD [])).map Prod.fst := by
    simpa using hname
  rw [columns, last_cons_of_mem _ (List.mem_cons_of_mem _ hmem),
    last_cons_of_mem _ hmem]
  exact hknobs

theorem readConfiguration_columns (block : BlockModel)
    (entry : ConfigurationModel) {knobs : List KnobModel}
    (hknobs : ∀ knob ∈ knobs, knob ∈ block.knobs) :
    readConfiguration (columns block entry) knobs =
      .ok (configurationOf (knobValue entry) knobs) := by
  induction knobs with
  | nil => rfl
  | cons knob rest ih =>
      rw [List.forall_mem_cons] at hknobs
      have hname : knob.name ∈ block.knobs.map (·.name) :=
        List.mem_map_of_mem hknobs.1
      have hcolumn : knob.name ∈ (columns block entry).map Prod.fst := by
        rw [map_fst_columns]
        exact List.mem_cons_of_mem _ (List.mem_cons_of_mem _ hname)
      rw [readConfiguration, get_columns hcolumn, last_knob hname, ih hknobs.2]
      rfl

theorem stoi_integerText {value : Int}
    (hfits : -2 ^ 31 ≤ value ∧ value < 2 ^ 31) :
    stoi (integerText value) = some value := by
  have hread : leadingInteger (integerText value) = some value := by
    have hvalue : ∀ n : Nat, Nat.ofDigitChars 10 (numeral n) 0 = n :=
      fun n => Nat.ofDigitChars_ten_toDigits
    rw [integerText]
    split
    · next hneg =>
        let leading : LeadingNumeral ('-' :: numeral value.natAbs) :=
          ⟨[], ['-'], numeral value.natAbs, [], by simp, by simp, by simp,
            numeral_ne_nil _, fun c => isDigit_of_mem_numeral, by simp⟩
        rw [leadingInteger_of_numeral leading]
        have hnegative : leading.value = -(value.natAbs : Int) := by
          simp only [LeadingNumeral.value, leading, if_true, hvalue]
        rw [hnegative, Option.some.injEq]
        omega
    · next hpos =>
        rw [leadingInteger_numeral]
        change some (value.natAbs : Int) = some value
        rw [Option.some.injEq]
        omega
  rw [stoi, hread, Option.filter_some, if_pos (decide_eq_true hfits)]

/-- What is loaded of a configuration. -/
def entryOf (block : BlockModel) (entry : ConfigurationModel) (counter : Int) :
    ConfigurationModel :=
  ⟨foundId block entry, configurationOf (knobValue entry) block.knobs, counter⟩

theorem readEntry_columns (block : BlockModel) (entry : ConfigurationModel) :
    readEntry block (columns block entry) =
      match foundCounter block entry with
      | none => .error "stoi".toList
      | some counter =>
          .ok (if 0 < counter then some (entryOf block entry counter)
            else none) := by
  have hcolumn : ∀ name ∈ ["config_id".toList, "counter".toList],
      get name (columns block entry) =
        .ok (last (columns block entry) name) := by
    intro name hname
    apply get_columns
    rw [map_fst_columns, header]
    exact List.mem_append_left (block.knobs.map (·.name)) hname
  have hid := hcolumn _ List.mem_cons_self
  have hcounter := hcolumn _ (List.mem_cons_of_mem _ List.mem_cons_self)
  rw [readEntry, hid, hcounter, foundCounter]
  simp only [bind, Except.bind]
  cases stoi (last (columns block entry) "counter".toList) with
  | none => rfl
  | some counter =>
      rw [readConfiguration_columns block entry fun _ hknob => hknob]
      simp only
      split <;> rfl

/-- What is loaded, up to the line that ends the loading. -/
def loadedEntries (block : BlockModel) :
    List ConfigurationModel → List ConfigurationModel
  | [] => []
  | entry :: rest =>
      match foundCounter block entry with
      | none => []
      | some counter =>
          if 0 < counter then
            entryOf block entry counter :: loadedEntries block rest
          else loadedEntries block rest

theorem readRows_columns (block : BlockModel)
    (entries : List ConfigurationModel) :
    (readRows (readEntry block) (entries.map (columns block))).1.filterMap id =
      loadedEntries block entries := by
  induction entries with
  | nil => rfl
  | cons entry rest ih =>
      rw [List.map_cons, readRows, readEntry_columns, loadedEntries]
      cases foundCounter block entry with
      | none => rfl
      | some counter =>
          by_cases hrequired : 0 < counter
          · simpa [hrequired] using ih
          · simpa [hrequired] using ih

theorem foldl_addConfig (entries : List ConfigurationModel) (doe : DoeModel) :
    (entries.foldl addConfig doe).requiredExplorations =
      entries.reverse ++ doe.requiredExplorations := by
  induction entries generalizing doe with
  | nil => rfl
  | cons entry rest ih =>
      rw [List.foldl_cons, ih]
      simp [addConfig]

end Loading

section Found

variable {block : BlockModel} {doe : DoeModel} {entry : ConfigurationModel}
  {counter : Int}

/-- The configuration itself is always loaded as it was stored. -/
theorem agrees_entryOf (hknobs : ∀ name, name ∈ entry.configuration.keys ↔
      name ∈ block.knobs.map (·.name)) :
    PredictionStorage.Agrees (entryOf block entry counter).configuration
      entry.configuration := by
  intro name
  rw [entryOf, find?_configurationOf]
  split
  · next hname => exact (find?_configuration hknobs hname).symm
  · next hname =>
      exact (UnorderedMap.find?_eq_none.mpr fun hkey =>
        hname ((hknobs name).mp hkey)).symm

theorem sameEntry_entryOf_iff (hknobs : ∀ name,
      name ∈ entry.configuration.keys ↔ name ∈ block.knobs.map (·.name)) :
    SameEntry (entryOf block entry counter) entry ↔
      foundId block entry = entry.configurationId ∧
        counter = entry.numberOfExplorations :=
  ⟨fun hsame => ⟨hsame.id, hsame.number⟩,
    fun hfound => ⟨hfound.1, agrees_entryOf hknobs, hfound.2⟩⟩

/-- What is loaded comes from one of the stored configurations. -/
theorem mem_loadedEntries {entries : List ConfigurationModel}
    {loaded : ConfigurationModel}
    (hloaded : loaded ∈ loadedEntries block entries) :
    ∃ entry ∈ entries, ∃ counter, entryOf block entry counter = loaded := by
  induction entries with
  | nil => contradiction
  | cons entry rest ih =>
      have hrest : loaded ∈ loadedEntries block rest → ∃ other ∈ entry :: rest,
          ∃ counter, entryOf block other counter = loaded := by
        intro hmem
        obtain ⟨other, hother, hcounter⟩ := ih hmem
        exact ⟨other, List.mem_cons_of_mem entry hother, hcounter⟩
      rw [loadedEntries] at hloaded
      split at hloaded
      · contradiction
      · next counter _ =>
          split at hloaded
          · rcases List.mem_cons.mp hloaded with rfl | hmem
            · exact ⟨entry, List.mem_cons_self, counter, rfl⟩
            · exact hrest hmem
          · exact hrest hloaded

/-- Different configurations cannot be taken for each other. -/
theorem forall₂_loadedEntries_iff {entries : List ConfigurationModel}
    (hknobs : ∀ entry ∈ entries, ∀ name, name ∈ entry.configuration.keys ↔
      name ∈ block.knobs.map (·.name))
    (hdistinct : entries.Pairwise fun first second =>
      ¬ PredictionStorage.Agrees second.configuration first.configuration) :
    List.Forall₂ SameEntry (loadedEntries block entries)
        (entries.filter fun entry => 0 < entry.numberOfExplorations) ↔
      Retrievable block entries := by
  induction entries with
  | nil => exact iff_of_true .nil trivial
  | cons entry rest ih =>
      rw [List.forall_mem_cons] at hknobs
      rw [List.pairwise_cons] at hdistinct
      have hrest := ih hknobs.2 hdistinct.2
      rw [loadedEntries, Retrievable, List.filter_cons]
      cases foundCounter block entry with
      | none =>
          simp only [List.forall₂_nil_left_iff, List.forall_mem_cons]
          by_cases hrequired : 0 < entry.numberOfExplorations
          · simp [hrequired]
          · simp [hrequired, Int.not_lt.mp hrequired]
      | some counter =>
          simp only
          by_cases hrequired : 0 < entry.numberOfExplorations
          · by_cases hfound : 0 < counter
            · simp only [hrequired, hfound, if_true, decide_true,
                List.forall₂_cons, hrest, sameEntry_entryOf_iff hknobs.1]
            · -- nothing after it can be loaded in its place
              have hother : ¬ List.Forall₂ SameEntry (loadedEntries block rest)
                  (entry :: rest.filter fun entry =>
                    0 < entry.numberOfExplorations) := by
                intro hsame
                obtain ⟨loaded, others, hsame, -, hloaded⟩ :=
                  List.forall₂_cons_right_iff.mp hsame
                obtain ⟨other, hother, number, rfl⟩ := mem_loadedEntries
                  (hloaded ▸ List.mem_cons_self :
                    loaded ∈ loadedEntries block rest)
                refine hdistinct.1 other hother fun name => ?_
                rw [← agrees_entryOf (hknobs.2 other hother) name]
                exact hsame.configuration name
              simp only [hrequired, hfound, if_true, if_false, decide_true]
              refine iff_of_false hother fun hretrievable => hfound ?_
              rw [hretrievable.1.2]
              exact hrequired
          · by_cases hfound : 0 < counter
            · have hother : ¬ List.Forall₂ SameEntry
                  (entryOf block entry counter :: loadedEntries block rest)
                  (rest.filter fun entry => 0 < entry.numberOfExplorations) := by
                intro hsame
                obtain ⟨other, others, hsame, -, hrequired⟩ :=
                  List.forall₂_cons_left_iff.mp hsame
                have hmem : other ∈ rest := List.mem_of_mem_filter
                  (hrequired ▸ List.mem_cons_self)
                refine hdistinct.1 other hmem fun name => ?_
                rw [← hsame.configuration name]
                exact agrees_entryOf hknobs.1 name
              simp only [hrequired, hfound, if_true, if_false, decide_false,
                Bool.false_eq_true]
              exact iff_of_false hother fun hretrievable =>
                absurd hfound (Int.not_lt.mpr hretrievable.1)
            · simp only [hrequired, hfound, if_false, decide_false,
                Bool.false_eq_true, hrest, Int.not_lt.mp hfound, true_and]

/-- What is loaded after the storing. -/
theorem loadDoe_columns (reader : Reader) {folder : Folder}
    (hnames : ∀ name ∈ header block, Clean name)
    (hclean : ∀ entry ∈ doe.requiredExplorations,
      ∀ column ∈ columns block entry, Clean column.2)
    (hfile : folder doeName = some (columnTable (header block) (columns block)
      doe.requiredExplorations)) :
    (loadDoe reader folder block).requiredExplorations =
      (loadedEntries block doe.requiredExplorations).reverse := by
  have hcolumns : 2 ≤ (header block).length := by
    rw [header, List.length_cons, List.length_cons]
    omega
  have hread := readTable_columnTable reader (readEntry block)
    (fun entry _ => map_fst_columns block entry) hcolumns hnames hclean hfile
  rw [loadDoe, hread, foldl_addConfig, clear, List.append_nil,
    readRows_columns]

/-- Without a knob of the name of another column everything is found. -/
theorem retrievable_of_plain (hover : OverBlock block doe)
    (hid : "config_id".toList ∉ block.knobs.map (·.name))
    (hcounter : "counter".toList ∉ block.knobs.map (·.name)) :
    Retrievable block doe.requiredExplorations := by
  have hfits := hover.fits
  generalize doe.requiredExplorations = entries at hfits
  induction entries with
  | nil => trivial
  | cons entry rest ih =>
      rw [List.forall_mem_cons] at hfits
      have hknobs : ∀ name, name ∉ block.knobs.map (·.name) →
          name ∉ (block.knobs.map fun knob =>
            (knob.name, (entry.configuration.find? knob.name).getD [])).map
              Prod.fst := by
        intro name hname
        simpa using hname
      have hfound : foundCounter block entry =
          some entry.numberOfExplorations := by
        rw [foundCounter, columns, last_cons_of_mem _ List.mem_cons_self,
          last_cons_of_not_mem (hknobs _ hcounter),
          stoi_integerText hfits.1]
      have hother : "config_id".toList ≠ "counter".toList := by decide
      have hfoundId : foundId block entry = entry.configurationId := by
        rw [foundId, columns]
        apply last_cons_of_not_mem
        exact List.not_mem_cons_of_ne_of_not_mem hother (hknobs _ hid)
      rw [Retrievable, hfound]
      refine ⟨?_, ih hfits.2⟩
      split
      · exact ⟨hfoundId, rfl⟩
      · next hexhausted => exact Int.not_lt.mp hexhausted

end Found

theorem clean_integerText (value : Int) : Clean (integerText value) := by
  have hdigits : ∀ c ∈ [',', '"', '\n', '\r'], c.isDigit = false := by decide
  have hnumeral : ∀ n : Nat, Clean (numeral n) := by
    intro n c hc hmem
    have hdigit := isDigit_of_mem_numeral hc
    rw [hdigits c hmem] at hdigit
    contradiction
  rw [integerText]
  split
  · exact List.forall_mem_cons.mpr ⟨by decide, hnumeral _⟩
  · exact hnumeral _

/-- The cells of a design are those of a table. -/
def CleanCells (block : BlockModel) (doe : DoeModel) : Prop :=
  ∀ entry ∈ doe.requiredExplorations, Clean entry.configurationId ∧
    ∀ knob ∈ block.knobs,
      Clean ((entry.configuration.find? knob.name).getD [])

theorem clean_header (b : AgoraBlock) :
    ∀ name ∈ header b.block, Clean name := by
  rw [header, List.forall_mem_cons, List.forall_mem_cons, List.forall_mem_map]
  exact ⟨by decide, by decide, fun knob hknob =>
    PredictionStorage.clean_of_isValidIdentifier
      (b.valid.knobs knob hknob).name⟩

/-- What is still required of different configurations is loaded as it was
stored, the other way round, exactly when the design is retrievable. -/
theorem doe_loadsBack_iff (reader : Reader) (folder : Folder) (b : AgoraBlock)
    {doe : DoeModel} (hover : OverBlock b.block doe)
    (hdistinct : doe.requiredExplorations.Pairwise fun first second =>
      ¬ PredictionStorage.Agrees second.configuration first.configuration)
    (hclean : CleanCells b.block doe) :
    LoadsBack reader folder b.block doe ↔
      Retrievable b.block doe.requiredExplorations := by
  have hvalues : ∀ entry ∈ doe.requiredExplorations,
      ∀ column ∈ columns b.block entry, Clean column.2 := by
    intro entry hentry
    obtain ⟨hid, hknobs⟩ := hclean entry hentry
    rw [columns, List.forall_mem_cons, List.forall_mem_cons,
      List.forall_mem_map]
    exact ⟨hid, clean_integerText _, hknobs⟩
  have hloaded := loadDoe_columns reader (clean_header b) hvalues
    (store_self folder doeName _)
  rw [LoadsBack, storeDoe_eq folder hover,
    ← forall₂_loadedEntries_iff hover.knobs hdistinct,
    ← List.forall₂_reverse_iff, ← hloaded]
  constructor
  · rintro ⟨stored, hstored, hsame⟩
    obtain rfl := Option.some.inj hstored
    exact hsame
  · exact fun hsame => ⟨_, rfl, hsame⟩

section Stored

/-- Two configurations of the small application, of which the second one is
exhausted. -/
def explored : DoeModel :=
  ⟨[⟨"0".toList, UnorderedMap.empty.emplace "threads".toList "1".toList, 2⟩,
    ⟨"1".toList, UnorderedMap.empty.emplace "threads".toList "2".toList, 0⟩]⟩

def exploredBlock : AgoraBlock :=
  Heel.Sample.agoraBlock "1.0".toList (List.cons_ne_nil _ _)

theorem doe_loadsBack_iff_explored :
    LoadsBack splitting Sample.emptyFolder exploredBlock.block explored ↔
      Retrievable exploredBlock.block explored.requiredExplorations := by
  apply doe_loadsBack_iff splitting Sample.emptyFolder exploredBlock
  · refine ⟨?_, by decide⟩
    intro entry hentry name
    simp only [explored, List.mem_cons, List.not_mem_nil, or_false] at hentry
    rcases hentry with rfl | rfl
    · exact Iff.rfl
    · exact Iff.rfl
  · refine List.pairwise_pair.mpr fun hagrees => ?_
    exact absurd (hagrees "threads".toList) (by decide +kernel)
  · intro entry hentry
    simp only [explored, List.mem_cons, List.not_mem_nil, or_false] at hentry
    rcases hentry with rfl | rfl
    · exact ⟨by decide, by decide +kernel⟩
    · exact ⟨by decide, by decide +kernel⟩

end Stored

end DoeModel

namespace ClusterModel

section Store

def clusterName : Text := "centroids.csv".toList

def header (description : BlockModel) : List Text :=
  "centroid_id".toList :: description.features.fields.map (·.name)

/-- The values of a centroid. -/
def centroid (cluster : ClusterModel) (id : Text) : List Text :=
  (cluster.centroids.find? id).getD []

/-- `CsvClusterStorage::store_cluster`: all the values of a centroid are
written, as many as there are. -/
def storeCluster [HashOrder Text] (folder : Folder) (description : BlockModel)
    (cluster : ClusterModel) : Folder :=
  folder.store clusterName (table (header description)
    (cluster.centroids.visitKeys.map fun id =>
      .plain id :: (cluster.centroid id).map .plain))

end Store

section Load

def addCentroid (cluster : ClusterModel) (centroid : Text × List Text) :
    ClusterModel :=
  ⟨(cluster.centroids.insertOrAssign centroid.1 centroid.2).1⟩

def readCentroid (description : BlockModel) (row : Row) :
    Checked (Text × List Text) := do
  let id ← get "centroid_id".toList row
  let values ← description.features.fields.mapM fun feature =>
    get feature.name row
  return (id, values)

/-- `CsvClusterStorage::load_cluster`: what is read before anything throws. -/
def loadCluster (reader : Reader) (folder : Folder) (description : BlockModel) :
    ClusterModel :=
  (readTable reader folder clusterName
    (readCentroid description)).1.foldl addCentroid .clear

end Load

/-- The clusters are stored, and loaded as the same. -/
def LoadsBack [HashOrder Text] (reader : Reader) (folder : Folder)
    (block : BlockModel) (cluster : ClusterModel) : Prop :=
  PredictionStorage.Agrees (loadCluster reader
    (storeCluster folder block cluster) block).centroids cluster.centroids

/-- Every centroid has a value for each of the features. -/
def OverBlock (block : BlockModel) (cluster : ClusterModel) : Prop :=
  ∀ id ∈ cluster.centroids.keys,
    (cluster.centroid id).length = block.features.fields.length

/-- The columns of a centroid. -/
def columns (block : BlockModel) (cluster : ClusterModel) (id : Text) : Row :=
  ("centroid_id".toList, id) ::
    (block.features.fields.map (·.name)).zip (cluster.centroid id)

/-- The columns of one name hold the same. -/
def Retrievable (block : BlockModel) (cluster : ClusterModel) (id : Text) :
    Prop :=
  ∀ column ∈ columns block cluster id,
    last (columns block cluster id) column.1 = column.2

/-- The cells of the clusters are those of a table. -/
def CleanCells (cluster : ClusterModel) : Prop :=
  ∀ id ∈ cluster.centroids.keys, Clean id ∧
    ∀ value ∈ cluster.centroid id, Clean value

section Loading

variable {block : BlockModel} {cluster : ClusterModel} {id : Text}

theorem map_fst_columns
    (hlength : (cluster.centroid id).length = block.features.fields.length) :
    (columns block cluster id).map Prod.fst = header block := by
  rw [columns, header, List.map_cons, List.map_fst_zip]
  rw [List.length_map, hlength]

/-- The identifier that is found, which a feature of its name hides. -/
def foundId (block : BlockModel) (cluster : ClusterModel) (id : Text) : Text :=
  last (columns block cluster id) "centroid_id".toList

/-- What is loaded of a centroid. -/
def foundCentroid (block : BlockModel) (cluster : ClusterModel) (id : Text) :
    List Text :=
  (block.features.fields.map (·.name)).map (last (columns block cluster id))

theorem readCentroid_columns
    (hlength : (cluster.centroid id).length = block.features.fields.length) :
    readCentroid block (columns block cluster id) =
      .ok (foundId block cluster id, foundCentroid block cluster id) := by
  have hid : Csv.get "centroid_id".toList (columns block cluster id) =
      .ok (foundId block cluster id) := by
    apply get_columns
    exact List.mem_cons_self
  have hvalues : (block.features.fields.mapM fun feature =>
      Csv.get feature.name (columns block cluster id)) =
        .ok (foundCentroid block cluster id) := by
    rw [foundCentroid, List.map_map]
    apply mapM_ok
    intro feature hfeature
    apply get_columns
    rw [map_fst_columns hlength]
    exact List.mem_cons_of_mem _ (List.mem_map_of_mem hfeature)
  rw [readCentroid, hid, hvalues]
  rfl

theorem map_eq_iff_forall_mem_zip {α β : Type} {f : α → β} {names : List α}
    {values : List β} (hlength : names.length = values.length) :
    names.map f = values ↔ ∀ column ∈ names.zip values,
      f column.1 = column.2 := by
  induction names generalizing values with
  | nil =>
      cases values with
      | nil => simp
      | cons value others => contradiction
  | cons name rest ih =>
      cases values with
      | nil => contradiction
      | cons value others =>
          rw [List.length_cons, List.length_cons, Nat.add_right_cancel_iff]
            at hlength
          rw [List.map_cons, List.cons.injEq, List.zip_cons_cons,
            List.forall_mem_cons, ih hlength]

/-- A centroid is found as it was stored when the columns of one name hold the
same. -/
theorem retrievable_iff
    (hlength : (cluster.centroid id).length = block.features.fields.length) :
    Retrievable block cluster id ↔ foundId block cluster id = id ∧
      foundCentroid block cluster id = cluster.centroid id := by
  have hnames : (block.features.fields.map (·.name)).length =
      (cluster.centroid id).length := by
    rw [List.length_map, hlength]
  rw [foundCentroid, map_eq_iff_forall_mem_zip hnames, foundId, Retrievable]
  exact List.forall_mem_cons

/-- A centroid that is found in another line has the columns of one name hold
the same, as they do in that line. -/
theorem retrievable_of_found {other : Text}
    (hlength : (cluster.centroid id).length = block.features.fields.length)
    (hid : foundId block cluster other = id)
    (hcentroid : foundCentroid block cluster other = cluster.centroid id) :
    Retrievable block cluster id := by
  have hcolumns : columns block cluster id = ("centroid_id".toList, id) ::
      (block.features.fields.map (·.name)).map fun name =>
        (name, last (columns block cluster other) name) := by
    rw [columns, ← hcentroid, foundCentroid, List.map_prod_left_eq_zip]
  have hfound : ∀ name ∈ block.features.fields.map (·.name),
      last (columns block cluster id) name =
        last (columns block cluster other) name := by
    intro name hname
    rw [hcolumns, last_cons_of_mem _ (by simpa using hname)]
    refine last_map (fun name => name) _ ?_
    simpa using hname
  refine (retrievable_iff hlength).mpr ⟨?_, ?_⟩
  · by_cases hname : "centroid_id".toList ∈ block.features.fields.map (·.name)
    · exact (hfound _ hname).trans hid
    · rw [foundId, hcolumns]
      exact last_cons_of_not_mem (by simpa using hname)
  · rw [← hcentroid]
    exact List.map_congr_left hfound

theorem storeCluster_eq [HashOrder Text] (folder : Folder)
    (hover : OverBlock block cluster) :
    storeCluster folder block cluster = folder.store clusterName
      (columnTable (header block) (columns block cluster)
        cluster.centroids.visitKeys) := by
  rw [storeCluster, columnTable]
  congr 2
  apply List.map_congr_left
  intro id hid
  have hlength := hover id (UnorderedMap.mem_visitKeys.mp hid)
  have hvalues : ((block.features.fields.map (·.name)).zip
      (cluster.centroid id)).map Prod.snd = cluster.centroid id := by
    apply List.map_snd_zip
    rw [List.length_map, hlength]
  rw [columns, List.map_cons]
  conv_lhs => rw [← hvalues, List.map_map]
  rfl

/-- The centroids that are added, one after the other. -/
theorem find?_foldl_addCentroid {ids : List Text} (values : Text → List Text)
    (cluster : ClusterModel) (key : Text) :
    ((ids.map fun id => (id, values id)).foldl addCentroid
        cluster).centroids.find? key =
      if key ∈ ids then some (values key) else cluster.centroids.find? key := by
  induction ids generalizing cluster with
  | nil => rfl
  | cons id rest ih =>
      rw [List.map_cons, List.foldl_cons, ih, addCentroid,
        UnorderedMap.find?_insertOrAssign]
      by_cases hrest : key ∈ rest
      · simp [hrest]
      · by_cases hkey : key = id <;> simp [hrest, hkey]

/-- A centroid that is found has been added, unless it was there before. -/
theorem mem_of_find?_foldl {centroids : List (Text × List Text)} {key : Text}
    {values : List Text}
    (hfind : (centroids.foldl addCentroid cluster).centroids.find? key =
      some values) :
    (key, values) ∈ centroids ∨
      cluster.centroids.find? key = some values := by
  induction centroids generalizing cluster with
  | nil => exact .inr hfind
  | cons head rest ih =>
      rcases ih hfind with hrest | hfirst
      · exact .inl (List.mem_cons_of_mem head hrest)
      · rw [addCentroid, UnorderedMap.find?_insertOrAssign] at hfirst
        split at hfirst
        · next hkey =>
            obtain rfl := Option.some.inj hfirst
            subst hkey
            exact .inl List.mem_cons_self
        · exact .inr hfirst

/-- What is loaded after the storing. -/
theorem loadCluster_storeCluster [HashOrder Text] (reader : Reader)
    (folder : Folder) (b : AgoraBlock)
    (hfields : b.block.features.fields ≠ [])
    (hover : OverBlock b.block cluster) (hclean : CleanCells cluster) :
    loadCluster reader (storeCluster folder b.block cluster) b.block =
      (cluster.centroids.visitKeys.map fun id =>
        (foundId b.block cluster id,
          foundCentroid b.block cluster id)).foldl addCentroid .clear := by
  have hcolumns : 2 ≤ (header b.block).length := by
    have hsome := List.length_pos_of_ne_nil hfields
    rw [header, List.length_cons, List.length_map]
    omega
  have hnames : ∀ name ∈ header b.block, Clean name := by
    rw [header, List.forall_mem_cons, List.forall_mem_map]
    exact ⟨by decide, fun field hfield =>
      PredictionStorage.clean_of_isValidIdentifier
        (b.valid.features field hfield).name⟩
  have hvalues : ∀ id ∈ cluster.centroids.visitKeys,
      ∀ column ∈ columns b.block cluster id, Clean column.2 := by
    intro id hid
    obtain ⟨hclean, hall⟩ := hclean id (UnorderedMap.mem_visitKeys.mp hid)
    rw [columns, List.forall_mem_cons]
    exact ⟨hclean, fun column hcolumn =>
      hall column.2 (List.of_mem_zip hcolumn).2⟩
  have hlengths : ∀ id ∈ cluster.centroids.visitKeys,
      (cluster.centroid id).length = b.block.features.fields.length :=
    fun id hid => hover id (UnorderedMap.mem_visitKeys.mp hid)
  have hread := readTable_columns reader
    (fun id hid => map_fst_columns (hlengths id hid)) hcolumns hnames hvalues
    (fun id hid => readCentroid_columns (hlengths id hid))
    (store_self folder clusterName _)
  rw [storeCluster_eq folder hover, loadCluster]
  exact congrArg (fun table => table.1.foldl addCentroid clear) hread

end Loading

/-- The clusters of a block with features are loaded as they were stored exactly
when no feature has the name of another column and a value of its own. -/
theorem cluster_loadsBack_iff [HashOrder Text] (reader : Reader)
    (folder : Folder) (b : AgoraBlock) {cluster : ClusterModel}
    (hfields : b.block.features.fields ≠ [])
    (hover : OverBlock b.block cluster) (hclean : CleanCells cluster) :
    LoadsBack reader folder b.block cluster ↔
      ∀ id ∈ cluster.centroids.keys, Retrievable b.block cluster id := by
  have hloaded := loadCluster_storeCluster reader folder b hfields hover hclean
  rw [LoadsBack, PredictionStorage.Agrees, hloaded]
  constructor
  · intro hagrees id hid
    obtain ⟨values, hvalues⟩ := UnorderedMap.mem_keys_find?.mp hid
    have hfound := (hagrees id).trans hvalues
    rcases mem_of_find?_foldl hfound with hmem | hclear
    · obtain ⟨other, -, heq⟩ := List.mem_map.mp hmem
      obtain ⟨hfoundId, rfl⟩ := Prod.mk.inj heq
      refine retrievable_of_found (hover id hid) hfoundId ?_
      rw [centroid, hvalues, Option.getD_some]
    · contradiction
  · intro hall key
    have hsame : (cluster.centroids.visitKeys.map fun id =>
        (foundId b.block cluster id, foundCentroid b.block cluster id)) =
          cluster.centroids.visitKeys.map fun id =>
            (id, cluster.centroid id) := by
      apply List.map_congr_left
      intro id hid
      have hmem := UnorderedMap.mem_visitKeys.mp hid
      obtain ⟨hfoundId, hcentroid⟩ :=
        (retrievable_iff (hover id hmem)).mp (hall id hmem)
      rw [hfoundId, hcentroid]
    rw [hsame, find?_foldl_addCentroid]
    simp only [UnorderedMap.mem_visitKeys]
    split
    · next hid =>
        obtain ⟨values, hvalues⟩ := UnorderedMap.mem_keys_find?.mp hid
        rw [centroid, hvalues, Option.getD_some]
    · next hid => exact (UnorderedMap.find?_eq_none.mpr hid).symm

section Stored

open Heel.Sample (application featured validFeatured validate_featured)

local instance clusteringOrder : HashOrder Text := HashOrder.stored Text

/-- The small application with a feature. -/
def clusteredBlock : AgoraBlock where
  model := application "1.0".toList (featured .euclidean)
  app := application "1.0".toList (validFeatured .euclidean)
  accepted := validate_featured .euclidean
  block := validFeatured .euclidean
  mem := List.mem_singleton.mpr rfl
  enabled := rfl

def clustered : ClusterModel :=
  ⟨UnorderedMap.empty.emplace "0".toList ["512".toList]⟩

theorem cluster_loadsBack_iff_clustered :
    LoadsBack splitting Sample.emptyFolder clusteredBlock.block clustered ↔
      ∀ id ∈ clustered.centroids.keys,
        Retrievable clusteredBlock.block clustered id := by
  apply cluster_loadsBack_iff splitting Sample.emptyFolder clusteredBlock
  · exact List.cons_ne_nil _ _
  · intro id hid
    obtain rfl := List.mem_singleton.mp hid
    decide +kernel
  · intro id hid
    obtain rfl := List.mem_singleton.mp hid
    decide +kernel

end Stored

end ClusterModel

end Margot.Agora
