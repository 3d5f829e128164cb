/-
The design of experiments: how it is loaded, and how its configurations are
served.  They are served in rounds, so none of them falls behind another.
-/
import Margot.Library.RoundRobin
import Margot.Agora.Description
import Margot.Agora.Model

namespace Margot.Agora

open Heel Csv

/-- What identifies a configuration: its number of explorations goes down while
it is served. -/
def ConfigurationModel.identity (entry : ConfigurationModel) :
    Text × Configuration :=
  (entry.configurationId, entry.configuration)

namespace DoeModel

section Load

def addConfig (doe : DoeModel) (entry : ConfigurationModel) : DoeModel :=
  ⟨entry :: doe.requiredExplorations⟩

def doeName : Text := "doe_configs.csv".toList

/-- The values of the knobs in a row. -/
def readConfiguration (row : Row) : List KnobModel → Checked Configuration
  | [] => .ok .empty
  | knob :: rest => do
      let value ← get knob.name row
      let configuration ← readConfiguration row rest
      return configuration.emplace knob.name value

/-- The configuration of a row, if it is still required. -/
def readEntry (description : BlockModel) (row : Row) :
    Checked (Option ConfigurationModel) := do
  let id ← get "config_id".toList row
  let text ← get "counter".toList row
  match stoi text with
  | none => .error "stoi".toList
  | some counter =>
      if 0 < counter then
        let configuration ← readConfiguration row description.knobs
        return some ⟨id, configuration, counter⟩
      else return none

/-- `CsvDoeStorage::load_doe`: what is read before anything throws. -/
def loadDoe (reader : Reader) (folder : Folder) (description : BlockModel) :
    DoeModel :=
  let entries := (readTable reader folder doeName (readEntry description)).1
  (entries.filterMap id).foldl addConfig .clear

end Load

/-- What the first calls of `get_next` return, `none` when it returns false. -/
def explore : Nat → DoeModel → List (Option ConfigurationModel)
  | 0, _ => []
  | calls + 1, doe =>
      match doe.getNext with
      | none => none :: explore calls doe
      | some (entry, rest) => some entry :: explore calls rest

/-- The positions of the configurations in the order in which they are served:
all of them are served as often as they are required and nothing is served
afterwards, and of two that are still to be served neither is ahead of the other
by more than one time. -/
structure ServedFairly (doe : DoeModel) (schedule : List Nat) : Prop where
  serves : ∀ calls, (doe.explore calls).map (Option.map (·.identity)) =
    (schedule.map fun position =>
      (doe.requiredExplorations[position]?).map (·.identity)).take calls ++
        List.replicate (calls - schedule.length) none
  position : ∀ position ∈ schedule,
    position < doe.requiredExplorations.length
  complete : ∀ position entry,
    doe.requiredExplorations[position]? = some entry →
      (schedule.count position : Int) = entry.numberOfExplorations
  fair : ∀ pre, pre <+: schedule → ∀ position entry other otherEntry,
    doe.requiredExplorations[position]? = some entry →
    doe.requiredExplorations[other]? = some otherEntry →
    (pre.count position : Int) < entry.numberOfExplorations →
    (pre.count other : Int) < otherEntry.numberOfExplorations →
      pre.count position ≤ pre.count other + 1

section Serving

/-- The configurations as jobs. -/
def jobs (doe : DoeModel) : List ((Text × Configuration) × Int) :=
  doe.requiredExplorations.map fun entry =>
    (entry.identity, entry.numberOfExplorations)

theorem getNext_eq_serve (doe : DoeModel) :
    doe.getNext.map (Prod.map (·.identity) jobs) =
      RoundRobin.serve doe.jobs := by
  obtain ⟨entries⟩ := doe
  cases entries with
  | nil => rfl
  | cons first rest =>
      simp only [getNext, jobs, List.map_cons, RoundRobin.serve]
      split
      · simp [jobs, ConfigurationModel.identity]
      · rfl

/-- The positions of the configurations as jobs. -/
def places (doe : DoeModel) : List (Nat × Int) :=
  doe.requiredExplorations.zipIdx.map fun place =>
    (place.2, place.1.numberOfExplorations)

/-- What the calls return, when the jobs are told by their positions. -/
theorem explore_eq {doe : DoeModel} {queue : List (Nat × Int)}
    {identityAt : Nat → Option (Text × Configuration)}
    (hsame : doe.jobs.map (Prod.map some id) =
      queue.map (Prod.map identityAt id)) (calls : Nat) :
    (doe.explore calls).map (Option.map (·.identity)) =
      (RoundRobin.served calls queue).map identityAt ++
        List.replicate (calls - (RoundRobin.served calls queue).length)
          none := by
  induction calls generalizing doe queue with
  | zero => rfl
  | succ calls ih =>
      have hserve := RoundRobin.serve_map some doe.jobs
      rw [hsame, RoundRobin.serve_map, ← getNext_eq_serve] at hserve
      rw [explore, RoundRobin.served]
      cases hnext : doe.getNext with
      | none =>
          rw [hnext, Option.map_none, Option.map_none,
            Option.map_eq_none_iff] at hserve
          have hnone := ih hsame
          rw [RoundRobin.served_of_serve_eq_none hserve] at hnone
          simp only [hserve, List.map_cons, hnone]
          rfl
      | some result =>
          obtain ⟨entry, rest⟩ := result
          rw [hnext, Option.map_some, Option.map_some,
            Option.map_eq_some_iff] at hserve
          obtain ⟨⟨position, others⟩, hserve, hresult⟩ := hserve
          obtain ⟨hposition, hothers⟩ := Prod.mk.inj hresult
          rw [hserve]
          simp only [List.map_cons, List.length_cons, Nat.add_sub_add_right,
            List.cons_append]
          rw [ih hothers.symm, hposition]
          rfl

section Places

variable (doe : DoeModel)

theorem jobs_eq_places :
    doe.jobs.map (Prod.map some id) = doe.places.map (Prod.map
      (fun position => (doe.requiredExplorations[position]?).map
        (·.identity)) id) := by
  rw [jobs, places, List.map_map, List.map_map]
  apply List.ext_getElem (by simp)
  intro position hjobs hplaces
  have hbound : position < doe.requiredExplorations.length := by
    simpa using hjobs
  simp [hbound]

theorem map_fst_places :
    doe.places.map Prod.fst = List.range doe.requiredExplorations.length := by
  rw [places, List.map_map, List.range_eq_range']
  exact List.zipIdx_map_snd 0 _

/-- How often the configuration at a position is required. -/
def requiredAt (position : Nat) : Int :=
  (doe.requiredExplorations[position]?).elim 0 (·.numberOfExplorations)

theorem totals_places : RoundRobin.Totals doe.requiredAt doe.places := by
  constructor
  · intro entry hentry
    obtain ⟨⟨stored, position⟩, hplace, rfl⟩ := List.mem_map.mp hentry
    have hstored := List.mk_mem_zipIdx_iff_getElem?.mp hplace
    simp [requiredAt, hstored]
  · intro position hout
    rw [map_fst_places, List.mem_range, not_lt] at hout
    simp [requiredAt, List.getElem?_eq_none hout]

end Places

end Serving

/-- The configurations are served completely and fairly, whatever their
number. -/
theorem exists_servedFairly (doe : DoeModel)
    (hpositive : ∀ entry ∈ doe.requiredExplorations,
      0 < entry.numberOfExplorations) :
    ∃ schedule, doe.ServedFairly schedule := by
  have hplaces : RoundRobin.Positive doe.places := by
    intro entry hentry
    obtain ⟨⟨stored, position⟩, hplace, rfl⟩ := List.mem_map.mp hentry
    have hstored := List.mk_mem_zipIdx_iff_getElem?.mp hplace
    exact hpositive stored (List.mem_of_getElem? hstored)
  have hnodup : (doe.places.map Prod.fst).Nodup := by
    rw [map_fst_places]
    exact List.nodup_range
  have hrequired : ∀ position entry,
      doe.requiredExplorations[position]? = some entry →
        doe.requiredAt position = entry.numberOfExplorations := by
    intro position entry hentry
    rw [requiredAt, hentry, Option.elim_some]
  have hcount := RoundRobin.count_served doe.totals_places hplaces hnodup
  refine ⟨RoundRobin.served (RoundRobin.turnsOf doe.places) doe.places,
    ?_, ?_, ?_, ?_⟩
  · intro calls
    rw [explore_eq doe.jobs_eq_places calls,
      RoundRobin.served_eq_take hplaces calls, ← List.map_take,
      List.length_take]
    congr 2
    omega
  · intro position hmem
    by_contra hout
    have hnone := hcount position
    rw [requiredAt, List.getElem?_eq_none (not_lt.mp hout), Option.elim_none,
      Int.natCast_eq_zero, List.count_eq_zero] at hnone
    exact hnone hmem
  · intro position entry hentry
    rw [hcount, hrequired position entry hentry]
  · intro pre hpre position entry other otherEntry hentry hother hless hlessOther
    have hturns : pre = RoundRobin.served pre.length doe.places := by
      rw [RoundRobin.served_eq_take hplaces]
      exact List.prefix_iff_eq_take.mp hpre
    rw [← hrequired position entry hentry] at hless
    rw [← hrequired other otherEntry hother] at hlessOther
    rw [hturns] at hless hlessOther ⊢
    exact RoundRobin.count_le_succ doe.totals_places hplaces hnodup _ hless
      hlessOther

section Pair

/-- A configuration that is required twice, and one that is required once. -/
def pair : DoeModel :=
  ⟨[⟨"1".toList, .empty, 2⟩, ⟨"0".toList, .empty, 1⟩]⟩

theorem exists_servedFairly_pair : ∃ schedule, pair.ServedFairly schedule :=
  exists_servedFairly pair (by decide)

end Pair

section Loaded

theorem positive_foldl_addConfig {entries : List ConfigurationModel}
    (hentries : ∀ entry ∈ entries, 0 < entry.numberOfExplorations)
    {doe : DoeModel} (hdoe : ∀ entry ∈ doe.requiredExplorations,
      0 < entry.numberOfExplorations) :
    ∀ entry ∈ (entries.foldl addConfig doe).requiredExplorations,
      0 < entry.numberOfExplorations := by
  induction entries generalizing doe with
  | nil => exact hdoe
  | cons first rest ih =>
      obtain ⟨hfirst, hrest⟩ := List.forall_mem_cons.mp hentries
      exact ih hrest (List.forall_mem_cons.mpr ⟨hfirst, hdoe⟩)

/-- What is read of a table was read of a row. -/
theorem exists_of_mem_readRows {α : Type} {read : Row → Checked α}
    {rows : List Row} {element : α}
    (helement : element ∈ (readRows read rows).1) :
    ∃ row, read row = .ok element := by
  induction rows with
  | nil => contradiction
  | cons row rest ih =>
      rw [readRows] at helement
      cases hread : read row with
      | error reason => simp [hread] at helement
      | ok first =>
          rw [hread] at helement
          rcases List.mem_cons.mp helement with rfl | hrest
          · exact ⟨row, hread⟩
          · exact ih hrest

theorem exists_of_mem_readTable {α : Type} {reader : Reader} {folder : Folder}
    {name : Text} {read : Row → Checked α} {element : α}
    (helement : element ∈ (readTable reader folder name read).1) :
    ∃ row, read row = .ok element := by
  rw [readTable] at helement
  split at helement
  · contradiction
  · split at helement
    · exact exists_of_mem_readRows helement
    · contradiction

theorem positive_readEntry {description : BlockModel} {row : Row}
    {entry : ConfigurationModel}
    (hread : readEntry description row = .ok (some entry)) :
    0 < entry.numberOfExplorations := by
  obtain ⟨id, -, hread⟩ := bind_eq_ok.mp hread
  obtain ⟨text, -, hread⟩ := bind_eq_ok.mp hread
  split at hread
  · contradiction
  · next counter =>
      split at hread
      · next hrequired =>
          obtain ⟨configuration, -, hentry⟩ := bind_eq_ok.mp hread
          obtain rfl := Option.some.inj (Except.ok.inj hentry)
          exact hrequired
      · cases Except.ok.inj hread

/-- Only configurations that are still required are loaded. -/
theorem positive_loadDoe (reader : Reader) (folder : Folder)
    (description : BlockModel) :
    ∀ entry ∈ (loadDoe reader folder description).requiredExplorations,
      0 < entry.numberOfExplorations := by
  apply positive_foldl_addConfig
  · intro entry hentry
    obtain ⟨_, hread, rfl⟩ := List.mem_filterMap.mp hentry
    obtain ⟨row, hrow⟩ := exists_of_mem_readTable hread
    exact positive_readEntry hrow
  · intro entry hentry
    contradiction

end Loaded

end DoeModel

end Margot.Agora
