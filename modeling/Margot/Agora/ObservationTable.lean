/-
The observation table of an application in the storage, and what a turn of a
worker has to do with it: which turns change the description, and which lead to
the exploration without a new table.
-/
import Margot.Agora.Outcomes
import Margot.Heel.Observation

namespace Margot.Agora

open Heel (BlockModel OperatingPointModel integerText)

/-- What the storage holds of the observations of an application. -/
inductive ObservationTable where
  | noDirectory
  | noFile
  | file (content : Text)
deriving Repr, DecidableEq

namespace ObservationTable

def createDirectories : ObservationTable → ObservationTable
  | .noDirectory => .noFile
  | table => table

/-- Opened with `std::ios::trunc`; without its directory no file is created. -/
def truncate : ObservationTable → ObservationTable
  | .noDirectory => .noDirectory
  | _ => .file []

/-- Opened with `std::ios::app`, and written. -/
def append (table : ObservationTable) (text : Text) : ObservationTable :=
  match table with
  | .noDirectory => .noDirectory
  | .noFile => .file text
  | .file content => .file (content ++ text)

/-- There is a file, which begins with the header. -/
def HasHeader (table : ObservationTable) (header : Text) : Prop :=
  ∃ rows, table = .file (header ++ rows)

variable {table : ObservationTable} {header : Text}

theorem HasHeader.append (hheader : table.HasHeader header) (text : Text) :
    (table.append text).HasHeader header := by
  obtain ⟨rows, rfl⟩ := hheader
  exact ⟨rows ++ text, congrArg file (List.append_assoc header rows text)⟩

end ObservationTable

/-- `get_header` -/
def getHeader (description : BlockModel) : Text :=
  "sec,nanosec,client_id".toList ++
    (description.knobs.flatMap fun knob => ',' :: knob.name) ++
    (description.features.fields.flatMap fun feature => ',' :: feature.name) ++
    (description.metrics.flatMap fun metric => ',' :: metric.name) ++ ['\n']

/-- The row of `insert_observation_entry`. -/
def observationEntry (cid : ClientId) (durationSec durationNs : Int)
    (op : OperatingPointModel) : Text :=
  integerText durationSec ++ ',' :: integerText durationNs ++ ',' :: cid ++
    (op.knobs.flatMap fun knob => ',' :: knob.mean) ++
    (op.features.flatMap fun feature => ',' :: feature.mean) ++
    (op.metrics.flatMap fun metric => ',' :: metric.mean) ++ ['\n']

/-- The worker is in `process_observation`, and its observation has been
accepted. -/
def Position.observing : Position → Bool
  | .observed _ => true
  | .parsed _ => true
  | .awaiting _ _ => true
  | .restarting _ => true
  | _ => false

/-- The worker is in `start_recovering`. -/
def Position.inRecovery : Position → Bool
  | .recovering _ _ _ => true
  | _ => false

namespace Handler

section Questions

/-- The welcome of the first client assigns the description. -/
def describes (h : Handler) : Input → Bool
  | .welcome _ app => h.checkState .clueless && (h.findBlock app).isSome
  | _ => false

/-- The handler in which `start_recovering` asks for a valid DOE, if neither a
prediction nor models are found. -/
def recoveredWithout (h : Handler) (storage : Storage) : Option Handler :=
  if h.isPredictionValid then none
  else if (!h.areFeaturesEnabled || h.isClusterValid) &&
      h.areModelsValid storage then none
  else some h

/-- The handler in which `start_recovering` asks whether the DOE that it found
is valid, if the turn comes to that. -/
def recoveredDoe (h : Handler) (storage : Storage) :
    Position → Input → Option Handler
  | .idle, .welcome cid app =>
      if (h.addClient cid).checkState .clueless then
        match (h.addClient cid).parseInformations app with
        | (_, false) => none
        | (informed, true) =>
            let opened := informed.record (.session
              informed.numConfigurationsSentPerIteration)
            ((opened.initializePluginLaunchers.setState
              {.recovering}).recoverStorage storage).recoveredWithout storage
      else none
  | .recovering _ .doe [], .proceed => none
  | .recovering _ _ [], .proceed =>
      if (h.loadPrediction storage).isPredictionValid then none
      else some (h.loadPrediction storage)
  | _, _ => none

/-- The handler in which `process_observation` asks whether there is a DOE to
restart the exploration with, if it comes to that. -/
def restartedDoe (h : Handler) (storage : Storage) : Phase → Option Handler
  | .modeling =>
      let checked := (h.checkModels storage).checkClusters storage
      if checked.checkState .withModel &&
          (!checked.areFeaturesEnabled || checked.checkState .withCluster) then
        none
      else some checked
  | .prediction =>
      if (h.loadPrediction storage).isPredictionValid then none
      else some (h.loadPrediction storage)
  | .doe => some (h.loadDoe storage)

end Questions

section Description

variable (h : Handler) (storage : Storage)

theorem recoverStorage_description :
    (h.recoverStorage storage).description = h.description := by
  rw [recoverStorage]
  split <;> rfl

theorem recoverDoe_description (cid : ClientId) :
    (h.recoverDoe cid).1.description = h.description := by
  rw [recoverDoe]
  split <;> rfl

theorem recoverPrediction_description (cid : ClientId) :
    (h.recoverPrediction storage cid).1.description = h.description := by
  rw [recoverPrediction]
  split
  · rfl
  · split
    · rfl
    · exact h.recoverDoe_description cid

theorem continueRecovery_description (cid : ClientId) (phase : Phase) :
    (h.continueRecovery storage cid phase).1.description = h.description := by
  unfold continueRecovery
  split
  · split <;> rfl
  · split
    · rfl
    · exact recoverDoe_description _ cid

theorem checkModels_description :
    (h.checkModels storage).description = h.description := by
  rw [checkModels]
  split <;> rfl

theorem checkClusters_description :
    (h.checkClusters storage).description = h.description := by
  rw [checkClusters]
  split
  · split <;> rfl
  · rfl

variable [HashOrder Text]

theorem explore_description : h.explore.1.description = h.description := by
  rw [explore]
  split <;> rfl

theorem predict_description : h.predict.1.description = h.description := by
  rw [predict]
  split
  · rfl
  · exact h.explore_description

variable {h storage} in
theorem continueObservation_description {phase : Phase}
    {next : Handler × Position}
    (hnext : h.continueObservation storage phase = .ok next) :
    next.1.description = h.description := by
  cases resumes_of_continueObservation hnext with
  | modeled =>
      exact (predict_description _).trans
        ((checkClusters_description _ storage).trans
          (h.checkModels_description storage))
  | predicted _ => rfl
  | unpredicted _ => exact explore_description _
  | designed _ => rfl
  | undesigned => rfl

end Description

section Exploring

variable (h : Handler) (storage : Storage)

theorem recoverDoe_exploring (cid : ClientId) :
    (h.recoverDoe cid).1.checkState .exploring = h.isDoeValid := by
  rw [recoverDoe]
  split
  · next hvalid => simp [checkState, setState, hvalid]
  · next hvalid => simp [checkState, startDoe, setState, hvalid]

theorem recoverPrediction_exploring_iff (cid : ClientId) :
    (h.recoverPrediction storage cid).1.checkState .exploring = true ↔
      ∃ g, h.recoveredWithout storage = some g ∧ g.isDoeValid = true := by
  rw [recoverPrediction, recoveredWithout]
  split
  · simp [checkState, setState]
  · split
    · simp [checkState, startPrediction, setState]
    · simp [recoverDoe_exploring]

theorem continueRecovery_exploring_iff (cid : ClientId) {phase : Phase}
    (hphase : phase ≠ .doe) :
    (h.continueRecovery storage cid phase).1.checkState .exploring = true ↔
      ∃ g, h.recoveredDoe storage (.recovering cid phase []) .proceed =
        some g ∧ g.isDoeValid = true := by
  have hbranch : (if (h.loadPrediction storage).isPredictionValid then
      ((h.loadPrediction storage).setState {.withPrediction}, .answering cid)
      else (h.loadPrediction storage).recoverDoe cid).1.checkState
        .exploring = true ↔
      ∃ g, (if (h.loadPrediction storage).isPredictionValid then none
        else some (h.loadPrediction storage)) = some g ∧
          g.isDoeValid = true := by
    split
    · simp [checkState, setState]
    · simp [recoverDoe_exploring]
  cases phase with
  | doe => contradiction
  | modeling => exact hbranch
  | prediction => exact hbranch

theorem recoveredWithout_eq {g : Handler}
    (hg : h.recoveredWithout storage = some g) : g = h := by
  rw [recoveredWithout] at hg
  split_ifs at hg
  exact (Option.some.inj hg).symm

variable [HashOrder Text]

theorem explore_exploring :
    h.explore.1.checkState .exploring = h.isDoeValid := by
  rw [explore]
  split
  · next hvalid => simp [checkState, restartExploration, setState, hvalid]
  · next hvalid => simp [checkState, startDoe, setState, hvalid]

variable {h storage} in
/-- A turn that restarts the exploration has found a DOE for it. -/
theorem restarted_of_exploring {phase : Phase} {next : Handler × Position}
    (hnext : h.continueObservation storage phase = .ok next)
    (hexploring : next.1.checkState .exploring = true) :
    ∃ g, h.restartedDoe storage phase = some g ∧ g.isDoeValid = true := by
  cases resumes_of_continueObservation hnext with
  | modeled =>
      rw [predict] at hexploring
      rw [restartedDoe]
      split at hexploring
      · simp [checkState, startPrediction, setState] at hexploring
      · next hmissing =>
          rw [explore_exploring] at hexploring
          exact ⟨_, if_neg hmissing, hexploring⟩
  | predicted _ => simp [checkState, record, setState] at hexploring
  | unpredicted hinvalid =>
      rw [explore_exploring] at hexploring
      exact ⟨_, if_neg hinvalid, hexploring⟩
  | designed hvalid => exact ⟨_, rfl, hvalid⟩
  | undesigned => simp [checkState, setState] at hexploring

variable {h storage} in
/-- With a DOE the exploration is restarted. -/
theorem restarts_exploring {phase : Phase} {g : Handler}
    (hg : h.restartedDoe storage phase = some g) (hvalid : g.isDoeValid = true) :
    ∃ next, h.continueObservation storage phase = .ok next ∧
      next.1.checkState .exploring = true := by
  cases phase with
  | modeling =>
      rw [restartedDoe] at hg
      refine ⟨_, rfl, ?_⟩
      rw [predict]
      split at hg
      · contradiction
      · next hmissing =>
          obtain rfl := Option.some.inj hg
          rw [if_neg hmissing, explore_exploring]
          exact hvalid
  | prediction =>
      rw [restartedDoe] at hg
      simp only [continueObservation]
      split at hg
      · contradiction
      · next hinvalid =>
          obtain rfl := Option.some.inj hg
          rw [if_neg hinvalid]
          exact ⟨_, rfl, (explore_exploring _).trans hvalid⟩
  | doe =>
      obtain rfl := Option.some.inj hg
      simp only [continueObservation]
      rw [if_pos hvalid]
      refine ⟨_, rfl, ?_⟩
      simp [checkState, restartExploration, setState]

end Exploring

/-- A handler without an application explores nothing. -/
def Apart (h : Handler) : Prop :=
  h.checkState .clueless = true → h.checkState .exploring = false

section Turns

variable {h : Handler} {storage : Storage} {position : Position}
  {input : Input} {next : Handler × Position}

/-- Before a session the description is that of the payload, or as it was. -/
theorem parseInformations_description (h : Handler)
    (app : Option Heel.ApplicationModel) :
    (h.findBlock app = none ∧ h.parseInformations app = (h, false)) ∨
    ∃ block, h.findBlock app = some block ∧
      (h.parseInformations app).1.description = block := by
  rw [parseInformations]
  cases h.findBlock app with
  | none => exact .inl ⟨rfl, rfl⟩
  | some block =>
      refine .inr ⟨block, rfl, ?_⟩
      simp only
      split <;> rfl

variable [HashOrder Text]

theorem turn_description (hturn : h.Turn storage position input next)
    (hsame : h.describes input = false) :
    next.1.description = h.description := by
  cases hturn with
  | welcome cid app =>
      rw [welcomeClient]
      split
      · next hclueless =>
          have hnone : h.findBlock app = none := by
            rw [describes, Bool.and_eq_false_imp] at hsame
            simpa using hsame hclueless
          have hparse : (h.addClient cid).parseInformations app =
              (h.addClient cid, false) := by
            have hadded : (h.addClient cid).findBlock app = none := hnone
            rw [parseInformations, hadded]
          rw [hparse]
          rfl
      · rfl
  | bye cid =>
      rw [byeClient]
      simp only
      split <;> rfl
  | observation cid =>
      rw [processObservation]
      split <;> rfl
  | next cid hnext =>
      cases advances_of_nextConfiguration hnext with
      | sent _ _ hsent => exact sendConfiguration_description hsent
      | iterated hiterates _ =>
          rw [hiterates.same]
          rfl
  | awaited phase hnext => exact continueObservation_description hnext
  | restart clients hnext =>
      cases clients with
      | nil =>
          obtain rfl := pure_eq_ok.mp hnext
          rfl
      | cons cid rest =>
          obtain ⟨g, hsent, rfl⟩ := bind_pure_eq_ok.mp hnext
          exact sendConfiguration_description hsent
  | recovered cid phase => exact h.continueRecovery_description storage cid phase
  | answer cid hnext =>
      cases answers_of_answer hnext with
      | explore _ hsent => exact sendConfiguration_description hsent
      | _ => rfl

omit [HashOrder Text] in
theorem startSession_eq (h : Handler) (storage : Storage) (cid : ClientId) :
    h.startSession storage cid =
      (((h.record (.session
        h.numConfigurationsSentPerIteration)).initializePluginLaunchers.setState
          {.recovering}).recoverStorage storage).recoverPrediction storage cid :=
  rfl

/-- A turn that explores did so before, or it finds a DOE in one of three
places. -/
theorem turn_exploring (hturn : h.Turn storage position input next)
    (hexploring : next.1.checkState .exploring = true) :
    h.checkState .exploring = true ∨
    (∃ g, h.recoveredDoe storage position input = some g ∧
      g.isDoeValid = true) ∨
    (∃ cid, position = .recovering cid .doe [] ∧ input = .proceed ∧
      (h.loadDoe storage).isDoeValid = true) ∨
    (∃ phase g, position = .awaiting phase [] ∧ input = .proceed ∧
      h.restartedDoe storage phase = some g ∧ g.isDoeValid = true) := by
  cases hturn with
  | welcome cid app =>
      rw [welcomeClient] at hexploring
      split at hexploring
      · next hclueless =>
          rcases (h.addClient cid).parseInformations_cases app with
            ⟨g, hparse, -, hstatus⟩ | ⟨g, hparse, -⟩
          · rw [hparse] at hexploring
            simp only [checkState, hstatus] at hexploring
            exact .inl hexploring
          · rw [hparse] at hexploring
            simp only [startSession_eq,
              recoverPrediction_exploring_iff] at hexploring
            refine .inr (.inl ?_)
            rw [recoveredDoe, if_pos hclueless, hparse]
            exact hexploring
      · exact .inl hexploring
  | bye cid =>
      obtain ⟨g, hbye, -, -, -, -, hleft⟩ := h.byeClient_cases cid
      rw [hbye] at hexploring
      rcases hleft with ⟨-, hstatus, -⟩ | ⟨-, hstatus⟩
      · simp [checkState, hstatus] at hexploring
      · simp only [checkState, hstatus] at hexploring
        exact .inl hexploring
  | observation cid =>
      rw [processObservation] at hexploring
      split at hexploring
      · exact .inl hexploring
      · exact .inl hexploring
  | next cid hnext =>
      cases advances_of_nextConfiguration hnext with
      | sent _ _ hsent =>
          simp only [checkState,
            sendConfiguration_handlerStatus hsent] at hexploring
          exact .inl hexploring
      | iterated hiterates _ =>
          rcases hiterates.status with hstatus | hstatus
          · simp [checkState, hstatus] at hexploring
          · simp [checkState, hstatus] at hexploring
  | awaited phase hnext =>
      obtain ⟨g, hg, hvalid⟩ := restarted_of_exploring hnext hexploring
      exact .inr (.inr (.inr ⟨phase, g, rfl, rfl, hg, hvalid⟩))
  | restart clients hnext =>
      simp only [checkState, sendNext_handlerStatus hnext] at hexploring
      exact .inl hexploring
  | recovered cid phase =>
      cases phase with
      | doe =>
          refine .inr (.inr (.inl ⟨cid, rfl, rfl, ?_⟩))
          by_contra hinvalid
          simp [continueRecovery, hinvalid, checkState, setState] at hexploring
      | modeling =>
          have hphase : Phase.modeling ≠ .doe := by decide
          exact .inr (.inl ((h.continueRecovery_exploring_iff storage cid
            hphase).mp hexploring))
      | prediction =>
          have hphase : Phase.prediction ≠ .doe := by decide
          exact .inr (.inl ((h.continueRecovery_exploring_iff storage cid
            hphase).mp hexploring))
  | answer cid hnext =>
      cases answers_of_answer hnext with
      | explore hbefore _ => exact .inl hbefore
      | _ => exact .inl hexploring

/-- A DOE that is found leads to the exploration of its description. -/
theorem turn_recoveredDoe (hturn : h.Turn storage position input next)
    {g : Handler} (hg : h.recoveredDoe storage position input = some g)
    (hvalid : g.isDoeValid = true) :
    next.1.checkState .exploring = true ∧
      next.1.description = g.description := by
  cases hturn with
  | welcome cid app =>
      rw [recoveredDoe] at hg
      split at hg
      · next hclueless =>
          rw [welcomeClient, if_pos hclueless]
          rcases (h.addClient cid).parseInformations_cases app with
            ⟨refused, hparse, -⟩ | ⟨informed, hparse, -⟩
          · rw [hparse] at hg
            contradiction
          · rw [hparse] at hg ⊢
            simp only [startSession_eq]
            refine ⟨(recoverPrediction_exploring_iff _ _ _).mpr
              ⟨g, hg, hvalid⟩, ?_⟩
            rw [recoverPrediction_description, recoveredWithout_eq _ _ hg]
      · contradiction
  | recovered cid phase =>
      by_cases hphase : phase = .doe
      · subst hphase
        contradiction
      · refine ⟨(h.continueRecovery_exploring_iff storage cid hphase).mpr
          ⟨g, hg, hvalid⟩, ?_⟩
        rw [continueRecovery_description]
        have hloaded : (if (h.loadPrediction storage).isPredictionValid
            then none else some (h.loadPrediction storage)) = some g := by
          cases phase with
          | doe => contradiction
          | modeling => exact hg
          | prediction => exact hg
        split at hloaded
        · contradiction
        · obtain rfl := Option.some.inj hloaded
          rfl
  | _ => contradiction

/-- No exception leaves a turn that asks for a DOE it has found. -/
theorem Throws.recoveredDoe_eq {g : Handler}
    (hthrows : h.Throws storage position input g) :
    h.recoveredDoe storage position input = none := by
  cases hthrows with
  | _ => rfl

omit [HashOrder Text] in
theorem describes_of_opens {cid : ClientId}
    {app : Option Heel.ApplicationModel} (hopens : h.Opens app) :
    h.describes (.welcome cid app) = true := by
  rw [describes, hopens.1, Bool.true_and]
  rcases h.parseInformations_description app with ⟨-, hparse⟩ | ⟨block, hfind, -⟩
  · have haccepted := hopens.2
    rw [hparse] at haccepted
    contradiction
  · rw [hfind]
    rfl

omit [HashOrder Text] in
theorem Recovers.not_exploring {cid : ClientId}
    (hnext : h.Recovers cid next) (hrecovers : next.2.inRecovery = true) :
    next.1.checkState .exploring = false := by
  cases hnext with
  | launched _ hstatus =>
      rcases hstatus with hstatus | hstatus
      · simp [checkState, hstatus]
      · simp [checkState, hstatus]
  | done _ _ => contradiction

omit [HashOrder Text] in
theorem inRecovery_sending (clients : List ClientId) :
    (Position.sending clients).inRecovery = false := by
  cases clients <;> rfl

/-- In the recovery nothing is explored, and it begins with a description. -/
theorem turn_inRecovery (hturn : h.Turn storage position input next)
    (hrecovers : next.2.inRecovery = true) :
    next.1.checkState .exploring = false ∧
      (position.inRecovery = true ∨ h.describes input = true) := by
  cases hturn with
  | welcome cid app =>
      have hwelcomes := h.welcomes_welcomeClient storage cid app
      generalize h.welcomeClient storage cid app = next at hwelcomes hrecovers
      cases hwelcomes with
      | refused _ _ _ _ => contradiction
      | opened hopens _ _ _ _ hnext =>
          exact ⟨hnext.not_exploring hrecovers,
            .inr (describes_of_opens hopens)⟩
      | registered _ => contradiction
  | bye cid =>
      obtain ⟨g, hbye, -⟩ := h.byeClient_cases cid
      rw [hbye] at hrecovers
      contradiction
  | observation cid =>
      rw [processObservation] at hrecovers
      split at hrecovers
      · contradiction
      · contradiction
  | next cid hnext =>
      cases advances_of_nextConfiguration hnext with
      | sent _ _ _ => contradiction
      | iterated _ _ => contradiction
  | awaited phase hnext =>
      cases continues_continueObservation hnext with
      | launched _ _ => contradiction
      | restarted _ _ =>
          rw [inRecovery_sending] at hrecovers
          contradiction
      | predicted _ _ => contradiction
      | exhausted _ _ => contradiction
  | restart clients hnext =>
      cases clients with
      | nil =>
          obtain rfl := pure_eq_ok.mp hnext
          contradiction
      | cons cid rest =>
          obtain ⟨g, -, rfl⟩ := bind_pure_eq_ok.mp hnext
          rw [inRecovery_sending] at hrecovers
          contradiction
  | recovered cid phase =>
      exact ⟨(h.recovers_continueRecovery storage cid phase).not_exploring
        hrecovers, .inl rfl⟩
  | answer cid hnext =>
      cases answers_of_answer hnext with
      | _ => contradiction

omit [HashOrder Text] in
theorem Recovers.not_observing {cid : ClientId}
    (hnext : h.Recovers cid next) : next.2.observing = false := by
  cases hnext with
  | launched _ _ => rfl
  | done _ _ => rfl

/-- Only an observation that is accepted is new in `process_observation`. -/
theorem turn_observing (hturn : h.Turn storage position input next)
    (hobserving : next.2.observing = true) :
    (position.observing = true ∧ input = .proceed) ∨
      (h.checkState .exploring = true ∧
        ∃ cid, position = .idle ∧ input = .observation cid ∧
          next = (h, .observed cid)) := by
  cases hturn with
  | welcome cid app =>
      have hwelcomes := h.welcomes_welcomeClient storage cid app
      generalize h.welcomeClient storage cid app = next at hwelcomes hobserving
      cases hwelcomes with
      | refused _ _ _ _ => contradiction
      | opened _ _ _ _ _ hnext =>
          rw [hnext.not_observing] at hobserving
          contradiction
      | registered _ => contradiction
  | bye cid =>
      obtain ⟨g, hbye, -⟩ := h.byeClient_cases cid
      rw [hbye] at hobserving
      contradiction
  | observation cid =>
      rw [processObservation] at hobserving ⊢
      split at hobserving
      · next hexploring =>
          rw [if_pos hexploring]
          exact .inr ⟨hexploring, cid, rfl, rfl, rfl⟩
      · contradiction
  | next cid _ => exact .inl ⟨rfl, rfl⟩
  | awaited phase _ => exact .inl ⟨rfl, rfl⟩
  | restart clients _ => exact .inl ⟨rfl, rfl⟩
  | recovered cid phase =>
      rw [(h.recovers_continueRecovery storage cid phase).not_observing]
        at hobserving
      contradiction
  | answer cid hnext =>
      cases answers_of_answer hnext with
      | _ => contradiction

omit [HashOrder Text] in
theorem Apart.of_status {g : Handler} (hapart : h.Apart)
    (hstatus : g.handlerStatus = h.handlerStatus) : g.Apart := by
  unfold Apart checkState
  rw [hstatus]
  exact hapart

omit [HashOrder Text] in
theorem apart_of_known {g : Handler} (hclueless : .clueless ∉ g.handlerStatus) :
    g.Apart := by
  intro hstate
  exact absurd (of_decide_eq_true hstate) hclueless

omit [HashOrder Text] in
theorem Recovers.apart {cid : ClientId} (hnext : h.Recovers cid next) :
    next.1.Apart := by
  apply apart_of_known
  cases hnext with
  | launched _ hstatus =>
      rcases hstatus with hstatus | hstatus
      · simp [hstatus]
      · simp [hstatus]
  | done _ hstatus =>
      rcases hstatus with hstatus | hstatus | hstatus
      · simp [hstatus]
      · simp [hstatus]
      · simp [hstatus]

theorem Continues.apart (hnext : h.Continues next) : next.1.Apart := by
  apply apart_of_known
  cases hnext with
  | launched _ hstatus =>
      rcases hstatus with hstatus | hstatus
      · simp [hstatus]
      · simp [hstatus]
  | restarted _ hstatus => simp [hstatus]
  | predicted _ hstatus => simp [record, hstatus]
  | exhausted _ hstatus => simp [hstatus]

theorem turn_apart (hapart : h.Apart)
    (hturn : h.Turn storage position input next) : next.1.Apart := by
  cases hturn with
  | welcome cid app =>
      have hwelcomes := h.welcomes_welcomeClient storage cid app
      generalize h.welcomeClient storage cid app = next at hwelcomes
      cases hwelcomes with
      | refused _ _ _ hstatus => exact hapart.of_status hstatus
      | opened _ _ _ _ _ hnext => exact hnext.apart
      | registered _ => exact hapart.of_status rfl
  | bye cid =>
      obtain ⟨g, hbye, -, -, -, -, hleft⟩ := h.byeClient_cases cid
      rw [hbye]
      rcases hleft with ⟨-, hstatus, -⟩ | ⟨-, hstatus⟩
      · intro _
        simp [checkState, hstatus]
      · exact hapart.of_status hstatus
  | observation cid =>
      rw [processObservation]
      split
      · exact hapart
      · exact hapart
  | next cid hnext =>
      cases advances_of_nextConfiguration hnext with
      | sent _ _ hsent =>
          exact hapart.of_status (sendConfiguration_handlerStatus hsent)
      | iterated hiterates _ =>
          apply apart_of_known
          rcases hiterates.status with hstatus | hstatus
          · simp [hstatus]
          · simp [hstatus]
  | awaited phase hnext => exact (continues_continueObservation hnext).apart
  | restart clients hnext =>
      exact hapart.of_status (sendNext_handlerStatus hnext)
  | recovered cid phase =>
      exact (h.recovers_continueRecovery storage cid phase).apart
  | answer cid hnext =>
      cases answers_of_answer hnext with
      | explore _ hsent =>
          exact hapart.of_status (sendConfiguration_handlerStatus hsent)
      | _ => exact hapart.of_status rfl

omit [HashOrder Text] in
theorem Fails.apart {g : Handler} (hapart : h.Apart)
    (hfails : h.Fails position g) : g.Apart := by
  rcases hfails.status with hsame | ⟨-, hknown⟩
  · exact hapart.of_status hsame
  · exact apart_of_known hknown

end Turns

end Handler

end Margot.Agora
