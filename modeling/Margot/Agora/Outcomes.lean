/-
What the parts of `welcome_client` and `process_observation` lead to: the
status they leave and what they keep, whatever the storage holds.
-/
import Margot.Agora.Workers

namespace Margot.Agora

open Margot.Heel (ApplicationModel)

namespace Handler

/-- The clients, the counter with its bound, and the history are the same. -/
structure Keeps (h g : Handler) : Prop where
  activeClients : g.activeClients = h.activeClients
  sent : g.numConfigurationsSentPerIteration =
    h.numConfigurationsSentPerIteration
  quota : g.numConfigurationsPerIteration = h.numConfigurationsPerIteration
  history : g.history = h.history

theorem Keeps.refl (h : Handler) : h.Keeps h := ⟨rfl, rfl, rfl, rfl⟩

theorem Keeps.trans {h g k : Handler} (hg : h.Keeps g) (hk : g.Keeps k) :
    h.Keeps k :=
  ⟨hk.activeClients.trans hg.activeClients, hk.sent.trans hg.sent,
    hk.quota.trans hg.quota, hk.history.trans hg.history⟩

/-- What the handler becomes once the plugins of a phase of
`process_observation` have terminated, as the storage has it. -/
inductive Resumes [HashOrder Text] (h : Handler) (storage : Storage) :
    Phase → Handler × Position → Prop where
  | modeled : Resumes h storage .modeling
      ((h.checkModels storage).checkClusters storage).predict
  | predicted (hvalid : (h.loadPrediction storage).isPredictionValid = true) :
      Resumes h storage .prediction
        (((h.loadPrediction storage).setState {.withPrediction}).record
          (.sent .processObservation {.withPrediction} .broadcast), .idle)
  | unpredicted
      (hinvalid : ¬ (h.loadPrediction storage).isPredictionValid = true) :
      Resumes h storage .prediction (h.loadPrediction storage).explore
  | designed (hvalid : (h.loadDoe storage).isDoeValid = true) :
      Resumes h storage .doe (h.loadDoe storage).restartExploration
  | undesigned :
      Resumes h storage .doe ((h.loadDoe storage).setState {.undefined}, .idle)

/-- The same, whatever the storage has: where the handler is and what it
keeps. -/
inductive Continues [HashOrder Text] (h : Handler) :
    Handler × Position → Prop where
  | launched {g : Handler} {phase : Phase} {plugins : List Plugin}
      (hkeeps : h.Keeps g)
      (hstatus : g.handlerStatus = {.buildingPrediction} ∨
        g.handlerStatus = {.buildingDoe}) :
      Continues h (g, .awaiting phase plugins)
  | restarted {g : Handler} (hkeeps : h.Keeps g)
      (hstatus : g.handlerStatus = {.withDoe, .exploring}) :
      Continues h (g, .sending h.activeClients.iterate)
  | predicted {g : Handler} (hkeeps : h.Keeps g)
      (hstatus : g.handlerStatus = {.withPrediction}) :
      Continues h
        (g.record (.sent .processObservation g.handlerStatus .broadcast), .idle)
  | exhausted {g : Handler} (hkeeps : h.Keeps g)
      (hstatus : g.handlerStatus = {.undefined}) :
      Continues h (g, .idle)

/-- What `start_recovering` leads to, at its beginning and after each phase. -/
inductive Recovers (h : Handler) (cid : ClientId) :
    Handler × Position → Prop where
  | launched {g : Handler} {phase : Phase} {plugins : List Plugin}
      (hkeeps : h.Keeps g)
      (hstatus : g.handlerStatus = {.buildingPrediction} ∨
        g.handlerStatus = {.buildingDoe}) :
      Recovers h cid (g, .recovering cid phase plugins)
  | done {g : Handler} (hkeeps : h.Keeps g)
      (hstatus : g.handlerStatus = {.withPrediction} ∨
        g.handlerStatus = {.withDoe, .exploring} ∨
        g.handlerStatus = {.undefined}) :
      Recovers h cid (g, .answering cid)

section Sending

variable [HashOrder Text] {h g : Handler} {sender : Sender} {cid : ClientId}

theorem send_eq_ok {message : Message} :
    h.send sender message = .ok g ↔ (h.payload message).isSome = true ∧
      g = h.record (.sent sender h.handlerStatus message) := by
  rw [send]
  cases h.payload message <;> simp [eq_comm]

theorem send_eq_error {message : Message} :
    h.send sender message = .error g ↔ h.payload message = none ∧ g = h := by
  rw [send]
  cases h.payload message <;> simp [eq_comm]

/-- Nothing is sent without a DOE, and otherwise its next configuration, which
is counted. -/
theorem sendConfiguration_eq_ok :
    h.sendConfiguration sender cid = .ok g ↔
      (h.doe.getNext = none ∧ g = h) ∨
      ∃ entry doe, h.doe.getNext = some (entry, doe) ∧
        (configurationPayload h.description entry.configuration).isSome = true ∧
        g = { h.record (.sent sender h.handlerStatus
                (.explore cid entry.configuration)) with
              doe := doe
              explored := entry.configuration :: h.explored
              numConfigurationsSentPerIteration :=
                h.numConfigurationsSentPerIteration + 1 } := by
  rw [sendConfiguration]
  cases h.doe.getNext with
  | none =>
      constructor
      · intro hsent
        exact .inl ⟨rfl, (Except.ok.inj hsent).symm⟩
      · rintro (⟨-, rfl⟩ | ⟨entry, doe, hnext, -⟩)
        · rfl
        · contradiction
  | some found =>
      obtain ⟨entry, doe⟩ := found
      simp only [bind_pure_eq_ok, send_eq_ok]
      constructor
      · rintro ⟨sent, ⟨hpayload, rfl⟩, rfl⟩
        exact .inr ⟨entry, doe, rfl, hpayload, rfl⟩
      · rintro (⟨hnone, -⟩ | ⟨entry, doe, hnext, hpayload, rfl⟩)
        · contradiction
        · obtain ⟨rfl, rfl⟩ := Prod.mk.inj (Option.some.inj hnext)
          exact ⟨_, ⟨hpayload, rfl⟩, rfl⟩

/-- Composing the next configuration throws: it has left the DOE. -/
theorem sendConfiguration_eq_error :
    h.sendConfiguration sender cid = .error g ↔
      ∃ entry doe, h.doe.getNext = some (entry, doe) ∧
        configurationPayload h.description entry.configuration = none ∧
        g = { h with doe := doe } := by
  rw [sendConfiguration]
  cases h.doe.getNext with
  | none =>
      constructor
      · exact nofun
      · rintro ⟨entry, doe, hnext, -⟩
        contradiction
  | some found =>
      obtain ⟨entry, doe⟩ := found
      refine bind_pure_eq_error.trans (send_eq_error.trans ?_)
      constructor
      · rintro ⟨hpayload, rfl⟩
        exact ⟨entry, doe, rfl, hpayload, rfl⟩
      · rintro ⟨entry, doe, hnext, hpayload, rfl⟩
        obtain ⟨rfl, rfl⟩ := Prod.mk.inj (Option.some.inj hnext)
        exact ⟨hpayload, rfl⟩

/-- The next configuration, if there is one, can be composed. -/
def composesNext (h : Handler) : Bool :=
  match h.doe.getNext with
  | none => true
  | some (entry, _) =>
      (configurationPayload h.description entry.configuration).isSome

theorem sendConfiguration_ne_error (hcomposes : h.composesNext = true) :
    h.sendConfiguration sender cid ≠ .error g := by
  intro hthrown
  obtain ⟨entry, doe, hnext, hnone, -⟩ := sendConfiguration_eq_error.mp hthrown
  rw [composesNext, hnext] at hcomposes
  simp [hnone] at hcomposes

theorem composesNext_of_ok (hsent : h.sendConfiguration sender cid = .ok g) :
    h.composesNext = true := by
  rw [composesNext]
  obtain ⟨hnone, -⟩ | ⟨entry, doe, hnext, hpayload, -⟩ :=
    sendConfiguration_eq_ok.mp hsent
  · rw [hnone]
  · rw [hnext]
    exact hpayload

section Sent

variable (hsent : h.sendConfiguration sender cid = .ok g)

include hsent

theorem sendConfiguration_handlerStatus :
    g.handlerStatus = h.handlerStatus := by
  obtain ⟨-, rfl⟩ | ⟨entry, doe, -, -, rfl⟩ := sendConfiguration_eq_ok.mp hsent
  · rfl
  · rfl

theorem sendConfiguration_description :
    g.description = h.description := by
  obtain ⟨-, rfl⟩ | ⟨entry, doe, -, -, rfl⟩ := sendConfiguration_eq_ok.mp hsent
  · rfl
  · rfl

theorem sendConfiguration_prediction : g.prediction = h.prediction := by
  obtain ⟨-, rfl⟩ | ⟨entry, doe, -, -, rfl⟩ := sendConfiguration_eq_ok.mp hsent
  · rfl
  · rfl

theorem sendConfiguration_appId : g.appId = h.appId := by
  obtain ⟨-, rfl⟩ | ⟨entry, doe, -, -, rfl⟩ := sendConfiguration_eq_ok.mp hsent
  · rfl
  · rfl

theorem sendConfiguration_activeClients :
    g.activeClients = h.activeClients := by
  obtain ⟨-, rfl⟩ | ⟨entry, doe, -, -, rfl⟩ := sendConfiguration_eq_ok.mp hsent
  · rfl
  · rfl

theorem sendConfiguration_quota :
    g.numConfigurationsPerIteration = h.numConfigurationsPerIteration := by
  obtain ⟨-, rfl⟩ | ⟨entry, doe, -, -, rfl⟩ := sendConfiguration_eq_ok.mp hsent
  · rfl
  · rfl

end Sent

omit [HashOrder Text] in
theorem isDoeValid_eq (h : Handler) :
    h.isDoeValid = h.doe.getNext.isSome := by
  rw [isDoeValid, DoeModel.getNext]
  cases h.doe.requiredExplorations with
  | nil => rfl
  | cons first rest =>
      simp only
      split <;> rfl

/-- Nothing is sent without a DOE, and otherwise one configuration, which is
counted. -/
theorem sendConfiguration_cases
    (hsent : h.sendConfiguration sender cid = .ok g) :
    (h.isDoeValid = false ∧ g = h) ∨
    (h.isDoeValid = true ∧ ∃ configuration,
      g.history =
        .sent sender h.handlerStatus (.explore cid configuration) ::
          h.history ∧
      g.numConfigurationsSentPerIteration =
        h.numConfigurationsSentPerIteration + 1) := by
  rw [isDoeValid_eq]
  obtain ⟨hnone, rfl⟩ | ⟨entry, doe, hnext, -, rfl⟩ :=
    sendConfiguration_eq_ok.mp hsent
  · rw [hnone]
    exact .inl ⟨rfl, rfl⟩
  · rw [hnext]
    exact .inr ⟨rfl, entry.configuration, rfl, rfl⟩

end Sending

section Keeping

theorem keeps_loadPrediction (h : Handler) (storage : Storage) :
    h.Keeps (h.loadPrediction storage) := ⟨rfl, rfl, rfl, rfl⟩

theorem keeps_checkModels (h : Handler) (storage : Storage) :
    h.Keeps (h.checkModels storage) := by
  rw [checkModels]
  split <;> exact ⟨rfl, rfl, rfl, rfl⟩

theorem keeps_checkClusters (h : Handler) (storage : Storage) :
    h.Keeps (h.checkClusters storage) := by
  rw [checkClusters]
  split
  · split <;> exact ⟨rfl, rfl, rfl, rfl⟩
  · exact .refl h

theorem keeps_recoverStorage (h : Handler) (storage : Storage) :
    h.Keeps (h.recoverStorage storage) := by
  rw [recoverStorage]
  split <;> exact ⟨rfl, rfl, rfl, rfl⟩

end Keeping

variable {h g : Handler}

section Observation

variable [HashOrder Text]

theorem Continues.of_keeps {next : Handler × Position} (hkeeps : h.Keeps g)
    (hg : g.Continues next) : h.Continues next := by
  cases hg with
  | launched hk hstatus => exact .launched (hkeeps.trans hk) hstatus
  | restarted hk hstatus =>
      rw [hkeeps.activeClients]
      exact .restarted (hkeeps.trans hk) hstatus
  | predicted hk hstatus => exact .predicted (hkeeps.trans hk) hstatus
  | exhausted hk hstatus => exact .exhausted (hkeeps.trans hk) hstatus

theorem continues_explore (h : Handler) : h.Continues h.explore := by
  rw [explore]
  split
  · exact .restarted ⟨rfl, rfl, rfl, rfl⟩ rfl
  · exact .launched ⟨rfl, rfl, rfl, rfl⟩ (.inr rfl)

theorem continues_predict (h : Handler) : h.Continues h.predict := by
  rw [predict]
  split
  · exact .launched ⟨rfl, rfl, rfl, rfl⟩ (.inl rfl)
  · exact h.continues_explore

/-- The inversion lemma: a phase that is over ends in one of five ways, each
with what the storage gives the handler. -/
theorem resumes_of_continueObservation {storage : Storage} {phase : Phase}
    {next : Handler × Position}
    (hnext : h.continueObservation storage phase = .ok next) :
    h.Resumes storage phase next := by
  cases phase with
  | modeling =>
      obtain rfl := pure_eq_ok.mp hnext
      exact .modeled
  | prediction =>
      simp only [continueObservation] at hnext
      split at hnext
      · next hvalid =>
          obtain ⟨g, hsent, rfl⟩ := bind_pure_eq_ok.mp hnext
          obtain ⟨-, rfl⟩ := send_eq_ok.mp hsent
          exact .predicted hvalid
      · next hinvalid =>
          obtain rfl := pure_eq_ok.mp hnext
          exact .unpredicted hinvalid
  | doe =>
      simp only [continueObservation] at hnext
      split at hnext
      · next hvalid =>
          obtain rfl := pure_eq_ok.mp hnext
          exact .designed hvalid
      · obtain rfl := pure_eq_ok.mp hnext
        exact .undesigned

theorem continues_continueObservation {storage : Storage} {phase : Phase}
    {next : Handler × Position}
    (hnext : h.continueObservation storage phase = .ok next) :
    h.Continues next := by
  cases resumes_of_continueObservation hnext with
  | modeled =>
      apply Continues.of_keeps (h.keeps_checkModels storage)
      apply Continues.of_keeps (keeps_checkClusters _ storage)
      exact continues_predict _
  | predicted _ => exact .predicted ⟨rfl, rfl, rfl, rfl⟩ rfl
  | unpredicted _ =>
      apply Continues.of_keeps (h.keeps_loadPrediction storage)
      exact continues_explore _
  | designed _ => exact .restarted ⟨rfl, rfl, rfl, rfl⟩ rfl
  | undesigned => exact .exhausted ⟨rfl, rfl, rfl, rfl⟩ rfl

end Observation

section Recovery

variable {cid : ClientId}

theorem Recovers.of_keeps {next : Handler × Position} (hkeeps : h.Keeps g)
    (hg : g.Recovers cid next) : h.Recovers cid next := by
  cases hg with
  | launched hk hstatus => exact .launched (hkeeps.trans hk) hstatus
  | done hk hstatus => exact .done (hkeeps.trans hk) hstatus

theorem Recovers.keeps {next : Handler × Position}
    (hnext : h.Recovers cid next) : h.Keeps next.1 := by
  cases hnext with
  | launched hkeeps _ => exact hkeeps
  | done hkeeps _ => exact hkeeps

theorem recovers_recoverDoe (h : Handler) (cid : ClientId) :
    h.Recovers cid (h.recoverDoe cid) := by
  rw [recoverDoe]
  split
  · refine .done ⟨rfl, rfl, rfl, rfl⟩ (.inr (.inl ?_))
    exact Finset.pair_comm _ _
  · exact .launched ⟨rfl, rfl, rfl, rfl⟩ (.inr rfl)

theorem recovers_recoverPrediction (h : Handler) (storage : Storage)
    (cid : ClientId) : h.Recovers cid (h.recoverPrediction storage cid) := by
  rw [recoverPrediction]
  split
  · exact .done ⟨rfl, rfl, rfl, rfl⟩ (.inl rfl)
  · split
    · exact .launched ⟨rfl, rfl, rfl, rfl⟩ (.inl rfl)
    · exact h.recovers_recoverDoe cid

theorem recovers_startRecovering (h : Handler) (storage : Storage)
    (cid : ClientId) : h.Recovers cid (h.startRecovering storage cid) := by
  have hset : h.Keeps (h.setState {.recovering}) := ⟨rfl, rfl, rfl, rfl⟩
  exact .of_keeps (hset.trans (keeps_recoverStorage _ storage))
    (recovers_recoverPrediction _ storage cid)

theorem recovers_continueRecovery (h : Handler) (storage : Storage)
    (cid : ClientId) (phase : Phase) :
    h.Recovers cid (h.continueRecovery storage cid phase) := by
  unfold continueRecovery
  split
  · split
    · exact .done ⟨rfl, rfl, rfl, rfl⟩ (.inr (.inl rfl))
    · exact .done ⟨rfl, rfl, rfl, rfl⟩ (.inr (.inr rfl))
  · split
    · exact .done ⟨rfl, rfl, rfl, rfl⟩ (.inl rfl)
    · apply Recovers.of_keeps (h.keeps_loadPrediction storage)
      exact recovers_recoverDoe _ cid

end Recovery

section Messages

/-- What the end of a welcome leaves: it sends at most one message, and a
configuration during the exploration only. -/
inductive Answers [HashOrder Text] (h : Handler) (cid : ClientId) :
    Handler × Position → Prop where
  | silent : Answers h cid (h, .idle)
  | explore {g : Handler} (hexploring : h.checkState .exploring = true)
      (hsent : h.sendConfiguration .welcomeClient cid = .ok g) :
      Answers h cid (g, .idle)
  | prediction (hstatus : h.checkState .withPrediction = true) :
      Answers h cid (h.record
        (.sent .welcomeClient h.handlerStatus (.prediction cid)), .idle)
  | abort (hstatus : h.checkState .undefined = true) :
      Answers h cid (h.record
        (.sent .welcomeClient h.handlerStatus (.abort cid)), .idle)

theorem answers_of_answer [HashOrder Text] {cid : ClientId}
    {next : Handler × Position} (hanswer : h.answer cid = .ok next) :
    h.Answers cid next := by
  rw [answer] at hanswer
  split_ifs at hanswer with _ _ _ _ hexploring hprediction hundefined
  · obtain rfl := pure_eq_ok.mp hanswer
    exact .silent
  · obtain rfl := pure_eq_ok.mp hanswer
    exact .silent
  · obtain rfl := pure_eq_ok.mp hanswer
    exact .silent
  · obtain rfl := pure_eq_ok.mp hanswer
    exact .silent
  · obtain ⟨g, hsent, rfl⟩ := bind_pure_eq_ok.mp hanswer
    exact .explore hexploring hsent
  · obtain ⟨g, hsent, rfl⟩ := bind_pure_eq_ok.mp hanswer
    obtain ⟨-, rfl⟩ := send_eq_ok.mp hsent
    exact .prediction hprediction
  · obtain ⟨g, hsent, rfl⟩ := bind_pure_eq_ok.mp hanswer
    obtain ⟨-, rfl⟩ := send_eq_ok.mp hsent
    exact .abort hundefined
  · obtain rfl := pure_eq_ok.mp hanswer
    exact .silent

/-- During the exploration a welcome is answered with a configuration. -/
theorem answer_exploring [HashOrder Text] {h : Handler}
    (hstatus : h.handlerStatus = {.withDoe, .exploring}) (cid : ClientId) :
    h.answer cid = do
      let sent ← h.sendConfiguration .welcomeClient cid
      return (sent, .idle) := by
  have hcheck : ∀ state, h.checkState state =
      decide (state ∈ ({.withDoe, .exploring} : Status)) := by
    intro state
    rw [checkState, hstatus]
  simp only [answer, hcheck]
  rfl

theorem startModeling_cases [HashOrder Text] (h : Handler) :
    h.startModeling = .ok (h.setState {.buildingModel},
        h.modelConfigs.visitKeys.map .model) ∨
      h.startModeling = .error (h.setState {.buildingModel}) := by
  rw [startModeling]
  split
  · exact .inl rfl
  · exact .inr rfl

theorem startClustering_cases (h : Handler) :
    h.startClustering =
        .ok (h.addState {.buildingCluster}, [.cluster]) ∨
      h.startClustering = .error (h.addState {.buildingCluster}) := by
  rw [startClustering]
  split
  · exact .inl rfl
  · exact .inr rfl

/-- The handler at the beginning of an iteration. -/
structure Iterates (h g : Handler) : Prop where
  full : ¬ (h.isDoeValid = true ∧
    h.numConfigurationsSentPerIteration < h.numConfigurationsPerIteration)
  status : g.handlerStatus = {.buildingModel} ∨
    g.handlerStatus = {.buildingModel, .buildingCluster}
  same : g = h.nextIteration.setState g.handlerStatus

theorem Iterates.activeClients (hiterates : h.Iterates g) :
    g.activeClients = h.activeClients := by
  rw [hiterates.same]
  rfl

theorem Iterates.history (hiterates : h.Iterates g) :
    g.history = .iteration :: h.history := by
  rw [hiterates.same]
  rfl

/-- What an observation leads to: another configuration, or a new iteration with
its plugins. -/
inductive Advances [HashOrder Text] (h : Handler) (cid : ClientId) :
    Handler × Position → Prop where
  | sent {g : Handler} (hdoe : h.isDoeValid = true)
      (hless : h.numConfigurationsSentPerIteration <
        h.numConfigurationsPerIteration)
      (hsent : h.sendConfiguration .processObservation cid = .ok g) :
      Advances h cid (g, .idle)
  | iterated {g : Handler} {plugins : List Plugin} (hiterates : h.Iterates g)
      (hplugins : plugins.length ≤ h.modelConfigs.visitKeys.length + 1) :
      Advances h cid (g, .awaiting .modeling plugins)

theorem advances_of_nextConfiguration [HashOrder Text] {cid : ClientId}
    {next : Handler × Position} (hnext : h.nextConfiguration cid = .ok next) :
    h.Advances cid next := by
  rw [nextConfiguration] at hnext
  split at hnext
  · next hsend =>
      simp only [Bool.and_eq_true, decide_eq_true_eq] at hsend
      obtain ⟨g, hsent, rfl⟩ := bind_pure_eq_ok.mp hnext
      exact .sent hsend.1 hsend.2 hsent
  · next hfull =>
      simp only [Bool.and_eq_true, decide_eq_true_eq] at hfull
      obtain ⟨modeling, hmodeling, hrest⟩ := bind_eq_ok.mp hnext
      rcases startModeling_cases _ with hmodels | hmodels
      · obtain rfl := Except.ok.inj (hmodels.symm.trans hmodeling)
        split at hrest
        · obtain ⟨clustering, hclustering, rfl⟩ := bind_pure_eq_ok.mp hrest
          rcases startClustering_cases _ with hcluster | hcluster
          · obtain rfl := Except.ok.inj (hcluster.symm.trans hclustering)
            exact .iterated ⟨hfull, .inr rfl, rfl⟩
              (by simp [modelConfigs, nextIteration, record])
          · cases hcluster.symm.trans hclustering
        · obtain rfl := pure_eq_ok.mp hrest
          exact .iterated ⟨hfull, .inl rfl, rfl⟩
            (by simp [modelConfigs, nextIteration, record])
      · cases hmodels.symm.trans hmodeling

/-- The last client leaves an empty memory behind. -/
theorem byeClient_cases (h : Handler) (cid : ClientId) :
    ∃ g, h.byeClient cid = (g, .idle) ∧
      g.activeClients = h.activeClients.erase cid ∧
      g.numConfigurationsSentPerIteration =
        h.numConfigurationsSentPerIteration ∧
      g.numConfigurationsPerIteration = h.numConfigurationsPerIteration ∧
      g.history = .bye :: h.history ∧
      ((g.activeClients.elems = [] ∧ g.handlerStatus = {.clueless} ∧
          g.doe = .clear ∧ g.cluster = .clear ∧ g.prediction = .clear) ∨
        (g.activeClients.elems ≠ [] ∧
          g.handlerStatus = h.handlerStatus)) := by
  rw [byeClient]
  simp only
  split
  · next hlast =>
      exact ⟨_, rfl, rfl, rfl, rfl, rfl,
        .inl ⟨List.isEmpty_iff.mp hlast, rfl, rfl, rfl, rfl⟩⟩
  · next hothers =>
      exact ⟨_, rfl, rfl, rfl, rfl, rfl,
        .inr ⟨fun hnil => hothers (List.isEmpty_iff.mpr hnil), rfl⟩⟩

end Messages

section Welcome

/-- A welcome with this application starts a session. -/
def Opens (h : Handler) (app : Option ApplicationModel) : Prop :=
  h.checkState .clueless = true ∧ (h.parseInformations app).2 = true

/-- The application is refused with nothing but the description changed, or it
is accepted with its bound on the configurations of an iteration. -/
theorem parseInformations_cases (h : Handler)
    (app : Option ApplicationModel) :
    (∃ g, h.parseInformations app = (g, false) ∧ h.Keeps g ∧
      g.handlerStatus = h.handlerStatus) ∨
    (∃ g, h.parseInformations app = (g, true) ∧
      g.activeClients = h.activeClients ∧ g.history = h.history ∧
      g.numConfigurationsSentPerIteration =
        h.numConfigurationsSentPerIteration) := by
  rw [parseInformations]
  cases h.findBlock app with
  | none => exact .inl ⟨h, rfl, .refl h, rfl⟩
  | some block =>
      simp only
      split
      · exact .inl ⟨_, rfl, ⟨rfl, rfl, rfl, rfl⟩, rfl⟩
      · exact .inr ⟨_, rfl, rfl, rfl, rfl⟩

theorem parseInformations_addClient (h : Handler) (cid : ClientId)
    (app : Option ApplicationModel) :
    (h.addClient cid).parseInformations app =
      ((h.parseInformations app).1.addClient cid,
        (h.parseInformations app).2) := by
  have hfind : (h.addClient cid).findBlock app = h.findBlock app := rfl
  rw [parseInformations, parseInformations, hfind]
  cases h.findBlock app with
  | none => rfl
  | some block =>
      simp only
      cases stoi block.agora.numberConfigurationsPerIteration <;> rfl

/-- What a welcome leads to. -/
inductive Welcomes (h : Handler) (cid : ClientId)
    (app : Option ApplicationModel) : Handler × Position → Prop where
  | refused {g : Handler} (hclueless : h.checkState .clueless = true)
      (hrefused : (h.parseInformations app).2 = false)
      (hkeeps : (h.addClient cid).Keeps g)
      (hstatus : g.handlerStatus = h.handlerStatus) :
      Welcomes h cid app (g, .idle)
  | opened {g : Handler} {next : Handler × Position} (hopens : h.Opens app)
      (hclients : g.activeClients = h.activeClients.emplace cid)
      (hsent : g.numConfigurationsSentPerIteration =
        h.numConfigurationsSentPerIteration)
      (hquota : g.numConfigurationsPerIteration =
        (h.parseInformations app).1.numConfigurationsPerIteration)
      (hhistory : g.history =
        .session h.numConfigurationsSentPerIteration :: h.history)
      (hnext : g.Recovers cid next) :
      Welcomes h cid app next
  | registered (hclueless : h.checkState .clueless = false) :
      Welcomes h cid app (h.addClient cid, .answering cid)

theorem welcomes_welcomeClient (h : Handler) (storage : Storage)
    (cid : ClientId) (app : Option ApplicationModel) :
    h.Welcomes cid app (h.welcomeClient storage cid app) := by
  rw [welcomeClient]
  split
  · next hclueless =>
      rw [parseInformations_addClient]
      rcases h.parseInformations_cases app with
        ⟨g, hparse, hkeeps, hstatus⟩ | ⟨g, hparse, hclients, hhistory, hsent⟩
      · rw [hparse]
        refine .refused hclueless (congrArg Prod.snd hparse)
          ⟨?_, hkeeps.sent, hkeeps.quota, hkeeps.history⟩ hstatus
        exact congrArg (·.emplace cid) hkeeps.activeClients
      · simp only [hparse]
        rw [startSession]
        refine .opened ⟨hclueless, congrArg Prod.snd hparse⟩ ?_ ?_ ?_ ?_
          (recovers_startRecovering _ storage cid)
        · exact congrArg (·.emplace cid) hclients
        · exact hsent
        · exact congrArg (·.1.numConfigurationsPerIteration) hparse.symm
        · simp only [initializePluginLaunchers, record, addClient, hhistory,
            hsent]
  · next hclueless =>
      exact .registered (Bool.eq_false_of_not_eq_true hclueless)

end Welcome

section Clients

variable [HashOrder Text] {next : Handler × Position}

theorem Advances.activeClients {cid : ClientId} (hnext : h.Advances cid next) :
    next.1.activeClients = h.activeClients := by
  cases hnext with
  | sent _ _ hsent => exact sendConfiguration_activeClients hsent
  | iterated hiterates _ => exact hiterates.activeClients

theorem Answers.activeClients {cid : ClientId} (hnext : h.Answers cid next) :
    next.1.activeClients = h.activeClients := by
  cases hnext with
  | explore _ hsent => exact sendConfiguration_activeClients hsent
  | _ => rfl

theorem sendNext_handlerStatus {clients : List ClientId}
    (hnext : h.sendNext clients = .ok next) :
    next.1.handlerStatus = h.handlerStatus := by
  cases clients with
  | nil =>
      obtain rfl := pure_eq_ok.mp hnext
      rfl
  | cons cid rest =>
      obtain ⟨g, hsent, rfl⟩ := bind_pure_eq_ok.mp hnext
      exact sendConfiguration_handlerStatus hsent

theorem sendNext_activeClients {clients : List ClientId}
    (hnext : h.sendNext clients = .ok next) :
    next.1.activeClients = h.activeClients := by
  cases clients with
  | nil =>
      obtain rfl := pure_eq_ok.mp hnext
      rfl
  | cons cid rest =>
      obtain ⟨g, hsent, rfl⟩ := bind_pure_eq_ok.mp hnext
      exact sendConfiguration_activeClients hsent

end Clients

section Exceptions

/-- What an exception leaves of the handler: a configuration that cannot be
composed has left the DOE, and a phase that cannot begin has set its status. -/
inductive Fails (h : Handler) : Position → Handler → Prop where
  | answer (cid : ClientId) (doe : DoeModel) :
      Fails h (.answering cid) { h with doe := doe }
  | restart (clients : List ClientId) (doe : DoeModel) :
      Fails h (.restarting clients) { h with doe := doe }
  | next (cid : ClientId) (doe : DoeModel) (hdoe : h.isDoeValid = true) :
      Fails h (.parsed cid) { h with doe := doe }
  | iterate (cid : ClientId) {g : Handler} (hiterates : h.Iterates g) :
      Fails h (.parsed cid) g
  | broadcast (prediction : PredictionModel) :
      Fails h (.awaiting .prediction [])
        { h with prediction := prediction, handlerStatus := {.withPrediction} }

theorem Fails.activeClients {position : Position} (hfails : h.Fails position g) :
    g.activeClients = h.activeClients := by
  cases hfails with
  | answer cid doe => rfl
  | restart clients doe => rfl
  | next cid doe _ => rfl
  | iterate cid hiterates => exact hiterates.activeClients
  | broadcast prediction => rfl

theorem Fails.description {position : Position} (hfails : h.Fails position g) :
    g.description = h.description := by
  cases hfails with
  | iterate cid hiterates =>
      rw [hiterates.same]
      rfl
  | _ => rfl

theorem Fails.appId {position : Position} (hfails : h.Fails position g) :
    g.appId = h.appId := by
  cases hfails with
  | iterate cid hiterates =>
      rw [hiterates.same]
      rfl
  | _ => rfl

/-- Nothing has been sent. -/
theorem Fails.history {position : Position} (hfails : h.Fails position g) :
    g.history = h.history ∨ g.history = .iteration :: h.history := by
  cases hfails with
  | iterate cid hiterates => exact .inr hiterates.history
  | _ => exact .inl rfl

/-- The status is the same, or that of a phase that has begun. -/
theorem Fails.status {position : Position} (hfails : h.Fails position g) :
    g.handlerStatus = h.handlerStatus ∨
      .exploring ∉ g.handlerStatus ∧ .clueless ∉ g.handlerStatus := by
  cases hfails with
  | iterate cid hiterates =>
      rcases hiterates.status with hg | hg
      · rw [hg]
        exact .inr (by decide)
      · rw [hg]
        exact .inr (by decide)
  | broadcast prediction =>
      exact .inr ⟨by simp, by simp⟩
  | _ => exact .inl rfl

variable [HashOrder Text]

theorem exists_doe_of_error {sender : Sender} {cid : ClientId}
    (hthrown : h.sendConfiguration sender cid = .error g) :
    ∃ doe, g = { h with doe := doe } := by
  obtain ⟨entry, doe, -, -, rfl⟩ := sendConfiguration_eq_error.mp hthrown
  exact ⟨doe, rfl⟩

/-- Only a configuration or the predictions can fail to be composed when a
welcome is answered: an abort has nothing to compose. -/
theorem unsent_of_answer {cid : ClientId} (hthrown : h.answer cid = .error g) :
    h.checkState .exploring = true ∧
        h.sendConfiguration .welcomeClient cid = .error g ∨
      ¬ h.checkState .exploring = true ∧ h.checkState .withPrediction = true ∧
        h.send .welcomeClient (.prediction cid) = .error g := by
  rw [answer] at hthrown
  split_ifs at hthrown with _ _ _ _ hexploring hprediction
  · cases hthrown
  · cases hthrown
  · cases hthrown
  · cases hthrown
  · exact .inl ⟨hexploring, bind_pure_eq_error.mp hthrown⟩
  · exact .inr ⟨hexploring, hprediction, bind_pure_eq_error.mp hthrown⟩
  · have hunsent := bind_pure_eq_error.mp hthrown
    cases (send_eq_error.mp hunsent).1
  · cases hthrown

/-- Of the phases only the last one sends something. -/
theorem unsent_of_continueObservation {storage : Storage} {phase : Phase}
    (hthrown : h.continueObservation storage phase = .error g) :
    phase = .prediction ∧ (h.loadPrediction storage).isPredictionValid = true ∧
      ((h.loadPrediction storage).setState {.withPrediction}).send
        .processObservation .broadcast = .error g := by
  cases phase with
  | modeling => cases hthrown
  | prediction =>
      simp only [continueObservation] at hthrown
      split at hthrown
      · next hvalid => exact ⟨rfl, hvalid, bind_pure_eq_error.mp hthrown⟩
      · cases hthrown
  | doe =>
      simp only [continueObservation] at hthrown
      split at hthrown
      · cases hthrown
      · cases hthrown

theorem fails_of_answer {cid : ClientId} (hthrown : h.answer cid = .error g) :
    h.Fails (.answering cid) g := by
  rcases unsent_of_answer hthrown with ⟨-, hunsent⟩ | ⟨-, -, hunsent⟩
  · obtain ⟨doe, rfl⟩ := exists_doe_of_error hunsent
    exact .answer cid doe
  · obtain ⟨-, rfl⟩ := send_eq_error.mp hunsent
    exact .answer cid g.doe

theorem fails_of_nextConfiguration {cid : ClientId}
    (hthrown : h.nextConfiguration cid = .error g) :
    h.Fails (.parsed cid) g := by
  rw [nextConfiguration] at hthrown
  split at hthrown
  · next hsend =>
      simp only [Bool.and_eq_true, decide_eq_true_eq] at hsend
      have hunsent := bind_pure_eq_error.mp hthrown
      obtain ⟨doe, rfl⟩ := exists_doe_of_error hunsent
      exact .next cid doe hsend.1
  · next hfull =>
      simp only [Bool.and_eq_true, decide_eq_true_eq] at hfull
      rcases bind_eq_error.mp hthrown with hunmodeled |
        ⟨modeling, hmodeling, hrest⟩
      · rcases startModeling_cases _ with hmodels | hmodels
        · cases hmodels.symm.trans hunmodeled
        · obtain rfl := Except.error.inj (hmodels.symm.trans hunmodeled)
          exact .iterate cid ⟨hfull, .inl rfl, rfl⟩
      · rcases startModeling_cases _ with hmodels | hmodels
        · obtain rfl := Except.ok.inj (hmodels.symm.trans hmodeling)
          split at hrest
          · have hunclustered := bind_pure_eq_error.mp hrest
            rcases startClustering_cases _ with hcluster | hcluster
            · cases hcluster.symm.trans hunclustered
            · obtain rfl :=
                Except.error.inj (hcluster.symm.trans hunclustered)
              exact .iterate cid ⟨hfull, .inr rfl, rfl⟩
          · cases hrest
        · cases hmodels.symm.trans hmodeling

theorem fails_of_throws {storage : Storage} {position : Position}
    {input : Input} (hthrows : h.Throws storage position input g) :
    h.Fails position g := by
  cases hthrows with
  | answer cid hthrown => exact fails_of_answer hthrown
  | next cid hthrown => exact fails_of_nextConfiguration hthrown
  | restart clients hthrown =>
      cases clients with
      | nil => cases hthrown
      | cons cid rest =>
          have hunsent := bind_pure_eq_error.mp hthrown
          obtain ⟨doe, rfl⟩ := exists_doe_of_error hunsent
          exact .restart (cid :: rest) doe
  | awaited phase hthrown =>
      obtain ⟨rfl, -, hunsent⟩ := unsent_of_continueObservation hthrown
      obtain ⟨-, rfl⟩ := send_eq_error.mp hunsent
      exact .broadcast _

end Exceptions

end Handler

end Margot.Agora
