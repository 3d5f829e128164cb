/-
One worker and the plugins it launches.  A plugin that fails, a message that
cannot be composed and a launcher that is missing end the server; as long as
there is none of them, every call returns and leaves a status that a later
message can start from.
-/
import Margot.Agora.Exceptions

namespace Margot.Agora

namespace Handler

/-- One of the statuses that await a message, and no phase in progress. -/
def Settled (h : Handler) : Prop :=
  (∃ state ∈ [.clueless, .undefined, .exploring, .withPrediction],
    h.checkState state = true) ∧
  ∀ state ∈ [.recovering, .buildingDoe, .buildingCluster, .buildingModel,
    .buildingPrediction], h.checkState state = false

instance (h : Handler) : Decidable h.Settled :=
  inferInstanceAs (Decidable (_ ∧ _))

variable {h g : Handler}

theorem Settled.unoccupied (hsettled : h.Settled) : h.Unoccupied where
  buildingDoe := hsettled.2 .buildingDoe (by simp)
  buildingModel := hsettled.2 .buildingModel (by simp)
  buildingCluster := hsettled.2 .buildingCluster (by simp)
  buildingPrediction := hsettled.2 .buildingPrediction (by simp)
  recovering := hsettled.2 .recovering (by simp)

theorem Settled.of_status (hsettled : h.Settled)
    (hstatus : g.handlerStatus = h.handlerStatus) : g.Settled := by
  unfold Settled checkState
  rw [hstatus]
  exact hsettled

theorem settled_clueless (hstatus : h.handlerStatus = {.clueless}) :
    h.Settled := by
  simp [Settled, checkState, hstatus]

theorem settled_undefined (hstatus : h.handlerStatus = {.undefined}) :
    h.Settled := by
  simp [Settled, checkState, hstatus]

theorem settled_exploring (hstatus : h.handlerStatus = {.withDoe, .exploring}) :
    h.Settled := by
  simp [Settled, checkState, hstatus]

theorem settled_withPrediction (hstatus : h.handlerStatus = {.withPrediction}) :
    h.Settled := by
  simp [Settled, checkState, hstatus]

end Handler

/-- No plugin is running at this position. -/
def Position.quiet : Position → Bool
  | .awaiting _ _ => false
  | .recovering _ _ _ => false
  | _ => true

namespace Handler

variable {h : Handler} {next : Handler × Position}

/-- Where no plugin runs, the status is settled. -/
def Rests (next : Handler × Position) : Prop :=
  next.2.quiet = true → next.1.Settled

theorem Continues.rests [HashOrder Text] (hnext : h.Continues next) :
    Rests next := by
  cases hnext with
  | launched _ _ => exact nofun
  | restarted _ hstatus => exact fun _ => settled_exploring hstatus
  | predicted _ hstatus => exact fun _ => settled_withPrediction hstatus
  | exhausted _ hstatus => exact fun _ => settled_undefined hstatus

theorem Recovers.rests {cid : ClientId} (hnext : h.Recovers cid next) :
    Rests next := by
  cases hnext with
  | launched _ _ => exact nofun
  | done _ hstatus =>
      intro _
      rcases hstatus with hg | hg | hg
      · exact settled_withPrediction hg
      · exact settled_exploring hg
      · exact settled_undefined hg

theorem rests_turn [HashOrder Text] {storage : Storage} {position : Position}
    {input : Input} (hrests : Rests (h, position))
    (hturn : h.Turn storage position input next) : Rests next := by
  cases hturn with
  | welcome cid app =>
      have hwelcomes := h.welcomes_welcomeClient storage cid app
      generalize h.welcomeClient storage cid app = next at hwelcomes
      cases hwelcomes with
      | refused _ _ _ hstatus =>
          exact fun _ => (hrests rfl).of_status hstatus
      | opened _ _ _ _ _ hrecovers => exact hrecovers.rests
      | registered _ => exact fun _ => (hrests rfl).of_status rfl
  | bye cid =>
      obtain ⟨g, hbye, -, -, -, -, hleft⟩ := h.byeClient_cases cid
      rw [hbye]
      intro _
      rcases hleft with ⟨-, hstatus, -⟩ | ⟨-, hstatus⟩
      · exact settled_clueless hstatus
      · exact (hrests rfl).of_status hstatus
  | observation cid =>
      rw [processObservation]
      split <;> exact fun _ => hrests rfl
  | next cid hnext =>
      cases advances_of_nextConfiguration hnext with
      | sent _ _ hsent =>
          exact fun _ => (hrests rfl).of_status
            (sendConfiguration_handlerStatus hsent)
      | iterated _ _ => exact nofun
  | awaited phase hnext => exact (continues_continueObservation hnext).rests
  | restart clients hnext =>
      exact fun _ => (hrests rfl).of_status (sendNext_handlerStatus hnext)
  | recovered cid phase =>
      exact (h.recovers_continueRecovery storage cid phase).rests
  | answer cid hnext =>
      intro _
      cases answers_of_answer hnext with
      | explore _ hsent =>
          exact (hrests rfl).of_status (sendConfiguration_handlerStatus hsent)
      | _ => exact (hrests rfl).of_status rfl

section Remaining

variable [HashOrder Text]

/-- How many turns of the loop a restart of the exploration takes. -/
def clients (h : Handler) : Nat := h.activeClients.iterate.length

/-- How many plugins are launched for the models. -/
def models (h : Handler) : Nat := h.modelConfigs.visitKeys.length

/-- A bound on the steps that the worker has left in its call. -/
def remaining (h : Handler) : Position → Nat
  | .idle => 0
  | .answering _ => 1
  | .restarting clients => clients.length + 1
  | .recovering _ .doe plugins => plugins.length + 2
  | .recovering _ _ plugins => plugins.length + 4
  | .awaiting .doe plugins => plugins.length + h.clients + 2
  | .awaiting .prediction plugins => plugins.length + h.clients + 4
  | .awaiting .modeling plugins => plugins.length + h.clients + 6
  | .parsed _ => h.models + h.clients + 8
  | .observed _ => h.models + h.clients + 9

theorem remaining_sending (h : Handler) (clients : List ClientId) :
    h.remaining (.sending clients) ≤ clients.length + 1 := by
  cases clients with
  | nil => exact Nat.zero_le _
  | cons cid rest => exact le_refl _

theorem remaining_explore (h : Handler) :
    h.explore.1.remaining h.explore.2 ≤ h.clients + 3 := by
  rw [explore]
  split
  · have hsending := (h.setState {.withDoe, .exploring}).remaining_sending
      h.activeClients.iterate
    simp only [restartExploration]
    rw [clients]
    omega
  · simp only [startDoe, remaining, clients, setState, List.length_singleton]
    omega

theorem remaining_predict (h : Handler) :
    h.predict.1.remaining h.predict.2 ≤ h.clients + 5 := by
  rw [predict]
  split
  · simp only [startPrediction, remaining, clients, setState,
      List.length_singleton]
    omega
  · have hexplore := h.remaining_explore
    omega

theorem Keeps.clients {g : Handler} (hkeeps : h.Keeps g) :
    g.clients = h.clients := by
  rw [Handler.clients, Handler.clients, hkeeps.activeClients]

theorem remaining_continueObservation {storage : Storage} {phase : Phase}
    (hnext : h.continueObservation storage phase = .ok next) :
    next.1.remaining next.2 < h.remaining (.awaiting phase []) := by
  cases resumes_of_continueObservation hnext with
  | modeled =>
      have hkeeps := (h.keeps_checkModels storage).trans
        (keeps_checkClusters _ storage)
      have hpredict :=
        ((h.checkModels storage).checkClusters storage).remaining_predict
      rw [hkeeps.clients] at hpredict
      apply Nat.lt_of_le_of_lt hpredict
      simp only [remaining, List.length_nil]
      omega
  | predicted _ =>
      simp only [remaining]
      omega
  | unpredicted _ =>
      have hexplore := (h.loadPrediction storage).remaining_explore
      rw [(h.keeps_loadPrediction storage).clients] at hexplore
      apply Nat.lt_of_le_of_lt hexplore
      simp only [remaining, List.length_nil]
      omega
  | designed _ =>
      have hsending := ((h.loadDoe storage).setState
        {.withDoe, .exploring}).remaining_sending h.activeClients.iterate
      simp only [restartExploration, remaining, List.length_nil, clients]
      change remaining _ (.sending h.activeClients.iterate) < _
      omega
  | undesigned =>
      simp only [remaining]
      omega

theorem remaining_recoverDoe (h : Handler) (cid : ClientId) :
    (h.recoverDoe cid).1.remaining (h.recoverDoe cid).2 ≤ 3 := by
  rw [recoverDoe]
  split
  · simp [remaining]
  · simp [startDoe, remaining]

theorem remaining_continueRecovery (h : Handler) (storage : Storage)
    (cid : ClientId) (phase : Phase) :
    (h.continueRecovery storage cid phase).1.remaining
        (h.continueRecovery storage cid phase).2 <
      h.remaining (.recovering cid phase []) := by
  cases phase with
  | doe =>
      simp only [continueRecovery]
      split <;> simp [remaining]
  | modeling =>
      simp only [continueRecovery]
      split
      · simp [remaining]
      · have hdoe := (h.loadPrediction storage).remaining_recoverDoe cid
        exact Nat.lt_succ_of_le hdoe
  | prediction =>
      simp only [continueRecovery]
      split
      · simp [remaining]
      · have hdoe := (h.loadPrediction storage).remaining_recoverDoe cid
        exact Nat.lt_succ_of_le hdoe

theorem Advances.remaining_lt {cid : ClientId} (hnext : h.Advances cid next) :
    next.1.remaining next.2 < h.remaining (.parsed cid) := by
  cases hnext with
  | sent _ _ _ =>
      simp only [remaining]
      omega
  | @iterated g plugins hiterates hplugins =>
      simp only [remaining, clients, models, hiterates.activeClients]
      omega

/-- Every turn of a call brings it closer to its end. -/
theorem remaining_turn {storage : Storage} {position : Position}
    (hturn : h.Turn storage position .proceed next) :
    next.1.remaining next.2 < h.remaining position := by
  cases hturn with
  | next cid hnext => exact (advances_of_nextConfiguration hnext).remaining_lt
  | awaited phase hnext => exact remaining_continueObservation hnext
  | restart clients hnext =>
      cases clients with
      | nil =>
          obtain rfl := pure_eq_ok.mp hnext
          exact Nat.zero_lt_one
      | cons cid rest =>
          obtain ⟨g, -, rfl⟩ := bind_pure_eq_ok.mp hnext
          exact Nat.lt_succ_of_le (g.remaining_sending rest)
  | recovered cid phase =>
      exact h.remaining_continueRecovery storage cid phase
  | answer cid hnext =>
      cases answers_of_answer hnext with
      | _ => exact Nat.zero_lt_one

/-- A call that an exception can leave is not at its end. -/
theorem Fails.remaining_pos {position : Position} (hfails : h.Fails position g) :
    0 < h.remaining position := by
  cases hfails with
  | _ => exact Nat.zero_lt_succ _

theorem remaining_waited {position waited : Position}
    (hwaited : position.waited = some waited) :
    h.remaining waited < h.remaining position := by
  rcases Position.waited_cases hwaited with
    ⟨phase, plugin, plugins, rfl, rfl⟩ | ⟨cid, phase, plugin, plugins, rfl, rfl⟩
  · cases phase <;> simp [remaining]
  · cases phase <;> simp [remaining]

end Remaining

end Handler

namespace Server

section Runs

variable [HashOrder Text] {s t : Server Unit}

/-- The plugin that is waited for, if any, has succeeded. -/
def PluginSucceeds {W : Type} : Action W → Prop
  | .wait _ returnCode => returnCode = 0
  | _ => True

/-- One step of the worker in its call, whatever the plugins have written
before it. -/
def Serves (s t : Server Unit) : Prop :=
  s.position () ≠ .idle ∧
    ∃ storage action, PluginSucceeds action ∧
      (∀ worker storage', action ≠ .produce worker storage') ∧
      ({ s with storage := storage } : Server Unit).step action = some t

/-- The call of the worker comes to its end if its plugins succeed: as long as
no exception leaves it, it is never stuck, and it does not go on forever. -/
inductive Returns : Server Unit → Prop where
  | intro {s : Server Unit}
      (hnext : s.terminated = false → s.position () ≠ .idle → ∃ t, s.Serves t)
      (hall : ∀ t, s.Serves t → Returns t) : Returns s

/-- No exception has escaped, the call returns, and the status is settled once
it has. -/
structure Contained (s : Server Unit) : Prop where
  running : s.terminated = false
  returns : s.Returns
  settled : s.position () = .idle → s.handler.Settled

omit [HashOrder Text] in
/-- The only worker may always take the mutex. -/
theorem mayLock_unit (s : Server Unit) : s.mayLock () := by
  cases hmutex : s.appMutex with
  | none => exact .inl hmutex
  | some worker => exact .inr hmutex

/-- Every step of a call brings it closer to its end. -/
theorem Serves.remaining_lt (hserves : s.Serves t) :
    t.handler.remaining (t.position ()) <
      s.handler.remaining (s.position ()) := by
  obtain ⟨hbusy, storage, action, hsucceeds, hown, hstep⟩ := hserves
  cases action with
  | locked worker input =>
      obtain ⟨-, -, ⟨next, hturn, rfl⟩ | ⟨g, hthrows, rfl⟩⟩ :=
        step_locked.mp hstep
      · simp only [leave, position_move, Function.update_self]
        change s.handler.Turn _ (s.position ()) _ _ at hturn
        generalize s.position () = position at hturn hbusy ⊢
        cases input with
        | proceed => exact Handler.remaining_turn hturn
        | welcome cid app =>
            cases hturn
            exact absurd rfl hbusy
        | bye cid =>
            cases hturn
            exact absurd rfl hbusy
        | observation cid =>
            cases hturn
            exact absurd rfl hbusy
      · simp only [terminate, leave, position_move, Function.update_self]
        exact (Handler.fails_of_throws hthrows).remaining_pos
  | parse worker success =>
      obtain ⟨-, cid, hposition, rfl⟩ := step_parse.mp hstep
      change s.position () = _ at hposition
      simp only [position_move, Function.update_self, hposition]
      cases success with
      | true => exact Nat.lt_succ_self _
      | false => exact Nat.zero_lt_succ _
  | produce worker storage' => exact absurd rfl (hown worker storage')
  | wait worker returnCode =>
      obtain ⟨-, position, hwaited, rfl⟩ := step_wait.mp hstep
      have hzero : returnCode = 0 := hsucceeds
      rw [if_pos hzero]
      simp only [position_move, Function.update_self]
      exact Handler.remaining_waited hwaited

theorem exists_step_locked {W : Type} [DecidableEq W] {s : Server W} {worker : W}
    {input : Input} {outcome : Outcome} (hrunning : s.terminated = false)
    (hlock : s.mayLock worker)
    (hturn : s.handler.turn s.storage (s.position worker) input =
      some outcome) :
    ∃ t, s.step (.locked worker input) = some t := by
  cases outcome with
  | ok next =>
      exact ⟨_, step_locked.mpr ⟨hrunning, hlock,
        .inl ⟨next, Handler.turn_eq_ok.mp hturn, rfl⟩⟩⟩
  | error g =>
      exact ⟨_, step_locked.mpr ⟨hrunning, hlock,
        .inr ⟨g, Handler.turn_eq_error.mp hturn, rfl⟩⟩⟩

/-- A worker that is not idle, and may lock the mutex, has a step to take. -/
theorem exists_step {W : Type} [DecidableEq W] {s : Server W} {worker : W}
    (hrunning : s.terminated = false) (hlock : s.mayLock worker)
    (hbusy : s.position worker ≠ .idle) :
    ∃ action t, PluginSucceeds action ∧
      (action = .locked worker .proceed ∨ action = .parse worker true ∨
        action = .wait worker 0) ∧ s.step action = some t := by
  have hproceed : ∀ outcome, s.handler.turn s.storage (s.position worker)
      .proceed = some outcome → ∃ action t, PluginSucceeds action ∧
        (action = .locked worker .proceed ∨ action = .parse worker true ∨
          action = .wait worker 0) ∧ s.step action = some t := by
    intro outcome hturn
    obtain ⟨t, hstep⟩ := exists_step_locked hrunning hlock hturn
    exact ⟨.locked worker .proceed, t, trivial, .inl rfl, hstep⟩
  have hwait : ∀ position, (s.position worker).waited = some position →
      ∃ action t, PluginSucceeds action ∧
        (action = .locked worker .proceed ∨ action = .parse worker true ∨
          action = .wait worker 0) ∧ s.step action = some t :=
    fun position hwaited => ⟨.wait worker 0, _, rfl, .inr (.inr rfl),
      step_wait.mpr ⟨hrunning, position, hwaited, rfl⟩⟩
  cases hposition : s.position worker with
  | idle => exact absurd hposition hbusy
  | observed cid =>
      exact ⟨.parse worker true, _, trivial, .inr (.inl rfl),
        step_parse.mpr ⟨hrunning, cid, hposition, rfl⟩⟩
  | parsed cid => exact hproceed _ (by rw [hposition]; rfl)
  | awaiting phase plugins =>
      cases plugins with
      | nil => exact hproceed _ (by rw [hposition]; rfl)
      | cons plugin plugins =>
          exact hwait (.awaiting phase plugins) (by rw [hposition]; rfl)
  | restarting clients => exact hproceed _ (by rw [hposition]; rfl)
  | recovering cid phase plugins =>
      cases plugins with
      | nil => exact hproceed _ (by rw [hposition]; rfl)
      | cons plugin plugins =>
          exact hwait (.recovering cid phase plugins) (by rw [hposition]; rfl)
  | answering cid => exact hproceed _ (by rw [hposition]; rfl)

/-- A busy worker can go on. -/
theorem serves_of_busy (hrunning : s.terminated = false)
    (hbusy : s.position () ≠ .idle) : ∃ t, s.Serves t := by
  obtain ⟨action, t, hsucceeds, haction, hstep⟩ :=
    exists_step hrunning s.mayLock_unit hbusy
  refine ⟨t, hbusy, s.storage, action, hsucceeds, ?_, hstep⟩
  rcases haction with rfl | rfl | rfl
  · exact nofun
  · exact nofun
  · exact nofun

/-- By induction on the steps that are left. -/
theorem returns (s : Server Unit) : s.Returns := by
  induction hsteps : s.handler.remaining (s.position ())
    using Nat.strong_induction_on generalizing s with
  | h steps ih =>
      refine .intro serves_of_busy fun t hserves => ?_
      exact ih _ (hsteps ▸ hserves.remaining_lt) t rfl

/-- The server runs, and no plugin is needed for its status to be settled. -/
structure Quiet (s : Server Unit) : Prop where
  running : s.terminated = false
  rests : Handler.Rests (s.handler, s.position ())

theorem Quiet.contained (hs : s.Quiet) : s.Contained where
  running := hs.running
  returns := returns s
  settled := fun hidle => hs.rests (by rw [hidle]; rfl)

/-- Nothing fails in the step: its plugin succeeds, its message can be composed,
and the launchers that it asks for are there. -/
structure Unfailing (s : Server Unit) (action : Action Unit) : Prop where
  succeeds : PluginSucceeds action
  composes : s.Composes action
  launches : s.Launches action

theorem quiet_step {action : Action Unit} (hs : s.Quiet)
    (hunfailing : s.Unfailing action) (hstep : s.step action = some t) :
    t.Quiet := by
  cases action with
  | locked worker input =>
      obtain ⟨-, -, ⟨next, hturn, rfl⟩ | ⟨g, hthrows, rfl⟩⟩ :=
        step_locked.mp hstep
      · refine ⟨hs.running, ?_⟩
        simp only [leave, position_move, Function.update_self]
        exact Handler.rests_turn hs.rests hturn
      · obtain rfl := hthrows.input_eq
        exact absurd hthrows
          (Handler.not_throws hunfailing.composes hunfailing.launches)
  | parse worker success =>
      obtain ⟨-, cid, hposition, rfl⟩ := step_parse.mp hstep
      refine ⟨hs.running, fun _ => hs.rests ?_⟩
      rw [hposition]
      rfl
  | produce worker storage =>
      obtain ⟨-, -, rfl⟩ := step_produce.mp hstep
      exact ⟨hs.running, hs.rests⟩
  | wait worker returnCode =>
      obtain ⟨-, position, hwaited, rfl⟩ := step_wait.mp hstep
      have hzero : returnCode = 0 := hunfailing.succeeds
      rw [if_pos hzero]
      refine ⟨hs.running, fun hquiet => ?_⟩
      simp only [position_move, Function.update_self] at hquiet
      rcases Position.waited_cases hwaited with
        ⟨phase, plugin, plugins, -, rfl⟩ | ⟨cid, phase, plugin, plugins, -, rfl⟩
      · contradiction
      · contradiction

/-- A call that no exception has left has met no failure. -/
theorem unfailing_of_contained {action : Action Unit} (hs : s.Quiet)
    (hstep : s.step action = some t) (ht : t.Contained) :
    s.Unfailing action := by
  cases action with
  | locked worker input =>
      cases input with
      | welcome cid app => exact ⟨trivial, trivial, trivial⟩
      | bye cid => exact ⟨trivial, trivial, trivial⟩
      | observation cid => exact ⟨trivial, trivial, trivial⟩
      | proceed =>
          by_contra hfails
          have hcondition : ¬ (s.handler.Composes s.storage (s.position worker) ∧
              s.handler.Launches (s.position worker)) :=
            fun hmet => hfails ⟨trivial, hmet.1, hmet.2⟩
          obtain ⟨g, hthrows⟩ := Handler.exists_throws (fun cid hposition =>
            (hs.rests (by rw [hposition]; rfl)).unoccupied) hcondition
          obtain ⟨-, -, ⟨next, hturn, rfl⟩ | ⟨g', -, rfl⟩⟩ :=
            step_locked.mp hstep
          · have hboth := (Handler.turn_eq_ok.mpr hturn).symm.trans
              (Handler.turn_eq_error.mpr hthrows)
            cases Option.some.inj hboth
          · exact absurd ht.running Bool.true_eq_false.mp
  | parse worker success => exact ⟨trivial, trivial, trivial⟩
  | produce worker storage => exact ⟨trivial, trivial, trivial⟩
  | wait worker returnCode =>
      refine ⟨?_, trivial, trivial⟩
      obtain ⟨-, position, -, rfl⟩ := step_wait.mp hstep
      by_contra hfails
      have hnonzero : returnCode ≠ 0 := hfails
      have hrunning := ht.running
      rw [if_neg hnonzero] at hrunning
      contradiction

omit [HashOrder Text] in
theorem quiet_fresh (appId : ApplicationId) (storage : Storage) :
    (fresh appId storage : Server Unit).Quiet where
  running := rfl
  rests := fun _ => Handler.settled_clueless rfl

end Runs

section Escaped

open Sample

local instance escapingOrder : HashOrder Text := HashOrder.stored Text

/-- A welcome for which a DOE has to be built, by a plugin that exits with the
code one. -/
def failing : List (Action Unit) :=
  [.locked () (.welcome client (some (app "1".toList))), .wait () 256]

def escaped : Server Unit :=
  (runFrom step (fresh appId emptyStorage) failing).get (by decide +kernel)

end Escaped

end Server

end Margot.Agora
