/-
What the last client leaves behind.  `bye_client` resets the handler under the
mutex; a worker that was waiting for its plugins goes on afterwards and writes
the status again.
-/
import Margot.Agora.Outcomes

namespace Margot.Agora

namespace Handler

/-- The handler knows nothing, and its memory is empty. -/
structure Blank (h : Handler) : Prop where
  status : h.handlerStatus = {.clueless}
  doe : h.doe = .clear
  cluster : h.cluster = .clear
  prediction : h.prediction = .clear

theorem Blank.not_exploring {h : Handler} (hblank : h.Blank) :
    h.checkState .exploring = false := by
  rw [checkState, hblank.status]
  rfl

theorem Blank.isDoeValid {h : Handler} (hblank : h.Blank) :
    h.isDoeValid = false := by
  rw [Handler.isDoeValid, hblank.doe]
  rfl

/-- A worker that goes on after its plugins never leaves the handler clueless. -/
theorem Continues.not_clueless [HashOrder Text] {h : Handler}
    {next : Handler × Position} (hnext : h.Continues next) :
    next.1.handlerStatus ≠ {.clueless} := by
  cases hnext with
  | launched _ hstatus => rcases hstatus with hg | hg <;> rw [hg] <;> decide
  | restarted _ hstatus => rw [hstatus]; decide
  | predicted _ hstatus => rw [record, hstatus]; decide
  | exhausted _ hstatus => rw [hstatus]; decide

/-- With clients to serve, the loop over them is what keeps the mutex. -/
theorem Continues.activeClients [HashOrder Text] {h : Handler}
    {next : Handler × Position} (hnext : h.Continues next) :
    next.1.activeClients = h.activeClients ∧
      (next.2.locked = true → h.activeClients.elems ≠ []) := by
  cases hnext with
  | launched hkeeps _ => exact ⟨hkeeps.activeClients, nofun⟩
  | restarted hkeeps _ =>
      refine ⟨hkeeps.activeClients, fun hlocked hnil => ?_⟩
      have hnone : ∀ cid, cid ∉ h.activeClients := by
        intro cid
        rw [UnorderedSet.mem_def, hnil]
        exact List.not_mem_nil
      rw [UnorderedSet.iterate_eq_nil.mpr hnone] at hlocked
      contradiction
  | predicted hkeeps _ => exact ⟨hkeeps.activeClients, nofun⟩
  | exhausted hkeeps _ => exact ⟨hkeeps.activeClients, nofun⟩

end Handler

namespace Server

variable {W : Type} [DecidableEq W] {s t : Server W}

/-- With a free mutex and no client, once somebody has left, the handler is
blank. -/
def Reset (s : Server W) : Prop :=
  s.appMutex = none → s.handler.activeClients.elems = [] →
    .bye ∈ s.handler.history → s.handler.Blank

/-- A client is registered whenever `process_observation` takes the mutex
again. -/
def Attended (s : Server W) : Action W → Prop
  | .locked worker .proceed =>
      ((∃ cid, s.position worker = .parsed cid) ∨
        ∃ phase, s.position worker = .awaiting phase []) →
      s.handler.activeClients.elems ≠ []
  | _ => True

/-- What holds as long as nobody goes on without a client. -/
structure Tidy (s : Server W) : Prop where
  holding : s.Holding
  attended : s.appMutex ≠ none → s.handler.activeClients.elems ≠ []
  blank : s.handler.activeClients.elems = [] → s.handler.Blank
  left : ∀ worker, s.position worker ≠ .idle →
    s.handler.activeClients.elems ≠ [] ∨ .bye ∈ s.handler.history

omit [DecidableEq W] in
theorem Tidy.terminate (hs : s.Tidy) : s.terminate.Tidy :=
  ⟨hs.holding, hs.attended, hs.blank, hs.left⟩

omit [DecidableEq W] in
theorem Tidy.reset (hs : s.Tidy) : s.Reset :=
  fun _ hclients _ => hs.blank hclients

section Steps

variable {worker : W}

theorem Tidy.move (hs : s.Tidy) {position : Position}
    (hlocked : position.locked = (s.position worker).locked)
    (hbusy : s.position worker ≠ .idle) :
    (s.move worker position).Tidy where
  holding := hs.holding.move hlocked
  attended := hs.attended
  blank := hs.blank
  left := fun _ _ => hs.left worker hbusy

/-- A worker that leaves the handler with a client registered. -/
theorem Tidy.leave_attended (hs : s.Tidy) (hlock : s.mayLock worker)
    {next : Handler × Position}
    (hclients : next.1.activeClients.elems ≠ []) :
    (s.leave worker next).Tidy where
  holding := hs.holding.leave hlock next
  attended := fun _ => hclients
  blank := fun hnil => absurd hnil hclients
  left := fun _ _ => .inl hclients

theorem tidy_bye (hs : s.Tidy) (hlock : s.mayLock worker) (cid : ClientId) :
    (s.leave worker (s.handler.byeClient cid)).Tidy := by
  obtain ⟨g, hbye, -, -, -, hhistory, hleft⟩ := s.handler.byeClient_cases cid
  rw [hbye]
  rcases hleft with ⟨hnil, hstatus, hdoe, hcluster, hprediction⟩ | ⟨hne, -⟩
  · refine ⟨hs.holding.leave hlock _, fun hheld => absurd rfl hheld,
      fun _ => ⟨hstatus, hdoe, hcluster, hprediction⟩, fun _ _ => .inr ?_⟩
    simp only [leave, hhistory]
    exact List.mem_cons_self
  · exact hs.leave_attended hlock hne

/-- The first part of `process_observation` changes nothing, and goes on during
the exploration only. -/
theorem tidy_observation (hs : s.Tidy) (hlock : s.mayLock worker)
    (cid : ClientId) :
    (s.leave worker (s.handler.processObservation cid)).Tidy := by
  by_cases hclients : s.handler.activeClients.elems = []
  · have hclueless := (hs.blank hclients).not_exploring
    rw [Handler.processObservation, hclueless]
    refine ⟨hs.holding.leave hlock _, fun hheld => absurd rfl hheld, hs.blank,
      fun other hother => ?_⟩
    by_cases hself : other = worker
    · subst hself
      simp [leave] at hother
    · simp only [leave, position_move, Function.update_of_ne hself] at hother
      exact hs.left other hother
  · have hsame : (s.handler.processObservation cid).1 = s.handler := by
      rw [Handler.processObservation]
      split <;> rfl
    apply hs.leave_attended hlock
    rw [hsame]
    exact hclients

omit [DecidableEq W] in
/-- A worker that holds the mutex serves a client. -/
theorem Tidy.served (hs : s.Tidy) (worker : W)
    (hlocked : (s.position worker).locked = true) :
    s.handler.activeClients.elems ≠ [] := by
  apply hs.attended
  rw [hs.holding worker hlocked]
  exact Option.some_ne_none worker

end Steps

section Runs

variable [HashOrder Text]

theorem tidy_locked {worker : W} {input : Input} {next : Handler × Position}
    (hs : s.Tidy) (hattended : s.Attended (.locked worker input))
    (hlock : s.mayLock worker)
    (hturn : s.handler.Turn s.storage (s.position worker) input next) :
    (s.leave worker next).Tidy := by
  generalize hposition : s.position worker = position at hturn
  cases hturn with
  | welcome cid app =>
      apply hs.leave_attended hlock
      have hwelcomes := s.handler.welcomes_welcomeClient s.storage cid app
      generalize s.handler.welcomeClient s.storage cid app = next at hwelcomes
      have hadded :=
        UnorderedSet.emplace_elems_ne_nil s.handler.activeClients cid
      cases hwelcomes with
      | refused _ _ hkeeps _ =>
          rw [hkeeps.activeClients]
          exact hadded
      | opened _ hclients _ _ _ hrecovers =>
          rw [hrecovers.keeps.activeClients, hclients]
          exact hadded
      | registered _ => exact hadded
  | bye cid => exact tidy_bye hs hlock cid
  | observation cid => exact tidy_observation hs hlock cid
  | next cid hnext =>
      have hclients := hattended (.inl ⟨cid, hposition⟩)
      apply hs.leave_attended hlock
      rw [(Handler.advances_of_nextConfiguration hnext).activeClients]
      exact hclients
  | awaited phase hnext =>
      have hclients := hattended (.inr ⟨phase, hposition⟩)
      apply hs.leave_attended hlock
      rw [(Handler.continues_continueObservation hnext).activeClients.1]
      exact hclients
  | restart clients hnext =>
      have hclients := hs.served worker (by rw [hposition]; rfl)
      apply hs.leave_attended hlock
      rw [Handler.sendNext_activeClients hnext]
      exact hclients
  | recovered cid phase =>
      have hclients := hs.served worker (by rw [hposition]; rfl)
      apply hs.leave_attended hlock
      have hrecovers :=
        s.handler.recovers_continueRecovery s.storage cid phase
      rw [hrecovers.keeps.activeClients]
      exact hclients
  | answer cid hnext =>
      have hclients := hs.served worker (by rw [hposition]; rfl)
      apply hs.leave_attended hlock
      rw [(Handler.answers_of_answer hnext).activeClients]
      exact hclients

theorem tidy_thrown {worker : W} {input : Input} {g : Handler}
    (hs : s.Tidy) (hattended : s.Attended (.locked worker input))
    (hlock : s.mayLock worker)
    (hthrows : s.handler.Throws s.storage (s.position worker) input g) :
    (s.leave worker (g, .idle)).Tidy := by
  apply hs.leave_attended hlock
  rw [(Handler.fails_of_throws hthrows).activeClients]
  generalize hposition : s.position worker = position at hthrows
  cases hthrows with
  | next cid _ => exact hattended (.inl ⟨cid, hposition⟩)
  | awaited phase _ => exact hattended (.inr ⟨phase, hposition⟩)
  | restart clients _ => exact hs.served worker (by rw [hposition]; rfl)
  | answer cid _ => exact hs.served worker (by rw [hposition]; rfl)

theorem tidy_step {action : Action W} (hs : s.Tidy)
    (hattended : s.Attended action) (hstep : s.step action = some t) :
    t.Tidy := by
  cases action with
  | locked worker input =>
      obtain ⟨-, hlock, ⟨next, hturn, rfl⟩ | ⟨g, hthrows, rfl⟩⟩ :=
        step_locked.mp hstep
      · exact tidy_locked hs hattended hlock hturn
      · exact (tidy_thrown hs hattended hlock hthrows).terminate
  | parse worker success =>
      obtain ⟨-, cid, hposition, rfl⟩ := step_parse.mp hstep
      apply hs.move
      · rw [hposition]
        split <;> rfl
      · rw [hposition]
        exact nofun
  | produce worker storage =>
      obtain ⟨-, -, rfl⟩ := step_produce.mp hstep
      exact ⟨hs.holding, hs.attended, hs.blank, hs.left⟩
  | wait worker returnCode =>
      obtain ⟨-, position, hwaited, rfl⟩ := step_wait.mp hstep
      split
      · apply hs.move (Position.locked_of_waited hwaited)
        rcases Position.waited_cases hwaited with ⟨_, _, _, hposition, -⟩ |
          ⟨_, _, _, _, hposition, -⟩
        · rw [hposition]
          exact nofun
        · rw [hposition]
          exact nofun
      · exact hs.terminate

omit [HashOrder Text] in
/-- An iteration that begins without a client leaves the status of a plugin at
work. -/
theorem not_reset_iterates {g : Handler} (hiterates : s.handler.Iterates g)
    (hclients : s.handler.activeClients.elems = [])
    (hbye : .bye ∈ s.handler.history) {position : Position}
    (hunlocked : position.locked = false) (worker : W) :
    ¬ (s.leave worker (g, position)).Reset := by
  intro ht
  have hfree : (s.leave worker (g, position)).appMutex = none := by
    simp [leave, hunlocked]
  have hempty : g.activeClients.elems = [] := by
    rw [hiterates.activeClients]
    exact hclients
  have hkept : .bye ∈ g.history := by
    rw [hiterates.history]
    exact List.mem_cons_of_mem _ hbye
  have hstatus : g.handlerStatus = {.clueless} := (ht hfree hempty hkept).status
  rcases hiterates.status with hg | hg
  · rw [hg] at hstatus
    exact absurd hstatus (by decide)
  · rw [hg] at hstatus
    exact absurd hstatus (by decide)

/-- Without a client and with an empty DOE, an observation that has been stored
starts the modelling. -/
theorem not_reset_next (hs : s.Tidy) (worker : W) {cid : ClientId}
    {next : Handler × Position} (hadvances : s.handler.Advances cid next)
    (hclients : s.handler.activeClients.elems = [])
    (hbye : .bye ∈ s.handler.history) : ¬ (s.leave worker next).Reset := by
  cases hadvances with
  | sent hdoe _ _ =>
      rw [(hs.blank hclients).isDoeValid] at hdoe
      contradiction
  | iterated hiterates _ =>
      exact not_reset_iterates hiterates hclients hbye rfl worker

omit [HashOrder Text] in
/-- Without a client, a worker that an exception ends leaves the status of what
it has begun. -/
theorem not_reset_thrown (hs : s.Tidy) (worker : W) {g : Handler}
    {position : Position} (hfails : s.handler.Fails position g)
    (hresumes : (∃ cid, position = .parsed cid) ∨
      ∃ phase, position = .awaiting phase [])
    (hclients : s.handler.activeClients.elems = [])
    (hbye : .bye ∈ s.handler.history) : ¬ (s.leave worker (g, .idle)).Reset := by
  cases hfails with
  | answer cid doe => simp at hresumes
  | restart clients doe => simp at hresumes
  | next cid doe hdoe =>
      rw [(hs.blank hclients).isDoeValid] at hdoe
      contradiction
  | iterate cid hiterates =>
      exact not_reset_iterates hiterates hclients hbye rfl worker
  | broadcast prediction =>
      intro ht
      have hafter := ht rfl hclients hbye
      have hstatus : ({.withPrediction} : Status) = {.clueless} := hafter.status
      exact absurd hstatus (by decide)

/-- Without a client, a worker that goes on after its plugins writes the status
again. -/
theorem not_reset_awaited (worker : W) {next : Handler × Position}
    (hcontinues : s.handler.Continues next)
    (hclients : s.handler.activeClients.elems = [])
    (hbye : .bye ∈ s.handler.history) : ¬ (s.leave worker next).Reset := by
  intro ht
  have hfree : (s.leave worker next).appMutex = none := by
    have hunlocked : next.2.locked = false := by
      by_contra hlocked
      exact hcontinues.activeClients.2
        (Bool.eq_true_of_not_eq_false hlocked) hclients
    simp [leave, hunlocked]
  have hkept : .bye ∈ next.1.history := by
    cases hcontinues with
    | launched hkeeps _ => exact hkeeps.history ▸ hbye
    | restarted hkeeps _ => exact hkeeps.history ▸ hbye
    | predicted hkeeps _ =>
        exact List.mem_cons_of_mem _ (hkeeps.history ▸ hbye)
    | exhausted hkeeps _ => exact hkeeps.history ▸ hbye
  have hempty : next.1.activeClients.elems = [] := by
    rw [hcontinues.activeClients.1]
    exact hclients
  exact hcontinues.not_clueless (ht hfree hempty hkept).status

/-- A worker that goes on without a client leaves a handler that is not
blank. -/
theorem attended_of_reset {action : Action W} (hs : s.Tidy)
    (hstep : s.step action = some t) (ht : t.Reset) : s.Attended action := by
  cases action with
  | locked worker input =>
      cases input with
      | proceed =>
          intro hresumes hclients
          have hbye : s.position worker ≠ .idle →
              .bye ∈ s.handler.history :=
            fun hbusy => (hs.left worker hbusy).resolve_left
              fun hne => hne hclients
          obtain ⟨-, -, ⟨next, hturn, rfl⟩ | ⟨g, hthrows, rfl⟩⟩ :=
            step_locked.mp hstep
          · rcases hresumes with ⟨cid, hposition⟩ | ⟨phase, hposition⟩
            · rw [hposition] at hturn hbye
              cases hturn with
              | next _ hnext =>
                  exact not_reset_next hs worker
                    (Handler.advances_of_nextConfiguration hnext) hclients
                    (hbye nofun) ht
            · rw [hposition] at hturn hbye
              cases hturn with
              | awaited _ hnext =>
                  exact not_reset_awaited worker
                    (Handler.continues_continueObservation hnext) hclients
                    (hbye nofun) ht
          · have hbusy : s.position worker ≠ .idle := by
              rcases hresumes with ⟨cid, hposition⟩ | ⟨phase, hposition⟩
              · rw [hposition]
                exact nofun
              · rw [hposition]
                exact nofun
            exact not_reset_thrown hs worker (Handler.fails_of_throws hthrows)
              hresumes hclients (hbye hbusy) ht
      | welcome cid app => trivial
      | bye cid => trivial
      | observation cid => trivial
  | parse worker success => trivial
  | produce worker storage => trivial
  | wait worker returnCode => trivial

omit [DecidableEq W] [HashOrder Text] in
theorem tidy_fresh (appId : ApplicationId) (storage : Storage) :
    (fresh appId storage : Server W).Tidy where
  holding := nofun
  attended := fun hheld => absurd rfl hheld
  blank := fun _ => ⟨rfl, rfl, rfl, rfl⟩
  left := fun _ hbusy => absurd rfl hbusy

/-- The handler is blank whenever its last client has left exactly when no
worker goes on with an observation after that. -/
theorem reset_allReached_iff (appId : ApplicationId) (storage : Storage)
    (actions : List (Action W)) :
    AllReached step Reset (fresh appId storage) actions ↔
      AllSteps step Attended (fresh appId storage) actions :=
  allReached_iff_allSteps Tidy (fun _ _ _ => tidy_step)
    (fun _ => Tidy.reset) (fun _ _ _ => attended_of_reset)
    (tidy_fresh appId storage)

end Runs

section Deserted

open Sample

local instance desertingOrder : HashOrder Text := HashOrder.stored Text

/-- The only client leaves after its last observation has been stored: one
worker serves the goodbye, the other goes on. -/
def leaving : List (Action Bool) :=
  welcome false "1".toList ++ observe false ++
    [.locked true (.bye client), .locked false .proceed]

def deserted : Server Bool :=
  (runFrom step (fresh appId (explorable 1)) leaving).get (by decide +kernel)

theorem not_reset_deserted :
    ¬ ∀ [HashOrder Text] (appId : ApplicationId) (storage : Storage)
      (actions : List (Action Bool)),
      AllReached step Reset (fresh appId storage) actions := by
  intro hall
  have hreset := hall appId (explorable 1) leaving leaving deserted
    List.prefix_rfl (Option.some_get _).symm
  have hbye : ∃ rest, deserted.handler.history = .iteration :: .bye :: rest :=
    ⟨_, rfl⟩
  obtain ⟨rest, hhistory⟩ := hbye
  have hblank := hreset (by decide +kernel) (by decide +kernel)
    (hhistory ▸ List.mem_cons_of_mem _ List.mem_cons_self)
  exact absurd hblank.status (by decide +kernel)

end Deserted

end Server

end Margot.Agora
