/-
One learning phase at a time.  A worker that has found the exploration going on
releases the mutex to store its observation; what it does afterwards relies on
nothing having changed meanwhile.
-/
import Margot.Agora.Outcomes

namespace Margot.Agora

namespace Position

/-- `process_observation` is between its first and its last learning phase. -/
def awaits : Position → Prop
  | .awaiting _ _ => True
  | _ => False

/-- `start_recovering` is between its first and its last learning phase. -/
def recovers : Position → Prop
  | .recovering _ _ _ => True
  | _ => False

def engaged (position : Position) : Prop :=
  position.awaits ∨ position.recovers

theorem engaged_of_learning {position : Position}
    (hlearning : position.learning) : position.engaged := by
  obtain ⟨next, hnext⟩ := Option.isSome_iff_exists.mp hlearning
  rcases waited_cases hnext with ⟨phase, plugin, plugins, rfl, -⟩ |
    ⟨cid, phase, plugin, plugins, rfl, -⟩
  · exact .inl trivial
  · exact .inr trivial

@[simp] theorem not_engaged_sending (clients : List ClientId) :
    ¬ (sending clients).engaged := by
  cases clients <;> exact fun hengaged => hengaged.elim id id

theorem locked_of_recovers {position : Position}
    (hrecovers : position.recovers) : position.locked = true := by
  cases position <;> first | rfl | exact hrecovers.elim

end Position

/-- Every configuration that answers an observation is sent during the
exploration. -/
def SentExploring (history : List Event) : Prop :=
  ∀ status cid configuration,
    Event.sent .processObservation status (.explore cid configuration) ∈
      history → .exploring ∈ status

namespace SentExploring

variable {history : List Event}

theorem cons {event : Event} (hsent : SentExploring history)
    (hevent : ∀ status cid configuration,
      event = .sent .processObservation status (.explore cid configuration) →
        .exploring ∈ status) : SentExploring (event :: history) := by
  intro status cid configuration hmem
  rcases List.mem_cons.mp hmem with hfirst | hrest
  · exact hevent status cid configuration hfirst.symm
  · exact hsent status cid configuration hrest

theorem sendConfiguration [HashOrder Text] {h g : Handler}
    (hsent : SentExploring h.history) {sender : Sender} {cid : ClientId}
    (hsends : h.sendConfiguration sender cid = .ok g)
    (hexploring : sender = .processObservation →
      .exploring ∈ h.handlerStatus) : SentExploring g.history := by
  rcases Handler.sendConfiguration_cases hsends with
    ⟨-, rfl⟩ | ⟨-, configuration, hhistory, -⟩
  · exact hsent
  · rw [hhistory]
    apply hsent.cons
    intro status other configuration' hevent
    obtain ⟨hsender, hstatus, -⟩ := Event.sent.inj hevent
    exact hstatus ▸ hexploring hsender

end SentExploring

namespace Server

variable {W : Type} [DecidableEq W] {s t : Server W}

/-- At most one learning phase is in progress, and observations are answered
with configurations during the exploration only. -/
structure OnePhase (s : Server W) : Prop where
  alone : ∀ first second, (s.position first).learning →
    (s.position second).learning → first = second
  sent : SentExploring s.handler.history

/-- A worker that has stored an observation finds the exploration still going
on, and no session starts while a worker is between two of its phases. -/
def Current (s : Server W) : Action W → Prop
  | .locked worker .proceed => ∀ cid, s.position worker = .parsed cid →
      s.handler.checkState .exploring = true
  | .locked _ (.welcome _ app) => s.handler.Opens app →
      ∀ worker, ¬ (s.position worker).awaits
  | _ => True

/-- What holds whatever the workers do, as long as they act on a current
status. -/
structure Exclusive (s : Server W) : Prop where
  holding : s.Holding
  alone : ∀ first second, (s.position first).engaged →
    (s.position second).engaged → first = second
  quiet : ∀ worker, (s.position worker).awaits →
    .exploring ∉ s.handler.handlerStatus
  restarting : ∀ worker clients, s.position worker = .restarting clients →
    .exploring ∈ s.handler.handlerStatus
  sent : SentExploring s.handler.history

omit [DecidableEq W] in
theorem Exclusive.terminate (hs : s.Exclusive) : s.terminate.Exclusive :=
  ⟨hs.holding, hs.alone, hs.quiet, hs.restarting, hs.sent⟩

omit [DecidableEq W] in
theorem Exclusive.onePhase (hs : s.Exclusive) : s.OnePhase where
  alone first second hfirst hsecond :=
    hs.alone first second (Position.engaged_of_learning hfirst)
      (Position.engaged_of_learning hsecond)
  sent := hs.sent

/-- One worker moves: what is to be known of its new position, of the status
that it leaves and of what the others rely on. -/
theorem Exclusive.update (hs : s.Exclusive) (hholding : t.Holding)
    {worker : W} {position : Position}
    (hposition : t.position = Function.update s.position worker position)
    (halone : position.engaged → ∀ other, other ≠ worker →
      ¬ (s.position other).engaged)
    (hself : position.awaits → .exploring ∉ t.handler.handlerStatus)
    (hothers : ∀ other, other ≠ worker → (s.position other).awaits →
      .exploring ∉ t.handler.handlerStatus)
    (hrestart : ∀ clients, position = .restarting clients →
      .exploring ∈ t.handler.handlerStatus)
    (hrestarts : ∀ other, other ≠ worker → ∀ clients,
      s.position other = .restarting clients →
        .exploring ∈ t.handler.handlerStatus)
    (hsent : SentExploring t.handler.history) : t.Exclusive := by
  have hmoved : t.position worker = position := by
    rw [hposition, Function.update_self]
  have hstayed : ∀ other, other ≠ worker →
      t.position other = s.position other := by
    intro other hne
    rw [hposition, Function.update_of_ne hne]
  refine ⟨hholding, ?_, ?_, ?_, hsent⟩
  · intro first second hfirst hsecond
    by_cases hone : first = worker <;> by_cases htwo : second = worker
    · exact hone.trans htwo.symm
    · rw [hone, hmoved] at hfirst
      rw [hstayed second htwo] at hsecond
      exact absurd hsecond (halone hfirst second htwo)
    · rw [htwo, hmoved] at hsecond
      rw [hstayed first hone] at hfirst
      exact absurd hfirst (halone hsecond first hone)
    · rw [hstayed first hone] at hfirst
      rw [hstayed second htwo] at hsecond
      exact hs.alone first second hfirst hsecond
  · intro other hawaits
    by_cases hother : other = worker
    · rw [hother, hmoved] at hawaits
      exact hself hawaits
    · rw [hstayed other hother] at hawaits
      exact hothers other hother hawaits
  · intro other clients hrestarting
    by_cases hother : other = worker
    · rw [hother, hmoved] at hrestarting
      exact hrestart clients hrestarting
    · rw [hstayed other hother] at hrestarting
      exact hrestarts other hother clients hrestarting

section Steps

variable {worker : W}

/-- The worker moves and leaves the handler alone. -/
theorem Exclusive.move (hs : s.Exclusive) {position : Position}
    (hlocked : position.locked = (s.position worker).locked)
    (hawaits : position.awaits → (s.position worker).awaits)
    (hrecovers : position.recovers → (s.position worker).recovers)
    (hrestarting : ∀ clients, position ≠ .restarting clients) :
    (s.move worker position).Exclusive := by
  apply hs.update (hs.holding.move hlocked) rfl
  · intro hengaged other hne hother
    exact hne (hs.alone other worker hother (hengaged.imp hawaits hrecovers))
  · intro hposition
    exact hs.quiet worker (hawaits hposition)
  · intro other _ hother
    exact hs.quiet other hother
  · intro clients hposition
    exact absurd hposition (hrestarting clients)
  · intro other _ clients hother
    exact hs.restarting other clients hother
  · exact hs.sent

/-- The worker leaves the handler: the others are engaged without the mutex
only. -/
theorem Exclusive.leave (hs : s.Exclusive) (hlock : s.mayLock worker)
    {next : Handler × Position}
    (halone : next.2.engaged → ∀ other, other ≠ worker →
      ¬ (s.position other).awaits)
    (hself : next.2.awaits → .exploring ∉ next.1.handlerStatus)
    (hothers : ∀ other, other ≠ worker → (s.position other).awaits →
      .exploring ∉ next.1.handlerStatus)
    (hrestart : ∀ clients, next.2 = .restarting clients →
      .exploring ∈ next.1.handlerStatus)
    (hsent : SentExploring next.1.history) :
    (s.leave worker next).Exclusive := by
  apply hs.update (hs.holding.leave hlock next) rfl
  · rintro hengaged other hne (hawaits | hrecovers)
    · exact halone hengaged other hne hawaits
    · have hfree := hs.holding.not_locked hlock hne
      rw [Position.locked_of_recovers hrecovers] at hfree
      contradiction
  · exact hself
  · exact hothers
  · exact hrestart
  · intro other hne clients hother
    have hfree := hs.holding.not_locked hlock hne
    rw [hother] at hfree
    contradiction
  · exact hsent

/-- The bits that are on while a plugin works do not contain `EXPLORING`. -/
theorem not_exploring_of_building {status : Status}
    (hstatus : status = {.buildingPrediction} ∨ status = {.buildingDoe}) :
    .exploring ∉ status := by
  rcases hstatus with rfl | rfl <;> decide

theorem exclusive_welcome (hs : s.Exclusive) (hlock : s.mayLock worker)
    {cid : ClientId} {app : Option Heel.ApplicationModel}
    (hcurrent : s.handler.Opens app →
      ∀ other, ¬ (s.position other).awaits) :
    (s.leave worker (s.handler.welcomeClient s.storage cid app)).Exclusive := by
  have hwelcomes := s.handler.welcomes_welcomeClient s.storage cid app
  generalize s.handler.welcomeClient s.storage cid app = next at hwelcomes
  cases hwelcomes with
  | refused hclueless _ hkeeps hstatus =>
      refine hs.leave hlock nofun nofun ?_ nofun ?_
      · intro other _ hother
        rw [hstatus]
        exact hs.quiet other hother
      · rw [hkeeps.history]
        exact hs.sent
  | opened hopens hclients hsent hquota hhistory hrecovers =>
      have hnobody := hcurrent hopens
      have hkept : SentExploring
          (.session s.handler.numConfigurationsSentPerIteration ::
            s.handler.history) := hs.sent.cons nofun
      cases hrecovers with
      | launched hkeeps hstatus =>
          refine hs.leave hlock (fun _ other _ => hnobody other) nofun
            (fun other _ hother => absurd hother (hnobody other)) nofun ?_
          rw [hkeeps.history, hhistory]
          exact hkept
      | done hkeeps hstatus =>
          refine hs.leave hlock nofun nofun
            (fun other _ hother => absurd hother (hnobody other)) nofun ?_
          rw [hkeeps.history, hhistory]
          exact hkept
  | registered hclueless =>
      exact hs.leave hlock nofun nofun (fun other _ => hs.quiet other) nofun
        hs.sent

theorem exclusive_bye (hs : s.Exclusive) (hlock : s.mayLock worker)
    (cid : ClientId) :
    (s.leave worker (s.handler.byeClient cid)).Exclusive := by
  obtain ⟨g, hbye, -, -, -, hhistory, hleft⟩ := s.handler.byeClient_cases cid
  rw [hbye]
  refine hs.leave hlock nofun nofun ?_ nofun ?_
  · intro other _ hother
    rcases hleft with ⟨-, hstatus, -⟩ | ⟨-, hstatus⟩
    · rw [hstatus]
      decide
    · rw [hstatus]
      exact hs.quiet other hother
  · rw [hhistory]
    exact hs.sent.cons nofun

/-- The status of an iteration that begins does not contain `EXPLORING`. -/
theorem not_exploring_of_iterates {h g : Handler} (hiterates : h.Iterates g) :
    .exploring ∉ g.handlerStatus := by
  rcases hiterates.status with hg | hg <;> rw [hg] <;> decide

theorem sentExploring_of_iterates {h g : Handler} (hiterates : h.Iterates g)
    (hsent : SentExploring h.history) : SentExploring g.history := by
  rw [hiterates.history]
  exact hsent.cons nofun

/-- The observation is answered during the exploration, when nobody waits for
plugins. -/
theorem exclusive_next [HashOrder Text] (hs : s.Exclusive)
    (hlock : s.mayLock worker) {cid : ClientId} {next : Handler × Position}
    (hadvances : s.handler.Advances cid next)
    (hexploring : s.handler.checkState .exploring = true) :
    (s.leave worker next).Exclusive := by
  have hstatus : .exploring ∈ s.handler.handlerStatus := by
    simpa [Handler.checkState] using hexploring
  have hnobody : ∀ other, ¬ (s.position other).awaits :=
    fun other hother => hs.quiet other hother hstatus
  cases hadvances with
  | sent _ _ hsent =>
      exact hs.leave hlock (fun hengaged => (hengaged.elim id id).elim)
        (fun hawaits => hawaits.elim)
        (fun other _ hother => absurd hother (hnobody other))
        (fun _ => Position.noConfusion)
        (hs.sent.sendConfiguration hsent fun _ => hstatus)
  | iterated hiterates _ =>
      exact hs.leave hlock (fun _ other _ => hnobody other)
        (fun _ => not_exploring_of_iterates hiterates)
        (fun other _ hother => absurd hother (hnobody other))
        (fun _ => Position.noConfusion)
        (sentExploring_of_iterates hiterates hs.sent)

omit [DecidableEq W] in
/-- Between two phases of an observation nobody else waits for plugins. -/
theorem Exclusive.nobody (hs : s.Exclusive) (hawaits : (s.position worker).awaits)
    (other : W) (hne : other ≠ worker) : ¬ (s.position other).awaits :=
  fun hother => hne (hs.alone other worker (.inl hother) (.inl hawaits))

theorem exclusive_awaited [HashOrder Text] (hs : s.Exclusive)
    (hlock : s.mayLock worker) {phase : Phase} {next : Handler × Position}
    (hposition : s.position worker = .awaiting phase [])
    (hcontinues : s.handler.Continues next) :
    (s.leave worker next).Exclusive := by
  have hawaits : (s.position worker).awaits := by
    rw [hposition]
    trivial
  have hnobody := hs.nobody hawaits
  have hothers : ∀ other, other ≠ worker → (s.position other).awaits →
      .exploring ∉ next.1.handlerStatus :=
    fun other hne hother => absurd hother (hnobody other hne)
  cases hcontinues with
  | launched hkeeps hstatus =>
      refine hs.leave hlock (fun _ => hnobody)
        (fun _ => not_exploring_of_building hstatus) hothers
        (fun _ => Position.noConfusion) ?_
      rw [hkeeps.history]
      exact hs.sent
  | restarted hkeeps hstatus =>
      have hfree := Position.not_engaged_sending
        s.handler.activeClients.iterate
      refine hs.leave hlock (fun hengaged => absurd hengaged hfree)
        (fun hawaits => absurd (.inl hawaits) hfree) hothers ?_ ?_
      · intro _ _
        rw [hstatus]
        decide
      · rw [hkeeps.history]
        exact hs.sent
  | predicted hkeeps hstatus =>
      refine hs.leave hlock (fun hengaged => (hengaged.elim id id).elim)
        (fun hawaits => hawaits.elim) hothers (fun _ => Position.noConfusion) ?_
      rw [Handler.record, hkeeps.history]
      apply hs.sent.cons
      intro _ _ _ hevent
      cases (Event.sent.inj hevent).2.2
  | exhausted hkeeps hstatus =>
      refine hs.leave hlock (fun hengaged => (hengaged.elim id id).elim)
        (fun hawaits => hawaits.elim) hothers (fun _ => Position.noConfusion) ?_
      rw [hkeeps.history]
      exact hs.sent

theorem exclusive_restart [HashOrder Text] (hs : s.Exclusive)
    (hlock : s.mayLock worker) {clients : List ClientId}
    {next : Handler × Position}
    (hposition : s.position worker = .restarting clients)
    (hnext : s.handler.sendNext clients = .ok next) :
    (s.leave worker next).Exclusive := by
  have hstatus := hs.restarting worker clients hposition
  cases clients with
  | nil =>
      obtain rfl := pure_eq_ok.mp hnext
      exact hs.leave hlock nofun nofun (fun other _ => hs.quiet other) nofun
        hs.sent
  | cons cid rest =>
      obtain ⟨g, hsent, rfl⟩ := bind_pure_eq_ok.mp hnext
      have hfree := Position.not_engaged_sending rest
      refine hs.leave hlock (fun hengaged => absurd hengaged hfree)
        (fun hawaits => absurd (.inl hawaits) hfree) ?_ ?_
        (hs.sent.sendConfiguration hsent fun _ => hstatus)
      · intro other _ hother
        exact absurd hstatus (hs.quiet other hother)
      · intro _ _
        rw [Handler.sendConfiguration_handlerStatus hsent]
        exact hstatus

theorem exclusive_recovered (hs : s.Exclusive) (hlock : s.mayLock worker)
    {cid : ClientId} {phase : Phase}
    (hposition : s.position worker = .recovering cid phase []) :
    (s.leave worker
      (s.handler.continueRecovery s.storage cid phase)).Exclusive := by
  have hrecovers : (s.position worker).recovers := by
    rw [hposition]
    trivial
  have hnobody : ∀ other, other ≠ worker → ¬ (s.position other).awaits :=
    fun other hne hother => hne (hs.alone other worker (.inl hother)
      (.inr hrecovers))
  have houtcome := s.handler.recovers_continueRecovery s.storage cid phase
  generalize s.handler.continueRecovery s.storage cid phase = next at houtcome
  cases houtcome with
  | launched hkeeps hstatus =>
      refine hs.leave hlock (fun _ => hnobody) nofun
        (fun other hne hother => absurd hother (hnobody other hne)) nofun ?_
      rw [hkeeps.history]
      exact hs.sent
  | done hkeeps hstatus =>
      refine hs.leave hlock nofun nofun
        (fun other hne hother => absurd hother (hnobody other hne)) nofun ?_
      rw [hkeeps.history]
      exact hs.sent

theorem exclusive_answer [HashOrder Text] (hs : s.Exclusive)
    (hlock : s.mayLock worker) {cid : ClientId} {next : Handler × Position}
    (hanswers : s.handler.Answers cid next) :
    (s.leave worker next).Exclusive := by
  have hquiet : ∀ other, other ≠ worker → (s.position other).awaits →
      .exploring ∉ s.handler.handlerStatus := fun other _ => hs.quiet other
  cases hanswers with
  | silent => exact hs.leave hlock nofun nofun hquiet nofun hs.sent
  | explore _ hsent =>
      refine hs.leave hlock nofun nofun ?_ nofun
        (hs.sent.sendConfiguration hsent nofun)
      rw [Handler.sendConfiguration_handlerStatus hsent]
      exact hquiet
  | prediction _ =>
      exact hs.leave hlock nofun nofun hquiet nofun (hs.sent.cons nofun)
  | abort _ =>
      exact hs.leave hlock nofun nofun hquiet nofun (hs.sent.cons nofun)

theorem exclusive_thrown (hs : s.Exclusive) (hlock : s.mayLock worker)
    {g : Handler} (hfails : s.handler.Fails (s.position worker) g) :
    (s.leave worker (g, .idle)).Exclusive := by
  generalize hposition : s.position worker = position at hfails
  have hquiet : ∀ other, other ≠ worker → (s.position other).awaits →
      .exploring ∉ s.handler.handlerStatus := fun other _ => hs.quiet other
  cases hfails with
  | answer cid doe => exact hs.leave hlock nofun nofun hquiet nofun hs.sent
  | restart clients doe => exact hs.leave hlock nofun nofun hquiet nofun hs.sent
  | next cid doe _ => exact hs.leave hlock nofun nofun hquiet nofun hs.sent
  | iterate cid hiterates =>
      exact hs.leave hlock nofun nofun
        (fun _ _ _ => not_exploring_of_iterates hiterates) nofun
        (sentExploring_of_iterates hiterates hs.sent)
  | broadcast prediction =>
      have hawaits : (s.position worker).awaits := by
        rw [hposition]
        trivial
      exact hs.leave hlock nofun nofun
        (fun other hne hother => absurd hother (hs.nobody hawaits other hne))
        nofun hs.sent

end Steps

section Runs

variable [HashOrder Text]

theorem exclusive_step {action : Action W} (hs : s.Exclusive)
    (hcurrent : s.Current action) (hstep : s.step action = some t) :
    t.Exclusive := by
  cases action with
  | locked worker input =>
      obtain ⟨-, hlock, ⟨next, hturn, rfl⟩ | ⟨g, hthrows, rfl⟩⟩ :=
        step_locked.mp hstep
      case inr =>
        exact (exclusive_thrown hs hlock
          (Handler.fails_of_throws hthrows)).terminate
      generalize hposition : s.position worker = position at hturn
      cases hturn with
      | welcome cid app => exact exclusive_welcome hs hlock hcurrent
      | bye cid => exact exclusive_bye hs hlock cid
      | observation cid =>
          rw [Handler.processObservation]
          split
          · exact hs.leave hlock nofun nofun (fun other _ => hs.quiet other)
              nofun hs.sent
          · exact hs.leave hlock nofun nofun (fun other _ => hs.quiet other)
              nofun hs.sent
      | next cid hnext =>
          exact exclusive_next hs hlock
            (Handler.advances_of_nextConfiguration hnext)
            (hcurrent cid hposition)
      | awaited phase hnext =>
          exact exclusive_awaited hs hlock hposition
            (Handler.continues_continueObservation hnext)
      | restart clients hnext =>
          exact exclusive_restart hs hlock hposition hnext
      | recovered cid phase => exact exclusive_recovered hs hlock hposition
      | answer cid hnext =>
          exact exclusive_answer hs hlock (Handler.answers_of_answer hnext)
  | parse worker success =>
      obtain ⟨-, cid, hposition, rfl⟩ := step_parse.mp hstep
      cases success with
      | true => exact hs.move (by rw [hposition]; rfl) nofun nofun nofun
      | false => exact hs.move (by rw [hposition]; rfl) nofun nofun nofun
  | produce worker storage =>
      obtain ⟨-, -, rfl⟩ := step_produce.mp hstep
      exact ⟨hs.holding, hs.alone, hs.quiet, hs.restarting, hs.sent⟩
  | wait worker returnCode =>
      obtain ⟨-, position, hwaited, rfl⟩ := step_wait.mp hstep
      have hlocked := Position.locked_of_waited hwaited
      split
      · rcases Position.waited_cases hwaited with
          ⟨phase, plugin, plugins, hposition, rfl⟩ |
          ⟨cid, phase, plugin, plugins, hposition, rfl⟩
        · exact hs.move hlocked (by rw [hposition]; exact id) nofun nofun
        · exact hs.move hlocked nofun (by rw [hposition]; exact id) nofun
      · exact hs.terminate

omit [DecidableEq W] [HashOrder Text] in
theorem exclusive_fresh (appId : ApplicationId) (storage : Storage) :
    (fresh appId storage : Server W).Exclusive where
  holding := nofun
  alone := fun _ _ hfirst => hfirst.elim False.elim False.elim
  quiet := nofun
  restarting := nofun
  sent := nofun

/-- As long as no worker acts on a status that is out of date, there is at most
one learning phase at a time, and configurations answer observations during the
exploration only. -/
theorem onePhase_allReached (appId : ApplicationId) (storage : Storage)
    {actions : List (Action W)}
    (hcurrent : AllSteps step Current (fresh appId storage) actions) :
    AllReached step OnePhase (fresh appId storage) actions :=
  allReached_of_allSteps (fun _ _ _ => exclusive_step)
    (fun _ => Exclusive.onePhase) (exclusive_fresh appId storage) hcurrent

end Runs

section Overtaken

open Sample

local instance overtakingOrder : HashOrder Text := HashOrder.stored Text

theorem onePhase_allReached_observing :
    AllReached step OnePhase (fresh appId (explorable 1) : Server Bool)
      (welcome false "1".toList ++ observe false ++
        [.locked false .proceed]) := by
  apply onePhase_allReached
  refine .cons_of_step rfl (fun _ _ => id) (.cons_of_step rfl nofun
    (.cons_of_step rfl trivial (.cons_of_step rfl trivial
      (.cons_of_step rfl ?_ allSteps_nil))))
  intro _ _
  decide +kernel

/-- Two workers store an observation of the last configuration, and then each
of them starts the modelling. -/
def overtaking : List (Action Bool) :=
  welcome false "1".toList ++ observe false ++ observe true ++
    [.locked false .proceed, .locked true .proceed]

def overtaken : Server Bool :=
  (runFrom step (fresh appId (explorable 1)) overtaking).get (by decide +kernel)

theorem not_onePhase_overtaken :
    ¬ ∀ [HashOrder Text] (appId : ApplicationId) (storage : Storage)
      (actions : List (Action Bool)),
      AllReached step OnePhase (fresh appId storage) actions := by
  intro hall
  have hone := hall appId (explorable 1) overtaking overtaking overtaken
    List.prefix_rfl (Option.some_get _).symm
  have hlearning : ∀ worker, (overtaken.position worker).waited.isSome := by
    decide +kernel
  exact Bool.false_ne_true
    (hone.alone false true (hlearning false) (hlearning true))

end Overtaken

end Server

end Margot.Agora
