/-
The configurations of one iteration.  The counter is compared with its bound
when an observation is answered; a welcome and the loop that restarts the
exploration send without a comparison.
-/
import Margot.Agora.Outcomes

namespace Margot.Agora

/-- The configurations sent since the last session or iteration began. -/
def sentThisIteration : List Event → Nat
  | [] => 0
  | .session _ :: _ => 0
  | .iteration :: _ => 0
  | .bye :: rest => sentThisIteration rest
  | .sent _ _ (.explore _ _) :: rest => sentThisIteration rest + 1
  | .sent _ _ _ :: rest => sentThisIteration rest

namespace Handler

/-- The next step at this position sends a configuration whatever the counter
says. -/
def Ships (h : Handler) : Position → Prop
  | .answering _ => h.isDoeValid = true ∧ h.composesNext = true ∧
      h.checkState .exploring = true
  | .restarting (_ :: _) => h.isDoeValid = true ∧ h.composesNext = true
  | _ => False

/-- The counter agrees with the history, and it respects its bound. -/
structure Counted (h : Handler) : Prop where
  counted : (sentThisIteration h.history : Int) =
    h.numConfigurationsSentPerIteration
  bounded : h.numConfigurationsSentPerIteration ≤
    h.numConfigurationsPerIteration
  started : ∀ counter, Event.session counter ∈ h.history → counter = 0

namespace Counted

variable {h g : Handler}

theorem of_keeps (hcounted : h.Counted) (hkeeps : h.Keeps g) : g.Counted where
  counted := by rw [hkeeps.history, hkeeps.sent, hcounted.counted]
  bounded := by rw [hkeeps.sent, hkeeps.quota]; exact hcounted.bounded
  started := by rw [hkeeps.history]; exact hcounted.started

theorem zero_le_quota (hcounted : h.Counted) :
    0 ≤ h.numConfigurationsPerIteration := by
  have hcount := hcounted.counted
  have hbound := hcounted.bounded
  omega

/-- A message that is no configuration counts for nothing. -/
theorem sent (hcounted : h.Counted) {sender : Sender} {status : Status}
    {message : Message}
    (hmessage : ∀ cid configuration, message ≠ .explore cid configuration) :
    (h.record (.sent sender status message)).Counted where
  counted := by
    refine Eq.trans ?_ hcounted.counted
    cases message with
    | explore cid configuration =>
        exact absurd rfl (hmessage cid configuration)
    | prediction cid => rfl
    | broadcast => rfl
    | abort cid => rfl
  bounded := hcounted.bounded
  started := by
    intro counter hmem
    rcases List.mem_cons.mp hmem with hfirst | hrest
    · exact absurd hfirst nofun
    · exact hcounted.started counter hrest

/-- A configuration that is sent below the bound. -/
theorem sendConfiguration [HashOrder Text] (hcounted : h.Counted)
    {sender : Sender} {cid : ClientId}
    (hsends : h.sendConfiguration sender cid = .ok g)
    (hless : h.isDoeValid = true → h.numConfigurationsSentPerIteration <
      h.numConfigurationsPerIteration) : g.Counted := by
  rcases sendConfiguration_cases hsends with ⟨-, rfl⟩ |
    ⟨hdoe, configuration, hhistory, hsent⟩
  · exact hcounted
  · refine ⟨?_, ?_, ?_⟩
    · rw [hhistory, hsent, ← hcounted.counted]
      exact Int.natCast_succ _
    · rw [hsent, sendConfiguration_quota hsends]
      exact hless hdoe
    · rw [hhistory]
      intro counter hmem
      rcases List.mem_cons.mp hmem with hfirst | hrest
      · exact absurd hfirst nofun
      · exact hcounted.started counter hrest

/-- A configuration that is still within the bound was sent below it. -/
theorem lt_of_sendConfiguration [HashOrder Text] (hcounted : h.Counted)
    {sender : Sender} {cid : ClientId}
    (hsends : h.sendConfiguration sender cid = .ok g)
    (hdoe : h.isDoeValid = true)
    (hbounded : (sentThisIteration g.history : Int) ≤
      g.numConfigurationsPerIteration) :
    h.numConfigurationsSentPerIteration <
      h.numConfigurationsPerIteration := by
  rcases sendConfiguration_cases hsends with ⟨hnone, -⟩ |
    ⟨-, configuration, hhistory, -⟩
  · rw [hdoe] at hnone
    contradiction
  · rw [hhistory, sendConfiguration_quota hsends, sentThisIteration] at hbounded
    have hcount := hcounted.counted
    omega

/-- An iteration begins with the counter at zero. -/
theorem iterates (hcounted : h.Counted) (hiterates : h.Iterates g) :
    g.Counted := by
  rw [hiterates.same]
  refine ⟨rfl, hcounted.zero_le_quota, fun counter hmem => ?_⟩
  rcases List.mem_cons.mp hmem with hfirst | hrest
  · exact absurd hfirst nofun
  · exact hcounted.started counter hrest

end Counted

variable {h : Handler} {next : Handler × Position}

/-- The exploration is on with the two bits of its start. -/
def Explored (h : Handler) : Prop :=
  h.checkState .exploring = true → h.handlerStatus = {.withDoe, .exploring}

theorem Explored.of_status {g : Handler} (hexplored : h.Explored)
    (hstatus : g.handlerStatus = h.handlerStatus) : g.Explored := by
  rw [Explored, checkState, hstatus]
  exact hexplored

theorem explored_of_not_mem (hstatus : .exploring ∉ h.handlerStatus) :
    h.Explored := by
  intro hexploring
  exact absurd (of_decide_eq_true hexploring) hstatus

theorem Continues.explored [HashOrder Text] (hnext : h.Continues next) :
    next.1.Explored := by
  cases hnext with
  | launched _ hstatus =>
      apply explored_of_not_mem
      rcases hstatus with hg | hg <;> rw [hg] <;> decide
  | restarted _ hstatus => exact fun _ => hstatus
  | predicted _ hstatus =>
      apply explored_of_not_mem
      rw [record, hstatus]
      decide
  | exhausted _ hstatus =>
      apply explored_of_not_mem
      rw [hstatus]
      decide

theorem Recovers.explored {cid : ClientId} (hnext : h.Recovers cid next) :
    next.1.Explored := by
  cases hnext with
  | launched _ hstatus =>
      apply explored_of_not_mem
      rcases hstatus with hg | hg <;> rw [hg] <;> decide
  | done _ hstatus =>
      rcases hstatus with hg | hg | hg
      · apply explored_of_not_mem
        rw [hg]
        decide
      · exact fun _ => hg
      · apply explored_of_not_mem
        rw [hg]
        decide

theorem Continues.counted [HashOrder Text] (hcounted : h.Counted)
    (hnext : h.Continues next) : next.1.Counted := by
  cases hnext with
  | launched hkeeps _ => exact hcounted.of_keeps hkeeps
  | restarted hkeeps _ => exact hcounted.of_keeps hkeeps
  | predicted hkeeps _ => exact (hcounted.of_keeps hkeeps).sent nofun
  | exhausted hkeeps _ => exact hcounted.of_keeps hkeeps

theorem explored_of_iterates {g : Handler} (hiterates : h.Iterates g) :
    g.Explored := by
  apply explored_of_not_mem
  rcases hiterates.status with hg | hg <;> rw [hg] <;> decide

/-- What an exception leaves respects the bound as well. -/
theorem Fails.metered {g : Handler} {position : Position} (hcounted : h.Counted)
    (hexplored : h.Explored) (hfails : h.Fails position g) :
    g.Counted ∧ g.Explored := by
  have hsame : ∀ doe, Counted { h with doe := doe } := fun _ =>
    ⟨hcounted.counted, hcounted.bounded, hcounted.started⟩
  cases hfails with
  | answer cid doe => exact ⟨hsame doe, hexplored.of_status rfl⟩
  | restart clients doe => exact ⟨hsame doe, hexplored.of_status rfl⟩
  | next cid doe _ => exact ⟨hsame doe, hexplored.of_status rfl⟩
  | iterate cid hiterates =>
      exact ⟨hcounted.iterates hiterates, explored_of_iterates hiterates⟩
  | broadcast prediction =>
      refine ⟨hcounted.of_keeps ⟨rfl, rfl, rfl, rfl⟩, explored_of_not_mem ?_⟩
      exact of_decide_eq_false rfl

theorem Recovers.counted {cid : ClientId} (hcounted : h.Counted)
    (hnext : h.Recovers cid next) : next.1.Counted :=
  hcounted.of_keeps hnext.keeps

end Handler

namespace Server

variable {W : Type} [DecidableEq W] {s t : Server W}

/-- The configurations sent in this iteration are within the bound, and every
session has started with the counter at zero. -/
structure WithinQuota (s : Server W) : Prop where
  bounded : (sentThisIteration s.handler.history : Int) ≤
    s.handler.numConfigurationsPerIteration
  started : ∀ counter, Event.session counter ∈ s.handler.history → counter = 0

/-- A session starts with the counter at zero and a bound that is not negative,
and whoever sends without a comparison finds the counter below the bound. -/
def Rationed (s : Server W) : Action W → Prop
  | .locked _ (.welcome _ app) => s.handler.Opens app →
      s.handler.numConfigurationsSentPerIteration = 0 ∧
        0 ≤ (s.handler.parseInformations app).1.numConfigurationsPerIteration
  | .locked worker .proceed => s.handler.Ships (s.position worker) →
      s.handler.numConfigurationsSentPerIteration <
        s.handler.numConfigurationsPerIteration
  | _ => True

/-- The status during the exploration, and a counter that can be trusted. -/
structure Metered (s : Server W) : Prop where
  counted : s.handler.Counted
  explored : s.handler.Explored

omit [DecidableEq W] in
theorem Metered.withinQuota (hs : s.Metered) : s.WithinQuota where
  bounded := by
    rw [hs.counted.counted]
    exact hs.counted.bounded
  started := hs.counted.started

section Runs

variable [HashOrder Text]

omit [DecidableEq W] [HashOrder Text] in
theorem metered_welcome (hs : s.Metered) (cid : ClientId)
    (app : Option Heel.ApplicationModel)
    (hrationed : s.handler.Opens app →
      s.handler.numConfigurationsSentPerIteration = 0 ∧
        0 ≤ (s.handler.parseInformations app).1.numConfigurationsPerIteration) :
    (s.handler.welcomeClient s.storage cid app).1.Counted ∧
      (s.handler.welcomeClient s.storage cid app).1.Explored := by
  have hwelcomes := s.handler.welcomes_welcomeClient s.storage cid app
  generalize s.handler.welcomeClient s.storage cid app = next at hwelcomes
  cases hwelcomes with
  | refused _ _ hkeeps hstatus =>
      have hcounted : (s.handler.addClient cid).Counted :=
        ⟨hs.counted.counted, hs.counted.bounded, hs.counted.started⟩
      exact ⟨hcounted.of_keeps hkeeps, hs.explored.of_status hstatus⟩
  | opened hopens _ hsent hquota hhistory hrecovers =>
      obtain ⟨hzero, hpositive⟩ := hrationed hopens
      refine ⟨hrecovers.counted ⟨?_, ?_, ?_⟩, hrecovers.explored⟩
      · rw [hhistory, hsent, hzero]
        rfl
      · rw [hsent, hquota, hzero]
        exact hpositive
      · rw [hhistory, hzero]
        intro counter hmem
        rcases List.mem_cons.mp hmem with hfirst | hrest
        · exact Event.session.inj hfirst
        · exact hs.counted.started counter hrest
  | registered _ =>
      exact ⟨⟨hs.counted.counted, hs.counted.bounded, hs.counted.started⟩,
        hs.explored.of_status rfl⟩

omit [DecidableEq W] in
theorem metered_locked {worker : W} {input : Input} {next : Handler × Position}
    (hs : s.Metered) (hrationed : s.Rationed (.locked worker input))
    (hturn : s.handler.Turn s.storage (s.position worker) input next) :
    next.1.Counted ∧ next.1.Explored := by
  generalize hposition : s.position worker = position at hturn
  cases hturn with
  | welcome cid app => exact metered_welcome hs cid app hrationed
  | bye cid =>
      obtain ⟨g, hbye, -, hsent, hquota, hhistory, hleft⟩ :=
        s.handler.byeClient_cases cid
      rw [hbye]
      refine ⟨⟨?_, ?_, ?_⟩, ?_⟩
      · rw [hhistory, hsent]
        exact hs.counted.counted
      · rw [hsent, hquota]
        exact hs.counted.bounded
      · rw [hhistory]
        intro counter hmem
        rcases List.mem_cons.mp hmem with hfirst | hrest
        · exact absurd hfirst nofun
        · exact hs.counted.started counter hrest
      · rcases hleft with ⟨-, hstatus, -⟩ | ⟨-, hstatus⟩
        · apply Handler.explored_of_not_mem
          rw [hstatus]
          decide
        · exact hs.explored.of_status hstatus
  | observation cid =>
      rw [Handler.processObservation]
      split <;> exact ⟨hs.counted, hs.explored⟩
  | next cid hnext =>
      cases Handler.advances_of_nextConfiguration hnext with
      | sent _ hless hsent =>
          exact ⟨hs.counted.sendConfiguration hsent fun _ => hless,
            hs.explored.of_status
              (Handler.sendConfiguration_handlerStatus hsent)⟩
      | iterated hiterates _ =>
          exact ⟨hs.counted.iterates hiterates,
            Handler.explored_of_iterates hiterates⟩
  | awaited phase hnext =>
      have hcontinues := Handler.continues_continueObservation hnext
      exact ⟨hcontinues.counted hs.counted, hcontinues.explored⟩
  | restart clients hnext =>
      cases clients with
      | nil =>
          obtain rfl := pure_eq_ok.mp hnext
          exact ⟨hs.counted, hs.explored⟩
      | cons cid rest =>
          obtain ⟨g, hsent, rfl⟩ := bind_pure_eq_ok.mp hnext
          refine ⟨hs.counted.sendConfiguration hsent fun hdoe => ?_,
            hs.explored.of_status
              (Handler.sendConfiguration_handlerStatus hsent)⟩
          apply hrationed
          rw [hposition]
          exact ⟨hdoe, Handler.composesNext_of_ok hsent⟩
  | recovered cid phase =>
      have hrecovers :=
        s.handler.recovers_continueRecovery s.storage cid phase
      exact ⟨hrecovers.counted hs.counted, hrecovers.explored⟩
  | answer cid hnext =>
      cases Handler.answers_of_answer hnext with
      | silent => exact ⟨hs.counted, hs.explored⟩
      | explore hexploring hsent =>
          refine ⟨hs.counted.sendConfiguration hsent fun hdoe => ?_,
            hs.explored.of_status
              (Handler.sendConfiguration_handlerStatus hsent)⟩
          apply hrationed
          rw [hposition]
          exact ⟨hdoe, Handler.composesNext_of_ok hsent, hexploring⟩
      | prediction _ =>
          exact ⟨hs.counted.sent nofun, hs.explored.of_status rfl⟩
      | abort _ => exact ⟨hs.counted.sent nofun, hs.explored.of_status rfl⟩

theorem metered_step {action : Action W} (hs : s.Metered)
    (hrationed : s.Rationed action) (hstep : s.step action = some t) :
    t.Metered := by
  cases action with
  | locked worker input =>
      obtain ⟨-, -, ⟨next, hturn, rfl⟩ | ⟨g, hthrows, rfl⟩⟩ :=
        step_locked.mp hstep
      · obtain ⟨hcounted, hexplored⟩ := metered_locked hs hrationed hturn
        exact ⟨hcounted, hexplored⟩
      · obtain ⟨hcounted, hexplored⟩ :=
          (Handler.fails_of_throws hthrows).metered hs.counted hs.explored
        exact ⟨hcounted, hexplored⟩
  | parse worker success =>
      obtain ⟨-, cid, -, rfl⟩ := step_parse.mp hstep
      exact ⟨hs.counted, hs.explored⟩
  | produce worker storage =>
      obtain ⟨-, -, rfl⟩ := step_produce.mp hstep
      exact ⟨hs.counted, hs.explored⟩
  | wait worker returnCode =>
      obtain ⟨-, position, -, rfl⟩ := step_wait.mp hstep
      split <;> exact ⟨hs.counted, hs.explored⟩

omit [HashOrder Text] in
/-- A session that has started within the quota started from zero. -/
theorem rationed_welcome (cid : ClientId) (app : Option Heel.ApplicationModel)
    {worker : W}
    (ht : (s.leave worker
      (s.handler.welcomeClient s.storage cid app)).WithinQuota)
    (hopens : s.handler.Opens app) :
    s.handler.numConfigurationsSentPerIteration = 0 ∧
      0 ≤ (s.handler.parseInformations app).1.numConfigurationsPerIteration := by
  have hwelcomes := s.handler.welcomes_welcomeClient s.storage cid app
  generalize s.handler.welcomeClient s.storage cid app = next at hwelcomes ht
  cases hwelcomes with
  | refused _ hrefused _ _ =>
      rw [hopens.2] at hrefused
      contradiction
  | opened _ _ hsent hquota hhistory hrecovers =>
      have hkeeps := hrecovers.keeps
      have hzero : s.handler.numConfigurationsSentPerIteration = 0 := by
        apply ht.started
        change _ ∈ next.1.history
        rw [hkeeps.history, hhistory]
        exact List.mem_cons_self
      refine ⟨hzero, ?_⟩
      have hbounded : (sentThisIteration next.1.history : Int) ≤
          next.1.numConfigurationsPerIteration := ht.bounded
      rw [hkeeps.history, hhistory, hkeeps.quota, hquota] at hbounded
      exact hbounded
  | registered hclueless =>
      rw [hopens.1] at hclueless
      contradiction

omit [DecidableEq W] in
/-- A worker that ships sends its configuration. -/
theorem ships_turn (hs : s.Metered) {position : Position} {input : Input}
    {next : Handler × Position} (hships : s.handler.Ships position)
    (hturn : s.handler.Turn s.storage position input next) :
    ∃ sender cid, s.handler.isDoeValid = true ∧
      s.handler.sendConfiguration sender cid = .ok next.1 := by
  cases hturn with
  | restart clients hnext =>
      cases clients with
      | nil => exact hships.elim
      | cons cid rest =>
          obtain ⟨g, hsent, rfl⟩ := bind_pure_eq_ok.mp hnext
          exact ⟨_, cid, hships.1, hsent⟩
  | answer cid hnext =>
      rw [Handler.answer_exploring (hs.explored hships.2.2)] at hnext
      obtain ⟨g, hsent, rfl⟩ := bind_pure_eq_ok.mp hnext
      exact ⟨_, cid, hships.1, hsent⟩
  | _ => exact hships.elim

omit [DecidableEq W] in
theorem not_throws (hs : s.Metered) {position : Position} {input : Input}
    {g : Handler} (hships : s.handler.Ships position) :
    ¬ s.handler.Throws s.storage position input g := by
  intro hthrows
  cases hthrows with
  | restart clients hthrown =>
      cases clients with
      | nil => exact hships.elim
      | cons cid rest =>
          have hunsent := bind_pure_eq_error.mp hthrown
          exact Handler.sendConfiguration_ne_error hships.2 hunsent
  | answer cid hthrown =>
      rw [Handler.answer_exploring (hs.explored hships.2.2)] at hthrown
      have hunsent := bind_pure_eq_error.mp hthrown
      exact Handler.sendConfiguration_ne_error hships.2.1 hunsent
  | _ => exact hships.elim

/-- A configuration that has been sent within the quota was sent below it. -/
theorem rationed_of_withinQuota {action : Action W} (hs : s.Metered)
    (hstep : s.step action = some t) (ht : t.WithinQuota) :
    s.Rationed action := by
  cases action with
  | locked worker input =>
      obtain ⟨-, -, ⟨next, hturn, rfl⟩ | ⟨g, hthrows, rfl⟩⟩ :=
        step_locked.mp hstep
      · cases input with
        | welcome cid app =>
            generalize s.position worker = position at hturn
            cases hturn
            exact rationed_welcome cid app ht
        | bye cid => trivial
        | observation cid => trivial
        | proceed =>
            intro hships
            obtain ⟨sender, cid, hdoe, hsent⟩ := ships_turn hs hships hturn
            exact hs.counted.lt_of_sendConfiguration hsent hdoe ht.bounded
      · cases input with
        | welcome cid app =>
            generalize s.position worker = position at hthrows
            cases hthrows
        | bye cid => trivial
        | observation cid => trivial
        | proceed => exact fun hships => absurd hthrows (not_throws hs hships)
  | parse worker success => trivial
  | produce worker storage => trivial
  | wait worker returnCode => trivial

omit [DecidableEq W] [HashOrder Text] in
theorem metered_fresh (appId : ApplicationId) (storage : Storage) :
    (fresh appId storage : Server W).Metered where
  counted := ⟨rfl, le_refl _, nofun⟩
  explored := Handler.explored_of_not_mem (by simp [fresh, Handler.new])

/-- The quota is respected in every state exactly when every session starts
from zero and nothing is sent at the bound. -/
theorem withinQuota_allReached_iff (appId : ApplicationId) (storage : Storage)
    (actions : List (Action W)) :
    AllReached step WithinQuota (fresh appId storage) actions ↔
      AllSteps step Rationed (fresh appId storage) actions :=
  allReached_iff_allSteps Metered (fun _ _ _ => metered_step)
    (fun _ => Metered.withinQuota) (fun _ _ _ => rationed_of_withinQuota)
    (metered_fresh appId storage)

end Runs

section Crowded

open Sample

local instance crowdingOrder : HashOrder Text := HashOrder.stored Text

/-- Two clients arrive while the quota is one configuration. -/
def arriving : List (Action Unit) :=
  welcome () "1".toList ++
    [.locked () (.welcome "2".toList none), .locked () .proceed]

def crowded : Server Unit :=
  (runFrom step (fresh appId (explorable 2)) arriving).get (by decide +kernel)

theorem not_withinQuota_crowded :
    ¬ ∀ [HashOrder Text] (appId : ApplicationId) (storage : Storage)
      (actions : List (Action Unit)),
      AllReached step WithinQuota (fresh appId storage) actions := by
  intro hall
  have hquota := hall appId (explorable 2) arriving arriving crowded
    List.prefix_rfl (Option.some_get _).symm
  exact absurd hquota.bounded (by decide +kernel)

end Crowded

end Server

end Margot.Agora
