/-
What the server is up to, and what it tells its clients.  The workers may act in
any order; of all the masks of the status bits they leave only eight, and a
message is true of the handler that sends it.
-/
import Margot.Agora.Outcomes

namespace Margot.Agora

/-- What a handler is up to between two steps of its workers. -/
inductive Activity where
  | clueless
  | undefined
  | exploring
  | withPrediction
  | buildingDoe
  | buildingModel
  | buildingModelAndCluster
  | buildingPrediction
deriving Repr, DecidableEq

/-- The bits that are on. -/
def Activity.status : Activity → Status
  | .clueless => {.clueless}
  | .undefined => {.undefined}
  | .exploring => {.withDoe, .exploring}
  | .withPrediction => {.withPrediction}
  | .buildingDoe => {.buildingDoe}
  | .buildingModel => {.buildingModel}
  | .buildingModelAndCluster => {.buildingModel, .buildingCluster}
  | .buildingPrediction => {.buildingPrediction}

namespace Handler

/-- The status is that of an activity. -/
def Active (h : Handler) : Prop :=
  ∃ activity : Activity, h.handlerStatus = activity.status

/-- With the bit of the knowledge there is some. -/
def Informed (h : Handler) : Prop :=
  .withPrediction ∈ h.handlerStatus → h.isPredictionValid = true

variable {h g : Handler} {storage : Storage} {position : Position}
  {input : Input} {next : Handler × Position} {cid : ClientId}

theorem Active.of_status (hactive : h.Active)
    (hstatus : g.handlerStatus = h.handlerStatus) : g.Active := by
  rw [Active, hstatus]
  exact hactive

theorem Informed.of_same (hinformed : h.Informed)
    (hstatus : g.handlerStatus = h.handlerStatus)
    (hprediction : g.prediction = h.prediction) : g.Informed := by
  rw [Informed, hstatus, isPredictionValid, hprediction]
  exact hinformed

theorem informed_of_status (status : Status) (hstatus : h.handlerStatus = status)
    (hnot : .withPrediction ∉ status) : h.Informed :=
  fun hmem => absurd (hstatus ▸ hmem) hnot

section Status

theorem Recovers.active (hnext : h.Recovers cid next) : next.1.Active := by
  cases hnext with
  | launched _ hstatus =>
      rcases hstatus with hg | hg
      · exact ⟨.buildingPrediction, hg⟩
      · exact ⟨.buildingDoe, hg⟩
  | done _ hstatus =>
      rcases hstatus with hg | hg | hg
      · exact ⟨.withPrediction, hg⟩
      · exact ⟨.exploring, hg⟩
      · exact ⟨.undefined, hg⟩

theorem active_of_iterates (hiterates : h.Iterates g) : g.Active := by
  rcases hiterates.status with hg | hg
  · exact ⟨.buildingModel, hg⟩
  · exact ⟨.buildingModelAndCluster, hg⟩

/-- An exception leaves the status of an activity as well. -/
theorem Fails.active (hactive : h.Active) (hfails : h.Fails position g) :
    g.Active := by
  cases hfails with
  | iterate cid hiterates => exact active_of_iterates hiterates
  | broadcast prediction => exact ⟨.withPrediction, rfl⟩
  | _ => exact hactive.of_status rfl

variable [HashOrder Text]

theorem Continues.active (hnext : h.Continues next) : next.1.Active := by
  cases hnext with
  | launched _ hstatus =>
      rcases hstatus with hg | hg
      · exact ⟨.buildingPrediction, hg⟩
      · exact ⟨.buildingDoe, hg⟩
  | restarted _ hstatus => exact ⟨.exploring, hstatus⟩
  | predicted _ hstatus => exact ⟨.withPrediction, hstatus⟩
  | exhausted _ hstatus => exact ⟨.undefined, hstatus⟩

/-- Every turn leaves the status of an activity. -/
theorem turn_active (hactive : h.Active)
    (hturn : h.Turn storage position input next) : next.1.Active := by
  cases hturn with
  | welcome cid app =>
      have hwelcomes := h.welcomes_welcomeClient storage cid app
      generalize h.welcomeClient storage cid app = next at hwelcomes
      cases hwelcomes with
      | refused _ _ _ hstatus => exact hactive.of_status hstatus
      | opened _ _ _ _ _ hrecovers => exact hrecovers.active
      | registered _ => exact hactive.of_status rfl
  | bye cid =>
      obtain ⟨g, hbye, -, -, -, -, hleft⟩ := h.byeClient_cases cid
      rw [hbye]
      rcases hleft with ⟨-, hstatus, -⟩ | ⟨-, hstatus⟩
      · exact ⟨.clueless, hstatus⟩
      · exact hactive.of_status hstatus
  | observation cid =>
      rw [processObservation]
      split <;> exact hactive
  | next cid hnext =>
      cases advances_of_nextConfiguration hnext with
      | sent _ _ hsent =>
          exact hactive.of_status (sendConfiguration_handlerStatus hsent)
      | iterated hiterates _ => exact active_of_iterates hiterates
  | awaited phase hnext => exact (continues_continueObservation hnext).active
  | restart clients hnext =>
      exact hactive.of_status (sendNext_handlerStatus hnext)
  | recovered cid phase =>
      exact (h.recovers_continueRecovery storage cid phase).active
  | answer cid hnext =>
      cases answers_of_answer hnext with
      | explore _ hsent =>
          exact hactive.of_status (sendConfiguration_handlerStatus hsent)
      | _ => exact hactive.of_status rfl

end Status

section Knowledge

theorem informed_of_iterates (hiterates : h.Iterates g) : g.Informed := by
  rcases hiterates.status with hg | hg
  · exact informed_of_status _ hg (by decide)
  · exact informed_of_status _ hg (by decide)

theorem informed_recoverDoe (h : Handler) (cid : ClientId) :
    (h.recoverDoe cid).1.Informed := by
  rw [recoverDoe]
  split
  · exact informed_of_status {.exploring, .withDoe} rfl (by decide)
  · exact informed_of_status {.buildingDoe} rfl (by decide)

theorem informed_recoverPrediction (h : Handler) (storage : Storage)
    (cid : ClientId) : (h.recoverPrediction storage cid).1.Informed := by
  rw [recoverPrediction]
  split
  · next hvalid => exact fun _ => hvalid
  · split
    · exact informed_of_status {.buildingPrediction} rfl (by decide)
    · exact h.informed_recoverDoe cid

theorem informed_continueRecovery (h : Handler) (storage : Storage)
    (cid : ClientId) (phase : Phase) :
    (h.continueRecovery storage cid phase).1.Informed := by
  unfold continueRecovery
  split
  · split
    · exact informed_of_status {.withDoe, .exploring} rfl (by decide)
    · exact informed_of_status {.undefined} rfl (by decide)
  · split
    · next hvalid => exact fun _ => hvalid
    · exact informed_recoverDoe _ cid

variable [HashOrder Text]

theorem informed_explore (h : Handler) : h.explore.1.Informed := by
  rw [explore]
  split
  · exact informed_of_status {.withDoe, .exploring} rfl (by decide)
  · exact informed_of_status {.buildingDoe} rfl (by decide)

theorem informed_predict (h : Handler) : h.predict.1.Informed := by
  rw [predict]
  split
  · exact informed_of_status {.buildingPrediction} rfl (by decide)
  · exact h.informed_explore

theorem Informed.sendConfiguration (hinformed : h.Informed) {sender : Sender}
    (hsent : h.sendConfiguration sender cid = .ok g) : g.Informed :=
  hinformed.of_same (sendConfiguration_handlerStatus hsent)
    (sendConfiguration_prediction hsent)

theorem informed_continueObservation {phase : Phase}
    (hnext : h.continueObservation storage phase = .ok next) :
    next.1.Informed := by
  cases resumes_of_continueObservation hnext with
  | modeled => exact informed_predict _
  | predicted hvalid => exact fun _ => hvalid
  | unpredicted _ => exact informed_explore _
  | designed _ =>
      exact informed_of_status {.withDoe, .exploring} rfl (by decide)
  | undesigned => exact informed_of_status {.undefined} rfl (by decide)

theorem informed_nextConfiguration (hinformed : h.Informed)
    (hnext : h.nextConfiguration cid = .ok next) : next.1.Informed := by
  cases advances_of_nextConfiguration hnext with
  | sent _ _ hsent => exact hinformed.sendConfiguration hsent
  | iterated hiterates _ => exact informed_of_iterates hiterates

omit [HashOrder Text] in
/-- A welcome that is refused may leave another description behind, but neither
another status nor other predictions. -/
theorem informed_welcomeClient (hinformed : h.Informed) (storage : Storage)
    (cid : ClientId) (app : Option Heel.ApplicationModel) :
    (h.welcomeClient storage cid app).1.Informed := by
  rw [welcomeClient]
  split
  · next hclueless =>
      have hrefused : ∀ refused, (h.addClient cid).parseInformations app =
          (refused, false) → refused.Informed := by
        intro refused hparse
        rw [parseInformations] at hparse
        split at hparse
        · obtain ⟨rfl, -⟩ := Prod.mk.inj hparse
          exact hinformed.of_same rfl rfl
        · simp only at hparse
          split at hparse
          · obtain ⟨rfl, -⟩ := Prod.mk.inj hparse
            exact hinformed.of_same rfl rfl
          · exact absurd (Prod.mk.inj hparse).2 (by decide)
      split
      · next refused hparse => exact hrefused refused hparse
      · next informed hparse => exact informed_recoverPrediction _ storage cid
  · exact hinformed.of_same rfl rfl

/-- Every turn that claims to have knowledge has it. -/
theorem turn_informed (hinformed : h.Informed)
    (hturn : h.Turn storage position input next) : next.1.Informed := by
  cases hturn with
  | welcome cid app => exact informed_welcomeClient hinformed storage cid app
  | bye cid =>
      rw [byeClient]
      simp only
      split
      · exact informed_of_status {.clueless} rfl (by decide)
      · exact hinformed.of_same rfl rfl
  | observation cid =>
      rw [processObservation]
      split <;> exact hinformed
  | next cid hnext => exact informed_nextConfiguration hinformed hnext
  | awaited phase hnext => exact informed_continueObservation hnext
  | restart clients hnext =>
      cases clients with
      | nil =>
          obtain rfl := pure_eq_ok.mp hnext
          exact hinformed
      | cons cid rest =>
          obtain ⟨g, hsent, rfl⟩ := bind_pure_eq_ok.mp hnext
          exact hinformed.sendConfiguration hsent
  | recovered cid phase => exact h.informed_continueRecovery storage cid phase
  | answer cid hnext =>
      cases answers_of_answer hnext with
      | explore _ hsent => exact hinformed.sendConfiguration hsent
      | _ => exact hinformed.of_same rfl rfl

theorem throws_informed (hinformed : h.Informed)
    (hthrows : h.Throws storage position input g) : g.Informed := by
  have hfails := fails_of_throws hthrows
  cases hthrows with
  | next cid _ =>
      cases hfails with
      | next cid doe _ => exact hinformed.of_same rfl rfl
      | iterate cid hiterates => exact informed_of_iterates hiterates
  | restart clients _ =>
      cases hfails
      exact hinformed.of_same rfl rfl
  | answer cid _ =>
      cases hfails
      exact hinformed.of_same rfl rfl
  | awaited phase hthrown =>
      obtain ⟨rfl, hvalid, hunsent⟩ := unsent_of_continueObservation hthrown
      obtain ⟨-, rfl⟩ := send_eq_error.mp hunsent
      exact fun _ => hvalid

end Knowledge

section Clients

/-- A worker that keeps the mutex serves registered clients: it sends them
configurations during the exploration, and it answers once something is
known. -/
def Attends (h : Handler) : Position → Prop
  | .restarting clients => .exploring ∈ h.handlerStatus ∧
      ∀ cid ∈ clients, cid ∈ h.activeClients
  | .recovering cid _ _ => cid ∈ h.activeClients
  | .answering cid => .clueless ∉ h.handlerStatus ∧ cid ∈ h.activeClients
  | _ => True

theorem attends_of_not_locked (h : Handler) {position : Position}
    (hunlocked : position.locked = false) : h.Attends position := by
  cases position with
  | restarting clients => contradiction
  | recovering cid phase plugins => contradiction
  | answering cid => contradiction
  | _ => trivial

theorem Recovers.attends (hactive : cid ∈ h.activeClients)
    (hnext : h.Recovers cid next) : next.1.Attends next.2 := by
  cases hnext with
  | launched hkeeps _ =>
      rw [← hkeeps.activeClients] at hactive
      exact hactive
  | done hkeeps hstatus =>
      rw [← hkeeps.activeClients] at hactive
      refine ⟨?_, hactive⟩
      rcases hstatus with hg | hg | hg <;> rw [hg] <;> decide

theorem attends_sending {clients : List ClientId}
    (hexploring : .exploring ∈ h.handlerStatus)
    (hclients : ∀ cid ∈ clients, cid ∈ h.activeClients) :
    h.Attends (.sending clients) := by
  cases clients with
  | nil => trivial
  | cons cid rest => exact ⟨hexploring, hclients⟩

variable [HashOrder Text]

theorem Continues.attends (hnext : h.Continues next) :
    next.1.Attends next.2 := by
  cases hnext with
  | launched _ _ => trivial
  | restarted hkeeps hstatus =>
      apply attends_sending
      · rw [hstatus]
        decide
      · intro cid hmem
        rw [hkeeps.activeClients]
        exact UnorderedSet.mem_iterate.mp hmem
  | predicted _ _ => trivial
  | exhausted _ _ => trivial

/-- Every turn that keeps the mutex has a registered client to serve. -/
theorem turn_attends (hattends : h.Attends position)
    (hturn : h.Turn storage position input next) : next.1.Attends next.2 := by
  cases hturn with
  | welcome cid app =>
      have hwelcomes := h.welcomes_welcomeClient storage cid app
      generalize h.welcomeClient storage cid app = next at hwelcomes
      have hadded : cid ∈ h.activeClients.emplace cid :=
        UnorderedSet.mem_emplace.mpr (.inl rfl)
      cases hwelcomes with
      | refused _ _ _ _ => trivial
      | opened _ hclients _ _ _ hrecovers =>
          rw [← hclients] at hadded
          exact hrecovers.attends hadded
      | registered hclueless =>
          refine ⟨?_, hadded⟩
          rw [checkState, decide_eq_false_iff_not] at hclueless
          exact hclueless
  | bye cid =>
      obtain ⟨g, hbye, -⟩ := h.byeClient_cases cid
      rw [hbye]
      trivial
  | observation cid =>
      rw [processObservation]
      split <;> trivial
  | next cid hnext =>
      cases advances_of_nextConfiguration hnext with
      | sent _ _ _ => trivial
      | iterated _ _ => trivial
  | awaited phase hnext => exact (continues_continueObservation hnext).attends
  | restart clients hnext =>
      cases clients with
      | nil =>
          obtain rfl := pure_eq_ok.mp hnext
          trivial
      | cons cid rest =>
          obtain ⟨g, hsent, rfl⟩ := bind_pure_eq_ok.mp hnext
          obtain ⟨hexploring, hclients⟩ := hattends
          apply attends_sending
          · rw [sendConfiguration_handlerStatus hsent]
            exact hexploring
          · rw [sendConfiguration_activeClients hsent]
            exact (List.forall_mem_cons.mp hclients).2
  | recovered cid phase =>
      exact (h.recovers_continueRecovery storage cid phase).attends hattends
  | answer cid hnext =>
      cases answers_of_answer hnext with
      | _ => trivial

end Clients

end Handler

section Messages

/-- The client to whom the message goes, unless it goes to all. -/
def Message.recipient : Message → Option ClientId
  | .explore cid _ => some cid
  | .prediction cid => some cid
  | .broadcast => none
  | .abort cid => some cid

/-- A plugin is at work. -/
def Activity.isBuilding : Activity → Bool
  | .buildingDoe => true
  | .buildingModel => true
  | .buildingModelAndCluster => true
  | .buildingPrediction => true
  | _ => false

theorem Activity.status_injective :
    Function.Injective Activity.status := by
  intro first second hsame
  cases first <;> cases second <;>
    first | rfl | exact absurd hsame (by decide)

/-- Only one activity has the bit. -/
theorem Activity.eq_exploring {activity : Activity}
    (hmem : .exploring ∈ activity.status) : activity = .exploring := by
  cases activity <;> first | rfl | exact absurd hmem (by decide)

theorem Activity.eq_withPrediction {activity : Activity}
    (hmem : .withPrediction ∈ activity.status) :
    activity = .withPrediction := by
  cases activity <;> first | rfl | exact absurd hmem (by decide)

theorem Activity.eq_undefined {activity : Activity}
    (hmem : .undefined ∈ activity.status) : activity = .undefined := by
  cases activity <;> first | rfl | exact absurd hmem (by decide)

namespace Handler

/-- What a message says is true of the handler that has sent it, and its client
is registered.  The next configuration of a client that has stored an
observation is sent whatever has happened meanwhile. -/
inductive Tells (g : Handler) : Position → Message → Prop where
  | welcomed {cid : ClientId} {configuration : Configuration}
      (hstatus : g.handlerStatus = Activity.exploring.status)
      (hclient : cid ∈ g.activeClients) :
      Tells g (.answering cid) (.explore cid configuration)
  | next {cid : ClientId} {configuration : Configuration} :
      Tells g (.parsed cid) (.explore cid configuration)
  | restarted {cid : ClientId} {rest : List ClientId}
      {configuration : Configuration}
      (hstatus : g.handlerStatus = Activity.exploring.status)
      (hclient : cid ∈ g.activeClients) :
      Tells g (.restarting (cid :: rest)) (.explore cid configuration)
  | prediction {cid : ClientId}
      (hstatus : g.handlerStatus = Activity.withPrediction.status)
      (hvalid : g.isPredictionValid = true)
      (hclient : cid ∈ g.activeClients) :
      Tells g (.answering cid) (.prediction cid)
  | broadcast (hstatus : g.handlerStatus = Activity.withPrediction.status)
      (hvalid : g.isPredictionValid = true) :
      Tells g (.awaiting .prediction []) .broadcast
  | abort {cid : ClientId}
      (hstatus : g.handlerStatus = Activity.undefined.status)
      (hclient : cid ∈ g.activeClients) :
      Tells g (.answering cid) (.abort cid)

/-- The history grows by one event at most, and by a message only if it is
true. -/
def Says (h g : Handler) (position : Position) : Prop :=
  g.history = h.history ∨ ∃ event, g.history = event :: h.history ∧
    ∀ sender status message, event = .sent sender status message →
      status = g.handlerStatus ∧ g.Tells position message

variable {h g : Handler} {storage : Storage} {position : Position}
  {input : Input} {next : Handler × Position} {cid : ClientId}

/-- An event that is no message. -/
theorem says_event {event : Event} (hhistory : g.history = event :: h.history)
    (hsilent : ∀ sender status message,
      event ≠ .sent sender status message) : h.Says g position :=
  .inr ⟨event, hhistory, fun sender status message hevent =>
    absurd hevent (hsilent sender status message)⟩

theorem says_iterates (hiterates : h.Iterates g) : h.Says g position :=
  says_event hiterates.history nofun

theorem says_sent {sender : Sender} {message : Message}
    (htells : Tells (h.record (.sent sender h.handlerStatus message)) position
      message) :
    h.Says (h.record (.sent sender h.handlerStatus message)) position := by
  refine .inr ⟨_, rfl, fun sender' status message' hevent => ?_⟩
  obtain ⟨-, rfl, rfl⟩ := Event.sent.inj hevent
  exact ⟨rfl, htells⟩

variable [HashOrder Text]

theorem says_sendConfiguration {sender : Sender}
    (hsent : h.sendConfiguration sender cid = .ok g)
    (htells : ∀ configuration,
      g.Tells position (.explore cid configuration)) :
    h.Says g position := by
  rcases sendConfiguration_cases hsent with ⟨-, rfl⟩ |
    ⟨-, configuration, hhistory, -⟩
  · exact .inl rfl
  · refine .inr ⟨_, hhistory, fun sender' status message hevent => ?_⟩
    obtain ⟨-, rfl, rfl⟩ := Event.sent.inj hevent
    exact ⟨(sendConfiguration_handlerStatus hsent).symm, htells configuration⟩

theorem explore_history (h : Handler) : h.explore.1.history = h.history := by
  rw [explore]
  split <;> rfl

theorem predict_history (h : Handler) : h.predict.1.history = h.history := by
  rw [predict]
  split
  · rfl
  · exact h.explore_history

/-- The knowledge is announced when it has been found to be there. -/
theorem says_continueObservation {phase : Phase}
    (hnext : h.continueObservation storage phase = .ok next) :
    h.Says next.1 (.awaiting phase []) := by
  cases resumes_of_continueObservation hnext with
  | modeled =>
      have hkeeps := (h.keeps_checkModels storage).trans
        (keeps_checkClusters _ storage)
      exact .inl ((predict_history _).trans hkeeps.history)
  | predicted hvalid =>
      refine .inr ⟨_, rfl, fun sender status message hevent => ?_⟩
      obtain ⟨-, rfl, rfl⟩ := Event.sent.inj hevent
      exact ⟨rfl, .broadcast rfl hvalid⟩
  | unpredicted _ => exact .inl (explore_history _)
  | designed _ => exact .inl rfl
  | undesigned => exact .inl rfl

/-- A welcome is answered truthfully. -/
theorem says_answer (hactive : h.Active) (hinformed : h.Informed)
    (hattends : h.Attends (.answering cid)) (hnext : h.Answers cid next) :
    h.Says next.1 (.answering cid) := by
  obtain ⟨activity, hstatus⟩ := hactive
  obtain ⟨-, hclient⟩ := hattends
  cases hnext with
  | silent => exact .inl rfl
  | explore hexploring hsent =>
      apply says_sendConfiguration hsent
      intro configuration
      rw [checkState, decide_eq_true_eq, hstatus] at hexploring
      rw [Activity.eq_exploring hexploring] at hstatus
      apply Tells.welcomed
      · rw [sendConfiguration_handlerStatus hsent, hstatus]
      · rw [sendConfiguration_activeClients hsent]
        exact hclient
  | prediction hprediction =>
      apply says_sent
      rw [checkState, decide_eq_true_eq] at hprediction
      have hvalid := hinformed hprediction
      rw [hstatus] at hprediction
      rw [Activity.eq_withPrediction hprediction] at hstatus
      exact .prediction hstatus hvalid hclient
  | abort hundefined =>
      apply says_sent
      rw [checkState, decide_eq_true_eq, hstatus] at hundefined
      rw [Activity.eq_undefined hundefined] at hstatus
      exact .abort hstatus hclient

/-- The client has to wait: a plugin is at work, or there is no configuration
left. -/
def Withholds (h : Handler) : Prop :=
  ∃ activity : Activity, h.handlerStatus = activity.status ∧
    (activity.isBuilding = true ∨
      activity = .exploring ∧ h.isDoeValid = false)

omit [HashOrder Text] in
theorem withholds_iff {activity : Activity}
    (hstatus : h.handlerStatus = activity.status) :
    h.Withholds ↔ activity.isBuilding = true ∨
      activity = .exploring ∧ h.isDoeValid = false := by
  constructor
  · rintro ⟨other, hother, hwaits⟩
    obtain rfl := Activity.status_injective (hother.symm.trans hstatus)
    exact hwaits
  · exact fun hwaits => ⟨activity, hstatus, hwaits⟩

/-- A client that is welcomed has to wait, or the message for it is composed and
sent, unless composing it throws. -/
inductive Replies (h : Handler) (cid : ClientId) : Outcome → Prop where
  | withheld (hwithholds : h.Withholds) : Replies h cid (.ok (h, .idle))
  | sent {g : Handler} {message : Message} (hreplies : ¬ h.Withholds)
      (hrecipient : message.recipient = some cid)
      (hpayload : (h.payload message).isSome = true)
      (hhistory : g.history =
        .sent .welcomeClient h.handlerStatus message :: h.history) :
      Replies h cid (.ok (g, .idle))
  | thrown {g : Handler} {message : Message} (hreplies : ¬ h.Withholds)
      (hrecipient : message.recipient = some cid)
      (hpayload : h.payload message = none) (hhistory : g.history = h.history) :
      Replies h cid (.error g)

theorem replies_send {message : Message} (hreplies : ¬ h.Withholds)
    (hrecipient : message.recipient = some cid) :
    h.Replies cid (do
      let sent ← h.send .welcomeClient message
      return (sent, .idle)) := by
  rw [send]
  cases hpayload : h.payload message with
  | none => exact .thrown hreplies hrecipient hpayload rfl
  | some payload =>
      exact .sent hreplies hrecipient (by rw [hpayload]; rfl) rfl

theorem replies_sendConfiguration (hwithholds : h.Withholds ↔
      h.isDoeValid = false) :
    h.Replies cid (do
      let sent ← h.sendConfiguration .welcomeClient cid
      return (sent, .idle)) := by
  rw [isDoeValid_eq] at hwithholds
  rw [sendConfiguration]
  cases hnext : h.doe.getNext with
  | none =>
      rw [hnext] at hwithholds
      exact .withheld (hwithholds.mpr rfl)
  | some found =>
      obtain ⟨entry, doe⟩ := found
      rw [hnext] at hwithholds
      have hreplies : ¬ h.Withholds := fun hheld =>
        Bool.noConfusion (hwithholds.mp hheld)
      cases hpayload : h.payload (.explore cid entry.configuration) with
      | none =>
          have hunsent : { h with doe := doe }.send .welcomeClient
              (.explore cid entry.configuration) = .error { h with doe := doe } :=
            send_eq_error.mpr ⟨hpayload, rfl⟩
          simp only [hunsent]
          exact .thrown hreplies rfl hpayload rfl
      | some payload =>
          have hsome : (h.payload
              (.explore cid entry.configuration)).isSome = true := by
            rw [hpayload]
            rfl
          have hsent : { h with doe := doe }.send .welcomeClient
              (.explore cid entry.configuration) = .ok _ :=
            send_eq_ok.mpr ⟨hsome, rfl⟩
          simp only [hsent]
          exact .sent hreplies rfl hsome rfl

/-- The tests of the status never fall through. -/
theorem replies_answer (hactive : h.Active)
    (hclueless : .clueless ∉ h.handlerStatus) (cid : ClientId) :
    h.Replies cid (h.answer cid) := by
  obtain ⟨activity, hstatus⟩ := hactive
  have hcheck : ∀ state, h.checkState state =
      decide (state ∈ activity.status) := by
    intro state
    rw [checkState, hstatus]
  have hwithholds := withholds_iff hstatus
  cases activity with
  | clueless =>
      rw [hstatus] at hclueless
      exact absurd (Finset.mem_singleton_self _) hclueless
  | exploring =>
      rw [answer_exploring hstatus]
      apply replies_sendConfiguration
      rw [hwithholds]
      simp [Activity.isBuilding]
  | withPrediction =>
      have hanswer : h.answer cid = do
          let sent ← h.send .welcomeClient (.prediction cid)
          return (sent, .idle) := by
        simp only [answer, hcheck]
        rfl
      rw [hanswer]
      apply replies_send _ rfl
      rw [hwithholds]
      simp [Activity.isBuilding]
  | undefined =>
      have hanswer : h.answer cid = do
          let sent ← h.send .welcomeClient (.abort cid)
          return (sent, .idle) := by
        simp only [answer, hcheck]
        rfl
      rw [hanswer]
      apply replies_send _ rfl
      rw [hwithholds]
      simp [Activity.isBuilding]
  | _ =>
      have hanswer : h.answer cid = .ok (h, .idle) := by
        simp only [answer, hcheck]
        rfl
      rw [hanswer]
      exact .withheld (hwithholds.mpr (.inl rfl))

/-- Whatever a turn says is true. -/
theorem turn_says (hactive : h.Active) (hinformed : h.Informed)
    (hattends : h.Attends position)
    (hturn : h.Turn storage position input next) :
    h.Says next.1 position := by
  cases hturn with
  | welcome cid app =>
      have hwelcomes := h.welcomes_welcomeClient storage cid app
      generalize h.welcomeClient storage cid app = next at hwelcomes
      cases hwelcomes with
      | refused _ _ hkeeps _ => exact .inl hkeeps.history
      | opened _ _ _ _ hhistory hrecovers =>
          exact says_event (hrecovers.keeps.history.trans hhistory) nofun
      | registered _ => exact .inl rfl
  | bye cid =>
      obtain ⟨g, hbye, -, -, -, hhistory, -⟩ := h.byeClient_cases cid
      rw [hbye]
      exact says_event hhistory nofun
  | observation cid =>
      rw [processObservation]
      split <;> exact .inl rfl
  | next cid hnext =>
      cases advances_of_nextConfiguration hnext with
      | sent _ _ hsent =>
          exact says_sendConfiguration hsent fun configuration => .next
      | iterated hiterates _ => exact says_iterates hiterates
  | awaited phase hnext => exact says_continueObservation hnext
  | restart clients hnext =>
      cases clients with
      | nil =>
          obtain rfl := pure_eq_ok.mp hnext
          exact .inl rfl
      | cons cid rest =>
          obtain ⟨g, hsent, rfl⟩ := bind_pure_eq_ok.mp hnext
          obtain ⟨hexploring, hclients⟩ := hattends
          obtain ⟨activity, hstatus⟩ := hactive
          rw [hstatus] at hexploring
          rw [Activity.eq_exploring hexploring] at hstatus
          apply says_sendConfiguration hsent
          intro configuration
          apply Tells.restarted
          · rw [sendConfiguration_handlerStatus hsent, hstatus]
          · rw [sendConfiguration_activeClients hsent]
            exact hclients cid List.mem_cons_self
  | recovered cid phase =>
      have hrecovers := h.recovers_continueRecovery storage cid phase
      exact .inl hrecovers.keeps.history
  | answer cid hnext =>
      exact says_answer hactive hinformed hattends (answers_of_answer hnext)

omit [HashOrder Text] in
/-- An exception leaves nothing said. -/
theorem Fails.holds (hfails : h.Fails position g) : h.Says g position := by
  cases hfails with
  | iterate cid hiterates => exact says_iterates hiterates
  | _ => exact .inl rfl

end Handler

end Messages

namespace Server

variable {W : Type} [DecidableEq W] {s t : Server W}

/-- What holds of the handler and of the workers, whatever they do. -/
structure Orderly (s : Server W) : Prop where
  holding : s.Holding
  active : s.handler.Active
  informed : s.handler.Informed
  attends : ∀ worker, s.handler.Attends (s.position worker)

theorem Orderly.leave (hs : s.Orderly) {worker : W}
    (hlock : s.mayLock worker) {next : Handler × Position}
    (hactive : next.1.Active) (hinformed : next.1.Informed)
    (hattends : next.1.Attends next.2) : (s.leave worker next).Orderly where
  holding := hs.holding.leave hlock next
  active := hactive
  informed := hinformed
  attends := by
    intro other
    simp only [Server.leave, position_move]
    by_cases hother : other = worker
    · subst hother
      rw [Function.update_self]
      exact hattends
    · rw [Function.update_of_ne hother]
      exact next.1.attends_of_not_locked (hs.holding.not_locked hlock hother)

omit [DecidableEq W] in
theorem Orderly.terminate (hs : s.Orderly) : s.terminate.Orderly :=
  ⟨hs.holding, hs.active, hs.informed, hs.attends⟩

theorem Orderly.move (hs : s.Orderly) {worker : W} {position : Position}
    (hsame : position.locked = (s.position worker).locked)
    (hattends : s.handler.Attends position) :
    (s.move worker position).Orderly where
  holding := hs.holding.move hsame
  active := hs.active
  informed := hs.informed
  attends := by
    intro other
    rw [position_move]
    by_cases hother : other = worker
    · subst hother
      rw [Function.update_self]
      exact hattends
    · rw [Function.update_of_ne hother]
      exact hs.attends other

section Runs

variable [HashOrder Text]

theorem orderly_step {action : Action W} (hs : s.Orderly)
    (hstep : s.step action = some t) : t.Orderly := by
  cases action with
  | locked worker input =>
      obtain ⟨-, hlock, ⟨next, hturn, rfl⟩ | ⟨g, hthrows, rfl⟩⟩ :=
        step_locked.mp hstep
      · exact hs.leave hlock (Handler.turn_active hs.active hturn)
          (Handler.turn_informed hs.informed hturn)
          (Handler.turn_attends (hs.attends worker) hturn)
      · have hleft : (s.leave worker (g, .idle)).Orderly := hs.leave hlock
          ((Handler.fails_of_throws hthrows).active hs.active)
          (Handler.throws_informed hs.informed hthrows) trivial
        exact hleft.terminate
  | parse worker success =>
      obtain ⟨-, cid, hposition, rfl⟩ := step_parse.mp hstep
      apply hs.move
      · rw [hposition]
        split <;> rfl
      · split <;> trivial
  | produce worker storage =>
      obtain ⟨-, -, rfl⟩ := step_produce.mp hstep
      exact ⟨hs.holding, hs.active, hs.informed, hs.attends⟩
  | wait worker returnCode =>
      obtain ⟨-, position, hwaited, rfl⟩ := step_wait.mp hstep
      split
      · apply hs.move (Position.locked_of_waited hwaited)
        have hattends := hs.attends worker
        rcases Position.waited_cases hwaited with
          ⟨phase, plugin, plugins, -, rfl⟩ |
          ⟨cid, phase, plugin, plugins, hposition, rfl⟩
        · trivial
        · rw [hposition] at hattends
          exact hattends
      · exact hs.terminate

omit [DecidableEq W] [HashOrder Text] in
theorem orderly_fresh (appId : ApplicationId) (storage : Storage) :
    (fresh appId storage : Server W).Orderly where
  holding := nofun
  active := ⟨.clueless, rfl⟩
  informed := Handler.informed_of_status {.clueless} rfl (by decide)
  attends := fun _ => trivial

theorem orderly_of_run {appId : ApplicationId} {storage : Storage}
    {actions : List (Action W)}
    (hrun : runFrom step (fresh appId storage) actions = some s) : s.Orderly :=
  runFrom_kept Orderly (fun _ _ _ => orderly_step)
    (orderly_fresh appId storage) hrun

/-- The step says nothing that is not true. -/
def Truthful (s : Server W) (action : Action W) : Prop :=
  ∀ t, s.step action = some t → t.handler.history = s.handler.history ∨
    ∃ worker input, action = .locked worker input ∧
      s.handler.Says t.handler (s.position worker)

/-- Whatever the server sends in a run is true when it is sent: a configuration
during the exploration, the knowledge only if there is some, an abort only in
the undefined status, and each of them to a registered client. -/
theorem truthful_allSteps (appId : ApplicationId) (storage : Storage)
    (actions : List (Action W)) :
    AllSteps step Truthful (fresh appId storage) actions := by
  intro pre action before after _ hrun _ t hstep
  have hbefore := orderly_of_run hrun
  cases action with
  | locked worker input =>
      obtain ⟨-, -, ⟨next, hturn, rfl⟩ | ⟨g, hthrows, rfl⟩⟩ :=
        step_locked.mp hstep
      · exact .inr ⟨worker, input, rfl, Handler.turn_says hbefore.active
          hbefore.informed (hbefore.attends worker) hturn⟩
      · exact .inr ⟨worker, input, rfl,
          (Handler.fails_of_throws hthrows).holds⟩
  | parse worker success =>
      obtain ⟨-, cid, -, rfl⟩ := step_parse.mp hstep
      exact .inl rfl
  | produce worker storage =>
      obtain ⟨-, -, rfl⟩ := step_produce.mp hstep
      exact .inl rfl
  | wait worker returnCode =>
      obtain ⟨-, position, -, rfl⟩ := step_wait.mp hstep
      split <;> exact .inl rfl

/-- A client that is welcomed has to wait, or the message for it is composed and
sent, unless composing it throws. -/
def Answers (s : Server W) (action : Action W) : Prop :=
  ∀ worker cid t, action = .locked worker .proceed →
    s.position worker = .answering cid → s.step action = some t →
      (s.handler.Withholds ∧ t.terminated = false ∧
        t.handler.history = s.handler.history) ∨
      (¬ s.handler.Withholds ∧ ∃ message, message.recipient = some cid ∧
        ((s.handler.payload message).isSome = true ∧ t.terminated = false ∧
            t.handler.history = .sent .welcomeClient s.handler.handlerStatus
              message :: s.handler.history ∨
          s.handler.payload message = none ∧ t.terminated = true ∧
            t.handler.history = s.handler.history))

/-- A welcome is left without an answer only while a plugin is at work, when no
configuration is left, or when composing the answer throws; the tests of
`welcome_client` never fall through. -/
theorem answers_allSteps (appId : ApplicationId) (storage : Storage)
    (actions : List (Action W)) :
    AllSteps step Answers (fresh appId storage) actions := by
  intro pre action before after _ hrun _ worker cid t haction hposition hstep
  subst haction
  have hbefore := orderly_of_run hrun
  obtain ⟨hclueless, -⟩ : before.handler.Attends (.answering cid) := by
    rw [← hposition]
    exact hbefore.attends worker
  have hreplies := Handler.replies_answer hbefore.active hclueless cid
  obtain ⟨hrunning, -, ⟨next, hturn, rfl⟩ | ⟨g, hthrows, rfl⟩⟩ :=
    step_locked.mp hstep
  · rw [hposition] at hturn
    cases hturn with
    | answer _ hnext =>
        rw [hnext] at hreplies
        cases hreplies with
        | withheld hwithholds => exact .inl ⟨hwithholds, hrunning, rfl⟩
        | sent hreplies hrecipient hpayload hhistory =>
            exact .inr ⟨hreplies, _, hrecipient,
              .inl ⟨hpayload, hrunning, hhistory⟩⟩
  · rw [hposition] at hthrows
    cases hthrows with
    | answer _ hthrown =>
        rw [hthrown] at hreplies
        cases hreplies with
        | thrown hreplies hrecipient hpayload hhistory =>
            exact .inr ⟨hreplies, _, hrecipient,
              .inr ⟨hpayload, rfl, hhistory⟩⟩

end Runs

section Reached

open Sample

local instance meetingOrder : HashOrder Text := HashOrder.stored Text

/-- A block with a feature. -/
def featured : Heel.BlockModel :=
  { block "0".toList with
    features := { (block "0".toList).features with
      fields := [⟨"size".toList, "int".toList, .dontCare⟩] } }

/-- A storage with a prediction. -/
def predicted : Storage :=
  { explorable 1 with
    loadPrediction := fun _ =>
      ⟨.empty, .empty, UnorderedMap.empty.emplace "0".toList
        (UnorderedMap.empty.emplace "time".toList
          ⟨"12".toList, "0".toList⟩)⟩ }

/-- A storage with a model. -/
def modelled : Storage := { explorable 1 with isModelValid := fun _ => true }

/-- A client is welcomed, and its observation stored. -/
def observing (block : Heel.BlockModel) (recovery : List (Action Unit)) :
    List (Action Unit) :=
  .locked () (.welcome client (some ⟨"app".toList, "1.0".toList, [block]⟩)) ::
    recovery ++ [.locked () .proceed] ++ observe () ++ [.locked () .proceed]

/-- A storage and a run that lead to the activity. -/
def meeting : Activity → Storage × List (Action Unit)
  | .clueless => (explorable 1, [])
  | .undefined => (emptyStorage, [.locked () (.welcome client
      (some (app "1".toList))), .wait () 0, .locked () .proceed,
      .locked () .proceed])
  | .exploring => (explorable 1, welcome () "1".toList)
  | .withPrediction => (predicted, welcome () "1".toList)
  | .buildingDoe => (explorable 1, observing (block "1".toList) [] ++
      [.wait () 0, .locked () .proceed])
  | .buildingModel => (explorable 1, observing (block "0".toList) [])
  | .buildingModelAndCluster => (explorable 1, observing featured [])
  | .buildingPrediction => (modelled, observing (block "1".toList)
      [.wait () 0, .locked () .proceed] ++ [.wait () 0, .locked () .proceed])

theorem met_meeting (activity : Activity) :
    ((runFrom step (fresh appId (meeting activity).1)
      (meeting activity).2).map fun s =>
        (s.terminated, s.appMutex, s.handler.handlerStatus)) =
      some (false, none, activity.status) := by
  cases activity <;> decide +kernel

/-- The server meets a message with the status. -/
def Met (status : Status) : Prop :=
  ∃ (_ : HashOrder Text) (W : Type) (_ : DecidableEq W)
    (appId : ApplicationId) (storage : Storage) (actions : List (Action W))
    (s : Server W), runFrom step (fresh appId storage) actions = some s ∧
      s.appMutex = none ∧ s.handler.handlerStatus = status

end Reached

/-- Of all the masks of the bits, a message meets exactly those of the eight
activities, with any number of workers and in any order of their steps. -/
theorem met_iff (status : Status) :
    Met status ↔ ∃ activity : Activity, status = activity.status := by
  constructor
  · rintro ⟨_, W, _, appId, storage, actions, s, hrun, -, rfl⟩
    exact (orderly_of_run hrun).active
  · rintro ⟨activity, rfl⟩
    have hmet := met_meeting activity
    obtain ⟨s, hrun, hpair⟩ := Option.map_eq_some_iff.mp hmet
    obtain ⟨-, hrest⟩ := Prod.mk.inj hpair
    obtain ⟨hmutex, hstatus⟩ := Prod.mk.inj hrest
    exact ⟨meetingOrder, Unit, inferInstance, Sample.appId,
      (meeting activity).1, (meeting activity).2, s, hrun, hmutex, hstatus⟩

end Server

end Margot.Agora
