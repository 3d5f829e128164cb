/-
The whole server: the workers take the messages of all applications, and the
application manager keeps one handler for each of them.  Seen from one
application, a run of the server is a run of the workers on its handler.
-/
import Mathlib.Algebra.BigOperators.Group.Finset.Basic
import Mathlib.Data.Fintype.Basic
import Margot.Library.JsonReading
import Margot.Heel.ParsedBlock
import Margot.Agora.Isolation
import Margot.Agora.Completion

namespace Margot.Agora

open Heel (ApplicationModel NameSort)

/-- What the server is asked to do with the handler of an application; the
payload of a welcome is read by `read_json` and `parse`. -/
def Handled.input (sorter : NameSort)
    (computeRange : Ptree → Text → Checked (List Text)) :
    Handled → Option (ApplicationId × Input)
  | .welcome appId cid info => some (appId, .welcome cid
      ((Json.readJson info).bind fun node =>
        (Heel.parseApplication sorter computeRange node).toOption))
  | .kia appId cid _ => some (appId, .bye cid)
  | .observation appId cid _ _ _ => some (appId, .observation cid)
  | _ => none

/-- What a worker of the pool is occupied with. -/
inductive Occupation where
  /-- It waits for a message. -/
  | listening
  /-- It has the handler, and is about to lock its mutex for the first time. -/
  | calling (key : Text) (input : Input)
  /-- It executes a method of the handler. -/
  | inside (key : Text) (position : Position)
  /-- Its task has returned. -/
  | retired

/-- The method returns at its end. -/
def Occupation.after (key : Text) : Position → Occupation
  | .idle => .listening
  | position => .inside key position

/-- Where the worker is in a method of the handler with the key. -/
def Occupation.positionIn (key : Text) : Occupation → Position
  | .inside other position => if other = key then position else .idle
  | _ => .idle

/-- What the worker has been asked to do with the handler with the key. -/
def Occupation.pendingIn (key : Text) : Occupation → Multiset Input
  | .calling other input => if other = key then {input} else 0
  | _ => 0

/-- A handler with its mutex. -/
structure Application (W : Type) where
  handler : Handler
  appMutex : Option W

/-- `disk` is what the storage holds for each application. -/
structure Manager (W : Type) where
  apps : UnorderedMap Text (Application W)
  disk : ApplicationId → Storage
  occupation : W → Occupation
  /-- An exception has left the task of a worker. -/
  terminated : Bool

namespace Manager

inductive Action (W : Type) where
  /-- `recv_message` returns, and the message is handled up to the call of a
  method of a handler. -/
  | receive (worker : W) (message : MessageModel)
  | enter (worker : W)
  | proceed (worker : W)
  | parse (worker : W) (success : Bool)
  | produce (worker : W) (disk : ApplicationId → Storage)
  | wait (worker : W) (returnCode : Int)

section Step

variable {W : Type} [DecidableEq W]

def fresh (disk : ApplicationId → Storage) : Manager W :=
  ⟨.empty, disk, fun _ => .listening, false⟩

/-- The handler of the application, which is created if it is not there. -/
def getApplicationHandler (apps : UnorderedMap Text (Application W))
    (appId : ApplicationId) : UnorderedMap Text (Application W) :=
  match apps.find? appId.str with
  | none => apps.emplace appId.str ⟨.new appId, none⟩
  | some _ => apps

def occupy (m : Manager W) (worker : W) (occupation : Occupation) :
    Manager W :=
  { m with occupation := Function.update m.occupation worker occupation }

variable (sorter : NameSort)
  (computeRange : Ptree → Text → Checked (List Text))

/-- `Worker::handle_incoming_message`, up to the call of the handler. -/
def accept (m : Manager W) (worker : W) (handled : Handled) : Manager W :=
  match handled.input sorter computeRange with
  | some (appId, input) =>
      { m.occupy worker (.calling appId.str input) with
        apps := getApplicationHandler m.apps appId }
  | none => if handled = .shutdown then m.occupy worker .retired else m

/-- An exception has escaped: nothing in memory is used any more. -/
def terminate (m : Manager W) : Manager W := { m with terminated := true }

/-- The worker leaves the handler as it is now, and keeps the mutex if it is
not done. -/
def leave (m : Manager W) (worker : W) (key : Text)
    (next : Handler × Position) : Manager W :=
  { m.occupy worker (.after key next.2) with
    apps := (m.apps.insertOrAssign key
      ⟨next.1, if next.2.locked then some worker else none⟩).1 }

variable [HashOrder Text]

/-- The worker locks the mutex of the handler, unless another one holds it. -/
def turn (m : Manager W) (worker : W) (key : Text) (position : Position)
    (input : Input) : Option (Manager W) :=
  match m.apps.find? key with
  | none => none
  | some app =>
      if app.appMutex = none ∨ app.appMutex = some worker then
        (app.handler.turn (m.disk app.handler.appId) position input).map fun
          | .ok next => m.leave worker key next
          | .error handler => (m.leave worker key (handler, .idle)).terminate
      else none

def step (m : Manager W) (action : Action W) : Option (Manager W) :=
  if m.terminated then none
  else
    match action with
    | .receive worker message =>
        match m.occupation worker with
        | .listening =>
            match handleIncomingMessage message with
            | .ok handled => some (m.accept sorter computeRange worker handled)
            | .error _ => some m.terminate
        | _ => none
    | .enter worker =>
        match m.occupation worker with
        | .calling key input => m.turn worker key .idle input
        | _ => none
    | .proceed worker =>
        match m.occupation worker with
        | .inside key position => m.turn worker key position .proceed
        | _ => none
    | .parse worker success =>
        match m.occupation worker with
        | .inside key (.observed cid) =>
            some (m.occupy worker
              (.after key (if success then .parsed cid else .idle)))
        | _ => none
    | .produce worker disk =>
        match m.occupation worker with
        | .inside _ position =>
            if position.waited.isSome then some { m with disk := disk }
            else none
        | _ => none
    | .wait worker returnCode =>
        match m.occupation worker with
        | .inside key position =>
            position.waited.map fun next =>
              if returnCode = 0 then m.occupy worker (.after key next)
              else m.terminate
        | _ => none

end Step

end Manager

namespace Handler

section Identity

variable (h : Handler) (storage : Storage) (cid : ClientId)

theorem recoverDoe_appId : (h.recoverDoe cid).1.appId = h.appId := by
  rw [recoverDoe]
  split <;> rfl

theorem recoverPrediction_appId :
    (h.recoverPrediction storage cid).1.appId = h.appId := by
  rw [recoverPrediction]
  split
  · rfl
  · split
    · rfl
    · exact h.recoverDoe_appId cid

theorem recoverStorage_appId : (h.recoverStorage storage).appId = h.appId := by
  rw [recoverStorage]
  split <;> rfl

theorem parseInformations_appId (app : Option ApplicationModel) :
    (h.parseInformations app).1.appId = h.appId := by
  rw [parseInformations]
  split
  · rfl
  · simp only
    split <;> rfl

theorem welcomeClient_appId (app : Option ApplicationModel) :
    (h.welcomeClient storage cid app).1.appId = h.appId := by
  rw [welcomeClient]
  split
  · have hparsed := (h.addClient cid).parseInformations_appId app
    split
    · next refused hrefused =>
        rw [hrefused] at hparsed
        exact hparsed
    · next informed hinformed =>
        rw [hinformed] at hparsed
        rw [startSession, startRecovering, recoverPrediction_appId,
          recoverStorage_appId]
        exact hparsed
  · rfl

theorem checkClusters_appId : (h.checkClusters storage).appId = h.appId := by
  rw [checkClusters]
  split
  · split <;> rfl
  · rfl

theorem checkModels_appId : (h.checkModels storage).appId = h.appId := by
  rw [checkModels]
  split <;> rfl

variable [HashOrder Text]

theorem explore_appId : h.explore.1.appId = h.appId := by
  rw [explore]
  split <;> rfl

theorem predict_appId : h.predict.1.appId = h.appId := by
  rw [predict]
  split
  · rfl
  · exact h.explore_appId

variable {h storage} in
theorem continueObservation_appId {phase : Phase} {next : Handler × Position}
    (hnext : h.continueObservation storage phase = .ok next) :
    next.1.appId = h.appId := by
  cases resumes_of_continueObservation hnext with
  | modeled => rw [predict_appId, checkClusters_appId, checkModels_appId]
  | predicted _ => rfl
  | unpredicted _ => exact explore_appId _
  | designed _ => rfl
  | undesigned => rfl

/-- The identifier of a handler is a constant. -/
theorem turn_appId {h : Handler} {storage : Storage} {position : Position}
    {input : Input} {next : Handler × Position}
    (hturn : h.Turn storage position input next) :
    next.1.appId = h.appId := by
  cases hturn with
  | welcome cid app => exact h.welcomeClient_appId storage cid app
  | bye cid =>
      rw [byeClient]
      simp only
      split <;> rfl
  | observation cid =>
      rw [processObservation]
      split <;> rfl
  | next cid hnext =>
      cases advances_of_nextConfiguration hnext with
      | sent _ _ hsent => exact sendConfiguration_appId hsent
      | iterated hiterates _ =>
          rw [hiterates.same]
          rfl
  | awaited phase hnext => exact continueObservation_appId hnext
  | restart clients hnext =>
      cases clients with
      | nil =>
          obtain rfl := pure_eq_ok.mp hnext
          rfl
      | cons cid rest =>
          obtain ⟨g, hsent, rfl⟩ := bind_pure_eq_ok.mp hnext
          exact sendConfiguration_appId hsent
  | recovered cid phase =>
      unfold continueRecovery
      split
      · split <;> rfl
      · split
        · rfl
        · exact recoverDoe_appId _ cid
  | answer cid hnext =>
      cases answers_of_answer hnext with
      | explore _ hsent => exact sendConfiguration_appId hsent
      | _ => rfl

end Identity

end Handler

/-- The identifier is read again from its string form: its parts have no
caret. -/
def ApplicationId.Extracted (appId : ApplicationId) : Prop :=
  getApplicationId appId.str = .ok appId

theorem extracted_of_getApplicationId {topic : Text} {appId : ApplicationId}
    (hread : getApplicationId topic = .ok appId) : appId.Extracted := by
  have hfree : ∀ part ∈ appId.path, '^' ∉ part := by
    intro part hpart hcaret
    have htoken := mem_of_getApplicationId hread hpart
    exact (mem_of_mem_tokenize htoken hcaret).2 rfl
  simp only [ApplicationId.path, List.forall_mem_cons] at hfree
  exact getApplicationId_str hfree.1 hfree.2.1 hfree.2.2.1

theorem ApplicationId.Extracted.eq_of_str {first second : ApplicationId}
    (hfirst : first.Extracted) (hsecond : second.Extracted)
    (hsame : first.str = second.str) : first = second := by
  rw [Extracted, hsame, hsecond] at hfirst
  exact (Except.ok.inj hfirst).symm

namespace Manager

section Views

variable {W : Type} [DecidableEq W]

/-- The handlers are kept under the string forms of their identifiers, and the
workers are called with messages. -/
structure Keyed (m : Manager W) : Prop where
  handlers : ∀ key app, m.apps.find? key = some app →
    app.handler.appId.str = key ∧ app.handler.appId.Extracted
  calls : ∀ worker key input, m.occupation worker = .calling key input →
    input.isMessage = true

/-- The server on one handler, as the whole server has it; it does not end
before the whole server. -/
structure Shows (m : Manager W) (appId : ApplicationId) (server : Server W) :
    Prop where
  app : (m.apps.find? appId.str).getD ⟨.new appId, none⟩ =
    ⟨server.handler, server.appMutex⟩
  storage : server.storage = m.disk appId
  position : ∀ worker, server.position worker =
    (m.occupation worker).positionIn appId.str
  ended : server.terminated = true → m.terminated = true

/-- What a plugin writes changes nothing in the storage of any other application
than the one that it has been launched for.  Writing below the directories of
that application is not enough where those of another one lie in them. -/
def WritesOwn (m : Manager W) : Action W → Prop
  | .produce worker disk => ∀ key position,
      m.occupation worker = .inside key position →
        ∀ appId : ApplicationId, appId.str ≠ key → disk appId = m.disk appId
  | _ => True

/-- What the server is asked to do for the application by a message. -/
def asked (sorter : NameSort)
    (computeRange : Ptree → Text → Checked (List Text))
    (appId : ApplicationId) : Action W → Multiset Input
  | .receive _ message =>
      match handleIncomingMessage message with
      | .ok handled =>
          match handled.input sorter computeRange with
          | some (other, input) => if other = appId then {input} else 0
          | none => 0
      | .error _ => 0
  | _ => 0

/-- What a worker does with the handler because of a message. -/
def served : Agora.Action W → Multiset Input
  | .locked _ input => if input.isMessage then {input} else 0
  | _ => 0

section Pending

variable [Fintype W]

/-- What has been asked for the handler with the key and is still to be
done. -/
def pending (m : Manager W) (key : Text) : Multiset Input :=
  ∑ worker, (m.occupation worker).pendingIn key

/-- One worker is occupied with something else. -/
theorem pending_occupy (m : Manager W) (worker : W) (occupation : Occupation)
    (key : Text) :
    (m.occupy worker occupation).pending key +
        (m.occupation worker).pendingIn key =
      m.pending key + occupation.pendingIn key := by
  have hothers : ∀ n : Manager W, n.pending key =
      (n.occupation worker).pendingIn key +
        ∑ other ∈ Finset.univ.erase worker,
          (n.occupation other).pendingIn key := by
    intro n
    exact (Finset.add_sum_erase _ _ (Finset.mem_univ worker)).symm
  have hsame : ∑ other ∈ Finset.univ.erase worker,
      ((m.occupy worker occupation).occupation other).pendingIn key =
        ∑ other ∈ Finset.univ.erase worker,
          (m.occupation other).pendingIn key := by
    apply Finset.sum_congr rfl
    intro other hother
    have hne := Finset.ne_of_mem_erase hother
    simp only [occupy, Function.update_of_ne hne]
  rw [hothers m, hothers (m.occupy worker occupation), hsame]
  simp only [occupy, Function.update_self]
  rw [add_right_comm, add_comm (occupation.pendingIn key), add_right_comm]

end Pending

theorem positionIn_after (key other : Text) (position : Position) :
    (Occupation.after key position).positionIn other =
      if key = other then position else .idle := by
  cases position <;> simp [Occupation.after, Occupation.positionIn]

theorem pendingIn_after (key other : Text) (position : Position) :
    (Occupation.after key position).pendingIn other = 0 := by
  cases position <;> rfl

section Handlers

variable {apps : UnorderedMap Text (Application W)} {appId : ApplicationId}

omit [DecidableEq W] in
/-- A handler is created for the application if it has none, and none is
replaced. -/
theorem find?_getApplicationHandler (key : Text) :
    (getApplicationHandler apps appId).find? key =
      if key = appId.str then
        some ((apps.find? appId.str).getD ⟨.new appId, none⟩)
      else apps.find? key := by
  rw [getApplicationHandler]
  cases hfind : apps.find? appId.str with
  | some app =>
      by_cases hkey : key = appId.str
      · subst hkey
        rw [if_pos rfl, hfind]
        rfl
      · rw [if_neg hkey]
  | none =>
      rw [UnorderedMap.find?_emplace]
      by_cases hkey : key = appId.str
      · rw [if_pos ⟨hkey, UnorderedMap.find?_eq_none.mp hfind⟩, if_pos hkey]
        rfl
      · rw [if_neg fun hboth => hkey hboth.1, if_neg hkey]

end Handlers

section Moves

variable {m n : Manager W} {server : Server W} {worker : W} {key : Text}
  {position : Position} {input : Input} {appId : ApplicationId}

theorem find?_leave (next : Handler × Position) (other : Text) :
    (m.leave worker key next).apps.find? other =
      if other = key then
        some ⟨next.1, if next.2.locked then some worker else none⟩
      else m.apps.find? other := by
  rw [leave, UnorderedMap.find?_insertOrAssign]

theorem occupation_leave (next : Handler × Position) :
    (m.leave worker key next).occupation =
      Function.update m.occupation worker (.after key next.2) := rfl

/-- The worker is at a position of the handler with the key, and nowhere
else. -/
structure Stands (m : Manager W) (worker : W) (key : Text)
    (position : Position) (input : Input) : Prop where
  position : ∀ other, (m.occupation worker).positionIn other =
    if key = other then position else .idle
  pending : ∀ other, (m.occupation worker).pendingIn other =
    if key = other then served (.locked worker input) else 0

/-- What the view has of the workers when one of them moves. -/
theorem Shows.positions (hshows : m.Shows appId server)
    (occupation : Occupation) (other : W) :
    Function.update server.position worker (occupation.positionIn appId.str)
        other =
      (Function.update m.occupation worker occupation other).positionIn
        appId.str := by
  by_cases hother : other = worker
  · subst hother
    rw [Function.update_self, Function.update_self]
  · rw [Function.update_of_ne hother, Function.update_of_ne hother]
    exact hshows.position other

/-- A turn with another handler changes nothing that the application sees. -/
theorem shows_leave_other (hshows : m.Shows appId server)
    (hstands : m.Stands worker key position input)
    (hkey : key ≠ appId.str) (next : Handler × Position) :
    (m.leave worker key next).Shows appId server where
  app := by
    rw [find?_leave, if_neg (Ne.symm hkey)]
    exact hshows.app
  storage := hshows.storage
  position := by
    intro other
    rw [occupation_leave, ← hshows.positions, positionIn_after, if_neg hkey]
    by_cases hother : other = worker
    · subst hother
      rw [Function.update_self, hshows.position, hstands.position, if_neg hkey]
    · rw [Function.update_of_ne hother]
  ended := hshows.ended

/-- A turn with the handler of the application is one of its server. -/
theorem shows_leave (hshows : m.Shows appId server)
    (next : Handler × Position) :
    (m.leave worker appId.str next).Shows appId (server.leave worker next) where
  app := by
    rw [find?_leave, if_pos rfl]
    rfl
  storage := hshows.storage
  position := by
    intro other
    rw [occupation_leave, ← hshows.positions, positionIn_after, if_pos rfl]
    rfl
  ended := hshows.ended

theorem shows_occupy (worker : W) (hshows : m.Shows appId server)
    (occupation : Occupation) :
    (m.occupy worker occupation).Shows appId
      (server.move worker (occupation.positionIn appId.str)) where
  app := hshows.app
  storage := hshows.storage
  position := hshows.positions occupation
  ended := hshows.ended

omit [DecidableEq W] in
/-- The end of the whole server is seen from an application, or not. -/
theorem shows_terminate (hshows : m.Shows appId server) :
    m.terminate.Shows appId server ∧
      m.terminate.Shows appId server.terminate :=
  ⟨⟨hshows.app, hshows.storage, hshows.position, fun _ => rfl⟩,
    ⟨hshows.app, hshows.storage, hshows.position, fun _ => rfl⟩⟩

omit [DecidableEq W] in
theorem Shows.running (hshows : m.Shows appId server)
    (hrunning : ¬ m.terminated = true) : server.terminated = false :=
  Bool.eq_false_of_not_eq_true fun hended => hrunning (hshows.ended hended)

/-- A worker that stays where it is for the application. -/
theorem shows_occupy_same (hshows : m.Shows appId server)
    {occupation : Occupation}
    (hsame : occupation.positionIn appId.str =
      (m.occupation worker).positionIn appId.str) :
    (m.occupy worker occupation).Shows appId server := by
  have hmove : server.move worker (occupation.positionIn appId.str) =
      server := by
    rw [hsame, ← hshows.position, Server.move, Function.update_eq_self]
  rw [← hmove]
  exact shows_occupy worker hshows occupation

end Moves

section Steps

variable [HashOrder Text] [Fintype W] {m n : Manager W} {server : Server W}
  {worker : W} {key : Text} {position : Position} {input : Input}
  {appId : ApplicationId}

omit [Fintype W] in
theorem turn_eq_some :
    m.turn worker key position input = some n ↔
      ∃ app, m.apps.find? key = some app ∧
        (app.appMutex = none ∨ app.appMutex = some worker) ∧
        ((∃ next, app.handler.Turn (m.disk app.handler.appId) position input
            next ∧ n = m.leave worker key next) ∨
          ∃ g, app.handler.Throws (m.disk app.handler.appId) position input g ∧
            n = (m.leave worker key (g, .idle)).terminate) := by
  rw [turn]
  cases m.apps.find? key with
  | none => simp
  | some app =>
      by_cases hlock : app.appMutex = none ∨ app.appMutex = some worker
      · simp only [hlock, if_true, Option.some.injEq, exists_eq_left',
          true_and, ← Handler.turn_eq_ok, ← Handler.turn_eq_error]
        cases app.handler.turn (m.disk app.handler.appId) position input with
        | none => simp
        | some outcome => cases outcome <;> simp [eq_comm]
      · simp [hlock]

/-- The server on the handler of the application takes steps that lead to what
the whole server has now, and serves what it has been asked but for what is
still to be done. -/
def Simulated (n : Manager W) (appId : ApplicationId) (server : Server W)
    (total : Multiset Input) : Prop :=
  ∃ actions reached, runFrom Server.step server actions = some reached ∧
    n.Shows appId reached ∧
    (actions.map served).sum + n.pending appId.str = total

theorem simulated_nothing {total : Multiset Input}
    (hshows : n.Shows appId server) (htotal : n.pending appId.str = total) :
    n.Simulated appId server total :=
  ⟨[], server, rfl, hshows, by simpa using htotal⟩

theorem simulated_action {total : Multiset Input} {reached : Server W}
    {action : Agora.Action W} (hstep : server.step action = some reached)
    (hshows : n.Shows appId reached)
    (htotal : served action + n.pending appId.str = total) :
    n.Simulated appId server total :=
  ⟨[action], reached, by rw [runFrom_cons_of_step hstep]; rfl, hshows,
    by simpa using htotal⟩

omit [HashOrder Text] in
theorem pending_leave (m : Manager W) (worker : W) (key : Text)
    (appId : ApplicationId) (next : Handler × Position) :
    (m.leave worker key next).pending appId.str +
        (m.occupation worker).pendingIn appId.str = m.pending appId.str := by
  have hpending := m.pending_occupy worker (.after key next.2) appId.str
  rw [pendingIn_after, add_zero] at hpending
  exact hpending

theorem simulated_turn (hkeyed : m.Keyed) (hid : appId.Extracted)
    (hshows : m.Shows appId server) (hrunning : server.terminated = false)
    (hstands : m.Stands worker key position input)
    (hturn : m.turn worker key position input = some n) :
    n.Simulated appId server (m.pending appId.str) := by
  obtain ⟨app, hfind, hlock, hturn⟩ := turn_eq_some.mp hturn
  have hpending := m.pending_leave worker key appId
  by_cases hkey : key = appId.str
  · subst hkey
    obtain ⟨hstr, hextracted⟩ := hkeyed.handlers _ app hfind
    have happId := hextracted.eq_of_str hid hstr
    have happ := hshows.app
    rw [hfind, Option.getD_some] at happ
    obtain rfl := happ
    have hposition := hstands.position appId.str
    rw [if_pos rfl, ← hshows.position] at hposition
    rw [happId, ← hshows.storage, ← hposition] at hturn
    rcases hturn with ⟨next, hnext, rfl⟩ | ⟨g, hthrows, rfl⟩
    · have hown := hpending next
      rw [hstands.pending, if_pos rfl, add_comm] at hown
      exact simulated_action (Server.step_locked.mpr
        ⟨hrunning, hlock, .inl ⟨next, hnext, rfl⟩⟩) (shows_leave hshows next)
        hown
    · have hown := hpending (g, .idle)
      rw [hstands.pending, if_pos rfl, add_comm] at hown
      exact simulated_action (Server.step_locked.mpr
        ⟨hrunning, hlock, .inr ⟨g, hthrows, rfl⟩⟩)
        (shows_terminate (shows_leave hshows (g, .idle))).2 hown
  · rcases hturn with ⟨next, -, rfl⟩ | ⟨g, -, rfl⟩
    · have hother := hpending next
      rw [hstands.pending, if_neg hkey, add_zero] at hother
      exact simulated_nothing (shows_leave_other hshows hstands hkey next)
        hother
    · have hother := hpending (g, .idle)
      rw [hstands.pending, if_neg hkey, add_zero] at hother
      exact simulated_nothing (shows_terminate (shows_leave_other hshows
        hstands hkey (g, .idle))).1 hother

omit [DecidableEq W] [HashOrder Text] [Fintype W] in
theorem stands_calling (hkeyed : m.Keyed)
    (hcalling : m.occupation worker = .calling key input) :
    m.Stands worker key .idle input where
  position := by
    intro other
    rw [hcalling, ite_self]
    rfl
  pending := by
    intro other
    rw [hcalling, served, hkeyed.calls worker key input hcalling, if_pos rfl]
    rfl

omit [DecidableEq W] [HashOrder Text] [Fintype W] in
theorem stands_inside (hinside : m.occupation worker = .inside key position) :
    m.Stands worker key position .proceed where
  position := by
    intro other
    rw [hinside]
    rfl
  pending := by
    intro other
    have hnone : served (.locked worker .proceed) = 0 := rfl
    rw [hinside, hnone, ite_self]
    rfl

/-- A worker moves on in a method without the mutex being locked. -/
theorem simulated_move {action : Agora.Action W} {next : Position}
    (hshows : m.Shows appId server)
    (hinside : m.occupation worker = .inside key position)
    (hserved : served action = 0)
    (hstep : server.position worker = position →
      server.step action = some (server.move worker next)) :
    (m.occupy worker (.after key next)).Simulated appId server
      (m.pending appId.str) := by
  have hpending := m.pending_occupy worker (.after key next) appId.str
  rw [hinside, pendingIn_after, add_zero] at hpending
  change _ + 0 = _ at hpending
  rw [add_zero] at hpending
  have hposition := hshows.position worker
  rw [hinside] at hposition
  by_cases hkey : key = appId.str
  · have hshown := shows_occupy worker hshows (.after key next)
    rw [positionIn_after, if_pos hkey] at hshown
    rw [Occupation.positionIn, if_pos hkey] at hposition
    refine simulated_action (hstep hposition) hshown ?_
    rw [hserved, zero_add]
    exact hpending
  · refine simulated_nothing (shows_occupy_same hshows ?_) hpending
    rw [positionIn_after, hinside, Occupation.positionIn, if_neg hkey,
      if_neg hkey]

variable {sorter : NameSort}
  {computeRange : Ptree → Text → Checked (List Text)}

omit [DecidableEq W] [HashOrder Text] [Fintype W] in
/-- The identifier of what is asked by a message is read from its topic. -/
theorem extracted_of_input {message : MessageModel} {handled : Handled}
    (hhandled : handleIncomingMessage message = .ok handled)
    (hinput : handled.input sorter computeRange = some (appId, input)) :
    appId.Extracted ∧ input.isMessage = true := by
  have hboth : handled.appId = some appId ∧ input.isMessage = true := by
    cases handled with
    | welcome id cid info =>
        obtain ⟨rfl, rfl⟩ := Prod.mk.inj (Option.some.inj hinput)
        exact ⟨rfl, rfl⟩
    | kia id cid reason =>
        obtain ⟨rfl, rfl⟩ := Prod.mk.inj (Option.some.inj hinput)
        exact ⟨rfl, rfl⟩
    | observation id cid sec ns values =>
        obtain ⟨rfl, rfl⟩ := Prod.mk.inj (Option.some.inj hinput)
        exact ⟨rfl, rfl⟩
    | _ => contradiction
  obtain ⟨second, -, hread⟩ := exists_of_handled hhandled hboth.1
  exact ⟨extracted_of_getApplicationId hread, hboth.2⟩

theorem simulated_accept (hid : appId.Extracted)
    (hshows : m.Shows appId server) {message : MessageModel}
    {handled : Handled}
    (hhandled : handleIncomingMessage message = .ok handled)
    (hlistening : m.occupation worker = .listening) :
    (m.accept sorter computeRange worker handled).Simulated appId server
      (m.pending appId.str +
        asked sorter computeRange appId (.receive worker message)) := by
  have hidle : ∀ occupation : Occupation,
      occupation.positionIn appId.str = .idle →
        (m.occupy worker occupation).Shows appId server := by
    intro occupation hposition
    apply shows_occupy_same hshows
    rw [hposition, hlistening]
    rfl
  have hpending : ∀ occupation : Occupation,
      (m.occupy worker occupation).pending appId.str =
        m.pending appId.str + occupation.pendingIn appId.str := by
    intro occupation
    have hoccupy := m.pending_occupy worker occupation appId.str
    rw [hlistening] at hoccupy
    change _ + 0 = _ at hoccupy
    rwa [add_zero] at hoccupy
  rw [asked, hhandled]
  cases hinput : handled.input sorter computeRange with
  | none =>
      simp only [accept, hinput]
      split
      · exact simulated_nothing (hidle .retired rfl) (hpending .retired)
      · exact simulated_nothing hshows (add_zero _).symm
  | some found =>
      obtain ⟨other, input⟩ := found
      obtain ⟨hextracted, -⟩ := extracted_of_input hhandled hinput
      simp only [accept, hinput]
      have hcalling := hidle (.calling other.str input) rfl
      refine simulated_nothing ⟨?_, hcalling.storage, hcalling.position,
        hcalling.ended⟩ ?_
      · rw [find?_getApplicationHandler]
        split
        · next hstr =>
            obtain rfl := hextracted.eq_of_str hid hstr.symm
            exact hshows.app
        · exact hshows.app
      · have hasked := hpending (.calling other.str input)
        have hsame : other.str = appId.str ↔ other = appId :=
          ⟨fun hstr => hextracted.eq_of_str hid hstr, fun h => h ▸ rfl⟩
        simp only [Occupation.pendingIn, hsame] at hasked
        exact hasked

/-- A plugin writes to the storage of the application that it works for. -/
theorem simulated_produce {disk : ApplicationId → Storage}
    (hshows : m.Shows appId server) (hrunning : ¬ m.terminated = true)
    (hinside : m.occupation worker = .inside key position)
    (hlearning : position.waited.isSome = true)
    (hown : m.WritesOwn (.produce worker disk)) :
    { m with disk := disk }.Simulated appId server (m.pending appId.str) := by
  by_cases hkey : key = appId.str
  · have hposition := hshows.position worker
    rw [hinside, Occupation.positionIn, if_pos hkey] at hposition
    have hproduce : server.step (.produce worker (disk appId)) =
        some { server with storage := disk appId } := by
      refine Server.step_produce.mpr ⟨hshows.running hrunning, ?_, rfl⟩
      rw [hposition]
      exact hlearning
    exact simulated_action hproduce
      ⟨hshows.app, rfl, hshows.position, hshows.ended⟩ (zero_add _)
  · have hsame := hown key position hinside appId (Ne.symm hkey)
    exact simulated_nothing ⟨hshows.app, hshows.storage.trans hsame.symm,
      hshows.position, hshows.ended⟩ rfl

/-- A plugin that fails ends the whole server, and one that succeeds lets the
worker go on. -/
theorem simulated_wait {returnCode : Int} {next : Position}
    (hshows : m.Shows appId server) (hrunning : ¬ m.terminated = true)
    (hinside : m.occupation worker = .inside key position)
    (hwaited : position.waited = some next) :
    (if returnCode = 0 then m.occupy worker (.after key next)
      else m.terminate).Simulated appId server (m.pending appId.str) := by
  split
  · next hzero =>
      have hserved : served (.wait worker returnCode) = 0 := rfl
      apply simulated_move hshows hinside hserved
      intro hposition
      refine Server.step_wait.mpr ⟨hshows.running hrunning, next, ?_, ?_⟩
      · rw [hposition]
        exact hwaited
      · rw [if_pos hzero]
  · exact simulated_nothing (shows_terminate hshows).1 rfl

/-- One action of the whole server is no action of the server on the handler of
the application, or one. -/
theorem simulated_step {action : Action W} (hkeyed : m.Keyed)
    (hid : appId.Extracted) (hshows : m.Shows appId server)
    (hown : m.WritesOwn action)
    (hstep : m.step sorter computeRange action = some n) :
    n.Simulated appId server
      (m.pending appId.str + asked sorter computeRange appId action) := by
  unfold step at hstep
  split at hstep
  · contradiction
  · next hrunning =>
    cases action with
    | receive worker message =>
        simp only at hstep
        split at hstep
        · next hlistening =>
            split at hstep
            · next handled hhandled =>
                obtain rfl := Option.some.inj hstep
                exact simulated_accept hid hshows hhandled hlistening
            · next reason hreason =>
                obtain rfl := Option.some.inj hstep
                rw [asked, hreason]
                exact simulated_nothing (shows_terminate hshows).1
                  (add_zero _).symm
        · contradiction
    | enter worker =>
        simp only at hstep
        change n.Simulated appId server (m.pending appId.str + 0)
        rw [add_zero]
        split at hstep
        · next key input hcalling =>
            exact simulated_turn hkeyed hid hshows (hshows.running hrunning)
              (stands_calling hkeyed hcalling) hstep
        · contradiction
    | proceed worker =>
        simp only at hstep
        change n.Simulated appId server (m.pending appId.str + 0)
        rw [add_zero]
        split at hstep
        · next key position hinside =>
            exact simulated_turn hkeyed hid hshows (hshows.running hrunning)
              (stands_inside hinside) hstep
        · contradiction
    | parse worker success =>
        simp only at hstep
        change n.Simulated appId server (m.pending appId.str + 0)
        rw [add_zero]
        split at hstep
        · next key cid hinside =>
            obtain rfl := Option.some.inj hstep
            have hserved : served (.parse worker success) = 0 := rfl
            apply simulated_move hshows hinside hserved
            intro hposition
            exact Server.step_parse.mpr
              ⟨hshows.running hrunning, cid, hposition, rfl⟩
        · contradiction
    | produce worker disk =>
        simp only at hstep
        change n.Simulated appId server (m.pending appId.str + 0)
        rw [add_zero]
        split at hstep
        · next key position hinside =>
            split at hstep
            · next hlearning =>
                obtain rfl := Option.some.inj hstep
                exact simulated_produce hshows hrunning hinside hlearning hown
            · contradiction
        · contradiction
    | wait worker returnCode =>
        simp only at hstep
        change n.Simulated appId server (m.pending appId.str + 0)
        rw [add_zero]
        split at hstep
        · next key position hinside =>
            obtain ⟨next, hwaited, rfl⟩ := Option.map_eq_some_iff.mp hstep
            exact simulated_wait hshows hrunning hinside hwaited
        · contradiction

end Steps

section Runs

variable [HashOrder Text] {m n : Manager W} {sorter : NameSort}
  {computeRange : Ptree → Text → Checked (List Text)}

omit [HashOrder Text] in
theorem keyed_occupy (hkeyed : m.Keyed) {worker : W} {occupation : Occupation}
    (hcall : ∀ key input, occupation = .calling key input →
      input.isMessage = true) : (m.occupy worker occupation).Keyed where
  handlers := hkeyed.handlers
  calls := by
    intro other key input hcalling
    by_cases hother : other = worker
    · subst hother
      simp only [occupy, Function.update_self] at hcalling
      exact hcall key input hcalling
    · simp only [occupy, Function.update_of_ne hother] at hcalling
      exact hkeyed.calls other key input hcalling

omit [DecidableEq W] [HashOrder Text] in
theorem after_ne_calling (key other : Text) (position : Position)
    (input : Input) : Occupation.after key position ≠ .calling other input := by
  cases position <;> exact nofun

theorem keyed_turn (hkeyed : m.Keyed) {worker : W} {key : Text}
    {position : Position} {input : Input}
    (hturn : m.turn worker key position input = some n) : n.Keyed := by
  obtain ⟨app, hfind, -, hends⟩ := turn_eq_some.mp hturn
  have hleave : ∀ next : Handler × Position,
      next.1.appId = app.handler.appId →
        (m.leave worker key next).Keyed := by
    intro next hsame
    have hmoved : (m.occupy worker (.after key next.2)).Keyed :=
      keyed_occupy hkeyed fun _ _ hcall =>
        absurd hcall (after_ne_calling _ _ _ _)
    refine ⟨fun other found hfound => ?_, hmoved.calls⟩
    rw [find?_leave] at hfound
    split at hfound
    · next hother =>
        obtain rfl := Option.some.inj hfound
        rw [hsame, hother]
        exact hkeyed.handlers key app hfind
    · exact hkeyed.handlers other found hfound
  rcases hends with ⟨next, hnext, rfl⟩ | ⟨g, hthrows, rfl⟩
  · exact hleave next (Handler.turn_appId hnext)
  · have hkept := hleave (g, .idle) (Handler.fails_of_throws hthrows).appId
    exact ⟨hkept.handlers, hkept.calls⟩

omit [HashOrder Text] in
theorem keyed_accept (hkeyed : m.Keyed) (worker : W) {message : MessageModel}
    {handled : Handled}
    (hhandled : handleIncomingMessage message = .ok handled) :
    (m.accept sorter computeRange worker handled).Keyed := by
  cases hinput : handled.input sorter computeRange with
  | none =>
      simp only [accept, hinput]
      split
      · exact keyed_occupy hkeyed nofun
      · exact hkeyed
  | some found =>
      obtain ⟨appId, input⟩ := found
      obtain ⟨hextracted, hmessage⟩ := extracted_of_input hhandled hinput
      simp only [accept, hinput]
      have hcalling : (m.occupy worker (.calling appId.str input)).Keyed := by
        apply keyed_occupy hkeyed
        intro key other hcall
        obtain ⟨-, rfl⟩ := Occupation.calling.inj hcall
        exact hmessage
      refine ⟨fun key app hfound => ?_, hcalling.calls⟩
      rw [find?_getApplicationHandler] at hfound
      split at hfound
      · next hkey =>
          obtain rfl := Option.some.inj hfound
          cases hfind : m.apps.find? appId.str with
          | none => exact ⟨hkey.symm, hextracted⟩
          | some app =>
              rw [hkey]
              exact hkeyed.handlers _ app hfind
      · exact hkeyed.handlers key app hfound

theorem keyed_step {action : Action W} (hkeyed : m.Keyed)
    (hstep : m.step sorter computeRange action = some n) : n.Keyed := by
  unfold step at hstep
  split at hstep
  · contradiction
  · cases action with
    | receive worker message =>
        simp only at hstep
        split at hstep
        · split at hstep
          · next handled hhandled =>
              obtain rfl := Option.some.inj hstep
              exact keyed_accept hkeyed worker hhandled
          · obtain rfl := Option.some.inj hstep
            exact ⟨hkeyed.handlers, hkeyed.calls⟩
        · contradiction
    | enter worker =>
        simp only at hstep
        split at hstep
        · exact keyed_turn hkeyed hstep
        · contradiction
    | proceed worker =>
        simp only at hstep
        split at hstep
        · exact keyed_turn hkeyed hstep
        · contradiction
    | parse worker success =>
        simp only at hstep
        split at hstep
        · obtain rfl := Option.some.inj hstep
          exact keyed_occupy hkeyed fun _ _ hcall =>
            absurd hcall (after_ne_calling _ _ _ _)
        · contradiction
    | produce worker disk =>
        simp only at hstep
        split at hstep
        · split at hstep
          · obtain rfl := Option.some.inj hstep
            exact ⟨hkeyed.handlers, hkeyed.calls⟩
          · contradiction
        · contradiction
    | wait worker returnCode =>
        simp only at hstep
        split at hstep
        · obtain ⟨next, -, rfl⟩ := Option.map_eq_some_iff.mp hstep
          split
          · exact keyed_occupy hkeyed fun _ _ hcall =>
              absurd hcall (after_ne_calling _ _ _ _)
          · exact ⟨hkeyed.handlers, hkeyed.calls⟩
        · contradiction

variable [Fintype W] {server : Server W} {appId : ApplicationId}

/-- Runs are simulated one action after the other. -/
theorem simulated_run {actions : List (Action W)} (hkeyed : m.Keyed)
    (hid : appId.Extracted) (hshows : m.Shows appId server)
    (hown : AllSteps (step sorter computeRange) WritesOwn m actions)
    (hrun : runFrom (step sorter computeRange) m actions = some n) :
    n.Simulated appId server (m.pending appId.str +
      (actions.map (asked sorter computeRange appId)).sum) := by
  induction actions generalizing m server with
  | nil =>
      obtain rfl : m = n := by simpa using hrun
      exact simulated_nothing hshows (add_zero _).symm
  | cons action rest ih =>
      obtain ⟨next, hstep, hrun⟩ := runFrom_cons_eq_some.mp hrun
      obtain ⟨first, middle, hfirst, hmiddle, hserved⟩ :=
        simulated_step hkeyed hid hshows (hown.head hstep) hstep
      obtain ⟨second, reached, hsecond, hreached, htotal⟩ :=
        ih (keyed_step hkeyed hstep) hmiddle (hown.tail hstep) hrun
      refine ⟨first ++ second, reached, ?_, hreached, ?_⟩
      · exact runFrom_append_eq_some.mpr ⟨middle, hfirst, hsecond⟩
      · rw [List.map_append, List.sum_append, add_assoc, htotal, ← add_assoc,
          hserved, List.map_cons, List.sum_cons, add_assoc]

omit [DecidableEq W] [HashOrder Text] [Fintype W] in
theorem keyed_fresh (disk : ApplicationId → Storage) :
    (fresh disk : Manager W).Keyed where
  handlers := nofun
  calls := nofun

omit [DecidableEq W] [HashOrder Text] in
theorem pending_fresh (disk : ApplicationId → Storage) (key : Text) :
    (fresh disk : Manager W).pending key = 0 := by
  apply Finset.sum_eq_zero
  intro worker _
  rfl

omit [DecidableEq W] [HashOrder Text] [Fintype W] in
theorem shows_fresh (disk : ApplicationId → Storage) (appId : ApplicationId) :
    (fresh disk : Manager W).Shows appId (Server.fresh appId (disk appId)) where
  app := rfl
  storage := rfl
  position := fun _ => rfl
  ended := nofun

/-- Every run of the whole server is, for every application, a run of the
workers on its handler alone.  The handler is created once; it is asked what the
messages for its application ask, each of them once, and nothing else. -/
theorem simulated_of_run {disk : ApplicationId → Storage}
    {actions : List (Action W)} (hid : appId.Extracted)
    (hown : AllSteps (step sorter computeRange) WritesOwn (fresh disk) actions)
    (hrun : runFrom (step sorter computeRange) (fresh disk) actions =
      some m) :
    m.Simulated appId (Server.fresh appId (disk appId))
      (actions.map (asked sorter computeRange appId)).sum := by
  have hsimulated := simulated_run (keyed_fresh disk) hid
    (shows_fresh disk appId) hown hrun
  rwa [pending_fresh, zero_add] at hsimulated

end Runs

end Views

section Shared

open Sample
open Heel.Sample (stableSort)

local instance managingOrder : HashOrder Text := HashOrder.stored Text

/-- A message of the client to the handler of a block. -/
def toBlock (block : String) (type : String) (payload : String) :
    MessageModel :=
  ⟨messageHeader ++ '/' :: ({ appId with blockName := block.toList }.str ++
    '/' :: (type.toList ++ '/' :: client)), payload.toList⟩

/-- Two workers serve clients of two blocks at once. -/
def managing : List (Action Bool) :=
  [.receive true (toBlock "kernel" "welcome" "\x7b\x7d"),
    .receive false (toBlock "other" "kia" ""), .enter false, .enter true]

def managed : Manager Bool :=
  (runFrom (step stableSort fun _ _ => .ok [])
    (fresh fun _ => emptyStorage) managing).get (by decide +kernel)

theorem simulated_of_run_managed : managed.Simulated appId
    (Server.fresh appId emptyStorage)
    (managing.map (asked stableSort (fun _ _ => .ok []) appId)).sum := by
  have hid : getApplicationId appId.str = .ok appId := by decide +kernel
  have hrun : runFrom (step stableSort fun _ _ => .ok [])
      (fresh fun _ => emptyStorage) managing = some managed :=
    (Option.some_get _).symm
  refine simulated_of_run hid ?_ hrun
  intro pre action before after hpre _ _
  have haction : action ∈ managing := hpre.subset (by simp)
  simp only [managing, List.mem_cons, List.not_mem_nil, or_false] at haction
  rcases haction with rfl | rfl | rfl | rfl <;> exact trivial

end Shared

end Manager

end Margot.Agora
