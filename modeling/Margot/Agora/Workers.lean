/-
The workers of the server on the handler of one application.  What a worker
does from a lock of the mutex to the next unlock is one step, or several steps
during which it keeps the mutex; between its steps the others may act.
-/
import Mathlib.Logic.Function.Basic
import Margot.Library.Runs
import Margot.Agora.Handler

namespace Margot.Agora

open Margot.Heel (ApplicationModel)

/-- What makes a worker take the mutex: a message, or the next part of the
method it executes. -/
inductive Input where
  | welcome (cid : ClientId) (app : Option ApplicationModel)
  | bye (cid : ClientId)
  | observation (cid : ClientId)
  | proceed

/-- What a worker does with the handler while it holds the mutex. -/
def Handler.turn [HashOrder Text] (h : Handler) (storage : Storage) :
    Position → Input → Option Outcome
  | .idle, .welcome cid app => some (.ok (h.welcomeClient storage cid app))
  | .idle, .bye cid => some (.ok (h.byeClient cid))
  | .idle, .observation cid => some (.ok (h.processObservation cid))
  | .parsed cid, .proceed => some (h.nextConfiguration cid)
  | .awaiting phase [], .proceed => some (h.continueObservation storage phase)
  | .restarting clients, .proceed => some (h.sendNext clients)
  | .recovering cid phase [], .proceed =>
      some (.ok (h.continueRecovery storage cid phase))
  | .answering cid, .proceed => some (h.answer cid)
  | _, _ => none

/-- The turns of a worker that no exception ends, by the method or the part of
it that is executed. -/
inductive Handler.Turn [HashOrder Text] (h : Handler) (storage : Storage) :
    Position → Input → Handler × Position → Prop where
  | welcome (cid : ClientId) (app : Option ApplicationModel) :
      Turn h storage .idle (.welcome cid app) (h.welcomeClient storage cid app)
  | bye (cid : ClientId) : Turn h storage .idle (.bye cid) (h.byeClient cid)
  | observation (cid : ClientId) :
      Turn h storage .idle (.observation cid) (h.processObservation cid)
  | next (cid : ClientId) {next : Handler × Position}
      (hnext : h.nextConfiguration cid = .ok next) :
      Turn h storage (.parsed cid) .proceed next
  | awaited (phase : Phase) {next : Handler × Position}
      (hnext : h.continueObservation storage phase = .ok next) :
      Turn h storage (.awaiting phase []) .proceed next
  | restart (clients : List ClientId) {next : Handler × Position}
      (hnext : h.sendNext clients = .ok next) :
      Turn h storage (.restarting clients) .proceed next
  | recovered (cid : ClientId) (phase : Phase) :
      Turn h storage (.recovering cid phase []) .proceed
        (h.continueRecovery storage cid phase)
  | answer (cid : ClientId) {next : Handler × Position}
      (hnext : h.answer cid = .ok next) :
      Turn h storage (.answering cid) .proceed next

/-- The turns of a worker that an exception ends, with the handler that they
leave. -/
inductive Handler.Throws [HashOrder Text] (h : Handler) (storage : Storage) :
    Position → Input → Handler → Prop where
  | next (cid : ClientId) {g : Handler}
      (hthrown : h.nextConfiguration cid = .error g) :
      Throws h storage (.parsed cid) .proceed g
  | awaited (phase : Phase) {g : Handler}
      (hthrown : h.continueObservation storage phase = .error g) :
      Throws h storage (.awaiting phase []) .proceed g
  | restart (clients : List ClientId) {g : Handler}
      (hthrown : h.sendNext clients = .error g) :
      Throws h storage (.restarting clients) .proceed g
  | answer (cid : ClientId) {g : Handler}
      (hthrown : h.answer cid = .error g) :
      Throws h storage (.answering cid) .proceed g

section Outcomes

variable [HashOrder Text] {h g : Handler} {storage : Storage}
  {position : Position} {input : Input} {next : Handler × Position}

theorem Handler.turn_eq_ok :
    h.turn storage position input = some (.ok next) ↔
      h.Turn storage position input next := by
  constructor
  · intro hturn
    unfold turn at hturn
    split at hturn
    all_goals first
      | contradiction
      | (obtain rfl := Except.ok.inj (Option.some.inj hturn); constructor)
      | (constructor; exact Option.some.inj hturn)
  · intro hturn
    cases hturn with
    | welcome cid app => rfl
    | bye cid => rfl
    | observation cid => rfl
    | recovered cid phase => rfl
    | next cid hnext => exact congrArg some hnext
    | awaited phase hnext => exact congrArg some hnext
    | restart clients hnext => exact congrArg some hnext
    | answer cid hnext => exact congrArg some hnext

theorem Handler.turn_eq_error :
    h.turn storage position input = some (.error g) ↔
      h.Throws storage position input g := by
  constructor
  · intro hturn
    unfold turn at hturn
    split at hturn
    all_goals first
      | contradiction
      | (constructor; exact Option.some.inj hturn)
      | cases Option.some.inj hturn
  · intro hthrows
    cases hthrows with
    | next cid hthrown => exact congrArg some hthrown
    | awaited phase hthrown => exact congrArg some hthrown
    | restart clients hthrown => exact congrArg some hthrown
    | answer cid hthrown => exact congrArg some hthrown

theorem Handler.Throws.input_eq
    (hthrows : h.Throws storage position input g) : input = .proceed := by
  cases hthrows <;> rfl

end Outcomes

/-- The position after one more plugin has been waited for. -/
def Position.waited : Position → Option Position
  | .awaiting phase (_ :: plugins) => some (.awaiting phase plugins)
  | .recovering cid phase (_ :: plugins) =>
      some (.recovering cid phase plugins)
  | _ => none

/-- A learning phase is in progress: some of its plugins have not been waited
for. -/
def Position.learning (position : Position) : Prop :=
  position.waited.isSome = true

/-- Waiting for a plugin changes nothing but the list of those left. -/
theorem Position.waited_cases {position next : Position}
    (hwaited : position.waited = some next) :
    (∃ phase plugin plugins, position = .awaiting phase (plugin :: plugins) ∧
      next = .awaiting phase plugins) ∨
    (∃ cid phase plugin plugins,
      position = .recovering cid phase (plugin :: plugins) ∧
      next = .recovering cid phase plugins) := by
  unfold waited at hwaited
  split at hwaited
  · next phase plugin plugins =>
      exact .inl ⟨phase, plugin, plugins, rfl, (Option.some.inj hwaited).symm⟩
  · next cid phase plugin plugins =>
      exact .inr ⟨cid, phase, plugin, plugins, rfl,
        (Option.some.inj hwaited).symm⟩
  · contradiction

theorem Position.locked_of_waited {position next : Position}
    (hwaited : position.waited = some next) :
    next.locked = position.locked := by
  rcases waited_cases hwaited with ⟨phase, plugin, plugins, rfl, rfl⟩ |
    ⟨cid, phase, plugin, plugins, rfl, rfl⟩ <;> rfl

structure Server (W : Type) where
  handler : Handler
  storage : Storage
  appMutex : Option W
  position : W → Position
  /-- An exception has left the task of a worker. -/
  terminated : Bool

inductive Action (W : Type) where
  | locked (worker : W) (input : Input)
  /-- The observation is parsed, and stored if it could be. -/
  | parse (worker : W) (success : Bool)
  /-- A running plugin writes its files. -/
  | produce (worker : W) (storage : Storage)
  /-- `Launcher::wait` for the next plugin. -/
  | wait (worker : W) (returnCode : Int)

namespace Server

variable {W : Type} [DecidableEq W]

def fresh (appId : ApplicationId) (storage : Storage) : Server W :=
  ⟨.new appId, storage, none, fun _ => .idle, false⟩

def move (s : Server W) (worker : W) (position : Position) : Server W :=
  { s with position := Function.update s.position worker position }

@[simp] theorem position_move (s : Server W) (worker : W)
    (position : Position) :
    (s.move worker position).position =
      Function.update s.position worker position := rfl

/-- The mutex is free, or the worker holds it. -/
def mayLock (s : Server W) (worker : W) : Prop :=
  s.appMutex = none ∨ s.appMutex = some worker

instance (s : Server W) (worker : W) : Decidable (s.mayLock worker) :=
  inferInstanceAs (Decidable (_ ∨ _))

/-- The worker leaves the handler as it is now, and keeps the mutex if it is
not done. -/
def leave (s : Server W) (worker : W) (next : Handler × Position) : Server W :=
  { s.move worker next.2 with
    handler := next.1
    appMutex := if next.2.locked then some worker else none }

/-- An exception has escaped: nothing in memory is used any more. -/
def terminate (s : Server W) : Server W := { s with terminated := true }

section Step

variable [HashOrder Text]

def step (s : Server W) (action : Action W) : Option (Server W) :=
  if s.terminated then none
  else
    match action with
    | .locked worker input =>
        if s.mayLock worker then
          (s.handler.turn s.storage (s.position worker) input).map fun
            | .ok next => s.leave worker next
            | .error handler => (s.leave worker (handler, .idle)).terminate
        else none
    | .parse worker success =>
        match s.position worker with
        | .observed cid =>
            some (s.move worker (if success then .parsed cid else .idle))
        | _ => none
    | .produce worker storage =>
        if (s.position worker).waited.isSome then
          some { s with storage := storage }
        else none
    | .wait worker returnCode =>
        (s.position worker).waited.map fun position =>
          if returnCode = 0 then s.move worker position else s.terminate

variable {s t : Server W} {worker : W}

theorem step_locked {input : Input} :
    s.step (.locked worker input) = some t ↔
      s.terminated = false ∧ s.mayLock worker ∧
        ((∃ next, s.handler.Turn s.storage (s.position worker) input next ∧
            t = s.leave worker next) ∨
          ∃ g, s.handler.Throws s.storage (s.position worker) input g ∧
            t = (s.leave worker (g, .idle)).terminate) := by
  rw [step]
  cases s.terminated with
  | true => simp
  | false =>
      by_cases hlock : s.mayLock worker
      · simp only [hlock, ← Handler.turn_eq_ok, ← Handler.turn_eq_error]
        cases s.handler.turn s.storage (s.position worker) input with
        | none => simp
        | some outcome => cases outcome <;> simp [eq_comm]
      · simp [hlock]

theorem step_parse {success : Bool} :
    s.step (.parse worker success) = some t ↔
      s.terminated = false ∧ ∃ cid, s.position worker = .observed cid ∧
        t = s.move worker (if success then .parsed cid else .idle) := by
  rw [step]
  cases s.terminated with
  | true => simp
  | false => cases s.position worker <;> simp [eq_comm]

theorem step_produce {storage : Storage} :
    s.step (.produce worker storage) = some t ↔
      s.terminated = false ∧ (s.position worker).learning ∧
        t = { s with storage := storage } := by
  rw [step, Position.learning]
  cases s.terminated with
  | true => simp
  | false => cases (s.position worker).waited <;> simp [eq_comm]

theorem step_wait {returnCode : Int} :
    s.step (.wait worker returnCode) = some t ↔
      s.terminated = false ∧ ∃ position,
        (s.position worker).waited = some position ∧
        t = if returnCode = 0 then s.move worker position
          else s.terminate := by
  rw [step]
  cases s.terminated with
  | true => simp
  | false => cases (s.position worker).waited <;> simp [eq_comm]

end Step

/-- A worker that is stopped with the mutex holds it. -/
def Holding (s : Server W) : Prop :=
  ∀ worker, (s.position worker).locked = true → s.appMutex = some worker

omit [DecidableEq W] in
/-- Nobody else holds the mutex that a worker may lock. -/
theorem Holding.not_locked {s : Server W} {worker other : W}
    (hholding : s.Holding) (hlock : s.mayLock worker) (hne : other ≠ worker) :
    (s.position other).locked = false := by
  by_contra hlocked
  have hother := hholding other (Bool.eq_true_of_not_eq_false hlocked)
  rcases hlock with hfree | hself
  · rw [hfree] at hother
    contradiction
  · rw [hself] at hother
    exact hne (Option.some.inj hother).symm

theorem Holding.leave {s : Server W} {worker : W} (hholding : s.Holding)
    (hlock : s.mayLock worker) (next : Handler × Position) :
    (s.leave worker next).Holding := by
  intro other hlocked
  simp only [Server.leave, position_move] at hlocked ⊢
  by_cases hother : other = worker
  · subst hother
    rw [Function.update_self] at hlocked
    rw [if_pos hlocked]
  · rw [Function.update_of_ne hother] at hlocked
    have hfree := hholding.not_locked hlock hother
    rw [hlocked] at hfree
    contradiction

omit [DecidableEq W] in
theorem Holding.terminate {s : Server W} (hholding : s.Holding) :
    s.terminate.Holding := hholding

theorem Holding.move {s : Server W} {worker : W} (hholding : s.Holding)
    {position : Position}
    (hsame : position.locked = (s.position worker).locked) :
    (s.move worker position).Holding := by
  intro other hlocked
  rw [position_move] at hlocked
  by_cases hother : other = worker
  · subst hother
    rw [Function.update_self, hsame] at hlocked
    exact hholding other hlocked
  · rw [Function.update_of_ne hother] at hlocked
    exact hholding other hlocked

end Server

/-! ### A small application -/

namespace Sample

open Margot.Heel (BlockModel AgoraModel)

/-- A block with one metric and no features. -/
def block (numberConfigurationsPerIteration : Text) : BlockModel :=
  { BlockModel.initial with
    name := "kernel".toList
    metrics := [⟨"time".toList, "float".toList, false, "lm".toList,
      "clock".toList, 0, []⟩]
    agora := { AgoraModel.initial with
      numberConfigurationsPerIteration := numberConfigurationsPerIteration } }

def app (numberConfigurationsPerIteration : Text) : ApplicationModel :=
  ⟨"app".toList, "1.0".toList, [block numberConfigurationsPerIteration]⟩

def appId : ApplicationId :=
  ⟨"app".toList, "1.0".toList, "kernel".toList⟩

/-- A storage with a DOE of one configuration and nothing else. -/
def explorable (explorations : Int) : Storage where
  loadDoe := fun _ => ⟨[⟨"0".toList, .empty, explorations⟩]⟩
  loadCluster := fun _ => .clear
  loadPrediction := fun _ => .clear
  isModelValid := fun _ => false

/-- A storage in which nothing is found. -/
def emptyStorage : Storage :=
  { explorable 1 with loadDoe := fun _ => .clear }

def client : ClientId := "1".toList

variable {W : Type}

/-- A worker serves the welcome of the client to its end. -/
def welcome (worker : W) (numberConfigurationsPerIteration : Text) :
    List (Action W) :=
  [.locked worker (.welcome client
      (some (app numberConfigurationsPerIteration))),
    .locked worker .proceed]

/-- A worker stores an observation of the client. -/
def observe (worker : W) : List (Action W) :=
  [.locked worker (.observation client), .parse worker true]

end Sample

end Margot.Agora
