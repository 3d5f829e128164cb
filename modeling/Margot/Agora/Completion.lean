/-
The calls of all the workers on the handler of an application.  Without a new
message they come to an end, in whatever order the workers act, unless an
exception ends the server: nobody waits for the mutex for ever, and what is left
to do is bounded.
-/
import Mathlib.Algebra.BigOperators.Group.Finset.Basic
import Mathlib.Algebra.Order.BigOperators.Group.Finset
import Mathlib.Data.Fintype.Basic
import Margot.Library.Progress
import Margot.Agora.Clueless
import Margot.Agora.Containment
import Margot.Agora.ObservationTable

namespace Margot.Agora

/-- The input comes with a message. -/
def Input.isMessage : Input → Bool
  | .proceed => false
  | _ => true

namespace Handler

variable [HashOrder Text] {h g : Handler} {storage : Storage}
  {position : Position} {next : Handler × Position}

theorem turn_activeClients (hturn : h.Turn storage position .proceed next) :
    next.1.activeClients = h.activeClients := by
  cases hturn with
  | next cid hnext => exact (advances_of_nextConfiguration hnext).activeClients
  | awaited phase hnext =>
      exact (continues_continueObservation hnext).activeClients.1
  | restart clients hnext => exact sendNext_activeClients hnext
  | recovered cid phase =>
      exact (h.recovers_continueRecovery storage cid phase).keeps.activeClients
  | answer cid hnext => exact (answers_of_answer hnext).activeClients

/-- What is left of a call depends on the clients and on the metrics. -/
theorem remaining_congr (hclients : g.activeClients = h.activeClients)
    (hdescription : g.description = h.description) (position : Position) :
    g.remaining position = h.remaining position := by
  have hsame : g.clients = h.clients := by
    rw [clients, clients, hclients]
  have hmodels : g.models = h.models := by
    rw [models, models, modelConfigs, modelConfigs, hdescription]
  cases position with
  | awaiting phase plugins => cases phase <;> simp [remaining, hsame]
  | recovering cid phase plugins => cases phase <;> simp [remaining]
  | _ => simp [remaining, hsame, hmodels]

/-- The calls of the others are as far from their ends as before. -/
theorem remaining_frame (hturn : h.Turn storage position .proceed next)
    (other : Position) : next.1.remaining other = h.remaining other :=
  remaining_congr (turn_activeClients hturn) (turn_description hturn rfl) other

theorem Fails.remaining_frame (hfails : h.Fails position g)
    (other : Position) : g.remaining other = h.remaining other :=
  remaining_congr hfails.activeClients hfails.description other

end Handler

namespace Server

variable {W : Type}

/-- What the workers do without a new message, while their plugins succeed. -/
def Internal : Action W → Prop
  | .locked _ input => input.isMessage = false
  | .wait _ returnCode => returnCode = 0
  | _ => True

/-- The action brings a worker forward in its call. -/
def forward : Action W → Bool
  | .produce _ _ => false
  | _ => true

/-- Every call is over, and the mutex is free. -/
structure AtRest (s : Server W) : Prop where
  idle : ∀ worker, s.position worker = .idle
  free : s.appMutex = none

/-- The mutex is held by a worker that needs it, and by nobody else. -/
structure Manned (s : Server W) : Prop where
  holding : s.Holding
  needed : ∀ worker, s.appMutex = some worker →
    (s.position worker).locked = true

section Invariant

variable [DecidableEq W] {s t : Server W} {worker : W}

theorem Manned.move (hs : s.Manned) {position : Position}
    (hsame : position.locked = (s.position worker).locked) :
    (s.move worker position).Manned where
  holding := hs.holding.move hsame
  needed := by
    intro other hmutex
    have hlocked := hs.needed other hmutex
    rw [position_move]
    by_cases hother : other = worker
    · subst hother
      rw [Function.update_self, hsame]
      exact hlocked
    · rw [Function.update_of_ne hother]
      exact hlocked

theorem Manned.leave (hs : s.Manned) (hlock : s.mayLock worker)
    (next : Handler × Position) : (s.leave worker next).Manned where
  holding := hs.holding.leave hlock next
  needed := by
    intro other hmutex
    simp only [Server.leave, position_move] at hmutex ⊢
    split at hmutex
    · next hlocked =>
        obtain rfl := Option.some.inj hmutex
        rw [Function.update_self]
        exact hlocked
    · contradiction

omit [DecidableEq W] in
theorem Manned.terminate (hs : s.Manned) : s.terminate.Manned :=
  ⟨hs.holding, hs.needed⟩

variable [HashOrder Text]

theorem running_of_step {action : Action W}
    (hstep : s.step action = some t) : s.terminated = false := by
  by_contra hended
  unfold step at hstep
  rw [if_pos (Bool.eq_true_of_not_eq_false hended)] at hstep
  contradiction

/-- Any step keeps the mutex in order. -/
theorem manned_step {action : Action W} (hs : s.Manned)
    (hstep : s.step action = some t) : t.Manned := by
  cases action with
  | locked worker input =>
      obtain ⟨-, hlock, ⟨next, -, rfl⟩ | ⟨g, -, rfl⟩⟩ := step_locked.mp hstep
      · exact hs.leave hlock next
      · exact (hs.leave hlock (g, .idle)).terminate
  | parse worker success =>
      obtain ⟨-, cid, hposition, rfl⟩ := step_parse.mp hstep
      apply hs.move
      rw [hposition]
      split <;> rfl
  | produce worker storage =>
      obtain ⟨-, -, rfl⟩ := step_produce.mp hstep
      exact ⟨hs.holding, hs.needed⟩
  | wait worker returnCode =>
      obtain ⟨-, position, hwaited, rfl⟩ := step_wait.mp hstep
      split
      · exact hs.move (Position.locked_of_waited hwaited)
      · exact hs.terminate

omit [DecidableEq W] [HashOrder Text] in
theorem manned_fresh (appId : ApplicationId) (storage : Storage) :
    (fresh appId storage : Server W).Manned where
  holding := nofun
  needed := nofun

theorem manned_of_run {appId : ApplicationId} {storage : Storage}
    {actions : List (Action W)}
    (hrun : runFrom step (fresh appId storage) actions = some s) : s.Manned :=
  runFrom_kept Manned (fun _ _ _ => manned_step) (manned_fresh appId storage)
    hrun

end Invariant

section Progress

variable [DecidableEq W] [HashOrder Text] {s : Server W} {worker : W}

/-- A busy worker that may lock the mutex can go on. -/
theorem forward_of_busy (hrunning : s.terminated = false)
    (hlock : s.mayLock worker) (hbusy : s.position worker ≠ .idle) :
    ∃ action t, Internal action ∧ forward action = true ∧
      s.step action = some t := by
  obtain ⟨action, t, -, haction, hstep⟩ := exists_step hrunning hlock hbusy
  refine ⟨action, t, ?_, ?_, hstep⟩
  · rcases haction with rfl | rfl | rfl
    · exact rfl
    · exact trivial
    · exact rfl
  · rcases haction with rfl | rfl | rfl <;> rfl

/-- There is nothing to be done, or nobody left to do it. -/
def Stopped (s : Server W) : Prop := s.AtRest ∨ s.terminated = true

/-- The worker that holds the mutex can go on, and any other can if nobody
does. -/
theorem Manned.progress (hs : s.Manned) :
    s.Stopped ∨ ∃ action t, Internal action ∧ forward action = true ∧
      s.step action = some t := by
  cases hended : s.terminated with
  | true => exact .inl (.inr hended)
  | false =>
      cases hmutex : s.appMutex with
      | some worker =>
          apply Or.inr
          apply forward_of_busy hended (.inr hmutex : s.mayLock worker)
          intro hidle
          have hlocked := hs.needed worker hmutex
          rw [hidle] at hlocked
          contradiction
      | none =>
          by_cases hidle : ∀ worker, s.position worker = .idle
          · exact .inl (.inl ⟨hidle, hmutex⟩)
          · rw [not_forall] at hidle
            obtain ⟨worker, hbusy⟩ := hidle
            exact .inr (forward_of_busy hended (.inl hmutex) hbusy)

/-- Without the failure of a plugin only an exception ends the server. -/
theorem throws_of_ended {t : Server W} {action : Action W}
    (hinternal : Internal action) (hstep : s.step action = some t)
    (hended : t.terminated = true) :
    ∃ worker g, action = .locked worker .proceed ∧
      s.handler.Throws s.storage (s.position worker) .proceed g := by
  have hrunning := running_of_step hstep
  cases action with
  | locked worker input =>
      obtain ⟨-, -, ⟨next, -, rfl⟩ | ⟨g, hthrows, rfl⟩⟩ :=
        step_locked.mp hstep
      · exact absurd (hended.symm.trans hrunning) Bool.true_eq_false.mp
      · obtain rfl := hthrows.input_eq
        exact ⟨worker, g, rfl, hthrows⟩
  | parse worker success =>
      obtain ⟨-, cid, -, rfl⟩ := step_parse.mp hstep
      exact absurd (hended.symm.trans hrunning) Bool.true_eq_false.mp
  | produce worker storage =>
      obtain ⟨-, -, rfl⟩ := step_produce.mp hstep
      exact absurd (hended.symm.trans hrunning) Bool.true_eq_false.mp
  | wait worker returnCode =>
      obtain ⟨-, position, -, rfl⟩ := step_wait.mp hstep
      have hzero : returnCode = 0 := hinternal
      rw [if_pos hzero] at hended
      exact absurd (hended.symm.trans hrunning) Bool.true_eq_false.mp

end Progress

section Bound

variable [DecidableEq W] [HashOrder Text] [Fintype W] {s t : Server W}

/-- What the workers have left to do in their calls. -/
def workload (s : Server W) : Nat :=
  ∑ worker, s.handler.remaining (s.position worker)

/-- One worker comes closer to the end of its call, the others stay where they
are. -/
theorem workload_lt (worker : W)
    (hself : t.handler.remaining (t.position worker) <
      s.handler.remaining (s.position worker))
    (hothers : ∀ other, other ≠ worker →
      t.handler.remaining (t.position other) =
        s.handler.remaining (s.position other)) :
    t.workload < s.workload := by
  apply Finset.sum_lt_sum
  · intro other _
    by_cases hother : other = worker
    · subst hother
      exact hself.le
    · exact (hothers other hother).le
  · exact ⟨worker, Finset.mem_univ worker, hself⟩

theorem workload_move {worker : W} {position : Position}
    (hless : s.handler.remaining position <
      s.handler.remaining (s.position worker)) :
    (s.move worker position).workload < s.workload := by
  apply workload_lt worker
  · rw [position_move, Function.update_self]
    exact hless
  · intro other hother
    rw [position_move, Function.update_of_ne hother]
    rfl

theorem workload_step {action : Action W} (hinternal : Internal action)
    (hforward : forward action = true) (hstep : s.step action = some t) :
    t.workload < s.workload := by
  cases action with
  | locked worker input =>
      obtain rfl : input = .proceed := by
        cases input with
        | proceed => rfl
        | _ => contradiction
      obtain ⟨-, -, ⟨next, hturn, rfl⟩ | ⟨g, hthrows, rfl⟩⟩ :=
        step_locked.mp hstep
      · apply workload_lt worker
        · simp only [leave, position_move, Function.update_self]
          exact Handler.remaining_turn hturn
        · intro other hother
          simp only [leave, position_move, Function.update_of_ne hother]
          exact Handler.remaining_frame hturn _
      · have hfails := Handler.fails_of_throws hthrows
        apply workload_lt worker
        · simp only [terminate, leave, position_move, Function.update_self]
          exact hfails.remaining_pos
        · intro other hother
          simp only [terminate, leave, position_move,
            Function.update_of_ne hother]
          exact hfails.remaining_frame _
  | parse worker success =>
      obtain ⟨-, cid, hposition, rfl⟩ := step_parse.mp hstep
      apply workload_move
      rw [hposition]
      cases success with
      | true => exact Nat.lt_succ_self _
      | false => exact Nat.zero_lt_succ _
  | produce worker storage => contradiction
  | wait worker returnCode =>
      obtain ⟨-, position, hwaited, rfl⟩ := step_wait.mp hstep
      have hzero : returnCode = 0 := hinternal
      rw [if_pos hzero]
      exact workload_move (Handler.remaining_waited hwaited)

/-- A plugin that writes its files adds nothing to what is to be done. -/
theorem workload_le {action : Action W} (hinternal : Internal action)
    (hstep : s.step action = some t) : t.workload ≤ s.workload := by
  cases hforward : forward action with
  | true => exact (workload_step hinternal hforward hstep).le
  | false =>
      cases action with
      | produce worker storage =>
          obtain ⟨-, -, rfl⟩ := step_produce.mp hstep
          exact le_refl _
      | _ => contradiction

theorem descends :
    Descends (step (W := W)) Manned Internal forward workload where
  kept _ _ _ hbefore _ hstep := manned_step hbefore hstep
  less _ _ _ _ hinternal hforward hstep :=
    workload_step hinternal hforward hstep
  le _ _ _ _ hinternal hstep := workload_le hinternal hstep

/-- The calls in progress come to an end in whatever order the workers act: they
take a bounded number of steps, and as long as one of them is not over, some
worker can go on, unless the exception of a message that cannot be composed, or
of a launcher that is missing, has ended the server. -/
structure Completes (s : Server W) : Prop where
  bounded : ∀ actions t, (∀ action ∈ actions, Internal action) →
    runFrom step s actions = some t → actions.countP forward ≤ s.workload
  progress : ∀ actions t, (∀ action ∈ actions, Internal action) →
    runFrom step s actions = some t → t.Stopped ∨
      ∃ action u, Internal action ∧ forward action = true ∧
        t.step action = some u
  rests : ∃ actions t, (∀ action ∈ actions, Internal action) ∧
    runFrom step s actions = some t ∧ t.Stopped
  ended : ∀ actions t, (∀ action ∈ actions, Internal action) →
    runFrom step s actions = some t → t.terminated = true →
      ∃ before worker g, runFrom step s actions.dropLast = some before ∧
        before.handler.Throws before.storage (before.position worker) .proceed g

theorem Manned.completes (hs : s.Manned) (hrunning : s.terminated = false) :
    s.Completes where
  bounded := by
    intro actions t hinternal hrun
    obtain ⟨-, hcount⟩ := descends.run hs hinternal hrun
    omega
  progress := by
    intro actions t hinternal hrun
    exact (descends.run hs hinternal hrun).1.progress
  rests := descends.exists_rest (fun _ => Manned.progress) hs
  ended := by
    intro actions t hinternal hrun hended
    rcases List.eq_nil_or_concat actions with rfl | ⟨pre, action, rfl⟩
    · obtain rfl : s = t := by simpa using hrun
      rw [hrunning] at hended
      contradiction
    · rw [List.concat_eq_append] at hrun hinternal ⊢
      obtain ⟨before, hbefore, hlast⟩ := runFrom_append_eq_some.mp hrun
      obtain ⟨after, hstep, hnil⟩ := runFrom_cons_eq_some.mp hlast
      obtain rfl : after = t := by simpa using hnil
      obtain ⟨worker, g, -, hthrows⟩ :=
        throws_of_ended (hinternal action (by simp)) hstep hended
      refine ⟨before, worker, g, ?_, hthrows⟩
      rw [List.dropLast_concat]
      exact hbefore

end Bound

section Crowd

open Sample

local instance completingOrder : HashOrder Text := HashOrder.stored Text

/-- One worker holds the mutex while a DOE is built for the client. -/
def building : List (Action Bool) :=
  [.locked true (.welcome client (some (app "1".toList)))]

def built : Server Bool :=
  (runFrom step (fresh appId emptyStorage) building).get (by decide +kernel)

end Crowd

end Server

end Margot.Agora
