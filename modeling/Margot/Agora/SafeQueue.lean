/-
The synchronized queue that the messages go through.  Threads call its methods
in any number; a method executes its statements one by one while it holds the
mutex of the queue, and the others may act between any two of them.
-/
import Margot.Library.Monitor
import Margot.Library.Runs

namespace Margot.Agora

namespace SafeQueue

inductive Method (T : Type) where
  | sendTerminateSignal
  | clearTerminateSignal
  | dequeue
  | enqueue (inputJob : T)
deriving Repr, DecidableEq

/-- What a method is about to return. -/
inductive Answer (T : Type) where
  | nothing
  | terminated
  | job (outputJob : T)
deriving Repr, DecidableEq

def Answer.jobs {T : Type} : Answer T → List T
  | .job outputJob => [outputJob]
  | _ => []

inductive Position (T : Type) where
  | outside
  /-- The mutex is asked for. -/
  | calling (method : Method T)
  /-- At the first statement; for `dequeue`, at the test of its loop. -/
  | started (method : Method T)
  /-- In the wait of the loop of `dequeue`. -/
  | waiting
  /-- Out of the loop of `dequeue`. -/
  | ready
  | notifying
  | notifyingAll
  | returning (answer : Answer T)
deriving Repr, DecidableEq

/-- What a thread has taken out and is about to return. -/
def Position.jobs {T : Type} : Position T → List T
  | .returning answer => answer.jobs
  | _ => []

/-- The thread holds the mutex. -/
def Position.Locked {T : Type} : Position T → Prop
  | outside | calling _ | waiting => False
  | _ => True

end SafeQueue

open SafeQueue

/-- The queue with the threads that use it, and the jobs that went in and came
out so far. -/
structure SafeQueue (W T : Type) where
  /-- The front comes first. -/
  jobQueue : List T
  signalTerminate : Bool
  monitor : Monitor W
  position : W → Position T
  enqueued : List T
  dequeued : List T

namespace SafeQueue

inductive Action (W T : Type) where
  | call (w : W) (method : Method T)
  | lock (w : W)
  /-- The next statement under the mutex, and the thread that is woken if it
  notifies one. -/
  | execute (w : W) (woken : Option W)
  | spuriousWakeUp (w : W)

variable {W T : Type} [DecidableEq W]

def new : SafeQueue W T :=
  ⟨[], false, .free, fun _ => .outside, [], []⟩

def move (s : SafeQueue W T) (w : W) (p : Position T) : SafeQueue W T :=
  { s with position := Function.update s.position w p }

@[simp] theorem position_move (s : SafeQueue W T) (w : W) (p : Position T) :
    (s.move w p).position = Function.update s.position w p := rfl

/-- One statement of the thread that holds the mutex.  `none` is a thread that
has no such statement, or `back` of an empty container. -/
def execute (s : SafeQueue W T) (w : W) (woken : Option W) :
    Option (SafeQueue W T) :=
  match s.position w with
  | .started .sendTerminateSignal =>
      some ({ s with signalTerminate := true }.move w .notifyingAll)
  | .notifyingAll =>
      some ({ s with monitor := s.monitor.notifyAll }.move w
        (.returning .nothing))
  | .started .clearTerminateSignal =>
      some ({ s with signalTerminate := false }.move w (.returning .nothing))
  | .started .dequeue =>
      if !s.signalTerminate && s.jobQueue.isEmpty then
        (s.monitor.wait w).map fun monitor =>
          { s with monitor := monitor }.move w .waiting
      else some (s.move w .ready)
  | .ready =>
      if s.signalTerminate then some (s.move w (.returning .terminated))
      else
        s.jobQueue.getLast?.map fun outputJob =>
          { s with jobQueue := s.jobQueue.dropLast }.move w
            (.returning (.job outputJob))
  | .started (.enqueue inputJob) =>
      some ({ s with
        jobQueue := inputJob :: s.jobQueue
        enqueued := s.enqueued ++ [inputJob] }.move w .notifying)
  | .notifying =>
      (s.monitor.notifyOne woken).map fun monitor =>
        { s with monitor := monitor }.move w (.returning .nothing)
  | .returning answer =>
      (s.monitor.unlock w).map fun monitor =>
        { s with
          monitor := monitor
          dequeued := s.dequeued ++ answer.jobs }.move w .outside
  | _ => none

def step (s : SafeQueue W T) : Action W T → Option (SafeQueue W T)
  | .call w method =>
      match s.position w with
      | .outside => some (s.move w (.calling method))
      | _ => none
  | .lock w =>
      match s.position w with
      | .calling method => (s.monitor.lock w).map fun monitor =>
          { s with monitor := monitor }.move w (.started method)
      | .waiting => (s.monitor.lock w).map fun monitor =>
          { s with monitor := monitor }.move w (.started .dequeue)
      | _ => none
  | .execute w woken => s.execute w woken
  | .spuriousWakeUp w => (s.monitor.wake w).map fun monitor =>
      { s with monitor := monitor }

/-- The job that the thread with the mutex is about to return, if there is
one. -/
def inReturn (s : SafeQueue W T) : List T :=
  ((s.monitor.held s.position).map Position.jobs).getD []

/-- The jobs come out in the order they went in, those that did not come out
are stored in that order, and a thread that returns false does so while the
termination signal is set. -/
structure Delivers (s : SafeQueue W T) : Prop where
  inOrder : s.dequeued <+: s.enqueued
  stored : s.enqueued = s.dequeued ++ s.inReturn ++ s.jobQueue.reverse
  available : ∀ w, s.position w = .ready → s.signalTerminate = false →
    s.jobQueue ≠ []
  terminated : ∀ w, s.position w = .returning .terminated →
    s.signalTerminate = true

/-- What the thread that holds the mutex knows from its tests, by its
position. -/
def Tested (s : SafeQueue W T) : Option (Position T) → Prop
  | some .ready => s.signalTerminate = false → s.jobQueue ≠ []
  | some (.returning .terminated) => s.signalTerminate = true
  | _ => True

structure Inv (s : SafeQueue W T) : Prop where
  exclusive : s.monitor.Exclusive Position.Locked s.position
  stored : s.enqueued = s.dequeued ++ s.inReturn ++ s.jobQueue.reverse
  tested : s.Tested (s.monitor.held s.position)

section Invariant

variable {s next : SafeQueue W T} {w : W} {p : Position T}

omit [DecidableEq W] in
theorem delivers_of_inv (hinv : s.Inv) : s.Delivers := by
  have htested : ∀ w, (s.position w).Locked → s.Tested (some (s.position w)) :=
    fun w hlocked => hinv.exclusive.held_eq hlocked ▸ hinv.tested
  refine ⟨?_, hinv.stored, ?_, ?_⟩
  · rw [hinv.stored, List.append_assoc]
    exact List.prefix_append _ _
  · intro w hready
    have hw := htested w (hready ▸ trivial)
    rw [hready] at hw
    exact hw
  · intro w hterminated
    have hw := htested w (hterminated ▸ trivial)
    rw [hterminated] at hw
    exact hw

omit [DecidableEq W] in
theorem inv_new : (new : SafeQueue W T).Inv :=
  ⟨fun w => by simp [new, Position.Locked, Monitor.free], rfl, trivial⟩

/-- The thread with the mutex goes on to its next statement. -/
theorem inv_advance (hinv : s.Inv) (hlocked : (s.position w).Locked)
    {data : SafeQueue W T} (hposition : data.position = s.position)
    (hholder : data.monitor.holder = s.monitor.holder) (hp : p.Locked)
    (hstored : data.enqueued =
      data.dequeued ++ p.jobs ++ data.jobQueue.reverse)
    (htested : data.Tested (some p)) : (data.move w p).Inv := by
  have hheld : (data.move w p).monitor.held (data.move w p).position = some p :=
    Monitor.held_update_self (hholder.trans ((hinv.exclusive w).mp hlocked))
  refine ⟨?_, ?_, ?_⟩
  · rw [position_move, hposition]
    exact hinv.exclusive.move (iff_of_true hp hlocked) hholder
  · rw [inReturn, hheld]
    exact hstored
  · rw [hheld]
    exact htested

/-- The thread with the mutex gives it back. -/
theorem inv_release (hinv : s.Inv) (hlocked : (s.position w).Locked)
    {data : SafeQueue W T} (hposition : data.position = s.position)
    (hholder : data.monitor.holder = none) (hp : ¬ p.Locked)
    (hstored : data.enqueued = data.dequeued ++ data.jobQueue.reverse) :
    (data.move w p).Inv := by
  have hheld : (data.move w p).monitor.held (data.move w p).position = none := by
    simp [Monitor.held, move, hholder]
  refine ⟨?_, ?_, ?_⟩
  · rw [position_move, hposition]
    exact hinv.exclusive.release ((hinv.exclusive w).mp hlocked) hholder hp
  · rw [inReturn, hheld]
    exact hstored.trans (by simp [move])
  · rw [hheld]
    trivial

omit [DecidableEq W] in
/-- Nothing is in return before the statement of a thread that has not taken
anything out. -/
theorem stored_of_jobs (hinv : s.Inv) (hlocked : (s.position w).Locked)
    (hjobs : (s.position w).jobs = []) :
    s.enqueued = s.dequeued ++ s.jobQueue.reverse := by
  have hstored := hinv.stored
  rw [inReturn, hinv.exclusive.held_eq hlocked] at hstored
  simpa [hjobs] using hstored

/-- A thread that takes the mutex finds nothing in return. -/
theorem inv_lock {monitor : Monitor W} (hinv : s.Inv)
    (hlock : s.monitor.lock w = some monitor) (method : Method T) :
    ({ s with monitor := monitor }.move w (.started method)).Inv := by
  have hfree : s.monitor.holder = none := (Monitor.lock_eq_some.mp hlock).1
  have hholder : monitor.holder = some w := by
    rw [(Monitor.lock_eq_some.mp hlock).2.2]
  have hheld : monitor.held (Function.update s.position w (.started method)) =
      some (.started method) := Monitor.held_update_self hholder
  refine ⟨hinv.exclusive.lock hlock trivial, ?_, ?_⟩
  · have hstored := hinv.stored
    rw [inReturn, Monitor.held, hfree] at hstored
    exact hstored.trans (by simp [inReturn, move, hheld, Position.jobs])
  · rw [position_move]
    exact hheld ▸ trivial

/-- A statement that leaves the jobs alone. -/
theorem inv_keep (hinv : s.Inv) (hlocked : (s.position w).Locked)
    (hjobs : (s.position w).jobs = []) {data : SafeQueue W T}
    (hposition : data.position = s.position)
    (hholder : data.monitor.holder = s.monitor.holder)
    (hdata : data.enqueued = s.enqueued ∧ data.dequeued = s.dequeued ∧
      data.jobQueue = s.jobQueue)
    (hp : p.Locked ∧ p.jobs = []) (htested : data.Tested (some p)) :
    (data.move w p).Inv := by
  obtain ⟨henqueued, hdequeued, hqueue⟩ := hdata
  have hstored := stored_of_jobs hinv hlocked hjobs
  refine inv_advance hinv hlocked hposition hholder hp.1 ?_ htested
  rw [henqueued, hdequeued, hqueue, hp.2, List.append_nil]
  exact hstored

theorem inv_execute {woken : Option W} (hinv : s.Inv)
    (hexecute : s.execute w woken = some next) : next.Inv := by
  rw [execute] at hexecute
  split at hexecute
  · next hposition =>
      obtain rfl := Option.some.inj hexecute
      exact inv_keep hinv (hposition ▸ trivial) (hposition ▸ rfl) rfl rfl
        ⟨rfl, rfl, rfl⟩ ⟨trivial, rfl⟩ trivial
  · next hposition =>
      obtain rfl := Option.some.inj hexecute
      exact inv_keep hinv (hposition ▸ trivial) (hposition ▸ rfl) rfl rfl
        ⟨rfl, rfl, rfl⟩ ⟨trivial, rfl⟩ trivial
  · next hposition =>
      obtain rfl := Option.some.inj hexecute
      exact inv_keep hinv (hposition ▸ trivial) (hposition ▸ rfl) rfl rfl
        ⟨rfl, rfl, rfl⟩ ⟨trivial, rfl⟩ trivial
  · next hposition =>
      have hlocked : (s.position w).Locked := hposition ▸ trivial
      have hstored := stored_of_jobs hinv hlocked (hposition ▸ rfl)
      split at hexecute
      · obtain ⟨monitor, hwait, rfl⟩ := Option.map_eq_some_iff.mp hexecute
        have hholder : monitor.holder = none := by
          rw [(Monitor.wait_eq_some.mp hwait).2]
        exact inv_release hinv hlocked rfl hholder id hstored
      · next htest =>
          obtain rfl := Option.some.inj hexecute
          refine inv_keep hinv hlocked (hposition ▸ rfl) rfl rfl
            ⟨rfl, rfl, rfl⟩ ⟨trivial, rfl⟩ ?_
          intro hsignal hempty
          simp [hsignal, hempty] at htest
  · next hposition =>
      have hlocked : (s.position w).Locked := hposition ▸ trivial
      have hstored := stored_of_jobs hinv hlocked (hposition ▸ rfl)
      split at hexecute
      · next hsignal =>
          obtain rfl := Option.some.inj hexecute
          exact inv_keep hinv hlocked (hposition ▸ rfl) rfl rfl
            ⟨rfl, rfl, rfl⟩ ⟨trivial, rfl⟩ hsignal
      · obtain ⟨outputJob, hlast, rfl⟩ := Option.map_eq_some_iff.mp hexecute
        refine inv_advance hinv hlocked rfl rfl trivial ?_ trivial
        have hqueue := List.dropLast_append_getLast? _ hlast
        have hreverse : s.jobQueue.reverse =
            outputJob :: s.jobQueue.dropLast.reverse := by
          conv_lhs => rw [← hqueue]
          simp
        simpa [Position.jobs, Answer.jobs, hreverse] using hstored
  · next inputJob hposition =>
      obtain rfl := Option.some.inj hexecute
      have hlocked : (s.position w).Locked := hposition ▸ trivial
      have hstored := stored_of_jobs hinv hlocked (hposition ▸ rfl)
      exact inv_advance hinv hlocked rfl rfl trivial
        (by simp [Position.jobs, hstored]) trivial
  · next hposition =>
      obtain ⟨monitor, hnotify, rfl⟩ := Option.map_eq_some_iff.mp hexecute
      exact inv_keep hinv (hposition ▸ trivial) (hposition ▸ rfl) rfl
        (Monitor.holder_of_notifyOne hnotify) ⟨rfl, rfl, rfl⟩ ⟨trivial, rfl⟩
        trivial
  · next answer hposition =>
      obtain ⟨monitor, hunlock, rfl⟩ := Option.map_eq_some_iff.mp hexecute
      have hlocked : (s.position w).Locked := hposition ▸ trivial
      have hholder : monitor.holder = none := by
        rw [(Monitor.unlock_eq_some.mp hunlock).2]
      have hstored := hinv.stored
      rw [inReturn, hinv.exclusive.held_eq hlocked, hposition] at hstored
      exact inv_release hinv hlocked rfl hholder id hstored
  · contradiction

theorem inv_call (hinv : s.Inv) (houtside : s.position w = .outside)
    (method : Method T) : (s.move w (.calling method)).Inv := by
  have hunlocked : s.monitor.holder ≠ some w := fun hholder =>
    absurd ((hinv.exclusive w).mpr hholder) (by simp [houtside, Position.Locked])
  have hheld : (s.move w (.calling method)).monitor.held
      (s.move w (.calling method)).position = s.monitor.held s.position :=
    Monitor.held_update hunlocked
  refine ⟨?_, ?_, ?_⟩
  · exact hinv.exclusive.move (by rw [houtside]; exact Iff.rfl) rfl
  · rw [inReturn, hheld]
    exact hinv.stored
  · rw [hheld]
    exact hinv.tested

theorem inv_step {action : Action W T} (hinv : s.Inv)
    (hstep : s.step action = some next) : next.Inv := by
  cases action with
  | call w method =>
      rw [step] at hstep
      split at hstep
      · next houtside =>
          obtain rfl := Option.some.inj hstep
          exact inv_call hinv houtside method
      · contradiction
  | lock w =>
      rw [step] at hstep
      split at hstep
      · next method _ =>
          obtain ⟨monitor, hlock, rfl⟩ := Option.map_eq_some_iff.mp hstep
          exact inv_lock hinv hlock method
      · obtain ⟨monitor, hlock, rfl⟩ := Option.map_eq_some_iff.mp hstep
        exact inv_lock hinv hlock .dequeue
      · contradiction
  | execute w woken => exact inv_execute hinv hstep
  | spuriousWakeUp w =>
      obtain ⟨monitor, hwake, rfl⟩ := Option.map_eq_some_iff.mp hstep
      obtain ⟨-, rfl⟩ := Monitor.wake_eq_some.mp hwake
      exact ⟨hinv.exclusive, hinv.stored, hinv.tested⟩

/-- Whatever the threads do, the queue delivers in every state they reach. -/
theorem delivers_allReached (actions : List (Action W T)) :
    AllReached step Delivers new actions := by
  intro pre reached _ hrun
  have hinv : reached.Inv := runFrom_kept Inv
    (fun _ _ _ hbefore hstep => inv_step hbefore hstep) inv_new hrun
  exact delivers_of_inv hinv

end Invariant

end SafeQueue

end Margot.Agora
