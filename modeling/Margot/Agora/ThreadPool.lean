/-
The pool of the workers and the main thread that waits for them.  The flag of
a worker is tested without its mutex, and the wait that follows has no
condition of its own.
-/
import Margot.Library.Monitor
import Margot.Library.Runs

namespace Margot.Agora

/-- The threads that use the mutex of a worker. -/
inductive Side where
  | main
  | worker
deriving Repr, DecidableEq

/-- Where a worker is in its task. -/
inductive TaskPosition where
  /-- At the test of the loop. -/
  | looping
  /-- In `recv_message`, or handling the message it returned. -/
  | receiving
  /-- In `Worker::stop`, where the mutex is asked for. -/
  | stopping
  /-- In `Worker::stop`, with the mutex. -/
  | retiring
  /-- At the end of `Worker::stop`. -/
  | leaving
  | ended
deriving Repr, DecidableEq

structure PoolWorker where
  finished : Bool
  monitor : Monitor Side
  position : TaskPosition
deriving Repr, DecidableEq

/-- What `recv_message` gives to a worker. -/
inductive Received where
  | message
  /-- The message is the command to shut down. -/
  | shutdown
  /-- There is no more work. -/
  | terminated
deriving Repr, DecidableEq

namespace PoolWorker

def start : PoolWorker := ⟨false, .free, .looping⟩

def isRunning (worker : PoolWorker) : Bool := !worker.finished

/-- The next step of `Worker::task`.  The flag is set and the threads are
notified in one step. -/
def proceed (worker : PoolWorker) (received : Received) : Option PoolWorker :=
  match worker.position with
  | .looping =>
      some { worker with
        position := if worker.finished then .ended else .receiving }
  | .receiving =>
      match received with
      | .message => some { worker with position := .looping }
      | .shutdown | .terminated => some { worker with position := .stopping }
  | .stopping =>
      (worker.monitor.lock .worker).map fun monitor =>
        { worker with monitor := monitor, position := .retiring }
  | .retiring =>
      if worker.finished then some { worker with position := .leaving }
      else some ⟨true, worker.monitor.notifyAll, .leaving⟩
  | .leaving =>
      (worker.monitor.unlock .worker).map fun monitor =>
        { worker with monitor := monitor, position := .looping }
  | .ended => none

end PoolWorker

/-- Where the main thread is in `ThreadPool::wait_workers`, with the workers
that come after the one it looks at. -/
inductive MainPosition (W : Type) where
  | outside
  | testing (rest : List W)
  /-- In `Worker::wait`, where the mutex is asked for. -/
  | calling (w : W) (rest : List W)
  | locked (w : W) (rest : List W)
  /-- In the wait on the condition variable. -/
  | waiting (w : W) (rest : List W)
  | returning (w : W) (rest : List W)
deriving Repr, DecidableEq

structure ThreadPool (W : Type) where
  threads : List W
  worker : W → PoolWorker
  main : MainPosition W

namespace ThreadPool

inductive Action (W : Type) where
  | waitWorkers
  | main
  | work (w : W) (received : Received)
  | spuriousWakeUp (w : W)

variable {W : Type} [DecidableEq W]

/-- All the workers are started. -/
def start (threads : List W) : ThreadPool W :=
  ⟨threads, fun _ => .start, .outside⟩

def put (s : ThreadPool W) (w : W) (worker : PoolWorker) : ThreadPool W :=
  { s with worker := Function.update s.worker w worker }

/-- The main thread uses the mutex of a worker and goes on. -/
def use (s : ThreadPool W) (w : W) (monitor : Option (Monitor Side))
    (main : MainPosition W) : Option (ThreadPool W) :=
  monitor.map fun monitor =>
    { s.put w { s.worker w with monitor := monitor } with main := main }

/-- The next step of `ThreadPool::wait_workers` and `Worker::wait`. -/
def stepMain (s : ThreadPool W) : Option (ThreadPool W) :=
  match s.main with
  | .outside => none
  | .testing [] => some { s with main := .outside }
  | .testing (w :: rest) =>
      some { s with
        main := if (s.worker w).isRunning then .calling w rest
          else .testing rest }
  | .calling w rest =>
      s.use w ((s.worker w).monitor.lock .main) (.locked w rest)
  | .locked w rest =>
      s.use w ((s.worker w).monitor.wait .main) (.waiting w rest)
  | .waiting w rest =>
      s.use w ((s.worker w).monitor.lock .main) (.returning w rest)
  | .returning w rest =>
      s.use w ((s.worker w).monitor.unlock .main) (.testing rest)

def step (s : ThreadPool W) : Action W → Option (ThreadPool W)
  | .waitWorkers =>
      match s.main with
      | .outside => some { s with main := .testing s.threads }
      | _ => none
  | .main => s.stepMain
  | .work w received => ((s.worker w).proceed received).map (s.put w)
  | .spuriousWakeUp w => s.use w ((s.worker w).monitor.wake .main) s.main

/-- The main thread sleeps until this worker notifies it. -/
def Blocked (s : ThreadPool W) (w : W) : Prop :=
  (∃ rest, s.main = .waiting w rest) ∧ .main ∈ (s.worker w).monitor.asleep

/-- The main thread only sleeps on workers that have not stopped. -/
def Wakeable (s : ThreadPool W) : Prop :=
  ∀ w, s.Blocked w → (s.worker w).finished = false

/-- When the main thread begins to wait on a worker, the worker has not
stopped. -/
def WaitsInTime (s : ThreadPool W) : Action W → Prop
  | .main => ∀ w rest, s.main = .locked w rest →
      (s.worker w).finished = false
  | _ => True

section Waiting

variable {s next : ThreadPool W} {w : W}

/-- A worker that stops wakes the main thread in the same step. -/
theorem finished_of_proceed {worker after : PoolWorker} {received : Received}
    (hproceed : worker.proceed received = some after)
    (hasleep : .main ∈ after.monitor.asleep) :
    .main ∈ worker.monitor.asleep ∧ after.finished = worker.finished := by
  unfold PoolWorker.proceed at hproceed
  split at hproceed
  · obtain rfl := Option.some.inj hproceed
    exact ⟨hasleep, rfl⟩
  · split at hproceed
    all_goals
      obtain rfl := Option.some.inj hproceed
      exact ⟨hasleep, rfl⟩
  · obtain ⟨monitor, hlock, rfl⟩ := Option.map_eq_some_iff.mp hproceed
    obtain ⟨-, -, rfl⟩ := Monitor.lock_eq_some.mp hlock
    exact ⟨hasleep, rfl⟩
  · split at hproceed
    · obtain rfl := Option.some.inj hproceed
      exact ⟨hasleep, rfl⟩
    · obtain rfl := Option.some.inj hproceed
      simp [Monitor.notifyAll] at hasleep
  · obtain ⟨monitor, hunlock, rfl⟩ := Option.map_eq_some_iff.mp hproceed
    obtain ⟨-, rfl⟩ := Monitor.unlock_eq_some.mp hunlock
    exact ⟨hasleep, rfl⟩
  · contradiction

/-- The main thread never changes the flag of a worker. -/
theorem use_eq_some {monitor : Option (Monitor Side)} {main : MainPosition W}
    (huse : s.use w monitor main = some next) :
    next.main = main ∧ (∀ v, (next.worker v).finished = (s.worker v).finished) ∧
      monitor = some (next.worker w).monitor ∧
      ∀ v, v ≠ w → next.worker v = s.worker v := by
  obtain ⟨after, hafter, rfl⟩ := Option.map_eq_some_iff.mp huse
  refine ⟨rfl, ?_, by simp [put, hafter], ?_⟩
  · intro v
    by_cases hv : v = w
    · simp [put, hv]
    · simp [put, Function.update_of_ne hv]
  · intro v hv
    simp [put, Function.update_of_ne hv]

/-- Only the wait itself brings the main thread to sleep. -/
theorem wakeable_stepMain (hmeets : s.WaitsInTime .main)
    (hstep : s.stepMain = some next) : next.Wakeable := by
  rintro v ⟨⟨rest, hmain⟩, hasleep⟩
  rw [stepMain] at hstep
  split at hstep
  · contradiction
  · obtain rfl := Option.some.inj hstep
    contradiction
  · obtain rfl := Option.some.inj hstep
    split at hmain <;> contradiction
  · obtain ⟨hnext, -⟩ := use_eq_some hstep
    rw [hnext] at hmain
    contradiction
  · next w others hlocked =>
      obtain ⟨hnext, hfinished, -⟩ := use_eq_some hstep
      obtain ⟨rfl, -⟩ := MainPosition.waiting.inj (hnext.symm.trans hmain)
      rw [hfinished]
      exact hmeets w others hlocked
  · obtain ⟨hnext, -⟩ := use_eq_some hstep
    rw [hnext] at hmain
    contradiction
  · obtain ⟨hnext, -⟩ := use_eq_some hstep
    rw [hnext] at hmain
    contradiction

theorem wakeable_step {action : Action W} (hwakeable : s.Wakeable)
    (hmeets : s.WaitsInTime action) (hstep : s.step action = some next) :
    next.Wakeable := by
  cases action with
  | main => exact wakeable_stepMain hmeets hstep
  | waitWorkers =>
      rw [step] at hstep
      split at hstep
      · obtain rfl := Option.some.inj hstep
        rintro v ⟨⟨rest, hmain⟩, -⟩
        contradiction
      · contradiction
  | work w received =>
      obtain ⟨after, hproceed, rfl⟩ := Option.map_eq_some_iff.mp hstep
      rintro v ⟨hmain, hasleep⟩
      by_cases hv : v = w
      · subst hv
        simp only [put, Function.update_self] at hasleep ⊢
        obtain ⟨hbefore, hfinished⟩ := finished_of_proceed hproceed hasleep
        exact hfinished.trans (hwakeable v ⟨hmain, hbefore⟩)
      · simp only [put, Function.update_of_ne hv] at hasleep ⊢
        exact hwakeable v ⟨hmain, hasleep⟩
  | spuriousWakeUp w =>
      rintro v ⟨⟨rest, hmain⟩, hasleep⟩
      obtain ⟨hnext, hfinished, hwake, hothers⟩ := use_eq_some hstep
      by_cases hv : v = w
      · subst hv
        rw [(Monitor.wake_eq_some.mp hwake).2] at hasleep
        simp at hasleep
      · rw [hothers v hv] at hasleep ⊢
        exact hwakeable v ⟨⟨rest, hnext.symm.trans hmain⟩, hasleep⟩

/-- The main thread never sleeps on a worker that has stopped exactly when it
always begins to wait in time. -/
theorem wakeable_allReached_iff (threads : List W) (actions : List (Action W)) :
    AllReached step Wakeable (start threads) actions ↔
      AllSteps step WaitsInTime (start threads) actions := by
  refine allReached_iff_allSteps Wakeable ?_ (fun _ hsafe => hsafe) ?_ ?_
  · exact fun before action after => wakeable_step
  · intro before action after hbefore hstep hafter
    cases action with
    | main =>
        intro w rest hlocked
        simp only [step, stepMain, hlocked] at hstep
        obtain ⟨hmain, hfinished, hwait, -⟩ := use_eq_some hstep
        rw [← hfinished]
        refine hafter w ⟨⟨rest, hmain⟩, ?_⟩
        rw [(Monitor.wait_eq_some.mp hwait).2]
        exact List.mem_cons_self
    | _ => trivial
  · rintro w ⟨⟨rest, hmain⟩, -⟩
    contradiction

end Waiting

section Missed

/-- The worker stops between the test and the wait of the main thread. -/
def missing : List (Action Unit) :=
  [.waitWorkers, .main, .work () .message, .work () .terminated,
    .work () .message, .work () .message, .work () .message, .main, .main]

def missed : ThreadPool Unit :=
  (runFrom step (start [()]) missing).get (by decide)

theorem not_wakeable_missed :
    ¬ ∀ (threads : List Unit) (actions : List (Action Unit)),
      AllReached step Wakeable (start threads) actions := by
  intro hall
  have hwakeable : missed.Wakeable := hall [()] missing missing missed
    List.prefix_rfl (Option.some_get _).symm
  have hfinished : (missed.worker ()).finished = true := by decide
  have hblocked : missed.Blocked () := ⟨⟨[], by decide⟩, by decide⟩
  rw [hwakeable () hblocked] at hfinished
  contradiction

end Missed

end ThreadPool

end Margot.Agora
