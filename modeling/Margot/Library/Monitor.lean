/-
A mutex with a condition variable, as the threads of a program see it: which
thread holds the mutex, and which threads are asleep until they are notified.
-/
import Mathlib.Data.List.Basic
import Mathlib.Logic.Function.Basic

namespace Margot

universe u v

structure Monitor (W : Type u) where
  holder : Option W
  asleep : List W
deriving Repr, DecidableEq

namespace Monitor

variable {W : Type u} {P : Type v} [DecidableEq W]

def free : Monitor W := ⟨none, []⟩

/-- A thread takes the mutex when it is free, unless it is asleep. -/
def lock (m : Monitor W) (w : W) : Option (Monitor W) :=
  if m.holder = none ∧ w ∉ m.asleep then some { m with holder := some w }
  else none

def unlock (m : Monitor W) (w : W) : Option (Monitor W) :=
  if m.holder = some w then some { m with holder := none } else none

/-- Waiting releases the mutex and falls asleep at once. -/
def wait (m : Monitor W) (w : W) : Option (Monitor W) :=
  if m.holder = some w then some ⟨none, w :: m.asleep⟩ else none

/-- A thread that is awake still has to take the mutex again. -/
def wake (m : Monitor W) (w : W) : Option (Monitor W) :=
  if w ∈ m.asleep then some { m with asleep := m.asleep.filter (· ≠ w) }
  else none

def notifyAll (m : Monitor W) : Monitor W := { m with asleep := [] }

/-- The thread to wake is chosen by the scheduler; nothing happens when all
threads are awake. -/
def notifyOne (m : Monitor W) : Option W → Option (Monitor W)
  | some chosen => m.wake chosen
  | none => if m.asleep = [] then some m else none

section Inversion

variable {m next : Monitor W} {w : W}

theorem lock_eq_some :
    m.lock w = some next ↔ m.holder = none ∧ w ∉ m.asleep ∧
      next = { m with holder := some w } := by
  rw [lock]
  split
  · next hfree => simp [hfree, eq_comm]
  · next hbusy =>
      simp only [reduceCtorEq, false_iff]
      exact fun ⟨hholder, hawake, _⟩ => hbusy ⟨hholder, hawake⟩

theorem unlock_eq_some :
    m.unlock w = some next ↔
      m.holder = some w ∧ next = { m with holder := none } := by
  rw [unlock]
  split
  · next hholder => simp [hholder, eq_comm]
  · next hholder => simp [hholder]

theorem wait_eq_some :
    m.wait w = some next ↔
      m.holder = some w ∧ next = ⟨none, w :: m.asleep⟩ := by
  rw [wait]
  split
  · next hholder => simp [hholder, eq_comm]
  · next hholder => simp [hholder]

theorem wake_eq_some :
    m.wake w = some next ↔ w ∈ m.asleep ∧
      next = { m with asleep := m.asleep.filter (· ≠ w) } := by
  rw [wake]
  split
  · next hasleep => simp [hasleep, eq_comm]
  · next hasleep => simp [hasleep]

theorem holder_of_wake (hwake : m.wake w = some next) :
    next.holder = m.holder := by
  obtain ⟨-, rfl⟩ := wake_eq_some.mp hwake
  rfl

theorem holder_of_notifyOne {chosen : Option W}
    (hnotify : m.notifyOne chosen = some next) : next.holder = m.holder := by
  cases chosen with
  | some w => exact holder_of_wake hnotify
  | none =>
      rw [notifyOne] at hnotify
      split at hnotify
      · rw [← Option.some.inj hnotify]
      · contradiction

end Inversion

/-- The thread at a position that needs the mutex is the one that holds it. -/
def Exclusive (Locked : P → Prop) (m : Monitor W) (position : W → P) : Prop :=
  ∀ w, Locked (position w) ↔ m.holder = some w

section Exclusive

variable {Locked : P → Prop} {m next : Monitor W} {position : W → P} {w : W}
  {p : P}

theorem Exclusive.move (hex : m.Exclusive Locked position)
    (hsame : Locked p ↔ Locked (position w)) (hholder : next.holder = m.holder) :
    next.Exclusive Locked (Function.update position w p) := by
  intro v
  rw [hholder, ← hex v]
  by_cases hv : v = w
  · rw [hv, Function.update_self]
    exact hsame
  · rw [Function.update_of_ne hv]

/-- Before a thread takes the mutex no other one needs it. -/
theorem Exclusive.lock (hex : m.Exclusive Locked position)
    (hlock : m.lock w = some next) (hlocked : Locked p) :
    next.Exclusive Locked (Function.update position w p) := by
  obtain ⟨hholder, -, rfl⟩ := lock_eq_some.mp hlock
  intro v
  by_cases hv : v = w
  · simp [hv, hlocked]
  · rw [Function.update_of_ne hv, hex v, hholder]
    simp [Ne.symm hv]

theorem Exclusive.release (hex : m.Exclusive Locked position)
    (hholder : m.holder = some w) (hnext : next.holder = none)
    (hunlocked : ¬ Locked p) :
    next.Exclusive Locked (Function.update position w p) := by
  intro v
  by_cases hv : v = w
  · simp [hv, hnext, hunlocked]
  · rw [Function.update_of_ne hv, hex v, hholder, hnext]
    simp [Ne.symm hv]

/-- Where the thread that holds the mutex is. -/
def held (m : Monitor W) (position : W → P) : Option P := m.holder.map position

omit [DecidableEq W] in
theorem Exclusive.held_eq (hex : m.Exclusive Locked position)
    (hlocked : Locked (position w)) : m.held position = some (position w) := by
  rw [held, (hex w).mp hlocked, Option.map_some]

/-- A thread that does not hold the mutex moves unseen. -/
theorem held_update (hholder : m.holder ≠ some w) :
    m.held (Function.update position w p) = m.held position := by
  cases hm : m.holder with
  | none => simp [held, hm]
  | some v =>
      have hv : v ≠ w := fun heq => hholder (hm.trans (congrArg some heq))
      simp [held, hm, Function.update_of_ne hv]

theorem held_update_self (hholder : m.holder = some w) :
    m.held (Function.update position w p) = some p := by
  simp [held, hholder]

end Exclusive

end Monitor

end Margot
