/-
Jobs that are served round and round, each of them a given number of times.  A
job that is served goes to the end of the queue unless it is exhausted, so the
queue is always in a round: some jobs are still to be served in it, the others
have been served once more.
-/
import Mathlib.Algebra.GroupWithZero.Nat
import Mathlib.Data.List.Basic
import Mathlib.Data.List.Nodup
import Mathlib.Algebra.BigOperators.Group.List.Basic
import Mathlib.Algebra.Order.Group.Int

namespace Margot

namespace RoundRobin

universe u v

variable {A : Type u} {B : Type v}

/-- A job and what is left of the queue. -/
def serve : List (A × Int) → Option (A × List (A × Int))
  | [] => none
  | (job, count) :: rest =>
      if 0 < count - 1 then some (job, rest ++ [(job, count - 1)])
      else some (job, rest)

/-- The jobs that are served in so many turns. -/
def served : Nat → List (A × Int) → List A
  | 0, _ => []
  | turns + 1, queue =>
      match serve queue with
      | none => []
      | some (job, rest) => job :: served turns rest

/-- What is left after so many turns. -/
def left : Nat → List (A × Int) → List (A × Int)
  | 0, queue => queue
  | turns + 1, queue =>
      match serve queue with
      | none => queue
      | some (_, rest) => left turns rest

/-- The turns that serve every job to its end. -/
def turnsOf (queue : List (A × Int)) : Nat :=
  (queue.map fun entry => entry.2.toNat).sum

theorem serve_map (f : A → B) (queue : List (A × Int)) :
    serve (queue.map (Prod.map f id)) =
      (serve queue).map (Prod.map f (List.map (Prod.map f id))) := by
  cases queue with
  | nil => rfl
  | cons entry rest =>
      obtain ⟨job, count⟩ := entry
      simp only [List.map_cons, Prod.map_apply, id_eq, serve]
      split
      · simp
      · rfl

section Turns

variable {queue : List (A × Int)}

theorem serve_eq_none : serve queue = none ↔ queue = [] := by
  cases queue with
  | nil => simp [serve]
  | cons entry rest =>
      obtain ⟨job, count⟩ := entry
      simp only [serve, reduceCtorEq, iff_false]
      split <;> simp

/-- The queue holds positive counts. -/
def Positive (queue : List (A × Int)) : Prop := ∀ entry ∈ queue, 0 < entry.2

theorem positive_serve (hpositive : Positive queue) {job : A}
    {rest : List (A × Int)} (hserve : serve queue = some (job, rest)) :
    Positive rest ∧ turnsOf queue = turnsOf rest + 1 := by
  cases queue with
  | nil => contradiction
  | cons entry others =>
      obtain ⟨first, count⟩ := entry
      obtain ⟨hcount, hothers⟩ := List.forall_mem_cons.mp hpositive
      rw [serve] at hserve
      simp only at hcount
      split at hserve
      · next hmore =>
          obtain ⟨-, rfl⟩ := Prod.mk.inj (Option.some.inj hserve)
          constructor
          · intro entry hentry
            rcases List.mem_append.mp hentry with hold | hnew
            · exact hothers entry hold
            · obtain rfl := List.mem_singleton.mp hnew
              exact hmore
          · simp only [turnsOf, List.map_cons, List.map_append, List.map_nil,
              List.sum_cons, List.sum_append, List.sum_nil]
            omega
      · next hlast =>
          obtain ⟨-, rfl⟩ := Prod.mk.inj (Option.some.inj hserve)
          refine ⟨hothers, ?_⟩
          simp only [turnsOf, List.map_cons, List.sum_cons]
          omega

/-- After all the turns nothing is left. -/
theorem left_turnsOf (hpositive : Positive queue) :
    left (turnsOf queue) queue = [] := by
  generalize hturns : turnsOf queue = turns
  induction turns generalizing queue with
  | zero =>
      cases hserve : serve queue with
      | none => exact serve_eq_none.mp hserve
      | some result =>
          have hless := (positive_serve hpositive hserve).2
          omega
  | succ turns ih =>
      cases hserve : serve queue with
      | none =>
          rw [left, hserve]
          exact serve_eq_none.mp hserve
      | some result =>
          obtain ⟨hrest, hless⟩ := positive_serve hpositive hserve
          rw [left, hserve]
          exact ih hrest (by omega)

theorem length_served (hpositive : Positive queue) :
    (served (turnsOf queue) queue).length = turnsOf queue := by
  generalize hturns : turnsOf queue = turns
  induction turns generalizing queue with
  | zero => rfl
  | succ turns ih =>
      cases hserve : serve queue with
      | none =>
          rw [serve_eq_none.mp hserve] at hturns
          contradiction
      | some result =>
          obtain ⟨hrest, hless⟩ := positive_serve hpositive hserve
          rw [served, hserve, List.length_cons, ih hrest (by omega)]

/-- The first turns of many are the few turns. -/
theorem take_served (few many : Nat) (queue : List (A × Int)) :
    (served many queue).take few = served (min few many) queue := by
  induction many generalizing few queue with
  | zero => simp [served]
  | succ many ih =>
      cases few with
      | zero => simp [served]
      | succ few =>
          rw [Nat.add_min_add_right, served, served]
          cases hserve : serve queue with
          | none => rfl
          | some result => rw [List.take_succ_cons, ih]

theorem served_of_serve_eq_none (hserve : serve queue = none) (turns : Nat) :
    served turns queue = [] := by
  cases turns with
  | zero => rfl
  | succ turns => rw [served, hserve]

/-- The turns of a queue, and then those of what is left of it. -/
theorem served_add (first second : Nat) (queue : List (A × Int)) :
    served (first + second) queue =
      served first queue ++ served second (left first queue) := by
  induction first generalizing queue with
  | zero => rw [Nat.zero_add, served, left, List.nil_append]
  | succ first ih =>
      rw [Nat.add_right_comm, served, served, left]
      cases hserve : serve queue with
      | none => exact (served_of_serve_eq_none hserve second).symm
      | some result =>
          simp only [ih]
          rfl

/-- Whatever the number of turns, the jobs are those of all the turns. -/
theorem served_eq_take (hpositive : Positive queue) (turns : Nat) :
    served turns queue = (served (turnsOf queue) queue).take turns := by
  rcases Nat.le_total turns (turnsOf queue) with hfew | hmany
  · rw [take_served, Nat.min_eq_left hfew]
  · obtain ⟨more, rfl⟩ := Nat.exists_eq_add_of_le hmany
    have hnone : serve ([] : List (A × Int)) = none := rfl
    rw [served_add, left_turnsOf hpositive, served_of_serve_eq_none hnone,
      List.append_nil,
      List.take_of_length_le (by rw [length_served hpositive]; exact hmany)]

end Turns

section Rounds

variable [DecidableEq A] {total : A → Int} {history : List A} {round : Nat}
  {front back : List (A × Int)}

/-- The jobs at the front are still to be served in this round, those at the
back have been, and the jobs outside the queue have been served to their
end. -/
structure InRound (total : A → Int) (history : List A) (round : Nat)
    (front back : List (A × Int)) : Prop where
  waiting : ∀ entry ∈ front, 0 < entry.2 ∧ history.count entry.1 = round ∧
    entry.2 + round = total entry.1
  returned : ∀ entry ∈ back, 0 < entry.2 ∧ history.count entry.1 = round + 1 ∧
    entry.2 + (round + 1 : Nat) = total entry.1
  done : ∀ job, job ∉ (front ++ back).map Prod.fst →
    (history.count job : Int) = total job
  nodup : ((front ++ back).map Prod.fst).Nodup

/-- When all the jobs have been served in a round the next one begins. -/
theorem InRound.turn (hround : InRound total history round [] back) :
    InRound total history (round + 1) back [] where
  waiting := hround.returned
  returned := fun _ hentry => absurd hentry List.not_mem_nil
  done := by
    rw [List.append_nil]
    exact hround.done
  nodup := by
    rw [List.append_nil]
    exact hround.nodup

/-- The first job is served. -/
theorem InRound.serve {job : A} {count : Int}
    (hround : InRound total history round ((job, count) :: front) back) :
    ∃ last, RoundRobin.serve ((job, count) :: front ++ back) =
        some (job, front ++ last) ∧
      InRound total (history ++ [job]) round front last := by
  obtain ⟨⟨hpositive, hcount, htotal⟩, hfront⟩ :=
    List.forall_mem_cons.mp hround.waiting
  have hnodup := hround.nodup
  rw [List.cons_append, List.map_cons, List.nodup_cons, List.map_append,
    List.mem_append, not_or] at hnodup
  obtain ⟨⟨hnotFront, hnotBack⟩, hrest⟩ := hnodup
  have hother : ∀ other, other ≠ job →
      (history ++ [job]).count other = history.count other := by
    intro other hne
    rw [List.count_append, List.count_singleton]
    simp [hne.symm]
  have hself : (history ++ [job]).count job = round + 1 := by
    rw [List.count_append, List.count_singleton_self, hcount]
  have hkeep : ∀ {entries : List (A × Int)},
      job ∉ entries.map Prod.fst → ∀ entry ∈ entries, entry.1 ≠ job := by
    rintro entries hnot entry hentry rfl
    exact hnot (List.mem_map_of_mem hentry)
  have hfrontKept : ∀ entry ∈ front, 0 < entry.2 ∧
      (history ++ [job]).count entry.1 = round ∧
        entry.2 + round = total entry.1 := by
    intro entry hentry
    rw [hother _ (hkeep hnotFront entry hentry)]
    exact hfront entry hentry
  have hbackKept : ∀ entry ∈ back, 0 < entry.2 ∧
      (history ++ [job]).count entry.1 = round + 1 ∧
        entry.2 + (round + 1 : Nat) = total entry.1 := by
    intro entry hentry
    rw [hother _ (hkeep hnotBack entry hentry)]
    exact hround.returned entry hentry
  simp only at hcount htotal hpositive
  rw [List.cons_append, RoundRobin.serve]
  split
  · next hmore =>
      refine ⟨back ++ [(job, count - 1)], by rw [List.append_assoc],
        hfrontKept, ?_, ?_, ?_⟩
      · intro entry hentry
        rcases List.mem_append.mp hentry with hold | hnew
        · exact hbackKept entry hold
        · obtain rfl := List.mem_singleton.mp hnew
          refine ⟨hmore, hself, ?_⟩
          simp only
          omega
      · intro other hout
        simp only [List.map_append, List.map_cons, List.map_nil,
          List.mem_append, List.mem_singleton, not_or] at hout
        obtain ⟨houtFront, houtBack, hne⟩ := hout
        rw [hother other hne]
        apply hround.done
        rw [List.cons_append, List.map_cons, List.map_append, List.mem_cons,
          List.mem_append, not_or, not_or]
        exact ⟨hne, houtFront, houtBack⟩
      · have hmoved := List.perm_append_singleton job
          ((front ++ back).map Prod.fst)
        rw [← List.append_assoc, List.map_append]
        apply hmoved.nodup_iff.mpr
        rw [List.nodup_cons, List.map_append, List.mem_append, not_or]
        exact ⟨⟨hnotFront, hnotBack⟩, hrest⟩
  · next hlast =>
      refine ⟨back, rfl, hfrontKept, hbackKept, ?_, ?_⟩
      · intro other hout
        by_cases hsame : other = job
        · subst hsame
          rw [hself]
          omega
        · rw [hother other hsame]
          apply hround.done
          rw [List.cons_append, List.map_cons, List.mem_cons, not_or]
          exact ⟨hsame, hout⟩
      · rw [List.map_append]
        exact hrest

/-- The queue is in some round. -/
def InRounds (total : A → Int) (history : List A) (queue : List (A × Int)) :
    Prop :=
  ∃ round front back, queue = front ++ back ∧
    InRound total history round front back

variable {queue : List (A × Int)}

theorem InRounds.serve (hrounds : InRounds total history queue) {job : A}
    {rest : List (A × Int)} (hserve : RoundRobin.serve queue = some (job, rest)) :
    InRounds total (history ++ [job]) rest := by
  obtain ⟨round, front, back, rfl, hround⟩ := hrounds
  have hserved : ∀ {round front back}, InRound total history round front back →
      front ≠ [] → RoundRobin.serve (front ++ back) = some (job, rest) →
        InRounds total (history ++ [job]) rest := by
    intro round front back hround hsome hserve
    obtain ⟨⟨first, count⟩, others, rfl⟩ := List.exists_cons_of_ne_nil hsome
    obtain ⟨last, hlast, hnext⟩ := hround.serve
    obtain ⟨rfl, rfl⟩ :=
      Prod.mk.inj (Option.some.inj (hlast.symm.trans hserve))
    exact ⟨round, others, last, rfl, hnext⟩
  cases front with
  | cons entry others => exact hserved hround (List.cons_ne_nil _ _) hserve
  | nil =>
      refine hserved hround.turn ?_ (by simpa using hserve)
      rintro rfl
      contradiction

/-- The queue stays in its rounds, whatever the number of turns. -/
theorem inRounds_left (turns : Nat) (hrounds : InRounds total history queue) :
    InRounds total (history ++ served turns queue) (left turns queue) := by
  induction turns generalizing history queue with
  | zero =>
      rw [served, left, List.append_nil]
      exact hrounds
  | succ turns ih =>
      rw [served, left]
      cases hserve : RoundRobin.serve queue with
      | none =>
          rw [List.append_nil]
          exact hrounds
      | some result =>
          have hnext := ih (hrounds.serve hserve)
          rwa [List.append_assoc, List.singleton_append] at hnext

/-- The number of times that each job of the queue is to be served. -/
structure Totals (total : A → Int) (queue : List (A × Int)) : Prop where
  count : ∀ entry ∈ queue, total entry.1 = entry.2
  absent : ∀ job, job ∉ queue.map Prod.fst → total job = 0

theorem inRounds_nil (htotals : Totals total queue)
    (hpositive : Positive queue) (hnodup : (queue.map Prod.fst).Nodup) :
    InRounds total [] queue := by
  refine ⟨0, queue, [], (List.append_nil _).symm, ?_⟩
  constructor
  · intro entry hentry
    exact ⟨hpositive entry hentry, rfl, by simp [htotals.count entry hentry]⟩
  · intro entry hentry
    contradiction
  · intro job hout
    rw [List.append_nil] at hout
    simp [htotals.absent job hout]
  · rwa [List.append_nil]

/-- Every job is served as many times as it is to be. -/
theorem count_served (htotals : Totals total queue)
    (hpositive : Positive queue) (hnodup : (queue.map Prod.fst).Nodup)
    (job : A) :
    ((served (turnsOf queue) queue).count job : Int) = total job := by
  obtain ⟨round, front, back, hleft, hround⟩ := inRounds_left (turnsOf queue)
    (inRounds_nil htotals hpositive hnodup)
  rw [left_turnsOf hpositive] at hleft
  obtain ⟨rfl, rfl⟩ := List.append_eq_nil_iff.mp hleft.symm
  have hdone := hround.done job
  rw [List.nil_append] at hdone
  exact hdone (by simp)

/-- At any turn, of two jobs that are still to be served neither is ahead of
the other by more than one time. -/
theorem count_le_succ (htotals : Totals total queue)
    (hpositive : Positive queue) (hnodup : (queue.map Prod.fst).Nodup)
    (turns : Nat) {job other : A}
    (hjob : ((served turns queue).count job : Int) < total job)
    (hother : ((served turns queue).count other : Int) < total other) :
    (served turns queue).count job ≤ (served turns queue).count other + 1 := by
  obtain ⟨round, front, back, -, hround⟩ := inRounds_left turns
    (inRounds_nil htotals hpositive hnodup)
  rw [List.nil_append] at hround
  have hwaits : ∀ job, ((served turns queue).count job : Int) < total job →
      (served turns queue).count job = round ∨
        (served turns queue).count job = round + 1 := by
    intro job hless
    by_contra hneither
    rw [not_or] at hneither
    have hout : job ∉ (front ++ back).map Prod.fst := by
      intro hmem
      obtain ⟨entry, hentry, rfl⟩ := List.mem_map.mp hmem
      rcases List.mem_append.mp hentry with hfront | hback
      · exact hneither.1 (hround.waiting entry hfront).2.1
      · exact hneither.2 (hround.returned entry hback).2.1
    exact hless.ne (hround.done job hout)
  rcases hwaits job hjob with hjob | hjob <;>
    rcases hwaits other hother with hother | hother <;> omega

end Rounds

end RoundRobin

end Margot
