/-
The answer of a fresh solve.  The code takes the best valid Operating Point
or, without one, walks up from the last constraint to the first one that blocks
something, takes what is closest to its goal, narrows it down with the lower
constraints and falls back to the rank.  The answer is optimal for the rank
among what is left when the constraints are relaxed lexicographically.
-/
import Margot.Runtime.Update

namespace Margot

variable {g : Geometry} {P : Type}

namespace ComparisonFunctions

/-- The smaller the cost of a value, the better the value. -/
def cost : ComparisonFunctions → ℚ → ℚ
  | .greater, value => -value
  | .greaterOrEqual, value => -value
  | .less, value => value
  | .lessOrEqual, value => value

variable {comparison : ComparisonFunctions} {goal first second : ℚ}

theorem cost_injective (comparison : ComparisonFunctions) :
    Function.Injective comparison.cost := by
  cases comparison <;> intro first second heq <;> simpa [cost] using heq

/-- Away from equality all the comparisons are strict. -/
theorem compare_iff_of_ne (hne : first ≠ second) :
    comparison.compare first second = true ↔
      comparison.cost first < comparison.cost second := by
  cases comparison with
  | greater => simp [compare, cost]
  | greaterOrEqual => simp [compare, cost, hne.symm.le_iff_lt]
  | less => simp [compare, cost]
  | lessOrEqual => simp [compare, cost, hne.le_iff_lt]

/-- Among the values that miss the goal, the better one is closer to it. -/
theorem abs_sub_le_iff (hfirst : comparison.compare first goal = false)
    (hsecond : comparison.compare second goal = false) :
    |first - goal| ≤ |second - goal| ↔
      comparison.cost first ≤ comparison.cost second := by
  cases comparison <;>
    simp only [compare, decide_eq_false_iff_not, not_lt, not_le] at * <;>
    simp only [cost]
  · rw [abs_of_nonpos (by linarith), abs_of_nonpos (by linarith)]
    constructor <;> intro hle <;> linarith
  · rw [abs_of_nonpos (by linarith), abs_of_nonpos (by linarith)]
    constructor <;> intro hle <;> linarith
  · rw [abs_of_nonneg (by linarith), abs_of_nonneg (by linarith)]
    constructor <;> intro hle <;> linarith
  · rw [abs_of_nonneg (by linarith), abs_of_nonneg (by linarith)]
    constructor <;> intro hle <;> linarith

end ComparisonFunctions

namespace Constraint

variable {c : Constraint g} {seen found : OPStream g} {value : ℚ}

/-- How far the value of an Operating Point is from what is asked. -/
def costOf (c : Constraint g) (op : OperatingPointPtr g) : ℚ :=
  c.targetGoal.comparisonFunction.cost (c.evaluateOp op)

/-- The best Operating Points found in a part of a stream, and their value. -/
structure ClosestIn (c : Constraint g) (seen found : OPStream g) (value : ℚ) :
    Prop where
  attained : ∃ op ∈ seen, c.evaluateOp op = value
  mem_iff : ∀ op, op ∈ found ↔ op ∈ seen ∧ c.evaluateOp op = value
  smallest : ∀ op ∈ seen,
    c.targetGoal.comparisonFunction.cost value ≤ c.costOf op

theorem closestIn_singleton (c : Constraint g) (op : OperatingPointPtr g) :
    c.ClosestIn [op] [op] (c.evaluateOp op) where
  attained := ⟨op, List.mem_singleton_self op, rfl⟩
  mem_iff := by
    intro other
    rw [List.mem_singleton]
    exact (and_iff_left_of_imp fun heq => heq ▸ rfl).symm
  smallest := by
    intro other hother
    rw [List.mem_singleton.mp hother]
    exact le_rfl

theorem ClosestIn.step (hfound : c.ClosestIn seen found value)
    (op : OperatingPointPtr g) :
    c.ClosestIn (seen ++ [op]) (c.getClosestStep (found, value) op).1
      (c.getClosestStep (found, value) op).2 := by
  obtain ⟨⟨reached, hreached, hvalue⟩, hmem, hsmallest⟩ := hfound
  by_cases hequal : c.evaluateOp op = value
  · have hstep : c.getClosestStep (found, value) op =
        (found ++ [op], value) := if_pos hequal
    rw [hstep]
    refine ⟨⟨reached, by simp [hreached], hvalue⟩, ?_, ?_⟩
    · intro other
      rw [List.mem_append, List.mem_append, hmem, List.mem_singleton,
        or_and_right]
      exact or_congr_right (and_iff_left_of_imp fun heq => heq ▸ hequal).symm
    · rw [List.forall_mem_append, List.forall_mem_singleton]
      exact ⟨hsmallest, by rw [costOf, hequal]⟩
  · by_cases hbetter : c.targetGoal.check (c.evaluateOp op) value = true
    · have hstep : c.getClosestStep (found, value) op =
          ([op], c.evaluateOp op) := by
        rw [getClosestStep]
        exact (if_neg hequal).trans (if_pos hbetter)
      have hlt : c.costOf op <
          c.targetGoal.comparisonFunction.cost value :=
        (ComparisonFunctions.compare_iff_of_ne hequal).mp hbetter
      rw [hstep]
      refine ⟨⟨op, by simp, rfl⟩, ?_, ?_⟩
      · intro other
        rw [List.mem_append, List.mem_singleton, or_and_right]
        constructor
        · rintro rfl
          exact Or.inr ⟨rfl, rfl⟩
        · rintro (⟨hseen, heq⟩ | ⟨rfl, -⟩)
          · have hle := hsmallest other hseen
            rw [costOf, heq] at hle
            exact absurd hle (not_le.mpr hlt)
          · rfl
      · rw [List.forall_mem_append, List.forall_mem_singleton]
        exact ⟨fun other hother => hlt.le.trans (hsmallest other hother),
          le_rfl⟩
    · have hstep : c.getClosestStep (found, value) op = (found, value) := by
        rw [getClosestStep]
        exact (if_neg hequal).trans (if_neg hbetter)
      have hle : c.targetGoal.comparisonFunction.cost value ≤ c.costOf op :=
        not_lt.mp fun hlt =>
          hbetter ((ComparisonFunctions.compare_iff_of_ne hequal).mpr hlt)
      rw [hstep]
      refine ⟨⟨reached, by simp [hreached], hvalue⟩, ?_, ?_⟩
      · intro other
        rw [hmem, List.mem_append, List.mem_singleton, or_and_right]
        refine (or_iff_left ?_).symm
        rintro ⟨rfl, heq⟩
        exact hequal heq
      · rw [List.forall_mem_append, List.forall_mem_singleton]
        exact ⟨hsmallest, hle⟩

theorem ClosestIn.foldl (rest : OPStream g)
    (hfound : c.ClosestIn seen found value) :
    c.ClosestIn (seen ++ rest) (rest.foldl c.getClosestStep (found, value)).1
      (rest.foldl c.getClosestStep (found, value)).2 := by
  induction rest generalizing seen found value with
  | nil => simpa using hfound
  | cons op rest ih =>
      have hnext := ih (hfound.step op)
      rwa [List.append_assoc] at hnext

/-- When nothing is accepted, the best Operating Points are the ones that the
relaxed constraint keeps. -/
theorem ClosestIn.mem_iff_keep (hfound : c.ClosestIn seen found value)
    (hnone : ∀ op ∈ seen, c.achieves op = false) (op : OperatingPointPtr g) :
    op ∈ found ↔ op ∈ c.stage.keep {op | op ∈ seen} := by
  have hrejects : ∀ op ∈ {op | op ∈ seen}, ¬ c.stage.accepts op := by
    intro other hother
    rw [stage_accepts, hnone other hother]
    exact Bool.false_ne_true
  have hcloser : ∀ {first second}, first ∈ seen → second ∈ seen →
      (c.stage.distance first ≤ c.stage.distance second ↔
        c.costOf first ≤ c.costOf second) := fun hfirst hsecond =>
    ComparisonFunctions.abs_sub_le_iff (hnone _ hfirst) (hnone _ hsecond)
  obtain ⟨⟨reached, hreached, hvalue⟩, hmem, hsmallest⟩ := hfound
  rw [hmem, Stage.keep_eq_closest hrejects]
  refine and_congr_right fun hop => ?_
  constructor
  · intro heq other hother
    rw [hcloser hop hother, costOf, heq]
    exact hsmallest other hother
  · intro hclosest
    have hle := (hcloser hop hreached).mp (hclosest reached hreached)
    rw [costOf, costOf, hvalue] at hle
    exact c.targetGoal.comparisonFunction.cost_injective
      (le_antisymm hle (hsmallest op hop))

/-- What `narrow` has found in a part of a stream. -/
structure NarrowedIn (c : Constraint g) (seen : OPStream g)
    (found : OPStream g × ℚ × Bool) : Prop where
  valid : found.2.2 = true → (∃ op ∈ seen, c.achieves op = true) ∧
    ∀ op, op ∈ found.1 ↔ op ∈ seen ∧ c.achieves op = true
  invalid : found.2.2 = false → (∀ op ∈ seen, c.achieves op = false) ∧
    c.ClosestIn seen found.1 found.2.1

theorem NarrowedIn.step {state : OPStream g × ℚ × Bool}
    (hfound : c.NarrowedIn seen state) (op : OperatingPointPtr g) :
    c.NarrowedIn (seen ++ [op]) (c.narrowStep state op) := by
  obtain ⟨bestOps, bestOpValue, bestOpIsValid⟩ := state
  cases hachieves : c.achieves op with
  | true =>
      have hstep : c.narrowStep (bestOps, bestOpValue, bestOpIsValid) op =
          ((if bestOpIsValid then bestOps else []) ++ [op], bestOpValue,
            true) := by
        rw [narrowStep]
        exact if_pos hachieves
      rw [hstep]
      refine ⟨fun _ => ⟨⟨op, by simp, hachieves⟩, fun other => ?_⟩, nofun⟩
      rw [List.mem_append, List.mem_append, List.mem_singleton, or_and_right]
      refine or_congr ?_ (and_iff_left_of_imp fun heq => heq ▸ hachieves).symm
      cases bestOpIsValid with
      | true => exact (hfound.valid rfl).2 other
      | false =>
          simp only [Bool.false_eq_true, if_false, List.not_mem_nil,
            false_iff, not_and]
          intro hother
          rw [(hfound.invalid rfl).1 other hother]
          exact Bool.false_ne_true
  | false =>
      cases bestOpIsValid with
      | true =>
          have hstep : c.narrowStep (bestOps, bestOpValue, true) op =
              (bestOps, bestOpValue, true) := by
            simp [narrowStep, hachieves]
          obtain ⟨⟨reached, hreached, haccepts⟩, hmem⟩ := hfound.valid rfl
          rw [hstep]
          refine ⟨fun _ => ⟨⟨reached, by simp [hreached], haccepts⟩,
            fun other => ?_⟩, nofun⟩
          rw [hmem, List.mem_append, List.mem_singleton, or_and_right]
          refine (or_iff_left ?_).symm
          rintro ⟨rfl, haccepted⟩
          rw [hachieves] at haccepted
          contradiction
      | false =>
          obtain ⟨hnone, hclosest⟩ := hfound.invalid rfl
          have hstep : c.narrowStep (bestOps, bestOpValue, false) op =
              ((c.getClosestStep (bestOps, bestOpValue) op).1,
                (c.getClosestStep (bestOps, bestOpValue) op).2, false) := by
            simp only [narrowStep, hachieves, getClosestStep,
              Bool.false_eq_true, if_false, Bool.not_false, Bool.true_and,
              decide_eq_true_eq]
            split
            · rfl
            · split <;> rfl
          rw [hstep]
          refine ⟨nofun, fun _ => ⟨?_, hclosest.step op⟩⟩
          rw [List.forall_mem_append, List.forall_mem_singleton]
          exact ⟨hnone, hachieves⟩

/-- `narrow` computes the relaxed constraint. -/
theorem mem_narrow (c : Constraint g) (ops : OPStream g)
    (op : OperatingPointPtr g) :
    op ∈ c.narrow ops ↔ op ∈ c.stage.keep {op | op ∈ ops} := by
  cases ops with
  | nil =>
      refine iff_of_false List.not_mem_nil fun hkeep => ?_
      exact List.not_mem_nil hkeep.1
  | cons head rest =>
      have hfold : ∀ (rest seen : OPStream g) (state : OPStream g × ℚ × Bool),
          c.NarrowedIn seen state →
          c.NarrowedIn (seen ++ rest) (rest.foldl c.narrowStep state) := by
        intro rest
        induction rest with
        | nil =>
            intro seen state hstate
            simpa using hstate
        | cons other rest ih =>
            intro seen state hstate
            have hnext := ih _ _ (hstate.step other)
            rwa [List.append_assoc] at hnext
      have hstart : c.NarrowedIn [head]
          ([head], c.evaluateOp head, c.achieves head) := by
        refine ⟨fun hvalid => ⟨⟨head, by simp, hvalid⟩, fun other => ?_⟩,
          fun hinvalid => ⟨by simpa using hinvalid,
            closestIn_singleton c head⟩⟩
        rw [List.mem_singleton]
        exact (and_iff_left_of_imp fun heq => heq ▸ hvalid).symm
      have hfound := hfold rest [head] _ hstart
      rw [narrow]
      cases hvalid : (rest.foldl c.narrowStep
          ([head], c.evaluateOp head, c.achieves head)).2.2 with
      | true =>
          obtain ⟨hexists, hmem⟩ := hfound.valid hvalid
          rw [hmem, Stage.keep_eq_of_exists hexists]
          rfl
      | false =>
          obtain ⟨hnone, hclosest⟩ := hfound.invalid hvalid
          exact hclosest.mem_iff_keep hnone op

section Closest

variable [HashOrder (OperatingPointPtr g)]

theorem getClosest_eq_nil : c.getClosest = [] ↔ ∀ op, op ∉ c.blockedOps := by
  rw [← UnorderedSet.iterate_eq_nil, getClosest]
  cases c.blockedOps.iterate with
  | nil => simp
  | cons head rest =>
      have hfound := (closestIn_singleton c head).foldl rest
      obtain ⟨op, hop, hvalue⟩ := hfound.attained
      refine iff_of_false (fun hnil => ?_) (List.cons_ne_nil head rest)
      have hmem := (hfound.mem_iff op).mpr ⟨hop, hvalue⟩
      exact List.ne_nil_of_mem hmem hnil

/-- A constraint that accepts nothing of what it blocks keeps what is closest
to its goal. -/
theorem mem_getClosest (hrejects : ∀ op ∈ c.blockedOps, c.achieves op = false)
    (op : OperatingPointPtr g) :
    op ∈ c.getClosest ↔ op ∈ c.stage.keep {op | op ∈ c.blockedOps} := by
  have hiterate : {op | op ∈ c.blockedOps} =
      {op | op ∈ c.blockedOps.iterate} :=
    Set.ext fun _ => UnorderedSet.mem_iterate.symm
  have hnone : ∀ op ∈ c.blockedOps.iterate, c.achieves op = false :=
    fun op hop => hrejects op (UnorderedSet.mem_iterate.mp hop)
  rw [getClosest, hiterate]
  cases hstream : c.blockedOps.iterate with
  | nil =>
      refine iff_of_false List.not_mem_nil fun hkeep => ?_
      exact List.not_mem_nil hkeep.1
  | cons head rest =>
      rw [hstream] at hnone
      exact ((closestIn_singleton c head).foldl rest).mem_iff_keep hnone op

end Closest

end Constraint

namespace Rank

/-- Nothing among the candidates is better for the rank. -/
structure Optimal (rank : Rank g) (candidates : Set (OperatingPointPtr g))
    (op : OperatingPointPtr g) : Prop where
  mem : op ∈ candidates
  unbeaten : ∀ other ∈ candidates,
    rank.objective.best (rank.evaluate other) (rank.evaluate op) = false

variable {rank : Rank g}

theorem optimal_singleton (rank : Rank g) (op : OperatingPointPtr g) :
    rank.Optimal {op} op where
  mem := rfl
  unbeaten := by
    rintro other rfl
    cases hobjective : rank.objective <;> simp [RankObjective.best]

theorem betterOf_unbeaten {seen : OPStream g} {smallest : OperatingPointPtr g}
    (hsmallest : rank.Optimal {op | op ∈ seen} smallest)
    (op : OperatingPointPtr g) :
    rank.Optimal {other | other ∈ seen ++ [op]} (rank.betterOf smallest op) := by
  obtain ⟨hmem, hunbeaten⟩ := hsmallest
  unfold betterOf
  split
  · next hbetter =>
      refine ⟨by simp, fun other hother => ?_⟩
      rcases List.mem_append.mp hother with hother | hother
      · have hother := hunbeaten other hother
        cases hobjective : rank.objective <;>
          simp only [hobjective, RankObjective.best, decide_eq_true_eq,
            decide_eq_false_iff_not, not_lt] at * <;> linarith
      · obtain rfl : other = op := List.mem_singleton.mp hother
        cases hobjective : rank.objective <;> simp [RankObjective.best]
  · next hworse =>
      refine ⟨List.mem_append_left _ hmem, fun other hother => ?_⟩
      rcases List.mem_append.mp hother with hother | hother
      · exact hunbeaten other hother
      · obtain rfl : other = op := List.mem_singleton.mp hother
        exact Bool.eq_false_of_not_eq_true hworse

theorem bestOf_optimal {ops : OPStream g} (hne : ops ≠ []) :
    ∃ op, rank.bestOf ops = some op ∧ rank.Optimal {op | op ∈ ops} op := by
  have hfold : ∀ (rest seen : OPStream g) (smallest : OperatingPointPtr g),
      rank.Optimal {op | op ∈ seen} smallest →
      rank.Optimal {op | op ∈ seen ++ rest}
        (rest.foldl rank.betterOf smallest) := by
    intro rest
    induction rest with
    | nil =>
        intro seen smallest hsmallest
        simpa using hsmallest
    | cons op rest ih =>
        intro seen smallest hsmallest
        have hnext := ih (seen ++ [op]) (rank.betterOf smallest op)
          (betterOf_unbeaten hsmallest op)
        rwa [List.append_assoc] at hnext
  cases ops with
  | nil => exact absurd rfl hne
  | cons head rest =>
      refine ⟨_, rfl, hfold rest [head] head ?_⟩
      simpa using rank.optimal_singleton head

/-- The best valid Operating Point. -/
theorem best_optimal {op : OperatingPointPtr g} (hbest : rank.best = some op) :
    rank.Optimal {op | op ∈ rank.toStream} op := by
  rw [best] at hbest
  cases hobjective : rank.objective with
  | minimize =>
      rw [hobjective] at hbest
      refine ⟨MultiMap.mem_of_front? hbest, fun other hother => ?_⟩
      simpa [hobjective, RankObjective.best] using
        MultiMap.front?_le hbest hother
  | maximize =>
      rw [hobjective] at hbest
      refine ⟨MultiMap.mem_of_back? hbest, fun other hother => ?_⟩
      simpa [hobjective, RankObjective.best] using
        MultiMap.le_back? hbest hother

theorem best_eq_none : rank.best = none ↔ rank.toStream = [] := by
  rw [best]
  cases rank.objective with
  | minimize => exact List.head?_eq_none_iff
  | maximize => exact List.getLast?_eq_none_iff

end Rank

namespace State

/-- The search among relaxed candidates. -/
theorem getBestFromStream_optimal (rank : Rank g) {inputOps : OPStream g}
    (hne : inputOps ≠ []) (lower : List (P × Constraint g)) :
    ∃ op, getBestFromStream rank inputOps lower = some op ∧
      rank.Optimal (relax (stagesOf lower) {op | op ∈ inputOps}) op := by
  have hsingle : ∀ (op : OperatingPointPtr g)
      (lower : List (P × Constraint g)),
      relax (stagesOf lower) {other | other ∈ [op]} = {op} := by
    intro op lower
    have hset : {other | other ∈ [op]} = ({op} : Set _) :=
      Set.ext fun _ => List.mem_singleton
    rw [hset, relax_of_subsingleton _ Set.subsingleton_singleton]
  have hnarrow : ∀ (lower : List (P × Constraint g)) (ops : OPStream g),
      ops ≠ [] → ∃ op, narrowDown rank ops lower = some op ∧
        rank.Optimal (relax (stagesOf lower) {op | op ∈ ops}) op := by
    intro lower
    induction lower with
    | nil => exact fun ops hops => Rank.bestOf_optimal hops
    | cons entry rest ih =>
        intro ops hops
        have hkeep : entry.2.stage.keep {op | op ∈ ops} =
            {op | op ∈ entry.2.narrow ops} :=
          Set.ext fun op => (entry.2.mem_narrow ops op).symm
        have hnonempty : entry.2.narrow ops ≠ [] := by
          obtain ⟨head, hhead⟩ := List.exists_mem_of_ne_nil ops hops
          obtain ⟨op, hop⟩ := entry.2.stage.keep_nonempty
            (List.finite_toSet ops) ⟨head, hhead⟩
          exact List.ne_nil_of_mem ((entry.2.mem_narrow ops op).mpr hop)
        rw [stagesOf_cons, relax_cons, hkeep, narrowDown]
        split
        · next op hsplit =>
            rw [hsplit, hsingle]
            exact ⟨op, rfl, rank.optimal_singleton op⟩
        · exact ih _ hnonempty
  unfold getBestFromStream
  split
  · next op =>
      rw [hsingle]
      exact ⟨op, rfl, rank.optimal_singleton op⟩
  · exact hnarrow lower inputOps hne

variable [LinearOrder P] {kb : Knowledge g} {s : State g P}

/-- What is left of the knowledge when the constraints are relaxed: every
constraint, in decreasing priority, keeps what achieves its goal or, without
any, what is closest to it. -/
def candidates (s : State g P) (kb : Knowledge g) :
    Set (OperatingPointPtr g) :=
  relax (stagesOf s.constraints.entries) kb.points

section Solve

variable [HashOrder (OperatingPointPtr g)]

/-- The answer that is expected of a state. -/
structure Solves (s : State g P) (kb : Knowledge g)
    (found : Option (OperatingPointPtr g)) : Prop where
  none_iff : found = none ↔ kb.empty = true
  optimal : ∀ op, found = some op → s.rank.Optimal (s.candidates kb) op

omit [HashOrder (OperatingPointPtr g)] in
theorem solves_some {op : OperatingPointPtr g}
    (hoptimal : s.rank.Optimal (s.candidates kb) op) : s.Solves kb (some op) where
  none_iff := by
    refine iff_of_false (Option.some_ne_none op) fun hempty => ?_
    have hknown := relax_subset _ _ hoptimal.mem
    exact Knowledge.empty_eq_true.mp hempty op hknown
  optimal := by
    rintro _ ⟨rfl⟩
    exact hoptimal

/-- The walk from the last constraint up, when nothing is valid. -/
theorem solves_relaxConstraints (hpart : s.Partition kb)
    (hinvalid : s.rank.toStream = []) (higher : List (P × Constraint g))
    {lower : List (P × Constraint g)}
    (hsplit : s.constraints.entries = higher.reverse ++ lower)
    (hlower : ∀ entry ∈ lower, ∀ op, op ∉ entry.2.blockedOps) :
    s.Solves kb (relaxConstraints s.rank higher lower) := by
  induction higher generalizing lower with
  | nil =>
      refine ⟨iff_of_true rfl ?_, nofun⟩
      rw [Knowledge.empty_eq_true]
      intro op hop
      rcases hpart.placed_once hop with ⟨hrank, -⟩ | ⟨-, entry, hentry, -⟩
      · rw [hinvalid] at hrank
        exact List.not_mem_nil hrank
      · rw [hsplit] at hentry
        exact hlower entry hentry.1 op hentry.2
  | cons entry rest ih =>
      rw [List.reverse_cons, List.append_assoc] at hsplit
      rw [relaxConstraints]
      split
      · next hnone =>
          apply ih hsplit
          rw [List.singleton_append, List.forall_mem_cons]
          exact ⟨Constraint.getClosest_eq_nil.mp hnone, hlower⟩
      · next hsome =>
          have hchain := hpart.filtered
          have hholds := hpart.holds
          rw [hsplit, List.singleton_append, filtered_stagesOf_around]
            at hchain
          obtain ⟨-, hblocked, hrest⟩ := hchain
          let reached := passed (stagesOf rest.reverse) kb.points
          -- nothing that reaches the constraint can be accepted by it
          have hnone : ∀ op ∈ reached, entry.2.achieves op = false := by
            intro op hop
            by_contra haccepts
            have haccepts := Bool.eq_true_of_not_eq_false haccepts
            have hpassed := (hrest.mem_passed_iff ⟨hop, haccepts⟩).mpr (by
              rw [stagesOf, List.forall_mem_map]
              exact fun other hother => hlower other hother op)
            have hrank := (hholds.mem_iff op).mpr (by
              rw [hsplit, List.singleton_append, stagesOf_append,
                passed_append, stagesOf_cons, passed_cons]
              exact hpassed)
            rw [hinvalid] at hrank
            exact List.not_mem_nil hrank
          have hset : {op | op ∈ entry.2.blockedOps} = reached :=
            Set.ext fun op => (hblocked op).trans
              (and_iff_left_of_imp (hnone op))
          have hreached : reached.Nonempty := by
            by_contra hempty
            refine hsome (Constraint.getClosest_eq_nil.mpr fun op hop => ?_)
            exact hempty ⟨op, ((hblocked op).mp hop).1⟩
          have hclosest : {op | op ∈ entry.2.getClosest} =
              entry.2.stage.keep reached := by
            rw [← hset]
            exact Set.ext fun op => Constraint.mem_getClosest
              (fun other hother => ((hblocked other).mp hother).2) op
          have hcandidates : s.candidates kb =
              relax (stagesOf lower) {op | op ∈ entry.2.getClosest} := by
            rw [candidates, hsplit, stagesOf_append, relax_append,
              relax_eq_passed hreached, hclosest]
            rfl
          obtain ⟨op, hfound, hoptimal⟩ :=
            getBestFromStream_optimal s.rank hsome lower
          rw [hfound]
          exact solves_some (hcandidates ▸ hoptimal)

/-- The code solves the problem that the partition represents. -/
theorem solves_solve (hpart : s.Partition kb) : s.Solves kb s.solve := by
  rw [solve]
  cases hbest : s.rank.best with
  | some op =>
      have hoptimal := Rank.best_optimal hbest
      have hset : {op | op ∈ s.rank.toStream} =
          passed (stagesOf s.constraints.entries) kb.points :=
        Set.ext hpart.holds.mem_iff
      have hcandidates : s.candidates kb = {op | op ∈ s.rank.toStream} := by
        rw [hset]
        exact relax_eq_passed ⟨op, hset ▸ hoptimal.mem⟩
      exact solves_some (hcandidates ▸ hoptimal)
  | none =>
      exact solves_relaxConstraints hpart (Rank.best_eq_none.mp hbest)
        s.constraints.entries.reverse (by simp) (by simp)

/-- A fresh solve updates the state and answers with a best configuration of
the updated state. -/
theorem getBestOperatingPoint_solves (hpart : s.Partition kb)
    (hchanged : s.problemIsChanged = true) (runtime : RuntimeInformation) :
    ∃ updated, s.update runtime = some updated ∧
      updated.Solves kb updated.solve ∧
      s.getBestOperatingPoint runtime = some ({ updated with
        problemIsChanged := false
        bestOperatingPointFound := updated.solve }, updated.solve) := by
  obtain ⟨updated, hupdate, hupdated, -⟩ := update_spec hpart runtime
  refine ⟨updated, hupdate, solves_solve hupdated.partition, ?_⟩
  have hflag : updated.problemIsChanged = true := by
    by_contra hclear
    have hbefore := (hupdated.unchanged
      (Bool.eq_false_of_not_eq_true hclear)).1
    rw [hchanged] at hbefore
    contradiction
  rw [getBestOperatingPoint, hupdate, Option.map_some, if_pos hflag]

end Solve

end State

namespace Updating

theorem getBestOperatingPoint_solves_tightened :
    ∃ updated, constrained.update tightened = some updated ∧
      updated.Solves knowledge updated.solve ∧
      constrained.getBestOperatingPoint tightened = some ({ updated with
        problemIsChanged := false
        bestOperatingPointFound := updated.solve }, updated.solve) :=
  State.getBestOperatingPoint_solves
    (State.partition_setKnowledgeBase _ knowledge) (by decide +kernel)
    tightened

end Updating

end Margot
