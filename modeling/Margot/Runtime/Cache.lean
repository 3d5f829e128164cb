/-
The cached answer.  A solve is skipped as long as nothing sets the flag of the
state, but a constraint that moves no Operating Point, a check value that
changes without moving one and a new rank without valid Operating Points leave
the flag as it is.  The answer is still as good as a fresh one when the
candidates that such a step could tell apart are decided before it.
-/
import Margot.Runtime.Operations
import Margot.Runtime.Optimality

namespace Margot

variable {g : Geometry} {P : Type}

namespace Constraint

/-- While nothing has to move, the check value is of no account to what the
relaxed constraint keeps of the Operating Points that reach it. -/
theorem keep_retarget {c : Constraint g} {runtime : RuntimeInformation}
    {reached : Set (OperatingPointPtr g)}
    (hbefore : ∀ op, op ∈ c.blockedOps ↔
      op ∈ reached ∧ c.achieves op = false)
    (hafter : ∀ op, op ∈ c.blockedOps ↔
      op ∈ reached ∧ (c.retarget runtime).achieves op = false) :
    (c.retarget runtime).stage.keep reached = c.stage.keep reached := by
  have hsame : ∀ op ∈ reached,
      (c.retarget runtime).achieves op = c.achieves op := by
    intro op hop
    have hrejects := (hafter op).symm.trans (hbefore op)
    simp only [hop, true_and] at hrejects
    cases haccepts : c.achieves op <;> simp_all
  by_cases hexists : ∃ op ∈ reached, c.stage.accepts op
  · have hexistsAfter : ∃ op ∈ reached,
        (c.retarget runtime).stage.accepts op := by
      obtain ⟨op, hop, haccepts⟩ := hexists
      exact ⟨op, hop, (hsame op hop).trans haccepts⟩
    rw [Stage.keep_eq_of_exists hexists,
      Stage.keep_eq_of_exists hexistsAfter]
    ext op
    refine and_congr_right fun hop => ?_
    rw [stage_accepts, stage_accepts, hsame op hop]
  · have hnone : ∀ op ∈ reached, c.achieves op = false := fun op hop =>
      Bool.eq_false_of_not_eq_true fun haccepts => hexists ⟨op, hop, haccepts⟩
    have hnoneAfter : ∀ op ∈ reached,
        (c.retarget runtime).achieves op = false := fun op hop =>
      (hsame op hop).trans (hnone op hop)
    have hrejects : ∀ op ∈ reached, ¬ c.stage.accepts op :=
      fun op hop haccepts => hexists ⟨op, hop, haccepts⟩
    have hrejectsAfter : ∀ op ∈ reached,
        ¬ (c.retarget runtime).stage.accepts op := by
      intro op hop haccepts
      exact hrejects op hop ((hsame op hop).symm.trans haccepts)
    rw [Stage.keep_eq_closest hrejects, Stage.keep_eq_closest hrejectsAfter]
    ext op
    refine and_congr_right fun hop => forall₂_congr fun other hother => ?_
    have hcloser := ComparisonFunctions.abs_sub_le_iff (hnone op hop)
      (hnone other hother)
    have hcloserAfter := ComparisonFunctions.abs_sub_le_iff
      (hnoneAfter op hop) (hnoneAfter other hother)
    exact hcloserAfter.trans hcloser.symm

end Constraint

/-- The constraints leave no choice: something satisfies them all, or there is
at most one Operating Point when they are relaxed. -/
def Decided (kb : Knowledge g) (higher : List (P × Constraint g)) : Prop :=
  (passed (stagesOf higher) kb.points).Nonempty ∨
    (relax (stagesOf higher) kb.points).Subsingleton

/-- A constraint that accepts all that reaches it is of no account. -/
theorem Decided.keep_eq {kb : Knowledge g}
    {higher : List (P × Constraint g)} (hdecided : Decided kb higher)
    {c : Constraint g}
    (haccepts : ∀ op ∈ passed (stagesOf higher) kb.points,
      c.achieves op = true) :
    c.stage.keep (relax (stagesOf higher) kb.points) =
      relax (stagesOf higher) kb.points := by
  rcases hdecided with hnonempty | hsubsingleton
  · rw [relax_eq_passed hnonempty]
    exact Stage.keep_eq_self haccepts
  · exact c.stage.keep_of_subsingleton hsubsingleton

/-- New check values that move nothing leave the candidates as they are. -/
theorem relax_retarget {kb : Knowledge g} (runtime : RuntimeInformation)
    {entries : List (P × Constraint g)}
    (hbefore : Filtered kb.points (stagesOf entries))
    (hafter : Filtered kb.points (stagesOf
      (entries.map fun entry => (entry.1, entry.2.retarget runtime))))
    (hdecided : ∀ higher entry lower, entries = higher ++ entry :: lower →
      entry.2.finalGoalValue runtime = entry.2.lastCheckValue ∨
        Decided kb higher) :
    relax (stagesOf
        (entries.map fun entry => (entry.1, entry.2.retarget runtime)))
      kb.points = relax (stagesOf entries) kb.points := by
  induction entries using List.reverseRecOn with
  | nil => rfl
  | append_singleton higher entry ih =>
      rw [List.map_append] at hafter ⊢
      obtain ⟨hfirst, hblocked, -⟩ := filtered_stagesOf_around.mp hbefore
      obtain ⟨hfirstAfter, hblockedAfter, -⟩ :=
        filtered_stagesOf_around.mp hafter
      have hrelaxed := ih hfirst hfirstAfter
        (fun above other lower hsplit => hdecided above other
          (lower ++ [entry]) (by simp [hsplit]))
      have hpassed : passed (stagesOf (higher.map fun entry =>
          (entry.1, entry.2.retarget runtime))) kb.points =
          passed (stagesOf higher) kb.points := by
        ext op
        by_cases hop : op ∈ kb.points
        · rw [hfirst.mem_passed_iff hop, hfirstAfter.mem_passed_iff hop,
            stagesOf, stagesOf, List.forall_mem_map, List.forall_mem_map,
            List.forall_mem_map]
          exact Iff.rfl
        · exact iff_of_false (fun hmem => hop hmem.1) fun hmem => hop hmem.1
      rw [stagesOf_append, stagesOf_append, relax_append, relax_append,
        hrelaxed]
      rcases hdecided higher entry [] rfl with hsame | hnonempty | hsubsingleton
      · have hretarget : entry.2.retarget runtime = entry.2 := by
          rw [Constraint.retarget, hsame]
        simp only [List.map_cons, List.map_nil, hretarget]
      · rw [relax_eq_passed hnonempty]
        rw [hpassed] at hblockedAfter
        exact Constraint.keep_retarget hblocked hblockedAfter
      · have hkeep := (entry.2.retarget runtime).stage.keep_of_subsingleton
          hsubsingleton
        exact hkeep.trans (entry.2.stage.keep_of_subsingleton
          hsubsingleton).symm

namespace State

variable [LinearOrder P] {kb : Knowledge g} {s other : State g P}

theorem Solves.congr {found : Option (OperatingPointPtr g)}
    (hsolves : s.Solves kb found)
    (hcandidates : s.candidates kb = other.candidates kb)
    (hrank : s.rank.clear = other.rank.clear) : other.Solves kb found where
  none_iff := hsolves.none_iff
  optimal := by
    intro op hop
    obtain ⟨hmem, hunbeaten⟩ := hsolves.optimal op hop
    have hobjective : s.rank.clear.objective = other.rank.clear.objective := by
      rw [hrank]
    have hevaluate : s.rank.clear.evaluate = other.rank.clear.evaluate := by
      rw [hrank]
    simp only [Rank.clear, Rank.new] at hobjective hevaluate
    rw [hcandidates] at hmem hunbeaten
    rw [hobjective, hevaluate] at hunbeaten
    exact ⟨hmem, hunbeaten⟩

/-- While the flag is clear, the stored answer solves the stored problem. -/
def Cached (s : State g P) (kb : Knowledge g) : Prop :=
  s.problemIsChanged = false → s.Solves kb s.bestOperatingPointFound

theorem cached_of_changed (hflag : s.problemIsChanged = true) :
    s.Cached kb := by
  intro hclear
  rw [hflag] at hclear
  contradiction

section Steps

variable [HashOrder (OperatingPointPtr g)] {priority : P}
  {newConstraint : Constraint g}

theorem cached_insertConstraint (hpart : s.Partition kb)
    (hcached : s.Cached kb) (hadmits : s.Admits newConstraint priority)
    (hdecided : s.problemIsChanged = true ∨
      Decided kb (s.constraints.before priority)) :
    (s.insertConstraint newConstraint priority).Cached kb := by
  obtain ⟨hentries, hrank, hflag, hbest⟩ := insertConstraint_spec hpart
    newConstraint priority
  intro hclear
  rw [hflag, Bool.or_eq_false_iff, Bool.not_eq_false',
    List.isEmpty_iff] at hclear
  obtain ⟨hbefore, hrejected⟩ := hclear
  rw [hrejected, withdrawFromFirst_nil] at hentries hrank
  have hdecided := hdecided.resolve_left (by simp [hbefore])
  have haccepts : ∀ op ∈ passed
      (stagesOf (s.constraints.before priority)) kb.points,
      newConstraint.achieves op = true := by
    intro op hop
    by_contra hrejects
    have hmem := (mem_rejectedBy hpart op).mpr
      ⟨hop, Bool.eq_false_of_not_eq_true hrejects⟩
    rw [hrejected] at hmem
    exact List.not_mem_nil hmem
  have hnew := hdecided.keep_eq haccepts
  have hcandidates : s.candidates kb =
      (s.insertConstraint newConstraint priority).candidates kb := by
    rw [candidates, candidates, hentries, stagesOf_append, relax_append,
      stagesOf_cons, relax_cons]
    have hinserted : (newConstraint.filterInitialize
        (s.availableFor priority)).1.stage.keep
          (relax (stagesOf (s.constraints.before priority)) kb.points) =
        relax (stagesOf (s.constraints.before priority)) kb.points := hnew
    rw [hinserted]
    cases hfind : s.constraints.find? priority with
    | none =>
        rw [OrderedMap.entries_split_of_find?_none hfind, stagesOf_append,
          relax_append]
    | some old =>
        have hchain := hpart.filtered
        rw [OrderedMap.entries_split hfind, filtered_stagesOf_around] at hchain
        have hold : ∀ op ∈ passed
            (stagesOf (s.constraints.before priority)) kb.points,
            old.achieves op = true := by
          intro op hop
          by_contra hrejects
          have hblocked := (hchain.2.1 op).mpr
            ⟨hop, Bool.eq_false_of_not_eq_true hrejects⟩
          have hnot := hadmits.replaced old hfind op hblocked
          rw [haccepts op hop] at hnot
          contradiction
        rw [OrderedMap.entries_split hfind, stagesOf_append, relax_append,
          stagesOf_cons, relax_cons, hdecided.keep_eq hold]
  rw [hbest]
  exact (hcached hbefore).congr hcandidates (by rw [hrank]; rfl)

theorem cached_removeConstraint (hpart : s.Partition kb)
    (hcached : s.Cached kb)
    (hdecided : s.problemIsChanged = true ∨
      s.constraints.find? priority = none ∨
      Decided kb (s.constraints.before priority)) :
    (s.removeConstraint priority).Cached kb := by
  cases hfind : s.constraints.find? priority with
  | none => rwa [removeConstraint_of_find?_none hfind]
  | some c =>
      obtain ⟨hentries, hrank, hflag, hbest⟩ := removeConstraint_spec hfind
      intro hclear
      rw [hflag, Bool.or_eq_false_iff, Bool.not_eq_false',
        List.isEmpty_iff] at hclear
      obtain ⟨hbefore, hempty⟩ := hclear
      rw [handedDown, hempty, filterAdd_nil] at hentries hrank
      have hdecided : Decided kb (s.constraints.before priority) := by
        rcases hdecided with hset | hnone | hdecided
        · rw [hbefore] at hset
          contradiction
        · rw [hfind] at hnone
          contradiction
        · exact hdecided
      have hchain := hpart.filtered
      rw [OrderedMap.entries_split hfind, filtered_stagesOf_around] at hchain
      have haccepts : ∀ op ∈ passed
          (stagesOf (s.constraints.before priority)) kb.points,
          c.achieves op = true := by
        intro op hop
        by_contra hrejects
        have hblocked := (hchain.2.1 op).mpr
          ⟨hop, Bool.eq_false_of_not_eq_true hrejects⟩
        exact UnorderedSet.iterate_eq_nil.mp hempty op hblocked
      have hcandidates : s.candidates kb =
          (s.removeConstraint priority).candidates kb := by
        rw [candidates, candidates, hentries, OrderedMap.entries_split hfind,
          stagesOf_append, stagesOf_append, relax_append, relax_append,
          stagesOf_cons, relax_cons, hdecided.keep_eq haccepts]
      rw [hbest]
      exact (hcached hbefore).congr hcandidates (by rw [hrank]; rfl)

omit [HashOrder (OperatingPointPtr g)] in
theorem cached_setRank (hpart : s.Partition kb) (hcached : s.Cached kb)
    (hdecided : s.problemIsChanged = true ∨
      Decided kb s.constraints.entries)
    (objective : RankObjective) (evaluate : OperatingPointPtr g → ℚ) :
    (s.setRank objective evaluate).Cached kb := by
  by_cases hempty : s.rank.toStream.isEmpty = true
  · have hstate : s.setRank objective evaluate =
        { s with rank := Rank.new objective evaluate } := if_pos hempty
    rw [hstate]
    intro hbefore
    have hsubsingleton : (s.candidates kb).Subsingleton := by
      rcases hdecided with hset | ⟨op, hop⟩ | hsubsingleton
      · rw [show s.problemIsChanged = false from hbefore] at hset
        contradiction
      · have hrank := (hpart.holds.mem_iff op).mpr hop
        rw [List.isEmpty_iff.mp hempty] at hrank
        exact absurd hrank List.not_mem_nil
      · exact hsubsingleton
    obtain ⟨hnone, hoptimal⟩ := hcached hbefore
    refine ⟨hnone, fun op hop => ⟨(hoptimal op hop).mem, ?_⟩⟩
    intro other hother
    rw [hsubsingleton hother (hoptimal op hop).mem]
    cases objective <;> simp [RankObjective.best, Rank.new]
  · have hstate : (s.setRank objective evaluate).problemIsChanged = true := by
      rw [setRank]
      exact congrArg State.problemIsChanged (if_neg hempty)
    exact cached_of_changed hstate

omit [HashOrder (OperatingPointPtr g)] in
/-- When the update moved nothing, nothing had to move. -/
theorem partition_retarget_of_sameContents {after : State g P}
    {runtime : RuntimeInformation} (hpart : s.Partition kb)
    (hafter : after.Partition kb)
    (hcleared : cleared after.constraints.entries =
      cleared (s.retarget runtime).constraints.entries)
    (hsame : s.SameContents after) : (s.retarget runtime).Partition kb := by
  have hchecks : List.Forall₂ (fun entry other =>
      entry.1 = other.1 ∧
        entry.2.clear = (other.2.retarget runtime).clear)
      after.constraints.entries s.constraints.entries := by
    have hforall := forall₂_of_cleared hcleared
    rw [retarget, OrderedMap.entries_mapValues,
      List.forall₂_map_right_iff] at hforall
    exact hforall
  apply Partition.of_filtered
  · intro entry hentry
    obtain ⟨other, hother, rfl⟩ := List.mem_map.mp hentry
    exact hpart.views other hother
  · refine (filtered_iff_of_forall₂ ?_ kb.points).mp hafter.filtered
    rw [retarget, OrderedMap.entries_mapValues, stagesOf, stagesOf,
      List.map_map, List.forall₂_map_left_iff, List.forall₂_map_right_iff]
    refine (forall₂_and hchecks hsame.blocked.flip).imp ?_
    rintro entry other ⟨⟨-, hclear⟩, -, hblocked⟩
    refine ⟨?_, Set.ext fun op => (hblocked op).symm⟩
    funext op
    exact congrArg (· = true)
      (congrFun (Constraint.achieves_eq_of_clear hclear) op)
  · rw [← passed_stagesOf_of_cleared hcleared]
    exact ⟨hpart.rankNodup, fun op =>
      hsame.ranked.mem_iff.trans (hafter.holds.mem_iff op)⟩

/-- What a call of `get_best_operating_point` answers and leaves. -/
structure Answered (s : State g P) (kb : Knowledge g)
    (runtime : RuntimeInformation) (next : State g P) : Prop where
  partition : next.Partition kb
  solves : next.Solves kb next.bestOperatingPointFound
  cleared : cleared next.constraints.entries =
    cleared (s.retarget runtime).constraints.entries
  rank : next.rank.clear = s.rank.clear

/-- The condition under which a call cannot answer with a stale
configuration. -/
def Settled (s : State g P) (kb : Knowledge g)
    (runtime : RuntimeInformation) : Prop :=
  s.problemIsChanged = true ∨ ¬ (s.retarget runtime).Partition kb ∨
    ∀ entry ∈ s.constraints.entries,
      entry.2.finalGoalValue runtime = entry.2.lastCheckValue ∨
        Decided kb (s.constraints.before entry.1)

theorem getBestOperatingPoint_answered (hpart : s.Partition kb)
    (hcached : s.Cached kb) {runtime : RuntimeInformation}
    (hsettled : s.Settled kb runtime) :
    ∃ next, s.getBestOperatingPoint runtime =
        some (next, next.bestOperatingPointFound) ∧
      s.Answered kb runtime next := by
  obtain ⟨updated, hupdate, hupdated, hcleared⟩ := update_spec hpart runtime
  rw [getBestOperatingPoint, hupdate, Option.map_some]
  by_cases hflag : updated.problemIsChanged = true
  · have hkept := hupdated.partition
    rw [if_pos hflag]
    exact ⟨_, rfl,
      ⟨hkept.views, hkept.blocked, hkept.ranked, hkept.rankNodup⟩,
      (solves_solve hkept).congr rfl rfl, hcleared, hupdated.rank⟩
  · rw [if_neg hflag]
    refine ⟨updated, rfl, hupdated.partition, ?_, hcleared, hupdated.rank⟩
    obtain ⟨hbefore, hsame⟩ := hupdated.unchanged
      (Bool.eq_false_of_not_eq_true hflag)
    have hretarget := partition_retarget_of_sameContents hpart
      hupdated.partition hcleared hsame
    have hdecided : ∀ higher entry lower,
        s.constraints.entries = higher ++ entry :: lower →
        entry.2.finalGoalValue runtime = entry.2.lastCheckValue ∨
          Decided kb higher := by
      intro higher entry lower hsplit
      rcases hsettled with hset | hmoves | hall
      · rw [hbefore] at hset
        contradiction
      · exact absurd hretarget hmoves
      · have hentry := hall entry (by simp [hsplit])
        rwa [OrderedMap.before_of_split hsplit] at hentry
    have hcandidates : s.candidates kb = updated.candidates kb := by
      rw [candidates, candidates, relax_stagesOf_of_cleared hcleared]
      exact (relax_retarget runtime hpart.filtered hretarget.filtered
        hdecided).symm
    rw [hupdated.best]
    exact (hcached hbefore).congr hcandidates hupdated.rank.symm

/-- Two answers that are as good as each other. -/
def AsGood (s : State g P) (kb : Knowledge g)
    (found answer : Option (OperatingPointPtr g)) : Prop :=
  (found = none ∧ answer = none) ∨
    ∃ op other, found = some op ∧ answer = some other ∧
      s.rank.Optimal (s.candidates kb) op ∧
      s.rank.Optimal (s.candidates kb) other

omit [HashOrder (OperatingPointPtr g)] in
theorem Solves.asGood {found answer : Option (OperatingPointPtr g)}
    (hfound : s.Solves kb found) (hanswer : s.Solves kb answer) :
    s.AsGood kb found answer := by
  cases hfoundCase : found with
  | none =>
      have hempty := hfound.none_iff.mp hfoundCase
      exact Or.inl ⟨rfl, hanswer.none_iff.mpr hempty⟩
  | some op =>
      cases hanswerCase : answer with
      | none =>
          have hempty := hanswer.none_iff.mp hanswerCase
          rw [hfound.none_iff.mpr hempty] at hfoundCase
          contradiction
      | some other =>
          exact Or.inr ⟨op, other, rfl, rfl, hfound.optimal op hfoundCase,
            hanswer.optimal other hanswerCase⟩

/-- A call answers as well as it would with the flag set. -/
def AnswersFresh (s : State g P) (kb : Knowledge g)
    (runtime : RuntimeInformation) : Prop :=
  ∃ next found forced answer,
    s.getBestOperatingPoint runtime = some (next, found) ∧
    ({ s with problemIsChanged := true } : State g P).getBestOperatingPoint
      runtime = some (forced, answer) ∧
    next.AsGood kb found answer

theorem answersFresh_of_settled (hpart : s.Partition kb)
    (hcached : s.Cached kb) {runtime : RuntimeInformation}
    (hsettled : s.Settled kb runtime) : s.AnswersFresh kb runtime := by
  obtain ⟨next, hnext, hanswered⟩ :=
    getBestOperatingPoint_answered hpart hcached hsettled
  have hforcedPart : ({ s with problemIsChanged := true } :
      State g P).Partition kb :=
    ⟨hpart.views, hpart.blocked, hpart.ranked, hpart.rankNodup⟩
  obtain ⟨forced, hforced, hforcedAnswered⟩ :=
    getBestOperatingPoint_answered hforcedPart (cached_of_changed rfl)
      (Or.inl rfl : State.Settled _ kb runtime)
  refine ⟨next, _, forced, _, hnext, hforced, ?_⟩
  have hsame := hforcedAnswered.cleared.trans hanswered.cleared.symm
  have hcandidates : forced.candidates kb = next.candidates kb :=
    relax_stagesOf_of_cleared hsame kb.points
  exact hanswered.solves.asGood (hforcedAnswered.solves.congr hcandidates
    (hforcedAnswered.rank.trans hanswered.rank.symm))

end Steps

end State

namespace Setting

variable [LinearOrder P]

/-- Every call answers as well as a fresh one. -/
def AnswersFresh [HashOrder (OperatingPointPtr g)] (setting : Setting g P) :
    Operation g P → Prop
  | .getBestOperatingPoint runtime =>
      setting.state.AnswersFresh setting.knowledge runtime
  | _ => True

/-- What the operation can tell apart without setting the flag is decided
before it. -/
def Settled (setting : Setting g P) : Operation g P → Prop
  | .addConstraint _ _ _ _ _ priority =>
      setting.state.problemIsChanged = true ∨
        Decided setting.knowledge (setting.state.constraints.before priority)
  | .removeConstraint priority =>
      setting.state.problemIsChanged = true ∨
        setting.state.constraints.find? priority = none ∨
        Decided setting.knowledge (setting.state.constraints.before priority)
  | .setRank _ _ =>
      setting.state.problemIsChanged = true ∨
        Decided setting.knowledge setting.state.constraints.entries
  | .getBestOperatingPoint runtime =>
      setting.state.Settled setting.knowledge runtime
  | _ => True

/-- The invariant of the runs: the partition, and an answer that solves the
problem while the flag is clear. -/
structure Sound (setting : Setting g P) : Prop where
  partitioned : setting.Partitioned
  cached : setting.state.Cached setting.knowledge

/-- The operation keeps the partition and is settled. -/
structure Undisturbed (setting : Setting g P) (operation : Operation g P) :
    Prop where
  acceptsLower : setting.AcceptsLower operation
  rejectsReplaced : setting.RejectsReplaced operation
  settled : setting.Settled operation

section Runs

variable [HashOrder (OperatingPointPtr g)] {before after : Setting g P}

theorem cached_step {operation : Operation g P} (hsound : before.Sound)
    (hmeets : before.Undisturbed operation)
    (hstep : before.step operation = some after) :
    after.state.Cached after.knowledge := by
  obtain ⟨hpart, hcached⟩ := hsound
  obtain ⟨haccepts, hrejects, hsettled⟩ := hmeets
  cases operation with
  | setKnowledgeBase kb =>
      obtain rfl := Option.some.inj hstep
      exact State.cached_of_changed rfl
  | addOperatingPoints opList =>
      obtain rfl := Option.some.inj hstep
      exact State.cached_of_changed rfl
  | removeOperatingPoints configurationList =>
      obtain rfl := Option.some.inj hstep
      exact State.cached_of_changed rfl
  | addConstraint information runtime targetField sigma goalValue priority =>
      obtain rfl := Option.some.inj hstep
      exact State.cached_insertConstraint hpart hcached ⟨haccepts, hrejects⟩
        hsettled
  | removeConstraint priority =>
      obtain rfl := Option.some.inj hstep
      exact State.cached_removeConstraint hpart hcached hsettled
  | setRank objective evaluate =>
      obtain rfl := Option.some.inj hstep
      exact State.cached_setRank hpart hcached hsettled objective evaluate
  | getBestOperatingPoint runtime =>
      obtain ⟨next, hnext, hanswered⟩ :=
        State.getBestOperatingPoint_answered hpart hcached hsettled
      simp only [step, hnext, Option.map_some] at hstep
      obtain rfl := Option.some.inj hstep
      exact fun _ => hanswered.solves

omit [HashOrder (OperatingPointPtr g)] in
theorem sound_empty : (empty : Setting g P).Sound :=
  ⟨State.partition_new, State.cached_of_changed rfl⟩

theorem sound_step (before : Setting g P) (operation : Operation g P)
    (after : Setting g P) (hsound : before.Sound)
    (hmeets : before.Undisturbed operation)
    (hstep : before.step operation = some after) : after.Sound where
  partitioned := partition_step hsound.partitioned hmeets.acceptsLower
    hmeets.rejectsReplaced hstep
  cached := cached_step hsound hmeets hstep

theorem answersFresh_of_undisturbed {operation : Operation g P}
    (hsound : before.Sound) (hmeets : before.Undisturbed operation) :
    before.AnswersFresh operation := by
  cases operation with
  | getBestOperatingPoint runtime =>
      exact State.answersFresh_of_settled hsound.partitioned hsound.cached
        hmeets.settled
  | _ => trivial

/-- In a run whose operations are all undisturbed, no call answers with a
stale configuration. -/
theorem answersFresh_allSteps (operations : List (Operation g P))
    (hmeets : AllSteps step Undisturbed empty operations) :
    AllSteps step AnswersFresh empty operations := by
  intro pre operation before after hpre hrun hstep
  have hmeetsPre := hmeets.restrict
    ((List.prefix_append pre [operation]).trans hpre)
  have hsound := runFrom_invariant sound_step sound_empty hmeetsPre hrun
  exact answersFresh_of_undisturbed hsound
    (hmeets pre operation before after hpre hrun hstep)

end Runs

theorem answersFresh_allSteps_constrained :
    AllSteps step AnswersFresh empty
      ([.addOperatingPoints [.single 0 1 5, .single 1 2 5], constrain 3 1,
        .getBestOperatingPoint RuntimeInformation.numbered] :
          List (Operation Geometry.single Nat)) := by
  apply answersFresh_allSteps
  refine AllSteps.cons ⟨trivial, trivial, trivial⟩ fun first hfirst => ?_
  obtain rfl := Option.some.inj hfirst
  refine AllSteps.cons ⟨?_, ?_, Or.inl rfl⟩ fun second hsecond => ?_
  · intro entry hentry
    exact absurd hentry List.not_mem_nil
  · exact fun old hfind => nomatch hfind
  obtain rfl := Option.some.inj hsecond
  refine AllSteps.cons ⟨trivial, trivial, Or.inl ?_⟩ fun _ _ => allSteps_nil
  decide +kernel

/-- The value of the software knob. -/
def knob : OperatingPointPtr Geometry.single → ℚ :=
  opUtilsGet .lower (State.dummyField Geometry.single) 0

/-- Two Operating Points that miss the goal by as much, solved for the smaller
knob and then ranked by the larger one. -/
def stale : List (Operation Geometry.single Nat) :=
  [.addOperatingPoints [.single 0 1 5, .single 1 2 5], constrain 3 1,
    .getBestOperatingPoint RuntimeInformation.numbered, .setRank .maximize knob,
    .getBestOperatingPoint RuntimeInformation.numbered]

def beforeLastCall : Setting Geometry.single Nat :=
  (runFrom step empty (stale.take 4)).get (by decide +kernel)

def afterLastCall : Setting Geometry.single Nat :=
  (beforeLastCall.step (.getBestOperatingPoint
    RuntimeInformation.numbered)).get (by decide +kernel)

/-- The second call of the run still answers with the smaller knob. -/
theorem not_answersFresh_stale :
    ¬ ∀ operations : List (Operation Geometry.single Nat),
      AllSteps step AnswersFresh empty operations := by
  intro hall
  have hbefore : runFrom step empty (stale.take 4) = some beforeLastCall :=
    (Option.some_get _).symm
  have hlast : beforeLastCall.step
      (.getBestOperatingPoint RuntimeInformation.numbered) =
        some afterLastCall := (Option.some_get _).symm
  obtain ⟨next, found, forced, answer, hnext, hforced, hgood⟩ :=
    hall stale (stale.take 4) _ beforeLastCall afterLastCall
      List.prefix_rfl hbefore hlast
  have hfound : (beforeLastCall.state.getBestOperatingPoint
      RuntimeInformation.numbered).map Prod.snd =
        some (some (.single 0 1 5)) := by decide +kernel
  have hanswer : (({ beforeLastCall.state with problemIsChanged := true } :
      State Geometry.single Nat).getBestOperatingPoint
        RuntimeInformation.numbered).map Prod.snd =
        some (some (.single 1 2 5)) := by decide +kernel
  have hbeaten : (beforeLastCall.state.getBestOperatingPoint
      RuntimeInformation.numbered).map (fun result =>
        result.1.rank.objective.best
          (result.1.rank.evaluate (.single 1 2 5))
          (result.1.rank.evaluate (.single 0 1 5))) = some true := by
    decide +kernel
  rw [hnext, Option.map_some, Option.some.injEq] at hfound hbeaten
  rw [hforced, Option.map_some, Option.some.injEq] at hanswer
  subst hfound hanswer
  rcases hgood with ⟨hnone, -⟩ | ⟨op, other, hop, hother, hoptimal, hbetter⟩
  · contradiction
  · obtain rfl := Option.some.inj hop
    obtain rfl := Option.some.inj hother
    rw [hoptimal.unbeaten _ hbetter.mem] at hbeaten
    contradiction

end Setting

end Margot
