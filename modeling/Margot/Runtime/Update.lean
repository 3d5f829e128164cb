/-
The incremental update.  The constraints take their new check values one after
the other, in priority order; each of them only looks at the slice of its view
between the old and the new value, blocks what became invalid and hands on what
became valid.  Every iteration keeps the partition, so the update leaves what a
rebuild from scratch with the new check values would leave.
-/
import Margot.Runtime.Partition

namespace Margot

variable {g : Geometry} {P : Type}

namespace ComparisonFunctions

variable {comparison : ComparisonFunctions} {last final value : ℚ}

/-- A goal that is itself better than the last one asks for more. -/
theorem compare_of_better (hbetter : comparison.compare final last = true)
    (hvalue : comparison.compare value final = true) :
    comparison.compare value last = true := by
  cases comparison <;> simp only [compare, decide_eq_true_eq] at * <;>
    linarith

/-- A goal that is worse than the last one asks for less. -/
theorem compare_of_not_better
    (hworse : comparison.compare final last = false)
    (hvalue : comparison.compare value last = true) :
    comparison.compare value final = true := by
  cases comparison <;>
    simp only [compare, decide_eq_true_eq, decide_eq_false_iff_not, not_lt,
      not_le] at * <;> linarith

/-- A check that depends on the goal lies between the two goals. -/
theorem between_of_compare_ne
    (hne : comparison.compare value last ≠ comparison.compare value final) :
    min last final ≤ value ∧ value ≤ max last final := by
  rw [min_le_iff, le_max_iff]
  by_contra hout
  rw [not_and_or, not_or, not_or, not_le, not_le, not_le, not_le] at hout
  apply hne
  rcases hout with ⟨hlast, hfinal⟩ | ⟨hlast, hfinal⟩ <;>
    cases comparison <;>
    simp [compare, hlast, hfinal, hlast.le, hfinal.le, hlast.not_ge,
      hfinal.not_ge, hlast.not_gt, hfinal.not_gt]

end ComparisonFunctions

namespace Constraint

/-- The constraint with the check value that it is asked for now. -/
def retarget (c : Constraint g) (runtime : RuntimeInformation) :
    Constraint g :=
  { c with lastCheckValue := c.finalGoalValue runtime }

variable {c : Constraint g} {runtime : RuntimeInformation}

/-- Truncation does not lose anything of the slice. -/
theorem mem_viewRange {a b : ℚ} {op : OperatingPointPtr g}
    (hview : op ∈ c.knowledgeView)
    (hbetween : min a b ≤ c.evaluateOp op ∧ c.evaluateOp op ≤ max a b) :
    op ∈ c.viewRange a b := by
  have hint : c.targetField.valueType = .integer →
      ∃ n : Int, c.evaluateOp op = n := fun htype =>
    opUtilsGet_isInt htype _ _ _
  obtain ⟨hlow, hhigh⟩ := hbetween
  refine MultiMap.mem_range.mpr ⟨hview, ?_, ?_⟩
  · rcases min_le_iff.mp hlow with hle | hle
    · exact min_le_iff.mpr (Or.inl (staticCast_le_of_le hint hle))
    · exact min_le_iff.mpr (Or.inr (staticCast_le_of_le hint hle))
  · rcases le_max_iff.mp hhigh with hle | hle
    · exact le_max_iff.mpr (Or.inl (le_staticCast_of_le hint hle))
    · exact le_max_iff.mpr (Or.inr (le_staticCast_of_le hint hle))

theorem viewRange_sublist (c : Constraint g) (a b : ℚ) :
    (c.viewRange a b).Sublist c.knowledgeView.elems :=
  (List.takeWhile_sublist _).trans (List.dropWhile_sublist _)

/-- What `update` does to a constraint that blocks what it rejects. -/
structure Updated (c : Constraint g) (runtime : RuntimeInformation)
    (after : Constraint g) (invalid valid : OPStream g) : Prop where
  clear : after.clear = (c.retarget runtime).clear
  invalidNodup : invalid.Nodup
  validNodup : valid.Nodup
  invalidated : ∀ op ∈ invalid,
    op ∈ c.knowledgeView ∧ (c.retarget runtime).achieves op = false
  found : ∀ op ∈ c.knowledgeView, c.achieves op = true →
    (c.retarget runtime).achieves op = false → op ∈ invalid
  validated : ∀ op, op ∈ valid ↔
    op ∈ c.blockedOps ∧ (c.retarget runtime).achieves op = true
  blocked : ∀ op, op ∈ after.blockedOps ↔ op ∈ c.blockedOps ∧ op ∉ valid

section Reached

variable {after : Constraint g} {invalid valid pruned : OPStream g}
  {reached : Set (OperatingPointPtr g)}

/-- The constraint blocks what reaches it and is rejected now. -/
theorem Updated.mem_blockedOps
    (hupdated : c.Updated runtime after invalid valid)
    (hblocked : ∀ op, op ∈ c.blockedOps ↔
      op ∈ reached ∧ c.achieves op = false)
    (hview : ∀ op ∈ reached, op ∈ c.knowledgeView)
    (hpruned : ∀ op, op ∈ pruned ↔ op ∈ invalid ∧ op ∈ reached)
    (op : OperatingPointPtr g) :
    op ∈ (after.filterAdd pruned).1.blockedOps ↔
      op ∈ reached ∧ (c.retarget runtime).achieves op = false := by
  rw [mem_blockedOps_filterAdd, hupdated.blocked, hpruned]
  constructor
  · rintro (⟨hop, hnot⟩ | ⟨⟨hinvalid, hreached⟩, -⟩)
    · refine ⟨((hblocked op).mp hop).1, ?_⟩
      by_contra haccepts
      exact hnot ((hupdated.validated op).mpr
        ⟨hop, Bool.eq_true_of_not_eq_false haccepts⟩)
    · exact ⟨hreached, (hupdated.invalidated op hinvalid).2⟩
  · rintro ⟨hreached, hrejects⟩
    cases hbefore : c.achieves op with
    | true =>
        refine Or.inr ⟨⟨hupdated.found op (hview op hreached) hbefore hrejects,
          hreached⟩, ?_⟩
        rw [achieves_eq_of_clear hupdated.clear]
        exact hrejects
    | false =>
        refine Or.inl ⟨(hblocked op).mpr ⟨hreached, hbefore⟩, fun hvalid => ?_⟩
        rw [((hupdated.validated op).mp hvalid).2] at hrejects
        contradiction

/-- The lower constraints get what reaches the constraint and is accepted
now. -/
theorem Updated.handed_on
    (hupdated : c.Updated runtime after invalid valid)
    (hblocked : ∀ op, op ∈ c.blockedOps ↔
      op ∈ reached ∧ c.achieves op = false)
    (hview : ∀ op ∈ reached, op ∈ c.knowledgeView)
    (hpruned : ∀ op, op ∈ pruned ↔ op ∈ invalid ∧ op ∈ reached) :
    ({op | op ∈ reached ∧ c.achieves op = true} \ {op | op ∈ pruned}) ∪
        {op | op ∈ valid} =
      {op | op ∈ reached ∧ (c.retarget runtime).achieves op = true} := by
  ext op
  simp only [Set.mem_union, Set.mem_sdiff, Set.mem_ofPred_eq, hpruned]
  constructor
  · rintro (⟨⟨hreached, haccepts⟩, hnot⟩ | hvalid)
    · refine ⟨hreached, ?_⟩
      by_contra hrejects
      exact hnot ⟨hupdated.found op (hview op hreached) haccepts
        (Bool.eq_false_of_not_eq_true hrejects), hreached⟩
    · obtain ⟨hop, haccepts⟩ := (hupdated.validated op).mp hvalid
      exact ⟨((hblocked op).mp hop).1, haccepts⟩
  · rintro ⟨hreached, haccepts⟩
    cases hbefore : c.achieves op with
    | true =>
        refine Or.inl ⟨⟨hreached, rfl⟩, fun hop => ?_⟩
        rw [(hupdated.invalidated op hop.1).2] at haccepts
        contradiction
    | false =>
        exact Or.inr ((hupdated.validated op).mpr
          ⟨(hblocked op).mpr ⟨hreached, hbefore⟩, haccepts⟩)

end Reached

theorem release_spec (c : Constraint g) (goalValue : ℚ) {stream : OPStream g}
    (hnodup : stream.Nodup) :
    (c.release goalValue stream).1.clear = c.clear ∧
      (c.release goalValue stream).2 = stream.filter (fun op =>
        op ∈ c.blockedOps ∧
          c.targetGoal.check (c.evaluateOp op) goalValue = true) ∧
      ∀ op, op ∈ (c.release goalValue stream).1.blockedOps ↔
        op ∈ c.blockedOps ∧ op ∉ (c.release goalValue stream).2 := by
  induction stream generalizing c with
  | nil => simp [release]
  | cons head rest ih =>
      obtain ⟨hhead, hrest⟩ := List.nodup_cons.mp hnodup
      rw [release]
      split
      · next hrelease =>
          obtain ⟨hclear, hout, hblocked⟩ :=
            ih { c with blockedOps := c.blockedOps.erase head } hrest
          refine ⟨hclear, ?_, ?_⟩
          · rw [List.filter_cons_of_pos (by simpa using hrelease)]
            refine congrArg (head :: ·) (hout.trans ?_)
            apply List.filter_congr
            intro op hop
            have hne : op ≠ head := fun heq => hhead (heq ▸ hop)
            simp only [UnorderedSet.mem_erase, ne_eq, hne, not_false_eq_true,
              true_and]
            rfl
          · intro op
            rw [hblocked, UnorderedSet.mem_erase, List.mem_cons]
            tauto
      · next hkeep =>
          obtain ⟨hclear, hout, hblocked⟩ := ih c hrest
          refine ⟨hclear, ?_, hblocked⟩
          rw [List.filter_cons_of_neg (by simpa using hkeep), hout]

section Target

variable {runtime : RuntimeInformation}

/-- The points that the new target accepts and the old one rejects, or the
reverse, lie between the two. -/
theorem mem_viewRange_of_changed {op : OperatingPointPtr g}
    (hop : op ∈ c.knowledgeView)
    (hne : c.achieves op ≠ (c.retarget runtime).achieves op) :
    op ∈ c.viewRange c.lastCheckValue (c.finalGoalValue runtime) :=
  mem_viewRange hop (ComparisonFunctions.between_of_compare_ne hne)

variable (hblocked : ∀ op ∈ c.blockedOps,
    op ∈ c.knowledgeView ∧ c.achieves op = false)

include hblocked

theorem updated_same (hsame : c.finalGoalValue runtime = c.lastCheckValue) :
    c.Updated runtime c [] [] := by
  have hretarget : c.retarget runtime = c := by
    rw [retarget, hsame]
  exact {
    clear := congrArg clear hretarget.symm
    invalidNodup := List.nodup_nil
    validNodup := List.nodup_nil
    invalidated := by simp
    found := by
      intro op _ haccepts hrejects
      rw [hretarget, haccepts] at hrejects
      contradiction
    validated := by
      intro op
      rw [hretarget]
      refine iff_of_false (List.not_mem_nil) ?_
      rintro ⟨hop, haccepts⟩
      rw [(hblocked op hop).2] at haccepts
      contradiction
    blocked := by simp }

theorem updated_stricter (hview : c.knowledgeView.elems.Nodup)
    (hbetter : c.targetGoal.check (c.finalGoalValue runtime)
      c.lastCheckValue = true) :
    c.Updated runtime (c.retarget runtime)
      ((c.viewRange c.lastCheckValue (c.finalGoalValue runtime)).filter
        fun op => !(c.retarget runtime).achieves op) [] where
  clear := rfl
  invalidNodup := (hview.sublist (c.viewRange_sublist _ _)).filter _
  validNodup := List.nodup_nil
  invalidated := by
    intro op hop
    obtain ⟨hop, hrejects⟩ := List.mem_filter.mp hop
    exact ⟨(c.viewRange_sublist _ _).subset hop, by simpa using hrejects⟩
  found := by
    intro op hop haccepts hrejects
    refine List.mem_filter.mpr
      ⟨mem_viewRange_of_changed hop ?_, by simp [hrejects]⟩
    rw [haccepts, hrejects]
    decide
  validated := by
    intro op
    refine iff_of_false List.not_mem_nil ?_
    rintro ⟨hop, haccepts⟩
    have hstricter : c.achieves op = true :=
      ComparisonFunctions.compare_of_better hbetter haccepts
    rw [(hblocked op hop).2] at hstricter
    contradiction
  blocked := by
    intro op
    simp [retarget]

theorem updated_looser (hview : c.knowledgeView.elems.Nodup)
    (hworse : c.targetGoal.check (c.finalGoalValue runtime)
      c.lastCheckValue = false) :
    c.Updated runtime
      { (c.release (c.finalGoalValue runtime)
          (c.viewRange c.lastCheckValue (c.finalGoalValue runtime))).1 with
        lastCheckValue := c.finalGoalValue runtime } []
      (c.release (c.finalGoalValue runtime)
        (c.viewRange c.lastCheckValue (c.finalGoalValue runtime))).2 := by
  have hslice := hview.sublist
    (c.viewRange_sublist c.lastCheckValue (c.finalGoalValue runtime))
  obtain ⟨hclear, hout, hleft⟩ :=
    c.release_spec (c.finalGoalValue runtime) hslice
  exact {
    clear := congrArg (fun d : Constraint g =>
      { d with lastCheckValue := c.finalGoalValue runtime }) hclear
    invalidNodup := List.nodup_nil
    validNodup := by
      rw [hout]
      exact hslice.filter _
    invalidated := by simp
    found := by
      intro op _ haccepts hrejects
      have hlooser : (c.retarget runtime).achieves op = true :=
        ComparisonFunctions.compare_of_not_better hworse haccepts
      rw [hlooser] at hrejects
      contradiction
    validated := by
      intro op
      rw [hout, List.mem_filter, decide_eq_true_eq]
      refine and_iff_right_of_imp ?_
      rintro ⟨hop, haccepts⟩
      obtain ⟨hknown, hrejects⟩ := hblocked op hop
      refine mem_viewRange_of_changed hknown ?_
      rw [hrejects, show (c.retarget runtime).achieves op = true from
        haccepts]
      decide
    blocked := hleft }

end Target

theorem update_spec (runtime : RuntimeInformation)
    (hview : c.knowledgeView.elems.Nodup)
    (hblocked : ∀ op ∈ c.blockedOps,
      op ∈ c.knowledgeView ∧ c.achieves op = false) :
    c.Updated runtime (c.update runtime).1 (c.update runtime).2.1
      (c.update runtime).2.2 := by
  by_cases hsame : c.finalGoalValue runtime = c.lastCheckValue
  · rw [update, if_pos hsame]
    exact updated_same hblocked hsame
  by_cases hbetter : c.targetGoal.check (c.finalGoalValue runtime)
      c.lastCheckValue = true
  · have hupdate : c.update runtime = (c.retarget runtime,
        (c.viewRange c.lastCheckValue (c.finalGoalValue runtime)).filter
          fun op => !(c.retarget runtime).achieves op, []) := by
      rw [update, if_neg hsame, if_pos hbetter]
      rfl
    rw [hupdate]
    exact updated_stricter hblocked hview hbetter
  · rw [update, if_neg hsame, if_neg hbetter]
    exact updated_looser hblocked hview (Bool.eq_false_of_not_eq_true hbetter)

end Constraint

namespace State

variable [LinearOrder P] {kb : Knowledge g} {s : State g P} {priority : P}
  {c : Constraint g}

/-- What the higher constraints do not block. -/
def prune (s : State g P) (priority : P) (ops : OPStream g) : OPStream g :=
  (s.constraints.before priority).foldl
    (fun ops entry => entry.2.removeBlockedOpsFrom ops) ops

theorem prune_eq_filter (s : State g P) (priority : P) (ops : OPStream g) :
    s.prune priority ops = ops.filter fun op =>
      (s.constraints.before priority).all fun entry =>
        op ∉ entry.2.blockedOps := by
  rw [prune]
  induction s.constraints.before priority generalizing ops with
  | nil => simp
  | cons entry rest ih =>
      rw [List.foldl_cons, ih, Constraint.removeBlockedOpsFrom,
        List.filter_filter]
      simp [Bool.and_comm]

/-- The first half of an iteration, in one equation for each part of the
state.  The assertion holds as the constraint rejects all of the input. -/
theorem invalidate_spec (hfind : s.constraints.find? priority = some c)
    {ops : OPStream g} (hrejects : ∀ op ∈ ops, c.achieves op = false) :
    ∃ after, s.invalidate priority ops = some after ∧
      after.constraints.entries = s.constraints.before priority ++
        (priority, (c.filterAdd (s.prune priority ops)).1) ::
          (OrderedMap.accumulateList (fun _ => true) Constraint.filterRemove
            (s.constraints.upperBound priority) (s.prune priority ops)).1 ∧
      after.rank = s.rank.remove
        (OrderedMap.accumulateList (fun _ => true) Constraint.filterRemove
          (s.constraints.upperBound priority) (s.prune priority ops)).2 ∧
      after.problemIsChanged =
        (s.problemIsChanged || !(s.prune priority ops).isEmpty) ∧
      after.bestOperatingPointFound = s.bestOperatingPointFound := by
  by_cases hempty : (s.prune priority ops).isEmpty = true
  · have hnil := List.isEmpty_iff.mp hempty
    have hstate : s.invalidate priority ops = some s := by
      rw [invalidate]
      exact if_pos hempty
    refine ⟨s, hstate, ?_⟩
    rw [hnil, filterRemove_nil]
    refine ⟨OrderedMap.entries_split hfind, rfl, ?_, rfl⟩
    simp
  · have hremainder : (c.filterAdd (s.prune priority ops)).2 = [] := by
      rw [Constraint.filterAdd, List.filter_eq_nil_iff]
      intro op hop
      rw [prune_eq_filter] at hop
      simp [hrejects op (List.mem_of_mem_filter hop)]
    let inserted := s.constraints.insert priority
      (c.filterAdd (s.prune priority ops)).1
    have hcascade := OrderedMap.accumulateList_upperBound
      (OrderedMap.find?_insert_self s.constraints priority
        (c.filterAdd (s.prune priority ops)).1)
      Constraint.filterRemove (s.prune priority ops)
    rw [OrderedMap.before_insert, OrderedMap.upperBound_insert] at hcascade
    have hstate : s.invalidate priority ops = some { s with
        constraints := (inserted.accumulate (priority < ·)
          Constraint.filterRemove (s.prune priority ops)).1
        rank := s.rank.remove (inserted.accumulate (priority < ·)
          Constraint.filterRemove (s.prune priority ops)).2
        problemIsChanged := true } := by
      rw [invalidate]
      refine (if_neg hempty).trans ?_
      simp only [hfind]
      exact if_pos (List.isEmpty_iff.mpr hremainder)
    refine ⟨_, hstate, ?_, ?_, ?_, rfl⟩
    · exact congrArg Prod.fst hcascade
    · exact congrArg (fun found => s.rank.remove (Prod.snd found)) hcascade
    · simp [hempty]

/-- The second half of an iteration. -/
theorem validate_spec (hfind : s.constraints.find? priority = some c)
    (ops : OPStream g) :
    (s.validate priority ops).constraints.entries =
        s.constraints.before priority ++ (priority, c) ::
          (OrderedMap.accumulateList (fun _ => true) Constraint.filterAdd
            (s.constraints.upperBound priority) ops).1 ∧
      (s.validate priority ops).rank = s.rank.add
        (OrderedMap.accumulateList (fun _ => true) Constraint.filterAdd
          (s.constraints.upperBound priority) ops).2 ∧
      (s.validate priority ops).problemIsChanged =
        (s.problemIsChanged || !ops.isEmpty) ∧
      (s.validate priority ops).bestOperatingPointFound =
        s.bestOperatingPointFound := by
  have hcascade := OrderedMap.accumulateList_upperBound hfind
    Constraint.filterAdd ops
  by_cases hempty : ops.isEmpty = true
  · have hstate : s.validate priority ops = s := by
      rw [validate, if_pos hempty]
    rw [hstate, List.isEmpty_iff.mp hempty, filterAdd_nil]
    refine ⟨OrderedMap.entries_split hfind, rfl, ?_, rfl⟩
    simp
  · rw [validate, if_neg hempty]
    refine ⟨?_, ?_, ?_, rfl⟩
    · exact congrArg Prod.fst hcascade
    · exact congrArg (fun found => s.rank.add (Prod.snd found)) hcascade
    · simp [hempty]

/-- The state after the iterations on some priorities, from a state that
satisfies the partition. -/
structure Retargeted (s : State g P) (kb : Knowledge g)
    (runtime : RuntimeInformation) (priorities : List P)
    (after : State g P) : Prop where
  partition : after.Partition kb
  cleared : cleared after.constraints.entries =
    (cleared s.constraints.entries).map fun entry =>
      if entry.1 ∈ priorities then
        (entry.1, (entry.2.retarget runtime).clear)
      else entry
  rank : after.rank.clear = s.rank.clear
  best : after.bestOperatingPointFound = s.bestOperatingPointFound
  unchanged : after.problemIsChanged = false →
    s.problemIsChanged = false ∧ s.SameContents after

theorem Retargeted.refl (hpart : s.Partition kb)
    (runtime : RuntimeInformation) : s.Retargeted kb runtime [] s where
  partition := hpart
  cleared := by simp
  rank := rfl
  best := rfl
  unchanged := fun hflag =>
    ⟨hflag, SameBlocked.refl _, List.Perm.refl _⟩

theorem mem_prune (hpart : s.Partition kb) (priority : P) {ops : OPStream g}
    (hknown : ∀ op ∈ ops, op ∈ kb) (op : OperatingPointPtr g) :
    op ∈ s.prune priority ops ↔
      op ∈ ops ∧ op ∈ passed (stagesOf (s.constraints.before priority))
        kb.points := by
  have hchain := (hpart.around priority).1
  rw [prune_eq_filter, List.mem_filter, List.all_eq_true]
  refine and_congr_right fun hop => ?_
  rw [hchain.mem_passed_iff (hknown op hop), stagesOf, List.forall_mem_map]
  simp

/-- What an iteration leaves of each part of the state, when an updated
constraint blocks what was pruned and releases what became valid. -/
structure Stepped (s : State g P) (priority : P) (updated : Constraint g)
    (pruned valid : OPStream g) (after : State g P) : Prop where
  entries : after.constraints.entries = s.constraints.before priority ++
    (priority, (updated.filterAdd pruned).1) ::
      (OrderedMap.accumulateList (fun _ => true) Constraint.filterAdd
        (OrderedMap.accumulateList (fun _ => true) Constraint.filterRemove
          (s.constraints.upperBound priority) pruned).1 valid).1
  rank : after.rank = (s.rank.remove
    (OrderedMap.accumulateList (fun _ => true) Constraint.filterRemove
      (s.constraints.upperBound priority) pruned).2).add
    (OrderedMap.accumulateList (fun _ => true) Constraint.filterAdd
      (OrderedMap.accumulateList (fun _ => true) Constraint.filterRemove
        (s.constraints.upperBound priority) pruned).1 valid).2
  flag : after.problemIsChanged =
    (s.problemIsChanged || !pruned.isEmpty || !valid.isEmpty)
  best : after.bestOperatingPointFound = s.bestOperatingPointFound

theorem exists_stepped {runtime : RuntimeInformation}
    (hfind : s.constraints.find? priority = some c)
    (hrejects : ∀ op ∈ (c.update runtime).2.1,
      (c.update runtime).1.achieves op = false) :
    ∃ after, updateStep runtime s priority = some after ∧
      s.Stepped priority (c.update runtime).1
        (s.prune priority (c.update runtime).2.1) (c.update runtime).2.2
        after := by
  let stored : State g P := { s with
    constraints := s.constraints.insert priority (c.update runtime).1 }
  have hstoredPrune : stored.prune priority (c.update runtime).2.1 =
      s.prune priority (c.update runtime).2.1 := by
    rw [prune, OrderedMap.before_insert]
    rfl
  have hstoredFind : stored.constraints.find? priority =
      some (c.update runtime).1 :=
    OrderedMap.find?_insert_self _ _ _
  -- the first half: what became invalid
  obtain ⟨middle, hmiddle, hmiddleEntries, hmiddleRank, hmiddleFlag,
    hmiddleBest⟩ := invalidate_spec hstoredFind hrejects
  rw [hstoredPrune, OrderedMap.before_insert, OrderedMap.upperBound_insert]
    at hmiddleEntries
  rw [hstoredPrune, OrderedMap.upperBound_insert] at hmiddleRank
  rw [hstoredPrune] at hmiddleFlag
  -- the second half: what became valid
  have hmiddleFind : middle.constraints.find? priority =
      some ((c.update runtime).1.filterAdd
        (s.prune priority (c.update runtime).2.1)).1 :=
    OrderedMap.find?_eq_some.mpr (by simp [hmiddleEntries])
  obtain ⟨hentries, hrank, hflag, hbest⟩ :=
    validate_spec hmiddleFind (c.update runtime).2.2
  rw [OrderedMap.before_of_split hmiddleEntries,
    OrderedMap.upperBound_of_split hmiddleEntries] at hentries
  rw [OrderedMap.upperBound_of_split hmiddleEntries, hmiddleRank] at hrank
  rw [hmiddleFlag] at hflag
  refine ⟨middle.validate priority (c.update runtime).2.2, ?_, hentries, hrank,
    hflag, hbest.trans hmiddleBest⟩
  simp only [updateStep, hfind]
  exact congrArg (Option.map _) hmiddle

section Stepped

variable {runtime : RuntimeInformation} {after : State g P}
  {updated : Constraint g} {pruned invalid valid : OPStream g}

theorem Stepped.cleared_entries
    (hstepped : s.Stepped priority updated pruned valid after)
    (hclear : updated.clear = (c.retarget runtime).clear) :
    cleared after.constraints.entries =
      cleared (s.constraints.before priority ++
        (priority, c.retarget runtime) ::
          s.constraints.upperBound priority) := by
  rw [hstepped.entries, cleared_append, cleared_append, cleared_cons,
    cleared_cons, cleared_filterAdd, cleared_filterRemove,
    Constraint.clear_filterAdd, hclear]

/-- Only the constraint of the priority has another value. -/
theorem Stepped.cleared (hstepped : s.Stepped priority updated pruned valid after)
    (hfind : s.constraints.find? priority = some c)
    (hclear : updated.clear = (c.retarget runtime).clear) :
    cleared after.constraints.entries =
      (Margot.cleared s.constraints.entries).map fun entry =>
        if entry.1 ∈ [priority] then
          (entry.1, (entry.2.retarget runtime).clear)
        else entry := by
  have hother : ∀ entries : List (P × Constraint g),
      (∀ entry ∈ entries, entry.1 ≠ priority) →
      (Margot.cleared entries).map (fun entry =>
        if entry.1 ∈ [priority] then
          (entry.1, (entry.2.retarget runtime).clear)
        else entry) = Margot.cleared entries := by
    intro entries hne
    rw [Margot.cleared, List.map_map]
    apply List.map_congr_left
    intro entry hentry
    exact if_neg fun hmem => hne entry hentry (List.mem_singleton.mp hmem)
  rw [hstepped.cleared_entries hclear, OrderedMap.entries_split hfind,
    cleared_append, cleared_append, cleared_cons, cleared_cons,
    List.map_append, List.map_cons, if_pos (List.mem_singleton.mpr rfl),
    hother _ fun entry hentry => (OrderedMap.mem_before.mp hentry).2.ne,
    hother _ fun entry hentry => (OrderedMap.mem_upperBound.mp hentry).2.ne']
  rfl

theorem Stepped.partition
    (hstepped : s.Stepped priority updated pruned valid after)
    (hpart : s.Partition kb) (hfind : s.constraints.find? priority = some c)
    (hupdated : c.Updated runtime updated invalid valid)
    (hpruned : ∀ op, op ∈ pruned ↔ op ∈ invalid ∧
      op ∈ passed (stagesOf (s.constraints.before priority)) kb.points)
    (hnodup : pruned.Nodup) : after.Partition kb := by
  have hchain := hpart.filtered
  have hholds := hpart.holds
  have hview := hpart.views _ (OrderedMap.find?_eq_some.mp hfind)
  rw [OrderedMap.entries_split hfind, filtered_stagesOf_around] at hchain
  rw [OrderedMap.entries_split hfind, stagesOf_append, passed_append,
    stagesOf_cons, passed_cons] at hholds
  obtain ⟨hbefore, hblocked, hlower⟩ := hchain
  have hreachedView : ∀ op ∈ passed (stagesOf (s.constraints.before priority))
      kb.points, op ∈ c.knowledgeView := fun op hop => hview.mem_iff.mpr hop.1
  have hreach := hupdated.handed_on hblocked hreachedView hpruned
  have hcleared := hstepped.cleared_entries hupdated.clear
  have hclearedLower := cleared_filterRemove
    (s.constraints.upperBound priority) pruned
  have haccepted : ((updated.filterAdd pruned).1).achieves =
      (c.retarget runtime).achieves := by
    rw [Constraint.achieves_eq_of_clear (Constraint.clear_filterAdd _ pruned),
      Constraint.achieves_eq_of_clear hupdated.clear]
  apply Partition.of_filtered
  · apply views_of_cleared hcleared
    intro entry hentry
    rcases List.mem_append.mp hentry with hentry | hentry
    · exact hpart.views entry (OrderedMap.mem_before.mp hentry).1
    · rcases List.mem_cons.mp hentry with rfl | hentry
      · exact hview
      · exact hpart.views entry (OrderedMap.mem_upperBound.mp hentry).1
  · rw [hstepped.entries, filtered_stagesOf_around, haccepted]
    refine ⟨hbefore, fun op => ?_, ?_⟩
    · exact hupdated.mem_blockedOps hblocked hreachedView hpruned op
    · have hwithdrawn := filtered_filterRemove hnodup hlower
      have hhanded := filtered_filterAdd valid hwithdrawn
      rw [hreach] at hhanded
      exact hhanded
  · rw [passed_stagesOf_of_cleared hcleared, stagesOf_append,
      passed_append, stagesOf_cons, passed_cons, hstepped.rank]
    -- what became valid was blocked, so that it is new below
    have hnew : ∀ op ∈ valid,
        op ∉ {op | op ∈ passed (stagesOf (s.constraints.before priority))
            kb.points ∧ c.achieves op = true} \ {op | op ∈ pruned} := by
      rintro op hvalid ⟨⟨-, haccepts⟩, -⟩
      have hop := ((hupdated.validated op).mp hvalid).1
      rw [((hblocked op).mp hop).2] at haccepts
      contradiction
    have hremoved := holds_filterRemove hlower hholds hnodup
    rw [← passed_stagesOf_of_cleared hclearedLower] at hremoved
    have hadded := holds_filterAdd hremoved hupdated.validNodup hnew
    rw [hreach, passed_stagesOf_of_cleared hclearedLower] at hadded
    exact hadded

/-- Without a change nothing was pruned, and nothing became valid. -/
theorem Stepped.unchanged
    (hstepped : s.Stepped priority updated pruned valid after)
    (hfind : s.constraints.find? priority = some c)
    (hblocked : ∀ op, op ∈ updated.blockedOps ↔
      op ∈ c.blockedOps ∧ op ∉ valid)
    (hafter : after.problemIsChanged = false) :
    s.problemIsChanged = false ∧ s.SameContents after := by
  have hflag := hstepped.flag
  rw [hafter] at hflag
  have hparts := hflag.symm
  rw [Bool.or_eq_false_iff, Bool.or_eq_false_iff, Bool.not_eq_false',
    Bool.not_eq_false', List.isEmpty_iff, List.isEmpty_iff] at hparts
  obtain ⟨⟨hbefore, rfl⟩, rfl⟩ := hparts
  refine ⟨hbefore, ?_, ?_⟩
  · rw [hstepped.entries, OrderedMap.entries_split hfind, filterRemove_nil,
      filterAdd_nil]
    refine (SameBlocked.refl _).append
      (List.Forall₂.cons ⟨rfl, fun op => ?_⟩ (SameBlocked.refl _))
    rw [Constraint.mem_blockedOps_filterAdd, hblocked]
    simp
  · rw [hstepped.rank, filterRemove_nil, filterAdd_nil]
    exact List.Perm.refl _

end Stepped

theorem updateStep_of_find?_some (hpart : s.Partition kb)
    (runtime : RuntimeInformation)
    (hfind : s.constraints.find? priority = some c) :
    ∃ after, updateStep runtime s priority = some after ∧
      s.Retargeted kb runtime [priority] after := by
  have hchain := hpart.filtered
  have hview := hpart.views _ (OrderedMap.find?_eq_some.mp hfind)
  rw [OrderedMap.entries_split hfind, filtered_stagesOf_around] at hchain
  obtain ⟨-, hblocked, -⟩ := hchain
  have hupdated := Constraint.update_spec runtime
    (hview.nodup_iff.mpr kb.nodup) (fun op hop =>
      ⟨hview.mem_iff.mpr ((hblocked op).mp hop).1.1, ((hblocked op).mp hop).2⟩)
  have hpruned := mem_prune hpart priority fun op hop =>
    hview.mem_iff.mp (hupdated.invalidated op hop).1
  have hprunedNodup : (s.prune priority (c.update runtime).2.1).Nodup := by
    rw [prune_eq_filter]
    exact hupdated.invalidNodup.filter _
  have hrejects : ∀ op ∈ (c.update runtime).2.1,
      (c.update runtime).1.achieves op = false := by
    intro op hop
    rw [Constraint.achieves_eq_of_clear hupdated.clear]
    exact (hupdated.invalidated op hop).2
  obtain ⟨after, hstep, hstepped⟩ := exists_stepped hfind hrejects
  exact ⟨after, hstep, {
    partition := hstepped.partition hpart hfind hupdated hpruned hprunedNodup
    cleared := hstepped.cleared hfind hupdated.clear
    rank := by
      rw [hstepped.rank]
      rfl
    best := hstepped.best
    unchanged := hstepped.unchanged hfind hupdated.blocked }⟩

theorem updateStep_spec (hpart : s.Partition kb)
    (runtime : RuntimeInformation) (priority : P) :
    ∃ after, updateStep runtime s priority = some after ∧
      s.Retargeted kb runtime [priority] after := by
  cases hfind : s.constraints.find? priority with
  | some c => exact updateStep_of_find?_some hpart runtime hfind
  | none =>
      have hstep : updateStep runtime s priority = some s := by
        simp only [updateStep, hfind]
      have hrefl := Retargeted.refl hpart runtime
      refine ⟨s, hstep, { hrefl with cleared := ?_ }⟩
      conv_lhs => rw [← List.map_id (cleared s.constraints.entries)]
      apply List.map_congr_left
      intro entry hentry
      obtain ⟨origin, horigin, rfl⟩ := List.mem_map.mp hentry
      refine (if_neg fun hmem => ?_).symm
      obtain rfl : origin.1 = priority := List.mem_singleton.mp hmem
      exact OrderedMap.find?_eq_none.mp hfind origin.2 horigin

/-- The loop of `update`: the assertion never fails. -/
theorem runFrom_updateStep_spec (hpart : s.Partition kb)
    (runtime : RuntimeInformation) {priorities : List P}
    (hnodup : priorities.Nodup) :
    ∃ after, runFrom (updateStep runtime) s priorities = some after ∧
      s.Retargeted kb runtime priorities after := by
  induction priorities generalizing s with
  | nil => exact ⟨s, rfl, Retargeted.refl hpart runtime⟩
  | cons priority rest ih =>
      obtain ⟨hpriority, hrest⟩ := List.nodup_cons.mp hnodup
      obtain ⟨middle, hstep, hmiddle⟩ := updateStep_spec hpart runtime priority
      obtain ⟨after, hrun, hafter⟩ := ih hmiddle.partition hrest
      refine ⟨after, (runFrom_cons_of_step hstep rest).trans hrun, ?_⟩
      exact {
        partition := hafter.partition
        cleared := by
          rw [hafter.cleared, hmiddle.cleared, List.map_map]
          apply List.map_congr_left
          intro entry _
          by_cases hkey : entry.1 = priority
          · subst hkey
            simp [hpriority]
          · simp [hkey]
        rank := hafter.rank.trans hmiddle.rank
        best := hafter.best.trans hmiddle.best
        unchanged := by
          intro hflag
          obtain ⟨hmiddleFlag, hsecond⟩ := hafter.unchanged hflag
          obtain ⟨hbefore, hfirst⟩ := hmiddle.unchanged hmiddleFlag
          exact ⟨hbefore, hfirst.trans hsecond⟩ }

/-- The state whose constraints take the check values they are asked for. -/
def retarget (s : State g P) (runtime : RuntimeInformation) : State g P :=
  { s with constraints := s.constraints.mapValues (·.retarget runtime) }

theorem update_spec (hpart : s.Partition kb) (runtime : RuntimeInformation) :
    ∃ after, s.update runtime = some after ∧
      s.Retargeted kb runtime s.constraints.keys after ∧
      Margot.cleared after.constraints.entries =
        Margot.cleared (s.retarget runtime).constraints.entries := by
  obtain ⟨after, hrun, hafter⟩ := runFrom_updateStep_spec hpart runtime
    s.constraints.nodup_keys
  refine ⟨after, hrun, hafter, ?_⟩
  rw [hafter.cleared, retarget, OrderedMap.entries_mapValues,
    Margot.cleared, Margot.cleared, List.map_map, List.map_map]
  apply List.map_congr_left
  intro entry hentry
  have hkey : entry.1 ∈ s.constraints.keys := List.mem_map_of_mem hentry
  simp [hkey]
  rfl

section Rebuild

variable [HashOrder (OperatingPointPtr g)]

/-- The incremental update leaves what a rebuild from scratch would leave: the
knowledge filtered from the top with the new check values. -/
theorem update_refines_rebuild (hpart : s.Partition kb)
    (runtime : RuntimeInformation) :
    ∃ after, s.update runtime = some after ∧
      after.SameContents ((s.retarget runtime).setKnowledgeBase kb) := by
  obtain ⟨after, hupdate, hafter, hcleared⟩ := update_spec hpart runtime
  have hrebuilt := partition_setKnowledgeBase (s.retarget runtime) kb
  have hchecks : SameChecks after.constraints.entries
      ((s.retarget runtime).setKnowledgeBase kb).constraints.entries := by
    refine (sameChecks_of_cleared hcleared).trans ?_
    rw [entries_setKnowledgeBase]
    have hset := sameChecks_map (fun c => (c.set kb).clear) (fun _ => rfl)
      (s.retarget runtime).constraints.entries
    refine SameChecks.trans ?_ (sameChecks_of_cleared
      (cleared_filterAdd _ _).symm)
    rw [Margot.cleared, List.map_map]
    exact hset
  exact ⟨after, hupdate, hafter.partition.sameContents hrebuilt hchecks⟩

end Rebuild

end State

namespace Updating

/-- Two Operating Points, with the metrics five and eight. -/
def knowledge : Knowledge Geometry.single :=
  (Knowledge.clear.addAll [.single 0 1 5, .single 1 2 8]).1

/-- A metric of at most six: the second Operating Point is blocked. -/
def constrained : State Geometry.single Nat :=
  ((State.new : State Geometry.single Nat).addConstraint Knowledge.clear
    KnowledgeAdaptor.new RuntimeInformation.numbered OPField.single 0
    (Goal.atMost 6) 1).setKnowledgeBase knowledge

/-- The goal becomes a quarter more than four. -/
def tightened : RuntimeInformation := ⟨fun _ => 17 / 4, fun _ => 1⟩

theorem update_refines_rebuild_tightened :
    ∃ after, constrained.update tightened = some after ∧
      after.SameContents
        ((constrained.retarget tightened).setKnowledgeBase knowledge) :=
  State.update_refines_rebuild (State.partition_setKnowledgeBase _ knowledge)
    tightened

end Updating

end Margot
