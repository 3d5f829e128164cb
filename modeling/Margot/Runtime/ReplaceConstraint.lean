/-
Replacing a constraint.  The documentation says that a constraint added with a
priority in use overwrites the former one, which should be the same as removing
that one first.  It is the same exactly when the new constraint rejects all
that the former one blocked, and none of it first meets a lower constraint
below the first one.
-/
import Margot.Runtime.AddConstraint

namespace Margot

variable {g : Geometry} {P : Type} [LinearOrder P]

namespace State

variable [HashOrder (OperatingPointPtr g)] {kb : Knowledge g} {s : State g P}
  {priority : P} {old newConstraint : Constraint g}

/-- The place of the Operating Points that a removal sets free. -/
theorem freed_placed (hpart : s.Partition kb)
    (hfind : s.constraints.find? priority = some old)
    {op : OperatingPointPtr g} (hop : op ∈ old.blockedOps) :
    (op ∈ (s.removeConstraint priority).rank.toStream ∧
        ∀ entry ∈ s.constraints.upperBound priority,
          entry.2.achieves op = true) ∨
      ∃ entry ∈ (s.handedDown priority old).1, op ∈ entry.2.blockedOps := by
  have hold := OrderedMap.find?_eq_some.mp hfind
  have hknown := ((hpart.blocked _ hold op).mp hop).1
  have hremoved := partition_removeConstraint hpart priority
  have hentries := (removeConstraint_spec hfind).1
  rcases hremoved.placed_once hknown with ⟨hrank, -⟩ | ⟨-, entry, hplaced, -⟩
  · refine Or.inl ⟨hrank, ?_⟩
    have hall := ((hremoved.ranked op).mp hrank).2
    rw [hentries, List.forall_mem_append, handedDown,
      (sameChecks_of_cleared (cleared_filterAdd _ _)).achieves_all_iff] at hall
    exact hall.2
  · obtain ⟨hentry, hblocked⟩ := hplaced
    rw [hentries] at hentry
    rcases List.mem_append.mp hentry with hentry | hentry
    · obtain ⟨hentry, hlt⟩ := OrderedMap.mem_before.mp hentry
      have heq := hpart.blocked_once hentry hblocked hold hop
      exact absurd (congrArg Prod.fst heq) hlt.ne
    · exact Or.inr ⟨entry, hentry, hblocked⟩

/-- The condition under which overwriting a constraint is the same as removing
it first. -/
def Overwrites (s : State g P) (priority : P)
    (old newConstraint : Constraint g) : Prop :=
  ∀ op ∈ old.blockedOps, newConstraint.achieves op = false ∧
    ((∀ entry ∈ s.constraints.upperBound priority,
        entry.2.achieves op = true) ∨
      ∃ first ∈ (s.constraints.upperBound priority).head?,
        first.2.achieves op = false)

theorem overwrites_of_sameContents (hpart : s.Partition kb)
    (hfind : s.constraints.find? priority = some old)
    (hsame : (s.insertConstraint newConstraint priority).SameContents
      ((s.removeConstraint priority).insertConstraint newConstraint
        priority)) : s.Overwrites priority old newConstraint := by
  intro op hop
  have hremoved := partition_removeConstraint hpart priority
  obtain ⟨-, -, hupper⟩ := removeConstraint_cut hfind
  obtain ⟨hnotRanked, honly⟩ := freed_not_placed hpart newConstraint hfind
    hop
  have hlower : ∀ entry ∈ (withdrawFromFirst ((s.removeConstraint
      priority).rejectedBy newConstraint priority)
        (s.handedDown priority old).1).1, op ∉ entry.2.blockedOps := by
    intro entry hentry hblocked
    have hafter : entry ∈ ((s.removeConstraint priority).insertConstraint
        newConstraint priority).constraints.entries := by
      rw [(insertConstraint_spec hremoved _ _).1, hupper]
      exact List.mem_append_right _ (List.mem_cons_of_mem _ hentry)
    obtain ⟨other, hother, hkey, hblockedIff⟩ :=
      hsame.blocked.exists_left hafter
    have hpriority := honly other hother ((hblockedIff op).mpr hblocked)
    obtain ⟨origin, horigin, horiginKey, -⟩ :=
      exists_of_mem_withdrawFromFirst hentry
    rw [← hupper] at horigin
    have hlt := (OrderedMap.mem_upperBound.mp horigin).2
    exact hlt.ne' (horiginKey.trans (hkey.symm.trans hpriority))
  rcases freed_placed hpart hfind hop with ⟨hrank, hall⟩ | ⟨entry, hentry,
    hblocked⟩
  · refine ⟨?_, Or.inl hall⟩
    rw [hsame.ranked.mem_iff, mem_rank_insertConstraint hremoved] at hnotRanked
    have hrejected := not_not.mp fun hnot => hnotRanked ⟨hrank, hnot⟩
    exact ((mem_rejectedBy hremoved op).mp hrejected).2
  · cases hsplit : (s.handedDown priority old).1 with
    | nil => simp [hsplit] at hentry
    | cons first rest =>
        have hcleared := cleared_filterAdd
          (s.constraints.upperBound priority) old.toStream
        rw [hsplit] at hentry hlower
        rcases List.mem_cons.mp hentry with rfl | hentry
        · have hnot := hlower _ List.mem_cons_self
          rw [Constraint.mem_blockedOps_filterRemove] at hnot
          have hrejected := not_not.mp fun hnotRejected =>
            hnot ⟨hblocked, hnotRejected⟩
          refine ⟨((mem_rejectedBy hremoved op).mp hrejected).2, Or.inr ?_⟩
          have hfalse : entry.2.achieves op = false :=
            ((hremoved.blocked entry (by
              rw [(removeConstraint_spec hfind).1, hsplit]
              simp) op).mp hblocked).2.2
          rw [handedDown] at hsplit
          rw [hsplit] at hcleared
          cases hupperSplit : s.constraints.upperBound priority with
          | nil => simp [hupperSplit, cleared] at hcleared
          | cons head tail =>
              rw [hupperSplit, cleared_cons, cleared_cons] at hcleared
              have hhead := (Prod.mk.inj (List.cons.inj hcleared).1).2
              refine ⟨head, rfl, ?_⟩
              rw [← Constraint.achieves_eq_of_clear hhead]
              exact hfalse
        · exact absurd hblocked (hlower entry (List.mem_cons_of_mem _ hentry))

theorem mem_rejectedBy_removeConstraint (hpart : s.Partition kb)
    (newConstraint : Constraint g)
    (hfind : s.constraints.find? priority = some old)
    (op : OperatingPointPtr g) :
    op ∈ (s.removeConstraint priority).rejectedBy newConstraint priority ↔
      op ∈ s.rejectedBy newConstraint priority := by
  rw [mem_rejectedBy (partition_removeConstraint hpart priority),
    mem_rejectedBy hpart, (removeConstraint_cut hfind).2.1]

/-- A removal opens the way for what was blocked. -/
theorem mem_below_iff_removeConstraint
    (hfind : s.constraints.find? priority = some old)
    (op : OperatingPointPtr g) :
    op ∈ s.below kb priority ↔
      op ∈ (s.removeConstraint priority).below kb priority ∧
        op ∉ old.blockedOps := by
  obtain ⟨hnone, hbefore, -⟩ := removeConstraint_cut hfind
  simp [mem_below, hbefore, hnone, hfind]

theorem sameContents_of_overwrites (hpart : s.Partition kb)
    (hfind : s.constraints.find? priority = some old)
    (hempty : newConstraint.clear = newConstraint)
    (hover : s.Overwrites priority old newConstraint) :
    (s.insertConstraint newConstraint priority).SameContents
      ((s.removeConstraint priority).insertConstraint newConstraint
        priority) := by
  have hremoved := partition_removeConstraint hpart priority
  obtain ⟨-, hbefore, hupper⟩ := removeConstraint_cut hfind
  have hrejected := mem_rejectedBy_removeConstraint hpart newConstraint hfind
  have hbelow : ∀ op, op ∉ s.rejectedBy newConstraint priority →
      (op ∈ s.below kb priority ↔
        op ∈ (s.removeConstraint priority).below kb priority) := by
    intro op hnot
    rw [mem_below_iff_removeConstraint hfind]
    refine and_iff_left_of_imp fun hreached hblocked => hnot ?_
    rw [mem_rejectedBy hpart, ← hbefore]
    exact ⟨hreached.1, (hover op hblocked).1⟩
  have hcleared : cleared (s.constraints.upperBound priority) =
      cleared (s.handedDown priority old).1 :=
    (cleared_filterAdd _ _).symm
  obtain ⟨-, hlower, hholds⟩ := hpart.around priority
  obtain ⟨-, hlowerRemoved, hholdsRemoved⟩ := hremoved.around priority
  rw [hupper] at hlowerRemoved hholdsRemoved
  constructor
  · rw [(insertConstraint_spec hpart _ _).1, (insertConstraint_spec hremoved _ _).1,
      hbefore, hupper]
    refine (SameBlocked.refl _).append (List.Forall₂.cons ⟨rfl, ?_⟩ ?_)
    · intro op
      rw [mem_inserted hpart hempty, mem_inserted hremoved hempty, hbefore]
    · cases hsplit : s.constraints.upperBound priority with
      | nil =>
          rw [hsplit] at hcleared
          cases hhanded : (s.handedDown priority old).1 with
          | nil => exact List.Forall₂.nil
          | cons first rest => simp [hhanded, cleared] at hcleared
      | cons first rest =>
          rw [hsplit] at hcleared hlower
          cases hhanded : (s.handedDown priority old).1 with
          | nil => simp [hhanded, cleared] at hcleared
          | cons firstRemoved restRemoved =>
              rw [hhanded] at hcleared hlowerRemoved
              obtain ⟨hhead, htail⟩ := List.cons.inj hcleared
              obtain ⟨hkey, hclear⟩ := Prod.mk.inj hhead
              have hachieves := Constraint.achieves_eq_of_clear hclear
              obtain ⟨hblocked, hrest⟩ := filtered_stagesOf_cons.mp hlower
              obtain ⟨hblockedRemoved, hrestRemoved⟩ :=
                filtered_stagesOf_cons.mp hlowerRemoved
              refine List.Forall₂.cons ⟨hkey, fun op => ?_⟩ ?_
              · rw [Constraint.mem_blockedOps_filterRemove,
                  Constraint.mem_blockedOps_filterRemove, hrejected,
                  hblocked, hblockedRemoved, hachieves]
                exact and_congr_left fun hnot =>
                  and_congr_left fun _ => hbelow op hnot
              · refine sameBlocked_of_filtered
                  (sameChecks_of_cleared htail) hrest hrestRemoved ?_
                rintro op ⟨entry, hentry, hfalse⟩
                rw [Set.mem_ofPred_eq, Set.mem_ofPred_eq, ← hachieves]
                refine and_congr_left fun hfirst => ?_
                rw [mem_below_iff_removeConstraint hfind]
                refine and_iff_left_of_imp fun _ hold => ?_
                rcases (hover op hold).2 with hall | ⟨_, hsome, hrejects⟩
                · rw [hsplit] at hall
                  rw [hall entry (List.mem_cons_of_mem _ hentry)] at hfalse
                  contradiction
                · rw [hsplit] at hsome
                  obtain rfl : first = _ := by simpa using hsome
                  rw [hfirst] at hrejects
                  contradiction
  · refine (List.perm_ext_iff_of_nodup (rankNodup_insertConstraint hpart)
      (rankNodup_insertConstraint hremoved)).mpr fun op => ?_
    rw [mem_rank_insertConstraint hpart, mem_rank_insertConstraint hremoved,
      hrejected, hholds.mem_iff, hholdsRemoved.mem_iff,
      passed_stagesOf_of_cleared hcleared, mem_passed_stagesOf,
      mem_passed_stagesOf]
    exact and_congr_left fun hnot => and_congr_left fun _ => hbelow op hnot

/-- Replacing a constraint is the same as removing it and adding the new one,
exactly when the new constraint rejects all that the former one blocked, and
each of these Operating Points is accepted by all the lower constraints or
rejected by the first of them. -/
theorem addConstraint_overwrites_iff (hpart : s.Partition kb)
    (hfind : s.constraints.find? priority = some old)
    (information : KnowledgeAdaptor g) (runtime : RuntimeInformation)
    (targetField : OPField g) (sigma : Int) (goalValue : Goal) :
    (s.addConstraint kb information runtime targetField sigma goalValue
        priority).SameContents
      ((s.removeConstraint priority).addConstraint kb information runtime
        targetField sigma goalValue priority) ↔
      ∀ op ∈ old.blockedOps,
        goalValue.check (constraintField targetField sigma goalValue op)
          (goalValue.get runtime) = false ∧
        ((∀ entry ∈ s.constraints.upperBound priority,
            entry.2.achieves op = true) ∨
          ∃ first ∈ (s.constraints.upperBound priority).head?,
            first.2.achieves op = false) :=
  ⟨overwrites_of_sameContents hpart hfind,
    sameContents_of_overwrites hpart hfind
      (clear_newConstraint information runtime targetField sigma goalValue
        kb)⟩

end State

namespace Replacing

/-- A knowledge with one Operating Point, whose metric is five. -/
def knowledge : Knowledge Geometry.single :=
  (Knowledge.clear.addAll [.single 0 1 5]).1

/-- The state with that knowledge and no constraint. -/
def unconstrained : State Geometry.single Nat :=
  State.new.addOperatingPoints (Knowledge.clear.addAll [.single 0 1 5]).2

/-- A constraint that asks for a metric of at most `value`. -/
def constrain (s : State Geometry.single Nat) (value : GoalRef) :
    State Geometry.single Nat :=
  s.addConstraint knowledge KnowledgeAdaptor.new RuntimeInformation.numbered
    OPField.single 0 (Goal.atMost value) 1

theorem partition_constrain_unconstrained (value : GoalRef) :
    (constrain unconstrained value).Partition knowledge := by
  have hpart : unconstrained.Partition knowledge :=
    State.partition_addOperatingPoints State.partition_new
      (Knowledge.addAll_perm _ _)
  exact (State.partition_addConstraint_iff _ _ _ _ _ hpart _).mpr
    (State.admits_of_constraints_empty (OrderedMap.ext_entries rfl))

def blocking : Constraint Geometry.single :=
  ((constrain unconstrained 3).constraints.find? 1).get (by decide +kernel)

theorem sameContents_tightened :
    (constrain (constrain unconstrained 3) 2).SameContents
      (constrain ((constrain unconstrained 3).removeConstraint 1) 2) := by
  have hfind : (constrain unconstrained 3).constraints.find? 1 =
      some blocking := (Option.some_get _).symm
  refine (State.addConstraint_overwrites_iff
    (partition_constrain_unconstrained 3) hfind _ _ _ _ _).mpr ?_
  intro op hop
  have hblocked : blocking.blockedOps.elems = [.single 0 1 5] := by
    decide +kernel
  obtain rfl : op = .single 0 1 5 := by
    rw [UnorderedSet.mem_def, hblocked] at hop
    exact List.mem_singleton.mp hop
  exact ⟨by decide +kernel, Or.inl (by decide +kernel)⟩

/-- The first constraint blocks the Operating Point, and the second one accepts
it.  The Operating Point is lost when the second one overwrites the first. -/
theorem not_sameContents_replaced :
    ¬ ∀ (s : State Geometry.single Nat) (value : GoalRef),
      s.Partition knowledge → s.constraints.find? 1 ≠ none →
        (constrain s value).SameContents
          (constrain (s.removeConstraint 1) value) := by
  intro hsame
  have hlength := (hsame (constrain unconstrained 3) 10
    (partition_constrain_unconstrained 3)
    (by decide +kernel)).ranked.length_eq
  revert hlength
  decide +kernel

end Replacing

end Margot
