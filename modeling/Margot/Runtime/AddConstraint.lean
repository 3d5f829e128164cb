/-
Adding a constraint.  The new constraint looks at everything that reaches its
priority and blocks what it rejects, which then has to be withdrawn from the
lower constraints and from the rank.  The loop over the lower constraints
always calls the first of them, so the partition survives exactly when the
others have nothing to give back; a constraint that replaces another one also
has to reject everything that the other one blocked.
-/
import Margot.Runtime.Partition

namespace Margot

variable {g : Geometry} {P : Type}

namespace Constraint

theorem filterRemove_of_not_mem {c : Constraint g} {input : OPStream g}
    (hnot : ∀ op ∈ input, op ∉ c.blockedOps) :
    c.filterRemove input = (c, input) := by
  induction input with
  | nil => rfl
  | cons op rest ih =>
      rw [List.forall_mem_cons] at hnot
      rw [filterRemove, if_neg hnot.1, ih hnot.2]

theorem filterInitialize_snd (c : Constraint g) (input : OPStream g) :
    (c.filterInitialize input).2 = input.filter fun op => !c.achieves op :=
  rfl

@[simp] theorem clear_filterInitialize (c : Constraint g)
    (input : OPStream g) : (c.filterInitialize input).1.clear = c.clear :=
  rfl

theorem mem_blockedOps_filterInitialize {c : Constraint g}
    {input : OPStream g} {op : OperatingPointPtr g} :
    op ∈ (c.filterInitialize input).1.blockedOps ↔
      op ∈ c.blockedOps ∨ op ∈ (c.filterInitialize input).2 := by
  simp only [filterInitialize, UnorderedSet.mem_emplaceAll]
  exact or_comm

end Constraint

/-- What the loop over the lower constraints really does. -/
def withdrawFromFirst (ops : OPStream g) :
    List (P × Constraint g) → List (P × Constraint g) × OPStream g
  | [] => ([], ops)
  | first :: rest =>
      ((first.1, (first.2.filterRemove ops).1) :: rest,
        (first.2.filterRemove ops).2)

theorem cleared_withdrawFromFirst (ops : OPStream g)
    (lower : List (P × Constraint g)) :
    cleared (withdrawFromFirst ops lower).1 = cleared lower := by
  cases lower with
  | nil => rfl
  | cons first rest =>
      simp only [withdrawFromFirst, cleared_cons,
        Constraint.clear_filterRemove]

theorem withdrawFromFirst_nil (lower : List (P × Constraint g)) :
    withdrawFromFirst [] lower = (lower, []) := by
  cases lower with
  | nil => rfl
  | cons first rest => rfl

theorem exists_of_mem_withdrawFromFirst {ops : OPStream g}
    {lower : List (P × Constraint g)} {entry : P × Constraint g}
    (hentry : entry ∈ (withdrawFromFirst ops lower).1) :
    ∃ origin ∈ lower, origin.1 = entry.1 ∧
      ∀ op ∈ entry.2.blockedOps, op ∈ origin.2.blockedOps := by
  cases lower with
  | nil => simp [withdrawFromFirst] at hentry
  | cons first rest =>
      rcases List.mem_cons.mp hentry with rfl | hentry
      · refine ⟨first, List.mem_cons_self, rfl, fun op hop => ?_⟩
        exact (Constraint.mem_blockedOps_filterRemove.mp hop).1
      · exact ⟨entry, List.mem_cons_of_mem _ hentry, rfl, fun _ hop => hop⟩

theorem mem_withdrawFromFirst_snd {ops : OPStream g} (hnodup : ops.Nodup)
    {lower : List (P × Constraint g)} {op : OperatingPointPtr g} :
    op ∈ (withdrawFromFirst ops lower).2 ↔
      op ∈ ops ∧ ∀ first ∈ lower.head?, op ∉ first.2.blockedOps := by
  cases lower with
  | nil => simp [withdrawFromFirst]
  | cons first rest =>
      rw [withdrawFromFirst, first.2.filterRemove_output hnodup,
        List.mem_filter]
      simp

/-- It withdraws everything when only the first of them blocks something. -/
theorem withdrawFromFirst_eq_accumulateList {ops : OPStream g}
    (hnodup : ops.Nodup) (lower : List (P × Constraint g))
    (hrest : ∀ entry ∈ lower.tail, ∀ op ∈ ops, op ∉ entry.2.blockedOps) :
    withdrawFromFirst ops lower = OrderedMap.accumulateList (fun _ => true)
      Constraint.filterRemove lower ops := by
  cases lower with
  | nil => rfl
  | cons first rest =>
      have hkeep : ∀ (others : List (P × Constraint g)) (left : OPStream g),
          (∀ entry ∈ others, ∀ op ∈ left, op ∉ entry.2.blockedOps) →
          OrderedMap.accumulateList (fun _ => true) Constraint.filterRemove
            others left = (others, left) := by
        intro others left hnot
        induction others with
        | nil => rfl
        | cons entry others ih =>
            rw [List.forall_mem_cons] at hnot
            have hstep := Constraint.filterRemove_of_not_mem hnot.1
            simp only [OrderedMap.accumulateList_cons_true, hstep, ih hnot.2]
      have hleft : ∀ entry ∈ rest, ∀ op ∈ (first.2.filterRemove ops).2,
          op ∉ entry.2.blockedOps := by
        intro entry hentry op hop
        rw [first.2.filterRemove_output hnodup] at hop
        exact hrest entry hentry op (List.mem_of_mem_filter hop)
      simp only [OrderedMap.accumulateList_cons_true, hkeep rest _ hleft,
        withdrawFromFirst]

namespace State

variable [LinearOrder P]

theorem filterRemoveAt_of_find? {constraints : OrderedMap P (Constraint g)}
    {priority : P} {c : Constraint g}
    (hfind : constraints.find? priority = some c) (ops : OPStream g) :
    filterRemoveAt priority (constraints, ops) =
      (constraints.insert priority (c.filterRemove ops).1,
        (c.filterRemove ops).2) := by
  simp only [filterRemoveAt, hfind]

/-- From the second iteration on nothing is found any more. -/
theorem filterRemoveAt_foldl {A : Type}
    {constraints : OrderedMap P (Constraint g)} {priority : P}
    {c : Constraint g} (hfind : constraints.find? priority = some c)
    {ops : OPStream g} (hnot : ∀ op ∈ ops, op ∉ c.blockedOps)
    (iterations : List A) :
    iterations.foldl (fun found _ => filterRemoveAt priority found)
      (constraints, ops) = (constraints, ops) := by
  induction iterations with
  | nil => rfl
  | cons iteration rest ih =>
      rw [List.foldl_cons, filterRemoveAt_of_find? hfind,
        Constraint.filterRemove_of_not_mem hnot,
        OrderedMap.insert_eq_self hfind, ih]

theorem removeFromLower_spec {constraints : OrderedMap P (Constraint g)}
    {priority : P} {c : Constraint g}
    (hfind : constraints.find? priority = some c) {ops : OPStream g}
    (hnodup : ops.Nodup) :
    (removeFromLower constraints (constraints.upperBound priority)
        ops).1.entries = constraints.before priority ++ (priority, c) ::
          (withdrawFromFirst ops (constraints.upperBound priority)).1 ∧
      (removeFromLower constraints (constraints.upperBound priority) ops).2 =
        (withdrawFromFirst ops (constraints.upperBound priority)).2 := by
  have hsplit := OrderedMap.entries_split hfind
  cases hlower : constraints.upperBound priority with
  | nil =>
      rw [hlower] at hsplit
      exact ⟨hsplit, rfl⟩
  | cons first rest =>
      rw [hlower] at hsplit
      have hfirst : constraints.find? first.1 = some first.2 :=
        OrderedMap.find?_eq_some.mpr (by simp [hsplit])
      have houtput : ∀ op ∈ (first.2.filterRemove ops).2,
          op ∉ (first.2.filterRemove ops).1.blockedOps := by
        intro op hop hblocked
        rw [Constraint.mem_blockedOps_filterRemove] at hblocked
        rw [first.2.filterRemove_output hnodup] at hop
        exact hblocked.2 (List.mem_of_mem_filter hop)
      have hloop : removeFromLower constraints (first :: rest) ops =
          (constraints.insert first.1 (first.2.filterRemove ops).1,
            (first.2.filterRemove ops).2) := by
        rw [removeFromLower, List.foldl_cons, filterRemoveAt_of_find? hfirst]
        exact filterRemoveAt_foldl (OrderedMap.find?_insert_self _ _ _)
          houtput rest
      have hfront : constraints.entries =
          (constraints.before priority ++ [(priority, c)]) ++ first :: rest := by
        rw [hsplit, List.append_assoc]
        rfl
      rw [hloop]
      refine ⟨?_, rfl⟩
      rw [OrderedMap.entries_insert, OrderedMap.before_of_split hfront,
        OrderedMap.upperBound_of_split hfront, List.append_assoc]
      rfl

section Insert

variable [HashOrder (OperatingPointPtr g)] {kb : Knowledge g} {s : State g P}
  {priority : P} {newConstraint : Constraint g}

/-- The new constraint sees what reaches its priority. -/
theorem mem_availableFor (hpart : s.Partition kb) (priority : P)
    (op : OperatingPointPtr g) :
    op ∈ s.availableFor priority ↔
      op ∈ passed (stagesOf (s.constraints.before priority)) kb.points := by
  rw [availableFor, List.mem_append, List.mem_flatMap, mem_passed_stagesOf]
  constructor
  · rintro (hrank | ⟨entry, hentry, hblocked⟩)
    · obtain ⟨hop, hall⟩ := (hpart.ranked op).mp hrank
      exact ⟨hop, fun higher hhigher =>
        hall higher (OrderedMap.mem_before.mp hhigher).1⟩
    · obtain ⟨hentry, hle⟩ := OrderedMap.mem_lowerBound.mp hentry
      have hblocked := UnorderedSet.mem_iterate.mp hblocked
      refine ⟨((hpart.blocked entry hentry op).mp hblocked).1, ?_⟩
      intro higher hhigher
      obtain ⟨hhigher, hlt⟩ := OrderedMap.mem_before.mp hhigher
      exact achieves_of_before hpart hentry hblocked hhigher
        (hlt.trans_le hle)
  · rintro ⟨hop, hall⟩
    rcases hpart.placed_once hop with ⟨hrank, -⟩ | ⟨-, entry, hentry, -⟩
    · exact Or.inl hrank
    · obtain ⟨hentry, hblocked⟩ := hentry
      refine Or.inr ⟨entry, OrderedMap.mem_lowerBound.mpr ⟨hentry, ?_⟩,
        UnorderedSet.mem_iterate.mpr hblocked⟩
      by_contra hlt
      have haccepts := hall entry
        (OrderedMap.mem_before.mpr ⟨hentry, not_le.mp hlt⟩)
      rw [((hpart.blocked entry hentry op).mp hblocked).2.2] at haccepts
      contradiction

theorem availableFor_nodup (hpart : s.Partition kb) (priority : P) :
    (s.availableFor priority).Nodup := by
  rw [availableFor, List.nodup_append]
  refine ⟨hpart.rankNodup, ?_, ?_⟩
  · rw [List.nodup_flatMap]
    refine ⟨fun entry _ => entry.2.blockedOps.iterate_nodup, ?_⟩
    have hsorted : (s.constraints.lowerBound priority).Pairwise
        fun first second => first.1 < second.1 :=
      s.constraints.sorted.sublist List.filter_sublist
    refine hsorted.imp_of_mem fun {first second} hfirst hsecond hlt => ?_
    intro op hop hagain
    have heq := hpart.blocked_once (OrderedMap.mem_lowerBound.mp hfirst).1
      (UnorderedSet.mem_iterate.mp hop) (OrderedMap.mem_lowerBound.mp hsecond).1
      (UnorderedSet.mem_iterate.mp hagain)
    exact hlt.ne (congrArg Prod.fst heq)
  · rintro op hrank other hother rfl
    obtain ⟨entry, hentry, hblocked⟩ := List.mem_flatMap.mp hother
    have hentry := (OrderedMap.mem_lowerBound.mp hentry).1
    have hfalse := ((hpart.blocked entry hentry op).mp
      (UnorderedSet.mem_iterate.mp hblocked)).2.2
    rw [((hpart.ranked op).mp hrank).2 entry hentry] at hfalse
    contradiction

/-- What the new constraint blocks. -/
def rejectedBy (s : State g P) (newConstraint : Constraint g) (priority : P) :
    OPStream g :=
  (newConstraint.filterInitialize (s.availableFor priority)).2

theorem mem_rejectedBy (hpart : s.Partition kb) (op : OperatingPointPtr g) :
    op ∈ s.rejectedBy newConstraint priority ↔
      op ∈ passed (stagesOf (s.constraints.before priority)) kb.points ∧
        newConstraint.achieves op = false := by
  rw [rejectedBy, Constraint.filterInitialize_snd, List.mem_filter,
    mem_availableFor hpart, Bool.not_eq_true']

theorem rejectedBy_nodup (hpart : s.Partition kb)
    (newConstraint : Constraint g) (priority : P) :
    (s.rejectedBy newConstraint priority).Nodup :=
  (availableFor_nodup hpart priority).filter _

/-- `add_constraint` in one equation for each part of the state. -/
theorem insertConstraint_spec (hpart : s.Partition kb)
    (newConstraint : Constraint g) (priority : P) :
    let rejected := s.rejectedBy newConstraint priority
    let lower := s.constraints.upperBound priority
    let inserted := (newConstraint.filterInitialize
      (s.availableFor priority)).1
    (s.insertConstraint newConstraint priority).constraints.entries =
        s.constraints.before priority ++ (priority, inserted) ::
          (withdrawFromFirst rejected lower).1 ∧
      (s.insertConstraint newConstraint priority).rank =
        s.rank.remove (withdrawFromFirst rejected lower).2 ∧
      (s.insertConstraint newConstraint priority).problemIsChanged =
        (s.problemIsChanged || !rejected.isEmpty) ∧
      (s.insertConstraint newConstraint priority).bestOperatingPointFound =
        s.bestOperatingPointFound := by
  intro rejected lower inserted
  have hnodup : rejected.Nodup := rejectedBy_nodup hpart _ _
  by_cases hempty : rejected.isEmpty = true
  · have hstate : s.insertConstraint newConstraint priority =
        { s with constraints := s.constraints.insert priority inserted } := by
      rw [insertConstraint]
      exact if_pos hempty
    rw [hstate, List.isEmpty_iff.mp hempty, withdrawFromFirst_nil]
    refine ⟨rfl, rfl, ?_, rfl⟩
    simp
  · let removed := removeFromLower (s.constraints.insert priority inserted)
      ((s.constraints.insert priority inserted).upperBound priority) rejected
    have hstate : s.insertConstraint newConstraint priority =
        { s with
          constraints := removed.1
          rank := s.rank.remove removed.2
          problemIsChanged := true } := by
      rw [insertConstraint]
      exact if_neg hempty
    obtain ⟨hentries, hleft⟩ := removeFromLower_spec
      (OrderedMap.find?_insert_self s.constraints priority inserted) hnodup
    rw [OrderedMap.before_insert, OrderedMap.upperBound_insert] at hentries
    rw [OrderedMap.upperBound_insert] at hleft
    rw [hstate]
    refine ⟨?_, ?_, ?_, rfl⟩
    · simp only [removed, OrderedMap.upperBound_insert]
      exact hentries
    · simp only [removed, OrderedMap.upperBound_insert, hleft]
      rfl
    · simp [hempty]

/-- The condition under which adding a constraint keeps the partition: the
new constraint accepts what is blocked below the first lower constraint, and
rejects what the constraint that it replaces was blocking. -/
structure Admits (s : State g P) (newConstraint : Constraint g)
    (priority : P) : Prop where
  lower : ∀ entry ∈ (s.constraints.upperBound priority).tail,
    ∀ op ∈ entry.2.blockedOps, newConstraint.achieves op = true
  replaced : ∀ old, s.constraints.find? priority = some old →
    ∀ op ∈ old.blockedOps, newConstraint.achieves op = false

theorem cleared_insertConstraint (hpart : s.Partition kb)
    (newConstraint : Constraint g) (priority : P) :
    cleared (s.insertConstraint newConstraint priority).constraints.entries =
      cleared (s.constraints.insert priority newConstraint).entries := by
  rw [(insertConstraint_spec hpart _ _).1, OrderedMap.entries_insert,
    cleared_append, cleared_append, cleared_cons, cleared_cons,
    cleared_withdrawFromFirst, Constraint.clear_filterInitialize]

theorem mem_inserted (hpart : s.Partition kb)
    (hempty : newConstraint.clear = newConstraint)
    (op : OperatingPointPtr g) :
    op ∈ (newConstraint.filterInitialize
        (s.availableFor priority)).1.blockedOps ↔
      op ∈ passed (stagesOf (s.constraints.before priority)) kb.points ∧
        newConstraint.achieves op = false := by
  have hnone : op ∉ newConstraint.blockedOps := by
    rw [← hempty]
    exact UnorderedSet.not_mem_empty op
  rw [Constraint.mem_blockedOps_filterInitialize, or_iff_right hnone]
  exact mem_rejectedBy hpart op

/-- What is left below a new constraint. -/
theorem below_diff_rejectedBy (hpart : s.Partition kb)
    (hreplaced : ∀ old, s.constraints.find? priority = some old →
      ∀ op ∈ old.blockedOps, newConstraint.achieves op = false) :
    s.below kb priority \ {op | op ∈ s.rejectedBy newConstraint priority} =
      {op | op ∈ passed (stagesOf (s.constraints.before priority)) kb.points ∧
        newConstraint.achieves op = true} := by
  ext op
  rw [Set.mem_sdiff, mem_below, Set.mem_ofPred_eq, mem_rejectedBy hpart]
  constructor
  · rintro ⟨⟨hreached, -⟩, hnot⟩
    refine ⟨hreached, ?_⟩
    by_contra hrejects
    exact hnot ⟨hreached, Bool.eq_false_of_not_eq_true hrejects⟩
  · rintro ⟨hreached, haccepts⟩
    refine ⟨⟨hreached, ?_⟩, ?_⟩
    · intro old hfind hblocked
      rw [hreplaced old hfind op hblocked] at haccepts
      contradiction
    · rintro ⟨-, hrejects⟩
      rw [haccepts] at hrejects
      contradiction

theorem partition_insertConstraint (hpart : s.Partition kb)
    (hempty : newConstraint.clear = newConstraint)
    (hview : newConstraint.knowledgeView.elems.Perm kb.knowledge)
    (hadmits : s.Admits newConstraint priority) :
    (s.insertConstraint newConstraint priority).Partition kb := by
  obtain ⟨hentries, hrank, -⟩ := insertConstraint_spec hpart
    newConstraint priority
  obtain ⟨hbefore, hlower, hholds⟩ := hpart.around priority
  have hcleared := cleared_insertConstraint hpart newConstraint priority
  have hnodup := rejectedBy_nodup hpart newConstraint priority
  have hloop := withdrawFromFirst_eq_accumulateList hnodup
    (s.constraints.upperBound priority) (by
      intro entry hentry op hop hblocked
      have haccepts := hadmits.lower entry hentry op hblocked
      rw [((mem_rejectedBy hpart op).mp hop).2] at haccepts
      contradiction)
  have hreach := below_diff_rejectedBy hpart hadmits.replaced
  rw [hloop] at hentries hrank
  apply Partition.of_filtered
  · apply views_of_cleared hcleared
    intro entry hentry
    rw [OrderedMap.entries_insert] at hentry
    rcases List.mem_append.mp hentry with hentry | hentry
    · exact hpart.views entry (OrderedMap.mem_before.mp hentry).1
    · rcases List.mem_cons.mp hentry with rfl | hentry
      · exact hview
      · exact hpart.views entry (OrderedMap.mem_upperBound.mp hentry).1
  · rw [hentries, filtered_stagesOf_around]
    have hwithdrawn := filtered_filterRemove hnodup hlower
    rw [hreach] at hwithdrawn
    exact ⟨hbefore, mem_inserted hpart hempty, hwithdrawn⟩
  · rw [passed_stagesOf_of_cleared hcleared, OrderedMap.entries_insert,
      stagesOf_append, passed_append, stagesOf_cons, passed_cons, hrank]
    refine (holds_filterRemove hlower hholds hnodup).congr ?_
    rw [hreach]
    rfl

theorem mem_rank_insertConstraint (hpart : s.Partition kb)
    (op : OperatingPointPtr g) :
    op ∈ (s.insertConstraint newConstraint priority).rank.toStream ↔
      op ∈ s.rank.toStream ∧ op ∉ s.rejectedBy newConstraint priority := by
  rw [(insertConstraint_spec hpart _ _).2.1]
  refine (MultiMap.mem_eraseAll hpart.rankNodup).trans ?_
  rw [mem_withdrawFromFirst_snd (rejectedBy_nodup hpart _ _)]
  refine and_congr_right fun hrank => not_congr (and_iff_left ?_)
  intro first hfirst hblocked
  have hentry := (OrderedMap.mem_upperBound.mp
    (List.mem_of_mem_head? hfirst)).1
  have hfalse := ((hpart.blocked first hentry op).mp hblocked).2.2
  rw [((hpart.ranked op).mp hrank).2 first hentry] at hfalse
  contradiction

theorem rankNodup_insertConstraint (hpart : s.Partition kb) :
    (s.insertConstraint newConstraint priority).rank.toStream.Nodup := by
  rw [(insertConstraint_spec hpart _ _).2.1]
  exact MultiMap.nodup_eraseAll hpart.rankNodup

/-- What the replaced constraint was blocking is given to nobody: only the new
constraint can have it. -/
theorem freed_not_placed {old : Constraint g} (hpart : s.Partition kb)
    (newConstraint : Constraint g)
    (hfind : s.constraints.find? priority = some old)
    {op : OperatingPointPtr g} (hop : op ∈ old.blockedOps) :
    op ∉ (s.insertConstraint newConstraint priority).rank.toStream ∧
      ∀ entry ∈ (s.insertConstraint newConstraint
        priority).constraints.entries,
        op ∈ entry.2.blockedOps → entry.1 = priority := by
  have hold := OrderedMap.find?_eq_some.mp hfind
  have hfalse := ((hpart.blocked _ hold op).mp hop).2.2
  constructor
  · intro hranked
    have hbefore := ((mem_rank_insertConstraint hpart op).mp hranked).1
    rw [((hpart.ranked op).mp hbefore).2 _ hold] at hfalse
    contradiction
  · intro entry hentry hblocked
    rw [(insertConstraint_spec hpart _ _).1] at hentry
    rcases List.mem_append.mp hentry with hentry | hentry
    · have hentry := (OrderedMap.mem_before.mp hentry).1
      exact congrArg Prod.fst (hpart.blocked_once hentry hblocked hold hop)
    · rcases List.mem_cons.mp hentry with rfl | hentry
      · rfl
      · obtain ⟨origin, horigin, hkey, hsubset⟩ :=
          exists_of_mem_withdrawFromFirst hentry
        have horigin := (OrderedMap.mem_upperBound.mp horigin).1
        have heq := hpart.blocked_once horigin (hsubset op hblocked) hold hop
        exact hkey.symm.trans (congrArg Prod.fst heq)

omit [HashOrder (OperatingPointPtr g)] in
theorem admits_of_constraints_empty
    (hempty : s.constraints = OrderedMap.empty) :
    s.Admits newConstraint priority where
  lower := by simp [hempty, OrderedMap.upperBound, OrderedMap.empty]
  replaced := by simp [hempty, OrderedMap.find?, OrderedMap.empty]

/-- The condition is necessary: otherwise something is blocked twice, or it is
lost. -/
theorem admits_of_partition (hpart : s.Partition kb)
    (hafter : (s.insertConstraint newConstraint priority).Partition kb) :
    s.Admits newConstraint priority := by
  obtain ⟨hentries, -, -⟩ := insertConstraint_spec hpart
    newConstraint priority
  have hachieves := Constraint.achieves_eq_of_clear
    (newConstraint.clear_filterInitialize (s.availableFor priority))
  constructor
  · intro entry hentry op hop
    cases hsplit : s.constraints.upperBound priority with
    | nil => simp [hsplit] at hentry
    | cons first rest =>
        have hupper : entry ∈ s.constraints.upperBound priority :=
          List.mem_of_mem_tail hentry
        rw [hsplit] at hentry hentries
        have hkept : entry ∈ (s.insertConstraint newConstraint
            priority).constraints.entries := by
          rw [hentries]
          simp [withdrawFromFirst, show entry ∈ rest from hentry]
        have hhigher := ((hafter.blocked entry hkept op).mp hop).2.1
        rw [← hachieves]
        exact hhigher (priority, _) (OrderedMap.mem_before.mpr
          ⟨by rw [hentries]; simp, (OrderedMap.mem_upperBound.mp hupper).2⟩)
  · intro old hfind op hop
    have hknown := ((hpart.blocked _ (OrderedMap.find?_eq_some.mp hfind)
      op).mp hop).1
    obtain ⟨hnotRanked, honly⟩ := freed_not_placed hpart newConstraint
      hfind hop
    rcases hafter.placed_once hknown with ⟨hranked, -⟩ | ⟨-, entry, hplaced, -⟩
    · exact absurd hranked hnotRanked
    · obtain ⟨hentry, hblocked⟩ := hplaced
      have hkey := honly entry hentry hblocked
      have hfalse := ((hafter.blocked entry hentry op).mp hblocked).2.2
      have hinserted : (priority, (newConstraint.filterInitialize
          (s.availableFor priority)).1) ∈ (s.insertConstraint newConstraint
            priority).constraints.entries := by
        rw [hentries]
        simp
      have hsame := OrderedMap.find?_eq_some.mpr hentry
      rw [hkey, OrderedMap.find?_eq_some.mpr hinserted] at hsame
      rw [← hachieves, Option.some.inj hsame]
      exact hfalse

variable (information : KnowledgeAdaptor g) (runtime : RuntimeInformation)
  (targetField : OPField g) (sigma : Int) (goalValue : Goal)

theorem clear_newConstraint (kb : Knowledge g) :
    (State.newConstraint kb information runtime targetField sigma
      goalValue).clear =
      State.newConstraint kb information runtime targetField sigma goalValue :=
  rfl

theorem view_newConstraint (kb : Knowledge g) :
    (State.newConstraint kb information runtime targetField sigma
      goalValue).knowledgeView.elems.Perm kb.knowledge := by
  have hview := MultiMap.elems_emplaceAll_perm
    (MultiMap.empty : MultiMap (constraintField targetField sigma goalValue))
    kb.toStream
  exact hview.trans (by simpa using kb.toStream_perm)

/-- `add_constraint` keeps the partition exactly under its condition. -/
theorem partition_addConstraint_iff (hpart : s.Partition kb) (priority : P) :
    (s.addConstraint kb information runtime targetField sigma goalValue
        priority).Partition kb ↔
      s.Admits (State.newConstraint kb information runtime targetField sigma
        goalValue) priority :=
  ⟨admits_of_partition hpart,
    partition_insertConstraint hpart
      (clear_newConstraint information runtime targetField sigma goalValue kb)
      (view_newConstraint information runtime targetField sigma goalValue kb)⟩

end Insert

end State

end Margot
