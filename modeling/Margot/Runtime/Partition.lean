/-
The partition of the knowledge.  Every Operating Point of the knowledge is
blocked by the first constraint whose goal it does not achieve, and it is in
the rank when there is no such constraint.  The operations that do not add a
constraint keep the partition.
-/
import Margot.Runtime.Chain

namespace Margot

variable {g : Geometry} {P : Type}

namespace Rank

/-- The rank holds the valid Operating Points, each of them once. -/
structure Holds (rank : Rank g) (valid : Set (OperatingPointPtr g)) : Prop where
  nodup : rank.toStream.Nodup
  mem_iff : ∀ op, op ∈ rank.toStream ↔ op ∈ valid

variable {rank : Rank g} {valid : Set (OperatingPointPtr g)}

@[simp] theorem clear_add (rank : Rank g) (newOps : OPStream g) :
    (rank.add newOps).clear = rank.clear :=
  rfl

@[simp] theorem clear_remove (rank : Rank g) (ops : OPStream g) :
    (rank.remove ops).clear = rank.clear :=
  rfl

@[simp] theorem clear_clear (rank : Rank g) : rank.clear.clear = rank.clear :=
  rfl

theorem toStream_add_perm (rank : Rank g) (newOps : OPStream g) :
    (rank.add newOps).toStream.Perm (rank.toStream ++ newOps) :=
  MultiMap.elems_emplaceAll_perm _ _

theorem holds_new (objective : RankObjective)
    (evaluate : OperatingPointPtr g → ℚ) :
    (new objective evaluate).Holds ∅ where
  nodup := List.nodup_nil
  mem_iff := fun _ => by simp [toStream, new]

theorem holds_clear (rank : Rank g) : rank.clear.Holds ∅ :=
  holds_new rank.objective rank.evaluate

theorem Holds.add (hholds : rank.Holds valid) {newOps : OPStream g}
    (hnodup : newOps.Nodup) (hnew : ∀ op ∈ newOps, op ∉ valid) :
    (rank.add newOps).Holds (valid ∪ {op | op ∈ newOps}) where
  nodup := by
    rw [(toStream_add_perm rank newOps).nodup_iff, List.nodup_append]
    refine ⟨hholds.nodup, hnodup, ?_⟩
    rintro op hop other hother rfl
    exact hnew op hother ((hholds.mem_iff op).mp hop)
  mem_iff := fun op => by
    rw [(toStream_add_perm rank newOps).mem_iff, List.mem_append,
      hholds.mem_iff]
    exact Iff.rfl

theorem Holds.remove (hholds : rank.Holds valid) (ops : OPStream g) :
    (rank.remove ops).Holds (valid \ {op | op ∈ ops}) where
  nodup := MultiMap.nodup_eraseAll hholds.nodup
  mem_iff := fun op =>
    (MultiMap.mem_eraseAll hholds.nodup).trans
      (and_congr_left fun _ => hholds.mem_iff op)

theorem Holds.congr {other : Set (OperatingPointPtr g)}
    (hholds : rank.Holds valid) (hsame : valid = other) : rank.Holds other :=
  hsame ▸ hholds

end Rank

namespace State

variable [LinearOrder P] {kb : Knowledge g} {s : State g P}

/-- The partition of the knowledge, relative to the check values stored in
the constraints. -/
structure Partition (kb : Knowledge g) (s : State g P) : Prop where
  views : ∀ entry ∈ s.constraints.entries,
    entry.2.knowledgeView.elems.Perm kb.knowledge
  blocked : ∀ entry ∈ s.constraints.entries, ∀ op,
    op ∈ entry.2.blockedOps ↔ op ∈ kb ∧
      (∀ higher ∈ s.constraints.before entry.1,
        higher.2.achieves op = true) ∧
      entry.2.achieves op = false
  ranked : ∀ op, op ∈ s.rank.toStream ↔
    op ∈ kb ∧ ∀ entry ∈ s.constraints.entries, entry.2.achieves op = true
  rankNodup : s.rank.toStream.Nodup

theorem Partition.of_filtered
    (hviews : ∀ entry ∈ s.constraints.entries,
      entry.2.knowledgeView.elems.Perm kb.knowledge)
    (hchain : Filtered kb.points (stagesOf s.constraints.entries))
    (hrank : s.rank.Holds
      (passed (stagesOf s.constraints.entries) kb.points)) :
    s.Partition kb where
  views := hviews
  blocked := by
    intro entry hentry op
    obtain ⟨before, after, hsplit⟩ := List.append_of_mem hentry
    rw [OrderedMap.before_of_split hsplit]
    rw [hsplit, stagesOf_append, stagesOf_cons] at hchain
    rw [← Constraint.mem_stage_held, hchain.held_eq, ← Bool.not_eq_true]
    exact (and_congr_left' mem_passed_stagesOf).trans and_assoc
  ranked := fun op => (hrank.mem_iff op).trans mem_passed_stagesOf
  rankNodup := hrank.nodup

theorem Partition.filtered (hpart : s.Partition kb) :
    Filtered kb.points (stagesOf s.constraints.entries) := by
  suffices hheld : ∀ first stage after,
      stagesOf s.constraints.entries = first ++ stage :: after →
      stage.held = {op | op ∈ passed ([] ++ first) kb.points ∧
        ¬ stage.accepts op} by
    simpa using filtered_of_forall kb.points [] hheld
  intro first found after hsplit
  obtain ⟨before, rest, hentries, rfl, hrest⟩ := List.map_eq_append_iff.mp hsplit
  obtain ⟨entry, tail, rfl, rfl, -⟩ := List.map_eq_cons_iff.mp hrest
  have hentry : entry ∈ s.constraints.entries := by simp [hentries]
  ext op
  have hblocked := hpart.blocked entry hentry op
  rw [OrderedMap.before_of_split hentries, ← Bool.not_eq_true,
    ← and_assoc] at hblocked
  rw [List.nil_append]
  exact hblocked.trans (and_congr_left' mem_passed_stagesOf.symm)

theorem Partition.holds (hpart : s.Partition kb) :
    s.rank.Holds (passed (stagesOf s.constraints.entries) kb.points) where
  nodup := hpart.rankNodup
  mem_iff := fun op => (hpart.ranked op).trans mem_passed_stagesOf.symm

theorem achieves_of_before {entry : P × Constraint g}
    (hpart : s.Partition kb) (hentry : entry ∈ s.constraints.entries)
    {op : OperatingPointPtr g} (hblocked : op ∈ entry.2.blockedOps)
    {higher : P × Constraint g} (hhigher : higher ∈ s.constraints.entries)
    (hlt : higher.1 < entry.1) : higher.2.achieves op = true :=
  ((hpart.blocked entry hentry op).mp hblocked).2.1 higher
    (OrderedMap.mem_before.mpr ⟨hhigher, hlt⟩)

/-- Nothing is blocked twice. -/
theorem Partition.blocked_once (hpart : s.Partition kb)
    {op : OperatingPointPtr g} {entry other : P × Constraint g}
    (hentry : entry ∈ s.constraints.entries)
    (hblocked : op ∈ entry.2.blockedOps)
    (hother : other ∈ s.constraints.entries)
    (hagain : op ∈ other.2.blockedOps) : entry = other := by
  have hfalse := ((hpart.blocked entry hentry op).mp hblocked).2.2
  have hotherFalse := ((hpart.blocked other hother op).mp hagain).2.2
  rcases lt_trichotomy entry.1 other.1 with hlt | heq | hgt
  · rw [achieves_of_before hpart hother hagain hentry hlt] at hfalse
    contradiction
  · obtain ⟨key, value⟩ := entry
    obtain ⟨otherKey, otherValue⟩ := other
    obtain rfl : key = otherKey := heq
    have hfirst := OrderedMap.find?_eq_some.mpr hentry
    rw [OrderedMap.find?_eq_some.mpr hother] at hfirst
    rw [Option.some.inj hfirst]
  · rw [achieves_of_before hpart hentry hblocked hother hgt] at hotherFalse
    contradiction

/-- Nothing is lost and nothing is there twice: an Operating Point of the
knowledge is in the rank, or it is blocked by one constraint only. -/
theorem Partition.placed_once (hpart : s.Partition kb)
    {op : OperatingPointPtr g} (hop : op ∈ kb) :
    (op ∈ s.rank.toStream ∧
        ∀ entry ∈ s.constraints.entries, op ∉ entry.2.blockedOps) ∨
      (op ∉ s.rank.toStream ∧
        ∃! entry, entry ∈ s.constraints.entries ∧
          op ∈ entry.2.blockedOps) := by
  by_cases hpassed : op ∈ passed (stagesOf s.constraints.entries) kb.points
  · refine Or.inl ⟨(hpart.holds.mem_iff op).mpr hpassed, ?_⟩
    intro entry hentry hblocked
    have hfalse := ((hpart.blocked entry hentry op).mp hblocked).2.2
    rw [(mem_passed_stagesOf.mp hpassed).2 entry hentry] at hfalse
    contradiction
  · refine Or.inr ⟨fun hrank => hpassed ((hpart.holds.mem_iff op).mp hrank),
      ?_⟩
    obtain ⟨before, stage, after, hsplit, hbefore, hstage⟩ :=
      exists_first_rejection (kb.mem_points.mpr hop) hpassed
    have hchain := hpart.filtered
    rw [hsplit] at hchain
    have hheld := hchain.mem_held.mpr ⟨hop, hbefore, hstage⟩
    have hmem : stage ∈ stagesOf s.constraints.entries := by simp [hsplit]
    obtain ⟨entry, hentry, rfl⟩ := List.mem_map.mp hmem
    refine ⟨entry, ⟨hentry, hheld⟩, ?_⟩
    rintro other ⟨hother, hagain⟩
    exact hpart.blocked_once hother hagain hentry hheld

theorem partition_new : (State.new : State g P).Partition Knowledge.clear where
  views := by simp [State.new, OrderedMap.empty]
  blocked := by simp [State.new, OrderedMap.empty]
  ranked := by simp [State.new, Rank.new, Rank.toStream, Knowledge.mem_def,
    Knowledge.clear]
  rankNodup := List.nodup_nil

/-- What reaches the constraints below a priority. -/
def below (s : State g P) (kb : Knowledge g) (priority : P) :
    Set (OperatingPointPtr g) :=
  {op | op ∈ passed (stagesOf (s.constraints.before priority)) kb.points ∧
    ∀ old, s.constraints.find? priority = some old → op ∉ old.blockedOps}

theorem mem_below {priority : P} {op : OperatingPointPtr g} :
    op ∈ s.below kb priority ↔
      op ∈ passed (stagesOf (s.constraints.before priority)) kb.points ∧
        ∀ old, s.constraints.find? priority = some old →
          op ∉ old.blockedOps :=
  Iff.rfl

/-- A priority cuts the chain in two. -/
theorem Partition.around (hpart : s.Partition kb) (priority : P) :
    Filtered kb.points (stagesOf (s.constraints.before priority)) ∧
      Filtered (s.below kb priority)
        (stagesOf (s.constraints.upperBound priority)) ∧
      s.rank.Holds (passed (stagesOf (s.constraints.upperBound priority))
        (s.below kb priority)) := by
  have hchain := hpart.filtered
  have hholds := hpart.holds
  cases hfind : s.constraints.find? priority with
  | none =>
      have hbelow : s.below kb priority =
          passed (stagesOf (s.constraints.before priority)) kb.points := by
        ext op
        simp [mem_below, hfind]
      rw [OrderedMap.entries_split_of_find?_none hfind, stagesOf_append]
        at hchain hholds
      rw [filtered_append] at hchain
      rw [passed_append] at hholds
      rw [hbelow]
      exact ⟨hchain.1, hchain.2, hholds⟩
  | some old =>
      rw [OrderedMap.entries_split hfind] at hchain hholds
      rw [filtered_stagesOf_around] at hchain
      rw [stagesOf_append, passed_append, stagesOf_cons, passed_cons]
        at hholds
      obtain ⟨hbefore, hblocked, hlower⟩ := hchain
      have hbelow : s.below kb priority =
          {op | op ∈ passed (stagesOf (s.constraints.before priority))
            kb.points ∧ old.achieves op = true} := by
        ext op
        simp only [mem_below, hfind, Option.some.injEq, forall_eq', hblocked,
          Set.mem_ofPred_eq]
        cases old.achieves op <;> simp
      rw [hbelow]
      exact ⟨hbefore, hlower, hholds⟩

section Cascade

variable {entries : List (P × Constraint g)}
  {source : Set (OperatingPointPtr g)}

omit [LinearOrder P] in
theorem passed_filterAdd (input : OPStream g) :
    passed (stagesOf entries) source ∪
        {op | op ∈ (OrderedMap.accumulateList (fun _ => true)
          Constraint.filterAdd entries input).2} =
      passed (stagesOf entries) (source ∪ {op | op ∈ input}) := by
  ext op
  rw [filterAdd_remainder, mem_passed_stagesOf, Set.mem_union,
    mem_passed_stagesOf]
  simp only [Set.mem_ofPred_eq, Set.mem_union, List.mem_filter,
    List.all_eq_true]
  exact or_and_right.symm

omit [LinearOrder P] in
/-- The rank after a hand-over holds what passes the whole chain. -/
theorem holds_filterAdd {rank : Rank g} {input : OPStream g}
    (hholds : rank.Holds (passed (stagesOf entries) source))
    (hnodup : input.Nodup) (hnew : ∀ op ∈ input, op ∉ source) :
    (rank.add (OrderedMap.accumulateList (fun _ => true)
      Constraint.filterAdd entries input).2).Holds
        (passed (stagesOf entries) (source ∪ {op | op ∈ input})) := by
  have hout := filterAdd_remainder entries input
  refine (hholds.add ?_ ?_).congr (passed_filterAdd input)
  · rw [hout]
    exact hnodup.filter _
  · intro op hop hpassed
    rw [hout] at hop
    exact hnew op (List.mem_of_mem_filter hop) hpassed.1

omit [LinearOrder P] in
/-- The rank after a withdrawal keeps the rest. -/
theorem holds_filterRemove {rank : Rank g} {input : OPStream g}
    (hchain : Filtered source (stagesOf entries))
    (hholds : rank.Holds (passed (stagesOf entries) source))
    (hnodup : input.Nodup) :
    (rank.remove (OrderedMap.accumulateList (fun _ => true)
      Constraint.filterRemove entries input).2).Holds
        (passed (stagesOf entries) (source \ {op | op ∈ input})) := by
  refine (hholds.remove _).congr ?_
  ext op
  rw [filterRemove_remainder entries hnodup, Set.mem_sdiff,
    mem_passed_stagesOf, mem_passed_stagesOf]
  simp only [Set.mem_ofPred_eq, Set.mem_sdiff, List.mem_filter,
    List.all_eq_true, decide_eq_true_eq]
  constructor
  · rintro ⟨⟨hsource, hall⟩, hnot⟩
    refine ⟨⟨hsource, fun hop => hnot ⟨hop, ?_⟩⟩, hall⟩
    intro entry hentry hblocked
    have hpassed := (hchain.held_not_passed
      (List.mem_map_of_mem hentry) hblocked).2
    exact hpassed (mem_passed_stagesOf.mpr ⟨hsource, hall⟩)
  · rintro ⟨⟨hsource, hnot⟩, hall⟩
    exact ⟨⟨hsource, hall⟩, fun hop => hnot hop.1⟩

end Cascade

theorem entries_setKnowledgeBase [HashOrder (OperatingPointPtr g)]
    (s : State g P) (kb : Knowledge g) :
    (s.setKnowledgeBase kb).constraints.entries =
      (OrderedMap.accumulateList (fun _ => true) Constraint.filterAdd
        (cleared (s.constraints.entries.map fun entry =>
          (entry.1, entry.2.set kb))) kb.toStream).1 := by
  simp [setKnowledgeBase, cleared, Function.comp_def]

theorem rank_setKnowledgeBase [HashOrder (OperatingPointPtr g)]
    (s : State g P) (kb : Knowledge g) :
    (s.setKnowledgeBase kb).rank =
      s.rank.clear.add (OrderedMap.accumulateList (fun _ => true)
        Constraint.filterAdd (cleared (s.constraints.entries.map fun entry =>
          (entry.1, entry.2.set kb))) kb.toStream).2 := by
  simp [setKnowledgeBase, cleared, Function.comp_def]

/-- Setting the knowledge builds the partition from nothing. -/
theorem partition_setKnowledgeBase [HashOrder (OperatingPointPtr g)]
    (s : State g P) (kb : Knowledge g) :
    (s.setKnowledgeBase kb).Partition kb := by
  have hentries := entries_setKnowledgeBase s kb
  have hsource : ∅ ∪ {op | op ∈ kb.toStream} = kb.points := by
    ext op
    simp
  apply Partition.of_filtered
  · rw [hentries]
    apply views_of_cleared (cleared_filterAdd _ _)
    intro entry hentry
    rw [cleared, List.map_map, List.mem_map] at hentry
    obtain ⟨other, -, rfl⟩ := hentry
    have hperm := MultiMap.elems_emplaceAll_perm
      (MultiMap.empty : MultiMap (constraintField other.2.targetField
        other.2.sigma other.2.targetGoal)) kb.toStream
    exact hperm.trans (by simpa using kb.toStream_perm)
  · rw [hentries, ← hsource]
    exact filtered_filterAdd _ (filtered_stagesOf_clear _)
  · rw [hentries, passed_stagesOf_of_cleared (cleared_filterAdd _ _),
      ← hsource]
    have hempty := s.rank.holds_clear
    refine rank_setKnowledgeBase s kb ▸ holds_filterAdd
      (hempty.congr ?_) kb.toStream_nodup (by simp)
    simp [mem_passed_stagesOf, Set.ext_iff]

theorem partition_addOperatingPoints {after : Knowledge g}
    {newOps : OPStream g} (hpart : s.Partition kb)
    (hperm : after.knowledge.Perm (kb.knowledge ++ newOps)) :
    (s.addOperatingPoints newOps).Partition after := by
  let viewed := s.constraints.entries.map fun entry =>
    (entry.1, newOps.foldl Constraint.add entry.2)
  have hentries : (s.addOperatingPoints newOps).constraints.entries =
      (OrderedMap.accumulateList (fun _ => true) Constraint.filterAdd
        viewed newOps).1 := rfl
  have hviewed : stagesOf viewed = stagesOf s.constraints.entries := by
    simp only [viewed, stagesOf, List.map_map]
    apply List.map_congr_left
    intro entry _
    simp only [Function.comp_apply, Constraint.foldl_add]
    rfl
  have hnodup := (hperm.nodup_iff.mp after.nodup)
  rw [List.nodup_append] at hnodup
  obtain ⟨-, hnewNodup, hdisjoint⟩ := hnodup
  have hsource : kb.points ∪ {op | op ∈ newOps} = after.points := by
    ext op
    rw [Knowledge.mem_points, Knowledge.mem_def, hperm.mem_iff,
      List.mem_append]
    exact Iff.rfl
  have hholds := hpart.holds
  have hchain := hpart.filtered
  rw [← hviewed] at hholds hchain
  apply Partition.of_filtered
  · rw [hentries]
    apply views_of_cleared (cleared_filterAdd _ _)
    intro entry hentry
    obtain ⟨other, hother, rfl⟩ := List.mem_map.mp hentry
    have hview := MultiMap.elems_emplaceAll_perm other.2.knowledgeView newOps
    rw [Constraint.foldl_add]
    exact hview.trans (((hpart.views other hother).append_right
      newOps).trans hperm.symm)
  · rw [hentries, ← hsource]
    exact filtered_filterAdd newOps hchain
  · rw [hentries, passed_stagesOf_of_cleared (cleared_filterAdd _ _),
      ← hsource]
    refine holds_filterAdd hholds hnewNodup ?_
    intro op hop hknown
    exact hdisjoint op hknown op hop rfl

omit [LinearOrder P] in
theorem filtered_foldl_remove {entries : List (P × Constraint g)}
    {source : Set (OperatingPointPtr g)} (ops : OPStream g)
    (hchain : Filtered source (stagesOf entries)) :
    Filtered (source \ {op | op ∈ ops}) (stagesOf (entries.map fun entry =>
      (entry.1, ops.foldl Constraint.remove entry.2))) := by
  induction entries generalizing source with
  | nil => trivial
  | cons entry rest ih =>
      obtain ⟨hblocked, hrest⟩ := filtered_stagesOf_cons.mp hchain
      obtain ⟨blocked, hfold, hmem⟩ := Constraint.foldl_remove entry.2 ops
      rw [List.map_cons, filtered_stagesOf_cons, hfold]
      refine ⟨?_, ?_⟩
      · intro op
        rw [hmem, hblocked]
        exact and_right_comm
      · have hreach : {op | op ∈ source \ {op | op ∈ ops} ∧
            entry.2.achieves op = true} =
            {op | op ∈ source ∧ entry.2.achieves op = true} \
              {op | op ∈ ops} :=
          Set.ext fun _ => and_right_comm
        have hnext := ih hrest
        rw [← hreach] at hnext
        exact hnext

theorem partition_removeOperatingPoints {after : Knowledge g}
    {ops : OPStream g} (hpart : s.Partition kb)
    (hperm : kb.knowledge.Perm (ops ++ after.knowledge)) :
    (s.removeOperatingPoints ops).Partition after := by
  have hentries : (s.removeOperatingPoints ops).constraints.entries =
      s.constraints.entries.map fun entry =>
        (entry.1, ops.foldl Constraint.remove entry.2) := rfl
  have hnodup := hperm.nodup_iff.mp kb.nodup
  rw [List.nodup_append] at hnodup
  have hmem : ∀ op, op ∈ after.knowledge ↔ op ∈ kb.knowledge ∧ op ∉ ops := by
    intro op
    rw [hperm.mem_iff, List.mem_append]
    constructor
    · intro hop
      exact ⟨Or.inr hop, fun hremoved => hnodup.2.2 op hremoved op hop rfl⟩
    · rintro ⟨hremoved | hop, hnot⟩
      · exact absurd hremoved hnot
      · exact hop
  have hsource : kb.points \ {op | op ∈ ops} = after.points :=
    Set.ext fun op => (hmem op).symm
  apply Partition.of_filtered
  · rw [hentries]
    intro entry hentry
    obtain ⟨other, hother, rfl⟩ := List.mem_map.mp hentry
    obtain ⟨blocked, hfold, -⟩ := Constraint.foldl_remove other.2 ops
    have hview := hpart.views other hother
    have hviewNodup := hview.nodup_iff.mpr kb.nodup
    rw [hfold]
    refine (List.perm_ext_iff_of_nodup (MultiMap.nodup_eraseAll hviewNodup)
      after.nodup).mpr fun op => ?_
    rw [← MultiMap.mem_def, MultiMap.mem_eraseAll hviewNodup,
      MultiMap.mem_def, hview.mem_iff, hmem]
  · rw [hentries, ← hsource]
    exact filtered_foldl_remove ops hpart.filtered
  · refine (hpart.holds.remove ops).congr ?_
    ext op
    rw [hentries, ← hsource, Set.mem_sdiff, mem_passed_stagesOf,
      mem_passed_stagesOf, List.forall_mem_map, and_right_comm]
    refine and_congr Iff.rfl (forall₂_congr fun entry _ => ?_)
    obtain ⟨blocked, hfold, -⟩ := Constraint.foldl_remove entry.2 ops
    rw [hfold]
    exact Iff.rfl

theorem partition_setRank (hpart : s.Partition kb) (objective : RankObjective)
    (evaluate : OperatingPointPtr g → ℚ) :
    (s.setRank objective evaluate).Partition kb := by
  have hholds : (s.setRank objective evaluate).rank.Holds
      (passed (stagesOf s.constraints.entries) kb.points) := by
    have hadd := (Rank.holds_new objective evaluate).add hpart.rankNodup
      (by simp)
    have hcontent := hadd.congr (Set.ext fun op => by
      simpa using hpart.holds.mem_iff op)
    rw [setRank]
    split
    · next hempty =>
        rw [List.isEmpty_iff.mp hempty] at hcontent
        exact hcontent
    · exact hcontent
  have hentries : (s.setRank objective evaluate).constraints =
      s.constraints := by
    rw [setRank]
    split <;> rfl
  apply Partition.of_filtered
  · rw [hentries]
    exact hpart.views
  · rw [hentries]
    exact hpart.filtered
  · rw [hentries]
    exact hholds

/-- Two states with the same blocked sets and the same rank content. -/
structure SameContents (s other : State g P) : Prop where
  blocked : SameBlocked s.constraints.entries other.constraints.entries
  ranked : s.rank.toStream.Perm other.rank.toStream

theorem SameContents.trans {other another : State g P}
    (hfirst : s.SameContents other) (hsecond : other.SameContents another) :
    s.SameContents another where
  blocked := hfirst.blocked.trans hsecond.blocked
  ranked := hfirst.ranked.trans hsecond.ranked

/-- The partition is unique. -/
theorem Partition.sameContents {other : State g P} (hpart : s.Partition kb)
    (hother : other.Partition kb)
    (hchecks : SameChecks s.constraints.entries other.constraints.entries) :
    s.SameContents other where
  blocked := sameBlocked_of_filtered hchecks hpart.filtered hother.filtered
    fun _ _ => Iff.rfl
  ranked := by
    refine (List.perm_ext_iff_of_nodup hpart.rankNodup
      hother.rankNodup).mpr fun op => ?_
    rw [hpart.ranked, hother.ranked, hchecks.achieves_all_iff]

section RemoveConstraint

variable [HashOrder (OperatingPointPtr g)] {priority : P} {c : Constraint g}

/-- What is blocked by the removed constraint is handed to the lower ones. -/
def handedDown (s : State g P) (priority : P) (c : Constraint g) :
    List (P × Constraint g) × OPStream g :=
  OrderedMap.accumulateList (fun _ => true) Constraint.filterAdd
    (s.constraints.upperBound priority) c.toStream

theorem removeConstraint_spec (hfind : s.constraints.find? priority = some c) :
    (s.removeConstraint priority).constraints.entries =
        s.constraints.before priority ++ (s.handedDown priority c).1 ∧
      (s.removeConstraint priority).rank =
        s.rank.add (s.handedDown priority c).2 ∧
      (s.removeConstraint priority).problemIsChanged =
        (s.problemIsChanged || !c.toStream.isEmpty) ∧
      (s.removeConstraint priority).bestOperatingPointFound =
        s.bestOperatingPointFound := by
  by_cases hempty : c.toStream.isEmpty = true
  · have hnil := List.isEmpty_iff.mp hempty
    have hremoved : s.removeConstraint priority =
        { s with constraints := s.constraints.erase priority } := by
      simp only [removeConstraint, hfind, hempty, if_true]
    rw [hremoved, handedDown, hnil, filterAdd_nil]
    refine ⟨OrderedMap.entries_erase _ _, rfl, ?_, rfl⟩
    simp
  · have hremoved : s.removeConstraint priority =
        { s with
          constraints := (s.constraints.accumulate (priority < ·)
            Constraint.filterAdd c.toStream).1.erase priority
          rank := s.rank.add (s.constraints.accumulate (priority < ·)
            Constraint.filterAdd c.toStream).2
          problemIsChanged := true } := by
      simp only [removeConstraint, hfind, hempty, Bool.false_eq_true,
        if_false]
    have hcascade := OrderedMap.accumulateList_upperBound hfind
      Constraint.filterAdd c.toStream
    have hsplit : (s.constraints.accumulate (priority < ·)
        Constraint.filterAdd c.toStream).1.entries =
        s.constraints.before priority ++ (priority, c) ::
          (s.handedDown priority c).1 :=
      congrArg Prod.fst hcascade
    rw [hremoved]
    refine ⟨?_, ?_, ?_, rfl⟩
    · rw [OrderedMap.entries_erase, OrderedMap.before_of_split hsplit,
        OrderedMap.upperBound_of_split hsplit]
    · rw [OrderedMap.acc_accumulate, hcascade]
      rfl
    · simp [hempty]

theorem removeConstraint_of_find?_none
    (hfind : s.constraints.find? priority = none) :
    s.removeConstraint priority = s := by
  simp [removeConstraint, hfind]

/-- The state after a removal, cut at the removed priority. -/
theorem removeConstraint_cut (hfind : s.constraints.find? priority = some c) :
    (s.removeConstraint priority).constraints.find? priority = none ∧
      (s.removeConstraint priority).constraints.before priority =
        s.constraints.before priority ∧
      (s.removeConstraint priority).constraints.upperBound priority =
        (s.handedDown priority c).1 := by
  apply OrderedMap.cut_of_split (removeConstraint_spec hfind).1
  · exact fun entry hentry => (OrderedMap.mem_before.mp hentry).2
  · intro entry hentry
    obtain ⟨other, hother, hkey, -⟩ := exists_of_cleared
      (cleared_filterAdd (s.constraints.upperBound priority) c.toStream) hentry
    rw [← hkey]
    exact (OrderedMap.mem_upperBound.mp hother).2

theorem partition_removeConstraint (hpart : s.Partition kb) (priority : P) :
    (s.removeConstraint priority).Partition kb := by
  cases hfind : s.constraints.find? priority with
  | none => rwa [removeConstraint_of_find?_none hfind]
  | some c =>
      obtain ⟨hentries, hrank, -⟩ := removeConstraint_spec hfind
      have hsplit := OrderedMap.entries_split hfind
      have hchain := hpart.filtered
      have hholds := hpart.holds
      rw [hsplit, filtered_stagesOf_around] at hchain
      rw [hsplit, stagesOf_append, passed_append, stagesOf_cons,
        passed_cons] at hholds
      obtain ⟨hbefore, hblocked, hlower⟩ := hchain
      let reached := passed (stagesOf (s.constraints.before priority))
        kb.points
      have hreached : {op | op ∈ reached ∧ c.achieves op = true} ∪
          {op | op ∈ c.toStream} = reached := by
        ext op
        have hop : op ∈ c.toStream ↔
            op ∈ reached ∧ c.achieves op = false :=
          UnorderedSet.mem_iterate.trans (hblocked op)
        simp only [Set.mem_union, Set.mem_ofPred_eq, hop]
        cases c.achieves op <;> simp
      have hviews : cleared (s.removeConstraint priority).constraints.entries =
          cleared (s.constraints.before priority ++
            s.constraints.upperBound priority) := by
        rw [hentries, cleared_append, cleared_append, handedDown,
          cleared_filterAdd]
      apply Partition.of_filtered
      · apply views_of_cleared hviews
        intro entry hentry
        apply hpart.views entry
        rw [hsplit]
        rcases List.mem_append.mp hentry with hentry | hentry
        · exact List.mem_append_left _ hentry
        · exact List.mem_append_right _ (List.mem_cons_of_mem _ hentry)
      · rw [hentries, stagesOf_append, filtered_append]
        have hhanded := filtered_filterAdd c.toStream hlower
        rw [hreached] at hhanded
        exact ⟨hbefore, hhanded⟩
      · rw [passed_stagesOf_of_cleared hviews, stagesOf_append,
          passed_append, hrank]
        have hadded := holds_filterAdd hholds c.blockedOps.iterate_nodup (by
          rintro op hop ⟨-, haccepted⟩
          have hfalse := ((hblocked op).mp
            (UnorderedSet.mem_iterate.mp hop)).2
          rw [Constraint.stage_accepts, hfalse] at haccepted
          contradiction)
        exact hadded.congr (congrArg (passed _) hreached)

end RemoveConstraint

end State

end Margot
