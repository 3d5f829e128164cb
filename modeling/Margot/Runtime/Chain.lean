/-
The constraints of a state as a chain of filters.  The constraints are visited
in priority order; each of them blocks what reaches it and does not achieve
its goal.  The loops that hand Operating Points down the constraints, or take
them away, are followed here on the chain.
-/
import Mathlib.Algebra.Order.Group.Unbundled.Abs
import Mathlib.Algebra.Order.Ring.Rat
import Margot.Runtime.State

namespace Margot

variable {g : Geometry} {P : Type}

namespace Constraint

/-- The constraint as a stage of the chain of filters. -/
def stage (c : Constraint g) : Stage (OperatingPointPtr g) ℚ where
  accepts := fun op => c.achieves op
  distance := fun op => |c.evaluateOp op - c.lastCheckValue|
  held := {op | op ∈ c.blockedOps}

@[simp] theorem stage_accepts (c : Constraint g) (op : OperatingPointPtr g) :
    c.stage.accepts op ↔ c.achieves op = true :=
  Iff.rfl

@[simp] theorem mem_stage_held {c : Constraint g} {op : OperatingPointPtr g} :
    op ∈ c.stage.held ↔ op ∈ c.blockedOps :=
  Iff.rfl

@[simp] theorem achieves_clear (c : Constraint g) :
    c.clear.achieves = c.achieves :=
  rfl

/-- What a constraint blocks has no part in its check. -/
theorem achieves_eq_of_clear {c other : Constraint g}
    (hclear : c.clear = other.clear) : c.achieves = other.achieves := by
  rw [← achieves_clear c, hclear, achieves_clear]

theorem distance_eq_of_clear {c other : Constraint g}
    (hclear : c.clear = other.clear) :
    c.stage.distance = other.stage.distance :=
  congrArg (fun c => c.stage.distance) hclear

theorem view_eq_of_clear {c other : Constraint g}
    (hclear : c.clear = other.clear) :
    c.knowledgeView.elems = other.knowledgeView.elems :=
  congrArg (fun c => c.knowledgeView.elems) hclear

@[simp] theorem clear_filterAdd (c : Constraint g) (input : OPStream g) :
    (c.filterAdd input).1.clear = c.clear :=
  rfl

@[simp] theorem mem_blockedOps_filterAdd {c : Constraint g}
    {input : OPStream g} {op : OperatingPointPtr g} :
    op ∈ (c.filterAdd input).1.blockedOps ↔
      op ∈ c.blockedOps ∨ op ∈ input ∧ c.achieves op = false := by
  simp only [filterAdd, UnorderedSet.mem_emplaceAll, List.mem_filter,
    Bool.not_eq_true']
  exact or_comm

@[simp] theorem clear_filterRemove (c : Constraint g) (input : OPStream g) :
    (c.filterRemove input).1.clear = c.clear := by
  induction input generalizing c with
  | nil => rfl
  | cons op rest ih =>
      rw [filterRemove]
      split
      · exact ih _
      · exact ih c

@[simp] theorem mem_blockedOps_filterRemove {c : Constraint g}
    {input : OPStream g} {op : OperatingPointPtr g} :
    op ∈ (c.filterRemove input).1.blockedOps ↔
      op ∈ c.blockedOps ∧ op ∉ input := by
  induction input generalizing c with
  | nil => simp [filterRemove]
  | cons head rest ih =>
      rw [filterRemove]
      split
      · rw [ih, UnorderedSet.mem_erase, List.mem_cons]
        tauto
      · next hhead =>
          rw [ih, List.mem_cons]
          constructor
          · rintro ⟨hblocked, hrest⟩
            refine ⟨hblocked, ?_⟩
            rintro (rfl | hmem)
            · exact hhead hblocked
            · exact hrest hmem
          · rintro ⟨hblocked, hnot⟩
            exact ⟨hblocked, fun hmem => hnot (Or.inr hmem)⟩

/-- Without repetitions in the input, what is not blocked is handed on. -/
theorem filterRemove_output (c : Constraint g) {input : OPStream g}
    (hnodup : input.Nodup) :
    (c.filterRemove input).2 = input.filter fun op => op ∉ c.blockedOps := by
  induction input generalizing c with
  | nil => rfl
  | cons head rest ih =>
      obtain ⟨hhead, hrest⟩ := List.nodup_cons.mp hnodup
      rw [filterRemove]
      split
      · next hblocked =>
          rw [ih _ hrest, List.filter_cons_of_neg (by simpa using hblocked)]
          apply List.filter_congr
          intro op hop
          have hne : op ≠ head := fun heq => hhead (heq ▸ hop)
          simp [hne]
      · next hblocked =>
          rw [List.filter_cons_of_pos (by simpa using hblocked), ← ih c hrest]

theorem foldl_add (c : Constraint g) (newOps : OPStream g) :
    newOps.foldl add c =
      { c with knowledgeView := c.knowledgeView.emplaceAll newOps } := by
  induction newOps generalizing c with
  | nil => rfl
  | cons op rest ih => exact ih (c.add op)

theorem foldl_remove (c : Constraint g) (ops : OPStream g) :
    ∃ blocked, ops.foldl remove c =
        { c with
          knowledgeView := c.knowledgeView.eraseAll ops
          blockedOps := blocked } ∧
      ∀ op, op ∈ blocked ↔ op ∈ c.blockedOps ∧ op ∉ ops := by
  induction ops generalizing c with
  | nil => exact ⟨c.blockedOps, rfl, by simp⟩
  | cons head rest ih =>
      obtain ⟨blocked, hfold, hblocked⟩ := ih (c.remove head)
      refine ⟨blocked, hfold, fun op => ?_⟩
      rw [hblocked, List.mem_cons]
      simp only [remove, UnorderedSet.mem_erase]
      tauto

end Constraint

theorem forall₂_trans {A : Type} {R : A → A → Prop}
    (htrans : ∀ {first second third}, R first second → R second third →
      R first third) {first second third : List A}
    (hfirst : List.Forall₂ R first second)
    (hsecond : List.Forall₂ R second third) : List.Forall₂ R first third := by
  induction hfirst generalizing third with
  | nil => exact hsecond
  | cons hhead htail ih =>
      cases hsecond with
      | cons hnext hrest =>
          exact List.Forall₂.cons (htrans hhead hnext) (ih hrest)

theorem forall₂_and {A B : Type} {R S : A → B → Prop} {first : List A}
    {second : List B} (hleft : List.Forall₂ R first second)
    (hright : List.Forall₂ S first second) :
    List.Forall₂ (fun one other => R one other ∧ S one other) first second := by
  induction hleft with
  | nil => exact List.Forall₂.nil
  | cons hhead htail ih =>
      cases hright with
      | cons hother hrest => exact List.Forall₂.cons ⟨hhead, hother⟩ (ih hrest)

/-- The chain of filters of a list of constraints. -/
def stagesOf (entries : List (P × Constraint g)) :
    List (Stage (OperatingPointPtr g) ℚ) :=
  entries.map fun entry => entry.2.stage

/-- The constraints of a list, without what they block. -/
def cleared (entries : List (P × Constraint g)) : List (P × Constraint g) :=
  entries.map fun entry => (entry.1, entry.2.clear)

section Chain

variable {entries others : List (P × Constraint g)}
  {source : Set (OperatingPointPtr g)}

@[simp] theorem stagesOf_cons (entry : P × Constraint g) :
    stagesOf (entry :: entries) = entry.2.stage :: stagesOf entries :=
  rfl

@[simp] theorem stagesOf_append :
    stagesOf (entries ++ others) = stagesOf entries ++ stagesOf others :=
  List.map_append

@[simp] theorem cleared_cons (entry : P × Constraint g) :
    cleared (entry :: entries) =
      (entry.1, entry.2.clear) :: cleared entries :=
  rfl

@[simp] theorem cleared_append :
    cleared (entries ++ others) = cleared entries ++ cleared others :=
  List.map_append

theorem mem_passed_stagesOf {op : OperatingPointPtr g} :
    op ∈ passed (stagesOf entries) source ↔
      op ∈ source ∧ ∀ entry ∈ entries, entry.2.achieves op = true := by
  rw [mem_passed, stagesOf, List.forall_mem_map]
  exact Iff.rfl

theorem filtered_stagesOf_cons {entry : P × Constraint g} :
    Filtered source (stagesOf (entry :: entries)) ↔
      (∀ op, op ∈ entry.2.blockedOps ↔
        op ∈ source ∧ entry.2.achieves op = false) ∧
      Filtered {op | op ∈ source ∧ entry.2.achieves op = true}
        (stagesOf entries) := by
  refine and_congr_left fun _ => Set.ext_iff.trans ?_
  refine forall_congr' fun op => iff_congr Iff.rfl ?_
  exact and_congr_right fun _ => Bool.not_eq_true _ ▸ Iff.rfl

theorem filtered_stagesOf_around {before after : List (P × Constraint g)}
    {entry : P × Constraint g} :
    Filtered source (stagesOf (before ++ entry :: after)) ↔
      Filtered source (stagesOf before) ∧
      (∀ op, op ∈ entry.2.blockedOps ↔
        op ∈ passed (stagesOf before) source ∧
          entry.2.achieves op = false) ∧
      Filtered {op | op ∈ passed (stagesOf before) source ∧
        entry.2.achieves op = true} (stagesOf after) := by
  rw [stagesOf_append, filtered_append, filtered_stagesOf_cons]

/-- Constraints that block nothing filter nothing. -/
theorem filtered_stagesOf_clear (entries : List (P × Constraint g)) :
    Filtered ∅ (stagesOf (cleared entries)) := by
  induction entries with
  | nil => trivial
  | cons entry rest ih =>
      rw [cleared_cons, filtered_stagesOf_cons]
      exact ⟨by simp [Constraint.clear], by simpa using ih⟩

theorem forall₂_of_cleared (hsame : cleared entries = cleared others) :
    List.Forall₂ (fun entry other =>
      entry.1 = other.1 ∧ entry.2.clear = other.2.clear) entries others := by
  induction entries generalizing others with
  | nil =>
      cases others with
      | nil => exact List.Forall₂.nil
      | cons head tail => simp [cleared] at hsame
  | cons entry rest ih =>
      cases others with
      | nil => simp [cleared] at hsame
      | cons other tail =>
          rw [cleared_cons, cleared_cons, List.cons.injEq] at hsame
          obtain ⟨hhead, htail⟩ := hsame
          exact List.Forall₂.cons (Prod.mk.inj hhead) (ih htail)

theorem exists_of_cleared (hsame : cleared entries = cleared others)
    {entry : P × Constraint g} (hentry : entry ∈ entries) :
    ∃ other ∈ others, other.1 = entry.1 ∧ other.2.clear = entry.2.clear := by
  have hmem : (entry.1, entry.2.clear) ∈ cleared others :=
    hsame ▸ List.mem_map_of_mem hentry
  obtain ⟨other, hother, heq⟩ := List.mem_map.mp hmem
  exact ⟨other, hother, (Prod.mk.inj heq).1, (Prod.mk.inj heq).2⟩

/-- The constraints have the same priorities and accept the same Operating
Points. -/
def SameChecks (entries others : List (P × Constraint g)) : Prop :=
  List.Forall₂ (fun entry other =>
    entry.1 = other.1 ∧ entry.2.achieves = other.2.achieves) entries others

theorem sameChecks_of_cleared (hsame : cleared entries = cleared others) :
    SameChecks entries others :=
  (forall₂_of_cleared hsame).imp fun _ _ hentry =>
    ⟨hentry.1, Constraint.achieves_eq_of_clear hentry.2⟩

theorem SameChecks.trans {another : List (P × Constraint g)}
    (hfirst : SameChecks entries others) (hsecond : SameChecks others another) :
    SameChecks entries another :=
  forall₂_trans (fun hone htwo =>
    ⟨hone.1.trans htwo.1, hone.2.trans htwo.2⟩) hfirst hsecond

/-- Only the check values, the fields and the goals matter. -/
theorem sameChecks_map (change : Constraint g → Constraint g)
    (hkeep : ∀ c, (change c).achieves = c.achieves)
    (entries : List (P × Constraint g)) :
    SameChecks entries (entries.map fun entry => (entry.1, change entry.2)) := by
  rw [SameChecks, List.forall₂_map_right_iff, List.forall₂_same]
  exact fun entry _ => ⟨rfl, (hkeep entry.2).symm⟩

theorem SameChecks.achieves_all_iff (hsame : SameChecks entries others)
    (op : OperatingPointPtr g) :
    (∀ entry ∈ entries, entry.2.achieves op = true) ↔
      ∀ other ∈ others, other.2.achieves op = true := by
  induction hsame with
  | nil => simp
  | cons hhead htail ih =>
      rw [List.forall_mem_cons, List.forall_mem_cons, hhead.2]
      exact and_congr_right fun _ => ih

theorem passed_stagesOf_of_cleared (hsame : cleared entries = cleared others)
    (source : Set (OperatingPointPtr g)) :
    passed (stagesOf entries) source = passed (stagesOf others) source := by
  ext op
  rw [mem_passed_stagesOf, mem_passed_stagesOf,
    (sameChecks_of_cleared hsame).achieves_all_iff]

theorem relax_stagesOf_of_cleared (hsame : cleared entries = cleared others)
    (source : Set (OperatingPointPtr g)) :
    relax (stagesOf entries) source = relax (stagesOf others) source := by
  apply relax_eq_of_forall₂
  rw [stagesOf, stagesOf, List.forall₂_map_left_iff,
    List.forall₂_map_right_iff]
  refine (forall₂_of_cleared hsame).imp fun entry other hentry => ⟨?_, ?_⟩
  · ext op
    rw [Constraint.stage_accepts, Constraint.stage_accepts,
      Constraint.achieves_eq_of_clear hentry.2]
  · exact Constraint.distance_eq_of_clear hentry.2

theorem views_of_cleared {points : OPStream g}
    (hsame : cleared entries = cleared others)
    (hviews : ∀ other ∈ others,
      other.2.knowledgeView.elems.Perm points) :
    ∀ entry ∈ entries, entry.2.knowledgeView.elems.Perm points := by
  have hforall := forall₂_of_cleared hsame
  induction hforall with
  | nil => simp
  | cons hhead htail ih =>
      rw [List.forall_mem_cons] at hviews ⊢
      rw [Constraint.view_eq_of_clear hhead.2]
      exact ⟨hviews.1, ih (List.cons.inj hsame).2 hviews.2⟩

/-- Handing Operating Points down a chain: every constraint blocks those that
reach it and do not achieve its goal. -/
theorem filtered_filterAdd (input : OPStream g)
    (hchain : Filtered source (stagesOf entries)) :
    Filtered (source ∪ {op | op ∈ input}) (stagesOf
      (OrderedMap.accumulateList (fun _ => true) Constraint.filterAdd
        entries input).1) := by
  induction entries generalizing source input with
  | nil => trivial
  | cons entry rest ih =>
      obtain ⟨hblocked, hrest⟩ := filtered_stagesOf_cons.mp hchain
      refine filtered_stagesOf_cons.mpr ⟨?_, ?_⟩
      · intro op
        rw [Constraint.mem_blockedOps_filterAdd, hblocked]
        exact or_and_right.symm
      · have hreach : {op | op ∈ source ∪ {op | op ∈ input} ∧
            entry.2.achieves op = true} =
            {op | op ∈ source ∧ entry.2.achieves op = true} ∪
              {op | op ∈ input.filter entry.2.achieves} := by
          ext op
          simp only [Set.mem_ofPred_eq, Set.mem_union, List.mem_filter]
          exact or_and_right
        have hnext := ih (input.filter entry.2.achieves) hrest
        rw [← hreach] at hnext
        exact hnext

theorem filterAdd_nil (entries : List (P × Constraint g)) :
    OrderedMap.accumulateList (fun _ => true) Constraint.filterAdd entries [] =
      (entries, []) := by
  induction entries with
  | nil => rfl
  | cons entry rest ih =>
      have hstep : entry.2.filterAdd [] = (entry.2, []) := rfl
      simp only [OrderedMap.accumulateList_cons_true, hstep, ih]

theorem cleared_filterAdd (entries : List (P × Constraint g))
    (input : OPStream g) :
    cleared (OrderedMap.accumulateList (fun _ => true) Constraint.filterAdd
      entries input).1 = cleared entries := by
  induction entries generalizing input with
  | nil => rfl
  | cons entry rest ih =>
      exact congrArg ((entry.1, entry.2.clear) :: ·) (ih _)

/-- What is left of the input achieves every goal of the chain. -/
theorem filterAdd_remainder (entries : List (P × Constraint g))
    (input : OPStream g) :
    (OrderedMap.accumulateList (fun _ => true) Constraint.filterAdd
      entries input).2 =
      input.filter fun op => entries.all fun entry => entry.2.achieves op := by
  induction entries generalizing input with
  | nil => simp [OrderedMap.accumulateList]
  | cons entry rest ih =>
      have hstep : (OrderedMap.accumulateList (fun _ => true)
          Constraint.filterAdd (entry :: rest) input).2 =
          (OrderedMap.accumulateList (fun _ => true) Constraint.filterAdd
            rest (input.filter entry.2.achieves)).2 := rfl
      rw [hstep, ih, List.filter_filter]
      simp [Bool.and_comm]

theorem filterRemove_nil (entries : List (P × Constraint g)) :
    OrderedMap.accumulateList (fun _ => true) Constraint.filterRemove
      entries [] = (entries, []) := by
  induction entries with
  | nil => rfl
  | cons entry rest ih =>
      have hstep : entry.2.filterRemove [] = (entry.2, []) := rfl
      simp only [OrderedMap.accumulateList_cons_true, hstep, ih]

/-- Taking Operating Points away from a chain.  A constraint only sees what
the constraints before it did not find among their own. -/
theorem filtered_filterRemove_of_mem {input : OPStream g}
    {removed : Set (OperatingPointPtr g)} (hnodup : input.Nodup)
    (hinput : ∀ op ∈ source, op ∈ removed ↔ op ∈ input)
    (hchain : Filtered source (stagesOf entries)) :
    Filtered (source \ removed) (stagesOf
      (OrderedMap.accumulateList (fun _ => true) Constraint.filterRemove
        entries input).1) := by
  induction entries generalizing source input with
  | nil => trivial
  | cons entry rest ih =>
      obtain ⟨hblocked, hrest⟩ := filtered_stagesOf_cons.mp hchain
      have hachieves := Constraint.achieves_eq_of_clear
        (Constraint.clear_filterRemove entry.2 input)
      refine filtered_stagesOf_cons.mpr ⟨?_, ?_⟩
      · intro op
        rw [Constraint.mem_blockedOps_filterRemove, hblocked, hachieves,
          Set.mem_sdiff, and_right_comm]
        refine and_congr_left fun _ => and_congr_right fun hop => ?_
        rw [hinput op hop]
      · have hout := entry.2.filterRemove_output hnodup
        have hnodupLeft : (entry.2.filterRemove input).2.Nodup := by
          rw [hout]
          exact hnodup.filter _
        have hleft : ∀ op ∈ {op | op ∈ source ∧ entry.2.achieves op = true},
            op ∈ removed ↔ op ∈ (entry.2.filterRemove input).2 := by
          rintro op ⟨hop, haccepted⟩
          rw [hinput op hop, hout, List.mem_filter, decide_eq_true_eq,
            hblocked, haccepted]
          simp
        have hnext := ih hnodupLeft hleft hrest
        have hreach : {op | op ∈ source \ removed ∧
            (entry.2.filterRemove input).1.achieves op = true} =
            {op | op ∈ source ∧ entry.2.achieves op = true} \ removed := by
          ext op
          rw [hachieves]
          exact and_right_comm
        rw [← hreach] at hnext
        exact hnext

theorem filtered_filterRemove {input : OPStream g} (hnodup : input.Nodup)
    (hchain : Filtered source (stagesOf entries)) :
    Filtered (source \ {op | op ∈ input}) (stagesOf
      (OrderedMap.accumulateList (fun _ => true) Constraint.filterRemove
        entries input).1) :=
  filtered_filterRemove_of_mem hnodup (fun _ _ => Iff.rfl) hchain

theorem cleared_filterRemove (entries : List (P × Constraint g))
    (input : OPStream g) :
    cleared (OrderedMap.accumulateList (fun _ => true)
      Constraint.filterRemove entries input).1 = cleared entries := by
  induction entries generalizing input with
  | nil => rfl
  | cons entry rest ih =>
      have hstep : cleared (OrderedMap.accumulateList (fun _ => true)
          Constraint.filterRemove (entry :: rest) input).1 =
          (entry.1, (entry.2.filterRemove input).1.clear) ::
            cleared (OrderedMap.accumulateList (fun _ => true)
              Constraint.filterRemove rest
              (entry.2.filterRemove input).2).1 := rfl
      rw [hstep, ih, Constraint.clear_filterRemove]
      rfl

/-- What is left of the input is blocked by none of the constraints. -/
theorem filterRemove_remainder (entries : List (P × Constraint g))
    {input : OPStream g} (hnodup : input.Nodup) :
    (OrderedMap.accumulateList (fun _ => true) Constraint.filterRemove
      entries input).2 =
      input.filter fun op =>
        entries.all fun entry => op ∉ entry.2.blockedOps := by
  induction entries generalizing input with
  | nil => simp [OrderedMap.accumulateList]
  | cons entry rest ih =>
      have hstep : (OrderedMap.accumulateList (fun _ => true)
          Constraint.filterRemove (entry :: rest) input).2 =
          (OrderedMap.accumulateList (fun _ => true) Constraint.filterRemove
            rest (entry.2.filterRemove input).2).2 := rfl
      rw [hstep, entry.2.filterRemove_output hnodup, ih (hnodup.filter _),
        List.filter_filter]
      simp [Bool.and_comm]

/-- The constraints have the same priorities and block the same Operating
Points. -/
def SameBlocked (entries others : List (P × Constraint g)) : Prop :=
  List.Forall₂ (fun entry other => entry.1 = other.1 ∧
    ∀ op, op ∈ entry.2.blockedOps ↔ op ∈ other.2.blockedOps) entries others

theorem SameBlocked.refl (entries : List (P × Constraint g)) :
    SameBlocked entries entries :=
  List.forall₂_same.mpr fun _ _ => ⟨rfl, fun _ => Iff.rfl⟩

theorem SameBlocked.trans {another : List (P × Constraint g)}
    (hfirst : SameBlocked entries others)
    (hsecond : SameBlocked others another) : SameBlocked entries another :=
  forall₂_trans (fun hone htwo =>
    ⟨hone.1.trans htwo.1, fun op => (hone.2 op).trans (htwo.2 op)⟩)
    hfirst hsecond

theorem SameBlocked.append {front back : List (P × Constraint g)}
    (hentries : SameBlocked entries others) (hback : SameBlocked front back) :
    SameBlocked (entries ++ front) (others ++ back) :=
  List.rel_append hentries hback

theorem SameBlocked.exists_left (hsame : SameBlocked entries others)
    {other : P × Constraint g} (hother : other ∈ others) :
    ∃ entry ∈ entries, entry.1 = other.1 ∧
      ∀ op, op ∈ entry.2.blockedOps ↔ op ∈ other.2.blockedOps := by
  induction hsame with
  | nil => simp at hother
  | cons hhead htail ih =>
      rcases List.mem_cons.mp hother with rfl | hother
      · exact ⟨_, List.mem_cons_self, hhead⟩
      · obtain ⟨entry, hentry, heq⟩ := ih hother
        exact ⟨entry, List.mem_cons_of_mem _ hentry, heq⟩

/-- What a chain blocks is fixed by its checks and by what enters it, as far
as it is not accepted everywhere. -/
theorem sameBlocked_of_filtered {target : Set (OperatingPointPtr g)}
    (hsame : SameChecks entries others)
    (hentries : Filtered source (stagesOf entries))
    (hothers : Filtered target (stagesOf others))
    (henter : ∀ op, (∃ entry ∈ entries, entry.2.achieves op = false) →
      (op ∈ source ↔ op ∈ target)) : SameBlocked entries others := by
  induction hsame generalizing source target with
  | nil => exact List.Forall₂.nil
  | @cons entry other rest tail hhead htail ih =>
      obtain ⟨hblocked, hrest⟩ := filtered_stagesOf_cons.mp hentries
      obtain ⟨hotherBlocked, htailChain⟩ := filtered_stagesOf_cons.mp hothers
      obtain ⟨hkey, hachieves⟩ := hhead
      refine List.Forall₂.cons ⟨hkey, fun op => ?_⟩
        (ih hrest htailChain fun op hop => ?_)
      · rw [hblocked, hotherBlocked, ← hachieves]
        refine and_congr_left fun hfalse => henter op ?_
        exact ⟨entry, List.mem_cons_self, hfalse⟩
      · obtain ⟨rejecting, hrejecting, hfalse⟩ := hop
        rw [Set.mem_ofPred_eq, Set.mem_ofPred_eq, ← hachieves]
        refine and_congr_left fun _ => henter op ?_
        exact ⟨rejecting, List.mem_cons_of_mem _ hrejecting, hfalse⟩

end Chain

end Margot
