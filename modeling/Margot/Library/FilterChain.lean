/-
A chain of filters.  Every stage of the chain holds back the elements it does
not accept and hands the others to the next stage.  When nothing reaches the
end of the chain the requirements are relaxed lexicographically: a stage that
accepts nothing of what is left keeps the elements at the smallest distance.
-/
import Mathlib.Data.Set.Finite.Basic
import Mathlib.Data.Set.Finite.Lemmas
import Mathlib.Order.CompletePartialOrder

namespace Margot

universe u v

structure Stage (A : Type u) (D : Type v) where
  accepts : A → Prop
  distance : A → D
  held : Set A

variable {A : Type u} {D : Type v}

/-- The elements accepted by every stage. -/
def passed (chain : List (Stage A D)) (source : Set A) : Set A :=
  {a | a ∈ source ∧ ∀ stage ∈ chain, stage.accepts a}

/-- Every stage holds exactly the elements that reach it and that it does not
accept. -/
def Filtered : Set A → List (Stage A D) → Prop
  | _, [] => True
  | source, stage :: rest =>
      stage.held = {a | a ∈ source ∧ ¬ stage.accepts a} ∧
        Filtered {a | a ∈ source ∧ stage.accepts a} rest

/-- What a relaxed stage leaves of a set of candidates. -/
def Stage.keep [LE D] (stage : Stage A D) (source : Set A) : Set A :=
  {a | a ∈ source ∧ (stage.accepts a ∨
    (∀ b ∈ source, ¬ stage.accepts b) ∧
      ∀ b ∈ source, stage.distance a ≤ stage.distance b)}

/-- The candidates left by all the stages, one after the other. -/
def relax [LE D] : List (Stage A D) → Set A → Set A
  | [], source => source
  | stage :: rest, source => relax rest (stage.keep source)

section Passed

variable {chain first second : List (Stage A D)} {source : Set A}

@[simp] theorem passed_nil (source : Set A) :
    passed ([] : List (Stage A D)) source = source := by
  simp [passed]

theorem mem_passed {a : A} :
    a ∈ passed chain source ↔
      a ∈ source ∧ ∀ stage ∈ chain, stage.accepts a :=
  Iff.rfl

theorem passed_cons (stage : Stage A D) (chain : List (Stage A D))
    (source : Set A) :
    passed (stage :: chain) source =
      passed chain {a | a ∈ source ∧ stage.accepts a} := by
  ext a
  simp [passed, and_assoc]

theorem passed_append (first second : List (Stage A D)) (source : Set A) :
    passed (first ++ second) source = passed second (passed first source) := by
  induction first generalizing source with
  | nil => simp
  | cons stage rest ih => rw [List.cons_append, passed_cons, passed_cons, ih]

theorem filtered_append :
    Filtered source (first ++ second) ↔
      Filtered source first ∧ Filtered (passed first source) second := by
  induction first generalizing source with
  | nil => simp [Filtered]
  | cons stage rest ih =>
      simp only [List.cons_append, Filtered, ih, passed_cons, and_assoc]

theorem Filtered.held_eq {before after : List (Stage A D)}
    {stage : Stage A D} (hchain : Filtered source (before ++ stage :: after)) :
    stage.held = {a | a ∈ passed before source ∧ ¬ stage.accepts a} :=
  (filtered_append.mp hchain).2.1

theorem Filtered.mem_held {before after : List (Stage A D)}
    {stage : Stage A D} (hchain : Filtered source (before ++ stage :: after))
    {a : A} :
    a ∈ stage.held ↔ a ∈ source ∧ (∀ earlier ∈ before, earlier.accepts a) ∧
      ¬ stage.accepts a := by
  rw [hchain.held_eq]
  exact and_assoc

/-- A chain filters as soon as every stage holds what it should. -/
theorem filtered_of_forall (source : Set A) (before : List (Stage A D))
    {chain : List (Stage A D)}
    (hheld : ∀ first stage after, chain = first ++ stage :: after →
      stage.held = {a | a ∈ passed (before ++ first) source ∧
        ¬ stage.accepts a}) :
    Filtered (passed before source) chain := by
  induction chain generalizing before with
  | nil => trivial
  | cons stage rest ih =>
      refine ⟨?_, ?_⟩
      · simpa using hheld [] stage rest rfl
      · have hnext : {a | a ∈ passed before source ∧ stage.accepts a} =
            passed (before ++ [stage]) source := by
          rw [passed_append, passed_cons, passed_nil]
        rw [hnext]
        apply ih
        intro first found after hsplit
        have hfound := hheld (stage :: first) found after
          (congrArg (stage :: ·) hsplit)
        rwa [List.append_cons] at hfound

theorem filtered_iff_of_forall₂ {first second : List (Stage A D)}
    (hsame : List.Forall₂ (fun one other => one.accepts = other.accepts ∧
      one.held = other.held) first second) (source : Set A) :
    Filtered source first ↔ Filtered source second := by
  induction hsame generalizing source with
  | nil => exact Iff.rfl
  | cons hhead htail ih =>
      obtain ⟨haccepts, hheld⟩ := hhead
      simp only [Filtered, haccepts, hheld, ih]

/-- An element that is not accepted by some stage is held by a unique first
one. -/
theorem exists_first_rejection {a : A} (hsource : a ∈ source)
    (hnot : a ∉ passed chain source) :
    ∃ before stage after, chain = before ++ stage :: after ∧
      (∀ earlier ∈ before, earlier.accepts a) ∧ ¬ stage.accepts a := by
  induction chain generalizing source with
  | nil => simp [hsource] at hnot
  | cons stage rest ih =>
      by_cases haccepts : stage.accepts a
      · rw [passed_cons] at hnot
        have hreach : a ∈ {b | b ∈ source ∧ stage.accepts b} :=
          ⟨hsource, haccepts⟩
        obtain ⟨before, found, after, rfl, hbefore, hfound⟩ := ih hreach hnot
        refine ⟨stage :: before, found, after, rfl, ?_, hfound⟩
        intro earlier hearlier
        rcases List.mem_cons.mp hearlier with rfl | hearlier
        · exact haccepts
        · exact hbefore earlier hearlier
      · exact ⟨[], stage, rest, rfl, by simp, haccepts⟩

/-- The chain that is left when nothing is held twice or lost. -/
theorem Filtered.held_not_passed (hchain : Filtered source chain)
    {stage : Stage A D} (hstage : stage ∈ chain) {a : A}
    (ha : a ∈ stage.held) : a ∈ source ∧ a ∉ passed chain source := by
  obtain ⟨before, after, rfl⟩ := List.append_of_mem hstage
  obtain ⟨hsource, -, hrejected⟩ := hchain.mem_held.mp ha
  exact ⟨hsource, fun hpassed => hrejected (hpassed.2 stage hstage)⟩

/-- What passes is what no stage holds. -/
theorem Filtered.mem_passed_iff (hchain : Filtered source chain) {a : A}
    (hsource : a ∈ source) :
    a ∈ passed chain source ↔ ∀ stage ∈ chain, a ∉ stage.held := by
  constructor
  · intro hpassed stage hstage hheld
    exact (hchain.held_not_passed hstage hheld).2 hpassed
  · intro hnone
    by_contra hnot
    obtain ⟨before, stage, after, rfl, hbefore, hrejected⟩ :=
      exists_first_rejection hsource hnot
    exact hnone stage (by simp)
      (hchain.mem_held.mpr ⟨hsource, hbefore, hrejected⟩)

end Passed

section Relax

variable [LE D] {chain first second : List (Stage A D)} {source : Set A}
  {stage : Stage A D}

theorem Stage.keep_subset (stage : Stage A D) (source : Set A) :
    stage.keep source ⊆ source :=
  fun _ ha => ha.1

theorem Stage.keep_eq_of_exists (hexists : ∃ a ∈ source, stage.accepts a) :
    stage.keep source = {a | a ∈ source ∧ stage.accepts a} := by
  obtain ⟨witness, hwitness, haccepts⟩ := hexists
  ext a
  constructor
  · rintro ⟨ha, haccepted | ⟨hnone, -⟩⟩
    · exact ⟨ha, haccepted⟩
    · exact absurd haccepts (hnone witness hwitness)
  · rintro ⟨ha, haccepted⟩
    exact ⟨ha, Or.inl haccepted⟩

theorem Stage.keep_eq_self (hall : ∀ a ∈ source, stage.accepts a) :
    stage.keep source = source := by
  ext a
  exact ⟨fun ha => ha.1, fun ha => ⟨ha, Or.inl (hall a ha)⟩⟩

theorem Stage.keep_eq_closest (hnone : ∀ a ∈ source, ¬ stage.accepts a) :
    stage.keep source =
      {a | a ∈ source ∧ ∀ b ∈ source, stage.distance a ≤ stage.distance b} := by
  ext a
  constructor
  · rintro ⟨ha, haccepted | ⟨-, hclosest⟩⟩
    · exact absurd haccepted (hnone a ha)
    · exact ⟨ha, hclosest⟩
  · rintro ⟨ha, hclosest⟩
    exact ⟨ha, Or.inr ⟨hnone, hclosest⟩⟩

@[simp] theorem relax_nil (source : Set A) :
    relax ([] : List (Stage A D)) source = source :=
  rfl

@[simp] theorem relax_cons (stage : Stage A D) (chain : List (Stage A D))
    (source : Set A) :
    relax (stage :: chain) source = relax chain (stage.keep source) :=
  rfl

/-- What a chain leaves does not depend on what its stages hold. -/
theorem relax_eq_of_forall₂ {first second : List (Stage A D)}
    (hsame : List.Forall₂ (fun one other => one.accepts = other.accepts ∧
      one.distance = other.distance) first second) (source : Set A) :
    relax first source = relax second source := by
  induction hsame generalizing source with
  | nil => rfl
  | cons hhead htail ih =>
      obtain ⟨haccepts, hdistance⟩ := hhead
      rw [relax_cons, relax_cons, ih]
      simp only [Stage.keep, haccepts, hdistance]

theorem relax_append (first second : List (Stage A D)) (source : Set A) :
    relax (first ++ second) source = relax second (relax first source) := by
  induction first generalizing source with
  | nil => rfl
  | cons stage rest ih => exact ih (stage.keep source)

theorem relax_subset (chain : List (Stage A D)) (source : Set A) :
    relax chain source ⊆ source := by
  induction chain generalizing source with
  | nil => exact subset_rfl
  | cons stage rest ih =>
      exact (ih (stage.keep source)).trans (stage.keep_subset source)

/-- As long as something passes the whole chain, relaxing is filtering. -/
theorem relax_eq_passed (hpassed : (passed chain source).Nonempty) :
    relax chain source = passed chain source := by
  induction chain generalizing source with
  | nil => simp
  | cons stage rest ih =>
      have hexists : ∃ a ∈ source, stage.accepts a := by
        obtain ⟨a, ha, hall⟩ := hpassed
        exact ⟨a, ha, hall stage List.mem_cons_self⟩
      rw [passed_cons] at hpassed ⊢
      rw [relax_cons, Stage.keep_eq_of_exists hexists]
      exact ih hpassed

end Relax

section LinearDistance

variable [LinearOrder D] {chain : List (Stage A D)} {source : Set A}
  {stage : Stage A D}

theorem Stage.keep_of_subsingleton (stage : Stage A D)
    (hsource : source.Subsingleton) : stage.keep source = source := by
  refine Set.Subset.antisymm (stage.keep_subset source) ?_
  intro a ha
  by_cases haccepts : stage.accepts a
  · exact ⟨ha, Or.inl haccepts⟩
  · refine ⟨ha, Or.inr ⟨?_, ?_⟩⟩
    · intro b hb
      rwa [hsource hb ha]
    · intro b hb
      rw [hsource hb ha]

theorem relax_of_subsingleton (chain : List (Stage A D))
    (hsource : source.Subsingleton) : relax chain source = source := by
  induction chain with
  | nil => rfl
  | cons stage rest ih => rw [relax_cons, stage.keep_of_subsingleton hsource, ih]

theorem Stage.keep_nonempty (stage : Stage A D) (hfinite : source.Finite)
    (hsource : source.Nonempty) : (stage.keep source).Nonempty := by
  by_cases hexists : ∃ a ∈ source, stage.accepts a
  · obtain ⟨a, ha, haccepts⟩ := hexists
    exact ⟨a, ha, Or.inl haccepts⟩
  · have hnone : ∀ a ∈ source, ¬ stage.accepts a :=
      fun a ha haccepts => hexists ⟨a, ha, haccepts⟩
    obtain ⟨a, ha, hmin⟩ :=
      Set.exists_min_image source stage.distance hfinite hsource
    exact ⟨a, ha, Or.inr ⟨hnone, hmin⟩⟩

end LinearDistance

end Margot
