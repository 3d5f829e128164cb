/-
Finite runs of a partial step function.  An action that the step function
leaves undefined ends the run, so a property of "every state reached" speaks
about the defined prefixes only.
-/
import Mathlib.Data.List.Infix

namespace Margot

universe u v w

variable {S : Type u} {A : Type v}

/-- Execute the actions one after the other; `none` as soon as one of them is
undefined. -/
def runFrom (step : S → A → Option S) : S → List A → Option S
  | state, [] => some state
  | state, action :: rest =>
      match step state action with
      | none => none
      | some next => runFrom step next rest

/-- Every state reached by a prefix of the run satisfies `Safe`. -/
def AllReached (step : S → A → Option S) (Safe : S → Prop) (start : S)
    (actions : List A) : Prop :=
  ∀ pre reached, pre <+: actions → runFrom step start pre = some reached →
    Safe reached

/-- Every step taken along the run meets `Meets` in the state it is taken
from. -/
def AllSteps (step : S → A → Option S) (Meets : S → A → Prop) (start : S)
    (actions : List A) : Prop :=
  ∀ pre action before after, pre ++ [action] <+: actions →
    runFrom step start pre = some before → step before action = some after →
    Meets before action

/-- Every action of the run meets `Meets` in the state that it finds, also an
action that is undefined there. -/
def AllAsked (step : S → A → Option S) (Meets : S → A → Prop) (start : S)
    (actions : List A) : Prop :=
  ∀ pre action before, pre ++ [action] <+: actions →
    runFrom step start pre = some before → Meets before action

section Rules

variable {step : S → A → Option S}

@[simp] theorem runFrom_nil (state : S) : runFrom step state [] = some state :=
  rfl

theorem runFrom_cons_of_step {state next : S} {action : A}
    (hstep : step state action = some next) (rest : List A) :
    runFrom step state (action :: rest) = runFrom step next rest := by
  simp [runFrom, hstep]

theorem runFrom_cons_eq_some {state reached : S} {action : A} {rest : List A} :
    runFrom step state (action :: rest) = some reached ↔
      ∃ next, step state action = some next ∧
        runFrom step next rest = some reached := by
  cases hstep : step state action with
  | none => simp [runFrom, hstep]
  | some next => simp [runFrom, hstep]

theorem runFrom_append_eq_some {state reached : S} {first second : List A} :
    runFrom step state (first ++ second) = some reached ↔
      ∃ middle, runFrom step state first = some middle ∧
        runFrom step middle second = some reached := by
  induction first generalizing state with
  | nil => simp
  | cons action rest ih =>
      simp only [List.cons_append, runFrom_cons_eq_some, ih]
      constructor
      · rintro ⟨next, hnext, middle, hmiddle, hreached⟩
        exact ⟨middle, ⟨next, hnext, hmiddle⟩, hreached⟩
      · rintro ⟨middle, ⟨next, hnext, hmiddle⟩, hreached⟩
        exact ⟨next, hnext, middle, hmiddle, hreached⟩

theorem AllReached.start {Safe : S → Prop} {start : S} {actions : List A}
    (hall : AllReached step Safe start actions) : Safe start :=
  hall [] start (List.nil_prefix) rfl

theorem AllReached.tail {Safe : S → Prop} {start next : S} {action : A}
    {rest : List A} (hall : AllReached step Safe start (action :: rest))
    (hstep : step start action = some next) :
    AllReached step Safe next rest := by
  intro pre reached hpre hrun
  apply hall (action :: pre) reached
  · exact (List.prefix_cons_inj action).mpr hpre
  · rw [runFrom_cons_of_step hstep]
    exact hrun

theorem AllSteps.head {Meets : S → A → Prop} {start next : S} {action : A}
    {rest : List A} (hall : AllSteps step Meets start (action :: rest))
    (hstep : step start action = some next) : Meets start action :=
  hall [] action start next (by simp) rfl hstep

theorem AllSteps.tail {Meets : S → A → Prop} {start next : S} {action : A}
    {rest : List A} (hall : AllSteps step Meets start (action :: rest))
    (hstep : step start action = some next) :
    AllSteps step Meets next rest := by
  intro pre other before after hpre hrun hother
  apply hall (action :: pre) other before after _ _ hother
  · exact (List.prefix_cons_inj action).mpr hpre
  · rw [runFrom_cons_of_step hstep]
    exact hrun

@[simp] theorem allSteps_nil {Meets : S → A → Prop} {start : S} :
    AllSteps step Meets start [] := by
  intro pre action before after hpre
  simp at hpre

theorem AllSteps.cons {Meets : S → A → Prop} {start : S} {action : A}
    {rest : List A} (hfirst : Meets start action)
    (hrest : ∀ next, step start action = some next →
      AllSteps step Meets next rest) :
    AllSteps step Meets start (action :: rest) := by
  intro pre other before after hpre hrun hother
  cases pre with
  | nil =>
      obtain ⟨rfl, -⟩ := List.cons_prefix_cons.mp hpre
      obtain rfl : start = before := by simpa using hrun
      exact hfirst
  | cons head pre =>
      obtain ⟨rfl, htail⟩ := List.cons_prefix_cons.mp hpre
      obtain ⟨next, hstep, hnext⟩ := runFrom_cons_eq_some.mp hrun
      exact hrest next hstep pre other before after htail hnext hother

theorem AllSteps.cons_of_step {Meets : S → A → Prop} {start next : S}
    {action : A} {rest : List A} (hstep : step start action = some next)
    (hfirst : Meets start action) (hrest : AllSteps step Meets next rest) :
    AllSteps step Meets start (action :: rest) := by
  apply AllSteps.cons hfirst
  intro other hother
  obtain rfl := Option.some.inj (hstep.symm.trans hother)
  exact hrest

/-- The invariant rule: what holds at the start and is kept by every step that
meets its condition holds in every state reached by such steps. -/
theorem runFrom_invariant {Inv : S → Prop} {Meets : S → A → Prop}
    (hkeep : ∀ before action after, Inv before → Meets before action →
      step before action = some after → Inv after)
    {start reached : S} {actions : List A} (hstart : Inv start)
    (hmeets : AllSteps step Meets start actions)
    (hrun : runFrom step start actions = some reached) : Inv reached := by
  induction actions generalizing start with
  | nil =>
      obtain rfl : start = reached := by simpa using hrun
      exact hstart
  | cons action rest ih =>
      obtain ⟨next, hstep, hrest⟩ := runFrom_cons_eq_some.mp hrun
      exact ih (hkeep start action next hstart (hmeets.head hstep) hstep)
        (hmeets.tail hstep) hrest

/-- What every step keeps holds in every state reached. -/
theorem runFrom_kept (Inv : S → Prop)
    (hkeep : ∀ before action after, Inv before →
      step before action = some after → Inv after)
    {start reached : S} {actions : List A} (hstart : Inv start)
    (hrun : runFrom step start actions = some reached) : Inv reached := by
  have hmeets : AllSteps step (fun _ _ => True) start actions :=
    fun _ _ _ _ _ _ _ => trivial
  exact runFrom_invariant (fun before action after hbefore _ =>
    hkeep before action after hbefore) hstart hmeets hrun

/-- The simulation rule: when a view of the states commutes with every step, it
commutes with every run. -/
theorem runFrom_map {T : Type w} {stepView : T → A → Option T} {view : S → T}
    (Inv : S → Prop)
    (hkeep : ∀ before action after, Inv before →
      step before action = some after → Inv after)
    (hview : ∀ before action, Inv before →
      (step before action).map view = stepView (view before) action)
    {start : S} (actions : List A) (hstart : Inv start) :
    (runFrom step start actions).map view =
      runFrom stepView (view start) actions := by
  induction actions generalizing start with
  | nil => rfl
  | cons action rest ih =>
      have hfirst := hview start action hstart
      cases hstep : step start action with
      | none =>
          rw [hstep, Option.map_none] at hfirst
          simp [runFrom, hstep, ← hfirst]
      | some next =>
          rw [hstep, Option.map_some] at hfirst
          rw [runFrom_cons_of_step hstep, runFrom_cons_of_step hfirst.symm]
          exact ih (hkeep start action next hstart hstep)

theorem AllSteps.restrict {Meets : S → A → Prop} {start : S}
    {pre actions : List A} (hall : AllSteps step Meets start actions)
    (hpre : pre <+: actions) : AllSteps step Meets start pre :=
  fun _ _ _ _ hfirst => hall _ _ _ _ (hfirst.trans hpre)

theorem allReached_of_allSteps {Inv Safe : S → Prop} {Meets : S → A → Prop}
    (hkeep : ∀ before action after, Inv before → Meets before action →
      step before action = some after → Inv after)
    (hsafe : ∀ state, Inv state → Safe state)
    {start : S} {actions : List A} (hstart : Inv start)
    (hmeets : AllSteps step Meets start actions) :
    AllReached step Safe start actions := by
  intro pre reached hpre hrun
  exact hsafe reached
    (runFrom_invariant hkeep hstart (hmeets.restrict hpre) hrun)

/-- When the condition is also necessary for one step to stay safe, a run is
safe in every state it reaches exactly when every one of its steps meets the
condition. -/
theorem allReached_iff_allSteps (Inv : S → Prop) {Safe : S → Prop}
    {Meets : S → A → Prop}
    (hkeep : ∀ before action after, Inv before → Meets before action →
      step before action = some after → Inv after)
    (hsafe : ∀ state, Inv state → Safe state)
    (hneed : ∀ before action after, Inv before →
      step before action = some after → Safe after → Meets before action)
    {start : S} {actions : List A} (hstart : Inv start) :
    AllReached step Safe start actions ↔
      AllSteps step Meets start actions := by
  refine ⟨?_, allReached_of_allSteps hkeep hsafe hstart⟩
  induction actions generalizing start with
  | nil =>
      intro _ pre action before after hpre
      simp at hpre
  | cons action rest ih =>
      intro hall pre other before after hpre hrun hother
      cases pre with
      | nil =>
          have hsame : other = action := by
            simpa using (List.cons_prefix_cons.mp hpre).1
          have hbefore : start = before := by simpa using hrun
          subst hsame hbefore
          exact hneed start other after hstart hother
            (hall.tail hother).start
      | cons first pre =>
          obtain ⟨hfirst, hrest⟩ := List.cons_prefix_cons.mp hpre
          subst hfirst
          obtain ⟨next, hstep, hnext⟩ := runFrom_cons_eq_some.mp hrun
          have hmeets : Meets start first :=
            hneed start first next hstart hstep (hall.tail hstep).start
          exact ih (hkeep start first next hstart hmeets hstep)
            (hall.tail hstep) pre other before after hrest hnext hother

theorem allAsked_nil {Meets : S → A → Prop} {start : S} :
    AllAsked step Meets start [] := by
  intro pre action before hpre
  simp at hpre

theorem allAsked_cons {Meets : S → A → Prop} {start : S} {action : A}
    {rest : List A} :
    AllAsked step Meets start (action :: rest) ↔ Meets start action ∧
      ∀ next, step start action = some next →
        AllAsked step Meets next rest := by
  constructor
  · intro hall
    refine ⟨hall [] action start (by simp) rfl, ?_⟩
    intro next hstep pre other before hpre hrun
    apply hall (action :: pre) other before
    · exact (List.prefix_cons_inj action).mpr hpre
    · rw [runFrom_cons_of_step hstep]
      exact hrun
  · rintro ⟨hfirst, hrest⟩ pre other before hpre hrun
    cases pre with
    | nil =>
        obtain ⟨rfl, -⟩ := List.cons_prefix_cons.mp hpre
        obtain rfl : start = before := by simpa using hrun
        exact hfirst
    | cons head pre =>
        obtain ⟨rfl, htail⟩ := List.cons_prefix_cons.mp hpre
        obtain ⟨next, hstep, hnext⟩ := runFrom_cons_eq_some.mp hrun
        exact hrest next hstep pre other before htail hnext

/-- Conditions that are the same under an invariant, which the actions that
meet them keep, are met along the same runs. -/
theorem allAsked_congr (Inv : S → Prop) {First Second : S → A → Prop}
    (hkeep : ∀ before action after, Inv before → First before action →
      step before action = some after → Inv after)
    (hiff : ∀ before action, Inv before →
      (First before action ↔ Second before action))
    {start : S} {actions : List A} (hstart : Inv start) :
    AllAsked step First start actions ↔ AllAsked step Second start actions := by
  induction actions generalizing start with
  | nil => exact iff_of_true allAsked_nil allAsked_nil
  | cons action rest ih =>
      rw [allAsked_cons, allAsked_cons, ← hiff start action hstart]
      apply and_congr_right
      intro hfirst
      apply forall₂_congr
      intro next hstep
      exact ih (hkeep start action next hstart hfirst hstep)

end Rules

end Margot
