/-
Progress of a partial step function towards rest.  A measure that the effective
actions bring down bounds their number, and where one of them can be taken
unless the system rests, it can be brought to rest.
-/
import Mathlib.Data.List.Count
import Margot.Library.Runs

namespace Margot

universe u v

variable {S : Type u} {A : Type v} {step : S → A → Option S}

/-- What an effective action leaves to be done is less than before; the other
permitted actions do not add to it. -/
structure Descends (step : S → A → Option S) (Inv : S → Prop)
    (Permitted : A → Prop) (effective : A → Bool) (measure : S → Nat) :
    Prop where
  kept : ∀ before action after, Inv before → Permitted action →
    step before action = some after → Inv after
  less : ∀ before action after, Inv before → Permitted action →
    effective action = true → step before action = some after →
      measure after < measure before
  le : ∀ before action after, Inv before → Permitted action →
    step before action = some after → measure after ≤ measure before

namespace Descends

variable {Inv : S → Prop} {Permitted : A → Prop} {effective : A → Bool}
  {measure : S → Nat}

theorem run (hdescends : Descends step Inv Permitted effective measure)
    {start reached : S} {actions : List A} (hstart : Inv start)
    (hpermitted : ∀ action ∈ actions, Permitted action)
    (hrun : runFrom step start actions = some reached) :
    Inv reached ∧
      measure reached + actions.countP effective ≤ measure start := by
  induction actions generalizing start with
  | nil =>
      obtain rfl : start = reached := by simpa using hrun
      exact ⟨hstart, le_refl _⟩
  | cons action rest ih =>
      obtain ⟨hfirst, hrest⟩ := List.forall_mem_cons.mp hpermitted
      obtain ⟨next, hstep, hrun⟩ := runFrom_cons_eq_some.mp hrun
      have hnext := hdescends.kept start action next hstart hfirst hstep
      obtain ⟨hreached, hcount⟩ := ih hnext hrest hrun
      refine ⟨hreached, ?_⟩
      cases heffective : effective action with
      | true =>
          have hless :=
            hdescends.less start action next hstart hfirst heffective hstep
          rw [List.countP_cons_of_pos heffective]
          omega
      | false =>
          have hle := hdescends.le start action next hstart hfirst hstep
          rw [List.countP_cons_of_neg (by simp [heffective])]
          omega

/-- By induction on the measure: an effective action is taken as long as the
system does not rest. -/
theorem exists_rest (hdescends : Descends step Inv Permitted effective measure)
    {Rests : S → Prop}
    (hprogress : ∀ state, Inv state → Rests state ∨
      ∃ action next, Permitted action ∧ effective action = true ∧
        step state action = some next)
    {start : S} (hstart : Inv start) :
    ∃ actions reached, (∀ action ∈ actions, Permitted action) ∧
      runFrom step start actions = some reached ∧ Rests reached := by
  induction hsize : measure start using Nat.strong_induction_on
    generalizing start with
  | h size ih =>
      rcases hprogress start hstart with hrests |
        ⟨action, next, hpermitted, heffective, hstep⟩
      · exact ⟨[], start, List.forall_mem_nil _, rfl, hrests⟩
      · have hless := hdescends.less start action next hstart hpermitted
          heffective hstep
        have hnext := hdescends.kept start action next hstart hpermitted hstep
        obtain ⟨actions, reached, hall, hrun, hrests⟩ :=
          ih (measure next) (hsize ▸ hless) hnext rfl
        refine ⟨action :: actions, reached,
          List.forall_mem_cons.mpr ⟨hpermitted, hall⟩, ?_, hrests⟩
        rw [runFrom_cons_of_step hstep]
        exact hrun

end Descends

end Margot
