/-
The loop that keeps the better of two items, by a comparison that may be
undefined and does not have to be transitive.
-/
import Mathlib.Data.List.Perm.Basic
import Mathlib.Data.List.Nodup

namespace Margot

universe u

variable {A : Type u}

/-- The item that is kept of the best one and those after it, of which each one
replaces the best one if it is better. -/
def keep (better : A → A → Option Bool) : A → List A → Option A
  | best, [] => some best
  | best, target :: rest =>
      (better best target).bind fun wins =>
        keep better (if wins then target else best) rest

/-- The item that is kept of all, which begins with the first one. -/
def selected (better : A → A → Option Bool) : List A → Option A
  | [] => none
  | first :: rest => keep better first rest

section Keep

variable {better : A → A → Option Bool} {best kept : A} {items : List A}

theorem keep_append (better : A → A → Option Bool) (best : A)
    (first second : List A) :
    keep better best (first ++ second) =
      (keep better best first).bind fun kept => keep better kept second := by
  induction first generalizing best with
  | nil => rfl
  | cons target rest ih =>
      simp only [List.cons_append, keep, ih, Option.bind_assoc]

theorem mem_of_keep (hkeep : keep better best items = some kept) :
    kept ∈ best :: items := by
  induction items generalizing best with
  | nil =>
      obtain rfl := Option.some.inj hkeep
      exact List.mem_cons_self
  | cons target rest ih =>
      obtain ⟨wins, -, hrest⟩ := Option.bind_eq_some_iff.mp hkeep
      cases wins with
      | false =>
          rcases List.mem_cons.mp (ih hrest) with rfl | hmem
          · exact List.mem_cons_self
          · exact List.mem_cons_of_mem _ (List.mem_cons_of_mem _ hmem)
      | true => exact List.mem_cons_of_mem _ (ih hrest)

/-- An item stays the best one when none of the others is better. -/
theorem keep_eq_self_iff (hnew : best ∉ items) :
    keep better best items = some best ↔
      ∀ target ∈ items, better best target = some false := by
  induction items with
  | nil => simp [keep]
  | cons target rest ih =>
      rw [List.mem_cons, not_or] at hnew
      rw [keep, Option.bind_eq_some_iff, List.forall_mem_cons, ← ih hnew.2]
      constructor
      · rintro ⟨wins, hwins, hkeep⟩
        cases wins with
        | false => exact ⟨hwins, hkeep⟩
        | true =>
            rcases List.mem_cons.mp (mem_of_keep hkeep) with heq | hmem
            · exact absurd heq hnew.1
            · exact absurd hmem hnew.2
      · rintro ⟨hlost, hkeep⟩
        exact ⟨false, hlost, hkeep⟩

/-- An item is selected exactly when it is better than what is kept of the
items before it, and none of those after it is better. -/
theorem selected_eq_some_iff {item : A} {before after : List A}
    (hnodup : (before ++ item :: after).Nodup) :
    selected better (before ++ item :: after) = some item ↔
      (∀ first rest, before = first :: rest →
        ∃ best, keep better first rest = some best ∧
          better best item = some true) ∧
      ∀ target ∈ after, better item target = some false := by
  have hafter : item ∉ after :=
    (List.nodup_cons.mp (List.nodup_append.mp hnodup).2.1).1
  rw [← keep_eq_self_iff hafter]
  cases before with
  | nil =>
      rw [and_iff_right fun first rest hnil => nomatch hnil]
      rfl
  | cons first rest =>
      have hbefore : item ∉ first :: rest := by
        intro hmem
        exact List.disjoint_of_nodup_append hnodup hmem List.mem_cons_self
      rw [List.cons_append, selected, keep_append, Option.bind_eq_some_iff]
      constructor
      · rintro ⟨best, hbest, hkeep⟩
        obtain ⟨wins, hwins, hkeep⟩ := Option.bind_eq_some_iff.mp hkeep
        cases wins with
        | true =>
            refine ⟨?_, hkeep⟩
            rintro other others hsame
            obtain ⟨rfl, rfl⟩ := List.cons.inj hsame
            exact ⟨best, hbest, hwins⟩
        | false =>
            rcases List.mem_cons.mp (mem_of_keep hkeep) with rfl | hmem
            · exact absurd (mem_of_keep hbest) hbefore
            · exact absurd hmem hafter
      · rintro ⟨hfirst, hkeep⟩
        obtain ⟨best, hbest, hwins⟩ := hfirst first rest rfl
        refine ⟨best, hbest, ?_⟩
        rw [keep, hwins]
        exact hkeep

end Keep

section Orders

variable {better : A → A → Option Bool} {items : List A}

/-- Of two different items exactly one is better than the other. -/
def Strict (better : A → A → Option Bool) (items : List A) : Prop :=
  ∀ a ∈ items, ∀ b ∈ items, a ≠ b →
    ∃ wins, better a b = some wins ∧ better b a = some !wins

/-- The item is better than all the others. -/
def Wins (better : A → A → Option Bool) (items : List A) (winner : A) : Prop :=
  ∀ other ∈ items, other ≠ winner → better other winner = some true

/-- Without one of the first two items the others are still different ones. -/
theorem nodup_skip {a b : A} {rest : List A} (hnodup : (a :: b :: rest).Nodup) :
    (a :: rest).Nodup ∧ (b :: rest).Nodup := by
  obtain ⟨hfirst, hrest⟩ := List.nodup_cons.mp hnodup
  rw [List.mem_cons, not_or] at hfirst
  exact ⟨List.nodup_cons.mpr ⟨hfirst.2, (List.nodup_cons.mp hrest).2⟩, hrest⟩

theorem exists_keep (hstrict : Strict better items) {best : A}
    {targets : List A} (hnodup : (best :: targets).Nodup)
    (hmem : ∀ item ∈ best :: targets, item ∈ items) :
    ∃ kept, keep better best targets = some kept := by
  induction targets generalizing best with
  | nil => exact ⟨best, rfl⟩
  | cons target rest ih =>
      have hne : best ≠ target := by
        rintro rfl
        exact (List.nodup_cons.mp hnodup).1 List.mem_cons_self
      obtain ⟨hbest, htargets⟩ := List.forall_mem_cons.mp hmem
      obtain ⟨htarget, hrest⟩ := List.forall_mem_cons.mp htargets
      obtain ⟨wins, hwins, -⟩ := hstrict best hbest target htarget hne
      rw [keep, hwins, Option.bind_some]
      cases wins with
      | false =>
          exact ih (nodup_skip hnodup).1 (List.forall_mem_cons.mpr ⟨hbest, hrest⟩)
      | true => exact ih (nodup_skip hnodup).2 htargets

/-- The item that is better than all the others is kept wherever it is met. -/
theorem keep_winner (hstrict : Strict better items) {winner : A}
    (hwins : Wins better items winner) {best : A} {targets : List A}
    (hnodup : (best :: targets).Nodup)
    (hmem : ∀ item ∈ best :: targets, item ∈ items)
    (hwinner : winner ∈ best :: targets) :
    keep better best targets = some winner := by
  induction targets generalizing best with
  | nil => rw [keep, List.mem_singleton.mp hwinner]
  | cons target rest ih =>
      have hne : best ≠ target := by
        rintro rfl
        exact (List.nodup_cons.mp hnodup).1 List.mem_cons_self
      obtain ⟨hbest, htargets⟩ := List.forall_mem_cons.mp hmem
      obtain ⟨htarget, hrest⟩ := List.forall_mem_cons.mp htargets
      obtain ⟨wins, hfirst, hsecond⟩ :=
        hstrict best hbest target htarget hne
      rw [keep, hfirst, Option.bind_some]
      cases wins with
      | false =>
          apply ih (nodup_skip hnodup).1
            (List.forall_mem_cons.mpr ⟨hbest, hrest⟩)
          rcases List.mem_cons.mp hwinner with rfl | hlater
          · exact List.mem_cons_self
          · rcases List.mem_cons.mp hlater with rfl | hlater
            · have hlost := hwins best hbest hne
              rw [hfirst] at hlost
              contradiction
            · exact List.mem_cons_of_mem _ hlater
      | true =>
          apply ih (nodup_skip hnodup).2 htargets
          rcases List.mem_cons.mp hwinner with rfl | hlater
          · have hlost := hwins target htarget hne.symm
            rw [hsecond] at hlost
            contradiction
          · exact hlater

/-- The order of the items does not matter exactly when one of them is better
than all the others. -/
theorem selected_perm_iff [DecidableEq A] (hnodup : items.Nodup)
    (hstrict : Strict better items) (hsome : items ≠ []) :
    (∀ first second : List A, first.Perm items → second.Perm items →
      selected better first = selected better second) ↔
      ∃ winner ∈ items, Wins better items winner := by
  constructor
  · intro hsame
    obtain ⟨head, rest, hitems⟩ := List.exists_cons_of_ne_nil hsome
    obtain ⟨winner, hkept⟩ := exists_keep hstrict (hitems ▸ hnodup)
      fun item hitem => hitems ▸ hitem
    have hwinner : winner ∈ items := hitems ▸ mem_of_keep hkept
    refine ⟨winner, hwinner, fun other hother hne => ?_⟩
    by_contra hlost
    obtain ⟨wins, hwins, hback⟩ := hstrict other hother winner hwinner hne
    have hbeaten : better winner other = some true := by
      cases wins with
      | true => exact absurd hwins hlost
      | false => exact hback
    -- the winner meets the one that beats it first, and is not met again
    have hperm : (winner :: other :: (items.erase winner).erase other).Perm
        items := by
      have hlater : other ∈ items.erase winner :=
        (List.mem_erase_of_ne hne).mpr hother
      exact (((List.perm_cons_erase hlater).cons winner).symm.trans
        (List.perm_cons_erase hwinner).symm)
    have hselected := hsame _ items hperm (List.Perm.refl items)
    have hwon : selected better items = some winner := by
      rw [hitems]
      exact hkept
    rw [hwon, selected, keep, hbeaten] at hselected
    have hnew := (List.nodup_cons.mp (hperm.nodup_iff.mpr hnodup)).1
    exact hnew (mem_of_keep hselected)
  · rintro ⟨winner, hwinner, hwins⟩
    have horder : ∀ order : List A, order.Perm items →
        selected better order = some winner := by
      intro order hperm
      cases order with
      | nil => exact absurd (List.nil_perm.mp hperm) hsome
      | cons head rest =>
          exact keep_winner hstrict hwins (hperm.nodup_iff.mpr hnodup)
            (fun item hitem => hperm.mem_iff.mp hitem)
            (hperm.mem_iff.mpr hwinner)
    intro first second hfirst hsecond
    rw [horder first hfirst, horder second hsecond]

end Orders

end Margot
