/-
Computations that throw: the value, or what the exception says.
-/
import Mathlib.Data.List.Forall2
import Margot.Library.Text

namespace Margot

universe u v

/-- A value, or the text of a `std::runtime_error`. -/
abbrev Checked (α : Type u) := Except Text α

/-- Go on if the condition holds. -/
def require (condition : Bool) (message : Text) : Checked Unit :=
  if condition then .ok () else .error message

theorem require_eq_ok {condition : Bool} {message : Text} {u : Unit} :
    require condition message = .ok u ↔ condition = true := by
  cases condition <;> simp [require]

section Rules

variable {ε : Type} {α : Type u} {β : Type v}

theorem bind_eq_ok {γ : Type u} {x : Except ε α} {f : α → Except ε γ} {c : γ} :
    (x >>= f) = .ok c ↔ ∃ a, x = .ok a ∧ f a = .ok c := by
  cases x with
  | error e => simp [bind, Except.bind]
  | ok a => simp [bind, Except.bind]

/-- An exception comes from the first computation or from the second one. -/
theorem bind_eq_error {γ : Type u} {x : Except ε α} {f : α → Except ε γ}
    {e : ε} :
    (x >>= f) = .error e ↔ x = .error e ∨ ∃ a, x = .ok a ∧ f a = .error e := by
  cases x with
  | error e => simp [bind, Except.bind]
  | ok a => simp [bind, Except.bind]

theorem pure_eq_ok {a b : α} : (pure a : Except ε α) = .ok b ↔ a = b :=
  Except.ok.injEq a b ▸ Iff.rfl

section Return

variable {γ : Type u} {x : Except ε α} {result : α → γ}

theorem bind_pure_eq_ok {b : γ} :
    (x >>= fun a => pure (result a)) = .ok b ↔
      ∃ a, x = .ok a ∧ result a = b := by
  simp only [bind_eq_ok, pure_eq_ok]

/-- What is returned does not throw. -/
theorem bind_pure_eq_error {e : ε} :
    (x >>= fun a => pure (result a)) = .error e ↔ x = .error e := by
  rw [bind_eq_error]
  refine or_iff_left ?_
  rintro ⟨a, -, hreturn⟩
  cases hreturn

end Return

/-- A list is mapped when all its elements are. -/
theorem mapM_eq_ok {γ : Type u} {f : β → Except ε γ} {elements : List β}
    {results : List γ} :
    elements.mapM f = .ok results ↔
      List.Forall₂ (fun element result => f element = .ok result)
        elements results := by
  induction elements generalizing results with
  | nil =>
      rw [List.mapM_nil, pure_eq_ok]
      constructor
      · rintro rfl
        exact .nil
      · rintro (_ | _)
        rfl
  | cons element rest ih =>
      rw [List.mapM_cons, bind_eq_ok]
      constructor
      · rintro ⟨result, hfirst, hrest⟩
        obtain ⟨others, hothers, hpure⟩ := bind_eq_ok.mp hrest
        obtain rfl := pure_eq_ok.mp hpure
        exact .cons hfirst (ih.mp hothers)
      · rintro (_ | ⟨hfirst, hrest⟩)
        exact ⟨_, hfirst, bind_eq_ok.mpr ⟨_, ih.mpr hrest, rfl⟩⟩

/-- A list is mapped to what each of its elements is mapped to. -/
theorem mapM_ok {γ : Type u} {f : β → Except ε γ} {read : β → γ}
    {elements : List β}
    (hread : ∀ element ∈ elements, f element = .ok (read element)) :
    elements.mapM f = .ok (elements.map read) := by
  rw [mapM_eq_ok, List.forall₂_map_right_iff]
  exact List.forall₂_same.mpr hread

/-- What is composed from each element is read back from each element. -/
theorem mapM_map_ok {γ : Type u} {δ : Type*} {f : β → Except ε γ}
    {compose : δ → β} {read : δ → γ} {elements : List δ}
    (hread : ∀ element ∈ elements,
      f (compose element) = .ok (read element)) :
    (elements.map compose).mapM f = .ok (elements.map read) := by
  rw [mapM_eq_ok, List.forall₂_map_left_iff, List.forall₂_map_right_iff]
  exact List.forall₂_same.mpr hread

theorem exists_of_mem_mapM {γ : Type u} {f : β → Except ε γ}
    {elements : List β} {results : List γ} {result : γ}
    (hmapped : elements.mapM f = .ok results) (hmem : result ∈ results) :
    ∃ element ∈ elements, f element = .ok result := by
  have hall := mapM_eq_ok.mp hmapped
  clear hmapped
  induction hall with
  | nil => simp at hmem
  | cons hfirst _ ih =>
      rcases List.mem_cons.mp hmem with rfl | hrest
      · exact ⟨_, List.mem_cons_self, hfirst⟩
      · obtain ⟨element, helement, hresult⟩ := ih hrest
        exact ⟨element, List.mem_cons_of_mem _ helement, hresult⟩

/-- A list can be mapped exactly when each of its elements can. -/
theorem exists_mapM {γ : Type u} {f : β → Except ε γ} {elements : List β} :
    (∃ results, elements.mapM f = .ok results) ↔
      ∀ element ∈ elements, ∃ result, f element = .ok result := by
  simp only [mapM_eq_ok]
  induction elements with
  | nil => exact iff_of_true ⟨[], .nil⟩ (List.forall_mem_nil _)
  | cons element rest ih =>
      rw [List.forall_mem_cons, ← ih]
      constructor
      · rintro ⟨-, _ | ⟨hfirst, hrest⟩⟩
        exact ⟨⟨_, hfirst⟩, _, hrest⟩
      · rintro ⟨⟨result, hfirst⟩, results, hrest⟩
        exact ⟨result :: results, .cons hfirst hrest⟩

/-- What every result shows of its element, all results show of all elements. -/
theorem map_of_mapM {γ : Type u} {δ : Type*} {f : β → Except ε γ}
    {elements : List β} {results : List γ} {g : γ → δ} {h : β → δ}
    (hmapped : elements.mapM f = .ok results)
    (hshows : ∀ element result, f element = .ok result → g result = h element) :
    results.map g = elements.map h := by
  have hall := mapM_eq_ok.mp hmapped
  clear hmapped
  induction hall with
  | nil => rfl
  | cons hfirst _ ih =>
      rw [List.map_cons, List.map_cons, hshows _ _ hfirst, ih]

/-- A list of values is there when each of them is. -/
theorem mapM_eq_some {γ : Type u} {f : β → Option γ} {elements : List β}
    {results : List γ} :
    elements.mapM f = some results ↔ elements.map f = results.map some := by
  induction elements generalizing results with
  | nil => cases results <;> simp
  | cons element rest ih =>
      rw [List.mapM_cons]
      simp only [Option.bind_eq_bind, Option.bind_eq_some_iff, Option.pure_def,
        Option.some.injEq]
      constructor
      · rintro ⟨result, hfirst, others, hrest, rfl⟩
        rw [List.map_cons, List.map_cons, hfirst, ih.mp hrest]
      · intro hmapped
        cases results with
        | nil => contradiction
        | cons result others =>
            obtain ⟨hfirst, hrest⟩ := List.cons.inj hmapped
            exact ⟨result, hfirst, others, ih.mpr hrest, rfl⟩

theorem exists_map_some {γ : Type u} {f : β → Option γ} {elements : List β} :
    (∃ results : List γ, elements.map f = results.map some) ↔
      ∀ element ∈ elements, (f element).isSome = true := by
  induction elements with
  | nil => exact iff_of_true ⟨[], rfl⟩ (List.forall_mem_nil _)
  | cons element rest ih =>
      rw [List.forall_mem_cons, ← ih, Option.isSome_iff_exists]
      constructor
      · rintro ⟨results, hmapped⟩
        cases results with
        | nil => contradiction
        | cons result others =>
            obtain ⟨hfirst, hrest⟩ := List.cons.inj hmapped
            exact ⟨⟨result, hfirst⟩, others, hrest⟩
      · rintro ⟨⟨result, hfirst⟩, others, hrest⟩
        exact ⟨result :: others, by
          rw [List.map_cons, List.map_cons, hfirst, hrest]⟩

end Rules

section Partners

/-- What every pair of two lists shows, every result of zipping shows. -/
theorem forall_mem_zipWith {α β γ : Type} {f : α → β → γ} {R : α → β → Prop}
    {P : γ → Prop} {as : List α} {bs : List β} (hall : List.Forall₂ R as bs)
    (hshows : ∀ a b, R a b → P (f a b)) : ∀ c ∈ List.zipWith f as bs, P c := by
  induction hall with
  | nil => exact List.forall_mem_nil P
  | cons hfirst _ ih => exact List.forall_mem_cons.mpr ⟨hshows _ _ hfirst, ih⟩

/-- Every element of the first list has a partner in the second one. -/
theorem exists_of_forall₂ {α β : Type} {R : α → β → Prop} {as : List α}
    {bs : List β} (hall : List.Forall₂ R as bs) {a : α} (hmem : a ∈ as) :
    ∃ b ∈ bs, R a b := by
  induction hall with
  | nil => contradiction
  | cons hfirst _ ih =>
      rcases List.mem_cons.mp hmem with rfl | hrest
      · exact ⟨_, List.mem_cons_self, hfirst⟩
      · obtain ⟨b, hb, hpair⟩ := ih hrest
        exact ⟨b, List.mem_cons_of_mem _ hb, hpair⟩

/-- What is the same for partners is the same for all. -/
theorem forall_mem_iff_of_forall₂ {α β : Type} {R : α → β → Prop} {P : α → Prop}
    {Q : β → Prop} {as : List α} {bs : List β} (hall : List.Forall₂ R as bs)
    (hsame : ∀ a b, R a b → (Q b ↔ P a)) :
    (∀ b ∈ bs, Q b) ↔ ∀ a ∈ as, P a := by
  induction hall with
  | nil => exact iff_of_true (List.forall_mem_nil Q) (List.forall_mem_nil P)
  | cons hfirst _ ih =>
      rw [List.forall_mem_cons, List.forall_mem_cons, hsame _ _ hfirst, ih]

end Partners

end Margot
