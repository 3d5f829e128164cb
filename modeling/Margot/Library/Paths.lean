/-
Paths of a file system, as their components from the root on, and the recursive
removal of directories.
-/
import Mathlib.Data.List.Infix
import Margot.Library.Text

namespace Margot

abbrev Path := List Text

/-- The component names an entry of a directory. -/
def isProper (component : Text) : Bool :=
  component ≠ [] && component ≠ ".".toList && component ≠ "..".toList

/-- One step of the resolution: an empty component or `.` stays, `..` goes
up. -/
def enter (path : Path) (component : Text) : Path :=
  if component = "..".toList then path.dropLast
  else if isProper component then path ++ [component]
  else path

/-- The path that the components lead to from a directory. -/
def resolve (directory : Path) (components : List Text) : Path :=
  components.foldl enter directory

/-- One of the directories contains the other one, or they are the same. -/
def Nested (a b : Path) : Prop := a <+: b ∨ b <+: a

instance (a b : Path) : Decidable (Nested a b) :=
  inferInstanceAs (Decidable (_ ∨ _))

/-- The path is below the directory. -/
def StrictlyInside (directory path : Path) : Prop :=
  directory <+: path ∧ path ≠ directory

/-- What the files of a file system hold. -/
abbrev Files := Path → Option Text

/-- `remove_all` -/
def removeAll (files : Files) (directory : Path) : Files := fun path =>
  if directory <+: path then none else files path

section Resolution

variable {directory : Path} {components : List Text}

/-- Proper components are appended. -/
theorem resolve_proper (hproper : ∀ c ∈ components, isProper c = true) :
    resolve directory components = directory ++ components := by
  induction components generalizing directory with
  | nil => simp [resolve]
  | cons c rest ih =>
      rw [List.forall_mem_cons] at hproper
      have hup : c ≠ "..".toList := by
        rintro rfl
        exact absurd hproper.1 (by decide)
      have hfirst : enter directory c = directory ++ [c] := by
        rw [enter, if_neg hup, if_pos hproper.1]
      rw [resolve, List.foldl_cons, hfirst]
      exact (ih hproper.2).trans (List.append_cons directory c rest).symm

theorem resolve_append_singleton (c : Text) :
    resolve directory (components ++ [c]) =
      enter (resolve directory components) c := by
  rw [resolve, List.foldl_append]
  rfl

/-- A resolved path is what is left of the directory, followed by some of the
proper components. -/
theorem exists_resolve_eq (directory : Path) (components : List Text) :
    ∃ kept entered, kept <+: directory ∧
      resolve directory components = kept ++ entered ∧
      entered.Sublist (components.filter isProper) := by
  induction components using List.reverseRecOn with
  | nil => exact ⟨directory, [], List.prefix_rfl, by simp [resolve], by simp⟩
  | append_singleton components c ih =>
      obtain ⟨kept, entered, hkept, hresolve, hentered⟩ := ih
      have hmore : entered.Sublist ((components ++ [c]).filter isProper) := by
        rw [List.filter_append]
        exact hentered.trans (List.sublist_append_left _ _)
      rw [resolve_append_singleton, hresolve, enter]
      split_ifs with hup hproper
      · rcases List.eq_nil_or_concat entered with rfl | ⟨before, last, rfl⟩
        · exact ⟨kept.dropLast, [], (List.dropLast_prefix _).trans hkept,
            by simp, by simp⟩
        · rw [List.concat_eq_append] at hmore ⊢
          refine ⟨kept, before, hkept, ?_,
            (List.sublist_append_left _ _).trans hmore⟩
          rw [← List.append_assoc, List.dropLast_concat]
      · refine ⟨kept, entered ++ [c], hkept, by simp, ?_⟩
        rw [List.filter_append, List.filter_singleton, hproper]
        exact hentered.append (List.Sublist.refl _)
      · exact ⟨kept, entered, hkept, rfl, hmore⟩

/-- A path that is still in the directory is entered by some of the proper
components. -/
theorem exists_inside_resolve
    (hinside : directory <+: resolve directory components) :
    ∃ entered, resolve directory components = directory ++ entered ∧
      entered.Sublist (components.filter isProper) := by
  obtain ⟨kept, entered, ⟨left, hleft⟩, hresolve, hentered⟩ :=
    exists_resolve_eq directory components
  obtain ⟨below, hbelow⟩ := hinside
  have hsame : left ++ below = entered := by
    have happend : kept ++ (left ++ below) = kept ++ entered := by
      rw [← List.append_assoc, hleft, hbelow, hresolve]
    exact List.append_cancel_left happend
  exact ⟨below, hbelow.symm,
    (List.sublist_append_right left below).trans (hsame ▸ hentered)⟩

end Resolution

section Removal

theorem Nested.inside {a b path : Path} (ha : a <+: path) (hb : b <+: path) :
    Nested a b := List.prefix_or_prefix_of_prefix ha hb

theorem nested_comm {a b : Path} : Nested a b ↔ Nested b a := Or.comm

theorem nested_append_iff {base left right : Path} :
    Nested (base ++ left) (base ++ right) ↔ Nested left right :=
  or_congr (List.prefix_append_right_inj base)
    (List.prefix_append_right_inj base)

/-- Below two directories of which none contains the other, there are no common
paths. -/
theorem Nested.of_append {a b left right : Path}
    (hnested : Nested (a ++ left) (b ++ right)) : Nested a b := by
  rcases hnested with hprefix | hprefix
  · exact Nested.inside ((List.prefix_append a left).trans hprefix)
      (List.prefix_append b right)
  · exact Nested.inside (List.prefix_append a left)
      ((List.prefix_append b right).trans hprefix)

theorem foldl_removeAll (directories : List Path) (files : Files)
    (path : Path) :
    directories.foldl removeAll files path =
      if ∃ directory ∈ directories, directory <+: path then none
      else files path := by
  induction directories generalizing files with
  | nil => simp
  | cons first rest ih =>
      rw [List.foldl_cons, ih, removeAll]
      by_cases hfirst : first <+: path
      · simp [hfirst]
      · simp [hfirst]

end Removal

end Margot
