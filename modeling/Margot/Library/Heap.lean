/-
Heaps as total maps from addresses to contents.  Writing back a group of
objects is one `overwrite`; what is read at an address afterwards is what was
written to it, provided that all the writes to that address agree.  They do
when the slots that hold the addresses are separate: no address is in two of
them.
-/
import Mathlib.Data.List.Basic
import Mathlib.Logic.Function.Basic

namespace Margot

universe u v w

variable {K : Type u} {V : Type v} [DecidableEq K]

/-- Write the values to their addresses, one after the other. -/
def overwrite (content : K → V) (writes : List (K × V)) : K → V :=
  writes.foldl (fun content write =>
    Function.update content write.1 write.2) content

theorem overwrite_of_not_mem {content : K → V} {writes : List (K × V)}
    {address : K} (hnot : ∀ write ∈ writes, write.1 ≠ address) :
    overwrite content writes address = content address := by
  induction writes generalizing content with
  | nil => rfl
  | cons write rest ih =>
      obtain ⟨hwrite, hrest⟩ := List.forall_mem_cons.mp hnot
      exact (ih hrest).trans (Function.update_of_ne hwrite.symm _ _)

theorem overwrite_of_agree {content : K → V} {writes : List (K × V)}
    {address : K} {value : V}
    (hagree : ∀ write ∈ writes, write.1 = address → write.2 = value)
    (hwritten : ∃ write ∈ writes, write.1 = address) :
    overwrite content writes address = value := by
  induction writes generalizing content with
  | nil =>
      obtain ⟨write, hwrite, -⟩ := hwritten
      contradiction
  | cons write rest ih =>
      obtain ⟨hwrite, hrest⟩ := List.forall_mem_cons.mp hagree
      by_cases hlater : ∃ later ∈ rest, later.1 = address
      · exact ih hrest hlater
      · have hsame : write.1 = address := by
          obtain ⟨found, hfound, haddress⟩ := hwritten
          rcases List.mem_cons.mp hfound with rfl | htail
          · exact haddress
          · exact absurd ⟨found, htail, haddress⟩ hlater
        have hlast : overwrite content (write :: rest) address =
            Function.update content write.1 write.2 address :=
          overwrite_of_not_mem fun later hlaterMem heq =>
            hlater ⟨later, hlaterMem, heq⟩
        rw [hlast, ← hsame, Function.update_self]
        exact hwrite hsame

/-- The addresses that the slots hold are allocated, each in one slot only. -/
structure Separate {J : Type w} (slots : J → Option Nat) (next : Nat) :
    Prop where
  allocated : ∀ {slot address}, slots slot = some address → address < next
  injective : ∀ {slot other address}, slots slot = some address →
    slots other = some address → slot = other

namespace Separate

variable {J : Type w} {slots after : J → Option Nat} {next : Nat}

theorem of_sub (hseparate : Separate slots next)
    (hsub : ∀ {slot address}, after slot = some address →
      slots slot = some address) : Separate after next where
  allocated := fun hslot => hseparate.allocated (hsub hslot)
  injective := fun hslot hother =>
    hseparate.injective (hsub hslot) (hsub hother)

/-- One slot may take the next free address. -/
theorem of_fresh (hseparate : Separate slots next) (Created : J → Prop)
    (hone : ∀ {slot other}, Created slot → Created other → slot = other)
    (hfresh : ∀ {slot address}, after slot = some address →
      slots slot = some address ∨ Created slot ∧ address = next) :
    Separate after (next + 1) where
  allocated := fun hslot => by
    rcases hfresh hslot with hold | ⟨-, rfl⟩
    · exact Nat.lt_succ_of_lt (hseparate.allocated hold)
    · exact Nat.lt_succ_self _
  injective := fun hslot hother => by
    rcases hfresh hslot with hold | ⟨hcreated, hnext⟩
    · rcases hfresh hother with hotherOld | ⟨-, rfl⟩
      · exact hseparate.injective hold hotherOld
      · exact absurd (hseparate.allocated hold) (Nat.lt_irrefl _)
    · rcases hfresh hother with hotherOld | ⟨hotherCreated, -⟩
      · exact absurd (hseparate.allocated hotherOld) (hnext ▸ Nat.lt_irrefl _)
      · exact hone hcreated hotherCreated

/-- Every slot reads back what was written for it. -/
theorem overwrite_eq (hseparate : Separate slots next) {content : Nat → V}
    {writes : List (Nat × V)} {written : J → Option V}
    (hwrites : ∀ write, write ∈ writes ↔
      ∃ slot, slots slot = some write.1 ∧ written slot = some write.2)
    {slot : J} {address : Nat} {value : V} (hslot : slots slot = some address)
    (hvalue : written slot = some value) :
    overwrite content writes address = value := by
  refine overwrite_of_agree (fun write hmem haddress => ?_)
    ⟨(address, value), (hwrites _).mpr ⟨slot, hslot, hvalue⟩, rfl⟩
  obtain ⟨other, hother, hwritten⟩ := (hwrites write).mp hmem
  obtain rfl := hseparate.injective hslot (haddress ▸ hother)
  exact Option.some.inj (hwritten.symm.trans hvalue)

end Separate

end Margot
