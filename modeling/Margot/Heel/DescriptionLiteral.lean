/-
The literal of the description in the generated source: the two passes over its
characters, and the text that the compiler reads.
-/
import Margot.Library.CppLiteral
import Margot.Library.Grouping
import Margot.Heel.Composer
import Margot.Heel.Validate

namespace Margot.Heel

/-- What a maximal run of spaces or of other characters becomes. -/
def squeezeRun (run : Bool × Text) : Text :=
  if run.1 then [' '] else run.2

/-- Every maximal run of spaces is one space. -/
def squeeze (text : Text) : Text :=
  (Grouping.runs isSpace text).flatMap squeezeRun

section Squeeze

variable {c d : Char} {text : Text}

theorem squeeze_cons_plain (hplain : isSpace c = false) (rest : Text) :
    squeeze (c :: rest) = c :: squeeze rest := by
  rw [squeeze, squeeze, Grouping.runs]
  cases Grouping.runs isSpace rest with
  | nil => simp [squeezeRun, hplain]
  | cons run others =>
      obtain ⟨first, members⟩ := run
      cases first with
      | false => simp [squeezeRun, hplain]
      | true => simp [squeezeRun, hplain]

/-- One space is as good as another. -/
theorem squeeze_cons_space (hspace : isSpace c = true) (rest : Text) :
    squeeze (c :: rest) = squeeze (' ' :: rest) := by
  have hblank : isSpace ' ' = true := by decide
  rw [squeeze, squeeze, Grouping.runs, Grouping.runs]
  cases Grouping.runs isSpace rest with
  | nil => simp [squeezeRun, hspace, hblank]
  | cons run others =>
      obtain ⟨first, members⟩ := run
      cases first with
      | false => simp [squeezeRun, hspace, hblank]
      | true => simp [squeezeRun, hspace, hblank]

theorem squeeze_space_space (hspace : isSpace c = true) (rest : Text) :
    squeeze (' ' :: c :: rest) = squeeze (c :: rest) := by
  have hblank : isSpace ' ' = true := by decide
  obtain ⟨members, others, hruns⟩ := Grouping.exists_runs_cons isSpace c rest
  rw [squeeze, squeeze, Grouping.runs, hruns]
  simp [squeezeRun, hspace, hblank]

theorem squeeze_space_plain (hplain : isSpace c = false) (rest : Text) :
    squeeze (' ' :: c :: rest) = ' ' :: squeeze (c :: rest) := by
  have hblank : isSpace ' ' = true := by decide
  obtain ⟨members, others, hruns⟩ := Grouping.exists_runs_cons isSpace c rest
  rw [squeeze, squeeze, Grouping.runs, hruns]
  simp [squeezeRun, hplain, hblank]

theorem mem_of_mem_squeeze (hmem : c ∈ squeeze text) : c = ' ' ∨ c ∈ text := by
  obtain ⟨run, hrun, hc⟩ := List.mem_flatMap.mp hmem
  rw [squeezeRun] at hc
  split at hc
  · exact .inl (List.mem_singleton.mp hc)
  · apply Or.inr
    rw [← Grouping.flatMap_runs isSpace text]
    exact List.mem_flatMap.mpr ⟨run, hrun, hc⟩

theorem mem_squeeze_of_plain (hplain : isSpace c = false) (hmem : c ∈ text) :
    c ∈ squeeze text := by
  rw [← Grouping.flatMap_runs isSpace text] at hmem
  obtain ⟨run, hrun, hc⟩ := List.mem_flatMap.mp hmem
  obtain ⟨-, hkey⟩ := Grouping.mem_runs isSpace hrun
  apply List.mem_flatMap.mpr
  refine ⟨run, hrun, ?_⟩
  rw [squeezeRun, ← hkey c hc, hplain]
  exact hc

/-- The only space is the blank. -/
theorem eq_blank_of_mem_squeeze (hspace : isSpace c = true)
    (hmem : c ∈ squeeze text) : c = ' ' := by
  obtain ⟨run, hrun, hc⟩ := List.mem_flatMap.mp hmem
  obtain ⟨-, hkey⟩ := Grouping.mem_runs isSpace hrun
  rw [squeezeRun] at hc
  split at hc
  · exact List.mem_singleton.mp hc
  · next hother =>
      rw [← hkey c hc] at hother
      contradiction

end Squeeze

section Literal

variable {c : Char}

theorem escapeDescription_of_space (hspace : isSpace c = true) :
    escapeDescription c = [' '] := by
  have hquote : c ≠ '"' := by
    rintro rfl
    contradiction
  rw [escapeDescription, if_neg hquote, if_pos hspace]

theorem escapeDescription_of_plain (hplain : isSpace c = false) :
    escapeDescription c = if c = '"' then ['\\', '"'] else [c] := by
  simp [escapeDescription, hplain]

/-- What is not a space is kept. -/
theorem collapseFrom_plain (hplain : isSpace c = false) (spaced : Bool)
    (rest : Text) :
    collapseFrom spaced (escapeDescription c ++ rest) =
      escapeDescription c ++ collapseFrom false rest := by
  have hbackslash : isSpace '\\' = false := by decide
  have hquote : isSpace '"' = false := by decide
  rw [escapeDescription_of_plain hplain]
  split
  · simp [collapseFrom, hbackslash, hquote]
  · simp [collapseFrom, hplain]

/-- The two passes in one: the spaces are squeezed and the quotes escaped, with
and without a space before. -/
theorem collapseFrom_flatMap (description : Text) :
    collapseFrom false (description.flatMap escapeDescription) =
        CppLiteral.quoted (squeeze description) ∧
      ' ' :: collapseFrom true (description.flatMap escapeDescription) =
        CppLiteral.quoted (squeeze (' ' :: description)) := by
  induction description with
  | nil => exact ⟨rfl, rfl⟩
  | cons c rest ih =>
      obtain ⟨ihPlain, ihSpaced⟩ := ih
      rw [List.flatMap_cons]
      cases hc : isSpace c with
      | true =>
          have hblank : isSpace ' ' = true := by decide
          rw [escapeDescription_of_space hc, squeeze_space_space hc,
            squeeze_cons_space hc, ← ihSpaced]
          simp [collapseFrom, hblank]
      | false =>
          have hunit : CppLiteral.quoted (squeeze (c :: rest)) =
              escapeDescription c ++ CppLiteral.quoted (squeeze rest) := by
            rw [squeeze_cons_plain hc, CppLiteral.quoted_cons,
              escapeDescription_of_plain hc]
          rw [collapseFrom_plain hc, collapseFrom_plain hc, ihPlain,
            squeeze_space_plain hc, CppLiteral.quoted_cons, hunit]
          exact ⟨rfl, rfl⟩

theorem descriptionLiteral_eq (description : Text) :
    descriptionLiteral description =
      CppLiteral.quoted (squeeze description) :=
  (collapseFrom_flatMap description).1

/-- The compiler reads the description with its spaces squeezed exactly when
there is no backslash in it: those of the escapes of JSON are not escaped. -/
theorem decode_descriptionLiteral_iff (description : Text) :
    CppLiteral.decode (descriptionLiteral description) =
        some (squeeze description) ↔
      '\\' ∉ description := by
  have hline : '\n' ∉ squeeze description := by
    intro hmem
    have hblank : '\n' = ' ' := eq_blank_of_mem_squeeze (by decide) hmem
    contradiction
  rw [descriptionLiteral_eq, CppLiteral.decode_quoted_iff hline]
  apply not_congr
  constructor
  · intro hmem
    rcases mem_of_mem_squeeze hmem with hblank | hdescription
    · contradiction
    · exact hdescription
  · exact mem_squeeze_of_plain (by decide)

end Literal

namespace Sample

/-- A version with a quote is written with an escape, whose backslash ends up
before the escape of the quote. -/
theorem not_decode_descriptionLiteral_quote :
    ¬ ∀ (b : AgoraBlock) (description : Text),
      Json.writeJson true (composeApplication b.app) = .ok description →
        CppLiteral.decode (descriptionLiteral description) =
          some (squeeze description) := by
  intro hall
  let b := agoraBlock "1\"2".toList (List.cons_ne_nil _ _)
  have hsent : (Json.writeJson true (composeApplication b.app)).toOption.all
      (fun description =>
        CppLiteral.decode (descriptionLiteral description) = none) = true ∧
      (Json.writeJson true (composeApplication b.app)).toOption.isSome =
        true := by
    decide +kernel
  cases hwrite : Json.writeJson true (composeApplication b.app) with
  | error message =>
      rw [hwrite] at hsent
      exact Bool.noConfusion hsent.2
  | ok description =>
      rw [hwrite] at hsent
      have hnone := of_decide_eq_true hsent.1
      rw [hall b description hwrite] at hnone
      contradiction

end Sample

end Margot.Heel
