/-
What the compiler reads of the description of an application: the values and
the keys of its tree, part by part.
-/
import Margot.Library.JsonParts
import Margot.Heel.DescriptionLiteral
import Margot.Heel.Texts

namespace Margot.Heel

/-- What the compiler reads of a text of the description, with or without a
space before it. -/
def compiled (spaced : Bool) (text : Text) : Option Text :=
  CppLiteral.decode (collapseFrom spaced (text.flatMap escapeDescription))

/-- The literal ends in the part: nothing is read of what follows. -/
def Ends (part : Text) : Prop :=
  ∀ spaced rest, compiled spaced (part ++ rest) = none

/-- The part is read on its own, and what is read of it has only good
characters exactly if `condition` holds. -/
def Carries (good : Char → Prop) (part : Text) (condition : Prop) : Prop :=
  ∀ spaced, ∃ heard after,
    (∀ rest, compiled spaced (part ++ rest) =
      (compiled after rest).map (heard ++ ·)) ∧
    ((∀ c ∈ heard, good c) ↔ condition)

section Parts

variable {good : Char → Prop} {first second : Text} {p q : Prop}

theorem carries_nil : Carries good [] True := by
  intro spaced
  refine ⟨[], spaced, fun rest => ?_, by simp⟩
  simp

theorem Carries.congr (hpart : Carries good first p) (hsame : p ↔ q) :
    Carries good first q := by
  intro spaced
  obtain ⟨heard, after, hread, hgood⟩ := hpart spaced
  exact ⟨heard, after, hread, hgood.trans hsame⟩

theorem Carries.append (hfirst : Carries good first p)
    (hsecond : Carries good second q) :
    Carries good (first ++ second) (p ∧ q) := by
  intro spaced
  obtain ⟨heard, after, hread, hgood⟩ := hfirst spaced
  obtain ⟨more, last, hmore, hothers⟩ := hsecond after
  refine ⟨heard ++ more, last, fun rest => ?_, ?_⟩
  · rw [List.append_assoc, hread, hmore, Option.map_map]
    simp [Function.comp_def]
  · rw [List.forall_mem_append, hgood, hothers]

theorem Ends.append (hfirst : Ends first) (second : Text) :
    Ends (first ++ second) := by
  intro spaced rest
  rw [List.append_assoc, hfirst]

theorem Carries.ends (hfirst : Carries good first p) (hsecond : Ends second) :
    Ends (first ++ second) := by
  intro spaced rest
  obtain ⟨heard, after, hread, -⟩ := hfirst spaced
  rw [List.append_assoc, hread, hsecond]
  rfl

/-- Without spaces nothing is collapsed. -/
theorem collapseFrom_solid {part : Text} (hsome : part ≠ [])
    (hsolid : ∀ c ∈ part, isSpace c = false) (spaced : Bool) (rest : Text) :
    collapseFrom spaced (part.flatMap escapeDescription ++ rest) =
      part.flatMap escapeDescription ++ collapseFrom false rest := by
  induction part generalizing spaced with
  | nil => contradiction
  | cons c others ih =>
      rw [List.forall_mem_cons] at hsolid
      rw [List.flatMap_cons, List.append_assoc, collapseFrom_plain hsolid.1]
      cases others with
      | nil => simp
      | cons d others =>
          rw [ih (List.cons_ne_nil _ _) hsolid.2, List.append_assoc]

variable {part : Text} (hsome : part ≠ [])
  (hsolid : ∀ c ∈ part, isSpace c = false)

include hsome hsolid

theorem compiled_solid (spaced : Bool) (rest : Text) :
    compiled spaced (part ++ rest) =
      CppLiteral.decode (part.flatMap escapeDescription ++
        collapseFrom false (rest.flatMap escapeDescription)) := by
  rw [compiled, List.flatMap_append, collapseFrom_solid hsome hsolid]

theorem carries_solid {heard : Text}
    (hread : CppLiteral.readAll .plain (part.flatMap escapeDescription) =
      some (heard, .plain)) :
    Carries good part (∀ c ∈ heard, good c) := by
  intro spaced
  refine ⟨heard, false, fun rest => ?_, Iff.rfl⟩
  rw [compiled_solid hsome hsolid, CppLiteral.decode_append hread]
  rfl

theorem ends_solid
    (hread : CppLiteral.readAll .plain (part.flatMap escapeDescription) =
      none) : Ends part := by
  intro spaced rest
  rw [compiled_solid hsome hsolid, CppLiteral.decode_append_none hread]

end Parts

section Characters

variable {good : Char → Prop} {c : Char}

theorem carries_space (hspace : isSpace c = true) (hblank : good ' ') :
    Carries good [c] True := by
  intro spaced
  have hread : ∀ rest, compiled spaced ([c] ++ rest) =
      CppLiteral.decode (collapseFrom spaced
        (' ' :: rest.flatMap escapeDescription)) := by
    intro rest
    rw [compiled, List.flatMap_append, List.flatMap_singleton,
      escapeDescription_of_space hspace, List.singleton_append]
  cases spaced with
  | true =>
      refine ⟨[], true, fun rest => ?_, by simp⟩
      rw [hread, collapseFrom, if_pos (by decide)]
      simp [compiled]
  | false =>
      refine ⟨[' '], true, fun rest => ?_, by simpa using hblank⟩
      rw [hread, collapseFrom, if_neg (by decide),
        CppLiteral.decode_cons_plain (by decide) (by decide) (by decide)]
      rfl

/-- A character that is no space and that nothing is done about. -/
theorem carries_plain (hspace : isSpace c = false) (hescape : c ≠ '\\')
    (hquote : c ≠ '"') : Carries good [c] (good c) := by
  have hline : c ≠ '\n' := by
    rintro rfl
    contradiction
  have hsolid : ∀ d ∈ [c], isSpace d = false := by simpa using hspace
  have hread : CppLiteral.readAll .plain ([c].flatMap escapeDescription) =
      some ([c], .plain) := by
    rw [List.flatMap_singleton, escapeDescription_of_plain hspace,
      if_neg hquote]
    simp [CppLiteral.readAll, CppLiteral.read, CppLiteral.readPlain, hescape,
      hquote, hline]
  exact (carries_solid (List.cons_ne_nil _ _) hsolid hread).congr (by simp)

/-- A quote of the tree is escaped. -/
theorem carries_quote (hquote : good '"') : Carries good ['"'] True :=
  (carries_solid (List.cons_ne_nil _ _) (by decide) rfl).congr
    (by simpa using hquote)

/-- A quote of a value is escaped twice: the backslash of the first escape is
itself read as one, and the quote ends the literal. -/
theorem ends_escape_quote : Ends (Json.escape '"') :=
  ends_solid (by decide) (by decide) (by decide)

theorem solid_escape (hplain : Json.isPlain c = false) :
    ∀ d ∈ Json.escape c, isSpace d = false :=
  forall_ascii
    (p := fun c => Json.isPlain c = false →
      ∀ d ∈ Json.escape c, isSpace d = false)
    (by decide +kernel) (Json.toNat_lt_of_not_plain hplain) hplain

/-- The escapes of JSON are those of C++: each stands for its character. -/
theorem read_escape (hplain : Json.isPlain c = false) (hquote : c ≠ '"') :
    CppLiteral.readAll .plain ((Json.escape c).flatMap escapeDescription) =
      some ([c], .plain) :=
  forall_ascii
    (p := fun c => Json.isPlain c = false ∧ c ≠ '"' →
      CppLiteral.readAll .plain ((Json.escape c).flatMap escapeDescription) =
        some ([c], .plain))
    (by decide +kernel) (Json.toNat_lt_of_not_plain hplain) ⟨hplain, hquote⟩

/-- The only space that is written as it is. -/
theorem eq_blank_of_plain (hplain : Json.isPlain c = true)
    (hspace : isSpace c = true) : c = ' ' := by
  simp only [isSpace, Bool.or_eq_true, beq_iff_eq] at hspace
  rcases hspace with ((((rfl | rfl) | rfl) | rfl) | rfl) | rfl
  · rfl
  all_goals contradiction

/-- Every other character stands for itself in the end. -/
theorem carries_escape (hblank : good ' ') (hquote : c ≠ '"') :
    Carries good (Json.escape c) (good c) := by
  cases hplain : Json.isPlain c with
  | true =>
      rw [Json.escape_of_plain hplain]
      cases hspace : isSpace c with
      | true =>
          obtain rfl := eq_blank_of_plain hplain hspace
          exact (carries_space hspace hblank).congr (by simpa using hblank)
      | false =>
          apply carries_plain hspace _ hquote
          rintro rfl
          contradiction
  | false =>
      obtain ⟨rest, hescape⟩ := Json.escape_of_not_plain hplain
      have hsome : Json.escape c ≠ [] := by
        rw [hescape]
        exact List.cons_ne_nil _ _
      exact (carries_solid hsome (solid_escape hplain)
        (read_escape hplain hquote)).congr (by simp)

end Characters

section Strings

variable {good : Char → Prop} {text : Text}

theorem carries_createEscapes (hblank : good ' ') (hfree : '"' ∉ text) :
    Carries good (Json.createEscapes text) (∀ c ∈ text, good c) := by
  induction text with
  | nil => exact carries_nil.congr (by simp)
  | cons c rest ih =>
      rw [List.mem_cons, not_or] at hfree
      obtain ⟨hquote, hrest⟩ := hfree
      have hfirst := carries_escape hblank (Ne.symm hquote)
      rw [Json.createEscapes_cons]
      exact (hfirst.append (ih hrest)).congr List.forall_mem_cons.symm

theorem ends_createEscapes (hmem : '"' ∈ text) :
    Ends (Json.createEscapes text) := by
  induction text with
  | nil => contradiction
  | cons c rest ih =>
      rw [Json.createEscapes_cons]
      by_cases hquote : c = '"'
      · subst hquote
        exact ends_escape_quote.append _
      · have hrest : '"' ∈ rest :=
          (List.mem_cons.mp hmem).resolve_left (Ne.symm hquote)
        have hfirst : Carries (fun _ => True) (Json.escape c) True :=
          carries_escape trivial hquote
        exact hfirst.ends (ih hrest)

theorem carries_quoted (hblank : good ' ') (hquote : good '"')
    (hfree : '"' ∉ text) :
    Carries good (Json.quoted text) (∀ c ∈ text, good c) := by
  have hopen := carries_quote hquote
  have htext := hopen.append (carries_createEscapes hblank hfree)
  exact (htext.append hopen).congr (by simp)

theorem ends_quoted (hmem : '"' ∈ text) : Ends (Json.quoted text) := by
  have hopen : Carries (fun _ => True) ['"'] True := carries_quote trivial
  exact (hopen.ends (ends_createEscapes hmem)).append _

/-- The predicate holds of the values and of the keys. -/
def Each (p : Text → Prop) (values keys : List Text) : Prop :=
  (∀ data ∈ values, p data) ∧ ∀ key ∈ keys, p key

theorem each_append {p : Text → Prop} {values keys others more : List Text} :
    Each p (values ++ others) (keys ++ more) ↔
      Each p values keys ∧ Each p others more := by
  simp only [Each, List.forall_mem_append]
  exact and_and_and_comm

/-- How a part of the description is read, by the values and the keys in it. -/
structure Compiles (good : Char → Prop) (part : Text)
    (values keys : List Text) : Prop where
  ends : ¬ Each (fun text => '"' ∉ text) values keys → Ends part
  carries : Each (fun text => '"' ∉ text) values keys →
    Carries good part (Each (fun text => ∀ c ∈ text, good c) values keys)

theorem Compiles.append {first second : Text}
    {values keys others more : List Text}
    (hfirst : Compiles good first values keys)
    (hsecond : Compiles good second others more) :
    Compiles good (first ++ second) (values ++ others) (keys ++ more) := by
  constructor
  · intro hquote
    rw [each_append, not_and] at hquote
    by_cases hfree : Each (fun text => '"' ∉ text) values keys
    · exact (hfirst.carries hfree).ends (hsecond.ends (hquote hfree))
    · exact (hfirst.ends hfree).append _
  · intro hfree
    obtain ⟨hfree, hothers⟩ := each_append.mp hfree
    exact ((hfirst.carries hfree).append (hsecond.carries hothers)).congr
      each_append.symm

theorem compiles_of_carries {part : Text} {values keys : List Text}
    (hnone : Each (fun text => text = []) values keys)
    (hpart : Carries good part True) : Compiles good part values keys := by
  have hall : ∀ p : Text → Prop, p [] → Each p values keys := by
    intro p hempty
    refine ⟨fun data hmem => ?_, fun key hmem => ?_⟩
    · rw [hnone.1 data hmem]
      exact hempty
    · rw [hnone.2 key hmem]
      exact hempty
  constructor
  · exact fun hquote => absurd (hall _ List.not_mem_nil) hquote
  · intro _
    exact hpart.congr (iff_of_true trivial (hall _ (List.forall_mem_nil _)))

theorem compiles_quoted (hblank : good ' ') (hquote : good '"')
    {values keys : List Text}
    (honly : ∀ p : Text → Prop, Each p values keys ↔ p text) :
    Compiles good (Json.quoted text) values keys := by
  constructor
  · intro hends
    rw [honly, not_not] at hends
    exact ends_quoted hends
  · intro hfree
    rw [honly] at hfree
    have hcarries := carries_quoted hblank hquote hfree
    exact hcarries.congr (honly fun text => ∀ c ∈ text, good c).symm

/-- The description is read part by part. -/
theorem compiles_parts (hblank : good ' ') (hquote : good '"')
    (hmarks : ∀ c ∈ Json.marks, isSpace c = false → good c) :
    Json.Parts Json.quoted (Compiles good) := by
  constructor
  · exact compiles_of_carries (by simp [Each]) carries_nil
  · exact Compiles.append
  · intro c hc
    apply compiles_of_carries (by simp [Each])
    cases hspace : isSpace c with
    | true => exact carries_space hspace hblank
    | false =>
        have hother : ∀ c ∈ Json.marks, c ≠ '\\' ∧ c ≠ '"' := by decide
        obtain ⟨hescape, hplain⟩ := hother c hc
        exact (carries_plain hspace hescape hplain).congr
          (iff_true_intro (hmarks c hc hspace))
  · exact fun data => compiles_quoted hblank hquote (by simp [Each])
  · exact fun key => compiles_quoted hblank hquote (by simp [Each])
  · exact compiles_of_carries (by simp [Each]) carries_nil

end Strings

section Application

theorem compiles_application {good : Char → Prop} (hblank : good ' ')
    (hquote : good '"')
    (hmarks : ∀ c ∈ Json.marks, isSpace c = false → good c)
    (app : ApplicationModel) :
    Compiles good (Json.write Json.quoted true 0 (composeApplication app))
      (Json.values (composeApplication app))
      (Json.keys (composeApplication app)) := by
  apply (compiles_parts hblank hquote hmarks).write
  rw [composeApplication_eq]
  exact .inr (List.cons_ne_nil _ _)

variable {app : ApplicationModel}
  (haccepted : ∀ block ∈ app.blocks, AcceptedBlock block)

include haccepted

/-- The description can be written. -/
theorem applicationDescription_eq :
    applicationDescription app = .ok (compiled false
      (Json.write Json.quoted true 0 (composeApplication app) ++
        Json.lineEnd true)) := by
  have hplain : Json.plainNodes (composeApplication app) = true :=
    (composed_application (lenient_of_chars (p := fun _ => True)
      fun _ _ => trivial) haccepted).plain
  have hdata : (composeApplication app).data = [] := by
    rw [composeApplication_eq]
    rfl
  have hverify : Json.verifyJson (composeApplication app) = true := by
    rw [Json.verifyJson, hdata, hplain]
    rfl
  rw [applicationDescription, Json.writeJson, hverify]
  rfl

/-- What holds of the characters of the texts of the application, and of those
of the tags, holds of the whole tree. -/
theorem each_application {good : Char → Prop}
    (htags : ∀ c, isTagChar c = true → good c) :
    Each (fun text => ∀ c ∈ text, good c)
        (Json.values (composeApplication app))
        (Json.keys (composeApplication app)) ↔
      ∀ text ∈ app.texts, ∀ c ∈ text, good c :=
  (composed_application (lenient_of_chars htags) haccepted).holds

theorem each_application_quote :
    Each (fun text => '"' ∉ text) (Json.values (composeApplication app))
        (Json.keys (composeApplication app)) ↔
      ∀ text ∈ app.texts, '"' ∉ text := by
  have htags : ∀ c, isTagChar c = true → c ≠ '"' := by
    rintro c hc rfl
    contradiction
  have heach := each_application haccepted htags
  simpa only [List.forall_mem_ne'] using heach

/-- With a quote in a text of the application there is no description. -/
theorem applicationDescription_of_quote
    (hquote : ¬ ∀ text ∈ app.texts, '"' ∉ text) :
    applicationDescription app = .ok none := by
  have hcompiles : Compiles (fun _ => True) _ _ _ :=
    compiles_application trivial trivial (fun _ _ _ => trivial) app
  have hends := hcompiles.ends
    fun hfree => hquote ((each_application_quote haccepted).mp hfree)
  rw [applicationDescription_eq haccepted, hends]

/-- Without one, there is nothing in it but what is in the texts, between
marks. -/
theorem exists_applicationDescription {good : Char → Prop}
    (htags : ∀ c, isTagChar c = true → good c) (hquote : good '"')
    (hmarks : ∀ c ∈ Json.marks, isSpace c = false → good c)
    (hblank : good ' ') (hfree : ∀ text ∈ app.texts, '"' ∉ text) :
    ∃ heard, applicationDescription app = .ok (some heard) ∧
      ((∀ c ∈ heard, good c) ↔ ∀ text ∈ app.texts, ∀ c ∈ text, good c) := by
  have hcompiles := compiles_application hblank hquote hmarks app
  have hcarries := hcompiles.carries
    ((each_application_quote haccepted).mpr hfree)
  have hline : Carries good (Json.lineEnd true) True :=
    carries_space (by decide) hblank
  obtain ⟨heard, after, hread, hgood⟩ := hcarries.append hline false
  refine ⟨heard, ?_, ?_⟩
  · have hwhole := hread []
    rw [List.append_nil] at hwhole
    rw [applicationDescription_eq haccepted, hwhole]
    simp [compiled, collapseFrom, CppLiteral.decode, CppLiteral.decodeFrom,
      CppLiteral.close]
  · rw [hgood, and_true]
    exact each_application haccepted htags

end Application

end Margot.Heel
