/-
The description of an application as it is heard: its spaces have been squeezed
between the marks and in the texts, and it is read back and parsed.
-/
import Margot.Library.JsonRespaced
import Margot.Heel.CompiledDescription

namespace Margot.Heel

section Squeeze

variable {c : Char}

/-- What is no space splits a text in two. -/
theorem squeeze_append_plain (first : Text) (hplain : isSpace c = false)
    (rest : Text) :
    squeeze (first ++ c :: rest) = squeeze first ++ c :: squeeze rest := by
  induction first with
  | nil => exact squeeze_cons_plain hplain rest
  | cons d first ih =>
      cases hd : isSpace d with
      | false =>
          rw [List.cons_append, squeeze_cons_plain hd, squeeze_cons_plain hd, ih,
            List.cons_append]
      | true =>
          rw [List.cons_append, squeeze_cons_space hd, squeeze_cons_space hd]
          match first with
          | [] =>
              rw [List.nil_append, squeeze_space_plain hplain,
                squeeze_cons_plain hplain]
              rfl
          | e :: first =>
              rw [List.cons_append] at ih ⊢
              cases he : isSpace e with
              | true => rw [squeeze_space_space he, squeeze_space_space he, ih]
              | false =>
                  rw [squeeze_space_plain he, squeeze_space_plain he, ih,
                    List.cons_append]

theorem squeeze_of_plain {text : Text} (hplain : ∀ c ∈ text, isSpace c = false) :
    squeeze text = text := by
  induction text with
  | nil => rfl
  | cons c rest ih =>
      rw [List.forall_mem_cons] at hplain
      rw [squeeze_cons_plain hplain.1, ih hplain.2]

/-- The spaces between marks are skipped, as many as are left of them. -/
theorem skipSpace_squeeze (hspace : isSpace c = true) (rest : Text) :
    Json.skipSpace (squeeze (c :: rest)) = Json.skipSpace (squeeze rest) := by
  have hskip : ∀ text, Json.skipSpace (' ' :: text) = Json.skipSpace text :=
    fun _ => rfl
  rw [squeeze_cons_space hspace]
  match rest with
  | [] => rfl
  | d :: rest =>
      cases hd : isSpace d with
      | true => rw [squeeze_space_space hd]
      | false => rw [squeeze_space_plain hd, hskip]

/-- A text without anything to escape. -/
def Unescaped (text : Text) : Prop := ∀ c ∈ text, Json.isPlain c = true

theorem unescaped_squeeze {text : Text} (hplain : Unescaped text) :
    Unescaped (squeeze text) := by
  intro c hc
  rcases mem_of_mem_squeeze hc with rfl | hmem
  · decide
  · exact hplain c hmem

/-- Squeezing keeps the marks of a description, and squeezes its strings. -/
theorem respaces_squeeze : Json.Respaces squeeze squeeze Unescaped where
  nil := rfl
  empty := rfl
  mark := by
    intro c hc rest
    have hmarks : ∀ c ∈ "\x7b\x7d[],:".toList, isSpace c = false := by decide
    exact squeeze_cons_plain (hmarks c hc) rest
  space := by
    intro c hc rest
    have hspaces : ∀ c ∈ " \n".toList, isSpace c = true := by decide
    exact skipSpace_squeeze (hspaces c hc) rest
  string := by
    intro text rest hplain
    have hquote : isSpace '"' = false := by decide
    have hshape : ∀ text rest : Text, Unescaped text →
        Json.quoted text ++ rest = '"' :: (text ++ '"' :: rest) := by
      intro text rest hplain
      rw [Json.quoted, Json.createEscapes_plain hplain]
      simp
    rw [hshape text rest hplain, squeeze_cons_plain hquote,
      squeeze_append_plain text hquote,
      hshape (squeeze text) (squeeze rest) (unescaped_squeeze hplain)]

end Squeeze

section SingleSpaced

/-- There is nothing to squeeze in the text. -/
def SingleSpaced (text : Text) : Prop := squeeze text = text

instance (text : Text) : Decidable (SingleSpaced text) :=
  inferInstanceAs (Decidable (squeeze text = text))

theorem squeeze_intercalate (tokens : List Text) :
    squeeze (['.'].intercalate tokens) =
      ['.'].intercalate (tokens.map squeeze) := by
  have hdot : isSpace '.' = false := by decide
  induction tokens with
  | nil => rfl
  | cons token rest ih =>
      match rest with
      | [] => simp [List.intercalate]
      | next :: rest =>
          have hcons : ∀ (token next : Text) (rest : List Text),
              ['.'].intercalate (token :: next :: rest) =
                token ++ '.' :: ['.'].intercalate (next :: rest) := by
            intro token next rest
            simp [List.intercalate]
          rw [hcons, squeeze_append_plain token hdot, ih]
          simp only [List.map_cons, hcons]

theorem intercalate_tokens (text : Text) :
    ['.'].intercalate (text.splitOn '.') = text :=
  List.intercalate_splitOn '.'

theorem splitOn_squeeze (text : Text) :
    (squeeze text).splitOn '.' = (text.splitOn '.').map squeeze := by
  have htokens : ∀ token ∈ (text.splitOn '.').map squeeze, '.' ∉ token := by
    intro token hmem hdot
    obtain ⟨original, horiginal, rfl⟩ := List.mem_map.mp hmem
    rcases mem_of_mem_squeeze hdot with hblank | hdot
    · contradiction
    · exact (mem_of_mem_splitOn horiginal hdot).2 rfl
  conv_lhs => rw [← intercalate_tokens text]
  rw [squeeze_intercalate]
  apply List.splitOn_intercalate '.' htokens
  rw [ne_eq, List.map_eq_nil_iff]
  exact List.splitOn_ne_nil '.' text

/-- The fragments of a path are all of its tokens that are not empty at the
end. -/
theorem forall_fragments {good : Text → Prop} (hempty : good []) (path : Text) :
    (∀ fragment ∈ Ptree.fragments path, good fragment) ↔
      ∀ token ∈ path.splitOn '.', good token := by
  rw [Ptree.fragments]
  split
  · next hlast =>
      obtain ⟨before, hbefore⟩ := List.getLast?_eq_some_iff.mp hlast
      rw [hbefore, List.dropLast_concat, List.forall_mem_append,
        List.forall_mem_singleton]
      exact (and_iff_left hempty).symm
  · exact Iff.rfl

theorem lenient_singleSpaced : Lenient SingleSpaced := by
  constructor
  · intro text htag
    apply squeeze_of_plain
    intro c hc
    cases hspace : isSpace c with
    | false => rfl
    | true =>
        have hother := htag c hc
        simp only [isSpace, Bool.or_eq_true, beq_iff_eq] at hspace
        rcases hspace with ((((rfl | rfl) | rfl) | rfl) | rfl) | rfl
        all_goals contradiction
  · intro path
    have hself : (∀ token ∈ path.splitOn '.', SingleSpaced token) ↔
        (path.splitOn '.').map squeeze = path.splitOn '.' := by
      conv_rhs => rhs; rw [← List.map_id (path.splitOn '.')]
      rw [List.map_inj_left]
      rfl
    have hempty : SingleSpaced [] := rfl
    rw [forall_fragments hempty, hself, ← splitOn_squeeze, SingleSpaced]
    constructor
    · intro hsame
      rw [← intercalate_tokens (squeeze path), hsame, intercalate_tokens]
    · intro hsame
      rw [hsame]

end SingleSpaced

section Description

variable {app : ApplicationModel}
  (haccepted : ∀ block ∈ app.blocks, AcceptedBlock block)
  (hplain : ∀ text ∈ app.texts, Unescaped text)

include haccepted hplain

theorem unescaped_application :
    Json.Holds Unescaped (composeApplication app) := by
  have htags : ∀ c, isTagChar c = true → Json.isPlain c = true := by
    intro c hc
    simp only [isTagChar, Bool.or_eq_true, beq_iff_eq] at hc
    rcases hc with ((halphanum | rfl) | rfl) | rfl
    · exact Json.isPlain_of_isAlphanum halphanum
    all_goals decide
  exact (composed_application (lenient_of_chars htags) haccepted).holds.mpr
    hplain

/-- Nothing in the description is escaped with a backslash. -/
theorem backslash_not_mem_description :
    '\\' ∉ Json.write Json.quoted true 0 (composeApplication app) ++
      Json.lineEnd true := by
  have hquoted : ∀ text, Unescaped text → ∀ c ∈ Json.quoted text, c ≠ '\\' := by
    intro text htext c hc
    rw [Json.quoted, Json.createEscapes_plain htext, List.mem_append,
      List.mem_cons, List.mem_singleton] at hc
    rcases hc with (rfl | hmem) | rfl
    · decide
    · rintro rfl
      exact absurd (htext _ hmem) (by decide)
    · decide
  have hwritten : 0 < 0 ∨ (composeApplication app).children ≠ [] := by
    rw [composeApplication_eq]
    exact .inr (List.cons_ne_nil _ _)
  have hholds := unescaped_application haccepted hplain
  have hall := (Json.forall_mem_write (by decide) (by decide) true
    (composeApplication app) hwritten).mpr
      ⟨fun data hmem => hquoted data (hholds.1 data hmem),
        fun key hmem => hquoted key (hholds.2 key hmem)⟩
  rw [List.mem_append, not_or]
  exact ⟨fun hmem => hall _ hmem rfl, by decide⟩

/-- The client sends the description with its spaces squeezed. -/
theorem applicationDescription_squeezed :
    applicationDescription app = .ok (some (squeeze
      (Json.write Json.quoted true 0 (composeApplication app) ++
        Json.lineEnd true))) := by
  have hline : ∀ text, '\n' ∉ squeeze text := by
    intro text hmem
    have hblank : '\n' = ' ' := eq_blank_of_mem_squeeze (by decide) hmem
    contradiction
  have hbackslash : ∀ text : Text, '\\' ∉ text → '\\' ∉ squeeze text := by
    intro text hnone hmem
    rcases mem_of_mem_squeeze hmem with hblank | hmem
    · contradiction
    · exact hnone hmem
  have hdecode := (CppLiteral.decode_quoted_iff (hline _)).mpr (hbackslash _
    (backslash_not_mem_description haccepted hplain))
  rw [← descriptionLiteral_eq] at hdecode
  rw [applicationDescription_eq haccepted, compiled]
  exact congrArg Except.ok hdecode

/-- What is read of it is the tree with its texts squeezed. -/
theorem readJson_description {heard : Text}
    (hheard : applicationDescription app = .ok (some heard)) :
    Json.readJson heard = some ((composeApplication app).mapTexts squeeze) := by
  have hholds := unescaped_application haccepted hplain
  have hnodes : Json.plainNodes (composeApplication app) = true :=
    (composed_application (lenient_of_chars (p := fun _ => True)
      fun _ _ => trivial) haccepted).plain
  rw [applicationDescription_squeezed haccepted hplain] at hheard
  obtain rfl := Option.some.inj (Except.ok.inj hheard)
  rw [composeApplication_eq] at hholds hnodes ⊢
  simp only [Json.plainNodes, List.isEmpty_nil, Bool.true_or, Bool.true_and]
    at hnodes
  exact respaces_squeeze.readJson hnodes
    ((Json.holds_of_children (List.cons_ne_nil _ _)).mp hholds)

/-- Without anything to squeeze in the texts it is the tree of the
application. -/
theorem readJson_description_self (hspaced : ∀ text ∈ app.texts, SingleSpaced text)
    {heard : Text} (hheard : applicationDescription app = .ok (some heard)) :
    Json.readJson heard = some (composeApplication app) := by
  have hcomposed := composed_application lenient_singleSpaced haccepted
  rw [readJson_description haccepted hplain hheard, Json.mapTexts_eq_self rfl _
    hcomposed.plain (hcomposed.holds.mpr hspaced)]

end Description

section Parsed

variable {app : ApplicationModel}

/-- What the blocks of an application need to be parsed again. -/
structure Readable (block : BlockModel) : Prop where
  plain : block.PlainParameters
  fits : block.FitsSize
  distance : block.features.fields ≠ [] → block.features.distanceType ≠ .none

/-- The composed application is parsed, and each of its blocks is a block of the
application. -/
theorem exists_parseApplication (sorter : NameSort)
    (computeRange : Ptree → Text → Checked (List Text))
    (haccepted : ∀ block ∈ app.blocks, AcceptedBlock block)
    (hreadable : ∀ block ∈ app.blocks, Readable block) :
    ∃ parsed, parseApplication sorter computeRange (composeApplication app) =
        .ok parsed ∧ parsed.name = app.name ∧ parsed.version = app.version ∧
      (∀ found ∈ parsed.blocks, ∃ block ∈ app.blocks, SameBlock found block) ∧
      ∀ block ∈ app.blocks, ∃ found ∈ parsed.blocks, SameBlock found block := by
  obtain ⟨blocks, hblocks⟩ : ∃ blocks, (app.blocks.map composeBlock).mapM
      (parseBlock sorter computeRange) = .ok blocks := by
    rw [exists_mapM, List.forall_mem_map]
    intro block hmem
    have hblock := hreadable block hmem
    exact (exists_parseBlock_iff sorter computeRange (haccepted block hmem)
      hblock.plain hblock.fits).mpr hblock.distance
  have hname : (composeApplication app).text "name".toList = app.name := by
    rw [composeApplication_eq]
    exact Ptree.text_node (by decide) (by decide) rfl
  have hversion : (composeApplication app).text "version".toList =
      app.version := by
    rw [composeApplication_eq]
    exact Ptree.text_node (by decide) (by decide) rfl
  have hsame : ∀ block ∈ app.blocks, ∀ found,
      parseBlock sorter computeRange (composeBlock block) = .ok found →
        SameBlock found block := by
    intro block hmem found hfound
    have hblock := hreadable block hmem
    exact sameBlock_of_parseBlock (haccepted block hmem) hblock.plain
      hblock.fits hfound
  have hsorted := sorter.perm (fun block : BlockModel => block.name) blocks
  refine ⟨⟨app.name, app.version, sorter.sort (·.name) blocks⟩, ?_, rfl, rfl,
    ?_, ?_⟩
  · rw [parseApplication, parseList, elements_composeApplication, hblocks, hname,
      hversion]
    rfl
  · intro found hfound
    obtain ⟨node, hnode, hparsed⟩ :=
      exists_of_mem_mapM hblocks (hsorted.mem_iff.mp hfound)
    obtain ⟨block, hmem, rfl⟩ := List.mem_map.mp hnode
    exact ⟨block, hmem, hsame block hmem found hparsed⟩
  · intro block hmem
    have hall := List.forall₂_map_left_iff.mp (mapM_eq_ok.mp hblocks)
    obtain ⟨found, hfound, hparsed⟩ := exists_of_forall₂ hall hmem
    exact ⟨found, hsorted.mem_iff.mpr hfound, hsame block hmem found hparsed⟩

end Parsed

end Margot.Heel
