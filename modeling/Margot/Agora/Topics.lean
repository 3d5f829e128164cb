/-
The topics of the clients.  The generated code carries the identifier of the
application in a string literal; the server filters the topic and splits it
again, at the slashes first and then at the carets.
-/
import Margot.Heel.Validate
import Margot.Library.CppLiteral
import Margot.Agora.Message

namespace Margot.Agora

open Margot.Heel (AgoraBlock isValidIdentifier)

/-- The topics on which a client publishes. -/
inductive Publication where
  | welcome
  | observation
  | kia
deriving Repr, DecidableEq

def Publication.name : Publication → Text
  | .welcome => "welcome".toList
  | .observation => "observation".toList
  | .kia => "kia".toList

/-- The topic of a message of a client of the application. -/
def clientTopic (identifier : Text) (publication : Publication)
    (cid : ClientId) : Text :=
  messageHeader ++ '/' :: (identifier ++ '/' :: (publication.name ++ '/' :: cid))

/-- The payload of `send_observation`. -/
def observationMessage (sec ns : Nat) (observation : Text) : Text :=
  numeral sec ++ '@' :: (numeral ns ++ '@' :: observation)

/-- A client identifier is the number of a thread, with underscores for what
is problematic. -/
def isClientChar (c : Char) : Bool := c.isAlphanum || c == '_'

/-- The characters of a version that survives the way to the server. -/
def isVersionChar (c : Char) : Bool := c.isAlphanum || c == '_' || c == '.'

section Characters

theorem topic_of_isAlphanum {c : Char} (hc : c.isAlphanum = true) :
    c ∈ topicAcceptedCharacters :=
  forall_ascii
    (p := fun c => c.isAlphanum = true → c ∈ topicAcceptedCharacters)
    (by decide +kernel) (toNat_lt_of_isAlphanum hc) hc

theorem topic_of_isClientChar {c : Char} (hc : isClientChar c = true) :
    c ∈ topicAcceptedCharacters := by
  rcases (Bool.or_eq_true _ _).mp hc with halphanum | hunderscore
  · exact topic_of_isAlphanum halphanum
  · rw [beq_iff_eq.mp hunderscore]
    decide

theorem topic_of_isVersionChar {c : Char} (hc : isVersionChar c = true) :
    c ∈ topicAcceptedCharacters := by
  rcases (Bool.or_eq_true _ _).mp hc with hclient | hdot
  · exact topic_of_isClientChar hclient
  · rw [beq_iff_eq.mp hdot]
    decide

/-- What is accepted in a topic and separates nothing. -/
theorem isVersionChar_of_topic {c : Char} (hc : c ∈ topicAcceptedCharacters)
    (hslash : c ≠ '/') (hcaret : c ≠ '^') : isVersionChar c = true := by
  have hall : ∀ c ∈ topicAcceptedCharacters, c ≠ '/' → c ≠ '^' →
      isVersionChar c = true := by decide +kernel
  exact hall c hc hslash hcaret

theorem isClientChar_of_identifier {name : Text}
    (hvalid : isValidIdentifier name = true) {c : Char} (hc : c ∈ name) :
    isClientChar c = true := by
  rcases Heel.mem_of_isValidIdentifier hvalid hc with halphanum | rfl
  · simp [isClientChar, halphanum]
  · rfl

theorem isVersionChar_of_isClientChar {c : Char}
    (hc : isClientChar c = true) : isVersionChar c = true := by
  simp only [isClientChar] at hc
  simp [isVersionChar, hc]

/-- The characters of a version are none of those that separate. -/
theorem ne_of_isVersionChar {c : Char} (hc : isVersionChar c = true) :
    c ≠ '/' ∧ c ≠ '^' ∧ c ≠ '\\' ∧ c ≠ '"' ∧ c ≠ '\n' := by
  refine ⟨?_, ?_, ?_, ?_, ?_⟩
  all_goals
    rintro rfl
    exact absurd hc (by decide)

end Characters

section Splitting

variable (identifier : Text) (publication : Publication) {cid : ClientId}

theorem slash_not_mem_name :
    '/' ∉ publication.name := by
  cases publication <;> decide

/-- The last two tokens of a topic are its type and the client. -/
theorem tokenize_clientTopic (hcid : '/' ∉ cid) :
    tokenize (clientTopic identifier publication cid) "/".toList =
      messageHeader :: (tokenize identifier "/".toList ++
        [publication.name, cid]) := by
  have hheader : '/' ∉ messageHeader := by decide
  change tokenize _ ['/'] = _ :: (tokenize _ ['/'] ++ _)
  rw [tokenize_singleton, tokenize_singleton, clientTopic,
    List.splitOn_append_cons_self_of_not_mem hheader,
    List.splitOn_append_cons_self,
    List.splitOn_append_cons_self_of_not_mem (slash_not_mem_name publication),
    List.splitOn_eq_singleton hcid]

/-- Without a slash in the identifier, it is the second token. -/
theorem tokenize_clientTopic_of_not_mem {identifier : Text}
    (hidentifier : '/' ∉ identifier) (hcid : '/' ∉ cid) :
    tokenize (clientTopic identifier publication cid) "/".toList =
      [messageHeader, identifier, publication.name, cid] := by
  have hsingle : tokenize identifier "/".toList = [identifier] := by
    change tokenize _ ['/'] = _
    rw [tokenize_singleton, List.splitOn_eq_singleton hidentifier]
  rw [tokenize_clientTopic identifier publication hcid, hsingle]
  rfl

/-- The identifier is found again by its carets. -/
theorem getApplicationId_str {appId : ApplicationId}
    (hname : '^' ∉ appId.appName) (hversion : '^' ∉ appId.version)
    (hblock : '^' ∉ appId.blockName) :
    getApplicationId appId.str = .ok appId := by
  have htokens : tokenize appId.str "^".toList =
      [appId.appName, appId.version, appId.blockName] := by
    change tokenize _ ['^'] = _
    rw [tokenize_singleton, ApplicationId.str,
      List.append_assoc, List.cons_append,
      List.splitOn_append_cons_self_of_not_mem hname,
      List.splitOn_append_cons_self_of_not_mem hversion,
      List.splitOn_eq_singleton hblock]
  rw [getApplicationId, htokens]

end Splitting

/-- The messages of a client with this identifier of the application pass the
filter of the topics and reach the handler `appId`. -/
structure Delivers (identifier : Text) (appId : ApplicationId)
    (cid : ClientId) : Prop where
  passes : ∀ publication,
    findFirstNotOf topicAcceptedCharacters
      (clientTopic identifier publication cid) = none
  welcome : ∀ info,
    handleIncomingMessage ⟨clientTopic identifier .welcome cid, info⟩ =
      .ok (.welcome appId cid info)
  kia : ∀ reason,
    handleIncomingMessage ⟨clientTopic identifier .kia cid, reason⟩ =
      .ok (.kia appId cid reason)
  observation : ∀ (sec ns : Nat) (values : Text), sec < 2 ^ 63 → ns < 2 ^ 63 →
    '@' ∉ values →
    handleIncomingMessage ⟨clientTopic identifier .observation cid,
        observationMessage sec ns values⟩ =
      .ok (.observation appId cid sec ns values)

section Delivery

theorem stol_numeral {n : Nat} (hn : n < 2 ^ 63) :
    stol (numeral n) = .ok (n : Int) := by
  rw [stol, leadingInteger_numeral]
  exact if_pos ⟨by omega, by exact_mod_cast hn⟩

theorem not_mem_numeral {n : Nat} {c : Char} (hc : c.isDigit = false) :
    c ∉ numeral n := by
  intro hmem
  rw [isDigit_of_mem_numeral hmem] at hc
  contradiction

theorem handleObservation_message (appId : ApplicationId) (cid : ClientId)
    {sec ns : Nat} {values : Text} (hsec : sec < 2 ^ 63) (hns : ns < 2 ^ 63)
    (hvalues : '@' ∉ values) :
    handleObservation appId cid (observationMessage sec ns values) =
      .ok (.observation appId cid sec ns values) := by
  have htokens : tokenize (observationMessage sec ns values) "@".toList =
      [numeral sec, numeral ns, values] := by
    change tokenize _ ['@'] = _
    rw [tokenize_singleton, observationMessage,
      List.splitOn_append_cons_self_of_not_mem (not_mem_numeral rfl),
      List.splitOn_append_cons_self_of_not_mem (not_mem_numeral rfl),
      List.splitOn_eq_singleton hvalues]
  simp only [handleObservation, htokens, stol_numeral hsec, stol_numeral hns]
  rfl

/-- An identifier whose parts hold no separator brings every message to its own
handler. -/
theorem delivers_str {appId : ApplicationId} {cid : ClientId}
    (hname : ∀ c ∈ appId.appName, isVersionChar c = true)
    (hversion : ∀ c ∈ appId.version, isVersionChar c = true)
    (hblock : ∀ c ∈ appId.blockName, isVersionChar c = true)
    (hcid : ∀ c ∈ cid, isClientChar c = true) :
    Delivers appId.str appId cid := by
  have hfree : ∀ {text : Text}, (∀ c ∈ text, isVersionChar c = true) →
      '/' ∉ text ∧ '^' ∉ text := by
    intro text htext
    exact ⟨fun hmem => (ne_of_isVersionChar (htext _ hmem)).1 rfl,
      fun hmem => (ne_of_isVersionChar (htext _ hmem)).2.1 rfl⟩
  have hslash : '/' ∉ appId.str := by
    simp [ApplicationId.str, hfree hname, hfree hversion, hfree hblock]
  have hclient : '/' ∉ cid :=
    (hfree fun c hc => isVersionChar_of_isClientChar (hcid c hc)).1
  have hid := getApplicationId_str (hfree hname).2 (hfree hversion).2
    (hfree hblock).2
  refine ⟨fun publication => ?_, fun info => ?_, fun reason => ?_,
    fun sec ns values hsec hns hvalues => ?_⟩
  · rw [findFirstNotOf_eq_none]
    have hheader : ∀ c ∈ messageHeader, c ∈ topicAcceptedCharacters := by decide
    have hkind : ∀ c ∈ publication.name, c ∈ topicAcceptedCharacters := by
      cases publication <;> decide
    have hseparators : '/' ∈ topicAcceptedCharacters ∧
        '^' ∈ topicAcceptedCharacters := by decide
    simp only [clientTopic, ApplicationId.str, List.mem_append, List.mem_cons]
    rintro c (hc | rfl | ((hc | rfl | hc) | rfl | hc) | rfl | hc | rfl | hc)
    · exact hheader c hc
    · exact hseparators.1
    · exact topic_of_isVersionChar (hname c hc)
    · exact hseparators.2
    · exact topic_of_isVersionChar (hversion c hc)
    · exact hseparators.2
    · exact topic_of_isVersionChar (hblock c hc)
    · exact hseparators.1
    · exact hkind c hc
    · exact hseparators.1
    · exact topic_of_isClientChar (hcid c hc)
  · simp only [handleIncomingMessage,
      tokenize_clientTopic_of_not_mem _ hslash hclient]
    change (getApplicationId appId.str >>= _) = _
    rw [hid]
    rfl
  · simp only [handleIncomingMessage,
      tokenize_clientTopic_of_not_mem _ hslash hclient]
    change (getApplicationId appId.str >>= _) = _
    rw [hid]
    rfl
  · simp only [handleIncomingMessage,
      tokenize_clientTopic_of_not_mem _ hslash hclient]
    change (getApplicationId appId.str >>= _) = _
    rw [hid]
    exact handleObservation_message appId cid hsec hns hvalues

/-- A welcome is dispatched by the second token of its topic. -/
theorem handleIncomingMessage_welcome (identifier info : Text) {cid : ClientId}
    (hcid : '/' ∉ cid) :
    ∃ second ∈ tokenize (clientTopic identifier .welcome cid) "/".toList,
      handleIncomingMessage ⟨clientTopic identifier .welcome cid, info⟩ =
        (getApplicationId second >>= fun appId =>
          .ok (.welcome appId cid info)) := by
  have htokens := tokenize_clientTopic identifier .welcome hcid
  obtain ⟨first, rest, hfirst⟩ := List.exists_cons_of_ne_nil
    (List.splitOn_ne_nil '/' identifier)
  change _ = _ :: (tokenize _ ['/'] ++ _) at htokens
  rw [tokenize_singleton, hfirst] at htokens
  have hmem : first ∈ messageHeader ::
      (first :: rest ++ [Publication.welcome.name, cid]) :=
    List.mem_cons_of_mem _ List.mem_cons_self
  refine ⟨first, htokens ▸ hmem, ?_⟩
  simp only [handleIncomingMessage, htokens, List.reverse_cons,
    List.reverse_append, List.cons_append, List.nil_append, List.reverse_nil]
  rfl

/-- A version that is read from an accepted topic holds accepted characters
that separate nothing. -/
theorem isVersionChar_of_delivers {identifier : Text} {appId : ApplicationId}
    (hdelivers : Delivers identifier appId []) {c : Char}
    (hc : c ∈ appId.version) : isVersionChar c = true := by
  have hpasses := findFirstNotOf_eq_none.mp (hdelivers.passes .welcome)
  have hpart : appId.version ∈ appId.path :=
    List.mem_cons_of_mem _ List.mem_cons_self
  obtain ⟨second, hsecond, hhandled⟩ :=
    handleIncomingMessage_welcome identifier [] (List.not_mem_nil)
  rw [hdelivers.welcome] at hhandled
  obtain ⟨found, hfound, hsame⟩ := bind_eq_ok.mp hhandled.symm
  obtain ⟨rfl, -, -⟩ := Handled.welcome.inj (Except.ok.inj hsame)
  have hversion :=
    mem_of_mem_tokenize (mem_of_getApplicationId hfound hpart) hc
  have htopic := mem_of_mem_tokenize hsecond hversion.1
  exact isVersionChar_of_topic (hpasses c htopic.1) htopic.2 hversion.2

end Delivery

namespace Deployed

/-- The identifier of a block. -/
def appId (b : AgoraBlock) : ApplicationId :=
  ⟨b.app.name, b.app.version, b.block.name⟩

/-- What the generated code carries of the identifier, if its literal is
well formed. -/
def identifier (b : AgoraBlock) : Option Text :=
  CppLiteral.decode (appId b).str

/-- Every client of the block reaches the handler of the block. -/
def Routed (b : AgoraBlock) : Prop :=
  ∃ carried, identifier b = some carried ∧
    ∀ cid : ClientId, (∀ c ∈ cid, isClientChar c = true) →
      Delivers carried (appId b) cid

theorem version_of_routed {b : AgoraBlock} (hrouted : Routed b) :
    ∀ c ∈ b.app.version, isVersionChar c = true := by
  obtain ⟨carried, -, hdelivers⟩ := hrouted
  intro c hc
  exact isVersionChar_of_delivers (hdelivers [] (by simp)) hc

theorem isVersionChar_of_name {name : Text}
    (hvalid : isValidIdentifier name = true) :
    ∀ c ∈ name, isVersionChar c = true := fun _ hc =>
  isVersionChar_of_isClientChar (isClientChar_of_identifier hvalid hc)

theorem routed_of_version {b : AgoraBlock}
    (hversion : ∀ c ∈ b.app.version, isVersionChar c = true) : Routed b := by
  have hname := isVersionChar_of_name b.validName
  have hblock := isVersionChar_of_name b.valid.name
  refine ⟨(appId b).str, CppLiteral.decode_plain ?_, fun cid hcid =>
    delivers_str hname hversion hblock hcid⟩
  have hcaret : ('^' : Char) ≠ '\\' ∧ '^' ≠ '"' ∧ '^' ≠ '\n' := by decide
  simp only [ApplicationId.str, List.mem_append, List.mem_cons]
  rintro c ((hc | rfl | hc) | rfl | hc)
  · exact (ne_of_isVersionChar (hname c hc)).2.2
  · exact hcaret
  · exact (ne_of_isVersionChar (hversion c hc)).2.2
  · exact hcaret
  · exact (ne_of_isVersionChar (hblock c hc)).2.2

/-- Identifiers without a caret in their parts differ as texts too. -/
theorem str_injective {a b : AgoraBlock}
    (ha : ∀ c ∈ a.app.version, isVersionChar c = true)
    (hb : ∀ c ∈ b.app.version, isVersionChar c = true)
    (hsame : (appId a).str = (appId b).str) : appId a = appId b := by
  have hfree : ∀ {text : Text}, (∀ c ∈ text, isVersionChar c = true) →
      '^' ∉ text :=
    fun htext hmem => (ne_of_isVersionChar (htext _ hmem)).2.1 rfl
  have hread : ∀ d : AgoraBlock,
      (∀ c ∈ d.app.version, isVersionChar c = true) →
        getApplicationId (appId d).str = .ok (appId d) := fun d hd =>
    getApplicationId_str (hfree (isVersionChar_of_name d.validName)) (hfree hd)
      (hfree (isVersionChar_of_name d.valid.name))
  have hrear := hread a ha
  rw [hsame, hread b hb] at hrear
  exact (Except.ok.inj hrear).symm

/-- The topics of a block reach its handler exactly when the version is made of
letters, digits, underscores and dots; and handlers of different blocks that
are reached so are different. -/
theorem routed_iff (b : AgoraBlock) :
    (Routed b ↔ ∀ c ∈ b.app.version, isVersionChar c = true) ∧
    ∀ other : AgoraBlock, Routed b → Routed other → appId b ≠ appId other →
      (appId b).str ≠ (appId other).str := by
  refine ⟨⟨version_of_routed, routed_of_version⟩, ?_⟩
  intro other hb hother hne hsame
  exact hne (str_injective (version_of_routed hb) (version_of_routed hother)
    hsame)

/-- A version with a dash, which heel accepts and the filter of the topics does
not. -/
theorem not_routed_dash : ¬ ∀ b : AgoraBlock, Routed b := by
  intro hall
  have hdash := version_of_routed
    (hall (Heel.Sample.agoraBlock "1.0-beta".toList (by decide))) '-' (by decide)
  exact absurd hdash (by decide)

end Deployed

end Margot.Agora
