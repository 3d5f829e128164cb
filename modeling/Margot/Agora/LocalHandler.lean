/-
The support thread of a client: what it listens to, and what it does with a
message of the server.
-/
import Margot.Heel.OperatingPointParser
import Margot.Agora.Reception
import Margot.Agora.Topics
import Margot.Agora.Activity

namespace Margot.Agora

open Heel

/-- What the thread subscribes to: whatever is meant for the client, the
predictions for all clients of its application, and the welcome of a server. -/
def clientSubscriptions (identifier : Text) (cid : ClientId) : List Text :=
  [messageHeader ++ '/' :: (identifier ++ '/' :: (cid ++ "/#".toList)),
    messageHeader ++ '/' :: (identifier ++ "/prediction".toList),
    messageHeader ++ "/welcome".toList]

/-- Some subscription of the client covers the topic. -/
def Hears (identifier : Text) (cid : ClientId) (topic : Text) : Prop :=
  ∃ filter ∈ clientSubscriptions identifier cid,
    topicMatches (tokenize filter "/".toList) (tokenize topic "/".toList) = true

instance (identifier : Text) (cid : ClientId) :
    DecidablePred (Hears identifier cid) := fun topic =>
  inferInstanceAs (Decidable (∃ filter ∈ clientSubscriptions identifier cid,
    topicMatches (tokenize filter "/".toList) (tokenize topic "/".toList) =
      true))

/-- What comes after the last slash, and the slash itself; `substr` throws where
there is none. -/
def messageType (topic : Text) : Option Text :=
  if '/' ∈ topic then some ('/' :: topic.rtakeWhile (· ≠ '/')) else none

/-- What the thread does with a message. -/
inductive Reaction (Value : Type) where
  /-- The first of the Operating Points becomes the only one. -/
  | setSinglePoint (ops : List (ClusteredPoint Value))
  | setModel (ops : List (ClusteredPoint Value))
  | sendMessage (message : MessageModel)
  | warning
deriving Repr, DecidableEq

section Handler

variable (T : Translator) (block : BlockModel)

/-- One turn of `local_application_handler`, `none` where it throws or where an
assertion fails. -/
def localApplicationHandler (identifier : Text) (cid : ClientId)
    (applicationDescription : Text) (incoming : MessageModel) :
    Option (Reaction T.Value) := do
  let type ← messageType incoming.topic
  if type = "/explore".toList then
    let ops ← operatingPointParser T block incoming.payload
    if ops.isEmpty then none else return .setSinglePoint ops
  else if type = "/prediction".toList then
    let ops ← operatingPointParser T block incoming.payload
    return .setModel ops
  else if type = "/welcome".toList then
    return .sendMessage
      ⟨clientTopic identifier .welcome cid, applicationDescription⟩
  else return .warning

end Handler

/-- What ends the topic of a message of the server. -/
def Message.name : Message → Text
  | .explore _ _ => "explore".toList
  | .prediction _ => "prediction".toList
  | .broadcast => "prediction".toList
  | .abort _ => "abort".toList

/-- The topic of a message of the server. -/
def Message.topic (appId : ApplicationId) (message : Message) : Text :=
  messageHeader ++ '/' :: (appId.str ++ '/' ::
    match message.recipient with
    | none => message.name
    | some cid => cid ++ '/' :: message.name)

/-- The levels of the topic of a message. -/
def Message.levels (appId : ApplicationId) (message : Message) : List Text :=
  messageHeader :: appId.str :: (message.recipient.toList ++ [message.name])

/-- The name of a client, other than the names of the topics of the clients. -/
structure IsClient (cid : ClientId) : Prop where
  chars : ∀ c ∈ cid, isClientChar c = true
  free : ∀ publication : Publication, cid ≠ publication.name

section Topics

variable {identifier : Text} {cid : ClientId} {levels : List Text}

theorem slash_not_mem_client (hcid : IsClient cid) : '/' ∉ cid := by
  intro hmem
  exact absurd (hcid.chars _ hmem) (by decide)

/-- A level that stands for itself. -/
theorem topicMatches_cons {level first : Text} {filter : List Text}
    (hmany : level ≠ ['#']) (hone : level ≠ ['+']) :
    topicMatches (level :: filter) (first :: levels) =
      (level == first && topicMatches filter levels) := by
  rw [topicMatches]
  · exact fun hlevel => hmany hlevel
  · exact fun hlevel => hone hlevel

theorem messageName_mem (message : Message) :
    message.name ∈
      ["explore".toList, "prediction".toList, "abort".toList] := by
  cases message with
  | explore cid configuration => exact List.mem_cons_self
  | prediction cid => exact List.mem_cons_of_mem _ List.mem_cons_self
  | broadcast => exact List.mem_cons_of_mem _ List.mem_cons_self
  | abort cid =>
      exact List.mem_cons_of_mem _ (List.mem_cons_of_mem _ List.mem_cons_self)

theorem slash_not_mem_messageName (message : Message) :
    '/' ∉ message.name := by
  have hnames : ∀ name ∈
      ["explore".toList, "prediction".toList, "abort".toList],
      '/' ∉ name := by decide
  exact hnames _ (messageName_mem message)

theorem topic_eq_intercalate (appId : ApplicationId) (message : Message) :
    message.topic appId = ['/'].intercalate (message.levels appId) := by
  cases message <;>
    simp [Message.topic, Message.levels, Message.recipient, List.intercalate]

theorem tokenize_topic {appId : ApplicationId} {message : Message}
    (hid : '/' ∉ appId.str)
    (hclient : ∀ cid, message.recipient = some cid → '/' ∉ cid) :
    tokenize (message.topic appId) "/".toList = message.levels appId := by
  have hsome : message.levels appId ≠ [] := by simp [Message.levels]
  change tokenize _ ['/'] = _
  rw [topic_eq_intercalate]
  refine tokenize_intercalate ?_ hsome
  have hheader : '/' ∉ messageHeader := by decide
  have hname := slash_not_mem_messageName message
  simp only [Message.levels, List.mem_cons, List.mem_append,
    Option.mem_toList, List.not_mem_nil, or_false]
  rintro token (rfl | rfl | hrecipient | rfl)
  · exact hheader
  · exact hid
  · exact hclient token hrecipient
  · exact hname

/-- What the client listens to, by the levels of the topics. -/
theorem hears_iff {topic : Text} (hid : '/' ∉ identifier) (hcid : '/' ∉ cid)
    (hlevels : tokenize topic "/".toList = levels) :
    Hears identifier cid topic ↔
      topicMatches [messageHeader, identifier, cid, "#".toList] levels = true ∨
      topicMatches [messageHeader, identifier, "prediction".toList] levels =
        true ∨
      topicMatches [messageHeader, "welcome".toList] levels = true := by
  have hheader : '/' ∉ messageHeader := by decide
  have hmine : tokenize (messageHeader ++ '/' :: (identifier ++ '/' ::
      (cid ++ "/#".toList))) ['/'] =
        [messageHeader, identifier, cid, "#".toList] := by
    rw [tokenize_singleton, List.splitOn_append_cons_self_of_not_mem hheader,
      List.splitOn_append_cons_self_of_not_mem hid]
    change _ :: _ :: List.splitOn '/' (cid ++ '/' :: ['#']) = _
    rw [List.splitOn_append_cons_self_of_not_mem hcid]
    rfl
  have hall : tokenize (messageHeader ++ '/' :: (identifier ++
      "/prediction".toList)) ['/'] =
        [messageHeader, identifier, "prediction".toList] := by
    rw [tokenize_singleton, List.splitOn_append_cons_self_of_not_mem hheader]
    change _ :: List.splitOn '/' (identifier ++ '/' :: "prediction".toList) = _
    rw [List.splitOn_append_cons_self_of_not_mem hid]
    rfl
  have hserver : tokenize (messageHeader ++ "/welcome".toList) ['/'] =
      [messageHeader, "welcome".toList] := by decide
  change (∃ filter ∈ clientSubscriptions identifier cid,
    topicMatches (tokenize filter ['/']) (tokenize topic "/".toList) = true) ↔ _
  rw [hlevels]
  simp only [clientSubscriptions, List.mem_cons, List.not_mem_nil, or_false,
    exists_eq_or_imp, exists_eq_left, hmine, hall, hserver]

/-- The identifier of an application is no sign of the broker. -/
theorem str_ne_sign (appId : ApplicationId) (sign : Char) (hsign : sign ≠ '^') :
    appId.str ≠ [sign] := by
  intro hsame
  have hcaret : '^' ∈ appId.str := by simp [ApplicationId.str]
  rw [hsame] at hcaret
  exact hsign (List.mem_singleton.mp hcaret).symm

theorem client_ne_sign (hcid : IsClient cid) {sign : Char}
    (hsign : isClientChar sign = false) : cid ≠ [sign] := by
  rintro rfl
  have hchar := hcid.chars sign (List.mem_singleton_self _)
  rw [hsign] at hchar
  contradiction

theorem eq_broadcast {message : Message} (hnone : message.recipient = none) :
    message = .broadcast := by
  cases message with
  | broadcast => rfl
  | _ => contradiction

/-- A message is heard by the client that it is for, or by all clients of the
application. -/
theorem hears_topic_iff {appId : ApplicationId} {message : Message}
    (hid : '/' ∉ appId.str) (hcid : IsClient cid)
    (hclient : ∀ cid, message.recipient = some cid → IsClient cid) :
    Hears appId.str cid (message.topic appId) ↔
      ∀ other, message.recipient = some other → other = cid := by
  have hlevels := tokenize_topic hid fun other hother =>
    slash_not_mem_client (hclient other hother)
  rw [hears_iff hid (slash_not_mem_client hcid) hlevels, Message.levels]
  have hheader : messageHeader ≠ ['#'] ∧ messageHeader ≠ ['+'] := by decide
  have hprediction : "prediction".toList ≠ ['#'] ∧
      "prediction".toList ≠ ['+'] := by decide
  have hmany := str_ne_sign appId '#' (by decide)
  have hone := str_ne_sign appId '+' (by decide)
  rw [topicMatches_cons hheader.1 hheader.2,
    topicMatches_cons hheader.1 hheader.2,
    topicMatches_cons hheader.1 hheader.2, topicMatches_cons hmany hone,
    topicMatches_cons hmany hone]
  simp only [beq_self_eq_true, Bool.true_and]
  cases hrecipient : message.recipient with
  | none =>
      obtain rfl := eq_broadcast hrecipient
      have hall : topicMatches ["prediction".toList]
          [Message.broadcast.name] = true := by decide
      exact iff_of_true (.inr (.inl hall)) nofun
  | some other =>
      have hwelcome : "welcome".toList ≠ ['#'] ∧
          "welcome".toList ≠ ['+'] := by decide
      have hrest : topicMatches ["#".toList] [message.name] = true := rfl
      have hshort (first : Text) (rest : List Text) :
          topicMatches [] (first :: rest) = false := rfl
      have hsigns : cid ≠ ['#'] ∧ cid ≠ ['+'] :=
        ⟨client_ne_sign hcid rfl, client_ne_sign hcid rfl⟩
      simp only [Option.toList_some, List.cons_append, List.nil_append,
        topicMatches_cons hsigns.1 hsigns.2,
        topicMatches_cons hprediction.1 hprediction.2,
        topicMatches_cons hwelcome.1 hwelcome.2, hrest, hshort, Bool.and_true,
        Bool.and_false, Bool.false_eq_true, or_false, beq_iff_eq,
        Option.some.injEq, forall_eq']
      exact eq_comm

/-- The server does not listen to its own messages. -/
theorem not_subscribed_topic {appId : ApplicationId} {message : Message}
    (hid : '/' ∉ appId.str)
    (hclient : ∀ cid, message.recipient = some cid → IsClient cid) :
    ¬ Subscribed (message.topic appId) := by
  have hlevels := tokenize_topic hid fun other hother =>
    slash_not_mem_client (hclient other hother)
  have hheader : messageHeader ≠ ['#'] ∧ messageHeader ≠ ['+'] := by decide
  have hpublications : ∀ publication : Publication,
      topicMatches (tokenize (messageHeader ++ ("/+/".toList ++
        (publication.name ++ "/#".toList))) "/".toList)
        (message.levels appId) = false := by
    intro publication
    have hfilter : tokenize (messageHeader ++ ("/+/".toList ++
        (publication.name ++ "/#".toList))) "/".toList =
          [messageHeader, ['+'], publication.name, ['#']] := by
      cases publication <;> decide
    have hsigns : publication.name ≠ ['#'] ∧ publication.name ≠ ['+'] := by
      cases publication <;> decide
    have hskip (filter levels : List Text) (level : Text) :
        topicMatches (['+'] :: filter) (level :: levels) =
          topicMatches filter levels := rfl
    rw [hfilter, Message.levels, topicMatches_cons hheader.1 hheader.2, hskip]
    cases hrecipient : message.recipient with
    | none =>
        obtain rfl := eq_broadcast hrecipient
        cases publication <;> decide
    | some other =>
        have hother : (publication.name == other) = false :=
          beq_eq_false_iff_ne.mpr ((hclient other hrecipient).free _).symm
        rw [Option.toList_some, List.cons_append,
          topicMatches_cons hsigns.1 hsigns.2, hother, Bool.false_and,
          Bool.and_false]
  have hsystem : topicMatches (tokenize (messageHeader ++ "/system/#".toList)
      "/".toList) (message.levels appId) = false := by
    have hfilter : tokenize (messageHeader ++ "/system/#".toList) "/".toList =
        [messageHeader, "system".toList, ['#']] := by decide
    have hsigns : "system".toList ≠ ['#'] ∧ "system".toList ≠ ['+'] := by
      decide
    have hnamed : ("system".toList == appId.str) = false := by
      rw [beq_eq_false_iff_ne]
      intro hsame
      have hcaret : '^' ∈ appId.str := by simp [ApplicationId.str]
      rw [← hsame] at hcaret
      exact absurd hcaret (by decide)
    rw [hfilter, Message.levels, topicMatches_cons hheader.1 hheader.2,
      topicMatches_cons hsigns.1 hsigns.2, hnamed, Bool.false_and,
      Bool.and_false]
  rw [Subscribed, hlevels]
  simp only [subscriptions, List.mem_cons, List.not_mem_nil, or_false,
    exists_eq_or_imp, exists_eq_left, not_or, Bool.not_eq_true]
  exact ⟨hpublications .welcome, hpublications .observation,
    hpublications .kia, hsystem⟩

theorem messageType_topic (appId : ApplicationId) (message : Message) :
    messageType (message.topic appId) = some ('/' :: message.name) := by
  have hsplit : ∃ front, message.topic appId = front ++ '/' :: message.name := by
    rw [Message.topic]
    cases message.recipient with
    | none => exact ⟨messageHeader ++ '/' :: appId.str, by simp⟩
    | some cid =>
        exact ⟨messageHeader ++ '/' :: (appId.str ++ '/' :: cid), by simp⟩
  obtain ⟨front, hfront⟩ := hsplit
  have hname : ∀ c ∈ message.name.reverse, decide (c ≠ '/') = true := by
    intro c hc
    rw [decide_eq_true_eq]
    rintro rfl
    exact slash_not_mem_messageName message (List.mem_reverse.mp hc)
  rw [messageType, hfront, if_pos (by simp), List.rtakeWhile,
    List.reverse_append, List.reverse_cons, List.append_assoc,
    List.takeWhile_append_of_pos hname]
  simp

theorem accepted_topic {appId : ApplicationId} {message : Message}
    (hid : ∀ c ∈ appId.str, c ∈ topicAcceptedCharacters)
    (hclient : ∀ cid, message.recipient = some cid → IsClient cid) :
    ∀ c ∈ message.topic appId, c ∈ topicAcceptedCharacters := by
  have hheader : ∀ c ∈ messageHeader, c ∈ topicAcceptedCharacters := by decide
  have hslash : '/' ∈ topicAcceptedCharacters := by decide
  have hnames : ∀ name ∈
      ["explore".toList, "prediction".toList, "abort".toList],
      ∀ c ∈ name, c ∈ topicAcceptedCharacters := by decide
  have hname := hnames _ (messageName_mem message)
  rw [Message.topic]
  cases hrecipient : message.recipient with
  | none =>
      simp only [List.forall_mem_append, List.forall_mem_cons]
      exact ⟨hheader, hslash, hid, hslash, hname⟩
  | some other =>
      have hother : ∀ c ∈ other, c ∈ topicAcceptedCharacters := fun c hc =>
        topic_of_isClientChar ((hclient other hrecipient).chars c hc)
      simp only [List.forall_mem_append, List.forall_mem_cons]
      exact ⟨hheader, hslash, hid, hslash, hother, hslash, hname⟩

end Topics

end Margot.Agora
