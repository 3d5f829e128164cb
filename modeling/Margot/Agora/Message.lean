/-
The messages of the virtual channel: what is let in, and what a worker does
with it.  The text of an exception of the standard library is left out.
-/
import Margot.Agora.Handler

namespace Margot.Agora

structure MessageModel where
  topic : Text
  payload : Text
deriving Repr, DecidableEq

def messageHeader : Text := "margot".toList

/-- `boost::split` at each of the separators, which keeps the empty tokens. -/
def tokenize (message separator : Text) : List Text :=
  message.splitOnP fun c => separator.contains c

def topicAcceptedCharacters : Text :=
  "abcdefghijklmnopqrstuvwxyzABCDEFGHIJKLMNOPQRSTUVWXYZ0123456789_/^.".toList

def payloadAcceptedCharacters : Text :=
  ("abcdefghijklmnopqrstuvwxyzABCDEFGHIJKLMNOPQRSTUVWXYZ0123456789_ " ++
    "-.:,@<>=;()[]\x7b\x7d^*+'\"").toList

/-- A message with a character that is not accepted becomes an error. -/
def whitelist (incoming : MessageModel) : MessageModel :=
  let reported (found : Option Char) (suffix : String) : Text :=
    match found with
    | some c => "-> ".toList ++ c :: suffix.toList
    | none => []
  let topicInvalid := findFirstNotOf topicAcceptedCharacters incoming.topic
  let payloadInvalid :=
    findFirstNotOf payloadAcceptedCharacters incoming.payload
  if topicInvalid.isSome || payloadInvalid.isSome then
    ⟨messageHeader ++ "/error/".toList,
      "Input sanitizer: found non valid characters. ".toList ++
        reported topicInvalid " <- in the topic of the message." ++
        reported payloadInvalid " <- in the payload of the message."⟩
  else incoming

inductive MessageType where
  | invalidMessage
  | system
  | welcome
  | kia
  | observation
  | error
deriving Repr, DecidableEq

def resolveMessageType (input : Text) : MessageType :=
  if input = "system".toList then .system
  else if input = "welcome".toList then .welcome
  else if input = "kia".toList then .kia
  else if input = "observation".toList then .observation
  else if input = "error".toList then .error
  else .invalidMessage

/-- An exception that leaves the handling of a message. -/
inductive Escaped where
  | outOfRange
  | invalidArgument
deriving Repr, DecidableEq

/-- What a worker is asked to do by a message. -/
inductive Handled where
  | ignored
  | shutdown
  | testConnection (cid : ClientId) (message : Text)
  | welcome (appId : ApplicationId) (cid : ClientId) (info : Text)
  | kia (appId : ApplicationId) (cid : ClientId) (reason : Text)
  | observation (appId : ApplicationId) (cid : ClientId)
      (timestampSec timestampNs : Int) (values : Text)
deriving Repr, DecidableEq

/-- `std::stol` -/
def stol (text : Text) : Except Escaped Int :=
  match leadingInteger text with
  | none => .error .invalidArgument
  | some value =>
      if -2 ^ 63 ≤ value ∧ value < 2 ^ 63 then .ok value
      else .error .outOfRange

/-- `Worker::get_application_id`: what comes after a third separator is
dropped. -/
def getApplicationId (topic : Text) : Except Escaped ApplicationId :=
  match tokenize topic "^".toList with
  | appName :: version :: blockName :: _ => .ok ⟨appName, version, blockName⟩
  | _ => .error .outOfRange

def handleSystemMessage (cid : ClientId) (command : Text) : Handled :=
  match tokenize command "@".toList with
  | [] => .ignored
  | commandType :: rest =>
      if commandType = "shutdown".toList then .shutdown
      else if commandType = "test".toList then
        match rest with
        | [message] => .testConnection cid message
        | _ => .testConnection cid []
      else .ignored

def handleObservation (appId : ApplicationId) (cid : ClientId)
    (payload : Text) : Except Escaped Handled :=
  match tokenize payload "@".toList with
  | [sec, ns, values] => do
      let timestampSec ← stol sec
      let timestampNs ← stol ns
      return .observation appId cid timestampSec timestampNs values
  | _ => .ok .ignored

/-- `Worker::handle_incoming_message`: the last two tokens of the topic are the
type of the message and the client, the second one is the application. -/
def handleIncomingMessage (message : MessageModel) : Except Escaped Handled :=
  let tokens := tokenize message.topic "/".toList
  match tokens.reverse with
  | cid :: messageType :: _ =>
      match resolveMessageType messageType with
      | .system => .ok (handleSystemMessage cid message.payload)
      | .welcome => do
          let appId ← getApplicationId (tokens.getD 1 [])
          return .welcome appId cid message.payload
      | .kia => do
          let appId ← getApplicationId (tokens.getD 1 [])
          return .kia appId cid message.payload
      | .observation => do
          let appId ← getApplicationId (tokens.getD 1 [])
          handleObservation appId cid message.payload
      | .error => .ok .ignored
      | .invalidMessage => .ok .ignored
  | _ => .ok .ignored

/-- The string form of an identifier, under which the application manager keeps
the handler. -/
def ApplicationId.str (appId : ApplicationId) : Text :=
  appId.appName ++ '^' :: appId.version ++ '^' :: appId.blockName

/-- The path form of an identifier. -/
def ApplicationId.path (appId : ApplicationId) : List Text :=
  [appId.appName, appId.version, appId.blockName]

/-- The application whose handler is called. -/
def Handled.appId : Handled → Option ApplicationId
  | .welcome appId _ _ => some appId
  | .kia appId _ _ => some appId
  | .observation appId _ _ _ _ => some appId
  | _ => none

section Splitting

theorem tokenize_singleton (message : Text) (separator : Char) :
    tokenize message [separator] = message.splitOn separator := by
  rw [tokenize, List.splitOn_eq_splitOnP]
  congr
  funext c
  rw [List.contains_cons, List.contains_nil, Bool.or_false]

/-- Tokens that are joined are found again. -/
theorem tokenize_intercalate {separator : Char} {tokens : List Text}
    (hfree : ∀ token ∈ tokens, separator ∉ token) (hsome : tokens ≠ []) :
    tokenize ([separator].intercalate tokens) [separator] = tokens := by
  rw [tokenize_singleton]
  exact List.splitOn_intercalate separator hfree hsome

/-- The characters of a token come from the message, and none is the
separator. -/
theorem mem_of_mem_tokenize {message : Text} {separator : Char} {token : Text}
    (htoken : token ∈ tokenize message [separator]) {c : Char}
    (hc : c ∈ token) : c ∈ message ∧ c ≠ separator := by
  rw [tokenize_singleton] at htoken
  exact mem_of_mem_splitOn htoken hc

/-- The parts of an identifier are tokens of what it is read from. -/
theorem mem_of_getApplicationId {topic : Text} {appId : ApplicationId}
    (hid : getApplicationId topic = .ok appId) {part : Text}
    (hpart : part ∈ appId.path) : part ∈ tokenize topic "^".toList := by
  rw [getApplicationId] at hid
  split at hid
  · next appName version blockName rest htokens =>
      obtain rfl := Except.ok.inj hid
      rw [htokens]
      have hparts : [appName, version, blockName] <+:
          appName :: version :: blockName :: rest := ⟨rest, rfl⟩
      exact hparts.subset hpart
  · contradiction

end Splitting

section Filter

theorem whitelist_eq_self {message : MessageModel}
    (htopic : ∀ c ∈ message.topic, c ∈ topicAcceptedCharacters)
    (hpayload : ∀ c ∈ message.payload, c ∈ payloadAcceptedCharacters) :
    whitelist message = message := by
  rw [whitelist, findFirstNotOf_eq_none.mpr htopic,
    findFirstNotOf_eq_none.mpr hpayload]
  rfl

end Filter

end Margot.Agora
