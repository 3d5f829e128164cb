/-
What a worker can be made to do by the messages that are let in.  An exception
that leaves the handling of a message leaves the task of the worker.
-/
import Margot.Agora.Message

namespace Margot.Agora

/-- The levels of a topic against those of a filter of the broker: `+` stands
for one level, `#` for all that follow. -/
def topicMatches : List Text → List Text → Bool
  | [], [] => true
  | ['#'] :: _, _ => true
  | ['+'] :: filter, _ :: levels => topicMatches filter levels
  | level :: filter, first :: levels =>
      level == first && topicMatches filter levels
  | _, _ => false

/-- The filters that the server subscribes to. -/
def subscriptions : List Text :=
  [messageHeader ++ "/+/welcome/#".toList,
    messageHeader ++ "/+/observation/#".toList,
    messageHeader ++ "/+/kia/#".toList,
    messageHeader ++ "/system/#".toList]

/-- Some subscription of the server covers the topic. -/
def Subscribed (topic : Text) : Prop :=
  ∃ filter ∈ subscriptions,
    topicMatches (tokenize filter "/".toList) (tokenize topic "/".toList) = true

instance : DecidablePred Subscribed := fun topic =>
  inferInstanceAs (Decidable (∃ filter ∈ subscriptions,
    topicMatches (tokenize filter "/".toList) (tokenize topic "/".toList) =
      true))

/-- The handling of the message ends without an exception. -/
def Survives (message : MessageModel) : Prop :=
  ∃ handled, handleIncomingMessage message = .ok handled

/-- The text begins with a numeral whose value fits a `long`. -/
def BeginsWithLong (text : Text) : Prop :=
  ∃ n : LeadingNumeral text, -2 ^ 63 ≤ n.value ∧ n.value < 2 ^ 63

/-- The token holds two separators of the parts of an identifier. -/
def NamesApplication (token : Text) : Prop := 2 ≤ token.count '^'

/-- A payload of three tokens starts with two numbers. -/
def Timestamped (payload : Text) : Prop :=
  ∀ sec ns values, tokenize payload "@".toList = [sec, ns, values] →
    BeginsWithLong sec ∧ BeginsWithLong ns

/-- What the handling of a message of each type relies on. -/
def WellFormed (message : MessageModel) : MessageType → Prop
  | .welcome | .kia =>
      NamesApplication ((tokenize message.topic "/".toList).getD 1 [])
  | .observation =>
      NamesApplication ((tokenize message.topic "/".toList).getD 1 []) ∧
        Timestamped message.payload
  | _ => True

section Survival

theorem length_tokenize (message : Text) (separator : Char) :
    (tokenize message [separator]).length = message.count separator + 1 := by
  rw [tokenize_singleton]
  induction message with
  | nil => rfl
  | cons first rest ih =>
      rw [List.splitOn_cons_eq_if_modifyHead]
      split
      · next hfirst => simp_all
      · next hfirst =>
          rw [List.length_modifyHead, ih, List.count_cons_of_ne]
          simpa using hfirst

theorem exists_getApplicationId_iff (token : Text) :
    (∃ appId, getApplicationId token = .ok appId) ↔ NamesApplication token := by
  have hlength : (tokenize token "^".toList).length = token.count '^' + 1 :=
    length_tokenize token '^'
  rw [NamesApplication, getApplicationId]
  split
  · next appName version blockName rest htokens =>
      rw [htokens] at hlength
      simp only [List.length_cons] at hlength
      exact iff_of_true ⟨_, rfl⟩ (by omega)
  · next hfew =>
      refine iff_of_false (by simp) fun hcount => ?_
      rcases htokens : tokenize token "^".toList with
        _ | ⟨first, _ | ⟨second, _ | ⟨third, rest⟩⟩⟩
      · rw [htokens] at hlength
        contradiction
      · simp only [htokens, List.length_cons, List.length_nil] at hlength
        omega
      · simp only [htokens, List.length_cons, List.length_nil] at hlength
        omega
      · exact hfew _ _ _ _ htokens

theorem exists_stol_iff (text : Text) :
    (∃ value, stol text = .ok value) ↔ BeginsWithLong text := by
  rw [stol]
  constructor
  · rintro ⟨value, hvalue⟩
    split at hvalue
    · contradiction
    · next read hread =>
        obtain ⟨n, rfl⟩ := exists_numeral_of_leadingInteger hread
        split at hvalue
        · next hfits => exact ⟨n, hfits⟩
        · contradiction
  · rintro ⟨n, hfits⟩
    rw [leadingInteger_of_numeral n]
    exact ⟨n.value, if_pos hfits⟩

/-- A sequence of two computations succeeds when both do. -/
theorem exists_bind_ok {A B : Type} {first : Except Escaped A}
    (second : A → Except Escaped B) {P Q : Prop}
    (hfirst : (∃ value, first = .ok value) ↔ P)
    (hsecond : ∀ value, (∃ result, second value = .ok result) ↔ Q) :
    (∃ result, first >>= second = .ok result) ↔ P ∧ Q := by
  rw [← hfirst]
  cases first with
  | error e => simp [bind, Except.bind]
  | ok value => simp [bind, Except.bind, hsecond]

theorem exists_handleObservation_iff {appId : ApplicationId} {cid : ClientId}
    {payload : Text} :
    (∃ handled, handleObservation appId cid payload = .ok handled) ↔
      Timestamped payload := by
  rw [handleObservation, Timestamped]
  split
  · next sec ns values htokens =>
      have hboth := exists_bind_ok _ (exists_stol_iff sec) fun timestampSec =>
        exists_bind_ok (fun timestampNs => pure (Handled.observation appId cid
          timestampSec timestampNs values)) (exists_stol_iff ns)
          fun _ => iff_true_intro ⟨_, rfl⟩
      rw [and_true] at hboth
      refine hboth.trans ⟨?_, fun hall => hall sec ns values htokens⟩
      rintro hnumbers sec' ns' values' htokens'
      obtain ⟨rfl, rfl, -⟩ := by simpa using htokens.symm.trans htokens'
      exact hnumbers
  · next hother =>
      refine iff_of_true ⟨_, rfl⟩ fun sec ns values htokens => ?_
      exact absurd htokens (hother sec ns values)

/-- The handling of a message survives exactly when the message is well formed
for its type. -/
theorem survives_iff_of_tokens {message : MessageModel} {cid messageType : Text}
    {earlier : List Text}
    (htokens : (tokenize message.topic "/".toList).reverse =
      cid :: messageType :: earlier) :
    Survives message ↔ WellFormed message (resolveMessageType messageType) := by
  have hnamed : ∀ (token : Text) (info : ApplicationId → Handled),
      (∃ handled, (do
        let appId ← getApplicationId token
        return info appId : Except Escaped Handled) = .ok handled) ↔
          NamesApplication token := by
    intro token info
    have hid := exists_bind_ok (fun appId => pure (info appId))
      (exists_getApplicationId_iff token) fun _ => iff_true_intro ⟨_, rfl⟩
    rwa [and_true] at hid
  rw [Survives, handleIncomingMessage]
  simp only [htokens]
  cases resolveMessageType messageType with
  | system | error | invalidMessage => exact iff_of_true ⟨_, rfl⟩ trivial
  | welcome => exact hnamed _ _
  | kia => exact hnamed _ _
  | observation =>
      exact exists_bind_ok _ (exists_getApplicationId_iff _)
        fun _ => exists_handleObservation_iff

/-- Whatever is let in is handled exactly when it is well formed for its type,
which the last token but one of its topic tells. -/
theorem survives_iff (message : MessageModel) :
    Survives (whitelist message) ↔
      ∀ cid messageType earlier,
        (tokenize (whitelist message).topic "/".toList).reverse =
            cid :: messageType :: earlier →
          WellFormed (whitelist message) (resolveMessageType messageType) := by
  generalize whitelist message = accepted
  constructor
  · intro hsurvives cid messageType earlier htokens
    exact (survives_iff_of_tokens htokens).mp hsurvives
  · intro hall
    match htokens : (tokenize accepted.topic "/".toList).reverse with
    | cid :: messageType :: earlier =>
        exact (survives_iff_of_tokens htokens).mpr (hall _ _ _ htokens)
    | [] | [_] =>
        rw [Survives, handleIncomingMessage]
        simp only [htokens]
        exact ⟨_, rfl⟩

end Survival

section Escape

/-- A welcome of an application whose identifier has no separator. -/
def unnamed : MessageModel :=
  ⟨"margot/app/welcome/client".toList, []⟩

theorem not_survives_unnamed :
    ¬ ∀ message : MessageModel, Subscribed message.topic →
      Survives (whitelist message) := by
  intro hall
  have hescaped : handleIncomingMessage (whitelist unnamed) =
      .error .outOfRange := by decide
  obtain ⟨handled, hok⟩ := hall unnamed (by decide)
  rw [hescaped] at hok
  contradiction

end Escape

end Margot.Agora
