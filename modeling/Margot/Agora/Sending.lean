/-
What the handler of a block sends, up to the support threads of its clients.
The workers may act in any order; every message reaches the clients that it is
for and nobody else, and they read in it what the handler has.
-/
import Margot.Agora.LocalHandler
import Margot.Agora.Schedule
import Margot.Agora.SortedDelivery
import Margot.Agora.Handshake

namespace Margot.Agora

open Heel

namespace Handler

variable [HashOrder Text]

/-- `send_configuration`, `send_prediction`, `broadcast_prediction` and
`send_abort_message`: what is given to the broker. -/
def post (h : Handler) (message : Message) : Option MessageModel :=
  (h.payload message).map fun payload => ⟨message.topic h.appId, payload⟩

end Handler

section Carried

variable (T : Translator) (b : AgoraBlock)

/-- A configuration that a client of the block can be asked to explore: it has a
value for every knob, and what is sent of it is let through and read. -/
structure Explorable (configuration : Configuration) : Prop where
  covers : ∀ knob ∈ b.block.knobs, knob.name ∈ configuration.keys
  settled : OverKnobs T b.block (knobsOf configuration)
  legible : Legible T b.block (unknownPrediction (knobsOf configuration))
  spoken : ∀ data ∈
    predictionTexts b.block (unknownPrediction (knobsOf configuration)),
    Spoken data

/-- Predictions that a client of the block can be told. -/
structure Announceable (prediction : PredictionModel) : Prop where
  complete : prediction.Complete b.block
  settled : ∀ predId ∈ prediction.predictedResults.keys,
    OverBlock T b.block (prediction.result predId)
  legible : ∀ predId ∈ prediction.predictedResults.keys,
    Legible T b.block (prediction.result predId)
  spoken : ∀ predId ∈ prediction.predictedResults.keys,
    ∀ data ∈ predictionTexts b.block (prediction.result predId), Spoken data

/-- What a storage holds for the block can be sent to its clients. -/
structure Stocked (storage : Storage) : Prop where
  doe : ∀ description, SameBlock description b.block →
    ∀ entry ∈ (storage.loadDoe description).requiredExplorations,
      Explorable T b entry.configuration
  prediction : ∀ description, SameBlock description b.block →
    Announceable T b (storage.loadPrediction description)

variable {T}

/-- What the client does with a message is what the handler means by it. -/
inductive Handler.Means [HashOrder Text] (h : Handler) :
    Message → Reaction T.Value → Prop where
  | explore {cid : ClientId} {configuration : Configuration}
      {point : ClusteredPoint T.Value}
      (hpoint : Represents T b.block
        (unknownPrediction (knobsOf configuration)) point) :
      Means h (.explore cid configuration) (.setSinglePoint [point])
  | prediction {cid : ClientId} {points : List (ClusteredPoint T.Value)}
      (hpoints : List.Forall₂ (Represents T b.block) h.prediction.results
        points) :
      Means h (.prediction cid) (.setModel points)
  | broadcast {points : List (ClusteredPoint T.Value)}
      (hpoints : List.Forall₂ (Represents T b.block) h.prediction.results
        points) :
      Means h .broadcast (.setModel points)
  | abort {cid : ClientId} : Means h (.abort cid) .warning

end Carried

section Reading

variable {T : Translator} {b : AgoraBlock} {description : BlockModel}
  (hcompiles : parserCompiles b.block = true)
  (hsame : SameFields description b.block)

include hcompiles hsame in
/-- What is sent of a configuration is let through, and read as one Operating
Point. -/
theorem Explorable.read {configuration : Configuration}
    (hexplorable : Explorable T b configuration) :
    ∃ payload point,
      configurationPayload description configuration = some payload ∧
      Accepted payload ∧
      operatingPointParser T b.block payload = some [point] ∧
      Represents T b.block (unknownPrediction (knobsOf configuration))
        point := by
  have hcovers : ∀ knob ∈ description.knobs, knob.name ∈ configuration.keys :=
    fun knob hknob => hexplorable.covers knob (hsame.knobs.mem_iff.mp hknob)
  obtain ⟨payload, hpayload, points, hread, hpoints⟩ :=
    (configuration_described_iff b hsame hexplorable.settled).mpr
      ⟨hcompiles, hexplorable.legible⟩
  obtain ⟨point, rest, hpoint, hrest, rfl⟩ :=
    List.forall₂_cons_left_iff.mp hpoints
  obtain rfl := List.forall₂_nil_left_iff.mp hrest
  refine ⟨payload, point, ?_, ?_, hread, hpoint⟩
  · rw [configurationPayload, if_pos hcovers, hpayload]
    rfl
  · exact accepted_configuration b hsame hexplorable.spoken hpayload

variable [HashOrder Text]

theorem mem_results {prediction : PredictionModel} {result : Prediction} :
    result ∈ prediction.results ↔
      ∃ predId ∈ prediction.predictedResults.keys,
        prediction.result predId = result := by
  simp [PredictionModel.results]

include hcompiles hsame in
/-- What is sent of the predictions is let through, and read as one Operating
Point for each of them. -/
theorem Announceable.read {prediction : PredictionModel}
    (hannounceable : Announceable T b prediction) :
    ∃ payload points,
      predictionPayload description prediction = some payload ∧
      Accepted payload ∧
      operatingPointParser T b.block payload = some points ∧
      List.Forall₂ (Represents T b.block) prediction.results points := by
  have hcomplete : prediction.Complete description := by
    intro predId hmem
    obtain ⟨hfeatures, hknobs, hmetrics⟩ := hannounceable.complete predId hmem
    exact ⟨fun field hfield =>
        hfeatures field (hsame.fields.mem_iff.mp hfield),
      fun knob hknob => hknobs knob (hsame.knobs.mem_iff.mp hknob),
      fun metric hmetric =>
        hmetrics metric (hsame.metrics.mem_iff.mp hmetric)⟩
  have hover : ∀ result ∈ prediction.results, OverBlock T b.block result := by
    intro result hresult
    obtain ⟨predId, hmem, rfl⟩ := mem_results.mp hresult
    exact hannounceable.settled predId hmem
  have hlegible : ∀ result ∈ prediction.results, Legible T b.block result := by
    intro result hresult
    obtain ⟨predId, hmem, rfl⟩ := mem_results.mp hresult
    exact hannounceable.legible predId hmem
  have hspoken : ∀ result ∈ prediction.results,
      ∀ data ∈ predictionTexts b.block result, Spoken data := by
    intro result hresult
    obtain ⟨predId, hmem, rfl⟩ := mem_results.mp hresult
    exact hannounceable.spoken predId hmem
  obtain ⟨payload, hpayload, points, hread, hpoints⟩ :=
    (prediction_described_iff b hsame hover).mpr ⟨hcompiles, hlegible⟩
  refine ⟨payload, points, ?_, ?_, hread, hpoints⟩
  · rw [predictionPayload, if_pos hcomplete, hpayload]
    rfl
  · exact accepted_prediction b hsame hspoken hpayload

end Reading

section Reaching

variable (T : Translator) (b : AgoraBlock) (identifier : Text)

/-- The message is composed and let through, it is heard by the clients that it
is for and by nobody else, not even the server, and each of them does what the
handler means. -/
def Handler.Reaches [HashOrder Text] (h : Handler) (message : Message) : Prop :=
  ∃ posted, h.post message = some posted ∧ whitelist posted = posted ∧
    ¬ Subscribed posted.topic ∧
    ∀ cid, IsClient cid →
      (Hears identifier cid posted.topic ↔
        ∀ other, message.recipient = some other → other = cid) ∧
      ∀ description, ∃ reaction,
        localApplicationHandler T b.block identifier cid description posted =
          some reaction ∧ h.Means b message reaction

/-- What the handler has for the message can be sent. -/
def Handler.Provided (h : Handler) : Message → Prop
  | .explore _ configuration => Explorable T b configuration
  | .prediction _ => Announceable T b h.prediction
  | .broadcast => Announceable T b h.prediction
  | .abort _ => True

variable {T b} {identifier} [HashOrder Text] {h : Handler} {message : Message}

/-- What the thread makes of the message. -/
theorem reaction_of_provided (hcompiles : parserCompiles b.block = true)
    (hsame : SameFields h.description b.block)
    (hprovided : h.Provided T b message) :
    ∃ payload, h.payload message = some payload ∧ Accepted payload ∧
      ∀ cid description, ∃ reaction,
        localApplicationHandler T b.block identifier cid description
          ⟨message.topic h.appId, payload⟩ = some reaction ∧
        h.Means b message reaction := by
  have htype := messageType_topic h.appId message
  cases message with
  | explore cid configuration =>
      obtain ⟨payload, point, hpayload, haccepted, hread, hpoint⟩ :=
        Explorable.read hcompiles hsame hprovided
      refine ⟨payload, hpayload, haccepted, fun cid description =>
        ⟨.setSinglePoint [point], ?_, .explore hpoint⟩⟩
      simp only [localApplicationHandler, htype, hread]
      rfl
  | prediction cid =>
      obtain ⟨payload, points, hpayload, haccepted, hread, hpoints⟩ :=
        Announceable.read hcompiles hsame hprovided
      refine ⟨payload, hpayload, haccepted, fun cid description =>
        ⟨.setModel points, ?_, .prediction hpoints⟩⟩
      simp only [localApplicationHandler, htype, hread]
      rfl
  | broadcast =>
      obtain ⟨payload, points, hpayload, haccepted, hread, hpoints⟩ :=
        Announceable.read hcompiles hsame hprovided
      refine ⟨payload, hpayload, haccepted, fun cid description =>
        ⟨.setModel points, ?_, .broadcast hpoints⟩⟩
      simp only [localApplicationHandler, htype, hread]
      rfl
  | abort cid =>
      refine ⟨[], rfl, List.forall_mem_nil _, fun cid description =>
        ⟨.warning, ?_, .abort⟩⟩
      simp only [localApplicationHandler, htype]
      rfl

variable (hversion : ∀ c ∈ b.app.version, isVersionChar c = true)

include hversion

omit [HashOrder Text] in
theorem accepted_str : ∀ c ∈ (Deployed.appId b).str,
    c ∈ topicAcceptedCharacters ∧ c ≠ '/' := by
  have hname := Deployed.isVersionChar_of_name b.validName
  have hblock := Deployed.isVersionChar_of_name b.valid.name
  have haccepted : ∀ {text : Text}, (∀ c ∈ text, isVersionChar c = true) →
      ∀ c ∈ text, c ∈ topicAcceptedCharacters ∧ c ≠ '/' :=
    fun htext c hc => ⟨topic_of_isVersionChar (htext c hc),
      (ne_of_isVersionChar (htext c hc)).1⟩
  have hcaret : '^' ∈ topicAcceptedCharacters ∧ '^' ≠ '/' := by decide
  simp only [ApplicationId.str, List.forall_mem_append, List.forall_mem_cons]
  exact ⟨⟨haccepted hname, hcaret, haccepted hversion⟩, hcaret,
    haccepted hblock⟩

omit [HashOrder Text] in
/-- What the generated code carries is the identifier itself. -/
theorem identifier_eq_str :
    Deployed.identifier b = some (Deployed.appId b).str := by
  refine CppLiteral.decode_plain fun c hc => ?_
  have hall : ∀ c ∈ topicAcceptedCharacters, c ≠ '\\' ∧ c ≠ '"' ∧ c ≠ '\n' := by
    decide
  exact hall c (accepted_str hversion c hc).1

/-- What the handler has for a message reaches its clients. -/
theorem Handler.Provided.reaches (hprovided : h.Provided T b message)
    (hcompiles : parserCompiles b.block = true)
    (hcarried : Deployed.identifier b = some identifier)
    (hid : h.appId = Deployed.appId b)
    (hsame : SameFields h.description b.block)
    (hclients : ∀ cid, message.recipient = some cid → IsClient cid) :
    h.Reaches T b identifier message := by
  have hstr := accepted_str hversion
  obtain rfl : (Deployed.appId b).str = identifier :=
    Option.some.inj ((identifier_eq_str hversion).symm.trans hcarried)
  obtain ⟨payload, hpayload, haccepted, hreaction⟩ :=
    reaction_of_provided hcompiles hsame hprovided
  have hslash : '/' ∉ h.appId.str := by
    rw [hid]
    exact fun hmem => (hstr _ hmem).2 rfl
  refine ⟨⟨message.topic h.appId, payload⟩, ?_, ?_, ?_, fun cid hcid => ?_⟩
  · rw [Handler.post, hpayload]
    rfl
  · have htopic : ∀ c ∈ h.appId.str, c ∈ topicAcceptedCharacters := by
      rw [hid]
      exact fun c hc => (hstr c hc).1
    exact whitelist_eq_self (accepted_topic htopic hclients) haccepted
  · exact not_subscribed_topic hslash hclients
  · refine ⟨?_, hreaction cid⟩
    rw [← hid]
    exact hears_topic_iff hslash hcid hclients

end Reaching

section Supply

variable {T : Translator} {b : AgoraBlock} {h : Handler} {storage : Storage}

/-- What the handler has can be sent to the clients of the block. -/
structure Handler.Holds (T : Translator) (b : AgoraBlock) (h : Handler) :
    Prop where
  doe : ∀ entry ∈ h.doe.requiredExplorations,
    Explorable T b entry.configuration
  prediction : Announceable T b h.prediction

theorem announceable_clear : Announceable T b .clear where
  complete := nofun
  settled := nofun
  legible := nofun
  spoken := nofun

theorem Handler.Holds.rereads {g : Handler} (hholds : h.Holds T b)
    (hstocked : Stocked T b storage)
    (hknown : .clueless ∉ g.handlerStatus → SameBlock g.description b.block)
    (hrereads : h.Rereads storage g) : g.Holds T b where
  doe := by
    rcases hrereads.doe with hsame | ⟨hdropped, -⟩ | ⟨⟨hstatus, hread⟩, -⟩
    · rw [hsame.doe]
      exact hholds.doe
    · rw [hdropped]
      exact List.forall_mem_nil _
    · rw [hread]
      exact hstocked.doe g.description (hknown hstatus)
  prediction := by
    rcases hrereads.prediction with hsame | hdropped | ⟨hstatus, hread⟩
    · rw [hsame]
      exact hholds.prediction
    · rw [hdropped]
      exact announceable_clear
    · rw [hread]
      exact hstocked.prediction g.description (hknown hstatus)

theorem DoeModel.getNext_cases {doe rest : DoeModel} {entry : ConfigurationModel}
    (hnext : doe.getNext = some (entry, rest)) :
    (∃ first ∈ doe.requiredExplorations,
      first.configuration = entry.configuration) ∧
    ∀ left ∈ rest.requiredExplorations, ∃ first ∈ doe.requiredExplorations,
      first.configuration = left.configuration := by
  rw [getNext] at hnext
  split at hnext
  · contradiction
  · next first others hsome =>
      have hfirst : first ∈ doe.requiredExplorations := by simp [hsome]
      have hothers : ∀ other ∈ others, other ∈ doe.requiredExplorations :=
        fun other hother => by simp [hsome, hother]
      simp only at hnext
      split at hnext
      · obtain ⟨rfl, rfl⟩ := Prod.mk.inj (Option.some.inj hnext)
        refine ⟨⟨first, hfirst, rfl⟩, fun left hleft => ?_⟩
        rcases List.mem_append.mp hleft with hleft | hleft
        · exact ⟨left, hothers left hleft, rfl⟩
        · obtain rfl := List.mem_singleton.mp hleft
          exact ⟨first, hfirst, rfl⟩
      · obtain ⟨rfl, rfl⟩ := Prod.mk.inj (Option.some.inj hnext)
        exact ⟨⟨first, hfirst, rfl⟩,
          fun left hleft => ⟨left, hothers left hleft, rfl⟩⟩

/-- The next configuration can be explored. -/
theorem Handler.Holds.explorable (hholds : h.Holds T b)
    {entry : ConfigurationModel} {rest : DoeModel}
    (hnext : h.doe.getNext = some (entry, rest)) :
    Explorable T b entry.configuration := by
  obtain ⟨first, hfirst, hsame⟩ := (DoeModel.getNext_cases hnext).1
  rw [← hsame]
  exact hholds.doe first hfirst

variable [HashOrder Text]

theorem Handler.Holds.sendConfiguration {g : Handler} {sender : Sender}
    {cid : ClientId} (hholds : h.Holds T b)
    (hsent : h.sendConfiguration sender cid = .ok g) : g.Holds T b where
  doe := by
    obtain ⟨-, rfl⟩ | ⟨entry, doe, hnext, -, rfl⟩ :=
      sendConfiguration_eq_ok.mp hsent
    · exact hholds.doe
    · intro left hleft
      obtain ⟨first, hfirst, hsame⟩ :=
        (DoeModel.getNext_cases hnext).2 left hleft
      rw [← hsame]
      exact hholds.doe first hfirst
  prediction := by
    rw [sendConfiguration_prediction hsent]
    exact hholds.prediction

section Composing

variable (hcompiles : parserCompiles b.block = true)

include hcompiles

omit [HashOrder Text] in
theorem Handler.Holds.composesNext (hholds : h.Holds T b)
    (hsame : SameFields h.description b.block) : h.composesNext = true := by
  rw [Handler.composesNext]
  cases hnext : h.doe.getNext with
  | none => rfl
  | some found =>
      obtain ⟨entry, rest⟩ := found
      obtain ⟨payload, point, hpayload, -⟩ :=
        Explorable.read hcompiles hsame (hholds.explorable hnext)
      exact Option.isSome_of_eq_some hpayload

theorem composesPrediction_of_announceable
    (hannounceable : Announceable T b h.prediction)
    (hsame : SameFields h.description b.block) :
    h.composesPrediction = true := by
  obtain ⟨payload, points, hpayload, -⟩ :=
    Announceable.read hcompiles hsame hannounceable
  exact Option.isSome_of_eq_some hpayload

/-- Nothing that is to be sent next fails to be composed. -/
theorem Handler.Holds.composes (hholds : h.Holds T b)
    (hstocked : Stocked T b storage) (hsame : SameBlock h.description b.block)
    (position : Position) : h.Composes storage position := by
  have hnext := hholds.composesNext hcompiles hsame.sameFields
  unfold Handler.Composes
  split
  · split
    · exact hnext
    · exact fun _ => composesPrediction_of_announceable hcompiles
        hholds.prediction hsame.sameFields
  · exact fun _ _ => hnext
  · exact fun _ => composesPrediction_of_announceable hcompiles
      (hstocked.prediction h.description hsame) hsame.sameFields
  · exact hnext
  · trivial

end Composing

variable {position : Position} {input : Input} {next : Handler × Position}

theorem holds_turn (hholds : h.Holds T b) (hstocked : Stocked T b storage)
    (hknown : .clueless ∉ next.1.handlerStatus →
      SameBlock next.1.description b.block)
    (hturn : h.Turn storage position input next) : next.1.Holds T b := by
  rcases Handler.turn_rereads hturn with hrereads | ⟨sender, cid, hsent⟩
  · exact hholds.rereads hstocked hknown hrereads
  · exact hholds.sendConfiguration hsent

/-- What is sent was in the DOE, or it is what the handler has. -/
theorem provided_turn {sender : Sender} {status : Status} {message : Message}
    (hholds : h.Holds T b) (hafter : next.1.Holds T b)
    (hturn : h.Turn storage position input next)
    (hhistory : next.1.history = .sent sender status message :: h.history) :
    next.1.Provided T b message := by
  cases message with
  | explore cid configuration =>
      rcases Handler.turn_rereads hturn with hrereads | ⟨sender, cid, hsent⟩
      · have hsilent := hrereads.sent
        rw [hhistory, configurationsSent] at hsilent
        exact absurd hsilent (List.cons_ne_self _ _)
      · obtain ⟨-, hsame⟩ | ⟨entry, doe, hnext, -, hsame⟩ :=
          Handler.sendConfiguration_eq_ok.mp hsent
        · rw [hsame] at hhistory
          exact absurd hhistory.symm (List.cons_ne_self _ _)
        · rw [hsame] at hhistory
          obtain ⟨-, -, hmessage⟩ := Event.sent.inj (List.cons.inj hhistory).1
          obtain ⟨-, rfl⟩ := Message.explore.inj hmessage
          exact hholds.explorable hnext
  | prediction cid => exact hafter.prediction
  | broadcast => exact hafter.prediction
  | abort cid => exact trivial

end Supply

namespace Server

section Runs

variable {W : Type} [DecidableEq W] [HashOrder Text] {T : Translator}
  {b : AgoraBlock} {s t : Server W}

/-- The server knows the block, and what it has can be sent to the clients as
long as it runs. -/
structure Provides (T : Translator) (b : AgoraBlock) (s : Server W) : Prop where
  orderly : s.Orderly
  knows : s.Knows b
  stocked : Stocked T b s.storage
  holds : s.terminated = false → s.handler.Holds T b

/-- A welcome shows the block, and what is written to the storage can be
sent. -/
def Supplied (T : Translator) (b : AgoraBlock) : Action W → Prop
  | .locked _ (.welcome _ app) => Deployed.Shown b app
  | .produce _ storage => Stocked T b storage
  | _ => True

omit [DecidableEq W] [HashOrder Text] in
theorem Supplied.introduces {action : Action W}
    (hsupplied : Supplied T b action) : Introduces b action := by
  match action with
  | .locked _ (.welcome _ _) => exact hsupplied
  | .locked _ (.bye _) | .locked _ (.observation _) | .locked _ .proceed
  | .parse _ _ | .produce _ _ | .wait _ _ => trivial

omit [DecidableEq W] [HashOrder Text] in
theorem Knows.same (hknows : s.Knows b)
    (hstatus : .clueless ∉ s.handler.handlerStatus) :
    SameBlock s.handler.description b.block := by
  rcases hknows.block with hdescribes | ⟨hclueless, -⟩
  · exact hdescribes.same
  · rw [hclueless] at hstatus
    exact absurd (Finset.mem_singleton_self _) hstatus

theorem provides_step {action : Action W} (hs : s.Provides T b)
    (hsupplied : Supplied T b action) (hstep : s.step action = some t) :
    t.Provides T b := by
  have horderly := orderly_step hs.orderly hstep
  have hknows := knows_step hs.knows hsupplied.introduces hstep
  cases action with
  | locked worker input =>
      obtain ⟨hrunning, -, ⟨next, hturn, rfl⟩ | ⟨g, -, rfl⟩⟩ :=
        step_locked.mp hstep
      · exact ⟨horderly, hknows, hs.stocked, fun _ =>
          holds_turn (hs.holds hrunning) hs.stocked hknows.same hturn⟩
      · exact ⟨horderly, hknows, hs.stocked, nofun⟩
  | parse worker success =>
      obtain ⟨-, cid, -, rfl⟩ := step_parse.mp hstep
      exact ⟨horderly, hknows, hs.stocked, hs.holds⟩
  | produce worker storage =>
      obtain ⟨-, -, rfl⟩ := step_produce.mp hstep
      exact ⟨horderly, hknows, hsupplied, hs.holds⟩
  | wait worker returnCode =>
      obtain ⟨-, position, -, rfl⟩ := step_wait.mp hstep
      split at horderly
      · next hzero =>
          rw [if_pos hzero] at hknows ⊢
          exact ⟨horderly, hknows, hs.stocked, hs.holds⟩
      · next hfailed =>
          rw [if_neg hfailed] at hknows ⊢
          exact ⟨horderly, hknows, hs.stocked, nofun⟩

omit [DecidableEq W] [HashOrder Text] in
theorem provides_fresh {storage : Storage} (hstocked : Stocked T b storage) :
    (fresh (Deployed.appId b) storage : Server W).Provides T b where
  orderly := orderly_fresh _ storage
  knows := knows_fresh b storage
  stocked := hstocked
  holds := fun _ => ⟨List.forall_mem_nil _, announceable_clear⟩

theorem provides_of_run {storage : Storage} {actions : List (Action W)}
    (hstocked : Stocked T b storage)
    (hsupplied : ∀ action ∈ actions, Supplied T b action)
    (hrun : runFrom step (fresh (Deployed.appId b) storage) actions = some s) :
    s.Provides T b := by
  have hmeets : AllSteps step (fun _ action => Supplied T b action)
      (fresh (Deployed.appId b) storage) actions :=
    fun _ _ _ _ hpre _ _ => hsupplied _ (hpre.subset (by simp))
  exact runFrom_invariant (fun _ _ _ hbefore => provides_step hbefore)
    (provides_fresh hstocked) hmeets hrun

omit [DecidableEq W] in
/-- A message is sent by a worker that was told the block. -/
theorem describes_of_sent {worker : W} {input : Input}
    {next : Handler × Position} (hs : s.Provides T b)
    (hsupplied : Supplied T b (.locked worker input))
    (hturn : s.handler.Turn s.storage (s.position worker) input next)
    {sender : Sender} {status : Status} {message : Message}
    (hhistory : next.1.history =
      .sent sender status message :: s.handler.history) :
    SameBlock next.1.description b.block := by
  have hshown : ∀ cid app, input = .welcome cid app → Deployed.Shown b app := by
    rintro cid app rfl
    exact hsupplied
  rcases hs.knows.block with hdescribes | ⟨-, hidle⟩
  · exact (describes_turn hs.knows.appId hshown hturn hdescribes).same
  · rcases Handler.turn_says hs.orderly.active hs.orderly.informed
      (hs.orderly.attends worker) hturn with hsilent | ⟨event, hsent, htrue⟩
    · exact absurd (hsilent.symm.trans hhistory).symm (List.cons_ne_self _ _)
    · have hevent := (List.cons.inj (hsent.symm.trans hhistory)).1
      have htells := (htrue sender status message hevent).2
      rw [hidle worker] at htells
      contradiction

omit [DecidableEq W] in
/-- What the step sends can be composed. -/
theorem composes_of_provides {action : Action W}
    (hcompiles : parserCompiles b.block = true) (hs : s.Provides T b)
    (hrunning : s.terminated = false) : s.Composes action := by
  match action with
  | .locked worker .proceed =>
      rcases hs.knows.block with hdescribes | ⟨-, hidle⟩
      · exact (hs.holds hrunning).composes hcompiles hs.stocked
          hdescribes.same _
      · rw [Composes, hidle worker]
        trivial
  | .locked _ (.welcome _ _) | .locked _ (.bye _) | .locked _ (.observation _)
  | .parse _ _ | .produce _ _ | .wait _ _ => trivial

/-- What the step sends can be composed, and it reaches the clients that it is
for. -/
def Conveys (T : Translator) (b : AgoraBlock) (identifier : Text) (s : Server W)
    (action : Action W) : Prop :=
  s.Composes action ∧
    ∀ t sender status message, s.step action = some t →
      t.handler.history = .sent sender status message :: s.handler.history →
      (∀ cid, message.recipient = some cid → IsClient cid) →
        t.handler.Reaches T b identifier message

/-- Whatever the server sends in a run can be composed and reaches the clients
that it is for, and they read in it what the handler has. -/
theorem conveys_allSteps {identifier : Text} {storage : Storage}
    {actions : List (Action W)}
    (hversion : ∀ c ∈ b.app.version, isVersionChar c = true)
    (hcompiles : parserCompiles b.block = true)
    (hcarried : Deployed.identifier b = some identifier)
    (hstocked : Stocked T b storage)
    (hsupplied : ∀ action ∈ actions, Supplied T b action) :
    AllSteps step (Conveys T b identifier) (fresh (Deployed.appId b) storage)
      actions := by
  intro pre action before after hpre hrun htaken
  have hsub : ∀ action ∈ pre, Supplied T b action := fun action hmem =>
    hsupplied action (hpre.subset (List.mem_append_left _ hmem))
  have haction : Supplied T b action := hsupplied action
    (hpre.subset (List.mem_append_right _ (List.mem_singleton_self _)))
  have hbefore := provides_of_run hstocked hsub hrun
  refine ⟨composes_of_provides hcompiles hbefore (running_of_step htaken), ?_⟩
  intro t sender status message hstep hhistory hclients
  have hafter := provides_step hbefore haction hstep
  cases action with
  | locked worker input =>
      obtain ⟨hrunning, -, ⟨next, hturn, rfl⟩ | ⟨g, hthrows, rfl⟩⟩ :=
        step_locked.mp hstep
      · exact (provided_turn (hbefore.holds hrunning) (hafter.holds hrunning)
          hturn hhistory).reaches hversion hcompiles hcarried
          hafter.knows.appId
          (describes_of_sent hbefore haction hturn hhistory).sameFields hclients
      · rcases (Handler.fails_of_throws hthrows).history with hsame | hiterates
        · exact absurd (hsame.symm.trans hhistory).symm (List.cons_ne_self _ _)
        · cases hiterates.symm.trans hhistory
  | parse worker success =>
      obtain ⟨-, cid, -, rfl⟩ := step_parse.mp hstep
      exact absurd hhistory.symm (List.cons_ne_self _ _)
  | produce worker storage =>
      obtain ⟨-, -, rfl⟩ := step_produce.mp hstep
      exact absurd hhistory.symm (List.cons_ne_self _ _)
  | wait worker returnCode =>
      obtain ⟨-, position, -, rfl⟩ := step_wait.mp hstep
      split at hhistory <;>
        exact absurd hhistory.symm (List.cons_ne_self _ _)

end Runs

section Sampled

open Sample

local instance conveyingOrder : HashOrder Text := HashOrder.stored Text

/-- The block of the small application, with a metric that is a
distribution. -/
def measured : BlockModel :=
  { Heel.Sample.block with
    metrics := [⟨"latency".toList, "float".toList, true, "linear".toList,
      "clock".toList, 0, []⟩] }

/-- The block after its validation. -/
def validMeasured : BlockModel :=
  { measured with
    monitors := [⟨"clock".toList, "time".toList, [],
      [⟨.immediate, "margot::TimeUnit::MICROSECONDS".toList,
          "margot::TimeUnit".toList⟩,
        ⟨.immediate, "1".toList, "size_t".toList⟩], [], []⟩]
    knobs := [⟨"threads".toList, "int32_t".toList, ["1".toList, "2".toList]⟩]
    knobsSegmentType := "int32_t".toList
    metricsSegmentType := "float".toList }

def measuredBlock : AgoraBlock where
  model := Heel.Sample.application "1.0".toList measured
  app := Heel.Sample.application "1.0".toList validMeasured
  accepted := rfl
  block := validMeasured
  mem := List.mem_singleton.mpr rfl
  enabled := rfl

def oneThread : Configuration :=
  UnorderedMap.empty.emplace "threads".toList "1".toList

def oneResult : PredictionModel where
  configurations := UnorderedMap.empty.emplace "0".toList oneThread
  features := .empty
  predictedResults := UnorderedMap.empty.emplace "0".toList
    (UnorderedMap.empty.emplace "latency".toList
      ⟨"12".toList, "3".toList⟩)

/-- A storage with one configuration to explore and one prediction. -/
def stocked : Storage where
  loadDoe := fun _ => ⟨[⟨"0".toList, oneThread, 2⟩]⟩
  loadCluster := fun _ => .clear
  loadPrediction := fun _ => oneResult
  isModelValid := fun _ => false

theorem explorable_oneThread :
    Explorable translator measuredBlock oneThread where
  covers := by decide +kernel
  settled := ⟨by decide +kernel, by decide +kernel⟩
  legible := ⟨by decide +kernel, by decide +kernel, by decide +kernel,
    by decide +kernel⟩
  spoken := by decide +kernel

theorem announceable_oneResult :
    Announceable translator measuredBlock oneResult := by
  have hkeys : ∀ predId ∈ oneResult.predictedResults.keys,
      predId = "0".toList := by decide
  refine ⟨by decide +kernel, ?_, ?_, ?_⟩
  · intro predId hmem
    obtain rfl := hkeys predId hmem
    exact ⟨⟨by decide +kernel, by decide +kernel⟩, by decide +kernel,
      by decide +kernel, by decide +kernel⟩
  · intro predId hmem
    obtain rfl := hkeys predId hmem
    exact ⟨by decide +kernel, by decide +kernel, by decide +kernel,
      by decide +kernel⟩
  · intro predId hmem
    obtain rfl := hkeys predId hmem
    decide +kernel

theorem stocked_stocked : Stocked translator measuredBlock stocked where
  doe := by
    intro description _ entry hentry
    obtain rfl := List.mem_singleton.mp hentry
    exact explorable_oneThread
  prediction := fun _ _ => announceable_oneResult

theorem sameBlock_measured :
    SameBlock measuredBlock.block measuredBlock.block where
  name := rfl
  knobs := .rfl
  knobsSorted := by decide +kernel
  metrics := .rfl
  metricsSorted := by decide +kernel
  fields := .rfl
  fieldsSorted := by decide +kernel
  distance := rfl
  agora := rfl

theorem shown_measured :
    Deployed.Shown measuredBlock (some measuredBlock.app) := by
  intro h hid
  refine ⟨measuredBlock.block, ?_, sameBlock_measured, rfl⟩
  rw [Handler.findBlock, hid]
  rfl

/-- A client is welcomed, and told the prediction. -/
def told : List (Action Unit) :=
  [.locked () (.welcome client (some measuredBlock.app)),
    .locked () .proceed]

theorem conveys_allSteps_told :
    AllSteps step
      (Conveys translator measuredBlock (Deployed.appId measuredBlock).str)
      (fresh (Deployed.appId measuredBlock) stocked) told := by
  have hversion : ∀ c ∈ measuredBlock.app.version,
      isVersionChar c = true := by decide
  refine conveys_allSteps hversion (by decide +kernel)
    (identifier_eq_str hversion) stocked_stocked ?_
  intro action hmem
  simp only [told, List.mem_cons, List.not_mem_nil, or_false] at hmem
  rcases hmem with rfl | rfl
  · exact shown_measured
  · exact trivial

end Sampled

end Server

end Margot.Agora
