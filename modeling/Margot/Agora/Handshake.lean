/-
The handshake of a client with the server: the description that the compiler
has put into the client goes through the filter and the worker to the handler,
which reads the block of the client in it.
-/
import Margot.Heel.ReceivedDescription
import Margot.Agora.Filter
import Margot.Agora.Manager

namespace Margot.Agora

open Heel

namespace Deployed

/-- Nothing in the application keeps its description from being understood: its
texts pass the filter and have nothing to squeeze, and its blocks are parsed
again and told apart by their names. -/
structure Presentable (b : AgoraBlock) : Prop where
  version : ∀ c ∈ b.app.version, isVersionChar c = true
  spoken : ∀ text ∈ b.app.texts, Spoken text
  spaced : ∀ text ∈ b.app.texts, SingleSpaced text
  readable : ∀ block ∈ b.app.blocks, Readable block
  names : (b.app.blocks.map (·.name)).Nodup

/-- The description is that of the block, with its lists sorted by name. -/
structure Describes (description block : BlockModel) : Prop where
  same : SameBlock description block
  agora : description.agora = block.agora

/-- The handler of the block finds it in the application. -/
def Shown (b : AgoraBlock) (app : Option ApplicationModel) : Prop :=
  ∀ h : Handler, h.appId = appId b →
    ∃ found, h.findBlock app = some found ∧ Describes found b.block

section Reading

variable {b : AgoraBlock}

theorem describes_of_same {found : BlockModel} (hsame : SameBlock found b.block) :
    Describes found b.block := by
  refine ⟨hsame, ?_⟩
  have hsection := hsame.agora
  have henabled : b.block.agora.section? = some b.block.agora := by
    simp [AgoraModel.section?, b.enabled]
  rw [henabled, AgoraModel.section?] at hsection
  split at hsection
  · contradiction
  · exact Option.some.inj hsection

theorem unescaped_of_spoken {text : Text} (hspoken : Spoken text) :
    Unescaped text := by
  have hchars : ∀ c ∈ payloadAcceptedCharacters, c ≠ '"' →
      Json.isPlain c = true := by
    decide +kernel
  exact fun c hc => hchars c (hspoken c hc).1 (hspoken c hc).2

/-- The application that the server parses shows the block. -/
theorem Presentable.shown (hpresentable : Presentable b) (sorter : NameSort)
    (computeRange : Ptree → Text → Checked (List Text)) {heard : Text}
    (hheard : applicationDescription b.app = .ok (some heard)) :
    ∃ app, ((Json.readJson heard).bind fun node =>
        (parseApplication sorter computeRange node).toOption) = some app ∧
      Shown b (some app) := by
  have haccepted := acceptedBlocks_of_validate b.accepted
  have hread := readJson_description_self haccepted
    (fun text hmem => unescaped_of_spoken (hpresentable.spoken text hmem))
    hpresentable.spaced hheard
  obtain ⟨parsed, hparsed, hname, hversion, hfound, hall⟩ :=
    exists_parseApplication sorter computeRange haccepted hpresentable.readable
  refine ⟨parsed, by rw [hread, Option.bind_some, hparsed]; rfl, ?_⟩
  intro h hid
  have hfind : h.findBlock (some parsed) = parsed.blocks.find? fun block =>
      parsed.name = b.app.name ∧ parsed.version = b.app.version ∧
        block.name = b.block.name := by
    rw [Handler.findBlock, hid]
    rfl
  obtain ⟨mine, hmine, hsame⟩ := hall b.block b.mem
  have hsome : (h.findBlock (some parsed)).isSome = true := by
    rw [hfind, List.find?_isSome]
    exact ⟨mine, hmine, by simp [hname, hversion, hsame.name]⟩
  obtain ⟨found, hfirst⟩ := Option.isSome_iff_exists.mp hsome
  refine ⟨found, hfirst, describes_of_same ?_⟩
  rw [hfind] at hfirst
  obtain ⟨block, hblock, hdescribed⟩ :=
    hfound found (List.mem_of_find?_eq_some hfirst)
  have hnamed := List.find?_some hfirst
  simp only [hname, hversion, true_and, decide_eq_true_eq] at hnamed
  have hsameName : block.name = b.block.name :=
    hdescribed.name.symm.trans hnamed
  have hblock : block = b.block :=
    List.inj_on_of_nodup_map hpresentable.names hblock b.mem hsameName
  rwa [hblock] at hdescribed

/-- The parts of the description of the block are in the handler after it has
been shown, and it is informed if the bound on the configurations is a
number. -/
theorem parseInformations_shown {h : Handler} {app : Option ApplicationModel}
    (hid : h.appId = appId b) (hshown : Shown b app) :
    Describes (h.parseInformations app).1.description b.block ∧
      ((h.parseInformations app).2 = true ↔
        (stoi b.block.agora.numberConfigurationsPerIteration).isSome = true) := by
  obtain ⟨found, hfound, hdescribes⟩ := hshown h hid
  rw [Handler.parseInformations, hfound]
  simp only [hdescribes.agora]
  cases stoi b.block.agora.numberConfigurationsPerIteration with
  | none => exact ⟨hdescribes, by simp⟩
  | some number => exact ⟨hdescribes, by simp⟩

end Reading

section Handshake

/-- What becomes of the welcome of a client: it is neither changed nor refused
on its way, and the handler of the block knows the block from it. -/
structure Understood (sorter : NameSort)
    (computeRange : Ptree → Text → Checked (List Text)) (b : AgoraBlock)
    (cid : ClientId) (message : MessageModel) : Prop where
  passes : whitelist message = message
  handled : ∃ handled app, handleIncomingMessage (whitelist message) =
      .ok handled ∧
    handled.input sorter computeRange =
      some (appId b, .welcome cid (some app)) ∧
    ∀ h : Handler, h.appId = appId b →
      Describes (h.parseInformations (some app)).1.description b.block ∧
        ((h.parseInformations (some app)).2 = true ↔
          (stoi b.block.agora.numberConfigurationsPerIteration).isSome = true)

variable {b : AgoraBlock}

theorem Presentable.accepted (hpresentable : Presentable b) {heard : Text}
    (hheard : applicationDescription b.app = .ok (some heard)) :
    Accepted heard := by
  have haccepted := acceptedBlocks_of_validate b.accepted
  have hfree : ∀ text ∈ b.app.texts, '"' ∉ text := fun text hmem hquote =>
    (hpresentable.spoken text hmem '"' hquote).2 rfl
  obtain ⟨other, hother, haccept⟩ := exists_applicationDescription haccepted
    (fun c => payload_of_isTagChar) (by decide) payload_marks (by decide) hfree
  obtain rfl := Option.some.inj (Except.ok.inj (hheard.symm.trans hother))
  exact haccept.mpr fun text hmem c hc => (hpresentable.spoken text hmem c hc).1

/-- Every client of a block introduces itself: its welcome reaches the handler
of its block, which knows the block from it. -/
theorem understood_of_presentable (sorter : NameSort)
    (computeRange : Ptree → Text → Checked (List Text))
    (hpresentable : Presentable b) :
    ∃ carried heard, identifier b = some carried ∧
      applicationDescription b.app = .ok (some heard) ∧
      ∀ cid : ClientId, (∀ c ∈ cid, isClientChar c = true) →
        Understood sorter computeRange b cid
          ⟨clientTopic carried .welcome cid, heard⟩ := by
  have haccepted := acceptedBlocks_of_validate b.accepted
  obtain ⟨heard, hheard⟩ : ∃ heard,
      applicationDescription b.app = .ok (some heard) :=
    ⟨_, applicationDescription_squeezed haccepted
      fun text hmem => unescaped_of_spoken (hpresentable.spoken text hmem)⟩
  obtain ⟨carried, hcarried, hdelivers⟩ := routed_of_version hpresentable.version
  refine ⟨carried, heard, hcarried, hheard, fun cid hcid => ?_⟩
  obtain ⟨app, hparsed, hshown⟩ :=
    hpresentable.shown sorter computeRange hheard
  have hpasses : whitelist ⟨clientTopic carried .welcome cid, heard⟩ =
      ⟨clientTopic carried .welcome cid, heard⟩ :=
    whitelist_eq_self
      (findFirstNotOf_eq_none.mp ((hdelivers cid hcid).passes .welcome))
      (hpresentable.accepted hheard)
  refine ⟨hpasses, .welcome (appId b) cid heard, app, ?_, ?_, ?_⟩
  · rw [hpasses]
    exact (hdelivers cid hcid).welcome heard
  · rw [Handled.input, hparsed]
  · exact fun h hid => parseInformations_shown hid hshown

end Handshake

section Shared

open Heel.Sample (agoraBlock stableSort)

/-- The small application. -/
def presented : AgoraBlock := agoraBlock "1.0".toList (by decide)

theorem presentable_presented : Presentable presented where
  version := by decide
  spoken := by decide +kernel
  spaced := by decide +kernel
  readable := by
    intro block hmem
    obtain rfl := List.mem_singleton.mp hmem
    exact ⟨by decide +kernel, by decide +kernel, by decide⟩
  names := by decide +kernel

theorem understood_of_presentable_presented :
    ∃ carried heard, identifier presented = some carried ∧
      applicationDescription presented.app = .ok (some heard) ∧
      ∀ cid : ClientId, (∀ c ∈ cid, isClientChar c = true) →
        Understood stableSort (fun _ _ => .ok []) presented cid
          ⟨clientTopic carried .welcome cid, heard⟩ :=
  understood_of_presentable stableSort (fun _ _ => .ok []) presentable_presented

end Shared

end Deployed

namespace Handler

/-- A clueless handler takes the description from the welcome, whatever the
storage holds. -/
theorem welcomeClient_description {h : Handler}
    (hclueless : h.checkState .clueless = true) (storage : Storage)
    (cid : ClientId) (app : Option ApplicationModel) :
    (h.welcomeClient storage cid app).1.description =
      (h.parseInformations app).1.description := by
  have hadded : (h.addClient cid).checkState .clueless = true := hclueless
  rw [welcomeClient, if_pos hadded, parseInformations_addClient]
  obtain ⟨parsed, started⟩ := h.parseInformations app
  cases started with
  | false => rfl
  | true =>
      simp only [startSession_eq]
      rw [recoverPrediction_description, recoverStorage_description]
      rfl

end Handler

open Deployed

namespace Server

variable {W : Type} [DecidableEq W] [HashOrder Text]

/-- The server knows the block, or it has not been told anything: the handler is
clueless, and no worker is inside of it. -/
structure Knows (s : Server W) (b : AgoraBlock) : Prop where
  appId : s.handler.appId = Deployed.appId b
  block : Describes s.handler.description b.block ∨
    (s.handler.handlerStatus = {.clueless} ∧ ∀ worker, s.position worker = .idle)

/-- A welcome shows the block. -/
def Introduces (b : AgoraBlock) : Action W → Prop
  | .locked _ (.welcome _ app) => Shown b app
  | _ => True

section Steps

variable {b : AgoraBlock} {s t : Server W}

/-- Nothing but a welcome changes the description. -/
theorem describes_turn {h : Handler} {storage : Storage} {position : Position}
    {input : Input} {next : Handler × Position}
    (hid : h.appId = Deployed.appId b)
    (hshown : ∀ cid app, input = .welcome cid app → Shown b app)
    (hturn : h.Turn storage position input next)
    (hdescribes : Describes h.description b.block) :
    Describes next.1.description b.block := by
  cases hasked : h.describes input with
  | false =>
      rw [Handler.turn_description hturn hasked]
      exact hdescribes
  | true =>
      cases hturn with
      | welcome cid app =>
          rw [Handler.describes, Bool.and_eq_true] at hasked
          rw [Handler.welcomeClient_description hasked.1]
          exact (parseInformations_shown hid (hshown cid app rfl)).1
      | _ => contradiction

/-- A handler that has not been told anything stays clueless until a welcome
shows it the block. -/
theorem knows_turn_clueless {h : Handler} {storage : Storage} {input : Input}
    {next : Handler × Position} (hid : h.appId = Deployed.appId b)
    (hclueless : h.handlerStatus = {.clueless})
    (hshown : ∀ cid app, input = .welcome cid app → Shown b app)
    (hturn : h.Turn storage .idle input next) :
    Describes next.1.description b.block ∨
      (next.1.handlerStatus = {.clueless} ∧ next.2 = .idle) := by
  cases hturn with
  | welcome cid app =>
      have hchecked : h.checkState .clueless = true := by
        rw [Handler.checkState, hclueless]
        rfl
      left
      rw [Handler.welcomeClient_description hchecked]
      exact (parseInformations_shown hid (hshown cid app rfl)).1
  | bye cid =>
      right
      obtain ⟨g, hbye, -, -, -, -, hleft⟩ := h.byeClient_cases cid
      rw [hbye]
      rcases hleft with ⟨-, hstatus, -⟩ | ⟨-, hstatus⟩
      · exact ⟨hstatus, rfl⟩
      · exact ⟨hstatus.trans hclueless, rfl⟩
  | observation cid =>
      right
      have hchecked : h.checkState .exploring = false := by
        rw [Handler.checkState, hclueless]
        rfl
      rw [Handler.processObservation, hchecked]
      exact ⟨hclueless, rfl⟩

theorem knows_step {action : Action W} (hs : s.Knows b)
    (hintroduces : Introduces b action) (hstep : s.step action = some t) :
    t.Knows b := by
  cases action with
  | locked worker input =>
      have hshown : ∀ cid app, input = .welcome cid app → Shown b app := by
        rintro cid app rfl
        exact hintroduces
      obtain ⟨-, -, ⟨next, hturn, rfl⟩ | ⟨g, hthrows, rfl⟩⟩ :=
        step_locked.mp hstep
      · refine ⟨(Handler.turn_appId hturn).trans hs.appId, ?_⟩
        rcases hs.block with hdescribes | ⟨hclueless, hidle⟩
        · exact .inl (describes_turn hs.appId hshown hturn hdescribes)
        · rw [hidle worker] at hturn
          rcases knows_turn_clueless hs.appId hclueless hshown hturn with
            hdescribes | ⟨hclueless, hreturned⟩
          · exact .inl hdescribes
          · refine .inr ⟨hclueless, fun other => ?_⟩
            by_cases hother : other = worker
            · subst hother
              simp [leave, hreturned]
            · simp [leave, hother, hidle other]
      · have hfails := Handler.fails_of_throws hthrows
        have hbusy : s.position worker ≠ .idle := by
          intro hidle
          rw [hidle] at hfails
          cases hfails
        have hdescribes := hs.block.resolve_right fun hnone =>
          hbusy (hnone.2 worker)
        refine ⟨hfails.appId.trans hs.appId, .inl ?_⟩
        change Describes g.description b.block
        rw [hfails.description]
        exact hdescribes
  | parse worker success =>
      obtain ⟨-, cid, hobserved, rfl⟩ := step_parse.mp hstep
      refine ⟨hs.appId, hs.block.imp_right fun hnone => ?_⟩
      rw [hnone.2 worker] at hobserved
      contradiction
  | produce worker storage =>
      obtain ⟨-, -, rfl⟩ := step_produce.mp hstep
      exact ⟨hs.appId, hs.block⟩
  | wait worker returnCode =>
      obtain ⟨-, position, hwaited, rfl⟩ := step_wait.mp hstep
      have hbusy : ¬ (s.handler.handlerStatus = {.clueless} ∧
          ∀ worker, s.position worker = .idle) := by
        rintro ⟨-, hidle⟩
        rw [hidle worker] at hwaited
        contradiction
      have hdescribes := hs.block.resolve_right hbusy
      split
      · exact ⟨hs.appId, .inl hdescribes⟩
      · exact ⟨hs.appId, .inl hdescribes⟩

omit [DecidableEq W] [HashOrder Text] in
theorem knows_fresh (b : AgoraBlock) (storage : Storage) :
    (fresh (Deployed.appId b) storage : Server W).Knows b where
  appId := rfl
  block := .inr ⟨rfl, fun _ => rfl⟩

theorem knows_of_run {storage : Storage} {actions : List (Action W)}
    (hintroduces : ∀ action ∈ actions, Introduces b action)
    (hrun : runFrom step (fresh (Deployed.appId b) storage) actions = some s) :
    s.Knows b := by
  have hmeets : AllSteps step (fun _ action => Introduces b action)
      (fresh (Deployed.appId b) storage) actions :=
    fun _ _ _ _ hpre _ _ => hintroduces _ (hpre.subset (by simp))
  exact runFrom_invariant (fun _ _ _ hbefore => knows_step hbefore)
    (knows_fresh b storage) hmeets hrun

end Steps

end Server

namespace Manager

section Runs

variable {W : Type} [DecidableEq W] [HashOrder Text] [Fintype W]
  {b : AgoraBlock}

/-- A welcome for the block carries the description that its clients have. -/
def WelcomedBy (b : AgoraBlock) : Action W → Prop
  | .receive _ message => ∀ cid info,
      handleIncomingMessage message = .ok (.welcome (appId b) cid info) →
        applicationDescription b.app = .ok (some info)
  | _ => True

omit [DecidableEq W] [HashOrder Text] [Fintype W] in
/-- The server is asked to welcome a client by a message with the description of
its block. -/
theorem shown_of_asked {sorter : NameSort}
    {computeRange : Ptree → Text → Checked (List Text)}
    (hpresentable : Presentable b) {action : Action W}
    (hwelcomed : WelcomedBy b action) {cid : ClientId}
    {app : Option ApplicationModel}
    (hasked : .welcome cid app ∈ asked sorter computeRange (appId b) action) :
    Shown b app := by
  cases action with
  | receive worker message =>
      simp only [asked] at hasked
      split at hasked
      · next handled hhandled =>
          cases handled with
          | welcome other cid info =>
              simp only [Handled.input] at hasked
              split at hasked
              · next hid =>
                  subst hid
                  obtain ⟨-, rfl⟩ :=
                    Input.welcome.inj (Multiset.mem_singleton.mp hasked)
                  obtain ⟨read, hread, hshown⟩ := hpresentable.shown sorter
                    computeRange (hwelcomed cid info hhandled)
                  rwa [hread]
              · contradiction
          | kia other cid reason =>
              simp only [Handled.input] at hasked
              split at hasked
              · exact Input.noConfusion (Multiset.mem_singleton.mp hasked)
              · contradiction
          | observation other cid sec ns values =>
              simp only [Handled.input] at hasked
              split at hasked
              · exact Input.noConfusion (Multiset.mem_singleton.mp hasked)
              · contradiction
          | _ => contradiction
      · contradiction
  | _ => contradiction

omit [DecidableEq W] [HashOrder Text] [Fintype W] in
theorem extracted_of_version (hversion : ∀ c ∈ b.app.version,
    isVersionChar c = true) : (appId b).Extracted := by
  have hfree : ∀ {part : Text}, (∀ c ∈ part, isVersionChar c = true) →
      '^' ∉ part := by
    intro part hpart hcaret
    exact (ne_of_isVersionChar (hpart _ hcaret)).2.1 rfl
  exact getApplicationId_str (hfree (isVersionChar_of_name b.validName))
    (hfree hversion) (hfree (isVersionChar_of_name b.valid.name))

omit [DecidableEq W] [HashOrder Text] [Fintype W] in
/-- What all actions ask is what one of them asks. -/
theorem mem_sum_map {α β : Type} {f : α → Multiset β} {elements : List α}
    {b : β} : b ∈ (elements.map f).sum ↔ ∃ a ∈ elements, b ∈ f a := by
  rw [← Multiset.sum_coe]
  refine Multiset.mem_join.trans ?_
  simp

variable {sorter : NameSort}
  {computeRange : Ptree → Text → Checked (List Text)} {m : Manager W}

/-- Whatever else the server is told and in whatever order its workers act, the
handler of a block is clueless or it knows the block, when its welcomes come from
the clients of the block. -/
theorem knows_of_welcomed {disk : ApplicationId → Storage}
    {actions : List (Action W)} (hpresentable : Presentable b)
    (hwelcomed : ∀ action ∈ actions, WelcomedBy b action)
    (hown : AllSteps (step sorter computeRange) WritesOwn (fresh disk) actions)
    (hrun : runFrom (step sorter computeRange) (fresh disk) actions = some m)
    {app : Application W} (hfind : m.apps.find? (appId b).str = some app) :
    app.handler.handlerStatus = {.clueless} ∨
      Describes app.handler.description b.block := by
  have hsimulated := simulated_run (keyed_fresh disk)
    (extracted_of_version hpresentable.version) (shows_fresh disk (appId b))
    hown hrun
  rw [pending_fresh, zero_add] at hsimulated
  obtain ⟨served', reached, hserver, hshows, htotal⟩ := hsimulated
  have hintroduces : ∀ action ∈ served', Server.Introduces b action := by
    intro action hmem
    match action with
    | .locked worker (.welcome cid shown) =>
        have hserved : Input.welcome cid shown ∈
            (served'.map Manager.served).sum :=
          mem_sum_map.mpr ⟨_, hmem, Multiset.mem_singleton_self _⟩
        have hasked : Input.welcome cid shown ∈
            (served'.map Manager.served).sum + m.pending (appId b).str :=
          Multiset.mem_add.mpr (.inl hserved)
        rw [htotal, mem_sum_map] at hasked
        obtain ⟨action, haction, hasked⟩ := hasked
        exact shown_of_asked hpresentable (hwelcomed action haction) hasked
    | .locked worker (.bye cid) | .locked worker (.observation cid)
    | .locked worker .proceed | .parse _ _ | .produce _ _ | .wait _ _ =>
        exact trivial
  have hknows := Server.knows_of_run hintroduces hserver
  have happ := hshows.app
  rw [hfind, Option.getD_some] at happ
  subst happ
  exact hknows.block.symm.imp_left And.left

end Runs

section Shared

open Sample
open Heel.Sample (stableSort)

local instance handshakeOrder : HashOrder Text := HashOrder.stored Text

/-- The description that the clients of the small application have. -/
def presentedDescription : Text :=
  squeeze (Json.write Json.quoted true 0 (composeApplication presented.app) ++
    Json.lineEnd true)

/-- A client introduces itself while another application says goodbye. -/
def introduction : List (Action Bool) :=
  [.receive true ⟨clientTopic (appId presented).str .welcome client,
      presentedDescription⟩,
    .receive false (toBlock "other" "kia" ""), .enter false, .enter true]

def introduced : Manager Bool :=
  (runFrom (step stableSort fun _ _ => .ok [])
    (fresh fun _ => emptyStorage) introduction).get (by decide +kernel)

def introducedHandler : Application Bool :=
  (introduced.apps.find? (appId presented).str).get (by decide +kernel)

theorem knows_of_welcomed_introduced :
    introducedHandler.handler.handlerStatus = {.clueless} ∨
      Describes introducedHandler.handler.description presented.block := by
  have hrun : runFrom (step stableSort fun _ _ => .ok [])
      (fresh fun _ => emptyStorage) introduction = some introduced :=
    (Option.some_get _).symm
  refine knows_of_welcomed presentable_presented ?_ ?_ hrun
    (Option.some_get _).symm
  · intro action haction
    simp only [introduction, List.mem_cons, List.not_mem_nil, or_false]
      at haction
    rcases haction with rfl | rfl | rfl | rfl
    · intro cid info hwelcome
      have hhandled : handleIncomingMessage
          ⟨clientTopic (appId presented).str .welcome client,
            presentedDescription⟩ =
          .ok (.welcome (appId presented) client presentedDescription) := by
        decide +kernel
      rw [hhandled] at hwelcome
      obtain ⟨-, -, rfl⟩ := Handled.welcome.inj (Except.ok.inj hwelcome)
      exact applicationDescription_squeezed
        (acceptedBlocks_of_validate presented.accepted) fun text hmem =>
          unescaped_of_spoken (presentable_presented.spoken text hmem)
    · intro cid info hwelcome
      have hhandled : handleIncomingMessage (toBlock "other" "kia" "") =
          .ok (.kia { Sample.appId with blockName := "other".toList }
            client []) := by
        decide +kernel
      rw [hhandled] at hwelcome
      exact Handled.noConfusion (Except.ok.inj hwelcome)
    · exact trivial
    · exact trivial
  · intro pre action before after hpre _ _
    have haction : action ∈ introduction := hpre.subset (by simp)
    simp only [introduction, List.mem_cons, List.not_mem_nil, or_false]
      at haction
    rcases haction with rfl | rfl | rfl | rfl <;> exact trivial

end Shared

end Manager

end Margot.Agora
