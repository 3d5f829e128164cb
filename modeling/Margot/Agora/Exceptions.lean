/-
When a turn of a worker throws: a message that is to be sent cannot be composed,
or an iteration asks for a launcher that was never made.
-/
import Margot.Agora.Outcomes

namespace Margot.Agora

namespace Handler

variable [HashOrder Text]

/-- The predictions can be composed. -/
def composesPrediction (h : Handler) : Bool :=
  (predictionPayload h.description h.prediction).isSome

/-- The next message that is sent at this position, if any, can be composed. -/
def Composes (h : Handler) (storage : Storage) : Position → Prop
  | .answering _ =>
      if h.checkState .exploring then h.composesNext = true
      else h.checkState .withPrediction = true → h.composesPrediction = true
  | .parsed _ => h.isDoeValid = true →
      h.numConfigurationsSentPerIteration < h.numConfigurationsPerIteration →
        h.composesNext = true
  | .awaiting .prediction [] =>
      (h.loadPrediction storage).isPredictionValid = true →
        (h.loadPrediction storage).composesPrediction = true
  | .restarting (_ :: _) => h.composesNext = true
  | _ => True

omit [HashOrder Text] in
/-- There is a launcher for every plugin of an iteration. -/
structure Launchable (h : Handler) : Prop where
  models : ∀ config ∈ h.modelConfigs.entries, config.2 ∈ h.modelLaunchers
  cluster : h.areFeaturesEnabled = true → h.clusterLauncher = true

omit [HashOrder Text] in
/-- There is a launcher for what is launched at this position. -/
def Launches (h : Handler) : Position → Prop
  | .parsed _ => ¬ (h.isDoeValid = true ∧
      h.numConfigurationsSentPerIteration < h.numConfigurationsPerIteration) →
        h.Launchable
  | _ => True

section Throwing

variable {h g : Handler} {storage : Storage} {position : Position}
  {input : Input} {sender : Sender} {cid : ClientId}

theorem not_composesNext_of_error
    (hthrown : h.sendConfiguration sender cid = .error g) :
    h.composesNext ≠ true :=
  fun hcomposes => sendConfiguration_ne_error hcomposes hthrown

theorem exists_error_of_not_composesNext (hfails : h.composesNext ≠ true)
    (sender : Sender) (cid : ClientId) :
    ∃ g, h.sendConfiguration sender cid = .error g := by
  rw [composesNext] at hfails
  cases hnext : h.doe.getNext with
  | none =>
      rw [hnext] at hfails
      exact absurd rfl hfails
  | some found =>
      obtain ⟨entry, doe⟩ := found
      rw [hnext] at hfails
      exact ⟨_, sendConfiguration_eq_error.mpr ⟨entry, doe, hnext,
        Option.not_isSome_iff_eq_none.mp hfails, rfl⟩⟩

theorem not_composesPrediction_of_error {message : Message}
    (hthrown : h.send sender message = .error g)
    (hmessage : h.payload message =
      predictionPayload h.description h.prediction) :
    h.composesPrediction ≠ true := by
  have hnone := (send_eq_error.mp hthrown).1
  rw [hmessage] at hnone
  rw [composesPrediction, hnone]
  exact Bool.false_ne_true

/-- An iteration throws where a launcher is missing. -/
theorem nextConfiguration_iterating (hfull : ¬ (h.isDoeValid = true ∧
      h.numConfigurationsSentPerIteration < h.numConfigurationsPerIteration)) :
    (∃ g, h.nextConfiguration cid = .error g) ↔ ¬ h.Launchable := by
  have hguard : (h.isDoeValid && h.numConfigurationsSentPerIteration <
      h.numConfigurationsPerIteration) ≠ true := by
    simpa using hfull
  rw [nextConfiguration, if_neg hguard]
  simp only [bind_eq_error]
  constructor
  · rintro ⟨g, hthrown | ⟨modeling, hmodeling, hrest⟩⟩ hlaunchable
    · cases hthrown.symm.trans (if_pos hlaunchable.models)
    · obtain rfl :=
        Except.ok.inj (hmodeling.symm.trans (if_pos hlaunchable.models))
      split at hrest
      · next hfeatures =>
          have hthrown := bind_pure_eq_error.mp hrest
          cases hthrown.symm.trans (if_pos (hlaunchable.cluster hfeatures))
      · cases hrest
  · intro hfails
    by_cases hmodels :
        ∀ config ∈ h.modelConfigs.entries, config.2 ∈ h.modelLaunchers
    · have hcluster : ¬ (h.areFeaturesEnabled = true →
          h.clusterLauncher = true) := fun hcluster => hfails ⟨hmodels, hcluster⟩
      obtain ⟨hfeatures, hmissing⟩ := Classical.not_imp.mp hcluster
      refine ⟨(h.nextIteration.setState {.buildingModel}).addState
        {.buildingCluster}, .inr ⟨_, if_pos hmodels, ?_⟩⟩
      rw [if_pos hfeatures]
      exact bind_eq_error.mpr (.inl (if_neg hmissing))
    · exact ⟨_, .inl (if_neg hmodels)⟩

/-- A turn does not throw if its message can be composed and no launcher is
missing. -/
theorem not_throws (hcomposes : h.Composes storage position)
    (hlaunches : h.Launches position) :
    ¬ h.Throws storage position input g := by
  intro hthrows
  cases hthrows with
  | answer cid hthrown =>
      rw [Composes] at hcomposes
      rcases unsent_of_answer hthrown with
        ⟨hexploring, hunsent⟩ | ⟨hexploring, hprediction, hunsent⟩
      · rw [if_pos hexploring] at hcomposes
        exact not_composesNext_of_error hunsent hcomposes
      · rw [if_neg hexploring] at hcomposes
        exact not_composesPrediction_of_error hunsent rfl
          (hcomposes hprediction)
  | next cid hthrown =>
      by_cases hsend : h.isDoeValid = true ∧
          h.numConfigurationsSentPerIteration < h.numConfigurationsPerIteration
      · rw [nextConfiguration, if_pos (by simpa using hsend)] at hthrown
        have hunsent := bind_pure_eq_error.mp hthrown
        exact not_composesNext_of_error hunsent (hcomposes hsend.1 hsend.2)
      · exact (nextConfiguration_iterating hsend).mp ⟨g, hthrown⟩
          (hlaunches hsend)
  | restart clients hthrown =>
      cases clients with
      | nil => cases hthrown
      | cons cid rest =>
          have hunsent := bind_pure_eq_error.mp hthrown
          exact not_composesNext_of_error hunsent hcomposes
  | awaited phase hthrown =>
      obtain ⟨rfl, hvalid, hunsent⟩ := unsent_of_continueObservation hthrown
      exact not_composesPrediction_of_error hunsent rfl (hcomposes hvalid)

/-- No plugin is at work for the handler. -/
structure Unoccupied (h : Handler) : Prop where
  buildingDoe : h.checkState .buildingDoe = false
  buildingModel : h.checkState .buildingModel = false
  buildingCluster : h.checkState .buildingCluster = false
  buildingPrediction : h.checkState .buildingPrediction = false
  recovering : h.checkState .recovering = false

theorem throws_answer (hunoccupied : h.Unoccupied)
    (hfails : ¬ h.Composes storage (.answering cid)) :
    ∃ g, h.answer cid = .error g := by
  rw [Composes] at hfails
  rw [answer, hunoccupied.buildingDoe, hunoccupied.buildingModel,
    hunoccupied.buildingCluster, hunoccupied.buildingPrediction,
    hunoccupied.recovering]
  simp only [Bool.false_eq_true, Bool.or_self, if_false]
  split at hfails
  · next hexploring =>
      obtain ⟨g, hunsent⟩ :=
        exists_error_of_not_composesNext hfails .welcomeClient cid
      rw [if_pos hexploring, hunsent]
      exact ⟨g, rfl⟩
  · next hexploring =>
      obtain ⟨hprediction, hnone⟩ := Classical.not_imp.mp hfails
      have hunsent : h.send .welcomeClient (.prediction cid) = .error h :=
        send_eq_error.mpr ⟨Option.not_isSome_iff_eq_none.mp hnone, rfl⟩
      rw [if_neg hexploring, if_pos hprediction, hunsent]
      exact ⟨h, rfl⟩

/-- A turn throws if its message cannot be composed or a launcher is missing:
what a welcome is answered depends on no plugin being at work. -/
theorem exists_throws (hunoccupied : ∀ cid, position = .answering cid →
      h.Unoccupied)
    (hfails : ¬ (h.Composes storage position ∧ h.Launches position)) :
    ∃ g, h.Throws storage position .proceed g := by
  match position with
  | .answering cid =>
      have hcompose : ¬ h.Composes storage (.answering cid) :=
        fun hcomposes => hfails ⟨hcomposes, trivial⟩
      obtain ⟨g, hthrown⟩ := throws_answer (hunoccupied cid rfl) hcompose
      exact ⟨g, .answer cid hthrown⟩
  | .parsed cid =>
      by_cases hsend : h.isDoeValid = true ∧
          h.numConfigurationsSentPerIteration < h.numConfigurationsPerIteration
      · have hcompose : h.composesNext ≠ true := fun hcomposes =>
          hfails ⟨fun _ _ => hcomposes, fun hfull => absurd hsend hfull⟩
        obtain ⟨g, hunsent⟩ :=
          exists_error_of_not_composesNext hcompose .processObservation cid
        refine ⟨g, .next cid ?_⟩
        rw [nextConfiguration, if_pos (by simpa using hsend), hunsent]
        rfl
      · have hlaunch : ¬ h.Launchable := fun hlaunchable =>
          hfails ⟨fun hdoe hless => absurd ⟨hdoe, hless⟩ hsend,
            fun _ => hlaunchable⟩
        obtain ⟨g, hthrown⟩ := (nextConfiguration_iterating hsend).mpr hlaunch
        exact ⟨g, .next cid hthrown⟩
  | .restarting (cid :: rest) =>
      have hcompose : h.composesNext ≠ true :=
        fun hcomposes => hfails ⟨hcomposes, trivial⟩
      obtain ⟨g, hunsent⟩ :=
        exists_error_of_not_composesNext hcompose .processObservation cid
      refine ⟨g, .restart (cid :: rest) ?_⟩
      rw [sendNext, hunsent]
      rfl
  | .awaiting .prediction [] =>
      have hcompose : ¬ h.Composes storage (.awaiting .prediction []) :=
        fun hcomposes => hfails ⟨hcomposes, trivial⟩
      obtain ⟨hvalid, hnone⟩ := Classical.not_imp.mp hcompose
      have hunsent : ((h.loadPrediction storage).setState
          {.withPrediction}).send .processObservation .broadcast =
            .error ((h.loadPrediction storage).setState {.withPrediction}) :=
        send_eq_error.mpr ⟨Option.not_isSome_iff_eq_none.mp hnone, rfl⟩
      refine ⟨(h.loadPrediction storage).setState {.withPrediction},
        .awaited .prediction ?_⟩
      simp only [continueObservation]
      rw [if_pos hvalid, hunsent]
      rfl
  | .idle | .observed _ | .recovering _ _ _ | .restarting []
  | .awaiting .modeling _ | .awaiting .doe _
  | .awaiting .prediction (_ :: _) => exact absurd ⟨trivial, trivial⟩ hfails

end Throwing

end Handler

namespace Server

variable {W : Type} [HashOrder Text]

/-- The message that the step sends, if any, can be composed. -/
def Composes (s : Server W) : Action W → Prop
  | .locked worker .proceed =>
      s.handler.Composes s.storage (s.position worker)
  | _ => True

omit [HashOrder Text] in
/-- There is a launcher for what the step launches. -/
def Launches (s : Server W) : Action W → Prop
  | .locked worker .proceed => s.handler.Launches (s.position worker)
  | _ => True

end Server

end Margot.Agora
