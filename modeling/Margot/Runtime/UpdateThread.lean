/-
The application thread and the support thread.  The application thread repeats
the generated update sequence, of which every call locks the manager on its
own; between two of its calls the support thread may replace the knowledge, and
the goals and the monitors may change.
-/
import Margot.Runtime.Ready

namespace Margot

variable {g : Geometry} {I P : Type} [LinearOrder P]

/-- The next call of the application thread: the test whether the knowledge is
empty, or one of the three calls of the update. -/
inductive Position where
  | idle
  | checked
  | found
  | changed
deriving Repr, DecidableEq

structure Threads (g : Geometry) (I P : Type) [LinearOrder P] where
  store : Store g
  manager : Asrtm g I (State g P)
  position : Position

namespace Threads

inductive Action (g : Geometry) where
  | application
  | setSinglePoint (point : OperatingPoint g)
  | setModel (model : {ops : List (OperatingPoint g) // ops ≠ []})
  | changeGoals (goalValue : GoalRef → ℚ)
  | observe (monitor : MonitorRef → CircularBuffer ℚ)

section Step

variable [DecidableEq I] [HashOrder (OperatingPointPtr g)]

/-- The next call of the generated `update` function. -/
def application (threads : Threads g I P) : Option (Threads g I P) :=
  match threads.position with
  | .idle =>
      some { threads with
        position :=
          if threads.manager.isApplicationKnowledgeEmpty then .idle
          else .checked }
  | .checked =>
      (threads.manager.findBestConfiguration threads.store).map fun found =>
        ⟨found.1, found.2, .found⟩
  | .found =>
      threads.manager.getBestConfiguration.map fun best =>
        { threads with
          manager := best.2.2
          position := if best.2.1 then .changed else .idle }
  | .changed =>
      let applied := threads.manager.configurationApplied threads.store
      some ⟨applied.1, applied.2, .idle⟩

def step (threads : Threads g I P) : Action g → Option (Threads g I P)
  | .application => threads.application
  | .setSinglePoint point =>
      let replaced := threads.manager.setSinglePoint threads.store point
      some { threads with store := replaced.1, manager := replaced.2 }
  | .setModel model =>
      let replaced := threads.manager.setModel threads.store model.1
      some { threads with store := replaced.1, manager := replaced.2 }
  | .changeGoals goalValue =>
      some { threads with
        store := { threads.store with goalValue := goalValue } }
  | .observe monitor =>
      some { threads with store := { threads.store with monitor := monitor } }

end Step

/-- No null configuration is about to be read, neither the proposed one by
`get_best_configuration` nor the one in use by `find_best_configuration`. -/
structure Safe (threads : Threads g I P) : Prop where
  proposed : threads.position = .found →
    threads.manager.proposedBestConfiguration ≠ none
  applied : threads.manager.status = .tuned →
    threads.manager.applicationConfiguration ≠ none

/-- The knowledge is not replaced between `find_best_configuration` and
`get_best_configuration`, nor by a model between `get_best_configuration` and
`configuration_applied`. -/
def Undisturbed (threads : Threads g I P) : Action g → Prop
  | .application =>
      threads.position = .changed → threads.manager.status ≠ .withPrediction
  | .setSinglePoint _ => threads.position ≠ .found
  | .setModel _ => threads.position ≠ .found
  | _ => True

/-- What holds whatever the threads do, as long as they do not disturb each
other. -/
structure Steady [DecidableEq I] (threads : Threads g I P) : Prop where
  active : threads.manager.ActiveReady
  known : threads.position = .checked →
    threads.manager.knowledge.empty = false
  safe : threads.Safe
  retrieved : threads.position = .changed →
    threads.manager.status ≠ .withPrediction →
    threads.manager.status ≠ .designSpaceExploration →
    threads.manager.proposedBestConfiguration ≠ none
  replaced : threads.position = .changed →
    threads.manager.status = .withPrediction →
    threads.manager.proposedBestConfiguration = none

end Threads

theorem ApplicationStatus.unlessExploring_ne
    {status next other : ApplicationStatus} (hnext : next ≠ other)
    (hother : other ≠ .designSpaceExploration) :
    status.unlessExploring next ≠ other := by
  rw [unlessExploring]
  split
  · exact hnext
  · exact hother.symm

section Invariant

variable [HashOrder (OperatingPointPtr g)]

variable [DecidableEq I]

namespace Threads

variable {before after : Threads g I P}

/-- The step lemma of the application thread, one call at a time. -/
theorem steady_application (hsteady : before.Steady)
    (hundisturbed : before.Undisturbed .application)
    (hstep : before.application = some after) : after.Steady := by
  rw [application] at hstep
  split at hstep
  · next hidle =>
      obtain rfl := Option.some.inj hstep
      refine ⟨hsteady.active, fun hchecked => ?_, ⟨fun hfound => ?_,
        hsteady.safe.applied⟩, fun hchanged => ?_, fun hchanged => ?_⟩
      · simp only at hchecked
        split at hchecked
        · contradiction
        · next hknown => exact Bool.eq_false_of_not_eq_true hknown
      all_goals
        exfalso
        simp only at *
        split at * <;> contradiction
  · next hchecked =>
      obtain ⟨⟨store, next⟩, hfound, rfl⟩ := Option.map_eq_some_iff.mp hstep
      obtain ⟨hactive, hproposed, hstatus, hconfiguration⟩ :=
        Asrtm.activeReady_findBestConfiguration hsteady.active
          (hsteady.known hchecked) hfound
      refine ⟨hactive, nofun, ⟨fun _ => hproposed, ?_⟩, nofun, nofun⟩
      simp only [hstatus, hconfiguration]
      exact hsteady.safe.applied
  · next hfound =>
      obtain ⟨best, hbest, rfl⟩ := Option.map_eq_some_iff.mp hstep
      obtain ⟨proposed, hproposed, rfl⟩ := Option.map_eq_some_iff.mp hbest
      split
      · refine ⟨hsteady.active, nofun, ⟨nofun, fun htuned => ?_⟩, fun _ _ _ => ?_,
          fun _ hpredicted => ?_⟩
        · exact absurd htuned (ApplicationStatus.unlessExploring_ne (by decide)
            (by decide))
        · simp only [hproposed]
          exact Option.some_ne_none proposed
        · exact absurd hpredicted (ApplicationStatus.unlessExploring_ne
            (by decide) (by decide))
      · exact ⟨hsteady.active, nofun, ⟨nofun, hsteady.safe.applied⟩, nofun,
          nofun⟩
  · next hchanged =>
      obtain rfl := Option.some.inj hstep
      refine ⟨hsteady.active, nofun, ⟨nofun, fun htuned => ?_⟩, nofun, nofun⟩
      -- the status was neither that of a new model nor that of an exploration
      refine hsteady.retrieved hchanged (hundisturbed hchanged) fun hexploring => ?_
      rw [Asrtm.configurationApplied, hexploring] at htuned
      contradiction

/-- Replacing the knowledge resets the proposed configuration, which nobody is
about to read. -/
theorem steady_setSinglePoint (hsteady : before.Steady)
    (point : OperatingPoint g) (hposition : before.position ≠ .found)
    (hstep : before.step (.setSinglePoint point) = some after) :
    after.Steady := by
  obtain rfl := Option.some.inj hstep
  obtain ⟨s, hs, -⟩ := hsteady.active
  refine ⟨Asrtm.activeReady_setKnowledgeBase hs before.store [point],
    fun _ => ?_, ⟨fun hfound => absurd hfound hposition, nofun⟩,
    fun _ _ hexploring => absurd rfl hexploring, nofun⟩
  exact Asrtm.not_empty_setKnowledgeBase before.manager before.store
    (List.cons_ne_nil point [])

theorem steady_setModel (hsteady : before.Steady)
    (model : {ops : List (OperatingPoint g) // ops ≠ []})
    (hposition : before.position ≠ .found)
    (hstep : before.step (.setModel model) = some after) : after.Steady := by
  obtain rfl := Option.some.inj hstep
  obtain ⟨s, hs, -⟩ := hsteady.active
  refine ⟨Asrtm.activeReady_setKnowledgeBase hs before.store model.1,
    fun _ => ?_, ⟨fun hfound => absurd hfound hposition, nofun⟩,
    fun _ hpredicted => absurd rfl hpredicted, fun _ _ => rfl⟩
  exact Asrtm.not_empty_setKnowledgeBase before.manager before.store model.2

theorem steady_step {action : Action g} (hsteady : before.Steady)
    (hundisturbed : before.Undisturbed action)
    (hstep : before.step action = some after) : after.Steady := by
  cases action with
  | application => exact steady_application hsteady hundisturbed hstep
  | setSinglePoint point =>
      exact steady_setSinglePoint hsteady point hundisturbed hstep
  | setModel model => exact steady_setModel hsteady model hundisturbed hstep
  | changeGoals goalValue =>
      obtain rfl := Option.some.inj hstep
      exact ⟨hsteady.active, hsteady.known, ⟨hsteady.safe.proposed,
        hsteady.safe.applied⟩, hsteady.retrieved, hsteady.replaced⟩
  | observe monitor =>
      obtain rfl := Option.some.inj hstep
      exact ⟨hsteady.active, hsteady.known, ⟨hsteady.safe.proposed,
        hsteady.safe.applied⟩, hsteady.retrieved, hsteady.replaced⟩

/-- A step that disturbs the application thread leads to a null configuration
that is about to be read. -/
theorem undisturbed_of_safe {action : Action g} (hsteady : before.Steady)
    (hstep : before.step action = some after) (hafter : after.Safe) :
    before.Undisturbed action := by
  cases action with
  | application =>
      intro hchanged hpredicted
      have hproposed := hsteady.replaced hchanged hpredicted
      simp only [step, application, hchanged, Option.some.injEq] at hstep
      subst hstep
      refine hafter.applied ?_ hproposed
      simp only [Asrtm.configurationApplied, hpredicted]
      rfl
  | setSinglePoint point =>
      intro hfound
      obtain rfl := Option.some.inj hstep
      exact hafter.proposed hfound rfl
  | setModel model =>
      intro hfound
      obtain rfl := Option.some.inj hstep
      exact hafter.proposed hfound rfl
  | changeGoals goalValue => trivial
  | observe monitor => trivial

/-- From a manager that is ready, neither thread meets a null configuration
exactly when the support thread never disturbs an update. -/
theorem safe_allReached_iff {m : Asrtm g I (State g P)} (hready : m.Ready)
    (store : Store g) (actions : List (Action g)) :
    AllReached step Safe (⟨store, m, .idle⟩ : Threads g I P) actions ↔
      AllSteps step Undisturbed ⟨store, m, .idle⟩ actions :=
  allReached_iff_allSteps Steady (fun _ _ _ => steady_step)
    (fun _ hsteady => hsteady.safe) (fun _ _ _ => undisturbed_of_safe)
    ⟨hready.active, nofun, ⟨nofun, hready.applied⟩, nofun, nofun⟩

end Threads

end Invariant

namespace Threads

/-- A manager with one state, which is active. -/
def serving : Asrtm Geometry.single Nat (State Geometry.single Nat) :=
  { (Asrtm.new.createNewState 0 : Asrtm Geometry.single Nat
      (State Geometry.single Nat)) with currentOptimizer := some 0 }

/-- The same manager with a model of one Operating Point. -/
def predicting : Asrtm Geometry.single Nat (State Geometry.single Nat) :=
  (serving.setModel Store.initial [OperatingPoint.single 1 5]).2

theorem ready_predicting : predicting.Ready where
  active := by
    obtain ⟨s, hs⟩ : ∃ s, serving.activeState = some s := ⟨_, rfl⟩
    exact Asrtm.activeReady_setKnowledgeBase hs Store.initial _
  applied := nofun

/-- The update of the application thread is interrupted right after the call of
`find_best_configuration`. -/
def interrupting : List (Action Geometry.single) :=
  [.application, .application, .setSinglePoint (OperatingPoint.single 2 6)]

theorem safe_allReached_iff_interrupting :
    AllReached step Safe (⟨Store.initial, predicting, .idle⟩ : Threads _ _ _)
        interrupting ↔
      AllSteps step Undisturbed ⟨Store.initial, predicting, .idle⟩
        interrupting :=
  safe_allReached_iff ready_predicting Store.initial interrupting

def interrupted : Threads Geometry.single Nat Nat :=
  (runFrom step ⟨Store.initial, predicting, .idle⟩ interrupting).get
    (by decide +kernel)

theorem not_safe_interrupted :
    ¬ ∀ m : Asrtm Geometry.single Nat (State Geometry.single Nat), m.Ready →
      ∀ actions : List (Action Geometry.single),
        AllReached step Safe (⟨Store.initial, m, .idle⟩ : Threads _ _ _)
          actions := by
  intro hall
  have hsafe := hall predicting ready_predicting interrupting interrupting
    interrupted List.prefix_rfl (Option.some_get _).symm
  exact hsafe.proposed (by decide +kernel) (by decide +kernel)

end Threads

end Margot
