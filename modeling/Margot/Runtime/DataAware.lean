/-
The data-aware manager: one manager for each cluster of input features.  The
methods that state the optimization problems are broadcast to every cluster,
the other ones are forwarded to the active cluster, and a new cluster starts
from a sibling of the first one.
-/
import Margot.Library.Runs
import Margot.Runtime.Agenda

namespace Margot

variable {g : Geometry} {F I P : Type} [LinearOrder P]

/-- The clusters in the order of their insertion, and the position of the
active one, which is their number when there is none. -/
structure DataAwareAsrtm (F : Type) (g : Geometry) (I P : Type)
    [LinearOrder P] where
  managers : List (F × Asrtm g I (State g P))
  activeManager : Nat

namespace DataAwareAsrtm

def new : DataAwareAsrtm F g I P := ⟨[], 0⟩

/-- What happens to a data-aware manager; a message of the server is either a
configuration to explore or a model, with the Operating Points of every
cluster. -/
inductive Action (F : Type) (g : Geometry) (I P : Type) [LinearOrder F] where
  | addFeatureCluster (key : F)
  | selectFeatureCluster (key : F)
  | problem (call : Asrtm.ProblemCall g I P)
  | usage (call : Asrtm.UsageCall g)
  | explore (point : OperatingPoint g)
  | prediction (model : OrderedMap F (List (OperatingPoint g)))
  | changeGoals (goalValue : GoalRef → ℚ)
  | observe (monitor : MonitorRef → CircularBuffer ℚ)

/-- A method that is applied to every cluster, one after the other. -/
def broadcast (change : Store g → Asrtm g I (State g P) →
      Option (Store g × Asrtm g I (State g P))) :
    Store g → List (F × Asrtm g I (State g P)) →
      Option (Store g × List (F × Asrtm g I (State g P)))
  | store, [] => some (store, [])
  | store, (key, m) :: rest =>
      (change store m).bind fun changed =>
        (broadcast change changed.1 rest).map fun result =>
          (result.1, (key, changed.2) :: result.2)

/-- A method that is applied to the active cluster, which it asserts. -/
def forward (d : DataAwareAsrtm F g I P) (store : Store g)
    (change : Store g → Asrtm g I (State g P) →
      Option (Store g × Asrtm g I (State g P))) :
    Option (Store g × DataAwareAsrtm F g I P) :=
  d.managers[d.activeManager]?.bind fun active =>
    (change store active.2).map fun changed =>
      (changed.1, { d with
        managers := d.managers.set d.activeManager (active.1, changed.2) })

section Step

variable [LinearOrder F] [DecidableEq I] [HashOrder I]
  [HashOrder (OperatingPointPtr g)]

/-- The sibling is moved into the container.  The iterators of the container
are invalid afterwards, so the active cluster is found again by its key. -/
def addFeatureCluster (d : DataAwareAsrtm F g I P) (store : Store g)
    (key : F) : Option (Store g × DataAwareAsrtm F g I P) :=
  match d.managers with
  | [] => some (store, ⟨[(key, Asrtm.new)], 0⟩)
  | first :: _ =>
      d.managers[d.activeManager]?.map fun actual =>
        let sibling := first.2.createSibling store
        let managers := d.managers ++ [(key, sibling.2.copy)]
        (sibling.1,
          ⟨managers, managers.findIdx fun manager => manager.1 = actual.1⟩)

/-- The loop over the clusters that keeps the closest one; the selector only
looks at the keys. -/
def closest (getClosest : F → F → F → Bool) (key : F)
    (managers : List (F × Asrtm g I (State g P))) (first : F) : Nat :=
  ((managers.zipIdx.drop 1).foldl (fun best target =>
    if getClosest key best.1 target.1.1 then (target.1.1, target.2) else best)
    (first, 0)).2

def selectFeatureCluster (getClosest : F → F → F → Bool)
    (d : DataAwareAsrtm F g I P) (key : F) :
    Option (DataAwareAsrtm F g I P) :=
  match d.managers with
  | [] => none
  | first :: _ =>
      let activeManager := closest getClosest key d.managers first.1
      some ⟨if activeManager ≠ d.activeManager then
          d.managers.modify activeManager fun manager =>
            (manager.1, manager.2.restoreFromDataFeatureSwitch)
        else d.managers, activeManager⟩

/-- The loop over the model that creates the new clusters. -/
def setModels (reference : Asrtm g I (State g P)) :
    Store g → List (F × List (OperatingPoint g)) →
      Store g × List (F × Asrtm g I (State g P))
  | store, [] => (store, [])
  | store, (key, ops) :: rest =>
      let sibling := reference.createSibling store
      let replaced := sibling.2.copy.setModel sibling.1 ops
      let result := setModels reference replaced.1 rest
      (result.1, (key, replaced.2) :: result.2)

/-- The message with the final model replaces all the clusters. -/
def prediction (d : DataAwareAsrtm F g I P) (store : Store g)
    (model : OrderedMap F (List (OperatingPoint g))) :
    Option (Store g × DataAwareAsrtm F g I P) :=
  d.managers.head?.map fun first =>
    let reference := first.2.createSibling store
    let result := setModels reference.2 reference.1 model.entries
    (result.1, ⟨result.2, 0⟩)

/-- `none` is a failed assertion or the use of an invalid iterator. -/
def step (getClosest : F → F → F → Bool)
    (world : Store g × DataAwareAsrtm F g I P) :
    Action F g I P → Option (Store g × DataAwareAsrtm F g I P)
  | .addFeatureCluster key => world.2.addFeatureCluster world.1 key
  | .selectFeatureCluster key =>
      (world.2.selectFeatureCluster getClosest key).map fun d => (world.1, d)
  | .problem call =>
      (broadcast (fun store m => m.runProblem store call) world.1
        world.2.managers).map fun result =>
          (result.1, { world.2 with managers := result.2 })
  | .usage call => world.2.forward world.1 fun store m => m.runUsage store call
  | .explore point =>
      if world.2.managers.isEmpty then none
      else
        (broadcast (fun store m => some (m.setSinglePoint store point)) world.1
          world.2.managers).map fun result =>
            (result.1, { world.2 with managers := result.2 })
  | .prediction model => world.2.prediction world.1 model
  | .changeGoals goalValue =>
      some ({ world.1 with goalValue := goalValue }, world.2)
  | .observe monitor => some ({ world.1 with monitor := monitor }, world.2)

end Step

/-- A selection tells at most the cluster that it makes active that the
features have switched, and keeps the keys. -/
theorem keys_of_selectFeatureCluster {d next : DataAwareAsrtm F g I P}
    {getClosest : F → F → F → Bool} {key : F}
    (hselect : d.selectFeatureCluster getClosest key = some next) :
    next.managers.map Prod.fst = d.managers.map Prod.fst := by
  cases hmanagers : d.managers with
  | nil =>
      rw [selectFeatureCluster, hmanagers] at hselect
      contradiction
  | cons first rest =>
      rw [selectFeatureCluster, hmanagers] at hselect
      injection hselect with hnext
      rw [← hnext]
      dsimp only
      split
      · apply List.ext_getElem (by simp)
        intro index hindex hother
        rw [List.getElem_map, List.getElem_map, List.getElem_modify]
        split <;> rfl
      · rfl

/-- The states of two clusters state the same problems, and
`which_active_state` gives the same answer for both. -/
def Agree [DecidableEq I] (d : DataAwareAsrtm F g I P) : Prop :=
  ∀ first ∈ d.managers, ∀ second ∈ d.managers,
    first.2.agenda.problems = second.2.agenda.problems ∧
      first.2.whichActiveState = second.2.whichActiveState

section Agree

variable [DecidableEq I] {d next : DataAwareAsrtm F g I P}
  {managers others : List (F × Asrtm g I (State g P))} {store after : Store g}

theorem agree_iff :
    d.Agree ↔ ∀ first ∈ d.managers, ∀ second ∈ d.managers,
      first.2.agenda = second.2.agenda := by
  refine forall₂_congr fun first _ => forall₂_congr fun second _ => ?_
  exact (Agenda.mk.injEq _ _ _ _).to_iff.symm

/-- Every cluster has the agenda that some cluster had before, changed in the
same way. -/
theorem agree_of_effect (effect : Agenda g I P → Agenda g I P)
    (hagree : d.Agree)
    (hmanagers : ∀ manager ∈ next.managers, ∃ old ∈ d.managers,
      manager.2.agenda = effect old.2.agenda) :
    next.Agree := by
  rw [agree_iff] at hagree ⊢
  intro first hfirst second hsecond
  obtain ⟨firstOld, hfirstOld, hfirstAgenda⟩ := hmanagers first hfirst
  obtain ⟨secondOld, hsecondOld, hsecondAgenda⟩ := hmanagers second hsecond
  rw [hfirstAgenda, hsecondAgenda, hagree firstOld hfirstOld secondOld hsecondOld]

omit [DecidableEq I] in
/-- After a broadcast every cluster is one that the method was applied to. -/
theorem mem_broadcast {change : Store g → Asrtm g I (State g P) →
      Option (Store g × Asrtm g I (State g P))}
    (hbroadcast : broadcast change store managers = some (after, others))
    {manager : F × Asrtm g I (State g P)} (hmanager : manager ∈ others) :
    ∃ old ∈ managers, ∃ before changed,
      change before old.2 = some (changed, manager.2) := by
  induction managers generalizing store others with
  | nil =>
      obtain ⟨-, rfl⟩ := Prod.mk.inj (Option.some.inj hbroadcast)
      contradiction
  | cons head rest ih =>
      obtain ⟨changed, hchange, hrest⟩ := Option.bind_eq_some_iff.mp hbroadcast
      obtain ⟨⟨_, changedRest⟩, hresult, heq⟩ := Option.map_eq_some_iff.mp hrest
      obtain ⟨rfl, rfl⟩ := Prod.mk.inj heq
      rcases List.mem_cons.mp hmanager with rfl | htail
      · exact ⟨head, List.mem_cons_self, store, changed.1, hchange⟩
      · obtain ⟨old, hold, hkept⟩ := ih hresult htail
        exact ⟨old, List.mem_cons_of_mem head hold, hkept⟩

theorem agree_broadcast {change : Store g → Asrtm g I (State g P) →
      Option (Store g × Asrtm g I (State g P))}
    (effect : Agenda g I P → Agenda g I P)
    (heffect : ∀ before m changed next, change before m = some (changed, next) →
      next.agenda = effect m.agenda)
    (hagree : d.Agree)
    (hbroadcast : broadcast change store d.managers = some (after, others)) :
    { d with managers := others }.Agree := by
  refine agree_of_effect effect hagree fun manager hmanager => ?_
  obtain ⟨old, hold, before, changed, hchange⟩ :=
    mem_broadcast hbroadcast hmanager
  exact ⟨old, hold, heffect _ _ _ _ hchange⟩

theorem agree_forward (change : Store g → Asrtm g I (State g P) →
      Option (Store g × Asrtm g I (State g P)))
    (hkeep : ∀ before m changed next, change before m = some (changed, next) →
      next.agenda = m.agenda)
    (hagree : d.Agree)
    (hforward : d.forward store change = some (after, next)) : next.Agree := by
  obtain ⟨active, hactive, hmap⟩ := Option.bind_eq_some_iff.mp hforward
  obtain ⟨changed, hchange, heq⟩ := Option.map_eq_some_iff.mp hmap
  obtain ⟨-, rfl⟩ := Prod.mk.inj heq
  refine agree_of_effect id hagree fun manager hmanager => ?_
  rcases List.mem_or_eq_of_mem_set hmanager with hold | rfl
  · exact ⟨manager, hold, rfl⟩
  · exact ⟨active, List.mem_of_getElem? hactive, hkeep _ _ _ _ hchange⟩

/-- A switch of the cluster only resets a configuration. -/
theorem agree_selectFeatureCluster {getClosest : F → F → F → Bool} {key : F}
    (hagree : d.Agree)
    (hselect : d.selectFeatureCluster getClosest key = some next) :
    next.Agree := by
  rw [selectFeatureCluster] at hselect
  split at hselect
  · contradiction
  · obtain rfl := Option.some.inj hselect
    refine agree_of_effect id hagree fun manager hmanager => ?_
    simp only at hmanager
    split at hmanager
    · obtain ⟨position, hposition, rfl⟩ := List.mem_iff_getElem.mp hmanager
      rw [List.length_modify] at hposition
      refine ⟨d.managers[position], List.getElem_mem hposition, ?_⟩
      rw [List.getElem_modify]
      split <;> rfl
    · exact ⟨manager, hmanager, rfl⟩

section Clusters

variable [HashOrder I] [HashOrder (OperatingPointPtr g)]

/-- All the clusters of a model have the problems of the reference manager and
the same active state. -/
theorem agenda_setModels {reference : Asrtm g I (State g P)}
    {model : List (F × List (OperatingPoint g))}
    {manager : F × Asrtm g I (State g P)}
    (hmanager : manager ∈ (setModels reference store model).2) :
    manager.2.agenda = ⟨reference.agenda.problems, reference.siblingState⟩ := by
  induction model generalizing store with
  | nil => contradiction
  | cons entry rest ih =>
      rcases List.mem_cons.mp hmanager with rfl | htail
      · rw [Asrtm.agenda_setModel]
        exact Asrtm.agenda_copy_createSibling reference store
      · exact ih htail

theorem agree_prediction [LinearOrder F]
    {model : OrderedMap F (List (OperatingPoint g))}
    (hprediction : d.prediction store model = some (after, next)) :
    next.Agree := by
  obtain ⟨first, -, heq⟩ := Option.map_eq_some_iff.mp hprediction
  obtain ⟨-, rfl⟩ := Prod.mk.inj heq
  rw [agree_iff]
  intro one hone other hother
  rw [agenda_setModels hone, agenda_setModels hother]

variable [LinearOrder F] {key : F}

omit [HashOrder (OperatingPointPtr g)] in
/-- A new cluster agrees with the others exactly when the sibling of the first
cluster finds its active state again. -/
theorem agree_addFeatureCluster_iff (hagree : d.Agree)
    (hadd : d.addFeatureCluster store key = some (after, next)) :
    next.Agree ↔ ∀ first ∈ d.managers.head?,
      first.2.siblingState = first.2.currentOptimizer := by
  rw [addFeatureCluster] at hadd
  split at hadd
  · next hnil =>
      obtain ⟨-, rfl⟩ := Prod.mk.inj (Option.some.inj hadd)
      simp [agree_iff, hnil]
  · next first rest hcons =>
      obtain ⟨actual, -, heq⟩ := Option.map_eq_some_iff.mp hadd
      obtain ⟨-, rfl⟩ := Prod.mk.inj heq
      have hfirst : first ∈ d.managers := by simp [hcons]
      have hhead : d.managers.head? = some first := by simp [hcons]
      have hsibling := Asrtm.agenda_copy_createSibling first.2 store
      rw [hhead]
      simp only [Option.mem_def, Option.some.injEq, forall_eq']
      constructor
      · intro hnext
        have hsame := (agree_iff.mp hnext) _
          (List.mem_append_right _ List.mem_cons_self) first
          (List.mem_append_left _ hfirst)
        rw [hsibling] at hsame
        exact congrArg Agenda.active hsame
      · intro hactive
        refine agree_of_effect id hagree fun manager hmanager => ?_
        rcases List.mem_append.mp hmanager with hold | hnew
        · exact ⟨manager, hold, rfl⟩
        · obtain rfl := List.mem_singleton.mp hnew
          refine ⟨first, hfirst, ?_⟩
          rw [hsibling, hactive]
          rfl

/-- The sibling that a new cluster is made of finds the active state of the
first cluster again. -/
def KeepsActiveState (world : Store g × DataAwareAsrtm F g I P) :
    Action F g I P → Prop
  | .addFeatureCluster _ => ∀ first ∈ world.2.managers.head?,
      first.2.siblingState = first.2.currentOptimizer
  | _ => True

theorem agree_step {getClosest : F → F → F → Bool}
    {before reached : Store g × DataAwareAsrtm F g I P}
    {action : Action F g I P} (hagree : before.2.Agree)
    (hkeeps : KeepsActiveState before action)
    (hstep : step getClosest before action = some reached) :
    reached.2.Agree := by
  cases action with
  | addFeatureCluster key =>
      exact (agree_addFeatureCluster_iff hagree hstep).mpr hkeeps
  | selectFeatureCluster key =>
      obtain ⟨next, hselect, rfl⟩ := Option.map_eq_some_iff.mp hstep
      exact agree_selectFeatureCluster hagree hselect
  | problem call =>
      obtain ⟨⟨_, others⟩, hbroadcast, rfl⟩ := Option.map_eq_some_iff.mp hstep
      exact agree_broadcast (fun agenda => agenda.step call)
        (fun _ _ _ _ hcall => Asrtm.agenda_runProblem hcall) hagree hbroadcast
  | usage call =>
      exact agree_forward (fun store m => m.runUsage store call)
        (fun _ _ _ _ hcall => Asrtm.agenda_runUsage hcall) hagree hstep
  | explore point =>
      rw [step] at hstep
      split at hstep
      · contradiction
      · obtain ⟨⟨_, others⟩, hbroadcast, rfl⟩ :=
          Option.map_eq_some_iff.mp hstep
        refine agree_broadcast id (fun _ m _ _ hset => ?_) hagree hbroadcast
        obtain ⟨-, rfl⟩ := Prod.mk.inj (Option.some.inj hset)
        exact Asrtm.agenda_setSinglePoint m _ point
  | prediction model => exact agree_prediction hstep
  | changeGoals goalValue =>
      obtain rfl := Option.some.inj hstep
      exact hagree
  | observe monitor =>
      obtain rfl := Option.some.inj hstep
      exact hagree

/-- The clusters agree in every state that a run reaches exactly when every new
cluster finds the active state of the first one again. -/
theorem agree_allReached_iff (getClosest : F → F → F → Bool) (store : Store g)
    (actions : List (Action F g I P)) :
    AllReached (step getClosest) (fun world => world.2.Agree) (store, new)
        actions ↔
      AllSteps (step getClosest) KeepsActiveState (store, new) actions := by
  refine allReached_iff_allSteps
    (fun world : Store g × DataAwareAsrtm F g I P => world.2.Agree) ?_
    (fun _ hagree => hagree) ?_ ?_
  · exact fun before action after => agree_step
  · intro before action after hagree hstep hafter
    cases action with
    | addFeatureCluster key =>
        exact (agree_addFeatureCluster_iff hagree hstep).mp hafter
    | _ => trivial
  · intro first hfirst
    contradiction

end Clusters

end Agree

section Forgotten

/-- The active state of the first cluster is not the last one when the second
cluster is created. -/
def forgetting : List (Action Nat Geometry.single Nat Nat) :=
  [.addFeatureCluster 5, .problem (.createNewState 0),
    .problem (.createNewState 1), .problem (.changeActiveState 0),
    .addFeatureCluster 2]

def forgotten :
    Store Geometry.single × DataAwareAsrtm Nat Geometry.single Nat Nat :=
  (runFrom (step fun _ _ _ => false) (Store.initial, new) forgetting).get
    (by decide +kernel)

theorem not_agree_forgotten :
    ¬ ∀ actions : List (Action Nat Geometry.single Nat Nat),
      AllReached (step fun _ _ _ => false) (fun world => world.2.Agree)
        (Store.initial, new) actions := by
  intro hall
  have hagree : forgotten.2.Agree := hall forgetting forgetting forgotten
    List.prefix_rfl (Option.some_get _).symm
  have hdiffer : ¬ ∀ first ∈ forgotten.2.managers.map Prod.snd,
      ∀ second ∈ forgotten.2.managers.map Prod.snd,
        first.currentOptimizer = second.currentOptimizer := by
    decide +kernel
  refine hdiffer fun first hfirst second hsecond => ?_
  obtain ⟨one, hone, rfl⟩ := List.mem_map.mp hfirst
  obtain ⟨other, hother, rfl⟩ := List.mem_map.mp hsecond
  exact (hagree one hone other hother).2

end Forgotten

end DataAwareAsrtm

end Margot
