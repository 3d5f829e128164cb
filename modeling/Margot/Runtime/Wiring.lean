/-
The wiring of the providers of runtime information.  A manager hands its
registered provider to every constraint on the field of that provider; a
sibling keeps the registered providers, but its constraints have none.
-/
import Margot.Runtime.DataAware

namespace Margot

variable {g : Geometry} {F I P : Type} [LinearOrder P] [DecidableEq I]

namespace Asrtm

/-- The problem of every state. -/
def problems (m : Asrtm g I (State g P)) (stateId : I) : Option (Problem g P) :=
  (m.applicationOptimizers.find? stateId).map State.problem

/-- Every constraint of every state has the provider that the manager
registers for its field. -/
def Wired (m : Asrtm g I (State g P)) : Prop :=
  ∀ stateId, ∀ problem ∈ m.problems stateId,
    problem.Wired m.runtimeInformation

/-- No constraint of any state is on a field with a registered provider. -/
def Unprovided (m : Asrtm g I (State g P)) : Prop :=
  ∀ stateId, ∀ problem ∈ m.problems stateId,
    ∀ entry ∈ problem.constraints.entries,
      m.runtimeInformation.getFieldAdaptor entry.2.targetField = none

variable {m next : Asrtm g I (State g P)} {store after : Store g}

theorem wired_of_problems (hproblems : next.problems = m.problems)
    (hinformation : next.runtimeInformation = m.runtimeInformation) :
    next.Wired ↔ m.Wired := by
  rw [Wired, Wired, hproblems, hinformation]

theorem Wired.of_problems (hwired : m.Wired)
    (hproblems : next.problems = m.problems)
    (hinformation : next.runtimeInformation = m.runtimeInformation) :
    next.Wired :=
  (wired_of_problems hproblems hinformation).mpr hwired

/-- What every state keeps is kept by a change of all the states. -/
theorem Wired.onStates {change : State g P → State g P}
    {information : KnowledgeAdaptor g} (hwired : m.Wired)
    (hchange : ∀ s : State g P, s.problem.Wired m.runtimeInformation →
      (change s).problem.Wired information) :
    { m.onStates change with runtimeInformation := information }.Wired := by
  intro stateId problem hproblem
  simp only [problems, Asrtm.onStates, UnorderedMap.find?_map, Option.map_map,
    Option.mem_def, Option.map_eq_some_iff, Function.comp_apply] at hproblem
  obtain ⟨s, hfind, rfl⟩ := hproblem
  exact hchange s (hwired stateId _ (by simp [problems, hfind]))

theorem problems_onStates {change : State g P → State g P}
    (hchange : ∀ s, (change s).problem = s.problem) :
    (m.onStates change).problems = m.problems := by
  funext stateId
  rw [problems, onStates, UnorderedMap.find?_map, Option.map_map]
  exact congrArg (Option.map · _) (funext hchange)

theorem Wired.onActiveState {change : State g P → State g P}
    (hwired : m.Wired)
    (hchange : ∀ s : State g P, s.problem.Wired m.runtimeInformation →
      (change s).problem.Wired m.runtimeInformation)
    (hnext : m.onActiveState change = some next) : next.Wired := by
  obtain ⟨active, -, rfl⟩ := Option.map_eq_some_iff.mp hnext
  intro stateId problem hproblem
  simp only [problems, UnorderedMap.find?_modify, Option.map_map,
    Option.mem_def, Option.map_eq_some_iff, Function.comp_apply] at hproblem
  obtain ⟨s, hfind, rfl⟩ := hproblem
  have hkept := hwired stateId s.problem (by simp [problems, hfind])
  split
  · exact hchange s hkept
  · exact hkept

section Calls

variable [HashOrder (OperatingPointPtr g)]

theorem Wired.createNewState (hwired : m.Wired) (newStateId : I) :
    (m.createNewState newStateId).Wired := by
  rw [Asrtm.createNewState]
  split
  · exact hwired
  · intro stateId problem hproblem
    simp only [problems, UnorderedMap.find?_emplace, Option.mem_def,
      Option.map_eq_some_iff] at hproblem
    obtain ⟨s, hfind, rfl⟩ := hproblem
    split at hfind
    · obtain rfl := Option.some.inj hfind
      rw [State.problem_setKnowledgeAdaptor]
      exact Problem.wired_wire _ _
    · exact hwired stateId s.problem (by simp [problems, hfind])

theorem Wired.runProblem {call : ProblemCall g I P} (hwired : m.Wired)
    (hcall : m.runProblem store call = some (after, next)) : next.Wired := by
  cases call with
  | createNewState newStateId =>
      obtain ⟨-, rfl⟩ := Prod.mk.inj (Option.some.inj hcall)
      exact hwired.createNewState newStateId
  | removeState stateId =>
      obtain ⟨_, hnext, heq⟩ := Option.map_eq_some_iff.mp hcall
      obtain ⟨-, rfl⟩ := Prod.mk.inj heq
      rw [removeState] at hnext
      split at hnext
      · contradiction
      · obtain rfl := Option.some.inj hnext
        intro other problem hproblem
        simp only [problems, UnorderedMap.find?_erase] at hproblem
        split at hproblem
        · contradiction
        · exact hwired other problem hproblem
  | changeActiveState stateId =>
      obtain ⟨_, hnext, heq⟩ := Option.map_eq_some_iff.mp hcall
      obtain ⟨-, rfl⟩ := Prod.mk.inj heq
      obtain ⟨found, -, rfl⟩ := Option.map_eq_some_iff.mp hnext
      exact hwired
  | addRuntimeKnowledge targetField inertia monitor =>
      obtain ⟨-, rfl⟩ := Prod.mk.inj (Option.some.inj hcall)
      refine hwired.onStates fun s _ => ?_
      rw [State.problem_setKnowledgeAdaptor]
      exact Problem.wired_wire _ _
  | addConstraint targetField sigma goalValue priority =>
      obtain ⟨_, hnext, heq⟩ := Option.map_eq_some_iff.mp hcall
      obtain ⟨-, rfl⟩ := Prod.mk.inj heq
      refine hwired.onActiveState (fun s hs => ?_) hnext
      rw [State.problem_addConstraint]
      exact hs.addConstraint _ priority
  | removeConstraint priority =>
      obtain ⟨_, hnext, heq⟩ := Option.map_eq_some_iff.mp hcall
      obtain ⟨-, rfl⟩ := Prod.mk.inj heq
      refine hwired.onActiveState (fun s hs => ?_) hnext
      rw [State.problem_removeConstraint]
      exact hs.removeConstraint priority
  | setRank objective evaluate =>
      obtain ⟨_, hnext, heq⟩ := Option.map_eq_some_iff.mp hcall
      obtain ⟨-, rfl⟩ := Prod.mk.inj heq
      refine hwired.onActiveState (fun s hs => ?_) hnext
      rw [State.problem_setRank]
      exact hs

theorem Wired.findBestConfiguration (hwired : m.Wired)
    (hfound : m.findBestConfiguration store = some (after, next)) :
    next.Wired := by
  obtain ⟨evaluated, -, hsolved⟩ := Option.bind_eq_some_iff.mp hfound
  cases hcurrent : m.currentOptimizer with
  | none =>
      rw [hcurrent] at hsolved
      obtain ⟨-, rfl⟩ := Prod.mk.inj (Option.some.inj hsolved)
      exact hwired
  | some active =>
      rw [hcurrent] at hsolved
      obtain ⟨found, hbest, heq⟩ := Option.map_eq_some_iff.mp hsolved
      obtain ⟨-, rfl⟩ := Prod.mk.inj heq
      obtain ⟨s, hfind, hsolve⟩ := Option.bind_eq_some_iff.mp hbest
      have hproblem := State.problem_getBestOperatingPoint hsolve
      refine hwired.of_problems (funext fun stateId => ?_) rfl
      rw [problems, problems, UnorderedMap.find?_modify]
      by_cases hid : stateId = active
      · subst hid
        simp [hfind, hproblem]
      · simp [hid]

theorem Wired.runUsage {call : UsageCall g} (hwired : m.Wired)
    (hcall : m.runUsage store call = some (after, next)) : next.Wired := by
  cases call with
  | addOperatingPoints opList =>
      obtain ⟨-, rfl⟩ := Prod.mk.inj (Option.some.inj hcall)
      exact hwired.of_problems (problems_onStates fun s => by simp) rfl
  | removeOperatingPoints configurationList =>
      obtain ⟨-, rfl⟩ := Prod.mk.inj (Option.some.inj hcall)
      exact hwired.of_problems (problems_onStates fun s => by simp) rfl
  | findBestConfiguration => exact hwired.findBestConfiguration hcall
  | getBestConfiguration =>
      obtain ⟨found, hbest, heq⟩ := Option.map_eq_some_iff.mp hcall
      obtain ⟨-, rfl⟩ := Prod.mk.inj heq
      obtain ⟨proposed, -, rfl⟩ := Option.map_eq_some_iff.mp hbest
      split <;> exact hwired
  | configurationApplied =>
      obtain ⟨-, rfl⟩ := Prod.mk.inj (Option.some.inj hcall)
      exact hwired

@[simp] theorem wired_setSinglePoint {point : OperatingPoint g} :
    (m.setSinglePoint store point).2.Wired ↔ m.Wired :=
  wired_of_problems (problems_onStates fun s => by simp) rfl

@[simp] theorem wired_setModel {model : List (OperatingPoint g)} :
    (m.setModel store model).2.Wired ↔ m.Wired :=
  wired_of_problems (problems_onStates fun s => by simp) rfl

/-- Whatever happens to a manager, it stays wired. -/
theorem wired_step {before reached : Store g × Asrtm g I (State g P)}
    {action : Action g I P} (hwired : before.2.Wired)
    (hstep : step before action = some reached) : reached.2.Wired := by
  cases action with
  | problem call => exact hwired.runProblem hstep
  | usage call => exact hwired.runUsage hstep
  | setSinglePoint point =>
      obtain rfl := Option.some.inj hstep
      exact wired_setSinglePoint.mpr hwired
  | setModel model =>
      obtain rfl := Option.some.inj hstep
      exact wired_setModel.mpr hwired
  | restoreFromDataFeatureSwitch =>
      obtain rfl := Option.some.inj hstep
      exact hwired
  | changeGoals goalValue =>
      obtain rfl := Option.some.inj hstep
      exact hwired
  | observe monitor =>
      obtain rfl := Option.some.inj hstep
      exact hwired

end Calls

theorem wired_new : (new : Asrtm g I (State g P)).Wired := by
  intro stateId problem hproblem
  contradiction

section Sibling

variable [HashOrder I]

@[simp] theorem wired_copy : m.copy.Wired ↔ m.Wired := by
  refine wired_of_problems (funext fun stateId => ?_) rfl
  simp [problems, copy]

theorem problems_sibling (m : Asrtm g I (State g P)) (store : Store g)
    (stateId : I) :
    (m.createSibling store).2.problems stateId =
      (m.problems stateId).map Problem.unwire := by
  obtain ⟨optimizers, hsibling, -, hstates⟩ := createSibling_spec m store
  rw [hsibling]
  simp [problems, hstates, Function.comp_def]

@[simp] theorem runtimeInformation_createSibling (m : Asrtm g I (State g P))
    (store : Store g) :
    (m.createSibling store).2.runtimeInformation = m.runtimeInformation :=
  rfl

/-- A sibling is wired only if there was nothing to wire. -/
theorem wired_createSibling :
    (m.createSibling store).2.Wired ↔ m.Unprovided := by
  refine forall_congr' fun stateId => ?_
  rw [problems_sibling, runtimeInformation_createSibling]
  simp only [Option.mem_def, Option.map_eq_some_iff, forall_exists_index,
    and_imp, forall_apply_eq_imp_iff₂, Problem.wired_unwire_iff]

theorem unprovided_createSibling :
    (m.createSibling store).2.Unprovided ↔ m.Unprovided := by
  refine forall_congr' fun stateId => ?_
  rw [problems_sibling, runtimeInformation_createSibling]
  simp only [Option.mem_def, Option.map_eq_some_iff, forall_exists_index,
    and_imp, forall_apply_eq_imp_iff₂]
  refine forall₂_congr fun problem _ => ?_
  simp only [Problem.unwire, OrderedMap.entries_mapValues, List.forall_mem_map]
  exact Iff.rfl

end Sibling

end Asrtm

namespace DataAwareAsrtm

section Clusters

variable [HashOrder I] [HashOrder (OperatingPointPtr g)]
  {d next : DataAwareAsrtm F g I P} {store after : Store g}

/-- Every cluster is wired. -/
def Wired (d : DataAwareAsrtm F g I P) : Prop :=
  ∀ manager ∈ d.managers, manager.2.Wired

omit [HashOrder I] [HashOrder (OperatingPointPtr g)] in
theorem Wired.broadcast {change : Store g → Asrtm g I (State g P) →
      Option (Store g × Asrtm g I (State g P))}
    {others : List (F × Asrtm g I (State g P))}
    (hkeep : ∀ before m changed next, m.Wired →
      change before m = some (changed, next) → next.Wired)
    (hwired : d.Wired)
    (hbroadcast : broadcast change store d.managers = some (after, others)) :
    { d with managers := others }.Wired := by
  intro manager hmanager
  obtain ⟨old, hold, before, changed, hchange⟩ :=
    mem_broadcast hbroadcast hmanager
  exact hkeep _ _ _ _ (hwired old hold) hchange

omit [HashOrder I] [HashOrder (OperatingPointPtr g)] in
theorem Wired.forward (change : Store g → Asrtm g I (State g P) →
      Option (Store g × Asrtm g I (State g P)))
    (hkeep : ∀ before m changed next, m.Wired →
      change before m = some (changed, next) → next.Wired)
    (hwired : d.Wired)
    (hforward : d.forward store change = some (after, next)) : next.Wired := by
  obtain ⟨active, hactive, hmap⟩ := Option.bind_eq_some_iff.mp hforward
  obtain ⟨changed, hchange, heq⟩ := Option.map_eq_some_iff.mp hmap
  obtain ⟨-, rfl⟩ := Prod.mk.inj heq
  intro manager hmanager
  rcases List.mem_or_eq_of_mem_set hmanager with hold | rfl
  · exact hwired manager hold
  · exact hkeep _ _ _ _ (hwired active (List.mem_of_getElem? hactive)) hchange

omit [HashOrder I] [HashOrder (OperatingPointPtr g)] in
theorem Wired.selectFeatureCluster [LinearOrder F]
    {getClosest : F → F → F → Bool} {key : F} (hwired : d.Wired)
    (hselect : d.selectFeatureCluster getClosest key = some next) :
    next.Wired := by
  rw [DataAwareAsrtm.selectFeatureCluster] at hselect
  split at hselect
  · contradiction
  · obtain rfl := Option.some.inj hselect
    intro manager hmanager
    simp only at hmanager
    split at hmanager
    · obtain ⟨position, hposition, rfl⟩ := List.mem_iff_getElem.mp hmanager
      rw [List.length_modify] at hposition
      have hold := hwired _ (List.getElem_mem hposition)
      rw [List.getElem_modify]
      split
      · exact hold
      · exact hold
    · exact hwired manager hmanager

/-- The clusters of a model are wired exactly when the reference manager has
nothing to wire. -/
theorem wired_setModels {reference : Asrtm g I (State g P)}
    {model : List (F × List (OperatingPoint g))} (hmodel : model ≠ []) :
    (∀ manager ∈ (setModels reference store model).2, manager.2.Wired) ↔
      reference.Unprovided := by
  induction model generalizing store with
  | nil => contradiction
  | cons entry rest ih =>
      rw [setModels, List.forall_mem_cons, Asrtm.wired_setModel,
        Asrtm.wired_copy, Asrtm.wired_createSibling]
      cases rest with
      | nil => simp [setModels]
      | cons other rest => rw [ih (by simp), and_self]

variable [LinearOrder F]

theorem wired_prediction_iff {model : OrderedMap F (List (OperatingPoint g))}
    (hprediction : d.prediction store model = some (after, next)) :
    next.Wired ↔ model.entries ≠ [] →
      ∀ first ∈ d.managers.head?, first.2.Unprovided := by
  obtain ⟨first, hfirst, heq⟩ := Option.map_eq_some_iff.mp hprediction
  obtain ⟨-, rfl⟩ := Prod.mk.inj heq
  rw [hfirst]
  simp only [Option.mem_def, Option.some.injEq, forall_eq']
  by_cases hmodel : model.entries = []
  · simp [Wired, hmodel, setModels]
  · rw [Wired, wired_setModels hmodel, Asrtm.unprovided_createSibling]
    simp [hmodel]

omit [HashOrder (OperatingPointPtr g)] in
theorem wired_addFeatureCluster_iff {key : F} (hwired : d.Wired)
    (hadd : d.addFeatureCluster store key = some (after, next)) :
    next.Wired ↔ ∀ first ∈ d.managers.head?, first.2.Unprovided := by
  rw [addFeatureCluster] at hadd
  split at hadd
  · next hnil =>
      obtain ⟨-, rfl⟩ := Prod.mk.inj (Option.some.inj hadd)
      simp [Wired, hnil, Asrtm.wired_new]
  · next first rest hcons =>
      obtain ⟨actual, -, heq⟩ := Option.map_eq_some_iff.mp hadd
      obtain ⟨-, rfl⟩ := Prod.mk.inj heq
      rw [hcons, List.head?_cons]
      simp only [Option.mem_def, Option.some.injEq, forall_eq']
      rw [Wired, List.forall_mem_append, List.forall_mem_singleton,
        Asrtm.wired_copy, Asrtm.wired_createSibling]
      exact and_iff_right (hcons ▸ hwired)

/-- The cluster that new clusters are made of has no constraint on a field
with a registered provider. -/
def SiblingsUnprovided (world : Store g × DataAwareAsrtm F g I P) :
    Action F g I P → Prop
  | .addFeatureCluster _ =>
      ∀ first ∈ world.2.managers.head?, first.2.Unprovided
  | .prediction model => model.entries ≠ [] →
      ∀ first ∈ world.2.managers.head?, first.2.Unprovided
  | _ => True

theorem wired_step {getClosest : F → F → F → Bool}
    {before reached : Store g × DataAwareAsrtm F g I P}
    {action : Action F g I P} (hwired : before.2.Wired)
    (hsiblings : SiblingsUnprovided before action)
    (hstep : step getClosest before action = some reached) :
    reached.2.Wired := by
  cases action with
  | addFeatureCluster key =>
      exact (wired_addFeatureCluster_iff hwired hstep).mpr hsiblings
  | selectFeatureCluster key =>
      obtain ⟨next, hselect, rfl⟩ := Option.map_eq_some_iff.mp hstep
      exact hwired.selectFeatureCluster hselect
  | problem call =>
      obtain ⟨⟨_, others⟩, hbroadcast, rfl⟩ := Option.map_eq_some_iff.mp hstep
      exact hwired.broadcast (fun _ _ _ _ hm hcall => hm.runProblem hcall)
        hbroadcast
  | usage call =>
      exact hwired.forward (fun store m => m.runUsage store call)
        (fun _ _ _ _ hm hcall => hm.runUsage hcall) hstep
  | explore point =>
      rw [step] at hstep
      split at hstep
      · contradiction
      · obtain ⟨⟨_, others⟩, hbroadcast, rfl⟩ :=
          Option.map_eq_some_iff.mp hstep
        refine hwired.broadcast (fun _ m _ _ hm hset => ?_) hbroadcast
        obtain ⟨-, rfl⟩ := Prod.mk.inj (Option.some.inj hset)
        exact Asrtm.wired_setSinglePoint.mpr hm
  | prediction model =>
      exact (wired_prediction_iff hstep).mpr hsiblings
  | changeGoals goalValue =>
      obtain rfl := Option.some.inj hstep
      exact hwired
  | observe monitor =>
      obtain rfl := Option.some.inj hstep
      exact hwired

/-- A manager of its own stays wired in every run.  The clusters of a
data-aware manager stay wired exactly when those that new clusters are made of
have nothing to wire. -/
theorem wired_allReached_iff (getClosest : F → F → F → Bool) (store : Store g) :
    (∀ actions : List (Asrtm.Action g I P),
      AllReached Asrtm.step (fun world => world.2.Wired)
        (store, (Asrtm.new : Asrtm g I (State g P))) actions) ∧
    ∀ actions : List (Action F g I P),
      AllReached (step getClosest) (fun world => world.2.Wired) (store, new)
          actions ↔
        AllSteps (step getClosest) SiblingsUnprovided (store, new) actions := by
  refine ⟨fun actions pre reached _ hrun => ?_, fun actions => ?_⟩
  · exact runFrom_kept
      (fun world : Store g × Asrtm g I (State g P) => world.2.Wired)
      (fun _ _ _ => Asrtm.wired_step) Asrtm.wired_new hrun
  · refine allReached_iff_allSteps
      (fun world : Store g × DataAwareAsrtm F g I P => world.2.Wired)
      (fun _ _ _ => wired_step) (fun _ hwired => hwired) ?_ ?_
    · intro before action after hwired hstep hafter
      cases action with
      | addFeatureCluster key =>
          exact (wired_addFeatureCluster_iff hwired hstep).mp hafter
      | prediction model => exact (wired_prediction_iff hstep).mp hafter
      | _ => trivial
    · intro manager hmanager
      contradiction

end Clusters

/-- The second cluster is made of a cluster with a constraint on the field of a
registered provider. -/
def unwiring : List (Action Nat Geometry.single Nat Nat) :=
  [.addFeatureCluster 5, .problem (.createNewState 0),
    .problem (.changeActiveState 0),
    .problem (.addRuntimeKnowledge OPField.single ⟨1, Nat.one_pos⟩ 0),
    .problem (.addConstraint OPField.single 0 (Goal.atMost 0) 1),
    .addFeatureCluster 2]

def unwired :
    Store Geometry.single × DataAwareAsrtm Nat Geometry.single Nat Nat :=
  (runFrom (step fun _ _ _ => false) (Store.initial, new) unwiring).get
    (by decide +kernel)

/-- The provider is registered in the second cluster, but its constraint has
none. -/
theorem not_wired_unwired :
    ¬ ∀ actions : List (Action Nat Geometry.single Nat Nat),
      AllReached (step fun _ _ _ => false) (fun world => world.2.Wired)
        (Store.initial, new) actions := by
  intro hall
  have hwired : unwired.2.Wired := hall unwiring unwiring unwired
    List.prefix_rfl (Option.some_get _).symm
  have hdiffer : ¬ ∀ manager ∈ unwired.2.managers.map Prod.snd,
      ∀ problem ∈ manager.problems 0, ∀ entry ∈ problem.constraints.entries,
        entry.2.knowledgeAdaptor =
          manager.runtimeInformation.getFieldAdaptor entry.2.targetField := by
    decide +kernel
  refine hdiffer fun manager hmanager => ?_
  obtain ⟨cluster, hcluster, rfl⟩ := List.mem_map.mp hmanager
  exact hwired cluster hcluster 0

end DataAwareAsrtm

end Margot
