/-
The application knowledge and the states of a manager in step: what a call adds
to the knowledge or removes from it, the number it returns, and that every
state holds exactly the Operating Points that are known.
-/
import Mathlib.Data.Finset.Card
import Margot.Runtime.AddConstraint
import Margot.Runtime.Asrtm

namespace Margot

variable {g : Geometry} {I P : Type}

namespace Knowledge

/-- The configurations that are known. -/
def configurations (kb : Knowledge g) :
    Finset (Vector ℚ g.numberOfSoftwareKnobs) :=
  (kb.knowledge.map OperatingPointPtr.getKnobs).toFinset

theorem card_configurations (kb : Knowledge g) :
    kb.configurations.card = kb.knowledge.length := by
  rw [configurations, List.toFinset_card_of_nodup kb.distinct, List.length_map]

theorem configurations_add (kb : Knowledge g) (newOp : OperatingPointPtr g) :
    (kb.add newOp).1.configurations =
      insert newOp.getKnobs kb.configurations := by
  rw [add]
  split
  · next hknown => exact (Finset.insert_eq_self.mpr
      (List.mem_toFinset.mpr hknown)).symm
  · exact List.toFinset_cons

theorem configurations_addAll (kb : Knowledge g) (newOps : OPStream g) :
    (kb.addAll newOps).1.configurations =
      kb.configurations ∪ (newOps.map OperatingPointPtr.getKnobs).toFinset := by
  induction newOps generalizing kb with
  | nil => simp [addAll]
  | cons newOp rest ih =>
      rw [addAll, ih, configurations_add, List.map_cons, List.toFinset_cons,
        Finset.insert_union, Finset.union_insert]

theorem configurations_remove (kb : Knowledge g)
    (conf : Vector ℚ g.numberOfSoftwareKnobs) :
    (kb.remove conf).1.configurations = kb.configurations.erase conf := by
  rw [remove]
  split
  · next hnone =>
      have hunknown : conf ∉ kb.configurations := by
        intro hmem
        obtain ⟨ptr, hptr, hconf⟩ :=
          List.mem_map.mp (List.mem_toFinset.mp hmem)
        have hnot := List.find?_eq_none.mp hnone ptr hptr
        exact hnot (decide_eq_true hconf)
      exact (Finset.erase_eq_of_notMem hunknown).symm
  · next ptr hfind =>
      have hptr := List.mem_of_find?_eq_some hfind
      have hconf : ptr.getKnobs = conf := by
        simpa using List.find?_some hfind
      have hperm := (List.perm_cons_erase hptr).map OperatingPointPtr.getKnobs
      have hdistinct := hperm.nodup_iff.mp kb.distinct
      rw [List.map_cons, List.nodup_cons] at hdistinct
      rw [configurations, configurations, List.toFinset_eq_of_perm _ _ hperm,
        List.map_cons, List.toFinset_cons, ← hconf, Finset.erase_insert]
      rw [List.mem_toFinset]
      exact hdistinct.1

theorem configurations_removeAll (kb : Knowledge g)
    (confs : List (Vector ℚ g.numberOfSoftwareKnobs)) :
    (kb.removeAll confs).1.configurations =
      kb.configurations \ confs.toFinset := by
  induction confs generalizing kb with
  | nil => simp [removeAll]
  | cons conf rest ih =>
      rw [removeAll, ih, configurations_remove, List.toFinset_cons,
        Finset.sdiff_insert, Finset.erase_sdiff_comm]

/-- The stream of the new Operating Points has one for each new
configuration. -/
theorem length_addAll (kb : Knowledge g) (newOps : OPStream g) :
    (kb.addAll newOps).2.length =
      ((kb.addAll newOps).1.configurations \ kb.configurations).card := by
  have hlength := (addAll_perm kb newOps).length_eq
  rw [List.length_append, ← card_configurations,
    ← card_configurations] at hlength
  have hsubset : kb.configurations ⊆ (kb.addAll newOps).1.configurations := by
    rw [configurations_addAll]
    exact Finset.subset_union_left
  rw [Finset.card_sdiff_of_subset hsubset]
  omega

/-- The stream of the removed Operating Points has one for each configuration
that is not known any more. -/
theorem length_removeAll (kb : Knowledge g)
    (confs : List (Vector ℚ g.numberOfSoftwareKnobs)) :
    (kb.removeAll confs).2.length =
      (kb.configurations \ (kb.removeAll confs).1.configurations).card := by
  have hlength := (removeAll_perm kb confs).length_eq
  rw [List.length_append, ← card_configurations,
    ← card_configurations] at hlength
  have hsubset : (kb.removeAll confs).1.configurations ⊆ kb.configurations := by
    rw [configurations_removeAll]
    exact Finset.sdiff_subset
  rw [Finset.card_sdiff_of_subset hsubset]
  omega

end Knowledge

theorem getKnobs_allocateOps (store : Store g) (ops : List (OperatingPoint g)) :
    (store.allocateOps ops).2.map OperatingPointPtr.getKnobs =
      ops.map OperatingPoint.getKnobs := by
  induction ops generalizing store with
  | nil => rfl
  | cons op rest ih =>
      rw [Store.allocateOps, List.map_cons, List.map_cons, ih]
      rfl

namespace Asrtm

/-- The calls that change the knowledge, and the one that makes a state of
it.  Operating Points are added as values or as pointers. -/
inductive KnowledgeCall (g : Geometry) (I : Type) where
  | addOperatingPoints (opList : List (OperatingPoint g))
  | addOperatingPointPtrs (opList : OPStream g)
  | removeOperatingPoints
      (configurationList : List (Vector ℚ g.numberOfSoftwareKnobs))
  | createNewState (newStateId : I)
  | setSinglePoint (point : OperatingPoint g)
  | setModel (model : List (OperatingPoint g))

section Calls

variable [DecidableEq I] [LinearOrder P]

/-- The number that a call returns. -/
def returned (m : Asrtm g I (State g P)) (store : Store g) :
    KnowledgeCall g I → Option Nat
  | .addOperatingPoints opList =>
      some (m.knowledge.addAll (store.allocateOps opList).2).2.length
  | .addOperatingPointPtrs opList =>
      some (m.knowledge.addAll opList).2.length
  | .removeOperatingPoints configurationList =>
      some (m.knowledge.removeAll configurationList).2.length
  | _ => none

variable [HashOrder (OperatingPointPtr g)]

def runKnowledge (world : Store g × Asrtm g I (State g P)) :
    KnowledgeCall g I → Store g × Asrtm g I (State g P)
  | .addOperatingPoints opList => world.2.addOperatingPoints world.1 opList
  | .addOperatingPointPtrs opList =>
      (world.1, world.2.addOperatingPointPtrs opList)
  | .removeOperatingPoints configurationList =>
      (world.1, world.2.removeOperatingPoints configurationList)
  | .createNewState newStateId => (world.1, world.2.createNewState newStateId)
  | .setSinglePoint point => world.2.setSinglePoint world.1 point
  | .setModel model => world.2.setModel world.1 model

def stepKnowledge (world : Store g × Asrtm g I (State g P))
    (call : KnowledgeCall g I) : Option (Store g × Asrtm g I (State g P)) :=
  some (runKnowledge world call)

end Calls

section InStep

variable [DecidableEq I] [LinearOrder P]

/-- Every state satisfies the partition invariant. -/
def Partitioned (m : Asrtm g I (State g P)) : Prop :=
  ∀ stateId s, m.applicationOptimizers.find? stateId = some s →
    s.Partition m.knowledge

/-- One Operating Point for each configuration, and in every state the rank and
the blocked sets have exactly the Operating Points that are known, each of them
once. -/
structure InStep (m : Asrtm g I (State g P)) : Prop where
  distinct : (m.knowledge.knowledge.map OperatingPointPtr.getKnobs).Nodup
  placed : ∀ stateId s, m.applicationOptimizers.find? stateId = some s →
    (s.rank.toStream ++ s.constraints.entries.flatMap fun entry =>
      entry.2.blockedOps.elems).Perm m.knowledge.knowledge

/-- What a call does to the set of the known configurations, and that it returns
the number of those really added or removed. -/
def Counted [HashOrder (OperatingPointPtr g)]
    (world : Store g × Asrtm g I (State g P)) (call : KnowledgeCall g I) :
    Prop :=
  let before := world.2.knowledge.configurations
  let after := (runKnowledge world call).2.knowledge.configurations
  match call with
  | .addOperatingPoints opList =>
      after = before ∪ (opList.map OperatingPoint.getKnobs).toFinset ∧
        world.2.returned world.1 call = some (after \ before).card
  | .addOperatingPointPtrs opList =>
      after = before ∪ (opList.map OperatingPointPtr.getKnobs).toFinset ∧
        world.2.returned world.1 call = some (after \ before).card
  | .removeOperatingPoints configurationList =>
      after = before \ configurationList.toFinset ∧
        world.2.returned world.1 call = some (before \ after).card
  | .createNewState _ => after = before
  | .setSinglePoint point => after = {point.getKnobs}
  | .setModel model => after = (model.map OperatingPoint.getKnobs).toFinset

/-- The places of a state hold every known Operating Point once. -/
theorem perm_of_partition {kb : Knowledge g} {s : State g P}
    (hpart : s.Partition kb) :
    (s.rank.toStream ++ s.constraints.entries.flatMap fun entry =>
      entry.2.blockedOps.elems).Perm kb.knowledge := by
  have hblocked : ∀ op, (op ∈ s.constraints.entries.flatMap fun entry =>
      entry.2.blockedOps.elems) ↔
        ∃ entry ∈ s.constraints.entries, op ∈ entry.2.blockedOps :=
    fun op => List.mem_flatMap
  have hknown : ∀ entry ∈ s.constraints.entries, ∀ op ∈ entry.2.blockedOps,
      op ∈ kb := fun entry hentry op hop =>
    ((hpart.blocked entry hentry op).mp hop).1
  have hapart : s.constraints.entries.Pairwise (Function.onFun List.Disjoint
      fun entry => entry.2.blockedOps.elems) := by
    apply s.constraints.sorted.imp_of_mem
    intro entry other hentry hother hlt op hop hagain
    have hsame := hpart.blocked_once hentry hop hother hagain
    exact hlt.ne (congrArg Prod.fst hsame)
  have hnodup : (s.rank.toStream ++ s.constraints.entries.flatMap fun entry =>
      entry.2.blockedOps.elems).Nodup := by
    rw [List.nodup_append', List.nodup_flatMap]
    refine ⟨hpart.rankNodup, ⟨fun entry _ => entry.2.blockedOps.nodup, hapart⟩,
      ?_⟩
    intro op hrank hmem
    obtain ⟨entry, hentry, hop⟩ := (hblocked op).mp hmem
    rcases hpart.placed_once (hknown entry hentry op hop) with hfree | hheld
    · exact hfree.2 entry hentry hop
    · exact hheld.1 hrank
  rw [List.perm_ext_iff_of_nodup hnodup kb.nodup]
  intro op
  rw [List.mem_append, hblocked]
  constructor
  · rintro (hrank | ⟨entry, hentry, hop⟩)
    · exact ((hpart.ranked op).mp hrank).1
    · exact hknown entry hentry op hop
  · intro hop
    rcases hpart.placed_once hop with hfree | ⟨-, entry, hheld, -⟩
    · exact .inl hfree.1
    · exact .inr ⟨entry, hheld⟩

theorem inStep_of_partitioned {m : Asrtm g I (State g P)}
    (hpart : m.Partitioned) : m.InStep where
  distinct := m.knowledge.distinct
  placed := fun stateId s hfind => perm_of_partition (hpart stateId s hfind)

/-- The providers of runtime information are no part of the partition. -/
theorem partition_setKnowledgeAdaptor {kb : Knowledge g} {s : State g P}
    (hpart : s.Partition kb) (information : KnowledgeAdaptor g) :
    (s.setKnowledgeAdaptor information).Partition kb := by
  have hstages : stagesOf (s.setKnowledgeAdaptor information).constraints.entries
      = stagesOf s.constraints.entries := by
    simp only [stagesOf, State.setKnowledgeAdaptor, OrderedMap.mapValues,
      List.map_map]
    rfl
  apply State.Partition.of_filtered
  · intro entry hentry
    obtain ⟨other, hother, rfl⟩ := List.mem_map.mp hentry
    exact hpart.views other hother
  · rw [hstages]
    exact hpart.filtered
  · rw [hstages]
    exact hpart.holds

/-- A change of all the states that follows the change of the knowledge. -/
theorem partitioned_onStates {m : Asrtm g I (State g P)} {after : Knowledge g}
    {change : State g P → State g P} (hpart : m.Partitioned)
    (hchange : ∀ s, s.Partition m.knowledge → (change s).Partition after)
    {next : Asrtm g I (State g P)} (hknowledge : next.knowledge = after)
    (hstates : next.applicationOptimizers =
      (m.onStates change).applicationOptimizers) :
    next.Partitioned := by
  intro stateId s hfind
  rw [hstates, onStates, UnorderedMap.find?_map] at hfind
  obtain ⟨old, hold, rfl⟩ := Option.map_eq_some_iff.mp hfind
  rw [hknowledge]
  exact hchange old (hpart stateId old hold)

variable [HashOrder (OperatingPointPtr g)]

theorem partitioned_setKnowledgeBase {m : Asrtm g I (State g P)}
    {after : Knowledge g} {next : Asrtm g I (State g P)}
    (hknowledge : next.knowledge = after)
    (hstates : next.applicationOptimizers =
      (m.onStates fun s => s.setKnowledgeBase after).applicationOptimizers) :
    next.Partitioned := by
  intro stateId s hfind
  rw [hstates, onStates, UnorderedMap.find?_map] at hfind
  obtain ⟨old, -, rfl⟩ := Option.map_eq_some_iff.mp hfind
  rw [hknowledge]
  exact State.partition_setKnowledgeBase old after

theorem partitioned_createNewState {m : Asrtm g I (State g P)}
    (hpart : m.Partitioned) (newStateId : I) :
    (m.createNewState newStateId).Partitioned := by
  rw [createNewState]
  split
  · exact hpart
  · intro stateId s hfind
    rw [UnorderedMap.find?_emplace] at hfind
    split at hfind
    · obtain rfl := Option.some.inj hfind
      exact partition_setKnowledgeAdaptor
        (State.partition_setKnowledgeBase _ m.knowledge) m.runtimeInformation
    · exact hpart stateId s hfind

/-- A constraint keeps the partition if the active state admits it. -/
theorem partitioned_addConstraint {m after : Asrtm g I (State g P)}
    {store : Store g} {targetField : OPField g} {sigma : Int} {goalValue : Goal}
    {priority : P} (hpart : m.Partitioned)
    (hadmits : ∀ s, m.activeState = some s → s.Admits
      (State.newConstraint m.knowledge m.runtimeInformation
        store.runtimeInformation targetField sigma goalValue) priority)
    (hadd : m.addConstraint store targetField sigma goalValue priority =
      some after) : after.Partitioned := by
  obtain ⟨active, hactive, rfl⟩ := Option.map_eq_some_iff.mp hadd
  intro stateId s hfind
  rw [UnorderedMap.find?_modify] at hfind
  obtain ⟨old, hold, rfl⟩ := Option.map_eq_some_iff.mp hfind
  split
  · next hsame =>
      have hstate : m.activeState = some old := by
        rw [activeState, hactive, ← hold, hsame]
        rfl
      exact (State.partition_addConstraint_iff m.runtimeInformation
        store.runtimeInformation targetField sigma goalValue
        (hpart stateId old hold) priority).mpr (hadmits old hstate)
  · exact hpart stateId old hold

/-- Every call keeps the partition in all the states. -/
theorem partitioned_runKnowledge {world : Store g × Asrtm g I (State g P)}
    (hpart : world.2.Partitioned) (call : KnowledgeCall g I) :
    (runKnowledge world call).2.Partitioned := by
  cases call with
  | addOperatingPoints opList =>
      exact partitioned_onStates hpart (fun s hs =>
        State.partition_addOperatingPoints hs (Knowledge.addAll_perm _ _))
        rfl rfl
  | addOperatingPointPtrs opList =>
      exact partitioned_onStates hpart (fun s hs =>
        State.partition_addOperatingPoints hs (Knowledge.addAll_perm _ _))
        rfl rfl
  | removeOperatingPoints configurationList =>
      exact partitioned_onStates hpart (fun s hs =>
        State.partition_removeOperatingPoints hs (Knowledge.removeAll_perm _ _))
        rfl rfl
  | createNewState newStateId =>
      exact partitioned_createNewState hpart newStateId
  | setSinglePoint point => exact partitioned_setKnowledgeBase rfl rfl
  | setModel model => exact partitioned_setKnowledgeBase rfl rfl

/-- Every call changes the known configurations by those of its list. -/
theorem counted (world : Store g × Asrtm g I (State g P))
    (call : KnowledgeCall g I) : Counted world call := by
  cases call with
  | addOperatingPoints opList =>
      have hconfigurations := Knowledge.configurations_addAll
        world.2.knowledge (world.1.allocateOps opList).2
      rw [getKnobs_allocateOps] at hconfigurations
      exact ⟨hconfigurations, congrArg some (Knowledge.length_addAll _ _)⟩
  | addOperatingPointPtrs opList =>
      exact ⟨Knowledge.configurations_addAll _ _,
        congrArg some (Knowledge.length_addAll _ _)⟩
  | removeOperatingPoints configurationList =>
      exact ⟨Knowledge.configurations_removeAll _ _,
        congrArg some (Knowledge.length_removeAll _ _)⟩
  | createNewState newStateId =>
      simp only [Counted, runKnowledge, createNewState]
      split <;> rfl
  | setSinglePoint point =>
      have hconfigurations := Knowledge.configurations_addAll Knowledge.clear
        (world.1.allocateOps [point]).2
      rw [getKnobs_allocateOps] at hconfigurations
      exact hconfigurations
  | setModel model =>
      have hconfigurations := Knowledge.configurations_addAll Knowledge.clear
        (world.1.allocateOps model).2
      rw [getKnobs_allocateOps] at hconfigurations
      exact hconfigurations.trans (Finset.empty_union _)

/-- In every run of calls that change the knowledge, every state holds exactly
the Operating Points that are known, and every call returns what it really
added or removed. -/
theorem inStep_allReached {world : Store g × Asrtm g I (State g P)}
    (hpart : world.2.Partitioned) (calls : List (KnowledgeCall g I)) :
    AllReached stepKnowledge (fun reached => reached.2.InStep) world calls ∧
      AllSteps stepKnowledge Counted world calls := by
  refine ⟨?_, fun _ call before _ _ _ _ => counted before call⟩
  intro pre reached _ hrun
  apply inStep_of_partitioned
  exact runFrom_kept (fun reached => reached.2.Partitioned)
    (fun before call after hbefore hstep => by
      obtain rfl := Option.some.inj hstep
      exact partitioned_runKnowledge hbefore call) hpart hrun

end InStep

/-- A manager with one Operating Point and one state, which is active and has a
constraint. -/
def unconstrained : Store Geometry.single ×
    Asrtm Geometry.single Nat (State Geometry.single Nat) :=
  runKnowledge (runKnowledge (Store.initial, new)
    (.addOperatingPoints [OperatingPoint.single 1 5])) (.createNewState 0)

def activated : Asrtm Geometry.single Nat (State Geometry.single Nat) :=
  (unconstrained.2.changeActiveState 0).get rfl

def founded : Store Geometry.single ×
    Asrtm Geometry.single Nat (State Geometry.single Nat) :=
  (unconstrained.1, (activated.addConstraint unconstrained.1 OPField.single 0
    (Goal.atMost 6) 1).get rfl)

theorem partitioned_founded : founded.2.Partitioned := by
  have hunconstrained : unconstrained.2.Partitioned := by
    apply partitioned_runKnowledge
    apply partitioned_runKnowledge
    exact fun _ _ => nofun
  have hactive : activated.Partitioned := hunconstrained
  have hadd : activated.addConstraint unconstrained.1 OPField.single 0
      (Goal.atMost 6) 1 = some founded.2 := (Option.some_get rfl).symm
  apply partitioned_addConstraint hactive _ hadd
  intro s hs
  obtain rfl := Option.some.inj hs
  exact State.admits_of_constraints_empty rfl

/-- The second Operating Point that is added is blocked, and removed again. -/
theorem inStep_allReached_founded :
    AllReached stepKnowledge (fun reached => reached.2.InStep) founded
        [.addOperatingPoints [OperatingPoint.single 1 7,
            OperatingPoint.single 2 5, OperatingPoint.single 3 7],
          .removeOperatingPoints [#v[3], #v[3], #v[4]]] ∧
      AllSteps stepKnowledge Counted founded
        [.addOperatingPoints [OperatingPoint.single 1 7,
            OperatingPoint.single 2 5, OperatingPoint.single 3 7],
          .removeOperatingPoints [#v[3], #v[3], #v[4]]] :=
  inStep_allReached partitioned_founded _

end Asrtm

end Margot
