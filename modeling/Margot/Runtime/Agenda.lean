/-
What a manager is asked to do: the optimization problem of every state and the
active state.  The methods of a manager refine the methods of this abstract
manager; a sibling and a copy have the same problems.
-/
import Margot.Runtime.Asrtm
import Margot.Runtime.Problem

namespace Margot

variable {g : Geometry} {I P : Type} [LinearOrder P]

/-- The problem that a new state states. -/
def Problem.new : Problem g P where
  constraints := OrderedMap.empty
  objective := .minimize
  evaluate := opUtilsGet .lower (State.dummyField g) 0

/-- The problems, without providers, and the active state. -/
structure Agenda (g : Geometry) (I P : Type) [LinearOrder P] where
  problems : I → Option (Problem g P)
  active : Option I

namespace Agenda

variable [DecidableEq I]

/-- Change the problem of the active state. -/
def onActive (agenda : Agenda g I P) (change : Problem g P → Problem g P) :
    Agenda g I P :=
  match agenda.active with
  | none => agenda
  | some stateId =>
      { agenda with
        problems := Function.update agenda.problems stateId
          ((agenda.problems stateId).map change) }

/-- The effect of a call, of which providers are no part. -/
def step (agenda : Agenda g I P) : Asrtm.ProblemCall g I P → Agenda g I P
  | .createNewState newStateId =>
      { agenda with
        problems := Function.update agenda.problems newStateId
          (some ((agenda.problems newStateId).getD Problem.new)) }
  | .removeState stateId =>
      { agenda with
        problems := Function.update agenda.problems stateId none }
  | .changeActiveState stateId => { agenda with active := some stateId }
  | .addRuntimeKnowledge _ _ _ => agenda
  | .addConstraint targetField sigma goalValue priority =>
      agenda.onActive fun problem =>
        problem.addConstraint ⟨targetField, sigma, goalValue, none⟩ priority
  | .removeConstraint priority =>
      agenda.onActive fun problem => problem.removeConstraint priority
  | .setRank objective evaluate =>
      agenda.onActive fun problem => problem.setRank objective evaluate

/-- The active state is one of the states. -/
def ActiveStated (agenda : Agenda g I P) : Prop :=
  ∀ stateId, agenda.active = some stateId → (agenda.problems stateId).isSome

end Agenda

namespace Asrtm

variable [DecidableEq I]

def agenda (m : Asrtm g I (State g P)) : Agenda g I P where
  problems := fun stateId =>
    (m.applicationOptimizers.find? stateId).map fun s => s.problem.unwire
  active := m.currentOptimizer

theorem agenda_eq {m other : Asrtm g I (State g P)}
    (hproblems : ∀ stateId,
      (m.applicationOptimizers.find? stateId).map
          (fun s => s.problem.unwire) =
        (other.applicationOptimizers.find? stateId).map
          fun s => s.problem.unwire)
    (hactive : m.currentOptimizer = other.currentOptimizer) :
    m.agenda = other.agenda := by
  rw [agenda, agenda, hactive, funext hproblems]

/-- A change of all the states that keeps their problems. -/
theorem agenda_onStates {m : Asrtm g I (State g P)}
    {change : State g P → State g P}
    (hchange : ∀ s, (change s).problem.unwire = s.problem.unwire) :
    (m.onStates change).agenda = m.agenda := by
  refine agenda_eq (fun stateId => ?_) rfl
  rw [onStates, UnorderedMap.find?_map, Option.map_map]
  exact congrArg (Option.map · _) (funext hchange)

theorem agenda_onActiveState {m next : Asrtm g I (State g P)}
    {change : State g P → State g P} {effect : Problem g P → Problem g P}
    (hchange : ∀ s, (change s).problem.unwire = effect s.problem.unwire)
    (hnext : m.onActiveState change = some next) :
    next.agenda = m.agenda.onActive effect := by
  obtain ⟨stateId, hcurrent, rfl⟩ := Option.map_eq_some_iff.mp hnext
  have hactive : m.agenda.active = some stateId := hcurrent
  rw [Agenda.onActive, hactive]
  simp only [agenda, hcurrent, Agenda.mk.injEq, and_true]
  funext other
  rw [UnorderedMap.find?_modify]
  by_cases hother : other = stateId
  · subst hother
    rw [Function.update_self, Option.map_map, Option.map_map]
    simp [Function.comp_def, hchange]
  · rw [Function.update_of_ne hother]
    simp [hother]

theorem agenda_removeState {m next : Asrtm g I (State g P)} {stateId : I}
    (hnext : m.removeState stateId = some next) :
    next.agenda = m.agenda.step (.removeState stateId) := by
  rw [removeState] at hnext
  split at hnext
  · contradiction
  · obtain rfl := Option.some.inj hnext
    simp only [agenda, Agenda.step, Agenda.mk.injEq, and_true]
    funext other
    rw [UnorderedMap.find?_erase]
    by_cases hother : other = stateId
    · subst hother
      rw [Function.update_self, if_pos rfl]
      rfl
    · rw [Function.update_of_ne hother, if_neg hother]

theorem agenda_changeActiveState {m next : Asrtm g I (State g P)}
    {stateId : I} (hnext : m.changeActiveState stateId = some next) :
    next.agenda = m.agenda.step (.changeActiveState stateId) := by
  obtain ⟨found, hfound, rfl⟩ := Option.map_eq_some_iff.mp hnext
  rw [findState] at hfound
  split at hfound
  · obtain rfl := Option.some.inj hfound
    rfl
  · contradiction

section Calls

variable [HashOrder (OperatingPointPtr g)]

theorem agenda_createNewState (m : Asrtm g I (State g P)) (newStateId : I) :
    (m.createNewState newStateId).agenda =
      m.agenda.step (.createNewState newStateId) := by
  have hactive : (m.createNewState newStateId).currentOptimizer =
      m.currentOptimizer := by
    rw [createNewState]
    split <;> rfl
  simp only [agenda, Agenda.step, hactive, Agenda.mk.injEq, and_true]
  funext stateId
  rw [createNewState]
  split
  · next hexists =>
      obtain ⟨s, hfind⟩ := Option.isSome_iff_exists.mp hexists
      by_cases hid : stateId = newStateId
      · subst hid
        rw [Function.update_self, hfind]
        rfl
      · rw [Function.update_of_ne hid]
  · next hexists =>
      have hfind : m.applicationOptimizers.find? newStateId = none := by
        simpa using hexists
      have hkeys := UnorderedMap.find?_eq_none.mp hfind
      simp only [UnorderedMap.find?_emplace]
      by_cases hid : stateId = newStateId
      · subst hid
        rw [Function.update_self, hfind, if_pos ⟨rfl, hkeys⟩]
        simp only [Option.map_some, State.problem_setKnowledgeAdaptor,
          State.problem_setKnowledgeBase, Problem.unwire_wire]
        rfl
      · rw [Function.update_of_ne hid, if_neg fun h => hid h.1]

/-- A call of the manager refines the call of the abstract manager. -/
theorem agenda_runProblem {m next : Asrtm g I (State g P)}
    {store after : Store g} {call : ProblemCall g I P}
    (hcall : m.runProblem store call = some (after, next)) :
    next.agenda = m.agenda.step call := by
  cases call with
  | createNewState newStateId =>
      obtain ⟨-, rfl⟩ := Prod.mk.inj (Option.some.inj hcall)
      exact agenda_createNewState m newStateId
  | removeState stateId =>
      obtain ⟨_, hnext, heq⟩ := Option.map_eq_some_iff.mp hcall
      obtain ⟨-, rfl⟩ := Prod.mk.inj heq
      exact agenda_removeState hnext
  | changeActiveState stateId =>
      obtain ⟨_, hnext, heq⟩ := Option.map_eq_some_iff.mp hcall
      obtain ⟨-, rfl⟩ := Prod.mk.inj heq
      exact agenda_changeActiveState hnext
  | addRuntimeKnowledge targetField inertia monitor =>
      obtain ⟨-, rfl⟩ := Prod.mk.inj (Option.some.inj hcall)
      exact agenda_onStates fun s => by simp
  | addConstraint targetField sigma goalValue priority =>
      obtain ⟨_, hnext, heq⟩ := Option.map_eq_some_iff.mp hcall
      obtain ⟨-, rfl⟩ := Prod.mk.inj heq
      exact agenda_onActiveState (fun s => by simp [Requirement.unwire,
        Requirement.wire]) hnext
  | removeConstraint priority =>
      obtain ⟨_, hnext, heq⟩ := Option.map_eq_some_iff.mp hcall
      obtain ⟨-, rfl⟩ := Prod.mk.inj heq
      exact agenda_onActiveState (fun s => by simp) hnext
  | setRank objective evaluate =>
      obtain ⟨_, hnext, heq⟩ := Option.map_eq_some_iff.mp hcall
      obtain ⟨-, rfl⟩ := Prod.mk.inj heq
      refine agenda_onActiveState (fun s => ?_) hnext
      rw [State.problem_setRank]
      rfl

/-- Only the knowledge and the configurations change, never the problems. -/
theorem agenda_findBestConfiguration {m next : Asrtm g I (State g P)}
    {store after : Store g}
    (hfound : m.findBestConfiguration store = some (after, next)) :
    next.agenda = m.agenda := by
  obtain ⟨evaluated, -, hsolved⟩ := Option.bind_eq_some_iff.mp hfound
  cases hcurrent : m.currentOptimizer with
  | none =>
      rw [hcurrent] at hsolved
      obtain ⟨-, rfl⟩ := Prod.mk.inj (Option.some.inj hsolved)
      rfl
  | some stateId =>
      rw [hcurrent] at hsolved
      obtain ⟨found, hbest, heq⟩ := Option.map_eq_some_iff.mp hsolved
      obtain ⟨-, rfl⟩ := Prod.mk.inj heq
      obtain ⟨s, hfind, hsolve⟩ := Option.bind_eq_some_iff.mp hbest
      have hproblem := State.problem_getBestOperatingPoint hsolve
      refine agenda_eq (fun other => ?_) hcurrent.symm
      rw [UnorderedMap.find?_modify]
      by_cases hother : other = stateId
      · subst hother
        simp [hfind, hproblem]
      · simp [hother]

theorem agenda_runUsage {m next : Asrtm g I (State g P)}
    {store after : Store g} {call : UsageCall g}
    (hcall : m.runUsage store call = some (after, next)) :
    next.agenda = m.agenda := by
  cases call with
  | addOperatingPoints opList =>
      obtain ⟨-, rfl⟩ := Prod.mk.inj (Option.some.inj hcall)
      exact agenda_onStates fun s => by simp
  | removeOperatingPoints configurationList =>
      obtain ⟨-, rfl⟩ := Prod.mk.inj (Option.some.inj hcall)
      exact agenda_onStates fun s => by simp
  | findBestConfiguration => exact agenda_findBestConfiguration hcall
  | getBestConfiguration =>
      obtain ⟨found, hbest, heq⟩ := Option.map_eq_some_iff.mp hcall
      obtain ⟨-, rfl⟩ := Prod.mk.inj heq
      obtain ⟨proposed, -, rfl⟩ := Option.map_eq_some_iff.mp hbest
      split <;> rfl
  | configurationApplied =>
      obtain ⟨-, rfl⟩ := Prod.mk.inj (Option.some.inj hcall)
      rfl

@[simp] theorem agenda_setKnowledgeBase (m : Asrtm g I (State g P))
    (store : Store g) (ops : List (OperatingPoint g)) :
    (m.setKnowledgeBase store ops).2.agenda = m.agenda :=
  agenda_onStates fun s => by simp

@[simp] theorem agenda_setSinglePoint (m : Asrtm g I (State g P))
    (store : Store g) (point : OperatingPoint g) :
    (m.setSinglePoint store point).2.agenda = m.agenda :=
  agenda_setKnowledgeBase m store [point]

@[simp] theorem agenda_setModel (m : Asrtm g I (State g P)) (store : Store g)
    (model : List (OperatingPoint g)) :
    (m.setModel store model).2.agenda = m.agenda :=
  agenda_setKnowledgeBase m store model

end Calls

section Active

variable {m next : Asrtm g I (State g P)} {store after : Store g}

theorem active_onActiveState {change : State g P → State g P}
    (hactive : m.agenda.ActiveStated)
    (hnext : m.onActiveState change = some next) :
    next.agenda.ActiveStated := by
  obtain ⟨stateId, -, rfl⟩ := Option.map_eq_some_iff.mp hnext
  intro active hcurrent
  have hstated := hactive active hcurrent
  simp only [agenda, UnorderedMap.find?_modify, Option.isSome_map]
    at hstated ⊢
  exact hstated

/-- A manager never removes its active state. -/
theorem active_removeState {stateId : I} (hactive : m.agenda.ActiveStated)
    (hnext : m.removeState stateId = some next) :
    next.agenda.ActiveStated := by
  rw [removeState] at hnext
  split at hnext
  · contradiction
  · next hother =>
      obtain rfl := Option.some.inj hnext
      intro active hcurrent
      have hstated := hactive active hcurrent
      simp only [agenda, Option.isSome_map] at hstated
      have hne : active ≠ stateId := by
        rintro rfl
        rw [findState, if_pos hstated] at hother
        exact hother hcurrent.symm
      simp only [agenda, UnorderedMap.find?_erase, if_neg hne,
        Option.isSome_map]
      exact hstated

variable [HashOrder (OperatingPointPtr g)]

theorem active_runProblem {call : ProblemCall g I P}
    (hactive : m.agenda.ActiveStated)
    (hcall : m.runProblem store call = some (after, next)) :
    next.agenda.ActiveStated := by
  cases call with
  | createNewState newStateId =>
      rw [agenda_runProblem hcall]
      intro active hcurrent
      have hstated := hactive active hcurrent
      simp only [Agenda.step, Function.update_apply]
      split
      · rfl
      · exact hstated
  | removeState stateId =>
      obtain ⟨_, hnext, heq⟩ := Option.map_eq_some_iff.mp hcall
      obtain ⟨-, rfl⟩ := Prod.mk.inj heq
      exact active_removeState hactive hnext
  | changeActiveState stateId =>
      obtain ⟨_, hnext, heq⟩ := Option.map_eq_some_iff.mp hcall
      obtain ⟨-, rfl⟩ := Prod.mk.inj heq
      obtain ⟨found, hfound, rfl⟩ := Option.map_eq_some_iff.mp hnext
      rw [findState] at hfound
      split at hfound
      · next hstated =>
          intro active hcurrent
          obtain rfl := Option.some.inj (hfound.trans hcurrent)
          simpa only [agenda, Option.isSome_map] using hstated
      · contradiction
  | addRuntimeKnowledge targetField inertia monitor =>
      rw [agenda_runProblem hcall]
      exact hactive
  | addConstraint targetField sigma goalValue priority =>
      obtain ⟨_, hnext, heq⟩ := Option.map_eq_some_iff.mp hcall
      obtain ⟨-, rfl⟩ := Prod.mk.inj heq
      exact active_onActiveState hactive hnext
  | removeConstraint priority =>
      obtain ⟨_, hnext, heq⟩ := Option.map_eq_some_iff.mp hcall
      obtain ⟨-, rfl⟩ := Prod.mk.inj heq
      exact active_onActiveState hactive hnext
  | setRank objective evaluate =>
      obtain ⟨_, hnext, heq⟩ := Option.map_eq_some_iff.mp hcall
      obtain ⟨-, rfl⟩ := Prod.mk.inj heq
      exact active_onActiveState hactive hnext

/-- The active state of a manager is one of its states. -/
theorem active_step {before reached : Store g × Asrtm g I (State g P)}
    {action : Action g I P} (hactive : before.2.agenda.ActiveStated)
    (hstep : step before action = some reached) :
    reached.2.agenda.ActiveStated := by
  cases action with
  | problem call => exact active_runProblem hactive hstep
  | usage call =>
      rw [agenda_runUsage hstep]
      exact hactive
  | setSinglePoint point =>
      obtain rfl := Option.some.inj hstep
      rw [agenda_setSinglePoint]
      exact hactive
  | setModel model =>
      obtain rfl := Option.some.inj hstep
      rw [agenda_setModel]
      exact hactive
  | restoreFromDataFeatureSwitch =>
      obtain rfl := Option.some.inj hstep
      exact hactive
  | changeGoals goalValue =>
      obtain rfl := Option.some.inj hstep
      exact hactive
  | observe monitor =>
      obtain rfl := Option.some.inj hstep
      exact hactive

end Active

section Sibling

variable [HashOrder I]

/-- The states replicated by a part of the loop of `create_sibling`. -/
theorem foldl_replicateState (m : Asrtm g I (State g P))
    (runtime : RuntimeInformation) {order : List I}
    (cloned : Asrtm g I (State g P))
    (hfound : ∀ stateId ∈ order, stateId ∈ m.visitStates)
    (hnew : ∀ stateId ∈ order, stateId ∉ cloned.applicationOptimizers.keys)
    (hnodup : order.Nodup) :
    ∃ optimizers, order.foldl (m.replicateState runtime) cloned =
        { cloned with
          applicationOptimizers := optimizers
          currentOptimizer := order.getLast?.or cloned.currentOptimizer } ∧
      optimizers.keys = cloned.applicationOptimizers.keys ++ order ∧
      ∀ stateId, optimizers.find? stateId =
        if stateId ∈ order then
          (m.applicationOptimizers.find? stateId).map fun s =>
            s.createSibling runtime
        else cloned.applicationOptimizers.find? stateId := by
  induction order generalizing cloned with
  | nil => exact ⟨cloned.applicationOptimizers, by simp, by simp, by simp⟩
  | cons first rest ih =>
      obtain ⟨hfirst, hrest⟩ := List.forall_mem_cons.mp hfound
      obtain ⟨hfirstNew, hrestNew⟩ := List.forall_mem_cons.mp hnew
      obtain ⟨hfirstRest, hrestNodup⟩ := List.nodup_cons.mp hnodup
      obtain ⟨s, hfind⟩ := mem_visitStates.mp hfirst
      have hkeys := UnorderedMap.keys_emplace_of_not_mem hfirstNew
        (s.createSibling runtime)
      have hreplicated : m.replicateState runtime cloned first =
          { cloned with
            applicationOptimizers := cloned.applicationOptimizers.emplace first
              (s.createSibling runtime)
            currentOptimizer := some first } := by
        rw [replicateState, hfind]
      obtain ⟨optimizers, hfold, horder, hstates⟩ :=
        ih (m.replicateState runtime cloned first) hrest
          (by
            rw [hreplicated]
            simp only [hkeys, List.mem_append, List.mem_singleton]
            rintro stateId hmem (hold | rfl)
            · exact hrestNew stateId hmem hold
            · exact hfirstRest hmem) hrestNodup
      rw [hreplicated] at hfold horder hstates
      refine ⟨optimizers, ?_, ?_, fun stateId => ?_⟩
      · rw [List.foldl_cons, hreplicated, hfold]
        cases hlast : rest.getLast? with
        | none => simp [List.getLast?_eq_none_iff.mp hlast]
        | some last => simp [List.getLast?_cons, hlast]
      · rw [horder, hkeys, List.append_assoc, List.singleton_append]
      · rw [hstates, UnorderedMap.find?_emplace]
        by_cases hid : stateId = first
        · subst hid
          simp [hfirstRest, hfirstNew, hfind]
        · simp [hid]

/-- A sibling has the states of the original, in the order in which they were
visited, and the last of them is active. -/
theorem createSibling_spec (m : Asrtm g I (State g P)) (store : Store g) :
    ∃ optimizers, (m.createSibling store).2 =
        { (new : Asrtm g I (State g P)) with
          applicationOptimizers := optimizers
          currentOptimizer := m.visitStates.getLast?
          runtimeInformation := m.runtimeInformation
          monitorHandlers := m.monitorHandlers } ∧
      optimizers.keys = m.visitStates ∧
      ∀ stateId, optimizers.find? stateId =
        (m.applicationOptimizers.find? stateId).map fun s =>
          s.createSibling store.runtimeInformation := by
  obtain ⟨optimizers, hfold, hkeys, hstates⟩ := foldl_replicateState m
    store.runtimeInformation (new : Asrtm g I (State g P))
    (fun _ hmem => hmem) (fun _ _ => by simp [new, UnorderedMap.empty,
      UnorderedMap.keys]) (UnorderedMap.visitKeys_nodup _)
  refine ⟨optimizers, ?_, hkeys, fun stateId => ?_⟩
  · rw [createSibling, hfold]
    simp [new]
  · rw [hstates]
    split
    · rfl
    · next hnot =>
        have hnone : m.applicationOptimizers.find? stateId = none := by
          simpa [mem_visitStates, Option.eq_none_iff_forall_ne_some] using hnot
        rw [hnone]
        rfl

/-- The problems of a copy are those of the original. -/
theorem problems_copy (m : Asrtm g I (State g P)) :
    m.copy.agenda.problems = m.agenda.problems := by
  funext stateId
  simp [agenda, copy]

theorem problems_createSibling (m : Asrtm g I (State g P)) (store : Store g) :
    (m.createSibling store).2.agenda.problems = m.agenda.problems := by
  obtain ⟨optimizers, hsibling, -, hstates⟩ := createSibling_spec m store
  funext stateId
  rw [hsibling]
  simp [agenda, hstates, Function.comp_def]

/-- The state that takes the place of the last visited one when a sibling is
moved to where it is kept. -/
def siblingState (m : Asrtm g I (State g P)) : Option I :=
  walkTo m.visitStates.getLast? (HashOrder.visit m.visitStates)
    (HashOrder.visit (HashOrder.copy m.visitStates))

theorem active_copy_createSibling (m : Asrtm g I (State g P))
    (store : Store g) :
    (m.createSibling store).2.copy.currentOptimizer = m.siblingState := by
  obtain ⟨optimizers, hsibling, hkeys, -⟩ := createSibling_spec m store
  rw [hsibling]
  simp [copy, siblingState, visitStates, UnorderedMap.visitKeys, hkeys]

/-- The agenda of a sibling that was moved to where it is kept. -/
theorem agenda_copy_createSibling (m : Asrtm g I (State g P))
    (store : Store g) :
    (m.createSibling store).2.copy.agenda =
      ⟨m.agenda.problems, m.siblingState⟩ := by
  rw [Agenda.mk.injEq]
  exact ⟨(problems_copy _).trans (problems_createSibling m store),
    active_copy_createSibling m store⟩

end Sibling

end Asrtm

end Margot
