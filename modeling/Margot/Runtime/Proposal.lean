/-
What a manager proposes.  The calls of its methods state a problem for every
state; whatever else happened to the manager, the configuration that it proposes
solves the problem of the active state for the Operating Points that are known.
-/
import Margot.Runtime.Cache
import Margot.Runtime.InStep
import Margot.Runtime.Ready
import Margot.Runtime.Wiring

namespace Margot

variable {g : Geometry} {I P : Type}

namespace Requirement

/-- The value that the goal and the provider ask for. -/
def finalGoalValue (r : Requirement g) (runtime : RuntimeInformation) : ℚ :=
  r.targetGoal.get runtime *
    (match r.knowledgeAdaptor with
      | none => 1
      | some ref => runtime.errorCoefficient ref)

def evaluateOp (r : Requirement g) (op : OperatingPointPtr g) : ℚ :=
  constraintField r.targetField r.sigma r.targetGoal op

/-- The requirement as a filter of Operating Points. -/
def stage (r : Requirement g) (runtime : RuntimeInformation) :
    Stage (OperatingPointPtr g) ℚ where
  accepts := fun op =>
    r.targetGoal.check (r.evaluateOp op) (r.finalGoalValue runtime) = true
  distance := fun op => |r.evaluateOp op - r.finalGoalValue runtime|
  held := ∅

end Requirement

namespace Problem

variable [LinearOrder P]

/-- The requirements in the order of their priorities. -/
def stages (problem : Problem g P) (runtime : RuntimeInformation) :
    List (Stage (OperatingPointPtr g) ℚ) :=
  problem.constraints.entries.map fun entry => entry.2.stage runtime

/-- The configuration solves the problem.  If the requirements cannot be met
they are relaxed, the least important one first. -/
structure Solved (problem : Problem g P) (runtime : RuntimeInformation)
    (kb : Knowledge g) (found : Option (OperatingPointPtr g)) : Prop where
  none_iff : found = none ↔ kb.empty = true
  mem : ∀ op, found = some op →
    op ∈ relax (problem.stages runtime) kb.points
  unbeaten : ∀ op, found = some op →
    ∀ other ∈ relax (problem.stages runtime) kb.points,
      problem.objective.best (problem.evaluate other) (problem.evaluate op) =
        false
  /-- Every requirement is met as soon as that is possible. -/
  valid : ∀ op, found = some op →
    (passed (problem.stages runtime) kb.points).Nonempty →
      op ∈ passed (problem.stages runtime) kb.points

/-- A wired problem is known by the problem without its providers. -/
theorem Wired.wire_unwire {problem : Problem g P}
    {information : KnowledgeAdaptor g} (hwired : problem.Wired information) :
    problem.unwire.wire information = problem := by
  have hrequirements : (problem.unwire.wire information).constraints =
      problem.constraints := by
    apply OrderedMap.ext_entries
    rw [wire, unwire, OrderedMap.entries_mapValues,
      OrderedMap.entries_mapValues, List.map_map]
    conv_rhs => rw [← List.map_id problem.constraints.entries]
    apply List.map_congr_left
    intro entry hentry
    have hprovider := hwired entry hentry
    obtain ⟨priority, requirement⟩ := entry
    obtain ⟨targetField, sigma, targetGoal, knowledgeAdaptor⟩ := requirement
    change knowledgeAdaptor = information.getFieldAdaptor targetField
      at hprovider
    rw [hprovider]
    rfl
  obtain ⟨constraints, objective, evaluate⟩ := problem
  simp only [wire, unwire] at hrequirements ⊢
  rw [hrequirements]

end Problem

namespace State

variable [LinearOrder P] {s next : State g P} {kb : Knowledge g}
  {runtime : RuntimeInformation}

/-- The relaxed constraints leave what the stated requirements leave. -/
theorem relax_stages_problem (s : State g P) (runtime : RuntimeInformation)
    (source : Set (OperatingPointPtr g)) :
    relax (stagesOf (s.retarget runtime).constraints.entries) source =
      relax (s.problem.stages runtime) source := by
  apply relax_eq_of_forall₂
  rw [retarget, problem, Problem.stages, OrderedMap.entries_mapValues,
    OrderedMap.entries_mapValues, stagesOf, List.map_map, List.map_map,
    List.forall₂_map_left_iff, List.forall₂_map_right_iff]
  exact List.forall₂_same.mpr fun entry _ => ⟨rfl, rfl⟩

/-- What a state answers solves the problem that it states. -/
theorem Answered.solved (hanswered : s.Answered kb runtime next) :
    s.problem.Solved runtime kb next.bestOperatingPointFound := by
  have hcandidates : next.candidates kb =
      relax (s.problem.stages runtime) kb.points := by
    rw [candidates, relax_stagesOf_of_cleared hanswered.cleared,
      relax_stages_problem]
  have hobjective : next.rank.clear.objective = s.rank.clear.objective := by
    rw [hanswered.rank]
  have hevaluate : next.rank.clear.evaluate = s.rank.clear.evaluate := by
    rw [hanswered.rank]
  simp only [Rank.clear, Rank.new] at hobjective hevaluate
  have hmem : ∀ op, next.bestOperatingPointFound = some op →
      op ∈ relax (s.problem.stages runtime) kb.points := by
    intro op hop
    rw [← hcandidates]
    exact (hanswered.solves.optimal op hop).mem
  refine ⟨hanswered.solves.none_iff, hmem, ?_, ?_⟩
  · intro op hop other hother
    rw [← hcandidates] at hother
    have hunbeaten := (hanswered.solves.optimal op hop).unbeaten other hother
    rw [hobjective, hevaluate] at hunbeaten
    exact hunbeaten
  · intro op hop hpassed
    rw [← relax_eq_passed hpassed]
    exact hmem op hop

end State

namespace Agenda

variable [LinearOrder P]

def empty : Agenda g I P := ⟨fun _ => none, none⟩

end Agenda

namespace Asrtm

variable [LinearOrder P]

/-- The store after the error of the configuration in use, if it is due. -/
def evaluated (m : Asrtm g I (State g P)) (store : Store g) :
    Option (Store g) :=
  if m.status = .tuned then m.evaluateError store else some store

/-- What the active state is asked to do by an action. -/
def asked (world : Store g × Asrtm g I (State g P)) :
    Action g I P → Option (Operation g P)
  | .problem (.addConstraint targetField sigma goalValue priority) =>
      some (.addConstraint world.2.runtimeInformation
        world.1.runtimeInformation targetField sigma goalValue priority)
  | .problem (.removeConstraint priority) => some (.removeConstraint priority)
  | .problem (.setRank objective evaluate) =>
      some (.setRank objective evaluate)
  | .usage .findBestConfiguration =>
      (world.2.evaluated world.1).map fun store =>
        .getBestOperatingPoint store.runtimeInformation
  | _ => none

variable [DecidableEq I]

/-- The effect of an action on what the manager is asked to do. -/
def stateProblem (agenda : Agenda g I P) : Action g I P → Agenda g I P
  | .problem call => agenda.step call
  | _ => agenda

/-- What the actions ask of a new manager. -/
def stated (actions : List (Action g I P)) : Agenda g I P :=
  actions.foldl stateProblem Agenda.empty

/-- The active state takes the action without losing Operating Points and
without leaving a stale answer behind. -/
def Undisturbed (world : Store g × Asrtm g I (State g P))
    (action : Action g I P) : Prop :=
  ∀ s, world.2.activeState = some s → ∀ operation,
    asked world action = some operation →
      Setting.Undisturbed ⟨world.2.knowledge, s⟩ operation

/-- Every state is sound for the knowledge of the manager. -/
def States (m : Asrtm g I (State g P)) : Prop :=
  ∀ stateId s, m.applicationOptimizers.find? stateId = some s →
    Setting.Sound ⟨m.knowledge, s⟩

/-- The invariant of a manager that is left undisturbed: the states are sound,
every constraint has its provider, and the active state is one of the states. -/
structure Sound (m : Asrtm g I (State g P)) : Prop where
  states : m.States
  wired : m.Wired
  active : m.agenda.ActiveStated

section States

variable {m next : Asrtm g I (State g P)} {store after : Store g}

theorem activeState_eq_some {s : State g P} :
    m.activeState = some s ↔ ∃ stateId, m.currentOptimizer = some stateId ∧
      m.applicationOptimizers.find? stateId = some s :=
  Option.bind_eq_some_iff

theorem States.onStates {kb : Knowledge g} {change : State g P → State g P}
    (hstates : m.States)
    (hchange : ∀ s, Setting.Sound ⟨m.knowledge, s⟩ →
      Setting.Sound ⟨kb, change s⟩) (hknowledge : next.knowledge = kb)
    (hnext : next.applicationOptimizers =
      (m.onStates change).applicationOptimizers) : next.States := by
  intro stateId s hfind
  rw [hnext, Asrtm.onStates, UnorderedMap.find?_map] at hfind
  obtain ⟨old, hold, rfl⟩ := Option.map_eq_some_iff.mp hfind
  rw [hknowledge]
  exact hchange old (hstates stateId old hold)

/-- A change of the active state alone. -/
theorem States.modify {stateId : I} {change : State g P → State g P}
    (hstates : m.States) (hactive : m.currentOptimizer = some stateId)
    (hchange : ∀ s, m.activeState = some s →
      Setting.Sound ⟨m.knowledge, change s⟩)
    (hknowledge : next.knowledge = m.knowledge)
    (hnext : next.applicationOptimizers =
      m.applicationOptimizers.modify stateId change) : next.States := by
  intro other s hfind
  rw [hnext, UnorderedMap.find?_modify] at hfind
  rw [hknowledge]
  obtain ⟨old, hold, heq⟩ := Option.map_eq_some_iff.mp hfind
  split at heq
  · next hother =>
      subst hother heq
      exact hchange old (activeState_eq_some.mpr ⟨other, hactive, hold⟩)
  · subst heq
    exact hstates other old hold

variable [HashOrder (OperatingPointPtr g)]

/-- The active state performs one operation. -/
theorem States.onActiveState {change : State g P → State g P}
    {operation : Operation g P} (hstates : m.States)
    (hmeets : ∀ s, m.activeState = some s →
      Setting.Undisturbed ⟨m.knowledge, s⟩ operation)
    (hoperation : ∀ s, Setting.step ⟨m.knowledge, s⟩ operation =
      some ⟨m.knowledge, change s⟩)
    (hnext : m.onActiveState change = some next) : next.States := by
  obtain ⟨stateId, hactive, rfl⟩ := Option.map_eq_some_iff.mp hnext
  refine hstates.modify hactive (fun s hs => ?_) rfl rfl
  obtain ⟨other, hother, hfind⟩ := activeState_eq_some.mp hs
  exact Setting.sound_step _ operation _ (hstates other s hfind)
    (hmeets s hs) (hoperation s)

theorem states_setKnowledgeBase (m : Asrtm g I (State g P)) (store : Store g)
    (ops : List (OperatingPoint g)) :
    (m.setKnowledgeBase store ops).2.States := by
  intro stateId s hfind
  simp only [setKnowledgeBase, Asrtm.onStates, UnorderedMap.find?_map]
    at hfind
  obtain ⟨old, -, rfl⟩ := Option.map_eq_some_iff.mp hfind
  exact ⟨State.partition_setKnowledgeBase old _, State.cached_of_changed rfl⟩

theorem States.createNewState (hstates : m.States) (newStateId : I) :
    (m.createNewState newStateId).States := by
  rw [Asrtm.createNewState]
  split
  · exact hstates
  · intro stateId s hfind
    rw [UnorderedMap.find?_emplace] at hfind
    split at hfind
    · obtain rfl := Option.some.inj hfind
      exact ⟨partition_setKnowledgeAdaptor
        (State.partition_setKnowledgeBase _ m.knowledge) m.runtimeInformation,
        State.cached_of_changed rfl⟩
    · exact hstates stateId s hfind

theorem States.runProblem {call : ProblemCall g I P} (hstates : m.States)
    (hmeets : Undisturbed (store, m) (.problem call))
    (hcall : m.runProblem store call = some (after, next)) : next.States := by
  cases call with
  | createNewState newStateId =>
      obtain ⟨-, rfl⟩ := Prod.mk.inj (Option.some.inj hcall)
      exact hstates.createNewState newStateId
  | removeState stateId =>
      obtain ⟨_, hnext, heq⟩ := Option.map_eq_some_iff.mp hcall
      obtain ⟨-, rfl⟩ := Prod.mk.inj heq
      rw [removeState] at hnext
      split at hnext
      · contradiction
      · obtain rfl := Option.some.inj hnext
        intro other s hfind
        rw [UnorderedMap.find?_erase] at hfind
        split at hfind
        · contradiction
        · exact hstates other s hfind
  | changeActiveState stateId =>
      obtain ⟨_, hnext, heq⟩ := Option.map_eq_some_iff.mp hcall
      obtain ⟨-, rfl⟩ := Prod.mk.inj heq
      obtain ⟨found, -, rfl⟩ := Option.map_eq_some_iff.mp hnext
      exact hstates
  | addRuntimeKnowledge targetField inertia monitor =>
      obtain ⟨-, rfl⟩ := Prod.mk.inj (Option.some.inj hcall)
      have hgiven : ∀ (information : KnowledgeAdaptor g) (s : State g P),
          Setting.Sound ⟨m.knowledge, s⟩ →
            Setting.Sound ⟨m.knowledge, s.setKnowledgeAdaptor information⟩ :=
        fun information s hs =>
          ⟨partition_setKnowledgeAdaptor hs.partitioned information,
            State.cached_of_changed rfl⟩
      exact hstates.onStates (hgiven _) rfl rfl
  | addConstraint targetField sigma goalValue priority =>
      obtain ⟨_, hnext, heq⟩ := Option.map_eq_some_iff.mp hcall
      obtain ⟨-, rfl⟩ := Prod.mk.inj heq
      exact hstates.onActiveState (fun s hs => hmeets s hs _ rfl)
        (fun _ => rfl) hnext
  | removeConstraint priority =>
      obtain ⟨_, hnext, heq⟩ := Option.map_eq_some_iff.mp hcall
      obtain ⟨-, rfl⟩ := Prod.mk.inj heq
      exact hstates.onActiveState (fun s hs => hmeets s hs _ rfl)
        (fun _ => rfl) hnext
  | setRank objective evaluate =>
      obtain ⟨_, hnext, heq⟩ := Option.map_eq_some_iff.mp hcall
      obtain ⟨-, rfl⟩ := Prod.mk.inj heq
      exact hstates.onActiveState (fun s hs => hmeets s hs _ rfl)
        (fun _ => rfl) hnext

theorem findBestConfiguration_eq (m : Asrtm g I (State g P))
    (store : Store g) :
    m.findBestConfiguration store = (m.evaluated store).bind fun store =>
      match m.currentOptimizer with
      | none => some (store, m)
      | some stateId =>
          ((m.applicationOptimizers.find? stateId).bind fun s =>
            s.getBestOperatingPoint store.runtimeInformation).map fun found =>
              (store, { m with
                applicationOptimizers :=
                  m.applicationOptimizers.modify stateId fun _ => found.1
                proposedBestConfiguration := found.2 }) :=
  rfl

theorem States.findBestConfiguration (hstates : m.States)
    (hmeets : Undisturbed (store, m) (.usage .findBestConfiguration))
    (hfound : m.findBestConfiguration store = some (after, next)) :
    next.States := by
  rw [findBestConfiguration_eq] at hfound
  obtain ⟨evaluated, hevaluated, hsolved⟩ := Option.bind_eq_some_iff.mp hfound
  cases hcurrent : m.currentOptimizer with
  | none =>
      rw [hcurrent] at hsolved
      obtain ⟨-, rfl⟩ := Prod.mk.inj (Option.some.inj hsolved)
      exact hstates
  | some stateId =>
      rw [hcurrent] at hsolved
      obtain ⟨found, hbest, heq⟩ := Option.map_eq_some_iff.mp hsolved
      obtain ⟨-, rfl⟩ := Prod.mk.inj heq
      obtain ⟨s, hfind, hsolve⟩ := Option.bind_eq_some_iff.mp hbest
      have hs : m.activeState = some s :=
        activeState_eq_some.mpr ⟨stateId, hcurrent, hfind⟩
      have hoperation := hmeets s hs _ (Option.map_eq_some_iff.mpr
        ⟨evaluated, hevaluated, rfl⟩)
      have hstep : Setting.step ⟨m.knowledge, s⟩ (.getBestOperatingPoint
          evaluated.runtimeInformation) = some ⟨m.knowledge, found.1⟩ :=
        Option.map_eq_some_iff.mpr ⟨found, hsolve, rfl⟩
      have hsolved : ∀ other, m.activeState = some other →
          Setting.Sound ⟨m.knowledge, (fun _ => found.1) other⟩ :=
        fun _ _ => Setting.sound_step _ _ _ (hstates stateId s hfind)
          hoperation hstep
      exact hstates.modify hcurrent hsolved rfl rfl

theorem States.runUsage {call : UsageCall g} (hstates : m.States)
    (hmeets : Undisturbed (store, m) (.usage call))
    (hcall : m.runUsage store call = some (after, next)) : next.States := by
  cases call with
  | addOperatingPoints opList =>
      obtain ⟨-, rfl⟩ := Prod.mk.inj (Option.some.inj hcall)
      have hadded : ∀ (ops : OPStream g) (s : State g P),
          Setting.Sound ⟨m.knowledge, s⟩ →
            Setting.Sound ⟨(m.knowledge.addAll ops).1,
              s.addOperatingPoints (m.knowledge.addAll ops).2⟩ :=
        fun ops s hs => Setting.sound_step _ (.addOperatingPoints ops) _ hs
          ⟨trivial, trivial, trivial⟩ rfl
      exact hstates.onStates (hadded _) rfl rfl
  | removeOperatingPoints configurationList =>
      obtain ⟨-, rfl⟩ := Prod.mk.inj (Option.some.inj hcall)
      have hremoved : ∀ s : State g P, Setting.Sound ⟨m.knowledge, s⟩ →
          Setting.Sound ⟨(m.knowledge.removeAll configurationList).1,
            s.removeOperatingPoints
              (m.knowledge.removeAll configurationList).2⟩ :=
        fun s hs => Setting.sound_step _
          (.removeOperatingPoints configurationList) _ hs
          ⟨trivial, trivial, trivial⟩ rfl
      exact hstates.onStates hremoved rfl rfl
  | findBestConfiguration => exact hstates.findBestConfiguration hmeets hcall
  | getBestConfiguration =>
      obtain ⟨found, hbest, heq⟩ := Option.map_eq_some_iff.mp hcall
      obtain ⟨-, rfl⟩ := Prod.mk.inj heq
      obtain ⟨proposed, -, rfl⟩ := Option.map_eq_some_iff.mp hbest
      split <;> exact hstates
  | configurationApplied =>
      obtain ⟨-, rfl⟩ := Prod.mk.inj (Option.some.inj hcall)
      exact hstates

/-- An action that leaves the active state undisturbed keeps the states
sound. -/
theorem sound_step (before : Store g × Asrtm g I (State g P))
    (action : Action g I P) (reached : Store g × Asrtm g I (State g P))
    (hsound : before.2.Sound) (hmeets : Undisturbed before action)
    (hstep : step before action = some reached) : reached.2.Sound where
  states := by
    cases action with
    | problem call => exact hsound.states.runProblem hmeets hstep
    | usage call => exact hsound.states.runUsage hmeets hstep
    | setSinglePoint point =>
        obtain rfl := Option.some.inj hstep
        exact states_setKnowledgeBase before.2 before.1 [point]
    | setModel model =>
        obtain rfl := Option.some.inj hstep
        exact states_setKnowledgeBase before.2 before.1 model
    | restoreFromDataFeatureSwitch =>
        obtain rfl := Option.some.inj hstep
        exact hsound.states
    | changeGoals goalValue =>
        obtain rfl := Option.some.inj hstep
        exact hsound.states
    | observe monitor =>
        obtain rfl := Option.some.inj hstep
        exact hsound.states
  wired := wired_step hsound.wired hstep
  active := active_step hsound.active hstep

end States

section Runs

variable [HashOrder (OperatingPointPtr g)] {store : Store g}
  {before reached : Store g × Asrtm g I (State g P)}

omit [HashOrder (OperatingPointPtr g)] in
theorem sound_new : (new : Asrtm g I (State g P)).Sound where
  states := nofun
  wired := wired_new
  active := nofun

theorem agenda_step {action : Action g I P}
    (hstep : step before action = some reached) :
    reached.2.agenda = stateProblem before.2.agenda action := by
  cases action with
  | problem call => exact agenda_runProblem hstep
  | usage call => exact agenda_runUsage hstep
  | setSinglePoint point =>
      obtain rfl := Option.some.inj hstep
      exact agenda_setSinglePoint before.2 before.1 point
  | setModel model =>
      obtain rfl := Option.some.inj hstep
      exact agenda_setModel before.2 before.1 model
  | restoreFromDataFeatureSwitch =>
      obtain rfl := Option.some.inj hstep
      rfl
  | changeGoals goalValue =>
      obtain rfl := Option.some.inj hstep
      rfl
  | observe monitor =>
      obtain rfl := Option.some.inj hstep
      rfl

/-- A manager has been asked what its calls have stated. -/
theorem agenda_run {actions : List (Action g I P)}
    (hrun : runFrom step before actions = some reached) :
    reached.2.agenda = actions.foldl stateProblem before.2.agenda := by
  induction actions generalizing before with
  | nil =>
      obtain rfl : before = reached := by simpa using hrun
      rfl
  | cons action rest ih =>
      obtain ⟨next, hstep, hrest⟩ := runFrom_cons_eq_some.mp hrun
      rw [ih hrest, agenda_step hstep, List.foldl_cons]

omit [HashOrder (OperatingPointPtr g)] in
theorem Sound.exists_activeState {m : Asrtm g I (State g P)} {stateId : I}
    (hsound : m.Sound) (hactive : m.agenda.active = some stateId) :
    ∃ s, m.applicationOptimizers.find? stateId = some s ∧
      m.activeState = some s := by
  have hstated := hsound.active stateId hactive
  simp only [agenda, Option.isSome_map] at hstated
  obtain ⟨s, hfind⟩ := Option.isSome_iff_exists.mp hstated
  exact ⟨s, hfind, activeState_eq_some.mpr ⟨stateId, hactive, hfind⟩⟩

omit [HashOrder (OperatingPointPtr g)] in
/-- A manager that is left undisturbed is ready for the threads that update
it, once it has an active state. -/
theorem Sound.ready {m : Asrtm g I (State g P)} {stateId : I}
    (hsound : m.Sound) (hactive : m.agenda.active = some stateId)
    (happlied : m.status = .tuned → m.applicationConfiguration ≠ none) :
    m.Ready := by
  obtain ⟨s, hfind, hs⟩ := hsound.exists_activeState hactive
  obtain ⟨hpart, hcached⟩ := hsound.states stateId s hfind
  refine ⟨⟨s, hs, fun hknown => ⟨hpart, fun hclear hnone => ?_⟩⟩, happlied⟩
  have hempty := (hcached hclear).none_iff.mp hnone
  rw [hknown] at hempty
  contradiction

/-- A sound manager finds a configuration that solves the problem of its active
state. -/
theorem Sound.solved {m : Asrtm g I (State g P)} {evaluated : Store g}
    {stateId : I} (hsound : m.Sound)
    (hmeets : Undisturbed (store, m) (.usage .findBestConfiguration))
    (hevaluated : m.evaluated store = some evaluated)
    (hactive : m.agenda.active = some stateId) :
    ∃ problem next, m.agenda.problems stateId = some problem ∧
      m.findBestConfiguration store = some (evaluated, next) ∧
      (problem.wire m.runtimeInformation).Solved evaluated.runtimeInformation
        m.knowledge next.proposedBestConfiguration := by
  have hcurrent : m.currentOptimizer = some stateId := hactive
  obtain ⟨s, hfind, hs⟩ := hsound.exists_activeState hactive
  have hproblem : m.agenda.problems stateId = some s.problem.unwire := by
    simp only [agenda, hfind, Option.map_some]
  have hwired : s.problem.Wired m.runtimeInformation :=
    hsound.wired stateId s.problem (by simp [problems, hfind])
  obtain ⟨hpart, hcached⟩ := hsound.states stateId s hfind
  have hsettled := (hmeets s hs _ (Option.map_eq_some_iff.mpr
    ⟨evaluated, hevaluated, rfl⟩)).settled
  obtain ⟨next, hbest, hanswered⟩ :=
    State.getBestOperatingPoint_answered hpart hcached hsettled
  let solved : Asrtm g I (State g P) := { m with
    applicationOptimizers :=
      m.applicationOptimizers.modify stateId fun _ => next
    proposedBestConfiguration := next.bestOperatingPointFound }
  refine ⟨s.problem.unwire, solved, hproblem, ?_, ?_⟩
  · rw [findBestConfiguration_eq, hevaluated, Option.bind_some, hcurrent]
    simp only [hfind, Option.bind_some, hbest, Option.map_some, solved,
      hcurrent]
  · rw [hwired.wire_unwire]
    exact hanswered.solved

/-- Whatever a manager is asked to do, in any order: while its active state is
left undisturbed, every call of `find_best_configuration` that has a
configuration to compare the observations with ends, and proposes a solution of
the problem that the calls have stated for the active state. -/
theorem solved_of_run {pre : List (Action g I P)} {evaluated : Store g}
    {stateId : I}
    (hmeets : AllSteps step Undisturbed (store, new)
      (pre ++ [.usage .findBestConfiguration]))
    (hrun : runFrom step (store, new) pre = some before)
    (hactive : (stated pre).active = some stateId)
    (hevaluated : before.2.evaluated before.1 = some evaluated) :
    ∃ problem next, (stated pre).problems stateId = some problem ∧
      before.2.findBestConfiguration before.1 = some (evaluated, next) ∧
      (problem.wire before.2.runtimeInformation).Solved
        evaluated.runtimeInformation before.2.knowledge
        next.proposedBestConfiguration := by
  have hagenda : before.2.agenda = stated pre := agenda_run hrun
  have hsound : before.2.Sound :=
    runFrom_invariant sound_step sound_new
      (hmeets.restrict (List.prefix_append _ _)) hrun
  rw [← hagenda] at hactive ⊢
  obtain ⟨s, hfind, hs⟩ := hsound.exists_activeState hactive
  -- the call ends, so that its condition is one of those of the run
  obtain ⟨next, hfound⟩ := exists_findBestConfiguration hs
    (hsound.states stateId s hfind).partitioned hevaluated
  have hlast := hmeets pre (.usage .findBestConfiguration) before _
    List.prefix_rfl hrun hfound
  exact hsound.solved hlast hevaluated hactive

end Runs

section Limited

/-- Two Operating Points, of which the second one is above the limit. -/
def limiting : List (Action Geometry.single Nat Nat) :=
  [.usage (.addOperatingPoints [OperatingPoint.single 1 5,
      OperatingPoint.single 2 8]),
    .problem (.createNewState 0), .problem (.changeActiveState 0),
    .problem (.addConstraint OPField.single 0 (Goal.atMost 6) 1)]

def limited : Store Geometry.single ×
    Asrtm Geometry.single Nat (State Geometry.single Nat) :=
  (runFrom step (Store.initial, new) limiting).get (by decide +kernel)

theorem undisturbed_limiting : AllSteps step Undisturbed
    ((Store.initial, new) : Store Geometry.single ×
      Asrtm Geometry.single Nat (State Geometry.single Nat))
    (limiting ++ [.usage .findBestConfiguration]) := by
  refine .cons_of_step rfl nofun (.cons_of_step rfl (fun _ _ => nofun)
    (.cons_of_step rfl (fun _ _ => nofun) (.cons_of_step rfl ?_
      (.cons ?_ fun _ _ => allSteps_nil))))
  · intro s hs operation hoperation
    obtain rfl := Option.some.inj hs
    obtain rfl := Option.some.inj hoperation
    exact ⟨nofun, nofun, .inl rfl⟩
  · intro s hs operation hoperation
    obtain rfl := Option.some.inj hs
    obtain rfl := Option.some.inj hoperation
    exact ⟨trivial, trivial, .inl (by decide +kernel)⟩

theorem solved_of_run_limited :
    ∃ problem next, (stated limiting).problems 0 = some problem ∧
      limited.2.findBestConfiguration limited.1 = some (limited.1, next) ∧
      (problem.wire limited.2.runtimeInformation).Solved
        limited.1.runtimeInformation limited.2.knowledge
        next.proposedBestConfiguration := by
  have hrun : runFrom step (Store.initial, new) limiting = some limited :=
    (Option.some_get _).symm
  exact solved_of_run undisturbed_limiting hrun rfl rfl

end Limited

end Asrtm

end Margot
