/-
The Application-Specific RunTime Manager: the application knowledge, the
providers of runtime information, and one optimization problem for each state,
of which one is active.  The shared objects live in a store that the methods
hand on; `none` is a failed assertion or the use of a null pointer.
-/
import Margot.Runtime.State

namespace Margot

inductive ApplicationStatus where
  | undefined
  | tuned
  | designSpaceExploration
  | withPrediction
deriving Repr, DecidableEq

/-- The status after an event that does not end the exploration. -/
def ApplicationStatus.unlessExploring (status next : ApplicationStatus) :
    ApplicationStatus :=
  if status ≠ .designSpaceExploration then next else .designSpaceExploration

/-- The manager, over the type of its states.  The iterator to the active state
is the identifier it points to, `none` when it is the end of the table. -/
structure Asrtm (g : Geometry) (I S : Type) where
  knowledge : Knowledge g
  runtimeInformation : KnowledgeAdaptor g
  monitorHandlers : List MonitorRef
  applicationOptimizers : UnorderedMap I S
  currentOptimizer : Option I
  applicationConfiguration : Option (OperatingPointPtr g)
  proposedBestConfiguration : Option (OperatingPointPtr g)
  status : ApplicationStatus

instance : HashOrder Nat := HashOrder.stored Nat

variable {g : Geometry} {I P S : Type}

/-- The loop of the copy constructor that walks the copied table in step with
the original until the original is at its active state. -/
def walkTo [DecidableEq I] (current : Option I) : List I → List I → Option I
  | [], copied => copied.head?
  | stateId :: rest, copied =>
      if current = some stateId then copied.head?
      else walkTo current rest copied.tail

namespace Asrtm

def new : Asrtm g I S where
  knowledge := Knowledge.clear
  runtimeInformation := KnowledgeAdaptor.new
  monitorHandlers := []
  applicationOptimizers := UnorderedMap.empty
  currentOptimizer := none
  applicationConfiguration := none
  proposedBestConfiguration := none
  status := .undefined

/-- The identifiers of the states in the order of an iteration over them. -/
def visitStates [HashOrder I] (m : Asrtm g I S) : List I :=
  m.applicationOptimizers.visitKeys

theorem mem_visitStates [DecidableEq I] [HashOrder I] {m : Asrtm g I S}
    {stateId : I} :
    stateId ∈ m.visitStates ↔
      ∃ s, m.applicationOptimizers.find? stateId = some s := by
  rw [visitStates, UnorderedMap.mem_visitKeys, UnorderedMap.mem_keys_find?]

/-- The copy constructor, and with it the move constructor, which copies the
content of the other manager as well. -/
def copy [DecidableEq I] [HashOrder I] (other : Asrtm g I S) : Asrtm g I S :=
  let optimizers := other.applicationOptimizers.copy
  { other with
    applicationOptimizers := optimizers
    currentOptimizer := walkTo other.currentOptimizer other.visitStates
      optimizers.visitKeys }

/-- A method that is applied to all the states. -/
def onStates (m : Asrtm g I S) (change : S → S) : Asrtm g I S :=
  { m with applicationOptimizers := m.applicationOptimizers.map change }

/-- A method that is forwarded to the active state, which it asserts. -/
def onActiveState [DecidableEq I] (m : Asrtm g I S) (change : S → S) :
    Option (Asrtm g I S) :=
  m.currentOptimizer.map fun stateId =>
    { m with
      applicationOptimizers := m.applicationOptimizers.modify stateId change }

/-- `which_active_state`. -/
def whichActiveState (m : Asrtm g I S) : Option I := m.currentOptimizer

def activeState [DecidableEq I] (m : Asrtm g I S) : Option S :=
  m.currentOptimizer.bind m.applicationOptimizers.find?

def isApplicationKnowledgeEmpty (m : Asrtm g I S) : Bool := m.knowledge.empty

/-- `find` on the table of the states. -/
def findState [DecidableEq I] (m : Asrtm g I S) (stateId : I) : Option I :=
  if (m.applicationOptimizers.find? stateId).isSome then some stateId else none

def removeState [DecidableEq I] (m : Asrtm g I S) (stateId : I) :
    Option (Asrtm g I S) :=
  if m.findState stateId = m.currentOptimizer then none
  else
    some { m with
      applicationOptimizers := m.applicationOptimizers.erase stateId }

def changeActiveState [DecidableEq I] (m : Asrtm g I S) (stateId : I) :
    Option (Asrtm g I S) :=
  (m.findState stateId).map fun found => { m with currentOptimizer := some found }

/-- The configuration, whether it changed, and the manager. -/
def getBestConfiguration (m : Asrtm g I S) :
    Option (Vector ℚ g.numberOfSoftwareKnobs × Bool × Asrtm g I S) :=
  m.proposedBestConfiguration.map fun proposed =>
    if some proposed ≠ m.applicationConfiguration then
      (proposed.getKnobs, true,
        { m with status := m.status.unlessExploring .undefined })
    else (proposed.getKnobs, false, m)

def configurationApplied (m : Asrtm g I S) (store : Store g) :
    Store g × Asrtm g I S :=
  let cleared :=
    if m.applicationConfiguration ≠ m.proposedBestConfiguration ∧
        m.status ≠ .designSpaceExploration then
      m.monitorHandlers.foldl Store.clearMonitor store
    else store
  (cleared, { m with
    applicationConfiguration := m.proposedBestConfiguration
    status := m.status.unlessExploring .tuned })

def restoreFromDataFeatureSwitch (m : Asrtm g I S) : Asrtm g I S :=
  { m with
    status := m.status.unlessExploring .undefined
    applicationConfiguration := none }

/-- The error of the configuration in use.  A null configuration is only read
when the observation of some monitor is valid. -/
def evaluateError (m : Asrtm g I S) (store : Store g) : Option (Store g) :=
  match m.applicationConfiguration with
  | some currentOp => some (store.evaluateError m.runtimeInformation
      store.observed currentOp)
  | none =>
      if m.runtimeInformation.registered.all fun ref =>
          (store.observed (store.adaptor ref).monitor).isNone then
        some store
      else none

section States

variable [DecidableEq I] [LinearOrder P]

def addOperatingPoints (m : Asrtm g I (State g P)) (store : Store g)
    (opList : List (OperatingPoint g)) : Store g × Asrtm g I (State g P) :=
  let allocated := store.allocateOps opList
  let added := m.knowledge.addAll allocated.2
  (allocated.1, { m.onStates fun s => s.addOperatingPoints added.2 with
    knowledge := added.1 })

/-- `add_operating_points` of pointers to Operating Points. -/
def addOperatingPointPtrs (m : Asrtm g I (State g P)) (opList : OPStream g) :
    Asrtm g I (State g P) :=
  let added := m.knowledge.addAll opList
  { m.onStates fun s => s.addOperatingPoints added.2 with
    knowledge := added.1 }

def removeOperatingPoints (m : Asrtm g I (State g P))
    (configurationList : List (Vector ℚ g.numberOfSoftwareKnobs)) :
    Asrtm g I (State g P) :=
  let removed := m.knowledge.removeAll configurationList
  { m.onStates fun s => s.removeOperatingPoints removed.2 with
    knowledge := removed.1 }

def addRuntimeKnowledge (m : Asrtm g I (State g P)) (store : Store g)
    (targetField : OPField g) (inertia : {n : Nat // 0 < n})
    (monitor : MonitorRef) : Store g × Asrtm g I (State g P) :=
  let allocated := store.allocateAdaptor
    (OneSigmaAdaptor.new targetField inertia.1 inertia.2 monitor)
  let information := m.runtimeInformation.emplace targetField allocated.2
  (allocated.1, { m.onStates fun s => s.setKnowledgeAdaptor information with
    runtimeInformation := information
    monitorHandlers := m.monitorHandlers ++ [monitor] })

section Solve

variable [HashOrder (OperatingPointPtr g)]

def createNewState (m : Asrtm g I (State g P)) (newStateId : I) :
    Asrtm g I (State g P) :=
  if (m.applicationOptimizers.find? newStateId).isSome then m
  else
    let created := (State.new.setKnowledgeBase m.knowledge).setKnowledgeAdaptor
      m.runtimeInformation
    { m with
      applicationOptimizers :=
        m.applicationOptimizers.emplace newStateId created }

def findBestConfiguration (m : Asrtm g I (State g P)) (store : Store g) :
    Option (Store g × Asrtm g I (State g P)) :=
  (if m.status = .tuned then m.evaluateError store else some store).bind
    fun store =>
      match m.currentOptimizer with
      | none => some (store, m)
      | some stateId =>
          ((m.applicationOptimizers.find? stateId).bind fun s =>
            s.getBestOperatingPoint store.runtimeInformation).map fun found =>
              (store, { m with
                applicationOptimizers :=
                  m.applicationOptimizers.modify stateId fun _ => found.1
                proposedBestConfiguration := found.2 })

def addConstraint (m : Asrtm g I (State g P)) (store : Store g)
    (targetField : OPField g) (sigma : Int) (goalValue : Goal) (priority : P) :
    Option (Asrtm g I (State g P)) :=
  m.onActiveState fun s => s.addConstraint m.knowledge m.runtimeInformation
    store.runtimeInformation targetField sigma goalValue priority

def removeConstraint (m : Asrtm g I (State g P)) (priority : P) :
    Option (Asrtm g I (State g P)) :=
  m.onActiveState fun s => s.removeConstraint priority

def setRank (m : Asrtm g I (State g P)) (objective : RankObjective)
    (evaluate : OperatingPointPtr g → ℚ) : Option (Asrtm g I (State g P)) :=
  m.onActiveState fun s => s.setRank objective evaluate

/-- The part that `set_single_point` and `set_model` have in common. -/
def setKnowledgeBase (m : Asrtm g I (State g P)) (store : Store g)
    (ops : List (OperatingPoint g)) : Store g × Asrtm g I (State g P) :=
  let allocated := store.allocateOps ops
  let knowledge := (Knowledge.clear.addAll allocated.2).1
  (allocated.1, { m.onStates fun s => s.setKnowledgeBase knowledge with
    knowledge := knowledge
    proposedBestConfiguration := none })

def setSinglePoint (m : Asrtm g I (State g P)) (store : Store g)
    (point : OperatingPoint g) : Store g × Asrtm g I (State g P) :=
  let replaced := m.setKnowledgeBase store [point]
  (replaced.1, { replaced.2 with status := .designSpaceExploration })

def setModel (m : Asrtm g I (State g P)) (store : Store g)
    (model : List (OperatingPoint g)) : Store g × Asrtm g I (State g P) :=
  let replaced := m.setKnowledgeBase store model
  (replaced.1.resetAdaptors m.runtimeInformation,
    { replaced.2 with status := .withPrediction })

end Solve

/-- One iteration of the loop of `create_sibling`.  The comparison that looks
for the active state compares the identifier with the one that was just
inserted, so it always succeeds. -/
def replicateState (m : Asrtm g I (State g P)) (runtime : RuntimeInformation)
    (cloned : Asrtm g I (State g P)) (stateId : I) : Asrtm g I (State g P) :=
  match m.applicationOptimizers.find? stateId with
  | none => cloned
  | some s =>
      { cloned with
        applicationOptimizers := cloned.applicationOptimizers.emplace stateId
          (s.createSibling runtime)
        currentOptimizer := some stateId }

def createSibling [HashOrder I] (m : Asrtm g I (State g P)) (store : Store g) :
    Store g × Asrtm g I (State g P) :=
  let replicated := m.visitStates.foldl
    (m.replicateState store.runtimeInformation) new
  (store.resetAdaptors m.runtimeInformation, { replicated with
    runtimeInformation := m.runtimeInformation
    monitorHandlers := m.monitorHandlers })

end States

/-- The methods that state the optimization problems.  `remove_all_runtime_knowledge`
calls `set_knowledge_adaptor` without its argument, so that it has no instance. -/
inductive ProblemCall (g : Geometry) (I P : Type) where
  | createNewState (newStateId : I)
  | removeState (stateId : I)
  | changeActiveState (stateId : I)
  | addRuntimeKnowledge (targetField : OPField g)
      (inertia : {n : Nat // 0 < n}) (monitor : MonitorRef)
  | addConstraint (targetField : OPField g) (sigma : Int) (goalValue : Goal)
      (priority : P)
  | removeConstraint (priority : P)
  | setRank (objective : RankObjective) (evaluate : OperatingPointPtr g → ℚ)

/-- The methods that use the knowledge and select a configuration. -/
inductive UsageCall (g : Geometry) where
  | addOperatingPoints (opList : List (OperatingPoint g))
  | removeOperatingPoints
      (configurationList : List (Vector ℚ g.numberOfSoftwareKnobs))
  | findBestConfiguration
  | getBestConfiguration
  | configurationApplied

/-- What happens to a manager: calls of its methods, and changes of the goals
and of the monitors that the application holds. -/
inductive Action (g : Geometry) (I P : Type) where
  | problem (call : ProblemCall g I P)
  | usage (call : UsageCall g)
  | setSinglePoint (point : OperatingPoint g)
  | setModel (model : List (OperatingPoint g))
  | restoreFromDataFeatureSwitch
  | changeGoals (goalValue : GoalRef → ℚ)
  | observe (monitor : MonitorRef → CircularBuffer ℚ)

section Step

variable [DecidableEq I] [LinearOrder P] [HashOrder (OperatingPointPtr g)]

def runProblem (m : Asrtm g I (State g P)) (store : Store g) :
    ProblemCall g I P → Option (Store g × Asrtm g I (State g P))
  | .createNewState newStateId => some (store, m.createNewState newStateId)
  | .removeState stateId => (m.removeState stateId).map fun m => (store, m)
  | .changeActiveState stateId =>
      (m.changeActiveState stateId).map fun m => (store, m)
  | .addRuntimeKnowledge targetField inertia monitor =>
      some (m.addRuntimeKnowledge store targetField inertia monitor)
  | .addConstraint targetField sigma goalValue priority =>
      (m.addConstraint store targetField sigma goalValue priority).map
        fun m => (store, m)
  | .removeConstraint priority =>
      (m.removeConstraint priority).map fun m => (store, m)
  | .setRank objective evaluate =>
      (m.setRank objective evaluate).map fun m => (store, m)

def runUsage (m : Asrtm g I (State g P)) (store : Store g) :
    UsageCall g → Option (Store g × Asrtm g I (State g P))
  | .addOperatingPoints opList => some (m.addOperatingPoints store opList)
  | .removeOperatingPoints configurationList =>
      some (store, m.removeOperatingPoints configurationList)
  | .findBestConfiguration => m.findBestConfiguration store
  | .getBestConfiguration =>
      m.getBestConfiguration.map fun found => (store, found.2.2)
  | .configurationApplied => some (m.configurationApplied store)

def step (world : Store g × Asrtm g I (State g P)) :
    Action g I P → Option (Store g × Asrtm g I (State g P))
  | .problem call => world.2.runProblem world.1 call
  | .usage call => world.2.runUsage world.1 call
  | .setSinglePoint point => some (world.2.setSinglePoint world.1 point)
  | .setModel model => some (world.2.setModel world.1 model)
  | .restoreFromDataFeatureSwitch =>
      some (world.1, world.2.restoreFromDataFeatureSwitch)
  | .changeGoals goalValue =>
      some ({ world.1 with goalValue := goalValue }, world.2)
  | .observe monitor => some ({ world.1 with monitor := monitor }, world.2)

end Step

end Asrtm

end Margot
