/-
Goals and constraints.  A constraint blocks the Operating Points that reach it
and do not achieve its goal; its view keeps the whole knowledge in the order of
the constrained field, so that a change of the goal only looks at the slice
between the old and the new value.
-/
import Margot.Library.MultiMap
import Margot.Library.FilterChain
import Margot.Runtime.FieldAdaptor

namespace Margot

inductive ComparisonFunctions where
  | greater
  | greaterOrEqual
  | less
  | lessOrEqual
deriving Repr, DecidableEq

namespace ComparisonFunctions

/-- `helper::goal::compare`. -/
def compare : ComparisonFunctions → ℚ → ℚ → Bool
  | .greater, value, goal => goal < value
  | .greaterOrEqual, value, goal => goal ≤ value
  | .less, value, goal => value < goal
  | .lessOrEqual, value, goal => value ≤ goal

/-- `helper::constraint::get_bound`. -/
def getBound : ComparisonFunctions → BoundType
  | .greater => .lower
  | .greaterOrEqual => .lower
  | .less => .upper
  | .lessOrEqual => .upper

end ComparisonFunctions

/-- A goal shares its value with the copies that the user holds. -/
structure Goal where
  comparisonFunction : ComparisonFunctions
  goalValue : GoalRef
deriving Repr, DecidableEq

def Goal.atMost (goalValue : GoalRef) : Goal := ⟨.lessOrEqual, goalValue⟩

namespace Goal

def get (goal : Goal) (runtime : RuntimeInformation) : ℚ :=
  runtime.goalValue goal.goalValue

def check (goal : Goal) (value reference : ℚ) : Bool :=
  goal.comparisonFunction.compare value reference

end Goal

variable {g : Geometry}

/-- The evaluator of the view of a constraint. -/
def constraintField (targetField : OPField g) (sigma : Int) (targetGoal : Goal)
    (op : OperatingPointPtr g) : ℚ :=
  opUtilsGet targetGoal.comparisonFunction.getBound targetField sigma op

structure Constraint (g : Geometry) where
  targetField : OPField g
  sigma : Int
  targetGoal : Goal
  lastCheckValue : ℚ
  knowledgeView : MultiMap (constraintField targetField sigma targetGoal)
  blockedOps : UnorderedSet (OperatingPointPtr g)
  knowledgeAdaptor : Option AdaptorRef

namespace Constraint

/-- The constructor: nothing is blocked and no provider is known. -/
def new (targetField : OPField g) (sigma : Int) (targetGoal : Goal)
    (runtime : RuntimeInformation) : Constraint g where
  targetField := targetField
  sigma := sigma
  targetGoal := targetGoal
  lastCheckValue := targetGoal.get runtime
  knowledgeView := MultiMap.empty
  blockedOps := UnorderedSet.empty
  knowledgeAdaptor := none

def evaluateOp (c : Constraint g) (op : OperatingPointPtr g) : ℚ :=
  constraintField c.targetField c.sigma c.targetGoal op

/-- The check of an Operating Point against the last check value. -/
def achieves (c : Constraint g) (op : OperatingPointPtr g) : Bool :=
  c.targetGoal.check (c.evaluateOp op) c.lastCheckValue

def createSibling (c : Constraint g) (runtime : RuntimeInformation) :
    Constraint g :=
  Constraint.new c.targetField c.sigma c.targetGoal runtime

def add (c : Constraint g) (newOp : OperatingPointPtr g) : Constraint g :=
  { c with knowledgeView := c.knowledgeView.emplace newOp }

def remove (c : Constraint g) (op : OperatingPointPtr g) : Constraint g :=
  { c with
    knowledgeView := c.knowledgeView.erase op
    blockedOps := c.blockedOps.erase op }

def setFieldAdaptor (c : Constraint g) (information : KnowledgeAdaptor g) :
    Constraint g :=
  { c with knowledgeAdaptor := information.getFieldAdaptor c.targetField }

def clear (c : Constraint g) : Constraint g :=
  { c with blockedOps := UnorderedSet.empty }

/-- One step of the loop of `get_closest`: the closest Operating Points found
so far and their value. -/
def getClosestStep (c : Constraint g) (found : OPStream g × ℚ)
    (op : OperatingPointPtr g) : OPStream g × ℚ :=
  let opValue := c.evaluateOp op
  if opValue = found.2 then (found.1 ++ [op], found.2)
  else if c.targetGoal.check opValue found.2 then ([op], opValue)
  else found

/-- One step of the loop of `narrow`: the best Operating Points found so far,
their value and whether they achieve the goal. -/
def narrowStep (c : Constraint g) (found : OPStream g × ℚ × Bool)
    (op : OperatingPointPtr g) : OPStream g × ℚ × Bool :=
  let (bestOps, bestOpValue, bestOpIsValid) := found
  let opValue := c.evaluateOp op
  if c.achieves op then
    ((if bestOpIsValid then bestOps else []) ++ [op], bestOpValue, true)
  else if !bestOpIsValid && opValue = bestOpValue then
    (bestOps ++ [op], bestOpValue, bestOpIsValid)
  else if !bestOpIsValid && c.targetGoal.check opValue bestOpValue then
    ([op], opValue, bestOpIsValid)
  else found

def narrow (c : Constraint g) : OPStream g → OPStream g
  | [] => []
  | op :: rest =>
      (rest.foldl c.narrowStep ([op], c.evaluateOp op, c.achieves op)).1

/-- The loop of `filter_initialize`. -/
def filterInitialize (c : Constraint g) (input : OPStream g) :
    Constraint g × OPStream g :=
  let blocked := input.filter fun op => !c.achieves op
  ({ c with blockedOps := c.blockedOps.emplaceAll blocked }, blocked)

/-- The loop of `filter_add`. -/
def filterAdd (c : Constraint g) (input : OPStream g) :
    Constraint g × OPStream g :=
  ({ c with
      blockedOps := c.blockedOps.emplaceAll
        (input.filter fun op => !c.achieves op) },
    input.filter c.achieves)

/-- The loop of `filter_remove`. -/
def filterRemove (c : Constraint g) : OPStream g → Constraint g × OPStream g
  | [] => (c, [])
  | op :: rest =>
      if op ∈ c.blockedOps then
        { c with blockedOps := c.blockedOps.erase op }.filterRemove rest
      else
        let result := c.filterRemove rest
        (result.1, op :: result.2)

def removeBlockedOpsFrom (c : Constraint g) (input : OPStream g) :
    OPStream g :=
  input.filter fun op => op ∉ c.blockedOps

/-- The value that the goal and the provider ask for. -/
def finalGoalValue (c : Constraint g) (runtime : RuntimeInformation) : ℚ :=
  c.targetGoal.get runtime *
    (match c.knowledgeAdaptor with
      | none => 1
      | some ref => runtime.errorCoefficient ref)

/-- `View::range` between two check values, converted to the type of the
view. -/
def viewRange (c : Constraint g) (a b : ℚ) : OPStream g :=
  let first := c.targetField.valueType.staticCast a
  let last := c.targetField.valueType.staticCast b
  c.knowledgeView.range (min first last) (max first last)

/-- The loop of `update` when the goal gets easier: release the blocked
Operating Points of the slice that achieve the new value. -/
def release (c : Constraint g) (goalValue : ℚ) :
    OPStream g → Constraint g × OPStream g
  | [] => (c, [])
  | op :: rest =>
      if op ∈ c.blockedOps ∧
          c.targetGoal.check (c.evaluateOp op) goalValue = true then
        let result := { c with
          blockedOps := c.blockedOps.erase op }.release goalValue rest
        (result.1, op :: result.2)
      else c.release goalValue rest

/-- The constraint after the update, the invalidated Operating Points and the
validated ones. -/
def update (c : Constraint g) (runtime : RuntimeInformation) :
    Constraint g × OPStream g × OPStream g :=
  let finalValue := c.finalGoalValue runtime
  if finalValue = c.lastCheckValue then (c, [], [])
  else
    let diffStream := c.viewRange c.lastCheckValue finalValue
    if c.targetGoal.check finalValue c.lastCheckValue then
      ({ c with lastCheckValue := finalValue },
        diffStream.filter fun op =>
          !c.targetGoal.check (c.evaluateOp op) finalValue, [])
    else
      let released := c.release finalValue diffStream
      ({ released.1 with lastCheckValue := finalValue }, [], released.2)

section Iteration

variable [HashOrder (OperatingPointPtr g)]

def set (c : Constraint g) (applicationKnowledge : Knowledge g) :
    Constraint g :=
  { c with
    knowledgeView := MultiMap.empty.emplaceAll applicationKnowledge.toStream }

/-- The blocked Operating Points closest to the goal. -/
def getClosest (c : Constraint g) : OPStream g :=
  match c.blockedOps.iterate with
  | [] => []
  | op :: rest => (rest.foldl c.getClosestStep ([op], c.evaluateOp op)).1

/-- `to_stream`, and what `append_to` appends. -/
def toStream (c : Constraint g) : OPStream g := c.blockedOps.iterate

end Iteration

end Constraint

end Margot
