/-
The constrained optimization problem.  A state keeps the constraints in
priority order (the smallest key is the most important one), each with the
Operating Points it blocks, and a rank with the Operating Points that achieve
every constraint.
-/
import Margot.Library.OrderedMap
import Margot.Library.Runs
import Margot.Runtime.Constraint

namespace Margot

inductive RankObjective where
  | maximize
  | minimize
deriving Repr, DecidableEq

/-- `rank_compare::best`. -/
def RankObjective.best : RankObjective → ℚ → ℚ → Bool
  | .maximize, lhs, rhs => rhs < lhs
  | .minimize, lhs, rhs => lhs < rhs

variable {g : Geometry} {P : Type}

/-- The objective function.  As in the source, the composed fields and their
coefficients are only kept inside the evaluating function. -/
structure Rank (g : Geometry) where
  objective : RankObjective
  evaluate : OperatingPointPtr g → ℚ
  sortedKnowledge : MultiMap evaluate

namespace Rank

def new (objective : RankObjective) (evaluate : OperatingPointPtr g → ℚ) :
    Rank g :=
  ⟨objective, evaluate, MultiMap.empty⟩

def createSibling (rank : Rank g) : Rank g := new rank.objective rank.evaluate

def add (rank : Rank g) (newOps : OPStream g) : Rank g :=
  { rank with sortedKnowledge := rank.sortedKnowledge.emplaceAll newOps }

def remove (rank : Rank g) (ops : OPStream g) : Rank g :=
  { rank with sortedKnowledge := rank.sortedKnowledge.eraseAll ops }

def clear (rank : Rank g) : Rank g := new rank.objective rank.evaluate

def toStream (rank : Rank g) : OPStream g := rank.sortedKnowledge.elems

def best (rank : Rank g) : Option (OperatingPointPtr g) :=
  match rank.objective with
  | .minimize => rank.sortedKnowledge.front?
  | .maximize => rank.sortedKnowledge.back?

/-- One step of `std::min_element` with the comparator of the rank. -/
def betterOf (rank : Rank g) (smallest op : OperatingPointPtr g) :
    OperatingPointPtr g :=
  if rank.objective.best (rank.evaluate op) (rank.evaluate smallest) then op
  else smallest

/-- `Rank::best` of a stream; the source asserts that it is not empty. -/
def bestOf (rank : Rank g) : OPStream g → Option (OperatingPointPtr g)
  | [] => none
  | op :: rest => some (rest.foldl rank.betterOf op)

end Rank

structure State (g : Geometry) (P : Type) [LinearOrder P] where
  constraints : OrderedMap P (Constraint g)
  rank : Rank g
  problemIsChanged : Bool
  bestOperatingPointFound : Option (OperatingPointPtr g)

variable [LinearOrder P]

namespace State

/-- The field of the default objective function, the first software knob. -/
def dummyField (g : Geometry) : OPField g :=
  .softwareKnobs ⟨0, g.softwareKnobs_pos⟩

def new : State g P where
  constraints := OrderedMap.empty
  rank := Rank.new .minimize (opUtilsGet .lower (dummyField g) 0)
  problemIsChanged := true
  bestOperatingPointFound := none

def createSibling (s : State g P) (runtime : RuntimeInformation) :
    State g P :=
  { (new : State g P) with
    constraints := s.constraints.mapValues fun c => c.createSibling runtime
    rank := s.rank.createSibling }

/-- One iteration of a loop that calls `filter_remove` on the constraint with
the given priority. -/
def filterRemoveAt (priority : P)
    (found : OrderedMap P (Constraint g) × OPStream g) :
    OrderedMap P (Constraint g) × OPStream g :=
  match found.1.find? priority with
  | none => found
  | some c =>
      let result := c.filterRemove found.2
      (found.1.insert priority result.1, result.2)

/-- The last loop of `add_constraint`.  It runs once for every lower
constraint, but every iteration calls the first of them. -/
def removeFromLower (constraints : OrderedMap P (Constraint g))
    (lower : List (P × Constraint g)) (filteredOps : OPStream g) :
    OrderedMap P (Constraint g) × OPStream g :=
  match lower with
  | [] => (constraints, filteredOps)
  | first :: _ =>
      lower.foldl (fun found _ => filterRemoveAt first.1 found)
        (constraints, filteredOps)

def removeConstraint [HashOrder (OperatingPointPtr g)] (s : State g P)
    (priority : P) : State g P :=
  match s.constraints.find? priority with
  | none => s
  | some c =>
      let availableOps := c.toStream
      let released :=
        if availableOps.isEmpty then s
        else
          let cascade := s.constraints.accumulate (priority < ·)
            Constraint.filterAdd availableOps
          { s with
            constraints := cascade.1
            rank := s.rank.add cascade.2
            problemIsChanged := true }
      { released with constraints := released.constraints.erase priority }

def setRank (s : State g P) (objective : RankObjective)
    (evaluate : OperatingPointPtr g → ℚ) : State g P :=
  let validOps := s.rank.toStream
  let rank := Rank.new objective evaluate
  if validOps.isEmpty then { s with rank := rank }
  else { s with rank := rank.add validOps, problemIsChanged := true }

def addOperatingPoints (s : State g P) (newOps : OPStream g) : State g P :=
  let viewed := s.constraints.mapValues fun c => newOps.foldl Constraint.add c
  let cascade := viewed.accumulate (fun _ => true) Constraint.filterAdd newOps
  { s with
    constraints := cascade.1
    rank := s.rank.add cascade.2
    problemIsChanged := true }

def removeOperatingPoints (s : State g P) (ops : OPStream g) : State g P :=
  { s with
    constraints := s.constraints.mapValues fun c =>
      ops.foldl Constraint.remove c
    rank := s.rank.remove ops
    problemIsChanged := true }

def setKnowledgeBase [HashOrder (OperatingPointPtr g)] (s : State g P)
    (kb : Knowledge g) : State g P :=
  let cleared := s.constraints.mapValues fun c => (c.set kb).clear
  let cascade := cleared.accumulate (fun _ => true) Constraint.filterAdd
    kb.toStream
  { s with
    constraints := cascade.1
    rank := s.rank.clear.add cascade.2
    problemIsChanged := true }

def setKnowledgeAdaptor (s : State g P) (information : KnowledgeAdaptor g) :
    State g P :=
  { s with
    constraints := s.constraints.mapValues fun c =>
      c.setFieldAdaptor information
    problemIsChanged := true }

section AddConstraint

variable [HashOrder (OperatingPointPtr g)]

/-- The Operating Points that a new constraint gets to see: the valid ones and
those blocked from its priority on. -/
def availableFor (s : State g P) (priority : P) : OPStream g :=
  s.rank.toStream ++
    (s.constraints.lowerBound priority).flatMap fun entry => entry.2.toStream

/-- The constraint that `add_constraint` builds, before it blocks anything. -/
def newConstraint (kb : Knowledge g) (information : KnowledgeAdaptor g)
    (runtime : RuntimeInformation) (targetField : OPField g) (sigma : Int)
    (goalValue : Goal) : Constraint g :=
  ((Constraint.new targetField sigma goalValue runtime).set kb).setFieldAdaptor
    information

/-- `add_constraint` from the construction of the new constraint on. -/
def insertConstraint (s : State g P) (newConstraint : Constraint g)
    (priority : P) : State g P :=
  let filtered := newConstraint.filterInitialize (s.availableFor priority)
  let constraints := s.constraints.insert priority filtered.1
  if filtered.2.isEmpty then { s with constraints := constraints }
  else
    let removed := removeFromLower constraints
      (constraints.upperBound priority) filtered.2
    { s with
      constraints := removed.1
      rank := s.rank.remove removed.2
      problemIsChanged := true }

def addConstraint (s : State g P) (kb : Knowledge g)
    (information : KnowledgeAdaptor g) (runtime : RuntimeInformation)
    (targetField : OPField g) (sigma : Int) (goalValue : Goal) (priority : P) :
    State g P :=
  s.insertConstraint
    (newConstraint kb information runtime targetField sigma goalValue) priority

end AddConstraint

/-- The first half of an iteration of `update`: block what became invalid and
is not blocked by a higher constraint.  `none` is the failed assertion that
the constraint blocks all of it. -/
def invalidate (s : State g P) (priority : P) (opsToBeRemoved : OPStream g) :
    Option (State g P) :=
  let pruned := (s.constraints.before priority).foldl
    (fun ops entry => entry.2.removeBlockedOpsFrom ops) opsToBeRemoved
  if pruned.isEmpty then some s
  else
    match s.constraints.find? priority with
    | none => some s
    | some c =>
        let blocked := c.filterAdd pruned
        if blocked.2.isEmpty then
          let removed := (s.constraints.insert priority blocked.1).accumulate
            (priority < ·) Constraint.filterRemove pruned
          some { s with
            constraints := removed.1
            rank := s.rank.remove removed.2
            problemIsChanged := true }
        else none

/-- The second half: hand what became valid to the lower constraints and to
the rank. -/
def validate (s : State g P) (priority : P) (opsToBeAdded : OPStream g) :
    State g P :=
  if opsToBeAdded.isEmpty then s
  else
    let cascade := s.constraints.accumulate (priority < ·)
      Constraint.filterAdd opsToBeAdded
    { s with
      constraints := cascade.1
      rank := s.rank.add cascade.2
      problemIsChanged := true }

/-- The iteration of `update` on the constraint with the given priority. -/
def updateStep (runtime : RuntimeInformation) (s : State g P) (priority : P) :
    Option (State g P) :=
  match s.constraints.find? priority with
  | none => some s
  | some c =>
      let updated := c.update runtime
      let stored := { s with
        constraints := s.constraints.insert priority updated.1 }
      (stored.invalidate priority updated.2.1).map fun invalidated =>
        invalidated.validate priority updated.2.2

/-- `none` when an assertion of the loop fails. -/
def update (s : State g P) (runtime : RuntimeInformation) :
    Option (State g P) :=
  runFrom (updateStep runtime) s s.constraints.keys

/-- The loop of `get_best_from_stream` over the lower constraints. -/
def narrowDown (rank : Rank g) : OPStream g → List (P × Constraint g) →
    Option (OperatingPointPtr g)
  | inputOps, [] => rank.bestOf inputOps
  | inputOps, entry :: lower =>
      match entry.2.narrow inputOps with
      | [op] => some op
      | narrowed => narrowDown rank narrowed lower

def getBestFromStream (rank : Rank g) (inputOps : OPStream g)
    (lower : List (P × Constraint g)) : Option (OperatingPointPtr g) :=
  match inputOps with
  | [op] => some op
  | _ => narrowDown rank inputOps lower

section Solve

variable [HashOrder (OperatingPointPtr g)]

/-- The walk from the last constraint up to the first one; `lower` are the
constraints already passed. -/
def relaxConstraints (rank : Rank g) :
    List (P × Constraint g) → List (P × Constraint g) →
      Option (OperatingPointPtr g)
  | [], _ => none
  | entry :: higher, lower =>
      match entry.2.getClosest with
      | [] => relaxConstraints rank higher (entry :: lower)
      | bestOps => getBestFromStream rank bestOps lower

/-- The solution of the problem as it is stored. -/
def solve (s : State g P) : Option (OperatingPointPtr g) :=
  match s.rank.best with
  | some bestOp => some bestOp
  | none => relaxConstraints s.rank s.constraints.entries.reverse []

def getBestOperatingPoint (s : State g P) (runtime : RuntimeInformation) :
    Option (State g P × Option (OperatingPointPtr g)) :=
  (s.update runtime).map fun s =>
    if s.problemIsChanged then
      ({ s with
        problemIsChanged := false
        bestOperatingPointFound := s.solve }, s.solve)
    else (s, s.bestOperatingPointFound)

end Solve

end State

end Margot
