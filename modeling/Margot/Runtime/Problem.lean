/-
The optimization problem that a state states: its constraints and its
objective function, without the Operating Points.  The methods of a state act
on it as the methods of an abstract problem, and those that only move Operating
Points leave it as it is.
-/
import Margot.Runtime.State

namespace Margot

variable {g : Geometry} {P : Type}

/-- What a constraint asks for, and the provider that corrects its goal. -/
structure Requirement (g : Geometry) where
  targetField : OPField g
  sigma : Int
  targetGoal : Goal
  knowledgeAdaptor : Option AdaptorRef
deriving DecidableEq

namespace Requirement

def wire (information : KnowledgeAdaptor g) (r : Requirement g) :
    Requirement g :=
  { r with knowledgeAdaptor := information.getFieldAdaptor r.targetField }

def unwire (r : Requirement g) : Requirement g :=
  { r with knowledgeAdaptor := none }

@[simp] theorem unwire_wire (information : KnowledgeAdaptor g)
    (r : Requirement g) : (r.wire information).unwire = r.unwire :=
  rfl

end Requirement

structure Problem (g : Geometry) (P : Type) [LinearOrder P] where
  constraints : OrderedMap P (Requirement g)
  objective : RankObjective
  evaluate : OperatingPointPtr g → ℚ

variable [LinearOrder P]

namespace Problem

def addConstraint (problem : Problem g P) (requirement : Requirement g)
    (priority : P) : Problem g P :=
  { problem with
    constraints := problem.constraints.insert priority requirement }

def removeConstraint (problem : Problem g P) (priority : P) : Problem g P :=
  { problem with constraints := problem.constraints.erase priority }

def setRank (problem : Problem g P) (objective : RankObjective)
    (evaluate : OperatingPointPtr g → ℚ) : Problem g P :=
  { problem with objective := objective, evaluate := evaluate }

/-- Every goal is corrected by the provider of its field. -/
def wire (information : KnowledgeAdaptor g) (problem : Problem g P) :
    Problem g P :=
  { problem with
    constraints := problem.constraints.mapValues (Requirement.wire information) }

/-- The problem without its providers. -/
def unwire (problem : Problem g P) : Problem g P :=
  { problem with
    constraints := problem.constraints.mapValues Requirement.unwire }

/-- Every goal is corrected by the registered provider of its field. -/
def Wired (problem : Problem g P) (information : KnowledgeAdaptor g) : Prop :=
  ∀ entry ∈ problem.constraints.entries,
    entry.2.knowledgeAdaptor = information.getFieldAdaptor entry.2.targetField

@[simp] theorem unwire_wire (information : KnowledgeAdaptor g)
    (problem : Problem g P) :
    (problem.wire information).unwire = problem.unwire := by
  simp [wire, unwire, OrderedMap.mapValues_mapValues]

@[simp] theorem unwire_addConstraint (problem : Problem g P)
    (requirement : Requirement g) (priority : P) :
    (problem.addConstraint requirement priority).unwire =
      problem.unwire.addConstraint requirement.unwire priority := by
  simp [addConstraint, unwire]

@[simp] theorem unwire_removeConstraint (problem : Problem g P)
    (priority : P) :
    (problem.removeConstraint priority).unwire =
      problem.unwire.removeConstraint priority := by
  simp [removeConstraint, unwire]

@[simp] theorem unwire_unwire (problem : Problem g P) :
    problem.unwire.unwire = problem.unwire := by
  simp only [unwire, OrderedMap.mapValues_mapValues]
  rfl

theorem wired_wire (information : KnowledgeAdaptor g) (problem : Problem g P) :
    (problem.wire information).Wired information := by
  intro entry hentry
  obtain ⟨stored, -, rfl⟩ := List.mem_map.mp hentry
  rfl

theorem Wired.addConstraint {problem : Problem g P}
    {information : KnowledgeAdaptor g} (hwired : problem.Wired information)
    (requirement : Requirement g) (priority : P) :
    (problem.addConstraint (requirement.wire information) priority).Wired
      information := by
  intro entry hentry
  rcases List.mem_append.mp hentry with hbefore | hrest
  · exact hwired entry (List.mem_filter.mp hbefore).1
  · rcases List.mem_cons.mp hrest with rfl | hafter
    · rfl
    · exact hwired entry (List.mem_filter.mp hafter).1

theorem Wired.removeConstraint {problem : Problem g P}
    {information : KnowledgeAdaptor g} (hwired : problem.Wired information)
    (priority : P) :
    (problem.removeConstraint priority).Wired information :=
  fun entry hentry => hwired entry (List.mem_filter.mp hentry).1

/-- Without any provider, a goal must be that of a field without provider. -/
theorem wired_unwire_iff {problem : Problem g P}
    {information : KnowledgeAdaptor g} :
    problem.unwire.Wired information ↔
      ∀ entry ∈ problem.constraints.entries,
        information.getFieldAdaptor entry.2.targetField = none := by
  simp only [Wired, unwire, OrderedMap.entries_mapValues, List.forall_mem_map]
  exact forall₂_congr fun entry _ => eq_comm

end Problem

/-- What the constraint asks for. -/
def Constraint.requirement (c : Constraint g) : Requirement g where
  targetField := c.targetField
  sigma := c.sigma
  targetGoal := c.targetGoal
  knowledgeAdaptor := c.knowledgeAdaptor

namespace Constraint

variable (c : Constraint g)

@[simp] theorem requirement_filterAdd (input : OPStream g) :
    (c.filterAdd input).1.requirement = c.requirement :=
  rfl

@[simp] theorem requirement_filterRemove (input : OPStream g) :
    (c.filterRemove input).1.requirement = c.requirement := by
  induction input generalizing c with
  | nil => rfl
  | cons op rest ih =>
      rw [filterRemove]
      split
      · exact ih _
      · exact ih c

@[simp] theorem requirement_release (goalValue : ℚ) (ops : OPStream g) :
    (c.release goalValue ops).1.requirement = c.requirement := by
  induction ops generalizing c with
  | nil => rfl
  | cons op rest ih =>
      rw [release]
      split
      · exact ih _
      · exact ih c

@[simp] theorem requirement_update (runtime : RuntimeInformation) :
    (c.update runtime).1.requirement = c.requirement := by
  rw [update]
  split
  · rfl
  · split
    · rfl
    · exact requirement_release c _ _

theorem requirement_foldl
    (change : Constraint g → OperatingPointPtr g → Constraint g)
    (hchange : ∀ c op, (change c op).requirement = c.requirement)
    (ops : OPStream g) :
    (ops.foldl change c).requirement = c.requirement := by
  induction ops generalizing c with
  | nil => rfl
  | cons op rest ih => exact (ih (change c op)).trans (hchange c op)

end Constraint

namespace State

/-- The problem that the state states. -/
def problem (s : State g P) : Problem g P where
  constraints := s.constraints.mapValues Constraint.requirement
  objective := s.rank.objective
  evaluate := s.rank.evaluate

theorem problem_eq {s other : State g P}
    (hconstraints : s.constraints.mapValues Constraint.requirement =
      other.constraints.mapValues Constraint.requirement)
    (hobjective : s.rank.objective = other.rank.objective)
    (hevaluate : s.rank.evaluate = other.rank.evaluate) :
    s.problem = other.problem := by
  rw [problem, problem, hconstraints, hobjective, hevaluate]

@[simp] theorem problem_createSibling (s : State g P)
    (runtime : RuntimeInformation) :
    (s.createSibling runtime).problem = s.problem.unwire := by
  simp only [problem, Problem.unwire, createSibling,
    OrderedMap.mapValues_mapValues]
  rfl

@[simp] theorem problem_addOperatingPoints (s : State g P)
    (newOps : OPStream g) :
    (s.addOperatingPoints newOps).problem = s.problem := by
  refine problem_eq ?_ rfl rfl
  refine (OrderedMap.mapValues_accumulate _
    (fun c acc => Constraint.requirement_filterAdd c acc) _ _).trans ?_
  rw [OrderedMap.mapValues_mapValues]
  exact OrderedMap.mapValues_congr _ fun c =>
    Constraint.requirement_foldl c Constraint.add (fun _ _ => rfl) newOps

@[simp] theorem problem_removeOperatingPoints (s : State g P)
    (ops : OPStream g) :
    (s.removeOperatingPoints ops).problem = s.problem := by
  refine problem_eq ?_ rfl rfl
  refine (OrderedMap.mapValues_mapValues _ _ _).trans ?_
  exact OrderedMap.mapValues_congr _ fun c =>
    Constraint.requirement_foldl c Constraint.remove (fun _ _ => rfl) ops

@[simp] theorem problem_setKnowledgeAdaptor (s : State g P)
    (information : KnowledgeAdaptor g) :
    (s.setKnowledgeAdaptor information).problem =
      s.problem.wire information := by
  simp only [problem, Problem.wire, setKnowledgeAdaptor,
    OrderedMap.mapValues_mapValues]
  rfl

@[simp] theorem problem_setRank (s : State g P) (objective : RankObjective)
    (evaluate : OperatingPointPtr g → ℚ) :
    (s.setRank objective evaluate).problem =
      s.problem.setRank objective evaluate := by
  rw [setRank]
  split <;> rfl

section Iteration

variable [HashOrder (OperatingPointPtr g)]

@[simp] theorem problem_setKnowledgeBase (s : State g P) (kb : Knowledge g) :
    (s.setKnowledgeBase kb).problem = s.problem := by
  refine problem_eq ?_ rfl rfl
  refine (OrderedMap.mapValues_accumulate _
    (fun c acc => Constraint.requirement_filterAdd c acc) _ _).trans ?_
  exact OrderedMap.mapValues_mapValues _ _ _

@[simp] theorem problem_removeConstraint (s : State g P) (priority : P) :
    (s.removeConstraint priority).problem =
      s.problem.removeConstraint priority := by
  rw [removeConstraint]
  split
  · next hfind =>
      have herase : s.constraints.erase priority = s.constraints := by
        apply OrderedMap.ext_entries
        rw [OrderedMap.entries_erase]
        exact (OrderedMap.entries_split_of_find?_none hfind).symm
      rw [Problem.removeConstraint, problem, ← OrderedMap.mapValues_erase,
        herase]
  · next c hfind =>
      simp only [problem, Problem.removeConstraint, OrderedMap.mapValues_erase]
      split
      · rfl
      · rw [OrderedMap.mapValues_accumulate _
          (fun c acc => Constraint.requirement_filterAdd c acc)]
        rfl

omit [HashOrder (OperatingPointPtr g)] in
theorem requirements_filterRemoveAt (priority : P)
    (found : OrderedMap P (Constraint g) × OPStream g) :
    (filterRemoveAt priority found).1.mapValues Constraint.requirement =
      found.1.mapValues Constraint.requirement := by
  rw [filterRemoveAt]
  split
  · rfl
  · next c hfind =>
      exact OrderedMap.mapValues_insert_of_eq _ hfind
        (Constraint.requirement_filterRemove c found.2)

omit [HashOrder (OperatingPointPtr g)] in
theorem requirements_removeFromLower (constraints : OrderedMap P (Constraint g))
    (lower : List (P × Constraint g)) (filteredOps : OPStream g) :
    (removeFromLower constraints lower filteredOps).1.mapValues
        Constraint.requirement =
      constraints.mapValues Constraint.requirement := by
  cases lower with
  | nil => rfl
  | cons first rest =>
      have hfold : ∀ (entries : List (P × Constraint g))
          (found : OrderedMap P (Constraint g) × OPStream g),
          (entries.foldl (fun found _ => filterRemoveAt first.1 found)
              found).1.mapValues Constraint.requirement =
            found.1.mapValues Constraint.requirement := by
        intro entries
        induction entries with
        | nil => exact fun _ => rfl
        | cons _ _ ih =>
            exact fun found =>
              (ih _).trans (requirements_filterRemoveAt first.1 found)
      exact hfold (first :: rest) (constraints, filteredOps)

@[simp] theorem problem_addConstraint (s : State g P) (kb : Knowledge g)
    (information : KnowledgeAdaptor g) (runtime : RuntimeInformation)
    (targetField : OPField g) (sigma : Int) (goalValue : Goal) (priority : P) :
    (s.addConstraint kb information runtime targetField sigma goalValue
        priority).problem =
      s.problem.addConstraint (Requirement.wire information
        ⟨targetField, sigma, goalValue, none⟩) priority := by
  rw [addConstraint, insertConstraint, Problem.addConstraint, problem]
  have hinsert := OrderedMap.mapValues_insert Constraint.requirement
    s.constraints priority
  split
  · rw [problem, hinsert]
    rfl
  · rw [problem, requirements_removeFromLower, hinsert]
    rfl

end Iteration

theorem problem_invalidate {s next : State g P} {priority : P}
    {ops : OPStream g} (hnext : s.invalidate priority ops = some next) :
    next.problem = s.problem := by
  rw [invalidate] at hnext
  split at hnext
  · rw [Option.some.inj hnext]
  · split at hnext
    · rw [Option.some.inj hnext]
    · next c hfind =>
        simp only at hnext
        split at hnext
        · obtain rfl := Option.some.inj hnext
          refine problem_eq ?_ rfl rfl
          refine (OrderedMap.mapValues_accumulate _
            (fun c acc => Constraint.requirement_filterRemove c acc) _ _).trans ?_
          exact OrderedMap.mapValues_insert_of_eq _ hfind
            (Constraint.requirement_filterAdd c _)
        · contradiction

theorem problem_validate (s : State g P) (priority : P) (ops : OPStream g) :
    (s.validate priority ops).problem = s.problem := by
  rw [validate]
  split
  · rfl
  · refine problem_eq ?_ rfl rfl
    exact OrderedMap.mapValues_accumulate _
      (fun c acc => Constraint.requirement_filterAdd c acc) _ _

theorem problem_updateStep {runtime : RuntimeInformation} {s next : State g P}
    {priority : P} (hnext : updateStep runtime s priority = some next) :
    next.problem = s.problem := by
  rw [updateStep] at hnext
  split at hnext
  · rw [Option.some.inj hnext]
  · next c hfind =>
      obtain ⟨invalidated, hinvalidated, rfl⟩ := Option.map_eq_some_iff.mp hnext
      rw [problem_validate, problem_invalidate hinvalidated]
      exact problem_eq (OrderedMap.mapValues_insert_of_eq _ hfind
        (Constraint.requirement_update c runtime)) rfl rfl

theorem problem_update {runtime : RuntimeInformation} {s next : State g P}
    (hnext : s.update runtime = some next) : next.problem = s.problem :=
  runFrom_kept (fun reached => reached.problem = s.problem)
    (fun _ _ _ hbefore hstep => (problem_updateStep hstep).trans hbefore)
    rfl hnext

theorem problem_getBestOperatingPoint [HashOrder (OperatingPointPtr g)]
    {runtime : RuntimeInformation} {s next : State g P}
    {found : Option (OperatingPointPtr g)}
    (hbest : s.getBestOperatingPoint runtime = some (next, found)) :
    next.problem = s.problem := by
  obtain ⟨updated, hupdate, hanswer⟩ := Option.map_eq_some_iff.mp hbest
  have hkept := problem_update hupdate
  split at hanswer
  · obtain ⟨rfl, -⟩ := Prod.mk.inj hanswer
    exact hkept
  · obtain ⟨rfl, -⟩ := Prod.mk.inj hanswer
    exact hkept

end State

end Margot
