/-
Runs of a state.  The operations that an application performs on a state, next
to the knowledge that the state is given; the goals and the error coefficients
may change arbitrarily between two operations, so every operation that reads
them comes with the values it reads.
-/
import Margot.Runtime.AddConstraint
import Margot.Runtime.Update

namespace Margot

variable {g : Geometry} {P : Type} [LinearOrder P]

/-- The application knowledge and a state that was given that knowledge. -/
structure Setting (g : Geometry) (P : Type) [LinearOrder P] where
  knowledge : Knowledge g
  state : State g P

inductive Operation (g : Geometry) (P : Type) where
  | setKnowledgeBase (kb : Knowledge g)
  | addOperatingPoints (opList : OPStream g)
  | removeOperatingPoints
      (configurationList : List (Vector ℚ g.numberOfSoftwareKnobs))
  | addConstraint (information : KnowledgeAdaptor g)
      (runtime : RuntimeInformation) (targetField : OPField g) (sigma : Int)
      (goalValue : Goal) (priority : P)
  | removeConstraint (priority : P)
  | setRank (objective : RankObjective) (evaluate : OperatingPointPtr g → ℚ)
  | getBestOperatingPoint (runtime : RuntimeInformation)

namespace Setting

/-- The partition of the knowledge holds. -/
def Partitioned (setting : Setting g P) : Prop :=
  setting.state.Partition setting.knowledge

def empty : Setting g P := ⟨Knowledge.clear, State.new⟩

section Step

variable [HashOrder (OperatingPointPtr g)]

/-- `none` is a failed assertion. -/
def step (setting : Setting g P) : Operation g P → Option (Setting g P)
  | .setKnowledgeBase kb => some ⟨kb, setting.state.setKnowledgeBase kb⟩
  | .addOperatingPoints opList =>
      let added := setting.knowledge.addAll opList
      some ⟨added.1, setting.state.addOperatingPoints added.2⟩
  | .removeOperatingPoints configurationList =>
      let removed := setting.knowledge.removeAll configurationList
      some ⟨removed.1, setting.state.removeOperatingPoints removed.2⟩
  | .addConstraint information runtime targetField sigma goalValue priority =>
      some { setting with
        state := setting.state.addConstraint setting.knowledge information
          runtime targetField sigma goalValue priority }
  | .removeConstraint priority =>
      some { setting with state := setting.state.removeConstraint priority }
  | .setRank objective evaluate =>
      some { setting with state := setting.state.setRank objective evaluate }
  | .getBestOperatingPoint runtime =>
      (setting.state.getBestOperatingPoint runtime).map fun found =>
        { setting with state := found.1 }

/-- Constraints are only added with a priority that is not in use. -/
def stepUnused (setting : Setting g P) (operation : Operation g P) :
    Option (Setting g P) :=
  match operation with
  | .addConstraint _ _ _ _ _ priority =>
      if (setting.state.constraints.find? priority).isSome then none
      else setting.step operation
  | _ => setting.step operation

end Step

/-- Every Operating Point blocked by the second or a later constraint below the
priority of a new constraint is accepted by the new constraint. -/
def AcceptsLower (setting : Setting g P) : Operation g P → Prop
  | .addConstraint _ runtime targetField sigma goalValue priority =>
      ∀ entry ∈ (setting.state.constraints.upperBound priority).tail,
        ∀ op ∈ entry.2.blockedOps,
          goalValue.check (constraintField targetField sigma goalValue op)
            (goalValue.get runtime) = true
  | _ => True

/-- The new constraint rejects what the constraint that it replaces blocked. -/
def RejectsReplaced (setting : Setting g P) : Operation g P → Prop
  | .addConstraint _ runtime targetField sigma goalValue priority =>
      ∀ old, setting.state.constraints.find? priority = some old →
        ∀ op ∈ old.blockedOps,
          goalValue.check (constraintField targetField sigma goalValue op)
            (goalValue.get runtime) = false
  | _ => True

section Partition

variable [HashOrder (OperatingPointPtr g)] {before after : Setting g P}

/-- Solving only changes the constraints through the update. -/
theorem partition_getBestOperatingPoint {s next : State g P}
    {kb : Knowledge g} {runtime : RuntimeInformation}
    {found : Option (OperatingPointPtr g)} (hpart : s.Partition kb)
    (hbest : s.getBestOperatingPoint runtime = some (next, found)) :
    next.Partition kb := by
  obtain ⟨updated, hupdate, hupdated, -⟩ := State.update_spec hpart runtime
  have hkept := hupdated.partition
  rw [State.getBestOperatingPoint, hupdate, Option.map_some,
    Option.some.injEq] at hbest
  split at hbest
  · obtain ⟨rfl, -⟩ := Prod.mk.inj hbest
    exact ⟨hkept.views, hkept.blocked, hkept.ranked, hkept.rankNodup⟩
  · obtain ⟨rfl, -⟩ := Prod.mk.inj hbest
    exact hkept

/-- Every operation keeps the partition, as far as a new constraint admits it. -/
theorem partition_step {operation : Operation g P}
    (hpart : before.Partitioned)
    (haccepts : before.AcceptsLower operation)
    (hrejects : before.RejectsReplaced operation)
    (hstep : before.step operation = some after) :
    after.Partitioned := by
  cases operation with
  | setKnowledgeBase kb =>
      obtain rfl := Option.some.inj hstep
      exact State.partition_setKnowledgeBase _ kb
  | addOperatingPoints opList =>
      obtain rfl := Option.some.inj hstep
      exact State.partition_addOperatingPoints hpart
        (before.knowledge.addAll_perm opList)
  | removeOperatingPoints configurationList =>
      obtain rfl := Option.some.inj hstep
      exact State.partition_removeOperatingPoints hpart
        (before.knowledge.removeAll_perm configurationList)
  | addConstraint information runtime targetField sigma goalValue priority =>
      obtain rfl := Option.some.inj hstep
      exact (State.partition_addConstraint_iff information runtime targetField
        sigma goalValue hpart priority).mpr ⟨haccepts, hrejects⟩
  | removeConstraint priority =>
      obtain rfl := Option.some.inj hstep
      exact State.partition_removeConstraint hpart priority
  | setRank objective evaluate =>
      obtain rfl := Option.some.inj hstep
      exact State.partition_setRank hpart objective evaluate
  | getBestOperatingPoint runtime =>
      obtain ⟨⟨next, found⟩, hbest, rfl⟩ := Option.map_eq_some_iff.mp hstep
      exact partition_getBestOperatingPoint hpart hbest

theorem stepUnused_eq_some {operation : Operation g P}
    (hstep : before.stepUnused operation = some after) :
    before.step operation = some after ∧ before.RejectsReplaced operation := by
  cases operation with
  | addConstraint information runtime targetField sigma goalValue priority =>
      rw [stepUnused] at hstep
      split at hstep
      · contradiction
      · next hunused =>
          refine ⟨hstep, fun old hfind => ?_⟩
          rw [hfind] at hunused
          exact absurd rfl hunused
  | _ => exact ⟨hstep, trivial⟩

theorem acceptsLower_of_partition {operation : Operation g P}
    (hpart : before.Partitioned)
    (hstep : before.step operation = some after)
    (hafter : after.Partitioned) :
    before.AcceptsLower operation := by
  cases operation with
  | addConstraint information runtime targetField sigma goalValue priority =>
      obtain rfl := Option.some.inj hstep
      exact ((State.partition_addConstraint_iff information runtime targetField
        sigma goalValue hpart priority).mp hafter).lower
  | _ => trivial

/-- The partition holds in every state that a run reaches exactly when every
new constraint accepts what is blocked below the first lower constraint. -/
theorem partition_allReached_iff (operations : List (Operation g P)) :
    AllReached stepUnused Partitioned empty operations ↔
      AllSteps stepUnused AcceptsLower empty operations := by
  refine allReached_iff_allSteps Partitioned ?_ (fun _ hpart => hpart) ?_ State.partition_new
  · intro before operation after hpart haccepts hstep
    obtain ⟨hstep, hrejects⟩ := stepUnused_eq_some hstep
    exact partition_step hpart haccepts hrejects hstep
  · intro before operation after hpart hstep hafter
    exact acceptsLower_of_partition hpart (stepUnused_eq_some hstep).1 hafter

end Partition

/-- A constraint that asks for a metric of at most `value`. -/
def constrain (value : GoalRef) (priority : Nat) :
    Operation Geometry.single Nat :=
  .addConstraint KnowledgeAdaptor.new RuntimeInformation.numbered
    OPField.single 0 (Goal.atMost value) priority

/-- The last constraint of the run rejects what the second constraint below it
is blocking. -/
def duplicating : List (Operation Geometry.single Nat) :=
  [.addOperatingPoints [.single 0 1 5], constrain 10 2, constrain 3 3,
    constrain 4 1]

def duplicated : Setting Geometry.single Nat :=
  (runFrom stepUnused empty duplicating).get (by decide +kernel)

/-- The Operating Point ends in the blocked sets of two constraints. -/
theorem not_partition_duplicated :
    ¬ ∀ operations : List (Operation Geometry.single Nat),
      AllReached stepUnused Partitioned empty operations := by
  intro hall
  have hpart := hall duplicating duplicating duplicated List.prefix_rfl
    (Option.some_get _).symm
  have htwice : ¬ ∀ entry ∈ duplicated.state.constraints.entries,
      ∀ other ∈ duplicated.state.constraints.entries,
        ∀ op ∈ entry.2.blockedOps.elems,
          op ∈ other.2.blockedOps.elems → entry.1 = other.1 := by
    decide +kernel
  refine htwice fun entry hentry other hother op hop hagain => ?_
  exact congrArg Prod.fst (hpart.blocked_once hentry hop hother hagain)

end Setting

end Margot
