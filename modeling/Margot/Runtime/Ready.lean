/-
When a manager is able to propose a configuration: its active state exists and
represents the knowledge.  New knowledge makes every active state ready.
-/
import Margot.Runtime.Asrtm
import Margot.Runtime.Optimality

namespace Margot

variable {g : Geometry} {I P : Type} [LinearOrder P]

/-- A clear flag means that there is an answer to hand out. -/
def State.Answers (s : State g P) : Prop :=
  s.problemIsChanged = false → s.bestOperatingPointFound ≠ none

/-- The active state exists, and it is ready for the knowledge, if any. -/
def Asrtm.ActiveReady [DecidableEq I] (m : Asrtm g I (State g P)) : Prop :=
  ∃ s, m.activeState = some s ∧
    (m.knowledge.empty = false → s.Partition m.knowledge ∧ s.Answers)

/-- A manager that two threads may start on: the active state is ready, and the
status is tuned only for a configuration in use. -/
structure Asrtm.Ready [DecidableEq I] (m : Asrtm g I (State g P)) : Prop where
  active : m.ActiveReady
  applied : m.status = .tuned → m.applicationConfiguration ≠ none

/-- A list of Operating Points leaves some knowledge. -/
theorem Knowledge.addAll_clear_not_empty {ops : OPStream g} (hops : ops ≠ []) :
    (Knowledge.clear.addAll ops).1.empty = false := by
  obtain ⟨op, rest, rfl⟩ := List.exists_cons_of_ne_nil hops
  by_contra hempty
  have hnone := Knowledge.empty_eq_true.mp (Bool.eq_true_of_not_eq_false hempty)
  have hmem := (Knowledge.clear.addAll_perm (op :: rest)).mem_iff (a := op)
  refine hnone op (hmem.mpr (List.mem_append_right _ ?_))
  rw [addAll]
  exact List.mem_append_left _ (by simp [add, clear])

theorem Knowledge.mem_of_mem_addAll {kb : Knowledge g} {ops : OPStream g}
    {ptr : OperatingPointPtr g} (hptr : ptr ∈ (kb.addAll ops).2) :
    ptr ∈ ops := by
  induction ops generalizing kb with
  | nil => contradiction
  | cons op rest ih =>
      rw [addAll] at hptr
      rcases List.mem_append.mp hptr with hadded | hrest
      · have hsome := Option.mem_toList.mp hadded
        rw [add] at hsome
        split at hsome
        · contradiction
        · exact Option.some.inj hsome ▸ List.mem_cons_self
      · exact List.mem_cons_of_mem op (ih hrest)

theorem Store.op_mem_of_mem_allocateOps {store : Store g}
    {ops : List (OperatingPoint g)} {ptr : OperatingPointPtr g}
    (hptr : ptr ∈ (store.allocateOps ops).2) : ptr.op ∈ ops := by
  induction ops generalizing store with
  | nil => contradiction
  | cons op rest ih =>
      rcases List.mem_cons.mp hptr with rfl | hrest
      · exact List.mem_cons_self
      · exact List.mem_cons_of_mem op (ih hrest)

theorem Store.allocateOps_ne_nil {store : Store g}
    {ops : List (OperatingPoint g)} (hops : ops ≠ []) :
    (store.allocateOps ops).2 ≠ [] := by
  obtain ⟨op, rest, rfl⟩ := List.exists_cons_of_ne_nil hops
  exact List.cons_ne_nil _ _

section Solve

variable [HashOrder (OperatingPointPtr g)]

/-- With some knowledge, the state answers with a configuration. -/
theorem State.getBestOperatingPoint_isSome {s next : State g P}
    {kb : Knowledge g} {runtime : RuntimeInformation}
    {found : Option (OperatingPointPtr g)} (hpart : s.Partition kb)
    (hanswers : s.Answers) (hknown : kb.empty = false)
    (hbest : s.getBestOperatingPoint runtime = some (next, found)) :
    found ≠ none ∧ next.Partition kb ∧ next.Answers := by
  obtain ⟨updated, hupdate, hupdated, -⟩ := update_spec hpart runtime
  have hkept := hupdated.partition
  rw [getBestOperatingPoint, hupdate, Option.map_some,
    Option.some.injEq] at hbest
  split at hbest
  · obtain ⟨rfl, rfl⟩ := Prod.mk.inj hbest
    have hsolved : updated.solve ≠ none := by
      rw [Ne, (solves_solve hkept).none_iff, hknown]
      exact Bool.false_ne_true
    exact ⟨hsolved, ⟨hkept.views, hkept.blocked, hkept.ranked,
      hkept.rankNodup⟩, fun _ => hsolved⟩
  · next hflag =>
      obtain ⟨rfl, rfl⟩ := Prod.mk.inj hbest
      have hbefore := (hupdated.unchanged
        (Bool.eq_false_of_not_eq_true hflag)).1
      have hstored : updated.bestOperatingPointFound ≠ none := by
        rw [hupdated.best]
        exact hanswers hbefore
      exact ⟨hstored, hkept, fun _ => hstored⟩

/-- A state that represents the knowledge passes the assertions of its update. -/
theorem State.exists_getBestOperatingPoint {s : State g P} {kb : Knowledge g}
    (hpart : s.Partition kb) (runtime : RuntimeInformation) :
    ∃ solved, s.getBestOperatingPoint runtime = some solved := by
  obtain ⟨updated, hupdate, -⟩ := update_spec hpart runtime
  rw [getBestOperatingPoint, hupdate, Option.map_some]
  exact ⟨_, rfl⟩

/-- What is found afresh belongs to the knowledge. -/
theorem State.getBestOperatingPoint_mem {s next : State g P}
    {kb : Knowledge g} {runtime : RuntimeInformation}
    {op : OperatingPointPtr g} (hpart : s.Partition kb)
    (hchanged : s.problemIsChanged = true)
    (hbest : s.getBestOperatingPoint runtime = some (next, some op)) :
    op ∈ kb := by
  obtain ⟨updated, hupdate, hupdated, -⟩ := update_spec hpart runtime
  rw [getBestOperatingPoint, hupdate, Option.map_some,
    Option.some.injEq] at hbest
  split at hbest
  · obtain ⟨-, hfound⟩ := Prod.mk.inj hbest
    have hsolves := solves_solve hupdated.partition
    exact relax_subset _ _ (hsolves.optimal op hfound).mem
  · next hflag =>
      have hbefore := (hupdated.unchanged
        (Bool.eq_false_of_not_eq_true hflag)).1
      rw [hchanged] at hbefore
      contradiction

namespace Asrtm

variable [DecidableEq I] {m next : Asrtm g I (State g P)}
  {store after : Store g}

theorem activeState_setKnowledgeBase (m : Asrtm g I (State g P))
    (store : Store g) (ops : List (OperatingPoint g)) :
    (m.setKnowledgeBase store ops).2.activeState =
      m.activeState.map fun s => s.setKnowledgeBase
        (m.setKnowledgeBase store ops).2.knowledge := by
  cases hcurrent : m.currentOptimizer with
  | none => simp [activeState, setKnowledgeBase, onStates, hcurrent]
  | some stateId => simp [activeState, setKnowledgeBase, onStates, hcurrent]

/-- New knowledge makes the active state ready, whatever it was before. -/
theorem activeReady_setKnowledgeBase {s : State g P}
    (hs : m.activeState = some s) (store : Store g)
    (ops : List (OperatingPoint g)) :
    (m.setKnowledgeBase store ops).2.ActiveReady := by
  refine ⟨s.setKnowledgeBase (m.setKnowledgeBase store ops).2.knowledge, ?_,
    fun _ => ⟨State.partition_setKnowledgeBase s _, fun hflag => ?_⟩⟩
  · rw [activeState_setKnowledgeBase, hs, Option.map_some]
  · rw [State.setKnowledgeBase] at hflag
    contradiction

omit [DecidableEq I] in
/-- The knowledge after `set_single_point` and `set_model`. -/
theorem op_mem_of_mem_setKnowledgeBase (m : Asrtm g I (State g P))
    (store : Store g) {ops : List (OperatingPoint g)}
    {ptr : OperatingPointPtr g}
    (hptr : ptr ∈ (m.setKnowledgeBase store ops).2.knowledge) :
    ptr.op ∈ ops := by
  have hadded := (Knowledge.clear.addAll_perm
    (store.allocateOps ops).2).mem_iff.mp hptr
  exact Store.op_mem_of_mem_allocateOps (Knowledge.mem_of_mem_addAll hadded)

omit [DecidableEq I] in
theorem not_empty_setKnowledgeBase (m : Asrtm g I (State g P))
    (store : Store g) {ops : List (OperatingPoint g)} (hops : ops ≠ []) :
    (m.setKnowledgeBase store ops).2.knowledge.empty = false :=
  Knowledge.addAll_clear_not_empty (Store.allocateOps_ne_nil hops)

/-- What `find_best_configuration` does when there is an active state. -/
theorem findBestConfiguration_eq_some {s : State g P}
    (hs : m.activeState = some s)
    (hfound : m.findBestConfiguration store = some (after, next)) :
    ∃ solved proposed, s.getBestOperatingPoint after.runtimeInformation =
        some (solved, proposed) ∧ next.activeState = some solved ∧
      next = { m with
        applicationOptimizers := next.applicationOptimizers
        proposedBestConfiguration := proposed } := by
  obtain ⟨stateId, hcurrent, hfind⟩ := Option.bind_eq_some_iff.mp hs
  obtain ⟨evaluated, -, hsolved⟩ := Option.bind_eq_some_iff.mp hfound
  rw [hcurrent] at hsolved
  obtain ⟨⟨solved, proposed⟩, hbest, heq⟩ := Option.map_eq_some_iff.mp hsolved
  obtain ⟨rfl, rfl⟩ := Prod.mk.inj heq
  rw [hfind, Option.bind_some] at hbest
  refine ⟨solved, proposed, hbest, ?_, by rw [hcurrent]⟩
  simp [activeState, UnorderedMap.find?_modify, hfind]

theorem activeReady_findBestConfiguration (hactive : m.ActiveReady)
    (hknown : m.knowledge.empty = false)
    (hfound : m.findBestConfiguration store = some (after, next)) :
    next.ActiveReady ∧ next.proposedBestConfiguration ≠ none ∧
      next.status = m.status ∧
      next.applicationConfiguration = m.applicationConfiguration := by
  obtain ⟨s, hs, hready⟩ := hactive
  obtain ⟨hpart, hanswers⟩ := hready hknown
  obtain ⟨solved, proposed, hbest, hsolved, hnext⟩ :=
    findBestConfiguration_eq_some hs hfound
  obtain ⟨hproposed, hsolvedPart, hsolvedAnswers⟩ :=
    State.getBestOperatingPoint_isSome hpart hanswers hknown hbest
  have hknowledge : next.knowledge = m.knowledge := by rw [hnext]
  refine ⟨⟨solved, hsolved, fun _ => ⟨?_, hsolvedAnswers⟩⟩, ?_, ?_, ?_⟩
  · rw [hknowledge]
    exact hsolvedPart
  all_goals rw [hnext]
  exact hproposed

/-- A ready manager that is not about to evaluate a null configuration finds a
configuration. -/
theorem exists_findBestConfiguration {s : State g P}
    (hs : m.activeState = some s) (hpart : s.Partition m.knowledge)
    {evaluated : Store g}
    (hevaluated : (if m.status = .tuned then m.evaluateError store
      else some store) = some evaluated) :
    ∃ next, m.findBestConfiguration store = some (evaluated, next) := by
  obtain ⟨stateId, hcurrent, hfind⟩ := Option.bind_eq_some_iff.mp hs
  obtain ⟨solved, hsolved⟩ :=
    State.exists_getBestOperatingPoint hpart evaluated.runtimeInformation
  rw [findBestConfiguration, hevaluated, Option.bind_some, hcurrent]
  simp only [hfind, Option.bind_some, hsolved, Option.map_some]
  exact ⟨_, rfl⟩

end Asrtm

end Solve

end Margot
