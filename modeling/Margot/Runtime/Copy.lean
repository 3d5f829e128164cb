/-
A manager and its copy.  The copy constructor copies the states, and with them
the pointers to their ranks and constraints, so the two managers work on the
same objects as soon as there is a state.
-/
import Margot.Runtime.Shared

namespace Margot

variable {g : Geometry} {I P : Type} [LinearOrder P]

namespace State

/-- The stream of the rank and the blocked sets of the constraints. -/
def contents (s : State g P) :
    OPStream g × OrderedMap P (UnorderedSet (OperatingPointPtr g)) :=
  (s.rank.toStream, s.constraints.mapValues Constraint.blockedOps)

/-- All the Operating Points in these. -/
def stored (s : State g P) : OPStream g :=
  s.contents.1 ++ s.contents.2.entries.flatMap fun entry => entry.2.elems

theorem mem_stored {s : State g P} {op : OperatingPointPtr g} :
    op ∈ s.stored ↔ op ∈ s.rank.toStream ∨
      ∃ entry ∈ s.constraints.entries, op ∈ entry.2.blockedOps := by
  simp [stored, contents, UnorderedSet.mem_def]

omit [LinearOrder P] in
/-- What is handed down the constraints is blocked by one of them or reaches
the end. -/
theorem mem_accumulateList_filterAdd (entries : List (P × Constraint g))
    {acc : OPStream g} {op : OperatingPointPtr g} (hop : op ∈ acc) :
    op ∈ (OrderedMap.accumulateList (fun _ => true) Constraint.filterAdd
        entries acc).2 ∨
      ∃ entry ∈ (OrderedMap.accumulateList (fun _ => true)
        Constraint.filterAdd entries acc).1, op ∈ entry.2.blockedOps := by
  induction entries generalizing acc with
  | nil => exact Or.inl hop
  | cons head rest ih =>
      rw [OrderedMap.accumulateList_cons_true]
      by_cases hachieves : head.2.achieves op
      · have hnext : op ∈ (head.2.filterAdd acc).2 :=
          List.mem_filter.mpr ⟨hop, hachieves⟩
        rcases ih hnext with hend | ⟨entry, hentry, hblocked⟩
        · exact Or.inl hend
        · exact Or.inr ⟨entry, List.mem_cons_of_mem _ hentry, hblocked⟩
      · refine Or.inr ⟨_, List.mem_cons_self, ?_⟩
        exact UnorderedSet.mem_emplaceAll.mpr
          (Or.inl (List.mem_filter.mpr ⟨hop, by simpa using hachieves⟩))

/-- A state keeps the Operating Points that it is given. -/
theorem mem_stored_addOperatingPoints (s : State g P) {newOps : OPStream g}
    {op : OperatingPointPtr g} (hop : op ∈ newOps) :
    op ∈ (s.addOperatingPoints newOps).stored := by
  rw [mem_stored]
  rcases mem_accumulateList_filterAdd (s.constraints.mapValues
    fun c => newOps.foldl Constraint.add c).entries hop with hend | hblocked
  · exact Or.inl (MultiMap.mem_emplaceAll.mpr (Or.inr hend))
  · exact Or.inr hblocked

end State

namespace Store

/-- What a provider gets to see of its monitor. -/
def watched (store : Store g) (ref : AdaptorRef) : Option ℚ :=
  store.observed (store.adaptor ref).monitor

theorem watched_allocateOps (store : Store g) (ops : List (OperatingPoint g)) :
    (store.allocateOps ops).1.watched = store.watched := by
  induction ops generalizing store with
  | nil => rfl
  | cons op rest ih => exact ih (store.allocateOp op).1

theorem watched_modifyAdaptor (store : Store g)
    {change : OneSigmaAdaptor g → OneSigmaAdaptor g}
    (hchange : ∀ adaptor, (change adaptor).monitor = adaptor.monitor)
    (ref : AdaptorRef) : (store.modifyAdaptor change ref).watched =
      store.watched := by
  funext other
  by_cases hother : other = ref
  · subst hother
    simp [watched, modifyAdaptor, observed, hchange]
  · simp [watched, modifyAdaptor, observed, hother]

end Store

theorem OneSigmaAdaptor.monitor_evaluateError (adaptor : OneSigmaAdaptor g)
    (op : OperatingPointPtr g) (observed : Option ℚ) :
    (adaptor.evaluateError op observed).monitor = adaptor.monitor := by
  rw [evaluateError]
  split <;> rfl

/-- An evaluation of the errors changes no monitor. -/
theorem Store.watched_evaluateError (store : Store g)
    (information : KnowledgeAdaptor g) (observed : MonitorRef → Option ℚ)
    (currentOp : OperatingPointPtr g) :
    (store.evaluateError information observed currentOp).watched =
      store.watched := by
  rw [evaluateError]
  induction information.registered generalizing store with
  | nil => rfl
  | cons ref rest ih =>
      rw [List.foldl_cons, ih]
      exact store.watched_modifyAdaptor
        (fun adaptor => adaptor.monitor_evaluateError currentOp _) ref

namespace Asrtm

/-- A manager that no state was created for. -/
structure Stateless {S : Type} [DecidableEq I] (m : Asrtm g I S) : Prop where
  empty : ∀ stateId, m.applicationOptimizers.find? stateId = none
  inactive : m.currentOptimizer = none

/-- Whether the error can be evaluated only depends on the monitors. -/
theorem isSome_evaluateError {S : Type} (m : Asrtm g I S)
    {store after : Store g} (hwatched : after.watched = store.watched) :
    (m.evaluateError after).isSome = (m.evaluateError store).isSome := by
  have hobserved : ∀ ref, (after.observed (after.adaptor ref).monitor) =
      store.observed (store.adaptor ref).monitor := congrFun hwatched
  simp only [evaluateError, hobserved]
  split
  · rfl
  · split <;> rfl

theorem watched_evaluateError {S : Type} {m : Asrtm g I S}
    {store after : Store g} (hafter : m.evaluateError store = some after) :
    after.watched = store.watched := by
  rw [evaluateError] at hafter
  split at hafter
  · obtain rfl := Option.some.inj hafter
    exact store.watched_evaluateError _ _ _
  · split at hafter
    · rw [Option.some.inj hafter]
    · contradiction

variable [DecidableEq I] [HashOrder (OperatingPointPtr g)]

/-- What `find_best_configuration` would propose. -/
def answer (m : Asrtm g I (State g P)) (store : Store g) :
    Option (Option (OperatingPointPtr g)) :=
  (m.findBestConfiguration store).map fun found =>
    found.2.proposedBestConfiguration

/-- The contents of the states and the answer. -/
def view (m : Asrtm g I (State g P)) (store : Store g) :
    (I → Option (OPStream g × OrderedMap P
      (UnorderedSet (OperatingPointPtr g)))) ×
      Option (Option (OperatingPointPtr g)) :=
  (fun stateId => (m.applicationOptimizers.find? stateId).map State.contents,
    m.answer store)

/-- Without an active state the answer is the last one. -/
theorem answer_of_inactive {m : Asrtm g I (State g P)}
    (hinactive : m.currentOptimizer = none) (store : Store g) :
    m.answer store =
      if m.status = .tuned → (m.evaluateError store).isSome then
        some m.proposedBestConfiguration
      else none := by
  simp only [answer, findBestConfiguration, hinactive]
  by_cases hstatus : m.status = .tuned
  · cases m.evaluateError store with
    | none => simp [hstatus]
    | some after => simp [hstatus]
  · simp [hstatus]

end Asrtm

/-- The operations performed on a manager or on its copy. -/
inductive Copied.Operation (g : Geometry) (P : Type) where
  | addOperatingPoints (opList : List (OperatingPoint g))
  | removeOperatingPoints
      (configurationList : List (Vector ℚ g.numberOfSoftwareKnobs))
  | addConstraint (targetField : OPField g) (sigma : Int) (goalValue : Goal)
      (priority : P)
  | removeConstraint (priority : P)
  | setRank (objective : RankObjective) (evaluate : OperatingPointPtr g → ℚ)
  | findBestConfiguration

omit [LinearOrder P] in
def Copied.Operation.action : Copied.Operation g P → Asrtm.Action g I P
  | .addOperatingPoints opList => .usage (.addOperatingPoints opList)
  | .removeOperatingPoints configurationList =>
      .usage (.removeOperatingPoints configurationList)
  | .addConstraint targetField sigma goalValue priority =>
      .problem (.addConstraint targetField sigma goalValue priority)
  | .removeConstraint priority => .problem (.removeConstraint priority)
  | .setRank objective evaluate => .problem (.setRank objective evaluate)
  | .findBestConfiguration => .usage .findBestConfiguration

inductive Copied.Side where
  | original
  | copied
deriving DecidableEq

def Copied.Side.other : Copied.Side → Copied.Side
  | .original => .copied
  | .copied => .original

/-- The two managers, with the objects that both of them point to. -/
structure Copied (g : Geometry) (I P : Type) [LinearOrder P] where
  store : Store g
  heap : Heap g
  manager : Copied.Side → Asrtm g I (SharedState g P)

namespace Copied

variable [DecidableEq I] [HashOrder (OperatingPointPtr g)]

def step (pair : Copied g I P) (taken : Side × Operation g P) :
    Option (Copied g I P) :=
  (Placed.step ⟨pair.store, pair.heap, pair.manager taken.1⟩
    taken.2.action).map fun after =>
      ⟨after.store, after.heap,
        Function.update pair.manager taken.1 after.manager⟩

def view (pair : Copied g I P) (side : Side) :
    (I → Option (OPStream g × OrderedMap P
      (UnorderedSet (OperatingPointPtr g)))) ×
      Option (Option (OperatingPointPtr g)) :=
  ((pair.manager side).load pair.heap).view pair.store

theorem contents_view (pair : Copied g I P) (side : Side) (stateId : I) :
    (pair.view side).1 stateId =
      ((pair.manager side).applicationOptimizers.find? stateId).map
        fun s => (s.load pair.heap).contents := by
  simp only [view, Asrtm.view, Asrtm.load, UnorderedMap.find?_map,
    Option.map_map, Function.comp_def]

/-- An operation on one manager changes nothing of the other one. -/
def KeepsOther (before : Copied g I P) (taken : Side × Operation g P) : Prop :=
  ∀ after, before.step taken = some after →
    after.view taken.1.other = before.view taken.1.other

variable [HashOrder I]

def ofCopy (placed : Placed g I P) : Copied g I P where
  store := placed.store
  heap := placed.heap
  manager
    | .original => placed.manager
    | .copied => placed.manager.copy

/-- The copy has the same active state, and no operations on one of the two
managers ever change the other one. -/
structure EquivalentAndSeparate (placed : Placed g I P) : Prop where
  equivalent :
    placed.manager.copy.currentOptimizer = placed.manager.currentOptimizer
  separate : ∀ operations, AllSteps step KeepsOther (ofCopy placed) operations

omit [HashOrder (OperatingPointPtr g)] in
theorem unaliased_copy {placed : Placed g I P} (howned : placed.Owned) :
    Unaliased placed.heap placed.manager.copy.applicationOptimizers := by
  refine howned.of_sub fun stateId s hfind => ⟨s, ?_, rfl, fun _ _ href => href⟩
  rwa [Asrtm.copy, UnorderedMap.find?_copy] at hfind

omit [HashOrder I] [HashOrder (OperatingPointPtr g)] in
/-- A configuration that is not known is added to all the states. -/
theorem find?_addOperatingPoints {m : Asrtm g I (State g P)} (store : Store g)
    {op : OperatingPoint g} {stateId : I} {s : State g P}
    (hfresh : op.getKnobs ∉
      m.knowledge.knowledge.map OperatingPointPtr.getKnobs)
    (hs : m.applicationOptimizers.find? stateId = some s) :
    (m.addOperatingPoints store [op]).2.applicationOptimizers.find? stateId =
      some (s.addOperatingPoints [⟨store.nextAddress, op⟩]) := by
  have hadded : (m.knowledge.add ⟨store.nextAddress, op⟩).2 =
      some ⟨store.nextAddress, op⟩ :=
    congrArg Prod.snd (dif_neg hfresh)
  simp [Asrtm.addOperatingPoints, Store.allocateOps, Store.allocateOp,
    Knowledge.addAll, hadded, Asrtm.onStates, hs]

/-- The original reads the objects that the copy wrote. -/
theorem view_addOperatingPoints {placed : Placed g I P} (howned : placed.Owned)
    {stateId : I} {s : SharedState g P}
    (hs : placed.manager.applicationOptimizers.find? stateId = some s)
    {op : OperatingPoint g} (hfresh : op.getKnobs ∉
      placed.manager.knowledge.knowledge.map OperatingPointPtr.getKnobs) :
    ∃ after, (ofCopy placed).step (.copied, .addOperatingPoints [op]) =
        some after ∧
      (after.view .original).1 stateId = some ((s.load
        placed.heap).addOperatingPoints
          [⟨placed.store.nextAddress, op⟩]).contents := by
  let changed := (s.load placed.heap).addOperatingPoints
    [⟨placed.store.nextAddress, op⟩]
  let values := ((placed.manager.copy.load placed.heap).addOperatingPoints
    placed.store [op]).2.applicationOptimizers
  have hcopied : placed.manager.copy.applicationOptimizers.find? stateId =
      some s := (UnorderedMap.find?_copy _ _).trans hs
  have hvalue : values.find? stateId = some changed := by
    refine find?_addOperatingPoints placed.store hfresh ?_
    rw [Asrtm.load, UnorderedMap.find?_map, hcopied, Option.map_some]
  have hunaliased := unaliased_copy howned
  have hshape : s.shape = changed.shape := by
    have hloaded : (s.load placed.heap).shape = s.shape :=
      OrderedMap.mapValues_mapValues _ _ _
    rw [State.shape_eq_of_problem (State.problem_addOperatingPoints _ _),
      hloaded]
  have hloaded : (s.load (placed.heap.writeBack
      placed.manager.copy.applicationOptimizers values)).contents =
        changed.contents := by
    simp only [State.contents, SharedState.load,
      rank_writeBack hunaliased hcopied hvalue,
      constraints_writeBack hunaliased hcopied hvalue hshape]
  refine ⟨_, rfl, ?_⟩
  rw [contents_view]
  exact (congrArg (Option.map _) hs).trans (congrArg some hloaded)

/-- With a state, the Operating Points added to the copy appear in the
original. -/
theorem exists_interference {placed : Placed g I P} (howned : placed.Owned)
    {stateId : I} {s : SharedState g P}
    (hs : placed.manager.applicationOptimizers.find? stateId = some s) :
    ∃ op, ¬ (ofCopy placed).KeepsOther (.copied, .addOperatingPoints [op]) := by
  obtain ⟨value, hfresh⟩ := exists_fresh_uniform
    ((placed.manager.knowledge.knowledge ++
      (s.load placed.heap).stored).map OperatingPointPtr.getKnobs)
  rw [List.map_append, List.mem_append, not_or] at hfresh
  obtain ⟨after, hafter, hchanged⟩ := view_addOperatingPoints howned hs hfresh.1
  refine ⟨OperatingPoint.uniform g value, fun hkeeps => hfresh.2 ?_⟩
  have hbefore : ((ofCopy placed).view .original).1 stateId =
      some (s.load placed.heap).contents := by
    rw [contents_view, ofCopy, hs, Option.map_some]
  have hview := congrFun (congrArg Prod.fst (hkeeps after hafter)) stateId
  have hsame := Option.some.inj (hchanged.symm.trans (hview.trans hbefore))
  have hadded := State.mem_stored_addOperatingPoints (s.load placed.heap)
    (List.mem_singleton_self
      (⟨placed.store.nextAddress, OperatingPoint.uniform g value⟩ :
        OperatingPointPtr g))
  rw [State.stored, hsame] at hadded
  exact List.mem_map_of_mem hadded

omit [HashOrder I] in
/-- Without states, the operations change the knowledge and the providers. -/
theorem stateless_step {placed after : Placed g I P} {operation : Operation g P}
    (hstateless : placed.manager.Stateless)
    (hstep : placed.step operation.action = some after) :
    after.manager.Stateless ∧ after.store.watched = placed.store.watched := by
  obtain ⟨values, hvalues, rfl⟩ := Option.map_eq_some_iff.mp hstep
  have hempty : ∀ stateId, (stampAll placed.manager.applicationOptimizers
      values.2.applicationOptimizers).find? stateId = none := by
    intro stateId
    rw [stampAll, UnorderedMap.find?_mapWithKey, hstateless.empty,
      Option.map_none]
  have hnone : ∀ change : State g P → State g P,
      (placed.manager.load placed.heap).onActiveState change = none :=
    fun change => Option.map_eq_none_iff.mpr hstateless.inactive
  cases operation with
  | addOperatingPoints opList =>
      obtain rfl := Option.some.inj hvalues
      exact ⟨⟨hempty, hstateless.inactive⟩,
        placed.store.watched_allocateOps opList⟩
  | removeOperatingPoints configurationList =>
      obtain rfl := Option.some.inj hvalues
      exact ⟨⟨hempty, hstateless.inactive⟩, rfl⟩
  | addConstraint targetField sigma goalValue priority =>
      obtain ⟨_, hnext, -⟩ := Option.map_eq_some_iff.mp hvalues
      exact absurd ((hnone _).symm.trans hnext) (Option.some_ne_none _).symm
  | removeConstraint priority =>
      obtain ⟨_, hnext, -⟩ := Option.map_eq_some_iff.mp hvalues
      exact absurd ((hnone _).symm.trans hnext) (Option.some_ne_none _).symm
  | setRank objective evaluate =>
      obtain ⟨_, hnext, -⟩ := Option.map_eq_some_iff.mp hvalues
      exact absurd ((hnone _).symm.trans hnext) (Option.some_ne_none _).symm
  | findBestConfiguration =>
      obtain ⟨evaluated, hevaluated, hsolved⟩ :=
        Option.bind_eq_some_iff.mp hvalues
      have hinactive : (placed.manager.load placed.heap).currentOptimizer =
          none := hstateless.inactive
      rw [hinactive] at hsolved
      obtain rfl := Option.some.inj hsolved
      refine ⟨⟨hempty, hstateless.inactive⟩, ?_⟩
      split at hevaluated
      · exact Asrtm.watched_evaluateError hevaluated
      · exact congrArg Store.watched (Option.some.inj hevaluated).symm

omit [HashOrder I] in
/-- A manager without states looks the same as long as its monitors do. -/
theorem view_of_stateless {m : Asrtm g I (SharedState g P)}
    (hstateless : m.Stateless) (heap other : Heap g) {store after : Store g}
    (hwatched : after.watched = store.watched) :
    (m.load other).view after = (m.load heap).view store := by
  refine Prod.ext (funext fun stateId => ?_) ?_
  · simp [Asrtm.view, Asrtm.load, hstateless.empty]
  · have hevaluated := (m.load heap).isSome_evaluateError hwatched
    have hother := Asrtm.answer_of_inactive
      (show (m.load other).currentOptimizer = none from hstateless.inactive)
      after
    have hheap := Asrtm.answer_of_inactive
      (show (m.load heap).currentOptimizer = none from hstateless.inactive)
      store
    rw [← hevaluated] at hheap
    exact hother.trans hheap.symm

omit [HashOrder I] in
/-- Two managers without states do not see each other. -/
theorem stateless_pair_step {before after : Copied g I P}
    {taken : Side × Operation g P}
    (hstateless : ∀ side, (before.manager side).Stateless)
    (hstep : before.step taken = some after) :
    (∀ side, (after.manager side).Stateless) ∧
      after.view taken.1.other = before.view taken.1.other := by
  obtain ⟨placed, hplaced, rfl⟩ := Option.map_eq_some_iff.mp hstep
  obtain ⟨hnext, hwatched⟩ := stateless_step (hstateless taken.1) hplaced
  refine ⟨fun side => ?_, ?_⟩
  · by_cases hside : side = taken.1
    · subst hside
      simpa only [Function.update_self] using hnext
    · simpa only [Function.update_of_ne hside] using hstateless side
  · have hother : taken.1.other ≠ taken.1 := by
      cases taken.1 <;> decide
    simp only [view, Function.update_of_ne hother]
    exact view_of_stateless (hstateless _) _ _ hwatched

/-- Nothing is shared by a manager without states and its copy. -/
theorem equivalentAndSeparate_of_stateless {placed : Placed g I P}
    (hstateless : placed.manager.Stateless) : EquivalentAndSeparate placed := by
  have hkeys : placed.manager.applicationOptimizers.keys = [] := by
    rw [List.eq_nil_iff_forall_not_mem]
    exact fun stateId =>
      UnorderedMap.find?_eq_none.mp (hstateless.empty stateId)
  have hcopy : placed.manager.copy.currentOptimizer = none := by
    have hvisit : placed.manager.visitStates = [] := by
      rw [Asrtm.visitStates, UnorderedMap.visitKeys, hkeys]
      exact (HashOrder.visit_perm []).eq_nil
    have hcopied :
        placed.manager.applicationOptimizers.copy.visitKeys = [] := by
      rw [UnorderedMap.visitKeys, UnorderedMap.keys_copy, hkeys,
        (HashOrder.copy_perm []).eq_nil]
      exact (HashOrder.visit_perm []).eq_nil
    simp only [Asrtm.copy, hvisit, hcopied, walkTo, List.head?_nil]
  have hstart : ∀ side, ((ofCopy placed).manager side).Stateless := by
    intro side
    cases side with
    | original => exact hstateless
    | copied =>
        refine ⟨fun stateId => ?_, hcopy⟩
        exact (UnorderedMap.find?_copy _ _).trans (hstateless.empty stateId)
  refine ⟨hcopy.trans hstateless.inactive.symm, ?_⟩
  intro operations pre taken before after _ hrun _ next hnext
  exact (stateless_pair_step (runFrom_kept
    (fun pair : Copied g I P => ∀ side, (pair.manager side).Stateless)
    (fun _ _ _ hbefore hstep => (stateless_pair_step hbefore hstep).1)
    hstart hrun) hnext).2

/-- A copy of a manager is equivalent and separate exactly when the manager has
no state. -/
theorem equivalentAndSeparate_allReached_iff (store : Store g) (heap : Heap g)
    (actions : List (Asrtm.Action g I P)) :
    AllReached Placed.step
      (fun placed => EquivalentAndSeparate placed ↔
        ∀ stateId, placed.manager.applicationOptimizers.find? stateId = none)
      ⟨store, heap, Asrtm.new⟩ actions := by
  intro pre reached _ hrun
  have hstart : (⟨store, heap, Asrtm.new⟩ : Placed g I P).Owned :=
    unaliased_empty heap
  have hview := Placed.load_run hstart pre
  rw [hrun, Option.map_some] at hview
  have howned := runFrom_kept Placed.Owned
    (fun _ _ _ => Placed.owned_step) hstart hrun
  have hactive : (reached.load).2.agenda.ActiveStated :=
    runFrom_kept (fun world : Store g × Asrtm g I (State g P) =>
      world.2.agenda.ActiveStated) (fun _ _ _ => Asrtm.active_step)
      (fun _ hcurrent => absurd hcurrent.symm (Option.some_ne_none _))
      hview.symm
  constructor
  · intro hcopy stateId
    by_contra hstate
    obtain ⟨s, hs⟩ := Option.ne_none_iff_exists'.mp hstate
    obtain ⟨op, hinterferes⟩ := exists_interference howned hs
    exact hinterferes fun after hafter => hcopy.separate
      [(.copied, .addOperatingPoints [op])] [] _ _ after List.prefix_rfl rfl
      hafter after hafter
  · intro hempty
    refine equivalentAndSeparate_of_stateless ⟨hempty, ?_⟩
    rw [Option.eq_none_iff_forall_ne_some]
    intro stateId hcurrent
    have hstated := hactive stateId hcurrent
    simp [Asrtm.agenda, Placed.load, Asrtm.load, hempty] at hstated

/-- A manager with one state. -/
def created : Placed Geometry.single Nat Nat :=
  (runFrom Placed.step ⟨Store.initial, Heap.initial, Asrtm.new⟩
    [.problem (.createNewState 0)]).get (by decide +kernel)

/-- An Operating Point that is added to its copy. -/
def extended : Copied Geometry.single Nat Nat :=
  ((ofCopy created).step
    (.copied, .addOperatingPoints [OperatingPoint.single 1 5])).get
      (by decide +kernel)

/-- It appears in the rank of the manager. -/
theorem not_equivalentAndSeparate_created :
    ¬ ∀ (store : Store Geometry.single) (heap : Heap Geometry.single)
      (actions : List (Asrtm.Action Geometry.single Nat Nat)),
      AllReached Placed.step EquivalentAndSeparate
        ⟨store, heap, Asrtm.new⟩ actions := by
  intro hall
  have hcopy := hall Store.initial Heap.initial _ _ created List.prefix_rfl
    (Option.some_get _).symm
  have hadded : (ofCopy created).step
      (.copied, .addOperatingPoints [OperatingPoint.single 1 5]) =
        some extended := (Option.some_get _).symm
  have hkeeps := hcopy.separate _ [] _ _ extended List.prefix_rfl rfl hadded
    extended hadded
  have hranks := congrArg
    (fun view => (view.1 0).map fun contents => contents.1.length) hkeeps
  have hdiffer : ((extended.view .original).1 0).map
        (fun contents => contents.1.length) ≠
      (((ofCopy created).view .original).1 0).map
        fun contents => contents.1.length := by
    decide +kernel
  exact hdiffer hranks

end Copied

end Margot
