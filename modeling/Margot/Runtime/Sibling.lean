/-
A manager and its sibling, side by side.  The providers of runtime information
are shared objects; a method only changes the providers that its manager has
registered, and registers none but newly allocated ones.
-/
import Mathlib.Algebra.CharZero.Infinite
import Margot.Library.Runs
import Margot.Runtime.Agenda
import Margot.Runtime.Ready

namespace Margot

variable {g : Geometry} {I P : Type} [LinearOrder P]

namespace KnowledgeAdaptor

theorem mem_registered_emplace {information : KnowledgeAdaptor g}
    {field : OPField g} {adaptor ref : AdaptorRef}
    (hmem : ref ∈ (information.emplace field adaptor).registered) :
    ref = adaptor ∨ ref ∈ information.registered := by
  rw [mem_registered, emplace, Vector.toList_set] at hmem
  rcases List.mem_or_eq_of_mem_set hmem with hold | hnew
  · exact Or.inr (mem_registered.mpr hold)
  · exact Or.inl (Option.some.inj hnew)

end KnowledgeAdaptor

namespace Store

/-- A loop over providers leaves the other ones as they are. -/
theorem adaptor_foldl_modifyAdaptor {store : Store g}
    (change : OneSigmaAdaptor g → OneSigmaAdaptor g) {refs : List AdaptorRef}
    {ref : AdaptorRef} (href : ref ∉ refs) :
    (refs.foldl (fun store ref => store.modifyAdaptor change ref)
      store).adaptor ref = store.adaptor ref := by
  induction refs generalizing store with
  | nil => rfl
  | cons first rest ih =>
      obtain ⟨hfirst, hrest⟩ := not_or.mp (mt List.mem_cons.mpr href)
      rw [List.foldl_cons, ih hrest]
      exact Function.update_of_ne hfirst _ _

theorem nextAdaptor_foldl_modifyAdaptor (store : Store g)
    (change : OneSigmaAdaptor g → OneSigmaAdaptor g) (refs : List AdaptorRef) :
    (refs.foldl (fun store ref => store.modifyAdaptor change ref)
      store).nextAdaptor = store.nextAdaptor := by
  induction refs generalizing store with
  | nil => rfl
  | cons first rest ih => exact ih (store.modifyAdaptor change first)

/-- What every visit of a provider establishes holds after a loop that visits
it. -/
theorem foldl_modifyAdaptor_of_mem (store : Store g)
    (change : OneSigmaAdaptor g → OneSigmaAdaptor g)
    (Holds : OneSigmaAdaptor g → Prop)
    (hholds : ∀ adaptor, Holds (change adaptor))
    {refs : List AdaptorRef} {ref : AdaptorRef} (href : ref ∈ refs) :
    Holds ((refs.foldl (fun store ref => store.modifyAdaptor change ref)
      store).adaptor ref) := by
  induction refs generalizing store with
  | nil => contradiction
  | cons first rest ih =>
      rw [List.foldl_cons]
      by_cases hrest : ref ∈ rest
      · exact ih (store.modifyAdaptor change first) hrest
      · have hfirst : ref = first := by simpa [hrest] using href
        subst hfirst
        rw [adaptor_foldl_modifyAdaptor change hrest]
        simp only [modifyAdaptor, Function.update_self]
        exact hholds _

theorem adaptor_allocateOps (store : Store g) (ops : List (OperatingPoint g)) :
    (store.allocateOps ops).1.adaptor = store.adaptor ∧
      (store.allocateOps ops).1.nextAdaptor = store.nextAdaptor := by
  induction ops generalizing store with
  | nil => exact ⟨rfl, rfl⟩
  | cons op rest ih => exact ih (store.allocateOp op).1

theorem adaptor_foldl_clearMonitor (store : Store g)
    (handlers : List MonitorRef) :
    (handlers.foldl clearMonitor store).adaptor = store.adaptor ∧
      (handlers.foldl clearMonitor store).nextAdaptor = store.nextAdaptor := by
  induction handlers generalizing store with
  | nil => exact ⟨rfl, rfl⟩
  | cons handler rest ih => exact ih (store.clearMonitor handler)

end Store

namespace Asrtm

/-- What one manager can do to the providers in the store. -/
structure Frame (store : Store g) (m : Asrtm g I (State g P))
    (after : Store g) (next : Asrtm g I (State g P)) : Prop where
  untouched : ∀ ref, ref < store.nextAdaptor →
    ref ∉ m.runtimeInformation.registered →
      after.adaptor ref = store.adaptor ref
  allocated : store.nextAdaptor ≤ after.nextAdaptor
  registered : ∀ ref ∈ next.runtimeInformation.registered,
    ref ∈ m.runtimeInformation.registered ∨
      store.nextAdaptor ≤ ref ∧ ref < after.nextAdaptor

variable {m next : Asrtm g I (State g P)} {store after : Store g}

/-- A method that leaves the providers alone. -/
theorem frame_of_eq (hadaptor : after.adaptor = store.adaptor)
    (hallocated : after.nextAdaptor = store.nextAdaptor)
    (hinformation : next.runtimeInformation = m.runtimeInformation) :
    Frame store m after next where
  untouched := fun ref _ _ => by rw [hadaptor]
  allocated := hallocated.ge
  registered := fun _ href => Or.inl (hinformation ▸ href)

/-- A method that changes the registered providers in place. -/
theorem frame_foldl_modifyAdaptor
    (change : OneSigmaAdaptor g → OneSigmaAdaptor g)
    (hinformation : next.runtimeInformation = m.runtimeInformation) :
    Frame store m (m.runtimeInformation.registered.foldl
      (fun store ref => store.modifyAdaptor change ref) store) next where
  untouched := fun _ _ href =>
    Store.adaptor_foldl_modifyAdaptor change href
  allocated := (Store.nextAdaptor_foldl_modifyAdaptor store change _).ge
  registered := fun _ href => Or.inl (hinformation ▸ href)

theorem Frame.trans {middle : Store g} {between : Asrtm g I (State g P)}
    (hfirst : Frame store m middle between)
    (hsecond : Frame middle between after next) : Frame store m after next where
  untouched := fun ref hbound href => by
    have hnot : ref ∉ between.runtimeInformation.registered := by
      intro hmem
      rcases hfirst.registered ref hmem with hold | ⟨hfresh, -⟩
      · exact href hold
      · exact hbound.not_ge hfresh
    exact (hsecond.untouched ref (hbound.trans_le hfirst.allocated) hnot).trans
      (hfirst.untouched ref hbound href)
  allocated := hfirst.allocated.trans hsecond.allocated
  registered := fun ref href => by
    rcases hsecond.registered ref href with hold | hfresh
    · rcases hfirst.registered ref hold with holder | hfresh
      · exact Or.inl holder
      · exact Or.inr ⟨hfresh.1, hfresh.2.trans_le hsecond.allocated⟩
    · exact Or.inr ⟨hfirst.allocated.trans hfresh.1, hfresh.2⟩

theorem frame_addRuntimeKnowledge (m : Asrtm g I (State g P))
    (store : Store g) (targetField : OPField g)
    (inertia : {n : Nat // 0 < n}) (monitor : MonitorRef) :
    Frame store m (m.addRuntimeKnowledge store targetField inertia monitor).1
      (m.addRuntimeKnowledge store targetField inertia monitor).2 where
  untouched := fun ref hbound _ => Function.update_of_ne hbound.ne _ _
  allocated := Nat.le_succ _
  registered := fun ref href => by
    rcases KnowledgeAdaptor.mem_registered_emplace href with rfl | hold
    · exact Or.inr ⟨le_refl _, Nat.lt_succ_self _⟩
    · exact Or.inl hold

variable [DecidableEq I]

theorem runtimeInformation_onActiveState {change : State g P → State g P}
    (hnext : m.onActiveState change = some next) :
    next.runtimeInformation = m.runtimeInformation := by
  obtain ⟨stateId, -, rfl⟩ := Option.map_eq_some_iff.mp hnext
  rfl

section Calls

variable [HashOrder (OperatingPointPtr g)]

theorem frame_runProblem {call : ProblemCall g I P}
    (hcall : m.runProblem store call = some (after, next)) :
    Frame store m after next := by
  cases call with
  | createNewState newStateId =>
      obtain ⟨rfl, rfl⟩ := Prod.mk.inj (Option.some.inj hcall)
      refine frame_of_eq rfl rfl ?_
      rw [createNewState]
      split <;> rfl
  | removeState stateId =>
      obtain ⟨_, hnext, heq⟩ := Option.map_eq_some_iff.mp hcall
      obtain ⟨rfl, rfl⟩ := Prod.mk.inj heq
      rw [removeState] at hnext
      split at hnext
      · contradiction
      · obtain rfl := Option.some.inj hnext
        exact frame_of_eq rfl rfl rfl
  | changeActiveState stateId =>
      obtain ⟨_, hnext, heq⟩ := Option.map_eq_some_iff.mp hcall
      obtain ⟨rfl, rfl⟩ := Prod.mk.inj heq
      obtain ⟨found, -, rfl⟩ := Option.map_eq_some_iff.mp hnext
      exact frame_of_eq rfl rfl rfl
  | addRuntimeKnowledge targetField inertia monitor =>
      obtain ⟨rfl, rfl⟩ := Prod.mk.inj (Option.some.inj hcall)
      exact frame_addRuntimeKnowledge m store targetField inertia monitor
  | addConstraint targetField sigma goalValue priority =>
      obtain ⟨_, hnext, heq⟩ := Option.map_eq_some_iff.mp hcall
      obtain ⟨rfl, rfl⟩ := Prod.mk.inj heq
      exact frame_of_eq rfl rfl (runtimeInformation_onActiveState hnext)
  | removeConstraint priority =>
      obtain ⟨_, hnext, heq⟩ := Option.map_eq_some_iff.mp hcall
      obtain ⟨rfl, rfl⟩ := Prod.mk.inj heq
      exact frame_of_eq rfl rfl (runtimeInformation_onActiveState hnext)
  | setRank objective evaluate =>
      obtain ⟨_, hnext, heq⟩ := Option.map_eq_some_iff.mp hcall
      obtain ⟨rfl, rfl⟩ := Prod.mk.inj heq
      exact frame_of_eq rfl rfl (runtimeInformation_onActiveState hnext)

/-- Only the evaluation of the error changes providers. -/
theorem frame_findBestConfiguration
    (hfound : m.findBestConfiguration store = some (after, next)) :
    Frame store m after next := by
  obtain ⟨evaluated, hevaluated, hsolved⟩ := Option.bind_eq_some_iff.mp hfound
  have hinformation : after = evaluated ∧
      next.runtimeInformation = m.runtimeInformation := by
    split at hsolved
    · obtain ⟨rfl, rfl⟩ := Prod.mk.inj (Option.some.inj hsolved)
      exact ⟨rfl, rfl⟩
    · obtain ⟨found, -, heq⟩ := Option.map_eq_some_iff.mp hsolved
      obtain ⟨rfl, rfl⟩ := Prod.mk.inj heq
      exact ⟨rfl, rfl⟩
  obtain ⟨rfl, hinformation⟩ := hinformation
  split at hevaluated
  · rw [evaluateError] at hevaluated
    split at hevaluated
    · obtain rfl := Option.some.inj hevaluated
      exact frame_foldl_modifyAdaptor _ hinformation
    · split at hevaluated
      · obtain rfl := Option.some.inj hevaluated
        exact frame_of_eq rfl rfl hinformation
      · contradiction
  · obtain rfl := Option.some.inj hevaluated
    exact frame_of_eq rfl rfl hinformation

theorem frame_runUsage {call : UsageCall g}
    (hcall : m.runUsage store call = some (after, next)) :
    Frame store m after next := by
  cases call with
  | addOperatingPoints opList =>
      obtain ⟨rfl, rfl⟩ := Prod.mk.inj (Option.some.inj hcall)
      have hallocated := Store.adaptor_allocateOps store opList
      exact frame_of_eq hallocated.1 hallocated.2 rfl
  | removeOperatingPoints configurationList =>
      obtain ⟨rfl, rfl⟩ := Prod.mk.inj (Option.some.inj hcall)
      exact frame_of_eq rfl rfl rfl
  | findBestConfiguration => exact frame_findBestConfiguration hcall
  | getBestConfiguration =>
      obtain ⟨found, hbest, heq⟩ := Option.map_eq_some_iff.mp hcall
      obtain ⟨rfl, rfl⟩ := Prod.mk.inj heq
      obtain ⟨proposed, -, rfl⟩ := Option.map_eq_some_iff.mp hbest
      refine frame_of_eq rfl rfl ?_
      split <;> rfl
  | configurationApplied =>
      obtain ⟨rfl, rfl⟩ := Prod.mk.inj (Option.some.inj hcall)
      have hcleared := Store.adaptor_foldl_clearMonitor store m.monitorHandlers
      refine frame_of_eq ?_ ?_ rfl
      · split
        · exact hcleared.1
        · rfl
      · split
        · exact hcleared.2
        · rfl

omit [DecidableEq I] in
theorem frame_setKnowledgeBase (m : Asrtm g I (State g P)) (store : Store g)
    (ops : List (OperatingPoint g)) :
    Frame store m (m.setKnowledgeBase store ops).1
      (m.setKnowledgeBase store ops).2 :=
  frame_of_eq (Store.adaptor_allocateOps store ops).1
    (Store.adaptor_allocateOps store ops).2 rfl

theorem frame_step {before reached : Store g × Asrtm g I (State g P)}
    {action : Action g I P} (hstep : step before action = some reached) :
    Frame before.1 before.2 reached.1 reached.2 := by
  obtain ⟨store, m⟩ := before
  obtain ⟨after, next⟩ := reached
  cases action with
  | problem call => exact frame_runProblem hstep
  | usage call => exact frame_runUsage hstep
  | setSinglePoint point =>
      obtain ⟨rfl, rfl⟩ := Prod.mk.inj (Option.some.inj hstep)
      exact (frame_setKnowledgeBase m store [point]).trans
        (frame_of_eq rfl rfl rfl)
  | setModel model =>
      obtain ⟨rfl, rfl⟩ := Prod.mk.inj (Option.some.inj hstep)
      exact (frame_setKnowledgeBase m store model).trans
        (frame_foldl_modifyAdaptor OneSigmaAdaptor.clearObservations rfl)
  | restoreFromDataFeatureSwitch =>
      obtain ⟨rfl, rfl⟩ := Prod.mk.inj (Option.some.inj hstep)
      exact frame_of_eq rfl rfl rfl
  | changeGoals goalValue =>
      obtain ⟨rfl, rfl⟩ := Prod.mk.inj (Option.some.inj hstep)
      exact frame_of_eq rfl rfl rfl
  | observe monitor =>
      obtain ⟨rfl, rfl⟩ := Prod.mk.inj (Option.some.inj hstep)
      exact frame_of_eq rfl rfl rfl

end Calls

end Asrtm

theorem opUtilsGet_uniform (bound : BoundType) (field : OPField g)
    (sigma : Int) {ptr : OperatingPointPtr g}
    (hptr : ptr.op = OperatingPoint.uniform g 2) :
    opUtilsGet bound field sigma ptr = 2 := by
  have hdata : (field.data ptr.op).mean = 2 ∧
      (field.data ptr.op).standardDeviation = 0 := by
    have hget : ∀ {type : NumericType} {size : Nat} (datum : Data type)
        (index : Fin size), (Vector.replicate size datum).get index = datum :=
      fun datum index => Vector.getElem_replicate index.isLt
    rw [hptr]
    cases field with
    | softwareKnobs index => simp [OPField.data, OperatingPoint.uniform, hget]
    | metrics index => simp [OPField.data, OperatingPoint.uniform, hget]
  cases bound with
  | lower => simp [opUtilsGet, hdata.1, hdata.2]
  | upper => simp [opUtilsGet, hdata.1, hdata.2]

namespace OneSigmaAdaptor

/-- An observation far enough from what the Operating Point promises. -/
theorem compute_uniform (adaptor : OneSigmaAdaptor g)
    {ptr : OperatingPointPtr g} (hptr : ptr.op = OperatingPoint.uniform g 2)
    {coefficient : ℚ} (hzero : coefficient ≠ 0) (hone : coefficient ≠ 1) :
    adaptor.compute ptr (some (2 / coefficient)) = some coefficient := by
  have hdiffer : (2 : ℚ) / coefficient ≠ 2 := by
    intro heq
    have htwo : (2 : ℚ) ≠ 0 := by norm_num
    field_simp at heq
    exact hone heq.symm
  have houtside : (2 : ℚ) < 2 / coefficient ∨ (2 : ℚ) / coefficient < 2 :=
    hdiffer.symm.lt_or_gt
  have hnonzero : (2 : ℚ) / coefficient ≠ 0 := by positivity
  simp only [compute, opUtilsGet_uniform _ _ _ hptr, houtside, if_true,
    hnonzero, ne_eq, not_false_eq_true, add_zero, Option.some.injEq]
  field_simp

/-- A valid observation puts its coefficient into the window. -/
theorem mem_errorWindow_evaluateError (adaptor : OneSigmaAdaptor g)
    {op : OperatingPointPtr g} {observed : Option ℚ} {coefficient : ℚ}
    (hcompute : adaptor.compute op observed = some coefficient) :
    coefficient ∈ (adaptor.evaluateError op observed).errorWindow.toList := by
  rw [evaluateError]
  split
  · next hnone =>
      rw [hnone] at hcompute
      contradiction
  · next found hfound =>
      obtain rfl := Option.some.inj (hfound.symm.trans hcompute)
      exact Vector.mem_toList_iff.mpr (Vector.mem_set adaptor.nextElement.isLt)

end OneSigmaAdaptor

namespace Asrtm

section Evaluation

variable [DecidableEq I] [HashOrder (OperatingPointPtr g)]

theorem exists_find?_createNewState (m : Asrtm g I (State g P))
    (newStateId : I) :
    ∃ s, (m.createNewState newStateId).applicationOptimizers.find?
      newStateId = some s := by
  rw [createNewState]
  split
  · next hexists => exact Option.isSome_iff_exists.mp hexists
  · next hexists =>
      have hnone : m.applicationOptimizers.find? newStateId = none := by
        simpa using hexists
      rw [UnorderedMap.find?_emplace,
        if_pos ⟨rfl, UnorderedMap.find?_eq_none.mp hnone⟩]
      exact ⟨_, rfl⟩

theorem runtimeInformation_createNewState (m : Asrtm g I (State g P))
    (newStateId : I) :
    (m.createNewState newStateId).runtimeInformation =
      m.runtimeInformation := by
  rw [createNewState]
  split <;> rfl

/-- Every manager can be given an active state. -/
theorem exists_active_run [Inhabited I] (store : Store g)
    (m : Asrtm g I (State g P)) :
    ∃ actions next s, runFrom step (store, m) actions = some (store, next) ∧
      next.runtimeInformation = m.runtimeInformation ∧
      next.activeState = some s := by
  obtain ⟨s, hs⟩ := exists_find?_createNewState m default
  refine ⟨[.problem (.createNewState default),
    .problem (.changeActiveState default)],
    { m.createNewState default with currentOptimizer := some default }, s, ?_,
    runtimeInformation_createNewState m default, hs⟩
  simp [runFrom, step, runProblem, changeActiveState, findState, hs]

/-- With an active state, a manager can be brought to use a configuration with
a known value in every field. -/
theorem exists_tuned_run {s : State g P} {store : Store g}
    {m : Asrtm g I (State g P)} (hs : m.activeState = some s) :
    ∃ actions tuned, runFrom step (store, m) actions = some tuned ∧
      tuned.2.runtimeInformation = m.runtimeInformation ∧
      tuned.2.status = .tuned ∧
      (∃ ptr, tuned.2.applicationConfiguration = some ptr ∧
        ptr.op = OperatingPoint.uniform g 2) ∧
      ∃ s, tuned.2.activeState = some s ∧ s.Partition tuned.2.knowledge := by
  let ops := [OperatingPoint.uniform g 2]
  let modelled := m.setModel store ops
  have hmodelled : modelled.2.activeState =
      some (s.setKnowledgeBase modelled.2.knowledge) := by
    have hactive := activeState_setKnowledgeBase m store ops
    rw [hs] at hactive
    exact hactive
  have hpart := State.partition_setKnowledgeBase s modelled.2.knowledge
  have hstatus : modelled.2.status = .withPrediction := rfl
  obtain ⟨found, hfound⟩ := exists_findBestConfiguration 
    hmodelled hpart (if_neg (by rw [hstatus]; decide))
  obtain ⟨solved, proposed, hbest, hsolved, hnext⟩ :=
    findBestConfiguration_eq_some hmodelled hfound
  have hchanged :
      (s.setKnowledgeBase modelled.2.knowledge).problemIsChanged = true := rfl
  obtain ⟨hproposed, hsolvedPart, -⟩ := State.getBestOperatingPoint_isSome hpart
    (fun hflag => absurd (hflag.symm.trans hchanged) Bool.false_ne_true)
    (not_empty_setKnowledgeBase m store (List.cons_ne_nil _ [])) hbest
  obtain ⟨ptr, rfl⟩ := Option.ne_none_iff_exists'.mp hproposed
  have hptr := State.getBestOperatingPoint_mem hpart hchanged hbest
  have hop : ptr.op ∈ ops :=
    op_mem_of_mem_setKnowledgeBase m store hptr
  refine ⟨[.setModel ops, .usage .findBestConfiguration,
    .usage .configurationApplied], found.configurationApplied modelled.1,
    ?_, ?_, ?_, ⟨ptr, ?_, List.mem_singleton.mp hop⟩, solved, hsolved, ?_⟩
  · rw [runFrom_cons_of_step rfl, runFrom_cons_of_step hfound]
    rfl
  · rw [hnext]
    rfl
  · rw [hnext]
    rfl
  · rw [hnext]
    rfl
  · rw [hnext]
    exact hsolvedPart

/-- Some observation makes the evaluation of the error change a registered
provider. -/
theorem exists_evaluation (store : Store g) {m : Asrtm g I (State g P)}
    {s : State g P} {ptr : OperatingPointPtr g} {ref : AdaptorRef}
    (hstatus : m.status = .tuned)
    (hptr : m.applicationConfiguration = some ptr)
    (hop : ptr.op = OperatingPoint.uniform g 2) (hs : m.activeState = some s)
    (hpart : s.Partition m.knowledge)
    (href : ref ∈ m.runtimeInformation.registered) :
    ∃ monitor after, step ({ store with monitor := monitor }, m)
        (.usage .findBestConfiguration) = some after ∧
      after.1.adaptor ref ≠ store.adaptor ref := by
  obtain ⟨coefficient, hfresh⟩ := Infinite.exists_notMem_finset
    (0 :: 1 :: (store.adaptor ref).errorWindow.toList).toFinset
  simp only [List.mem_toFinset, List.mem_cons, not_or] at hfresh
  obtain ⟨hzero, hone, hwindow⟩ := hfresh
  let monitor : MonitorRef → CircularBuffer ℚ := fun _ =>
    ⟨[2 / coefficient], 0, 1⟩
  let observing := { store with monitor := monitor }
  have hobserved : ∀ ref, observing.observed ref = some (2 / coefficient) := by
    intro ref
    simp [Store.observed, observing, monitor, CircularBuffer.average, average]
  have hevaluated : (if m.status = .tuned then m.evaluateError observing
      else some observing) = some (observing.evaluateError m.runtimeInformation
        observing.observed ptr) := by
    rw [if_pos hstatus, evaluateError, hptr]
  obtain ⟨next, hfound⟩ := exists_findBestConfiguration hs hpart hevaluated
  refine ⟨monitor, _, hfound, fun hsame => hwindow ?_⟩
  have hchanged := observing.foldl_modifyAdaptor_of_mem
    (fun adaptor => adaptor.evaluateError ptr
      (observing.observed adaptor.monitor))
    (fun adaptor => coefficient ∈ adaptor.errorWindow.toList)
    (fun adaptor => OneSigmaAdaptor.mem_errorWindow_evaluateError adaptor
      ((hobserved adaptor.monitor).symm ▸
        adaptor.compute_uniform hop hzero hone)) href
  exact hsame ▸ hchanged

end Evaluation

/-- The error windows and coefficients that the manager works with. -/
def providers (m : Asrtm g I (State g P)) (store : Store g) :
    List (OneSigmaAdaptor g) :=
  m.runtimeInformation.registered.map store.adaptor

end Asrtm

/-- The two managers that share a store. -/
inductive Side where
  | original
  | sibling

structure Pair (g : Geometry) (I P : Type) [LinearOrder P] where
  store : Store g
  original : Asrtm g I (State g P)
  sibling : Asrtm g I (State g P)

namespace Pair

/-- The providers of a manager are only its own, and they are allocated. -/
structure Apart (store : Store g) (m other : Asrtm g I (State g P)) : Prop where
  left : ∀ ref ∈ m.runtimeInformation.registered, ref < store.nextAdaptor
  right : ∀ ref ∈ other.runtimeInformation.registered, ref < store.nextAdaptor
  disjoint : ∀ ref ∈ m.runtimeInformation.registered,
    ref ∉ other.runtimeInformation.registered

section Apart

variable {store after : Store g} {m next other : Asrtm g I (State g P)}

theorem Apart.symm (hapart : Apart store m other) : Apart store other m where
  left := hapart.right
  right := hapart.left
  disjoint := fun ref hother hm => hapart.disjoint ref hm hother

/-- The frame rule: the other manager does not notice. -/
theorem Apart.providers_eq (hapart : Apart store m other)
    (hframe : m.Frame store after next) :
    other.providers after = other.providers store := by
  refine List.map_congr_left fun ref href => ?_
  exact hframe.untouched ref (hapart.right ref href)
    fun hm => hapart.disjoint ref hm href

theorem Apart.step (hapart : Apart store m other)
    (hframe : m.Frame store after next) : Apart after next other where
  left := fun ref href => by
    rcases hframe.registered ref href with hold | hfresh
    · exact (hapart.left ref hold).trans_le hframe.allocated
    · exact hfresh.2
  right := fun ref href =>
    (hapart.right ref href).trans_le hframe.allocated
  disjoint := fun ref href hother => by
    rcases hframe.registered ref href with hold | hfresh
    · exact hapart.disjoint ref hold hother
    · exact (hapart.right ref hother).not_ge hfresh.1

end Apart

section Step

variable [DecidableEq I] [HashOrder (OperatingPointPtr g)]

def step (pair : Pair g I P) (taken : Side × Asrtm.Action g I P) :
    Option (Pair g I P) :=
  match taken.1 with
  | .original =>
      (Asrtm.step (pair.store, pair.original) taken.2).map fun world =>
        { pair with store := world.1, original := world.2 }
  | .sibling =>
      (Asrtm.step (pair.store, pair.sibling) taken.2).map fun world =>
        { pair with store := world.1, sibling := world.2 }

/-- A step of one manager leaves the error windows and coefficients of the
other one as they are. -/
def KeepsOther (before : Pair g I P)
    (taken : Side × Asrtm.Action g I P) : Prop :=
  ∀ after, before.step taken = some after →
    match taken.1 with
    | .original => after.sibling.providers after.store =
        before.sibling.providers before.store
    | .sibling => after.original.providers after.store =
        before.original.providers before.store

/-- The steps of the sibling do not need the original. -/
theorem runFrom_sibling {store : Store g} {original m : Asrtm g I (State g P)}
    {actions : List (Asrtm.Action g I P)}
    {reached : Store g × Asrtm g I (State g P)}
    (hrun : runFrom Asrtm.step (store, m) actions = some reached) :
    runFrom step ⟨store, original, m⟩ (actions.map (Prod.mk Side.sibling)) =
      some ⟨reached.1, original, reached.2⟩ := by
  induction actions generalizing store m with
  | nil =>
      obtain rfl := Option.some.inj hrun
      rfl
  | cons action rest ih =>
      obtain ⟨⟨after, next⟩, hstep, hrest⟩ := runFrom_cons_eq_some.mp hrun
      have htaken : step ⟨store, original, m⟩ (Side.sibling, action) =
          some ⟨after, original, next⟩ := by
        simp [step, hstep]
      rw [List.map_cons, runFrom_cons_of_step htaken]
      exact ih hrest

/-- Managers with providers of their own stay apart. -/
theorem apart_step {before after : Pair g I P}
    {taken : Side × Asrtm.Action g I P}
    (hapart : Apart before.store before.original before.sibling)
    (hstep : before.step taken = some after) :
    Apart after.store after.original after.sibling := by
  obtain ⟨side, action⟩ := taken
  cases side with
  | original =>
      obtain ⟨world, hworld, rfl⟩ := Option.map_eq_some_iff.mp hstep
      exact hapart.step (Asrtm.frame_step hworld)
  | sibling =>
      obtain ⟨world, hworld, rfl⟩ := Option.map_eq_some_iff.mp hstep
      exact (hapart.symm.step (Asrtm.frame_step hworld)).symm

theorem keepsOther_of_apart {before : Pair g I P}
    (hapart : Apart before.store before.original before.sibling)
    (taken : Side × Asrtm.Action g I P) : before.KeepsOther taken := by
  obtain ⟨side, action⟩ := taken
  intro after hstep
  cases side with
  | original =>
      obtain ⟨world, hworld, rfl⟩ := Option.map_eq_some_iff.mp hstep
      exact hapart.providers_eq (Asrtm.frame_step hworld)
  | sibling =>
      obtain ⟨world, hworld, rfl⟩ := Option.map_eq_some_iff.mp hstep
      exact hapart.symm.providers_eq (Asrtm.frame_step hworld)

variable [HashOrder I]

/-- The original and its sibling, as `create_sibling` leaves them. -/
def ofSibling (store : Store g) (m : Asrtm g I (State g P)) : Pair g I P :=
  ⟨(m.createSibling store).1, m, (m.createSibling store).2⟩

/-- Creating the sibling leaves the error windows and coefficients of the
original as they are, and afterwards no manager changes those of the other. -/
structure Independent (store : Store g) (m : Asrtm g I (State g P)) :
    Prop where
  unchanged : (ofSibling store m).original.providers (ofSibling store m).store =
    m.providers store
  separate : ∀ actions, AllSteps step KeepsOther (ofSibling store m) actions

/-- With a registered provider, the sibling can be made to change it. -/
theorem not_independent [Inhabited I] {store : Store g}
    {m : Asrtm g I (State g P)} {ref : AdaptorRef}
    (href : ref ∈ m.runtimeInformation.registered) :
    ¬ Independent store m := by
  intro hindependent
  let created := m.createSibling store
  obtain ⟨first, active, s, hfirst, hactiveInformation, hs⟩ :=
    Asrtm.exists_active_run created.1 created.2
  obtain ⟨second, tuned, hsecond, htunedInformation, hstatus,
      ⟨ptr, hptr, hop⟩, solved, hsolved, hpart⟩ := Asrtm.exists_tuned_run hs
  have hregistered : ref ∈ tuned.2.runtimeInformation.registered := by
    rw [htunedInformation, hactiveInformation]
    exact href
  obtain ⟨monitor, after, hevaluated, hdiffer⟩ :=
    Asrtm.exists_evaluation tuned.1 hstatus hptr hop hsolved hpart hregistered
  have hobserve : Asrtm.step tuned (.observe monitor) =
      some ({ tuned.1 with monitor := monitor }, tuned.2) := rfl
  let actions := first ++ (second ++ [.observe monitor])
  have hrun : runFrom Asrtm.step created actions =
      some ({ tuned.1 with monitor := monitor }, tuned.2) := by
    refine runFrom_append_eq_some.mpr ⟨_, hfirst, ?_⟩
    refine runFrom_append_eq_some.mpr ⟨_, hsecond, ?_⟩
    rw [runFrom_cons_of_step hobserve]
    rfl
  have htaken : step ⟨{ tuned.1 with monitor := monitor }, m, tuned.2⟩
      (Side.sibling, .usage .findBestConfiguration) =
        some ⟨after.1, m, after.2⟩ := by
    simp [step, hevaluated]
  have hkeeps := hindependent.separate
    (actions.map (Prod.mk Side.sibling) ++
      [(Side.sibling, .usage .findBestConfiguration)]) _ _ _ _
    List.prefix_rfl (runFrom_sibling hrun) htaken _ htaken
  exact hdiffer (List.map_inj_left.mp hkeeps ref href)

/-- A sibling is independent of its original exactly when the original has no
provider of runtime information. -/
theorem independent_iff [Inhabited I] (store : Store g)
    (m : Asrtm g I (State g P)) :
    Independent store m ↔ m.runtimeInformation.registered = [] := by
  constructor
  · intro hindependent
    by_contra hregistered
    obtain ⟨ref, href⟩ := List.exists_mem_of_ne_nil _ hregistered
    exact not_independent href hindependent
  · intro hnone
    have hstart : Apart (ofSibling store m).store (ofSibling store m).original
        (ofSibling store m).sibling :=
      ⟨by simp [ofSibling, hnone],
        by simp [ofSibling, Asrtm.createSibling, hnone],
        by simp [ofSibling, hnone]⟩
    refine ⟨by simp [ofSibling, Asrtm.providers, hnone], ?_⟩
    intro actions pre taken before after _ hrun _
    exact keepsOther_of_apart (runFrom_kept
      (fun pair : Pair g I P => Apart pair.store pair.original pair.sibling)
      (fun _ _ _ => apart_step) hstart hrun) taken

end Step

/-- A manager that observed a metric of 10 while it expected 5. -/
def evaluating : List (Asrtm.Action Geometry.single Nat Nat) :=
  [.problem (.createNewState 0), .problem (.changeActiveState 0),
    .problem (.addRuntimeKnowledge OPField.single ⟨1, Nat.one_pos⟩ 0),
    .usage (.addOperatingPoints [OperatingPoint.single 1 5]),
    .usage .findBestConfiguration, .usage .configurationApplied,
    .observe fun _ => ⟨[10], 0, 1⟩, .usage .findBestConfiguration]

def evaluated :
    Store Geometry.single × Asrtm Geometry.single Nat (State Geometry.single Nat) :=
  (runFrom Asrtm.step (Store.initial, Asrtm.new) evaluating).get
    (by decide +kernel)

/-- Creating a sibling of that manager resets its error window. -/
theorem not_independent_evaluated :
    ¬ ∀ (store : Store Geometry.single)
      (m : Asrtm Geometry.single Nat (State Geometry.single Nat)),
      Independent store m := by
  intro hall
  have hunchanged := (hall evaluated.1 evaluated.2).unchanged
  have hwindows := congrArg
    (List.map fun adaptor => adaptor.errorWindow.toList) hunchanged
  have hdiffer : ((ofSibling evaluated.1 evaluated.2).original.providers
      (ofSibling evaluated.1 evaluated.2).store).map
        (fun adaptor => adaptor.errorWindow.toList) ≠
      (evaluated.2.providers evaluated.1).map
        fun adaptor => adaptor.errorWindow.toList := by
    decide +kernel
  exact hdiffer hwindows

end Pair

end Margot
