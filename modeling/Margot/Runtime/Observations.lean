/-
The observations in the windows of the monitors of a manager.  Every value is
kept together with the period it was pushed in, where a new period begins with
each call of `configuration_applied` that changes the configuration of the
application, and with the configuration that was applied then.
-/
import Margot.Runtime.Copy
import Margot.Runtime.Sibling
import Margot.Runtime.Within

namespace Margot

variable {g : Geometry} {I P : Type}

namespace CircularBuffer

/-- Where the next value goes: to the end while there is room, then in place of
the oldest one. -/
def place {A : Type} (window : CircularBuffer ℚ) (elements : List A)
    (newValue : A) : List A :=
  if window.buffer.length < window.maximumNumberElement then
    elements ++ [newValue]
  else elements.set window.nextElement newValue

theorem buffer_push {window next : CircularBuffer ℚ} {newValue : ℚ}
    (hpush : window.push newValue = some next) :
    next.buffer = window.place window.buffer newValue := by
  rw [push] at hpush
  split at hpush
  · next hroom =>
      obtain rfl := Option.some.inj hpush
      rw [place, if_pos hroom]
  · next hfull =>
      split at hpush
      · obtain rfl := Option.some.inj hpush
        rw [place, if_neg hfull]
      · contradiction

theorem map_place {A B : Type} (window : CircularBuffer ℚ) (f : A → B)
    (elements : List A) (newValue : A) :
    (window.place elements newValue).map f =
      window.place (elements.map f) (f newValue) := by
  rw [place, place]
  split
  · rw [List.map_append, List.map_singleton]
  · exact List.map_set

theorem mem_place {A : Type} {window : CircularBuffer ℚ} {elements : List A}
    {newValue a : A} (ha : a ∈ window.place elements newValue) :
    a ∈ elements ∨ a = newValue := by
  rw [place] at ha
  split at ha
  · simpa using ha
  · exact List.mem_or_eq_of_mem_set ha

end CircularBuffer

/-- A value of a window, with the period and the configuration it was observed
in. -/
structure Observation (g : Geometry) where
  value : ℚ
  period : Nat
  configuration : Option (OperatingPointPtr g)

/-- What happens to a manager and to its monitors. -/
inductive Event (g : Geometry) (I P : Type) where
  | problem (call : Asrtm.ProblemCall g I P)
  | usage (call : Asrtm.UsageCall g)
  | addOperatingPointPtrs (opList : OPStream g)
  | setSinglePoint (point : OperatingPoint g)
  | setModel (model : List (OperatingPoint g))
  | restoreFromDataFeatureSwitch
  | setAutotunerInDse
  | changeGoals (goalValue : GoalRef → ℚ)
  | push (monitor : MonitorRef) (newValue : ℚ)

/-- The Operating Points that the event brings as pointers. -/
def Event.pointers : Event g I P → OPStream g
  | .addOperatingPointPtrs opList => opList
  | _ => []

/-- A manager with the history of what is in the windows. -/
structure Tracked (g : Geometry) (I P : Type) [LinearOrder P] where
  store : Store g
  manager : Asrtm g I (State g P)
  period : Nat
  window : MonitorRef → List (Observation g)

namespace Tracked

section Step

variable [DecidableEq I] [LinearOrder P]

def start (store : Store g) : Tracked g I P where
  store := store
  manager := Asrtm.new
  period := 0
  window := fun monitor =>
    (store.monitor monitor).buffer.map fun value => ⟨value, 0, none⟩

/-- After a call that concerns no window. -/
def returning (t : Tracked g I P) (world : Store g × Asrtm g I (State g P)) :
    Tracked g I P :=
  { t with store := world.1, manager := world.2 }

def configurationApplied (t : Tracked g I P) : Tracked g I P :=
  let applied := t.manager.configurationApplied t.store
  let changes : Prop := t.manager.applicationConfiguration ≠
    t.manager.proposedBestConfiguration
  { store := applied.1
    manager := applied.2
    period := if changes then t.period + 1 else t.period
    window :=
      if changes ∧ t.manager.status ≠ .designSpaceExploration then
        fun monitor =>
          if monitor ∈ t.manager.monitorHandlers then [] else t.window monitor
      else t.window }

variable [HashOrder (OperatingPointPtr g)]

/-- A monitor is only registered while its window is empty. -/
def step (t : Tracked g I P) : Event g I P → Option (Tracked g I P)
  | .problem (.addRuntimeKnowledge targetField inertia monitor) =>
      if (t.store.monitor monitor).buffer = [] then
        some (t.returning (t.manager.addRuntimeKnowledge t.store targetField
          inertia monitor))
      else none
  | .problem call => (t.manager.runProblem t.store call).map t.returning
  | .usage .configurationApplied => some t.configurationApplied
  | .usage call => (t.manager.runUsage t.store call).map t.returning
  | .addOperatingPointPtrs opList =>
      some (t.returning (t.store, t.manager.addOperatingPointPtrs opList))
  | .setSinglePoint point =>
      some (t.returning (t.manager.setSinglePoint t.store point))
  | .setModel model => some (t.returning (t.manager.setModel t.store model))
  | .restoreFromDataFeatureSwitch =>
      some (t.returning (t.store, t.manager.restoreFromDataFeatureSwitch))
  | .setAutotunerInDse =>
      some (t.returning (t.store,
        { t.manager with status := .designSpaceExploration }))
  | .changeGoals goalValue =>
      some (t.returning ({ t.store with goalValue := goalValue }, t.manager))
  | .push monitor newValue =>
      ((t.store.monitor monitor).push newValue).map fun pushed =>
        { t with
          store := { t.store with
            monitor := Function.update t.store.monitor monitor pushed }
          window := Function.update t.window monitor
            ((t.store.monitor monitor).place (t.window monitor)
              ⟨newValue, t.period, t.manager.applicationConfiguration⟩) }

end Step

section Properties

variable [LinearOrder P]

/-- The registered monitors hold only observations of the current period. -/
def Clean (t : Tracked g I P) : Prop :=
  ∀ monitor ∈ t.manager.monitorHandlers, ∀ observation ∈ t.window monitor,
    observation.period = t.period

/-- The history tells what is in the windows.  In a tuned manager every value
in a window of a registered monitor was pushed after the last change of the
configuration, and every value that a provider looks at was observed under the
configuration that it is compared with. -/
structure Unmixed (t : Tracked g I P) : Prop where
  values : ∀ monitor, (t.window monitor).map Observation.value =
    (t.store.monitor monitor).buffer
  current : t.manager.status = .tuned → t.Clean
  compared : t.manager.status = .tuned →
    ∀ ref ∈ t.manager.runtimeInformation.registered,
    ∀ observation ∈ t.window (t.store.adaptor ref).monitor,
    ∀ op, t.manager.applicationConfiguration = some op →
      observation.configuration = some op

/-- When `configuration_applied` is called outside of the exploration for the
configuration that is applied already, the windows hold no observation of an
earlier period. -/
def AppliesClean (t : Tracked g I P) : Event g I P → Prop
  | .usage .configurationApplied =>
      t.manager.status ≠ .designSpaceExploration →
        t.manager.applicationConfiguration =
          t.manager.proposedBestConfiguration → t.Clean
  | _ => True

/-- Nothing is both applied and proposed while the windows hold observations of an
earlier period: not the null configuration, and no Operating Point that is
brought back by its pointer. -/
def BringsNothingBack (t : Tracked g I P) : Event g I P → Prop
  | .usage .configurationApplied =>
      t.manager.status ≠ .designSpaceExploration →
        t.manager.applicationConfiguration = none →
        t.manager.proposedBestConfiguration = none → t.Clean
  | .addOperatingPointPtrs opList =>
      ∀ op ∈ opList, op.address < t.store.nextAddress ∧
        (t.manager.status ≠ .designSpaceExploration → ¬ t.Clean →
          t.manager.applicationConfiguration ≠ some op)
  | _ => True

end Properties

end Tracked

theorem OneSigmaAdaptor.monitor_clearObservations
    (adaptor : OneSigmaAdaptor g) :
    adaptor.clearObservations.monitor = adaptor.monitor := rfl

namespace Store

/-- The monitors are as they were, and every provider looks at the same one. -/
structure Kept (before after : Store g) : Prop where
  monitor : after.monitor = before.monitor
  nextAdaptor : after.nextAdaptor = before.nextAdaptor
  watches : ∀ ref, (after.adaptor ref).monitor = (before.adaptor ref).monitor
  nextAddress : before.nextAddress ≤ after.nextAddress

theorem Kept.refl (store : Store g) : store.Kept store :=
  ⟨rfl, rfl, fun _ => rfl, le_refl _⟩

theorem Kept.trans {first second third : Store g} (hfirst : first.Kept second)
    (hsecond : second.Kept third) : first.Kept third :=
  ⟨hsecond.monitor.trans hfirst.monitor,
    hsecond.nextAdaptor.trans hfirst.nextAdaptor,
    fun ref => (hsecond.watches ref).trans (hfirst.watches ref),
    hfirst.nextAddress.trans hsecond.nextAddress⟩

theorem kept_allocateOps (store : Store g) (ops : List (OperatingPoint g)) :
    store.Kept (store.allocateOps ops).1 := by
  induction ops generalizing store with
  | nil => exact Kept.refl store
  | cons op rest ih =>
      have hone : store.Kept (store.allocateOp op).1 :=
        ⟨rfl, rfl, fun _ => rfl, Nat.le_succ _⟩
      exact hone.trans (ih _)

/-- New objects are where no object was before. -/
theorem fresh_allocateOps (store : Store g) (ops : List (OperatingPoint g)) :
    ∀ op ∈ (store.allocateOps ops).2, store.nextAddress ≤ op.address ∧
      op.address < (store.allocateOps ops).1.nextAddress := by
  induction ops generalizing store with
  | nil => exact fun _ => nofun
  | cons op rest ih =>
      intro ptr hptr
      have hkept := kept_allocateOps (store.allocateOp op).1 rest
      rcases List.mem_cons.mp hptr with rfl | hrest
      · exact ⟨le_refl _, hkept.nextAddress⟩
      · obtain ⟨hle, hlt⟩ := ih _ ptr hrest
        exact ⟨(Nat.le_succ _).trans hle, hlt⟩

theorem kept_modifyAdaptor (store : Store g)
    {change : OneSigmaAdaptor g → OneSigmaAdaptor g}
    (hchange : ∀ adaptor, (change adaptor).monitor = adaptor.monitor)
    (ref : AdaptorRef) : store.Kept (store.modifyAdaptor change ref) := by
  refine ⟨rfl, rfl, fun other => ?_, le_refl _⟩
  simp only [modifyAdaptor, Function.update_apply]
  split
  · next heq => rw [hchange, heq]
  · rfl

/-- A change of the registered providers that leaves their monitors. -/
theorem kept_foldl_modifyAdaptor (store : Store g)
    {change : OneSigmaAdaptor g → OneSigmaAdaptor g}
    (hchange : ∀ adaptor, (change adaptor).monitor = adaptor.monitor)
    (refs : List AdaptorRef) :
    store.Kept (refs.foldl (fun store ref => store.modifyAdaptor change ref)
      store) := by
  induction refs generalizing store with
  | nil => exact Kept.refl store
  | cons ref rest ih =>
      exact (store.kept_modifyAdaptor hchange ref).trans (ih _)

theorem adaptor_clearAll (store : Store g) (handlers : List MonitorRef) :
    (handlers.foldl clearMonitor store).adaptor = store.adaptor ∧
      (handlers.foldl clearMonitor store).nextAdaptor = store.nextAdaptor ∧
      (handlers.foldl clearMonitor store).nextAddress = store.nextAddress := by
  induction handlers generalizing store with
  | nil => exact ⟨rfl, rfl, rfl⟩
  | cons handler rest ih => exact ih (store.clearMonitor handler)

theorem kept_resetAdaptors (store : Store g)
    (information : KnowledgeAdaptor g) :
    store.Kept (store.resetAdaptors information) :=
  store.kept_foldl_modifyAdaptor OneSigmaAdaptor.monitor_clearObservations _

theorem kept_evaluateError (store : Store g) (information : KnowledgeAdaptor g)
    (observed : MonitorRef → Option ℚ) (currentOp : OperatingPointPtr g) :
    store.Kept (store.evaluateError information observed currentOp) :=
  store.kept_foldl_modifyAdaptor
    (fun adaptor => adaptor.monitor_evaluateError currentOp _) _

theorem monitor_clearAll (store : Store g) (handlers : List MonitorRef)
    (monitor : MonitorRef) :
    ((handlers.foldl clearMonitor store).monitor monitor).buffer =
      if monitor ∈ handlers then [] else (store.monitor monitor).buffer := by
  induction handlers generalizing store with
  | nil => rfl
  | cons handler rest ih =>
      rw [List.foldl_cons, ih]
      by_cases hrest : monitor ∈ rest
      · rw [if_pos hrest, if_pos (List.mem_cons_of_mem _ hrest)]
      · simp only [if_neg hrest, clearMonitor, Function.update_apply]
        by_cases heq : monitor = handler
        · rw [if_pos heq, if_pos (heq ▸ List.mem_cons_self)]
          rfl
        · have hnot : monitor ∉ handler :: rest := by
            simp [heq, hrest]
          rw [if_neg heq, if_neg hnot]

end Store

namespace Asrtm

variable [DecidableEq I] [LinearOrder P] {m next : Asrtm g I (State g P)}
  {store after : Store g}

omit [DecidableEq I] in
theorem kept_evaluateError (hafter : m.evaluateError store = some after) :
    store.Kept after := by
  rw [evaluateError] at hafter
  split at hafter
  · obtain rfl := Option.some.inj hafter
    exact store.kept_evaluateError _ _ _
  · split at hafter
    · obtain rfl := Option.some.inj hafter
      exact .refl store
    · contradiction

/-- What a call has to leave for the history to go on. -/
structure Follows (store after : Store g) (m next : Asrtm g I (State g P)) :
    Prop where
  kept : store.Kept after
  runtimeInformation : next.runtimeInformation = m.runtimeInformation
  monitorHandlers : next.monitorHandlers = m.monitorHandlers
  applied : ∀ op, next.applicationConfiguration = some op →
    m.applicationConfiguration = some op
  tuned : next.status = .tuned → m.status = .tuned

variable [HashOrder (OperatingPointPtr g)]

theorem follows_runProblem {call : ProblemCall g I P}
    (hother : ∀ targetField inertia monitor,
      call ≠ .addRuntimeKnowledge targetField inertia monitor)
    (hcall : m.runProblem store call = some (after, next)) :
    Follows store after m next ∧ next.status = m.status := by
  have hsame : ∀ {changed : Asrtm g I (State g P)},
      changed.runtimeInformation = m.runtimeInformation →
      changed.monitorHandlers = m.monitorHandlers →
      changed.applicationConfiguration = m.applicationConfiguration →
      changed.status = m.status →
      Follows store store m changed ∧ changed.status = m.status := by
    intro changed hinformation hhandlers happlied hstatus
    exact ⟨⟨.refl store, hinformation, hhandlers, fun op hop => happlied ▸ hop,
      fun htuned => hstatus ▸ htuned⟩, hstatus⟩
  cases call with
  | createNewState newStateId =>
      obtain ⟨rfl, rfl⟩ := Prod.mk.inj (Option.some.inj hcall)
      rw [createNewState]
      split <;> exact hsame rfl rfl rfl rfl
  | removeState stateId =>
      obtain ⟨_, hnext, heq⟩ := Option.map_eq_some_iff.mp hcall
      obtain ⟨rfl, rfl⟩ := Prod.mk.inj heq
      rw [removeState] at hnext
      split at hnext
      · contradiction
      · obtain rfl := Option.some.inj hnext
        exact hsame rfl rfl rfl rfl
  | changeActiveState stateId =>
      obtain ⟨_, hnext, heq⟩ := Option.map_eq_some_iff.mp hcall
      obtain ⟨rfl, rfl⟩ := Prod.mk.inj heq
      obtain ⟨found, -, rfl⟩ := Option.map_eq_some_iff.mp hnext
      exact hsame rfl rfl rfl rfl
  | addRuntimeKnowledge targetField inertia monitor =>
      exact absurd rfl (hother targetField inertia monitor)
  | addConstraint targetField sigma goalValue priority =>
      obtain ⟨_, hnext, heq⟩ := Option.map_eq_some_iff.mp hcall
      obtain ⟨rfl, rfl⟩ := Prod.mk.inj heq
      obtain ⟨active, -, rfl⟩ := Option.map_eq_some_iff.mp hnext
      exact hsame rfl rfl rfl rfl
  | removeConstraint priority =>
      obtain ⟨_, hnext, heq⟩ := Option.map_eq_some_iff.mp hcall
      obtain ⟨rfl, rfl⟩ := Prod.mk.inj heq
      obtain ⟨active, -, rfl⟩ := Option.map_eq_some_iff.mp hnext
      exact hsame rfl rfl rfl rfl
  | setRank objective evaluate =>
      obtain ⟨_, hnext, heq⟩ := Option.map_eq_some_iff.mp hcall
      obtain ⟨rfl, rfl⟩ := Prod.mk.inj heq
      obtain ⟨active, -, rfl⟩ := Option.map_eq_some_iff.mp hnext
      exact hsame rfl rfl rfl rfl

/-- Finding a configuration changes no monitor and no status. -/
theorem follows_findBestConfiguration
    (hfound : m.findBestConfiguration store = some (after, next)) :
    Follows store after m next ∧ next.status = m.status := by
  rw [findBestConfiguration] at hfound
  obtain ⟨evaluated, hevaluated, hfound⟩ := Option.bind_eq_some_iff.mp hfound
  have hkept : store.Kept evaluated := by
    split at hevaluated
    · exact kept_evaluateError hevaluated
    · obtain rfl := Option.some.inj hevaluated
      exact .refl store
  split at hfound
  · obtain ⟨rfl, rfl⟩ := Prod.mk.inj (Option.some.inj hfound)
    exact ⟨⟨hkept, rfl, rfl, fun _ => id, id⟩, rfl⟩
  · obtain ⟨⟨solved, best⟩, -, heq⟩ := Option.map_eq_some_iff.mp hfound
    obtain ⟨rfl, rfl⟩ := Prod.mk.inj heq
    exact ⟨⟨hkept, rfl, rfl, fun _ => id, id⟩, rfl⟩

omit [DecidableEq I] [HashOrder (OperatingPointPtr g)] in
/-- Handing out the proposed configuration may make the manager uncertain. -/
theorem follows_getBestConfiguration (store : Store g)
    {configuration : Vector ℚ _} {changed : Bool}
    (hfound : m.getBestConfiguration = some (configuration, changed, next)) :
    Follows store store m next ∧
      (next.status ≠ .designSpaceExploration →
        m.status ≠ .designSpaceExploration) ∧
      next.applicationOptimizers = m.applicationOptimizers ∧
      next.knowledge = m.knowledge ∧
      next.proposedBestConfiguration = m.proposedBestConfiguration := by
  obtain ⟨proposed, -, heq⟩ := Option.map_eq_some_iff.mp hfound
  split at heq
  · obtain ⟨-, -, rfl⟩ := heq
    refine ⟨⟨.refl store, rfl, rfl, fun _ => id, fun htuned => ?_⟩,
      fun hstatus hexploring => ?_, rfl, rfl, rfl⟩
    · simp only [ApplicationStatus.unlessExploring] at htuned
      split at htuned <;> contradiction
    · simp [ApplicationStatus.unlessExploring, hexploring] at hstatus
  · obtain ⟨-, -, rfl⟩ := heq
    exact ⟨⟨.refl store, rfl, rfl, fun _ => id, id⟩, id, rfl, rfl, rfl⟩

/-- The Operating Points that a call brings are new objects or those given as
pointers.  They are added to the others, or they replace them all. -/
structure Brings (m : Asrtm g I (State g P)) (store after : Store g)
    (next : Asrtm g I (State g P)) (pointers : OPStream g)
    (ops : Set (OperatingPointPtr g)) : Prop where
  source : ∀ op ∈ ops, op ∈ pointers ∨
    store.nextAddress ≤ op.address ∧ op.address < after.nextAddress
  within : ((next.status ≠ .designSpaceExploration →
        m.status ≠ .designSpaceExploration) ∧
      ∀ known, m.Within known → next.Within (known ∪ ops)) ∨
    (pointers = [] ∧ next.Within ops)

omit [HashOrder (OperatingPointPtr g)] in
theorem brings_nothing {pointers : OPStream g}
    (hwithin : ∀ known, m.Within known → next.Within known)
    (hstatus : next.status ≠ .designSpaceExploration →
      m.status ≠ .designSpaceExploration) :
    m.Brings store after next pointers ∅ where
  source := fun _ => nofun
  within := .inl ⟨hstatus, fun known hknown =>
    (hwithin known hknown).of_subset Set.subset_union_left⟩

end Asrtm

namespace Tracked

section Invariant

variable [LinearOrder P]

/-- The history is that of the windows, and every registered provider looks at
a registered monitor. -/
structure Recorded (t : Tracked g I P) : Prop where
  values : ∀ monitor, (t.window monitor).map Observation.value =
    (t.store.monitor monitor).buffer
  providers : ∀ ref ∈ t.manager.runtimeInformation.registered,
    ref < t.store.nextAdaptor ∧
      (t.store.adaptor ref).monitor ∈ t.manager.monitorHandlers
  periods : ∀ monitor, ∀ observation ∈ t.window monitor,
    observation.period ≤ t.period
  configurations : ∀ monitor, ∀ observation ∈ t.window monitor,
    observation.period = t.period → ∀ op,
    t.manager.applicationConfiguration = some op →
      observation.configuration = some op

/-- The windows of a sound manager hold what the history says, and in a tuned
one nothing of an earlier period. -/
structure Sound (t : Tracked g I P) : Prop where
  recorded : t.Recorded
  tuned : t.manager.status = .tuned → t.Clean

theorem unmixed_of_sound {t : Tracked g I P} (hsound : t.Sound) :
    t.Unmixed := by
  refine ⟨hsound.recorded.values, hsound.tuned, ?_⟩
  intro htuned ref href observation hmem
  have hregistered := (hsound.recorded.providers ref href).2
  exact hsound.recorded.configurations _ observation hmem
    (hsound.tuned htuned _ hregistered observation hmem)

theorem sound_start (store : Store g) :
    (start store : Tracked g I P).Sound where
  recorded := by
    refine ⟨fun monitor => ?_, fun ref href => ?_, ?_, fun _ _ _ _ _ => nofun⟩
    · simp [start, List.map_map, Function.comp_def]
    · simp [start, Asrtm.new, KnowledgeAdaptor.mem_registered,
        KnowledgeAdaptor.new] at href
    · intro monitor observation hmem
      obtain ⟨value, -, rfl⟩ := List.mem_map.mp hmem
      exact le_refl _
  tuned := nofun

variable {t : Tracked g I P} {world : Store g × Asrtm g I (State g P)}

theorem clean_returning
    (hfollows : Asrtm.Follows t.store world.1 t.manager world.2) :
    (t.returning world).Clean ↔ t.Clean := by
  rw [Clean, Clean, returning, hfollows.monitorHandlers]

theorem recorded_returning (hrecorded : t.Recorded)
    (hfollows : Asrtm.Follows t.store world.1 t.manager world.2) :
    (t.returning world).Recorded where
  values := fun monitor => (hrecorded.values monitor).trans
    (congrArg _ (congrFun hfollows.kept.monitor monitor).symm)
  providers := by
    intro ref href
    have hbefore := hrecorded.providers ref
      (hfollows.runtimeInformation ▸ href)
    refine ⟨hfollows.kept.nextAdaptor ▸ hbefore.1, ?_⟩
    change (world.1.adaptor ref).monitor ∈ world.2.monitorHandlers
    rw [hfollows.kept.watches, hfollows.monitorHandlers]
    exact hbefore.2
  periods := hrecorded.periods
  configurations := fun monitor observation hmem hperiod op happlied =>
    hrecorded.configurations monitor observation hmem hperiod op
      (hfollows.applied op happlied)

theorem sound_returning (hsound : t.Sound)
    (hfollows : Asrtm.Follows t.store world.1 t.manager world.2) :
    (t.returning world).Sound where
  recorded := recorded_returning hsound.recorded hfollows
  tuned := fun htuned =>
    (clean_returning hfollows).mpr (hsound.tuned (hfollows.tuned htuned))

end Invariant

section Steps

variable [LinearOrder P] {t next : Tracked g I P}

/-- The monitor with an empty window that is registered is as clean as the
others are. -/
theorem clean_addRuntimeKnowledge (hrecorded : t.Recorded)
    (targetField : OPField g) (inertia : {n : Nat // 0 < n})
    {monitor : MonitorRef} (hempty : (t.store.monitor monitor).buffer = []) :
    (t.returning (t.manager.addRuntimeKnowledge t.store targetField inertia
      monitor)).Clean ↔ t.Clean := by
  have hwindow : t.window monitor = [] := by
    have hvalues := hrecorded.values monitor
    rw [hempty] at hvalues
    exact List.map_eq_nil_iff.mp hvalues
  have hsame : (t.returning (t.manager.addRuntimeKnowledge t.store
      targetField inertia monitor)).Clean ↔
      ∀ other ∈ t.manager.monitorHandlers ++ [monitor],
        ∀ observation ∈ t.window other, observation.period = t.period :=
    Iff.rfl
  rw [hsame, List.forall_mem_append, List.forall_mem_singleton, hwindow]
  exact and_iff_left (List.forall_mem_nil _)

/-- A monitor with an empty window is registered. -/
theorem sound_addRuntimeKnowledge (hsound : t.Sound) (targetField : OPField g)
    (inertia : {n : Nat // 0 < n}) {monitor : MonitorRef}
    (hempty : (t.store.monitor monitor).buffer = []) :
    (t.returning (t.manager.addRuntimeKnowledge t.store targetField inertia
      monitor)).Sound := by
  obtain ⟨hrecorded, htuned⟩ := hsound
  have hclean := clean_addRuntimeKnowledge hrecorded targetField inertia hempty
  refine ⟨⟨hrecorded.values, fun ref href => ?_, hrecorded.periods,
    hrecorded.configurations⟩, fun hstatus => hclean.mpr (htuned hstatus)⟩
  rcases KnowledgeAdaptor.mem_registered_emplace href with rfl | hold
  · refine ⟨Nat.lt_succ_self _, List.mem_append_right _ ?_⟩
    simp [returning, Asrtm.addRuntimeKnowledge, Store.allocateAdaptor,
      OneSigmaAdaptor.new]
  · obtain ⟨hlt, hregistered⟩ := hrecorded.providers ref hold
    refine ⟨hlt.trans (Nat.lt_succ_self _), List.mem_append_left _ ?_⟩
    have hne : ref ≠ t.store.nextAdaptor := hlt.ne
    simpa [returning, Asrtm.addRuntimeKnowledge, Store.allocateAdaptor, hne]
      using hregistered

/-- The manager and the history after a value has been pushed. -/
def pushed (t : Tracked g I P) (monitor : MonitorRef) (newValue : ℚ)
    (buffer : CircularBuffer ℚ) : Tracked g I P :=
  { t with
    store := { t.store with
      monitor := Function.update t.store.monitor monitor buffer }
    window := Function.update t.window monitor
      ((t.store.monitor monitor).place (t.window monitor)
        ⟨newValue, t.period, t.manager.applicationConfiguration⟩) }

section Push

variable {monitor other : MonitorRef} {newValue : ℚ} {buffer : CircularBuffer ℚ}
  {observation : Observation g}

theorem mem_window_pushed
    (hmem : observation ∈ (t.pushed monitor newValue buffer).window other) :
    observation ∈ t.window other ∨ observation =
      ⟨newValue, t.period, t.manager.applicationConfiguration⟩ := by
  simp only [pushed, Function.update_apply] at hmem
  split at hmem
  · next heq =>
      subst heq
      exact CircularBuffer.mem_place hmem
  · exact .inl hmem

/-- What is pushed belongs to the current period. -/
theorem clean_pushed (hclean : t.Clean) :
    (t.pushed monitor newValue buffer).Clean := by
  intro other hother observation hobservation
  rcases mem_window_pushed hobservation with hold | rfl
  · exact hclean other hother observation hold
  · rfl

/-- What is pushed was observed under the current configuration. -/
theorem sound_pushed (hsound : t.Sound)
    (hpush : (t.store.monitor monitor).push newValue = some buffer) :
    (t.pushed monitor newValue buffer).Sound := by
  obtain ⟨hrecorded, htuned⟩ := hsound
  refine ⟨⟨fun other => ?_, hrecorded.providers, ?_, ?_⟩,
    fun hstatus => clean_pushed (htuned hstatus)⟩
  · simp only [pushed, Function.update_apply]
    split
    · next heq =>
        subst heq
        rw [CircularBuffer.buffer_push hpush, CircularBuffer.map_place,
          hrecorded.values]
    · exact hrecorded.values other
  · intro other observation hobservation
    rcases mem_window_pushed hobservation with hold | rfl
    · exact hrecorded.periods other observation hold
    · exact le_refl _
  · intro other observation hobservation hperiod op happlied
    rcases mem_window_pushed hobservation with hold | rfl
    · exact hrecorded.configurations other observation hold hperiod op happlied
    · exact happlied

end Push

section Applied

/-- The proposed configuration is already applied. -/
theorem configurationApplied_of_same
    (hsame : t.manager.applicationConfiguration =
      t.manager.proposedBestConfiguration) :
    t.configurationApplied = { t with
      manager := { t.manager with
        status := t.manager.status.unlessExploring .tuned } } := by
  simp [configurationApplied, Asrtm.configurationApplied, hsame]

theorem configurationApplied_of_exploring
    (hchanges : t.manager.applicationConfiguration ≠
      t.manager.proposedBestConfiguration)
    (hexploring : t.manager.status = .designSpaceExploration) :
    t.configurationApplied = { t with
      manager := { t.manager with
        applicationConfiguration := t.manager.proposedBestConfiguration }
      period := t.period + 1 } := by
  simp [configurationApplied, Asrtm.configurationApplied, hchanges,
    hexploring, ApplicationStatus.unlessExploring]

theorem configurationApplied_of_changes
    (hchanges : t.manager.applicationConfiguration ≠
      t.manager.proposedBestConfiguration)
    (hstatus : t.manager.status ≠ .designSpaceExploration) :
    t.configurationApplied =
      { store := t.manager.monitorHandlers.foldl Store.clearMonitor t.store
        manager := { t.manager with
          applicationConfiguration := t.manager.proposedBestConfiguration
          status := .tuned }
        period := t.period + 1
        window := fun monitor =>
          if monitor ∈ t.manager.monitorHandlers then []
          else t.window monitor } := by
  simp [configurationApplied, Asrtm.configurationApplied, hchanges, hstatus,
    ApplicationStatus.unlessExploring]

/-- Outside of the exploration another configuration leaves empty windows. -/
theorem clean_configurationApplied
    (hchanges : t.manager.applicationConfiguration ≠
      t.manager.proposedBestConfiguration)
    (hstatus : t.manager.status ≠ .designSpaceExploration) :
    t.configurationApplied.Clean := by
  rw [configurationApplied_of_changes hchanges hstatus]
  intro monitor hmonitor observation hobservation
  simp only at hmonitor hobservation
  rw [if_pos hmonitor] at hobservation
  contradiction

theorem ne_exploring_of_unlessExploring {status next : ApplicationStatus}
    (hnext : status.unlessExploring next ≠ .designSpaceExploration) :
    status ≠ .designSpaceExploration := by
  rintro rfl
  exact hnext rfl

theorem sound_applied_same (hsound : t.Sound)
    (hsame : t.manager.applicationConfiguration =
      t.manager.proposedBestConfiguration)
    (hclean : t.manager.status ≠ .designSpaceExploration → t.Clean) :
    t.configurationApplied.Sound := by
  rw [configurationApplied_of_same hsame]
  refine ⟨⟨hsound.recorded.values, hsound.recorded.providers,
    hsound.recorded.periods, hsound.recorded.configurations⟩, fun htuned => ?_⟩
  have hkept : t.manager.status.unlessExploring .tuned = .tuned := htuned
  apply hclean
  apply ne_exploring_of_unlessExploring
  rw [hkept]
  exact nofun

/-- During the exploration another configuration begins a period, whatever is
in the windows. -/
theorem sound_applied_exploring (hsound : t.Sound)
    (hchanges : t.manager.applicationConfiguration ≠
      t.manager.proposedBestConfiguration)
    (hexploring : t.manager.status = .designSpaceExploration) :
    t.configurationApplied.Sound := by
  obtain ⟨hrecorded, -⟩ := hsound
  rw [configurationApplied_of_exploring hchanges hexploring]
  refine ⟨⟨hrecorded.values, hrecorded.providers, ?_, ?_⟩, fun htuned => ?_⟩
  · intro monitor observation hmem
    exact (hrecorded.periods monitor observation hmem).trans (Nat.le_succ _)
  · intro monitor observation hmem hperiod
    have hle := hrecorded.periods monitor observation hmem
    simp only at hperiod
    omega
  · rw [show t.manager.status = .tuned from htuned] at hexploring
    contradiction

/-- Outside of the exploration another configuration begins a period with empty
windows. -/
theorem sound_applied_cleared (hsound : t.Sound)
    (hchanges : t.manager.applicationConfiguration ≠
      t.manager.proposedBestConfiguration)
    (hstatus : t.manager.status ≠ .designSpaceExploration) :
    t.configurationApplied.Sound := by
  obtain ⟨hrecorded, -⟩ := hsound
  refine ⟨?_, fun _ => clean_configurationApplied hchanges hstatus⟩
  have hmem : ∀ {monitor : MonitorRef} {observation : Observation g},
      observation ∈ (if monitor ∈ t.manager.monitorHandlers then []
        else t.window monitor) → observation ∈ t.window monitor := by
    intro monitor observation hmem
    split at hmem
    · contradiction
    · exact hmem
  obtain ⟨hadaptor, hnextAdaptor, -⟩ :=
    t.store.adaptor_clearAll t.manager.monitorHandlers
  rw [configurationApplied_of_changes hchanges hstatus]
  refine ⟨fun monitor => ?_, fun ref href => ?_, ?_, ?_⟩
  · simp only [Store.monitor_clearAll]
    split
    · rfl
    · exact hrecorded.values monitor
  · simp only [hadaptor, hnextAdaptor]
    exact hrecorded.providers ref href
  · intro monitor observation hobservation
    exact (hrecorded.periods monitor observation (hmem hobservation)).trans
      (Nat.le_succ _)
  · intro monitor observation hobservation hperiod
    have hle := hrecorded.periods monitor observation (hmem hobservation)
    simp only at hperiod
    omega

end Applied

variable [DecidableEq I] [HashOrder (OperatingPointPtr g)]

/-- What an event does to the manager and its windows. -/
inductive Does (t : Tracked g I P) : Event g I P → Tracked g I P → Prop where
  | returned {event : Event g I P} {world : Store g × Asrtm g I (State g P)}
      {ops : Set (OperatingPointPtr g)}
      (hfollows : Asrtm.Follows t.store world.1 t.manager world.2)
      (hbrings : t.manager.Brings t.store world.1 world.2 event.pointers ops) :
      Does t event (t.returning world)
  | registered (targetField : OPField g) (inertia : {n : Nat // 0 < n})
      {monitor : MonitorRef} (hempty : (t.store.monitor monitor).buffer = []) :
      Does t (.problem (.addRuntimeKnowledge targetField inertia monitor))
        (t.returning (t.manager.addRuntimeKnowledge t.store targetField inertia
          monitor))
  | applied : Does t (.usage .configurationApplied) t.configurationApplied
  | pushed {monitor : MonitorRef} {newValue : ℚ} {buffer : CircularBuffer ℚ}
      (hpush : (t.store.monitor monitor).push newValue = some buffer) :
      Does t (.push monitor newValue) (t.pushed monitor newValue buffer)

theorem does_of_problem {call : Asrtm.ProblemCall g I P}
    (hstep : t.step (.problem call) = some next) :
    t.Does (.problem call) next := by
  by_cases hregisters : ∃ targetField inertia monitor,
      call = .addRuntimeKnowledge targetField inertia monitor
  · obtain ⟨targetField, inertia, monitor, rfl⟩ := hregisters
    rw [step] at hstep
    split at hstep
    · next hempty =>
        obtain rfl := Option.some.inj hstep
        exact .registered targetField inertia hempty
    · contradiction
  · have hother : ∀ targetField inertia monitor,
        call ≠ .addRuntimeKnowledge targetField inertia monitor := by
      rintro targetField inertia monitor rfl
      exact hregisters ⟨_, _, _, rfl⟩
    rw [step] at hstep
    · obtain ⟨⟨after, m⟩, hcall, rfl⟩ := Option.map_eq_some_iff.mp hstep
      obtain ⟨hfollows, hstatus⟩ := Asrtm.follows_runProblem hother hcall
      exact .returned hfollows (Asrtm.brings_nothing
        (fun known hwithin => Asrtm.within_runProblem hwithin hcall)
        fun hexploring => hstatus ▸ hexploring)
    · exact hother

theorem does_of_usage {call : Asrtm.UsageCall g}
    (hstep : t.step (.usage call) = some next) :
    t.Does (.usage call) next := by
  cases call with
  | addOperatingPoints opList =>
      obtain rfl := Option.some.inj hstep
      have hfresh := t.store.fresh_allocateOps opList
      exact .returned
        ⟨t.store.kept_allocateOps opList, rfl, rfl, fun _ => id, id⟩
        ⟨fun op hop => .inr (hfresh op hop), .inl ⟨id, fun _ hwithin =>
          Asrtm.within_addOperatingPoints hwithin t.store opList⟩⟩
  | removeOperatingPoints configurationList =>
      obtain rfl := Option.some.inj hstep
      exact .returned ⟨.refl t.store, rfl, rfl, fun _ => id, id⟩
        (Asrtm.brings_nothing (fun _ hwithin =>
          Asrtm.within_removeOperatingPoints hwithin _) id)
  | findBestConfiguration =>
      obtain ⟨⟨after, m⟩, hfound, rfl⟩ := Option.map_eq_some_iff.mp hstep
      obtain ⟨hfollows, hstatus⟩ :=
        Asrtm.follows_findBestConfiguration hfound
      exact .returned hfollows (Asrtm.brings_nothing (fun _ hwithin =>
          Asrtm.within_findBestConfiguration hwithin hfound)
        fun hexploring => hstatus ▸ hexploring)
  | getBestConfiguration =>
      obtain ⟨world, hworld, rfl⟩ := Option.map_eq_some_iff.mp hstep
      obtain ⟨⟨configuration, changed, m⟩, hfound, rfl⟩ :=
        Option.map_eq_some_iff.mp hworld
      obtain ⟨hfollows, hexploring, hstates, hknowledge, hproposed⟩ :=
        Asrtm.follows_getBestConfiguration t.store hfound
      exact .returned hfollows (Asrtm.brings_nothing (fun known hwithin =>
        ⟨hstates ▸ hwithin.states, hknowledge ▸ hwithin.knowledge,
          hproposed ▸ hwithin.proposed⟩) hexploring)
  | configurationApplied =>
      obtain rfl := Option.some.inj hstep
      exact .applied

/-- The inversion lemma: every event is a call that concerns no window, or one
of the three that do. -/
theorem does_of_step {event : Event g I P} (hstep : t.step event = some next) :
    t.Does event next := by
  cases event with
  | problem call => exact does_of_problem hstep
  | usage call => exact does_of_usage hstep
  | addOperatingPointPtrs opList =>
      obtain rfl := Option.some.inj hstep
      exact .returned ⟨.refl t.store, rfl, rfl, fun _ => id, id⟩
        ⟨fun _ hop => .inl hop, .inl ⟨id, fun _ hwithin =>
          Asrtm.within_addOperatingPointPtrs hwithin opList⟩⟩
  | setSinglePoint point =>
      obtain rfl := Option.some.inj hstep
      have hfresh := t.store.fresh_allocateOps [point]
      have hreplaced := Asrtm.within_setKnowledgeBase t.manager t.store [point]
      exact .returned
        ⟨t.store.kept_allocateOps [point], rfl, rfl, fun _ => id, nofun⟩
        ⟨fun op hop => .inr (hfresh op hop), .inr ⟨rfl,
          hreplaced.states, hreplaced.knowledge, hreplaced.proposed⟩⟩
  | setModel model =>
      obtain rfl := Option.some.inj hstep
      have hreset := Store.kept_resetAdaptors (t.store.allocateOps model).1
        t.manager.runtimeInformation
      have hfresh := t.store.fresh_allocateOps model
      have hreplaced := Asrtm.within_setKnowledgeBase t.manager t.store model
      exact .returned
        ⟨(t.store.kept_allocateOps model).trans hreset, rfl, rfl, fun _ => id,
          nofun⟩
        ⟨fun op hop => .inr ⟨(hfresh op hop).1,
            (hfresh op hop).2.trans_le hreset.nextAddress⟩,
          .inr ⟨rfl, hreplaced.states, hreplaced.knowledge,
            hreplaced.proposed⟩⟩
  | restoreFromDataFeatureSwitch =>
      obtain rfl := Option.some.inj hstep
      refine .returned
        ⟨.refl t.store, rfl, rfl, fun _ => nofun, fun htuned => ?_⟩
        (Asrtm.brings_nothing (fun _ hwithin =>
            ⟨hwithin.states, hwithin.knowledge, hwithin.proposed⟩)
          ne_exploring_of_unlessExploring)
      simp only [Asrtm.restoreFromDataFeatureSwitch,
        ApplicationStatus.unlessExploring] at htuned
      split at htuned <;> contradiction
  | setAutotunerInDse =>
      obtain rfl := Option.some.inj hstep
      exact .returned ⟨.refl t.store, rfl, rfl, fun _ => id, nofun⟩
        (Asrtm.brings_nothing (fun _ hwithin =>
            ⟨hwithin.states, hwithin.knowledge, hwithin.proposed⟩)
          fun hstatus => absurd rfl hstatus)
  | changeGoals goalValue =>
      obtain rfl := Option.some.inj hstep
      exact .returned
        ⟨⟨rfl, rfl, fun _ => rfl, le_refl _⟩, rfl, rfl, fun _ => id, id⟩
        (Asrtm.brings_nothing (fun _ => id) id)
  | push monitor newValue =>
      obtain ⟨buffer, hpush, rfl⟩ := Option.map_eq_some_iff.mp hstep
      exact .pushed hpush

/-- Every step that meets the condition goes on with the history. -/
theorem sound_step {event : Event g I P} (hsound : t.Sound)
    (hmeets : t.AppliesClean event) (hstep : t.step event = some next) :
    next.Sound := by
  cases does_of_step hstep with
  | returned hfollows _ => exact sound_returning hsound hfollows
  | registered targetField inertia hempty =>
      exact sound_addRuntimeKnowledge hsound targetField inertia hempty
  | applied =>
      by_cases hsame : t.manager.applicationConfiguration =
          t.manager.proposedBestConfiguration
      · exact sound_applied_same hsound hsame
          fun hstatus => hmeets hstatus hsame
      · by_cases hexploring : t.manager.status = .designSpaceExploration
        · exact sound_applied_exploring hsound hsame hexploring
        · exact sound_applied_cleared hsound hsame hexploring
  | pushed hpush => exact sound_pushed hsound hpush

/-- A tuned manager after a call that changed nothing tells what was in the
windows before. -/
theorem appliesClean_of_unmixed {event : Event g I P}
    (hstep : t.step event = some next) (hunmixed : next.Unmixed) :
    t.AppliesClean event := by
  cases event with
  | usage call =>
      cases call with
      | configurationApplied =>
          intro hstatus hsame
          obtain rfl := Option.some.inj hstep
          have hclean := hunmixed.current
          rw [configurationApplied_of_same hsame] at hclean
          exact hclean (by simp [ApplicationStatus.unlessExploring, hstatus])
      | _ => trivial
  | _ => trivial

section Sourced

/-- When an exploration has left observations of earlier periods in the
windows, the applied configuration is none that can be proposed again. -/
structure Sourced (known : Set (OperatingPointPtr g)) (t : Tracked g I P) :
    Prop where
  within : t.manager.Within known
  allocated : ∀ op ∈ known, op.address < t.store.nextAddress
  applied : ∀ op, t.manager.applicationConfiguration = some op →
    op.address < t.store.nextAddress
  stale : t.manager.status ≠ .designSpaceExploration → ¬ t.Clean → ∀ op,
    t.manager.applicationConfiguration = some op → op ∉ known

variable {known : Set (OperatingPointPtr g)}

omit [HashOrder (OperatingPointPtr g)] in
/-- A call brings new objects, or pointers to old ones that are not in use. -/
theorem sourced_returning {event : Event g I P}
    {world : Store g × Asrtm g I (State g P)} {ops : Set (OperatingPointPtr g)}
    (hsourced : t.Sourced known)
    (hfollows : Asrtm.Follows t.store world.1 t.manager world.2)
    (hbrings : t.manager.Brings t.store world.1 world.2 event.pointers ops)
    (hpointers : ∀ op ∈ event.pointers, op.address < t.store.nextAddress ∧
      (t.manager.status ≠ .designSpaceExploration → ¬ t.Clean →
        t.manager.applicationConfiguration ≠ some op)) :
    ∃ others, (t.returning world).Sourced others := by
  have hkept := hfollows.kept.nextAddress
  have happlied : ∀ op, world.2.applicationConfiguration = some op →
      op.address < world.1.nextAddress := fun op hop =>
    (hsourced.applied op (hfollows.applied op hop)).trans_le hkept
  have hsource : ∀ op ∈ ops, op.address < world.1.nextAddress := by
    intro op hop
    rcases hbrings.source op hop with hpointer | ⟨-, hlt⟩
    · exact (hpointers op hpointer).1.trans_le hkept
    · exact hlt
  rcases hbrings.within with ⟨hstatus, hwithin⟩ | ⟨hnone, hwithin⟩
  · refine ⟨known ∪ ops, hwithin known hsourced.within, ?_, happlied, ?_⟩
    · rintro op (hop | hop)
      · exact (hsourced.allocated op hop).trans_le hkept
      · exact hsource op hop
    · intro hexploring hclean op hop
      have hbefore := hfollows.applied op hop
      rw [clean_returning hfollows] at hclean
      rintro (hknown | hbrought)
      · exact hsourced.stale (hstatus hexploring) hclean op hbefore hknown
      · rcases hbrings.source op hbrought with hpointer | ⟨hle, -⟩
        · exact (hpointers op hpointer).2 (hstatus hexploring) hclean hbefore
        · exact absurd (hsourced.applied op hbefore) (not_lt.mpr hle)
  · refine ⟨ops, hwithin, hsource, happlied, ?_⟩
    intro _ _ op hop hbrought
    rcases hbrings.source op hbrought with hpointer | ⟨hle, -⟩
    · rw [hnone] at hpointer
      contradiction
    · exact absurd (hsourced.applied op (hfollows.applied op hop))
        (not_lt.mpr hle)

omit [HashOrder (OperatingPointPtr g)] in
theorem sourced_applied (hsourced : t.Sourced known) :
    t.configurationApplied.Sourced known := by
  have hproposed := hsourced.within.proposed
  by_cases hsame : t.manager.applicationConfiguration =
      t.manager.proposedBestConfiguration
  · rw [configurationApplied_of_same hsame]
    refine ⟨⟨hsourced.within.states, hsourced.within.knowledge, hproposed⟩,
      hsourced.allocated, hsourced.applied, fun hexploring => ?_⟩
    exact hsourced.stale (ne_exploring_of_unlessExploring hexploring)
  · by_cases hexploring : t.manager.status = .designSpaceExploration
    · rw [configurationApplied_of_exploring hsame hexploring]
      exact ⟨⟨hsourced.within.states, hsourced.within.knowledge, hproposed⟩,
        hsourced.allocated,
        fun op hop => hsourced.allocated op (hproposed op hop),
        fun hstatus => absurd hexploring hstatus⟩
    · have hclean := clean_configurationApplied hsame hexploring
      obtain ⟨-, -, haddress⟩ :=
        t.store.adaptor_clearAll t.manager.monitorHandlers
      rw [configurationApplied_of_changes hsame hexploring] at hclean ⊢
      refine ⟨⟨hsourced.within.states, hsourced.within.knowledge, hproposed⟩,
        ?_, ?_, fun _ hstale => absurd hclean hstale⟩
      · simp only [haddress]
        exact hsourced.allocated
      · simp only [haddress]
        exact fun op hop => hsourced.allocated op (hproposed op hop)

theorem sourced_step {event : Event g I P} (hsound : t.Sound)
    (hsourced : t.Sourced known) (hmeets : t.BringsNothingBack event)
    (hstep : t.step event = some next) :
    ∃ others, next.Sourced others := by
  cases does_of_step hstep with
  | returned hfollows hbrings =>
      apply sourced_returning hsourced hfollows hbrings
      cases event with
      | addOperatingPointPtrs opList => exact hmeets
      | _ => exact fun _ => nofun
  | registered targetField inertia hempty =>
      have hclean := clean_addRuntimeKnowledge hsound.recorded targetField
        inertia hempty
      refine ⟨known, ⟨?_, hsourced.within.knowledge, hsourced.within.proposed⟩,
        hsourced.allocated, hsourced.applied,
        fun hstatus hnot => hsourced.stale hstatus (mt hclean.mpr hnot)⟩
      exact Asrtm.states_onStates hsourced.within fun s hs =>
        State.within_setKnowledgeAdaptor hs _
  | applied => exact ⟨known, sourced_applied hsourced⟩
  | pushed hpush =>
      exact ⟨known, ⟨hsourced.within.states, hsourced.within.knowledge,
          hsourced.within.proposed⟩, hsourced.allocated, hsourced.applied,
        fun hstatus hnot => hsourced.stale hstatus (mt clean_pushed hnot)⟩

omit [HashOrder (OperatingPointPtr g)] in
/-- Only the null configuration can be applied and proposed at once. -/
theorem Sourced.appliesClean {event : Event g I P} (hsourced : t.Sourced known)
    (hmeets : t.BringsNothingBack event) : t.AppliesClean event := by
  cases event with
  | usage call =>
      cases call with
      | configurationApplied =>
          intro hstatus hsame
          by_contra hnot
          cases happlied : t.manager.applicationConfiguration with
          | none =>
              exact hnot (hmeets hstatus happlied (hsame ▸ happlied))
          | some op =>
              exact hsourced.stale hstatus hnot op happlied
                (hsourced.within.proposed op (hsame ▸ happlied))
      | _ => trivial
  | _ => trivial

omit [HashOrder (OperatingPointPtr g)] in
theorem sourced_start (store : Store g) :
    (start store : Tracked g I P).Sourced ∅ :=
  ⟨⟨fun _ _ => nofun, fun _ => nofun, fun _ => nofun⟩, fun _ => nofun,
    fun _ => nofun, fun _ _ _ => nofun⟩

/-- Without pointers to what is in use, observations are mixed only by a call of
`configuration_applied` without an applied and without a proposed configuration. -/
theorem unmixed_of_bringsNothingBack (store : Store g)
    {events : List (Event g I P)}
    (hmeets : AllSteps step BringsNothingBack (start store) events) :
    AllReached step Unmixed (start store) events := by
  have hkept : ∀ (before : Tracked g I P) (event : Event g I P) after,
      (before.Sound ∧ ∃ known, before.Sourced known) →
        before.BringsNothingBack event → before.step event = some after →
          after.Sound ∧ ∃ known, after.Sourced known := by
    rintro before event after ⟨hsound, known, hsourced⟩ hnothing hstep
    exact ⟨sound_step hsound (hsourced.appliesClean hnothing) hstep,
      sourced_step hsound hsourced hnothing hstep⟩
  exact allReached_of_allSteps hkept (fun _ hinv => unmixed_of_sound hinv.1)
    ⟨sound_start store, ∅, sourced_start store⟩ hmeets

end Sourced

end Steps

section Mixed

/-- A configuration is applied and observed; the exploration begins, and nothing
is proposed when `configuration_applied` is called, before and after the model
arrives. -/
def mixing : List (Event Geometry.single Nat Nat) :=
  [.problem (.addRuntimeKnowledge OPField.single ⟨1, Nat.one_pos⟩ 0),
    .problem (.createNewState 0), .problem (.changeActiveState 0),
    .usage (.addOperatingPoints [OperatingPoint.single 1 5]),
    .usage .findBestConfiguration, .usage .configurationApplied, .push 0 10,
    .setSinglePoint (OperatingPoint.single 2 5), .usage .configurationApplied,
    .setModel [OperatingPoint.single 3 5], .usage .configurationApplied]

def mixed : Tracked Geometry.single Nat Nat :=
  (runFrom step (start Store.initial) mixing).get (by decide +kernel)

end Mixed

end Tracked

end Margot
