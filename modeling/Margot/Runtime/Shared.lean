/-
States as they are stored: the constraints and the rank of a state sit behind
shared pointers, and a copy of a state copies the pointers.  A method reads the
objects, works on their values, and leaves the new values in the same objects;
only a new state, a new constraint and a new rank are new objects.
-/
import Margot.Library.Heap
import Margot.Library.Runs
import Margot.Runtime.Agenda

namespace Margot

/-- `ConstraintPtr`. -/
abbrev ConstraintRef := Nat

/-- `RankPtr`. -/
abbrev RankRef := Nat

/-- The constraints and ranks that some state points to. -/
structure Heap (g : Geometry) where
  constraint : ConstraintRef → Constraint g
  rank : RankRef → Rank g
  nextConstraint : ConstraintRef
  nextRank : RankRef

variable {g : Geometry} {I P : Type} [LinearOrder P]

/-- Nothing is allocated. -/
def Heap.initial : Heap g where
  constraint := fun _ => Constraint.new (State.dummyField g) 0 (Goal.atMost 0)
    RuntimeInformation.numbered
  rank := fun _ => Rank.new .minimize (opUtilsGet .lower (State.dummyField g) 0)
  nextConstraint := 0
  nextRank := 0

/-- A `State` object. -/
structure SharedState (g : Geometry) (P : Type) [LinearOrder P] where
  constraints : OrderedMap P ConstraintRef
  rank : RankRef
  problemIsChanged : Bool
  bestOperatingPointFound : Option (OperatingPointPtr g)

def State.shape (s : State g P) : OrderedMap P Unit :=
  s.constraints.mapValues fun _ => ()

namespace SharedState

/-- The value of a state. -/
def load (heap : Heap g) (s : SharedState g P) : State g P where
  constraints := s.constraints.mapValues heap.constraint
  rank := heap.rank s.rank
  problemIsChanged := s.problemIsChanged
  bestOperatingPointFound := s.bestOperatingPointFound

/-- The priorities of the constraints. -/
def shape (s : SharedState g P) : OrderedMap P Unit :=
  s.constraints.mapValues fun _ => ()

/-- The fields that a state holds itself. -/
def stamp (s : SharedState g P) (value : State g P) : SharedState g P :=
  { s with
    problemIsChanged := value.problemIsChanged
    bestOperatingPointFound := value.bestOperatingPointFound }

def constraintWrites (s : SharedState g P) (value : State g P) :
    List (ConstraintRef × Constraint g) :=
  s.constraints.entries.filterMap fun entry =>
    (value.constraints.find? entry.1).map fun c => (entry.2, c)

end SharedState

/-- `StateMap`, as it is stored. -/
abbrev SharedStates (g : Geometry) (I P : Type) [LinearOrder P] :=
  UnorderedMap I (SharedState g P)

section WriteBack

variable [DecidableEq I]

def constraintWrites (states : SharedStates g I P)
    (values : UnorderedMap I (State g P)) :
    List (ConstraintRef × Constraint g) :=
  states.entries.flatMap fun entry =>
    match values.find? entry.1 with
    | none => []
    | some value => entry.2.constraintWrites value

def rankWrites (states : SharedStates g I P)
    (values : UnorderedMap I (State g P)) : List (RankRef × Rank g) :=
  states.entries.filterMap fun entry =>
    (values.find? entry.1).map fun value => (entry.2.rank, value.rank)

/-- Leave new values in the objects of the states. -/
def Heap.writeBack (heap : Heap g) (states : SharedStates g I P)
    (values : UnorderedMap I (State g P)) : Heap g :=
  { heap with
    constraint := overwrite heap.constraint (constraintWrites states values)
    rank := overwrite heap.rank (rankWrites states values) }

def stampAll (states : SharedStates g I P)
    (values : UnorderedMap I (State g P)) : SharedStates g I P :=
  states.mapWithKey fun stateId s =>
    match values.find? stateId with
    | none => s
    | some value => s.stamp value

end WriteBack

/-- The value of a manager. -/
def Asrtm.load (m : Asrtm g I (SharedState g P)) (heap : Heap g) :
    Asrtm g I (State g P) :=
  { m with
    applicationOptimizers :=
      m.applicationOptimizers.map (SharedState.load heap) }

/-- A manager and everything that its pointers lead to. -/
structure Placed (g : Geometry) (I P : Type) [LinearOrder P] where
  store : Store g
  heap : Heap g
  manager : Asrtm g I (SharedState g P)

namespace Placed

variable [DecidableEq I]

/-- A change of the active state object. -/
def onActive (m : Asrtm g I (SharedState g P))
    (change : SharedState g P → SharedState g P) : SharedStates g I P :=
  match m.currentOptimizer with
  | none => m.applicationOptimizers
  | some stateId => m.applicationOptimizers.modify stateId change

/-- The state objects after a call, before the new values are left in them: the
objects that it creates and the pointers that it drops. -/
def allocate (heap : Heap g) (m : Asrtm g I (SharedState g P)) :
    Asrtm.ProblemCall g I P → Heap g × SharedStates g I P
  | .createNewState newStateId =>
      ({ heap with nextRank := heap.nextRank + 1 },
        m.applicationOptimizers.emplace newStateId
          ⟨OrderedMap.empty, heap.nextRank, true, none⟩)
  | .removeState stateId => (heap, m.applicationOptimizers.erase stateId)
  | .addConstraint _ _ _ priority =>
      ({ heap with nextConstraint := heap.nextConstraint + 1 },
        onActive m fun s =>
          { s with
            constraints :=
              s.constraints.insert priority heap.nextConstraint })
  | .removeConstraint priority =>
      (heap, onActive m fun s =>
        { s with constraints := s.constraints.erase priority })
  | .setRank _ _ =>
      ({ heap with nextRank := heap.nextRank + 1 },
        onActive m fun s => { s with rank := heap.nextRank })
  | _ => (heap, m.applicationOptimizers)

/-- The objects after an action; only calls that state a problem create or drop
objects. -/
def objects (heap : Heap g) (m : Asrtm g I (SharedState g P)) :
    Asrtm.Action g I P → Heap g × SharedStates g I P
  | .problem call => allocate heap m call
  | _ => (heap, m.applicationOptimizers)

def step [HashOrder (OperatingPointPtr g)] (placed : Placed g I P)
    (action : Asrtm.Action g I P) : Option (Placed g I P) :=
  (Asrtm.step (placed.store, placed.manager.load placed.heap) action).map
    fun after =>
      let created := objects placed.heap placed.manager action
      { store := after.1
        heap := created.1.writeBack created.2 after.2.applicationOptimizers
        manager := { after.2 with
          applicationOptimizers :=
            stampAll created.2 after.2.applicationOptimizers } }

theorem find?_onActive (m : Asrtm g I (SharedState g P))
    (change : SharedState g P → SharedState g P) (stateId : I) :
    (onActive m change).find? stateId =
      (m.applicationOptimizers.find? stateId).map fun s =>
        if m.currentOptimizer = some stateId then change s else s := by
  rw [onActive]
  cases hactive : m.currentOptimizer with
  | none => simp
  | some active =>
      simp only [UnorderedMap.find?_modify, Option.some.injEq, eq_comm]

end Placed

section Unaliased

variable [DecidableEq I]

def rankSlots (states : SharedStates g I P) (stateId : I) : Option RankRef :=
  (states.find? stateId).map SharedState.rank

def constraintSlots (states : SharedStates g I P) (slot : I × P) :
    Option ConstraintRef :=
  (states.find? slot.1).bind fun s => s.constraints.find? slot.2

/-- Every constraint and every rank belongs to one state. -/
structure Unaliased (heap : Heap g) (states : SharedStates g I P) : Prop where
  ranks : Separate (rankSlots states) heap.nextRank
  constraints : Separate (constraintSlots states) heap.nextConstraint

theorem rankSlots_eq_some {states : SharedStates g I P} {stateId : I}
    {ref : RankRef} :
    rankSlots states stateId = some ref ↔
      ∃ s, states.find? stateId = some s ∧ s.rank = ref :=
  Option.map_eq_some_iff

theorem constraintSlots_eq_some {states : SharedStates g I P} {slot : I × P}
    {ref : ConstraintRef} :
    constraintSlots states slot = some ref ↔
      ∃ s, states.find? slot.1 = some s ∧
        s.constraints.find? slot.2 = some ref :=
  Option.bind_eq_some_iff

theorem unaliased_empty (heap : Heap g) :
    Unaliased heap (UnorderedMap.empty : SharedStates g I P) where
  ranks := ⟨nofun, nofun⟩
  constraints := ⟨nofun, nofun⟩

variable {heap : Heap g} {m : Asrtm g I (SharedState g P)}

theorem unaliased_createNewState
    (hunaliased : Unaliased heap m.applicationOptimizers) (newStateId : I) :
    Unaliased (Placed.allocate heap m (.createNewState newStateId)).1
      (Placed.allocate heap m (.createNewState newStateId)).2 where
  ranks := by
    refine hunaliased.ranks.of_fresh (· = newStateId)
      (fun hslot hother => hslot.trans hother.symm) fun {slot ref} hslot => ?_
    obtain ⟨s, hfind, rfl⟩ := rankSlots_eq_some.mp hslot
    rw [Placed.allocate, UnorderedMap.find?_emplace] at hfind
    split at hfind
    · next hnew =>
        obtain rfl := Option.some.inj hfind
        exact Or.inr ⟨hnew.1, rfl⟩
    · exact Or.inl (rankSlots_eq_some.mpr ⟨s, hfind, rfl⟩)
  constraints := by
    refine hunaliased.constraints.of_sub fun {slot ref} hslot => ?_
    obtain ⟨s, hfind, href⟩ := constraintSlots_eq_some.mp hslot
    rw [Placed.allocate, UnorderedMap.find?_emplace] at hfind
    split at hfind
    · obtain rfl := Option.some.inj hfind
      contradiction
    · exact constraintSlots_eq_some.mpr ⟨s, hfind, href⟩

/-- Fewer states, or states that drop constraints. -/
theorem Unaliased.of_sub {states after : SharedStates g I P}
    (hunaliased : Unaliased heap states)
    (hsub : ∀ stateId s, after.find? stateId = some s →
      ∃ stored, states.find? stateId = some stored ∧ s.rank = stored.rank ∧
        ∀ priority ref, s.constraints.find? priority = some ref →
          stored.constraints.find? priority = some ref) :
    Unaliased heap after where
  ranks := hunaliased.ranks.of_sub fun hslot => by
    obtain ⟨s, hfind, rfl⟩ := rankSlots_eq_some.mp hslot
    obtain ⟨stored, hstored, hrank, -⟩ := hsub _ s hfind
    exact rankSlots_eq_some.mpr ⟨stored, hstored, hrank.symm⟩
  constraints := hunaliased.constraints.of_sub fun hslot => by
    obtain ⟨s, hfind, href⟩ := constraintSlots_eq_some.mp hslot
    obtain ⟨stored, hstored, -, hkeep⟩ := hsub _ s hfind
    exact constraintSlots_eq_some.mpr ⟨stored, hstored, hkeep _ _ href⟩

theorem unaliased_addConstraint
    (hunaliased : Unaliased heap m.applicationOptimizers)
    (targetField : OPField g) (sigma : Int) (goalValue : Goal) (priority : P) :
    Unaliased
      (Placed.allocate heap m
        (.addConstraint targetField sigma goalValue priority)).1
      (Placed.allocate heap m
        (.addConstraint targetField sigma goalValue priority)).2 where
  ranks := by
    refine hunaliased.ranks.of_sub fun {slot ref} hslot => ?_
    obtain ⟨s, hfind, rfl⟩ := rankSlots_eq_some.mp hslot
    rw [Placed.allocate, Placed.find?_onActive] at hfind
    obtain ⟨stored, hstored, rfl⟩ := Option.map_eq_some_iff.mp hfind
    refine rankSlots_eq_some.mpr ⟨stored, hstored, ?_⟩
    split <;> rfl
  constraints := by
    refine hunaliased.constraints.of_fresh
      (fun slot => m.currentOptimizer = some slot.1 ∧ slot.2 = priority)
      (fun hslot hother => Prod.ext
        (Option.some.inj (hslot.1.symm.trans hother.1))
        (hslot.2.trans hother.2.symm)) fun {slot ref} hslot => ?_
    obtain ⟨s, hfind, href⟩ := constraintSlots_eq_some.mp hslot
    rw [Placed.allocate, Placed.find?_onActive] at hfind
    obtain ⟨stored, hstored, rfl⟩ := Option.map_eq_some_iff.mp hfind
    have hold : stored.constraints.find? slot.2 = some ref →
        constraintSlots m.applicationOptimizers slot = some ref :=
      fun hkept => constraintSlots_eq_some.mpr ⟨stored, hstored, hkept⟩
    split at href
    · next hactive =>
        rw [OrderedMap.find?_insert] at href
        split at href
        · next hpriority =>
            exact Or.inr ⟨⟨hactive, hpriority⟩, (Option.some.inj href).symm⟩
        · exact Or.inl (hold href)
    · exact Or.inl (hold href)

theorem unaliased_setRank
    (hunaliased : Unaliased heap m.applicationOptimizers)
    (objective : RankObjective) (evaluate : OperatingPointPtr g → ℚ) :
    Unaliased (Placed.allocate heap m (.setRank objective evaluate)).1
      (Placed.allocate heap m (.setRank objective evaluate)).2 where
  ranks := by
    refine hunaliased.ranks.of_fresh (m.currentOptimizer = some ·)
      (fun hslot hother => Option.some.inj (hslot.symm.trans hother))
      fun {slot ref} hslot => ?_
    obtain ⟨s, hfind, href⟩ := rankSlots_eq_some.mp hslot
    rw [Placed.allocate, Placed.find?_onActive] at hfind
    obtain ⟨stored, hstored, rfl⟩ := Option.map_eq_some_iff.mp hfind
    split at href
    · next hactive => exact Or.inr ⟨hactive, href.symm⟩
    · exact Or.inl (rankSlots_eq_some.mpr ⟨stored, hstored, href⟩)
  constraints := by
    refine hunaliased.constraints.of_sub fun {slot ref} hslot => ?_
    obtain ⟨s, hfind, href⟩ := constraintSlots_eq_some.mp hslot
    rw [Placed.allocate, Placed.find?_onActive] at hfind
    obtain ⟨stored, hstored, rfl⟩ := Option.map_eq_some_iff.mp hfind
    refine constraintSlots_eq_some.mpr ⟨stored, hstored, ?_⟩
    split at href <;> exact href

/-- The calls that create objects give every object to one state. -/
theorem unaliased_allocate
    (hunaliased : Unaliased heap m.applicationOptimizers)
    (call : Asrtm.ProblemCall g I P) :
    Unaliased (Placed.allocate heap m call).1
      (Placed.allocate heap m call).2 := by
  cases call with
  | createNewState newStateId =>
      exact unaliased_createNewState hunaliased newStateId
  | removeState stateId =>
      refine hunaliased.of_sub fun other s hfind => ?_
      rw [Placed.allocate, UnorderedMap.find?_erase] at hfind
      split at hfind
      · contradiction
      · exact ⟨s, hfind, rfl, fun _ _ href => href⟩
  | changeActiveState stateId => exact hunaliased
  | addRuntimeKnowledge targetField inertia monitor => exact hunaliased
  | addConstraint targetField sigma goalValue priority =>
      exact unaliased_addConstraint hunaliased targetField sigma goalValue
        priority
  | removeConstraint priority =>
      refine hunaliased.of_sub fun stateId s hfind => ?_
      rw [Placed.allocate, Placed.find?_onActive] at hfind
      obtain ⟨stored, hstored, rfl⟩ := Option.map_eq_some_iff.mp hfind
      split
      · refine ⟨stored, hstored, rfl, fun other ref href => ?_⟩
        rw [OrderedMap.find?_erase] at href
        split at href
        · contradiction
        · exact href
      · exact ⟨stored, hstored, rfl, fun _ _ href => href⟩
  | setRank objective evaluate =>
      exact unaliased_setRank hunaliased objective evaluate

theorem mem_rankWrites {states : SharedStates g I P}
    {values : UnorderedMap I (State g P)} (write : RankRef × Rank g) :
    write ∈ rankWrites states values ↔
      ∃ stateId, rankSlots states stateId = some write.1 ∧
        (values.find? stateId).map State.rank = some write.2 := by
  simp only [rankWrites, List.mem_filterMap, rankSlots, Option.map_eq_some_iff,
    UnorderedMap.find?_eq_some, Prod.exists]
  constructor
  · rintro ⟨stateId, s, hs, value, hvalue, rfl⟩
    exact ⟨stateId, ⟨s, hs, rfl⟩, value, hvalue, rfl⟩
  · rintro ⟨stateId, ⟨s, hs, href⟩, value, hvalue, hrank⟩
    exact ⟨stateId, s, hs, value, hvalue, Prod.ext href hrank⟩

theorem mem_constraintWrites {states : SharedStates g I P}
    {values : UnorderedMap I (State g P)}
    (write : ConstraintRef × Constraint g) :
    write ∈ constraintWrites states values ↔
      ∃ slot, constraintSlots states slot = some write.1 ∧
        ((values.find? slot.1).bind fun value =>
          value.constraints.find? slot.2) = some write.2 := by
  simp only [constraintWrites, List.mem_flatMap, constraintSlots_eq_some,
    Option.bind_eq_some_iff]
  constructor
  · rintro ⟨entry, hentry, hwrite⟩
    split at hwrite
    · contradiction
    · next value hvalue =>
        obtain ⟨stored, hstored, hmap⟩ := List.mem_filterMap.mp hwrite
        obtain ⟨c, hc, rfl⟩ := Option.map_eq_some_iff.mp hmap
        exact ⟨(entry.1, stored.1),
          ⟨entry.2, UnorderedMap.find?_eq_some.mpr hentry,
            OrderedMap.find?_eq_some.mpr hstored⟩, value, hvalue, hc⟩
  · rintro ⟨slot, ⟨s, hs, href⟩, value, hvalue, hc⟩
    refine ⟨(slot.1, s), UnorderedMap.find?_eq_some.mp hs, ?_⟩
    rw [hvalue]
    refine List.mem_filterMap.mpr ⟨(slot.2, write.1),
      OrderedMap.find?_eq_some.mp href, ?_⟩
    rw [hc]
    rfl

/-- New values leave the pointers as they are. -/
theorem Unaliased.writeBack {states : SharedStates g I P}
    (hunaliased : Unaliased heap states)
    (values : UnorderedMap I (State g P)) :
    Unaliased (heap.writeBack states values) (stampAll states values) := by
  have hkept : Unaliased heap (stampAll states values) := by
    refine hunaliased.of_sub fun stateId s hfind => ?_
    rw [stampAll, UnorderedMap.find?_mapWithKey] at hfind
    obtain ⟨stored, hstored, rfl⟩ := Option.map_eq_some_iff.mp hfind
    split
    · exact ⟨stored, hstored, rfl, fun _ _ href => href⟩
    · exact ⟨stored, hstored, rfl, fun _ _ href => href⟩
  exact ⟨hkept.ranks, hkept.constraints⟩

section Load

variable {states : SharedStates g I P} {values : UnorderedMap I (State g P)}
  {stateId : I} {s : SharedState g P} {value : State g P}

/-- The rank of a state reads back the value that was left in it. -/
theorem rank_writeBack (hunaliased : Unaliased heap states)
    (hs : states.find? stateId = some s)
    (hvalue : values.find? stateId = some value) :
    (heap.writeBack states values).rank s.rank = value.rank :=
  hunaliased.ranks.overwrite_eq mem_rankWrites
    (rankSlots_eq_some.mpr ⟨s, hs, rfl⟩)
    (by rw [hvalue, Option.map_some])

theorem constraints_writeBack (hunaliased : Unaliased heap states)
    (hs : states.find? stateId = some s)
    (hvalue : values.find? stateId = some value) (hshape : s.shape = value.shape) :
    s.constraints.mapValues (heap.writeBack states values).constraint =
      value.constraints := by
  have hkeys : s.constraints.keys = value.constraints.keys := by
    have hunits := congrArg OrderedMap.keys hshape
    simpa [SharedState.shape, State.shape] using hunits
  refine OrderedMap.ext_find? (by simpa using hkeys) fun priority hmem => ?_
  rw [OrderedMap.keys_mapValues] at hmem
  obtain ⟨ref, href⟩ := OrderedMap.mem_keys.mp hmem
  obtain ⟨c, hc⟩ := OrderedMap.mem_keys.mp (hkeys ▸ hmem)
  rw [OrderedMap.find?_mapValues, href, hc]
  have hslot : constraintSlots states (stateId, priority) = some ref :=
    constraintSlots_eq_some.mpr ⟨s, hs, href⟩
  refine congrArg some (hunaliased.constraints.overwrite_eq
    mem_constraintWrites hslot ?_)
  rw [hvalue]
  exact hc

/-- The values of the states are those that were left in their objects. -/
theorem load_writeBack (hunaliased : Unaliased heap states)
    (hshapes : states.map SharedState.shape = values.map State.shape) :
    (stampAll states values).map
        (SharedState.load (heap.writeBack states values)) = values := by
  have hkeys : states.keys = values.keys := by
    simpa using congrArg UnorderedMap.keys hshapes
  refine UnorderedMap.ext_find? (by simpa [stampAll] using hkeys)
    fun stateId hmem => ?_
  simp only [stampAll, UnorderedMap.keys_map, UnorderedMap.keys_mapWithKey]
    at hmem
  obtain ⟨s, hs⟩ := UnorderedMap.mem_keys_find?.mp hmem
  obtain ⟨value, hvalue⟩ := UnorderedMap.mem_keys_find?.mp (hkeys ▸ hmem)
  have hshape : s.shape = value.shape := by
    have hfound := congrArg (UnorderedMap.find? · stateId) hshapes
    simpa [hs, hvalue] using hfound
  have hrank := rank_writeBack hunaliased hs hvalue
  have hconstraints := constraints_writeBack hunaliased hs hvalue hshape
  rw [UnorderedMap.find?_map, stampAll, UnorderedMap.find?_mapWithKey, hs,
    hvalue]
  simp [SharedState.load, SharedState.stamp, hrank, hconstraints]

end Load

end Unaliased

theorem State.shape_problem (s : State g P) :
    s.shape = s.problem.constraints.mapValues fun _ => () := by
  rw [State.shape, State.problem, OrderedMap.mapValues_mapValues]

theorem State.shape_eq_of_problem {s other : State g P}
    (hproblem : s.problem = other.problem) : s.shape = other.shape := by
  rw [shape_problem, shape_problem, hproblem]

namespace Placed

variable [DecidableEq I] {heap : Heap g} {m : Asrtm g I (SharedState g P)}
  {store : Store g}

omit [DecidableEq I] in
@[simp] theorem shapes_load (m : Asrtm g I (SharedState g P)) (heap : Heap g) :
    (m.load heap).applicationOptimizers.map State.shape =
      m.applicationOptimizers.map SharedState.shape := by
  rw [Asrtm.load, UnorderedMap.map_map]
  refine congrArg (UnorderedMap.map · _) (funext fun s => ?_)
  exact OrderedMap.mapValues_mapValues _ _ _

omit [DecidableEq I] in
/-- A method that is applied to all the states creates and drops nothing. -/
theorem shapes_onStates {change : State g P → State g P}
    (hchange : ∀ s, (change s).shape = s.shape) :
    ((m.load heap).onStates change).applicationOptimizers.map State.shape =
      m.applicationOptimizers.map SharedState.shape := by
  rw [Asrtm.onStates, UnorderedMap.map_map, ← shapes_load m heap]
  exact congrArg (UnorderedMap.map · _) (funext hchange)

/-- A method that is forwarded to the active state. -/
theorem shapes_onActiveState {change : State g P → State g P}
    {create : SharedState g P → SharedState g P}
    (effect : OrderedMap P Unit → OrderedMap P Unit)
    (hcreate : ∀ s, (create s).shape = effect s.shape)
    (hchange : ∀ s, (change s).shape = effect s.shape)
    {next : Asrtm g I (State g P)}
    (hnext : (m.load heap).onActiveState change = some next) :
    (onActive m create).map SharedState.shape =
      next.applicationOptimizers.map State.shape := by
  obtain ⟨stateId, hactive, rfl⟩ := Option.map_eq_some_iff.mp hnext
  have hcurrent : m.currentOptimizer = some stateId := hactive
  rw [onActive, hcurrent]
  simp only [UnorderedMap.map_modify _ _ _ effect fun s _ => hchange s,
    UnorderedMap.map_modify _ _ _ effect fun s _ => hcreate s, shapes_load]

section Step

variable [HashOrder (OperatingPointPtr g)]

theorem shapes_createNewState (m : Asrtm g I (SharedState g P)) (heap : Heap g)
    (newStateId : I) :
    (m.applicationOptimizers.emplace newStateId
        ⟨OrderedMap.empty, heap.nextRank, true, none⟩).map SharedState.shape =
      ((m.load heap).createNewState newStateId).applicationOptimizers.map
        State.shape := by
  rw [UnorderedMap.map_emplace, ← shapes_load m heap, Asrtm.createNewState]
  split
  · next hexists =>
      have hmem : newStateId ∈
          ((m.load heap).applicationOptimizers.map State.shape).keys := by
        rw [UnorderedMap.keys_map, UnorderedMap.mem_keys_find?]
        exact Option.isSome_iff_exists.mp hexists
      rw [UnorderedMap.emplace, dif_pos hmem]
  · rw [UnorderedMap.map_emplace]
    refine congrArg (UnorderedMap.emplace _ newStateId) ?_
    rw [State.shape_problem, State.problem_setKnowledgeAdaptor]
    simp only [Problem.wire, State.problem_setKnowledgeBase,
      OrderedMap.mapValues_mapValues]
    rfl

theorem shapes_runProblem {call : Asrtm.ProblemCall g I P}
    {after : Store g} {next : Asrtm g I (State g P)}
    (hcall : (m.load heap).runProblem store call = some (after, next)) :
    (allocate heap m call).2.map SharedState.shape =
      next.applicationOptimizers.map State.shape := by
  cases call with
  | createNewState newStateId =>
      obtain ⟨-, rfl⟩ := Prod.mk.inj (Option.some.inj hcall)
      exact shapes_createNewState m heap newStateId
  | removeState stateId =>
      obtain ⟨_, hnext, heq⟩ := Option.map_eq_some_iff.mp hcall
      obtain ⟨-, rfl⟩ := Prod.mk.inj heq
      rw [Asrtm.removeState] at hnext
      split at hnext
      · contradiction
      · obtain rfl := Option.some.inj hnext
        rw [allocate, UnorderedMap.map_erase, UnorderedMap.map_erase,
          shapes_load]
  | changeActiveState stateId =>
      obtain ⟨_, hnext, heq⟩ := Option.map_eq_some_iff.mp hcall
      obtain ⟨-, rfl⟩ := Prod.mk.inj heq
      obtain ⟨found, -, rfl⟩ := Option.map_eq_some_iff.mp hnext
      exact (shapes_load m heap).symm
  | addRuntimeKnowledge targetField inertia monitor =>
      obtain ⟨-, rfl⟩ := Prod.mk.inj (Option.some.inj hcall)
      refine (shapes_onStates fun s => ?_).symm
      simp [State.shape_problem, Problem.wire, OrderedMap.mapValues_mapValues]
  | addConstraint targetField sigma goalValue priority =>
      obtain ⟨_, hnext, heq⟩ := Option.map_eq_some_iff.mp hcall
      obtain ⟨-, rfl⟩ := Prod.mk.inj heq
      refine shapes_onActiveState (OrderedMap.insert · priority ())
        (fun s => ?_) (fun s => ?_) hnext
      · exact OrderedMap.mapValues_insert _ _ _ _
      · simp [State.shape_problem, Problem.addConstraint]
  | removeConstraint priority =>
      obtain ⟨_, hnext, heq⟩ := Option.map_eq_some_iff.mp hcall
      obtain ⟨-, rfl⟩ := Prod.mk.inj heq
      refine shapes_onActiveState (OrderedMap.erase · priority)
        (fun s => ?_) (fun s => ?_) hnext
      · exact OrderedMap.mapValues_erase _ _ _
      · simp [State.shape_problem, Problem.removeConstraint]
  | setRank objective evaluate =>
      obtain ⟨_, hnext, heq⟩ := Option.map_eq_some_iff.mp hcall
      obtain ⟨-, rfl⟩ := Prod.mk.inj heq
      refine shapes_onActiveState id (fun s => ?_) (fun s => ?_) hnext
      · rfl
      · simp [State.shape_problem, Problem.setRank]

theorem shapes_findBestConfiguration {after : Store g}
    {next : Asrtm g I (State g P)}
    (hfound : (m.load heap).findBestConfiguration store = some (after, next)) :
    m.applicationOptimizers.map SharedState.shape =
      next.applicationOptimizers.map State.shape := by
  rw [← shapes_load m heap]
  obtain ⟨evaluated, -, hsolved⟩ := Option.bind_eq_some_iff.mp hfound
  split at hsolved
  · obtain ⟨-, rfl⟩ := Prod.mk.inj (Option.some.inj hsolved)
    rfl
  · next stateId hactive =>
      obtain ⟨found, hbest, heq⟩ := Option.map_eq_some_iff.mp hsolved
      obtain ⟨-, rfl⟩ := Prod.mk.inj heq
      obtain ⟨s, hfind, hsolve⟩ := Option.bind_eq_some_iff.mp hbest
      have hshape : found.1.shape = s.shape :=
        State.shape_eq_of_problem (State.problem_getBestOperatingPoint hsolve)
      have hsame := UnorderedMap.map_modify State.shape
        (m.load heap).applicationOptimizers stateId id fun stored hstored =>
          hshape.trans (congrArg State.shape
            (Option.some.inj (hfind.symm.trans hstored)))
      rw [UnorderedMap.modify_id] at hsame
      exact hsame.symm

theorem shapes_runUsage {call : Asrtm.UsageCall g}
    {after : Store g} {next : Asrtm g I (State g P)}
    (hcall : (m.load heap).runUsage store call = some (after, next)) :
    m.applicationOptimizers.map SharedState.shape =
      next.applicationOptimizers.map State.shape := by
  cases call with
  | addOperatingPoints opList =>
      obtain ⟨-, rfl⟩ := Prod.mk.inj (Option.some.inj hcall)
      exact (shapes_onStates fun s => State.shape_eq_of_problem
        (State.problem_addOperatingPoints s _)).symm
  | removeOperatingPoints configurationList =>
      obtain ⟨-, rfl⟩ := Prod.mk.inj (Option.some.inj hcall)
      exact (shapes_onStates fun s => State.shape_eq_of_problem
        (State.problem_removeOperatingPoints s _)).symm
  | findBestConfiguration => exact shapes_findBestConfiguration hcall
  | getBestConfiguration =>
      obtain ⟨found, hbest, heq⟩ := Option.map_eq_some_iff.mp hcall
      obtain ⟨-, rfl⟩ := Prod.mk.inj heq
      obtain ⟨proposed, -, rfl⟩ := Option.map_eq_some_iff.mp hbest
      rw [← shapes_load m heap]
      split <;> rfl
  | configurationApplied =>
      obtain ⟨-, rfl⟩ := Prod.mk.inj (Option.some.inj hcall)
      exact (shapes_load m heap).symm

omit [DecidableEq I] in
theorem shapes_setKnowledgeBase (m : Asrtm g I (SharedState g P))
    (heap : Heap g) (store : Store g) (ops : List (OperatingPoint g)) :
    ((m.load heap).setKnowledgeBase store ops).2.applicationOptimizers.map
        State.shape =
      m.applicationOptimizers.map SharedState.shape :=
  shapes_onStates fun s => State.shape_eq_of_problem
    (State.problem_setKnowledgeBase s _)

/-- The objects of the states are those that their values need. -/
theorem shapes_step {action : Asrtm.Action g I P}
    {after : Store g × Asrtm g I (State g P)}
    (hstep : Asrtm.step (store, m.load heap) action = some after) :
    (objects heap m action).2.map SharedState.shape =
      after.2.applicationOptimizers.map State.shape := by
  cases action with
  | problem call => exact shapes_runProblem hstep
  | usage call => exact shapes_runUsage hstep
  | setSinglePoint point =>
      obtain rfl := Option.some.inj hstep
      exact (shapes_setKnowledgeBase m heap store [point]).symm
  | setModel model =>
      obtain rfl := Option.some.inj hstep
      exact (shapes_setKnowledgeBase m heap store model).symm
  | restoreFromDataFeatureSwitch =>
      obtain rfl := Option.some.inj hstep
      exact (shapes_load m heap).symm
  | changeGoals goalValue =>
      obtain rfl := Option.some.inj hstep
      exact (shapes_load m heap).symm
  | observe monitor =>
      obtain rfl := Option.some.inj hstep
      exact (shapes_load m heap).symm

/-- The stored objects and the value of the manager that they represent. -/
def load (placed : Placed g I P) : Store g × Asrtm g I (State g P) :=
  (placed.store, placed.manager.load placed.heap)

omit [HashOrder (OperatingPointPtr g)] in
theorem unaliased_objects
    (hunaliased : Unaliased heap m.applicationOptimizers)
    (action : Asrtm.Action g I P) :
    Unaliased (objects heap m action).1 (objects heap m action).2 := by
  cases action with
  | problem call => exact unaliased_allocate hunaliased call
  | _ => exact hunaliased

/-- Every object has one owner. -/
def Owned (placed : Placed g I P) : Prop :=
  Unaliased placed.heap placed.manager.applicationOptimizers

theorem owned_step {placed after : Placed g I P} {action : Asrtm.Action g I P}
    (howned : placed.Owned) (hstep : placed.step action = some after) :
    after.Owned := by
  obtain ⟨values, -, rfl⟩ := Option.map_eq_some_iff.mp hstep
  exact (unaliased_objects howned action).writeBack
    values.2.applicationOptimizers

/-- A step on owned objects is the step on their values. -/
theorem load_step {placed : Placed g I P} (howned : placed.Owned)
    (action : Asrtm.Action g I P) :
    (placed.step action).map load = Asrtm.step placed.load action := by
  rw [step, Option.map_map]
  refine (Option.map_congr fun values hvalues => ?_).trans Option.map_id_apply
  have hloaded := load_writeBack (unaliased_objects howned action)
    (shapes_step hvalues)
  simp only [Function.comp_apply, load, Asrtm.load, hloaded, id]

/-- As long as a manager is not copied, the objects behind its pointers behave
as values. -/
theorem load_run {start : Placed g I P} (howned : start.Owned)
    (actions : List (Asrtm.Action g I P)) :
    (runFrom step start actions).map load =
      runFrom Asrtm.step start.load actions :=
  runFrom_map Owned (fun _ _ _ => owned_step)
    (fun _ action howned => load_step howned action) actions howned

end Step

end Placed

end Margot
