/-
The requirements of a block: the code that the generators write for its states,
the goals that they declare and the values of these.
-/
import Mathlib.Data.List.Nodup
import Margot.Heel.Validate

namespace Margot.Heel

section Names

def RankDirection.cppEnum : RankDirection → Checked Text
  | .minimize => .ok "margot::RankObjective::MINIMIZE".toList
  | .maximize => .ok "margot::RankObjective::MAXIMIZE".toList
  | .none => .error "cpp enum:: unknown rank direction type".toList

def RankType.cppEnum : RankType → Checked Text
  | .simple => .ok "margot::FieldComposer::SIMPLE".toList
  | .geometric => .ok "margot::FieldComposer::GEOMETRIC".toList
  | .linear => .ok "margot::FieldComposer::LINEAR".toList
  | .none => .error "cpp enum:: unknown rank type".toList

def SubjectKind.cppEnum : SubjectKind → Checked Text
  | .metric => .ok "margot::OperatingPointSegments::METRICS".toList
  | .knob => .ok "margot::OperatingPointSegments::SOFTWARE_KNOBS".toList
  | .unknown => .error "cpp enum:: unknown subject kind".toList

def GoalComparison.cppEnum : GoalComparison → Text
  | .lessOrEqual => "margot::ComparisonFunctions::LESS_OR_EQUAL".toList
  | .greaterOrEqual => "margot::ComparisonFunctions::GREATER_OR_EQUAL".toList
  | .less => "margot::ComparisonFunctions::LESS".toList
  | .greater => "margot::ComparisonFunctions::GREATER".toList

/-- The code that translates the name of a field to its index. -/
def generateFieldGetter (kind : SubjectKind) (fieldName blockName : Text) :
    Text :=
  let sectionName := if kind = .metric then "metric" else "knob"
  "static_cast<size_t>(margot::".toList ++ blockName ++ "::".toList ++
    sectionName.toList ++ "::".toList ++ fieldName ++ ")".toList

/-- The identifier of a goal in the generated code. -/
def generateGoalIdentifier (stateName : Text) (id : Nat) : Text :=
  stateName ++ "_constraint_".toList ++ numeral id

end Names

section Emitter

/-- A generated call of `add_constraint`. -/
structure AddedConstraint where
  segment : Text
  field : Text
  confidence : Text
  goal : Text
  priority : Nat
deriving Repr, DecidableEq

/-- A statement of the generated code that defines the states of a manager. -/
inductive ManagerCall where
  | createNewState (name : Text)
  | changeActiveState (name : Text)
  | setRank (direction combination : Text) (fields coefficients : List Text)
  | addConstraint (constraint : AddedConstraint)
deriving Repr, DecidableEq

/-- The statement as it is written. -/
def ManagerCall.text : ManagerCall → Text
  | .createNewState name =>
      "manager.create_new_state(\"".toList ++ name ++ "\");".toList
  | .changeActiveState name =>
      "manager.change_active_state(\"".toList ++ name ++ "\");".toList
  | .setRank direction combination fields coefficients =>
      "manager.set_rank<".toList ++ direction ++ ",".toList ++ combination ++
        ",".toList ++ ",".toList.intercalate fields ++ ">(".toList ++
        ",".toList.intercalate coefficients ++ ");".toList
  | .addConstraint call =>
      "manager.add_constraint<".toList ++ call.segment ++ ",".toList ++
        call.field ++ ",".toList ++ call.confidence ++ ">(goals.".toList ++
        call.goal ++ ",".toList ++ numeral call.priority ++ ");".toList

def ManagerCall.added? : ManagerCall → Option AddedConstraint
  | .addConstraint call => some call
  | _ => none

def genField (blockName : Text) (field : RankFieldModel) : Checked Text := do
  let segment ← field.kind.cppEnum
  return "margot::OPField<".toList ++ segment ++ ",BoundType::LOWER,".toList ++
    generateFieldGetter field.kind field.name blockName ++ ",0>".toList

/-- The rank of a state, if it has a direction. -/
def generateRank (state : StateModel) (blockName : Text) :
    Checked (List ManagerCall) :=
  if state.direction = .none then .ok []
  else do
    let direction ← state.direction.cppEnum
    let combination ← state.combination.cppEnum
    let fields ← state.rankFields.mapM (genField blockName)
    return [.setRank direction combination fields
      (state.rankFields.map (·.coefficient))]

def generateConstraint (state : StateModel) (blockName : Text) (counter : Nat)
    (constraint : ConstraintModel) : Checked AddedConstraint := do
  let segment ← constraint.kind.cppEnum
  return {
    segment := segment
    field := generateFieldGetter constraint.kind constraint.name blockName
    confidence := constraint.confidence
    goal := generateGoalIdentifier state.name counter
    priority := counter }

/-- The code of a state.  The counter of the constraints stays at zero. -/
def generateCppContent (state : StateModel) (blockName : Text) :
    Checked (List ManagerCall) := do
  let rank ← generateRank state blockName
  let constraints ← state.constraints.mapM (generateConstraint state blockName 0)
  return [.createNewState state.name, .changeActiveState state.name] ++ rank ++
    constraints.map .addConstraint

/-- The code of each state of a block: none where the block is just about
profiling. -/
def statesContent (block : BlockModel) : Checked (List (List ManagerCall)) :=
  if block.knobs = [] then .ok (block.states.map fun _ => [])
  else block.states.mapM fun state => generateCppContent state block.name

end Emitter

section Goals

/-- A member of the structure with the goals of a block. -/
structure GoalDeclaration where
  segmentType : Text
  comparison : Text
  identifier : Text
deriving Repr, DecidableEq

def declareGoal (block : BlockModel) (state : StateModel) (counter : Nat)
    (constraint : ConstraintModel) : Checked GoalDeclaration :=
  let identifier := generateGoalIdentifier state.name counter
  match constraint.kind with
  | .metric =>
      .ok ⟨block.metricsSegmentType, constraint.cfun.cppEnum, identifier⟩
  | .knob => .ok ⟨block.knobsSegmentType, constraint.cfun.cppEnum, identifier⟩
  | .unknown =>
      .error "manager generators: unknown constraint kind".toList

/-- The members of the structure with the goals.  Here too the counter stays
at zero. -/
def declareGoals (block : BlockModel) : Checked (List GoalDeclaration) := do
  let declared ← block.states.mapM fun state =>
    state.constraints.mapM (declareGoal block state 0)
  return declared.flatten

/-- The initialisers of the goals, one for each member. -/
def goalValues (block : BlockModel) : List Text :=
  block.states.flatMap fun state => state.constraints.map (·.value)

/-- The goals of which the log prints the value. -/
def logGoals (block : BlockModel) : List Text :=
  if block.knobs = [] then []
  else block.states.flatMap fun state =>
    (List.range state.constraints.length).map (generateGoalIdentifier state.name)

end Goals

section Requirements

/-- The goals of a state: the identifier and the value of each constraint. -/
def StateModel.goals (state : StateModel) : List (Text × Text) :=
  state.constraints.mapIdx fun index constraint =>
    (generateGoalIdentifier state.name index, constraint.value)

/-- The call is about the constraint. -/
structure About (blockName : Text) (constraint : ConstraintModel)
    (call : AddedConstraint) : Prop where
  segment : constraint.kind.cppEnum = .ok call.segment
  field : call.field =
    generateFieldGetter constraint.kind constraint.name blockName
  confidence : call.confidence = constraint.confidence

/-- The code of a state adds each of its constraints, with a priority of its
own. -/
structure KeepsState (blockName : Text) (state : StateModel)
    (calls : List ManagerCall) : Prop where
  subjects : List.Forall₂ (About blockName) state.constraints
    (calls.filterMap ManagerCall.added?)
  goals : (calls.filterMap ManagerCall.added?).map (·.goal) =
    state.goals.map Prod.fst
  priorities : ((calls.filterMap ManagerCall.added?).map (·.priority)).Pairwise
    (· < ·)

/-- The code of a block keeps the constraints of all its states. -/
structure KeepsConstraints (block : BlockModel) : Prop where
  states : ∃ sections, statesContent block = .ok sections ∧
    List.Forall₂ (KeepsState block.name) block.states sections
  goals : ∃ declared, declareGoals block = .ok declared ∧
    declared.map (·.identifier) =
      (block.states.flatMap StateModel.goals).map Prod.fst ∧
    (declared.map (·.identifier)).Nodup ∧
    (declared.map (·.identifier)).zip (goalValues block) =
      block.states.flatMap StateModel.goals
  logged : block.knobs ≠ [] →
    logGoals block = (block.states.flatMap StateModel.goals).map Prod.fst

/-- The blocks that the generators write as their user means them. -/
structure Unambiguous (block : BlockModel) : Prop where
  single : ∀ state ∈ block.states, state.constraints.length ≤ 1
  distinct : ((block.states.filter fun state =>
    state.constraints ≠ []).map (·.name)).Nodup
  ranked : block.knobs ≠ [] → ∀ state ∈ block.states,
    state.direction ≠ .none → state.combination ≠ .none

end Requirements

section Rules

theorem SubjectKind.cppEnum_ok {kind : SubjectKind} (hknown : kind ≠ .unknown) :
    ∃ segment, kind.cppEnum = .ok segment := by
  cases kind with
  | metric => exact ⟨_, rfl⟩
  | knob => exact ⟨_, rfl⟩
  | unknown => contradiction

theorem map_fst_goals (state : StateModel) :
    state.goals.map Prod.fst =
      (List.range state.constraints.length).map
        (generateGoalIdentifier state.name) := by
  apply List.ext_getElem
  · simp [StateModel.goals]
  · intro index hleft hright
    simp [StateModel.goals]

theorem map_snd_goals (state : StateModel) :
    state.goals.map Prod.snd = state.constraints.map (·.value) := by
  apply List.ext_getElem
  · simp [StateModel.goals]
  · intro index hleft hright
    simp [StateModel.goals]

theorem goalValues_eq (block : BlockModel) :
    goalValues block = (block.states.flatMap StateModel.goals).map Prod.snd := by
  simp only [goalValues, List.map_flatMap, map_snd_goals]

theorem logGoals_eq {block : BlockModel} (hknobs : block.knobs ≠ []) :
    logGoals block = (block.states.flatMap StateModel.goals).map Prod.fst := by
  simp only [logGoals, if_neg hknobs, List.map_flatMap, map_fst_goals]

/-- A constraint that has a kind is added, with the counter that is given. -/
theorem generateConstraint_ok (state : StateModel) (blockName : Text)
    (counter : Nat) {constraint : ConstraintModel}
    (hknown : constraint.kind ≠ .unknown) :
    ∃ call, generateConstraint state blockName counter constraint = .ok call := by
  obtain ⟨segment, hsegment⟩ := SubjectKind.cppEnum_ok hknown
  exact ⟨_, bind_eq_ok.mpr ⟨segment, hsegment, rfl⟩⟩

theorem generateConstraint_eq_ok {state : StateModel} {blockName : Text}
    {counter : Nat} {constraint : ConstraintModel} {call : AddedConstraint}
    (hcall : generateConstraint state blockName counter constraint = .ok call) :
    About blockName constraint call ∧
      call.goal = generateGoalIdentifier state.name counter ∧
      call.priority = counter := by
  obtain ⟨segment, hsegment, hpure⟩ := bind_eq_ok.mp hcall
  obtain rfl := pure_eq_ok.mp hpure
  exact ⟨⟨hsegment, rfl, rfl⟩, rfl, rfl⟩

/-- The rank of a state with a direction needs a type. -/
theorem generateRank_ok {state : StateModel} {blockName : Text}
    (hknown : ∀ field ∈ state.rankFields, field.kind ≠ .unknown) :
    (∃ rank, generateRank state blockName = .ok rank) ↔
      (state.direction ≠ .none → state.combination ≠ .none) := by
  obtain ⟨fields, hfields⟩ :
      ∃ fields, state.rankFields.mapM (genField blockName) = .ok fields := by
    apply exists_mapM.mpr
    intro field hmem
    obtain ⟨segment, hsegment⟩ := SubjectKind.cppEnum_ok (hknown field hmem)
    exact ⟨_, bind_eq_ok.mpr ⟨segment, hsegment, rfl⟩⟩
  rw [generateRank]
  cases hdirection : state.direction with
  | none => simp
  | minimize | maximize =>
      cases hcombination : state.combination with
      | none => simp [RankDirection.cppEnum, RankType.cppEnum, bind, Except.bind]
      | simple | geometric | linear =>
          simp [RankDirection.cppEnum, RankType.cppEnum, hfields, bind,
            Except.bind, pure, Except.pure]

/-- A rank is not a constraint. -/
theorem filterMap_generateRank {state : StateModel} {blockName : Text}
    {rank : List ManagerCall} (hrank : generateRank state blockName = .ok rank) :
    rank.filterMap ManagerCall.added? = [] := by
  rw [generateRank] at hrank
  split at hrank
  · obtain rfl := Except.ok.inj hrank
    rfl
  · simp only [bind_eq_ok, pure_eq_ok] at hrank
    obtain ⟨-, -, -, -, fields, -, rfl⟩ := hrank
    rfl

/-- What the code of a state adds: its constraints in order, all of them with
the identifier and the priority of the first one. -/
theorem added_of_generateCppContent {state : StateModel} {blockName : Text}
    {calls : List ManagerCall}
    (hcalls : generateCppContent state blockName = .ok calls) :
    List.Forall₂ (About blockName) state.constraints
        (calls.filterMap ManagerCall.added?) ∧
      (calls.filterMap ManagerCall.added?).map (·.goal) =
        state.constraints.map (fun _ => generateGoalIdentifier state.name 0) ∧
      (calls.filterMap ManagerCall.added?).map (·.priority) =
        state.constraints.map fun _ => 0 := by
  simp only [generateCppContent, bind_eq_ok, pure_eq_ok] at hcalls
  obtain ⟨rank, hrank, constraints, hconstraints, rfl⟩ := hcalls
  have hadded : List.filterMap ManagerCall.added?
      ([.createNewState state.name, .changeActiveState state.name] ++ rank ++
        constraints.map .addConstraint) = constraints := by
    rw [List.filterMap_append, List.filterMap_append,
      filterMap_generateRank hrank, List.filterMap_map]
    exact List.filterMap_some
  rw [hadded]
  refine ⟨(mapM_eq_ok.mp hconstraints).imp fun constraint call hcall =>
    (generateConstraint_eq_ok hcall).1, ?_, ?_⟩
  · exact map_of_mapM hconstraints fun constraint call hcall =>
      (generateConstraint_eq_ok hcall).2.1
  · exact map_of_mapM hconstraints fun constraint call hcall =>
      (generateConstraint_eq_ok hcall).2.2

/-- The code of a state is generated exactly when its rank is. -/
theorem generateCppContent_ok {state : StateModel} {blockName : Text}
    (hknown : ∀ constraint ∈ state.constraints, constraint.kind ≠ .unknown) :
    (∃ calls, generateCppContent state blockName = .ok calls) ↔
      ∃ rank, generateRank state blockName = .ok rank := by
  obtain ⟨constraints, hconstraints⟩ := exists_mapM.mpr fun constraint hmem =>
    generateConstraint_ok state blockName 0 (hknown constraint hmem)
  constructor
  · rintro ⟨calls, hcalls⟩
    obtain ⟨rank, hrank, -⟩ := bind_eq_ok.mp hcalls
    exact ⟨rank, hrank⟩
  · rintro ⟨rank, hrank⟩
    exact ⟨_, bind_eq_ok.mpr
      ⟨rank, hrank, bind_eq_ok.mpr ⟨constraints, hconstraints, rfl⟩⟩⟩

theorem identifier_of_declareGoal {block : BlockModel} {state : StateModel}
    {counter : Nat} {constraint : ConstraintModel} {goal : GoalDeclaration}
    (hgoal : declareGoal block state counter constraint = .ok goal) :
    goal.identifier = generateGoalIdentifier state.name counter := by
  rw [declareGoal] at hgoal
  split at hgoal
  · obtain rfl := Except.ok.inj hgoal
    rfl
  · obtain rfl := Except.ok.inj hgoal
    rfl
  · contradiction

/-- The identifiers that are declared: those of the first constraints, as often
as there are constraints. -/
theorem identifiers_of_declareGoals {block : BlockModel}
    {declared : List GoalDeclaration}
    (hdeclared : declareGoals block = .ok declared) :
    declared.map (·.identifier) = block.states.flatMap fun state =>
      state.constraints.map fun _ => generateGoalIdentifier state.name 0 := by
  obtain ⟨sections, hsections, hpure⟩ := bind_eq_ok.mp hdeclared
  obtain rfl := pure_eq_ok.mp hpure
  have hstates : sections.map (List.map (·.identifier)) =
      block.states.map fun state =>
        state.constraints.map fun _ => generateGoalIdentifier state.name 0 :=
    map_of_mapM hsections fun state goals hgoals =>
      map_of_mapM hgoals fun constraint goal hgoal =>
        identifier_of_declareGoal hgoal
  rw [List.map_flatten, hstates, List.flatMap]

theorem declareGoals_ok {block : BlockModel}
    (hknown : ∀ state ∈ block.states, ∀ constraint ∈ state.constraints,
      constraint.kind ≠ .unknown) :
    ∃ declared, declareGoals block = .ok declared := by
  have hstates : ∃ sections, block.states.mapM (fun state =>
      state.constraints.mapM (declareGoal block state 0)) = .ok sections := by
    apply exists_mapM.mpr
    intro state hstate
    apply exists_mapM.mpr
    intro constraint hmem
    cases hkind : constraint.kind with
    | metric => exact ⟨_, by rw [declareGoal, hkind]⟩
    | knob => exact ⟨_, by rw [declareGoal, hkind]⟩
    | unknown => exact absurd hkind (hknown state hstate constraint hmem)
  obtain ⟨sections, hsections⟩ := hstates
  exact ⟨_, bind_eq_ok.mpr ⟨sections, hsections, rfl⟩⟩

theorem generateGoalIdentifier_inj {one other : Text} {id : Nat} :
    generateGoalIdentifier one id = generateGoalIdentifier other id ↔
      one = other := by
  simp [generateGoalIdentifier]

/-- The identifiers are declared once exactly when no two constraints of the
block meet in the name of a state. -/
theorem nodup_identifiers_iff (states : List StateModel) :
    (states.flatMap fun state => state.constraints.map fun _ =>
        generateGoalIdentifier state.name 0).Nodup ↔
      (∀ state ∈ states, state.constraints.length ≤ 1) ∧
        ((states.filter fun state =>
          state.constraints ≠ []).map (·.name)).Nodup := by
  rw [List.nodup_flatMap]
  apply and_congr
  · refine forall₂_congr fun state _ => ?_
    rw [List.map_const', List.nodup_replicate]
  · rw [List.Nodup, List.pairwise_map, List.pairwise_filter]
    apply List.Pairwise.iff
    intro one other
    rw [Function.onFun_apply, List.map_const', List.map_const']
    constructor
    · intro hdisjoint hone hother hname
      rw [decide_eq_true_eq] at hone hother
      apply hdisjoint (a := generateGoalIdentifier one.name 0)
      · exact List.mem_replicate.mpr ⟨by simpa using hone, rfl⟩
      · exact List.mem_replicate.mpr ⟨by simpa using hother, by rw [hname]⟩
    · intro hname identifier hone hother
      obtain ⟨hone, rfl⟩ := List.mem_replicate.mp hone
      obtain ⟨hother, hsame⟩ := List.mem_replicate.mp hother
      refine hname ?_ ?_ (generateGoalIdentifier_inj.mp hsame)
      · simpa using hone
      · simpa using hother

/-- Where no state has two constraints every identifier is the right one. -/
theorem goals_of_single {state : StateModel}
    (hsingle : state.constraints.length ≤ 1) :
    (state.constraints.map fun _ => generateGoalIdentifier state.name 0) =
      state.goals.map Prod.fst := by
  rw [map_fst_goals]
  match hconstraints : state.constraints with
  | [] => rfl
  | [_] => rfl
  | _ :: _ :: _ => simp [hconstraints] at hsingle

end Rules

section Block

variable {block : BlockModel}

/-- The code of the states is generated exactly when every state with a rank
has the type of it. -/
theorem statesContent_ok (hvalid : ValidBlock block) :
    (∃ sections, statesContent block = .ok sections) ↔
      (block.knobs ≠ [] → ∀ state ∈ block.states,
        state.direction ≠ .none → state.combination ≠ .none) := by
  have hgenerated : ∀ state ∈ block.states,
      ((∃ calls, generateCppContent state block.name = .ok calls) ↔
        (state.direction ≠ .none → state.combination ≠ .none)) := by
    intro state hmem
    have hstate := hvalid.states state hmem
    exact (generateCppContent_ok hstate.known).trans
      (generateRank_ok hstate.knownRank)
  rw [statesContent]
  split
  · next hknobs => exact iff_of_true ⟨_, rfl⟩ fun hsome => absurd hknobs hsome
  · next hknobs =>
      constructor
      · rintro ⟨sections, hsections⟩ - state hmem
        have hcalls := exists_mapM.mp ⟨sections, hsections⟩ state hmem
        exact (hgenerated state hmem).mp hcalls
      · intro hranked
        apply exists_mapM.mpr
        intro state hmem
        exact (hgenerated state hmem).mpr (hranked hknobs state hmem)

/-- A block without knobs has no constraints. -/
theorem constraints_of_no_knobs (hvalid : ValidBlock block)
    (hknobs : block.knobs = []) {state : StateModel}
    (hmem : state ∈ block.states) : state.constraints = [] := by
  by_contra hsome
  rcases (hvalid.states state hmem).constraints hsome with hknob | hmetric
  · exact hknob hknobs
  · exact hmetric (hvalid.geometry.mp hknobs)

/-- With at most one constraint in each state the code keeps them. -/
theorem keepsState_of_single (hvalid : ValidBlock block)
    {sections : List (List ManagerCall)}
    (hsections : statesContent block = .ok sections)
    (hsingle : ∀ state ∈ block.states, state.constraints.length ≤ 1) :
    List.Forall₂ (KeepsState block.name) block.states sections := by
  rw [statesContent] at hsections
  split at hsections
  · next hknobs =>
      obtain rfl := Except.ok.inj hsections
      rw [List.forall₂_map_right_iff, List.forall₂_same]
      intro state hmem
      have hnone := constraints_of_no_knobs hvalid hknobs hmem
      refine ⟨?_, ?_, .nil⟩
      · rw [hnone]
        exact .nil
      · rw [map_fst_goals, hnone]
        rfl
  · have hall := mapM_eq_ok.mp hsections
    refine ((List.forall₂_and_left _ _).mpr ⟨hsingle, hall⟩).imp ?_
    rintro state calls ⟨hstate, hcalls⟩
    obtain ⟨hsubjects, hgoals, hpriorities⟩ := added_of_generateCppContent hcalls
    refine ⟨hsubjects, hgoals.trans (goals_of_single hstate), ?_⟩
    rw [hpriorities, List.map_const']
    exact List.pairwise_replicate.mpr (.inl hstate)

theorem KeepsConstraints.unambiguous (hvalid : ValidBlock block)
    (hkeeps : KeepsConstraints block) : Unambiguous block := by
  obtain ⟨⟨sections, hsections, -⟩, ⟨declared, hdeclared, -, honce, -⟩, -⟩ :=
    hkeeps
  rw [identifiers_of_declareGoals hdeclared, nodup_identifiers_iff] at honce
  exact ⟨honce.1, honce.2, (statesContent_ok hvalid).mp ⟨sections, hsections⟩⟩

theorem Unambiguous.keepsConstraints (hvalid : ValidBlock block)
    (hclear : Unambiguous block) : KeepsConstraints block := by
  obtain ⟨sections, hsections⟩ := (statesContent_ok hvalid).mpr hclear.ranked
  obtain ⟨declared, hdeclared⟩ := declareGoals_ok fun state hstate =>
    (hvalid.states state hstate).known
  have hidentifiers := identifiers_of_declareGoals hdeclared
  have honce : (declared.map (·.identifier)).Nodup := by
    rw [hidentifiers, nodup_identifiers_iff]
    exact ⟨hclear.single, hclear.distinct⟩
  have hown : declared.map (·.identifier) =
      (block.states.flatMap StateModel.goals).map Prod.fst := by
    rw [hidentifiers, List.map_flatMap]
    exact List.flatMap_congr fun state hmem =>
      goals_of_single (hclear.single state hmem)
  refine ⟨⟨sections, hsections,
    keepsState_of_single hvalid hsections hclear.single⟩,
    ⟨declared, hdeclared, hown, honce, ?_⟩, logGoals_eq⟩
  rw [hown, goalValues_eq]
  exact (List.zip_of_prod rfl rfl).symm

/-- The generated code keeps the constraints of an accepted block exactly when
no two of them meet in the name of a state. -/
theorem keepsConstraints_iff {model app : ApplicationModel}
    (happ : validate model = .ok app) {block : BlockModel}
    (hblock : block ∈ app.blocks) :
    KeepsConstraints block ↔ Unambiguous block := by
  have hvalid := (validApplication_of_validate happ).blocks block hblock
  exact ⟨fun hkeeps => hkeeps.unambiguous hvalid,
    fun hclear => hclear.keepsConstraints hvalid⟩

end Block

namespace Sample

def latency : ConstraintModel :=
  ⟨"latency".toList, .less, "5".toList, .unknown, []⟩

def threads : ConstraintModel :=
  ⟨"threads".toList, .greater, "1".toList, .unknown, []⟩

/-- The block with one state. -/
def constrained (constraints : List ConstraintModel) : BlockModel :=
  { block with states := [⟨"fast".toList, .none, .none, [], constraints⟩] }

def constrainedApplication (constraints : List ConstraintModel) :
    ApplicationModel :=
  application "1.0".toList (constrained constraints)

def boundedBlock : BlockModel :=
  (validateBlock (constrained [latency])).toOption.get (by decide +kernel)

theorem keepsConstraints_iff_bounded :
    KeepsConstraints boundedBlock ↔ Unambiguous boundedBlock := by
  have happ : validate (constrainedApplication [latency]) =
      .ok ⟨"app".toList, "1.0".toList, [boundedBlock]⟩ := rfl
  exact keepsConstraints_iff happ List.mem_cons_self

def crampedBlock : BlockModel :=
  (validateBlock (constrained [latency, threads])).toOption.get
    (by decide +kernel)

/-- Two constraints of a state share a goal and a priority. -/
theorem not_keepsConstraints_cramped :
    ¬ ∀ model app, validate model = .ok app →
      ∀ block ∈ app.blocks, KeepsConstraints block := by
  intro hall
  have happ : validate (constrainedApplication [latency, threads]) =
      .ok ⟨"app".toList, "1.0".toList, [crampedBlock]⟩ := rfl
  have hblock := hall _ _ happ crampedBlock List.mem_cons_self
  have hvalid := (validApplication_of_validate happ).blocks crampedBlock
    List.mem_cons_self
  have hsingle := (hblock.unambiguous hvalid).single
  have hcramped : ¬ ∀ state ∈ crampedBlock.states,
      state.constraints.length ≤ 1 := by decide +kernel
  exact hcramped hsingle

end Sample

end Margot.Heel
