/-
What is left of an optimization problem when its composition is parsed: the
constraints are written under one tag and read under another, and both
directions are written under the tag of one.
-/
import Mathlib.Data.List.Find
import Margot.Heel.Parser
import Margot.Heel.Validate

namespace Margot.Heel

/-- A simple rank is written as a linear one. -/
def RankType.Equivalent (a b : RankType) : Prop :=
  rankCombinationTag a = rankCombinationTag b

/-- The name and the coefficient of a field of the rank. -/
def RankFieldModel.entry (field : RankFieldModel) : Text × Text :=
  (field.name, field.coefficient)

/-- What a constraint demands. -/
def ConstraintModel.demand (constraint : ConstraintModel) :
    Text × GoalComparison × Text × Text :=
  (constraint.name, constraint.cfun, constraint.value, constraint.confidence)

/-- Two states state the same optimization problem. -/
structure SameProblem (parsed state : StateModel) : Prop where
  name : parsed.name = state.name
  constraints : parsed.constraints.map ConstraintModel.demand =
    state.constraints.map ConstraintModel.demand
  direction : parsed.direction = state.direction
  combination : parsed.combination.Equivalent state.combination
  rankFields : parsed.rankFields.map RankFieldModel.entry =
    state.rankFields.map RankFieldModel.entry

/-- The composition of the state is parsed as the same problem. -/
def StateSurvives (state : StateModel) : Prop :=
  ∃ parsed, parseState (composeState state) = .ok parsed ∧
    SameProblem parsed state

/-- No constraint, and either no rank at all or a rank to minimize whose fields
have names without a separator of paths. -/
def Reparsable (state : StateModel) : Prop :=
  state.constraints = [] ∧
    ((state.rankFields = [] ∧ state.direction = .none ∧
        state.combination = .none) ∨
      (state.rankFields ≠ [] ∧ state.direction = .minimize ∧
        ∀ field ∈ state.rankFields, '.' ∉ field.name))

section Accepted

/-- What the validation of a state leaves. -/
structure AcceptedState (state : StateModel) : Prop where
  direction : state.rankFields ≠ [] → state.direction ≠ .none
  combination : state.rankFields ≠ [] → state.combination ≠ .none
  fields : ∀ field ∈ state.rankFields, field.name ≠ []
  constraints : ∀ constraint ∈ state.constraints, constraint.name ≠ []

theorem name_of_completeRankField {model field : RankFieldModel}
    (hfield : completeRankField model = .ok field) : field.name ≠ [] := by
  simp only [completeRankField, bind_eq_ok, require_eq_ok, pure_eq_ok] at hfield
  obtain ⟨-, hname, rfl⟩ := hfield
  simpa using hname

theorem name_of_completeConstraint {model constraint : ConstraintModel}
    (hconstraint : completeConstraint model = .ok constraint) :
    constraint.name ≠ [] := by
  simp only [completeConstraint, bind_eq_ok, require_eq_ok, pure_eq_ok]
    at hconstraint
  obtain ⟨-, hname, -, -, rfl⟩ := hconstraint
  simpa using hname

theorem acceptedState_of_validate {metrics : List MetricModel}
    {knobs : List KnobModel} {model state : StateModel}
    (hvalid : validateState metrics knobs model = .ok state) :
    AcceptedState state := by
  simp only [validateState, bind_eq_ok, pure_eq_ok, require_eq_ok] at hvalid
  obtain ⟨-, -, -, -, -, hdirection, -, hcombination, fields, hfields,
    constraints, hconstraints, rankFields, hrank, subjects, hsubjects, rfl⟩ :=
      hvalid
  have hsome : rankFields ≠ [] → model.rankFields ≠ [] := by
    rintro hsome hnil
    rw [hnil] at hfields
    obtain rfl := pure_eq_ok.mp hfields
    exact hsome (pure_eq_ok.mp hrank).symm
  refine ⟨fun hne => ?_, fun hne => ?_, fun field hmem => ?_,
    fun constraint hmem => ?_⟩
  · simpa [hsome hne] using hdirection
  · simpa [hsome hne] using hcombination
  · obtain ⟨completed, hcompleted, hkind⟩ := exists_of_mem_mapM hrank hmem
    obtain ⟨kind, -, hpure⟩ := bind_eq_ok.mp hkind
    obtain rfl := pure_eq_ok.mp hpure
    obtain ⟨original, -, hfield⟩ := exists_of_mem_mapM hfields hcompleted
    have hname := name_of_completeRankField hfield
    exact hname
  · obtain ⟨completed, hcompleted, hkind⟩ := exists_of_mem_mapM hsubjects hmem
    obtain ⟨kind, -, hpure⟩ := bind_eq_ok.mp hkind
    obtain rfl := pure_eq_ok.mp hpure
    obtain ⟨original, -, hconstraint⟩ :=
      exists_of_mem_mapM hconstraints hcompleted
    have hname := name_of_completeConstraint hconstraint
    exact hname

end Accepted

section Composed

theorem addList_node {α : Type} (compose : α → Ptree) {tag : Text}
    (hsome : tag ≠ []) (hplain : '.' ∉ tag) (data : Text)
    (children : List (Text × Ptree)) (elements : List α) :
    addList compose (.node data children) elements tag =
      .node data (children ++ Ptree.branch tag (elements.map compose)) := by
  rw [addList, Ptree.branch, List.isEmpty_map]
  split
  · rw [List.append_nil]
  · exact Ptree.addChild_plain hsome hplain _ _

/-- The subject of a constraint is lost. -/
theorem parseConstraint_compose (constraint : ConstraintModel) :
    parseConstraint (composeConstraint constraint) =
      .ok { constraint with name := [], kind := .unknown } := by
  obtain ⟨name, cfun, value, kind, confidence⟩ := constraint
  cases cfun <;> rfl

theorem parseRank_compose {field : RankFieldModel} (hsome : field.name ≠ [])
    (hplain : '.' ∉ field.name) :
    (parseRank (composeRank field)).entry = field.entry := by
  rw [composeRank, Ptree.put_new hsome hplain List.not_mem_nil]
  rfl

/-- What is read as the name of a field is at most one fragment of it. -/
theorem not_mem_name_of_parseRank (field : RankFieldModel) :
    '.' ∉ (parseRank (composeRank field)).name := by
  rw [composeRank, Ptree.put]
  cases hfragments : Ptree.fragments field.name with
  | nil => simp [Ptree.putAt, parseRank, Ptree.children, Ptree.empty]
  | cons key rest =>
      have hkey : key ∈ Ptree.fragments field.name := by simp [hfragments]
      simpa [Ptree.putAt, parseRank, Ptree.children, Ptree.empty, Ptree.force]
        using Ptree.not_mem_of_mem_fragments hkey

section Rank

variable {state : StateModel}

theorem composeState_eq (haccepted : AcceptedState state) :
    composeState state = .node [] (("name".toList, .leaf state.name) ::
      (rankDirectionTag state.direction, .node []
        (Ptree.branch (rankCombinationTag state.combination)
          (state.rankFields.map composeRank))) ::
      Ptree.branch "subject_to".toList
        (state.constraints.map composeConstraint)) := by
  have hrank : addList composeRank Ptree.empty state.rankFields
      (rankCombinationTag state.combination) = .node []
        (Ptree.branch (rankCombinationTag state.combination)
          (state.rankFields.map composeRank)) := by
    by_cases hsome : state.rankFields = []
    · simp [hsome, addList, Ptree.branch, Ptree.empty]
    · have hcombination := haccepted.combination hsome
      apply addList_node
      · revert hcombination
        cases state.combination <;> decide
      · cases state.combination <;> decide
  have hdirection : ∀ child : Ptree,
      (Ptree.empty.putAll [("name".toList, state.name)]).addChild
          (rankDirectionTag state.direction) child =
        .node [] [("name".toList, .leaf state.name),
          (rankDirectionTag state.direction, child)] := by
    intro child
    cases state.direction <;> rfl
  rw [composeState]
  simp only [hrank, hdirection]
  exact addList_node composeConstraint (by decide) (by decide) _ _ _

/-- The rank is found under the tags it was written with. -/
theorem rankElements_compose (haccepted : AcceptedState state)
    {guess : RankDirection × RankType} (hguess : guess ∈ guessedRanks) :
    rankElements (composeState state) guess =
      if rankDirectionTag state.direction = guess.1.toStr ∧
          rankCombinationTag state.combination = guess.2.toStr then
        state.rankFields.map composeRank
      else [] := by
  have htags : '.' ∉ guess.1.toStr ∧ guess.2.toStr ≠ [] ∧
      '.' ∉ guess.2.toStr ∧ "name".toList ≠ guess.1.toStr ∧
      "subject_to".toList ≠ guess.1.toStr := by
    revert guess
    decide
  obtain ⟨hdirection, hsome, hcombination, hname, hsubject⟩ := htags
  rw [rankElements, Ptree.elements,
    Ptree.getChild?_field hdirection hsome hcombination,
    composeState_eq haccepted, Ptree.children, Ptree.find_cons_ne hname]
  by_cases hsame : rankDirectionTag state.direction = guess.1.toStr
  · rw [hsame, Ptree.find_cons_self, Option.bind_some, Ptree.children]
    by_cases hrank : rankCombinationTag state.combination = guess.2.toStr
    · rw [hrank, if_pos ⟨rfl, rfl⟩]
      exact Ptree.elements_branch _ _
    · rw [if_neg fun hboth => hrank hboth.2, Ptree.find_branch_none hrank]
      rfl
  · rw [if_neg fun hboth => hsame hboth.1, Ptree.find_cons_ne hsame,
      Ptree.find_branch_none hsubject]
    rfl

theorem elements_constraints (haccepted : AcceptedState state) :
    (composeState state).elements "subject_to".toList =
      state.constraints.map composeConstraint := by
  have hdirection : rankDirectionTag state.direction ≠ "subject_to".toList := by
    cases state.direction <;> decide
  rw [Ptree.elements, Ptree.getChild?_plain (by decide) (by decide),
    composeState_eq haccepted, Ptree.children, Ptree.find_cons_ne (by decide),
    Ptree.find_cons_ne hdirection]
  exact Ptree.elements_branch _ _

theorem name_composeState (haccepted : AcceptedState state) :
    (composeState state).text "name".toList = state.name := by
  rw [Ptree.text, Ptree.getChild?_plain (by decide) (by decide),
    composeState_eq haccepted, Ptree.children, Ptree.find_cons_self]
  rfl

/-- The direction of a rank that is found. -/
def StateModel.reparsedDirection (state : StateModel) : RankDirection :=
  if state.rankFields = [] then .none else .minimize

/-- The combination of a rank that is found. -/
def StateModel.reparsedCombination (state : StateModel) : RankType :=
  if state.rankFields = [] then .none
  else if state.combination = .geometric then .geometric
  else .linear

/-- What is left of a state. -/
def StateModel.reparsed (state : StateModel) : StateModel where
  name := state.name
  direction := state.reparsedDirection
  combination := state.reparsedCombination
  rankFields := state.rankFields.map fun field => parseRank (composeRank field)
  constraints := state.constraints.map fun constraint =>
    { constraint with name := [], kind := .unknown }

/-- Both directions are found as the first one. -/
theorem tags_of_accepted (haccepted : AcceptedState state)
    (hfields : state.rankFields ≠ []) :
    rankDirectionTag state.direction = RankDirection.minimize.toStr ∧
      rankCombinationTag state.combination =
        state.reparsedCombination.toStr ∧
      (RankDirection.minimize, state.reparsedCombination) ∈ guessedRanks := by
  have hdirection := haccepted.direction hfields
  have hcombination := haccepted.combination hfields
  rw [StateModel.reparsedCombination, if_neg hfields]
  revert hdirection hcombination
  cases state.direction <;> cases state.combination <;> decide

theorem find_guess (haccepted : AcceptedState state) :
    guessedRanks.find? (fun guess =>
      !(rankElements (composeState state) guess).isEmpty) =
        if state.rankFields = [] then none
        else some (.minimize, state.reparsedCombination) := by
  split
  · next hfields =>
      rw [List.find?_eq_none]
      intro guess hguess
      simp [rankElements_compose haccepted hguess, hfields]
  · next hfields =>
      obtain ⟨hdirection, hcombination, -⟩ := tags_of_accepted haccepted hfields
      have hfound : ∀ guess ∈ guessedRanks,
          (!(rankElements (composeState state) guess).isEmpty) =
            decide (RankDirection.minimize.toStr = guess.1.toStr ∧
              state.reparsedCombination.toStr = guess.2.toStr) := by
        intro guess hguess
        rw [rankElements_compose haccepted hguess, hdirection, hcombination]
        split
        · next hsame => simp [hsame, hfields]
        · next hother => simp [hother]
      rw [List.find?_congr hfound, StateModel.reparsedCombination, if_neg hfields]
      split <;> decide

/-- The composition of an accepted state is parsed, whatever is lost. -/
theorem parseState_compose (haccepted : AcceptedState state) :
    parseState (composeState state) = .ok state.reparsed := by
  have hconstraints : parseList parseConstraint (composeState state)
      "subject_to".toList = .ok (state.constraints.map fun constraint =>
        { constraint with name := [], kind := .unknown }) := by
    rw [parseList, elements_constraints haccepted]
    exact mapM_map_ok fun constraint _ => parseConstraint_compose constraint
  have hrank : guessedRanks.find? (fun guess =>
      !(rankElements (composeState state) guess).isEmpty) =
        if state.rankFields = [] then none
        else some (.minimize, state.reparsedCombination) :=
    find_guess haccepted
  rw [parseState, hconstraints, hrank, name_composeState haccepted,
    StateModel.reparsed, StateModel.reparsedDirection]
  by_cases hfields : state.rankFields = []
  · simp [hfields, StateModel.reparsedCombination, pure, Except.pure, bind,
      Except.bind]
  · have hwritten : rankElements (composeState state)
        (.minimize, state.reparsedCombination) =
          state.rankFields.map composeRank := by
      obtain ⟨hdirection, hcombination, hguess⟩ :=
        tags_of_accepted haccepted hfields
      rw [rankElements_compose haccepted hguess]
      exact if_pos ⟨hdirection, hcombination⟩
    simp [hfields, hwritten, pure, Except.pure, bind, Except.bind]

end Rank

end Composed

section Survival

variable {state : StateModel}

theorem stateSurvives_iff_of_accepted (haccepted : AcceptedState state) :
    StateSurvives state ↔ Reparsable state := by
  rw [StateSurvives, parseState_compose haccepted, StateModel.reparsed]
  constructor
  · rintro ⟨parsed, hparsed, hsame⟩
    obtain rfl := Except.ok.inj hparsed
    refine ⟨?_, ?_⟩
    · by_contra hsome
      obtain ⟨constraint, hmem⟩ := List.exists_mem_of_ne_nil _ hsome
      have hnames := congrArg (List.map Prod.fst) hsame.constraints
      simp only [List.map_map] at hnames
      have hname := List.map_inj_left.mp hnames constraint hmem
      exact haccepted.constraints constraint hmem hname.symm
    · by_cases hfields : state.rankFields = []
      · have hdirection := hsame.direction
        have hcombination := hsame.combination
        simp only [StateModel.reparsedDirection, if_pos hfields] at hdirection
        simp only [StateModel.reparsedCombination, if_pos hfields]
          at hcombination
        refine .inl ⟨hfields, hdirection.symm, ?_⟩
        revert hcombination
        unfold RankType.Equivalent
        cases state.combination <;> decide
      · have hdirection := hsame.direction
        simp only [StateModel.reparsedDirection, if_neg hfields] at hdirection
        refine .inr ⟨hfields, hdirection.symm, ?_⟩
        intro field hmem
        have hentries := hsame.rankFields
        simp only [List.map_map] at hentries
        have hentry := List.map_inj_left.mp hentries field hmem
        have hname : (parseRank (composeRank field)).name = field.name :=
          congrArg Prod.fst hentry
        rw [← hname]
        exact not_mem_name_of_parseRank field
  · rintro ⟨hconstraints, hrank⟩
    refine ⟨_, rfl, rfl, by simp [hconstraints], ?_, ?_, ?_⟩
    · rcases hrank with ⟨hfields, hdirection, -⟩ | ⟨hfields, hdirection, -⟩
      · simp [StateModel.reparsedDirection, hfields, hdirection]
      · simp [StateModel.reparsedDirection, hfields, hdirection]
    · rcases hrank with ⟨hfields, -, hcombination⟩ | ⟨hfields, -⟩
      · simp [StateModel.reparsedCombination, hfields, hcombination,
          RankType.Equivalent]
      · have hcombination := haccepted.combination hfields
        simp only [StateModel.reparsedCombination, if_neg hfields,
          RankType.Equivalent]
        revert hcombination
        cases state.combination <;> decide
    · rcases hrank with ⟨hfields, -⟩ | ⟨-, -, hplain⟩
      · simp [hfields]
      · rw [List.map_map]
        exact List.map_congr_left fun field hmem =>
          parseRank_compose (haccepted.fields field hmem) (hplain field hmem)

/-- The problem of an accepted state survives exactly when it can be written
and read under the same tags. -/
theorem stateSurvives_iff {metrics : List MetricModel}
    {knobs : List KnobModel} {model : StateModel}
    (hvalid : validateState metrics knobs model = .ok state) :
    StateSurvives state ↔ Reparsable state :=
  stateSurvives_iff_of_accepted (acceptedState_of_validate hvalid)

end Survival

namespace Sample

/-- A state that ranks by the metric of the block. -/
def ranked (direction : RankDirection) : StateModel :=
  ⟨"fast".toList, direction, .linear,
    [⟨"latency".toList, .metric, "1".toList⟩], []⟩

theorem validateState_ranked (direction : RankDirection)
    (hdirection : direction ≠ .none) :
    validateState validBlock.metrics validBlock.knobs (ranked direction) =
      .ok (ranked direction) := by
  revert hdirection
  cases direction <;> decide +kernel

theorem stateSurvives_iff_minimized :
    StateSurvives (ranked .minimize) ↔ Reparsable (ranked .minimize) :=
  stateSurvives_iff (validateState_ranked .minimize (by decide))

/-- A rank to maximize is parsed as a rank to minimize. -/
theorem not_stateSurvives_maximized :
    ¬ ∀ metrics knobs model state, validateState metrics knobs model = .ok state →
      StateSurvives state := by
  intro hall
  have hvalid := validateState_ranked .maximize (by decide)
  obtain ⟨parsed, hparsed, hsame⟩ := hall _ _ _ _ hvalid
  rw [parseState_compose (acceptedState_of_validate hvalid)] at hparsed
  obtain rfl := Except.ok.inj hparsed
  exact absurd hsame.direction (by decide)

end Sample

end Margot.Heel
