/-
A block whose lists are in another order.  A description that has been parsed
again has its lists sorted, and its fields are as valid as those of the block.
-/
import Margot.Heel.OperatingPointParser
import Margot.Heel.ParsedBlock
import Margot.Heel.SegmentTypes

namespace Margot.Heel

section Sorting

variable {message : Text} {types : List Text}

/-- Types of one category are compared by their ranks. -/
theorem compareTypes_of_place {a b : Text} {category : List String}
    {rankA rankB : Nat} (hA : place a = some (category, rankA))
    (hB : place b = some (category, rankB)) :
    compareTypes message a b = .ok (decide (rankA < rankB)) := by
  have hplaced : ∀ {type : Text} {rank : Nat},
      place type = some (category, rank) → ∃ name,
        sanitizeType type = .ok name ∧ category ∈ categories ∧
          promotion category name = some rank := by
    intro type rank hplace
    rw [place] at hplace
    split at hplace
    · contradiction
    · next name hname =>
        obtain ⟨other, hother, hrank⟩ := List.exists_of_findSome?_eq_some hplace
        obtain ⟨found, hfound, hsame⟩ := Option.map_eq_some_iff.mp hrank
        obtain ⟨rfl, rfl⟩ := Prod.mk.inj hsame
        exact ⟨name, hname, hother, hfound⟩
  obtain ⟨nameA, hnameA, hcategory, hrankA⟩ := hplaced hA
  obtain ⟨nameB, hnameB, -, hrankB⟩ := hplaced hB
  have hself : compareIn category nameA nameB =
      some (decide (rankA < rankB)) := by
    rw [compareIn, hrankA, hrankB]
  -- a name of the category is in no other one
  have hothers : ∀ other ∈ categories, other ≠ category →
      compareIn other nameA nameB = none := by
    intro other hother hne
    have hnone : promotion other nameA = none := by
      by_contra hsome
      obtain ⟨rank, hrank⟩ := Option.ne_none_iff_exists'.mp hsome
      have hfound := (find_of_promotion hcategory hrankA).symm.trans
        (find_of_promotion hother hrank)
      exact hne (Prod.mk.inj (Option.some.inj hfound)).1.symm
    rw [compareIn, hnone]
  have hsorter : typeSorter a b = .ok (some (decide (rankA < rankB))) := by
    rw [typeSorter, hnameA, hnameB]
    simp only [categories, List.mem_cons, List.not_mem_nil, or_false]
      at hcategory
    rcases hcategory with rfl | rfl | rfl
    · have hfirst := hself
      simp [bind, Except.bind, pure, Except.pure, hfirst]
    · have hsigned := hothers ctypePromotionsSigned (by decide) (by decide)
      simp [bind, Except.bind, pure, Except.pure, hsigned, hself]
    · have hsigned := hothers ctypePromotionsSigned (by decide) (by decide)
      have hunsigned := hothers ctypePromotionsUnsigned (by decide) (by decide)
      simp [bind, Except.bind, pure, Except.pure, hsigned, hunsigned, hself]
  rw [compareTypes, hsorter]
  rfl

theorem exists_insertType {type : Text} {sorted : List Text}
    (hcompared : ∀ other ∈ sorted, ∃ smaller,
      compareTypes message type other = .ok smaller) :
    ∃ result, insertType message type sorted = .ok result ∧
      result.Perm (type :: sorted) := by
  induction sorted with
  | nil => exact ⟨[type], rfl, .rfl⟩
  | cons first rest ih =>
      rw [List.forall_mem_cons] at hcompared
      obtain ⟨⟨smaller, hsmaller⟩, hrest⟩ := hcompared
      obtain ⟨result, hresult, hperm⟩ := ih hrest
      rw [insertType, hsmaller]
      cases smaller with
      | true => exact ⟨_, rfl, .rfl⟩
      | false =>
          refine ⟨first :: result, ?_, (hperm.cons first).trans (.swap ..)⟩
          simp only [bind, Except.bind, Bool.false_eq_true, if_false, hresult]
          rfl

/-- Types that can all be compared with each other can be sorted. -/
theorem exists_sortTypes (hcompared : ∀ a ∈ types, ∀ b ∈ types, ∃ smaller,
      compareTypes message a b = .ok smaller) :
    ∃ sorted, sortTypes message types = .ok sorted := by
  have hloop : ∀ rest sorted : List Text, (∀ a ∈ rest, a ∈ types) →
      (∀ a ∈ sorted, a ∈ types) → ∃ result,
        rest.foldlM (fun sorted type => insertType message type sorted) sorted =
          .ok result := by
    intro rest
    induction rest with
    | nil => exact fun sorted _ _ => ⟨sorted, rfl⟩
    | cons type rest ih =>
        intro sorted hrest hsorted
        rw [List.forall_mem_cons] at hrest
        obtain ⟨inserted, hinserted, hperm⟩ := exists_insertType
          fun other hother => hcompared type hrest.1 other (hsorted other hother)
        obtain ⟨result, hresult⟩ := ih inserted hrest.2 fun a ha =>
          (List.mem_cons.mp (hperm.mem_iff.mp ha)).elim
            (fun hself => hself ▸ hrest.1) (hsorted a)
        exact ⟨result, by
          rw [List.foldlM_cons, hinserted]
          exact hresult⟩
  exact hloop types [] (fun _ => id) (List.forall_mem_nil _)

/-- A segment that has a type has one in every order of its fields. -/
theorem exists_segmentType_of_perm {what segment : Text} {others : List Text}
    (hsegment : segmentType what types = .ok segment)
    (hperm : types.Perm others) :
    ∃ other, segmentType what others = .ok other := by
  obtain ⟨sorted, hsorted, -⟩ := bind_eq_ok.mp hsegment
  by_cases hmany : 2 ≤ types.length
  · rw [← sort_insertion] at hsorted
    obtain ⟨category, hplaced⟩ := ComparisonSort.placed_of_sort
      (comparesPlaces _) hsorted hmany
    have hcompared : ∀ message, ∀ a ∈ others, ∀ b ∈ others, ∃ smaller,
        compareTypes message a b = .ok smaller := by
      intro message a ha b hb
      obtain ⟨rankA, hA⟩ := hplaced a (hperm.mem_iff.mpr ha)
      obtain ⟨rankB, hB⟩ := hplaced b (hperm.mem_iff.mpr hb)
      exact ⟨_, compareTypes_of_place hA hB⟩
    obtain ⟨result, hresult⟩ := exists_sortTypes (hcompared _)
    exact ⟨_, by rw [segmentType, hresult]; rfl⟩
  · have hsame : others = types := by
      rcases types with _ | ⟨type, _ | ⟨second, rest⟩⟩
      · exact List.nil_perm.mp hperm
      · exact List.singleton_perm.mp hperm |>.symm
      · simp only [List.length_cons] at hmany
        omega
    exact ⟨segment, hsame ▸ hsegment⟩

end Sorting

section Outline

theorem perm_knobTypes {knobs others : List KnobModel}
    (hperm : knobs.Perm others) : (knobTypes knobs).Perm (knobTypes others) := by
  have hnumeric := (hperm.filter fun knob =>
    decide (knob.type ≠ "string".toList)).map (·.type)
  rw [knobTypes, knobTypes]
  split
  · next hnone =>
      rw [hnone, List.nil_perm] at hnumeric
      rw [if_pos hnumeric]
  · next hsome =>
      have hothers : (others.filter fun knob =>
          decide (knob.type ≠ "string".toList)).map (·.type) ≠ [] := by
        intro hnone
        rw [hnone, List.perm_nil] at hnumeric
        exact hsome hnumeric
      rw [if_neg hothers]
      exact hnumeric

/-- The same fields in another order. -/
structure SameFields (other block : BlockModel) : Prop where
  name : other.name = block.name
  knobs : other.knobs.Perm block.knobs
  metrics : other.metrics.Perm block.metrics
  fields : other.features.fields.Perm block.features.fields

theorem SameBlock.sameFields {parsed block : BlockModel}
    (hsame : SameBlock parsed block) : SameFields parsed block :=
  ⟨hsame.name, hsame.knobs, hsame.metrics, hsame.fields⟩

/-- The fields of a description, with types for its segments. -/
def BlockModel.outline (description : BlockModel)
    (knobsType metricsType featuresType : Text) : BlockModel :=
  { BlockModel.initial with
    name := description.name
    knobs := description.knobs
    knobsSegmentType := knobsType
    metrics := description.metrics
    metricsSegmentType := metricsType
    features := { description.features with featuresType := featuresType } }

variable {other block : BlockModel} (hsame : SameFields other block)

include hsame in
theorem SameFields.geometry (hvalid : ValidBlock block) :
    other.knobs = [] ↔ other.metrics = [] := by
  rw [← List.length_eq_zero_iff, ← List.length_eq_zero_iff,
    hsame.knobs.length_eq, hsame.metrics.length_eq, List.length_eq_zero_iff,
    List.length_eq_zero_iff]
  exact hvalid.geometry

include hsame in
/-- The fields of a valid block are valid in every order. -/
theorem SameFields.exists_valid (hvalid : ValidBlock block) :
    ∃ knobsType metricsType featuresType,
      ValidBlock (other.outline knobsType metricsType featuresType) := by
  obtain ⟨knobsType, hknobs⟩ := exists_segmentType_of_perm hvalid.knobsType
    (perm_knobTypes hsame.knobs.symm)
  obtain ⟨metricsType, hmetrics⟩ := exists_segmentType_of_perm
    hvalid.metricsType (hsame.metrics.symm.map (·.type))
  obtain ⟨featuresType, hfeatures⟩ := exists_segmentType_of_perm
    hvalid.featuresType (hsame.fields.symm.map (·.type))
  exact ⟨knobsType, metricsType, featuresType, {
    name := hsame.name ▸ hvalid.name
    knobs := fun knob hmem => hvalid.knobs knob (hsame.knobs.mem_iff.mp hmem)
    metrics := fun metric hmem =>
      hvalid.metrics metric (hsame.metrics.mem_iff.mp hmem)
    features := fun field hmem =>
      hvalid.features field (hsame.fields.mem_iff.mp hmem)
    agora := nofun
    states := List.forall_mem_nil _
    knobsType := hknobs
    metricsType := hmetrics
    featuresType := hfeatures
    geometry := hsame.geometry hvalid }⟩

include hsame in
/-- What the compiler asks of the functor does not depend on the order. -/
theorem SameFields.parserCompiles :
    parserCompiles other = parserCompiles block := by
  have hnames : other.fieldNames.Perm block.fieldNames :=
    ((hsame.fields.map FeatureModel.name).append
      (hsame.knobs.map KnobModel.name)).append
        (hsame.metrics.map MetricModel.name)
  have hany : other.metrics.any (·.distribution) =
      block.metrics.any (·.distribution) := by
    rw [Bool.eq_iff_iff, List.any_eq_true, List.any_eq_true]
    exact exists_congr fun metric => and_congr_left' hsame.metrics.mem_iff
  rw [Heel.parserCompiles, Heel.parserCompiles, ← hany]
  congr 1
  exact decide_eq_decide.mpr hnames.nodup_iff

end Outline

end Margot.Heel
