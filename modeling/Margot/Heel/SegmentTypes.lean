/-
The types of the segments of a block, whatever algorithm sorts them: the types
are compared by their place in a category, and a comparison that makes no sense
throws.
-/
import Margot.Library.ComparisonSort
import Margot.Heel.Validate

namespace Margot.Heel

/-- The type of a segment when the types are sorted by an algorithm. -/
def segmentTypeWith (sorting : ComparisonSort) (what : Text)
    (types : List Text) : Checked Text := do
  let sorted ← sorting.sort (compareTypes
    ("model validation: mismatch between ".toList ++ what ++ " type".toList))
    types
  return sorted.getLastD []

/-- The validation of a block when the types are sorted by an algorithm. -/
def validateBlockWith (sorting : ComparisonSort) (block : BlockModel) :
    Checked BlockModel :=
  validateBlockBy (segmentTypeWith sorting) block

/-- The types that are no strings. -/
def numericTypes (types : List Text) : List Text :=
  types.filter fun type => type ≠ "string".toList

def categories : List (List String) :=
  [ctypePromotionsSigned, ctypePromotionsUnsigned, ctypePromotionsFp]

/-- All types are of the category of the segment, and none is larger. -/
def SegmentHolds (types : List Text) (segment : Text) : Prop :=
  ∃ category ∈ categories, ∃ size, promotion category segment = some size ∧
    ∀ type ∈ types, ∃ rank, promotion category type = some rank ∧ rank ≤ size

/-- The segments of a block that have a field that is no string. -/
structure SegmentsHold (block : BlockModel) : Prop where
  knobs : numericTypes (block.knobs.map (·.type)) ≠ [] →
    SegmentHolds (numericTypes (block.knobs.map (·.type)))
      block.knobsSegmentType
  metrics : numericTypes (block.metrics.map (·.type)) ≠ [] →
    SegmentHolds (numericTypes (block.metrics.map (·.type)))
      block.metricsSegmentType
  features : numericTypes (block.features.fields.map (·.type)) ≠ [] →
    SegmentHolds (numericTypes (block.features.fields.map (·.type)))
      block.features.featuresType

/-- There is one field that is no string, and its type is one for which the
typer has no name. -/
def LoneUnnamed (types : List Text) : Prop :=
  ∃ type, (types.filter fun type => sanitizeType type ≠ .ok "string".toList) =
    [type] ∧ sanitizeType type = .ok []

/-- No list of fields of the block is of that kind. -/
structure NoLoneUnnamed (block : BlockModel) : Prop where
  knobs : ¬ LoneUnnamed (block.knobs.map (·.type))
  metrics : ¬ LoneUnnamed (block.metrics.map (·.type))
  features : ¬ LoneUnnamed (block.features.fields.map (·.type))

section Places

/-- The category of a type and its rank in it. -/
def place (type : Text) : Option (List String × Nat) :=
  match sanitizeType type with
  | .error _ => none
  | .ok name => categories.findSome? fun category =>
      (promotion category name).map fun rank => (category, rank)

theorem exists_of_promotion {category : List String} {name : Text} {rank : Nat}
    (hrank : promotion category name = some rank) :
    ∃ known ∈ category, known.toList = name := by
  obtain ⟨hlt, hname, -⟩ := List.findIdx?_eq_some_iff_getElem.mp hrank
  exact ⟨category[rank], List.getElem_mem hlt, of_decide_eq_true hname⟩

/-- A name is in one category only. -/
theorem find_of_promotion {category : List String} {name : Text} {rank : Nat}
    (hcategory : category ∈ categories)
    (hrank : promotion category name = some rank) :
    (categories.findSome? fun category =>
      (promotion category name).map fun rank => (category, rank)) =
        some (category, rank) := by
  have hall : ∀ category ∈ categories, ∀ known ∈ category,
      (categories.findSome? fun category =>
        (promotion category known.toList).map fun rank => (category, rank)) =
          (promotion category known.toList).map fun rank =>
            (category, rank) := by
    decide
  obtain ⟨known, hknown, rfl⟩ := exists_of_promotion hrank
  rw [hall category hcategory known hknown, hrank, Option.map_some]

/-- The name of a type of a category is its own. -/
theorem place_of_promotion {category : List String} {type : Text} {rank : Nat}
    (hcategory : category ∈ categories)
    (hrank : promotion category type = some rank) :
    place type = some (category, rank) := by
  have hall : ∀ category ∈ categories, ∀ known ∈ category,
      sanitizeType known.toList = .ok known.toList := by
    decide
  have hfind := find_of_promotion hcategory hrank
  obtain ⟨known, hknown, rfl⟩ := exists_of_promotion hrank
  rw [place, hall category hcategory known hknown]
  exact hfind

theorem compareIn_eq_some {category : List String} {a b : Text}
    {smaller : Bool} (hcompare : compareIn category a b = some smaller) :
    ∃ rankA rankB, promotion category a = some rankA ∧
      promotion category b = some rankB ∧ smaller = decide (rankA < rankB) := by
  rw [compareIn] at hcompare
  split at hcompare
  · next rankA rankB hA hB =>
      exact ⟨rankA, rankB, hA, hB, (Option.some.inj hcompare).symm⟩
  · contradiction

/-- Types are compared in a category of both. -/
theorem comparesPlaces (message : Text) :
    ComparisonSort.ComparesPlaces (compareTypes message) place := by
  intro a b smaller hcompare
  rw [compareTypes, bind_eq_ok] at hcompare
  obtain ⟨result, hsorter, hresult⟩ := hcompare
  cases result with
  | none => contradiction
  | some found =>
      obtain rfl := Except.ok.inj hresult
      simp only [typeSorter, bind_eq_ok, pure_eq_ok] at hsorter
      obtain ⟨nameA, hA, nameB, hB, hor⟩ := hsorter
      have hcategory : ∃ category ∈ categories,
          compareIn category nameA nameB = some found := by
        rcases Option.or_eq_some_iff.mp hor with hsigned | ⟨-, hrest⟩
        · exact ⟨_, List.mem_cons_self, hsigned⟩
        · rcases Option.or_eq_some_iff.mp hrest with hunsigned | ⟨-, hfp⟩
          · exact ⟨ctypePromotionsUnsigned, by decide, hunsigned⟩
          · exact ⟨ctypePromotionsFp, by decide, hfp⟩
      obtain ⟨category, hmem, hcompare⟩ := hcategory
      obtain ⟨rankA, rankB, hrankA, hrankB, rfl⟩ := compareIn_eq_some hcompare
      refine ⟨category, rankA, rankB, ?_, ?_, rfl⟩
      · rw [place, hA]
        exact find_of_promotion hmem hrankA
      · rw [place, hB]
        exact find_of_promotion hmem hrankB

theorem promotion_nil {category : List String} (hcategory : category ∈ categories) :
    promotion category [] = none := by
  have hall : ∀ category ∈ categories, promotion category [] = none := by
    decide
  exact hall category hcategory

/-- What the sanitizer gives for a type that is no string. -/
def NamedType (type : Text) : Prop :=
  type = [] ∨ ∃ category ∈ categories, ∃ rank, promotion category type = some rank

theorem namedType_of_sanitize {type name : Text}
    (hname : sanitizeType type = .ok name) (hstring : name ≠ "string".toList) :
    NamedType name := by
  have hall : ∀ known ∈ knownTypes, known.2.toList = [] ∨
      ∃ category ∈ categories,
        (promotion category known.2.toList).isSome = true := by
    decide
  rw [sanitizeType] at hname
  split at hname
  · exact absurd (Except.ok.inj hname).symm hstring
  · split at hname
    · next known hknown =>
        obtain rfl := Except.ok.inj hname
        rcases hall known (List.mem_of_find?_eq_some hknown) with hnone | hsome
        · exact .inl hnone
        · obtain ⟨category, hcategory, hrank⟩ := hsome
          exact .inr ⟨category, hcategory, Option.isSome_iff_exists.mp hrank⟩
    · contradiction

/-- The place of a named type is that of its name. -/
theorem promotion_of_place {type : Text} (hnamed : NamedType type)
    {category : List String} {rank : Nat}
    (hplace : place type = some (category, rank)) :
    category ∈ categories ∧ promotion category type = some rank := by
  rcases hnamed with rfl | ⟨other, hother, size, hsize⟩
  · contradiction
  · rw [place_of_promotion hother hsize] at hplace
    obtain ⟨rfl, rfl⟩ := Prod.mk.inj (Option.some.inj hplace)
    exact ⟨hother, hsize⟩

end Places

section Segments

variable {sorting : ComparisonSort} {what segment : Text} {types : List Text}

theorem exists_sort_of_segment
    (hsegment : segmentTypeWith sorting what types = .ok segment)
    (hsome : types ≠ []) :
    ∃ message sorted, sorting.sort (compareTypes message) types = .ok sorted ∧
      sorted.getLast? = some segment := by
  rw [segmentTypeWith, bind_eq_ok] at hsegment
  obtain ⟨sorted, hsort, hlast⟩ := hsegment
  have hperm := (ComparisonSort.sort_spec (comparesPlaces _) hsort).1
  have hsorted : sorted ≠ [] := fun h => hsome (h ▸ hperm).symm.eq_nil
  refine ⟨_, sorted, hsort, ?_⟩
  rw [List.getLast?_eq_some_getLast hsorted]
  rw [List.getLastD_eq_getLast?, List.getLast?_eq_some_getLast hsorted] at hlast
  exact congrArg some (pure_eq_ok.mp hlast)

/-- The segment holds all its types, unless there is one only that has no
name. -/
theorem segmentHolds_iff (hnamed : ∀ type ∈ types, NamedType type)
    (hsegment : segmentTypeWith sorting what types = .ok segment)
    (hsome : types ≠ []) : SegmentHolds types segment ↔ types ≠ [[]] := by
  obtain ⟨message, sorted, hsort, hlast⟩ :=
    exists_sort_of_segment hsegment hsome
  have hplaces := comparesPlaces message
  have hperm := (ComparisonSort.sort_spec hplaces hsort).1
  have hmem : segment ∈ types :=
    hperm.mem_iff.mp (List.mem_of_getLast? hlast)
  constructor
  · rintro ⟨category, hcategory, size, -, hranks⟩ rfl
    obtain ⟨rank, hrank, -⟩ := hranks [] List.mem_cons_self
    rw [promotion_nil hcategory] at hrank
    contradiction
  · intro hnotLone
    by_cases hmany : 2 ≤ types.length
    · obtain ⟨category, hplaced⟩ :=
        ComparisonSort.placed_of_sort hplaces hsort hmany
      obtain ⟨size, hsize⟩ := hplaced segment hmem
      obtain ⟨hcategory, hpromotion⟩ :=
        promotion_of_place (hnamed segment hmem) hsize
      refine ⟨category, hcategory, size, hpromotion, fun type htype => ?_⟩
      obtain ⟨rank, hrank⟩ := hplaced type htype
      refine ⟨rank, (promotion_of_place (hnamed type htype) hrank).2, ?_⟩
      have hle := ComparisonSort.rank_le_last hplaces hsort hlast htype
      simpa [ComparisonSort.rankOf, hrank, hsize] using hle
    · have hone : types.length = 1 := by
        have hpos := List.length_pos_iff.mpr hsome
        omega
      obtain ⟨type, rfl⟩ := List.length_eq_one_iff.mp hone
      obtain rfl := List.mem_singleton.mp hmem
      rcases hnamed segment hmem with rfl | ⟨category, hcategory, size, hsize⟩
      · exact absurd rfl hnotLone
      · refine ⟨category, hcategory, size, hsize, fun type htype => ?_⟩
        rw [List.mem_singleton.mp htype]
        exact ⟨size, hsize, le_rfl⟩

end Segments

section Lists

/-- The types of a list before and after they are sanitized. -/
def Sanitized (types names : List Text) : Prop :=
  List.Forall₂ (fun type name => sanitizeType type = .ok name) types names

variable {types names : List Text}

theorem sanitized_numericTypes (hsanitized : Sanitized types names) :
    Sanitized
      (types.filter fun type => sanitizeType type ≠ .ok "string".toList)
      (numericTypes names) := by
  induction hsanitized with
  | nil => exact .nil
  | @cons type name _ _ hfirst _ ih =>
      rw [numericTypes] at ih ⊢
      by_cases hstring : name = "string".toList
      · subst hstring
        rw [List.filter_cons_of_neg (by simp [hfirst]),
          List.filter_cons_of_neg (by simp)]
        exact ih
      · have hother : sanitizeType type ≠ .ok "string".toList := by
          intro htype
          exact hstring (Except.ok.inj (hfirst.symm.trans htype))
        rw [List.filter_cons_of_pos (by exact decide_eq_true hother),
          List.filter_cons_of_pos (by exact decide_eq_true hstring)]
        exact .cons hfirst ih

theorem loneUnnamed_iff (hsanitized : Sanitized types names) :
    LoneUnnamed types ↔ numericTypes names = [[]] := by
  have hnumeric := sanitized_numericTypes hsanitized
  constructor
  · rintro ⟨type, hlone, hname⟩
    rw [hlone] at hnumeric
    obtain ⟨name, rest, hfirst, hrest, hnames⟩ :=
      List.forall₂_cons_left_iff.mp hnumeric
    rw [hname] at hfirst
    rw [hnames, List.forall₂_nil_left_iff.mp hrest, Except.ok.inj hfirst]
  · intro hlone
    rw [hlone] at hnumeric
    obtain ⟨type, rest, hfirst, hrest, htypes⟩ :=
      List.forall₂_cons_right_iff.mp hnumeric
    rw [List.forall₂_nil_right_iff.mp hrest] at htypes
    exact ⟨type, htypes, hfirst⟩

theorem namedType_numericTypes (hsanitized : Sanitized types names) :
    ∀ type ∈ numericTypes names, NamedType type := by
  intro name hmem
  obtain ⟨hmem, hstring⟩ := List.mem_filter.mp hmem
  obtain ⟨type, -, hname⟩ := exists_of_forall₂ hsanitized.flip hmem
  exact namedType_of_sanitize hname (of_decide_eq_true hstring)

/-- A segment holds the fields of its list exactly when there is not only one of
a type without a name. -/
theorem listHolds_iff {sorting : ComparisonSort} {what segment : Text}
    {sorted : List Text} (hsanitized : Sanitized types names)
    (hsegment : segmentTypeWith sorting what sorted = .ok segment)
    (hsorted : numericTypes names ≠ [] → sorted = numericTypes names) :
    (numericTypes names ≠ [] → SegmentHolds (numericTypes names) segment) ↔
      ¬ LoneUnnamed types := by
  rw [loneUnnamed_iff hsanitized]
  by_cases hsome : numericTypes names = []
  · simp [hsome]
  · have hnamed := namedType_numericTypes hsanitized
    rw [hsorted hsome] at hsegment
    have hiff := segmentHolds_iff hnamed hsegment hsome
    exact ⟨fun hholds => hiff.mp (hholds hsome), fun hlone _ => hiff.mpr hlone⟩

end Lists

section Blocks

variable {α : Type} [Named α]

theorem map_setNames {β : Type} {g : α → β} (container : List α) (what : Text)
    (hrename : ∀ name element, g (Named.rename name element) = g element) :
    (setNames container what).map g = container.map g := by
  apply List.ext_getElem?
  intro counter
  rw [List.getElem?_map, List.getElem?_map, setNames, List.getElem?_mapIdx,
    Option.map_map]
  congr 1
  funext element
  rw [Function.comp_apply, setName]
  split
  · exact hrename _ _
  · rfl

theorem sanitized_of_mapM {named validated : List α} {container : List α}
    {what : Text} {f : α → Checked α} {type : α → Text}
    (hrename : ∀ name element, type (Named.rename name element) = type element)
    (hunique : checkUniqueness container what = .ok named)
    (hmapped : named.mapM f = .ok validated)
    (hsanitizes : ∀ model element, f model = .ok element →
      sanitizeType (type model) = .ok (type element)) :
    Sanitized (container.map type) (validated.map type) := by
  simp only [checkUniqueness, bind_eq_ok, require_eq_ok, pure_eq_ok] at hunique
  obtain ⟨-, -, rfl⟩ := hunique
  rw [← map_setNames container what hrename, Sanitized,
    List.forall₂_map_left_iff, List.forall₂_map_right_iff]
  exact (mapM_eq_ok.mp hmapped).imp hsanitizes

theorem sanitize_of_validateKnob (model knob : KnobModel)
    (hknob : validateKnob model = .ok knob) :
    sanitizeType model.type = .ok knob.type := by
  simp only [validateKnob, bind_eq_ok, require_eq_ok, pure_eq_ok] at hknob
  obtain ⟨-, -, type, htype, -, -, -, -, rfl⟩ := hknob
  exact htype

theorem sanitize_of_validateMetric (monitors : List MonitorModel)
    (model metric : MetricModel)
    (hmetric : validateMetric monitors model = .ok metric) :
    sanitizeType model.type = .ok metric.type := by
  simp only [validateMetric, bind_eq_ok, require_eq_ok, pure_eq_ok] at hmetric
  obtain ⟨-, -, type, htype, -, -, -, -, -, -, -, -, -, -, rfl⟩ := hmetric
  exact htype

theorem sanitize_of_validateFeature (model field : FeatureModel)
    (hfield : validateFeature model = .ok field) :
    sanitizeType model.type = .ok field.type := by
  simp only [validateFeature, bind_eq_ok, require_eq_ok, pure_eq_ok] at hfield
  obtain ⟨type, htype, -, -, -, -, rfl⟩ := hfield
  exact htype

theorem sanitized_features {model features : FeaturesModel}
    {fields : List FeatureModel}
    (hunique : checkUniqueness model.fields "feature".toList = .ok fields)
    (hfeatures : validateFeatures { model with fields := fields } =
      .ok features) :
    Sanitized (model.fields.map (·.type)) (features.fields.map (·.type)) := by
  rw [validateFeatures] at hfeatures
  split at hfeatures
  · next hnone =>
      simp only [bind_eq_ok, pure_eq_ok] at hfeatures
      obtain ⟨-, -, rfl⟩ := hfeatures
      obtain rfl : fields = [] := hnone
      exact sanitized_of_mapM (fun _ _ => rfl) hunique List.mapM_nil
        sanitize_of_validateFeature
  · simp only [bind_eq_ok, pure_eq_ok] at hfeatures
    obtain ⟨-, -, validated, hvalidated, rfl⟩ := hfeatures
    exact sanitized_of_mapM (fun _ _ => rfl) hunique hvalidated
      sanitize_of_validateFeature

theorem knobTypes_eq {knobs : List KnobModel}
    (hsome : numericTypes (knobs.map (·.type)) ≠ []) :
    knobTypes knobs = numericTypes (knobs.map (·.type)) := by
  have hnumeric : (knobs.filter fun knob => knob.type ≠ "string".toList).map
      (·.type) = numericTypes (knobs.map (·.type)) := by
    rw [numericTypes, List.filter_map]
    rfl
  rw [knobTypes, hnumeric]
  exact if_neg hsome

/-- Where strings are refused, all types are numeric. -/
theorem numericTypes_map {β : Type} {type : β → Text} {elements : List β}
    (hrefused : ∀ element ∈ elements, type element ≠ "string".toList) :
    elements.map type = numericTypes (elements.map type) := by
  symm
  apply List.filter_eq_self.mpr
  intro name hmem
  obtain ⟨element, helement, rfl⟩ := List.mem_map.mp hmem
  exact decide_eq_true (hrefused element helement)

/-- The segments of an accepted block hold all their fields exactly when no list
has one field only with a type without a name. -/
theorem segmentsHold_iff {sorting : ComparisonSort} {block valid : BlockModel}
    (hvalid : validateBlockWith sorting block = .ok valid) :
    SegmentsHold valid ↔ NoLoneUnnamed block := by
  simp only [validateBlockWith, validateBlockBy, bind_eq_ok, require_eq_ok,
    pure_eq_ok] at hvalid
  obtain ⟨-, -, monitors, -, knobs, hknobs, fields, hfields, metrics,
    hmetrics, states, -, -, -, monitors', -, knobs', hknobs', metrics',
    hmetrics', features, hfeatures, -, -, states', -, knobsType, hknobsType,
    metricsType, hmetricsType, featuresType, hfeaturesType, -, -, rfl⟩ := hvalid
  have hknobsList := listHolds_iff
    (sanitized_of_mapM (fun _ _ => rfl) hknobs hknobs' sanitize_of_validateKnob)
    hknobsType knobTypes_eq
  have hmetricTypes : ∀ metric ∈ metrics', metric.type ≠ "string".toList := by
    intro metric hmem
    obtain ⟨model, -, hmetric⟩ := exists_of_mem_mapM hmetrics' hmem
    exact (validMetric_of_validate hmetric).type
  have hmetricsList := listHolds_iff
    (sanitized_of_mapM (fun _ _ => rfl) hmetrics hmetrics'
      (sanitize_of_validateMetric monitors')) hmetricsType
    fun _ => numericTypes_map hmetricTypes
  have hfeaturesList := listHolds_iff (sanitized_features hfields hfeatures)
    hfeaturesType fun _ => numericTypes_map fun field hmem =>
      (validFeatures_of_validate hfeatures field hmem).type
  constructor
  · rintro ⟨knobsHold, metricsHold, featuresHold⟩
    exact ⟨hknobsList.mp knobsHold, hmetricsList.mp metricsHold,
      hfeaturesList.mp featuresHold⟩
  · rintro ⟨knobsLone, metricsLone, featuresLone⟩
    exact ⟨hknobsList.mpr knobsLone, hmetricsList.mpr metricsLone,
      hfeaturesList.mpr featuresLone⟩

end Blocks

section Insertion

variable {message : Text} {types : List Text}

/-- The types in the order of a tree of questions. -/
def sortedBy (message : Text) (types : List Text)
    (tree : SortTree (Fin types.length)) : Checked (List Text) :=
  (tree.run fun a b => compareTypes message (types.get a) (types.get b)).map
    (List.map types.get)

theorem sortedBy_insertTree (a : Fin types.length)
    {inserted : List (Fin types.length)}
    {next : List (Fin types.length) → SortTree (Fin types.length)}
    {rest : List Text → Checked (List Text)}
    (hnext : ∀ others,
      sortedBy message types (next others) = rest (others.map types.get)) :
    sortedBy message types (ComparisonSort.insertTree a inserted next) =
      insertType message (types.get a) (inserted.map types.get) >>= rest := by
  induction inserted generalizing next rest with
  | nil => exact hnext [a]
  | cons first others ih =>
      rw [ComparisonSort.insertTree, sortedBy, SortTree.run, List.map_cons,
        insertType]
      cases hcompare : compareTypes message (types.get a) (types.get first) with
      | error thrown => rfl
      | ok smaller =>
          cases smaller with
          | true => exact hnext (a :: first :: others)
          | false =>
              have hothers : sortedBy message types
                  (ComparisonSort.insertTree a others fun others =>
                    next (first :: others)) =
                  insertType message (types.get a) (others.map types.get) >>=
                    fun others => rest (types.get first :: others) :=
                ih fun others => hnext (first :: others)
              refine hothers.trans ?_
              cases insertType message (types.get a) (others.map types.get) with
              | error thrown => rfl
              | ok sorted => rfl

theorem sortedBy_insertionTree (inserted rest : List (Fin types.length)) :
    sortedBy message types (ComparisonSort.insertionTree inserted rest) =
      (rest.map types.get).foldlM
        (fun sorted type => insertType message type sorted)
        (inserted.map types.get) := by
  induction rest generalizing inserted with
  | nil => rfl
  | cons a rest ih =>
      rw [ComparisonSort.insertionTree, List.map_cons, List.foldlM_cons]
      exact sortedBy_insertTree a ih

/-- The model sorts by insertion. -/
theorem sort_insertion :
    ComparisonSort.insertion.sort (compareTypes message) types =
      sortTypes message types := by
  have hsorted : sortedBy message types
      (ComparisonSort.insertion.tree types.length) =
        sortTypes message types := by
    refine (sortedBy_insertionTree [] (List.finRange types.length)).trans ?_
    rw [List.map_get_finRange]
    rfl
  rw [← hsorted, ComparisonSort.sort, sortedBy]
  cases SortTree.run (fun a b => compareTypes message (types.get a) (types.get b))
      (ComparisonSort.insertion.tree types.length) with
  | error thrown => rfl
  | ok order => rfl

theorem validateBlockWith_insertion (block : BlockModel) :
    validateBlockWith ComparisonSort.insertion block = validateBlock block := by
  have hsegment : segmentTypeWith ComparisonSort.insertion = segmentType := by
    funext what types
    rw [segmentTypeWith, segmentType, sort_insertion]
  rw [validateBlockWith, validateBlock, hsegment]

end Insertion

namespace Sample

theorem segmentsHold_iff_insertion :
    SegmentsHold validBlock ↔ NoLoneUnnamed block := by
  have hvalid : validateBlockWith ComparisonSort.insertion block =
      .ok validBlock := by
    rw [validateBlockWith_insertion]
    rfl
  exact segmentsHold_iff hvalid

/-- The block with a knob of the type `char`. -/
def charBlock : BlockModel :=
  { block with
    knobs := [⟨"threads".toList, "char".toList, ["1".toList, "2".toList]⟩] }

/-- One knob is compared with nothing, and the typer has no name for its
type. -/
theorem not_segmentsHold_char :
    ¬ ∀ (sorting : ComparisonSort) (block valid : BlockModel),
      validateBlockWith sorting block = .ok valid → SegmentsHold valid := by
  intro hall
  let valid : BlockModel := { validBlock with
    knobs := [⟨"threads".toList, [], ["1".toList, "2".toList]⟩]
    knobsSegmentType := [] }
  have hvalid : validateBlockWith ComparisonSort.insertion charBlock =
      .ok valid := by
    rw [validateBlockWith_insertion]
    decide +kernel
  have hholds := (hall _ _ _ hvalid).knobs (by decide)
  obtain ⟨category, hcategory, size, hsize, -⟩ := hholds
  exact absurd ((promotion_nil hcategory).symm.trans hsize)
    (Option.some_ne_none size).symm

end Sample

end Margot.Heel
