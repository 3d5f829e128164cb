/-
The selection of a feature cluster by the Euclidean distance.  A cluster whose
key compares as asked with the input in every field is admissible; admissible
clusters come first, then the closer ones, then the older ones.
-/
import Mathlib.Algebra.BigOperators.Fin
import Margot.Library.Selection
import Margot.Runtime.DataAware

namespace Margot

inductive FeatureComparison where
  | lessOrEqual
  | greaterOrEqual
  | dontCare
deriving Repr, DecidableEq

section Features

variable {T : Type} {n : Nat}

/-- `cf_proxy` -/
def FeatureComparison.compare [LinearOrder T] (cf : FeatureComparison)
    (a b : T) : Bool :=
  match cf with
  | lessOrEqual => a ≤ b
  | greaterOrEqual => b ≤ a
  | dontCare => true

/-- `data_features_admissible`: the comparison of a field, then those of the
`rest` fields after it. -/
def dataFeaturesAdmissible [LinearOrder T]
    (cfs : Fin (n + 1) → FeatureComparison) (f1 f2 : Fin (n + 1) → T) :
    Nat → Bool
  | 0 => (cfs (Fin.last n)).compare (f1 (Fin.last n)) (f2 (Fin.last n))
  | rest + 1 =>
      let index : Fin (n + 1) := ⟨n - (rest + 1), by omega⟩
      (cfs index).compare (f1 index) (f2 index) &&
        dataFeaturesAdmissible cfs f1 f2 rest

/-- `data_features_distance`: the square of the difference of a field, and
those of the fields before it. -/
def dataFeaturesDistance [Ring T] (origin target : Fin (n + 1) → T) :
    (index : Nat) → index < n + 1 → T
  | 0, _ =>
      let distance := origin 0 - target 0
      distance * distance
  | index + 1, hindex =>
      let distance := origin ⟨index + 1, hindex⟩ - target ⟨index + 1, hindex⟩
      distance * distance +
        dataFeaturesDistance origin target index (by omega)

/-- `data_feature_selector` with the Euclidean distance: whether the target
replaces the best cluster found. -/
def getClosest [Ring T] [LinearOrder T] (cfs : Fin (n + 1) → FeatureComparison)
    (origin best target : Fin (n + 1) → T) : Bool :=
  let isBestValid := dataFeaturesAdmissible cfs best origin n
  let isTargetValid := dataFeaturesAdmissible cfs target origin n
  if isBestValid && !isTargetValid then false
  else if !isBestValid && isTargetValid then true
  else
    let distanceBest := dataFeaturesDistance origin best n (by omega)
    let distanceTarget := dataFeaturesDistance origin target n (by omega)
    distanceTarget < distanceBest

/-- The key of a cluster satisfies every comparison with the input. -/
def Admissible [LinearOrder T] (cfs : Fin (n + 1) → FeatureComparison)
    (input key : Fin (n + 1) → T) : Prop :=
  ∀ field, (cfs field).compare (key field) (input field) = true

instance [LinearOrder T] (cfs : Fin (n + 1) → FeatureComparison)
    (input : Fin (n + 1) → T) : DecidablePred (Admissible cfs input) :=
  fun key => inferInstanceAs (Decidable (∀ field,
    (cfs field).compare (key field) (input field) = true))

def squaredDistance [Ring T] (input key : Fin (n + 1) → T) : T :=
  ∑ field, (input field - key field) ^ 2

section Selector

theorem dataFeaturesAdmissible_iff [LinearOrder T]
    {cfs : Fin (n + 1) → FeatureComparison} {f1 f2 : Fin (n + 1) → T}
    {rest : Nat} :
    dataFeaturesAdmissible cfs f1 f2 rest = true ↔
      ∀ field : Fin (n + 1), n ≤ field + rest →
        (cfs field).compare (f1 field) (f2 field) = true := by
  induction rest with
  | zero =>
      rw [dataFeaturesAdmissible]
      constructor
      · intro hlast field hfield
        obtain rfl : field = Fin.last n := Fin.ext (by simp; omega)
        exact hlast
      · intro hall
        exact hall (Fin.last n) (by simp)
  | succ rest ih =>
      rw [dataFeaturesAdmissible, Bool.and_eq_true, ih]
      constructor
      · rintro ⟨hfirst, hrest⟩ field hfield
        by_cases hlater : n ≤ field + rest
        · exact hrest field hlater
        · have hsame : field = ⟨n - (rest + 1), by omega⟩ :=
            Fin.ext (by simp; omega)
          rw [hsame]
          exact hfirst
      · intro hall
        exact ⟨hall _ (by simp; omega),
          fun field hfield => hall field (by omega)⟩

theorem dataFeaturesAdmissible_iff_admissible [LinearOrder T]
    {cfs : Fin (n + 1) → FeatureComparison} {input key : Fin (n + 1) → T} :
    dataFeaturesAdmissible cfs key input n = true ↔
      Admissible cfs input key := by
  rw [dataFeaturesAdmissible_iff]
  exact forall_congr' fun field => by simp

/-- The recursion over the fields adds the squares up to the index. -/
theorem dataFeaturesDistance_eq_sum [Ring T] (origin target : Fin (n + 1) → T)
    (index : Nat) (hindex : index < n + 1) :
    dataFeaturesDistance origin target index hindex =
      ∑ field : Fin (index + 1),
        (origin (field.castLE hindex) - target (field.castLE hindex)) ^ 2 := by
  induction index with
  | zero => simp [dataFeaturesDistance, pow_two]
  | succ index ih =>
      rw [dataFeaturesDistance, ih, add_comm, ← pow_two]
      exact (Fin.sum_univ_castSucc fun field : Fin (index + 1 + 1) =>
        (origin (field.castLE hindex) - target (field.castLE hindex)) ^ 2).symm

theorem dataFeaturesDistance_eq [Ring T] (input key : Fin (n + 1) → T) :
    dataFeaturesDistance input key n (by omega) = squaredDistance input key :=
  dataFeaturesDistance_eq_sum input key n (by omega)

/-- What the selector compares: admissible keys before the others, and keys of
the same kind by their distance. -/
def closeness [Ring T] [LinearOrder T] (cfs : Fin (n + 1) → FeatureComparison)
    (input key : Fin (n + 1) → T) : Bool ×ₗ T :=
  toLex (!decide (Admissible cfs input key), squaredDistance input key)

theorem getClosest_iff [Ring T] [LinearOrder T]
    {cfs : Fin (n + 1) → FeatureComparison} {input best target : Fin (n + 1) → T} :
    getClosest cfs input best target = true ↔
      closeness cfs input target < closeness cfs input best := by
  have hvalid : ∀ key, dataFeaturesAdmissible cfs key input n =
      decide (Admissible cfs input key) := fun key => by
    rw [Bool.eq_iff_iff, dataFeaturesAdmissible_iff_admissible, decide_eq_true_iff]
  simp only [getClosest, hvalid, dataFeaturesDistance_eq, closeness,
    Prod.Lex.toLex_lt_toLex]
  by_cases hbest : Admissible cfs input best <;>
    by_cases htarget : Admissible cfs input target <;>
      simp [hbest, htarget]

end Selector

end Features

/-- The position of the first of the closest among the clusters of a kind. -/
structure FirstClosest {F D : Type} [LinearOrder D] (Kind : F → Prop)
    (distance : F → D) (clusters : List F) (position : Nat) : Prop where
  bound : position < clusters.length
  kind : Kind clusters[position]
  least : ∀ other ∈ clusters, Kind other →
    distance clusters[position] ≤ distance other
  first : ∀ before (hbefore : before < position), Kind clusters[before] →
    distance clusters[position] < distance clusters[before]

namespace DataAwareAsrtm

variable {g : Geometry} {F I P : Type} [LinearOrder P]

/-- With a selector that compares a rank, the loop finds the first cluster of
least rank. -/
theorem firstLeast_closest {R : Type} [LinearOrder R] (rank : F → R)
    {getClosest : F → F → F → Bool} {key : F}
    (hrank : ∀ best target,
      getClosest key best target = true ↔ rank target < rank best)
    (first : F × Asrtm g I (State g P))
    (rest : List (F × Asrtm g I (State g P))) :
    FirstLeast rank ((first :: rest).map Prod.fst)
      (closest getClosest key (first :: rest) first.1) := by
  have hloop := firstLeast_foldl (rest.map Prod.fst)
    (firstLeast_singleton rank first.1)
  have hfold : closest getClosest key (first :: rest) first.1 =
      (((rest.map Prod.fst).zipIdx 1).foldl (fun best target =>
        if rank target.1 < rank best.1 then target else best)
        (first.1, 0)).2 := by
    rw [closest, List.zipIdx_cons, List.drop_succ_cons, List.drop_zero,
      List.zipIdx_map, List.foldl_map]
    congr 2
    funext best target
    simp only [hrank]
    rfl
  rw [hfold]
  exact hloop

section Euclidean

variable {T : Type} [Ring T] [LinearOrder T] {n : Nat}

/-- The clusters are kept, and the active one is the first of the closest
admissible ones, or the first of the closest ones when none is admissible. -/
theorem selectFeatureCluster_euclidean (cfs : Fin (n + 1) → FeatureComparison)
    (d : DataAwareAsrtm (Fin (n + 1) → T) g I P) (input : Fin (n + 1) → T)
    (hsome : d.managers ≠ []) :
    ∃ next, d.selectFeatureCluster (getClosest cfs) input = some next ∧
      next.managers.map Prod.fst = d.managers.map Prod.fst ∧
      ((∃ manager ∈ d.managers, Admissible cfs input manager.1) →
        FirstClosest (Admissible cfs input) (squaredDistance input)
          (d.managers.map Prod.fst) next.activeManager) ∧
      ((¬ ∃ manager ∈ d.managers, Admissible cfs input manager.1) →
        FirstClosest (fun _ => True) (squaredDistance input)
          (d.managers.map Prod.fst) next.activeManager) := by
  cases hmanagers : d.managers with
  | nil => exact absurd hmanagers hsome
  | cons first rest =>
      have hselect : ∃ next, d.selectFeatureCluster (getClosest cfs) input =
          some next := by
        rw [selectFeatureCluster, hmanagers]
        exact ⟨_, rfl⟩
      obtain ⟨next, hnext⟩ := hselect
      have hkeys := keys_of_selectFeatureCluster hnext
      rw [hmanagers] at hkeys
      refine ⟨next, hnext, hkeys, ?_⟩
      rw [selectFeatureCluster, hmanagers] at hnext
      injection hnext with hnext
      subst hnext
      have hfirst := firstLeast_closest (closeness cfs input)
        (fun best target => getClosest_iff) first rest
      obtain ⟨hbetter, hleast, hbefore⟩ := hfirst.of_lex
      constructor
      · rintro ⟨manager, hmanager, hadmissible⟩
        have hselected := hbetter _ (List.mem_map_of_mem hmanager)
          (by simpa using hadmissible)
        refine ⟨hfirst.bound, by simpa using hselected, ?_, ?_⟩
        · intro other hother hkind
          exact hleast other hother (hselected.trans (by simpa using hkind))
        · intro before hlt hkind
          exact hbefore before hlt (hselected.trans (by simpa using hkind))
      · intro hnone
        have hworse : ∀ other ∈ (first :: rest).map Prod.fst,
            (!decide (Admissible cfs input other)) = true := by
          intro other hother
          obtain ⟨manager, hmanager, rfl⟩ := List.mem_map.mp hother
          simpa using fun hkind => hnone ⟨manager, hmanager, hkind⟩
        have hselected := hworse _ (List.getElem_mem hfirst.bound)
        refine ⟨hfirst.bound, trivial, ?_, ?_⟩
        · intro other hother _
          exact hleast other hother (hselected.trans (hworse other hother).symm)
        · intro before hlt _
          exact hbefore before hlt
            (hselected.trans (hworse _ (List.getElem_mem _)).symm)

end Euclidean

section Pair

/-- The closest cluster is above the input, so the other one is admissible. -/
def pair : DataAwareAsrtm (Fin 1 → Int) Geometry.single Nat Nat :=
  ⟨[(fun _ => 7, Asrtm.new), (fun _ => 2, Asrtm.new)], 0⟩

theorem selectFeatureCluster_euclidean_pair :
    ∃ next, pair.selectFeatureCluster (getClosest fun _ => .lessOrEqual)
        (fun _ => 6) = some next ∧
      next.managers.map Prod.fst = pair.managers.map Prod.fst ∧
      FirstClosest (Admissible (fun _ => .lessOrEqual) fun _ => 6)
        (squaredDistance fun _ => 6) (pair.managers.map Prod.fst)
        next.activeManager := by
  obtain ⟨next, hselect, hkeys, hclosest, -⟩ := selectFeatureCluster_euclidean
    (fun _ => .lessOrEqual) pair (fun _ => 6) (by simp [pair])
  have hkind : Admissible (fun _ => .lessOrEqual) (fun _ => 6)
      (fun _ => (2 : Int) : Fin 1 → Int) := by decide
  exact ⟨next, hselect, hkeys, hclosest ⟨_, List.mem_cons_of_mem _ List.mem_cons_self,
    hkind⟩⟩

end Pair

end DataAwareAsrtm

end Margot
