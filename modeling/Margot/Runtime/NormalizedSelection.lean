/-
The selection of a feature cluster by the normalized distance.  Every comparison
is normalized for the pair that it compares, so what is selected depends on the
clusters that were met before.
-/
import Mathlib.Algebra.Order.BigOperators.Group.Finset
import Margot.Library.Tournament
import Margot.Runtime.ClusterKeys
import Margot.Runtime.FeatureTypes

namespace Margot

variable {g : Geometry} {F I P : Type} [LinearOrder P]

namespace DataAwareAsrtm

/-- The loop over the clusters, with a selector that may be undefined. -/
def closest? (getClosest : F → F → F → Option Bool) (key : F)
    (managers : List (F × Asrtm g I (State g P))) (first : F) : Option Nat :=
  ((managers.zipIdx.drop 1).foldlM (fun best target =>
    (getClosest key best.1 target.1.1).map fun better =>
      if better then (target.1.1, target.2) else best) (first, 0)).map Prod.snd

/-- `select_feature_cluster`, with a selector that may be undefined. -/
def selectFeatureCluster? (getClosest : F → F → F → Option Bool)
    (d : DataAwareAsrtm F g I P) (key : F) :
    Option (DataAwareAsrtm F g I P) :=
  match d.managers with
  | [] => none
  | first :: _ =>
      (closest? getClosest key d.managers first.1).map fun activeManager =>
        ⟨if activeManager ≠ d.activeManager then
            d.managers.modify activeManager fun manager =>
              (manager.1, manager.2.restoreFromDataFeatureSwitch)
          else d.managers, activeManager⟩

/-- The key of the cluster that is active after a selection. -/
def selectedKey (getClosest : F → F → F → Option Bool)
    (d : DataAwareAsrtm F g I P) (key : F) : Option F :=
  (d.selectFeatureCluster? getClosest key).bind fun next =>
    next.active?.map Prod.fst

section Selected

variable (getClosest : F → F → F → Option Bool) (d : DataAwareAsrtm F g I P)
  (key : F)

/-- A selector that is always defined selects as before. -/
theorem selectFeatureCluster?_some (getClosest : F → F → F → Bool) :
    d.selectFeatureCluster? (fun key best target =>
        some (getClosest key best target)) key =
      d.selectFeatureCluster getClosest key := by
  rw [selectFeatureCluster?, selectFeatureCluster]
  cases d.managers with
  | nil => rfl
  | cons first rest =>
      have hloop : closest? (fun key best target =>
          some (getClosest key best target)) key (first :: rest) first.1 =
            some (closest getClosest key (first :: rest) first.1) := by
        rw [closest?, closest]
        exact congrArg (Option.map Prod.snd) List.foldlM_pure
      simp only [hloop, Option.map_some]

/-- The loop keeps the position of the key that is kept. -/
theorem bind_foldlM_zipIdx {managers : List (F × Asrtm g I (State g P))}
    {targets : List (F × Asrtm g I (State g P))} {start : Nat}
    (htargets : managers.drop start = targets) {best : F} {position : Nat}
    (hbest : managers[position]?.map Prod.fst = some best) :
    ((targets.zipIdx start).foldlM (fun best target =>
      (getClosest key best.1 target.1.1).map fun better =>
        if better then (target.1.1, target.2) else best)
      (best, position)).bind (fun kept => managers[kept.2]?.map Prod.fst) =
      keep (getClosest key) best (targets.map Prod.fst) := by
  induction targets generalizing start best position with
  | nil => exact hbest
  | cons target rest ih =>
      have hrest : managers.drop (start + 1) = rest := by
        rw [← List.tail_drop, htargets, List.tail_cons]
      have htarget : managers[start]?.map Prod.fst = some target.1 := by
        rw [← List.head?_drop, htargets]
        rfl
      rw [List.zipIdx_cons, List.foldlM_cons, List.map_cons, keep]
      cases hcompare : getClosest key best target.1 with
      | none => rfl
      | some wins =>
          cases wins with
          | false => exact ih hrest hbest
          | true => exact ih hrest htarget

/-- A switch of the cluster keeps the keys. -/
theorem getElem?_restored (managers : List (F × Asrtm g I (State g P)))
    (previous position : Nat) :
    (if position ≠ previous then
        managers.modify position fun manager =>
          (manager.1, manager.2.restoreFromDataFeatureSwitch)
      else managers)[position]?.map Prod.fst =
        managers[position]?.map Prod.fst := by
  split
  · rw [List.getElem?_modify]
    simp only [if_true, Option.map_eq_map, Option.map_map]
    rfl
  · rfl

/-- The active cluster is the one that is kept of the keys. -/
theorem selectedKey_eq :
    d.selectedKey getClosest key = selected (getClosest key) d.keys := by
  rw [selectedKey, selectFeatureCluster?, keys]
  cases d.managers with
  | nil => rfl
  | cons first rest =>
      have hrest : (first :: rest).drop 1 = rest := rfl
      have hfirst : (first :: rest)[0]?.map Prod.fst = some first.1 := rfl
      have hloop := bind_foldlM_zipIdx getClosest key hrest hfirst
      rw [List.map_cons, selected, ← hloop, Option.bind_map, closest?,
        List.zipIdx_cons, List.drop_succ_cons, List.drop_zero, Option.bind_map]
      apply congrArg
      funext kept
      exact getElem?_restored (first :: rest) d.activeManager kept.2

end Selected

end DataAwareAsrtm

namespace IntegerType

variable {n : Nat} {input best target key : Fin (n + 1) → Int}

theorem apart_input (input best target : Fin (n + 1) → Int) :
    apart input best target input = 0 := by
  simp [apart]

/-- A key that spans every axis with the input is apart from it on all of
them. -/
theorem apart_eq (hne : ∀ field, key field ≠ input field)
    (hhigh : ∀ field, axisHigh input best target field =
      max (input field) (key field)) :
    apart input best target key = n + 1 := by
  have hall : ∀ field ∈ (Finset.univ : Finset (Fin (n + 1))),
      ¬ (input field = axisHigh input best target field ↔
        key field = axisHigh input best target field) := by
    intro field _
    rw [hhigh]
    have hdiffer := hne field
    rcases max_choice (input field) (key field) with hmax | hmax
    · rw [hmax]
      exact fun hiff => hdiffer (hiff.mp rfl)
    · rw [hmax]
      exact fun hiff => hdiffer (hiff.mpr rfl).symm
  rw [apart, Finset.filter_true_of_mem hall, Finset.card_univ, Fintype.card_fin]
  exact Nat.cast_succ n

variable {type : IntegerType} {cfs : Fin (n + 1) → FeatureComparison}
  {known best target : Fin (n + 1) → type.Value}

theorem integer_replaces_iff :
    type.arithmetic.getClosestNormalized cfs known best known = some true ↔
      (Admissible cfs known best →
        Spanned type (values known) (values best) (values known) ∧
          0 < type.wrap (n + 1)) := by
  have hknown := admissible_self cfs known
  by_cases hbest : Admissible cfs known best
  · have hvalidity : Admissible cfs known best ↔ Admissible cfs known known :=
      iff_of_true hbest hknown
    rw [imp_iff_right hbest]
    by_cases hspanned : Spanned type (values known) (values best) (values known)
    · have hne : ∀ field, values best field ≠ values known field :=
        fun field hsame =>
          (hspanned field).1 (axisRange_eq_zero_iff.mpr ⟨hsame, rfl⟩)
      have hapart : apart (values known) (values best) (values known)
          (values best) = n + 1 :=
        apart_eq hne fun field =>
          (max_right_comm _ _ _).trans (congrArg (max · _) (max_self _))
      rw [integer_getClosestNormalized hvalidity hspanned, apart_input, hapart,
        wrap_zero, and_iff_right hspanned, Option.some.injEq,
        decide_eq_true_iff]
    · rw [integer_getClosestNormalized_none hvalidity hspanned]
      exact iff_of_false (by simp) fun hboth => hspanned hboth.1
  · exact iff_of_true
      (FeatureArithmetic.getClosestNormalized_of_valid_target hbest hknown)
      fun hvalid => absurd hvalid hbest

theorem integer_stays_iff :
    type.arithmetic.getClosestNormalized cfs known known target = some false ↔
      (Admissible cfs known target →
        Spanned type (values known) (values known) (values target) ∧
          0 ≤ type.wrap (n + 1)) := by
  have hknown := admissible_self cfs known
  by_cases htarget : Admissible cfs known target
  · have hvalidity : Admissible cfs known known ↔ Admissible cfs known target :=
      iff_of_true hknown htarget
    rw [imp_iff_right htarget]
    by_cases hspanned :
        Spanned type (values known) (values known) (values target)
    · have hne : ∀ field, values target field ≠ values known field :=
        fun field hsame =>
          (hspanned field).1 (axisRange_eq_zero_iff.mpr ⟨rfl, hsame⟩)
      have hapart : apart (values known) (values known) (values target)
          (values target) = n + 1 :=
        apart_eq hne fun field => congrArg (max · _) (max_self _)
      rw [integer_getClosestNormalized hvalidity hspanned, apart_input, hapart,
        wrap_zero, and_iff_right hspanned, Option.some.injEq,
        decide_eq_false_iff_not, not_lt]
    · rw [integer_getClosestNormalized_none hvalidity hspanned]
      exact iff_of_false (by simp) fun hboth => hspanned hboth.1
  · exact iff_of_true
      (FeatureArithmetic.getClosestNormalized_of_valid_best hknown htarget)
      fun hvalid => absurd hvalid htarget

end IntegerType

namespace FeatureType

variable {n : Nat}

/-- The known key replaces the best one: that one is not valid, or it differs
from the known key on every axis, and the differences do not overflow; in an
integer type the number of the axes does not wrap to nothing. -/
def Replaces (cfs : Fin (n + 1) → FeatureComparison) :
    (type : FeatureType) → (known best : Fin (n + 1) → type.Key) → Prop
  | floating format, known, best => Admissible cfs known best →
      format.Spanned (FloatFormat.values known) (FloatFormat.values best)
        (FloatFormat.values known)
  | integer type, known, best => Admissible cfs known best →
      type.Spanned (IntegerType.values known) (IntegerType.values best)
          (IntegerType.values known) ∧
        0 < type.wrap (n + 1)

/-- The known key stays the best one before a target, which only an integer type
can prevent. -/
def Stays (cfs : Fin (n + 1) → FeatureComparison) :
    (type : FeatureType) → (known target : Fin (n + 1) → type.Key) → Prop
  | floating _, _, _ => True
  | integer type, known, target => Admissible cfs known target →
      type.Spanned (IntegerType.values known) (IntegerType.values known)
          (IntegerType.values target) ∧
        0 ≤ type.wrap (n + 1)

theorem replaces_iff {cfs : Fin (n + 1) → FeatureComparison}
    {type : FeatureType} {known best : Fin (n + 1) → type.Key} :
    type.getClosestNormalized cfs known best known = some true ↔
      Replaces cfs type known best := by
  cases type with
  | floating format => exact FloatFormat.floating_replaces_iff
  | integer type => exact IntegerType.integer_replaces_iff

theorem stays_iff {cfs : Fin (n + 1) → FeatureComparison}
    {type : FeatureType} {known target : Fin (n + 1) → type.Key} :
    type.getClosestNormalized cfs known known target = some false ↔
      Stays cfs type known target := by
  cases type with
  | floating format => exact iff_of_true FloatFormat.floating_stays trivial
  | integer type => exact IntegerType.integer_stays_iff

end FeatureType

namespace DataAwareAsrtm

/-- A cluster is selected by its own key exactly when it replaces what is kept
of the clusters before it, and stays before those after it. -/
theorem known_selected_iff {n : Nat} (type : FeatureType)
    (cfs : Fin (n + 1) → FeatureComparison)
    (d : DataAwareAsrtm (Fin (n + 1) → type.Key) g I P)
    (before : List (Fin (n + 1) → type.Key)) (known : Fin (n + 1) → type.Key)
    (after : List (Fin (n + 1) → type.Key))
    (hkeys : d.keys = before ++ known :: after) (hdistinct : d.keys.Nodup) :
    d.selectedKey (type.getClosestNormalized cfs) known = some known ↔
      (∀ first rest, before = first :: rest →
        ∃ best, keep (type.getClosestNormalized cfs known) first rest =
            some best ∧ type.Replaces cfs known best) ∧
      ∀ target ∈ after, type.Stays cfs known target := by
  rw [hkeys] at hdistinct
  rw [selectedKey_eq, hkeys, selected_eq_some_iff hdistinct]
  simp only [FeatureType.replaces_iff, FeatureType.stays_iff]

section Sharing

/-- A key of two features in the type with the name `double`, of which the first
one is 1. -/
def sharedKey (second : ℚ) (hholds : FloatFormat.binary64.Holds second) :
    Fin (1 + 1) → (FeatureType.floating .binary64).Key :=
  fun field => if field = 0 then ⟨1, by decide +kernel⟩ else ⟨second, hholds⟩

def sharedFirst : Fin (1 + 1) → (FeatureType.floating .binary64).Key :=
  sharedKey 1 (by decide +kernel)

def sharedSecond : Fin (1 + 1) → (FeatureType.floating .binary64).Key :=
  sharedKey 2 (by decide +kernel)

/-- Two clusters that share their first feature. -/
def sharing : DataAwareAsrtm
    (Fin (1 + 1) → (FeatureType.floating .binary64).Key)
    Geometry.single Nat Nat :=
  ⟨[(sharedFirst, Asrtm.new), (sharedSecond, Asrtm.new)], 0⟩

theorem keys_sharing : sharing.keys = [sharedFirst] ++ [sharedSecond] :=
  rfl

theorem nodup_sharing : ([sharedFirst] ++ [sharedSecond]).Nodup := by
  have hne : sharedFirst ≠ sharedSecond := fun hsame =>
    absurd (congrArg Subtype.val (congrFun hsame 1))
      (by decide : (1 : ℚ) ≠ 2)
  exact List.nodup_cons.mpr
    ⟨fun hmem => hne (List.mem_singleton.mp hmem), List.nodup_singleton _⟩

theorem known_selected_iff_sharing :
    sharing.selectedKey ((FeatureType.floating .binary64).getClosestNormalized
        fun _ => .dontCare) sharedSecond = some sharedSecond ↔
      (∀ first rest, [sharedFirst] = first :: rest →
        ∃ best, keep ((FeatureType.floating .binary64).getClosestNormalized
            (fun _ => .dontCare) sharedSecond) first rest = some best ∧
          (FeatureType.floating .binary64).Replaces (fun _ => .dontCare)
            sharedSecond best) ∧
      ∀ target ∈ [], (FeatureType.floating .binary64).Stays
        (fun _ => .dontCare) sharedSecond target :=
  known_selected_iff _ _ sharing _ _ _ keys_sharing
    (keys_sharing ▸ nodup_sharing)

/-- The first feature has no range, so that the first cluster is kept. -/
theorem not_known_selected :
    ¬ ∀ (type : FeatureType) (n : Nat) (cfs : Fin (n + 1) → FeatureComparison)
      (d : DataAwareAsrtm (Fin (n + 1) → type.Key) Geometry.single Nat Nat)
      (known : Fin (n + 1) → type.Key), d.keys.Nodup → known ∈ d.keys →
        d.selectedKey (type.getClosestNormalized cfs) known = some known := by
  intro hall
  have hselected := hall _ 1 (fun _ => .dontCare) sharing sharedSecond
    (keys_sharing ▸ nodup_sharing) (List.mem_cons_of_mem _ List.mem_cons_self)
  rw [selectedKey_eq, keys_sharing] at hselected
  have hreplaced := (selected_eq_some_iff nodup_sharing).mp hselected
  obtain ⟨best, hbest, hwins⟩ := hreplaced.1 _ _ rfl
  obtain rfl := Option.some.inj hbest
  have hspanned := FeatureType.replaces_iff.mp hwins fun _ => rfl
  exact (hspanned 0).1 (axisRange_eq_zero_iff.mpr ⟨rfl, rfl⟩)

end Sharing

section Orders

variable {n : Nat} {cfs : Fin (n + 1) → FeatureComparison}
  {input a b : Fin (n + 1) → ℚ}

/-- The first cluster is preferred to the second one, in whatever order they are
compared. -/
def Closer (cfs : Fin (n + 1) → FeatureComparison)
    (input first second : Fin (n + 1) → ℚ) : Prop :=
  (Admissible cfs input first ∧ ¬ Admissible cfs input second) ∨
    ((Admissible cfs input first ↔ Admissible cfs input second) ∧
      normalizedDistance input second first first <
        normalizedDistance input second first second)

/-- The pairs of different clusters span every axis with the input, and those
of the same validity are not at the same distance. -/
structure Separated (cfs : Fin (n + 1) → FeatureComparison)
    (input : Fin (n + 1) → ℚ) (clusters : List (Fin (n + 1) → ℚ)) : Prop where
  ranges : ∀ a ∈ clusters, ∀ b ∈ clusters, a ≠ b →
    ∀ field, axisRange input a b field ≠ 0
  distances : ∀ a ∈ clusters, ∀ b ∈ clusters, a ≠ b →
    (Admissible cfs input a ↔ Admissible cfs input b) →
      normalizedDistance input a b a ≠ normalizedDistance input a b b

theorem normalizedDistance_comm (input a b key : Fin (n + 1) → ℚ) :
    normalizedDistance input a b key = normalizedDistance input b a key := by
  apply Finset.sum_congr rfl
  intro field _
  rw [axisRange, axisRange, axisHigh, axisLow, axisHigh, axisLow,
    max_right_comm, min_right_comm]

theorem exact_eq_true_iff
    (hrange : ∀ field, axisRange input a b field ≠ 0) :
    FeatureArithmetic.exact.getClosestNormalized cfs input a b = some true ↔
      Closer cfs input b a := by
  by_cases ha : Admissible cfs input a <;> by_cases hb : Admissible cfs input b
  · rw [FeatureArithmetic.exact_getClosestNormalized (iff_of_true ha hb)
      hrange]
    simp [Closer, ha, hb]
  · rw [FeatureArithmetic.getClosestNormalized_of_valid_best ha hb]
    simp [Closer, ha, hb]
  · rw [FeatureArithmetic.getClosestNormalized_of_valid_target ha hb]
    simp [Closer, ha, hb]
  · rw [FeatureArithmetic.exact_getClosestNormalized (iff_of_false ha hb)
      hrange]
    simp [Closer, ha, hb]

/-- Of two separated clusters exactly one is preferred. -/
theorem strict_of_separated {clusters : List (Fin (n + 1) → ℚ)}
    (hseparated : Separated cfs input clusters) :
    Strict (FeatureArithmetic.exact.getClosestNormalized cfs input)
      clusters := by
  intro a ha b hb hne
  have hrange := hseparated.ranges a ha b hb hne
  have hback := hseparated.ranges b hb a ha hne.symm
  by_cases hvalidity : Admissible cfs input a ↔ Admissible cfs input b
  · have hdistance := hseparated.distances a ha b hb hne hvalidity
    refine ⟨_, FeatureArithmetic.exact_getClosestNormalized hvalidity hrange,
      ?_⟩
    rw [FeatureArithmetic.exact_getClosestNormalized hvalidity.symm hback,
      normalizedDistance_comm input b a a, normalizedDistance_comm input b a b,
      ← decide_not]
    apply congrArg some
    rw [decide_eq_decide, not_lt]
    exact ⟨le_of_lt, fun hle => lt_of_le_of_ne hle hdistance⟩
  · by_cases hvalid : Admissible cfs input a
    · have hinvalid : ¬ Admissible cfs input b :=
        fun hb => hvalidity (iff_of_true hvalid hb)
      exact ⟨false,
        FeatureArithmetic.getClosestNormalized_of_valid_best hvalid hinvalid,
        FeatureArithmetic.getClosestNormalized_of_valid_target hinvalid hvalid⟩
    · have hother : Admissible cfs input b :=
        by_contra fun hb => hvalidity (iff_of_false hvalid hb)
      exact ⟨true,
        FeatureArithmetic.getClosestNormalized_of_valid_target hvalid hother,
        FeatureArithmetic.getClosestNormalized_of_valid_best hother hvalid⟩

/-- The clusters with the keys in their order. -/
def ofKeys (keys : List F) : DataAwareAsrtm F g I P :=
  ⟨keys.map fun key => (key, Asrtm.new), 0⟩

theorem keys_ofKeys (order : List F) :
    (ofKeys order : DataAwareAsrtm F g I P).keys = order := by
  rw [keys, ofKeys, List.map_map]
  exact List.map_id _

/-- The order of the clusters does not matter exactly when one of them is
preferred to all the others. -/
theorem orderIndependent_iff (cfs : Fin (n + 1) → FeatureComparison)
    (input : Fin (n + 1) → ℚ) (clusters : List (Fin (n + 1) → ℚ))
    (hdistinct : clusters.Nodup) (hseparated : Separated cfs input clusters) :
    (∀ first second : DataAwareAsrtm (Fin (n + 1) → ℚ) g I P,
      first.keys.Perm clusters → second.keys.Perm clusters →
        first.selectedKey (FeatureArithmetic.exact.getClosestNormalized cfs)
            input =
          second.selectedKey
            (FeatureArithmetic.exact.getClosestNormalized cfs) input) ↔
      clusters = [] ∨ ∃ winner ∈ clusters, ∀ other ∈ clusters,
        other ≠ winner → Closer cfs input winner other := by
  have horders : (∀ first second : DataAwareAsrtm (Fin (n + 1) → ℚ) g I P,
      first.keys.Perm clusters → second.keys.Perm clusters →
        first.selectedKey (FeatureArithmetic.exact.getClosestNormalized cfs)
            input =
          second.selectedKey
            (FeatureArithmetic.exact.getClosestNormalized cfs) input) ↔
      ∀ first second : List (Fin (n + 1) → ℚ), first.Perm clusters →
        second.Perm clusters →
          selected (FeatureArithmetic.exact.getClosestNormalized cfs input)
              first =
            selected (FeatureArithmetic.exact.getClosestNormalized cfs input)
              second := by
    constructor
    · intro hall first second hfirst hsecond
      have hsame := hall (ofKeys first) (ofKeys second)
      rw [keys_ofKeys, keys_ofKeys, selectedKey_eq, selectedKey_eq, keys_ofKeys,
        keys_ofKeys] at hsame
      exact hsame hfirst hsecond
    · intro hall first second hfirst hsecond
      rw [selectedKey_eq, selectedKey_eq]
      exact hall _ _ hfirst hsecond
  rw [horders]
  by_cases hsome : clusters = []
  · refine iff_of_true ?_ (.inl hsome)
    intro first second hfirst hsecond
    rw [hsome] at hfirst hsecond
    rw [hfirst.eq_nil, hsecond.eq_nil]
  · rw [or_iff_right hsome,
      selected_perm_iff hdistinct (strict_of_separated hseparated) hsome]
    apply exists_congr
    intro winner
    apply and_congr_right
    intro hwinner
    apply forall₂_congr
    intro other hother
    apply imp_congr_right
    intro hne
    exact exact_eq_true_iff (hseparated.ranges other hother winner hwinner hne)

section Cyclic

/-- Each of the clusters is preferred to the next one, and the last one to the
first one. -/
def cyclic : List (Fin 2 → ℚ) := [![-3, -1], ![1, -2], ![2, 1]]

theorem nodup_cyclic : cyclic.Nodup := by
  decide +kernel

theorem separated_cyclic : Separated (fun _ => .dontCare) 0 cyclic where
  ranges := by decide +kernel
  distances := by decide +kernel

theorem orderIndependent_iff_cyclic :
    (∀ first second : DataAwareAsrtm (Fin 2 → ℚ) Geometry.single Nat Nat,
      first.keys.Perm cyclic → second.keys.Perm cyclic →
        first.selectedKey (FeatureArithmetic.exact.getClosestNormalized
            fun _ => .dontCare) 0 =
          second.selectedKey (FeatureArithmetic.exact.getClosestNormalized
            fun _ => .dontCare) 0) ↔
      cyclic = [] ∨ ∃ winner ∈ cyclic, ∀ other ∈ cyclic, other ≠ winner →
        Closer (fun _ => .dontCare) 0 winner other :=
  orderIndependent_iff (fun _ => .dontCare) 0 cyclic nodup_cyclic
    separated_cyclic

/-- Another order of the same clusters selects another one. -/
theorem not_orderIndependent_cyclic :
    ¬ ∀ (n : Nat) (cfs : Fin (n + 1) → FeatureComparison)
      (input : Fin (n + 1) → ℚ)
      (first second : DataAwareAsrtm (Fin (n + 1) → ℚ) Geometry.single Nat Nat),
      first.keys.Nodup → Separated cfs input first.keys →
        second.keys.Perm first.keys →
          first.selectedKey
              (FeatureArithmetic.exact.getClosestNormalized cfs) input =
            second.selectedKey
              (FeatureArithmetic.exact.getClosestNormalized cfs) input := by
  intro hall
  have hsame := hall 1 (fun _ => .dontCare) 0 (ofKeys cyclic)
    (ofKeys [![1, -2], ![2, 1], ![-3, -1]])
  rw [selectedKey_eq, selectedKey_eq, keys_ofKeys, keys_ofKeys] at hsame
  have hselected := hsame nodup_cyclic separated_cyclic (by decide +kernel)
  exact absurd hselected (by decide +kernel)

end Cyclic

end Orders

end DataAwareAsrtm

end Margot
