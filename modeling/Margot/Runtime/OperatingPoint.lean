/-
Operating Points and the application knowledge.  Numbers are exact: a segment
of integer type stores the integers among the rationals.  An Operating Point
never changes after its construction, so a shared pointer is modelled by the
address of the object together with the object.
-/
import Mathlib.Data.Rat.Floor
import Mathlib.Data.Set.Finite.List
import Margot.Library.Unordered

namespace Margot

/-- The type of the values of a segment, `decltype(mean_type{} +
standard_deviation_type{})`. -/
inductive NumericType where
  | integer
  | floating
deriving Repr, DecidableEq

/-- `Data` and `Distribution`.  The standard deviation is of floating point
type; a segment of integer type has none, which counts as zero. -/
structure Data (type : NumericType) where
  mean : ℚ
  standardDeviation : ℚ
  integral : type = .integer → mean.isInt = true ∧ standardDeviation = 0
deriving DecidableEq

/-- The template arguments of `OperatingPoint`. -/
structure Geometry where
  numberOfSoftwareKnobs : Nat
  numberOfMetrics : Nat
  softwareKnobsValueType : NumericType
  metricValueType : NumericType
  softwareKnobs_pos : 0 < numberOfSoftwareKnobs
  metrics_pos : 0 < numberOfMetrics

structure OperatingPoint (g : Geometry) where
  softwareKnobs : Vector (Data g.softwareKnobsValueType) g.numberOfSoftwareKnobs
  metrics : Vector (Data g.metricValueType) g.numberOfMetrics
deriving DecidableEq

/-- `std::shared_ptr<OperatingPoint>`. -/
structure OperatingPointPtr (g : Geometry) where
  address : Nat
  op : OperatingPoint g
deriving DecidableEq

/-- `OPStream`. -/
abbrev OPStream (g : Geometry) := List (OperatingPointPtr g)

inductive BoundType where
  | lower
  | upper
deriving Repr, DecidableEq

/-- A segment of the Operating Point and the index of a field within it. -/
inductive OPField (g : Geometry) where
  | softwareKnobs (fieldIndex : Fin g.numberOfSoftwareKnobs)
  | metrics (fieldIndex : Fin g.numberOfMetrics)
deriving DecidableEq

variable {g : Geometry}

/-- The part of a segment that identifies an Operating Point: `operator==`
compares the means of the software knobs only. -/
def OperatingPoint.getKnobs (op : OperatingPoint g) :
    Vector ℚ g.numberOfSoftwareKnobs :=
  op.softwareKnobs.map Data.mean

def OperatingPointPtr.getKnobs (ptr : OperatingPointPtr g) :
    Vector ℚ g.numberOfSoftwareKnobs :=
  ptr.op.getKnobs

def OPField.valueType : OPField g → NumericType
  | .softwareKnobs _ => g.softwareKnobsValueType
  | .metrics _ => g.metricValueType

/-- The datum of a field of an Operating Point. -/
def OPField.data : (field : OPField g) → OperatingPoint g →
    Data field.valueType
  | .softwareKnobs index, op => op.softwareKnobs.get index
  | .metrics index, op => op.metrics.get index

/-- `op_utils::get`: the mean moved by `sigma` standard deviations. -/
def opUtilsGet (bound : BoundType) (field : OPField g) (sigma : Int)
    (ptr : OperatingPointPtr g) : ℚ :=
  match bound with
  | .lower => (field.data ptr.op).mean -
      sigma * (field.data ptr.op).standardDeviation
  | .upper => (field.data ptr.op).mean +
      sigma * (field.data ptr.op).standardDeviation

/-- `static_cast` to a type of the framework: a conversion to an integer type
truncates toward zero. -/
def NumericType.staticCast : NumericType → ℚ → ℚ
  | .integer, value => if 0 ≤ value then (value.floor : ℚ) else (value.ceil : ℚ)
  | .floating, value => value

theorem opUtilsGet_isInt {field : OPField g}
    (htype : field.valueType = .integer) (bound : BoundType) (sigma : Int)
    (ptr : OperatingPointPtr g) :
    ∃ n : Int, opUtilsGet bound field sigma ptr = n := by
  obtain ⟨hmean, hdeviation⟩ := (field.data ptr.op).integral htype
  refine ⟨(field.data ptr.op).mean.num, ?_⟩
  have hint : (field.data ptr.op).mean = ((field.data ptr.op).mean.num : ℚ) :=
    Rat.eq_num_of_isInt hmean
  cases bound with
  | lower => simpa [opUtilsGet, hdeviation] using hint
  | upper => simpa [opUtilsGet, hdeviation] using hint

/-- Truncation moves a bound of an integer range at most to the next integer
inside the range, so no integer of the range is lost. -/
theorem staticCast_le_of_le {type : NumericType} {limit value : ℚ}
    (hvalue : type = .integer → ∃ n : Int, value = n) (hle : limit ≤ value) :
    type.staticCast limit ≤ value := by
  cases type with
  | floating => exact hle
  | integer =>
      obtain ⟨n, hn⟩ := hvalue rfl
      rw [hn] at hle ⊢
      by_cases hsign : 0 ≤ limit
      · rw [NumericType.staticCast, if_pos hsign]
        exact (Rat.floor_le limit).trans hle
      · rw [NumericType.staticCast, if_neg hsign]
        exact_mod_cast Rat.ceil_le_iff.mpr hle

theorem le_staticCast_of_le {type : NumericType} {limit value : ℚ}
    (hvalue : type = .integer → ∃ n : Int, value = n) (hle : value ≤ limit) :
    value ≤ type.staticCast limit := by
  cases type with
  | floating => exact hle
  | integer =>
      obtain ⟨n, hn⟩ := hvalue rfl
      rw [hn] at hle ⊢
      by_cases hsign : 0 ≤ limit
      · rw [NumericType.staticCast, if_pos hsign]
        exact_mod_cast Rat.le_floor_iff.mpr hle
      · rw [NumericType.staticCast, if_neg hsign]
        exact hle.trans Rat.le_ceil

/-- An Operating Point with the same value in every field. -/
def OperatingPoint.uniform (g : Geometry) (value : Nat) : OperatingPoint g where
  softwareKnobs := Vector.replicate _
    ⟨value, 0, fun _ => ⟨by simp [Rat.isInt], rfl⟩⟩
  metrics := Vector.replicate _ ⟨value, 0, fun _ => ⟨by simp [Rat.isInt], rfl⟩⟩

/-- Some configuration is none of finitely many. -/
theorem exists_fresh_uniform (configurations :
    List (Vector ℚ g.numberOfSoftwareKnobs)) :
    ∃ value, (OperatingPoint.uniform g value).getKnobs ∉ configurations := by
  let firstKnob : Vector ℚ g.numberOfSoftwareKnobs → ℚ :=
    fun configuration => configuration.get ⟨0, g.softwareKnobs_pos⟩
  have hinfinite : (Set.range (Nat.cast : Nat → ℚ)).Infinite :=
    Set.infinite_range_of_injective Nat.cast_injective
  obtain ⟨_, ⟨value, rfl⟩, hfresh⟩ := hinfinite.exists_notMem_finset
    (configurations.map firstKnob).toFinset
  refine ⟨value, fun hmem => hfresh ?_⟩
  rw [List.mem_toFinset]
  refine List.mem_map.mpr ⟨_, hmem, ?_⟩
  simp only [firstKnob, OperatingPoint.getKnobs, OperatingPoint.uniform,
    Vector.map_replicate]
  exact Vector.getElem_replicate g.softwareKnobs_pos

/-- One software knob and one metric, both of floating point type. -/
def Geometry.single : Geometry where
  numberOfSoftwareKnobs := 1
  numberOfMetrics := 1
  softwareKnobsValueType := .floating
  metricValueType := .floating
  softwareKnobs_pos := Nat.one_pos
  metrics_pos := Nat.one_pos

instance : HashOrder (OperatingPointPtr Geometry.single) := HashOrder.stored _

def OPField.single : OPField Geometry.single := .metrics ⟨0, Nat.one_pos⟩

/-- A floating point datum without deviation. -/
def Data.exact (mean : ℚ) : Data .floating := ⟨mean, 0, nofun⟩

def OperatingPoint.single (knob metric : ℚ) : OperatingPoint Geometry.single :=
  ⟨#v[Data.exact knob], #v[Data.exact metric]⟩

def OperatingPointPtr.single (address : Nat) (knob metric : ℚ) :
    OperatingPointPtr Geometry.single :=
  ⟨address, OperatingPoint.single knob metric⟩

/-- The application knowledge: one Operating Point for each configuration. -/
structure Knowledge (g : Geometry) where
  knowledge : List (OperatingPointPtr g)
  distinct : (knowledge.map OperatingPointPtr.getKnobs).Nodup

namespace Knowledge

instance : Membership (OperatingPointPtr g) (Knowledge g) :=
  ⟨fun kb ptr => ptr ∈ kb.knowledge⟩

theorem mem_def {kb : Knowledge g} {ptr : OperatingPointPtr g} :
    ptr ∈ kb ↔ ptr ∈ kb.knowledge :=
  Iff.rfl

/-- The Operating Points of the knowledge. -/
def points (kb : Knowledge g) : Set (OperatingPointPtr g) :=
  {ptr | ptr ∈ kb}

@[simp] theorem mem_points {kb : Knowledge g} {ptr : OperatingPointPtr g} :
    ptr ∈ kb.points ↔ ptr ∈ kb :=
  Iff.rfl

theorem nodup (kb : Knowledge g) : kb.knowledge.Nodup :=
  kb.distinct.of_map _

def clear : Knowledge g := ⟨[], List.nodup_nil⟩

def empty (kb : Knowledge g) : Bool := kb.knowledge.isEmpty

theorem empty_eq_true {kb : Knowledge g} :
    kb.empty = true ↔ ∀ ptr, ptr ∉ kb := by
  rw [empty, List.isEmpty_iff, List.eq_nil_iff_forall_not_mem]
  exact Iff.rfl

/-- `Knowledge::add` on a pointer: the pointer that was inserted, or none if
its configuration was already known. -/
def add (kb : Knowledge g) (newOp : OperatingPointPtr g) :
    Knowledge g × Option (OperatingPointPtr g) :=
  if h : newOp.getKnobs ∈ kb.knowledge.map OperatingPointPtr.getKnobs then
    (kb, none)
  else
    (⟨newOp :: kb.knowledge, List.nodup_cons.mpr ⟨h, kb.distinct⟩⟩, some newOp)

/-- `Knowledge::remove`: the pointer that was removed, if any. -/
def remove (kb : Knowledge g) (conf : Vector ℚ g.numberOfSoftwareKnobs) :
    Knowledge g × Option (OperatingPointPtr g) :=
  match kb.knowledge.find? fun ptr => ptr.getKnobs = conf with
  | none => (kb, none)
  | some ptr =>
      (⟨kb.knowledge.erase ptr,
        kb.distinct.sublist (List.erase_sublist.map _)⟩, some ptr)

/-- The Operating Points in the order of an iteration over the knowledge. -/
def toStream [HashOrder (OperatingPointPtr g)] (kb : Knowledge g) :
    OPStream g :=
  HashOrder.visit kb.knowledge

@[simp] theorem mem_toStream [HashOrder (OperatingPointPtr g)]
    {kb : Knowledge g} {ptr : OperatingPointPtr g} :
    ptr ∈ kb.toStream ↔ ptr ∈ kb :=
  HashOrder.mem_visit

theorem toStream_nodup [HashOrder (OperatingPointPtr g)] (kb : Knowledge g) :
    kb.toStream.Nodup :=
  HashOrder.nodup_visit.mpr kb.nodup

theorem toStream_perm [HashOrder (OperatingPointPtr g)] (kb : Knowledge g) :
    kb.toStream.Perm kb.knowledge :=
  HashOrder.visit_perm kb.knowledge

/-- The loop of `Asrtm::add_operating_points`: the knowledge with the
Operating Points of the list, and the stream of the really new ones. -/
def addAll (kb : Knowledge g) : OPStream g → Knowledge g × OPStream g
  | [] => (kb, [])
  | newOp :: rest =>
      let added := kb.add newOp
      let result := added.1.addAll rest
      (result.1, added.2.toList ++ result.2)

/-- The loop of `Asrtm::remove_operating_points`. -/
def removeAll (kb : Knowledge g) :
    List (Vector ℚ g.numberOfSoftwareKnobs) → Knowledge g × OPStream g
  | [] => (kb, [])
  | conf :: rest =>
      let removed := kb.remove conf
      let result := removed.1.removeAll rest
      (result.1, removed.2.toList ++ result.2)

theorem add_perm (kb : Knowledge g) (newOp : OperatingPointPtr g) :
    (kb.add newOp).1.knowledge.Perm
      (kb.knowledge ++ (kb.add newOp).2.toList) := by
  unfold add
  split
  · simp
  · exact (List.perm_append_singleton newOp kb.knowledge).symm

theorem addAll_perm (kb : Knowledge g) (newOps : OPStream g) :
    (kb.addAll newOps).1.knowledge.Perm
      (kb.knowledge ++ (kb.addAll newOps).2) := by
  induction newOps generalizing kb with
  | nil => simp [addAll]
  | cons newOp rest ih =>
      have hrest := ih (kb.add newOp).1
      have hadd := (add_perm kb newOp).append_right
        ((kb.add newOp).1.addAll rest).2
      rw [List.append_assoc] at hadd
      exact hrest.trans hadd

theorem remove_perm (kb : Knowledge g)
    (conf : Vector ℚ g.numberOfSoftwareKnobs) :
    kb.knowledge.Perm
      ((kb.remove conf).2.toList ++ (kb.remove conf).1.knowledge) := by
  unfold remove
  split
  · simp
  · next ptr hfind =>
      exact List.perm_cons_erase (List.mem_of_find?_eq_some hfind)

theorem removeAll_perm (kb : Knowledge g)
    (confs : List (Vector ℚ g.numberOfSoftwareKnobs)) :
    kb.knowledge.Perm
      ((kb.removeAll confs).2 ++ (kb.removeAll confs).1.knowledge) := by
  induction confs generalizing kb with
  | nil => simp [removeAll]
  | cons conf rest ih =>
      have hrest := (ih (kb.remove conf).1).append_left
        (kb.remove conf).2.toList
      rw [← List.append_assoc] at hrest
      exact (remove_perm kb conf).trans hrest

end Knowledge

end Margot
