/-
Runtime information providers.  A field adaptor keeps a window of error
coefficients for one field of the Operating Point; the knowledge adaptor
registers at most one of them for each field.  Adaptors and monitor buffers
are shared objects, so they live in a store and are referred to by address.
-/
import Mathlib.Data.Fin.VecNotation
import Mathlib.Logic.Function.Basic
import Margot.Runtime.CircularBuffer
import Margot.Runtime.OperatingPoint

namespace Margot

/-- The shared value of a goal. -/
abbrev GoalRef := Nat

/-- The shared window of observations of a monitor. -/
abbrev MonitorRef := Nat

/-- `FieldAdaptorPtr`. -/
abbrev AdaptorRef := Nat

variable {g : Geometry}

/-- `statistics.hpp`. -/
def average (values : List ℚ) : ℚ :=
  values.sum / (if 1 < values.length then values.length else 1 : Nat)

structure OneSigmaAdaptor (g : Geometry) where
  targetField : OPField g
  inertia : Nat
  errorWindow : Vector ℚ inertia
  averageCoefficientError : ℚ
  nextElement : Fin inertia
  monitor : MonitorRef

namespace OneSigmaAdaptor

def new (targetField : OPField g) (inertia : Nat) (hpos : 0 < inertia)
    (monitor : MonitorRef) : OneSigmaAdaptor g where
  targetField := targetField
  inertia := inertia
  errorWindow := Vector.replicate inertia 1
  averageCoefficientError := 1
  nextElement := ⟨0, hpos⟩
  monitor := monitor

/-- The coefficient for the average observed by the monitor, `none` when the
observation is not valid. -/
def compute (adaptor : OneSigmaAdaptor g) (op : OperatingPointPtr g) :
    Option ℚ → Option ℚ
  | none => none
  | some observedValue =>
      let expectedUpperBound := opUtilsGet .upper adaptor.targetField 1 op
      let expectedLowerBound := opUtilsGet .lower adaptor.targetField 1 op
      if expectedUpperBound < observedValue ∨
          observedValue < expectedLowerBound then
        let expectedAverageValue := opUtilsGet .lower adaptor.targetField 0 op
        let padding : ℚ := if observedValue ≠ 0 then 0 else 1
        some ((expectedAverageValue + padding) / (observedValue + padding))
      else some 1

def evaluateError (adaptor : OneSigmaAdaptor g) (op : OperatingPointPtr g)
    (observed : Option ℚ) : OneSigmaAdaptor g :=
  match adaptor.compute op observed with
  | none => adaptor
  | some newCoefficient =>
      let errorWindow := adaptor.errorWindow.set adaptor.nextElement
        newCoefficient adaptor.nextElement.isLt
      { adaptor with
        errorWindow := errorWindow
        nextElement :=
          if h : adaptor.nextElement.val + 1 < adaptor.inertia then
            ⟨adaptor.nextElement.val + 1, h⟩
          else ⟨0, adaptor.nextElement.pos⟩
        averageCoefficientError := average errorWindow.toList }

/-- Fills the window with ones; the average is left as it is. -/
def clearObservations (adaptor : OneSigmaAdaptor g) : OneSigmaAdaptor g :=
  { adaptor with errorWindow := Vector.replicate adaptor.inertia 1 }

end OneSigmaAdaptor

/-- The adaptors registered for the fields of the Operating Point. -/
structure KnowledgeAdaptor (g : Geometry) where
  adaptors : Vector (Option AdaptorRef)
    (g.numberOfSoftwareKnobs + g.numberOfMetrics)

/-- `op_field_enumerator::get`. -/
def opFieldEnumerator : OPField g →
    Fin (g.numberOfSoftwareKnobs + g.numberOfMetrics)
  | .softwareKnobs index => index.castAdd g.numberOfMetrics
  | .metrics index => index.natAdd g.numberOfSoftwareKnobs

theorem opFieldEnumerator_injective :
    Function.Injective (opFieldEnumerator (g := g)) := by
  intro first second heq
  have hval := congrArg Fin.val heq
  cases first <;> cases second <;>
    simp only [opFieldEnumerator, Fin.val_castAdd, Fin.val_natAdd] at hval
  · exact congrArg _ (Fin.ext hval)
  · omega
  · omega
  · exact congrArg _ (Fin.ext (by omega))

namespace KnowledgeAdaptor

def new : KnowledgeAdaptor g := ⟨Vector.replicate _ none⟩

def getFieldAdaptor (runtimeInformation : KnowledgeAdaptor g)
    (field : OPField g) : Option AdaptorRef :=
  runtimeInformation.adaptors[opFieldEnumerator field]

/-- `emplace`: the field gets the given adaptor, whatever it had before. -/
def emplace (runtimeInformation : KnowledgeAdaptor g) (field : OPField g)
    (adaptor : AdaptorRef) : KnowledgeAdaptor g :=
  ⟨runtimeInformation.adaptors.set (opFieldEnumerator field) (some adaptor)
    (opFieldEnumerator field).isLt⟩

/-- The adaptors registered for some field, in the order of the fields. -/
def registered (runtimeInformation : KnowledgeAdaptor g) : List AdaptorRef :=
  runtimeInformation.adaptors.toList.filterMap id

theorem mem_registered {runtimeInformation : KnowledgeAdaptor g}
    {adaptor : AdaptorRef} :
    adaptor ∈ runtimeInformation.registered ↔
      some adaptor ∈ runtimeInformation.adaptors.toList := by
  simp [registered]

@[simp] theorem getFieldAdaptor_new (field : OPField g) :
    (new : KnowledgeAdaptor g).getFieldAdaptor field = none := by
  simp [getFieldAdaptor, new]

@[simp] theorem getFieldAdaptor_emplace
    (runtimeInformation : KnowledgeAdaptor g) (field other : OPField g)
    (adaptor : AdaptorRef) :
    (runtimeInformation.emplace field adaptor).getFieldAdaptor other =
      if other = field then some adaptor
      else runtimeInformation.getFieldAdaptor other := by
  by_cases h : other = field
  · subst h
    simp [getFieldAdaptor, emplace]
  · have hne : (opFieldEnumerator field : Nat) ≠ opFieldEnumerator other :=
      fun heq => h (opFieldEnumerator_injective (Fin.ext heq)).symm
    simp [getFieldAdaptor, emplace, h, hne]

end KnowledgeAdaptor

/-- The average of the window, which is only valid when the window is full. -/
def CircularBuffer.average (window : CircularBuffer ℚ) : Option ℚ :=
  if window.buffer.length = window.maximumNumberElement then
    some (Margot.average window.buffer)
  else none

/-- The objects behind the shared pointers: the goals and the monitor buffers
supplied by the user, and the field adaptors allocated by the managers. -/
structure Store (g : Geometry) where
  goalValue : GoalRef → ℚ
  monitor : MonitorRef → CircularBuffer ℚ
  adaptor : AdaptorRef → OneSigmaAdaptor g
  nextAdaptor : AdaptorRef
  nextAddress : Nat

/-- What a constraint reads through its shared pointers: the value of its goal
and the error coefficient of its adaptor. -/
structure RuntimeInformation where
  goalValue : GoalRef → ℚ
  errorCoefficient : AdaptorRef → ℚ

/-- The value of a goal is its own number, and no field is corrected. -/
def RuntimeInformation.numbered : RuntimeInformation :=
  ⟨fun ref => ref, fun _ => 1⟩

namespace Store

/-- The value of a goal is its own number and every window is empty. -/
def initial : Store g where
  goalValue := fun ref => ref
  monitor := fun _ => ⟨[], 0, 1⟩
  adaptor := fun _ =>
    OneSigmaAdaptor.new (.metrics ⟨0, g.metrics_pos⟩) 1 Nat.one_pos 0
  nextAdaptor := 0
  nextAddress := 0

def runtimeInformation (store : Store g) : RuntimeInformation where
  goalValue := store.goalValue
  errorCoefficient := fun ref => (store.adaptor ref).averageCoefficientError

/-- Change one adaptor in place. -/
def modifyAdaptor (store : Store g)
    (change : OneSigmaAdaptor g → OneSigmaAdaptor g) (ref : AdaptorRef) :
    Store g :=
  { store with
    adaptor := Function.update store.adaptor ref (change (store.adaptor ref)) }

/-- `new OneSigmaAdaptor`. -/
def allocateAdaptor (store : Store g) (adaptor : OneSigmaAdaptor g) :
    Store g × AdaptorRef :=
  ({ store with
      adaptor := Function.update store.adaptor store.nextAdaptor adaptor
      nextAdaptor := store.nextAdaptor + 1 }, store.nextAdaptor)

/-- `new OperatingPoint`. -/
def allocateOp (store : Store g) (op : OperatingPoint g) :
    Store g × OperatingPointPtr g :=
  ({ store with nextAddress := store.nextAddress + 1 },
    ⟨store.nextAddress, op⟩)

/-- The objects of a list of Operating Points. -/
def allocateOps (store : Store g) :
    List (OperatingPoint g) → Store g × OPStream g
  | [] => (store, [])
  | op :: rest =>
      let allocated := store.allocateOp op
      let result := allocated.1.allocateOps rest
      (result.1, allocated.2 :: result.2)

/-- What the average of each monitor returns. -/
def observed (store : Store g) (ref : MonitorRef) : Option ℚ :=
  (store.monitor ref).average

def clearMonitor (store : Store g) (ref : MonitorRef) : Store g :=
  { store with
    monitor := Function.update store.monitor ref (store.monitor ref).clear }

/-- `KnowledgeAdaptor::evaluate_error`; `observed` is what the average of each
monitor returns, `none` while its window is not full. -/
def evaluateError (store : Store g) (information : KnowledgeAdaptor g)
    (observed : MonitorRef → Option ℚ) (currentOp : OperatingPointPtr g) :
    Store g :=
  information.registered.foldl (fun store ref =>
    store.modifyAdaptor (fun adaptor =>
      adaptor.evaluateError currentOp (observed adaptor.monitor)) ref) store

/-- `KnowledgeAdaptor::reset`. -/
def resetAdaptors (store : Store g) (information : KnowledgeAdaptor g) :
    Store g :=
  information.registered.foldl (fun store ref =>
    store.modifyAdaptor OneSigmaAdaptor.clearObservations ref) store

end Store

end Margot
