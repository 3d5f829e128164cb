/-
The circular buffer of elements of any type over any sequence of its calls.  It
grows up to its capacity, and the index of the next element counts only after
that.
-/
import Margot.Library.RingWindow
import Margot.Library.Runs

namespace Margot

/-- The time of the last change is kept where it is read. -/
structure CircularBuffer (T : Type) where
  buffer : List T
  nextElement : Nat
  maximumNumberElement : Nat
deriving Repr, DecidableEq

namespace CircularBuffer

variable {T : Type}

def new (size : Nat) : CircularBuffer T := ⟨[], 0, size⟩

/-- `none` when the index of the next element is out of range. -/
def push (circular : CircularBuffer T) (newValue : T) :
    Option (CircularBuffer T) :=
  if circular.buffer.length < circular.maximumNumberElement then
    some { circular with buffer := circular.buffer ++ [newValue] }
  else if circular.nextElement < circular.buffer.length then
    let nextElement := circular.nextElement + 1
    some { circular with
      buffer := circular.buffer.set circular.nextElement newValue
      nextElement :=
        if nextElement = circular.maximumNumberElement then 0
        else nextElement }
  else none

def clear (circular : CircularBuffer T) : CircularBuffer T :=
  { circular with nextElement := 0, buffer := [] }

/-- `none` on an empty buffer, and when the index is out of range. -/
def last (circular : CircularBuffer T) : Option T :=
  if circular.nextElement = 0 then circular.buffer.getLast?
  else circular.buffer[circular.nextElement - 1]?

def valid (circular : CircularBuffer T) : Bool :=
  circular.buffer.length == circular.maximumNumberElement

inductive Call (T : Type) where
  | push (newValue : T)
  | clear
deriving Repr

def step (circular : CircularBuffer T) : Call T → Option (CircularBuffer T)
  | .push newValue => circular.push newValue
  | .clear => some circular.clear

/-- What has been pushed since the last clear, after some values. -/
def sinceClear (values : List T) : List (Call T) → List T
  | [] => values
  | .push newValue :: rest => sinceClear (values ++ [newValue]) rest
  | .clear :: rest => sinceClear [] rest

/-- The buffer holds the last values that fit.  They are read from the next
element on, which is the oldest one when the buffer is full. -/
structure HoldsLatest (capacity : Nat) (values : List T)
    (circular : CircularBuffer T) : Prop where
  maximum : circular.maximumNumberElement = capacity
  size : circular.buffer.length = min values.length capacity
  content : circular.buffer.rotate circular.nextElement =
    values.drop (values.length - capacity)
  growing : values.length < capacity → circular.nextElement = 0
  inRange : circular.nextElement < capacity
  last : circular.last = values.getLast?
  valid : circular.valid = true ↔ capacity ≤ values.length

section Steps

variable {capacity : Nat} {values : List T} {circular : CircularBuffer T}

/-- What the other facts follow from. -/
structure Window (capacity : Nat) (values : List T)
    (circular : CircularBuffer T) : Prop where
  maximum : circular.maximumNumberElement = capacity
  size : circular.buffer.length = min values.length capacity
  growing : values.length < capacity → circular.nextElement = 0
  inRange : circular.nextElement < capacity
  latest : RingWindow.latest circular.buffer circular.nextElement =
    values.reverse.take capacity

theorem Window.next_le (window : Window capacity values circular) :
    circular.nextElement ≤ circular.buffer.length := by
  have hsize := window.size
  have hgrowing := window.growing
  have hrange := window.inRange
  omega

theorem Window.holds (window : Window capacity values circular) :
    HoldsLatest capacity values circular where
  maximum := window.maximum
  size := window.size
  growing := window.growing
  inRange := window.inRange
  content := by
    have hlatest := window.latest
    rw [RingWindow.latest_eq_rotate window.next_le, List.take_reverse] at hlatest
    exact List.reverse_injective hlatest
  last := by
    have hpos : capacity ≠ 0 := Nat.ne_zero_of_lt window.inRange
    rw [last, ← RingWindow.head?_latest window.next_le, window.latest,
      List.head?_take, if_neg hpos, List.head?_reverse]
  valid := by
    have hsize := window.size
    rw [valid, beq_iff_eq, window.maximum, hsize]
    omega

theorem window_new (hpos : 0 < capacity) :
    Window capacity [] (new capacity : CircularBuffer T) where
  maximum := rfl
  size := by simp [new]
  growing _ := rfl
  inRange := hpos
  latest := by simp [new, RingWindow.latest]

theorem window_clear (window : Window capacity values circular) :
    Window capacity [] circular.clear where
  maximum := window.maximum
  size := by simp [clear]
  growing _ := rfl
  inRange := Nat.zero_lt_of_lt window.inRange
  latest := by simp [clear, RingWindow.latest]

/-- A pushed value is written, and it comes first from then on. -/
theorem window_push (window : Window capacity values circular)
    (newValue : T) :
    ∃ after, circular.push newValue = some after ∧
      Window capacity (values ++ [newValue]) after := by
  have hmaximum := window.maximum
  have hsize := window.size
  have hrange := window.inRange
  have hlatest := window.latest
  have hlength : (values ++ [newValue]).length = values.length + 1 :=
    List.length_append
  by_cases hgrows : values.length < capacity
  · have hfirst := window.growing hgrows
    have hroom : circular.buffer.length < circular.maximumNumberElement := by
      omega
    have hvalues : circular.buffer = values := by
      rw [hfirst, RingWindow.latest, List.take_zero, List.drop_zero,
        List.reverse_nil, List.nil_append, List.take_of_length_le] at hlatest
      · exact List.reverse_injective hlatest
      · rw [List.length_reverse]
        exact hgrows.le
    refine ⟨_, if_pos hroom, hmaximum, ?_, fun _ => hfirst, hrange, ?_⟩
    · change (circular.buffer ++ [newValue]).length = _
      rw [hvalues, hlength]
      omega
    · change RingWindow.latest (circular.buffer ++ [newValue])
        circular.nextElement = _
      rw [hfirst, hvalues, RingWindow.latest, List.take_zero, List.drop_zero,
        List.reverse_nil, List.nil_append, List.take_of_length_le]
      rw [List.length_reverse, hlength]
      exact hgrows
  · have hroom : ¬ circular.buffer.length < circular.maximumNumberElement := by
      omega
    have hfull : circular.buffer.length = capacity := by omega
    have hnext : circular.nextElement < circular.buffer.length := by omega
    have hadvance : (if circular.nextElement + 1 =
          circular.maximumNumberElement then 0
        else circular.nextElement + 1) =
          RingWindow.advance circular.buffer.length circular.nextElement := by
      rw [RingWindow.advance, hmaximum, hfull]
      split <;> split <;> omega
    have hpush : circular.push newValue = some { circular with
        buffer := circular.buffer.set circular.nextElement newValue
        nextElement := RingWindow.advance circular.buffer.length
          circular.nextElement } := by
      rw [push, if_neg hroom, if_pos hnext, ← hadvance]
    refine ⟨_, hpush, hmaximum, ?_, ?_, ?_, ?_⟩
    · rw [hlength, List.length_set]
      omega
    · omega
    · change RingWindow.advance circular.buffer.length
        circular.nextElement < capacity
      rw [RingWindow.advance]
      split <;> omega
    · obtain ⟨less, rfl⟩ := Nat.exists_eq_add_one.mpr
        (Nat.zero_lt_of_lt hrange)
      have hlong : less + 1 ≤ values.reverse.length := by
        rw [List.length_reverse]
        exact Nat.not_lt.mp hgrows
      change RingWindow.latest (circular.buffer.set circular.nextElement
        newValue) (RingWindow.advance circular.buffer.length
          circular.nextElement) = _
      rw [RingWindow.latest_set hnext, hlatest, List.reverse_append,
        List.reverse_singleton, List.singleton_append, List.take_succ_cons,
        List.dropLast_eq_take, List.length_take, List.take_take,
        Nat.min_eq_left hlong, Nat.add_sub_cancel,
        Nat.min_eq_left (Nat.le_succ less)]

/-- Every call is defined, and keeps the window. -/
theorem window_step (window : Window capacity values circular)
    (call : Call T) :
    ∃ after, circular.step call = some after ∧
      Window capacity (sinceClear values [call]) after := by
  cases call with
  | push newValue => exact window_push window newValue
  | clear => exact ⟨_, rfl, window_clear window⟩

theorem exists_window (window : Window capacity values circular)
    (calls : List (Call T)) :
    ∃ reached, runFrom step circular calls = some reached ∧
      Window capacity (sinceClear values calls) reached := by
  induction calls generalizing values circular with
  | nil => exact ⟨circular, rfl, window⟩
  | cons call rest ih =>
      obtain ⟨after, hstep, hafter⟩ := window_step window call
      obtain ⟨reached, hrun, hreached⟩ := ih hafter
      rw [runFrom_cons_of_step hstep]
      refine ⟨reached, hrun, ?_⟩
      cases call with
      | push newValue => exact hreached
      | clear => exact hreached

end Steps

/-- After any sequence of calls, of which none uses an index out of range, the
buffer holds the last of the values since the last clear. -/
theorem holdsLatest {capacity : Nat} (hpos : 0 < capacity)
    (calls : List (Call T)) :
    ∃ reached, runFrom step (new capacity) calls = some reached ∧
      HoldsLatest capacity (sinceClear [] calls) reached := by
  obtain ⟨reached, hrun, window⟩ := exists_window (window_new hpos) calls
  exact ⟨reached, hrun, window.holds⟩

namespace Sample

/-- Three values in a buffer for two. -/
theorem holdsLatest_wrapped :
    ∃ reached, runFrom step (new 2)
        [.push 5, .clear, .push 1, .push 2, .push 3] = some reached ∧
      HoldsLatest 2 [1, 2, 3] reached :=
  holdsLatest Nat.zero_lt_two
    [.push 5, .clear, .push 1, .push 2, .push 3]

end Sample

end CircularBuffer

end Margot
