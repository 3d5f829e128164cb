/-
The memoised statistics of a window of observations.  A statistic is computed
again when it is older than the last change of the window, by the reading of a
clock at which two changes may look simultaneous.
-/
import Margot.Library.Memo
import Mathlib.Algebra.Order.Field.Rat
import Mathlib.Data.Nat.Cast.Defs
import Margot.Runtime.CircularBuffer

namespace Margot

/-- A reading of the clock; the epoch is zero. -/
abbrev TimePoint := Int

/-- The conversion of the stored elements to the type of the statistics, and
`std::sqrt` there. -/
structure StatisticalType (T S : Type) where
  cast : T → S
  sqrt : S → S

namespace Statistics

variable {T S : Type} [Zero T] [LT T] [DecidableLT T] [Zero S] [Add S] [Sub S]
  [Mul S] [Div S] [NatCast S]

def average (type : StatisticalType T S) (c : List T) : S :=
  c.foldl (fun summ d => summ + type.cast d) 0 /
    ((if 1 < c.length then c.length else 1 : Nat) : S)

def stddev (type : StatisticalType T S) (c : List T) (average : S) : S :=
  type.sqrt (c.foldl (fun summ d =>
      summ + (type.cast d - average) * (type.cast d - average)) 0 /
    ((if 1 < c.length then c.length - 1 else 1 : Nat) : S))

/-- Of a container that is not empty. -/
def max : List T → T
  | [] => 0
  | first :: rest =>
      rest.foldl (fun best d => if best < d then d else best) first

/-- Of a container that is not empty. -/
def min : List T → T
  | [] => 0
  | first :: rest =>
      rest.foldl (fun best d => if d < best then d else best) first

end Statistics

/-- The window with its four memoised statistics. -/
structure StatisticalProvider (T S : Type) extends CircularBuffer T where
  lastChange : TimePoint
  averageMemo : Memo TimePoint S
  stddevMemo : Memo TimePoint S
  maxMemo : Memo TimePoint T
  minMemo : Memo TimePoint T

namespace StatisticalProvider

variable {T S : Type} [Zero T] [LT T] [DecidableLT T] [Zero S] [Add S] [Sub S]
  [Mul S] [Div S] [NatCast S]

/-- The constructor, which leaves `previous_max` as it finds the memory. -/
def new (size : Nat) (now : TimePoint) (indeterminate : T) :
    StatisticalProvider T S where
  toCircularBuffer := .new size
  lastChange := now
  averageMemo := ⟨0, 0⟩
  stddevMemo := ⟨0, 0⟩
  maxMemo := ⟨0, indeterminate⟩
  minMemo := ⟨0, 0⟩

def push (provider : StatisticalProvider T S) (newValue : T)
    (now : TimePoint) : Option (StatisticalProvider T S) :=
  (provider.toCircularBuffer.push newValue).map fun window =>
    { provider with toCircularBuffer := window, lastChange := now }

def clear (provider : StatisticalProvider T S) (now : TimePoint) :
    StatisticalProvider T S :=
  { provider with
    toCircularBuffer := provider.toCircularBuffer.clear, lastChange := now }

def computeAverage (type : StatisticalType T S)
    (provider : StatisticalProvider T S) : S × StatisticalProvider T S :=
  if provider.buffer.isEmpty then (0, provider)
  else
    let memo := provider.averageMemo.refresh provider.lastChange
      (Statistics.average type provider.buffer)
    (memo.previous, { provider with averageMemo := memo })

/-- The average is asked for only when the deviation is computed. -/
def computeStandardDeviation (type : StatisticalType T S)
    (provider : StatisticalProvider T S) : S × StatisticalProvider T S :=
  if provider.buffer.isEmpty then (0, provider)
  else if provider.stddevMemo.computedTime < provider.lastChange then
    let (average, provider) := provider.computeAverage type
    let memo := provider.stddevMemo.refresh provider.lastChange
      (Statistics.stddev type provider.buffer average)
    (memo.previous, { provider with stddevMemo := memo })
  else (provider.stddevMemo.previous, provider)

def computeMax (provider : StatisticalProvider T S) :
    T × StatisticalProvider T S :=
  if provider.buffer.isEmpty then (0, provider)
  else
    let memo := provider.maxMemo.refresh provider.lastChange
      (Statistics.max provider.buffer)
    (memo.previous, { provider with maxMemo := memo })

def computeMin (provider : StatisticalProvider T S) :
    T × StatisticalProvider T S :=
  if provider.buffer.isEmpty then (0, provider)
  else
    let memo := provider.minMemo.refresh provider.lastChange
      (Statistics.min provider.buffer)
    (memo.previous, { provider with minMemo := memo })

/-- A change of the window with the reading of the clock, or a query. -/
inductive Call (T : Type) where
  | push (newValue : T) (now : TimePoint)
  | clear (now : TimePoint)
  | average
  | standardDeviation
  | max
  | min
deriving Repr

/-- A step of the provider; the clock does not go back. -/
def step (type : StatisticalType T S) (provider : StatisticalProvider T S) :
    Call T → Option (StatisticalProvider T S)
  | .push newValue now =>
      if provider.lastChange ≤ now then provider.push newValue now else none
  | .clear now =>
      if provider.lastChange ≤ now then some (provider.clear now) else none
  | .average => some (provider.computeAverage type).2
  | .standardDeviation => some (provider.computeStandardDeviation type).2
  | .max => some provider.computeMax.2
  | .min => some provider.computeMin.2

/-- A query returns what the function returns on the window, or zero. -/
def Returns (type : StatisticalType T S) (provider : StatisticalProvider T S) :
    Call T → Prop
  | .push _ _ => True
  | .clear _ => True
  | .average => (provider.computeAverage type).1 =
      if provider.buffer = [] then 0
      else Statistics.average type provider.buffer
  | .standardDeviation => (provider.computeStandardDeviation type).1 =
      if provider.buffer = [] then 0
      else Statistics.stddev type provider.buffer
        (Statistics.average type provider.buffer)
  | .max => provider.computeMax.1 =
      if provider.buffer = [] then 0 else Statistics.max provider.buffer
  | .min => provider.computeMin.1 =
      if provider.buffer = [] then 0 else Statistics.min provider.buffer

/-- An element is pushed at a later time than any statistic was computed
for. -/
def PushesLater (provider : StatisticalProvider T S) : Call T → Prop
  | .push _ now => provider.averageMemo.computedTime < now ∧
      provider.stddevMemo.computedTime < now ∧
      provider.maxMemo.computedTime < now ∧
      provider.minMemo.computedTime < now
  | _ => True

instance (provider : StatisticalProvider T S) :
    (call : Call T) → Decidable (provider.PushesLater call)
  | .push _ _ => inferInstanceAs (Decidable (_ ∧ _ ∧ _ ∧ _))
  | .clear _ => .isTrue trivial
  | .average => .isTrue trivial
  | .standardDeviation => .isTrue trivial
  | .max => .isTrue trivial
  | .min => .isTrue trivial

/-- Every statistic of the window will be computed again, or is up to date. -/
structure Memoised (type : StatisticalType T S)
    (provider : StatisticalProvider T S) : Prop where
  average : provider.averageMemo.Current provider.lastChange
    (Statistics.average type provider.buffer)
  stddev : provider.stddevMemo.Current provider.lastChange
    (Statistics.stddev type provider.buffer
      (Statistics.average type provider.buffer))
  max : provider.maxMemo.Current provider.lastChange
    (Statistics.max provider.buffer)
  min : provider.minMemo.Current provider.lastChange
    (Statistics.min provider.buffer)

section Steps

variable {type : StatisticalType T S} {provider after : StatisticalProvider T S}

/-- After a later push everything will be computed again. -/
theorem memoised_push {newValue : T} {now : TimePoint}
    (hlater : provider.PushesLater (.push newValue now))
    (hpush : provider.push newValue now = some after) :
    after.Memoised type := by
  obtain ⟨haverage, hstddev, hmax, hmin⟩ := hlater
  obtain ⟨window, -, rfl⟩ := Option.map_eq_some_iff.mp hpush
  exact ⟨.inl haverage, .inl hstddev, .inl hmax, .inl hmin⟩

theorem average_spec (hsome : provider.buffer ≠ [])
    (hmemoised : provider.Memoised type) :
    (provider.computeAverage type).1 =
        Statistics.average type provider.buffer ∧
      (provider.computeAverage type).2.Memoised type := by
  rw [computeAverage, if_neg (by simpa using hsome)]
  exact ⟨Memo.previous_refresh hmemoised.average,
    { hmemoised with average := Memo.current_refresh hmemoised.average }⟩

theorem standardDeviation_spec (hsome : provider.buffer ≠ [])
    (hmemoised : provider.Memoised type) :
    (provider.computeStandardDeviation type).1 =
        Statistics.stddev type provider.buffer
          (Statistics.average type provider.buffer) ∧
      (provider.computeStandardDeviation type).2.Memoised type := by
  rw [computeStandardDeviation, if_neg (by simpa using hsome)]
  split
  · obtain ⟨haverage, hafter⟩ := average_spec hsome hmemoised
    have hbuffer : (provider.computeAverage type).2.buffer =
        provider.buffer := by
      rw [computeAverage, if_neg (by simpa using hsome)]
    generalize provider.computeAverage type = computed at *
    obtain ⟨average, next⟩ := computed
    simp only at haverage hafter hbuffer ⊢
    rw [← hbuffer] at haverage ⊢
    subst haverage
    exact ⟨Memo.previous_refresh hafter.stddev, hafter.average,
      Memo.current_refresh hafter.stddev, hafter.max, hafter.min⟩
  · next hnot => exact ⟨hmemoised.stddev.resolve_left hnot, hmemoised⟩

theorem max_spec (hsome : provider.buffer ≠ [])
    (hmemoised : provider.Memoised type) :
    provider.computeMax.1 = Statistics.max provider.buffer ∧
      provider.computeMax.2.Memoised type := by
  rw [computeMax, if_neg (by simpa using hsome)]
  exact ⟨Memo.previous_refresh hmemoised.max,
    { hmemoised with max := Memo.current_refresh hmemoised.max }⟩

theorem min_spec (hsome : provider.buffer ≠ [])
    (hmemoised : provider.Memoised type) :
    provider.computeMin.1 = Statistics.min provider.buffer ∧
      provider.computeMin.2.Memoised type := by
  rw [computeMin, if_neg (by simpa using hsome)]
  exact ⟨Memo.previous_refresh hmemoised.min,
    { hmemoised with min := Memo.current_refresh hmemoised.min }⟩

/-- A window without elements, or with statistics that are up to date. -/
def Sound (type : StatisticalType T S) (provider : StatisticalProvider T S) :
    Prop :=
  provider.buffer = [] ∨ provider.Memoised type

theorem sound_step (hsound : provider.Sound type) {call : Call T}
    (hlater : provider.PushesLater call)
    (hstep : step type provider call = some after) : after.Sound type := by
  cases call with
  | push newValue now =>
      rw [step] at hstep
      split at hstep
      · exact .inr (memoised_push hlater hstep)
      · contradiction
  | clear now =>
      rw [step] at hstep
      split at hstep
      · obtain rfl := Option.some.inj hstep
        exact .inl rfl
      · contradiction
  | average =>
      obtain rfl := Option.some.inj hstep
      by_cases hempty : provider.buffer = []
      · rw [computeAverage, if_pos (by simpa using hempty)]
        exact hsound
      · exact .inr (average_spec hempty (hsound.resolve_left hempty)).2
  | standardDeviation =>
      obtain rfl := Option.some.inj hstep
      by_cases hempty : provider.buffer = []
      · rw [computeStandardDeviation, if_pos (by simpa using hempty)]
        exact hsound
      · exact .inr
          (standardDeviation_spec hempty (hsound.resolve_left hempty)).2
  | max =>
      obtain rfl := Option.some.inj hstep
      by_cases hempty : provider.buffer = []
      · rw [computeMax, if_pos (by simpa using hempty)]
        exact hsound
      · exact .inr (max_spec hempty (hsound.resolve_left hempty)).2
  | min =>
      obtain rfl := Option.some.inj hstep
      by_cases hempty : provider.buffer = []
      · rw [computeMin, if_pos (by simpa using hempty)]
        exact hsound
      · exact .inr (min_spec hempty (hsound.resolve_left hempty)).2

theorem returns_of_sound (hsound : provider.Sound type) (call : Call T) :
    provider.Returns type call := by
  by_cases hempty : provider.buffer = []
  · cases call
    all_goals simp [Returns, hempty, computeAverage, computeStandardDeviation,
      computeMax, computeMin]
  · have hmemoised := hsound.resolve_left hempty
    cases call with
    | push newValue now => trivial
    | clear now => trivial
    | average =>
        rw [Returns, if_neg hempty]
        exact (average_spec hempty hmemoised).1
    | standardDeviation =>
        rw [Returns, if_neg hempty]
        exact (standardDeviation_spec hempty hmemoised).1
    | max =>
        rw [Returns, if_neg hempty]
        exact (max_spec hempty hmemoised).1
    | min =>
        rw [Returns, if_neg hempty]
        exact (min_spec hempty hmemoised).1

end Steps

/-- When every element is pushed later than the statistics were computed for,
every query of the run returns what the function returns. -/
theorem returns_of_pushesLater (type : StatisticalType T S) (size : Nat)
    (now : TimePoint) (indeterminate : T) (calls : List (Call T))
    (hlater : AllSteps (step type) PushesLater (new size now indeterminate)
      calls) :
    AllSteps (step type) (Returns type) (new size now indeterminate) calls := by
  intro pre call before after hpre hrun hstep
  have hbefore : before.Sound type :=
    runFrom_invariant (fun _ _ _ hsound => sound_step hsound) (.inl rfl)
      (hlater.restrict ((List.prefix_append pre [call]).trans hpre)) hrun
  exact returns_of_sound hbefore call

section Simultaneous

/-- Exact statistics; the roots are left out. -/
def exact : StatisticalType ℚ ℚ := ⟨id, id⟩

theorem returns_of_pushesLater_twice :
    AllSteps (step exact) (Returns exact) (new 2 1 0)
      [.push 1 2, .average, .push 3 3, .average] := by
  apply returns_of_pushesLater
  refine .cons_of_step rfl (by decide +kernel) ?_
  refine .cons_of_step rfl trivial ?_
  refine .cons_of_step rfl (by decide +kernel) ?_
  exact .cons_of_step rfl trivial allSteps_nil

/-- Two elements pushed at the same reading of the clock, with a query between
them. -/
def simultaneous : List (Call ℚ) := [.push 1 1, .average, .push 3 1]

def pushedTwice : StatisticalProvider ℚ ℚ :=
  (runFrom (step exact) (new 2 1 0) simultaneous).get (by decide +kernel)

theorem not_returns_simultaneous :
    ¬ ∀ calls : List (Call ℚ),
      AllSteps (step exact) (Returns exact) (new 2 1 0) calls := by
  intro hall
  have hreturns : (pushedTwice.computeAverage exact).1 =
      if pushedTwice.buffer = [] then 0
      else Statistics.average exact pushedTwice.buffer :=
    hall (simultaneous ++ [.average]) simultaneous .average pushedTwice _
      List.prefix_rfl (Option.some_get _).symm rfl
  exact absurd hreturns (by decide +kernel)

end Simultaneous

end StatisticalProvider

end Margot
