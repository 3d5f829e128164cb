/-
The error coefficient of an adaptor over its life.  Clearing fills the window
with ones but leaves the average as it is, so the coefficient is the mean of
the window as long as it is cleared only when it is one.
-/
import Margot.Library.RingWindow
import Margot.Library.Runs
import Margot.Runtime.FieldAdaptor

namespace Margot

namespace OneSigmaAdaptor

variable {g : Geometry}

inductive Call (g : Geometry) where
  | evaluateError (op : OperatingPointPtr g) (observed : Option ℚ)
  | clearObservations

/-- An adaptor and the valid coefficients since the last clear, the last one
first. -/
structure Life (g : Geometry) where
  adaptor : OneSigmaAdaptor g
  coefficients : List ℚ

namespace Life

def create (targetField : OPField g) (inertia : Nat) (hpos : 0 < inertia)
    (monitor : MonitorRef) : Life g :=
  ⟨OneSigmaAdaptor.new targetField inertia hpos monitor, []⟩

def step (life : Life g) : Call g → Option (Life g)
  | .evaluateError op observed =>
      some ⟨life.adaptor.evaluateError op observed,
        (life.adaptor.compute op observed).toList ++ life.coefficients⟩
  | .clearObservations => some ⟨life.adaptor.clearObservations, []⟩

/-- The last coefficients, completed with ones to the length of the window. -/
def completed (inertia : Nat) (coefficients : List ℚ) : List ℚ :=
  coefficients.take inertia ++
    List.replicate (inertia - coefficients.length) 1

/-- `get_error_coefficient` is the mean of the last coefficients. -/
def MeanOfWindow (life : Life g) : Prop :=
  life.adaptor.averageCoefficientError =
    (completed life.adaptor.inertia life.coefficients).sum /
      life.adaptor.inertia

/-- A clear finds the coefficient at one. -/
def ClearsAtOne (life : Life g) : Call g → Prop
  | .evaluateError _ _ => True
  | .clearObservations => life.adaptor.averageCoefficientError = 1

section Window

variable {life after : Life g}

/-- A new coefficient comes first, and the last of the window is lost. -/
theorem completed_cons {inertia : Nat} (hpos : 0 < inertia) (coefficient : ℚ)
    (coefficients : List ℚ) :
    completed inertia (coefficient :: coefficients) =
      coefficient :: (completed inertia coefficients).dropLast := by
  obtain ⟨inertia, rfl⟩ := Nat.exists_eq_add_one.mpr hpos
  rw [completed, List.take_succ_cons, List.cons_append, List.length_cons,
    Nat.add_sub_add_right]
  congr 1
  rcases Nat.lt_or_ge coefficients.length (inertia + 1) with hshort | hlong
  · have hones : inertia + 1 - coefficients.length =
        inertia - coefficients.length + 1 := by omega
    rw [completed, hones, List.replicate_succ', ← List.append_assoc,
      List.dropLast_concat, List.take_of_length_le (by omega),
      List.take_of_length_le (by omega)]
  · have hones : inertia + 1 - coefficients.length = 0 := by omega
    have hnone : inertia - coefficients.length = 0 := by omega
    rw [completed, hones, hnone, List.replicate_zero, List.append_nil,
      List.append_nil, List.dropLast_eq_take, List.length_take,
      List.take_take]
    congr 1
    omega

/-- The window, read backwards, holds the last coefficients. -/
def Windowed (life : Life g) : Prop :=
  RingWindow.latest life.adaptor.errorWindow.toList life.adaptor.nextElement =
    completed life.adaptor.inertia life.coefficients

/-- The mean of a window that holds the last coefficients. -/
theorem Windowed.average (hwindowed : life.Windowed) :
    Margot.average life.adaptor.errorWindow.toList =
      (completed life.adaptor.inertia life.coefficients).sum /
        life.adaptor.inertia := by
  have hsum := (RingWindow.latest_perm life.adaptor.errorWindow.toList
    life.adaptor.nextElement).sum_eq
  have hlength : life.adaptor.errorWindow.toList.length =
      life.adaptor.inertia := Vector.length_toList
  have hdivisor : (if 1 < life.adaptor.inertia then life.adaptor.inertia
      else 1) = life.adaptor.inertia := by
    have hpos := life.adaptor.nextElement.pos
    split <;> omega
  rw [Margot.average, hlength, hdivisor, ← hsum, hwindowed]

theorem completed_nil (inertia : Nat) :
    completed inertia [] = List.replicate inertia 1 := by
  simp [completed]

theorem windowed_create (targetField : OPField g) (inertia : Nat)
    (hpos : 0 < inertia) (monitor : MonitorRef) :
    (create targetField inertia hpos monitor).Windowed := by
  rw [Windowed, create, completed_nil]
  exact RingWindow.latest_replicate _ _ _

theorem windowed_clear (life : Life g) :
    (⟨life.adaptor.clearObservations, []⟩ : Life g).Windowed := by
  rw [Windowed, completed_nil]
  exact RingWindow.latest_replicate _ _ _

theorem windowed_evaluate (hwindowed : life.Windowed)
    (op : OperatingPointPtr g) (observed : Option ℚ)
    (hstep : life.step (.evaluateError op observed) = some after) :
    after.Windowed := by
  obtain rfl := Option.some.inj hstep
  cases hcompute : life.adaptor.compute op observed with
  | none =>
      rw [Windowed, OneSigmaAdaptor.evaluateError, hcompute]
      exact hwindowed
  | some coefficient =>
      have hnext : life.adaptor.nextElement <
          life.adaptor.errorWindow.toList.length := by simp
      have hset := RingWindow.latest_set hnext coefficient
      rw [Vector.length_toList, hwindowed,
        ← completed_cons life.adaptor.nextElement.pos] at hset
      rw [Windowed, OneSigmaAdaptor.evaluateError, hcompute]
      simp only [Vector.toList_set, Option.toList_some]
      refine Eq.trans ?_ hset
      congr 1
      rw [RingWindow.advance]
      split <;> rfl

/-- An evaluation that is skipped keeps the mean, another one computes it. -/
theorem meanOfWindow_evaluate (hwindowed : life.Windowed)
    (hmean : life.MeanOfWindow) (op : OperatingPointPtr g)
    (observed : Option ℚ)
    (hstep : life.step (.evaluateError op observed) = some after) :
    after.MeanOfWindow := by
  have hafter := windowed_evaluate hwindowed op observed hstep
  obtain rfl := Option.some.inj hstep
  have haverage := hafter.average
  cases hcompute : life.adaptor.compute op observed with
  | none =>
      rw [MeanOfWindow, OneSigmaAdaptor.evaluateError, hcompute]
      exact hmean
  | some coefficient =>
      rw [hcompute] at haverage
      rw [MeanOfWindow, ← haverage, OneSigmaAdaptor.evaluateError, hcompute]

/-- After a clear the mean is one, whatever the coefficient is. -/
theorem meanOfWindow_clear_iff (life : Life g) :
    (⟨life.adaptor.clearObservations, []⟩ : Life g).MeanOfWindow ↔
      life.adaptor.averageCoefficientError = 1 := by
  have hinertia : (life.adaptor.inertia : ℚ) ≠ 0 :=
    Nat.cast_ne_zero.mpr life.adaptor.nextElement.pos.ne'
  have hmean : (completed life.adaptor.inertia []).sum /
      (life.adaptor.inertia : ℚ) = 1 := by
    rw [completed_nil, List.sum_replicate, nsmul_eq_mul, mul_one,
      div_self hinertia]
  rw [MeanOfWindow]
  exact Eq.congr_right hmean

end Window

/-- The coefficient is the mean of the window in every state that a run reaches
exactly when every clear finds it at one. -/
theorem meanOfWindow_allReached_iff (targetField : OPField g) (inertia : Nat)
    (monitor : MonitorRef) (calls : List (Call g)) :
    AllReached step MeanOfWindow
        (create targetField (inertia + 1) inertia.succ_pos monitor) calls ↔
      AllSteps step ClearsAtOne
        (create targetField (inertia + 1) inertia.succ_pos monitor) calls := by
  refine allReached_iff_allSteps
    (fun life : Life g => life.Windowed ∧ life.MeanOfWindow) ?_
    (fun _ hlife => hlife.2) ?_ ?_
  · rintro before call after ⟨hwindowed, hmean⟩ hclears hstep
    cases call with
    | evaluateError op observed =>
        exact ⟨windowed_evaluate hwindowed op observed hstep,
          meanOfWindow_evaluate hwindowed hmean op observed hstep⟩
    | clearObservations =>
        obtain rfl := Option.some.inj hstep
        exact ⟨windowed_clear before,
          (meanOfWindow_clear_iff before).mpr hclears⟩
  · intro before call after _ hstep hafter
    cases call with
    | evaluateError op observed => trivial
    | clearObservations =>
        obtain rfl := Option.some.inj hstep
        exact (meanOfWindow_clear_iff before).mp hafter
  · refine ⟨windowed_create _ _ _ _, ?_⟩
    have hinertia : ((inertia + 1 : Nat) : ℚ) ≠ 0 :=
      Nat.cast_ne_zero.mpr inertia.succ_ne_zero
    rw [MeanOfWindow, create, completed_nil, List.sum_replicate, nsmul_eq_mul,
      mul_one]
    exact (div_self hinertia).symm

section Cleared

/-- Twice the expected value is observed. -/
def slowed : Life Geometry.single :=
  ((create OPField.single 1 Nat.one_pos 0).step
    (.evaluateError (.single 0 0 2) (some 4))).get rfl

/-- The coefficient is still one half after the clear. -/
theorem not_meanOfWindow_cleared :
    ¬ ∀ (inertia : Nat) (calls : List (Call Geometry.single)),
      AllReached step MeanOfWindow
        (create OPField.single (inertia + 1) inertia.succ_pos 0) calls := by
  intro hall
  have hcleared : (⟨slowed.adaptor.clearObservations, []⟩ :
      Life Geometry.single).MeanOfWindow :=
    hall 0 [.evaluateError (.single 0 0 2) (some 4), .clearObservations] _ _
      List.prefix_rfl rfl
  have hone := (meanOfWindow_clear_iff slowed).mp hcleared
  exact absurd hone (by decide +kernel)

end Cleared

end Life

end OneSigmaAdaptor

end Margot
