import Mathlib

/-!
Numbers coded by a segment and a step within it. A segment has 2^k steps and lasts
from one power of two to the next, so its steps are twice as wide as those of the
segment before.
-/
namespace Segments

/-- The lower end of a step. -/
def lower (k b seg step : Nat) : Nat := (2 ^ k + step) * 2 ^ (seg + b)

def segOf (k b v : Nat) : Nat := Nat.log2 v - (k + b)

def stepOf (k b v : Nat) : Nat := v / 2 ^ (segOf k b v + b) % 2 ^ k

variable {k b v w : Nat}

theorem log_of_segment (large : 2 ^ (k + b) ≤ v) : Nat.log2 v = k + (segOf k b v + b) := by
  have : k + b ≤ Nat.log2 v := (Nat.le_log2 (Nat.ne_zero_of_lt (Nat.lt_of_lt_of_le (by positivity) large))).mpr large
  unfold segOf
  omega

/-- A number lies between two powers of two, the ends of its segment. -/
theorem segment_bounds (large : 2 ^ (k + b) ≤ v) :
    2 ^ k * 2 ^ (segOf k b v + b) ≤ v ∧ v < 2 * 2 ^ k * 2 ^ (segOf k b v + b) := by
  have some_ : v ≠ 0 := Nat.ne_zero_of_lt (Nat.lt_of_lt_of_le (by positivity) large)
  have from_ := Nat.log2_self_le some_
  have until_ := @Nat.lt_log2_self v
  rw [log_of_segment large, Nat.pow_add] at from_
  rw [log_of_segment large, Nat.pow_succ, Nat.pow_add, Nat.mul_comm, ← Nat.mul_assoc] at until_
  exact ⟨from_, until_⟩

theorem segment_unique {seg : Nat} (from_ : 2 ^ k * 2 ^ (seg + b) ≤ v)
    (until_ : v < 2 * 2 ^ k * 2 ^ (seg + b)) : segOf k b v = seg := by
  have some_ : v ≠ 0 := Nat.ne_zero_of_lt (Nat.lt_of_lt_of_le (by positivity) from_)
  have is : Nat.log2 v = k + (seg + b) := by
    rw [Nat.log2_eq_iff some_, Nat.pow_succ, Nat.pow_add, Nat.mul_comm _ 2, ← Nat.mul_assoc]
    exact ⟨from_, until_⟩
  unfold segOf
  omega

theorem step_small (k b v : Nat) : stepOf k b v < 2 ^ k := Nat.mod_lt _ (by positivity)

/-- The whole steps below a number, those of the segments before counted as of its own. -/
theorem steps_below (large : 2 ^ (k + b) ≤ v) :
    v / 2 ^ (segOf k b v + b) = 2 ^ k + stepOf k b v := by
  obtain ⟨from_, until_⟩ := segment_bounds large
  have atLeast : 2 ^ k ≤ v / 2 ^ (segOf k b v + b) := (Nat.le_div_iff_mul_le (by positivity)).mpr from_
  have below : v / 2 ^ (segOf k b v + b) < 2 * 2 ^ k := (Nat.div_lt_iff_lt_mul (by positivity)).mpr until_
  have kept : (v / 2 ^ (segOf k b v + b) - 2 ^ k) % 2 ^ k = v / 2 ^ (segOf k b v + b) - 2 ^ k :=
    Nat.mod_eq_of_lt (by omega)
  rw [stepOf, Nat.mod_eq_sub_mod atLeast, kept]
  omega

/-- A number lies within the step it is coded by. -/
theorem within_step (large : 2 ^ (k + b) ≤ v) :
    lower k b (segOf k b v) (stepOf k b v) ≤ v ∧
      v < lower k b (segOf k b v) (stepOf k b v) + 2 ^ (segOf k b v + b) := by
  have parts := Nat.div_add_mod v (2 ^ (segOf k b v + b))
  have rest := Nat.mod_lt v (show 0 < 2 ^ (segOf k b v + b) by positivity)
  rw [steps_below large, Nat.mul_comm] at parts
  unfold lower
  omega

theorem segment_mono (large : 2 ^ (k + b) ≤ v) (le : v ≤ w) : segOf k b v ≤ segOf k b w := by
  have some_ : w ≠ 0 := Nat.ne_zero_of_lt (Nat.lt_of_lt_of_le (by positivity) (Nat.le_trans large le))
  have logs : Nat.log2 v ≤ Nat.log2 w := by
    rw [Nat.le_log2 some_]
    exact Nat.le_trans (Nat.log2_self_le (Nat.ne_zero_of_lt (Nat.lt_of_lt_of_le (by positivity) large))) le
  unfold segOf
  omega

/-- The lowest bits do not count. -/
theorem coarse_same (large : 2 ^ (k + b) ≤ v) (large' : 2 ^ (k + b) ≤ w) (same : v / 2 ^ b = w / 2 ^ b) :
    segOf k b v = segOf k b w ∧ stepOf k b v = stepOf k b w := by
  have some_ : 0 < 2 ^ b := by positivity
  obtain ⟨from_, until_⟩ := segment_bounds large'
  rw [Nat.pow_add, ← Nat.mul_assoc] at from_ until_
  rw [← Nat.le_div_iff_mul_le some_, ← same, Nat.le_div_iff_mul_le some_] at from_
  rw [← Nat.div_lt_iff_lt_mul some_, ← same, Nat.div_lt_iff_lt_mul some_] at until_
  have segments : segOf k b v = segOf k b w := by
    apply segment_unique
    · rw [Nat.pow_add, ← Nat.mul_assoc]
      exact from_
    · rw [Nat.pow_add, ← Nat.mul_assoc]
      exact until_
  refine ⟨segments, ?_⟩
  rw [stepOf, stepOf, segments, Nat.add_comm _ b, Nat.pow_add, ← Nat.div_div_eq_div_mul, same, Nat.div_div_eq_div_mul]

theorem segment_lt {n : Nat} (large : 2 ^ (k + b) ≤ v) (small : v < 2 ^ (k + b + n)) : segOf k b v < n := by
  have some_ : v ≠ 0 := Nat.ne_zero_of_lt (Nat.lt_of_lt_of_le (by positivity) large)
  have logs := (Nat.log2_lt some_).mpr small
  have whole := log_of_segment large
  omega

/-- A later segment begins where the last step before it ends, or above. -/
theorem next_segment {seg step seg' step' : Nat} (small : step < 2 ^ k) (later : seg < seg') :
    lower k b seg step + 2 ^ (seg + b) ≤ lower k b seg' step' := by
  obtain ⟨d, rfl⟩ := Nat.exists_eq_add_of_lt later
  calc lower k b seg step + 2 ^ (seg + b) = (2 ^ k + (step + 1)) * 2 ^ (seg + b) := by unfold lower; ring
    _ ≤ (2 * 2 ^ k) * 2 ^ (seg + b) := Nat.mul_le_mul_right _ (by omega)
    _ = 2 ^ k * 2 ^ (seg + 1 + b) := by ring
    _ ≤ (2 ^ k + step') * 2 ^ (seg + d + 1 + b) :=
      Nat.mul_le_mul (Nat.le_add_right _ _) (Nat.pow_le_pow_right (by omega) (by omega))

/-- No step of any segment begins between a number and the step it is coded by. -/
theorem greatest_step {seg step : Nat} (large : 2 ^ (k + b) ≤ v) (small : step < 2 ^ k)
    (below : lower k b seg step ≤ v) : lower k b seg step ≤ lower k b (segOf k b v) (stepOf k b v) := by
  have inside := within_step large
  rcases Nat.lt_trichotomy seg (segOf k b v) with before | rfl | after
  · exact Nat.le_trans (Nat.le_add_right _ _) (next_segment small before)
  · have steps : 2 ^ k + step ≤ 2 ^ k + stepOf k b v := by
      rw [← steps_below large]
      exact (Nat.le_div_iff_mul_le (by positivity)).mpr below
    exact Nat.mul_le_mul_right _ steps
  · have past := @next_segment k b _ _ _ step (step_small k b v) after
    omega

end Segments
