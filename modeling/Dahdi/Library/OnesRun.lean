import Mathlib

/-!
Runs of ones in an infinite bit stream. A reader that starts somewhere inside
the stream brings the ones it has already counted.
-/
namespace OnesRun

/-- Ones in a row before bit j, when `carried` of them stand before bit zero. -/
def run (stream : Nat → Bool) (carried : Nat) : Nat → Nat
  | 0 => carried
  | j + 1 => if stream j then run stream carried j + 1 else 0

/-- The stream seen from a later position. -/
def from_ (stream : Nat → Bool) (p : Nat) : Nat → Bool := fun i => stream (p + i)

def slice (stream : Nat → Bool) (p n : Nat) : List Bool := (List.range n).map (from_ stream p)

/-- No run is longer than the limit up to bit j. -/
def Quiet (limit : Nat) (stream : Nat → Bool) (carried j : Nat) : Prop :=
  ∀ i, i ≤ j → run stream carried i ≤ limit

variable {stream : Nat → Bool} {carried limit : Nat}

theorem run_succ (stream : Nat → Bool) (carried j : Nat) :
    run stream carried (j + 1) = if stream j then run stream carried j + 1 else 0 := rfl

theorem run_zero {j : Nat} (bit : stream j = false) : run stream carried (j + 1) = 0 := by
  simp only [run_succ, bit, Bool.false_eq_true, ↓reduceIte]

theorem run_one {j : Nat} (bit : stream j = true) :
    run stream carried (j + 1) = run stream carried j + 1 := by
  simp only [run_succ, bit, ↓reduceIte]

theorem run_from (p j : Nat) :
    run (from_ stream p) (run stream carried p) j = run stream carried (p + j) := by
  induction j with
  | zero => rfl
  | succ j ih =>
    rw [← Nat.add_assoc]
    simp only [run_succ, ih, from_]

theorem run_of_ones {p k : Nat} (ones : ∀ i, i < k → stream (p + i) = true) :
    run stream carried (p + k) = run stream carried p + k := by
  induction k with
  | zero => rfl
  | succ k ih =>
    have before := ih (by intro i inside; exact ones i (by omega))
    rw [← Nat.add_assoc, run_one (ones k (by omega)), before, Nat.add_assoc]

/-- A run counted since the start of the stream is made of ones after a zero. -/
theorem ones_of_run {j k : Nat} (counted : run stream carried j = k) (inside : k < j) :
    stream (j - k - 1) = false ∧ ∀ i, i < k → stream (j - k + i) = true := by
  induction k generalizing j with
  | zero =>
    obtain ⟨j, rfl⟩ : ∃ i, j = i + 1 := ⟨j - 1, by omega⟩
    refine ⟨?_, by intro i none; omega⟩
    by_contra bit
    rw [Bool.not_eq_false] at bit
    rw [show j + 1 - 0 - 1 = j by omega] at bit
    rw [run_one bit] at counted
    omega
  | succ k ih =>
    obtain ⟨j, rfl⟩ : ∃ i, j = i + 1 := ⟨j - 1, by omega⟩
    have bit : stream j = true := by
      by_contra bit
      rw [Bool.not_eq_true] at bit
      rw [run_zero bit] at counted
      omega
    rw [run_one bit] at counted
    obtain ⟨zero, ones⟩ := @ih j (by omega) (by omega)
    rw [show j + 1 - (k + 1) = j - k by omega]
    refine ⟨zero, ?_⟩
    intro i early
    by_cases last : i = k
    · rw [last, show j - k + k = j by omega]
      exact bit
    · exact ones i (by omega)

theorem quiet_weaken {i j : Nat} (quiet : Quiet limit stream carried j) (le : i ≤ j) :
    Quiet limit stream carried i := by
  intro n inside
  exact quiet n (by omega)

theorem quiet_succ {j : Nat} (quiet : Quiet limit stream carried j)
    (last : run stream carried (j + 1) ≤ limit) : Quiet limit stream carried (j + 1) := by
  intro i inside
  by_cases same : i = j + 1
  · rw [same]
    exact last
  · exact quiet i (by omega)

theorem quiet_zero (small : carried ≤ limit) : Quiet limit stream carried 0 := by
  intro i none
  rw [Nat.le_zero.mp none]
  exact small

/-- A quiet stretch followed by a quiet stretch. -/
theorem quiet_append {p j : Nat} (front : Quiet limit stream carried p)
    (back : Quiet limit (from_ stream p) (run stream carried p) j) :
    Quiet limit stream carried (p + j) := by
  intro i inside
  by_cases early : i ≤ p
  · exact front i early
  · have later := back (i - p) (by omega)
    rw [run_from, show p + (i - p) = i by omega] at later
    exact later

/-- More ones than the limit do not fit into a quiet stretch. -/
theorem not_quiet_of_ones {p k j : Nat} (ones : ∀ i, i < k → stream (p + i) = true)
    (long : limit < k) (inside : p + k ≤ j) : ¬ Quiet limit stream carried j := by
  intro quiet
  have counted := quiet (p + k) inside
  rw [run_of_ones ones] at counted
  omega

theorem from_from (p q : Nat) : from_ (from_ stream p) q = from_ stream (p + q) := by
  funext i
  simp only [from_, Nat.add_assoc]

@[simp] theorem slice_length (p n : Nat) : (slice stream p n).length = n := by
  simp only [slice, List.length_map, List.length_range]

theorem slice_get (p n i : Nat) (inside : i < n) : (slice stream p n).getD i false = stream (p + i) := by
  simp only [slice, List.getD_eq_getElem?_getD, List.getElem?_map, List.getElem?_range inside,
    Option.map_some, Option.getD_some, from_]

theorem slice_append (p m n : Nat) :
    slice stream p m ++ slice stream (p + m) n = slice stream p (m + n) := by
  rw [slice, slice, slice, List.range_add, List.map_append, List.map_map, ← from_from]
  rfl

end OnesRun
