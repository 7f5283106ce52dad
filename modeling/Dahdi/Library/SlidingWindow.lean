import Mathlib

/-!
Sums and maxima over the latest values of a history, newest first, with zero for the
values before its beginning.
-/
namespace SlidingWindow
variable {f : Int → Int} {k n : Nat} {l : List Int} {x m b : Int}

section Sum

/-- The sum of f over the k latest values. -/
def windowSum (f : Int → Int) (k : Nat) (l : List Int) : Int := ((l.take k).map f).sum

theorem windowSum_nil (f : Int → Int) (k : Nat) : windowSum f k [] = 0 := by
  rw [windowSum, List.take_nil]
  rfl

theorem windowSum_push : windowSum f (k + 1) (x :: l) = f x + windowSum f k l := by
  rw [windowSum, List.take_succ_cons, List.map_cons, List.sum_cons]
  rfl

/-- A longer window has the value that the shorter one has just lost. -/
theorem windowSum_succ (zero : f 0 = 0) :
    windowSum f (k + 1) l = windowSum f k l + f (l.getD k 0) := by
  induction k generalizing l with
  | zero =>
    cases l with
    | nil => simp [windowSum, zero]
    | cons x l => simp [windowSum]
  | succ k ih =>
    cases l with
    | nil => simp [windowSum, zero]
    | cons x l => rw [windowSum_push, ih, windowSum_push, List.getD_cons_succ, Int.add_assoc]

/-- The value that leaves is taken off, the new one is added. -/
theorem windowSum_slide (zero : f 0 = 0) :
    windowSum f (k + 1) (x :: l) = windowSum f (k + 1) l - f (l.getD k 0) + f x := by
  rw [windowSum_push, windowSum_succ zero]
  omega

theorem windowSum_bounds (low : ∀ x ∈ l, 0 ≤ f x) (high : ∀ x ∈ l, f x ≤ b) (positive : 0 ≤ b) :
    0 ≤ windowSum f k l ∧ windowSum f k l ≤ k * b := by
  induction k generalizing l with
  | zero => simp [windowSum]
  | succ k ih =>
    cases l with
    | nil =>
      rw [windowSum_nil]
      exact ⟨Int.le_refl 0, Int.mul_nonneg (by omega) positive⟩
    | cons x l =>
      obtain ⟨low', high'⟩ := ih (fun y member => low y (List.mem_cons_of_mem _ member))
        (fun y member => high y (List.mem_cons_of_mem _ member))
      have lowX := low x List.mem_cons_self
      have highX := high x List.mem_cons_self
      have grown : ((k + 1 : Nat) : Int) * b = k * b + b := by push_cast; ring
      rw [windowSum_push, grown]
      omega

end Sum

section Maximum

/-- Among the n latest values m is the greatest, and the value that stands `life` places
    before the last of them is one with this greatest value. -/
structure Peak (n : Nat) (l : List Int) (m life : Int) : Prop where
  low : 0 ≤ life
  high : life < n
  reached : l.getD (n - 1 - life.toNat) 0 = m
  most : ∀ i < n, l.getD i 0 ≤ m

variable {life : Int}

theorem Peak.greatest (peak : Peak n l m life) : IsGreatest {v | ∃ i < n, v = l.getD i 0} m := by
  have := peak.low
  have := peak.high
  refine ⟨⟨n - 1 - life.toNat, by omega, peak.reached.symm⟩, ?_⟩
  rintro v ⟨i, inside, rfl⟩
  exact peak.most i inside

theorem peak_nil (positive : 0 < n) : Peak n [] 0 0 where
  low := Int.le_refl 0
  high := by omega
  reached := by simp
  most := by simp

/-- A value that is greater has all of its life before it. -/
theorem peak_new (peak : Peak n l m life) (greater : m < x) : Peak n (x :: l) x (n - 1) := by
  have := peak.low
  have := peak.high
  refine ⟨by omega, by omega, ?_, ?_⟩
  · have newest : n - 1 - ((n : Int) - 1).toNat = 0 := by omega
    rw [newest, List.getD_cons_zero]
  · intro i inside
    cases i with
    | zero => exact Int.le_refl x
    | succ i =>
      rw [List.getD_cons_succ]
      have := peak.most i (by omega)
      omega

/-- The greatest value gets older. -/
theorem peak_older (peak : Peak n l m life) (smaller : x ≤ m) (alive : 0 < life) :
    Peak n (x :: l) m (life - 1) := by
  have := peak.high
  refine ⟨by omega, by omega, ?_, ?_⟩
  · have moved : n - 1 - (life - 1).toNat = n - 1 - life.toNat + 1 := by omega
    rw [moved, List.getD_cons_succ]
    exact peak.reached
  · intro i inside
    cases i with
    | zero => exact smaller
    | succ i =>
      rw [List.getD_cons_succ]
      exact peak.most i (by omega)

end Maximum

end SlidingWindow
