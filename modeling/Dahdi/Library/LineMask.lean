import Mathlib

/-!
Masks of lines as machine words: setting and clearing a line, how many of the
first lines are set, and masks put together from shifted blocks.
-/
namespace LineMask
variable {w : Nat}

/-- A shift by more than the machine's word is taken modulo 64. -/
def bit (w i : Nat) : BitVec w := BitVec.ofNat w (2 ^ (i % 64))

def set (m : BitVec w) (i : Nat) : BitVec w := m ||| bit w i

def clear (m : BitVec w) (i : Nat) : BitVec w := m &&& ~~~ bit w i

def mark (m : BitVec w) (i : Nat) (on : Bool) : BitVec w := if on then set m i else clear m i

/-- How many of the first n lines are set. -/
def count (m : BitVec w) : Nat → Nat
  | 0 => 0
  | n + 1 => count m n + if m.getLsbD n then 1 else 0

theorem count_succ (m : BitVec w) (n : Nat) :
    count m (n + 1) = count m n + if m.getLsbD n then 1 else 0 := rfl

/-- Only lines before n are set. -/
def Below (n : Nat) (m : BitVec w) : Prop := ∀ i, m.getLsbD i = true → i < n

section Lines
variable {m m' : BitVec w} {i n k : Nat}

theorem getLsbD_bit (j : Nat) : (bit w i).getLsbD j = (decide (j < w) && decide (i % 64 = j)) := by
  unfold bit
  rw [BitVec.getLsbD_ofNat, Nat.testBit_two_pow]

theorem getLsbD_clear (j : Nat) :
    (clear m i).getLsbD j = (m.getLsbD j && !decide (i % 64 = j)) := by
  unfold clear
  rw [BitVec.getLsbD_and, BitVec.getLsbD_not, getLsbD_bit]
  by_cases inside : j < w
  · simp [inside]
  · simp [BitVec.getLsbD_of_ge m j (by omega)]

theorem getLsbD_set (j : Nat) :
    (set m i).getLsbD j = (m.getLsbD j || (decide (j < w) && decide (i % 64 = j))) := by
  unfold set
  rw [BitVec.getLsbD_or, getLsbD_bit]

theorem below_mono (below : Below n m) (sub : ∀ j, m'.getLsbD j = true → m.getLsbD j = true) :
    Below n m' := fun j isSet => below j (sub j isSet)

theorem below_zero : Below n (0 : BitVec w) := by
  intro j isSet
  simp at isSet

theorem below_clear (below : Below n m) : Below n (clear m i) := by
  apply below_mono below
  intro j isSet
  rw [getLsbD_clear, Bool.and_eq_true] at isSet
  exact isSet.1

theorem below_bit (small : i < n) : Below n (bit w i) := by
  intro j isSet
  rw [getLsbD_bit, Bool.and_eq_true, decide_eq_true_eq, decide_eq_true_eq] at isSet
  have := Nat.mod_le i 64
  omega

theorem below_or (first : Below n m) (second : Below n m') : Below n (m ||| m') := by
  intro j isSet
  rw [BitVec.getLsbD_or, Bool.or_eq_true] at isSet
  exact isSet.elim (first j) (second j)

theorem below_set (below : Below n m) (small : i < n) : Below n (set m i) :=
  below_or below (below_bit small)

theorem below_mark (below : Below n m) (small : i < n) (on : Bool) : Below n (mark m i on) := by
  cases on with
  | false => exact below_clear below
  | true => exact below_set below small

theorem below_and (below : Below n m) : Below n (m &&& m') := by
  apply below_mono below
  intro j isSet
  rw [BitVec.getLsbD_and, Bool.and_eq_true] at isSet
  exact isSet.1

theorem count_congr (same : ∀ j < n, m.getLsbD j = m'.getLsbD j) : count m n = count m' n := by
  induction n with
  | zero => rfl
  | succ n ih =>
    rw [count_succ, count_succ, ih fun j small => same j (by omega), same n (by omega)]

theorem count_le (m : BitVec w) (n : Nat) : count m n ≤ n := by
  induction n with
  | zero => exact Nat.le_refl 0
  | succ n ih =>
    rw [count_succ]
    split <;> omega

/-- A wider loop counts no more lines. -/
theorem count_below (below : Below n m) (wide : n ≤ k) : count m k = count m n := by
  induction k with
  | zero =>
    have : n = 0 := by omega
    rw [this]
  | succ k ih =>
    by_cases last : n = k + 1
    · rw [last]
    · rw [count_succ, ih (by omega)]
      have clear_ : m.getLsbD k = false := by
        by_contra isSet
        have := below k (by simpa using isSet)
        omega
      simp [clear_]

theorem count_zero (n : Nat) : count (0 : BitVec w) n = 0 := by
  induction n with
  | zero => rfl
  | succ n ih =>
    rw [count_succ, ih]
    simp

theorem count_pos (small : i < n) (isSet : m.getLsbD i = true) : 0 < count m n := by
  induction n with
  | zero => omega
  | succ n ih =>
    rw [count_succ]
    by_cases last : i = n
    · rw [← last, isSet]
      simp
    · have := ih (by omega)
      omega

theorem eq_zero_of_count (below : Below n m) (none_ : count m n = 0) : m = 0 := by
  apply BitVec.eq_of_getLsbD_eq
  intro j _
  by_contra isSet
  have : m.getLsbD j = true := by simpa using isSet
  have := count_pos (below j this) this
  omega

theorem count_clear_self (lies : i < 64) :
    count (clear m i) n + (if i < n ∧ m.getLsbD i = true then 1 else 0) = count m n := by
  induction n with
  | zero => rfl
  | succ n ih =>
    rw [count_succ, count_succ, getLsbD_clear, Nat.mod_eq_of_lt lies]
    by_cases here : i = n
    · subst here
      have away : count (clear m i) i = count m i := by
        apply count_congr
        intro j small
        rw [getLsbD_clear, Nat.mod_eq_of_lt lies]
        have : i ≠ j := by omega
        simp [this]
      rw [away]
      cases m.getLsbD i <;> simp
    · have : (i < n + 1) ↔ i < n := by omega
      simp only [this, here, decide_false, Bool.not_false, Bool.and_true]
      omega

theorem count_set_new (fresh : m.getLsbD i = false) (small : i < n) (lies : i < 64) (fits : i < w) :
    count (set m i) n = count m n + 1 := by
  have cleared : clear (set m i) i = m := by
    apply BitVec.eq_of_getLsbD_eq
    intro j inside
    rw [getLsbD_clear, getLsbD_set, Nat.mod_eq_of_lt lies]
    by_cases here : i = j
    · rw [← here, fresh]
      simp
    · simp [here]
  have isSet : (set m i).getLsbD i = true := by
    rw [getLsbD_set, Nat.mod_eq_of_lt lies]
    simp [fits]
  have counted := @count_clear_self w (set m i) i n lies
  rw [cleared, if_pos ⟨small, isSet⟩] at counted
  exact counted.symm

end Lines

section Blocks

theorem count_add (m : BitVec w) (a b : Nat) : count m (a + b) = count m a + count (m >>> a) b := by
  induction b with
  | zero => rfl
  | succ b ih =>
    rw [← Nat.add_assoc, count_succ, ih, count_succ, BitVec.getLsbD_ushiftRight, Nat.add_assoc]

/-- Block k of the words f, each shifted to its place. -/
def blocks (f : Nat → BitVec w) (b : Nat) : Nat → BitVec w
  | 0 => 0
  | k + 1 => blocks f b k ||| f k <<< (b * k)

variable {f : Nat → BitVec w} {b : Nat}

theorem blocks_succ (k : Nat) : blocks f b (k + 1) = blocks f b k ||| f k <<< (b * k) := rfl

theorem blocks_below (small : ∀ i, Below b (f i)) (k : Nat) : Below (b * k) (blocks f b k) := by
  induction k with
  | zero => exact below_zero
  | succ k ih =>
    intro j isSet
    rw [blocks_succ, BitVec.getLsbD_or, Bool.or_eq_true] at isSet
    rw [Nat.mul_succ]
    rcases isSet with before | last
    · have := ih j before
      omega
    · rw [BitVec.getLsbD_shiftLeft] at last
      simp only [Bool.and_eq_true, decide_eq_true_eq, Bool.not_eq_true', decide_eq_false_iff_not] at last
      have := small k _ last.2
      omega

theorem getLsbD_blocks (small : ∀ i, Below b (f i)) {i j k : Nat} (fits : b * k ≤ w) (lies : j < b)
    (before : i < k) : (blocks f b k).getLsbD (b * i + j) = (f i).getLsbD j := by
  induction k with
  | zero => omega
  | succ k ih =>
    rw [Nat.mul_succ] at fits
    rw [blocks_succ, BitVec.getLsbD_or, BitVec.getLsbD_shiftLeft]
    by_cases last : i = k
    · subst last
      have outside : (blocks f b i).getLsbD (b * i + j) = false := by
        by_contra isSet
        have := blocks_below small i _ (by simpa using isSet)
        omega
      rw [outside]
      simp
      omega
    · have earlier : b * i + b ≤ b * k := by
        rw [← Nat.mul_succ]
        exact Nat.mul_le_mul_left b (by omega)
      have : b * i + j < b * k := by omega
      rw [ih (by omega) (by omega)]
      simp [this]

theorem count_blocks (small : ∀ i, Below b (f i)) {k : Nat} (fits : b * k ≤ w) :
    count (blocks f b k) (b * k) = ∑ i ∈ Finset.range k, count (f i) b := by
  induction k with
  | zero => rfl
  | succ k ih =>
    rw [Nat.mul_succ] at fits
    rw [Nat.mul_succ, count_add, Finset.sum_range_succ, ← ih (by omega)]
    have earlier : count (blocks f b (k + 1)) (b * k) = count (blocks f b k) (b * k) := by
      apply count_congr
      intro j before
      rw [blocks_succ, BitVec.getLsbD_or, BitVec.getLsbD_shiftLeft]
      simp [before]
    have last : count (blocks f b (k + 1) >>> (b * k)) b = count (f k) b := by
      apply count_congr
      intro j lies
      rw [BitVec.getLsbD_ushiftRight]
      exact getLsbD_blocks small (by rw [Nat.mul_succ]; omega) lies (by omega)
    rw [earlier, last]

end Blocks
end LineMask
