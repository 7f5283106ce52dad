import Mathlib

/-!
Left-aligned shift registers. A register of w bits shows a list of bits when
the list stands at its most significant end and every lower bit is zero. Bits
enter below the ones already shown and leave at the top, so both directions of
a serial line are list operations.
-/
namespace ShiftRegister
variable {w : Nat}

structure Shows (x : BitVec w) (bits : List Bool) : Prop where
  fits : bits.length ≤ w
  bit : ∀ i, i < w → x.getMsbD i = bits.getD i false

theorem shows_empty : Shows (0 : BitVec w) [] :=
  ⟨Nat.zero_le _, by intro i _; simp⟩

/-- Bits of the top n positions, first transmitted first. -/
def top (n : Nat) (x : BitVec w) : List Bool := (List.range n).map x.getMsbD

@[simp] theorem top_length (n : Nat) (x : BitVec w) : (top n x).length = n := by
  simp [top]

theorem top_getD (n : Nat) (x : BitVec w) (i : Nat) :
    (top n x).getD i false = (decide (i < n) && x.getMsbD i) := by
  by_cases inside : i < n
  · simp [top, inside]
  · simp [top, inside]

theorem getD_of_length_le {bits : List Bool} {i : Nat} (past : bits.length ≤ i) :
    bits.getD i false = false := by
  simp [List.getD_eq_getElem?_getD, List.getElem?_eq_none past]

theorem shows_bit {x : BitVec w} {bits : List Bool} (shown : Shows x bits) (i : Nat) :
    x.getMsbD i = bits.getD i false := by
  by_cases inside : i < w
  · exact shown.bit i inside
  · rw [getD_of_length_le (by have := shown.fits; omega)]
    simp [BitVec.getMsbD, inside]

theorem shows_top {x : BitVec w} {bits : List Bool} (shown : Shows x bits) {n : Nat}
    (enough : n ≤ bits.length) : top n x = bits.take n := by
  apply List.ext_getElem
  · simp [enough]
  · intro i hi hj
    simp only [top_length] at hi
    simp [top, shows_bit shown, List.getElem_take, List.getElem?_eq_getElem (by omega : i < bits.length)]

theorem shows_append {x y : BitVec w} {front back : List Bool}
    (hx : Shows x front) (hy : Shows y back) (room : front.length + back.length ≤ w) :
    Shows (x ||| (y >>> front.length)) (front ++ back) := by
  refine ⟨by simpa using room, ?_⟩
  intro i hi
  rw [BitVec.getMsbD_or, BitVec.getMsbD_ushiftRight, shows_bit hx, shows_bit hy]
  by_cases early : i < front.length
  · simp [early, List.getElem?_append_left early]
  · have late : front.length ≤ i := by omega
    rw [getD_of_length_le late]
    simp [early, hi, List.getElem?_append_right late]

theorem shows_drop {x : BitVec w} {bits : List Bool} (shown : Shows x bits) (n : Nat) :
    Shows (x <<< n) (bits.drop n) := by
  refine ⟨by have := shown.fits; simp; omega, ?_⟩
  intro i hi
  rw [BitVec.getMsbD_shiftLeft, shows_bit shown]
  simp [Nat.add_comm]

/-- The least significant n bits, lowest first. -/
def low (n : Nat) (x : BitVec w) : List Bool := (List.range n).map x.getLsbD

@[simp] theorem low_length (n : Nat) (x : BitVec w) : (low n x).length = n := by
  simp [low]

theorem low_succ (n : Nat) (x : BitVec w) :
    low (n + 1) x = x.getLsbD 0 :: low n (x >>> 1) := by
  simp [low, List.range_succ_eq_map, Function.comp_def, Nat.add_comm]

/-- The bits stand at the least significant end, the last one lowest. -/
def Ends (x : BitVec w) (bits : List Bool) : Prop :=
  ∀ j, j < w → x.getLsbD j = bits.reverse.getD j false

theorem ends_empty : Ends (0 : BitVec w) [] := by
  intro j _
  simp

theorem ends_shift {x : BitVec w} {bits : List Bool} (h : Ends x bits) :
    Ends (x <<< 1) (bits ++ [false]) := by
  intro j hj
  cases j with
  | zero => simp
  | succ j =>
    have before := h j (by omega)
    rw [BitVec.getLsbD_shiftLeft, List.reverse_append]
    simpa [hj] using before

theorem ends_shift_one {x : BitVec w} {bits : List Bool} (h : Ends x bits) :
    Ends ((x <<< 1) ||| 1) (bits ++ [true]) := by
  intro j hj
  have shifted := ends_shift h j hj
  cases j with
  | zero => simp [hj]
  | succ j =>
    rw [BitVec.getLsbD_or, shifted]
    simp [hj]

end ShiftRegister
