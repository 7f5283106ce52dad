import Mathlib

/-!
Fields packed into the words of a register file. A write of one field leaves every
field apart from it, so that of many writes each field shows its own last one.
-/
namespace BitFields
variable {w : Nat}

/-- Some bits of one register. -/
structure Field where
  reg : Nat
  shift : Nat
  width : Nat
  deriving DecidableEq, Repr

def low (w n : Nat) : BitVec w := BitVec.ofNat w (2 ^ n - 1)

def Field.get (f : Field) (x : BitVec w) : BitVec w := (x >>> f.shift) &&& low w f.width

def Field.put (f : Field) (value x : BitVec w) : BitVec w :=
  (x &&& ~~~(low w f.width <<< f.shift)) ||| ((value &&& low w f.width) <<< f.shift)

/-- Two fields that share no bit. -/
def Field.Apart (f g : Field) : Prop :=
  f.reg ≠ g.reg ∨ f.shift + f.width ≤ g.shift ∨ g.shift + g.width ≤ f.shift

variable {f g : Field} {x value : BitVec w}

theorem low_bit (n i : Nat) (inside : i < w) : (low w n).getLsbD i = decide (i < n) := by
  rw [low, BitVec.getLsbD_ofNat, Nat.testBit_two_pow_sub_one]
  simp [inside]

theorem get_bit (i : Nat) (inside : i < w) :
    (f.get x).getLsbD i = (x.getLsbD (f.shift + i) && decide (i < f.width)) := by
  rw [Field.get, BitVec.getLsbD_and, BitVec.getLsbD_ushiftRight, low_bit f.width i inside]

theorem put_bit (i : Nat) (inside : i < w) : (f.put value x).getLsbD i =
    if f.shift ≤ i ∧ i < f.shift + f.width then value.getLsbD (i - f.shift) else x.getLsbD i := by
  rw [Field.put, BitVec.getLsbD_or, BitVec.getLsbD_and, BitVec.getLsbD_not, BitVec.getLsbD_shiftLeft,
    BitVec.getLsbD_shiftLeft, BitVec.getLsbD_and, low_bit f.width (i - f.shift) (by omega)]
  by_cases below : i < f.shift
  · have outside : ¬ (f.shift ≤ i ∧ i < f.shift + f.width) := by omega
    simp [inside, below, outside]
  · by_cases above : i < f.shift + f.width
    · have here : i - f.shift < f.width := by omega
      have both : f.shift ≤ i ∧ i < f.shift + f.width := by omega
      simp [inside, below, here, both]
    · have here : ¬ i - f.shift < f.width := by omega
      have outside : ¬ (f.shift ≤ i ∧ i < f.shift + f.width) := by omega
      simp [inside, below, here, outside]

theorem get_put (fits : f.shift + f.width ≤ w) :
    f.get (f.put value x) = value &&& low w f.width := by
  apply BitVec.eq_of_getLsbD_eq
  intro i inside
  rw [get_bit i inside, BitVec.getLsbD_and, low_bit f.width i inside]
  by_cases early : i < f.width
  · have both : f.shift ≤ f.shift + i ∧ f.shift + i < f.shift + f.width := by omega
    rw [put_bit (f.shift + i) (by omega), if_pos both, Nat.add_sub_cancel_left]
  · simp [early]

theorem get_put_apart (apart : f.shift + f.width ≤ g.shift ∨ g.shift + g.width ≤ f.shift)
    (fits : g.shift + g.width ≤ w) : g.get (f.put value x) = g.get x := by
  apply BitVec.eq_of_getLsbD_eq
  intro i inside
  rw [get_bit i inside, get_bit i inside]
  by_cases early : i < g.width
  · have outside : ¬ (f.shift ≤ g.shift + i ∧ g.shift + i < f.shift + f.width) := by omega
    rw [put_bit (g.shift + i) (by omega), if_neg outside]
  · simp [early]

/-- A field of a register file read and written. -/
def read (file : Nat → BitVec w) (f : Field) : BitVec w := f.get (file f.reg)

def write (file : Nat → BitVec w) (f : Field) (value : BitVec w) : Nat → BitVec w :=
  Function.update file f.reg (f.put value (file f.reg))

theorem read_write (file : Nat → BitVec w) (fits : f.shift + f.width ≤ w) :
    read (write file f value) f = value &&& low w f.width := by
  rw [read, write, Function.update_self, get_put fits]

theorem read_write_apart (file : Nat → BitVec w) (apart : f.Apart g) (fits : g.shift + g.width ≤ w) :
    read (write file f value) g = read file g := by
  rw [read, read, write]
  by_cases same : g.reg = f.reg
  · rcases apart with other | bits
    · exact absurd same.symm other
    · rw [same, Function.update_self, get_put_apart bits fits]
  · rw [Function.update_of_ne same]

/-- A field inside the low bits is cut out of a word with them. -/
theorem put_narrow {n : Nat} (fits : f.shift + f.width ≤ n) (narrow : n ≤ w) :
    (f.put value x).setWidth n = f.put (value.setWidth n) (x.setWidth n) := by
  apply BitVec.eq_of_getLsbD_eq
  intro i inside
  rw [BitVec.getLsbD_setWidth, put_bit i (by omega), put_bit i inside, BitVec.getLsbD_setWidth,
    BitVec.getLsbD_setWidth]
  by_cases here : f.shift ≤ i ∧ i < f.shift + f.width
  · have before : i - f.shift < n := by omega
    simp [here, inside, before]
  · simp [here, inside]

theorem get_wide {n : Nat} (fits : f.shift + f.width ≤ w) (wide : w ≤ n) :
    f.get (x.setWidth n) = (f.get x).setWidth n := by
  apply BitVec.eq_of_getLsbD_eq
  intro i inside
  rw [get_bit i inside, BitVec.getLsbD_setWidth, BitVec.getLsbD_setWidth]
  by_cases early : i < f.width
  · rw [get_bit i (by omega)]
    simp [early, inside, show f.shift + i < n by omega]
  · by_cases here : i < w
    · rw [get_bit i here]
      simp [early]
    · rw [BitVec.getLsbD_of_ge _ _ (by omega : w ≤ i)]
      simp [early]

/-- The last value given to an index. -/
def last {ι α : Type*} [DecidableEq ι] (i : ι) : List (ι × α) → Option α
  | [] => none
  | (j, value) :: rest => (last i rest).or (if j = i then some value else none)

end BitFields
