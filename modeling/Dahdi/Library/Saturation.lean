import Mathlib

/-!
Addition that saturates at the ends of an interval around zero. The amount that
an addition has really added can be taken away again exactly.
-/
namespace Saturation

structure Bounds where
  low : Int
  high : Int
  nonpos : low ≤ 0
  nonneg : 0 ≤ high

variable (b : Bounds)

abbrev Value : Type := { v : Int // b.low ≤ v ∧ v ≤ b.high }

def saturate (v : Int) : Value b :=
  if above : b.high < v then ⟨b.high, Int.le_trans b.nonpos b.nonneg, Int.le_refl _⟩
  else if below : v < b.low then ⟨b.low, Int.le_refl _, Int.le_trans b.nonpos b.nonneg⟩
  else ⟨v, Int.not_lt.mp below, Int.not_lt.mp above⟩

instance : Zero (Value b) := ⟨⟨0, b.nonpos, b.nonneg⟩⟩

def addSat (x y : Value b) : Value b := saturate b (x + y)

def subSat (x y : Value b) : Value b := saturate b (x - y)

section Laws
variable {b}

@[simp] theorem zero_val : ((0 : Value b) : Int) = 0 := rfl

theorem saturate_inside {v : Int} (low : b.low ≤ v) (high : v ≤ b.high) :
    ((saturate b v : Value b) : Int) = v := by
  unfold saturate
  rw [dif_neg (by omega), dif_neg (by omega)]

theorem saturate_cases (v : Int) : b.high < v ∧ ((saturate b v : Value b) : Int) = b.high ∨
    v < b.low ∧ ((saturate b v : Value b) : Int) = b.low ∨
    (b.low ≤ v ∧ v ≤ b.high) ∧ ((saturate b v : Value b) : Int) = v := by
  have sound := b.nonpos
  have sound' := b.nonneg
  unfold saturate
  split
  · exact Or.inl ⟨‹_›, rfl⟩
  · split
    · exact Or.inr (Or.inl ⟨‹_›, rfl⟩)
    · exact Or.inr (Or.inr ⟨⟨by omega, by omega⟩, rfl⟩)

/-- The difference between a saturated sum and one of its terms fits. -/
theorem added_exact (x y : Value b) : ((subSat b (addSat b x y) y : Value b) : Int) =
    ((addSat b x y : Value b) : Int) - y := by
  obtain ⟨lowX, highX⟩ := x.2
  obtain ⟨lowY, highY⟩ := y.2
  have sound := b.nonpos
  have sound' := b.nonneg
  unfold subSat
  refine saturate_inside ?_ ?_
  · rcases saturate_cases (b := b) (x + y) with ⟨_, sum⟩ | ⟨_, sum⟩ | ⟨_, sum⟩
    · unfold addSat
      omega
    · unfold addSat
      omega
    · unfold addSat
      omega
  · rcases saturate_cases (b := b) (x + y) with ⟨_, sum⟩ | ⟨_, sum⟩ | ⟨_, sum⟩
    · unfold addSat
      omega
    · unfold addSat
      omega
    · unfold addSat
      omega

/-- Adding the amount once more gives the saturated sum. -/
theorem add_added (x y : Value b) :
    addSat b y (subSat b (addSat b x y) y) = addSat b x y := by
  apply Subtype.ext
  have whole : (y : Int) + (subSat b (addSat b x y) y : Value b) = (addSat b x y : Value b) := by
    rw [added_exact]
    omega
  obtain ⟨low, high⟩ := (addSat b x y).2
  unfold addSat at whole low high ⊢
  rw [whole]
  exact saturate_inside low high

/-- Taking a value away first is exact as long as the difference fits. -/
theorem sub_add (x y z : Value b) (low : b.low ≤ (x : Int) - y) (high : (x : Int) - y ≤ b.high) :
    addSat b (subSat b x y) z = saturate b (x + (z - y)) := by
  have same : ((subSat b x y : Value b) : Int) = x - y := saturate_inside low high
  unfold addSat
  rw [same]
  congr 1
  omega

end Laws

end Saturation
