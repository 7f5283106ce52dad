import Mathlib

/-!
What the slots of a table are worth together, in any commutative monoid: things held, or
numbers of them. One slot is filled or emptied at a time.
-/
namespace SlotLedger
variable {M V : Type*} [AddCommMonoid M]

def total (n : Nat) (worth : V → M) (slots : Nat → Option V) : M :=
  ∑ i ∈ Finset.range n, (slots i).elim 0 worth

theorem total_empty {n : Nat} {worth : V → M} {slots : Nat → Option V} (empty : ∀ i < n, slots i = none) :
    total n worth slots = 0 := by
  apply Finset.sum_eq_zero
  intro i inside
  rw [empty i (Finset.mem_range.mp inside)]
  rfl

theorem total_split {n i : Nat} (worth : V → M) (slots : Nat → Option V) (inside : i < n) :
    total n worth slots = (slots i).elim 0 worth + ∑ j ∈ (Finset.range n).erase i, (slots j).elim 0 worth :=
  (Finset.add_sum_erase _ (fun j => (slots j).elim 0 worth) (Finset.mem_range.mpr inside)).symm

theorem total_others {n i : Nat} (worth : V → M) (slots : Nat → Option V) (v : Option V) :
    ∑ j ∈ (Finset.range n).erase i, (Function.update slots i v j).elim 0 worth =
      ∑ j ∈ (Finset.range n).erase i, (slots j).elim 0 worth := by
  apply Finset.sum_congr rfl
  intro j other
  rw [Function.update_of_ne (Finset.ne_of_mem_erase other)]

/-- A free slot is filled. -/
theorem total_put {n i : Nat} (worth : V → M) {slots : Nat → Option V} (v : V) (inside : i < n)
    (free : slots i = none) : total n worth (Function.update slots i (some v)) = worth v + total n worth slots := by
  rw [total_split worth _ inside, total_split worth slots inside, total_others, Function.update_self, free,
    Option.elim_some, Option.elim_none, zero_add]

/-- A slot is emptied. -/
theorem total_take {n i : Nat} (worth : V → M) {slots : Nat → Option V} {v : V} (inside : i < n)
    (full : slots i = some v) : worth v + total n worth (Function.update slots i none) = total n worth slots := by
  rw [total_split worth _ inside, total_split worth slots inside, total_others, Function.update_self, full,
    Option.elim_some, Option.elim_none, zero_add]

end SlotLedger
