import Mathlib

/-!
A relation of which each child keeps its parent, and each parent keeps its children in
two slots. It can be read off either end as long as the ends agree.
-/
namespace PairedEnds
variable {T : Type*} {parent slot other : T → Option T} {c p : T}

structure Paired (parent slot other : T → Option T) : Prop where
  either : ∀ c p, parent c = some p ↔ slot p = some c ∨ other p = some c
  once : ∀ c p, ¬ (slot p = some c ∧ other p = some c)

theorem paired_swap (paired : Paired parent slot other) : Paired parent other slot := by
  constructor
  · intro c p
    rw [paired.either, or_comm]
  · intro c p
    rw [and_comm]
    exact paired.once c p

theorem paired_none : Paired (fun _ : T => none) (fun _ => none) (fun _ => none) := by
  constructor
  · intro c p
    simp only [or_self, reduceCtorEq]
  · intro c p both
    cases both.1

theorem paired_xor (paired : Paired parent slot other) (c p : T) :
    parent c = some p ↔ Xor (slot p = some c) (other p = some c) := by
  rw [paired.either, xor_iff_or_and_not_and]
  exact ⟨fun held => ⟨held, paired.once c p⟩, And.left⟩

variable [DecidableEq T]

/-- A child without a parent takes an empty slot. -/
theorem paired_take (paired : Paired parent slot other) (free : parent c = none)
    (empty : slot p = none) :
    Paired (Function.update parent c (some p)) (Function.update slot p (some c)) other := by
  have elsewhere : ∀ q, slot q ≠ some c ∧ other q ≠ some c := by
    intro q
    have none := (paired.either c q).not.mp (by rw [free]; intro held; cases held)
    exact not_or.mp none
  constructor
  · intro d q
    by_cases child : d = c
    · rw [child, Function.update_self]
      by_cases place : q = p
      · rw [place, Function.update_self]
        simp only [true_or]
      · rw [Function.update_of_ne place]
        constructor
        · intro same
          exact absurd (Option.some.inj same).symm place
        · intro held
          exact absurd held (not_or.mpr (elsewhere q))
    · rw [Function.update_of_ne child, paired.either]
      by_cases place : q = p
      · rw [place, Function.update_self, empty]
        simp only [reduceCtorEq, false_or, Option.some.injEq, Ne.symm child]
      · rw [Function.update_of_ne place]
  · intro d q both
    by_cases place : q = p
    · rw [place, Function.update_self] at both
      rw [← Option.some.inj both.1] at both
      exact (elsewhere p).2 both.2
    · rw [Function.update_of_ne place] at both
      exact paired.once d q both

/-- A slot without this child in it. -/
def without (held : Option T) (c : T) : Option T := if held = some c then none else held

theorem without_iff {held : Option T} {d : T} : without held c = some d ↔ d ≠ c ∧ held = some d := by
  rw [without]
  split
  case isTrue same =>
    rw [same]
    simp only [reduceCtorEq, Option.some.injEq, false_iff, not_and]
    exact fun apart back => apart back.symm
  case isFalse differs =>
    constructor
    · intro kept
      exact ⟨fun same => differs (same ▸ kept), kept⟩
    · exact And.right

/-- A child leaves its parent, whichever of the slots it is in. -/
theorem paired_leave (paired : Paired parent slot other) (held : parent c = some p) :
    Paired (Function.update parent c none) (Function.update slot p (without (slot p) c))
      (Function.update other p (without (other p) c)) := by
  have only : ∀ q, q ≠ p → slot q ≠ some c ∧ other q ≠ some c := by
    intro q apart
    apply not_or.mp
    rw [← paired.either, held]
    exact fun same => apart (Option.some.inj same).symm
  constructor
  · intro d q
    by_cases place : q = p
    · rw [place, Function.update_self, Function.update_self, without_iff, without_iff, ← and_or_left,
        ← paired.either]
      by_cases child : d = c
      · simp [child]
      · simp only [Function.update_of_ne child, child, ne_eq, not_false_eq_true, true_and]
    · rw [Function.update_of_ne place, Function.update_of_ne place]
      by_cases child : d = c
      · rw [child, Function.update_self]
        simp only [reduceCtorEq, false_iff]
        exact not_or.mpr (only q place)
      · rw [Function.update_of_ne child]
        exact paired.either d q
  · intro d q both
    by_cases place : q = p
    · rw [place, Function.update_self, Function.update_self, without_iff, without_iff] at both
      exact paired.once d p ⟨both.1.2, both.2.2⟩
    · rw [Function.update_of_ne place, Function.update_of_ne place] at both
      exact paired.once d q both

end PairedEnds
