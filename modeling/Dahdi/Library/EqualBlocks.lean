import Mathlib

/-!
Pieces of one size laid end to end, and what a window into one of them shows.
-/
namespace EqualBlocks
variable {α β : Type*} {size : Nat} {f : β → List α}

theorem flat_length {l : List β} (same : ∀ b ∈ l, (f b).length = size) :
    (l.flatMap f).length = size * l.length := by
  induction l with
  | nil => rfl
  | cons b l ih =>
    rw [List.flatMap_cons, List.length_append, same b List.mem_cons_self,
      ih fun c member => same c (List.mem_cons_of_mem _ member), List.length_cons, Nat.mul_succ,
      Nat.add_comm]

theorem drop_flat {l : List β} (same : ∀ b ∈ l, (f b).length = size) (i : Nat) :
    (l.flatMap f).drop (size * i) = (l.drop i).flatMap f := by
  induction l generalizing i with
  | nil => simp
  | cons b l ih =>
    cases i with
    | zero => rfl
    | succ i =>
      have first := same b List.mem_cons_self
      rw [List.flatMap_cons, List.drop_succ_cons, ← ih fun c member => same c (List.mem_cons_of_mem _ member),
        Nat.mul_succ, Nat.add_comm, ← List.drop_drop, ← first, List.drop_left]

/-- A window that starts in a piece and ends in it shows only that piece. -/
theorem window_flat {l : List β} (same : ∀ b ∈ l, (f b).length = size) {i : Nat} {b : β}
    (at_ : l[i]? = some b) {start len : Nat} (inside : start + len ≤ size) :
    ((l.flatMap f).drop (size * i + start)).take len = ((f b).drop start).take len := by
  obtain ⟨below, rfl⟩ := List.getElem?_eq_some_iff.mp at_
  have length := same l[i] (List.getElem_mem below)
  rw [← List.drop_drop, drop_flat same, List.drop_eq_getElem_cons below, List.flatMap_cons,
    List.drop_append_of_le_length (by omega), List.take_append_of_le_length (by
      rw [List.length_drop]
      omega)]

/-- A list that a constant pads to its own shift is constant. -/
theorem shifted_constant {l : List α} {c : α} {m : Nat} (positive : 0 < m) (short : m ≤ l.length) :
    l.drop m ++ List.replicate m c = l ↔ l = List.replicate l.length c := by
  constructor
  · intro shifted
    have all (gap i : Nat) (place : i + gap + 1 = l.length) : l[i]? = some c := by
      induction gap using Nat.strongRecOn generalizing i with
      | ind gap ih =>
        have step : l[i]? = (l.drop m ++ List.replicate m c)[i]? := by rw [shifted]
        rw [step]
        by_cases later : i < l.length - m
        · rw [List.getElem?_append_left (by rw [List.length_drop]; omega), List.getElem?_drop]
          exact ih (gap - m) (by omega) (m + i) (by omega)
        · rw [List.getElem?_append_right (by rw [List.length_drop]; omega),
            List.getElem?_replicate, if_pos (by rw [List.length_drop]; omega)]
    apply List.ext_getElem?
    intro i
    by_cases below : i < l.length
    · rw [all (l.length - i - 1) i (by omega), List.getElem?_replicate, if_pos below]
    · rw [List.getElem?_eq_none (by omega), List.getElem?_eq_none (by
        rw [List.length_replicate]
        omega)]
  · intro constant
    rw [constant, List.drop_replicate, List.replicate_append_replicate]
    congr 1
    omega

end EqualBlocks
