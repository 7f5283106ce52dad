import Mathlib

/-!
Slots of one width, of which only the marked ones are written, one after the other.
A marked slot is read back where as many slots were written as are marked before it.
-/
namespace PackedSlots
variable {α : Type*} {k : Nat}

/-- How many slots before n are marked. -/
def rank (marked : Nat → Bool) : Nat → Nat
  | 0 => 0
  | n + 1 => rank marked n + if marked n then 1 else 0

def packed (marked : Nat → Bool) (slot : Nat → Vector α k) : Nat → List α
  | 0 => []
  | n + 1 => packed marked slot n ++ if marked n then (slot n).toList else []

/-- The slot that starts at a position, filled up where the list ends. -/
def slotAt (k : Nat) (fill : α) (bytes : List α) (start : Nat) : Vector α k :=
  Vector.ofFn fun j => bytes.getD (start + j) fill

variable {marked marked' : Nat → Bool} {slot slot' : Nat → Vector α k} {fill : α}

theorem rank_succ (marked : Nat → Bool) (n : Nat) :
    rank marked (n + 1) = rank marked n + if marked n then 1 else 0 := rfl

theorem packed_succ (marked : Nat → Bool) (slot : Nat → Vector α k) (n : Nat) :
    packed marked slot (n + 1) = packed marked slot n ++ if marked n then (slot n).toList else [] := rfl

theorem rank_congr {n : Nat} (same : ∀ i < n, marked i = marked' i) : rank marked n = rank marked' n := by
  induction n with
  | zero => rfl
  | succ n ih => rw [rank_succ, rank_succ, ih fun i before => same i (by omega), same n (by omega)]

theorem rank_mono {n : Nat} (sub : ∀ i < n, marked i = true → marked' i = true) :
    rank marked n ≤ rank marked' n := by
  induction n with
  | zero => exact Nat.le_refl 0
  | succ n ih =>
    have before := ih fun i small => sub i (by omega)
    have last := sub n (by omega)
    rw [rank_succ, rank_succ]
    cases here : marked n with
    | false =>
      rw [if_neg Bool.false_ne_true]
      omega
    | true =>
      rw [last here]
      omega

theorem rank_none {start n : Nat} (before : start ≤ n) (none_ : ∀ i, start ≤ i → i < n → marked i = false) :
    rank marked n = rank marked start := by
  induction n with
  | zero =>
    have : start = 0 := by omega
    rw [this]
  | succ n ih =>
    by_cases last : start = n + 1
    · rw [last]
    · rw [rank_succ, none_ n (by omega) (by omega), ih (by omega) fun i after inside => none_ i after (by omega)]
      simp

theorem packed_congr {n : Nat} (same : ∀ i < n, marked i = marked' i)
    (content : ∀ i < n, marked i = true → slot i = slot' i) : packed marked slot n = packed marked' slot' n := by
  induction n with
  | zero => rfl
  | succ n ih =>
    rw [packed_succ, packed_succ, ih (fun i before => same i (by omega)) (fun i before => content i (by omega)),
      ← same n (by omega)]
    cases here : marked n with
    | false => rfl
    | true => rw [if_pos rfl, if_pos rfl, content n (by omega) here]

theorem packed_length (marked : Nat → Bool) (slot : Nat → Vector α k) (n : Nat) :
    (packed marked slot n).length = k * rank marked n := by
  induction n with
  | zero => rfl
  | succ n ih =>
    rw [packed_succ, rank_succ, List.length_append, ih, Nat.mul_add]
    split <;> simp

theorem packed_none {start n : Nat} (before : start ≤ n) (none_ : ∀ i, start ≤ i → i < n → marked i = false) :
    packed marked slot n = packed marked slot start := by
  induction n with
  | zero =>
    have : start = 0 := by omega
    rw [this]
  | succ n ih =>
    by_cases last : start = n + 1
    · rw [last]
    · rw [packed_succ, none_ n (by omega) (by omega), ih (by omega) fun i after inside => none_ i after (by omega)]
      simp

theorem packed_starts {i n : Nat} (before : i ≤ n) :
    ∃ rest, packed marked slot n = packed marked slot i ++ rest := by
  induction n with
  | zero =>
    have : i = 0 := by omega
    exact ⟨[], by rw [this, List.append_nil]⟩
  | succ n ih =>
    by_cases last : i = n + 1
    · exact ⟨[], by rw [last, List.append_nil]⟩
    · obtain ⟨rest, split_⟩ := ih (by omega)
      exact ⟨_, by rw [packed_succ, split_, List.append_assoc]⟩

theorem packed_add (marked : Nat → Bool) (slot : Nat → Vector α k) (a b : Nat) :
    packed marked slot (a + b) =
      packed marked slot a ++ packed (fun i => marked (a + i)) (fun i => slot (a + i)) b := by
  induction b with
  | zero => exact (List.append_nil _).symm
  | succ b ih => rw [← Nat.add_assoc, packed_succ, ih, packed_succ, List.append_assoc]

theorem slot_at_append (fill : α) (front rest : List α) (content : Vector α k) :
    slotAt k fill (front ++ content.toList ++ rest) front.length = content := by
  apply Vector.ext
  intro j inside
  unfold slotAt
  rw [Vector.getElem_ofFn, List.append_assoc, List.getD_append_right _ _ _ _ (by omega),
    Nat.add_sub_cancel_left, List.getD_append _ _ _ _ (by simpa using inside)]
  simp [List.getD, inside]

/-- A marked slot is read back from behind the marked slots before it. -/
theorem slot_packed (fill : α) {i n : Nat} (inside : i < n) (isMarked : marked i = true) :
    slotAt k fill (packed marked slot n) (k * rank marked i) = slot i := by
  obtain ⟨rest, split_⟩ := @packed_starts α k marked slot (i + 1) n inside
  rw [split_, packed_succ, isMarked, if_pos rfl, ← packed_length marked slot i]
  exact slot_at_append fill _ rest (slot i)

end PackedSlots
