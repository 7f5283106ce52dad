import Mathlib

/-!
A queue with room for a number of whole blocks, and the block under way.
Elements come in one at a time and blocks leave whole. What comes in while
every place is taken is lost.
-/
namespace BlockQueue
variable {α : Type*} {slots size : Nat}

structure Queue (α : Type*) where
  blocks : List (List α)
  part : List α

def Full (slots : Nat) (q : Queue α) : Prop := slots ≤ q.blocks.length

instance (slots : Nat) (q : Queue α) : Decidable (Full slots q) :=
  inferInstanceAs (Decidable (slots ≤ q.blocks.length))

def arrive (slots size : Nat) (q : Queue α) (a : α) : Queue α :=
  if Full slots q then q
  else if q.part.length + 1 < size then { q with part := q.part ++ [a] }
  else ⟨q.blocks ++ [q.part ++ [a]], []⟩

def arriveAll (slots size : Nat) (q : Queue α) (as : List α) : Queue α :=
  as.foldl (arrive slots size) q

/-- The elements that find a place. -/
def kept (slots size : Nat) : Queue α → List α → List α
  | _, [] => []
  | q, a :: as =>
    (if Full slots q then [] else [a]) ++ kept slots size (arrive slots size q a) as

/-- Everything in the queue, oldest first. -/
def stream (q : Queue α) : List α := q.blocks.flatten ++ q.part

structure Shaped (slots size : Nat) (q : Queue α) : Prop where
  few : q.blocks.length ≤ slots
  whole : ∀ b ∈ q.blocks, b.length = size
  short : q.part.length < size
  idle : Full slots q → q.part = []

theorem arrive_full {q : Queue α} (full : Full slots q) (a : α) : arrive slots size q a = q := by
  rw [arrive, if_pos full]

theorem stream_arrive (q : Queue α) (a : α) :
    stream (arrive slots size q a) = stream q ++ if Full slots q then [] else [a] := by
  unfold arrive
  split
  · rw [List.append_nil]
  · split
    · simp only [stream, List.append_assoc]
    · simp only [stream, List.flatten_append, List.flatten_cons, List.flatten_nil, List.append_nil,
        List.append_assoc]

theorem stream_arrive_all (q : Queue α) (as : List α) :
    stream (arriveAll slots size q as) = stream q ++ kept slots size q as := by
  induction as generalizing q with
  | nil => rw [arriveAll, List.foldl_nil, kept, List.append_nil]
  | cons a as ih =>
    change stream (arriveAll slots size (arrive slots size q a) as) = _
    rw [ih, stream_arrive, kept, List.append_assoc]

theorem shaped_leave {b : List α} {rest : List (List α)} {part : List α}
    (shaped : Shaped slots size ⟨b :: rest, part⟩) :
    b.length = size ∧ Shaped slots size ⟨rest, part⟩ := by
  have few := shaped.few
  simp only [List.length_cons] at few
  refine ⟨shaped.whole b List.mem_cons_self, by simp only; omega, ?_, shaped.short, ?_⟩
  · intro b' later
    exact shaped.whole b' (List.mem_cons_of_mem _ later)
  · intro full
    unfold Full at full
    simp only at full
    omega

theorem arrive_all_append (q : Queue α) (as bs : List α) :
    arriveAll slots size q (as ++ bs) =
      arriveAll slots size (arriveAll slots size q as) bs :=
  List.foldl_append

theorem arrive_all_full {q : Queue α} (full : Full slots q) (as : List α) :
    arriveAll slots size q as = q := by
  induction as with
  | nil => rfl
  | cons a as ih =>
    change arriveAll slots size (arrive slots size q a) as = q
    rw [arrive_full full, ih]

/-- Blocks in the queue stay, and in their order. -/
theorem arrive_all_extends (q : Queue α) (as : List α) :
    q.blocks <+: (arriveAll slots size q as).blocks := by
  induction as generalizing q with
  | nil => exact List.prefix_rfl
  | cons a as ih =>
    have first : q.blocks <+: (arrive slots size q a).blocks := by
      unfold arrive
      split
      · exact List.prefix_rfl
      · split
        · exact List.prefix_rfl
        · exact List.prefix_append _ _
    exact first.trans (ih _)

/-- Elements that do not finish the block under way. -/
theorem arrive_all_within {q : Queue α} (room : ¬ Full slots q) {as : List α}
    (short : q.part.length + as.length < size) :
    arriveAll slots size q as = { q with part := q.part ++ as } := by
  induction as generalizing q with
  | nil => rw [List.append_nil]; rfl
  | cons a as ih =>
    simp only [List.length_cons] at short
    change arriveAll slots size (arrive slots size q a) as = _
    have first : arrive slots size q a = { q with part := q.part ++ [a] } := by
      rw [arrive, if_neg room, if_pos (by omega)]
    have room' : ¬ Full slots { q with part := q.part ++ [a] } := room
    rw [first, ih room' (by simp only [List.length_append, List.length_singleton]; omega),
      List.append_assoc, List.singleton_append]

/-- Elements that just finish the block under way. -/
theorem arrive_all_block {q : Queue α} (room : ¬ Full slots q) {as : List α} (some : as ≠ [])
    (exact_ : q.part.length + as.length = size) :
    arriveAll slots size q as = ⟨q.blocks ++ [q.part ++ as], []⟩ := by
  obtain ⟨front, a, rfl⟩ := List.eq_nil_or_concat as |>.resolve_left some
  simp only [List.concat_eq_append, List.length_append, List.length_singleton] at exact_ ⊢
  rw [arrive_all_append, arrive_all_within room (by omega)]
  have room' : ¬ Full slots { q with part := q.part ++ front } := room
  change arrive slots size { q with part := q.part ++ front } a = _
  rw [arrive, if_neg room', if_neg (by simp only [List.length_append]; omega), List.append_assoc]

end BlockQueue
