import Mathlib

/-!
A message cut into pieces of bounded length of which the last one is marked, and a
queue of messages sent piece by piece.
-/
namespace MarkedPieces
variable {α : Type*} {most : Nat}

structure Piece (α : Type*) where
  data : List α
  last : Bool
  deriving DecidableEq, Repr

/-- The pieces of a message, each as long as it may be. -/
def cut (most : Nat) (message : List α) : List (Piece α) :=
  if message.length ≤ most ∨ most = 0 then [⟨message, true⟩]
  else ⟨message.take most, false⟩ :: cut most (message.drop most)
termination_by message.length
decreasing_by
  simp only [List.length_drop]
  omega

theorem cut_short {message : List α} (short : message.length ≤ most) :
    cut most message = [⟨message, true⟩] := by
  rw [cut, if_pos (Or.inl short)]

theorem cut_long {message : List α} (positive : 0 < most) (long : most < message.length) :
    cut most message = ⟨message.take most, false⟩ :: cut most (message.drop most) := by
  rw [cut, if_neg (by omega)]

/-- What cutting a message means. -/
structure CutOf (most : Nat) (message : List α) (pieces : List (Piece α)) : Prop where
  whole : pieces.flatMap Piece.data = message
  small : ∀ p ∈ pieces, 1 ≤ p.data.length ∧ p.data.length ≤ most
  marked : ∃ before final, pieces = before ++ [final] ∧ final.last = true ∧ ∀ p ∈ before, p.last = false

theorem cut_of_cut (positive : 0 < most) {message : List α} (some : message ≠ []) :
    CutOf most message (cut most message) := by
  have filled := List.length_pos_of_ne_nil some
  induction size : message.length using Nat.strongRecOn generalizing message with
  | ind size ih =>
    by_cases short : message.length ≤ most
    · rw [cut_short short]
      constructor
      · simp only [List.flatMap_cons, List.flatMap_nil, List.append_nil]
      · intro p member
        simp only [List.mem_singleton] at member
        subst member
        exact ⟨filled, short⟩
      · exact ⟨[], _, rfl, rfl, by simp only [List.not_mem_nil, false_implies, implies_true]⟩
    · have left : 0 < (message.drop most).length := by
        simp only [List.length_drop]
        omega
      have rest := ih (message.drop most).length (by simp only [List.length_drop]; omega)
        (List.ne_nil_of_length_pos left) left rfl
      rw [cut_long positive (by omega)]
      constructor
      · simp only [List.flatMap_cons, rest.whole, List.take_append_drop]
      · intro p member
        rcases List.mem_cons.mp member with first | later
        · subst first
          simp only [List.length_take]
          omega
        · exact rest.small p later
      · obtain ⟨before, final, pieces, last, others⟩ := rest.marked
        refine ⟨⟨message.take most, false⟩ :: before, final, by rw [pieces]; rfl, last, ?_⟩
        intro p member
        rcases List.mem_cons.mp member with first | later
        · subst first
          rfl
        · exact others p later

/-- The pieces still to be sent when this much of the first message has been. -/
def unsent (most : Nat) : List (List α) → Nat → List (Piece α)
  | [], _ => []
  | first :: rest, done => cut most (first.drop done) ++ rest.flatMap (cut most)

theorem unsent_fresh (queue : List (List α)) : unsent most queue 0 = queue.flatMap (cut most) := by
  cases queue with
  | nil => rfl
  | cons first rest => simp only [unsent, List.drop_zero, List.flatMap_cons]

theorem unsent_append {queue : List (List α)} {done : Nat} (message : List α)
    (fresh : queue = [] → done = 0) :
    unsent most (queue ++ [message]) done = unsent most queue done ++ cut most message := by
  cases queue with
  | nil => simp [unsent, fresh]
  | cons first rest =>
    simp only [unsent, List.cons_append, List.flatMap_append, List.flatMap_cons, List.flatMap_nil,
      List.append_nil, List.append_assoc]

theorem unsent_last {first : List α} {rest : List (List α)} {done : Nat}
    (short : first.length - done ≤ most) :
    unsent most (first :: rest) done = ⟨first.drop done, true⟩ :: unsent most rest 0 := by
  have few : (first.drop done).length ≤ most := by
    simp only [List.length_drop]
    omega
  rw [unsent_fresh]
  simp only [unsent, cut_short few, List.singleton_append]

theorem unsent_more {first : List α} {rest : List (List α)} {done : Nat} (positive : 0 < most)
    (long : most < first.length - done) :
    unsent most (first :: rest) done =
      ⟨(first.drop done).take most, false⟩ :: unsent most (first :: rest) (done + most) := by
  have many : most < (first.drop done).length := by
    simp only [List.length_drop]
    omega
  simp only [unsent, cut_long positive many, List.drop_drop, List.cons_append]

theorem unsent_length (queue : List (List α)) (done : Nat) :
    queue.length ≤ (unsent most queue done).length := by
  have one : ∀ message : List α, 1 ≤ (cut most message).length := by
    intro message
    rw [cut]
    split <;> simp
  have all : ∀ rest : List (List α), rest.length ≤ (rest.flatMap (cut most)).length := by
    intro rest
    induction rest with
    | nil => exact Nat.zero_le _
    | cons first rest ih =>
      have here := one first
      simp only [List.flatMap_cons, List.length_append, List.length_cons]
      omega
  cases queue with
  | nil => exact Nat.zero_le _
  | cons first rest =>
    have here := one (first.drop done)
    have behind := all rest
    simp only [unsent, List.length_append, List.length_cons]
    omega

end MarkedPieces
