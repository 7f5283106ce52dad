import Mathlib

/-!
The largest values of a list, in descending order and with multiplicity, as an insertion
into a list of fixed length finds them.
-/
namespace LargestValues
variable {α : Type*} [LinearOrder α] {k : Nat} {a b : α} {l l' : List α}

def largest (k : Nat) (l : List α) : List α := (l.insertionSort (· ≥ ·)).take k

/-- Insertion in descending order, with only k values kept. -/
def keep (k : Nat) (a : α) (l : List α) : List α := (l.orderedInsert (· ≥ ·) a).take k

/-- What stands behind the first k values is never among the first k again. -/
theorem keep_take : keep k a (l.take k) = keep k a l := by
  induction l generalizing k with
  | nil => rw [List.take_nil]
  | cons b l ih =>
    cases k with
    | zero => rfl
    | succ k =>
      rw [keep, keep, List.take_succ_cons, List.orderedInsert_cons, List.orderedInsert_cons]
      split
      · rw [List.take_succ_cons, List.take_succ_cons]
        cases k with
        | zero => rfl
        | succ k => rw [List.take_succ_cons, List.take_succ_cons, List.take_take,
            Nat.min_eq_left (Nat.le_succ k)]
      · rw [List.take_succ_cons, List.take_succ_cons]
        exact congrArg (b :: ·) ih

theorem largest_cons : largest k (a :: l) = keep k a (largest k l) := by
  rw [largest, largest, keep_take]
  rfl

theorem largest_perm (perm : l.Perm l') : largest k l = largest k l' := by
  rw [largest, largest]
  refine congrArg (List.take k) (List.Perm.eq_of_pairwise' (List.pairwise_insertionSort _ l)
    (List.pairwise_insertionSort _ l') ?_)
  exact ((List.perm_insertionSort _ l).trans perm).trans (List.perm_insertionSort _ l').symm

theorem largest_sorted (k : Nat) (l : List α) : (largest k l).Pairwise (· ≥ ·) :=
  (List.pairwise_insertionSort _ l).sublist (List.take_sublist _ _)

theorem largest_length (enough : k ≤ l.length) : (largest k l).length = k := by
  rw [largest, List.length_take, List.length_insertionSort]
  omega

theorem largest_replicate (k : Nat) (z : α) : largest k (List.replicate k z) = List.replicate k z := by
  have sorted : (List.replicate k z).Pairwise (· ≥ ·) := List.pairwise_replicate.mpr (Or.inr le_rfl)
  rw [largest, List.Pairwise.insertionSort_eq sorted, List.take_of_length_le]
  rw [List.length_replicate]

/-- Values that are not larger than any other do not count as long as there are enough. -/
theorem largest_padded {z : α} {m : Nat} (least : ∀ x ∈ l, z ≤ x) (enough : k ≤ l.length) :
    largest k (l ++ List.replicate m z) = largest k l := by
  have sorted : (l.insertionSort (· ≥ ·) ++ List.replicate m z).Pairwise (· ≥ ·) := by
    refine List.pairwise_append.mpr ⟨List.pairwise_insertionSort _ l,
      List.pairwise_replicate.mpr (Or.inr le_rfl), ?_⟩
    intro x member y last
    rw [List.eq_of_mem_replicate last]
    exact least x ((List.mem_insertionSort _).mp member)
  have same : (l ++ List.replicate m z).insertionSort (· ≥ ·) =
      l.insertionSort (· ≥ ·) ++ List.replicate m z := by
    refine List.Perm.eq_of_pairwise' (List.pairwise_insertionSort _ _) sorted ?_
    exact (List.perm_insertionSort _ _).trans ((List.perm_insertionSort _ l).symm.append_right _)
  rw [largest, same, List.take_append_of_le_length]
  · rfl
  · rw [List.length_insertionSort]
    exact enough

/-- The place of a value in a list is in front of the first that is not larger. -/
theorem insert_at {pos : Nat} (before : ∀ x ∈ l.take pos, a < x) (stop : ∀ x ∈ l[pos]?, x ≤ a) :
    l.orderedInsert (· ≥ ·) a = l.take pos ++ a :: l.drop pos := by
  induction l generalizing pos with
  | nil => rw [List.take_nil, List.drop_nil]; rfl
  | cons b l ih =>
    cases pos with
    | zero =>
      have first : a ≥ b := stop b rfl
      rw [List.orderedInsert_cons, if_pos first]
      rfl
    | succ pos =>
      have larger : a < b := before b List.mem_cons_self
      rw [List.orderedInsert_cons, if_neg (not_le.mpr larger)]
      refine congrArg (b :: ·) (ih ?_ ?_)
      · exact fun x member => before x (List.mem_cons_of_mem _ member)
      · exact stop

/-- A value that is not larger than any of the k values does not change them. -/
theorem keep_least (sorted : l.Pairwise (· ≥ ·)) (least : ∀ x ∈ l, a ≤ x) :
    keep l.length a l = l := by
  induction l with
  | nil => rfl
  | cons b l ih =>
    obtain ⟨first, rest⟩ := List.pairwise_cons.mp sorted
    rw [keep, List.orderedInsert_cons, List.length_cons]
    split
    case isTrue reached =>
      have same : a = b := le_antisymm (least b List.mem_cons_self) reached
      have all : ∀ x ∈ b :: l, x = a := by
        intro x member
        rcases List.mem_cons.mp member with rfl | later
        · exact same.symm
        · exact le_antisymm (same ▸ first x later) (least x member)
      have equal : b :: l = List.replicate (l.length + 1) a := List.eq_replicate_iff.mpr ⟨rfl, all⟩
      rw [List.take_succ_cons, equal, List.take_replicate, Nat.min_eq_left (Nat.le_succ _)]
      rfl
    case isFalse =>
      rw [List.take_succ_cons]
      exact congrArg (b :: ·) (ih rest fun x member => least x (List.mem_cons_of_mem _ member))

/-- At least k values are as large as the least of the k largest. -/
theorem largest_survive (enough : k ≤ l.length) (least : ∀ x ∈ largest k l, b ≤ x) :
    k ≤ (l.filter fun x => decide (b ≤ x)).length := by
  have sub : (largest k l).Subperm l :=
    (List.take_sublist _ _).subperm.trans (List.perm_insertionSort _ l).subperm
  have kept : (largest k l).filter (fun x => decide (b ≤ x)) = largest k l :=
    List.filter_eq_self.mpr fun x member => decide_eq_true (least x member)
  have fewer := (sub.filter fun x => decide (b ≤ x)).length_le
  rw [kept, largest_length enough] at fewer
  exact fewer

end LargestValues
