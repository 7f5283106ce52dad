import Dahdi.Library.CyclicCursor

/-!
A ring of slots of which a cyclic interval holds values and the others a blank: values
join at its end and leave at its front.
-/
namespace CyclicSlots
open CyclicCursor
variable {α : Type*} {size : Nat} {blank : α → Prop} {slots : Nat → α} {head count : Nat}

structure Window (size : Nat) (blank : α → Prop) (slots : Nat → α) (head count : Nat) : Prop where
  below : head < size
  room : count ≤ size
  filled : ∀ x ∈ walk size head count, ¬blank (slots x)
  spare : ∀ x, x < size → x ∉ walk size head count → blank (slots x)

/-- The values, oldest first. -/
def values (size : Nat) (slots : Nat → α) (head count : Nat) : List α :=
  (walk size head count).map slots

theorem values_congr {slots' : Nat → α} (same : ∀ x ∈ walk size head count, slots' x = slots x) :
    values size slots' head count = values size slots head count :=
  List.map_congr_left same

theorem walk_first (below : head < size) :
    walk size head (count + 1) = head :: walk size ((head + 1) % size) count := by
  rw [walk, Nat.mod_eq_of_lt below, walk_mod]

theorem window_none (window : Window size blank slots head 0) {x : Nat} (inside : x < size) :
    blank (slots x) :=
  window.spare x inside List.not_mem_nil

/-- Without values the interval may begin anywhere. -/
theorem window_moved (window : Window size blank slots head 0) {slots' : Nat → α} {head' : Nat}
    (below : head' < size) (blanks : ∀ x, x < size → blank (slots' x)) :
    Window size blank slots' head' 0 where
  below := below
  room := window.room
  filled := by
    intro x member
    exact absurd member List.not_mem_nil
  spare := by
    intro x inside _
    exact blanks x inside

/-- A slot where values can leave is one that holds some. -/
theorem window_some (window : Window size blank slots head count) (held : ¬blank (slots head)) :
    0 < count := by
  cases count with
  | zero => exact absurd (window_none window window.below) held
  | succ count => exact Nat.succ_pos count

theorem window_take (window : Window size blank slots head (count + 1)) {b : α} (empty : blank b) :
    Window size blank (Function.update slots head b) ((head + 1) % size) count ∧
      values size slots head (count + 1) =
        slots head :: values size (Function.update slots head b) ((head + 1) % size) count := by
  have below := window.below
  have room := window.room
  have first := @walk_first size head count below
  have once := @walk_nodup size head (count + 1) room
  rw [first, List.nodup_cons] at once
  have others : ∀ x ∈ walk size ((head + 1) % size) count, Function.update slots head b x = slots x := by
    intro x member
    apply Function.update_of_ne
    intro same
    rw [same] at member
    exact once.1 member
  constructor
  · constructor
    · exact Nat.mod_lt _ (by omega)
    · omega
    · intro x member
      rw [others x member]
      apply window.filled
      rw [first]
      exact List.mem_cons_of_mem _ member
    · intro x inside absent
      by_cases same : x = head
      · rw [same, Function.update_self]
        exact empty
      · rw [Function.update_of_ne same]
        apply window.spare x inside
        rw [first]
        exact List.not_mem_cons_of_ne_of_not_mem same absent
  · rw [values, first, List.map_cons, values_congr others]
    rfl

/-- The slot behind the interval is blank unless every slot holds a value. -/
theorem window_behind (window : Window size blank slots head count) :
    blank (slots ((head + count) % size)) ↔ count < size := by
  have below := window.below
  have room := window.room
  constructor
  · intro empty
    by_contra full
    have all : count = size := by omega
    rw [all, Nat.add_mod_right, Nat.mod_eq_of_lt below] at empty
    apply window.filled head _ empty
    obtain ⟨more, rfl⟩ : ∃ more, count = more + 1 := ⟨count - 1, by omega⟩
    rw [walk_first below]
    exact List.mem_cons_self
  · intro free
    apply window.spare _ (Nat.mod_lt _ (by omega))
    intro member
    obtain ⟨k, before, same⟩ := mem_walk.mp member
    exact slots_apart before (by omega) same

theorem window_put (window : Window size blank slots head count) (free : count < size) {v : α}
    (some : ¬blank v) :
    Window size blank (Function.update slots ((head + count) % size) v) head (count + 1) ∧
      values size (Function.update slots ((head + count) % size) v) head (count + 1) =
        values size slots head count ++ [v] := by
  have below := window.below
  have last := walk_snoc size head count
  have others : ∀ x ∈ walk size head count,
      Function.update slots ((head + count) % size) v x = slots x := by
    intro x member
    apply Function.update_of_ne
    intro same
    have held := window.filled x member
    rw [same] at held
    exact held ((window_behind window).mpr free)
  constructor
  · constructor
    · exact below
    · omega
    · intro x member
      rw [last, List.mem_append, List.mem_singleton] at member
      rcases member with old | new
      · rw [others x old]
        exact window.filled x old
      · rw [new, Function.update_self]
        exact some
    · intro x inside absent
      rw [last, List.mem_append, List.mem_singleton, not_or] at absent
      rw [Function.update_of_ne absent.2]
      exact window.spare x inside absent.1
  · rw [values, last, List.map_append, List.map_singleton, Function.update_self]
    exact congrArg (· ++ [v]) (List.map_congr_left others)

/-- The values are the slots that are not blank. -/
theorem values_perm (window : Window size blank slots head count) [∀ a, Decidable (blank a)] :
    ((List.range size).filter fun x => ¬blank (slots x)).Perm (walk size head count) := by
  have positive : 0 < size := Nat.lt_of_le_of_lt (Nat.zero_le head) window.below
  rw [List.perm_ext_iff_of_nodup (List.nodup_range.filter _) (walk_nodup window.room)]
  intro x
  simp only [List.mem_filter, List.mem_range, decide_not, Bool.not_eq_true', decide_eq_false_iff_not]
  constructor
  · intro ⟨inside, held⟩
    by_contra absent
    exact held (window.spare x inside absent)
  · intro member
    exact ⟨walk_below positive member, window.filled x member⟩

end CyclicSlots
