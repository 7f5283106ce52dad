import Mathlib

/-!
A source that gives blocks of one size, read item by item, and a sink that takes such
blocks, written item by item. Each goes through one block of its own.
-/
namespace BlockStream
variable {α M R : Type*} {size : Nat}

/-- A place in the block drawn last. At the block's end the next one is drawn. -/
structure Drawn (M : Type*) (α : Type*) (size : Nat) where
  source : M
  block : Vector α size
  pos : Nat

def refill (pull : M → M × Vector α size) (d : Drawn M α size) : Drawn M α size :=
  if d.pos = size then ⟨(pull d.source).1, (pull d.source).2, 0⟩ else d

def draw [Inhabited α] (pull : M → M × Vector α size) (d : Drawn M α size) : Drawn M α size × α :=
  let d := refill pull d
  ({ d with pos := d.pos + 1 }, d.block[d.pos]?.getD default)

def draws [Inhabited α] (pull : M → M × Vector α size) : Nat → Drawn M α size → Drawn M α size × List α
  | 0, d => (d, [])
  | n + 1, d =>
    let first := draw pull d
    let rest := draws pull n first.1
    (rest.1, first.2 :: rest.2)

/-- The source's next blocks. -/
def pulls (pull : M → M × Vector α size) : Nat → M → M × List (Vector α size)
  | 0, source => (source, [])
  | n + 1, source =>
    let first := pull source
    let rest := pulls pull n first.1
    (rest.1, first.2 :: rest.2)

/-- How far the block to hand over next has been filled. -/
structure Stored (R : Type*) (α : Type*) (size : Nat) where
  sink : R
  block : Vector α size
  pos : Nat

def store (push : R → Vector α size → R) (s : Stored R α size) (item : α) : Stored R α size :=
  let block := s.block.setIfInBounds s.pos item
  if s.pos + 1 = size then ⟨push s.sink block, block, 0⟩ else ⟨s.sink, block, s.pos + 1⟩

section source
variable [Inhabited α] {pull : M → M × Vector α size}

theorem draws_add (m n : Nat) (d : Drawn M α size) : draws pull (m + n) d =
    let first := draws pull m d
    let second := draws pull n first.1
    (second.1, first.2 ++ second.2) := by
  induction m generalizing d with
  | zero => rw [Nat.zero_add]; rfl
  | succ m ih =>
    rw [Nat.add_right_comm, draws, ih]
    rfl

theorem draws_within {n : Nat} {d : Drawn M α size} (inside : d.pos + n ≤ size) :
    draws pull n d =
      ({ d with pos := d.pos + n }, (d.block.toList.drop d.pos).take n) := by
  induction n generalizing d with
  | zero => rfl
  | succ n ih =>
    have short : d.pos < size := by omega
    have stays : refill pull d = d := if_neg (Nat.ne_of_lt short)
    have here : d.pos < d.block.toList.length := by rw [Vector.length_toList]; exact short
    have later : d.pos + 1 + n ≤ size := by omega
    have rest := @ih { d with pos := d.pos + 1 } later
    rw [draws, draw, stays, rest, List.drop_eq_getElem_cons here, List.take_succ_cons,
      Vector.getElem?_eq_getElem short, Option.getD_some, Vector.getElem_toList]
    simp only [Nat.add_right_comm, Nat.add_assoc]

/-- From a block's end on, one block's worth of items is the next block. -/
theorem draws_block {d : Drawn M α size} (positive : 0 < size) (done : d.pos = size) :
    draws pull size d =
      (⟨(pull d.source).1, (pull d.source).2, size⟩, (pull d.source).2.toList) := by
  obtain ⟨n, rfl⟩ : ∃ n, size = n + 1 := ⟨size - 1, by omega⟩
  have fresh : draws pull (n + 1) d =
      draws pull (n + 1) ⟨(pull d.source).1, (pull d.source).2, 0⟩ := by
    have again : refill pull d = refill pull ⟨(pull d.source).1, (pull d.source).2, 0⟩ := by
      rw [refill, if_pos done, refill, if_neg (Nat.zero_ne_add_one n)]
    rw [draws, draws, draw, draw, again]
  rw [fresh, draws_within (Nat.le_of_eq (Nat.zero_add _))]
  rw [List.drop_zero, List.take_of_length_le (Nat.le_of_eq (Vector.length_toList ..)), Nat.zero_add]

theorem draws_blocks {d : Drawn M α size} (positive : 0 < size) (done : d.pos = size) (n : Nat) :
    (draws pull (size * n) d).2 = (pulls pull n d.source).2.flatMap Vector.toList ∧
      (draws pull (size * n) d).1.source = (pulls pull n d.source).1 := by
  induction n generalizing d with
  | zero => exact ⟨rfl, rfl⟩
  | succ n ih =>
    rw [Nat.mul_succ, Nat.add_comm, draws_add, draws_block positive done]
    obtain ⟨items, source⟩ := @ih ⟨(pull d.source).1, (pull d.source).2, size⟩ rfl
    constructor
    · rw [pulls, List.flatMap_cons, ← items]
    · exact source

end source

section sink
variable {push : R → Vector α size → R}

/-- The block so far holds these items. -/
def Holds (s : Stored R α size) (items : List α) : Prop :=
  s.pos = items.length ∧ s.block.toList.take items.length = items

theorem holds_store {s : Stored R α size} {items : List α} (holds : Holds s items) {item : α}
    (short : items.length + 1 < size) : Holds (store push s item) (items ++ [item]) ∧
      (store push s item).sink = s.sink := by
  obtain ⟨place, same⟩ := holds
  rw [store, if_neg (by omega)]
  refine ⟨⟨?_, ?_⟩, rfl⟩
  · rw [List.length_append, List.length_singleton, place]
  · have inside : items.length < s.block.toList.length := by rw [Vector.length_toList]; omega
    rw [List.length_append, List.length_singleton, place, Vector.toList_setIfInBounds,
      List.take_add_one, List.take_set_of_le (Nat.le_refl _), same,
      List.getElem?_set_self inside]
    rfl

theorem holds_last {s : Stored R α size} {items : List α} (holds : Holds s items) {item : α}
    {block : Vector α size} (whole : block.toList = items ++ [item]) :
    store push s item = ⟨push s.sink block, block, 0⟩ := by
  obtain ⟨place, same⟩ := holds
  have length : items.length + 1 = size := by
    have all : block.toList.length = size := Vector.length_toList
    rw [whole, List.length_append, List.length_singleton] at all
    exact all
  have filled : s.block.setIfInBounds s.pos item = block := by
    apply Vector.toList_inj.mp
    have last : s.block.toList.length = items.length + 1 := by rw [Vector.length_toList, length]
    rw [Vector.toList_setIfInBounds, place, whole, List.set_eq_take_append_cons_drop, if_pos (by omega),
      same, List.drop_of_length_le (by omega)]
  rw [store, if_pos (by omega), filled]

theorem holds_stores {s : Stored R α size} {done items : List α} (holds : Holds s done)
    (short : done.length + items.length < size) :
    Holds (items.foldl (store push) s) (done ++ items) ∧
      (items.foldl (store push) s).sink = s.sink := by
  induction items generalizing s done with
  | nil =>
    rw [List.append_nil]
    exact ⟨holds, rfl⟩
  | cons item items ih =>
    rw [List.length_cons] at short
    obtain ⟨next, same⟩ := @holds_store _ _ _ push _ _ holds item (by omega)
    have longer : (done ++ [item]).length + items.length < size := by
      rw [List.length_append, List.length_singleton]
      omega
    obtain ⟨later, kept⟩ := ih next longer
    rw [List.append_assoc, List.singleton_append] at later
    exact ⟨later, kept.trans same⟩

/-- The items of one block, stored from its start on, hand over that block. -/
theorem stores_block {s : Stored R α size} (positive : 0 < size) (fresh : s.pos = 0)
    (block : Vector α size) :
    block.toList.foldl (store push) s = ⟨push s.sink block, block, 0⟩ := by
  have some : block.toList ≠ [] := by
    intro none
    rw [← List.length_eq_zero_iff, Vector.length_toList] at none
    omega
  have whole := List.dropLast_append_getLast some
  have short : block.toList.dropLast.length < size := by
    rw [List.length_dropLast, Vector.length_toList]
    omega
  obtain ⟨holds, same⟩ := @holds_stores _ _ _ push s [] block.toList.dropLast ⟨fresh, rfl⟩ (by
    rw [List.length_nil, Nat.zero_add]
    exact short)
  rw [← whole, List.foldl_append, List.foldl_cons, List.foldl_nil,
    holds_last holds whole.symm, same]

theorem stores_blocks {s : Stored R α size} (positive : 0 < size) (fresh : s.pos = 0)
    (blocks : List (Vector α size)) :
    ((blocks.flatMap Vector.toList).foldl (store push) s).sink = blocks.foldl push s.sink := by
  induction blocks generalizing s with
  | nil => rfl
  | cons block blocks ih =>
    rw [List.flatMap_cons, List.foldl_append, stores_block positive fresh, ih rfl, List.foldl_cons]

end sink

end BlockStream
