import Mathlib.Data.List.Nodup
import Mathlib.Logic.Function.Basic

/-!
Circular lists threaded through a forward and a backward pointer of each node.
The head is a node as well, and a node that is on no list points at itself.
-/
namespace LinkedRing
variable {N : Type*}

structure Links (N : Type*) where
  next : N → N
  prev : N → N

section links
variable [DecidableEq N]

def initListHead (r : Links N) (x : N) : Links N where
  next := Function.update r.next x x
  prev := Function.update r.prev x x

def listEmpty (r : Links N) (x : N) : Bool := r.next x = x

/-- `x` goes between the head and the node behind it. -/
def listAdd (r : Links N) (x head : N) : Links N where
  next := Function.update (Function.update r.next x (r.next head)) head x
  prev := Function.update (Function.update r.prev (r.next head) x) x head

/-- The neighbours of `x` are joined, and `x` points at itself. -/
def listDelInit (r : Links N) (x : N) : Links N where
  next := Function.update (Function.update r.next (r.prev x) (r.next x)) x x
  prev := Function.update (Function.update r.prev (r.next x) (r.prev x)) x x

/-- The nodes from `x` to the head, where it takes no more than so many steps. -/
def walk (r : Links N) (head : N) : Nat → N → Option (List N)
  | 0, _ => none
  | fuel + 1, x => if x = head then some [] else (walk r head fuel (r.next x)).map (x :: ·)

end links

/-- From `a` over these nodes to `z`, linked both ways. -/
def Linked (r : Links N) : N → List N → N → Prop
  | a, [], z => r.next a = z ∧ r.prev z = a
  | a, x :: rest, z => (r.next a = x ∧ r.prev x = a) ∧ Linked r x rest z

structure Ring (r : Links N) (head : N) (nodes : List N) : Prop where
  linked : Linked r head nodes head
  distinct : (head :: nodes).Nodup

section walk
variable [DecidableEq N] {r : Links N} {head : N}

theorem walk_linked {a : N} {nodes : List N} (linked : Linked r a nodes head)
    (apart : head ∉ nodes) : walk r head (nodes.length + 1) (r.next a) = some nodes := by
  induction nodes generalizing a with
  | nil => simp only [walk, linked.1, List.length_nil, if_true]
  | cons x rest ih =>
    obtain ⟨⟨next, _⟩, later⟩ := linked
    have other : x ≠ head := fun same => apart (same ▸ List.mem_cons_self)
    rw [next, List.length_cons, walk, if_neg other,
      ih later (fun member => apart (List.mem_cons_of_mem _ member))]
    rfl

/-- A node that points at itself is never left. -/
theorem walk_stuck {x : N} (self : r.next x = x) (other : x ≠ head) (fuel : Nat) :
    walk r head fuel x = none := by
  induction fuel with
  | zero => rfl
  | succ fuel ih => rw [walk, if_neg other, self, ih, Option.map_none]

end walk

section linked
variable {r r' : Links N} {a x z : N} {nodes before behind : List N}

theorem linked_frame (linked : Linked r a nodes z)
    (next : ∀ y ∈ a :: nodes, r'.next y = r.next y)
    (prev : ∀ y ∈ nodes ++ [z], r'.prev y = r.prev y) : Linked r' a nodes z := by
  induction nodes generalizing a with
  | nil => exact ⟨(next a List.mem_cons_self).trans linked.1,
      (prev z List.mem_cons_self).trans linked.2⟩
  | cons x rest ih =>
    obtain ⟨⟨forward, backward⟩, later⟩ := linked
    constructor
    · exact ⟨(next a List.mem_cons_self).trans forward,
        (prev x List.mem_cons_self).trans backward⟩
    · apply ih later
      · intro y member
        exact next y (List.mem_cons_of_mem _ member)
      · intro y member
        exact prev y (List.mem_cons_of_mem _ member)

theorem linked_split : Linked r a (before ++ x :: behind) z ↔
    Linked r a before x ∧ Linked r x behind z := by
  induction before generalizing a with
  | nil => exact Iff.rfl
  | cons y rest ih => rw [List.cons_append, Linked, ih, Linked, and_assoc, and_assoc, and_assoc]

theorem linked_next (linked : Linked r a nodes z) : r.next a ∈ nodes ++ [z] := by
  cases nodes with
  | nil => exact linked.1 ▸ List.mem_cons_self
  | cons x rest => exact linked.1.1 ▸ List.mem_cons_self

theorem linked_prev (linked : Linked r a nodes z) : r.prev z ∈ a :: nodes := by
  induction nodes generalizing a with
  | nil => exact linked.2 ▸ List.mem_cons_self
  | cons x rest ih => exact List.mem_cons_of_mem _ (ih linked.2)

end linked

section ring
variable {r : Links N} {head x : N} {nodes : List N}

theorem ring_initial (self : r.next head = head ∧ r.prev head = head) : Ring r head [] :=
  ⟨self, List.nodup_singleton head⟩

/-- A node on the list does not point at itself. -/
theorem ring_listed (ring : Ring r head nodes) (member : x ∈ nodes) : r.next x ≠ x := by
  obtain ⟨before, behind, rfl⟩ := List.append_of_mem member
  have after := linked_next (linked_split.mp ring.linked).2
  have distinct := ring.distinct
  intro self
  rw [self, List.mem_append, List.mem_singleton] at after
  simp only [List.nodup_cons, List.nodup_append, List.mem_append, List.mem_cons] at distinct
  rcases after with later | front
  · exact distinct.2.2.1.1 later
  · exact distinct.1 (Or.inr (Or.inl front.symm))

section links
variable [DecidableEq N]

theorem ring_walk (ring : Ring r head nodes) :
    walk r head (nodes.length + 1) (r.next head) = some nodes :=
  walk_linked ring.linked (List.nodup_cons.mp ring.distinct).1

theorem ring_add (ring : Ring r head nodes) (off : x ∉ head :: nodes) :
    Ring (listAdd r x head) head (x :: nodes) := by
  have apart : x ≠ head := fun same => off (same ▸ List.mem_cons_self)
  obtain ⟨linked, distinct⟩ := ring
  constructor
  · constructor
    · constructor
      · exact Function.update_self ..
      · exact Function.update_self ..
    · cases nodes with
      | nil =>
        constructor
        · simp only [listAdd, Function.update_of_ne apart, Function.update_self]
          exact linked.1
        · simp only [listAdd, Function.update_of_ne apart.symm, linked.1, Function.update_self]
      | cons y rest =>
        obtain ⟨⟨forward, backward⟩, later⟩ := linked
        simp only [List.nodup_cons, List.mem_cons, not_or] at distinct off
        constructor
        · constructor
          · simp only [listAdd, Function.update_of_ne apart, Function.update_self, forward]
          · simp only [listAdd, Function.update_of_ne (Ne.symm off.2.1), forward,
              Function.update_self]
        · apply linked_frame later
          · intro z member
            have front : z ≠ head := by
              rcases List.mem_cons.mp member with rfl | inside
              · exact Ne.symm distinct.1.1
              · exact fun same => distinct.1.2 (same ▸ inside)
            have other : z ≠ x := by
              rcases List.mem_cons.mp member with rfl | inside
              · exact Ne.symm off.2.1
              · exact fun same => off.2.2 (same ▸ inside)
            simp only [listAdd, Function.update_of_ne front, Function.update_of_ne other]
          · intro z member
            have first : z ≠ y := by
              rcases List.mem_append.mp member with inside | last
              · exact fun same => distinct.2.1 (same ▸ inside)
              · exact fun same => distinct.1.1 ((List.mem_singleton.mp last).symm.trans same)
            have other : z ≠ x := by
              rcases List.mem_append.mp member with inside | last
              · exact fun same => off.2.2 (same ▸ inside)
              · exact fun same => off.1 (same.symm.trans (List.mem_singleton.mp last))
            simp only [listAdd, forward, Function.update_of_ne first, Function.update_of_ne other]
  · rw [List.nodup_cons, List.nodup_cons] at *
    simp only [List.mem_cons, not_or] at *
    exact ⟨⟨apart.symm, distinct.1⟩, off.2, distinct.2⟩

theorem linked_del {a z : N} {before behind : List N} (linked : Linked r a (before ++ x :: behind) z)
    (distinct : (a :: (before ++ x :: behind)).Nodup) (last : z ∉ before ++ x :: behind) :
    Linked (listDelInit r x) a (before ++ behind) z := by
  have other : z ≠ x := fun same => last (same ▸ List.mem_append_right _ List.mem_cons_self)
  induction before generalizing a with
  | nil =>
    obtain ⟨⟨forward, backward⟩, later⟩ := linked
    simp only [List.nil_append, List.nodup_cons, List.mem_cons, not_or] at distinct last ⊢
    cases behind with
    | nil =>
      constructor
      · simp only [listDelInit, Function.update_of_ne distinct.1.1, backward, later.1,
          Function.update_self]
      · simp only [listDelInit, Function.update_of_ne other, backward, later.1,
          Function.update_self]
    | cons y rest =>
      obtain ⟨⟨after, _⟩, later⟩ := later
      simp only [List.nodup_cons, List.mem_cons, not_or] at distinct last
      constructor
      · constructor
        · simp only [listDelInit, Function.update_of_ne distinct.1.1, backward, after,
            Function.update_self]
        · simp only [listDelInit, Function.update_of_ne (Ne.symm distinct.2.1.1), backward, after,
            Function.update_self]
      · apply linked_frame later
        · intro w member
          have inner : w ≠ x ∧ w ≠ a := by
            rcases List.mem_cons.mp member with rfl | inside
            · exact ⟨Ne.symm distinct.2.1.1, Ne.symm distinct.1.2.1⟩
            · exact ⟨fun same => distinct.2.1.2 (same ▸ inside),
                fun same => distinct.1.2.2 (same ▸ inside)⟩
          simp only [listDelInit, backward, Function.update_of_ne inner.1,
            Function.update_of_ne inner.2]
        · intro w member
          have inner : w ≠ x ∧ w ≠ y := by
            rcases List.mem_append.mp member with inside | final
            · exact ⟨fun same => distinct.2.1.2 (same ▸ inside),
                fun same => distinct.2.2.1 (same ▸ inside)⟩
            · rw [List.mem_singleton.mp final]
              exact ⟨other, last.2.1⟩
          simp only [listDelInit, after, Function.update_of_ne inner.1,
            Function.update_of_ne inner.2]
  | cons b rest ih =>
    obtain ⟨⟨forward, backward⟩, later⟩ := linked
    have halves := linked_split.mp later
    have near := linked_prev halves.1
    have far := linked_next halves.2
    simp only [List.cons_append, List.nodup_cons, List.mem_cons, List.mem_append, not_or] at distinct
    have outer : a ≠ r.prev x := by
      rintro rfl
      rcases List.mem_cons.mp near with same | inside
      · exact distinct.1.1 same
      · exact distinct.1.2.1 inside
    have inner : b ≠ r.next x := by
      intro same
      rw [← same] at far
      rcases List.mem_append.mp far with inside | final
      · exact distinct.2.1.2.2 inside
      · exact last (List.mem_singleton.mp final ▸ List.mem_cons_self)
    constructor
    · constructor
      · simp only [listDelInit, Function.update_of_ne distinct.1.2.2.1, Function.update_of_ne outer]
        exact forward
      · simp only [listDelInit, Function.update_of_ne distinct.2.1.2.1, Function.update_of_ne inner]
        exact backward
    · apply ih later
      · simp only [List.nodup_cons, List.mem_cons, List.mem_append, not_or]
        exact distinct.2
      · exact fun inside => last (List.mem_cons_of_mem _ inside)

theorem ring_del (ring : Ring r head nodes) (member : x ∈ nodes) :
    Ring (listDelInit r x) head (nodes.filter (· ≠ x)) := by
  obtain ⟨before, behind, rfl⟩ := List.append_of_mem member
  obtain ⟨linked, distinct⟩ := ring
  have apart := List.nodup_cons.mp distinct
  have inner := List.nodup_append.mp apart.2
  have first : before.filter (· ≠ x) = before := by
    apply List.filter_eq_self.mpr
    intro y inside
    exact decide_eq_true (inner.2.2 y inside x List.mem_cons_self)
  have later : behind.filter (· ≠ x) = behind := by
    apply List.filter_eq_self.mpr
    intro y inside
    apply decide_eq_true
    exact fun same => (List.nodup_cons.mp inner.2.1).1 (same ▸ inside)
  constructor
  · rw [List.filter_append, first, List.filter_cons_of_neg (by simp), later]
    exact linked_del linked distinct apart.1
  · apply List.nodup_cons.mpr
    exact ⟨fun inside => apart.1 (List.mem_of_mem_filter inside), apart.2.filter _⟩

theorem del_self : (listDelInit r x).next x = x ∧ (listDelInit r x).prev x = x :=
  ⟨Function.update_self .., Function.update_self ..⟩

/-- To take off a node that is on no list changes nothing. -/
theorem del_alone (next : r.next x = x) (prev : r.prev x = x) : listDelInit r x = r := by
  rw [listDelInit, next, prev, Function.update_idem, Function.update_idem,
    Function.update_eq_self_iff.mpr next.symm, Function.update_eq_self_iff.mpr prev.symm]

theorem del_off {y : N} (ring : Ring r head nodes) (member : x ∈ nodes) (off : y ∉ head :: nodes) :
    (listDelInit r x).next y = r.next y ∧ (listDelInit r x).prev y = r.prev y := by
  obtain ⟨before, behind, rfl⟩ := List.append_of_mem member
  have halves := linked_split.mp ring.linked
  have near := linked_prev halves.1
  have far := linked_next halves.2
  simp only [List.mem_cons, List.mem_append, not_or, List.not_mem_nil, or_false] at off near far
  have before_ : y ≠ r.prev x := by
    rintro rfl
    rcases near with same | inside
    · exact off.1 same
    · exact off.2.1 inside
  have behind_ : y ≠ r.next x := by
    rintro rfl
    rcases far with inside | same
    · exact off.2.2.2 inside
    · exact off.1 same
  constructor
  · simp only [listDelInit, Function.update_of_ne off.2.2.1, Function.update_of_ne before_]
  · simp only [listDelInit, Function.update_of_ne off.2.2.1, Function.update_of_ne behind_]

theorem add_off {y : N} (ring : Ring r head nodes) (off : y ∉ head :: nodes) (other : y ≠ x) :
    (listAdd r x head).next y = r.next y ∧ (listAdd r x head).prev y = r.prev y := by
  have first := linked_next ring.linked
  simp only [List.mem_cons, List.mem_append, not_or, List.not_mem_nil, or_false] at off first
  have behind : y ≠ r.next head := by
    rintro rfl
    rcases first with inside | same
    · exact off.2 inside
    · exact off.1 same
  constructor
  · simp only [listAdd, Function.update_of_ne off.1, Function.update_of_ne other]
  · simp only [listAdd, Function.update_of_ne behind, Function.update_of_ne other]

theorem ring_init (ring : Ring r head nodes) (off : x ∉ head :: nodes) :
    Ring (initListHead r x) head nodes := by
  refine ⟨?_, ring.distinct⟩
  apply linked_frame ring.linked
  · intro y member
    have other : y ≠ x := fun same => off (same ▸ member)
    exact Function.update_of_ne other ..
  · intro y member
    have inside : y ∈ head :: nodes := by
      rcases List.mem_append.mp member with inside | last
      · exact List.mem_cons_of_mem _ inside
      · exact List.mem_singleton.mp last ▸ List.mem_cons_self
    have other : y ≠ x := fun same => off (same ▸ inside)
    exact Function.update_of_ne other ..

end links

end ring

end LinkedRing
