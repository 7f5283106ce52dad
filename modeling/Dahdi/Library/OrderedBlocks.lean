import Mathlib

/-!
Lists of blocks of numbers in the order of both a key and the blocks: insertion
by the key, and the search for the block of a number that stops at the first
gap it falls into.
-/
namespace OrderedBlocks
variable {α : Type*} (key lo hi : α → Int)

def Before (a b : α) : Prop := key a < key b ∧ hi a ≤ lo b

def Ordered (l : List α) : Prop := l.Pairwise (Before key lo hi)

/-- Before the first element with a larger key. -/
def insertByKey (x : α) : List α → List α
  | [] => [x]
  | a :: rest => if key x < key a then x :: a :: rest else a :: insertByKey x rest

def findBlock (n : Int) : List α → Option α
  | [] => none
  | a :: rest => if hi a ≤ n then findBlock n rest else if n < lo a then none else some a

section Insertion
variable {key lo hi}

theorem before_trans {a b c : α} (block : lo b ≤ hi b) (first : Before key lo hi a b)
    (second : Before key lo hi b c) : Before key lo hi a c := by
  obtain ⟨small, left⟩ := first
  obtain ⟨large, right⟩ := second
  constructor
  · omega
  · omega

theorem mem_insert {x y : α} {l : List α} :
    y ∈ insertByKey key x l ↔ y = x ∨ y ∈ l := by
  induction l with
  | nil => simp [insertByKey]
  | cons a rest ih =>
    unfold insertByKey
    split
    · simp
    · simp only [List.mem_cons, ih]
      constructor
      · rintro (here | there | later)
        · exact Or.inr (Or.inl here)
        · exact Or.inl there
        · exact Or.inr (Or.inr later)
      · rintro (here | there | later)
        · exact Or.inr (Or.inl here)
        · exact Or.inl there
        · exact Or.inr (Or.inr later)

/-- An element joins an ordered list in order just when it lies beside every
    element of the list. -/
theorem ordered_insert_iff {x : α} {l : List α} (blocks : ∀ a ∈ l, lo a ≤ hi a)
    (ordered : Ordered key lo hi l) : Ordered key lo hi (insertByKey key x l) ↔
      ∀ a ∈ l, Before key lo hi a x ∨ Before key lo hi x a := by
  induction l with
  | nil => simp [insertByKey, Ordered]
  | cons a rest ih =>
    obtain ⟨first, others⟩ := List.pairwise_cons.mp ordered
    have block := blocks a List.mem_cons_self
    have inner := ih (fun b member => blocks b (List.mem_cons_of_mem a member)) others
    unfold insertByKey
    split
    · rename_i smaller
      constructor
      · intro after b member
        exact Or.inr ((List.pairwise_cons.mp after).1 b member)
      · intro beside
        refine List.pairwise_cons.mpr ⟨?_, ordered⟩
        have next : Before key lo hi x a := by
          rcases beside a List.mem_cons_self with below | above
          · have := below.1
            omega
          · exact above
        intro b member
        rcases List.mem_cons.mp member with rfl | later
        · exact next
        · exact before_trans block next (first b later)
    · rename_i larger
      constructor
      · intro after b member
        obtain ⟨ahead, tail⟩ := List.pairwise_cons.mp after
        rcases List.mem_cons.mp member with rfl | later
        · exact Or.inl (ahead x (mem_insert.mpr (Or.inl rfl)))
        · exact inner.mp tail b later
      · intro beside
        refine List.pairwise_cons.mpr ⟨?_, ?_⟩
        · intro b member
          rcases mem_insert.mp member with rfl | later
          · rcases beside a List.mem_cons_self with below | above
            · exact below
            · have := above.1
              omega
          · exact first b later
        · exact inner.mpr fun b member => beside b (List.mem_cons_of_mem a member)

theorem ordered_filter {l : List α} (keep : α → Bool) (ordered : Ordered key lo hi l) :
    Ordered key lo hi (l.filter keep) :=
  ordered.sublist List.filter_sublist

end Insertion

section Search
variable {key lo hi}

theorem find_block_iff {l : List α} {n : Int} {a : α} (blocks : ∀ b ∈ l, lo b ≤ hi b)
    (ordered : Ordered key lo hi l) :
    findBlock lo hi n l = some a ↔ a ∈ l ∧ lo a ≤ n ∧ n < hi a := by
  induction l with
  | nil => simp [findBlock]
  | cons b rest ih =>
    obtain ⟨first, others⟩ := List.pairwise_cons.mp ordered
    have block := blocks b List.mem_cons_self
    have inner := ih (fun c member => blocks c (List.mem_cons_of_mem b member)) others
    have later : a ∈ rest → hi b ≤ lo a := fun member => (first a member).2
    unfold findBlock
    split
    · rw [inner, List.mem_cons]
      constructor
      · rintro ⟨member, inside⟩
        exact ⟨Or.inr member, inside⟩
      · rintro ⟨rfl | member, low, high⟩
        · omega
        · exact ⟨member, low, high⟩
    · split
      · simp only [reduceCtorEq, List.mem_cons, false_iff, not_and]
        rintro (rfl | member) low high
        · omega
        · have := later member
          omega
      · simp only [Option.some.injEq, List.mem_cons]
        constructor
        · rintro rfl
          exact ⟨Or.inl rfl, by omega, by omega⟩
        · rintro ⟨rfl | member, low, high⟩
          · rfl
          · have := later member
            omega

end Search

end OrderedBlocks
