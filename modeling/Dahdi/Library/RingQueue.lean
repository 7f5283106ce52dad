import Dahdi.Library.CyclicCursor

/-!
A queue in a ring of slots, of which one stays free: it is empty where the two indices meet
and full where the next entry would make them meet. It is a list that takes no more than one
element less than the ring has slots and drops what comes after that.
-/
namespace RingQueue
open CyclicCursor
variable {α : Type*} {size : Nat}

structure Queue (α : Type*) where
  slots : Nat → α
  inn : Nat
  out : Nat

structure InRange (size : Nat) (r : Queue α) : Prop where
  inn : r.inn < size
  out : r.out < size

def bump (size idx : Nat) : Nat := if size ≤ idx + 1 then 0 else idx + 1

def Full (size : Nat) (r : Queue α) : Prop := r.out = 0 ∧ r.inn = size - 1 ∨ r.inn + 1 = r.out

instance (size : Nat) (r : Queue α) : Decidable (Full size r) := inferInstanceAs (Decidable (_ ∨ _))

def put (size : Nat) (r : Queue α) (a : α) : Queue α :=
  if Full size r then r else ⟨Function.update r.slots r.inn a, bump size r.inn, r.out⟩

def take (size : Nat) (r : Queue α) : Option α × Queue α :=
  if r.inn ≠ r.out then (some (r.slots r.out), { r with out := bump size r.out }) else (none, r)

def clear (r : Queue α) : Queue α := { r with inn := 0, out := 0 }

/-- What is in the queue, oldest first. -/
def contents (size : Nat) (r : Queue α) : List α :=
  (walk size r.out (gap size r.inn r.out)).map r.slots

theorem bump_mod {idx : Nat} (below : idx < size) : bump size idx = (idx + 1) % size := by
  rw [bump]
  split
  case isTrue last =>
    have whole : idx + 1 = size := by omega
    rw [whole, Nat.mod_self]
  case isFalse inner => exact (Nat.mod_eq_of_lt (by omega)).symm

theorem bump_below {idx : Nat} (below : idx < size) : bump size idx < size := by
  rw [bump_mod below]
  exact Nat.mod_lt _ (by omega)

section Step
variable {r : Queue α} {a : α}

theorem contents_length (r : Queue α) : (contents size r).length = gap size r.inn r.out := by
  rw [contents, List.length_map, walk_length]

theorem full_length (inside : InRange size r) : Full size r ↔ (contents size r).length = size - 1 := by
  obtain ⟨inn, out⟩ := inside
  rw [contents_length, gap, Full]
  split <;> omega

theorem contents_fits (inside : InRange size r) : (contents size r).length < size := by
  obtain ⟨inn, out⟩ := inside
  rw [contents_length, gap]
  split <;> omega

theorem put_inside (inside : InRange size r) : InRange size (put size r a) := by
  rw [put]
  split
  case isTrue => exact inside
  case isFalse => exact ⟨bump_below inside.inn, inside.out⟩

theorem take_inside (inside : InRange size r) : InRange size (take size r).2 := by
  rw [take]
  split
  case isTrue => exact ⟨inside.inn, bump_below inside.out⟩
  case isFalse => exact inside

theorem clear_inside (some_ : 0 < size) : InRange size (clear r) := ⟨some_, some_⟩

/-- The way from the oldest element ends at the slot filled next. -/
theorem gap_reaches (inside : InRange size r) : (r.out + gap size r.inn r.out) % size = r.inn := by
  obtain ⟨inn, out⟩ := inside
  rw [gap]
  split
  case isTrue ahead =>
    rw [Nat.add_sub_cancel' ahead]
    exact Nat.mod_eq_of_lt inn
  case isFalse behind =>
    have around : r.out + (size - r.out + r.inn) = size + r.inn := by omega
    rw [around, Nat.add_mod_left]
    exact Nat.mod_eq_of_lt inn

theorem gap_put (inside : InRange size r) (room : ¬ Full size r) :
    gap size (bump size r.inn) r.out = gap size r.inn r.out + 1 := by
  obtain ⟨inn, out⟩ := inside
  rw [Full] at room
  unfold gap bump
  split <;> split <;> split <;> omega

theorem gap_take (inside : InRange size r) (some_ : r.inn ≠ r.out) :
    gap size r.inn r.out = gap size r.inn (bump size r.out) + 1 := by
  obtain ⟨inn, out⟩ := inside
  unfold gap bump
  split <;> split <;> split <;> omega

theorem put_full (full : Full size r) : put size r a = r := if_pos full

theorem put_contents (inside : InRange size r) (room : ¬ Full size r) :
    contents size (put size r a) = contents size r ++ [a] := by
  have fits := contents_fits inside
  rw [contents_length] at fits
  have fresh : r.inn ∉ walk size r.out (gap size r.inn r.out) := by
    intro member
    have once := @walk_nodup size r.out (gap size r.inn r.out + 1) fits
    rw [walk_snoc, gap_reaches inside] at once
    exact (List.disjoint_of_nodup_append once) member (List.mem_singleton_self _)
  have kept : (walk size r.out (gap size r.inn r.out)).map (Function.update r.slots r.inn a) =
      contents size r := by
    apply List.map_congr_left
    intro slot member
    exact Function.update_of_ne (ne_of_mem_of_not_mem member fresh) _ _
  rw [contents, put, if_neg room]
  dsimp only
  rw [gap_put inside room, walk_snoc, gap_reaches inside, List.map_append, kept]
  simp only [List.map_cons, List.map_nil, Function.update_self]

theorem take_contents (inside : InRange size r) :
    (take size r).1 = (contents size r).head? ∧ contents size (take size r).2 = (contents size r).tail := by
  rw [take]
  split
  case isTrue some_ =>
    have first : contents size r =
        r.slots r.out :: (walk size (bump size r.out) (gap size r.inn (bump size r.out))).map r.slots := by
      rw [contents, gap_take inside some_, walk, List.map_cons, Nat.mod_eq_of_lt inside.out,
        bump_mod inside.out, walk_mod]
    rw [first]
    exact ⟨rfl, rfl⟩
  case isFalse same =>
    have nothing : contents size r = [] := by
      rw [contents, not_not.mp same, gap, if_pos (Nat.le_refl _), Nat.sub_self]
      rfl
    rw [nothing]
    exact ⟨rfl, rfl⟩

end Step

section Fifo

inductive Op (α : Type*) where
  | put (a : α)
  | take
  | clear

/-- A queue of at most so many elements that drops the newest where it is full, with what
    comes out. -/
def fifoStep (cap : Nat) (q : List α) (op : Op α) : List α × List (Option α) :=
  match op with
  | .put a => (if q.length < cap then q ++ [a] else q, [])
  | .take => (q.tail, [q.head?])
  | .clear => ([], [])

def fifo (cap : Nat) : List α → List (Op α) → List α × List (Option α)
  | q, [] => (q, [])
  | q, op :: ops =>
    let after := fifo cap (fifoStep cap q op).1 ops
    (after.1, (fifoStep cap q op).2 ++ after.2)

theorem fifo_append (cap : Nat) (q : List α) (ops more : List (Op α)) :
    fifo cap q (ops ++ more) =
      ((fifo cap (fifo cap q ops).1 more).1, (fifo cap q ops).2 ++ (fifo cap (fifo cap q ops).1 more).2) := by
  induction ops generalizing q with
  | nil => rfl
  | cons op ops ih =>
    rw [List.cons_append, fifo, fifo, ih]
    simp only [List.append_assoc]

def ringStep (size : Nat) (r : Queue α) (op : Op α) : Queue α × List (Option α) :=
  match op with
  | .put a => (put size r a, [])
  | .take => ((take size r).2, [(take size r).1])
  | .clear => (clear r, [])

/-- What the ring holds goes the way of the queue. -/
theorem ring_step {r : Queue α} (inside : InRange size r) (op : Op α) :
    InRange size (ringStep size r op).1 ∧
      fifoStep (size - 1) (contents size r) op =
        (contents size (ringStep size r op).1, (ringStep size r op).2) := by
  cases op with
  | put a =>
    refine ⟨put_inside inside, ?_⟩
    have fits := contents_fits inside
    rw [fifoStep, ringStep]
    by_cases full : Full size r
    · have length := (full_length inside).mp full
      rw [if_neg (by omega), put_full full]
    · have length := mt (full_length inside).mpr full
      rw [if_pos (by omega), put_contents inside full]
  | take =>
    obtain ⟨first, rest⟩ := take_contents inside
    exact ⟨take_inside inside, by rw [fifoStep, ringStep, first, rest]⟩
  | clear => exact ⟨clear_inside (by have := inside.inn; omega), rfl⟩

/-- What finds a place, and what leaves, and whether it was taken or thrown away. -/
def enters (cap : Nat) (q : List α) : Op α → List α
  | .put a => if q.length < cap then [a] else []
  | .take | .clear => []

def leaves (q : List α) : Op α → List (α × Bool)
  | .put _ => []
  | .take => (q.take 1).map fun a => (a, true)
  | .clear => q.map fun a => (a, false)

def entered (cap : Nat) : List α → List (Op α) → List α
  | _, [] => []
  | q, op :: ops => enters cap q op ++ entered cap (fifoStep cap q op).1 ops

def gone (cap : Nat) : List α → List (Op α) → List (α × Bool)
  | _, [] => []
  | q, op :: ops => leaves q op ++ gone cap (fifoStep cap q op).1 ops

theorem step_conserved (cap : Nat) (q : List α) (op : Op α) :
    q ++ enters cap q op = (leaves q op).map Prod.fst ++ (fifoStep cap q op).1 := by
  cases op with
  | put a =>
    rw [enters, leaves, fifoStep]
    dsimp only
    split
    case isTrue => rfl
    case isFalse => exact List.append_nil q
  | take =>
    rw [enters, List.append_nil]
    cases q <;> rfl
  | clear =>
    rw [enters, leaves, fifoStep, List.map_map]
    exact congrArg (· ++ []) (List.map_id q).symm

/-- What was there and what entered is what left and what is there, in the same order. -/
theorem conserved (cap : Nat) (q : List α) (ops : List (Op α)) :
    q ++ entered cap q ops = (gone cap q ops).map Prod.fst ++ (fifo cap q ops).1 := by
  induction ops generalizing q with
  | nil => rw [entered, gone, fifo, List.append_nil, List.map_nil, List.nil_append]
  | cons op ops ih =>
    rw [entered, gone, fifo, List.map_append, List.append_assoc, ← ih, ← List.append_assoc,
      ← List.append_assoc, step_conserved]

theorem entered_put {cap : Nat} {q : List α} {ops : List (Op α)} {a : α} (member : a ∈ entered cap q ops) :
    .put a ∈ ops := by
  induction ops generalizing q with
  | nil => cases member
  | cons op ops ih =>
    rw [entered, List.mem_append] at member
    obtain now | later := member
    · cases op with
      | put b =>
        rw [enters] at now
        split at now
        case isTrue =>
          rw [List.mem_singleton.mp now]
          exact List.mem_cons_self
        case isFalse => cases now
      | take => cases now
      | clear => cases now
    · exact List.mem_cons_of_mem _ (ih later)

/-- What is there at the end was there at the beginning or put in. -/
theorem last_put {cap : Nat} {q : List α} {ops : List (Op α)} {a : α} (member : a ∈ (fifo cap q ops).1) :
    a ∈ q ∨ .put a ∈ ops := by
  have there : a ∈ q ++ entered cap q ops := by
    rw [conserved]
    exact List.mem_append_right _ member
  exact (List.mem_append.mp there).imp_right entered_put

theorem step_taken (cap : Nat) (q : List α) (op : Op α) :
    (fifoStep cap q op).2.reduceOption = ((leaves q op).filter Prod.snd).map Prod.fst := by
  cases op with
  | put a => rfl
  | take => cases q <;> rfl
  | clear =>
    have none_ : (q.map fun a => (a, false)).filter Prod.snd = [] := by
      rw [List.filter_eq_nil_iff]
      intro e member
      obtain ⟨a, _, rfl⟩ := List.mem_map.mp member
      exact Bool.false_ne_true
    rw [leaves, none_]
    rfl

/-- What comes out is what was taken. -/
theorem fifo_taken (cap : Nat) (q : List α) (ops : List (Op α)) :
    (fifo cap q ops).2.reduceOption = ((gone cap q ops).filter Prod.snd).map Prod.fst := by
  induction ops generalizing q with
  | nil => rfl
  | cons op ops ih =>
    rw [fifo, gone, List.filter_append, List.map_append, ← ih, ← step_taken, List.reduceOption_append]

end Fifo

end RingQueue
