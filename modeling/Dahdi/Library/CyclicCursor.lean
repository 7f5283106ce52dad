import Mathlib

/-!
Cursors of a circular queue. One cursor is the slot filled next, -1 when every
slot is filled; the other is the slot emptied next, -1 when none is filled. The
filled slots, oldest first, are those met on the way from the second cursor to
the first.
-/
namespace CyclicCursor

/-- The given number of slots from a slot on. -/
def walk (size : Nat) : Nat → Nat → List Nat
  | _, 0 => []
  | slot, count + 1 => slot % size :: walk size (slot + 1) count

theorem walk_zero (size slot : Nat) : walk size slot 0 = [] := rfl

theorem walk_succ (size slot count : Nat) :
    walk size slot (count + 1) = slot % size :: walk size (slot + 1) count := rfl

theorem walk_length (size slot count : Nat) : (walk size slot count).length = count := by
  induction count generalizing slot with
  | zero => rfl
  | succ count ih => simp only [walk_succ, List.length_cons, ih]

theorem walk_snoc (size slot count : Nat) :
    walk size slot (count + 1) = walk size slot count ++ [(slot + count) % size] := by
  induction count generalizing slot with
  | zero => rfl
  | succ count ih =>
    rw [walk_succ, ih, walk_succ, List.cons_append, Nat.add_right_comm, Nat.add_assoc]

theorem walk_mod (size slot count : Nat) : walk size (slot % size) count = walk size slot count := by
  induction count generalizing slot with
  | zero => rfl
  | succ count ih =>
    rw [walk_succ, walk_succ, Nat.mod_mod, ← ih (slot % size + 1), ← ih (slot + 1), Nat.mod_add_mod]

theorem walk_below {size slot count x : Nat} (positive : 0 < size)
    (met : x ∈ walk size slot count) : x < size := by
  induction count generalizing slot with
  | zero => simp [walk_zero] at met
  | succ count ih =>
    rcases List.mem_cons.mp met with rfl | later
    · exact Nat.mod_lt _ positive
    · exact ih later

/-- How many slots lie between two cursors. -/
def gap (size : Nat) (inn out : Nat) : Nat := if out ≤ inn then inn - out else size - out + inn

/-- Slots met from `out` up to, not including, `inn`. -/
def met (size : Nat) (inn out : Int) : List Nat :=
  if out < 0 then []
  else if inn < 0 then walk size out.toNat size
  else walk size out.toNat (gap size inn.toNat out.toNat)

/-- A slot number or the sentinel. -/
def InRange (size : Nat) (cursor : Int) : Prop := cursor = -1 ∨ 0 ≤ cursor ∧ cursor < size

structure Valid (size : Nat) (inn out : Int) (filled : List Nat) : Prop where
  inRange : InRange size inn
  outRange : InRange size out
  apart : inn ≠ out
  walked : filled = met size inn out

theorem met_empty (size : Nat) (inn : Int) : met size inn (-1) = [] := rfl

theorem met_full (size head : Nat) : met size (-1) head = walk size head size := by
  rw [met, if_neg (by omega), if_pos (by decide)]
  rfl

theorem met_between (size inn out : Nat) :
    met size inn out = walk size out (gap size inn out) := by
  rw [met, if_neg (by omega), if_neg (by omega)]
  rfl

/-- The two cursors stand for a first filled slot and a count. -/
inductive Span (size : Nat) : Int → Int → Nat → Nat → Prop where
  | empty (head : Nat) : head < size → Span size head (-1) head 0
  | full (head : Nat) : head < size → Span size (-1) head head size
  | between (head count : Nat) : head < size → 0 < count → count < size →
      Span size ((head + count) % size : Nat) head head count

theorem wrap_gap {size head count : Nat} (below : head < size) (some : 0 < count)
    (room : count < size) : gap size ((head + count) % size) head = count ∧
      (head + count) % size ≠ head ∧ (head + count) % size < size := by
  unfold gap
  rcases Nat.lt_or_ge (head + count) size with inside | past
  · rw [Nat.mod_eq_of_lt inside]
    split <;> omega
  · rw [Nat.mod_eq_sub_mod past, Nat.mod_eq_of_lt (by omega)]
    split <;> omega

theorem span_valid {size : Nat} {inn out : Int} {head count : Nat}
    (span : Span size inn out head count) : Valid size inn out (walk size head count) := by
  cases span with
  | empty _ below => exact ⟨Or.inr (by omega), Or.inl rfl, by omega, rfl⟩
  | full _ below => exact ⟨Or.inl rfl, Or.inr (by omega), by omega, (met_full size head).symm⟩
  | between _ _ below some room =>
    obtain ⟨count_eq, differ, inside⟩ := wrap_gap below some room
    refine ⟨Or.inr (by omega), Or.inr (by omega), by omega, ?_⟩
    rw [met_between, count_eq]

theorem valid_span {size : Nat} {inn out : Int} {filled : List Nat}
    (valid : Valid size inn out filled) :
    ∃ head count, Span size inn out head count ∧ filled = walk size head count := by
  obtain ⟨inRange, outRange, apart, rfl⟩ := valid
  rcases outRange with rfl | ⟨low, high⟩
  · rcases inRange with rfl | ⟨low, high⟩
    · exact absurd rfl apart
    · obtain ⟨head, rfl⟩ := Int.eq_ofNat_of_zero_le low
      exact ⟨head, 0, .empty head (by omega), rfl⟩
  · obtain ⟨head, rfl⟩ := Int.eq_ofNat_of_zero_le low
    rcases inRange with rfl | ⟨low', high'⟩
    · exact ⟨head, size, .full head (by omega), met_full size head⟩
    · obtain ⟨slot, rfl⟩ := Int.eq_ofNat_of_zero_le low'
      have place : slot = (head + gap size slot head) % size := by
        unfold gap
        split
        · rw [Nat.mod_eq_of_lt (by omega)]
          omega
        · rw [Nat.mod_eq_sub_mod (by omega), Nat.mod_eq_of_lt (by omega)]
          omega
      refine ⟨head, gap size slot head, ?_, met_between size slot head⟩
      have span := @Span.between size head (gap size slot head) (by omega)
        (by unfold gap; split <;> omega) (by unfold gap; split <;> omega)
      rw [← place] at span
      exact span

/-- Filling the slot under the first cursor. -/
def fillIn (size : Nat) (inn out : Int) : Int :=
  if (inn + 1) % size = out then -1 else (inn + 1) % size

def fillOut (inn out : Int) : Int := if out < 0 then inn else out

theorem valid_fill {size : Nat} (two : 2 ≤ size) {inn out : Int} {filled : List Nat}
    (valid : Valid size inn out filled) (free : 0 ≤ inn) :
    Valid size (fillIn size inn out) (fillOut inn out) (filled ++ [inn.toNat]) := by
  obtain ⟨head, count, span, rfl⟩ := valid_span valid
  have next (slot : Nat) : ((slot : Int) + 1) % size = ((slot + 1) % size : Nat) := by
    push_cast
    rfl
  cases span with
  | full => omega
  | empty _ below =>
    have last : walk size head 1 = [head] := by rw [walk_succ, Nat.mod_eq_of_lt below, walk_zero]
    have start := @Span.between size head 1 below (by omega) (by omega)
    have differ : ((head : Int) + 1) % size ≠ -1 := by
      rw [next]
      omega
    rw [fillIn, if_neg differ, next, fillOut, if_pos (by decide), Int.toNat_natCast, walk_zero,
      List.nil_append, ← last]
    exact span_valid start
  | between _ _ below some room =>
    have last := walk_snoc size head count
    rw [Int.toNat_natCast, ← last, fillOut, if_neg (by omega), fillIn, next, Nat.mod_add_mod,
      Nat.add_assoc]
    rcases Nat.lt_or_ge (count + 1) size with inside | full
    · obtain ⟨_, differ, _⟩ := wrap_gap below (by omega : 0 < count + 1) inside
      rw [if_neg (by omega)]
      exact span_valid (.between head (count + 1) below (by omega) inside)
    · have all : count + 1 = size := by omega
      rw [all, Nat.add_mod_right, Nat.mod_eq_of_lt below, if_pos rfl]
      exact span_valid (.full head below)

/-- Emptying the slot under the second cursor. -/
def emptyOut (size : Nat) (inn out : Int) : Int :=
  if (out + 1) % size = inn then -1 else (out + 1) % size

def emptyIn (inn out : Int) : Int := if inn < 0 then out else inn

theorem valid_empty {size : Nat} (two : 2 ≤ size) {inn out : Int} {filled : List Nat}
    (valid : Valid size inn out filled) (some : 0 ≤ out) :
    ∃ rest, filled = out.toNat :: rest ∧
      Valid size (emptyIn inn out) (emptyOut size inn out) rest := by
  obtain ⟨head, count, span, rfl⟩ := valid_span valid
  have next (slot : Nat) : ((slot : Int) + 1) % size = ((slot + 1) % size : Nat) := by
    push_cast
    rfl
  have after (slot : Nat) : (slot + 1) % size < size := Nat.mod_lt _ (by omega)
  cases span with
  | empty => omega
  | full _ below =>
    obtain ⟨more, rfl⟩ : ∃ k, size = k + 1 := ⟨size - 1, by omega⟩
    refine ⟨walk (more + 1) ((head + 1) % (more + 1)) more, ?_, ?_⟩
    · rw [walk_succ, Nat.mod_eq_of_lt below, walk_mod, Int.toNat_natCast]
    · have place : ((head + 1) % (more + 1) + more) % (more + 1) = head := by
        rw [Nat.mod_add_mod, Nat.add_right_comm, Nat.add_assoc, Nat.add_mod_right,
          Nat.mod_eq_of_lt below]
      have rest := @Span.between (more + 1) ((head + 1) % (more + 1)) more (after head) (by omega)
        (by omega)
      rw [place] at rest
      rw [emptyIn, if_pos (by decide), emptyOut, next, if_neg (by omega)]
      exact span_valid rest
  | between _ _ below some room =>
    obtain ⟨more, rfl⟩ : ∃ k, count = k + 1 := ⟨count - 1, by omega⟩
    refine ⟨walk size ((head + 1) % size) more, ?_, ?_⟩
    · rw [walk_succ, Nat.mod_eq_of_lt below, walk_mod, Int.toNat_natCast]
    · have place : (head + (more + 1)) % size = ((head + 1) % size + more) % size := by
        rw [Nat.mod_add_mod, Nat.add_assoc, Nat.add_comm 1 more]
      rw [emptyIn, if_neg (by omega), emptyOut, next, place]
      cases more with
      | zero =>
        rw [Nat.add_zero, Nat.mod_mod, if_pos rfl]
        exact span_valid (.empty _ (after head))
      | succ more =>
        obtain ⟨_, differ, _⟩ := wrap_gap (after head) (by omega : 0 < more + 1) (by omega)
        rw [if_neg (by omega)]
        exact span_valid (.between _ (more + 1) (after head) (by omega) (by omega))

/-- The cursors of an empty queue that fills its first slot next. -/
theorem valid_start {size : Nat} (positive : 0 < size) : Valid size 0 (-1) [] :=
  span_valid (.empty 0 positive)

theorem valid_below {size : Nat} {inn out : Int} {filled : List Nat}
    (valid : Valid size inn out filled) {x : Nat} (inside : x ∈ filled) : x < size := by
  obtain ⟨head, count, span, rfl⟩ := valid_span valid
  have positive : 0 < size := by
    cases span <;> omega
  exact walk_below positive inside

theorem mem_walk {size slot count x : Nat} :
    x ∈ walk size slot count ↔ ∃ k, k < count ∧ x = (slot + k) % size := by
  induction count generalizing slot with
  | zero => simp [walk_zero]
  | succ count ih =>
    rw [walk_succ, List.mem_cons, ih]
    constructor
    · rintro (rfl | ⟨k, inside, rfl⟩)
      · exact ⟨0, by omega, rfl⟩
      · exact ⟨k + 1, by omega, by rw [Nat.add_assoc, Nat.add_comm 1 k]⟩
    · rintro ⟨k, inside, rfl⟩
      cases k with
      | zero => exact Or.inl rfl
      | succ k => exact Or.inr ⟨k, by omega, by rw [Nat.add_assoc, Nat.add_comm 1 k]⟩

theorem slots_apart {size slot j k : Nat} (later : k < j) (near : j - k < size) :
    (slot + j) % size ≠ (slot + k) % size := by
  have below : (slot + k) % size < size := Nat.mod_lt _ (by omega)
  have differ := (wrap_gap below (by omega : 0 < j - k) near).2.1
  rwa [Nat.mod_add_mod, Nat.add_assoc, Nat.add_sub_cancel' (Nat.le_of_lt later)] at differ

theorem walk_nodup {size slot count : Nat} (room : count ≤ size) :
    (walk size slot count).Nodup := by
  induction count generalizing slot with
  | zero => exact List.nodup_nil
  | succ count ih =>
    rw [walk_succ, List.nodup_cons]
    refine ⟨?_, ih (by omega)⟩
    intro again
    obtain ⟨k, inside, same⟩ := mem_walk.mp again
    rw [Nat.add_assoc] at same
    exact slots_apart (by omega : 0 < 1 + k) (by omega) same.symm

theorem valid_nodup {size : Nat} {inn out : Int} {filled : List Nat}
    (valid : Valid size inn out filled) : filled.Nodup := by
  obtain ⟨head, count, span, rfl⟩ := valid_span valid
  cases span with
  | empty => exact List.nodup_nil
  | full => exact walk_nodup (Nat.le_refl size)
  | between _ _ _ _ room => exact walk_nodup (Nat.le_of_lt room)

/-- The slot filled next is not among the filled ones. -/
theorem valid_free {size : Nat} {inn out : Int} {filled : List Nat}
    (valid : Valid size inn out filled) (free : 0 ≤ inn) : inn.toNat ∉ filled := by
  obtain ⟨head, count, span, rfl⟩ := valid_span valid
  cases span with
  | empty => exact List.not_mem_nil
  | full => omega
  | between _ _ below some room =>
    intro taken
    obtain ⟨k, inside, same⟩ := mem_walk.mp taken
    rw [Int.toNat_natCast] at same
    exact slots_apart inside (by omega) same

theorem valid_head {size : Nat} {inn out : Int} {filled : List Nat}
    (valid : Valid size inn out filled) (some : 0 ≤ out) :
    ∃ rest, filled = out.toNat :: rest := by
  obtain ⟨head, count, span, rfl⟩ := valid_span valid
  cases span with
  | empty => omega
  | full _ below =>
    obtain ⟨more, rfl⟩ : ∃ k, size = k + 1 := ⟨size - 1, by omega⟩
    exact ⟨_, by rw [walk_succ, Nat.mod_eq_of_lt below, Int.toNat_natCast]⟩
  | between _ _ below some room =>
    obtain ⟨more, rfl⟩ : ∃ k, count = k + 1 := ⟨count - 1, by omega⟩
    exact ⟨_, by rw [walk_succ, Nat.mod_eq_of_lt below, Int.toNat_natCast]⟩

/-- Every slot is filled when there is none to fill next. -/
theorem valid_full {size : Nat} {inn out : Int} {filled : List Nat}
    (valid : Valid size inn out filled) : size ≤ filled.length ↔ inn < 0 := by
  obtain ⟨head, count, span, rfl⟩ := valid_span valid
  rw [walk_length]
  cases span <;> omega

theorem valid_length {size : Nat} {inn out : Int} {filled : List Nat}
    (valid : Valid size inn out filled) : filled.length ≤ size := by
  obtain ⟨head, count, span, rfl⟩ := valid_span valid
  rw [walk_length]
  cases span <;> omega

theorem every_below {size : Nat} {slots : List Nat} (once : slots.Nodup)
    (below : ∀ x ∈ slots, x < size) (enough : size ≤ slots.length) {x : Nat} (inside : x < size) :
    x ∈ slots := by
  have within : slots.toFinset ⊆ Finset.range size := by
    intro y member
    exact Finset.mem_range.mpr (below y (List.mem_toFinset.mp member))
  have many : (Finset.range size).card ≤ slots.toFinset.card := by
    rw [Finset.card_range, List.toFinset_card_of_nodup once]
    exact enough
  rw [← List.mem_toFinset, Finset.eq_of_subset_of_card_le within many]
  exact Finset.mem_range.mpr inside

theorem valid_all {size : Nat} {inn out : Int} {filled : List Nat}
    (valid : Valid size inn out filled) (full : inn < 0) {x : Nat} (below : x < size) :
    x ∈ filled :=
  every_below (valid_nodup valid) (fun _ => valid_below valid) ((valid_full valid).mpr full) below

theorem valid_none {size : Nat} {inn out : Int} {filled : List Nat}
    (valid : Valid size inn out filled) (none : out < 0) : filled = [] := by
  rw [valid.walked, met, if_pos none]

/-- Emptying any slot of a full queue leaves the others filled, from the next
    slot on. -/
theorem valid_empty_any {size : Nat} (two : 2 ≤ size) {slot : Nat} (below : slot < size) :
    Valid size slot ((slot + 1) % size : Nat) (met size slot ((slot + 1) % size : Nat)) ∧
      ∀ x, x < size → (x ∈ met size slot ((slot + 1) % size : Nat) ↔ x ≠ slot) := by
  have place : ((slot + 1) % size + (size - 1)) % size = slot := by
    rw [Nat.mod_add_mod, Nat.add_assoc, Nat.add_sub_cancel' (by omega : 1 ≤ size),
      Nat.add_mod_right, Nat.mod_eq_of_lt below]
  have span := @Span.between size ((slot + 1) % size) (size - 1) (Nat.mod_lt _ (by omega)) (by omega)
    (by omega)
  rw [place] at span
  have valid := span_valid span
  rw [← valid.walked]
  refine ⟨valid, fun x inside => ⟨?_, ?_⟩⟩
  · rintro member rfl
    exact valid_free valid (by omega) member
  · intro other
    have spare := valid_free valid (by omega : (0 : Int) ≤ slot)
    have all := @every_below size (slot :: walk size ((slot + 1) % size) (size - 1))
      (List.nodup_cons.mpr ⟨spare, valid_nodup valid⟩)
      (by
        intro y member
        rcases List.mem_cons.mp member with rfl | later
        · exact below
        · exact valid_below valid later)
      (by rw [List.length_cons, walk_length]; omega) x inside
    exact (List.mem_cons.mp all).resolve_left other

/-- The slot before the oldest filled one is not filled, unless all are. -/
theorem before_oldest {size : Nat} {inn out : Int} (valid : Valid size inn out (met size inn out))
    (room : 0 ≤ inn) {slot : Nat} (next : ((slot : Int) + 1) % size = out) :
    slot ∉ met size inn out := by
  obtain ⟨head, count, span, walked⟩ := valid_span valid
  rw [walked]
  cases span with
  | empty => exact List.not_mem_nil
  | full => omega
  | between _ _ below some few =>
    intro member
    obtain ⟨k, inside, rfl⟩ := mem_walk.mp member
    have back : (head + (k + 1)) % size = (head + 0) % size := by
      have first : (head + 0) % size = head := Nat.mod_eq_of_lt below
      rw [← Nat.add_assoc, ← Nat.mod_add_mod (head + k), first]
      exact_mod_cast next
    exact slots_apart (by omega : 0 < k + 1) (by omega) back

/-- A slot that can be emptied as if it were the oldest: any slot of a full
    queue; otherwise the oldest one, or the slot before the place where the
    emptier stands or is to start. -/
def Fits (size : Nat) (inn out slot : Int) : Prop :=
  if inn < 0 then slot < size
  else if out < 0 then (slot + 1) % size = inn
  else slot = out ∨ (slot + 1) % size = out

instance (size : Nat) (inn out slot : Int) : Decidable (Fits size inn out slot) :=
  inferInstanceAs (Decidable (if inn < 0 then slot < size
    else if out < 0 then (slot + 1) % size = inn else slot = out ∨ (slot + 1) % size = out))

/-- The cursors are in order and exactly the given slot is no longer filled. -/
structure Emptied (size : Nat) (inn out slot inn' out' : Int) : Prop where
  valid : Valid size inn' out' (met size inn' out')
  others : ∀ x, x < size → (x ∈ met size inn' out' ↔ x ∈ met size inn out ∧ x ≠ slot.toNat)

theorem emptied_fits {size : Nat} (two : 2 ≤ size) {inn out slot : Int}
    (valid : Valid size inn out (met size inn out)) (low : 0 ≤ slot)
    (fits : Fits size inn out slot) :
    Emptied size inn out slot (emptyIn inn slot) (emptyOut size inn slot) := by
  obtain ⟨at_, rfl⟩ := Int.eq_ofNat_of_zero_le low
  have next : ((at_ : Int) + 1) % size = ((at_ + 1) % size : Nat) := by
    push_cast
    rfl
  unfold Fits at fits
  unfold emptyIn emptyOut
  by_cases full : inn < 0
  · rw [if_pos full] at fits ⊢
    rw [next, if_neg (by omega)]
    obtain ⟨valid', others⟩ := @valid_empty_any size two at_ (by omega)
    refine ⟨valid', fun x inside => ?_⟩
    rw [others x inside, Int.toNat_natCast]
    exact ⟨fun other => ⟨valid_all valid full inside, other⟩, fun kept => kept.2⟩
  · rw [if_neg full] at fits ⊢
    by_cases none : out < 0
    · have empty := valid_none valid none
      have out_ : out = -1 := by
        rcases valid.outRange with rfl | ⟨low, _⟩
        · rfl
        · omega
      rw [if_pos none] at fits
      rw [if_pos fits, ← out_]
      refine ⟨valid, fun x _ => ?_⟩
      simp [empty]
    · rw [if_neg none] at fits
      rcases fits with oldest | before
      · obtain ⟨rest, filled, valid'⟩ := valid_empty two valid (by omega)
        rw [← oldest, emptyIn, if_neg full] at valid'
        have once := valid_nodup valid
        rw [filled, List.nodup_cons] at once
        change Emptied size inn out at_ inn (emptyOut size inn at_)
        have same := valid'.walked
        refine ⟨by rw [← same]; exact valid', fun x inside => ?_⟩
        rw [← same, filled, List.mem_cons, oldest]
        constructor
        · intro later
          refine ⟨Or.inr later, ?_⟩
          rintro rfl
          exact once.1 later
        · rintro ⟨rfl | later, other⟩
          · exact absurd rfl other
          · exact later
      · have apart := valid.apart
        rw [before, if_neg (fun same => apart same.symm)]
        refine ⟨valid, fun x inside => ?_⟩
        have spare := before_oldest valid (by omega) before
        rw [Int.toNat_natCast]
        constructor
        · intro member
          refine ⟨member, ?_⟩
          rintro rfl
          exact spare member
        · exact fun kept => kept.1

/-- From a later filled slot on, the oldest one is not met. -/
theorem oldest_missed {size : Nat} {inn out slot : Int}
    (valid : Valid size inn out (met size inn out)) (room : 0 ≤ inn) (low : 0 ≤ slot)
    (member : slot.toNat ∈ met size inn out) (later : slot ≠ out) :
    out.toNat ∉ met size inn slot := by
  obtain ⟨head, count, span, walked⟩ := valid_span valid
  rw [walked] at member
  cases span with
  | empty => exact absurd member List.not_mem_nil
  | full => omega
  | between _ _ below some few =>
    obtain ⟨k, inside, place⟩ := mem_walk.mp member
    have positive : 0 < k := by
      rcases Nat.eq_zero_or_pos k with rfl | positive
      · rw [Nat.add_zero, Nat.mod_eq_of_lt below] at place
        omega
      · exact positive
    have start : slot = ((head + k) % size : Nat) := by omega
    have span' := @Span.between size ((head + k) % size) (count - k) (Nat.mod_lt _ (by omega))
      (by omega) (by omega)
    rw [Nat.mod_add_mod, Nat.add_assoc, Nat.add_sub_cancel' (Nat.le_of_lt inside)] at span'
    rw [start, ← (span_valid span').walked, walk_mod]
    intro again
    obtain ⟨j, short, same⟩ := mem_walk.mp again
    rw [Int.toNat_natCast, Nat.add_assoc] at same
    have first : (head + 0) % size = head := Nat.mod_eq_of_lt below
    exact slots_apart (by omega : 0 < k + j) (by omega) (same.symm.trans first.symm)

/-- No other slot can be emptied so. -/
theorem fits_emptied {size : Nat} (two : 2 ≤ size) {inn out slot : Int}
    (valid : Valid size inn out (met size inn out)) (low : 0 ≤ slot)
    (emptied : Emptied size inn out slot (emptyIn inn slot) (emptyOut size inn slot)) :
    Fits size inn out slot := by
  obtain ⟨valid', others⟩ := emptied
  unfold emptyIn emptyOut at valid' others
  unfold Fits
  by_cases full : inn < 0
  · rw [if_pos full]
    rw [if_pos full] at valid'
    rcases valid'.inRange with none | ⟨_, high⟩ <;> omega
  · rw [if_neg full]
    rw [if_neg full] at valid' others
    by_cases stop : (slot + 1) % size = inn
    · rw [if_pos stop] at valid' others
      by_cases none : out < 0
      · rw [if_pos none]
        exact stop
      · rw [if_neg none]
        -- nothing is left, so the oldest slot was this one
        obtain ⟨rest, filled⟩ := valid_head valid (by omega)
        have member : out.toNat ∈ met size inn out := by
          rw [filled]
          exact List.mem_cons_self
        have gone := others out.toNat (valid_below valid member)
        rw [met_empty] at gone
        have same : out.toNat = slot.toNat := by
          by_contra other
          exact List.not_mem_nil (gone.mpr ⟨member, other⟩)
        left
        omega
    · rw [if_neg stop] at valid' others
      have positive : (0 : Int) ≤ (slot + 1) % size := Int.emod_nonneg _ (by omega)
      obtain ⟨first, filled'⟩ := valid_head valid' positive
      have member' : ((slot + 1) % size).toNat ∈ met size inn ((slot + 1) % size) := by
        rw [filled']
        exact List.mem_cons_self
      obtain ⟨member, apart⟩ := (others _ (valid_below valid' member')).mp member'
      by_cases none : out < 0
      · rw [valid_none valid none] at member
        exact absurd member List.not_mem_nil
      · rw [if_neg none]
        obtain ⟨rest, filled⟩ := valid_head valid (by omega)
        have oldest : out.toNat ∈ met size inn out := by
          rw [filled]
          exact List.mem_cons_self
        by_contra neither
        rw [not_or] at neither
        have kept := (others _ (valid_below valid oldest)).mpr ⟨oldest, by omega⟩
        exact oldest_missed valid (by omega) positive member neither.2 kept

end CyclicCursor
