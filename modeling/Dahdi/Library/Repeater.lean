import Mathlib

/-!
A sender of queued messages that repeats the last one until there is another. It
takes one item after the other and ends every message with a separator; without
a message it sends separators.
-/
namespace Repeater
variable {α : Type*}

/-- The messages from the one being sent on, and how much of that one is sent. -/
structure Spool (α : Type*) where
  queue : List (List α)
  pos : Nat

def idle : Spool α := ⟨[], 0⟩

def Spool.put (s : Spool α) (m : List α) : Spool α := { s with queue := s.queue ++ [m] }

/-- The next item, with `none` for a separator. At the end of a message a newer
    one is next if there is one, and otherwise the same again. -/
def Spool.take (s : Spool α) : List (Option α) × Spool α :=
  match s.queue with
  | [] => ([none], s)
  | m :: rest =>
    match m[s.pos]? with
    | none => ([], s)
    | some y =>
      if s.pos + 1 < m.length then ([some y], { s with pos := s.pos + 1 })
      else ([some y, none], ⟨if rest = [] then [m] else rest, 0⟩)

def Spool.takes : Nat → Spool α → List (Option α) × Spool α
  | 0, s => ([], s)
  | n + 1, s => (s.take.1 ++ (Spool.takes n s.take.2).1, (Spool.takes n s.take.2).2)

theorem takes_add (j k : Nat) (s : Spool α) : Spool.takes (j + k) s =
    ((Spool.takes j s).1 ++ (Spool.takes k (Spool.takes j s).2).1,
      (Spool.takes k (Spool.takes j s).2).2) := by
  induction j generalizing s with
  | zero => simp [Spool.takes]
  | succ j ih => simp only [Nat.succ_add, Spool.takes, ih, List.append_assoc]

/-- The items of a whole message. -/
def frame (m : List α) : List (Option α) := m.map some ++ [none]

/-- What has been sent of the current message. -/
def Spool.begun (s : Spool α) : List (Option α) :=
  match s.queue with
  | [] => []
  | m :: _ => (m.take s.pos).map some

/-- The items still to be taken for every message to have been sent. -/
def Spool.left (s : Spool α) : Nat := (s.queue.map List.length).sum - s.pos

/-- The second list is the first with every message once or several times in a
    row. -/
inductive Stutter : List (List α) → List (List α) → Prop where
  | none : Stutter [] []
  | next {done sent : List (List α)} (m : List α) : Stutter done sent →
      Stutter (done ++ [m]) (sent ++ [m])
  | again {done sent : List (List α)} {m : List α} : Stutter (done ++ [m]) sent →
      Stutter (done ++ [m]) (sent ++ [m])

/-- The message being sent comes after those before it, each sent at least once. -/
structure Turn (written rounds : List (List α)) (s : Spool α) : Prop where
  turn : ∃ done current waiting, s.queue = current :: waiting ∧
    written = done ++ current :: waiting ∧ Stutter (done ++ [current]) (rounds ++ [current]) ∧
      s.pos < current.length

/-- The items sent: separators while there was no message, whole messages in
    their order, and the beginning of the current one. -/
inductive Account : List (List α) → List (Option α) → Spool α → Prop where
  | idle (flags : Nat) : Account [] (List.replicate flags none) ⟨[], 0⟩
  | turn {written rounds : List (List α)} {s : Spool α} (flags : Nat) : Turn written rounds s →
      Account written (List.replicate flags none ++ rounds.flatMap frame ++ s.begun) s

/-- Every message written has been sent whole. -/
def AllSent (written : List (List α)) (items : List (Option α)) : Prop :=
  ∃ flags rounds, Stutter written rounds ∧
    (List.replicate flags none ++ rounds.flatMap frame : List (Option α)) <+: items

section account
variable {written rounds : List (List α)} {items : List (Option α)} {s : Spool α}

theorem account_put {m : List α} (some_ : m ≠ []) (account : Account written items s) :
    Account (written ++ [m]) items (s.put m) := by
  cases account with
  | idle flags =>
    have first : Turn [m] [] (⟨[m], 0⟩ : Spool α) :=
      ⟨[], m, [], rfl, rfl, Stutter.next m Stutter.none, List.length_pos_iff.mpr some_⟩
    have begun := Account.turn flags first
    simp only [List.flatMap_nil, Spool.begun, List.take_zero, List.map_nil, List.append_nil] at begun
    exact begun
  | @turn _ rounds _ flags turn =>
    obtain ⟨done, current, waiting, queue, order, stutter, within⟩ := turn
    have longer : (s.put m).queue = current :: (waiting ++ [m]) := by
      rw [Spool.put, queue]
      rfl
    have same : (s.put m).begun = s.begun := by
      simp only [Spool.begun, longer, queue]
      rfl
    rw [← same]
    refine Account.turn flags ⟨done, current, waiting ++ [m], longer, ?_, stutter, within⟩
    rw [order, List.append_assoc]
    rfl

theorem begun_step {m : List α} {rest : List (List α)} {y : α} (queue : s.queue = m :: rest)
    (here : m[s.pos]? = some y) : s.begun ++ [some y] = (m.take (s.pos + 1)).map some := by
  rw [Spool.begun, queue, List.take_add_one, here]
  simp

theorem take_byte {m : List α} {rest : List (List α)} {y : α} (queue : s.queue = m :: rest)
    (here : m[s.pos]? = some y) (more : s.pos + 1 < m.length) :
    s.take = ([some y], { s with pos := s.pos + 1 }) := by
  simp only [Spool.take, queue, here, if_pos more]

theorem take_last {m : List α} {rest : List (List α)} {y : α} (queue : s.queue = m :: rest)
    (here : m[s.pos]? = some y) (last : ¬s.pos + 1 < m.length) :
    s.take = ([some y, none], ⟨if rest = [] then [m] else rest, 0⟩) := by
  simp only [Spool.take, queue, here, if_neg last]

/-- What taking an item does to a spool whose turn it is. -/
inductive Taken (written rounds : List (List α)) (s : Spool α) : Prop where
  | byte : Turn written rounds s.take.2 → s.begun ++ s.take.1 = s.take.2.begun →
      s.take.2.left + 1 = s.left → Taken written rounds s
  | last (m : List α) : Turn written (rounds ++ [m]) s.take.2 → s.take.2.pos = 0 →
      s.begun ++ s.take.1 = frame m → (Stutter written (rounds ++ [m]) ∨ s.take.2.left + 1 = s.left) →
      Taken written rounds s

theorem turn_take (some_ : ∀ m ∈ written, m ≠ []) (turn : Turn written rounds s) :
    Taken written rounds s := by
  obtain ⟨done, current, waiting, queue, order, stutter, within⟩ := turn
  have here : current[s.pos]? = some current[s.pos] := List.getElem?_eq_getElem within
  by_cases more : s.pos + 1 < current.length
  · have taken := take_byte queue here more
    apply Taken.byte
    · rw [taken]
      exact ⟨done, current, waiting, queue, order, stutter, more⟩
    · rw [taken, begun_step queue here]
      simp only [Spool.begun, queue]
    · rw [taken]
      simp only [Spool.left, queue, List.map_cons, List.sum_cons]
      omega
  · have taken := take_last queue here more
    have ended : s.begun ++ s.take.1 = frame current := by
      have whole := begun_step queue here
      rw [List.take_of_length_le (by omega)] at whole
      rw [taken, frame, ← whole, List.append_assoc]
      rfl
    cases waiting with
    | nil =>
      apply Taken.last current _ (by rw [taken]) ended
      · exact Or.inl (by rw [order]; exact stutter)
      · rw [taken]
        exact ⟨done, current, [], rfl, order, Stutter.again stutter, by simp only; omega⟩
    | cons next waiting =>
      have later : next ∈ written := by
        rw [order]
        simp
      rw [if_neg (List.cons_ne_nil next waiting)] at taken
      apply Taken.last current _ (by rw [taken]) ended
      · right
        rw [taken]
        simp only [Spool.left, queue, List.map_cons, List.sum_cons]
        omega
      · rw [taken]
        refine ⟨done ++ [current], next, waiting, rfl, ?_, Stutter.next next stutter,
          List.length_pos_iff.mpr (some_ next later)⟩
        rw [order, List.append_assoc]
        rfl

theorem account_take (some_ : ∀ m ∈ written, m ≠ []) (account : Account written items s) :
    Account written (items ++ s.take.1) s.take.2 := by
  cases account with
  | idle flags =>
    have longer := @Account.idle α (flags + 1)
    rw [List.replicate_succ'] at longer
    exact longer
  | @turn _ rounds _ flags turn =>
    rw [List.append_assoc]
    cases turn_take some_ turn with
    | byte turn' begun _ =>
      rw [begun]
      exact Account.turn flags turn'
    | last m turn' start ended _ =>
      have none_ : s.take.2.begun = [] := by
        unfold Spool.begun
        rw [start]
        split
        · rfl
        · rfl
      have later := Account.turn flags turn'
      rw [List.flatMap_append, List.flatMap_singleton, none_, List.append_nil,
        ← List.append_assoc] at later
      rw [ended]
      exact later

theorem account_takes (some_ : ∀ m ∈ written, m ≠ []) (n : Nat) (account : Account written items s) :
    Account written (items ++ (s.takes n).1) (s.takes n).2 := by
  induction n generalizing items s with
  | zero =>
    rw [Spool.takes, List.append_nil]
    exact account
  | succ n ih =>
    rw [Spool.takes, ← List.append_assoc]
    exact ih (account_take some_ account)

theorem all_sent_more (more : List (Option α)) (sent : AllSent written items) :
    AllSent written (items ++ more) := by
  obtain ⟨flags, rounds, stutter, front⟩ := sent
  exact ⟨flags, rounds, stutter, front.trans (List.prefix_append items more)⟩

/-- Once there is nothing left, everything written has been sent. -/
theorem takes_all (some_ : ∀ m ∈ written, m ≠ []) (n : Nat) (account : Account written items s)
    (enough : s.left ≤ n) (begun : written ≠ []) : AllSent written (items ++ (s.takes n).1) := by
  induction n generalizing items s with
  | zero =>
    cases account with
    | idle => exact absurd rfl begun
    | turn flags turn =>
      obtain ⟨done, current, waiting, queue, _, _, within⟩ := turn
      rw [Spool.left, queue, List.map_cons, List.sum_cons] at enough
      omega
  | succ n ih =>
    rw [Spool.takes, ← List.append_assoc]
    have later := account_take some_ account
    cases account with
    | idle => exact absurd rfl begun
    | @turn _ rounds _ flags turn =>
      cases turn_take some_ turn with
      | byte _ _ fewer => exact ih later (by omega)
      | last m _ _ ended done =>
        rcases done with stutter | fewer
        · apply all_sent_more
          have whole : List.replicate flags none ++ rounds.flatMap frame ++ s.begun ++ s.take.1 =
              List.replicate flags none ++ (rounds ++ [m]).flatMap frame := by
            rw [List.append_assoc, ended, List.flatMap_append, List.flatMap_singleton,
              List.append_assoc]
          exact ⟨flags, rounds ++ [m], stutter, whole ▸ List.prefix_refl _⟩
        · exact ih later (by omega)

end account

end Repeater
