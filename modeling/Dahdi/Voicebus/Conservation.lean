import Dahdi.Voicebus.Tasklet

/-!
The descriptor rings: what taking a buffer out of one and queueing a buffer on one do to
the interval of slots that hold buffers.
-/
namespace Voicebus
open CyclicCursor CyclicSlots

/-- The buffers in a ring, oldest first. -/
def held (dl : DescriptorList) : List Buffer := values DRING_SIZE dl.buffer1 dl.head dl.count.toNat

/-- Exactly the slots of the interval from the head on hold buffers, which pending
    points to as well; the others hold this blank. -/
structure RingOk (blank : Buffer) (dl : DescriptorList) : Prop where
  positive : 0 ≤ dl.count
  window : Window DRING_SIZE (fun b => b = blank) dl.buffer1 dl.head dl.count.toNat
  real : ∀ x ∈ walk DRING_SIZE dl.head dl.count.toNat,
    (∃ k, dl.buffer1 x = .vbb k) ∧ dl.pending x = dl.buffer1 x

/-- The tail stands behind the interval. -/
def Closed (dl : DescriptorList) : Prop := dl.tail = (dl.head + dl.count.toNat) % DRING_SIZE

section Rings
variable {blank : Buffer} {dl dl' : DescriptorList}

theorem ring_congr (ok : RingOk blank dl) (buffer1 : dl'.buffer1 = dl.buffer1)
    (pending : dl'.pending = dl.pending) (head : dl'.head = dl.head) (count : dl'.count = dl.count) :
    RingOk blank dl' ∧ held dl' = held dl := by
  constructor
  · constructor
    · rw [count]
      exact ok.positive
    · rw [buffer1, head, count]
      exact ok.window
    · rw [buffer1, pending, head, count]
      exact ok.real
  · rw [held, buffer1, head, count]
    rfl

/-- A ring a buffer has been taken out of. -/
structure Took (blank : Buffer) (dl : DescriptorList) (b : Buffer) (dl' : DescriptorList) : Prop where
  ok : RingOk blank dl'
  real : ∃ k, b = .vbb k
  count : dl'.count = dl.count - 1
  closed : Closed dl → Closed dl'
  left : held dl = b :: held dl'

theorem take_ok (ok : RingOk blank dl) (some : dl.buffer1 dl.head ≠ blank)
    (buffer1 : dl'.buffer1 = Function.update dl.buffer1 dl.head blank)
    (pending : ∀ x, x ≠ dl.head → dl'.pending x = dl.pending x) (head : dl'.head = next dl.head)
    (tail : dl'.tail = dl.tail) (count : dl'.count = dl.count - 1) :
    Took blank dl (dl.pending dl.head) dl' := by
  have positive := ok.positive
  have below := ok.window.below
  obtain ⟨n, number⟩ : ∃ n, dl.count.toNat = n + 1 :=
    ⟨dl.count.toNat - 1, by have filled := window_some ok.window some; omega⟩
  have fewer : (dl.count - 1).toNat = n := by omega
  have window := ok.window
  have real := ok.real
  rw [number] at window real
  obtain ⟨window', values'⟩ := window_take window (rfl : blank = blank)
  have first := @walk_first DRING_SIZE dl.head n below
  have once := @walk_nodup DRING_SIZE dl.head (n + 1) window.room
  rw [first, List.nodup_cons] at once
  obtain ⟨⟨k, buffer⟩, same⟩ := real dl.head (by rw [first]; exact List.mem_cons_self)
  constructor
  · constructor
    · rw [count]
      omega
    · rw [buffer1, head, count, fewer]
      exact window'
    · rw [buffer1, head, count, fewer]
      intro x member
      have other : x ≠ dl.head := by
        intro again
        rw [again] at member
        exact once.1 member
      rw [Function.update_of_ne other, pending x other]
      apply real
      rw [first]
      exact List.mem_cons_of_mem _ member
  · exact ⟨k, same.trans buffer⟩
  · exact count
  · intro closed
    rw [Closed, tail, head, count, fewer, closed, number, next, Nat.mod_add_mod]
    congr 1
    omega
  · rw [held, number, values', same, held, buffer1, head, count, fewer]
    rfl

theorem queue_ok (ok : RingOk blank dl) (closed : Closed dl) (free : dl.buffer1 dl.tail = blank)
    {v : Buffer} (real : ∃ k, v = .vbb k) (other : v ≠ blank) :
    RingOk blank (queue dl v) ∧ Closed (queue dl v) ∧ held (queue dl v) = held dl ++ [v] := by
  have positive := ok.positive
  have more : (dl.count + 1).toNat = dl.count.toNat + 1 := by omega
  have tail : dl.tail = (dl.head + dl.count.toNat) % DRING_SIZE := closed
  rw [tail] at free
  have room := (window_behind ok.window).mp free
  obtain ⟨window', values'⟩ := window_put ok.window room other
  have last := walk_snoc DRING_SIZE dl.head dl.count.toNat
  rw [← tail] at window' values' last
  refine ⟨⟨?_, ?_, ?_⟩, ?_, ?_⟩
  · simp only [queue]
    omega
  · simp only [queue, more]
    exact window'
  · simp only [queue, more]
    intro x member
    by_cases new : x = dl.tail
    · rw [new, Function.update_self, Function.update_self]
      exact ⟨real, rfl⟩
    · rw [Function.update_of_ne new, Function.update_of_ne new]
      rw [last, List.mem_append, List.mem_singleton] at member
      exact ok.real x (member.resolve_right new)
  · simp only [Closed, queue, more, next, tail, Nat.mod_add_mod]
    congr 1
  · simp only [held, queue, more]
    exact values'

theorem own_ok (ok : RingOk blank dl) (own whole : Nat → Bool) :
    RingOk blank { dl with own := own, whole := whole } ∧
      held { dl with own := own, whole := whole } = held dl :=
  ring_congr ok rfl rfl rfl rfl

/-- What vb_get_completed_txb or vb_get_completed_rxb returns. -/
theorem completed_txb (ok : RingOk .idle dl) :
    getCompletedTxb dl = (.null, dl) ∨
      ∃ b dl', getCompletedTxb dl = (b, dl') ∧ Took .idle dl b dl' := by
  by_cases none : dl.own dl.head = true ∨ dl.buffer1 dl.head = .null ∨ dl.buffer1 dl.head = .idle
  · left
    rw [getCompletedTxb, if_pos none]
  · right
    refine ⟨_, _, by rw [getCompletedTxb, if_neg none], ?_⟩
    rw [not_or, not_or] at none
    apply take_ok ok none.2.2
    · rfl
    · intro x other
      exact Function.update_of_ne other _ _
    · rfl
    · rfl
    · rfl

theorem completed_rxb (ok : RingOk .null dl) :
    getCompletedRxb dl = (.null, dl) ∨
      ∃ b dl', getCompletedRxb dl = (b, dl') ∧ Took .null dl b dl' := by
  by_cases none : dl.buffer1 dl.head = .null ∨ dl.own dl.head = true
  · left
    rw [getCompletedRxb, if_pos none]
  · right
    refine ⟨_, _, by rw [getCompletedRxb, if_neg none], ?_⟩
    rw [not_or] at none
    apply take_ok ok none.1
    · rfl
    · intro x _
      rfl
    · rfl
    · rfl
    · rfl

/-- Without buffers the head may go anywhere. -/
theorem empty_moved (ok : RingOk .idle dl) (none : dl.count = 0) (count : dl'.count = 0)
    (below : dl'.head < DRING_SIZE) (idle : ∀ x, x < DRING_SIZE → dl.buffer1 x = .idle → dl'.buffer1 x = .idle) :
    RingOk .idle dl' ∧ held dl' = held dl := by
  have window := ok.window
  rw [none] at window
  constructor
  · constructor
    · rw [count]
    · rw [count]
      exact window_moved window below fun x inside => idle x inside (window_none window inside)
    · rw [count]
      intro x member
      exact absurd member List.not_mem_nil
  · rw [held, held, none, count]
    rfl

end Rings

end Voicebus

/-!
Every buffer is in one place or freed, and the transmit ring holds its buffers between
head and tail, over every order of tasklet turns, hardware progress and restarts.
-/
namespace Voicebus
open CyclicCursor CyclicSlots GuardedRun

/-- The buffers dma_pool_alloc has returned. -/
def ids (allocated : Nat) : List Buffer := (List.range allocated).map Buffer.vbb

/-- How often a buffer stands in the lists. -/
def loose (v : Buffer) (vb : Vb) : Nat :=
  vb.txComplete.count v + vb.freeRx.count v + vb.buffers.count v + vb.grown.count v + vb.freed.count v

def tally (v : Buffer) (vb : Vb) : Nat := (held vb.txd).count v + (held vb.rxd).count v + loose v vb

def ones (v b : Buffer) : Nat := [b].count v

/-- The rings are well formed, and with those in hand every buffer allocated is somewhere
    just once. -/
structure Kept (hand : List Buffer) (vb : Vb) : Prop where
  tx : RingOk .idle vb.txd
  rx : RingOk .null vb.rxd
  rxClosed : Closed vb.rxd
  tallied : ∀ v, tally v vb + hand.count v = (ids vb.allocated).count v

/-- Between the first catch-up loop and the end of the skip the head is ahead. -/
def catching : Pc → Bool
  | .catchUp _ => true
  | .gather soft _ => soft.isSome
  | .increase _ _ => true
  | .catchUpAgain => true
  | .skip _ => true
  | _ => false

structure BusOk (vb : Vb) : Prop where
  kept : Kept [] vb
  txClosed : catching vb.pc = false → Closed vb.txd
  drained : catching vb.pc = true → vb.txd.count = 0

section Counting
variable {v b : Buffer} {l : List Buffer}

theorem count_first : (b :: l).count v = ones v b + l.count v := by
  rw [← List.singleton_append, List.count_append, ones]

theorem count_last : (l ++ [b]).count v = l.count v + ones v b := by
  rw [List.count_append, ones]

theorem ids_succ (n : Nat) : (ids (n + 1)).count v = (ids n).count v + ones v (.vbb n) := by
  rw [ids, List.range_succ, List.map_append, List.count_append, ids, ones]
  rfl

theorem ids_real {n : Nat} (some : 0 < (ids n).count v) : ∃ k, k < n ∧ v = .vbb k := by
  obtain ⟨k, inside, same⟩ := List.mem_map.mp (List.count_pos_iff.mp some)
  exact ⟨k, List.mem_range.mp inside, same.symm⟩

theorem ones_self : ones b b = 1 := List.count_singleton_self

end Counting

section Moves
variable {vb vb' : Vb} {hand hand' : List Buffer} {v : Buffer}

theorem kept_real (kept : Kept (v :: hand) vb) : ∃ k, v = .vbb k := by
  have count := kept.tallied v
  rw [count_first, ones_self] at count
  obtain ⟨k, _, same⟩ := ids_real (by omega : 0 < (ids vb.allocated).count v)
  exact ⟨k, same⟩

/-- Buffers move between the lists. -/
theorem kept_lists (kept : Kept hand vb) (txd : vb'.txd = vb.txd) (rxd : vb'.rxd = vb.rxd)
    (allocated : vb'.allocated = vb.allocated)
    (same : ∀ v, loose v vb' + hand'.count v = loose v vb + hand.count v) : Kept hand' vb' := by
  constructor
  · rw [txd]
    exact kept.tx
  · rw [rxd]
    exact kept.rx
  · rw [rxd]
    exact kept.rxClosed
  · intro v
    have before := kept.tallied v
    have moved := same v
    rw [allocated, tally, txd, rxd]
    rw [tally] at before
    omega

theorem kept_txd (kept : Kept hand vb) (ok : RingOk .idle vb'.txd) (rxd : vb'.rxd = vb.rxd)
    (allocated : vb'.allocated = vb.allocated)
    (same : ∀ v, (held vb'.txd).count v + loose v vb' + hand'.count v =
      (held vb.txd).count v + loose v vb + hand.count v) : Kept hand' vb' := by
  constructor
  · exact ok
  · rw [rxd]
    exact kept.rx
  · rw [rxd]
    exact kept.rxClosed
  · intro v
    have before := kept.tallied v
    have moved := same v
    rw [allocated, tally, rxd]
    rw [tally] at before
    omega

theorem kept_rxd (kept : Kept hand vb) (ok : RingOk .null vb'.rxd) (closed : Closed vb'.rxd)
    (txd : vb'.txd = vb.txd) (allocated : vb'.allocated = vb.allocated)
    (same : ∀ v, (held vb'.rxd).count v + loose v vb' + hand'.count v =
      (held vb.rxd).count v + loose v vb + hand.count v) : Kept hand' vb' := by
  constructor
  · rw [txd]
    exact kept.tx
  · exact ok
  · exact closed
  · intro v
    have before := kept.tallied v
    have moved := same v
    rw [allocated, tally, txd]
    rw [tally] at before
    omega

theorem submit_kept (kept : Kept (v :: hand) vb) : Kept hand (submitRxb vb v) := by
  obtain ⟨k, real⟩ := kept_real kept
  rw [submitRxb]
  split
  case isTrue taken =>
    apply kept_lists kept (by rfl) (by rfl) (by rfl)
    intro w
    simp only [loose, count_last, count_first]
    omega
  case isFalse free =>
    obtain ⟨ok, closed, joined⟩ := queue_ok kept.rx kept.rxClosed (not_not.mp free) ⟨k, real⟩
      (by rw [real]; exact Buffer.noConfusion)
    apply kept_rxd kept (by exact ok) (by exact closed) (by rfl) (by rfl)
    intro w
    simp only [joined, count_last, count_first, loose]
    omega

theorem submit_txd (vb : Vb) (v : Buffer) : (submitRxb vb v).txd = vb.txd ∧ (submitRxb vb v).pc = vb.pc := by
  rw [submitRxb]
  split
  · exact ⟨rfl, rfl⟩
  · exact ⟨rfl, rfl⟩

theorem tx_real {dl : DescriptorList} (ok : RingOk .idle dl) {x : Nat} (inside : x < DRING_SIZE) :
    dl.buffer1 x ≠ .null := by
  intro null
  by_cases member : x ∈ walk DRING_SIZE dl.head dl.count.toNat
  · obtain ⟨⟨k, some⟩, _⟩ := ok.real x member
    rw [some] at null
    exact Buffer.noConfusion null
  · have idle := ok.window.spare x inside member
    rw [null] at idle
    exact Buffer.noConfusion idle

theorem transmit_kept (kept : Kept (v :: hand) vb) (closed : Closed vb.txd) :
    Kept hand (transmit vb v) ∧ Closed (transmit vb v).txd ∧ (transmit vb v).pc = vb.pc := by
  obtain ⟨k, real⟩ := kept_real kept
  rw [transmit]
  split
  case isTrue taken =>
    refine ⟨?_, closed, rfl⟩
    apply kept_lists kept (by rfl) (by rfl) (by rfl)
    intro w
    simp only [loose, count_last, count_first]
    omega
  case isFalse free =>
    have none := @tx_real _ kept.tx vb.txd.tail (by rw [closed]; exact Nat.mod_lt _ (by decide))
    have blank : vb.txd.buffer1 vb.txd.tail = .idle := by
      by_contra other
      exact free ⟨other, none⟩
    obtain ⟨ok, closed', joined⟩ := queue_ok kept.tx closed blank ⟨k, real⟩
      (by rw [real]; exact Buffer.noConfusion)
    refine ⟨?_, closed', rfl⟩
    apply kept_txd kept (by exact ok) (by rfl) (by rfl)
    intro w
    simp only [joined, count_last, count_first, loose]
    omega

end Moves

section Turns
variable {vb : Vb}

/-- The program counter moves and nothing else. -/
theorem pc_ok (ok : BusOk vb) {p : Pc} (closed : catching p = false → Closed vb.txd)
    (drained : catching p = true → vb.txd.count = 0) : BusOk { vb with pc := p } where
  kept := by
    apply kept_lists ok.kept (by rfl) (by rfl) (by rfl)
    intro v
    rfl
  txClosed := closed
  drained := drained

theorem pc_settled (ok : BusOk vb) (settled : catching vb.pc = false) {p : Pc} (still : catching p = false) :
    BusOk { vb with pc := p } := by
  apply pc_ok ok
  · intro _
    exact ok.txClosed settled
  · intro again
    rw [still] at again
    exact Bool.noConfusion again

theorem pc_drained (ok : BusOk vb) (caught : catching vb.pc = true) {p : Pc} (still : catching p = true) :
    BusOk { vb with pc := p } := by
  apply pc_ok ok
  · intro settled
    rw [still] at settled
    exact Bool.noConfusion settled
  · intro _
    exact ok.drained caught

/-- While the ring is drained the slot under the head is idle. -/
theorem drained_idle (ok : BusOk vb) (caught : catching vb.pc = true) :
    vb.txd.buffer1 vb.txd.head = .idle := by
  have window := ok.kept.tx.window
  have none := ok.drained caught
  have below := window.below
  rw [none] at window
  exact window_none window below

/-- The head of a drained ring moves on. -/
theorem drained_moved (ok : BusOk vb) (caught : catching vb.pc = true) {dl : DescriptorList} {p : Pc}
    (head : dl.head = next vb.txd.head) (count : dl.count = vb.txd.count)
    (idle : ∀ x, vb.txd.buffer1 x = .idle → dl.buffer1 x = .idle) (still : catching p = true) :
    BusOk { vb with txd := dl, pc := p } := by
  have none := ok.drained caught
  obtain ⟨ring, same⟩ := empty_moved ok.kept.tx none (count.trans none)
    (by rw [head]; exact Nat.mod_lt _ (by decide)) fun x _ blank => idle x blank
  constructor
  · apply kept_txd ok.kept (by exact ring) (by rfl) (by rfl)
    intro v
    simp only [same, loose]
  · intro settled
    rw [still] at settled
    exact Bool.noConfusion settled
  · intro _
    exact count.trans none

theorem complete_ok (ok : BusOk vb) (pc : vb.pc = .complete) (granted : Bool) :
    BusOk (taskletStep granted vb) := by
  have settled : catching vb.pc = false := by rw [pc]; rfl
  simp only [taskletStep, pc]
  rcases completed_txb ok.kept.tx with none | ⟨b, dl, took, taken⟩
  · simp only [none, ↓reduceIte]
    exact pc_settled ok settled rfl
  · obtain ⟨k, real⟩ := taken.real
    have some : b ≠ .null := by
      rw [real]
      exact Buffer.noConfusion
    simp only [took, if_neg some]
    constructor
    · apply kept_txd ok.kept (by exact taken.ok) (by rfl) (by rfl)
      intro v
      simp only [taken.left, loose, count_last, count_first]
      omega
    · intro _
      exact taken.closed (ok.txClosed settled)
    · intro (caught : catching .complete = true)
      exact Bool.noConfusion caught

theorem check_ok (ok : BusOk vb) (pc : vb.pc = .check) (granted : Bool) :
    BusOk (taskletStep granted vb) := by
  have settled : catching vb.pc = false := by rw [pc]; rfl
  have positive := ok.kept.tx.positive
  simp only [taskletStep, pc]
  split
  case isTrue few =>
    split
    case isTrue one => exact pc_settled ok settled rfl
    case isFalse other =>
      apply pc_ok ok
      · intro again
        exact Bool.noConfusion again
      · intro _
        omega
  case isFalse => exact pc_settled ok settled rfl

/-- One turn of a loop over the slots that the card has given back. -/
theorem turn_ok (ok : BusOk vb) (caught : catching vb.pc = true) {stop further : Pc} (done : catching stop = true)
    (still : catching further = true) :
    BusOk (if vb.txd.own vb.txd.head = true then { vb with pc := stop }
      else if vb.txd.buffer1 vb.txd.head ≠ .idle then { vb with pc := .errorExit }
      else { vb with txd := reown vb.txd, pc := further }) := by
  have idle := drained_idle ok caught
  split
  · exact pc_drained ok caught done
  · rw [if_neg (not_not.mpr idle)]
    exact drained_moved ok caught rfl rfl (fun _ blank => blank) still

theorem catch_up_ok (ok : BusOk vb) {behind : Nat} (pc : vb.pc = .catchUp behind) (granted : Bool) :
    BusOk (taskletStep granted vb) := by
  have caught : catching vb.pc = true := by rw [pc]; rfl
  simp only [taskletStep, pc]
  exact turn_ok ok caught rfl rfl

theorem catch_up_again_ok (ok : BusOk vb) (pc : vb.pc = .catchUpAgain) (granted : Bool) :
    BusOk (taskletStep granted vb) := by
  have caught : catching vb.pc = true := by rw [pc]; rfl
  simp only [taskletStep, pc]
  exact turn_ok ok caught rfl rfl

theorem gather_ok (ok : BusOk vb) {soft : Option Nat} {count : Nat} (pc : vb.pc = .gather soft count)
    (granted : Bool) : BusOk (taskletStep granted vb) := by
  have kept : ∀ vbb rest, vb.txComplete = vbb :: rest →
      BusOk { vb with buffers := vb.buffers ++ [vbb], txComplete := rest, pc := .gather soft (count - 1) } := by
    intro vbb rest waiting
    have same : catching (.gather soft (count - 1)) = catching vb.pc := by rw [pc]; rfl
    constructor
    · apply kept_lists ok.kept (by rfl) (by rfl) (by rfl)
      intro v
      simp only [loose, waiting, count_last, count_first]
      omega
    · intro settled
      exact ok.txClosed (same.symm.trans settled)
    · intro caught
      exact ok.drained (same.symm.trans caught)
  simp only [taskletStep, pc]
  split
  · exact kept _ _ ‹_›
  · cases soft with
    | none => exact pc_settled ok (by rw [pc]; rfl) rfl
    | some behind => exact pc_drained ok (by rw [pc]; rfl) rfl

theorem increase_ok (ok : BusOk vb) {left whole : BitVec 32} (pc : vb.pc = .increase left whole)
    (granted : Bool) : BusOk (taskletStep granted vb) := by
  have caught : catching vb.pc = true := by rw [pc]; rfl
  simp only [taskletStep, pc]
  split
  case isTrue done =>
    constructor
    · apply kept_lists ok.kept (by rfl) (by rfl) (by rfl)
      intro v
      simp only [loose, List.count_append, List.count_nil]
      omega
    · intro settled
      exact Bool.noConfusion settled
    · intro _
      exact ok.drained caught
  case isFalse more =>
    split
    case isTrue given =>
      constructor
      · constructor
        · exact ok.kept.tx
        · exact ok.kept.rx
        · exact ok.kept.rxClosed
        · intro v
          have before := ok.kept.tallied v
          simp only [alloc, ids_succ, tally, loose, count_last] at before ⊢
          omega
      · intro settled
        exact Bool.noConfusion settled
      · intro _
        exact ok.drained caught
    case isFalse => exact pc_drained ok caught rfl

theorem skip_ok (ok : BusOk vb) {left : Nat} (pc : vb.pc = .skip left) (granted : Bool) :
    BusOk (taskletStep granted vb) := by
  have caught : catching vb.pc = true := by rw [pc]; rfl
  cases left with
  | zero =>
    have none := ok.drained caught
    have below := ok.kept.tx.window.below
    simp only [taskletStep, pc]
    obtain ⟨ring, same⟩ := @ring_congr _ vb.txd { vb.txd with tail := vb.txd.head } ok.kept.tx rfl rfl rfl rfl
    constructor
    · apply kept_txd ok.kept (by exact ring) (by rfl) (by rfl)
      intro v
      simp only [same, loose]
    · intro _
      simp only [Closed, none, Int.toNat_zero, Nat.add_zero]
      exact (Nat.mod_eq_of_lt below).symm
    · intro again
      exact Bool.noConfusion again
  | succ left =>
    simp only [taskletStep, pc]
    apply drained_moved ok caught (by rfl) (by rfl) _ (by rfl)
    intro x blank
    by_cases here : x = vb.txd.head
    · rw [here]
      exact Function.update_self _ _ _
    · exact (Function.update_of_ne here _ _).trans blank

theorem tail_check_ok (ok : BusOk vb) (pc : vb.pc = .tailCheck) (granted : Bool) :
    BusOk (taskletStep granted vb) := by
  have settled : catching vb.pc = false := by rw [pc]; rfl
  simp only [taskletStep, pc]
  split
  · exact pc_settled ok settled rfl
  · exact pc_settled ok settled rfl

/-- The first of the local buffers in hand. -/
theorem first_in_hand (ok : BusOk vb) {vbb : Buffer} {rest : List Buffer} (waiting : vb.buffers = vbb :: rest) :
    Kept [vbb] { vb with buffers := rest } := by
  apply kept_lists ok.kept (by rfl) (by rfl) (by rfl)
  intro v
  simp only [loose, waiting, count_first, List.count_nil]
  omega

theorem send_ok (ok : BusOk vb) (pc : vb.pc = .send) (granted : Bool) : BusOk (taskletStep granted vb) := by
  have settled : catching vb.pc = false := by rw [pc]; rfl
  simp only [taskletStep, pc]
  split
  · exact pc_settled ok settled rfl
  · rename_i vbb rest waiting
    rw [← pc]
    obtain ⟨kept, closed, same⟩ := transmit_kept (first_in_hand ok waiting) (ok.txClosed settled)
    constructor
    · exact kept
    · intro _
      exact closed
    · intro caught
      rw [same, pc] at caught
      exact Bool.noConfusion caught

theorem receive_ok (ok : BusOk vb) {count : Nat} (pc : vb.pc = .receive count) (granted : Bool) :
    BusOk (taskletStep granted vb) := by
  have settled : catching vb.pc = false := by rw [pc]; rfl
  have closed := ok.txClosed settled
  simp only [taskletStep, pc]
  split
  · exact pc_settled ok settled rfl
  · rcases completed_rxb ok.kept.rx with none | ⟨b, dl, took, taken⟩
    · simp only [none, ↓reduceIte]
      exact pc_settled ok settled rfl
    · obtain ⟨k, real⟩ := taken.real
      have some : b ≠ .null := by
        rw [real]
        exact Buffer.noConfusion
      have ring := taken.closed ok.kept.rxClosed
      simp only [took, if_neg some]
      split
      · constructor
        · apply kept_rxd ok.kept (by exact taken.ok) (by exact ring) (by rfl) (by rfl)
          intro v
          simp only [taken.left, loose, count_last, count_first]
          omega
        · intro _
          exact closed
        · intro caught
          exact Bool.noConfusion caught
      · have inHand : Kept [b] { vb with rxd := dl, pc := .receive (count - 1) } := by
          apply kept_rxd ok.kept (by exact taken.ok) (by exact ring) (by rfl) (by rfl)
          intro v
          simp only [taken.left, loose, count_first, List.count_nil]
          omega
        obtain ⟨txd, same⟩ := submit_txd { vb with rxd := dl, pc := .receive (count - 1) } b
        constructor
        · exact submit_kept inHand
        · intro _
          rw [txd]
          exact closed
        · intro caught
          rw [same] at caught
          exact Bool.noConfusion caught

theorem resubmit_ok (ok : BusOk vb) (pc : vb.pc = .resubmit) (granted : Bool) :
    BusOk (taskletStep granted vb) := by
  have settled : catching vb.pc = false := by rw [pc]; rfl
  simp only [taskletStep, pc]
  split
  · exact pc_settled ok settled rfl
  · rename_i vbb rest waiting
    rw [← pc]
    obtain ⟨txd, same⟩ := submit_txd { vb with buffers := rest } vbb
    constructor
    · exact submit_kept (first_in_hand ok waiting)
    · intro _
      rw [txd]
      exact ok.txClosed settled
    · intro caught
      rw [same, pc] at caught
      exact Bool.noConfusion caught

theorem error_exit_ok (ok : BusOk vb) (pc : vb.pc = .errorExit) (granted : Bool) :
    BusOk (taskletStep granted vb) := by
  have settled : catching vb.pc = false := by rw [pc]; rfl
  simp only [taskletStep, pc]
  split
  · exact pc_settled ok settled rfl
  · rename_i vbb rest waiting
    rw [← pc]
    constructor
    · apply kept_lists ok.kept (by rfl) (by rfl) (by rfl)
      intro v
      simp only [loose, waiting, count_last, count_first]
      omega
    · intro _
      exact ok.txClosed settled
    · intro caught
      rw [pc] at caught
      exact Bool.noConfusion caught

theorem tasklet_step_ok (ok : BusOk vb) (granted : Bool) : BusOk (taskletStep granted vb) := by
  cases pc : vb.pc with
  | off =>
    simp only [taskletStep, pc]
    exact ok
  | complete => exact complete_ok ok pc granted
  | check => exact check_ok ok pc granted
  | catchUp => exact catch_up_ok ok pc granted
  | gather => exact gather_ok ok pc granted
  | increase => exact increase_ok ok pc granted
  | catchUpAgain => exact catch_up_again_ok ok pc granted
  | skip => exact skip_ok ok pc granted
  | tailCheck => exact tail_check_ok ok pc granted
  | send => exact send_ok ok pc granted
  | receive => exact receive_ok ok pc granted
  | resubmit => exact resubmit_ok ok pc granted
  | errorExit => exact error_exit_ok ok pc granted

end Turns

section Setup
variable {vb : Vb} {hand : List Buffer}

/-- A ring of blanks. -/
theorem blank_ring {blank : Buffer} {dl : DescriptorList} (head : dl.head = 0) (tail : dl.tail = 0)
    (count : dl.count = 0) (blanks : ∀ x, x < DRING_SIZE → dl.buffer1 x = blank) :
    RingOk blank dl ∧ Closed dl ∧ held dl = [] := by
  have none : dl.count.toNat = 0 := by omega
  have empty : walk DRING_SIZE dl.head dl.count.toNat = [] := by
    rw [none]
    rfl
  refine ⟨⟨by omega, ⟨?_, ?_, ?_, ?_⟩, ?_⟩, ?_, ?_⟩
  · rw [head]
    decide
  · rw [none]
    exact Nat.zero_le _
  · rw [empty]
    intro x member
    exact absurd member List.not_mem_nil
  · intro x inside _
    exact blanks x inside
  · rw [empty]
    intro x member
    exact absurd member List.not_mem_nil
  · rw [Closed, none, head, tail]
    rfl
  · rw [held, values, empty, List.map_nil]

/-- The pending pointers of the slots that hold buffers. -/
theorem held_pending {blank : Buffer} {dl : DescriptorList} (ok : RingOk blank dl) (v : Buffer) :
    (((List.range DRING_SIZE).filter fun i => ¬dl.buffer1 i = blank).map dl.pending).count v =
      (held dl).count v := by
  have perm := (values_perm ok.window).map dl.pending
  have same : (walk DRING_SIZE dl.head dl.count.toNat).map dl.pending = held dl :=
    List.map_congr_left fun x member => (ok.real x member).2
  rw [same] at perm
  exact perm.count_eq v

/-- The transmit ring after vb_cleanup_tx_descriptors. -/
theorem cleaned_tx (vb : Vb) : RingOk .idle (cleanupTx vb).txd ∧ Closed (cleanupTx vb).txd ∧
    held (cleanupTx vb).txd = [] :=
  blank_ring rfl rfl rfl fun _ inside => if_pos inside

theorem cleanup_tx_kept (kept : Kept hand vb) : Kept hand (cleanupTx vb) := by
  obtain ⟨ok, _, none⟩ := cleaned_tx vb
  apply kept_txd kept (by exact ok) (by rfl) (by rfl)
  intro v
  have real : ((List.range DRING_SIZE).filter fun i =>
      decide (vb.txd.buffer1 i ≠ .null ∧ vb.txd.buffer1 i ≠ .idle)) =
      (List.range DRING_SIZE).filter fun i => ¬vb.txd.buffer1 i = .idle := by
    apply List.filter_congr
    intro i member
    have some := tx_real kept.tx (List.mem_range.mp member)
    simp only [some, ne_eq, not_false_eq_true, true_and]
  have pending := held_pending kept.tx v
  rw [none]
  simp only [loose, cleanupTx, real, List.count_append, List.count_nil, pending]
  omega

theorem cleanup_rx_kept (kept : Kept hand vb) : Kept hand (cleanupRx vb) := by
  obtain ⟨ok, closed, none⟩ := @blank_ring .null (cleanupRx vb).rxd rfl rfl rfl fun _ inside => if_pos inside
  apply kept_rxd kept (by exact ok) (by exact closed) (by rfl) (by rfl)
  intro v
  have pending := held_pending kept.rx v
  rw [none]
  simp only [loose, cleanupRx, ne_eq, List.count_append, List.count_nil, pending]
  omega

theorem kept_hand (kept : Kept hand vb) {hand' : List Buffer} (same : ∀ v, hand'.count v = hand.count v) :
    Kept hand' vb := by
  apply kept_lists kept rfl rfl rfl
  intro v
  rw [same]

theorem alloc_kept (kept : Kept hand vb) : Kept ((alloc vb).1 :: hand) (alloc vb).2 := by
  refine ⟨kept.tx, kept.rx, kept.rxClosed, ?_⟩
  intro v
  have before := kept.tallied v
  simp only [alloc, ids_succ, count_first, tally, loose] at before ⊢
  omega

/-- The rings and the program counter are as they were. -/
def SameRings (vb vb' : Vb) : Prop := vb'.txd = vb.txd ∧ vb'.rxd = vb.rxd ∧ vb'.pc = vb.pc

theorem collect_rx_kept (n : Nat) (kept : Kept hand vb) :
    Kept ((collectRx n vb).1 ++ hand) (collectRx n vb).2 ∧ SameRings vb (collectRx n vb).2 := by
  induction n generalizing vb hand with
  | zero => exact ⟨kept, rfl, rfl, rfl⟩
  | succ n ih =>
    rw [collectRx]
    split
    · obtain ⟨rest, same⟩ := ih (alloc_kept kept)
      refine ⟨kept_hand rest ?_, same⟩
      intro v
      simp only [List.cons_append, count_first, List.count_append]
      omega
    · rename_i vbb freeRx waiting
      have inHand : Kept (vbb :: hand) { vb with freeRx := freeRx } := by
        apply kept_lists kept (by rfl) (by rfl) (by rfl)
        intro v
        simp only [loose, waiting, count_first]
        omega
      obtain ⟨rest, same⟩ := ih inHand
      refine ⟨kept_hand rest ?_, same⟩
      intro v
      simp only [List.cons_append, count_first, List.count_append]
      omega

theorem collect_tx_kept (n : Nat) (kept : Kept hand vb) :
    Kept ((collectTx n vb).1 ++ hand) (collectTx n vb).2 ∧ SameRings vb (collectTx n vb).2 := by
  induction n generalizing vb hand with
  | zero => exact ⟨kept, rfl, rfl, rfl⟩
  | succ n ih =>
    obtain ⟨rest, same⟩ := ih (alloc_kept kept)
    refine ⟨kept_hand rest ?_, same⟩
    intro v
    simp only [collectTx, List.cons_append, count_first, List.count_append]
    omega

theorem submit_all_kept {buffers : List Buffer} (kept : Kept (buffers ++ hand) vb) :
    Kept hand (buffers.foldl submitRxb vb) ∧ (buffers.foldl submitRxb vb).txd = vb.txd ∧
      (buffers.foldl submitRxb vb).pc = vb.pc := by
  induction buffers generalizing vb with
  | nil => exact ⟨kept, rfl, rfl⟩
  | cons v buffers ih =>
    obtain ⟨txd, pc⟩ := submit_txd vb v
    obtain ⟨rest, same⟩ := ih (submit_kept kept)
    rw [txd, pc] at same
    exact ⟨rest, same⟩

theorem transmit_all_kept {buffers : List Buffer} (kept : Kept (buffers ++ hand) vb) (closed : Closed vb.txd) :
    Kept hand (buffers.foldl transmit vb) ∧ Closed (buffers.foldl transmit vb).txd ∧
      (buffers.foldl transmit vb).pc = vb.pc := by
  induction buffers generalizing vb with
  | nil => exact ⟨kept, closed, rfl⟩
  | cons v buffers ih =>
    obtain ⟨kept', closed', pc⟩ := transmit_kept kept closed
    obtain ⟨rest, last, same⟩ := ih kept' closed'
    rw [pc] at same
    exact ⟨rest, last, same⟩

theorem setup_ok (kept : Kept [] (cleanupTx vb)) (off : vb.pc = .off) :
    BusOk (setupDescriptors vb) ∧ (setupDescriptors vb).pc = .off := by
  obtain ⟨_, closed, _⟩ := cleaned_tx vb
  obtain ⟨collected, rings⟩ := collect_rx_kept DRING_SIZE (cleanup_rx_kept kept)
  obtain ⟨submitted, txd, pc⟩ := submit_all_kept collected
  obtain ⟨ready, rings'⟩ := collect_tx_kept _ submitted
  obtain ⟨sent, last, pc'⟩ := transmit_all_kept ready (by
    rw [rings'.1, txd, rings.1]
    exact closed)
  have same : (setupDescriptors vb).pc = .off := by
    rw [← off]
    exact pc'.trans (rings'.2.2.trans (pc.trans rings.2.2))
  refine ⟨⟨sent, fun _ => last, ?_⟩, same⟩
  intro caught
  rw [same] at caught
  exact Bool.noConfusion caught

theorem started_ok (minTx maxLatency : BitVec 32) (locked : Bool) :
    BusOk (setupDescriptors (unstarted minTx maxLatency locked)) := by
  apply (setup_ok _ rfl).1
  obtain ⟨ok, _, none⟩ := cleaned_tx (unstarted minTx maxLatency locked)
  obtain ⟨rx, closed, none'⟩ := @blank_ring .null noDescriptors rfl rfl rfl fun _ _ => rfl
  refine ⟨ok, rx, closed, ?_⟩
  intro v
  have nothing : ((List.range DRING_SIZE).filter fun i =>
      decide (noDescriptors.buffer1 i ≠ .null ∧ noDescriptors.buffer1 i ≠ .idle)) = [] := by
    rw [List.filter_eq_nil_iff]
    intro i _
    simp [noDescriptors]
  have freed : (cleanupTx (unstarted minTx maxLatency locked)).freed = [] := by
    change [] ++ [] ++ List.map _ (List.filter (fun i =>
      decide (noDescriptors.buffer1 i ≠ .null ∧ noDescriptors.buffer1 i ≠ .idle)) _) = []
    rw [nothing]
    rfl
  rw [tally, none, loose, freed]
  simp only [cleanupTx, unstarted, none', List.count_nil]
  rfl

theorem restart_ok (ok : BusOk vb) (off : vb.pc = .off) : BusOk (restart vb) := by
  obtain ⟨setup, pc⟩ := setup_ok (cleanup_tx_kept ok.kept) off
  constructor
  · apply kept_lists setup.kept (by rfl) (by rfl) (by rfl)
    intro v
    rfl
  · exact setup.txClosed
  · exact setup.drained

end Setup

section Law
variable {vb vb' : Vb}

theorem event_ok (ok : BusOk vb) {e : Event} (step : apply vb e = some vb') : BusOk vb' := by
  cases e with
  | hwTransmit =>
    rw [← Option.some.inj step, hwTransmit]
    split
    · obtain ⟨ring, same⟩ := own_ok ok.kept.tx (Function.update vb.txd.own vb.txAt false) vb.txd.whole
      constructor
      · apply kept_txd ok.kept (by exact ring) (by rfl) (by rfl)
        intro v
        simp only [same, loose]
      · exact ok.txClosed
      · exact ok.drained
    · exact ok
  | hwReceive whole =>
    rw [← Option.some.inj step, hwReceive]
    split
    · obtain ⟨ring, same⟩ := own_ok ok.kept.rx (Function.update vb.rxd.own vb.rxAt false)
        (Function.update vb.rxd.whole vb.rxAt whole)
      constructor
      · apply kept_rxd ok.kept (by exact ring) (by exact ok.kept.rxClosed) (by rfl) (by rfl)
        intro v
        simp only [same, loose]
      · exact ok.txClosed
      · exact ok.drained
    · exact ok
  | tasklet =>
    rw [apply] at step
    split at step
    case isTrue off =>
      rw [← Option.some.inj step]
      exact pc_settled ok (by rw [off]; rfl) rfl
    case isFalse => cases step
  | step granted =>
    rw [apply] at step
    split at step
    case isTrue => cases step
    case isFalse =>
      rw [← Option.some.inj step]
      exact tasklet_step_ok ok granted
  | restart =>
    rw [apply] at step
    split at step
    case isTrue off =>
      rw [← Option.some.inj step]
      exact restart_ok ok off
    case isFalse => cases step
  | settings minTx maxLatency locked =>
    rw [← Option.some.inj step]
    constructor
    · apply kept_lists ok.kept (by rfl) (by rfl) (by rfl)
      intro v
      rfl
    · exact ok.txClosed
    · exact ok.drained

/-- The buffers in the slots of a ring. -/
def ringBuffers (blank : Buffer) (dl : DescriptorList) : List Buffer :=
  ((List.range DRING_SIZE).filter fun i => ¬dl.buffer1 i = blank).map dl.buffer1

/-- Every place a buffer can be in, the freed ones last. -/
def places (vb : Vb) : List Buffer :=
  ringBuffers .idle vb.txd ++ ringBuffers .null vb.rxd ++ vb.txComplete ++ vb.freeRx ++ vb.buffers ++
    vb.grown ++ vb.freed

/-- Each buffer allocated is in one place once; as many transmit slots as txd.count says
    hold buffers and the others the idle one; they are those from the head on, and the tail
    stands behind them except while a tasklet catches up with the hardware. -/
structure BusLaw (vb : Vb) : Prop where
  once : (places vb).Nodup
  all : ∀ v, v ∈ places vb ↔ ∃ k, k < vb.allocated ∧ v = .vbb k
  counted : vb.txd.count = ((List.range DRING_SIZE).filter fun i => ¬vb.txd.buffer1 i = .idle).length
  interval : ∀ i, i < DRING_SIZE → (vb.txd.buffer1 i ≠ .idle ↔
    ∃ k : Nat, k < vb.txd.count ∧ i = (vb.txd.head + k) % DRING_SIZE)
  behind : catching vb.pc = false → vb.txd.tail = (vb.txd.head + vb.txd.count.toNat) % DRING_SIZE

theorem ring_buffers_held {blank : Buffer} {dl : DescriptorList} (ok : RingOk blank dl) (v : Buffer) :
    (ringBuffers blank dl).count v = (held dl).count v :=
  ((values_perm ok.window).map dl.buffer1).count_eq v

theorem ok_law (ok : BusOk vb) : BusLaw vb := by
  have total : ∀ v, (places vb).count v = (ids vb.allocated).count v := by
    intro v
    have tallied := ok.kept.tallied v
    simp only [tally, loose, List.count_nil] at tallied
    simp only [places, List.count_append, ring_buffers_held ok.kept.tx, ring_buffers_held ok.kept.rx]
    omega
  have single : (ids vb.allocated).Nodup := by
    apply List.nodup_range.map
    intro a b same
    exact Buffer.vbb.inj same
  have window := ok.kept.tx.window
  have positive := ok.kept.tx.positive
  constructor
  · rw [List.nodup_iff_count_le_one] at single ⊢
    intro v
    rw [total]
    exact single v
  · intro v
    rw [← List.count_pos_iff, total]
    constructor
    · exact ids_real
    · intro ⟨k, inside, same⟩
      rw [List.count_pos_iff]
      exact List.mem_map.mpr ⟨k, List.mem_range.mpr inside, same.symm⟩
  · have length := (values_perm window).length_eq
    rw [walk_length] at length
    rw [length]
    omega
  · intro i inside
    have slots : vb.txd.buffer1 i ≠ .idle ↔ i ∈ walk DRING_SIZE vb.txd.head vb.txd.count.toNat := by
      constructor
      · intro some
        by_contra absent
        exact some (window.spare i inside absent)
      · exact window.filled i
    rw [slots, mem_walk]
    constructor
    · intro ⟨k, before, same⟩
      exact ⟨k, by omega, same⟩
    · intro ⟨k, before, same⟩
      exact ⟨k, by omega, same⟩
  · exact ok.txClosed

/-- Over every run, whatever the hardware does between two turns of the tasklet. -/
theorem every_buffer_once_run (vb : Vb) (reached : Reach busSystem anyStep vb) : BusLaw vb := by
  apply ok_law
  apply @invariant_run _ _ _ _ BusOk _ _ vb reached
  · intro vb ⟨minTx, maxLatency, locked, started⟩
    rw [started]
    exact started_ok minTx maxLatency locked
  · intro vb e vb' ok _ step
    exact event_ok ok step

/-- A tasklet that finds nothing sent yet gives up at a full ring. -/
def crowded : List Event := [.tasklet, .step true, .step true, .step true, .step true]

theorem every_buffer_once_crowded :
    ∃ vb, Reach busSystem anyStep vb ∧ vb.pc = .errorExit ∧ BusLaw vb := by
  obtain ⟨vb, followed, seen⟩ := Option.map_eq_some_iff.mp
    (by decide +kernel : (follow apply anyStep crowded (setupDescriptors (unstarted 128 128 false))).map
      (fun vb => vb.pc) = some .errorExit)
  have reached := @follow_reach _ _ busSystem _ _ _ (fun _ _ _ moved => moved) _ _ _
    (.start ⟨128, 128, false, rfl⟩) followed
  exact ⟨vb, reached, seen, every_buffer_once_run vb reached⟩

end Law

end Voicebus
