import Dahdi.Xpp.BriSender

/-!
The D-channel over whole runs: hdlc_pending counts the frames in the write ring, and
the commands sent are the pieces of the frames written, in order.
-/
namespace BriRuns
open Fasthdlc Channel CyclicCursor RingInvariant RingContents HdlcSender GuardedRun MarkedPieces
open BriDchan BriSender
variable {T : Type}

/-- The commands of a frame, as the firmware takes them. -/
def pieces (cmds : List RegCmd) : List (Piece Octet) := cmds.map RegCmd.payload

section Filling
variable {c : Chan T}

theorem fill_payload {buf : List Octet} {len : BitVec 32} (counted : buf.length = len.toNat)
    (small : len.toNat ≤ MULTIBYTE_MAX_LEN) (eoframe : Bool) :
    (fillMultibyte eoframe buf len.toNat).payload = ⟨buf, eoframe⟩ := by
  have limit : MULTIBYTE_MAX_LEN = 5 := rfl
  have fits : (BitVec.ofNat 3 len.toNat).toNat = len.toNat := by
    rw [BitVec.toNat_ofNat]
    omega
  simp only [RegCmd.payload, fillMultibyte, fits]
  rw [← counted, List.take_length, List.take_length]

/-- What the loop of tx_dchan leaves of the queue. -/
structure Filled (c : Chan T) (room : Nat) (ended : TxEnd) (cmds : List RegCmd) (c' : Chan T) : Prop where
  queued : Queued c'
  flags : c'.flags = c.flags
  some : ended ≠ .nothing
  taken : pieces cmds ++ waiting c'.write = waiting c.write
  frames : c'.write.filled.length + (if ended = .eoframe then 1 else 0) = c.write.filled.length
  moved : 0 < room → cmds ≠ []

theorem fill_frame (room : Nat) (queued : Queued c) (held : 0 ≤ c.write.outbuf) :
    ∃ ended cmds c', fillFrame room c = some (ended, cmds, c') ∧ Filled c room ended cmds c' := by
  induction room generalizing c with
  | zero =>
    refine ⟨.full, [], c, rfl, queued, rfl, by decide, rfl, ?_, ?_⟩
    · rw [if_neg (by decide), Nat.add_zero]
    · intro positive
      exact absurd positive (Nat.lt_irrefl 0)
  | succ room ih =>
    obtain ⟨eoframe, data, len, next, run, served⟩ := getbuf_served queued held
    obtain ⟨positive, small⟩ := served.sized
    have limit : MULTIBYTE_MAX_LEN = 5 := rfl
    have int : ¬ len.toInt ≤ 0 := by
      rw [BitVec.toInt_eq_toNat_of_lt (by omega)]
      omega
    have payload := fill_payload served.counted small (decide (eoframe ≠ 0))
    by_cases ended : eoframe = 0
    · obtain ⟨ended', cmds, last, rest, filled⟩ := ih served.queued (served.held ended)
      have frames := served.frames
      rw [if_pos ended, Nat.add_zero] at frames
      refine ⟨ended', fillMultibyte (decide (eoframe ≠ 0)) data len.toNat :: cmds, last, ?_, filled.queued,
        filled.flags.trans served.flags, filled.some, ?_, ?_, ?_⟩
      · simp only [fillFrame, run, if_neg int, ended, ne_eq, not_true_eq_false, ↓reduceIte, rest, Option.map_some]
      · rw [served.taken, ← filled.taken, pieces, List.map_cons, payload]
        rfl
      · rw [← frames]
        exact filled.frames
      · intro _
        exact List.cons_ne_nil _ _
    · have frames := served.frames
      rw [if_neg ended] at frames
      refine ⟨.eoframe, [fillMultibyte (decide (eoframe ≠ 0)) data len.toNat], next, ?_, served.queued,
        served.flags, by decide, ?_, ?_, ?_⟩
      · simp only [fillFrame, run, if_neg int, if_pos ended]
      · rw [served.taken, pieces, List.map_cons, payload]
        rfl
      · rw [if_pos rfl]
        exact frames
      · intro _
        exact List.cons_ne_nil _ _

end Filling

/-- hdlc_pending and the write calls under way account for the frames in the ring, and
    what is sent and what waits for the frames written. -/
structure CardOk (c : Card T) : Prop where
  queued : Queued c.dchan
  hardhdlc : c.dchan.flags.nostdtxrx = true
  counted : c.hdlcPending + c.inFlight = c.dchan.write.filled.length
  positive : 0 ≤ c.hdlcPending
  sizes : ∀ f ∈ c.committed, 3 ≤ f.length
  stream : pieces c.sent ++ waiting c.dchan.write =
    (c.committed.map body).flatMap (cut MULTIBYTE_MAX_LEN)

section Steps
variable {env : Env T} {c : Card T}

theorem fresh_ok (fresh : Fresh c) : CardOk c := by
  have none := valid_none fresh.valid fresh.nothing
  have empty : bodies c.dchan.write = [] := by
    simp only [bodies, contents, none, List.map_nil]
  constructor
  · refine ⟨fresh.two, fresh.allocated, fresh.valid, ?_, ?_, ?_⟩
    all_goals
      intro x member
      rw [none] at member
      exact absurd member List.not_mem_nil
  · exact fresh.hardhdlc
  · rw [fresh.pending, fresh.inFlight, none]
    rfl
  · rw [fresh.pending]
  · rw [fresh.committed]
    intro f member
    exact absurd member List.not_mem_nil
  · rw [fresh.sent, fresh.committed, waiting, empty]
    rfl

/-- What one tick does to a card that works. -/
structure Ticked (c : Card T) (t : Tick) (c' : Card T) : Prop where
  ok : CardOk c'
  committed : c'.committed = c.committed
  inFlight : c'.inFlight = c.inFlight
  idle : c.hdlcPending = 0 → c' = c
  fewer : c.hdlcPending ≠ 0 → t.works = true →
    (waiting c'.dchan.write).length < (waiting c.dchan.write).length
  still : (waiting c'.dchan.write).length ≤ (waiting c.dchan.write).length

theorem tick_ok (ok : CardOk c) (t : Tick) : ∃ c', txDchan c t = some c' ∧ Ticked c t c' := by
  have stays : ∀ _ : c.hdlcPending = 0 ∨ t.works = false, Ticked c t c := by
    intro why
    refine ⟨ok, rfl, rfl, fun _ => rfl, ?_, Nat.le_refl _⟩
    intro pending works
    rcases why with zero | idle
    · exact absurd zero pending
    · rw [works] at idle
      exact absurd idle (by decide)
  by_cases zero : c.hdlcPending = 0
  · exact ⟨c, by rw [txDchan, if_pos zero], stays (Or.inl zero)⟩
  by_cases idle : t.works = false
  · refine ⟨c, ?_, stays (Or.inr idle)⟩
    rw [txDchan, if_neg zero]
    cases both : t.registered && t.running with
    | false => rw [if_pos rfl]
    | true =>
      simp only [Tick.works, both, Bool.true_and] at idle
      rw [if_neg (by decide), if_pos idle]
  have works : (t.registered && t.running) = true ∧ t.allocated = true := by
    rw [Bool.not_eq_false] at idle
    simp only [Tick.works, Bool.and_eq_true] at idle ⊢
    exact idle
  have positive := ok.positive
  have counted := ok.counted
  have held : 0 ≤ c.dchan.write.outbuf := by
    by_contra none
    rw [valid_none ok.queued.valid (by omega), List.length_nil] at counted
    omega
  obtain ⟨ended, cmds, next, run, filled⟩ := fill_frame maxRequests ok.queued held
  have moved := filled.moved (by decide)
  have length := congrArg List.length filled.taken
  rw [List.length_append, pieces, List.length_map] at length
  have sent := List.length_pos_of_ne_nil moved
  have stream : pieces (c.sent ++ cmds) ++ waiting next.write =
      (c.committed.map body).flatMap (cut MULTIBYTE_MAX_LEN) := by
    rw [← ok.stream, ← filled.taken, pieces, pieces, pieces, List.map_append, List.append_assoc]
  have frames := filled.frames
  cases ended with
  | nothing => exact absurd rfl filled.some
  | full =>
    refine ⟨{ c with dchan := next, sent := c.sent ++ cmds }, ?_, ?_⟩
    · rw [txDchan, if_neg zero, works.1, if_neg (by decide), works.2, if_neg (by decide), run]
    · rw [if_neg (by decide), Nat.add_zero] at frames
      refine ⟨⟨filled.queued, ?_, ?_, positive, ok.sizes, stream⟩, rfl, rfl, ?_, ?_, ?_⟩
      · simp only [filled.flags, ok.hardhdlc]
      · simp only [frames, counted]
      · intro none
        exact absurd none zero
      · intro _ _
        simp only
        omega
      · simp only
        omega
  | eoframe =>
    refine ⟨{ c with dchan := next, sent := c.sent ++ cmds, hdlcPending := c.hdlcPending - 1 }, ?_, ?_⟩
    · rw [txDchan, if_neg zero, works.1, if_neg (by decide), works.2, if_neg (by decide), run]
    · rw [if_pos rfl] at frames
      refine ⟨⟨filled.queued, ?_, ?_, ?_, ok.sizes, stream⟩, rfl, rfl, ?_, ?_, ?_⟩
      · simp only [filled.flags, ok.hardhdlc]
      · simp only
        omega
      · simp only
        omega
      · intro none
        exact absurd none zero
      · intro _ _
        simp only
        omega
      · simp only
        omega

theorem announce_ok (ok : CardOk c) (some : 0 < c.inFlight) : CardOk (hardXmit c) := by
  have counted := ok.counted
  have positive := ok.positive
  have hard := ok.hardhdlc
  refine ⟨ok.queued, hard, ?_, ?_, ok.sizes, ok.stream⟩
  · simp only [hardXmit, hard, ↓reduceIte]
    omega
  · simp only [hardXmit, hard, ↓reduceIte]
    omega

theorem flush_write (c : Chan T) (mask : Nat) :
    (flush c mask).write = (if mask &&& flushWrite ≠ 0 then c.write.clear c.numbufs 0 else c.write) ∧
      (flush c mask).numbufs = c.numbufs ∧ (flush c mask).flags = c.flags := by
  by_cases reading : mask &&& flushRead = 0 <;> by_cases writing : mask &&& flushWrite = 0 <;>
    by_cases events : mask &&& flushEvent = 0 <;> simp [flush, reading, writing, events]

theorem flush_ok (ok : CardOk c) {mask : Nat} (careful : Careful c (.flush mask)) :
    CardOk { c with dchan := flush c.dchan mask } := by
  obtain ⟨write, numbufs, flags⟩ := flush_write c.dchan mask
  have queued := ok.queued
  by_cases writing : mask &&& flushWrite ≠ 0
  · rw [if_pos writing] at write
    have filled := valid_none queued.valid (careful writing)
    have counted := ok.counted
    have before : waiting c.dchan.write = [] := by
      simp only [waiting, bodies, contents, filled, List.map_nil, unsent]
    have empty : (c.dchan.write.clear c.dchan.numbufs 0).filled = [] := rfl
    have after : waiting (c.dchan.write.clear c.dchan.numbufs 0) = [] := by
      simp only [waiting, bodies, contents, empty, List.map_nil, unsent]
    refine ⟨⟨?_, ?_, ?_, ?_, ?_, ?_⟩, ?_, ?_, ok.positive, ok.sizes, ?_⟩
    all_goals simp only [write, numbufs, flags]
    · exact queued.two
    · exact queued.allocated
    · exact valid_start (by have two := queued.two; omega)
    · simp only [empty, List.not_mem_nil, false_implies, implies_true]
    · simp only [empty, List.not_mem_nil, false_implies, implies_true]
    · simp only [empty, List.not_mem_nil, false_implies, implies_true]
    · exact ok.hardhdlc
    · rw [counted, filled, empty]
    · rw [after, ← ok.stream, before]
  · rw [if_neg writing] at write
    refine ⟨⟨?_, ?_, ?_, ?_, ?_, ?_⟩, ?_, ?_, ok.positive, ok.sizes, ?_⟩
    all_goals simp only [write, numbufs, flags]
    · exact queued.two
    · exact queued.allocated
    · exact queued.valid
    · exact queued.small
    · exact queued.started
    · exact queued.later
    · exact ok.hardhdlc
    · exact ok.counted
    · exact ok.stream

theorem write_data_small (c : Chan T) (usr : List Octet) : (writeData c usr).length < 2 ^ 16 := by
  have count : usr.length % 2 ^ 16 < 2 ^ 16 := Nat.mod_lt _ (by decide)
  have amnt : (writeAmnt c usr).toNat < 2 ^ 16 := by
    simp only [writeAmnt]
    split <;> split <;> omega
  simp only [writeData]
  split
  · rw [List.length_map, List.length_range]
    omega
  · rw [List.length_take]
    omega

/-- The frame check takes the place of the last two bytes. -/
theorem body_with_fcs (env : Env T) {data : List Octet} (long : 2 ≤ data.length) :
    body (withFcs env data) = body data := by
  rw [body, body, with_fcs_length, withFcs, if_neg (by omega), List.take_append_of_le_length (by
    rw [List.length_take]
    omega), List.take_take, Nat.min_self]

/-- The frame as storeWrite leaves it. -/
theorem stored_body (env : Env T) (c : Chan T) (res : Int) (buf : Buffer) {data : List Octet}
    (long : 2 ≤ data.length) : body (frameAt (storeWrite env c res buf data) res.toNat) = body data := by
  by_cases check : c.flags.fcs = true
  · rw [store_write_frame env c res buf data check, body_with_fcs env long]
  · simp only [frameAt, storeWrite, check, Bool.false_eq_true, ↓reduceIte, set_same, Option.getD_some,
      Int.toNat_natCast, bytes_copied]

theorem start_same (env : Env T) (c : Chan T) : (chanWriteStart env c).2.write = c.write ∧
    (chanWriteStart env c).2.numbufs = c.numbufs ∧ (chanWriteStart env c).2.flags = c.flags ∧
    (chanWriteStart env c).2.blocksize = c.blocksize ∧ (chanWriteStart env c).2.lin2x = c.lin2x ∧
    ((chanWriteStart env c).1 < 0 ∨ (chanWriteStart env c).1 = c.write.inbuf) := by
  rw [chanWriteStart]
  by_cases tone : (env.toneBusy c.tones && !c.pseudo) = true <;>
    by_cases event : c.eventinidx = c.eventoutidx <;> by_cases room : 0 ≤ c.write.inbuf <;>
    simp [tone, event, room, elast, eagain]

/-- A frame of three bytes at least joins the queue. -/
theorem commit_queued {c : Chan T} (queued : Queued c) (free : 0 ≤ c.write.inbuf) {usr : List Octet}
    (some : 0 < writeAmnt c usr) (long : 3 ≤ (writeData c usr).length) :
    ∃ c', chanWriteCommit env c c.write.inbuf usr = .some c' ∧ Queued c' ∧ c'.flags = c.flags ∧
      c'.write.filled.length = c.write.filled.length + 1 ∧
      ∀ most, unsent most (bodies c'.write) (progress c'.write) =
        unsent most (bodies c.write) (progress c.write) ++ cut most (body (writeData c usr)) := by
  have inside : c.write.inbuf.toNat < c.numbufs := by
    rcases queued.valid.inRange with none | ⟨low, high⟩ <;> omega
  obtain ⟨buf, present⟩ := Option.ne_none_iff_exists'.mp (queued.allocated _ inside)
  have unused := valid_free queued.valid free
  have small := write_data_small c usr
  generalize stored : storeWrite env c c.write.inbuf buf (writeData c usr) = w
  have last : body (frameAt w c.write.inbuf.toNat) = body (writeData c usr) := by
    rw [← stored]
    exact stored_body env c c.write.inbuf buf (by omega)
  have others : ∀ x, x ≠ c.write.inbuf.toNat →
      w.idx x = c.write.idx x ∧ w.n x = c.write.n x ∧ w.buf x = c.write.buf x := by
    intro x other
    rw [← stored]
    exact ⟨set_other _ _ other, set_other _ _ other, set_other _ _ other⟩
  have here : w.idx c.write.inbuf.toNat = 0 ∧ w.n c.write.inbuf.toNat = (writeData c usr).length ∧
      w.buf c.write.inbuf.toNat ≠ none := by
    rw [← stored]
    simp only [storeWrite, set_same]
    exact ⟨trivial, trivial, by simp⟩
  have cursors : w.inbuf = c.write.inbuf ∧ w.outbuf = c.write.outbuf ∧ w.filled = c.write.filled := by
    rw [← stored]
    exact ⟨rfl, rfl, rfl⟩
  have kept : ∀ x ∈ c.write.filled, x ≠ c.write.inbuf.toNat := by
    intro x held same
    rw [same] at held
    exact unused held
  have before : contents w = contents c.write := by
    apply contents_congr cursors.2.2
    intro x held
    obtain ⟨_, count, pointer⟩ := others x (kept x held)
    exact ⟨pointer, count⟩
  have valid' := valid_fill queued.two queued.valid free
  obtain ⟨write, numbufs, flags, _⟩ := announce_same { c with write := w } c.write.inbuf
  simp only at write numbufs flags
  have handed : (w.handOver c.numbufs c.write.inbuf).filled = c.write.filled ++ [c.write.inbuf.toNat] := by
    simp only [Ring.handOver, cursors.2.2]
  have member : ∀ x ∈ (w.handOver c.numbufs c.write.inbuf).filled,
      x ∈ c.write.filled ∧ x ≠ c.write.inbuf.toNat ∨ x = c.write.inbuf.toNat := by
    intro x held
    rw [handed, List.mem_append, List.mem_singleton] at held
    rcases held with old | new
    · exact Or.inl ⟨old, kept x old⟩
    · exact Or.inr new
  have out : (w.handOver c.numbufs c.write.inbuf).outbuf = fillOut c.write.inbuf c.write.outbuf := by
    simp only [Ring.handOver, cursors.2.1, fillOut]
  have begun : progress (w.handOver c.numbufs c.write.inbuf) = progress c.write := by
    simp only [progress, out, fillOut]
    by_cases none : c.write.outbuf < 0
    · simp only [if_pos none, if_neg (by omega : ¬ c.write.inbuf < 0)]
      exact congrArg Int.toNat here.1
    · obtain ⟨rest, filled⟩ := valid_head queued.valid (by omega)
      have other := kept c.write.outbuf.toNat (by rw [filled]; exact List.mem_cons_self)
      simp only [if_neg none]
      exact congrArg Int.toNat (others _ other).1
  refine ⟨announceWrite { c with write := w } c.write.inbuf, ?_, ?_, flags, ?_, ?_⟩
  · rw [chanWriteCommit, if_neg (by omega)]
    simp only [present, stored]
  · refine ⟨by rw [numbufs]; exact queued.two, ?_, ?_, ?_, ?_, ?_⟩
    · intro x below
      rw [numbufs] at below
      rw [write]
      rcases Nat.decEq x c.write.inbuf.toNat with other | same
      · have pointer := queued.allocated x below
        rw [← (others x other).2.2] at pointer
        exact pointer
      · rw [same]
        exact here.2.2
    · rw [write, numbufs, handed, out]
      simp only [Ring.handOver, cursors.2.1]
      exact valid'
    · rw [write]
      intro x held
      change w.n x < 2 ^ 16
      rcases member x held with ⟨old, other⟩ | new
      · rw [(others x other).2.1]
        exact queued.small x old
      · rw [new, here.2.1]
        omega
    · rw [write]
      intro x held
      change 0 ≤ w.idx x ∧ w.idx x + 2 < w.n x
      rcases member x held with ⟨old, other⟩ | new
      · rw [(others x other).1, (others x other).2.1]
        exact queued.started x old
      · rw [new, here.1, here.2.1]
        omega
    · rw [write]
      intro x held first
      change w.idx x = 0
      rcases member x held with ⟨old, other⟩ | new
      · rw [(others x other).1]
        apply queued.later x old
        intro same
        apply first
        have some : ¬ c.write.outbuf < 0 := by
          intro none
          rw [valid_none queued.valid none] at old
          exact List.not_mem_nil old
        rw [out, fillOut, if_neg some]
        exact same
      · rw [new]
        exact here.1
  · rw [write, handed, List.length_append]
    rfl
  · have joined : bodies (w.handOver c.numbufs c.write.inbuf) = bodies c.write ++ [body (writeData c usr)] := by
      rw [bodies, contents_hand_over, before, List.map_append, List.map_singleton, last, bodies]
    intro most
    rw [write, joined, begun, unsent_append]
    intro empty
    rw [bodies, List.map_eq_nil_iff, contents, List.map_eq_nil_iff] at empty
    rw [progress]
    split
    case isTrue => rfl
    case isFalse some =>
      obtain ⟨rest, filled⟩ := valid_head queued.valid (by omega)
      rw [filled] at empty
      exact absurd empty (List.cons_ne_nil _ _)

/-- A write call: refused, or a frame of three bytes at least joins the queue. -/
theorem write_queued (env : Env T) {c : Chan T} (queued : Queued c) {usr : List Octet}
    (careful : 0 < writeAmnt c usr → 3 ≤ (writeData c usr).length) :
    let s := chanWriteStart env c
    Queued s.2 ∧ s.2.write = c.write ∧ s.2.flags = c.flags ∧ (¬ (s.1 < 0 ∨ writeAmnt s.2 usr ≤ 0) →
      3 ≤ (writeData s.2 usr).length ∧
      ∃ c', chanWriteCommit env s.2 s.1 usr = some c' ∧ Queued c' ∧ c'.flags = c.flags ∧
        c'.write.filled.length = c.write.filled.length + 1 ∧
        ∀ most, unsent most (bodies c'.write) (progress c'.write) =
          unsent most (bodies c.write) (progress c.write) ++ cut most (body (writeData s.2 usr))) := by
  obtain ⟨write, numbufs, flags, blocksize, lin2x, result⟩ := start_same env c
  have amnt : ∀ d : Chan T, d.flags = c.flags → d.blocksize = c.blocksize →
      writeAmnt d usr = writeAmnt c usr := by
    intro d flags blocksize
    simp only [writeAmnt, flags, blocksize]
  have data : ∀ d : Chan T, d.flags = c.flags → d.blocksize = c.blocksize →
      d.lin2x = c.lin2x → writeData d usr = writeData c usr := by
    intro d flags blocksize lin2x
    simp only [writeData, amnt d flags blocksize, flags, lin2x]
  have queued' : Queued (chanWriteStart env c).2 := by
    refine ⟨?_, ?_, ?_, ?_, ?_, ?_⟩
    all_goals simp only [write, numbufs]
    · exact queued.two
    · exact queued.allocated
    · exact queued.valid
    · exact queued.small
    · exact queued.started
    · exact queued.later
  refine ⟨queued', write, flags, fun accepted => ?_⟩
  rw [not_or] at accepted
  have index : (chanWriteStart env c).1 = (chanWriteStart env c).2.write.inbuf := by
    rw [write]
    exact result.resolve_left accepted.1
  have long : 3 ≤ (writeData (chanWriteStart env c).2 usr).length := by
    rw [data _ flags blocksize lin2x]
    apply careful
    rw [← amnt _ flags blocksize]
    omega
  obtain ⟨next, run, queued'', flags', frames, joined⟩ :=
    @commit_queued T env _ queued' (by omega) usr (by omega) long
  rw [write] at frames joined
  refine ⟨long, next, ?_, queued'', flags'.trans flags, frames, joined⟩
  rw [index]
  exact run

theorem write_ok (ok : CardOk c) {usr : List Octet} (careful : Careful c (.write usr)) :
    ∃ c', chanWrite env c usr = some c' ∧ CardOk c' := by
  obtain ⟨queued, write, flags, commits⟩ := write_queued env ok.queued careful
  by_cases none : usr.length % 2 ^ 16 < 1
  · exact ⟨c, by rw [chanWrite, if_pos none], ok⟩
  by_cases refused : (chanWriteStart env c.dchan).1 < 0 ∨ writeAmnt (chanWriteStart env c.dchan).2 usr ≤ 0
  · refine ⟨{ c with dchan := (chanWriteStart env c.dchan).2 }, ?_, ?_⟩
    · rw [chanWrite, if_neg none]
      exact if_pos refused
    · refine ⟨queued, ?_, ?_, ok.positive, ok.sizes, ?_⟩
      all_goals simp only [write, flags]
      · exact ok.hardhdlc
      · exact ok.counted
      · exact ok.stream
  · obtain ⟨long, next, step, queued', flags', frames, joined⟩ := commits refused
    refine ⟨{ c with
      dchan := next
      inFlight := c.inFlight + 1
      committed := c.committed ++ [writeData (chanWriteStart env c.dchan).2 usr] }, ?_, ?_⟩
    · rw [chanWrite, if_neg none]
      simp only [refused, ↓reduceIte, step, Option.map_some]
    · have counted := ok.counted
      refine ⟨queued', ?_, ?_, ok.positive, ?_, ?_⟩
      · simp only [flags', ok.hardhdlc]
      · simp only [frames]
        omega
      · intro f member
        rcases List.mem_append.mp member with old | new
        · exact ok.sizes f old
        · rw [List.mem_singleton.mp new]
          exact long
      · simp only [waiting, joined]
        rw [← waiting, List.map_append, List.flatMap_append, ← ok.stream, List.map_singleton, List.flatMap_singleton,
          List.append_assoc]

theorem event_ok (ok : CardOk c) {e : Event} (careful : Careful c e) {c' : Card T}
    (step : applyEvent env c e = some c') : CardOk c' := by
  cases e with
  | write usr =>
    obtain ⟨next, run, ok'⟩ := @write_ok T env c ok usr careful
    rw [applyEvent, run] at step
    rwa [← Option.some.inj step]
  | announce =>
    rw [applyEvent] at step
    split at step
    case isTrue some =>
      rw [← Option.some.inj step]
      exact announce_ok ok some
    case isFalse => exact absurd step (by simp)
  | flush mask =>
    rw [applyEvent] at step
    rw [← Option.some.inj step]
    exact flush_ok ok careful
  | tick t =>
    obtain ⟨next, run, ticked⟩ := tick_ok ok t
    rw [applyEvent, run] at step
    rw [← Option.some.inj step]
    exact ticked.ok

theorem idle_ticks {ticks : List Tick} {c' : Card T} (idle : c.hdlcPending = 0)
    (run : runTicks c ticks = some c') : c'.hdlcPending = 0 := by
  induction ticks with
  | nil =>
    rw [← Option.some.inj run]
    exact idle
  | cons t ticks ih =>
    rw [runTicks, txDchan, if_pos idle] at run
    exact ih run

theorem ticks_ok (ok : CardOk c) (ticks : List Tick) :
    ∃ c', runTicks c ticks = some c' ∧ CardOk c' ∧ c'.committed = c.committed ∧
      c'.inFlight = c.inFlight ∧
      (c'.hdlcPending = 0 ∨
        (waiting c'.dchan.write).length + (ticks.filter Tick.works).length ≤
          (waiting c.dchan.write).length) := by
  induction ticks generalizing c with
  | nil => exact ⟨c, rfl, ok, rfl, rfl, Or.inr (Nat.le_refl _)⟩
  | cons t ticks ih =>
    obtain ⟨next, run, ticked⟩ := tick_ok ok t
    obtain ⟨last, runs, ok', committed, inFlight, drained⟩ := ih ticked.ok
    refine ⟨last, ?_, ok', committed.trans ticked.committed, inFlight.trans ticked.inFlight, ?_⟩
    · rw [runTicks, run]
      exact runs
    · by_cases pending : c.hdlcPending = 0
      · left
        have same := ticked.idle pending
        subst same
        exact idle_ticks pending runs
      · rcases drained with zero | fewer
        · exact Or.inl zero
        · right
          have still := ticked.still
          cases works : t.works with
          | false =>
            rw [List.filter_cons_of_neg (by rw [works]; decide)]
            omega
          | true =>
            have less := ticked.fewer pending works
            rw [List.filter_cons_of_pos works, List.length_cons]
            omega

end Steps

/-- The pieces of all frames written, in write order. -/
def stream (c : Card T) : List (Piece Octet) := (c.committed.map body).flatMap (cut MULTIBYTE_MAX_LEN)

/-- Frames leave whole, cut in pieces and in order; a counter of zero leaves none in the
    ring; and the ticks that find the span running and a free xframe bring it to zero. -/
structure DchanLaw (c : Card T) : Prop where
  order : pieces c.sent ++ waiting c.dchan.write = stream c
  cuts : ∀ f ∈ c.committed, CutOf MULTIBYTE_MAX_LEN (f.take (f.length - 2)) (cut MULTIBYTE_MAX_LEN (body f))
  left : c.hdlcPending = 0 → c.inFlight = 0 → contents c.dchan.write = []
  drains : ∃ enough, ∀ ticks, enough ≤ (ticks.filter Tick.works).length →
    ∃ c', runTicks c ticks = some c' ∧ c'.hdlcPending = 0 ∧
      (c.inFlight = 0 → pieces c'.sent = stream c)

theorem ok_empty {c : Card T} (ok : CardOk c) (zero : c.hdlcPending = 0) (quiet : c.inFlight = 0) :
    contents c.dchan.write = [] := by
  have counted := ok.counted
  rw [zero, quiet] at counted
  have none : c.dchan.write.filled = [] := List.eq_nil_of_length_eq_zero (by omega)
  rw [contents, none, List.map_nil]

theorem ok_drains {c : Card T} (ok : CardOk c) {ticks : List Tick}
    (enough : (waiting c.dchan.write).length ≤ (ticks.filter Tick.works).length) :
    ∃ c', runTicks c ticks = some c' ∧ c'.hdlcPending = 0 ∧ (c.inFlight = 0 → pieces c'.sent = stream c) := by
  obtain ⟨c', run, ok', committed, inFlight, drained⟩ := ticks_ok ok ticks
  have zero : c'.hdlcPending = 0 := by
    rcases drained with zero | fewer
    · exact zero
    · have counted := ok'.counted
      have positive := ok'.positive
      have frames := @unsent_length _ MULTIBYTE_MAX_LEN (bodies c'.dchan.write) (progress c'.dchan.write)
      have count : (bodies c'.dchan.write).length = c'.dchan.write.filled.length := by
        simp only [bodies, contents, List.length_map]
      rw [count] at frames
      change _ ≤ (waiting c'.dchan.write).length at frames
      omega
  refine ⟨c', run, zero, ?_⟩
  intro quiet
  have none := ok_empty ok' zero (inFlight.trans quiet)
  have sent := ok'.stream
  rw [waiting, bodies, none, List.map_nil, unsent, List.append_nil, committed] at sent
  exact sent

/-- In every run of frames of three bytes at least in which no flush finds a frame in
    the write ring. -/
theorem dchan_law_run (env : Env T) (c : Card T) (reached : Reach (cardSystem env) BriDchan.Careful c) :
    DchanLaw c := by
  have ok : CardOk c := by
    apply @invariant_run _ _ _ _ CardOk _ _ c reached
    · intro c fresh
      exact fresh_ok fresh
    · intro c e c' ok careful step
      exact event_ok ok careful step
  constructor
  · exact ok.stream
  · intro f member
    have long := ok.sizes f member
    apply cut_of_cut (by decide)
    apply List.ne_nil_of_length_pos
    simp only [List.length_take]
    omega
  · exact ok_empty ok
  · exact ⟨_, fun ticks enough => ok_drains ok enough⟩

section Examples

instance (c : Card T) (e : Event) : Decidable (BriDchan.Careful c e) :=
  match e with
  | .write usr => inferInstanceAs (Decidable (0 < writeAmnt c.dchan usr → 3 ≤ (writeData c.dchan usr).length))
  | .announce => isTrue trivial
  | .flush mask => inferInstanceAs (Decidable (mask &&& flushWrite ≠ 0 → c.dchan.write.outbuf < 0))
  | .tick _ => isTrue trivial

/-- A D-channel with four buffers of sixteen bytes. -/
def dchanStart : Card Unit where
  dchan := (reallocbufs { zeroChan with flags := { zeroChan.flags with nostdtxrx := true } } 16 4 true true).2
  hdlcPending := 0
  inFlight := 0
  committed := []
  sent := []

theorem dchan_start_fresh : Fresh dchanStart where
  two := by decide
  allocated := by
    intro x below
    have inside : x < 4 := below
    simp [dchanStart, reallocbufs, clampNumbufs, maxNumBufs, Ring.realloc, Ring.clear, inside]
  valid := valid_start (by decide)
  nothing := by decide
  hardhdlc := rfl
  pending := rfl
  inFlight := rfl
  committed := rfl
  sent := rfl

def workingTick : Event := .tick ⟨true, true, true⟩

/-- A frame of nine bytes, of which seven leave in two pieces. -/
theorem dchan_law_nine :
    ∃ c, Reach (cardSystem silentEnv) BriDchan.Careful c ∧
      pieces c.sent = [⟨[1, 2, 3, 4, 5], false⟩, ⟨[6, 7], true⟩] ∧ c.hdlcPending = 0 ∧ DchanLaw c := by
  obtain ⟨c, followed, seen⟩ := Option.map_eq_some_iff.mp
    (by decide +kernel : (follow (applyEvent silentEnv) BriDchan.Careful
      [.write [1, 2, 3, 4, 5, 6, 7, 8, 9], .announce, workingTick] dchanStart).map
        (fun c => (pieces c.sent, c.hdlcPending)) = some ([⟨[1, 2, 3, 4, 5], false⟩, ⟨[6, 7], true⟩], 0))
  have reached := @follow_reach _ _ (cardSystem silentEnv) _ _ _ (fun _ _ _ moved => moved) _ _ _
    (.start dchan_start_fresh) followed
  obtain ⟨sent, pending⟩ := Prod.mk.inj seen
  exact ⟨c, reached, sent, pending, dchan_law_run silentEnv c reached⟩

/-- With nothing in the ring tx_dchan frees its xframe and leaves the counter. -/
theorem stuck_ticks {c c' : Card T} {ticks : List Tick} (none : c.dchan.write.outbuf < 0)
    (run : runTicks c ticks = some c') : c' = c := by
  have serve : fillFrame maxRequests c.dchan = some (.nothing, [], c.dchan) := by
    have idle : hdlcGetbuf c.dchan (BitVec.ofNat 32 MULTIBYTE_MAX_LEN) = some (-1, [], 0, c.dchan) := by
      rw [hdlcGetbuf, if_neg (by omega)]
    rw [show maxRequests = 50 + 1 from rfl, fillFrame, idle]
    rfl
  have stays : ∀ t, txDchan c t = some c := by
    intro t
    rw [txDchan, serve]
    split
    · rfl
    · split
      · rfl
      · split <;> rfl
  induction ticks with
  | nil => exact (Option.some.inj run).symm
  | cons t ticks ih =>
    rw [runTicks, stays] at run
    exact ih run

theorem stuck_breaks {c : Card T} (none : c.dchan.write.outbuf < 0) (pending : c.hdlcPending ≠ 0) :
    ¬DchanLaw c := by
  intro law
  obtain ⟨enough, drains⟩ := law.drains
  have works : ((List.replicate enough (Tick.mk true true true)).filter Tick.works).length = enough := by
    rw [List.filter_replicate, if_pos (by decide), List.length_replicate]
  obtain ⟨c', run, zero, _⟩ := drains (List.replicate enough ⟨true, true, true⟩) (Nat.le_of_eq works.symm)
  rw [stuck_ticks none run] at zero
  exact pending zero

/-- A frame of two bytes, and a frame that a flush throws away, leave the counter at
    one for ever. -/
theorem pending_without_frames :
    ∃ short flushed, Reach (cardSystem silentEnv) anyStep short ∧
      Reach (cardSystem silentEnv) anyStep flushed ∧ short.committed = [[1, 2]] ∧
      flushed.committed = [[1, 2, 3]] ∧ short.hdlcPending = 1 ∧ flushed.hdlcPending = 1 ∧
      ¬DchanLaw short ∧ ¬DchanLaw flushed := by
  obtain ⟨short, followed, seen⟩ := Option.map_eq_some_iff.mp
    (by decide +kernel : (follow (applyEvent silentEnv) anyStep [.write [1, 2], .announce, workingTick]
      dchanStart).map (fun c => (c.committed, c.hdlcPending, c.dchan.write.outbuf)) = some ([[1, 2]], 1, -1))
  obtain ⟨flushed, followed', seen'⟩ := Option.map_eq_some_iff.mp
    (by decide +kernel : (follow (applyEvent silentEnv) anyStep [.write [1, 2, 3], .announce, .flush flushWrite]
      dchanStart).map (fun c => (c.committed, c.hdlcPending, c.dchan.write.outbuf)) = some ([[1, 2, 3]], 1, -1))
  have steps : ∀ c e c', applyEvent silentEnv c e = some c' → (cardSystem silentEnv).step c e c' :=
    fun _ _ _ moved => moved
  have reached := follow_reach steps (.start dchan_start_fresh) followed
  have reached' := follow_reach steps (.start dchan_start_fresh) followed'
  simp only [Prod.mk.injEq] at seen seen'
  refine ⟨short, flushed, reached, reached', seen.1, seen'.1, seen.2.1, seen'.2.1, ?_, ?_⟩
  · exact stuck_breaks (by omega) (by omega)
  · exact stuck_breaks (by omega) (by omega)

end Examples

end BriRuns
