import Dahdi.Channel.HdlcPieces
import Dahdi.Wcb4xxp.AlarmDebounce
import Dahdi.Xpp.BriRuns

/-!
D-channel frames through the FIFOs of a wcb4xxp span: hdlc_rx_frame and hdlc_tx_frame.
-/
namespace Wcb4xxpHdlc
open Fasthdlc Channel CyclicCursor RingInvariant RingContents HdlcPieces GuardedRun MarkedPieces
open BriSender (Queued Taken body bodies)
open HdlcSender (progress)
open Wcb4xxpAlarm (Params Port hfcStartSt)
variable {T : Type}

def WCB4XXP_HDLC_BUF_LEN : Nat := 32

section Code

/-- The receive FIFO: the lengths of the frames in it, without their STAT bytes, and its bytes. -/
structure RxFifo where
  zlens : List Nat
  bytes : List Octet
  deriving DecidableEq, Repr

def putPiece (sigchan : Option (Chan T)) (piece : List Octet) : Option (Option (Chan T)) :=
  match sigchan with
  | none => some none
  | some c => (hdlcPutbuf c piece).map some

/-- The loop of hdlc_rx_frame: the channel, the bytes left in the FIFO and the last byte read. -/
def rxLoop (sigchan : Option (Chan T)) (bytes : List Octet) (zleft : Nat) :
    Option (Option (Chan T) × List Octet × Octet) :=
  if WCB4XXP_HDLC_BUF_LEN < zleft then
    match putPiece sigchan (bytes.take WCB4XXP_HDLC_BUF_LEN) with
    | none => none
    | some sigchan => rxLoop sigchan (bytes.drop WCB4XXP_HDLC_BUF_LEN) (zleft - WCB4XXP_HDLC_BUF_LEN)
  else
    -- the STAT byte is not passed on
    match if 1 < zleft then putPiece sigchan (bytes.take (zleft - 1)) else some sigchan with
    | none => none
    | some sigchan => some (sigchan, bytes.drop zleft, bytes.getD (zleft - 1) 0)
termination_by zleft
decreasing_by
  have : WCB4XXP_HDLC_BUF_LEN = 32 := rfl
  omega

/-- The end of hdlc_rx_frame for a span with a signalling channel. -/
def rxEnd (zlen : Nat) (stat : Octet) (c : Chan T) : Chan T :=
  if zlen < 3 then hdlcAbort c eventAbort
  else if stat ≠ 0 then hdlcAbort c (if stat = 0xff then eventAbort else eventBadfcs)
  else hdlcFinish c

/-- hdlc_rx_frame: the frames left, the FIFO and the channel. -/
def hdlcRxFrame (sigchan : Option (Chan T)) (fifo : RxFifo) : Option (Nat × RxFifo × Option (Chan T)) :=
  match fifo.zlens with
  | [] => some (0, fifo, sigchan)
  | zlen :: zlens =>
    match rxLoop sigchan fifo.bytes (zlen + 1) with
    | none => none
    | some (sigchan, bytes, stat) => some (zlens.length, ⟨zlens, bytes⟩, sigchan.map (rxEnd zlen stat))

/-- What is written to the transmit FIFO: a byte to A_FIFO_DATA0, or V_INC_F to A_INC_RES_FIFO. -/
inductive TxWrite where
  | data (b : Octet)
  | incF
  deriving DecidableEq, Repr

/-- The sending half of a span. `inFlight` counts the write calls that have handed their frame
    over and not announced it yet; `committed` is a history variable, the frames handed over. -/
structure Span (T : Type) where
  sigchan : Chan T
  hdlcPending : Int
  inFlight : Nat
  committed : List (List Octet)
  fifo : List TxWrite
  line : Port

/-- hdlc_tx_frame: whether there is more of the frame, and the span. -/
def hdlcTxFrame (p : Params) (s : Span T) : Option (Bool × Span T) :=
  let line := if p.teMode && s.line.newalarm ≠ 0 then hfcStartSt p s.line else s.line
  match hdlcGetbuf s.sigchan (BitVec.ofNat 32 WCB4XXP_HDLC_BUF_LEN) with
  | none => none
  | some (res, buf, size, sigchan) =>
    let s := { s with sigchan, line }
    if 0 < size then
      let s := { s with fifo := s.fifo ++ buf.map .data }
      if res ≠ 0 then
        some (false, { s with fifo := s.fifo ++ [.incF], hdlcPending := s.hdlcPending - 1 })
      else some (true, s)
    else some (decide (res = 0), s)

/-- dahdi_chan_write up to its last critical section. -/
def chanWrite (env : Env T) (s : Span T) (usr : List Octet) : Option (Span T) :=
  if usr.length % 2 ^ 16 < 1 then some s
  else
    let (res, sigchan) := chanWriteStart env s.sigchan
    if res < 0 ∨ writeAmnt sigchan usr ≤ 0 then some { s with sigchan }
    else (chanWriteCommit env sigchan res usr).map fun sigchan' =>
      { s with
        sigchan := sigchan'
        inFlight := s.inFlight + 1
        committed := s.committed ++ [writeData sigchan usr] }

/-- b4xxp_hdlc_hard_xmit, at the end of dahdi_chan_write. -/
def hdlcHardXmit (s : Span T) : Span T :=
  { s with inFlight := s.inFlight - 1, hdlcPending := s.hdlcPending + 1 }

inductive Event where
  | write (usr : List Octet)
  | announce
  | txFrame

def applyEvent (env : Env T) (p : Params) (s : Span T) : Event → Option (Span T)
  | .write usr => chanWrite env s usr
  | .announce => if 0 < s.inFlight then some (hdlcHardXmit s) else none
  | .txFrame => (hdlcTxFrame p s).map Prod.snd

/-- A span whose signalling channel has buffers and nothing written yet. -/
structure Fresh (s : Span T) : Prop where
  two : 2 ≤ s.sigchan.numbufs
  allocated : Allocated s.sigchan.numbufs s.sigchan.write
  valid : Valid s.sigchan.numbufs s.sigchan.write.inbuf s.sigchan.write.outbuf s.sigchan.write.filled
  nothing : s.sigchan.write.outbuf < 0
  pending : s.hdlcPending = 0
  inFlight : s.inFlight = 0
  committed : s.committed = []
  fifo : s.fifo = []

def spanSystem (env : Env T) (p : Params) : System (Span T) Event where
  start := Fresh
  step s e s' := applyEvent env p s e = some s'

/-- No frame of fewer than three bytes is written. -/
def LongFrames (s : Span T) : Event → Prop
  | .write usr => 0 < writeAmnt s.sigchan usr → 3 ≤ (writeData s.sigchan usr).length
  | _ => True

def txCalls (p : Params) : Nat → Span T → Option (Span T)
  | 0, s => some s
  | k + 1, s => (hdlcTxFrame p s).bind fun (_, s) => txCalls p k s

end Code

section Receiving
variable {c c0 : Chan T} {got left rest : List Octet} {stat : Octet} {spilled : Nat}

/-- A channel with a buffer for the next frame. -/
structure Room (c : Chan T) : Prop where
  sized : 0 < c.blocksize
  free : 0 ≤ c.read.inbuf
  idx : c.read.idx c.read.inbuf.toNat = 0
  present : c.read.buf c.read.inbuf.toNat ≠ none
  apart : c.read.inbuf.toNat ∉ c.read.filled

theorem room_holding (room : Room c) : Holding c c [] 0 := by
  obtain ⟨buf, present⟩ := Option.ne_none_iff_exists'.mp room.present
  exact ⟨rfl, rfl, rfl, rfl, rfl, room.idx, Int.le_of_lt room.sized, ⟨buf, present, rfl⟩, fun _ _ => rfl,
    ⟨rfl, rfl⟩, fun _ => rfl⟩

theorem put_fitting (room : Room c0) (holding : Holding c0 c got spilled) (piece : List Octet)
    (fits : ((got.length + piece.length : Nat) : Int) ≤ c0.blocksize) :
    ∃ c' spilled', putPiece (some c) piece = some (some c') ∧ Holding c0 c' (got ++ piece) spilled' := by
  obtain ⟨c', spilled', put, holds, _⟩ := hard_piece holding room.free room.sized piece
  rw [assemble, if_pos fits] at holds
  refine ⟨c', spilled', ?_, holds⟩
  rw [putPiece, put]
  rfl

/-- The loop passes on what is left of the frame and stops behind its STAT byte. -/
theorem rx_loop (room : Room c0) (holding : Holding c0 c got spilled)
    (fits : ((got.length + left.length : Nat) : Int) ≤ c0.blocksize) :
    ∃ c' spilled', rxLoop (some c) (left ++ stat :: rest) (left.length + 1) = some (some c', rest, stat) ∧
      Holding c0 c' (got ++ left) spilled' := by
  have limit : WCB4XXP_HDLC_BUF_LEN = 32 := rfl
  induction size : left.length using Nat.strongRecOn generalizing left c got spilled with
  | ind size ih =>
    rw [rxLoop]
    by_cases truncated : 32 < left.length + 1
    · have before : 32 ≤ left.length := by omega
      have first : (left ++ stat :: rest).take 32 = left.take 32 := List.take_append_of_le_length before
      have behind : (left ++ stat :: rest).drop 32 = left.drop 32 ++ stat :: rest :=
        List.drop_append_of_le_length before
      have taken : (left.take 32).length = 32 := by
        rw [List.length_take]
        omega
      have dropped : (left.drop 32).length = left.length - 32 := List.length_drop
      obtain ⟨c', spilled', put, holds⟩ := put_fitting room holding (left.take 32) (by rw [taken]; omega)
      have whole : got ++ left.take 32 ++ left.drop 32 = got ++ left := by
        rw [List.append_assoc, List.take_append_drop]
      obtain ⟨c'', spilled'', run, holds'⟩ := ih (left.drop 32).length (by omega) holds
        (by rw [List.length_append, taken, dropped]; omega) rfl
      rw [dropped, show left.length - 32 + 1 = left.length + 1 - 32 by omega] at run
      rw [whole] at holds'
      refine ⟨c'', spilled'', ?_, holds'⟩
      rw [limit, ← size, if_pos truncated, first, put, behind]
      exact run
    · have piece : (left ++ stat :: rest).take left.length = left := List.take_left
      have behind : (left ++ stat :: rest).drop (left.length + 1) = rest := by
        rw [List.drop_length_add_append]
        rfl
      have last : (left ++ stat :: rest).getD left.length 0 = stat := by
        rw [List.getD_append_right _ _ _ _ (Nat.le_refl _), Nat.sub_self]
        rfl
      rw [limit, ← size, if_neg truncated, Nat.add_sub_cancel, piece, behind, last]
      by_cases some_left : 1 < left.length + 1
      · obtain ⟨c', spilled', put, holds⟩ := put_fitting room holding left fits
        refine ⟨c', spilled', ?_, holds⟩
        rw [if_pos some_left, put]
      · have none : left = [] := List.length_eq_zero_iff.mp (by omega)
        refine ⟨c, spilled, ?_, ?_⟩
        · rw [if_neg some_left]
        · rw [none, List.append_nil]
          exact holding

theorem aborted_contents (holding : Holding c0 c got spilled) (room : Room c0) (event : Nat) :
    contents (hdlcAbort c event).read = contents c0.read := by
  obtain ⟨n, filled⟩ := holding.ready
  have same : contents c.read = contents c0.read := by
    refine contents_congr filled fun x held => ⟨holding.others x ?_, by rw [n]⟩
    rintro rfl
    exact room.apart held
  have read : contents (hdlcAbort c event).read = contents c.read := by
    have free : 0 ≤ c.read.inbuf := by
      rw [holding.inbuf]
      exact room.free
    rw [hdlcAbort, if_pos free]
    split
    · rw [qevent_same]
      exact contents_congr rfl fun _ _ => ⟨rfl, rfl⟩
    · exact contents_congr rfl fun _ _ => ⟨rfl, rfl⟩
  exact read.trans same

/-- The frames that the reader finds. -/
def received (data : List Octet) (stat : Octet) : List (List Octet) :=
  if 3 ≤ data.length ∧ stat = 0 then [data] else []

theorem end_contents (holding : Holding c0 c got spilled) (room : Room c0) (stat : Octet) :
    contents (rxEnd got.length stat c).read = contents c0.read ++ received got stat := by
  rw [rxEnd, received]
  by_cases short : got.length < 3
  · rw [if_pos short, if_neg (fun long => by omega), List.append_nil]
    exact aborted_contents holding room _
  · rw [if_neg short]
    by_cases bad : stat ≠ 0
    · have nothing : ¬ (3 ≤ got.length ∧ stat = 0) := fun good => bad good.2
      rw [if_pos bad, if_neg nothing, List.append_nil]
      exact aborted_contents holding room _
    · have some_data : got ≠ [] := List.ne_nil_of_length_pos (by omega)
      rw [if_neg bad, if_pos ⟨by omega, not_not.mp bad⟩]
      have finished := holding_finished holding room.free room.apart
      rwa [if_neg some_data] at finished

/-- hdlc_rx_frame takes the frame and its STAT byte from the FIFO, and makes a good frame readable. -/
theorem rx_frame (room : Room c) {data : List Octet} (fits : (data.length : Int) ≤ c.blocksize) (stat : Octet)
    (zlens : List Nat) (rest : List Octet) :
    ∃ c', hdlcRxFrame (some c) ⟨data.length :: zlens, data ++ stat :: rest⟩ =
        some (zlens.length, ⟨zlens, rest⟩, some c') ∧
      contents c'.read = contents c.read ++ received data stat := by
  obtain ⟨c', spilled, run, holds⟩ := @rx_loop T c c [] data rest stat 0 room (room_holding room) (by
    rw [List.length_nil, Nat.zero_add]
    exact fits)
  refine ⟨rxEnd data.length stat c', ?_, end_contents holds room stat⟩
  rw [hdlcRxFrame]
  dsimp only
  rw [run]
  rfl

end Receiving

section Sending
variable {s : Span T} {p : Params} {env : Env T}

def TxWrite.ofPiece (piece : Piece Octet) : List TxWrite :=
  piece.data.map .data ++ if piece.last then [.incF] else []

/-- A frame as it goes to the FIFO, without the two bytes of its frame check. -/
def frameWrites (frame : List Octet) : List TxWrite :=
  (frame.take (frame.length - 2)).map .data ++ [.incF]

def waiting (c : Chan T) : List (Piece Octet) :=
  unsent WCB4XXP_HDLC_BUF_LEN (bodies c.write) (progress c.write)

theorem cut_writes {most : Nat} (positive : 0 < most) (message : List Octet) :
    (cut most message).flatMap TxWrite.ofPiece = message.map .data ++ [.incF] := by
  induction size : message.length using Nat.strongRecOn generalizing message with
  | ind size ih =>
    by_cases short : message.length ≤ most
    · rw [cut_short short, List.flatMap_singleton]
      rfl
    · have rest := ih (message.drop most).length (by rw [List.length_drop]; omega) (message.drop most) rfl
      rw [cut_long positive (by omega), List.flatMap_cons, rest, TxWrite.ofPiece]
      simp only [Bool.false_eq_true, ↓reduceIte, List.append_nil]
      rw [← List.append_assoc, ← List.map_append, List.take_append_drop]

/-- hdlc_pending and the write calls under way account for the frames in the ring, and the FIFO
    and what waits for the frames written. -/
structure SpanOk (s : Span T) : Prop where
  queued : Queued s.sigchan
  counted : s.hdlcPending + s.inFlight = s.sigchan.write.filled.length
  done : s.fifo.count .incF + s.sigchan.write.filled.length = s.committed.length
  stream : s.fifo ++ (waiting s.sigchan).flatMap TxWrite.ofPiece = s.committed.flatMap frameWrites

theorem fresh_ok (fresh : Fresh s) : SpanOk s := by
  have none := valid_none fresh.valid fresh.nothing
  have empty : bodies s.sigchan.write = [] := by rw [bodies, contents, none, List.map_nil, List.map_nil]
  have nothing : waiting s.sigchan = [] := by rw [waiting, empty, unsent]
  have absent : ∀ {P : Nat → Prop} x, x ∈ s.sigchan.write.filled → P x := by
    intro P x member
    rw [none] at member
    exact absurd member List.not_mem_nil
  refine ⟨⟨fresh.two, fresh.allocated, fresh.valid, absent, absent, absent⟩, ?_, ?_, ?_⟩
  · rw [fresh.pending, fresh.inFlight, none]
    rfl
  · rw [fresh.fifo, fresh.committed, none]
    rfl
  · rw [fresh.fifo, fresh.committed, nothing]
    rfl

/-- What one call of hdlc_tx_frame does to a span that works. -/
structure Called (s s' : Span T) : Prop where
  ok : SpanOk s'
  committed : s'.committed = s.committed
  inFlight : s'.inFlight = s.inFlight
  fewer : (waiting s'.sigchan).length ≤ (waiting s.sigchan).length - 1

theorem waiting_none (ok : SpanOk s) (none : s.sigchan.write.outbuf < 0) : waiting s.sigchan = [] := by
  rw [waiting, bodies, contents, valid_none ok.queued.valid none, List.map_nil, List.map_nil, unsent]

theorem count_data (buf : List Octet) : (buf.map TxWrite.data).count .incF = 0 := by
  rw [List.count_eq_zero]
  intro member
  obtain ⟨b, _, same⟩ := List.mem_map.mp member
  cases same

theorem tx_ok (p : Params) (ok : SpanOk s) : ∃ more s', hdlcTxFrame p s = some (more, s') ∧ Called s s' := by
  rw [hdlcTxFrame]
  by_cases held : 0 ≤ s.sigchan.write.outbuf
  · obtain ⟨res, buf, size, sigchan, run, taken⟩ :=
      @BriSender.getbuf_taken T s.sigchan WCB4XXP_HDLC_BUF_LEN ok.queued held (by decide) (by decide)
    have some_data : 0 < size := by
      rw [BitVec.lt_def]
      exact taken.sized.1
    have served : waiting s.sigchan = ⟨buf, decide (res ≠ 0)⟩ :: waiting sigchan := taken.taken
    have stream := ok.stream
    rw [served, List.flatMap_cons, TxWrite.ofPiece] at stream
    have counted := ok.counted
    have done := ok.done
    have frames := taken.frames
    have fewer : (waiting sigchan).length ≤ (waiting s.sigchan).length - 1 := by
      rw [served]
      exact Nat.le_refl _
    rw [run]
    dsimp only
    rw [if_pos some_data]
    by_cases ended : res ≠ 0
    · rw [if_neg ended] at frames
      rw [decide_eq_true ended, if_pos rfl] at stream
      rw [if_pos ended]
      refine ⟨_, _, rfl, ⟨taken.queued, ?_, ?_, ?_⟩, rfl, rfl, fewer⟩
      · dsimp only
        omega
      · dsimp only
        rw [List.count_append, List.count_append, count_data, List.count_singleton_self]
        omega
      · rw [← stream]
        simp only [List.append_assoc]
    · have more : res = 0 := not_not.mp ended
      rw [if_pos more, Nat.add_zero] at frames
      simp only [more, ne_eq, not_true_eq_false, decide_false, Bool.false_eq_true, ↓reduceIte,
        List.append_nil] at stream
      rw [if_neg ended]
      refine ⟨_, _, rfl, ⟨taken.queued, ?_, ?_, ?_⟩, rfl, rfl, fewer⟩
      · dsimp only
        omega
      · dsimp only
        rw [List.count_append, count_data]
        omega
      · rw [← stream]
        simp only [List.append_assoc]
  · have idle : hdlcGetbuf s.sigchan (BitVec.ofNat 32 WCB4XXP_HDLC_BUF_LEN) = some (-1, [], 0, s.sigchan) := by
      rw [hdlcGetbuf, if_neg (by omega)]
    have none := waiting_none ok (by omega)
    rw [idle]
    dsimp only
    rw [if_neg (by decide)]
    refine ⟨_, _, rfl, ⟨ok.queued, ok.counted, ok.done, ok.stream⟩, rfl, rfl, ?_⟩
    rw [none]
    exact Nat.zero_le _

theorem announce_ok (ok : SpanOk s) (some_call : 0 < s.inFlight) : SpanOk (hdlcHardXmit s) := by
  have counted := ok.counted
  refine ⟨ok.queued, ?_, ok.done, ok.stream⟩
  rw [hdlcHardXmit]
  dsimp only
  omega

theorem write_ok (ok : SpanOk s) {usr : List Octet}
    (long : 0 < writeAmnt s.sigchan usr → 3 ≤ (writeData s.sigchan usr).length) :
    ∃ s', chanWrite env s usr = some s' ∧ SpanOk s' := by
  obtain ⟨queued, write, _, commits⟩ := BriRuns.write_queued env ok.queued long
  rw [chanWrite]
  by_cases none : usr.length % 2 ^ 16 < 1
  · rw [if_pos none]
    exact ⟨s, rfl, ok⟩
  rw [if_neg none]
  dsimp only
  by_cases refused : (chanWriteStart env s.sigchan).1 < 0 ∨ writeAmnt (chanWriteStart env s.sigchan).2 usr ≤ 0
  · rw [if_pos refused]
    refine ⟨_, rfl, queued, ?_, ?_, ?_⟩
    · dsimp only
      rw [write]
      exact ok.counted
    · dsimp only
      rw [write]
      exact ok.done
    · dsimp only [waiting]
      rw [write]
      exact ok.stream
  · obtain ⟨_, next, step, queued', _, frames, joined⟩ := commits refused
    have counted := ok.counted
    have done := ok.done
    rw [if_neg refused, step]
    refine ⟨_, rfl, queued', ?_, ?_, ?_⟩
    · dsimp only
      omega
    · dsimp only
      rw [List.length_append, List.length_singleton]
      omega
    · dsimp only [waiting]
      rw [joined, List.flatMap_append, cut_writes (by decide), List.flatMap_append, List.flatMap_singleton,
        ← ok.stream, List.append_assoc]
      rfl

theorem event_ok {e : Event} {s' : Span T} (ok : SpanOk s) (long : LongFrames s e)
    (step : applyEvent env p s e = some s') : SpanOk s' := by
  cases e with
  | write usr =>
    obtain ⟨next, run, ok'⟩ := @write_ok T s env ok usr long
    rw [applyEvent, run] at step
    rw [← Option.some.inj step]
    exact ok'
  | announce =>
    rw [applyEvent] at step
    split at step
    case isTrue some_call =>
      rw [← Option.some.inj step]
      exact announce_ok ok some_call
    case isFalse => cases step
  | txFrame =>
    obtain ⟨more, next, run, called⟩ := tx_ok p ok
    rw [applyEvent, run] at step
    rw [← Option.some.inj step]
    exact called.ok

theorem calls_ok (p : Params) (k : Nat) (ok : SpanOk s) :
    ∃ s', txCalls p k s = some s' ∧ SpanOk s' ∧ s'.committed = s.committed ∧ s'.inFlight = s.inFlight ∧
      (waiting s'.sigchan).length ≤ (waiting s.sigchan).length - k := by
  induction k generalizing s with
  | zero => exact ⟨s, rfl, ok, rfl, rfl, Nat.le_refl _⟩
  | succ k ih =>
    obtain ⟨more, next, run, called⟩ := tx_ok p ok
    obtain ⟨last, runs, ok', committed, inFlight, fewer⟩ := ih called.ok
    refine ⟨last, ?_, ok', committed.trans called.committed, inFlight.trans called.inFlight, ?_⟩
    · rw [txCalls, run]
      exact runs
    · have := called.fewer
      omega

/-- Frames leave whole and in order, each with its increment; hdlc_pending is lowered once for
    each; repeated calls of hdlc_tx_frame send all of them, and none overruns the local buffer. -/
structure TxLaw (p : Params) (s : Span T) : Prop where
  order : ∃ left, s.fifo ++ left = s.committed.flatMap frameWrites
  counted : s.hdlcPending + s.inFlight + s.fifo.count .incF = s.committed.length
  sends : ∃ enough, ∀ k, enough ≤ k → ∃ s', txCalls p k s = some s' ∧
    s'.fifo = s.committed.flatMap frameWrites ∧ s'.hdlcPending + s.inFlight = 0
  within : ∀ res buf size c', hdlcGetbuf s.sigchan (BitVec.ofNat 32 WCB4XXP_HDLC_BUF_LEN) =
    some (res, buf, size, c') → buf.length ≤ WCB4XXP_HDLC_BUF_LEN

/-- Whatever the write ring holds, dahdi_hdlc_getbuf copies no more than the local buffer takes. -/
theorem getbuf_within {c c' : Chan T} {res : Int} {buf : List Octet} {size : BitVec 32}
    (run : hdlcGetbuf c (BitVec.ofNat 32 WCB4XXP_HDLC_BUF_LEN) = some (res, buf, size, c')) :
    buf.length ≤ WCB4XXP_HDLC_BUF_LEN := by
  have limit : (BitVec.ofNat 32 WCB4XXP_HDLC_BUF_LEN).toNat = WCB4XXP_HDLC_BUF_LEN := rfl
  rw [hdlcGetbuf] at run
  split at run
  case isFalse =>
    cases run
    exact Nat.zero_le _
  case isTrue =>
    dsimp only at run
    split at run
    case h_1 => cases run
    case h_2 buffer present =>
      split at run
      case isTrue eof =>
        cases run
        rw [bytes_length, ← limit]
        exact BitVec.le_def.mp (of_decide_eq_true eof)
      case isFalse =>
        cases run
        rw [bytes_length, limit]

theorem waiting_empty (none : waiting s.sigchan = []) : s.sigchan.write.filled = [] := by
  have frames := @unsent_length _ WCB4XXP_HDLC_BUF_LEN (bodies s.sigchan.write) (progress s.sigchan.write)
  change _ ≤ (waiting s.sigchan).length at frames
  rw [none, bodies, contents, List.length_map, List.length_map] at frames
  exact List.eq_nil_of_length_eq_zero (Nat.le_zero.mp frames)

theorem ok_law (p : Params) (ok : SpanOk s) : TxLaw p s := by
  have counted := ok.counted
  have done := ok.done
  refine ⟨⟨_, ok.stream⟩, by omega, ⟨(waiting s.sigchan).length, fun k enough => ?_⟩,
    fun _ _ _ _ run => getbuf_within run⟩
  obtain ⟨s', runs, ok', committed, inFlight, fewer⟩ := calls_ok p k ok
  have none : waiting s'.sigchan = [] := List.eq_nil_of_length_eq_zero (by omega)
  have stream := ok'.stream
  rw [none, List.flatMap_nil, List.append_nil, committed] at stream
  have counted' := ok'.counted
  rw [waiting_empty none, inFlight] at counted'
  exact ⟨s', runs, stream, counted'⟩

theorem tx_law_run (reached : Reach (spanSystem env p) LongFrames s) : TxLaw p s := by
  apply ok_law
  apply @invariant_run _ _ (spanSystem env p) LongFrames SpanOk _ _ s reached
  · intro s fresh
    exact fresh_ok fresh
  · intro s e s' ok long step
    exact event_ok ok long step

end Sending

/-- hdlc_rx_frame for every frame, and hdlc_tx_frame in every run of frames of three bytes at least. -/
theorem dchannel_frames (env : Env T) (p : Params) :
    (∀ c : Chan T, Room c → ∀ data : List Octet, (data.length : Int) ≤ c.blocksize → ∀ stat zlens rest,
      ∃ c', hdlcRxFrame (some c) ⟨data.length :: zlens, data ++ stat :: rest⟩ =
          some (zlens.length, ⟨zlens, rest⟩, some c') ∧
        contents c'.read = contents c.read ++ if 3 ≤ data.length ∧ stat = 0 then [data] else []) ∧
    ∀ s, Reach (spanSystem env p) LongFrames s → TxLaw p s :=
  ⟨fun _ room _ fits stat zlens rest => rx_frame room fits stat zlens rest, fun _ reached => tx_law_run reached⟩

section Examples

instance (s : Span T) (e : Event) : Decidable (LongFrames s e) :=
  match e with
  | .write usr => inferInstanceAs (Decidable (0 < writeAmnt s.sigchan usr → 3 ≤ (writeData s.sigchan usr).length))
  | .announce => isTrue trivial
  | .txFrame => isTrue trivial

def params : Params := ⟨500, true, 2000, 30000, false⟩

/-- A span whose signalling channel has four buffers of sixty-four bytes. -/
def spanStart : Span Unit where
  sigchan := (reallocbufs { zeroChan with flags := { zeroChan.flags with nostdtxrx := true } } 64 4 true true).2
  hdlcPending := 0
  inFlight := 0
  committed := []
  fifo := []
  line := Wcb4xxpAlarm.fresh

theorem span_start_fresh : Fresh spanStart where
  two := by decide
  allocated := by
    intro x below
    have inside : x < 4 := below
    simp [spanStart, reallocbufs, clampNumbufs, maxNumBufs, Ring.realloc, Ring.clear, inside]
  valid := valid_start (by decide)
  nothing := by decide
  pending := rfl
  inFlight := rfl
  committed := rfl
  fifo := rfl

theorem span_start_room : Room spanStart.sigchan where
  sized := by decide
  free := by decide
  idx := rfl
  present := by decide
  apart := by decide

/-- A frame of forty bytes with a good STAT byte, and a frame of five bytes sent whole. -/
theorem dchannel_frames_short :
    (∃ c', hdlcRxFrame (some spanStart.sigchan) ⟨[40], List.replicate 40 5 ++ [0]⟩ =
        some (0, ⟨[], []⟩, some c') ∧ contents c'.read = [List.replicate 40 5]) ∧
    ∃ s, Reach (spanSystem silentEnv params) LongFrames s ∧
      s.fifo = [.data 1, .data 2, .data 3, .incF] ∧ TxLaw params s := by
  obtain ⟨receives, sends⟩ := dchannel_frames silentEnv params
  refine ⟨?_, ?_⟩
  · exact receives spanStart.sigchan span_start_room (List.replicate 40 5) (by decide) 0 [] []
  · obtain ⟨s, followed, seen⟩ := Option.map_eq_some_iff.mp
      (by decide +kernel : (follow (applyEvent silentEnv params) LongFrames
        [.write [1, 2, 3, 4, 5], .announce, .txFrame] spanStart).map Span.fifo =
          some [.data 1, .data 2, .data 3, .incF])
    have reached := @follow_reach _ _ (spanSystem silentEnv params) _ _ _ (fun _ _ _ moved => moved) _ _ _
      (.start span_start_fresh) followed
    exact ⟨s, reached, seen, sends s reached⟩

/-- With nothing in the ring a call leaves the counter as it is. -/
theorem empty_calls {s : Span Unit} (none : s.sigchan.write.outbuf < 0) (k : Nat) :
    txCalls params k s = some s := by
  have idle : hdlcGetbuf s.sigchan (BitVec.ofNat 32 WCB4XXP_HDLC_BUF_LEN) = some (-1, [], 0, s.sigchan) := by
    rw [hdlcGetbuf, if_neg (by omega)]
  have call : hdlcTxFrame params s = some (false, s) := by
    rw [hdlcTxFrame, idle]
    rfl
  induction k with
  | zero => rfl
  | succ k ih =>
    rw [txCalls, call]
    exact ih

/-- A frame of two bytes leaves hdlc_pending at one for ever. -/
theorem pending_kept : ¬ ∀ s, Reach (spanSystem silentEnv params) anyStep s →
    ∃ enough, ∀ k, enough ≤ k → ∃ s', txCalls params k s = some s' ∧ s'.hdlcPending + s.inFlight = 0 := by
  intro always
  obtain ⟨s, followed, seen⟩ := Option.map_eq_some_iff.mp
    (by decide +kernel : (follow (applyEvent silentEnv params) anyStep [.write [1, 2], .announce, .txFrame]
      spanStart).map (fun s => (s.hdlcPending, s.inFlight, s.sigchan.write.outbuf)) = some (1, 0, -1))
  have reached := @follow_reach _ _ (spanSystem silentEnv params) _ _ _ (fun _ _ _ moved => moved) _ _ _
    (.start span_start_fresh) followed
  simp only [Prod.mk.injEq] at seen
  obtain ⟨enough, lowers⟩ := always s reached
  obtain ⟨s', calls, zero⟩ := lowers enough (Nat.le_refl _)
  rw [empty_calls (by omega)] at calls
  rw [← Option.some.inj calls] at zero
  omega

/-- Of a frame of one byte a call writes thirty-two bytes, and asks for more. -/
example : ((chanWrite silentEnv spanStart [1]).bind (hdlcTxFrame params)).map
    (fun (more, s) => (more, s.fifo.length)) = some (true, 32) := by decide +kernel

end Examples

end Wcb4xxpHdlc
