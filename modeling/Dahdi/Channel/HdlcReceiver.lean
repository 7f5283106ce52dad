import Dahdi.Channel.HdlcOctets
import Dahdi.Channel.ReadCall

/-!
The receiving side of an HDLC data link: finished frames in the read ring and
one under way in the buffer the filler stands at.
-/
namespace HdlcReceiver
open ReadCall Channel CyclicCursor RingInvariant RingContents HdlcOctets Fasthdlc FasthdlcLink HdlcFrames
variable {T : Type}

/-- The bytes of the frame being received. -/
def underWay (r : Ring) : List Octet :=
  if r.inbuf < 0 then []
  else bytesOf ((r.buf r.inbuf.toNat).getD fun _ => 0) 0 (r.idx r.inbuf.toNat).toNat

/-- A ring whose filler has written part of one buffer, and nothing elsewhere. -/
structure Filling (size : Nat) (blocksize : Int) (r : Ring) : Prop where
  allocated : Allocated size r
  valid : Valid size r.inbuf r.outbuf r.filled
  unused : ∀ x, x < size → x ∉ r.filled → (x : Int) ≠ r.inbuf → r.idx x = 0
  started : 0 ≤ r.inbuf → 0 ≤ r.idx r.inbuf.toNat ∧ r.idx r.inbuf.toNat < blocksize

section Filling
variable {size : Nat} {blocksize : Int} {r : Ring}

theorem under_way_length (free : 0 ≤ r.inbuf) :
    (underWay r).length = (r.idx r.inbuf.toNat).toNat := by
  rw [underWay, if_neg (by omega), bytes_length]

/-- The next buffer is begun afresh. -/
theorem filling_hand_over (two : 2 ≤ size) (sized : 0 < blocksize) (allocated : Allocated size r)
    (valid : Valid size r.inbuf r.outbuf r.filled)
    (unused : ∀ x, x < size → x ∉ r.filled → (x : Int) ≠ r.inbuf → r.idx x = 0)
    (free : 0 ≤ r.inbuf) (n : Nat → Int) :
    Filling size blocksize ({ r with n := n }.handOver size r.inbuf) ∧
      underWay ({ r with n := n }.handOver size r.inbuf) = [] := by
  have zero := next_unused two valid free unused
  constructor
  · refine ⟨allocated, valid_fill two valid free, ?_, ?_⟩
    · intro x below notFilled _
      simp only [Ring.handOver, List.mem_append, List.mem_singleton, not_or] at notFilled
      exact unused x below notFilled.1 (by omega)
    · intro low
      change 0 ≤ r.idx (fillIn size r.inbuf r.outbuf).toNat ∧
        r.idx (fillIn size r.inbuf r.outbuf).toNat < blocksize
      rw [zero low]
      exact ⟨Int.le_refl 0, sized⟩
  · unfold underWay
    split
    · rfl
    · rename_i next
      have low : 0 ≤ fillIn size r.inbuf r.outbuf := by
        have : ¬ fillIn size r.inbuf r.outbuf < 0 := next
        omega
      change bytesOf _ 0 (r.idx (fillIn size r.inbuf r.outbuf).toNat).toNat = []
      rw [zero low]
      rfl

/-- The reader gives its buffer up; the one being filled is another. -/
theorem filling_release (two : 2 ≤ size) (sized : 0 < blocksize) (ok : Filling size blocksize r)
    (held : 0 ≤ r.outbuf) (n : Nat → Int) :
    Filling size blocksize
        ({ r with idx := Channel.set r.idx r.outbuf.toNat 0, n := n }.release size r.outbuf) ∧
      underWay ({ r with idx := Channel.set r.idx r.outbuf.toNat 0, n := n }.release size r.outbuf) =
        underWay r := by
  obtain ⟨rest, filled, valid'⟩ := valid_empty two ok.valid held
  have first : r.outbuf.toNat ∈ r.filled := by
    rw [filled]
    exact List.mem_cons_self
  have erased : r.filled.erase r.outbuf.toNat = rest := by
    rw [filled, List.erase_cons_head]
  have other (free : 0 ≤ r.inbuf) : r.inbuf.toNat ≠ r.outbuf.toNat := by
    intro same
    have spare := valid_free ok.valid free
    rw [same] at spare
    exact spare first
  constructor
  · refine ⟨ok.allocated, ?_, ?_, ?_⟩
    · simp only [Ring.release, erased]
      exact valid'
    · intro x below notFilled apart
      simp only [Ring.release, erased] at notFilled apart ⊢
      rcases Nat.decEq x r.outbuf.toNat with differ | rfl
      · rw [set_other _ _ differ]
        apply ok.unused x below
        · rw [filled, List.mem_cons, not_or]
          exact ⟨differ, notFilled⟩
        · intro same
          rw [if_neg (by omega)] at apart
          exact apart same
      · rw [set_same]
    · simp only [Ring.release]
      intro low
      by_cases full : r.inbuf < 0
      · rw [if_pos full, set_same]
        exact ⟨Int.le_refl 0, sized⟩
      · rw [if_neg full, set_other _ _ (other (by omega))]
        exact ok.started (by omega)
  · unfold underWay
    simp only [Ring.release]
    by_cases full : r.inbuf < 0
    · rw [if_pos full, if_pos full, if_neg (by omega), set_same]
      rfl
    · rw [if_neg full, if_neg full, if_neg full, set_other _ _ (other (by omega))]

end Filling

structure ReceiverOk (env : Env T) (c : Chan T) : Prop where
  two : 2 ≤ c.numbufs
  sized : 0 < c.blocksize
  allocated : Allocated c.numbufs c.read
  valid : Valid c.numbufs c.read.inbuf c.read.outbuf c.read.filled
  hdlc : c.flags.hdlc = true
  fcs : c.flags.fcs = true
  mtp2 : c.flags.mtp2 = false
  linear : c.flags.linear = false
  noEvent : c.eventinidx = c.eventoutidx
  unused : ∀ x, x < c.numbufs → x ∉ c.read.filled → (x : Int) ≠ c.read.inbuf → c.read.idx x = 0
  filling : 0 ≤ c.read.inbuf → 0 ≤ c.read.idx c.read.inbuf.toNat ∧
    c.read.idx c.read.inbuf.toNat < c.blocksize
  check : c.infcs = fcsOver env env.pppInitfcs (underWay c.read)

/-- Frames waiting for the reader, and the one under way. -/
def collected (c : Chan T) : Collected := (contents c.read, underWay c.read)

theorem receiver_filling {env : Env T} {c : Chan T} (ok : ReceiverOk env c) :
    Filling c.numbufs c.blocksize c.read :=
  ⟨ok.allocated, ok.valid, ok.unused, ok.filling⟩

theorem rx_octet_loop {env : Env T} {c : Chan T} {o : Octet} (ok : ReceiverOk env c)
    (free : 0 ≤ c.read.inbuf) {s : Stopped T}
    (first : putbufHdlcLoop env c.read.inbuf.toNat 1 c [o] = some s) :
    rxOctet env c o = finishPass env c.read.inbuf.toNat s := by
  have one : (min (c.blocksize - c.read.idx c.read.inbuf.toNat) ([o].length : Int)).toNat = 1 := by
    have inside := (ok.filling free).2
    simp only [List.length_cons, List.length_nil]
    omega
  rw [rxOctet, hdlc_pass ok.hdlc, one]
  simp only [first]
  cases finishPass env c.read.inbuf.toNat s with
  | none => rfl
  | some ms => rfl

/-- The deframer has moved, and nothing else. -/
theorem receiver_deframed {env : Env T} {c : Chan T} (ok : ReceiverOk env c) (h : State) :
    ReceiverOk env { c with rxhdlc := h } :=
  ⟨ok.two, ok.sized, ok.allocated, ok.valid, ok.hdlc, ok.fcs, ok.mtp2, ok.linear, ok.noEvent,
    ok.unused, ok.filling, ok.check⟩

section Receiving
variable {env : Env T} {c : Chan T}

theorem receiver_byte (ok : ReceiverOk env c) (free : 0 ≤ c.read.inbuf) (h : State) (y : Octet)
    (room : c.read.idx c.read.inbuf.toNat + 1 < c.blocksize) :
    ∃ c', putbufByte env { c with rxhdlc := h } c.read.inbuf.toNat y = some c' ∧
      ReceiverOk env c' ∧ collected c' = (contents c.read, underWay c.read ++ [y]) ∧
      c'.rxhdlc = h ∧ c'.blocksize = c.blocksize ∧ c'.numbufs = c.numbufs ∧
      c'.read.idx c.read.inbuf.toNat = c.read.idx c.read.inbuf.toNat + 1 := by
  have inside : c.read.inbuf.toNat < c.numbufs := by
    rcases ok.valid.inRange with none | ⟨low, high⟩ <;> omega
  obtain ⟨buf, present⟩ := Option.ne_none_iff_exists'.mp (ok.allocated _ inside)
  have low := (ok.filling free).1
  have spare := valid_free ok.valid free
  have more : underWay { c.read with
      buf := Channel.set c.read.buf c.read.inbuf.toNat
        (some (Channel.set buf (c.read.idx c.read.inbuf.toNat).toNat y))
      idx := Channel.set c.read.idx c.read.inbuf.toNat (c.read.idx c.read.inbuf.toNat + 1) } =
      underWay c.read ++ [y] := by
    unfold underWay
    rw [if_neg (by simp only; omega), if_neg (by omega)]
    simp only [set_same, Option.getD_some, present]
    rw [show (c.read.idx c.read.inbuf.toNat + 1).toNat = (c.read.idx c.read.inbuf.toNat).toNat + 1 by
      omega, bytes_snoc, Nat.zero_add, set_same]
    congr 1
    exact bytes_congr fun i _ before => set_other _ _ (by omega)
  have stored : putbufByte env { c with rxhdlc := h } c.read.inbuf.toNat y = some { c with
      rxhdlc := h
      infcs := env.pppFcs c.infcs y
      read := { c.read with
        buf := Channel.set c.read.buf c.read.inbuf.toNat
          (some (Channel.set buf (c.read.idx c.read.inbuf.toNat).toNat y))
        idx := Channel.set c.read.idx c.read.inbuf.toNat
          (c.read.idx c.read.inbuf.toNat + 1) } } := by
    simp only [putbufByte, present]
  refine ⟨_, stored, ?_, ?_, rfl, rfl, rfl, set_same _ _ _⟩
  · refine ⟨ok.two, ok.sized, ?_, ok.valid, ok.hdlc, ok.fcs, ok.mtp2, ok.linear, ok.noEvent, ?_, ?_, ?_⟩
    · intro x below
      rw [ne_eq, set_pointer (by rw [present]; simp)]
      exact ok.allocated x below
    · intro x below notFilled other
      simp only at notFilled other ⊢
      rw [set_other _ _ (by omega)]
      exact ok.unused x below notFilled other
    · intro _
      simp only [set_same]
      omega
    · rw [more]
      simp only [fcsOver, List.foldl_append, List.foldl_cons, List.foldl_nil]
      rw [ok.check]
      rfl
  · unfold collected
    rw [more]
    congr 1
    refine contents_congr rfl fun x held => ⟨?_, rfl⟩
    exact set_other _ _ (by rintro rfl; exact spare held)

/-- A finished frame goes to the reader. -/
theorem receiver_frame (ok : ReceiverOk env c) (free : 0 ≤ c.read.inbuf) (h : State) :
    ∃ c', putbufEof env { c with rxhdlc := h } c.read.inbuf.toNat = some c' ∧ ReceiverOk env c' ∧
      collected c' = (contents c.read ++ [underWay c.read], []) ∧ c'.rxhdlc = h ∧
      c'.blocksize = c.blocksize := by
  have slot : ((c.read.inbuf.toNat : Nat) : Int) = c.read.inbuf := by omega
  have spare := valid_free ok.valid free
  obtain ⟨next, none⟩ := filling_hand_over ok.two ok.sized ok.allocated ok.valid ok.unused free
    (Channel.set c.read.n c.read.inbuf.toNat (c.read.idx c.read.inbuf.toNat))
  have ended : putbufEof env { c with rxhdlc := h } c.read.inbuf.toNat = some { c with
      rxhdlc := h
      infcs := env.pppInitfcs
      read := { c.read with
        n := Channel.set c.read.n c.read.inbuf.toNat (c.read.idx c.read.inbuf.toNat) }.handOver
          c.numbufs c.read.inbuf } := by
    simp only [putbufEof, ok.mtp2, slot, Bool.false_eq_true, ↓reduceIte]
  refine ⟨_, ended, ?_, ?_, rfl, rfl⟩
  · refine ⟨ok.two, ok.sized, next.allocated, next.valid, ok.hdlc, ok.fcs, ok.mtp2, ok.linear,
      ok.noEvent, next.unused, next.started, ?_⟩
    rw [none]
    rfl
  · unfold collected
    rw [none, contents_hand_over]
    congr 2
    · refine contents_congr rfl fun x held => ⟨rfl, ?_⟩
      exact set_other _ _ (by rintro rfl; exact spare held)
    · simp only [frameAt, underWay, set_same]
      rw [if_neg (by omega)]

/-- One octet of the receiver that leaves the deframer with a result. -/
theorem rx_octet_spec (ok : ReceiverOk env c) (free : 0 ≤ c.read.inbuf) {o : Octet} {r : RxResult}
    {h : State} (run : fasthdlcRxRun (fasthdlcRxLoadNocheck c.rxhdlc o) = some (r, h))
    (kept : r ≠ .discard) (room : ∀ y, r = .data y → (underWay c.read).length + 1 < c.blocksize)
    (good : r = .complete → underWay c.read ≠ [] →
      fcsOver env env.pppInitfcs (underWay c.read) = env.pppGoodfcs) :
    ∃ c', rxOctet env c o = some c' ∧ ReceiverOk env c' ∧
      collected c' = collectStep (collected c) r ∧ c'.rxhdlc = h ∧ c'.blocksize = c.blocksize := by
  have size := under_way_length free
  have low := (ok.filling free).1
  have unmoved (s : Stopped T) (same : s = ⟨{ c with rxhdlc := h }, [], false, 0⟩)
      (first : putbufHdlcLoop env c.read.inbuf.toNat 1 c [o] = some s) :
      rxOctet env c o = some { c with rxhdlc := h } := by
    rw [rx_octet_loop ok free first, finish_going (by rw [same]; exact ⟨rfl, rfl⟩), same]
  cases r with
  | discard => exact absurd rfl kept
  | empty =>
    refine ⟨_, unmoved _ rfl ?_, receiver_deframed ok h, rfl, rfl, rfl⟩
    simp only [putbufHdlcLoop, run]
  | complete =>
    by_cases empty : c.read.idx c.read.inbuf.toNat = 0
    · have nothing : underWay c.read = [] := List.eq_nil_of_length_eq_zero (by omega)
      refine ⟨_, unmoved _ rfl ?_, receiver_deframed ok h, ?_, rfl, rfl⟩
      · simp only [putbufHdlcLoop, run, empty, ↓reduceIte]
      · simp only [collectStep, collected, nothing, ↓reduceIte]
    · have some : underWay c.read ≠ [] := List.ne_nil_of_length_pos (by omega)
      obtain ⟨c', ended, ok', collected', rxhdlc, blocksize⟩ := receiver_frame ok free h
      refine ⟨c', ?_, ok', ?_, rxhdlc, blocksize⟩
      · rw [@rx_octet_loop T env c o ok free ⟨{ c with rxhdlc := h }, [], true, 0⟩ (by
          simp only [putbufHdlcLoop, run, empty, ↓reduceIte, ok.check, good rfl some, ne_eq,
            not_true_eq_false, decide_false, Bool.and_false, Bool.false_eq_true])]
        simp only [finishPass, ↓reduceIte, ended]
      · rw [collected', collected]
        simp only [collectStep, some, ↓reduceIte]
  | data y =>
    have inside := room y rfl
    obtain ⟨c', stored, ok', collected', rxhdlc, blocksize, _, idx⟩ :=
      receiver_byte ok free h y (by omega)
    refine ⟨c', ?_, ok', collected', rxhdlc, blocksize⟩
    rw [@rx_octet_loop T env c o ok free ⟨c', [], false, 0⟩ (by
      simp only [putbufHdlcLoop, run, stored, idx, blocksize]
      rw [if_neg (by omega)])]
    exact finish_going ⟨rfl, rfl⟩

/-- The reader takes the oldest frame, as far as it has room. -/
theorem read_spec (ok : ReceiverOk env c) (held : 0 ≤ c.read.outbuf) (count : Nat) :
    ∃ f c', chanReadCommit c c.read.outbuf count = some (f.take (count % 2 ^ 16), c') ∧
      contents c.read = f :: contents c'.read ∧ ReceiverOk env c' ∧
      underWay c'.read = underWay c.read ∧ c'.rxhdlc = c.rxhdlc ∧ c'.blocksize = c.blocksize := by
  have committed : chanReadCommit c c.read.outbuf count =
      some ((frameAt c.read c.read.outbuf.toNat).take (count % 2 ^ 16),
        releaseRead c c.read.outbuf) := by
    rw [read_commit_split, read_copies ok.linear ok.allocated ok.valid held]
    rfl
  obtain ⟨later, kept⟩ := filling_release ok.two ok.sized (receiver_filling ok) held
    (Channel.set c.read.n c.read.outbuf.toNat 0)
  refine ⟨_, _, committed, ?_, ?_, kept, rfl, rfl⟩
  · exact contents_release ok.valid held _ _ fun x _ other => set_other _ _ other
  · exact ⟨ok.two, ok.sized, later.allocated, later.valid, ok.hdlc, ok.fcs, ok.mtp2, ok.linear,
      ok.noEvent, later.unused, later.started, ok.check.trans (by rw [← kept]; rfl)⟩

end Receiving

end HdlcReceiver
