import Dahdi.Channel.HdlcOctets
import Dahdi.Channel.Contents
import Dahdi.Hdlc.Resync

/-!
What __putbuf_chunk does with one octet of an HDLC channel, for each result of
the deframer.
-/
namespace HdlcEffects
open Channel RingContents HdlcOctets Fasthdlc FasthdlcLink
variable {T : Type} {env : Env T}

/-- The deframer with one more octet. -/
def deframed (c : Chan T) (o : Octet) : Option (RxResult × State) :=
  fasthdlcRxRun (fasthdlcRxLoadNocheck c.rxhdlc o)

theorem rx_octet_eq {c : Chan T} {o : Octet} (hdlc : c.flags.hdlc = true)
    (room : c.read.idx c.read.inbuf.toNat < c.blocksize) :
    rxOctet env c o =
      (putbufHdlcLoop env c.read.inbuf.toNat 1 c [o]).bind (finishPass env c.read.inbuf.toNat) := by
  have one : (min (c.blocksize - c.read.idx c.read.inbuf.toNat) ([o].length : Int)).toNat = 1 := by
    simp only [List.length_cons, List.length_nil]
    omega
  rw [rxOctet, hdlc_pass hdlc, one]
  cases putbufHdlcLoop env c.read.inbuf.toNat 1 c [o] with
  | none => rfl
  | some s => cases finished : finishPass env c.read.inbuf.toNat s <;> simp [finished]

section Octet
variable {c : Chan T} {o : Octet} {h : State} (hdlc : c.flags.hdlc = true)
  (room : c.read.idx c.read.inbuf.toNat < c.blocksize)
include hdlc room

theorem octet_empty (run : deframed c o = some (.empty, h)) :
    rxOctet env c o = some { c with rxhdlc := h } := by
  unfold deframed at run
  rw [rx_octet_eq hdlc room]
  simp only [putbufHdlcLoop, run, Option.bind_some]
  exact finish_going ⟨rfl, rfl⟩

/-- Nothing has been stored yet: the end of a frame means nothing. -/
theorem octet_ignored {result : RxResult} (ended : result = .complete ∨ result = .discard)
    (run : deframed c o = some (result, h)) (none : c.read.idx c.read.inbuf.toNat = 0) :
    rxOctet env c o = some { c with rxhdlc := h } := by
  unfold deframed at run
  rw [rx_octet_eq hdlc room]
  rcases ended with rfl | rfl <;> simp only [putbufHdlcLoop, run, none, ↓reduceIte, Option.bind_some] <;>
    exact finish_going ⟨rfl, rfl⟩

theorem octet_data {y : Octet} {buf : Buffer} (run : deframed c o = some (.data y, h))
    (present : c.read.buf c.read.inbuf.toNat = some buf)
    (fits : c.read.idx c.read.inbuf.toNat + 1 < c.blocksize) :
    rxOctet env c o = some { c with
      rxhdlc := h
      infcs := env.pppFcs c.infcs y
      read := { c.read with
        buf := set c.read.buf c.read.inbuf.toNat
          (some (set buf (c.read.idx c.read.inbuf.toNat).toNat y))
        idx := set c.read.idx c.read.inbuf.toNat (c.read.idx c.read.inbuf.toNat + 1) } } := by
  unfold deframed at run
  rw [rx_octet_eq hdlc room]
  simp only [putbufHdlcLoop, run, putbufByte, present, set_same]
  rw [if_neg (by omega), Option.bind_some]
  exact finish_going ⟨rfl, rfl⟩

/-- The byte that fills the buffer is an overrun: the channel searches for a frame. -/
theorem octet_overrun {y : Octet} {buf : Buffer} (run : deframed c o = some (.data y, h))
    (present : c.read.buf c.read.inbuf.toNat = some buf)
    (full : c.blocksize ≤ c.read.idx c.read.inbuf.toNat + 1) :
    rxOctet env c o = some (putbufAbort env { c with
      rxhdlc := { h with state := 0, bits := 0 }
      infcs := env.pppFcs c.infcs y
      read := { c.read with
        buf := set c.read.buf c.read.inbuf.toNat
          (some (set buf (c.read.idx c.read.inbuf.toNat).toNat y))
        idx := set (set c.read.idx c.read.inbuf.toNat (c.read.idx c.read.inbuf.toNat + 1))
          c.read.inbuf.toNat 0 } } c.read.inbuf.toNat eventOverrun) := by
  unfold deframed at run
  rw [rx_octet_eq hdlc room]
  simp only [putbufHdlcLoop, run, putbufByte, present, set_same]
  rw [if_pos full]
  rfl

/-- The end of a frame with good checks hands the buffer over. -/
theorem octet_frame (run : deframed c o = some (.complete, h))
    (some : c.read.idx c.read.inbuf.toNat ≠ 0) (mtp2 : c.flags.mtp2 = false)
    (good : c.flags.fcs = true → c.infcs = env.pppGoodfcs) :
    rxOctet env c o = Option.some { c with
      rxhdlc := h
      infcs := env.pppInitfcs
      read := { c.read with
        n := set c.read.n c.read.inbuf.toNat (c.read.idx c.read.inbuf.toNat) }.handOver
          c.numbufs c.read.inbuf.toNat } := by
  unfold deframed at run
  have passed : (c.flags.fcs && decide (c.infcs ≠ env.pppGoodfcs)) = false := by
    cases checked : c.flags.fcs with
    | false => rfl
    | true => simp [good checked]
  rw [rx_octet_eq hdlc room]
  simp only [putbufHdlcLoop, run, some, passed, Bool.false_eq_true, ↓reduceIte, Option.bind_some,
    finishPass, putbufEof, mtp2]

end Octet

theorem abort_rxhdlc (c : Chan T) (x abort : Nat) :
    (putbufAbort env c x abort).rxhdlc = c.rxhdlc ∧ (putbufAbort env c x abort).flags = c.flags := by
  unfold putbufAbort qevent setReadIdx
  dsimp only
  split
  · split
    · exact ⟨rfl, rfl⟩
    · split <;> exact ⟨rfl, rfl⟩
  · exact ⟨rfl, rfl⟩

theorem eof_rxhdlc {c c' : Chan T} {x : Nat} (ended : putbufEof env c x = some c') :
    c'.rxhdlc = c.rxhdlc ∧ c'.flags = c.flags := by
  unfold putbufEof at ended
  dsimp only at ended
  split at ended
  · split at ended
    · cases ended
    · cases ended
      exact ⟨rfl, rfl⟩
    · cases ended
      exact ⟨rfl, rfl⟩
  · cases ended
    exact ⟨rfl, rfl⟩

theorem finish_rxhdlc {c' : Chan T} {x : Nat} {s : Stopped T}
    (finished : finishPass env x s = some c') :
    c'.rxhdlc = s.ms.rxhdlc ∧ c'.flags = s.ms.flags := by
  unfold finishPass at finished
  split at finished
  · cases finished
  · rename_i ms ended
    have kept : ms.rxhdlc = s.ms.rxhdlc ∧ ms.flags = s.ms.flags := by
      split at ended
      · exact eof_rxhdlc ended
      · cases ended
        exact ⟨rfl, rfl⟩
    obtain rfl := Option.some.inj finished
    split
    · exact kept
    · have aborted := @abort_rxhdlc T env ms x s.abort
      exact ⟨aborted.1.trans kept.1, aborted.2.trans kept.2⟩

/-- The octet returns the byte that fills the buffer. -/
def overruns (c : Chan T) (o : Octet) : Bool :=
  match deframed c o with
  | some (.data _, _) => decide (c.blocksize ≤ c.read.idx c.read.inbuf.toNat + 1)
  | _ => false

/-- Only an overrun changes the registers beside the deframer itself. -/
theorem octet_rxhdlc {c c' : Chan T} {o : Octet} (hdlc : c.flags.hdlc = true)
    (room : c.read.idx c.read.inbuf.toNat < c.blocksize) (received : rxOctet env c o = some c') :
    c'.flags = c.flags ∧ ∃ r h, deframed c o = some (r, h) ∧
      c'.rxhdlc = if overruns c o then { h with state := 0, bits := 0 } else h := by
  obtain ⟨s, first, finished⟩ := rx_octet_first hdlc room received
  obtain ⟨kept, flags⟩ := finish_rxhdlc finished
  rw [kept, flags]
  simp only [putbufHdlcLoop] at first
  unfold overruns deframed
  cases run : fasthdlcRxRun (fasthdlcRxLoadNocheck c.rxhdlc o) with
  | none =>
    rw [run] at first
    cases first
  | some both =>
    obtain ⟨r, h⟩ := both
    rw [run] at first
    cases r with
    | empty =>
      cases first
      exact ⟨rfl, _, _, rfl, rfl⟩
    | complete =>
      dsimp only at first
      split at first
      · cases first
        exact ⟨rfl, _, _, rfl, rfl⟩
      · split at first <;> cases first <;> exact ⟨rfl, _, _, rfl, rfl⟩
    | discard =>
      dsimp only at first
      split at first <;> cases first <;> exact ⟨rfl, _, _, rfl, rfl⟩
    | data y =>
      dsimp only at first
      cases present : c.read.buf c.read.inbuf.toNat with
      | none =>
        simp only [putbufByte, present] at first
        cases first
      | some buf =>
        simp only [putbufByte, present, set_same] at first
        split at first
        · rename_i full
          cases first
          exact ⟨rfl, _, _, rfl, by simp only [full, decide_true, ↓reduceIte]⟩
        · rename_i full
          cases first
          exact ⟨rfl, _, _, rfl, by simp only [full, decide_false, Bool.false_eq_true, ↓reduceIte]⟩

/-- An octet that returns the byte filling the buffer leaves the buffer empty. -/
theorem overrun_effect {c c' : Chan T} {o : Octet} (hdlc : c.flags.hdlc = true)
    (room : c.read.idx c.read.inbuf.toNat < c.blocksize) (received : rxOctet env c o = some c')
    (spilled : overruns c o = true) :
    c'.blocksize = c.blocksize ∧ c'.numbufs = c.numbufs ∧ c'.infcs = env.pppInitfcs ∧
      c'.read.inbuf = c.read.inbuf ∧ c'.read.filled = c.read.filled ∧
      c'.read.idx c.read.inbuf.toNat = 0 ∧ c'.read.buf c.read.inbuf.toNat ≠ none := by
  unfold overruns at spilled
  split at spilled
  · rename_i y h run
    have full := of_decide_eq_true spilled
    have stored := received
    rw [rx_octet_eq hdlc room] at stored
    unfold deframed at run
    cases present : c.read.buf c.read.inbuf.toNat with
    | none =>
      simp only [putbufHdlcLoop, run, putbufByte, present, Option.bind_none] at stored
      cases stored
    | some buf =>
      rw [octet_overrun hdlc room run present full] at received
      obtain rfl := Option.some.inj received
      unfold putbufAbort qevent setReadIdx
      dsimp only
      split
      · split
        · simp
        · split <;> simp
      · simp
  · cases spilled

end HdlcEffects
