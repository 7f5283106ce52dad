import Dahdi.Channel.RingInvariant
import Dahdi.Hdlc.Frames

/-!
A chunk of an HDLC channel octet by octet. The while loops of the two chunk
functions work in passes over a buffer; the octets do not depend on where a
pass ends.
-/
namespace HdlcOctets
open Channel CyclicCursor Fasthdlc FasthdlcLink RingInvariant
variable {T : Type}

def noBytes : Buffer := fun _ => 0

/-- The octet of an HDLC channel that neither loops nor plays a tone. -/
def txOctet (c : Chan T) : Octet × Chan T :=
  if -1 < c.write.outbuf ∧ c.txdisable = false then
    let x := c.write.outbuf.toNat
    let sent := sendOctet c.txhdlc (.octet ((c.write.buf x).getD noBytes (c.write.idx x).toNat))
    let idx := if fasthdlcTxNeedData c.txhdlc then c.write.idx x + 1 else c.write.idx x
    (sent.1, getbufStatus (setWriteIdx (setTxhdlc c sent.2) x idx))
  else
    let sent := sendOctet c.txhdlc .flag
    (sent.1, setTxhdlc c sent.2)

def txOctets : Nat → Chan T → List Octet × Chan T
  | 0, c => ([], c)
  | k + 1, c =>
    ((txOctet c).1 :: (txOctets k (txOctet c).2).1, (txOctets k (txOctet c).2).2)

theorem tx_octets_add (j k : Nat) (c : Chan T) : txOctets (j + k) c =
    ((txOctets j c).1 ++ (txOctets k (txOctets j c).2).1, (txOctets k (txOctets j c).2).2) := by
  induction j generalizing c with
  | zero => simp [txOctets]
  | succ j ih => simp only [Nat.succ_add, txOctets, ih, List.cons_append]

/-- A channel in HDLC mode with nothing else to send. -/
structure Plain (env : Env T) (c : Chan T) : Prop where
  hdlc : c.flags.hdlc = true
  looped : c.flags.looped = false
  quiet : env.curtone c.tones = false

/-- The transmitter's buffer has bytes left. -/
def Busy (c : Chan T) : Prop :=
  -1 < c.write.outbuf → c.txdisable = false →
    (∃ buf, c.write.buf c.write.outbuf.toNat = some buf) ∧
      0 ≤ c.write.idx c.write.outbuf.toNat ∧
      c.write.idx c.write.outbuf.toNat < c.write.n c.write.outbuf.toNat

theorem status_unfinished {c : Chan T}
    (left : c.write.idx c.write.outbuf.toNat < c.write.n c.write.outbuf.toNat) :
    getbufStatus c = c := by
  simp only [getbufStatus, left, ↓reduceIte]

@[simp] theorem set_txhdlc_twice (c : Chan T) (h h' : State) :
    setTxhdlc (setTxhdlc c h) h' = setTxhdlc c h' := rfl

theorem idle_octets {c : Chan T} (idle : ¬ (-1 < c.write.outbuf ∧ c.txdisable = false))
    (k : Nat) : txOctets k c =
      ((hdlcIdleLoop k c.txhdlc).1, setTxhdlc c (hdlcIdleLoop k c.txhdlc).2) := by
  induction k generalizing c with
  | zero => rfl
  | succ k ih =>
    have first : txOctet c = ((sendOctet c.txhdlc .flag).1,
        setTxhdlc c (sendOctet c.txhdlc .flag).2) := by
      rw [txOctet, if_neg idle]
    have later := @ih (setTxhdlc c (sendOctet c.txhdlc .flag).2) idle
    rw [txOctets, first]
    simp only [later, set_txhdlc_twice]
    rfl

theorem set_self {α : Type} (f : Nat → α) (x : Nat) : set f x (f x) = f := by
  funext i
  unfold Channel.set
  split
  · rename_i same
    rw [same]
  · rfl

theorem set_twice {α : Type} (f : Nat → α) (x : Nat) (u v : α) : set (set f x u) x v = set f x v := by
  funext i
  unfold Channel.set
  split <;> rfl

/-- The state after some bytes of the current buffer, before its status is checked. -/
def sentTo (c : Chan T) (h : State) (idx : Int) : Chan T :=
  setWriteIdx (setTxhdlc c h) c.write.outbuf.toNat idx

theorem sent_to_twice (c : Chan T) (h h' : State) (idx idx' : Int) :
    sentTo (sentTo c h idx) h' idx' = sentTo c h' idx' := by
  unfold sentTo setWriteIdx setTxhdlc
  simp only [set_twice]

theorem sent_to_here (c : Chan T) :
    sentTo c c.txhdlc (c.write.idx c.write.outbuf.toNat) = c := by
  unfold sentTo setWriteIdx setTxhdlc
  simp only [set_self]

theorem sent_to_idx (c : Chan T) (h : State) (idx : Int) :
    (sentTo c h idx).write.idx c.write.outbuf.toNat = idx := set_same _ _ _

theorem tx_octet_busy {c : Chan T} {buf : Buffer} (sending : -1 < c.write.outbuf ∧ c.txdisable = false)
    (present : c.write.buf c.write.outbuf.toNat = some buf) :
    txOctet c =
      let sent := sendOctet c.txhdlc (.octet (buf (c.write.idx c.write.outbuf.toNat).toNat))
      (sent.1, getbufStatus (sentTo c sent.2
        (if fasthdlcTxNeedData c.txhdlc then c.write.idx c.write.outbuf.toNat + 1
          else c.write.idx c.write.outbuf.toNat))) := by
  rw [txOctet, if_pos sending]
  simp only [present, Option.getD_some]
  rfl

theorem send_loop_succ (buf : Buffer) (left : Nat) (h : State) (idx : Int) :
    hdlcSendLoop buf (left + 1) h idx =
      let sent := sendOctet h (.octet (buf idx.toNat))
      let rest := hdlcSendLoop buf left sent.2 (if fasthdlcTxNeedData h then idx + 1 else idx)
      (sent.1 :: rest.1, rest.2) := by
  rw [hdlcSendLoop]
  unfold sendOctet
  cases fasthdlcTxNeedData h <;> rfl

/-- A pass over the current buffer is as many octets. -/
theorem busy_octets {c : Chan T} {buf : Buffer} (sending : -1 < c.write.outbuf ∧ c.txdisable = false)
    (present : c.write.buf c.write.outbuf.toNat = some buf) (left : Nat)
    (some : c.write.idx c.write.outbuf.toNat < c.write.n c.write.outbuf.toNat)
    (enough : c.write.idx c.write.outbuf.toNat + left ≤ c.write.n c.write.outbuf.toNat) :
    txOctets left c =
      let sent := hdlcSendLoop buf left c.txhdlc (c.write.idx c.write.outbuf.toNat)
      (sent.1, getbufStatus (sentTo c sent.2.1 sent.2.2)) := by
  induction left generalizing c with
  | zero =>
    simp only [txOctets, hdlcSendLoop, sent_to_here]
    rw [status_unfinished some]
  | succ left ih =>
    have first := tx_octet_busy sending present
    rw [send_loop_succ, txOctets, first]
    generalize step : sendOctet c.txhdlc (.octet (buf (c.write.idx c.write.outbuf.toNat).toNat)) = sent
    generalize moved : (if fasthdlcTxNeedData c.txhdlc then c.write.idx c.write.outbuf.toNat + 1
      else c.write.idx c.write.outbuf.toNat) = idx
    have atMost : idx ≤ c.write.idx c.write.outbuf.toNat + 1 := by
      rw [← moved]
      split <;> omega
    cases left with
    | zero => rfl
    | succ left =>
      have unfinished : getbufStatus (sentTo c sent.2 idx) = sentTo c sent.2 idx := by
        apply status_unfinished
        rw [show (sentTo c sent.2 idx).write.outbuf = c.write.outbuf from rfl, sent_to_idx]
        change idx < c.write.n c.write.outbuf.toNat
        omega
      have rest := @ih (sentTo c sent.2 idx) sending present
        (by
          rw [show (sentTo c sent.2 idx).write.outbuf = c.write.outbuf from rfl, sent_to_idx]
          change idx < c.write.n c.write.outbuf.toNat
          omega)
        (by
          rw [show (sentTo c sent.2 idx).write.outbuf = c.write.outbuf from rfl, sent_to_idx]
          change idx + _ ≤ c.write.n c.write.outbuf.toNat
          omega)
      rw [show (sentTo c sent.2 idx).write.outbuf = c.write.outbuf from rfl, sent_to_idx] at rest
      simp only [unfinished, rest, sent_to_twice]
      rfl

theorem octets_keep {inv : Chan T → Prop} (kept : ∀ c, inv c → inv (txOctet c).2) (k : Nat)
    {c : Chan T} (holds : inv c) : inv (txOctets k c).2 := by
  induction k generalizing c with
  | zero => exact holds
  | succ k ih => exact ih (kept c holds)

/-- The chunk loop of __dahdi_getbuf_chunk sends the octets one after the other. -/
theorem getbuf_octets {env : Env T} {inv : Chan T → Prop} (kept : ∀ c, inv c → inv (txOctet c).2)
    (ready : ∀ c, inv c → Plain env c ∧ Busy c) {fuel k : Nat} {c : Chan T} (holds : inv c)
    (enough : k < fuel) :
    getbufLoop env fuel c k = some ((txOctets k c).1, (txOctets k c).2, false) := by
  induction fuel generalizing k c with
  | zero => omega
  | succ fuel ih =>
    obtain ⟨plain, busy⟩ := ready c holds
    cases k with
    | zero => rfl
    | succ k =>
      have wanted : ((k + 1 : Nat) : Int) ≠ 0 := by omega
      rw [getbufLoop, if_neg wanted]
      by_cases sending : -1 < c.write.outbuf ∧ c.txdisable = false
      · obtain ⟨⟨buf, present⟩, low, some⟩ := busy sending.1 sending.2
        obtain ⟨j, left⟩ : ∃ j : Nat, min (c.write.n c.write.outbuf.toNat -
            c.write.idx c.write.outbuf.toNat) ((k + 1 : Nat) : Int) = j + 1 :=
          ⟨(min (c.write.n c.write.outbuf.toNat - c.write.idx c.write.outbuf.toNat)
            ((k + 1 : Nat) : Int)).toNat - 1, by omega⟩
        have passed := busy_octets sending present (j + 1) some (by omega)
        have pass : getbufPass env c ((k + 1 : Nat) : Int) =
            .some ((txOctets (j + 1) c).1, (txOctets (j + 1) c).2, ((k - j : Nat) : Int), false) := by
          have rest : ((k + 1 : Nat) : Int) - (j + 1) = ((k - j : Nat) : Int) := by omega
          have count : ((j : Int) + 1).toNat = j + 1 := by omega
          rw [getbufPass, if_pos sending]
          simp only [present, left, plain.hdlc, ↓reduceIte, passed, rest, count]
          rfl
        have later := @ih (k - j) (txOctets (j + 1) c).2 (octets_keep kept (j + 1) holds) (by omega)
        have split := tx_octets_add (j + 1) (k - j) c
        rw [show j + 1 + (k - j) = k + 1 by omega] at split
        simp only [pass, later, split, Bool.or_false]
      · obtain ⟨fuel, rfl⟩ : ∃ f, fuel = f + 1 := ⟨fuel - 1, by omega⟩
        have pass : getbufPass env c ((k + 1 : Nat) : Int) =
            .some ((txOctets (k + 1) c).1, (txOctets (k + 1) c).2, 0, false) := by
          rw [getbufPass, if_neg sending, if_neg (by simp [plain.quiet])]
          simp only [plain.looped, plain.hdlc, Bool.false_eq_true, ↓reduceIte, Int.toNat_natCast,
            idle_octets sending]
        simp only [pass, getbufLoop, ↓reduceIte, List.append_nil, Bool.or_false]

/-- One octet received into the current buffer. -/
def rxOctet (env : Env T) (c : Chan T) (o : Octet) : Option (Chan T) :=
  (putbufPass env c [o]).map (·.1)

/-- Octets received one after the other until they end or the ring is full. -/
inductive Octetwise (env : Env T) : Chan T → List Octet → Chan T → List Octet → Prop where
  | done (c : Chan T) : Octetwise env c [] c []
  | full (c : Chan T) (os : List Octet) : c.read.inbuf < 0 → Octetwise env c os c os
  | step {c c' last : Chan T} {o : Octet} {os dropped : List Octet} :
      c.flags.hdlc = true → 0 ≤ c.read.inbuf → c.read.idx c.read.inbuf.toNat < c.blocksize →
      rxOctet env c o = some c' → Octetwise env c' os last dropped →
      Octetwise env c (o :: os) last dropped

theorem hdlc_pass {env : Env T} {c : Chan T} (hdlc : c.flags.hdlc = true) (rxb : List Octet) :
    putbufPass env c rxb =
      match putbufHdlcLoop env c.read.inbuf.toNat
        (min (c.blocksize - c.read.idx c.read.inbuf.toNat) rxb.length).toNat c rxb with
      | none => none
      | some s => (finishPass env c.read.inbuf.toNat s).map fun ms => (ms, s.rxb) := by
  cases stopped : putbufHdlcLoop env c.read.inbuf.toNat
      (min (c.blocksize - c.read.idx c.read.inbuf.toNat) rxb.length).toNat c rxb with
  | none => simp only [putbufPass, hdlc, ↓reduceIte, stopped]
  | some s => simp only [putbufPass, hdlc, ↓reduceIte, stopped]

/-- The for loop is its first octet, and unless that one stops it the rest. -/
theorem hdlc_loop_cut (env : Env T) (x left : Nat) (c : Chan T) (o : Octet) (os : List Octet) :
    putbufHdlcLoop env x (left + 1) c (o :: os) =
      match putbufHdlcLoop env x 1 c [o] with
      | none => none
      | some s =>
        if s.eof = false ∧ s.abort = 0 then putbufHdlcLoop env x left s.ms os
        else some { s with rxb := os } := by
  simp only [putbufHdlcLoop]
  cases fasthdlcRxRun (fasthdlcRxLoadNocheck c.rxhdlc o) with
  | none => rfl
  | some run =>
    obtain ⟨res, h⟩ := run
    cases res with
    | empty => simp
    | complete =>
      simp only
      split
      · simp
      · split
        · simp [eventBadfcs]
        · simp
    | discard =>
      simp only
      split
      · simp
      · simp [eventAbort]
    | data rxc =>
      simp only
      cases putbufByte env { c with rxhdlc := h } x rxc with
      | none => rfl
      | some ms =>
        simp only
        split
        · simp [eventOverrun]
        · simp

theorem first_octet_going {env : Env T} {x : Nat} {c : Chan T} {o : Octet} {s : Stopped T}
    (first : putbufHdlcLoop env x 1 c [o] = some s) (going : s.eof = false ∧ s.abort = 0) :
    s.ms.flags = c.flags ∧ s.ms.read.inbuf = c.read.inbuf ∧ s.ms.blocksize = c.blocksize ∧
      s.ms.read.idx x ≤ c.read.idx x + 1 := by
  obtain ⟨running, quiet⟩ := going
  simp only [putbufHdlcLoop] at first
  split at first
  · simp at first
  · rename_i res h run
    cases res with
    | empty =>
      simp only [Option.some.injEq] at first
      subst first
      exact ⟨rfl, rfl, rfl, by simp only; omega⟩
    | complete =>
      simp only at first
      split at first
      · simp only [Option.some.injEq] at first
        subst first
        exact ⟨rfl, rfl, rfl, by simp only; omega⟩
      · split at first
        · simp only [Option.some.injEq] at first
          subst first
          simp [eventBadfcs] at quiet
        · simp only [Option.some.injEq] at first
          subst first
          simp at running
    | discard =>
      simp only at first
      split at first
      · simp only [Option.some.injEq] at first
        subst first
        exact ⟨rfl, rfl, rfl, by simp only; omega⟩
      · simp only [Option.some.injEq] at first
        subst first
        simp [eventAbort] at quiet
    | data rxc =>
      simp only at first
      split at first
      · simp at first
      · rename_i ms stored
        split at first
        · simp only [Option.some.injEq] at first
          subst first
          simp [eventOverrun] at quiet
        · simp only [Option.some.injEq] at first
          subst first
          unfold putbufByte at stored
          split at stored
          · simp at stored
          · simp only [Option.some.injEq] at stored
            subst stored
            exact ⟨rfl, rfl, rfl, by simp only [set_same]; omega⟩

theorem rx_octet_first {env : Env T} {c c' : Chan T} {o : Octet} (hdlc : c.flags.hdlc = true)
    (room : c.read.idx c.read.inbuf.toNat < c.blocksize) (received : rxOctet env c o = some c') :
    ∃ s, putbufHdlcLoop env c.read.inbuf.toNat 1 c [o] = some s ∧
      finishPass env c.read.inbuf.toNat s = some c' := by
  have one : (min (c.blocksize - c.read.idx c.read.inbuf.toNat) ([o].length : Int)).toNat = 1 := by
    simp only [List.length_cons, List.length_nil]
    omega
  rw [rxOctet, hdlc_pass hdlc, one] at received
  split at received
  · simp at received
  · rename_i s first
    refine ⟨s, first, ?_⟩
    cases finished : finishPass env c.read.inbuf.toNat s with
    | none => simp [finished] at received
    | some ms => simpa [finished] using received

theorem finish_going {env : Env T} {x : Nat} {s : Stopped T} (going : s.eof = false ∧ s.abort = 0) :
    finishPass env x s = some s.ms := by
  simp only [finishPass, going, Bool.false_eq_true, ↓reduceIte]

/-- A pass that may look at `left` octets does what as many single octets do. -/
theorem octetwise_pass {env : Env T} {left : Nat} {c last : Chan T} {os dropped : List Octet}
    (octets : Octetwise env c os last dropped) (free : 0 ≤ c.read.inbuf)
    (room : (left : Int) ≤ c.blocksize - c.read.idx c.read.inbuf.toNat) (some : left ≤ os.length) :
    ∃ s c', putbufHdlcLoop env c.read.inbuf.toNat left c os = .some s ∧
      finishPass env c.read.inbuf.toNat s = .some c' ∧ Octetwise env c' s.rxb last dropped ∧
      s.rxb.length + min left 1 ≤ os.length := by
  induction left generalizing c os with
  | zero =>
    refine ⟨⟨c, os, false, 0⟩, c, ?_, finish_going ⟨rfl, rfl⟩, octets, by simp⟩
    cases os <;> rfl
  | succ left ih =>
    cases octets with
    | done => simp at some
    | full _ _ none => omega
    | step hdlc _ inside received rest =>
      obtain ⟨s, first, finished⟩ := rx_octet_first hdlc inside received
      rw [hdlc_loop_cut, first]
      simp only
      by_cases going : s.eof = false ∧ s.abort = 0
      · obtain ⟨_, inbuf, blocksize, more⟩ := first_octet_going first going
        rw [finish_going going] at finished
        obtain rfl := Option.some.inj finished
        simp only [List.length_cons] at some
        rw [← inbuf] at more room
        obtain ⟨s', c', looped, finished', octets', count⟩ := ih rest (by omega)
          (by rw [blocksize]; omega) (by omega)
        rw [inbuf] at looped finished'
        rw [if_pos going]
        exact ⟨s', c', looped, finished', octets', by simp only [List.length_cons]; omega⟩
      · rw [if_neg going]
        exact ⟨_, _, rfl, finished, rest, by simp only [List.length_cons]; omega⟩

/-- The chunk loop of __putbuf_chunk receives the octets one after the other. -/
theorem putbuf_octets {env : Env T} {fuel : Nat} {c last : Chan T} {os dropped : List Octet}
    (octets : Octetwise env c os last dropped) (enough : os.length < fuel) :
    putbufLoop env fuel c os = some (last, dropped) := by
  induction fuel generalizing c os with
  | zero => omega
  | succ fuel ih =>
    unfold putbufLoop
    cases octets with
    | done => rw [if_pos rfl]
    | full _ _ none =>
      split
      · rfl
      · rw [if_neg (by omega)]
    | @step _ c' _ o os _ hdlc free inside received rest =>
      rw [if_neg (by simp), if_pos (by omega), hdlc_pass hdlc]
      obtain ⟨s, next, looped, finished, octets', count⟩ :=
        @octetwise_pass T env (min (c.blocksize - c.read.idx c.read.inbuf.toNat)
          ((o :: os).length : Int)).toNat c last (o :: os) dropped
          (.step hdlc free inside received rest) free (by omega) (by omega)
      simp only [looped, finished, Option.map_some]
      have shorter : s.rxb.length < (o :: os).length := by
        simp only [List.length_cons] at count ⊢
        omega
      exact ih octets' (by omega)

end HdlcOctets
