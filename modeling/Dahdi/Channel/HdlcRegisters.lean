import Dahdi.Hdlc.ReceiverRounds
import Dahdi.Channel.Transmit

/-!
Both shift registers stay inside their 32 bits: the receiver that is given one
octet and one run at a time, and the transmitter as __dahdi_getbuf_chunk
drives it.
-/
namespace Channel
open OnesRun Fasthdlc FasthdlcTables FasthdlcLink FasthdlcRounds
variable {T : Type}

/-- The closing flag follows the pass that used the last byte of its buffer. -/
def closeFrame (n : Int) (h : State) (idx : Int) : State :=
  if idx < n then h else fasthdlcTxFrameNocheck h

/-- The transmitter after any passes over write buffers and any idle octets. -/
inductive Sends (mode : Mode) : State → Prop where
  | init : Sends mode (fasthdlcInit mode)
  | pass {h : State} (buf : Buffer) (idx n : Int) (left : Nat) (sent : Sends mode h)
      (some : idx < n) (fits : (left : Int) ≤ n - idx) :
      Sends mode (closeFrame n (hdlcSendLoop buf left h idx).2.1 (hdlcSendLoop buf left h idx).2.2)
  | idle {h : State} (left : Nat) (sent : Sends mode h) : Sends mode (hdlcIdleLoop left h).2

/-- The register before an octet is taken from it. -/
def prepared (h : State) (s : Sym) : State := if fasthdlcTxNeedData h then loadSym h s else h

/-- The bits not sent yet are all in the register. -/
structure Unsent (mode : Mode) (h : State) (most : Nat) : Prop where
  shown : ∃ pending, Holds h pending ∧ pending.length ≤ most
  ones : h.ones < 5
  mode : h.mode = mode

theorem unsent_bits {mode : Mode} {h : State} {most : Nat} (unsent : Unsent mode h most) :
    0 ≤ h.bits ∧ h.bits ≤ most := by
  obtain ⟨pending, held, short⟩ := unsent.shown
  have count := held.count
  omega

theorem unsent_more {mode : Mode} {h : State} {few most : Nat} (unsent : Unsent mode h few)
    (le : few ≤ most) : Unsent mode h most := by
  obtain ⟨pending, held, short⟩ := unsent.shown
  exact ⟨⟨pending, held, by omega⟩, unsent.ones, unsent.mode⟩

theorem prepared_unsent {mode : Mode} {h : State} (unsent : Unsent mode h 17) (s : Sym) :
    Unsent mode (prepared h s) 17 ∧ (minbitsOf mode : Int) ≤ (prepared h s).bits ∧
      (fasthdlcTxNeedData h = true → (prepared h s).bits ≤ minbitsOf mode + 9) := by
  obtain ⟨pending, held, short⟩ := unsent.shown
  have count := held.count
  have need := need_data_iff held
  have width := minbits_bounds mode
  rw [unsent.mode] at need
  unfold prepared
  split
  · rename_i few
    have fewer := need.mp few
    obtain ⟨loaded, ones⟩ := load_sym_holds held unsent.ones (by omega) s
    have size := sym_bits_length unsent.ones s
    have total := loaded.count
    rw [List.length_append] at total
    refine ⟨⟨⟨_, loaded, by rw [List.length_append]; omega⟩, ?_, ?_⟩, by omega, by intro _; omega⟩
    · rw [ones]
      exact sym_ones_below unsent.ones s
    · rw [load_sym_mode, unsent.mode]
  · rename_i enough
    rw [need] at enough
    exact ⟨unsent, by omega, by intro few; exact absurd (need.mp few) enough⟩

theorem send_octet_unsent {mode : Mode} {h : State} (unsent : Unsent mode h 17) (s : Sym) :
    Unsent mode (sendOctet h s).2 17 ∧
      (fasthdlcTxNeedData h = true → Unsent mode (sendOctet h s).2 9) := by
  obtain ⟨ready, least, most⟩ := prepared_unsent unsent s
  obtain ⟨pending, held, short⟩ := ready.shown
  have count := held.count
  obtain ⟨_, kept⟩ := tx_run held (by rw [ready.mode]; omega)
  rw [ready.mode] at kept
  have sent : sendOctet h s = fasthdlcTxRunNocheck (prepared h s) := rfl
  have ones : (fasthdlcTxRunNocheck (prepared h s)).2.ones < 5 := by
    rw [tx_run_state]
    exact ready.ones
  have mode' : (fasthdlcTxRunNocheck (prepared h s)).2.mode = mode := by
    rw [tx_run_state]
    exact ready.mode
  rw [sent]
  refine ⟨⟨⟨_, kept, by rw [List.length_drop]; omega⟩, ones, mode'⟩, ?_⟩
  intro few
  have less := most few
  exact ⟨⟨_, kept, by rw [List.length_drop]; omega⟩, ones, mode'⟩

theorem send_loop_succ (buf : Buffer) (left : Nat) (h : State) (idx : Int) :
    (hdlcSendLoop buf (left + 1) h idx).2 =
      (hdlcSendLoop buf left (sendOctet h (.octet (buf idx.toNat))).2
        (if fasthdlcTxNeedData h then idx + 1 else idx)).2 := by
  simp only [hdlcSendLoop, sendOctet, loadSym]
  split <;> rfl

theorem idle_loop_succ (left : Nat) (h : State) :
    (hdlcIdleLoop (left + 1) h).2 = (hdlcIdleLoop left (sendOctet h .flag).2).2 := rfl

/-- A pass leaves few bits behind when every octet of it took a byte. -/
theorem send_loop_unsent {mode : Mode} (buf : Buffer) (left : Nat) {h : State} (idx : Int)
    (unsent : Unsent mode h 17) :
    Unsent mode (hdlcSendLoop buf left h idx).2.1 17 ∧
      (hdlcSendLoop buf left h idx).2.2 ≤ idx + left ∧
      (1 ≤ left → (hdlcSendLoop buf left h idx).2.2 = idx + left →
        Unsent mode (hdlcSendLoop buf left h idx).2.1 9) := by
  induction left generalizing h idx with
  | zero => exact ⟨unsent, by simp [hdlcSendLoop], by intro some; omega⟩
  | succ left ih =>
    obtain ⟨after, fewer⟩ := send_octet_unsent unsent (.octet (buf idx.toNat))
    obtain ⟨all, reach, last⟩ := ih (if fasthdlcTxNeedData h then idx + 1 else idx) after
    rw [send_loop_succ]
    have advance : (if fasthdlcTxNeedData h then idx + 1 else idx) ≤ idx + 1 := by
      split <;> omega
    refine ⟨all, by omega, ?_⟩
    · intro _ whole
      by_cases need : fasthdlcTxNeedData h = true
      · rw [if_pos need] at whole last ⊢
        cases left with
        | zero => exact fewer need
        | succ left => exact last (by omega) (by omega)
      · rw [if_neg need] at whole reach
        omega

theorem idle_loop_unsent {mode : Mode} (left : Nat) {h : State} (unsent : Unsent mode h 17) :
    Unsent mode (hdlcIdleLoop left h).2 17 := by
  induction left generalizing h with
  | zero => exact unsent
  | succ left ih =>
    rw [idle_loop_succ]
    exact ih (send_octet_unsent unsent .flag).1

theorem close_frame_unsent {mode : Mode} {h : State} (unsent : Unsent mode h 9) :
    Unsent mode (fasthdlcTxFrameNocheck h) 17 := by
  obtain ⟨pending, held, short⟩ := unsent.shown
  have closed := tx_frame held (by omega)
  refine ⟨⟨_, closed, ?_⟩, Nat.zero_lt_succ 4, unsent.mode⟩
  rw [List.length_append]
  simp only [flagBits, List.length_cons, List.length_nil]
  omega

theorem sends_unsent {mode : Mode} {h : State} (sends : Sends mode h) : Unsent mode h 17 := by
  induction sends with
  | init => exact ⟨⟨[], holds_init mode, Nat.zero_le _⟩, Nat.zero_lt_succ 4, rfl⟩
  | idle left _ ih => exact idle_loop_unsent left ih
  | pass buf idx n left _ some fits ih =>
    obtain ⟨all, reach, last⟩ := send_loop_unsent buf left idx ih
    unfold closeFrame
    split
    · exact all
    · exact close_frame_unsent (last (by omega) (by omega))

/-- The passes of __dahdi_getbuf_chunk on an HDLC channel drive its transmitter
    so, as long as the buffers put out are not empty. -/
theorem getbuf_pass_sends (env : Env T) {mode : Mode} {ms ms' : Chan T} {bytes bytes' : Int}
    {txb : List Octet} {under : Bool} (hdlc : ms.flags.hdlc = true) (sent : Sends mode ms.txhdlc)
    (filled : -1 < ms.write.outbuf → ms.write.idx ms.write.outbuf.toNat < ms.write.n ms.write.outbuf.toNat)
    (pass : getbufPass env ms bytes = some (txb, ms', bytes', under)) :
    Sends mode ms'.txhdlc := by
  unfold getbufPass at pass
  split at pass
  · rename_i sending
    have nonempty := filled sending.1
    dsimp only at pass
    split at pass
    · cases pass
    · rename_i buf _
      simp only [Option.some.injEq, Prod.mk.injEq] at pass
      obtain ⟨_, rfl, _⟩ := pass
      have next := Sends.pass buf (ms.write.idx ms.write.outbuf.toNat)
        (ms.write.n ms.write.outbuf.toNat) (min (ms.write.n ms.write.outbuf.toNat -
          ms.write.idx ms.write.outbuf.toNat) bytes).toNat sent nonempty (by omega)
      unfold closeFrame at next
      unfold getbufStatus
      simp only [setWriteIdx, setTxhdlc, set, ↓reduceIte, hdlc] at next ⊢
      split
      · rename_i more
        rw [if_pos more] at next
        exact next
      · rename_i more
        rw [if_neg more] at next
        exact next
  · split at pass
    · simp only [Option.some.injEq, Prod.mk.injEq] at pass
      obtain ⟨_, rfl, _⟩ := pass
      exact sent
    · split at pass
      · simp only [Option.some.injEq, Prod.mk.injEq] at pass
        obtain ⟨_, rfl, _⟩ := pass
        exact sent
      · simp only [Option.some.injEq, Prod.mk.injEq] at pass
        obtain ⟨_, rfl, _⟩ := pass
        exact .idle bytes.toNat sent

end Channel
