import Dahdi.Channel.HdlcOctets
import Dahdi.Channel.Contents

/-!
The sending side of an HDLC data link: the write ring as a queue of frames of
which the first may be under way.
-/
namespace HdlcSender
open Channel CyclicCursor RingInvariant RingContents HdlcOctets Fasthdlc FasthdlcLink HdlcFrames
variable {T : Type}

structure SenderOk (env : Env T) (c : Chan T) : Prop where
  two : 2 ≤ c.numbufs
  allocated : Allocated c.numbufs c.write
  valid : Valid c.numbufs c.write.inbuf c.write.outbuf c.write.filled
  plain : Plain env c
  fcs : c.flags.fcs = true
  mtp2 : c.flags.mtp2 = false
  linear : c.flags.linear = false
  busyTone : env.toneBusy c.tones = false
  noEvent : c.eventinidx = c.eventoutidx
  started : ∀ x ∈ c.write.filled, 0 ≤ c.write.idx x ∧ c.write.idx x < c.write.n x
  later : ∀ x ∈ c.write.filled, x ≠ c.write.outbuf.toNat → c.write.idx x = 0
  stopped : c.txdisable = true → ∀ x ∈ c.write.filled, c.write.idx x = 0

/-- Bytes of the first frame that have been loaded. -/
def progress (w : Ring) : Nat := if w.outbuf < 0 then 0 else (w.idx w.outbuf.toNat).toNat

theorem progress_zero {size : Nat} {w : Ring} (valid : Valid size w.inbuf w.outbuf w.filled)
    (zero : ∀ x ∈ w.filled, w.idx x = 0) : progress w = 0 := by
  unfold progress
  split
  · rfl
  · obtain ⟨rest, filled⟩ := valid_head valid (by omega)
    rw [zero _ (by rw [filled]; exact List.mem_cons_self)]
    rfl

theorem sender_busy {env : Env T} {c : Chan T} (ok : SenderOk env c) : Busy c := by
  intro sending _
  have held : 0 ≤ c.write.outbuf := by omega
  obtain ⟨rest, filled⟩ := valid_head ok.valid held
  have first : c.write.outbuf.toNat ∈ c.write.filled := by
    rw [filled]
    exact List.mem_cons_self
  have present := ok.allocated _ (valid_below ok.valid first)
  exact ⟨Option.ne_none_iff_exists'.mp present, ok.started _ first⟩

/-- What one octet does to the queue: the symbol it would load, the symbols
    loaded after it, and the queue and progress afterwards. -/
inductive Move (h : State) : List (List Octet) → Nat → Sym → List Sym → List (List Octet) → Nat →
    Prop where
  | idle (queue : List (List Octet)) (k : Nat) :
      (queue = [] ∨ k = 0) → Move h queue k .flag [] queue k
  | wait (f : List Octet) (rest : List (List Octet)) (k : Nat) (y : Octet) :
      fasthdlcTxNeedData h = false → Move h (f :: rest) k (.octet y) [] (f :: rest) k
  | byte (f : List Octet) (rest : List (List Octet)) (k : Nat) (y : Octet) :
      fasthdlcTxNeedData h = true → f[k]? = some y → k + 1 < f.length →
      Move h (f :: rest) k (.octet y) [] (f :: rest) (k + 1)
  | last (f : List Octet) (rest : List (List Octet)) (k : Nat) (y : Octet) :
      fasthdlcTxNeedData h = true → f[k]? = some y → k + 1 = f.length →
      Move h (f :: rest) k (.octet y) [.flag] rest 0

/-- The status check after the last byte of a frame. -/
theorem status_finished {c : Chan T} (mtp2 : c.flags.mtp2 = false) (hdlc : c.flags.hdlc = true)
    (done : ¬ c.write.idx c.write.outbuf.toNat < c.write.n c.write.outbuf.toNat) :
    getbufStatus c = { c with
      write := { c.write with
        idx := Channel.set c.write.idx c.write.outbuf.toNat 0
        n := Channel.set c.write.n c.write.outbuf.toNat 0 }.release c.numbufs c.write.outbuf
      txdisable :=
        if decide ((c.write.outbuf + 1) % c.numbufs = c.write.inbuf) && startsWhenFull c then true
        else c.txdisable
      txhdlc := fasthdlcTxFrameNocheck c.txhdlc } := by
  simp only [getbufStatus, done, mtp2, hdlc, ↓reduceIte, Bool.not_false]

theorem sender_quiet {env : Env T} {c : Chan T} (ok : SenderOk env c) (h : State) :
    SenderOk env (setTxhdlc c h) :=
  ⟨ok.two, ok.allocated, ok.valid, ⟨ok.plain.hdlc, ok.plain.looped, ok.plain.quiet⟩, ok.fcs, ok.mtp2,
    ok.linear, ok.busyTone, ok.noEvent, ok.started, ok.later, ok.stopped⟩

section Sending
variable {env : Env T} {c : Chan T}

theorem sender_to (ok : SenderOk env c) (sending : -1 < c.write.outbuf ∧ c.txdisable = false)
    (h : State) {idx : Int} (low : 0 ≤ idx) (inside : idx < c.write.n c.write.outbuf.toNat) :
    SenderOk env (sentTo c h idx) := by
  refine ⟨ok.two, ok.allocated, ok.valid, ⟨ok.plain.hdlc, ok.plain.looped, ok.plain.quiet⟩, ok.fcs,
    ok.mtp2, ok.linear, ok.busyTone, ok.noEvent, ?_, ?_, ?_⟩
  · intro x held
    simp only [sentTo, setWriteIdx, setTxhdlc]
    rcases Nat.decEq x c.write.outbuf.toNat with other | rfl
    · rw [set_other _ _ other]
      exact ok.started x held
    · rw [set_same]
      exact ⟨low, inside⟩
  · intro x held other
    simp only [sentTo, setWriteIdx, setTxhdlc] at other ⊢
    rw [set_other _ _ other]
    exact ok.later x held other
  · intro disabled
    simp only [sentTo, setWriteIdx, setTxhdlc, sending.2] at disabled
    simp at disabled

theorem contents_to (c : Chan T) (h : State) (idx : Int) :
    contents (sentTo c h idx).write = contents c.write :=
  contents_congr rfl fun _ _ => ⟨rfl, rfl⟩

theorem progress_to (sending : -1 < c.write.outbuf) (h : State) (idx : Int) :
    progress (sentTo c h idx).write = idx.toNat := by
  unfold progress
  rw [if_neg (by change ¬ c.write.outbuf < 0; omega)]
  exact congrArg Int.toNat (sent_to_idx c h idx)

/-- The state once the last byte of a frame has been loaded. -/
theorem sender_release (ok : SenderOk env c) (sending : -1 < c.write.outbuf ∧ c.txdisable = false)
    (h : State) {idx : Int} (done : ¬ idx < c.write.n c.write.outbuf.toNat) :
    SenderOk env (getbufStatus (sentTo c h idx)) ∧
      contents c.write = frameAt c.write c.write.outbuf.toNat ::
        contents (getbufStatus (sentTo c h idx)).write ∧
      progress (getbufStatus (sentTo c h idx)).write = 0 ∧
      (getbufStatus (sentTo c h idx)).txhdlc = fasthdlcTxFrameNocheck h := by
  have held : 0 ≤ c.write.outbuf := by omega
  obtain ⟨rest, filled, valid'⟩ := valid_empty ok.two ok.valid held
  have once := valid_nodup ok.valid
  rw [filled, List.nodup_cons] at once
  have finished := @status_finished T (sentTo c h idx) ok.mtp2 ok.plain.hdlc
    (by rw [show (sentTo c h idx).write.outbuf = c.write.outbuf from rfl, sent_to_idx]; exact done)
  have erased : c.write.filled.erase c.write.outbuf.toNat = rest := by
    rw [filled, List.erase_cons_head]
  have waiting : ∀ x ∈ rest, Channel.set (sentTo c h idx).write.idx c.write.outbuf.toNat 0 x = 0 ∧
      Channel.set c.write.n c.write.outbuf.toNat 0 x = c.write.n x ∧ 0 < c.write.n x := by
    intro x inside
    have other : x ≠ c.write.outbuf.toNat := by
      rintro rfl
      exact once.1 inside
    have held : x ∈ c.write.filled := by
      rw [filled]
      exact List.mem_cons_of_mem _ inside
    have none := ok.later x held other
    rw [set_other _ _ other, set_other _ _ other]
    refine ⟨?_, rfl, ?_⟩
    · simp only [sentTo, setWriteIdx, setTxhdlc, set_other _ _ other]
      exact none
    · have := (ok.started x held).2
      omega
  rw [finished]
  refine ⟨⟨ok.two, ok.allocated, ?_, ⟨ok.plain.hdlc, ok.plain.looped, ok.plain.quiet⟩, ok.fcs, ok.mtp2,
    ok.linear, ok.busyTone, ok.noEvent, ?_, ?_, ?_⟩, ?_, ?_, rfl⟩
  · simp only [Ring.release, sentTo, setWriteIdx, setTxhdlc, erased]
    exact valid'
  · intro x inside
    simp only [Ring.release, sentTo, setWriteIdx, setTxhdlc, erased] at inside
    obtain ⟨zero, count, some⟩ := waiting x inside
    change 0 ≤ Channel.set (sentTo c h idx).write.idx c.write.outbuf.toNat 0 x ∧
      Channel.set (sentTo c h idx).write.idx c.write.outbuf.toNat 0 x <
        Channel.set c.write.n c.write.outbuf.toNat 0 x
    rw [zero, count]
    exact ⟨Int.le_refl 0, some⟩
  · intro x inside _
    simp only [Ring.release, sentTo, setWriteIdx, setTxhdlc, erased] at inside
    exact (waiting x inside).1
  · intro _ x inside
    simp only [Ring.release, sentTo, setWriteIdx, setTxhdlc, erased] at inside
    exact (waiting x inside).1
  · exact contents_release ok.valid held _ _ fun x inside other => set_other _ _ other
  · refine @progress_zero c.numbufs _ ?_ ?_
    · simp only [Ring.release, sentTo, setWriteIdx, setTxhdlc, erased]
      exact valid'
    · intro x inside
      simp only [Ring.release, sentTo, setWriteIdx, setTxhdlc, erased] at inside
      exact (waiting x inside).1

/-- One octet of the transmitter. -/
theorem tx_octet_spec (ok : SenderOk env c) : SenderOk env (txOctet c).2 ∧
    ∃ s more, Move c.txhdlc (contents c.write) (progress c.write) s more (contents (txOctet c).2.write)
        (progress (txOctet c).2.write) ∧
      (txOctet c).1 = (sendOctet c.txhdlc s).1 ∧
      (txOctet c).2.txhdlc = more.foldl loadSym (sendOctet c.txhdlc s).2 := by
  by_cases sending : -1 < c.write.outbuf ∧ c.txdisable = false
  · have held : 0 ≤ c.write.outbuf := by omega
    obtain ⟨⟨buf, present⟩, low, inside⟩ := sender_busy ok sending.1 sending.2
    obtain ⟨rest, filled⟩ := valid_head ok.valid held
    have queue : contents c.write = frameAt c.write c.write.outbuf.toNat :: rest.map (frameAt c.write) := by
      rw [contents, filled, List.map_cons]
    have size : (frameAt c.write c.write.outbuf.toNat).length =
        (c.write.n c.write.outbuf.toNat).toNat := bytes_length _ _ _
    have here : progress c.write = (c.write.idx c.write.outbuf.toNat).toNat := by
      rw [progress, if_neg (by omega)]
    have next : (frameAt c.write c.write.outbuf.toNat)[progress c.write]? =
        some (buf (c.write.idx c.write.outbuf.toNat).toNat) := by
      rw [frameAt, bytes_get, if_pos (by omega), here, present, Nat.zero_add]
      rfl
    rw [tx_octet_busy sending present]
    simp only
    generalize sent : sendOctet c.txhdlc
      (.octet (buf (c.write.idx c.write.outbuf.toNat).toNat)) = out
    cases need : fasthdlcTxNeedData c.txhdlc with
    | false =>
      simp only [Bool.false_eq_true, ↓reduceIte]
      rw [@status_unfinished T (sentTo c out.2 _) (by
        rw [show (sentTo c out.2 _).write.outbuf = c.write.outbuf from rfl, sent_to_idx]
        exact inside)]
      refine ⟨sender_to ok sending out.2 low inside,
        .octet (buf (c.write.idx c.write.outbuf.toNat).toNat), [], ?_, by rw [sent], by rw [sent]; rfl⟩
      rw [contents_to, progress_to sending.1, ← here, queue]
      exact .wait _ _ _ _ need
    | true =>
      simp only [↓reduceIte]
      by_cases more : c.write.idx c.write.outbuf.toNat + 1 < c.write.n c.write.outbuf.toNat
      · rw [@status_unfinished T (sentTo c out.2 _) (by
          rw [show (sentTo c out.2 _).write.outbuf = c.write.outbuf from rfl, sent_to_idx]
          exact more)]
        refine ⟨sender_to ok sending out.2 (by omega) more,
          .octet (buf (c.write.idx c.write.outbuf.toNat).toNat), [], ?_, by rw [sent],
          by rw [sent]; rfl⟩
        rw [contents_to, progress_to sending.1, queue,
          show (c.write.idx c.write.outbuf.toNat + 1).toNat = progress c.write + 1 by omega]
        exact .byte _ _ _ _ need next (by omega)
      · obtain ⟨kept, queue', done, flag⟩ := sender_release ok sending out.2 more
        refine ⟨kept, .octet (buf (c.write.idx c.write.outbuf.toNat).toNat), [.flag], ?_, by rw [sent],
          by rw [sent]; exact flag⟩
        rw [queue', done]
        exact .last _ _ _ _ need next (by omega)
  · have idle : txOctet c = ((sendOctet c.txhdlc .flag).1, setTxhdlc c (sendOctet c.txhdlc .flag).2) := by
      rw [txOctet, if_neg sending]
    rw [idle]
    refine ⟨sender_quiet ok _, .flag, [], .idle _ _ ?_, rfl, rfl⟩
    by_cases none : c.write.outbuf < 0
    · left
      rw [contents, valid_none ok.valid none]
      rfl
    · right
      have disabled : c.txdisable = true := by
        cases value : c.txdisable with
        | true => rfl
        | false => exact absurd ⟨by omega, value⟩ sending
      exact progress_zero ok.valid (ok.stopped disabled)

end Sending

section Writing
variable {env : Env T} {c : Chan T}

theorem announce_same (c : Chan T) (res : Int) :
    (announceWrite c res).write = c.write.handOver c.numbufs res ∧
      (announceWrite c res).numbufs = c.numbufs ∧ (announceWrite c res).flags = c.flags ∧
      (announceWrite c res).tones = c.tones ∧ (announceWrite c res).txhdlc = c.txhdlc ∧
      (announceWrite c res).eventinidx = c.eventinidx ∧
      (announceWrite c res).eventoutidx = c.eventoutidx ∧
      ((announceWrite c res).txdisable = true → c.txdisable = true) := by
  simp only [announceWrite]
  split
  · exact ⟨rfl, rfl, rfl, rfl, rfl, rfl, rfl, by simp⟩
  · refine ⟨rfl, rfl, rfl, rfl, rfl, rfl, rfl, ?_⟩
    intro disabled
    simp only [Bool.and_eq_true] at disabled
    exact disabled.1

theorem write_data_plain (linear : c.flags.linear = false) (usr : List Octet) :
    (writeData c usr).length = (writeAmnt c usr).toNat := by
  have small : usr.length % 2 ^ 16 ≤ usr.length := Nat.mod_le _ _
  have short : (writeAmnt c usr).toNat ≤ usr.length := by
    simp only [writeAmnt, linear, Bool.false_eq_true, ↓reduceIte]
    split <;> omega
  simp only [writeData, linear, Bool.false_eq_true, ↓reduceIte, List.length_take]
  omega

/-- A frame written joins the queue with its frame check. -/
theorem write_spec (ok : SenderOk env c) (free : 0 ≤ c.write.inbuf) {usr : List Octet}
    (some : 0 < writeAmnt c usr) :
    ∃ c', chanWriteCommit env c c.write.inbuf usr = .some c' ∧ SenderOk env c' ∧
      contents c'.write = contents c.write ++ [withFcs env (writeData c usr)] ∧
      progress c'.write = progress c.write ∧ c'.txhdlc = c.txhdlc := by
  have inside : c.write.inbuf.toNat < c.numbufs := by
    rcases ok.valid.inRange with none | ⟨low, high⟩ <;> omega
  obtain ⟨buf, present⟩ := Option.ne_none_iff_exists'.mp (ok.allocated _ inside)
  have unused := valid_free ok.valid free
  have kept : ∀ x ∈ c.write.filled, x ≠ c.write.inbuf.toNat := by
    rintro x held rfl
    exact unused held
  have size := write_data_plain ok.linear usr
  generalize stored : storeWrite env c c.write.inbuf buf (writeData c usr) = w
  have last : frameAt w c.write.inbuf.toNat = withFcs env (writeData c usr) := by
    rw [← stored]
    exact store_write_frame env c c.write.inbuf buf (writeData c usr) ok.fcs
  have idx : ∀ x, w.idx x = Channel.set c.write.idx c.write.inbuf.toNat 0 x := by
    rw [← stored]
    exact fun _ => rfl
  have n : ∀ x, w.n x = Channel.set c.write.n c.write.inbuf.toNat (writeData c usr).length x := by
    rw [← stored]
    exact fun _ => rfl
  have pointers : ∀ x, w.buf x = none ↔ c.write.buf x = none := by
    rw [← stored]
    exact set_pointer (by rw [present]; simp)
  have cursors : w.inbuf = c.write.inbuf ∧ w.outbuf = c.write.outbuf ∧
      w.filled = c.write.filled := by
    rw [← stored]
    exact ⟨rfl, rfl, rfl⟩
  have before : contents w = contents c.write := by
    refine contents_congr cursors.2.2 fun x held => ?_
    rw [n, set_other _ _ (kept x held), ← stored]
    exact ⟨set_other _ _ (kept x held), rfl⟩
  have valid' := valid_fill ok.two ok.valid free
  obtain ⟨write, numbufs, flags, tones, txhdlc, inidx, outidx, disable⟩ :=
    announce_same { c with write := w } c.write.inbuf
  simp only at write numbufs flags tones txhdlc inidx outidx disable
  have handed : (w.handOver c.numbufs c.write.inbuf).filled =
      c.write.filled ++ [c.write.inbuf.toNat] := by
    simp only [Ring.handOver, cursors.2.2]
  have zeroes : ∀ x ∈ (w.handOver c.numbufs c.write.inbuf).filled,
      (x ≠ c.write.inbuf.toNat → x ∈ c.write.filled ∧ w.idx x = c.write.idx x ∧
        w.n x = c.write.n x) ∧ (x = c.write.inbuf.toNat → w.idx x = 0 ∧ 0 < w.n x) := by
    intro x held
    rw [handed, List.mem_append, List.mem_singleton] at held
    constructor
    · intro other
      rw [idx, n, set_other _ _ other, set_other _ _ other]
      rcases held with old | new
      · exact ⟨old, rfl, rfl⟩
      · exact absurd new other
    · rintro rfl
      rw [idx, n, set_same, set_same]
      exact ⟨rfl, by omega⟩
  refine ⟨announceWrite { c with write := w } c.write.inbuf, ?_, ?_, ?_, ?_, ?_⟩
  · rw [chanWriteCommit, if_neg (by omega)]
    simp only [present, stored]
  · refine ⟨by rw [numbufs]; exact ok.two, ?_, ?_, ?_, by rw [flags]; exact ok.fcs,
      by rw [flags]; exact ok.mtp2, by rw [flags]; exact ok.linear, by rw [tones]; exact ok.busyTone,
      by rw [inidx, outidx]; exact ok.noEvent, ?_, ?_, ?_⟩
    · intro x below
      rw [numbufs] at below
      rw [write, ne_eq]
      exact (pointers x).not.mpr (ok.allocated x below)
    · rw [write, numbufs, handed]
      rw [← cursors.2.1] at valid'
      exact valid'
    · exact ⟨by rw [flags]; exact ok.plain.hdlc, by rw [flags]; exact ok.plain.looped,
        by rw [tones]; exact ok.plain.quiet⟩
    · intro x held
      rw [write] at held ⊢
      obtain ⟨old, new⟩ := zeroes x held
      change 0 ≤ w.idx x ∧ w.idx x < w.n x
      rcases Nat.decEq x c.write.inbuf.toNat with other | same
      · obtain ⟨before, i, count⟩ := old other
        rw [i, count]
        exact ok.started x before
      · obtain ⟨zero, count⟩ := new same
        omega
    · intro x held first
      rw [write] at held first ⊢
      obtain ⟨old, new⟩ := zeroes x held
      change w.idx x = 0
      rcases Nat.decEq x c.write.inbuf.toNat with other | same
      · obtain ⟨before, i, count⟩ := old other
        rw [i]
        refine ok.later x before ?_
        rintro rfl
        apply first
        have some : ¬ c.write.outbuf < 0 := by
          intro none
          rw [valid_none ok.valid none] at before
          exact List.not_mem_nil before
        simp only [Ring.handOver, cursors.2.1]
        rw [if_neg some]
      · exact (new same).1
    · intro disabled x held
      rw [write] at held ⊢
      obtain ⟨old, new⟩ := zeroes x held
      change w.idx x = 0
      rcases Nat.decEq x c.write.inbuf.toNat with other | same
      · obtain ⟨before, i, count⟩ := old other
        rw [i]
        exact ok.stopped (disable disabled) x before
      · exact (new same).1
  · rw [write, contents_hand_over, before, last]
  · rw [write]
    unfold progress
    simp only [Ring.handOver, cursors.2.1]
    by_cases none : c.write.outbuf < 0
    · rw [if_pos none, if_neg (by omega), if_pos none, idx, set_same]
      rfl
    · obtain ⟨rest, filled⟩ := valid_head ok.valid (by omega)
      have other : c.write.outbuf.toNat ≠ c.write.inbuf.toNat :=
        kept _ (by rw [filled]; exact List.mem_cons_self)
      rw [if_neg none, if_neg none, if_neg none, idx, set_other _ _ other]
  · exact txhdlc

end Writing

end HdlcSender
