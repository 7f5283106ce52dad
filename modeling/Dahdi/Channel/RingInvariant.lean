import Dahdi.Channel.Transmit
import Dahdi.Channel.Receive
import Dahdi.Library.GuardedRun

/-!
The indices of both rings over whole runs. Every operation moves a cursor by
handing a buffer over or by releasing one, or sets both back.
-/
namespace RingInvariant
open Channel CyclicCursor GuardedRun

def Allocated (size : Nat) (r : Ring) : Prop := ∀ x, x < size → r.buf x ≠ none

def Unallocated (size : Nat) (r : Ring) : Prop := ∀ x, x < size → r.buf x = none

/-- A ring has buffers and valid cursors, or neither buffers nor cursors. -/
def RingOk (size : Nat) (r : Ring) : Prop :=
  Allocated size r ∧ Valid size r.inbuf r.outbuf r.filled ∨
    Unallocated size r ∧ r.inbuf = -1 ∧ r.outbuf = -1 ∧ r.filled = []

section Ring
variable {size : Nat} {r : Ring}

theorem ok_in {size : Nat} {r : Ring} (ok : RingOk size r) (free : 0 ≤ r.inbuf) :
    Allocated size r ∧ Valid size r.inbuf r.outbuf r.filled ∧ r.inbuf.toNat < size := by
  rcases ok with ⟨allocated, valid⟩ | ⟨_, none, _⟩
  · refine ⟨allocated, valid, ?_⟩
    rcases valid.inRange with none | ⟨low, high⟩ <;> omega
  · omega

theorem ok_out (ok : RingOk size r) (some : 0 ≤ r.outbuf) :
    Allocated size r ∧ Valid size r.inbuf r.outbuf r.filled ∧ r.outbuf.toNat < size := by
  rcases ok with ⟨allocated, valid⟩ | ⟨_, _, none, _⟩
  · refine ⟨allocated, valid, ?_⟩
    rcases valid.outRange with none | ⟨low, high⟩ <;> omega
  · omega

theorem ok_hand_over (two : 2 ≤ size) (ok : RingOk size r) (free : 0 ≤ r.inbuf) :
    RingOk size (r.handOver size r.inbuf) := by
  obtain ⟨allocated, valid, _⟩ := ok_in ok free
  exact Or.inl ⟨allocated, valid_fill two valid free⟩

theorem ok_release (two : 2 ≤ size) (ok : RingOk size r) (some : 0 ≤ r.outbuf) :
    RingOk size (r.release size r.outbuf) := by
  obtain ⟨allocated, valid, _⟩ := ok_out ok some
  obtain ⟨rest, filled, valid'⟩ := valid_empty two valid some
  refine Or.inl ⟨allocated, ?_⟩
  have erased : r.filled.erase r.outbuf.toNat = rest := by
    rw [filled, List.erase_cons_head]
  rw [← erased] at valid'
  exact valid'

/-- Cursors and pointers are all that matters; the pointers only as NULL or not. -/
theorem ok_same {r' : Ring} (ok : RingOk size r) (inn : r'.inbuf = r.inbuf)
    (out : r'.outbuf = r.outbuf) (filled : r'.filled = r.filled)
    (pointers : ∀ x, r'.buf x = none ↔ r.buf x = none) : RingOk size r' := by
  unfold RingOk Allocated Unallocated
  simp only [inn, out, filled, ne_eq, pointers]
  exact ok

theorem ok_clear (positive : 0 < size) (allocated : Allocated size r) :
    RingOk size (r.clear size 0) :=
  Or.inl ⟨allocated, valid_start positive⟩

theorem ok_realloc (positive : 0 < size) (allocated : Bool) :
    RingOk size (r.realloc size allocated) := by
  cases allocated with
  | true =>
    refine Or.inl ⟨?_, valid_start positive⟩
    intro x inside
    simp [Ring.realloc, Ring.clear, inside]
  | false =>
    refine Or.inr ⟨?_, rfl, rfl, rfl⟩
    intro x inside
    simp [Ring.realloc, Ring.clear, inside]

theorem ok_allocated (positive : 0 < size) (ok : RingOk size r) (first : r.buf 0 ≠ none) :
    Allocated size r := by
  rcases ok with ⟨allocated, _⟩ | ⟨missing, _⟩
  · exact allocated
  · exact absurd (missing 0 positive) first

theorem set_pointer {x : Nat} {b : Buffer} (present : r.buf x ≠ none) (i : Nat) :
    set r.buf x (some b) i = none ↔ r.buf i = none := by
  rcases Nat.decEq i x with other | rfl
  · rw [set_other _ _ other]
  · simp [present]

end Ring

/-- On the read side a buffer has bytes ready exactly while it is filled. -/
structure ReadOk (size : Nat) (r : Ring) : Prop where
  ring : RingOk size r
  started : ∀ x, x < size → 0 ≤ r.idx x
  ready : ∀ x, x < size → (0 < r.n x ↔ x ∈ r.filled)

variable {T : Type}

structure ChanOk (c : Chan T) : Prop where
  two : 2 ≤ c.numbufs
  sized : Allocated c.numbufs c.read → c.blocksize ≠ 0
  read : ReadOk c.numbufs c.read
  write : RingOk c.numbufs c.write

section Read
variable {size : Nat} {r : Ring}

theorem read_hand_over (two : 2 ≤ size) (ok : ReadOk size r) (free : 0 ≤ r.inbuf)
    (some : 0 < r.idx r.inbuf.toNat) :
    ReadOk size ({ r with n := set r.n r.inbuf.toNat (r.idx r.inbuf.toNat) }.handOver size
      r.inbuf) := by
  refine ⟨ok_hand_over two (ok_same ok.ring rfl rfl rfl fun _ => Iff.rfl) free, ok.started, ?_⟩
  intro x inside
  simp only [Ring.handOver, List.mem_append, List.mem_singleton]
  rcases Nat.decEq x r.inbuf.toNat with other | rfl
  · simp [set_other _ _ other, other, ok.ready x inside]
  · simp [some]

/-- A repeated message leaves its buffer as it found it. -/
theorem read_drop (ok : ReadOk size r) (free : 0 ≤ r.inbuf) (v : Int) :
    ReadOk size { r with
      n := set (set r.n r.inbuf.toNat v) r.inbuf.toNat 0
      idx := set r.idx r.inbuf.toNat 0 } := by
  obtain ⟨_, valid, _⟩ := ok_in ok.ring free
  refine ⟨ok_same ok.ring rfl rfl rfl fun _ => Iff.rfl, ?_, ?_⟩
  · intro x inside
    simp only
    rcases Nat.decEq x r.inbuf.toNat with other | rfl
    · rw [set_other _ _ other]
      exact ok.started x inside
    · simp [set_same]
  · intro x inside
    simp only
    rcases Nat.decEq x r.inbuf.toNat with other | rfl
    · rw [set_other _ _ other, set_other _ _ other]
      exact ok.ready x inside
    · simp [valid_free valid free]

theorem read_release (two : 2 ≤ size) (ok : ReadOk size r) (held : 0 ≤ r.outbuf) :
    ReadOk size ({ r with
      idx := set r.idx r.outbuf.toNat 0
      n := set r.n r.outbuf.toNat 0 }.release size r.outbuf) := by
  obtain ⟨_, valid, _⟩ := ok_out ok.ring held
  refine ⟨ok_release two (ok_same ok.ring rfl rfl rfl fun _ => Iff.rfl) held, ?_, ?_⟩
  · intro x inside
    simp only [Ring.release]
    rcases Nat.decEq x r.outbuf.toNat with other | rfl
    · rw [set_other _ _ other]
      exact ok.started x inside
    · simp [set_same]
  · intro x inside
    simp only [Ring.release]
    rw [(valid_nodup valid).mem_erase_iff]
    rcases Nat.decEq x r.outbuf.toNat with other | rfl
    · rw [set_other _ _ other, ok.ready x inside]
      exact ⟨fun kept => ⟨other, kept⟩, fun kept => kept.2⟩
    · simp

theorem read_clear {inbuf : Int} (ring : RingOk size (r.clear size inbuf)) :
    ReadOk size (r.clear size inbuf) := by
  refine ⟨ring, ?_, ?_⟩ <;> intro x inside <;> simp [Ring.clear, inside]

/-- A change of one buffer's bytes and position. -/
theorem read_update {r' : Ring} (ok : ReadOk size r) (inn : r'.inbuf = r.inbuf)
    (out : r'.outbuf = r.outbuf) (filled : r'.filled = r.filled) (ready : r'.n = r.n)
    (pointers : ∀ x, r'.buf x = none ↔ r.buf x = none)
    (started : ∀ x, 0 ≤ r.idx x → 0 ≤ r'.idx x) : ReadOk size r' := by
  refine ⟨ok_same ok.ring inn out filled pointers, ?_, ?_⟩
  · intro x inside
    exact started x (ok.started x inside)
  · intro x inside
    rw [filled, ready]
    exact ok.ready x inside

end Read

/-- The receiver's work on the current buffer. -/
structure Fills (c c' : Chan T) : Prop where
  numbufs : c'.numbufs = c.numbufs
  blocksize : c'.blocksize = c.blocksize
  write : c'.write = c.write
  inbuf : c'.read.inbuf = c.read.inbuf
  outbuf : c'.read.outbuf = c.read.outbuf
  filled : c'.read.filled = c.read.filled
  ready : c'.read.n = c.read.n
  pointers : ∀ x, c'.read.buf x = none ↔ c.read.buf x = none
  started : ∀ x, 0 ≤ c.read.idx x → 0 ≤ c'.read.idx x

theorem fills_refl (c : Chan T) : Fills c c :=
  ⟨rfl, rfl, rfl, rfl, rfl, rfl, rfl, fun _ => Iff.rfl, fun _ low => low⟩

theorem fills_trans {a b c : Chan T} (first : Fills a b) (second : Fills b c) : Fills a c where
  numbufs := second.numbufs.trans first.numbufs
  blocksize := second.blocksize.trans first.blocksize
  write := second.write.trans first.write
  inbuf := second.inbuf.trans first.inbuf
  outbuf := second.outbuf.trans first.outbuf
  filled := second.filled.trans first.filled
  ready := second.ready.trans first.ready
  pointers x := (second.pointers x).trans (first.pointers x)
  started x low := second.started x (first.started x low)

theorem fills_ok {c c' : Chan T} (ok : ChanOk c) (fills : Fills c c') : ChanOk c' := by
  obtain ⟨numbufs, blocksize, write, inn, out, filled, ready, pointers, started⟩ := fills
  refine ⟨by rw [numbufs]; exact ok.two, ?_, ?_, by rw [numbufs, write]; exact ok.write⟩
  · rw [numbufs, blocksize]
    intro allocated
    refine ok.sized fun x inside => ?_
    rw [ne_eq, ← pointers x]
    exact allocated x inside
  · rw [numbufs]
    exact read_update ok.read inn out filled ready pointers started

theorem fills_event (c : Chan T) (event : Nat) : Fills c (qevent c event) := by
  unfold qevent
  split
  · exact fills_refl c
  · split
    · exact fills_refl c
    · exact ⟨rfl, rfl, rfl, rfl, rfl, rfl, rfl, fun _ => Iff.rfl, fun _ low => low⟩

theorem fills_read_idx (c : Chan T) (x : Nat) {v : Int} (low : 0 ≤ v) :
    Fills c (setReadIdx c x v) := by
  refine ⟨rfl, rfl, rfl, rfl, rfl, rfl, rfl, fun _ => Iff.rfl, ?_⟩
  intro i before
  simp only [setReadIdx]
  rcases Nat.decEq i x with other | rfl
  · rw [set_other _ _ other]
    exact before
  · rw [set_same]
    exact low

theorem fills_bytes (c : Chan T) (new : Buffer) {x : Nat} {old : Buffer} {v : Int}
    (present : c.read.buf x = some old) (later : 0 ≤ c.read.idx x → 0 ≤ v) :
    Fills c { c with read := { c.read with
      buf := set c.read.buf x (some new), idx := set c.read.idx x v } } := by
  refine ⟨rfl, rfl, rfl, rfl, rfl, rfl, rfl, ?_, ?_⟩
  · exact set_pointer (by rw [present]; simp)
  · intro i before
    simp only
    rcases Nat.decEq i x with other | rfl
    · rw [set_other _ _ other]
      exact before
    · rw [set_same]
      exact later before

section Receive
variable {env : Env T}

theorem fills_byte {c c' : Chan T} {x : Nat} {rxc : Fasthdlc.Octet}
    (done : putbufByte env c x rxc = some c') :
    Fills c c' ∧ c'.flags = c.flags := by
  unfold putbufByte at done
  cases present : c.read.buf x with
  | none => simp [present] at done
  | some old =>
    simp only [present, Option.some.injEq] at done
    subst done
    have filled := fills_bytes c (set old (c.read.idx x).toNat rxc) present
      (fun low => (by omega : 0 ≤ c.read.idx x + 1))
    exact ⟨⟨rfl, rfl, rfl, rfl, rfl, rfl, rfl, filled.pointers, filled.started⟩, rfl⟩

theorem fills_hdlc_loop {x left : Nat} {c : Chan T} {rxb : List Fasthdlc.Octet} {s : Stopped T}
    (low : 0 ≤ c.read.idx x) (done : putbufHdlcLoop env x left c rxb = some s) :
    Fills c s.ms ∧ (s.eof = true → 0 < s.ms.read.idx x) := by
  induction left generalizing c rxb with
  | zero =>
    simp only [putbufHdlcLoop, Option.some.injEq] at done
    subst done
    exact ⟨fills_refl c, by simp⟩
  | succ left ih =>
    cases rxb with
    | nil =>
      simp only [putbufHdlcLoop, Option.some.injEq] at done
      subst done
      exact ⟨fills_refl c, by simp⟩
    | cons b rxb =>
      simp only [putbufHdlcLoop] at done
      split at done
      · simp at done
      · rename_i res h run
        have loaded : Fills c { c with rxhdlc := h } :=
          ⟨rfl, rfl, rfl, rfl, rfl, rfl, rfl, fun _ => Iff.rfl, fun _ low => low⟩
        have again {c' : Chan T} (fills : Fills c c')
            (rest : putbufHdlcLoop env x left c' rxb = some s) :
            Fills c s.ms ∧ (s.eof = true → 0 < s.ms.read.idx x) := by
          obtain ⟨later, ended⟩ := ih (fills.started x low) rest
          exact ⟨fills_trans fills later, ended⟩
        cases res with
        | empty => exact again loaded done
        | complete =>
          simp only at done
          split at done
          · exact again loaded done
          · rename_i started
            split at done
            · simp only [Option.some.injEq] at done
              subst done
              exact ⟨loaded, by simp⟩
            · simp only [Option.some.injEq] at done
              subst done
              exact ⟨loaded, fun _ => by simp only at started ⊢; omega⟩
        | discard =>
          simp only at done
          split at done
          · exact again loaded done
          · simp only [Option.some.injEq] at done
            subst done
            exact ⟨loaded, by simp⟩
        | data rxc =>
          simp only at done
          split at done
          · simp at done
          · rename_i c' stored
            have filled := fills_trans loaded (fills_byte stored).1
            split at done
            · simp only [Option.some.injEq] at done
              subst done
              have reset := fills_trans filled (fills_read_idx c' x (Int.le_refl 0))
              exact ⟨⟨reset.numbufs, reset.blocksize, reset.write, reset.inbuf, reset.outbuf,
                reset.filled, reset.ready, reset.pointers, reset.started⟩, by simp⟩
            · exact again filled done

/-- The end of a message hands the buffer over, or drops a repeated one. -/
theorem ok_eof {c c' : Chan T} (ok : ChanOk c) (free : 0 ≤ c.read.inbuf)
    (some : 0 < c.read.idx c.read.inbuf.toNat)
    (done : putbufEof env c c.read.inbuf.toNat = .some c') : ChanOk c' := by
  have slot : ((c.read.inbuf.toNat : Nat) : Int) = c.read.inbuf := by omega
  obtain ⟨_, valid, inside⟩ := ok_in ok.read.ring free
  have handed := read_hand_over ok.two ok.read free some
  unfold putbufEof at done
  rw [slot] at done
  simp only at done
  split at done
  · split at done
    · simp at done
    · simp only [Option.some.injEq] at done
      subst done
      exact ⟨ok.two, ok.sized, read_drop ok.read free _, ok.write⟩
    · simp only [Option.some.injEq] at done
      subst done
      exact ⟨ok.two, ok.sized, handed, ok.write⟩
  · simp only [Option.some.injEq] at done
    subst done
    exact ⟨ok.two, ok.sized, handed, ok.write⟩

theorem fills_abort (c : Chan T) (x abort : Nat) : Fills c (putbufAbort env c x abort) := by
  have reset := fills_read_idx c x (Int.le_refl 0)
  have restart : Fills c { setReadIdx c x 0 with infcs := env.pppInitfcs } :=
    ⟨rfl, rfl, rfl, rfl, rfl, rfl, rfl, reset.pointers, reset.started⟩
  simp only [putbufAbort]
  split
  · exact fills_trans restart (fills_event _ abort)
  · exact restart

/-- What a chunk keeps: what the work on the current buffer and the end of a
    message keep, with a buffer there is room in. -/
structure KeptByChunk (env : Env T) (P : Chan T → Prop) : Prop where
  fills : ∀ {c c' : Chan T}, P c → Fills c c' → P c'
  started : ∀ {c : Chan T}, P c → 0 ≤ c.read.inbuf →
    0 ≤ c.read.idx c.read.inbuf.toNat ∧ c.blocksize ≠ 0
  eof : ∀ {c c' : Chan T}, P c → 0 ≤ c.read.inbuf → 0 < c.read.idx c.read.inbuf.toNat →
    putbufEof env c c.read.inbuf.toNat = some c' → P c'

section Kept
variable {P : Chan T → Prop} (kept : KeptByChunk env P)
include kept

theorem kept_finish {c c' : Chan T} {s : Stopped T} (holds : P c) (free : 0 ≤ c.read.inbuf)
    (fills : Fills c s.ms) (ended : s.eof = true → 0 < s.ms.read.idx c.read.inbuf.toNat)
    (done : finishPass env c.read.inbuf.toNat s = some c') : P c' := by
  have holds' := kept.fills holds fills
  unfold finishPass at done
  split at done
  · simp at done
  · rename_i ms finished
    have after : P ms := by
      split at finished
      · rename_i eof
        rw [← fills.inbuf] at finished ended
        exact kept.eof holds' (by rw [fills.inbuf]; exact free) (ended eof) finished
      · simp only [Option.some.injEq] at finished
        subst finished
        exact holds'
    simp only [Option.some.injEq] at done
    subst done
    split
    · exact after
    · exact kept.fills after (fills_abort ms _ _)

theorem kept_pass {c c' : Chan T} {rxb rest : List Fasthdlc.Octet} (holds : P c)
    (free : 0 ≤ c.read.inbuf) (done : putbufPass env c rxb = some (c', rest)) : P c' := by
  obtain ⟨low, sized⟩ := kept.started holds free
  unfold putbufPass at done
  simp only at done
  split at done
  · simp at done
  · rename_i s stopped
    have worked : Fills c s.ms ∧ (s.eof = true → 0 < s.ms.read.idx c.read.inbuf.toNat) := by
      split at stopped
      · exact fills_hdlc_loop low stopped
      · split at stopped
        · simp at stopped
        · rename_i positive
          split at stopped
          · simp at stopped
          · rename_i buf present
            have filled := fills_bytes c (copyAt buf (c.read.idx c.read.inbuf.toNat).toNat
              (rxb.take (min (c.blocksize - c.read.idx c.read.inbuf.toNat) rxb.length).toNat))
              present (fun low => (by omega : 0 ≤ c.read.idx c.read.inbuf.toNat +
                min (c.blocksize - c.read.idx c.read.inbuf.toNat) rxb.length))
            split at stopped
            · simp only [Option.some.injEq] at stopped
              subst stopped
              exact ⟨filled, by simp⟩
            · simp only [Option.some.injEq] at stopped
              subst stopped
              refine ⟨filled, ?_⟩
              simp only [set_same, decide_eq_true_eq]
              omega
    obtain ⟨ms, finished, same⟩ := Option.map_eq_some_iff.mp done
    obtain ⟨rfl, _⟩ := Prod.mk.inj same
    exact kept_finish kept holds free worked.1 worked.2 finished

theorem kept_putbuf_loop {fuel : Nat} {c c' : Chan T} {rxb rest : List Fasthdlc.Octet}
    (holds : P c) (done : putbufLoop env fuel c rxb = some (c', rest)) : P c' := by
  induction fuel generalizing c rxb with
  | zero => simp [putbufLoop] at done
  | succ fuel ih =>
    unfold putbufLoop at done
    split at done
    · simp only [Option.some.injEq, Prod.mk.injEq] at done
      obtain ⟨rfl, _⟩ := done
      exact holds
    · split at done
      · split at done
        · simp at done
        · rename_i free _ ms rxb' passed
          exact ih (kept_pass kept holds (by omega) passed) done
      · simp only [Option.some.injEq, Prod.mk.injEq] at done
        obtain ⟨rfl, _⟩ := done
        exact holds

theorem kept_putbuf_chunk {fuel : Nat} {c c' : Chan T} {rxb : List Fasthdlc.Octet}
    (holds : P c) (done : putbufChunk env fuel c rxb = some c') : P c' := by
  unfold putbufChunk at done
  split at done
  · simp at done
  · rename_i ms dropped looped
    have after := kept_putbuf_loop kept holds looped
    have marked {m : Chan T} (holds : P m) (b : Bool) : P { m with rxoverrun := b } :=
      kept.fills holds ⟨rfl, rfl, rfl, rfl, rfl, rfl, rfl, fun _ => Iff.rfl, fun _ low => low⟩
    split at done
    · simp only [Option.some.injEq] at done
      subst done
      exact marked after false
    · split at done
      · simp only [Option.some.injEq] at done
        subst done
        exact after
      · simp only [Option.some.injEq] at done
        subst done
        apply marked
        split
        · exact kept.fills after (fills_event ms _)
        · exact after

end Kept

theorem ok_kept (env : Env T) : KeptByChunk env ChanOk where
  fills := fills_ok
  started ok free := by
    obtain ⟨allocated, _, inside⟩ := ok_in ok.read.ring free
    exact ⟨ok.read.started _ inside, ok.sized allocated⟩
  eof := ok_eof

theorem ok_putbuf_chunk {fuel : Nat} {c c' : Chan T} {rxb : List Fasthdlc.Octet}
    (ok : ChanOk c) (done : putbufChunk env fuel c rxb = some c') : ChanOk c' :=
  kept_putbuf_chunk (ok_kept env) ok done

end Receive

theorem fills_hdlc_abort (c : Chan T) (event : Nat) : Fills c (hdlcAbort c event) := by
  have notified {m : Chan T} (fills : Fills c m) :
      Fills c (if m.flags.isOpen && !m.alarms then qevent m event else m) := by
    split
    · exact fills_trans fills (fills_event m event)
    · exact fills
  simp only [hdlcAbort]
  split
  · exact notified (fills_read_idx c _ (Int.le_refl 0))
  · exact notified (fills_refl c)

theorem ok_hdlc_putbuf {c c' : Chan T} {rxb : List Fasthdlc.Octet} (ok : ChanOk c)
    (done : hdlcPutbuf c rxb = some c') : ChanOk c' := by
  have finish (b : Bool) {m : Chan T} (fills : Fills c m) :
      ChanOk (if b then m else hdlcAbort m eventOverrun) := by
    split
    · exact fills_ok ok fills
    · exact fills_ok ok (fills_trans fills (fills_hdlc_abort m _))
  simp only [hdlcPutbuf] at done
  split at done
  · simp only [Option.some.injEq] at done
    subst done
    exact ok
  · split at done
    · simp only [Option.some.injEq] at done
      subst done
      simpa using finish (decide (rxb = [])) (fills_refl c)
    · rename_i positive
      split at done
      · simp at done
      · rename_i buf present
        have filled := fills_bytes c (copyAt buf (c.read.idx c.read.inbuf.toNat).toNat
          (rxb.take (min (c.blocksize - c.read.idx c.read.inbuf.toNat) rxb.length).toNat))
          present (fun low => (by omega : 0 ≤ c.read.idx c.read.inbuf.toNat +
            min (c.blocksize - c.read.idx c.read.inbuf.toNat) rxb.length))
        simp only [Option.some.injEq] at done
        subst done
        simpa using finish (decide (min (c.blocksize - c.read.idx c.read.inbuf.toNat) rxb.length =
          rxb.length)) filled

theorem ok_hdlc_finish {c : Chan T} (ok : ChanOk c) : ChanOk (hdlcFinish c) := by
  simp only [hdlcFinish]
  split
  · exact ok
  · rename_i free
    split
    · exact ok
    · rename_i started
      obtain ⟨_, _, inside⟩ := ok_in ok.read.ring (by omega)
      have low := ok.read.started _ inside
      exact ⟨ok.two, ok.sized, read_hand_over ok.two ok.read (by omega) (by omega), ok.write⟩

section Transmit
variable {env : Env T}

/-- The transmitter's work on the current buffer leaves the cursors. -/
structure Sends (c c' : Chan T) : Prop where
  numbufs : c'.numbufs = c.numbufs
  blocksize : c'.blocksize = c.blocksize
  read : c'.read = c.read
  write : RingOk c.numbufs c.write → RingOk c.numbufs c'.write

theorem sends_ok {c c' : Chan T} (ok : ChanOk c) (sends : Sends c c') : ChanOk c' := by
  obtain ⟨numbufs, blocksize, read, write⟩ := sends
  refine ⟨?_, ?_, ?_, ?_⟩
  · rw [numbufs]
    exact ok.two
  · rw [numbufs, blocksize, read]
    exact ok.sized
  · rw [numbufs, read]
    exact ok.read
  · rw [numbufs]
    exact write ok.write

theorem sends_status {c : Chan T} (two : 2 ≤ c.numbufs) (some : -1 < c.write.outbuf) :
    Sends c (getbufStatus c) := by
  simp only [getbufStatus]
  split
  · exact ⟨rfl, rfl, rfl, id⟩
  · refine ⟨rfl, rfl, rfl, fun ok => ?_⟩
    have emptied (n idx : Nat → Int) :
        RingOk c.numbufs ({ c.write with n := n, idx := idx }.release c.numbufs c.write.outbuf) :=
      @ok_release c.numbufs { c.write with n := n, idx := idx } two
        (ok_same ok rfl rfl rfl fun _ => Iff.rfl) (by simp only; omega)
    simp only
    split
    · exact emptied _ _
    · split
      · exact ok_same ok rfl rfl rfl fun _ => Iff.rfl
      · exact emptied c.write.n _

theorem sends_after {c m : Chan T} (two : 2 ≤ c.numbufs) (some : -1 < c.write.outbuf)
    (numbufs : m.numbufs = c.numbufs) (blocksize : m.blocksize = c.blocksize)
    (read : m.read = c.read) (inn : m.write.inbuf = c.write.inbuf)
    (out : m.write.outbuf = c.write.outbuf) (filled : m.write.filled = c.write.filled)
    (buf : m.write.buf = c.write.buf) : Sends c (getbufStatus m) := by
  have status := sends_status (by rw [numbufs]; exact two) (by rw [out]; exact some : -1 < m.write.outbuf)
  refine ⟨status.numbufs.trans numbufs, status.blocksize.trans blocksize, status.read.trans read, ?_⟩
  intro ok
  have kept := status.write
  rw [numbufs] at kept
  exact kept (ok_same ok inn out filled fun x => by rw [buf])

theorem sends_pass {c c' : Chan T} {bytes left : Int} {txb : List Fasthdlc.Octet} {under : Bool}
    (two : 2 ≤ c.numbufs) (done : getbufPass env c bytes = some (txb, c', left, under)) :
    Sends c c' := by
  simp only [getbufPass] at done
  split at done
  · rename_i sending
    split at done
    · simp at done
    · split at done
      · simp only [Option.some.injEq, Prod.mk.injEq] at done
        obtain ⟨_, rfl, _⟩ := done
        exact sends_after two sending.1 rfl rfl rfl rfl rfl rfl rfl
      · split at done
        · simp at done
        · simp only [Option.some.injEq, Prod.mk.injEq] at done
          obtain ⟨_, rfl, _⟩ := done
          exact sends_after two sending.1 rfl rfl rfl rfl rfl rfl rfl
  · split at done
    · simp only [Option.some.injEq, Prod.mk.injEq] at done
      obtain ⟨_, rfl, _⟩ := done
      exact ⟨rfl, rfl, rfl, id⟩
    · split at done
      · simp only [Option.some.injEq, Prod.mk.injEq] at done
        obtain ⟨_, rfl, _⟩ := done
        exact ⟨rfl, rfl, rfl, id⟩
      · split at done
        · simp only [Option.some.injEq, Prod.mk.injEq] at done
          obtain ⟨_, rfl, _⟩ := done
          exact ⟨rfl, rfl, rfl, id⟩
        · simp only [Option.some.injEq, Prod.mk.injEq] at done
          obtain ⟨_, rfl, _⟩ := done
          exact ⟨rfl, rfl, rfl, id⟩

theorem ok_getbuf_loop {fuel : Nat} {c c' : Chan T} {bytes : Int} {txb : List Fasthdlc.Octet}
    {under : Bool} (ok : ChanOk c) (done : getbufLoop env fuel c bytes = some (txb, c', under)) :
    ChanOk c' := by
  induction fuel generalizing c bytes txb under with
  | zero => simp [getbufLoop] at done
  | succ fuel ih =>
    unfold getbufLoop at done
    split at done
    · simp only [Option.some.injEq, Prod.mk.injEq] at done
      obtain ⟨_, rfl, _⟩ := done
      exact ok
    · split at done
      · simp at done
      · rename_i passed
        split at done
        · simp at done
        · rename_i looped
          simp only [Option.some.injEq, Prod.mk.injEq] at done
          obtain ⟨_, rfl, _⟩ := done
          exact ih (sends_ok ok (sends_pass ok.two passed)) looped

theorem ok_getbuf_chunk {fuel : Nat} {c c' : Chan T} {txb : List Fasthdlc.Octet} (ok : ChanOk c)
    (done : getbufChunk env fuel c = some (txb, c')) : ChanOk c' := by
  have marked {m : Chan T} (okay : ChanOk m) (b : Bool) : ChanOk { m with txunderrun := b } :=
    ⟨okay.two, okay.sized, okay.read, okay.write⟩
  unfold getbufChunk at done
  split at done
  · simp at done
  · rename_i txb' ms needtxunderrun looped
    have okay := ok_getbuf_loop ok looped
    split at done
    · split at done
      · simp only [Option.some.injEq, Prod.mk.injEq] at done
        obtain ⟨_, rfl⟩ := done
        exact okay
      · simp only [Option.some.injEq, Prod.mk.injEq] at done
        obtain ⟨_, rfl⟩ := done
        refine marked ?_ true
        split
        · exact fills_ok okay (fills_event ms _)
        · exact okay
    · simp only [Option.some.injEq, Prod.mk.injEq] at done
      obtain ⟨_, rfl⟩ := done
      exact marked okay false

theorem ok_hdlc_getbuf {c c' : Chan T} {size stored : BitVec 32} {res : Int}
    {data : List Fasthdlc.Octet} (ok : ChanOk c)
    (done : hdlcGetbuf c size = some (res, data, stored, c')) : ChanOk c' := by
  simp only [hdlcGetbuf] at done
  split at done
  · rename_i sending
    split at done
    · simp at done
    · split at done
      · simp only [Option.some.injEq, Prod.mk.injEq] at done
        obtain ⟨_, _, _, rfl⟩ := done
        refine ⟨ok.two, ok.sized, ok.read, ?_⟩
        exact @ok_release c.numbufs { c.write with n := _, idx := _ } ok.two
          (ok_same ok.write rfl rfl rfl fun _ => Iff.rfl) (by simp only; omega)
      · simp only [Option.some.injEq, Prod.mk.injEq] at done
        obtain ⟨_, _, _, rfl⟩ := done
        exact ⟨ok.two, ok.sized, ok.read, ok_same ok.write rfl rfl rfl fun _ => Iff.rfl⟩
  · simp only [Option.some.injEq, Prod.mk.injEq] at done
    obtain ⟨_, _, _, rfl⟩ := done
    exact ok

end Transmit

theorem clamp_two (numbufs : Int) : 2 ≤ clampNumbufs numbufs := by
  unfold clampNumbufs maxNumBufs
  split
  · exact Nat.le_refl 2
  · split
    · decide
    · omega

/-- What a successful dahdi_reallocbufs leaves of a channel. -/
theorem reallocbufs_done {c : Chan T} {blocksize numbufs : Int} {tx rx : Bool}
    (done : (reallocbufs c blocksize numbufs tx rx).1 = 0) :
    (reallocbufs c blocksize numbufs tx rx).2 = { c with
      blocksize := blocksize
      read := c.read.realloc (clampNumbufs numbufs) (decide (blocksize ≠ 0))
      write := c.write.realloc (clampNumbufs numbufs) (decide (blocksize ≠ 0))
      numbufs := clampNumbufs numbufs
      txdisable := decide (c.txbufpolicy = .whenFull ∨ c.txbufpolicy = .halfFull) } := by
  unfold reallocbufs at done ⊢
  simp only at done ⊢
  split
  · rename_i failed
    rw [if_pos failed] at done
    simp at done
  · rfl

theorem ok_reallocbufs {c : Chan T} {blocksize numbufs : Int} {tx rx : Bool}
    (done : (reallocbufs c blocksize numbufs tx rx).1 = 0) :
    ChanOk (reallocbufs c blocksize numbufs tx rx).2 := by
  have two := clamp_two numbufs
  have positive : 0 < clampNumbufs numbufs := by omega
  rw [reallocbufs_done done]
  refine ⟨two, ?_, ⟨ok_realloc positive _, ?_, ?_⟩, ok_realloc positive _⟩
  · intro allocated empty
    have first := allocated 0 positive
    simp only at empty first
    simp [Ring.realloc, Ring.clear, empty, positive] at first
  · intro x inside
    simp only at inside
    simp [Ring.realloc, Ring.clear, inside]
  · intro x inside
    simp only at inside
    simp [Ring.realloc, Ring.clear, inside]

theorem ok_realloc_step {c : Chan T} (ok : ChanOk c) (blocksize numbufs : Int) (tx rx : Bool) :
    ChanOk (reallocbufs c blocksize numbufs tx rx).2 := by
  rcases eq_or_ne (reallocbufs c blocksize numbufs tx rx).1 0 with done | failed
  · exact ok_reallocbufs done
  · unfold reallocbufs at failed ⊢
    simp only at failed ⊢
    split
    · exact ok
    · rename_i enough
      rw [if_neg enough] at failed
      exact absurd rfl failed

theorem ok_announce {c : Chan T} (ok : ChanOk c) (free : 0 ≤ c.write.inbuf) :
    ChanOk (announceWrite c c.write.inbuf) := by
  have handed := ok_hand_over ok.two ok.write free
  simp only [announceWrite]
  split
  · exact ⟨ok.two, ok.sized, ok.read, handed⟩
  · exact ⟨ok.two, ok.sized, ok.read, handed⟩

theorem ok_write_commit {env : Env T} {c c' : Chan T} {usr : List Fasthdlc.Octet} (ok : ChanOk c)
    (free : 0 ≤ c.write.inbuf) (done : chanWriteCommit env c c.write.inbuf usr = some c') :
    ChanOk c' := by
  unfold chanWriteCommit at done
  split at done
  · simp only [Option.some.injEq] at done
    subst done
    exact ok
  · split at done
    · simp at done
    · rename_i buf present
      simp only [Option.some.injEq] at done
      subst done
      refine @ok_announce T { c with write := storeWrite env c c.write.inbuf buf (writeData c usr) }
        ⟨ok.two, ok.sized, ok.read, ?_⟩ free
      exact ok_same ok.write rfl rfl rfl (set_pointer (by rw [present]; simp))

theorem ok_read_commit {c c' : Chan T} {count : Nat} {data : List Fasthdlc.Octet} (ok : ChanOk c)
    (held : 0 ≤ c.read.outbuf) (done : chanReadCommit c c.read.outbuf count = some (data, c')) :
    ChanOk c' := by
  have released : ChanOk (releaseRead c c.read.outbuf) :=
    ⟨ok.two, ok.sized, read_release ok.two ok.read held, ok.write⟩
  unfold chanReadCommit at done
  split at done
  · simp only [Option.some.injEq, Prod.mk.injEq] at done
    obtain ⟨_, rfl⟩ := done
    exact released
  · split at done
    · simp at done
    · simp only [Option.some.injEq, Prod.mk.injEq] at done
      obtain ⟨_, rfl⟩ := done
      exact released

theorem ok_flush {c : Chan T} {mask : Nat} (ok : ChanOk c)
    (read : mask &&& flushRead ≠ 0 → c.read.buf 0 ≠ none)
    (write : mask &&& flushWrite ≠ 0 → c.write.buf 0 ≠ none) : ChanOk (flush c mask) := by
  have positive : 0 < c.numbufs := by
    have := ok.two
    omega
  have first : ChanOk (if mask &&& flushRead ≠ 0 then
      { c with read := c.read.clear c.numbufs 0 } else c) := by
    split
    · rename_i selected
      have allocated := ok_allocated positive ok.read.ring (read selected)
      exact ⟨ok.two, fun _ => ok.sized allocated, read_clear (ok_clear positive allocated), ok.write⟩
    · exact ok
  have second {m : Chan T} (okay : ChanOk m) (same : m.write = c.write) (size : m.numbufs = c.numbufs) :
      ChanOk (if mask &&& flushWrite ≠ 0 then
        { m with write := m.write.clear m.numbufs 0 } else m) := by
    split
    · rename_i selected
      have allocated := ok_allocated positive ok.write (write selected)
      rw [← same, ← size] at allocated
      exact ⟨okay.two, okay.sized, okay.read, ok_clear (by rw [size]; exact positive) allocated⟩
    · exact okay
  have third {m : Chan T} (okay : ChanOk m) : ChanOk (if mask &&& flushEvent ≠ 0 then
      { m with eventinidx := 0, eventoutidx := 0 } else m) := by
    split
    · exact ⟨okay.two, okay.sized, okay.read, okay.write⟩
    · exact okay
  exact third (second first (by split <;> rfl) (by split <;> rfl))

/-- The operations under the channel lock. `settings` is any other one: it
    leaves the buffers, their number and their size alone. -/
inductive Op (T : Type) where
  | realloc (blocksize numbufs : Int) (tx rx : Bool)
  | writeCommit (res : Int) (usr : List Fasthdlc.Octet)
  | readCommit (res : Int) (count : Nat)
  | getbufChunk (fuel : Nat)
  | putbufChunk (fuel : Nat) (rxb : List Fasthdlc.Octet)
  | hdlcPutbuf (rxb : List Fasthdlc.Octet)
  | hdlcFinish
  | hdlcAbort (event : Nat)
  | hdlcGetbuf (size : BitVec 32)
  | flush (mask : Nat)
  | settings (changed : Chan T)

def applyOp (env : Env T) (c : Chan T) : Op T → Option (Chan T)
  | .realloc blocksize numbufs tx rx => some (reallocbufs c blocksize numbufs tx rx).2
  | .writeCommit res usr => chanWriteCommit env c res usr
  | .readCommit res count => (chanReadCommit c res count).map (·.2)
  | .getbufChunk fuel => (getbufChunk env fuel c).map (·.2)
  | .putbufChunk fuel rxb => putbufChunk env fuel c rxb
  | .hdlcPutbuf rxb => hdlcPutbuf c rxb
  | .hdlcFinish => some (hdlcFinish c)
  | .hdlcAbort event => some (hdlcAbort c event)
  | .hdlcGetbuf size => (hdlcGetbuf c size).map (·.2.2.2)
  | .flush mask => some (flush c mask)
  | .settings changed => some { changed with
      blocksize := c.blocksize, numbufs := c.numbufs, read := c.read, write := c.write }

/-- A channel after dahdi_reallocbufs, and any operations that return. -/
def channelSystem (env : Env T) : System (Chan T) (Op T) where
  start c := ∃ c₀ blocksize numbufs tx rx,
    (reallocbufs c₀ blocksize numbufs tx rx).1 = 0 ∧ c = (reallocbufs c₀ blocksize numbufs tx rx).2
  step c op c' := applyOp env c op = some c'

/-- A commit finds the index it has read before, and a ring is flushed only
    when it has buffers. -/
def Careful (c : Chan T) : Op T → Prop
  | .writeCommit res _ => res = c.write.inbuf ∧ 0 ≤ res
  | .readCommit res _ => res = c.read.outbuf ∧ 0 ≤ res
  | .flush mask =>
      (mask &&& flushRead ≠ 0 → c.read.buf 0 ≠ none) ∧
        (mask &&& flushWrite ≠ 0 → c.write.buf 0 ≠ none)
  | _ => True

theorem ok_step {env : Env T} {c c' : Chan T} {op : Op T} (ok : ChanOk c) (careful : Careful c op)
    (done : applyOp env c op = some c') : ChanOk c' := by
  cases op with
  | realloc blocksize numbufs tx rx =>
    obtain rfl := Option.some.inj done
    exact ok_realloc_step ok blocksize numbufs tx rx
  | writeCommit res usr =>
    obtain ⟨rfl, free⟩ := careful
    exact ok_write_commit ok free done
  | readCommit res count =>
    obtain ⟨rfl, held⟩ := careful
    obtain ⟨⟨data, m⟩, returned, rfl⟩ := Option.map_eq_some_iff.mp done
    exact ok_read_commit ok held returned
  | getbufChunk fuel =>
    obtain ⟨⟨txb, m⟩, returned, rfl⟩ := Option.map_eq_some_iff.mp done
    exact ok_getbuf_chunk ok returned
  | putbufChunk fuel rxb => exact ok_putbuf_chunk ok done
  | hdlcPutbuf rxb => exact ok_hdlc_putbuf ok done
  | hdlcFinish =>
    obtain rfl := Option.some.inj done
    exact ok_hdlc_finish ok
  | hdlcAbort event =>
    obtain rfl := Option.some.inj done
    exact fills_ok ok (fills_hdlc_abort c event)
  | hdlcGetbuf size =>
    obtain ⟨⟨res, data, stored, m⟩, returned, rfl⟩ := Option.map_eq_some_iff.mp done
    exact ok_hdlc_getbuf ok returned
  | flush mask =>
    obtain rfl := Option.some.inj done
    exact ok_flush ok careful.1 careful.2
  | settings changed =>
    obtain rfl := Option.some.inj done
    exact ⟨ok.two, ok.sized, ok.read, ok.write⟩

/-- The law of one ring: where the indices may stand, what they select, and
    which buffers hold data. -/
structure RingLaw (size : Nat) (r : Ring) : Prop where
  inRange : InRange size r.inbuf
  outRange : InRange size r.outbuf
  inPointer : 0 ≤ r.inbuf → r.buf r.inbuf.toNat ≠ none
  outPointer : 0 ≤ r.outbuf → r.buf r.outbuf.toNat ≠ none
  oneIndex : Allocated size r → ¬ (r.inbuf = -1 ∧ r.outbuf = -1)
  walked : Allocated size r → r.filled = met size r.inbuf r.outbuf

structure ChanLaw (c : Chan T) : Prop where
  read : RingLaw c.numbufs c.read
  write : RingLaw c.numbufs c.write
  ready : ∀ x, x < c.numbufs → (0 < c.read.n x ↔ x ∈ c.read.filled)
  count : Allocated c.numbufs c.write → numFilledBufs c = c.write.filled.length

theorem ring_law {size : Nat} {r : Ring} (positive : 0 < size) (ok : RingOk size r) :
    RingLaw size r := by
  rcases ok with ⟨allocated, valid⟩ | ⟨missing, inn, out, none⟩
  · obtain ⟨inRange, outRange, apart, walked⟩ := valid
    refine ⟨inRange, outRange, ?_, ?_, by omega, fun _ => walked⟩
    · intro low
      rcases inRange with none | ⟨_, high⟩
      · omega
      · exact allocated _ (by omega)
    · intro low
      rcases outRange with none | ⟨_, high⟩
      · omega
      · exact allocated _ (by omega)
  · refine ⟨Or.inl inn, Or.inl out, by omega, by omega, ?_, ?_⟩
    · exact fun allocated => absurd (missing 0 positive) (allocated 0 positive)
    · exact fun allocated => absurd (missing 0 positive) (allocated 0 positive)

theorem filled_count {c : Chan T} (positive : 0 < c.numbufs) (ok : RingOk c.numbufs c.write)
    (allocated : Allocated c.numbufs c.write) : numFilledBufs c = c.write.filled.length := by
  rcases ok with ⟨_, valid⟩ | ⟨missing, _⟩
  · obtain ⟨inRange, outRange, apart, walked⟩ := valid
    rw [walked]
    unfold numFilledBufs
    rcases outRange with out | ⟨low, high⟩
    · rcases inRange with inn | inn
      · omega
      · rw [if_neg (by omega), if_pos (by omega), out, met_empty]
        rfl
    · obtain ⟨first, out⟩ := Int.eq_ofNat_of_zero_le low
      rcases inRange with inn | ⟨low', high'⟩
      · rw [if_pos (by omega), inn, out, met_full, walk_length]
      · obtain ⟨next, inn⟩ := Int.eq_ofNat_of_zero_le low'
        rw [if_neg (by omega), if_neg (by omega), inn, out, met_between, walk_length]
        unfold gap
        split <;> split <;> omega
  · exact absurd (missing 0 positive) (allocated 0 positive)

theorem chan_law {c : Chan T} (ok : ChanOk c) : ChanLaw c := by
  have positive : 0 < c.numbufs := by
    have := ok.two
    omega
  exact ⟨ring_law positive ok.read.ring, ring_law positive ok.write, ok.read.ready,
    filled_count positive ok.write⟩

/-- In every run of careful steps the indices obey the law. -/
theorem ring_indices_lawful (env : Env T) {c : Chan T}
    (reached : Reach (channelSystem env) Careful c) : ChanLaw c := by
  refine chan_law (invariant_run ?_ ?_ reached)
  · rintro c ⟨c₀, blocksize, numbufs, tx, rx, done, rfl⟩
    exact ok_reallocbufs done
  · intro c op c' ok careful done
    exact ok_step ok careful done

section Concrete

def silentEnv : Env Unit where
  pppFcs fcs _ := fcs
  pppInitfcs := 0xffff#32
  pppGoodfcs := 0xf0b8#32
  curtone _ := false
  toneBusy _ := false
  toneLeft _ := 0
  toneNextsample ts := (0, ts)
  tonePlayed ts _ := ts
  toneStop ts := ts

def noRing : Ring := ⟨fun _ => none, fun _ => 0, fun _ => 0, 0, 0, []⟩

/-- A channel structure as kzalloc leaves it. -/
def zeroChan : Chan Unit where
  flags := ⟨false, false, false, false, false, false, false, false, false, false⟩
  blocksize := 0
  numbufs := 0
  read := noRing
  write := noRing
  txbufpolicy := .immediate
  txdisable := false
  rxhdlc := Fasthdlc.fasthdlcInit .mode64
  txhdlc := Fasthdlc.fasthdlcInit .mode64
  infcs := 0
  readchunk _ := 0
  lin2x _ := 0xff
  xlaw _ := 0
  pseudo := false
  tones := ()
  eventbuf _ := 0
  eventinidx := 0
  eventoutidx := 0
  txunderrun := false
  rxoverrun := false
  alarms := false

def unallocated : Chan Unit := (reallocbufs zeroChan 0 4 true true).2

theorem ring_indices_lawful_after_write :
    ChanLaw (reallocbufs zeroChan 64 4 true true).2 ∧
      ∃ c, applyOp silentEnv (reallocbufs zeroChan 64 4 true true).2
        (.writeCommit 0 [0x41, 0x42, 0x43]) = some c ∧ ChanLaw c := by
  have start : Reach (channelSystem silentEnv) Careful (reallocbufs zeroChan 64 4 true true).2 :=
    .start ⟨zeroChan, 64, 4, true, true, by decide, rfl⟩
  have careful : Careful (reallocbufs zeroChan 64 4 true true).2
      (.writeCommit 0 [0x41, 0x42, 0x43]) := ⟨by decide, by decide⟩
  exact ⟨ring_indices_lawful silentEnv start, _, rfl,
    ring_indices_lawful silentEnv (.step start careful rfl)⟩

/-- Flushing a channel without buffers lets the filler write through NULL. -/
theorem flush_without_buffers :
    ∃ c, Reach (channelSystem silentEnv) anyStep c ∧ ¬ ChanLaw c := by
  refine ⟨flush unallocated flushWrite, ?_, ?_⟩
  · have start : Reach (channelSystem silentEnv) anyStep unallocated :=
      .start ⟨zeroChan, 0, 4, true, true, by decide, rfl⟩
    exact .step (l := .flush flushWrite) start trivial rfl
  · intro law
    exact law.write.inPointer (by decide) rfl

end Concrete

end RingInvariant
