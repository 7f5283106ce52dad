import Dahdi.Channel.Contents

/-!
Repeated messages on an MTP2 channel: __putbuf_chunk drops a frame that equals
the one queued last, and finds that one by its place in the ring.
-/
namespace DuplicateFrames
open Channel CyclicCursor RingInvariant RingContents GuardedRun Fasthdlc
variable {T : Type} {env : Env T}

/-- Where a pass of __putbuf_chunk stops. -/
def passStopped (env : Env T) (ms : Chan T) (rxb : List Octet) : Option (Stopped T) :=
  let x := ms.read.inbuf.toNat
  let left := min (ms.blocksize - ms.read.idx x) rxb.length
  if ms.flags.hdlc then putbufHdlcLoop env x left.toNat ms rxb
  else if left < 0 then none
  else match ms.read.buf x with
    | none => none
    | some buf =>
      let ms := { ms with read := { ms.read with
        buf := set ms.read.buf x (some (copyAt buf (ms.read.idx x).toNat (rxb.take left.toNat)))
        idx := set ms.read.idx x (ms.read.idx x + left) } }
      let eof := decide (ms.blocksize ≤ ms.read.idx x)
      if eof && ms.flags.nostdtxrx then some ⟨ms, rxb.drop left.toNat, false, eventOverrun⟩
      else some ⟨ms, rxb.drop left.toNat, eof, 0⟩

theorem pass_stopped (env : Env T) (ms : Chan T) (rxb : List Octet) :
    putbufPass env ms rxb = (passStopped env ms rxb).bind fun s =>
      (finishPass env ms.read.inbuf.toNat s).map fun ms => (ms, s.rxb) := by
  unfold putbufPass
  extract_lets x left read stopped
  have same : passStopped env ms rxb = stopped := rfl
  rw [same]
  cases stopped <;> rfl

/-- The frame a pass completes. -/
def arrival (env : Env T) (ms : Chan T) (rxb : List Octet) : Option (List Octet) :=
  (passStopped env ms rxb).bind fun s =>
    if s.eof then
      some (bytesOf ((s.ms.read.buf ms.read.inbuf.toNat).getD fun _ => 0) 0
        (s.ms.read.idx ms.read.inbuf.toNat).toNat)
    else none

/-- The buffer before the one being filled, or before the oldest in a full ring. -/
def previous (size : Nat) (inn out : Int) : Nat :=
  (((if inn < 0 then out else inn) - 1) % size).toNat

/-- The index the code computes instead. -/
def masked (size : Nat) (inn : Int) : Nat := ((inn - 1) % 2 ^ 32).toNat &&& (size - 1)

def Begins (r : Ring) (x : Nat) (frame : List Octet) : Prop :=
  bytesOf ((r.buf x).getD fun _ => 0) 0 frame.length = frame

instance (r : Ring) (x : Nat) (frame : List Octet) : Decidable (Begins r x frame) :=
  inferInstanceAs (Decidable (_ = _))

/-- The work of a pass on the buffer being filled. -/
structure Elsewhere (x : Nat) (c c' : Chan T) : Prop where
  others : ∀ y, y ≠ x → c'.read.buf y = c.read.buf y
  flags : c'.flags = c.flags

theorem elsewhere_refl (x : Nat) (c : Chan T) : Elsewhere x c c := ⟨fun _ _ => rfl, rfl⟩

theorem elsewhere_trans {x : Nat} {a b c : Chan T} (first : Elsewhere x a b)
    (second : Elsewhere x b c) : Elsewhere x a c :=
  ⟨fun y other => (second.others y other).trans (first.others y other),
    second.flags.trans first.flags⟩

theorem elsewhere_hdlc_loop {x left : Nat} {c : Chan T} {rxb : List Octet} {s : Stopped T}
    (done : putbufHdlcLoop env x left c rxb = some s) : Elsewhere x c s.ms := by
  induction left generalizing c rxb with
  | zero =>
    rw [← Option.some.inj done]
    exact elsewhere_refl x c
  | succ left ih =>
    cases rxb with
    | nil =>
      rw [← Option.some.inj done]
      exact elsewhere_refl x c
    | cons b rxb =>
      simp only [putbufHdlcLoop] at done
      split at done
      · cases done
      · rename_i res h run
        have loaded : Elsewhere x c { c with rxhdlc := h } := ⟨fun _ _ => rfl, rfl⟩
        cases res with
        | empty => exact elsewhere_trans loaded (ih done)
        | complete =>
          simp only at done
          split at done
          · exact elsewhere_trans loaded (ih done)
          · split at done
            · rw [← Option.some.inj done]
              exact loaded
            · rw [← Option.some.inj done]
              exact loaded
        | discard =>
          simp only at done
          split at done
          · exact elsewhere_trans loaded (ih done)
          · rw [← Option.some.inj done]
            exact loaded
        | data rxc =>
          simp only at done
          split at done
          · cases done
          · rename_i c' stored
            have written : Elsewhere x c c' := by
              unfold putbufByte at stored
              split at stored
              · cases stored
              · rw [← Option.some.inj stored]
                exact ⟨fun y other => set_other _ _ other, rfl⟩
            split at done
            · rw [← Option.some.inj done]
              exact ⟨written.others, written.flags⟩
            · exact elsewhere_trans written (ih done)

/-- What a pass does before it finishes a frame. -/
theorem stopped_works {c : Chan T} {rxb : List Octet} {s : Stopped T} (ok : ChanOk c)
    (free : 0 ≤ c.read.inbuf) (stopped : passStopped env c rxb = some s) :
    Fills c s.ms ∧ Elsewhere c.read.inbuf.toNat c s.ms ∧
      (s.eof = true → 0 < s.ms.read.idx c.read.inbuf.toNat) := by
  obtain ⟨low, sized⟩ := (ok_kept env).started ok free
  simp only [passStopped] at stopped
  split at stopped
  · obtain ⟨fills, ended⟩ := fills_hdlc_loop low stopped
    exact ⟨fills, elsewhere_hdlc_loop stopped, ended⟩
  · split at stopped
    · cases stopped
    · rename_i positive
      split at stopped
      · cases stopped
      · rename_i buf present
        have filled := fills_bytes c (copyAt buf (c.read.idx c.read.inbuf.toNat).toNat
          (rxb.take (min (c.blocksize - c.read.idx c.read.inbuf.toNat) rxb.length).toNat))
          present (fun low => (by omega : 0 ≤ c.read.idx c.read.inbuf.toNat +
            min (c.blocksize - c.read.idx c.read.inbuf.toNat) rxb.length))
        split at stopped
        · rw [← Option.some.inj stopped]
          exact ⟨filled, ⟨fun y other => set_other _ _ other, rfl⟩, by simp⟩
        · rw [← Option.some.inj stopped]
          refine ⟨filled, ⟨fun y other => set_other _ _ other, rfl⟩, ?_⟩
          simp only [set_same, decide_eq_true_eq]
          omega

section Places
variable {size : Nat} {inn out : Int}

theorem masked_below (two : 2 ≤ size) : masked size inn < size := by
  have bound := @Nat.and_le_right ((inn - 1) % 2 ^ 32).toNat (size - 1)
  unfold masked
  omega

/-- The code never compares a frame with itself. -/
theorem masked_apart (two : 2 ≤ size) (few : size ≤ 32) (low : 0 ≤ inn) (high : inn < size) :
    masked size inn ≠ inn.toNat := by
  unfold masked
  rcases Int.lt_or_le inn 1 with first | later
  · have zero : inn = 0 := by omega
    have all : ((0 - 1 : Int) % 2 ^ 32).toNat = 2 ^ 32 - 1 := by decide
    rw [zero, all, Nat.and_comm, Nat.and_two_pow_sub_one_eq_mod, Nat.mod_eq_of_lt (by omega)]
    omega
  · have below : ((inn - 1) % 2 ^ 32).toNat = inn.toNat - 1 := by
      rw [Int.emod_eq_of_lt (by omega) (by omega)]
      omega
    have bound := @Nat.and_le_left ((inn - 1) % 2 ^ 32).toNat (size - 1)
    omega

/-- With a power of two the mask is the modulus. -/
theorem masked_power {k : Nat} (power : size = 2 ^ k) (few : size ≤ 32) (low : 0 ≤ inn) :
    masked size inn = previous size inn out := by
  have small : k ≤ 32 := by
    have bits := @Nat.lt_two_pow_self k
    omega
  have same : (((((inn - 1) % 2 ^ 32).toNat % 2 ^ k : Nat)) : Int) = (inn - 1) % ((2 ^ k : Nat) : Int) := by
    rw [Int.natCast_mod, Int.toNat_of_nonneg (Int.emod_nonneg _ (by norm_num))]
    push_cast
    exact Int.emod_emod_of_dvd _ (pow_dvd_pow 2 small)
  unfold masked previous
  rw [if_neg (by omega), power, Nat.and_two_pow_sub_one_eq_mod, ← same, Int.toNat_natCast]

theorem before_next (low : 0 ≤ inn) (high : inn < size) :
    (((inn + 1) % size - 1) % size) = inn := by
  rcases Int.lt_or_le (inn + 1) size with inside | last
  · rw [Int.emod_eq_of_lt (by omega) inside, Int.add_sub_cancel, Int.emod_eq_of_lt low high]
  · have same : inn + 1 = size := by omega
    rw [same, Int.emod_self]
    rw [show (0 - 1 : Int) = inn - size by omega, Int.sub_emod_right, Int.emod_eq_of_lt low high]

theorem previous_fill (two : 2 ≤ size) (low : 0 ≤ inn) (high : inn < size) :
    previous size (fillIn size inn out) (fillOut inn out) = inn.toNat := by
  have next := before_next low high
  have positive : 0 ≤ (inn + 1) % (size : Int) := Int.emod_nonneg _ (by omega)
  unfold previous fillIn fillOut
  split
  · rename_i full
    rw [if_pos (by decide), if_neg (by omega), ← full, next]
  · rw [if_neg (by omega), next]

theorem previous_empty (low : 0 ≤ out) (next : Int) :
    previous size (emptyIn inn out) next = previous size inn out := by
  unfold previous emptyIn
  split
  · rw [if_neg (by omega)]
  · rfl

theorem previous_apart (two : 2 ≤ size) (low : 0 ≤ inn) (high : inn < size) :
    previous size inn out ≠ inn.toNat := by
  unfold previous
  rw [if_neg (by omega)]
  rcases Int.lt_or_le inn 1 with first | later
  · have zero : inn = 0 := by omega
    have last : (0 - 1 : Int) % size = size - 1 := by
      rw [show (0 - 1 : Int) = (size - 1) - size by omega, Int.sub_emod_right,
        Int.emod_eq_of_lt (by omega) (by omega)]
    rw [zero, last]
    omega
  · rw [Int.emod_eq_of_lt (by omega) (by omega)]
    omega

end Places

/-- The frame goes to the reader. -/
def Queued (c c' : Chan T) (frame : List Octet) : Prop :=
  c'.read.filled = c.read.filled ++ [c.read.inbuf.toNat] ∧ frameAt c'.read c.read.inbuf.toNat = frame

/-- Where the ring stands after a pass: a frame was queued, or nothing was. -/
inductive Outcome (env : Env T) (c c' : Chan T) (rxb : List Octet) : Prop where
  | joins (frame : List Octet) : arrival env c rxb = some frame →
      ¬ Begins c.read (masked c.numbufs c.read.inbuf) frame → Queued c c' frame →
      c'.read.inbuf = fillIn c.numbufs c.read.inbuf c.read.outbuf →
      c'.read.outbuf = fillOut c.read.inbuf c.read.outbuf → Outcome env c c' rxb
  | stays : (∀ frame, arrival env c rxb = some frame →
        Begins c.read (masked c.numbufs c.read.inbuf) frame) →
      c'.read.filled = c.read.filled → c'.read.inbuf = c.read.inbuf →
      c'.read.outbuf = c.read.outbuf → Outcome env c c' rxb

/-- The comparison at the end of a frame looks at the buffer the mask selects. -/
theorem same_message {r : Ring} {size x y : Nat} {frame : List Octet} {a b : Buffer}
    (selected : masked size x = y) (old : r.buf y = some a) (new : r.buf x = some b)
    (whole : bytesOf b 0 (r.n x).toNat = frame) :
    sameMessage r size x = some (decide (Begins r y frame)) := by
  have length := bytes_length b 0 (r.n x).toNat
  rw [whole] at length
  unfold sameMessage Begins
  unfold masked at selected
  simp only [selected, old, new, whole, Option.getD_some, length]

/-- What the rest of a pass does with what was read. -/
structure Finished (m c' : Chan T) : Prop where
  filled : c'.read.filled = m.read.filled
  inbuf : c'.read.inbuf = m.read.inbuf
  outbuf : c'.read.outbuf = m.read.outbuf
  buf : c'.read.buf = m.read.buf
  ready : c'.read.n = m.read.n
  size : c'.numbufs = m.numbufs
  mtp2 : c'.flags.mtp2 = m.flags.mtp2

theorem abort_finished (m : Chan T) (x abort : Nat) : Finished m (putbufAbort env m x abort) := by
  unfold putbufAbort qevent
  simp only
  split
  · split
    · exact ⟨rfl, rfl, rfl, rfl, rfl, rfl, rfl⟩
    · split <;> exact ⟨rfl, rfl, rfl, rfl, rfl, rfl, rfl⟩
  · exact ⟨rfl, rfl, rfl, rfl, rfl, rfl, rfl⟩

/-- The end of a frame: it is dropped where it stands, or handed over. -/
theorem eof_cases {m m' : Chan T} {x y : Nat} {frame : List Octet} {a b : Buffer}
    (mtp2 : m.flags.mtp2 = true) (selected : masked m.numbufs x = y) (old : m.read.buf y = some a)
    (new : m.read.buf x = some b) (whole : bytesOf b 0 (m.read.idx x).toNat = frame)
    (done : putbufEof env m x = some m') :
    m'.numbufs = m.numbufs ∧ m'.flags.mtp2 = true ∧ m'.read.buf = m.read.buf ∧
      (Begins m.read y frame → m'.read.filled = m.read.filled ∧ m'.read.inbuf = m.read.inbuf ∧
        m'.read.outbuf = m.read.outbuf) ∧
      (¬ Begins m.read y frame → m'.read = { m.read with
        n := set m.read.n x (m.read.idx x) }.handOver m.numbufs x) := by
  have compared := @same_message { m.read with n := set m.read.n x (m.read.idx x) } m.numbufs x y
    frame a b selected old new (by simp only [set_same]; exact whole)
  have begins : Begins { m.read with n := set m.read.n x (m.read.idx x) } y frame ↔
      Begins m.read y frame := Iff.rfl
  simp only [putbufEof, mtp2, ↓reduceIte, compared, begins] at done
  by_cases repeated : Begins m.read y frame
  · simp only [repeated, decide_true, Option.some.injEq] at done
    subst done
    exact ⟨rfl, mtp2, rfl, fun _ => ⟨rfl, rfl, rfl⟩, fun fresh => absurd repeated fresh⟩
  · simp only [repeated, decide_false, Option.some.injEq] at done
    subst done
    exact ⟨rfl, mtp2, rfl, fun begun => absurd begun repeated, fun _ => rfl⟩

theorem pass_outcome {c c' : Chan T} {rxb rest : List Octet} (ok : ChanOk c) (few : c.numbufs ≤ 32)
    (mtp2 : c.flags.mtp2 = true) (free : 0 ≤ c.read.inbuf)
    (done : putbufPass env c rxb = some (c', rest)) :
    Outcome env c c' rxb ∧ c'.numbufs = c.numbufs ∧ c'.flags.mtp2 = true ∧
      ∀ y, y ≠ c.read.inbuf.toNat → c'.read.buf y = c.read.buf y := by
  obtain ⟨allocated, valid, inside⟩ := ok_in ok.read.ring free
  rw [pass_stopped] at done
  obtain ⟨s, stopped, finish⟩ := Option.bind_eq_some_iff.mp done
  obtain ⟨m, finished, same⟩ := Option.map_eq_some_iff.mp finish
  obtain ⟨rfl, _⟩ := Prod.mk.inj same
  obtain ⟨fills, elsewhere, ended⟩ := stopped_works ok free stopped
  have arrived : arrival env c rxb = if s.eof then
      some (bytesOf ((s.ms.read.buf c.read.inbuf.toNat).getD fun _ => 0) 0
        (s.ms.read.idx c.read.inbuf.toNat).toNat) else none := by
    rw [arrival, stopped, Option.bind_some]
  unfold finishPass at finished
  cases eof : s.eof with
  | false =>
    rw [eof] at finished arrived
    simp only [Bool.false_eq_true, ↓reduceIte, Option.some.injEq] at finished arrived
    have after : Finished s.ms m := by
      rw [← finished]
      split
      · exact ⟨rfl, rfl, rfl, rfl, rfl, rfl, rfl⟩
      · exact abort_finished s.ms _ _
    refine ⟨.stays ?_ ?_ ?_ ?_, ?_, ?_, ?_⟩
    · rw [arrived]
      exact fun _ none => nomatch none
    · exact after.filled.trans fills.filled
    · exact after.inbuf.trans fills.inbuf
    · exact after.outbuf.trans fills.outbuf
    · exact after.size.trans fills.numbufs
    · rw [after.mtp2, elsewhere.flags]
      exact mtp2
    · intro y other
      rw [after.buf]
      exact elsewhere.others y other
  | true =>
    rw [eof] at finished arrived
    simp only [↓reduceIte] at finished arrived
    split at finished
    · cases finished
    · rename_i m' handled
      have after : Finished m' m := by
        rw [← Option.some.inj finished]
        split
        · exact ⟨rfl, rfl, rfl, rfl, rfl, rfl, rfl⟩
        · exact abort_finished m' _ _
      have slot : ((c.read.inbuf.toNat : Nat) : Int) = c.read.inbuf := by omega
      have apart := masked_apart ok.two few free (by omega)
      have below := @masked_below c.numbufs c.read.inbuf ok.two
      obtain ⟨a, old⟩ := Option.ne_none_iff_exists'.mp (allocated _ below)
      have present : s.ms.read.buf c.read.inbuf.toNat ≠ none := by
        rw [ne_eq, fills.pointers]
        exact allocated _ inside
      obtain ⟨b, new⟩ := Option.ne_none_iff_exists'.mp present
      have old' := (elsewhere.others _ apart).trans old
      rw [new, Option.getD_some] at arrived
      have selected : masked s.ms.numbufs (c.read.inbuf.toNat : Nat) = masked c.numbufs c.read.inbuf := by
        rw [fills.numbufs, slot]
      obtain ⟨size, mtp2', buf, dropped, handed⟩ := eof_cases (by rw [elsewhere.flags]; exact mtp2)
        selected old' new rfl handled
      have begins (frame : List Octet) : Begins s.ms.read (masked c.numbufs c.read.inbuf) frame ↔
          Begins c.read (masked c.numbufs c.read.inbuf) frame := by
        unfold Begins
        rw [old', old]
      rw [begins] at dropped handed
      refine ⟨?_, ?_, ?_, ?_⟩
      · by_cases repeated : Begins c.read (masked c.numbufs c.read.inbuf)
            (bytesOf b 0 (s.ms.read.idx c.read.inbuf.toNat).toNat)
        · obtain ⟨filled, inn, out⟩ := dropped repeated
          refine .stays ?_ ?_ ?_ ?_
          · intro frame arrived'
            rw [arrived] at arrived'
            rw [← Option.some.inj arrived']
            exact repeated
          · exact (after.filled.trans filled).trans fills.filled
          · exact (after.inbuf.trans inn).trans fills.inbuf
          · exact (after.outbuf.trans out).trans fills.outbuf
        · have read := handed repeated
          refine .joins _ arrived repeated ⟨?_, ?_⟩ ?_ ?_
          · rw [after.filled, read]
            simp only [Ring.handOver, fills.filled, Int.toNat_natCast]
          · simp only [frameAt]
            rw [after.buf, after.ready, read]
            simp only [Ring.handOver, set_same, new, Option.getD_some]
          · rw [after.inbuf, read, fillIn]
            simp only [Ring.handOver, fills.numbufs, fills.outbuf, slot]
          · rw [after.outbuf, read, fillOut]
            simp only [Ring.handOver, fills.outbuf, slot]
      · exact (after.size.trans size).trans fills.numbufs
      · exact after.mtp2.trans mtp2'
      · intro y other
        rw [after.buf, buf]
        exact elsewhere.others y other

/-- An MTP2 channel and the frame it queued last. -/
structure Line (T : Type) where
  chan : Chan T
  last : Option (List Octet)

def lastAfter (env : Env T) (l : Line T) (rxb : List Octet) (c' : Chan T) : Option (List Octet) :=
  if c'.read.filled = l.chan.read.filled then l.last else arrival env l.chan rxb

/-- `pass` is one round of the while loop of __putbuf_chunk over the octets left
    of a chunk, `settings` anything that leaves the read side alone. -/
inductive Step (T : Type) where
  | pass (rxb : List Octet)
  | read (count : Nat)
  | settings (changed : Chan T)

/-- An MTP2 channel after dahdi_reallocbufs, received octets and reads. -/
def mtp2System (env : Env T) : System (Line T) (Step T) where
  start l := (∃ c₀ blocksize numbufs tx rx, (reallocbufs c₀ blocksize numbufs tx rx).1 = 0 ∧
    l.chan = (reallocbufs c₀ blocksize numbufs tx rx).2) ∧ l.chan.flags.mtp2 = true ∧ l.last = none
  step l s l' := match s with
    | .pass rxb => rxb ≠ [] ∧ -1 < l.chan.read.inbuf ∧ l'.last = lastAfter env l rxb l'.chan ∧
        ∃ rest, putbufPass env l.chan rxb = some (l'.chan, rest)
    | .read count => 0 ≤ l.chan.read.outbuf ∧ l'.last = l.last ∧
        ∃ data, chanReadCommit l.chan l.chan.read.outbuf count = some (data, l'.chan)
    | .settings changed => l'.last = l.last ∧ RingOk l.chan.numbufs changed.write ∧
        l'.chan = { changed with
          blocksize := l.chan.blocksize, numbufs := l.chan.numbufs, read := l.chan.read
          flags := { changed.flags with mtp2 := true } }

/-- The frame queued last is still in the buffer before the filler's. -/
structure LineOk (l : Line T) : Prop where
  ok : ChanOk l.chan
  few : l.chan.numbufs ≤ 32
  mtp2 : l.chan.flags.mtp2 = true
  kept : ∀ g, l.last = some g →
    Begins l.chan.read (previous l.chan.numbufs l.chan.read.inbuf l.chan.read.outbuf) g

/-- The mask selects the buffer before the filler's, and that buffer begins with
    no other frame than the last; or it selects another buffer, and that one
    happens to give the same answer. -/
def Sound (c : Chan T) (last : Option (List Octet)) (frame : List Octet) : Prop :=
  if masked c.numbufs c.read.inbuf = previous c.numbufs c.read.inbuf c.read.outbuf then
    last ≠ some frame →
      ¬ Begins c.read (previous c.numbufs c.read.inbuf c.read.outbuf) frame
  else Begins c.read (masked c.numbufs c.read.inbuf) frame ↔ last = some frame

theorem begins_other {r r' : Ring} {y : Nat} (same : r'.buf y = r.buf y) (frame : List Octet) :
    Begins r' y frame ↔ Begins r y frame := by
  unfold Begins
  rw [same]

theorem begins_frame {r : Ring} {y : Nat} {frame : List Octet} (whole : frameAt r y = frame) :
    Begins r y frame := by
  have length := bytes_length ((r.buf y).getD fun _ => 0) 0 (r.n y).toNat
  unfold frameAt at whole
  unfold Begins
  rw [whole] at length
  rw [length]
  exact whole

theorem line_pass {l l' : Line T} {rxb rest : List Octet} (ok : LineOk l)
    (free : 0 ≤ l.chan.read.inbuf) (after : l'.last = lastAfter env l rxb l'.chan)
    (done : putbufPass env l.chan rxb = some (l'.chan, rest)) : LineOk l' := by
  obtain ⟨okay, few, mtp2, kept⟩ := ok
  obtain ⟨_, valid, inside⟩ := ok_in okay.read.ring free
  obtain ⟨outcome, size, mtp2', others⟩ := pass_outcome okay few mtp2 free done
  refine ⟨kept_pass (ok_kept env) okay free done, by rw [size]; exact few, mtp2', ?_⟩
  intro g last
  rw [size]
  rw [after, lastAfter] at last
  cases outcome with
  | joins frame arrived fresh queued inn out =>
    have longer : l'.chan.read.filled ≠ l.chan.read.filled := by
      rw [queued.1]
      simp
    rw [if_neg longer, arrived] at last
    rw [inn, out, previous_fill okay.two free (by omega), ← Option.some.inj last]
    exact begins_frame queued.2
  | stays _ same inn out =>
    rw [if_pos same] at last
    rw [inn, out]
    have apart : previous l.chan.numbufs l.chan.read.inbuf l.chan.read.outbuf ≠
        l.chan.read.inbuf.toNat := previous_apart okay.two free (by omega)
    rw [begins_other (others _ apart)]
    exact kept g last

theorem line_read {l l' : Line T} {count : Nat} {data : List Octet} (ok : LineOk l)
    (held : 0 ≤ l.chan.read.outbuf) (last : l'.last = l.last)
    (done : chanReadCommit l.chan l.chan.read.outbuf count = some (data, l'.chan)) : LineOk l' := by
  have okay' := ok_read_commit ok.ok held done
  have released : l'.chan = releaseRead l.chan l.chan.read.outbuf := by
    unfold chanReadCommit at done
    split at done
    · exact (Prod.mk.inj (Option.some.inj done)).2.symm
    · split at done
      · cases done
      · exact (Prod.mk.inj (Option.some.inj done)).2.symm
  obtain ⟨okay, few, mtp2, kept⟩ := ok
  refine ⟨okay', by rw [released]; exact few, by rw [released]; exact mtp2, ?_⟩
  intro g same
  rw [last] at same
  have before := kept g same
  rw [released]
  have place := @previous_empty l.chan.numbufs l.chan.read.inbuf l.chan.read.outbuf held
    (releaseRead l.chan l.chan.read.outbuf).read.outbuf
  rw [← place] at before
  exact before

theorem line_reached {l : Line T} (reached : Reach (mtp2System env) anyStep l) : LineOk l := by
  refine invariant_run ?_ ?_ reached
  · rintro l ⟨⟨c₀, blocksize, numbufs, tx, rx, done, made⟩, mtp2, none⟩
    refine ⟨by rw [made]; exact ok_reallocbufs done, ?_, mtp2, ?_⟩
    · rw [made, reallocbufs_done done]
      exact (clamp_range numbufs).2
    · intro g last
      rw [none] at last
      cases last
  · intro l s l' ok _ moved
    cases s with
    | pass rxb =>
      obtain ⟨_, free, after, rest, done⟩ := moved
      exact line_pass ok (by omega) after done
    | read count =>
      obtain ⟨held, last, data, done⟩ := moved
      exact line_read ok held last done
    | settings changed =>
      obtain ⟨last, ring, same⟩ := moved
      obtain ⟨okay, few, mtp2, kept⟩ := ok
      refine ⟨?_, ?_, ?_, ?_⟩
      · rw [same]
        exact ⟨okay.two, okay.sized, okay.read, ring⟩
      · rw [same]
        exact few
      · rw [same]
      · rw [same, last]
        exact kept

theorem loop_reached {fuel : Nat} {l : Line T} {c' : Chan T} {rxb rest : List Octet}
    (reached : Reach (mtp2System env) anyStep l)
    (done : putbufLoop env fuel l.chan rxb = some (c', rest)) :
    ∃ l', Reach (mtp2System env) anyStep l' ∧ l'.chan = c' := by
  induction fuel generalizing l rxb with
  | zero => cases done
  | succ fuel ih =>
    unfold putbufLoop at done
    split at done
    · exact ⟨l, reached, (Prod.mk.inj (Option.some.inj done)).1⟩
    · rename_i octets
      split at done
      · rename_i free
        split at done
        · cases done
        · rename_i m later passed
          have next : Reach (mtp2System env) anyStep ⟨m, lastAfter env l rxb m⟩ :=
            .step (l := .pass rxb) reached trivial ⟨octets, free, rfl, later, passed⟩
          exact ih next done
      · exact ⟨l, reached, (Prod.mk.inj (Option.some.inj done)).1⟩

/-- A whole chunk is a run of passes. -/
theorem chunk_reached {fuel : Nat} {l : Line T} {c' : Chan T} {rxb : List Octet}
    (reached : Reach (mtp2System env) anyStep l)
    (done : putbufChunk env fuel l.chan rxb = some c') :
    ∃ l', Reach (mtp2System env) anyStep l' ∧ l'.chan = c' := by
  unfold putbufChunk at done
  split at done
  · cases done
  · rename_i m dropped looped
    obtain ⟨l', reached', rfl⟩ := loop_reached reached looped
    have ok := line_reached reached'
    have marked (c : Chan T) (read : c.read = l'.chan.read) (sizes : c.blocksize = l'.chan.blocksize ∧
        c.numbufs = l'.chan.numbufs) (write : c.write = l'.chan.write) (flags : c.flags = l'.chan.flags) :
        ∃ l'', Reach (mtp2System env) anyStep l'' ∧ l''.chan = c := by
      refine ⟨⟨c, l'.last⟩, .step (l := .settings c) reached' trivial ⟨rfl, ?_, ?_⟩, rfl⟩
      · rw [write]
        exact ok.ok.write
      · simp only [← read, ← sizes.1, ← sizes.2]
        have mtp2 : c.flags.mtp2 = true := by
          rw [flags]
          exact ok.mtp2
        rw [← mtp2]
    split at done
    · rw [← Option.some.inj done]
      exact marked _ rfl ⟨rfl, rfl⟩ rfl rfl
    · split at done
      · exact ⟨l', reached', Option.some.inj done⟩
      · rw [← Option.some.inj done]
        unfold qevent
        split
        · split
          · exact marked _ rfl ⟨rfl, rfl⟩ rfl rfl
          · split <;> exact marked _ rfl ⟨rfl, rfl⟩ rfl rfl
        · exact marked _ rfl ⟨rfl, rfl⟩ rfl rfl

/-- In every reachable state a complete frame that finds room is queued exactly
    if it differs from the last one queued, if and only if the comparison is
    sound; with a power of two of buffers the mask never goes astray. -/
theorem repeated_frames_dropped_iff (env : Env T) {l : Line T} {c' : Chan T}
    {rxb rest frame : List Octet} (reached : Reach (mtp2System env) anyStep l)
    (room : -1 < l.chan.read.inbuf) (arrived : arrival env l.chan rxb = some frame)
    (done : putbufPass env l.chan rxb = some (c', rest)) :
    ((Queued l.chan c' frame ↔ l.last ≠ some frame) ↔ Sound l.chan l.last frame) ∧
      ∀ k, l.chan.numbufs = 2 ^ k → masked l.chan.numbufs l.chan.read.inbuf =
        previous l.chan.numbufs l.chan.read.inbuf l.chan.read.outbuf := by
  obtain ⟨okay, few, mtp2, kept⟩ := line_reached reached
  refine ⟨?_, fun k power => masked_power power few (by omega)⟩
  have queued : Queued l.chan c' frame ↔
      ¬ Begins l.chan.read (masked l.chan.numbufs l.chan.read.inbuf) frame := by
    obtain ⟨outcome, _⟩ := pass_outcome okay few mtp2 (by omega) done
    cases outcome with
    | joins frame' arrived' fresh queued =>
      rw [arrived] at arrived'
      obtain rfl := Option.some.inj arrived'
      exact iff_of_true queued fresh
    | stays repeated same =>
      refine iff_of_false ?_ (not_not_intro (repeated frame arrived))
      rintro ⟨longer, _⟩
      rw [same] at longer
      simp at longer
  rw [queued]
  unfold Sound
  split
  · rename_i place
    rw [place]
    constructor
    · exact fun law differs => law.mpr differs
    · refine fun sound => ⟨fun fresh same => fresh (kept frame same), sound⟩
  · constructor
    · intro law
      exact not_iff_not.mp law
    · intro sound
      exact not_congr sound

section Concrete

instance (c c' : Chan T) (frame : List Octet) : Decidable (Queued c c' frame) :=
  inferInstanceAs (Decidable (_ ∧ _))

/-- An MTP2 channel with blocks of 16 bytes. -/
def blockLine (numbufs : Int) : Line Unit :=
  ⟨(reallocbufs { zeroChan with flags := { zeroChan.flags with mtp2 := true } } 16 numbufs true
    true).2, none⟩

def nextLine (l : Line Unit) : Step Unit → Option (Line Unit)
  | .pass rxb =>
    if rxb ≠ [] ∧ -1 < l.chan.read.inbuf then
      (putbufPass silentEnv l.chan rxb).map fun r => ⟨r.1, lastAfter silentEnv l rxb r.1⟩
    else none
  | _ => none

theorem next_line_step (l : Line Unit) (s : Step Unit) (l' : Line Unit)
    (moved : nextLine l s = some l') : (mtp2System silentEnv).step l s l' := by
  cases s with
  | pass rxb =>
    simp only [nextLine] at moved
    split at moved
    · rename_i going
      obtain ⟨⟨c', rest⟩, passed, rfl⟩ := Option.map_eq_some_iff.mp moved
      exact ⟨going.1, going.2, rfl, rest, passed⟩
    · cases moved
  | read count => cases moved
  | settings changed => cases moved

theorem block_line_start (numbufs : Int) :
    Reach (mtp2System silentEnv) anyStep (blockLine numbufs) :=
  .start ⟨⟨_, 16, numbufs, true, true, rfl, rfl⟩, rfl, rfl⟩

def eight (v : Octet) : Step Unit := .pass (List.replicate 8 v)

/-- What a further eight octets bring after others. -/
def lastPass (numbufs : Int) (before : List (Step Unit)) (rxb : List Octet) (frame : List Octet) :
    Option (Bool × Bool × Bool × Bool) :=
  (follow nextLine anyStep before (blockLine numbufs)).bind fun l =>
    (putbufPass silentEnv l.chan rxb).map fun r =>
      (decide (-1 < l.chan.read.inbuf), decide (arrival silentEnv l.chan rxb = some frame),
        decide (l.last = some frame), decide (Queued l.chan r.1 frame))

theorem last_pass {numbufs : Int} {before : List (Step Unit)} {rxb frame : List Octet}
    {repeated queued : Bool} (ran : lastPass numbufs before rxb frame = some (true, true, repeated, queued)) :
    ∃ l c' rest, Reach (mtp2System silentEnv) anyStep l ∧ -1 < l.chan.read.inbuf ∧
      arrival silentEnv l.chan rxb = some frame ∧ putbufPass silentEnv l.chan rxb = some (c', rest) ∧
      decide (l.last = some frame) = repeated ∧ decide (Queued l.chan c' frame) = queued := by
  obtain ⟨l, followed, later⟩ := Option.bind_eq_some_iff.mp ran
  obtain ⟨⟨c', rest⟩, passed, same⟩ := Option.map_eq_some_iff.mp later
  simp only [Prod.mk.injEq, decide_eq_true_eq] at same
  obtain ⟨room, arrived, last, joined⟩ := same
  exact ⟨l, c', rest, follow_reach next_line_step (block_line_start numbufs) followed, room, arrived,
    passed, last, joined⟩

/-- Four buffers, a frame of 1s and a frame of 2s. -/
theorem repeated_frames_dropped_two :
    ∃ l c' rest, Reach (mtp2System silentEnv) anyStep l ∧ -1 < l.chan.read.inbuf ∧
      arrival silentEnv l.chan (List.replicate 8 2) = some (List.replicate 16 2) ∧
      putbufPass silentEnv l.chan (List.replicate 8 2) = some (c', rest) ∧
      ((Queued l.chan c' (List.replicate 16 2) ↔ l.last ≠ some (List.replicate 16 2)) ↔
        Sound l.chan l.last (List.replicate 16 2)) := by
  have ran : lastPass 4 [eight 1, eight 1, eight 2] (List.replicate 8 2) (List.replicate 16 2) =
      some (true, true, false, true) := by
    decide +kernel
  obtain ⟨l, c', rest, reached, room, arrived, passed, _⟩ := last_pass ran
  exact ⟨l, c', rest, reached, room, arrived, passed,
    (repeated_frames_dropped_iff silentEnv reached room arrived passed).1⟩

/-- Three buffers, a frame of 1s, a frame of 2s and the same again: the mask
    selects the frame of 1s, and the repeated frame is queued. -/
theorem mask_is_no_modulus :
    ∃ l c' rest, Reach (mtp2System silentEnv) anyStep l ∧ -1 < l.chan.read.inbuf ∧
      arrival silentEnv l.chan (List.replicate 8 2) = some (List.replicate 16 2) ∧
      putbufPass silentEnv l.chan (List.replicate 8 2) = some (c', rest) ∧
      l.last = some (List.replicate 16 2) ∧ Queued l.chan c' (List.replicate 16 2) := by
  have ran : lastPass 3 [eight 1, eight 1, eight 2, eight 2, eight 2] (List.replicate 8 2)
      (List.replicate 16 2) = some (true, true, true, true) := by
    decide +kernel
  obtain ⟨l, c', rest, reached, room, arrived, passed, last, joined⟩ := last_pass ran
  exact ⟨l, c', rest, reached, room, arrived, passed, of_decide_eq_true last, of_decide_eq_true joined⟩

end Concrete

end DuplicateFrames
