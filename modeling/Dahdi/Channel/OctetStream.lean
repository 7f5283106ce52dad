import Dahdi.Channel.HdlcReceiver
import Dahdi.Library.BlockQueue

/-!
What comes in on a channel without HDLC, as a stream of octets. The read ring is
a queue of whole blocks and the block under way, and a read takes one block.
-/
namespace OctetStream
open Channel CyclicCursor GuardedRun RingInvariant RingContents HdlcReceiver ReadCall BlockQueue
open Fasthdlc
variable {T : Type}

/-- A channel whose chunks go to the reader as they are. -/
structure Plain (c : Chan T) : Prop where
  hdlc : c.flags.hdlc = false
  mtp2 : c.flags.mtp2 = false
  linear : c.flags.linear = false
  nostdtxrx : c.flags.nostdtxrx = false

/-- A ring of whole blocks and the block under way. -/
structure Blocks (size : Nat) (blocksize : Int) (r : Ring) : Prop where
  two : 2 ≤ size
  sized : 0 < blocksize
  ring : Filling size blocksize r
  whole : ∀ x ∈ r.filled, r.n x = blocksize

def queue (r : Ring) : Queue Octet := ⟨contents r, underWay r⟩

section Ring
variable {size : Nat} {blocksize : Int} {r : Ring}

theorem full_queue (ok : Blocks size blocksize r) : Full size (queue r) ↔ r.inbuf < 0 := by
  rw [← valid_full ok.ring.valid]
  simp only [Full, queue, contents, List.length_map]

theorem queue_shaped (ok : Blocks size blocksize r) :
    Shaped size blocksize.toNat (queue r) := by
  have sized := ok.sized
  constructor
  · simp only [queue, contents, List.length_map]
    exact valid_length ok.ring.valid
  · intro b member
    obtain ⟨x, held, rfl⟩ := List.mem_map.mp member
    rw [frameAt, bytes_length, ok.whole x held]
  · simp only [queue]
    by_cases full : r.inbuf < 0
    · rw [underWay, if_pos full, List.length_nil]
      omega
    · rw [under_way_length (by omega)]
      have started := ok.ring.started (by omega)
      omega
  · intro full
    simp only [queue]
    rw [underWay, if_pos ((full_queue ok).mp full)]

/-- Octets copied behind those of the current buffer. -/
def copied (r : Ring) (buf : Buffer) (data : List Octet) : Ring :=
  { r with
    buf := Channel.set r.buf r.inbuf.toNat
      (some (copyAt buf (r.idx r.inbuf.toNat).toNat data))
    idx := Channel.set r.idx r.inbuf.toNat (r.idx r.inbuf.toNat + data.length) }

/-- The current buffer handed over with what it holds. -/
def handed (size : Nat) (r : Ring) : Ring :=
  { r with n := Channel.set r.n r.inbuf.toNat (r.idx r.inbuf.toNat) }.handOver size r.inbuf

variable {buf : Buffer} {data : List Octet}

theorem copied_under_way (free : 0 ≤ r.inbuf) (present : r.buf r.inbuf.toNat = some buf)
    (low : 0 ≤ r.idx r.inbuf.toNat) : underWay (copied r buf data) = underWay r ++ data := by
  unfold underWay copied
  rw [if_neg (by simp only; omega), if_neg (by omega)]
  simp only [set_same, Option.getD_some, present]
  rw [show (r.idx r.inbuf.toNat + data.length).toNat = (r.idx r.inbuf.toNat).toNat + data.length by
    omega]
  exact bytes_extended buf _ data

theorem copied_contents (spare : r.inbuf.toNat ∉ r.filled) :
    contents (copied r buf data) = contents r := by
  refine contents_congr (r := r) rfl fun x held => ⟨set_other _ _ ?_, rfl⟩
  rintro rfl
  exact spare held

theorem copied_allocated (allocated : Allocated size r) (present : r.buf r.inbuf.toNat = some buf) :
    Allocated size (copied r buf data) := by
  intro x below missing
  exact allocated x below ((set_pointer (r := r) (by rw [present]; simp) x).mp missing)

theorem copied_unused (free : 0 ≤ r.inbuf)
    (unused : ∀ x, x < size → x ∉ r.filled → (x : Int) ≠ r.inbuf → r.idx x = 0)
    (x : Nat) (below : x < size) (notFilled : x ∉ r.filled) (other : (x : Int) ≠ r.inbuf) :
    (copied r buf data).idx x = 0 := by
  have apart : x ≠ r.inbuf.toNat := by omega
  exact (set_other _ _ apart).trans (unused x below notFilled other)

theorem handed_contents (spare : r.inbuf.toNat ∉ r.filled) (free : 0 ≤ r.inbuf) :
    contents (handed size r) = contents r ++ [underWay r] := by
  have before : contents { r with n := Channel.set r.n r.inbuf.toNat (r.idx r.inbuf.toNat) } =
      contents r := by
    refine contents_congr (r := r) rfl fun x held => ⟨rfl, ?_⟩
    apply set_other
    rintro rfl
    exact spare held
  rw [handed, contents_hand_over, before, underWay, if_neg (by omega)]
  simp only [frameAt, set_same]

/-- Octets that do not fill the current buffer. -/
theorem copied_within (ok : Blocks size blocksize r) (free : 0 ≤ r.inbuf)
    (present : r.buf r.inbuf.toNat = some buf)
    (short : r.idx r.inbuf.toNat + data.length < blocksize) :
    Blocks size blocksize (copied r buf data) ∧
      queue (copied r buf data) = arriveAll size blocksize.toNat (queue r) data := by
  obtain ⟨low, _⟩ := ok.ring.started free
  have part : (queue r).part.length = (r.idx r.inbuf.toNat).toNat := under_way_length free
  have room : ¬ Full size (queue r) := by
    rw [full_queue ok]
    omega
  constructor
  · refine ⟨ok.two, ok.sized, ⟨copied_allocated ok.ring.allocated present, ok.ring.valid,
      copied_unused free ok.ring.unused, ?_⟩, ok.whole⟩
    intro _
    simp only [copied, set_same]
    omega
  · rw [arrive_all_within room (by omega), queue, queue, copied_under_way free present low,
      copied_contents (valid_free ok.ring.valid free)]

/-- Octets that fill it. -/
theorem copied_whole (ok : Blocks size blocksize r) (free : 0 ≤ r.inbuf)
    (present : r.buf r.inbuf.toNat = some buf)
    (long : r.idx r.inbuf.toNat + data.length = blocksize) :
    Blocks size blocksize (handed size (copied r buf data)) ∧
      queue (handed size (copied r buf data)) =
        arriveAll size blocksize.toNat (queue r) data := by
  obtain ⟨low, high⟩ := ok.ring.started free
  have part : (queue r).part.length = (r.idx r.inbuf.toNat).toNat := under_way_length free
  have spare := valid_free ok.ring.valid free
  have room : ¬ Full size (queue r) := by
    rw [full_queue ok]
    omega
  have some : data ≠ [] := by
    rintro rfl
    simp only [List.length_nil] at long
    omega
  obtain ⟨next, none⟩ := @filling_hand_over size blocksize (copied r buf data) ok.two ok.sized
    (copied_allocated ok.ring.allocated present) ok.ring.valid (copied_unused free ok.ring.unused) free
    (Channel.set r.n r.inbuf.toNat ((copied r buf data).idx r.inbuf.toNat))
  constructor
  · refine ⟨ok.two, ok.sized, next, ?_⟩
    intro x held
    simp only [handed, copied, Ring.handOver, List.mem_append, List.mem_singleton] at held ⊢
    rcases Nat.decEq x r.inbuf.toNat with other | rfl
    · rw [set_other _ _ other]
      exact ok.whole x (held.resolve_right other)
    · rw [set_same, set_same, long]
  · have whole := @handed_contents size (copied r buf data) spare free
    rw [arrive_all_block room some (by omega), queue, queue, whole, copied_contents spare,
      copied_under_way free present low]
    congr 1

theorem blocks_realloc (two : 2 ≤ size) (sized : 0 < blocksize) :
    Blocks size blocksize (r.realloc size true) ∧ queue (r.realloc size true) = ⟨[], []⟩ := by
  have positive : 0 < size := by omega
  have begun : (r.realloc size true).idx 0 = 0 := by
    simp [Ring.realloc, Ring.clear, positive]
  constructor
  · refine ⟨two, sized, ⟨?_, valid_start positive, ?_, ?_⟩, ?_⟩
    · intro x below
      simp [Ring.realloc, Ring.clear, below]
    · intro x below _ _
      simp [Ring.realloc, Ring.clear, below]
    · intro _
      change 0 ≤ (r.realloc size true).idx 0 ∧ (r.realloc size true).idx 0 < blocksize
      omega
    · intro x held
      exact absurd held List.not_mem_nil
  · rw [queue, underWay, if_neg (by simp [Ring.realloc, Ring.clear])]
    change Queue.mk [] (bytesOf _ 0 ((r.realloc size true).idx 0).toNat) = _
    rw [begun]
    rfl

theorem handed_out (held : 0 ≤ r.outbuf) : (handed size r).outbuf = r.outbuf := by
  simp only [handed, Ring.handOver]
  rw [if_neg (by omega)]

end Ring

structure PlainOk (c : Chan T) : Prop where
  plain : Plain c
  blocks : Blocks c.numbufs c.blocksize c.read

/-- What the filler makes of some octets: the queue moves on, and a reader's
    buffer stays where it is. -/
structure Takes (c : Chan T) (rxb : List Octet) (c' : Chan T) : Prop where
  ok : PlainOk c'
  queue : queue c'.read = arriveAll c.numbufs c.blocksize.toNat (queue c.read) rxb
  numbufs : c'.numbufs = c.numbufs
  blocksize : c'.blocksize = c.blocksize
  out : 0 ≤ c.read.outbuf → c'.read.outbuf = c.read.outbuf

theorem takes_append {a b c : Chan T} {first second : List Octet} (left : Takes a first b)
    (right : Takes b second c) : Takes a (first ++ second) c := by
  constructor
  · exact right.ok
  · rw [arrive_all_append, ← left.queue, right.queue, left.numbufs, left.blocksize]
  · exact right.numbufs.trans left.numbufs
  · exact right.blocksize.trans left.blocksize
  · intro held
    have same := left.out held
    rw [right.out (by omega), same]

/-- Nothing but events and remarks has changed. -/
theorem takes_none {c c' : Chan T} (ok : PlainOk c) (flags : c'.flags = c.flags)
    (numbufs : c'.numbufs = c.numbufs) (blocksize : c'.blocksize = c.blocksize)
    (read : c'.read = c.read) : Takes c [] c' := by
  obtain ⟨⟨hdlc, mtp2, linear, nostdtxrx⟩, blocks⟩ := ok
  refine ⟨⟨⟨?_, ?_, ?_, ?_⟩, ?_⟩, ?_, numbufs, blocksize, ?_⟩
  · rw [flags, hdlc]
  · rw [flags, mtp2]
  · rw [flags, linear]
  · rw [flags, nostdtxrx]
  · rw [numbufs, blocksize, read]
    exact blocks
  · rw [read]
    rfl
  · intro _
    rw [read]

section Receiving
variable {env : Env T} {c : Chan T}

/-- One pass of the loop over a chunk of a plain channel. -/
theorem plain_pass {buf : Buffer} {rxb : List Octet} {left : Int} (plain : Plain c)
    (present : c.read.buf c.read.inbuf.toNat = some buf)
    (amount : left = min (c.blocksize - c.read.idx c.read.inbuf.toNat) rxb.length)
    (positive : 0 ≤ left) : putbufPass env c rxb =
      (finishPass env c.read.inbuf.toNat ⟨{ c with
          read := copied c.read buf (rxb.take left.toNat) }, rxb.drop left.toNat,
        decide (c.blocksize ≤ c.read.idx c.read.inbuf.toNat + left), 0⟩).map
          fun ms => (ms, rxb.drop left.toNat) := by
  have size : ((rxb.take left.toNat).length : Int) = left := by
    rw [List.length_take]
    omega
  simp only [putbufPass, plain.hdlc, plain.nostdtxrx, ← amount, present, copied, size, set_same,
    Bool.and_false, Bool.false_eq_true, ↓reduceIte]
  rw [if_neg (by omega)]

theorem pass_takes (ok : PlainOk c) (free : 0 ≤ c.read.inbuf) {rxb : List Octet} (some : rxb ≠ []) :
    ∃ k c', 0 < k ∧ putbufPass env c rxb = .some (c', rxb.drop k) ∧ Takes c (rxb.take k) c' := by
  have inside : c.read.inbuf.toNat < c.numbufs := by
    rcases ok.blocks.ring.valid.inRange with none | ⟨low, high⟩ <;> omega
  have slot : ((c.read.inbuf.toNat : Nat) : Int) = c.read.inbuf := by omega
  obtain ⟨buf, present⟩ := Option.ne_none_iff_exists'.mp (ok.blocks.ring.allocated _ inside)
  obtain ⟨low, high⟩ := ok.blocks.ring.started free
  have long : 0 < rxb.length := List.length_pos_of_ne_nil some
  obtain ⟨left, amount⟩ :
      ∃ left, left = min (c.blocksize - c.read.idx c.read.inbuf.toNat) (rxb.length : Int) := ⟨_, rfl⟩
  have size : ((rxb.take left.toNat).length : Int) = left := by
    rw [List.length_take]
    omega
  have pass := @plain_pass T env c buf rxb left ok.plain present amount (by omega)
  by_cases eof : c.blocksize ≤ c.read.idx c.read.inbuf.toNat + left
  · -- the block is whole and its buffer goes to the reader
    obtain ⟨blocks, moved⟩ := @copied_whole c.numbufs c.blocksize c.read buf (rxb.take left.toNat)
      ok.blocks free present (by omega)
    refine ⟨left.toNat, { c with
      infcs := env.pppInitfcs
      read := handed c.numbufs (copied c.read buf (rxb.take left.toNat)) }, by omega, ?_, ?_⟩
    · rw [pass]
      simp only [finishPass, eof, decide_true, ↓reduceIte, putbufEof, ok.plain.mtp2,
        Bool.false_eq_true, slot, Option.map_some]
      rfl
    · exact ⟨⟨⟨ok.plain.hdlc, ok.plain.mtp2, ok.plain.linear, ok.plain.nostdtxrx⟩, blocks⟩, moved,
        rfl, rfl, fun held => handed_out held⟩
  · obtain ⟨blocks, moved⟩ := @copied_within c.numbufs c.blocksize c.read buf (rxb.take left.toNat)
      ok.blocks free present (by omega)
    refine ⟨left.toNat, { c with read := copied c.read buf (rxb.take left.toNat) }, by omega, ?_, ?_⟩
    · rw [pass]
      simp only [finishPass, eof, decide_false, Bool.false_eq_true, ↓reduceIte, Option.map_some]
    · exact ⟨⟨⟨ok.plain.hdlc, ok.plain.mtp2, ok.plain.linear, ok.plain.nostdtxrx⟩, blocks⟩, moved,
        rfl, rfl, fun _ => rfl⟩

/-- The loop ends, and drops what is left only at a full ring. -/
theorem loop_takes {fuel : Nat} {rxb : List Octet} (ok : PlainOk c) (enough : rxb.length < fuel) :
    ∃ c' dropped, putbufLoop env fuel c rxb = some (c', dropped) ∧ Takes c rxb c' ∧
      (dropped ≠ [] → c'.read.inbuf < 0) := by
  induction fuel generalizing c rxb with
  | zero => omega
  | succ fuel ih =>
    unfold putbufLoop
    by_cases none : rxb = []
    · rw [if_pos none, none]
      exact ⟨c, [], rfl, takes_none ok rfl rfl rfl rfl, by simp⟩
    · rw [if_neg none]
      by_cases free : -1 < c.read.inbuf
      · rw [if_pos free]
        obtain ⟨k, c₁, positive, passed, first⟩ := @pass_takes T env c ok (by omega) rxb none
        have long : 0 < rxb.length := List.length_pos_of_ne_nil none
        have shorter : (rxb.drop k).length < fuel := by
          rw [List.length_drop]
          omega
        obtain ⟨c', dropped, looped, rest, full⟩ := ih first.ok shorter
        refine ⟨c', dropped, ?_, ?_, full⟩
        · simp only [passed, looped]
        · have whole := takes_append first rest
          rwa [List.take_append_drop] at whole
      · rw [if_neg free]
        have full : Full c.numbufs (queue c.read) := by
          rw [full_queue ok.blocks]
          omega
        refine ⟨c, rxb, rfl, ⟨ok, ?_, rfl, rfl, fun _ => rfl⟩, fun _ => by omega⟩
        rw [arrive_all_full full]

theorem event_settings (c : Chan T) (event : Nat) : (qevent c event).flags = c.flags ∧
    (qevent c event).numbufs = c.numbufs ∧ (qevent c event).blocksize = c.blocksize ∧
    (qevent c event).read = c.read := by
  unfold qevent
  split
  · exact ⟨rfl, rfl, rfl, rfl⟩
  · split <;> exact ⟨rfl, rfl, rfl, rfl⟩

theorem chunk_takes {fuel : Nat} {rxb : List Octet} (ok : PlainOk c) (enough : rxb.length < fuel) :
    ∃ c', putbufChunk env fuel c rxb = some c' ∧ Takes c rxb c' := by
  obtain ⟨ms, dropped, looped, takes, _⟩ := @loop_takes T env c fuel rxb ok enough
  have after {c' : Chan T} (same : Takes ms [] c') : Takes c rxb c' := by
    have whole := takes_append takes same
    rwa [List.append_nil] at whole
  unfold putbufChunk
  simp only [looped]
  by_cases none : dropped = []
  · rw [if_pos none]
    exact ⟨_, rfl, after (takes_none takes.ok rfl rfl rfl rfl)⟩
  · rw [if_neg none]
    by_cases known : ms.rxoverrun = true
    · rw [if_pos known]
      exact ⟨_, rfl, takes⟩
    · rw [if_neg known]
      obtain ⟨flags, numbufs, blocksize, read⟩ := event_settings ms eventReadOverrun
      refine ⟨_, rfl, after ?_⟩
      split
      · exact takes_none takes.ok flags numbufs blocksize read
      · exact takes_none takes.ok rfl rfl rfl rfl

theorem full_after (ok : PlainOk c) (before : List Octet) : fullAfter env c before = true ↔
    Full c.numbufs (arriveAll c.numbufs c.blocksize.toNat (queue c.read) before) := by
  obtain ⟨ms, dropped, looped, takes, _⟩ :=
    @loop_takes T env c (before.length + 1) before ok (by omega)
  have full := full_queue takes.ok.blocks
  rw [takes.numbufs] at full
  rw [← takes.queue, full, fullAfter, looped]
  rcases takes.ok.blocks.ring.valid.inRange with none | ⟨low, _⟩
  · simp [none]
  · simp only [decide_eq_true_eq]
    omega

/-- What finds room in the ring is what the queue keeps. -/
theorem found_room (ok : PlainOk c) (before rest : List Octet) : foundRoom env c before rest =
    kept c.numbufs c.blocksize.toNat
      (arriveAll c.numbufs c.blocksize.toNat (queue c.read) before) rest := by
  induction rest generalizing before with
  | nil => rfl
  | cons o rest ih =>
    rw [foundRoom, ih, kept, arrive_all_append]
    simp only [full_after ok]
    rfl

end Receiving

/-- The reader stands at the oldest block. -/
def Waits (s : Session T) : Prop :=
  match s.reader with
  | .idle => True
  | .looked res count => res = s.chan.read.outbuf ∧ 0 ≤ res ∧ s.chan.blocksize ≤ (count % 2 ^ 16 : Nat)
  | .copied res data =>
      res = s.chan.read.outbuf ∧ 0 ≤ res ∧ (contents s.chan.read).head? = some data

structure SessionOk (s : Session T) : Prop where
  ok : PlainOk s.chan
  reader : Waits s
  stream : s.reads.flatten ++ stream (queue s.chan.read) = s.came
  whole : ∀ d ∈ s.reads, (d.length : Int) = s.chan.blocksize

/-- Chunks, events and reads with room for a block in the low 16 bits of count,
    which are all that dahdi_chan_read looks at. -/
def Roomy (s : Session T) : Call → Prop
  | .look count => s.chan.blocksize ≤ (count % 2 ^ 16 : Nat)
  | .flush _ => False
  | .setBufinfo .. => False
  | .setBlocksize .. => False
  | _ => True

instance roomyDecidable (s : Session T) : (call : Call) → Decidable (Roomy s call)
  | .look count => inferInstanceAs (Decidable (s.chan.blocksize ≤ (count % 2 ^ 16 : Nat)))
  | .flush _ | .setBufinfo .. | .setBlocksize .. => isFalse id
  | .chunk _ | .copy | .fault | .commit | .getEvent => isTrue trivial

section Session
variable {env : Env T} {s s' : Session T}

theorem waits_takes {c : Chan T} {rxb came : List Octet} (waits : Waits s)
    (takes : Takes s.chan rxb c) : Waits { s with chan := c, came := came } := by
  unfold Waits at waits ⊢
  cases at_ : s.reader with
  | idle => trivial
  | looked res count =>
    simp only [at_] at waits ⊢
    obtain ⟨same, held, room⟩ := waits
    exact ⟨by rw [takes.out (by omega), same], held, by rw [takes.blocksize]; exact room⟩
  | copied res data =>
    simp only [at_] at waits ⊢
    obtain ⟨same, held, first⟩ := waits
    refine ⟨by rw [takes.out (by omega), same], held, ?_⟩
    have kept := @arrive_all_extends _ s.chan.numbufs s.chan.blocksize.toNat (queue s.chan.read) rxb
    rw [← takes.queue] at kept
    obtain ⟨more, later⟩ := kept
    simp only [queue] at later
    rw [← later, List.head?_append, first]
    rfl

theorem session_takes {c : Chan T} {rxb : List Octet} (ok : SessionOk s)
    (takes : Takes s.chan rxb c) : SessionOk { s with
      chan := c
      came := s.came ++ kept s.chan.numbufs s.chan.blocksize.toNat (queue s.chan.read) rxb } := by
  refine ⟨takes.ok, waits_takes ok.reader takes, ?_, ?_⟩
  · rw [takes.queue, stream_arrive_all, ← List.append_assoc, ok.stream]
  · intro d member
    rw [takes.blocksize]
    exact ok.whole d member

theorem session_chunk {rxb : List Octet} (ok : SessionOk s)
    (done : applyCall env s (.chunk rxb) = some s') : SessionOk s' := by
  obtain ⟨c, returned, takes⟩ := @chunk_takes T env s.chan (rxb.length + 1) rxb ok.ok (by omega)
  simp only [applyCall, returned, Option.map_some, Option.some.injEq] at done
  subst done
  rw [found_room ok.ok]
  exact session_takes ok takes

theorem session_event (ok : SessionOk s) : SessionOk { s with chan := (getEvent s.chan).2 } := by
  have same : Takes s.chan [] (getEvent s.chan).2 := by
    unfold getEvent
    split
    · exact takes_none ok.ok rfl rfl rfl rfl
    · exact takes_none ok.ok rfl rfl rfl rfl
  have after := session_takes ok same
  rwa [kept, List.append_nil] at after

theorem session_look {count : Nat} (ok : SessionOk s)
    (room : s.chan.blocksize ≤ (count % 2 ^ 16 : Nat)) : SessionOk (look s count) := by
  unfold look
  split
  · exact ok
  · split
    · rename_i found
      refine ⟨ok.ok, ⟨?_, found, room⟩, ok.stream, ok.whole⟩
      unfold chanReadStart elast eagain at found ⊢
      split at found
      · omega
      · rename_i quiet
        rw [if_neg quiet]
        split at found
        · rename_i held
          rw [if_pos held]
        · omega
    · exact ok

/-- A block is no longer than the reader's room, and is copied whole. -/
theorem session_copies {res : Int} {count : Nat} (ok : SessionOk s)
    (looked : s.reader = .looked res count) : ∃ data, chanReadCopy s.chan res count = some data ∧
      (contents s.chan.read).head? = some data ∧ res = s.chan.read.outbuf ∧ 0 ≤ res := by
  have waits := ok.reader
  simp only [Waits, looked] at waits
  obtain ⟨rfl, held, room⟩ := waits
  have ring := ok.ok.blocks.ring
  obtain ⟨rest, filled⟩ := valid_head ring.valid held
  have size : (frameAt s.chan.read s.chan.read.outbuf.toNat).length = s.chan.blocksize.toNat := by
    rw [frameAt, bytes_length, ok.ok.blocks.whole _ (by rw [filled]; exact List.mem_cons_self)]
  refine ⟨frameAt s.chan.read s.chan.read.outbuf.toNat, ?_, ?_, rfl, held⟩
  · rw [read_copies ok.ok.plain.linear ring.allocated ring.valid held,
      List.take_of_length_le (by omega)]
  · rw [contents, filled]
    rfl

theorem session_copy (ok : SessionOk s) (done : applyCall env s .copy = some s') :
    SessionOk s' := by
  cases at_ : s.reader with
  | idle => simp [applyCall, at_] at done
  | copied res data => simp [applyCall, at_] at done
  | looked res count =>
    obtain ⟨data, copied, first, same, held⟩ := session_copies ok at_
    simp only [applyCall, at_, copied, Option.map_some, Option.some.injEq] at done
    subst done
    exact ⟨ok.ok, ⟨same, held, first⟩, ok.stream, ok.whole⟩

theorem session_fault (ok : SessionOk s) (done : applyCall env s .fault = some s') :
    SessionOk s' := by
  cases at_ : s.reader with
  | idle => simp [applyCall, at_] at done
  | copied res data => simp [applyCall, at_] at done
  | looked res count =>
    simp only [applyCall, at_, Option.some.injEq] at done
    subst done
    exact ⟨ok.ok, trivial, ok.stream, ok.whole⟩

theorem session_commit (ok : SessionOk s) (done : applyCall env s .commit = some s') :
    SessionOk s' := by
  cases at_ : s.reader with
  | idle => simp [applyCall, at_] at done
  | looked res count => simp [applyCall, at_] at done
  | copied res data =>
    simp only [applyCall, at_, Option.some.injEq] at done
    subst done
    have waits := ok.reader
    simp only [Waits, at_] at waits
    obtain ⟨rfl, held, first⟩ := waits
    have blocks := ok.ok.blocks
    have once := @contents_release s.chan.numbufs s.chan.read blocks.ring.valid held
      (Channel.set s.chan.read.n s.chan.read.outbuf.toNat 0)
      (Channel.set s.chan.read.idx s.chan.read.outbuf.toNat 0) fun x _ other => set_other _ _ other
    obtain ⟨ring, part⟩ := filling_release blocks.two blocks.sized blocks.ring held
      (Channel.set s.chan.read.n s.chan.read.outbuf.toNat 0)
    have taken : contents s.chan.read = data :: contents (releaseRead s.chan s.chan.read.outbuf).read := by
      rw [once, List.head?_cons, Option.some.injEq] at first
      rw [once, first]
      rfl
    have shaped := queue_shaped blocks
    rw [queue, taken] at shaped
    obtain ⟨size, _⟩ := shaped_leave shaped
    refine ⟨⟨⟨ok.ok.plain.hdlc, ok.ok.plain.mtp2, ok.ok.plain.linear, ok.ok.plain.nostdtxrx⟩,
      ⟨blocks.two, blocks.sized, ring, ?_⟩⟩, trivial, ?_, ?_⟩
    · intro x later
      simp only [releaseRead, Ring.release] at later ⊢
      rw [(valid_nodup blocks.ring.valid).mem_erase_iff] at later
      rw [set_other _ _ later.1]
      exact blocks.whole x later.2
    · have before := ok.stream
      simp only [stream, queue, taken, List.flatten_cons] at before
      rw [← before]
      simp only [stream, queue, List.flatten_append, List.flatten_cons, List.flatten_nil,
        List.append_nil, List.append_assoc]
      rw [← part]
      rfl
    · intro d member
      rcases List.mem_append.mp member with earlier | last
      · exact ok.whole d earlier
      · rw [List.mem_singleton.mp last, size]
        have sized := blocks.sized
        simp only [releaseRead]
        omega

theorem session_step {call : Call} (ok : SessionOk s) (roomy : Roomy s call)
    (done : applyCall env s call = some s') : SessionOk s' := by
  cases call with
  | chunk rxb => exact session_chunk ok done
  | look count =>
    cases at_ : s.reader with
    | idle =>
      simp only [applyCall, at_, Option.some.injEq] at done
      subst done
      exact session_look ok roomy
    | looked res count => simp [applyCall, at_] at done
    | copied res data => simp [applyCall, at_] at done
  | copy => exact session_copy ok done
  | fault => exact session_fault ok done
  | commit => exact session_commit ok done
  | getEvent =>
    obtain rfl := Option.some.inj done
    exact session_event ok
  | flush mask => exact absurd roomy id
  | setBufinfo bufsize numbufs txbufpolicy tx rx => exact absurd roomy id
  | setBlocksize j tx rx => exact absurd roomy id

/-- A plain channel after dahdi_reallocbufs. -/
def PlainStart (c : Chan T) : Prop :=
  ∃ c₀ blocksize numbufs tx rx, Plain c₀ ∧ 16 ≤ blocksize ∧
    (reallocbufs c₀ blocksize numbufs tx rx).1 = 0 ∧ c = (reallocbufs c₀ blocksize numbufs tx rx).2

theorem start_ok {c : Chan T} (start : PlainStart c) : SessionOk (opened c) := by
  obtain ⟨c₀, blocksize, numbufs, tx, rx, plain, sized, done, rfl⟩ := start
  have allocated : decide (blocksize ≠ 0) = true := by
    rw [decide_eq_true_eq]
    omega
  obtain ⟨blocks, empty⟩ :=
    @blocks_realloc (clampNumbufs numbufs) blocksize c₀.read (clamp_two numbufs) (by omega)
  rw [reallocbufs_done done, allocated]
  refine ⟨⟨⟨plain.hdlc, plain.mtp2, plain.linear, plain.nostdtxrx⟩, blocks⟩, trivial, ?_, ?_⟩
  · simp only [opened, empty]
    rfl
  · intro d member
    exact absurd member List.not_mem_nil

/-- What the reader has got, what waits for it and the block under way are the
    octets that did not arrive at a full ring. A read returns a whole block, the
    ring is full only with an unread block in every buffer, and chunks and
    copies always return. -/
structure StreamLaw (env : Env T) (s : Session T) : Prop where
  stream : s.reads.flatten ++ (contents s.chan.read).flatten ++ underWay s.chan.read = s.came
  whole : ∀ d ∈ s.reads, (d.length : Int) = s.chan.blocksize
  full : ∀ before ms dropped,
    putbufLoop env (before.length + 1) s.chan before = some (ms, dropped) → ms.read.inbuf = -1 →
      ∀ x, x < s.chan.numbufs → x ∈ ms.read.filled ∧ ms.read.n x = s.chan.blocksize
  receives : ∀ rxb, ∃ s', applyCall env s (.chunk rxb) = some s'
  copies : ∀ res count, s.reader = .looked res count → ∃ s', applyCall env s .copy = some s'

theorem stream_law {s : Session T} (ok : SessionOk s) : StreamLaw env s := by
  constructor
  · rw [List.append_assoc]
    exact ok.stream
  · exact ok.whole
  · intro before ms dropped looped full x below
    obtain ⟨c, rest, looped', takes, _⟩ :=
      @loop_takes T env s.chan (before.length + 1) before ok.ok (by omega)
    rw [looped, Option.some.injEq, Prod.mk.injEq] at looped'
    obtain ⟨rfl, _⟩ := looped'
    have blocks := takes.ok.blocks
    rw [takes.numbufs, takes.blocksize] at blocks
    have held := valid_all blocks.ring.valid (by omega) below
    exact ⟨held, blocks.whole x held⟩
  · intro rxb
    obtain ⟨c, returned, _⟩ := @chunk_takes T env s.chan (rxb.length + 1) rxb ok.ok (by omega)
    simp only [applyCall, returned, Option.map_some]
    exact ⟨_, rfl⟩
  · intro res count looked
    obtain ⟨data, copied, _⟩ := session_copies ok looked
    simp only [applyCall, looked, copied, Option.map_some]
    exact ⟨_, rfl⟩

/-- Every interleaving of chunks with the steps of a reader keeps the stream. -/
theorem received_stream_kept (env : Env T) {s : Session T}
    (reached : Reach (callSystem env PlainStart) Roomy s) : StreamLaw env s := by
  apply stream_law
  apply @invariant_run _ _ _ _ SessionOk _ _ s reached
  · intro s begun
    obtain ⟨c, start, rfl⟩ := begun
    exact start_ok start
  · intro s call s' ok roomy done
    exact session_step ok roomy done

end Session

section Concrete

/-- Two chunks fill a block of 16 octets, and one read takes it. -/
def oneBlock (count : Nat) : List Call :=
  [.chunk [1, 2, 3, 4, 5, 6, 7, 8], .chunk [9, 10, 11, 12, 13, 14, 15, 16], .look count, .copy,
    .commit]

def smallBlocks : Chan Unit := (reallocbufs zeroChan 16 2 true true).2

theorem small_blocks_start : PlainStart smallBlocks :=
  ⟨zeroChan, 16, 2, true, true, ⟨rfl, rfl, rfl, rfl⟩, by decide, rfl, rfl⟩

theorem received_stream_kept_block :
    ∃ s, afterCalls silentEnv (opened smallBlocks) (oneBlock 16) = some s ∧
      s.reads = [[1, 2, 3, 4, 5, 6, 7, 8, 9, 10, 11, 12, 13, 14, 15, 16]] ∧
        StreamLaw silentEnv s := by
  have start : Reach (callSystem silentEnv PlainStart) Roomy (opened smallBlocks) :=
    .start ⟨smallBlocks, small_blocks_start, rfl⟩
  obtain ⟨s, done, reached⟩ := reach_calls start (by decide +kernel : allMeet _ _ _ (oneBlock 16) = true)
  have reads : (afterCalls silentEnv (opened smallBlocks) (oneBlock 16)).map (·.reads) =
      some [[1, 2, 3, 4, 5, 6, 7, 8, 9, 10, 11, 12, 13, 14, 15, 16]] := by
    decide +kernel
  rw [done] at reads
  exact ⟨s, done, Option.some.inj reads, received_stream_kept silentEnv reached⟩

/-- Chunks, events and reads with a count of at least a block. -/
def LongReads (s : Session T) : Call → Prop
  | .look count => s.chan.blocksize ≤ count
  | call => Roomy s call

instance longReadsDecidable (s : Session T) : (call : Call) → Decidable (LongReads s call)
  | .look count => inferInstanceAs (Decidable (s.chan.blocksize ≤ count))
  | .flush _ | .setBufinfo .. | .setBlocksize .. => isFalse id
  | .chunk _ | .copy | .fault | .commit | .getEvent => isTrue trivial

/-- A count of 65537 is cut down to one octet, and the rest of the block is
    gone. -/
theorem block_cut_short :
    ∃ s, Reach (callSystem silentEnv PlainStart) LongReads s ∧ ¬ StreamLaw silentEnv s := by
  have start : Reach (callSystem silentEnv PlainStart) LongReads (opened smallBlocks) :=
    .start ⟨smallBlocks, small_blocks_start, rfl⟩
  obtain ⟨s, done, reached⟩ :=
    reach_calls start (by decide +kernel : allMeet _ _ _ (oneBlock 65537) = true)
  have outcome : (afterCalls silentEnv (opened smallBlocks) (oneBlock 65537)).map
      (fun s => (s.reads, s.chan.blocksize)) = some ([[1]], 16) := by
    decide +kernel
  rw [done, Option.map_some, Option.some.injEq, Prod.mk.injEq] at outcome
  refine ⟨s, reached, ?_⟩
  intro law
  have size := law.whole [1] (by rw [outcome.1]; exact List.mem_singleton_self _)
  rw [outcome.2] at size
  exact absurd size (by decide)

end Concrete

end OctetStream
