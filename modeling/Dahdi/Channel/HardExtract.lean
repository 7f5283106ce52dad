import Dahdi.Channel.Contents

/-!
How a board that does HDLC itself takes a frame from the write ring, piece by
piece, with dahdi_hdlc_getbuf.
-/
namespace HardExtract
open Channel CyclicCursor RingInvariant RingContents GuardedRun Fasthdlc
variable {T : Type} {env : Env T}

/-- A buffer holds a frame of which some bytes have been taken. -/
structure Holds (r : Ring) (x : Nat) (frame : List Octet) (taken : Nat) : Prop where
  filled : x ∈ r.filled
  bytes : frameAt r x = frame
  count : r.n x = frame.length
  taken : r.idx x = taken

/-- The bytes dahdi_chan_write leaves in its buffer. -/
def committed (env : Env T) (c : Chan T) (usr : List Octet) : List Octet :=
  if c.flags.fcs then withFcs env (writeData c usr) else writeData c usr

/-- dahdi_chan_write when there is room. -/
def chanWrite (env : Env T) (c : Chan T) (usr : List Octet) : Option (Chan T) :=
  if c.write.inbuf < 0 then some c else chanWriteCommit env c c.write.inbuf usr

def chanWrites (env : Env T) : List (List Octet) → Chan T → Option (Chan T)
  | [], c => some c
  | usr :: rest, c => (chanWrite env c usr).bind (chanWrites env rest)

/-- A frame as the board gets it: the answer that ended it, the bytes, where
    each call read and how much, and the channel before and after the last call. -/
structure Extracted (T : Type) where
  res : Int
  data : List Octet
  reads : List (Int × Nat)
  before : Chan T
  after : Chan T

/-- Successive calls, with writes before each, up to the end of the frame. -/
def extract (env : Env T) (turns : Nat → List (List Octet) × BitVec 32) :
    Nat → Nat → Chan T → Option (Extracted T)
  | 0, _, _ => none
  | fuel + 1, i, c =>
    match chanWrites env (turns i).1 c with
    | none => none
    | some before =>
      match hdlcGetbuf before (turns i).2 with
      | none => none
      | some (res, data, _, after) =>
        let read := (before.write.idx before.write.outbuf.toNat, data.length)
        if res = 0 then
          (extract env turns fuel (i + 1) after).map fun e =>
            { e with data := data ++ e.data, reads := read :: e.reads }
        else some ⟨res, data, [read], before, after⟩

/-- The frame comes whole but for its last two bytes, nothing behind it is read,
    its buffer and no other is given back, and the answer tells whether another
    frame waits. -/
def Delivers (env : Env T) (turns : Nat → List (List Octet) × BitVec 32) (c : Chan T)
    (frame : List Octet) : Prop :=
  ∃ fuel e, extract env turns fuel 0 c = some e ∧ e.data = frame.take (frame.length - 2) ∧
    (∀ read ∈ e.reads, 0 ≤ read.1 ∧ read.1 + read.2 ≤ frame.length) ∧
    e.before.write.filled = c.write.outbuf.toNat :: e.after.write.filled ∧
    (∀ y, y ≠ c.write.outbuf.toNat → e.after.write.buf y = e.before.write.buf y ∧
      e.after.write.n y = e.before.write.n y ∧ e.after.write.idx y = e.before.write.idx y) ∧
    (e.res = 1 ∧ e.after.write.filled ≠ [] ∨ e.res = -1 ∧ e.after.write.filled = [])

section Slot
variable {r r' : Ring} {x : Nat} {frame : List Octet} {taken : Nat}

theorem holds_kept (holds : Holds r x frame taken) (member : x ∈ r'.filled)
    (buf : r'.buf x = r.buf x) (n : r'.n x = r.n x) (idx : r'.idx x = r.idx x) :
    Holds r' x frame taken := by
  obtain ⟨_, bytes, count, position⟩ := holds
  refine ⟨member, ?_, n.trans count, idx.trans position⟩
  rw [← bytes]
  unfold frameAt
  rw [buf, n]

end Slot

section Writer
variable {c c' : Chan T} {x : Nat} {frame usr : List Octet} {taken : Nat}

theorem announce_write (c : Chan T) (res : Int) :
    (announceWrite c res).write = c.write.handOver c.numbufs res := by
  simp only [announceWrite]
  split <;> rfl

theorem write_data_length (c : Chan T) (usr : List Octet) :
    (writeData c usr).length ≤ (writeAmnt c usr).toNat := by
  unfold writeData
  split
  · simp only [List.length_map, List.length_range]
    omega
  · simp only [List.length_take]
    omega

theorem write_amnt_small (c : Chan T) (usr : List Octet) : writeAmnt c usr < 2 ^ 16 := by
  have small : usr.length % 2 ^ 16 < 2 ^ 16 := Nat.mod_lt _ (by decide)
  unfold writeAmnt
  simp only
  split <;> split <;> omega

theorem committed_length (env : Env T) (c : Chan T) (usr : List Octet) :
    (committed env c usr).length = (writeData c usr).length := by
  unfold committed
  split
  · exact with_fcs_length env _
  · rfl

theorem committed_small (env : Env T) (c : Chan T) (usr : List Octet) :
    (committed env c usr).length < 2 ^ 16 := by
  have data := write_data_length c usr
  have amnt := write_amnt_small c usr
  rw [committed_length]
  omega

/-- What a commit leaves in its buffer. -/
theorem commit_holds (done : chanWriteCommit env c c.write.inbuf usr = some c')
    (some : 0 < (committed env c usr).length) :
    Holds c'.write c.write.inbuf.toNat (committed env c usr) 0 := by
  rw [committed_length] at some
  have data := write_data_length c usr
  unfold chanWriteCommit at done
  rw [if_neg (by omega)] at done
  split at done
  · cases done
  · rename_i buf present
    obtain rfl := Option.some.inj done
    rw [announce_write]
    refine ⟨?_, ?_, ?_, ?_⟩
    · simp only [Ring.handOver, List.mem_append, List.mem_singleton, or_true]
    · simp only [frameAt, Ring.handOver, storeWrite, set_same, Option.getD_some, Int.toNat_natCast,
        committed]
      split
      · rw [calc_fcs_bytes, bytes_copied]
      · rw [bytes_copied]
    · simp only [Ring.handOver, storeWrite, set_same, committed_length]
    · simp only [Ring.handOver, storeWrite, set_same]
      rfl

/-- A commit leaves the frames that wait. -/
theorem holds_commit (ok : ChanOk c) (free : 0 ≤ c.write.inbuf)
    (done : chanWriteCommit env c c.write.inbuf usr = some c')
    (holds : Holds c.write x frame taken) :
    Holds c'.write x frame taken ∧ c.write.filled <+: c'.write.filled := by
  obtain ⟨_, valid, _⟩ := ok_in ok.write free
  have other : x ≠ c.write.inbuf.toNat := by
    rintro rfl
    exact valid_free valid free holds.filled
  unfold chanWriteCommit at done
  split at done
  · obtain rfl := Option.some.inj done
    exact ⟨holds, List.prefix_rfl⟩
  · split at done
    · cases done
    · obtain rfl := Option.some.inj done
      rw [announce_write]
      refine ⟨holds_kept holds ?_ ?_ ?_ ?_, List.prefix_append _ _⟩
      · exact List.mem_append_left _ holds.filled
      · exact set_other _ _ other
      · exact set_other _ _ other
      · exact set_other _ _ other

end Writer

/-- A frame at the head of the write ring. -/
structure Sending (c : Chan T) (x : Nat) (frame : List Octet) (taken : Nat) : Prop where
  ok : ChanOk c
  first : c.write.outbuf = x
  holds : Holds c.write x frame taken

section Calls
variable {c c' : Chan T} {x : Nat} {frame usr : List Octet} {taken : Nat} {size : BitVec 32}

theorem announce_out (c : Chan T) (res : Int) (some : 0 ≤ c.write.outbuf) :
    (announceWrite c res).write.outbuf = c.write.outbuf := by
  rw [announce_write]
  exact if_neg (by omega)

/-- A write always returns, and leaves the frame under way. -/
theorem sending_write (env : Env T) (usr : List Octet) (sending : Sending c x frame taken) :
    ∃ c', chanWrite env c usr = some c' ∧ Sending c' x frame taken ∧
      c.write.filled <+: c'.write.filled := by
  obtain ⟨ok, first, holds⟩ := sending
  unfold chanWrite
  split
  · exact ⟨c, rfl, ⟨ok, first, holds⟩, List.prefix_rfl⟩
  · rename_i free
    have free' : 0 ≤ c.write.inbuf := by omega
    obtain ⟨allocated, _, inside⟩ := ok_in ok.write free'
    obtain ⟨buf, present⟩ := Option.ne_none_iff_exists'.mp (allocated _ inside)
    have low : 0 ≤ c.write.outbuf := by omega
    have returned : ∃ c', chanWriteCommit env c c.write.inbuf usr = some c' ∧
        c'.write.outbuf = c.write.outbuf := by
      unfold chanWriteCommit
      split
      · exact ⟨c, rfl, rfl⟩
      · rw [present]
        exact ⟨_, rfl, announce_out _ _ low⟩
    obtain ⟨c', done, out⟩ := returned
    obtain ⟨holds', longer⟩ := holds_commit ok free' done holds
    exact ⟨c', done, ⟨ok_write_commit ok free' done, out.trans first, holds'⟩, longer⟩

theorem sending_writes (env : Env T) (usrs : List (List Octet)) (sending : Sending c x frame taken) :
    ∃ c', chanWrites env usrs c = some c' ∧ Sending c' x frame taken := by
  induction usrs generalizing c with
  | nil => exact ⟨c, rfl, sending⟩
  | cons usr rest ih =>
    obtain ⟨m, done, sending', _⟩ := sending_write env usr sending
    obtain ⟨c', rest_done, after⟩ := ih sending'
    exact ⟨c', by rw [chanWrites, done, Option.bind_some, rest_done], after⟩

theorem bytes_slice (b : Buffer) {k len n : Nat} (inside : k + len ≤ n) :
    bytesOf b k len = ((bytesOf b 0 n).drop k).take len := by
  have split_ := bytes_append b 0 k (n - k)
  rw [Nat.add_sub_cancel' (by omega), Nat.zero_add] at split_
  rw [split_, List.drop_append_of_le_length (by rw [bytes_length]), List.drop_eq_nil_of_le
    (by rw [bytes_length]), List.nil_append, bytes_take _ _ (by omega)]

theorem sending_buffer (sending : Sending c x frame taken) :
    ∃ buf, c.write.buf x = some buf ∧ bytesOf buf 0 frame.length = frame := by
  obtain ⟨ok, first, holds⟩ := sending
  obtain ⟨allocated, _, inside⟩ := ok_out ok.write (by rw [first]; omega)
  rw [first, Int.toNat_natCast] at inside
  obtain ⟨buf, present⟩ := Option.ne_none_iff_exists'.mp (allocated x inside)
  have bytes := holds.bytes
  unfold frameAt at bytes
  rw [present, holds.count, Option.getD_some, Int.toNat_natCast] at bytes
  exact ⟨buf, present, bytes⟩

/-- The bytes left as the code computes them. -/
theorem left_exact {n taken : Nat} (small : n < 2 ^ 16) (more : taken + 2 ≤ n) :
    (BitVec.ofInt 32 ((n : Int) - taken - 2)).toNat = n - taken - 2 := by
  rw [BitVec.toNat_ofInt, Int.emod_eq_of_lt (by omega) (by norm_num; omega)]
  omega

/-- A call that does not reach the end. -/
theorem call_part (sending : Sending c x frame taken) (small : frame.length < 2 ^ 16)
    (more : taken + 2 + size.toNat < frame.length) :
    ∃ c', hdlcGetbuf c size = some (0, (frame.drop taken).take size.toNat, size, c') ∧
      Sending c' x frame (taken + size.toNat) ∧ c'.write.filled = c.write.filled := by
  obtain ⟨buf, present, bytes⟩ := sending_buffer sending
  obtain ⟨ok, first, holds⟩ := sending
  have left := left_exact small (by omega : taken + 2 ≤ frame.length)
  have small_size : size.toInt = size.toNat := by
    rw [BitVec.toInt_eq_toNat_of_lt (by omega)]
  have partly : ¬BitVec.ofInt 32 ((frame.length : Int) - taken - 2) ≤ size := by
    rw [BitVec.le_def, left]
    omega
  have called : hdlcGetbuf c size = some (0, (frame.drop taken).take size.toNat, size,
      { c with write := { c.write with
          idx := set c.write.idx x (taken + size.toNat) } }) := by
    simp only [hdlcGetbuf, first, Int.toNat_natCast, holds.count, holds.taken, partly, decide_false,
      Bool.false_eq_true, ↓reduceIte, present, small_size]
    rw [if_pos (by omega), bytes_slice buf (by omega : taken + size.toNat ≤ frame.length), bytes]
  refine ⟨_, called, ⟨ok_hdlc_getbuf ok called, first, ?_⟩, rfl⟩
  refine ⟨holds.filled, ?_, holds.count, ?_⟩
  · exact holds.bytes
  · simp only [set_same]
    push_cast
    rfl

/-- The call that reaches the end. -/
theorem call_last (sending : Sending c x frame taken) (small : frame.length < 2 ^ 16)
    (more : taken + 2 ≤ frame.length) (enough : frame.length ≤ taken + 2 + size.toNat) :
    ∃ res stored c', hdlcGetbuf c size =
        some (res, (frame.drop taken).take (frame.length - taken - 2), stored, c') ∧
      c.write.filled = x :: c'.write.filled ∧
      (∀ y, y ≠ x → c'.write.buf y = c.write.buf y ∧ c'.write.n y = c.write.n y ∧
        c'.write.idx y = c.write.idx y) ∧
      (res = 1 ∧ c'.write.filled ≠ [] ∨ res = -1 ∧ c'.write.filled = []) := by
  obtain ⟨buf, present, bytes⟩ := sending_buffer sending
  obtain ⟨ok, first, holds⟩ := sending
  have left := left_exact small more
  have whole : BitVec.ofInt 32 ((frame.length : Int) - taken - 2) ≤ size := by
    rw [BitVec.le_def, left]
    omega
  obtain ⟨_, valid, _⟩ := ok_out ok.write (by rw [first]; omega)
  obtain ⟨rest, filled⟩ := valid_head valid (by rw [first]; omega)
  rw [first, Int.toNat_natCast] at filled
  have called : ∃ w' gate, hdlcGetbuf c size =
      some (if (x + 1 : Int) % c.numbufs = c.write.inbuf then -1 else 1,
        (frame.drop taken).take (frame.length - taken - 2),
        BitVec.ofInt 32 ((frame.length : Int) - taken - 2),
        { c with write := w', txdisable := gate }) ∧
      w' = ({ c.write with
        idx := set (set c.write.idx x (taken + (BitVec.ofInt 32 ((frame.length : Int) - taken - 2)).toInt))
          x 0
        n := set c.write.n x 0 } : Ring).release c.numbufs x := by
    refine ⟨_, if (decide ((x + 1 : Int) % c.numbufs = c.write.inbuf) && startsWhenFull c) = true
      then true else c.txdisable, ?_, rfl⟩
    simp only [hdlcGetbuf, first, Int.toNat_natCast, holds.count, holds.taken, whole, decide_true,
      ↓reduceIte, present, decide_eq_true_eq]
    rw [if_pos (by omega), left, bytes_slice buf (by omega : taken + (frame.length - taken - 2) ≤
      frame.length), bytes]
  obtain ⟨w', gate, called, made⟩ := called
  have ok' := ok_hdlc_getbuf ok called
  have after : w'.filled = rest := by
    rw [made]
    simp only [Ring.release, filled, Int.toNat_natCast, List.erase_cons_head]
  have out : w'.outbuf = if (x + 1 : Int) % c.numbufs = c.write.inbuf then -1
      else (x + 1 : Int) % c.numbufs := by
    rw [made]
    rfl
  refine ⟨_, _, _, called, by rw [filled, after], ?_, ?_⟩
  · intro y other
    rw [made]
    exact ⟨rfl, set_other _ _ other, by simp only [Ring.release]; rw [set_other _ _ other,
      set_other _ _ other]⟩
  · have ring := ok'.write
    simp only at ring ⊢
    split
    · rename_i last
      rw [if_pos last] at out
      right
      refine ⟨rfl, ?_⟩
      rcases ring with ⟨_, valid'⟩ | ⟨_, _, _, none⟩
      · exact valid_none valid' (by rw [out]; decide)
      · exact none
    · rename_i more'
      rw [if_neg more'] at out
      have low : 0 ≤ (x + 1 : Int) % c.numbufs := Int.emod_nonneg _ (by
        have := ok.two
        omega)
      left
      refine ⟨rfl, ?_⟩
      obtain ⟨_, valid', _⟩ := ok_out ring (by rw [out]; exact low)
      obtain ⟨rest', filled'⟩ := valid_head valid' (by rw [out]; exact low)
      rw [filled']
      exact List.cons_ne_nil _ _

/-- A frame of one byte has minus one left, which no size reaches; and the
    largest size reads four thousand million bytes. -/
theorem call_single (sending : Sending c x frame 0) (single : frame.length = 1)
    (positive : 0 < size.toNat) {res : Int} {data : List Octet} {stored : BitVec 32}
    (called : hdlcGetbuf c size = some (res, data, stored, c')) : data ≠ [] := by
  obtain ⟨buf, present, _⟩ := sending_buffer sending
  obtain ⟨ok, first, holds⟩ := sending
  have left : (BitVec.ofInt 32 ((frame.length : Int) - 0 - 2)).toNat = 2 ^ 32 - 1 := by
    rw [single]
    rfl
  simp only [hdlcGetbuf, first, Int.toNat_natCast, holds.count, holds.taken, present,
    Int.natCast_zero] at called
  rw [if_pos (by omega)] at called
  have long (v : BitVec 32) (some : 0 < v.toNat) : bytesOf buf (Int.toNat 0) v.toNat ≠ [] := by
    intro empty
    have size := bytes_length buf (Int.toNat 0) v.toNat
    rw [empty, List.length_nil] at size
    omega
  split at called
  · simp only [Option.some.injEq, Prod.mk.injEq] at called
    obtain ⟨_, rfl, _⟩ := called
    exact long _ (by rw [left]; decide)
  · simp only [Option.some.injEq, Prod.mk.injEq] at called
    obtain ⟨_, rfl, _⟩ := called
    exact long _ positive

end Calls

/-- What is left of the frame comes out, whatever the sizes and the writes
    between the calls. -/
theorem extract_rest {c : Chan T} {x : Nat} {frame : List Octet} {taken fuel : Nat}
    {turns : Nat → List (List Octet) × BitVec 32} (sending : Sending c x frame taken)
    (small : frame.length < 2 ^ 16) (positive : ∀ i, 0 < (turns i).2.toNat)
    (more : taken + 2 ≤ frame.length) (enough : frame.length ≤ taken + 1 + fuel) (i : Nat) :
    ∃ e, extract env turns fuel i c = some e ∧
      e.data = (frame.drop taken).take (frame.length - taken - 2) ∧
      (∀ read ∈ e.reads, 0 ≤ read.1 ∧ read.1 + read.2 ≤ frame.length) ∧
      e.before.write.filled = x :: e.after.write.filled ∧
      (∀ y, y ≠ x → e.after.write.buf y = e.before.write.buf y ∧
        e.after.write.n y = e.before.write.n y ∧ e.after.write.idx y = e.before.write.idx y) ∧
      (e.res = 1 ∧ e.after.write.filled ≠ [] ∨ e.res = -1 ∧ e.after.write.filled = []) := by
  induction fuel generalizing c taken i with
  | zero => omega
  | succ fuel ih =>
    obtain ⟨m, written, sending'⟩ := sending_writes env (turns i).1 sending
    have at_head : m.write.idx m.write.outbuf.toNat = taken := by
      rw [sending'.first, Int.toNat_natCast, sending'.holds.taken]
    rcases Nat.lt_or_ge (taken + 2 + (turns i).2.toNat) frame.length with partly | whole
    · obtain ⟨c', called, sending'', _⟩ := call_part sending' small partly
      have some_taken := positive i
      obtain ⟨e, rest, data, reads, freed, others, answer⟩ :=
        ih sending'' (by omega) (by omega) (i + 1)
      refine ⟨{ e with
        data := (frame.drop taken).take (turns i).2.toNat ++ e.data
        reads := (m.write.idx m.write.outbuf.toNat, ((frame.drop taken).take (turns i).2.toNat).length) ::
          e.reads }, ?_, ?_, ?_, freed, others, answer⟩
      · simp only [extract, written, called, ↓reduceIte, rest, Option.map_some]
      · simp only [data]
        rw [← List.drop_drop, show frame.length - taken - 2 =
          (turns i).2.toNat + (frame.length - (taken + (turns i).2.toNat) - 2) by omega, List.take_add]
      · intro read member
        rcases List.mem_cons.mp member with rfl | later
        · simp only [at_head, List.length_take, List.length_drop]
          omega
        · exact reads read later
    · obtain ⟨res, stored, c', called, freed, others, answer⟩ := call_last sending' small more whole
      have ended : res ≠ 0 := by
        rcases answer with ⟨one, _⟩ | ⟨minus, _⟩ <;> omega
      refine ⟨⟨res, _, [(m.write.idx m.write.outbuf.toNat,
        ((frame.drop taken).take (frame.length - taken - 2)).length)], m, c'⟩, ?_, rfl, ?_, freed,
        others, answer⟩
      · simp only [extract, written, called, if_neg ended]
      · intro read member
        rw [List.mem_singleton] at member
        rw [member]
        simp only [at_head, List.length_take, List.length_drop]
        omega

/-- A frame at the head is delivered if and only if it is not a single byte. -/
theorem delivers_iff {c : Chan T} {x : Nat} {frame : List Octet}
    {turns : Nat → List (List Octet) × BitVec 32} (sending : Sending c x frame 0)
    (small : frame.length < 2 ^ 16) (some : 0 < frame.length)
    (positive : ∀ i, 0 < (turns i).2.toNat) :
    Delivers env turns c frame ↔ 2 ≤ frame.length := by
  have first : c.write.outbuf.toNat = x := by
    rw [sending.first, Int.toNat_natCast]
  unfold Delivers
  rw [first]
  constructor
  · rintro ⟨fuel, e, extracted, data, _⟩
    by_contra single
    have one : frame.length = 1 := by omega
    cases fuel with
    | zero => cases extracted
    | succ fuel =>
      obtain ⟨m, written, sending'⟩ := sending_writes env (turns 0).1 sending
      simp only [extract, written] at extracted
      split at extracted
      · cases extracted
      · rename_i res piece stored after called
        have nonempty := call_single sending' one (positive 0) called
        rw [one, List.take_zero] at data
        split at extracted
        · obtain ⟨e', _, rfl⟩ := Option.map_eq_some_iff.mp extracted
          exact nonempty (List.append_eq_nil_iff.mp data).1
        · obtain rfl := Option.some.inj extracted
          exact nonempty data
  · intro more
    obtain ⟨e, extracted, data, rest⟩ :=
      extract_rest sending small positive (by omega) (by omega : frame.length ≤ 0 + 1 + frame.length) 0
    exact ⟨frame.length, e, extracted, data, rest⟩

/-- What may happen while a frame waits: anything that neither takes it nor
    throws the ring away. -/
def Waiting (x : Nat) (c : Chan T) : Op T → Prop
  | .realloc _ _ _ _ => False
  | .getbufChunk _ => False
  | .hdlcGetbuf _ => c.write.outbuf ≠ x
  | .flush mask => mask &&& flushWrite = 0 ∧ Careful c (.flush mask)
  | op => Careful c op

/-- The channel after any such steps. -/
inductive Onward (env : Env T) (x : Nat) : Chan T → Chan T → Prop where
  | refl (c : Chan T) : Onward env x c c
  | step {c m c' : Chan T} {op : Op T} :
      Onward env x c m → Waiting x m op → applyOp env m op = some c' → Onward env x c c'

theorem putbuf_write {fuel : Nat} {c c' : Chan T} {rxb : List Octet} (ok : ChanOk c)
    (done : putbufChunk env fuel c rxb = some c') : c'.write = c.write := by
  have kept : KeptByChunk env fun m => ChanOk m ∧ m.write = c.write := by
    constructor
    · rintro a b ⟨okay, same⟩ fills
      exact ⟨fills_ok okay fills, fills.write.trans same⟩
    · rintro a ⟨okay, _⟩ free
      exact (ok_kept env).started okay free
    · rintro a b ⟨okay, same⟩ free begun eof
      refine ⟨ok_eof okay free begun eof, ?_⟩
      rw [← same]
      simp only [putbufEof] at eof
      split at eof
      · split at eof
        · cases eof
        · rw [← Option.some.inj eof]
        · rw [← Option.some.inj eof]
      · rw [← Option.some.inj eof]
  exact (kept_putbuf_chunk kept ⟨ok, rfl⟩ done).2

theorem hdlc_putbuf_write {c c' : Chan T} {rxb : List Octet} (done : hdlcPutbuf c rxb = some c') :
    c'.write = c.write := by
  simp only [hdlcPutbuf] at done
  split at done
  · rw [← Option.some.inj done]
  · split at done
    · rw [← Option.some.inj done]
      split
      · rfl
      · exact (fills_hdlc_abort c _).write
    · split at done
      · cases done
      · rw [← Option.some.inj done]
        split
        · rfl
        · exact (fills_hdlc_abort _ _).write

theorem getbuf_other {c c' : Chan T} {x : Nat} {frame data : List Octet} {size stored : BitVec 32}
    {res : Int} (ok : ChanOk c) (holds : Holds c.write x frame 0) (other : c.write.outbuf ≠ x)
    (done : hdlcGetbuf c size = some (res, data, stored, c')) : Holds c'.write x frame 0 := by
  simp only [hdlcGetbuf] at done
  split at done
  · rename_i held
    have apart : x ≠ c.write.outbuf.toNat := by omega
    obtain ⟨_, valid, _⟩ := ok_out ok.write (by omega)
    have still : x ∈ c.write.filled.erase c.write.outbuf.toNat :=
      ((valid_nodup valid).mem_erase_iff).mpr ⟨apart, holds.filled⟩
    split at done
    · cases done
    · split at done
      · simp only [Option.some.injEq, Prod.mk.injEq] at done
        obtain ⟨_, _, _, rfl⟩ := done
        refine holds_kept holds still rfl ?_ ?_
        · exact set_other _ _ apart
        · simp only [Ring.release]
          rw [set_other _ _ apart, set_other _ _ apart]
      · simp only [Option.some.injEq, Prod.mk.injEq] at done
        obtain ⟨_, _, _, rfl⟩ := done
        exact holds_kept holds holds.filled rfl rfl (set_other _ _ apart)
  · simp only [Option.some.injEq, Prod.mk.injEq] at done
    obtain ⟨_, _, _, rfl⟩ := done
    exact holds

/-- A waiting frame stays as it was written. -/
theorem waiting_step {c c' : Chan T} {x : Nat} {frame : List Octet} {op : Op T} (ok : ChanOk c)
    (holds : Holds c.write x frame 0) (waiting : Waiting x c op)
    (done : applyOp env c op = some c') : ChanOk c' ∧ Holds c'.write x frame 0 := by
  have careful : Careful c op := by
    cases op with
    | realloc => exact waiting.elim
    | getbufChunk => exact waiting.elim
    | hdlcGetbuf => trivial
    | flush => exact waiting.2
    | _ => exact waiting
  refine ⟨ok_step ok careful done, ?_⟩
  have same (kept : c'.write = c.write) : Holds c'.write x frame 0 := by
    rw [kept]
    exact holds
  cases op with
  | realloc blocksize numbufs tx rx => exact waiting.elim
  | getbufChunk fuel => exact waiting.elim
  | writeCommit res usr =>
    obtain ⟨rfl, free⟩ := careful
    exact (holds_commit ok free done holds).1
  | readCommit res count =>
    obtain ⟨⟨data, m⟩, returned, rfl⟩ := Option.map_eq_some_iff.mp done
    apply same
    unfold chanReadCommit at returned
    split at returned
    · rw [← (Prod.mk.inj (Option.some.inj returned)).2]
      rfl
    · split at returned
      · cases returned
      · rw [← (Prod.mk.inj (Option.some.inj returned)).2]
        rfl
  | putbufChunk fuel rxb => exact same (putbuf_write ok done)
  | hdlcPutbuf rxb => exact same (hdlc_putbuf_write done)
  | hdlcFinish =>
    apply same
    rw [← Option.some.inj done]
    simp only [hdlcFinish]
    split
    · rfl
    · split <;> rfl
  | hdlcAbort event =>
    apply same
    rw [← Option.some.inj done]
    exact (fills_hdlc_abort c event).write
  | hdlcGetbuf size =>
    obtain ⟨⟨res, data, stored, m⟩, returned, rfl⟩ := Option.map_eq_some_iff.mp done
    exact getbuf_other ok holds waiting returned
  | flush mask =>
    apply same
    rw [← Option.some.inj done]
    simp only [flush, waiting.1, ne_eq, not_true_eq_false, ↓reduceIte]
    split <;> split <;> rfl
  | settings changed =>
    rw [← Option.some.inj done]
    exact holds

theorem onward_holds {c c' : Chan T} {x : Nat} {frame : List Octet} (ok : ChanOk c)
    (holds : Holds c.write x frame 0) (onward : Onward env x c c') :
    ChanOk c' ∧ Holds c'.write x frame 0 := by
  induction onward with
  | refl => exact ⟨ok, holds⟩
  | step _ waiting done ih => exact waiting_step ih.1 ih.2 waiting done

theorem reached_ok {c : Chan T} (reached : Reach (channelSystem env) Careful c) : ChanOk c := by
  refine invariant_run ?_ ?_ reached
  · rintro c ⟨c₀, blocksize, numbufs, tx, rx, done, rfl⟩
    exact ok_reallocbufs done
  · intro c op c' ok careful done
    exact ok_step ok careful done

/-- A committed frame that has come to the head is delivered, whatever the sizes
    and the writes in between, if and only if it is not a single byte. -/
theorem frame_delivered_iff (env : Env T) {c₀ c₁ c : Chan T} {usr : List Octet}
    {turns : Nat → List (List Octet) × BitVec 32}
    (reached : Reach (channelSystem env) Careful c₀) (free : 0 ≤ c₀.write.inbuf)
    (written : chanWriteCommit env c₀ c₀.write.inbuf usr = some c₁)
    (some : 0 < (committed env c₀ usr).length) (onward : Onward env c₀.write.inbuf.toNat c₁ c)
    (first : c.write.outbuf = c₀.write.inbuf) (positive : ∀ i, 0 < (turns i).2.toNat) :
    Delivers env turns c (committed env c₀ usr) ↔ 2 ≤ (committed env c₀ usr).length := by
  have ok := ok_write_commit (reached_ok reached) free written
  obtain ⟨ok', holds⟩ := onward_holds ok (commit_holds written some) onward
  exact delivers_iff ⟨ok', by omega, holds⟩ (committed_small env c₀ usr) some positive

section Concrete

def hardChan : Chan Unit := (reallocbufs zeroChan 64 4 true true).2

theorem hard_chan_reached : Reach (channelSystem silentEnv) Careful hardChan :=
  .start ⟨zeroChan, 64, 4, true, true, by decide, rfl⟩

theorem frame_delivered_three :
    ∃ c, chanWriteCommit silentEnv hardChan 0 [0x41, 0x42, 0x43] = some c ∧
      Delivers silentEnv (fun _ => ([], 1)) c [0x41, 0x42, 0x43] := by
  have same : committed silentEnv hardChan [0x41, 0x42, 0x43] = [0x41, 0x42, 0x43] := by decide
  have delivered := @frame_delivered_iff Unit silentEnv hardChan _ _ [0x41, 0x42, 0x43]
    (fun _ => ([], 1)) hard_chan_reached (by decide) rfl (by decide) (.refl _) rfl (fun _ => by decide)
  rw [same] at delivered
  exact ⟨_, rfl, delivered.mpr (by decide)⟩

/-- A frame of one byte: sixteen bytes are read, and the call says there is more. -/
theorem single_byte_overread :
    ∃ c data stored c', chanWriteCommit silentEnv hardChan 0 [0x41] = some c ∧
      hdlcGetbuf c 16 = some (0, data, stored, c') ∧ data.length = 16 ∧
      ¬ Delivers silentEnv (fun _ => ([], 16)) c [0x41] := by
  have written : ∃ c, chanWriteCommit silentEnv hardChan 0 [0x41] = some c := ⟨_, rfl⟩
  obtain ⟨c, written⟩ := written
  have ran : ((chanWriteCommit silentEnv hardChan 0 [0x41]).bind fun c =>
      (hdlcGetbuf c 16).map fun r => (r.1, r.2.1.length)) = some (0, 16) := by
    decide +kernel
  rw [written, Option.bind_some] at ran
  obtain ⟨⟨res, data, stored, c'⟩, called, same⟩ := Option.map_eq_some_iff.mp ran
  obtain ⟨rfl, length⟩ := Prod.mk.inj same
  refine ⟨c, data, stored, c', written, called, length, ?_⟩
  have ok := ok_write_commit (reached_ok hard_chan_reached) (by decide) written
  have holds := commit_holds written (by decide)
  have first : c.write.outbuf = (0 : Nat) := by
    rw [← Option.some.inj written]
    rfl
  intro delivers
  have two := (delivers_iff ⟨ok, first, holds⟩ (by decide) (by decide) (fun _ => by decide)).mp delivers
  exact absurd two (by decide)

end Concrete

end HardExtract
