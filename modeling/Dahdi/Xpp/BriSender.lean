import Dahdi.Channel.HdlcSender
import Dahdi.Xpp.BriDchan

/-!
The D-channel of a BRI card as a sender: the write ring is a queue of frames, and
what tx_dchan sends are the pieces of the queue, in order.
-/
namespace BriSender
open Fasthdlc Channel CyclicCursor RingInvariant RingContents HdlcSender GuardedRun MarkedPieces BriDchan
variable {T : Type}

/-- A frame without the two bytes of its frame check. -/
def body (frame : List Octet) : List Octet := frame.take (frame.length - 2)

/-- The bodies of the frames in the write ring. -/
def bodies (w : Ring) : List (List Octet) := (contents w).map body

/-- The pieces that are still in the write ring. -/
def waiting (w : Ring) : List (Piece Octet) := unsent MULTIBYTE_MAX_LEN (bodies w) (progress w)

/-- The write ring holds frames of three bytes at least, of the first of which some
    bytes may be gone. -/
structure Queued (c : Chan T) : Prop where
  two : 2 ≤ c.numbufs
  allocated : Allocated c.numbufs c.write
  valid : Valid c.numbufs c.write.inbuf c.write.outbuf c.write.filled
  small : ∀ x ∈ c.write.filled, c.write.n x < 2 ^ 16
  started : ∀ x ∈ c.write.filled, 0 ≤ c.write.idx x ∧ c.write.idx x + 2 < c.write.n x
  later : ∀ x ∈ c.write.filled, x ≠ c.write.outbuf.toNat → c.write.idx x = 0

/-- What dahdi_hdlc_getbuf does with a frame in the ring. -/
structure Served (c : Chan T) (eoframe : Int) (data : List Octet) (len : BitVec 32) (c' : Chan T) :
    Prop where
  queued : Queued c'
  flags : c'.flags = c.flags
  counted : data.length = len.toNat
  sized : 1 ≤ len.toNat ∧ len.toNat ≤ MULTIBYTE_MAX_LEN
  taken : waiting c.write = ⟨data, decide (eoframe ≠ 0)⟩ :: waiting c'.write
  frames : c'.write.filled.length + (if eoframe = 0 then 0 else 1) = c.write.filled.length
  held : eoframe = 0 → 0 ≤ c'.write.outbuf

/-- What dahdi_hdlc_getbuf takes from the first frame with room for so many bytes. -/
structure Taken (most : Nat) (c : Chan T) (eof : Int) (data : List Octet) (len : BitVec 32) (c' : Chan T) :
    Prop where
  queued : Queued c'
  flags : c'.flags = c.flags
  counted : data.length = len.toNat
  sized : 1 ≤ len.toNat ∧ len.toNat ≤ most
  taken : unsent most (bodies c.write) (progress c.write) =
    ⟨data, decide (eof ≠ 0)⟩ :: unsent most (bodies c'.write) (progress c'.write)
  frames : c'.write.filled.length + (if eof = 0 then 0 else 1) = c.write.filled.length
  held : eof = 0 → 0 ≤ c'.write.outbuf

section Serving
variable {c : Chan T} {most : Nat}

theorem body_bytes (b : Buffer) (n : Nat) : body (bytesOf b 0 n) = bytesOf b 0 (n - 2) := by
  rw [body, bytes_length, bytes_take b 0 (Nat.sub_le n 2)]

theorem bytes_drop (b : Buffer) (done n : Nat) : (bytesOf b 0 n).drop done = bytesOf b done (n - done) := by
  by_cases inside : done ≤ n
  · obtain ⟨rest, rfl⟩ : ∃ rest, n = done + rest := ⟨n - done, by omega⟩
    rw [bytes_append, List.drop_append_of_le_length (by rw [bytes_length]), Nat.zero_add,
      List.drop_of_length_le (by rw [bytes_length]), List.nil_append, Nat.add_sub_cancel_left]
  · rw [List.drop_of_length_le (by rw [bytes_length]; omega), Nat.sub_eq_zero_of_le (by omega), bytesOf]

theorem int_word {m : Nat} (small : m < 2 ^ 16) : (BitVec.ofInt 32 (m : Int)).toNat = m := by
  rw [BitVec.ofInt_natCast, BitVec.toNat_ofNat]
  omega

theorem nat_word (few : most < 2 ^ 16) : (BitVec.ofNat 32 most).toNat = most := by
  rw [BitVec.toNat_ofNat]
  omega

theorem nat_int (few : most < 2 ^ 16) : (BitVec.ofNat 32 most).toInt = most := by
  rw [BitVec.toInt_eq_toNat_of_lt (by rw [nat_word few]; omega), nat_word few]

theorem word_fits {m : Nat} (small : m < 2 ^ 16) (few : most < 2 ^ 16) :
    BitVec.ofInt 32 (m : Int) ≤ BitVec.ofNat 32 most ↔ m ≤ most := by
  rw [BitVec.le_def, int_word small, nat_word few]

theorem left_word {x : Int} {n done : Nat} (count : x = (n : Int)) (some_left : done + 2 < n) :
    BitVec.ofInt 32 (x - done - 2) = BitVec.ofInt 32 ((n - 2 - done : Nat) : Int) := by
  congr 1
  omega

/-- The first frame, how much of it is gone, and the buffer it stands in. -/
theorem queued_head (queued : Queued c) (held : 0 ≤ c.write.outbuf) :
    ∃ (buf : Buffer) (n done : Nat) (rest : List Nat), c.write.buf c.write.outbuf.toNat = some buf ∧
      c.write.n c.write.outbuf.toNat = (n : Int) ∧ c.write.idx c.write.outbuf.toNat = (done : Int) ∧
      done + 2 < n ∧ n < 2 ^ 16 ∧ progress c.write = done ∧
      c.write.filled = c.write.outbuf.toNat :: rest ∧
      frameAt c.write c.write.outbuf.toNat = bytesOf buf 0 n := by
  obtain ⟨rest, filled⟩ := valid_head queued.valid held
  have first : c.write.outbuf.toNat ∈ c.write.filled := by
    rw [filled]
    exact List.mem_cons_self
  obtain ⟨buf, present⟩ := Option.ne_none_iff_exists'.mp (queued.allocated _ (valid_below queued.valid first))
  obtain ⟨low, some⟩ := queued.started _ first
  have small := queued.small _ first
  obtain ⟨done, gone⟩ := Int.eq_ofNat_of_zero_le low
  obtain ⟨n, count⟩ := Int.eq_ofNat_of_zero_le (by omega : 0 ≤ c.write.n c.write.outbuf.toNat)
  refine ⟨buf, n, done, rest, present, count, gone, by omega, by omega, ?_, filled, ?_⟩
  · rw [progress, if_neg (by omega), gone, Int.toNat_natCast]
  · rw [frameAt, present, count, Option.getD_some, Int.toNat_natCast]

theorem bodies_cons {buf : Buffer} {n : Nat} {rest : List Nat}
    (filled : c.write.filled = c.write.outbuf.toNat :: rest)
    (frame : frameAt c.write c.write.outbuf.toNat = bytesOf buf 0 n) :
    bodies c.write = bytesOf buf 0 (n - 2) :: (rest.map (frameAt c.write)).map body := by
  rw [bodies, contents, filled, List.map_cons, List.map_cons, frame, body_bytes]

/-- A piece out of the middle of a frame. -/
theorem getbuf_more (queued : Queued c) (held : 0 ≤ c.write.outbuf) (positive : 0 < most)
    (few : most < 2 ^ 16) {n done : Nat} (count : c.write.n c.write.outbuf.toNat = (n : Int))
    (gone : c.write.idx c.write.outbuf.toNat = (done : Int)) (long : most < n - 2 - done) :
    ∃ data len c', hdlcGetbuf c (BitVec.ofNat 32 most) = some (0, data, len, c') ∧
      Taken most c 0 data len c' := by
  obtain ⟨buf, n', done', rest, present, count', gone', some_left, small, begun, filled, frame⟩ :=
    queued_head queued held
  obtain rfl : n = n' := by omega
  obtain rfl : done = done' := by omega
  have left := left_word count some_left
  have more : ¬ BitVec.ofInt 32 ((n - 2 - done : Nat) : Int) ≤ BitVec.ofNat 32 most := by
    rw [word_fits (by omega) few]
    exact Nat.not_le.mpr long
  generalize next : ({ c with write := { c.write with
    idx := Channel.set c.write.idx c.write.outbuf.toNat (c.write.idx c.write.outbuf.toNat + (BitVec.ofNat 32 most).toInt) } } : Chan T) = c'
  have run : hdlcGetbuf c (BitVec.ofNat 32 most) =
      some (0, bytesOf buf done most, BitVec.ofNat 32 most, c') := by
    rw [hdlcGetbuf, if_pos (by omega)]
    simp only [left, more, decide_false, Bool.false_eq_true, ↓reduceIte, present, gone, Int.toNat_natCast]
    rw [← next, gone, nat_word few]
  have same : bodies c'.write = bodies c.write := by
    rw [← next]
    simp only [bodies]
    congr 1
  have further : progress c'.write = done + most := by
    rw [← next]
    simp only [progress]
    rw [if_neg (by omega), set_same, gone, nat_int few]
    omega
  refine ⟨_, _, c', run, ?_⟩
  constructor
  · rw [← next]
    refine ⟨queued.two, queued.allocated, queued.valid, queued.small, ?_, ?_⟩
    · intro x inside
      simp only
      rcases Nat.decEq x c.write.outbuf.toNat with other | rfl
      · rw [set_other _ _ other]
        exact queued.started x inside
      · rw [set_same, nat_int few]
        omega
    · intro x inside other
      simp only
      rw [set_other _ _ other]
      exact queued.later x inside other
  · rw [← next]
  · rw [bytes_length, nat_word few]
  · rw [nat_word few]
    omega
  · have size : (bytesOf buf 0 (n - 2)).length - done = n - 2 - done := by rw [bytes_length]
    rw [same, further, begun, bodies_cons filled frame, MarkedPieces.unsent_more positive (by omega),
      bytes_drop, bytes_take _ _ (by omega)]
    rfl
  · rw [← next]
    rfl
  · intro _
    rw [← next]
    exact held

/-- The last piece of a frame. -/
theorem getbuf_last (queued : Queued c) (held : 0 ≤ c.write.outbuf) (few : most < 2 ^ 16) {n done : Nat}
    (count : c.write.n c.write.outbuf.toNat = (n : Int))
    (gone : c.write.idx c.write.outbuf.toNat = (done : Int)) (short : n - 2 - done ≤ most) :
    ∃ eoframe data len c', hdlcGetbuf c (BitVec.ofNat 32 most) = some (eoframe, data, len, c') ∧
      eoframe ≠ 0 ∧ Taken most c eoframe data len c' := by
  obtain ⟨buf, n', done', rest, present, count', gone', some_left, small, begun, filled, frame⟩ :=
    queued_head queued held
  obtain rfl : n = n' := by omega
  obtain rfl : done = done' := by omega
  have left := left_word count some_left
  have few : BitVec.ofInt 32 ((n - 2 - done : Nat) : Int) ≤ BitVec.ofNat 32 most :=
    (word_fits (by omega) few).mpr short
  generalize stored : (BitVec.ofInt 32 ((n - 2 - done : Nat) : Int)).toInt = moved
  generalize next : ({ c.write with
    idx := Channel.set (Channel.set c.write.idx c.write.outbuf.toNat (c.write.idx c.write.outbuf.toNat + moved))
      c.write.outbuf.toNat 0
    n := Channel.set c.write.n c.write.outbuf.toNat 0 }.release c.numbufs c.write.outbuf : Ring) = w
  obtain ⟨disabled, run⟩ : ∃ disabled, hdlcGetbuf c (BitVec.ofNat 32 most) =
      some (if decide ((c.write.outbuf + 1) % c.numbufs = c.write.inbuf) = true then -1 else 1,
        bytesOf buf done (n - 2 - done), BitVec.ofInt 32 ((n - 2 - done : Nat) : Int),
        { c with write := w, txdisable := disabled }) := by
    constructor
    rw [hdlcGetbuf, if_pos (by omega)]
    simp only [left, few, decide_true, ↓reduceIte, present, gone, Int.toNat_natCast, stored]
    rw [← next, gone, int_word (by omega)]
  have emptied := contents_release queued.valid held
    (Channel.set c.write.n c.write.outbuf.toNat 0)
    (Channel.set (Channel.set c.write.idx c.write.outbuf.toNat (c.write.idx c.write.outbuf.toNat + moved))
      c.write.outbuf.toNat 0) (fun x _ other => set_other _ _ other)
  rw [next, frame] at emptied
  obtain ⟨rest', filled', valid'⟩ := valid_empty queued.two queued.valid held
  obtain rfl : rest' = rest := by
    rw [filled] at filled'
    exact (List.cons.inj filled').2.symm
  have once := valid_nodup queued.valid
  rw [filled, List.nodup_cons] at once
  have erased : w.filled = rest' := by
    rw [← next]
    simp only [Ring.release, filled, List.erase_cons_head]
  have others : ∀ x ∈ rest', x ∈ c.write.filled ∧ w.idx x = 0 ∧ w.n x = c.write.n x := by
    intro x inside
    have other : x ≠ c.write.outbuf.toNat := by
      rintro rfl
      exact once.1 inside
    have member : x ∈ c.write.filled := by
      rw [filled]
      exact List.mem_cons_of_mem _ inside
    have zero := queued.later x member other
    rw [← next]
    simp only [Ring.release, set_other _ _ other]
    exact ⟨member, zero, trivial⟩
  have fresh : progress w = 0 := by
    have ring : Valid c.numbufs w.inbuf w.outbuf w.filled := by
      rw [erased, ← next]
      exact valid'
    apply progress_zero ring
    intro x inside
    rw [erased] at inside
    exact (others x inside).2.1
  refine ⟨_, _, _, _, run, by split <;> decide, ?_⟩
  have ended : (if decide ((c.write.outbuf + 1) % c.numbufs = c.write.inbuf) = true then (-1 : Int) else 1) ≠ 0 := by
    split <;> decide
  constructor
  · refine ⟨queued.two, ?_, ?_, ?_, ?_, ?_⟩
    · rw [← next]
      exact queued.allocated
    · simp only [erased]
      rw [← next]
      exact valid'
    · intro x inside
      simp only [erased] at inside ⊢
      rw [(others x inside).2.2]
      exact queued.small x (others x inside).1
    · intro x inside
      simp only [erased] at inside ⊢
      obtain ⟨member, zero, count⟩ := others x inside
      have before := queued.started x member
      omega
    · intro x inside _
      simp only [erased] at inside
      exact (others x inside).2.1
  · rfl
  · rw [bytes_length, int_word (by omega)]
  · rw [int_word (by omega)]
    omega
  · have size : (bytesOf buf 0 (n - 2)).length - done = n - 2 - done := by rw [bytes_length]
    have behind : bodies w = (rest'.map (frameAt c.write)).map body := by
      have both := emptied
      rw [contents, filled, List.map_cons, frame] at both
      rw [bodies, ← (List.cons.inj both).2]
    rw [fresh, begun, bodies_cons filled frame, unsent_last (by omega), bytes_drop, behind]
    simp only [ended, ne_eq, not_false_eq_true, decide_true]
  · simp only [erased, if_neg ended, filled, List.length_cons]
  · intro none
    exact absurd none ended

theorem getbuf_taken (queued : Queued c) (held : 0 ≤ c.write.outbuf) (positive : 0 < most)
    (few : most < 2 ^ 16) :
    ∃ eof data len c', hdlcGetbuf c (BitVec.ofNat 32 most) = some (eof, data, len, c') ∧
      Taken most c eof data len c' := by
  obtain ⟨buf, n, done, rest, present, count, gone, some_left, small, begun, filled, frame⟩ :=
    queued_head queued held
  by_cases short : n - 2 - done ≤ most
  · obtain ⟨eof, data, len, c', run, _, taken⟩ := getbuf_last queued held few count gone short
    exact ⟨eof, data, len, c', run, taken⟩
  · obtain ⟨data, len, c', run, taken⟩ := getbuf_more queued held positive few count gone (by omega)
    exact ⟨0, data, len, c', run, taken⟩

theorem getbuf_served (queued : Queued c) (held : 0 ≤ c.write.outbuf) :
    ∃ eoframe data len c', hdlcGetbuf c (BitVec.ofNat 32 MULTIBYTE_MAX_LEN) = some (eoframe, data, len, c') ∧
      Served c eoframe data len c' := by
  obtain ⟨eoframe, data, len, c', run, taken⟩ :=
    @getbuf_taken T c MULTIBYTE_MAX_LEN queued held (by decide) (by decide)
  exact ⟨eoframe, data, len, c', run, taken.queued, taken.flags, taken.counted, taken.sized, taken.taken,
    taken.frames, taken.held⟩

end Serving

end BriSender
