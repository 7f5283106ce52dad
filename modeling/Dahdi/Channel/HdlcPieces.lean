import Dahdi.Channel.Contents

/-!
A board that does HDLC itself hands over a frame in pieces, through
dahdi_hdlc_putbuf and dahdi_hdlc_finish.
-/
namespace HdlcPieces
open Channel RingInvariant RingContents Fasthdlc
variable {T : Type}

/-- All pieces of a frame, and its end. -/
def hardDeliver (c : Chan T) (pieces : List (List Octet)) : Option (Chan T) :=
  (pieces.foldlM hdlcPutbuf c).map hdlcFinish

/-- What the buffer holds after a piece: a piece that does not fit empties it. -/
def assemble (blocksize : Int) (data piece : List Octet) : List Octet :=
  if ((data.length + piece.length : Nat) : Int) ≤ blocksize then data ++ piece else []

def residue (blocksize : Int) (pieces : List (List Octet)) : List Octet :=
  pieces.foldl (assemble blocksize) []

/-- The events of a channel. -/
def events (c : Chan T) : (Nat → Nat) × Nat × Nat := (c.eventbuf, c.eventinidx, c.eventoutidx)

/-- OVERRUN has been queued, if the channel is open and without alarms. -/
def Queued (c c' : Chan T) : Prop :=
  (c.flags.isOpen && !c.alarms) = true →
    ∃ j, 1 ≤ j ∧ events c' = events ((fun c => qevent c eventOverrun)^[j] c)

/-- A channel that waits for a frame: nothing stored in the buffer it fills, no
    checking of frames and no search for repeated ones. -/
structure Idle (env : Env T) (c : Chan T) : Prop where
  hdlc : c.flags.hdlc = true
  fcs : c.flags.fcs = false
  mtp2 : c.flags.mtp2 = false
  sized : 0 < c.blocksize
  free : 0 ≤ c.read.inbuf
  idx : c.read.idx c.read.inbuf.toNat = 0
  present : c.read.buf c.read.inbuf.toNat ≠ none
  check : c.infcs = env.pppInitfcs
  apart : c.read.inbuf.toNat ∉ c.read.filled

section Hard

/-- A board has handed over pieces that left this data in the buffer, and `spilled`
    of them did not fit. -/
structure Holding (c0 c : Chan T) (data : List Octet) (spilled : Nat) : Prop where
  flags : c.flags = c0.flags
  alarms : c.alarms = c0.alarms
  blocksize : c.blocksize = c0.blocksize
  numbufs : c.numbufs = c0.numbufs
  inbuf : c.read.inbuf = c0.read.inbuf
  idx : c.read.idx c0.read.inbuf.toNat = data.length
  room : (data.length : Int) ≤ c0.blocksize
  bytes : ∃ buf, c.read.buf c0.read.inbuf.toNat = some buf ∧ bytesOf buf 0 data.length = data
  others : ∀ x, x ≠ c0.read.inbuf.toNat → c.read.buf x = c0.read.buf x
  ready : c.read.n = c0.read.n ∧ c.read.filled = c0.read.filled
  events : (c0.flags.isOpen && !c0.alarms) = true →
    HdlcPieces.events c = HdlcPieces.events ((fun c => qevent c eventOverrun)^[spilled] c0)

variable {c0 c : Chan T} {data : List Octet} {spilled : Nat}

theorem qevent_same (c : Chan T) (event : Nat) : qevent c event = { c with
    eventbuf := (qevent c event).eventbuf
    eventinidx := (qevent c event).eventinidx
    eventoutidx := (qevent c event).eventoutidx } := by
  unfold qevent
  split
  · rfl
  · split <;> rfl

theorem qevent_events {c d : Chan T} (same : events c = events d) (event : Nat) :
    events (qevent c event) = events (qevent d event) := by
  obtain ⟨buf, rest⟩ := Prod.mk.inj same
  obtain ⟨inidx, outidx⟩ := Prod.mk.inj rest
  unfold qevent
  rw [buf, inidx, outidx]
  split
  · exact same
  · split
    · exact same
    · rfl

/-- A piece that does not fit: the buffer is emptied and the event queued. -/
theorem holding_abort (holding : Holding c0 c data spilled) (free : 0 ≤ c0.read.inbuf)
    (sized : 0 ≤ c0.blocksize) : Holding c0 (hdlcAbort c eventOverrun) [] (spilled + 1) := by
  obtain ⟨buf, present, _⟩ := holding.bytes
  have low : 0 ≤ c.read.inbuf := by
    rw [holding.inbuf]
    exact free
  have cleared : hdlcAbort c eventOverrun =
      if c.flags.isOpen && !c.alarms then qevent (setReadIdx c c0.read.inbuf.toNat 0) eventOverrun
      else setReadIdx c c0.read.inbuf.toNat 0 := by
    unfold hdlcAbort
    rw [if_pos low, holding.inbuf]
    rfl
  have emptied : Holding c0 (setReadIdx c c0.read.inbuf.toNat 0) [] spilled :=
    ⟨holding.flags, holding.alarms, holding.blocksize, holding.numbufs, holding.inbuf,
      set_same _ _ _, sized, ⟨buf, present, rfl⟩, holding.others, holding.ready, holding.events⟩
  rw [cleared, holding.flags, holding.alarms]
  split
  · rename_i open_
    rw [qevent_same]
    refine ⟨emptied.flags, emptied.alarms, emptied.blocksize, emptied.numbufs, emptied.inbuf,
      emptied.idx, emptied.room, emptied.bytes, emptied.others, emptied.ready, ?_⟩
    intro _
    rw [Function.iterate_succ_apply']
    exact qevent_events (emptied.events open_) eventOverrun
  · rename_i shut
    exact ⟨emptied.flags, emptied.alarms, emptied.blocksize, emptied.numbufs, emptied.inbuf,
      emptied.idx, emptied.room, emptied.bytes, emptied.others, emptied.ready,
      fun open_ => absurd open_ shut⟩

/-- The bytes of a piece, or of its beginning, behind the data already there. -/
theorem holding_copy (holding : Holding c0 c data spilled) {buf : Buffer}
    (bytes : bytesOf buf 0 data.length = data)
    (piece : List Octet) (fits : ((data.length + piece.length : Nat) : Int) ≤ c0.blocksize) :
    Holding c0 { c with read := { c.read with
        buf := set c.read.buf c0.read.inbuf.toNat (some (copyAt buf data.length piece))
        idx := set c.read.idx c0.read.inbuf.toNat (data.length + piece.length) } }
      (data ++ piece) spilled := by
  refine ⟨holding.flags, holding.alarms, holding.blocksize, holding.numbufs, holding.inbuf, ?_, ?_, ?_,
    ?_, holding.ready, holding.events⟩
  · rw [List.length_append]
    exact set_same _ _ _
  · rw [List.length_append]
    exact fits
  · refine ⟨_, set_same _ _ _, ?_⟩
    have written := bytes_extended buf data.length piece
    rw [List.length_append, written, bytes]
  · intro x other
    simp only [set_other _ _ other]
    exact holding.others x other

theorem hard_piece (holding : Holding c0 c data spilled) (free : 0 ≤ c0.read.inbuf)
    (sized : 0 < c0.blocksize) (piece : List Octet) :
    ∃ c' spilled', hdlcPutbuf c piece = some c' ∧
      Holding c0 c' (assemble c0.blocksize data piece) spilled' ∧ spilled ≤ spilled' ∧
      (¬ ((data.length + piece.length : Nat) : Int) ≤ c0.blocksize → spilled < spilled') := by
  obtain ⟨buf, present, bytes⟩ := holding.bytes
  have here := holding.idx
  have room := holding.room
  unfold hdlcPutbuf
  have size := holding.blocksize
  rw [if_neg (by rw [holding.inbuf]; omega), holding.inbuf]
  dsimp only
  by_cases fits : ((data.length + piece.length : Nat) : Int) ≤ c0.blocksize
  · have whole : min (c.blocksize - c.read.idx c0.read.inbuf.toNat) (piece.length : Int) =
        piece.length := by omega
    rw [assemble, if_pos fits, whole, here]
    by_cases empty : piece = []
    · subst empty
      exact ⟨c, spilled, rfl, by rw [List.append_nil]; exact holding, Nat.le_refl _, fun no => absurd fits no⟩
    · have long := List.length_pos_iff.mpr empty
      rw [if_neg (by omega), present]
      simp only [Int.toNat_natCast, List.take_length, ↓reduceIte]
      exact ⟨_, spilled, rfl, holding_copy holding bytes piece fits, Nat.le_refl _,
        fun no => absurd fits no⟩
  · have empty : piece ≠ [] := by
      rintro rfl
      simp only [List.length_nil, Nat.add_zero] at fits
      omega
    rw [assemble, if_neg fits]
    by_cases full : c0.blocksize - data.length ≤ 0
    · rw [if_pos (by omega), if_neg empty]
      exact ⟨_, spilled + 1, rfl, holding_abort holding free (by omega), Nat.le_succ _,
        fun _ => Nat.lt_succ_self _⟩
    · have part : min (c.blocksize - c.read.idx c0.read.inbuf.toNat) (piece.length : Int) =
          ((c0.blocksize - data.length).toNat : Int) := by omega
      have short : (piece.take (c0.blocksize - data.length).toNat).length =
          (c0.blocksize - data.length).toNat := by
        rw [List.length_take]
        omega
      have copied := holding_copy holding bytes
        (piece.take (c0.blocksize - data.length).toNat) (by omega)
      rw [short] at copied
      rw [part, if_neg (by omega), present, here]
      simp only [Int.toNat_natCast]
      rw [if_neg (by omega)]
      exact ⟨_, spilled + 1, rfl, holding_abort copied free (by omega), Nat.le_succ _,
        fun _ => Nat.lt_succ_self _⟩

theorem hard_pieces (free : 0 ≤ c0.read.inbuf) (sized : 0 < c0.blocksize)
    (pieces : List (List Octet)) (holding : Holding c0 c data spilled) :
    ∃ c' spilled', pieces.foldlM hdlcPutbuf c = some c' ∧
      Holding c0 c' (pieces.foldl (assemble c0.blocksize) data) spilled' ∧ spilled ≤ spilled' ∧
      (spilled = spilled' →
        pieces.foldl (assemble c0.blocksize) data = data ++ pieces.flatten ∧
          ((data.length + pieces.flatten.length : Nat) : Int) ≤ c0.blocksize) := by
  induction pieces generalizing c data spilled with
  | nil =>
    refine ⟨c, spilled, rfl, holding, Nat.le_refl _, fun _ => ⟨?_, ?_⟩⟩
    · rw [List.flatten_nil, List.append_nil]
      rfl
    · exact holding.room
  | cons piece pieces ih =>
    obtain ⟨c', s', put, held, more, over_⟩ := hard_piece holding free sized piece
    obtain ⟨c'', s'', rest, held', more', whole⟩ := ih held
    refine ⟨c'', s'', ?_, held', by omega, ?_⟩
    · rw [List.foldlM_cons, put]
      exact rest
    · intro same
      have fits : ((data.length + piece.length : Nat) : Int) ≤ c0.blocksize := by
        by_contra no
        have := over_ no
        omega
      obtain ⟨joined, inside⟩ := whole (by omega)
      rw [assemble, if_pos fits] at joined inside
      rw [List.foldl_cons, assemble, if_pos fits, joined, List.flatten_cons, List.append_assoc]
      refine ⟨rfl, ?_⟩
      simp only [List.length_append] at inside ⊢
      omega

theorem residue_fits (blocksize : Int) {pieces : List (List Octet)}
    (fits : (pieces.flatten.length : Int) ≤ blocksize) : residue blocksize pieces = pieces.flatten := by
  have step (data : List Octet) (pieces : List (List Octet))
      (fits : ((data.length + pieces.flatten.length : Nat) : Int) ≤ blocksize) :
      pieces.foldl (assemble blocksize) data = data ++ pieces.flatten := by
    induction pieces generalizing data with
    | nil => rw [List.flatten_nil, List.append_nil]; rfl
    | cons piece pieces ih =>
      rw [List.flatten_cons, List.length_append] at fits
      rw [List.foldl_cons, assemble, if_pos (by omega),
        ih _ (by rw [List.length_append]; omega), List.flatten_cons, List.append_assoc]
  rw [residue, step [] pieces (by simpa using fits), List.nil_append]

/-- A buffer beside the filled ones is handed over with what it holds. -/
theorem handed_over {r r' : Ring} {x : Nat} {buf : Buffer} {data : List Octet}
    (apart : x ∉ r.filled) (filled : r'.filled = r.filled) (others : ∀ y, y ≠ x → r'.buf y = r.buf y)
    (n : r'.n = r.n) (present : r'.buf x = some buf) (bytes : bytesOf buf 0 data.length = data)
    (size : Nat) :
    contents (Ring.handOver { r' with n := set r'.n x data.length } size x) = contents r ++ [data] := by
  have kept : contents { r' with n := set r'.n x data.length } = contents r := by
    refine contents_congr filled fun y held => ?_
    have other : y ≠ x := by
      rintro rfl
      exact apart held
    exact ⟨others y other, (set_other _ _ other).trans (by rw [n])⟩
  have joined : frameAt { r' with n := set r'.n x data.length } x = data := by
    simp only [frameAt, present, Option.getD_some, set_same, Int.toNat_natCast, bytes]
  rw [contents_hand_over, kept, Int.toNat_natCast, joined]

/-- The end of a frame: what the buffer holds becomes readable, if it holds anything. -/
theorem holding_finished (holding : Holding c0 c data spilled) (free : 0 ≤ c0.read.inbuf)
    (apart : c0.read.inbuf.toNat ∉ c0.read.filled) :
    contents (hdlcFinish c).read = contents c0.read ++ (if data = [] then [] else [data]) := by
  obtain ⟨n, filled⟩ := holding.ready
  have here := holding.idx
  obtain ⟨buf, present, bytes⟩ := holding.bytes
  unfold hdlcFinish
  rw [if_neg (by rw [holding.inbuf]; omega), holding.inbuf]
  dsimp only
  rw [here]
  by_cases empty : data = []
  · rw [if_pos empty, if_pos (by rw [empty]; rfl), List.append_nil]
    refine contents_congr filled fun x held => ⟨holding.others x ?_, by rw [n]⟩
    rintro rfl
    exact apart held
  · have long := List.length_pos_iff.mpr empty
    rw [if_neg empty, if_neg (by omega)]
    have handed := handed_over apart filled holding.others n present bytes c.numbufs
    rwa [Int.toNat_of_nonneg free] at handed

/-- What the board leaves behind: the residue, and OVERRUN when the frame is too long. -/
theorem hard_delivered {env : Env T} (idle : Idle env c0)
    (pieces : List (List Octet)) :
    ∃ hard, hardDeliver c0 pieces = some hard ∧
      contents hard.read = contents c0.read ++
        (if residue c0.blocksize pieces = [] then [] else [residue c0.blocksize pieces]) ∧
      (c0.blocksize < pieces.flatten.length → Queued c0 hard) := by
  obtain ⟨buf, present⟩ := Option.ne_none_iff_exists'.mp idle.present
  have free := idle.free
  have start : Holding c0 c0 [] 0 :=
    ⟨rfl, rfl, rfl, rfl, rfl, idle.idx, Int.le_of_lt idle.sized, ⟨buf, present, rfl⟩,
      fun _ _ => rfl, ⟨rfl, rfl⟩, fun _ => rfl⟩
  obtain ⟨c, spilled, put, holding, _, whole⟩ := hard_pieces free idle.sized pieces start
  change Holding c0 c (residue c0.blocksize pieces) spilled at holding
  refine ⟨hdlcFinish c, by rw [hardDeliver, put]; rfl, holding_finished holding free idle.apart, ?_⟩
  intro long open_
  refine ⟨spilled, ?_, ?_⟩
  · by_contra none
    obtain ⟨_, inside⟩ := whole (by omega)
    rw [List.length_nil, Nat.zero_add] at inside
    omega
  · have same : HdlcPieces.events (hdlcFinish c) = HdlcPieces.events c := by
      unfold hdlcFinish
      split
      · rfl
      · dsimp only
        split <;> rfl
    rw [same]
    exact holding.events open_

end Hard

end HdlcPieces
