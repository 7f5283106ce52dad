import Dahdi.Library.LengthChain
import Dahdi.Xpp.BriTrip
import Dahdi.Xpp.PriTrip
import Dahdi.Xpp.XprotoReads

/-!
card_pcm_tospan over the bytes of the frame that its packet lies in. Inside the packet it
does what it does to the packet alone; a length that pcm_valid lets pass keeps the FXS,
FXO and BRI cards inside, and a PRI card when it looks at no D-channel behind its lines.
-/
namespace Xproto
open Xpp PeekTree LineMask PackedSlots PcmTrip

section Reading

def peekChunk (pcm : Nat) : Peek Byte Chunk := do
  let data ← peekMany (8 + pcm) DAHDI_CHUNKSIZE
  pure (Vector.ofFn fun j => data.getD j 0)

def genericPeekLine (lines pcmMute : Lines) (got : Xpd × Nat) (i : Nat) : Peek Byte (Xpd × Nat) :=
  let pcm := if lines.getLsbD i then got.2 + DAHDI_CHUNKSIZE else got.2
  if lines.getLsbD i && !pcmMute.getLsbD i then do
    let chunk ← peekChunk got.2
    pure (setRead got.1 i chunk, pcm)
  else if (got.1.wantedPcmMask ||| got.1.silencePcm).getLsbD i then pure (setRead got.1 i silence, pcm)
  else pure (got.1, pcm)

def genericPeek (xpd : Xpd) : Peek Byte Xpd := do
  let lines ← peekLines 4
  if xpd.registered then do
    let pcmMute := ~~~ xpd.wantedPcmMask ||| (xpd.muteDtmf ||| xpd.silencePcm)
    let got ← loop (genericPeekLine lines pcmMute) (xpd, 0) xpd.channels
    pure got.1
  else pure xpd

def briPeekLine (pcmMask : Lines) (got : Xpd × Nat) (i : Nat) : Peek Byte (Xpd × Nat) :=
  let tmpMask := pcmMask &&& (bit 32 0 ||| bit 32 1)
  if tmpMask.getLsbD i then do
    let chunk ← peekChunk got.2
    pure (setRead got.1 i chunk, got.2 + DAHDI_CHUNKSIZE)
  else pure got

def briPeekSubunit (got : BriGot) (i : Nat) : Peek Byte BriGot :=
  if got.pcmMask = 0 then pure got
  else
    match got.subs i with
    | none => pure { got with pcmMask := got.pcmMask >>> SUBUNIT_PCM_SHIFT }
    | some sub =>
      if sub.xpd.cardPresent && sub.xpd.registered then do
        let taken ← loop (briPeekLine got.pcmMask) (sub.xpd, got.pcm) 2
        pure ⟨setSub got.subs i { sub with xpd := taken.1 }, got.pcmMask >>> SUBUNIT_PCM_SHIFT, taken.2⟩
      else pure { got with pcmMask := got.pcmMask >>> SUBUNIT_PCM_SHIFT }

def briPeek (subs : BriUnit) (subunit : Nat) (xpd : Xpd) : Peek Byte BriUnit :=
  if subunit ≠ 0 then pure subs
  else if xpd.registered then do
    let lines ← peekLines 4
    let got ← loop briPeekSubunit ⟨subs, lines, 0⟩ MAX_SUBUNIT
    pure got.subs
  else pure subs

def DBG_PCM : Nat := 1

/-- The sample that is taken for the D-channel's, and its packet dumped when it is new. -/
def priPeekDchan (debug : Bool) (x : PriXpd) (pcm : Nat) : Peek Byte PriXpd := do
  let sample ← peek (8 + pcm)
  if debug && x.dchanRxSample ≠ sample then do
    let _ ← dumpPacket true
    pure (dchanTaken x sample)
  else pure (dchanTaken x sample)

/-- Whether the loop is at the line of the D-channel. -/
def atDchan (got : PriGot) : Prop := got.logicalChan = got.x.dchanIdx ∧ got.x.isCas = 0

instance (got : PriGot) : Decidable (atDchan got) :=
  inferInstanceAs (Decidable (got.logicalChan = got.x.dchanIdx ∧ got.x.isCas = 0))

def priPeekChunk (lines : Lines) (got : PriGot) (i : Nat) (x : PriXpd) : Peek Byte PriGot :=
  if lines.getLsbD i then do
    let chunk ← peekChunk got.pcm
    pure ⟨{ x with xpd := setRead x.xpd got.logicalChan chunk }, got.pcm + DAHDI_CHUNKSIZE,
      got.logicalChan + 1⟩
  else pure ⟨x, got.pcm, got.logicalChan + 1⟩

def priPeekLine (debug : Bool) (lines : Lines) (got : PriGot) (i : Nat) : Peek Byte PriGot :=
  if unused got.x.priProtocol i then pure got
  else if atDchan got then do
    let x ← priPeekDchan debug got.x got.pcm
    priPeekChunk lines got i x
  else priPeekChunk lines got i got.x

def priPeek (debug : Bool) (x : PriXpd) : Peek Byte PriXpd :=
  if x.xpd.registered then do
    let lines ← peekLines 4
    let got ← loop (priPeekLine debug lines) ⟨x, 0, 0⟩ CHANNELS_PERXPD
    pure got.x
  else pure x

end Reading

section Refinement
variable {mem : Nat → Byte} {len : Nat}

/-- The packet at the beginning of a memory. -/
def packetAt (mem : Nat → Byte) (len : Nat) : Xpacket :=
  ⟨len, linesAt mem 4, (List.range (len - 8)).map fun j => mem (8 + j)⟩

theorem packet_byte (blank : ∀ i, len ≤ i → mem i = 0) (j : Nat) :
    (packetAt mem len).pcm.getD j 0 = mem (8 + j) := by
  unfold packetAt
  by_cases inside : j < len - 8
  · simp [List.getD, inside]
  · rw [blank (8 + j) (by omega)]
    simp [List.getD, inside]

theorem run_chunk (blank : ∀ i, len ≤ i → mem i = 0) (pcm : Nat) :
    run mem (peekChunk pcm) = chunkAt (packetAt mem len) pcm := by
  rw [peekChunk, run_bind, run_peekMany, run_pure]
  apply Vector.ext
  intro j inside
  unfold chunkAt slotAt
  rw [Vector.getElem_ofFn, Vector.getElem_ofFn, packet_byte blank]
  have : j < DAHDI_CHUNKSIZE := inside
  simp [List.getD, this, Nat.add_assoc]

theorem run_generic (blank : ∀ i, len ≤ i → mem i = 0) (xpd : Xpd) :
    run mem (genericPeek xpd) = genericCardPcmTospan xpd (packetAt mem len) := by
  have turn (pcmMute : Lines) (got : Xpd × Nat) (i : Nat) :
      run mem (genericPeekLine (linesAt mem 4) pcmMute got i) =
        genericTakeLine (packetAt mem len) pcmMute got i := by
    unfold genericPeekLine genericTakeLine
    simp only [run_ite, run_bind, run_pure, run_chunk blank]
    have lines : (packetAt mem len).lines = linesAt mem 4 := rfl
    rw [lines]
    by_cases got_ : ((linesAt mem 4).getLsbD i && !pcmMute.getLsbD i) = true
    · rw [if_pos got_, if_pos got_]
    · rw [if_neg got_, if_neg got_]
      split <;> rfl
  rw [genericPeek, run_bind, run_lines, run_ite, run_bind, run_loop, run_pure, run_pure, genericCardPcmTospan]
  simp only [turn]

theorem run_bri (blank : ∀ i, len ≤ i → mem i = 0) (subs : BriUnit) (subunit : Nat) (xpd : Xpd) :
    run mem (briPeek subs subunit xpd) = briCardPcmTospan subs subunit xpd (packetAt mem len) := by
  have line (pcmMask : Lines) (got : Xpd × Nat) (i : Nat) :
      run mem (briPeekLine pcmMask got i) = briTakeLine (packetAt mem len) pcmMask got i := by
    unfold briPeekLine briTakeLine
    simp only [run_ite, run_bind, run_pure, run_chunk blank]
  have turn (got : BriGot) (i : Nat) :
      run mem (briPeekSubunit got i) = briTakeSubunit (packetAt mem len) got i := by
    unfold briPeekSubunit briTakeSubunit
    rw [run_ite]
    split
    · rfl
    · cases got.subs i with
      | none => rfl
      | some sub =>
        dsimp only
        rw [run_ite, run_bind, run_loop, run_pure, run_pure]
        simp only [line]
  rw [briPeek, run_ite, run_ite, run_bind, run_lines, run_bind, run_loop, run_pure, run_pure,
    briCardPcmTospan]
  simp only [turn]
  rfl

theorem run_pri (blank : ∀ i, len ≤ i → mem i = 0) (debug : Bool) (x : PriXpd) :
    run mem (priPeek debug x) = priCardPcmTospan x (packetAt mem len) := by
  have dchan (x : PriXpd) (pcm : Nat) :
      run mem (priPeekDchan debug x pcm) = dchanTaken x ((packetAt mem len).pcm.getD pcm 0) := by
    rw [priPeekDchan, run_bind, run_peek, run_ite, run_bind, run_pure, ite_self, packet_byte blank]
  have turn (got : PriGot) (i : Nat) :
      run mem (priPeekLine debug (linesAt mem 4) got i) = priTakeLine (packetAt mem len) got i := by
    unfold priPeekLine priTakeLine priPeekChunk
    simp only [run_ite, run_bind, run_pure, run_chunk blank, dchan]
    by_cases dchan_ : atDchan got
    · have here : got.logicalChan = got.x.dchanIdx ∧ got.x.isCas = 0 := dchan_
      simp only [if_pos dchan_, if_pos here]
      rfl
    · have away : ¬ (got.logicalChan = got.x.dchanIdx ∧ got.x.isCas = 0) := dchan_
      simp only [if_neg dchan_, if_neg away]
      rfl
  rw [priPeek, run_ite, run_bind, run_lines, run_bind, run_loop, run_pure, run_pure, priCardPcmTospan]
  simp only [turn]

/-- What follows a packet in its frame, blanked. -/
def alone (mem : Nat → Byte) (len : Nat) : Nat → Byte := fun i => if i < len then mem i else 0

theorem alone_blank (mem : Nat → Byte) (len i : Nat) (behind : len ≤ i) : alone mem len i = 0 :=
  if_neg (by omega)

theorem alone_same (mem : Nat → Byte) {len i : Nat} (inside : i < len) : mem i = alone mem len i :=
  (if_pos inside).symm

/-- Inside its packet a reader makes of the frame what it makes of the packet alone. -/
theorem reads_alone {α : Type} {reader : Peek Byte α} (inside : Inside mem len reader) :
    run mem reader = run (alone mem len) reader :=
  (inside_agree inside fun _ small => alone_same mem small).1.symm

end Refinement

section Bounds
variable {mem : Nat → Byte} {len : Nat}

theorem count_le_count (mask : Lines) {a b : Nat} (le : a ≤ b) : count mask a ≤ count mask b := by
  obtain ⟨c, eq⟩ := Nat.exists_eq_add_of_le le
  rw [eq, count_add]
  exact Nat.le_add_right ..

theorem count_set {mask : Lines} {i : Nat} (isSet : mask.getLsbD i = true) : count mask i + 1 ≤ count mask 32 := by
  have inside := BitVec.lt_of_getLsbD isSet
  have next := @count_le_count mask (i + 1) 32 inside
  rw [count, isSet, if_pos rfl] at next
  exact next

theorem inside_chunk (pcm : Nat) : Inside mem len (peekChunk pcm) ↔ 8 + pcm + 8 ≤ len := by
  simp only [peekChunk, inside_bind, inside_peekMany, inside_pure, and_true, DAHDI_CHUNKSIZE]
  omega

/-- The length that pcm_valid asks for. -/
theorem valid_len (valid : pcmValid (packetAt mem len) = true) :
    len = 8 + 8 * count (linesAt mem 4) 32 := by
  have counted := count_le (linesAt mem 4) 32
  have good : len = goodLen (linesAt mem 4) := by
    simpa only [pcmValid, packetAt, beq_iff_eq] using valid
  rw [good]
  unfold goodLen RPACKET_HEADERSIZE sizeofLines CHANNELS_PERXPD
  omega

theorem generic_moves (lines pcmMute : Lines) (got : Xpd × Nat) (i : Nat) :
    (run mem (genericPeekLine lines pcmMute got i)).2 = got.2 + 8 * if lines.getLsbD i then 1 else 0 := by
  unfold genericPeekLine DAHDI_CHUNKSIZE
  dsimp only
  rw [run_ite, run_bind, run_pure, run_ite, run_pure, run_pure]
  cases lines.getLsbD i with
  | false => split <;> split <;> rfl
  | true => split <;> split <;> rfl

theorem generic_offset (lines pcmMute : Lines) (xpd : Xpd) (n : Nat) :
    (run mem (loop (genericPeekLine lines pcmMute) (xpd, 0) n)).2 = 8 * count lines n := by
  induction n with
  | zero => rfl
  | succ n ih => rw [loop_succ, run_bind, generic_moves, ih, count, Nat.mul_add]

theorem inside_generic (xpd : Xpd) (valid : len = 8 + 8 * count (linesAt mem 4) 32) :
    Inside mem len (genericPeek xpd) := by
  rw [genericPeek, inside_bind, inside_lines, run_lines]
  refine ⟨by omega, ?_⟩
  rw [inside_ite]
  split
  · rw [inside_bind, inside_loop]
    refine ⟨fun i _ => ?_, inside_pure _⟩
    have offset := @generic_offset mem (linesAt mem 4)
      (~~~ xpd.wantedPcmMask ||| (xpd.muteDtmf ||| xpd.silencePcm)) xpd i
    rw [genericPeekLine.eq_def]
    dsimp only
    rw [inside_ite, inside_bind, inside_chunk, offset]
    split
    next got =>
      rw [Bool.and_eq_true] at got
      have := count_set got.1
      exact ⟨by omega, inside_pure _⟩
    next =>
      rw [inside_ite]
      split <;> exact inside_pure _
  · exact inside_pure _

/-- The BRI loop before subunit k: it has gone by no more chunks than the lines before
    subunit k have. -/
structure BriGoing (lines : Lines) (k : Nat) (got : BriGot) : Prop where
  mask : got.pcmMask = lines >>> (4 * k)
  pcm : got.pcm ≤ 8 * count lines (4 * k)

theorem bri_masked (mask : Lines) {i : Nat} (small : i < 2) :
    (mask &&& (bit 32 0 ||| bit 32 1)).getLsbD i = mask.getLsbD i := bri_line_masked mask small

theorem bri_moves (mask : Lines) (got : Xpd × Nat) {i : Nat} (small : i < 2) :
    (run mem (briPeekLine mask got i)).2 = got.2 + 8 * if mask.getLsbD i then 1 else 0 := by
  unfold briPeekLine DAHDI_CHUNKSIZE
  dsimp only
  rw [bri_masked mask small, run_ite, run_bind, run_pure, run_pure]
  split <;> rfl

theorem bri_offset (mask : Lines) (xpd : Xpd) (pcm : Nat) {n : Nat} (small : n ≤ 2) :
    (run mem (loop (briPeekLine mask) (xpd, pcm) n)).2 = pcm + 8 * count mask n := by
  induction n with
  | zero => rfl
  | succ n ih =>
    rw [loop_succ, run_bind, bri_moves mask _ (by omega), ih (by omega), count, Nat.mul_add, Nat.add_assoc]

theorem bri_block {lines : Lines} {k n : Nat} (small : n ≤ 4) (inside : k < 8) :
    count lines (4 * k) + count (lines >>> (4 * k)) n ≤ count lines 32 := by
  rw [← count_add]
  exact count_le_count lines (by omega)

theorem bri_turn {lines : Lines} {k : Nat} {got : BriGot} (before : BriGoing lines k got) :
    BriGoing lines (k + 1) (run mem (briPeekSubunit got k)) := by
  have shifted : got.pcmMask >>> SUBUNIT_PCM_SHIFT = lines >>> (4 * (k + 1)) := by
    rw [before.mask]
    exact shift_next lines k
  have grown : count lines (4 * k) + count got.pcmMask 2 ≤ count lines (4 * (k + 1)) := by
    rw [before.mask, Nat.mul_succ, count_add]
    have := @count_le_count (lines >>> (4 * k)) 2 4 (by omega)
    omega
  have pcm := before.pcm
  unfold briPeekSubunit
  rw [run_ite]
  split
  next empty =>
    rw [run_pure]
    constructor
    · rw [← shifted, empty]
      rfl
    · omega
  next =>
    cases got.subs k with
    | none =>
      constructor
      · exact shifted
      · exact Nat.le_trans pcm (by omega)
    | some sub =>
      dsimp only
      rw [run_ite]
      split
      · have offset := @bri_offset mem got.pcmMask sub.xpd got.pcm 2 (Nat.le_refl 2)
        rw [run_bind, run_pure]
        constructor
        · exact shifted
        · dsimp only
          rw [offset]
          omega
      · constructor
        · exact shifted
        · exact Nat.le_trans pcm (by omega)

theorem bri_going (subs : BriUnit) (lines : Lines) (k : Nat) :
    BriGoing lines k (run mem (loop briPeekSubunit ⟨subs, lines, 0⟩ k)) := by
  induction k with
  | zero => exact ⟨(BitVec.ushiftRight_zero lines).symm, Nat.zero_le _⟩
  | succ k ih =>
    rw [loop_succ, run_bind]
    exact bri_turn ih

theorem inside_subunit {lines : Lines} {k : Nat} (inside : k < 8) {got : BriGot}
    (valid : len = 8 + 8 * count lines 32) (going : BriGoing lines k got) :
    Inside mem len (briPeekSubunit got k) := by
  unfold briPeekSubunit
  rw [inside_ite]
  split
  · exact inside_pure _
  · cases got.subs k with
    | none => exact inside_pure _
    | some sub =>
      dsimp only
      rw [inside_ite]
      split
      · rw [inside_bind, inside_loop]
        refine ⟨fun i small => ?_, inside_pure _⟩
        have offset := @bri_offset mem got.pcmMask sub.xpd got.pcm i (Nat.le_of_lt small)
        rw [briPeekLine.eq_def]
        dsimp only
        rw [bri_masked got.pcmMask small, inside_ite, inside_bind, inside_chunk, offset]
        split
        next isSet =>
          have block := @bri_block lines k (i + 1) (by omega) inside
          rw [← going.mask, count, isSet, if_pos rfl] at block
          have := going.pcm
          exact ⟨by omega, inside_pure _⟩
        next => exact inside_pure _
      · exact inside_pure _

theorem inside_bri_pcm (subs : BriUnit) (subunit : Nat) (xpd : Xpd)
    (valid : len = 8 + 8 * count (linesAt mem 4) 32) : Inside mem len (briPeek subs subunit xpd) := by
  rw [briPeek, inside_ite]
  split
  · exact inside_pure _
  · rw [inside_ite]
    split
    · rw [inside_bind, inside_lines, run_lines, inside_bind, inside_loop]
      refine ⟨by omega, fun k inside => ?_, inside_pure _⟩
      exact inside_subunit inside valid (bri_going subs _ k)
    · exact inside_pure _

end Bounds

section Pri
variable {mem : Nat → Byte} {len : Nat} {x : PriXpd} {lines : Lines}

/-- A line of the mask that the card's protocol carries. -/
def carried (x : PriXpd) (lines : Lines) (i : Nat) : Bool := lines.getLsbD i && used x.priProtocol i

/-- Unless the card signals by CAS, fewer of the packet's chunks lie before the D-channel
    than the packet has. -/
def DchanInside (x : PriXpd) (lines : Lines) : Prop :=
  x.isCas = 0 → ∀ i < 32, used x.priProtocol i = true → rank (used x.priProtocol) i = x.dchanIdx →
    rank (carried x lines) i < count lines 32

/-- The PRI loop before line n of the wire. -/
structure PriGoing (x : PriXpd) (lines : Lines) (n : Nat) (got : PriGot) : Prop where
  proto : got.x.priProtocol = x.priProtocol
  number : got.x.dchanNum = x.dchanNum
  cas : got.x.isCas = x.isCas
  pcm : got.pcm = 8 * rank (carried x lines) n
  logical : got.logicalChan = rank (used x.priProtocol) n

theorem dchan_taken_cas (x : PriXpd) (sample : BitVec 8) : (dchanTaken x sample).isCas = x.isCas := by
  unfold dchanTaken dchanStop
  split
  · rfl
  · split
    · dsimp only
      split <;> rfl
    · rfl

theorem run_dchan (debug : Bool) (x : PriXpd) (pcm : Nat) :
    run mem (priPeekDchan debug x pcm) = dchanTaken x (mem (8 + pcm)) := by
  rw [priPeekDchan, run_bind, run_peek, run_ite, run_bind, run_pure, ite_self]

theorem going_chunk {n : Nat} {got : PriGot} (going : PriGoing x lines n got) {x' : PriXpd}
    (proto : x'.priProtocol = x.priProtocol) (number : x'.dchanNum = x.dchanNum) (cas : x'.isCas = x.isCas)
    (here : used x.priProtocol n = true) :
    PriGoing x lines (n + 1) (run mem (priPeekChunk lines got n x')) := by
  have pcm := going.pcm
  have logical := going.logical
  unfold priPeekChunk DAHDI_CHUNKSIZE
  rw [run_ite]
  split
  next isSet =>
    rw [run_bind, run_pure]
    constructor
    · exact proto
    · exact number
    · exact cas
    · dsimp only
      rw [rank, carried, isSet, here, pcm]
      exact (Nat.mul_add 8 _ 1).symm
    · dsimp only
      rw [rank, here, logical]
      rfl
  next clear_ =>
    rw [run_pure]
    constructor
    · exact proto
    · exact number
    · exact cas
    · dsimp only
      rw [rank, carried, Bool.eq_false_iff.mpr clear_, pcm]
      rfl
    · dsimp only
      rw [rank, here, logical]
      rfl

theorem going_turn (debug : Bool) {n : Nat} {got : PriGot} (going : PriGoing x lines n got) :
    PriGoing x lines (n + 1) (run mem (priPeekLine debug lines got n)) := by
  unfold priPeekLine
  rw [run_ite, going.proto]
  split
  next skipped =>
    have away : used x.priProtocol n = false := by
      unfold used
      rw [skipped]
      rfl
    constructor
    · exact going.proto
    · exact going.number
    · exact going.cas
    · rw [run_pure, going.pcm, rank, carried, away, Bool.and_false]
      rfl
    · rw [run_pure, going.logical, rank, away]
      rfl
  next kept =>
    have here : used x.priProtocol n = true := by
      unfold used
      rw [Bool.eq_false_iff.mpr kept]
      rfl
    rw [run_ite]
    split
    · rw [run_bind, run_dchan]
      have same := dchan_taken_kept got.x (mem (8 + got.pcm))
      apply going_chunk going
      · exact same.proto.trans going.proto
      · exact same.number.trans going.number
      · exact (dchan_taken_cas _ _).trans going.cas
      · exact here
    · exact going_chunk going going.proto going.number going.cas here

theorem pri_going (debug : Bool) (x : PriXpd) (lines : Lines) (n : Nat) :
    PriGoing x lines n (run mem (loop (priPeekLine debug lines) ⟨x, 0, 0⟩ n)) := by
  induction n with
  | zero => exact ⟨rfl, rfl, rfl, rfl, rfl⟩
  | succ n ih =>
    rw [loop_succ, run_bind]
    exact going_turn debug ih

theorem carried_le (x : PriXpd) (lines : Lines) (n : Nat) : rank (carried x lines) n ≤ count lines n := by
  rw [← rank_count]
  apply rank_mono
  intro i _ both
  unfold carried at both
  rw [Bool.and_eq_true] at both
  exact both.1

theorem inside_pri_chunk (valid : len = 8 + 8 * count lines 32) {n : Nat} {got : PriGot}
    (going : PriGoing x lines n got) (x' : PriXpd) : Inside mem len (priPeekChunk lines got n x') := by
  unfold priPeekChunk
  rw [inside_ite]
  split
  next isSet =>
    have fits := count_set isSet
    have before := carried_le x lines n
    rw [inside_bind, inside_chunk, going.pcm]
    exact ⟨by omega, inside_pure _⟩
  next => exact inside_pure _

theorem inside_dchan_sample (whole : packetLen mem = len) (header : 4 ≤ len) (debug : Bool) (x : PriXpd)
    (pcm : Nat) : Inside mem len (priPeekDchan debug x pcm) ↔ 8 + pcm < len := by
  have dump := inside_dump header whole true
  simp only [priPeekDchan, inside_bind, inside_ite, inside_peek, inside_pure, dump, and_true, ite_self]

theorem inside_pri_line (whole : packetLen mem = len) (valid : len = 8 + 8 * count lines 32) (debug : Bool)
    {n : Nat} {got : PriGot} (going : PriGoing x lines n got) :
    Inside mem len (priPeekLine debug lines got n) ↔
      (x.isCas = 0 → used x.priProtocol n = true → rank (used x.priProtocol) n = x.dchanIdx →
        rank (carried x lines) n < count lines 32) := by
  have chunk (x' : PriXpd) := @inside_pri_chunk mem len x lines valid n got going x'
  have index : got.x.dchanIdx = x.dchanIdx := by
    unfold PriXpd.dchanIdx
    rw [going.number]
  rw [priPeekLine, inside_ite, going.proto]
  split
  next skipped =>
    have away : used x.priProtocol n = false := by
      unfold used
      rw [skipped]
      rfl
    simp only [inside_pure, away, Bool.false_eq_true, false_implies, implies_true]
  next kept =>
    have here : used x.priProtocol n = true := by
      unfold used
      rw [Bool.eq_false_iff.mpr kept]
      rfl
    rw [inside_ite]
    split
    next dchan =>
      have at_ : got.logicalChan = got.x.dchanIdx ∧ got.x.isCas = 0 := dchan
      rw [going.logical, index, going.cas] at at_
      rw [inside_bind, inside_dchan_sample whole (by omega), going.pcm]
      constructor
      · intro inside _ _ _
        have := inside.1
        omega
      · intro fewer
        have := fewer at_.2 here at_.1
        exact ⟨by omega, chunk _⟩
    next other =>
      constructor
      · intro _ cas _ number
        exact absurd ⟨going.logical.trans (number.trans index.symm), going.cas.trans cas⟩ other
      · intro _
        exact chunk _

theorem inside_pri_pcm (whole : packetLen mem = len) (valid : len = 8 + 8 * count (linesAt mem 4) 32)
    (debug : Bool) (x : PriXpd) :
    Inside mem len (priPeek debug x) ↔ (x.xpd.registered = true → DchanInside x (linesAt mem 4)) := by
  rw [priPeek, inside_ite]
  split
  next registered =>
    rw [inside_bind, inside_lines, run_lines, inside_bind, inside_loop]
    have going (i : Nat) := @pri_going mem debug x (linesAt mem 4) i
    constructor
    · intro inside _ cas i small here number
      exact (inside_pri_line whole valid debug (going i)).mp (inside.2.1 i small) cas here number
    · intro fewer
      refine ⟨by omega, fun i small => ?_, inside_pure _⟩
      exact (inside_pri_line whole valid debug (going i)).mpr fun cas => fewer registered cas i small
  next off => simp only [inside_pure, off, Bool.false_eq_true, false_implies]

end Pri

section Packets
variable {mem : Nat → Byte} {len : Nat}

theorem generic_as_packet (valid : len = 8 + 8 * count (linesAt mem 4) 32) (xpd : Xpd) :
    run mem (genericPeek xpd) = genericCardPcmTospan xpd (packetAt (alone mem len) len) := by
  rw [reads_alone (inside_generic xpd valid)]
  exact run_generic (alone_blank mem len) xpd

theorem bri_as_packet (valid : len = 8 + 8 * count (linesAt mem 4) 32) (subs : BriUnit) (subunit : Nat)
    (xpd : Xpd) :
    run mem (briPeek subs subunit xpd) = briCardPcmTospan subs subunit xpd (packetAt (alone mem len) len) := by
  rw [reads_alone (inside_bri_pcm subs subunit xpd valid)]
  exact run_bri (alone_blank mem len) subs subunit xpd

theorem pri_as_packet (whole : packetLen mem = len) (valid : len = 8 + 8 * count (linesAt mem 4) 32)
    (debug : Bool) (x : PriXpd) (fewer : x.xpd.registered = true → DchanInside x (linesAt mem 4)) :
    run mem (priPeek debug x) = priCardPcmTospan x (packetAt (alone mem len) len) := by
  rw [reads_alone ((inside_pri_pcm whole valid debug x).mpr fewer)]
  exact run_pri (alone_blank mem len) debug x

end Packets
end Xproto
