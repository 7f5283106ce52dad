import Dahdi.Library.PackedSlots
import Dahdi.Xpp.Cards
import Dahdi.Xpp.PriLength

/-!
The PCM packets of Astribank cards: the chunks of the wanted lines one after the
other, filled by card_pcm_fromspan and read by card_pcm_tospan. A pointer into the
chunks is the number of bytes before it.
-/
namespace Xpp
open LineMask PackedSlots

section Chunks

def silence : Chunk := Vector.replicate 8 0x7F

def setRead (xpd : Xpd) (i : Nat) (chunk : Chunk) : Xpd :=
  setChan xpd i { xpd.chans i with readchunk := chunk }

def sentChunk (xpd : Xpd) (i : Nat) : Chunk :=
  if xpd.registered then (xpd.chans i).writechunk else silence

/-- The chunks of an FXS or FXO card, or of one subunit of a BRI card. -/
def sendLines (xpd : Xpd) (pcm : List (BitVec 8)) : List (BitVec 8) :=
  (List.range xpd.channels).foldl
    (fun pcm i => if xpd.wantedPcmMask.getLsbD i then pcm ++ (sentChunk xpd i).toList else pcm) pcm

def chunkAt (pack : Xpacket) (pcm : Nat) : Chunk := slotAt 8 0 pack.pcm pcm

end Chunks

section Generic

def genericCardPcmFromspan (xpd : Xpd) (pack : Xpacket) : Xpacket :=
  { pack with lines := xpd.wantedPcmMask, pcm := sendLines xpd [] }

/-- A line without data of its own gets silence when it is wanted or silenced. -/
def genericTakeLine (pack : Xpacket) (pcmMute : Lines) (got : Xpd × Nat) (i : Nat) : Xpd × Nat :=
  let gotData := pack.lines.getLsbD i
  let xpd :=
    if gotData && !pcmMute.getLsbD i then setRead got.1 i (chunkAt pack got.2)
    else if (got.1.wantedPcmMask ||| got.1.silencePcm).getLsbD i then setRead got.1 i silence
    else got.1
  (xpd, if gotData then got.2 + DAHDI_CHUNKSIZE else got.2)

def genericCardPcmTospan (xpd : Xpd) (pack : Xpacket) : Xpd :=
  let pcmMute := ~~~ xpd.wantedPcmMask ||| (xpd.muteDtmf ||| xpd.silencePcm)
  if xpd.registered then ((List.range xpd.channels).foldl (genericTakeLine pack pcmMute) (xpd, 0)).1
  else xpd

end Generic

section Bri

structure BriSent where
  pcm : List (BitVec 8)
  pcmMask : Lines

def briSendSubunit (subs : BriUnit) (sent : BriSent) (i : Nat) : BriSent :=
  match subs i with
  | none => sent
  | some sub =>
    if sub.xpd.cardPresent then
      ⟨sendLines sub.xpd sent.pcm, sent.pcmMask ||| sub.xpd.wantedPcmMask <<< (SUBUNIT_PCM_SHIFT * i)⟩
    else sent

def briCardPcmFromspan (subs : BriUnit) (pack : Xpacket) : Xpacket :=
  let sent := (List.range MAX_SUBUNIT).foldl (briSendSubunit subs) ⟨[], 0⟩
  { pack with lines := sent.pcmMask, pcm := sent.pcm }

def briTakeLine (pack : Xpacket) (pcmMask : Lines) (got : Xpd × Nat) (i : Nat) : Xpd × Nat :=
  let tmpMask := pcmMask &&& (bit 32 0 ||| bit 32 1)
  if tmpMask.getLsbD i then (setRead got.1 i (chunkAt pack got.2), got.2 + DAHDI_CHUNKSIZE) else got

structure BriGot where
  subs : BriUnit
  pcmMask : Lines
  pcm : Nat

/-- The loop is left when no line is left in the mask: what is empty stays empty. -/
def briTakeSubunit (pack : Xpacket) (got : BriGot) (i : Nat) : BriGot :=
  if got.pcmMask = 0 then got
  else
    match got.subs i with
    | none => { got with pcmMask := got.pcmMask >>> SUBUNIT_PCM_SHIFT }
    | some sub =>
      if sub.xpd.cardPresent && sub.xpd.registered then
        let taken := (List.range 2).foldl (briTakeLine pack got.pcmMask) (sub.xpd, got.pcm)
        ⟨setSub got.subs i { sub with xpd := taken.1 }, got.pcmMask >>> SUBUNIT_PCM_SHIFT, taken.2⟩
      else { got with pcmMask := got.pcmMask >>> SUBUNIT_PCM_SHIFT }

/-- Called for any subunit; subunit 0 handles all of them. -/
def briCardPcmTospan (subs : BriUnit) (subunit : Nat) (xpd : Xpd) (pack : Xpacket) : BriUnit :=
  if subunit ≠ 0 then subs
  else if xpd.registered then
    ((List.range MAX_SUBUNIT).foldl (briTakeSubunit pack) ⟨subs, pack.lines, 0⟩).subs
  else subs

end Bri

section Pri

/-- How many channels on the wire stay unused before line i. -/
def unusedBefore (proto : PriProtocol) (i : Nat) : Nat :=
  match proto with
  | .e1 => if i = 0 then 1 else 0
  | .t1 => if i % 3 = 0 then 1 else 0
  | _ => 0

/-- Whether channel i on the wire is unused. -/
def unused (proto : PriProtocol) (i : Nat) : Bool :=
  match proto with
  | .e1 => i == 0
  | .t1 => i % 4 == 0
  | _ => false

/-- The D-channel is watched as it is sent, and its first sample clobbered for the next tick. -/
def dchanSent (x : PriXpd) : PriXpd :=
  let d := x.dchanIdx
  let chan := x.xpd.chans d
  let sample := firstOf chan.writechunk
  if x.dchanTxSample ≠ sample then { x with dchanTxSample := sample }
  else if sample = 0xFF then dchanStop x
  else { x with xpd := setChan x.xpd d { chan with writechunk := setFirst chan.writechunk 0xFF } }

structure PriSent where
  x : PriXpd
  pcm : List (BitVec 8)
  physicalChan : Nat
  physicalMask : Lines

/-- `xlawZero` is the silence of the channel's law. -/
def priSendLine (xlawZero : BitVec 8) (wantedLines : Lines) (sent : PriSent) (i : Nat) : PriSent :=
  let physicalChan := sent.physicalChan + unusedBefore sent.x.priProtocol i
  if wantedLines.getLsbD i then
    let chunk :=
      if sent.x.xpd.registered then (sent.x.xpd.chans i).writechunk else Vector.replicate 8 xlawZero
    let x := if sent.x.xpd.registered ∧ i = sent.x.dchanIdx then dchanSent sent.x else sent.x
    ⟨x, sent.pcm ++ chunk.toList, physicalChan + 1, LineMask.set sent.physicalMask physicalChan⟩
  else { sent with physicalChan := physicalChan + 1 }

def priCardPcmFromspan (xlawZero : BitVec 8) (x : PriXpd) (pack : Xpacket) : PriXpd × Xpacket :=
  let sent := (List.range x.xpd.channels).foldl (priSendLine xlawZero x.xpd.wantedPcmMask) ⟨x, [], 0, 0⟩
  (sent.x, { pack with lines := sent.physicalMask, pcm := sent.pcm })

/-- The D-channel is watched as it comes in. -/
def dchanTaken (x : PriXpd) (sample : BitVec 8) : PriXpd :=
  if x.dchanRxSample ≠ sample then { x with dchanRxSample := sample }
  else if sample = 0xFF then dchanStop x
  else x

structure PriGot where
  x : PriXpd
  pcm : Nat
  logicalChan : Nat

def priTakeLine (pack : Xpacket) (got : PriGot) (i : Nat) : PriGot :=
  if unused got.x.priProtocol i then got
  else
    let x :=
      if got.logicalChan = got.x.dchanIdx ∧ got.x.isCas = 0 then dchanTaken got.x (pack.pcm.getD got.pcm 0)
      else got.x
    if pack.lines.getLsbD i then
      ⟨{ x with xpd := setRead x.xpd got.logicalChan (chunkAt pack got.pcm) }, got.pcm + DAHDI_CHUNKSIZE,
        got.logicalChan + 1⟩
    else ⟨x, got.pcm, got.logicalChan + 1⟩

def priCardPcmTospan (x : PriXpd) (pack : Xpacket) : PriXpd :=
  if x.xpd.registered then ((List.range CHANNELS_PERXPD).foldl (priTakeLine pack) ⟨x, 0, 0⟩).x else x

end Pri
end Xpp

/-!
A packet that card_pcm_fromspan has filled, looped back to card_pcm_tospan. Writer and
reader of a card agree when each advances over the same slots of the mask.
-/
namespace PcmTrip
open Xpp LineMask PackedSlots

section Lines
variable {xpd : Xpd} {pack : Xpacket}

theorem set_chan_self (xpd : Xpd) (i : Nat) (chan : Chan) : (setChan xpd i chan).chans i = chan := by
  unfold setChan
  dsimp only
  rw [Function.update_self]

theorem set_chan_other {i j : Nat} (other : j ≠ i) (chan : Chan) :
    (setChan xpd i chan).chans j = xpd.chans j := by
  unfold setChan
  exact Function.update_of_ne other ..

theorem set_read_self (xpd : Xpd) (i : Nat) (chunk : Chunk) :
    ((setRead xpd i chunk).chans i).readchunk = chunk := by
  unfold setRead
  rw [set_chan_self]

theorem set_read_other {i j : Nat} (other : j ≠ i) (chunk : Chunk) :
    (setRead xpd i chunk).chans j = xpd.chans j := set_chan_other other _

theorem rank_count (mask : Lines) (n : Nat) : rank mask.getLsbD n = count mask n := by
  induction n with
  | zero => rfl
  | succ n ih => rw [rank, count, ih]

/-- The chunks of the wanted lines before n, behind what was written. -/
theorem send_lines (xpd : Xpd) (pcm : List (BitVec 8)) (n : Nat) :
    (List.range n).foldl
        (fun pcm i => if xpd.wantedPcmMask.getLsbD i then pcm ++ (sentChunk xpd i).toList else pcm) pcm =
      pcm ++ packed xpd.wantedPcmMask.getLsbD (sentChunk xpd) n := by
  induction n with
  | zero => rw [packed, List.append_nil, List.range_zero, List.foldl_nil]
  | succ n ih =>
    rw [List.range_succ, List.foldl_append, ih, List.foldl_cons, List.foldl_nil, packed]
    split
    · rw [List.append_assoc]
    · rw [List.append_nil]

end Lines

section Generic
variable {xpd : Xpd}

/-- What the reader's loop has done to the first n lines. -/
structure GenericRead (xpd : Xpd) (pack : Xpacket) (n : Nat) (got : Xpd × Nat) : Prop where
  pcm : got.2 = 8 * rank pack.lines.getLsbD n
  read : ∀ j < n, pack.lines.getLsbD j = true → xpd.wantedPcmMask.getLsbD j = true →
    (got.1.chans j).readchunk = chunkAt pack (8 * rank pack.lines.getLsbD j)

theorem generic_take_read {pack : Xpacket} {n : Nat} {got : Xpd × Nat} {pcmMute : Lines}
    (small : n < 32) (mute : pcmMute = ~~~ xpd.wantedPcmMask) (before : GenericRead xpd pack n got) :
    GenericRead xpd pack (n + 1) (genericTakeLine pack pcmMute got n) := by
  unfold genericTakeLine DAHDI_CHUNKSIZE
  dsimp only
  constructor
  · rw [rank, before.pcm]
    cases pack.lines.getLsbD n <;> simp [Nat.mul_add]
  · intro j inside data wanted
    by_cases last : j = n
    · subst last
      have open_ : pcmMute.getLsbD j = false := by
        rw [mute, BitVec.getLsbD_not, wanted]
        simp
      dsimp only
      rw [data, open_, if_pos (by decide), set_read_self, before.pcm]
    · have kept (chunk : Chunk) : ((setRead got.1 n chunk).chans j).readchunk = (got.1.chans j).readchunk := by
        rw [set_read_other last]
      have := before.read j (by omega) data wanted
      dsimp only
      split
      · rw [kept, this]
      · split
        · rw [kept, this]
        · exact this

theorem generic_trip (channels : xpd.channels ≤ 32) (dtmf : xpd.muteDtmf = 0) (silent : xpd.silencePcm = 0)
    (registered : xpd.registered = true) (pack : Xpacket) {i : Nat} (inside : i < xpd.channels)
    (wanted : xpd.wantedPcmMask.getLsbD i = true) :
    ((genericCardPcmTospan xpd (genericCardPcmFromspan xpd pack)).chans i).readchunk =
      (xpd.chans i).writechunk := by
  have read : ∀ n ≤ xpd.channels, GenericRead xpd (genericCardPcmFromspan xpd pack) n
      ((List.range n).foldl (genericTakeLine (genericCardPcmFromspan xpd pack)
        (~~~ xpd.wantedPcmMask ||| (xpd.muteDtmf ||| xpd.silencePcm))) (xpd, 0)) := by
    intro n
    induction n with
    | zero =>
      intro _
      constructor
      · rfl
      · intro j inside
        omega
    | succ n ih =>
      intro most
      rw [List.range_succ, List.foldl_append, List.foldl_cons, List.foldl_nil]
      apply generic_take_read (by omega) _ (ih (by omega))
      rw [dtmf, silent]
      simp
  have last := (read xpd.channels (Nat.le_refl _)).read i inside wanted wanted
  unfold genericCardPcmTospan
  rw [registered, if_pos rfl, last]
  unfold chunkAt genericCardPcmFromspan sendLines
  dsimp only
  rw [send_lines, List.nil_append, slot_packed 0 inside wanted, sentChunk, registered, if_pos rfl]

end Generic
end PcmTrip
