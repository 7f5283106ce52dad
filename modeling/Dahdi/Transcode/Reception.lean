import Mathlib

/-!
RTP packets from the card of a transcoder: queued to the channel of their UDP port, and
read from its queue.
-/
namespace RtpReception

/-- struct tcb of a received packet: the memory from cmd->data on, of which the card has
    written the first data_len bytes. -/
structure Tcb where
  data : Nat → BitVec 8
  dataLen : Nat

/-- The memory of the user that read may write to, from the start of its buffer. User space
    ends below 2^63. -/
structure Frame where
  writable : Nat
  below : writable < 2 ^ 63

inductive Transcoder where
  | udecode
  | uencode
  deriving DecidableEq, Repr

/-- struct wcdte: the rx_queue of every channel. -/
structure Wcdte where
  numchannels : BitVec 8
  rxQueue : Transcoder → Nat → List Tcb

namespace Tcb

/-- be16_to_cpu of two bytes. -/
def be16 (c : Tcb) (i : Nat) : Nat := (c.data i).toNat * 256 + (c.data (i + 1)).toNat

def ihl (c : Tcb) : Nat := (c.data 14).toNat % 16

/-- packet->udphdr.dest -/
def dest (c : Tcb) : Nat := c.be16 36

/-- packet->udphdr.len -/
def udpLen (c : Tcb) : Nat := c.be16 38

/-- packet->rtphdr.type -/
def type (c : Tcb) : Nat := (c.data 43).toNat % 128

def payloadBytes (c : Tcb) : BitVec 64 := BitVec.ofNat 64 c.udpLen - 12 - 8

/-- `n` bytes from packet->payload on. -/
def payload (c : Tcb) (n : Nat) : List (BitVec 8) := (List.range n).map fun i => c.data (54 + i)

end Tcb

def select (type : Nat) : Option Transcoder :=
  match type with
  | 0x00 => some .udecode
  | 0x08 => some .udecode
  | 0x04 => some .uencode
  | 0x12 => some .uencode
  | _ => none

/-- The difference is an int, and its half is stored in an unsigned. -/
def channelIndex (dest : Nat) : BitVec 32 := BitVec.ofInt 32 (Int.tdiv ((dest : Int) - 0x5000) 2)

def enqueue (wc : Wcdte) (t : Transcoder) (index : Nat) (c : Tcb) : Wcdte :=
  { wc with rxQueue := fun t' i =>
      if t' = t ∧ i = index then wc.rxQueue t' i ++ [c] else wc.rxQueue t' i }

/-- queue_rtp_packet; `ipFastCsum` is the kernel's checksum of a header of so many words. -/
def queueRtpPacket (ipFastCsum : (Nat → BitVec 8) → Nat → BitVec 16) (wc : Wcdte) (c : Tcb) :
    Wcdte :=
  if ipFastCsum (fun i => c.data (14 + i)) c.ihl ≠ 0 then wc
  else if ¬ (channelIndex c.dest).toNat < wc.numchannels.toNat then wc
  else
    match select c.type with
    | some t => enqueue wc t (channelIndex c.dest).toNat c
    | none => wc

inductive Outcome where
  | bytes (frame : List (BitVec 8))
  | eio
  | eagain
  | waits
  | efbig
  | efault
  deriving DecidableEq, Repr

/-- What read does: its result, and the queue that it leaves. -/
structure Read where
  outcome : Outcome
  rxQueue : List Tcb

/-- The loop of wctc4xxp_read at a packet that get_ready_cmd has taken. `frame` is what was
    copied so far. -/
def readLoop (user : Frame) (count : BitVec 64) (frame : List (BitVec 8)) (returned : BitVec 64)
    (c : Tcb) (queue : List Tcb) : Read :=
  if count < c.payloadBytes + returned then
    if returned ≠ 0 then ⟨.bytes frame, c :: queue⟩ else ⟨.efbig, queue⟩
  else if user.writable < returned.toNat + c.payloadBytes.toNat then ⟨.efault, queue⟩
  else
    match queue with
    | [] => ⟨.bytes (frame ++ c.payload c.payloadBytes.toNat), []⟩
    | next :: rest =>
      readLoop user count (frame ++ c.payload c.payloadBytes.toNat) (returned + c.payloadBytes)
        next rest

/-- wctc4xxp_read. A blocking read of an empty queue waits for a packet. -/
def read (user : Frame) (count : BitVec 64) (shutdown nonblock : Bool) (queue : List Tcb) : Read :=
  if shutdown then ⟨.eio, queue⟩
  else
    match queue with
    | [] => ⟨if nonblock then .eagain else .waits, []⟩
    | c :: rest => readLoop user count [] 0 c rest

section Port
variable {ipFastCsum : (Nat → BitVec 8) → Nat → BitVec 16} {wc : Wcdte} {c : Tcb}

/-- The transcoder of a payload type and the channel of a port. -/
def place (numchannels : Nat) (dest type : Nat) : Option (Transcoder × Nat) :=
  if 0x5000 ≤ dest ∧ dest < 0x5000 + 2 * numchannels then
    (select type).map fun t => (t, (dest - 0x5000) / 2)
  else none

theorem be16_lt (c : Tcb) (i : Nat) : c.be16 i < 0x10000 := by
  have high := (c.data i).isLt
  have low := (c.data (i + 1)).isLt
  rw [Tcb.be16]
  omega

/-- Ports from two below 0x5000 down have the sign bit of their index set. -/
theorem index_port {dest : Nat} (bound : dest < 0x10000) (unlike : dest ≠ 0x4fff)
    (n : BitVec 8) :
    ((channelIndex dest).toNat < n.toNat ↔ 0x5000 ≤ dest ∧ dest < 0x5000 + 2 * n.toNat) ∧
      (0x5000 ≤ dest → (channelIndex dest).toNat = (dest - 0x5000) / 2) := by
  have small := n.isLt
  rw [channelIndex, BitVec.toNat_ofInt]
  by_cases above : 0x5000 ≤ dest
  · have half : Int.tdiv ((dest : Int) - 0x5000) 2 = ((dest - 0x5000) / 2 : Nat) := by
      rw [Int.tdiv_eq_ediv_of_nonneg (by omega)]
      omega
    rw [half]
    omega
  · have half : Int.tdiv ((dest : Int) - 0x5000) 2 = -((0x5000 - dest) / 2 : Nat) := by
      rw [← Int.neg_sub, Int.neg_tdiv, Int.tdiv_eq_ediv_of_nonneg (by omega)]
      omega
    rw [half]
    omega

/-- A packet with a valid checksum is queued to the place that its port and type name, and
    nowhere else. -/
theorem queued_place (valid : ipFastCsum (fun i => c.data (14 + i)) c.ihl = 0)
    (unlike : c.dest ≠ 0x4fff) :
    queueRtpPacket ipFastCsum wc c =
      match place wc.numchannels.toNat c.dest c.type with
      | some (t, index) => enqueue wc t index c
      | none => wc := by
  obtain ⟨below, half⟩ : ((channelIndex c.dest).toNat < wc.numchannels.toNat ↔
      0x5000 ≤ c.dest ∧ c.dest < 0x5000 + 2 * wc.numchannels.toNat) ∧
      (0x5000 ≤ c.dest → (channelIndex c.dest).toNat = (c.dest - 0x5000) / 2) :=
    index_port (be16_lt c 36) unlike wc.numchannels
  rw [queueRtpPacket, if_neg (not_not_intro valid), place]
  by_cases inside : 0x5000 ≤ c.dest ∧ c.dest < 0x5000 + 2 * wc.numchannels.toNat
  · rw [if_neg (not_not_intro (below.mpr inside)), if_pos inside, half inside.1]
    cases select c.type <;> rfl
  · rw [if_pos (mt below.mp inside), if_neg inside]

/-- The half of an odd difference below zero is rounded up to zero. -/
example : channelIndex 0x4fff = 0 := by decide

end Port

section Queue
variable {user : Frame} {count returned : BitVec 64} {c : Tcb} {queue : List Tcb}
  {frame : List (BitVec 8)}

/-- The payload by the UDP length lies inside what the card has written. -/
def Whole (c : Tcb) : Prop := 20 ≤ c.udpLen ∧ 34 + c.udpLen ≤ c.dataLen

instance (c : Tcb) : Decidable (Whole c) := inferInstanceAs (Decidable (_ ∧ _))

/-- The bytes that the card has written. -/
def received (c : Tcb) : List (BitVec 8) := (List.range c.dataLen).map c.data

def rtpPayload (c : Tcb) : List (BitVec 8) := ((received c).drop 54).take (c.udpLen - 20)

/-- How many packets from the head of a queue have room for their payloads. -/
def fitting (room : Nat) : List Tcb → Nat
  | [] => 0
  | c :: rest =>
    if c.udpLen - 20 ≤ room then fitting (room - (c.udpLen - 20)) rest + 1 else 0

/-- What read returns with these bytes copied and these packets left on the queue. If
    nothing could be returned for want of room, the packet at the head is dropped. -/
def handOver (frame : List (BitVec 8)) : List Tcb → Read
  | [] => ⟨.bytes frame, []⟩
  | c :: rest => if frame = [] then ⟨.efbig, rest⟩ else ⟨.bytes frame, c :: rest⟩

theorem payloadBytes_toNat (whole : Whole c) : c.payloadBytes.toNat = c.udpLen - 20 := by
  have bound := be16_lt c 38
  obtain ⟨enough, _⟩ := whole
  change c.udpLen < _ at bound
  rw [Tcb.payloadBytes, BitVec.toNat_sub, BitVec.toNat_sub, BitVec.toNat_ofNat]
  have twelve : (12 : BitVec 64).toNat = 12 := rfl
  have eight : (8 : BitVec 64).toNat = 8 := rfl
  omega

theorem payload_received (whole : Whole c) : c.payload (c.udpLen - 20) = rtpPayload c := by
  obtain ⟨enough, inside⟩ := whole
  refine List.ext_getElem ?_ ?_
  · simp only [Tcb.payload, rtpPayload, received, List.length_map, List.length_range,
      List.length_take, List.length_drop]
    omega
  · intro i _ _
    simp only [Tcb.payload, rtpPayload, received, List.getElem_map, List.getElem_range,
      List.getElem_take, List.getElem_drop]

theorem rtpPayload_length (whole : Whole c) : (rtpPayload c).length = c.udpLen - 20 := by
  rw [← payload_received whole, Tcb.payload, List.length_map, List.length_range]

/-- The comparison of the unsigned sum with the count is the one of the numbers. -/
theorem fits_iff (whole : Whole c) (small : count.toNat < 2 ^ 63) (held : returned ≤ count) :
    count < c.payloadBytes + returned ↔ count.toNat - returned.toNat < c.udpLen - 20 := by
  have bound := be16_lt c 38
  change c.udpLen < _ at bound
  rw [BitVec.lt_def, BitVec.toNat_add, payloadBytes_toNat whole]
  have := BitVec.le_def.mp held
  omega

/-- What read hands over of a queue with `frame` copied and so much room left. -/
def handed (frame : List (BitVec 8)) (room : Nat) (queue : List Tcb) : Read :=
  handOver (frame ++ (queue.take (fitting room queue)).flatMap rtpPayload)
    (queue.drop (fitting room queue))

theorem handed_nil (room : Nat) : handed frame room [] = ⟨.bytes frame, []⟩ := by
  rw [handed, List.take_nil, List.drop_nil, List.flatMap_nil, List.append_nil]
  rfl

theorem handed_fits {room : Nat} (fits : c.udpLen - 20 ≤ room) :
    handed frame room (c :: queue) =
      handed (frame ++ rtpPayload c) (room - (c.udpLen - 20)) queue := by
  rw [handed, fitting, if_pos fits, List.take_succ_cons, List.drop_succ_cons, List.flatMap_cons,
    ← List.append_assoc]
  rfl

theorem handed_full {room : Nat} (full : room < c.udpLen - 20) :
    handed frame room (c :: queue) = handOver frame (c :: queue) := by
  rw [handed, fitting, if_neg (Nat.not_le.mpr full), List.take_zero, List.drop_zero,
    List.flatMap_nil, List.append_nil]

/-- The loop at a packet for which there is no room. -/
theorem readLoop_full (whole : Whole c) (small : count.toNat < 2 ^ 63) (held : returned ≤ count)
    (copied : frame.length = returned.toNat)
    (full : count.toNat - returned.toNat < c.udpLen - 20) :
    readLoop user count frame returned c queue = handOver frame (c :: queue) := by
  rw [readLoop.eq_def, if_pos ((fits_iff whole small held).mpr full), handOver]
  by_cases none_ : frame = []
  · have zero : returned = 0 := by
      rw [none_] at copied
      exact BitVec.eq_of_toNat_eq copied.symm
    rw [if_neg (not_not_intro zero), if_pos none_]
  · have some_ : returned ≠ 0 := by
      rintro rfl
      exact none_ (List.length_eq_zero_iff.mp copied)
    rw [if_pos some_, if_neg none_]

/-- The loop copies the payload of a packet for which there is room. -/
theorem readLoop_copied (room : count.toNat ≤ user.writable) (whole : Whole c)
    (held : returned ≤ count) (fits : c.udpLen - 20 ≤ count.toNat - returned.toNat) :
    readLoop user count frame returned c queue =
      match queue with
      | [] => ⟨.bytes (frame ++ rtpPayload c), []⟩
      | next :: rest =>
        readLoop user count (frame ++ rtpPayload c) (returned + c.payloadBytes) next rest := by
  have small := Nat.lt_of_le_of_lt room user.below
  have := BitVec.le_def.mp held
  rw [readLoop.eq_def, if_neg, if_neg, payloadBytes_toNat whole, payload_received whole]
  · rw [payloadBytes_toNat whole]
    omega
  · rw [fits_iff whole small held]
    omega

/-- The loop hands over the payloads of the packets that fit. -/
theorem readLoop_handed (room : count.toNat ≤ user.writable) (wholes : ∀ p ∈ c :: queue, Whole p)
    (held : returned ≤ count) (copied : frame.length = returned.toNat) :
    readLoop user count frame returned c queue =
      handed frame (count.toNat - returned.toNat) (c :: queue) := by
  have small := Nat.lt_of_le_of_lt room user.below
  induction queue generalizing c frame returned with
  | nil =>
    have whole := wholes c List.mem_cons_self
    by_cases fits : c.udpLen - 20 ≤ count.toNat - returned.toNat
    · rw [readLoop_copied room whole held fits, handed_fits fits, handed_nil]
    · rw [readLoop_full whole small held copied (by omega), handed_full (by omega)]
  | cons next rest ih =>
    have whole := wholes c List.mem_cons_self
    by_cases fits : c.udpLen - 20 ≤ count.toNat - returned.toNat
    · have bound := BitVec.le_def.mp held
      have total : (returned + c.payloadBytes).toNat = returned.toNat + (c.udpLen - 20) := by
        rw [BitVec.toNat_add, payloadBytes_toNat whole]
        omega
      rw [readLoop_copied room whole held fits, handed_fits fits]
      dsimp only
      rw [ih (fun p member => wholes p (List.mem_cons_of_mem _ member)), total, Nat.sub_add_eq]
      · rw [BitVec.le_def, total]
        omega
      · rw [List.length_append, copied, rtpPayload_length whole, total]
    · rw [readLoop_full whole small held copied (by omega), handed_full (by omega)]

/-- read hands over the payloads of the longest prefix of the queue that has room. -/
theorem read_handOver (room : count.toNat ≤ user.writable) (some_ : queue ≠ [])
    (wholes : ∀ p ∈ queue, Whole p) (nonblock : Bool) :
    read user count false nonblock queue =
      handOver ((queue.take (fitting count.toNat queue)).flatMap rtpPayload)
        (queue.drop (fitting count.toNat queue)) := by
  cases queue with
  | nil => exact absurd rfl some_
  | cons c rest =>
    rw [read, if_neg Bool.false_ne_true]
    exact readLoop_handed room wholes (Nat.zero_le _) rfl

/-- A queue without packets is left as it is. -/
theorem read_empty (nonblock : Bool) :
    read user count false nonblock [] = ⟨if nonblock then .eagain else .waits, []⟩ := rfl

end Queue

section Reception

/-- Packets with a valid checksum go to the channel of their port and type, if there is one.
    A read of whole packets hands over the payloads of the longest prefix for which there
    is room, and leaves the rest queued; only if it can return nothing does it drop the
    packet that is too long. -/
theorem reception (ipFastCsum : (Nat → BitVec 8) → Nat → BitVec 16) (wc : Wcdte) (c : Tcb)
    (valid : ipFastCsum (fun i => c.data (14 + i)) c.ihl = 0) (unlike : c.dest ≠ 0x4fff)
    (user : Frame) (count : BitVec 64) (room : count.toNat ≤ user.writable) (queue : List Tcb)
    (wholes : ∀ p ∈ queue, Whole p) (nonblock : Bool) :
    (queueRtpPacket ipFastCsum wc c =
      match place wc.numchannels.toNat c.dest c.type with
      | some (t, index) => enqueue wc t index c
      | none => wc) ∧
    read user count false nonblock queue =
      if queue = [] then ⟨if nonblock then .eagain else .waits, []⟩
      else handOver ((queue.take (fitting count.toNat queue)).flatMap rtpPayload)
        (queue.drop (fitting count.toNat queue)) := by
  refine ⟨queued_place valid unlike, ?_⟩
  split
  case isTrue none_ => rw [none_, read_empty]
  case isFalse some_ => exact read_handOver room some_ wholes nonblock

/-- The checksum of a header: the complement of the sum of its 16 bit words, with the
    carries added at the end. -/
def headerSum (header : Nat → BitVec 8) (ihl : Nat) : BitVec 16 :=
  let sum := ((List.range (2 * ihl)).map fun i =>
    (header (2 * i)).toNat * 256 + (header (2 * i + 1)).toNat).sum
  let folded := sum % 65536 + sum / 65536
  ~~~ BitVec.ofNat 16 (folded % 65536 + folded / 65536)

/-- A packet of 20 bytes for the first channel. -/
def smallPacket : Tcb where
  data i :=
    if i = 14 then 0x45 else if i = 24 then 0xba else if i = 25 then 0xff
    else if i = 36 then 0x50 else if i = 39 then 40 else 0
  dataLen := 74

def idle : Wcdte := ⟨4, fun _ _ => []⟩

theorem smallPacket_whole : ∀ p ∈ [smallPacket], Whole p := by
  intro p member
  rw [List.mem_singleton.mp member]
  decide

theorem reception_small :
    (queueRtpPacket headerSum idle smallPacket =
      match place idle.numchannels.toNat smallPacket.dest smallPacket.type with
      | some (t, index) => enqueue idle t index smallPacket
      | none => idle) ∧
    read ⟨160, by decide⟩ 160 false true [smallPacket] =
      if [smallPacket] = [] then ⟨if true then .eagain else .waits, []⟩
      else handOver
        (([smallPacket].take (fitting (160 : BitVec 64).toNat [smallPacket])).flatMap rtpPayload)
        ([smallPacket].drop (fitting (160 : BitVec 64).toNat [smallPacket])) :=
  reception headerSum idle smallPacket (by decide) (by decide) ⟨160, by decide⟩ 160 (by decide)
    [smallPacket] smallPacket_whole true

/-- The read has returned the payloads of a prefix of the queue and left the rest. -/
def ReturnsPrefix (r : Read) (queue : List Tcb) : Prop :=
  ∃ k, r.rxQueue = queue.drop k ∧
    (match r.outcome with
      | .bytes frame => frame
      | _ => []) = (queue.take k).flatMap rtpPayload

/-- A packet that is longer than the buffer is gone after the read. -/
theorem long_packet_dropped :
    ¬ ReturnsPrefix (read ⟨10, by decide⟩ 10 false true [smallPacket]) [smallPacket] := by
  have dropped : read ⟨10, by decide⟩ 10 false true [smallPacket] = ⟨.efbig, []⟩ := rfl
  rintro ⟨k, left, same⟩
  rw [dropped] at left same
  cases k with
  | zero => cases left
  | succ k =>
    have length := congrArg List.length same
    rw [List.take_succ_cons, List.take_nil, List.flatMap_singleton,
      rtpPayload_length (smallPacket_whole _ List.mem_cons_self)] at length
    exact absurd length (by decide)

end Reception

end RtpReception
