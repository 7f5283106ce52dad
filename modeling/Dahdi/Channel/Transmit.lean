import Dahdi.Channel.Buffers

/-!
The transmitter: __dahdi_getbuf_chunk and dahdi_hdlc_getbuf.
-/
namespace Channel
open Fasthdlc
variable {T : Type}

/-- The HDLC octets of one pass over the current write buffer. -/
def hdlcSendLoop (buf : Buffer) : Nat → State → Int → List Octet × State × Int
  | 0, h, idx => ([], h, idx)
  | left + 1, h, idx =>
    let (h, idx) :=
      if fasthdlcTxNeedData h then (fasthdlcTxLoadNocheck h (buf idx.toNat), idx + 1) else (h, idx)
    let (b, h) := fasthdlcTxRunNocheck h
    let (txb, h, idx) := hdlcSendLoop buf left h idx
    (b :: txb, h, idx)

/-- The idle octets of an HDLC channel. -/
def hdlcIdleLoop : Nat → State → List Octet × State
  | 0, h => ([], h)
  | left + 1, h =>
    let h := if fasthdlcTxNeedData h then fasthdlcTxFrameNocheck h else h
    let (b, h) := fasthdlcTxRunNocheck h
    let (txb, h) := hdlcIdleLoop left h
    (b :: txb, h)

def toneLoop (env : Env T) (lin2x : Int → Octet) : Nat → T → List Octet × T
  | 0, ts => ([], ts)
  | left + 1, ts =>
    let (getlin, ts) := env.toneNextsample ts
    let (txb, ts) := toneLoop env lin2x left ts
    (lin2x getlin :: txb, ts)

def startsWhenFull (chan : Chan T) : Bool :=
  decide (chan.txbufpolicy = .whenFull ∨ chan.txbufpolicy = .halfFull)

/-- "Check buffer status" of __dahdi_getbuf_chunk. -/
def getbufStatus (ms : Chan T) : Chan T :=
  let oldbuf := ms.write.outbuf
  let w := ms.write
  if w.idx oldbuf.toNat < w.n oldbuf.toNat then ms
  else
    let w := { w with idx := set w.idx oldbuf.toNat 0 }
    let next := (oldbuf + 1) % ms.numbufs
    let last := decide (next = w.inbuf)
    let w :=
      if !ms.flags.mtp2 then { w with n := set w.n oldbuf.toNat 0 }.release ms.numbufs oldbuf
      -- MTP2 keeps sending the last message
      else if last then w
      else w.release ms.numbufs oldbuf
    { ms with
      write := w
      txdisable := if last && startsWhenFull ms then true else ms.txdisable
      txhdlc := if ms.flags.hdlc then fasthdlcTxFrameNocheck ms.txhdlc else ms.txhdlc }

def setTxhdlc (ms : Chan T) (h : State) : Chan T := { ms with txhdlc := h }

def setWriteIdx (ms : Chan T) (x : Nat) (v : Int) : Chan T :=
  { ms with write := { ms.write with idx := set ms.write.idx x v } }

/-- One pass of the while loop: octets written, the channel, the bytes still
    wanted and whether the transmitter had nothing to send. -/
def getbufPass (env : Env T) (ms : Chan T) (bytes : Int) :
    Option (List Octet × Chan T × Int × Bool) :=
  if -1 < ms.write.outbuf ∧ ms.txdisable = false then
    let out := ms.write.outbuf.toNat
    match ms.write.buf out with
    | none => none
    | some buf =>
      let left := min (ms.write.n out - ms.write.idx out) bytes
      if ms.flags.hdlc then
        let (txb, h, idx) := hdlcSendLoop buf left.toNat ms.txhdlc (ms.write.idx out)
        some (txb, getbufStatus (setWriteIdx (setTxhdlc ms h) out idx), bytes - left, false)
      else if left < 0 then none
      else
        let txb := bytesOf buf (ms.write.idx out).toNat left.toNat
        some (txb, getbufStatus (setWriteIdx ms out (ms.write.idx out + left)), bytes - left, false)
  else if env.curtone ms.tones = true ∧ ms.pseudo = false then
    let left := min (env.toneLeft ms.tones) bytes
    let (txb, ts) := toneLoop env ms.lin2x left.toNat ms.tones
    some (txb, { ms with tones := env.tonePlayed ts left }, bytes - left, false)
  else if ms.flags.looped then some (bytesOf ms.readchunk 0 bytes.toNat, ms, 0, false)
  else if ms.flags.hdlc then
    let (txb, h) := hdlcIdleLoop bytes.toNat ms.txhdlc
    some (txb, setTxhdlc ms h, 0, false)
  else
    let idle := if ms.flags.clear && !ms.flags.audio then 0xff#8 else ms.lin2x 0
    some (List.replicate bytes.toNat idle, ms, 0, true)

def getbufLoop (env : Env T) : Nat → Chan T → Int → Option (List Octet × Chan T × Bool)
  | 0, _, _ => none
  | fuel + 1, ms, bytes =>
    if bytes = 0 then some ([], ms, false)
    else match getbufPass env ms bytes with
      | none => none
      | some (txb, ms, bytes, under) =>
        match getbufLoop env fuel ms bytes with
        | none => none
        | some (rest, ms, later) => some (txb ++ rest, ms, under || later)

/-- __dahdi_getbuf_chunk -/
def getbufChunk (env : Env T) (fuel : Nat) (ms : Chan T) : Option (List Octet × Chan T) :=
  match getbufLoop env fuel ms chunksize with
  | none => none
  | some (txb, ms, needtxunderrun) =>
    if needtxunderrun then
      if ms.txunderrun then some (txb, ms)
      else
        let ms := if ms.flags.bufevents then qevent ms eventWriteUnderrun else ms
        some (txb, { ms with txunderrun := true })
    else some (txb, { ms with txunderrun := false })

/-- dahdi_hdlc_getbuf: the result, the data copied, the size stored and the channel. -/
def hdlcGetbuf (ss : Chan T) (size : BitVec 32) :
    Option (Int × List Octet × BitVec 32 × Chan T) :=
  if -1 < ss.write.outbuf then
    let out := ss.write.outbuf.toNat
    -- the two bytes of the frame check are not passed on
    let left : BitVec 32 := BitVec.ofInt 32 (ss.write.n out - ss.write.idx out - 2)
    let eof := decide (left ≤ size)
    let size := if eof then left else size
    match ss.write.buf out with
    | none => none
    | some buf =>
      let data := bytesOf buf (ss.write.idx out).toNat size.toNat
      let w := { ss.write with idx := set ss.write.idx out (ss.write.idx out + size.toInt) }
      if eof then
        let last := decide ((ss.write.outbuf + 1) % ss.numbufs = w.inbuf)
        let w := { w with idx := set w.idx out 0, n := set w.n out 0 }
        some (if last then -1 else 1, data, size,
          { ss with
            write := w.release ss.numbufs ss.write.outbuf
            txdisable := if last && startsWhenFull ss then true else ss.txdisable })
      else some (0, data, size, { ss with write := w })
  else some (-1, [], 0, ss)

end Channel
