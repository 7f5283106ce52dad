import Dahdi.Channel.State

/-!
The buffer operations of dahdi-base.c, each one critical section of the channel
lock. Reading or writing through a NULL buffer, a copy of negative size and a
loop that does not end have no result. The channel is its own master.
-/
namespace Channel
open Fasthdlc
variable {T : Type}

/-- The filler is done with a buffer: go to the next, or to -1 when that is
    where the consumer stands, and give the consumer a place to start. -/
def Ring.handOver (r : Ring) (numbufs : Nat) (oldbuf : Int) : Ring :=
  let next := (oldbuf + 1) % numbufs
  { r with
    inbuf := if next = r.outbuf then -1 else next
    outbuf := if r.outbuf < 0 then oldbuf else r.outbuf
    filled := r.filled ++ [oldbuf.toNat] }

/-- The consumer is done with a buffer. -/
def Ring.release (r : Ring) (numbufs : Nat) (oldbuf : Int) : Ring :=
  let next := (oldbuf + 1) % numbufs
  { r with
    outbuf := if next = r.inbuf then -1 else next
    inbuf := if r.inbuf < 0 then oldbuf else r.inbuf
    filled := r.filled.erase oldbuf.toNat }

/-- All buffers empty and the filler at the given index. -/
def Ring.clear (r : Ring) (numbufs : Nat) (inbuf : Int) : Ring :=
  { r with
    n := fun x => if x < numbufs then 0 else r.n x
    idx := fun x => if x < numbufs then 0 else r.idx x
    inbuf := inbuf
    outbuf := -1
    filled := [] }

def clampNumbufs (numbufs : Int) : Nat :=
  if numbufs < 2 then 2 else if maxNumBufs < numbufs then maxNumBufs.toNat else numbufs.toNat

theorem clamp_range (numbufs : Int) : 2 ≤ clampNumbufs numbufs ∧ clampNumbufs numbufs ≤ 32 := by
  unfold clampNumbufs maxNumBufs
  split
  · omega
  · split
    · decide
    · omega

def Ring.realloc (r : Ring) (numbufs : Nat) (allocated : Bool) : Ring :=
  let fresh : Ring := { r with
    buf := fun x => if x < numbufs then (if allocated then some fun _ => 0 else none) else r.buf x }
  fresh.clear numbufs (if allocated then 0 else -1)

/-- dahdi_reallocbufs; `tx` and `rx` say whether each kzalloc succeeds. -/
def reallocbufs (ss : Chan T) (blocksize numbufs : Int) (tx rx : Bool) : Int × Chan T :=
  let numbufs := clampNumbufs numbufs
  let allocated := decide (blocksize ≠ 0)
  if allocated && !(tx && rx) then (-12, ss)
  else (0, { ss with
    blocksize := blocksize
    read := ss.read.realloc numbufs allocated
    write := ss.write.realloc numbufs allocated
    numbufs := numbufs
    txdisable := decide (ss.txbufpolicy = .whenFull ∨ ss.txbufpolicy = .halfFull) })

def numFilledBufs (chan : Chan T) : Int :=
  if chan.write.inbuf < 0 then chan.numbufs
  else if chan.write.outbuf < 0 then 0
  else if chan.write.outbuf ≤ chan.write.inbuf then chan.write.inbuf - chan.write.outbuf
  else chan.numbufs - chan.write.outbuf + chan.write.inbuf

def fcsOver (env : Env T) (fcs : BitVec 32) (data : List Octet) : BitVec 32 :=
  data.foldl env.pppFcs fcs

/-- calc_fcs on a buffer holding len bytes. -/
def calcFcs (env : Env T) (data : Buffer) (len : Nat) : Buffer :=
  if len < 2 then data
  else
    let fcs := fcsOver env env.pppInitfcs (bytesOf data 0 (len - 2)) ^^^ 0xffff#32
    set (set data (len - 2) (fcs.setWidth 8)) (len - 1) ((fcs >>> 8).setWidth 8)

/-- A short of the user's buffer, on a little-endian machine. -/
def userShort (usr : List Octet) (x : Nat) : Int :=
  (usr.getD (2 * x + 1) 0 ++ usr.getD (2 * x) 0).toInt

def elast : Int := 500
def eagain : Int := 11

/-- The first critical section of dahdi_chan_write: the index to fill, or the
    negated error. A user tone ends, events come first. -/
def chanWriteStart (env : Env T) (chan : Chan T) : Int × Chan T :=
  let chan :=
    if env.toneBusy chan.tones && !chan.pseudo then { chan with tones := env.toneStop chan.tones }
    else chan
  if chan.eventinidx ≠ chan.eventoutidx then (-elast, chan)
  else if 0 ≤ chan.write.inbuf then (chan.write.inbuf, chan)
  else (-eagain, chan)

/-- amnt of dahdi_chan_write for the bytes the user offers. -/
def writeAmnt (chan : Chan T) (usr : List Octet) : Int :=
  let count : Int := (usr.length % 2 ^ 16 : Nat)
  let limit := if chan.flags.linear then 2 * chan.blocksize else chan.blocksize
  if limit < count then limit else count

def writeData (chan : Chan T) (usr : List Octet) : List Octet :=
  let amnt := (writeAmnt chan usr).toNat
  if chan.flags.linear then (List.range (amnt / 2)).map fun x => chan.lin2x (userShort usr x)
  else usr.take amnt

/-- The data in its buffer, with the frame check over its last two bytes. -/
def storeWrite (env : Env T) (chan : Chan T) (res : Int) (buf : Buffer) (data : List Octet) : Ring :=
  let buf := copyAt buf 0 data
  let buf := if chan.flags.fcs then calcFcs env buf data.length else buf
  { chan.write with
    buf := set chan.write.buf res.toNat (some buf)
    n := set chan.write.n res.toNat data.length
    idx := set chan.write.idx res.toNat 0 }

/-- The second critical section of dahdi_chan_write. -/
def announceWrite (chan : Chan T) (res : Int) : Chan T :=
  let full := decide ((res + 1) % chan.numbufs = chan.write.outbuf)
  let chan := { chan with
    write := chan.write.handOver chan.numbufs res
    txdisable := chan.txdisable && !full }
  if chan.txbufpolicy = .halfFull ∧ chan.txdisable = true ∧
      (chan.numbufs / 2 : Nat) ≤ numFilledBufs chan then { chan with txdisable := false }
  else chan

/-- dahdi_chan_write from the copy to the end, with the index it has read. -/
def chanWriteCommit (env : Env T) (chan : Chan T) (res : Int) (usr : List Octet) :
    Option (Chan T) :=
  -- a negative size makes copy_from_user fail, and the call with it
  if writeAmnt chan usr ≤ 0 then some chan
  else match chan.write.buf res.toNat with
    | none => none
    | some buf =>
      some (announceWrite { chan with write := storeWrite env chan res buf (writeData chan usr) } res)

def shortBytes (v : Int) : List Octet :=
  let s := BitVec.ofInt 16 v
  [s.setWidth 8, (s >>> 8).setWidth 8]

/-- The first critical section of dahdi_chan_read. -/
def chanReadStart (chan : Chan T) : Int :=
  if chan.eventinidx ≠ chan.eventoutidx then -elast
  else if 0 ≤ chan.read.outbuf then chan.read.outbuf
  else -eagain

/-- amnt of dahdi_chan_read. -/
def readAmnt (chan : Chan T) (res : Int) (count : Nat) : Int :=
  let count : Int := (count % 2 ^ 16 : Nat)
  let ready := chan.read.n res.toNat
  let limit := if chan.flags.linear then 2 * ready else ready
  if limit < count then limit else count

def readData (chan : Chan T) (buf : Buffer) (amnt : Nat) : List Octet :=
  if chan.flags.linear then (bytesOf buf 0 (amnt / 2)).flatMap fun b => shortBytes (chan.xlaw b)
  else bytesOf buf 0 amnt

/-- The second critical section of dahdi_chan_read. -/
def releaseRead (chan : Chan T) (res : Int) : Chan T :=
  { chan with
    read := { chan.read with
      idx := set chan.read.idx res.toNat 0
      n := set chan.read.n res.toNat 0 }.release chan.numbufs res }

/-- dahdi_chan_read from the copy to the end, with the index it has read. -/
def chanReadCommit (chan : Chan T) (res : Int) (count : Nat) : Option (List Octet × Chan T) :=
  if readAmnt chan res count = 0 then some ([], releaseRead chan res)
  else match chan.read.buf res.toNat with
    | none => none
    | some buf => some (readData chan buf (readAmnt chan res count).toNat, releaseRead chan res)

def flushRead : Nat := 1
def flushWrite : Nat := 2
def flushEvent : Nat := 4

/-- DAHDI_FLUSH of dahdi_chan_ioctl. -/
def flush (chan : Chan T) (mask : Nat) : Chan T :=
  let chan :=
    if mask &&& flushRead ≠ 0 then { chan with read := chan.read.clear chan.numbufs 0 } else chan
  let chan :=
    if mask &&& flushWrite ≠ 0 then { chan with write := chan.write.clear chan.numbufs 0 } else chan
  if mask &&& flushEvent ≠ 0 then { chan with eventinidx := 0, eventoutidx := 0 } else chan

end Channel
