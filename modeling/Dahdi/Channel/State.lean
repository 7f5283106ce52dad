import Dahdi.Library.CyclicCursor
import Dahdi.Hdlc.Fasthdlc

/-!
The buffers of a channel, from struct dahdi_chan. A buffer pointer is NULL or
the bytes it points to. The fields that only drive wake-ups are left out.
-/
namespace Channel
open Fasthdlc

abbrev Buffer := Nat → Octet

/-- One direction: readbuf, readn, readidx, inreadbuf and outreadbuf, or the
    same of the write side. `filled` is a history variable, the buffers handed
    over by the filler and not yet given up by the consumer, oldest first. -/
structure Ring where
  buf : Nat → Option Buffer
  n : Nat → Int
  idx : Nat → Int
  inbuf : Int
  outbuf : Int
  filled : List Nat

inductive Policy where
  | immediate
  | whenFull
  | halfFull
  deriving DecidableEq, Repr

/-- The DAHDI_FLAG bits the buffer code reads. -/
structure Flags where
  hdlc : Bool
  fcs : Bool
  mtp2 : Bool
  linear : Bool
  looped : Bool
  clear : Bool
  audio : Bool
  nostdtxrx : Bool
  isOpen : Bool
  bufevents : Bool
  deriving DecidableEq, Repr

/-- What the buffer code asks of the tone generator, and the PPP frame check of
    the kernel headers. -/
structure Env (T : Type) where
  pppFcs : BitVec 32 → Octet → BitVec 32
  pppInitfcs : BitVec 32
  pppGoodfcs : BitVec 32
  curtone : T → Bool
  toneBusy : T → Bool
  toneLeft : T → Int
  toneNextsample : T → Int × T
  tonePlayed : T → Int → T
  toneStop : T → T

structure Chan (T : Type) where
  flags : Flags
  blocksize : Int
  numbufs : Nat
  read : Ring
  write : Ring
  txbufpolicy : Policy
  txdisable : Bool
  rxhdlc : State
  txhdlc : State
  infcs : BitVec 32
  readchunk : Buffer
  lin2x : Int → Octet
  xlaw : Octet → Int
  pseudo : Bool
  tones : T
  eventbuf : Nat → Nat
  eventinidx : Nat
  eventoutidx : Nat
  txunderrun : Bool
  rxoverrun : Bool
  alarms : Bool

def maxNumBufs : Int := 32
def maxEventsize : Nat := 64
def chunksize : Nat := 8

def eventAbort : Nat := 6
def eventOverrun : Nat := 7
def eventBadfcs : Nat := 8
def eventReadOverrun : Nat := 29
def eventWriteUnderrun : Nat := 30

variable {T : Type}

/-- __qevent -/
def qevent (chan : Chan T) (event : Nat) : Chan T :=
  if chan.eventoutidx = 0 ∧ chan.eventinidx = maxEventsize - 1 then chan
  else if (chan.eventinidx : Int) = (chan.eventoutidx : Int) - 1 then chan
  else
    { chan with
      eventbuf := fun i => if i = chan.eventinidx then event else chan.eventbuf i
      eventinidx := if maxEventsize ≤ chan.eventinidx + 1 then 0 else chan.eventinidx + 1 }

/-- An assignment to one entry of an array. -/
def set {α : Type} (f : Nat → α) (x : Nat) (v : α) : Nat → α := fun i => if i = x then v else f i

@[simp] theorem set_same {α : Type} (f : Nat → α) (x : Nat) (v : α) : set f x v x = v := by
  simp [set]

theorem set_other {α : Type} (f : Nat → α) {x i : Nat} (v : α) (other : i ≠ x) :
    set f x v i = f i := by
  simp [set, other]

/-- Bytes copied into a buffer from a position on. -/
def copyAt (b : Buffer) (pos : Nat) : List Octet → Buffer
  | [] => b
  | c :: rest => copyAt (set b pos c) (pos + 1) rest

def bytesOf (b : Buffer) (pos : Nat) : Nat → List Octet
  | 0 => []
  | len + 1 => b pos :: bytesOf b (pos + 1) len

end Channel
