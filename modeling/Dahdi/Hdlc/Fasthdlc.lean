import Mathlib

/-!
The codec of include/dahdi/fasthdlc.h. The three tables filled in by
fasthdlc_precalc are the functions that compute their entries. The data
register is the 32-bit word of the source; the bit count is its signed int.
-/
namespace Fasthdlc

abbrev Octet := BitVec 8

/-- enum fasthdlc_mode -/
inductive Mode where
  | mode64
  | mode56
  | mode16
  deriving DecidableEq, Repr

/-- struct fasthdlc_state -/
structure State where
  state : Nat
  data : BitVec 32
  bits : Int
  ones : Nat
  mode : Mode
  minbits : Nat
  deriving DecidableEq, Repr

def frameSearch : Nat := 0
def processFrame : Nat := 1

def controlComplete : Nat := 1
def controlAbort : Nat := 2
def statusValid : Nat := 1 <<< 15
def statusControl : Nat := 0 <<< 15

/-- static unsigned int minbits[2], indexed by the receiver state. -/
def rxMinbits (state : Nat) : Nat := if state = 0 then 8 else 10

/- The loop that walks from the least significant bit to the first zero. -/
def searchZero : Nat → Octet → Nat
  | 0, _ => 0
  | p + 1, c => if c.getLsbD (7 - (p + 1)) then searchZero p c else p + 1

def hdlcSearchPrecalc (c : Octet) : Nat :=
  if c = 0x7e#8 then 0x10 ||| 8
  else if c = 0x7f#8 then 0x00 ||| 8
  else if c = 0xff#8 then 0x00 ||| 8
  else searchZero 7 c

/-- HFP -/
def hfp (status ones bits data : Nat) : Nat :=
  status ||| (ones <<< 12) ||| (bits <<< 8) ||| data

/-- The loop of hdlc_frame_precalc. At most every second round leaves the bit
    count alone, so 17 rounds are always enough. -/
def hdlcFrameLoop : Nat → Nat → Octet → Nat → Nat → BitVec 16 → Nat
  | 0, _, _, _, _, _ => 0
  | rounds + 1, ones, data, bits, consumed, c =>
    if bits < 8 then
      let data := data >>> 1
      let consumed := consumed + 1
      if ones = 5 then
        if c.getLsbD 9 then
          -- another one: the frame terminator, or something to abort on
          if !c.getLsbD 8 && bits = 6 then hfp statusControl 0 8 controlComplete
          else hfp statusControl 0 (consumed + 1) controlAbort
        else hdlcFrameLoop rounds 0 (data <<< 1) bits consumed (c <<< 1)
      else if c.getLsbD 9 then
        hdlcFrameLoop rounds (ones + 1) (data ||| 0x80#8) (bits + 1) consumed (c <<< 1)
      else hdlcFrameLoop rounds 0 data (bits + 1) consumed (c <<< 1)
    else if ones = 5 then hfp statusValid 0 (consumed + 1) data.toNat
    else hfp statusValid ones consumed data.toNat

def hdlcFramePrecalc (x : Nat) (c : BitVec 16) : Nat := hdlcFrameLoop 17 x 0 0 0 c

structure Encoding where
  data : BitVec 16
  ones : Nat
  bits : Nat
  deriving DecidableEq, Repr

def stuffZero (e : Encoding) : Encoding :=
  if e.ones = 5 then { data := e.data <<< 1, ones := 0, bits := e.bits + 1 } else e

/-- The eight rounds of hdlc_encode_precalc, lowest bit of the byte first. -/
def hdlcEncodeLoop : Nat → Octet → Encoding → Encoding
  | 0, _, e => e
  | z + 1, y, e =>
    let e := stuffZero e
    let e := if y.getLsbD 0 then
        { data := (e.data <<< 1) ||| 1#16, ones := e.ones + 1, bits := e.bits + 1 }
      else { data := e.data <<< 1, ones := 0, bits := e.bits + 1 }
    hdlcEncodeLoop z (y >>> 1) e

def hdlcEncodePrecalc (x : Nat) (y : Octet) : BitVec 32 :=
  let e := stuffZero (hdlcEncodeLoop 8 y { data := 0, ones := x, bits := 0 })
  let data := e.data <<< (10 - e.bits)
  (data.setWidth 32 <<< 22) ||| (BitVec.ofNat 32 e.ones <<< 8) ||| BitVec.ofNat 32 e.bits

def minbitsOf : Mode → Nat
  | .mode64 => 8
  | .mode56 => 7
  | .mode16 => 2

def fasthdlcInit (mode : Mode) : State :=
  { state := 0, data := 0, bits := 0, ones := 0, mode := mode, minbits := minbitsOf mode }

def fasthdlcTxLoadNocheck (h : State) (c : Octet) : State :=
  let res := hdlcEncodePrecalc h.ones c
  { h with
    ones := ((res &&& 0xf00#32) >>> 8).toNat
    data := h.data ||| ((res &&& 0xffc00000#32) >>> h.bits.toNat)
    bits := h.bits + (res &&& 0xf#32).toNat }

def fasthdlcTxFrameNocheck (h : State) : State :=
  { h with ones := 0, data := h.data ||| (0x7e000000#32 >>> h.bits.toNat), bits := h.bits + 8 }

def fasthdlcTxNeedData (h : State) : Bool :=
  match h.mode with
  | .mode56 => h.bits < 7
  | .mode16 => h.bits < 2
  | .mode64 => h.bits < 8

def fasthdlcTxRunNocheck (h : State) : Octet × State :=
  match h.mode with
  | .mode16 =>
      let b := (h.data >>> 30).setWidth 8
      ((b &&& 3#8) <<< 6, { h with bits := h.bits - 2, data := h.data <<< 2 })
  | .mode56 =>
      let b := (h.data >>> 25).setWidth 8
      (((b &&& 0x7f#8) <<< 1) ||| 1#8, { h with bits := h.bits - 7, data := h.data <<< 7 })
  | .mode64 =>
      ((h.data >>> 24).setWidth 8, { h with bits := h.bits - 8, data := h.data <<< 8 })

def fasthdlcRxLoadNocheck (h : State) (b : Octet) : State :=
  match h.mode with
  | .mode16 =>
      { h with data := h.data ||| ((b >>> 6).setWidth 32 <<< (30 - h.bits).toNat)
               bits := h.bits + 2 }
  | .mode56 =>
      { h with data := h.data ||| ((b >>> 1).setWidth 32 <<< (25 - h.bits).toNat)
               bits := h.bits + 7 }
  | .mode64 =>
      { h with data := h.data ||| (b.setWidth 32 <<< (24 - h.bits).toNat)
               bits := h.bits + 8 }

/-- The value of fasthdlc_rx_run: nothing, one of the two flags, or a byte. -/
inductive RxResult where
  | empty
  | complete
  | discard
  | data (c : Octet)
  deriving DecidableEq, Repr

/-- The while loop of fasthdlc_rx_run. The comparison with the unsigned
    minbits turns a negative bit count into a large one. -/
def fasthdlcRxLoop : Nat → State → RxResult → Option (RxResult × State)
  | 0, _, _ => none
  | rounds + 1, h, retval =>
    if rxMinbits h.state ≤ (h.bits % 2 ^ 32).toNat ∧ retval = .empty then
      if h.state = frameSearch then
        let next := hdlcSearchPrecalc ((h.data >>> 24).setWidth 8)
        fasthdlcRxLoop rounds
          { h with bits := h.bits - (next &&& 0x0f : Nat), data := h.data <<< (next &&& 0x0f)
                   state := next >>> 4, ones := 0 } retval
      else
        let next := hdlcFramePrecalc h.ones ((h.data >>> 22).setWidth 16)
        let h := { h with
          bits := h.bits - ((next &&& 0x0f00) >>> 8 : Nat)
          data := h.data <<< ((next &&& 0x0f00) >>> 8)
          state := (next &&& (1 <<< 15)) >>> 15
          ones := (next &&& (7 <<< 12)) >>> 12 }
        if next &&& (1 <<< 15) = statusControl then
          if next &&& controlComplete ≠ 0 then
            -- a complete frame: stay in this state
            fasthdlcRxLoop rounds { h with state := 1 } .complete
          else fasthdlcRxLoop rounds h .discard
        else fasthdlcRxLoop rounds h (.data (BitVec.ofNat 8 (next &&& 0xff)))
    else some (retval, h)

/-- A search round consumes at least one of the at most 32 bits held, so 40
    rounds are enough for every register that is not over-full. -/
def fasthdlcRxRun (h : State) : Option (RxResult × State) := fasthdlcRxLoop 40 h .empty

end Fasthdlc
