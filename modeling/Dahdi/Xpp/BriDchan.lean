import Dahdi.Channel.Contents
import Dahdi.Channel.Transmit
import Dahdi.Library.GuardedRun
import Dahdi.Library.MarkedPieces

/-!
The D-channel of a BRI card: dahdi_chan_write, bri_hdlc_hard_xmit, DAHDI_FLUSH and
tx_dchan over the write ring of the channel.
-/
namespace BriDchan
open Fasthdlc Channel CyclicCursor RingInvariant RingContents GuardedRun MarkedPieces
variable {T : Type}

def XFRAME_DATASIZE : Nat := 512
def MULTIBYTE_MAX_LEN : Nat := 5

/-- RPACKET_SIZE(GLOBAL, REGISTER_REQUEST): a header of 4 bytes and a reg_cmd_t of 6. -/
def requestSize : Nat := 10

/-- The REGISTER_REQUEST packets xframe_next_packet finds room for. -/
def maxRequests : Nat := XFRAME_DATASIZE / requestSize

/-- reg_cmd_t of a multibyte command. -/
structure RegCmd where
  bytes : BitVec 3
  eoframe : Bool
  xdata : List Octet
  deriving DecidableEq, Repr

/-- fill_multibyte -/
def fillMultibyte (eoframe : Bool) (buf : List Octet) (len : Nat) : RegCmd :=
  ⟨BitVec.ofNat 3 len, eoframe, buf.take len⟩

/-- What the firmware takes of a command. -/
def RegCmd.payload (cmd : RegCmd) : Piece Octet := ⟨cmd.xdata.take cmd.bytes.toNat, cmd.eoframe⟩

/-- How the loop of tx_dchan ends. -/
inductive TxEnd where
  | eoframe
  | full
  | nothing
  deriving DecidableEq, Repr

/-- The loop of tx_dchan, with room for so many packets. -/
def fillFrame : Nat → Chan T → Option (TxEnd × List RegCmd × Chan T)
  | 0, dchan => some (.full, [], dchan)
  | room + 1, dchan =>
    match hdlcGetbuf dchan (BitVec.ofNat 32 MULTIBYTE_MAX_LEN) with
    | none => none
    | some (eoframe, buf, len, dchan) =>
      if len.toInt ≤ 0 then some (.nothing, [], dchan)
      else
        let cmd := fillMultibyte (decide (eoframe ≠ 0)) buf len.toNat
        if eoframe ≠ 0 then some (.eoframe, [cmd], dchan)
        else
          (fillFrame room dchan).map fun (ended, cmds, dchan) => (ended, cmd :: cmds, dchan)

/-- The card. `inFlight` counts the write calls that have handed their frame over and
    not announced it yet; `committed` and `sent` are history variables, the frames
    handed over and the commands given to send_cmd_frame. -/
structure Card (T : Type) where
  dchan : Chan T
  hdlcPending : Int
  inFlight : Nat
  committed : List (List Octet)
  sent : List RegCmd

/-- What tx_dchan asks: SPAN_REGISTERED, DAHDI_FLAG_RUNNING and the pool of frames. -/
structure Tick where
  registered : Bool
  running : Bool
  allocated : Bool
  deriving DecidableEq, Repr

def Tick.works (t : Tick) : Bool := t.registered && t.running && t.allocated

/-- tx_dchan. A frame that came to nothing is freed, and nothing of it is sent. -/
def txDchan (c : Card T) (t : Tick) : Option (Card T) :=
  if c.hdlcPending = 0 then some c
  else if (t.registered && t.running) = false then some c
  else if t.allocated = false then some c
  else match fillFrame maxRequests c.dchan with
    | none => none
    | some (.nothing, _, dchan) => some { c with dchan := dchan }
    | some (.full, cmds, dchan) => some { c with dchan := dchan, sent := c.sent ++ cmds }
    | some (.eoframe, cmds, dchan) =>
      some { c with dchan := dchan, sent := c.sent ++ cmds, hdlcPending := c.hdlcPending - 1 }

/-- dahdi_chan_write up to its last critical section. -/
def chanWrite (env : Env T) (c : Card T) (usr : List Octet) : Option (Card T) :=
  if usr.length % 2 ^ 16 < 1 then some c
  else
    let (res, dchan) := chanWriteStart env c.dchan
    if res < 0 ∨ writeAmnt dchan usr ≤ 0 then some { c with dchan := dchan }
    else (chanWriteCommit env dchan res usr).map fun dchan' =>
      { c with
        dchan := dchan'
        inFlight := c.inFlight + 1
        committed := c.committed ++ [writeData dchan usr] }

/-- The end of dahdi_chan_write: bri_hdlc_hard_xmit for a channel with NOSTDTXRX. -/
def hardXmit (c : Card T) : Card T :=
  { c with
    inFlight := c.inFlight - 1
    hdlcPending := if c.dchan.flags.nostdtxrx then c.hdlcPending + 1 else c.hdlcPending }

inductive Event where
  | write (usr : List Octet)
  | announce
  | flush (mask : Nat)
  | tick (t : Tick)

def applyEvent (env : Env T) (c : Card T) : Event → Option (Card T)
  | .write usr => chanWrite env c usr
  | .announce => if 0 < c.inFlight then some (hardXmit c) else none
  | .flush mask => some { c with dchan := flush c.dchan mask }
  | .tick t => txDchan c t

/-- A card with its D-channel configured for HARDHDLC and nothing written yet. -/
structure Fresh (c : Card T) : Prop where
  two : 2 ≤ c.dchan.numbufs
  allocated : Allocated c.dchan.numbufs c.dchan.write
  valid : Valid c.dchan.numbufs c.dchan.write.inbuf c.dchan.write.outbuf c.dchan.write.filled
  nothing : c.dchan.write.outbuf < 0
  hardhdlc : c.dchan.flags.nostdtxrx = true
  pending : c.hdlcPending = 0
  inFlight : c.inFlight = 0
  committed : c.committed = []
  sent : c.sent = []

def cardSystem (env : Env T) : System (Card T) Event where
  start := Fresh
  step c e c' := applyEvent env c e = some c'

/-- Frames of three bytes at least, and no flush of frames that wait to be sent. -/
def Careful (c : Card T) : Event → Prop
  | .write usr => 0 < writeAmnt c.dchan usr → 3 ≤ (writeData c.dchan usr).length
  | .flush mask => mask &&& flushWrite ≠ 0 → c.dchan.write.outbuf < 0
  | _ => True

def runTicks (c : Card T) : List Tick → Option (Card T)
  | [] => some c
  | t :: ticks => (txDchan c t).bind fun c => runTicks c ticks

end BriDchan
