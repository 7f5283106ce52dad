import Dahdi.Channel.Buffers

/-!
The receiver: __putbuf_chunk, and the calls of a board that does HDLC itself.
-/
namespace Channel
open Fasthdlc
variable {T : Type}

/-- Where a pass over the chunk stopped: the octets not looked at, eof and abort. -/
structure Stopped (T : Type) where
  ms : Chan T
  rxb : List Octet
  eof : Bool
  abort : Nat

def setReadIdx (ms : Chan T) (x : Nat) (v : Int) : Chan T :=
  { ms with read := { ms.read with idx := set ms.read.idx x v } }

/-- A byte of data from the deframer. -/
def putbufByte (env : Env T) (ms : Chan T) (x : Nat) (rxc : Octet) : Option (Chan T) :=
  match ms.read.buf x with
  | none => none
  | some buf => some { ms with
      infcs := env.pppFcs ms.infcs rxc
      read := { ms.read with
        buf := set ms.read.buf x (some (set buf (ms.read.idx x).toNat rxc))
        idx := set ms.read.idx x (ms.read.idx x + 1) } }

/-- The for loop of __putbuf_chunk on an HDLC channel, over `left` octets. -/
def putbufHdlcLoop (env : Env T) (x : Nat) : Nat → Chan T → List Octet → Option (Stopped T)
  | 0, ms, rxb => some ⟨ms, rxb, false, 0⟩
  | _ + 1, ms, [] => some ⟨ms, [], false, 0⟩
  | left + 1, ms, c :: rxb =>
    match fasthdlcRxRun (fasthdlcRxLoadNocheck ms.rxhdlc c) with
    | none => none
    | some (res, h) =>
      let ms := { ms with rxhdlc := h }
      match res with
      | .empty => putbufHdlcLoop env x left ms rxb
      | .complete =>
        if ms.read.idx x = 0 then putbufHdlcLoop env x left ms rxb
        else if ms.flags.fcs && decide (ms.infcs ≠ env.pppGoodfcs) then
          some ⟨ms, rxb, false, eventBadfcs⟩
        else some ⟨ms, rxb, true, 0⟩
      | .discard =>
        if ms.read.idx x = 0 then putbufHdlcLoop env x left ms rxb
        else some ⟨ms, rxb, false, eventAbort⟩
      | .data rxc =>
        match putbufByte env ms x rxc with
        | none => none
        | some ms =>
          if ms.blocksize ≤ ms.read.idx x then
            -- overrun: back to the search for a frame
            some ⟨{ setReadIdx ms x 0 with rxhdlc := { ms.rxhdlc with state := 0, bits := 0 } },
              rxb, false, eventOverrun⟩
          else putbufHdlcLoop env x left ms rxb

/-- The previous message of an MTP2 channel equals the one just finished. -/
def sameMessage (r : Ring) (numbufs : Nat) (x : Nat) : Option Bool :=
  let comparemessage := (((x : Int) - 1) % 2 ^ 32).toNat &&& (numbufs - 1)
  match r.buf comparemessage, r.buf x with
  | some a, some b =>
    some (decide (bytesOf a 0 (r.n x).toNat = bytesOf b 0 (r.n x).toNat))
  | _, _ => none

/-- "Finished with this buffer, try another." -/
def putbufEof (env : Env T) (ms : Chan T) (x : Nat) : Option (Chan T) :=
  let r := { ms.read with n := set ms.read.n x (ms.read.idx x) }
  let ms := { ms with infcs := env.pppInitfcs }
  if ms.flags.mtp2 then
    match sameMessage r ms.numbufs x with
    | none => none
    | some true => some { ms with read := { r with n := set r.n x 0, idx := set r.idx x 0 } }
    | some false => some { ms with read := r.handOver ms.numbufs x }
  else some { ms with read := r.handOver ms.numbufs x }

/-- "Start over reading frame" -/
def putbufAbort (env : Env T) (ms : Chan T) (x : Nat) (abort : Nat) : Chan T :=
  let ms := { setReadIdx ms x 0 with infcs := env.pppInitfcs }
  if ms.flags.isOpen && !ms.alarms then qevent ms abort else ms

/-- The end of a pass: a finished buffer, an aborted frame, or neither. -/
def finishPass (env : Env T) (x : Nat) (s : Stopped T) : Option (Chan T) :=
  match (if s.eof then putbufEof env s.ms x else some s.ms) with
  | none => none
  | some ms => some (if s.abort = 0 then ms else putbufAbort env ms x s.abort)

/-- One pass of the while loop over a chunk of at least one octet. -/
def putbufPass (env : Env T) (ms : Chan T) (rxb : List Octet) : Option (Chan T × List Octet) :=
  let x := ms.read.inbuf.toNat
  let left := min (ms.blocksize - ms.read.idx x) rxb.length
  let stopped :=
    if ms.flags.hdlc then putbufHdlcLoop env x left.toNat ms rxb
    else if left < 0 then none
    else match ms.read.buf x with
      | none => none
      | some buf =>
        let ms := { ms with read := { ms.read with
          buf := set ms.read.buf x (some (copyAt buf (ms.read.idx x).toNat (rxb.take left.toNat)))
          idx := set ms.read.idx x (ms.read.idx x + left) } }
        let eof := decide (ms.blocksize ≤ ms.read.idx x)
        if eof && ms.flags.nostdtxrx then some ⟨ms, rxb.drop left.toNat, false, eventOverrun⟩
        else some ⟨ms, rxb.drop left.toNat, eof, 0⟩
  match stopped with
  | none => none
  | some s => (finishPass env x s).map fun ms => (ms, s.rxb)

/-- The while loop: the channel and the octets there was no room for. -/
def putbufLoop (env : Env T) : Nat → Chan T → List Octet → Option (Chan T × List Octet)
  | 0, _, _ => none
  | fuel + 1, ms, rxb =>
    if rxb = [] then some (ms, rxb)
    else if -1 < ms.read.inbuf then
      match putbufPass env ms rxb with
      | none => none
      | some (ms, rxb) => putbufLoop env fuel ms rxb
    else some (ms, rxb)

/-- __putbuf_chunk -/
def putbufChunk (env : Env T) (fuel : Nat) (ms : Chan T) (rxb : List Octet) : Option (Chan T) :=
  match putbufLoop env fuel ms rxb with
  | none => none
  | some (ms, dropped) =>
    if dropped = [] then some { ms with rxoverrun := false }
    else if ms.rxoverrun then some ms
    else
      let ms := if ms.flags.bufevents then qevent ms eventReadOverrun else ms
      some { ms with rxoverrun := true }

/-- __dahdi_hdlc_abort -/
def hdlcAbort (ss : Chan T) (event : Nat) : Chan T :=
  let ss := if 0 ≤ ss.read.inbuf then setReadIdx ss ss.read.inbuf.toNat 0 else ss
  if ss.flags.isOpen && !ss.alarms then qevent ss event else ss

/-- dahdi_hdlc_putbuf -/
def hdlcPutbuf (ss : Chan T) (rxb : List Octet) : Option (Chan T) :=
  if ss.read.inbuf < 0 then some ss
  else
    let x := ss.read.inbuf.toNat
    let left := min (ss.blocksize - ss.read.idx x) rxb.length
    if left ≤ 0 then some (if rxb = [] then ss else hdlcAbort ss eventOverrun)
    else match ss.read.buf x with
      | none => none
      | some buf =>
        let ss := { ss with read := { ss.read with
          buf := set ss.read.buf x (some (copyAt buf (ss.read.idx x).toNat (rxb.take left.toNat)))
          idx := set ss.read.idx x (ss.read.idx x + left) } }
        some (if left = rxb.length then ss else hdlcAbort ss eventOverrun)

/-- dahdi_hdlc_finish -/
def hdlcFinish (ss : Chan T) : Chan T :=
  if ss.read.inbuf < 0 then ss
  else
    let x := ss.read.inbuf.toNat
    if ss.read.idx x = 0 then ss
    else { ss with
      read := { ss.read with n := set ss.read.n x (ss.read.idx x) }.handOver ss.numbufs
        ss.read.inbuf }

end Channel
