import Dahdi.Library.BitFields
import Dahdi.Xpp.Cards

/-!
Channel associated signalling of a PRI card: the bits of each channel packed into
the transmit signalling registers of the framer, and read out of the receive
registers of a far end that mirrors them.
-/
namespace PriCas
open Xpp BitFields

abbrev Byte := BitVec 8

def REG_RS1_E : Nat := 0x70
def REG_RS2_E : Nat := 0x71
def REG_RS7_E : Nat := 0x76
def REG_RS12_E : Nat := 0x7b
def REG_RS16_E : Nat := 0x7f
def NUM_CAS_RS_E : Nat := REG_RS16_E - REG_RS2_E + 1
def NUM_CAS_RS_T : Nat := REG_RS12_E - REG_RS1_E + 1
def DAHDI_SIG_NONE : Nat := 0

def BITMASK (n : Nat) : BitVec 32 := BitVec.ofNat 32 (2 ^ n - 1)

/-- struct dahdi_chan: sigfreeze is DAHDI_FLAG_SIGFREEZE. -/
structure CasChan where
  sig : Nat
  rxsig : BitVec 32
  sigfreeze : Bool
  deriving DecidableEq, Repr

/-- A PRI xpd, and the signalling registers written over the bus. -/
structure CasXpd where
  pri : PriXpd
  isEsf : Bool
  casRsE : Nat → Byte
  casTsE : Nat → Byte
  chans : Nat → CasChan
  regs : Nat → Byte

def writeSubunit (x : CasXpd) (regnum : Nat) (val : Byte) : CasXpd :=
  { x with regs := Function.update x.regs regnum val }

/-- cas_regbase and cas_numregs: none where the source has BUG. -/
def casRegbase (x : CasXpd) : Option Nat :=
  match x.pri.priProtocol with
  | .e1 => some REG_RS2_E
  | .t1 => some REG_RS1_E
  | .j1 => some REG_RS1_E
  | .none => none

def casNumregs (x : CasXpd) : Option Nat :=
  match x.pri.priProtocol with
  | .e1 => some NUM_CAS_RS_E
  | .t1 => some NUM_CAS_RS_T
  | .j1 => some NUM_CAS_RS_T
  | .none => none

def writeCasReg (x : CasXpd) (rsnum : Nat) (val : Byte) : Option CasXpd :=
  match casRegbase x, casNumregs x with
  | some regbase, some numregs =>
    if numregs ≤ rsnum then none
    else
      let isD4 := x.pri.priProtocol == .t1 && !x.isEsf
      let x := writeSubunit { x with casTsE := Function.update x.casTsE rsnum val } (regbase + rsnum) val
      -- same data should be copied to RS7..12 in D4 only
      some (if isD4 then writeSubunit x (REG_RS7_E + rsnum) val else x)
  | _, _ => none

def encodeRbsbitsE1 (x : CasXpd) (pos : Int) (bits : BitVec 32) : Option CasXpd :=
  if x.pri.priProtocol ≠ .e1 then none
  else if pos = 15 then some x
  else if pos < 0 ∨ 31 < pos then some x
  else if 16 ≤ pos then
    let rsnum := (pos - 16).toNat
    writeCasReg x rsnum
      (((x.casTsE rsnum).setWidth 32 &&& 0xF0#32 ||| bits &&& 0x0F#32).setWidth 8)
  else
    let rsnum := pos.toNat
    writeCasReg x rsnum
      (((x.casTsE rsnum).setWidth 32 &&& 0x0F#32 ||| (bits <<< 4) &&& 0xF0#32).setWidth 8)

/-- CHAN_PER_REGS -/
def chanPerRegs (x : CasXpd) : Nat := if x.isEsf then 2 else 4

def encodeRbsbitsT1 (x : CasXpd) (pos : Int) (bits : BitVec 32) : Option CasXpd :=
  if x.pri.priProtocol ≠ .t1 then none
  else if pos < 0 ∨ (x.pri.xpd.channels : Int) ≤ pos then some x
  else
    let chanPerReg := chanPerRegs x
    let width := 8 / chanPerReg
    let rsnum := pos.toNat / chanPerReg
    let offset := pos.toNat % chanPerReg
    let mask := BITMASK width <<< ((chanPerReg - offset - 1) * width)
    let txBits := if x.isEsf then bits else bits >>> 2
    let txBits := (txBits &&& BITMASK width) <<< ((chanPerReg - offset - 1) * width)
    writeCasReg x rsnum (((x.casTsE rsnum).setWidth 32 &&& ~~~mask ||| txBits).setWidth 8)

/-- pri_rbsbits on the channel at position pos: none where the source has BUG. -/
def priRbsbits (x : CasXpd) (pos : Nat) (bits : BitVec 32) : Option CasXpd :=
  if x.pri.isCas = 0 then some x
  else if (x.chans pos).sig = DAHDI_SIG_NONE then some x
  else
    match x.pri.priProtocol with
    | .e1 => encodeRbsbitsE1 x pos bits
    | .t1 => encodeRbsbitsT1 x pos bits
    | _ => some x

/-- dahdi_rbsbits, as far as rxsig goes. -/
def dahdiRbsbits (x : CasXpd) (pos : Nat) (cursig : BitVec 32) : CasXpd :=
  if cursig = (x.chans pos).rxsig then x
  else if (x.chans pos).sigfreeze then x
  else { x with chans := Function.update x.chans pos { x.chans pos with rxsig := cursig } }

def decodeCasE1 (x : CasXpd) (regnum : Nat) (dataLow : Byte) : CasXpd :=
  -- an unsigned int: a register below RS2 is far out of range
  let pos := (((regnum : Int) - REG_RS2_E) % 2 ^ 32).toNat
  let val1 := ((dataLow.setWidth 32) >>> 4) &&& 0xF#32
  let val2 := dataLow.setWidth 32 &&& 0xF#32
  if NUM_CAS_RS_E ≤ pos then x
  else if x.pri.xpd.channels < pos then x
  else if x.pri.xpd.channels < pos + 16 then x
  else
    let x := if x.pri.xpd.registered then dahdiRbsbits (dahdiRbsbits x pos val1) (pos + 16) val2 else x
    { x with casRsE := Function.update x.casRsE pos dataLow }

/-- One round of the loop of decode_cas_t1. -/
def decodeSlotT1 (rsnum : Nat) (dataLow : Byte) (x : CasXpd) (i : Nat) : CasXpd :=
  let chanPerReg := chanPerRegs x
  let width := 8 / chanPerReg
  let rxsig := ((dataLow.setWidth 32) >>> (i * width)) &&& BITMASK width
  let rxsig := if x.isEsf then rxsig else rxsig <<< 2
  let pos := rsnum * chanPerReg + chanPerReg - i - 1
  if x.pri.xpd.channels ≤ pos then x
  else if (x.chans pos).rxsig = rxsig then x
  else dahdiRbsbits x pos rxsig

def decodeCasT1 (x : CasXpd) (regnum : Nat) (dataLow : Byte) : CasXpd :=
  let rsnum := (((regnum : Int) - REG_RS1_E) % 2 ^ 32).toNat
  if 12 ≤ rsnum then x
  else
    let rsnum := if x.isEsf then rsnum else rsnum % 6
    let x := (List.range (chanPerRegs x)).foldl (decodeSlotT1 rsnum dataLow) x
    { x with casRsE := Function.update x.casRsE rsnum dataLow }

/-- process_cas_dchan -/
def processCasDchan (x : CasXpd) (regnum : Nat) (dataLow : Byte) : CasXpd :=
  if x.pri.isCas = 0 then x
  else if x.pri.xpd.registered = false then x
  else
    match x.pri.priProtocol with
    | .e1 => if regnum < REG_RS2_E then x else decodeCasE1 x regnum dataLow
    | .t1 => if REG_RS12_E < regnum then x else decodeCasT1 x regnum dataLow
    | _ => x

/-- pri_rbsbits called over and over. -/
def rbsCalls : CasXpd → List (Nat × BitVec 32) → Option CasXpd
  | x, [] => some x
  | x, (pos, bits) :: calls =>
    match priRbsbits x pos bits with
    | none => none
    | some x => rbsCalls x calls

/-- The far end sends back what it gets, and these registers are read. -/
def mirrored (x : CasXpd) (read : List Byte) : CasXpd :=
  read.foldl (fun y regnum => processCasDchan y regnum.toNat (x.regs regnum.toNat)) x

inductive LineMode where
  | e1
  | esf
  | d4
  deriving DecidableEq, Repr

/-- A registered span in this line mode, with channel associated signalling. -/
structure InMode (mode : LineMode) (x : CasXpd) : Prop where
  cas : x.pri.isCas ≠ 0
  registered : x.pri.xpd.registered = true
  channels : x.pri.xpd.channels = priNumChannels x.pri.priProtocol
  proto : match mode with
    | .e1 => x.pri.priProtocol = .e1
    | .esf => x.pri.priProtocol = .t1 ∧ x.isEsf = true
    | .d4 => x.pri.priProtocol = .t1 ∧ x.isEsf = false

def LineMode.channels : LineMode → Nat
  | .e1 => 31
  | _ => 24

/-- Every channel carries a call but the one of the E1 signalling timeslot. -/
def LineMode.Bearer (mode : LineMode) (pos : Nat) : Prop :=
  pos < mode.channels ∧ (mode = .e1 → pos ≠ 15)

/-- The bits a line mode carries: A to D, or A and B. -/
def LineMode.carried : LineMode → BitVec 32 → BitVec 32
  | .d4, bits => bits &&& 0xC#32
  | _, bits => bits &&& 0xF#32

/-- The registers that bring the bits of a channel. -/
def LineMode.brings : LineMode → Nat → List Nat
  | .e1, pos => [REG_RS2_E + pos % 16]
  | .esf, pos => [REG_RS1_E + pos / 2]
  | .d4, pos => [REG_RS1_E + pos / 4, REG_RS7_E + pos / 4]

end PriCas
