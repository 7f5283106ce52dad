import Dahdi.Library.PeekTree
import Dahdi.Xpp.Cards
import Dahdi.Xpp.Xframe

/-!
The protocol of the Astribank's command packets: their headers, the tables of opcodes
and the handlers, each as what it reads of its packet and what it hands on. A place in
a packet is the number of bytes before it.
-/
namespace Xproto
open Xpp PeekTree Xframe

abbrev Byte := BitVec 8

section Header

/-- struct xpacket_header -/
def packetLen (mem : Nat → Byte) : Nat := (mem 0).toNat + (mem 1).toNat % 4 * 256

def opcode (mem : Nat → Byte) : Byte := mem 2

def unitOf (addr : Byte) : Nat := addr.toNat / 16 % 8

def subunitOf (addr : Byte) : Nat := addr.toNat % 8

def bitmask64 (n : Nat) : BitVec 64 := BitVec.ofNat 64 (2 ^ n - 1)

def validXpdAddr (addr : Byte) : Bool :=
  BitVec.ofNat 64 (subunitOf addr) &&& ~~~ bitmask64 3 == 0 &&
    BitVec.ofNat 64 (unitOf addr) &&& ~~~ bitmask64 3 == 0

theorem valid_addr : ∀ addr : Byte, validXpdAddr addr = true := by
  decide +kernel

def peekLen : Peek Byte Nat := do
  let low ← peek 0
  let high ← peek 1
  pure (low.toNat + high.toNat % 4 * 256)

/-- An xpp_line_t of a packet. -/
def linesAt (mem : Nat → Byte) (i : Nat) : Lines := mem (i + 3) ++ mem (i + 2) ++ mem (i + 1) ++ mem i

def peekLines (i : Nat) : Peek Byte Lines := do
  let b0 ← peek i
  let b1 ← peek (i + 1)
  let b2 ← peek (i + 2)
  let b3 ← peek (i + 3)
  pure (b3 ++ b2 ++ b1 ++ b0)

end Header

section RegCmd

/-- The first byte of reg_cmd_t. -/
def regBytes (b : Byte) : Nat := b.toNat % 8
def regEoframe (b : Byte) : Bool := b.getLsbD 3
def regPortnum (b : Byte) : Nat := b.toNat / 16 % 8
def regIsMultibyte (b : Byte) : Bool := b.getLsbD 7

/-- The second byte of reg_cmd_t, when it is not a multibyte. -/
def regDoDatah (b : Byte) : Bool := b.getLsbD 4
def regDoSubreg (b : Byte) : Bool := b.getLsbD 5
def regReadRequest (b : Byte) : Bool := b.getLsbD 6

/-- Of the requested_reply of an xpd, what a reply is compared to. -/
structure RegAsked where
  regnum : Byte
  doSubreg : Bool
  subreg : Byte

end RegCmd

section Bus

inductive CardType where
  | fxs
  | fxo
  | bri
  | pri
  | echo
  deriving DecidableEq

/-- The xpds of a unit, which are all of its type. -/
inductive Card where
  | fxs (subs : Nat → Option Xpd)
  | fxo (subs : Nat → Option Xpd)
  | bri (subs : BriUnit)
  | pri (subs : Nat → Option PriXpd)
  | echo (subs : Nat → Bool)

def Card.type : Card → CardType
  | .fxs _ => .fxs
  | .fxo _ => .fxo
  | .bri _ => .bri
  | .pri _ => .pri
  | .echo _ => .echo

def Card.present : Card → Nat → Bool
  | .fxs subs, i => (subs i).isSome
  | .fxo subs, i => (subs i).isSome
  | .bri subs, i => (subs i).isSome
  | .pri subs, i => (subs i).isSome
  | .echo subs, i => subs i

/-- The bus when a packet is handled. `readRoom` is what is left of the buffer that the
    D-channel of a BRI xpd reads into; `allocs` tells how many card descriptions
    can be allocated. -/
structure Bus where
  cards : Nat → Option Card
  requestedReply : Nat → Nat → RegAsked
  readRoom : Nat → Nat → Option Int
  tables : CardType → Bool
  debug : BitVec 32
  errorCodes : Int
  xbusState : XbusState
  unique : Bool
  wq : Bool
  allocs : Nat

def DBG_GENERAL : Nat := 0
def DBG_REGS : Nat := 6

def Bus.dbg (bus : Bus) (bits : Nat) : Bool := bus.debug.getLsbD bits

/-- xpd_byaddr, as the card the xpd is on. -/
def xpdByaddr (bus : Bus) (unit subunit : Nat) : Option Card :=
  match bus.cards unit with
  | none => none
  | some card => if card.present subunit then some card else none

end Bus

section Tables

inductive Entry where
  | nullReply
  | abDescription
  | syncReply
  | errorCode
  | registerReply
  | fxsSigChanged
  | fxoSigChanged
  | setReply
  deriving DecidableEq

def PCM_READ : Byte := 0x12

def xprotoGlobalEntry (op : Byte) : Option Entry :=
  if op = 0x08 then some .abDescription
  else if op = 0x10 then some .registerReply
  else if op = 0x1A then some .syncReply
  else if op = 0x22 then some .errorCode
  else if op = 0xFE then some .nullReply
  else none

def xprotoCardEntry (type : CardType) (op : Byte) : Option Entry :=
  match type with
  | .fxs => if op = 0x06 then some .fxsSigChanged else none
  | .fxo => if op = 0x06 then some .fxoSigChanged else none
  | .echo => if op = 0x3A then some .setReply else none
  | .bri => none
  | .pri => none

/-- RPACKET_SIZE, the datalen of the entry. -/
def Entry.datalen : Entry → Nat
  | .nullReply => 4
  | .abDescription => 56
  | .syncReply => 6
  | .errorCode => 6
  | .registerReply => 10
  | .fxsSigChanged => 12
  | .fxoSigChanged => 12
  | .setReply => 6

/-- The table an entry was found in. -/
inductive Table where
  | global
  | card (type : CardType)

def Table.packetIsValid (table : Table) (op : Byte) : Bool :=
  match table with
  | .global => (xprotoGlobalEntry op).isSome
  | .card type => (xprotoCardEntry type op).isSome

/-- How packet_process finds the entry and its table. -/
def xprotoEntry (bus : Bus) (xpd : Option Card) (op : Byte) : Option (Table × Entry) :=
  match xprotoGlobalEntry op with
  | some xe => some (.global, xe)
  | none =>
    match xpd with
    | none => none
    | some card =>
      if bus.tables card.type then (xprotoCardEntry card.type op).map fun xe => (.card card.type, xe)
      else none

/-- What packet_is_valid asks has been found already. -/
theorem entry_valid {bus : Bus} {xpd : Option Card} {op : Byte} {found : Table × Entry}
    (eq : xprotoEntry bus xpd op = some found) : found.1.packetIsValid op = true := by
  unfold xprotoEntry at eq
  split at eq
  next xe known =>
    cases eq
    simp only [Table.packetIsValid, known, Option.isSome_some]
  next =>
    split at eq
    · cases eq
    · split at eq
      · rw [Option.map_eq_some_iff] at eq
        obtain ⟨xe, known, same⟩ := eq
        subst same
        simp only [Table.packetIsValid, known, Option.isSome_some]
      · cases eq

end Tables

section Replies

def EPROTO : Int := 71
def EBUSY : Int := 16
def ENODEV : Int := 19
def ENOMEM : Int := 12
def EINVAL : Int := 22

structure CardDesc where
  type : Nat
  subtype : Nat
  xpdAddr : Byte
  numchips : Byte
  portsPerChip : Byte
  portDir : Byte
  ports : Nat
  deriving DecidableEq

/-- What a handler does with the bytes it has read. -/
inductive Act where
  | setstate (newstate : XbusState)
  | revision (rev : Byte)
  | cardDesc (desc : CardDesc)
  | processWorker
  | gotNewSyncer (mode drift : Byte)
  | firmware (categoryCode errorbits : Byte)
  | echoStatus (status : Byte)
  | processHookstate (sigStatus sigToggles : Lines)
  | ringDebounce (sigStatus sigToggles : Lines)
  | processDtmf (portnum : Nat) (val : Byte)
  | processDigitalInputs (portnum : Nat) (dataLow : Byte)
  | gotChipInterrupt (dataLow : Byte) (portno : Nat)
  | updateBatteryVoltage (dataLow : Byte) (portno : Nat)
  | updateBatteryCurrent (dataLow : Byte) (portno : Nat)
  | suNewState (dataLow : Byte)
  | layer1State (dataLow : Byte)
  | regFrs1 (dataLow : Byte)
  | processCasDchan (regnum dataLow : Byte)
  | hdlcPutbuf (data : List Byte)
  | hdlcOverrun
  | hdlcAbort (status : Byte)
  | hdlcFinish
  | lastReply (reg : List Byte)
  deriving DecidableEq

structure Reply where
  ret : Int
  acts : List Act
  deriving DecidableEq

/-- sizeof(xpacket_t) -/
def sizeofXpacket : Nat := 268

def dumpPacket (debug : Bool) : Peek Byte Unit := do
  let _ ← peek 2
  if debug then do
    let _ ← peek 3
    let len ← peekLen
    let _ ← peekMany 0 (min len sizeofXpacket)
    pure ()
  else pure ()

/-- The address is all that notify_bad_xpd is told of a packet. -/
def notifyBadXpd : Peek Byte Unit := do
  let _ ← peek 3
  pure ()

end Replies

section Global

def nullReply (bus : Bus) : Peek Byte Reply :=
  if bus.dbg DBG_GENERAL then do
    let _ ← peekLen
    pure ⟨0, []⟩
  else pure ⟨0, []⟩

def XPP_PROTOCOL_VERSION : Byte := 30
def NUM_UNITS : Int := 6

/-- The division is one of size_t, and the quotient put into an int again. -/
def countUnits (len : Nat) : Int := (BitVec.ofNat 32 ((BitVec.ofInt 64 ((len : Int) - 8)).toNat / 8)).toInt

def unitDescriptor (i : Nat) : Peek Byte CardDesc := do
  let typed ← peek (8 + 8 * i + 1)
  let addr ← peek (8 + 8 * i)
  let numchips ← peek (8 + 8 * i + 2)
  let portsPerChip ← peek (8 + 8 * i + 3)
  let portDir ← peek (8 + 8 * i + 4)
  pure ⟨typed.toNat / 16, typed.toNat % 16, addr, numchips, portsPerChip, portDir,
    numchips.toNat * portsPerChip.toNat⟩

/-- The descriptions of the units from i on, and whether all could be allocated. -/
def describeUnits (allocs : Nat) : Nat → Nat → Peek Byte (Bool × List Act)
  | _, 0 => pure (true, [])
  | i, left + 1 =>
    if i < allocs then do
      let desc ← unitDescriptor i
      let rest ← describeUnits allocs (i + 1) left
      pure (rest.1, .cardDesc desc :: rest.2)
    else pure (false, [])

def protoErr : Peek Byte Reply := do
  let _ ← dumpPacket true
  pure ⟨-EPROTO, [.setstate .fail]⟩

def describeCards (bus : Bus) (rev : Byte) (units : Nat) : Peek Byte Reply := do
  let described ← describeUnits bus.allocs 0 units
  let acts := .setstate .recvdDesc :: .revision rev :: described.2
  pure (if described.1 then ⟨0, acts ++ [.processWorker]⟩ else ⟨-ENOMEM, acts⟩)

def abDescription (bus : Bus) : Peek Byte Reply := do
  let rev ← peek 4
  let len ← peekLen
  let units := countUnits len
  if rev ≠ XPP_PROTOCOL_VERSION then protoErr
  else if NUM_UNITS < units then protoErr
  else if units ≤ 0 then protoErr
  else do
    let addr ← peek 8
    if unitOf addr ≠ 0 ∨ subunitOf addr ≠ 0 then protoErr
    else if !stateAllowed bus.xbusState .recvdDesc then protoErr
    else if !bus.unique then pure ⟨-EBUSY, [.setstate .recvdDesc]⟩
    else if !bus.wq then pure ⟨-ENODEV, [.setstate .recvdDesc, .revision rev]⟩
    else describeCards bus rev units.toNat

/-- The modes that sync_mode_name has a name for. -/
def syncModeNamed (mode : Byte) : Bool := mode = 0x00 || mode = 0x01 || mode = 0x03 || mode = 0x80

def syncReply : Peek Byte Reply := do
  let mode ← peek 4
  let drift ← peek 5
  pure (if syncModeNamed mode then ⟨0, [.gotNewSyncer mode drift]⟩ else ⟨-EINVAL, []⟩)

/-- Of 5003 errors in a row the first 201 are reported. -/
def errorReported (bus : Bus) : Bool := bus.errorCodes.tmod 5003 ≤ 200

def errorCode (bus : Bus) (xpd : Option Card) : Peek Byte Reply :=
  if errorReported bus then do
    let categoryCode ← peek 4
    let errorbits ← peek 5
    let _ ← if xpd.isNone then notifyBadXpd else pure ()
    let _ ← dumpPacket true
    pure ⟨0, [.firmware categoryCode errorbits]⟩
  else pure ⟨0, []⟩

end Global

section Signals

def fxsSigChanged : Peek Byte Reply := do
  let sigStatus ← peekLines 4
  let sigToggles ← peekLines 8
  pure ⟨0, [.processHookstate sigStatus sigToggles]⟩

def fxoSigChanged : Peek Byte Reply := do
  let sigStatus ← peekLines 4
  let sigToggles ← peekLines 8
  pure ⟨0, [.ringDebounce sigStatus sigToggles]⟩

def setReply : Peek Byte Reply := do
  let status ← peek 4
  pure ⟨0, [.echoStatus status]⟩

end Signals

section Registers

def dumpRegCmd : Peek Byte Unit := do
  let head ← peek 4
  if 5 < regBytes head then pure ()
  else if regIsMultibyte head then do
    let _ ← peekMany 5 (regBytes head)
    pure ()
  else if regBytes head ≠ 5 then pure ()
  else do
    let flags ← peek 5
    let _ ← peek 6
    let _ ← if regDoSubreg flags then peek 7 else peek 6
    if regReadRequest flags then pure ()
    else if regDoDatah flags then do
      let _ ← peek 8
      let _ ← peek 9
      pure ()
    else do
      let _ ← peek 8
      pure ()

/-- The data bytes, for the debug messages that print them. -/
def peekData (debug : Bool) : Peek Byte Unit :=
  if debug then do
    let _ ← peek 8
    let _ ← peek 9
    pure ()
  else pure ()

/-- The last reply is kept when it is to the last request. -/
def keepReply (asked : RegAsked) : Peek Byte (List Act) := do
  let regnum ← peek 6
  if asked.regnum ≠ regnum then pure []
  else do
    let flags ← peek 5
    if asked.doSubreg ≠ regDoSubreg flags then pure []
    else do
      let subreg ← peek 7
      if asked.subreg ≠ subreg then pure []
      else do
        let reg ← peekMany 4 6
        pure [.lastReply reg]

def REG_DTMF_DECODE : Byte := 0x18
def REG_DIGITAL_IOCTRL : Byte := 0x06
def REG_LOOPCLOSURE : Byte := 0x44
def REG_LOOPCLOSURE_ZERO : Byte := 0xF8
def REG_LOOPCLOSURE_LCR : Byte := 1

/-- What a direct register of an FXS card tells. -/
def fxsDirect (portnum : Nat) (regnum : Byte) : Peek Byte (List Act) :=
  if regnum = REG_DTMF_DECODE then do
    let val ← peek 8
    pure [.processDtmf portnum val]
  else if regnum = REG_DIGITAL_IOCTRL then do
    let dataLow ← peek 8
    pure [.processDigitalInputs portnum dataLow]
  else if regnum = REG_LOOPCLOSURE then do
    let val ← peek 8
    let mask := LineMask.bit 32 portnum
    pure (if val &&& REG_LOOPCLOSURE_ZERO = 0 then
      [.processHookstate (if val &&& REG_LOOPCLOSURE_LCR ≠ 0 then mask else 0) mask] else [])
  else pure []

def fxsCardRegisterReply (debug : Bool) (asked : RegAsked) : Peek Byte Reply := do
  let head ← peek 4
  let regnum ← peek 6
  let indirect := regnum = 0x1E
  let _ ← if indirect then peek 7 else peek 6
  let _ ← peekData debug
  let acts ← if indirect then pure [] else fxsDirect (regPortnum head) regnum
  let kept ← keepReply asked
  pure ⟨0, acts ++ kept⟩

def REG_INTERRUPT_SRC : Byte := 0x04
def DAA_REG_CURRENT : Byte := 0x1C
def DAA_REG_VBAT : Byte := 0x1D

def fxoDirect (portno : Nat) (regnum : Byte) : Peek Byte (List Act) :=
  if regnum = REG_INTERRUPT_SRC then do
    let dataLow ← peek 8
    pure [.gotChipInterrupt dataLow portno]
  else if regnum = DAA_REG_VBAT then do
    let dataLow ← peek 8
    pure [.updateBatteryVoltage dataLow portno]
  else if regnum = DAA_REG_CURRENT then do
    let dataLow ← peek 8
    pure [.updateBatteryCurrent dataLow portno]
  else pure []

def fxoCardRegisterReply (debug : Bool) (asked : RegAsked) : Peek Byte Reply := do
  let head ← peek 4
  let regnum ← peek 6
  let acts ← fxoDirect (regPortnum head) regnum
  let _ ← peekData debug
  let kept ← keepReply asked
  pure ⟨0, acts ++ kept⟩

/-- dahdi_hdlc_putbuf of some bytes from a place on. -/
def hdlcPutbuf (room : Option Int) (start bytes : Nat) : Peek Byte (List Act) :=
  match room with
  | none => pure []
  | some room => do
    let left := (min room bytes).toNat
    let data ← peekMany start left
    pure (.hdlcPutbuf data :: if left < bytes then [.hdlcOverrun] else [])

/-- What of a D-channel's piece dahdi_hdlc_putbuf gets. -/
def dchanBytes (head : Byte) : Nat := if regEoframe head then regBytes head - 1 else regBytes head

/-- bri_check_stat, which dumps the piece when its status is bad. -/
def briCheckStat (len : Nat) : Peek Byte (List Act) := do
  let status ← peek (5 + (len - 1))
  if status ≠ 0 then do
    let _ ← peekMany 5 len
    pure [.hdlcAbort status]
  else pure [.hdlcFinish]

def rxDchan (sub : BriXpd) (room : Option Int) : Peek Byte (List Act) := do
  let head ← peek 4
  if regBytes head = 0 then pure []
  else if !sub.xpd.registered then pure []
  else if !sub.xpd.offhookState.getLsbD 2 then pure []
  else do
    let put ← hdlcPutbuf room 5 (dchanBytes head)
    if !regEoframe head then pure put
    else do
      let checked ← briCheckStat (regBytes head)
      pure (put ++ checked)

def A_SU_RD_STA : Byte := 0x30

/-- The debug messages of a reply to a BRI card. -/
def briDebug (debug : Bool) : Peek Byte Unit := do
  let flags ← peek 5
  if regDoSubreg flags then
    if debug then do
      let _ ← peekMany 6 3
      pure ()
    else pure ()
  else do
    let _ ← peek 6
    if debug then do
      let _ ← peek 8
      pure ()
    else pure ()

def briState : Peek Byte (List Act) := do
  let regnum ← peek 6
  if regnum = A_SU_RD_STA then do
    let dataLow ← peek 8
    pure [.suNewState dataLow]
  else pure []

def briCardRegisterReply (debug : Bool) (subs : BriUnit) (asked : Nat → RegAsked)
    (room : Nat → Option Int) : Peek Byte Reply := do
  let head ← peek 4
  match subs (regPortnum head) with
  | none => pure ⟨-EPROTO, []⟩
  | some sub => do
    let _ ← briDebug debug
    if regIsMultibyte head then do
      let acts ← rxDchan sub (room (regPortnum head))
      pure ⟨0, acts⟩
    else do
      let acts ← briState
      let kept ← keepReply (asked (regPortnum head))
      pure ⟨0, acts ++ kept⟩

def REG_FRS0 : Byte := 0x4C
def REG_FRS1 : Byte := 0x4D
def REG_RS1_E : Byte := 0x70
def REG_RS16_E : Byte := 0x7F

def priActs (x : PriXpd) (regnum dataLow : Byte) (plain : Bool) : List Act :=
  (if regnum = REG_FRS0 ∧ plain then [.layer1State dataLow]
    else if regnum = REG_FRS1 ∧ plain then [.regFrs1 dataLow] else []) ++
  if x.isCas ≠ 0 ∧ plain ∧ REG_RS1_E.toNat ≤ regnum.toNat ∧ regnum.toNat ≤ REG_RS16_E.toNat then
    [.processCasDchan regnum dataLow] else []

/-- The subreg bit is only looked at where a register may matter. -/
def priPlain (x : PriXpd) (regnum : Byte) : Peek Byte Bool :=
  if regnum = REG_FRS0 ∨ regnum = REG_FRS1 ∨ x.isCas ≠ 0 then do
    let flags ← peek 5
    pure (!regDoSubreg flags)
  else pure false

def priCardRegisterReply (subs : Nat → Option PriXpd) (asked : Nat → RegAsked) : Peek Byte Reply := do
  let head ← peek 4
  let regnum ← peek 6
  let dataLow ← peek 8
  match subs (regPortnum head) with
  | none => pure ⟨-EPROTO, []⟩
  | some x =>
    if regIsMultibyte head then pure ⟨0, []⟩
    else do
      let plain ← priPlain x regnum
      let kept ← keepReply (asked (regPortnum head))
      pure ⟨0, priActs x regnum dataLow plain ++ kept⟩

def echoCardRegisterReply (subs : Nat → Bool) (asked : Nat → RegAsked) : Peek Byte Reply := do
  let head ← peek 4
  if subs (regPortnum head) then do
    let kept ← keepReply (asked (regPortnum head))
    pure ⟨0, kept⟩
  else pure ⟨-EPROTO, []⟩

def cardRegisterReply (bus : Bus) (unit subunit : Nat) : Card → Peek Byte Reply
  | .fxs _ => fxsCardRegisterReply (bus.dbg DBG_REGS) (bus.requestedReply unit subunit)
  | .fxo _ => fxoCardRegisterReply (bus.dbg DBG_REGS) (bus.requestedReply unit subunit)
  | .bri subs => briCardRegisterReply (bus.dbg DBG_REGS) subs (bus.requestedReply unit) (bus.readRoom unit)
  | .pri subs => priCardRegisterReply subs (bus.requestedReply unit)
  | .echo subs => echoCardRegisterReply subs (bus.requestedReply unit)

def registerDump (debug : Bool) : Peek Byte Unit :=
  if debug then do
    let _ ← dumpRegCmd
    dumpPacket true
  else pure ()

def registerReply (bus : Bus) (unit subunit : Nat) (xpd : Option Card) : Peek Byte Reply :=
  match xpd with
  | none => do
    let _ ← notifyBadXpd
    pure ⟨-EPROTO, []⟩
  | some card => do
    let _ ← registerDump (bus.dbg DBG_REGS)
    cardRegisterReply bus unit subunit card

end Registers

/-- xe->handler on a packet from an address. -/
def handler (bus : Bus) (unit subunit : Nat) (xpd : Option Card) : Entry → Peek Byte Reply
  | .nullReply => nullReply bus
  | .abDescription => abDescription bus
  | .syncReply => syncReply
  | .errorCode => errorCode bus xpd
  | .registerReply => registerReply bus unit subunit xpd
  | .fxsSigChanged => fxsSigChanged
  | .fxoSigChanged => fxoSigChanged
  | .setReply => setReply

/-- packet_process: an error, or the handler that gets the packet. -/
def packetProcess (bus : Bus) (mem : Nat → Byte) : Except Int (Peek Byte Reply) :=
  let addr := mem 3
  if !validXpdAddr addr then .error (-EPROTO)
  else
    let xpd := xpdByaddr bus (unitOf addr) (subunitOf addr)
    match xprotoEntry bus xpd (opcode mem) with
    | none => .error (-EPROTO)
    | some (table, xe) =>
      if !table.packetIsValid (opcode mem) then .error (-EPROTO)
      else .ok (handler bus (unitOf addr) (subunitOf addr) xpd xe)

end Xproto
