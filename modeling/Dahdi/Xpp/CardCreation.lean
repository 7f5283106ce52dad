import Dahdi.Library.GuardedRun
import Dahdi.Library.SlotLedger

/-!
The creation of the cards of an Astribank: new_card of xbus-core.c, create_xpd, xpd_alloc,
phonedev_init and xpd_free of xpp_dahdi.c and the card_new functions, with what they allocate
and the references they take to the modules of the card types.
-/
namespace CardCreation
open SlotLedger (total)

section Data

def MAX_XPDS : Nat := 64
def MAX_SUBUNIT : Nat := 8
def CHANNELS_PERXPD : Nat := 32
def LINES_DIGI_OUT : Nat := 2
def LINES_DIGI_INP : Nat := 4
def EINVAL : Int := 22
def ENODEV : Int := 19

inductive XpdType where
  | fxs | fxo | bri | pri | echo
  deriving DecidableEq

/-- The type of a card by its number. 0 and 6 have no module, and 7 on are not for modules. -/
def xpdType (number : Nat) : Option XpdType :=
  [none, some XpdType.fxs, some .fxo, some .bri, some .pri, some .echo].getD number none

def portsPerSubunit : XpdType → Nat
  | .fxs | .fxo => 8
  | .bri | .pri | .echo => 1

/-- The table has echoops. -/
def definesEchoops (type : XpdType) : Bool := type = .echo

/-- The arrays chans and ec of a phonedev. A pointer is the number of its allocation. -/
structure Phonedev where
  channels : Nat
  chans : Nat → Option Nat
  ec : Nat → Option Nat

/-- A card, with the number of its own allocation. -/
structure Xpd where
  object : Nat
  type : XpdType
  phonedev : Phonedev

/-- The numbers allocated so far and those freed, the table of the cards and their count, the
    references to the modules, and whether the bus has echoops. -/
structure State where
  allocated : Nat
  freed : List Nat
  xpds : Nat → Option Xpd
  numXpds : Int
  refs : XpdType → Int
  echoops : Bool

/-- What the creation of a subunit meets: whether the bus is in RECVD_DESC, the allocation of
    the card and those of its channels one after the other, the two proc entries of every card,
    and that of its type. -/
structure Answers where
  recvdDesc : Bool
  xpd : Bool
  channel : Nat → Bool
  procDir : Bool
  procSummary : Bool
  cardProc : Bool

/-- A card description. -/
structure Desc where
  unit : Fin 8
  type : Fin 256
  subtype : Fin 256
  ports : Fin 256
  portDir : Fin 256

end Data

section Code

def kfree (objects : List Nat) (s : State) : State := { s with freed := s.freed ++ objects }

def cleanupList (p : Phonedev) : List Nat :=
  (List.range p.channels).flatMap fun x => (p.chans x).toList ++ (p.ec x).toList

def phonedevCleanup (p : Phonedev) (s : State) : State := kfree (cleanupList p) s

/-- The loop of phonedev_init, at channel x with so many to go. -/
def phonedevAlloc (channel : Nat → Bool) : Nat → Nat → Phonedev → State → Bool × Phonedev × State
  | 0, _, p, s => (true, p, s)
  | more + 1, x, p, s =>
    if channel (2 * x) then
      let p := { p with chans := Function.update p.chans x (some s.allocated) }
      let s := { s with allocated := s.allocated + 1 }
      if channel (2 * x + 1) then
        phonedevAlloc channel more (x + 1) { p with ec := Function.update p.ec x (some s.allocated) }
          { s with allocated := s.allocated + 1 }
      else (false, p, s)
    else (false, p, s)

def phonedevInit (channels : Nat) (channel : Nat → Bool) (s : State) : Bool × Phonedev × State :=
  match phonedevAlloc channel channels 0 ⟨channels, fun _ => none, fun _ => none⟩ s with
  | (true, p, s) => (true, p, s)
  | (false, p, s) => (false, p, phonedevCleanup p s)

def xpdIdx (unit subunit : Nat) : Nat := unit * MAX_SUBUNIT + subunit

def xpdByaddr (unit subunit : Nat) (s : State) : Option Xpd :=
  if MAX_SUBUNIT < subunit then none else s.xpds (xpdIdx unit subunit)

/-- There is none when it comes to a BUG. -/
def xbusXpdBind (num : Nat) (xpd : Xpd) (s : State) : Option State :=
  if MAX_XPDS ≤ num then none
  else if (s.xpds num).isSome then none
  else some { s with xpds := Function.update s.xpds num (some xpd), numXpds := s.numXpds + 1 }

def xbusXpdUnbind (num : Nat) (s : State) : State :=
  { s with xpds := Function.update s.xpds num none, numXpds := s.numXpds - 1 }

def xprotoGet (type : XpdType) (s : State) : State :=
  { s with refs := Function.update s.refs type (s.refs type + 1) }

def xprotoPut (type : XpdType) (s : State) : State :=
  { s with refs := Function.update s.refs type (s.refs type - 1) }

/-- The exit of xpd_alloc after a failure, with a card. -/
def allocErr (xpd : Xpd) (s : State) : State := kfree [xpd.object] (phonedevCleanup xpd.phonedev s)

def xpdAlloc (num : Nat) (type : XpdType) (channels : Nat) (a : Answers) (s : State) : Option (Option Xpd × State) :=
  if CHANNELS_PERXPD < channels then some (none, s)
  else if !a.xpd then some (none, s)
  else
    let object := s.allocated
    match phonedevInit channels a.channel { s with allocated := s.allocated + 1 } with
    | (false, p, s) => some (none, allocErr ⟨object, type, p⟩ s)
    | (true, p, s) =>
      match xbusXpdBind num ⟨object, type, p⟩ s with
      | none => none
      | some s =>
        if a.procDir && a.procSummary then some (some ⟨object, type, p⟩, xprotoGet type s)
        else some (none, allocErr ⟨object, type, p⟩ s)

def xpdFree (num : Nat) (xpd : Xpd) (s : State) : State :=
  kfree [xpd.object] (phonedevCleanup xpd.phonedev (xbusXpdUnbind num (xprotoPut xpd.type s)))

/-- The checks of the card_new functions. -/
def cardAccepts (type : XpdType) (subunitPorts : Nat) (toPhone : Bool) : Bool :=
  match type with
  | .fxs => toPhone
  | .fxo => !toPhone
  | .bri | .pri | .echo => subunitPorts = 1

def cardChannels (type : XpdType) (unit subtype subunitPorts : Nat) : Nat :=
  match type with
  | .fxs =>
    min (if subtype = 2 then 6 else 8) subunitPorts +
      if unit = 0 ∧ subtype ≠ 4 then LINES_DIGI_OUT + LINES_DIGI_INP else 0
  | .fxo => min (if subtype = 2 then 2 else 8) subunitPorts
  | .bri => min 3 CHANNELS_PERXPD
  | .pri => min 31 CHANNELS_PERXPD
  | .echo => 0

/-- The type makes proc entries of its own. -/
def hasCardProc : XpdType → Bool
  | .fxs | .fxo | .bri => true
  | .pri | .echo => false

def cardNew (num : Nat) (type : XpdType) (unit subtype subunitPorts : Nat) (toPhone : Bool) (a : Answers) (s : State) :
    Option (Option Xpd × State) :=
  if !cardAccepts type subunitPorts toPhone then some (none, s)
  else
    match xpdAlloc num type (cardChannels type unit subtype subunitPorts) a s with
    | none => none
    | some (none, s) => some (none, s)
    | some (some xpd, s) =>
      if hasCardProc type && !a.cardProc then some (none, xpdFree num xpd s) else some (some xpd, s)

def toPhone (d : Desc) (subunit : Nat) : Bool := d.portDir.val.testBit subunit

def createXpd (d : Desc) (type : XpdType) (subunit subunitPorts : Nat) (a : Answers) (s : State) : Option (Int × State) :=
  if (xpdByaddr d.unit subunit s).isSome then some (0, s)
  else if subunitPorts = 0 ∨ CHANNELS_PERXPD < subunitPorts then some (0, s)
  else
    match cardNew (xpdIdx d.unit subunit) type d.unit d.subtype subunitPorts (toPhone d subunit) a s with
    | none => none
    | some (none, s) => some (-EINVAL, s)
    | some (some _, s) => some (0, s)

/-- The loop of new_card, at a subunit with so many to go. -/
def subunitLoop (d : Desc) (type : XpdType) (a : Nat → Answers) : Nat → Nat → Int → State → Option (Int × State)
  | 0, _, _, s => some (0, s)
  | more + 1, i, remainingPorts, s =>
    let subunitPorts := min (portsPerSubunit type : Int) remainingPorts
    if subunitPorts ≤ 0 then some (-ENODEV, s)
    else if !(a i).recvdDesc then some (-ENODEV, s)
    else
      match createXpd d type i subunitPorts.toNat (a i) s with
      | none => none
      | some (ret, s) =>
        if ret < 0 then some (ret, s)
        else subunitLoop d type a more (i + 1) (remainingPorts - portsPerSubunit type) s

def subunits (d : Desc) (type : XpdType) : Nat := (d.ports + portsPerSubunit type - 1) / portsPerSubunit type

/-- Whether xproto_get finds the module of the type comes with the answers. -/
def newCard (d : Desc) (loaded : Bool) (a : Nat → Answers) (s : State) : Option (Int × State) :=
  match xpdType d.type with
  | none => some (-EINVAL, s)
  | some type =>
    if !loaded then some (-EINVAL, s)
    else
      let s := xprotoGet type s
      if definesEchoops type && s.echoops then some (-EINVAL, s)
      else
        let s := { s with echoops := s.echoops || definesEchoops type }
        match subunitLoop d type a (subunits d type) 0 d.ports s with
        | none => none
        | some (ret, s) => some (ret, xprotoPut type s)

end Code

end CardCreation
