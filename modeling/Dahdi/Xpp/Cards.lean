import Dahdi.Library.GuardedRun
import Dahdi.Xpp.Xpd

/-!
The operations of the Astribank cards that change what their recomputes read.
A build with DAHDI_AUDIO_NOTIFY has audio_notify, and opens no lines with the D-channel.
-/
namespace Xpp
open LineMask

section Generic

/-- An FXS or FXO card; only FXS searches for FSK patterns. -/
structure GenericCard where
  xpd : Xpd
  searchFskPattern : Lines

inductive GenericOp where
  | recompute
  | markOffhook (pos : Nat) (toOffhook : Bool)
  | ohtPcm (pos : Nat) (pass : Bool)
  | hookstateChanged (pos : Nat) (toOffhook : Bool)
  | vmwiSearch (pos : Nat) (on : Bool)
  | onhookTransfer (pos : Nat) (active neon : Bool)
  | doMuteDtmf (pos : Nat) (muteit : Bool)
  | present (on : Bool)
  | postregistration (on : Bool)
  deriving DecidableEq

def setPresent (xpd : Xpd) (on : Bool) : Xpd := { xpd with cardPresent := on }

def setRegistered (xpd : Xpd) (on : Bool) : Xpd := { xpd with registered := on }

def markOffhook (xpd : Xpd) (pos : Nat) (toOffhook : Bool) : Xpd :=
  genericCardPcmRecompute { xpd with offhookState := mark xpd.offhookState pos toOffhook } 0

def ohtPcm (xpd : Xpd) (pos : Nat) (pass : Bool) : Xpd :=
  genericCardPcmRecompute { xpd with ohtPcmPass := mark xpd.ohtPcmPass pos pass } 0

def hookstateChanged (xpd : Xpd) (pos : Nat) (toOffhook : Bool) : Xpd :=
  let xpd := markOffhook xpd pos toOffhook
  if toOffhook then xpd
  else
    let xpd := ohtPcm xpd pos false
    { xpd with silencePcm := set xpd.silencePcm pos }

/-- vmwi_search, told whether the line has neon indication and the search is on. -/
def vmwiSearch (card : GenericCard) (pos : Nat) (on : Bool) : GenericCard :=
  { card with searchFskPattern := mark card.searchFskPattern pos on }

/-- DAHDI_ONHOOKTRANSFER on FXS, told whether the line is active or its neon blinks. -/
def onhookTransfer (card : GenericCard) (pos : Nat) (active neon : Bool) : GenericCard :=
  if (card.xpd.digitalInputs ||| card.xpd.digitalOutputs).getLsbD pos then card
  else
    let card := { card with xpd := ohtPcm card.xpd pos true }
    if active then
      let card := vmwiSearch card pos neon
      { card with xpd := genericCardPcmRecompute card.xpd card.searchFskPattern }
    else card

def doMuteDtmf (card : GenericCard) (pos : Nat) (muteit : Bool) : GenericCard :=
  let xpd := { card.xpd with muteDtmf := mark card.xpd.muteDtmf pos muteit }
  { card with xpd := genericCardPcmRecompute xpd card.searchFskPattern }

def GenericOp.Allowed (xpd : Xpd) : GenericOp → Prop
  | .markOffhook pos _ => pos < xpd.channels
  | .ohtPcm pos _ => pos < xpd.channels
  | .hookstateChanged pos _ => pos < xpd.channels
  | .vmwiSearch pos _ => pos < xpd.channels
  | .onhookTransfer pos _ _ => pos < xpd.channels
  | .doMuteDtmf pos _ => pos < xpd.channels
  | _ => True

def GenericOp.apply (card : GenericCard) : GenericOp → GenericCard
  | .recompute => { card with xpd := genericCardPcmRecompute card.xpd 0 }
  | .markOffhook pos toOffhook => { card with xpd := Xpp.markOffhook card.xpd pos toOffhook }
  | .ohtPcm pos pass => { card with xpd := Xpp.ohtPcm card.xpd pos pass }
  | .hookstateChanged pos toOffhook => { card with xpd := Xpp.hookstateChanged card.xpd pos toOffhook }
  | .vmwiSearch pos on => Xpp.vmwiSearch card pos on
  | .onhookTransfer pos active neon => Xpp.onhookTransfer card pos active neon
  | .doMuteDtmf pos muteit => Xpp.doMuteDtmf card pos muteit
  | .present on => { card with xpd := setPresent card.xpd on }
  | .postregistration on => { card with xpd := setRegistered card.xpd on }

end Generic

section Bri

inductive BriOp where
  | attach (unit : Nat)
  | detach
  | present (on : Bool)
  | preregistration
  | postregistration (on : Bool)
  | recompute
  | cardOpen (pos : Nat)
  | cardClose (pos : Nat)
  | audioNotify (pos : Nat) (on : Bool)
  deriving DecidableEq

def withOffhook (sub : BriXpd) (mask : Lines) : BriXpd :=
  { sub with xpd := { sub.xpd with offhookState := mask } }

def briMarkOffhook (subs : BriUnit) (i : Nat) (sub : BriXpd) (pos : Nat) (toOffhook : Bool) : BriUnit :=
  briCardPcmRecompute (setSub subs i (withOffhook sub (mark sub.xpd.offhookState pos toOffhook)))

def briOffhookSpan (mask : Lines) : Lines := set (set (set mask 0) 1) 2

def briOnhookSpan (mask : Lines) : Lines := clear (clear (clear mask 0) 1) 2

def briCardOpen (subs : BriUnit) (i : Nat) (sub : BriXpd) (pos : Nat) : BriUnit :=
  if pos = 2 then
    let sub := { sub with dchanIsOpen := true }
    briCardPcmRecompute (setSub subs i (withOffhook sub (briOffhookSpan sub.xpd.offhookState)))
  else subs

/-- Lets go of the D-channel after the recompute. -/
def dchanClosed (subs : BriUnit) (i : Nat) : BriUnit :=
  Function.update subs i ((subs i).map fun sub => { sub with dchanIsOpen := false })

def briCardClose (subs : BriUnit) (i : Nat) (sub : BriXpd) (pos : Nat) : BriUnit :=
  if pos = 2 then
    dchanClosed
      (briCardPcmRecompute (setSub subs i (withOffhook sub (briOnhookSpan sub.xpd.offhookState)))) i
  else if sub.dchanIsOpen then subs
  else briMarkOffhook subs i sub pos false

def briPreregistration (subs : BriUnit) (i : Nat) (sub : BriXpd) : BriUnit :=
  briCardPcmRecompute (setSub subs i
    { sub with xpd := { sub.xpd with digitalSignalling := set sub.xpd.digitalSignalling 2, pvt := true } })

/-- What xpd_alloc leaves in the masks. -/
def freshXpd (unit channels : Nat) (chans : Nat → Chan) : Xpd where
  unit := unit
  channels := channels
  chans := chans
  offhookState := 0
  ohtPcmPass := 0
  digitalOutputs := 0
  digitalInputs := 0
  digitalSignalling := 0
  pcmLen := 0
  wantedPcmMask := 0
  silencePcm := 0
  muteDtmf := 0
  cardPresent := false
  registered := false
  pvt := false

def silentChan : Chan := ⟨Vector.replicate 8 0, Vector.replicate 8 0⟩

def freshBri (unit : Nat) : BriXpd := ⟨freshXpd unit 3 fun _ => silentChan, false⟩

/-- The operation on subunit i, when it is there. -/
def BriOp.applySub (subs : BriUnit) (i : Nat) (sub : BriXpd) : BriOp → BriUnit
  | .attach _ => subs
  | .detach => Function.update subs i none
  | .preregistration => briPreregistration subs i sub
  | .present on => setSub subs i { sub with xpd := setPresent sub.xpd on }
  | .postregistration on => setSub subs i { sub with xpd := setRegistered sub.xpd on }
  | .recompute => briCardPcmRecompute subs
  | .cardOpen pos => briCardOpen subs i sub pos
  | .cardClose pos => briCardClose subs i sub pos
  | .audioNotify pos on => briMarkOffhook subs i sub pos on

/-- dahdi calls the operations of a channel once it has its pvt. -/
def BriOp.Allowed (notify : Bool) (sub : BriXpd) : BriOp → Prop
  | .attach _ => False
  | .cardOpen pos => pos < sub.xpd.channels ∧ sub.xpd.pvt = true
  | .cardClose pos => pos < sub.xpd.channels ∧ sub.xpd.pvt = true
  | .audioNotify pos _ => notify = true ∧ pos < sub.xpd.channels ∧ sub.xpd.pvt = true
  | _ => True

end Bri

section Pri

def DAHDI_CONFIG_D4 : Nat := 4
def DAHDI_CONFIG_ESF : Nat := 5
def DAHDI_CONFIG_AMI : Nat := 6
def DAHDI_CONFIG_B8ZS : Nat := 7
def DAHDI_CONFIG_CCS : Nat := 8
def DAHDI_CONFIG_HDB3 : Nat := 9
def DAHDI_CONFIG_CRC4 : Nat := 10

/-- A lineconfig with these bits of DAHDI_CONFIG. -/
def config (bits : List Nat) : BitVec 32 := bits.foldl set 0

def priLinecompat : PriProtocol → BitVec 32
  | .e1 => config [DAHDI_CONFIG_CCS, DAHDI_CONFIG_CRC4, DAHDI_CONFIG_AMI, DAHDI_CONFIG_HDB3]
  | .t1 => config [DAHDI_CONFIG_D4, DAHDI_CONFIG_ESF, DAHDI_CONFIG_AMI, DAHDI_CONFIG_B8ZS]
  | _ => 0

def priNumChannels : PriProtocol → Nat
  | .e1 => 31
  | .t1 => 24
  | _ => 0

/-- DAHDI_CONFIG_B8ZS, AMI or HDB3, which pri_lineconfig insists on. -/
def framed (lineconfig : BitVec 32) : Bool :=
  lineconfig.getLsbD DAHDI_CONFIG_B8ZS || lineconfig.getLsbD DAHDI_CONFIG_AMI ||
    lineconfig.getLsbD DAHDI_CONFIG_HDB3

/-- The is_cas that the coding of a lineconfig leaves. -/
def codingCas (isCas : Int) (lineconfig : BitVec 32) : Int :=
  if lineconfig.getLsbD DAHDI_CONFIG_ESF || lineconfig.getLsbD DAHDI_CONFIG_D4 then isCas
  else if lineconfig.getLsbD DAHDI_CONFIG_CCS then 0
  else 1

/-- Whether pri_lineconfig gets past its checks. -/
def lineconfigTaken (x : PriXpd) (lineconfig : BitVec 32) : Bool :=
  (lineconfig &&& priLinecompat x.priProtocol) ^^^ lineconfig == 0 && x.priProtocol != .j1 && framed lineconfig

def coded (x : PriXpd) (lineconfig : BitVec 32) : PriXpd :=
  { x with isCas := codingCas x.isCas lineconfig }

def priLineconfig (x : PriXpd) (lineconfig : BitVec 32) : PriXpd :=
  if lineconfigTaken x lineconfig then priCardPcmRecompute (coded x lineconfig) 0 else x

def applyPriProtocol (x : PriXpd) : PriXpd :=
  { x with xpd := { x.xpd with offhookState := x.xpd.wantedPcmMask, pvt := true } }

def bitmask (n : Nat) : Lines := BitVec.ofNat 32 (2 ^ n - 1)

/-- set_pri_proto on an xpd that is not registered, for a supported protocol: the
    first recompute still has the dchan_num of the protocol before. -/
def switchProto (x : PriXpd) (proto : PriProtocol) (dchanNum : Nat) (lineconfig : BitVec 32) : PriXpd :=
  let channels := priNumChannels proto
  let xpd := { x.xpd with channels := channels, offhookState := bitmask channels }
  let x := priCardPcmRecompute { x with priProtocol := proto, isCas := -1, xpd := xpd } 0
  applyPriProtocol (priLineconfig { x with dchanNum := dchanNum } lineconfig)

def setPriProto (x : PriXpd) (proto : PriProtocol) : PriXpd :=
  if x.xpd.registered then x
  else if x.priProtocol ≠ .none ∧ x.priProtocol = proto then x
  else
    match proto with
    | .e1 => switchProto x .e1 16 (config [DAHDI_CONFIG_CCS, DAHDI_CONFIG_CRC4, DAHDI_CONFIG_HDB3])
    | .t1 => switchProto x .t1 24 (config [DAHDI_CONFIG_ESF, DAHDI_CONFIG_B8ZS])
    | _ => x

/-- pri_chanconfig on a channel, told whether the signalling is that of a D-channel. -/
def priChanconfig (x : PriXpd) (channo : Nat) (isDchan : Bool) : PriXpd :=
  let retype (x : PriXpd) (isCas : Int) : PriXpd := if x.priProtocol = .e1 then x else { x with isCas := isCas }
  if isDchan then
    if x.chanconfigDchan ≠ 0 ∧ x.chanconfigDchan ≠ channo then x
    else retype { x with chanconfigDchan := channo } 0
  else retype (if channo = 1 then { x with chanconfigDchan := 0 } else x) 1

def priMarkOffhook (x : PriXpd) (pos : Nat) (toOffhook : Bool) : PriXpd :=
  priCardPcmRecompute { x with xpd := { x.xpd with offhookState := mark x.xpd.offhookState pos toOffhook } } 0

/-- Every line but line d takes the given state. -/
def markOthers (x : PriXpd) (on : Bool) : Lines :=
  (List.range x.xpd.channels).foldl (fun mask i => if i = x.dchanIdx then mask else mark mask i on)
    x.xpd.offhookState

def othersMarked (x : PriXpd) (on : Bool) : PriXpd :=
  { x with xpd := { x.xpd with offhookState := markOthers x on } }

def priCardOpen (notify : Bool) (x : PriXpd) (pos : Nat) : PriXpd :=
  if pos = x.dchanIdx then
    let x := if notify then x else priCardPcmRecompute (othersMarked x true) 0
    { x with dchanIsOpen := true }
  else x

def setFirst (chunk : Chunk) (sample : BitVec 8) : Chunk := chunk.set 0 sample

def firstOf (chunk : Chunk) : BitVec 8 := chunk[0]

def setChan (xpd : Xpd) (i : Nat) (chan : Chan) : Xpd := { xpd with chans := Function.update xpd.chans i chan }

/-- dchan_state(xpd, 0): the D-channel stops, and its first samples are cleared. -/
def dchanStop (x : PriXpd) : PriXpd :=
  if x.isCas ≠ 0 ∨ x.dchanAlive = false then x
  else
    let d := x.dchanIdx
    let chan := x.xpd.chans d
    let xpd :=
      if x.xpd.registered ∧ d < x.xpd.channels then
        setChan x.xpd d ⟨setFirst chan.readchunk 0, setFirst chan.writechunk 0⟩
      else x.xpd
    { x with xpd := xpd, dchanTxSample := 0, dchanRxSample := 0, dchanAlive := false }

def priCardClose (x : PriXpd) (pos : Nat) : PriXpd :=
  if pos = x.dchanIdx then
    { dchanStop (priCardPcmRecompute (othersMarked x false) 0) with dchanIsOpen := false }
  else if x.dchanIsOpen then x
  else priMarkOffhook x pos false

inductive PriOp where
  | recompute
  | present (on : Bool)
  | setPriProto (proto : PriProtocol)
  | spanconfig (lineconfig : BitVec 32)
  | chanconfig (channo : Nat) (isDchan : Bool)
  | preregistration (on : Bool)
  | postregistration (on : Bool)
  | cardOpen (pos : Nat)
  | cardClose (pos : Nat)
  | audioNotify (pos : Nat) (on : Bool)
  deriving DecidableEq

def PriOp.apply (notify : Bool) (x : PriXpd) : PriOp → PriXpd
  | .recompute => priCardPcmRecompute x 0
  | .setPriProto proto => Xpp.setPriProto x proto
  | .spanconfig lineconfig => priLineconfig x lineconfig
  | .chanconfig channo isDchan => priChanconfig x channo isDchan
  | .preregistration on => if on then applyPriProtocol x else x
  | .present on => { x with xpd := setPresent x.xpd on }
  | .postregistration on => { x with xpd := setRegistered x.xpd on }
  | .cardOpen pos => priCardOpen notify x pos
  | .cardClose pos => priCardClose x pos
  | .audioNotify pos on => priMarkOffhook x pos on

def PriOp.Allowed (notify : Bool) (x : PriXpd) : PriOp → Prop
  | .cardOpen pos => pos < x.xpd.channels ∧ x.xpd.pvt = true
  | .cardClose pos => pos < x.xpd.channels ∧ x.xpd.pvt = true
  | .audioNotify pos _ => notify = true ∧ pos < x.xpd.channels ∧ x.xpd.pvt = true
  | _ => True

def freshPri (unit : Nat) : PriXpd where
  xpd := freshXpd unit 31 fun _ => silentChan
  priProtocol := .none
  isCas := 0
  dchanNum := 0
  chanconfigDchan := 0
  dchanIsOpen := false
  dchanAlive := false
  dchanTxSample := 0
  dchanRxSample := 0

end Pri

section System
open GuardedRun

inductive Card where
  | generic (card : GenericCard)
  | bri (subs : BriUnit)
  | pri (x : PriXpd)

/-- A BRI operation names its subunit. -/
inductive CardOp where
  | generic (op : GenericOp)
  | bri (subunit : Nat) (op : BriOp)
  | pri (op : PriOp)
  deriving DecidableEq

/-- A subunit of a BRI card comes with the unit of the others. -/
inductive BriStep (notify : Bool) (subs : BriUnit) (i : Nat) : BriOp → BriUnit → Prop where
  | attach {unit : Nat} : subs i = none → (∀ j sub, subs j = some sub → sub.xpd.unit = unit) →
      BriStep notify subs i (.attach unit) (setSub subs i (freshBri unit))
  | apply {sub : BriXpd} {op : BriOp} : subs i = some sub → op.Allowed notify sub →
      BriStep notify subs i op (op.applySub subs i sub)

inductive Step (notify : Bool) : Card → CardOp → Card → Prop where
  | generic {card : GenericCard} {op : GenericOp} : op.Allowed card.xpd →
      Step notify (.generic card) (.generic op) (.generic (op.apply card))
  | bri {subs subs' : BriUnit} {i : Nat} {op : BriOp} : i < MAX_SUBUNIT → BriStep notify subs i op subs' →
      Step notify (.bri subs) (.bri i op) (.bri subs')
  | pri {x : PriXpd} {op : PriOp} : op.Allowed notify x →
      Step notify (.pri x) (.pri op) (.pri (op.apply notify x))

/-- What FXS_card_new and FXO_card_new leave: some lines may be digital. -/
def freshGeneric (unit channels : Nat) (inputs outputs : Lines) : GenericCard :=
  ⟨{ freshXpd unit channels fun _ => silentChan with digitalInputs := inputs, digitalOutputs := outputs }, 0⟩

inductive Fresh : Card → Prop where
  | generic (unit channels : Nat) (inputs outputs : Lines) : channels ≤ CHANNELS_PERXPD →
      Fresh (.generic (freshGeneric unit channels inputs outputs))
  | bri : Fresh (.bri fun _ => none)
  | pri (unit : Nat) : Fresh (.pri (freshPri unit))

def cards (notify : Bool) : System Card CardOp := ⟨Fresh, Step notify⟩

end System
end Xpp
