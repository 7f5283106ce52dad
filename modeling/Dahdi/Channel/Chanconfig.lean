import Dahdi.Library.PointerChain
import Dahdi.Library.GuardedRun

/-!
DAHDI_CHANCONFIG: the signalling of a channel, its flags, its master with the chain of
slaves, and its network device. What the driver, the network and the allocator answer is
given with each request.
-/
namespace Chanconfig
open Followers PointerChain

abbrev Sig := BitVec 32

def sigClear : Sig := 0x80
def sigHdlcraw : Sig := 0x180
def sigHdlcfcs : Sig := 0x380
def sigHdlcnet : Sig := 0x780
def sigSlave : Sig := 0x800
def sigCas : Sig := 0x8000
def sigDacsBit : Sig := 0x10000
def sigDacs : Sig := 0x10080
def sigHardhdlc : Sig := 0x80080
def sigMtp2 : Sig := 0x100380

/-- All of these bits are set. -/
def has (sigtype bits : Sig) : Bool := decide (sigtype &&& bits = bits)

structure Flags where
  audio : Bool
  clear : Bool
  hdlc : Bool
  fcs : Bool
  nostdtxrx : Bool
  mtp2 : Bool
  netdev : Bool
  deriving DecidableEq, Repr

/-- `hdlcnetdev` is whether the pointer is set, and `up` the flag IFF_UP of the device. -/
structure Chan (T : Type) where
  sigcap : Sig
  sig : Sig
  idlebits : Int
  flags : Flags
  master : T
  nextslave : Option T
  hdlcnetdev : Bool
  up : Bool
  digitalmon : Bool
  confna : Int
  dacsChan : Option T
  deflaw : Int
  deriving DecidableEq, Repr

abbrev Chans (T : Type) := T → Chan T

/-- The spans with their channels in order, what chan_from_num finds and whether
    CONFIG_DAHDI_NET is set. The position of a channel counts from one, and a pseudo
    channel has no span. -/
structure Board (T S : Type) where
  span : T → Option S
  chans : S → List T
  chanpos : T → Nat
  number : Int → Option T
  net : Bool
  once : ∀ s, (chans s).Nodup
  placed : ∀ t s, span t = some s → ∃ before behind, chans s = before ++ t :: behind ∧
    chanpos t = before.length + 1
  member : ∀ s, ∀ t ∈ chans s, span t = some s

structure Request where
  chan : Int
  sigtype : Sig
  master : Int
  idlebits : Int
  deflaw : Int
  deriving DecidableEq, Repr

/-- The results of dahdi_chan_dacs, of the driver's chanconfig and of the registration of
    the network device, whether its two parts are allocated, and whether the request can be
    copied back. -/
structure Answers where
  dacs : Int
  chanconfig : Int
  hdlcAlloc : Bool
  allocHdlcdev : Bool
  register : Int
  copied : Bool
  deriving DecidableEq, Repr

def einval : Int := 22
def ebusy : Int := 16
def enosys : Int := 38
def efault : Int := 14

variable {T S : Type} [DecidableEq T]

def setChan (s : Chans T) (t : T) (c : Chan T) : Chans T := Function.update s t c

/-- The loop of recalc_slaves over channels, and the end of the list. -/
def linkSlaves (master : T → T) (chan : T) : T → List T → (T → Option T) → T → Option T
  | last, [], nextslave => Function.update nextslave last none
  | last, x :: rest, nextslave =>
    if master x = chan then
      linkSlaves master chan x rest (Function.update nextslave last (some x))
    else linkSlaves master chan last rest nextslave

def setNext (s : Chans T) (nextslave : T → Option T) : Chans T :=
  fun t => { s t with nextslave := nextslave t }

/-- The channels of the span from the position of a channel on, which are the ones that
    stand after it. -/
def behind (b : Board T S) (t : T) : List T :=
  match b.span t with
  | none => []
  | some s => (b.chans s).drop (b.chanpos t)

/-- recalc_slaves -/
def recalcSlaves (b : Board T S) (chan : T) (s : Chans T) : Chans T :=
  match b.span chan with
  | none => s
  | some _ =>
    setNext s (linkSlaves (fun t => (s t).master) chan chan (behind b chan) fun t => (s t).nextslave)

/-- The new master, the signalling and the channel for a cross connect; none is -EINVAL. -/
def target (b : Board T S) (s : Chans T) (chan : T) (r : Request) : Option (T × Sig × Option T) :=
  if r.sigtype = sigSlave then (b.number r.master).map fun m => (m, (s m).sig, none)
  else if has r.sigtype sigDacsBit then (b.number r.idlebits).map fun d => (chan, r.sigtype, some d)
  else some (chan, r.sigtype, none)

/-- A channel that supports clear channels supports HDLC and cross connects as well. -/
def supports (sigcap sigtype : Sig) : Bool :=
  has (if sigcap &&& sigClear ≠ 0 then sigcap ||| (sigHdlcnet ||| sigDacs) else sigcap) sigtype

/-- dahdi_have_netdev -/
def haveNetdev (b : Board T S) (c : Chan T) : Bool := b.net && c.flags.netdev

/-- The network device is unregistered and freed. -/
def dropNetdev (b : Board T S) (c : Chan T) : Chan T :=
  if haveNetdev b c then
    { c with hdlcnetdev := false, up := false, flags := { c.flags with netdev := false } }
  else c

/-- The channel becomes its own master, and its old master loses it. -/
def unlink (b : Board T S) (s : Chans T) (chan : T) : Chans T :=
  if (s chan).master ≠ chan then
    recalcSlaves b (s chan).master (setChan s chan { s chan with master := chan, nextslave := none })
  else s

/-- The signalling and the flags set along with it. -/
def signalled (sigtype : Sig) (idlebits : Int) (c : Chan T) : Chan T :=
  { c with
    sig := sigtype
    idlebits := if sigtype = sigCas then idlebits else 0
    flags := { c.flags with
      audio := !has sigtype sigClear
      clear := has sigtype sigClear
      hdlc := has sigtype sigHdlcraw
      fcs := has sigtype sigHdlcfcs } }

/-- The cross connect of a channel. -/
def connected (idlebits : Int) (dacsChan : Option T) (c : Chan T) : Chan T :=
  match dacsChan with
  | none => c
  | some d => { c with digitalmon := true, confna := idlebits, dacsChan := some d }

def enslave (b : Board T S) (s : Chans T) (chan newmaster : T) : Chans T :=
  let s := setChan s chan { s chan with master := newmaster }
  if newmaster ≠ chan then recalcSlaves b newmaster s else s

/-- The flags set once the master is. -/
def typed (sigtype : Sig) (c : Chan T) : Chan T :=
  { c with flags := { c.flags with
    hdlc := c.flags.hdlc && !has sigtype sigHardhdlc
    fcs := c.flags.fcs && !has sigtype sigHardhdlc
    nostdtxrx := has sigtype sigHardhdlc
    mtp2 := has sigtype sigMtp2 } }

/-- The network device of a channel that is configured for one. -/
def makeNetdev (b : Board T S) (newmaster chan : T) (a : Answers) (c : Chan T) : Int × Chan T :=
  if b.net = true ∧ newmaster = chan ∧ c.sig = sigHdlcnet then
    if a.hdlcAlloc = false then (-1, { c with hdlcnetdev := false })
    else if a.allocHdlcdev = false then (-1, { c with hdlcnetdev := true })
    else if a.register ≠ 0 then (a.register, { c with hdlcnetdev := true })
    else (0, { c with hdlcnetdev := true, up := false, flags := { c.flags with netdev := true } })
  else (0, c)

/-- The part of dahdi_ioctl_chanconfig after the configuration of the channel; without a
    span the kernel does not survive the call of the driver. -/
def finish (b : Board T S) (s : Chans T) (chan newmaster : T) (res : Int) (r : Request) (a : Answers) :
    Option (Int × Chans T) :=
  if res ≠ 0 then some (res, s)
  else
    match b.span chan with
    | none => none
    | some _ =>
      if a.chanconfig ≠ 0 then some (a.chanconfig, s)
      else
        let (res, c) := makeNetdev b newmaster chan a (s chan)
        if res ≠ 0 then some (res, setChan s chan c)
        else some (if a.copied then 0 else -efault, setChan s chan { c with deflaw := r.deflaw })

/-- The configuration of a channel that supports the signalling. -/
def configure (b : Board T S) (s : Chans T) (chan newmaster : T) (sigtype : Sig)
    (dacsChan : Option T) (r : Request) (a : Answers) : Option (Int × Chans T) :=
  let s := setChan s chan (signalled sigtype r.idlebits (s chan))
  if has sigtype sigDacsBit = true ∧ dacsChan = none then some (-einval, s)
  else
    let s := setChan s chan (connected r.idlebits dacsChan (s chan))
    let s := enslave b s chan newmaster
    let s := setChan s chan (typed sigtype (s chan))
    finish b s chan newmaster (if has sigtype sigDacsBit then a.dacs else 0) r a

/-- The channel, its new master, the signalling and the channel for a cross connect of a
    request that is not refused at once. -/
def accepted (b : Board T S) (s : Chans T) (r : Request) : Except Int (T × T × Sig × Option T) :=
  match b.number r.chan with
  | none => .error (-einval)
  | some chan =>
    match target b s chan r with
    | none => .error (-einval)
    | some (newmaster, sigtype, dacsChan) =>
      if haveNetdev b (s chan) = true ∧ (s chan).up = true then .error (-ebusy)
      else if b.net = false ∧ sigtype = sigHdlcnet then .error (-enosys)
      else .ok (chan, newmaster, sigtype, dacsChan)

/-- dahdi_ioctl_chanconfig -/
def chanconfig (b : Board T S) (s : Chans T) (r : Request) (a : Answers) : Option (Int × Chans T) :=
  match accepted b s r with
  | .error e => some (e, s)
  | .ok (chan, newmaster, sigtype, dacsChan) =>
    let s := setChan s chan (dropNetdev b (s chan))
    let bad := !supports (s chan).sigcap sigtype
    let s := unlink b s chan
    if bad then some (-einval, s) else configure b s chan newmaster sigtype dacsChan r a

end Chanconfig
