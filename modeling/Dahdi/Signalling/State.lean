import Dahdi.Tone.Zone

/-!
The signalling fields of struct dahdi_chan: hook states, the timers of both
directions, the pulse counter, the ring cadence and the tones being sent.
-/
namespace Signalling
open Tone

/-- DAHDI_SIG_*, with `other` for the signallings without hook states. -/
inductive Sig where
  | none
  | fxsls
  | fxsgs
  | fxsks
  | fxols
  | fxogs
  | fxoks
  | em
  | emE1
  | sf
  | cas
  | dacsRbs
  | other
  deriving DecidableEq, Repr

/-- The bit __DAHDI_SIG_FXO. -/
def Sig.fxo : Sig → Bool
  | .fxols | .fxogs | .fxoks => true
  | _ => false

/-- The bit __DAHDI_SIG_FXS. -/
def Sig.fxs : Sig → Bool
  | .fxsls | .fxsgs | .fxsks => true
  | _ => false

/-- The signallings of the table outs of dahdi_rbs_sethook. -/
def Sig.known : Sig → Bool
  | .cas | .dacsRbs | .other => false
  | _ => true

inductive TxSig where
  | onhook
  | offhook
  | start
  | kewl
  deriving DecidableEq, Repr

inductive RxSig where
  | onhook
  | offhook
  | start
  | ring
  | initial
  deriving DecidableEq, Repr

inductive TxState where
  | onhook
  | offhook
  | start
  | prewink
  | wink
  | preflash
  | flash
  | debounce
  | afterstart
  | ringon
  | ringoff
  | kewl
  | afterkewl
  | pulsebreak
  | pulsemake
  | pulseafter
  deriving DecidableEq, Repr

inductive Event where
  | onhook
  | ringoffhook
  | winkflash
  | dialcomplete
  | ringeron
  | ringeroff
  | hookcomplete
  | pulseStart
  | ringbegin
  | pulsedigit (digit : Char)
  deriving DecidableEq, Repr

inductive DigitMode where
  | dtmf
  | mfr1
  | pulse
  | mfr2Fwd
  | mfr2Rev
  deriving DecidableEq, Repr

/-- struct dahdi_tone_state -/
structure ToneState where
  v11 : Int
  v21 : Int
  v31 : Int
  v12 : Int
  v22 : Int
  v32 : Int
  modulate : Int
  deriving DecidableEq, Repr

/-- A pointer to a tone, with the zone it was taken from. -/
structure CurTone where
  zone : Zone
  ref : ToneRef

/-- What dahdi_rbs_sethook asks of the span: that there is one, DAHDI_FLAG_RBS and
    the operations it has. -/
structure Line where
  span : Bool
  rbs : Bool
  rbsbits : Bool
  hooksig : Bool
  deriving DecidableEq, Repr

/-- The times set by DAHDI_SET_PARAMS. -/
structure Times where
  prewinktime : Int
  preflashtime : Int
  winktime : Int
  flashtime : Int
  starttime : Int
  rxwinktime : Int
  rxflashtime : Int
  debouncetime : Int
  pulsebreaktime : Int
  pulsemaketime : Int
  pulseaftertime : Int
  deriving DecidableEq, Repr

/-- `events` lists what was given to __qevent, oldest first. -/
structure Chan where
  sig : Sig
  line : Line
  times : Times
  sigfreeze : Bool
  nonblock : Bool
  txstate : TxState
  txhooksig : TxSig
  rxhooksig : RxSig
  otimer : Int
  itimer : Int
  itimerset : Int
  ringdebtimer : Int
  ringtrailer : Int
  pulsecount : Int
  pulsetimer : Int
  pdialcount : Int
  kewlonhook : Bool
  gotgs : Bool
  ringcadence : Nat → Int
  cadencepos : Nat
  firstcadencepos : Nat
  curzone : Option Zone
  curtone : Option CurTone
  tonep : Int
  ts : ToneState
  dialing : Bool
  digitmode : DigitMode
  txdialbuf : List Char
  events : List Event

def idleTimes : Times :=
  { prewinktime := 50
    preflashtime := 50
    winktime := 150
    flashtime := 750
    starttime := 2000
    rxwinktime := 300
    rxflashtime := 1250
    debouncetime := 600
    pulsebreaktime := 50
    pulsemaketime := 50
    pulseaftertime := 750 }

/-- An FXOKS channel on hook. -/
def idleChan : Chan :=
  { sig := .fxoks
    line := ⟨true, true, true, false⟩
    times := idleTimes
    sigfreeze := false
    nonblock := false
    txstate := .onhook
    txhooksig := .onhook
    rxhooksig := .onhook
    otimer := 0
    itimer := 0
    itimerset := 0
    ringdebtimer := 0
    ringtrailer := 0
    pulsecount := 0
    pulsetimer := 0
    pdialcount := 0
    kewlonhook := false
    gotgs := false
    ringcadence := fun _ => 0
    cadencepos := 0
    firstcadencepos := 0
    curzone := none
    curtone := none
    tonep := 0
    ts := ⟨0, 0, 0, 0, 0, 0, 0⟩
    dialing := false
    digitmode := .dtmf
    txdialbuf := []
    events := [] }

def chunksize : Int := 8
def maxCadence : Nat := 16
def ringofftime : Int := 4000
def afterstartTime : Int := 500
def afterkewlTime : Int := 300
def ringDebounceTime : Int := 2000
def ringtrailerTime : Int := 400
def minpulsetime : Int := 120
def maxpulsetime : Int := 1600
def pulsetimeout : Int := 250

/-- An int. -/
def int32 (v : Int) : Int := v.bmod (2 ^ 32)

theorem int32_small {v : Int} (low : -2 ^ 31 ≤ v) (high : v < 2 ^ 31) : int32 v = v := by
  rw [int32, Int.bmod_eq_of_le] <;> omega

theorem int32_bounds (v : Int) : -2 ^ 31 ≤ int32 v ∧ int32 v < 2 ^ 31 := by
  unfold int32 Int.bmod
  simp only
  split <;> omega

theorem int32_multiple (time : Int) : int32 (time * chunksize) % 8 = 0 := by
  unfold int32 Int.bmod chunksize
  simp only
  split <;> omega

def qevent (chan : Chan) (event : Event) : Chan := { chan with events := chan.events ++ [event] }

/-- Whether dahdi_rbs_sethook acts on the channel. -/
def Chan.takesHook (chan : Chan) : Bool :=
  chan.line.span && chan.line.rbs && (chan.line.rbsbits || chan.line.hooksig) &&
    decide (chan.sig ≠ .dacsRbs)

/-- dahdi_rbs_sethook, but for what it sends to the driver and for the tone of
    single frequency signalling. -/
def rbsSethook (chan : Chan) (txsig : TxSig) (txstate : TxState) (timeout : Int) : Chan :=
  if chan.takesHook = false then chan
  else
    let chan := { chan with txstate := txstate }
    if chan.sig = .sf ∨ chan.line.hooksig = true ∨ chan.sig.known = true then
      { chan with txhooksig := txsig, otimer := int32 (timeout * chunksize) }
    else chan

end Signalling
