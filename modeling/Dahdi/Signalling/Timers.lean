import Dahdi.Signalling.Dialing

/-!
The state machine of robbed bit signalling: rbs_itimer_expire,
__rbs_otimer_expire, __dahdi_hooksig_pvt and what _dahdi_transmit and
_dahdi_receive do with the timers of a channel for each chunk. EMFLASH, EMPULSE
and FXSFLASH are not defined, RINGBEGIN is.
-/
namespace Signalling
open Tone

/-- rbs_itimer_expire -/
def rbsItimerExpire (chan : Chan) : Chan :=
  match chan.sig with
  | .fxols | .fxogs | .fxoks => { qevent chan .onhook with gotgs := false }
  | _ => qevent chan .ringoffhook

/-- The event that wakes a writer that does not block. -/
def hookcomplete (chan : Chan) : Chan := if chan.nonblock then qevent chan .hookcomplete else chan

/-- The turn of the ringer at the end of the silent time. -/
def ringoffExpire (chan : Chan) : Chan :=
  let pos := if maxCadence ≤ chan.cadencepos + 1 then chan.firstcadencepos else chan.cadencepos + 1
  let pos := if chan.ringcadence pos = 0 then chan.firstcadencepos else pos
  qevent (rbsSethook { chan with cadencepos := pos } .start .ringon (chan.ringcadence pos)) .ringeron

/-- The turn of the ringer at the end of the loud time. Without a zone the end of
    the list follows a NULL pointer. -/
def ringonExpire (chan : Chan) : Option Chan :=
  let pos := if maxCadence ≤ chan.cadencepos + 1 then 0 else chan.cadencepos + 1
  if chan.ringcadence pos = 0 then
    chan.curzone.map fun zone =>
      qevent (rbsSethook { chan with cadencepos := 0 } .offhook .ringoff (zone.ringcadence 0))
        .ringeroff
  else
    some (qevent (rbsSethook { chan with cadencepos := pos } .offhook .ringoff (chan.ringcadence pos))
      .ringeroff)

/-- The end of the debounce time: the far end may have gone on hook meanwhile. -/
def debounceExpire (chan : Chan) : Chan :=
  let chan := rbsSethook chan .offhook .offhook 0
  if chan.rxhooksig = .onhook ∧ 2 < chan.times.rxflashtime then
    let time := int32 (chan.times.rxflashtime * chunksize)
    { chan with itimerset := time, itimer := time }
  else chan

def afterkewlExpire (chan : Chan) : Chan :=
  let chan := if chan.kewlonhook then qevent chan .onhook else chan
  { chan with txstate := .onhook, gotgs := false }

/-- __rbs_otimer_expire -/
def rbsOtimerExpire (g : Globals) (chan : Chan) : Option Chan :=
  let chan := { chan with otimer := 0 }
  match chan.txstate with
  | .ringoff => some (ringoffExpire chan)
  | .ringon => ringonExpire chan
  | .start => some (rbsSethook chan .offhook .afterstart afterstartTime)
  | .prewink => some (rbsSethook chan .offhook .wink chan.times.winktime)
  | .wink => some (hookcomplete (rbsSethook chan .onhook .onhook 0))
  | .preflash => some (rbsSethook chan .onhook .flash chan.times.flashtime)
  | .flash => some (hookcomplete (rbsSethook chan .offhook .offhook 0))
  | .debounce => some (debounceExpire chan)
  | .afterstart => some (hookcomplete (rbsSethook chan .offhook .offhook 0))
  | .kewl => some (hookcomplete (rbsSethook chan .onhook .afterkewl afterkewlTime))
  | .afterkewl => some (afterkewlExpire chan)
  | .pulsebreak => some (rbsSethook chan .offhook .pulsemake chan.times.pulsemaketime)
  | .pulsemake =>
    let chan := if chan.pdialcount ≠ 0 then { chan with pdialcount := chan.pdialcount - 1 } else chan
    if chan.pdialcount ≠ 0 then
      some (rbsSethook chan .onhook .pulsebreak chan.times.pulsebreaktime)
    else
      some { chan with
        txstate := .pulseafter
        otimer := int32 (chan.times.pulseaftertime * chunksize) }
  | .pulseafter => some (doDtmf g { chan with txstate := .offhook })
  | .onhook | .offhook => some chan

/-- What _dahdi_transmit does with the timer of a channel. -/
def transmitTick (g : Globals) (chan : Chan) : Option Chan :=
  if chan.otimer = 0 then some chan
  else
    let chan := { chan with otimer := int32 (chan.otimer - chunksize) }
    if chan.otimer ≤ 0 then rbsOtimerExpire g chan else some chan

/-- A ring that is being asserted stops. -/
def fxoStopRing (chan : Chan) : Chan :=
  let chan :=
    if chan.txstate = .start then rbsSethook chan .offhook .afterstart afterstartTime else chan
  { chan with kewlonhook := false }

/-- What the time on hook was: a pulse, a flash or no time at all. -/
def fxoBreak (chan : Chan) : Chan :=
  if chan.itimer ≠ 0 then
    let plen := int32 (chan.itimerset - chan.itimer)
    if plen ≤ maxpulsetime then
      if minpulsetime ≤ plen then
        let chan :=
          { chan with
            pulsecount := int32 (chan.pulsecount + 1)
            pulsetimer := pulsetimeout
            itimer := chan.itimerset }
        if chan.pulsecount = 1 then qevent chan .pulseStart else chan
      else chan
    else qevent chan .winkflash
  else if chan.gotgs = false then { qevent chan .ringoffhook with gotgs := true }
  else chan

/-- An FXO facing interface goes off hook. -/
def fxoOffhook (chan : Chan) : Chan :=
  { fxoBreak (fxoStopRing chan) with itimerset := 0, itimer := 0 }

/-- An FXO facing interface goes on hook. -/
def fxoOnhook (chan : Chan) : Chan :=
  let chan :=
    if chan.txstate ≠ .debounce ∧ chan.txstate ≠ .kewl ∧ chan.txstate ≠ .afterkewl then
      let time := int32 (chan.times.rxflashtime * chunksize)
      { chan with itimerset := time, itimer := time }
    else chan
  if chan.txstate = .kewl then { chan with kewlonhook := true } else chan

def fxoHooksig (chan : Chan) (rxsig : RxSig) : Chan :=
  match rxsig with
  | .offhook => fxoOffhook chan
  | .onhook => fxoOnhook chan
  | _ => chan

def emHooksig (chan : Chan) (rxsig : RxSig) : Chan :=
  match rxsig with
  | .offhook =>
    let time := int32 (chan.times.rxwinktime * chunksize)
    { chan with itimerset := time, itimer := time }
  | .onhook =>
    let chan :=
      if chan.itimer ≠ 0 then qevent chan .winkflash
      else { qevent chan .onhook with gotgs := false }
    { chan with itimerset := 0, itimer := 0 }
  | _ => chan

def fxsHooksig (chan : Chan) (rxsig : RxSig) : Chan :=
  if rxsig = .onhook then
    let chan := { chan with ringdebtimer := ringDebounceTime, ringtrailer := 0 }
    if chan.txstate ≠ .debounce then qevent { chan with gotgs := false } .onhook else chan
  else chan

/-- __dahdi_hooksig_pvt -/
def hooksigPvt (chan : Chan) (rxsig : RxSig) : Chan :=
  if chan.rxhooksig = rxsig then chan
  else if chan.sigfreeze then chan
  else
    let chan := { chan with rxhooksig := rxsig }
    let chan :=
      if chan.sig.fxs = true ∧ rxsig = .ring ∧ chan.ringdebtimer = 0 then qevent chan .ringbegin
      else chan
    match chan.sig with
    | .em | .emE1 => emHooksig chan rxsig
    | .fxsks => if chan.txstate ≠ .offhook then chan else fxsHooksig chan rxsig
    | .fxsgs => fxsHooksig chan rxsig
    | .fxogs =>
      let chan :=
        if rxsig = .start ∧ chan.gotgs = false then
          { qevent chan .ringoffhook with gotgs := true }
        else chan
      fxoHooksig chan rxsig
    | .fxols | .fxoks => fxoHooksig chan rxsig
    | _ => chan

def itimerTick (chan : Chan) : Chan :=
  if chan.itimer = 0 then chan
  else
    let chan := { chan with itimer := int32 (chan.itimer - chunksize) }
    if chan.itimer ≤ 0 then rbsItimerExpire chan else chan

/-- The ring debounce timer and the end of a ring. -/
def ringTick (chan : Chan) : Chan :=
  let chan :=
    if chan.ringdebtimer ≠ 0 then { chan with ringdebtimer := int32 (chan.ringdebtimer - 1) } else chan
  if chan.sig.fxs then
    if chan.rxhooksig = .ring then { chan with ringtrailer := ringtrailerTime }
    else if chan.ringtrailer ≠ 0 then
      let chan := { chan with ringtrailer := int32 (chan.ringtrailer - chunksize) }
      if chan.ringtrailer = 0 ∧ chan.ringdebtimer = 0 then qevent chan .ringoffhook else chan
    else chan
  else chan

/-- The digit of a number of pulses. -/
def pulseDigit (count : Int) : Option Char :=
  if 12 < count then none
  else if 11 < count then some '#'
  else if 10 < count then some '*'
  else if 9 < count then some '0'
  else some (Char.ofNat ('0'.toNat + count.toNat))

def pulseTick (chan : Chan) : Chan :=
  if chan.pulsetimer = 0 then chan
  else
    let chan := { chan with pulsetimer := int32 (chan.pulsetimer - 1) }
    if chan.pulsetimer ≤ 0 ∧ chan.pulsecount ≠ 0 then
      let chan :=
        match pulseDigit chan.pulsecount with
        | some digit => qevent chan (.pulsedigit digit)
        | none => chan
      { chan with pulsecount := 0 }
    else chan

/-- What _dahdi_receive does with the timers of a channel. -/
def receiveTick (chan : Chan) : Chan := pulseTick (ringTick (itimerTick chan))

end Signalling
