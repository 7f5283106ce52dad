import Dahdi.Signalling.Dialing
import Dahdi.Tone.DialParams

/-!
The ioctls that start and stop the tones of a channel: DAHDI_SENDTONE,
DAHDI_DIAL and what DAHDI_SET_DIALPARAMS and DAHDI_SETTONEZONE do to a channel.
-/
namespace Signalling
open Tone

inductive ToneError where
  | einval
  | enodata
  | enosys
  | ebusy
  deriving DecidableEq, Repr

/-- No tone and nothing to dial. -/
def stopTone (t : Chan) : Chan :=
  { t with curtone := none, tonep := 0, dialing := false, txdialbuf := [], pdialcount := 0 }

/-- The entry of a zone for a digit that is played until it is stopped. -/
def continuousPlace (mode : DigitMode) (tone : Int) : Option Place :=
  match mode with
  | .dtmf => if 64 ≤ tone ∧ tone ≤ 79 then some (.dtmfContinuous (tone - 64).toNat) else none
  | .mfr2Fwd => if 96 ≤ tone ∧ tone ≤ 110 then some (.mfr2FwdContinuous (tone - 96).toNat) else none
  | .mfr2Rev => if 112 ≤ tone ∧ tone ≤ 126 then some (.mfr2RevContinuous (tone - 112).toNat) else none
  | _ => none

/-- start_tone_digit -/
def startToneDigit (chan : Chan) (tone : Int) : Option ToneError × Chan :=
  match chan.curzone with
  | none => (some .enodata, chan)
  | some zone =>
    let chan := if chan.digitmode = .dtmf then { chan with dialing := true } else chan
    match continuousPlace chan.digitmode tone with
    | none => (some .einval, chan)
    | some place =>
      if (zone.tone place).tonesamples = 0 then (some .enosys, chan)
      else (none, { chan with curtone := some ⟨zone, .inZone place⟩ })

def startToneState (g : Globals) (chan : Chan) : Chan :=
  match chan.curtone with
  | none => chan
  | some cur => { chan with ts := initToneState (tonePointed g cur).wave }

/-- What tones[16] of a zone is: the first words of its DTMF tones, as a pointer. -/
def wildTone (zone : Zone) : Bool :=
  decide ((zone.tone (.dtmf 0)).wave.fac1 ≠ 0 ∨ (zone.tone (.dtmf 0)).wave.initV21 ≠ 0)

/-- start_tone. Tone 16 passes the check and is read behind the array; a tone
    there has no result. -/
def startTone (g : Globals) (chan : Chan) (tone : Int) : Option (Option ToneError × Chan) :=
  let chan := stopTone chan
  if tone = -1 then some (none, chan)
  else
    match chan.curzone with
    | none => some (some .enodata, chan)
    | some zone =>
      if 0 ≤ tone ∧ tone ≤ toneMax then
        if tone = toneMax ∧ wildTone zone = true then none
        else
          match zone.tones tone.toNat with
          | some place =>
            some (none, startToneState g { chan with curtone := some ⟨zone, .inZone place⟩ })
          | none => some (some .enosys, chan)
      else if chan.digitmode = .dtmf ∨ chan.digitmode = .mfr2Fwd ∨ chan.digitmode = .mfr2Rev then
        let (res, chan) := startToneDigit chan tone
        some (res, startToneState g chan)
      else some (some .einval, { chan with dialing := false })

inductive DialOp where
  | append
  | replace
  | cancel
  | other
  deriving DecidableEq, Repr

def maxDtmfBuf : Nat := 256

/-- ioctl_dahdi_dial; `dialstr` is the string up to its end, at most 255
    characters. -/
def ioctlDial (g : Globals) (chan : Chan) (op : DialOp) (dialstr : List Char) :
    Option ToneError × Chan :=
  let dialstr := (dialstr.take (maxDtmfBuf - 1)).map Char.toUpper
  if chan.curzone.isNone then (some .enodata, chan)
  else
    match op with
    | .cancel => (none, stopTone chan)
    | .replace => (none, doDtmf g { chan with txdialbuf := dialstr, dialing := true })
    | .append =>
      if maxDtmfBuf - 1 ≤ dialstr.length + chan.txdialbuf.length then (some .ebusy, chan)
      else
        let chan := { chan with txdialbuf := chan.txdialbuf ++ dialstr }
        if chan.dialing then (none, chan) else (none, doDtmf g { chan with dialing := true })
    | .other => (some .einval, chan)

/-- The zone set_tone_zone finds: the first one for the default zone. -/
def findZone (g : Globals) (zone : Int) : Option Zone :=
  if zone = -1 ∧ g.toneZones ≠ [] then g.toneZones.head?
  else g.toneZones.find? fun cur => decide ((cur.num : Int) = zone % 256)

/-- The tones of a channel after DAHDI_SET_DIALPARAMS, which changes the zones on
    the list: the zone of the channel and the one its tone is from may be on it
    or not. -/
def retimeChan (gdp : DialParams) (zoneListed toneListed : Bool) (chan : Chan) : Chan :=
  { chan with
    curzone := if zoneListed then chan.curzone.map (retimeZone gdp) else chan.curzone
    curtone :=
      if toneListed then chan.curtone.map fun cur => { cur with zone := retimeZone gdp cur.zone }
      else chan.curtone }

end Signalling
