import Dahdi.Signalling.State

/-!
The tone generator and the dialing string: dahdi_init_tone_state,
dahdi_tone_nextsample, dahdi_mf_tone and __do_dtmf.
-/
namespace Signalling
open Tone

/-- The tone a pointer points to. -/
def tonePointed (g : Globals) (t : CurTone) : DahdiTone :=
  match t.ref with
  | .inZone place => t.zone.tone place
  | .dtmfSilence => g.dtmfSilence
  | .mfr1Silence => g.mfr1Silence
  | .mfr2Silence => g.mfr2Silence
  | .tonePause => g.tonePause

def initToneState (w : Wave) : ToneState :=
  { v11 := 0
    v21 := w.initV21
    v31 := w.initV31
    v12 := 0
    v22 := w.initV22
    v32 := w.initV32
    modulate := w.modulate }

def toneNextsample (ts : ToneState) (w : Wave) : Int × ToneState :=
  let v31 := int32 (int32 (w.fac1 * ts.v31) / 2 ^ 15 - ts.v21)
  let v32 := int32 (int32 (w.fac2 * ts.v32) / 2 ^ 15 - ts.v22)
  let next :=
    { v11 := ts.v21
      v21 := ts.v31
      v31 := v31
      v12 := ts.v22
      v22 := ts.v32
      v32 := v32
      modulate := ts.modulate }
  if ts.modulate = 0 then ((v31 + v32).bmod (2 ^ 16), next)
  else
    let p := Int.natAbs (int32 (v32 - 32768))
    let p := (int32 (p * 9)).tdiv 10 + 1
    ((int32 (v31 * p) / 2 ^ 15).bmod (2 ^ 16), next)

/-- The digits 0 to 9 by their number, for the digit modes that have ten. -/
def decimal (digit : Char) : Option Nat :=
  if '0' ≤ digit ∧ digit ≤ '9' then some (digit.toNat - '0'.toNat) else none

/-- The index of a digit in the DTMF tones. -/
def dtmfIndex (digit : Char) : Option Nat :=
  if digit = '*' then some 10
  else if digit = '#' then some 11
  else if 'A' ≤ digit ∧ digit ≤ 'D' then some (12 + (digit.toNat - 'A'.toNat))
  else decimal digit

/-- The index of a digit in the MFR1 tones. -/
def mfr1Index (digit : Char) : Option Nat :=
  if digit = '*' then some 10
  else if digit = '#' then some 11
  else if 'A' ≤ digit ∧ digit ≤ 'C' then some (12 + (digit.toNat - 'A'.toNat))
  else decimal digit

/-- The index of a digit in the MFR2 tones. -/
def mfr2Index (digit : Char) : Option Nat :=
  if '1' ≤ digit ∧ digit ≤ '9' then some (digit.toNat - '1'.toNat)
  else if 'A' ≤ digit ∧ digit ≤ 'F' then some (9 + (digit.toNat - 'A'.toNat))
  else none

/-- The entry of the zone for a digit. -/
def mfPlace (mode : DigitMode) (digit : Char) : Option Place :=
  match mode with
  | .pulse => none
  | .dtmf => (dtmfIndex digit).map .dtmf
  | .mfr1 => (mfr1Index digit).map .mfr1
  | .mfr2Fwd => (mfr2Index digit).map .mfr2Fwd
  | .mfr2Rev => (mfr2Index digit).map .mfr2Rev

/-- dahdi_mf_tone -/
def mfTone (chan : Chan) (digit : Char) (mode : DigitMode) : Option CurTone :=
  match chan.curzone with
  | none => none
  | some zone =>
    if digit = 'W' then some ⟨zone, .tonePause⟩
    else (mfPlace mode digit).map fun place => ⟨zone, .inZone place⟩

/-- The digit mode a letter of the dialing string selects. -/
def modeOf (c : Char) : Option DigitMode :=
  if c = 'T' then some .dtmf
  else if c = 'M' then some .mfr1
  else if c = 'O' then some .mfr2Fwd
  else if c = 'R' then some .mfr2Rev
  else if c = 'P' then some .pulse
  else none

/-- __do_dtmf with this dialing string. -/
def doDtmfFrom (g : Globals) : List Char → Chan → Chan
  | [], chan => qevent { chan with txdialbuf := [], dialing := false } .dialcomplete
  | c :: rest, chan =>
    let chan := { chan with txdialbuf := rest }
    match modeOf c with
    | some mode => doDtmfFrom g rest { chan with digitmode := mode, tonep := 0 }
    | none =>
      if c ≠ 'W' ∧ chan.digitmode = .pulse then
        match decimal c with
        | some digit =>
          if chan.txhooksig = .offhook then
            rbsSethook { chan with pdialcount := if digit = 0 then 10 else digit } .onhook .pulsebreak
              chan.times.pulsebreaktime
          else doDtmfFrom g rest chan
        | none => doDtmfFrom g rest chan
      else
        match mfTone chan c chan.digitmode with
        | some t =>
          { chan with
            curtone := some t
            tonep := 0
            ts := initToneState (tonePointed g t).wave }
        | none => doDtmfFrom g rest { chan with curtone := none, tonep := 0 }

/-- __do_dtmf -/
def doDtmf (g : Globals) (chan : Chan) : Chan := doDtmfFrom g chan.txdialbuf chan

end Signalling
