import Dahdi.Library.CString
import Dahdi.Library.GuardedRun
import Dahdi.Signalling.EventQueue
import Dahdi.Signalling.SendTone

/-!
The dialing string in the bytes of txdialbuf: __do_dtmf and DAHDI_DIAL on the buffer,
with a note of what becomes of each character.
-/
namespace DialBuffer
open Tone Signalling CString GuardedRun

def nul : Char := Char.ofNat 0

/-- A digit mode is selected, a tone or pulses are started, a character is passed over
    at this digit mode, off hook or not and with a zone or not, or DIALCOMPLETE is given. -/
inductive Note where
  | mode (c : Char)
  | tone (c : Char)
  | pulse (c : Char)
  | skip (c : Char) (digitmode : DigitMode) (offhook zoned : Bool)
  | complete
  deriving DecidableEq, Repr

/-- The character taken from the string. -/
def Note.taken : Note → Option Char
  | .mode c | .tone c | .pulse c | .skip c _ _ _ => some c
  | .complete => none

/-- The character given to the generation of tones or pulses. -/
def Note.handed : Note → Option Char
  | .tone c | .pulse c => some c
  | _ => none

def offhook (chan : Chan) : Bool := decide (chan.txhooksig = .offhook)

def skipped (chan : Chan) (c : Char) : Note := .skip c chan.digitmode (offhook chan) chan.curzone.isSome

def noted (n : Note) (r : Chan × List Note) : Chan × List Note := (r.1, n :: r.2)

/-- What __do_dtmf makes of a character, with `again` for the passes after it. -/
def dialChar (g : Globals) (again : Chan → Option (Chan × List Note)) (c : Char) (chan : Chan) :
    Option (Chan × List Note) :=
  match modeOf c with
  | some mode => (again { chan with digitmode := mode, tonep := 0 }).map (noted (.mode c))
  | none =>
    if c ≠ 'W' ∧ chan.digitmode = .pulse then
      match decimal c with
      | some digit =>
        if chan.txhooksig = .offhook then
          some
            (rbsSethook { chan with pdialcount := if digit = 0 then 10 else digit } .onhook
              .pulsebreak chan.times.pulsebreaktime, [.pulse c])
        else (again chan).map (noted (skipped chan c))
      | none => (again chan).map (noted (skipped chan c))
    else
      match mfTone chan c chan.digitmode with
      | some t =>
        some
          ({ chan with
            curtone := some t
            tonep := 0
            ts := initToneState (tonePointed g t).wave }, [.tone c])
      | none => (again { chan with curtone := none, tonep := 0 }).map (noted (skipped chan c))

/-- The loop of __do_dtmf, for so many passes. -/
def doDtmfLoop (g : Globals) : Nat → Chan → Option (Chan × List Note)
  | 0, _ => none
  | passes + 1, chan =>
    match chan.txdialbuf with
    | [] => none
    | c :: _ =>
      if c = nul then some (qevent { chan with dialing := false } .dialcomplete, [.complete])
      else dialChar g (doDtmfLoop g passes) c { chan with txdialbuf := moveDown chan.txdialbuf }

/-- __do_dtmf -/
def doDtmf (g : Globals) (chan : Chan) : Option (Chan × List Note) := doDtmfLoop g maxDtmfBuf chan

/-- The letters of Latin-1 in lower case have an upper case, but for two. -/
def toupper (c : Char) : Char :=
  if 97 ≤ c.toNat ∧ c.toNat ≤ 122 ∨ 223 ≤ c.toNat ∧ c.toNat ≤ 254 ∧ c.toNat ≠ 247 then
    Char.ofNat (c.toNat - 32)
  else c

/-- The string of a request, ended in the buffer and in upper case. -/
def request (dialstr : List Char) : List Char :=
  (contents nul (dialstr.take (maxDtmfBuf - 1))).map toupper

/-- No tone and nothing to dial. -/
def stop (chan : Chan) : Chan :=
  { chan with
    curtone := none
    tonep := 0
    dialing := false
    txdialbuf := store chan.txdialbuf 0 [nul]
    pdialcount := 0 }

def text (chan : Chan) : List Char := contents nul chan.txdialbuf

/-- ioctl_dahdi_dial -/
def ioctlDial (g : Globals) (chan : Chan) (op : DialOp) (dialstr : List Char) :
    Option (Option ToneError × Chan × List Note) :=
  if chan.curzone.isNone then some (some .enodata, chan, [])
  else
    match op with
    | .cancel => some (none, stop chan, [])
    | .replace =>
      (doDtmf g { chan with
        txdialbuf := strcpy nul chan.txdialbuf (request dialstr)
        dialing := true }).map fun r => (none, r)
    | .append =>
      if maxDtmfBuf - 1 ≤ (request dialstr).length + (text chan).length then
        some (some .ebusy, chan, [])
      else
        let chan := { chan with
          txdialbuf := strlcpy nul chan.txdialbuf (text chan).length (request dialstr)
            (maxDtmfBuf - (text chan).length) }
        if chan.dialing then some (none, chan, [])
        else (doDtmf g { chan with dialing := true }).map fun r => (none, r)
    | .other => some (some .einval, chan, [])

/-- The end of a tone: on to the next one, or to the next digit. -/
def toneEnd (g : Globals) (chan : Chan) : Option (Chan × List Note) :=
  match chan.curtone with
  | none => some (chan, [])
  | some cur =>
    match (tonePointed g cur).next with
    | none =>
      let chan := { chan with tonep := 0, curtone := none }
      if chan.dialing then doDtmf g chan else some (chan, [])
    | some ref =>
      let chan := { chan with tonep := 0, curtone := some ⟨cur.zone, ref⟩ }
      if ref ≠ cur.ref then
        some ({ chan with ts := initToneState (tonePointed g ⟨cur.zone, ref⟩).wave }, [])
      else some (chan, [])

/-- A channel with the notes of all its characters and the characters of the accepted
    requests, but for those discarded before they were taken. -/
structure Dialer where
  chan : Chan
  eventq : EventQueue
  notes : List Note
  owed : List Char

def Dialer.taken (s : Dialer) : List Char := s.notes.filterMap Note.taken

def Dialer.handed (s : Dialer) : List Char := s.notes.filterMap Note.handed

/-- The events given along with the notes. -/
def announce (notes : List Note) (q : EventQueue) : EventQueue :=
  (notes.filter fun n => decide (n = .complete)).foldl (fun q _ => saveEvent q .dialcomplete) q

def after (s : Dialer) (owed : List Char) (r : Chan × List Note) : Dialer :=
  { chan := r.1
    eventq := announce r.2 s.eventq
    notes := s.notes ++ r.2
    owed := owed }

/-- What is owed when the rest of the string is discarded. -/
def Dialer.settled (s : Dialer) : List Char := s.owed.take s.taken.length

def accept (s : Dialer) (op : DialOp) (dialstr : List Char) (res : Option ToneError) : List Char :=
  if res.isSome then s.owed
  else
    match op with
    | .append => s.owed ++ request dialstr
    | .replace => s.settled ++ request dialstr
    | .cancel => s.settled
    | .other => s.owed

/-- `pulseAfter` is the end of the pause after a digit in pulses, `stop` what a write and
    DAHDI_HOOK do to the string, and `sendTone` a DAHDI_SENDTONE that comes to this tone. -/
inductive Op where
  | dial (op : DialOp) (dialstr : List Char)
  | toneEnd
  | pulseAfter
  | stop
  | sendTone (curtone : Option CurTone) (dialing : Bool)
  | hook (txhooksig : TxSig)
  | zone (curzone : Option Zone)
  | getEvent

def next (g : Globals) (s : Dialer) : Op → Option Dialer
  | .dial op dialstr =>
    (ioctlDial g s.chan op dialstr).map fun r => after s (accept s op dialstr r.1) r.2
  | .toneEnd => (toneEnd g s.chan).map (after s s.owed)
  | .pulseAfter => (doDtmf g { s.chan with txstate := .offhook }).map (after s s.owed)
  | .stop => some (after s s.settled (stop s.chan, []))
  | .sendTone curtone dialing =>
    some (after s s.settled ({ stop s.chan with curtone := curtone, dialing := dialing }, []))
  | .hook txhooksig => some (after s s.owed ({ s.chan with txhooksig := txhooksig }, []))
  | .zone curzone => some (after s s.owed ({ s.chan with curzone := curzone }, []))
  | .getEvent => some { s with eventq := (Signalling.getEvent s.eventq).2 }

/-- A channel as it is allocated, with any settings. -/
def Fresh (s : Dialer) : Prop :=
  s.chan.txdialbuf = List.replicate maxDtmfBuf nul ∧ s.eventq.eventinidx = 0 ∧
    s.eventq.eventoutidx = 0 ∧ s.notes = [] ∧ s.owed = []

def sys (g : Globals) : System Dialer Op where
  start := Fresh
  step s op s' := next g s op = some s'

end DialBuffer
