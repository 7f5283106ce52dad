import Dahdi.Library.GuardedRun
import Dahdi.Library.RefCount
import Dahdi.Signalling.SendTone

/-!
Tone zones and the channels that hold them: zones at their addresses with their
reference counts, pointers to tones, the ioctls that load, free and select zones, and
what sets the current tone of a channel.
-/
namespace ToneZones
open Tone Signalling RefCount GuardedRun
variable {Z T : Type}

/-- A pointer to a tone. `words` is the memory behind the array of the regular tones,
    read as one. -/
inductive Pointer (Z : Type) where
  | entry (zone : Z) (place : Place)
  | dtmfSilence
  | mfr1Silence
  | mfr2Silence
  | tonePause
  | words (first second : Int)
  deriving DecidableEq, Repr

/-- What a tone of this zone refers to. -/
def addressIn (z : Z) : ToneRef → Pointer Z
  | .inZone place => .entry z place
  | .dtmfSilence => .dtmfSilence
  | .mfr1Silence => .mfr1Silence
  | .mfr2Silence => .mfr2Silence
  | .tonePause => .tonePause

structure Chan (Z : Type) where
  curzone : Option Z
  curtone : Option (Pointer Z)
  tonep : Int
  dialing : Bool
  digitmode : DigitMode
  txdialbuf : List Char
  pdialcount : Int
  deriving DecidableEq, Repr

/-- A zone whose last reference was put is freed, and another may be loaded to its
    address. The silences are given by their lengths. -/
structure State (Z T : Type) where
  dialparams : DialParams
  dtmfSilence : Int
  mfr1Silence : Int
  mfr2Silence : Int
  zone : Z → Zone
  refs : Z → Int
  toneZones : List Z
  chan : T → Chan Z

def Live (s : State Z T) (z : Z) : Prop := 0 < s.refs z

instance (s : State Z T) (z : Z) : Decidable (Live s z) := inferInstanceAs (Decidable (0 < s.refs z))

/-- The samples of a tone and the one after it. There is no telling what is found in
    memory that was freed. -/
def toneAt (s : State Z T) : Pointer Z → Option (Int × Option (Pointer Z))
  | .entry z place =>
    if Live s z then
      some (((s.zone z).tone place).tonesamples, ((s.zone z).tone place).next.map (addressIn z))
    else none
  | .dtmfSilence => some (s.dtmfSilence, none)
  | .mfr1Silence => some (s.mfr1Silence, none)
  | .mfr2Silence => some (s.mfr2Silence, none)
  | .tonePause => some (500 * samplesPerMs, none)
  | .words _ _ => none

def nextTone (s : State Z T) (p : Pointer Z) : Option (Pointer Z) := (toneAt s p).bind Prod.snd

/-- The tones reached from one through the next links. -/
def Leads (s : State Z T) : Pointer Z → Pointer Z → Prop :=
  Relation.ReflTransGen fun p q => nextTone s p = some q

/-- dahdi_mf_tone -/
def mfTone (chan : Chan Z) (digit : Char) : Option (Pointer Z) :=
  match chan.curzone with
  | none => none
  | some z =>
    if digit = 'W' then some .tonePause
    else (mfPlace chan.digitmode digit).map (.entry z)

/-- __do_dtmf with this dialing string, for a channel that is off hook or not. -/
def doDtmfFrom (offhook : Bool) : List Char → Chan Z → Chan Z
  | [], chan => { chan with txdialbuf := [], dialing := false }
  | c :: rest, chan =>
    let chan := { chan with txdialbuf := rest }
    match modeOf c with
    | some mode => doDtmfFrom offhook rest { chan with digitmode := mode, tonep := 0 }
    | none =>
      if c ≠ 'W' ∧ chan.digitmode = .pulse then
        match decimal c with
        | some digit =>
          if offhook then { chan with pdialcount := if digit = 0 then 10 else digit }
          else doDtmfFrom offhook rest chan
        | none => doDtmfFrom offhook rest chan
      else
        match mfTone chan c with
        | some p => { chan with curtone := some p, tonep := 0 }
        | none => doDtmfFrom offhook rest { chan with curtone := none, tonep := 0 }

def doDtmf (offhook : Bool) (chan : Chan Z) : Chan Z := doDtmfFrom offhook chan.txdialbuf chan

/-- What dahdi_hangup does to the tones of a channel. -/
def hangup (chan : Chan Z) : Chan Z :=
  { chan with curtone := none, dialing := false, txdialbuf := [], pdialcount := 0 }

def stopTone (chan : Chan Z) : Chan Z := { hangup chan with tonep := 0 }

/-- ioctl_dahdi_dial -/
def ioctlDial (offhook : Bool) (chan : Chan Z) (op : DialOp) (dialstr : List Char) :
    Option ToneError × Chan Z :=
  let dialstr := (dialstr.take (maxDtmfBuf - 1)).map Char.toUpper
  if chan.curzone.isNone then (some .enodata, chan)
  else
    match op with
    | .cancel => (none, stopTone chan)
    | .replace => (none, doDtmf offhook { chan with txdialbuf := dialstr, dialing := true })
    | .append =>
      if maxDtmfBuf - 1 ≤ dialstr.length + chan.txdialbuf.length then (some .ebusy, chan)
      else
        let chan := { chan with txdialbuf := chan.txdialbuf ++ dialstr }
        if chan.dialing then (none, chan)
        else (none, doDtmf offhook { chan with dialing := true })
    | .other => (some .einval, chan)

/-- start_tone_digit -/
def startToneDigit (s : State Z T) (chan : Chan Z) (tone : Int) : Option ToneError × Chan Z :=
  match chan.curzone with
  | none => (some .enodata, chan)
  | some z =>
    let chan := if chan.digitmode = .dtmf then { chan with dialing := true } else chan
    match continuousPlace chan.digitmode tone with
    | none => (some .einval, chan)
    | some place =>
      if ((s.zone z).tone place).tonesamples = 0 then (some .enosys, chan)
      else (none, { chan with curtone := some (.entry z place) })

/-- The element of `tones`; behind its end stand the DTMF tones of the zone. -/
def slot (s : State Z T) (z : Z) (tone : Int) : Option (Pointer Z) :=
  if tone = toneMax then
    if wildTone (s.zone z) then
      some (.words ((s.zone z).tone (.dtmf 0)).wave.fac1 ((s.zone z).tone (.dtmf 0)).wave.initV21)
    else none
  else ((s.zone z).tones tone.toNat).map (.entry z)

/-- start_tone -/
def startTone (s : State Z T) (chan : Chan Z) (tone : Int) : Option ToneError × Chan Z :=
  let chan := stopTone chan
  if tone = -1 then (none, chan)
  else
    match chan.curzone with
    | none => (some .enodata, chan)
    | some z =>
      if 0 ≤ tone ∧ tone ≤ toneMax then
        match slot s z tone with
        | some p => (none, { chan with curtone := some p })
        | none => (some .enosys, chan)
      else if chan.digitmode = .dtmf ∨ chan.digitmode = .mfr2Fwd ∨ chan.digitmode = .mfr2Rev then
        startToneDigit s chan tone
      else (some .einval, { chan with dialing := false })

/-- The end of a tone: on to the one after it, or to the next digit. -/
def advance (offhook : Bool) (next : Option (Pointer Z)) (chan : Chan Z) : Chan Z :=
  let chan := { chan with tonep := 0, curtone := next }
  if next.isNone ∧ chan.dialing then doDtmf offhook chan else chan

/-- The tone branch of __dahdi_getbuf_chunk, with so many bytes of the chunk to fill. -/
def played (s : State Z T) (chan : Chan Z) (bytes : Int) (offhook : Bool) : Option (Chan Z) :=
  match chan.curtone with
  | none => some chan
  | some p =>
    match toneAt s p with
    | none => none
    | some (tonesamples, next) =>
      let tonep := chan.tonep + min (tonesamples - chan.tonep) bytes
      if tonesamples ≤ tonep then some (advance offhook next { chan with tonep := tonep })
      else some { chan with tonep := tonep }

/-- The tone a pointer stands for. -/
def Points (zone : Z → Zone) : Pointer Z → CurTone → Prop
  | .entry z place, cur => cur.zone = zone z ∧ cur.ref = .inZone place
  | .dtmfSilence, cur => cur.ref = .dtmfSilence
  | .mfr1Silence, cur => cur.ref = .mfr1Silence
  | .mfr2Silence, cur => cur.ref = .mfr2Silence
  | .tonePause, cur => cur.ref = .tonePause
  | .words _ _, _ => False

/-- The channel with its zone and its tone in place of the pointers to them. -/
structure Shows (zone : Z → Zone) (chan : Chan Z) (t : Signalling.Chan) : Prop where
  curzone : t.curzone = chan.curzone.map zone
  curtone : Option.Rel (Points zone) chan.curtone t.curtone
  tonep : t.tonep = chan.tonep
  dialing : t.dialing = chan.dialing
  digitmode : t.digitmode = chan.digitmode
  txdialbuf : t.txdialbuf = chan.txdialbuf
  pdialcount : t.pdialcount = chan.pdialcount

section shows
variable {zone : Z → Zone} {chan : Chan Z} {t : Signalling.Chan} {g : Globals}

theorem shows_sethook {txsig : TxSig} {txstate : TxState} {timeout : Int} (shows_ : Shows zone chan t) :
    Shows zone chan (rbsSethook t txsig txstate timeout) := by
  rw [rbsSethook]
  split
  case isTrue => exact shows_
  case isFalse =>
    simp only
    split
    all_goals
      exact ⟨shows_.curzone, shows_.curtone, shows_.tonep, shows_.dialing, shows_.digitmode,
        shows_.txdialbuf, shows_.pdialcount⟩

theorem mf_shows {digit : Char} (shows_ : Shows zone chan t) :
    Option.Rel (Points zone) (mfTone chan digit) (Signalling.mfTone t digit t.digitmode) := by
  rw [mfTone, Signalling.mfTone, shows_.curzone, shows_.digitmode]
  cases chan.curzone with
  | none => exact Option.Rel.none
  | some z =>
    simp only [Option.map_some]
    split
    case isTrue => exact Option.Rel.some rfl
    case isFalse =>
      cases mfPlace chan.digitmode digit with
      | none => exact Option.Rel.none
      | some place => exact Option.Rel.some ⟨rfl, rfl⟩

/-- __do_dtmf follows the pointers of the channel to the tones of its zone. -/
theorem dial_shows {offhook : Bool} {digits : List Char} (shows_ : Shows zone chan t)
    (hook : offhook = decide (t.txhooksig = .offhook)) :
    Shows zone (doDtmfFrom offhook digits chan) (Signalling.doDtmfFrom g digits t) := by
  induction digits generalizing chan t with
  | nil =>
    exact ⟨shows_.curzone, shows_.curtone, shows_.tonep, rfl, shows_.digitmode, rfl,
      shows_.pdialcount⟩
  | cons digit rest ih =>
    have here : Shows zone { chan with txdialbuf := rest }
        { t with txdialbuf := rest, digitmode := chan.digitmode } :=
      ⟨shows_.curzone, shows_.curtone, shows_.tonep, shows_.dialing, rfl, rfl, shows_.pdialcount⟩
    have mode := shows_.digitmode
    rw [doDtmfFrom, Signalling.doDtmfFrom]
    simp only [mode]
    cases modeOf digit with
    | some chosen =>
      simp only
      apply ih
      · exact ⟨here.curzone, here.curtone, rfl, here.dialing, rfl, rfl, here.pdialcount⟩
      · exact hook
    | none =>
      simp only
      by_cases pulses : digit ≠ 'W' ∧ chan.digitmode = .pulse
      · rw [if_pos pulses, if_pos pulses]
        cases decimal digit with
        | none =>
          apply ih here
          exact hook
        | some count =>
          simp only
          by_cases off : t.txhooksig = .offhook
          · rw [hook, if_pos off, if_pos (decide_eq_true off)]
            apply shows_sethook
            exact ⟨here.curzone, here.curtone, here.tonep, here.dialing, rfl, rfl, rfl⟩
          · have on : ¬ offhook = true := by simp [hook, off]
            rw [if_neg off, if_neg on]
            apply ih here
            exact hook
      · rw [if_neg pulses, if_neg pulses]
        have tone := @mf_shows Z zone _ _ digit here
        cases held : mfTone { chan with txdialbuf := rest } digit with
        | none =>
          cases found : Signalling.mfTone { t with txdialbuf := rest, digitmode := chan.digitmode } digit
              chan.digitmode with
          | none =>
            simp only
            apply ih
            · exact ⟨here.curzone, Option.Rel.none, rfl, here.dialing, rfl, rfl, here.pdialcount⟩
            · exact hook
          | some cur =>
            rw [held, found] at tone
            cases tone
        | some p =>
          cases found : Signalling.mfTone { t with txdialbuf := rest, digitmode := chan.digitmode } digit
              chan.digitmode with
          | none =>
            rw [held, found] at tone
            cases tone
          | some cur =>
            rw [held, found] at tone
            exact ⟨here.curzone, tone, rfl, here.dialing, rfl, rfl, here.pdialcount⟩

end shows

section zones
variable [DecidableEq Z] [DecidableEq T]

def setChan (s : State Z T) (c : T) (chan : Chan Z) : State Z T :=
  { s with chan := Function.update s.chan c chan }

@[simp] theorem set_chan (s : State Z T) (c : T) (chan : Chan Z) :
    (setChan s c chan).chan c = chan := by
  simp only [setChan, Function.update_self]

/-- dahdi_register_tone_zone for a zone at this address, put again where the number is
    taken. -/
def registerToneZone (s : State Z T) (z : Z) (zone : Zone) : Option LoadError × State Z T :=
  let s := { s with zone := Function.update s.zone z zone, refs := Function.update s.refs z 1 }
  if ∃ cur ∈ s.toneZones, (s.zone cur).num = zone.num then
    (some .einval, { s with refs := put s.refs (some z) })
  else (none, { s with toneZones := s.toneZones ++ [z] })

/-- dahdi_ioctl_loadzone with the memory at this address. -/
def loadzone (s : State Z T) (z : Z) (th : ToneDefHeader) : Option LoadError × State Z T :=
  if th.zone < 0 ∨ 255 < th.zone then (some .einval, s)
  else if th.count < 0 ∨ maxTones < th.count then (some .einval, s)
  else if maxSize < sizeofZone + th.count * sizeofTone then (some .e2big, s)
  else
    match loadTones s.dialparams th th.count.toNat (emptyWorkarea th) with
    | .error e => (some e, s)
    | .ok work => registerToneZone s z (linkTones th.count work)

def numbered (s : State Z T) (num : Int) : Option Z :=
  s.toneZones.find? fun z => decide (((s.zone z).num : Int) = num)

/-- dahdi_ioctl_freezone -/
def freezone (s : State Z T) (num : Int) : State Z T :=
  match numbered s num with
  | none => s
  | some z =>
    { s with
      toneZones := s.toneZones.filter fun cur => decide (cur ≠ z)
      refs := put s.refs (some z) }

/-- dahdi_ioctl_defaultzone -/
def defaultzone (s : State Z T) (num : Int) : State Z T :=
  match numbered s num with
  | none => s
  | some z => { s with toneZones := z :: s.toneZones.filter fun cur => decide (cur ≠ z) }

/-- dahdi_ioctl_set_dialparams -/
def setDialparams (s : State Z T) (tdp : DialParams) : State Z T :=
  let gdp := acceptParams tdp s.dialparams
  { s with
    dialparams := gdp
    dtmfSilence := gdp.dtmfTonelen * Tone.chunksize
    mfr1Silence := gdp.mfv1Tonelen * Tone.chunksize
    mfr2Silence := gdp.mfr2Tonelen * Tone.chunksize
    zone := fun z => if z ∈ s.toneZones then retimeZone gdp (s.zone z) else s.zone z }

/-- The zone set_tone_zone finds: the first one for the default zone. -/
def findZone (s : State Z T) (zone : Int) : Option Z :=
  if zone = -1 ∧ s.toneZones ≠ [] then s.toneZones.head? else numbered s (zone % 256)

/-- set_tone_zone -/
def setToneZone (s : State Z T) (c : T) (zone : Int) : Option ToneError × State Z T :=
  match findZone s zone with
  | none => (some .enodata, s)
  | some z =>
    (none,
      { setChan s c { s.chan c with curzone := some z } with
        refs := put (get s.refs (some z)) (s.chan c).curzone })

/-- initialize_channel -/
def initializeChannel (s : State Z T) (c : T) : State Z T :=
  (setToneZone (setChan s c { stopTone (s.chan c) with digitmode := .dtmf }) c (-1)).2

/-- close_channel -/
def closeChannel (s : State Z T) (c : T) : State Z T :=
  { setChan s c { hangup (s.chan c) with curzone := none, digitmode := .dtmf } with
    refs := put s.refs (s.chan c).curzone }

/-- `stop` is what a write and DAHDI_HOOK do to the tones of a channel, and `afterDigit`
    the end of the pause after a digit dialled in pulses. -/
inductive Op (Z T : Type) where
  | loadzone (z : Z) (th : ToneDefHeader)
  | freezone (num : Int)
  | defaultzone (num : Int)
  | setDialparams (tdp : DialParams)
  | setToneZone (c : T) (zone : Int)
  | sendTone (c : T) (tone : Int)
  | dial (c : T) (op : DialOp) (dialstr : List Char) (offhook : Bool)
  | afterDigit (c : T) (offhook : Bool)
  | played (c : T) (bytes : Int) (offhook : Bool)
  | stop (c : T)
  | hangup (c : T)
  | opens (c : T)
  | close (c : T)

/-- Memory for a zone is given where no zone is, and a tone that is not there has no
    next state. -/
def next (s : State Z T) : Op Z T → Option (State Z T)
  | .loadzone z th => if Live s z then none else some (loadzone s z th).2
  | .freezone num => some (freezone s num)
  | .defaultzone num => some (defaultzone s num)
  | .setDialparams tdp => some (setDialparams s tdp)
  | .setToneZone c zone => some (setToneZone s c zone).2
  | .sendTone c tone => some (setChan s c (startTone s (s.chan c) tone).2)
  | .dial c op dialstr offhook => some (setChan s c (ioctlDial offhook (s.chan c) op dialstr).2)
  | .afterDigit c offhook => some (setChan s c (doDtmf offhook (s.chan c)))
  | .played c bytes offhook => (played s (s.chan c) bytes offhook).map (setChan s c)
  | .stop c => some (setChan s c (stopTone (s.chan c)))
  | .hangup c => some (setChan s c (hangup (s.chan c)))
  | .opens c => some (initializeChannel s c)
  | .close c => some (closeChannel s c)

def idleChan : Chan Z := ⟨none, none, 0, false, .dtmf, [], 0⟩

/-- The module as it is loaded, with whatever is in the memory. -/
def loaded (zone : Z → Zone) : State Z T :=
  { dialparams := initialGlobals.dialparams
    dtmfSilence := initialGlobals.dtmfSilence.tonesamples
    mfr1Silence := initialGlobals.mfr1Silence.tonesamples
    mfr2Silence := initialGlobals.mfr2Silence.tonesamples
    zone := zone
    refs := fun _ => 0
    toneZones := []
    chan := fun _ => idleChan }

def sys : System (State Z T) (Op Z T) where
  start s := ∃ zone, s = loaded zone
  step s op s' := next s op = some s'

/-- The zones on the list by their contents. -/
def globals (s : State Z T) : Globals :=
  { dialparams := s.dialparams
    toneZones := s.toneZones.map s.zone
    dtmfSilence := ⟨noWave, s.dtmfSilence, none⟩
    mfr1Silence := ⟨noWave, s.mfr1Silence, none⟩
    mfr2Silence := ⟨noWave, s.mfr2Silence, none⟩
    tonePause := ⟨noWave, 500 * samplesPerMs, none⟩ }

theorem globals_loaded (zone : Z → Zone) : globals (loaded zone : State Z T) = initialGlobals := rfl

section listed
variable {s : State Z T} {z : Z}

theorem map_outside {zone : Zone} (outside : z ∉ s.toneZones) :
    s.toneZones.map (Function.update s.zone z zone) = s.toneZones.map s.zone := by
  apply List.map_congr_left
  intro y member
  exact Function.update_of_ne (ne_of_mem_of_not_mem member outside) _ _

theorem register_globals {zone : Zone} (outside : z ∉ s.toneZones) :
    Tone.registerToneZone zone (globals s) =
      match registerToneZone s z zone with
      | (none, s') => .ok (globals s')
      | (some e, _) => .error e := by
  have taken : (∃ cur ∈ (globals s).toneZones, cur.num = zone.num) ↔
      ∃ cur ∈ s.toneZones, (Function.update s.zone z zone cur).num = zone.num := by
    constructor
    · intro found
      obtain ⟨_, member, same⟩ := found
      obtain ⟨y, listed, rfl⟩ := List.mem_map.mp member
      have other : y ≠ z := ne_of_mem_of_not_mem listed outside
      exact ⟨y, listed, by rw [Function.update_of_ne other, same]⟩
    · intro found
      obtain ⟨y, listed, same⟩ := found
      have other : y ≠ z := ne_of_mem_of_not_mem listed outside
      rw [Function.update_of_ne other] at same
      exact ⟨s.zone y, List.mem_map_of_mem listed, same⟩
  rw [Tone.registerToneZone, registerToneZone]
  by_cases refused : ∃ cur ∈ (globals s).toneZones, cur.num = zone.num
  · simp only [if_pos refused, if_pos (taken.mp refused)]
  · rw [if_neg refused, if_neg (mt taken.mpr refused)]
    simp only [globals, List.map_append, map_outside outside, List.map_cons, List.map_nil,
      Function.update_self]

/-- A zone loaded to memory that is not in use is loaded to the list of zones. -/
theorem load_globals {th : ToneDefHeader} (outside : z ∉ s.toneZones) :
    Tone.loadzone th (globals s) =
      match loadzone s z th with
      | (none, s') => .ok (globals s')
      | (some e, _) => .error e := by
  rw [Tone.loadzone, loadzone]
  split
  case isTrue => rfl
  case isFalse =>
    split
    case isTrue => rfl
    case isFalse =>
      split
      case isTrue => rfl
      case isFalse =>
        have params : (globals s).dialparams = s.dialparams := rfl
        rw [params]
        cases loadTones s.dialparams th th.count.toNat (emptyWorkarea th) with
        | error e => rfl
        | ok work => exact register_globals outside

omit [DecidableEq T] in
theorem erase_found {zones : List Z} {chosen : Z → Bool} (once : zones.Nodup)
    (found : zones.find? chosen = some z) :
    zones.eraseP chosen = zones.filter fun cur => decide (cur ≠ z) := by
  induction zones with
  | nil => cases found
  | cons y rest ih =>
    obtain ⟨fresh, once⟩ := List.nodup_cons.mp once
    cases here : chosen y with
    | true =>
      rw [List.find?_cons_of_pos here] at found
      rw [← Option.some.inj found, List.eraseP_cons_of_pos here, List.filter_cons_of_neg (by simp)]
      symm
      apply List.filter_eq_self.mpr
      intro x member
      exact decide_eq_true (ne_of_mem_of_not_mem member fresh)
    | false =>
      have later : ¬ chosen y = true := by simp [here]
      rw [List.find?_cons_of_neg later] at found
      have other : y ≠ z := by
        rintro rfl
        exact later (List.find?_some found)
      rw [List.eraseP_cons_of_neg later, List.filter_cons_of_pos (by simp [other]), ih once found]

theorem free_globals {num : Int} (once : s.toneZones.Nodup) :
    globals (freezone s num) = Tone.freezone num (globals s) := by
  rw [Tone.freezone, freezone]
  cases found : numbered s num with
  | none =>
    have absent : ∀ y ∈ s.toneZones, ¬ ((s.zone y).num : Int) = num := by
      intro y member
      simpa using List.find?_eq_none.mp found y member
    simp only [globals]
    rw [List.eraseP_of_forall_not]
    intro zone member
    obtain ⟨y, listed, rfl⟩ := List.mem_map.mp member
    simpa using absent y listed
  | some z =>
    simp only [globals]
    rw [List.eraseP_map, ← erase_found once found]
    rfl

theorem params_globals (tdp : DialParams) :
    globals (setDialparams s tdp) = Tone.setDialparams tdp (globals s) := by
  simp only [globals, setDialparams, Tone.setDialparams, DahdiTone.retime, List.map_map]
  congr 1
  apply List.map_congr_left
  intro y member
  simp only [if_pos member, Function.comp]

end listed

end zones

end ToneZones
