import Dahdi.Library.GuardedRun
import Dahdi.Signalling.Cadence
import Dahdi.Tone.DialParams

/-!
Two channels whose robbed bits are connected: the table outs of dahdi_rbs_sethook,
dahdi_rbsbits and DAHDI_HOOK. CONFIG_CAC_GROUNDSTART is not defined. What DAHDI_SIG_CAS
makes of its bits is left out.
-/
namespace RbsTrunk
open Signalling GuardedRun
open Tone (Globals initialGlobals)

/-- The bits A, B, C and D. -/
abbrev Bits := BitVec 4

def abit : Bits := 8
def bbit : Bits := 4
def dbit : Bits := 1
def bitsAbcd : Bits := 15
def bitsAbd : Bits := 13
def bitsAcd : Bits := 11
def bitsBcd : Bits := 7
def bitsAc : Bits := 10
def bitsBd : Bits := 5

/-- The table outs of dahdi_rbs_sethook, zero where it says nothing. -/
def outs : Sig → TxSig → Bits
  | .none, .onhook => bitsAcd
  | .em, .offhook | .em, .start => bitsAbcd
  | .fxsls, .onhook => bitsBd
  | .fxsls, .offhook | .fxsls, .start => bitsAbcd
  | .fxsgs, .onhook => bitsBd
  | .fxsgs, .offhook => bitsAbcd
  | .fxsgs, .start => bitsAc
  | .fxsks, .onhook => bitsBd
  | .fxsks, .offhook | .fxsks, .start => bitsAbcd
  | .fxols, .onhook | .fxols, .offhook => bitsBd
  | .fxogs, .onhook => bitsAbcd
  | .fxogs, .offhook => bitsBd
  | .fxoks, .onhook | .fxoks, .offhook => bitsBd
  | .fxoks, .kewl => bitsAbcd
  | .sf, .onhook | .sf, .kewl => bitsBcd
  | .sf, .offhook | .sf, .start => bitsAbcd
  | .emE1, .onhook | .emE1, .kewl => dbit
  | .emE1, .offhook | .emE1, .start => bitsAbd
  | _, _ => 0

/-- What dahdi_q_sig takes for the bits of an idle line: the low byte of in_sig. -/
def qSig : Sig → Bits
  | .fxsls | .fxsks | .fxogs => bbit
  | .fxsgs => abit ||| bbit
  | .emE1 => dbit
  | _ => 0

/-- A channel and its field rxsig. -/
structure End where
  chan : Chan
  rxsig : Bits

/-- txsig, as dahdi_rbs_sethook has left it. -/
def txsig (chan : Chan) : Bits := outs chan.sig chan.txhooksig

/-- On hook or off hook by the A bit. -/
def byAbit (cursig : Bits) : RxSig := if cursig &&& abit ≠ 0 then .offhook else .onhook

/-- dahdi_rbsbits -/
def rbsbits (e : End) (cursig : Bits) : End :=
  if cursig = e.rxsig then e
  else if e.chan.sigfreeze then e
  else
    let chan :=
      match e.chan.sig with
      | .fxogs =>
        if cursig &&& bbit = 0 then hooksigPvt e.chan .start else hooksigPvt e.chan (byAbit cursig)
      | .emE1 | .fxols | .fxoks => hooksigPvt e.chan (byAbit cursig)
      | .em =>
        if cursig &&& abit = e.rxsig &&& abit then e.chan else hooksigPvt e.chan (byAbit cursig)
      | .fxsks | .fxsgs | .fxsls =>
        if cursig &&& bbit = 0 then hooksigPvt e.chan .ring
        else if e.chan.sig ≠ .fxsls ∧ cursig &&& abit ≠ 0 then hooksigPvt e.chan .onhook
        else hooksigPvt e.chan .offhook
      | _ => e.chan
    ⟨chan, cursig⟩

inductive HookOp where
  | onhook
  | offhook
  | ring
  | wink
  | flash
  | ringoff
  deriving DecidableEq, Repr

/-- What DAHDI_HOOK does first: "if dialing, stop it". -/
def stopDial (chan : Chan) : Chan :=
  { chan with curtone := none, dialing := false, txdialbuf := [], tonep := 0, pdialcount := 0 }

/-- DAHDI_HOOK on a span with robbed bit signalling, but for the wait of WINK and FLASH. -/
def ioctlHook (op : HookOp) (chan : Chan) : Option HookError × Chan :=
  let idle := stopDial chan
  match op with
  | .onhook => (none, dahdiHangup idle)
  | .offhook =>
    if idle.txstate = .kewl ∨ idle.txstate = .afterkewl then (some .ebusy, idle)
    else (none, rbsSethook idle .offhook .debounce idle.times.debouncetime)
  | .ring =>
    match hookRing chan with
    | .ok chan => (none, chan)
    | .error e => (some e, idle)
  | .wink =>
    if idle.txstate ≠ .onhook then (some .ebusy, idle)
    else (none, rbsSethook idle .onhook .prewink idle.times.prewinktime)
  | .flash =>
    if idle.txstate ≠ .offhook then (some .ebusy, idle)
    else (none, rbsSethook idle .offhook .preflash idle.times.preflashtime)
  | .ringoff => (none, rbsSethook idle .onhook .onhook 0)

/-- What dahdi_ioctl_startup does to a channel. -/
def startup (chan : Chan) : End := ⟨{ dahdiHangup chan with rxhooksig := .initial }, qSig chan.sig⟩

inductive Side where
  | near
  | far
  deriving DecidableEq, Repr

def Side.other : Side → Side
  | .near => .far
  | .far => .near

abbrev Ends := Side → End

inductive Act where
  | hook (side : Side) (op : HookOp)
  | dial (side : Side) (dialstr : List Char)
  | transmit (side : Side)
  | receive (side : Side)
  | freeze (side : Side) (on : Bool)
  | deliver (side : Side)
  deriving DecidableEq, Repr

/-- What happens to the channel of a side by itself. -/
def actAlone (g : Globals) (chan : Chan) : Act → Option Chan
  | .hook _ op => some (ioctlHook op chan).2
  | .dial _ dialstr =>
    if chan.curzone.isNone then some chan
    else some (doDtmf g { chan with txdialbuf := dialstr, dialing := true })
  | .transmit _ => transmitTick g chan
  | .receive _ => some (receiveTick chan)
  | .freeze _ on => some { chan with sigfreeze := on }
  | .deliver _ => some chan

def Act.side : Act → Side
  | .hook side _ | .dial side _ | .transmit side | .receive side | .freeze side _ | .deliver side => side

/-- A delivery hands the bits of the other side to dahdi_rbsbits. -/
def act (g : Globals) (s : Ends) (a : Act) : Option Ends :=
  match a with
  | .deliver side => some (Function.update s side (rbsbits (s side) (txsig (s side.other).chan)))
  | a => (actAlone g (s a.side).chan a).map fun chan =>
      Function.update s a.side { s a.side with chan := chan }

/-- The signalling at the other end. -/
def Sig.mate : Sig → Option Sig
  | .fxsls => some .fxols
  | .fxsgs => some .fxogs
  | .fxsks => some .fxoks
  | .fxols => some .fxsls
  | .fxogs => some .fxsgs
  | .fxoks => some .fxsks
  | .em => some .em
  | .emE1 => some .emE1
  | _ => none

def rbsLine : Line := ⟨true, true, true, false⟩

/-- Both spans have just been started. -/
def trunk (g : Globals) : System Ends Act where
  start s := ∃ chans : Side → Chan, (∀ side, s side = startup (chans side) ∧ (chans side).line = rbsLine) ∧
    ∀ side, Sig.mate (chans side).sig = some (chans side.other).sig
  step s a s' := act g s a = some s'

/-- What the other end is told by a hook state: a station that opens or closes its loop
    or grounds its line, an office that rings, drops or reverses its battery, a trunk
    that is idle or seized. -/
def means : Sig → TxSig → RxSig
  | .fxsgs, .start => .start
  | .fxsls, .start | .fxsks, .start => .offhook
  | .fxsls, .offhook | .fxsgs, .offhook | .fxsks, .offhook => .offhook
  | .fxols, .start | .fxogs, .start | .fxoks, .start => .ring
  | .fxogs, .onhook => .onhook
  | .fxols, .onhook | .fxoks, .onhook => .offhook
  | .fxols, .offhook | .fxogs, .offhook | .fxoks, .offhook => .offhook
  | .fxoks, .kewl => .onhook
  | .em, .offhook | .em, .start | .emE1, .offhook | .emE1, .start => .offhook
  | _, _ => .onhook

/-- What a channel that acts by itself leaves alone, and that it never starts a battery
    drop but on an FXOKS channel. -/
structure Calm (c c' : Chan) : Prop where
  sig : c'.sig = c.sig
  line : c'.line = c.line
  hook : c'.rxhooksig = c.rxhooksig
  kewl : c'.txhooksig = .kewl → c.txhooksig = .kewl ∨ c.sig = .fxoks

section Alone
variable {g : Globals} {c d d' : Chan}

theorem Calm.refl (c : Chan) : Calm c c := ⟨rfl, rfl, rfl, .inl⟩

theorem Calm.set (calm : Calm c d) (same : d'.sig = d.sig ∧ d'.line = d.line ∧ d'.rxhooksig = d.rxhooksig ∧
    d'.txhooksig = d.txhooksig) : Calm c d' := by
  obtain ⟨sig, line, hook, txhook⟩ := same
  exact ⟨sig.trans calm.sig, line.trans calm.line, hook.trans calm.hook, fun is => calm.kewl (txhook.symm.trans is)⟩

theorem Calm.qevent (calm : Calm c d) (event : Event) : Calm c (qevent d event) := calm.set ⟨rfl, rfl, rfl, rfl⟩

theorem Calm.hooked (calm : Calm c d) {txsig : TxSig} (drops : txsig = .kewl → d.sig = .fxoks) (txstate : TxState)
    (timeout : Int) : Calm c (rbsSethook d txsig txstate timeout) := by
  unfold rbsSethook
  split
  · exact calm
  · simp only
    split
    · exact ⟨calm.sig, calm.line, calm.hook, fun is => .inr (calm.sig.symm.trans (drops is))⟩
    · exact calm.set ⟨rfl, rfl, rfl, rfl⟩

theorem Calm.sethook (calm : Calm c d) {txsig : TxSig} (other : txsig ≠ .kewl) (txstate : TxState) (timeout : Int) :
    Calm c (rbsSethook d txsig txstate timeout) :=
  calm.hooked (fun is => absurd is other) txstate timeout

theorem Calm.hookcomplete (calm : Calm c d) : Calm c (hookcomplete d) := by
  unfold Signalling.hookcomplete
  split
  · exact calm.qevent _
  · exact calm

theorem Calm.dtmf {buf : List Char} (calm : Calm c d) : Calm c (doDtmfFrom g buf d) := by
  induction buf generalizing d with
  | nil => exact calm.set ⟨rfl, rfl, rfl, rfl⟩
  | cons k rest ih =>
    have next : Calm c { d with txdialbuf := rest } := calm.set ⟨rfl, rfl, rfl, rfl⟩
    rw [doDtmfFrom]
    simp only
    cases modeOf k with
    | some mode => exact ih (next.set ⟨rfl, rfl, rfl, rfl⟩)
    | none =>
      simp only
      split
      · cases decimal k with
        | some digit =>
          simp only
          split
          · have counted : Calm c { d with txdialbuf := rest, pdialcount := if digit = 0 then 10 else digit } :=
              next.set ⟨rfl, rfl, rfl, rfl⟩
            exact counted.sethook (by decide) _ _
          · exact ih next
        | none => exact ih next
      · cases mfTone { d with txdialbuf := rest } k d.digitmode with
        | some t => exact next.set ⟨rfl, rfl, rfl, rfl⟩
        | none => exact ih (next.set ⟨rfl, rfl, rfl, rfl⟩)

theorem ringon_calm (calm : Calm c d) (expired : ringonExpire d = some d') : Calm c d' := by
  unfold ringonExpire at expired
  simp only at expired
  generalize (if maxCadence ≤ d.cadencepos + 1 then 0 else d.cadencepos + 1) = pos at expired
  by_cases ended : d.ringcadence pos = 0
  · rw [if_pos ended] at expired
    obtain ⟨zone, _, rfl⟩ := Option.map_eq_some_iff.mp expired
    have first : Calm c { d with cadencepos := 0 } := calm.set ⟨rfl, rfl, rfl, rfl⟩
    exact (first.sethook (by decide) _ _).qevent _
  · rw [if_neg ended] at expired
    obtain rfl := Option.some.inj expired
    have later : Calm c { d with cadencepos := pos } := calm.set ⟨rfl, rfl, rfl, rfl⟩
    exact (later.sethook (by decide) _ _).qevent _

theorem otimer_calm (calm : Calm c d) (expired : rbsOtimerExpire g d = some d') : Calm c d' := by
  have stopped : Calm c { d with otimer := 0 } := calm.set ⟨rfl, rfl, rfl, rfl⟩
  unfold rbsOtimerExpire at expired
  simp only at expired
  split at expired
  case h_1 =>
    rw [← Option.some.inj expired]
    have turned (pos : Nat) : Calm c { d with otimer := 0, cadencepos := pos } := stopped.set ⟨rfl, rfl, rfl, rfl⟩
    exact ((turned _).sethook (by decide) _ _).qevent _
  case h_2 => exact ringon_calm stopped expired
  case h_3 | h_4 | h_6 | h_12 =>
    rw [← Option.some.inj expired]
    exact stopped.sethook (by decide) _ _
  case h_5 | h_7 | h_9 | h_10 =>
    rw [← Option.some.inj expired]
    exact (stopped.sethook (by decide) _ _).hookcomplete
  case h_8 =>
    rw [← Option.some.inj expired]
    have settled : Calm c (rbsSethook { d with otimer := 0 } .offhook .offhook 0) :=
      stopped.sethook (by decide) _ _
    unfold debounceExpire
    simp only
    split
    · exact settled.set ⟨rfl, rfl, rfl, rfl⟩
    · exact settled
  case h_11 =>
    rw [← Option.some.inj expired]
    unfold afterkewlExpire
    simp only
    split
    · exact (stopped.qevent .onhook).set ⟨rfl, rfl, rfl, rfl⟩
    · exact stopped.set ⟨rfl, rfl, rfl, rfl⟩
  case h_13 =>
    have counted : Calm c (if d.pdialcount ≠ 0 then { d with otimer := 0, pdialcount := d.pdialcount - 1 }
        else { d with otimer := 0 }) := by
      split
      · exact stopped.set ⟨rfl, rfl, rfl, rfl⟩
      · exact stopped
    generalize (if d.pdialcount ≠ 0 then { d with otimer := 0, pdialcount := d.pdialcount - 1 }
      else { d with otimer := 0 }) = e at expired counted
    by_cases more : e.pdialcount ≠ 0
    · rw [if_pos more] at expired
      rw [← Option.some.inj expired]
      exact counted.sethook (by decide) _ _
    · rw [if_neg more] at expired
      rw [← Option.some.inj expired]
      exact counted.set ⟨rfl, rfl, rfl, rfl⟩
  case h_14 =>
    rw [← Option.some.inj expired]
    have off : Calm c { d with otimer := 0, txstate := .offhook } := stopped.set ⟨rfl, rfl, rfl, rfl⟩
    exact off.dtmf
  case h_15 | h_16 =>
    rw [← Option.some.inj expired]
    exact stopped

theorem transmit_calm (ticked : transmitTick g c = some d) : Calm c d := by
  unfold transmitTick at ticked
  split at ticked
  · obtain rfl := Option.some.inj ticked
    exact Calm.refl c
  · have counted : Calm c { c with otimer := int32 (c.otimer - chunksize) } := (Calm.refl c).set ⟨rfl, rfl, rfl, rfl⟩
    simp only at ticked
    split at ticked
    · exact otimer_calm counted ticked
    · obtain rfl := Option.some.inj ticked
      exact counted

/-- What the receive timers of a channel change. -/
theorem receive_changes (c : Chan) : ∃ itimer gotgs ringdebtimer ringtrailer pulsetimer pulsecount events,
    receiveTick c =
      { c with
        itimer := itimer, gotgs := gotgs, ringdebtimer := ringdebtimer, ringtrailer := ringtrailer
        pulsetimer := pulsetimer, pulsecount := pulsecount, events := events } := by
  have timed : ∃ itimer gotgs events,
      itimerTick c = { c with itimer := itimer, gotgs := gotgs, events := events } := by
    unfold itimerTick rbsItimerExpire
    simp only
    repeat' split
    all_goals exact ⟨_, _, _, rfl⟩
  have rung (d : Chan) : ∃ ringdebtimer ringtrailer events,
      ringTick d = { d with ringdebtimer := ringdebtimer, ringtrailer := ringtrailer, events := events } := by
    unfold ringTick
    simp only
    repeat' split
    all_goals exact ⟨_, _, _, rfl⟩
  have pulsed (d : Chan) : ∃ pulsetimer pulsecount events,
      pulseTick d = { d with pulsetimer := pulsetimer, pulsecount := pulsecount, events := events } := by
    unfold pulseTick
    simp only
    repeat' split
    all_goals exact ⟨_, _, _, rfl⟩
  obtain ⟨_, _, _, timed⟩ := timed
  obtain ⟨_, _, _, rung⟩ := rung (itimerTick c)
  obtain ⟨_, _, _, pulsed⟩ := pulsed (ringTick (itimerTick c))
  rw [receiveTick, pulsed, rung, timed]
  exact ⟨_, _, _, _, _, _, _, rfl⟩

theorem receive_calm : Calm c (receiveTick c) := by
  obtain ⟨_, _, _, _, _, _, _, changes⟩ := receive_changes c
  rw [changes]
  exact (Calm.refl c).set ⟨rfl, rfl, rfl, rfl⟩

theorem stopDial_calm : Calm c (stopDial c) := (Calm.refl c).set ⟨rfl, rfl, rfl, rfl⟩

theorem hangup_calm (calm : Calm c d) : Calm c (dahdiHangup d) := by
  unfold dahdiHangup
  split
  · exact calm
  · have lowered : Calm c { d with kewlonhook := false } := calm.set ⟨rfl, rfl, rfl, rfl⟩
    simp only
    have debounced : Calm c (if d.sig.fxs then { d with kewlonhook := false, ringdebtimer := ringDebounceTime }
        else { d with kewlonhook := false }) := by
      split
      · exact lowered.set ⟨rfl, rfl, rfl, rfl⟩
      · exact lowered
    generalize (if d.sig.fxs then { d with kewlonhook := false, ringdebtimer := ringDebounceTime }
      else { d with kewlonhook := false }) = e at debounced
    have hooked : Calm c (if e.line.rbs = true ∧ e.sig ≠ .cas then
        if e.sig = .fxoks ∧ e.txstate ≠ .onhook ∧ ¬(e.rxhooksig = .onhook ∧ e.itimer ≤ 0) then
          rbsSethook e .kewl .kewl 500
        else rbsSethook e .onhook .onhook 0
      else e) := by
      split
      · split
        · rename_i office
          exact debounced.hooked (fun _ => office.1) _ _
        · exact debounced.sethook (by decide) _ _
      · exact debounced
    exact hooked.set ⟨rfl, rfl, rfl, rfl⟩

theorem hook_calm (op : HookOp) : Calm c (ioctlHook op c).2 := by
  have idle : Calm c (stopDial c) := stopDial_calm
  cases op with
  | onhook => exact hangup_calm idle
  | offhook =>
    unfold ioctlHook
    simp only
    split
    · exact idle
    · exact idle.sethook (by decide) _ _
  | ring =>
    unfold ioctlHook
    simp only
    unfold hookRing
    simp only
    split
    · rename_i chan rung
      split at rung
      · cases rung
      · split at rung
        · cases rung
        · split at rung
          · obtain rfl := Except.ok.inj rung
            have first : Calm c { stopDial c with cadencepos := 0 } := idle.set ⟨rfl, rfl, rfl, rfl⟩
            exact first.sethook (by decide) _ _
          · obtain rfl := Except.ok.inj rung
            exact idle.sethook (by decide) _ _
    · exact idle
  | wink | flash =>
    unfold ioctlHook
    simp only
    split
    · exact idle
    · exact idle.sethook (by decide) _ _
  | ringoff => exact idle.sethook (by decide) _ _

theorem alone_calm {a : Act} (moved : actAlone g c a = some d) : Calm c d := by
  cases a with
  | hook side op =>
    obtain rfl := Option.some.inj moved
    exact hook_calm op
  | dial side dialstr =>
    rw [actAlone] at moved
    split at moved
    · obtain rfl := Option.some.inj moved
      exact Calm.refl c
    · obtain rfl := Option.some.inj moved
      have asked : Calm c { c with txdialbuf := dialstr, dialing := true } := (Calm.refl c).set ⟨rfl, rfl, rfl, rfl⟩
      exact asked.dtmf
  | transmit side => exact transmit_calm moved
  | receive side =>
    obtain rfl := Option.some.inj moved
    exact receive_calm
  | freeze side on =>
    obtain rfl := Option.some.inj moved
    exact (Calm.refl c).set ⟨rfl, rfl, rfl, rfl⟩
  | deliver side =>
    obtain rfl := Option.some.inj moved
    exact Calm.refl c

end Alone

/-- The hook state that bits stand for. -/
def reading : Sig → Bits → Option RxSig
  | .fxogs, bits => some (if bits &&& bbit = 0 then .start else byAbit bits)
  | .emE1, bits | .fxols, bits | .fxoks, bits | .em, bits => some (byAbit bits)
  | .fxsks, bits | .fxsgs, bits =>
    some (if bits &&& bbit = 0 then .ring else if bits &&& abit ≠ 0 then .onhook else .offhook)
  | .fxsls, bits => some (if bits &&& bbit = 0 then .ring else .offhook)
  | _, _ => none

/-- The hook state is that of the bits, unless none but idle bits were seen since the
    span was started. -/
def Told (e : End) : Prop :=
  reading e.chan.sig e.rxsig = some e.chan.rxhooksig ∨
    e.chan.rxhooksig = .initial ∧ (e.rxsig = qSig e.chan.sig ∨ e.chan.sig = .em ∧ e.rxsig &&& abit = 0)

/-- The channel with this hook state of its far end. -/
def hears (c : Chan) (rxsig : RxSig) : Chan := { c with rxhooksig := rxsig }

section Deliveries
variable {c d : Chan} {rxsig : RxSig} {e : End} {cursig : Bits}

theorem fxo_calm (calm : Calm c d) : Calm c (fxoHooksig d rxsig) := by
  cases rxsig with
  | offhook =>
    have stopped : Calm c (fxoStopRing d) := by
      unfold fxoStopRing
      simp only
      split
      · have hooked : Calm c (rbsSethook d .offhook .afterstart afterstartTime) := calm.sethook (by decide) _ _
        exact hooked.set ⟨rfl, rfl, rfl, rfl⟩
      · exact calm.set ⟨rfl, rfl, rfl, rfl⟩
    have broken : Calm c (fxoBreak (fxoStopRing d)) := by
      generalize fxoStopRing d = e at stopped
      unfold fxoBreak
      simp only
      split
      · split
        · split
          · split
            · exact stopped.set ⟨rfl, rfl, rfl, rfl⟩
            · exact stopped.set ⟨rfl, rfl, rfl, rfl⟩
          · exact stopped
        · exact stopped.qevent _
      · split
        · exact stopped.set ⟨rfl, rfl, rfl, rfl⟩
        · exact stopped
    exact broken.set ⟨rfl, rfl, rfl, rfl⟩
  | onhook =>
    unfold fxoHooksig fxoOnhook
    simp only
    split
    · split <;> exact calm.set ⟨rfl, rfl, rfl, rfl⟩
    · split
      · exact calm.set ⟨rfl, rfl, rfl, rfl⟩
      · exact calm
  | start | ring | initial => exact calm

theorem em_calm (calm : Calm c d) : Calm c (emHooksig d rxsig) := by
  cases rxsig with
  | offhook => exact calm.set ⟨rfl, rfl, rfl, rfl⟩
  | onhook =>
    unfold emHooksig
    simp only
    split <;> exact calm.set ⟨rfl, rfl, rfl, rfl⟩
  | start | ring | initial => exact calm

theorem fxs_calm (calm : Calm c d) : Calm c (fxsHooksig d rxsig) := by
  unfold fxsHooksig
  simp only
  split
  · split <;> exact calm.set ⟨rfl, rfl, rfl, rfl⟩
  · exact calm

/-- __dahdi_hooksig_pvt of a channel that is not frozen records the hook state. -/
theorem hooksig_calm (live : c.sigfreeze = false) : Calm (hears c rxsig) (hooksigPvt c rxsig) := by
  unfold hooksigPvt
  split
  · rename_i same
    rw [← same]
    exact Calm.refl c
  · rw [if_neg (by rw [live]; exact Bool.false_ne_true)]
    have heard : { c with rxhooksig := rxsig } = hears c rxsig := rfl
    rw [heard]
    simp only
    generalize hears c rxsig = e
    have rung : Calm e (if e.sig.fxs = true ∧ rxsig = .ring ∧ e.ringdebtimer = 0 then qevent e .ringbegin else e) := by
      split
      · exact (Calm.refl _).qevent _
      · exact Calm.refl _
    generalize (if e.sig.fxs = true ∧ rxsig = .ring ∧ e.ringdebtimer = 0 then qevent e .ringbegin else e) = d at rung ⊢
    split
    · exact em_calm rung
    · exact em_calm rung
    · split
      · exact rung
      · exact fxs_calm rung
    · exact fxs_calm rung
    · split
      · have seized : Calm e { qevent d .ringoffhook with gotgs := true } :=
          rung.set ⟨rfl, rfl, rfl, rfl⟩
        exact fxo_calm seized
      · exact fxo_calm rung
    · exact fxo_calm rung
    · exact fxo_calm rung
    · exact rung

/-- New bits are recorded, and what they stand for is too. -/
theorem rbsbits_reads (live : e.chan.sigfreeze = false) (changed : cursig ≠ e.rxsig) :
    (rbsbits e cursig).rxsig = cursig ∧
      (reading e.chan.sig cursig = none ∧ (rbsbits e cursig).chan = e.chan ∨
        (e.chan.sig = .em ∧ cursig &&& abit = e.rxsig &&& abit) ∧ (rbsbits e cursig).chan = e.chan ∨
        ∃ rx, reading e.chan.sig cursig = some rx ∧
          Calm (hears e.chan rx) (rbsbits e cursig).chan) := by
  unfold rbsbits
  rw [if_neg changed, if_neg (by rw [live]; exact Bool.false_ne_true)]
  refine ⟨rfl, ?_⟩
  simp only
  cases sig : e.chan.sig with
  | none | sf | cas | dacsRbs | other => exact .inl ⟨rfl, rfl⟩
  | fxogs =>
    simp only
    rw [← apply_ite (hooksigPvt e.chan)]
    exact .inr (.inr ⟨_, rfl, hooksig_calm live⟩)
  | emE1 | fxols | fxoks => exact .inr (.inr ⟨_, rfl, hooksig_calm live⟩)
  | em =>
    simp only
    split
    · rename_i same
      exact .inr (.inl ⟨⟨trivial, same⟩, rfl⟩)
    · exact .inr (.inr ⟨_, rfl, hooksig_calm live⟩)
  | fxsks | fxsgs =>
    simp only [ne_eq, reduceCtorEq, not_false_eq_true, true_and]
    rw [← apply_ite (hooksigPvt e.chan), ← apply_ite (hooksigPvt e.chan)]
    exact .inr (.inr ⟨_, rfl, hooksig_calm live⟩)
  | fxsls =>
    simp only [ne_eq, not_true_eq_false, false_and, ↓reduceIte]
    rw [← apply_ite (hooksigPvt e.chan)]
    exact .inr (.inr ⟨_, rfl, hooksig_calm live⟩)

theorem mated_reading {sig : Sig} (mated : (Sig.mate sig).isSome) (bits : Bits) : reading sig bits ≠ none := by
  cases sig <;> first | exact Option.some_ne_none _ | cases mated

theorem told_rbsbits (told : Told e) (mated : (Sig.mate e.chan.sig).isSome) :
    Told (rbsbits e cursig) ∧ (rbsbits e cursig).chan.sig = e.chan.sig ∧
      ((rbsbits e cursig).chan.txhooksig = .kewl → e.chan.txhooksig = .kewl ∨ e.chan.sig = .fxoks) := by
  by_cases same : cursig = e.rxsig
  · rw [rbsbits, if_pos same]
    exact ⟨told, rfl, .inl⟩
  by_cases frozen : e.chan.sigfreeze = true
  · rw [rbsbits, if_neg same, if_pos frozen]
    exact ⟨told, rfl, .inl⟩
  obtain ⟨recorded, ⟨none_, _⟩ | ⟨⟨trunk_, still⟩, chan⟩ | ⟨rx, read, calm⟩⟩ :=
    rbsbits_reads (Bool.eq_false_iff.mpr frozen) same
  · exact absurd none_ (mated_reading mated cursig)
  · rw [Told, recorded, chan]
    refine ⟨?_, rfl, .inl⟩
    rcases told with told | ⟨initial, idle⟩
    · rw [trunk_, reading, byAbit] at told
      rw [trunk_, reading, byAbit, still]
      exact .inl told
    · refine .inr ⟨initial, .inr ⟨trunk_, ?_⟩⟩
      rw [still]
      rcases idle with idle | ⟨_, idle⟩
      · rw [idle, trunk_]
        decide
      · exact idle
  · refine ⟨.inl ?_, calm.sig, calm.kewl⟩
    rw [recorded, calm.sig, calm.hook]
    exact read

end Deliveries

section Runs
variable {g : Globals} {s s' : Ends}

/-- What holds of two ends at all times. -/
structure Joined (s : Ends) : Prop where
  told : ∀ side, Told (s side)
  mated : ∀ side, Sig.mate (s side).chan.sig = some (s side.other).chan.sig
  drops : ∀ side, (s side).chan.txhooksig = .kewl → (s side).chan.sig = .fxoks

/-- A change of one end that keeps its signalling. -/
theorem joined_update (joined : Joined s) {side : Side} {e : End} (told : Told e)
    (sig : e.chan.sig = (s side).chan.sig) (drops : e.chan.txhooksig = .kewl → e.chan.sig = .fxoks) :
    Joined (Function.update s side e) := by
  have sigs : ∀ x, (Function.update s side e x).chan.sig = (s x).chan.sig := by
    intro x
    by_cases here : x = side
    · rw [here, Function.update_self, sig]
    · rw [Function.update_of_ne here]
  constructor
  · intro x
    by_cases here : x = side
    · rw [here, Function.update_self]
      exact told
    · rw [Function.update_of_ne here]
      exact joined.told x
  · intro x
    rw [sigs, sigs]
    exact joined.mated x
  · intro x
    by_cases here : x = side
    · rw [here, Function.update_self]
      exact drops
    · rw [Function.update_of_ne here]
      exact joined.drops x

theorem joined_act {a : Act} (joined : Joined s) (moved : act g s a = some s') : Joined s' := by
  have alone : ∀ a : Act, (actAlone g (s a.side).chan a).map (fun chan =>
      Function.update s a.side { s a.side with chan := chan }) = some s' → Joined s' := by
    intro a moved
    obtain ⟨chan, done, rfl⟩ := Option.map_eq_some_iff.mp moved
    have calm := alone_calm done
    apply joined_update joined
    · have told := joined.told a.side
      rw [Told, calm.sig, calm.hook]
      exact told
    · exact calm.sig
    · intro kewl
      rw [calm.sig]
      rcases calm.kewl kewl with before | office
      · exact joined.drops a.side before
      · exact office
  cases a with
  | deliver side =>
    obtain rfl := Option.some.inj moved
    have mated : (Sig.mate (s side).chan.sig).isSome := by
      rw [joined.mated side]
      rfl
    obtain ⟨told, sig, kewl⟩ := @told_rbsbits (s side) (txsig (s side.other).chan) (joined.told side) mated
    apply joined_update joined told sig
    intro drops
    rw [sig]
    rcases kewl drops with before | office
    · exact joined.drops side before
    · exact office
  | hook side op => exact alone (.hook side op) moved
  | dial side dialstr => exact alone (.dial side dialstr) moved
  | transmit side => exact alone (.transmit side) moved
  | receive side => exact alone (.receive side) moved
  | freeze side on => exact alone (.freeze side on) moved

/-- A hook state is sent on a line with robbed bits. -/
theorem sethook_known {c : Chan} (line : c.line = rbsLine) (known : c.sig.known = true ∧ c.sig ≠ .dacsRbs)
    (txsig : TxSig) (txstate : TxState) (timeout : Int) : rbsSethook c txsig txstate timeout =
      { c with txstate := txstate, txhooksig := txsig, otimer := int32 (timeout * chunksize) } := by
  have takes : c.takesHook = true := by
    rw [Chan.takesHook, line, decide_eq_true known.2]
    rfl
  rw [rbsSethook, if_neg (by rw [takes]; exact Bool.true_eq_false_eq_False)]
  simp only
  rw [if_pos (.inr (.inr known.1))]

theorem mated_known {sig : Sig} (mated : (Sig.mate sig).isSome) : sig.known = true ∧ sig ≠ .dacsRbs := by
  cases sig <;> first | exact ⟨rfl, by decide⟩ | cases mated

theorem hangup_drops {c : Chan} (line : c.line = rbsLine) (mated : (Sig.mate c.sig).isSome)
    (drops : (dahdiHangup c).txhooksig = .kewl) : c.sig = .fxoks := by
  by_contra other
  unfold dahdiHangup at drops
  rw [if_neg (by rw [line]; exact Bool.true_eq_false_eq_False)] at drops
  simp only at drops
  generalize lowered : (if c.sig.fxs then { c with kewlonhook := false, ringdebtimer := ringDebounceTime }
    else { c with kewlonhook := false } : Chan) = e at drops
  have kept : e.sig = c.sig ∧ e.line = c.line := by
    rw [← lowered]
    split <;> exact ⟨rfl, rfl⟩
  have rbs : e.line.rbs = true ∧ e.sig ≠ .cas := by
    rw [kept.2, line, kept.1]
    refine ⟨rfl, fun is => ?_⟩
    rw [is] at mated
    cases mated
  rw [if_pos rbs, if_neg (fun office => other (kept.1 ▸ office.1))] at drops
  have known := mated_known mated
  rw [← kept.1] at known
  rw [stopDialing, sethook_known (by rw [kept.2, line]) known] at drops
  cases drops

theorem joined_reached (reached : Reach (trunk g) anyStep s) : Joined s := by
  apply @invariant_run _ _ (trunk g) anyStep Joined
  · rintro s ⟨chans, started, mated⟩
    have sigs : ∀ side, (s side).chan.sig = (chans side).sig := by
      intro side
      rw [(started side).1]
      exact (hangup_calm (Calm.refl (chans side))).sig
    constructor
    · intro side
      rw [Told, sigs, (started side).1]
      exact .inr ⟨rfl, .inl rfl⟩
    · intro side
      rw [sigs, sigs]
      exact mated side
    · intro side drops
      rw [sigs]
      rw [(started side).1] at drops
      exact hangup_drops (started side).2 (by rw [mated side]; rfl) drops
  · intro t a t' joined _ moved
    exact joined_act joined moved
  · exact reached

/-- The table of what is sent agrees with what is read at the other end, and no idle bits
    are sent but by an idle trunk. -/
theorem outs_read {sig peer : Sig} (mated : Sig.mate sig = some peer) (tx : TxSig) (drops : tx = .kewl → peer = .fxoks) :
    reading sig (outs peer tx) = some (means peer tx) ∧
      (outs peer tx = qSig sig ∨ sig = .em ∧ outs peer tx &&& abit = 0 →
        (sig = .em ∨ sig = .emE1) ∧ means peer tx = .onhook) := by
  cases sig <;> cases mated <;> cases tx <;> first | exact absurd (drops rfl) (by decide) | decide

/-- However the ends act and however late bits arrive: an end that has the bits its far
    end sends knows its hook state, but that an idle trunk need not have been heard of
    since the span was started. A delivery to an end that is not frozen is enough. -/
theorem hooks_agree (reached : Reach (trunk g) anyStep s) (side : Side) :
    ((s side).rxsig = txsig (s side.other).chan →
      (s side).chan.rxhooksig = means (s side.other).chan.sig (s side.other).chan.txhooksig ∨
        (s side).chan.rxhooksig = .initial ∧ ((s side).chan.sig = .em ∨ (s side).chan.sig = .emE1) ∧
          means (s side.other).chan.sig (s side.other).chan.txhooksig = .onhook) ∧
    ∀ s', act g s (.deliver side) = some s' → (s side).chan.sigfreeze = false →
      (s' side).rxsig = txsig (s' side.other).chan := by
  have joined := joined_reached reached
  constructor
  · intro heard
    obtain ⟨read, idle⟩ := outs_read (joined.mated side) (s side.other).chan.txhooksig (joined.drops side.other)
    rcases joined.told side with told | ⟨initial, quiet_⟩
    · rw [heard, txsig, read] at told
      exact .inl (Option.some.inj told).symm
    · refine .inr ⟨initial, ?_⟩
      rw [heard, txsig] at quiet_
      exact idle quiet_
  · intro s' moved live
    obtain rfl := Option.some.inj moved
    have apart : side.other ≠ side := by cases side <;> decide
    rw [Function.update_self, Function.update_of_ne apart]
    by_cases same : txsig (s side.other).chan = (s side).rxsig
    · rw [rbsbits, if_pos same]
      exact same.symm
    · exact (rbsbits_reads live same).1

/-- An E&M trunk on two spans that were just started. -/
def idleTrunk : Ends := fun _ => startup { idleChan with sig := .em }

/-- The near end seizes the trunk and the far end gets its bits. -/
def seizedTrunk : Ends :=
  (follow (act initialGlobals) anyStep [.hook .near .offhook, .transmit .near, .deliver .far] idleTrunk).getD
    idleTrunk

theorem hooks_agree_seized : (seizedTrunk .far).chan.rxhooksig = .offhook := by
  have followed : follow (act initialGlobals) anyStep [.hook .near .offhook, .transmit .near, .deliver .far]
      idleTrunk = some seizedTrunk := rfl
  have begun : Reach (trunk initialGlobals) anyStep idleTrunk :=
    Reach.start ⟨fun _ => { idleChan with sig := .em }, fun _ => ⟨rfl, rfl⟩, fun _ => rfl⟩
  have reached := @follow_reach _ _ (trunk initialGlobals) _ _ _ (fun _ _ _ done => done) _ _ _ begun followed
  rcases (hooks_agree reached .far).1 rfl with agreed | ⟨_, _, idle⟩
  · exact agreed
  · cases idle

end Runs

end RbsTrunk
