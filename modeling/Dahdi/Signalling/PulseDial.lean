import Dahdi.Signalling.Timers
import Dahdi.Tone.DialParams

/-!
Pulse dialing: the hook events of an FXO facing channel that is off hook, among
the chunks of both directions, and the digit that is made of them.
-/
namespace Signalling
open Tone

inductive Input where
  | receive
  | transmit
  | hook (rxsig : RxSig)
  deriving DecidableEq, Repr

def feedOne (g : Globals) (c : Chan) : Input → Option Chan
  | .receive => some (receiveTick c)
  | .transmit => transmitTick g c
  | .hook rxsig => some (hooksigPvt c rxsig)

def feed (g : Globals) : List Input → Chan → Option Chan
  | [], c => some c
  | i :: rest, c => (feedOne g c i).bind (feed g rest)

/-- The events about the far end: hook states, flashes, winks and pulses. -/
def Event.farEnd : Event → Bool
  | .onhook | .ringoffhook | .winkflash | .pulseStart | .ringbegin | .pulsedigit _ => true
  | _ => false

def farEvents (c : Chan) : List Event := c.events.filter Event.farEnd

/-- The states of the transmitter in which the hook of the far end counts. -/
def Accepts (txstate : TxState) : Prop :=
  txstate ≠ .debounce ∧ txstate ≠ .kewl ∧ txstate ≠ .afterkewl

instance (txstate : TxState) : Decidable (Accepts txstate) :=
  inferInstanceAs (Decidable (_ ∧ _ ∧ _))

/-- A phase of a train: the hook changes and stays so for a number of received
    chunks, whatever is transmitted and however often the hook is reported. -/
def Phase (rxsig : RxSig) (chunks : Nat) (inputs : List Input) : Prop :=
  ∃ rest, inputs = .hook rxsig :: rest ∧
    (∀ i ∈ rest, i = .receive ∨ i = .transmit ∨ i = .hook rxsig) ∧ rest.count .receive = chunks

/-- A train of breaks and makes of these numbers of chunks. -/
inductive Train : List (Nat × Nat) → List Input → Prop where
  | nil : Train [] []
  | cons {break_ make : Nat} {opened closed rest : List Input} {pulses : List (Nat × Nat)} :
      Phase .onhook break_ opened → Phase .offhook make closed → Train pulses rest →
        Train ((break_, make) :: pulses) (opened ++ closed ++ rest)

/-- A break that counts as a pulse: 15 ms to 200 ms, and shorter than a flash. -/
def BreakOk (flash : Int) (break_ : Nat) : Prop :=
  minpulsetime ≤ break_ * chunksize ∧ break_ * chunksize ≤ maxpulsetime ∧ break_ * chunksize < flash

/-- The limits of the pulses of one digit. A make and the break after it are
    shorter than the end of the digit, and the last make is not. -/
def Limits (flash : Int) : List (Nat × Nat) → Prop
  | [] => True
  | [(break_, make)] => BreakOk flash break_ ∧ pulsetimeout ≤ make
  | (break_, make) :: (next, make') :: rest =>
    BreakOk flash break_ ∧ ((make + next : Nat) : Int) < pulsetimeout ∧
      Limits flash ((next, make') :: rest)

/-- The timer that tells a flash or a break from going on hook. -/
def flashTimer (c : Chan) : Int := int32 (c.times.rxflashtime * chunksize)

/-- The digit of this many breaks. -/
def dialled (breaks : Nat) : Char := Nat.digitChar (breaks % 10)

/-- Every train of one to ten breaks within the limits gives the start of a digit
    and the digit, and nothing else about the far end. -/
def DecodesPulses (g : Globals) (c : Chan) : Prop :=
  ∀ pulses inputs c', 1 ≤ pulses.length → pulses.length ≤ 10 → Limits (flashTimer c) pulses →
    Train pulses inputs → feed g inputs c = some c' →
      farEvents c' = farEvents c ++ [.pulseStart, .pulsedigit (dialled pulses.length)]

/-- An FXO facing channel that is off hook, between two digits. -/
structure OffHook (c : Chan) : Prop where
  facing : c.sig.fxo = true
  hook : c.rxhooksig = .offhook
  untimed : c.itimer = 0
  between : c.pulsecount = 0

/-- What the transmitter leaves alone. -/
structure Kept (c c' : Chan) : Prop where
  sig : c'.sig = c.sig
  times : c'.times = c.times
  frozen : c'.sigfreeze = c.sigfreeze
  hook : c'.rxhooksig = c.rxhooksig
  itimer : c'.itimer = c.itimer
  itimerset : c'.itimerset = c.itimerset
  count : c'.pulsecount = c.pulsecount
  timer : c'.pulsetimer = c.pulsetimer
  events : farEvents c' = farEvents c
  state : Accepts c.txstate → Accepts c'.txstate

section kept
variable {g : Globals} {c d : Chan}

theorem Kept.refl (c : Chan) : Kept c c := ⟨rfl, rfl, rfl, rfl, rfl, rfl, rfl, rfl, rfl, id⟩

theorem far_qevent_other {event : Event} (other : event.farEnd = false) :
    farEvents (qevent c event) = farEvents c := by
  simp [farEvents, qevent, other]

theorem far_qevent {event : Event} (far : event.farEnd = true) :
    farEvents (qevent c event) = farEvents c ++ [event] := by
  simp [farEvents, qevent, far]

theorem Kept.qevent {event : Event} (kept : Kept c d) (other : event.farEnd = false) :
    Kept c (qevent d event) :=
  { kept with events := (far_qevent_other other).trans kept.events }

theorem Kept.sethook {txstate : TxState} (kept : Kept c d) (accepts : Accepts txstate)
    (txsig : TxSig) (timeout : Int) : Kept c (rbsSethook d txsig txstate timeout) := by
  unfold rbsSethook
  split
  · exact kept
  · simp only
    split
    · exact { kept with state := fun _ => accepts }
    · exact { kept with state := fun _ => accepts }

theorem Kept.hookcomplete (kept : Kept c d) : Kept c (hookcomplete d) := by
  unfold Signalling.hookcomplete
  split
  · exact kept.qevent rfl
  · exact kept

theorem Kept.dtmf {buf : List Char} (kept : Kept c d) : Kept c (doDtmfFrom g buf d) := by
  induction buf generalizing d with
  | nil => exact { kept with events := (far_qevent_other rfl).trans kept.events }
  | cons k rest ih =>
    have next : Kept c { d with txdialbuf := rest } := { kept with }
    rw [doDtmfFrom]
    simp only
    split
    · exact ih { next with }
    · split
      · split
        · split
          · rename_i digit _ _
            have counted : Kept c { d with
                txdialbuf := rest
                pdialcount := if digit = 0 then 10 else (digit : Int) } := { next with }
            exact counted.sethook (by decide) _ _
          · exact ih next
        · exact ih next
      · split
        · exact { next with }
        · exact ih { next with }

theorem Kept.ringer {txsig : TxSig} {txstate : TxState} {timeout : Int} {event : Event} {pos : Nat}
    (kept : Kept c d) (accepts : Accepts txstate) (other : event.farEnd = false) :
    Kept c (Signalling.qevent (rbsSethook { d with cadencepos := pos } txsig txstate timeout) event) := by
  have moved : Kept c { d with cadencepos := pos } := { kept with }
  exact (moved.sethook accepts txsig timeout).qevent other

theorem ringon_kept (kept : Kept c d) {c' : Chan} (expired : ringonExpire d = some c') :
    Kept c c' := by
  unfold ringonExpire at expired
  simp only at expired
  generalize (if maxCadence ≤ d.cadencepos + 1 then 0 else d.cadencepos + 1) = pos at expired
  by_cases ended : d.ringcadence pos = 0
  · rw [if_pos ended] at expired
    obtain ⟨zone, _, rfl⟩ := Option.map_eq_some_iff.mp expired
    exact kept.ringer (by decide) rfl
  · rw [if_neg ended] at expired
    rw [← Option.some.inj expired]
    exact kept.ringer (by decide) rfl

theorem otimer_kept (kept : Kept c d) (accepts : Accepts d.txstate) {c' : Chan}
    (expired : rbsOtimerExpire g d = some c') : Kept c c' := by
  have stopped : Kept c { d with otimer := 0 } := { kept with }
  unfold rbsOtimerExpire at expired
  simp only at expired
  split at expired
  · rw [← Option.some.inj expired]
    exact stopped.ringer (by decide) rfl
  · exact ringon_kept stopped expired
  · rw [← Option.some.inj expired]
    exact stopped.sethook (by decide) _ _
  · rw [← Option.some.inj expired]
    exact stopped.sethook (by decide) _ _
  · rw [← Option.some.inj expired]
    exact (stopped.sethook (by decide) _ _).hookcomplete
  · rw [← Option.some.inj expired]
    exact stopped.sethook (by decide) _ _
  · rw [← Option.some.inj expired]
    exact (stopped.sethook (by decide) _ _).hookcomplete
  · rename_i here
    exact absurd here accepts.1
  · rw [← Option.some.inj expired]
    exact (stopped.sethook (by decide) _ _).hookcomplete
  · rename_i here
    exact absurd here accepts.2.1
  · rename_i here
    exact absurd here accepts.2.2
  · rw [← Option.some.inj expired]
    exact stopped.sethook (by decide) _ _
  · have counted : Kept c
        (if d.pdialcount ≠ 0 then { d with otimer := 0, pdialcount := d.pdialcount - 1 }
          else { d with otimer := 0 }) := by
      split
      · exact { stopped with }
      · exact stopped
    generalize (if d.pdialcount ≠ 0 then { d with otimer := 0, pdialcount := d.pdialcount - 1 }
      else { d with otimer := 0 }) = e at expired counted
    by_cases more : e.pdialcount ≠ 0
    · rw [if_pos more] at expired
      rw [← Option.some.inj expired]
      exact counted.sethook (by decide) _ _
    · rw [if_neg more] at expired
      rw [← Option.some.inj expired]
      have later : Accepts .pulseafter := by decide
      exact { counted with state := fun _ => later }
  · have later : Accepts .offhook := by decide
    have off : Kept c { d with otimer := 0, txstate := .offhook } :=
      { stopped with state := fun _ => later }
    rw [← Option.some.inj expired]
    exact off.dtmf
  · rw [← Option.some.inj expired]
    exact stopped
  · rw [← Option.some.inj expired]
    exact stopped

theorem transmit_kept (accepts : Accepts c.txstate) {c' : Chan}
    (ticked : transmitTick g c = some c') : Kept c c' := by
  unfold transmitTick at ticked
  split at ticked
  · rw [← Option.some.inj ticked]
    exact Kept.refl c
  · have counted : Kept c { c with otimer := int32 (c.otimer - chunksize) } := { Kept.refl c with }
    simp only at ticked
    split at ticked
    · exact otimer_kept counted accepts ticked
    · rw [← Option.some.inj ticked]
      exact counted

end kept

/-- A channel whose hook events are decoded. -/
structure Decoding (flash : Int) (c : Chan) : Prop where
  facing : c.sig.fxo = true
  live : c.sigfreeze = false
  accepts : Accepts c.txstate
  flashes : flashTimer c = flash

/-- On hook for some chunks, after some pulses. -/
structure InBreak (flash : Int) (past pulses : Nat) (timer : Int) (c : Chan) : Prop
    extends Decoding flash c where
  hook : c.rxhooksig = .onhook
  set : c.itimerset = flash
  left : c.itimer = flash - past * chunksize
  count : c.pulsecount = pulses
  timed : pulses ≠ 0 → c.pulsetimer = timer

/-- Off hook, after some pulses. -/
structure InMake (flash : Int) (pulses : Nat) (timer : Int) (c : Chan) : Prop
    extends Decoding flash c where
  hook : c.rxhooksig = .offhook
  untimed : c.itimer = 0
  count : c.pulsecount = pulses
  timed : pulses ≠ 0 → c.pulsetimer = timer

section steps
variable {g : Globals} {flash timer : Int} {past pulses chunks : Nat} {c c' : Chan}
  {inputs : List Input} {rxsig : RxSig}

theorem Decoding.kept (decoding : Decoding flash c) (kept : Kept c c') : Decoding flash c' :=
  { facing := by rw [kept.sig]; exact decoding.facing
    live := by rw [kept.frozen]; exact decoding.live
    accepts := kept.state decoding.accepts
    flashes := by rw [flashTimer, kept.times]; exact decoding.flashes }

theorem InBreak.kept (here : InBreak flash past pulses timer c) (kept : Kept c c') :
    InBreak flash past pulses timer c' :=
  { here.toDecoding.kept kept with
    hook := kept.hook.trans here.hook
    set := kept.itimerset.trans here.set
    left := kept.itimer.trans here.left
    count := kept.count.trans here.count
    timed := fun some_ => kept.timer.trans (here.timed some_) }

theorem InMake.kept (here : InMake flash pulses timer c) (kept : Kept c c') :
    InMake flash pulses timer c' :=
  { here.toDecoding.kept kept with
    hook := kept.hook.trans here.hook
    untimed := kept.itimer.trans here.untimed
    count := kept.count.trans here.count
    timed := fun some_ => kept.timer.trans (here.timed some_) }

/-- A channel with FXO signalling has no ring to wait for. -/
theorem ring_kept (facing : c.sig.fxo = true) : Kept c (ringTick c) := by
  have apart : c.sig.fxs = false := by
    generalize c.sig = sig at facing
    cases sig <;> first | rfl | cases facing
  unfold ringTick
  simp only
  have counted : Kept c (if c.ringdebtimer ≠ 0 then
      { c with ringdebtimer := int32 (c.ringdebtimer - 1) } else c) := by
    split
    · exact { Kept.refl c with }
    · exact Kept.refl c
  have same : ∀ e : Chan, Kept c e → e.sig.fxs = false := by
    intro e kept
    rw [kept.sig]
    exact apart
  rw [if_neg (by rw [same _ counted]; decide)]
  exact counted

/-- The pulse timer counts down, without the end of a digit. -/
theorem pulse_counts (quiet : c.pulsecount = 0 ∨ 1 < c.pulsetimer ∧ c.pulsetimer ≤ pulsetimeout) :
    ∃ later, pulseTick c = { c with pulsetimer := later } ∧
      (c.pulsecount ≠ 0 → later = c.pulsetimer - 1) := by
  unfold pulseTick
  by_cases stopped : c.pulsetimer = 0
  · refine ⟨c.pulsetimer, if_pos stopped, ?_⟩
    intro some_
    omega
  · refine ⟨int32 (c.pulsetimer - 1), ?_, ?_⟩
    · rw [if_neg stopped]
      simp only
      refine if_neg ?_
      rintro ⟨due, some_⟩
      obtain none_ | ⟨low, high⟩ := quiet
      · exact some_ none_
      · unfold pulsetimeout at high
        rw [int32_small (by omega) (by omega)] at due
        omega
    · intro some_
      obtain none_ | ⟨low, high⟩ := quiet
      · exact absurd none_ some_
      · unfold pulsetimeout at high
        exact int32_small (by omega) (by omega)

theorem receive_break (here : InBreak flash past pulses timer c)
    (running : (past + 1 : Nat) * chunksize < flash)
    (quiet : pulses ≠ 0 → 1 < timer ∧ timer ≤ pulsetimeout) :
    InBreak flash (past + 1) pulses (timer - 1) (receiveTick c) ∧
      farEvents (receiveTick c) = farEvents c := by
  have bounds := int32_bounds (c.times.rxflashtime * chunksize)
  rw [← flashTimer, here.flashes] at bounds
  unfold chunksize at running
  have left := here.left
  unfold chunksize at left
  have later : int32 (c.itimer - chunksize) = flash - (past + 1 : Nat) * chunksize := by
    unfold chunksize
    rw [int32_small (by omega) (by omega)]
    omega
  have ticked : itimerTick c = { c with itimer := flash - (past + 1 : Nat) * chunksize } := by
    unfold itimerTick
    have running' : 0 < int32 (c.itimer - chunksize) := by
      rw [later, chunksize]
      omega
    rw [if_neg (by omega), ← later]
    exact if_neg (Int.not_le.mpr running')
  have moved : InBreak flash (past + 1) pulses timer (itimerTick c) := by
    rw [ticked]
    exact { here with left := rfl }
  have rung := ring_kept moved.facing
  have there := moved.kept rung
  have still : (ringTick (itimerTick c)).pulsecount = 0 ∨
      1 < (ringTick (itimerTick c)).pulsetimer ∧ (ringTick (itimerTick c)).pulsetimer ≤ pulsetimeout := by
    by_cases none_ : pulses = 0
    · exact .inl (there.count.trans (by rw [none_]; rfl))
    · rw [there.timed none_]
      exact .inr (quiet none_)
  obtain ⟨timer', counted, next⟩ := pulse_counts still
  have done : receiveTick c = { ringTick (itimerTick c) with pulsetimer := timer' } := counted
  rw [done]
  refine ⟨{ there with timed := ?_ }, ?_⟩
  · intro some_
    have counting : (ringTick (itimerTick c)).pulsecount ≠ 0 := by
      rw [there.count]
      omega
    rw [← there.timed some_]
    exact next counting
  · have same := rung.events
    rw [ticked] at same ⊢
    exact same

theorem receive_make (here : InMake flash pulses timer c)
    (quiet : pulses ≠ 0 → 1 < timer ∧ timer ≤ pulsetimeout) :
    InMake flash pulses (timer - 1) (receiveTick c) ∧ farEvents (receiveTick c) = farEvents c := by
  have ticked : itimerTick c = c := if_pos here.untimed
  have rung := ring_kept here.facing
  have there := here.kept rung
  have still : (ringTick c).pulsecount = 0 ∨
      1 < (ringTick c).pulsetimer ∧ (ringTick c).pulsetimer ≤ pulsetimeout := by
    by_cases none_ : pulses = 0
    · exact .inl (there.count.trans (by rw [none_]; rfl))
    · rw [there.timed none_]
      exact .inr (quiet none_)
  obtain ⟨timer', counted, next⟩ := pulse_counts still
  have done : receiveTick c = { ringTick c with pulsetimer := timer' } := by
    rw [receiveTick, ticked]
    exact counted
  rw [done]
  refine ⟨{ there with timed := ?_ }, rung.events⟩
  intro some_
  have counting : (ringTick c).pulsecount ≠ 0 := by
    rw [there.count]
    omega
  rw [← there.timed some_]
  exact next counting

theorem pulse_digit (some_ : pulses ≠ 0) (few : pulses ≤ 10) :
    pulseDigit pulses = some (dialled pulses) := by
  have digits : ∀ n ≤ 10, n ≠ 0 → pulseDigit (n : Nat) = some (dialled n) := by decide
  exact digits pulses few some_

/-- The pulse timer ends the digit. -/
theorem receive_digit (here : InMake flash pulses 1 c) (some_ : pulses ≠ 0) (few : pulses ≤ 10) :
    InMake flash 0 0 (receiveTick c) ∧
      farEvents (receiveTick c) = farEvents c ++ [.pulsedigit (dialled pulses)] := by
  have ticked : itimerTick c = c := if_pos here.untimed
  have rung := ring_kept here.facing
  have there := here.kept rung
  have due := there.timed some_
  have done : receiveTick c =
      { qevent { ringTick c with pulsetimer := 0 } (.pulsedigit (dialled pulses)) with
        pulsecount := 0 } := by
    have digit := pulse_digit some_ few
    rw [← there.count] at digit
    have counting : (ringTick c).pulsecount ≠ 0 := by
      rw [there.count]
      omega
    have zero : int32 ((ringTick c).pulsetimer - 1) = 0 := by
      rw [due]
      rfl
    rw [receiveTick, ticked, pulseTick, if_neg (by omega)]
    simp only [zero, digit]
    exact if_pos ⟨Int.le_refl 0, counting⟩
  rw [done]
  constructor
  · exact { there with count := rfl, timed := fun none_ => absurd rfl none_ }
  · rw [← rung.events]
    exact far_qevent rfl

theorem hook_same (same : c.rxhooksig = rxsig) : hooksigPvt c rxsig = c := if_pos same

/-- A change of the hook of an FXO facing channel. -/
theorem hook_changes (facing : c.sig.fxo = true) (live : c.sigfreeze = false)
    (other : c.rxhooksig ≠ rxsig) (hook : rxsig ≠ .start) :
    hooksigPvt c rxsig = fxoHooksig { c with rxhooksig := rxsig } rxsig := by
  have apart : ¬(rxsig = .start ∧ c.gotgs = false) := fun start => hook start.1
  unfold hooksigPvt
  rw [if_neg other, live, if_neg Bool.false_ne_true]
  simp only
  cases known : c.sig with
  | fxols | fxoks =>
    rw [if_neg (by rintro ⟨fxs, _⟩; cases fxs)]
  | fxogs =>
    rw [if_neg (by rintro ⟨fxs, _⟩; cases fxs)]
    simp only [if_neg apart]
  | _ =>
    rw [known] at facing
    cases facing

theorem hook_opens (here : InMake flash pulses timer c) :
    InBreak flash 0 pulses timer (hooksigPvt c .onhook) ∧
      farEvents (hooksigPvt c .onhook) = farEvents c := by
  have other : c.rxhooksig ≠ .onhook := by
    rw [here.hook]
    decide
  have accepts : c.txstate ≠ .debounce ∧ c.txstate ≠ .kewl ∧ c.txstate ≠ .afterkewl := here.accepts
  have moved : fxoHooksig { c with rxhooksig := .onhook } .onhook =
      { c with rxhooksig := .onhook, itimerset := flash, itimer := flash } := by
    simp only [fxoHooksig, fxoOnhook]
    rw [if_pos accepts, ← here.flashes]
    exact if_neg accepts.2.1
  rw [hook_changes here.facing here.live other (by decide), moved]
  constructor
  · exact
      { here with
        hook := rfl
        set := rfl
        left := by simp
        count := here.count
        timed := here.timed }
  · rfl

theorem stop_kept : Kept c (fxoStopRing c) := by
  unfold fxoStopRing
  simp only
  have rung : Kept c (if c.txstate = .start then rbsSethook c .offhook .afterstart afterstartTime else c) := by
    split
    · exact (Kept.refl c).sethook (by decide) _ _
    · exact Kept.refl c
  exact { rung with }

/-- The end of a break within the limits is a pulse. -/
theorem break_pulse (left : c.itimer = flash - past * chunksize) (set : c.itimerset = flash)
    (count : c.pulsecount = pulses) (few : pulses < 10) (within : BreakOk flash past)
    (_ : flash < 2 ^ 31) :
    ∃ d, fxoBreak c = d ∧ d.sig = c.sig ∧ d.sigfreeze = c.sigfreeze ∧ d.txstate = c.txstate ∧
      d.times = c.times ∧ d.rxhooksig = c.rxhooksig ∧ d.pulsecount = (pulses + 1 : Nat) ∧
      d.pulsetimer = pulsetimeout ∧
      farEvents d = farEvents c ++ (if pulses = 0 then [.pulseStart] else []) := by
  obtain ⟨long, short, before⟩ := within
  unfold minpulsetime maxpulsetime chunksize at *
  have plen : int32 (c.itimerset - c.itimer) = past * 8 := by
    rw [set, left, int32_small (by omega) (by omega)]
    omega
  have next : int32 (c.pulsecount + 1) = (pulses + 1 : Nat) := by
    rw [count, int32_small (by omega) (by omega)]
    omega
  refine ⟨_, rfl, ?_⟩
  unfold fxoBreak minpulsetime maxpulsetime
  rw [if_pos (by omega)]
  simp only [plen, next]
  rw [if_pos short, if_pos long]
  by_cases first : pulses = 0
  · rw [if_pos first, if_pos (by omega)]
    exact ⟨rfl, rfl, rfl, rfl, rfl, rfl, rfl, far_qevent rfl⟩
  · rw [if_neg first, if_neg (by omega), List.append_nil]
    exact ⟨rfl, rfl, rfl, rfl, rfl, rfl, rfl, rfl⟩

theorem hook_closes (here : InBreak flash past pulses timer c) (few : pulses < 10)
    (within : BreakOk flash past) :
    InMake flash (pulses + 1) pulsetimeout (hooksigPvt c .offhook) ∧
      farEvents (hooksigPvt c .offhook) =
        farEvents c ++ (if pulses = 0 then [.pulseStart] else []) := by
  have other : c.rxhooksig ≠ .offhook := by
    rw [here.hook]
    decide
  have bounds := int32_bounds (c.times.rxflashtime * chunksize)
  rw [← flashTimer, here.flashes] at bounds
  have kept : Kept { c with rxhooksig := .offhook } (fxoStopRing { c with rxhooksig := .offhook }) :=
    stop_kept
  have moved : hooksigPvt c .offhook = fxoOffhook { c with rxhooksig := .offhook } :=
    hook_changes here.facing here.live other (by decide)
  obtain ⟨d, pulse, sig, frozen, txstate, times, hook, count, timed, events⟩ :=
    break_pulse (kept.itimer.trans here.left) (kept.itimerset.trans here.set)
      (kept.count.trans here.count) few within bounds.2
  rw [moved, fxoOffhook, pulse]
  constructor
  · exact
      { facing := by
          show d.sig.fxo = true
          rw [sig, kept.sig]
          exact here.facing
        live := frozen.trans (kept.frozen.trans here.live)
        accepts := by
          show Accepts d.txstate
          rw [txstate]
          exact kept.state here.accepts
        flashes := by
          show flashTimer d = flash
          rw [flashTimer, times, kept.times]
          exact here.flashes
        hook := hook.trans kept.hook
        untimed := rfl
        count := count
        timed := fun _ => timed }
  · have same : farEvents (fxoStopRing { c with rxhooksig := .offhook }) = farEvents c := kept.events
    rw [same] at events
    exact events

end steps

section tails
variable {g : Globals} {flash timer : Int} {past pulses chunks : Nat} {c c' : Chan}
  {inputs : List Input} {rxsig : RxSig}

/-- The inputs that leave the hook as it is. -/
def Still (rxsig : RxSig) (inputs : List Input) : Prop :=
  ∀ i ∈ inputs, i = .receive ∨ i = .transmit ∨ i = .hook rxsig

theorem feed_cons {i : Input} {rest : List Input} (run : feed g (i :: rest) c = some c') :
    ∃ d, feedOne g c i = some d ∧ feed g rest d = some c' := Option.bind_eq_some_iff.mp run

theorem feed_append {a b : List Input} :
    feed g (a ++ b) c = (feed g a c).bind (feed g b) := by
  induction a generalizing c with
  | nil => rfl
  | cons i a ih =>
    rw [List.cons_append, feed, feed, Option.bind_assoc]
    congr 1
    funext d
    exact ih

theorem break_tail (here : InBreak flash past pulses timer c) (still : Still .onhook inputs)
    (running : (past + inputs.count .receive : Nat) * chunksize < flash)
    (quiet : pulses ≠ 0 → (inputs.count .receive : Int) < timer ∧ timer ≤ pulsetimeout)
    (run : feed g inputs c = some c') :
    InBreak flash (past + inputs.count .receive) pulses (timer - inputs.count .receive) c' ∧
      farEvents c' = farEvents c := by
  induction inputs generalizing c past timer with
  | nil =>
    rw [← Option.some.inj run]
    rw [List.count_nil, Nat.add_zero, Int.natCast_zero, Int.sub_zero]
    exact ⟨here, rfl⟩
  | cons i rest ih =>
    obtain ⟨d, stepped, later⟩ := feed_cons run
    have still' : Still .onhook rest := fun j within => still j (List.mem_cons_of_mem i within)
    obtain rfl | rfl | rfl := still i List.mem_cons_self
    · rw [List.count_cons_self] at running quiet ⊢
      obtain ⟨next, same⟩ := receive_break here (by unfold chunksize at running ⊢; omega)
        (fun some_ => by have bound := quiet some_; omega)
      rw [← Option.some.inj stepped] at later
      obtain ⟨there, same'⟩ := ih next still' (by unfold chunksize at running ⊢; omega)
        (fun some_ => by have bound := quiet some_; omega) later
      refine ⟨?_, same'.trans same⟩
      convert there using 1
      · omega
      · omega
    · have kept := transmit_kept here.accepts stepped
      rw [List.count_cons_of_ne (by decide)] at running quiet ⊢
      obtain ⟨there, same⟩ := ih (here.kept kept) still' running quiet later
      exact ⟨there, same.trans kept.events⟩
    · have same : d = c := (Option.some.inj stepped).symm.trans (hook_same here.hook)
      rw [List.count_cons_of_ne (by decide)] at running quiet ⊢
      rw [same] at later
      exact ih here still' running quiet later

theorem make_tail (here : InMake flash pulses timer c) (still : Still .offhook inputs)
    (quiet : pulses ≠ 0 → (inputs.count .receive : Int) < timer ∧ timer ≤ pulsetimeout)
    (run : feed g inputs c = some c') :
    InMake flash pulses (timer - inputs.count .receive) c' ∧ farEvents c' = farEvents c := by
  induction inputs generalizing c timer with
  | nil =>
    rw [← Option.some.inj run]
    rw [List.count_nil, Int.natCast_zero, Int.sub_zero]
    exact ⟨here, rfl⟩
  | cons i rest ih =>
    obtain ⟨d, stepped, later⟩ := feed_cons run
    have still' : Still .offhook rest := fun j within => still j (List.mem_cons_of_mem i within)
    obtain rfl | rfl | rfl := still i List.mem_cons_self
    · rw [List.count_cons_self] at quiet ⊢
      obtain ⟨next, same⟩ := receive_make here (fun some_ => by have bound := quiet some_; omega)
      rw [← Option.some.inj stepped] at later
      obtain ⟨there, same'⟩ := ih next still' (fun some_ => by have bound := quiet some_; omega) later
      refine ⟨?_, same'.trans same⟩
      convert there using 1
      omega
    · have kept := transmit_kept here.accepts stepped
      rw [List.count_cons_of_ne (by decide)] at quiet ⊢
      obtain ⟨there, same⟩ := ih (here.kept kept) still' quiet later
      exact ⟨there, same.trans kept.events⟩
    · have same : d = c := (Option.some.inj stepped).symm.trans (hook_same here.hook)
      rw [List.count_cons_of_ne (by decide)] at quiet ⊢
      rw [same] at later
      exact ih here still' quiet later

/-- A make that is long enough ends the digit. -/
theorem last_make (here : InMake flash pulses timer c) (some_ : pulses ≠ 0) (few : pulses ≤ 10)
    (still : Still .offhook inputs) (low : 1 ≤ timer) (high : timer ≤ pulsetimeout)
    (long : timer ≤ inputs.count .receive) (run : feed g inputs c = some c') :
    farEvents c' = farEvents c ++ [.pulsedigit (dialled pulses)] := by
  induction inputs generalizing c timer with
  | nil =>
    rw [List.count_nil] at long
    omega
  | cons i rest ih =>
    obtain ⟨d, stepped, later⟩ := feed_cons run
    have still' : Still .offhook rest := fun j within => still j (List.mem_cons_of_mem i within)
    obtain rfl | rfl | rfl := still i List.mem_cons_self
    · rw [List.count_cons_self] at long
      rw [← Option.some.inj stepped] at later
      by_cases due : timer = 1
      · subst due
        obtain ⟨next, digit⟩ := receive_digit here some_ few
        obtain ⟨_, same⟩ := make_tail next still' (fun none_ => absurd rfl none_) later
        rw [same, digit]
      · obtain ⟨next, same⟩ := receive_make here (fun _ => ⟨by omega, high⟩)
        rw [ih next still' (by omega) (by omega) (by omega) later, same]
    · have kept := transmit_kept here.accepts stepped
      rw [List.count_cons_of_ne (by decide)] at long
      rw [ih (here.kept kept) still' low high long later, kept.events]
    · have same : d = c := (Option.some.inj stepped).symm.trans (hook_same here.hook)
      rw [List.count_cons_of_ne (by decide)] at long
      rw [same] at later
      exact ih here still' low high long later

/-- A break and the beginning of the make after it. -/
theorem one_pulse {break_ make : Nat} {opened closed : List Input}
    (here : InMake flash pulses timer c) (few : pulses < 10) (within : BreakOk flash break_)
    (quiet : pulses ≠ 0 → (break_ : Int) < timer ∧ timer ≤ pulsetimeout)
    (open_ : Phase .onhook break_ opened) (close : Phase .offhook make closed)
    (run : feed g (opened ++ closed) c = some c') :
    ∃ d rest, InMake flash (pulses + 1) pulsetimeout d ∧ Still .offhook rest ∧
      rest.count .receive = make ∧ feed g rest d = some c' ∧
      farEvents d = farEvents c ++ (if pulses = 0 then [.pulseStart] else []) := by
  obtain ⟨breaks, rfl, still, rfl⟩ := open_
  obtain ⟨makes, rfl, still', count⟩ := close
  rw [feed_append] at run
  obtain ⟨b, broken, run'⟩ := Option.bind_eq_some_iff.mp run
  obtain ⟨c₁, hooked, tail⟩ := feed_cons broken
  obtain ⟨opened, same⟩ := hook_opens here
  rw [← Option.some.inj hooked] at tail
  have before := within.2.2
  obtain ⟨onhook, same'⟩ := break_tail opened still (by rw [Nat.zero_add]; exact before) quiet tail
  rw [Nat.zero_add] at onhook
  obtain ⟨c₂, hooked', tail'⟩ := feed_cons run'
  obtain ⟨closed, started⟩ := hook_closes onhook few within
  rw [← Option.some.inj hooked'] at tail'
  refine ⟨_, makes, closed, still', count, tail', ?_⟩
  rw [started, same', same]

theorem train_decoded {train : List (Nat × Nat)} (here : InMake flash pulses timer c)
    (some_ : train ≠ []) (few : pulses + train.length ≤ 10) (limits : Limits flash train)
    (quiet : pulses ≠ 0 → ((train.head some_).1 : Int) < timer ∧ timer ≤ pulsetimeout)
    (trained : Train train inputs) (run : feed g inputs c = some c') :
    farEvents c' = farEvents c ++ ((if pulses = 0 then [.pulseStart] else []) ++
      [.pulsedigit (dialled (pulses + train.length))]) := by
  induction trained generalizing c pulses timer with
  | nil => exact absurd rfl some_
  | @cons break_ make opened closed rest later open_ close trained ih =>
    rw [feed_append] at run
    obtain ⟨c₁, run₁, run₂⟩ := Option.bind_eq_some_iff.mp run
    rw [List.length_cons] at few ⊢
    cases later with
    | nil =>
      cases trained
      rw [← Option.some.inj run₂]
      obtain ⟨d, tail, there, still, count, ran, started⟩ :=
        one_pulse here (by omega) limits.1 quiet open_ close run₁
      have ended := last_make there (Nat.succ_ne_zero pulses) (by omega) still (by decide)
        (Int.le_refl _) (by rw [count]; exact limits.2) ran
      rw [ended, started, List.append_assoc]
      rfl
    | cons next others =>
      obtain ⟨within, short, limits'⟩ := limits
      obtain ⟨d, tail, there, still, count, ran, started⟩ :=
        one_pulse here (by omega) within quiet open_ close run₁
      obtain ⟨there', same⟩ := make_tail there still
        (fun _ => ⟨by rw [count]; push_cast at short; omega, Int.le_refl _⟩) ran
      rw [count] at there'
      have decoded := ih there' (List.cons_ne_nil _ _) (by omega) limits'
        (fun _ => ⟨by rw [List.head_cons]; push_cast at short; omega, by omega⟩) run₂
      have total : pulses + 1 + (next :: others).length = pulses + ((next :: others).length + 1) := by
        omega
      rw [decoded, same, started, if_neg (Nat.succ_ne_zero pulses), List.nil_append,
        List.append_assoc, total]

end tails

section untimed
variable {g : Globals} {c c' : Chan} {inputs : List Input}

/-- No break is being timed while the far end is off hook. -/
structure Untimed (c : Chan) : Prop where
  facing : c.sig.fxo = true
  stopped : c.rxhooksig = .offhook → c.itimer = 0

theorem sethook_rx (txsig : TxSig) (txstate : TxState) (timeout : Int) :
    (rbsSethook c txsig txstate timeout).sig = c.sig ∧
      (rbsSethook c txsig txstate timeout).rxhooksig = c.rxhooksig ∧
      (rbsSethook c txsig txstate timeout).itimer = c.itimer ∧
      (rbsSethook c txsig txstate timeout).times = c.times := by
  unfold rbsSethook
  split
  · exact ⟨rfl, rfl, rfl, rfl⟩
  · simp only
    split
    · exact ⟨rfl, rfl, rfl, rfl⟩
    · exact ⟨rfl, rfl, rfl, rfl⟩

theorem Untimed.same (here : Untimed c) (sig : c'.sig = c.sig) (hook : c'.rxhooksig = c.rxhooksig)
    (timer : c'.itimer = c.itimer) : Untimed c' := by
  constructor
  · rw [sig]
    exact here.facing
  · intro off
    rw [timer]
    exact here.stopped (hook.symm.trans off)

theorem Untimed.kept (here : Untimed c) (kept : Kept c c') : Untimed c' :=
  here.same kept.sig kept.hook kept.itimer

theorem untimed_expire (here : Untimed c) (expired : rbsOtimerExpire g c = some c') : Untimed c' := by
  by_cases accepts : Accepts c.txstate
  · exact here.kept (otimer_kept (Kept.refl c) accepts expired)
  have states : c.txstate = .debounce ∨ c.txstate = .kewl ∨ c.txstate = .afterkewl := by
    unfold Accepts at accepts
    tauto
  obtain state | state | state := states
  · have expire : rbsOtimerExpire g c = some (debounceExpire { c with otimer := 0 }) := by
      unfold rbsOtimerExpire
      simp only
      rw [state]
    rw [expire] at expired
    rw [← Option.some.inj expired]
    obtain ⟨sig, hook, timer, _⟩ := @sethook_rx { c with otimer := 0 } .offhook .offhook 0
    have moved := here.same sig hook timer
    unfold debounceExpire
    simp only
    split
    · rename_i onhook
      refine ⟨moved.facing, ?_⟩
      intro off
      have both := onhook.1.symm.trans off
      cases both
    · exact moved
  · have expire : rbsOtimerExpire g c =
        some (hookcomplete (rbsSethook { c with otimer := 0 } .onhook .afterkewl afterkewlTime)) := by
      unfold rbsOtimerExpire
      simp only
      rw [state]
    rw [expire] at expired
    rw [← Option.some.inj expired]
    obtain ⟨sig, hook, timer, _⟩ := @sethook_rx { c with otimer := 0 } .onhook .afterkewl afterkewlTime
    exact (here.same sig hook timer).kept (Kept.refl _).hookcomplete
  · have expire : rbsOtimerExpire g c = some (afterkewlExpire { c with otimer := 0 }) := by
      unfold rbsOtimerExpire
      simp only
      rw [state]
    rw [expire] at expired
    rw [← Option.some.inj expired]
    unfold afterkewlExpire
    simp only
    split
    · exact here.same rfl rfl rfl
    · exact here.same rfl rfl rfl

theorem untimed_transmit (here : Untimed c) (ticked : transmitTick g c = some c') : Untimed c' := by
  unfold transmitTick at ticked
  split at ticked
  · rw [← Option.some.inj ticked]
    exact here
  · have counted : Untimed { c with otimer := int32 (c.otimer - chunksize) } :=
      here.same rfl rfl rfl
    simp only at ticked
    split at ticked
    · exact untimed_expire counted ticked
    · rw [← Option.some.inj ticked]
      exact counted

theorem untimed_itimer (here : Untimed c) : Untimed (itimerTick c) := by
  unfold itimerTick
  by_cases stopped : c.itimer = 0
  · rw [if_pos stopped]
    exact here
  · rw [if_neg stopped]
    have apart : c.rxhooksig ≠ .offhook := fun off => stopped (here.stopped off)
    have counted : Untimed { c with itimer := int32 (c.itimer - chunksize) } :=
      ⟨here.facing, fun off => absurd off apart⟩
    simp only
    split
    · unfold rbsItimerExpire
      split
      · exact counted.same rfl rfl rfl
      · exact counted.same rfl rfl rfl
      · exact counted.same rfl rfl rfl
      · exact counted.same rfl rfl rfl
    · exact counted

theorem untimed_pulse (here : Untimed c) : Untimed (pulseTick c) := by
  unfold pulseTick
  split
  · exact here
  · have counted : Untimed { c with pulsetimer := int32 (c.pulsetimer - 1) } := here.same rfl rfl rfl
    simp only
    split
    · split
      · exact counted.same rfl rfl rfl
      · exact counted.same rfl rfl rfl
    · exact counted

theorem break_sig (c : Chan) : (fxoBreak c).sig = c.sig := by
  unfold fxoBreak
  split
  · simp only
    split
    · split
      · split <;> rfl
      · rfl
    · rfl
  · split <;> rfl

theorem onhook_rx (c : Chan) :
    (fxoOnhook c).sig = c.sig ∧ (fxoOnhook c).rxhooksig = c.rxhooksig := by
  unfold fxoOnhook
  simp only
  have timed : ∀ e : Chan, e.sig = c.sig ∧ e.rxhooksig = c.rxhooksig →
      (if e.txstate = .kewl then { e with kewlonhook := true } else e).sig = c.sig ∧
        (if e.txstate = .kewl then { e with kewlonhook := true } else e).rxhooksig = c.rxhooksig := by
    intro e same
    split
    · exact same
    · exact same
  apply timed
  split
  · exact ⟨rfl, rfl⟩
  · exact ⟨rfl, rfl⟩

theorem start_rx (facing : c.sig.fxo = true) (live : c.sigfreeze = false)
    (other : c.rxhooksig ≠ .start) :
    (hooksigPvt c .start).sig = c.sig ∧ (hooksigPvt c .start).rxhooksig = .start := by
  unfold hooksigPvt
  rw [if_neg other, live, if_neg Bool.false_ne_true]
  simp only
  cases known : c.sig with
  | fxols | fxoks =>
    rw [if_neg (by rintro ⟨fxs, _⟩; cases fxs)]
    exact ⟨rfl, rfl⟩
  | fxogs =>
    rw [if_neg (by rintro ⟨fxs, _⟩; cases fxs)]
    simp only [fxoHooksig]
    split
    · exact ⟨rfl, rfl⟩
    · exact ⟨rfl, rfl⟩
  | _ =>
    rw [known] at facing
    cases facing

theorem untimed_hook (here : Untimed c) (rxsig : RxSig) : Untimed (hooksigPvt c rxsig) := by
  by_cases same : c.rxhooksig = rxsig
  · rw [hook_same same]
    exact here
  by_cases frozen : c.sigfreeze = true
  · rw [hooksigPvt, if_neg same, if_pos frozen]
    exact here
  have live : c.sigfreeze = false := Bool.not_eq_true _ ▸ frozen
  by_cases start : rxsig = .start
  · subst start
    obtain ⟨sig, hook⟩ := start_rx here.facing live same
    refine ⟨by rw [sig]; exact here.facing, ?_⟩
    intro off
    rw [hook] at off
    cases off
  rw [hook_changes here.facing live same start]
  cases rxsig with
  | offhook =>
    have kept : Kept { c with rxhooksig := .offhook } (fxoStopRing { c with rxhooksig := .offhook }) :=
      stop_kept
    have sig := (break_sig (fxoStopRing { c with rxhooksig := .offhook })).trans kept.sig
    refine ⟨?_, fun _ => rfl⟩
    show (fxoBreak (fxoStopRing { c with rxhooksig := .offhook })).sig.fxo = true
    rw [sig]
    exact here.facing
  | onhook =>
    obtain ⟨sig, hook⟩ := onhook_rx { c with rxhooksig := .onhook }
    refine ⟨?_, ?_⟩
    · show (fxoOnhook { c with rxhooksig := .onhook }).sig.fxo = true
      rw [sig]
      exact here.facing
    · intro off
      have both := hook.symm.trans off
      cases both
  | start => exact absurd rfl start
  | ring => exact ⟨here.facing, fun off => by cases off⟩
  | initial => exact ⟨here.facing, fun off => by cases off⟩

/-- While the far end is off hook, no break is being timed, in every run from a
    state in which this is so. -/
theorem untimed_run (here : Untimed c) (run : feed g inputs c = some c') : Untimed c' := by
  induction inputs generalizing c with
  | nil =>
    rw [← Option.some.inj run]
    exact here
  | cons i rest ih =>
    obtain ⟨d, stepped, later⟩ := feed_cons run
    apply ih _ later
    cases i with
    | receive =>
      rw [← Option.some.inj stepped]
      have timed := untimed_itimer here
      exact untimed_pulse (timed.kept (ring_kept timed.facing))
    | transmit => exact untimed_transmit here stepped
    | hook rxsig =>
      rw [← Option.some.inj stepped]
      exact untimed_hook here rxsig

end untimed

/-- An FXO facing channel that is off hook decodes pulses, unless its signalling is
    frozen or its transmitter is in the states in which the far end's hook does
    not count. -/
theorem offhook_decodes_pulses (g : Globals) (c : Chan) (off : OffHook c)
    (live : c.sigfreeze = false) (accepts : Accepts c.txstate) : DecodesPulses g c := by
  intro train inputs c' some_ few limits trained run
  have here : InMake (flashTimer c) 0 0 c :=
    { facing := off.facing
      live := live
      accepts := accepts
      flashes := rfl
      hook := off.hook
      untimed := off.untimed
      count := off.between
      timed := fun none_ => absurd rfl none_ }
  have decoded := train_decoded here (List.ne_nil_of_length_pos some_) (by omega) limits
    (fun none_ => absurd rfl none_) trained run
  rw [decoded, Nat.zero_add]
  rfl

/-- The phone on an FXOKS channel, off hook in a call. -/
def talkingChan : Chan :=
  { idleChan with
    txstate := .offhook
    txhooksig := .offhook
    rxhooksig := .offhook
    gotgs := true }

theorem offhook_decodes_pulses_talking : DecodesPulses initialGlobals talkingChan :=
  offhook_decodes_pulses initialGlobals talkingChan ⟨rfl, rfl, rfl, rfl⟩ rfl (by decide)

/-- One break of 20 ms. -/
def onePulse : List Input :=
  (.hook .onhook :: List.replicate 20 .receive) ++ (.hook .offhook :: List.replicate 250 .receive) ++ []

theorem one_pulse_train : Train [(20, 250)] onePulse := by
  have still : ∀ rxsig : RxSig, ∀ n, ∀ i ∈ List.replicate n Input.receive,
      i = .receive ∨ i = .transmit ∨ i = .hook rxsig :=
    fun _ _ i within => .inl (List.eq_of_mem_replicate within)
  exact Train.cons ⟨_, rfl, still _ _, List.count_replicate_self⟩
    ⟨_, rfl, still _ _, List.count_replicate_self⟩ Train.nil

theorem unheard_pulse {c : Chan} (limits : Limits (flashTimer c) [(20, 250)])
    (quiet : (feed initialGlobals onePulse c).map farEvents = some []) :
    ¬DecodesPulses initialGlobals c := by
  intro decodes
  obtain ⟨c', run, none_⟩ := Option.map_eq_some_iff.mp quiet
  have decoded := decodes [(20, 250)] onePulse c' (by decide) (by decide) limits one_pulse_train run
  rw [none_] at decoded
  exact List.append_ne_nil_of_right_ne_nil _ (List.cons_ne_nil _ _) decoded.symm

/-- A channel hears no pulses while its signalling is frozen, or while it waits for
    the end of the debounce time. -/
theorem frozen_ignores_pulses :
    (OffHook { talkingChan with sigfreeze := true } ∧
      ¬DecodesPulses initialGlobals { talkingChan with sigfreeze := true }) ∧
    OffHook { talkingChan with txstate := .debounce, otimer := 4800 } ∧
      ¬DecodesPulses initialGlobals { talkingChan with txstate := .debounce, otimer := 4800 } := by
  refine ⟨⟨⟨rfl, rfl, rfl, rfl⟩, unheard_pulse ?_ (by decide +kernel)⟩,
    ⟨rfl, rfl, rfl, rfl⟩, unheard_pulse ?_ (by decide +kernel)⟩
  · exact ⟨⟨by decide, by decide, by decide⟩, by decide⟩
  · exact ⟨⟨by decide, by decide, by decide⟩, by decide⟩

end Signalling
