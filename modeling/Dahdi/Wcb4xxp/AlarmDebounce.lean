import Dahdi.Library.GuardedRun

/-!
The S/T port of a wcb4xxp span: hfc_handle_state, its timers and the debouncing of its
alarm in hfc_update_st_timers. The ticks are counted without wrapping.
-/
namespace Wcb4xxpAlarm
open GuardedRun

def DAHDI_ALARM_YELLOW : Nat := 4
def DAHDI_ALARM_RED : Nat := 8

inductive Timer where
  | t1 | t2 | t3 | t4
  deriving DecidableEq, Repr

structure Params where
  alarmdebounce : Int
  persistentlayer1 : Bool
  timer1Ms : Int
  timer3Ms : Int
  teMode : Bool
  deriving DecidableEq, Repr

/-- One span with the card's ticks; `changed` is the tick in which newalarm last changed. -/
structure Port where
  ticks : Int
  newalarm : Nat
  alarms : Nat
  alarmtimer : Int
  oldstate : Nat
  hfcTimers : Timer → Int
  hfcTimerOn : Timer → Bool
  changed : Int

/-- A_ST_RD_STA as hfc_handle_state reads it, and as it reads it again after a forced G1. -/
structure Reads where
  state : Nat
  forced : Nat
  deriving DecidableEq, Repr

section Code
variable (p : Params)

def sta (state : Nat) : Nat := state % 16
def t2Expired (state : Nat) : Bool := state.testBit 5
def info0 (state : Nat) : Bool := state.testBit 6

/-- The alarm that hfc_handle_state takes a state for. -/
def alarmOf (te : Bool) (state : Nat) : Nat :=
  if te then
    if sta state = 5 ∨ sta state = 6 then DAHDI_ALARM_YELLOW
    else if sta state = 7 then 0 else DAHDI_ALARM_RED
  else
    if sta state = 2 then DAHDI_ALARM_YELLOW
    else if sta state = 3 then 0 else DAHDI_ALARM_RED

def setTimerOn (t : Timer) (on : Bool) (s : Port) : Port :=
  { s with hfcTimerOn := Function.update s.hfcTimerOn t on }

def startTimer (t : Timer) (ms : Int) (s : Port) : Port :=
  setTimerOn t true { s with hfcTimers := Function.update s.hfcTimers t (s.ticks + ms) }

def hfcStopAllTimers (s : Port) : Port :=
  setTimerOn .t1 false (setTimerOn .t2 false (setTimerOn .t3 false (setTimerOn .t4 false s)))

def hfcStopSt (s : Port) : Port := hfcStopAllTimers s

def hfcStartSt (s : Port) : Port :=
  if p.teMode then startTimer .t4 1000 (setTimerOn .t1 false (startTimer .t3 p.timer3Ms s))
  else setTimerOn .t3 false (startTimer .t1 p.timer1Ms s)

/-- The first half of hfc_handle_state: the alarm of the state and the debounce timer. -/
def takeState (state : Nat) (s : Port) : Port :=
  let s' := if p.teMode then
      if sta state = 7 then setTimerOn .t4 false (setTimerOn .t3 false s) else s
    else if sta state = 3 then setTimerOn .t1 false s else s
  { s' with
    newalarm := alarmOf p.teMode state
    alarmtimer := s.ticks + p.alarmdebounce
    oldstate := state
    changed := if alarmOf p.teMode state = s.newalarm then s.changed else s.ticks }

/-- T2 is off when its expiry in G4 forces G1 and comes back to hfc_handle_state. -/
def leaveG4 (r : Reads) (s : Port) : Port :=
  if !p.teMode && sta r.state = 4 && t2Expired r.state && s.hfcTimerOn .t2 then
    takeState p r.forced (setTimerOn .t2 false s)
  else s

def hfcHandleState (r : Reads) (s : Port) : Port :=
  let s := leaveG4 p r (takeState p r.state s)
  if p.teMode && sta r.state = 3 && info0 r.state && p.persistentlayer1 then
    hfcStartSt p (startTimer .t3 p.timer3Ms s)
  else s

/-- hfc_timer_expire, as hfc_update_st_timers calls it: never for T2. -/
def hfcTimerExpire (t : Timer) (r : Reads) (s : Port) : Port :=
  let s := setTimerOn t false s
  match t with
  | .t1 => hfcHandleState p r s
  | .t2 => s
  | .t3 => if p.persistentlayer1 then hfcStartSt p (hfcStopSt s) else hfcStopSt s
  | .t4 => startTimer .t4 1000 (hfcHandleState p r s)

def due (t : Timer) (s : Port) : Bool := s.hfcTimerOn t && decide (s.hfcTimers t ≤ s.ticks)

def updateTimers (reads : Timer → Reads) : List Timer → Port → Port
  | [], s => s
  | t :: rest, s =>
    updateTimers reads rest (if due t s then hfcTimerExpire p t (reads t) s else s)

def debounce (s : Port) : Port :=
  if s.newalarm ≠ s.alarms ∧ s.alarmtimer ≤ s.ticks then { s with alarms := s.newalarm } else s

def hfcUpdateStTimers (reads : Timer → Reads) (s : Port) : Port :=
  debounce (updateTimers p reads [.t1, .t3, .t4] s)

inductive Label where
  | tick (reads : Timer → Reads)
  | stateChange (r : Reads)
  | activate

def ticked (s : Port) : Port := { s with ticks := s.ticks + 1 }

/-- The timer interrupt, the look at R_SCI in every hundredth tick, and a hfc_start_st. -/
def next (s : Port) : Label → Option Port
  | .tick reads => some (hfcUpdateStTimers p reads (ticked s))
  | .stateChange r => if s.ticks % 100 = 0 then some (hfcHandleState p r s) else none
  | .activate => some (hfcStartSt p s)

/-- A port that hfc_reset_st has left. -/
structure Fresh (s : Port) : Prop where
  alarms : s.alarms = DAHDI_ALARM_RED
  newalarm : s.newalarm = DAHDI_ALARM_RED
  timers : ∀ t, s.hfcTimerOn t = false
  changed : s.changed = s.ticks

def sys : System Port Label := ⟨Fresh, fun s l s' => next p s l = some s'⟩

/-- A pass through hfc_handle_state that does not put off a pending report. -/
def NoRestart (state : Nat) (s : Port) : Prop :=
  p.alarmdebounce ≤ 0 ∨ alarmOf p.teMode state ≠ s.newalarm ∨ s.newalarm = s.alarms ∨ s.changed = s.ticks

def handles (t : Timer) : Bool := t = .t1 || t = .t4

def NoRestarts (reads : Timer → Reads) : List Timer → Port → Prop
  | [], _ => True
  | t :: rest, s => (due t s = true → handles t = true → NoRestart p (reads t).state s) ∧
    NoRestarts reads rest (if due t s then hfcTimerExpire p t (reads t) s else s)

def Undisturbed (s : Port) : Label → Prop
  | .tick reads => NoRestarts p reads [.t1, .t3, .t4] (ticked s)
  | .stateChange r => NoRestart p r.state s
  | .activate => True

end Code

section Frame
variable {p : Params} {s s' : Port}

/-- What the timers leave alone. -/
structure SameAlarm (s s' : Port) : Prop where
  ticks : s'.ticks = s.ticks
  newalarm : s'.newalarm = s.newalarm
  alarms : s'.alarms = s.alarms
  alarmtimer : s'.alarmtimer = s.alarmtimer
  changed : s'.changed = s.changed
  t2 : s.hfcTimerOn .t2 = false → s'.hfcTimerOn .t2 = false

theorem same_refl (s : Port) : SameAlarm s s := ⟨rfl, rfl, rfl, rfl, rfl, id⟩

theorem same_trans {s'' : Port} (first : SameAlarm s s') (second : SameAlarm s' s'') : SameAlarm s s'' where
  ticks := second.ticks.trans first.ticks
  newalarm := second.newalarm.trans first.newalarm
  alarms := second.alarms.trans first.alarms
  alarmtimer := second.alarmtimer.trans first.alarmtimer
  changed := second.changed.trans first.changed
  t2 := fun off => second.t2 (first.t2 off)

theorem same_off (t : Timer) (s : Port) : SameAlarm s (setTimerOn t false s) := by
  refine ⟨rfl, rfl, rfl, rfl, rfl, fun off => ?_⟩
  change Function.update s.hfcTimerOn t false .t2 = false
  rw [Function.update_apply]
  split
  · rfl
  · exact off

theorem same_started {t : Timer} (other : t ≠ .t2) (ms : Int) (s : Port) : SameAlarm s (startTimer t ms s) := by
  refine ⟨rfl, rfl, rfl, rfl, rfl, fun off => ?_⟩
  change Function.update s.hfcTimerOn t true .t2 = false
  rw [Function.update_of_ne (Ne.symm other)]
  exact off

theorem same_start (p : Params) (s : Port) : SameAlarm s (hfcStartSt p s) := by
  rw [hfcStartSt]
  split
  · refine same_trans ?_ (same_started (by decide) _ _)
    exact same_trans (same_started (by decide) _ _) (same_off _ _)
  · exact same_trans (same_started (by decide) _ _) (same_off _ _)

theorem same_stop (s : Port) : SameAlarm s (hfcStopSt s) := by
  rw [hfcStopSt, hfcStopAllTimers]
  refine same_trans ?_ (same_off _ _)
  refine same_trans ?_ (same_off _ _)
  exact same_trans (same_off _ _) (same_off _ _)

/-- T3 alone leaves the alarm as it is. -/
theorem same_expired {t : Timer} (other : handles t = false) (r : Reads) (s : Port) :
    SameAlarm s (hfcTimerExpire p t r s) := by
  cases t with
  | t1 => exact absurd other (by decide)
  | t4 => exact absurd other (by decide)
  | t2 => exact same_off _ _
  | t3 =>
    rw [hfcTimerExpire]
    split
    · exact same_trans (same_off _ _) (same_trans (same_stop _) (same_start _ _))
    · exact same_trans (same_off _ _) (same_stop _)

end Frame

section Invariant
variable {p : Params} {s s' : Port}

structure Debouncing (p : Params) (s : Port) : Prop where
  t2 : s.hfcTimerOn .t2 = false
  past : s.changed ≤ s.ticks
  held : s.newalarm ≠ s.alarms → s.changed + p.alarmdebounce ≤ s.alarmtimer
  prompt : s.newalarm ≠ s.alarms →
    s.alarmtimer = s.changed + p.alarmdebounce ∨ p.alarmdebounce ≤ 0 ∧ s.alarmtimer ≤ s.ticks

theorem debouncing_same (kept : Debouncing p s) (same : SameAlarm s s') : Debouncing p s' := by
  refine ⟨same.t2 kept.t2, ?_, ?_, ?_⟩
  · rw [same.changed, same.ticks]
    exact kept.past
  · rw [same.newalarm, same.alarms, same.changed, same.alarmtimer]
    exact kept.held
  · rw [same.newalarm, same.alarms, same.changed, same.alarmtimer, same.ticks]
    exact kept.prompt

theorem take_t2 (p : Params) (state : Nat) (off : s.hfcTimerOn .t2 = false) :
    (takeState p state s).hfcTimerOn .t2 = false := by
  rw [takeState]
  dsimp only
  split
  · split
    · exact (same_off .t4 _).t2 ((same_off .t3 _).t2 off)
    · exact off
  · split
    · exact (same_off .t1 _).t2 off
    · exact off

theorem take_alarms (p : Params) (state : Nat) (s : Port) : (takeState p state s).alarms = s.alarms := by
  rw [takeState]
  dsimp only
  split <;> split <;> rfl

theorem take_ticks (p : Params) (state : Nat) (s : Port) : (takeState p state s).ticks = s.ticks := by
  rw [takeState]
  dsimp only
  split <;> split <;> rfl

theorem take_changed (p : Params) (state : Nat) (s : Port) :
    alarmOf p.teMode state = s.newalarm ∧ (takeState p state s).changed = s.changed ∨
    alarmOf p.teMode state ≠ s.newalarm ∧ (takeState p state s).changed = s.ticks := by
  rw [takeState]
  dsimp only
  by_cases unchanged : alarmOf p.teMode state = s.newalarm
  · exact .inl ⟨unchanged, if_pos unchanged⟩
  · exact .inr ⟨unchanged, if_neg unchanged⟩

/-- A pass that restarts the debounce timer does it when nothing is pending, or in the tick of the change. -/
theorem debouncing_take {state : Nat} (kept : Debouncing p s) (free : NoRestart p state s) :
    Debouncing p (takeState p state s) := by
  have timer : (takeState p state s).alarmtimer = s.ticks + p.alarmdebounce := rfl
  have past := kept.past
  have notLater : (takeState p state s).changed ≤ s.ticks := by
    rcases take_changed p state s with ⟨_, same⟩ | ⟨_, now⟩
    · rw [same]
      exact past
    · rw [now]
  refine ⟨take_t2 p state kept.t2, ?_, ?_, ?_⟩
  · rw [take_ticks]
    exact notLater
  · intro _
    rw [timer]
    exact Int.add_le_add_right notLater _
  · intro pending
    rw [take_alarms] at pending
    rw [take_ticks, timer]
    rcases take_changed p state s with ⟨unchanged, same⟩ | ⟨_, now⟩
    · rcases free with never | changes | settled | atOnce
      · exact .inr ⟨never, by omega⟩
      · exact absurd unchanged changes
      · exact absurd (unchanged.trans settled) pending
      · rw [same, atOnce]
        exact .inl rfl
    · rw [now]
      exact .inl rfl

theorem debouncing_handle {r : Reads} (kept : Debouncing p s) (free : NoRestart p r.state s) :
    Debouncing p (hfcHandleState p r s) := by
  have taken := debouncing_take kept free
  rw [hfcHandleState, leaveG4, taken.t2, Bool.and_false, if_neg Bool.false_ne_true]
  split
  · exact debouncing_same taken (same_trans (same_started (by decide) _ _) (same_start _ _))
  · exact taken

theorem debouncing_expired {t : Timer} {r : Reads} (kept : Debouncing p s)
    (free : handles t = true → NoRestart p r.state s) :
    Debouncing p (hfcTimerExpire p t r s) := by
  have off := debouncing_same kept (same_off t s)
  cases t with
  | t1 => exact debouncing_handle off (free rfl)
  | t2 => exact off
  | t3 => exact debouncing_same kept (same_expired rfl r s)
  | t4 => exact debouncing_same (debouncing_handle off (free rfl)) (same_started (by decide) _ _)

theorem debouncing_timers {reads : Timer → Reads} {ts : List Timer} (kept : Debouncing p s)
    (free : NoRestarts p reads ts s) : Debouncing p (updateTimers p reads ts s) := by
  induction ts generalizing s with
  | nil => exact kept
  | cons t rest ih =>
    obtain ⟨now, later⟩ := free
    refine ih ?_ later
    split
    · rename_i expired
      exact debouncing_expired kept (now expired)
    · exact kept

theorem debouncing_ticked (kept : Debouncing p s) : Debouncing p (ticked s) := by
  have past := kept.past
  refine ⟨kept.t2, ?_, kept.held, fun pending => ?_⟩
  · change s.changed ≤ s.ticks + 1
    omega
  · refine (kept.prompt pending).imp_right fun never => ⟨never.1, ?_⟩
    change s.alarmtimer ≤ s.ticks + 1
    have := never.2
    omega

theorem debouncing_debounced (kept : Debouncing p s) : Debouncing p (debounce s) := by
  rw [debounce]
  split
  · exact ⟨kept.t2, kept.past, fun pending => absurd rfl pending, fun pending => absurd rfl pending⟩
  · exact kept

/-- After hfc_update_st_timers a pending alarm is younger than the debounce time. -/
theorem debounce_timely (kept : Debouncing p s) (pending : (debounce s).alarms ≠ (debounce s).newalarm) :
    (debounce s).ticks - (debounce s).changed < p.alarmdebounce := by
  rw [debounce] at pending ⊢
  split at pending
  · exact absurd rfl pending
  · rename_i waiting
    rw [if_neg waiting]
    have later : s.ticks < s.alarmtimer := by
      by_contra early
      exact waiting ⟨Ne.symm pending, not_lt.mp early⟩
    rcases kept.prompt (Ne.symm pending) with started | ⟨_, expired⟩
    · omega
    · omega

theorem debounce_settled (kept : Debouncing p s) (reported : (debounce s).alarms ≠ s.alarms) :
    (debounce s).alarms = (debounce s).newalarm ∧
      p.alarmdebounce ≤ (debounce s).ticks - (debounce s).changed := by
  rw [debounce] at reported ⊢
  split at reported
  · rename_i ready
    rw [if_pos ready]
    refine ⟨rfl, ?_⟩
    have held := kept.held ready.1
    have expired := ready.2
    change p.alarmdebounce ≤ s.ticks - s.changed
    omega
  · exact absurd rfl reported

end Invariant

section Runs
variable {p : Params} {s s' : Port} {l : Label}

theorem debouncing_fresh (fresh : Fresh s) : Debouncing p s := by
  have settled : s.newalarm = s.alarms := fresh.newalarm.trans fresh.alarms.symm
  refine ⟨fresh.timers .t2, ?_, fun pending => absurd settled pending, fun pending => absurd settled pending⟩
  rw [fresh.changed]

theorem debouncing_next (kept : Debouncing p s) (free : Undisturbed p s l) (moved : next p s l = some s') :
    Debouncing p s' := by
  cases l with
  | tick reads =>
    rw [← Option.some.inj moved]
    exact debouncing_debounced (debouncing_timers (debouncing_ticked kept) free)
  | stateChange r =>
    rw [next] at moved
    split at moved
    · rw [← Option.some.inj moved]
      exact debouncing_handle kept free
    · cases moved
  | activate =>
    rw [← Option.some.inj moved]
    exact debouncing_same kept (same_start p s)

theorem leave_alarms (p : Params) (r : Reads) (s : Port) : (leaveG4 p r s).alarms = s.alarms := by
  rw [leaveG4]
  split
  · exact take_alarms p _ _
  · rfl

theorem handle_alarms (p : Params) (r : Reads) (s : Port) : (hfcHandleState p r s).alarms = s.alarms := by
  have taken := (leave_alarms p r (takeState p r.state s)).trans (take_alarms p r.state s)
  rw [hfcHandleState]
  split
  · exact (same_start p _).alarms.trans taken
  · exact taken

theorem expired_alarms (p : Params) (t : Timer) (r : Reads) (s : Port) :
    (hfcTimerExpire p t r s).alarms = s.alarms := by
  cases t with
  | t1 => exact handle_alarms p r _
  | t2 => rfl
  | t3 => exact (same_expired rfl r s).alarms
  | t4 => exact handle_alarms p r _

theorem timers_alarms (p : Params) (reads : Timer → Reads) (ts : List Timer) (s : Port) :
    (updateTimers p reads ts s).alarms = s.alarms := by
  induction ts generalizing s with
  | nil => rfl
  | cons t rest ih =>
    rw [updateTimers, ih]
    split
    · exact expired_alarms p t _ s
    · rfl

theorem debouncing_run (reached : Reach (sys p) (Undisturbed p) s) : Debouncing p s := by
  apply @invariant_run _ _ (sys p) (Undisturbed p) (Debouncing p) _ _ s reached
  · intro s fresh
    exact debouncing_fresh fresh
  · intro s l s' kept free moved
    exact debouncing_next kept free moved

/-- After every tick a pending alarm is younger than the debounce time, and an alarm is reported
    only when it is that old, where no pass restarts the debouncing of a pending alarm. -/
theorem alarm_debounced (reached : Reach (sys p) (Undisturbed p) s) (free : Undisturbed p s l)
    (moved : next p s l = some s') :
    (∀ reads, l = .tick reads → s'.alarms ≠ s'.newalarm → s'.ticks - s'.changed < p.alarmdebounce) ∧
    (s'.alarms ≠ s.alarms → s'.alarms = s'.newalarm ∧ p.alarmdebounce ≤ s'.ticks - s'.changed) := by
  have kept := debouncing_run reached
  cases l with
  | tick reads =>
    have timed := debouncing_timers (debouncing_ticked kept) free
    rw [← Option.some.inj moved]
    refine ⟨fun _ _ pending => debounce_timely timed pending, fun reported => ?_⟩
    refine debounce_settled timed ?_
    rw [timers_alarms]
    exact reported
  | stateChange r =>
    refine ⟨fun _ tick => Label.noConfusion tick, fun reported => ?_⟩
    rw [next] at moved
    split at moved
    · rw [← Option.some.inj moved, handle_alarms] at reported
      exact absurd rfl reported
    · cases moved
  | activate =>
    refine ⟨fun _ tick => Label.noConfusion tick, fun reported => ?_⟩
    rw [← Option.some.inj moved] at reported
    exact absurd (same_start p s).alarms reported

end Runs

section Restarted
variable {p : Params} {s : Port}

def defaults : Params := ⟨500, true, 2000, 30000, true⟩
def idle : Timer → Reads := fun _ => ⟨0, 0⟩
def fresh : Port := ⟨99, DAHDI_ALARM_RED, DAHDI_ALARM_RED, 0, 0, fun _ => 0, fun _ => false, 99⟩
def activated : Port := hfcStartSt defaults fresh
def F7 : Reads := ⟨7, 0⟩
def up : Port := hfcHandleState defaults F7 (hfcUpdateStTimers defaults idle (ticked activated))
def later (n : Nat) (s : Port) : Port := { s with ticks := s.ticks + n }

theorem later_zero (s : Port) : later 0 s = s :=
  congrArg (fun ticks => { s with ticks }) (Int.add_zero s.ticks)

theorem later_succ (n : Nat) (s : Port) : later (n + 1) s = ticked (later n s) := by
  have sum : s.ticks + (n + 1 : Nat) = s.ticks + n + 1 := by omega
  exact congrArg (fun ticks => { s with ticks }) sum

theorem fresh_fresh : Fresh fresh := ⟨rfl, rfl, fun _ => rfl, rfl⟩

theorem timers_off (reads : Timer → Reads) (ts : List Timer) (off : ∀ t, s.hfcTimerOn t = false) :
    updateTimers p reads ts s = s := by
  induction ts with
  | nil => rfl
  | cons t rest ih =>
    have notDue : due t s = false := by rw [due, off t, Bool.false_and]
    rw [updateTimers, notDue, if_neg Bool.false_ne_true]
    exact ih

theorem idle_tick (off : ∀ t, s.hfcTimerOn t = false) (waiting : s.ticks + 1 < s.alarmtimer) :
    hfcUpdateStTimers p idle (ticked s) = ticked s := by
  have off' : ∀ t, (ticked s).hfcTimerOn t = false := off
  rw [hfcUpdateStTimers, timers_off idle _ off', debounce]
  refine if_neg fun ready => ?_
  exact absurd ready.2 (not_le.mpr waiting)

theorem idle_undisturbed (off : ∀ t, s.hfcTimerOn t = false) : Undisturbed p s (.tick idle) := by
  have notDue (t : Timer) : ¬ due t (ticked s) = true := by
    rw [due, show (ticked s).hfcTimerOn t = false from off t, Bool.false_and]
    exact Bool.false_ne_true
  refine ⟨fun expired => absurd expired (notDue .t1), ?_⟩
  rw [if_neg (notDue .t1)]
  refine ⟨fun expired => absurd expired (notDue .t3), ?_⟩
  rw [if_neg (notDue .t3)]
  exact ⟨fun expired => absurd expired (notDue .t4), trivial⟩

/-- Ticks without timers, before the debounce timer expires. -/
theorem idle_ticks {guard : Port → Label → Prop} (allowed : ∀ s, (∀ t, s.hfcTimerOn t = false) → guard s (.tick idle))
    (reached : Reach (sys p) guard s) (off : ∀ t, s.hfcTimerOn t = false) (n : Nat)
    (waiting : s.ticks + n < s.alarmtimer) : Reach (sys p) guard (later n s) := by
  induction n with
  | zero =>
    rw [later_zero]
    exact reached
  | succ n ih =>
    have before : (later n s).ticks + 1 < s.alarmtimer := by
      change s.ticks + n + 1 < s.alarmtimer
      omega
    have here := ih (by omega)
    refine Reach.step here (l := .tick idle) (allowed _ off) ?_
    have moved := idle_tick (p := p) (s := later n s) off before
    rw [later_succ, ← moved]
    rfl

theorem up_undisturbed : Reach (sys defaults) (Undisturbed defaults) up := by
  have activated' : Reach (sys defaults) (Undisturbed defaults) activated :=
    Reach.step (Reach.start fresh_fresh) (l := .activate) trivial rfl
  have quiet : Undisturbed defaults activated (.tick idle) := by
    refine ⟨fun expired => ?_, fun expired => ?_, fun expired => ?_, trivial⟩
    · exact absurd expired Bool.false_ne_true
    · exact absurd expired Bool.false_ne_true
    · exact absurd expired Bool.false_ne_true
  have hundred := Reach.step activated' quiet rfl
  exact Reach.step hundred (l := .stateChange F7) (.inr (.inl (by decide))) rfl

theorem up_reached : Reach (sys defaults) anyStep up := reach_mono (fun _ _ _ => trivial) up_undisturbed

theorem timers_up (t : Timer) : up.hfcTimerOn t = false := by cases t <;> rfl

def reported : Port := hfcUpdateStTimers defaults idle (ticked (later 499 up))

/-- The port comes up in tick 100, and its red alarm goes in tick 600. -/
theorem alarm_debounced_up : reported.alarms = reported.newalarm ∧ 500 ≤ reported.ticks - reported.changed := by
  have waiting := idle_ticks (fun _ off => idle_undisturbed off) up_undisturbed timers_up 499 (by decide)
  exact (alarm_debounced waiting (idle_undisturbed timers_up) rfl).2 (by decide)

def upAgain : Port := hfcHandleState defaults F7 (later 100 up)

theorem timers_again (t : Timer) : upAgain.hfcTimerOn t = false := by cases t <;> rfl

theorem again_reached : Reach (sys defaults) anyStep upAgain := by
  have twoHundred := idle_ticks (fun _ _ => trivial) up_reached timers_up 100 (by decide)
  exact Reach.step twoHundred (l := .stateChange F7) trivial rfl

/-- The port comes up in tick 100; R_SCI shows another state change in tick 200, which finds it
    up; its red alarm still stands in tick 600. -/
theorem alarm_put_off : ¬ ∀ p s s' reads, Reach (sys p) anyStep s → next p s (.tick reads) = some s' →
    s'.alarms ≠ s'.newalarm → s'.ticks - s'.changed < p.alarmdebounce := by
  intro always
  have waiting := idle_ticks (fun _ _ => trivial) again_reached timers_again 399 (by decide)
  have moved := idle_tick (p := defaults) (s := later 399 upAgain) timers_again (by decide)
  have young := always _ _ _ idle waiting rfl
  rw [moved] at young
  exact absurd (young (by decide)) (by decide)

end Restarted

end Wcb4xxpAlarm
