import Dahdi.Library.GuardedRun

/-!
One line of an FXO card: its ring and battery debounces, the filter of polarity reversals and the
detector of power denials, driven by SIG_CHANGED packets, register replies, hook changes and ticks
(card_fxo.c).
-/
namespace FxoLine

section Data

inductive Battery where
  | unknown | on | off
  deriving DecidableEq, Repr

inductive Polarity where
  | unknown | positive | negative
  deriving DecidableEq, Repr

inductive Power where
  | unknown | on | off
  deriving DecidableEq, Repr

def POLARITY_LAST_INTERVAL_NONE : Int := -1
def POLARITY_LAST_INTERVAL_MAX : Int := 40
def POLREV_THRESHOLD : Int := 200
def POWER_DENIAL_CURRENT : Nat := 3
def POWER_DENIAL_DELAY : Nat := 2500
def REG_INTERRUPT_SRC_POLI : Nat := 0
def REG_INTERRUPT_SRC_RING : Nat := 7

/-- The module parameters. -/
structure Parms where
  pollBatteryInterval : Nat
  usePolrevFirmware : Bool
  ringDebounce : Int
  powerDenialSafezone : Int
  powerDenialMinlen : Int
  batteryThreshold : Nat
  batteryDebounce : Nat

/-- What the arrays of the card and of its phonedev hold for the line. -/
structure Line where
  ringing : Bool
  offhook : Bool
  ringDebounce : Int
  battery : Battery
  nobatteryDebounce : Nat
  polarity : Polarity
  polarityDebounce : Nat
  polarityLastInterval : Int
  power : Power
  powerDenialDelay : Nat
  powerDenialLength : Nat
  powerDenialSafezone : Nat
  deriving DecidableEq, Repr

/-- What the line tells DAHDI: report_polarity_reversal and notify_rxsig. -/
inductive Report where
  | polarity | ring | offhook | onhook
  deriving DecidableEq, Repr

def ushort (v : Int) : Nat := (v % 65536).toNat

end Data

section Code

def resetBatteryReadings (l : Line) : Line := { l with nobatteryDebounce := 0, powerDenialDelay := 0, power := .unknown }

def markRing (on updateDahdi : Bool) (l : Line) : Line × List Report :=
  let l := resetBatteryReadings { l with ringDebounce := 0 }
  if on && !l.ringing then ({ l with ringing := true }, if updateDahdi then [.ring] else [])
  else if !on && l.ringing then
    ({ l with ringing := false, polarityLastInterval := POLARITY_LAST_INTERVAL_NONE }, if updateDahdi then [.offhook] else [])
  else (l, [])

/-- do_sethook: none is EINVAL. -/
def doSethook (p : Parms) (toOffhook : Bool) (l : Line) : Option Line :=
  if l.battery ≠ .on && toOffhook then none
  else
    let l := (markRing false false l).1
    let l := resetBatteryReadings { l with offhook := toOffhook }
    some (if toOffhook then { l with powerDenialSafezone := ushort p.powerDenialSafezone }
      else { l with powerDenialLength := 0, powerDenialSafezone := 0 })

/-- The first half of handle_fxo_ring. -/
def countPolarity (p : Parms) (l : Line) : Line × List Report :=
  if p.usePolrevFirmware && l.polarityLastInterval ≠ POLARITY_LAST_INTERVAL_NONE then
    if POLARITY_LAST_INTERVAL_MAX < l.polarityLastInterval + 1 then
      ({ l with polarityLastInterval := POLARITY_LAST_INTERVAL_NONE }, [.polarity])
    else ({ l with polarityLastInterval := l.polarityLastInterval + 1 }, [])
  else (l, [])

/-- The second half of handle_fxo_ring. -/
def countRing (l : Line) : Line × List Report :=
  if 0 < l.ringDebounce then
    if l.ringDebounce - 1 = 0 then markRing true true { l with ringDebounce := l.ringDebounce - 1 }
    else ({ l with ringDebounce := l.ringDebounce - 1 }, [])
  else if l.ringDebounce < 0 then
    if l.ringDebounce + 1 = 0 then markRing false true { l with ringDebounce := l.ringDebounce + 1 }
    else ({ l with ringDebounce := l.ringDebounce + 1 }, [])
  else (l, [])

def handleFxoRing (p : Parms) (l : Line) : Line × List Report :=
  let (l, reversal) := countPolarity p l
  let (l, rxsig) := countRing l
  (l, reversal ++ rxsig)

def handleFxoPowerDenial (p : Parms) (l : Line) : Line × List Report :=
  if p.powerDenialSafezone = 0 then (l, [])
  else if l.ringing || !l.offhook then ({ l with powerDenialDelay := 0 }, [])
  else if 0 < l.powerDenialSafezone then ({ l with powerDenialSafezone := l.powerDenialSafezone - 1 }, [])
  else if 0 < l.powerDenialLength then
    let l := { l with powerDenialLength := l.powerDenialLength - 1 }
    (if l.powerDenialLength ≤ 0 then { l with powerDenialDelay := POWER_DENIAL_DELAY } else l, [])
  else if 0 < l.powerDenialDelay then
    let l := { l with powerDenialDelay := l.powerDenialDelay - 1 }
    if l.powerDenialDelay ≤ 0 then ({ l with powerDenialDelay := 0 }, [.onhook]) else (l, [])
  else (l, [])

def cardTick (p : Parms) (l : Line) : Line × List Report :=
  let (l, ring) := handleFxoRing p l
  let (l, denial) := handleFxoPowerDenial p l
  (l, ring ++ denial)

/-- SIG_CHANGED, for a line that is among its sig_toggles. -/
def sigChanged (p : Parms) (status : Bool) (l : Line) : Line :=
  if l.battery = .off then l else { l with ringDebounce := if status then p.ringDebounce else -p.ringDebounce }

/-- The part of update_battery_voltage for a line with its battery on. -/
def reversePolarity (p : Parms) (volts : Int) (l : Line) : Line × List Report :=
  let pol := if volts = 0 then Polarity.unknown else if volts < 0 then .negative else .positive
  if l.polarity = pol then ({ l with polarityDebounce := 0 }, [])
  else
    let msec := BitVec.ofNat 32 (l.polarityDebounce * p.pollBatteryInterval)
    let l := { l with polarityDebounce := ushort (l.polarityDebounce + 1) }
    if POLREV_THRESHOLD ≤ msec.toInt then
      ({ l with polarityDebounce := 0, polarity := pol },
        if pol ≠ .unknown && l.polarity ≠ .unknown && !p.usePolrevFirmware then [.polarity] else [])
    else (l, [])

def updateBatteryVoltage (p : Parms) (dataLow : BitVec 8) (l : Line) : Line × List Report :=
  let volts := dataLow.toInt
  if l.ringing then (resetBatteryReadings l, [])
  else if volts.natAbs < p.batteryThreshold then
    if l.battery ≠ .off then
      let milliseconds := BitVec.ofNat 32 (l.nobatteryDebounce * p.pollBatteryInterval)
      let l := { l with nobatteryDebounce := ushort (l.nobatteryDebounce + 1) }
      if p.batteryDebounce < milliseconds.toNat then
        (resetBatteryReadings { l with battery := .off, polarity := .unknown, polarityDebounce := 0, power := .unknown }, [])
      else if l.battery ≠ .on then ({ l with polarity := .unknown }, [])
      else reversePolarity p volts l
    else ({ l with polarity := .unknown }, [])
  else reversePolarity p volts { l with nobatteryDebounce := 0, battery := .on }

def updateBatteryCurrent (p : Parms) (dataLow : BitVec 8) (l : Line) : Line × List Report :=
  if l.ringing || !l.offhook then ({ l with powerDenialDelay := 0 }, [])
  else if l.battery ≠ .on then ({ l with powerDenialDelay := 0 }, [])
  else if 0 < l.powerDenialSafezone then ({ l with powerDenialDelay := 0 }, [])
  else if dataLow.toNat < POWER_DENIAL_CURRENT then
    if l.power = .on then ({ l with power := .off, powerDenialLength := ushort p.powerDenialMinlen }, []) else (l, [])
  else if l.power ≠ .on then ({ l with power := .on, powerDenialLength := 0, offhook := true }, [.offhook])
  else (l, [])

def gotChipInterrupt (p : Parms) (dataLow : BitVec 8) (l : Line) : Line :=
  if !p.usePolrevFirmware then l
  else if !dataLow.getLsbD REG_INTERRUPT_SRC_POLI then l
  else
    let t := l.polarityLastInterval
    if l.ringing then { l with polarityLastInterval := POLARITY_LAST_INTERVAL_NONE }
    else if dataLow.getLsbD REG_INTERRUPT_SRC_RING then { l with polarityLastInterval := POLARITY_LAST_INTERVAL_NONE }
    else if t = POLARITY_LAST_INTERVAL_NONE then { l with polarityLastInterval := 0 }
    else if t < POLARITY_LAST_INTERVAL_MAX then
      { l with polarityLastInterval := POLARITY_LAST_INTERVAL_NONE - POLARITY_LAST_INTERVAL_MAX }
    else l

inductive Op where
  | sigChanged (status : Bool)
  | voltage (dataLow : BitVec 8)
  | current (dataLow : BitVec 8)
  | interrupt (dataLow : BitVec 8)
  | sethook (toOffhook : Bool)
  | tick
  deriving DecidableEq, Repr

/-- What happens to the line, with the reports it makes. -/
def next (p : Parms) (l : Line) (op : Op) : Line × List Report :=
  match op with
  | .sigChanged status => (sigChanged p status l, [])
  | .voltage dataLow => updateBatteryVoltage p dataLow l
  | .current dataLow => updateBatteryCurrent p dataLow l
  | .interrupt dataLow => (gotChipInterrupt p dataLow l, [])
  | .sethook toOffhook => ((doSethook p toOffhook l).getD l, [])
  | .tick => cardTick p l

/-- The line after FXO_card_init. -/
def cardInit (l : Line) (p : Parms) : Line :=
  { (doSethook p false l).getD l with
    polarity := .unknown, polarityDebounce := 0, battery := .unknown, power := .unknown
    polarityLastInterval := POLARITY_LAST_INTERVAL_NONE }

/-- A line of a card whose memory has just been allocated, after FXO_card_init. -/
def freshLine : Line := ⟨false, false, 0, .unknown, 0, .unknown, 0, POLARITY_LAST_INTERVAL_NONE, .unknown, 0, 0, 0⟩

/-- The defaults of the module parameters. -/
def defaultParms : Parms := ⟨500, true, 50, 650, 80, 3, 1000⟩

def sys (p : Parms) : GuardedRun.System Line Op := ⟨fun l => l = freshLine, fun l op l' => (next p l op).1 = l'⟩

end Code

section Fields
variable {p : Parms} {l : Line}

theorem init_fresh (p : Parms) : cardInit ⟨false, false, 0, .unknown, 0, .unknown, 0, 0, .unknown, 0, 0, 0⟩ p = freshLine :=
  rfl

theorem mark_ringing (on updateDahdi : Bool) (l : Line) : (markRing on updateDahdi l).1.ringing = on := by
  cases ringing : l.ringing <;> cases on <;> simp [markRing, resetBatteryReadings, ringing]

theorem mark_battery (on updateDahdi : Bool) (l : Line) : (markRing on updateDahdi l).1.battery = l.battery := by
  cases ringing : l.ringing <;> cases on <;> simp [markRing, resetBatteryReadings, ringing]

theorem mark_offhook (on updateDahdi : Bool) (l : Line) : (markRing on updateDahdi l).1.offhook = l.offhook := by
  cases ringing : l.ringing <;> cases on <;> simp [markRing, resetBatteryReadings, ringing]

theorem mark_interval (on updateDahdi : Bool) (l : Line) : (markRing on updateDahdi l).1.polarityLastInterval =
    if on = false ∧ l.ringing = true then POLARITY_LAST_INTERVAL_NONE else l.polarityLastInterval := by
  cases ringing : l.ringing <;> cases on <;> simp [markRing, resetBatteryReadings, ringing]

theorem mark_reports (on updateDahdi : Bool) (l : Line) : Report.polarity ∉ (markRing on updateDahdi l).2 := by
  cases ringing : l.ringing <;> cases on <;> cases updateDahdi <;> simp [markRing, resetBatteryReadings, ringing]

/-- What the ring counter makes of a line at a tick. -/
theorem count_ringing (l : Line) : (countRing l).1.ringing =
    if l.ringDebounce = 1 then true else if l.ringDebounce = -1 then false else l.ringing := by
  rw [countRing]
  by_cases up : 0 < l.ringDebounce
  · rw [if_pos up]
    by_cases last : l.ringDebounce - 1 = 0
    · rw [if_pos last, mark_ringing, if_pos (by omega)]
    · rw [if_neg last, if_neg (by omega), if_neg (by omega)]
  · rw [if_neg up, if_neg (by omega : l.ringDebounce ≠ 1)]
    by_cases down : l.ringDebounce < 0
    · rw [if_pos down]
      by_cases last : l.ringDebounce + 1 = 0
      · rw [if_pos last, mark_ringing, if_pos (by omega)]
      · rw [if_neg last, if_neg (by omega)]
    · rw [if_neg down, if_neg (by omega)]

theorem count_battery (l : Line) : (countRing l).1.battery = l.battery := by
  rw [countRing]
  split
  · split
    · rw [mark_battery]
    · rfl
  · split
    · split
      · rw [mark_battery]
      · rfl
    · rfl

/-- A ring that stops at a tick ends the count of the polarity filter. -/
theorem count_interval (l : Line) : (countRing l).1.polarityLastInterval =
    if l.ringDebounce = -1 ∧ l.ringing = true then POLARITY_LAST_INTERVAL_NONE else l.polarityLastInterval := by
  rw [countRing]
  by_cases up : 0 < l.ringDebounce
  · have going : ¬ (l.ringDebounce = -1 ∧ l.ringing = true) := fun stop => absurd stop.1 (by omega)
    rw [if_pos up, if_neg going]
    split
    · rw [mark_interval, if_neg nofun]
    · rfl
  · rw [if_neg up]
    by_cases down : l.ringDebounce < 0
    · rw [if_pos down]
      by_cases last : l.ringDebounce + 1 = 0
      · rw [if_pos last, mark_interval]
        have stop : l.ringDebounce = -1 := by omega
        simp only [stop, true_and]
      · have going : ¬ (l.ringDebounce = -1 ∧ l.ringing = true) := fun stop => absurd stop.1 (by omega)
        rw [if_neg last, if_neg going]
    · have going : ¬ (l.ringDebounce = -1 ∧ l.ringing = true) := fun stop => absurd stop.1 (by omega)
      rw [if_neg down, if_neg going]

theorem count_reports (l : Line) : Report.polarity ∉ (countRing l).2 := by
  rw [countRing]
  split
  · split
    · exact mark_reports _ _ _
    · exact List.not_mem_nil
  · split
    · split
      · exact mark_reports _ _ _
      · exact List.not_mem_nil
    · exact List.not_mem_nil

theorem denial_reports (p : Parms) (l : Line) : Report.polarity ∉ (handleFxoPowerDenial p l).2 := by
  rw [handleFxoPowerDenial]
  dsimp only
  repeat' split
  all_goals simp

theorem polarity_ringing (p : Parms) (l : Line) : (countPolarity p l).1.ringing = l.ringing := by
  rw [countPolarity]
  split
  · split <;> rfl
  · rfl

theorem polarity_battery (p : Parms) (l : Line) : (countPolarity p l).1.battery = l.battery := by
  rw [countPolarity]
  split
  · split <;> rfl
  · rfl

theorem polarity_debounce (p : Parms) (l : Line) : (countPolarity p l).1.ringDebounce = l.ringDebounce := by
  rw [countPolarity]
  split
  · split <;> rfl
  · rfl

/-- The power denial half of a tick keeps all fields but its own. -/
theorem denial_kept (p : Parms) (l : Line) : ∃ delay length safezone, (handleFxoPowerDenial p l).1 =
    { l with powerDenialDelay := delay, powerDenialLength := length, powerDenialSafezone := safezone } := by
  rw [handleFxoPowerDenial]
  split
  · exact ⟨_, _, _, rfl⟩
  · split
    · exact ⟨_, _, _, rfl⟩
    · split
      · exact ⟨_, _, _, rfl⟩
      · split
        · dsimp only
          split <;> exact ⟨_, _, _, rfl⟩
        · split
          · dsimp only
            split <;> exact ⟨_, _, _, rfl⟩
          · exact ⟨_, _, _, rfl⟩

theorem tick_line (p : Parms) (l : Line) : (cardTick p l).1 = (handleFxoPowerDenial p (countRing (countPolarity p l).1).1).1 :=
  rfl

theorem tick_ringing (p : Parms) (l : Line) : (cardTick p l).1.ringing =
    if l.ringDebounce = 1 then true else if l.ringDebounce = -1 then false else l.ringing := by
  obtain ⟨_, _, _, kept⟩ := denial_kept p (countRing (countPolarity p l).1).1
  rw [tick_line, kept]
  dsimp only
  rw [count_ringing, polarity_debounce, polarity_ringing]

theorem tick_battery (p : Parms) (l : Line) : (cardTick p l).1.battery = l.battery := by
  obtain ⟨_, _, _, kept⟩ := denial_kept p (countRing (countPolarity p l).1).1
  rw [tick_line, kept]
  dsimp only
  rw [count_battery, polarity_battery]

/-- Only its polarity fields change. -/
theorem reverse_kept (p : Parms) (volts : Int) (l : Line) : ∃ polarity debounce,
    (reversePolarity p volts l).1 = { l with polarity := polarity, polarityDebounce := debounce } := by
  rw [reversePolarity]
  dsimp only
  generalize (if volts = 0 then Polarity.unknown else if volts < 0 then Polarity.negative else Polarity.positive) = pol
  split
  · exact ⟨_, _, rfl⟩
  · split <;> exact ⟨_, _, rfl⟩

theorem voltage_kept (p : Parms) (dataLow : BitVec 8) (l : Line) :
    ∃ battery nobattery polarity debounce power delay,
      (power = .unknown ∧ delay = 0 ∨ power = l.power ∧ delay = l.powerDenialDelay) ∧
        (updateBatteryVoltage p dataLow l).1 =
          { l with battery := battery, nobatteryDebounce := nobattery, polarity := polarity
                   polarityDebounce := debounce, power := power, powerDenialDelay := delay } := by
  rw [updateBatteryVoltage]
  dsimp only
  split
  · exact ⟨_, _, _, _, _, _, .inl ⟨rfl, rfl⟩, rfl⟩
  · split
    · split
      · split
        · exact ⟨_, _, _, _, _, _, .inl ⟨rfl, rfl⟩, rfl⟩
        · split
          · exact ⟨_, _, _, _, _, _, .inr ⟨rfl, rfl⟩, rfl⟩
          · obtain ⟨_, _, kept⟩ := reverse_kept p dataLow.toInt
              { l with nobatteryDebounce := ushort (l.nobatteryDebounce + 1) }
            rw [kept]
            exact ⟨_, _, _, _, _, _, .inr ⟨rfl, rfl⟩, rfl⟩
      · exact ⟨_, _, _, _, _, _, .inr ⟨rfl, rfl⟩, rfl⟩
    · obtain ⟨_, _, kept⟩ := reverse_kept p dataLow.toInt { l with nobatteryDebounce := 0, battery := .on }
      rw [kept]
      exact ⟨_, _, _, _, _, _, .inr ⟨rfl, rfl⟩, rfl⟩

theorem current_kept (p : Parms) (dataLow : BitVec 8) (l : Line) :
    ∃ power delay length offhook, (updateBatteryCurrent p dataLow l).1 =
      { l with power := power, powerDenialDelay := delay, powerDenialLength := length, offhook := offhook } := by
  rw [updateBatteryCurrent]
  repeat' split
  all_goals exact ⟨_, _, _, _, rfl⟩

theorem interrupt_kept (p : Parms) (dataLow : BitVec 8) (l : Line) :
    ∃ interval, gotChipInterrupt p dataLow l = { l with polarityLastInterval := interval } := by
  rw [gotChipInterrupt]
  dsimp only
  repeat' split
  all_goals exact ⟨_, rfl⟩

theorem sig_kept (p : Parms) (status : Bool) (l : Line) :
    ∃ debounce, sigChanged p status l = { l with ringDebounce := debounce } := by
  rw [sigChanged]
  split <;> exact ⟨_, rfl⟩

end Fields

end FxoLine

/-!
Ringing and battery of an FXO line: the one way in which it comes to ring without a battery.
-/
namespace FxoBattery
open FxoLine

section Conditions

/-- The line rings with its battery off. -/
def stuck (l : Line) : Prop := l.ringing = true ∧ l.battery = .off

/-- No ring starts at this tick while the battery is off: its debounce does not end then. -/
def expiresOn (l : Line) (op : Op) : Prop := op = .tick → l.ringDebounce = 1 → l.battery ≠ .off

instance (l : Line) (op : Op) : Decidable (expiresOn l op) :=
  inferInstanceAs (Decidable (op = .tick → l.ringDebounce = 1 → l.battery ≠ .off))

end Conditions

section Steps
variable {p : Parms} {l : Line}

theorem voltage_battery (p : Parms) (dataLow : BitVec 8) (rings : l.ringing = true) :
    (updateBatteryVoltage p dataLow l).1.battery = l.battery := by
  rw [updateBatteryVoltage]
  dsimp only
  rw [if_pos rings, resetBatteryReadings]

theorem sethook_quiet {toOffhook : Bool} {l' : Line} (done : doSethook p toOffhook l = some l') : l'.ringing = false := by
  rw [doSethook] at done
  split at done
  · cases done
  · rw [← Option.some.inj done]
    split <;> exact mark_ringing false false l

theorem next_stuck (free : ¬ stuck l) (op : Op) : ¬ stuck (next p l op).1 ↔ expiresOn l op := by
  cases op with
  | sigChanged status =>
    refine iff_of_true ?_ nofun
    obtain ⟨_, kept⟩ := sig_kept p status l
    rw [next, kept]
    exact free
  | voltage dataLow =>
    refine iff_of_true ?_ nofun
    rw [next]
    rintro ⟨rings, off⟩
    have before : l.ringing = true := by
      obtain ⟨_, _, _, _, _, _, _, kept⟩ := voltage_kept p dataLow l
      rwa [kept] at rings
    rw [voltage_battery p dataLow before] at off
    exact free ⟨before, off⟩
  | current dataLow =>
    refine iff_of_true ?_ nofun
    obtain ⟨_, _, _, _, kept⟩ := current_kept p dataLow l
    rw [next, kept]
    exact free
  | interrupt dataLow =>
    refine iff_of_true ?_ nofun
    obtain ⟨_, kept⟩ := interrupt_kept p dataLow l
    rw [next, kept]
    exact free
  | sethook toOffhook =>
    refine iff_of_true ?_ nofun
    rw [stuck, next]
    cases done : doSethook p toOffhook l with
    | none => exact free
    | some l' =>
      rw [Option.getD_some, sethook_quiet done]
      rintro ⟨rings, _⟩
      cases rings
  | tick =>
    rw [stuck, next, tick_ringing, tick_battery, expiresOn]
    constructor
    · intro after _ last off
      exact after ⟨if_pos last, off⟩
    · rintro allowed ⟨rings, off⟩
      by_cases last : l.ringDebounce = 1
      · exact allowed rfl last off
      · rw [if_neg last] at rings
        split at rings
        · cases rings
        · exact free ⟨rings, off⟩

/-- A line that is stuck stays so until it is put on hook. -/
theorem stuck_stays (rings : stuck l) (still : l.ringDebounce = 0) {op : Op} (other : op ≠ .sethook false) :
    stuck (next p l op).1 ∧ (next p l op).1.ringDebounce = 0 := by
  cases op with
  | sigChanged status =>
    rw [next, sigChanged, if_pos rings.2]
    exact ⟨rings, still⟩
  | voltage dataLow =>
    rw [next, updateBatteryVoltage]
    dsimp only
    rw [if_pos rings.1]
    exact ⟨rings, still⟩
  | current dataLow =>
    obtain ⟨_, _, _, _, kept⟩ := current_kept p dataLow l
    rw [next, kept]
    exact ⟨rings, still⟩
  | interrupt dataLow =>
    obtain ⟨_, kept⟩ := interrupt_kept p dataLow l
    rw [next, kept]
    exact ⟨rings, still⟩
  | sethook toOffhook =>
    cases toOffhook with
    | false => exact absurd rfl other
    | true =>
      have refused : doSethook p true l = none := by
        rw [doSethook, rings.2]
        rfl
      rw [next, refused]
      exact ⟨rings, still⟩
  | tick =>
    have idle : countRing (countPolarity p l).1 = ((countPolarity p l).1, []) := by
      rw [countRing, polarity_debounce, still]
      rfl
    obtain ⟨_, _, _, kept⟩ := denial_kept p (countPolarity p l).1
    rw [next, tick_line, idle, kept]
    refine ⟨⟨?_, ?_⟩, ?_⟩
    · exact (polarity_ringing p l).trans rings.1
    · exact (polarity_battery p l).trans rings.2
    · exact (polarity_debounce p l).trans still

end Steps

section Results

/-- A line comes to ring without a battery exactly when the debounce of a ring ends after the
    battery has gone. -/
theorem ring_needs_battery {p : Parms} {l : Line} (reached : GuardedRun.Reach (sys p) expiresOn l) :
    ¬ stuck l ∧ ∀ op, ¬ stuck (next p l op).1 ↔ expiresOn l op := by
  have initial : ∀ l, (sys p).start l → ¬ stuck l := by
    rintro l rfl ⟨rings, _⟩
    cases rings
  have kept : ∀ l op l', ¬ stuck l → expiresOn l op → (sys p).step l op l' → ¬ stuck l' := by
    rintro l op l' before allowed rfl
    exact (next_stuck before op).mpr allowed
  have free := GuardedRun.invariant_run initial kept reached
  exact ⟨free, next_stuck free⟩

/-- A ring whose debounce ends. -/
theorem ring_needs_battery_rings : ∃ l : Line, l.ringing = true ∧ l.battery = .on ∧
    ¬ stuck l ∧ ∀ op, ¬ stuck (next defaultParms l op).1 ↔ expiresOn l op := by
  have view : (GuardedRun.follow (fun l op => some (next defaultParms l op).1) expiresOn
      (.voltage 48 :: .sigChanged true :: List.replicate 50 .tick) freshLine).map
      (fun l => (l.ringing, l.battery)) = some (true, .on) := by
    decide +kernel
  obtain ⟨l, followed, seen⟩ := Option.map_eq_some_iff.mp view
  rw [Prod.mk.injEq] at seen
  exact ⟨l, seen.1, seen.2,
    ring_needs_battery (GuardedRun.follow_reach (fun _ _ _ moved => Option.some.inj moved) (.start rfl) followed)⟩

/-- The battery goes between the first ring and the end of its debounce. -/
theorem rings_without_battery : ∃ l : Line, GuardedRun.Reach (sys defaultParms) GuardedRun.anyStep l ∧ stuck l := by
  have view : (GuardedRun.follow (fun l op => some (next defaultParms l op).1) GuardedRun.anyStep
      (.voltage 48 :: List.replicate 3 (.voltage 0) ++ .sigChanged true :: .voltage 0 :: List.replicate 50 .tick)
      freshLine).map (fun l => (l.ringing, l.battery)) = some (true, .off) := by
    decide +kernel
  obtain ⟨l, followed, seen⟩ := Option.map_eq_some_iff.mp view
  rw [Prod.mk.injEq] at seen
  exact ⟨l, GuardedRun.follow_reach (fun _ _ _ moved => Option.some.inj moved) (.start rfl) followed, seen⟩

end Results

end FxoBattery
