import Dahdi.Xpp.FxoLine

/-!
The power denial detector of an FXO line, against the low reading that started it and what has
come since.
-/
namespace FxoPowerDenial
open FxoLine

section History

/-- The reading is taken: the line is off hook and does not ring, it has a battery, and its safe
    zone is over. -/
def taken (l : Line) : Prop := l.ringing = false ∧ l.offhook = true ∧ l.battery = .on ∧ l.powerDenialSafezone = 0

def normal (dataLow : BitVec 8) : Prop := POWER_DENIAL_CURRENT ≤ dataLow.toNat

instance (l : Line) : Decidable (taken l) := inferInstanceAs (Decidable (_ ∧ _ ∧ _ ∧ _))

instance (dataLow : BitVec 8) : Decidable (normal dataLow) := inferInstanceAs (Decidable (_ ≤ _))

/-- A line, and whether a low reading has started the detection with no normal reading, ring or
    hook change since. -/
structure Watched where
  line : Line
  low : Bool
  deriving DecidableEq, Repr

def watch (p : Parms) (s : Watched) (op : Op) : Watched :=
  let line := (next p s.line op).1
  match op with
  | .current dataLow =>
    { line := line, low := if normal dataLow then false else s.low || decide (taken s.line ∧ s.line.power = .on) }
  | .sethook toOffhook => { line := line, low := if (doSethook p toOffhook s.line).isSome then false else s.low }
  | .tick => { line := line, low := if s.line.ringing = false ∧ line.ringing = true then false else s.low }
  | _ => { s with line := line }

def watched (p : Parms) : GuardedRun.System Watched Op :=
  ⟨fun s => s = ⟨freshLine, false⟩, fun s op s' => watch p s op = s'⟩

/-- The tick notifies DAHDI that the line is on hook. -/
def notifies (p : Parms) (s : Watched) : Prop := Report.onhook ∈ (next p s.line .tick).2

instance (p : Parms) (s : Watched) : Decidable (notifies p s) :=
  inferInstanceAs (Decidable (Report.onhook ∈ (next p s.line .tick).2))

/-- A notification is for a line that is off hook, does not ring and is past its safe zone, after a
    low reading that nothing has come to correct. -/
structure Justified (p : Parms) (s : Watched) : Prop where
  offhook : s.line.offhook = true
  quiet : s.line.ringing = false ∧ (next p s.line .tick).1.ringing = false
  safezone : s.line.powerDenialSafezone = 0
  low : s.low = true

/-- One of the two timers runs only for such a low reading. -/
def Pending (s : Watched) : Prop := 0 < s.line.powerDenialLength ∨ 0 < s.line.powerDenialDelay → s.low = true

/-- A normal reading does not come in the confirmation delay, nor is it ignored in the minimum
    length; and no ring starts and no hook is taken off in the minimum length. -/
def cancels (s : Watched) (op : Op) : Prop :=
  match op with
  | .current dataLow =>
    normal dataLow → if taken s.line then s.line.powerDenialDelay = 0 else s.line.powerDenialLength = 0
  | .sethook toOffhook => toOffhook = true → s.line.battery = .on → s.line.powerDenialLength = 0
  | .tick => s.line.ringDebounce = 1 → s.line.ringing = false → s.line.powerDenialLength = 0
  | _ => True

instance (s : Watched) (op : Op) : Decidable (cancels s op) :=
  match op with
  | .current dataLow =>
    inferInstanceAs (Decidable (normal dataLow →
      if taken s.line then s.line.powerDenialDelay = 0 else s.line.powerDenialLength = 0))
  | .sethook toOffhook => inferInstanceAs (Decidable (toOffhook = true → s.line.battery = .on → s.line.powerDenialLength = 0))
  | .tick => inferInstanceAs (Decidable (s.line.ringDebounce = 1 → s.line.ringing = false → s.line.powerDenialLength = 0))
  | .sigChanged _ | .voltage _ | .interrupt _ => isTrue trivial

end History

section Timers
variable {p : Parms} {l : Line}

theorem mark_timers (on updateDahdi : Bool) (l : Line) :
    (markRing on updateDahdi l).1.powerDenialLength = l.powerDenialLength ∧
      (markRing on updateDahdi l).1.powerDenialSafezone = l.powerDenialSafezone ∧
        (markRing on updateDahdi l).1.powerDenialDelay = 0 ∧ (markRing on updateDahdi l).1.power = .unknown := by
  cases ringing : l.ringing <;> cases on <;> simp [markRing, resetBatteryReadings, ringing]

theorem mark_onhook (on updateDahdi : Bool) (l : Line) : Report.onhook ∉ (markRing on updateDahdi l).2 := by
  cases ringing : l.ringing <;> cases on <;> cases updateDahdi <;> simp [markRing, resetBatteryReadings, ringing]

/-- What the ring half of a tick leaves of the detector. -/
structure Rung (l l' : Line) : Prop where
  length : l'.powerDenialLength = l.powerDenialLength
  safezone : l'.powerDenialSafezone = l.powerDenialSafezone
  offhook : l'.offhook = l.offhook
  reset : l'.powerDenialDelay = 0 ∧ l'.power = .unknown ∨
    l'.powerDenialDelay = l.powerDenialDelay ∧ l'.power = l.power ∧ l'.ringing = l.ringing

theorem mark_rung (on updateDahdi : Bool) (l : Line) (debounce : Int) :
    Rung l (markRing on updateDahdi { l with ringDebounce := debounce }).1 := by
  obtain ⟨length, safezone, delay, power⟩ := mark_timers on updateDahdi { l with ringDebounce := debounce }
  exact ⟨length, safezone, mark_offhook on updateDahdi _, .inl ⟨delay, power⟩⟩

theorem count_rung (l : Line) : Rung l (countRing l).1 := by
  rw [countRing]
  split
  · split
    · exact mark_rung _ _ _ _
    · exact ⟨rfl, rfl, rfl, .inr ⟨rfl, rfl, rfl⟩⟩
  · split
    · split
      · exact mark_rung _ _ _ _
      · exact ⟨rfl, rfl, rfl, .inr ⟨rfl, rfl, rfl⟩⟩
    · exact ⟨rfl, rfl, rfl, .inr ⟨rfl, rfl, rfl⟩⟩

theorem polarity_rung (p : Parms) (l : Line) : Rung l (countPolarity p l).1 := by
  rw [countPolarity]
  split
  · split <;> exact ⟨rfl, rfl, rfl, .inr ⟨rfl, rfl, rfl⟩⟩
  · exact ⟨rfl, rfl, rfl, .inr ⟨rfl, rfl, rfl⟩⟩

theorem ring_rung (p : Parms) (l : Line) : Rung l (countRing (countPolarity p l).1).1 := by
  have first := polarity_rung p l
  have second := count_rung (countPolarity p l).1
  refine ⟨second.length.trans first.length, second.safezone.trans first.safezone, second.offhook.trans first.offhook, ?_⟩
  rcases second.reset with reset | ⟨delay, power, ringing⟩
  · exact .inl reset
  · rcases first.reset with reset | ⟨delay', power', ringing'⟩
    · exact .inl ⟨delay.trans reset.1, power.trans reset.2⟩
    · exact .inr ⟨delay.trans delay', power.trans power', ringing.trans ringing'⟩

/-- The power denial half of a tick starts no timer but the delay after the length. -/
structure Ran (p : Parms) (l : Line) (r : Line × List Report) : Prop where
  length : r.1.powerDenialLength ≤ l.powerDenialLength
  delay : 0 < r.1.powerDenialDelay → 0 < l.powerDenialLength ∨ 0 < l.powerDenialDelay
  ringing : r.1.ringing = l.ringing
  paused : l.ringing = true → r.1.powerDenialLength = l.powerDenialLength ∧ r.1.powerDenialDelay ≤ l.powerDenialDelay
  power : r.1.power = l.power
  told : .onhook ∈ r.2 → l.offhook = true ∧ l.ringing = false ∧ l.powerDenialSafezone = 0 ∧ 0 < l.powerDenialDelay

theorem denial_ran (p : Parms) (l : Line) : Ran p l (handleFxoPowerDenial p l) := by
  rw [handleFxoPowerDenial]
  split
  · exact ⟨le_rfl, .inr, rfl, fun _ => ⟨rfl, le_rfl⟩, rfl, fun never => by cases never⟩
  · split
    · exact ⟨le_rfl, (fun never => by cases never), rfl, fun _ => ⟨rfl, Nat.zero_le _⟩, rfl, fun never => by cases never⟩
    case isFalse here =>
      rw [Bool.or_eq_true, not_or, Bool.not_eq_true, Bool.not_eq_true', Bool.not_eq_false] at here
      have quiet : ¬ l.ringing = true := fun rings => Bool.false_ne_true (here.1.symm.trans rings)
      split
      · exact ⟨le_rfl, .inr, rfl, fun rings => absurd rings quiet, rfl, fun never => by cases never⟩
      case isFalse past =>
        split
        case isTrue counting =>
          dsimp only
          split
          · exact ⟨Nat.sub_le _ _, fun _ => .inl counting, rfl, fun rings => absurd rings quiet, rfl, fun never => by cases never⟩
          · exact ⟨Nat.sub_le _ _, fun _ => .inl counting, rfl, fun rings => absurd rings quiet, rfl, fun never => by cases never⟩
        · split
          case isTrue counting =>
            dsimp only
            split
            · exact ⟨le_rfl, (fun never => by cases never), rfl, fun rings => absurd rings quiet, rfl,
                fun _ => ⟨here.2, here.1, Nat.eq_zero_of_not_pos past, counting⟩⟩
            · exact ⟨le_rfl, fun _ => .inr counting, rfl, fun rings => absurd rings quiet, rfl, fun never => by cases never⟩
          · exact ⟨le_rfl, .inr, rfl, fun rings => absurd rings quiet, rfl, fun never => by cases never⟩

theorem tick_told (p : Parms) (l : Line) : Report.onhook ∈ (next p l .tick).2 ↔
    Report.onhook ∈ (handleFxoPowerDenial p (countRing (countPolarity p l).1).1).2 := by
  have split_reports : (next p l .tick).2 = ((countPolarity p l).2 ++ (countRing (countPolarity p l).1).2) ++
      (handleFxoPowerDenial p (countRing (countPolarity p l).1).1).2 :=
    rfl
  have polarity : Report.onhook ∉ (countPolarity p l).2 := by
    rw [countPolarity]
    split
    · split <;> simp
    · simp
  have ring : Report.onhook ∉ (countRing (countPolarity p l).1).2 := by
    rw [countRing]
    split
    · split
      · exact mark_onhook _ _ _
      · simp
    · split
      · split
        · exact mark_onhook _ _ _
        · simp
      · simp
  rw [split_reports, List.mem_append, List.mem_append]
  exact ⟨fun any => any.resolve_left (not_or.mpr ⟨polarity, ring⟩), .inr⟩

end Timers

section Steps
variable {p : Parms} {s : Watched}

/-- The detector is not counting while the line has its current. -/
def Powered (l : Line) : Prop := l.power = .on → l.powerDenialLength = 0

theorem powered_next {l : Line} (powered : Powered l) (op : Op) : Powered (next p l op).1 := by
  cases op with
  | sigChanged status =>
    obtain ⟨_, kept⟩ := sig_kept p status l
    rw [next, kept]
    exact powered
  | interrupt dataLow =>
    obtain ⟨_, kept⟩ := interrupt_kept p dataLow l
    rw [next, kept]
    exact powered
  | voltage dataLow =>
    obtain ⟨_, _, _, _, _, _, change, kept⟩ := voltage_kept p dataLow l
    rw [next, kept]
    intro on
    rcases change with ⟨unknown, _⟩ | ⟨same, _⟩
    · cases unknown.symm.trans on
    · exact powered (same.symm.trans on)
  | current dataLow =>
    rw [next, updateBatteryCurrent]
    split
    · exact powered
    · split
      · exact powered
      · split
        · exact powered
        · split
          · split
            · intro never
              cases never
            · exact powered
          · split
            · exact fun _ => rfl
            · exact powered
  | sethook toOffhook =>
    rw [next]
    cases done : doSethook p toOffhook l with
    | none => exact powered
    | some l' =>
      rw [doSethook] at done
      split at done
      · cases done
      · rw [Option.getD_some, ← Option.some.inj done]
        split
        · intro never
          cases never
        · intro never
          cases never
  | tick =>
    have rung := ring_rung p l
    have ran := denial_ran p (countRing (countPolarity p l).1).1
    intro on
    rw [next, tick_line, ran.power] at on
    rw [next, tick_line]
    have shrinks := ran.length
    rcases rung.reset with ⟨_, unknown⟩ | ⟨_, same, _⟩
    · rw [unknown] at on
      cases on
    · rw [same] at on
      have zero := powered on
      rw [rung.length, zero] at shrinks
      exact Nat.le_zero.mp shrinks

theorem pending_congr {line : Line} (pending : Pending s) (length : line.powerDenialLength ≤ s.line.powerDenialLength)
    (delay : line.powerDenialDelay ≤ s.line.powerDenialDelay) : Pending { s with line := line } := by
  intro runs
  apply pending
  rcases runs with runs | runs
  · exact .inl (lt_of_lt_of_le runs length)
  · exact .inr (lt_of_lt_of_le runs delay)

theorem pending_current (powered : Powered s.line) (pending : Pending s) (dataLow : BitVec 8) :
    Pending (watch p s (.current dataLow)) ↔ cancels s (.current dataLow) := by
  rw [cancels, watch]
  by_cases here : taken s.line
  · obtain ⟨quiet, offhook, battery, past⟩ := here
    have accepted : taken s.line := ⟨quiet, offhook, battery, past⟩
    by_cases full : normal dataLow
    · have high : ¬ dataLow.toNat < POWER_DENIAL_CURRENT := not_lt.mpr full
      have line : (next p s.line (.current dataLow)).1.powerDenialLength = 0 ∧
          (next p s.line (.current dataLow)).1.powerDenialDelay = s.line.powerDenialDelay := by
        rw [next, updateBatteryCurrent, if_neg (by rw [quiet, offhook]; decide), if_neg (not_not_intro battery),
          if_neg (by omega), if_neg high]
        by_cases on : s.line.power = .on
        · rw [if_neg (not_not_intro on)]
          exact ⟨powered on, rfl⟩
        · rw [if_pos on]
          exact ⟨rfl, rfl⟩
      rw [if_pos full, if_pos accepted, Pending]
      dsimp only
      rw [line.1, line.2]
      constructor
      · intro after _
        by_contra runs
        exact Bool.false_ne_true (after (.inr (Nat.pos_of_ne_zero runs)))
      · rintro zero (runs | runs)
        · omega
        · have none_ := zero full
          omega
    · refine iff_of_true ?_ fun high => absurd high full
      rw [if_neg full]
      by_cases starts : s.line.power = .on
      · have low : (s.low || decide (taken s.line ∧ s.line.power = .on)) = true := by
          rw [decide_eq_true ⟨accepted, starts⟩, Bool.or_true]
        intro _
        exact low
      · have still : (next p s.line (.current dataLow)).1 = s.line := by
          rw [next, updateBatteryCurrent, if_neg (by rw [quiet, offhook]; decide), if_neg (not_not_intro battery),
            if_neg (by omega), if_pos (not_le.mp full), if_neg starts]
        rw [still, decide_eq_false fun both => starts both.2, Bool.or_false]
        exact pending
  · have line : (next p s.line (.current dataLow)).1 = { s.line with powerDenialDelay := 0 } := by
      rw [next, updateBatteryCurrent]
      split
      · rfl
      case isFalse one =>
        split
        · rfl
        case isFalse two =>
          split
          · rfl
          case isFalse three =>
            rw [Bool.or_eq_true, not_or, Bool.not_eq_true, Bool.not_eq_true', Bool.not_eq_false] at one
            exact absurd ⟨one.1, one.2, not_not.mp two, Nat.eq_zero_of_not_pos three⟩ here
    rw [line, if_neg here]
    by_cases full : normal dataLow
    · rw [if_pos full, Pending]
      dsimp only
      constructor
      · intro after _
        by_contra runs
        exact Bool.false_ne_true (after (.inl (Nat.pos_of_ne_zero runs)))
      · rintro zero (runs | runs)
        · have none_ := zero full
          omega
        · omega
    · rw [if_neg full, decide_eq_false fun both => here both.1, Bool.or_false]
      exact iff_of_true (pending_congr pending le_rfl (Nat.zero_le _)) fun high => absurd high full

theorem pending_sethook (pending : Pending s) (toOffhook : Bool) :
    Pending (watch p s (.sethook toOffhook)) ↔ cancels s (.sethook toOffhook) := by
  have timers := mark_timers false false s.line
  rw [cancels, watch, next]
  cases done : doSethook p toOffhook s.line with
  | none =>
    refine iff_of_true pending fun off battery => ?_
    rw [doSethook, off, battery] at done
    cases done
  | some l' =>
    rw [Option.getD_some, Option.isSome_some, if_pos rfl, Pending]
    dsimp only
    rw [doSethook] at done
    split at done
    · cases done
    case isFalse allowed =>
      rw [← Option.some.inj done]
      cases toOffhook with
      | false =>
        refine iff_of_true (fun runs => ?_) (fun off => absurd off Bool.false_ne_true)
        rw [if_neg Bool.false_ne_true] at runs
        exact absurd runs (by simp [resetBatteryReadings])
      | true =>
        rw [if_pos rfl]
        constructor
        · intro after _ _
          by_contra runs
          refine Bool.false_ne_true (after (.inl ?_))
          rw [← timers.1] at runs
          exact Nat.pos_of_ne_zero runs
        · rintro zero (runs | runs)
          · have on : s.line.battery = .on := by
              by_contra off
              exact allowed (by rw [decide_eq_true off]; rfl)
            have none_ := zero rfl on
            rw [← timers.1] at none_
            exact absurd runs (by simp [resetBatteryReadings, none_])
          · exact absurd runs (by simp [resetBatteryReadings])

theorem pending_tick (pending : Pending s) : Pending (watch p s .tick) ↔ cancels s .tick := by
  have rung := ring_rung p s.line
  have ran := denial_ran p (countRing (countPolarity p s.line).1).1
  have rings : (next p s.line .tick).1.ringing =
      if s.line.ringDebounce = 1 then true else if s.line.ringDebounce = -1 then false else s.line.ringing :=
    tick_ringing p s.line
  have after_ring : (next p s.line .tick).1.ringing = (countRing (countPolarity p s.line).1).1.ringing := ran.ringing
  rw [cancels, watch]
  by_cases starts : s.line.ringDebounce = 1 ∧ s.line.ringing = false
  · have now : (next p s.line .tick).1.ringing = true := by rw [rings, if_pos starts.1]
    rw [if_pos ⟨starts.2, now⟩, Pending]
    dsimp only
    have paused := ran.paused (after_ring.symm.trans now)
    have length : (next p s.line .tick).1.powerDenialLength = s.line.powerDenialLength := paused.1.trans rung.length
    have delay : (next p s.line .tick).1.powerDenialDelay = 0 := by
      rcases rung.reset with ⟨zero, _⟩ | ⟨_, _, same⟩
      · have small := paused.2
        rw [zero] at small
        exact Nat.le_zero.mp small
      · rw [after_ring, same, starts.2] at now
        cases now
    rw [length, delay]
    constructor
    · intro after _ _
      by_contra runs
      exact Bool.false_ne_true (after (.inl (Nat.pos_of_ne_zero runs)))
    · rintro zero (runs | runs)
      · have none_ := zero starts.1 starts.2
        omega
      · omega
  · have no_ring : ¬ (s.line.ringing = false ∧ (next p s.line .tick).1.ringing = true) := by
      rintro ⟨quiet, now⟩
      have other : s.line.ringDebounce ≠ 1 := fun one => starts ⟨one, quiet⟩
      rw [rings, if_neg other, quiet] at now
      split at now <;> cases now
    refine iff_of_true ?_ fun one quiet => absurd ⟨one, quiet⟩ starts
    rw [if_neg no_ring]
    intro runs
    apply pending
    dsimp only at runs
    have length : (next p s.line .tick).1.powerDenialLength ≤ s.line.powerDenialLength := by
      have shrinks := ran.length
      rw [rung.length] at shrinks
      exact shrinks
    rcases runs with runs | runs
    · exact .inl (lt_of_lt_of_le runs length)
    · rcases ran.delay runs with before | before
      · rw [rung.length] at before
        exact .inl before
      · rcases rung.reset with ⟨zero, _⟩ | ⟨same, _, _⟩
        · omega
        · rw [same] at before
          exact .inr before

theorem pending_next (powered : Powered s.line) (pending : Pending s) (op : Op) :
    Pending (watch p s op) ↔ cancels s op := by
  cases op with
  | current dataLow => exact pending_current powered pending dataLow
  | sethook toOffhook => exact pending_sethook pending toOffhook
  | tick => exact pending_tick pending
  | sigChanged status =>
    obtain ⟨_, kept⟩ := sig_kept p status s.line
    have same : watch p s (.sigChanged status) = { s with line := (next p s.line (.sigChanged status)).1 } := rfl
    rw [same, next, kept]
    exact iff_of_true (pending_congr pending le_rfl le_rfl) trivial
  | interrupt dataLow =>
    obtain ⟨_, kept⟩ := interrupt_kept p dataLow s.line
    have same : watch p s (.interrupt dataLow) = { s with line := (next p s.line (.interrupt dataLow)).1 } := rfl
    rw [same, next, kept]
    exact iff_of_true (pending_congr pending le_rfl le_rfl) trivial
  | voltage dataLow =>
    obtain ⟨_, _, _, _, _, _, change, kept⟩ := voltage_kept p dataLow s.line
    have same : watch p s (.voltage dataLow) = { s with line := (next p s.line (.voltage dataLow)).1 } := rfl
    rw [same, next, kept]
    refine iff_of_true (pending_congr pending le_rfl ?_) trivial
    dsimp only
    rcases change with ⟨_, zero⟩ | ⟨_, still⟩
    · omega
    · omega

theorem justified_of (pending : Pending s) (told : notifies p s) : Justified p s := by
  have rung := ring_rung p s.line
  have ran := denial_ran p (countRing (countPolarity p s.line).1).1
  obtain ⟨offhook, quiet, past, runs⟩ := ran.told ((tick_told p s.line).mp told)
  rw [rung.offhook] at offhook
  rw [rung.safezone] at past
  have after : (next p s.line .tick).1.ringing = false := ran.ringing.trans quiet
  rcases rung.reset with ⟨zero, _⟩ | ⟨delay, _, ringing⟩
  · omega
  · exact ⟨offhook, ⟨ringing.symm.trans quiet, after⟩, past, pending (.inr (delay ▸ runs))⟩

end Steps

section Confirmation
variable {p : Parms} {s : Watched}

/-- The line is in the confirmation delay, with nothing else going on. -/
structure Confirming (p : Parms) (s : Watched) (delay : Nat) : Prop where
  detects : p.powerDenialSafezone ≠ 0
  idle : s.line.polarityLastInterval = POLARITY_LAST_INTERVAL_NONE
  still : s.line.ringDebounce = 0
  quiet : s.line.ringing = false
  offhook : s.line.offhook = true
  past : s.line.powerDenialSafezone = 0
  length : s.line.powerDenialLength = 0
  delay : s.line.powerDenialDelay = delay

theorem confirm_denial {delay : Nat} (confirming : Confirming p s delay) :
    next p s.line .tick = handleFxoPowerDenial p s.line := by
  have first : countPolarity p s.line = (s.line, []) := by
    have none_ : (p.usePolrevFirmware && decide (s.line.polarityLastInterval ≠ POLARITY_LAST_INTERVAL_NONE)) ≠ true := by
      rw [decide_eq_false (not_not_intro confirming.idle), Bool.and_false]
      exact Bool.false_ne_true
    rw [countPolarity, if_neg none_]
  have second : countRing s.line = (s.line, []) := by
    have still := confirming.still
    rw [countRing, if_neg (by omega), if_neg (by omega)]
  rw [next, cardTick, handleFxoRing, first]
  dsimp only
  rw [second]
  rfl

theorem confirm_tick {delay : Nat} (confirming : Confirming p s (delay + 2)) :
    Confirming p (watch p s .tick) (delay + 1) ∧ (watch p s .tick).low = s.low := by
  have line : (next p s.line .tick).1 = { s.line with powerDenialDelay := delay + 1 } := by
    rw [confirm_denial confirming]
    obtain ⟨detects, _, _, quiet, offhook, past, length, value⟩ := confirming
    rw [handleFxoPowerDenial, if_neg detects, if_neg (by rw [quiet, offhook]; decide), if_neg (by omega), if_neg (by omega),
      if_pos (by omega)]
    dsimp only
    rw [if_neg (by omega), value]
    rfl
  rw [watch, line]
  obtain ⟨detects, idle, still, quiet, offhook, past, length, _⟩ := confirming
  exact ⟨⟨detects, idle, still, quiet, offhook, past, length, rfl⟩, if_neg fun both => Bool.false_ne_true (quiet.symm.trans both.2)⟩

theorem confirm_last (confirming : Confirming p s 1) : notifies p s := by
  rw [notifies, confirm_denial confirming]
  obtain ⟨detects, _, _, quiet, offhook, past, length, value⟩ := confirming
  rw [handleFxoPowerDenial, if_neg detects, if_neg (by rw [quiet, offhook]; decide), if_neg (by omega), if_neg (by omega),
    if_pos (by omega)]
  dsimp only
  rw [if_pos (by omega)]
  exact List.mem_singleton.mpr rfl

/-- Left alone, the line comes to the last tick of the delay. -/
theorem confirm_run {guard : Watched → Op → Prop} (free : ∀ s : Watched, s.line.ringDebounce = 0 → guard s .tick)
    {delay : Nat} (confirming : Confirming p s (delay + 1)) (reached : GuardedRun.Reach (watched p) guard s) :
    ∃ s', GuardedRun.Reach (watched p) guard s' ∧ notifies p s' ∧ s'.low = s.low := by
  induction delay generalizing s with
  | zero => exact ⟨s, reached, confirm_last confirming, rfl⟩
  | succ delay ih =>
    obtain ⟨later, low⟩ := confirm_tick confirming
    obtain ⟨s', run, told, same⟩ := ih later (.step reached (free s confirming.still) rfl)
    exact ⟨s', run, told, same.trans low⟩

end Confirmation

section Results

/-- As long as what comes during the detection ends it, an on-hook notification is for a line that
    is off hook, quiet and past its safe zone, after a low reading that nothing has corrected. -/
theorem denials_justified {p : Parms} {s : Watched} (reached : GuardedRun.Reach (watched p) cancels s) :
    (notifies p s → Justified p s) ∧ ∀ op, Pending (watch p s op) ↔ cancels s op := by
  have initial : ∀ s, (watched p).start s → Powered s.line ∧ Pending s := by
    rintro s rfl
    exact ⟨nofun, fun runs => absurd runs (by decide)⟩
  have kept : ∀ s op s', Powered s.line ∧ Pending s → cancels s op → (watched p).step s op s' →
      Powered s'.line ∧ Pending s' := by
    rintro s op s' ⟨powered, pending⟩ allowed rfl
    refine ⟨?_, (pending_next powered pending op).mpr allowed⟩
    have after := powered_next (p := p) powered op
    cases op <;> exact after
  obtain ⟨powered, pending⟩ := GuardedRun.invariant_run initial kept reached
  exact ⟨justified_of pending, pending_next powered pending⟩

/-- The times of the defaults are longer. -/
def shortParms : Parms := { defaultParms with powerDenialSafezone := 5, powerDenialMinlen := 5 }

/-- What the end of these steps shows of the line. -/
def shown (s : Watched) : (Int × Int × Bool × Bool) × Nat × Nat × Nat × Bool :=
  ((s.line.polarityLastInterval, s.line.ringDebounce, s.line.ringing, s.line.offhook),
    s.line.powerDenialSafezone, s.line.powerDenialLength, s.line.powerDenialDelay, s.low)

theorem confirming_shown {s : Watched} {delay : Nat} {low : Bool}
    (seen : shown s = ((-1, 0, false, true), 0, 0, delay, low)) : Confirming shortParms s delay ∧ s.low = low := by
  rw [shown, Prod.mk.injEq, Prod.mk.injEq, Prod.mk.injEq, Prod.mk.injEq, Prod.mk.injEq, Prod.mk.injEq, Prod.mk.injEq] at seen
  obtain ⟨⟨idle, still, quiet, offhook⟩, past, length, delay, low⟩ := seen
  exact ⟨⟨by decide, idle, still, quiet, offhook, past, length, delay⟩, low⟩

/-- The current of a line that is off hook goes, for as long as powerDenialMinlen. -/
def currentGone : List Op :=
  [.voltage 48, .sethook true] ++ List.replicate 5 .tick ++ [.current 20, .current 0] ++ List.replicate 5 .tick

/-- The current of a line that is off hook goes, and stays away. -/
theorem denials_justified_gone : ∃ s : Watched, notifies shortParms s ∧
    (notifies shortParms s → Justified shortParms s) ∧ ∀ op, Pending (watch shortParms s op) ↔ cancels s op := by
  have view : (GuardedRun.follow (fun s op => some (watch shortParms s op)) cancels
      currentGone ⟨freshLine, false⟩).map shown = some ((-1, 0, false, true), 0, 0, 2500, true) := by
    decide +kernel
  obtain ⟨s, followed, seen⟩ := Option.map_eq_some_iff.mp view
  have reached : GuardedRun.Reach (watched shortParms) cancels s :=
    GuardedRun.follow_reach (fun _ _ _ moved => Option.some.inj moved) (.start rfl) followed
  obtain ⟨s', run, told, _⟩ := confirm_run (fun _ still one => absurd (still.symm.trans one) (by decide))
    (confirming_shown seen).1 reached
  exact ⟨s', told, denials_justified run⟩

/-- The current comes back in the confirmation delay. -/
theorem denied_with_current : ∃ s : Watched, GuardedRun.Reach (watched shortParms) GuardedRun.anyStep s ∧
    notifies shortParms s ∧ s.low = false ∧ ¬ Justified shortParms s := by
  have view : (GuardedRun.follow (fun s op => some (watch shortParms s op)) GuardedRun.anyStep
      (currentGone ++ [.current 20]) ⟨freshLine, false⟩).map shown = some ((-1, 0, false, true), 0, 0, 2500, false) := by
    decide +kernel
  obtain ⟨s, followed, seen⟩ := Option.map_eq_some_iff.mp view
  have reached : GuardedRun.Reach (watched shortParms) GuardedRun.anyStep s :=
    GuardedRun.follow_reach (fun _ _ _ moved => Option.some.inj moved) (.start rfl) followed
  obtain ⟨confirming, low⟩ := confirming_shown seen
  obtain ⟨s', run, told, same⟩ := confirm_run (fun _ _ => trivial) confirming reached
  refine ⟨s', run, told, same.trans low, fun justified => ?_⟩
  exact Bool.false_ne_true ((same.trans low).symm.trans justified.low)

end Results

end FxoPowerDenial
