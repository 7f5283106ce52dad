import Dahdi.Xpp.FxoLine

/-!
The filter of polarity reversals of an FXO line, against the history of the chip interrupts of
the line.
-/
namespace FxoPolarity
open FxoLine

section History

/-- A chip interrupt: the number of ticks before it, and its polarity and ring bits. -/
structure Irq where
  time : Nat
  poli : Bool
  ring : Bool
  deriving DecidableEq, Repr

/-- A line with what has happened to it: the ticks, its polarity and ring interrupts, the last one
    first, and whether it has not rung since that one. -/
structure Watched where
  line : Line
  ticks : Nat
  irqs : List Irq
  idle : Bool
  deriving DecidableEq, Repr

def poli (dataLow : BitVec 8) : Bool := dataLow.getLsbD REG_INTERRUPT_SRC_POLI

def ring (dataLow : BitVec 8) : Bool := dataLow.getLsbD REG_INTERRUPT_SRC_RING

def watch (p : Parms) (s : Watched) (op : Op) : Watched :=
  let line := (next p s.line op).1
  match op with
  | .interrupt dataLow =>
    if poli dataLow || ring dataLow then
      { s with line := line, irqs := ⟨s.ticks, poli dataLow, ring dataLow⟩ :: s.irqs, idle := !s.line.ringing }
    else { s with line := line }
  | .tick => { s with line := line, ticks := s.ticks + 1, idle := s.idle && !line.ringing }
  | _ => { s with line := line }

def freshWatched : Watched := ⟨freshLine, 0, [], true⟩

def watched (p : Parms) : GuardedRun.System Watched Op := ⟨fun s => s = freshWatched, fun s op s' => watch p s op = s'⟩

/-- The tick reports a polarity reversal. -/
def reports (p : Parms) (s : Watched) : Prop := Report.polarity ∈ (next p s.line .tick).2

def near (x e : Irq) : Prop := x.time ≤ e.time + POLARITY_LAST_INTERVAL_MAX ∧ e.time ≤ x.time + POLARITY_LAST_INTERVAL_MAX

/-- The most recent polarity interrupt, with no other polarity or ring interrupt near it. -/
def Isolated (irqs : List Irq) (e : Irq) : Prop :=
  e.poli = true ∧ e.ring = false ∧ ∃ after before, irqs = after ++ e :: before ∧
    (∀ x ∈ after, x.poli = false) ∧ ∀ x ∈ after ++ before, ¬ near x e

/-- The next tick is the first to come more than so many ticks after the interrupt. -/
def due (s : Watched) (e : Irq) : Prop := (e.time : Int) + POLARITY_LAST_INTERVAL_MAX = s.ticks

/-- A reversal is reported at the next tick only for an isolated interrupt that is due, with the
    line not ringing, and it is if the line has not rung since. -/
structure Filtered (p : Parms) (s : Watched) : Prop where
  only : reports p s → s.line.ringing = false ∧ ∃ e, Isolated s.irqs e ∧ due s e
  every : ∀ e, Isolated s.irqs e → due s e → s.idle = true → reports p s

/-- The counter waits only for an isolated interrupt, with the line not ringing. -/
def Waiting (s : Watched) : Prop :=
  0 ≤ s.line.polarityLastInterval → s.line.ringing = false ∧
    ∃ e before, s.irqs = e :: before ∧ e.poli = true ∧ e.ring = false ∧
      (e.time : Int) + s.line.polarityLastInterval = s.ticks ∧ ∀ x ∈ before, ¬ near x e

/-- A wait is not met by a ring interrupt alone, by a polarity interrupt at its last tick or by the
    start of a ring, and does not start near another interrupt. -/
def undisturbed (s : Watched) (op : Op) : Prop :=
  match op with
  | .interrupt dataLow =>
    if poli dataLow then
      s.line.ringing = false → ring dataLow = false →
        s.line.polarityLastInterval ≠ POLARITY_LAST_INTERVAL_MAX ∧
          (s.line.polarityLastInterval = POLARITY_LAST_INTERVAL_NONE →
            ∀ x ∈ s.irqs, (x.time : Int) + POLARITY_LAST_INTERVAL_MAX < s.ticks)
    else ring dataLow = true → s.line.polarityLastInterval < 0
  | .tick =>
    s.line.ringDebounce = 1 → 0 ≤ s.line.polarityLastInterval →
      s.line.polarityLastInterval = POLARITY_LAST_INTERVAL_MAX
  | _ => True

instance (s : Watched) (op : Op) : Decidable (undisturbed s op) :=
  match op with
  | .interrupt dataLow =>
    inferInstanceAs (Decidable (if poli dataLow then
      s.line.ringing = false → ring dataLow = false → s.line.polarityLastInterval ≠ POLARITY_LAST_INTERVAL_MAX ∧
        (s.line.polarityLastInterval = POLARITY_LAST_INTERVAL_NONE →
          ∀ x ∈ s.irqs, (x.time : Int) + POLARITY_LAST_INTERVAL_MAX < s.ticks)
    else ring dataLow = true → s.line.polarityLastInterval < 0))
  | .tick => inferInstanceAs (Decidable (_ = _ → _ ≤ _ → _ = _))
  | .sigChanged _ | .voltage _ | .current _ | .sethook _ => isTrue trivial

instance (p : Parms) (s : Watched) : Decidable (reports p s) :=
  inferInstanceAs (Decidable (Report.polarity ∈ (next p s.line .tick).2))

end History

section Counter
variable {p : Parms} {l : Line}

/-- The counter after a tick, unless a ring stops. -/
def counted (t : Int) : Int :=
  if t = POLARITY_LAST_INTERVAL_NONE then t
  else if POLARITY_LAST_INTERVAL_MAX < t + 1 then POLARITY_LAST_INTERVAL_NONE
  else t + 1

theorem polarity_interval (firmware : p.usePolrevFirmware = true) (l : Line) :
    (countPolarity p l).1.polarityLastInterval = counted l.polarityLastInterval := by
  rw [countPolarity, counted, firmware, Bool.true_and]
  by_cases idle : l.polarityLastInterval = POLARITY_LAST_INTERVAL_NONE
  · simp only [idle, ne_eq, not_true_eq_false, decide_false, Bool.false_eq_true, ↓reduceIte]
  · simp only [idle, ne_eq, not_false_eq_true, decide_true, ↓reduceIte]
    split <;> rfl

theorem tick_interval (firmware : p.usePolrevFirmware = true) (l : Line) :
    (next p l .tick).1.polarityLastInterval =
      if l.ringDebounce = -1 ∧ l.ringing = true then POLARITY_LAST_INTERVAL_NONE else counted l.polarityLastInterval := by
  obtain ⟨_, _, _, kept⟩ := denial_kept p (countRing (countPolarity p l).1).1
  rw [next, tick_line, kept]
  dsimp only
  rw [count_interval, polarity_debounce, polarity_ringing, polarity_interval firmware]

theorem counted_cases (t : Int) : counted t = -1 ∨ t ≠ -1 ∧ t < 40 ∧ counted t = t + 1 := by
  rw [counted, POLARITY_LAST_INTERVAL_NONE, POLARITY_LAST_INTERVAL_MAX]
  split
  · omega
  · split <;> omega

/-- At a tick the counter goes up by one or ends. -/
theorem tick_counts (firmware : p.usePolrevFirmware = true) (l : Line) :
    (next p l .tick).1.polarityLastInterval = -1 ∨ l.polarityLastInterval ≠ -1 ∧ l.polarityLastInterval < 40 ∧
      (next p l .tick).1.polarityLastInterval = l.polarityLastInterval + 1 := by
  rw [tick_interval firmware]
  split
  · exact .inl rfl
  · exact counted_cases l.polarityLastInterval

theorem tick_goes_on (firmware : p.usePolrevFirmware = true) (going : ¬ (l.ringDebounce = -1 ∧ l.ringing = true))
    (runs : l.polarityLastInterval ≠ -1) (short : l.polarityLastInterval < 40) :
    (next p l .tick).1.polarityLastInterval = l.polarityLastInterval + 1 := by
  rw [tick_interval firmware, if_neg going, counted, POLARITY_LAST_INTERVAL_NONE, POLARITY_LAST_INTERVAL_MAX,
    if_neg runs, if_neg (by omega)]

theorem tick_reports (firmware : p.usePolrevFirmware = true) (l : Line) : Report.polarity ∈ (next p l .tick).2 ↔
    l.polarityLastInterval ≠ POLARITY_LAST_INTERVAL_NONE ∧ POLARITY_LAST_INTERVAL_MAX < l.polarityLastInterval + 1 := by
  have split_reports : (next p l .tick).2 = ((countPolarity p l).2 ++ (countRing (countPolarity p l).1).2) ++
      (handleFxoPowerDenial p (countRing (countPolarity p l).1).1).2 :=
    rfl
  rw [split_reports, List.mem_append, List.mem_append]
  have others : (Report.polarity ∈ (countPolarity p l).2 ∨ Report.polarity ∈ (countRing (countPolarity p l).1).2) ∨
      Report.polarity ∈ (handleFxoPowerDenial p (countRing (countPolarity p l).1).1).2 ↔
      Report.polarity ∈ (countPolarity p l).2 :=
    ⟨fun any => (any.resolve_right (denial_reports p _)).resolve_right (count_reports _), fun one => .inl (.inl one)⟩
  rw [others, countPolarity, firmware, Bool.true_and]
  by_cases idle : l.polarityLastInterval = POLARITY_LAST_INTERVAL_NONE
  · simp [idle]
  · by_cases full : POLARITY_LAST_INTERVAL_MAX < l.polarityLastInterval + 1
    · simp [idle, full]
    · simp [idle, full]

/-- The counter after a chip interrupt. -/
def heard (rings poli ring : Bool) (t : Int) : Int :=
  if poli = false then t
  else if rings || ring then POLARITY_LAST_INTERVAL_NONE
  else if t = POLARITY_LAST_INTERVAL_NONE then 0
  else if t < POLARITY_LAST_INTERVAL_MAX then POLARITY_LAST_INTERVAL_NONE - POLARITY_LAST_INTERVAL_MAX
  else t

theorem interrupt_interval (firmware : p.usePolrevFirmware = true) (dataLow : BitVec 8) (l : Line) :
    (next p l (.interrupt dataLow)).1.polarityLastInterval =
      heard l.ringing (poli dataLow) (ring dataLow) l.polarityLastInterval := by
  rw [next, gotChipInterrupt, heard, poli, ring, firmware]
  by_cases polarity : dataLow.getLsbD REG_INTERRUPT_SRC_POLI = true
  · by_cases rings : l.ringing = true
    · simp only [polarity, rings, Bool.not_true, Bool.true_or, Bool.true_eq_false, Bool.false_eq_true, ↓reduceIte]
    · by_cases with_ring : dataLow.getLsbD REG_INTERRUPT_SRC_RING = true
      · simp only [polarity, rings, with_ring, Bool.not_true, Bool.or_true, Bool.true_eq_false, Bool.false_eq_true, ↓reduceIte]
      · simp only [polarity, rings, with_ring, Bool.not_true, Bool.or_self, Bool.true_eq_false, Bool.false_eq_true, ↓reduceIte]
        split
        · rfl
        · split
          · rfl
          · rfl
  · simp only [polarity, Bool.not_true, Bool.not_false, Bool.false_eq_true, ↓reduceIte]

theorem interrupt_ringing (dataLow : BitVec 8) (l : Line) : (next p l (.interrupt dataLow)).1.ringing = l.ringing := by
  obtain ⟨_, kept⟩ := interrupt_kept p dataLow l
  rw [next, kept]

/-- Packets, battery replies and hook changes keep the counter and the ringing, or end both. -/
theorem other_kept (p : Parms) (l : Line) {op : Op} (not_tick : op ≠ .tick) (not_irq : ∀ dataLow, op ≠ .interrupt dataLow) :
    (next p l op).1.polarityLastInterval = l.polarityLastInterval ∧ (next p l op).1.ringing = l.ringing ∨
      l.ringing = true ∧ (next p l op).1.polarityLastInterval = POLARITY_LAST_INTERVAL_NONE ∧
        (next p l op).1.ringing = false := by
  cases op with
  | sigChanged status =>
    obtain ⟨_, kept⟩ := sig_kept p status l
    rw [next, kept]
    exact .inl ⟨rfl, rfl⟩
  | voltage dataLow =>
    obtain ⟨_, _, _, _, _, _, _, kept⟩ := voltage_kept p dataLow l
    rw [next, kept]
    exact .inl ⟨rfl, rfl⟩
  | current dataLow =>
    obtain ⟨_, _, _, _, kept⟩ := current_kept p dataLow l
    rw [next, kept]
    exact .inl ⟨rfl, rfl⟩
  | interrupt dataLow => exact absurd rfl (not_irq dataLow)
  | tick => exact absurd rfl not_tick
  | sethook toOffhook =>
    rw [next]
    cases done : doSethook p toOffhook l with
    | none => exact .inl ⟨rfl, rfl⟩
    | some l' =>
      have quiet : l'.ringing = false ∧ l'.polarityLastInterval = (markRing false false l).1.polarityLastInterval := by
        rw [doSethook] at done
        split at done
        · cases done
        · rw [← Option.some.inj done]
          split <;> exact ⟨mark_ringing false false l, rfl⟩
      rw [Option.getD_some, quiet.1, quiet.2, mark_interval]
      cases ringing : l.ringing with
      | true => exact .inr ⟨rfl, if_pos ⟨rfl, rfl⟩, rfl⟩
      | false => exact .inl ⟨if_neg (fun both => Bool.false_ne_true both.2), rfl⟩

theorem watch_other (p : Parms) (s : Watched) {op : Op} (not_tick : op ≠ .tick) (not_irq : ∀ dataLow, op ≠ .interrupt dataLow) :
    watch p s op = { s with line := (next p s.line op).1 } := by
  cases op with
  | tick => exact absurd rfl not_tick
  | interrupt dataLow => exact absurd rfl (not_irq dataLow)
  | sigChanged _ | voltage _ | current _ | sethook _ => rfl

end Counter

section Invariant
variable {p : Parms} {s : Watched}

/-- The counter tells how long ago the interrupt came that started a wait or held reports back,
    and it waits for an isolated one when the line has not rung since. -/
structure Tracked (s : Watched) : Prop where
  sorted : s.irqs.Pairwise fun x y => y.time ≤ x.time
  past : ∀ x ∈ s.irqs, x.time ≤ s.ticks
  upper : s.line.polarityLastInterval ≤ POLARITY_LAST_INTERVAL_MAX
  waits : 0 ≤ s.line.polarityLastInterval → ∃ x ∈ s.irqs, (x.time : Int) + s.line.polarityLastInterval = s.ticks
  bursts : s.line.polarityLastInterval < POLARITY_LAST_INTERVAL_NONE → ∃ x ∈ s.irqs,
    (x.time : Int) + (s.line.polarityLastInterval - (POLARITY_LAST_INTERVAL_NONE - POLARITY_LAST_INTERVAL_MAX)) = s.ticks
  idle : s.idle = true → s.line.ringing = false
  isolated : ∀ e before, s.irqs = e :: before → e.poli = true → e.ring = false → s.idle = true →
    (∀ x ∈ before, ¬ near x e) → (s.ticks : Int) ≤ e.time + POLARITY_LAST_INTERVAL_MAX →
      (e.time : Int) + s.line.polarityLastInterval = s.ticks

theorem tracked_fresh : Tracked freshWatched := by
  refine ⟨List.Pairwise.nil, nofun, by decide, fun waiting => ?_, fun burst => ?_, fun _ => rfl, nofun⟩
  · exact absurd waiting (by decide)
  · exact absurd burst (by decide)

theorem tracked_congr {line : Line} (tracked : Tracked s)
    (interval : line.polarityLastInterval = s.line.polarityLastInterval) (ringing : line.ringing = s.line.ringing) :
    Tracked { s with line := line } := by
  obtain ⟨sorted, past, upper, waits, bursts, idle, isolated⟩ := tracked
  constructor <;> dsimp only <;> try rw [interval]
  all_goals first | assumption | skip
  rw [ringing]
  exact idle

/-- While the counter runs there has been an interrupt in the last ticks. -/
theorem tracked_recent (tracked : Tracked s) (runs : s.line.polarityLastInterval ≠ POLARITY_LAST_INTERVAL_NONE) :
    ∃ x ∈ s.irqs, (s.ticks : Int) ≤ x.time + POLARITY_LAST_INTERVAL_MAX := by
  have upper := tracked.upper
  rw [POLARITY_LAST_INTERVAL_MAX] at upper
  rw [POLARITY_LAST_INTERVAL_MAX]
  rw [POLARITY_LAST_INTERVAL_NONE] at runs
  by_cases waiting : 0 ≤ s.line.polarityLastInterval
  · obtain ⟨x, member, when_⟩ := tracked.waits waiting
    exact ⟨x, member, by linarith⟩
  · have burst : s.line.polarityLastInterval < -1 := by omega
    obtain ⟨x, member, when_⟩ := tracked.bursts burst
    rw [POLARITY_LAST_INTERVAL_MAX, POLARITY_LAST_INTERVAL_NONE] at when_
    exact ⟨x, member, by linarith⟩

theorem tracked_other {op : Op} (tracked : Tracked s) (not_tick : op ≠ .tick) (not_irq : ∀ dataLow, op ≠ .interrupt dataLow) :
    Tracked (watch p s op) := by
  rw [watch_other p s not_tick not_irq]
  rcases other_kept p s.line not_tick not_irq with ⟨interval, ringing⟩ | ⟨rang, interval, ringing⟩
  · exact tracked_congr tracked interval ringing
  · refine ⟨tracked.sorted, tracked.past, ?_, fun waiting => ?_, fun burst => ?_, fun _ => ringing, fun _ _ _ _ _ calm => ?_⟩
    · dsimp only
      rw [interval]
      decide
    · dsimp only at waiting
      rw [interval] at waiting
      exact absurd waiting (by decide)
    · dsimp only at burst
      rw [interval] at burst
      exact absurd burst (by decide)
    · have rings := tracked.idle calm
      rw [rang] at rings
      cases rings

theorem tracked_tick (firmware : p.usePolrevFirmware = true) (tracked : Tracked s) : Tracked (watch p s .tick) := by
  have counts := tick_counts firmware s.line
  refine ⟨tracked.sorted, fun x member => Nat.le_succ_of_le (tracked.past x member), ?_, fun waiting => ?_, fun burst => ?_, ?_, ?_⟩
  · rw [watch, POLARITY_LAST_INTERVAL_MAX]
    dsimp only
    omega
  · rw [watch] at waiting ⊢
    dsimp only at waiting ⊢
    obtain ended | ⟨runs, short, up⟩ := counts
    · rw [ended] at waiting
      exact absurd waiting (by decide)
    · obtain ⟨x, member, when_⟩ := tracked.waits (by omega)
      refine ⟨x, member, ?_⟩
      rw [up, ← add_assoc, when_]
      push_cast
      rfl
  · rw [watch] at burst ⊢
    dsimp only at burst ⊢
    rw [POLARITY_LAST_INTERVAL_NONE] at burst
    obtain ended | ⟨runs, short, up⟩ := counts
    · omega
    · obtain ⟨x, member, when_⟩ := tracked.bursts (show s.line.polarityLastInterval < -1 by omega)
      refine ⟨x, member, ?_⟩
      rw [up]
      push_cast
      linarith
  · intro calm
    rw [watch] at calm ⊢
    dsimp only at calm ⊢
    exact (Bool.not_eq_true' _).mp (Bool.and_eq_true_iff.mp calm).2
  · intro e before list polarity alone calm far soon
    rw [watch] at list calm soon ⊢
    dsimp only at list calm soon ⊢
    rw [POLARITY_LAST_INTERVAL_MAX] at soon
    have still := (Bool.and_eq_true_iff.mp calm).1
    have started : e.time ≤ s.ticks := tracked.past e (by rw [list]; exact List.mem_cons_self)
    push_cast at soon ⊢
    have count := tracked.isolated e before list polarity alone still far
      (show (s.ticks : Int) ≤ e.time + 40 by omega)
    have going : ¬ (s.line.ringDebounce = -1 ∧ s.line.ringing = true) :=
      fun stop => Bool.false_ne_true ((tracked.idle still).symm.trans stop.2)
    rw [tick_goes_on firmware going (by omega) (by omega)]
    omega

/-- What the counter is after an interrupt. -/
theorem heard_cases (rings poli ring : Bool) (t : Int) :
    heard rings poli ring t = t ∧ poli = false ∨ heard rings poli ring t = -1 ∧ poli = true ∧ (rings = true ∨ ring = true) ∨
      (poli = true ∧ rings = false ∧ ring = false) ∧
        (t = -1 ∧ heard rings poli ring t = 0 ∨ t ≠ -1 ∧ t < 40 ∧ heard rings poli ring t = -41 ∨
          40 ≤ t ∧ heard rings poli ring t = t) := by
  rw [heard, POLARITY_LAST_INTERVAL_NONE, POLARITY_LAST_INTERVAL_MAX]
  cases poli with
  | false => exact .inl ⟨rfl, rfl⟩
  | true =>
    cases rings with
    | true => exact .inr (.inl ⟨rfl, rfl, .inl rfl⟩)
    | false =>
      cases ring with
      | true => exact .inr (.inl ⟨rfl, rfl, .inr rfl⟩)
      | false =>
        refine .inr (.inr ⟨⟨rfl, rfl, rfl⟩, ?_⟩)
        rw [if_neg (by decide), if_neg (by decide)]
        split
        · omega
        · split <;> omega

theorem watch_silent {dataLow : BitVec 8} (silent : (poli dataLow || ring dataLow) = false) (s : Watched) :
    watch p s (.interrupt dataLow) = { s with line := (next p s.line (.interrupt dataLow)).1 } := by
  rw [watch, silent]
  rfl

theorem watch_heard {dataLow : BitVec 8} (told : (poli dataLow || ring dataLow) = true) (s : Watched) :
    watch p s (.interrupt dataLow) = { s with
      line := (next p s.line (.interrupt dataLow)).1
      irqs := ⟨s.ticks, poli dataLow, ring dataLow⟩ :: s.irqs
      idle := !s.line.ringing } := by
  rw [watch, if_pos told]

theorem tracked_interrupt (firmware : p.usePolrevFirmware = true) (tracked : Tracked s) (dataLow : BitVec 8) :
    Tracked (watch p s (.interrupt dataLow)) := by
  have interval := interrupt_interval firmware dataLow s.line
  have ringing := interrupt_ringing (p := p) dataLow s.line
  have upper := tracked.upper
  rw [POLARITY_LAST_INTERVAL_MAX] at upper
  cases told : poli dataLow || ring dataLow with
  | false =>
    rw [watch_silent told]
    refine tracked_congr tracked ?_ ringing
    rw [interval, heard, if_pos (Bool.or_eq_false_iff.mp told).1]
  | true =>
    rw [watch_heard told]
    have cases_ := heard_cases s.line.ringing (poli dataLow) (ring dataLow) s.line.polarityLastInterval
    rw [← interval] at cases_
    refine ⟨?_, ?_, ?_, fun waiting => ?_, fun burst => ?_, fun calm => ?_, ?_⟩
    · exact List.pairwise_cons.mpr ⟨tracked.past, tracked.sorted⟩
    · intro x member
      rcases List.mem_cons.mp member with rfl | old
      · exact le_rfl
      · exact tracked.past x old
    · dsimp only
      rw [POLARITY_LAST_INTERVAL_MAX]
      omega
    · dsimp only at waiting ⊢
      by_cases fresh : (next p s.line (.interrupt dataLow)).1.polarityLastInterval = 0
      · exact ⟨_, List.mem_cons_self, by rw [fresh, add_zero]⟩
      · have same : (next p s.line (.interrupt dataLow)).1.polarityLastInterval = s.line.polarityLastInterval := by omega
        rw [same] at waiting ⊢
        obtain ⟨x, member, when_⟩ := tracked.waits waiting
        exact ⟨x, List.mem_cons_of_mem _ member, when_⟩
    · dsimp only at burst ⊢
      rw [POLARITY_LAST_INTERVAL_NONE] at burst
      by_cases fresh : (next p s.line (.interrupt dataLow)).1.polarityLastInterval = -41
      · exact ⟨_, List.mem_cons_self, by rw [fresh]; exact add_zero _⟩
      · have same : (next p s.line (.interrupt dataLow)).1.polarityLastInterval = s.line.polarityLastInterval := by omega
        rw [same] at burst ⊢
        obtain ⟨x, member, when_⟩ := tracked.bursts burst
        exact ⟨x, List.mem_cons_of_mem _ member, when_⟩
    · dsimp only at calm ⊢
      rw [ringing]
      exact (Bool.not_eq_true' _).mp calm
    · intro e before list polarity alone calm far _
      dsimp only at list calm ⊢
      obtain ⟨rfl, rfl⟩ := List.cons.inj list
      dsimp only at polarity alone far ⊢
      have quiet := (Bool.not_eq_true' _).mp calm
      have idle : s.line.polarityLastInterval = -1 := by
        by_contra runs
        obtain ⟨x, member, recent⟩ := tracked_recent tracked runs
        apply far x member
        have earlier := tracked.past x member
        rw [near, POLARITY_LAST_INTERVAL_MAX]
        rw [POLARITY_LAST_INTERVAL_MAX] at recent
        dsimp only
        omega
      rw [interval, polarity, alone, quiet, idle]
      exact add_zero _

theorem tracked_next (firmware : p.usePolrevFirmware = true) (tracked : Tracked s) (op : Op) : Tracked (watch p s op) := by
  by_cases tick : op = .tick
  · rw [tick]
    exact tracked_tick firmware tracked
  · by_cases irq : ∃ dataLow, op = .interrupt dataLow
    · obtain ⟨dataLow, rfl⟩ := irq
      exact tracked_interrupt firmware tracked dataLow
    · exact tracked_other tracked tick fun dataLow same => irq ⟨dataLow, same⟩

end Invariant

section Steps
variable {p : Parms} {s : Watched}

theorem waiting_congr {line : Line} (waiting : Waiting s) (interval : line.polarityLastInterval = s.line.polarityLastInterval)
    (ringing : line.ringing = s.line.ringing) : Waiting { s with line := line } := by
  rw [Waiting]
  dsimp only
  rw [interval, ringing]
  exact waiting

theorem waiting_ended (ended : s.line.polarityLastInterval = -1) : Waiting s := by
  intro waits
  omega

/-- A tick keeps the wait unless a ring starts in it. -/
theorem waiting_tick (firmware : p.usePolrevFirmware = true) (tracked : Tracked s) (waiting : Waiting s) :
    Waiting (watch p s .tick) ↔ undisturbed s .tick := by
  have upper := tracked.upper
  rw [POLARITY_LAST_INTERVAL_MAX] at upper
  have rings : (next p s.line .tick).1.ringing =
      if s.line.ringDebounce = 1 then true else if s.line.ringDebounce = -1 then false else s.line.ringing :=
    tick_ringing p s.line
  rw [undisturbed, POLARITY_LAST_INTERVAL_MAX]
  constructor
  · intro after starts waits
    by_contra short
    have going : ¬ (s.line.ringDebounce = -1 ∧ s.line.ringing = true) := fun stop => absurd stop.1 (by omega)
    have up := tick_goes_on firmware going (by omega) (by omega)
    have quiet := (after (by rw [watch]; dsimp only; rw [up]; omega)).1
    rw [watch] at quiet
    dsimp only at quiet
    rw [rings, if_pos starts] at quiet
    cases quiet
  · intro allowed waits
    rw [watch] at waits ⊢
    dsimp only at waits ⊢
    obtain ended | ⟨runs, short, up⟩ := tick_counts firmware s.line
    · omega
    · obtain ⟨quiet, e, before, list, polarity, alone, when_, far⟩ := waiting (by omega)
      have not_starts : s.line.ringDebounce ≠ 1 := by
        intro starts
        have last := allowed starts (by omega)
        omega
      refine ⟨?_, e, before, list, polarity, alone, ?_, far⟩
      · rw [rings, if_neg not_starts, quiet]
        split <;> rfl
      · rw [up]
        push_cast
        omega

theorem waiting_interrupt (firmware : p.usePolrevFirmware = true) (tracked : Tracked s) (waiting : Waiting s)
    (dataLow : BitVec 8) : Waiting (watch p s (.interrupt dataLow)) ↔ undisturbed s (.interrupt dataLow) := by
  have interval := interrupt_interval firmware dataLow s.line
  have ringing := interrupt_ringing (p := p) dataLow s.line
  have upper := tracked.upper
  rw [POLARITY_LAST_INTERVAL_MAX] at upper
  rw [undisturbed]
  cases polarity : poli dataLow with
  | false =>
    rw [if_neg Bool.false_ne_true]
    rw [polarity, heard, if_pos rfl] at interval
    cases alone : ring dataLow with
    | false =>
      rw [watch_silent (by rw [polarity, alone]; rfl)]
      exact iff_of_true (waiting_congr waiting interval ringing) nofun
    | true =>
      rw [watch_heard (by rw [polarity, alone]; rfl)]
      constructor
      · intro after _
        by_contra waits
        obtain ⟨_, e, before, list, set, _⟩ := after (by dsimp only; omega)
        obtain ⟨rfl, rfl⟩ := List.cons.inj list
        exact Bool.false_ne_true (polarity.symm.trans set)
      · intro idle waits
        have before := idle rfl
        dsimp only at waits
        omega
  | true =>
    rw [if_pos rfl, watch_heard (by rw [polarity]; rfl)]
    have cases_ := heard_cases s.line.ringing (poli dataLow) (ring dataLow) s.line.polarityLastInterval
    rw [← interval] at cases_
    rcases cases_ with ⟨_, silent⟩ | ⟨ended, _, noisy⟩ | ⟨⟨_, quiet, alone⟩, counter⟩
    · exact absurd (polarity.symm.trans silent) (by decide)
    · refine iff_of_true (waiting_ended ended) fun quiet alone => ?_
      rcases noisy with rings | rings
      · exact absurd (rings.symm.trans quiet) (by decide)
      · exact absurd (rings.symm.trans alone) (by decide)
    · rw [POLARITY_LAST_INTERVAL_MAX, POLARITY_LAST_INTERVAL_NONE]
      rcases counter with ⟨idle, starts⟩ | ⟨runs, short, burst⟩ | ⟨last, same⟩
      · constructor
        · intro after _ _
          refine ⟨by omega, fun _ x member => ?_⟩
          obtain ⟨_, e, before, list, _, _, _, far⟩ := after (by dsimp only; omega)
          obtain ⟨rfl, rfl⟩ := List.cons.inj list
          have apart := far x member
          have earlier := tracked.past x member
          rw [near, POLARITY_LAST_INTERVAL_MAX] at apart
          dsimp only at apart
          omega
        · intro allowed _
          have far := (allowed quiet alone).2 idle
          refine ⟨?_, _, _, rfl, polarity, alone, ?_, fun x member near_ => ?_⟩
          · dsimp only
            rw [ringing, quiet]
          · dsimp only
            rw [starts, add_zero]
          · have apart := far x member
            rw [near, POLARITY_LAST_INTERVAL_MAX] at near_
            dsimp only at near_
            omega
      · refine iff_of_true (fun waits => ?_) fun _ _ => ⟨by omega, fun idle => absurd idle runs⟩
        dsimp only at waits
        omega
      · refine iff_of_false (fun after => ?_) fun allowed => (allowed quiet alone).1 (by omega)
        obtain ⟨_, e, before, list, _, _, when_, _⟩ := after (by dsimp only; omega)
        obtain ⟨rfl, rfl⟩ := List.cons.inj list
        dsimp only at when_
        omega

theorem waiting_next (firmware : p.usePolrevFirmware = true) (tracked : Tracked s) (waiting : Waiting s) (op : Op) :
    Waiting (watch p s op) ↔ undisturbed s op := by
  by_cases tick : op = .tick
  · rw [tick]
    exact waiting_tick firmware tracked waiting
  · by_cases irq : ∃ dataLow, op = .interrupt dataLow
    · obtain ⟨dataLow, rfl⟩ := irq
      exact waiting_interrupt firmware tracked waiting dataLow
    · have not_irq : ∀ dataLow, op ≠ .interrupt dataLow := fun dataLow same => irq ⟨dataLow, same⟩
      have allowed : undisturbed s op := by
        cases op with
        | tick => exact absurd rfl tick
        | interrupt dataLow => exact absurd rfl (not_irq dataLow)
        | sigChanged _ | voltage _ | current _ | sethook _ => trivial
      refine iff_of_true ?_ allowed
      rw [watch_other p s tick not_irq]
      rcases other_kept p s.line tick not_irq with ⟨interval, ringing⟩ | ⟨_, interval, _⟩
      · exact waiting_congr waiting interval ringing
      · exact waiting_ended interval

theorem isolated_head (tracked : Tracked s) {e : Irq} (isolated : Isolated s.irqs e) (now : due s e) :
    ∃ before, s.irqs = e :: before ∧ ∀ x ∈ before, ¬ near x e := by
  obtain ⟨_, _, after, before, list, _, far⟩ := isolated
  have sorted := tracked.sorted
  rw [list] at sorted
  rw [due, POLARITY_LAST_INTERVAL_MAX] at now
  cases after with
  | nil => exact ⟨before, list, far⟩
  | cons x after =>
    have later : e.time ≤ x.time :=
      (List.pairwise_cons.mp sorted).1 e (List.mem_append_right after List.mem_cons_self)
    have earlier : x.time ≤ s.ticks := tracked.past x (by rw [list]; exact List.mem_cons_self)
    refine absurd ?_ (far x List.mem_cons_self)
    rw [near, POLARITY_LAST_INTERVAL_MAX]
    omega

theorem filtered_of (firmware : p.usePolrevFirmware = true) (tracked : Tracked s) (waiting : Waiting s) : Filtered p s := by
  have upper := tracked.upper
  constructor
  · intro reported
    obtain ⟨_, full⟩ := (tick_reports firmware s.line).mp reported
    rw [POLARITY_LAST_INTERVAL_MAX] at upper full
    obtain ⟨quiet, e, before, list, polarity, alone, when_, far⟩ := waiting (by omega)
    refine ⟨quiet, e, ⟨polarity, alone, [], before, list, nofun, far⟩, ?_⟩
    rw [due, POLARITY_LAST_INTERVAL_MAX]
    omega
  · intro e isolated now calm
    obtain ⟨before, list, far⟩ := isolated_head tracked isolated now
    rw [due, POLARITY_LAST_INTERVAL_MAX] at now
    have count := tracked.isolated e before list isolated.1 isolated.2.1 calm far
      (by rw [POLARITY_LAST_INTERVAL_MAX]; omega)
    refine (tick_reports firmware s.line).mpr ?_
    rw [POLARITY_LAST_INTERVAL_MAX, POLARITY_LAST_INTERVAL_NONE]
    omega

end Steps

section Results

/-- As long as no wait is disturbed, a reversal is reported exactly for the isolated interrupts of a
    line that does not ring, once each, at the first tick after their wait. -/
theorem reversals_filtered {p : Parms} (firmware : p.usePolrevFirmware = true) {s : Watched}
    (reached : GuardedRun.Reach (watched p) undisturbed s) :
    Filtered p s ∧ ∀ op, Waiting (watch p s op) ↔ undisturbed s op := by
  have initial : ∀ s, (watched p).start s → Tracked s ∧ Waiting s := by
    rintro s rfl
    exact ⟨tracked_fresh, waiting_ended rfl⟩
  have kept : ∀ s op s', Tracked s ∧ Waiting s → undisturbed s op → (watched p).step s op s' → Tracked s' ∧ Waiting s' := by
    rintro s op s' ⟨tracked, waiting⟩ allowed rfl
    exact ⟨tracked_next firmware tracked op, (waiting_next firmware tracked waiting op).mpr allowed⟩
  obtain ⟨tracked, waiting⟩ := GuardedRun.invariant_run initial kept reached
  exact ⟨filtered_of firmware tracked waiting, waiting_next firmware tracked waiting⟩

/-- An interrupt is reported; the next one starts another wait. -/
theorem reversals_filtered_reports : ∃ s : Watched, reports defaultParms s ∧ s.irqs = [⟨41, true, false⟩, ⟨0, true, false⟩] ∧
    Filtered defaultParms s ∧ ∀ op, Waiting (watch defaultParms s op) ↔ undisturbed s op := by
  have view : (GuardedRun.follow (fun s op => some (watch defaultParms s op)) undisturbed
      (.interrupt 1 :: List.replicate 41 .tick ++ .interrupt 1 :: List.replicate 40 .tick) freshWatched).map
      (fun s => (decide (reports defaultParms s), s.irqs)) = some (true, [⟨41, true, false⟩, ⟨0, true, false⟩]) := by
    decide +kernel
  obtain ⟨s, followed, seen⟩ := Option.map_eq_some_iff.mp view
  rw [Prod.mk.injEq] at seen
  exact ⟨s, of_decide_eq_true seen.1, seen.2,
    reversals_filtered rfl (GuardedRun.follow_reach (fun _ _ _ moved => Option.some.inj moved) (.start rfl) followed)⟩

/-- A ring starts during the wait and the reversal is reported while the line rings; and a reversal
    is reported one tick after the last polarity interrupt. -/
theorem reported_anyway :
    (∃ s : Watched, GuardedRun.Reach (watched defaultParms) GuardedRun.anyStep s ∧ reports defaultParms s ∧
        s.line.ringing = true ∧ ¬ Filtered defaultParms s) ∧
      ∃ s : Watched, GuardedRun.Reach (watched defaultParms) GuardedRun.anyStep s ∧ reports defaultParms s ∧
        s.irqs = [⟨40, true, false⟩, ⟨0, true, false⟩] ∧ s.ticks = 40 ∧ ¬ Filtered defaultParms s := by
  constructor
  · have view : (GuardedRun.follow (fun s op => some (watch defaultParms s op)) GuardedRun.anyStep
        (.sigChanged true :: List.replicate 20 .tick ++ .interrupt 1 :: List.replicate 40 .tick) freshWatched).map
        (fun s => (decide (reports defaultParms s), s.line.ringing)) = some (true, true) := by
      decide +kernel
    obtain ⟨s, followed, seen⟩ := Option.map_eq_some_iff.mp view
    rw [Prod.mk.injEq] at seen
    have reported := of_decide_eq_true seen.1
    refine ⟨s, GuardedRun.follow_reach (fun _ _ _ moved => Option.some.inj moved) (.start rfl) followed, reported, seen.2, ?_⟩
    intro filtered
    exact Bool.false_ne_true ((filtered.only reported).1.symm.trans seen.2)
  · have view : (GuardedRun.follow (fun s op => some (watch defaultParms s op)) GuardedRun.anyStep
        (.interrupt 1 :: List.replicate 40 .tick ++ [.interrupt 1]) freshWatched).map
        (fun s => (decide (reports defaultParms s), s.irqs, s.ticks)) =
        some (true, [⟨40, true, false⟩, ⟨0, true, false⟩], 40) := by
      decide +kernel
    obtain ⟨s, followed, seen⟩ := Option.map_eq_some_iff.mp view
    rw [Prod.mk.injEq, Prod.mk.injEq] at seen
    obtain ⟨told, irqs, ticks⟩ := seen
    have reported := of_decide_eq_true told
    refine ⟨s, GuardedRun.follow_reach (fun _ _ _ moved => Option.some.inj moved) (.start rfl) followed, reported, irqs,
      ticks, fun filtered => ?_⟩
    obtain ⟨_, e, ⟨_, _, after, before, list, quiet, far⟩, now⟩ := filtered.only reported
    rw [due, ticks, POLARITY_LAST_INTERVAL_MAX] at now
    rw [irqs] at list
    cases after with
    | nil =>
      obtain ⟨rfl, _⟩ := List.cons.inj list
      exact absurd now (by decide)
    | cons x after =>
      obtain ⟨rfl, _⟩ := List.cons.inj list
      exact absurd (quiet _ List.mem_cons_self) (by decide)

end Results

end FxoPolarity
