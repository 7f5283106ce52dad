import Dahdi.Library.GuardedRun

/-!
The core timer, which does the work of the master span while no board driver does it,
and how well it keeps time.
-/
namespace CoreTimer
open GuardedRun
variable {W : Type}

structure Timespec where
  sec : Int
  nsec : Int

def nsecPerSec : Int := 1000000000

/-- The first loop of core_diff_ms. -/
def carry (sec nsec : Int) : Int × Int :=
  if nsecPerSec ≤ nsec then carry (sec + 1) (nsec - nsecPerSec) else (sec, nsec)
termination_by nsec.toNat
decreasing_by
  unfold nsecPerSec at *
  omega

/-- The second loop. -/
def borrow (sec nsec : Int) : Int × Int :=
  if nsec < 0 then borrow (sec - 1) (nsec + nsecPerSec) else (sec, nsec)
termination_by (-nsec).toNat
decreasing_by
  unfold nsecPerSec at *
  omega

def coreDiffMs (t0 t1 : Timespec) : Int :=
  let (sec, nsec) := carry (t1.sec - t0.sec) (t1.nsec - t0.nsec)
  let (sec, nsec) := borrow sec nsec
  sec * 1000 + nsec.tdiv 1000000

/-- How far ahead mod_timer sets the timer. -/
inductive Delay where
  | interval
  | onesec
  deriving DecidableEq, Repr

/-- The variable core_timer, and what _process_masterspan works on. -/
structure Core (W : Type) where
  startInterval : Timespec
  dahdiReceiveUsed : Bool
  count : Int
  lastCount : Int
  shutdown : Bool
  timer : Option Delay
  world : W

def maxInterval : Int := 100000
def msLimit : Int := 3000
def msecsPerChunk : Int := 1

def msecsProcessed (ct : Core W) : Int := ct.count * msecsPerChunk

def modTimer (ct : Core W) (delay : Delay) : Core W := if ct.shutdown then ct else { ct with timer := some delay }

/-- The counts and the time begin again. -/
def rebase (ct : Core W) (now : Timespec) : Core W := { ct with count := 0, lastCount := 0, startInterval := now }

section Code
variable (masterspan : W → W)

def processMasterspan (ct : Core W) : Core W := { ct with count := ct.count + 1, world := masterspan ct.world }

def catchUp (msSinceStart : Int) (ct : Core W) : Core W :=
  if msecsProcessed ct < msSinceStart then catchUp msSinceStart (processMasterspan masterspan ct) else ct
termination_by (msSinceStart - ct.count).toNat
decreasing_by
  simp only [processMasterspan, msecsProcessed, msecsPerChunk] at *
  omega

def coretimerFunc (ct : Core W) (now : Timespec) : Core W :=
  let ct := { ct with timer := none }
  if ct.count = ct.lastCount then
    let ct := modTimer { ct with dahdiReceiveUsed := false } .interval
    let msSinceStart := coreDiffMs ct.startInterval now
    let difference := msSinceStart - msecsProcessed ct
    if msLimit < difference ∨ difference < 0 then rebase ct now
    else
      let ct := catchUp masterspan msSinceStart ct
      if maxInterval < msSinceStart then rebase ct now else { ct with lastCount := ct.count }
  else modTimer (rebase { ct with dahdiReceiveUsed := true } now) .onesec

def coretimerInit (now : Timespec) (world : W) : Core W := ⟨now, false, 0, 0, false, some .interval, world⟩

def coretimerCleanup (ct : Core W) : Core W := { ct with shutdown := true, timer := none }

/-- The core timer and the time at which it went off last. -/
structure Clocked (W : Type) where
  core : Core W
  checked : Timespec

def Timespec.ns (t : Timespec) : Int := t.sec * nsecPerSec + t.nsec

/-- A board driver has received a chunk on the master span, or the timer goes off. -/
inductive Event where
  | receive
  | timer (now : Timespec)
  | cleanup

def next (s : Clocked W) : Event → Option (Clocked W)
  | .receive => some { s with core := processMasterspan masterspan s.core }
  | .timer now =>
    if s.core.timer.isSome ∧ s.checked.ns ≤ now.ns then some ⟨coretimerFunc masterspan s.core now, now⟩ else none
  | .cleanup => some { s with core := coretimerCleanup s.core }

def clocked : System (Clocked W) Event where
  start s := ∃ now world, s = ⟨coretimerInit now world, now⟩
  step s e s' := next masterspan s e = some s'

/-- The chunks that the timer makes up for when it goes off. -/
def made (ct : Core W) (now : Timespec) : Nat :=
  let difference := coreDiffMs ct.startInterval now - msecsProcessed ct
  if ct.count = ct.lastCount ∧ difference ≤ msLimit then difference.toNat else 0

def madeIn (s : Clocked W) : Event → Nat
  | .timer now => made s.core now
  | _ => 0

def receivedIn : Event → Nat
  | .receive => 1
  | _ => 0

/-- A run, the chunks that the timer made up for and those of board drivers. -/
inductive Run : Clocked W → Nat → Nat → Clocked W → Prop where
  | start (s : Clocked W) : Run s 0 0 s
  | step {s s' s'' : Clocked W} {k d : Nat} {e : Event} : Run s k d s' → next masterspan s' e = some s'' →
      Run s (k + madeIn s' e) (d + receivedIn e) s''

/-- A run in which the timer goes off in time and no board driver receives. -/
inductive Alone : Clocked W → Nat → Clocked W → Prop where
  | start (s : Clocked W) : Alone s 0 s
  | step {s s' s'' : Clocked W} {k : Nat} {now : Timespec} : Alone s k s' →
      now.ns - s'.checked.ns ≤ msLimit * 1000000 → next masterspan s' (.timer now) = some s'' →
      Alone s (k + made s'.core now) s''

end Code

section Diff

theorem carry_same (sec nsec : Int) : (carry sec nsec).1 * nsecPerSec + (carry sec nsec).2 = sec * nsecPerSec + nsec := by
  induction sec, nsec using carry.induct with
  | case1 sec nsec large ih =>
    rw [carry, if_pos large, ih]
    unfold nsecPerSec
    omega
  | case2 sec nsec small => rw [carry, if_neg small]

theorem borrow_same (sec nsec : Int) :
    (borrow sec nsec).1 * nsecPerSec + (borrow sec nsec).2 = sec * nsecPerSec + nsec ∧ 0 ≤ (borrow sec nsec).2 := by
  induction sec, nsec using borrow.induct with
  | case1 sec nsec negative ih =>
    rw [borrow, if_pos negative]
    refine ⟨ih.1.trans ?_, ih.2⟩
    unfold nsecPerSec
    omega
  | case2 sec nsec positive =>
    rw [borrow, if_neg positive]
    exact ⟨rfl, Int.not_lt.mp positive⟩

/-- core_diff_ms rounds down. -/
theorem diff_floor (t0 t1 : Timespec) : coreDiffMs t0 t1 = (t1.ns - t0.ns) / 1000000 := by
  have carried := carry_same (t1.sec - t0.sec) (t1.nsec - t0.nsec)
  unfold coreDiffMs
  generalize carry (t1.sec - t0.sec) (t1.nsec - t0.nsec) = first at carried
  obtain ⟨borrowed, positive⟩ := borrow_same first.1 first.2
  simp only
  generalize borrow first.1 first.2 = second at borrowed positive
  rw [Int.tdiv_eq_ediv_of_nonneg positive]
  unfold Timespec.ns nsecPerSec at *
  omega

end Diff

section Steps
variable {masterspan : W → W} {s s' : Clocked W} {ct : Core W} {now : Timespec}

theorem catchUp_is (masterspan : W → W) (ms : Int) (ct : Core W) : catchUp masterspan ms ct =
    { ct with count := max ct.count ms, world := masterspan^[(ms - ct.count).toNat] ct.world } := by
  induction ct using catchUp.induct masterspan ms with
  | case1 ct behind ih =>
    simp only [processMasterspan, msecsProcessed, msecsPerChunk] at behind ih
    have one : (ms - ct.count).toNat = (ms - (ct.count + 1)).toNat + 1 := by omega
    have larger : max (ct.count + 1) ms = max ct.count ms := by omega
    rw [catchUp, if_pos (by simpa only [msecsProcessed, msecsPerChunk] using behind), processMasterspan, ih, one,
      Function.iterate_succ_apply, larger]
  | case2 ct done =>
    simp only [msecsProcessed, msecsPerChunk, Int.mul_one, Int.not_lt] at done
    rw [catchUp, if_neg (by simpa only [msecsProcessed, msecsPerChunk, Int.mul_one, Int.not_lt] using done),
      Int.max_eq_left done, Int.toNat_of_nonpos (Int.sub_nonpos_of_le done)]
    rfl

/-- The timer has caught up and keeps its base. -/
structure Kept (ct ct' : Core W) (now : Timespec) : Prop where
  alone : ct.count = ct.lastCount
  base : ct'.startInterval = ct.startInterval
  count : ct'.count = coreDiffMs ct.startInterval now
  last : ct'.lastCount = coreDiffMs ct.startInterval now
  short : coreDiffMs ct.startInterval now ≤ maxInterval
  later : ct.count ≤ coreDiffMs ct.startInterval now

/-- The timer begins again, perhaps because it has run for so long. -/
structure Based (ct ct' : Core W) (now : Timespec) : Prop where
  base : ct'.startInterval = now
  count : ct'.count = 0
  last : ct'.lastCount = 0
  why : (ct.count = ct.lastCount → ct.count ≤ coreDiffMs ct.startInterval now →
    msLimit < coreDiffMs ct.startInterval now - ct.count) ∨ maxInterval < coreDiffMs ct.startInterval now

/-- What the timer does when it goes off. -/
theorem func_cases (masterspan : W → W) (ct : Core W) (now : Timespec) :
    (coretimerFunc masterspan ct now).world = masterspan^[made ct now] ct.world ∧
      (Kept ct (coretimerFunc masterspan ct now) now ∨ Based ct (coretimerFunc masterspan ct now) now) := by
  have armed : ∀ (ct : Core W) (delay : Delay), ∃ timer, modTimer ct delay = { ct with timer := timer } := by
    intro ct delay
    unfold modTimer
    split
    · exact ⟨ct.timer, rfl⟩
    · exact ⟨some delay, rfl⟩
  unfold coretimerFunc
  simp only
  by_cases alone : ct.count = ct.lastCount
  · rw [if_pos alone]
    obtain ⟨timer, is⟩ := armed { ct with timer := none, dahdiReceiveUsed := false } .interval
    rw [is]
    simp only [msecsProcessed, msecsPerChunk, Int.mul_one]
    by_cases shifted : msLimit < coreDiffMs ct.startInterval now - ct.count ∨
        coreDiffMs ct.startInterval now - ct.count < 0
    · have none_ : made ct now = 0 := by
        simp only [made, msecsProcessed, msecsPerChunk, Int.mul_one]
        split <;> omega
      rw [if_pos shifted, none_]
      exact ⟨rfl, .inr ⟨rfl, rfl, rfl, .inl fun _ later => by omega⟩⟩
    · have some_ : made ct now = (coreDiffMs ct.startInterval now - ct.count).toNat := by
        simp only [made, msecsProcessed, msecsPerChunk, Int.mul_one]
        exact if_pos ⟨alone, by omega⟩
      rw [if_neg shifted, catchUp_is]
      by_cases long : maxInterval < coreDiffMs ct.startInterval now
      · rw [if_pos long, some_]
        exact ⟨rfl, .inr ⟨rfl, rfl, rfl, .inr long⟩⟩
      · rw [if_neg long, some_]
        have later : ct.count ≤ coreDiffMs ct.startInterval now := by omega
        have all : max ct.count (coreDiffMs ct.startInterval now) = coreDiffMs ct.startInterval now :=
          Int.max_eq_right later
        exact ⟨rfl, .inl ⟨alone, rfl, all, all, Int.not_lt.mp long, later⟩⟩
  · have none_ : made ct now = 0 := if_neg fun both => alone both.1
    rw [if_neg alone, none_]
    obtain ⟨timer, is⟩ := armed (rebase { ct with timer := none, dahdiReceiveUsed := true } now) .onesec
    rw [is]
    exact ⟨rfl, .inr ⟨rfl, rfl, rfl, .inl fun same => absurd same alone⟩⟩

/-- The nanoseconds that no chunk has been processed for when the timer went off last. -/
def behind (s : Clocked W) : Int :=
  s.checked.ns - s.core.startInterval.ns - s.core.lastCount * 1000000

/-- What holds of the core timer at all times. -/
structure Timed (s : Clocked W) : Prop where
  behind : 0 ≤ behind s ∧ behind s < 1000000
  last : 0 ≤ s.core.lastCount ∧ s.core.lastCount ≤ maxInterval

theorem based_behind {ct : Core W} (based : Based ct s.core s.checked) : behind s = 0 := by
  rw [behind, based.base, based.last]
  omega

theorem kept_behind {ct : Core W} (kept : Kept ct s.core s.checked) :
    behind s = (s.checked.ns - ct.startInterval.ns) % 1000000 := by
  rw [behind, kept.base, kept.last, diff_floor]
  omega

theorem timed_next {e : Event} (timed : Timed s) (moved : next masterspan s e = some s') : Timed s' := by
  cases e with
  | receive =>
    obtain rfl := Option.some.inj moved
    exact ⟨timed.behind, timed.last⟩
  | cleanup =>
    obtain rfl := Option.some.inj moved
    exact ⟨timed.behind, timed.last⟩
  | timer now =>
    obtain ⟨⟨_, later⟩, is⟩ := Option.ite_none_right_eq_some.mp moved
    obtain rfl := Option.some.inj is
    obtain ⟨_, kept | based⟩ := func_cases masterspan s.core now
    · have rest := @kept_behind _ ⟨coretimerFunc masterspan s.core now, now⟩ _ kept
      have last := kept.last
      have count := kept.later
      rw [kept.alone] at count
      refine ⟨?_, ?_⟩
      · rw [rest]
        exact ⟨Int.emod_nonneg _ (by decide), Int.emod_lt_of_pos _ (by decide)⟩
      · simp only
        rw [last]
        exact ⟨Int.le_trans timed.last.1 count, kept.short⟩
    · have rest := @based_behind _ ⟨coretimerFunc masterspan s.core now, now⟩ _ based
      refine ⟨?_, ?_⟩
      · rw [rest]
        decide
      · simp only
        rw [based.last]
        decide

theorem timed_reached (reached : Reach (clocked masterspan) anyStep s) : Timed s := by
  apply @invariant_run _ _ (clocked masterspan) anyStep Timed
  · rintro s ⟨now, world, rfl⟩
    have none_ : behind ⟨coretimerInit now world, now⟩ = 0 := by
      simp [behind, coretimerInit]
    exact ⟨by rw [none_]; decide, by simp [coretimerInit, maxInterval]⟩
  · intro t e t' timed _ moved
    exact timed_next timed moved
  · exact reached

theorem made_limited (ct : Core W) (now : Timespec) :
    made ct now = 0 ∨ ct.count = ct.lastCount ∧ (made ct now : Int) = coreDiffMs ct.startInterval now - ct.count := by
  simp only [made, msecsProcessed, msecsPerChunk, Int.mul_one]
  split <;> omega

/-- The time that a step takes, against the chunks that the timer makes up for in it. -/
theorem step_behind {e : Event} (timed : Timed s) (moved : next masterspan s e = some s') :
    s'.core.world = masterspan^[madeIn s e + receivedIn e] s.core.world ∧
      (madeIn s e : Int) * 1000000 + behind s' ≤ s'.checked.ns - s.checked.ns + behind s := by
  cases e with
  | receive =>
    obtain rfl := Option.some.inj moved
    refine ⟨rfl, ?_⟩
    simp [madeIn, behind, processMasterspan]
  | cleanup =>
    obtain rfl := Option.some.inj moved
    refine ⟨rfl, ?_⟩
    simp [madeIn, behind, coretimerCleanup]
  | timer now =>
    obtain ⟨⟨_, later⟩, is⟩ := Option.ite_none_right_eq_some.mp moved
    obtain rfl := Option.some.inj is
    obtain ⟨world, kept | based⟩ := func_cases masterspan s.core now
    · refine ⟨world, ?_⟩
      have made_ := made_limited s.core now
      have later' := kept.later
      have same := kept.alone
      simp only [madeIn, behind, kept.base, kept.last]
      rw [diff_floor] at made_ later' ⊢
      omega
    · refine ⟨world, ?_⟩
      have made_ := made_limited s.core now
      have old := timed.behind
      have rest := @based_behind _ ⟨coretimerFunc masterspan s.core now, now⟩ _ based
      rw [rest]
      simp only [madeIn]
      unfold behind at *
      rw [diff_floor] at made_
      omega

/-- In whatever order board drivers and the timer do the work of the master span, the
    timer does it for no more chunks than milliseconds have passed. -/
theorem never_ahead {k d : Nat} (reached : Reach (clocked masterspan) anyStep s) (run : Run masterspan s k d s') :
    s'.core.world = masterspan^[k + d] s.core.world ∧
      (k : Int) * 1000000 < s'.checked.ns - s.checked.ns + 1000000 := by
  have timed := timed_reached reached
  suffices law : Timed s' ∧ s'.core.world = masterspan^[k + d] s.core.world ∧
      (k : Int) * 1000000 + behind s' ≤ s'.checked.ns - s.checked.ns + behind s by
    have before := timed.behind
    have after := law.1.behind
    exact ⟨law.2.1, by omega⟩
  induction run with
  | start =>
    refine ⟨timed, rfl, ?_⟩
    simp
  | @step t t' k d e _ moved ih =>
    obtain ⟨timed', world, law⟩ := ih
    obtain ⟨world', law'⟩ := step_behind timed' moved
    refine ⟨timed_next timed' moved, ?_, by push_cast; omega⟩
    have counted : k + madeIn t e + (d + receivedIn e) = madeIn t e + receivedIn e + (k + d) := by omega
    rw [world', world, counted]
    exact (Function.iterate_add_apply masterspan _ _ _).symm

/-- How long the timer has run since it began again. -/
def age (s : Clocked W) : Int := s.checked.ns - s.core.startInterval.ns

/-- The timer goes off in time and by itself: less than a millisecond is lost, and that
    only when it begins again. -/
theorem alone_step (timed : Timed s) (alone : s.core.count = s.core.lastCount)
    (prompt : now.ns - s.checked.ns ≤ msLimit * 1000000) (moved : next masterspan s (.timer now) = some s') :
    s'.core.count = s'.core.lastCount ∧ ∃ r : Nat,
      s'.checked.ns - s.checked.ns + behind s ≤ (made s.core now : Int) * 1000000 + behind s' + r * 999999 ∧
      (r : Int) * 100001000000 + age s' ≤ s'.checked.ns - s.checked.ns + age s := by
  obtain ⟨⟨_, later⟩, is⟩ := Option.ite_none_right_eq_some.mp moved
  obtain rfl := Option.some.inj is
  have old := timed.behind
  unfold behind at old
  have floor := diff_floor s.core.startInterval now
  have due : s.core.count ≤ coreDiffMs s.core.startInterval now ∧
      coreDiffMs s.core.startInterval now - s.core.count ≤ msLimit := by
    unfold msLimit at *
    omega
  have made_ : (made s.core now : Int) = coreDiffMs s.core.startInterval now - s.core.count := by
    simp only [made, msecsProcessed, msecsPerChunk, Int.mul_one]
    rw [if_pos ⟨alone, due.2⟩]
    omega
  obtain ⟨_, kept | based⟩ := func_cases masterspan s.core now
  · refine ⟨kept.count.trans kept.last.symm, 0, ?_, ?_⟩
    · simp only [behind, kept.base, kept.last]
      omega
    · simp only [age, kept.base]
      omega
  · have long : maxInterval < coreDiffMs s.core.startInterval now :=
      based.why.resolve_left fun shifted => absurd (shifted alone due.1) (Int.not_lt.mpr due.2)
    unfold maxInterval at long
    refine ⟨based.count.trans based.last.symm, 1, ?_, ?_⟩
    · simp only [behind, based.base, based.last]
      omega
    · simp only [age, based.base]
      omega

/-- A core timer that was just set up, and its first four milliseconds. -/
def begun : Clocked Nat := ⟨coretimerInit ⟨0, 0⟩ 0, ⟨0, 0⟩⟩
def soon : Clocked Nat := ⟨coretimerFunc Nat.succ begun.core ⟨0, 4000000⟩, ⟨0, 4000000⟩⟩

theorem made_soon : made begun.core ⟨0, 4000000⟩ = 4 := by
  simp only [made, diff_floor]
  decide

theorem soon_next : next Nat.succ begun (.timer ⟨0, 4000000⟩) = some soon := by
  rw [next]
  exact if_pos ⟨rfl, by decide⟩

theorem never_ahead_soon : (processMasterspan Nat.succ soon.core).world = 5 := by
  have run : Run Nat.succ begun _ _ { soon with core := processMasterspan Nat.succ soon.core } :=
    .step (e := .receive) (.step (.start begun) soon_next) rfl
  have four : madeIn begun (.timer ⟨0, 4000000⟩) = 4 := made_soon
  rw [(never_ahead (Reach.start ⟨_, _, rfl⟩) run).1, four]
  rfl

end Steps
end CoreTimer
