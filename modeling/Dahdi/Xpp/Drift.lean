import Dahdi.Xpp.Syncer
import Dahdi.Library.GuardedRun

/-!
The clock of an Astribank in PLL mode against the reference: the tickers and xpp_drift_step
of xbus-pcm.c, which samples the distance of the two and asks for a speed at each full cycle.
-/
namespace Drift
open Syncer (SyncMode INT_MAX)

section Data

def SYNC_CYCLE : Int := 500
def SYNC_CYCLE_SAMPLE : Int := 100
def SYNC_CONVERGE : Int := 10
def SYNC_CENTER : Int := 500
def SYNC_DELTA : Int := 40
def SYNC_ADJ_MAX : Int := 20
def SYNC_ADJ_QUICK : Int := 1000
def SYNC_ADJ_SLOW : Int := 10000

/-- What a C int and a C long keep of a value. -/
def int (x : Int) : Int := x.bmod (2 ^ 32)
def long (x : Int) : Int := x.bmod (2 ^ 64)

structure Timeval where
  tvSec : Int
  tvUsec : Int
  deriving DecidableEq

def usecDiff (tv1 tv2 : Timeval) : Int :=
  long ((tv1.tvSec - tv2.tvSec) * 1000000 + (tv1.tvUsec - tv2.tvUsec))

/-- struct xpp_ticker -/
structure Ticker where
  count : Int
  cycle : Int
  firstSample : Timeval
  lastSample : Timeval
  tickPeriod : Int
  deriving DecidableEq

/-- struct xpp_drift -/
structure DriftInfo where
  deltaTick : Int
  lostTicks : Int
  lostTickCount : Int
  syncInaccuracy : Int
  lastLostTick : Timeval
  deltaSum : Int
  offsetPrev : Int
  offsetRange : Int
  offsetMin : Int
  offsetMax : Int
  minSpeed : Int
  maxSpeed : Int
  deriving DecidableEq

/-- What of an xbus has to do with its clock, the drifts sent to it, and whether a BUG_ON
    was hit. -/
structure Xbus where
  ticker : Ticker
  drift : DriftInfo
  syncMode : SyncMode
  syncAdjustment : Int
  syncAdjustmentOffset : Int
  sent : List Int
  bugged : Bool
  deriving DecidableEq

/-- A tick: its time, the reference ticker when there is one and it is not that of the bus,
    whether there is a syncer and whether it is this bus, and disable_pll_sync. -/
structure Env where
  tv : Timeval
  now : Timeval
  reference : Option Ticker
  syncer : Bool
  isSyncer : Bool
  disablePllSync : Bool

end Data

section Code

def tickerSetCycle (ticker : Ticker) (cycle : Int) : Ticker :=
  let cycle := if cycle < SYNC_ADJ_QUICK then SYNC_ADJ_QUICK else cycle
  let cycle := if SYNC_ADJ_SLOW < cycle then SYNC_ADJ_SLOW else cycle
  { ticker with cycle }

def xppTickerInit (now : Timeval) : Ticker := tickerSetCycle ⟨0, 0, now, now, 0⟩ SYNC_ADJ_QUICK

def xppTickerStep (ticker : Ticker) (tv : Timeval) : Ticker :=
  let ticker := { ticker with lastSample := tv }
  let ticker :=
    if ticker.count.tmod ticker.cycle = ticker.cycle - 1 then
      { ticker with
        firstSample := ticker.lastSample
        tickPeriod := int ((usecDiff ticker.lastSample ticker.firstSample).tdiv ticker.cycle) }
    else ticker
  { ticker with count := int (ticker.count + 1) }

def xbusDriftClear (now : Timeval) (x : Xbus) : Xbus :=
  { x with
    ticker := tickerSetCycle x.ticker SYNC_ADJ_QUICK
    drift := { x.drift with lastLostTick := now, maxSpeed := -SYNC_ADJ_MAX, minSpeed := SYNC_ADJ_MAX } }

def xppDriftInit (now : Timeval) (x : Xbus) : Xbus :=
  xbusDriftClear now { x with ticker := xppTickerInit now, drift := ⟨0, 0, 0, 0, ⟨0, 0⟩, 0, 0, 0, 0, 0, 0, 0⟩ }

def sendDrift (env : Env) (drift : Int) (x : Xbus) : Xbus :=
  let x := { x with bugged := x.bugged || SYNC_ADJ_MAX < |drift| }
  if !env.disablePllSync then { x with sent := x.sent ++ [drift] } else x

/-- The speed asked for at an offset, from the best one and the one in force. -/
def speedFor (offset offsetPrev bestSpeed syncAdjustment : Int) : Int :=
  let speed :=
    if 0 < offset ∧ offset < SYNC_DELTA then bestSpeed - 1
    else if offset < 0 ∧ -SYNC_DELTA < offset then bestSpeed + 1
    else
      let fix : Int :=
        if 0 < offset then (if offsetPrev < offset then -1 else 0)
        else (if offset < offsetPrev then 1 else 0)
      syncAdjustment + fix
  let speed := if speed < -SYNC_ADJ_MAX then -SYNC_ADJ_MAX else speed
  if SYNC_ADJ_MAX < speed then SYNC_ADJ_MAX else speed

def offsetOf (deltaSum : Int) : Int := int (deltaSum.tdiv SYNC_CYCLE_SAMPLE - SYNC_CENTER)

def bestSpeed (di : DriftInfo) : Int := (di.maxSpeed + di.minSpeed) >>> (1 : Nat)

def widen (di : DriftInfo) (speed offset : Int) : DriftInfo :=
  { di with
    minSpeed := if speed < di.minSpeed then speed else di.minSpeed
    maxSpeed := if di.maxSpeed < speed then speed else di.maxSpeed
    offsetMax := if di.offsetMax < offset then offset else di.offsetMax
    offsetMin := if offset < di.offsetMin then offset else di.offsetMin }

def converge (di : DriftInfo) (best : Int) : DriftInfo :=
  { di with
    offsetRange := int (di.offsetMax - di.offsetMin)
    offsetMin := INT_MAX
    offsetMax := -INT_MAX
    maxSpeed := if best < di.maxSpeed then di.maxSpeed - 1 else di.maxSpeed
    minSpeed := if di.minSpeed < best then di.minSpeed + 1 else di.minSpeed }

/-- A full sampling cycle has passed. -/
def fullCycle (env : Env) (x : Xbus) : Xbus :=
  let offset := offsetOf x.drift.deltaSum
  let best := bestSpeed x.drift
  let speed := speedFor offset x.drift.offsetPrev best x.syncAdjustment
  let x := { x with drift := widen x.drift speed offset, syncAdjustmentOffset := speed }
  let x := if !env.isSyncer ∧ x.syncAdjustment ≠ speed then sendDrift env speed x else x
  let x := { x with drift := { x.drift with syncInaccuracy := int (|offset| + |x.drift.offsetRange|.tdiv 2) } }
  let x := if SYNC_CYCLE * SYNC_CONVERGE ≤ x.ticker.count then { x with drift := converge x.drift best } else x
  { x with drift := { x.drift with offsetPrev := offset, deltaSum := 0 } }

def lostSome (env : Env) (reference : Ticker) (lostTicks : Int) (x : Xbus) : Xbus :=
  let x := { x with drift := { x.drift with
    lostTicks := int (x.drift.lostTicks + 1)
    lostTickCount := int (x.drift.lostTickCount + int |lostTicks|) } }
  if 100 < int |lostTicks| then
    let x := xbusDriftClear env.now x
    { x with ticker := { x.ticker with count := reference.count } }
  else x

def sampleDelta (env : Env) (usecDelta : Int) (x : Xbus) : Xbus :=
  let x :=
    if SYNC_CYCLE - SYNC_CYCLE_SAMPLE < x.ticker.count.tmod SYNC_CYCLE then
      { x with drift := { x.drift with deltaSum := long (x.drift.deltaSum + usecDelta) } }
    else x
  if x.ticker.count.tmod SYNC_CYCLE = 0 then fullCycle env x else x

def xppDriftStep (env : Env) (x : Xbus) : Xbus :=
  let x := { x with ticker := xppTickerStep x.ticker env.tv }
  match env.reference with
  | none => x
  | some reference =>
    if env.syncer ∧ x.syncMode = .pll then
      let newDeltaTick := int (x.ticker.count - reference.count)
      let lostTicks := int (newDeltaTick - x.drift.deltaTick)
      let x := { x with drift := { x.drift with deltaTick := newDeltaTick } }
      if lostTicks ≠ 0 then lostSome env reference lostTicks x
      else sampleDelta env (usecDiff x.ticker.lastSample reference.lastSample) x
    else x

end Code

section Runs

/-- What a tick does: nothing for the drift, the loss of many ticks, or a sample. -/
inductive Verdict where
  | idle | jumped | sampled (usecDelta : Int)
  deriving DecidableEq

def deltaAt (env : Env) (reference : Ticker) : Int := usecDiff env.tv reference.lastSample

def stepped (env : Env) (x : Xbus) : Int := int (x.ticker.count + 1)

def lostAt (env : Env) (reference : Ticker) (x : Xbus) : Int :=
  int (int (stepped env x - reference.count) - x.drift.deltaTick)

def verdict (env : Env) (x : Xbus) : Verdict :=
  match env.reference with
  | none => .idle
  | some reference =>
    if env.syncer ∧ x.syncMode = .pll then
      if lostAt env reference x ≠ 0 then
        if 100 < int |lostAt env reference x| then .jumped else .idle
      else .sampled (deltaAt env reference)
    else .idle

/-- A delta, the tick it was sampled at, of all there have been, and the count of the bus. -/
structure Sample where
  tick : Nat
  count : Int
  delta : Int
  deriving DecidableEq

def total (samples : List Sample) : Int := (samples.map Sample.delta).sum

/-- The samples of the last ticks of a cycle that ends at a tick. -/
def window (last : Nat) (samples : List Sample) : List Sample :=
  samples.filter fun s => last - SYNC_CYCLE_SAMPLE < (s.tick : Int)

/-- The samples that go into the sum. -/
def late (samples : List Sample) : List Sample :=
  samples.filter fun s => SYNC_CYCLE - SYNC_CYCLE_SAMPLE < s.count.tmod SYNC_CYCLE

/-- The truncated mean of the samples, about the center. -/
def meanOffset (samples : List Sample) : Int := (total samples).tdiv samples.length - SYNC_CENTER

/-- A completed cycle: the offset computed and the samples of its last ticks. -/
structure Cycle where
  offset : Int
  sampled : List Sample
  deriving DecidableEq

/-- A bus with the number of its ticks, the samples of the cycle at hand, what cycles cut
    short left in the sum, and the cycles completed. -/
structure Run where
  bus : Xbus
  ticks : Nat
  samples : List Sample
  left : Int
  cycles : List Cycle

inductive Op where
  | tick (env : Env)
  | clear (now : Timeval)
  | reply (mode : SyncMode) (drift : Int)
  | activate (now : Timeval)

def closes (count : Int) : Prop := count.tmod SYNC_CYCLE = 0

instance (count : Int) : Decidable (closes count) := inferInstanceAs (Decidable (_ = _))

/-- The cycle at hand is cut short. -/
def cutShort (r : Run) : Run := { r with samples := [], left := r.left + total (late r.samples) }

def record (env : Env) (r : Run) : Run :=
  let count := stepped env r.bus
  let bus := xppDriftStep env r.bus
  let r := { r with ticks := r.ticks + 1 }
  match verdict env r.bus with
  | .jumped => { cutShort r with bus }
  | .idle => if closes count then { cutShort r with bus } else { r with bus }
  | .sampled usecDelta =>
    let samples := r.samples ++ [⟨r.ticks, count, usecDelta⟩]
    if closes count then
      ⟨bus, r.ticks, [], 0, r.cycles ++ [⟨bus.drift.offsetPrev, window r.ticks samples⟩]⟩
    else { r with bus, samples }

def next (r : Run) (op : Op) : Run :=
  match op with
  | .tick env => record env r
  | .clear now => { r with bus := xbusDriftClear now r.bus }
  | .reply mode drift => { r with bus := { r.bus with syncMode := mode, syncAdjustment := drift.bmod (2 ^ 8) } }
  | .activate now => { r with bus := xppDriftInit now r.bus, samples := [], left := 0 }

/-- A bus just allocated and activated. -/
def fresh (now : Timeval) (mode : SyncMode) : Run :=
  ⟨xppDriftInit now ⟨xppTickerInit now, ⟨0, 0, 0, 0, ⟨0, 0⟩, 0, 0, 0, 0, 0, 0, 0⟩, mode, 0, 0, [], false⟩, 0, [], 0, []⟩

def sys : GuardedRun.System Run Op := ⟨fun r => ∃ now mode, r = fresh now mode, fun r op r' => next r op = r'⟩

def InRange (speed : Int) : Prop := -SYNC_ADJ_MAX ≤ speed ∧ speed ≤ SYNC_ADJ_MAX

structure SpeedsOk (x : Xbus) : Prop where
  minSpeed : InRange x.drift.minSpeed
  maxSpeed : InRange x.drift.maxSpeed
  requested : InRange x.syncAdjustmentOffset
  sent : ∀ drift ∈ x.sent, InRange drift
  unbugged : x.bugged = false

/-- Every cycle completed has the mean of its last ticks for its offset, and the speeds are in
    their range. -/
structure Good (r : Run) : Prop where
  offsets : ∀ c ∈ r.cycles, c.offset = meanOffset c.sampled
  speeds : SpeedsOk r.bus

/-- Of a tick that completes a cycle: what cycles cut short left and the samples at the counts
    above 400 come, over a hundred, to the mean of the last hundred ticks, the one at hand
    among them. -/
def evenAt (count : Int) (r : Run) (v : Verdict) : Prop :=
  match v with
  | .sampled usecDelta =>
    closes count →
      int ((long (r.left + total (late r.samples))).tdiv SYNC_CYCLE_SAMPLE - SYNC_CENTER) =
        meanOffset (window (r.ticks + 1) (r.samples ++ [⟨r.ticks + 1, count, usecDelta⟩]))
  | .idle | .jumped => True

def evenWindow (r : Run) (op : Op) : Prop :=
  match op with
  | .tick env => evenAt (stepped env r.bus) r (verdict env r.bus)
  | .clear _ | .reply _ _ | .activate _ => True

end Runs

section Speeds
variable {x : Xbus} {env : Env}

theorem speedFor_range (offset offsetPrev best adjustment : Int) :
    InRange (speedFor offset offsetPrev best adjustment) := by
  have clamped (speed : Int) : InRange
      (let low := if speed < -SYNC_ADJ_MAX then -SYNC_ADJ_MAX else speed
       if SYNC_ADJ_MAX < low then SYNC_ADJ_MAX else low) := by
    simp only [InRange, SYNC_ADJ_MAX]
    omega
  exact clamped _

theorem best_range {di : DriftInfo} (low : InRange di.minSpeed) (high : InRange di.maxSpeed) :
    InRange (bestSpeed di) := by
  have halved : bestSpeed di = (di.maxSpeed + di.minSpeed) / 2 := Int.shiftRight_eq_div_pow _ 1
  simp only [InRange, SYNC_ADJ_MAX, halved] at *
  omega

theorem widen_range {di : DriftInfo} {speed : Int} (offset : Int) (within : InRange speed)
    (low : InRange di.minSpeed) (high : InRange di.maxSpeed) :
    InRange (widen di speed offset).minSpeed ∧ InRange (widen di speed offset).maxSpeed := by
  simp only [widen]
  constructor
  · split
    next => exact within
    next => exact low
  · split
    next => exact within
    next => exact high

/-- The limits come one closer, but not past the best speed. -/
theorem converge_range {di : DriftInfo} {best : Int} (within : InRange best) (low : InRange di.minSpeed)
    (high : InRange di.maxSpeed) :
    InRange (converge di best).minSpeed ∧ InRange (converge di best).maxSpeed := by
  simp only [converge, InRange, SYNC_ADJ_MAX] at *
  omega

theorem highest : InRange SYNC_ADJ_MAX := ⟨by decide, by decide⟩

theorem lowest : InRange (-SYNC_ADJ_MAX) := ⟨by decide, by decide⟩

theorem neutral : InRange 0 := ⟨by decide, by decide⟩

theorem clear_ok (now : Timeval) (ok : SpeedsOk x) : SpeedsOk (xbusDriftClear now x) :=
  ⟨highest, lowest, ok.requested, ok.sent, ok.unbugged⟩

theorem init_ok (now : Timeval) (ok : SpeedsOk x) : SpeedsOk (xppDriftInit now x) :=
  ⟨highest, lowest, ok.requested, ok.sent, ok.unbugged⟩

theorem sendDrift_ok {drift : Int} (within : InRange drift) (ok : SpeedsOk x) :
    SpeedsOk (sendDrift env drift x) := by
  have small : ¬ SYNC_ADJ_MAX < |drift| := not_lt.mpr (abs_le.mpr within)
  have unbugged : (x.bugged || decide (SYNC_ADJ_MAX < |drift|)) = false := by
    rw [ok.unbugged, decide_eq_false small, Bool.or_false]
  rw [sendDrift]
  dsimp only
  split
  next =>
    refine ⟨ok.minSpeed, ok.maxSpeed, ok.requested, ?_, unbugged⟩
    intro sent mem
    rcases List.mem_append.mp mem with old | new
    · exact ok.sent sent old
    · rw [List.mem_singleton.mp new]
      exact within
  next => exact ⟨ok.minSpeed, ok.maxSpeed, ok.requested, ok.sent, unbugged⟩

theorem fullCycle_ok (ok : SpeedsOk x) : SpeedsOk (fullCycle env x) := by
  let speed := speedFor (offsetOf x.drift.deltaSum) x.drift.offsetPrev (bestSpeed x.drift) x.syncAdjustment
  have within : InRange speed := speedFor_range _ _ _ _
  have best := best_range ok.minSpeed ok.maxSpeed
  have wide := widen_range (offsetOf x.drift.deltaSum) within ok.minSpeed ok.maxSpeed
  have asked : SpeedsOk { x with
      drift := widen x.drift speed (offsetOf x.drift.deltaSum), syncAdjustmentOffset := speed } :=
    ⟨wide.1, wide.2, within, ok.sent, ok.unbugged⟩
  have told (told : Xbus) (fine : SpeedsOk told) (inaccuracy offset : Int) :
      SpeedsOk
        (let y : Xbus := { told with drift := { told.drift with syncInaccuracy := inaccuracy } }
         let y := if SYNC_CYCLE * SYNC_CONVERGE ≤ y.ticker.count then
           { y with drift := converge y.drift (bestSpeed x.drift) } else y
         { y with drift := { y.drift with offsetPrev := offset, deltaSum := 0 } }) := by
    have near := @converge_range { told.drift with syncInaccuracy := inaccuracy } _
      best fine.minSpeed fine.maxSpeed
    dsimp only
    split
    next => exact ⟨near.1, near.2, fine.requested, fine.sent, fine.unbugged⟩
    next => exact ⟨fine.minSpeed, fine.maxSpeed, fine.requested, fine.sent, fine.unbugged⟩
  rw [fullCycle]
  apply told
  split
  next => exact sendDrift_ok within asked
  next => exact asked

theorem fullCycle_sum : (fullCycle env x).drift.deltaSum = 0 := rfl

theorem fullCycle_offset : (fullCycle env x).drift.offsetPrev = offsetOf x.drift.deltaSum := rfl

end Speeds

section Steps
variable {x : Xbus} {env : Env}

/-- What a tick does to the sum, by what it does for the drift. -/
theorem lostSome_ok {reference : Ticker} {lost : Int} (ok : SpeedsOk x) : SpeedsOk (lostSome env reference lost x) := by
  have counted : SpeedsOk { x with drift := { x.drift with
      lostTicks := int (x.drift.lostTicks + 1)
      lostTickCount := int (x.drift.lostTickCount + int |lost|) } } :=
    ⟨ok.minSpeed, ok.maxSpeed, ok.requested, ok.sent, ok.unbugged⟩
  rw [lostSome]
  dsimp only
  split
  next =>
    have cleared := clear_ok env.now counted
    exact ⟨cleared.minSpeed, cleared.maxSpeed, cleared.requested, cleared.sent, cleared.unbugged⟩
  next => exact counted

theorem lostSome_sum (reference : Ticker) (lost : Int) : (lostSome env reference lost x).drift.deltaSum = x.drift.deltaSum := by
  rw [lostSome]
  dsimp only
  split <;> rfl

/-- Nothing but the sum changes at a sample that does not complete the cycle. -/
theorem sampleDelta_kept {usecDelta : Int} (open_ : ¬ closes x.ticker.count) :
    ∃ deltaSum, sampleDelta env usecDelta x = { x with drift := { x.drift with deltaSum } } := by
  have not_full : ¬ x.ticker.count.tmod SYNC_CYCLE = 0 := open_
  rw [sampleDelta]
  dsimp only
  split
  next => exact ⟨_, rfl⟩
  next => exact ⟨x.drift.deltaSum, rfl⟩

theorem sampleDelta_ok {usecDelta : Int} (ok : SpeedsOk x) : SpeedsOk (sampleDelta env usecDelta x) := by
  have summed : SpeedsOk { x with drift := { x.drift with deltaSum := long (x.drift.deltaSum + usecDelta) } } :=
    ⟨ok.minSpeed, ok.maxSpeed, ok.requested, ok.sent, ok.unbugged⟩
  rw [sampleDelta]
  dsimp only
  split <;> split
  · exact fullCycle_ok summed
  · exact summed
  · exact fullCycle_ok ok
  · exact ok

/-- A sample that does not complete the cycle goes into the sum when it is late enough. -/
theorem sampleDelta_open {usecDelta : Int} (open_ : ¬ closes x.ticker.count) :
    (sampleDelta env usecDelta x).drift.deltaSum =
      if SYNC_CYCLE - SYNC_CYCLE_SAMPLE < x.ticker.count.tmod SYNC_CYCLE then long (x.drift.deltaSum + usecDelta)
      else x.drift.deltaSum := by
  have not_full : ¬ x.ticker.count.tmod SYNC_CYCLE = 0 := open_
  rw [sampleDelta]
  dsimp only
  split
  next => rfl
  next => rfl

/-- The sample that completes the cycle does not go into the sum. -/
theorem sampleDelta_closes {usecDelta : Int} (full : closes x.ticker.count) :
    sampleDelta env usecDelta x = fullCycle env x := by
  have early : ¬ SYNC_CYCLE - SYNC_CYCLE_SAMPLE < x.ticker.count.tmod SYNC_CYCLE := by
    rw [closes] at full
    rw [full]
    decide
  rw [sampleDelta, if_neg early]
  exact if_pos full

end Steps

section Cases
variable {x : Xbus} {env : Env}

def counted (env : Env) (x : Xbus) : Xbus := { x with ticker := xppTickerStep x.ticker env.tv }

theorem tick_count (ticker : Ticker) (tv : Timeval) : (xppTickerStep ticker tv).count = int (ticker.count + 1) := by
  simp only [xppTickerStep]
  split <;> rfl

theorem tick_last (ticker : Ticker) (tv : Timeval) : (xppTickerStep ticker tv).lastSample = tv := by
  simp only [xppTickerStep]
  split <;> rfl

theorem counted_ok (ok : SpeedsOk x) : SpeedsOk (counted env x) :=
  ⟨ok.minSpeed, ok.maxSpeed, ok.requested, ok.sent, ok.unbugged⟩

/-- The bus with its distance from the reference brought up to date. -/
def compared (env : Env) (reference : Ticker) (x : Xbus) : Xbus :=
  { counted env x with drift := { x.drift with deltaTick := int (stepped env x - reference.count) } }

theorem compared_ok {reference : Ticker} (ok : SpeedsOk x) : SpeedsOk (compared env reference x) :=
  ⟨ok.minSpeed, ok.maxSpeed, ok.requested, ok.sent, ok.unbugged⟩

theorem step_eq (env : Env) (x : Xbus) : xppDriftStep env x =
    match env.reference with
    | none => counted env x
    | some reference =>
      if env.syncer ∧ x.syncMode = .pll then
        if lostAt env reference x ≠ 0 then lostSome env reference (lostAt env reference x) (compared env reference x)
        else sampleDelta env (deltaAt env reference) (compared env reference x)
      else counted env x := by
  have count := tick_count x.ticker env.tv
  have last := tick_last x.ticker env.tv
  rw [xppDriftStep.eq_def]
  cases env.reference with
  | none => rfl
  | some reference =>
    simp only [compared, counted, lostAt, deltaAt, stepped]
    rw [count, last]
    rfl

/-- What a tick does, by what it is for the drift. -/
theorem step_cases (env : Env) (x : Xbus) :
    (verdict env x = .idle ∧ xppDriftStep env x = counted env x) ∨
    (∃ reference, verdict env x = (if 100 < int |lostAt env reference x| then .jumped else .idle) ∧
      xppDriftStep env x = lostSome env reference (lostAt env reference x) (compared env reference x)) ∨
    (∃ reference, lostAt env reference x = 0 ∧ verdict env x = .sampled (deltaAt env reference) ∧
      xppDriftStep env x = sampleDelta env (deltaAt env reference) (compared env reference x)) := by
  rw [step_eq, verdict.eq_def]
  cases env.reference with
  | none => exact .inl ⟨rfl, rfl⟩
  | some reference =>
    dsimp only
    split
    next =>
      split
      next => exact .inr (.inl ⟨reference, rfl, rfl⟩)
      next same => exact .inr (.inr ⟨reference, not_not.mp same, rfl, rfl⟩)
    next => exact .inl ⟨rfl, rfl⟩

theorem unsampled_sum (unsampled : ∀ usecDelta, verdict env x ≠ .sampled usecDelta) :
    (xppDriftStep env x).drift.deltaSum = x.drift.deltaSum := by
  obtain ⟨_, stays⟩ | ⟨reference, _, loses⟩ | ⟨reference, _, sampled, _⟩ := step_cases env x
  · rw [stays]
    rfl
  · rw [loses]
    exact lostSome_sum _ _
  · exact absurd sampled (unsampled _)

theorem sampled_step {usecDelta : Int} (sampled : verdict env x = .sampled usecDelta) :
    ∃ reference, lostAt env reference x = 0 ∧
      xppDriftStep env x = sampleDelta env usecDelta (compared env reference x) := by
  obtain ⟨idle, _⟩ | ⟨reference, lost, _⟩ | ⟨reference, none_lost, same, samples⟩ := step_cases env x
  · rw [sampled] at idle
    cases idle
  · rw [sampled] at lost
    split at lost <;> cases lost
  · rw [sampled] at same
    rw [Verdict.sampled.inj same]
    exact ⟨reference, none_lost, samples⟩

theorem compared_count (reference : Ticker) : (compared env reference x).ticker.count = stepped env x :=
  tick_count _ _

theorem sampled_open {usecDelta : Int} (sampled : verdict env x = .sampled usecDelta)
    (open_ : ¬ closes (stepped env x)) : (xppDriftStep env x).drift.deltaSum =
      if SYNC_CYCLE - SYNC_CYCLE_SAMPLE < (stepped env x).tmod SYNC_CYCLE then long (x.drift.deltaSum + usecDelta)
      else x.drift.deltaSum := by
  obtain ⟨reference, _, samples⟩ := sampled_step sampled
  rw [← compared_count reference] at open_ ⊢
  rw [samples, sampleDelta_open open_]
  rfl

theorem sampled_closes {usecDelta : Int} (sampled : verdict env x = .sampled usecDelta)
    (full : closes (stepped env x)) :
    (xppDriftStep env x).drift.deltaSum = 0 ∧ (xppDriftStep env x).drift.offsetPrev = offsetOf x.drift.deltaSum := by
  obtain ⟨reference, _, samples⟩ := sampled_step sampled
  rw [← compared_count reference] at full
  rw [samples, sampleDelta_closes full]
  exact ⟨fullCycle_sum, fullCycle_offset⟩

theorem step_ok (ok : SpeedsOk x) : SpeedsOk (xppDriftStep env x) := by
  obtain ⟨_, stays⟩ | ⟨reference, _, loses⟩ | ⟨reference, _, _, samples⟩ := step_cases env x
  · rw [stays]
    exact counted_ok ok
  · rw [loses]
    exact lostSome_ok (compared_ok ok)
  · rw [samples]
    exact sampleDelta_ok (compared_ok ok)

end Cases

section Runs

theorem long_add (a b : Int) : long (long a + b) = long (a + b) := Int.bmod_add_bmod

theorem total_append (a b : List Sample) : total (a ++ b) = total a + total b := by
  rw [total, total, total, List.map_append, List.sum_append]

theorem late_append (a b : List Sample) : late (a ++ b) = late a ++ late b := List.filter_append a b

theorem late_one (s : Sample) : total (late [s]) =
    if SYNC_CYCLE - SYNC_CYCLE_SAMPLE < s.count.tmod SYNC_CYCLE then s.delta else 0 := by
  rw [late, List.filter_singleton]
  split
  next counts =>
    rw [decide_eq_true counts]
    exact Int.add_zero s.delta
  next early =>
    rw [decide_eq_false early]
    rfl

/-- The sum of the driver is that of the samples that are late in their cycles. -/
def Summed (r : Run) : Prop := r.bus.drift.deltaSum = long (r.left + total (late r.samples))

theorem cutShort_sum {r : Run} (summed : Summed r) :
    r.bus.drift.deltaSum = long ((cutShort r).left + total (late (cutShort r).samples)) := by
  rw [summed]
  exact congrArg long (Int.add_zero _).symm

theorem tick_sum {r : Run} (env : Env) (summed : Summed r) : Summed (record env r) := by
  have cut := cutShort_sum summed
  rw [Summed, record]
  dsimp only
  cases seen : verdict env r.bus with
  | idle =>
    have same := @unsampled_sum r.bus env (by simp [seen])
    dsimp only
    split
    next => exact same.trans cut
    next => exact same.trans summed
  | jumped =>
    have same := @unsampled_sum r.bus env (by simp [seen])
    exact same.trans cut
  | sampled usecDelta =>
    dsimp only
    split
    next full => exact (sampled_closes seen full).1
    next open_ =>
      rw [sampled_open seen open_, late_append, total_append, late_one]
      dsimp only
      split
      next => rw [summed, long_add, Int.add_assoc]
      next => rw [summed, Int.add_zero]

theorem next_sum {r : Run} (op : Op) (summed : Summed r) : Summed (next r op) := by
  cases op with
  | tick env => exact tick_sum env summed
  | clear now => exact summed
  | reply mode drift => exact summed
  | activate now => rfl

theorem reached_sum {guard : Run → Op → Prop} {r : Run} (reached : GuardedRun.Reach sys guard r) : Summed r := by
  refine GuardedRun.invariant_run ?_ ?_ reached
  · rintro _ ⟨now, mode, rfl⟩
    rfl
  · intro r op r' summed _ moved
    rw [← moved]
    exact next_sum op summed

theorem next_speeds {r : Run} (op : Op) (ok : SpeedsOk r.bus) : SpeedsOk (next r op).bus := by
  cases op with
  | tick env =>
    have stepped_ok := @step_ok _ env ok
    rw [next, record]
    dsimp only
    split
    next => exact stepped_ok
    next => split <;> exact stepped_ok
    next => split <;> exact stepped_ok
  | clear now => exact clear_ok now ok
  | reply mode drift => exact ⟨ok.minSpeed, ok.maxSpeed, ok.requested, ok.sent, ok.unbugged⟩
  | activate now => exact init_ok now ok

theorem fresh_speeds (now : Timeval) (mode : SyncMode) : SpeedsOk (fresh now mode).bus :=
  ⟨highest, lowest, neutral, fun _ mem => absurd mem List.not_mem_nil, rfl⟩

/-- The cycles that a step adds. -/
theorem next_cycles {r : Run} (op : Op) (summed : Summed r) (good : ∀ c ∈ r.cycles, c.offset = meanOffset c.sampled) :
    (∀ c ∈ (next r op).cycles, c.offset = meanOffset c.sampled) ↔ evenWindow r op := by
  cases op with
  | tick env =>
    rw [next, record, evenWindow]
    dsimp only
    cases seen : verdict env r.bus with
    | idle =>
      dsimp only
      split <;> exact iff_of_true good trivial
    | jumped => exact iff_of_true good trivial
    | sampled usecDelta =>
      dsimp only
      split
      next full =>
        rw [(sampled_closes seen full).2, summed, offsetOf]
        constructor
        · intro all _
          exact all _ (List.mem_append_right _ (List.mem_singleton.mpr rfl))
        · intro even c mem
          rcases List.mem_append.mp mem with old | new
          · exact good c old
          · rw [List.mem_singleton.mp new]
            exact even full
      next open_ => exact iff_of_true good (fun full => absurd full open_)
  | clear now => exact iff_of_true good trivial
  | reply mode drift => exact iff_of_true good trivial
  | activate now => exact iff_of_true good trivial

theorem next_good {r : Run} {op : Op} (summed : Summed r) (good : Good r) : Good (next r op) ↔ evenWindow r op := by
  rw [← next_cycles op summed good.offsets]
  exact ⟨Good.offsets, fun all => ⟨all, next_speeds op good.speeds⟩⟩

theorem reached_speeds {guard : Run → Op → Prop} {r : Run} (reached : GuardedRun.Reach sys guard r) :
    SpeedsOk r.bus := by
  refine @GuardedRun.invariant_run _ _ sys guard (fun r => SpeedsOk r.bus) ?_ ?_ _ reached
  · rintro _ ⟨now, mode, rfl⟩
    exact fresh_speeds now mode
  · intro r op r' ok _ moved
    rw [← moved]
    exact next_speeds op ok

theorem reached_good {r : Run} (reached : GuardedRun.Reach sys evenWindow r) : Good r := by
  induction reached with
  | start begins =>
    obtain ⟨now, mode, rfl⟩ := begins
    exact ⟨fun _ mem => absurd mem List.not_mem_nil, fresh_speeds now mode⟩
  | step before even moved ih =>
    rw [← moved]
    exact (next_good (reached_sum before) ih).mpr even

/-- The speeds are in range in every run. The offsets are means as long as cycles are completed
    by ticks with an even window, and no longer. -/
theorem offset_mean {r : Run} (reached : GuardedRun.Reach sys GuardedRun.anyStep r) :
    SpeedsOk r.bus ∧ (GuardedRun.Reach sys evenWindow r →
      Good r ∧ ∀ op r', next r op = r' → (Good r' ↔ evenWindow r op)) := by
  refine ⟨reached_speeds reached, fun even => ?_⟩
  have good := reached_good even
  refine ⟨good, fun op r' moved => ?_⟩
  rw [← moved]
  exact next_good (reached_sum even) good

instance (count : Int) (r : Run) (v : Verdict) : Decidable (evenAt count r v) :=
  match v with
  | .sampled usecDelta =>
    inferInstanceAs (Decidable (closes count →
      int ((long (r.left + total (late r.samples))).tdiv SYNC_CYCLE_SAMPLE - SYNC_CENTER) =
        meanOffset (window (r.ticks + 1) (r.samples ++ [⟨r.ticks + 1, count, usecDelta⟩]))))
  | .idle | .jumped => isTrue trivial

instance (r : Run) (op : Op) : Decidable (evenWindow r op) :=
  match op with
  | .tick env => inferInstanceAs (Decidable (evenAt (stepped env r.bus) r (verdict env r.bus)))
  | .clear _ | .reply _ _ | .activate _ => isTrue trivial

def epoch : Timeval := ⟨0, 0⟩

/-- A tick a millisecond after the last one, with the reference at the same count and so many
    microseconds behind. -/
def steadyTick (usecDelta : Int) (k : Nat) : Op :=
  .tick ⟨⟨0, 1000 * k + usecDelta⟩, epoch, some ⟨k + 1, SYNC_ADJ_QUICK, epoch, ⟨0, 1000 * k⟩, 0⟩, true, false, false⟩

def begun : Run := fresh epoch .pll

theorem begun_starts : sys.start begun := ⟨epoch, .pll, rfl⟩

section Steady
variable {usecDelta : Int} {k : Nat} {r : Run}

/-- A bus after so many steady ticks. -/
structure Steady (usecDelta : Int) (k : Nat) (r : Run) : Prop where
  count : r.bus.ticker.count = k
  deltaTick : r.bus.drift.deltaTick = 0
  pll : r.bus.syncMode = .pll
  ticks : r.ticks = k
  samples : r.samples = (List.range k).map fun (i : Nat) => ⟨i + 1, i + 1, usecDelta⟩
  left : r.left = 0
  cycles : r.cycles = []

theorem begun_steady : Steady usecDelta 0 begun := ⟨rfl, rfl, rfl, rfl, rfl, rfl, rfl⟩

/-- A steady tick is sampled: no tick is lost and the reference is as far off as before. -/
theorem steady_verdict (steady : Steady usecDelta k r) (few : k < 500) (low : 0 ≤ usecDelta)
    (high : usecDelta ≤ 500) {env : Env} (tick : .tick env = steadyTick usecDelta k) :
    stepped env r.bus = k + 1 ∧ verdict env r.bus = .sampled usecDelta := by
  cases tick
  have count : int (r.bus.ticker.count + 1) = k + 1 := by
    rw [steady.count]
    exact Int.bmod_eq_of_le (by omega) (by omega)
  have apart : usecDiff ⟨0, 1000 * k + usecDelta⟩ ⟨0, 1000 * k⟩ = usecDelta := by
    have seconds : ((0 : Int) - 0) * 1000000 + (1000 * k + usecDelta - 1000 * k) = usecDelta := by omega
    rw [usecDiff, seconds]
    exact Int.bmod_eq_of_le (by omega) (by omega)
  have kept : int (int (int (r.bus.ticker.count + 1) - (k + 1)) - r.bus.drift.deltaTick) = 0 := by
    rw [count, steady.deltaTick, Int.sub_self]
    rfl
  refine ⟨count, ?_⟩
  rw [verdict]
  simp only [lostAt, stepped, deltaAt]
  rw [apart]
  exact (if_pos ⟨trivial, steady.pll⟩).trans (if_neg (not_not_intro kept))

theorem steady_open (few : k < 499) : ¬ closes (k + 1) := by
  rw [closes, Int.tmod_eq_emod_of_nonneg (by omega), SYNC_CYCLE]
  omega

theorem steady_next (steady : Steady usecDelta k r) (few : k < 499) (low : 0 ≤ usecDelta)
    (high : usecDelta ≤ 500) : Steady usecDelta (k + 1) (next r (steadyTick usecDelta k)) := by
  obtain ⟨count, sampled⟩ := steady_verdict steady (by omega) low high rfl
  have open_ := steady_open few
  rw [← count] at open_
  obtain ⟨reference, none_lost, moved⟩ := sampled_step sampled
  rw [lostAt, steady.deltaTick, Int.sub_zero] at none_lost
  have same : int (stepped _ r.bus - reference.count) = 0 := Int.bmod_bmod.symm.trans none_lost
  rw [← compared_count reference] at open_
  obtain ⟨deltaSum, kept⟩ := @sampleDelta_kept _ _ usecDelta open_
  rw [kept] at moved
  rw [steadyTick, next, record, sampled]
  dsimp only
  rw [count, if_neg (steady_open few), moved, steady.samples, steady.ticks]
  constructor
  · exact ((compared_count reference).trans count).trans (Nat.cast_succ k).symm
  · exact same
  · exact steady.pll
  · rfl
  · rw [List.range_succ, List.map_append]
    rfl
  · exact steady.left
  · exact steady.cycles

theorem steady_ticks (few : k ≤ 499) (low : 0 ≤ usecDelta) (high : usecDelta ≤ 500) :
    ∃ r, GuardedRun.Reach sys evenWindow r ∧ Steady usecDelta k r := by
  induction k with
  | zero => exact ⟨begun, .start begun_starts, begun_steady⟩
  | succ k ih =>
    obtain ⟨r, reached, steady⟩ := ih (by omega)
    obtain ⟨count, sampled⟩ := steady_verdict steady (by omega) low high rfl
    have even : evenWindow r (steadyTick usecDelta k) := by
      rw [steadyTick, evenWindow, sampled, count]
      exact fun full => absurd full (steady_open (by omega))
    exact ⟨_, .step reached even rfl, steady_next steady (by omega) low high⟩

/-- The cycle that the last of 500 steady ticks completes. -/
def lastCycle (usecDelta : Int) : Cycle :=
  let before := (List.range 499).map fun (i : Nat) => (⟨i + 1, i + 1, usecDelta⟩ : Sample)
  ⟨offsetOf (long (total (late before))), window 500 (before ++ [⟨500, 500, usecDelta⟩])⟩

theorem steady_last (reached : GuardedRun.Reach sys evenWindow r) (steady : Steady usecDelta 499 r)
    (low : 0 ≤ usecDelta) (high : usecDelta ≤ 500) :
    (next r (steadyTick usecDelta 499)).cycles = [lastCycle usecDelta] := by
  obtain ⟨count, sampled⟩ := steady_verdict steady (by decide) low high rfl
  have full : closes (((499 : Nat) : Int) + 1) := rfl
  have sum := reached_sum reached
  rw [Summed, steady.left, steady.samples, Int.zero_add] at sum
  have offset := (sampled_closes sampled (count ▸ full)).2
  rw [sum] at offset
  rw [steadyTick, next, record, sampled]
  dsimp only
  rw [count, if_pos full, offset, steady.cycles, steady.samples, steady.ticks]
  rfl

end Steady

/-- A cycle in step with the reference. -/
theorem offset_mean_still : ∃ r, r.cycles.map Cycle.offset = [-500] ∧ Good r := by
  obtain ⟨r, before, steady⟩ := @steady_ticks 0 499 (by decide) (by decide) (by decide)
  obtain ⟨count, sampled⟩ := steady_verdict steady (by decide) (by decide) (by decide) rfl
  have last := steady_last before steady (by decide) (by decide)
  have even : evenWindow r (steadyTick 0 499) := by
    rw [steadyTick, evenWindow, sampled, count, evenAt, steady.left, steady.samples, steady.ticks]
    exact fun _ => by decide +kernel
  have after := GuardedRun.Reach.step before even rfl
  have reached := GuardedRun.reach_mono (fun _ _ _ => trivial) after
  refine ⟨next r (steadyTick 0 499), ?_, ((offset_mean reached).2 after).1⟩
  rw [last]
  decide +kernel

/-- The reference stays 500 microseconds behind, and the offset comes out at -5. -/
theorem steady_offset : ¬ ∀ r, GuardedRun.Reach sys GuardedRun.anyStep r → Good r := by
  intro always
  obtain ⟨r, before, steady⟩ := @steady_ticks 500 499 (by decide) (by decide) (by decide)
  have last := steady_last before steady (by decide) (by decide)
  have reached : GuardedRun.Reach sys GuardedRun.anyStep r :=
    GuardedRun.reach_mono (fun _ _ _ => trivial) before
  have good := always (next r (steadyTick 500 499)) (.step reached trivial rfl)
  have equal := good.offsets (lastCycle 500) (last ▸ List.mem_singleton_self _)
  have apart : (lastCycle 500).offset ≠ meanOffset (lastCycle 500).sampled := by decide +kernel
  exact apart equal

end Runs

end Drift
