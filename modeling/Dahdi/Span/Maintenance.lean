import Dahdi.Library.GuardedRun

/-!
The maintenance state of a span: DAHDI_MAINT as dahdi_ioctl_maint carries it out, and the
timer of the loop codes, which runs out in the tick.
-/
namespace Maintenance
open GuardedRun

section Code

structure Span where
  maintstat : Int
  mainttimer : Int
  deriving DecidableEq

/-- What a driver's maint does when it is called: what it returns, the state it sets, if it
    sets one, and whether it stops the timer. One that fails does nothing to the span. -/
structure Outcome where
  rv : Int
  stat : Option Int
  clears : Bool
  fails : rv ≠ 0 → stat = none ∧ clears = false

def call (m : Outcome) (s : Span) : Span :=
  { maintstat := m.stat.getD s.maintstat
    mainttimer := if m.clears then 0 else s.mainttimer }

def EINVAL : Int := 22
def ENOSYS : Int := 38

/-- DAHDI_LOOPCODE_TIME * DAHDI_CHUNKSIZE -/
def loopTime : Int := 10000 * 8

/-- DAHDI_MAINT_NONE, LOCALLOOP, NETWORKLINELOOP and NETWORKPAYLOADLOOP -/
def LineCommand (command : Int) : Prop := command = 0 ∨ command = 1 ∨ command = 2 ∨ command = 13

/-- DAHDI_MAINT_LOOPUP and LOOPDOWN -/
def LoopCode (command : Int) : Prop := command = 3 ∨ command = 4

/-- The defects, PRBS, DAHDI_RESET_COUNTERS and ALARM_SIM -/
def Generic (command : Int) : Prop := (6 ≤ command ∧ command ≤ 12) ∨ command = 14 ∨ command = 15

instance (command : Int) : Decidable (LineCommand command) :=
  inferInstanceAs (Decidable (command = 0 ∨ command = 1 ∨ command = 2 ∨ command = 13))

instance (command : Int) : Decidable (LoopCode command) :=
  inferInstanceAs (Decidable (command = 3 ∨ command = 4))

instance (command : Int) : Decidable (Generic command) :=
  inferInstanceAs (Decidable ((6 ≤ command ∧ command ≤ 12) ∨ command = 14 ∨ command = 15))

/-- Calls the driver and restores the state on an error. -/
def callOrRestore (m : Outcome) (i : Int) (s : Span) : Int × Span :=
  if m.rv ≠ 0 then (m.rv, { call m s with maintstat := i }) else (0, call m s)

/-- dahdi_ioctl_maint; found is whether there is a span of the number, maint what its
    driver does, none where the driver has no maint. -/
def ioctlMaint (found : Bool) (maint : Option Outcome) (command : Int) (s : Span) : Int × Span :=
  if !found then (-EINVAL, s)
  else
    match maint with
    | none => (-ENOSYS, s)
    | some m =>
      let i := s.maintstat
      let s := { s with maintstat := command }
      if LineCommand command then
        if i = command then (0, s) else callOrRestore m i s
      else if LoopCode command then callOrRestore m i { s with mainttimer := loopTime }
      else if Generic command then
        callOrRestore m i (if i = 0 then { s with maintstat := 0 } else s)
      else (-ENOSYS, { s with maintstat := i })

/-- The end of _dahdi_transmit -/
def tick (s : Span) : Span :=
  if s.mainttimer ≠ 0 then
    if s.mainttimer - 8 ≤ 0 then ⟨0, 0⟩ else { s with mainttimer := s.mainttimer - 8 }
  else s

/-- What a driver does that hears a loop code from the other side: the remote loop, or none. -/
def hear (up : Bool) (s : Span) : Span := { s with maintstat := if up then 2 else 0 }

end Code

section Runs

inductive Op where
  | maint (found : Bool) (maint : Option Outcome) (command : Int)
  | tick
  | hear (up : Bool)

def next (s : Span) : Op → Span
  | .maint found maint command => (ioctlMaint found maint command s).2
  | .tick => tick s
  | .hear up => hear up s

def sys : System Span Op := ⟨fun s => s = ⟨0, 0⟩, fun s op s' => s' = next s op⟩

/-- A timer that runs belongs to a loop code. -/
def Good (s : Span) : Prop := s.mainttimer ≠ 0 → LoopCode s.maintstat

/-- A request that fails changes nothing. -/
def Atomic (s : Span) : Op → Prop
  | .maint found maint command =>
    (ioctlMaint found maint command s).1 ≠ 0 → (ioctlMaint found maint command s).2 = s
  | _ => True

/-- Whether the driver is called for the command. -/
def Calls (s : Span) (command : Int) : Prop :=
  (LineCommand command ∧ s.maintstat ≠ command) ∨ LoopCode command ∨ Generic command

/-- A loop code does not fail but while the timer is as new, and a state that the timer is
    not for is not set while it runs, but where the driver stops it. -/
def FairCall (s : Span) (m : Outcome) (command : Int) : Prop :=
  (LoopCode command → m.rv ≠ 0 → s.mainttimer = loopTime) ∧
    (m.rv = 0 → m.clears = true ∨ (¬ LoopCode command ∧ s.mainttimer = 0) ∨
      LoopCode (m.stat.getD command))

def Fair (s : Span) : Op → Prop
  | .maint found maint command =>
    ∀ m, found = true → maint = some m → Calls s command → FairCall s m command
  | .tick => True
  | .hear _ => s.mainttimer = 0

end Runs

section Steps
variable {s : Span} {m : Outcome} {command : Int}

theorem call_fails (m : Outcome) (failed : m.rv ≠ 0) (s : Span) : call m s = s := by
  obtain ⟨stat, clears⟩ := m.fails failed
  rw [call, stat, clears]
  rfl

theorem restore_fails (failed : m.rv ≠ 0) (i : Int) (s : Span) :
    callOrRestore m i s = (m.rv, { s with maintstat := i }) := by
  rw [callOrRestore, if_pos failed, call_fails m failed]

theorem restore_done (done : m.rv = 0) (i : Int) (s : Span) : callOrRestore m i s = (0, call m s) := by
  rw [callOrRestore, if_neg (not_not.mpr done)]

theorem call_good (m : Outcome) (s : Span) : Good (call m s) ↔
    (m.clears = true ∨ s.mainttimer = 0 ∨ LoopCode (m.stat.getD s.maintstat)) := by
  unfold Good call
  cases m.clears <;> simp [← or_iff_not_imp_left]

theorem apart_codes (line : LineCommand command) : ¬ LoopCode command ∧ ¬ Generic command := by
  unfold LineCommand at line
  unfold LoopCode Generic
  omega

theorem loop_time : loopTime ≠ 0 := by decide

/-- A request is good that leaves a good state, and the state before if it fails. -/
def GoodRequest (s : Span) (done : Int × Span) : Prop := Good done.2 ∧ (done.1 ≠ 0 → done.2 = s)

theorem same_request (good : Good s) (rv : Int) : GoodRequest s (rv, s) := ⟨good, fun _ => rfl⟩

/-- A call from a state that the timer is not touched in. -/
theorem quiet_request (good : Good s) (other : ¬ LoopCode command) (set : Int)
    (same : set = command ∨ s.mainttimer = 0) :
    GoodRequest s (callOrRestore m s.maintstat { s with maintstat := set }) ↔ FairCall s m command := by
  by_cases failed : m.rv = 0
  · rw [restore_done failed, GoodRequest, call_good, FairCall]
    rcases same with same | stopped
    · rw [same]
      simp [failed, other]
    · simp [failed, other, stopped]
  · rw [restore_fails failed]
    exact iff_of_true (same_request good m.rv) ⟨fun loop => absurd loop other, fun done => absurd done failed⟩

/-- A call for a loop code, with the timer as new. -/
theorem loop_request (good : Good s) (loop : LoopCode command) :
    GoodRequest s (callOrRestore m s.maintstat ⟨command, loopTime⟩) ↔ FairCall s m command := by
  by_cases failed : m.rv = 0
  · rw [restore_done failed, GoodRequest, call_good, FairCall]
    simp [failed, loop, loop_time]
  · rw [restore_fails failed]
    constructor
    · intro request
      have same := congrArg Span.mainttimer (request.2 failed)
      exact ⟨fun _ _ => same.symm, fun done => absurd done failed⟩
    · intro fair
      have same : (⟨s.maintstat, loopTime⟩ : Span) = s := by rw [← fair.1 loop failed]
      have request := same_request good m.rv
      rw [← same] at request ⊢
      exact request

/-- What a request comes to that the driver may be called for. -/
theorem maint_request (good : Good s) :
    GoodRequest s (ioctlMaint true (some m) command s) ↔ (Calls s command → FairCall s m command) := by
  simp only [ioctlMaint, Bool.not_true, Bool.false_eq_true, if_false]
  by_cases line : LineCommand command
  · obtain ⟨other, notGeneric⟩ := apart_codes line
    rw [if_pos line]
    by_cases ignored : s.maintstat = command
    · rw [if_pos ignored, ← ignored]
      refine iff_of_true (same_request good 0) fun calls => ?_
      rcases calls with ⟨_, differs⟩ | loop | generic
      · exact absurd rfl differs
      · exact absurd (ignored ▸ loop) other
      · exact absurd (ignored ▸ generic) notGeneric
    · rw [if_neg ignored, quiet_request good other command (.inl rfl)]
      exact ⟨fun fair _ => fair, fun fair => fair (.inl ⟨line, ignored⟩)⟩
  · rw [if_neg line]
    by_cases loop : LoopCode command
    · rw [if_pos loop, loop_request good loop]
      exact ⟨fun fair _ => fair, fun fair => fair (.inr (.inl loop))⟩
    · rw [if_neg loop]
      by_cases generic : Generic command
      · rw [if_pos generic]
        have calls (fair : Calls s command → FairCall s m command) := fair (.inr (.inr generic))
        by_cases none_ : s.maintstat = 0
        · have stopped : s.mainttimer = 0 := by
            by_contra runs
            have loop := good runs
            rw [none_] at loop
            exact absurd loop (by decide)
          rw [if_pos none_]
          have request := @quiet_request s m command good loop 0 (.inr stopped)
          exact ⟨fun fair _ => request.mp fair, fun fair => request.mpr (calls fair)⟩
        · rw [if_neg none_, quiet_request good loop command (.inl rfl)]
          exact ⟨fun fair _ => fair, calls⟩
      · rw [if_neg generic]
        refine iff_of_true (same_request good (-ENOSYS)) fun called => ?_
        rcases called with ⟨line', _⟩ | loop' | generic'
        · exact absurd line' line
        · exact absurd loop' loop
        · exact absurd generic' generic

theorem step_good (good : Good s) (op : Op) : Good (next s op) ∧ Atomic s op ↔ Fair s op := by
  cases op with
  | tick =>
    refine iff_of_true ⟨?_, trivial⟩ trivial
    show Good (tick s)
    unfold tick
    split
    next runs =>
      split
      next => exact fun still => absurd rfl still
      next => exact fun _ => good runs
    next stopped => exact good
  | hear up =>
    have other : ¬ LoopCode (if up then 2 else 0) := by cases up <;> decide
    constructor
    · intro both
      by_contra runs
      exact other (both.1 runs)
    · intro stopped
      exact ⟨fun runs => absurd stopped runs, trivial⟩
  | maint found maint command =>
    cases found with
    | false => exact iff_of_true ⟨good, fun _ => rfl⟩ fun m found => absurd found Bool.false_ne_true
    | true =>
      cases maint with
      | none => exact iff_of_true ⟨good, fun _ => rfl⟩ fun m _ some_ => absurd some_ (Option.some_ne_none m).symm
      | some m =>
        have request := @maint_request s m command good
        constructor
        · intro both m' _ same
          rw [← Option.some.inj same]
          exact request.mp both
        · intro fair
          exact request.mpr (fair m rfl rfl)

/-- From any state, a request that fails changes nothing but for a loop code. -/
theorem atomic_iff (s : Span) (found : Bool) (maint : Option Outcome) (command : Int) :
    Atomic s (.maint found maint command) ↔
      ∀ m, found = true → maint = some m → LoopCode command → m.rv ≠ 0 → s.mainttimer = loopTime := by
  cases found with
  | false => exact iff_of_true (fun _ => rfl) fun m found => absurd found Bool.false_ne_true
  | true =>
    cases maint with
    | none => exact iff_of_true (fun _ => rfl) fun m _ some_ => absurd some_ (Option.some_ne_none m).symm
    | some m =>
      have once : (∀ m', true = true → some m = some m' → LoopCode command → m'.rv ≠ 0 →
          s.mainttimer = loopTime) ↔ (LoopCode command → m.rv ≠ 0 → s.mainttimer = loopTime) :=
        ⟨fun all => all m rfl rfl, fun here m' _ same => Option.some.inj same ▸ here⟩
      rw [once]
      simp only [Atomic, ioctlMaint, Bool.not_true, Bool.false_eq_true, if_false]
      have restores (other : ¬ LoopCode command) (set : Int) :
          ((callOrRestore m s.maintstat { s with maintstat := set }).1 ≠ 0 →
            (callOrRestore m s.maintstat { s with maintstat := set }).2 = s) ↔
          (LoopCode command → m.rv ≠ 0 → s.mainttimer = loopTime) := by
        refine iff_of_true (fun failed => ?_) fun loop => absurd loop other
        by_cases done : m.rv = 0
        · rw [restore_done done] at failed
          exact absurd rfl failed
        · rw [restore_fails done]
      by_cases line : LineCommand command
      · obtain ⟨other, _⟩ := apart_codes line
        rw [if_pos line]
        split
        next ignored => exact iff_of_true (fun failed => absurd rfl failed) fun loop => absurd loop other
        next => exact restores other command
      · rw [if_neg line]
        by_cases loop : LoopCode command
        · rw [if_pos loop]
          by_cases done : m.rv = 0
          · rw [restore_done done]
            exact iff_of_true (fun failed => absurd rfl failed) fun _ failed => absurd done failed
          · rw [restore_fails done]
            constructor
            · intro same _ _
              exact (congrArg Span.mainttimer (same done)).symm
            · intro same _
              rw [← same loop done]
        · rw [if_neg loop]
          by_cases generic : Generic command
          · rw [if_pos generic]
            split
            next => exact restores loop 0
            next => exact restores loop command
          · rw [if_neg generic]
            exact iff_of_true (fun _ => rfl) fun loop' => absurd loop' loop

end Steps

section Main

theorem reached_good {s : Span} (reached : Reach sys Fair s) : Good s := by
  apply @invariant_run _ _ sys Fair Good _ _ s reached
  · intro s begin_ runs
    have zero : s = ⟨0, 0⟩ := begin_
    exact absurd (congrArg Span.mainttimer zero) runs
  · intro s op s' good fair moved
    have eq : s' = next s op := moved
    rw [eq]
    exact ((step_good good op).mpr fair).1

theorem runs_out (k : Nat) {s : Span} (short : s.mainttimer ≤ 8 * k) (runs : s.mainttimer ≠ 0) :
    ∃ n, tick^[n] s = ⟨0, 0⟩ := by
  induction k generalizing s with
  | zero =>
    refine ⟨1, ?_⟩
    rw [Function.iterate_one, tick, if_pos runs, if_pos (by omega)]
  | succ k ih =>
    by_cases last : s.mainttimer - 8 ≤ 0
    · refine ⟨1, ?_⟩
      rw [Function.iterate_one, tick, if_pos runs, if_pos last]
    · have step : tick s = { s with mainttimer := s.mainttimer - 8 } := by
        rw [tick, if_pos runs, if_neg last]
      obtain ⟨n, out⟩ := @ih (tick s) (by rw [step]; dsimp only; omega) (by rw [step]; dsimp only; omega)
      exact ⟨n + 1, out⟩

/-- While no request disturbs the timer, a timer that runs belongs to a loop code, which it
    clears; and a request does that, or changes something though it fails, just when it is
    not fair. -/
theorem maintenance_kept (s : Span) :
    (Reach sys Fair s → Good s ∧ (s.mainttimer ≠ 0 → ∃ n, tick^[n] s = ⟨0, 0⟩)) ∧
    (∀ op s', Reach sys Fair s → sys.step s op s' → ((Good s' ∧ Atomic s op) ↔ Fair s op)) ∧
    (∀ found maint command, Atomic s (.maint found maint command) ↔
      ∀ m, found = true → maint = some m → LoopCode command → m.rv ≠ 0 → s.mainttimer = loopTime) := by
  refine ⟨fun reached => ⟨reached_good reached, ?_⟩, fun op s' reached moved => ?_, atomic_iff s⟩
  · exact runs_out s.mainttimer.toNat (by omega)
  · have eq : s' = next s op := moved
    rw [eq]
    exact step_good (reached_good reached) op

/-- A driver that does what it is asked for, and one that refuses. -/
def obeys : Outcome := ⟨0, none, false, fun failed => absurd rfl failed⟩

def refuses : Outcome := ⟨-ENOSYS, none, false, fun _ => ⟨rfl, rfl⟩⟩

/-- A loop code is sent, its time runs out, and a local loop is refused. -/
theorem loop_up_good : Good ⟨3, loopTime⟩ ∧ (∃ n, tick^[n] ⟨3, loopTime⟩ = ⟨0, 0⟩) ∧
    Atomic ⟨3, loopTime⟩ (.maint true (some refuses) 1) := by
  have fair : Fair ⟨0, 0⟩ (.maint true (some obeys) 3) := by
    intro m _ same _
    rw [← Option.some.inj same]
    exact ⟨fun _ failed => absurd rfl failed, fun _ => .inr (.inr (.inl rfl))⟩
  have reached : Reach sys Fair ⟨3, loopTime⟩ := by
    apply Reach.step (Reach.start rfl) fair
    exact rfl
  obtain ⟨holds, kept, -⟩ := maintenance_kept ⟨3, loopTime⟩
  have loops := holds reached
  have moved : sys.step ⟨3, loopTime⟩ (.maint true (some refuses) 1) ⟨3, loopTime⟩ := rfl
  refine ⟨loops.1, loops.2 loop_time, ((kept _ _ reached moved).mpr ?_).2⟩
  intro m _ same _
  rw [← Option.some.inj same]
  exact ⟨fun loop => absurd loop (by decide), fun done => absurd done (by decide)⟩

/-- A loop code that is refused leaves the timer running in normal mode, and so does ending
    one before its time. -/
theorem timer_left : ¬ Atomic ⟨0, 0⟩ (.maint true (some refuses) 3) ∧
    ∃ s, Reach sys anyStep s ∧ s = ⟨0, loopTime⟩ ∧ ¬ Good s := by
  have bad : ¬ Good ⟨0, loopTime⟩ := fun good => absurd (good loop_time) (by decide)
  constructor
  · intro same
    have timer := congrArg Span.mainttimer (same (by decide))
    exact absurd timer (by decide)
  · have first : Reach sys anyStep ⟨3, loopTime⟩ :=
      Reach.step (l := .maint true (some obeys) 3) (Reach.start rfl) trivial rfl
    exact ⟨⟨0, loopTime⟩, Reach.step (l := .maint true (some obeys) 0) first trivial rfl, rfl, bad⟩

end Main
end Maintenance
