import Dahdi.Library.LeakyBucket
import Dahdi.Library.GuardedRun

/-!
The queue of the commands to an Astribank: send_cmd_frame puts frames in, and
xbus_command_queue_tick takes them out as the budget of the ticks allows.
-/
namespace CommandQueue
open LeakyBucket (Event fills leaks)

section Code

structure Frame where
  usecTowait : Nat
  deriving DecidableEq

/-- Handed to the transport, or freed instead. -/
inductive Fate where
  | sent | dropped
  deriving DecidableEq

/-- The command queue of an xbus, the pass of the tick that is on, what was accepted, and what
    became of the frames that have left the queue. -/
structure Xbus where
  connected : Bool
  disabled : Bool
  maxCount : Nat
  commandQueue : List Frame
  usecNosend : Int
  packno : Option Nat
  accepted : List Frame
  fates : List (Frame × Fate)
  deriving DecidableEq

def ENODEV : Int := 19
def E2BIG : Int := 7

def xframeEnqueue (f : Frame) (x : Xbus) : Bool × Xbus :=
  if x.disabled then (false, x)
  else if x.maxCount ≤ x.commandQueue.length then (false, x)
  else (true, { x with commandQueue := x.commandQueue ++ [f], accepted := x.accepted ++ [f] })

def sendCmdFrame (f : Frame) (x : Xbus) : Int × Xbus :=
  if !x.connected then (-ENODEV, x)
  else
    match xframeEnqueue f x with
    | (false, x) => (-E2BIG, x)
    | (true, x) => (0, x)

def reallySendCmdFrame (f : Frame) (x : Xbus) : Xbus :=
  { x with fates := x.fates ++ [(f, if x.connected then .sent else .dropped)] }

def tickBegin (x : Xbus) : Xbus := { x with usecNosend := x.usecNosend - 1000, packno := some 0 }

def tickEnd (x : Xbus) : Xbus :=
  { x with usecNosend := if x.usecNosend < 0 then 0 else x.usecNosend, packno := none }

/-- What the loop of xbus_command_queue_tick does at a value of packno. -/
def tickPass (packno : Nat) (x : Xbus) : Xbus :=
  if 3 ≤ packno then tickEnd x
  else if 0 < x.usecNosend then tickEnd x
  else
    match x.commandQueue with
    | [] => tickEnd x
    | frm :: rest =>
      reallySendCmdFrame frm { x with
        commandQueue := rest, usecNosend := x.usecNosend + frm.usecTowait, packno := some (packno + 1) }

/-- The loop of xbus_command_queue_tick, with nothing coming in between. -/
def tickLoop : Nat → Xbus → Xbus
  | 0, x => x
  | passes + 1, x =>
    match x.packno with
    | none => x
    | some packno => tickLoop passes (tickPass packno x)

def xbusCommandQueueTick (x : Xbus) : Xbus := tickLoop 4 (tickBegin x)

def xbusCommandQueueClean (x : Xbus) : Xbus :=
  { x with disabled := true, commandQueue := [], fates := x.fates ++ x.commandQueue.map fun f => (f, .dropped) }

/-- Frames may come in between the passes of a tick, and the bus may go and come back. -/
inductive Op where
  | send (f : Frame)
  | tick
  | pass
  | connect
  | disconnect
  | clean
  deriving DecidableEq

def next (x : Xbus) (op : Op) : Option Xbus :=
  match op with
  | .send f => some (sendCmdFrame f x).2
  | .tick => if x.packno = none then some (tickBegin x) else none
  | .pass => x.packno.map fun packno => tickPass packno x
  | .connect => some { x with connected := true, disabled := false }
  | .disconnect => some { x with connected := false }
  | .clean => some (xbusCommandQueueClean x)

/-- A bus just allocated. -/
def xbusNew (maxCount : Nat) : Xbus := ⟨false, false, maxCount, [], 0, none, [], []⟩

def sys : GuardedRun.System Xbus Op := ⟨fun x => ∃ maxCount, x = xbusNew maxCount, fun x op x' => next x op = some x'⟩

end Code

section Spec

def sent (x : Xbus) : List Frame := (x.fates.filter fun fate => fate.2 = .sent).map Prod.fst

def left (x : Xbus) : List Frame := x.fates.map Prod.fst

/-- The bus stays. -/
def lasting (_ : Xbus) (op : Op) : Prop := op ≠ .disconnect ∧ op ≠ .clean

/-- The frames accepted are in their order those that have left the queue and those in it. -/
def InOrder (x : Xbus) : Prop := left x ++ x.commandQueue = x.accepted

def ticks : List Op → Nat
  | [] => 0
  | .tick :: rest => ticks rest + 1
  | _ :: rest => ticks rest

end Spec

section Queue
variable {x x' : Xbus} {op : Op}

theorem sent_append (x : Xbus) (more : List (Frame × Fate)) : sent { x with fates := x.fates ++ more } =
    sent x ++ (more.filter fun fate => fate.2 = .sent).map Prod.fst := by
  rw [sent, List.filter_append, List.map_append]
  rfl

theorem enqueue_order (f : Frame) (order : InOrder x) : InOrder (xframeEnqueue f x).2 := by
  rw [xframeEnqueue]
  split
  next => exact order
  next =>
    split
    next => exact order
    next =>
      rw [InOrder] at order ⊢
      dsimp only
      rw [← order, ← List.append_assoc]
      rfl

theorem send_eq (f : Frame) (x : Xbus) : (sendCmdFrame f x).2 = if !x.connected then x else (xframeEnqueue f x).2 := by
  rw [sendCmdFrame]
  split
  next => rfl
  next => split <;> next put => rw [put]

/-- A pass ends the tick or takes the first frame, when there is one and the budget is not
    spent. -/
theorem pass_cases (packno : Nat) (x : Xbus) :
    (tickPass packno x = tickEnd x ∧ (packno < 3 → 0 < x.usecNosend ∨ x.commandQueue = [])) ∨
    ∃ frm rest, x.commandQueue = frm :: rest ∧ packno < 3 ∧ x.usecNosend ≤ 0 ∧
      tickPass packno x = reallySendCmdFrame frm { x with
        commandQueue := rest, usecNosend := x.usecNosend + frm.usecTowait, packno := some (packno + 1) } := by
  rw [tickPass.eq_def]
  split
  next three => exact .inl ⟨rfl, fun few => absurd few (not_lt.mpr three)⟩
  next few =>
    split
    next spent => exact .inl ⟨rfl, fun _ => .inl spent⟩
    next budget =>
      cases queued : x.commandQueue with
      | nil => exact .inl ⟨rfl, fun _ => .inr rfl⟩
      | cons frm rest => exact .inr ⟨frm, rest, rfl, not_le.mp few, not_lt.mp budget, rfl⟩

theorem next_order (order : InOrder x) (moved : next x op = some x') : InOrder x' := by
  cases op with
  | send f =>
    rw [← Option.some.inj moved, send_eq]
    split
    next => exact order
    next => exact enqueue_order f order
  | tick =>
    rw [next] at moved
    split at moved
    next =>
      rw [← Option.some.inj moved]
      exact order
    next => cases moved
  | pass =>
    obtain ⟨packno, _, rfl⟩ := Option.map_eq_some_iff.mp moved
    obtain ⟨ends, _⟩ | ⟨frm, rest, queued, _, _, takes⟩ := pass_cases packno x
    · rw [ends]
      exact order
    · rw [takes, InOrder]
      rw [InOrder, queued] at order
      rw [left, reallySendCmdFrame, List.map_append, List.append_assoc]
      exact order
  | connect =>
    rw [← Option.some.inj moved]
    exact order
  | disconnect =>
    rw [← Option.some.inj moved]
    exact order
  | clean =>
    rw [← Option.some.inj moved, InOrder, left, xbusCommandQueueClean, List.map_append, List.map_map,
      List.append_nil]
    exact (congrArg (left x ++ ·) (List.map_id _)).trans order

theorem reached_order {guard : Xbus → Op → Prop} (reached : GuardedRun.Reach sys guard x) : InOrder x := by
  refine GuardedRun.invariant_run ?_ ?_ reached
  · rintro _ ⟨maxCount, rfl⟩
    rfl
  · exact fun _ _ _ order _ moved => next_order order moved

/-- Only a bus that was lost leaves frames unsent. -/
def Kept (x : Xbus) : Prop := (x.connected = false → x.commandQueue = []) ∧ ∀ fate ∈ x.fates, fate.2 = .sent

theorem enqueue_kept {f : Frame} (kept : Kept x) (here : x.connected = true) : Kept (xframeEnqueue f x).2 := by
  rw [xframeEnqueue]
  split
  next => exact kept
  next =>
    split
    next => exact kept
    next => exact ⟨fun gone => absurd (gone.symm.trans here) Bool.false_ne_true, kept.2⟩

theorem next_kept (kept : Kept x) (lasts : lasting x op) (moved : next x op = some x') : Kept x' := by
  cases op with
  | send f =>
    rw [← Option.some.inj moved, send_eq]
    split
    next => exact kept
    next here =>
      rw [Bool.not_eq_true, Bool.not_eq_false'] at here
      exact enqueue_kept kept here
  | tick =>
    rw [next] at moved
    split at moved
    next =>
      rw [← Option.some.inj moved]
      exact kept
    next => cases moved
  | pass =>
    obtain ⟨packno, _, rfl⟩ := Option.map_eq_some_iff.mp moved
    obtain ⟨ends, _⟩ | ⟨frm, rest, queued, _, _, takes⟩ := pass_cases packno x
    · rw [ends]
      exact kept
    · have here : x.connected = true := by
        by_contra gone
        have empty := kept.1 (Bool.not_eq_true _ ▸ gone)
        rw [queued] at empty
        cases empty
      rw [takes]
      refine ⟨fun gone => absurd (gone.symm.trans here) Bool.false_ne_true, fun fate mem => ?_⟩
      rcases List.mem_append.mp mem with old | new
      · exact kept.2 fate old
      · rw [List.mem_singleton.mp new]
        exact if_pos here
  | connect =>
    rw [← Option.some.inj moved]
    exact ⟨fun gone => absurd (show true = false from gone) (by decide), kept.2⟩
  | disconnect => exact absurd rfl lasts.1
  | clean => exact absurd rfl lasts.2

theorem reached_kept (reached : GuardedRun.Reach sys lasting x) : Kept x := by
  refine GuardedRun.invariant_run ?_ ?_ reached
  · rintro _ ⟨maxCount, rfl⟩
    exact ⟨fun _ => rfl, fun _ mem => absurd mem List.not_mem_nil⟩
  · exact fun _ _ _ kept lasts moved => next_kept kept lasts moved

theorem kept_sent (kept : Kept x) : sent x = left x := by
  rw [sent, left, List.filter_eq_self.mpr fun fate mem => decide_eq_true (kept.2 fate mem)]

end Queue

section Rate
variable {x x' x'' : Xbus}

/-- The frames that the tick at hand may still take. -/
def room (x : Xbus) : Nat :=
  match x.packno with
  | none => 0
  | some packno => 3 - packno

theorem room_between (between : x.packno = none) : room x = 0 := by
  rw [room, between]

def amount (f : Frame) : Int := f.usecTowait

/-- The budget is a bucket: some frames were taken out, and of these some sent. -/
def Account (x x' : Xbus) (n : Nat) : Prop :=
  ∃ events taken gone, LeakyBucket.Run (1000 : Int) x.usecNosend events x'.usecNosend ∧ leaks events = n ∧
    fills events = taken.map amount ∧ sent x' = sent x ++ gone ∧ gone.Sublist taken ∧
    taken.length + room x' ≤ 3 * n + room x

theorem Account.idle (budget : x'.usecNosend = x.usecNosend) (same : sent x' = sent x) (packno : x'.packno = x.packno) :
    Account x x' 0 := by
  refine ⟨[], [], [], budget ▸ .done _, rfl, rfl, same.trans (List.append_nil _).symm, .slnil, ?_⟩
  rw [room, room, packno]
  exact le_refl _

theorem Account.trans {n m : Nat} (first : Account x x' n) (second : Account x' x'' m) : Account x x'' (n + m) := by
  obtain ⟨events, taken, gone, run, leaked, filled, went, some_, few⟩ := first
  obtain ⟨events', taken', gone', run', leaked', filled', went', some', few'⟩ := second
  refine ⟨events ++ events', taken ++ taken', gone ++ gone', run.append run', ?_, ?_, ?_, some_.append some', ?_⟩
  · rw [LeakyBucket.leaks_append, leaked, leaked']
  · rw [LeakyBucket.fills_append, filled, filled', List.map_append]
  · rw [went', went, List.append_assoc]
  · rw [List.length_append]
    omega

theorem end_account (x : Xbus) : Account x (tickEnd x) 0 := by
  have level : (tickEnd x).usecNosend = LeakyBucket.after 1000 x.usecNosend .level := by
    simp only [tickEnd, LeakyBucket.after]
    omega
  refine ⟨[.level], [], [], ?_, rfl, rfl, (List.append_nil _).symm, .slnil, Nat.zero_le _⟩
  rw [level]
  exact .event trivial (.done _)

theorem pass_account {packno : Nat} (at_ : x.packno = some packno) : Account x (tickPass packno x) 0 := by
  obtain ⟨ends, _⟩ | ⟨frm, rest, _, few, budget, takes⟩ := pass_cases packno x
  · rw [ends]
    exact end_account x
  · rw [takes]
    refine ⟨[.fill frm.usecTowait], [frm], _, .event budget (.done _), rfl, rfl, sent_append _ _, ?_, ?_⟩
    · rw [List.filter_singleton]
      cases x.connected
      · exact List.nil_sublist _
      · exact .refl _
    · simp only [room, reallySendCmdFrame, at_, List.length_singleton]
      omega

theorem next_account {op : Op} (moved : next x op = some x') : Account x x' (ticks [op]) := by
  cases op with
  | send f =>
    rw [← Option.some.inj moved, send_eq, xframeEnqueue]
    split
    next => exact .idle rfl rfl rfl
    next =>
      split
      next => exact .idle rfl rfl rfl
      next => split <;> exact .idle rfl rfl rfl
  | tick =>
    rw [next] at moved
    split at moved
    next =>
      rw [← Option.some.inj moved]
      refine ⟨[.leak], [], [], .event trivial (.done _), rfl, rfl, (List.append_nil _).symm, .slnil, ?_⟩
      exact Nat.le_add_right 3 _
    next => cases moved
  | pass =>
    obtain ⟨packno, at_, rfl⟩ := Option.map_eq_some_iff.mp moved
    exact pass_account at_
  | connect =>
    rw [← Option.some.inj moved]
    exact .idle rfl rfl rfl
  | disconnect =>
    rw [← Option.some.inj moved]
    exact .idle rfl rfl rfl
  | clean =>
    rw [← Option.some.inj moved]
    refine .idle rfl ?_ rfl
    rw [xbusCommandQueueClean, sent, List.filter_append, List.map_append, List.filter_map]
    simp [sent]

theorem ticks_cons (op : Op) (rest : List Op) : ticks (op :: rest) = ticks [op] + ticks rest := by
  cases op <;> simp [ticks, Nat.add_comm]

theorem run_account {ops : List Op} (run : ops.foldlM next x = some x') : Account x x' (ticks ops) := by
  induction ops generalizing x with
  | nil =>
    rw [← Option.some.inj run]
    exact .idle rfl rfl rfl
  | cons op rest ih =>
    rw [List.foldlM_cons] at run
    obtain ⟨middle, moved, later⟩ := Option.bind_eq_some_iff.mp run
    rw [ticks_cons]
    exact (next_account moved).trans (ih later)

/-- Between ticks the budget is not below zero. -/
def Level (x : Xbus) : Prop := x.packno = none → 0 ≤ x.usecNosend

theorem end_level (x : Xbus) : 0 ≤ (tickEnd x).usecNosend := by
  simp only [tickEnd]
  omega

theorem next_level {op : Op} (level : Level x) (moved : next x op = some x') : Level x' := by
  cases op with
  | send f =>
    rw [← Option.some.inj moved, send_eq, xframeEnqueue]
    split
    next => exact level
    next =>
      split
      next => exact level
      next => split <;> exact level
  | tick =>
    rw [next] at moved
    split at moved
    next =>
      rw [← Option.some.inj moved]
      exact fun none_ => by cases none_
    next => cases moved
  | pass =>
    obtain ⟨packno, _, rfl⟩ := Option.map_eq_some_iff.mp moved
    obtain ⟨ends, _⟩ | ⟨frm, rest, _, _, _, takes⟩ := pass_cases packno x
    · rw [ends]
      exact fun _ => end_level x
    · rw [takes]
      exact fun none_ => by cases none_
  | connect =>
    rw [← Option.some.inj moved]
    exact level
  | disconnect =>
    rw [← Option.some.inj moved]
    exact level
  | clean =>
    rw [← Option.some.inj moved]
    exact level

theorem reached_level {guard : Xbus → Op → Prop} (reached : GuardedRun.Reach sys guard x) : Level x := by
  refine GuardedRun.invariant_run ?_ ?_ reached
  · rintro _ ⟨maxCount, rfl⟩
    exact fun _ => le_refl _
  · exact fun _ _ _ level _ moved => next_level level moved

theorem dropLast_sublist {a b : List Frame} (inside : a.Sublist b) : a.dropLast.Sublist b.dropLast := by
  have tails := inside.reverse.tail
  rw [List.tail_reverse, List.tail_reverse] at tails
  exact List.reverse_sublist.mp tails

/-- What a C int holds goes in. -/
def fitting (_ : Xbus) (op : Op) : Prop := ∀ f, op = .send f → f.usecTowait < 2 ^ 31

/-- usec_nosend stays in its int. -/
structure InInt (x : Xbus) : Prop where
  queued : ∀ f ∈ x.commandQueue, f.usecTowait < 2 ^ 31
  low : -1000 ≤ x.usecNosend
  high : x.usecNosend < 2 ^ 31

theorem enqueue_int {f : Frame} (fits : f.usecTowait < 2 ^ 31) (within : InInt x) : InInt (xframeEnqueue f x).2 := by
  rw [xframeEnqueue]
  split
  next => exact within
  next =>
    split
    next => exact within
    next =>
      refine ⟨fun g mem => ?_, within.low, within.high⟩
      rcases List.mem_append.mp mem with old | new
      · exact within.queued g old
      · rw [List.mem_singleton.mp new]
        exact fits

theorem next_int {op : Op} (within : InInt x) (level : Level x) (fits : fitting x op) (moved : next x op = some x') :
    InInt x' := by
  have low := within.low
  have high := within.high
  cases op with
  | send f =>
    rw [← Option.some.inj moved, send_eq]
    split
    next => exact within
    next => exact enqueue_int (fits f rfl) within
  | tick =>
    rw [next] at moved
    split at moved
    next between =>
      have above := level between
      rw [← Option.some.inj moved, tickBegin]
      refine ⟨within.queued, ?_, ?_⟩
      · dsimp only
        omega
      · dsimp only
        omega
    next => cases moved
  | pass =>
    obtain ⟨packno, _, rfl⟩ := Option.map_eq_some_iff.mp moved
    obtain ⟨ends, _⟩ | ⟨frm, rest, queued, _, budget, takes⟩ := pass_cases packno x
    · have capped : (tickEnd x).usecNosend = max x.usecNosend 0 := by
        simp only [tickEnd]
        omega
      rw [ends]
      refine ⟨within.queued, ?_, ?_⟩
      · rw [capped]
        omega
      · rw [capped]
        omega
    · have towait := within.queued frm (queued ▸ List.mem_cons_self)
      rw [takes, reallySendCmdFrame]
      refine ⟨fun f mem => within.queued f (queued ▸ List.mem_cons_of_mem _ mem), ?_, ?_⟩
      · dsimp only
        omega
      · dsimp only
        omega
  | connect =>
    rw [← Option.some.inj moved]
    exact ⟨within.queued, low, high⟩
  | disconnect =>
    rw [← Option.some.inj moved]
    exact ⟨within.queued, low, high⟩
  | clean =>
    rw [← Option.some.inj moved]
    exact ⟨fun _ mem => absurd mem List.not_mem_nil, low, high⟩

theorem reached_int (reached : GuardedRun.Reach sys fitting x) : InInt x := by
  induction reached with
  | start begins =>
    obtain ⟨maxCount, rfl⟩ := begins
    have zero : (-1000 : Int) ≤ 0 ∧ (0 : Int) < 2 ^ 31 := by decide
    exact ⟨fun _ mem => absurd mem List.not_mem_nil, zero.1, zero.2⟩
  | step before fits moved within => exact next_int within (reached_level before) fits moved

end Rate

section Progress
variable {x x' : Xbus}

theorem pass_packno (packno : Nat) (x : Xbus) :
    (tickPass packno x).packno = none ∨ packno < 3 ∧ (tickPass packno x).packno = some (packno + 1) := by
  obtain ⟨ends, _⟩ | ⟨frm, rest, _, few, _, takes⟩ := pass_cases packno x
  · rw [ends]
    exact .inl rfl
  · rw [takes]
    exact .inr ⟨few, rfl⟩

/-- A tick is over after four passes at most. -/
theorem loop_over (passes : Nat) (x : Xbus) (enough : ∀ packno, x.packno = some packno → 4 ≤ packno + passes ∧ packno ≤ 3) :
    (tickLoop passes x).packno = none := by
  induction passes generalizing x with
  | zero =>
    rw [tickLoop]
    cases on : x.packno with
    | none => rfl
    | some packno =>
      have := enough packno on
      omega
  | succ passes ih =>
    rw [tickLoop]
    cases on : x.packno with
    | none => exact on
    | some packno =>
      apply ih
      intro packno' on'
      have := enough packno on
      obtain ended | ⟨few, more⟩ := pass_packno packno x
      · rw [ended] at on'
        cases on'
      · rw [more] at on'
        have := Option.some.inj on'
        omega

theorem tick_over (x : Xbus) : (xbusCommandQueueTick x).packno = none := by
  apply loop_over
  intro packno on
  have := Option.some.inj on
  omega

theorem loop_reached {guard : Xbus → Op → Prop} (passing : ∀ x, guard x .pass) (passes : Nat)
    (reached : GuardedRun.Reach sys guard x) : GuardedRun.Reach sys guard (tickLoop passes x) := by
  induction passes generalizing x with
  | zero => exact reached
  | succ passes ih =>
    rw [tickLoop]
    cases on : x.packno with
    | none => exact reached
    | some packno => exact ih (.step reached (passing x) (Option.map_eq_some_iff.mpr ⟨packno, on, rfl⟩))

theorem tick_reached {guard : Xbus → Op → Prop} (ticking : ∀ x, guard x .tick) (passing : ∀ x, guard x .pass)
    (reached : GuardedRun.Reach sys guard x) (between : x.packno = none) :
    GuardedRun.Reach sys guard (xbusCommandQueueTick x) :=
  loop_reached passing 4 (.step reached (ticking x) (if_pos between))

theorem pass_accepted (packno : Nat) (x : Xbus) : (tickPass packno x).accepted = x.accepted := by
  obtain ⟨ends, _⟩ | ⟨frm, rest, _, _, _, takes⟩ := pass_cases packno x
  · rw [ends]
    rfl
  · rw [takes]
    rfl

theorem pass_shorter (packno : Nat) (x : Xbus) : (tickPass packno x).commandQueue.length ≤ x.commandQueue.length := by
  obtain ⟨ends, _⟩ | ⟨frm, rest, queued, _, _, takes⟩ := pass_cases packno x
  · rw [ends]
    exact le_refl _
  · rw [takes, queued]
    exact Nat.le_succ _

theorem loop_accepted (passes : Nat) (x : Xbus) : (tickLoop passes x).accepted = x.accepted := by
  induction passes generalizing x with
  | zero => rfl
  | succ passes ih =>
    rw [tickLoop]
    cases x.packno with
    | none => rfl
    | some packno => exact (ih _).trans (pass_accepted packno x)

theorem loop_shorter (passes : Nat) (x : Xbus) : (tickLoop passes x).commandQueue.length ≤ x.commandQueue.length := by
  induction passes generalizing x with
  | zero => exact le_refl _
  | succ passes ih =>
    rw [tickLoop]
    cases x.packno with
    | none => exact le_refl _
    | some packno => exact le_trans (ih _) (pass_shorter packno x)

theorem loop_idle (passes : Nat) (idle : x.packno = none) : tickLoop passes x = x := by
  cases passes with
  | zero => rfl
  | succ passes => rw [tickLoop, idle]

/-- A tick takes a frame, or comes a thousand nearer to it. -/
theorem tick_nearer (x : Xbus) (some_ : x.commandQueue ≠ []) :
    (xbusCommandQueueTick x).commandQueue.length < x.commandQueue.length ∨
      1000 < x.usecNosend ∧ (xbusCommandQueueTick x).commandQueue = x.commandQueue ∧
        (xbusCommandQueueTick x).usecNosend = x.usecNosend - 1000 := by
  have first : xbusCommandQueueTick x = tickLoop 3 (tickPass 0 (tickBegin x)) := rfl
  rw [first]
  obtain ⟨ends, why⟩ | ⟨frm, rest, queued, _, _, takes⟩ := pass_cases 0 (tickBegin x)
  · right
    have spent : 0 < x.usecNosend - 1000 := (why (by decide)).resolve_right some_
    have kept : (tickEnd (tickBegin x)).usecNosend = x.usecNosend - 1000 := if_neg (not_lt.mpr (le_of_lt spent))
    rw [ends, loop_idle 3 rfl, kept]
    exact ⟨by omega, rfl, rfl⟩
  · left
    have shorter := loop_shorter 3 (tickPass 0 (tickBegin x))
    have before : x.commandQueue = frm :: rest := queued
    rw [takes] at shorter
    rw [takes, before]
    exact Nat.lt_succ_of_le shorter

/-- Ticks empty the queue. -/
theorem drained (length wait : Nat) (x : Xbus) (short : x.commandQueue.length ≤ length)
    (soon : x.usecNosend.toNat ≤ wait) : ∃ n, (xbusCommandQueueTick^[n] x).commandQueue = [] := by
  induction length generalizing wait x with
  | zero => exact ⟨0, List.length_eq_zero_iff.mp (Nat.le_zero.mp short)⟩
  | succ length outer =>
    induction wait using Nat.strong_induction_on generalizing x with
    | _ wait inner =>
      by_cases empty : x.commandQueue = []
      · exact ⟨0, empty⟩
      · obtain less | ⟨far, same, nearer⟩ := tick_nearer x empty
        · obtain ⟨n, done⟩ := outer _ (xbusCommandQueueTick x) (by omega) (le_refl _)
          exact ⟨n + 1, done⟩
        · obtain ⟨n, done⟩ := inner (xbusCommandQueueTick x).usecNosend.toNat (by omega) (xbusCommandQueueTick x)
            (same ▸ short) (le_refl _)
          exact ⟨n + 1, done⟩

theorem ticks_reached {guard : Xbus → Op → Prop} (ticking : ∀ x, guard x .tick) (passing : ∀ x, guard x .pass)
    (n : Nat) (reached : GuardedRun.Reach sys guard x) (between : x.packno = none) :
    GuardedRun.Reach sys guard (xbusCommandQueueTick^[n] x) := by
  induction n generalizing x with
  | zero => exact reached
  | succ n ih => exact ih (tick_reached ticking passing reached between) (tick_over x)

theorem ticks_accepted (n : Nat) (x : Xbus) : (xbusCommandQueueTick^[n] x).accepted = x.accepted := by
  induction n generalizing x with
  | zero => rfl
  | succ n ih => exact (ih _).trans (loop_accepted 4 (tickBegin x))

/-- On a bus that stays every frame accepted is sent, after enough ticks. -/
theorem all_sent (reached : GuardedRun.Reach sys lasting x) (between : x.packno = none) :
    ∃ n, sent (xbusCommandQueueTick^[n] x) = x.accepted := by
  obtain ⟨n, empty⟩ := drained _ _ x (le_refl _) (le_refl _)
  have later : GuardedRun.Reach sys lasting (xbusCommandQueueTick^[n] x) := by
    apply ticks_reached _ _ n reached between
    · exact fun _ => ⟨by decide, by decide⟩
    · exact fun _ => ⟨by decide, by decide⟩
  have order := reached_order later
  rw [InOrder, empty, List.append_nil, ticks_accepted] at order
  exact ⟨n, (kept_sent (reached_kept later)).trans order⟩

end Progress

section Limits
variable {x x' : Xbus}

/-- Frames leave in the order they were accepted, and are all sent by a bus that stays. From a
    tick on, whatever comes between, at most three are sent a tick, and all but the last of
    them fit into the budget of the ticks. -/
theorem commands_limited {guard : Xbus → Op → Prop} {ops : List Op} (reached : GuardedRun.Reach sys guard x)
    (between : x.packno = none) (run : ops.foldlM next x = some x') :
    left x ++ x.commandQueue = x.accepted ∧ (sent x).Sublist (left x) ∧
    (GuardedRun.Reach sys lasting x → sent x = left x ∧ ∃ n, sent (xbusCommandQueueTick^[n] x) = x.accepted) ∧
    ∃ gone, sent x' = sent x ++ gone ∧ gone.length ≤ 3 * ticks ops ∧
      (gone.dropLast.map Frame.usecTowait).sum ≤ 1000 * ticks ops := by
  obtain ⟨events, taken, gone, filled, leaked, amounts, went, some_, few⟩ := run_account run
  have level := reached_level reached between
  refine ⟨reached_order reached, List.filter_sublist.map _, fun lasted => ?_, gone, went, ?_, ?_⟩
  · exact ⟨kept_sent (reached_kept lasted), all_sent lasted between⟩
  · have less := some_.length_le
    rw [room_between between] at few
    omega
  · have bounded := LeakyBucket.filled_leaked (by decide) filled level
    have smaller := ((dropLast_sublist some_).map Frame.usecTowait).sum_le_sum fun _ _ => Nat.zero_le _
    have cast : (taken.dropLast.map amount).sum = ((taken.dropLast.map Frame.usecTowait).sum : Nat) := by
      rw [Nat.cast_list_sum, List.map_map]
      rfl
    rw [amounts, leaked, ← List.map_dropLast, cast, nsmul_eq_mul] at bounded
    omega

/-- A frame of three milliseconds, and another behind it. -/
def twoFrames : List Op :=
  [.connect, .send ⟨3000⟩, .send ⟨1000⟩, .tick, .pass, .pass]

theorem commands_limited_two : ∃ x', twoFrames.foldlM next (xbusNew 1500) = some x' ∧ sent x' = [⟨3000⟩] ∧
    ∃ gone, sent x' = sent (xbusNew 1500) ++ gone ∧ gone.length ≤ 3 * ticks twoFrames ∧
      (gone.dropLast.map Frame.usecTowait).sum ≤ 1000 * ticks twoFrames := by
  have view : (twoFrames.foldlM next (xbusNew 1500)).map sent = some [⟨3000⟩] := by decide
  obtain ⟨x', run, went⟩ := Option.map_eq_some_iff.mp view
  exact ⟨x', run, went, (@commands_limited _ _ lasting _ (.start ⟨1500, rfl⟩) rfl run).2.2.2⟩

end Limits

end CommandQueue
