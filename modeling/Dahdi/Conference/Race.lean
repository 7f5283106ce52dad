import Dahdi.Library.GuardedRun
import Dahdi.Conference.Setconf

/-!
DAHDI_SETCONF calls at the same time. dahdi_check_conf looks for members under chan_lock
and clears the alias after it has released it, so that a channel can join in between.
-/
namespace ConferenceRace
open Conference GuardedRun InverseTables

structure Call where
  chan : Nat
  confChan : Option Nat
  conf : Confinfo
  kmalloc : Bool
  hw : Int

/-- What a thread does next: a part of dahdi_check_conf(x), before the critical section of
    its call or, without one, after it; the critical section; or to give the buffer of the
    channel before its echo canceller back. -/
inductive Task where
  | test (x : Int) (call : Option Call)
  | scan (x : Int) (call : Option Call)
  | clear (x : Int) (call : Option Call)
  | main (call : Call)
  | undo (p : Nat)

structure World where
  state : State
  threads : Nat → Option Task

def setThread (w : World) (t : Nat) (s : State) (next : Option Task) : World :=
  ⟨s, Function.update w.threads t next⟩

/-- After dahdi_check_conf. -/
def afterCheck : Option Call → Option Task
  | none => none
  | some call => some (.main call)

/-- The critical section of dahdi_ioctl_setconf. -/
def mainStep (s : State) (call : Call) : Except Fault (State × Option Task) :=
  let confno := setconfNumber s.tables call.conf.confno
  if confno < 1 ∧ call.conf.confmode ≠ 0 then .ok (s, none)
  else
    match setconfJoin s call.chan call.confChan confno call.conf.confmode with
    | .error fault => .error fault
    | .ok s' =>
      match setconfPreec s' call.confChan call.conf.confmode call.kmalloc, call.confChan with
      | (.enable, s''), some p => .ok (s'', if call.hw ≠ 0 then some (.undo p) else none)
      | (_, s''), _ => .ok (s'', some (.test (s.chans call.chan).confna none))

/-- One atomic step of a thread. -/
def taskStep (s : State) : Task → Except Fault (State × Option Task)
  | .test x call =>
    if x ≤ 0 then .ok (s, afterCheck call)
    else (hasAlias s.tables x).map fun used =>
      (s, if used then some (.scan x call) else afterCheck call)
  | .scan x call => .ok (s, if anyInConf s x then afterCheck call else some (.clear x call))
  | .clear x call => (clearAlias s.tables x).map fun t => (setTables s t, afterCheck call)
  | .main call => mainStep s call
  | .undo p => .ok (setPreec s p false, none)

/-- A thread enters the call, with the channels it has looked up, or takes a step. -/
inductive Label where
  | enter (thread file : Nat) (conf : Confinfo) (kmalloc : Bool) (hw : Int)
  | run (thread : Nat)

def race : System World Label where
  start w := Idle w.state ∧ ∀ t, w.threads t = none
  step w l w' :=
    match l with
    | .enter t file conf kmalloc hw => w.threads t = none ∧ ∃ chan confChan,
        setconfCheck w.state file conf = some (chan, confChan) ∧
        w' = setThread w t w.state
          (some (.test conf.confno (some ⟨chan, confChan, conf, kmalloc, hw⟩)))
    | .run t => ∃ task s' next, w.threads t = some task ∧ taskStep w.state task = .ok (s', next) ∧
        w' = setThread w t s' next

/-- Every channel in a conference has the alias of the conference, and no two conferences
    have one alias. -/
structure Exclusive (s : State) : Prop where
  member : ∀ a ∈ s.registered, ∀ x, chanInConf (s.chans a) x = true →
    s.tables.confalias x ≠ 0 ∧ (s.chans a).confn = s.tables.confalias x
  owner : ∀ x y, s.tables.confalias x ≠ 0 → s.tables.confalias x = s.tables.confalias y → x = y

/-- Nobody has joined the conference whose alias is about to be cleared. -/
def Undisturbed (w : World) : Label → Prop
  | .enter .. => True
  | .run t => ∀ x call, w.threads t = some (.clear x call) →
      ∀ a ∈ w.state.registered, chanInConf (w.state.chans a) x = false

/-- The call of a task has passed the checks. -/
def Passed (call : Call) : Prop :=
  isMixing call.conf.confmode = true → -1 ≤ call.conf.confno ∧ call.conf.confno ≤ maxConf

def taskCall : Task → Option Call
  | .test _ call => call
  | .scan _ call => call
  | .clear _ call => call
  | .main call => some call
  | .undo _ => none

/-- The tables are consistent, and every call in progress has passed the checks. -/
structure Steady (w : World) : Prop where
  linked : Linked w.state
  passed : ∀ t task call, w.threads t = some task → taskCall task = some call → Passed call

section Steps
variable {s s' : State} {task : Task} {next : Option Task} {w w' : World}

theorem linked_exclusive (linked : Linked s) : Exclusive s := by
  refine ⟨linked.member, fun x y used same => ?_⟩
  exact inverse_injective linked.tables.inverse used same

theorem linked_preec (linked : Linked s) (p : Nat) (allocated : Bool) :
    Linked (setPreec s p allocated) := by
  refine ⟨linked.tables, ?_⟩
  intro a inside x here
  by_cases place : a = p
  · subst place
    rw [setPreec, set_chan_same] at here ⊢
    exact linked.member a inside x here
  · rw [setPreec, set_chan_other s _ place] at here ⊢
    exact linked.member a inside x here

theorem preec_linked {confChan : Option Nat} {confmode : Confmode} {kmalloc : Bool}
    (linked : Linked s) : Linked (setconfPreec s confChan confmode kmalloc).2 := by
  unfold setconfPreec
  split
  · exact linked
  · split
    · split
      · exact linked_preec linked _ _
      · exact linked
    · exact linked_preec linked _ _

theorem main_linked {call : Call} (linked : Linked s) (passed : Passed call)
    (done : mainStep s call = .ok (s', next)) :
    Linked s' ∧ ∀ task, next = some task → taskCall task = none := by
  unfold mainStep at done
  simp only at done
  split at done
  · obtain ⟨rfl, rfl⟩ := Prod.mk.inj (Except.ok.inj done)
    refine ⟨linked, ?_⟩
    intro task some
    cases some
  · rename_i placed
    split at done
    · cases done
    · rename_i s₁ joined
      have range : isMixing call.conf.confmode = true →
          1 ≤ setconfNumber s.tables call.conf.confno ∧
            setconfNumber s.tables call.conf.confno ≤ maxConf := by
        intro mixing
        refine ⟨?_, setconf_number _ (passed mixing).2⟩
        by_contra low
        refine placed ⟨by omega, ?_⟩
        intro zero
        rw [zero] at mixing
        exact absurd mixing (by decide)
      have linked₁ := (join_linked linked range joined).1
      have linked₂ := @preec_linked s₁ call.confChan call.conf.confmode call.kmalloc linked₁
      split at done
      · rename_i s₂ p result _
        obtain ⟨rfl, rfl⟩ := Prod.mk.inj (Except.ok.inj done)
        rw [result] at linked₂
        refine ⟨linked₂, ?_⟩
        intro task some
        split at some
        · obtain rfl := Option.some.inj some
          rfl
        · cases some
      · rename_i preec s₂ result _
        obtain ⟨rfl, rfl⟩ := Prod.mk.inj (Except.ok.inj done)
        rw [result] at linked₂
        refine ⟨linked₂, ?_⟩
        intro task some
        obtain rfl := Option.some.inj some
        rfl

theorem after_check {call : Option Call} {task : Task} (next : afterCheck call = some task) :
    taskCall task = call := by
  cases call with
  | none => cases next
  | some call =>
    obtain rfl := Option.some.inj next
    rfl

/-- What one step of a thread keeps, and the call that it goes on with. -/
theorem task_linked (linked : Linked s) (passed : ∀ call, taskCall task = some call → Passed call)
    (empty : ∀ x call, task = .clear x call → ∀ a ∈ s.registered, chanInConf (s.chans a) x = false)
    (done : taskStep s task = .ok (s', next)) :
    Linked s' ∧ ∀ later call, next = some later → taskCall later = some call → Passed call := by
  cases task with
  | test x call =>
    simp only [taskStep] at done
    split at done
    · obtain ⟨rfl, rfl⟩ := Prod.mk.inj (Except.ok.inj done)
      refine ⟨linked, fun later call' some same => passed call' ?_⟩
      rw [← same, after_check some]
      rfl
    · obtain ⟨used, _, same⟩ := map_ok done
      obtain ⟨rfl, rfl⟩ := Prod.mk.inj same
      refine ⟨linked, fun later call' some same => passed call' ?_⟩
      split at some
      · obtain rfl := Option.some.inj some
        exact same
      · rw [← same, after_check some]
        rfl
  | scan x call =>
    obtain ⟨rfl, rfl⟩ := Prod.mk.inj (Except.ok.inj done)
    refine ⟨linked, fun later call' some same => passed call' ?_⟩
    split at some
    · rw [← same, after_check some]
      rfl
    · obtain rfl := Option.some.inj some
      exact same
  | clear x call =>
    obtain ⟨t, cleared, same⟩ := map_ok done
    obtain ⟨rfl, rfl⟩ := Prod.mk.inj same
    have inside : inBounds x := by
      unfold clearAlias at cleared
      split at cleared
      · cases cleared
      · rename_i within
        simp only [not_or, not_not] at within
        exact within.1
    obtain ⟨t', again, ok, confalias, _⟩ := clear_alias_spec linked.tables inside
    obtain rfl := Except.ok.inj (cleared.symm.trans again)
    refine ⟨clear_linked linked ok confalias (empty x call rfl), fun later call' some same =>
      passed call' ?_⟩
    rw [← same, after_check some]
    rfl
  | main call =>
    obtain ⟨linked', finished⟩ := main_linked linked (passed call rfl) done
    refine ⟨linked', fun later call' some same => ?_⟩
    rw [finished later some] at same
    cases same
  | undo p =>
    obtain ⟨rfl, rfl⟩ := Prod.mk.inj (Except.ok.inj done)
    refine ⟨linked_preec linked p false, fun later call' some _ => ?_⟩
    cases some

theorem clear_breaks {x : Int} {t : Tables} {a : Nat}
    (confalias : t.confalias = Function.update s.tables.confalias x 0)
    (inside : a ∈ s.registered) (here : chanInConf (s.chans a) x = true) :
    ¬ Exclusive (setTables s t) := by
  intro exclusive
  obtain ⟨used, _⟩ := exclusive.member a inside x here
  rw [set_tables_tables, confalias, Function.update_self] at used
  exact used rfl

/-- A step from a steady world: the next world is steady just when nobody was disturbed. -/
theorem step_steady {l : Label} (steady : Steady w) (step : race.step w l w') :
    (Undisturbed w l → Steady w') ∧ (¬ Undisturbed w l → ¬ Exclusive w'.state) := by
  cases l with
  | enter t file conf kmalloc hw =>
    obtain ⟨_, chan, confChan, checked, rfl⟩ := step
    refine ⟨fun _ => ⟨steady.linked, ?_⟩, fun disturbed => absurd trivial disturbed⟩
    intro u task call entered here
    by_cases same : u = t
    · subst same
      simp only [setThread, Function.update_self] at entered
      obtain rfl := Option.some.inj entered
      obtain rfl := Option.some.inj here
      exact conf_chan_mixing (check_inversion checked).2
    · simp only [setThread, Function.update_of_ne same] at entered
      exact steady.passed u task call entered here
  | run t =>
    obtain ⟨task, s', next, running, done, rfl⟩ := step
    constructor
    · intro quiet
      obtain ⟨linked, later⟩ := task_linked steady.linked
        (fun call here => steady.passed t task call running here)
        (fun x call same => quiet x call (same ▸ running)) done
      refine ⟨linked, ?_⟩
      intro u task' call entered here
      by_cases same : u = t
      · subst same
        simp only [setThread, Function.update_self] at entered
        exact later task' call entered here
      · simp only [setThread, Function.update_of_ne same] at entered
        exact steady.passed u task' call entered here
    · intro disturbed
      simp only [Undisturbed, not_forall] at disturbed
      obtain ⟨x, call, clearing, a, inside, here⟩ := disturbed
      rw [running] at clearing
      obtain rfl := Option.some.inj clearing
      obtain ⟨t', cleared, same⟩ := map_ok done
      obtain ⟨rfl, _⟩ := Prod.mk.inj same
      refine clear_breaks ?_ inside (by simpa using here)
      unfold clearAlias at cleared
      split at cleared
      · cases cleared
      · obtain rfl := Except.ok.inj cleared
        rfl

theorem idle_steady (idle : race.start w) : Steady w := by
  obtain ⟨idle, none⟩ := idle
  constructor
  · constructor
    · rw [idle.tables]
      exact ⟨inverse_zero, by simp, by simp, by simp⟩
    · intro a _ x here
      rw [in_conf_iff, (idle.chans a).2.1] at here
      exact absurd here.2 (by decide)
  · intro t task call some
    rw [none t] at some
    cases some

theorem steady_run (reached : Reach race Undisturbed w) : Steady w := by
  refine @invariant_run _ _ _ _ Steady ?_ ?_ w reached
  · intro w idle
    exact idle_steady idle
  · intro w l w' steady quiet step
    exact (step_steady steady step).1 quiet

end Steps

section Concrete

/-- A span with channels 1 and 2 that nobody has used. -/
def pair : World where
  state := {
    chans := fun a => freshChan (a + 1) false
    spanChans := [0, 1]
    pseudos := []
    tables := ⟨fun _ => 0, fun _ => 0, 0⟩
    sums := ⟨fun _ => silence, fun _ => silence, fun _ => silence⟩ }
  threads _ := none

theorem pair_idle : race.start pair := ⟨⟨rfl, fun _ => ⟨rfl, rfl, rfl⟩⟩, fun _ => rfl⟩

def followLabel (w : World) : Label → World
  | .enter t file conf kmalloc hw =>
    match setconfCheck w.state file conf with
    | none => w
    | some (chan, confChan) => setThread w t w.state
        (some (.test conf.confno (some ⟨chan, confChan, conf, kmalloc, hw⟩)))
  | .run t =>
    match w.threads t with
    | none => w
    | some task =>
      match taskStep w.state task with
      | .error _ => w
      | .ok (s', next) => setThread w t s' next

def possible (w : World) : Label → Bool
  | .enter t file conf _ _ => (w.threads t).isNone && (setconfCheck w.state file conf).isSome
  | .run t =>
    match w.threads t with
    | none => false
    | some task => (taskStep w.state task).isOk

/-- A schedule in which every step can be taken. -/
def follows (w : World) : List Label → Option World
  | [] => some w
  | l :: labels => if possible w l then follows (followLabel w l) labels else none

theorem follow_step {w : World} {l : Label} (can : possible w l = true) :
    race.step w l (followLabel w l) := by
  cases l with
  | enter t file conf kmalloc hw =>
    simp only [possible, Bool.and_eq_true, Option.isNone_iff_eq_none] at can
    obtain ⟨⟨chan, confChan⟩, checked⟩ := Option.isSome_iff_exists.mp can.2
    refine ⟨can.1, chan, confChan, checked, ?_⟩
    simp only [followLabel, checked]
  | run t =>
    simp only [possible] at can
    split at can
    · cases can
    · rename_i task running
      cases stepped : taskStep w.state task with
      | error fault =>
        rw [stepped] at can
        cases can
      | ok result =>
        obtain ⟨s', next⟩ := result
        refine ⟨task, s', next, running, stepped, ?_⟩
        simp only [followLabel, running, stepped]

theorem follows_reach {w w' : World} {labels : List Label} (reached : Reach race anyStep w)
    (done : follows w labels = some w') : Reach race anyStep w' := by
  induction labels generalizing w with
  | nil =>
    obtain rfl := Option.some.inj done
    exact reached
  | cons l labels ih =>
    unfold follows at done
    split at done
    · rename_i can
      exact ih (.step reached trivial (follow_step can)) done
    · cases done

/-- Channel 1 joins conference 5 and leaves it; while thread 0 is between the scan for
    members and the clearing, channel 2 joins the conference in thread 1. -/
def overtaking : List Label :=
  [.enter 0 0 ⟨1, 5, 0x304⟩ true 0, .run 0, .run 0, .run 0,
    .enter 0 0 ⟨1, 0, 0⟩ true 0, .run 0, .run 0, .run 0, .run 0,
    .enter 1 0 ⟨2, 5, 0x304⟩ true 0, .run 1, .run 1, .run 1, .run 1, .run 0]

def overtaken : World := (follows pair overtaking).getD pair

end Concrete

end ConferenceRace
