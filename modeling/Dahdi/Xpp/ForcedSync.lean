import Dahdi.Xpp.SyncRuns

/-!
Sync forced by the user to DAHDI, over every run of commands, elections and replies.
-/
namespace ForcedSync
open Syncer

section Frame

/-- The force flag and the warnings as they were, and a reference to DAHDI where it was. -/
structure SameForce (s s' : State) : Prop where
  force : s'.forceDahdiSync = s.forceDahdiSync
  warned : s'.warned = s.warned
  ticker : s.refTicker = some .dahdi → s'.refTicker = some .dahdi

theorem force_refl (s : State) : SameForce s s := ⟨rfl, rfl, id⟩

theorem SameForce.trans {s s' s'' : State} (first : SameForce s s') (second : SameForce s' s'') :
    SameForce s s'' :=
  ⟨second.force.trans first.force, second.warned.trans first.warned, fun here => second.ticker (first.ticker here)⟩

theorem setXbus_force (p : Nat) (b : Xbus) (s : State) : SameForce s (setXbus p b s) := ⟨rfl, rfl, id⟩

theorem timer_force (p : Nat) (on : Bool) (s : State) : SameForce s (xbusSetCommandTimer p on s) :=
  setXbus_force p _ s

/-- A bus that comes or goes as the syncer leaves a reference to DAHDI alone. -/
theorem setSyncer_force (p : Option Nat) (on : Bool) (s : State) : SameForce s (xppSetSyncer p on s) := by
  have kept (here : s.refTicker = some .dahdi) :
      (if s.refTicker ≠ some .dahdi then none else s.refTicker) = some .dahdi := by
    rw [if_neg (not_not.mpr here), here]
  rw [xppSetSyncer.eq_def]
  cases p with
  | none => exact ⟨rfl, rfl, kept⟩
  | some p =>
    dsimp only
    split
    next => exact ⟨rfl, rfl, id⟩
    next =>
      split
      next => exact ⟨rfl, rfl, kept⟩
      next => exact force_refl s

theorem source_force (p : Nat) (mode : SyncMode) (s : State) : SameForce s (syncSource p mode s) := by
  rw [syncSource]
  split
  next => exact ⟨rfl, rfl, id⟩
  next => exact force_refl s

theorem request_force (p : Nat) (mode : SyncMode) (s : State) : SameForce s (xbusRequestSync p mode s) := by
  have sent := source_force p mode s
  rw [xbusRequestSync]
  split
  next => exact (sent.trans (setSyncer_force (some p) false _)).trans (timer_force p true _)
  next => exact sent

theorem global_force {s s' : State} (same : SameForce s s') (global : Option Nat) :
    SameForce s { s' with globalTicker := global } :=
  ⟨same.force, same.warned, same.ticker⟩

theorem reply_force (p : Nat) (mode : SyncMode) (drift : Int) (s : State) :
    SameForce s (gotNewSyncer p mode drift s) := by
  have settled (b b' : Xbus) (timer on : Bool) : SameForce s
      (xppSetSyncer (some p) on (xbusSetCommandTimer p timer (setXbus p b' (setXbus p b s)))) :=
    (((setXbus_force p b s).trans (setXbus_force p b' _)).trans (timer_force p timer _)).trans
      (setSyncer_force (some p) on _)
  rw [gotNewSyncer.eq_def]
  dsimp only
  split
  next => exact setXbus_force p _ s
  next =>
    cases mode with
    | ab => exact global_force (settled _ _ false true) (some p)
    | pll => exact global_force (settled _ _ false false) (some p)
    | none => exact settled _ _ true false
    | query => exact setXbus_force p _ s

theorem setstate_force (p : Nat) (new : XbusState) (s : State) : SameForce s (xbusSetstate p new s).2 := by
  rw [xbusSetstate]
  split
  next => exact setXbus_force p _ s
  next => exact force_refl s

theorem activate_force (p : Nat) (s : State) : SameForce s (xbusActivate p s) :=
  ((timer_force p true s).trans (setstate_force p .idle _)).trans (request_force p .none _)

theorem populate_force (p : Nat) (s : State) : SameForce s (xbusPopulate p s) := by
  rw [xbusPopulate]
  split
  next => exact (setstate_force p .ready s).trans (request_force p .pll _)
  next => exact setstate_force p .fail s

theorem deactivate_force (p : Nat) (s : State) : SameForce s (xbusDeactivate p s) := by
  rw [xbusDeactivate]
  split
  next => exact (setstate_force p .deactivating s).trans (request_force p .none _)
  next => exact setstate_force p .deactivating s

theorem new_force {p : Nat} {s s' : State} (found : xbusNew p s = some s') : SameForce s s' := by
  rw [xbusNew] at found
  split at found
  next => cases found
  next =>
    rw [← Option.some.inj found]
    exact ⟨rfl, rfl, id⟩

/-- A step that is neither an election nor a command. -/
theorem other_force {s s' : State} {op : Op} (moved : next s op = some s') (noElect : ∀ prios, op ≠ .elect prios)
    (noCommand : ∀ buf, op ≠ .command buf) : SameForce s s' := by
  cases op with
  | new p =>
    rw [next] at moved
    split at moved
    next => cases moved
    next => exact new_force moved
  | connect p =>
    rw [next] at moved
    split at moved
    next =>
      rw [on_xbus moved]
      exact (setXbus_force p _ s).trans (activate_force p _)
    next => cases moved
  | activate p =>
    rw [next] at moved
    split at moved
    next =>
      rw [on_xbus moved]
      exact activate_force p s
    next => cases moved
  | identify p =>
    rw [next] at moved
    rw [on_xbus moved]
    exact setstate_force p .sentRequest s
  | describe p =>
    rw [next] at moved
    rw [on_xbus moved]
    exact setstate_force p .recvdDesc s
  | abDefault p =>
    rw [next] at moved
    rw [on_xbus moved]
    exact setXbus_force p _ s
  | populate p =>
    rw [next] at moved
    rw [on_xbus moved]
    exact populate_force p s
  | fail p =>
    rw [next] at moved
    rw [on_xbus moved]
    exact setstate_force p .fail s
  | deactivate p =>
    rw [next] at moved
    rw [on_xbus moved]
    exact deactivate_force p s
  | disconnect p =>
    rw [next] at moved
    rw [on_xbus moved]
    exact (setXbus_force p _ s).trans (deactivate_force p _)
  | deactivated p =>
    rw [next] at moved
    rw [on_xbus moved]
    exact setstate_force p .deactivated s
  | free p =>
    rw [next] at moved
    split at moved
    next =>
      rw [on_xbus moved]
      exact ⟨rfl, rfl, id⟩
    next => cases moved
  | elect prios => exact absurd rfl (noElect prios)
  | command buf => exact absurd rfl (noCommand buf)
  | reply p mode drift =>
    rw [next] at moved
    rw [on_xbus moved]
    exact reply_force p mode drift s

end Frame

section Masters

theorem update_dahdi (s : State) :
    (updateSyncMaster none true s).forceDahdiSync = true ∧
      (updateSyncMaster none true s).refTicker = some .dahdi ∧
      (updateSyncMaster none true s).warned = s.warned := by
  let t : State :=
    { s with
      warned := s.warned || (none : Option Nat).isSome && true, forceDahdiSync := true, refTicker := some .dahdi }
  have update : updateSyncMaster none true s = (List.range MAX_BUSES).foldl (stopUnwanted none) t := rfl
  rw [update]
  refine @stop_induct (fun t => t.forceDahdiSync = true ∧ t.refTicker = some .dahdi ∧ t.warned = s.warned)
    none ?_ t ⟨rfl, rfl, Bool.or_false s.warned⟩ (List.range MAX_BUSES)
  rintro t p mode - ⟨force, ticker, warned⟩
  have kept := request_force p mode t
  exact ⟨kept.force.trans force, kept.ticker ticker, kept.warned.trans warned⟩

theorem update_warned (p : Nat) (force : Bool) (s : State) :
    (updateSyncMaster (some p) force s).warned = (s.warned || force) := by
  let t : State :=
    { s with warned := s.warned || (some p).isSome && force, forceDahdiSync := false, refTicker := some (.xbus p) }
  have update : updateSyncMaster (some p) force s =
      (List.range MAX_BUSES).foldl (stopUnwanted (some p)) (xbusRequestSync p .ab (xppSetSyncer (some p) true t)) := by
    rw [updateSyncMaster]
  have begun := (setSyncer_force (some p) true t).trans (request_force p .ab _)
  rw [update]
  refine @stop_induct (fun t => t.warned = (s.warned || force)) (some p) ?_ _ begun.warned (List.range MAX_BUSES)
  intro t q mode _ warned
  exact (request_force q mode t).warned.trans warned

/-- An election that finds nothing new has no effect beyond giving up the syncer. -/
theorem elect_nothing {s : State} {prios : Nat → Nat → Option Int}
    (nothing : elected prios s = none ∨ elected prios s = s.syncer) : SameForce s (electSyncer prios s) := by
  rw [electSyncer]
  cases won : elected prios s with
  | none =>
    rw [if_pos rfl]
    have none : ¬ none ≠ (xppSetSyncer none false s).syncer := not_not.mpr rfl
    rw [if_neg none]
    exact setSyncer_force Option.none false s
  | some p =>
    rw [won] at nothing
    have same : some p = s.syncer := nothing.resolve_left (Option.some_ne_none p)
    rw [if_neg (Option.some_ne_none p), if_neg (not_not.mpr same)]
    exact force_refl s

theorem elect_warned {s : State} {prios : Nat → Nat → Option Int}
    (other : ¬ (elected prios s = none ∨ elected prios s = s.syncer)) :
    (electSyncer prios s).warned = (s.warned || s.forceDahdiSync) := by
  rw [electSyncer]
  cases won : elected prios s with
  | none => exact absurd (.inl won) other
  | some p =>
    have new : some p ≠ s.syncer := by
      intro same
      exact other (.inr (won.trans same))
    rw [if_neg (Option.some_ne_none p), if_pos new]
    exact update_warned p s.forceDahdiSync s

end Masters

section Results

/-- Whether the last command of the user that was carried out is DAHDI. -/
def dahdiAfter (buf : List Char) (s : State) (dahdi : Bool) : Bool :=
  match parseCommand buf with
  | .dahdi => true
  | .sync xbusno => if (getXbus xbusno s).isSome then false else dahdi
  | _ => dahdi

/-- A run with what the user asked for last. -/
def nextAsked (w : State × Bool) (op : Op) : Option (State × Bool) :=
  (next w.1 op).map fun s =>
    (s, match op with
      | .command buf => dahdiAfter buf w.1 w.2
      | _ => w.2)

def sysAsked : GuardedRun.System (State × Bool) Op where
  start w := w = (initial, false)
  step w op w' := nextAsked w op = some w'

/-- No warning of a bus together with the force flag; after DAHDI the flag and the reference
    are DAHDI's. -/
structure Respected (w : State × Bool) : Prop where
  unwarned : w.1.warned = false
  forced : w.2 = true → w.1.forceDahdiSync = true ∧ w.1.refTicker = some .dahdi

/-- While DAHDI is forced no election finds a bus other than the syncer. -/
def unforced (w : State × Bool) : Op → Prop
  | .elect prios => w.1.forceDahdiSync = true → elected prios w.1 = none ∨ elected prios w.1 = w.1.syncer
  | _ => True

theorem same_respected {s s' : State} {dahdi : Bool} (respected : Respected (s, dahdi)) (same : SameForce s s') :
    Respected (s', dahdi) := by
  constructor
  · exact same.warned.trans respected.unwarned
  · intro asked
    obtain ⟨force, ticker⟩ := respected.forced asked
    exact ⟨same.force.trans force, same.ticker ticker⟩

theorem command_respected {s : State} {dahdi : Bool} (respected : Respected (s, dahdi)) (buf : List Char) :
    Respected ((execSyncCommand buf buf.length s).2, dahdiAfter buf s dahdi) := by
  rw [execSyncCommand, dahdiAfter.eq_def]
  cases parseCommand buf with
  | dahdi =>
    dsimp only
    obtain ⟨force, ticker, warned⟩ := update_dahdi s
    exact ⟨warned.trans respected.unwarned, fun _ => ⟨force, ticker⟩⟩
  | sync xbusno =>
    dsimp only
    cases getXbus xbusno s with
    | none => exact respected
    | some p =>
      dsimp only
      have warned := update_warned p false s
      rw [Bool.or_false] at warned
      exact ⟨warned.trans respected.unwarned, fun asked => by cases asked⟩
  | query xbusno =>
    dsimp only
    cases getXbus xbusno s with
    | none => exact respected
    | some p => exact same_respected respected (source_force p .query s)
  | other => exact respected

theorem elect_respected {s : State} {dahdi : Bool} (respected : Respected (s, dahdi))
    (prios : Nat → Nat → Option Int) :
    Respected (electSyncer prios s, dahdi) ↔
      (s.forceDahdiSync = true → elected prios s = none ∨ elected prios s = s.syncer) := by
  by_cases nothing : elected prios s = none ∨ elected prios s = s.syncer
  · exact iff_of_true (same_respected respected (elect_nothing nothing)) (fun _ => nothing)
  · have warned := elect_warned nothing
    have unwarned : s.warned = false := respected.unwarned
    rw [unwarned, Bool.false_or] at warned
    constructor
    · intro after force
      have off : s.forceDahdiSync = false := warned.symm.trans after.unwarned
      rw [off] at force
      cases force
    · intro fine
      have off : s.forceDahdiSync = false := by
        rw [← Bool.not_eq_true]
        exact fun force => nothing (fine force)
      constructor
      · exact warned.trans off
      · intro asked
        have force : s.forceDahdiSync = true := (respected.forced asked).1
        rw [off] at force
        cases force

/-- From a state in which the user's wish is respected a step keeps it so exactly when it is
    no election of another bus. -/
theorem step_respected {w w' : State × Bool} {op : Op} (respected : Respected w)
    (moved : nextAsked w op = some w') : Respected w' ↔ unforced w op := by
  obtain ⟨s, dahdi⟩ := w
  obtain ⟨s', there, rfl⟩ := Option.map_eq_some_iff.mp moved
  cases op with
  | elect prios =>
    rw [← Option.some.inj there]
    exact elect_respected respected prios
  | command buf =>
    rw [← Option.some.inj there]
    exact iff_of_true (command_respected respected buf) trivial
  | _ =>
    have same := other_force there (fun _ other => by cases other) (fun _ other => by cases other)
    exact iff_of_true (same_respected respected same) trivial

theorem reached_respected {w : State × Bool} (reached : GuardedRun.Reach sysAsked unforced w) : Respected w := by
  refine GuardedRun.invariant_run ?_ ?_ reached
  · intro w begins
    rw [begins]
    exact ⟨rfl, fun asked => by cases asked⟩
  · intro w op w' respected fine moved
    exact (step_respected respected moved).mpr fine

/-- Over runs without such elections the forced sync is respected; such an election from
    there breaks it. -/
theorem forced_respected {w : State × Bool} (reached : GuardedRun.Reach sysAsked unforced w) :
    Respected w ∧ ∀ op w', nextAsked w op = some w' → (Respected w' ↔ unforced w op) := by
  have respected := reached_respected reached
  exact ⟨respected, fun op w' moved => step_respected respected moved⟩

instance (w : State × Bool) (op : Op) : Decidable (unforced w op) :=
  match op with
  | .elect prios =>
    inferInstanceAs (Decidable
      (w.1.forceDahdiSync = true → elected prios w.1 = none ∨ elected prios w.1 = w.1.syncer))
  | .new _ | .connect _ | .activate _ | .identify _ | .describe _ | .abDefault _ | .populate _ | .fail _
  | .deactivate _ | .disconnect _ | .deactivated _ | .free _ | .command _ | .reply _ _ _ => isTrue trivial

/-- A bus is elected and answers, and then the user asks for DAHDI. -/
def dahdiRun : List Op := electedRun ++ [.command ['D', 'A', 'H', 'D', 'I'], .elect noPrios]

theorem dahdi_kept : ∃ w, GuardedRun.Reach sysAsked unforced w ∧ w.2 = true ∧ Respected w := by
  have view : (GuardedRun.follow nextAsked unforced dahdiRun (initial, false)).map Prod.snd = some true := by
    decide +kernel
  obtain ⟨w, followed, asked⟩ := Option.map_eq_some_iff.mp view
  have reached : GuardedRun.Reach sysAsked unforced w :=
    @GuardedRun.follow_reach _ _ sysAsked nextAsked unforced _ (fun _ _ _ moved => moved) _ _ _ (.start rfl) followed
  exact ⟨w, reached, asked, (forced_respected reached).1⟩

/-- Every reply answers a request that was sent to the bus. -/
def repliesAsked (w : State × Bool) (op : Op) : Prop := asked w.1 op

instance (w : State × Bool) (op : Op) : Decidable (repliesAsked w op) := inferInstanceAs (Decidable (asked w.1 op))

/-- The bus gives up the clock as it was told, and then there is an election. -/
def electedAgain : List Op :=
  electedRun ++ [.command ['D', 'A', 'H', 'D', 'I'], .reply 0 .pll 0, .elect noPrios]

theorem bus_elected : ¬ ∀ w, GuardedRun.Reach sysAsked repliesAsked w → Respected w := by
  intro all
  have view : (GuardedRun.follow nextAsked repliesAsked electedAgain (initial, false)).map
      (fun w => (w.2, w.1.forceDahdiSync)) = some (true, false) := by
    decide +kernel
  obtain ⟨w, followed, seen⟩ := Option.map_eq_some_iff.mp view
  have reached : GuardedRun.Reach sysAsked repliesAsked w :=
    @GuardedRun.follow_reach _ _ sysAsked nextAsked repliesAsked _ (fun _ _ _ moved => moved) _ _ _ (.start rfl)
      followed
  have dahdi : w.2 = true := congrArg Prod.fst seen
  have unset : w.1.forceDahdiSync = false := congrArg Prod.snd seen
  have force := ((all w reached).forced dahdi).1
  rw [unset] at force
  cases force

end Results

end ForcedSync
