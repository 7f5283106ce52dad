import Dahdi.Xpp.Syncer

/-!
Over every run of the buses, elections, commands and replies: when the reference ticker is
that of the syncer, and nothing refers to a bus that is gone.
-/
namespace Syncer

section Frame

/-- The same buses, in the same states. -/
structure SameBuses (s s' : State) : Prop where
  slot : s'.slot = s.slot
  state : ∀ p, (s'.xbus p).state = (s.xbus p).state

theorem same_refl (s : State) : SameBuses s s := ⟨rfl, fun _ => rfl⟩

theorem SameBuses.trans {s s' s'' : State} (first : SameBuses s s') (second : SameBuses s' s'') :
    SameBuses s s'' :=
  ⟨second.slot.trans first.slot, fun p => (second.state p).trans (first.state p)⟩

/-- No longer to be referred to: on its way out, or not on the array. -/
def removed (s : State) (p : Nat) : Prop :=
  inArray s p = false ∨ (s.xbus p).state = .deactivating ∨ (s.xbus p).state = .deactivated

instance (s : State) (p : Nat) : Decidable (removed s p) :=
  inferInstanceAs (Decidable (inArray s p = false ∨ (s.xbus p).state = .deactivating ∨
    (s.xbus p).state = .deactivated))

theorem same_removed {s s' : State} (same : SameBuses s s') (p : Nat) : removed s' p ↔ removed s p := by
  rw [removed, removed, inArray, inArray, same.slot, same.state p]

theorem setXbus_self (p : Nat) (b : Xbus) (s : State) : (setXbus p b s).xbus p = b := if_pos rfl

theorem setXbus_same {p : Nat} {b : Xbus} {s : State} (kept : b.state = (s.xbus p).state) :
    SameBuses s (setXbus p b s) := by
  constructor
  · rfl
  · intro q
    rw [setXbus]
    dsimp only
    split
    next here => rw [kept, here]
    next => rfl

theorem setSyncer_same (p : Option Nat) (on : Bool) (s : State) : SameBuses s (xppSetSyncer p on s) := by
  rw [xppSetSyncer.eq_def]
  cases p with
  | none => exact ⟨rfl, fun _ => rfl⟩
  | some p =>
    dsimp only
    split_ifs <;> exact ⟨rfl, fun _ => rfl⟩

theorem timer_same (p : Nat) (on : Bool) (s : State) : SameBuses s (xbusSetCommandTimer p on s) :=
  setXbus_same rfl

theorem source_same (p : Nat) (mode : SyncMode) (s : State) : SameBuses s (syncSource p mode s) := by
  rw [syncSource]
  split
  next => exact ⟨rfl, fun _ => rfl⟩
  next => exact same_refl s

theorem request_same (p : Nat) (mode : SyncMode) (s : State) : SameBuses s (xbusRequestSync p mode s) := by
  rw [xbusRequestSync]
  split
  next =>
    exact (source_same p mode s).trans ((setSyncer_same (some p) false _).trans (timer_same p true _))
  next => exact source_same p mode s

end Frame

section Good

/-- A bus whose ticker is the reference is the syncer, and neither refers to a bus that is
    gone. -/
structure Good (s : State) : Prop where
  one : ∀ p, s.refTicker = some (.xbus p) → s.syncer = some p
  gone : ∀ p, removed s p → s.syncer ≠ some p ∧ s.refTicker ≠ some (.xbus p)

theorem good_of {s : State} (one : ∀ p, s.refTicker = some (.xbus p) → s.syncer = some p)
    (gone : ∀ p, removed s p → s.syncer ≠ some p) : Good s :=
  ⟨one, fun p away => ⟨gone p away, fun tick => gone p away (one p tick)⟩⟩

/-- A step that leaves syncer and ticker and removes no bus. -/
theorem good_kept {s s' : State} (good : Good s) (syncer : s'.syncer = s.syncer)
    (ticker : s'.refTicker = s.refTicker) (fewer : ∀ p, removed s' p → removed s p) : Good s' := by
  apply good_of
  · intro p tick
    rw [syncer]
    rw [ticker] at tick
    exact good.one p tick
  · intro p away
    rw [syncer]
    exact (good.gone p (fewer p away)).1

/-- A bus that loses the clock: it is the syncer and all is given up, or nothing changes. -/
theorem lose_cases (p : Nat) (s : State) :
    s.syncer = some p ∧ (xppSetSyncer (some p) false s).syncer = none ∧
      (∀ q, (xppSetSyncer (some p) false s).refTicker ≠ some (.xbus q)) ∨
    s.syncer ≠ some p ∧ xppSetSyncer (some p) false s = s := by
  by_cases here : s.syncer = some p
  · have lost : xppSetSyncer (some p) false s =
        { s with syncer := none, refTicker := if s.refTicker ≠ some .dahdi then none else s.refTicker } := by
      simp [xppSetSyncer, here]
    refine .inl ⟨here, ?_, fun q => ?_⟩
    · rw [lost]
    · rw [lost]
      dsimp only
      split
      next => exact fun none => by cases none
      next kept =>
        rw [ne_eq, not_not] at kept
        rw [kept]
        exact fun other => by cases other
  · refine .inr ⟨here, ?_⟩
    simp [xppSetSyncer, here]

/-- A bus that loses the clock may be one that is just leaving. -/
theorem lose_good {s : State} {p : Nat} (one : ∀ q, s.refTicker = some (.xbus q) → s.syncer = some q)
    (gone : ∀ q, q ≠ p → removed s q → s.syncer ≠ some q) : Good (xppSetSyncer (some p) false s) := by
  rcases lose_cases p s with ⟨-, none, off⟩ | ⟨other, same⟩
  · apply good_of
    · intro q tick
      exact absurd tick (off q)
    · intro q _
      rw [none]
      exact fun found => by cases found
  · rw [same]
    apply good_of one
    intro q away
    by_cases here : q = p
    · rw [here]
      exact other
    · exact gone q here away

theorem source_syncer (p : Nat) (mode : SyncMode) (s : State) : (syncSource p mode s).syncer = s.syncer := by
  rw [syncSource]
  split <;> rfl

theorem source_ticker (p : Nat) (mode : SyncMode) (s : State) :
    (syncSource p mode s).refTicker = s.refTicker := by
  rw [syncSource]
  split <;> rfl

theorem source_good {s : State} (good : Good s) (p : Nat) (mode : SyncMode) : Good (syncSource p mode s) :=
  good_kept good (source_syncer p mode s) (source_ticker p mode s)
    (fun q => (same_removed (source_same p mode s) q).mp)

theorem timer_good {s : State} (good : Good s) (p : Nat) (on : Bool) : Good (xbusSetCommandTimer p on s) :=
  good_kept good rfl rfl (fun q => (same_removed (timer_same p on s) q).mp)

theorem request_good {s : State} (good : Good s) (p : Nat) (mode : SyncMode) :
    Good (xbusRequestSync p mode s) := by
  have sent := source_good good p mode
  rw [xbusRequestSync]
  split
  next => exact timer_good (lose_good sent.one fun q _ away => (sent.gone q away).1) p true
  next => exact sent

end Good

section Masters

/-- What every request to a bus other than the new syncer keeps, the loop keeps. -/
theorem stop_induct {kept : State → Prop} {newSyncer : Option Nat}
    (request : ∀ s p mode, newSyncer ≠ some p → kept s → kept (xbusRequestSync p mode s)) {s : State}
    (start : kept s) (l : List Nat) : kept (l.foldl (stopUnwanted newSyncer) s) := by
  induction l generalizing s with
  | nil => exact start
  | cons i l ih =>
    refine ih ?_
    rw [stopUnwanted.eq_def]
    cases s.slot i with
    | none => exact start
    | some p =>
      dsimp only
      split
      next wanted => exact request s p _ wanted.2.1 start
      next => exact start

theorem request_other {s : State} {p q : Nat} (other : some p ≠ some q) (mode : SyncMode)
    (syncer : s.syncer = some p) :
    (xbusRequestSync q mode s).syncer = some p ∧ (xbusRequestSync q mode s).refTicker = s.refTicker := by
  have sent : (syncSource q mode s).syncer ≠ some q := by
    rw [source_syncer, syncer]
    exact other
  rw [xbusRequestSync]
  split
  next =>
    rcases lose_cases q (syncSource q mode s) with ⟨here, -⟩ | ⟨-, same⟩
    · exact absurd here sent
    · rw [same]
      exact ⟨(source_syncer q mode s).trans syncer, source_ticker q mode s⟩
  next => exact ⟨(source_syncer q mode s).trans syncer, source_ticker q mode s⟩

theorem gain_syncer (p : Nat) (s : State) :
    (xppSetSyncer (some p) true s).syncer = some p ∧
      (xppSetSyncer (some p) true s).refTicker = s.refTicker := by
  by_cases here : s.syncer = some p
  · simp [xppSetSyncer, here]
  · simp [xppSetSyncer, here]

/-- A new master is the syncer and gives the reference; nothing else about the buses. -/
theorem update_some (p : Nat) (force : Bool) (s : State) :
    (updateSyncMaster (some p) force s).syncer = some p ∧
      (updateSyncMaster (some p) force s).refTicker = some (.xbus p) ∧
      SameBuses s (updateSyncMaster (some p) force s) := by
  let t : State :=
    { s with warned := s.warned || (some p).isSome && force, forceDahdiSync := false, refTicker := some (.xbus p) }
  have same : SameBuses s t := ⟨rfl, fun _ => rfl⟩
  have gained := gain_syncer p t
  have asked : xbusRequestSync p .ab (xppSetSyncer (some p) true t) = syncSource p .ab (xppSetSyncer (some p) true t) :=
    rfl
  have update : updateSyncMaster (some p) force s =
      (List.range MAX_BUSES).foldl (stopUnwanted (some p)) (xbusRequestSync p .ab (xppSetSyncer (some p) true t)) := by
    rw [updateSyncMaster]
  rw [update]
  refine @stop_induct (fun t => t.syncer = some p ∧ t.refTicker = some (.xbus p) ∧ SameBuses s t)
    (some p) ?_ _ ?_ (List.range MAX_BUSES)
  · rintro t q mode other ⟨syncer, ticker, same⟩
    obtain ⟨syncer', ticker'⟩ := request_other other mode syncer
    exact ⟨syncer', ticker'.trans ticker, same.trans (request_same q mode t)⟩
  · rw [asked]
    refine ⟨?_, ?_, same.trans ((setSyncer_same (some p) true t).trans (source_same p .ab _))⟩
    · exact (source_syncer p .ab _).trans gained.1
    · exact (source_ticker p .ab _).trans gained.2

theorem update_none {s : State} (good : Good s) (force : Bool) : Good (updateSyncMaster none force s) := by
  let t : State :=
    { s with
      warned := s.warned || (none : Option Nat).isSome && force
      forceDahdiSync := force
      refTicker := if force then some .dahdi else none }
  have off : ∀ p, t.refTicker ≠ some (.xbus p) := by
    intro p
    cases force <;> exact fun tick => by cases tick
  have update : updateSyncMaster none force s = (List.range MAX_BUSES).foldl (stopUnwanted none) t := by
    cases force <;> rfl
  rw [update]
  refine @stop_induct Good none (fun t p mode _ good => request_good good p mode) t ?_ (List.range MAX_BUSES)
  exact good_of (fun p tick => absurd tick (off p)) (fun p away => (good.gone p away).1)

theorem master_good (s : State) (p : Nat) (force : Bool) :
    Good (updateSyncMaster (some p) force s) ↔ ¬ removed s p := by
  obtain ⟨syncer, ticker, same⟩ := update_some p force s
  constructor
  · intro after away
    exact (after.gone p ((same_removed same p).mpr away)).1 syncer
  · intro here
    apply good_of
    · intro q tick
      rw [ticker] at tick
      rw [syncer]
      rw [Ticker.xbus.inj (Option.some.inj tick)]
    · intro q away
      rw [same_removed same] at away
      rw [syncer]
      intro found
      rw [← Option.some.inj found] at away
      exact here away

end Masters

section Elections

theorem in_array_iff {s : State} {p : Nat} : inArray s p = true ↔ ∃ i, i < MAX_BUSES ∧ s.slot i = some p := by
  simp [inArray]

def Ready (s : State) (p : Nat) : Prop := inArray s p = true ∧ (s.xbus p).state = .ready

theorem ready_here {s : State} {p : Nat} (ready : Ready s p) : ¬ removed s p := by
  rw [removed, ready.1, ready.2]
  decide

/-- Every candidate so far is ready. -/
structure ReadyScan (s : State) (scan : Scan) : Prop where
  first : ∀ p, scan.theXbus = some p → Ready s p
  best : ∀ p, scan.bestXpd = some p → Ready s p

theorem scanXpd_ready {s : State} {scan : Scan} {p : Nat} (ready : Ready s p) (so : ReadyScan s scan)
    (prio : Option Int) : ReadyScan s (scanXpd p prio scan) := by
  rw [scanXpd.eq_def]
  cases prio with
  | none => exact so
  | some prio =>
    dsimp only
    split_ifs
    · exact so
    · constructor
      · exact so.first
      · intro q here
        rw [← Option.some.inj here]
        exact ready
    · exact so

theorem scanXpds_ready {s : State} {p : Nat} (ready : Ready s p) (prio : Nat → Option Int) (l : List Nat)
    {scan : Scan} (so : ReadyScan s scan) :
    ReadyScan s (l.foldl (fun scan j => scanXpd p (prio j) scan) scan) := by
  induction l generalizing scan with
  | nil => exact so
  | cons j l ih => exact ih (scanXpd_ready ready so (prio j))

theorem scanXbus_ready {s : State} {scan : Scan} {i : Nat} (inside : i < MAX_BUSES) (so : ReadyScan s scan)
    (prios : Nat → Nat → Option Int) : ReadyScan s (scanXbus prios s scan i) := by
  rw [scanXbus.eq_def]
  cases here : s.slot i with
  | none => exact so
  | some p =>
    dsimp only
    split
    next state =>
      have ready : Ready s p := ⟨in_array_iff.mpr ⟨i, inside, here⟩, state⟩
      refine scanXpds_ready ready (prios p) (List.range MAX_XPDS) ?_
      constructor
      · dsimp only
        split
        next =>
          intro q found
          rw [← Option.some.inj found]
          exact ready
        next => exact so.first
      · exact so.best
    next => exact so

theorem scan_ready {s : State} (prios : Nat → Nat → Option Int) {l : List Nat} (inside : ∀ i ∈ l, i < MAX_BUSES)
    {scan : Scan} (so : ReadyScan s scan) : ReadyScan s (l.foldl (scanXbus prios s) scan) := by
  induction l generalizing scan with
  | nil => exact so
  | cons i l ih =>
    apply ih
    · intro j member
      exact inside j (List.mem_cons_of_mem i member)
    · exact scanXbus_ready (inside i List.mem_cons_self) so prios

theorem elected_ready {s : State} {prios : Nat → Nat → Option Int} {p : Nat} (won : elected prios s = some p) :
    Ready s p := by
  have so : ReadyScan s ((List.range MAX_BUSES).foldl (scanXbus prios s) ⟨none, none, INT_MAX⟩) := by
    apply scan_ready
    · intro i member
      exact List.mem_range.mp member
    · constructor
      · exact fun _ found => by cases found
      · exact fun _ found => by cases found
  rw [elected] at won
  split at won
  next => exact so.best p won
  next => exact so.first p won

theorem drop_good (s : State) : Good (xppSetSyncer none false s) := by
  apply good_of
  · intro p tick
    rw [xppSetSyncer] at tick
    dsimp only at tick
    split at tick
    next => cases tick
    next kept =>
      rw [ne_eq, not_not] at kept
      rw [kept] at tick
      cases tick
  · intro p _ found
    cases found

theorem elect_good {s : State} (good : Good s) (prios : Nat → Nat → Option Int) : Good (electSyncer prios s) := by
  rw [electSyncer]
  cases won : elected prios s with
  | none =>
    rw [if_pos rfl]
    split
    next => exact update_none (drop_good s) _
    next => exact drop_good s
  | some p =>
    rw [if_neg (Option.some_ne_none p)]
    split
    next => exact (master_good s p _).mpr (ready_here (elected_ready won))
    next => exact good

end Elections

section Replies

/-- The reference is the ticker of another bus. -/
def tickerElsewhere (s : State) (p : Nat) : Bool :=
  match s.refTicker with
  | some (.xbus q) => q ≠ p
  | _ => false

theorem elsewhere_iff {s : State} {p : Nat} :
    tickerElsewhere s p = false ↔ ∀ q, s.refTicker = some (.xbus q) → q = p := by
  rw [tickerElsewhere.eq_def]
  cases s.refTicker with
  | none => simp
  | some ticker =>
    cases ticker with
    | xbus q => simp
    | dahdi => simp

theorem gain_good (s : State) (p : Nat) :
    Good (xppSetSyncer (some p) true s) ↔ ¬ removed s p ∧ tickerElsewhere s p = false := by
  obtain ⟨syncer, ticker⟩ := gain_syncer p s
  have same := setSyncer_same (some p) true s
  rw [elsewhere_iff]
  constructor
  · intro after
    refine ⟨fun away => ?_, fun q tick => ?_⟩
    · exact (after.gone p ((same_removed same p).mpr away)).1 syncer
    · rw [← ticker] at tick
      exact Option.some.inj ((after.one q tick).symm.trans syncer)
  · rintro ⟨here, own⟩
    apply good_of
    · intro q tick
      rw [ticker] at tick
      rw [syncer, own q tick]
    · intro q away
      rw [same_removed same] at away
      rw [syncer]
      intro found
      rw [← Option.some.inj found] at away
      exact here away

theorem setXbus_good {s : State} (good : Good s) {p : Nat} {b : Xbus} (kept : b.state = (s.xbus p).state) :
    Good (setXbus p b s) :=
  good_kept good rfl rfl (fun q => (same_removed (setXbus_same kept) q).mp)

/-- A reply to AB by which the bus changes its mode needs the bus to be there and the
    reference not to be elsewhere; every other reply is harmless. -/
theorem reply_good {s : State} (good : Good s) (p : Nat) (mode : SyncMode) (drift : Int) :
    Good (gotNewSyncer p mode drift s) ↔
      (mode = .ab → (s.xbus p).syncMode = .ab ∨ ¬ removed s p ∧ tickerElsewhere s p = false) := by
  let s1 := setXbus p { s.xbus p with syncAdjustment := drift.bmod 256 } s
  have good1 : Good s1 := setXbus_good good rfl
  have mode1 : (s1.xbus p).syncMode = (s.xbus p).syncMode := by rw [setXbus_self]
  rw [gotNewSyncer.eq_def]
  change Good (if (s1.xbus p).syncMode = mode then s1 else _) ↔ _
  rw [mode1]
  split
  next already =>
    constructor
    · intro _ ab
      rw [already]
      exact .inl ab
    · intro _
      exact good1
  next other =>
    let s2 := setXbus p { s1.xbus p with syncMode := mode } s1
    have good2 : Good s2 := setXbus_good good1 rfl
    have lose : ∀ on, Good (xppSetSyncer (some p) false (xbusSetCommandTimer p on s2)) := by
      intro on
      have good3 := timer_good good2 p on
      exact lose_good good3.one fun q _ away => (good3.gone q away).1
    cases mode with
    | ab =>
      have same1 : SameBuses s s1 := setXbus_same rfl
      have same2 : SameBuses s1 s2 := setXbus_same rfl
      have same := (same1.trans same2).trans (timer_same p false s2)
      have gained := gain_good (xbusSetCommandTimer p false s2) p
      rw [same_removed same] at gained
      constructor
      · intro after _
        exact .inr (gained.mp (good_kept after rfl rfl fun _ => id))
      · intro allowed
        rcases allowed rfl with ab | fine
        · exact absurd ab other
        · exact good_kept (gained.mpr fine) rfl rfl fun _ => id
    | pll =>
      constructor
      · intro _ ab
        cases ab
      · intro _
        exact good_kept (lose false) rfl rfl fun _ => id
    | none =>
      constructor
      · intro _ ab
        cases ab
      · intro _
        exact lose true
    | query =>
      constructor
      · intro _ ab
        cases ab
      · intro _
        exact good1

end Replies

section Lives

theorem setXbus_other {p q : Nat} (other : q ≠ p) (b : Xbus) (s : State) : (setXbus p b s).xbus q = s.xbus q :=
  if_neg other

/-- A new state that is none of a bus on its way out, or that of one already so. -/
theorem setstate_good {s : State} (good : Good s) (p : Nat) {new : XbusState} (stays : new ≠ .deactivating) :
    Good (xbusSetstate p new s).2 := by
  rw [xbusSetstate]
  split
  next can =>
    refine good_kept good rfl rfl ?_
    intro q away
    by_cases here : q = p
    · rw [here] at away ⊢
      rcases away with gone | now
      · exact .inl gone
      · rw [setXbus_self] at now
        rcases now with now | now
        · exact absurd now stays
        · have now : new = .deactivated := now
          rw [now, allowed] at can
          have old : (s.xbus p).state ≠ .deactivated ∧ (s.xbus p).state = .deactivating := by simpa using can
          exact .inr (.inl old.2)
    · rwa [removed, setXbus_other here] at away
  next => exact good

theorem new_good {s s' : State} (good : Good s) {p : Nat} (found : xbusNew p s = some s') : Good s' := by
  rw [xbusNew] at found
  cases free : (List.range MAX_BUSES).find? fun i => s.slot i = none with
  | none =>
    rw [free] at found
    cases found
  | some num =>
    rw [free] at found
    dsimp only at found
    have inside : num < MAX_BUSES := List.mem_range.mp (List.mem_of_find?_eq_some free)
    have empty : s.slot num = none := by simpa using List.find?_some free
    rw [← Option.some.inj found]
    refine good_kept good rfl rfl ?_
    intro q away
    by_cases here : q = p
    · rw [here] at away
      rcases away with gone | now
      · have there : inArray (setXbus p ⟨false, .start, .none, .pll, false, false, 0⟩
            { s with slot := fun i => if i = num then some p else s.slot i }) p = true :=
          in_array_iff.mpr ⟨num, inside, if_pos rfl⟩
        rw [there] at gone
        cases gone
      · rw [setXbus_self] at now
        rcases now with now | now <;> cases now
    · rw [removed, setXbus_other here] at away
      refine away.imp_left fun gone => ?_
      rw [← Bool.not_eq_true] at gone ⊢
      intro there
      obtain ⟨i, low, slot⟩ := in_array_iff.mp there
      refine gone (in_array_iff.mpr ⟨i, low, ?_⟩)
      have other : i ≠ num := by
        intro same
        rw [same, empty] at slot
        cases slot
      exact (if_neg other).trans slot

theorem free_good {s : State} (good : Good s) {p : Nat} (ended : (s.xbus p).state = .deactivated) :
    Good (xbusFree p s) := by
  refine good_kept good rfl rfl ?_
  intro q away
  by_cases here : q = p
  · rw [here]
    exact .inr (.inr ended)
  · refine Or.imp_left (fun gone => ?_) away
    rw [← Bool.not_eq_true] at gone ⊢
    intro there
    obtain ⟨i, low, slot⟩ := in_array_iff.mp there
    refine gone (in_array_iff.mpr ⟨i, low, ?_⟩)
    have other : ¬ s.slot i = some p := by
      rw [slot]
      exact fun same => here (Option.some.inj same)
    exact (if_neg other).trans slot

theorem activate_good {s : State} (good : Good s) (p : Nat) : Good (xbusActivate p s) := by
  have started : XbusState.idle ≠ .deactivating := by decide
  exact request_good (setstate_good (timer_good good p true) p started) p .none

theorem populate_good {s : State} (good : Good s) (p : Nat) : Good (xbusPopulate p s) := by
  have ready : XbusState.ready ≠ .deactivating := by decide
  have fail : XbusState.fail ≠ .deactivating := by decide
  rw [xbusPopulate]
  split
  next => exact request_good (setstate_good good p ready) p .pll
  next => exact setstate_good good p fail

/-- The bus that leaves gives up the clock before anything else. -/
theorem deactivate_good {s : State} (good : Good s) (p : Nat) : Good (xbusDeactivate p s) := by
  rw [xbusDeactivate, xbusSetstate]
  by_cases can : allowed (s.xbus p).state .deactivating = true
  · rw [if_pos can]
    let s1 := setXbus p { s.xbus p with state := .deactivating } s
    let s2 := syncSource p .none s1
    have same := source_same p .none s1
    have request : xbusRequestSync p .none s1 = xbusSetCommandTimer p true (xppSetSyncer (some p) false s2) := rfl
    have lost : Good (xppSetSyncer (some p) false s2) := by
      apply lose_good
      · intro q tick
        rw [source_ticker] at tick
        rw [source_syncer]
        exact good.one q tick
      · intro q other away
        rw [same_removed same, removed, setXbus_other other] at away
        rw [source_syncer]
        exact (good.gone q away).1
    rw [if_pos rfl, request]
    exact timer_good lost p true
  · rw [if_neg can]
    exact good

end Lives

section Results

/-- The bus that a command names as the master. -/
def commanded (buf : List Char) (s : State) : Option Nat :=
  match parseCommand buf with
  | .sync xbusno => getXbus xbusno s
  | _ => none

/-- A bus comes into mode AB by a reply only while it is not leaving and the reference is
    not another bus; a command names a bus that is not leaving. -/
def wanted (s : State) : Op → Prop
  | .reply p mode _ => mode = .ab → (s.xbus p).syncMode = .ab ∨ ¬ removed s p ∧ tickerElsewhere s p = false
  | .command buf => ∀ p ∈ commanded buf s, ¬ removed s p
  | _ => True

theorem command_good {s : State} (good : Good s) (buf : List Char) :
    Good (execSyncCommand buf buf.length s).2 ↔ ∀ p ∈ commanded buf s, ¬ removed s p := by
  rw [execSyncCommand, commanded.eq_def]
  cases parseCommand buf with
  | dahdi =>
    constructor
    · intro _ p none
      cases none
    · intro _
      dsimp only
      exact update_none good true
  | sync xbusno =>
    dsimp only
    cases getXbus xbusno s with
    | none =>
      constructor
      · intro _ p none
        cases none
      · intro _
        exact good
    | some p =>
      dsimp only
      rw [master_good s p false]
      constructor
      · intro here q named
        rw [← Option.some.inj named]
        exact here
      · intro all
        exact all p rfl
  | query xbusno =>
    constructor
    · intro _ p none
      cases none
    · intro _
      dsimp only
      cases getXbus xbusno s with
      | none => exact good
      | some p => exact source_good good p .query
  | other =>
    constructor
    · intro _ p none
      cases none
    · intro _
      exact good

theorem on_xbus {p : Nat} {s s' : State} {effect : State → State} (moved : onXbus p s effect = some s') :
    s' = effect s := by
  rw [onXbus] at moved
  split at moved
  next => exact (Option.some.inj moved).symm
  next => cases moved

/-- From a good state a step leads to a good one exactly when it is wanted. -/
theorem step_good {s s' : State} {op : Op} (good : Good s) (moved : next s op = some s') :
    Good s' ↔ wanted s op := by
  cases op with
  | new p =>
    rw [next] at moved
    split at moved
    next => cases moved
    next => exact iff_of_true (new_good good moved) trivial
  | connect p =>
    rw [next] at moved
    split at moved
    next =>
      have linked : Good (setXbus p { s.xbus p with connected := true } s) := setXbus_good good rfl
      rw [on_xbus moved]
      exact iff_of_true (activate_good linked p) trivial
    next => cases moved
  | activate p =>
    rw [next] at moved
    split at moved
    next =>
      rw [on_xbus moved]
      exact iff_of_true (activate_good good p) trivial
    next => cases moved
  | identify p =>
    rw [next] at moved
    have sent : XbusState.sentRequest ≠ .deactivating := by decide
    rw [on_xbus moved]
    exact iff_of_true (setstate_good good p sent) trivial
  | describe p =>
    rw [next] at moved
    have described : XbusState.recvdDesc ≠ .deactivating := by decide
    rw [on_xbus moved]
    exact iff_of_true (setstate_good good p described) trivial
  | abDefault p =>
    rw [next] at moved
    have ab : Good (setXbus p { s.xbus p with syncModeDefault := .ab } s) := setXbus_good good rfl
    rw [on_xbus moved]
    exact iff_of_true ab trivial
  | populate p =>
    rw [next] at moved
    rw [on_xbus moved]
    exact iff_of_true (populate_good good p) trivial
  | fail p =>
    rw [next] at moved
    have failed : XbusState.fail ≠ .deactivating := by decide
    rw [on_xbus moved]
    exact iff_of_true (setstate_good good p failed) trivial
  | deactivate p =>
    rw [next] at moved
    rw [on_xbus moved]
    exact iff_of_true (deactivate_good good p) trivial
  | disconnect p =>
    rw [next] at moved
    have cut : Good (setXbus p { s.xbus p with connected := false } s) := setXbus_good good rfl
    rw [on_xbus moved]
    exact iff_of_true (deactivate_good cut p) trivial
  | deactivated p =>
    rw [next] at moved
    have ended : XbusState.deactivated ≠ .deactivating := by decide
    rw [on_xbus moved]
    exact iff_of_true (setstate_good good p ended) trivial
  | free p =>
    rw [next] at moved
    split at moved
    next ended =>
      rw [on_xbus moved]
      exact iff_of_true (free_good good ended.2) trivial
    next => cases moved
  | elect prios =>
    rw [← Option.some.inj moved]
    exact iff_of_true (elect_good good prios) trivial
  | command buf =>
    rw [← Option.some.inj moved]
    exact command_good good buf
  | reply p mode drift =>
    rw [next] at moved
    rw [on_xbus moved]
    exact reply_good good p mode drift

theorem initial_good : Good initial := by
  apply good_of
  · intro p tick
    cases tick
  · intro p _ found
    cases found

theorem reached_good {s : State} (reached : GuardedRun.Reach sys wanted s) : Good s := by
  refine GuardedRun.invariant_run ?_ ?_ reached
  · intro s begins
    rw [begins]
    exact initial_good
  · intro s op s' good fine moved
    exact (step_good good moved).mpr fine

instance (s : State) (op : Op) : Decidable (wanted s op) :=
  match op with
  | .reply p mode _ =>
    inferInstanceAs (Decidable (mode = .ab → (s.xbus p).syncMode = .ab ∨ ¬ removed s p ∧ tickerElsewhere s p = false))
  | .command buf => inferInstanceAs (Decidable (∀ p ∈ commanded buf s, ¬ removed s p))
  | .new _ | .connect _ | .activate _ | .identify _ | .describe _ | .abDefault _ | .populate _ | .fail _
  | .deactivate _ | .disconnect _ | .deactivated _ | .free _ | .elect _ => isTrue trivial

/-- A bus from its first connection to ready. -/
def comesUp (p : Nat) : List Op := [.new p, .connect p, .identify p, .describe p, .populate p]

/-- No card has a priority. -/
def noPrios : Nat → Nat → Option Int := fun _ _ => none

/-- The first bus is elected and answers. -/
def electedRun : List Op := comesUp 0 ++ [.elect noPrios, .reply 0 .ab 0]

/-- Every reply answers a request that was sent to the bus. -/
def asked (s : State) : Op → Prop
  | .reply p mode _ => (p, mode) ∈ s.sent
  | _ => True

instance (s : State) (op : Op) : Decidable (asked s op) :=
  match op with
  | .reply p mode _ => inferInstanceAs (Decidable ((p, mode) ∈ s.sent))
  | .new _ | .connect _ | .activate _ | .identify _ | .describe _ | .abDefault _ | .populate _ | .fail _
  | .deactivate _ | .disconnect _ | .deactivated _ | .free _ | .elect _ | .command _ => isTrue trivial

/-- The answer of the first master comes after a command has named the second, which then
    leaves. -/
def lateReply : List Op :=
  comesUp 0 ++ [.elect noPrios] ++ comesUp 1 ++
    [.elect noPrios, .command ['S', 'Y', 'N', 'C', '=', '1', '\n'], .reply 0 .ab 0, .disconnect 1, .elect noPrios,
      .deactivated 1, .free 1]

end Results

end Syncer
