import Dahdi.Library.GuardedRun

/-!
The span that gives the timing: chosen when spans come and go, start, and go in or out
of alarm, or by the administrator.
-/
namespace MasterSpan
open GuardedRun
variable {T : Type} [DecidableEq T]

structure Span where
  spanno : Int
  alarms : BitVec 32
  lastalarms : BitVec 32
  maint : Bool
  running : Bool
  digital : Bool
  cannotProvideTiming : Bool

structure State (T : Type) where
  spans : T → Span
  spanList : List T
  masterSpan : Option T
  /-- `find_master_work` is scheduled. -/
  work : Bool

def canProvideTiming (s : State T) (x : T) : Bool := !(s.spans x).cannotProvideTiming

def setSpan (s : State T) (x : T) (v : Span) : State T :=
  { s with spans := Function.update s.spans x v }

def setMasterSpan (s : State T) (spanno : Int) : State T :=
  match s.spanList.find? fun x => spanno = (s.spans x).spanno with
  | some x => { s with masterSpan := some x }
  | none => s

/-- The spans `__dahdi_find_master_span` goes past. -/
def passed (s : State T) (x : T) : Bool :=
  ((s.spans x).alarms ≠ 0 && s.masterSpan.isSome) ||
  ((s.spans x).digital && !(s.spans x).running && s.masterSpan.isSome) ||
  !canProvideTiming s x || s.masterSpan = some x

def findMasterSpan (s : State T) : State T :=
  match s.spanList.find? fun x => !passed s x with
  | some x => { s with masterSpan := some x }
  | none => s

def alarmLoopback : BitVec 32 := 1 <<< 1

def maintained (v : Span) : Span :=
  let cleared := v.alarms &&& ~~~alarmLoopback
  { v with alarms := if v.maint then cleared ||| alarmLoopback else cleared }

/-- `dahdi_alarm_notify`: only a change between some alarm and none looks for a
    new master. -/
def alarmNotify (s : State T) (x : T) : State T :=
  let v := maintained (s.spans x)
  if (v.alarms = 0) ≠ (v.lastalarms = 0) then
    { setSpan s x { v with lastalarms := v.alarms } with work := true }
  else setSpan s x v

/-- `_dahdi_add_span_to_span_list`. -/
def addSpan (spans : T → Span) (x : T) : List T → List T
  | [] => [x]
  | pos :: rest =>
    if (spans pos).spanno > (spans x).spanno then x :: pos :: rest else pos :: addSpan spans x rest

def assignSpan (s : State T) (x : T) (spanno : Int) : State T :=
  let s := setSpan s x { s.spans x with spanno }
  findMasterSpan { s with spanList := addSpan s.spans x s.spanList }

/-- The loop of `_dahdi_unassign_span`. -/
def newMaster (s : State T) (master : Option T) : Option T :=
  match s.spanList.find? fun y => !(master = some y || !canProvideTiming s y) with
  | some y => some y
  | none => master

def removeSpan (s : State T) (x : T) : State T :=
  setSpan { s with spanList := s.spanList.erase x } x { s.spans x with spanno := 0, running := false }

def unassignSpan (s : State T) (x : T) : State T :=
  let master := if s.masterSpan = some x then none else s.masterSpan
  let s := removeSpan s x
  { s with masterSpan := newMaster s master }

def startup (s : State T) (x : T) : State T :=
  if (s.spans x).running then s
  else findMasterSpan (setSpan s x { s.spans x with running := true })

inductive Event (T : Type) where
  | assign (x : T) (spanno : Int)
  | unassign (x : T)
  | startup (x : T)
  | find
  | work
  | set (spanno : Int)
  | notify (x : T)
  | driver (x : T) (alarms : BitVec 32) (maint running : Bool)

/-- A span already on the list is not assigned again, one that is not is not taken off. -/
def next (s : State T) : Event T → Option (State T)
  | .assign x spanno => if x ∈ s.spanList then none else some (assignSpan s x spanno)
  | .unassign x => if x ∈ s.spanList then some (unassignSpan s x) else none
  | .startup x => if x ∈ s.spanList then some (startup s x) else none
  | .find => some (findMasterSpan s)
  | .work => if s.work then some (findMasterSpan { s with work := false }) else none
  | .set spanno => some (setMasterSpan s spanno)
  | .notify x => some (alarmNotify s x)
  | .driver x alarms maint running => some (setSpan s x { s.spans x with alarms, maint, running })

def masters : System (State T) (Event T) where
  start := fun s => s.spanList = [] ∧ s.masterSpan = none
  step := fun s e s' => next s e = some s'

end MasterSpan

/-!
The master span is on the list, and when an unassignment or a second search moves it
to another span.
-/
namespace MasterSpan
open GuardedRun
variable {T : Type} [DecidableEq T]

def MasterListed (s : State T) : Prop := ∀ m, s.masterSpan = some m → m ∈ s.spanList

def Unmoved (s : State T) : Prop :=
  ∀ x ∈ s.spanList, s.masterSpan ≠ some x → (unassignSpan s x).masterSpan = s.masterSpan

def Settles (s : State T) : Prop :=
  (findMasterSpan (findMasterSpan s)).masterSpan = (findMasterSpan s).masterSpan

/-- A span that would do as well as the master: it can provide timing, is in no alarm,
    and runs if it is digital. -/
def candidate (s : State T) (x : T) : Bool :=
  canProvideTiming s x && (s.spans x).alarms = 0 && (!(s.spans x).digital || (s.spans x).running)

/-- Whichever span goes, the master and the span that goes are the only ones left that
    can provide timing. -/
def NoOther (s : State T) : Prop :=
  ∀ x ∈ s.spanList, s.masterSpan ≠ some x →
    ∀ y ∈ s.spanList, canProvideTiming s y → y = x ∨ s.masterSpan = some y

/-- At most one span is a candidate, and without a master so far it is the first that
    can provide timing. -/
def OneCandidate (s : State T) : Prop :=
  (∀ y ∈ s.spanList, ∀ z ∈ s.spanList, candidate s y → candidate s z → y = z) ∧
  (s.masterSpan = none → ∀ y ∈ s.spanList, candidate s y →
    s.spanList.find? (canProvideTiming s) = some y)

structure Kept (s : State T) : Prop where
  listed : MasterListed s
  distinct : s.spanList.Nodup

section find
variable {s s' : State T} {x : T}

theorem find_cases (s : State T) :
    (∃ x, s.spanList.find? (fun x => !passed s x) = some x ∧
      findMasterSpan s = { s with masterSpan := some x }) ∨
    (s.spanList.find? (fun x => !passed s x) = none ∧ findMasterSpan s = s) := by
  rw [findMasterSpan]
  cases found : s.spanList.find? (fun x => !passed s x) with
  | none => exact Or.inr ⟨rfl, rfl⟩
  | some x => exact Or.inl ⟨x, rfl, rfl⟩

theorem kept_find (kept : Kept s) : Kept (findMasterSpan s) := by
  rcases find_cases s with ⟨x, found, moved⟩ | ⟨_, stays⟩
  · rw [moved]
    refine ⟨?_, kept.distinct⟩
    intro m same
    rw [← Option.some.inj same]
    exact List.mem_of_find?_eq_some found
  · rw [stays]
    exact kept

theorem kept_same (kept : Kept s) (list : s'.spanList = s.spanList)
    (master : s'.masterSpan = s.masterSpan) : Kept s' := by
  constructor
  · intro m same
    rw [master] at same
    rw [list]
    exact kept.listed m same
  · rw [list]
    exact kept.distinct

theorem kept_set (kept : Kept s) (spanno : Int) : Kept (setMasterSpan s spanno) := by
  rw [setMasterSpan]
  split
  case h_1 x found =>
    refine ⟨?_, kept.distinct⟩
    intro m same
    rw [← Option.some.inj same]
    exact List.mem_of_find?_eq_some found
  case h_2 => exact kept

theorem kept_notify (kept : Kept s) : Kept (alarmNotify s x) := by
  rw [alarmNotify]
  split
  case isTrue => exact kept_same kept rfl rfl
  case isFalse => exact kept_same kept rfl rfl

theorem addSpan_perm (spans : T → Span) (x : T) (list : List T) :
    (addSpan spans x list).Perm (x :: list) := by
  induction list with
  | nil => exact List.Perm.refl _
  | cons pos rest ih =>
    rw [addSpan]
    split
    case isTrue => exact List.Perm.refl _
    case isFalse => exact (ih.cons pos).trans (List.Perm.swap x pos rest)

theorem kept_assign (kept : Kept s) (new : x ∉ s.spanList) (spanno : Int) :
    Kept (assignSpan s x spanno) := by
  apply kept_find
  have perm := addSpan_perm (setSpan s x { s.spans x with spanno }).spans x s.spanList
  constructor
  · intro m same
    exact perm.mem_iff.mpr (List.mem_cons_of_mem x (kept.listed m same))
  · exact perm.nodup_iff.mpr (List.nodup_cons.mpr ⟨new, kept.distinct⟩)

theorem newMaster_cases (s : State T) (master : Option T) :
    (∃ y ∈ s.spanList, master ≠ some y ∧ canProvideTiming s y ∧ newMaster s master = some y) ∨
    ((∀ y ∈ s.spanList, canProvideTiming s y → master = some y) ∧ newMaster s master = master) := by
  rw [newMaster]
  cases found : s.spanList.find? (fun y => !(master = some y || !canProvideTiming s y)) with
  | none =>
    refine Or.inr ⟨?_, rfl⟩
    intro y member timing
    have skipped := List.find?_eq_none.mp found y member
    simpa [timing] using skipped
  | some y =>
    have chosen := List.find?_some found
    simp only [Bool.not_or, Bool.not_not, Bool.and_eq_true, Bool.not_eq_true', decide_eq_false_iff_not]
      at chosen
    exact Or.inl ⟨y, List.mem_of_find?_eq_some found, chosen.1, chosen.2, rfl⟩

theorem unassign_master : (unassignSpan s x).masterSpan =
    newMaster (removeSpan s x) (if s.masterSpan = some x then none else s.masterSpan) :=
  rfl

theorem kept_unassign (kept : Kept s) : Kept (unassignSpan s x) := by
  constructor
  · intro m same
    rcases newMaster_cases (removeSpan s x) (if s.masterSpan = some x then none else s.masterSpan) with
      ⟨y, member, _, _, chosen⟩ | ⟨_, stays⟩
    · rw [unassign_master, chosen] at same
      rw [← Option.some.inj same]
      exact member
    · rw [unassign_master, stays] at same
      split at same
      case isTrue => cases same
      case isFalse other =>
        apply (kept.distinct.mem_erase_iff).mpr
        refine ⟨?_, kept.listed m same⟩
        intro gone
        exact other (gone ▸ same)
  · exact kept.distinct.erase x

theorem kept_startup (kept : Kept s) : Kept (startup s x) := by
  rw [startup]
  split
  case isTrue => exact kept
  case isFalse => exact kept_find (kept_same kept rfl rfl)

theorem kept_step {e : Event T} (kept : Kept s) (moved : next s e = some s') : Kept s' := by
  cases e with
  | assign x spanno =>
    obtain ⟨new, same⟩ := Option.ite_none_left_eq_some.mp moved
    rw [← Option.some.inj same]
    exact kept_assign kept new spanno
  | unassign x =>
    obtain ⟨_, same⟩ := Option.ite_none_right_eq_some.mp moved
    rw [← Option.some.inj same]
    exact kept_unassign kept
  | startup x =>
    obtain ⟨_, same⟩ := Option.ite_none_right_eq_some.mp moved
    rw [← Option.some.inj same]
    exact kept_startup kept
  | find =>
    rw [← Option.some.inj moved]
    exact kept_find kept
  | work =>
    obtain ⟨_, same⟩ := Option.ite_none_right_eq_some.mp moved
    rw [← Option.some.inj same]
    exact kept_find (kept_same kept rfl rfl)
  | set spanno =>
    rw [← Option.some.inj moved]
    exact kept_set kept spanno
  | notify x =>
    rw [← Option.some.inj moved]
    exact kept_notify kept
  | driver x alarms maint running =>
    rw [← Option.some.inj moved]
    exact kept_same kept rfl rfl

theorem kept_reached {guard : State T → Event T → Prop} (reached : Reach masters guard s) :
    Kept s := by
  apply @invariant_run _ _ masters guard Kept
  · intro s start
    obtain ⟨empty, none⟩ := start
    constructor
    · intro m same
      rw [none] at same
      cases same
    · rw [empty]
      exact List.nodup_nil
  · intro s e s' kept _ moved
    exact kept_step kept moved
  · exact reached

end find

section moves
variable {s : State T}

theorem unassign_unmoved (kept : Kept s) {x : T} (other : s.masterSpan ≠ some x) :
    (unassignSpan s x).masterSpan = s.masterSpan ↔
      ∀ y ∈ s.spanList, canProvideTiming s y → y = x ∨ s.masterSpan = some y := by
  have timing : ∀ y, canProvideTiming (removeSpan s x) y = canProvideTiming s y := by
    intro y
    by_cases same : y = x
    · simp only [same, canProvideTiming, removeSpan, setSpan, Function.update_self]
    · simp only [canProvideTiming, removeSpan, setSpan, Function.update_of_ne same]
  rw [unassign_master]
  rcases newMaster_cases (removeSpan s x) (if s.masterSpan = some x then none else s.masterSpan) with
    ⟨y, member, apart, able, chosen⟩ | ⟨all, stays⟩
  · rw [chosen]
    rw [if_neg other] at apart
    rw [timing] at able
    obtain ⟨differs, member⟩ := kept.distinct.mem_erase_iff.mp member
    constructor
    · intro same
      exact absurd same.symm apart
    · intro others
      rcases others y member able with same | same
      · exact absurd same differs
      · exact same.symm
  · rw [stays, if_neg other]
    rw [if_neg other] at all
    constructor
    · intro _ y member able
      by_cases same : y = x
      · exact Or.inl same
      · exact Or.inr (all y (kept.distinct.mem_erase_iff.mpr ⟨same, member⟩) (by rw [timing, able]))
    · intro _
      rfl

/-- With a master, the spans not passed are the other candidates. -/
theorem passed_master {m y : T} (master : s.masterSpan = some m) :
    (!passed s y) = (candidate s y && decide (y ≠ m)) := by
  have swap : decide (m = y) = decide (y = m) := by
    rw [decide_eq_decide]
    exact eq_comm
  simp only [passed, candidate, master, Option.isSome_some, Option.some.injEq, swap]
  cases canProvideTiming s y <;> cases (s.spans y).digital <;> cases (s.spans y).running <;>
    by_cases alarms : (s.spans y).alarms = 0 <;> simp [alarms]

theorem passed_none {y : T} (master : s.masterSpan = none) :
    (!passed s y) = canProvideTiming s y := by
  simp [passed, master]

/-- A master stays exactly when no other span is a candidate. -/
theorem find_stays {m : T} (master : s.masterSpan = some m) :
    (findMasterSpan s).masterSpan = some m ↔ ∀ y ∈ s.spanList, candidate s y → y = m := by
  rcases find_cases s with ⟨x, found, moved⟩ | ⟨none_, stays⟩
  · have chosen := List.find?_some found
    simp only [passed_master master, Bool.and_eq_true, decide_eq_true_eq] at chosen
    rw [moved]
    constructor
    · intro same
      exact absurd (Option.some.inj same) chosen.2
    · intro others
      exact absurd (others x (List.mem_of_find?_eq_some found) chosen.1) chosen.2
  · rw [stays]
    refine ⟨fun _ y member able => ?_, fun _ => master⟩
    have skipped := List.find?_eq_none.mp none_ y member
    rw [passed_master master, able, Bool.true_and, decide_eq_true_eq, not_not] at skipped
    exact skipped

theorem candidate_timing {y : T} (able : candidate s y = true) : canProvideTiming s y = true := by
  simp only [candidate, Bool.and_eq_true] at able
  exact able.1.1

/-- The span a search arrives at is the only candidate when there is one at most. -/
theorem one_candidate {m : T} (chosen : (findMasterSpan s).masterSpan = some m) :
    (∀ y ∈ s.spanList, candidate s y → y = m) ↔ OneCandidate s := by
  constructor
  · intro only
    constructor
    · intro y member z member' able able'
      rw [only y member able, only z member' able']
    · intro none y member able
      rcases find_cases s with ⟨x, found, moved⟩ | ⟨_, stays⟩
      · rw [moved] at chosen
        simp only [passed_none none] at found
        rw [only y member able, ← Option.some.inj chosen]
        exact found
      · rw [stays, none] at chosen
        cases chosen
  · intro one y member able
    rcases find_cases s with ⟨x, found, moved⟩ | ⟨_, stays⟩
    · rw [moved] at chosen
      rw [← Option.some.inj chosen]
      cases master : s.masterSpan with
      | none =>
        simp only [passed_none master] at found
        exact Option.some.inj ((one.2 master y member able).symm.trans found)
      | some m0 =>
        have better := List.find?_some found
        simp only [passed_master master, Bool.and_eq_true, decide_eq_true_eq] at better
        exact one.1 y member x (List.mem_of_find?_eq_some found) able better.1
    · have master := chosen
      rw [stays] at master
      exact (find_stays master).mp chosen y member able

/-- A second search arrives at the same span when there is one candidate at most. -/
theorem find_settles (s : State T) : Settles s ↔ OneCandidate s := by
  have same : ∀ y, candidate (findMasterSpan s) y = candidate s y := by
    intro y
    rcases find_cases s with ⟨x, _, moved⟩ | ⟨_, stays⟩
    · rw [moved]
      rfl
    · rw [stays]
  have list : (findMasterSpan s).spanList = s.spanList := by
    rcases find_cases s with ⟨x, _, moved⟩ | ⟨_, stays⟩
    · rw [moved]
    · rw [stays]
  cases chosen : (findMasterSpan s).masterSpan with
  | none =>
    rcases find_cases s with ⟨x, _, moved⟩ | ⟨none_, stays⟩
    · rw [moved] at chosen
      cases chosen
    · rw [stays] at chosen
      have nobody : ∀ y ∈ s.spanList, candidate s y ≠ true := by
        intro y member able
        have skipped := List.find?_eq_none.mp none_ y member
        rw [passed_none chosen] at skipped
        exact skipped (candidate_timing able)
      constructor
      · intro _
        exact ⟨fun y member z _ able => absurd able (nobody y member),
          fun _ y member able => absurd able (nobody y member)⟩
      · intro _
        rw [Settles, stays, stays]
  | some m =>
    rw [Settles, chosen, find_stays chosen]
    simp only [same, list]
    exact one_candidate chosen

end moves

/-- The master is always on the list. An unassignment of another span leaves it alone
    when no third span can provide timing, and a second search when there is one
    candidate at most. -/
theorem master_choice (s : State T) (reached : Reach masters anyStep s) :
    MasterListed s ∧ (Unmoved s ↔ NoOther s) ∧ (Settles s ↔ OneCandidate s) := by
  have kept := kept_reached reached
  refine ⟨kept.listed, ?_, find_settles s⟩
  constructor
  · intro unmoved x member other
    exact (unassign_unmoved kept other).mp (unmoved x member other)
  · intro alone x member other
    exact (unassign_unmoved kept other).mpr (alone x member other)

def cold : State Nat where
  spans := fun x => ⟨0, 0, 0, false, true, true, decide (x = 3)⟩
  spanList := []
  masterSpan := none
  work := false

/-- Span 3 cannot provide timing, and span 2 is in alarm. -/
def oneGood : List (Event Nat) :=
  [.assign 3 1, .assign 1 2, .driver 2 4 false true, .assign 2 3, .notify 2, .work]

theorem master_choice_good : ∃ s, follow next anyStep oneGood cold = some s ∧
    MasterListed s ∧ (Unmoved s ↔ NoOther s) ∧ (Settles s ↔ OneCandidate s) := by
  have runs : (follow next anyStep oneGood cold).isSome = true := by decide +kernel
  obtain ⟨s, ends⟩ := Option.isSome_iff_exists.mp runs
  refine ⟨s, ends, ?_⟩
  apply master_choice
  apply @follow_reach _ _ masters _ _ _ (fun _ _ _ done => done) _ _ _ _ ends
  exact Reach.start ⟨rfl, rfl⟩

/-- Three spans run without alarms. -/
def threeGood : List (Event Nat) := [.assign 1 1, .assign 2 2, .assign 4 3]

theorem master_moves : ¬ ∀ s : State Nat, Reach masters anyStep s →
    MasterListed s ∧ Unmoved s ∧ Settles s := by
  intro always
  have runs : (follow next anyStep threeGood cold).any (fun s =>
      (unassignSpan s 4).masterSpan ≠ s.masterSpan ∧ 4 ∈ s.spanList ∧
      s.masterSpan ≠ some 4) = true := by decide +kernel
  obtain ⟨s, ends, shown⟩ := (Option.any_eq_true _ _).mp runs
  obtain ⟨moves, member, other⟩ := of_decide_eq_true shown
  have reached : Reach masters anyStep s := by
    apply @follow_reach _ _ masters _ _ _ (fun _ _ _ done => done) _ _ _ _ ends
    exact Reach.start ⟨rfl, rfl⟩
  exact moves ((always s reached).2.1 4 member other)

end MasterSpan
