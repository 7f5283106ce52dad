import Dahdi.Library.GuardedRun
import Dahdi.Dynamic.Message

/-!
The list of dynamic spans of dahdi_dynamic.c: which of them is the master that everything
runs on, and how spans come and go.
-/
namespace DspanList
open GuardedRun
open Dynamic (Octet alarmRed recordAlarms)

section Code

/-- struct dahdi_dynamic, as far as the list and the master go; ref is its address. -/
structure Dyn where
  ref : Nat
  dname : List Char
  addr : List Char
  driver : Nat
  timing : Int
  master : Bool
  alarms : BitVec 32
  kref : Nat
  pvt : Bool
  deriving DecidableEq

/-- dspan_list and hasmaster. -/
structure State where
  list : List Dyn
  hasmaster : Bool

def red (d : Dyn) : Bool := d.alarms &&& alarmRed ≠ 0

/-- The turn of the loop of checkmaster: the best timing so far and the span it is of. -/
def consider (best : Int × Option Nat) (d : Dyn) : Int × Option Nat :=
  if d.timing ≠ 0 ∧ red d = false ∧ d.timing < best.1 then (d.timing, some d.ref) else best

def unmark (d : Dyn) : Dyn := if d.timing ≠ 0 then { d with master := false } else d

def checkmaster (s : State) : State :=
  let master := (s.list.foldl consider (9999999, none)).2
  { hasmaster := master.isSome
    list := s.list.map fun d => if master = some d.ref then { unmark d with master := true } else unmark d }

def findDynamic (dname addr : List Char) (s : State) : Option Dyn :=
  s.list.find? fun d => d.dname = dname ∧ d.addr = addr

def EINVAL : Int := 22
def EBUSY : Int := 16
def ENXIO : Int := 6

def listDel (ref : Nat) (s : State) : State := { s with list := s.list.filter fun d => d.ref ≠ ref }

/-- _destroy_dynamic; alive is whether the driver's module can be had. The reference that
    find_dynamic takes is given back on each way out. -/
def destroyDynamic (alive : Nat → Bool) (dname addr : List Char) (s : State) : Int × State :=
  match findDynamic dname addr s with
  | none => (-EINVAL, s)
  | some d =>
    if 2 < d.kref + 1 then (-EBUSY, s)
    else if d.pvt && !alive d.driver then (- ENXIO, s)
    else (0, listDel d.ref s)

/-- dahdi_dynamic_unregister_driver, which takes the spans of the driver. -/
def unregisterDriver (dri : Nat) (s : State) : State :=
  { s with list := s.list.filter fun d => d.driver ≠ dri }

/-- What _create_dynamic does with a span that is registered. -/
def listAdd (d : Dyn) (s : State) : State := checkmaster { s with list := d :: s.list }

/-- What dahdi_dynamic_receive does with the alarms of the span. -/
def receiveAlarms (ref : Nat) (sflags : Octet) (s : State) : State :=
  if ∃ d ∈ s.list, d.ref = ref ∧ recordAlarms d.alarms sflags ≠ d.alarms then
    checkmaster { s with list := s.list.map fun d =>
      if d.ref = ref then { d with alarms := recordAlarms d.alarms sflags } else d }
  else s

/-- The turn of check_for_red_alarm; late is whether nothing came for a second. -/
def redden (late : Nat → Bool) (d : Dyn) : Dyn :=
  if late d.ref then { d with alarms := (d.alarms &&& ~~~alarmRed) ||| alarmRed } else d

def checkForRedAlarm (late : Nat → Bool) (s : State) : State :=
  if ∃ d ∈ s.list, (redden late d).alarms ≠ d.alarms then
    checkmaster { s with list := s.list.map (redden late) }
  else s

/-- Whether dahdi_dynamic_sync_tick of the span runs everything. -/
def syncTick (s : State) (ref : Nat) : Bool := !s.hasmaster && s.list.head?.map (·.ref) = some ref

/-- Opening and closing channels of a span. -/
def setKref (ref kref : Nat) (s : State) : State :=
  { s with list := s.list.map fun d => if d.ref = ref then { d with kref := kref } else d }

end Code

section Runs

inductive Op where
  | create (d : Dyn)
  | destroy (alive : Nat → Bool) (dname addr : List Char)
  | unregisterDriver (dri : Nat)
  | receive (ref : Nat) (sflags : Octet)
  | alarmcheck (late : Nat → Bool)
  | setKref (ref kref : Nat)

/-- A span that is created is a new structure, without the mark of a master. -/
def Step (s : State) : Op → State → Prop
  | .create d, s' => (∀ e ∈ s.list, e.ref ≠ d.ref) ∧ d.master = false ∧ s' = listAdd d s
  | .destroy alive dname addr, s' => s' = (destroyDynamic alive dname addr s).2
  | .unregisterDriver dri, s' => s' = unregisterDriver dri s
  | .receive ref sflags, s' => s' = receiveAlarms ref sflags s
  | .alarmcheck late, s' => s' = checkForRedAlarm late s
  | .setKref ref kref, s' => s' = setKref ref kref s

def sys : System State Op := ⟨fun s => s = ⟨[], false⟩, Step⟩

/-- A span that is alive and has a timing priority. -/
def Candidate (d : Dyn) : Prop := d.timing ≠ 0 ∧ red d = false

structure Good (s : State) : Prop where
  flag : s.hasmaster = true ↔ ∃ d ∈ s.list, d.master = true
  one : ∀ d ∈ s.list, ∀ e ∈ s.list, d.master = true → e.master = true → d = e
  best : ∀ d ∈ s.list, d.master = true → Candidate d ∧ ∀ e ∈ s.list, Candidate e → d.timing ≤ e.timing

/-- While there are spans, one runs everything: the master when it receives, or the first
    at a tick. -/
def Sourced (s : State) : Prop :=
  s.list ≠ [] → (∃ d ∈ s.list, d.master = true) ∨ ∃ d ∈ s.list, syncTick s d.ref = true

/-- The span that a destruction takes off the list. -/
def Destroys (alive : Nat → Bool) (dname addr : List Char) (s : State) (d : Dyn) : Prop :=
  findDynamic dname addr s = some d ∧ d.kref ≤ 1 ∧ (d.pvt = true → alive d.driver = true)

/-- The master is not taken off the list. -/
def Fair (s : State) : Op → Prop
  | .destroy alive dname addr => ∀ d, Destroys alive dname addr s d → d.master = false
  | .unregisterDriver dri => ∀ d ∈ s.list, d.driver = dri → d.master = false
  | _ => True

end Runs

section Checking
variable {s : State} {d e : Dyn}

/-- What the loop leaves: the first best of the candidates that beat what it started with. -/
theorem consider_all (list : List Dyn) (best : Int × Option Nat) :
    (list.foldl consider best = best ∧ ∀ e ∈ list, Candidate e → best.1 ≤ e.timing) ∨
    (∃ d ∈ list, Candidate d ∧ list.foldl consider best = (d.timing, some d.ref) ∧ d.timing < best.1 ∧
      ∀ e ∈ list, Candidate e → d.timing ≤ e.timing) := by
  induction list generalizing best with
  | nil => exact .inl ⟨rfl, fun e member => absurd member List.not_mem_nil⟩
  | cons d list ih =>
    rw [List.foldl_cons, consider]
    by_cases better : d.timing ≠ 0 ∧ red d = false ∧ d.timing < best.1
    · rw [if_pos better]
      right
      have candidate : Candidate d := ⟨better.1, better.2.1⟩
      rcases ih (d.timing, some d.ref) with ⟨same, least⟩ | ⟨e, member, holds, found, less, least⟩
      · refine ⟨d, List.mem_cons_self, candidate, same, better.2.2, fun e member holds => ?_⟩
        rcases List.mem_cons.mp member with here | there
        · rw [here]
        · exact least e there holds
      · have less : e.timing < d.timing := less
        refine ⟨e, List.mem_cons_of_mem d member, holds, found, by omega, fun e' member' holds' => ?_⟩
        rcases List.mem_cons.mp member' with here | there
        · rw [here]
          omega
        · exact least e' there holds'
    · rw [if_neg better]
      have none_ (holds : Candidate d) : best.1 ≤ d.timing := by
        by_contra less
        exact better ⟨holds.1, holds.2, by omega⟩
      rcases ih best with ⟨same, least⟩ | ⟨e, member, holds, found, less, least⟩
      · left
        refine ⟨same, fun e member holds => ?_⟩
        rcases List.mem_cons.mp member with here | there
        · subst here
          exact none_ holds
        · exact least e there holds
      · right
        refine ⟨e, List.mem_cons_of_mem d member, holds, found, less, fun e' member' holds' => ?_⟩
        rcases List.mem_cons.mp member' with here | there
        · subst here
          have := none_ holds'
          omega
        · exact least e' there holds'

/-- What holds of the list beside the mark. -/
structure Ok (s : State) : Prop where
  apart : ∀ d ∈ s.list, ∀ e ∈ s.list, d.ref = e.ref → d = e
  untimed : ∀ d ∈ s.list, d.timing = 0 → d.master = false

/-- The span as checkmaster leaves it. -/
def mark (master : Option Nat) (d : Dyn) : Dyn :=
  if master = some d.ref then { unmark d with master := true } else unmark d

theorem mark_same (master : Option Nat) (d : Dyn) :
    (mark master d).ref = d.ref ∧ (mark master d).timing = d.timing ∧ (mark master d).alarms = d.alarms := by
  unfold mark unmark
  split <;> split <;> exact ⟨rfl, rfl, rfl⟩

theorem mark_candidate (master : Option Nat) (d : Dyn) : Candidate (mark master d) ↔ Candidate d := by
  obtain ⟨_, timing, alarms⟩ := mark_same master d
  rw [Candidate, Candidate, red, red, timing, alarms]

theorem mark_master {master : Option Nat} (untimed : d.timing = 0 → d.master = false) :
    (mark master d).master = true ↔ master = some d.ref := by
  unfold mark unmark
  by_cases chosen : master = some d.ref
  · simp [chosen]
  · by_cases timed : d.timing = 0
    · simp [chosen, timed, untimed]
    · simp [chosen, timed]

theorem checkmaster_good (ok : Ok s) : Good (checkmaster s) := by
  generalize found : (s.list.foldl consider (9999999, none)).2 = master
  have list : (checkmaster s).list = s.list.map (mark master) := by
    rw [checkmaster, found]
    rfl
  have flag : (checkmaster s).hasmaster = master.isSome := by rw [checkmaster, found]
  have marked (d : Dyn) (member : d ∈ s.list) : (mark master d).master = true ↔ master = some d.ref :=
    mark_master (ok.untimed d member)
  have chosen : master = none ∨ ∃ d ∈ s.list, master = some d.ref ∧ Candidate d ∧
      ∀ e ∈ s.list, Candidate e → d.timing ≤ e.timing := by
    rcases consider_all s.list (9999999, none) with ⟨same, _⟩ | ⟨d, member, holds, same, _, least⟩
    · exact .inl (by rw [← found, same])
    · exact .inr ⟨d, member, by rw [← found, same], holds, least⟩
  constructor
  · rw [flag, list]
    constructor
    · intro some_
      rcases chosen with none_ | ⟨d, member, here, _⟩
      · rw [none_] at some_
        cases some_
      · exact ⟨_, List.mem_map_of_mem member, (marked d member).mpr here⟩
    · rintro ⟨x, member, flagged⟩
      obtain ⟨d, old, rfl⟩ := List.mem_map.mp member
      rw [(marked d old).mp flagged]
      rfl
  · rw [list]
    intro x here y there flagged flagged'
    obtain ⟨d, old, rfl⟩ := List.mem_map.mp here
    obtain ⟨e, old', rfl⟩ := List.mem_map.mp there
    have same := ((marked d old).mp flagged).symm.trans ((marked e old').mp flagged')
    rw [ok.apart d old e old' (Option.some.inj same)]
  · rw [list]
    intro x here flagged
    obtain ⟨d, old, rfl⟩ := List.mem_map.mp here
    have master_ := (marked d old).mp flagged
    rcases chosen with none_ | ⟨e, there, same, holds, least⟩
    · rw [none_] at master_
      cases master_
    · have same : d = e := ok.apart d old e there (Option.some.inj (master_.symm.trans same))
      subst same
      refine ⟨(mark_candidate master d).mpr holds, fun y there holds' => ?_⟩
      obtain ⟨e, old', rfl⟩ := List.mem_map.mp there
      rw [(mark_same master d).2.1, (mark_same master e).2.1]
      exact least e old' ((mark_candidate master e).mp holds')

theorem checkmaster_ok (ok : Ok s) : Ok (checkmaster s) := by
  constructor
  · intro x here y there same
    obtain ⟨d, old, rfl⟩ := List.mem_map.mp here
    obtain ⟨e, old', rfl⟩ := List.mem_map.mp there
    have same : d.ref = e.ref := ((mark_same _ d).1.symm.trans same).trans (mark_same _ e).1
    rw [ok.apart d old e old' same]
  · intro x here timing
    by_contra flagged
    rw [Bool.not_eq_false] at flagged
    exact ((checkmaster_good ok).best x here flagged).1.1 timing

end Checking

section Steps
variable {s s' : State} {op : Op}

/-- A change of the spans that keeps what the mark depends on, but for the alarms. -/
structure Keeps (f : Dyn → Dyn) : Prop where
  ref : ∀ d, (f d).ref = d.ref
  timing : ∀ d, (f d).timing = d.timing
  master : ∀ d, (f d).master = d.master

theorem map_ok {f : Dyn → Dyn} (keeps : Keeps f) (ok : Ok s) : Ok { s with list := s.list.map f } := by
  constructor
  · intro x here y there same
    obtain ⟨d, old, rfl⟩ := List.mem_map.mp here
    obtain ⟨e, old', rfl⟩ := List.mem_map.mp there
    rw [keeps.ref, keeps.ref] at same
    rw [ok.apart d old e old' same]
  · intro x here timing
    obtain ⟨d, old, rfl⟩ := List.mem_map.mp here
    rw [keeps.timing] at timing
    rw [keeps.master]
    exact ok.untimed d old timing

theorem map_good {f : Dyn → Dyn} (keeps : Keeps f) (alarms : ∀ d, (f d).alarms = d.alarms) (good : Good s) :
    Good { s with list := s.list.map f } := by
  have candidate (d : Dyn) : Candidate (f d) ↔ Candidate d := by
    rw [Candidate, Candidate, red, red, keeps.timing, alarms]
  constructor
  · rw [good.flag]
    constructor
    · rintro ⟨d, here, flagged⟩
      exact ⟨f d, List.mem_map_of_mem here, (keeps.master d).trans flagged⟩
    · rintro ⟨x, here, flagged⟩
      obtain ⟨d, old, rfl⟩ := List.mem_map.mp here
      exact ⟨d, old, (keeps.master d).symm.trans flagged⟩
  · intro x here y there flagged flagged'
    obtain ⟨d, old, rfl⟩ := List.mem_map.mp here
    obtain ⟨e, old', rfl⟩ := List.mem_map.mp there
    rw [keeps.master] at flagged flagged'
    rw [good.one d old e old' flagged flagged']
  · intro x here flagged
    obtain ⟨d, old, rfl⟩ := List.mem_map.mp here
    rw [keeps.master] at flagged
    obtain ⟨holds, least⟩ := good.best d old flagged
    refine ⟨(candidate d).mpr holds, fun y there holds' => ?_⟩
    obtain ⟨e, old', rfl⟩ := List.mem_map.mp there
    rw [keeps.timing, keeps.timing]
    exact least e old' ((candidate e).mp holds')

/-- Taking spans off the list is good just when the master stays. -/
theorem filter_good (good : Good s) (keep : Dyn → Bool) :
    Good { s with list := s.list.filter keep } ↔ ∀ d ∈ s.list, keep d = false → d.master = false := by
  constructor
  · intro good' d member gone
    by_contra flagged
    rw [Bool.not_eq_false] at flagged
    obtain ⟨e, member', flagged'⟩ := good'.flag.mp (good.flag.mpr ⟨d, member, flagged⟩)
    rw [List.mem_filter] at member'
    rw [good.one e member'.1 d member flagged' flagged, gone] at member'
    exact absurd member'.2 Bool.false_ne_true
  · intro stays
    have kept (d : Dyn) (member : d ∈ s.list) (flagged : d.master = true) : d ∈ s.list.filter keep := by
      rw [List.mem_filter]
      refine ⟨member, ?_⟩
      by_contra gone
      rw [Bool.not_eq_true] at gone
      rw [stays d member gone] at flagged
      exact absurd flagged Bool.false_ne_true
    constructor
    · rw [good.flag]
      constructor
      · rintro ⟨d, member, flagged⟩
        exact ⟨d, kept d member flagged, flagged⟩
      · rintro ⟨d, member, flagged⟩
        exact ⟨d, (List.mem_filter.mp member).1, flagged⟩
    · intro d here e there
      exact good.one d (List.mem_filter.mp here).1 e (List.mem_filter.mp there).1
    · intro d here flagged
      obtain ⟨holds, least⟩ := good.best d (List.mem_filter.mp here).1 flagged
      exact ⟨holds, fun e there => least e (List.mem_filter.mp there).1⟩

theorem filter_ok (ok : Ok s) (keep : Dyn → Bool) : Ok { s with list := s.list.filter keep } :=
  ⟨fun d here e there => ok.apart d (List.mem_filter.mp here).1 e (List.mem_filter.mp there).1,
    fun d here => ok.untimed d (List.mem_filter.mp here).1⟩

/-- The things that _destroy_dynamic can do. -/
theorem destroy_cases (alive : Nat → Bool) (dname addr : List Char) (s : State) :
    ((∀ d, ¬ Destroys alive dname addr s d) ∧ (destroyDynamic alive dname addr s).2 = s) ∨
    (∃ d, Destroys alive dname addr s d ∧ (destroyDynamic alive dname addr s).2 = listDel d.ref s) := by
  unfold destroyDynamic Destroys
  cases found : findDynamic dname addr s with
  | none => exact .inl ⟨fun d gone => absurd gone.1 (Option.some_ne_none d).symm, rfl⟩
  | some d =>
    dsimp only
    by_cases busy : 2 < d.kref + 1
    · rw [if_pos busy]
      refine .inl ⟨fun e gone => ?_, rfl⟩
      obtain ⟨same, few, _⟩ := gone
      rw [Option.some.inj same] at busy
      omega
    · rw [if_neg busy]
      by_cases dead : (d.pvt && !alive d.driver) = true
      · rw [if_pos dead]
        refine .inl ⟨fun e gone => ?_, rfl⟩
        obtain ⟨same, _, runs⟩ := gone
        rw [Option.some.inj same, Bool.and_eq_true, Bool.not_eq_true'] at dead
        rw [runs dead.1] at dead
        exact absurd dead.2.symm Bool.false_ne_true
      · rw [if_neg dead]
        refine .inr ⟨d, ⟨rfl, by omega, fun held => ?_⟩, rfl⟩
        rw [held, Bool.true_and, Bool.not_eq_true', Bool.not_eq_false] at dead
        exact dead

theorem receive_keeps (ref : Nat) (sflags : Octet) :
    Keeps fun d => if d.ref = ref then { d with alarms := recordAlarms d.alarms sflags } else d := by
  constructor <;> intro d <;> split <;> rfl

theorem redden_keeps (late : Nat → Bool) : Keeps (redden late) := by
  constructor <;> intro d <;> unfold redden <;> split <;> rfl

theorem kref_keeps (ref kref : Nat) : Keeps fun d => if d.ref = ref then { d with kref := kref } else d := by
  constructor <;> intro d <;> split <;> rfl

theorem step_kept (ok : Ok s) (good : Good s) (moved : Step s op s') : Ok s' ∧ (Good s' ↔ Fair s op) := by
  have checked {s' : State} (ok' : Ok s') : Ok (checkmaster s') ∧ (Good (checkmaster s') ↔ True) :=
    ⟨checkmaster_ok ok', iff_true_intro (checkmaster_good ok')⟩
  cases op with
  | create d =>
    obtain ⟨apart, unmarked, eq⟩ := moved
    rw [eq]
    apply checked
    constructor
    · intro x here y there same
      rcases List.mem_cons.mp here with rfl | old <;> rcases List.mem_cons.mp there with rfl | old'
      · rfl
      · exact absurd same.symm (apart y old')
      · exact absurd same (apart x old)
      · exact ok.apart x old y old' same
    · intro x here timing
      rcases List.mem_cons.mp here with rfl | old
      · exact unmarked
      · exact ok.untimed x old timing
  | destroy alive dname addr =>
    have eq : s' = (destroyDynamic alive dname addr s).2 := moved
    rcases destroy_cases alive dname addr s with ⟨none_, same⟩ | ⟨d, gone, left_⟩
    · rw [eq, same]
      exact ⟨ok, iff_of_true good fun d gone => absurd gone (none_ d)⟩
    · rw [eq, left_, listDel, filter_good good]
      have member := List.mem_of_find?_eq_some gone.1
      refine ⟨filter_ok ok _, fun stays e gone' => ?_, fun fair e member' out => ?_⟩
      · have same : d = e := Option.some.inj (gone.1.symm.trans gone'.1)
        rw [← same]
        exact stays d member (by simp)
      · have same : e.ref = d.ref := by simpa using out
        rw [ok.apart e member' d member same]
        exact fair d gone
  | unregisterDriver dri =>
    have eq : s' = unregisterDriver dri s := moved
    rw [eq, unregisterDriver, filter_good good]
    refine ⟨filter_ok ok _, fun stays d member same => ?_, fun fair d member out => ?_⟩
    · exact stays d member (by simp [same])
    · exact fair d member (by simpa using out)
  | receive ref sflags =>
    have eq : s' = receiveAlarms ref sflags s := moved
    rw [eq, receiveAlarms]
    split
    next => exact checked (map_ok (receive_keeps ref sflags) ok)
    next => exact ⟨ok, iff_of_true good trivial⟩
  | alarmcheck late =>
    have eq : s' = checkForRedAlarm late s := moved
    rw [eq, checkForRedAlarm]
    split
    next => exact checked (map_ok (redden_keeps late) ok)
    next => exact ⟨ok, iff_of_true good trivial⟩
  | setKref ref kref =>
    have eq : s' = setKref ref kref s := moved
    rw [eq]
    have alarms (d : Dyn) : (if d.ref = ref then { d with kref := kref } else d).alarms = d.alarms := by
      split <;> rfl
    exact ⟨map_ok (kref_keeps ref kref) ok, iff_of_true (map_good (kref_keeps ref kref) alarms good) trivial⟩

theorem good_sourced (good : Good s) : Sourced s := by
  intro some_
  cases held : s.hasmaster with
  | true => exact .inl (good.flag.mp held)
  | false =>
    right
    cases first : s.list with
    | nil => exact absurd first some_
    | cons d list =>
      refine ⟨d, List.mem_cons_self, ?_⟩
      simp [syncTick, held, first]

end Steps

section Main

theorem reached_good {s : State} (reached : Reach sys Fair s) : Ok s ∧ Good s := by
  apply @invariant_run _ _ sys Fair (fun s => Ok s ∧ Good s) _ _ s reached
  · intro s begin_
    have empty : s = ⟨[], false⟩ := begin_
    subst empty
    refine ⟨⟨fun d member => absurd member List.not_mem_nil, fun d member => absurd member List.not_mem_nil⟩, ?_⟩
    exact ⟨by simp, fun d member => absurd member List.not_mem_nil, fun d member => absurd member List.not_mem_nil⟩
  · intro s op s' inv fair moved
    have kept := step_kept inv.1 inv.2 moved
    exact ⟨kept.1, kept.2.mpr fair⟩

/-- While the master is not taken off the list it is the best of the candidates, hasmaster
    says whether there is one, and something runs all spans; and a step that takes it off
    ends that. -/
theorem master_kept {s : State} (reached : Reach sys Fair s) :
    (Good s ∧ Sourced s) ∧ ∀ op s', Step s op s' → ((Good s' ∧ Sourced s') ↔ Fair s op) := by
  obtain ⟨ok, good⟩ := reached_good reached
  constructor
  · exact ⟨good, good_sourced good⟩
  · intro op s' moved
    rw [← (step_kept ok good moved).2]
    exact ⟨fun both => both.1, fun good' => ⟨good', good_sourced good'⟩⟩

/-- A span over Ethernet. -/
def span (ref : Nat) (timing : Int) : Dyn :=
  ⟨ref, ['e', 't', 'h'], [Char.ofNat (48 + ref)], 1, timing, false, 0, 1, true⟩

/-- Two spans, of which the second has the better timing. -/
def twoSpans : State := listAdd (span 2 1) (listAdd (span 1 2) ⟨[], false⟩)

theorem two_reached {guard : State → Op → Prop} (free : ∀ s d, guard s (.create d)) : Reach sys guard twoSpans := by
  have first : Reach sys guard (listAdd (span 1 2) ⟨[], false⟩) := by
    apply Reach.step (Reach.start rfl) (free _ (span 1 2))
    exact ⟨fun e member => absurd member List.not_mem_nil, rfl, rfl⟩
  apply Reach.step first (free _ (span 2 1))
  refine ⟨fun e member => ?_, rfl, rfl⟩
  have ref : e.ref = 1 := by
    have refs : ((listAdd (span 1 2) ⟨[], false⟩).list.map fun e => e.ref) = [1] := rfl
    have inside := List.mem_map_of_mem (f := fun e : Dyn => e.ref) member
    rw [refs] at inside
    simpa using inside
  rw [ref]
  decide

/-- The span that is not the master may go. -/
theorem slave_goes : Good twoSpans ∧ Good (destroyDynamic (fun _ => true) ['e', 't', 'h'] ['1'] twoSpans).2 := by
  have reached : Reach sys Fair twoSpans := two_reached fun _ _ => trivial
  have kept := master_kept reached
  refine ⟨kept.1.1, ((kept.2 (.destroy (fun _ => true) ['e', 't', 'h'] ['1']) _ rfl).mpr ?_).1⟩
  intro d gone
  have found : findDynamic ['e', 't', 'h'] ['1'] twoSpans = some (span 1 2) := by decide
  rw [← Option.some.inj (found.symm.trans gone.1)]
  rfl

/-- The master goes, and hasmaster stays: no span is marked, and no tick runs the span that is
    left. -/
theorem master_gone : ∃ s, Reach sys anyStep s ∧ s.hasmaster = true ∧ (∀ d ∈ s.list, d.master = false) ∧
    s.list ≠ [] ∧ ¬ Good s ∧ ¬ Sourced s := by
  have reached : Reach sys anyStep (destroyDynamic (fun _ => true) ['e', 't', 'h'] ['2'] twoSpans).2 :=
    Reach.step (l := .destroy (fun _ => true) ['e', 't', 'h'] ['2']) (two_reached fun _ _ => trivial) trivial rfl
  have list : (destroyDynamic (fun _ => true) ['e', 't', 'h'] ['2'] twoSpans).2 = ⟨[span 1 2], true⟩ := by rfl
  rw [list] at reached
  refine ⟨_, reached, rfl, by simp [span], by simp, fun good => ?_, fun sourced => ?_⟩
  · obtain ⟨d, member, flagged⟩ := good.flag.mp rfl
    rw [List.mem_singleton.mp member] at flagged
    exact absurd flagged Bool.false_ne_true
  · rcases sourced (by simp) with ⟨d, member, flagged⟩ | ⟨d, _, runs⟩
    · rw [List.mem_singleton.mp member] at flagged
      exact absurd flagged Bool.false_ne_true
    · exact absurd runs (by simp [syncTick])

end Main
end DspanList
