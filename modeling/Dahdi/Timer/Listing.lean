import Dahdi.Timer.Config

/-!
Which timers the list of running timers holds, as long as a call that adds a timer
finds it still off the list.
-/
namespace TimerList
open LinkedRing GuardedRun
variable {T : Type} [DecidableEq T]

/-- Each open timer is met at most once on the list, and is there when it has a
    period. -/
def Consistent (s : State T) : Prop :=
  ∃ fuel nodes, walk s.links dahdiTimers fuel (s.links.next dahdiTimers) = some nodes ∧
    ∀ t, s.opened t → nodes.count (some t) ≤ 1 ∧ (some t ∈ nodes ↔ 0 < (s.timer t).ms)

def Unlisted (s : State T) : Pending T → Prop
  | .activate t _ => listEmpty s.links (some t)
  | _ => True

instance (s : State T) (p : Pending T) : Decidable (Unlisted s p) :=
  match p with
  | .activate t _ => inferInstanceAs (Decidable (listEmpty s.links (some t) = true))
  | .disable _ => inferInstanceAs (Decidable True)
  | .release _ => inferInstanceAs (Decidable True)

/-- A call that adds its timer finds it off the list under the locks. -/
def Retested (s : State T) : Label T → Prop
  | .resume call => ∀ p ∈ s.pending[call]?, Unlisted s p
  | _ => True

instance (s : State T) (l : Label T) : Decidable (Retested s l) :=
  match l with
  | .resume call => inferInstanceAs (Decidable (∀ p ∈ s.pending[call]?, Unlisted s p))
  | .opens _ => inferInstanceAs (Decidable True)
  | .config _ _ => inferInstanceAs (Decidable True)
  | .release _ => inferInstanceAs (Decidable True)
  | .ack _ _ => inferInstanceAs (Decidable True)
  | .ping _ _ => inferInstanceAs (Decidable True)
  | .tick => inferInstanceAs (Decidable True)

/-- The pointers of the list and the timers agree on these being the running ones. -/
structure Held (s : State T) (nodes : List (Option T)) : Prop where
  ring : Ring s.links dahdiTimers nodes
  alone : ∀ t, s.opened t → some t ∉ nodes →
    s.links.next (some t) = some t ∧ s.links.prev (some t) = some t
  period : ∀ t, s.opened t → (some t ∈ nodes ↔ 0 < (s.timer t).ms)
  opened : ∀ t, some t ∈ nodes → s.opened t

/-- No two of the calls left to finish are on one file when one of them closes it. -/
structure Queued (s : State T) : Prop where
  opened : ∀ p ∈ s.pending, s.opened p.timer
  positive : ∀ t j, .activate t j ∈ s.pending → 0 < j
  closing : s.pending.Pairwise fun p q => p.timer = q.timer → ¬ p.releases ∧ ¬ q.releases

def Kept (s : State T) : Prop := Queued s ∧ ∃ nodes, Held s nodes

theorem held_consistent {s : State T} {nodes : List (Option T)} (held : Held s nodes) :
    Consistent s := by
  refine ⟨nodes.length + 1, nodes, ring_walk held.ring, ?_⟩
  intro t open_
  constructor
  · exact List.nodup_iff_count_le_one.mp (List.nodup_cons.mp held.ring.distinct).2 (some t)
  · exact held.period t open_

section held
variable {s : State T} {nodes : List (Option T)} {t : T}

theorem off_ring (off : some t ∉ nodes) : some t ∉ dahdiTimers :: nodes := by
  intro member
  rcases List.mem_cons.mp member with same | inside
  · cases same
  · exact off inside

/-- The test under the timer's lock tells whether the timer is on the list. -/
theorem listEmpty_iff (held : Held s nodes) (open_ : s.opened t) :
    listEmpty s.links (some t) = true ↔ some t ∉ nodes := by
  rw [listEmpty, decide_eq_true_iff]
  constructor
  · intro self member
    exact ring_listed held.ring member self
  · intro off
    exact (held.alone t open_ off).1

/-- A change of timers that leaves the periods alone. -/
theorem held_timer {s' : State T} (held : Held s nodes) (links : s'.links = s.links)
    (opened : s'.opened = s.opened)
    (period : ∀ t, (s'.timer t).ms = (s.timer t).ms) : Held s' nodes := by
  constructor
  · rw [links]
    exact held.ring
  · rw [links, opened]
    exact held.alone
  · intro t open_
    rw [opened] at open_
    rw [period]
    exact held.period t open_
  · rw [opened]
    exact held.opened

theorem held_putOff (held : Held s nodes) (p : Pending T) : Held (putOff s p) nodes :=
  held_timer held rfl rfl (fun _ => rfl)

theorem setTimer_ms {v : Timer} (same : v.ms = (s.timer t).ms) (u : T) :
    ((setTimer s t v).timer u).ms = (s.timer u).ms := by
  by_cases it : u = t
  · simp only [it, setTimer, Function.update_self, same]
  · simp only [setTimer, Function.update_of_ne it]

theorem held_setTimer (held : Held s nodes) {v : Timer} (same : v.ms = (s.timer t).ms) :
    Held (setTimer s t v) nodes :=
  held_timer held rfl rfl (setTimer_ms same)

theorem held_setPeriod (held : Held s nodes) {j : Int} (right : some t ∈ nodes ↔ 0 < j) :
    Held (setPeriod s t j) nodes := by
  refine ⟨held.ring, held.alone, ?_, held.opened⟩
  intro u open_
  by_cases it : u = t
  · simp only [it, setPeriod, setTimer, Function.update_self]
    exact right
  · simp only [setPeriod, setTimer, Function.update_of_ne it]
    exact held.period u open_

theorem held_activate (held : Held s nodes) (open_ : s.opened t) (off : some t ∉ nodes) {j : Int}
    (positive : 0 < j) :
    Held (setLinks (setPeriod s t j) (listAdd s.links (some t) dahdiTimers)) (some t :: nodes) := by
  constructor
  · exact ring_add held.ring (off_ring off)
  · intro u opened apart
    rw [List.mem_cons, not_or] at apart
    have same := add_off held.ring (off_ring apart.2) apart.1
    simp only [setLinks, same]
    exact held.alone u opened apart.2
  · intro u opened
    by_cases it : u = t
    · simp only [it, setLinks, setPeriod, setTimer, Function.update_self, List.mem_cons, true_or,
        positive]
    · simp only [setLinks, setPeriod, setTimer, Function.update_of_ne it, List.mem_cons,
        Option.some.injEq, it, false_or]
      exact held.period u opened
  · intro u member
    rcases List.mem_cons.mp member with same | inside
    · cases same
      exact open_
    · exact held.opened u inside

/-- Off the list the timer is alone, whether it was there or not. -/
theorem held_off (held : Held s nodes) (open_ : s.opened t) :
    Ring (listDelInit s.links (some t)) dahdiTimers (nodes.filter (· ≠ some t)) ∧
      ∀ u, s.opened u → some u ∉ nodes.filter (· ≠ some t) →
        (listDelInit s.links (some t)).next (some u) = some u ∧
          (listDelInit s.links (some t)).prev (some u) = some u := by
  by_cases member : some t ∈ nodes
  · refine ⟨ring_del held.ring member, ?_⟩
    intro u opened off
    by_cases it : u = t
    · rw [it]
      exact del_self
    · have apart : some u ∉ nodes := by
        intro inside
        exact off (List.mem_filter.mpr
        ⟨inside, decide_eq_true fun same => it (Option.some.inj same)⟩)
      have same := del_off held.ring member (off_ring apart)
      rw [same.1, same.2]
      exact held.alone u opened apart
  · have self := held.alone t open_ member
    have whole : nodes.filter (· ≠ some t) = nodes := by
      apply List.filter_eq_self.mpr
      intro y inside
      exact decide_eq_true fun same => member (same ▸ inside)
    rw [del_alone self.1 self.2, whole]
    exact ⟨held.ring, held.alone⟩

theorem left_iff (u : T) :
    some u ∈ nodes.filter (· ≠ some t) ↔ u ≠ t ∧ some u ∈ nodes := by
  rw [List.mem_filter, decide_eq_true_iff, ne_eq, Option.some.injEq, and_comm]

theorem held_disable (held : Held s nodes) (open_ : s.opened t) :
    Held (setPeriod (setLinks s (listDelInit s.links (some t))) t 0) (nodes.filter (· ≠ some t)) := by
  obtain ⟨ring, alone⟩ := held_off held open_
  refine ⟨ring, alone, ?_, ?_⟩
  · intro u opened
    rw [left_iff]
    by_cases it : u = t
    · simp [it, setPeriod, setTimer]
    · simp only [setPeriod, setTimer, Function.update_of_ne it, it, ne_eq, not_false_eq_true,
        true_and]
      exact held.period u opened
  · intro u member
    exact held.opened u (List.mem_of_mem_filter member)

theorem held_free (held : Held s nodes) (off : some t ∉ nodes) : Held (free s t) nodes := by
  have still : ∀ u, (free s t).opened u = true → s.opened u = true := by
    intro u opened
    by_cases it : u = t
    · simp [it, free] at opened
    · simpa only [free, Function.update_of_ne it] using opened
  refine ⟨held.ring, fun u opened => held.alone u (still u opened),
    fun u opened => held.period u (still u opened), ?_⟩
  intro u member
  have other : u ≠ t := fun same => off (same ▸ member)
  simp only [free, Function.update_of_ne other]
  exact held.opened u member

theorem held_release (held : Held s nodes) (open_ : s.opened t) :
    Held (free (setLinks s (listDelInit s.links (some t))) t) (nodes.filter (· ≠ some t)) := by
  obtain ⟨ring, alone⟩ := held_off held open_
  have still : ∀ u, (free s t).opened u = true → u ≠ t ∧ s.opened u = true := by
    intro u opened
    by_cases it : u = t
    · simp [it, free] at opened
    · exact ⟨it, by simpa only [free, Function.update_of_ne it] using opened⟩
  refine ⟨ring, fun u opened => alone u (still u opened).2, ?_, ?_⟩
  · intro u opened
    rw [left_iff]
    simp only [(still u opened).1, ne_eq, not_false_eq_true, true_and]
    exact held.period u (still u opened).2
  · intro u member
    obtain ⟨other, inside⟩ := (left_iff u).mp member
    simp only [free, setLinks, Function.update_of_ne other]
    exact held.opened u inside

theorem held_open (held : Held s nodes) (shut : s.opened t = false) : Held (timerOpen s t) nodes := by
  have off : some t ∉ nodes := by
    intro member
    rw [held.opened t member] at shut
    cases shut
  constructor
  · exact ring_init held.ring (off_ring off)
  · intro u opened apart
    by_cases it : u = t
    · simp [it, timerOpen, initListHead]
    · have other : (some u : Option T) ≠ some t := fun same => it (Option.some.inj same)
      simp only [timerOpen, initListHead, Function.update_of_ne other, Function.update_of_ne it] at *
      exact held.alone u opened apart
  · intro u opened
    by_cases it : u = t
    · simp [it, timerOpen, off]
    · simp only [timerOpen, Function.update_of_ne it] at *
      exact held.period u opened
  · intro u member
    have other : u ≠ t := fun same => off (same ▸ member)
    simp only [timerOpen, Function.update_of_ne other]
    exact held.opened u member

end held

section queued
variable {s s' : State T} {t : T}

theorem queued_less (queued : Queued s) (opened : s'.opened = s.opened) {call : Nat}
    (pending : s'.pending = s.pending.eraseIdx call) : Queued s' := by
  constructor
  · rw [pending, opened]
    intro p member
    exact queued.opened p (List.mem_of_mem_eraseIdx member)
  · rw [pending]
    intro t j member
    exact queued.positive t j (List.mem_of_mem_eraseIdx member)
  · rw [pending]
    exact queued.closing.sublist (List.eraseIdx_sublist ..)

theorem queued_same (queued : Queued s) (pending : s'.pending = s.pending)
    (opened : ∀ u, s.opened u → s'.opened u) : Queued s' := by
  constructor
  · rw [pending]
    intro p member
    exact opened p.timer (queued.opened p member)
  · rw [pending]
    exact queued.positive
  · rw [pending]
    exact queued.closing

theorem queued_putOff (queued : Queued s) {p : Pending T} (open_ : s.opened p.timer)
    (positive : ∀ t j, p = .activate t j → 0 < j)
    (apart : ∀ q ∈ s.pending, q.timer = p.timer → ¬ q.releases ∧ ¬ p.releases) :
    Queued (putOff s p) := by
  constructor
  · intro q member
    rcases List.mem_append.mp member with before | last
    · exact queued.opened q before
    · rw [List.mem_singleton.mp last]
      exact open_
  · intro u j member
    rcases List.mem_append.mp member with before | last
    · exact queued.positive u j before
    · exact positive u j (List.mem_singleton.mp last).symm
  · apply List.pairwise_append.mpr
    refine ⟨queued.closing, List.pairwise_singleton .., ?_⟩
    intro q member p' last
    rw [List.mem_singleton.mp last]
    exact apart q member

/-- A call on a file that is not being closed joins those left to finish. -/
theorem queued_join (queued : Queued s) (usable : Usable s t) {p : Pending T} (it : p.timer = t)
    (stays : p.releases = false) (positive : ∀ t j, p = .activate t j → 0 < j) :
    Queued (putOff s p) := by
  apply queued_putOff queued
  · rw [it]
    exact usable.1
  · exact positive
  · intro q member same
    constructor
    · intro closes
      cases q with
      | release u =>
        rw [it] at same
        exact usable.2 (same ▸ member)
      | _ => cases closes
    · rw [stays]
      exact Bool.false_ne_true

theorem queued_last (queued : Queued s) (last : LastUser s t) : Queued (putOff s (.release t)) := by
  apply queued_putOff queued
  · exact last.1
  · intro u j same
    cases same
  · intro q member same
    exact absurd same (last.2 q member)

theorem queued_free (queued : Queued s) (unused : ∀ p ∈ s.pending, p.timer ≠ t) :
    Queued (free s t) := by
  constructor
  · intro p member
    simp only [free, Function.update_of_ne (unused p member)]
    exact queued.opened p member
  · exact queued.positive
  · exact queued.closing

end queued

section steps
variable {s : State T} {t : T}

theorem kept_config (kept : Kept s) (usable : Usable s t) (wanted : Int) :
    Kept (timerConfig s t wanted) := by
  obtain ⟨queued, nodes, held⟩ := kept
  have test := listEmpty_iff held usable.1
  have whole : 0 ≤ (if wanted < 0 then 0 else wanted) := by
    split <;> omega
  simp only [timerConfig]
  generalize (if wanted < 0 then 0 else wanted) = j at whole ⊢
  split
  case isFalse => exact ⟨queued, nodes, held⟩
  case isTrue =>
    split
    case isTrue adds =>
      refine ⟨queued_join queued usable rfl rfl ?_, nodes, held_putOff held _⟩
      intro u j same
      cases same
      omega
    case isFalse stays =>
      split
      case isTrue removes =>
        refine ⟨queued_join queued usable rfl rfl ?_, nodes, held_putOff held _⟩
        intro u j same
        cases same
      case isFalse remains =>
        refine ⟨queued_same queued rfl (fun _ open_ => open_), nodes, held_setPeriod held ?_⟩
        rw [test] at stays remains
        constructor
        · intro member
          by_contra none
          exact remains ⟨by omega, fun off => off member⟩
        · intro positive
          by_contra off
          exact stays ⟨by omega, off⟩

theorem kept_release (kept : Kept s) (last : LastUser s t) : Kept (timerRelease s t) := by
  obtain ⟨queued, nodes, held⟩ := kept
  simp only [timerRelease]
  split
  case isTrue => exact ⟨queued_last queued last, nodes, held_putOff held _⟩
  case isFalse off =>
    rw [not_not, listEmpty_iff held last.1] at off
    exact ⟨queued_free queued last.2, nodes, held_free held off⟩

/-- A closing call is the only one on its file. -/
theorem alone_closing (queued : Queued s) {call : Nat}
    (found : s.pending[call]? = some (.release t)) :
    ∀ p ∈ s.pending.eraseIdx call, p.timer ≠ t := by
  intro p member same
  obtain ⟨i, other, at_⟩ := List.mem_eraseIdx_iff_getElem?.mp member
  obtain ⟨below, here⟩ := List.getElem?_eq_some_iff.mp found
  obtain ⟨bound, there⟩ := List.getElem?_eq_some_iff.mp at_
  have pairs := List.pairwise_iff_getElem.mp queued.closing
  rcases Nat.lt_or_gt_of_ne other with before | behind
  · have apart := pairs i call bound below before
    rw [here, there] at apart
    exact (apart same).2 rfl
  · have apart := pairs call i below bound behind
    rw [here, there] at apart
    exact (apart same.symm).1 rfl

theorem kept_resume (kept : Kept s) {call : Nat} {p : Pending T}
    (found : s.pending[call]? = some p) (unlisted : Unlisted s p) :
    Kept (resume { s with pending := s.pending.eraseIdx call } p) := by
  obtain ⟨queued, nodes, held⟩ := kept
  have member := List.mem_of_getElem? found
  have open_ := queued.opened p member
  have fewer : Queued { s with pending := s.pending.eraseIdx call } := queued_less queued rfl rfl
  have less : Held { s with pending := s.pending.eraseIdx call } nodes :=
    held_timer held rfl rfl (fun _ => rfl)
  cases p with
  | activate t j =>
    have off := (listEmpty_iff held open_).mp unlisted
    refine ⟨queued_same fewer rfl (fun _ opened => opened), some t :: nodes, ?_⟩
    exact held_activate less open_ off (queued.positive t j member)
  | disable t =>
    refine ⟨queued_same fewer rfl (fun _ opened => opened), nodes.filter (· ≠ some t), ?_⟩
    exact held_disable less open_
  | release t =>
    have linked : Queued (setLinks { s with pending := s.pending.eraseIdx call }
        (listDelInit s.links (some t))) := queued_same fewer rfl (fun _ opened => opened)
    refine ⟨queued_free linked ?_, nodes.filter (· ≠ some t), held_release less open_⟩
    exact alone_closing queued found

theorem expire_ms (v : Timer) : (expire v).ms = v.ms := by
  simp only [expire]
  split <;> rfl

theorem kept_setTimer (kept : Kept s) {v : Timer} (same : v.ms = (s.timer t).ms) :
    Kept (setTimer s t v) := by
  obtain ⟨queued, nodes, held⟩ := kept
  exact ⟨queued_same queued rfl (fun _ opened => opened), nodes, held_setTimer held same⟩

theorem kept_walk (kept : Kept s) (met : List (Option T)) : Kept (met.foldl processTimer s) := by
  induction met generalizing s with
  | nil => exact kept
  | cons node rest ih =>
    apply ih
    cases node with
    | none => exact kept
    | some t => exact kept_setTimer kept (expire_ms _)

theorem kept_open (kept : Kept s) (shut : s.opened t = false) : Kept (timerOpen s t) := by
  obtain ⟨queued, nodes, held⟩ := kept
  refine ⟨queued_same queued rfl ?_, nodes, held_open held shut⟩
  intro u opened
  by_cases it : u = t
  · simp [it, timerOpen]
  · simpa only [timerOpen, Function.update_of_ne it] using opened

theorem kept_step {fuel : Nat} {l : Label T} {s' : State T} (kept : Kept s) (guard : Retested s l)
    (moved : next fuel s l = some s') : Kept s' := by
  cases l with
  | opens t =>
    rw [next] at moved
    split at moved
    case isTrue => cases moved
    case isFalse shut =>
      rw [← Option.some.inj moved]
      exact kept_open kept (Bool.eq_false_iff.mpr shut)
  | config t wanted =>
    obtain ⟨usable, same⟩ := Option.ite_none_right_eq_some.mp moved
    rw [← Option.some.inj same]
    exact kept_config kept usable wanted
  | release t =>
    obtain ⟨last, same⟩ := Option.ite_none_right_eq_some.mp moved
    rw [← Option.some.inj same]
    exact kept_release kept last
  | resume call =>
    obtain ⟨p, found, rfl⟩ := Option.map_eq_some_iff.mp moved
    exact kept_resume kept found (guard p found)
  | ack t wanted =>
    obtain ⟨_, same⟩ := Option.ite_none_right_eq_some.mp moved
    rw [← Option.some.inj same]
    exact kept_setTimer kept rfl
  | ping t ping =>
    obtain ⟨_, same⟩ := Option.ite_none_right_eq_some.mp moved
    rw [← Option.some.inj same]
    exact kept_setTimer kept rfl
  | tick =>
    obtain ⟨met, _, rfl⟩ := Option.map_eq_some_iff.mp moved
    exact kept_walk kept met

theorem kept_empty : Kept (empty : State T) := by
  refine ⟨⟨?_, ?_, List.Pairwise.nil⟩, [], ring_initial ⟨rfl, rfl⟩, ?_, ?_, ?_⟩
  · intro p member
    cases member
  · intro t j member
    cases member
  · intro t opened
    cases opened
  · intro t opened
    cases opened
  · intro t member
    cases member

end steps

/-- The tick's walk is over after as many steps as there are running timers. -/
theorem process_returns {s : State T} (kept : Kept s) : ∃ fuel s', processTimers fuel s = some s' := by
  obtain ⟨_, nodes, held⟩ := kept
  refine ⟨nodes.length + 1, nodes.foldl processTimer s, ?_⟩
  rw [processTimers, ring_walk held.ring, Option.map_some]

theorem timers_consistent (s : State T) (reached : Reach timers Retested s) : Consistent s := by
  have kept : Kept s := by
    apply @invariant_run _ _ timers Retested Kept
    · intro begin_ initial
      rw [initial]
      exact kept_empty
    · intro before l after kept guard moved
      obtain ⟨fuel, moved⟩ := moved
      exact kept_step kept guard moved
    · exact reached
  obtain ⟨_, nodes, held⟩ := kept
  exact held_consistent held

def stepped : State Nat → Label Nat → Option (State Nat) := next 8

/-- Two timers run, one is stopped and set again, and the other is closed. -/
def usual : List (Label Nat) :=
  [.opens 1, .opens 2, .config 1 20, .config 2 (-3), .resume 0, .tick, .config 2 8, .resume 0, .tick,
    .config 1 0, .config 2 16, .resume 0, .config 1 40, .resume 0, .release 2, .tick, .resume 0]

theorem timers_consistent_usual :
    ∃ s, follow stepped Retested usual empty = some s ∧ s.opened 1 = true ∧ Consistent s := by
  have runs : (follow stepped Retested usual empty).any (·.opened 1) = true := by decide +kernel
  obtain ⟨s, ends, opened⟩ := (Option.any_eq_true _ _).mp runs
  refine ⟨s, ends, opened, ?_⟩
  apply timers_consistent
  apply @follow_reach _ _ timers _ _ _ (fun s l s' done => ⟨8, done⟩) _ _ _ _ ends
  exact Reach.start rfl

/-- Two calls on one file find the timer off the list before either has added it. -/
def both : List (Label Nat) :=
  [.opens 1, .config 1 20, .config 1 30, .resume 0, .resume 0]

theorem timer_added_twice : ¬ ∀ s : State Nat, Reach timers anyStep s → Consistent s := by
  intro always
  have runs : (follow stepped anyStep both empty).any (fun s =>
      s.links.next dahdiTimers = some 1 ∧ s.links.next (some 1) = some 1) = true := by decide +kernel
  obtain ⟨s, ends, shown⟩ := (Option.any_eq_true _ _).mp runs
  obtain ⟨first, self⟩ := of_decide_eq_true shown
  have reached : Reach timers anyStep s := by
    apply @follow_reach _ _ timers _ _ _ (fun s l s' done => ⟨8, done⟩) _ _ _ _ ends
    exact Reach.start rfl
  obtain ⟨fuel, nodes, walked, _⟩ := always s reached
  have apart : some 1 ≠ (dahdiTimers : Option Nat) := Option.some_ne_none 1
  rw [first, walk_stuck self apart] at walked
  cases walked

end TimerList
