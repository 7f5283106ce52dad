import Dahdi.Timer.Listing

/-!
How often a running timer trips: the ticks of its period and nothing else, whatever the
users of other timers do meanwhile.
-/
namespace TimerList
open LinkedRing GuardedRun
variable {T : Type} [DecidableEq T]

/-- The ticks of a period. -/
def ticksOf (ms : Int) : Nat := ((ms + 7) / 8).toNat

/-- Nobody opens, sets or closes the timer. -/
def Spares (t : T) (s : State T) : Label T → Prop
  | .opens u => u ≠ t
  | .config u _ => u ≠ t
  | .release u => u ≠ t
  | .resume call => ∀ p ∈ s.pending[call]?, p.timer ≠ t
  | _ => True

def ticks : Label T → Nat
  | .tick => 1
  | _ => 0

/-- What a call takes from the trips of the timer. -/
def taken (t : T) (s : State T) : Label T → Int
  | .ack u wanted =>
    if u = t then
      if wanted < 1 ∨ (s.timer t).tripped < wanted then (s.timer t).tripped else wanted
    else 0
  | _ => 0

/-- A run that spares the timer, its ticks, and the trips that were taken meanwhile. -/
inductive Spell (t : T) : State T → Nat → Int → State T → Prop where
  | start (s : State T) : Spell t s 0 0 s
  | step {s s' s'' : State T} {n : Nat} {a : Int} {l : Label T} : Spell t s n a s' → Retested s' l →
      Spares t s' l → timers.step s' l s'' → Spell t s (n + ticks l) (a + taken t s' l) s''

section Walk
variable {s : State T} {nodes : List (Option T)} {t : T}

theorem walk_same {N : Type} [DecidableEq N] {r : Links N} {head x : N} {fuel fuel' : Nat} {a b : List N}
    (first : walk r head fuel x = some a) (second : walk r head fuel' x = some b) : a = b := by
  induction fuel generalizing x fuel' a b with
  | zero => cases first
  | succ fuel ih =>
    cases fuel' with
    | zero => cases second
    | succ fuel' =>
      rw [walk] at first second
      split at first
      · rename_i back
        rw [if_pos back] at second
        exact Option.some.inj (first.symm.trans second)
      · rename_i on
        rw [if_neg on] at second
        obtain ⟨a', met, rfl⟩ := Option.map_eq_some_iff.mp first
        obtain ⟨b', met', rfl⟩ := Option.map_eq_some_iff.mp second
        rw [ih met met']

theorem process_other {node : Option T} (other : node ≠ some t) :
    (processTimer s node).timer t = s.timer t := by
  cases node with
  | none => rfl
  | some u =>
    have apart : t ≠ u := fun same => other (same ▸ rfl)
    simp only [processTimer, setTimer, Function.update_of_ne apart]

theorem processes_others (off : some t ∉ nodes) : (nodes.foldl processTimer s).timer t = s.timer t := by
  induction nodes generalizing s with
  | nil => rfl
  | cons node rest ih =>
    rw [List.mem_cons, not_or] at off
    rw [List.foldl_cons, ih off.2, process_other (Ne.symm off.1)]

/-- A walk that meets the timer once expires it once. -/
theorem processes_once (once : nodes.Nodup) (on : some t ∈ nodes) :
    (nodes.foldl processTimer s).timer t = expire (s.timer t) := by
  induction nodes generalizing s with
  | nil => cases on
  | cons node rest ih =>
    obtain ⟨off, once'⟩ := List.nodup_cons.mp once
    rw [List.foldl_cons]
    rcases List.mem_cons.mp on with here | later
    · rw [← here] at off ⊢
      rw [processes_others off]
      simp only [processTimer, setTimer, Function.update_self]
    · have other : node ≠ some t := fun same => off (same ▸ later)
      rw [ih once' later, process_other other]

theorem tick_timer {s' : State T} {fuel : Nat} (held : Held s nodes) (on : some t ∈ nodes)
    (ticked : processTimers fuel s = some s') : (s'.timer t) = expire (s.timer t) := by
  obtain ⟨met, walked, rfl⟩ := Option.map_eq_some_iff.mp ticked
  rw [walk_same walked (ring_walk held.ring)]
  exact processes_once (List.nodup_cons.mp held.ring.distinct).2 on

end Walk

section Trips
variable {t : T} {s s' : State T} {l : Label T}

theorem processes_opened (nodes : List (Option T)) : (nodes.foldl processTimer s).opened = s.opened := by
  induction nodes generalizing s with
  | nil => rfl
  | cons node rest ih =>
    rw [List.foldl_cons, ih]
    cases node <;> rfl

theorem config_other {u : T} (other : u ≠ t) (wanted : Int) :
    (timerConfig s u wanted).timer t = s.timer t ∧ (timerConfig s u wanted).opened = s.opened := by
  unfold timerConfig
  simp only
  generalize (if wanted < 0 then 0 else wanted) = j
  split
  · split
    · exact ⟨rfl, rfl⟩
    · split
      · exact ⟨rfl, rfl⟩
      · exact ⟨Function.update_of_ne (Ne.symm other) _ _, rfl⟩
  · exact ⟨rfl, rfl⟩

theorem release_other {u : T} (other : u ≠ t) :
    (timerRelease s u).timer t = s.timer t ∧ (timerRelease s u).opened t = s.opened t := by
  unfold timerRelease
  split
  · exact ⟨rfl, rfl⟩
  · exact ⟨rfl, Function.update_of_ne (Ne.symm other) _ _⟩

theorem resume_other {p : Pending T} (other : p.timer ≠ t) :
    (resume s p).timer t = s.timer t ∧ (resume s p).opened t = s.opened t := by
  cases p with
  | activate u j => exact ⟨Function.update_of_ne (Ne.symm other) _ _, rfl⟩
  | disable u => exact ⟨Function.update_of_ne (Ne.symm other) _ _, rfl⟩
  | release u => exact ⟨rfl, Function.update_of_ne (Ne.symm other) _ _⟩

/-- What a step that spares the timer does to it: it expires in a tick, and at most some
    of its trips are taken otherwise. -/
theorem spared_step (kept : Kept s) (spares : Spares t s l) (moved : timers.step s l s')
    (open_ : s.opened t) (running : 0 < (s.timer t).ms) :
    s'.opened t ∧ (ticks l = 1 ∧ taken t s l = 0 ∧ s'.timer t = expire (s.timer t) ∨
      ticks l = 0 ∧ (s'.timer t).ms = (s.timer t).ms ∧ (s'.timer t).pos = (s.timer t).pos ∧
        (s'.timer t).tripped + taken t s l = (s.timer t).tripped) := by
  obtain ⟨fuel, moved⟩ := moved
  cases l with
  | opens u =>
    rw [next] at moved
    split at moved
    · cases moved
    · obtain rfl := Option.some.inj moved
      have same : (timerOpen s u).timer t = s.timer t := Function.update_of_ne (Ne.symm spares) _ _
      have still : (timerOpen s u).opened t = s.opened t := Function.update_of_ne (Ne.symm spares) _ _
      rw [same, still]
      exact ⟨open_, .inr ⟨rfl, rfl, rfl, Int.add_zero _⟩⟩
  | config u wanted =>
    obtain ⟨_, same⟩ := Option.ite_none_right_eq_some.mp moved
    obtain rfl := Option.some.inj same
    obtain ⟨timer, opened⟩ := @config_other T _ t s u spares wanted
    rw [timer, opened]
    exact ⟨open_, .inr ⟨rfl, rfl, rfl, Int.add_zero _⟩⟩
  | release u =>
    obtain ⟨_, same⟩ := Option.ite_none_right_eq_some.mp moved
    obtain rfl := Option.some.inj same
    obtain ⟨timer, opened⟩ := @release_other T _ t s u spares
    rw [timer, opened]
    exact ⟨open_, .inr ⟨rfl, rfl, rfl, Int.add_zero _⟩⟩
  | resume call =>
    obtain ⟨p, found, rfl⟩ := Option.map_eq_some_iff.mp moved
    obtain ⟨timer, opened⟩ := @resume_other T _ t { s with pending := s.pending.eraseIdx call } p (spares p found)
    rw [timer, opened]
    exact ⟨open_, .inr ⟨rfl, rfl, rfl, Int.add_zero _⟩⟩
  | ack u wanted =>
    obtain ⟨_, same⟩ := Option.ite_none_right_eq_some.mp moved
    obtain rfl := Option.some.inj same
    refine ⟨open_, .inr ⟨rfl, ?_⟩⟩
    by_cases it : u = t
    · subst it
      simp [taken, timerAck, setTimer]
    · have same : (timerAck s u wanted).timer t = s.timer t := Function.update_of_ne (Ne.symm it) _ _
      rw [same, taken, if_neg it]
      exact ⟨rfl, rfl, Int.add_zero _⟩
  | ping u ping =>
    obtain ⟨_, same⟩ := Option.ite_none_right_eq_some.mp moved
    obtain rfl := Option.some.inj same
    refine ⟨open_, .inr ⟨rfl, ?_⟩⟩
    by_cases it : u = t
    · subst it
      simp [taken, timerPing, setTimer]
    · have same : (timerPing s u ping).timer t = s.timer t := Function.update_of_ne (Ne.symm it) _ _
      rw [same]
      exact ⟨rfl, rfl, Int.add_zero _⟩
  | tick =>
    obtain ⟨_, nodes, held⟩ := kept
    have on : some t ∈ nodes := (held.period t open_).mpr running
    have still : s'.opened = s.opened := by
      obtain ⟨met, _, rfl⟩ := Option.map_eq_some_iff.mp moved
      exact processes_opened met
    rw [still]
    exact ⟨open_, .inl ⟨rfl, rfl, tick_timer held on moved⟩⟩

/-- A timer n ticks after it was set, when so many of its trips were taken. -/
structure Elapsed (ms tripped : Int) (n : Nat) (a : Int) (v : Timer) : Prop where
  same : v.ms = ms
  trips : v.tripped + a = tripped + (n / ticksOf ms : Nat)
  pos : v.pos = ms - 8 * (n % ticksOf ms : Nat)

theorem elapsed_tick {ms tripped a : Int} {n : Nat} {v : Timer} (positive : 0 < ms)
    (elapsed : Elapsed ms tripped n a v) : Elapsed ms tripped (n + 1) a (expire v) := by
  obtain ⟨same, trips, pos⟩ := elapsed
  have period : ms ≤ 8 * (ticksOf ms : Int) ∧ 8 * (ticksOf ms : Int) < ms + 8 ∧ 0 < ticksOf ms := by
    unfold ticksOf
    omega
  have inside := Nat.mod_lt n period.2.2
  have parts := Nat.div_add_mod n (ticksOf ms)
  by_cases last : n % ticksOf ms + 1 = ticksOf ms
  · have whole : n + 1 = ticksOf ms * (n / ticksOf ms + 1) := by
      rw [Nat.mul_add]
      omega
    have past : v.pos - 8 ≤ 0 := by omega
    constructor
    · rw [expire_ms, same]
    · rw [whole, Nat.mul_div_cancel_left _ period.2.2, expire, if_pos past]
      push_cast
      omega
    · rw [whole, Nat.mul_mod_right, expire, if_pos past, same]
      simp
  · have fresh : (n + 1) / ticksOf ms = n / ticksOf ms ∧ (n + 1) % ticksOf ms = n % ticksOf ms + 1 := by
      have small : n % ticksOf ms + 1 < ticksOf ms := by omega
      have next_ : n + 1 = ticksOf ms * (n / ticksOf ms) + (n % ticksOf ms + 1) := by omega
      constructor
      · rw [next_, Nat.mul_add_div period.2.2, Nat.div_eq_of_lt small, Nat.add_zero]
      · rw [next_, Nat.mul_add_mod, Nat.mod_eq_of_lt small]
    have left : ¬ v.pos - 8 ≤ 0 := by omega
    constructor
    · rw [expire_ms, same]
    · rw [fresh.1, expire, if_neg left]
      exact trips
    · rw [fresh.2, expire, if_neg left]
      push_cast
      omega

theorem kept_reached (reached : Reach timers Retested s) : Kept s := by
  apply @invariant_run _ _ timers Retested Kept
  · intro begin_ initial
    rw [initial]
    exact kept_empty
  · intro before l after kept guard moved
    obtain ⟨fuel, moved⟩ := moved
    exact kept_step kept guard moved
  · exact reached

theorem stepped_spares {n : Nat} {a : Int} {s s' : State Nat} {t : Nat} {l : Label Nat} (spell : Spell t s n a s')
    (guard : Retested s' l) (spares : Spares t s' l) (moves : (stepped s' l).isSome) :
    Spell t s (n + ticks l) (a + taken t s' l) ((stepped s' l).getD empty) := by
  obtain ⟨s'', moved⟩ := Option.isSome_iff_exists.mp moves
  rw [moved]
  exact spell.step guard spares ⟨8, moved⟩

/-- A timer that was just set to 20. -/
def twentySet : State Nat := (follow stepped Retested [.opens 1, .config 1 20, .resume 0] empty).getD empty

/-- The three ticks of its period, one trip taken, and one tick more. -/
def twentySoon : State Nat := (stepped ((stepped twentySet .tick).getD empty) .tick).getD empty
def twentyTaken : State Nat := (stepped ((stepped twentySoon .tick).getD empty) (.ack 1 1)).getD empty
def twentyAgain : State Nat := (stepped twentyTaken .tick).getD empty

end Trips
end TimerList
