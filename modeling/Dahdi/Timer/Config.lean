import Dahdi.Library.GuardedRun
import Dahdi.Library.LinkedRing

/-!
The timers of /dev/dahdi/timer: their critical sections, and the tick that walks
the list of the running ones.
-/
namespace TimerList
open LinkedRing GuardedRun
variable {T : Type} [DecidableEq T]

structure Timer where
  ms : Int
  pos : Int
  ping : Bool
  tripped : Int

/-- What is left to do of a call that has let go of its timer's lock to take the
    list's. -/
inductive Pending (T : Type) where
  | activate (timer : T) (j : Int)
  | disable (timer : T)
  | release (timer : T)
  deriving DecidableEq

def Pending.timer : Pending T → T
  | .activate t _ => t
  | .disable t => t
  | .release t => t

def Pending.releases : Pending T → Bool
  | .release _ => true
  | _ => false

/-- `dahdi_timers` is the node of no timer. -/
structure State (T : Type) where
  links : Links (Option T)
  timer : T → Timer
  opened : T → Bool
  pending : List (Pending T)

def dahdiTimers : Option T := none

def setTimer (s : State T) (t : T) (v : Timer) : State T :=
  { s with timer := Function.update s.timer t v }

def setPeriod (s : State T) (t : T) (j : Int) : State T :=
  setTimer s t { s.timer t with ms := j, pos := j }

def putOff (s : State T) (p : Pending T) : State T := { s with pending := s.pending ++ [p] }

def setLinks (s : State T) (links : Links (Option T)) : State T := { s with links }

/-- `kzalloc` and `INIT_LIST_HEAD`. -/
def timerOpen (s : State T) (t : T) : State T :=
  { s with
    links := initListHead s.links (some t)
    timer := Function.update s.timer t ⟨0, 0, false, 0⟩
    opened := Function.update s.opened t true }

/-- `DAHDI_TIMERCONFIG` up to where it lets go of the timer's lock. -/
def timerConfig (s : State T) (t : T) (wanted : Int) : State T :=
  let j := if wanted < 0 then 0 else wanted
  if (s.timer t).ms ≠ j then
    if j ≠ 0 ∧ listEmpty s.links (some t) then putOff s (.activate t j)
    else if j = 0 ∧ ¬ listEmpty s.links (some t) then putOff s (.disable t)
    else setPeriod s t j
  else s

def free (s : State T) (t : T) : State T :=
  { s with opened := Function.update s.opened t false }

/-- `dahdi_timer_release` up to where it lets go of the timer's lock. -/
def timerRelease (s : State T) (t : T) : State T :=
  if ¬ listEmpty s.links (some t) then putOff s (.release t) else free s t

/-- The section under both locks. -/
def resume (s : State T) : Pending T → State T
  | .activate t j => setLinks (setPeriod s t j) (listAdd s.links (some t) dahdiTimers)
  | .disable t => setPeriod (setLinks s (listDelInit s.links (some t))) t 0
  | .release t => free (setLinks s (listDelInit s.links (some t))) t

def timerAck (s : State T) (t : T) (wanted : Int) : State T :=
  let v := s.timer t
  let j := if wanted < 1 ∨ v.tripped < wanted then v.tripped else wanted
  setTimer s t { v with tripped := v.tripped - j }

def timerPing (s : State T) (t : T) (ping : Bool) : State T :=
  setTimer s t { s.timer t with ping }

def expire (v : Timer) : Timer :=
  let pos := v.pos - 8
  if pos ≤ 0 then { v with tripped := v.tripped + 1, pos := v.ms } else { v with pos }

/-- One node of the walk. -/
def processTimer (s : State T) : Option T → State T
  | some t => setTimer s t (expire (s.timer t))
  | none => s

/-- The walk goes on until it is back at the head. -/
def processTimers (fuel : Nat) (s : State T) : Option (State T) :=
  (walk s.links dahdiTimers fuel (s.links.next dahdiTimers)).map (·.foldl processTimer s)

inductive Label (T : Type) where
  | opens (timer : T)
  | config (timer : T) (wanted : Int)
  | release (timer : T)
  | resume (call : Nat)
  | ack (timer : T) (wanted : Int)
  | ping (timer : T) (ping : Bool)
  | tick

/-- A file takes calls until its last user closes it. -/
def Usable (s : State T) (t : T) : Prop := s.opened t ∧ .release t ∉ s.pending

instance (s : State T) (t : T) : Decidable (Usable s t) := inferInstanceAs (Decidable (_ ∧ _))

/-- Nobody is in a call on a file that is being closed. -/
def LastUser (s : State T) (t : T) : Prop := s.opened t ∧ ∀ p ∈ s.pending, p.timer ≠ t

instance (s : State T) (t : T) : Decidable (LastUser s t) := inferInstanceAs (Decidable (_ ∧ _))

def next (fuel : Nat) (s : State T) : Label T → Option (State T)
  | .opens t => if s.opened t then none else some (timerOpen s t)
  | .config t wanted => if Usable s t then some (timerConfig s t wanted) else none
  | .release t => if LastUser s t then some (timerRelease s t) else none
  | .resume call => (s.pending[call]?).map
      (resume { s with pending := s.pending.eraseIdx call })
  | .ack t wanted => if Usable s t then some (timerAck s t wanted) else none
  | .ping t ping => if Usable s t then some (timerPing s t ping) else none
  | .tick => processTimers fuel s

def empty : State T where
  links := ⟨id, id⟩
  timer := fun _ => ⟨0, 0, false, 0⟩
  opened := fun _ => false
  pending := []

def timers : System (State T) (Label T) where
  start := fun s => s = empty
  step := fun s l s' => ∃ fuel, next fuel s l = some s'

end TimerList
