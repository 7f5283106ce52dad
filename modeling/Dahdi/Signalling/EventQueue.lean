import Dahdi.Library.RingQueue
import Dahdi.Signalling.State

/-!
The events of a channel: a ring that __qevent writes and DAHDI_GETEVENT reads.
-/
namespace Signalling
open CyclicCursor

def maxEventsize : Nat := 64

structure EventQueue where
  eventbuf : Nat → Event
  eventinidx : Nat
  eventoutidx : Nat

def EventQueue.Full (q : EventQueue) : Prop :=
  q.eventoutidx = 0 ∧ q.eventinidx = maxEventsize - 1 ∨ q.eventinidx + 1 = q.eventoutidx

instance (q : EventQueue) : Decidable q.Full := inferInstanceAs (Decidable (_ ∨ _))

def bumped (idx : Nat) : Nat := if maxEventsize ≤ idx + 1 then 0 else idx + 1

/-- __qevent. An event is ignored where the queue is full. -/
def saveEvent (q : EventQueue) (event : Event) : EventQueue :=
  if q.Full then q
  else
    { eventbuf := Function.update q.eventbuf q.eventinidx event
      eventinidx := bumped q.eventinidx
      eventoutidx := q.eventoutidx }

/-- DAHDI_GETEVENT -/
def getEvent (q : EventQueue) : Option Event × EventQueue :=
  if q.eventinidx ≠ q.eventoutidx then
    (some (q.eventbuf q.eventoutidx), { q with eventoutidx := bumped q.eventoutidx })
  else (none, q)

def EventQueue.count (q : EventQueue) : Nat :=
  (q.eventinidx + (maxEventsize - q.eventoutidx)) % maxEventsize

/-- The events in the queue, oldest first. -/
def EventQueue.events (q : EventQueue) : List Event :=
  (walk maxEventsize q.eventoutidx q.count).map q.eventbuf

structure EventQueue.InRange (q : EventQueue) : Prop where
  inn : q.eventinidx < maxEventsize
  out : q.eventoutidx < maxEventsize

variable {q : EventQueue} {event : Event}

theorem events_length (q : EventQueue) : q.events.length = q.count := by
  rw [EventQueue.events, List.length_map, walk_length]

def EventQueue.ring (q : EventQueue) : RingQueue.Queue Event := ⟨q.eventbuf, q.eventinidx, q.eventoutidx⟩

theorem ring_range (inside : q.InRange) : RingQueue.InRange maxEventsize q.ring := ⟨inside.inn, inside.out⟩

theorem ring_events (inside : q.InRange) : q.events = RingQueue.contents maxEventsize q.ring := by
  have counts : q.count = gap maxEventsize q.eventinidx q.eventoutidx := by
    obtain ⟨inn, out⟩ := inside
    unfold EventQueue.count gap maxEventsize at *
    split <;> omega
  rw [EventQueue.events, counts]
  rfl

theorem save_ring (q : EventQueue) (event : Event) :
    (saveEvent q event).ring = RingQueue.put maxEventsize q.ring event := by
  rw [saveEvent, RingQueue.put]
  by_cases full : q.Full
  · have full' : RingQueue.Full maxEventsize q.ring := full
    rw [if_pos full, if_pos full']
  · have room : ¬ RingQueue.Full maxEventsize q.ring := full
    rw [if_neg full, if_neg room]
    rfl

theorem get_ring (q : EventQueue) :
    (getEvent q).1 = (RingQueue.take maxEventsize q.ring).1 ∧
      (getEvent q).2.ring = (RingQueue.take maxEventsize q.ring).2 := by
  rw [getEvent, RingQueue.take]
  by_cases some_ : q.eventinidx ≠ q.eventoutidx
  · have apart : q.ring.inn ≠ q.ring.out := some_
    rw [if_pos some_, if_pos apart]
    exact ⟨rfl, rfl⟩
  · have same : ¬ q.ring.inn ≠ q.ring.out := some_
    rw [if_neg some_, if_neg same]
    exact ⟨rfl, rfl⟩

/-- The queue is full when one slot of the ring is left. -/
theorem full_count (inside : q.InRange) : q.Full ↔ q.events.length = maxEventsize - 1 := by
  rw [ring_events inside]
  exact RingQueue.full_length (ring_range inside)

theorem save_range (inside : q.InRange) : (saveEvent q event).InRange := by
  have saved := RingQueue.put_inside (a := event) (ring_range inside)
  rw [← save_ring] at saved
  exact ⟨saved.inn, saved.out⟩

theorem save_events (inside : q.InRange) (room : ¬ q.Full) :
    (saveEvent q event).events = q.events ++ [event] := by
  rw [ring_events (save_range inside), save_ring, ring_events inside]
  exact RingQueue.put_contents (ring_range inside) room

theorem get_range (inside : q.InRange) : (getEvent q).2.InRange := by
  have got := RingQueue.take_inside (ring_range inside)
  rw [← (get_ring q).2] at got
  exact ⟨got.inn, got.out⟩

theorem get_events (inside : q.InRange) :
    (getEvent q).1 = q.events.head? ∧ (getEvent q).2.events = q.events.tail := by
  rw [ring_events (get_range inside), (get_ring q).1, (get_ring q).2, ring_events inside]
  exact RingQueue.take_contents (ring_range inside)

end Signalling

/-!
The event calls of a channel: __qevent, DAHDI_GETEVENT and the event part of DAHDI_FLUSH.
Reading or writing past eventbuf has no result.
-/
namespace EventFifo
open Signalling RingQueue

/-- An int or an unsigned int of the driver. -/
abbrev Word := BitVec 32

def eventNone : Word := 0
def flushEvent : Word := 4

structure Chan where
  eventbuf : Nat → Word
  eventinidx : Int
  eventoutidx : Int

def inBuffer (idx : Int) : Prop := 0 ≤ idx ∧ idx < maxEventsize

instance (idx : Int) : Decidable (inBuffer idx) := inferInstanceAs (Decidable (_ ∧ _))

def wrap (idx : Int) : Int := if maxEventsize ≤ idx then 0 else idx

/-- __qevent -/
def qevent (chan : Chan) (event : Word) : Option Chan :=
  if chan.eventoutidx = 0 ∧ chan.eventinidx = maxEventsize - 1 then some chan
  else if chan.eventinidx = chan.eventoutidx - 1 then some chan
  else if inBuffer chan.eventinidx then
    some { chan with
      eventbuf := Function.update chan.eventbuf chan.eventinidx.toNat event
      eventinidx := wrap (chan.eventinidx + 1) }
  else none

/-- DAHDI_GETEVENT: the event that is put to the user. -/
def getevent (chan : Chan) : Option (Word × Chan) :=
  if chan.eventinidx ≠ chan.eventoutidx then
    if inBuffer chan.eventoutidx then
      some (chan.eventbuf chan.eventoutidx.toNat, { chan with eventoutidx := wrap (chan.eventoutidx + 1) })
    else none
  else some (eventNone, chan)

/-- DAHDI_FLUSH, of the events. -/
def flush (chan : Chan) (i : Word) : Chan :=
  if i &&& flushEvent ≠ 0 then { chan with eventinidx := 0, eventoutidx := 0 } else chan

inductive Call where
  | qevent (event : Word)
  | getevent
  | flush (i : Word)
  deriving DecidableEq

def step (chan : Chan) : Call → Option (Chan × List Word)
  | .qevent event => (qevent chan event).map fun chan => (chan, [])
  | .getevent => (getevent chan).map fun (j, chan) => (chan, [j])
  | .flush i => some (flush chan i, [])

/-- The calls in their order, with what the calls of DAHDI_GETEVENT give. -/
def run (chan : Chan) : List Call → Option (Chan × List Word)
  | [] => some (chan, [])
  | call :: calls => do
    let (chan, given) ← step chan call
    let (chan, later) ← run chan calls
    some (chan, given ++ later)

/-- A channel just initialized. -/
def initialized (eventbuf : Nat → Word) : Chan := ⟨eventbuf, 0, 0⟩

def ring (chan : Chan) : Queue Word := ⟨chan.eventbuf, chan.eventinidx.toNat, chan.eventoutidx.toNat⟩

/-- The events in the queue, oldest first. -/
def pending (chan : Chan) : List Word := contents maxEventsize (ring chan)

structure Inside (chan : Chan) : Prop where
  inn : inBuffer chan.eventinidx
  out : inBuffer chan.eventoutidx

/-- What a call is for the queue. -/
def op : Call → List (Op Word)
  | .qevent event => [.put event]
  | .getevent => [.take]
  | .flush i => if i &&& flushEvent ≠ 0 then [.clear] else []

def ops (calls : List Call) : List (Op Word) := calls.flatMap op

/-- No caller of __qevent has DAHDI_EVENT_NONE for an event. -/
def Proper (calls : List Call) : Prop := ∀ event, .qevent event ∈ calls → event ≠ eventNone

section Step
variable {chan : Chan}

theorem ring_inside (inside : Inside chan) : InRange maxEventsize (ring chan) := by
  obtain ⟨⟨_, inn⟩, _, out⟩ := inside
  constructor
  · exact (Int.toNat_lt' (by decide)).mpr inn
  · exact (Int.toNat_lt' (by decide)).mpr out

theorem wrap_bump {idx : Int} (within : inBuffer idx) :
    inBuffer (wrap (idx + 1)) ∧ (wrap (idx + 1)).toNat = bump maxEventsize idx.toNat := by
  obtain ⟨low, high⟩ := within
  unfold wrap bump inBuffer maxEventsize at *
  split <;> split <;> omega

/-- The two tests of __qevent are the one of the ring. -/
theorem full_tests (inside : Inside chan) :
    Full maxEventsize (ring chan) ↔
      chan.eventoutidx = 0 ∧ chan.eventinidx = maxEventsize - 1 ∨ chan.eventinidx = chan.eventoutidx - 1 := by
  obtain ⟨inn, out⟩ := inside
  unfold Full ring inBuffer maxEventsize at *
  dsimp only
  omega

theorem qevent_ring (inside : Inside chan) (event : Word) :
    ∃ chan', qevent chan event = some chan' ∧ Inside chan' ∧
      ring chan' = put maxEventsize (ring chan) event := by
  have tests := full_tests inside
  rw [qevent]
  by_cases full : Full maxEventsize (ring chan)
  · refine ⟨chan, ?_, inside, (put_full full).symm⟩
    obtain first | second := tests.mp full
    · exact if_pos first
    · split
      case isTrue => rfl
      case isFalse => rfl
  · obtain ⟨first, second⟩ := not_or.mp (mt tests.mpr full)
    obtain ⟨within, bumped⟩ := wrap_bump inside.inn
    rw [if_neg first, if_neg second, if_pos inside.inn]
    refine ⟨_, rfl, ⟨within, inside.out⟩, ?_⟩
    rw [put, if_neg full, ring, bumped]
    rfl

theorem getevent_ring (inside : Inside chan) :
    ∃ j chan', getevent chan = some (j, chan') ∧ Inside chan' ∧
      j = (take maxEventsize (ring chan)).1.getD eventNone ∧
      ring chan' = (take maxEventsize (ring chan)).2 := by
  have meet : (ring chan).inn ≠ (ring chan).out ↔ chan.eventinidx ≠ chan.eventoutidx := by
    obtain ⟨⟨inn, _⟩, out, _⟩ := inside
    simp only [ring]
    omega
  rw [getevent, take]
  by_cases some_ : chan.eventinidx ≠ chan.eventoutidx
  · obtain ⟨within, bumped⟩ := wrap_bump inside.out
    rw [if_pos some_, if_pos inside.out, if_pos (meet.mpr some_)]
    refine ⟨_, _, rfl, ⟨inside.inn, within⟩, rfl, ?_⟩
    rw [ring, bumped]
    rfl
  · rw [if_neg some_, if_neg (mt meet.mp some_)]
    exact ⟨_, _, rfl, inside, rfl, rfl⟩

theorem flush_ring (inside : Inside chan) (i : Word) :
    Inside (flush chan i) ∧
      ring (flush chan i) = if i &&& flushEvent ≠ 0 then clear (ring chan) else ring chan := by
  rw [flush]
  split
  case isTrue => exact ⟨⟨⟨Int.le_refl 0, Int.natCast_pos.mpr (by decide)⟩, Int.le_refl 0, Int.natCast_pos.mpr (by decide)⟩, rfl⟩
  case isFalse => exact ⟨inside, rfl⟩

/-- What a call does to the ring and gives is what the queue's operation does and gives. -/
theorem step_ring (inside : Inside chan) (call : Call) :
    ∃ chan' given, step chan call = some (chan', given.map (·.getD eventNone)) ∧ Inside chan' ∧
      fifo (maxEventsize - 1) (pending chan) (op call) = (pending chan', given) := by
  have within := ring_inside inside
  cases call with
  | qevent event =>
    obtain ⟨chan', done, inside', moved⟩ := qevent_ring inside event
    refine ⟨chan', [], ?_, inside', ?_⟩
    · rw [step, done]
      rfl
    · rw [op, fifo, pending, (ring_step within (.put event)).2, pending, moved]
      rfl
  | getevent =>
    obtain ⟨j, chan', done, inside', value, moved⟩ := getevent_ring inside
    refine ⟨chan', [(take maxEventsize (ring chan)).1], ?_, inside', ?_⟩
    · rw [step, done, value]
      rfl
    · rw [op, fifo, pending, (ring_step within .take).2, pending, moved]
      rfl
  | flush i =>
    obtain ⟨inside', moved⟩ := flush_ring inside i
    refine ⟨flush chan i, [], rfl, inside', ?_⟩
    rw [op, pending, pending, moved]
    split
    case isTrue => rfl
    case isFalse => rfl

end Step


section Run
variable {chan : Chan}

theorem initialized_inside (eventbuf : Nat → Word) : Inside (initialized eventbuf) :=
  ⟨⟨Int.le_refl 0, Int.natCast_pos.mpr (by decide)⟩, Int.le_refl 0, Int.natCast_pos.mpr (by decide)⟩

theorem run_ring (inside : Inside chan) (calls : List Call) :
    ∃ chan' given, run chan calls = some (chan', given.map (·.getD eventNone)) ∧ Inside chan' ∧
      fifo (maxEventsize - 1) (pending chan) (ops calls) = (pending chan', given) := by
  induction calls generalizing chan with
  | nil => exact ⟨chan, [], rfl, inside, rfl⟩
  | cons call calls ih =>
    obtain ⟨middle, first, moved, inside', stepped⟩ := step_ring inside call
    obtain ⟨chan', rest, followed, last, ran⟩ := ih inside'
    refine ⟨chan', first ++ rest, ?_, last, ?_⟩
    · rw [run, moved]
      simp only [Option.bind_eq_bind, Option.bind_some, followed, List.map_append]
    · rw [ops, List.flatMap_cons, fifo_append, stepped]
      exact congrArg (fun o => (o.1, first ++ o.2)) ran

theorem put_call {calls : List Call} {event : Word} (member : .put event ∈ ops calls) :
    .qevent event ∈ calls := by
  obtain ⟨call, called, here⟩ := List.mem_flatMap.mp member
  cases call with
  | qevent other =>
    cases List.mem_singleton.mp here
    exact called
  | getevent => cases List.mem_singleton.mp here
  | flush i =>
    rw [op] at here
    split at here
    case isTrue => cases List.mem_singleton.mp here
    case isFalse => cases here

/-- DAHDI_GETEVENT gives the oldest event, and NONE where there is no event. -/
theorem getevent_none (inside : Inside chan) (proper : ∀ event ∈ pending chan, event ≠ eventNone) {j : Word}
    {chan' : Chan} (done : getevent chan = some (j, chan')) : j = eventNone ↔ pending chan = [] := by
  obtain ⟨j', chan'', done', _, value, _⟩ := getevent_ring inside
  have first := (take_contents (ring_inside inside)).1
  cases Option.some.inj (done.symm.trans done')
  rw [value, first]
  cases seen : pending chan with
  | nil =>
    rw [pending] at seen
    rw [seen]
    exact ⟨fun _ => rfl, fun _ => rfl⟩
  | cons event rest =>
    have other := proper event (seen ▸ List.mem_cons_self)
    rw [pending] at seen
    rw [seen]
    exact ⟨fun none_ => absurd none_ other, fun nothing => by cases nothing⟩

/-- From a channel just initialized every call returns, and what is queued, flushed and asked
    for is what goes in, is thrown away and comes out of a queue of 63 events that drops the
    newest. -/
theorem event_fifo (eventbuf : Nat → Word) (calls : List Call) :
    ∃ chan given, run (initialized eventbuf) calls = some (chan, given.map (·.getD eventNone)) ∧
      fifo (maxEventsize - 1) [] (ops calls) = (pending chan, given) ∧
      entered (maxEventsize - 1) [] (ops calls) =
        (gone (maxEventsize - 1) [] (ops calls)).map Prod.fst ++ pending chan ∧
      given.reduceOption = ((gone (maxEventsize - 1) [] (ops calls)).filter Prod.snd).map Prod.fst ∧
      (Proper calls → ∀ j chan', getevent chan = some (j, chan') → (j = eventNone ↔ pending chan = [])) := by
  have inside := initialized_inside eventbuf
  obtain ⟨chan, given, ran, last, went⟩ := run_ring inside calls
  have started : pending (initialized eventbuf) = [] := rfl
  rw [started] at went
  refine ⟨chan, given, ran, went, ?_, ?_, ?_⟩
  · have kept := conserved (maxEventsize - 1) [] (ops calls)
    rw [went] at kept
    exact kept
  · rw [← fifo_taken, went]
  · intro proper j chan' done
    refine getevent_none last ?_ done
    intro event member
    have there : event ∈ (fifo (maxEventsize - 1) [] (ops calls)).1 := by
      rw [went]
      exact member
    obtain never | queued := last_put there
    · cases never
    · exact proper event (put_call queued)

theorem event_fifo_onhook : ∃ chan, pending chan = [1] ∧
    ∀ j chan', getevent chan = some (j, chan') → (j = eventNone ↔ pending chan = []) := by
  obtain ⟨chan, given, _, went, _, _, none_⟩ := event_fifo (fun _ => 0) [.qevent 1]
  refine ⟨chan, (congrArg Prod.fst went).symm, none_ ?_⟩
  intro event member
  cases List.mem_singleton.mp member
  decide

end Run

end EventFifo
