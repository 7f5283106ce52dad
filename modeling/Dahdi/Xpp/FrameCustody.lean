import Dahdi.Library.GuardedRun
import Dahdi.Xpp.Xframe
import Mathlib.Data.List.Perm.Basic
import Mathlib.Tactic.Ring

/-!
Every allocated frame is in one place: a queue, the transport or the function that
handles it. A frame handed to xframe_receive is freed once.
-/
namespace FrameCustody
open Xframe GuardedRun

/-- The frame in the hands of a function. -/
def owned : Task → List Frame
  | .receive f => [f]
  | .receiveKind f => [f]
  | .receiveCmd f => [f]
  | .receivePcm f => [f]
  | .copyPcmTospan f => [f]
  | .send f => [f]
  | _ => []

def hasId (id : Nat) (f : Frame) : Bool := f.id == id

def hasMark (h : Nat) (f : Frame) : Bool := f.received == some h

def queued (p : Frame → Bool) (queues : QueueName → XframeQueue) : Nat :=
  (queues .command).head.countP p + (queues .receive).head.countP p +
    (queues .sendPool).head.countP p + (queues .receivePool).head.countP p +
    (queues .pcmTospan).head.countP p

/-- How many of the frames in the places of the bus are so. -/
def tally (p : Frame → Bool) (b : Xbus) : Nat :=
  queued p b.queues + b.reads.countP p + b.writes.countP p + (b.tasks.flatMap owned).countP p

/-- The connection has a reference of its own. -/
def ownReference : Stage → Nat
  | .connected => 1
  | .closing _ => 1
  | _ => 0

/-- With the frames in hand, every live frame is in one place, and every frame that has
    been handed over is freed or in one place. -/
structure Kept (hand : List Frame) (b : Xbus) : Prop where
  place : ∀ id, tally (hasId id) b + hand.countP (hasId id) = b.live.count id
  once : b.live.Nodup
  fresh : ∀ id ∈ b.live, id < b.nextId
  refs : b.transportRefcount = b.live.length + ownReference b.stage
  received : ∀ h, b.freed.count h + tally (hasMark h) b + hand.countP (hasMark h) =
    if h < b.handed then 1 else 0
  ops : b.ops = false → b.live = []

/-- Nothing but the places of the frames differs. -/
structure SameBooks (b b' : Xbus) : Prop where
  live : b'.live = b.live
  nextId : b'.nextId = b.nextId
  refcount : b'.transportRefcount = b.transportRefcount
  own : ownReference b'.stage = ownReference b.stage
  handed : b'.handed = b.handed
  freed : b'.freed = b.freed
  ops : b'.ops = b.ops

section moves
variable {b b' : Xbus} {hand hand' : List Frame} {f : Frame} {p : Frame → Bool}

theorem kept_move (kept : Kept hand b) (same : SameBooks b b')
    (moved : ∀ p, tally p b' + hand'.countP p = tally p b + hand.countP p) : Kept hand' b' := by
  obtain ⟨live, nextId, refcount, own, handed, freed, ops⟩ := same
  constructor
  · intro id
    rw [moved, live]
    exact kept.place id
  · rw [live]
    exact kept.once
  · rw [live, nextId]
    exact kept.fresh
  · rw [refcount, live, own]
    exact kept.refs
  · intro h
    have before := kept.received h
    have count := moved (hasMark h)
    rw [freed, handed]
    omega
  · rw [ops, live]
    exact kept.ops

theorem queued_update (p : Frame → Bool) (queues : QueueName → XframeQueue) (name : QueueName)
    (q : XframeQueue) : queued p (Function.update queues name q) + (queues name).head.countP p =
      queued p queues + q.head.countP p := by
  cases name <;> simp [queued, Function.update] <;> ring

theorem tally_set_queue (p : Frame → Bool) (b : Xbus) (name : QueueName) (q : XframeQueue) :
    tally p (setQueue b name q) + (b.queues name).head.countP p = tally p b + q.head.countP p := by
  have count := queued_update p b.queues name q
  simp only [tally, setQueue]
  omega

theorem same_set_queue (b : Xbus) (name : QueueName) (q : XframeQueue) :
    SameBooks b (setQueue b name q) := ⟨rfl, rfl, rfl, rfl, rfl, rfl, rfl⟩

theorem same_refl (b : Xbus) : SameBooks b b := ⟨rfl, rfl, rfl, rfl, rfl, rfl, rfl⟩

theorem count_first (f : Frame) (rest : List Frame) :
    (f :: rest).countP p = rest.countP p + [f].countP p := by
  rw [← List.singleton_append, List.countP_append]
  omega

/-- A queue with the same frames. -/
theorem kept_flags (kept : Kept hand b) {name : QueueName} {q : XframeQueue}
    (same : q.head = (b.queues name).head) : Kept hand (setQueue b name q) := by
  apply kept_move kept (same_set_queue b name q)
  intro p
  have count := tally_set_queue p b name q
  rw [same] at count
  omega

theorem kept_dequeue {name : QueueName} (kept : Kept hand b)
    (taken : xframeDequeue b name = some (f, b')) : Kept (f :: hand) b' := by
  unfold xframeDequeue at taken
  split at taken
  · cases taken
  · rename_i rest first
    cases taken
    apply kept_move kept (same_set_queue b name _)
    intro p
    have count := tally_set_queue p b name (withHead (b.queues name) rest)
    rw [first, count_first] at count
    rw [count_first]
    simp only [withHead] at count ⊢
    omega

theorem enqueue_heads (q : XframeQueue) (f : Frame) :
    (xframeEnqueue q f).2.head = if (xframeEnqueue q f).1 then q.head ++ [f] else q.head := by
  unfold xframeEnqueue
  split
  · rfl
  · split
    · rfl
    · rfl

/-- A frame put at the end of a queue, or refused. -/
theorem kept_enqueue {name : QueueName} (kept : Kept (f :: hand) b) :
    Kept (if (xframeEnqueue (b.queues name) f).1 then hand else f :: hand)
      (setQueue b name (xframeEnqueue (b.queues name) f).2) := by
  have heads := enqueue_heads (b.queues name) f
  split
  · rename_i accepted
    rw [if_pos accepted] at heads
    apply kept_move kept (same_set_queue b name _)
    intro p
    have count := tally_set_queue p b name (xframeEnqueue (b.queues name) f).2
    rw [heads, List.countP_append] at count
    rw [count_first]
    omega
  · rename_i refused
    rw [if_neg refused] at heads
    exact kept_flags kept heads

theorem count_id (f : Frame) (id : Nat) :
    [f].countP (hasId id) = if f.id = id then 1 else 0 := by
  simp [hasId, List.countP_cons]

theorem count_mark (f : Frame) (h : Nat) :
    [f].countP (hasMark h) = if f.received = some h then 1 else 0 := by
  simp [hasMark, List.countP_cons]

theorem live_first (id new : Nat) (l : List Nat) :
    (new :: l).count id = l.count id + if new = id then 1 else 0 := by
  simp [List.count_cons]

/-- The bytes of a frame in hand do not matter. -/
theorem kept_alike {f' : Frame} (kept : Kept (f :: hand) b) (id : f'.id = f.id)
    (received : f'.received = f.received) : Kept (f' :: hand) b := by
  have ids (i : Nat) : (f' :: hand).countP (hasId i) = (f :: hand).countP (hasId i) := by
    rw [count_first, count_first f, count_id, count_id, id]
  have marks (h : Nat) : (f' :: hand).countP (hasMark h) = (f :: hand).countP (hasMark h) := by
    rw [count_first, count_first f, count_mark, count_mark, received]
  obtain ⟨place, once, fresh, refs, received, ops⟩ := kept
  constructor
  · intro i
    rw [ids]
    exact place i
  · exact once
  · exact fresh
  · exact refs
  · intro h
    rw [marks]
    exact received h
  · exact ops

theorem kept_alloc {alloc : Bool} (kept : Kept hand b)
    (made : transportAllocXframe b alloc = some (f, b')) : Kept (f :: hand) b' := by
  unfold transportAllocXframe at made
  split at made
  · rename_i allowed
    cases made
    have exists_ : b.ops = true := by
      simp only [Bool.and_eq_true] at allowed
      exact allowed.1.1
    have unused : b.nextId ∉ b.live := fun member => Nat.lt_irrefl _ (kept.fresh _ member)
    constructor
    · intro id
      have before := kept.place id
      rw [count_first, count_id, live_first]
      change tally (hasId id) b + (hand.countP (hasId id) + if b.nextId = id then 1 else 0) = _
      omega
    · exact List.nodup_cons.mpr ⟨unused, kept.once⟩
    · intro id member
      rcases List.mem_cons.mp member with rfl | old
      · exact Nat.lt_succ_self _
      · exact Nat.lt_succ_of_lt (kept.fresh id old)
    · have refs := kept.refs
      simp only [List.length_cons]
      omega
    · intro h
      have before := kept.received h
      rw [count_first, count_mark, if_neg (by simp)]
      exact before
    · intro none_
      simp only at none_
      rw [exists_] at none_
      cases none_
  · cases made

theorem mark_lists (b : Xbus) (f : Frame) : (markFreed b f).live = b.live ∧
    (markFreed b f).nextId = b.nextId ∧ (markFreed b f).transportRefcount = b.transportRefcount ∧
    (markFreed b f).stage = b.stage ∧ (markFreed b f).handed = b.handed ∧
    (markFreed b f).ops = b.ops ∧ (markFreed b f).queues = b.queues ∧
    ∀ p, tally p (markFreed b f) = tally p b := by
  unfold markFreed
  split
  · exact ⟨rfl, rfl, rfl, rfl, rfl, rfl, rfl, fun _ => rfl⟩
  · exact ⟨rfl, rfl, rfl, rfl, rfl, rfl, rfl, fun _ => rfl⟩

theorem mark_freed (b : Xbus) (f : Frame) (h : Nat) :
    (markFreed b f).freed.count h = b.freed.count h + [f].countP (hasMark h) := by
  rw [count_mark]
  unfold markFreed
  split
  · rename_i none_
    rw [none_, if_neg (by simp), Nat.add_zero]
  · rename_i mark same
    rw [same, List.count_append, List.count_singleton]
    simp

/-- A frame in hand is marked as freed. -/
theorem kept_mark (kept : Kept (f :: hand) b) :
    Kept ({ f with received := none } :: hand) (markFreed b f) := by
  obtain ⟨live, nextId, refcount, stage, handed, ops, _, same⟩ := mark_lists b f
  constructor
  · intro id
    have before := kept.place id
    rw [same, live, count_first, count_id]
    rw [count_first, count_id] at before
    simp only
    exact before
  · rw [live]
    exact kept.once
  · rw [live, nextId]
    exact kept.fresh
  · rw [refcount, live, stage]
    exact kept.refs
  · intro h
    have before := kept.received h
    rw [count_first] at before
    have none_ : [({ f with received := none } : Frame)].countP (hasMark h) = 0 := by
      rw [count_mark, if_neg (by simp)]
    rw [same, handed, mark_freed, @count_first _ { f with received := none }, none_]
    omega
  · rw [ops, live]
    exact kept.ops

theorem hand_live (kept : Kept (f :: hand) b) : f.id ∈ b.live := by
  have place := kept.place f.id
  rw [count_first, count_id, if_pos rfl] at place
  exact List.count_pos_iff.mp (by omega)

/-- A frame in hand is given back to the transport. -/
theorem kept_free (kept : Kept (f :: hand) b) : Kept hand (transportFreeXframe b f) := by
  have member := hand_live kept
  obtain ⟨live, nextId, refcount, stage, handed, ops, _, same⟩ := mark_lists b f
  have length := List.length_erase_of_mem member
  have some_ := List.length_pos_of_mem member
  constructor
  · intro id
    have before := kept.place id
    rw [count_first, count_id] at before
    change tally (hasId id) (markFreed b f) + _ = ((markFreed b f).live.erase f.id).count id
    rw [same, live, List.count_erase]
    simp only [beq_iff_eq]
    omega
  · change ((markFreed b f).live.erase f.id).Nodup
    rw [live]
    exact kept.once.erase _
  · intro id inside
    change id ∈ (markFreed b f).live.erase f.id at inside
    change id < (markFreed b f).nextId
    rw [live] at inside
    rw [nextId]
    exact kept.fresh id (List.mem_of_mem_erase inside)
  · have refs := kept.refs
    change (markFreed b f).transportRefcount - 1 =
      ((markFreed b f).live.erase f.id).length + ownReference (markFreed b f).stage
    rw [refcount, live, stage, length]
    omega
  · intro h
    have before := kept.received h
    rw [count_first] at before
    change (markFreed b f).freed.count h + tally (hasMark h) (markFreed b f) + _ =
      if h < (markFreed b f).handed then 1 else 0
    rw [same, handed, mark_freed]
    omega
  · intro none_
    change (markFreed b f).ops = false at none_
    rw [ops] at none_
    rw [kept.ops none_] at member
    cases member

theorem kept_adjust {name : QueueName} {alloc : Bool} (kept : Kept hand b) :
    Kept hand (xframeQueueAdjust b name alloc) := by
  unfold xframeQueueAdjust
  simp only
  split
  · split
    · exact kept
    · rename_i f b' made
      have grown := kept_alloc kept made
      have put := @kept_enqueue _ _ _ name grown
      split
      · rename_i accepted
        rw [if_pos accepted] at put
        exact put
      · rename_i refused
        rw [if_neg refused] at put
        exact kept_free put
  · split
    · split
      · exact kept
      · rename_i f b' taken
        exact kept_free (kept_dequeue kept taken)
    · exact kept

theorem kept_get {name : QueueName} {alloc : Bool} (kept : Kept hand b)
    (got : getXframe b name alloc = some (f, b')) : Kept (f :: hand) b' := by
  unfold getXframe at got
  split at got
  · cases got
  · rename_i taken
    cases got
    exact kept_alike (kept_dequeue (kept_adjust kept) taken) rfl rfl

/-- put_xframe. -/
theorem kept_put {name : QueueName} {alloc : Bool} (kept : Kept (f :: hand) b) :
    Kept hand (putXframe b name f alloc) := by
  unfold putXframe
  simp only
  split
  · rename_i accepted
    have marked := kept_mark kept
    have put := @kept_enqueue _ _ _ name marked
    obtain ⟨_, _, _, _, _, _, queues, _⟩ := mark_lists b f
    rw [queues, if_pos accepted] at put
    exact kept_adjust put
  · rename_i refused
    have heads := enqueue_heads (b.queues name) { f with received := none }
    rw [if_neg refused] at heads
    exact kept_free (kept_flags kept heads)

theorem tasks_taken {t : Task} {k : Nat} (here : b.tasks[k]? = some t) (p : Frame → Bool) :
    ((b.tasks.eraseIdx k).flatMap owned).countP p + (owned t).countP p =
      (b.tasks.flatMap owned).countP p := by
  obtain ⟨inside, rfl⟩ := List.getElem?_eq_some_iff.mp here
  have moved := (List.getElem_cons_eraseIdx_perm inside).flatMap_right owned
  have count := moved.countP_eq p
  rw [List.flatMap_cons, List.countP_append] at count
  omega

theorem frames_taken {l : List Frame} {k : Nat} (here : l[k]? = some f) (p : Frame → Bool) :
    (l.eraseIdx k).countP p + [f].countP p = l.countP p := by
  obtain ⟨inside, rfl⟩ := List.getElem?_eq_some_iff.mp here
  have count := (List.getElem_cons_eraseIdx_perm inside).countP_eq p
  rw [count_first] at count
  omega

theorem kept_drop {t : Task} {k : Nat} (kept : Kept hand b) (here : b.tasks[k]? = some t) :
    Kept (owned t ++ hand) (dropTask b k) := by
  apply kept_move kept
  · exact ⟨rfl, rfl, rfl, rfl, rfl, rfl, rfl⟩
  intro p
  have count := tasks_taken here p
  rw [List.countP_append]
  simp only [tally, dropTask]
  omega

theorem kept_add {t : Task} (kept : Kept (owned t ++ hand) b) : Kept hand (addTask b t) := by
  apply kept_move kept
  · exact ⟨rfl, rfl, rfl, rfl, rfl, rfl, rfl⟩
  intro p
  rw [List.countP_append]
  simp only [tally, addTask, List.flatMap_append, List.flatMap_singleton, List.countP_append]
  omega

theorem kept_read_done {k : Nat} (kept : Kept hand b) (here : b.reads[k]? = some f) :
    Kept (f :: hand) { b with reads := b.reads.eraseIdx k } := by
  apply kept_move kept
  · exact ⟨rfl, rfl, rfl, rfl, rfl, rfl, rfl⟩
  intro p
  have count := frames_taken here p
  rw [count_first]
  simp only [tally]
  omega

theorem kept_write_done {k : Nat} (kept : Kept hand b) (here : b.writes[k]? = some f) :
    Kept (f :: hand) { b with writes := b.writes.eraseIdx k } := by
  apply kept_move kept
  · exact ⟨rfl, rfl, rfl, rfl, rfl, rfl, rfl⟩
  intro p
  have count := frames_taken here p
  rw [count_first]
  simp only [tally]
  omega

theorem kept_submit_read (kept : Kept (f :: hand) b) :
    Kept hand { b with reads := b.reads ++ [f] } := by
  apply kept_move kept
  · exact ⟨rfl, rfl, rfl, rfl, rfl, rfl, rfl⟩
  intro p
  rw [count_first]
  simp only [tally, List.countP_append]
  omega

theorem kept_submit_write (kept : Kept (f :: hand) b) :
    Kept hand { b with writes := b.writes ++ [f] } := by
  apply kept_move kept
  · exact ⟨rfl, rfl, rfl, rfl, rfl, rfl, rfl⟩
  intro p
  rw [count_first]
  simp only [tally, List.countP_append]
  omega

theorem kept_state {s : XbusState} (kept : Kept hand b) : Kept hand (xbusSetstate b s) := by
  unfold xbusSetstate
  split
  · apply kept_move kept
    · exact ⟨rfl, rfl, rfl, rfl, rfl, rfl, rfl⟩
    · intro p
      rfl
  · exact kept

theorem kept_look (kept : Kept hand b) (f : Frame) : Kept hand (readFrame b f) := by
  unfold readFrame
  split
  · exact kept
  · split
    · apply kept_move kept
      · exact ⟨rfl, rfl, rfl, rfl, rfl, rfl, rfl⟩
      · intro p
        rfl
    · exact kept

/-- A frame in hand is handed to xframe_receive. -/
theorem kept_hand_over (kept : Kept (f :: hand) b) (none_ : f.received = none) :
    Kept hand (handOver b f) := by
  unfold handOver
  apply kept_add
  obtain ⟨place, once, fresh, refs, received, ops⟩ := kept
  constructor
  · intro id
    have before := place id
    rw [count_first, count_id] at before
    change tally (hasId id) b + ({ f with received := some b.handed } :: hand).countP (hasId id) = _
    rw [count_first, count_id]
    exact before
  · exact once
  · exact fresh
  · exact refs
  · intro h
    have before := received h
    rw [count_first, count_mark, none_, if_neg (by simp)] at before
    change b.freed.count h + tally (hasMark h) b +
      ({ f with received := some b.handed } :: hand).countP (hasMark h) =
        if h < b.handed + 1 then 1 else 0
    rw [count_first, count_mark]
    simp only [Option.some.injEq]
    by_cases this : b.handed = h
    · rw [if_pos this, if_pos (by omega)]
      rw [if_neg (by omega)] at before
      omega
    · rw [if_neg this]
      by_cases earlier : h < b.handed
      · rw [if_pos earlier] at before
        rw [if_pos (by omega)]
        omega
      · rw [if_neg earlier] at before
        rw [if_neg (by omega)]
        omega
  · exact ops

end moves

/-- A frame that is not being received carries no number. -/
structure Clean (b : Xbus) : Prop where
  queues : ∀ name, name ≠ .pcmTospan → ∀ f ∈ (b.queues name).head, f.received = none
  reads : ∀ f ∈ b.reads, f.received = none
  writes : ∀ f ∈ b.writes, f.received = none
  sends : ∀ f, .send f ∈ b.tasks → f.received = none

section clean
variable {b b' : Xbus} {f : Frame} {name : QueueName}

theorem clean_set_queue {q : XframeQueue} (clean : Clean b)
    (heads : name ≠ .pcmTospan → ∀ f ∈ q.head, f.received = none) : Clean (setQueue b name q) := by
  obtain ⟨queues, reads, writes, sends⟩ := clean
  constructor
  · intro other apart f member
    simp only [setQueue, Function.update_apply] at member
    split at member
    · rename_i same
      rw [same] at apart
      exact heads apart f member
    · exact queues other apart f member
  · exact reads
  · exact writes
  · exact sends

theorem clean_dequeue (clean : Clean b) (taken : xframeDequeue b name = some (f, b')) :
    Clean b' ∧ (name ≠ .pcmTospan → f.received = none) := by
  unfold xframeDequeue at taken
  split at taken
  · cases taken
  · rename_i rest first
    cases taken
    constructor
    · apply clean_set_queue clean
      intro apart g member
      apply clean.queues name apart
      rw [first]
      exact List.mem_cons_of_mem _ member
    · intro apart
      apply clean.queues name apart
      rw [first]
      exact List.mem_cons_self

theorem clean_enqueue (clean : Clean b) (none_ : name ≠ .pcmTospan → f.received = none) :
    Clean (setQueue b name (xframeEnqueue (b.queues name) f).2) := by
  apply clean_set_queue clean
  intro apart g member
  rw [enqueue_heads] at member
  split at member
  · rcases List.mem_append.mp member with old | new
    · exact clean.queues name apart g old
    · rw [List.mem_singleton.mp new]
      exact none_ apart
  · exact clean.queues name apart g member

theorem clean_alloc {alloc : Bool} (clean : Clean b)
    (made : transportAllocXframe b alloc = some (f, b')) : Clean b' ∧ f.received = none := by
  unfold transportAllocXframe at made
  split at made
  · cases made
    exact ⟨⟨clean.queues, clean.reads, clean.writes, clean.sends⟩, rfl⟩
  · cases made

theorem clean_mark (clean : Clean b) (f : Frame) : Clean (markFreed b f) := by
  unfold markFreed
  split
  · exact clean
  · exact ⟨clean.queues, clean.reads, clean.writes, clean.sends⟩

theorem clean_free (clean : Clean b) (f : Frame) : Clean (transportFreeXframe b f) := by
  have marked := clean_mark clean f
  exact ⟨marked.queues, marked.reads, marked.writes, marked.sends⟩

theorem clean_adjust {alloc : Bool} (clean : Clean b) : Clean (xframeQueueAdjust b name alloc) := by
  unfold xframeQueueAdjust
  simp only
  split
  · split
    · exact clean
    · rename_i made
      obtain ⟨clean', none_⟩ := clean_alloc clean made
      have put := @clean_enqueue _ _ name clean' fun _ => none_
      split
      · exact put
      · exact clean_free put _
  · split
    · split
      · exact clean
      · rename_i taken
        exact clean_free (clean_dequeue clean taken).1 _
    · exact clean

theorem clean_get {alloc : Bool} (clean : Clean b) (apart : name ≠ .pcmTospan)
    (got : getXframe b name alloc = some (f, b')) : Clean b' ∧ f.received = none := by
  unfold getXframe at got
  split at got
  · cases got
  · rename_i taken
    cases got
    obtain ⟨clean', none_⟩ := clean_dequeue (clean_adjust clean) taken
    exact ⟨clean', none_ apart⟩

theorem clean_put {alloc : Bool} (clean : Clean b) : Clean (putXframe b name f alloc) := by
  have put := @clean_enqueue _ { f with received := none } name (clean_mark clean f) fun _ => rfl
  have refused := @clean_enqueue _ { f with received := none } name clean fun _ => rfl
  obtain ⟨_, _, _, _, _, _, queues, _⟩ := mark_lists b f
  rw [queues] at put
  unfold putXframe
  simp only
  split
  · exact clean_adjust put
  · exact clean_free refused f

theorem clean_add {t : Task} (clean : Clean b) (none_ : ∀ f, t = .send f → f.received = none) :
    Clean (addTask b t) := by
  obtain ⟨queues, reads, writes, sends⟩ := clean
  constructor
  · exact queues
  · exact reads
  · exact writes
  · intro f member
    rcases List.mem_append.mp member with old | new
    · exact sends f old
    · exact none_ f (List.mem_singleton.mp new).symm

theorem clean_drop (clean : Clean b) (k : Nat) : Clean (dropTask b k) := by
  obtain ⟨queues, reads, writes, sends⟩ := clean
  exact ⟨queues, reads, writes, fun f member => sends f (List.mem_of_mem_eraseIdx member)⟩

theorem clean_state {s : XbusState} (clean : Clean b) : Clean (xbusSetstate b s) := by
  unfold xbusSetstate
  split
  · exact ⟨clean.queues, clean.reads, clean.writes, clean.sends⟩
  · exact clean

theorem clean_look (clean : Clean b) (f : Frame) : Clean (readFrame b f) := by
  unfold readFrame
  split
  · exact clean
  · split
    · exact ⟨clean.queues, clean.reads, clean.writes, clean.sends⟩
    · exact clean

end clean

structure Ok (hand : List Frame) (b : Xbus) : Prop where
  kept : Kept hand b
  clean : Clean b

section functions
variable {b b' : Xbus} {f : Frame} {hand : List Frame} {a : Answers}

theorem ok_recv (ok : Ok (f :: hand) b) : Ok hand (freeRecv b f a) :=
  ⟨kept_put ok.kept, clean_put ok.clean⟩

theorem ok_send (ok : Ok (f :: hand) b) : Ok hand (freeSend b f a) :=
  ⟨kept_put ok.kept, clean_put ok.clean⟩

theorem ok_state {s : XbusState} (ok : Ok hand b) : Ok hand (xbusSetstate b s) :=
  ⟨kept_state ok.kept, clean_state ok.clean⟩

theorem ok_look (ok : Ok hand b) (f : Frame) : Ok hand (readFrame b f) :=
  ⟨kept_look ok.kept f, clean_look ok.clean f⟩

theorem ok_drop {t : Task} {k : Nat} (ok : Ok hand b) (here : b.tasks[k]? = some t) :
    Ok (owned t ++ hand) (dropTask b k) := ⟨kept_drop ok.kept here, clean_drop ok.clean k⟩

/-- A task other than a send is added. -/
theorem ok_add {t : Task} (ok : Ok (owned t ++ hand) b) (other : ∀ f, t ≠ .send f) :
    Ok hand (addTask b t) :=
  ⟨kept_add ok.kept, clean_add ok.clean fun f same => absurd same (other f)⟩

theorem ok_dequeue {name : QueueName} (ok : Ok hand b)
    (taken : xframeDequeue b name = some (f, b')) :
    Ok (f :: hand) b' ∧ (name ≠ .pcmTospan → f.received = none) :=
  ⟨⟨kept_dequeue ok.kept taken, (clean_dequeue ok.clean taken).1⟩, (clean_dequeue ok.clean taken).2⟩

theorem ok_enqueue {name : QueueName} (ok : Ok (f :: hand) b)
    (none_ : name ≠ .pcmTospan → f.received = none) :
    Ok (if (xframeEnqueue (b.queues name) f).1 then hand else f :: hand)
      (setQueue b name (xframeEnqueue (b.queues name) f).2) :=
  ⟨kept_enqueue ok.kept, clean_enqueue ok.clean none_⟩

theorem ok_get {name : QueueName} {alloc : Bool} (ok : Ok hand b) (apart : name ≠ .pcmTospan)
    (got : getXframe b name alloc = some (f, b')) : Ok (f :: hand) b' ∧ f.received = none :=
  ⟨⟨kept_get ok.kept got, (clean_get ok.clean apart got).1⟩, (clean_get ok.clean apart got).2⟩

theorem ok_do_send (ok : Ok (f :: hand) b) (none_ : f.received = none) :
    Ok hand (doSendXframe b f a).2 := by
  unfold doSendXframe
  split
  · exact ok_send ok
  · split
    · exact ok_send ok
    · split
      · exact ok_send ok
      · obtain ⟨kept, clean⟩ := ok
        refine ⟨kept_submit_write kept, clean.queues, clean.reads, ?_, clean.sends⟩
        intro g member
        rcases List.mem_append.mp member with old | new
        · exact clean.writes g old
        · rw [List.mem_singleton.mp new]
          exact none_

theorem ok_send_pcm (ok : Ok (f :: hand) b) (none_ : f.received = none) :
    Ok hand (sendPcmFrame b f a) := by
  unfold sendPcmFrame
  split
  · unfold xframeSendPcm
    split
    · exact ok_send ok
    · exact ok_do_send ok none_
  · exact ok_send ok

theorem ok_send_cmd (ok : Ok (f :: hand) b) (none_ : f.received = none) :
    Ok hand (sendCmdFrame b f a) := by
  unfold sendCmdFrame
  split
  · exact ok_send ok
  · have put := @ok_enqueue _ _ _ .command ok fun _ => none_
    simp only
    split
    · rename_i accepted
      rw [if_pos accepted] at put
      exact put
    · rename_i refused
      rw [if_neg refused] at put
      exact ok_send (ok_state put)

theorem ok_command_tick (ok : Ok hand b) : Ok hand (xbusCommandQueueTick b a) := by
  unfold xbusCommandQueueTick
  split
  · exact ok
  · rename_i f b' taken
    obtain ⟨ok', none_⟩ := ok_dequeue ok taken
    have sent : Ok hand (reallySendCmdFrame b' f a).2 := by
      unfold reallySendCmdFrame
      split
      · exact ok_send ok'
      · exact ok_do_send ok' (none_ (by decide))
    simp only
    split
    · exact sent
    · exact ok_state sent

theorem ok_hand_over (ok : Ok (f :: hand) b) (none_ : f.received = none) : Ok hand (handOver b f) := by
  refine ⟨kept_hand_over ok.kept none_, clean_add ?_ fun g other => by cases other⟩
  obtain ⟨queues, reads, writes, sends⟩ := ok.clean
  exact ⟨queues, reads, writes, sends⟩

theorem ok_receive_xframe {rxTasklet : Bool} (ok : Ok (f :: hand) b) (none_ : f.received = none) :
    Ok hand (xbusReceiveXframe b f rxTasklet a) := by
  unfold xbusReceiveXframe
  split
  · have put := @ok_enqueue _ _ _ .receive ok fun _ => none_
    simp only
    split
    · rename_i accepted
      rw [if_pos accepted] at put
      exact put
    · rename_i refused
      rw [if_neg refused] at put
      exact ok_recv put
  · split
    · exact ok_hand_over ok none_
    · exact ok_recv ok

theorem ok_callback {status rxTasklet : Bool} {data : List (BitVec 8)} (ok : Ok (f :: hand) b)
    (none_ : f.received = none) : Ok hand (xppReceiveCallback b f status data rxTasklet a) := by
  have listening : ∀ f, Task.listen ≠ .send f := fun f same => by cases same
  unfold xppReceiveCallback
  split
  · exact ok_recv ok
  · split
    · exact ok_add (ok_recv ok) listening
    · have alike : Ok ({ f with packets := data } :: hand) b := ⟨kept_alike ok.kept rfl rfl, ok.clean⟩
      exact ok_add (ok_receive_xframe alike none_) listening

theorem ok_listen (ok : Ok hand b) : Ok hand (xusbListen b a) := by
  unfold xusbListen
  split
  · exact ok
  · rename_i f b' got
    obtain ⟨⟨kept, clean⟩, none_⟩ := ok_get ok (by decide) got
    split
    · refine ⟨kept_submit_read kept, clean.queues, ?_, clean.writes, clean.sends⟩
      intro g member
      rcases List.mem_append.mp member with old | new
      · exact clean.reads g old
      · rw [List.mem_singleton.mp new]
        exact none_
    · exact ok_recv ⟨kept, clean⟩

theorem ok_receive_kind (ok : Ok (f :: hand) b) : Ok hand (xframeReceiveKind b f a) := by
  unfold xframeReceiveKind
  split
  · split
    · exact ok_add ok fun g same => by cases same
    · exact ok_recv ok
  · exact ok_add ok fun g same => by cases same

theorem ok_receive_pcm (ok : Ok (f :: hand) b) : Ok hand (xframeReceivePcm b f a) := by
  have put := @ok_enqueue _ _ _ .pcmTospan ok fun other => absurd rfl other
  have reading : ∀ g, Task.pcmSync f ≠ .send g := fun g same => by cases same
  unfold xframeReceivePcm
  simp only
  split
  · rename_i accepted
    rw [if_pos accepted] at put
    exact ok_add put reading
  · rename_i refused
    rw [if_neg refused] at put
    exact ok_add (ok_recv put) reading

theorem ok_tick (ok : Ok hand b) : Ok hand (xbusTick b) := by
  unfold xbusTick
  split
  · exact ok
  · rename_i taken
    exact ok_add (ok_dequeue ok taken).1 fun g same => by cases same

/-- One step of a function, but for a frame that xframe_receive drops. -/
theorem ok_run {t : Task} (ok : Ok (owned t ++ hand) b) (done : runTask b a t = some b')
    (handled : ∀ f, t = .receive f → RPACKET_HEADERSIZE ≤ xframeLen f → b.connected = true) :
    Ok hand b' := by
  cases t with
  | receive f =>
    cases done
    unfold xframeReceive
    split
    · exact ok_recv ok
    · rename_i long
      rw [if_neg (by rw [handled f rfl (by omega)]; decide)]
      exact ok_add ok fun g same => by cases same
  | receiveKind f =>
    cases done
    exact ok_receive_kind ok
  | receiveCmd f =>
    cases done
    exact ok_recv ok
  | receivePcm f =>
    cases done
    exact ok_receive_pcm ok
  | pcmSync f =>
    have look := ok_look ok f
    cases done
    split
    · exact ok_add look fun g same => by cases same
    · exact look
  | drift f =>
    have look := ok_look ok f
    cases done
    split
    · exact ok_add look fun g same => by cases same
    · exact look
  | tick =>
    cases done
    exact ok_tick ok
  | copyPcmTospan f =>
    cases done
    exact ok_add (ok_recv ok) fun g same => by cases same
  | tickSync f =>
    cases done
    exact ok_add (ok_look ok f) fun g same => by cases same
  | listen =>
    cases done
    exact ok_listen ok
  | send f => cases done

end functions

end FrameCustody
