import Dahdi.Channel.Contents
import Dahdi.Library.Transducer

/-!
The audio queues between a channel and the master tick: struct confq and
__buf_pull, __buf_pushpeek, __buf_peek and __buf_push of dahdi-base.c. They
refine a first-in first-out queue of eight chunks.
-/
namespace ConfQueue
open Channel CyclicCursor RingContents Transducer Fasthdlc

def cbSize : Nat := 8

/-- The octets and the pointers into them, as offsets. -/
structure Confq where
  buffer : Buffer
  buf : Nat → Nat
  inbuf : Int
  outbuf : Int

/-- One chunk, as memcpy moves it. -/
def Chunk : Type := { data : List Octet // data.length = chunksize }

/-- The octets behind a pointer. -/
def octetsAt (q : Confq) (ptr : Nat) : Chunk :=
  ⟨bytesOf q.buffer ptr chunksize, bytes_length _ _ _⟩

/-- memcpy to a pointer. -/
def copyTo (q : Confq) (ptr : Nat) (data : Chunk) : Confq :=
  { q with buffer := copyAt q.buffer ptr data.1 }

def silence (lin2x : Int → Octet) : Chunk :=
  ⟨List.replicate chunksize (lin2x 0), List.length_replicate⟩

/-- The chunk under the second cursor has been read. -/
def Confq.pulled (q : Confq) : Confq :=
  let next := (q.outbuf + 1) % cbSize
  { q with
    outbuf := if next = q.inbuf then -1 else next
    inbuf := if q.inbuf < 0 then q.outbuf else q.inbuf }

/-- __buf_pull -/
def bufPull (lin2x : Int → Octet) (q : Confq) : Int × Chunk × Confq :=
  if q.outbuf < 0 then (-1, silence lin2x, q)
  else (0, octetsAt q (q.buf q.outbuf.toNat), q.pulled)

/-- __buf_pushpeek -/
def bufPushpeek (q : Confq) : Option Nat :=
  if q.inbuf < 0 then none else some (q.buf q.inbuf.toNat)

/-- __buf_peek -/
def bufPeek (q : Confq) : Option Nat :=
  if q.outbuf < 0 then none else some (q.buf q.outbuf.toNat)

/-- The chunk under the first cursor is ready. -/
def Confq.pushed (q : Confq) : Confq :=
  let next := (q.inbuf + 1) % cbSize
  { q with
    inbuf := if next = q.outbuf then -1 else next
    outbuf := if q.outbuf < 0 then q.inbuf else q.outbuf }

/-- __buf_push, with no data for what is there already. -/
def bufPush (q : Confq) (data : Option Chunk) : Int × Confq :=
  if q.inbuf < 0 then (-1, q)
  else match data with
    | none => (0, q.pushed)
    | some data => (0, (copyTo q (q.buf q.inbuf.toNat) data).pushed)

/-- reset_conf, for one of the two queues. -/
def resetConf (q : Confq) : Confq :=
  { q with
    buf := fun x => if x < cbSize then chunksize * x else q.buf x
    inbuf := 0
    outbuf := -1 }

/-- A push in place: the caller asks for room, writes behind the pointer and
    hands over. -/
inductive Caller where
  | idle
  | holding (ptr : Nat)
  | written

inductive Call where
  | push (data : Chunk)
  | pushpeek
  | write (data : Chunk)
  | handOver
  | peek
  | pull

inductive Answer where
  | pushed (res : Int)
  | room (found : Bool)
  | done
  | seen (data : Option Chunk)
  | pulled (res : Int) (data : Chunk)

/-- The queue with its caller. A caller with a push in place under way starts no
    other; it may pull and look meanwhile. -/
def queueStep (lin2x : Int → Octet) : Machine (Confq × Caller) Call Answer
  | (q, .idle), .push data => some (.pushed (bufPush q (some data)).1, (bufPush q (some data)).2, .idle)
  | (q, .idle), .pushpeek =>
    match bufPushpeek q with
    | none => some (.room false, q, .idle)
    | some ptr => some (.room true, q, .holding ptr)
  | (q, .holding ptr), .write data => some (.done, copyTo q ptr data, .written)
  | (q, .written), .handOver => some (.pushed (bufPush q none).1, (bufPush q none).2, .idle)
  | (q, caller), .peek => some (.seen ((bufPeek q).map (octetsAt q)), q, caller)
  | (q, caller), .pull =>
    let (res, data, q) := bufPull lin2x q
    some (.pulled res data, q, caller)
  | _, _ => none

inductive Writer where
  | idle
  | holding
  | written (data : Chunk)

/-- What the queue is for: chunks in the order they came, eight at most. -/
def fifoStep (lin2x : Int → Octet) : Machine (List Chunk × Writer) Call Answer
  | (chunks, .idle), .push data =>
    if chunks.length = cbSize then some (.pushed (-1), chunks, .idle)
    else some (.pushed 0, chunks ++ [data], .idle)
  | (chunks, .idle), .pushpeek =>
    if chunks.length = cbSize then some (.room false, chunks, .idle)
    else some (.room true, chunks, .holding)
  | (chunks, .holding), .write data => some (.done, chunks, .written data)
  | (chunks, .written data), .handOver => some (.pushed 0, chunks ++ [data], .idle)
  | (chunks, writer), .peek => some (.seen chunks.head?, chunks, writer)
  | ([], writer), .pull => some (.pulled (-1) (silence lin2x), [], writer)
  | (data :: rest, writer), .pull => some (.pulled 0 data, rest, writer)
  | _, _ => none

section Calls
variable (lin2x : Int → Octet) (q : Confq) (caller : Caller) (chunks : List Chunk) (writer : Writer)
  (data : Chunk)

theorem queueStep_push : queueStep lin2x (q, .idle) (.push data) =
    some (.pushed (bufPush q (some data)).1, (bufPush q (some data)).2, .idle) := rfl

theorem queueStep_pushpeek : queueStep lin2x (q, .idle) .pushpeek =
    match bufPushpeek q with
    | none => some (.room false, q, .idle)
    | some ptr => some (.room true, q, .holding ptr) := rfl

theorem queueStep_peek : queueStep lin2x (q, caller) .peek =
    some (.seen ((bufPeek q).map (octetsAt q)), q, caller) := by
  cases caller <;> rfl

theorem queueStep_pull : queueStep lin2x (q, caller) .pull =
    some (.pulled (bufPull lin2x q).1 (bufPull lin2x q).2.1, (bufPull lin2x q).2.2, caller) := by
  cases caller <;> rfl

theorem fifoStep_push : fifoStep lin2x (chunks, .idle) (.push data) =
    if chunks.length = cbSize then some (.pushed (-1), chunks, .idle)
    else some (.pushed 0, chunks ++ [data], .idle) := by
  cases chunks <;> rfl

theorem fifoStep_pushpeek : fifoStep lin2x (chunks, .idle) .pushpeek =
    if chunks.length = cbSize then some (.room false, chunks, .idle)
    else some (.room true, chunks, .holding) := by
  cases chunks <;> rfl

theorem fifoStep_peek : fifoStep lin2x (chunks, writer) .peek =
    some (.seen chunks.head?, chunks, writer) := by
  cases chunks <;> cases writer <;> rfl

theorem fifoStep_pull_none : fifoStep lin2x ([], writer) .pull =
    some (.pulled (-1) (silence lin2x), [], writer) := by
  cases writer <;> rfl

theorem fifoStep_pull : fifoStep lin2x (data :: chunks, writer) .pull =
    some (.pulled 0 data, chunks, writer) := by
  cases writer <;> rfl

end Calls

/-- Pointers to consecutive chunks, and cursors that belong together. -/
structure Laid (q : Confq) : Prop where
  pointers : ∀ x, x < cbSize → q.buf x = chunksize * x
  cursors : Valid cbSize q.inbuf q.outbuf (met cbSize q.inbuf q.outbuf)

def queued (q : Confq) : List Chunk :=
  (met cbSize q.inbuf q.outbuf).map fun x => octetsAt q (q.buf x)

section Memory
variable {q : Confq} {x y : Nat} {data : Chunk}

theorem octets_copied (q : Confq) (ptr : Nat) (data : Chunk) :
    octetsAt (copyTo q ptr data) ptr = data := by
  apply Subtype.ext
  have copied := bytes_copied q.buffer ptr data.1
  rw [data.2] at copied
  exact copied

/-- Writing one chunk leaves the others. -/
theorem octets_apart (other : y ≠ x) :
    octetsAt (copyTo q (chunksize * x) data) (chunksize * y) = octetsAt q (chunksize * y) := by
  apply Subtype.ext
  apply bytes_congr
  intro i low high
  have size : data.1.length = chunksize := data.2
  unfold chunksize at low high size ⊢
  simp only [copyTo, copy_at_get]
  split
  · rfl
  · rw [List.getElem?_eq_none (by omega)]
    rfl

theorem laid_in (laid : Laid q) (free : 0 ≤ q.inbuf) : q.inbuf.toNat < cbSize := by
  rcases laid.cursors.inRange with none | ⟨_, high⟩ <;> omega

/-- The queue with a chunk written where it is filled next. -/
theorem queued_copied (laid : Laid q) (free : 0 ≤ q.inbuf) (data : Chunk) :
    Laid (copyTo q (q.buf q.inbuf.toNat) data) ∧
      queued (copyTo q (q.buf q.inbuf.toNat) data) = queued q := by
  refine ⟨⟨laid.pointers, laid.cursors⟩, ?_⟩
  apply List.map_congr_left
  intro x member
  have inside := valid_below laid.cursors member
  have apart := valid_free laid.cursors free
  have other : x ≠ q.inbuf.toNat := by
    rintro rfl
    exact apart member
  simp only [copyTo]
  rw [laid.pointers _ (laid_in laid free), laid.pointers x inside]
  exact octets_apart other

end Memory

section Operations
variable {q : Confq}

theorem queued_full (laid : Laid q) : (queued q).length = cbSize ↔ q.inbuf < 0 := by
  have few := valid_length laid.cursors
  have full := valid_full laid.cursors
  simp only [queued, List.length_map]
  omega

/-- What is behind the cursor joins at the end. -/
theorem pushed_queued (laid : Laid q) (free : 0 ≤ q.inbuf) :
    Laid q.pushed ∧ queued q.pushed = queued q ++ [octetsAt q (q.buf q.inbuf.toNat)] := by
  have filled := valid_fill (by decide : 2 ≤ cbSize) laid.cursors free
  have walked := filled.walked
  constructor
  · rw [walked] at filled
    exact ⟨laid.pointers, filled⟩
  · unfold fillIn fillOut at walked
    simp only [queued, Confq.pushed]
    rw [← walked, List.map_append]
    rfl

theorem push_copied (laid : Laid q) (free : 0 ≤ q.inbuf) (data : Chunk) :
    Laid (copyTo q (q.buf q.inbuf.toNat) data).pushed ∧
      queued (copyTo q (q.buf q.inbuf.toNat) data).pushed = queued q ++ [data] := by
  obtain ⟨laid', same⟩ := queued_copied laid free data
  obtain ⟨pushed, last⟩ := pushed_queued laid' free
  refine ⟨pushed, ?_⟩
  rw [last, same]
  congr 2
  exact octets_copied q _ data

theorem peek_queued (laid : Laid q) : (bufPeek q).map (octetsAt q) = (queued q).head? := by
  unfold bufPeek queued
  split
  · rename_i none
    rw [valid_none laid.cursors none]
    rfl
  · rename_i held
    obtain ⟨rest, first⟩ := valid_head laid.cursors (by omega)
    rw [first]
    rfl

/-- The oldest chunk leaves, and the slot filled next is not touched. -/
theorem pulled_queued (laid : Laid q) (held : 0 ≤ q.outbuf) :
    Laid q.pulled ∧ queued q = octetsAt q (q.buf q.outbuf.toNat) :: queued q.pulled := by
  obtain ⟨rest, first, left⟩ := valid_empty (by decide : 2 ≤ cbSize) laid.cursors held
  have walked := left.walked
  constructor
  · rw [walked] at left
    exact ⟨laid.pointers, left⟩
  · unfold emptyIn emptyOut at walked
    simp only [queued, Confq.pulled]
    rw [first, ← walked]
    rfl

theorem pulled_in (free : 0 ≤ q.inbuf) : q.pulled.inbuf = q.inbuf :=
  if_neg (by omega)

end Operations

theorem reset_laid (q : Confq) : Laid (resetConf q) ∧ queued (resetConf q) = [] := by
  refine ⟨⟨?_, valid_start (by decide)⟩, rfl⟩
  intro x inside
  simp only [resetConf, if_pos inside]

/-- The place a caller holds is the one filled next, and what it has written is
    there. -/
def Places (q : Confq) : Caller → Writer → Prop
  | .idle, .idle => True
  | .holding ptr, .holding => 0 ≤ q.inbuf ∧ ptr = q.buf q.inbuf.toNat
  | .written, .written data => 0 ≤ q.inbuf ∧ octetsAt q (q.buf q.inbuf.toNat) = data
  | _, _ => False

/-- Pulling leaves a push in place under way as it is. -/
theorem places_pulled {q : Confq} {caller : Caller} {writer : Writer}
    (places : Places q caller writer) : Places q.pulled caller writer := by
  cases caller with
  | idle =>
    cases writer with
    | idle => trivial
    | holding => exact places.elim
    | written data => exact places.elim
  | holding ptr =>
    cases writer with
    | idle => exact places.elim
    | holding =>
      obtain ⟨free, same⟩ := places
      have kept := pulled_in free
      exact ⟨by rw [kept]; exact free, by rw [kept]; exact same⟩
    | written data => exact places.elim
  | written =>
    cases writer with
    | idle => exact places.elim
    | holding => exact places.elim
    | written data =>
      obtain ⟨free, same⟩ := places
      have kept := pulled_in free
      exact ⟨by rw [kept]; exact free, by rw [kept]; exact same⟩

/-- A queue and the list of its chunks. -/
def Related : Confq × Caller → List Chunk × Writer → Prop
  | (q, caller), (chunks, writer) => Laid q ∧ chunks = queued q ∧ Places q caller writer

theorem related_push {q : Confq} {chunks : List Chunk} (related : Related (q, .idle) (chunks, .idle))
    (lin2x : Int → Octet) (data : Chunk) :
    Option.Rel (Agree Related) (queueStep lin2x (q, .idle) (.push data))
      (fifoStep lin2x (chunks, .idle) (.push data)) := by
  obtain ⟨laid, rfl, _⟩ := related
  have full := queued_full laid
  simp only [queueStep_push, fifoStep_push]
  split
  · rename_i many
    simp only [bufPush, if_pos (full.mp many)]
    exact Option.Rel.some ⟨rfl, laid, rfl, trivial⟩
  · rename_i few
    have free : 0 ≤ q.inbuf := by omega
    obtain ⟨laid', joined⟩ := push_copied laid free data
    simp only [bufPush, if_neg (by omega : ¬q.inbuf < 0)]
    exact Option.Rel.some ⟨rfl, laid', joined.symm, trivial⟩

theorem related_pushpeek {q : Confq} {chunks : List Chunk}
    (related : Related (q, .idle) (chunks, .idle)) (lin2x : Int → Octet) :
    Option.Rel (Agree Related) (queueStep lin2x (q, .idle) .pushpeek)
      (fifoStep lin2x (chunks, .idle) .pushpeek) := by
  obtain ⟨laid, rfl, _⟩ := related
  have full := queued_full laid
  simp only [queueStep_pushpeek, fifoStep_pushpeek]
  split
  · rename_i none
    simp only [bufPushpeek, ite_eq_left_iff, reduceCtorEq, imp_false, not_not] at none
    rw [if_pos (full.mpr none)]
    exact Option.Rel.some ⟨rfl, laid, rfl, trivial⟩
  · rename_i ptr found
    unfold bufPushpeek at found
    split at found
    · cases found
    · rename_i free
      rw [if_neg (fun many => free (full.mp many))]
      exact Option.Rel.some ⟨rfl, laid, rfl, by omega, (Option.some.inj found).symm⟩

theorem related_write {q : Confq} {ptr : Nat} {chunks : List Chunk}
    (related : Related (q, .holding ptr) (chunks, .holding)) (data : Chunk) :
    Related (copyTo q ptr data, .written) (chunks, .written data) := by
  obtain ⟨laid, rfl, free, rfl⟩ := related
  obtain ⟨laid', same⟩ := queued_copied laid free data
  exact ⟨laid', same.symm, free, octets_copied q _ data⟩

theorem related_hand_over {q : Confq} {chunks : List Chunk} {data : Chunk}
    (related : Related (q, .written) (chunks, .written data)) :
    (bufPush q none).1 = 0 ∧ Related ((bufPush q none).2, .idle) (chunks ++ [data], .idle) := by
  obtain ⟨laid, rfl, free, rfl⟩ := related
  obtain ⟨laid', joined⟩ := pushed_queued laid free
  rw [bufPush, if_neg (by omega : ¬q.inbuf < 0)]
  exact ⟨rfl, laid', joined.symm, trivial⟩

theorem related_pull {q : Confq} {caller : Caller} {chunks : List Chunk} {writer : Writer}
    (related : Related (q, caller) (chunks, writer)) (lin2x : Int → Octet) :
    Option.Rel (Agree Related) (queueStep lin2x (q, caller) .pull)
      (fifoStep lin2x (chunks, writer) .pull) := by
  obtain ⟨laid, rfl, places⟩ := related
  rcases Int.lt_or_le q.outbuf 0 with none | held
  · have empty : queued q = [] := by
      rw [queued, valid_none laid.cursors none, List.map_nil]
    simp only [queueStep_pull, empty, fifoStep_pull_none, bufPull, if_pos none]
    exact Option.Rel.some ⟨rfl, laid, empty.symm, places⟩
  · obtain ⟨laid', left⟩ := pulled_queued laid held
    simp only [queueStep_pull, bufPull, if_neg (by omega : ¬q.outbuf < 0), left, fifoStep_pull]
    exact Option.Rel.some ⟨rfl, laid', rfl, places_pulled places⟩

/-- One call of either queue. -/
theorem related_step (lin2x : Int → Octet) :
    Refines (queueStep lin2x) (fifoStep lin2x) Related := by
  rintro ⟨q, caller⟩ ⟨chunks, writer⟩ call related
  have places := related.2.2
  cases call with
  | peek =>
    have first := peek_queued related.1
    rw [← related.2.1] at first
    simp only [queueStep_peek, fifoStep_peek, first]
    exact Option.Rel.some ⟨rfl, related⟩
  | pull => exact related_pull related lin2x
  | push data =>
    cases caller <;> cases writer <;> simp only [Places] at places
    · exact related_push related lin2x data
    · exact Option.Rel.none
    · exact Option.Rel.none
  | pushpeek =>
    cases caller <;> cases writer <;> simp only [Places] at places
    · exact related_pushpeek related lin2x
    · exact Option.Rel.none
    · exact Option.Rel.none
  | write data =>
    cases caller <;> cases writer <;> simp only [Places] at places
    · exact Option.Rel.none
    · exact Option.Rel.some ⟨rfl, related_write related data⟩
    · exact Option.Rel.none
  | handOver =>
    cases caller <;> cases writer <;> simp only [Places] at places
    · exact Option.Rel.none
    · exact Option.Rel.none
    · obtain ⟨done, after⟩ := related_hand_over related
      exact Option.Rel.some ⟨by simp only [done], after⟩

/-- From the state reset_conf leaves, every sequence of calls is answered as a
    first-in first-out queue of eight chunks answers it. -/
theorem audio_queue_refines_fifo (lin2x : Int → Octet) (q : Confq) (calls : List Call) :
    Option.Rel (Agree Related) (run (queueStep lin2x) (resetConf q, .idle) calls)
      (run (fifoStep lin2x) ([], .idle) calls) := by
  obtain ⟨laid, empty⟩ := reset_laid q
  exact run_refines (related_step lin2x) calls ⟨laid, empty.symm, trivial⟩

end ConfQueue
