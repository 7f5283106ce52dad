import Dahdi.Channel.Contents

/-!
One dahdi_chan_read at a time, split where it drops the channel lock, among the
other calls on its channel.
-/
namespace ReadCall
open Channel CyclicCursor RingInvariant RingContents Fasthdlc
variable {T : Type}

/-- dahdi_chan_read between its critical sections. -/
def chanReadCopy (chan : Chan T) (res : Int) (count : Nat) : Option (List Octet) :=
  if readAmnt chan res count = 0 then some []
  else match chan.read.buf res.toNat with
    | none => none
    | some buf => some (readData chan buf (readAmnt chan res count).toNat)

theorem read_commit_split (chan : Chan T) (res : Int) (count : Nat) :
    chanReadCommit chan res count =
      (chanReadCopy chan res count).map fun data => (data, releaseRead chan res) := by
  unfold chanReadCommit chanReadCopy
  split
  · rfl
  · cases chan.read.buf res.toNat with
    | none => rfl
    | some buf => rfl

theorem read_amount {c : Chan T} (linear : c.flags.linear = false) (res : Int) (count : Nat) :
    (readAmnt c res count).toNat = min (count % 2 ^ 16) (c.read.n res.toNat).toNat := by
  simp only [readAmnt, linear, Bool.false_eq_true, ↓reduceIte]
  split <;> omega

/-- The copy is the oldest message, as far as the reader has room. -/
theorem read_copies {c : Chan T} (linear : c.flags.linear = false)
    (allocated : Allocated c.numbufs c.read)
    (valid : Valid c.numbufs c.read.inbuf c.read.outbuf c.read.filled) (held : 0 ≤ c.read.outbuf)
    (count : Nat) : chanReadCopy c c.read.outbuf count =
      some ((frameAt c.read c.read.outbuf.toNat).take (count % 2 ^ 16)) := by
  obtain ⟨rest, filled⟩ := valid_head valid held
  have inside := valid_below valid (by rw [filled]; exact List.mem_cons_self)
  obtain ⟨buf, present⟩ := Option.ne_none_iff_exists'.mp (allocated _ inside)
  have message : frameAt c.read c.read.outbuf.toNat =
      bytesOf buf 0 (c.read.n c.read.outbuf.toNat).toNat := by
    rw [frameAt, present, Option.getD_some]
  have bytes : (frameAt c.read c.read.outbuf.toNat).take (count % 2 ^ 16) =
      bytesOf buf 0 (readAmnt c c.read.outbuf count).toNat := by
    have whole := bytes_length buf 0 (c.read.n c.read.outbuf.toNat).toNat
    rw [message, read_amount linear, ← bytes_take buf 0 (Nat.min_le_right _ _), ← List.take_take,
      List.take_of_length_le (Nat.le_of_eq whole)]
  unfold chanReadCopy
  split
  · rename_i none
    rw [bytes, none]
    rfl
  · simp only [present, bytes, readData, linear, Bool.false_eq_true, ↓reduceIte]

def maxBlocksize : Int := 8192
def maxBufSpace : Int := 32768
def einval : Int := 22

/-- txbufpolicy of DAHDI_SET_BUFINFO; the value 3 acts like 0. -/
def policyOf (txbufpolicy : Nat) : Policy :=
  match txbufpolicy &&& 3 with
  | 1 => .whenFull
  | 2 => .halfFull
  | _ => .immediate

/-- DAHDI_SET_BUFINFO; the product is one of 32-bit integers. -/
def setBufinfo (chan : Chan T) (bufsize numbufs : Int) (txbufpolicy : Nat) (tx rx : Bool) :
    Int × Chan T :=
  if maxBlocksize < bufsize then (-einval, chan)
  else if bufsize < 16 then (-einval, chan)
  else if maxBufSpace < (bufsize * numbufs).bmod (2 ^ 32) then (-einval, chan)
  else reallocbufs { chan with txbufpolicy := policyOf txbufpolicy } bufsize numbufs tx rx

/-- DAHDI_SET_BLOCKSIZE -/
def setBlocksize (chan : Chan T) (j : Int) (tx rx : Bool) : Int × Chan T :=
  if maxBlocksize < j then (-einval, chan)
  else if j < 16 then (-einval, chan)
  else reallocbufs chan j chan.numbufs tx rx

/-- DAHDI_GETEVENT -/
def getEvent (chan : Chan T) : Nat × Chan T :=
  if chan.eventinidx = chan.eventoutidx then (0, chan)
  else
    (chan.eventbuf chan.eventoutidx, { chan with
      eventoutidx := if maxEventsize ≤ chan.eventoutidx + 1 then 0 else chan.eventoutidx + 1 })

/-- How far the reader has come. -/
inductive Reader where
  | idle
  | looked (res : Int) (count : Nat)
  | copied (res : Int) (data : List Octet)

/-- A channel and its reader. The last two fields are history: the octets that
    found room in the ring, and what each read has returned. -/
structure Session (T : Type) where
  chan : Chan T
  reader : Reader
  came : List Octet
  reads : List (List Octet)

/-- The ring has no buffer to receive into once some octets of a chunk are in. -/
def fullAfter (env : Env T) (chan : Chan T) (before : List Octet) : Bool :=
  match putbufLoop env (before.length + 1) chan before with
  | none => false
  | some (ms, _) => decide (ms.read.inbuf = -1)

/-- The octets of a chunk, after those before, that do not arrive at a full ring. -/
def foundRoom (env : Env T) (chan : Chan T) : List Octet → List Octet → List Octet
  | _, [] => []
  | before, o :: rest =>
    (if fullAfter env chan before then [] else [o]) ++ foundRoom env chan (before ++ [o]) rest

inductive Call where
  | chunk (rxb : List Octet)
  | look (count : Nat)
  | copy
  | fault
  | commit
  | getEvent
  | flush (mask : Nat)
  | setBufinfo (bufsize numbufs : Int) (txbufpolicy : Nat) (tx rx : Bool)
  | setBlocksize (j : Int) (tx rx : Bool)

/-- The first critical section; a reader that finds nothing fails or comes again. -/
def look (s : Session T) (count : Nat) : Session T :=
  if count % 2 ^ 16 < 1 then s
  else if 0 ≤ chanReadStart s.chan then
    { s with reader := .looked (chanReadStart s.chan) count }
  else s

/-- A step that is not the reader's next has no result, and so has one that
    goes through a NULL buffer or does not end. -/
def applyCall (env : Env T) (s : Session T) : Call → Option (Session T)
  | .chunk rxb => (putbufChunk env (rxb.length + 1) s.chan rxb).map fun chan =>
      { s with chan := chan, came := s.came ++ foundRoom env s.chan [] rxb }
  | .look count =>
    match s.reader with
    | .idle => some (look s count)
    | _ => none
  | .copy =>
    match s.reader with
    | .looked res count => (chanReadCopy s.chan res count).map fun data =>
        { s with reader := .copied res data }
    | _ => none
  -- copy_to_user fails and the call returns without its second critical section
  | .fault =>
    match s.reader with
    | .looked _ _ => some { s with reader := .idle }
    | _ => none
  | .commit =>
    match s.reader with
    | .copied res data => some { s with
        chan := releaseRead s.chan res, reader := .idle, reads := s.reads ++ [data] }
    | _ => none
  | .getEvent => some { s with chan := (getEvent s.chan).2 }
  | .flush mask => some { s with chan := flush s.chan mask }
  | .setBufinfo bufsize numbufs txbufpolicy tx rx =>
      some { s with chan := (setBufinfo s.chan bufsize numbufs txbufpolicy tx rx).2 }
  | .setBlocksize j tx rx => some { s with chan := (setBlocksize s.chan j tx rx).2 }

def afterCalls (env : Env T) (s : Session T) : List Call → Option (Session T)
  | [] => some s
  | call :: rest => (applyCall env s call).bind fun s => afterCalls env s rest

def opened (chan : Chan T) : Session T := ⟨chan, .idle, [], []⟩

def callSystem (env : Env T) (start : Chan T → Prop) : GuardedRun.System (Session T) Call where
  start s := ∃ chan, start chan ∧ s = opened chan
  step s call s' := applyCall env s call = some s'

/-- Whether each of some calls returns and meets a guard where it comes. -/
def allMeet (env : Env T) (guard : Session T → Call → Prop) [∀ s call, Decidable (guard s call)] :
    Session T → List Call → Bool
  | _, [] => true
  | s, call :: rest =>
    decide (guard s call) &&
      match applyCall env s call with
      | none => false
      | some s => allMeet env guard s rest

theorem reach_calls {env : Env T} {start : Chan T → Prop} {guard : Session T → Call → Prop}
    [∀ s call, Decidable (guard s call)] {s : Session T} {calls : List Call}
    (reached : GuardedRun.Reach (callSystem env start) guard s)
    (met : allMeet env guard s calls = true) :
    ∃ s', afterCalls env s calls = some s' ∧ GuardedRun.Reach (callSystem env start) guard s' := by
  induction calls generalizing s with
  | nil => exact ⟨s, rfl, reached⟩
  | cons call rest ih =>
    rw [allMeet, Bool.and_eq_true, decide_eq_true_eq] at met
    obtain ⟨allowed, met⟩ := met
    cases done : applyCall env s call with
    | none => simp [done] at met
    | some s₁ =>
      simp only [done] at met
      obtain ⟨s', after, reached'⟩ := ih (.step reached allowed done) met
      exact ⟨s', by rw [afterCalls, done]; exact after, reached'⟩

end ReadCall
