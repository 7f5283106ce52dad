import Dahdi.Library.GuardedRun

/-!
The choice of the Astribank that gives the clock: xpp_set_syncer, got_new_syncer,
xbus_request_sync, update_sync_master, elect_syncer and exec_sync_command of xbus-pcm.c,
with the lives of the buses in xbus-core.c that call them.
-/
namespace Syncer

section Data

def MAX_BUSES : Nat := 128
def MAX_XPDS : Nat := 64
def INT_MAX : Nat := 2 ^ 31 - 1

inductive SyncMode where
  | none
  | ab
  | pll
  | query
  deriving DecidableEq

inductive XbusState where
  | start
  | idle
  | sentRequest
  | recvdDesc
  | ready
  | deactivating
  | deactivated
  | fail
  deriving DecidableEq

structure Xbus where
  connected : Bool
  state : XbusState
  syncMode : SyncMode
  syncModeDefault : SyncMode
  selfTicking : Bool
  commandTimer : Bool
  syncAdjustment : Int
  deriving DecidableEq

/-- What ref_ticker points to: the ticker in a bus, or dahdi_ticker. -/
inductive Ticker where
  | xbus (p : Nat)
  | dahdi
  deriving DecidableEq

/-- xbuses_array with the buses behind its pointers, the globals of xbus-pcm.c, whether a
    WARN_ON was hit, and the requests sent to the buses. -/
structure State where
  slot : Nat → Option Nat
  xbus : Nat → Xbus
  syncer : Option Nat
  refTicker : Option Ticker
  globalTicker : Option Nat
  forceDahdiSync : Bool
  warned : Bool
  sent : List (Nat × SyncMode)

def inArray (s : State) (p : Nat) : Bool := (List.range MAX_BUSES).any fun i => s.slot i = some p

def setXbus (p : Nat) (b : Xbus) (s : State) : State :=
  { s with xbus := fun q => if q = p then b else s.xbus q }

end Data

section Requests

def xppSetSyncer (xbus : Option Nat) (on : Bool) (s : State) : State :=
  match xbus with
  | none =>
    { s with syncer := none, refTicker := if s.refTicker ≠ some .dahdi then none else s.refTicker }
  | some p =>
    if s.syncer ≠ some p ∧ on = true then { s with syncer := some p }
    else if s.syncer = some p ∧ on = false then
      { s with syncer := none, refTicker := if s.refTicker ≠ some .dahdi then none else s.refTicker }
    else s

def xbusSetCommandTimer (p : Nat) (on : Bool) (s : State) : State :=
  setXbus p { s.xbus p with commandTimer := on, selfTicking := !on } s

/-- A reply to a request for a sync mode. -/
def gotNewSyncer (p : Nat) (mode : SyncMode) (drift : Int) (s : State) : State :=
  let s := setXbus p { s.xbus p with syncAdjustment := drift.bmod 256 } s
  if (s.xbus p).syncMode = mode then s
  else
    match mode with
    | .ab =>
      let s := xbusSetCommandTimer p false (setXbus p { s.xbus p with syncMode := mode } s)
      { xppSetSyncer (some p) true s with globalTicker := some p }
    | .pll =>
      let s := xbusSetCommandTimer p false (setXbus p { s.xbus p with syncMode := mode } s)
      { xppSetSyncer (some p) false s with globalTicker := some p }
    | .none =>
      let s := xbusSetCommandTimer p true (setXbus p { s.xbus p with syncMode := mode } s)
      xppSetSyncer (some p) false s
    | .query => s

/-- What is sent to a bus that is not connected is dropped. -/
def syncSource (p : Nat) (mode : SyncMode) (s : State) : State :=
  if (s.xbus p).connected then { s with sent := s.sent ++ [(p, mode)] } else s

def xbusRequestSync (p : Nat) (mode : SyncMode) (s : State) : State :=
  let s := syncSource p mode s
  if mode = .none then xbusSetCommandTimer p true (xppSetSyncer (some p) false s) else s

/-- One round of the loop that shuts all down except the wanted sync master. -/
def stopUnwanted (newSyncer : Option Nat) (s : State) (i : Nat) : State :=
  match s.slot i with
  | none => s
  | some p =>
    if (s.xbus p).connected ∧ newSyncer ≠ some p ∧ (s.xbus p).selfTicking then
      xbusRequestSync p (s.xbus p).syncModeDefault s
    else s

def updateSyncMaster (newSyncer : Option Nat) (forceDahdi : Bool) (s : State) : State :=
  let s := { s with warned := s.warned || newSyncer.isSome && forceDahdi, forceDahdiSync := forceDahdi }
  let s :=
    match newSyncer with
    | some p =>
      xbusRequestSync p .ab
        (xppSetSyncer (some p) true { s with forceDahdiSync := false, refTicker := some (.xbus p) })
    | none => if s.forceDahdiSync then { s with refTicker := some .dahdi } else { s with refTicker := none }
  (List.range MAX_BUSES).foldl (stopUnwanted newSyncer) s

end Requests

section Election

/-- The candidates of elect_syncer: the first ready bus, the bus of the best card and its
    priority. -/
structure Scan where
  theXbus : Option Nat
  bestXpd : Option Nat
  timingPriority : Nat

/-- The priority that card_timing_priority gives, none where there is no card that has one. -/
def scanXpd (p : Nat) (prio : Option Int) (scan : Scan) : Scan :=
  match prio with
  | none => scan
  | some prio =>
    if prio < 0 then scan
    else if 0 < prio ∧ prio < scan.timingPriority then
      { scan with timingPriority := prio.toNat, bestXpd := some p }
    else scan

def scanXbus (prios : Nat → Nat → Option Int) (s : State) (scan : Scan) (i : Nat) : Scan :=
  match s.slot i with
  | none => scan
  | some p =>
    if (s.xbus p).state = .ready then
      (List.range MAX_XPDS).foldl (fun scan j => scanXpd p (prios p j) scan)
        { scan with theXbus := if scan.theXbus = none then some p else scan.theXbus }
    else scan

def elected (prios : Nat → Nat → Option Int) (s : State) : Option Nat :=
  let scan := (List.range MAX_BUSES).foldl (scanXbus prios s) ⟨none, none, INT_MAX⟩
  if scan.bestXpd ≠ none then scan.bestXpd else scan.theXbus

def electSyncer (prios : Nat → Nat → Option Int) (s : State) : State :=
  let theXbus := elected prios s
  let s := if theXbus = none then xppSetSyncer none false s else s
  if theXbus ≠ s.syncer then updateSyncMaster theXbus s.forceDahdiSync s else s

end Election

section Commands

/-- Whether strncmp finds no difference between two C strings. -/
def strncmpEq : List Char → List Char → Nat → Bool
  | _, _, 0 => true
  | [], [], _ => true
  | a :: x, b :: y, n + 1 => a == b && strncmpEq x y n
  | _, _, _ => false

def isDigit (c : Char) : Bool := 48 ≤ c.toNat && c.toNat ≤ 57

def isSpace (c : Char) : Bool := c.toNat = 32 || 9 ≤ c.toNat && c.toNat ≤ 13

def digits (text : List Char) : Option Nat :=
  match text.takeWhile isDigit with
  | [] => none
  | ds => some (ds.foldl (fun n c => 10 * n + (c.toNat - 48)) 0)

/-- sscanf with a literal before %d, into an int that get_xbus takes as unsigned. -/
def sscanf (literal buf : List Char) : Option Nat :=
  if literal.isPrefixOf buf then
    match (buf.drop literal.length).dropWhile isSpace with
    | '-' :: rest => (digits rest).map fun n => (2 ^ 32 - n % 2 ^ 32) % 2 ^ 32
    | text => (digits text).map fun n => n % 2 ^ 32
  else none

inductive Command where
  | dahdi
  | sync (xbusno : Nat)
  | query (xbusno : Nat)
  | other

def parseCommand (buf : List Char) : Command :=
  if strncmpEq ['D', 'A', 'H', 'D', 'I'] buf 6 then .dahdi
  else
    match sscanf ['S', 'Y', 'N', 'C', '='] buf with
    | some xbusno => .sync xbusno
    | none =>
      match sscanf ['Q', 'U', 'E', 'R', 'Y', '='] buf with
      | some xbusno => .query xbusno
      | none => .other

def getXbus (num : Nat) (s : State) : Option Nat := if MAX_BUSES ≤ num then none else s.slot num

def ENXIO : Int := 6
def EINVAL : Int := 22

def execSyncCommand (buf : List Char) (count : Int) (s : State) : Int × State :=
  match parseCommand buf with
  | .dahdi => (count, updateSyncMaster none true s)
  | .sync xbusno =>
    match getXbus xbusno s with
    | none => (- ENXIO, s)
    | some p => (count, updateSyncMaster (some p) false s)
  | .query xbusno =>
    match getXbus xbusno s with
    | none => (- ENXIO, s)
    | some p => (count, syncSource p .query s)
  | .other => (-EINVAL, s)

end Commands

section Lives

/-- The transitions that xbus_setstate allows. -/
def allowed (old new : XbusState) : Bool :=
  old ≠ new &&
    match new with
    | .start => false
    | .idle => old = .start || old = .deactivated
    | .sentRequest => old = .idle
    | .recvdDesc => old = .sentRequest
    | .ready => old = .recvdDesc
    | .deactivating => old ≠ .deactivated
    | .deactivated => old = .deactivating
    | .fail => old ≠ .deactivating && old ≠ .deactivated

def xbusSetstate (p : Nat) (new : XbusState) (s : State) : Bool × State :=
  if allowed (s.xbus p).state new then (true, setXbus p { s.xbus p with state := new } s) else (false, s)

def xbusNew (p : Nat) (s : State) : Option State :=
  match (List.range MAX_BUSES).find? fun i => s.slot i = none with
  | none => none
  | some num =>
    some (setXbus p ⟨false, .start, .none, .pll, false, false, 0⟩
      { s with slot := fun i => if i = num then some p else s.slot i })

def xbusFree (p : Nat) (s : State) : State :=
  { s with slot := fun i => if s.slot i = some p then none else s.slot i }

def xbusActivate (p : Nat) (s : State) : State :=
  xbusRequestSync p .none (xbusSetstate p .idle (xbusSetCommandTimer p true s)).2

def xbusConnect (p : Nat) (s : State) : State :=
  xbusActivate p (setXbus p { s.xbus p with connected := true } s)

/-- The end of xbus_populate before its election. -/
def xbusPopulate (p : Nat) (s : State) : State :=
  let set := xbusSetstate p .ready s
  if set.1 then xbusRequestSync p .pll set.2 else (xbusSetstate p .fail s).2

/-- xbus_deactivate up to its election. -/
def xbusDeactivate (p : Nat) (s : State) : State :=
  let set := xbusSetstate p .deactivating s
  if set.1 then xbusRequestSync p .none set.2 else set.2

def xbusDisconnect (p : Nat) (s : State) : State :=
  xbusDeactivate p (setXbus p { s.xbus p with connected := false } s)

end Lives

section Steps

/-- What can happen, in any order: a bus is found, connected, started, initialised (and
    found to be a BRI or PRI one, or to fail), stopped, disconnected and at last freed; elections with
    any priorities of the cards, commands, replies. -/
inductive Op where
  | new (p : Nat)
  | connect (p : Nat)
  | activate (p : Nat)
  | identify (p : Nat)
  | describe (p : Nat)
  | abDefault (p : Nat)
  | populate (p : Nat)
  | fail (p : Nat)
  | deactivate (p : Nat)
  | disconnect (p : Nat)
  | deactivated (p : Nat)
  | free (p : Nat)
  | elect (prios : Nat → Nat → Option Int)
  | command (buf : List Char)
  | reply (p : Nat) (mode : SyncMode) (drift : Int)

def onXbus (p : Nat) (s : State) (effect : State → State) : Option State :=
  if inArray s p then some (effect s) else none

def next (s : State) : Op → Option State
  | .new p => if inArray s p then none else xbusNew p s
  | .connect p => if (s.xbus p).state = .start then onXbus p s (xbusConnect p) else none
  | .activate p => if (s.xbus p).state = .idle then onXbus p s (xbusActivate p) else none
  | .identify p => onXbus p s fun s => (xbusSetstate p .sentRequest s).2
  | .describe p => onXbus p s fun s => (xbusSetstate p .recvdDesc s).2
  | .abDefault p => onXbus p s fun s => setXbus p { s.xbus p with syncModeDefault := .ab } s
  | .populate p => onXbus p s (xbusPopulate p)
  | .fail p => onXbus p s fun s => (xbusSetstate p .fail s).2
  | .deactivate p => onXbus p s (xbusDeactivate p)
  | .disconnect p => onXbus p s (xbusDisconnect p)
  | .deactivated p => onXbus p s fun s => (xbusSetstate p .deactivated s).2
  | .free p =>
    if (s.xbus p).connected = false ∧ (s.xbus p).state = .deactivated then onXbus p s (xbusFree p) else none
  | .elect prios => some (electSyncer prios s)
  | .command buf => some (execSyncCommand buf buf.length s).2
  | .reply p mode drift => onXbus p s (gotNewSyncer p mode drift)

def initial : State :=
  ⟨fun _ => none, fun _ => ⟨false, .start, .none, .pll, false, false, 0⟩, none, none, none, false, false, []⟩

def sys : GuardedRun.System State Op where
  start s := s = initial
  step s op s' := next s op = some s'

end Steps

end Syncer
