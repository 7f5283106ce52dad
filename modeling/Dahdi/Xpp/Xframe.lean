import Mathlib.Data.List.Basic
import Mathlib.Data.List.Count

/-!
The frames of an Astribank bus: the queues they wait in, the pools they are taken
from and put back to, and the functions that handle them between the USB driver,
the receive tasklet and the ticks.
-/
namespace Xframe

/-- A frame is known by its allocation. While it is received it carries the number of
    its hand-over to xframe_receive. -/
structure Frame where
  id : Nat
  received : Option Nat
  packets : List (BitVec 8)

def RPACKET_HEADERSIZE : Nat := 4
def XFRAME_QUEUE_MARGIN : Nat := 10
def MAX_PENDING_WRITES : Nat := 100

def xframeLen (f : Frame) : Nat := f.packets.length

/-- is_pcm and sync_master of the first packet. -/
def xpacketIsPcm (f : Frame) : Bool := (f.packets.getD 1 0).getLsbD 3
def xpacketAddrSync (f : Frame) : Bool := (f.packets.getD 3 0).getLsbD 7

structure XframeQueue where
  head : List Frame
  steadyStateCount : Nat
  maxCount : Nat
  disabled : Bool
  overflows : Nat

def xframeQueueInit (steadyStateCount maxCount : Nat) : XframeQueue where
  head := []
  steadyStateCount := XFRAME_QUEUE_MARGIN + steadyStateCount
  maxCount := XFRAME_QUEUE_MARGIN + maxCount
  disabled := false
  overflows := 0

def xframeEnqueue (q : XframeQueue) (f : Frame) : Bool × XframeQueue :=
  if q.disabled then (false, q)
  else if q.maxCount ≤ q.head.length then (false, { q with overflows := q.overflows + 1 })
  else (true, { q with head := q.head ++ [f] })

inductive QueueName where
  | command
  | receive
  | sendPool
  | receivePool
  | pcmTospan
deriving DecidableEq

inductive XbusState where
  | start
  | idle
  | sentRequest
  | recvdDesc
  | ready
  | deactivating
  | deactivated
  | fail
deriving DecidableEq

/-- Where a function is that has a frame in its hands, or is still to read one. -/
inductive Task where
  | receive (f : Frame)
  | receiveKind (f : Frame)
  | receiveCmd (f : Frame)
  | receivePcm (f : Frame)
  | pcmSync (f : Frame)
  | drift (f : Frame)
  | tick
  | copyPcmTospan (f : Frame)
  | tickSync (f : Frame)
  | listen
  | send (f : Frame)

/-- The connection from xusb_probe to the end of xbus_disconnect, with the number of
    queues already cleared. -/
inductive Stage where
  | probed
  | connected
  | closing (cleared : Nat)
  | waiting
  | destroyed

structure Xbus where
  queues : QueueName → XframeQueue
  reads : List Frame
  writes : List Frame
  tasks : List Task
  transportRefcount : Int
  ops : Bool
  connected : Bool
  xbusState : XbusState
  present : Bool
  stage : Stage
  -- the frames allocated and not yet freed, and what has been handed to xframe_receive,
  -- freed and read after that
  live : List Nat
  nextId : Nat
  handed : Nat
  freed : List Nat
  late : List Nat

/-- What the functions outside the driver answer: alloc_xframe, usb_submit_urb,
    whether PCM is dropped, self_ticking, and a bit of memory that has been freed. -/
structure Answers where
  alloc : Bool
  submit : Bool
  drop : Bool
  ticking : Bool
  stale : Bool

def setDisabled (q : XframeQueue) (disabled : Bool) : XframeQueue := { q with disabled := disabled }

def setQueue (b : Xbus) (name : QueueName) (q : XframeQueue) : Xbus :=
  { b with queues := Function.update b.queues name q }

def addTask (b : Xbus) (t : Task) : Xbus := { b with tasks := b.tasks ++ [t] }

def withHead (q : XframeQueue) (head : List Frame) : XframeQueue := { q with head := head }

def xframeDequeue (b : Xbus) (name : QueueName) : Option (Frame × Xbus) :=
  match (b.queues name).head with
  | [] => none
  | f :: rest => some (f, setQueue b name (withHead (b.queues name) rest))

def transportAllocXframe (b : Xbus) (alloc : Bool) : Option (Frame × Xbus) :=
  if b.ops && b.present && alloc then
    some (⟨b.nextId, none, []⟩, { b with
      transportRefcount := b.transportRefcount + 1
      live := b.nextId :: b.live
      nextId := b.nextId + 1 })
  else none

/-- The frame is not received any more. -/
def markFreed (b : Xbus) (f : Frame) : Xbus :=
  match f.received with
  | none => b
  | some h => { b with freed := b.freed ++ [h] }

def transportFreeXframe (b : Xbus) (f : Frame) : Xbus :=
  let b := markFreed b f
  { b with
    transportRefcount := b.transportRefcount - 1
    live := b.live.erase f.id }

def xframeQueueAdjust (b : Xbus) (name : QueueName) (alloc : Bool) : Xbus :=
  let q := b.queues name
  let delta : Int := q.head.length - q.steadyStateCount
  if delta < -XFRAME_QUEUE_MARGIN then
    match transportAllocXframe b alloc with
    | none => b
    | some (f, b) =>
      let (queued, q) := xframeEnqueue (b.queues name) f
      if queued then setQueue b name q else transportFreeXframe (setQueue b name q) f
  else if XFRAME_QUEUE_MARGIN < delta then
    match xframeDequeue b name with
    | none => b
    | some (f, b) => transportFreeXframe b f
  else b

def getXframe (b : Xbus) (name : QueueName) (alloc : Bool) : Option (Frame × Xbus) :=
  match xframeDequeue (xframeQueueAdjust b name alloc) name with
  | none => none
  | some (f, b) => some ({ f with packets := [] }, b)

def putXframe (b : Xbus) (name : QueueName) (f : Frame) (alloc : Bool) : Xbus :=
  let (queued, q) := xframeEnqueue (b.queues name) { f with received := none }
  if queued then xframeQueueAdjust (setQueue (markFreed b f) name q) name alloc
  else transportFreeXframe (setQueue b name q) f

def freeRecv (b : Xbus) (f : Frame) (a : Answers) : Xbus := putXframe b .receivePool f a.alloc
def freeSend (b : Xbus) (f : Frame) (a : Answers) : Xbus := putXframe b .sendPool f a.alloc

/-- The transitions of xbus_setstate. -/
def stateAllowed (s newstate : XbusState) : Bool :=
  newstate ≠ s && match newstate with
    | .start => false
    | .idle => s = .start || s = .deactivated
    | .sentRequest => s = .idle
    | .recvdDesc => s = .sentRequest
    | .ready => s = .recvdDesc
    | .deactivating => s ≠ .deactivated
    | .deactivated => s = .deactivating
    | .fail => s ≠ .deactivating && s ≠ .deactivated

def xbusSetstate (b : Xbus) (newstate : XbusState) : Xbus :=
  if stateAllowed b.xbusState newstate then { b with xbusState := newstate } else b

section sending

def doSendXframe (b : Xbus) (f : Frame) (a : Answers) : Bool × Xbus :=
  if !b.present then (false, freeSend b f a)
  else if MAX_PENDING_WRITES < b.writes.length then (false, freeSend b f a)
  else if !a.submit then (false, freeSend b f a)
  else (true, { b with writes := b.writes ++ [f] })

def xframeSendPcm (b : Xbus) (f : Frame) (a : Answers) : Xbus :=
  if a.drop then freeSend b f a else (doSendXframe b f a).2

/-- pcm_frame_out and send_pcm_frame. -/
def sendPcmFrame (b : Xbus) (f : Frame) (a : Answers) : Xbus :=
  if b.xbusState = .ready then xframeSendPcm b f a else freeSend b f a

def sendCmdFrame (b : Xbus) (f : Frame) (a : Answers) : Xbus :=
  if !b.connected then freeSend b f a
  else
    let (queued, q) := xframeEnqueue (b.queues .command) f
    let b := setQueue b .command q
    if queued then b else freeSend (xbusSetstate b .fail) f a

def reallySendCmdFrame (b : Xbus) (f : Frame) (a : Answers) : Bool × Xbus :=
  if !b.connected then (false, freeSend b f a) else doSendXframe b f a

/-- One turn of the loop of xbus_command_queue_tick. -/
def xbusCommandQueueTick (b : Xbus) (a : Answers) : Xbus :=
  match xframeDequeue b .command with
  | none => b
  | some (f, b) =>
    let (sent, b) := reallySendCmdFrame b f a
    if sent then b else xbusSetstate b .fail

end sending

section receiving

def handOver (b : Xbus) (f : Frame) : Xbus :=
  addTask { b with handed := b.handed + 1 } (.receive { f with received := some b.handed })

def xbusReceiveXframe (b : Xbus) (f : Frame) (rxTasklet : Bool) (a : Answers) : Xbus :=
  if rxTasklet then
    let (queued, q) := xframeEnqueue (b.queues .receive) f
    let b := setQueue b .receive q
    if queued then b else freeRecv b f a
  else if b.connected then handOver b f
  else freeRecv b f a

def xppReceiveCallback (b : Xbus) (f : Frame) (status : Bool) (data : List (BitVec 8))
    (rxTasklet : Bool) (a : Answers) : Xbus :=
  if !b.present then freeRecv b f a
  else if !status || data.isEmpty then addTask (freeRecv b f a) .listen
  else addTask (xbusReceiveXframe b { f with packets := data } rxTasklet a) .listen

def xusbListen (b : Xbus) (a : Answers) : Xbus :=
  match getXframe b .receivePool a.alloc with
  | none => b
  | some (f, b) => if a.submit then { b with reads := b.reads ++ [f] } else freeRecv b f a

/-- One turn of the loop of receive_tasklet_func. -/
def receiveTaskletFunc (b : Xbus) : Xbus :=
  match xframeDequeue b .receive with
  | none => b
  | some (f, b) => handOver b f

/-- A frame that is not connected any more is dropped, and nobody has it. -/
def xframeReceive (b : Xbus) (f : Frame) (a : Answers) : Xbus :=
  if xframeLen f < RPACKET_HEADERSIZE then freeRecv b f a
  else if !b.connected then b
  else addTask b (.receiveKind f)

def xframeReceiveKind (b : Xbus) (f : Frame) (a : Answers) : Xbus :=
  if xpacketIsPcm f then
    if b.xbusState = .ready then addTask b (.receivePcm f) else freeRecv b f a
  else addTask b (.receiveCmd f)

def xframeReceivePcm (b : Xbus) (f : Frame) (a : Answers) : Xbus :=
  let (queued, q) := xframeEnqueue (b.queues .pcmTospan) f
  let b := setQueue b .pcmTospan q
  addTask (if queued then b else freeRecv b f a) (.pcmSync f)

def wasFreed (b : Xbus) (f : Frame) : Bool :=
  match f.received with
  | none => false
  | some h => h ∈ b.freed

/-- A function looks into a frame it does not hold. -/
def readFrame (b : Xbus) (f : Frame) : Xbus :=
  match f.received with
  | none => b
  | some h => if wasFreed b f then { b with late := b.late ++ [h] } else b

def syncBit (b : Xbus) (f : Frame) (a : Answers) : Bool :=
  if wasFreed b f then a.stale else xpacketAddrSync f

/-- One turn of the loop of xbus_tick over the received PCM frames. -/
def xbusTick (b : Xbus) : Xbus :=
  match xframeDequeue b .pcmTospan with
  | none => b
  | some (f, b) => addTask b (.copyPcmTospan f)

def runTask (b : Xbus) (a : Answers) : Task → Option Xbus
  | .receive f => some (xframeReceive b f a)
  | .receiveKind f => some (xframeReceiveKind b f a)
  | .receiveCmd f => some (freeRecv b f a)
  | .receivePcm f => some (xframeReceivePcm b f a)
  | .pcmSync f =>
    let read := readFrame b f
    some (if syncBit b f a then addTask read (.drift f) else read)
  -- do_tick hands the time of the frame to xpp_drift_step
  | .drift f =>
    let read := readFrame b f
    some (if a.ticking then addTask read .tick else read)
  | .tick => some (xbusTick b)
  | .copyPcmTospan f => some (addTask (freeRecv b f a) (.tickSync f))
  | .tickSync f => some (addTask (readFrame b f) .tick)
  | .listen => some (xusbListen b a)
  | .send _ => none

end receiving

inductive Event where
  | listen
  | urbRead (k : Nat) (status : Bool) (data : List (BitVec 8)) (rxTasklet : Bool) (a : Answers)
  | urbWrite (k : Nat) (a : Answers)
  | tasklet
  | run (k : Nat) (a : Answers)
  | tick
  | allocSend (a : Answers)
  | sendCmd (k : Nat) (a : Answers)
  | sendPcm (k : Nat) (a : Answers)
  | commandTick (a : Answers)
  | setState (newstate : XbusState)
  | connect
  | unplug
  | disconnect
  | disableCommands (disabled : Bool)
  | cleanCommand (a : Answers)
  | clearQueue
  | transportPut
  | destroy

/-- The queues in the order in which xbus_disconnect clears them. -/
def clearedQueue : Nat → Option QueueName
  | 0 => some .receive
  | 1 => some .sendPool
  | 2 => some .receivePool
  | 3 => some .pcmTospan
  | _ => none

/-- One turn of the loop of xframe_queue_clear. -/
def xframeQueueClear (b : Xbus) (cleared : Nat) (name : QueueName) : Xbus :=
  let b := setQueue b name (setDisabled (b.queues name) true)
  match xframeDequeue b name with
  | none => { b with stage := .closing (cleared + 1) }
  | some (f, b) => transportFreeXframe b f

def dropTask (b : Xbus) (k : Nat) : Xbus := { b with tasks := b.tasks.eraseIdx k }

def sendTask (b : Xbus) (k : Nat) (send : Xbus → Frame → Xbus) : Option Xbus :=
  match b.tasks[k]? with
  | some (.send f) => some (send (dropTask b k) f)
  | _ => none

def applyEvent (b : Xbus) : Event → Option Xbus
  | .listen => some (addTask b .listen)
  | .urbRead k status data rxTasklet a =>
    match b.reads[k]? with
    | none => none
    | some f =>
      some (xppReceiveCallback { b with reads := b.reads.eraseIdx k } f status data rxTasklet a)
  | .urbWrite k a =>
    match b.writes[k]? with
    | none => none
    | some f => some (freeSend { b with writes := b.writes.eraseIdx k } f a)
  | .tasklet => some (receiveTaskletFunc b)
  | .run k a =>
    match b.tasks[k]? with
    | none => none
    | some t => runTask (dropTask b k) a t
  | .tick => some (addTask b .tick)
  | .allocSend a =>
    match getXframe b .sendPool a.alloc with
    | none => none
    | some (f, b) => some (addTask b (.send f))
  | .sendCmd k a => sendTask b k fun b f => sendCmdFrame b f a
  | .sendPcm k a => sendTask b k fun b f => sendPcmFrame b f a
  | .commandTick a => some (xbusCommandQueueTick b a)
  | .setState newstate => some (xbusSetstate b newstate)
  | .connect =>
    match b.stage with
    | .probed =>
      some (xbusSetstate { b with
        transportRefcount := b.transportRefcount + 1
        connected := true
        stage := .connected } .idle)
    | _ => none
  | .unplug => some { b with present := false }
  | .disconnect =>
    match b.stage with
    | .connected =>
      some (xbusSetstate { b with connected := false, stage := .closing 0 } .deactivating)
    | _ => none
  | .disableCommands disabled =>
    some (setQueue b .command (setDisabled (b.queues .command) disabled))
  | .cleanCommand a =>
    match xframeDequeue b .command with
    | none => none
    | some (f, b) => some (freeSend b f a)
  | .clearQueue =>
    match b.stage with
    | .closing cleared => (clearedQueue cleared).map (xframeQueueClear b cleared)
    | _ => none
  | .transportPut =>
    match b.stage with
    | .closing 4 =>
      some { b with transportRefcount := b.transportRefcount - 1, stage := .waiting }
    | _ => none
  | .destroy =>
    match b.stage with
    | .waiting =>
      if b.transportRefcount = 0 then some { b with ops := false, stage := .destroyed } else none
    | _ => none

def initialQueues (commandQueueLength : Nat) : QueueName → XframeQueue
  | .command => xframeQueueInit 10 commandQueueLength
  | .receive => xframeQueueInit 10 50
  | .sendPool => xframeQueueInit 10 100
  | .receivePool => xframeQueueInit 10 50
  | .pcmTospan => xframeQueueInit 5 10

def xbusNew (commandQueueLength : Nat) : Xbus where
  queues := initialQueues commandQueueLength
  reads := []
  writes := []
  tasks := []
  transportRefcount := 0
  ops := true
  connected := false
  xbusState := .start
  present := true
  stage := .probed
  live := []
  nextId := 0
  handed := 0
  freed := []
  late := []

end Xframe
