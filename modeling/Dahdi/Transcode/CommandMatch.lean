import Dahdi.Library.GuardedRun

/-!
The commands of a transcoder card that wait for a response: sent, queued, retried by the
watchdog, and matched with the responses of the card. A copy that was once given to the
card may be lost, or answered any number of times and at any later time.
-/
namespace Wctc4xxp
open GuardedRun

/-- Where a call of wctc4xxp_transmit_cmd for a command stands, between the sections that
    it locks. -/
inductive Stage where
  | none
  | begin_
  | submit
  | refused
  | store
  deriving DecidableEq, Repr

/-- struct tcb, with the function, the channel and the seq_num of its header. `response`
    is the seq_num of the response, `completed` how often the command was completed, and
    `submitted` whether the card was ever given a copy. -/
structure Tcb where
  created : Bool
  function : Nat
  channel : Nat
  seqNum : Nat
  waitForAck : Bool
  waitForResponse : Bool
  txComplete : Bool
  cmdTimeout : Bool
  retries : Nat
  response : Option Nat
  completed : Nat
  stage : Stage
  submitted : Bool
  deriving DecidableEq, Repr

/-- The commands and lists of a card. `retrieved` are the commands off the descriptor ring
    whose flags are not set yet, and `pulls` the calls of service_tx_ring that still look at
    cmd_list. `thrown` is history: the unanswered commands whose response was taken for a
    duplicate. -/
structure Card (K P : Type) where
  cmd : K → Tcb
  waiting : List K
  cmdList : List K
  ring : List K
  retrieved : List K
  pulls : Nat
  seqNum : Option P → Nat
  lastRxSeqNum : Int
  shutdown : Bool
  thrown : List K

def SUPERVISOR_CHANNEL : Nat := 0xffff
def MAX_RETRIES : Nat := 5

/-- The steps of senders, of service_tx_ring, of the receive service and of the watchdog.
    `submit` is told whether the descriptor ring is full, and `watch` is the watchdog at a
    command whose time is over. -/
inductive Label (K P : Type) where
  | create (k : K) (pvt : Option P) (function channel : Nat)
  | transmit (k : K)
  | submit (k : K) (busy : Bool)
  | unlist (k : K)
  | store (k : K)
  | retrieve
  | mark (k : K)
  | pull
  | receive (k : K)
  | ack (seqNum channel : Nat)
  | watch (k : K)
  | halt
  deriving DecidableEq

variable {K P : Type} [DecidableEq K] [DecidableEq P]

def setCmd (s : Card K P) (k : K) (c : Tcb) : Card K P := { s with cmd := Function.update s.cmd k c }

/-- setup_channel_header and setup_supervisor_header -/
def header (s : Card K P) (pvt : Option P) (channel : Nat) : Nat × Nat :=
  (s.seqNum pvt % 16, if pvt = none then SUPERVISOR_CHANNEL else channel)

/-- create_channel_cmd and create_supervisor_cmd, and the call of wctc4xxp_transmit_cmd. -/
def createCmd (s : Card K P) (k : K) (pvt : Option P) (function channel : Nat) : Card K P :=
  let (seqNum, channel) := header s pvt channel
  let s := setCmd s k ⟨true, function, channel, seqNum, false, true, false, false, 0, none, 0, .begin_, false⟩
  { s with seqNum := Function.update s.seqNum pvt (s.seqNum pvt + 1) }

def Tcb.waits (c : Tcb) : Bool := c.waitForAck || c.waitForResponse

def Tcb.complete (c : Tcb) : Tcb := { c with completed := c.completed + 1 }

/-- wctc4xxp_transmit_cmd as far as the list of waiting commands. -/
def transmitCmd (s : Card K P) (k : K) : Card K P :=
  let c := s.cmd k
  if s.shutdown then
    setCmd { s with waiting := s.waiting.erase k, cmdList := s.cmdList.erase k } k
      { c.complete with cmdTimeout := true, stage := .none }
  else
    let s := setCmd s k { c with stage := .submit }
    if c.waits then { s with waiting := s.waiting ++ [k] } else s

/-- wctc4xxp_submit -/
def submitCmd (s : Card K P) (k : K) (busy : Bool) : Card K P :=
  if busy then setCmd s k { s.cmd k with stage := .refused }
  else { setCmd s k { s.cmd k with stage := .none, submitted := true } with ring := s.ring ++ [k] }

/-- The flags of a command that the card has fetched. -/
def markCmd (s : Card K P) (k : K) : Card K P :=
  let c := { s.cmd k with txComplete := true }
  { setCmd s k (if c.waits then c else c.complete) with
    retrieved := s.retrieved.erase k
    pulls := s.pulls + 1 }

/-- The first waiting command with this function and channel. -/
def matching (s : Card K P) (function channel : Nat) : Option K :=
  s.waiting.find? fun p => decide ((s.cmd p).function = function ∧ (s.cmd p).channel = channel)

def Unanswered (c : Tcb) : Prop := c.response = none ∧ c.completed = 0

instance (c : Tcb) : Decidable (Unanswered c) := inferInstanceAs (Decidable (_ ∧ _))

/-- The supervisor channel has answered with this seq_num the last time. -/
def duplicate (s : Card K P) (channel seqNum : Nat) : Bool :=
  decide (channel = SUPERVISOR_CHANNEL ∧ (seqNum : Int) = s.lastRxSeqNum)

/-- The list of waiting commands at a response to a command. -/
def matchResponse (s : Card K P) (k : K) : Card K P :=
  match matching s (s.cmd k).function (s.cmd k).channel with
  | none => s
  | some p =>
    let c := { s.cmd p with waitForResponse := false, response := some (s.cmd k).seqNum }
    { setCmd s p (if c.txComplete then c.complete else c) with waiting := s.waiting.erase p }

/-- do_rx_response_packet for a response to a command. -/
def rxResponse (s : Card K P) (k : K) : Card K P :=
  let c := s.cmd k
  if duplicate s c.channel c.seqNum then
    if Unanswered c then { s with thrown := k :: s.thrown } else s
  else
    matchResponse
      { s with lastRxSeqNum := if c.channel = SUPERVISOR_CHANNEL then c.seqNum else s.lastRxSeqNum } k

/-- do_rx_ack_packet for a packet of the CSM protocol. -/
def rxAck (s : Card K P) (seqNum channel : Nat) : Card K P :=
  match s.waiting.find? fun p => decide ((s.cmd p).seqNum = seqNum ∧ (s.cmd p).channel = channel) with
  | none => s
  | some p =>
    if (s.cmd p).waitForResponse then setCmd s p { s.cmd p with waitForAck := false }
    else { setCmd s p (s.cmd p).complete with waiting := s.waiting.erase p }

/-- The watchdog gives a command up. -/
def giveUp (s : Card K P) (k : K) (c : Tcb) : Card K P :=
  { setCmd s k { c.complete with cmdTimeout := true } with
    waiting := s.waiting.erase k
    shutdown := s.shutdown || !c.txComplete }

/-- wctc4xxp_watchdog at a command whose time is over. A command to be sent again leaves
    the list for one of the watchdog's own. -/
def watchCmd (s : Card K P) (k : K) : Card K P :=
  let c := { s.cmd k with retries := (s.cmd k).retries + 1 }
  if MAX_RETRIES < c.retries then giveUp s k c
  else if c.txComplete then
    { setCmd s k { c with txComplete := false, stage := .begin_ } with waiting := s.waiting.erase k }
  else setCmd s k c

def next (s : Card K P) : Label K P → Option (Card K P)
  | .create k pvt function channel =>
    if (s.cmd k).created then none else some (createCmd s k pvt function channel)
  | .transmit k => if (s.cmd k).stage = .begin_ then some (transmitCmd s k) else none
  | .submit k busy => if (s.cmd k).stage = .submit then some (submitCmd s k busy) else none
  | .unlist k =>
    if (s.cmd k).stage = .refused then
      some { setCmd s k { s.cmd k with stage := .store } with waiting := s.waiting.erase k }
    else none
  | .store k =>
    if (s.cmd k).stage = .store then
      some { setCmd s k { s.cmd k with stage := .none } with cmdList := s.cmdList ++ [k] }
    else none
  | .retrieve =>
    match s.ring with
    | [] => none
    | k :: rest => some { s with ring := rest, retrieved := s.retrieved ++ [k] }
  | .mark k => if k ∈ s.retrieved then some (markCmd s k) else none
  | .pull =>
    if s.pulls = 0 then none
    else
      match s.cmdList with
      | [] => some { s with pulls := s.pulls - 1 }
      | k :: rest =>
        some { setCmd s k { s.cmd k with stage := .begin_ } with cmdList := rest, pulls := s.pulls - 1 }
  | .receive k => if (s.cmd k).submitted then some (rxResponse s k) else none
  | .ack seqNum channel => some (rxAck s seqNum channel)
  | .watch k => if k ∈ s.waiting then some (watchCmd s k) else none
  | .halt => some { s with shutdown := true }

def card : System (Card K P) (Label K P) where
  start s := (∀ k, (s.cmd k).created = false ∧ (s.cmd k).stage = .none ∧ (s.cmd k).submitted = false ∧
      (s.cmd k).completed = 0 ∧ (s.cmd k).response = none) ∧
    s.waiting = [] ∧ s.cmdList = [] ∧ s.ring = [] ∧ s.retrieved = [] ∧
    s.lastRxSeqNum = -1 ∧ s.thrown = []
  step s l s' := next s l = some s'

structure Matched (s : Card K P) : Prop where
  once : ∀ k, (s.cmd k).completed ≤ 1
  own : ∀ k seqNum, (s.cmd k).response = some seqNum → seqNum = (s.cmd k).seqNum
  kept : s.thrown = []

/-- An unanswered command of the supervisor channel. -/
def Open (c : Tcb) : Prop := c.created = true ∧ Unanswered c ∧ c.channel = SUPERVISOR_CHANNEL

instance (c : Tcb) : Decidable (Open c) := inferInstanceAs (Decidable (_ ∧ _))

/-- A new command of the supervisor channel does not get the seq_num of the last response.
    A response that finds a command finds its own; if it is of the supervisor channel, no
    other unanswered command of that channel has its seq_num. No command that the watchdog
    has given up is put on cmd_list. -/
def Orderly (s : Card K P) : Label K P → Prop
  | .create _ pvt _ channel => duplicate s (header s pvt channel).2 (header s pvt channel).1 = false
  | .receive k =>
    duplicate s (s.cmd k).channel (s.cmd k).seqNum = true ∨
      (∀ p, matching s (s.cmd k).function (s.cmd k).channel = some p → p = k) ∧
      ((s.cmd k).channel = SUPERVISOR_CHANNEL → ∀ j, Open (s.cmd j) →
        (s.cmd j).seqNum = (s.cmd k).seqNum →
        matching s (s.cmd k).function (s.cmd k).channel = some j)
  | .store k => (s.cmd k).cmdTimeout = false
  | _ => True

end Wctc4xxp
