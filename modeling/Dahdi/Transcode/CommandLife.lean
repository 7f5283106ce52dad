import Dahdi.Transcode.CommandRuns

/-!
Who holds a command of a transcoder card, and who frees it: senders, service_tx_ring, the
receive service, the watchdog, waiting owners and the clean-up of the ring and the lists.
-/
namespace Wctc4xxpLife
open GuardedRun
open Wctc4xxp (Stage MAX_RETRIES count_push count_erase)

def DRING_SIZE : Nat := 128

/-- A command without an owner, and one whose owner has it, waits for it or has freed it. -/
inductive Owner where
  | none
  | has
  | waits
  | gone
  deriving DecidableEq, Repr

/-- struct tcb: its flags, how often it was completed since its owner last woke, and `freed`, how
    often it was freed. `boot` is the protocol 0xefed of the frames of the firmware. -/
structure Tcb where
  created : Bool
  boot : Bool
  doNotAutoFree : Bool
  txComplete : Bool
  waitForAck : Bool
  waitForResponse : Bool
  cmdTimeout : Bool
  retries : Nat
  stage : Stage
  owner : Owner
  done : Nat
  freed : Nat
  deriving DecidableEq, Repr

/-- The lists, the ring and the commands off the ring whose flags are not set yet. `retry` is the
    watchdog's own list. -/
structure Card (K : Type) where
  cmd : K → Tcb
  waiting : List K
  cmdList : List K
  retry : List K
  ring : List K
  retrieved : List K
  pulls : Nat
  shutdown : Bool

/-- What an owner waits for. -/
inductive Wait where
  | sent
  | ack
  | response
  deriving DecidableEq, Repr

/-- `packet` sends a command with no flags, `alloc` to `wake` and `free` are an owner's, and `ack`
    names the command that the seq_num and the channel of the packet find. -/
inductive Label (K : Type) where
  | packet (k : K)
  | alloc (k : K)
  | send (k : K) (wait : Wait) (boot : Bool)
  | transmit (k : K)
  | submit (k : K)
  | unlist (k : K)
  | store (k : K)
  | retrieve
  | mark (k : K)
  | pull
  | response (k : K)
  | ack (hit : Option K)
  | watch (k : K)
  | resend
  | wake (k : K)
  | free (k : K)
  | halt
  | cleanRing
  | cleanLists
  deriving DecidableEq, Repr

section Code
variable {K : Type} [DecidableEq K]

def setCmd (s : Card K) (k : K) (c : Tcb) : Card K := { s with cmd := Function.update s.cmd k c }

/-- list_del_init of the node of a command, whichever list it is on. -/
def listDel (s : Card K) (k : K) : Card K :=
  { s with waiting := s.waiting.erase k, cmdList := s.cmdList.erase k, retry := s.retry.erase k }

def Tcb.waits (c : Tcb) : Bool := c.waitForAck || c.waitForResponse

def Tcb.complete (c : Tcb) : Tcb := { c with done := c.done + 1 }

def Tcb.free (c : Tcb) : Tcb := { c with freed := c.freed + 1 }

/-- What becomes of a command that is over. -/
def Tcb.finish (c : Tcb) : Tcb := if c.doNotAutoFree then c.complete else c.free

def allocated : Tcb := ⟨true, false, false, false, false, false, false, 0, .none, .has, 0, 0⟩

/-- create_supervisor_cmd and create_channel_cmd, and the call of wctc4xxp_transmit_cmd. -/
def sent (c : Tcb) (wait : Wait) (boot : Bool) : Tcb :=
  { c with
    boot
    doNotAutoFree := true
    txComplete := false
    waitForAck := decide (wait = .ack)
    waitForResponse := decide (wait = .response)
    cmdTimeout := false
    stage := .begin_
    owner := .waits }

/-- wctc4xxp_transmit_cmd as far as the list of waiting commands. -/
def transmitCmd (s : Card K) (k : K) : Card K :=
  let c := s.cmd k
  if s.shutdown then
    setCmd (listDel s k) k
      { c.finish with cmdTimeout := c.cmdTimeout || c.doNotAutoFree, stage := .none }
  else
    let s := setCmd s k { c with stage := .submit }
    if c.waits then { s with waiting := s.waiting ++ [k] } else s

/-- wctc4xxp_submit: -EBUSY where the ring is full. -/
def submitCmd (s : Card K) (k : K) : Card K :=
  if DRING_SIZE ≤ s.ring.length then setCmd s k { s.cmd k with stage := .refused }
  else { setCmd s k { s.cmd k with stage := .none } with ring := s.ring ++ [k] }

/-- The flags of a command that the card has fetched. -/
def markCmd (s : Card K) (k : K) : Card K :=
  let c := { s.cmd k with txComplete := true }
  { setCmd s k (if c.waits then c else c.finish) with
    retrieved := s.retrieved.erase k
    pulls := s.pulls + 1 }

/-- do_rx_response_packet at the command it finds. -/
def rxResponse (s : Card K) (k : K) : Card K :=
  let c := { s.cmd k with waitForResponse := false }
  setCmd (listDel s k) k (if c.txComplete then c.complete else c)

/-- The walk of do_rx_ack_packet over the waiting commands. -/
def rxAckLoop (hit : Option K) : List K → Card K → Card K
  | [], s => s
  | pos :: rest, s =>
    let c := s.cmd pos
    if c.boot then rxAckLoop hit rest (setCmd (listDel s pos) pos c.complete)
    else if hit = some pos then
      if c.waitForResponse then setCmd s pos { c with waitForAck := false }
      else setCmd (listDel s pos) pos c.finish
    else rxAckLoop hit rest s

/-- wctc4xxp_watchdog at a command whose time is over. -/
def watchCmd (s : Card K) (k : K) : Card K :=
  let c := { s.cmd k with retries := (s.cmd k).retries + 1 }
  if MAX_RETRIES < c.retries then
    { setCmd (listDel s k) k { c.complete with cmdTimeout := true } with
      shutdown := s.shutdown || !c.txComplete }
  else if c.txComplete then
    let s := setCmd (listDel s k) k { c with txComplete := false }
    { s with retry := s.retry ++ [k] }
  else setCmd s k c

/-- wctc4xxp_cleanup_descriptor_ring -/
def cleanRingLoop : List K → Card K → Card K
  | [], s => s
  | k :: rest, s => cleanRingLoop rest { setCmd (listDel s k) k (s.cmd k).free with ring := rest }

/-- The commands that wctc4xxp_cleanup_command_list has moved to its own list. -/
def cleanListLoop : List K → Card K → Card K
  | [], s => s
  | k :: rest, s => cleanListLoop rest (setCmd (listDel s k) k (s.cmd k).free)

def next (s : Card K) : Label K → Option (Card K)
  | .packet k =>
    if (s.cmd k).created then none
    else some (setCmd s k { allocated with owner := .none, stage := .begin_ })
  | .alloc k => if (s.cmd k).created then none else some (setCmd s k allocated)
  | .send k wait boot =>
    if (s.cmd k).owner = .has then some (setCmd s k (sent (s.cmd k) wait boot)) else none
  | .transmit k => if (s.cmd k).stage = .begin_ then some (transmitCmd s k) else none
  | .submit k => if (s.cmd k).stage = .submit then some (submitCmd s k) else none
  | .unlist k =>
    if (s.cmd k).stage = .refused then
      some (setCmd (listDel s k) k { s.cmd k with stage := .store })
    else none
  | .store k =>
    if (s.cmd k).stage = .store then
      some { setCmd s k { s.cmd k with stage := .none } with cmdList := s.cmdList ++ [k] }
    else none
  | .retrieve =>
    match s.ring with
    | [] => none
    | k :: rest => some { s with ring := rest, retrieved := s.retrieved ++ [k] }
  | .mark k => if k ∈ s.retrieved then some (markCmd s k) else none
  | .pull =>
    if s.pulls = 0 then none
    else
      match s.cmdList with
      | [] => some { s with pulls := s.pulls - 1 }
      | k :: rest =>
        some { setCmd s k { s.cmd k with stage := .begin_ } with cmdList := rest, pulls := s.pulls - 1 }
  | .response k => if k ∈ s.waiting then some (rxResponse s k) else none
  | .ack hit => some (rxAckLoop hit s.waiting s)
  | .watch k => if k ∈ s.waiting then some (watchCmd s k) else none
  | .resend =>
    match s.retry with
    | [] => none
    | k :: rest => some { setCmd s k { s.cmd k with stage := .begin_ } with retry := rest }
  | .wake k =>
    if (s.cmd k).owner = .waits ∧ 0 < (s.cmd k).done then
      some (setCmd s k { s.cmd k with owner := .has, done := (s.cmd k).done - 1 })
    else none
  | .free k =>
    if (s.cmd k).owner = .has then some (setCmd s k { (s.cmd k).free with owner := .gone }) else none
  | .halt => some { s with shutdown := true }
  | .cleanRing => some (cleanRingLoop s.ring s)
  | .cleanLists => some (cleanListLoop (s.waiting ++ s.cmdList) s)

def blank : Tcb := ⟨false, false, false, false, false, false, false, 0, .none, .none, 0, 0⟩

def card : System (Card K) (Label K) where
  start s := (∀ k, s.cmd k = blank) ∧ s.waiting = [] ∧ s.cmdList = [] ∧ s.retry = [] ∧ s.ring = [] ∧
    s.retrieved = []
  step s l s' := next s l = some s'

/-- A container, or a call under way, still refers to a command. -/
def Referred (s : Card K) (k : K) : Prop :=
  k ∈ s.ring ∨ k ∈ s.retrieved ∨ k ∈ s.waiting ∨ k ∈ s.cmdList ∨ k ∈ s.retry ∨ (s.cmd k).stage ≠ .none

/-- The owner has a command, or is woken for it. -/
def WithOwner (c : Tcb) : Prop := c.owner = .has ∨ 0 < c.done

structure Lawful (s : Card K) : Prop where
  once : ∀ k, (s.cmd k).freed ≤ 1
  freed : ∀ k, (s.cmd k).created = true →
    ((s.cmd k).freed = 1 ↔ ¬ Referred s k ∧ ¬ WithOwner (s.cmd k))
  released : ∀ k, WithOwner (s.cmd k) → ¬ Referred s k

/-- The walk of do_rx_ack_packet completes commands that the card has fetched only. -/
def AckedSent (hit : Option K) : List K → Card K → Prop
  | [], _ => True
  | pos :: rest, s =>
    let c := s.cmd pos
    if c.boot then c.txComplete = true ∧ AckedSent hit rest (setCmd (listDel s pos) pos c.complete)
    else if hit = some pos then c.waitForResponse = false → c.txComplete = true
    else AckedSent hit rest s

/-- An acknowledgement, or the watchdog that gives up, finds a command that the card has fetched.
    A response to a command that waits for an acknowledgement does too. The lists are cleaned up when
    no waiting command is on the ring or on its way there. -/
def Orderly (s : Card K) : Label K → Prop
  | .response k => (s.cmd k).waitForResponse = true ∨ (s.cmd k).txComplete = true
  | .ack hit => AckedSent hit s.waiting s
  | .watch k => MAX_RETRIES ≤ (s.cmd k).retries → (s.cmd k).txComplete = true
  | .cleanLists => ∀ k ∈ s.waiting, k ∉ s.ring ∧ k ∉ s.retrieved ∧ (s.cmd k).stage = .none
  | _ => True

end Code

section View

/-- A command, and how often it is on the lists and on the ring. -/
structure View where
  cmd : Tcb
  waiting : Nat
  cmdList : Nat
  retry : Nat
  ring : Nat
  retrieved : Nat

/-- In how many places a command is on its way to the card. -/
def View.load (v : View) : Nat :=
  (if v.cmd.stage = .none then 0 else 1) + v.cmdList + v.retry + v.ring + v.retrieved

def View.held (v : View) : Nat := if v.load + v.waiting = 0 then 0 else 1

structure Good (v : View) : Prop where
  place : v.load ≤ 1
  sent : v.cmd.txComplete = true → v.load = 0
  listed : v.waiting ≤ 1
  waits : 0 < v.waiting → v.cmd.owner = .waits ∧ v.cmd.done = 0 ∧ v.cmd.freed = 0 ∧ v.cmdList = 0 ∧
    v.retry = 0 ∧ v.cmd.stage ≠ .begin_ ∧ v.cmd.stage ≠ .store ∧ v.cmd.waits = true
  riding : 0 < v.waiting → v.cmd.txComplete = false → v.load = 1
  armed : v.cmd.waits = true → 0 < v.ring ∨ 0 < v.retrieved ∨ v.cmd.stage = .submit → v.waiting = 1
  one : v.cmd.waitForAck = true → v.cmd.waitForResponse = false
  fresh : v.cmd.created = false → v.cmd.owner = .none ∧ v.cmd.done = 0 ∧ v.cmd.freed = 0 ∧ v.load = 0 ∧
    v.waiting = 0
  alone : v.cmd.created = true → v.cmd.owner = .none → v.cmd.doNotAutoFree = false ∧ v.cmd.waits = false ∧
    v.cmd.done = 0 ∧ v.held + v.cmd.freed = 1
  has : v.cmd.owner = .has → v.load = 0 ∧ v.waiting = 0 ∧ v.cmd.done = 0 ∧ v.cmd.freed = 0
  waiter : v.cmd.owner = .waits → v.cmd.doNotAutoFree = true ∧ v.held + v.cmd.done + v.cmd.freed = 1
  gone : v.cmd.owner = .gone → v.load = 0 ∧ v.waiting = 0 ∧ v.cmd.done = 0 ∧ v.cmd.freed = 1

variable {v : View}

theorem good_blank : Good ⟨blank, 0, 0, 0, 0, 0⟩ := by
  constructor <;> grind -ring -linarith [View.load, View.held, blank, Tcb.waits]

theorem good_packet (good : Good v) (new : v.cmd.created = false) :
    Good { v with cmd := { allocated with owner := .none, stage := .begin_ } } := by
  have fresh := good.fresh new
  constructor <;> grind -ring -linarith [View.load, View.held, allocated, Tcb.waits]

theorem good_allocated (good : Good v) (new : v.cmd.created = false) :
    Good { v with cmd := allocated } := by
  have fresh := good.fresh new
  constructor <;> grind -ring -linarith [View.load, View.held, allocated, Tcb.waits]

theorem good_sent (good : Good v) (owned : v.cmd.owner = .has) (wait : Wait) (boot : Bool) :
    Good { v with cmd := sent v.cmd wait boot } := by
  have has := good.has owned
  have fresh := good.fresh
  cases wait with
  | sent => constructor <;> grind -ring -linarith [View.load, View.held, Wctc4xxpLife.sent, Tcb.waits]
  | ack => constructor <;> grind -ring -linarith [View.load, View.held, Wctc4xxpLife.sent, Tcb.waits]
  | response => constructor <;> grind -ring -linarith [View.load, View.held, Wctc4xxpLife.sent, Tcb.waits]

/-- A command that is about to be sent is on no list. -/
theorem begin_bare (good : Good v) (at_ : v.cmd.stage = .begin_) :
    v.waiting = 0 ∧ v.cmdList = 0 ∧ v.retry = 0 ∧ v.ring = 0 ∧ v.retrieved = 0 ∧ v.cmd.txComplete = false := by
  obtain ⟨place, sent, listed, waits, riding, armed, one, fresh, alone, has, waiter, gone⟩ := good
  refine ⟨?_, ?_, ?_, ?_, ?_, ?_⟩ <;> grind -ring -linarith [View.load]

theorem good_shut (good : Good v) (at_ : v.cmd.stage = .begin_) (late : Bool) :
    Good { v with
      cmd := { v.cmd.finish with cmdTimeout := late, stage := .none }
      waiting := v.waiting - 1
      cmdList := v.cmdList - 1
      retry := v.retry - 1 } := by
  obtain ⟨waiting, cmdList, retry, ring, retrieved, open_⟩ := begin_bare good at_
  obtain ⟨place, sent, listed, waits, riding, armed, one, fresh, alone, has, waiter, gone⟩ := good
  by_cases owned : v.cmd.doNotAutoFree = true
  · rw [Tcb.finish, if_pos owned]
    constructor <;> grind -ring -linarith [View.load, View.held, Tcb.complete, Tcb.waits]
  · rw [Tcb.finish, if_neg owned]
    constructor <;> grind -ring -linarith [View.load, View.held, Tcb.free, Tcb.waits]

/-- A command on its way that waits for something has an owner who waits for it. -/
theorem owner_waits (good : Good v) (under : v.load ≠ 0) (armed : v.cmd.waits = true) :
    v.cmd.owner = .waits := by
  cases owner : v.cmd.owner with
  | none =>
    cases new : v.cmd.created with
    | false => exact absurd (good.fresh new).2.2.2.1 under
    | true =>
      have quiet := (good.alone new owner).2.1
      rw [armed] at quiet
      cases quiet
  | has => exact absurd (good.has owner).1 under
  | waits => rfl
  | gone => exact absurd (good.gone owner).1 under

theorem good_listed (good : Good v) (at_ : v.cmd.stage = .begin_) (armed : v.cmd.waits = true) :
    Good { v with cmd := { v.cmd with stage := .submit }, waiting := v.waiting + 1 } := by
  have under : v.load ≠ 0 := by
    rw [View.load, at_, if_neg (by decide)]
    omega
  have owner := owner_waits good under armed
  obtain ⟨waiting, cmdList, retry, ring, retrieved, open_⟩ := begin_bare good at_
  obtain ⟨place, sent, listed, waits, riding, _, one, fresh, alone, has, waiter, gone⟩ := good
  constructor <;> grind -ring -linarith [View.load, View.held, Tcb.waits]

theorem good_unlisted (good : Good v) (at_ : v.cmd.stage = .begin_) (free : ¬ v.cmd.waits = true) :
    Good { v with cmd := { v.cmd with stage := .submit } } := by
  obtain ⟨waiting, cmdList, retry, ring, retrieved, open_⟩ := begin_bare good at_
  obtain ⟨place, sent, listed, waits, riding, _, one, fresh, alone, has, waiter, gone⟩ := good
  constructor <;> grind -ring -linarith [View.load, View.held, Tcb.waits]

theorem good_refused (good : Good v) (at_ : v.cmd.stage = .submit) :
    Good { v with cmd := { v.cmd with stage := .refused } } := by
  obtain ⟨place, sent, listed, waits, riding, armed, one, fresh, alone, has, waiter, gone⟩ := good
  constructor <;> grind -ring -linarith [View.load, View.held, Tcb.waits]

theorem good_rung (good : Good v) (at_ : v.cmd.stage = .submit) :
    Good { v with cmd := { v.cmd with stage := .none }, ring := v.ring + 1 } := by
  obtain ⟨place, sent, listed, waits, riding, armed, one, fresh, alone, has, waiter, gone⟩ := good
  constructor <;> grind -ring -linarith [View.load, View.held, Tcb.waits]

theorem good_unlist (good : Good v) (at_ : v.cmd.stage = .refused) :
    Good { v with
      cmd := { v.cmd with stage := .store }
      waiting := v.waiting - 1
      cmdList := v.cmdList - 1
      retry := v.retry - 1 } := by
  obtain ⟨place, sent, listed, waits, riding, armed, one, fresh, alone, has, waiter, gone⟩ := good
  constructor <;> grind -ring -linarith [View.load, View.held, Tcb.waits]

theorem good_store (good : Good v) (at_ : v.cmd.stage = .store) :
    Good { v with cmd := { v.cmd with stage := .none }, cmdList := v.cmdList + 1 } := by
  obtain ⟨place, sent, listed, waits, riding, armed, one, fresh, alone, has, waiter, gone⟩ := good
  constructor <;> grind -ring -linarith [View.load, View.held, Tcb.waits]

theorem good_retrieve (good : Good v) (there : 0 < v.ring) :
    Good { v with ring := v.ring - 1, retrieved := v.retrieved + 1 } := by
  obtain ⟨place, sent, listed, waits, riding, armed, one, fresh, alone, has, waiter, gone⟩ := good
  constructor <;> grind -ring -linarith [View.load, View.held, Tcb.waits]

theorem good_mark (good : Good v) (there : 0 < v.retrieved) {c : Tcb}
    (marked : c = { v.cmd with txComplete := true }) :
    Good { v with cmd := if c.waits then c else c.finish, retrieved := v.retrieved - 1 } := by
  subst marked
  obtain ⟨place, sent, listed, waits, riding, armed, one, fresh, alone, has, waiter, gone⟩ := good
  split
  · constructor <;> grind -ring -linarith [View.load, View.held, Tcb.waits]
  · by_cases owned : v.cmd.doNotAutoFree = true
    · rw [Tcb.finish, if_pos owned]
      constructor <;> grind -ring -linarith [View.load, View.held, Tcb.complete, Tcb.waits]
    · rw [Tcb.finish, if_neg owned]
      constructor <;> grind -ring -linarith [View.load, View.held, Tcb.free, Tcb.waits]

theorem good_pull (good : Good v) (there : 0 < v.cmdList) :
    Good { v with cmd := { v.cmd with stage := .begin_ }, cmdList := v.cmdList - 1 } := by
  obtain ⟨place, sent, listed, waits, riding, armed, one, fresh, alone, has, waiter, gone⟩ := good
  constructor <;> grind -ring -linarith [View.load, View.held, Tcb.waits]

theorem good_resend (good : Good v) (there : 0 < v.retry) :
    Good { v with cmd := { v.cmd with stage := .begin_ }, retry := v.retry - 1 } := by
  obtain ⟨place, sent, listed, waits, riding, armed, one, fresh, alone, has, waiter, gone⟩ := good
  constructor <;> grind -ring -linarith [View.load, View.held, Tcb.waits]

theorem good_answer (good : Good v) (there : 0 < v.waiting)
    (asked : v.cmd.waitForResponse = true ∨ v.cmd.txComplete = true) {c : Tcb}
    (answered : c = { v.cmd with waitForResponse := false }) :
    Good { v with
      cmd := if c.txComplete then c.complete else c
      waiting := v.waiting - 1
      cmdList := v.cmdList - 1
      retry := v.retry - 1 } := by
  subst answered
  obtain ⟨place, sent, listed, waits, riding, armed, one, fresh, alone, has, waiter, gone⟩ := good
  split
  · constructor <;> grind -ring -linarith [View.load, View.held, Tcb.complete, Tcb.waits]
  · constructor <;> grind -ring -linarith [View.load, View.held, Tcb.waits]

theorem good_acked (good : Good v) (asked : v.cmd.waitForResponse = true) :
    Good { v with cmd := { v.cmd with waitForAck := false } } := by
  obtain ⟨place, sent, listed, waits, riding, armed, one, fresh, alone, has, waiter, gone⟩ := good
  constructor <;> grind -ring -linarith [View.load, View.held, Tcb.waits]

/-- A waiting command that the card has fetched is completed to its owner. -/
theorem good_given (good : Good v) (there : 0 < v.waiting) (done : v.cmd.txComplete = true)
    (retries : Nat) (late : Bool) :
    Good { v with
      cmd := { v.cmd.complete with retries, cmdTimeout := late }
      waiting := v.waiting - 1
      cmdList := v.cmdList - 1
      retry := v.retry - 1 } := by
  obtain ⟨place, sent, listed, waits, riding, armed, one, fresh, alone, has, waiter, gone⟩ := good
  constructor <;> grind -ring -linarith [View.load, View.held, Tcb.complete, Tcb.waits]

theorem good_retried (good : Good v) (there : 0 < v.waiting) (done : v.cmd.txComplete = true) (retries : Nat) :
    Good { v with
      cmd := { v.cmd with retries, txComplete := false }
      waiting := v.waiting - 1
      cmdList := v.cmdList - 1
      retry := v.retry - 1 + 1 } := by
  obtain ⟨place, sent, listed, waits, riding, armed, one, fresh, alone, has, waiter, gone⟩ := good
  constructor <;> grind -ring -linarith [View.load, View.held, Tcb.waits]

theorem good_reset (good : Good v) (retries : Nat) :
    Good { v with cmd := { v.cmd with retries } } := by
  obtain ⟨place, sent, listed, waits, riding, armed, one, fresh, alone, has, waiter, gone⟩ := good
  exact ⟨place, sent, listed, waits, riding, armed, one, fresh, alone, has, waiter, gone⟩

theorem good_woken (good : Good v) (at_ : v.cmd.owner = .waits) (done : 0 < v.cmd.done) :
    Good { v with cmd := { v.cmd with owner := .has, done := v.cmd.done - 1 } } := by
  obtain ⟨place, sent, listed, waits, riding, armed, one, fresh, alone, has, waiter, gone⟩ := good
  constructor <;> grind -ring -linarith [View.load, View.held, Tcb.waits]

theorem good_freed (good : Good v) (at_ : v.cmd.owner = .has) :
    Good { v with cmd := { v.cmd.free with owner := .gone } } := by
  obtain ⟨place, sent, listed, waits, riding, armed, one, fresh, alone, has, waiter, gone⟩ := good
  constructor <;> grind -ring -linarith [View.load, View.held, Tcb.free, Tcb.waits]

theorem good_cleaned (good : Good v) (there : 0 < v.ring) :
    Good { v with
      cmd := v.cmd.free
      waiting := v.waiting - 1
      cmdList := v.cmdList - 1
      retry := v.retry - 1
      ring := v.ring - 1 } := by
  obtain ⟨place, sent, listed, waits, riding, armed, one, fresh, alone, has, waiter, gone⟩ := good
  constructor <;> grind -ring -linarith [View.load, View.held, Tcb.free, Tcb.waits]

theorem good_dropped (good : Good v) (there : 0 < v.waiting ∧ v.load = 0 ∨ 0 < v.cmdList) :
    Good { v with
      cmd := v.cmd.free
      waiting := v.waiting - 1
      cmdList := v.cmdList - 1
      retry := v.retry - 1 } := by
  obtain ⟨place, sent, listed, waits, riding, armed, one, fresh, alone, has, waiter, gone⟩ := good
  constructor <;> grind -ring -linarith [View.load, View.held, Tcb.free, Tcb.waits]

/-- A command is freed once nothing holds it, unless its owner has it. -/
theorem view_lawful (good : Good v) : v.cmd.freed ≤ 1 ∧
    (v.cmd.created = true → (v.cmd.freed = 1 ↔ ¬ v.held = 1 ∧ ¬ WithOwner v.cmd)) ∧
    (WithOwner v.cmd → ¬ v.held = 1) := by
  obtain ⟨_, _, _, _, _, _, _, fresh, alone, has, waiter, gone⟩ := good
  simp only [WithOwner]
  cases owner : v.cmd.owner with
  | none =>
    cases new : v.cmd.created with
    | false => refine ⟨?_, ?_, ?_⟩ <;> grind -ring -linarith [View.held]
    | true => refine ⟨?_, ?_, ?_⟩ <;> grind -ring -linarith [View.held]
  | has => refine ⟨?_, ?_, ?_⟩ <;> grind -ring -linarith [View.held]
  | waits => refine ⟨?_, ?_, ?_⟩ <;> grind -ring -linarith [View.held]
  | gone => refine ⟨?_, ?_, ?_⟩ <;> grind -ring -linarith [View.held]

end View

section Steps
variable {K : Type} [DecidableEq K] {s s' : Card K} {k : K} {c : Tcb}

def view (s : Card K) (k : K) : View where
  cmd := s.cmd k
  waiting := s.waiting.count k
  cmdList := s.cmdList.count k
  retry := s.retry.count k
  ring := s.ring.count k
  retrieved := s.retrieved.count k

/-- Every command of the card is in order. -/
def AllGood (s : Card K) : Prop := ∀ k, Good (view s k)

theorem set_same : (setCmd s k c).cmd k = c := Function.update_self _ _ _

theorem set_other {other : K} (apart : other ≠ k) : (setCmd s k c).cmd other = s.cmd other :=
  Function.update_of_ne apart _ _

/-- A step that changes one command keeps the others as they are. -/
theorem good_changed (good : AllGood s) (k : K) {v : View} (kept : Good v)
    (here : view s' k = v) (others : ∀ other ≠ k, view s' other = view s other) : AllGood s' := by
  intro other
  by_cases same : other = k
  · rw [same, here]
    exact kept
  · rw [others other same]
    exact good other

/-- Only the flags of a command change. -/
theorem set_good (good : AllGood s) (kept : Good { view s k with cmd := c }) : AllGood (setCmd s k c) := by
  apply good_changed good k kept
  · rw [view, set_same]
    rfl
  · intro other apart
    rw [view, set_other apart]
    rfl

theorem deleted_others (other : K) (apart : other ≠ k) :
    view (setCmd (listDel s k) k c) other = view s other := by
  rw [view, set_other apart]
  simp only [setCmd, listDel, view]
  rw [count_erase, count_erase, count_erase, if_neg apart]
  rfl

/-- A command leaves the list it is on. -/
theorem deleted_good (good : AllGood s) (kept : Good { view s k with
      cmd := c
      waiting := (view s k).waiting - 1
      cmdList := (view s k).cmdList - 1
      retry := (view s k).retry - 1 }) : AllGood (setCmd (listDel s k) k c) := by
  apply good_changed good k kept
  · rw [view, set_same]
    simp only [setCmd, listDel, view]
    rw [count_erase, count_erase, count_erase, if_pos rfl]
  · exact deleted_others

theorem transmit_good (good : AllGood s) (at_ : (s.cmd k).stage = .begin_) : AllGood (transmitCmd s k) := by
  rw [transmitCmd]
  dsimp only
  split
  · exact deleted_good good (good_shut (good k) at_ _)
  · split
    case isTrue armed =>
      apply good_changed good k (good_listed (good k) at_ armed)
      · rw [view]
        simp only [setCmd, Function.update_self, count_push, view, ↓reduceIte]
      · intro other apart
        rw [view]
        simp only [setCmd, Function.update_of_ne apart, count_push, if_neg apart, Nat.add_zero]
        rfl
    case isFalse free => exact set_good good (good_unlisted (good k) at_ free)

theorem submit_good (good : AllGood s) (at_ : (s.cmd k).stage = .submit) : AllGood (submitCmd s k) := by
  rw [submitCmd]
  split
  · exact set_good good (good_refused (good k) at_)
  · apply good_changed good k (good_rung (good k) at_)
    · rw [view]
      simp only [setCmd, Function.update_self, count_push, view, ↓reduceIte]
    · intro other apart
      rw [view]
      simp only [setCmd, Function.update_of_ne apart, count_push, if_neg apart, Nat.add_zero]
      rfl

theorem mark_good (good : AllGood s) (there : k ∈ s.retrieved) : AllGood (markCmd s k) := by
  rw [markCmd]
  apply good_changed good k (good_mark (good k) (List.count_pos_iff.mpr there) rfl)
  · rw [view]
    simp only [setCmd, Function.update_self, count_erase, view, ↓reduceIte]
    rfl
  · intro other apart
    rw [view]
    simp only [setCmd, Function.update_of_ne apart, count_erase, if_neg apart, Nat.sub_zero]
    rfl

theorem response_good (good : AllGood s) (there : k ∈ s.waiting)
    (asked : (s.cmd k).waitForResponse = true ∨ (s.cmd k).txComplete = true) : AllGood (rxResponse s k) :=
  deleted_good good (good_answer (good k) (List.count_pos_iff.mpr there) asked rfl)

theorem watch_good (good : AllGood s) (there : k ∈ s.waiting)
    (sent : MAX_RETRIES ≤ (s.cmd k).retries → (s.cmd k).txComplete = true) : AllGood (watchCmd s k) := by
  have listed := List.count_pos_iff.mpr there
  rw [watchCmd]
  dsimp only
  split
  case isTrue over_ =>
    exact deleted_good good
      (good_given (good k) listed (sent (Nat.le_of_lt_succ over_)) ((s.cmd k).retries + 1) true)
  case isFalse =>
    split
    case isTrue done =>
      apply good_changed good k (good_retried (good k) listed done ((s.cmd k).retries + 1))
      · rw [view]
        simp only [setCmd, listDel, Function.update_self, count_push, count_erase, view, ↓reduceIte]
      · intro other apart
        rw [view]
        simp only [setCmd, listDel, Function.update_of_ne apart, count_push, count_erase, if_neg apart,
          Nat.add_zero, Nat.sub_zero]
        rfl
    case isFalse => exact set_good good (good_reset (good k) _)

/-- A waiting command has an owner to be completed to. -/
theorem finish_waiting (good : AllGood s) (there : 0 < (view s k).waiting) :
    (s.cmd k).finish = (s.cmd k).complete := by
  have owner := ((good k).waits there).1
  exact if_pos ((good k).waiter owner).1

theorem completed_good (good : AllGood s) (there : 0 < (view s k).waiting)
    (sent : (s.cmd k).txComplete = true) : AllGood (setCmd (listDel s k) k (s.cmd k).complete) :=
  deleted_good good (good_given (good k) there sent (s.cmd k).retries (s.cmd k).cmdTimeout)

/-- The walk over waiting commands that differ. -/
theorem ack_good {hit : Option K} {l : List K} (good : AllGood s) (once : l.Nodup)
    (there : ∀ p ∈ l, 0 < (view s p).waiting) (sent : AckedSent hit l s) : AllGood (rxAckLoop hit l s) := by
  induction l generalizing s with
  | nil => exact good
  | cons pos rest ih =>
    obtain ⟨apart, once'⟩ := List.nodup_cons.mp once
    have here := there pos List.mem_cons_self
    have others : ∀ p ∈ rest, 0 < (view s p).waiting := fun p member =>
      there p (List.mem_cons_of_mem pos member)
    rw [rxAckLoop]
    rw [AckedSent] at sent
    by_cases boot : (s.cmd pos).boot = true
    · rw [if_pos boot] at sent ⊢
      refine ih (completed_good good here sent.1) once' (fun p member => ?_) sent.2
      have other : p ≠ pos := ne_of_mem_of_not_mem member apart
      rw [deleted_others p other]
      exact others p member
    · rw [if_neg boot] at sent ⊢
      by_cases found : hit = some pos
      · rw [if_pos found] at sent ⊢
        by_cases asked : (s.cmd pos).waitForResponse = true
        · rw [if_pos asked]
          exact set_good good (good_acked (good pos) asked)
        · rw [if_neg asked, finish_waiting good here]
          exact completed_good good here (sent (Bool.eq_false_of_not_eq_true asked))
      · rw [if_neg found] at sent ⊢
        exact ih good once' others sent

theorem ring_cleaned {l : List K} (good : AllGood s) (all : s.ring = l) : AllGood (cleanRingLoop l s) := by
  induction l generalizing s with
  | nil => exact good
  | cons k rest ih =>
    have there : 0 < (view s k).ring := List.count_pos_iff.mpr (all ▸ List.mem_cons_self)
    refine ih (good_changed good k (good_cleaned (good k) there) ?_ ?_) rfl
    · rw [view]
      simp only [setCmd, listDel, Function.update_self, count_erase, view, ↓reduceIte, all,
        List.count_cons_self, Nat.add_sub_cancel]
    · intro other apart
      rw [view]
      simp only [setCmd, listDel, Function.update_of_ne apart, count_erase, view, if_neg apart, all,
        List.count_cons_of_ne (Ne.symm apart), Nat.sub_zero]

theorem lists_cleaned {l : List K} (good : AllGood s) (once : l.Nodup)
    (there : ∀ p ∈ l, 0 < (view s p).waiting ∧ (view s p).load = 0 ∨ 0 < (view s p).cmdList) :
    AllGood (cleanListLoop l s) := by
  induction l generalizing s with
  | nil => exact good
  | cons k rest ih =>
    obtain ⟨apart, once'⟩ := List.nodup_cons.mp once
    refine ih (deleted_good good (good_dropped (good k) (there k List.mem_cons_self))) once' ?_
    intro p member
    have other : p ≠ k := ne_of_mem_of_not_mem member apart
    rw [deleted_others p other]
    exact there p (List.mem_cons_of_mem k member)

theorem waiting_nodup (good : AllGood s) : s.waiting.Nodup :=
  List.nodup_iff_count_le_one.mpr fun k => (good k).listed

/-- The commands that wctc4xxp_cleanup_command_list frees differ. -/
theorem lists_nodup (good : AllGood s) : (s.waiting ++ s.cmdList).Nodup := by
  rw [List.nodup_append]
  refine ⟨waiting_nodup good, List.nodup_iff_count_le_one.mpr fun k => ?_, ?_⟩
  · have place := (good k).place
    rw [View.load] at place
    change (view s k).cmdList ≤ 1
    omega
  · rintro k waiting _ listed rfl
    have none : (view s k).cmdList = 0 := ((good k).waits (List.count_pos_iff.mpr waiting)).2.2.2.1
    exact List.count_eq_zero.mp none listed

end Steps

section Runs
variable {K : Type} [DecidableEq K] {s s' : Card K} {k : K} {l : Label K}

theorem start_good (start : (@card K _).start s) : AllGood s := by
  obtain ⟨blanks, waiting, cmdList, retry, ring, retrieved⟩ := start
  intro k
  rw [view, blanks k, waiting, cmdList, retry, ring, retrieved]
  exact good_blank

theorem retrieve_good {rest : List K} (good : AllGood s) (first : s.ring = k :: rest) :
    AllGood { s with ring := rest, retrieved := s.retrieved ++ [k] } := by
  have there : 0 < (view s k).ring := List.count_pos_iff.mpr (first ▸ List.mem_cons_self)
  apply good_changed good k (good_retrieve (good k) there)
  · simp only [view, first, count_push, List.count_cons_self, Nat.add_sub_cancel, ↓reduceIte]
  · intro other apart
    simp only [view, first, count_push, List.count_cons_of_ne (Ne.symm apart), if_neg apart, Nat.add_zero]

theorem pull_good {rest : List K} (good : AllGood s) (first : s.cmdList = k :: rest) (pulls : Nat) :
    AllGood { setCmd s k { s.cmd k with stage := .begin_ } with cmdList := rest, pulls } := by
  have there : 0 < (view s k).cmdList := List.count_pos_iff.mpr (first ▸ List.mem_cons_self)
  apply good_changed good k (good_pull (good k) there)
  · simp only [view, setCmd, Function.update_self, first, List.count_cons_self, Nat.add_sub_cancel]
  · intro other apart
    simp only [view, setCmd, Function.update_of_ne apart, first, List.count_cons_of_ne (Ne.symm apart)]

theorem resend_good {rest : List K} (good : AllGood s) (first : s.retry = k :: rest) :
    AllGood { setCmd s k { s.cmd k with stage := .begin_ } with retry := rest } := by
  have there : 0 < (view s k).retry := List.count_pos_iff.mpr (first ▸ List.mem_cons_self)
  apply good_changed good k (good_resend (good k) there)
  · simp only [view, setCmd, Function.update_self, first, List.count_cons_self, Nat.add_sub_cancel]
  · intro other apart
    simp only [view, setCmd, Function.update_of_ne apart, first, List.count_cons_of_ne (Ne.symm apart)]

theorem store_good (good : AllGood s) (at_ : (s.cmd k).stage = .store) :
    AllGood { setCmd s k { s.cmd k with stage := .none } with cmdList := s.cmdList ++ [k] } := by
  apply good_changed good k (good_store (good k) at_)
  · simp only [view, setCmd, Function.update_self, count_push, ↓reduceIte]
  · intro other apart
    simp only [view, setCmd, Function.update_of_ne apart, count_push, if_neg apart, Nat.add_zero]

theorem clean_good (good : AllGood s)
    (quiet : ∀ k ∈ s.waiting, k ∉ s.ring ∧ k ∉ s.retrieved ∧ (s.cmd k).stage = .none) :
    AllGood (cleanListLoop (s.waiting ++ s.cmdList) s) := by
  refine lists_cleaned good (lists_nodup good) (fun k member => ?_)
  rcases List.mem_append.mp member with waiting | listed
  · obtain ⟨ring, retrieved, stage⟩ := quiet k waiting
    have there : 0 < (view s k).waiting := List.count_pos_iff.mpr waiting
    obtain ⟨_, _, _, cmdList, retry, _⟩ := (good k).waits there
    have noRing : (view s k).ring = 0 := List.count_eq_zero.mpr ring
    have noRetrieved : (view s k).retrieved = 0 := List.count_eq_zero.mpr retrieved
    refine .inl ⟨there, ?_⟩
    rw [View.load, if_pos (show (view s k).cmd.stage = .none from stage), cmdList, retry, noRing, noRetrieved]
  · exact .inr (List.count_pos_iff.mpr listed)

theorem next_good (good : AllGood s) (orderly : Orderly s l) (moved : next s l = some s') : AllGood s' := by
  cases l with
  | packet k =>
    obtain ⟨new, moved⟩ := Option.ite_none_left_eq_some.mp moved
    rw [← Option.some.inj moved]
    exact set_good good (good_packet (good k) (Bool.eq_false_of_not_eq_true new))
  | alloc k =>
    obtain ⟨new, moved⟩ := Option.ite_none_left_eq_some.mp moved
    rw [← Option.some.inj moved]
    exact set_good good (good_allocated (good k) (Bool.eq_false_of_not_eq_true new))
  | send k wait boot =>
    obtain ⟨owned, moved⟩ := Option.ite_none_right_eq_some.mp moved
    rw [← Option.some.inj moved]
    exact set_good good (good_sent (good k) owned wait boot)
  | transmit k =>
    obtain ⟨at_, moved⟩ := Option.ite_none_right_eq_some.mp moved
    rw [← Option.some.inj moved]
    exact transmit_good good at_
  | submit k =>
    obtain ⟨at_, moved⟩ := Option.ite_none_right_eq_some.mp moved
    rw [← Option.some.inj moved]
    exact submit_good good at_
  | unlist k =>
    obtain ⟨at_, moved⟩ := Option.ite_none_right_eq_some.mp moved
    rw [← Option.some.inj moved]
    exact deleted_good good (good_unlist (good k) at_)
  | store k =>
    obtain ⟨at_, moved⟩ := Option.ite_none_right_eq_some.mp moved
    rw [← Option.some.inj moved]
    exact store_good good at_
  | retrieve =>
    rw [next] at moved
    split at moved
    case h_1 => cases moved
    case h_2 k rest first =>
      rw [← Option.some.inj moved]
      exact retrieve_good good first
  | mark k =>
    obtain ⟨there, moved⟩ := Option.ite_none_right_eq_some.mp moved
    rw [← Option.some.inj moved]
    exact mark_good good there
  | pull =>
    obtain ⟨_, moved⟩ := Option.ite_none_left_eq_some.mp moved
    split at moved
    case h_1 =>
      rw [← Option.some.inj moved]
      exact good
    case h_2 k rest first =>
      rw [← Option.some.inj moved]
      exact pull_good good first _
  | response k =>
    obtain ⟨there, moved⟩ := Option.ite_none_right_eq_some.mp moved
    rw [← Option.some.inj moved]
    exact response_good good there orderly
  | ack hit =>
    rw [← Option.some.inj moved]
    exact ack_good good (waiting_nodup good) (fun p member => List.count_pos_iff.mpr member) orderly
  | watch k =>
    obtain ⟨there, moved⟩ := Option.ite_none_right_eq_some.mp moved
    rw [← Option.some.inj moved]
    exact watch_good good there orderly
  | resend =>
    rw [next] at moved
    split at moved
    case h_1 => cases moved
    case h_2 k rest first =>
      rw [← Option.some.inj moved]
      exact resend_good good first
  | wake k =>
    obtain ⟨woken, moved⟩ := Option.ite_none_right_eq_some.mp moved
    rw [← Option.some.inj moved]
    exact set_good good (good_woken (good k) woken.1 woken.2)
  | free k =>
    obtain ⟨owned, moved⟩ := Option.ite_none_right_eq_some.mp moved
    rw [← Option.some.inj moved]
    exact set_good good (good_freed (good k) owned)
  | halt =>
    rw [← Option.some.inj moved]
    exact good
  | cleanRing =>
    rw [← Option.some.inj moved]
    exact ring_cleaned good rfl
  | cleanLists =>
    rw [← Option.some.inj moved]
    exact clean_good good orderly

/-- A command is held where something refers to it. -/
theorem referred_held (s : Card K) (k : K) : Referred s k ↔ (view s k).held = 1 := by
  have ring : k ∈ s.ring ↔ 0 < (view s k).ring := List.count_pos_iff.symm
  have retrieved : k ∈ s.retrieved ↔ 0 < (view s k).retrieved := List.count_pos_iff.symm
  have waiting : k ∈ s.waiting ↔ 0 < (view s k).waiting := List.count_pos_iff.symm
  have cmdList : k ∈ s.cmdList ↔ 0 < (view s k).cmdList := List.count_pos_iff.symm
  have retry : k ∈ s.retry ↔ 0 < (view s k).retry := List.count_pos_iff.symm
  have stage : (s.cmd k).stage = .none ↔ (view s k).cmd.stage = .none := Iff.rfl
  rw [Referred, ring, retrieved, waiting, cmdList, retry, Ne, stage, View.held, View.load]
  by_cases still : (view s k).cmd.stage = .none
  · rw [if_pos still, eq_true still, not_true_eq_false, or_false]
    split <;> omega
  · rw [if_neg still, eq_false still, not_false_eq_true]
    simp only [or_true, true_iff]
    rw [if_neg (by omega)]

theorem good_lawful (good : AllGood s) : Lawful s := by
  refine ⟨fun k => (view_lawful (good k)).1, fun k => ?_, fun k => ?_⟩
  · rw [referred_held]
    exact (view_lawful (good k)).2.1
  · rw [referred_held]
    exact (view_lawful (good k)).2.2

/-- Every command is freed once, when nothing refers to it and its owner does not have it; and what
    is completed to its owner is on no list and not on the ring. -/
theorem commands_lawful (reached : Reach card Orderly s) : Lawful s := by
  apply good_lawful
  apply @invariant_run _ _ card Orderly AllGood _ _ s reached
  · intro s start
    exact start_good start
  · intro s l s' good orderly moved
    exact next_good good orderly moved

end Runs

section Examples
variable {K : Type} [DecidableEq K]

instance acked_decidable (hit : Option K) (l : List K) (s : Card K) : Decidable (AckedSent hit l s) :=
  match l with
  | [] => isTrue trivial
  | pos :: rest =>
    have := acked_decidable hit rest (setCmd (listDel s pos) pos (s.cmd pos).complete)
    have := acked_decidable hit rest s
    inferInstanceAs (Decidable (if (s.cmd pos).boot = true then _ ∧ _
      else if hit = some pos then (s.cmd pos).waitForResponse = false → _ else _))

instance (s : Card K) (l : Label K) : Decidable (Orderly s l) :=
  match l with
  | .response k => inferInstanceAs (Decidable ((s.cmd k).waitForResponse = true ∨ (s.cmd k).txComplete = true))
  | .ack hit => acked_decidable hit s.waiting s
  | .watch k => inferInstanceAs (Decidable (MAX_RETRIES ≤ (s.cmd k).retries → (s.cmd k).txComplete = true))
  | .cleanLists => inferInstanceAs (Decidable (∀ k ∈ s.waiting, k ∉ s.ring ∧ k ∉ s.retrieved ∧ (s.cmd k).stage = .none))
  | .packet _ | .alloc _ | .send _ _ _ | .transmit _ | .submit _ | .unlist _ | .store _ | .retrieve | .mark _
  | .pull | .resend | .wake _ | .free _ | .halt | .cleanRing => isTrue trivial

def idle : Card Bool := ⟨fun _ => blank, [], [], [], [], [], 0, false⟩

theorem idle_start : (@card Bool _).start idle := ⟨fun _ => rfl, rfl, rfl, rfl, rfl, rfl⟩

/-- A packet and a command that is answered, and the clean-up. -/
theorem commands_lawful_two : ∃ s : Card Bool, Reach card Orderly s ∧ (s.cmd false).freed = 1 ∧
    (s.cmd true).freed = 1 ∧ Lawful s := by
  obtain ⟨s, followed, seen⟩ := Option.map_eq_some_iff.mp
    (by decide +kernel : (follow next Orderly
      [.packet false, .transmit false, .submit false, .alloc true, .send true .response false, .transmit true,
        .submit true, .retrieve, .mark false, .pull, .retrieve, .mark true, .response true, .wake true,
        .free true, .cleanRing, .cleanLists] idle).map (fun s => ((s.cmd false).freed, (s.cmd true).freed)) =
      some (1, 1))
  have reached := @follow_reach _ _ card _ _ _ (fun _ _ _ moved => moved) _ _ _ (.start idle_start) followed
  obtain ⟨packet, owned⟩ := Prod.mk.inj seen
  exact ⟨s, reached, packet, owned, commands_lawful reached⟩

/-- The card fetches nothing any more: the watchdog gives up a command that is still on the ring,
    its owner frees it, and the clean-up of the ring frees it again. -/
theorem command_freed_twice : ¬ ∀ s : Card Bool, Reach card anyStep s → Lawful s := by
  intro always
  obtain ⟨s, followed, seen⟩ := Option.map_eq_some_iff.mp
    (by decide +kernel : (follow next anyStep
      [.alloc true, .send true .response false, .transmit true, .submit true, .watch true, .watch true,
        .watch true, .watch true, .watch true, .watch true, .wake true, .free true, .cleanRing] idle).map
        (fun s => (s.cmd true).freed) = some 2)
  have reached := @follow_reach _ _ card _ _ _ (fun _ _ _ moved => moved) _ _ _ (.start idle_start) followed
  have once := (always s reached).once true
  omega

end Examples

end Wctc4xxpLife
