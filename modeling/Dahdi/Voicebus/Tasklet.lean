import Dahdi.Library.CyclicSlots
import Dahdi.Library.GuardedRun

/-!
The VoiceBus interface in NORMAL mode: the descriptor rings, vb_tasklet_normal taken
step by step so that the hardware may move between any two, and the restart after a
hard underrun.
-/
namespace Voicebus
open GuardedRun

def DRING_SIZE : Nat := 128
def VOICEBUS_MAXLATENCY_BUMP : BitVec 32 := 6
def DEFAULT_COUNT : Nat := 5

/-- A pointer to a buffer: NULL, the idle buffer, or one that dma_pool_alloc returned,
    numbered in the order of the allocations. -/
inductive Buffer where
  | null
  | idle
  | vbb (number : Nat)
  deriving DecidableEq, Repr

/-- struct voicebus_descriptor_list: buffer1 and OWN_BIT of each descriptor, whether
    des0 shows a whole frame, and the pending pointers. -/
structure DescriptorList where
  buffer1 : Nat → Buffer
  pending : Nat → Buffer
  own : Nat → Bool
  whole : Nat → Bool
  head : Nat
  tail : Nat
  count : Int

def next (index : Nat) : Nat := (index + 1) % DRING_SIZE

/-- Where vb_tasklet_normal stands; `soft` is `behind` when softunderrun is set, and
    `increase` what vb_increase_latency still has to allocate and what it began with. -/
inductive Pc where
  | off
  | complete
  | check
  | catchUp (behind : Nat)
  | gather (soft : Option Nat) (count : Nat)
  | increase (left whole : BitVec 32)
  | catchUpAgain
  | skip (left : Nat)
  | tailCheck
  | send
  | receive (count : Nat)
  | resubmit
  | errorExit
  deriving DecidableEq, Repr

/-- struct voicebus with the tasklet's local lists, `grown` being the one of
    vb_increase_latency. `txAt` and `rxAt` are where the hardware stands; `allocated`
    counts the buffers dma_pool_alloc has returned and `freed` lists those given back. -/
structure Vb where
  txd : DescriptorList
  rxd : DescriptorList
  txComplete : List Buffer
  freeRx : List Buffer
  minTxBufferCount : BitVec 32
  maxLatency : BitVec 32
  latencyLocked : Bool
  pc : Pc
  buffers : List Buffer
  grown : List Buffer
  txAt : Nat
  rxAt : Nat
  allocated : Nat
  freed : List Buffer

section Rings

/-- vb_get_completed_txb: NULL or the buffer. -/
def getCompletedTxb (dl : DescriptorList) : Buffer × DescriptorList :=
  if dl.own dl.head = true ∨ dl.buffer1 dl.head = .null ∨ dl.buffer1 dl.head = .idle then (.null, dl)
  else
    (dl.pending dl.head,
      { dl with
        buffer1 := Function.update dl.buffer1 dl.head .idle
        pending := Function.update dl.pending dl.head .idle
        own := Function.update dl.own dl.head true
        head := next dl.head
        count := dl.count - 1 })

/-- vb_get_completed_rxb. -/
def getCompletedRxb (dl : DescriptorList) : Buffer × DescriptorList :=
  if dl.buffer1 dl.head = .null ∨ dl.own dl.head = true then (.null, dl)
  else
    (dl.pending dl.head,
      { dl with
        buffer1 := Function.update dl.buffer1 dl.head .null
        head := next dl.head
        count := dl.count - 1 })

/-- The end of vb_submit_rxb and of __voicebus_transmit. -/
def queue (dl : DescriptorList) (vbb : Buffer) : DescriptorList :=
  { dl with
    buffer1 := Function.update dl.buffer1 dl.tail vbb
    pending := Function.update dl.pending dl.tail vbb
    own := Function.update dl.own dl.tail true
    tail := next dl.tail
    count := dl.count + 1 }

/-- vb_submit_rxb -/
def submitRxb (vb : Vb) (vbb : Buffer) : Vb :=
  if vb.rxd.buffer1 vb.rxd.tail ≠ .null then { vb with freeRx := vb.freeRx ++ [vbb] }
  else { vb with rxd := queue vb.rxd vbb }

/-- __voicebus_transmit -/
def transmit (vb : Vb) (vbb : Buffer) : Vb :=
  if vb.txd.buffer1 vb.txd.tail ≠ .idle ∧ vb.txd.buffer1 vb.txd.tail ≠ .null then
    { vb with freed := vb.freed ++ [vbb] }
  else { vb with txd := queue vb.txd vbb }

/-- The idle buffer into the slot under the head, and the head one further. -/
def skipSlot (dl : DescriptorList) : DescriptorList :=
  { dl with
    buffer1 := Function.update dl.buffer1 dl.head .idle
    pending := Function.update dl.pending dl.head .idle
    own := Function.update dl.own dl.head true
    head := next dl.head }

/-- An idle slot the hardware has passed is handed to it again. -/
def reown (dl : DescriptorList) : DescriptorList :=
  { dl with own := Function.update dl.own dl.head true, head := next dl.head }

end Rings

section Restart

/-- vb_cleanup_tx_descriptors in NORMAL mode. -/
def cleanupTx (vb : Vb) : Vb :=
  let held := (List.range DRING_SIZE).filter fun i =>
    decide (vb.txd.buffer1 i ≠ .null ∧ vb.txd.buffer1 i ≠ .idle)
  { vb with
    freed := vb.freed ++ vb.txComplete ++ held.map vb.txd.pending
    txComplete := []
    txd :=
      { buffer1 := fun i => if i < DRING_SIZE then .idle else vb.txd.buffer1 i
        pending := fun i => if i < DRING_SIZE then .idle else vb.txd.pending i
        own := fun i => if i < DRING_SIZE then true else vb.txd.own i
        whole := vb.txd.whole
        head := 0
        tail := 0
        count := 0 } }

/-- vb_cleanup_rx_descriptors -/
def cleanupRx (vb : Vb) : Vb :=
  let held := (List.range DRING_SIZE).filter fun i => decide (vb.rxd.buffer1 i ≠ .null)
  { vb with
    freeRx := vb.freeRx ++ held.map vb.rxd.pending
    rxd :=
      { buffer1 := fun i => if i < DRING_SIZE then .null else vb.rxd.buffer1 i
        pending := fun i =>
          if i < DRING_SIZE ∧ vb.rxd.buffer1 i ≠ .null then .null else vb.rxd.pending i
        own := fun i => if i < DRING_SIZE then false else vb.rxd.own i
        whole := vb.rxd.whole
        head := 0
        tail := 0
        count := 0 } }

/-- dma_pool_alloc, when it succeeds. -/
def alloc (vb : Vb) : Buffer × Vb := (.vbb vb.allocated, { vb with allocated := vb.allocated + 1 })

/-- Buffers to receive into, those of free_rx first. -/
def collectRx : Nat → Vb → List Buffer × Vb
  | 0, vb => ([], vb)
  | left + 1, vb =>
    match vb.freeRx with
    | [] =>
      let (vbb, vb) := alloc vb
      let (rest, vb) := collectRx left vb
      (vbb :: rest, vb)
    | vbb :: freeRx =>
      let (rest, vb) := collectRx left { vb with freeRx := freeRx }
      (vbb :: rest, vb)

def collectTx : Nat → Vb → List Buffer × Vb
  | 0, vb => ([], vb)
  | left + 1, vb =>
    let (vbb, vb) := alloc vb
    let (rest, vb) := collectTx left vb
    (vbb :: rest, vb)

/-- setup_descriptors -/
def setupDescriptors (vb : Vb) : Vb :=
  let (buffers, vb) := collectRx DRING_SIZE (cleanupRx (cleanupTx vb))
  let (ready, vb) := collectTx vb.minTxBufferCount.toNat (buffers.foldl submitRxb vb)
  ready.foldl transmit vb

/-- handle_hardunderrun, whenever its work comes to run: the hardware is stopped, no
    tasklet runs, and the hardware is told where the rings begin. -/
def restart (vb : Vb) : Vb :=
  { setupDescriptors vb with txAt := 0, rxAt := 0 }

end Restart

/-- The first lines of vb_increase_latency. -/
def increaseOf (vb : Vb) (behind : Nat) : BitVec 32 :=
  if BitVec.ofNat 32 behind = 0 ∨ vb.latencyLocked = true then 0
  else
    let increase := BitVec.ofNat 32 behind
    let increase := if VOICEBUS_MAXLATENCY_BUMP < increase then VOICEBUS_MAXLATENCY_BUMP else increase
    if vb.maxLatency < increase + vb.minTxBufferCount then vb.maxLatency - vb.minTxBufferCount
    else increase

/-- One turn of vb_tasklet_normal; `granted` says whether dma_pool_alloc succeeds. The
    clients' handle_transmit and handle_receive only fill and read the buffers. -/
def taskletStep (granted : Bool) (vb : Vb) : Vb :=
  match vb.pc with
  | .off => vb
  | .complete =>
    let (vbb, txd) := getCompletedTxb vb.txd
    if vbb = .null then { vb with txd := txd, pc := .check }
    else { vb with txd := txd, txComplete := vb.txComplete ++ [vbb] }
  | .check =>
    if vb.txd.count < 2 then
      if vb.txd.count = 1 then { vb with pc := .off } else { vb with pc := .catchUp 2 }
    else { vb with pc := .gather none DEFAULT_COUNT }
  | .catchUp behind =>
    if vb.txd.own vb.txd.head = true then { vb with pc := .gather (some behind) DEFAULT_COUNT }
    else if vb.txd.buffer1 vb.txd.head ≠ .idle then { vb with pc := .errorExit }
    else { vb with txd := reown vb.txd, pc := .catchUp (behind + 1) }
  | .gather soft count =>
    match decide (count - 1 ≠ 0), vb.txComplete with
    | true, vbb :: rest =>
      { vb with buffers := vb.buffers ++ [vbb], txComplete := rest, pc := .gather soft (count - 1) }
    | _, _ =>
      match soft with
      | none => { vb with pc := .tailCheck }
      | some behind => { vb with pc := .increase (increaseOf vb behind) (increaseOf vb behind) }
  | .increase left whole =>
    if left = 0 then
      { vb with
        buffers := vb.buffers ++ vb.grown
        grown := []
        minTxBufferCount := vb.minTxBufferCount + whole
        pc := .catchUpAgain }
    else if granted then
      let (vbb, vb) := alloc vb
      { vb with grown := vb.grown ++ [vbb], pc := .increase (left - 1) whole }
    else { vb with pc := .increase (left - 1) whole }
  | .catchUpAgain =>
    if vb.txd.own vb.txd.head = true then { vb with pc := .skip 5 }
    else if vb.txd.buffer1 vb.txd.head ≠ .idle then { vb with pc := .errorExit }
    else { vb with txd := reown vb.txd }
  | .skip 0 => { vb with txd := { vb.txd with tail := vb.txd.head }, pc := .tailCheck }
  | .skip (left + 1) => { vb with txd := skipSlot vb.txd, pc := .skip left }
  | .tailCheck =>
    if vb.txd.buffer1 vb.txd.tail ≠ .idle then { vb with pc := .errorExit }
    else { vb with pc := .send }
  | .send =>
    match vb.buffers with
    | [] => { vb with pc := .receive DEFAULT_COUNT }
    | vbb :: rest => transmit { vb with buffers := rest } vbb
  | .receive count =>
    if count - 1 = 0 then { vb with pc := .resubmit }
    else
      let whole := vb.rxd.whole vb.rxd.head
      let (vbb, rxd) := getCompletedRxb vb.rxd
      if vbb = .null then { vb with rxd := rxd, pc := .resubmit }
      else if whole then { vb with rxd := rxd, buffers := vb.buffers ++ [vbb], pc := .receive (count - 1) }
      else submitRxb { vb with rxd := rxd, pc := .receive (count - 1) } vbb
  | .resubmit =>
    match vb.buffers with
    | [] => { vb with pc := .off }
    | vbb :: rest => submitRxb { vb with buffers := rest } vbb
  | .errorExit =>
    match vb.buffers with
    | [] => { vb with pc := .off }
    | vbb :: rest => { vb with buffers := rest, freed := vb.freed ++ [vbb] }

inductive Event where
  | hwTransmit
  | hwReceive (whole : Bool)
  | tasklet
  | step (granted : Bool)
  | restart
  | settings (minTxBufferCount maxLatency : BitVec 32) (locked : Bool)

/-- The hardware is done with the descriptor it stands at. -/
def hwTransmit (vb : Vb) : Vb :=
  if vb.txd.own vb.txAt = true then
    { vb with
      txd := { vb.txd with own := Function.update vb.txd.own vb.txAt false }
      txAt := next vb.txAt }
  else vb

def hwReceive (vb : Vb) (whole : Bool) : Vb :=
  if vb.rxd.own vb.rxAt = true then
    { vb with
      rxd := { vb.rxd with
        own := Function.update vb.rxd.own vb.rxAt false
        whole := Function.update vb.rxd.whole vb.rxAt whole }
      rxAt := next vb.rxAt }
  else vb

/-- A tasklet begins, and a restart happens, only while no tasklet runs. -/
def apply (vb : Vb) : Event → Option Vb
  | .hwTransmit => some (hwTransmit vb)
  | .hwReceive whole => some (hwReceive vb whole)
  | .tasklet => if vb.pc = .off then some { vb with pc := .complete } else none
  | .step granted => if vb.pc = .off then none else some (taskletStep granted vb)
  | .restart => if vb.pc = .off then some (restart vb) else none
  | .settings minTxBufferCount maxLatency locked =>
    some { vb with minTxBufferCount := minTxBufferCount, maxLatency := maxLatency, latencyLocked := locked }

/-- A list of descriptors as vb_initialize_descriptors leaves it. -/
def noDescriptors : DescriptorList where
  buffer1 _ := .null
  pending _ := .null
  own _ := false
  whole _ := false
  head := 0
  tail := 0
  count := 0

/-- The interface before its first start. -/
def unstarted (minTxBufferCount maxLatency : BitVec 32) (locked : Bool) : Vb where
  txd := noDescriptors
  rxd := noDescriptors
  txComplete := []
  freeRx := []
  minTxBufferCount := minTxBufferCount
  maxLatency := maxLatency
  latencyLocked := locked
  pc := .off
  buffers := []
  grown := []
  txAt := 0
  rxAt := 0
  allocated := 0
  freed := []

/-- voicebus_start sets the descriptors up. -/
def busSystem : System Vb Event where
  start vb := ∃ minTx maxLatency locked, vb = setupDescriptors (unstarted minTx maxLatency locked)
  step vb e vb' := apply vb e = some vb'

end Voicebus
