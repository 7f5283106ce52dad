import Dahdi.Dynamic.RoundTrip
import Dahdi.Dynamic.DspanList
import Dahdi.Dynamic.LocalSpans

/-!
The creation of a dynamic span: _create_dynamic of dahdi_dynamic.c through the three
drivers that carry its messages, what a creation that fails leaves behind, and what room
a created span has for its messages and the names of its channels.
-/
namespace DynamicCreation
open DspanList (Dyn findDynamic listAdd)
open Dynamic (Octet chunksize)

section Drivers

/-- struct ztdeth of dahdi_dynamic_ethmf.c, as far as its creation goes. -/
structure EthmfSpan where
  addr : List Octet
  subaddr : List Octet
  span : Nat
  ethdev : List Char
  dev : Nat
  deriving DecidableEq

/-- What sscanf reads from an address of ethmf. -/
structure Scanned where
  ethdev : List Char
  addr : List Octet
  subaddr : BitVec 16

/-- The drivers in the tree. -/
inductive Driver where
  | eth
  | ethmf
  | loc
  deriving DecidableEq

def Driver.name : Driver → List Char
  | eth => ['e', 't', 'h']
  | ethmf => ['e', 't', 'h', 'm', 'f']
  | loc => ['l', 'o', 'c']

/-- Everything the kernel has a say in: memory, the drivers that are registered and those
    once a module was asked for, devices, sscanf, the registration of the span. -/
structure Env where
  dynMem : Option Nat
  chanMem : Nat → Bool
  bufMem : Bool
  drivers : List Driver
  loaded : List Driver
  owner : Bool
  zMem : Bool
  locMem : Option Nat
  devGetByName : List Char → Option Nat
  stale : Option (List Char)
  sscanf : List Char → Option Scanned
  registers : Bool
  spanno : Nat

/-- The channels and the buffer of a new span. -/
structure Made where
  channels : Nat
  bufsize : Nat
  names : List (List Char)
  deriving DecidableEq

/-- The structures that are allocated, dspan_list, and the lists of the drivers. -/
structure World where
  structs : Nat → Option Made
  dspans : DspanList.State
  zdevs : List EthAddress.Ztdeth
  ethmf : List EthmfSpan
  loc : List LocalSpans.Local

def EINVAL : Int := 22
def ENOMEM : Int := 12
def EEXIST : Int := 17
def ENODEV : Int := 19

/-- ztdethmf_create -/
def ztdethmfCreate (env : Env) (span : Nat) (addr : List Char) (list : List EthmfSpan) :
    Int × List EthmfSpan :=
  if !env.zMem then (-ENOMEM, list)
  else
    let src := (addr.take 255).map fun c => if c = '/' then ' ' else c
    match env.sscanf src with
    | none => (-EINVAL, list)
    | some z =>
      match env.devGetByName z.ethdev with
      | none => (-EINVAL, list)
      | some dev => (0, ⟨z.addr, Dynamic.htons z.subaddr, span, z.ethdev, dev⟩ :: list)

/-- dtd->create -/
def driverCreate (env : Env) (dtd : Driver) (ref : Nat) (addr : List Char) (w : World) : Int × World :=
  match dtd with
  | .eth =>
    let done := EthAddress.ztdethCreate env.zMem env.stale env.devGetByName ref addr w.zdevs
    (done.1, { w with zdevs := done.2 })
  | .ethmf =>
    let done := ztdethmfCreate env ref addr w.ethmf
    (done.1, { w with ethmf := done.2 })
  | .loc =>
    let done := LocalSpans.localCreate env.locMem ref addr w.loc
    (done.1, { w with loc := done.2 })

end Drivers

section Creation

/-- struct dahdi_dynamic_span, driver and addr being the strings found there. -/
structure Request where
  driver : List Char
  addr : List Char
  numchans : Int
  timing : Int

/-- ARRAY_SIZE(d->chans) -/
def maxChans : Int := 256

def decimal (n : Nat) : List Char := (Nat.digits 10 n).reverse.map Nat.digitChar

/-- "DYN/%s/%s/%d" -/
def chanName (dds : Request) (x : Nat) : List Char :=
  ['D', 'Y', 'N', '/'] ++ dds.driver ++ ['/'] ++ dds.addr ++ ['/'] ++ decimal (x + 1)

def made (dds : Request) : Made :=
  let numchans := dds.numchans.toNat
  ⟨numchans, numchans * chunksize + numchans / 4 + 48, (List.range numchans).map (chanName dds)⟩

def dynOf (dds : Request) (dtd : Driver) (ref : Nat) : Dyn :=
  ⟨ref, dds.driver.take 19, dds.addr.take 39, dtd.ctorIdx, dds.timing, false, 0, 1, true⟩

/-- find_driver, once more after the module was asked for. -/
def findDriver (env : Env) (name : List Char) : Option Driver :=
  match env.drivers.find? fun dtd => dtd.name = name with
  | some dtd => some dtd
  | none => env.loaded.find? fun dtd => dtd.name = name

def allocate (w : World) (ref : Nat) (m : Made) : World := { w with structs := Function.update w.structs ref (some m) }

/-- dynamic_put of the last reference -/
def dynamicPut (w : World) (ref : Nat) : World := { w with structs := Function.update w.structs ref none }

/-- _create_dynamic from the registration on -/
def registerSpan (env : Env) (dds : Request) (dtd : Driver) (ref : Nat) (w : World) : Int × World :=
  if !env.registers then (-EINVAL, dynamicPut w ref)
  else (env.spanno, { w with dspans := listAdd (dynOf dds dtd ref) w.dspans })

/-- _create_dynamic from the search for the driver on -/
def attachDriver (env : Env) (dds : Request) (ref : Nat) (w : World) : Int × World :=
  match findDriver env dds.driver with
  | none => (-EINVAL, dynamicPut w ref)
  | some dtd =>
    if !env.owner then (-ENODEV, dynamicPut w ref)
    else
      let done := driverCreate env dtd ref (dds.addr.take 39) w
      if done.1 ≠ 0 then (done.1, dynamicPut done.2 ref)
      else registerSpan env dds dtd ref done.2

/-- _create_dynamic -/
def createDynamic (env : Env) (dds : Request) (w : World) : Int × World :=
  if dds.numchans < 1 then (-EINVAL, w)
  else if dds.numchans ≥ maxChans then (-EINVAL, w)
  else
    match findDynamic dds.driver dds.addr w.dspans with
    | some _ => (-EEXIST, w)
    | none =>
      match env.dynMem with
      | none => (-ENOMEM, w)
      | some ref =>
        let w := allocate w ref (made dds)
        if !(List.range dds.numchans.toNat).all env.chanMem then (-ENOMEM, dynamicPut w ref)
        else if !env.bufMem then (-ENOMEM, dynamicPut w ref)
        else attachDriver env dds ref w

end Creation

section Failure

/-- What kzalloc gives is in use nowhere. -/
structure Unused (env : Env) (w : World) : Prop where
  dyn : ∀ ref, env.dynMem = some ref → w.structs ref = none
  loc : ∀ ptr, env.locMem = some ptr → ∀ l ∈ w.loc, l.peer ≠ some ptr ∧ l.monitorRxPeer ≠ some ptr

/-- The entries of the drivers refer to spans that are there. -/
structure Sound (w : World) : Prop where
  zdevs : ∀ z ∈ w.zdevs, w.structs z.span ≠ none
  ethmf : ∀ z ∈ w.ethmf, w.structs z.span ≠ none
  loc : ∀ l ∈ w.loc, w.structs l.span ≠ none

/-- The lists are as they were. -/
structure Untouched (w w' : World) : Prop where
  dspans : w'.dspans = w.dspans
  zdevs : w'.zdevs = w.zdevs
  ethmf : w'.ethmf = w.ethmf
  loc : w'.loc = w.loc

/-- A creation that fails leaves nothing behind. -/
def LeavesNothing (env : Env) (dds : Request) (w : World) : Prop :=
  (createDynamic env dds w).1 < 0 →
    Untouched w (createDynamic env dds w).2 ∧ (Sound w → Sound (createDynamic env dds w).2)

theorem eth_cases (mem : Bool) (stale : Option (List Char)) (find : List Char → Option Nat) (span : Nat)
    (addr : List Char) (zdevs : List EthAddress.Ztdeth) :
    ((EthAddress.ztdethCreate mem stale find span addr zdevs).1 < 0 ∧
      (EthAddress.ztdethCreate mem stale find span addr zdevs).2 = zdevs) ∨
    ((EthAddress.ztdethCreate mem stale find span addr zdevs).1 = 0 ∧
      ∃ z, (EthAddress.ztdethCreate mem stale find span addr zdevs).2 = z :: zdevs) := by
  have refused : -EthAddress.EINVAL < 0 := by decide
  have full : -EthAddress.ENOMEM < 0 := by decide
  unfold EthAddress.ztdethCreate
  split
  next => exact .inl ⟨full, rfl⟩
  next =>
    dsimp only
    split
    next => exact .inl ⟨refused, rfl⟩
    next =>
      split
      next => exact .inl ⟨refused, rfl⟩
      next =>
        split
        next => exact .inl ⟨refused, rfl⟩
        next =>
          split
          next => exact .inl ⟨refused, rfl⟩
          next => exact .inr ⟨rfl, _, rfl⟩

theorem ethmf_cases (env : Env) (span : Nat) (addr : List Char) (list : List EthmfSpan) :
    ((ztdethmfCreate env span addr list).1 < 0 ∧ (ztdethmfCreate env span addr list).2 = list) ∨
    ((ztdethmfCreate env span addr list).1 = 0 ∧ ∃ z, (ztdethmfCreate env span addr list).2 = z :: list) := by
  have refused : -EINVAL < 0 := by decide
  have full : -ENOMEM < 0 := by decide
  unfold ztdethmfCreate
  split
  next => exact .inl ⟨full, rfl⟩
  next =>
    dsimp only
    split
    next => exact .inl ⟨refused, rfl⟩
    next =>
      split
      next => exact .inl ⟨refused, rfl⟩
      next => exact .inr ⟨rfl, _, rfl⟩

theorem loc_cases {mem : Option Nat} {list : List LocalSpans.Local} (span : Nat) (addr : List Char)
    (unused : ∀ ptr, mem = some ptr → ∀ l ∈ list, l.peer ≠ some ptr ∧ l.monitorRxPeer ≠ some ptr) :
    ((LocalSpans.localCreate mem span addr list).1 < 0 ∧ (LocalSpans.localCreate mem span addr list).2 = list) ∨
    ((LocalSpans.localCreate mem span addr list).1 = 0 ∧
      (LocalSpans.localCreate mem span addr list).2.length = list.length + 1) := by
  have refused : -EthAddress.EINVAL < 0 := by decide
  have full : -EthAddress.ENOMEM < 0 := by decide
  unfold LocalSpans.localCreate
  split
  next => exact .inl ⟨refused, rfl⟩
  next a _ =>
    cases mem with
    | none => exact .inl ⟨full, rfl⟩
    | some ptr =>
      dsimp only
      rcases LocalSpans.link_all (LocalSpans.fresh ptr span a) list with ⟨done, both, _⟩ | ⟨stops, _, back⟩
      · rw [if_pos done, both]
        right
        exact ⟨rfl, by rw [List.length_cons, List.length_map]⟩
      · rw [if_neg (by rw [stops]; exact Bool.false_ne_true)]
        exact .inl ⟨refused, back (unused ptr rfl)⟩

/-- A driver that refuses leaves its list as it was, and one that accepts does not. -/
theorem driver_cases {env : Env} {w : World} (unused : Unused env w) (dtd : Driver) (ref : Nat)
    (addr : List Char) :
    ((driverCreate env dtd ref addr w).1 < 0 ∧ (driverCreate env dtd ref addr w).2 = w) ∨
    ((driverCreate env dtd ref addr w).1 = 0 ∧ ¬ Untouched w (driverCreate env dtd ref addr w).2 ∧
      (driverCreate env dtd ref addr w).2.structs = w.structs) := by
  have longer {α : Type} {z : α} {list : List α} (same : z :: list = list) : False := by
    have := congrArg List.length same
    rw [List.length_cons] at this
    omega
  cases dtd with
  | eth =>
    unfold driverCreate
    dsimp only
    rcases eth_cases env.zMem env.stale env.devGetByName ref addr w.zdevs with ⟨fails, same⟩ | ⟨done, z, new⟩
    · exact .inl ⟨fails, by rw [same]⟩
    · refine .inr ⟨done, fun untouched => longer (new.symm.trans untouched.zdevs), rfl⟩
  | ethmf =>
    unfold driverCreate
    dsimp only
    rcases ethmf_cases env ref addr w.ethmf with ⟨fails, same⟩ | ⟨done, z, new⟩
    · exact .inl ⟨fails, by rw [same]⟩
    · refine .inr ⟨done, fun untouched => longer (new.symm.trans untouched.ethmf), rfl⟩
  | loc =>
    unfold driverCreate
    dsimp only
    rcases loc_cases ref addr unused.loc with ⟨fails, same⟩ | ⟨done, length⟩
    · exact .inl ⟨fails, by rw [same]⟩
    · refine .inr ⟨done, fun untouched => ?_, rfl⟩
      have same := congrArg List.length untouched.loc
      dsimp only at same
      omega

/-- The creation up to the driver, which the registration's failure comes after. -/
structure Attached (env : Env) (dds : Request) (w : World) (ref : Nat) (dtd : Driver) : Prop where
  low : ¬ dds.numchans < 1
  high : ¬ dds.numchans ≥ maxChans
  absent : findDynamic dds.driver dds.addr w.dspans = none
  mem : env.dynMem = some ref
  chans : (List.range dds.numchans.toNat).all env.chanMem = true
  buf : env.bufMem = true
  driver : findDriver env dds.driver = some dtd
  owner : env.owner = true
  accepts : (driverCreate env dtd ref (dds.addr.take 39) w).1 = 0

/-- The request gets to the registration of the span, which fails. -/
def LateFailure (env : Env) (dds : Request) (w : World) : Prop :=
  (∃ ref dtd, Attached env dds w ref dtd) ∧ env.registers = false

theorem put_allocated {w : World} {ref : Nat} (unused : w.structs ref = none) (m : Made) :
    dynamicPut (allocate w ref m) ref = w := by
  unfold dynamicPut allocate
  rw [Function.update_idem, ← unused, Function.update_eq_self]

theorem driver_allocated (env : Env) (dtd : Driver) (ref : Nat) (addr : List Char) (w : World) (m : Made) :
    driverCreate env dtd ref addr (allocate w ref m) =
      ((driverCreate env dtd ref addr w).1, allocate (driverCreate env dtd ref addr w).2 ref m) := by
  cases dtd <;> rfl

/-- The ways a creation can end. -/
theorem create_cases {env : Env} {dds : Request} {w : World} (unused : Unused env w) :
    ((¬ ∃ ref dtd, Attached env dds w ref dtd) ∧ (createDynamic env dds w).1 < 0 ∧
      (createDynamic env dds w).2 = w) ∨
    (∃ ref dtd, Attached env dds w ref dtd ∧ createDynamic env dds w =
      registerSpan env dds dtd ref (allocate (driverCreate env dtd ref (dds.addr.take 39) w).2 ref (made dds))) := by
  have invalid : -EINVAL < 0 := by decide
  have full : -ENOMEM < 0 := by decide
  have there : -EEXIST < 0 := by decide
  have unloading : -ENODEV < 0 := by decide
  unfold createDynamic
  by_cases low : dds.numchans < 1
  · rw [if_pos low]
    exact .inl ⟨fun ⟨_, _, attached⟩ => attached.low low, invalid, rfl⟩
  · rw [if_neg low]
    by_cases high : dds.numchans ≥ maxChans
    · rw [if_pos high]
      exact .inl ⟨fun ⟨_, _, attached⟩ => attached.high high, invalid, rfl⟩
    · rw [if_neg high]
      cases absent : findDynamic dds.driver dds.addr w.dspans with
      | some d =>
        left
        refine ⟨fun ⟨_, _, attached⟩ => ?_, there, rfl⟩
        exact absurd (absent.symm.trans attached.absent) (Option.some_ne_none d)
      | none =>
        cases mem : env.dynMem with
        | none =>
          left
          refine ⟨fun ⟨ref, _, attached⟩ => ?_, full, rfl⟩
          exact absurd (mem.symm.trans attached.mem) (Option.some_ne_none ref).symm
        | some ref =>
          have back := put_allocated (unused.dyn ref mem) (made dds)
          dsimp only
          by_cases chans : (List.range dds.numchans.toNat).all env.chanMem = true
          · rw [chans, Bool.not_true, if_neg Bool.false_ne_true]
            by_cases buf : env.bufMem = true
            · rw [buf, Bool.not_true, if_neg Bool.false_ne_true, attachDriver]
              cases driver : findDriver env dds.driver with
              | none =>
                left
                refine ⟨fun ⟨_, dtd, attached⟩ => ?_, invalid, back⟩
                exact absurd (driver.symm.trans attached.driver) (Option.some_ne_none dtd).symm
              | some dtd =>
                dsimp only
                by_cases owner : env.owner = true
                · rw [owner, Bool.not_true, if_neg Bool.false_ne_true, driver_allocated]
                  rcases driver_cases unused dtd ref (dds.addr.take 39) with ⟨fails, same⟩ | ⟨accepts, _⟩
                  · left
                    rw [if_pos (by dsimp only; omega), same]
                    refine ⟨fun ⟨ref', dtd', attached⟩ => ?_, fails, back⟩
                    have accepts := attached.accepts
                    rw [← Option.some.inj (mem.symm.trans attached.mem),
                      ← Option.some.inj (driver.symm.trans attached.driver)] at accepts
                    omega
                  · right
                    rw [if_neg (not_not.mpr accepts)]
                    exact ⟨ref, dtd, ⟨low, high, absent, mem, chans, buf, driver, owner, accepts⟩, rfl⟩
                · left
                  rw [Bool.not_eq_true] at owner
                  rw [owner]
                  refine ⟨fun ⟨_, _, attached⟩ => ?_, unloading, back⟩
                  exact absurd (owner.symm.trans attached.owner) Bool.false_ne_true
            · left
              rw [Bool.not_eq_true] at buf
              rw [buf]
              refine ⟨fun ⟨_, _, attached⟩ => ?_, full, back⟩
              exact absurd (buf.symm.trans attached.buf) Bool.false_ne_true
          · left
            rw [Bool.not_eq_true] at chans
            rw [chans]
            refine ⟨fun ⟨_, _, attached⟩ => ?_, full, back⟩
            exact absurd (chans.symm.trans attached.chans) Bool.false_ne_true

/-- A creation that fails leaves nothing behind, but for one that fails at the registration. -/
theorem failed_create {env : Env} {dds : Request} {w : World} (unused : Unused env w) :
    LeavesNothing env dds w ↔ ¬ LateFailure env dds w := by
  unfold LeavesNothing LateFailure
  rcases @create_cases env dds w unused with ⟨early, fails, same⟩ | ⟨ref, dtd, attached, late⟩
  · rw [same]
    refine iff_of_true (fun _ => ⟨⟨rfl, rfl, rfl, rfl⟩, fun sound => sound⟩) fun both => early both.1
  · rw [late, registerSpan]
    cases registers : env.registers with
    | true =>
      refine iff_of_true (fun failed => ?_) fun both => absurd both.2.symm Bool.false_ne_true
      have given : (env.spanno : Int) < 0 := failed
      omega
    | false =>
      refine iff_of_false (fun clean => ?_) fun none_ => none_ ⟨⟨ref, dtd, attached⟩, rfl⟩
      have invalid : -EINVAL < 0 := by decide
      have untouched := (clean invalid).1
      rcases driver_cases unused dtd ref (dds.addr.take 39) with ⟨fails, _⟩ | ⟨_, touched, _⟩
      · have := attached.accepts
        omega
      · exact touched ⟨untouched.dspans, untouched.zdevs, untouched.ethmf, untouched.loc⟩

/-- A machine with a device eth0 and the drivers eth and loc; ref and ptr are what kzalloc
    gives. -/
def machine (registers : Bool) : Env where
  dynMem := some 1
  chanMem _ := true
  bufMem := true
  drivers := [.eth, .loc]
  loaded := [.eth, .loc]
  owner := true
  zMem := true
  locMem := some 2
  devGetByName := EthAddress.oneDevice
  stale := none
  sscanf _ := none
  registers := registers
  spanno := 5

def empty : World := ⟨fun _ => none, ⟨[], false⟩, [], [], []⟩

theorem machine_unused (registers : Bool) : Unused (machine registers) empty :=
  ⟨fun _ _ => rfl, fun _ _ _ member => absurd member List.not_mem_nil⟩

/-- A local span with so many channels. -/
def locRequest (addr : List Char) (numchans : Int) : Request := ⟨['l', 'o', 'c'], addr, numchans, 0⟩

/-- A local span whose address is refused. -/
theorem refused_clean : LeavesNothing (machine false) (locRequest ['1'] 4) empty := by
  apply (failed_create (machine_unused false)).mpr
  rintro ⟨⟨ref, dtd, attached⟩, _⟩
  have mem : some 1 = some ref := attached.mem
  have driver : some Driver.loc = some dtd := attached.driver
  have accepts := attached.accepts
  rw [← Option.some.inj driver, ← Option.some.inj mem] at accepts
  exact absurd accepts (by decide)

/-- A local span that is not registered stays on the list of its driver, with its memory
    given back. -/
theorem unregistered_left : ¬ LeavesNothing (machine false) (locRequest ['1', ':', '0'] 4) empty ∧
    ∃ l ∈ (createDynamic (machine false) (locRequest ['1', ':', '0'] 4) empty).2.loc,
      (createDynamic (machine false) (locRequest ['1', ':', '0'] 4) empty).2.structs l.span = none := by
  have fails : (createDynamic (machine false) (locRequest ['1', ':', '0'] 4) empty).1 < 0 := by decide
  have left_ : (createDynamic (machine false) (locRequest ['1', ':', '0'] 4) empty).2.loc =
      [⟨2, 1, 0, -1, none, none, 1⟩] := by decide
  constructor
  · intro clean
    have same := (clean fails).1.loc
    rw [left_] at same
    cases same
  · rw [left_]
    exact ⟨_, List.mem_cons_self, by decide⟩

end Failure

section Room

/-- sizeof(chan->name) -/
def nameSize : Nat := 40

/-- Messages fit the buffer, and names with their final nul the channels. -/
def Fits (m : Made) : Prop :=
  (∀ d : Dynamic.Span, d.chans.length = m.channels → (Dynamic.sendmessage d).1.length ≤ m.bufsize) ∧
  ∀ name ∈ m.names, name.length < nameSize

/-- Few channels, and short names. -/
def Roomy (dds : Request) : Prop :=
  (dds.numchans ≤ 164 ∨ dds.numchans = 168) ∧
  dds.driver.length + dds.addr.length + (Nat.digits 10 dds.numchans.toNat).length ≤ 33

theorem message_length (d : Dynamic.Span) : (Dynamic.sendmessage d).1.length =
    6 + (d.chans.length + 3) / 4 * 2 + d.chans.length * 8 := by
  have some_ : d.chans ≠ [] := by
    intro none_
    have := d.some
    rw [none_] at this
    exact absurd this (by decide)
  have sigbits := @DynamicRoundTrip.send_sigbits_length d.chans 0 0 rfl (.inl some_)
  rw [Dynamic.sendmessage]
  simp only [List.length_append, List.length_cons, Dynamic.htons, List.length_nil, sigbits,
    DynamicRoundTrip.audio_length, chunksize]

theorem silence_length : (List.replicate 8 (0 : BitVec 8)).length = 8 := rfl

/-- A span of so many silent channels. -/
def silentSpan (n : Nat) (some_ : 1 ≤ n) (few : n < Dynamic.maxChans) : Dynamic.Span where
  chans := List.replicate n ⟨.other, false, 0, 0, ⟨List.replicate 8 0, silence_length⟩, ⟨List.replicate 8 0, silence_length⟩, []⟩
  some := by
    rw [List.length_replicate]
    exact some_
  few := by
    rw [List.length_replicate]
    exact few
  alarms := 0
  txcnt := 0
  rxcnt := 0
  err := 0

theorem name_length (dds : Request) (x : Nat) : (chanName dds x).length =
    6 + dds.driver.length + dds.addr.length + (Nat.digits 10 (x + 1)).length := by
  simp only [chanName, decimal, List.length_append, List.length_cons, List.length_nil, List.length_map,
    List.length_reverse]
  omega

theorem names_fit {dds : Request} (some_ : 1 ≤ dds.numchans) :
    (∀ name ∈ (made dds).names, name.length < nameSize) ↔
      dds.driver.length + dds.addr.length + (Nat.digits 10 dds.numchans.toNat).length ≤ 33 := by
  constructor
  · intro fit
    have last : dds.numchans.toNat - 1 + 1 = dds.numchans.toNat := by omega
    have short := fit (chanName dds (dds.numchans.toNat - 1))
      (List.mem_map_of_mem (List.mem_range.mpr (by omega)))
    rw [name_length, last] at short
    unfold nameSize at short
    omega
  · intro short name member
    obtain ⟨x, inside, rfl⟩ := List.mem_map.mp member
    have below : x + 1 ≤ dds.numchans.toNat := List.mem_range.mp inside
    have digits := Nat.le_length_digits_le 10 (x + 1) dds.numchans.toNat below
    rw [name_length]
    unfold nameSize
    omega

theorem message_fits {dds : Request} (some_ : 1 ≤ dds.numchans) (few : dds.numchans < maxChans) :
    (∀ d : Dynamic.Span, d.chans.length = (made dds).channels →
      (Dynamic.sendmessage d).1.length ≤ (made dds).bufsize) ↔ (dds.numchans ≤ 164 ∨ dds.numchans = 168) := by
  unfold maxChans at few
  constructor
  · intro fit
    have low : 1 ≤ dds.numchans.toNat := by omega
    have high : dds.numchans.toNat < Dynamic.maxChans := by
      unfold Dynamic.maxChans
      omega
    have short := fit (silentSpan dds.numchans.toNat low high) List.length_replicate
    have length : (silentSpan dds.numchans.toNat low high).chans.length = dds.numchans.toNat :=
      List.length_replicate
    rw [message_length, length] at short
    simp only [made, chunksize] at short
    omega
  · intro small d same
    rw [message_length, same]
    simp only [made, chunksize]
    omega

/-- A span that is created has room for its messages and the names of its channels just
    when it has few channels and a short address. -/
theorem created_fits {env : Env} {dds : Request} {w : World} (unused : Unused env w)
    (accepted : 0 ≤ (createDynamic env dds w).1) :
    ∃ ref m, env.dynMem = some ref ∧ (createDynamic env dds w).2.structs ref = some m ∧
      (m.channels : Int) = dds.numchans ∧ (Fits m ↔ Roomy dds) := by
  rcases @create_cases env dds w unused with ⟨_, fails, _⟩ | ⟨ref, dtd, attached, late⟩
  · omega
  · have some_ : 1 ≤ dds.numchans := by
      have := attached.low
      omega
    have few : dds.numchans < maxChans := by
      have := attached.high
      omega
    refine ⟨ref, made dds, attached.mem, ?_, Int.toNat_of_nonneg (by omega), ?_⟩
    · rw [late, registerSpan]
      cases registers : env.registers with
      | true => exact Function.update_self ref _ _
      | false =>
        rw [late, registerSpan, registers] at accepted
        have refused : ¬ 0 ≤ -EINVAL := by decide
        exact absurd accepted refused
    · exact and_congr (message_fits some_ few) (names_fit some_)

/-- Four channels at a short address. -/
theorem four_fit : Fits (made (locRequest ['1', ':', '0'] 4)) := by
  have accepted : 0 ≤ (createDynamic (machine true) (locRequest ['1', ':', '0'] 4) empty).1 := by decide
  obtain ⟨ref, m, mem, held, _, exact_⟩ := created_fits (machine_unused true) accepted
  have there : (createDynamic (machine true) (locRequest ['1', ':', '0'] 4) empty).2.structs 1 =
      some (made (locRequest ['1', ':', '0'] 4)) := rfl
  have one : 1 = ref := Option.some.inj mem
  subst one
  rw [Option.some.inj (there.symm.trans held), exact_]
  have digits : (Nat.digits 10 (4 : Int).toNat).length = 1 := by
    rw [show (4 : Int).toNat = 4 from rfl]
    norm_num
  refine ⟨by decide, ?_⟩
  rw [locRequest, digits]
  decide

/-- With 165 channels a message is longer than its buffer. -/
theorem message_overruns : 0 ≤ (createDynamic (machine true) (locRequest ['1', ':', '0'] 165) empty).1 ∧
    ¬ Fits (made (locRequest ['1', ':', '0'] 165)) := by
  refine ⟨by decide +kernel, fun fits => ?_⟩
  have small := (@message_fits (locRequest ['1', ':', '0'] 165) (by decide) (by decide)).mp fits.1
  exact absurd small (by decide)

end Room
end DynamicCreation
