import Dahdi.Transcode.Ownership

/-!
Allocation and release of the paired channels of the wctc4xxp cards, one locked section at a time:
dahdi_tc_allocate and dahdi_tc_release of dahdi_transcode.c, over wctc4xxp_operation_allocate and
wctc4xxp_operation_release of wctc4xxp/base.c.
-/
namespace TranscoderPairs
open Transcode

section Data

/-- A channel by its transcoder and its index. Transcoders 2k and 2k + 1 are uencode and udecode of
    card k. -/
abbrev Chan := Nat × Nat

def INVALID : Nat := 999

def complement (c : Chan) : Chan := (if c.1 % 2 = 0 then c.1 + 1 else c.1 - 1, c.2)

/-- How far wctc4xxp_create_channel_pair comes, with the channel numbers of the DTE for the
    encoder and the decoder: before it sets any, before those of the decoder, to an error after
    both, or to its end. -/
inductive Created where
  | none
  | half (encoder decoder : Nat)
  | broken (encoder decoder : Nat)
  | whole (encoder decoder : Nat)
  deriving DecidableEq

/-- Where a call is: a channel has been chosen for it; the channel that the file had has been
    released and is still busy; it has entered the driver; it waits for chansem. A call that
    closes a file has released its channel. -/
inductive Phase where
  | idle
  | chosen (f : Nat) (fmts : Formats) (c : Chan)
  | leaving (f : Nat) (fmts : Formats) (c : Chan) (old : Option Chan)
  | entered (f : Nat) (fmts : Formats) (c : Chan)
  | waiting (f : Nat) (fmts : Formats) (c : Chan)
  | returned (fmts : Formats) (c : Chan) (ok : Bool)
  | closing (f : Nat) (c : Chan)
  deriving DecidableEq

/-- The channels and the files, chan_in_num and chan_out_num of the channels, and the calls by
    their thread. -/
structure State where
  core : Transcode.State
  chanIn : Chan → Nat
  chanOut : Chan → Nat
  threads : Nat → Phase

inductive Op where
  | open_ (f : Nat) (nonblock : Bool)
  | select (r f : Nat) (fmts : Formats)
  | move (r : Nat) (shutdown destroyed : Bool)
  | settle (r : Nat) (module_ : Bool)
  | check (r : Nat) (shutdown : Bool)
  | build (r : Nat) (created : Created)
  | close (r f : Nat) (shutdown destroyed : Bool)
  | closed (r : Nat)

end Data

section Code

def setThread (r : Nat) (phase : Phase) (s : State) : State := { s with threads := Function.update s.threads r phase }

/-- A channel as it is built for these formats, or not built. -/
def rebuilt (fmts : Option Formats) (chan : Channel) : Channel :=
  match fmts with
  | some fmts => { chan with built := true, builtFmts := fmts.dstfmt ||| fmts.srcfmt, builtFor := fmts }
  | none => { chan with built := false, builtFmts := 0 }

def setPair (c : Chan) (fmts : Option Formats) (s : State) : State :=
  { s with
    core := { s.core with
      channels := fun x => if x = c ∨ x = complement c then rebuilt fmts (s.core.channels x) else s.core.channels x } }

def setNumbers (c : Chan) (chanIn chanOut : Nat) (s : State) : State :=
  { s with chanIn := Function.update s.chanIn c chanIn, chanOut := Function.update s.chanOut c chanOut }

def encoderOf (c : Chan) : Chan := if c.1 % 2 = 0 then c else complement c

def decoderOf (c : Chan) : Chan := if c.1 % 2 = 0 then complement c else c

/-- wctc4xxp_create_channel_pair, and whether it succeeds. -/
def createChannelPair (c : Chan) (created : Created) (s : State) : Bool × State :=
  match created with
  | .none => (false, s)
  | .half encoder decoder => (false, setNumbers (encoderOf c) encoder decoder s)
  | .broken encoder decoder =>
    (false, setNumbers (decoderOf c) decoder encoder (setNumbers (encoderOf c) encoder decoder s))
  | .whole encoder decoder =>
    (true, setNumbers (decoderOf c) decoder encoder (setNumbers (encoderOf c) encoder decoder s))

/-- do_channel_allocate with chansem held. -/
def doChannelAllocate (c : Chan) (created : Created) (s : State) : Bool × State :=
  if (s.core.channels c).built then (true, s)
  else
    match createChannelPair c created s with
    | (false, s) => (false, s)
    | (true, s) =>
      let fmts : Formats := ⟨(s.core.channels c).srcfmt, (s.core.channels c).dstfmt⟩
      (true, setNumbers (complement c) (s.chanOut c) (s.chanIn c) (setPair c (some fmts) s))

/-- wctc4xxp_operation_release, and whether wctc4xxp_destroy_channel_pair succeeds. -/
def operationRelease (c : Chan) (shutdown destroyed : Bool) (s : State) : State :=
  if shutdown then s
  else if !(s.core.channels (complement c)).built then s
  else if (s.core.channels (complement c)).busy then s
  else if !destroyed then s
  else setNumbers (complement c) INVALID INVALID (setNumbers c INVALID INVALID (setPair c none s))

def clearBusy (c : Chan) (s : State) : State :=
  { s with core := setChannel s.core c { s.core.channels c with busy := false } }

def putFile (f : Nat) (file : Option File) (s : State) : State := { s with core := setFile s.core f file }

/-- The first half of dtc_release. -/
def parentRelease (config : Nat → Transcoder) (c : Chan) (shutdown destroyed : Bool) (s : State) : State :=
  if (config c.1).release then operationRelease c shutdown destroyed s else s

def free (phase : Phase) : Bool :=
  match phase with
  | .idle | .returned _ _ _ => true
  | _ => false

/-- dahdi_tc_allocate up to the search, and the formats of the channel it finds. -/
def select (config : Nat → Transcoder) (r f : Nat) (fmts : Formats) (s : State) : State :=
  match findFreeChannel config s.core fmts false s.core.activeList with
  | .error _ => s
  | .ok c =>
    let core := take s.core c
    setThread r (.chosen f fmts c)
      { s with core := setChannel core c { core.channels c with srcfmt := fmts.srcfmt, dstfmt := fmts.dstfmt } }

/-- dahdi_tc_allocate from the new private_data to the driver. -/
def settle (config : Nat → Transcoder) (r f : Nat) (fmts : Formats) (c : Chan) (file : File) (module_ : Bool)
    (s : State) : State :=
  let parent := config c.1
  if parent.owner ≠ file.owner ∧ !module_ then
    setThread r (.returned fmts c false) (putFile f (some { file with privateData := some c }) s)
  else
    let s := putFile f (some { file with privateData := some c, owner := parent.owner }) s
    let s := { s with core := setChannel s.core c { s.core.channels c with nonblock := file.nonblock } }
    setThread r (if parent.allocate then .entered f fmts c else .returned fmts c false) s

def next (config : Nat → Transcoder) (s : State) (op : Op) : Option State :=
  match op with
  | .open_ f nonblock =>
    match s.core.files f with
    | none => some { s with core := tcOpen s.core f nonblock }
    | some _ => none
  | .select r f fmts =>
    if free (s.threads r) then (s.core.files f).map fun _ => select config r f fmts s else none
  | .move r shutdown destroyed =>
    match s.threads r with
    | .chosen f fmts c => (s.core.files f).map fun file =>
        setThread r (.leaving f fmts c file.privateData)
          (match file.privateData with
            | none => s
            | some old => parentRelease config old shutdown destroyed s)
    | _ => none
  | .settle r module_ =>
    match s.threads r with
    | .leaving f fmts c old => (s.core.files f).map fun file =>
        settle config r f fmts c file module_
          (match old with
            | none => s
            | some old => clearBusy old s)
    | _ => none
  | .check r shutdown =>
    match s.threads r with
    | .entered f fmts c =>
      some (setThread r
        (if shutdown then .returned fmts c false
          else if (s.core.channels c).built then .returned fmts c true
          else .waiting f fmts c) s)
    | _ => none
  | .build r created =>
    match s.threads r with
    | .waiting _ fmts c =>
      match doChannelAllocate c created s with
      | (ok, s) => some (setThread r (.returned fmts c ok) s)
    | _ => none
  | .close r f shutdown destroyed =>
    if free (s.threads r) then
      (s.core.files f).map fun file =>
        match file.privateData with
        | none => putFile f none s
        | some c => setThread r (.closing f c) (parentRelease config c shutdown destroyed s)
    else none
  | .closed r =>
    match s.threads r with
    | .closing f c => some (setThread r .idle (putFile f none (clearBusy c s)))
    | _ => none

/-- The file a call is on. -/
def fileOf (phase : Phase) : Option Nat :=
  match phase with
  | .chosen f _ _ | .leaving f _ _ _ | .entered f _ _ | .waiting f _ _ | .closing f _ => some f
  | .idle | .returned _ _ _ => none

def closes (f : Nat) (phase : Phase) : Bool :=
  match phase with
  | .closing g _ => f = g
  | _ => false

/-- A file is closed when no call on it is left, and no call on it starts from then on. -/
def allowed (s : State) (op : Op) : Prop :=
  match op with
  | .select _ f _ => ∀ r, closes f (s.threads r) = false
  | .close _ f _ _ => ∀ r, fileOf (s.threads r) ≠ some f
  | _ => True

structure Start (s : State) : Prop where
  channels : ∀ c, (s.core.channels c).busy = false ∧ (s.core.channels c).built = false
  files : ∀ f, s.core.files f = none
  threads : ∀ r, s.threads r = .idle

def sys (config : Nat → Transcoder) : GuardedRun.System State Op :=
  ⟨Start, fun s op s' => allowed s op ∧ next config s op = some s'⟩

end Code

end TranscoderPairs
