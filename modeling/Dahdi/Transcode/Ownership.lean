import Dahdi.Library.GuardedRun
import Dahdi.Library.Tenancy
import Mathlib

/-!
Transcoders, their channels and the files that use them, from dahdi_transcode.c.
A transcoder is known by a number, a channel by its transcoder and its index.
What a driver's callback does to the channels comes with the operation.
-/
namespace Transcode

/-- struct dahdi_transcoder_formats -/
structure Formats where
  srcfmt : BitVec 32
  dstfmt : BitVec 32
  deriving DecidableEq

/-- struct dahdi_transcoder_channel. `builtFor` is history: the formats the driver
    built the channel for. -/
structure Channel where
  busy : Bool
  built : Bool
  nonblock : Bool
  builtFmts : BitVec 32
  srcfmt : BitVec 32
  dstfmt : BitVec 32
  builtFor : Formats
  deriving DecidableEq

/-- struct dahdi_transcoder: the owner of its fops, and which callbacks it has. -/
structure Transcoder where
  numchannels : Nat
  srcfmts : BitVec 32
  dstfmts : BitVec 32
  owner : Nat
  allocate : Bool
  release : Bool

/-- struct file: private_data, the owner of f_op, and O_NONBLOCK. -/
structure File where
  privateData : Option (Nat × Nat)
  owner : Nat
  nonblock : Bool
  deriving DecidableEq

structure State where
  channels : Nat × Nat → Channel
  registrationList : List Nat
  activeList : List Nat
  files : Nat → Option File

/-- What a driver's callback returns, and the channels that are built after it. -/
structure Callback where
  result : Int
  built : Nat × Nat → Option Formats

inductive Result where
  | driver (result : Int)
  | done
  | ebusy
  | enodev
  | einval
  | efault
  deriving DecidableEq

def setChannel (s : State) (c : Nat × Nat) (chan : Channel) : State :=
  { s with channels := Function.update s.channels c chan }

def setFile (s : State) (f : Nat) (file : Option File) : State :=
  { s with files := Function.update s.files f file }

@[simp] theorem set_channel_self (s : State) (c : Nat × Nat) (chan : Channel) :
    (setChannel s c chan).channels c = chan := Function.update_self ..

theorem set_channel_other (s : State) {c x : Nat × Nat} (chan : Channel) (other : x ≠ c) :
    (setChannel s c chan).channels x = s.channels x := Function.update_of_ne other ..

/-- The driver records the formats of a built channel in built_fmts. -/
def rebuild (s : State) (callback : Callback) : State :=
  { s with channels := fun c =>
      match callback.built c with
      | some fmts => { s.channels c with
          built := true, builtFmts := fmts.dstfmt ||| fmts.srcfmt, builtFor := fmts }
      | none => { s.channels c with built := false, builtFmts := 0 } }

/-- dahdi_transcoder_register; BUG_ON has no result. -/
def transcoderRegister (s : State) (tc : Nat) : Option (State × Result) :=
  if tc ∈ s.registrationList then none
  else some ({ s with
    registrationList := s.registrationList ++ [tc]
    activeList := s.activeList ++ [tc] }, .done)

/-- dahdi_transcoder_unregister -/
def transcoderUnregister (s : State) (tc : Nat) : State × Result :=
  if tc ∉ s.registrationList then (s, .einval)
  else ({ s with
    registrationList := s.registrationList.erase tc
    activeList := s.activeList.erase tc }, .done)

/-- The owner of dahdi_transcode_fops. -/
def thisModule : Nat := 0

/-- dahdi_tc_open -/
def tcOpen (s : State) (f : Nat) (nonblock : Bool) : State :=
  setFile s f (some ⟨none, thisModule, nonblock⟩)

/-- dtc_release -/
def dtcRelease (config : Nat → Transcoder) (s : State) (c : Nat × Nat) (callback : Callback) : State :=
  let s := if (config c.1).release then rebuild s callback else s
  setChannel s c { s.channels c with busy := false }

/-- dtc_release for the channel of a file, if it has one. -/
def leave (config : Nat → Transcoder) (s : State) (file : File) (callback : Callback) : State :=
  match file.privateData with
  | some c => dtcRelease config s c callback
  | none => s

/-- dahdi_tc_release, after which the file is gone. -/
def tcRelease (config : Nat → Transcoder) (s : State) (f : Nat) (file : File) (callback : Callback) :
    State :=
  setFile (leave config s file callback) f none

/-- The channels get_free_channel takes. -/
def available (chan : Channel) (fmts : Formats) : Bool :=
  !chan.busy && (!chan.built || decide (fmts.srcfmt ||| fmts.dstfmt = chan.builtFmts))

def getFreeChannel (config : Nat → Transcoder) (s : State) (tc : Nat) (fmts : Formats) : Option Nat :=
  (List.range (config tc).numchannels).find? fun i => available (s.channels (tc, i)) fmts

/-- A transcoder that can handle the formats. -/
def supports (tc : Transcoder) (fmts : Formats) : Bool :=
  decide (tc.dstfmts &&& fmts.dstfmt ≠ 0) && decide (tc.srcfmts &&& fmts.srcfmt ≠ 0)

/-- The loop of __find_free_channel, with `matched` once a transcoder can handle the
    formats. -/
def findFreeChannel (config : Nat → Transcoder) (s : State) (fmts : Formats) :
    Bool → List Nat → Except Result (Nat × Nat)
  | matched, [] => .error (if matched then .ebusy else .enodev)
  | matched, tc :: rest =>
    if supports (config tc) fmts then
      match getFreeChannel config s tc fmts with
      | some i => .ok (tc, i)
      | none => findFreeChannel config s fmts true rest
    else findFreeChannel config s fmts matched rest

/-- The channel is marked busy and its transcoder moved to the end of the list. -/
def take (s : State) (c : Nat × Nat) : State :=
  { setChannel s c { s.channels c with busy := true } with
    activeList := s.activeList.erase c.1 ++ [c.1] }

/-- dahdi_tc_allocate for the file f, once the formats were copied; `module_` is the
    result of try_module_get. -/
def tcAllocate (config : Nat → Transcoder) (s : State) (f : Nat) (file : File) (fmts : Formats)
    (released : Callback) (module_ : Bool) (allocated : Callback) : State × Result :=
  match findFreeChannel config s fmts false s.activeList with
  | .error err => (s, err)
  | .ok c =>
    let s := take s c
    let s := setChannel s c { s.channels c with srcfmt := fmts.srcfmt, dstfmt := fmts.dstfmt }
    let s := leave config s file released
    let parent := config c.1
    if parent.owner ≠ file.owner ∧ !module_ then
      (setFile s f (some { file with privateData := some c }), .einval)
    else
      let s := setFile s f (some { file with privateData := some c, owner := parent.owner })
      let s := setChannel s c { s.channels c with nonblock := file.nonblock }
      if parent.allocate then (rebuild s allocated, .driver allocated.result)
      else (s, .einval)

inductive Op where
  | register (tc : Nat)
  | unregister (tc : Nat)
  | open_ (f : Nat) (nonblock : Bool)
  | allocate (f : Nat) (fmts : Option Formats) (released : Callback) (module_ : Bool)
      (allocated : Callback)
  | release (f : Nat) (released : Callback)

/-- One operation. A file is opened once before it is released, and used between. -/
def step (config : Nat → Transcoder) (s : State) : Op → Option (State × Result)
  | .register tc => transcoderRegister s tc
  | .unregister tc => some (transcoderUnregister s tc)
  | .open_ f nonblock =>
    match s.files f with
    | some _ => none
    | none => some (tcOpen s f nonblock, .done)
  | .allocate f fmts released module_ allocated =>
    match s.files f, fmts with
    | none, _ => none
    | some _, none => some (s, .efault)
    | some file, some fmts => some (tcAllocate config s f file fmts released module_ allocated)
  | .release f released =>
    match s.files f with
    | none => none
    | some file => some (tcRelease config s f file released, .done)

/-- The channels of dahdi_transcoder_alloc. -/
def blank : Channel := ⟨false, false, false, 0, 0, 0, ⟨0, 0⟩⟩

def initial : State := ⟨fun _ => blank, [], [], fun _ => none⟩

end Transcode

/-!
Who owns the transcoder channels. A built channel remembers its two formats in one
word, so what a file is given agrees with the formats of the channel as one word.
-/
namespace TranscoderOwnership
open Transcode Tenancy GuardedRun

section State

def holds (s : State) (f : Nat) : Option (Nat × Nat) := (s.files f).bind fun file => file.privateData

def busy (s : State) (c : Nat × Nat) : Bool := (s.channels c).busy

/-- The formats a channel was last given out for. -/
def requested (s : State) (c : Nat × Nat) : Formats := ⟨(s.channels c).srcfmt, (s.channels c).dstfmt⟩

/-- built_fmts is the formats a built channel was built for, in one word. -/
def Recorded (s : State) : Prop :=
  ∀ c, (s.channels c).built = true →
    (s.channels c).builtFmts = (s.channels c).builtFor.srcfmt ||| (s.channels c).builtFor.dstfmt

structure Owned (config : Nat → Transcoder) (s : State) : Prop where
  settled : Settled (holds s) (busy s)
  supported : ∀ f c, holds s f = some c → supports (config c.1) (requested s c) = true
  recorded : Recorded s
  registered : s.activeList.Perm s.registrationList
  once : s.registrationList.Nodup

end State

section Effects

/-- What the channels' callbacks and flags leave as it is. -/
structure Kept (s s' : State) : Prop where
  files : s'.files = s.files
  registrationList : s'.registrationList = s.registrationList
  activeList : s'.activeList = s.activeList
  requested : ∀ c, requested s' c = requested s c
  recorded : Recorded s → Recorded s'

variable {s s' s'' : State} {c : Nat × Nat}

theorem kept_trans (first : Kept s s') (second : Kept s' s'') : Kept s s'' where
  files := second.files.trans first.files
  registrationList := second.registrationList.trans first.registrationList
  activeList := second.activeList.trans first.activeList
  requested := fun c => (second.requested c).trans (first.requested c)
  recorded := fun recorded => second.recorded (first.recorded recorded)

theorem rebuild_kept (s : State) (callback : Callback) :
    Kept s (rebuild s callback) ∧ busy (rebuild s callback) = busy s := by
  constructor
  · constructor
    · rfl
    · rfl
    · rfl
    · intro c
      unfold requested rebuild
      dsimp only
      split <;> rfl
    · intro _ c
      unfold rebuild
      dsimp only
      split
      · intro _
        exact BitVec.or_comm ..
      · intro built
        simp at built
  · funext c
    unfold busy rebuild
    dsimp only
    split <;> rfl

theorem set_kept {chan : Channel} (request : (⟨chan.srcfmt, chan.dstfmt⟩ : Formats) = requested s c)
    (built : chan.built = (s.channels c).built) (record : chan.builtFmts = (s.channels c).builtFmts)
    (history : chan.builtFor = (s.channels c).builtFor) :
    Kept s (setChannel s c chan) ∧ busy (setChannel s c chan) = Function.update (busy s) c chan.busy := by
  constructor
  · constructor
    · rfl
    · rfl
    · rfl
    · intro x
      by_cases here : x = c
      · subst here
        rw [← request, requested, set_channel_self]
      · rw [requested, set_channel_other s chan here, requested]
    · intro recorded x
      by_cases here : x = c
      · subst here
        rw [set_channel_self, built, record, history]
        exact recorded x
      · rw [set_channel_other s chan here]
        exact recorded x
  · funext x
    by_cases here : x = c
    · subst here
      rw [Function.update_self, busy, set_channel_self]
    · rw [Function.update_of_ne here, busy, set_channel_other s chan here, busy]

/-- dtc_release frees the channel and nothing else. -/
theorem dtc_release_kept (config : Nat → Transcoder) (s : State) (c : Nat × Nat) (callback : Callback) :
    Kept s (dtcRelease config s c callback) ∧
      busy (dtcRelease config s c callback) = vacate (busy s) (some c) := by
  have freed (s : State) : Kept s (setChannel s c { s.channels c with busy := false }) ∧
      busy (setChannel s c { s.channels c with busy := false }) = vacate (busy s) (some c) := by
    obtain ⟨kept, flags⟩ := @set_kept s c { s.channels c with busy := false } rfl rfl rfl rfl
    refine ⟨kept, ?_⟩
    rw [flags]
    funext x
    unfold vacate
    by_cases here : x = c
    · rw [here, Function.update_self, if_pos rfl]
    · rw [Function.update_of_ne here, if_neg fun same => here (Option.some.inj same).symm]
  unfold dtcRelease
  cases (config c.1).release with
  | false => exact freed s
  | true =>
    obtain ⟨kept, flags⟩ := rebuild_kept s callback
    obtain ⟨after, free⟩ := freed (rebuild s callback)
    rw [flags] at free
    exact ⟨kept_trans kept after, free⟩

theorem leave_kept (config : Nat → Transcoder) (s : State) (file : File) (callback : Callback) :
    Kept s (leave config s file callback) ∧
      busy (leave config s file callback) = vacate (busy s) file.privateData := by
  unfold leave
  cases file.privateData with
  | none => exact ⟨⟨rfl, rfl, rfl, fun _ => rfl, id⟩, rfl⟩
  | some c => exact dtc_release_kept config s c callback

end Effects

section Allocate
variable {config : Nat → Transcoder} {s : State} {fmts : Formats} {c : Nat × Nat}

theorem find_free_spec {matched : Bool} {list : List Nat}
    (found : findFreeChannel config s fmts matched list = .ok c) :
    c.1 ∈ list ∧ supports (config c.1) fmts = true ∧ available (s.channels c) fmts = true := by
  induction list generalizing matched with
  | nil => simp [findFreeChannel] at found
  | cons tc rest ih =>
    rw [findFreeChannel] at found
    split at found
    · rename_i able
      split at found
      · rename_i i free
        obtain rfl := Except.ok.inj found
        refine ⟨List.mem_cons_self, able, ?_⟩
        exact List.find?_some (p := fun i => available (s.channels (tc, i)) fmts) free
      · obtain ⟨later, more⟩ := ih found
        exact ⟨List.mem_cons_of_mem _ later, more⟩
    · obtain ⟨later, more⟩ := ih found
      exact ⟨List.mem_cons_of_mem _ later, more⟩

/-- A file that has moved to a channel it asked for. -/
structure Moved (s : State) (f : Nat) (c : Nat × Nat) (fmts : Formats) (s' : State) : Prop where
  held : holds s' = Function.update (holds s) f (some c)
  flags : busy s' = vacate (Function.update (busy s) c true) (holds s f)
  asked : ∀ x, requested s' x = if x = c then fmts else requested s x
  recorded : Recorded s → Recorded s'
  registrationList : s'.registrationList = s.registrationList
  activeList : s'.activeList = s.activeList.erase c.1 ++ [c.1]

theorem holds_file (s : State) (f : Nat) (file : Option File) :
    holds (setFile s f file) =
      Function.update (holds s) f (file.bind fun file => file.privateData) := by
  funext x
  by_cases here : x = f
  · simp [holds, setFile, here]
  · simp [holds, setFile, here]

/-- The channel taken and given its formats. -/
theorem taken (s : State) (c : Nat × Nat) (fmts : Formats) :
    ∃ s', setChannel (take s c) c { (take s c).channels c with srcfmt := fmts.srcfmt, dstfmt := fmts.dstfmt }
      = s' ∧ s'.files = s.files ∧ busy s' = Function.update (busy s) c true ∧
        (∀ x, requested s' x = if x = c then fmts else requested s x) ∧ (Recorded s → Recorded s') ∧
          s'.registrationList = s.registrationList ∧ s'.activeList = s.activeList.erase c.1 ++ [c.1] := by
  refine ⟨_, rfl, rfl, ?_, ?_, ?_, rfl, rfl⟩
  · funext x
    by_cases here : x = c
    · simp [busy, setChannel, take, here]
    · simp [busy, setChannel, take, here]
  · intro x
    by_cases here : x = c
    · simp [requested, setChannel, take, here]
    · simp [requested, setChannel, take, here]
  · intro recorded x
    by_cases here : x = c
    · subst here
      simpa [setChannel, take] using recorded x
    · simpa [setChannel, take, here] using recorded x

/-- dahdi_tc_allocate moves the file to a channel that is free and fits, or changes
    nothing. -/
theorem allocate_spec {f : Nat} {file : File} (open_ : s.files f = some file) (released : Callback)
    (module_ : Bool) (allocated : Callback) :
    (tcAllocate config s f file fmts released module_ allocated).1 = s ∨
      ∃ c, findFreeChannel config s fmts false s.activeList = .ok c ∧
        Moved s f c fmts (tcAllocate config s f file fmts released module_ allocated).1 := by
  have old : holds s f = file.privateData := by rw [holds, open_]; rfl
  cases found : findFreeChannel config s fmts false s.activeList with
  | error err =>
    refine Or.inl ?_
    rw [tcAllocate, found]
  | ok c =>
    refine Or.inr ⟨c, rfl, ?_⟩
    obtain ⟨t, took, tfiles, tbusy, trequested, trecorded, tregistered, tactive⟩ := taken s c fmts
    obtain ⟨kept, flags⟩ := leave_kept config t file released
    generalize left : leave config t file released = u at kept flags
    -- every exit ends in a state that differs from u in the file and in what Kept leaves
    have moved (v : State) (file' : File) (now : file'.privateData = some c) (final : State)
        (same : v = setFile u f (some file')) (after : Kept v final)
        (flags' : busy final = busy v) : Moved s f c fmts final := by
      constructor
      · have files : holds final = holds v := by
          funext x
          rw [holds, holds, after.files]
        have before : holds u = holds s := by
          funext x
          rw [holds, holds, kept.files, tfiles]
        rw [files, same, holds_file, before, Option.bind_some, now]
      · rw [flags', same]
        exact flags.trans (by rw [tbusy, old])
      · intro x
        rw [after.requested, same]
        exact (kept.requested x).trans (trequested x)
      · intro recorded
        apply after.recorded
        rw [same]
        exact kept.recorded (trecorded recorded)
      · rw [after.registrationList, same]
        exact kept.registrationList.trans tregistered
      · rw [after.activeList, same]
        exact kept.activeList.trans tactive
    rw [tcAllocate, found]
    simp only [took, left]
    split
    · exact moved _ _ rfl _ rfl ⟨rfl, rfl, rfl, fun _ => rfl, id⟩ rfl
    · obtain ⟨set, setFlags⟩ := @set_kept
        (setFile u f (some { file with privateData := some c, owner := (config c.1).owner })) c
        { u.channels c with nonblock := file.nonblock } rfl rfl rfl rfl
      have same : Function.update (busy u) c (u.channels c).busy = busy u := Function.update_eq_self c (busy u)
      split
      · obtain ⟨build, buildFlags⟩ := rebuild_kept (setChannel
          (setFile u f (some { file with privateData := some c, owner := (config c.1).owner })) c
          { u.channels c with nonblock := file.nonblock }) allocated
        exact moved _ _ rfl _ rfl (kept_trans set build) (buildFlags.trans (setFlags.trans same))
      · exact moved _ _ rfl _ rfl set (setFlags.trans same)

end Allocate

section Steps
variable {config : Nat → Transcoder} {s s' : State} {f : Nat} {c : Nat × Nat}

theorem owned_register {tc : Nat} {r : Result} (owned : Owned config s)
    (done : transcoderRegister s tc = some (s', r)) : Owned config s' := by
  unfold transcoderRegister at done
  split at done
  · simp at done
  · rename_i unlisted
    simp only [Option.some.injEq, Prod.mk.injEq] at done
    rw [← done.1]
    refine ⟨owned.settled, owned.supported, owned.recorded, owned.registered.append_right [tc], ?_⟩
    rw [List.nodup_append]
    refine ⟨owned.once, List.nodup_singleton tc, ?_⟩
    intro a listed b last same
    rw [List.mem_singleton.mp last] at same
    exact unlisted (same ▸ listed)

theorem owned_unregister (tc : Nat) (owned : Owned config s) :
    Owned config (transcoderUnregister s tc).1 := by
  unfold transcoderUnregister
  split
  · exact owned
  · exact ⟨owned.settled, owned.supported, owned.recorded, owned.registered.erase tc, owned.once.erase tc⟩

theorem owned_open (nonblock : Bool) (owned : Owned config s) (closed : s.files f = none) :
    Owned config (tcOpen s f nonblock) := by
  have empty : holds s f = none := by rw [holds, closed]; rfl
  have same : holds (tcOpen s f nonblock) = holds s := by
    rw [tcOpen, holds_file, Option.bind_some, ← empty]
    exact Function.update_eq_self f (holds s)
  refine ⟨?_, ?_, owned.recorded, owned.registered, owned.once⟩
  · rw [same]
    exact owned.settled
  · intro f' c held
    rw [same] at held
    exact owned.supported f' c held

theorem owned_moved {fmts : Formats} (owned : Owned config s)
    (found : findFreeChannel config s fmts false s.activeList = .ok c) (moved : Moved s f c fmts s') :
    Owned config s' := by
  obtain ⟨listed, able, free⟩ := find_free_spec found
  have unused : busy s c = false := by
    unfold available at free
    simp only [Bool.and_eq_true, Bool.not_eq_true'] at free
    exact free.1
  constructor
  · rw [moved.held, moved.flags]
    exact settled_move owned.settled unused
  · intro f' c' held
    rw [moved.asked]
    split
    · rename_i here
      rw [here]
      exact able
    · rename_i elsewhere
      rw [moved.held] at held
      have other : some c ≠ some c' := fun same => elsewhere (Option.some.inj same).symm
      exact owned.supported f' c' (holder_elsewhere owned.settled held other).2.1
  · exact moved.recorded owned.recorded
  · rw [moved.activeList, moved.registrationList]
    have turned : (s.activeList.erase c.1 ++ [c.1]).Perm s.activeList :=
      (List.perm_append_singleton _ _).trans (List.perm_cons_erase listed).symm
    exact turned.trans owned.registered
  · rw [moved.registrationList]
    exact owned.once

theorem owned_release {file : File} (owned : Owned config s) (open_ : s.files f = some file)
    (released : Callback) : Owned config (tcRelease config s f file released) := by
  obtain ⟨kept, flags⟩ := leave_kept config s file released
  have old : holds s f = file.privateData := by rw [holds, open_]; rfl
  have before : holds (leave config s file released) = holds s := by
    funext x
    rw [holds, holds, kept.files]
  have held : holds (tcRelease config s f file released) = Function.update (holds s) f none := by
    rw [tcRelease, holds_file, before, Option.bind_none]
  have settled := settled_leave (t := f) owned.settled
  constructor
  · rw [held]
    rw [old, ← flags] at settled
    exact settled
  · intro f' c now
    rw [held] at now
    obtain ⟨_, also, _⟩ := holder_elsewhere owned.settled now (by simp)
    have asked : requested (tcRelease config s f file released) c = requested s c := kept.requested c
    rw [asked]
    exact owned.supported f' c also
  · exact kept.recorded owned.recorded
  · have active : (tcRelease config s f file released).activeList = s.activeList := kept.activeList
    have registered : (tcRelease config s f file released).registrationList = s.registrationList :=
      kept.registrationList
    rw [active, registered]
    exact owned.registered
  · have registered : (tcRelease config s f file released).registrationList = s.registrationList :=
      kept.registrationList
    rw [registered]
    exact owned.once

theorem owned_step {op : Op} {r : Result} (owned : Owned config s)
    (done : step config s op = some (s', r)) : Owned config s' := by
  cases op with
  | register tc => exact owned_register owned done
  | unregister tc =>
    obtain rfl := (congrArg Prod.fst (Option.some.inj done)).symm
    exact owned_unregister tc owned
  | open_ f nonblock =>
    simp only [step] at done
    split at done
    · simp at done
    · rename_i closed
      obtain rfl := (congrArg Prod.fst (Option.some.inj done)).symm
      exact owned_open nonblock owned closed
  | allocate f fmts released module_ allocated =>
    simp only [step] at done
    split at done
    · simp at done
    · obtain rfl := (congrArg Prod.fst (Option.some.inj done)).symm
      exact owned
    · rename_i file fmts open_
      obtain rfl := (congrArg Prod.fst (Option.some.inj done)).symm
      rcases allocate_spec open_ released module_ allocated with same | ⟨c, found, moved⟩
      · rw [same]
        exact owned
      · exact owned_moved owned found moved
  | release f released =>
    simp only [step] at done
    split at done
    · simp at done
    · rename_i open_
      obtain rfl := (congrArg Prod.fst (Option.some.inj done)).symm
      exact owned_release owned open_ released

theorem owned_initial (config : Nat → Transcoder) : Owned config initial := by
  constructor
  · constructor
    · intro c
      simp [busy, holds, initial, blank]
    · intro f f' c held
      simp [holds, initial] at held
  · intro f c held
    simp [holds, initial] at held
  · intro c built
    simp [initial, blank] at built
  · exact List.Perm.refl _
  · exact List.nodup_nil

end Steps

section Grants

/-- A file gets a channel it did not have. -/
def HandedOut (s s' : State) (f : Nat) (c : Nat × Nat) : Prop :=
  holds s' f = some c ∧ holds s f ≠ some c

/-- A single format of each kind. -/
def pair (i j : Fin 32) : Formats := ⟨BitVec.twoPow 32 i, BitVec.twoPow 32 j⟩

/-- A channel that was free, of a registered transcoder that can handle the formats;
    if it was built, then for the same formats in one word. -/
structure Granted (config : Nat → Transcoder) (s : State) (c : Nat × Nat) (fmts : Formats) : Prop where
  free : busy s c = false
  listed : c.1 ∈ s.registrationList
  shared : (config c.1).srcfmts &&& fmts.srcfmt ≠ 0 ∧ (config c.1).dstfmts &&& fmts.dstfmt ≠ 0
  single : ∀ i j, fmts = pair i j →
    (config c.1).srcfmts.getLsbD i = true ∧ (config c.1).dstfmts.getLsbD j = true
  built : (s.channels c).built = true →
    (s.channels c).builtFor.srcfmt ||| (s.channels c).builtFor.dstfmt = fmts.srcfmt ||| fmts.dstfmt
  same : (s.channels c).built = true → ∀ i j k l, fmts = pair i j → (s.channels c).builtFor = pair k l →
    (i = k ∧ j = l) ∨ (i = l ∧ j = k)

theorem shared_single {m : BitVec 32} {i : Fin 32} (shared : m &&& BitVec.twoPow 32 i ≠ 0) :
    m.getLsbD i = true := by
  by_contra off
  apply shared
  rw [BitVec.and_twoPow, if_neg off]
  rfl

theorem pair_bits (i j x : Fin 32) :
    ((pair i j).srcfmt ||| (pair i j).dstfmt).getLsbD x = (decide (x = i) || decide (x = j)) := by
  simp only [pair, BitVec.getLsbD_or, BitVec.getLsbD_twoPow, i.isLt, j.isLt, decide_true, Bool.true_and,
    Fin.ext_iff]
  congr 1 <;> exact decide_eq_decide.mpr eq_comm

theorem pair_word {i j k l : Fin 32}
    (same : (pair i j).srcfmt ||| (pair i j).dstfmt = (pair k l).srcfmt ||| (pair k l).dstfmt) :
    (i = k ∧ j = l) ∨ (i = l ∧ j = k) := by
  have bits (x : Fin 32) : (x = i ∨ x = j) ↔ (x = k ∨ x = l) := by
    have here := congrArg (fun w => w.getLsbD x) same
    simp only [pair_bits] at here
    rw [Bool.eq_iff_iff, Bool.or_eq_true, Bool.or_eq_true] at here
    simpa only [decide_eq_true_eq] using here
  have first := (bits i).mp (Or.inl rfl)
  have second := (bits j).mp (Or.inr rfl)
  have third := (bits k).mpr (Or.inl rfl)
  have fourth := (bits l).mpr (Or.inr rfl)
  grind

variable {config : Nat → Transcoder} {s s' : State} {f : Nat} {c : Nat × Nat}

theorem found_granted {fmts : Formats} (owned : Owned config s)
    (found : findFreeChannel config s fmts false s.activeList = .ok c) : Granted config s c fmts := by
  obtain ⟨listed, able, free⟩ := find_free_spec found
  simp only [supports, Bool.and_eq_true, decide_eq_true_eq] at able
  simp only [available, Bool.and_eq_true, Bool.or_eq_true, Bool.not_eq_true', decide_eq_true_eq] at free
  have word (built : (s.channels c).built = true) :
      (s.channels c).builtFor.srcfmt ||| (s.channels c).builtFor.dstfmt = fmts.srcfmt ||| fmts.dstfmt := by
    rcases free.2 with unbuilt | same
    · rw [built] at unbuilt
      simp at unbuilt
    · rw [same, owned.recorded c built]
  refine ⟨free.1, owned.registered.mem_iff.mp listed, ⟨able.2, able.1⟩, ?_, word, ?_⟩
  · intro i j one
    rw [one] at able
    exact ⟨shared_single able.2, shared_single able.1⟩
  · intro built i j k l one two
    have same := word built
    rw [one, two] at same
    exact pair_word same.symm

/-- Only an allocation hands out a channel. -/
theorem handed_granted {op : Op} {r : Result} (owned : Owned config s)
    (done : step config s op = some (s', r)) (handed : HandedOut s s' f c) :
    ∃ fmts released module_ allocated, op = .allocate f (some fmts) released module_ allocated ∧
      requested s' c = fmts ∧ Granted config s c fmts := by
  obtain ⟨now, before⟩ := handed
  cases op with
  | register tc =>
    simp only [step, transcoderRegister] at done
    split at done
    · simp at done
    · obtain rfl := (congrArg Prod.fst (Option.some.inj done)).symm
      exact absurd now before
  | unregister tc =>
    obtain rfl := (congrArg Prod.fst (Option.some.inj done)).symm
    unfold transcoderUnregister at now
    split at now
    · exact absurd now before
    · exact absurd now before
  | open_ f' nonblock =>
    simp only [step] at done
    split at done
    · simp at done
    · obtain rfl := (congrArg Prod.fst (Option.some.inj done)).symm
      rw [tcOpen, holds_file] at now
      obtain ⟨_, kept, _⟩ := holder_elsewhere owned.settled now (by simp)
      exact absurd kept before
  | allocate f' fmts released module_ allocated =>
    simp only [step] at done
    split at done
    · simp at done
    · obtain rfl := (congrArg Prod.fst (Option.some.inj done)).symm
      exact absurd now before
    · rename_i file fmts open_
      obtain rfl := (congrArg Prod.fst (Option.some.inj done)).symm
      rcases allocate_spec open_ released module_ allocated with same | ⟨x, found, moved⟩
      · rw [same] at now
        exact absurd now before
      · have granted := found_granted owned found
        by_cases here : x = c
        · subst here
          have mine : f = f' := by
            by_contra apart
            rw [moved.held, Function.update_of_ne apart] at now
            exact before now
          subst mine
          exact ⟨fmts, released, module_, allocated, rfl, by rw [moved.asked, if_pos rfl], granted⟩
        · rw [moved.held] at now
          have other : some x ≠ some c := fun same => here (Option.some.inj same)
          exact absurd (holder_elsewhere owned.settled now other).2.1 before
  | release f' released =>
    simp only [step] at done
    split at done
    · simp at done
    · rename_i file open_
      obtain rfl := (congrArg Prod.fst (Option.some.inj done)).symm
      obtain ⟨kept, _⟩ := leave_kept config s file released
      have same : holds (leave config s file released) = holds s := by
        funext x
        rw [holds, holds, kept.files]
      rw [tcRelease, holds_file, same] at now
      exact absurd (holder_elsewhere owned.settled now (by simp)).2.1 before

end Grants

section Runs

def transcoders (config : Nat → Transcoder) : System State Op where
  start s := s = initial
  step s op s' := ∃ r, step config s op = some (s', r)

theorem owned_run {config : Nat → Transcoder} {s : State}
    (reached : Reach (transcoders config) anyStep s) : Owned config s := by
  apply @invariant_run _ _ _ _ (Owned config) _ _ s reached
  · intro s start
    rw [start]
    exact owned_initial config
  · rintro s op s' owned _ ⟨r, done⟩
    exact owned_step owned done

/-- The channels stay with their files, and every channel that a file gets suits its
    request. -/
theorem transcoder_ownership {config : Nat → Transcoder} {s : State}
    (reached : Reach (transcoders config) anyStep s) : Owned config s ∧
      ∀ op s' r f c, step config s op = some (s', r) → HandedOut s s' f c →
        ∃ fmts released module_ allocated, op = .allocate f (some fmts) released module_ allocated ∧
          requested s' c = fmts ∧ Granted config s c fmts := by
  have owned := owned_run reached
  refine ⟨owned, ?_⟩
  intro op s' r f c done handed
  exact handed_granted owned done handed

def runOps (config : Nat → Transcoder) : State → List Op → Option State
  | s, [] => some s
  | s, op :: ops =>
    match step config s op with
    | none => none
    | some (s, _) => runOps config s ops

theorem reach_ops {config : Nat → Transcoder} {s s' : State} {ops : List Op}
    (reached : Reach (transcoders config) anyStep s) (done : runOps config s ops = some s') :
    Reach (transcoders config) anyStep s' := by
  induction ops generalizing s with
  | nil =>
    rw [runOps, Option.some.injEq] at done
    rw [← done]
    exact reached
  | cons op ops ih =>
    rw [runOps] at done
    split at done
    · simp at done
    · rename_i t r moved
      exact ih (Reach.step reached trivial ⟨r, moved⟩) done

/-- An encoder and a decoder of one channel, as wctc4xxp registers them: G.729 is
    format 256 and G.723.1 format 1, mu-law 4 and A-law 8. -/
def codecs (tc : Nat) : Transcoder :=
  if tc = 0 then ⟨1, 12, 257, 1, true, true⟩ else ⟨1, 257, 12, 1, true, true⟩

/-- The driver builds the encoder and the decoder together, and keeps them as long as
    one of them is in use. -/
def together : Callback where
  result := 0
  built c := if c = (0, 0) then some ⟨4, 256⟩ else if c = (1, 0) then some ⟨256, 4⟩ else none

def sharedOps : List Op :=
  [.register 0, .register 1, .open_ 0 false, .open_ 1 false,
    .allocate 0 (some ⟨4, 256⟩) together true together,
    .allocate 1 (some ⟨256, 4⟩) together true together, .release 0 together, .open_ 2 false]

def sharedState : State := (runOps codecs initial sharedOps).getD initial

theorem shared_reached : Reach (transcoders codecs) anyStep sharedState := by
  have some_ : (runOps codecs initial sharedOps).isSome = true := by decide +kernel
  apply @reach_ops codecs initial sharedState sharedOps (Reach.start rfl)
  rw [sharedState]
  obtain ⟨s, done⟩ := Option.isSome_iff_exists.mp some_
  rw [done]
  rfl

theorem transcoder_ownership_shared : Owned codecs sharedState := (transcoder_ownership shared_reached).1

/-- A channel built for mu-law as its source, given to a file that asks for mu-law or
    G.729 as its source, which the transcoder does not take. -/
theorem source_not_supported : Reach (transcoders codecs) anyStep sharedState ∧
    ∃ s' r, step codecs sharedState (.allocate 2 (some ⟨260, 256⟩) together true together) = some (s', r) ∧
      HandedOut sharedState s' 2 (0, 0) ∧ (sharedState.channels (0, 0)).built = true ∧
        (sharedState.channels (0, 0)).builtFor = ⟨4, 256⟩ ∧ requested s' (0, 0) = ⟨260, 256⟩ ∧
          (codecs 0).srcfmts &&& 256 = 0 := by
  refine ⟨shared_reached, _, _, rfl, ?_⟩
  unfold HandedOut
  decide +kernel

end Runs

end TranscoderOwnership
