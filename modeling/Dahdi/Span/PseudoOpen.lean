import Dahdi.Span.Lookup

/-!
The opening of a pseudo channel: dahdi_open of dahdi-base.c through dahdi_alloc_pseudo,
which puts the channel on pseudo_chans, and dahdi_specchan_open, which may fail behind it;
and its release.
-/
namespace PseudoOpen
open SpanNumbers ChannelLookup

section Code

def DAHDI_SIG_CLEAR : BitVec 32 := 1 <<< 7
def __DAHDI_SIG_DACS : BitVec 32 := 1 <<< 16

def ENOMEM : Int := 12
def EBUSY : Int := 16
def ENXIO : Int := 6

/-- struct dahdi_chan, as far as dahdi_specchan_open looks at it. -/
structure Opened where
  addr : Nat
  sig : BitVec 32
  netdev : Bool
  master : Nat
  isOpen : Bool
  audio : Bool
  span : Bool
  file : Bool
  deriving DecidableEq

/-- What the kernel answers during an open: whether a timer can be opened and memory had,
    what initialize_channel returns, and what the driver of a span says. -/
structure Env where
  canOpenTimer : Bool
  mem : Bool
  initializeChannel : Int
  moduleGet : Bool
  opsOpen : Option Int
  maxPseudoChannels : Nat

/-- dahdi_specchan_open: its result and the channel afterwards. -/
def specchanOpen (env : Env) (chan : Opened) : Int × Opened :=
  if chan.sig ≠ 0 then
    if chan.netdev then (-EBUSY, chan)
    else if chan.master ≠ chan.addr then (-EBUSY, chan)
    else if chan.sig &&& __DAHDI_SIG_DACS = __DAHDI_SIG_DACS then (-EBUSY, chan)
    else if !chan.isOpen then
      if env.initializeChannel ≠ 0 then (env.initializeChannel, chan)
      else
        let chan := { chan with audio := if !chan.span then true else chan.audio }
        let res :=
          if chan.span then
            if !env.moduleGet then (- ENXIO)
            else env.opsOpen.getD 0
          else 0
        if res = 0 then (res, { chan with isOpen := true, file := true })
        else (res, chan)
    else (-EBUSY, chan)
  else (- ENXIO, chan)

/-- The channel that dahdi_alloc_pseudo fills in. -/
def newPseudo (addr : Nat) : Opened :=
  { addr, sig := DAHDI_SIG_CLEAR, netdev := false, master := addr, isOpen := false, audio := true,
    span := false, file := false }

def allocPseudo (env : Env) (addr : Nat) (s : State) : Option (Opened × State) :=
  if !env.canOpenTimer then none
  else if env.maxPseudoChannels ≤ s.pseudos.length then none
  else if !env.mem then none
  else (SpanNumbers.allocPseudo env.maxPseudoChannels s addr).map fun s => (newPseudo addr, s)

/-- dahdi_open of the pseudo device: the result, the channel of the file, the lists. -/
def openPseudo (env : Env) (addr : Nat) (s : State) : Int × Option Opened × State :=
  match allocPseudo env addr s with
  | none => (-ENOMEM, none, s)
  | some (chan, s) =>
    let opened := specchanOpen env chan
    (opened.1, some opened.2, s)

end Code

section Runs

/-- Opens with any answers of the kernel, the channel at a fresh address, and releases. -/
inductive Op where
  | opens (env : Env) (addr : Nat)
  | release (addr : Nat)

def next (s : State) : Op → Option State
  | .opens env addr => if addr ∈ s.pseudos.map Chan.addr then none else some (openPseudo env addr s).2.2
  | .release addr => if addr ∈ s.pseudos.map Chan.addr then some (freePseudo s addr) else none

def sys : GuardedRun.System State Op where
  start s := s.pseudos = []
  step s op s' := next s op = some s'

/-- dahdi_alloc_pseudo gives a channel. -/
def Allocates (env : Env) (s : State) : Prop :=
  env.canOpenTimer = true ∧ s.pseudos.length < env.maxPseudoChannels ∧ env.mem = true

/-- Not every number of a pseudo channel is taken. -/
def Room (s : State) : Prop := firstPseudoChannel + s.pseudos.length < 2 ^ 32

def roomy (s : State) : Op → Prop
  | .opens env _ => Allocates env s → Room s
  | .release _ => True

theorem alloc_refused {env : Env} {s : State} (refused : ¬ Allocates env s) (addr : Nat) :
    allocPseudo env addr s = none := by
  rw [allocPseudo]
  by_cases timer : env.canOpenTimer = true
  · by_cases room : s.pseudos.length < env.maxPseudoChannels
    · have noMem : env.mem = false := by
        rw [← Bool.not_eq_true]
        intro mem
        exact refused ⟨timer, room, mem⟩
      simp [noMem]
    · simp [Nat.le_of_not_lt room]
  · simp [timer]

theorem alloc_granted {env : Env} {s : State} (granted : Allocates env s) (addr : Nat) :
    allocPseudo env addr s =
      some (newPseudo addr, { s with pseudos := allocPseudoLoop addr s.pseudos firstPseudoChannel }) := by
  obtain ⟨timer, room, mem⟩ := granted
  rw [allocPseudo, SpanNumbers.allocPseudo]
  simp [timer, mem, Nat.not_le.mpr room]

/-- On a new pseudo channel nothing but initialize_channel can fail. -/
theorem new_open (env : Env) (addr : Nat) : (specchanOpen env (newPseudo addr)).1 = env.initializeChannel := by
  let chan := newPseudo addr
  have clear : chan.sig ≠ 0 := by
    have sig : DAHDI_SIG_CLEAR ≠ 0 := by decide
    exact sig
  have apart : ¬ chan.sig &&& __DAHDI_SIG_DACS = __DAHDI_SIG_DACS := by
    have sig : ¬ DAHDI_SIG_CLEAR &&& __DAHDI_SIG_DACS = __DAHDI_SIG_DACS := by decide
    exact sig
  have netdev : ¬ chan.netdev = true := Bool.false_ne_true
  have master : ¬ chan.master ≠ chan.addr := not_not.mpr rfl
  have closed : (!chan.isOpen) = true := rfl
  rw [specchanOpen, if_pos clear, if_neg netdev, if_neg master, if_neg apart, if_pos closed]
  split
  next => rfl
  next fine =>
    rw [ne_eq, not_not] at fine
    rw [fine]
    rfl

theorem open_refused {env : Env} {s : State} (refused : ¬ Allocates env s) (addr : Nat) :
    openPseudo env addr s = (-ENOMEM, none, s) := by
  rw [openPseudo, alloc_refused refused]

theorem open_granted {env : Env} {s : State} (granted : Allocates env s) (addr : Nat) :
    (openPseudo env addr s).1 = env.initializeChannel ∧
      (openPseudo env addr s).2.2 =
        { s with pseudos := allocPseudoLoop addr s.pseudos firstPseudoChannel } := by
  rw [openPseudo, alloc_granted granted]
  exact ⟨new_open env addr, rfl⟩

theorem alloc_perm (addr : Nat) (l : List Chan) (channo : Nat) :
    ∃ number, (allocPseudoLoop addr l channo).Perm (⟨addr, number⟩ :: l) := by
  induction l generalizing channo with
  | nil => exact ⟨_, List.Perm.refl _⟩
  | cons p rest ih =>
    rw [allocPseudoLoop]
    split
    next =>
      obtain ⟨number, same⟩ := ih (u32 (channo + 1))
      exact ⟨number, (same.cons p).trans (List.Perm.swap _ _ _)⟩
    next => exact ⟨_, List.Perm.refl _⟩

theorem free_from {s : State} (from_ : PseudosFrom firstPseudoChannel s.pseudos) (addr : Nat) :
    PseudosFrom firstPseudoChannel (freePseudo s addr).pseudos :=
  ⟨fun c member => from_.above c (List.mem_of_mem_filter member), from_.ordered.sublist List.filter_sublist⟩

theorem open_from {env : Env} {s : State} (from_ : PseudosFrom firstPseudoChannel s.pseudos)
    (room : Allocates env s → Room s) (addr : Nat) :
    PseudosFrom firstPseudoChannel (openPseudo env addr s).2.2.pseudos := by
  by_cases granted : Allocates env s
  · rw [(open_granted granted addr).2]
    exact alloc_pseudo_from from_ (room granted)
  · rw [open_refused granted]
    exact from_

theorem reached_from {s : State} (reached : GuardedRun.Reach sys roomy s) :
    PseudosFrom firstPseudoChannel s.pseudos := by
  refine @GuardedRun.invariant_run _ _ sys roomy (fun s => PseudosFrom firstPseudoChannel s.pseudos) ?_ ?_ s reached
  · intro s begins
    have none : s.pseudos = [] := begins
    rw [none]
    exact ⟨fun c member => absurd member List.not_mem_nil, List.Pairwise.nil⟩
  · intro s op s' from_ fair moved
    have moved : next s op = some s' := moved
    cases op with
    | opens env addr =>
      rw [next] at moved
      split at moved
      next => cases moved
      next =>
        rw [← Option.some.inj moved]
        exact open_from from_ fair addr
    | release addr =>
      rw [next] at moved
      split at moved
      next =>
        rw [← Option.some.inj moved]
        exact free_from from_ addr
      next => cases moved

end Runs

section Results

/-- An open that fails leaves the lists and the used numbers; one that succeeds takes a
    number that was free, from the first pseudo number on, and keeps the list sorted. -/
def NoEffect (env : Env) (addr : Nat) (s : State) : Prop :=
  let after := openPseudo env addr s
  (after.1 ≠ 0 → after.2.2 = s) ∧
    (after.1 = 0 → ∃ channo, after.2.2.pseudos.Perm (⟨addr, channo⟩ :: s.pseudos) ∧
      (∀ c ∈ s.pseudos, u32 c.channo ≠ u32 channo) ∧ firstPseudoChannel ≤ u32 channo ∧
      after.2.2.pseudos.Pairwise fun c d => u32 c.channo < u32 d.channo)

theorem numbers_apart {l : List Chan} (ordered : l.Pairwise fun c d => u32 c.channo < u32 d.channo) :
    (l.map fun c => u32 c.channo).Nodup :=
  List.pairwise_map.mpr (ordered.imp Nat.ne_of_lt)

theorem pseudos_few {l : List Chan} (from_ : PseudosFrom firstPseudoChannel l) :
    firstPseudoChannel + l.length ≤ 2 ^ 32 := by
  have apart := numbers_apart from_.ordered
  have inside : (l.map fun c => u32 c.channo) ⊆ List.range' firstPseudoChannel (2 ^ 32 - firstPseudoChannel) := by
    intro n member
    obtain ⟨c, old, rfl⟩ := List.mem_map.mp member
    have above := from_.above c old
    have below := u32_lt c.channo
    rw [List.mem_range'_1]
    omega
  have few := (List.subperm_of_subset apart inside).length_le
  rw [List.length_map, List.length_range'] at few
  have low : firstPseudoChannel ≤ 2 ^ 32 := by decide
  omega

/-- From a run without a want of numbers, an open has no effect when it fails and the right
    one when it does not, unless a channel was allocated and initialize_channel fails, or
    there was no number left for it. -/
theorem failed_open {s : State} (reached : GuardedRun.Reach sys roomy s) (env : Env) (addr : Nat) :
    NoEffect env addr s ↔ ¬ (Allocates env s ∧ (env.initializeChannel ≠ 0 ∨ ¬ Room s)) := by
  have from_ := reached_from reached
  rw [NoEffect]
  by_cases granted : Allocates env s
  · obtain ⟨result, lists⟩ := open_granted granted addr
    obtain ⟨number, same⟩ := alloc_perm addr s.pseudos firstPseudoChannel
    have longer := same.length_eq
    rw [List.length_cons] at longer
    rw [result, lists]
    constructor
    · rintro ⟨unchanged, right⟩ ⟨-, bad⟩
      by_cases fine : env.initializeChannel = 0
      · have full := bad.resolve_left (not_not.mpr fine)
        obtain ⟨channo, perm, -, low, ordered⟩ := right fine
        have few := pseudos_few ⟨fun c member => by
          rcases List.mem_cons.mp (perm.mem_iff.mp member) with new | old
          · rw [new]
            exact low
          · exact from_.above c old, ordered⟩
        rw [longer] at few
        rw [Room] at full
        omega
      · have shorter := congrArg (fun t : State => t.pseudos.length) (unchanged fine)
        dsimp only at shorter
        omega
    · intro good
      have fine : env.initializeChannel = 0 := by
        by_contra failed
        exact good ⟨granted, .inl failed⟩
      have room : Room s := by
        by_contra full
        exact good ⟨granted, .inr full⟩
      obtain ⟨above, ordered⟩ := @alloc_pseudo_from addr _ _ from_ room
      refine ⟨fun failed => absurd fine failed, fun _ => ⟨number, same, ?_, ?_, ordered⟩⟩
      · have apart := (same.map fun c : Chan => u32 c.channo).nodup_iff.mp (numbers_apart ordered)
        rw [List.map_cons, List.nodup_cons] at apart
        intro c member equal
        exact apart.1 (List.mem_map.mpr ⟨c, member, equal⟩)
      · exact above _ (same.mem_iff.mpr List.mem_cons_self)
  · rw [open_refused granted]
    constructor
    · rintro - ⟨allocated, -⟩
      exact granted allocated
    · intro _
      have failed : ¬ -ENOMEM = 0 := by decide
      exact ⟨fun _ => rfl, fun zero => absurd zero failed⟩

/-- Everything is granted; initialize_channel returns res. -/
def granting (res : Int) : Env := ⟨true, true, res, true, none, 512⟩

/-- The middle one of three pseudo channels was closed. -/
def withGap : State := ⟨[], [⟨1, 0x8000⟩, ⟨3, 0x8002⟩]⟩

def gapRun : List Op :=
  [.opens (granting 0) 1, .opens (granting 0) 2, .opens (granting 0) 3, .release 2]

instance (s : State) : Decidable (Room s) := inferInstanceAs (Decidable (firstPseudoChannel + s.pseudos.length < 2 ^ 32))

instance (env : Env) (s : State) : Decidable (Allocates env s) :=
  inferInstanceAs (Decidable (env.canOpenTimer = true ∧ s.pseudos.length < env.maxPseudoChannels ∧ env.mem = true))

instance (s : State) (op : Op) : Decidable (roomy s op) :=
  match op with
  | .opens env _ => inferInstanceAs (Decidable (Allocates env s → Room s))
  | .release _ => isTrue trivial

theorem gap_reached : GuardedRun.Reach sys roomy withGap :=
  @GuardedRun.follow_reach _ _ sys next roomy _ (fun _ _ _ moved => moved) gapRun ⟨[], []⟩ withGap
    (.start rfl) (by decide +kernel)

theorem gap_filled : NoEffect (granting 0) 2 withGap :=
  (failed_open gap_reached (granting 0) 2).mpr (by decide +kernel)

/-- With no memory for its buffers the open fails, and the channel stays. -/
theorem channel_left :
    ¬ ∀ s : State, GuardedRun.Reach sys roomy s → ∀ (env : Env) (addr : Nat), NoEffect env addr s := by
  intro all
  have fine := all withGap gap_reached (granting (-ENOMEM)) 2
  have unchanged := fine.1 (by decide)
  exact absurd unchanged (by decide +kernel)

end Results

end PseudoOpen
