import Dahdi.Library.GuardedRun
import Dahdi.Library.PairedEnds

/-!
Mirrored channels: RXMIRROR, TXMIRROR and the release of a channel. A mirror knows the
channel it mirrors, and that one the mirrors of its two directions.
-/
namespace Mirror
open PairedEnds GuardedRun
variable {T : Type} [DecidableEq T]

structure Chan (T : Type) where
  rxmirror : Option T
  txmirror : Option T
  srcmirror : Option T
  flags : BitVec 64
  sig : BitVec 32

/-- A registered channel is found by its number; an opened one is the `private_data`
    of a file. -/
structure State (T : Type) where
  chan : T → Chan T
  registered : T → Bool
  opened : T → Bool

inductive Result where
  | ok
  | enodev
  | einval
  | efault

def setChan (s : State T) (c : T) (v : Chan T) : State T :=
  { s with chan := Function.update s.chan c v }

def flagbitOpen : BitVec 64 := 1 <<< 10

/-- The channel becomes a mirror of `src`. -/
def follow (s : State T) (chan src : T) : State T :=
  setChan s chan { s.chan chan with
    srcmirror := some src, flags := (s.chan src).flags &&& ~~~flagbitOpen, sig := (s.chan src).sig }

def setRxmirror (s : State T) (src : T) (held : Option T) : State T :=
  setChan s src { s.chan src with rxmirror := held }

def setTxmirror (s : State T) (src : T) (held : Option T) : State T :=
  setChan s src { s.chan src with txmirror := held }

/-- `found` is the channel of the number given. -/
def ioctlRxmirror (s : State T) (chan : T) (found : Option T) : State T × Result :=
  if (s.chan chan).srcmirror.isSome then (s, .enodev)
  else match found with
    | none => (s, .einval)
    | some src =>
      let s := if (s.chan src).rxmirror = none then setRxmirror s src (some chan) else s
      if (s.chan src).rxmirror ≠ some chan then (s, .efault)
      else (follow s chan src, .ok)

def ioctlTxmirror (s : State T) (chan : T) (found : Option T) : State T × Result :=
  if (s.chan chan).srcmirror.isSome then (s, .enodev)
  else match found with
    | none => (s, .einval)
    | some src =>
      let s := setTxmirror s src (some chan)
      let s := if (s.chan src).txmirror = none then setTxmirror s src (some chan) else s
      if (s.chan src).txmirror ≠ some chan then (s, .efault)
      else (follow s chan src, .ok)

/-- The mirrored channel lets go of this mirror. -/
def unmirror (s : State T) (chan src : T) : State T :=
  let s := if (s.chan src).txmirror = some chan then setTxmirror s src none else s
  if (s.chan src).rxmirror = some chan then setRxmirror s src none else s

def unfollow (s : State T) (chan : T) : State T :=
  setChan s chan { s.chan chan with
    srcmirror := none, flags := (s.chan chan).flags &&& ~~~flagbitOpen }

def letGo (s : State T) (chan : T) : State T :=
  match (s.chan chan).srcmirror with
  | some src => unfollow (unmirror s chan src) chan
  | none => unfollow s chan

/-- `dahdi_specchan_release`, and `dahdi_free_pseudo` for a pseudo channel. -/
def release (pseudo : T → Bool) (s : State T) (chan : T) : State T where
  chan := (letGo s chan).chan
  opened := Function.update s.opened chan false
  registered := if pseudo chan then Function.update s.registered chan false else s.registered

def flagAudio : BitVec 64 := 1 <<< 9

def sigClear : BitVec 32 := 1 <<< 7

/-- The channel's file is opened; a pseudo channel is made for it. -/
def opens (pseudo : T → Bool) (s : State T) (chan : T) : State T :=
  let v := if pseudo chan then ⟨none, none, none, flagAudio, sigClear⟩ else s.chan chan
  { chan := Function.update s.chan chan { v with flags := v.flags ||| flagbitOpen }
    opened := Function.update s.opened chan true
    registered := Function.update s.registered chan true }

inductive Label (T : Type) where
  | opens (chan : T)
  | rxmirror (chan : T) (found : Option T)
  | txmirror (chan : T) (found : Option T)
  | release (chan : T)

def Found (s : State T) (found : Option T) : Prop := ∀ src ∈ found, s.registered src

instance (s : State T) (found : Option T) : Decidable (Found s found) :=
  inferInstanceAs (Decidable (∀ src ∈ found, _))

def next (pseudo : T → Bool) (s : State T) : Label T → Option (State T)
  | .opens chan => if s.opened chan = false then some (opens pseudo s chan) else none
  | .rxmirror chan found =>
    if s.opened chan ∧ Found s found then some (ioctlRxmirror s chan found).1 else none
  | .txmirror chan found =>
    if s.opened chan ∧ Found s found then some (ioctlTxmirror s chan found).1 else none
  | .release chan => if s.opened chan then some (release pseudo s chan) else none

/-- The channels of the spans are registered and closed, and nothing is mirrored. -/
def Start (pseudo : T → Bool) (s : State T) : Prop :=
  ∀ c, (s.chan c).rxmirror = none ∧ (s.chan c).txmirror = none ∧ (s.chan c).srcmirror = none ∧
    s.opened c = false ∧ s.registered c = !pseudo c

def mirrors (pseudo : T → Bool) : System (State T) (Label T) where
  start := Start pseudo
  step := fun s l s' => next pseudo s l = some s'

end Mirror

/-!
Both ends of a mirroring agree, as long as no mirror takes the place of another and no
pseudo channel is closed under its mirrors.
-/
namespace Mirror
open PairedEnds GuardedRun
variable {T : Type} [DecidableEq T]

/-- A channel mirrors the one that has it as the mirror of one direction, mirrors are
    open, and what is mirrored is still there. -/
def PairedUp (s : State T) : Prop :=
  (∀ c m, s.registered c → s.registered m → ((s.chan c).srcmirror = some m ↔
    Xor ((s.chan m).rxmirror = some c) ((s.chan m).txmirror = some c))) ∧
  (∀ c m, s.registered m → (s.chan m).rxmirror = some c ∨ (s.chan m).txmirror = some c →
    s.opened c) ∧
  ∀ c m, s.registered c → (s.chan c).srcmirror = some m → s.registered m

def Own (held : Option T) (c : T) : Prop := held = none ∨ held = some c

instance (held : Option T) (c : T) : Decidable (Own held c) := inferInstanceAs (Decidable (_ ∨ _))

/-- TXMIRROR finds no other mirror in place, and a pseudo channel that is closed is
    mirrored by no other. -/
def Exclusive (pseudo : T → Bool) (s : State T) : Label T → Prop
  | .txmirror chan found => (s.chan chan).srcmirror = none →
      ∀ src ∈ found, (s.chan src).txmirror = none
  | .release chan => pseudo chan →
      Own (s.chan chan).rxmirror chan ∧ Own (s.chan chan).txmirror chan
  | _ => True

instance (pseudo : T → Bool) (s : State T) (l : Label T) : Decidable (Exclusive pseudo s l) :=
  match l with
  | .opens _ => inferInstanceAs (Decidable True)
  | .rxmirror _ _ => inferInstanceAs (Decidable True)
  | .txmirror chan found => inferInstanceAs (Decidable ((s.chan chan).srcmirror = none →
      ∀ src ∈ found, (s.chan src).txmirror = none))
  | .release _ => inferInstanceAs (Decidable (_ → _ ∧ _))

def rxOf (s : State T) (c : T) : Option T := (s.chan c).rxmirror

def txOf (s : State T) (c : T) : Option T := (s.chan c).txmirror

def srcOf (s : State T) (c : T) : Option T := (s.chan c).srcmirror

structure Kept (pseudo : T → Bool) (s : State T) : Prop where
  paired : Paired (srcOf s) (rxOf s) (txOf s)
  held : ∀ c m, srcOf s c = some m → s.opened c ∧ s.registered m
  there : ∀ c, s.opened c → s.registered c
  own : ∀ c, pseudo c → s.registered c → s.opened c

theorem kept_paired {pseudo : T → Bool} {s : State T} (kept : Kept pseudo s) : PairedUp s := by
  refine ⟨?_, ?_, ?_⟩
  · intro c m _ _
    exact paired_xor kept.paired c m
  · intro c m _ either
    exact (kept.held c m ((kept.paired.either c m).mpr either)).1
  · intro c m _ follows
    exact (kept.held c m follows).2

section fields
variable {s : State T} {c m : T} {v : Chan T}

theorem rx_set : rxOf (setChan s c v) = Function.update (rxOf s) c v.rxmirror := by
  funext d
  by_cases same : d = c
  · simp only [same, rxOf, setChan, Function.update_self]
  · simp only [rxOf, setChan, Function.update_of_ne same]

theorem tx_set : txOf (setChan s c v) = Function.update (txOf s) c v.txmirror := by
  funext d
  by_cases same : d = c
  · simp only [same, txOf, setChan, Function.update_self]
  · simp only [txOf, setChan, Function.update_of_ne same]

theorem src_set : srcOf (setChan s c v) = Function.update (srcOf s) c v.srcmirror := by
  funext d
  by_cases same : d = c
  · simp only [same, srcOf, setChan, Function.update_self]
  · simp only [srcOf, setChan, Function.update_of_ne same]

theorem follow_ends : srcOf (follow s c m) = Function.update (srcOf s) c (some m) ∧
    rxOf (follow s c m) = rxOf s ∧ txOf (follow s c m) = txOf s :=
  ⟨src_set, rx_set.trans (Function.update_eq_self c (rxOf s)),
    tx_set.trans (Function.update_eq_self c (txOf s))⟩

theorem unfollow_ends : srcOf (unfollow s c) = Function.update (srcOf s) c none ∧
    rxOf (unfollow s c) = rxOf s ∧ txOf (unfollow s c) = txOf s :=
  ⟨src_set, rx_set.trans (Function.update_eq_self c (rxOf s)),
    tx_set.trans (Function.update_eq_self c (txOf s))⟩

theorem setRx_ends {held : Option T} : srcOf (setRxmirror s m held) = srcOf s ∧
    rxOf (setRxmirror s m held) = Function.update (rxOf s) m held ∧
    txOf (setRxmirror s m held) = txOf s :=
  ⟨src_set.trans (Function.update_eq_self m (srcOf s)), rx_set,
    tx_set.trans (Function.update_eq_self m (txOf s))⟩

theorem setTx_ends {held : Option T} : srcOf (setTxmirror s m held) = srcOf s ∧
    rxOf (setTxmirror s m held) = rxOf s ∧
    txOf (setTxmirror s m held) = Function.update (txOf s) m held :=
  ⟨src_set.trans (Function.update_eq_self m (srcOf s)),
    rx_set.trans (Function.update_eq_self m (rxOf s)), tx_set⟩

/-- The source lets go of the mirror in both directions. -/
theorem unmirror_ends : srcOf (unmirror s c m) = srcOf s ∧
    rxOf (unmirror s c m) = Function.update (rxOf s) m (without (rxOf s m) c) ∧
    txOf (unmirror s c m) = Function.update (txOf s) m (without (txOf s m) c) := by
  have first : ∃ middle, middle = (if (s.chan m).txmirror = some c then setTxmirror s m none else s) ∧
      srcOf middle = srcOf s ∧ rxOf middle = rxOf s ∧
      txOf middle = Function.update (txOf s) m (without (txOf s m) c) := by
    refine ⟨_, rfl, ?_⟩
    by_cases own : (s.chan m).txmirror = some c
    · rw [if_pos own, without, txOf, if_pos own]
      exact setTx_ends
    · rw [if_neg own, without, txOf, if_neg own]
      exact ⟨rfl, rfl, (Function.update_eq_self m (txOf s)).symm⟩
  obtain ⟨middle, same, src, rx, tx⟩ := first
  rw [unmirror, ← same, ← src, ← rx, ← tx]
  by_cases own : (middle.chan m).rxmirror = some c
  · rw [if_pos own, without, rxOf, if_pos own]
    exact setRx_ends
  · rw [if_neg own, without, rxOf, if_neg own]
    exact ⟨rfl, (Function.update_eq_self m (rxOf middle)).symm, rfl⟩

end fields

section steps
variable {pseudo : T → Bool} {s s' : State T} {c : T}

/-- An open channel without a source becomes a mirror of a registered one. -/
theorem kept_follow (kept : Kept pseudo s) (open_ : s.opened c) {m : T} (found : s.registered m)
    (paired : Paired (Function.update (srcOf s) c (some m)) (rxOf s') (txOf s'))
    (src : srcOf s' = srcOf s) (opened : s'.opened = s.opened)
    (registered : s'.registered = s.registered) : Kept pseudo (follow s' c m) := by
  obtain ⟨follows, rx, tx⟩ := @follow_ends _ _ s' c m
  constructor
  · rw [follows, rx, tx, src]
    exact paired
  · intro d n held
    change s'.opened d = true ∧ s'.registered n = true
    rw [opened, registered]
    rw [follows, src] at held
    by_cases same : d = c
    · rw [same, Function.update_self] at held
      rw [same, ← Option.some.inj held]
      exact ⟨open_, found⟩
    · rw [Function.update_of_ne same] at held
      exact kept.held d n held
  · intro d
    change s'.opened d = true → s'.registered d = true
    rw [opened, registered]
    exact kept.there d
  · intro d
    change _ → s'.registered d = true → s'.opened d = true
    rw [opened, registered]
    exact kept.own d

theorem kept_rxmirror (kept : Kept pseudo s) (open_ : s.opened c) {found : Option T}
    (there : Found s found) : Kept pseudo (ioctlRxmirror s c found).1 := by
  simp only [ioctlRxmirror.eq_def]
  split
  case isTrue => exact kept
  case isFalse free =>
    cases found with
    | none => exact kept
    | some m =>
      have free : srcOf s c = none := Option.not_isSome_iff_eq_none.mp free
      have registered := there m rfl
      have apart : rxOf s m ≠ some c := by
        intro held
        have follows := (kept.paired.either c m).mpr (Or.inl held)
        rw [free] at follows
        cases follows
      by_cases empty : rxOf s m = none
      · obtain ⟨src, rx, tx⟩ := @setRx_ends _ _ s m (some c)
        have taken : (setRxmirror s m (some c)).chan m = { s.chan m with rxmirror := some c } :=
          Function.update_self ..
        simp only [if_pos (show (s.chan m).rxmirror = none from empty), taken, ne_eq,
          not_true_eq_false, if_false]
        apply kept_follow kept open_ registered
        · rw [rx, tx]
          exact paired_take kept.paired free empty
        · exact src
        · rfl
        · rfl
      · simp only [if_neg (show ¬ (s.chan m).rxmirror = none from empty)]
        rw [if_pos (show (s.chan m).rxmirror ≠ some c from apart)]
        exact kept

theorem kept_txmirror (kept : Kept pseudo s) (open_ : s.opened c) {found : Option T}
    (there : Found s found) (guard : Exclusive pseudo s (.txmirror c found)) :
    Kept pseudo (ioctlTxmirror s c found).1 := by
  simp only [ioctlTxmirror.eq_def]
  split
  case isTrue => exact kept
  case isFalse free =>
    cases found with
    | none => exact kept
    | some m =>
      have free : srcOf s c = none := Option.not_isSome_iff_eq_none.mp free
      have empty : txOf s m = none := guard free m rfl
      obtain ⟨src, rx, tx⟩ := @setTx_ends _ _ s m (some c)
      have taken : (setTxmirror s m (some c)).chan m = { s.chan m with txmirror := some c } :=
        Function.update_self ..
      simp only [taken, reduceCtorEq, if_false, ne_eq, not_true_eq_false]
      apply kept_follow kept open_ (there m rfl)
      · rw [rx, tx]
        exact paired_swap (paired_take (paired_swap kept.paired) free empty)
      · exact src
      · rfl
      · rfl

/-- The channel lets go of what it mirrors. -/
theorem letGo_paired (paired : Paired (srcOf s) (rxOf s) (txOf s)) :
    srcOf (letGo s c) = Function.update (srcOf s) c none ∧
    Paired (srcOf (letGo s c)) (rxOf (letGo s c)) (txOf (letGo s c)) := by
  rw [letGo]
  cases held : (s.chan c).srcmirror with
  | none =>
    have free : Function.update (srcOf s) c none = srcOf s :=
      Function.update_eq_self_iff.mpr held.symm
    obtain ⟨src, rx, tx⟩ := @unfollow_ends _ _ s c
    rw [src, rx, tx, free]
    exact ⟨rfl, paired⟩
  | some m =>
    obtain ⟨src, rx, tx⟩ := @unfollow_ends _ _ (unmirror s c m) c
    obtain ⟨src', rx', tx'⟩ := @unmirror_ends _ _ s c m
    simp only [src, rx, tx, src', rx', tx', true_and]
    exact paired_leave paired held

theorem kept_release (kept : Kept pseudo s) (guard : Exclusive pseudo s (.release c)) :
    Kept pseudo (release pseudo s c) := by
  obtain ⟨src, paired⟩ := @letGo_paired _ _ s c kept.paired
  have src : srcOf (release pseudo s c) = Function.update (srcOf s) c none := src
  have opened : (release pseudo s c).opened = Function.update s.opened c false := rfl
  have registered : (release pseudo s c).registered =
    if pseudo c then Function.update s.registered c false else s.registered := rfl
  have stays {d : T} (other : d ≠ c) : (release pseudo s c).registered d = s.registered d := by
    rw [registered]
    split
    case isTrue => rw [Function.update_of_ne other]
    case isFalse => rfl
  refine ⟨paired, ?_, ?_, ?_⟩
  · intro d n held
    rw [src] at held
    have other : d ≠ c := by
      rintro rfl
      rw [Function.update_self] at held
      cases held
    rw [Function.update_of_ne other] at held
    obtain ⟨open_, there⟩ := kept.held d n held
    rw [opened, Function.update_of_ne other]
    refine ⟨open_, ?_⟩
    by_cases same : n = c
    · rw [registered, if_neg]
      · exact there
      · intro made
        obtain ⟨rx, tx⟩ := guard made
        have mirrored := (kept.paired.either d n).mp held
        rw [same] at mirrored
        rcases mirrored with either | either
        · rcases rx with none | own
          · cases none.symm.trans either
          · exact other (Option.some.inj (own.symm.trans either)).symm
        · rcases tx with none | own
          · cases none.symm.trans either
          · exact other (Option.some.inj (own.symm.trans either)).symm
    · rw [stays same]
      exact there
  · intro d open_
    rw [opened] at open_
    have other : d ≠ c := by
      rintro rfl
      rw [Function.update_self] at open_
      cases open_
    rw [Function.update_of_ne other] at open_
    rw [stays other]
    exact kept.there d open_
  · intro d made there
    have other : d ≠ c := by
      rintro rfl
      rw [registered, if_pos made, Function.update_self] at there
      cases there
    rw [stays other] at there
    rw [opened, Function.update_of_ne other]
    exact kept.own d made there

/-- A channel that is closed has no mirror of its own when it is a pseudo channel. -/
theorem kept_opens (kept : Kept pseudo s) (shut : s.opened c = false) :
    Kept pseudo (opens pseudo s c) := by
  have free : srcOf s c = none := by
    cases held : srcOf s c with
    | none => rfl
    | some m =>
      rw [(kept.held c m held).1] at shut
      cases shut
  have gone (made : pseudo c = true) : s.registered c = false := by
    cases there : s.registered c with
    | false => rfl
    | true =>
      rw [kept.own c made there] at shut
      cases shut
  have blank (made : pseudo c = true) : rxOf s c = none ∧ txOf s c = none := by
    have none_ : ∀ d, ¬ (rxOf s c = some d ∨ txOf s c = some d) := by
      intro d either
      have there := (kept.held d c ((kept.paired.either d c).mpr either)).2
      rw [gone made] at there
      cases there
    constructor
    · exact Option.eq_none_iff_forall_ne_some.mpr fun d held => none_ d (Or.inl held)
    · exact Option.eq_none_iff_forall_ne_some.mpr fun d held => none_ d (Or.inr held)
  have same : srcOf (opens pseudo s c) = srcOf s ∧ rxOf (opens pseudo s c) = rxOf s ∧
      txOf (opens pseudo s c) = txOf s := by
    refine ⟨src_set.trans ?_, rx_set.trans ?_, tx_set.trans ?_⟩
    · apply Function.update_eq_self_iff.mpr
      cases made : pseudo c with
      | true => exact free.symm
      | false => rfl
    · apply Function.update_eq_self_iff.mpr
      cases made : pseudo c with
      | true => exact (blank made).1.symm
      | false => rfl
    · apply Function.update_eq_self_iff.mpr
      cases made : pseudo c with
      | true => exact (blank made).2.symm
      | false => rfl
  obtain ⟨src, rx, tx⟩ := same
  constructor
  · rw [src, rx, tx]
    exact kept.paired
  · intro d n held
    rw [src] at held
    obtain ⟨open_, there⟩ := kept.held d n held
    constructor
    · by_cases it : d = c
      · rw [it]
        exact Function.update_self ..
      · exact (Function.update_of_ne it ..).trans open_
    · by_cases it : n = c
      · rw [it]
        exact Function.update_self ..
      · exact (Function.update_of_ne it ..).trans there
  · intro d open_
    by_cases it : d = c
    · rw [it]
      exact Function.update_self ..
    · have before : s.opened d = true := (Function.update_of_ne it ..).symm.trans open_
      exact (Function.update_of_ne it ..).trans (kept.there d before)
  · intro d made there
    by_cases it : d = c
    · rw [it]
      exact Function.update_self ..
    · have before : s.registered d = true := (Function.update_of_ne it ..).symm.trans there
      exact (Function.update_of_ne it ..).trans (kept.own d made before)

theorem kept_step {l : Label T} (kept : Kept pseudo s) (guard : Exclusive pseudo s l)
    (moved : next pseudo s l = some s') : Kept pseudo s' := by
  cases l with
  | opens chan =>
    obtain ⟨shut, same⟩ := Option.ite_none_right_eq_some.mp moved
    rw [← Option.some.inj same]
    exact kept_opens kept shut
  | rxmirror chan found =>
    obtain ⟨⟨open_, there⟩, same⟩ := Option.ite_none_right_eq_some.mp moved
    rw [← Option.some.inj same]
    exact kept_rxmirror kept open_ there
  | txmirror chan found =>
    obtain ⟨⟨open_, there⟩, same⟩ := Option.ite_none_right_eq_some.mp moved
    rw [← Option.some.inj same]
    exact kept_txmirror kept open_ there guard
  | release chan =>
    obtain ⟨_, same⟩ := Option.ite_none_right_eq_some.mp moved
    rw [← Option.some.inj same]
    exact kept_release kept guard

theorem kept_start (start : Start pseudo s) : Kept pseudo s := by
  have rx : rxOf s = fun _ => none := funext fun c => (start c).1
  have tx : txOf s = fun _ => none := funext fun c => (start c).2.1
  have src : srcOf s = fun _ => none := funext fun c => (start c).2.2.1
  constructor
  · rw [rx, tx, src]
    exact paired_none
  · intro c m held
    rw [src] at held
    cases held
  · intro c open_
    rw [(start c).2.2.2.1] at open_
    cases open_
  · intro c made there
    rw [(start c).2.2.2.2, made] at there
    cases there

end steps

theorem mirrors_paired (pseudo : T → Bool) (s : State T)
    (reached : Reach (mirrors pseudo) (Exclusive pseudo) s) : PairedUp s := by
  apply kept_paired
  apply @invariant_run _ _ (mirrors pseudo) (Exclusive pseudo) (Kept pseudo)
  · intro s start
    exact kept_start start
  · intro s l s' kept guard moved
    exact kept_step kept guard moved
  · exact reached

/-- Channels 1 and 2 of a span, and pseudo channels from 10 on. -/
def made (c : Nat) : Bool := decide (10 ≤ c)

def quiet : State Nat where
  chan := fun _ => ⟨none, none, none, 0, 0⟩
  registered := fun c => !made c
  opened := fun _ => false

theorem quiet_start : Start made quiet := fun _ => ⟨rfl, rfl, rfl, rfl, rfl⟩

/-- Both directions of a channel are mirrored, by two channels; one closes and the other
    direction of another channel takes its place. -/
def listening : List (Label Nat) :=
  [.opens 10, .opens 11, .rxmirror 10 (some 1), .txmirror 11 (some 1), .rxmirror 11 (some 2),
    .release 10, .opens 12, .rxmirror 12 (some 1), .opens 10, .txmirror 10 (some 10), .release 10]

theorem mirrors_paired_listening : ∃ s, GuardedRun.follow (next made) (Exclusive made) listening quiet = some s ∧
    (s.chan 12).srcmirror = some 1 ∧ PairedUp s := by
  have runs : (GuardedRun.follow (next made) (Exclusive made) listening quiet).any (fun s =>
      (s.chan 12).srcmirror = some 1) = true := by decide +kernel
  obtain ⟨s, ends, shown⟩ := (Option.any_eq_true _ _).mp runs
  refine ⟨s, ends, of_decide_eq_true shown, ?_⟩
  apply mirrors_paired made
  apply @follow_reach _ _ (mirrors made) _ _ _ (fun _ _ _ done => done) _ _ _ _ ends
  exact Reach.start quiet_start

/-- The second TXMIRROR takes the place of the first. -/
def taken : List (Label Nat) :=
  [.opens 10, .opens 11, .txmirror 10 (some 1), .txmirror 11 (some 1)]

theorem mirror_replaced : ¬ ∀ s, Reach (mirrors made) anyStep s → PairedUp s := by
  intro always
  have runs : (GuardedRun.follow (next made) anyStep taken quiet).any (fun s =>
      s.registered 10 ∧ s.registered 1 ∧ (s.chan 10).srcmirror = some 1 ∧
      (s.chan 1).rxmirror = none ∧ (s.chan 1).txmirror = some 11) = true := by decide +kernel
  obtain ⟨s, ends, shown⟩ := (Option.any_eq_true _ _).mp runs
  obtain ⟨there, source, follows, rx, tx⟩ := of_decide_eq_true shown
  have reached : Reach (mirrors made) anyStep s := by
    apply @follow_reach _ _ (mirrors made) _ _ _ (fun _ _ _ done => done) _ _ _ _ ends
    exact Reach.start quiet_start
  have either := ((always s reached).1 10 1 there source).mp follows
  rw [rx, tx] at either
  simp [Xor] at either

end Mirror
