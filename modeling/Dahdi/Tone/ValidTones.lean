import Dahdi.Tone.HeldZones

/-!
A channel plays tones of the zone it holds, as long as its zone is not replaced while a
tone of it is played and no tone is taken from behind the array of a zone.
-/
namespace ToneZones
open Tone Signalling RefCount GuardedRun
variable {Z T : Type}

/-- Built in, or a tone of this zone. -/
def Within (curzone : Option Z) : Pointer Z → Prop
  | .entry z _ => curzone = some z
  | .words _ _ => False
  | _ => True

/-- Built in, or a tone of the zone the channel holds, which is not freed. -/
def Own (s : State Z T) (c : T) (p : Pointer Z) : Prop :=
  Within (s.chan c).curzone p ∧ ∀ z, (s.chan c).curzone = some z → Live s z

def Valid (s : State Z T) : Prop :=
  ∀ c p q, (s.chan c).curtone = some p → Leads s p q → Own s c q

section links
variable {s : State Z T} {c : T} {chan : Chan Z} {p q : Pointer Z}

theorem within_address (z : Z) (ref : ToneRef) : Within (some z) (addressIn z ref) := by
  cases ref with
  | inZone place => exact rfl
  | _ => trivial

theorem within_next {curzone : Option Z} (within : Within curzone p) (link : nextTone s p = some q) :
    Within curzone q := by
  cases p with
  | entry z place =>
    have held : curzone = some z := within
    rw [nextTone, toneAt] at link
    split at link
    case isTrue =>
      obtain ⟨ref, _, same⟩ := Option.map_eq_some_iff.mp link
      rw [held, ← same]
      exact within_address z ref
    case isFalse => cases link
  | words first second => exact within.elim
  | _ => cases link

theorem within_leads {curzone : Option Z} (within : Within curzone p) (leads : Leads s p q) :
    Within curzone q := by
  induction leads with
  | refl => exact within
  | tail _ link ih => exact within_next ih link

/-- The current tone of the channel is one of the zone it has. -/
def Fits (chan : Chan Z) : Prop := ∀ p, chan.curtone = some p → Within chan.curzone p

theorem fits_none (silent : chan.curtone = none) : Fits chan := by
  intro p playing
  rw [silent] at playing
  cases playing

theorem mf_fits {digit : Char} (found : mfTone chan digit = some p) : Within chan.curzone p := by
  rw [mfTone] at found
  split at found
  case h_1 => cases found
  case h_2 z held =>
    split at found
    case isTrue =>
      rw [← Option.some.inj found]
      trivial
    case isFalse =>
      obtain ⟨place, _, same⟩ := Option.map_eq_some_iff.mp found
      rw [← same, held]
      exact rfl

theorem dial_from {offhook : Bool} (digits : List Char) (fits : Fits chan) :
    Fits (doDtmfFrom offhook digits chan) ∧
      (doDtmfFrom offhook digits chan).curzone = chan.curzone := by
  induction digits generalizing chan with
  | nil => exact ⟨fits, rfl⟩
  | cons digit rest ih =>
    rw [doDtmfFrom]
    simp only
    split
    case h_1 mode _ => exact @ih { chan with txdialbuf := rest, digitmode := mode, tonep := 0 } fits
    case h_2 =>
      split
      case isTrue =>
        split
        case h_1 =>
          split
          case isTrue => exact ⟨fits, rfl⟩
          case isFalse => exact @ih { chan with txdialbuf := rest } fits
        case h_2 => exact @ih { chan with txdialbuf := rest } fits
      case isFalse =>
        split
        case h_1 p found =>
          constructor
          · intro q playing
            rw [← Option.some.inj playing]
            exact @mf_fits Z { chan with txdialbuf := rest } p digit found
          · rfl
        case h_2 =>
          exact @ih { chan with txdialbuf := rest, curtone := none, tonep := 0 } (fits_none rfl)

theorem dial_fits {offhook : Bool} (fits : Fits chan) :
    Fits (doDtmf offhook chan) ∧ (doDtmf offhook chan).curzone = chan.curzone :=
  dial_from chan.txdialbuf fits

theorem ioctl_fits {offhook : Bool} {op : DialOp} {dialstr : List Char} (fits : Fits chan) :
    Fits (ioctlDial offhook chan op dialstr).2 ∧
      (ioctlDial offhook chan op dialstr).2.curzone = chan.curzone := by
  rw [ioctlDial.eq_def]
  simp only
  split
  case isTrue => exact ⟨fits, rfl⟩
  case isFalse =>
    cases op with
    | cancel => exact ⟨fits_none rfl, rfl⟩
    | replace => exact @dial_fits Z { chan with txdialbuf := _, dialing := true } offhook fits
    | append =>
      simp only
      split
      case isTrue => exact ⟨fits, rfl⟩
      case isFalse =>
        split
        case isTrue => exact ⟨fits, rfl⟩
        case isFalse => exact @dial_fits Z { chan with txdialbuf := _, dialing := true } offhook fits
    | other => exact ⟨fits, rfl⟩

theorem digit_fits {tone : Int} (fits : Fits chan) :
    Fits (startToneDigit s chan tone).2 ∧
      (startToneDigit s chan tone).2.curzone = chan.curzone := by
  rw [startToneDigit]
  split
  case h_1 => exact ⟨fits, rfl⟩
  case h_2 z held =>
    simp only
    have set : ∀ busy : Chan Z, busy.curzone = chan.curzone → busy.curtone = chan.curtone →
        Fits busy := by
      intro busy zone tone q playing
      rw [zone]
      exact fits q (tone ▸ playing)
    split
    case h_1 =>
      split
      case isTrue => exact ⟨set _ rfl rfl, rfl⟩
      case isFalse => exact ⟨fits, rfl⟩
    case h_2 place _ =>
      split
      case isTrue =>
        split
        case isTrue => exact ⟨set _ rfl rfl, rfl⟩
        case isFalse => exact ⟨fits, rfl⟩
      case isFalse =>
        split
        all_goals
          constructor
          · intro q playing
            rw [← Option.some.inj playing]
            exact held
          · rfl

theorem start_fits {tone : Int} (inside : ∀ z, chan.curzone = some z → tone = toneMax →
    wildTone (s.zone z) = false) :
    Fits (startTone s chan tone).2 ∧ (startTone s chan tone).2.curzone = chan.curzone := by
  have silent : Fits (stopTone chan) := fits_none rfl
  rw [startTone]
  split
  case isTrue => exact ⟨silent, rfl⟩
  case isFalse =>
    split
    case h_1 => exact ⟨silent, rfl⟩
    case h_2 z held =>
      split
      case isTrue =>
        split
        case h_1 p found =>
          constructor
          · intro q playing
            rw [← Option.some.inj playing]
            rw [slot] at found
            split at found
            case isTrue last =>
              rw [inside z held last] at found
              cases found
            case isFalse =>
              obtain ⟨place, _, same⟩ := Option.map_eq_some_iff.mp found
              rw [← same]
              exact held
          · rfl
        case h_2 => exact ⟨silent, rfl⟩
      case isFalse =>
        split
        case isTrue => exact digit_fits silent
        case isFalse => exact ⟨fits_none rfl, rfl⟩

theorem played_fits {bytes : Int} {offhook : Bool} {chan' : Chan Z} (fits : Fits chan)
    (plays : played s chan bytes offhook = some chan') :
    Fits chan' ∧ chan'.curzone = chan.curzone := by
  rw [played] at plays
  split at plays
  case h_1 =>
    rw [← Option.some.inj plays]
    exact ⟨fits, rfl⟩
  case h_2 p playing =>
    split at plays
    case h_1 => cases plays
    case h_2 tonesamples next found =>
      simp only at plays
      split at plays
      case isTrue =>
        rw [← Option.some.inj plays, advance]
        have onward : ∀ tonep, Fits { chan with tonep := tonep, curtone := next } := by
          intro tonep q link
          apply within_next (fits p playing)
          rw [nextTone, found]
          exact link
        simp only
        split
        case isTrue => exact @dial_fits Z { chan with tonep := 0, curtone := next } offhook (onward 0)
        case isFalse => exact ⟨onward 0, rfl⟩
      case isFalse =>
        rw [← Option.some.inj plays]
        exact ⟨fits, rfl⟩

end links

/-- A tone of another zone than this one. -/
def elsewhere [DecidableEq Z] (z : Z) : Pointer Z → Bool
  | .entry z' _ => decide (z' ≠ z)
  | _ => false

section guard
variable [DecidableEq Z]

/-- The channel gets another zone while a tone of the one it has is played. -/
def Uprooted (s : State Z T) (c : T) (zone : Int) : Prop :=
  ∃ z ∈ findZone s zone, ∃ p ∈ (s.chan c).curtone, elsewhere z p = true

instance (s : State Z T) (c : T) (zone : Int) : Decidable (Uprooted s c zone) :=
  inferInstanceAs (Decidable (∃ z ∈ findZone s zone, ∃ p ∈ (s.chan c).curtone, elsewhere z p = true))

/-- The tone behind the last one of the zone is asked for, and something is there. -/
def Behind (s : State Z T) (c : T) (tone : Int) : Prop :=
  tone = toneMax ∧ ∃ z ∈ (s.chan c).curzone, wildTone (s.zone z) = true

instance (s : State Z T) (c : T) (tone : Int) : Decidable (Behind s c tone) :=
  inferInstanceAs (Decidable (_ ∧ ∃ z ∈ (s.chan c).curzone, wildTone (s.zone z) = true))

def Allowed (s : State Z T) : Op Z T → Prop
  | .setToneZone c zone => ¬ Uprooted s c zone
  | .sendTone c tone => ¬ Behind s c tone
  | _ => True

instance (s : State Z T) (op : Op Z T) : Decidable (Allowed s op) :=
  match op with
  | .setToneZone c zone => inferInstanceAs (Decidable (¬ Uprooted s c zone))
  | .sendTone c tone => inferInstanceAs (Decidable (¬ Behind s c tone))
  | .loadzone _ _ => inferInstanceAs (Decidable True)
  | .freezone _ => inferInstanceAs (Decidable True)
  | .defaultzone _ => inferInstanceAs (Decidable True)
  | .setDialparams _ => inferInstanceAs (Decidable True)
  | .dial _ _ _ _ => inferInstanceAs (Decidable True)
  | .afterDigit _ _ => inferInstanceAs (Decidable True)
  | .played _ _ _ => inferInstanceAs (Decidable True)
  | .stop _ => inferInstanceAs (Decidable True)
  | .hangup _ => inferInstanceAs (Decidable True)
  | .opens _ => inferInstanceAs (Decidable True)
  | .close _ => inferInstanceAs (Decidable True)

end guard

section runs
variable [Fintype T] [DecidableEq T] [DecidableEq Z] {s s' : State Z T} {c : T} {z : Z}

def zoneOf (s : State Z T) (c : T) : Option Z := (s.chan c).curzone

/-- The reference of the list of zones. -/
def listed (s : State Z T) (z : Z) : Int := if z ∈ s.toneZones then 1 else 0

structure Kept (s : State Z T) : Prop where
  counted : ∀ z, s.refs z = listed s z + count (zoneOf s) z
  once : s.toneZones.Nodup
  fits : ∀ c, Fits (s.chan c)

theorem listed_range (s : State Z T) (z : Z) : 0 ≤ listed s z ∧ listed s z ≤ 1 := by
  rw [listed]
  split <;> omega

theorem held_live (kept : Kept s) (held : (s.chan c).curzone = some z) : Live s z := by
  have positive : 0 < count (zoneOf s) z := count_positive held
  have range := listed_range s z
  rw [Live, kept.counted z]
  omega

theorem kept_valid (kept : Kept s) : Valid s := by
  intro c p q playing leads
  exact ⟨within_leads (kept.fits c p playing) leads, fun z held => held_live kept held⟩

/-- A channel changes its tones, and with its zone the references. -/
theorem kept_set (c : T) (chan : Chan Z) (kept : Kept s) (fits : Fits chan)
    (zones : s'.toneZones = s.toneZones) (chans : s'.chan = Function.update s.chan c chan)
    (refs : ∀ z, s'.refs z = s.refs z - has (s.chan c).curzone z + has chan.curzone z) :
    Kept s' := by
  constructor
  · intro z
    have held : zoneOf s' = Function.update (zoneOf s) c chan.curzone := by
      funext d
      by_cases same : d = c
      · simp only [same, zoneOf, chans, Function.update_self]
      · simp only [zoneOf, chans, Function.update_of_ne same]
    rw [refs, held, count_update, kept.counted z, listed, listed, zones, zoneOf]
    omega
  · rw [zones]
    exact kept.once
  · intro d
    rw [chans]
    by_cases same : d = c
    · rw [same, Function.update_self]
      exact fits
    · rw [Function.update_of_ne same]
      exact kept.fits d

theorem kept_chan {chan : Chan Z} (kept : Kept s)
    (fits : Fits chan ∧ chan.curzone = (s.chan c).curzone) : Kept (setChan s c chan) := by
  apply kept_set c chan kept fits.1
  · rfl
  · rfl
  · intro z
    rw [fits.2]
    exact (Int.sub_add_cancel _ _).symm

/-- The zones change, and with the list the references. -/
theorem kept_zones (kept : Kept s) (once : s'.toneZones.Nodup) (chans : s'.chan = s.chan)
    (refs : ∀ z, s'.refs z - listed s' z = s.refs z - listed s z) : Kept s' := by
  constructor
  · intro z
    have held : zoneOf s' = zoneOf s := by
      funext d
      rw [zoneOf, zoneOf, chans]
    have before := kept.counted z
    have after := refs z
    rw [held]
    omega
  · exact once
  · intro d
    rw [chans]
    exact kept.fits d

theorem kept_initial (zone : Z → Zone) : Kept (loaded zone : State Z T) := by
  constructor
  · intro z
    have none_ : count (zoneOf (loaded zone : State Z T)) z = 0 := count_none z
    rw [none_]
    rfl
  · exact List.nodup_nil
  · exact fun c => fits_none rfl

theorem numbered_listed {num : Int} (found : numbered s num = some z) : z ∈ s.toneZones :=
  List.mem_of_find?_eq_some found

/-- Nothing refers to memory that may be given to a new zone. -/
theorem dead_unlisted (kept : Kept s) (dead : ¬ Live s z) : s.refs z = 0 ∧ z ∉ s.toneZones := by
  have counted := kept.counted z
  have range := listed_range s z
  rw [Live] at dead
  constructor
  · omega
  · intro member
    rw [listed, if_pos member] at counted
    omega

theorem other_zone {y : Z} (apart : y ≠ z) : has (some z) y = 0 :=
  if_neg fun equal => apart (Option.some.inj equal).symm

theorem kept_register {zone : Zone} (kept : Kept s) (dead : ¬ Live s z) :
    Kept (registerToneZone s z zone).2 := by
  obtain ⟨zero, outside⟩ := dead_unlisted kept dead
  rw [registerToneZone]
  simp only
  split
  case isTrue =>
    apply kept_zones kept
    · exact kept.once
    · rfl
    · intro y
      by_cases same : y = z
      · simp only [same, put, has, Function.update_self, zero, listed, if_neg outside, if_true]
        omega
      · simp only [put, other_zone same, Function.update_of_ne same, listed]
        omega
  case isFalse =>
    apply kept_zones kept
    · apply List.nodup_append'.mpr
      exact ⟨kept.once, List.nodup_singleton z, List.disjoint_singleton.mpr outside⟩
    · rfl
    · intro y
      by_cases same : y = z
      · have member : z ∈ s.toneZones ++ [z] := List.mem_append_right _ (List.mem_singleton_self z)
        simp only [same, Function.update_self, zero, listed, if_pos member, if_neg outside]
        omega
      · have member : y ∈ s.toneZones ++ [z] ↔ y ∈ s.toneZones := by simp [same]
        simp only [Function.update_of_ne same, listed, member]

theorem load_listed {th : ToneDefHeader} (kept : Kept s) (dead : ¬ Live s z) :
    Tone.loadzone th (globals s) =
      match loadzone s z th with
      | (none, s') => .ok (globals s')
      | (some e, _) => .error e :=
  load_globals (dead_unlisted kept dead).2

theorem free_listed {num : Int} (kept : Kept s) :
    globals (freezone s num) = Tone.freezone num (globals s) := free_globals kept.once

theorem kept_load {th : ToneDefHeader} (kept : Kept s) (dead : ¬ Live s z) :
    Kept (loadzone s z th).2 := by
  rw [loadzone]
  split
  case isTrue => exact kept
  case isFalse =>
    split
    case isTrue => exact kept
    case isFalse =>
      split
      case isTrue => exact kept
      case isFalse =>
        split
        case h_1 => exact kept
        case h_2 => exact kept_register kept dead

theorem kept_free {num : Int} (kept : Kept s) : Kept (freezone s num) := by
  rw [freezone]
  split
  case h_1 => exact kept
  case h_2 z found =>
    have member := numbered_listed found
    apply kept_zones kept
    · exact kept.once.filter _
    · rfl
    · intro y
      by_cases same : y = z
      · have gone : z ∉ s.toneZones.filter fun cur => decide (cur ≠ z) := by simp
        simp only [same, put, has, listed, if_pos member, if_neg gone, if_true]
        omega
      · have stays : y ∈ (s.toneZones.filter fun cur => decide (cur ≠ z)) ↔ y ∈ s.toneZones := by
          simp [same]
        simp only [put, other_zone same, listed, stays]
        omega

theorem kept_default {num : Int} (kept : Kept s) : Kept (defaultzone s num) := by
  rw [defaultzone]
  split
  case h_1 => exact kept
  case h_2 z found =>
    have member := numbered_listed found
    apply kept_zones kept
    · apply List.nodup_cons.mpr
      exact ⟨by simp, kept.once.filter _⟩
    · rfl
    · intro y
      have stays : y ∈ (z :: s.toneZones.filter fun cur => decide (cur ≠ z)) ↔ y ∈ s.toneZones := by
        by_cases same : y = z
        · simp [same, member]
        · simp [same]
      simp only [listed, stays]

/-- A tone that is not of another zone stays one of the channel's. -/
theorem rooted_fits (fits : Fits (s.chan c)) (rooted : ∀ p ∈ (s.chan c).curtone, elsewhere z p = false) :
    Fits { s.chan c with curzone := some z } := by
  intro p playing
  have here := rooted p playing
  have within := fits p playing
  cases p with
  | entry z' place =>
    rw [elsewhere, decide_eq_false_iff_not, Classical.not_not] at here
    rw [here]
    exact rfl
  | words first second => exact within
  | _ => trivial

omit [Fintype T] [DecidableEq T] in
theorem silent_rooted {zone : Int} (silent : (s.chan c).curtone = none) : ¬ Uprooted s c zone := by
  intro uprooted
  obtain ⟨_, _, p, playing, _⟩ := uprooted
  rw [silent] at playing
  cases playing

theorem kept_zone {zone : Int} (kept : Kept s) (rooted : ¬ Uprooted s c zone) :
    Kept (setToneZone s c zone).2 := by
  rw [setToneZone]
  split
  case h_1 => exact kept
  case h_2 z found =>
    have here : ∀ p ∈ (s.chan c).curtone, elsewhere z p = false := by
      intro p playing
      rw [← Bool.not_eq_true]
      exact fun away => rooted ⟨z, found, p, playing, away⟩
    apply kept_set c { s.chan c with curzone := some z } kept (rooted_fits (kept.fits c) here)
    · rfl
    · rfl
    · intro y
      simp only [put, RefCount.get]
      omega

theorem kept_next {op : Op Z T} (kept : Kept s) (allowed : Allowed s op)
    (moved : next s op = some s') : Kept s' := by
  cases op with
  | loadzone z th =>
    rw [next] at moved
    split at moved
    case isTrue => cases moved
    case isFalse dead =>
      rw [← Option.some.inj moved]
      exact kept_load kept dead
  | freezone num =>
    rw [← Option.some.inj moved]
    exact kept_free kept
  | defaultzone num =>
    rw [← Option.some.inj moved]
    exact kept_default kept
  | setDialparams tdp =>
    rw [← Option.some.inj moved]
    exact kept_zones kept kept.once rfl fun z => rfl
  | setToneZone c zone =>
    rw [← Option.some.inj moved]
    exact kept_zone kept allowed
  | sendTone c tone =>
    rw [← Option.some.inj moved]
    apply kept_chan kept
    apply start_fits
    intro z held last
    rw [← Bool.not_eq_true]
    exact fun wild => allowed ⟨last, z, held, wild⟩
  | dial c op dialstr offhook =>
    rw [← Option.some.inj moved]
    exact kept_chan kept (ioctl_fits (kept.fits c))
  | afterDigit c offhook =>
    rw [← Option.some.inj moved]
    exact kept_chan kept (dial_fits (kept.fits c))
  | played c bytes offhook =>
    obtain ⟨chan, plays, same⟩ := Option.map_eq_some_iff.mp moved
    rw [← same]
    exact kept_chan kept (played_fits (kept.fits c) plays)
  | stop c =>
    rw [← Option.some.inj moved]
    exact kept_chan kept ⟨fits_none rfl, rfl⟩
  | hangup c =>
    rw [← Option.some.inj moved]
    exact kept_chan kept ⟨fits_none rfl, rfl⟩
  | opens c =>
    rw [← Option.some.inj moved]
    have stopped := @kept_chan Z T _ _ _ s c { stopTone (s.chan c) with digitmode := .dtmf } kept
      ⟨fits_none rfl, rfl⟩
    have silent : ((setChan s c { stopTone (s.chan c) with digitmode := .dtmf }).chan c).curtone = none := by
      rw [set_chan]
      rfl
    exact kept_zone stopped (silent_rooted silent)
  | close c =>
    rw [← Option.some.inj moved]
    apply kept_set c { hangup (s.chan c) with curzone := none, digitmode := .dtmf } kept
      (fits_none rfl)
    · rfl
    · rfl
    · intro z
      rw [has_none, Int.add_zero]
      rfl

/-- In runs where no channel gets another zone while it plays a tone of the one it has,
    and no tone behind the last one of a zone is started, every tone a channel plays or
    goes on to is built in or of the zone the channel holds, and the zone is not freed. -/
theorem tones_valid (run : Reach sys Allowed s) : Valid s := by
  apply kept_valid
  apply @invariant_run _ _ sys Allowed Kept
  · intro begin_ start
    obtain ⟨zone, rfl⟩ := start
    exact kept_initial zone
  · exact fun before op after kept allowed moved => kept_next kept allowed moved
  · exact run

end runs

section examples

/-- A zone of this number with a dial tone that goes on to itself. -/
def dialToneZone (num : Int) : ToneDefHeader :=
  { count := 1
    zone := num
    ringcadence := fun _ => 0
    tones := [⟨0, 0, 8, noWave⟩] }

def emptyMemory (_ : Nat) : Zone :=
  { num := 0
    ringcadence := fun _ => 0
    tones := fun _ => none
    tone := fun _ => ⟨noWave, 0, none⟩ }

/-- What the only channel plays, and whether the zone at this address is there. -/
def seen (s : State Nat Unit) (z : Nat) : Option (Pointer Nat) × Option Nat × Bool :=
  ((s.chan ()).curtone, (s.chan ()).curzone, decide (Live s z))

/-- A channel plays the dial tone of a zone that leaves the list. -/
def usual : List (Op Nat Unit) :=
  [.loadzone 1 (dialToneZone 3), .opens (), .sendTone () 0, .freezone 3, .played () 8 true]

theorem tones_valid_usual : ∃ s, follow next Allowed usual (loaded emptyMemory) = some s ∧
    seen s 1 = (some (.entry 1 (.samples 0)), some 1, true) ∧ Valid s := by
  have runs : (follow next Allowed usual (loaded emptyMemory)).any
      (fun s => seen s 1 = (some (.entry 1 (.samples 0)), some 1, true)) = true := by
    decide +kernel
  obtain ⟨s, ends, shown⟩ := (Option.any_eq_true _ _).mp runs
  refine ⟨s, ends, of_decide_eq_true shown, ?_⟩
  apply tones_valid
  apply @follow_reach _ _ sys _ _ _ (fun _ _ _ done => done) _ _ _ _ ends
  exact Reach.start ⟨emptyMemory, rfl⟩

/-- The channel is given another zone while the tone is played. -/
def uprooting : List (Op Nat Unit) :=
  [.loadzone 1 (dialToneZone 3), .loadzone 2 (dialToneZone 4), .opens (), .sendTone () 0,
    .freezone 3, .setToneZone () 4]

theorem freed_tone : ¬ ∀ s : State Nat Unit, Reach sys anyStep s → Valid s := by
  intro always
  have runs : (follow next anyStep uprooting (loaded emptyMemory)).any
      (fun s => seen s 1 = (some (.entry 1 (.samples 0)), some 2, false)) = true := by
    decide +kernel
  obtain ⟨s, ends, shown⟩ := (Option.any_eq_true _ _).mp runs
  have shown := of_decide_eq_true shown
  have playing : (s.chan ()).curtone = some (.entry 1 (.samples 0)) := congrArg Prod.fst shown
  have held : (s.chan ()).curzone = some 2 := congrArg (fun seen => seen.2.1) shown
  have reached : Reach sys anyStep s := by
    apply @follow_reach _ _ sys _ _ _ (fun _ _ _ done => done) _ _ _ _ ends
    exact Reach.start ⟨emptyMemory, rfl⟩
  have own : (s.chan ()).curzone = some 1 := (always s reached () _ _ playing .refl).1
  rw [held] at own
  cases own

end examples

end ToneZones
