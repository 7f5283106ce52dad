import Dahdi.Tone.Grounded

/-!
Which definitions DAHDI_LOADZONE makes a sound zone from, and that
DAHDI_SET_DIALPARAMS keeps a zone sound.
-/
namespace ToneSource
open Signalling Tone

/-- The definition at a position is one of a regular tone. -/
def regularAt (th : ToneDefHeader) (x : Nat) : Option ToneDef :=
  th.tones[x]?.filter fun td => (toneType td.tone).any fun found => decide (found.1 = .regular)

/-- From this definition on the links lead, past definitions without samples, to
    one that has some or to one that is not of a regular tone. -/
inductive Settles (th : ToneDefHeader) : Nat → Prop where
  | none {x : Nat} : regularAt th x = none → Settles th x
  | lasts {x : Nat} {td : ToneDef} : regularAt th x = some td → 0 < td.samples → Settles th x
  | passes {x : Nat} {td : ToneDef} : regularAt th x = some td → td.samples = 0 →
      Settles th (td.next.bmod (2 ^ 16)).toNat → Settles th x

/-- The definitions a loader would have to ask for. -/
def SoundHeader (th : ToneDefHeader) : Prop := ∀ x, x < th.count.toNat → Settles th x

/-- The lengths of digits and pauses are positive and the loaded zones sound. -/
structure SoundGlobals (g : Globals) : Prop where
  mfv1 : 0 < g.dialparams.mfv1Tonelen
  dtmf : 0 < g.dialparams.dtmfTonelen
  mfr2 : 0 < g.dialparams.mfr2Tonelen
  dtmfSilence : 0 < g.dtmfSilence.tonesamples
  mfr1Silence : 0 < g.mfr1Silence.tonesamples
  mfr2Silence : 0 < g.mfr2Silence.tonesamples
  tonePause : 0 < g.tonePause.tonesamples
  zones : ∀ z ∈ g.toneZones, SoundZone g z

section retime
variable {g g' : Globals} {z z' : Zone}

/-- Tones may become positive and stay linked as they are. -/
theorem grounded_same {ref : ToneRef} (grounded : Grounded g z ref)
    (next : ∀ ref, (tonePointed g' ⟨z', ref⟩).next = (tonePointed g ⟨z, ref⟩).next)
    (samples : ∀ ref, (tonePointed g' ⟨z', ref⟩).tonesamples = (tonePointed g ⟨z, ref⟩).tonesamples ∨
      0 < (tonePointed g' ⟨z', ref⟩).tonesamples) : Grounded g' z' ref := by
  induction grounded with
  | @lasts ref some_ =>
    rcases samples ref with same | positive
    · exact Grounded.lasts (by rw [same]; exact some_)
    · exact Grounded.lasts positive
  | @ends ref none_ last =>
    rcases samples ref with same | positive
    · exact Grounded.ends (same.trans none_) ((next ref).trans last)
    · exact Grounded.lasts positive
  | @passes ref ref' none_ link _ ih =>
    rcases samples ref with same | positive
    · exact Grounded.passes (same.trans none_) ((next ref).trans link) ih
    · exact Grounded.lasts positive

theorem accept_positive {requested old : Int} (positive : 0 < old) :
    0 < acceptLength requested old := by
  unfold acceptLength
  split <;> omega

theorem times_positive {len : Int} (positive : 0 < len) : 0 < len * Tone.chunksize := by
  unfold Tone.chunksize
  omega

theorem retime_next (gdp : DialParams) (z : Zone) (place : Place) :
    ((retimeZone gdp z).tone place).next = (z.tone place).next := by
  cases place <;> simp only [retimeZone]
  all_goals split <;> rfl

variable {tdp : DialParams} (sound : SoundGlobals g)
include sound

theorem accepted_positive : 0 < (acceptParams tdp g.dialparams).mfv1Tonelen ∧
    0 < (acceptParams tdp g.dialparams).dtmfTonelen ∧
    0 < (acceptParams tdp g.dialparams).mfr2Tonelen :=
  ⟨accept_positive sound.mfv1, accept_positive sound.dtmf, accept_positive sound.mfr2⟩

theorem retime_samples (place : Place) :
    ((retimeZone (acceptParams tdp g.dialparams) z).tone place).tonesamples =
        (z.tone place).tonesamples ∨
      0 < ((retimeZone (acceptParams tdp g.dialparams) z).tone place).tonesamples := by
  obtain ⟨mfv1, dtmf, mfr2⟩ := @accepted_positive g tdp sound
  cases place <;> simp only [retimeZone]
  case dtmf i =>
    split
    · exact Or.inr (times_positive dtmf)
    · exact Or.inl rfl
  case mfr1 i =>
    split
    · exact Or.inr (times_positive mfv1)
    · exact Or.inl rfl
  case mfr2Fwd i =>
    split
    · exact Or.inr (times_positive mfr2)
    · exact Or.inl rfl
  case mfr2Rev i =>
    split
    · exact Or.inr (times_positive mfr2)
    · exact Or.inl rfl
  all_goals exact Or.inl trivial

/-- The silences with the new lengths, for a zone with its old ones. -/
theorem sound_silences (good : SoundZone g z) : SoundZone (setDialparams tdp g) z := by
  obtain ⟨mfv1, dtmf, mfr2⟩ := @accepted_positive g tdp sound
  intro ref
  apply grounded_same (good ref)
  · intro ref
    cases ref <;> rfl
  · intro ref
    cases ref with
    | dtmfSilence => exact Or.inr (times_positive dtmf)
    | mfr1Silence => exact Or.inr (times_positive mfv1)
    | mfr2Silence => exact Or.inr (times_positive mfr2)
    | _ => exact Or.inl rfl

theorem sound_retime (good : SoundZone g z) :
    SoundZone (setDialparams tdp g) (retimeZone (acceptParams tdp g.dialparams) z) := by
  intro ref
  apply grounded_same (@sound_silences g z tdp sound good ref)
  · intro ref
    cases ref with
    | inZone place => exact retime_next _ z place
    | _ => rfl
  · intro ref
    cases ref with
    | inZone place => exact retime_samples sound place
    | _ => exact Or.inl rfl

theorem sound_set_dialparams : SoundGlobals (setDialparams tdp g) := by
  obtain ⟨mfv1, dtmf, mfr2⟩ := @accepted_positive g tdp sound
  refine ⟨mfv1, dtmf, mfr2, times_positive dtmf, times_positive mfv1, times_positive mfr2,
    sound.tonePause, ?_⟩
  intro z listed
  obtain ⟨old, listed', rfl⟩ := List.mem_map.mp listed
  exact sound_retime sound (sound.zones old listed')

end retime

/-- The work area after the definitions before a position. -/
structure Built (th : ToneDefHeader) (x : Nat) (work : Workarea) : Prop where
  regular : ∀ y td, y < x → regularAt th y = some td →
    work.samples y = true ∧ work.next y = td.next.bmod (2 ^ 16) ∧ 0 ≤ work.next y ∧
      work.next y < th.count ∧ (work.zone.tone (.samples y)).tonesamples = td.samples
  other : ∀ y, (y < x → regularAt th y = none) → work.samples y = false
  entry : ∀ place, (∀ y, place ≠ .samples y) → 0 < (work.zone.tone place).tonesamples ∨
    (work.zone.tone place).tonesamples = 0 ∧ (work.zone.tone place).next = none
  unused : ∀ y, work.samples y = false →
    (work.zone.tone (.samples y)).tonesamples = 0 ∧ (work.zone.tone (.samples y)).next = none

section load
variable {gdp : DialParams} {th : ToneDefHeader} {x i : Nat} {td : ToneDef} {type : ToneType}
  {work work' : Workarea}

theorem regular_known (found : th.tones[x]? = some td) (known : toneType td.tone = some (.regular, i)) :
    regularAt th x = some td := by
  simp [regularAt, found, known]

theorem regular_not (found : th.tones[x]? = some td) (known : toneType td.tone = some (type, i))
    (other : type ≠ .regular) : regularAt th x = none := by
  simp [regularAt, found, known, other]

theorem loaded_regular {count : Int} (known : toneType td.tone = some (.regular, i))
    (loaded : loadTone gdp count x td work = .ok work') :
    0 ≤ td.next.bmod (2 ^ 16) ∧ td.next.bmod (2 ^ 16) < count ∧
      work' =
        { zone := (work.zone.put (.samples x) ⟨td.wave, td.samples, none⟩).offer i (.samples x)
          samples := Function.update work.samples x true
          next := Function.update work.next x (td.next.bmod (2 ^ 16)) } := by
  rw [loadTone, known] at loaded
  simp only at loaded
  split at loaded
  · cases loaded
  · exact ⟨by omega, by omega, (Except.ok.inj loaded).symm⟩

/-- A digit leaves the regular tones alone. -/
theorem loaded_digit {count : Int} (known : toneType td.tone = some (type, i))
    (other : type ≠ .regular) (loaded : loadTone gdp count x td work = .ok work') :
    work'.samples = work.samples ∧ work'.next = work.next ∧
      ∀ y, work'.zone.tone (.samples y) = work.zone.tone (.samples y) := by
  rw [loadTone, known] at loaded
  cases type with
  | regular => exact absurd rfl other
  | _ =>
    rw [← Except.ok.inj loaded]
    refine ⟨rfl, rfl, fun y => ?_⟩
    simp [Zone.putBoth, Zone.put, Function.update]

theorem loaded_positive (mfv1 : 0 < gdp.mfv1Tonelen) (dtmf : 0 < gdp.dtmfTonelen)
    (mfr2 : 0 < gdp.mfr2Tonelen) {place : Place} (entry : ∀ y, place ≠ .samples y) :
    0 < loadedLength gdp place := by
  unfold loadedLength
  split
  · decide
  · cases place with
    | samples y => exact absurd rfl (entry y)
    | mfr1 => exact mfv1
    | dtmf | dtmfContinuous => exact dtmf
    | _ => exact mfr2

theorem built_step (mfv1 : 0 < gdp.mfv1Tonelen) (dtmf : 0 < gdp.dtmfTonelen)
    (mfr2 : 0 < gdp.mfr2Tonelen) (built : Built th x work) (found : th.tones[x]? = some td)
    (loaded : loadTone gdp th.count x td work = .ok work') : Built th (x + 1) work' := by
  obtain ⟨type, i, known⟩ := loaded_known loaded
  have entries (place : Place) (entry : ∀ y, place ≠ .samples y) :
      0 < (work'.zone.tone place).tonesamples ∨
        (work'.zone.tone place).tonesamples = 0 ∧ (work'.zone.tone place).next = none := by
    by_cases stored : place ∈ storedIn type i
    · rw [stored_length known stored loaded]
      exact Or.inl (loaded_positive mfv1 dtmf mfr2 entry)
    · rw [other_kept known stored entry loaded]
      exact built.entry place entry
  by_cases regular : type = .regular
  · rw [regular] at known
    obtain ⟨low, high, rfl⟩ := loaded_regular known loaded
    have here := regular_known found known
    refine ⟨?_, ?_, entries, ?_⟩
    · intro y td' before at_
      by_cases same : y = x
      · rw [same, here] at at_
        rw [same, ← Option.some.inj at_]
        simp only [Function.update_self, offer_tone, put_same]
        exact ⟨trivial, trivial, low, high, trivial⟩
      · have apart : Place.samples y ≠ .samples x := fun equal => same (Place.samples.inj equal)
        simp only [Function.update_of_ne same, offer_tone, put_other _ _ apart]
        exact built.regular y td' (by omega) at_
    · intro y none_
      have other : y ≠ x := by
        rintro rfl
        rw [none_ (Nat.lt_succ_self y)] at here
        cases here
      simp only [Function.update_of_ne other]
      exact built.other y fun before => none_ (by omega)
    · intro y unused
      simp only at unused
      have other : y ≠ x := by
        rintro rfl
        rw [Function.update_self] at unused
        cases unused
      have apart : Place.samples y ≠ .samples x := fun equal => other (Place.samples.inj equal)
      rw [Function.update_of_ne other] at unused
      simp only [offer_tone, put_other _ _ apart]
      exact built.unused y unused
  · obtain ⟨samples, next, tones⟩ := loaded_digit known regular loaded
    have not_ := regular_not found known regular
    refine ⟨?_, ?_, entries, ?_⟩
    · intro y td' before at_
      have other : y ≠ x := by
        rintro rfl
        rw [not_] at at_
        cases at_
      rw [samples, next, tones]
      exact built.regular y td' (by omega) at_
    · intro y none_
      rw [samples]
      exact built.other y fun before => none_ (by omega)
    · intro y unused
      rw [samples] at unused
      rw [tones]
      exact built.unused y unused

theorem built_empty (th : ToneDefHeader) : Built th 0 (emptyWorkarea th) := by
  refine ⟨?_, fun y _ => rfl, fun place _ => Or.inr ⟨rfl, rfl⟩, fun y _ => ⟨rfl, rfl⟩⟩
  intro y td before
  omega

theorem built_all (mfv1 : 0 < gdp.mfv1Tonelen) (dtmf : 0 < gdp.dtmfTonelen)
    (mfr2 : 0 < gdp.mfr2Tonelen) (loaded : loadTones gdp th x (emptyWorkarea th) = .ok work) :
    Built th x work := by
  induction x generalizing work with
  | zero =>
    rw [← Except.ok.inj loaded]
    exact built_empty th
  | succ x ih =>
    obtain ⟨middle, td, before, found, last⟩ := load_tones_step loaded
    exact built_step mfv1 dtmf mfr2 (ih before) found last

theorem link_unused {y : Nat} (built : Built th x work) (unused : work.samples y = false) :
    ((linkTones th.count work).tone (.samples y)).tonesamples = 0 ∧
      ((linkTones th.count work).tone (.samples y)).next = none := by
  have skipped : ¬(y < th.count ∧ work.samples y = true) := by
    rw [unused]
    exact fun both => Bool.noConfusion both.2
  simp only [linkTones, if_neg skipped]
  exact built.unused y unused

/-- The links of the zone follow those of the definitions. -/
theorem built_settles {g : Globals} (built : Built th th.count.toNat work) {y : Nat}
    (settles : Settles th y) (within : y < th.count.toNat) :
    Grounded g (linkTones th.count work) (.inZone (.samples y)) := by
  have entry (y : Nat) : tonePointed g ⟨linkTones th.count work, .inZone (.samples y)⟩ =
      (linkTones th.count work).tone (.samples y) := rfl
  induction settles with
  | none none_ =>
    obtain ⟨zero, last⟩ := link_unused built (built.other _ fun _ => none_)
    exact Grounded.ends zero last
  | @lasts y td here some_ =>
    obtain ⟨used, _, _, _, samples⟩ := built.regular y td within here
    have linked : (y : Int) < th.count ∧ work.samples y = true := ⟨by omega, used⟩
    apply Grounded.lasts
    rw [entry]
    simp only [linkTones, if_pos linked, samples]
    exact some_
  | @passes y td here zero _ ih =>
    obtain ⟨used, next, low, high, samples⟩ := built.regular y td within here
    have linked : (y : Int) < th.count ∧ work.samples y = true := ⟨by omega, used⟩
    have none_ : ((linkTones th.count work).tone (.samples y)).tonesamples = 0 := by
      simp only [linkTones, if_pos linked, samples]
      exact zero
    have link : ((linkTones th.count work).tone (.samples y)).next =
        if work.samples (td.next.bmod (2 ^ 16)).toNat then
          some (.inZone (.samples (td.next.bmod (2 ^ 16)).toNat)) else none := by
      simp only [linkTones, if_pos linked, next]
    rw [next] at low high
    by_cases follows : work.samples (td.next.bmod (2 ^ 16)).toNat = true
    · rw [if_pos follows] at link
      exact Grounded.passes none_ link (ih (by omega))
    · rw [if_neg follows] at link
      exact Grounded.ends none_ link

theorem sound_loaded {g g' : Globals} (sound : SoundGlobals g) (header : SoundHeader th)
    (loaded : loadzone th g = .ok g') : SoundGlobals g' := by
  obtain ⟨_, _, _, work, tones, rfl⟩ := loadzone_ok loaded
  have built := built_all sound.mfv1 sound.dtmf sound.mfr2 tones
  refine ⟨sound.mfv1, sound.dtmf, sound.mfr2, sound.dtmfSilence, sound.mfr1Silence,
    sound.mfr2Silence, sound.tonePause, ?_⟩
  intro z listed
  rcases List.mem_append.mp listed with old | new
  · intro ref
    apply grounded_same (sound.zones z old ref)
    · intro ref
      cases ref <;> rfl
    · intro ref
      cases ref <;> exact Or.inl rfl
  · rw [List.mem_singleton.mp new]
    intro ref
    cases ref with
    | inZone place =>
      by_cases regular : ∃ y, place = .samples y
      · obtain ⟨y, rfl⟩ := regular
        by_cases within : y < th.count.toNat
        · exact built_settles built (header y within) within
        · obtain ⟨zero, last⟩ := link_unused built (built.other y fun before => absurd before within)
          exact Grounded.ends zero last
      · push Not at regular
        have same : (linkTones th.count work).tone place = work.zone.tone place := by
          cases place with
          | samples y => exact absurd rfl (regular y)
          | _ => rfl
        have built := built.entry place regular
        rw [← same] at built
        rcases built with some_ | ⟨zero, last⟩
        · exact Grounded.lasts some_
        · exact Grounded.ends zero last
    | dtmfSilence => exact Grounded.lasts sound.dtmfSilence
    | mfr1Silence => exact Grounded.lasts sound.mfr1Silence
    | mfr2Silence => exact Grounded.lasts sound.mfr2Silence
    | tonePause => exact Grounded.lasts sound.tonePause

theorem sound_initial : SoundGlobals initialGlobals := by
  refine ⟨by decide, by decide, by decide, by decide, by decide, by decide, by decide, ?_⟩
  intro z listed
  cases listed

end load

end ToneSource
