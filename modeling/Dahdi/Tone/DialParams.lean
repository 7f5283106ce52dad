import Dahdi.Tone.Zone

/-!
The global dialing parameters: DAHDI_SET_DIALPARAMS and the lengths of the
digit tones of a zone that is loaded before or after it.
-/
namespace Tone

/-- A requested length, or the old one where the request is out of range. -/
def acceptLength (requested old : Int) : Int :=
  if 10 ≤ requested ∧ requested ≤ 4000 then requested else old

def DahdiTone.retime (t : DahdiTone) (tonesamples : Int) : DahdiTone :=
  { t with tonesamples := tonesamples }

/-- The lengths of the tones of a loaded zone. Of the MFR1 tones only the digits
    are adjusted. -/
def retimeZone (gdp : DialParams) (z : Zone) : Zone :=
  { z with
    tone := fun place =>
      match place with
      | .dtmf i =>
        if i < 16 then (z.tone place).retime (gdp.dtmfTonelen * chunksize) else z.tone place
      | .mfr1 i =>
        if i ≤ 9 then (z.tone place).retime (gdp.mfv1Tonelen * chunksize) else z.tone place
      | .mfr2Fwd i =>
        if i < 15 then (z.tone place).retime (gdp.mfr2Tonelen * chunksize) else z.tone place
      | .mfr2Rev i =>
        if i < 15 then (z.tone place).retime (gdp.mfr2Tonelen * chunksize) else z.tone place
      | _ => z.tone place }

def acceptParams (tdp gdp : DialParams) : DialParams :=
  { mfv1Tonelen := acceptLength tdp.mfv1Tonelen gdp.mfv1Tonelen
    dtmfTonelen := acceptLength tdp.dtmfTonelen gdp.dtmfTonelen
    mfr2Tonelen := acceptLength tdp.mfr2Tonelen gdp.mfr2Tonelen }

/-- dahdi_ioctl_set_dialparams -/
def setDialparams (tdp : DialParams) (g : Globals) : Globals :=
  let gdp := acceptParams tdp g.dialparams
  { g with
    dialparams := gdp
    toneZones := g.toneZones.map (retimeZone gdp)
    dtmfSilence := g.dtmfSilence.retime (gdp.dtmfTonelen * chunksize)
    mfr1Silence := g.mfr1Silence.retime (gdp.mfv1Tonelen * chunksize)
    mfr2Silence := g.mfr2Silence.retime (gdp.mfr2Tonelen * chunksize) }

/-- The module as it is loaded. -/
def initialGlobals : Globals :=
  { dialparams := ⟨68 * samplesPerMs, 100 * samplesPerMs, 100 * samplesPerMs⟩
    toneZones := []
    dtmfSilence := ⟨noWave, 100 * samplesPerMs, none⟩
    mfr1Silence := ⟨noWave, 68 * samplesPerMs, none⟩
    mfr2Silence := ⟨noWave, 100 * samplesPerMs, none⟩
    tonePause := ⟨noWave, 500 * samplesPerMs, none⟩ }

/-- The entries of the arrays that a DTMF or MF tone is stored in. -/
def storedIn : ToneType → Nat → List Place
  | .regular, _ => []
  | .dtmf, i => [.dtmf i, .dtmfContinuous i]
  | .mfr1, i => [.mfr1 i]
  | .mfr2Fwd, i => [.mfr2Fwd i, .mfr2FwdContinuous i]
  | .mfr2Rev, i => [.mfr2Rev i, .mfr2RevContinuous i]

/-- The first definitions of the zone hold a DTMF or MF tone for this entry. -/
def DefinesWithin (th : ToneDefHeader) (count : Nat) (place : Place) : Prop :=
  ∃ x td type i, x < count ∧ th.tones[x]? = some td ∧ toneType td.tone = some (type, i) ∧
    place ∈ storedIn type i

def Defines (th : ToneDefHeader) (place : Place) : Prop := DefinesWithin th th.count.toNat place

/-- The parameter a DTMF or MF tone takes its length from. -/
def lengthOf (params : DialParams) : Place → Int
  | .samples _ => 0
  | .dtmf _ | .dtmfContinuous _ => params.dtmfTonelen
  | .mfr1 _ => params.mfv1Tonelen
  | .mfr2Fwd _ | .mfr2FwdContinuous _ | .mfr2Rev _ | .mfr2RevContinuous _ => params.mfr2Tonelen

def Control : Place → Prop
  | .mfr1 i => mfr1Control i
  | _ => False

instance (place : Place) : Decidable (Control place) := by
  cases place <;> unfold Control <;> infer_instance

/-- The setting is accepted for this tone. -/
def Accepted (tdp : DialParams) (place : Place) : Prop :=
  10 ≤ lengthOf tdp place ∧ lengthOf tdp place ≤ 4000

/-- The length of a tone of the zone of this number. -/
def zoneSamples (g : Globals) (num : Int) (place : Place) : Option Int :=
  (g.toneZones.find? fun z => decide ((z.num : Int) = num)).map fun z => (z.tone place).tonesamples

def setThenLoad (tdp : DialParams) (th : ToneDefHeader) (g : Globals) : Except LoadError Globals :=
  loadzone th (setDialparams tdp g)

def loadThenSet (tdp : DialParams) (th : ToneDefHeader) (g : Globals) : Except LoadError Globals :=
  (loadzone th g).map (setDialparams tdp)

/-- Both orders give every DTMF and MF tone of the zone the requested time. -/
def Commute (tdp : DialParams) (th : ToneDefHeader) (g : Globals) : Prop :=
  ∃ first second, setThenLoad tdp th g = .ok first ∧ loadThenSet tdp th g = .ok second ∧
    ∀ place, Defines th place → Accepted tdp place →
      zoneSamples first th.zone place = zoneSamples second th.zone place ∧
        zoneSamples first th.zone place = some (lengthOf tdp place * samplesPerMs)

/-- No tone of the zone takes its length from the setting, except for a control
    tone with the length it has anyway. -/
def Unaffected (tdp : DialParams) (th : ToneDefHeader) : Prop :=
  ∀ place, Defines th place → Accepted tdp place → Control place ∧ lengthOf tdp place = 100

/-- The length a DTMF or MF tone is loaded with. -/
def loadedLength (gdp : DialParams) (place : Place) : Int :=
  if Control place then 100 * chunksize else lengthOf gdp place

section loading
variable {gdp : DialParams} {count : Int} {x i : Nat} {td : ToneDef} {type : ToneType}
  {work work' : Workarea} {place : Place}

theorem both_entry {z : Zone} {entry continuous : Place} {t : DahdiTone}
    (within : place ∈ [entry, continuous]) :
    ((z.putBoth entry continuous t).tone place).tonesamples = t.tonesamples := by
  rw [Zone.putBoth]
  by_cases last : place = continuous
  · rw [last, put_same]
  · rw [put_other _ _ last]
    have first : place = entry := by
      simp only [List.mem_cons, List.not_mem_nil, or_false] at within
      exact within.resolve_right last
    rw [first, put_same]

theorem both_other {z : Zone} {entry continuous : Place} {t : DahdiTone}
    (outside : place ∉ [entry, continuous]) :
    (z.putBoth entry continuous t).tone place = z.tone place := by
  simp only [List.mem_cons, List.not_mem_nil, or_false, not_or] at outside
  rw [Zone.putBoth, put_other _ _ outside.2, put_other _ _ outside.1]

theorem stored_length (known : toneType td.tone = some (type, i)) (stored : place ∈ storedIn type i)
    (loaded : loadTone gdp count x td work = .ok work') :
    (work'.zone.tone place).tonesamples = loadedLength gdp place := by
  rw [loadTone, known] at loaded
  cases type with
  | regular => cases stored
  | mfr1 =>
    rw [← Except.ok.inj loaded, List.mem_singleton.mp stored, put_same]
    rfl
  | dtmf =>
    rw [← Except.ok.inj loaded, both_entry stored]
    rcases List.mem_pair.mp stored with rfl | rfl <;> rfl
  | mfr2Fwd =>
    rw [← Except.ok.inj loaded, both_entry stored]
    rcases List.mem_pair.mp stored with rfl | rfl <;> rfl
  | mfr2Rev =>
    rw [← Except.ok.inj loaded, both_entry stored]
    rcases List.mem_pair.mp stored with rfl | rfl <;> rfl

theorem other_kept (known : toneType td.tone = some (type, i)) (outside : place ∉ storedIn type i)
    (entry : ∀ y, place ≠ .samples y) (loaded : loadTone gdp count x td work = .ok work') :
    work'.zone.tone place = work.zone.tone place := by
  rw [loadTone, known] at loaded
  cases type with
  | regular =>
    simp only at loaded
    split at loaded
    · cases loaded
    · rw [← Except.ok.inj loaded, offer_tone, put_other _ _ (entry x)]
  | mfr1 =>
    have apart : place ≠ .mfr1 i := fun same => outside (List.mem_singleton.mpr same)
    rw [← Except.ok.inj loaded, put_other _ _ apart]
  | dtmf => rw [← Except.ok.inj loaded, both_other outside]
  | mfr2Fwd => rw [← Except.ok.inj loaded, both_other outside]
  | mfr2Rev => rw [← Except.ok.inj loaded, both_other outside]

theorem loaded_known (loaded : loadTone gdp count x td work = .ok work') :
    ∃ type i, toneType td.tone = some (type, i) := by
  cases known : toneType td.tone with
  | none =>
    rw [loadTone, known] at loaded
    cases loaded
  | some found => exact ⟨found.1, found.2, rfl⟩

theorem load_tone_num (loaded : loadTone gdp count x td work = .ok work') :
    work'.zone.num = work.zone.num := by
  unfold loadTone at loaded
  split at loaded
  · cases loaded
  · simp only at loaded
    split at loaded
    · cases loaded
    · rw [← Except.ok.inj loaded]
      unfold Zone.offer
      split <;> rfl
  all_goals rw [← Except.ok.inj loaded]; rfl

/-- Whether a definition is accepted depends on neither the parameters nor the
    zone built so far. -/
theorem load_tone_accepts (gdp' : DialParams) (other : Workarea)
    (loaded : loadTone gdp count x td work = .ok work') :
    ∃ other', loadTone gdp' count x td other = .ok other' := by
  obtain ⟨type, i, known⟩ := loaded_known loaded
  rw [loadTone, known] at loaded ⊢
  cases type with
  | regular =>
    simp only at loaded ⊢
    split at loaded
    · cases loaded
    · rename_i sane
      rw [if_neg sane]
      exact ⟨_, rfl⟩
  | mfr1 => exact ⟨_, rfl⟩
  | dtmf => exact ⟨_, rfl⟩
  | mfr2Fwd => exact ⟨_, rfl⟩
  | mfr2Rev => exact ⟨_, rfl⟩

end loading

section zones
variable {gdp : DialParams} {th : ToneDefHeader} {count : Nat} {work work' : Workarea}
  {place : Place} {tdp : DialParams} {g g' : Globals} {z : Zone}

theorem load_tones_step (loaded : loadTones gdp th (count + 1) work = .ok work') :
    ∃ middle td, loadTones gdp th count work = .ok middle ∧ th.tones[count]? = some td ∧
      loadTone gdp th.count count td middle = .ok work' := by
  rw [loadTones] at loaded
  cases before : loadTones gdp th count work with
  | error e =>
    rw [before] at loaded
    cases loaded
  | ok middle =>
    rw [before] at loaded
    cases found : th.tones[count]? with
    | none =>
      rw [found] at loaded
      cases loaded
    | some td =>
      rw [found] at loaded
      exact ⟨middle, td, rfl, rfl, loaded⟩

theorem load_tones_num (loaded : loadTones gdp th count work = .ok work') :
    work'.zone.num = work.zone.num := by
  induction count generalizing work' with
  | zero => rw [← Except.ok.inj loaded]
  | succ count ih =>
    obtain ⟨middle, td, before, _, last⟩ := load_tones_step loaded
    exact (load_tone_num last).trans (ih before)

theorem load_tones_accept (gdp' : DialParams) (other : Workarea)
    (loaded : loadTones gdp th count work = .ok work') :
    ∃ other', loadTones gdp' th count other = .ok other' := by
  induction count generalizing work' with
  | zero => exact ⟨other, rfl⟩
  | succ count ih =>
    obtain ⟨middle, td, before, found, last⟩ := load_tones_step loaded
    obtain ⟨middle', before'⟩ := ih before
    obtain ⟨other', last'⟩ := load_tone_accepts gdp' middle' last
    refine ⟨other', ?_⟩
    rw [loadTones, before']
    simp only [found]
    exact last'

theorem defines_entry (defined : DefinesWithin th count place) (y : Nat) : place ≠ .samples y := by
  obtain ⟨x, td, type, i, _, _, _, stored⟩ := defined
  rintro rfl
  cases type <;> simp [storedIn] at stored

/-- Every definition of a tone loads it with the same length. -/
theorem load_tones_length (loaded : loadTones gdp th count work = .ok work')
    (defined : DefinesWithin th count place) :
    (work'.zone.tone place).tonesamples = loadedLength gdp place := by
  induction count generalizing work' with
  | zero =>
    obtain ⟨x, td, type, i, within, _⟩ := defined
    omega
  | succ count ih =>
    obtain ⟨middle, td, before, found, last⟩ := load_tones_step loaded
    obtain ⟨type, i, known⟩ := loaded_known last
    by_cases stored : place ∈ storedIn type i
    · exact stored_length known stored last
    · rw [other_kept known stored (defines_entry defined) last]
      apply ih before
      obtain ⟨x, td', type', i', within, found', known', stored'⟩ := defined
      have earlier : x ≠ count := by
        rintro rfl
        rw [found] at found'
        rw [← Option.some.inj found', known] at known'
        have same := Option.some.inj known'
        rw [Prod.mk.injEq] at same
        rw [same.1, same.2] at stored
        exact stored stored'
      exact ⟨x, td', type', i', by omega, found', known', stored'⟩

theorem link_tones_length (count : Int) (y : ∀ x, place ≠ .samples x) :
    ((linkTones count work).tone place).tonesamples = (work.zone.tone place).tonesamples := by
  cases place with
  | samples x => exact absurd rfl (y x)
  | _ => rfl

theorem loadzone_ok (loaded : loadzone th g = .ok g') :
    0 ≤ th.zone ∧ th.zone ≤ 255 ∧ (∀ cur ∈ g.toneZones, (cur.num : Int) ≠ th.zone) ∧
      ∃ work, loadTones g.dialparams th th.count.toNat (emptyWorkarea th) = .ok work ∧
        g' = { g with toneZones := g.toneZones ++ [linkTones th.count work] } := by
  rw [loadzone] at loaded
  split at loaded
  · cases loaded
  rename_i numbered
  split at loaded
  · cases loaded
  split at loaded
  · cases loaded
  split at loaded
  · cases loaded
  rename_i work built
  rw [registerToneZone] at loaded
  split at loaded
  · cases loaded
  rename_i fresh
  have number : (linkTones th.count work).num = th.zone.toNat := load_tones_num built
  refine ⟨by omega, by omega, ?_, work, built, (Except.ok.inj loaded).symm⟩
  intro cur listed same
  exact fresh ⟨cur, listed, by omega⟩

/-- A zone that is accepted is accepted whatever the parameters and with every
    list of zones that has the same numbers. -/
theorem loadzone_accepts {h : Globals} (loaded : loadzone th g = .ok g')
    (numbers : h.toneZones.map Zone.num = g.toneZones.map Zone.num) :
    ∃ h', loadzone th h = .ok h' := by
  obtain ⟨low, high, fresh, work, built, _⟩ := loadzone_ok loaded
  obtain ⟨work', built'⟩ := load_tones_accept h.dialparams (emptyWorkarea th) built
  rw [loadzone] at loaded ⊢
  have number : (linkTones th.count work').num = th.zone.toNat := load_tones_num built'
  have fresh' : ¬∃ cur ∈ h.toneZones, cur.num = (linkTones th.count work').num := by
    rintro ⟨cur, listed, same⟩
    have named : cur.num ∈ g.toneZones.map Zone.num := by
      rw [← numbers]
      exact List.mem_map_of_mem listed
    obtain ⟨cur', listed', same'⟩ := List.mem_map.mp named
    have apart := fresh cur' listed'
    omega
  split at loaded
  · cases loaded
  rename_i numbered
  rw [if_neg numbered]
  split at loaded
  · cases loaded
  rename_i counted
  rw [if_neg counted]
  split at loaded
  · cases loaded
  rename_i small
  rw [if_neg small, built']
  simp only [registerToneZone, if_neg fresh']
  exact ⟨_, rfl⟩

/-- The zone found under the number is the one that was loaded. -/
theorem found_loaded (loaded : loadzone th g = .ok g') (defined : Defines th place) :
    zoneSamples g' th.zone place = some (loadedLength g.dialparams place) := by
  obtain ⟨low, high, fresh, work, built, rfl⟩ := loadzone_ok loaded
  have number : (linkTones th.count work).num = th.zone.toNat := load_tones_num built
  have skipped : g.toneZones.find? (fun z => decide ((z.num : Int) = th.zone)) = none := by
    rw [List.find?_eq_none]
    intro cur listed
    simpa using fresh cur listed
  have here : decide (((linkTones th.count work).num : Int) = th.zone) = true := by
    rw [number]
    exact decide_eq_true (by omega)
  have found : [linkTones th.count work].find? (fun z => decide ((z.num : Int) = th.zone)) =
      some (linkTones th.count work) := List.find?_cons_of_pos here
  rw [zoneSamples, List.find?_append, skipped, found]
  simp only [Option.none_or, Option.map_some]
  rw [link_tones_length th.count (defines_entry defined), load_tones_length built defined]

theorem set_keeps_numbers :
    (setDialparams tdp g).toneZones.map Zone.num = g.toneZones.map Zone.num := by
  simp only [setDialparams, List.map_map]
  rfl

theorem accepted_length (accepted : Accepted tdp place) :
    lengthOf (acceptParams tdp gdp) place = lengthOf tdp place := by
  cases place with
  | samples x => rfl
  | _ => exact if_pos accepted

theorem retime_control (control : Control place) :
    (retimeZone gdp z).tone place = z.tone place := by
  cases place with
  | mfr1 i =>
    have apart : ¬i ≤ 9 := by
      have high : 10 ≤ i := control
      omega
    exact if_neg apart
  | _ => exact control.elim

theorem set_control_length (num : Int) (control : Control place) :
    zoneSamples (setDialparams tdp g) num place = zoneSamples g num place := by
  have search : ((fun z : Zone => decide ((z.num : Int) = num)) ∘
      retimeZone (acceptParams tdp g.dialparams)) = fun z => decide ((z.num : Int) = num) := rfl
  simp only [zoneSamples, setDialparams, List.find?_map, search, Option.map_map]
  congr 1
  funext z
  simp only [Function.comp_apply, retime_control control]

/-- Loaded after the setting, a tone has its length in milliseconds as its number
    of samples. -/
theorem set_then_load_length {first : Globals} (done : setThenLoad tdp th g = .ok first)
    (defined : Defines th place) (accepted : Accepted tdp place) :
    zoneSamples first th.zone place =
      some (if Control place then 100 * chunksize else lengthOf tdp place) := by
  have len := found_loaded done defined
  rw [len, loadedLength]
  congr 2
  exact accepted_length accepted

theorem dial_params_commute_iff (tdp : DialParams) (th : ToneDefHeader) (g : Globals) {g' : Globals}
    (loaded : loadzone th g = .ok g') : Commute tdp th g ↔ Unaffected tdp th := by
  constructor
  · rintro ⟨first, second, done, _, agree⟩ place defined accepted
    have requested := (agree place defined accepted).2
    rw [set_then_load_length done defined accepted] at requested
    have samples := Option.some.inj requested
    unfold samplesPerMs at samples
    unfold Accepted at accepted
    split at samples
    · rename_i control
      unfold chunksize at samples
      exact ⟨control, by omega⟩
    · omega
  · intro unaffected
    obtain ⟨first, done⟩ := loadzone_accepts loaded (@set_keeps_numbers tdp g)
    have later : loadThenSet tdp th g = .ok (setDialparams tdp g') := by
      rw [loadThenSet, loaded]
      rfl
    refine ⟨first, _, done, later, ?_⟩
    intro place defined accepted
    obtain ⟨control, same⟩ := unaffected place defined accepted
    have front := set_then_load_length done defined accepted
    have back := found_loaded loaded defined
    rw [if_pos control] at front
    rw [loadedLength, if_pos control] at back
    rw [set_control_length th.zone control, front, back, same]
    exact ⟨rfl, rfl⟩

end zones

/-- A zone with one regular tone and the MFR1 tone KP. -/
def controlHeader : ToneDefHeader :=
  { count := 2
    zone := 3
    ringcadence := fun _ => 0
    tones := [⟨0, 0, 8000, noWave⟩, ⟨90, 0, 0, noWave⟩] }

theorem control_defines {place : Place} (defined : Defines controlHeader place) :
    place = .mfr1 10 := by
  obtain ⟨x, td, type, i, within, found, known, stored⟩ := defined
  have few : x < 2 := within
  obtain rfl | rfl : x = 0 ∨ x = 1 := by omega
  · rw [← Option.some.inj found] at known
    obtain ⟨rfl, rfl⟩ := Prod.mk.inj (Option.some.inj known)
    cases stored
  · rw [← Option.some.inj found] at known
    obtain ⟨rfl, rfl⟩ := Prod.mk.inj (Option.some.inj known)
    exact List.mem_singleton.mp stored

theorem dial_params_commute_iff_control :
    ∃ g', loadzone controlHeader initialGlobals = .ok g' ∧
      Commute ⟨100, 100, 100⟩ controlHeader initialGlobals := by
  refine ⟨_, rfl, (dial_params_commute_iff ⟨100, 100, 100⟩ controlHeader initialGlobals rfl).mpr ?_⟩
  intro place defined _
  rw [control_defines defined]
  decide

/-- A zone with the DTMF tone 0. -/
def digitHeader : ToneDefHeader :=
  { count := 1
    zone := 0
    ringcadence := fun _ => 0
    tones := [⟨64, 0, 0, noWave⟩] }

theorem order_changes_length : ¬Commute ⟨100, 100, 100⟩ digitHeader initialGlobals := by
  rintro ⟨first, second, done, later, agree⟩
  have defined : Defines digitHeader (.dtmf 0) :=
    ⟨0, ⟨64, 0, 0, noWave⟩, .dtmf, 0, by decide, rfl, rfl, List.mem_cons_self⟩
  have same := (agree (.dtmf 0) defined (by unfold Accepted; decide)).1
  have before : zoneSamples first 0 (.dtmf 0) = some 100 := by
    rw [← Except.ok.inj done]
    rfl
  have after : zoneSamples second 0 (.dtmf 0) = some 800 := by
    rw [← Except.ok.inj later]
    rfl
  have equal := before.symm.trans (same.trans after)
  cases equal

end Tone
