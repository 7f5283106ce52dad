import Mathlib

/-!
Tone zones: struct dahdi_zone, the DAHDI_LOADZONE and DAHDI_FREEZONE ioctls and
the global dialing parameters they read. A pointer to a tone is the place of
that tone.
-/
namespace Tone

/-- The tones a zone holds: those of its regular tones, by the position of their
    definition, and the entries of its arrays. -/
inductive Place where
  | samples (x : Nat)
  | dtmf (i : Nat)
  | dtmfContinuous (i : Nat)
  | mfr1 (i : Nat)
  | mfr2Fwd (i : Nat)
  | mfr2FwdContinuous (i : Nat)
  | mfr2Rev (i : Nat)
  | mfr2RevContinuous (i : Nat)
  deriving DecidableEq, Repr

inductive ToneRef where
  | inZone (place : Place)
  | dtmfSilence
  | mfr1Silence
  | mfr2Silence
  | tonePause
  deriving DecidableEq, Repr

/-- The constants a tone is generated from. -/
structure Wave where
  fac1 : Int
  initV21 : Int
  initV31 : Int
  fac2 : Int
  initV22 : Int
  initV32 : Int
  modulate : Int
  deriving DecidableEq, Repr

def noWave : Wave := ⟨0, 0, 0, 0, 0, 0, 0⟩

/-- struct dahdi_tone -/
structure DahdiTone where
  wave : Wave
  tonesamples : Int
  next : Option ToneRef
  deriving DecidableEq, Repr

/-- struct dahdi_zone, with `tones` by the number of the tone. -/
structure Zone where
  num : Nat
  ringcadence : Nat → Int
  tones : Nat → Option Place
  tone : Place → DahdiTone

/-- struct dahdi_dialparams -/
structure DialParams where
  mfv1Tonelen : Int
  dtmfTonelen : Int
  mfr2Tonelen : Int
  deriving DecidableEq, Repr

/-- struct dahdi_tone_def -/
structure ToneDef where
  tone : Int
  next : Int
  samples : Int
  wave : Wave
  deriving DecidableEq, Repr

/-- struct dahdi_tone_def_header and the definitions that follow it. -/
structure ToneDefHeader where
  count : Int
  zone : Int
  ringcadence : Nat → Int
  tones : List ToneDef

/-- What the tone code keeps outside the channels. -/
structure Globals where
  dialparams : DialParams
  toneZones : List Zone
  dtmfSilence : DahdiTone
  mfr1Silence : DahdiTone
  mfr2Silence : DahdiTone
  tonePause : DahdiTone

inductive LoadError where
  | einval
  | efault
  | e2big
  deriving DecidableEq, Repr

def samplesPerMs : Int := 8
def chunksize : Int := 8
def toneMax : Int := 16
def maxTones : Int := 128
def maxSize : Int := 32768
def sizeofZone : Int := 5464
def sizeofTone : Int := 48

inductive ToneType where
  | regular
  | dtmf
  | mfr1
  | mfr2Fwd
  | mfr2Rev
  deriving DecidableEq, Repr

/-- The kind of a tone id and the index the id stands for. -/
def toneType (tone : Int) : Option (ToneType × Nat) :=
  if 0 ≤ tone ∧ tone < toneMax then some (.regular, tone.toNat)
  else if 64 ≤ tone ∧ tone ≤ 79 then some (.dtmf, (tone - 64).toNat)
  else if 80 ≤ tone ∧ tone ≤ 94 then some (.mfr1, (tone - 80).toNat)
  else if 96 ≤ tone ∧ tone ≤ 110 then some (.mfr2Fwd, (tone - 96).toNat)
  else if 112 ≤ tone ∧ tone ≤ 126 then some (.mfr2Rev, (tone - 112).toNat)
  else none

def Zone.put (z : Zone) (place : Place) (t : DahdiTone) : Zone :=
  { z with tone := Function.update z.tone place t }

/-- A zone keeps the first definition of a regular tone. -/
def Zone.offer (z : Zone) (i : Nat) (place : Place) : Zone :=
  if z.tones i = none then { z with tones := Function.update z.tones i (some place) } else z

@[simp] theorem put_same (z : Zone) (place : Place) (t : DahdiTone) :
    (z.put place t).tone place = t := by
  simp [Zone.put]

theorem put_other (z : Zone) {place other : Place} (t : DahdiTone) (apart : other ≠ place) :
    (z.put place t).tone other = z.tone other := by
  simp [Zone.put, apart]

@[simp] theorem put_num (z : Zone) (place : Place) (t : DahdiTone) : (z.put place t).num = z.num := rfl

@[simp] theorem offer_tone (z : Zone) (i : Nat) (place : Place) : (z.offer i place).tone = z.tone := by
  unfold Zone.offer
  split <;> rfl

/-- An entry of an array whose tone runs for a given time and then goes on to a
    silence, and its copy that goes on to itself. -/
def Zone.putBoth (z : Zone) (entry continuous : Place) (t : DahdiTone) : Zone :=
  (z.put entry t).put continuous { t with next := some (.inZone continuous) }

/-- The signaling control tones KP, ST, STP, ST2P and ST3P. -/
def mfr1Control (i : Nat) : Prop := 10 ≤ i

instance (i : Nat) : Decidable (mfr1Control i) := inferInstanceAs (Decidable (10 ≤ i))

/-- struct load_zone_workarea and the zone under construction. -/
structure Workarea where
  zone : Zone
  samples : Nat → Bool
  next : Nat → Int

/-- One definition of a zone. -/
def loadTone (gdp : DialParams) (count : Int) (x : Nat) (td : ToneDef) (work : Workarea) :
    Except LoadError Workarea :=
  match toneType td.tone with
  | none => .error .einval
  | some (.regular, i) =>
    let next := td.next.bmod (2 ^ 16)
    if count ≤ next ∨ next < 0 then .error .einval
    else
      .ok
        { zone := (work.zone.put (.samples x) ⟨td.wave, td.samples, none⟩).offer i (.samples x)
          samples := Function.update work.samples x true
          next := Function.update work.next x next }
  | some (.dtmf, i) =>
    .ok { work with
      zone := work.zone.putBoth (.dtmf i) (.dtmfContinuous i)
        ⟨td.wave, gdp.dtmfTonelen, some .dtmfSilence⟩ }
  | some (.mfr1, i) =>
    .ok { work with
      zone := work.zone.put (.mfr1 i)
        ⟨td.wave, if mfr1Control i then 100 * chunksize else gdp.mfv1Tonelen, some .mfr1Silence⟩ }
  | some (.mfr2Fwd, i) =>
    .ok { work with
      zone := work.zone.putBoth (.mfr2Fwd i) (.mfr2FwdContinuous i)
        ⟨td.wave, gdp.mfr2Tonelen, some .dtmfSilence⟩ }
  | some (.mfr2Rev, i) =>
    .ok { work with
      zone := work.zone.putBoth (.mfr2Rev i) (.mfr2RevContinuous i)
        ⟨td.wave, gdp.mfr2Tonelen, some .dtmfSilence⟩ }

/-- The first definitions of a zone, in their order. -/
def loadTones (gdp : DialParams) (th : ToneDefHeader) : Nat → Workarea → Except LoadError Workarea
  | 0, work => .ok work
  | x + 1, work =>
    match loadTones gdp th x work with
    | .error e => .error e
    | .ok work =>
      match th.tones[x]? with
      | none => .error .efault
      | some td => loadTone gdp th.count x td work

/-- The next links of the regular tones, once all of them are known. -/
def linkTones (count : Int) (work : Workarea) : Zone :=
  { work.zone with
    tone := fun place =>
      match place with
      | .samples x =>
        if x < count ∧ work.samples x = true then
          { work.zone.tone (.samples x) with
            next :=
              if work.samples (work.next x).toNat then
                some (.inZone (.samples (work.next x).toNat))
              else none }
        else work.zone.tone (.samples x)
      | place => work.zone.tone place }

def emptyWorkarea (th : ToneDefHeader) : Workarea :=
  { zone :=
      { num := th.zone.toNat
        ringcadence := th.ringcadence
        tones := fun _ => none
        tone := fun _ => ⟨noWave, 0, none⟩ }
    samples := fun _ => false
    next := fun _ => 0 }

def registerToneZone (zone : Zone) (g : Globals) : Except LoadError Globals :=
  if ∃ cur ∈ g.toneZones, cur.num = zone.num then .error .einval
  else .ok { g with toneZones := g.toneZones ++ [zone] }

/-- dahdi_ioctl_loadzone -/
def loadzone (th : ToneDefHeader) (g : Globals) : Except LoadError Globals :=
  if th.zone < 0 ∨ 255 < th.zone then .error .einval
  else if th.count < 0 ∨ maxTones < th.count then .error .einval
  else if maxSize < sizeofZone + th.count * sizeofTone then .error .e2big
  else
    match loadTones g.dialparams th th.count.toNat (emptyWorkarea th) with
    | .error e => .error e
    | .ok work => registerToneZone (linkTones th.count work) g

/-- dahdi_ioctl_freezone, for the list of zones. -/
def freezone (num : Int) (g : Globals) : Globals :=
  { g with toneZones := g.toneZones.eraseP fun z => decide ((z.num : Int) = num) }

end Tone
