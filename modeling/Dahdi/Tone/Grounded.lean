import Dahdi.Channel.Transmit
import Dahdi.Signalling.SendTone

/-!
The tones of a channel as a source of its transmitter: the branch of
__dahdi_getbuf_chunk that plays them.
-/
namespace ToneSource
open Signalling Tone

/-- The samples of the current tone that are still to come. -/
def remaining (g : Globals) (t : Signalling.Chan) : Int :=
  match t.curtone with
  | none => 0
  | some cur => (tonePointed g cur).tonesamples - t.tonep

/-- The end of a tone: on to the next one, or to the next digit. -/
def advance (g : Globals) (t : Signalling.Chan) : Signalling.Chan :=
  match t.curtone with
  | none => { t with tonep := 0 }
  | some cur =>
    match (tonePointed g cur).next with
    | none =>
      let t := { t with tonep := 0, curtone := none }
      if t.dialing then doDtmf g t else t
    | some ref =>
      let t := { t with tonep := 0, curtone := some ⟨cur.zone, ref⟩ }
      if ref ≠ cur.ref then
        { t with ts := initToneState (tonePointed g ⟨cur.zone, ref⟩).wave }
      else t

def tonePlayed (g : Globals) (t : Signalling.Chan) (left : Int) : Signalling.Chan :=
  let t := { t with tonep := t.tonep + left }
  if remaining g t ≤ 0 then advance g t else t

/-- The environment of the buffer code with these tones. -/
def toneEnv (ppp : Channel.Env Unit) (g : Globals) : Channel.Env Signalling.Chan where
  pppFcs := ppp.pppFcs
  pppInitfcs := ppp.pppInitfcs
  pppGoodfcs := ppp.pppGoodfcs
  curtone t := t.curtone.isSome
  toneBusy t := t.curtone.isSome || decide (t.pdialcount ≠ 0)
  toneLeft := remaining g
  toneNextsample t :=
    match t.curtone with
    | none => (0, t)
    | some cur =>
      let (sample, ts) := Signalling.toneNextsample t.ts (tonePointed g cur).wave
      (sample, { t with ts := ts })
  tonePlayed := tonePlayed g
  toneStop := stopTone

/-- The tones from the current one on, with those of the digits still to be
    dialled, give these many samples or come to an end, and none on the way has a
    negative number of samples left. -/
inductive Feeds (g : Globals) : Signalling.Chan → Nat → Prop where
  | done (t : Signalling.Chan) : Feeds g t 0
  | ended {t : Signalling.Chan} {n : Nat} : t.curtone = none → Feeds g t n
  | enough {t : Signalling.Chan} {n : Nat} : t.curtone ≠ none → (n : Int) ≤ remaining g t →
      Feeds g t n
  | next {t : Signalling.Chan} {n k : Nat} : t.curtone ≠ none → remaining g t = k → k < n →
      Feeds g (advance g t) (n - k) → Feeds g t n

section lemmas
variable {ppp : Channel.Env Unit} {g : Globals} {t : Signalling.Chan} {n k : Nat}

theorem feeds_fewer (feeds : Feeds g t n) (fewer : k ≤ n) : Feeds g t k := by
  induction feeds generalizing k with
  | done t =>
    rw [Nat.le_zero.mp fewer]
    exact Feeds.done t
  | ended none_ => exact Feeds.ended none_
  | enough playing room => exact Feeds.enough playing (by omega)
  | @next t n j playing left short _ ih =>
    by_cases within : k ≤ j
    · exact Feeds.enough playing (by omega)
    · exact Feeds.next playing left (by omega) (ih (by omega))

/-- The same tones, but for the registers of the generator. -/
def Alike (a b : Signalling.Chan) : Prop := ∃ ts, b = { a with ts := ts }

theorem alike_trans {a b c : Signalling.Chan} (first : Alike a b) (second : Alike b c) : Alike a c := by
  obtain ⟨ts, rfl⟩ := first
  obtain ⟨ts', rfl⟩ := second
  exact ⟨ts', rfl⟩

theorem alike_symm {a b : Signalling.Chan} (alike : Alike a b) : Alike b a := by
  obtain ⟨ts, rfl⟩ := alike
  exact ⟨a.ts, rfl⟩

theorem sethook_alike {a b : Signalling.Chan} (alike : Alike a b) (txsig : TxSig) (txstate : TxState)
    (timeout : Int) : Alike (rbsSethook a txsig txstate timeout) (rbsSethook b txsig txstate timeout) := by
  obtain ⟨ts, rfl⟩ := alike
  refine ⟨ts, ?_⟩
  have takes : ({ a with ts := ts } : Signalling.Chan).takesHook = a.takesHook := rfl
  unfold rbsSethook
  rw [takes]
  split
  · rfl
  · simp only
    split
    · rfl
    · rfl

theorem dtmf_alike (buf : List Char) {a b : Signalling.Chan} (alike : Alike a b) :
    Alike (doDtmfFrom g buf a) (doDtmfFrom g buf b) := by
  induction buf generalizing a b with
  | nil =>
    obtain ⟨ts, rfl⟩ := alike
    exact ⟨ts, rfl⟩
  | cons c rest ih =>
    obtain ⟨ts, rfl⟩ := alike
    rw [doDtmfFrom, doDtmfFrom]
    simp only [mfTone]
    split
    · exact ih ⟨ts, rfl⟩
    · split
      · split
        · split
          · exact sethook_alike ⟨ts, rfl⟩ _ _ _
          · exact ih ⟨ts, rfl⟩
        · exact ih ⟨ts, rfl⟩
      · split
        · exact ⟨_, rfl⟩
        · exact ih ⟨ts, rfl⟩

/-- Where the tones go on does not depend on the samples played. -/
theorem advance_alike (ts : ToneState) (tonep : Int) :
    Alike (advance g t) (advance g { t with ts := ts, tonep := tonep }) := by
  unfold advance
  simp only
  split
  · exact ⟨ts, rfl⟩
  · split
    · split
      · exact dtmf_alike t.txdialbuf ⟨ts, rfl⟩
      · exact ⟨ts, rfl⟩
    · split
      · exact ⟨_, rfl⟩
      · exact ⟨ts, rfl⟩

theorem remaining_alike {a b : Signalling.Chan} (alike : Alike a b) :
    remaining g b = remaining g a ∧ b.curtone = a.curtone := by
  obtain ⟨ts, rfl⟩ := alike
  exact ⟨rfl, rfl⟩

theorem feeds_alike {a b : Signalling.Chan} (alike : Alike a b) (feeds : Feeds g a n) :
    Feeds g b n := by
  induction feeds generalizing b with
  | done t => exact Feeds.done b
  | ended none_ =>
    obtain ⟨_, same⟩ := @remaining_alike g _ _ alike
    exact Feeds.ended (same.trans none_)
  | enough playing room =>
    obtain ⟨left, same⟩ := @remaining_alike g _ _ alike
    exact Feeds.enough (by rw [same]; exact playing) (by rw [left]; exact room)
  | @next t n k playing left short _ ih =>
    obtain ⟨left', same⟩ := @remaining_alike g _ _ alike
    obtain ⟨ts, rfl⟩ := alike
    exact Feeds.next playing left short (ih (advance_alike ts t.tonep))

/-- The samples of a pass change the registers of the generator only. -/
theorem loop_alike (lin2x : Int → Fasthdlc.Octet) (n : Nat) (t : Signalling.Chan) :
    Alike t (Channel.toneLoop (toneEnv ppp g) lin2x n t).2 ∧
      (Channel.toneLoop (toneEnv ppp g) lin2x n t).1.length = n := by
  induction n generalizing t with
  | zero => exact ⟨⟨t.ts, rfl⟩, rfl⟩
  | succ n ih =>
    have one : Alike t ((toneEnv ppp g).toneNextsample t).2 := by
      simp only [toneEnv]
      split
      · exact ⟨t.ts, rfl⟩
      · exact ⟨_, rfl⟩
    obtain ⟨⟨ts, later⟩, count⟩ := ih ((toneEnv ppp g).toneNextsample t).2
    obtain ⟨ts', first⟩ := one
    rw [Channel.toneLoop]
    simp only
    refine ⟨⟨ts, ?_⟩, ?_⟩
    · rw [later, first]
    · rw [List.length_cons, count]

/-- A pass that plays the rest of a tone comes to the next one. -/
theorem played_through (playing : t.curtone ≠ none) (left : remaining g t = k) :
    tonePlayed g t k = advance g { t with tonep := t.tonep + k } := by
  have none_left : remaining g { t with tonep := t.tonep + (k : Int) } ≤ 0 := by
    cases cur : t.curtone with
    | none => exact absurd cur playing
    | some c =>
      simp only [remaining, cur] at left ⊢
      omega
  exact if_pos none_left

end lemmas

end ToneSource

/-!
Zones whose tones can be played for any time: no tone has a negative length, and
no tones of length zero go round in a circle.
-/
namespace ToneSource
open Signalling Tone

/-- From this tone on the links lead, past tones without samples, to a tone that
    has some or to the end. -/
inductive Grounded (g : Globals) (z : Zone) : ToneRef → Prop where
  | lasts {ref : ToneRef} : 0 < (tonePointed g ⟨z, ref⟩).tonesamples → Grounded g z ref
  | ends {ref : ToneRef} : (tonePointed g ⟨z, ref⟩).tonesamples = 0 →
      (tonePointed g ⟨z, ref⟩).next = none → Grounded g z ref
  | passes {ref ref' : ToneRef} : (tonePointed g ⟨z, ref⟩).tonesamples = 0 →
      (tonePointed g ⟨z, ref⟩).next = some ref' → Grounded g z ref' → Grounded g z ref

def SoundZone (g : Globals) (z : Zone) : Prop := ∀ ref, Grounded g z ref

/-- The tones a channel plays and can play are sound, and of the current one no
    more has been played than there is. -/
structure SoundTones (g : Globals) (t : Signalling.Chan) : Prop where
  zone : ∀ z, t.curzone = some z → SoundZone g z
  playing : ∀ cur, t.curtone = some cur →
    SoundZone g cur.zone ∧ 0 ≤ t.tonep ∧ t.tonep ≤ (tonePointed g cur).tonesamples

section sound
variable {g : Globals} {t : Signalling.Chan} {cur : CurTone}

theorem grounded_low (grounded : Grounded g cur.zone cur.ref) :
    0 ≤ (tonePointed g cur).tonesamples := by
  cases grounded with
  | lasts some_ => exact Int.le_of_lt some_
  | ends none_ _ => exact Int.le_of_eq none_.symm
  | passes none_ _ _ => exact Int.le_of_eq none_.symm

theorem remaining_some (playing : t.curtone = some cur) :
    remaining g t = (tonePointed g cur).tonesamples - t.tonep := by
  rw [remaining, playing]

theorem remaining_low (sound : SoundTones g t) : 0 ≤ remaining g t := by
  cases playing : t.curtone with
  | none => rw [remaining, playing]
  | some cur =>
    obtain ⟨_, _, within⟩ := sound.playing cur playing
    rw [remaining_some playing]
    omega

/-- A channel that only goes on to another place of the same tones. -/
theorem sound_start {t' : Signalling.Chan} (sound : SoundTones g t) (zone : t'.curzone = t.curzone)
    (started : ∀ cur, t'.curtone = some cur → SoundZone g cur.zone ∧ t'.tonep = 0) :
    SoundTones g t' := by
  constructor
  · intro z here
    rw [zone] at here
    exact sound.zone z here
  · intro cur playing
    obtain ⟨good, zero⟩ := started cur playing
    refine ⟨good, by omega, ?_⟩
    rw [zero]
    exact grounded_low (good cur.ref)

theorem sound_same {t' : Signalling.Chan} (sound : SoundTones g t) (zone : t'.curzone = t.curzone)
    (curtone : t'.curtone = t.curtone) (tonep : t'.tonep = t.tonep) : SoundTones g t' := by
  constructor
  · rw [zone]
    exact sound.zone
  · rw [curtone, tonep]
    exact sound.playing

theorem sound_silent {t' : Signalling.Chan} (sound : SoundTones g t) (zone : t'.curzone = t.curzone)
    (silent : t'.curtone = none) : SoundTones g t' :=
  sound_start sound zone fun cur playing => by
    rw [silent] at playing
    cases playing

theorem sethook_zone (t : Signalling.Chan) (txsig : TxSig) (txstate : TxState) (timeout : Int) :
    (rbsSethook t txsig txstate timeout).curzone = t.curzone ∧
      (rbsSethook t txsig txstate timeout).curtone = t.curtone ∧
      (rbsSethook t txsig txstate timeout).tonep = t.tonep := by
  unfold rbsSethook
  simp only
  split
  · exact ⟨rfl, rfl, rfl⟩
  · split
    · exact ⟨rfl, rfl, rfl⟩
    · exact ⟨rfl, rfl, rfl⟩

theorem mf_tone_zone {c : Char} {mode : DigitMode} (found : mfTone t c mode = some cur) :
    t.curzone = some cur.zone := by
  unfold mfTone at found
  cases zone : t.curzone with
  | none =>
    rw [zone] at found
    cases found
  | some z =>
    rw [zone] at found
    simp only at found
    split at found
    · rw [← Option.some.inj found]
    · obtain ⟨place, _, rfl⟩ := Option.map_eq_some_iff.mp found
      rfl

theorem sound_dtmf (buf : List Char) (sound : SoundTones g t) :
    SoundTones g (doDtmfFrom g buf t) := by
  induction buf generalizing t with
  | nil => exact sound_same sound rfl rfl rfl
  | cons c rest ih =>
    have read : SoundTones g { t with txdialbuf := rest } := sound_same sound rfl rfl rfl
    rw [doDtmfFrom]
    simp only
    split
    · apply ih
      apply sound_start sound
      · rfl
      · intro cur playing
        exact ⟨(sound.playing cur playing).1, rfl⟩
    · split
      · split
        · split
          · rename_i digit _ _
            obtain ⟨zone, curtone, tonep⟩ := sethook_zone
              { t with txdialbuf := rest, pdialcount := if digit = 0 then 10 else digit }
              .onhook .pulsebreak t.times.pulsebreaktime
            exact sound_same read zone curtone tonep
          · exact ih read
        · exact ih read
      · split
        · rename_i tone found
          apply sound_start sound
          · rfl
          · intro cur playing
            rw [← Option.some.inj playing]
            have zone := mf_tone_zone found
            exact ⟨sound.zone _ zone, rfl⟩
        · exact ih (sound_silent sound rfl rfl)

/-- A tone that dialing starts is at its beginning and has taken a digit. -/
theorem dtmf_started (buf : List Char) (silent : t.curtone = none) :
    (doDtmfFrom g buf t).curtone = none ∨
      (doDtmfFrom g buf t).tonep = 0 ∧ (doDtmfFrom g buf t).txdialbuf.length < buf.length := by
  induction buf generalizing t with
  | nil => exact Or.inl silent
  | cons c rest ih =>
    have later {t' : Signalling.Chan} (silent : t'.curtone = none) :
        (doDtmfFrom g rest t').curtone = none ∨ (doDtmfFrom g rest t').tonep = 0 ∧
          (doDtmfFrom g rest t').txdialbuf.length < (c :: rest).length := by
      rw [List.length_cons]
      rcases ih silent with none_ | ⟨zero, fewer⟩
      · exact Or.inl none_
      · exact Or.inr ⟨zero, by omega⟩
    rw [doDtmfFrom]
    simp only
    split
    · exact later silent
    · split
      · split
        · split
          · rename_i digit _ _
            obtain ⟨_, curtone, _⟩ := sethook_zone
              { t with txdialbuf := rest, pdialcount := if digit = 0 then 10 else digit }
              .onhook .pulsebreak t.times.pulsebreaktime
            exact Or.inl (curtone.trans silent)
          · exact later silent
        · exact later silent
      · split
        · exact Or.inr ⟨rfl, Nat.lt_succ_self _⟩
        · exact later rfl

/-- The end of a tone leads to the beginning of another, or to none. -/
theorem advance_started (g : Globals) (t : Signalling.Chan) :
    (advance g t).curtone = none ∨ (advance g t).tonep = 0 := by
  unfold advance
  split
  · exact Or.inr rfl
  · split
    · simp only
      split
      · rcases @dtmf_started g { t with tonep := 0, curtone := none } t.txdialbuf rfl with
          silent | ⟨zero, _⟩
        · exact Or.inl silent
        · exact Or.inr zero
      · exact Or.inl rfl
    · split
      · exact Or.inr rfl
      · exact Or.inr rfl

theorem sound_advance (sound : SoundTones g t) : SoundTones g (advance g t) := by
  unfold advance
  split
  · rename_i silent
    exact sound_silent sound rfl silent
  · rename_i cur playing
    obtain ⟨good, _⟩ := sound.playing cur playing
    split
    · simp only
      split
      · exact sound_dtmf t.txdialbuf (sound_silent sound rfl rfl)
      · exact sound_silent sound rfl rfl
    · rename_i ref _
      have next {t' : Signalling.Chan} (zone : t'.curzone = t.curzone)
          (curtone : t'.curtone = some ⟨cur.zone, ref⟩) (zero : t'.tonep = 0) : SoundTones g t' := by
        apply sound_start sound zone
        intro cur' playing'
        rw [curtone] at playing'
        rw [← Option.some.inj playing']
        exact ⟨good, zero⟩
      simp only
      split
      · exact next rfl rfl rfl
      · exact next rfl rfl rfl

theorem sound_played {left : Int} (sound : SoundTones g t) (low : 0 ≤ left)
    (within : left ≤ remaining g t) : SoundTones g (tonePlayed g t left) := by
  have played : SoundTones g { t with tonep := t.tonep + left } := by
    constructor
    · exact sound.zone
    · intro cur playing
      obtain ⟨good, before, _⟩ := sound.playing cur playing
      have here : t.curtone = some cur := playing
      rw [remaining_some here] at within
      exact ⟨good, by simp only; omega, by simp only; omega⟩
  unfold tonePlayed
  simp only
  split
  · exact sound_advance played
  · exact played

theorem advance_ends (playing : t.curtone = some cur) (last : (tonePointed g cur).next = none) :
    advance g t =
      if t.dialing then doDtmf g { t with tonep := 0, curtone := none }
      else { t with tonep := 0, curtone := none } := by
  simp only [advance, playing, last]

theorem advance_passes {ref : ToneRef} (playing : t.curtone = some cur)
    (next : (tonePointed g cur).next = some ref) :
    (advance g t).curtone = some ⟨cur.zone, ref⟩ ∧ (advance g t).tonep = 0 ∧
      (advance g t).txdialbuf = t.txdialbuf := by
  simp only [advance, playing, next]
  split
  · exact ⟨rfl, rfl, rfl⟩
  · exact ⟨rfl, rfl, rfl⟩

end sound

section feeding
variable {g : Globals} {n : Nat}

/-- One pass over the current tone, when what it leaves can be fed by what
    follows. -/
theorem feeds_step {t : Signalling.Chan} (sound : SoundTones g t)
    (more : ∀ m, m < n → ∀ t', SoundTones g t' → Feeds g t' m)
    (next : remaining g t = 0 → Feeds g (advance g t) n) : Feeds g t n := by
  by_cases silent : t.curtone = none
  · exact Feeds.ended silent
  · have low := remaining_low sound
    by_cases enough : (n : Int) ≤ remaining g t
    · exact Feeds.enough silent enough
    · obtain ⟨k, left⟩ := Int.eq_ofNat_of_zero_le low
      apply Feeds.next silent left (by omega)
      by_cases none_ : k = 0
      · rw [none_, Nat.sub_zero]
        exact next (by omega)
      · exact more (n - k) (by omega) _ (sound_advance sound)

/-- At the beginning of a tone, by the digits still to be dialled and the links
    that lead on from the tone. -/
theorem feeds_started (more : ∀ m, m < n → ∀ t', SoundTones g t' → Feeds g t' m) (digits : Nat)
    (t : Signalling.Chan) (few : t.txdialbuf.length ≤ digits) (sound : SoundTones g t)
    (start : t.tonep = 0) : Feeds g t n := by
  induction digits using Nat.strong_induction_on generalizing t with
  | _ digits shorter =>
    cases playing : t.curtone with
    | none => exact Feeds.ended playing
    | some cur =>
      have grounded := (sound.playing cur playing).1 cur.ref
      obtain ⟨z, ref⟩ := cur
      simp only at grounded
      induction grounded generalizing t with
      | lasts some_ =>
        apply feeds_step sound more
        intro none_
        rw [remaining_some playing, start] at none_
        omega
      | ends none_ last =>
        apply feeds_step sound more
        intro _
        have after := sound_advance sound
        by_cases silent : (advance g t).curtone = none
        · exact Feeds.ended silent
        · have dialled := advance_ends playing last
          by_cases dialing : t.dialing
          · rw [if_pos dialing] at dialled
            rw [dialled] at silent after ⊢
            obtain ⟨zero, fewer⟩ :=
              (@dtmf_started g { t with tonep := 0, curtone := none } t.txdialbuf rfl).resolve_left
                silent
            exact shorter _ (Nat.lt_of_lt_of_le fewer few) _ (Nat.le_refl _) after zero
          · rw [if_neg dialing] at dialled
            rw [dialled] at silent
            exact absurd rfl silent
      | passes none_ next _ ih =>
        apply feeds_step sound more
        intro _
        obtain ⟨curtone, zero, buf⟩ := advance_passes playing next
        exact ih (advance g t) (by rw [buf]; exact few) (sound_advance sound) zero curtone

/-- Sound tones can be played for any time. -/
theorem sound_feeds (t : Signalling.Chan) (sound : SoundTones g t) : Feeds g t n := by
  induction n using Nat.strong_induction_on generalizing t with
  | _ n more =>
    apply feeds_step sound more
    intro _
    rcases advance_started g t with silent | zero
    · exact Feeds.ended silent
    · exact feeds_started more _ _ (Nat.le_refl _) (sound_advance sound) zero

end feeding

end ToneSource
