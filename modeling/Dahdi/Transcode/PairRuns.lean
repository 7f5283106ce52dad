import Dahdi.Transcode.Pairs

/-!
Over every interleaving of calls: the two channels of a pair are built together, and when an
allocation that succeeds has the formats it asked for.
-/
namespace TranscoderPairs
open Transcode

section Conditions

/-- built_fmts for these formats. -/
def word (fmts : Formats) : BitVec 32 := fmts.dstfmt ||| fmts.srcfmt

/-- The two channels of every pair are built for the same formats with each other's numbers, or
    neither is. -/
def Paired (s : State) : Prop :=
  ∀ c, (s.core.channels (complement c)).built = (s.core.channels c).built ∧
    ((s.core.channels c).built = true →
      (s.core.channels (complement c)).builtFmts = (s.core.channels c).builtFmts ∧
        s.chanIn (complement c) = s.chanOut c ∧ s.chanOut (complement c) = s.chanIn c)

/-- The channel a call is to have, with its formats. -/
def target (phase : Phase) : Option (Chan × Formats) :=
  match phase with
  | .chosen _ fmts c | .leaving _ fmts c _ | .entered _ fmts c | .waiting _ fmts c => some (c, fmts)
  | .idle | .returned _ _ _ | .closing _ _ => none

/-- The channel of a call that its file does not have yet. -/
def fresh (phase : Phase) : Option Chan :=
  match phase with
  | .chosen _ _ c | .leaving _ _ c _ => some c
  | _ => none

/-- The file that a call is changing, and the channel that the file has. -/
def expects (phase : Phase) : Option (Nat × Option Chan) :=
  match phase with
  | .leaving f _ _ old => some (f, old)
  | .entered f _ c | .waiting f _ c => some (f, some c)
  | .closing f c => some (f, some c)
  | .idle | .chosen _ _ _ | .returned _ _ _ => none

def privateOf (s : State) (f : Nat) : Option Chan := TranscoderOwnership.holds s.core f

/-- Channels are held by calls and by files. -/
def holder (s : State) : Nat ⊕ Nat → Option Chan
  | .inl r => fresh (s.threads r)
  | .inr f => privateOf s f

/-- Each channel has one holder, and each file one call that changes it; a channel keeps the formats
    of its call, and is built for no others. -/
structure Owned (s : State) : Prop where
  busy : ∀ o c, holder s o = some c → (s.core.channels c).busy = true
  alone : ∀ o o' c, holder s o = some c → holder s o' = some c → o = o'
  expects : ∀ r f x, expects (s.threads r) = some (f, x) → privateOf s f = x
  single : ∀ r r' f x x', TranscoderPairs.expects (s.threads r) = some (f, x) →
    TranscoderPairs.expects (s.threads r') = some (f, x') → r = r'
  asked : ∀ r c fmts, target (s.threads r) = some (c, fmts) →
    TranscoderOwnership.requested s.core c = fmts
  agrees : ∀ r c fmts, target (s.threads r) = some (c, fmts) → (s.core.channels c).built = true →
    (s.core.channels c).builtFmts = word fmts

/-- A file moves to its new channel with no other call changing the file, and a pair is built with no
    call after other formats coming to the other channel. -/
def apart (s : State) (op : Op) : Prop :=
  match op with
  | .move r _ _ => ∀ f fmts c, s.threads r = .chosen f fmts c → ∀ r' x, expects (s.threads r') ≠ some (f, x)
  | .build r created => ∀ f fmts c, s.threads r = .waiting f fmts c → (s.core.channels c).built = false →
      (∃ encoder decoder, created = .whole encoder decoder) →
        ∀ r' other, target (s.threads r') = some (complement c, other) → word other = word fmts
  | _ => True

/-- A call that returns success leaves its file the channel, built for the formats it asked for. -/
def served (s : State) (op : Op) (s' : State) : Prop :=
  match op with
  | .check r _ | .build r _ => ∀ f fmts c, fileOf (s.threads r) = some f → s'.threads r = .returned fmts c true →
      privateOf s' f = some c ∧ (s'.core.channels c).built = true ∧ (s'.core.channels c).builtFmts = word fmts
  | _ => True

end Conditions

section Pairs
variable {s s' : State} {c : Chan}

theorem complement_twice (c : Chan) : complement (complement c) = c := by
  rcases c with ⟨tc, i⟩
  rw [complement, complement]
  congr 1
  dsimp only
  split <;> split <;> omega

theorem complement_ne (c : Chan) : complement c ≠ c := by
  intro same
  have index := congrArg Prod.fst same
  rw [complement] at index
  dsimp only at index
  split at index <;> omega

theorem complement_iff (x c : Chan) : complement x = c ↔ x = complement c := by
  constructor
  · intro same
    rw [← same, complement_twice]
  · intro same
    rw [same, complement_twice]

/-- What is read of the channels to see whether they are paired is as it was. -/
theorem paired_congr (paired : Paired s) (built : ∀ c, (s'.core.channels c).built = (s.core.channels c).built)
    (fmts : ∀ c, (s'.core.channels c).builtFmts = (s.core.channels c).builtFmts) (chanIn : s'.chanIn = s.chanIn)
    (chanOut : s'.chanOut = s.chanOut) : Paired s' := by
  intro c
  rw [built, built, fmts, fmts, chanIn, chanOut]
  exact paired c

theorem set_pair_in (fmts : Option Formats) {x : Chan} (inside : x = c ∨ x = complement c) :
    (setPair c fmts s).core.channels x = rebuilt fmts (s.core.channels x) :=
  if_pos inside

theorem set_pair_out (fmts : Option Formats) {x : Chan} (outside : ¬ (x = c ∨ x = complement c)) :
    (setPair c fmts s).core.channels x = s.core.channels x :=
  if_neg outside

theorem set_pair_kept (c : Chan) (fmts : Option Formats) (s : State) (x : Chan) :
    ((setPair c fmts s).core.channels x).busy = (s.core.channels x).busy ∧
      ((setPair c fmts s).core.channels x).srcfmt = (s.core.channels x).srcfmt ∧
        ((setPair c fmts s).core.channels x).dstfmt = (s.core.channels x).dstfmt := by
  by_cases inside : x = c ∨ x = complement c
  · rw [set_pair_in fmts inside]
    cases fmts with
    | none => exact ⟨rfl, rfl, rfl⟩
    | some fmts => exact ⟨rfl, rfl, rfl⟩
  · rw [set_pair_out fmts inside]
    exact ⟨rfl, rfl, rfl⟩

theorem pair_closed (c x : Chan) : (complement x = c ∨ complement x = complement c) ↔ (x = c ∨ x = complement c) := by
  rw [complement_iff, complement_iff, complement_twice]
  exact or_comm

/-- Both channels of a pair are changed at once. -/
theorem paired_set (paired : Paired s) (fmts : Option Formats) {chanIn chanOut : Chan → Nat}
    (others : ∀ x, ¬ (x = c ∨ x = complement c) → chanIn x = s.chanIn x ∧ chanOut x = s.chanOut x)
    (numbers : fmts.isSome = true → chanIn (complement c) = chanOut c ∧ chanOut (complement c) = chanIn c) :
    Paired { setPair c fmts s with chanIn := chanIn, chanOut := chanOut } := by
  intro x
  dsimp only
  by_cases inside : x = c ∨ x = complement c
  · rw [set_pair_in fmts inside, set_pair_in fmts ((pair_closed c x).mpr inside)]
    cases fmts with
    | none => exact ⟨rfl, nofun⟩
    | some fmts =>
      refine ⟨rfl, fun _ => ⟨rfl, ?_⟩⟩
      obtain ⟨first, second⟩ := numbers rfl
      rcases inside with rfl | rfl
      · exact ⟨first, second⟩
      · rw [complement_twice]
        exact ⟨second.symm, first.symm⟩
  · have outside : ¬ (complement x = c ∨ complement x = complement c) := fun there => inside ((pair_closed c x).mp there)
    rw [set_pair_out fmts inside, set_pair_out fmts outside, (others x inside).1, (others x inside).2,
      (others _ outside).1, (others _ outside).2]
    exact paired x

end Pairs

section Effects
variable {s s' : State} {c : Chan}

/-- Some channels may have been unbuilt, and nothing else has changed that the holders rely on. -/
structure Lowered (s s' : State) : Prop where
  privates : ∀ f, privateOf s' f = privateOf s f
  threads : s'.threads = s.threads
  busy : ∀ x, (s'.core.channels x).busy = (s.core.channels x).busy
  asked : ∀ x, (s'.core.channels x).srcfmt = (s.core.channels x).srcfmt ∧
    (s'.core.channels x).dstfmt = (s.core.channels x).dstfmt
  built : ∀ x, (s'.core.channels x).built = true → (s.core.channels x).built = true ∧
    (s'.core.channels x).builtFmts = (s.core.channels x).builtFmts

theorem lowered_refl (s : State) : Lowered s s :=
  ⟨fun _ => rfl, rfl, fun _ => rfl, fun _ => ⟨rfl, rfl⟩, fun _ there => ⟨there, rfl⟩⟩

theorem unbuilt_lowered (c : Chan) (s : State) :
    Lowered s (setNumbers (complement c) INVALID INVALID (setNumbers c INVALID INVALID (setPair c none s))) := by
  refine ⟨fun _ => rfl, rfl, fun x => (set_pair_kept c none s x).1, fun x => (set_pair_kept c none s x).2, fun x there => ?_⟩
  · by_cases inside : x = c ∨ x = complement c
    · have gone : ((setPair c none s).core.channels x).built = false := congrArg Channel.built (set_pair_in none inside)
      exact absurd (gone.symm.trans there) (by decide)
    · have same : (setPair c none s).core.channels x = s.core.channels x := set_pair_out none inside
      have there' : ((setPair c none s).core.channels x).built = true := there
      rw [same] at there'
      exact ⟨there', congrArg Channel.builtFmts same⟩

theorem unbuilt_paired (paired : Paired s) (c : Chan) :
    Paired (setNumbers (complement c) INVALID INVALID (setNumbers c INVALID INVALID (setPair c none s))) := by
  refine paired_set paired none (fun x outside => ?_) nofun
  have first : x ≠ c := fun same => outside (.inl same)
  have second : x ≠ complement c := fun same => outside (.inr same)
  exact ⟨(Function.update_of_ne second _ _).trans (Function.update_of_ne first _ _),
    (Function.update_of_ne second _ _).trans (Function.update_of_ne first _ _)⟩

/-- A release leaves everything as it is or unbuilds the pair. -/
theorem release_kept (config : Nat → Transcoder) (c : Chan) (shutdown destroyed : Bool) (s : State) :
    Lowered s (parentRelease config c shutdown destroyed s) ∧
      (Paired s → Paired (parentRelease config c shutdown destroyed s)) := by
  rw [parentRelease, operationRelease]
  split
  · split
    · exact ⟨lowered_refl s, id⟩
    · split
      · exact ⟨lowered_refl s, id⟩
      · split
        · exact ⟨lowered_refl s, id⟩
        · split
          · exact ⟨lowered_refl s, id⟩
          · exact ⟨unbuilt_lowered c s, fun paired => unbuilt_paired paired c⟩
  · exact ⟨lowered_refl s, id⟩

theorem encoder_decoder (c : Chan) :
    encoderOf c = c ∧ decoderOf c = complement c ∨ encoderOf c = complement c ∧ decoderOf c = c := by
  rw [encoderOf, decoderOf]
  split
  · exact .inl ⟨rfl, rfl⟩
  · exact .inr ⟨rfl, rfl⟩

/-- Creating a pair changes the numbers of its two channels only. -/
theorem create_kept (c : Chan) (created : Created) (s : State) :
    (createChannelPair c created s).2.core = s.core ∧ (createChannelPair c created s).2.threads = s.threads ∧
      ∀ x, ¬ (x = c ∨ x = complement c) → (createChannelPair c created s).2.chanIn x = s.chanIn x ∧
        (createChannelPair c created s).2.chanOut x = s.chanOut x := by
  have elsewhere (x : Chan) (outside : ¬ (x = c ∨ x = complement c)) : x ≠ encoderOf c ∧ x ≠ decoderOf c := by
    rcases encoder_decoder c with ⟨encoder, decoder⟩ | ⟨encoder, decoder⟩
    · rw [encoder, decoder]
      exact ⟨fun same => outside (.inl same), fun same => outside (.inr same)⟩
    · rw [encoder, decoder]
      exact ⟨fun same => outside (.inr same), fun same => outside (.inl same)⟩
  cases created with
  | none => exact ⟨rfl, rfl, fun _ _ => ⟨rfl, rfl⟩⟩
  | half encoder decoder =>
    refine ⟨rfl, rfl, fun x outside => ?_⟩
    exact ⟨Function.update_of_ne (elsewhere x outside).1 _ _, Function.update_of_ne (elsewhere x outside).1 _ _⟩
  | broken encoder decoder | whole encoder decoder =>
    refine ⟨rfl, rfl, fun x outside => ?_⟩
    obtain ⟨first, second⟩ := elsewhere x outside
    exact ⟨(Function.update_of_ne second _ _).trans (Function.update_of_ne first _ _),
      (Function.update_of_ne second _ _).trans (Function.update_of_ne first _ _)⟩

/-- While neither channel of a pair is built their numbers do not count. -/
theorem paired_numbers (paired : Paired s) (unbuilt : (s.core.channels c).built = false) (core : s'.core = s.core)
    (others : ∀ x, ¬ (x = c ∨ x = complement c) → s'.chanIn x = s.chanIn x ∧ s'.chanOut x = s.chanOut x) :
    Paired s' := by
  intro x
  rw [core]
  by_cases inside : x = c ∨ x = complement c
  · refine ⟨(paired x).1, fun there => ?_⟩
    have gone : (s.core.channels x).built = false := by
      rcases inside with rfl | rfl
      · exact unbuilt
      · exact (paired c).1.trans unbuilt
    exact absurd (gone.symm.trans there) (by decide)
  · have outside : ¬ (complement x = c ∨ complement x = complement c) := fun there => inside ((pair_closed c x).mp there)
    rw [(others x inside).1, (others x inside).2, (others _ outside).1, (others _ outside).2]
    exact paired x

/-- What do_channel_allocate does: the channel is built already, or it stays unbuilt, or it is
    built now, with its complement, for its formats. -/
inductive Allocated (c : Chan) (created : Created) (s : State) (r : Bool × State) : Prop where
  | already : (s.core.channels c).built = true → r = (true, s) → Allocated c created s r
  | failed : (s.core.channels c).built = false → r.1 = false → r.2.core = s.core → r.2.threads = s.threads →
      (Paired s → Paired r.2) → Allocated c created s r
  | now (unbuilt : (s.core.channels c).built = false) (whole : ∃ encoder decoder, created = .whole encoder decoder) :
      r.1 = true → r.2.threads = s.threads →
      r.2.core = (setPair c (some ⟨(s.core.channels c).srcfmt, (s.core.channels c).dstfmt⟩) s).core →
      (Paired s → Paired r.2) → Allocated c created s r

theorem allocated (c : Chan) (created : Created) (s : State) : Allocated c created s (doChannelAllocate c created s) := by
  cases built : (s.core.channels c).built with
  | true => exact .already built (by rw [doChannelAllocate, if_pos built])
  | false =>
    have kept := create_kept c created s
    have unbuilt : ¬ (s.core.channels c).built = true := by rw [built]; decide
    cases result : createChannelPair c created s with
    | mk ok s₁ =>
      rw [result] at kept
      obtain ⟨core, threads, others⟩ := kept
      dsimp only at core threads others
      cases ok with
      | false =>
        have all : doChannelAllocate c created s = (false, s₁) := by rw [doChannelAllocate, if_neg unbuilt, result]
        rw [all]
        exact .failed built rfl core threads fun paired => paired_numbers paired built core others
      | true =>
        have all : doChannelAllocate c created s =
            (true, setNumbers (complement c) (s₁.chanOut c) (s₁.chanIn c)
              (setPair c (some ⟨(s₁.core.channels c).srcfmt, (s₁.core.channels c).dstfmt⟩) s₁)) := by
          rw [doChannelAllocate, if_neg unbuilt, result]
        have whole : ∃ encoder decoder, created = .whole encoder decoder := by
          cases created with
          | whole encoder decoder => exact ⟨encoder, decoder, rfl⟩
          | none | half _ _ | broken _ _ => cases congrArg Prod.fst result
        rw [all]
        refine .now built whole rfl threads ?_ fun paired => ?_
        · rw [← core]
          rw [setPair, setPair, setNumbers]
          dsimp only
          rw [core]
        · have before : Paired s₁ := paired_numbers paired built core others
          refine paired_set before _ (fun x outside => ?_) fun _ =>
            ⟨(Function.update_self _ _ _).trans ?_, (Function.update_self _ _ _).trans ?_⟩
          · have second : x ≠ complement c := fun same => outside (.inr same)
            exact ⟨Function.update_of_ne second _ _, Function.update_of_ne second _ _⟩
          · exact (Function.update_of_ne (complement_ne c).symm _ _).symm
          · exact (Function.update_of_ne (complement_ne c).symm _ _).symm

end Effects

section Holders
variable {s s' : State} {r f : Nat} {phase : Phase}

theorem target_held (owned : Owned s) {c : Chan} {fmts : Formats} (has : target (s.threads r) = some (c, fmts)) :
    fresh (s.threads r) = some c ∨ ∃ f, expects (s.threads r) = some (f, some c) ∧ privateOf s f = some c := by
  cases now : s.threads r with
  | idle | returned _ _ _ | closing _ _ =>
    rw [now] at has
    cases has
  | chosen f fmts' c' | leaving f fmts' c' old =>
    rw [now] at has
    cases has
    exact .inl rfl
  | entered f fmts' c' | waiting f fmts' c' =>
    rw [now] at has
    cases has
    exact .inr ⟨f, rfl, owned.expects r f (some c) (by rw [now]; rfl)⟩

/-- Two calls do not come to have the same channel. -/
theorem target_alone (owned : Owned s) {r' : Nat} {c : Chan} {fmts fmts' : Formats}
    (has : target (s.threads r) = some (c, fmts)) (also : target (s.threads r') = some (c, fmts')) : r = r' := by
  rcases target_held owned has with new | ⟨f, file, holds⟩ <;>
    rcases target_held owned also with new' | ⟨f', file', holds'⟩
  · exact Sum.inl.inj (owned.alone (.inl r) (.inl r') c new new')
  · cases owned.alone (.inl r) (.inr f') c new holds'
  · cases owned.alone (.inr f) (.inl r') c holds new'
  · obtain rfl := Sum.inr.inj (owned.alone (.inr f) (.inr f') c holds holds')
    exact owned.single r r' f _ _ file file'

theorem target_busy (owned : Owned s) {c : Chan} {fmts : Formats} (has : target (s.threads r) = some (c, fmts)) :
    (s.core.channels c).busy = true := by
  rcases target_held owned has with new | ⟨f, _, holds⟩
  · exact owned.busy (.inl r) c new
  · exact owned.busy (.inr f) c holds

theorem owned_lowered (owned : Owned s) (lowered : Lowered s s') : Owned s' := by
  have holders : ∀ o, holder s' o = holder s o := by
    rintro (r | f)
    · rw [holder, holder, lowered.threads]
    · exact lowered.privates f
  refine ⟨fun o c held => ?_, fun o o' c held held' => ?_, fun r f x file => ?_, fun r r' f x x' file file' => ?_,
    fun r c fmts has => ?_, fun r c fmts has built => ?_⟩
  · rw [holders] at held
    rw [lowered.busy]
    exact owned.busy o c held
  · rw [holders] at held held'
    exact owned.alone o o' c held held'
  · rw [lowered.threads] at file
    rw [lowered.privates]
    exact owned.expects r f x file
  · rw [lowered.threads] at file file'
    exact owned.single r r' f x x' file file'
  · rw [lowered.threads] at has
    rw [TranscoderOwnership.requested, (lowered.asked c).1, (lowered.asked c).2]
    exact owned.asked r c fmts has
  · rw [lowered.threads] at has
    obtain ⟨before, same⟩ := lowered.built c built
    rw [same]
    exact owned.agrees r c fmts has before

theorem thread_self (r : Nat) (phase : Phase) (s : State) : (setThread r phase s).threads r = phase :=
  Function.update_self _ _ _

theorem thread_other (phase : Phase) (s : State) {r r' : Nat} (other : r' ≠ r) :
    (setThread r phase s).threads r' = s.threads r' :=
  Function.update_of_ne other _ _

/-- A call goes on with what it has, and may come to change a file that no other call changes. -/
theorem owned_thread (owned : Owned s) (new : ∀ c, fresh phase = some c → fresh (s.threads r) = some c)
    (has : ∀ t, target phase = some t → target (s.threads r) = some t)
    (file : ∀ f x, expects phase = some (f, x) → privateOf s f = x ∧
      ∀ r', r' ≠ r → ∀ x', expects (s.threads r') ≠ some (f, x')) : Owned (setThread r phase s) := by
  have holders : ∀ o c, holder (setThread r phase s) o = some c → holder s o = some c := by
    rintro (r' | f) c held
    · rw [holder] at held
      by_cases mine : r' = r
      · rw [mine, thread_self] at held
        rw [mine]
        exact new c held
      · rw [thread_other phase s mine] at held
        exact held
    · exact held
  refine ⟨fun o c held => owned.busy o c (holders o c held), fun o o' c held held' =>
    owned.alone o o' c (holders o c held) (holders o' c held'), fun r' f x now => ?_, fun r₁ r₂ f x x' one two => ?_,
    fun r' c fmts now => ?_, fun r' c fmts now built => ?_⟩
  · by_cases mine : r' = r
    · rw [mine, thread_self] at now
      exact (file f x now).1
    · rw [thread_other phase s mine] at now
      exact owned.expects r' f x now
  · by_cases first : r₁ = r
    · by_cases second : r₂ = r
      · rw [first, second]
      · rw [first, thread_self] at one
        rw [thread_other phase s second] at two
        exact absurd two ((file f x one).2 r₂ second x')
    · by_cases second : r₂ = r
      · rw [second, thread_self] at two
        rw [thread_other phase s first] at one
        exact absurd one ((file f x' two).2 r₁ first x)
      · rw [thread_other phase s first] at one
        rw [thread_other phase s second] at two
        exact owned.single r₁ r₂ f x x' one two
  · by_cases mine : r' = r
    · rw [mine, thread_self] at now
      exact owned.asked r c fmts (has _ now)
    · rw [thread_other phase s mine] at now
      exact owned.asked r' c fmts now
  · by_cases mine : r' = r
    · rw [mine, thread_self] at now
      exact owned.agrees r c fmts (has _ now) built
    · rw [thread_other phase s mine] at now
      exact owned.agrees r' c fmts now built

/-- A file gives up its channel, which is free then, for one that the call has chosen or for none. -/
structure HandedOver (r f : Nat) (old new : Option Chan) (s s' : State) : Prop where
  threads : ∀ r', r' ≠ r → s'.threads r' = s.threads r'
  privates : ∀ g, privateOf s' g = if g = f then new else privateOf s g
  busy : ∀ x, (s'.core.channels x).busy = if old = some x then false else (s.core.channels x).busy
  asked : ∀ x, TranscoderOwnership.requested s'.core x = TranscoderOwnership.requested s.core x
  built : ∀ x, (s'.core.channels x).built = (s.core.channels x).built ∧
    (s'.core.channels x).builtFmts = (s.core.channels x).builtFmts

theorem owned_handed {old new : Option Chan} (owned : Owned s) (handed : HandedOver r f old new s s')
    (has_old : privateOf s f = old) (has_new : ∀ c, new = some c → fresh (s.threads r) = some c)
    (only : ∀ r', r' ≠ r → ∀ x, expects (s.threads r') ≠ some (f, x)) (settled : fresh (s'.threads r) = none)
    (targets : ∀ t, target (s'.threads r) = some t → target (s.threads r) = some t)
    (file : ∀ g x, expects (s'.threads r) = some (g, x) → g = f ∧ x = new) : Owned s' := by
  have holders : ∀ o c, holder s' o = some c → holder s o = some c ∧ o ≠ .inr f ∧ o ≠ .inl r ∨
      o = .inr f ∧ new = some c ∧ fresh (s.threads r) = some c := by
    rintro (r' | g) c held
    · rw [holder] at held
      by_cases mine : r' = r
      · rw [mine, settled] at held
        cases held
      · rw [handed.threads r' mine] at held
        exact .inl ⟨held, nofun, fun same => mine (Sum.inl.inj same)⟩
    · rw [holder, handed.privates] at held
      by_cases mine : g = f
      · rw [if_pos mine] at held
        exact .inr ⟨by rw [mine], held, has_new c held⟩
      · rw [if_neg mine] at held
        exact .inl ⟨held, fun same => mine (Sum.inr.inj same), nofun⟩
  refine ⟨fun o c held => ?_, fun o o' c held held' => ?_, fun r' g x now => ?_, fun r₁ r₂ g x x' one two => ?_,
    fun r' c fmts now => ?_, fun r' c fmts now built => ?_⟩
  · have source : ∃ o', holder s o' = some c ∧ o' ≠ .inr f := by
      rcases holders o c held with ⟨before, other, _⟩ | ⟨_, _, mine⟩
      · exact ⟨o, before, other⟩
      · exact ⟨.inl r, mine, nofun⟩
    obtain ⟨o', before, other⟩ := source
    rw [handed.busy]
    by_cases gone : old = some c
    · exact absurd (owned.alone o' (.inr f) c before (has_old.trans gone)) other
    · rw [if_neg gone]
      exact owned.busy o' c before
  · rcases holders o c held with ⟨before, other, not_r⟩ | ⟨rfl, _, mine⟩ <;>
      rcases holders o' c held' with ⟨before', other', not_r'⟩ | ⟨rfl, _, mine'⟩
    · exact owned.alone o o' c before before'
    · exact absurd (owned.alone o (.inl r) c before mine') not_r
    · exact absurd (owned.alone (.inl r) o' c mine before').symm not_r'
    · rfl
  · by_cases mine : r' = r
    · rw [mine] at now
      obtain ⟨rfl, rfl⟩ := file g x now
      rw [handed.privates, if_pos rfl]
    · rw [handed.threads r' mine] at now
      have elsewhere : g ≠ f := by
        rintro rfl
        exact only r' mine x now
      rw [handed.privates, if_neg elsewhere]
      exact owned.expects r' g x now
  · by_cases first : r₁ = r
    · by_cases second : r₂ = r
      · rw [first, second]
      · rw [first] at one
        rw [handed.threads r₂ second] at two
        obtain ⟨rfl, _⟩ := file g x one
        exact absurd two (only r₂ second x')
    · by_cases second : r₂ = r
      · rw [second] at two
        rw [handed.threads r₁ first] at one
        obtain ⟨rfl, _⟩ := file g x' two
        exact absurd one (only r₁ first x)
      · rw [handed.threads r₁ first] at one
        rw [handed.threads r₂ second] at two
        exact owned.single r₁ r₂ g x x' one two
  · rw [handed.asked]
    by_cases mine : r' = r
    · rw [mine] at now
      exact owned.asked r c fmts (targets _ now)
    · rw [handed.threads r' mine] at now
      exact owned.asked r' c fmts now
  · rw [(handed.built c).1] at built
    rw [(handed.built c).2]
    by_cases mine : r' = r
    · rw [mine] at now
      exact owned.agrees r c fmts (targets _ now) built
    · rw [handed.threads r' mine] at now
      exact owned.agrees r' c fmts now built

end Holders

end TranscoderPairs
