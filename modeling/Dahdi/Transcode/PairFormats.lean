import Dahdi.Transcode.PairRuns

/-!
What each locked section of an allocation or of a close keeps, and from it every run: the formats
that a successful allocation has its channel built for, and what an allocation gets when the other
channel of its pair is built first.
-/
namespace TranscoderPairs
open Transcode GuardedRun

section Effects
variable {s s' : State} {config : Nat → Transcoder}

/-- Nothing is built or unbuilt, and no number changes. -/
structure Unchanged (s s' : State) : Prop where
  built : ∀ x, (s'.core.channels x).built = (s.core.channels x).built ∧
    (s'.core.channels x).builtFmts = (s.core.channels x).builtFmts
  chanIn : s'.chanIn = s.chanIn
  chanOut : s'.chanOut = s.chanOut

theorem unchanged_trans {s'' : State} (first : Unchanged s s') (second : Unchanged s' s'') : Unchanged s s'' :=
  ⟨fun x => ⟨(second.built x).1.trans (first.built x).1, (second.built x).2.trans (first.built x).2⟩,
    second.chanIn.trans first.chanIn, second.chanOut.trans first.chanOut⟩

theorem paired_unchanged (paired : Paired s) (unchanged : Unchanged s s') : Paired s' :=
  paired_congr paired (fun c => (unchanged.built c).1) (fun c => (unchanged.built c).2) unchanged.chanIn unchanged.chanOut

theorem set_channel_built (s : Transcode.State) (c : Chan) (chan : Channel) (built : chan.built = (s.channels c).built)
    (fmts : chan.builtFmts = (s.channels c).builtFmts) (x : Chan) :
    ((setChannel s c chan).channels x).built = (s.channels x).built ∧
      ((setChannel s c chan).channels x).builtFmts = (s.channels x).builtFmts := by
  by_cases here : x = c
  · rw [here, set_channel_self]
    exact ⟨built, fmts⟩
  · rw [set_channel_other s chan here]
    exact ⟨rfl, rfl⟩

theorem select_unchanged (config : Nat → Transcoder) (r f : Nat) (fmts : Formats) (s : State) :
    Unchanged s (select config r f fmts s) := by
  rw [select]
  split
  · exact ⟨fun _ => ⟨rfl, rfl⟩, rfl, rfl⟩
  · rename_i c _
    have taken := set_channel_built s.core c { s.core.channels c with busy := true } rfl rfl
    have asked := set_channel_built (take s.core c) c
      { (take s.core c).channels c with srcfmt := fmts.srcfmt, dstfmt := fmts.dstfmt } rfl rfl
    exact ⟨fun x => ⟨(asked x).1.trans (taken x).1, (asked x).2.trans (taken x).2⟩, rfl, rfl⟩

/-- The channel that a file had, if it had one, is not busy any more. -/
structure Cleared (old : Option Chan) (s s' : State) : Prop extends Unchanged s s' where
  files : s'.core.files = s.core.files
  threads : s'.threads = s.threads
  busy : ∀ x, (s'.core.channels x).busy = if old = some x then false else (s.core.channels x).busy
  asked : ∀ x, TranscoderOwnership.requested s'.core x = TranscoderOwnership.requested s.core x

theorem cleared_none (s : State) : Cleared none s s :=
  ⟨⟨fun _ => ⟨rfl, rfl⟩, rfl, rfl⟩, rfl, rfl, fun _ => (if_neg nofun).symm, fun _ => rfl⟩

theorem cleared_busy (c : Chan) (s : State) : Cleared (some c) s (clearBusy c s) := by
  refine ⟨⟨set_channel_built s.core c { s.core.channels c with busy := false } rfl rfl, rfl, rfl⟩, rfl, rfl,
    fun x => ?_, fun x => ?_⟩
  · by_cases here : x = c
    · rw [here, if_pos rfl, clearBusy, set_channel_self]
    · rw [if_neg fun same => here (Option.some.inj same).symm, clearBusy, set_channel_other _ _ here]
  · by_cases here : x = c
    · rw [here, TranscoderOwnership.requested, clearBusy, set_channel_self]
      rfl
    · rw [TranscoderOwnership.requested, clearBusy, set_channel_other _ _ here]
      rfl

/-- A file is given up to a channel or to none after its old channel has been cleared. -/
theorem handed_file {r f : Nat} {old : Option Chan} (cleared : Cleared old s s') (file : Option File) (phase : Phase) :
    HandedOver r f old (file.bind fun file => file.privateData) s (setThread r phase (putFile f file s')) := by
  refine ⟨fun r' other => ?_, fun g => ?_, cleared.busy, cleared.asked, cleared.built⟩
  · rw [thread_other phase _ other]
    exact congrFun cleared.threads r'
  · have files : TranscoderOwnership.holds s'.core = TranscoderOwnership.holds s.core := by
      funext g
      rw [TranscoderOwnership.holds, TranscoderOwnership.holds, cleared.files]
    have now := congrFun (TranscoderOwnership.holds_file s'.core f file) g
    rw [files, Function.update_apply] at now
    exact now

/-- O_NONBLOCK is set on the channel as the last thing before the driver. -/
theorem handed_nonblock {r f : Nat} {old new : Option Chan} (handed : HandedOver r f old new s s') (c : Chan)
    (nonblock : Bool) : HandedOver r f old new s
      { s' with core := setChannel s'.core c { s'.core.channels c with nonblock := nonblock } } := by
  have built := set_channel_built s'.core c { s'.core.channels c with nonblock := nonblock } rfl rfl
  have others (x : Chan) :
      ((setChannel s'.core c { s'.core.channels c with nonblock := nonblock }).channels x).busy = (s'.core.channels x).busy ∧
        TranscoderOwnership.requested (setChannel s'.core c { s'.core.channels c with nonblock := nonblock }) x =
          TranscoderOwnership.requested s'.core x := by
    by_cases here : x = c
    · rw [here, TranscoderOwnership.requested, set_channel_self]
      exact ⟨rfl, rfl⟩
    · rw [TranscoderOwnership.requested, set_channel_other _ _ here]
      exact ⟨rfl, rfl⟩
  exact ⟨handed.threads, handed.privates, fun x => (others x).1.trans (handed.busy x),
    fun x => (others x).2.trans (handed.asked x),
    fun x => ⟨(built x).1.trans (handed.built x).1, (built x).2.trans (handed.built x).2⟩⟩

/-- A call enters the driver with the channel in its file, or fails with the channel in its file. -/
structure Settled (r f : Nat) (fmts : Formats) (c : Chan) (old : Option Chan) (s s' : State) : Prop where
  handed : HandedOver r f old (some c) s s'
  phase : s'.threads r = .entered f fmts c ∨ s'.threads r = .returned fmts c false
  unchanged : Unchanged s s'

theorem settled_spec {r f : Nat} {old : Option Chan} (cleared : Cleared old s s') (fmts : Formats) (c : Chan)
    (file : File) (module_ : Bool) :
    Settled r f fmts c old s (settle config r f fmts c file module_ s') := by
  rw [settle]
  dsimp only
  split
  · exact ⟨handed_file cleared (some { file with privateData := some c }) (.returned fmts c false),
      .inr (thread_self _ _ _), ⟨cleared.built, cleared.chanIn, cleared.chanOut⟩⟩
  · have built := set_channel_built (putFile f (some { file with privateData := some c, owner := (config c.1).owner }) s').core
      c { s'.core.channels c with nonblock := file.nonblock } rfl rfl
    refine ⟨handed_nonblock (handed_file cleared
      (some { file with privateData := some c, owner := (config c.1).owner }) _) c file.nonblock, ?_,
      unchanged_trans cleared.toUnchanged ⟨built, rfl, rfl⟩⟩
    split
    · exact .inl (thread_self _ _ _)
    · exact .inr (thread_self _ _ _)

theorem left_kept (config : Nat → Transcoder) (old : Option Chan) (shutdown destroyed : Bool) (s : State) :
    Lowered s (match old with
      | none => s
      | some old => parentRelease config old shutdown destroyed s) ∧
    (Paired s → Paired (match old with
      | none => s
      | some old => parentRelease config old shutdown destroyed s)) := by
  cases old with
  | none => exact ⟨lowered_refl s, id⟩
  | some old => exact release_kept config old shutdown destroyed s

/-- What each step finds and leaves. -/
inductive Stepped (config : Nat → Transcoder) (s : State) : Op → State → Prop where
  | open_ (f : Nat) (nonblock : Bool) : s.core.files f = none →
      Stepped config s (.open_ f nonblock) { s with core := tcOpen s.core f nonblock }
  | select (r f : Nat) (fmts : Formats) : free (s.threads r) = true →
      Stepped config s (.select r f fmts) (select config r f fmts s)
  | move {r f : Nat} {fmts : Formats} {c : Chan} (shutdown destroyed : Bool) (s₁ : State) :
      s.threads r = .chosen f fmts c → Lowered s s₁ → (Paired s → Paired s₁) →
      Stepped config s (.move r shutdown destroyed) (setThread r (.leaving f fmts c (privateOf s f)) s₁)
  | settle {r f : Nat} {fmts : Formats} {c : Chan} {old : Option Chan} (module_ : Bool) (s₁ : State) :
      s.threads r = .leaving f fmts c old → Settled r f fmts c old s s₁ → Stepped config s (.settle r module_) s₁
  | check {r f : Nat} {fmts : Formats} {c : Chan} (shutdown : Bool) : s.threads r = .entered f fmts c →
      Stepped config s (.check r shutdown) (setThread r
        (if shutdown then .returned fmts c false
          else if (s.core.channels c).built then .returned fmts c true
          else .waiting f fmts c) s)
  | build {r f : Nat} {fmts : Formats} {c : Chan} (created : Created) : s.threads r = .waiting f fmts c →
      Stepped config s (.build r created)
        (setThread r (.returned fmts c (doChannelAllocate c created s).1) (doChannelAllocate c created s).2)
  | unused (r f : Nat) (shutdown destroyed : Bool) : privateOf s f = none →
      Stepped config s (.close r f shutdown destroyed) (putFile f none s)
  | close {f : Nat} {c : Chan} (r : Nat) (shutdown destroyed : Bool) (s₁ : State) : free (s.threads r) = true →
      privateOf s f = some c → Lowered s s₁ → (Paired s → Paired s₁) →
      Stepped config s (.close r f shutdown destroyed) (setThread r (.closing f c) s₁)
  | closed {r f : Nat} {c : Chan} : s.threads r = .closing f c →
      Stepped config s (.closed r) (setThread r .idle (putFile f none (clearBusy c s)))

theorem step_spec {op : Op} (done : next config s op = some s') : Stepped config s op s' := by
  cases op with
  | open_ f nonblock =>
    rw [next] at done
    split at done
    · rename_i closed
      rw [← Option.some.inj done]
      exact .open_ f nonblock closed
    · cases done
  | select r f fmts =>
    rw [next] at done
    split at done
    · rename_i ready
      obtain ⟨file, _, rfl⟩ := Option.map_eq_some_iff.mp done
      exact .select r f fmts ready
    · cases done
  | move r shutdown destroyed =>
    rw [next] at done
    split at done
    · rename_i f fmts c now
      obtain ⟨file, opened, rfl⟩ := Option.map_eq_some_iff.mp done
      have has : file.privateData = privateOf s f := by
        rw [privateOf, TranscoderOwnership.holds, opened]
        rfl
      obtain ⟨lowered, paired⟩ := left_kept config file.privateData shutdown destroyed s
      have moved : Stepped config s (.move r shutdown destroyed) _ := .move shutdown destroyed _ now lowered paired
      rw [← has] at moved
      exact moved
    · cases done
  | settle r module_ =>
    rw [next] at done
    split at done
    · rename_i f fmts c old now
      obtain ⟨file, _, rfl⟩ := Option.map_eq_some_iff.mp done
      cases old with
      | none => exact .settle module_ _ now (settled_spec (cleared_none s) fmts c file module_)
      | some old => exact .settle module_ _ now (settled_spec (cleared_busy old s) fmts c file module_)
    · cases done
  | check r shutdown =>
    rw [next] at done
    split at done
    · rename_i now
      rw [← Option.some.inj done]
      exact .check shutdown now
    · cases done
  | build r created =>
    rw [next] at done
    split at done
    · rename_i now
      rw [← Option.some.inj done]
      exact .build created now
    · cases done
  | close r f shutdown destroyed =>
    rw [next] at done
    split at done
    · rename_i ready
      obtain ⟨file, opened, rfl⟩ := Option.map_eq_some_iff.mp done
      have has : privateOf s f = file.privateData := by
        rw [privateOf, TranscoderOwnership.holds, opened]
        rfl
      cases old : file.privateData with
      | none => exact .unused r f shutdown destroyed (has.trans old)
      | some c =>
        obtain ⟨lowered, paired⟩ := release_kept config c shutdown destroyed s
        exact .close r shutdown destroyed _ ready (has.trans old) lowered paired
    · cases done
  | closed r =>
    rw [next] at done
    split at done
    · rename_i now
      rw [← Option.some.inj done]
      exact .closed now
    · cases done

/-- The channels of a pair are built and unbuilt together by whatever step comes. -/
theorem paired_step {op : Op} (paired : Paired s) (stepped : Stepped config s op s') : Paired s' := by
  cases stepped with
  | open_ f nonblock _ => exact paired
  | select r f fmts _ => exact paired_unchanged paired (select_unchanged config r f fmts s)
  | move _ _ s₁ _ _ kept => exact kept paired
  | settle _ _ _ settled => exact paired_unchanged paired settled.unchanged
  | check _ _ => exact paired
  | @build _ _ _ c created _ =>
    cases allocated c created s with
    | already _ same =>
      rw [same]
      exact paired
    | failed _ _ _ _ kept => exact kept paired
    | now _ _ _ _ _ kept => exact kept paired
  | unused _ _ _ _ _ => exact paired
  | close _ _ _ s₁ _ _ _ kept => exact kept paired
  | @closed _ _ c _ =>
    obtain ⟨built, chanIn, chanOut⟩ := (cleared_busy c s).toUnchanged
    exact paired_unchanged paired ⟨built, chanIn, chanOut⟩

end Effects

section Holding
variable {s s' : State} {config : Nat → Transcoder} {r f : Nat} {c : Chan} {fmts : Formats}

theorem expects_file {phase : Phase} {x : Option Chan} (file : expects phase = some (f, x)) : fileOf phase = some f := by
  cases phase with
  | idle | chosen _ _ _ | returned _ _ _ => cases file
  | leaving _ _ _ _ | entered _ _ _ | waiting _ _ _ | closing _ _ =>
    cases file
    rfl

theorem file_same {file : Option File} (same : (file.bind fun file => file.privateData) = privateOf s f) (g : Nat) :
    TranscoderOwnership.holds (setFile s.core f file) g = privateOf s g := by
  rw [TranscoderOwnership.holds_file, same]
  exact congrFun (Function.update_eq_self f (privateOf s)) g

theorem expects_only (owned : Owned s) {x : Option Chan} (mine : expects (s.threads r) = some (f, x)) :
    ∀ r', r' ≠ r → ∀ x', expects (s.threads r') ≠ some (f, x') :=
  fun r' other x' also => other (owned.single r' r f x' x also mine)

/-- A channel that no one holds is chosen, unbuilt or built for these formats. -/
theorem owned_chosen (owned : Owned s) (unused : (s.core.channels c).busy = false)
    (fits : (s.core.channels c).built = true → (s.core.channels c).builtFmts = word fmts)
    (threads : ∀ r', r' ≠ r → s'.threads r' = s.threads r') (now : s'.threads r = .chosen f fmts c)
    (privates : ∀ g, privateOf s' g = privateOf s g)
    (busy : ∀ x, (s'.core.channels x).busy = if x = c then true else (s.core.channels x).busy)
    (asked : ∀ x, TranscoderOwnership.requested s'.core x =
      if x = c then fmts else TranscoderOwnership.requested s.core x)
    (built : ∀ x, (s'.core.channels x).built = (s.core.channels x).built ∧
      (s'.core.channels x).builtFmts = (s.core.channels x).builtFmts) : Owned s' := by
  have unheld (o : Nat ⊕ Nat) (x : Chan) (held : holder s o = some x) : x ≠ c := by
    rintro rfl
    exact absurd (unused.symm.trans (owned.busy o x held)) (by decide)
  have untargeted (r' : Nat) (x : Chan) (other : Formats) (has : target (s.threads r') = some (x, other)) : x ≠ c := by
    rintro rfl
    exact absurd (unused.symm.trans (target_busy owned has)) (by decide)
  have holders : ∀ o x, holder s' o = some x → holder s o = some x ∧ x ≠ c ∨ o = .inl r ∧ x = c := by
    rintro (r' | g) x held
    · rw [holder] at held
      by_cases mine : r' = r
      · rw [mine, now] at held
        exact .inr ⟨by rw [mine], (Option.some.inj held).symm⟩
      · rw [threads r' mine] at held
        exact .inl ⟨held, unheld (.inl r') x held⟩
    · rw [holder, privates] at held
      exact .inl ⟨held, unheld (.inr g) x held⟩
  have expecting (r' g : Nat) (x : Option Chan) (file : expects (s'.threads r') = some (g, x)) :
      expects (s.threads r') = some (g, x) := by
    by_cases mine : r' = r
    · rw [mine, now] at file
      cases file
    · rw [threads r' mine] at file
      exact file
  refine ⟨fun o x held => ?_, fun o o' x held held' => ?_, fun r' g x file => ?_, fun r₁ r₂ g x x' one two => ?_,
    fun r' x other has => ?_, fun r' x other has there => ?_⟩
  · rw [busy]
    rcases holders o x held with ⟨before, other⟩ | ⟨_, here⟩
    · rw [if_neg other]
      exact owned.busy o x before
    · rw [if_pos here]
  · rcases holders o x held with ⟨before, other⟩ | ⟨mine, here⟩
    · rcases holders o' x held' with ⟨before', _⟩ | ⟨_, here'⟩
      · exact owned.alone o o' x before before'
      · exact absurd here' other
    · rcases holders o' x held' with ⟨_, other'⟩ | ⟨mine', _⟩
      · exact absurd here other'
      · exact mine.trans mine'.symm
  · rw [privates]
    exact owned.expects r' g x (expecting r' g x file)
  · exact owned.single r₁ r₂ g x x' (expecting r₁ g x one) (expecting r₂ g x' two)
  · rw [asked]
    by_cases mine : r' = r
    · rw [mine, now] at has
      obtain ⟨rfl, rfl⟩ := Prod.mk.inj (Option.some.inj has)
      exact if_pos rfl
    · rw [threads r' mine] at has
      rw [if_neg (untargeted r' x other has)]
      exact owned.asked r' x other has
  · rw [(built x).1] at there
    rw [(built x).2]
    by_cases mine : r' = r
    · rw [mine, now] at has
      obtain ⟨rfl, rfl⟩ := Prod.mk.inj (Option.some.inj has)
      exact fits there
    · rw [threads r' mine] at has
      exact owned.agrees r' x other has there

theorem owned_select (owned : Owned s) : Owned (select config r f fmts s) := by
  have unchanged := select_unchanged config r f fmts s
  rw [select] at unchanged ⊢
  cases found : findFreeChannel config s.core fmts false s.core.activeList with
  | error _ => exact owned
  | ok c =>
    rw [found] at unchanged
    obtain ⟨_, _, available_⟩ := TranscoderOwnership.find_free_spec found
    rw [available, Bool.and_eq_true, Bool.or_eq_true, Bool.not_eq_true', Bool.not_eq_true', decide_eq_true_eq] at available_
    obtain ⟨unused, fits⟩ := available_
    obtain ⟨core, took, files, busy, asked, _⟩ := TranscoderOwnership.taken s.core c fmts
    dsimp only at unchanged ⊢
    rw [took] at unchanged ⊢
    refine owned_chosen owned unused (fun built => ?_) (fun r' other => thread_other _ _ other) (thread_self _ _ _)
      (fun g => ?_) (fun x => ?_) asked unchanged.built
    · rcases fits with unbuilt | same
      · exact absurd (unbuilt.symm.trans built) (by decide)
      · rw [← same]
        exact BitVec.or_comm _ _
    · have same : privateOf s g = (s.core.files g).bind fun file => file.privateData := rfl
      rw [same, ← files]
      rfl
    · have now := congrFun busy x
      rw [Function.update_apply] at now
      exact now

/-- A pair is built with no call after other formats coming to the other channel. -/
theorem owned_built (owned : Owned s) (now : s.threads r = .waiting f fmts c)
    (others : ∀ r' other, target (s.threads r') = some (complement c, other) → word other = word fmts)
    (threads : s'.threads = s.threads)
    (core : s'.core = (setPair c (some ⟨(s.core.channels c).srcfmt, (s.core.channels c).dstfmt⟩) s).core) :
    Owned s' := by
  have has : target (s.threads r) = some (c, fmts) := by
    rw [now]
    rfl
  have mine : (⟨(s.core.channels c).srcfmt, (s.core.channels c).dstfmt⟩ : Formats) = fmts := owned.asked r c fmts has
  rw [mine] at core
  have holders : ∀ o, holder s' o = holder s o := by
    rintro (r' | g)
    · rw [holder, holder, threads]
    · rw [holder, holder, privateOf, core]
      rfl
  refine ⟨fun o x held => ?_, fun o o' x held held' => ?_, fun r' g x file => ?_, fun r₁ r₂ g x x' one two => ?_,
    fun r' x other has' => ?_, fun r' x other has' there => ?_⟩
  · rw [holders] at held
    rw [core]
    exact (set_pair_kept c (some fmts) s x).1.trans (owned.busy o x held)
  · rw [holders] at held held'
    exact owned.alone o o' x held held'
  · rw [threads] at file
    exact (holders (.inr g)).trans (owned.expects r' g x file)
  · rw [threads] at one two
    exact owned.single r₁ r₂ g x x' one two
  · rw [threads] at has'
    obtain ⟨_, src, dst⟩ := set_pair_kept c (some fmts) s x
    rw [TranscoderOwnership.requested, core, src, dst]
    exact owned.asked r' x other has'
  · rw [threads] at has'
    rw [core] at there ⊢
    by_cases inside : x = c ∨ x = complement c
    · have same : word other = word fmts := by
        rcases inside with rfl | rfl
        · obtain rfl := target_alone owned has' has
          rw [has] at has'
          rw [(Prod.mk.inj (Option.some.inj has')).2]
        · exact others r' other has'
      rw [set_pair_in (some fmts) inside, same]
      rfl
    · rw [set_pair_out (some fmts) inside] at there ⊢
      exact owned.agrees r' x other has' there

/-- do_channel_allocate for a call that waits, with what it leaves of the channel. -/
theorem owned_allocated (owned : Owned s) (now : s.threads r = .waiting f fmts c) {created : Created}
    (others : (s.core.channels c).built = false → (∃ encoder decoder, created = .whole encoder decoder) →
      ∀ r' other, target (s.threads r') = some (complement c, other) → word other = word fmts) :
    Owned (doChannelAllocate c created s).2 ∧ (doChannelAllocate c created s).2.threads = s.threads := by
  cases allocated c created s with
  | already _ same =>
    rw [same]
    exact ⟨owned, rfl⟩
  | failed _ _ core threads _ =>
    refine ⟨owned_lowered owned ⟨fun g => ?_, threads, fun x => ?_, fun x => ?_, fun x there => ?_⟩, threads⟩
    · rw [privateOf, core]
      rfl
    · rw [core]
    · rw [core]
      exact ⟨rfl, rfl⟩
    · rw [core] at there ⊢
      exact ⟨there, rfl⟩
  | now unbuilt whole _ threads core _ => exact ⟨owned_built owned now (others unbuilt whole) threads core, threads⟩

/-- A call that is over holds nothing of its own. -/
theorem owned_returned (owned : Owned s) (ok : Bool) : Owned (setThread r (.returned fmts c ok) s) :=
  owned_thread owned nofun nofun nofun

theorem owned_step {op : Op} (owned : Owned s) (guard : apart s op) (permitted : allowed s op)
    (stepped : Stepped config s op s') : Owned s' := by
  cases stepped with
  | open_ f nonblock unopened =>
    have closed : privateOf s f = none := by
      rw [privateOf, TranscoderOwnership.holds, unopened]
      rfl
    exact owned_lowered owned ⟨file_same closed.symm, rfl, fun _ => rfl, fun _ => ⟨rfl, rfl⟩,
      fun _ there => ⟨there, rfl⟩⟩
  | select r f fmts _ => exact owned_select owned
  | @move r f fmts c _ _ s₁ now lowered _ =>
    have before : s₁.threads r = .chosen f fmts c := (congrFun lowered.threads r).trans now
    refine owned_thread (owned_lowered owned lowered) (fun x new => ?_) (fun t has => ?_) fun g x file => ?_
    · rw [before]
      exact new
    · rw [before]
      exact has
    · obtain ⟨rfl, rfl⟩ := Prod.mk.inj (Option.some.inj file)
      refine ⟨lowered.privates f, fun r' _ x' => ?_⟩
      rw [lowered.threads]
      exact guard f fmts c now r' x'
  | @settle r f fmts c old _ _ now settled =>
    have leaving : expects (s.threads r) = some (f, old) := by
      rw [now]
      rfl
    have phase := settled.phase
    refine owned_handed owned settled.handed (owned.expects r f old leaving) (fun x same => ?_)
      (expects_only owned leaving) ?_ (fun t has => ?_) fun g x file => ?_
    · rw [now]
      exact same
    · rcases phase with entered | failed
      · rw [entered]
        rfl
      · rw [failed]
        rfl
    · rcases phase with entered | failed
      · rw [entered] at has
        rw [now]
        exact has
      · rw [failed] at has
        cases has
    · rcases phase with entered | failed
      · rw [entered] at file
        obtain ⟨rfl, rfl⟩ := Prod.mk.inj (Option.some.inj file)
        exact ⟨rfl, rfl⟩
      · rw [failed] at file
        cases file
  | @check r f fmts c shutdown now =>
    cases shutdown with
    | true => exact owned_returned owned false
    | false =>
      cases built : (s.core.channels c).built with
      | true => exact owned_returned owned true
      | false =>
        have entered : expects (s.threads r) = some (f, some c) := by
          rw [now]
          rfl
        refine owned_thread owned (fun _ new => by cases new) (fun t has => ?_) fun g x file => ?_
        · rw [now]
          exact has
        · obtain ⟨rfl, rfl⟩ := Prod.mk.inj (Option.some.inj file)
          exact ⟨owned.expects r f (some c) entered, expects_only owned entered⟩
  | @build r f fmts c created now =>
    exact owned_returned (owned_allocated owned now (guard f fmts c now)).1 _
  | unused r f _ _ none_ =>
    exact owned_lowered owned ⟨file_same none_.symm, rfl, fun _ => rfl, fun _ => ⟨rfl, rfl⟩,
      fun _ there => ⟨there, rfl⟩⟩
  | @close f c r _ _ s₁ _ has lowered _ =>
    refine owned_thread (owned_lowered owned lowered) (fun _ new => by cases new) (fun _ has => by cases has) fun g x file => ?_
    obtain ⟨rfl, rfl⟩ := Prod.mk.inj (Option.some.inj file)
    refine ⟨(lowered.privates f).trans has, fun r' _ x' also => ?_⟩
    rw [lowered.threads] at also
    exact permitted r' (expects_file also)
  | @closed r f c now =>
    have closing : expects (s.threads r) = some (f, some c) := by
      rw [now]
      rfl
    have idle : (setThread r .idle (putFile f none (clearBusy c s))).threads r = .idle := thread_self _ _ _
    refine owned_handed owned (handed_file (cleared_busy c s) none .idle) (owned.expects r f (some c) closing)
      (fun _ new => by cases new)
      (expects_only owned closing) ?_ (fun t has => ?_) fun g x file => ?_
    · rw [idle]
      rfl
    · rw [idle] at has
      cases has
    · rw [idle] at file
      cases file

end Holding

section Runs
variable {s s' : State} {config : Nat → Transcoder}

theorem start_paired (start : Start s) : Paired s := by
  intro c
  have here := (start.channels c).2
  have there := (start.channels (complement c)).2
  rw [here, there]
  exact ⟨rfl, nofun⟩

theorem start_owned (start : Start s) : Owned s := by
  have holders (o : Nat ⊕ Nat) : holder s o = none := by
    cases o with
    | inl r =>
      rw [holder, start.threads r]
      rfl
    | inr f =>
      rw [holder, privateOf, TranscoderOwnership.holds, start.files f]
      rfl
  have idle (r : Nat) : expects (s.threads r) = none ∧ target (s.threads r) = none := by
    rw [start.threads r]
    exact ⟨rfl, rfl⟩
  refine ⟨fun o c held => ?_, fun o o' c held _ => ?_, fun r f x file => ?_, fun r r' f x x' file _ => ?_,
    fun r c fmts has => ?_, fun r c fmts has _ => ?_⟩
  · cases (holders o).symm.trans held
  · cases (holders o).symm.trans held
  · cases (idle r).1.symm.trans file
  · cases (idle r).1.symm.trans file
  · cases (idle r).2.symm.trans has
  · cases (idle r).2.symm.trans has

theorem paired_run (reached : Reach (sys config) anyStep s) : Paired s := by
  apply @invariant_run _ _ (sys config) anyStep Paired _ _ s reached
  · intro s start
    exact start_paired start
  · rintro s op s' paired _ ⟨_, done⟩
    exact paired_step paired (step_spec done)

theorem owned_run (reached : Reach (sys config) apart s) : Owned s := by
  apply @invariant_run _ _ (sys config) apart Owned _ _ s reached
  · intro s start
    exact start_owned start
  · rintro s op s' owned guard ⟨permitted, done⟩
    exact owned_step owned guard permitted (step_spec done)

/-- The channel of a call in the driver is its file's, and is built for no other formats. -/
theorem in_driver {r f : Nat} {fmts : Formats} {c : Chan} (owned : Owned s)
    (now : s.threads r = .entered f fmts c ∨ s.threads r = .waiting f fmts c) : privateOf s f = some c ∧
      ((s.core.channels c).built = true → (s.core.channels c).builtFmts = word fmts) := by
  have file : expects (s.threads r) = some (f, some c) := by
    rcases now with now | now
    · rw [now]
      rfl
    · rw [now]
      rfl
  have has : target (s.threads r) = some (c, fmts) := by
    rcases now with now | now
    · rw [now]
      rfl
    · rw [now]
      rfl
  exact ⟨owned.expects r f (some c) file, owned.agrees r c fmts has⟩

theorem served_check {r f : Nat} {fmts : Formats} {c : Chan} (owned : Owned s) (now : s.threads r = .entered f fmts c)
    (shutdown : Bool) : served s (.check r shutdown) (setThread r
      (if shutdown then .returned fmts c false
        else if (s.core.channels c).built then .returned fmts c true
        else .waiting f fmts c) s) := by
  intro g asked x file result
  obtain ⟨mine, agrees⟩ := in_driver owned (.inl now)
  rw [now] at file
  rw [thread_self] at result
  obtain rfl : f = g := Option.some.inj file
  split at result
  · cases result
  · split at result
    · rename_i built
      cases result
      exact ⟨mine, built, agrees built⟩
    · cases result

theorem served_build {r f : Nat} {fmts : Formats} {c : Chan} (owned : Owned s) (now : s.threads r = .waiting f fmts c)
    (created : Created) : served s (.build r created)
      (setThread r (.returned fmts c (doChannelAllocate c created s).1) (doChannelAllocate c created s).2) := by
  intro g asked x file result
  obtain ⟨mine, agrees⟩ := in_driver owned (.inr now)
  have has : target (s.threads r) = some (c, fmts) := by
    rw [now]
    rfl
  rw [now] at file
  rw [thread_self] at result
  obtain rfl : f = g := Option.some.inj file
  obtain ⟨rfl, rfl, ok⟩ := Phase.returned.inj result
  have privates (s₁ : State) (phase : Phase) : privateOf (setThread r phase s₁) f = privateOf s₁ f := rfl
  rw [privates]
  cases allocated c created s with
  | already built same =>
    rw [same]
    exact ⟨mine, built, agrees built⟩
  | failed _ refused _ _ _ => exact absurd (ok.symm.trans refused) nofun
  | now unbuilt _ _ threads core _ =>
    have formats : (⟨(s.core.channels c).srcfmt, (s.core.channels c).dstfmt⟩ : Formats) = fmts := owned.asked r c fmts has
    rw [formats] at core
    have channel : (doChannelAllocate c created s).2.core.channels c = rebuilt (some fmts) (s.core.channels c) := by
      rw [core]
      exact set_pair_in (some fmts) (.inl rfl)
    refine ⟨?_, congrArg Channel.built channel, congrArg Channel.builtFmts channel⟩
    rw [privateOf, core]
    exact mine

theorem served_step {op : Op} (owned : Owned s) (stepped : Stepped config s op s') : served s op s' := by
  cases stepped with
  | check shutdown now => exact served_check owned now shutdown
  | build created now => exact served_build owned now created
  | open_ _ _ _ | select _ _ _ _ | move _ _ _ _ _ _ | settle _ _ _ _ | unused _ _ _ _ _ | close _ _ _ _ _ _ _ _
  | closed _ => exact trivial

/-- The channels of a pair always agree, and an allocation that succeeds has the formats it asked
    for as long as no pair is built from under a call after other formats. -/
theorem formats_agree (reached : Reach (sys config) anyStep s) : Paired s ∧
    (Reach (sys config) apart s → ∀ op s', (sys config).step s op s' → served s op s') := by
  refine ⟨paired_run reached, fun kept op s' done => ?_⟩
  exact served_step (owned_run kept) (step_spec done.2)

/-- A call in the driver gets success for formats it did not ask for once its channel has been built
    as the other half of a pair. -/
theorem mismatched_unserved {r r' f g : Nat} {fmts other : Formats} {c : Chan} {created : Created} (owned : Owned s)
    (now : s.threads r = .waiting f fmts c) (unbuilt : (s.core.channels c).built = false)
    (whole : ∃ encoder decoder, created = .whole encoder decoder)
    (late : s.threads r' = .entered g other (complement c)) (differ : word other ≠ word fmts) :
    ∃ s₁ s₂, next config s (.build r created) = some s₁ ∧ next config s₁ (.check r' false) = some s₂ ∧
      ¬ served s₁ (.check r' false) s₂ := by
  have has : target (s.threads r) = some (c, fmts) := by
    rw [now]
    rfl
  have elsewhere : r' ≠ r := by
    rintro rfl
    cases now.symm.trans late
  have formats : (⟨(s.core.channels c).srcfmt, (s.core.channels c).dstfmt⟩ : Formats) = fmts := owned.asked r c fmts has
  have build : next config s (.build r created) = some
      (setThread r (.returned fmts c (doChannelAllocate c created s).1) (doChannelAllocate c created s).2) := by
    rw [next, now]
  cases allocated c created s with
  | already built _ => cases unbuilt.symm.trans built
  | failed _ refused _ _ _ =>
    obtain ⟨encoder, decoder, rfl⟩ := whole
    have created_ : (doChannelAllocate c (.whole encoder decoder) s).1 = true := by
      rw [doChannelAllocate, if_neg (by rw [unbuilt]; decide)]
      rfl
    cases created_.symm.trans refused
  | now _ _ _ threads core _ =>
    rw [formats] at core
    generalize doChannelAllocate c created s = result at build threads core
    have there : result.2.core.channels (complement c) = rebuilt (some fmts) (s.core.channels (complement c)) := by
      rw [core]
      exact set_pair_in (some fmts) (.inr rfl)
    refine ⟨_, setThread r' (.returned other (complement c) true) (setThread r (.returned fmts c result.1) result.2),
      build, ?_, fun good => ?_⟩
    · have before : (setThread r (.returned fmts c result.1) result.2).threads r' = .entered g other (complement c) := by
        rw [thread_other _ _ elsewhere, threads]
        exact late
      have built : ((setThread r (.returned fmts c result.1) result.2).core.channels (complement c)).built = true :=
        congrArg Channel.built there
      rw [next, before]
      dsimp only
      rw [if_neg (by decide), if_pos built]
    · have file : fileOf ((setThread r (.returned fmts c result.1) result.2).threads r') = some g := by
        rw [thread_other _ _ elsewhere, threads, late]
        rfl
      obtain ⟨_, _, same⟩ := good g other (complement c) file (thread_self _ _ _)
      have first : word fmts = word other := (congrArg Channel.builtFmts there).symm.trans same
      exact differ first.symm

end Runs

section TwoCalls
open TranscoderOwnership

/-- An encoder and a decoder with a pair of channels, and no file open. -/
def idleCard : State where
  core := { initial with registrationList := [0, 1], activeList := [0, 1] }
  chanIn _ := INVALID
  chanOut _ := INVALID
  threads _ := .idle

theorem idle_card_start : Start idleCard := ⟨fun _ => ⟨rfl, rfl⟩, fun _ => rfl, fun _ => rfl⟩

theorem reach_next {config : Nat → Transcoder} {guard : State → Op → Prop} {s s' : State}
    (reached : Reach (sys config) guard s) (op : Op) (guarded : guard s op) (permitted : allowed s op)
    (done : next config s op = some s') : Reach (sys config) guard s' :=
  .step reached guarded ⟨permitted, done⟩

/-- The encoder for mu-law and G.729 and the decoder for the same formats: the second call finds its
    channel built under chansem. -/
theorem formats_agree_pair : ∃ s s', Paired s ∧ (sys codecs).step s (.build 1 .none) s' ∧
    s'.threads 1 = .returned ⟨256, 4⟩ (1, 0) true ∧ s.chanIn (1, 0) = 6 ∧ s.chanOut (0, 0) = 6 ∧
      served s (.build 1 .none) s' := by
  have idle : Reach (sys codecs) apart idleCard := .start idle_card_start
  have opened := reach_next idle (.open_ 0 false) trivial trivial rfl
  have opened' := reach_next opened (.open_ 1 false) trivial trivial rfl
  have chosen := reach_next opened' (.select 0 0 ⟨4, 256⟩) trivial (fun _ => rfl) rfl
  have chosen' := reach_next chosen (.select 1 1 ⟨256, 4⟩) trivial (fun r => by rcases r with _ | _ <;> rfl) rfl
  have left := reach_next chosen' (.move 0 false false)
    (by rintro _ _ _ ⟨⟩ r x; rcases r with _ | _ | _ <;> exact nofun) trivial rfl
  have entered := reach_next left (.settle 0 true) trivial trivial rfl
  have left' := reach_next entered (.move 1 false false)
    (by rintro _ _ _ ⟨⟩ r x; rcases r with _ | _ | _ <;> exact nofun) trivial rfl
  have entered' := reach_next left' (.settle 1 true) trivial trivial rfl
  have waits := reach_next entered' (.check 0 false) trivial trivial rfl
  have waits' := reach_next waits (.check 1 false) trivial trivial rfl
  have built := reach_next waits' (.build 0 (.whole 5 6))
    (by
      rintro _ _ _ ⟨⟩ _ _ r other has
      rcases r with _ | _ | _
      · cases has
      · cases has
        rfl
      · cases has) trivial rfl
  have whole := formats_agree (reach_mono (fun _ _ _ => trivial) built)
  exact ⟨_, _, whole.1, ⟨trivial, rfl⟩, rfl, rfl, rfl, whole.2 built (.build 1 .none) _ ⟨trivial, rfl⟩⟩

/-- The decoder for G.723.1 and A-law, while the encoder of the pair is built for mu-law and G.729:
    the second call returns success with its channel built for the other formats. -/
theorem other_formats : ∃ s s', Reach (sys codecs) anyStep s ∧ (sys codecs).step s (.build 1 .none) s' ∧
    s.threads 1 = .waiting 1 ⟨1, 8⟩ (1, 0) ∧ s'.threads 1 = .returned ⟨1, 8⟩ (1, 0) true ∧
      (s'.core.channels (1, 0)).builtFmts = word ⟨4, 256⟩ ∧ ¬ served s (.build 1 .none) s' := by
  have idle : Reach (sys codecs) anyStep idleCard := .start idle_card_start
  have opened := reach_next idle (.open_ 0 false) trivial trivial rfl
  have opened' := reach_next opened (.open_ 1 false) trivial trivial rfl
  have chosen := reach_next opened' (.select 0 0 ⟨4, 256⟩) trivial (fun _ => rfl) rfl
  have chosen' := reach_next chosen (.select 1 1 ⟨1, 8⟩) trivial (fun r => by rcases r with _ | _ <;> rfl) rfl
  have left := reach_next chosen' (.move 0 false false) trivial trivial rfl
  have entered := reach_next left (.settle 0 true) trivial trivial rfl
  have left' := reach_next entered (.move 1 false false) trivial trivial rfl
  have entered' := reach_next left' (.settle 1 true) trivial trivial rfl
  have waits := reach_next entered' (.check 0 false) trivial trivial rfl
  have waits' := reach_next waits (.check 1 false) trivial trivial rfl
  have built := reach_next waits' (.build 0 (.whole 5 6)) trivial trivial rfl
  refine ⟨_, _, built, ⟨trivial, rfl⟩, rfl, rfl, rfl, fun good => ?_⟩
  obtain ⟨_, _, same⟩ := good 1 ⟨1, 8⟩ (1, 0) rfl rfl
  exact absurd same (by decide)

end TwoCalls

end TranscoderPairs
