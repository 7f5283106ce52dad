import Dahdi.Channel.SlaveChains

/-!
What a refused DAHDI_CHANCONFIG leaves behind: the channel has lost its network device and
its master by the time the signalling is checked, and nothing is taken back.
-/
namespace Chanconfig
open Followers PointerChain
variable {T S : Type} [DecidableEq T] {b : Board T S} {s s' : Chans T} {chan n : T} {sigtype : Sig}
  {dacsChan : Option T} {r : Request} {a : Answers}

/-- The signalling, the flags and the network device. -/
def attrs (c : Chan T) : Sig × Flags × Bool × Bool := (c.sig, c.flags, c.hdlcnetdev, c.up)

/-- The masters and links of the slaves are the same, and the signalling, the flags and the
    network devices. -/
def Same (s s' : Chans T) : Prop :=
  masters s' = masters s ∧ links s' = links s ∧ ∀ t, attrs (s' t) = attrs (s t)

/-- The channel has the signalling, and the flags that are set first. -/
def Signalled (sigtype : Sig) (c : Chan T) : Prop :=
  c.sig = sigtype ∧ c.flags = { c.flags with
    audio := !has sigtype sigClear
    clear := has sigtype sigClear
    hdlc := has sigtype sigHdlcraw
    fcs := has sigtype sigHdlcfcs }

/-- The flags that go with the signalling, after all of them are set. -/
def typedFlags (sigtype : Sig) (flags : Flags) : Flags :=
  { flags with
    audio := !has sigtype sigClear
    clear := has sigtype sigClear
    hdlc := has sigtype sigHdlcraw && !has sigtype sigHardhdlc
    fcs := has sigtype sigHdlcfcs && !has sigtype sigHardhdlc
    nostdtxrx := has sigtype sigHardhdlc
    mtp2 := has sigtype sigMtp2 }

/-- The channel has the signalling, and all its flags. -/
def Typed (sigtype : Sig) (c : Chan T) : Prop :=
  c.sig = sigtype ∧ c.flags = typedFlags sigtype c.flags

/-- The chain of the master is as recalc_slaves makes it, and a slave outside has no
    link. -/
def Rethreaded (b : Board T S) (s : Chans T) (chan n : T) : Prop :=
  n ≠ chan →
    (b.span n ≠ none → Chain (links s) (links s n) (slaves b s n)) ∧
    (chan ∉ slaves b s n → links s chan = none)

/-- The request comes to the network device of the channel. -/
def Registering (b : Board T S) (chan n : T) (sigtype : Sig) (a : Answers) : Prop :=
  a.chanconfig = 0 ∧ b.net = true ∧ n = chan ∧ sigtype = sigHdlcnet

def Registers (a : Answers) : Prop :=
  a.hdlcAlloc = true ∧ a.allocHdlcdev = true ∧ a.register = 0

/-- A network device is registered just if there was one. Half of one may be left, and the
    old one is gone in any case. -/
def Reregistered (b : Board T S) (c : Chan T) (chan n : T) (sigtype : Sig) (a : Answers) : Prop :=
  (Registering b chan n sigtype a →
    (haveNetdev b c = true ↔ Registers a) ∧ c.hdlcnetdev = a.hdlcAlloc) ∧
  (¬ Registering b chan n sigtype a → haveNetdev b c = false)

/-- The request changes nothing before it is refused. -/
def Untouched (b : Board T S) (s : Chans T) (r : Request) (a : Answers) : Prop :=
  match accepted b s r with
  | .error _ => True
  | .ok (chan, n, sigtype, dacsChan) =>
    if supports (s chan).sigcap sigtype = false then
      (s chan).master = chan ∧ haveNetdev b (s chan) = false
    else if has sigtype sigDacsBit = true ∧ dacsChan = none then
      (s chan).master = chan ∧ haveNetdev b (s chan) = false ∧ Signalled sigtype (s chan)
    else
      (s chan).master = n ∧ Rethreaded b s chan n ∧ Typed sigtype (s chan) ∧
        Reregistered b (s chan) chan n sigtype a

section attributes
variable {t : T} {c : Chan T} {idlebits : Int}

theorem attrs_recalc (b : Board T S) (s : Chans T) (m t : T) :
    attrs (recalcSlaves b m s t) = attrs (s t) := by
  rw [recalc_chan]
  rfl

theorem attrs_setChan (same : attrs c = attrs (s chan)) : attrs (setChan s chan c t) = attrs (s t) := by
  by_cases here : t = chan
  · rw [here, setChan_same, same]
  · rw [setChan_other here]

theorem attrs_unlink (b : Board T S) (s : Chans T) (chan t : T) :
    attrs (unlink b s chan t) = attrs (s t) := by
  rw [unlink]
  split
  · rw [attrs_recalc]
    exact attrs_setChan rfl
  · rfl

theorem attrs_enslave (b : Board T S) (s : Chans T) (chan n t : T) :
    attrs (enslave b s chan n t) = attrs (s t) := by
  rw [enslave]
  simp only
  split
  · rw [attrs_recalc]
    exact attrs_setChan rfl
  · exact attrs_setChan rfl

omit [DecidableEq T] in
theorem attrs_connected (c : Chan T) : attrs (connected idlebits dacsChan c) = attrs c := by
  cases dacsChan with
  | none => rfl
  | some _ => rfl

omit [DecidableEq T] in
/-- The signalling and the flags that are set are the same on channels that have the same. -/
theorem attrs_signalled {c c' : Chan T} (same : attrs c = attrs c') :
    attrs (signalled sigtype idlebits c) = attrs (signalled sigtype idlebits c') := by
  simp only [attrs, Prod.mk.injEq] at same
  obtain ⟨_, flags, netdev, up⟩ := same
  simp only [attrs, signalled]
  rw [flags, netdev, up]

omit [DecidableEq T] in
theorem attrs_typed {c c' : Chan T} (same : attrs c = attrs c') :
    attrs (typed sigtype c) = attrs (typed sigtype c') := by
  simp only [attrs, Prod.mk.injEq] at same
  obtain ⟨sig, flags, netdev, up⟩ := same
  simp only [attrs, typed]
  rw [sig, flags, netdev, up]

theorem attrs_makeNetdev {c c' : Chan T} (same : attrs c = attrs c') :
    (makeNetdev b n chan a c).1 = (makeNetdev b n chan a c').1 ∧
    attrs (makeNetdev b n chan a c).2 = attrs (makeNetdev b n chan a c').2 := by
  have whole := same
  simp only [attrs, Prod.mk.injEq] at same
  obtain ⟨sig, flags, netdev, up⟩ := same
  rw [makeNetdev, makeNetdev, sig]
  split
  · split
    · refine ⟨rfl, ?_⟩
      simp only [attrs]
      rw [flags, up]
    · split
      · refine ⟨rfl, ?_⟩
        simp only [attrs]
        rw [flags, up]
      · split
        · refine ⟨rfl, ?_⟩
          simp only [attrs]
          rw [flags, up]
        · refine ⟨rfl, ?_⟩
          simp only [attrs]
          rw [flags]
  · exact ⟨rfl, whole⟩

/-- The channel as a request leaves it that fails only after the channel is configured. -/
def left (b : Board T S) (chan n : T) (sigtype : Sig) (idlebits : Int) (a : Answers) (c : Chan T) :
    Chan T :=
  let c := typed sigtype (signalled sigtype idlebits (dropNetdev b c))
  if has sigtype sigDacsBit = true ∧ a.dacs ≠ 0 ∨ a.chanconfig ≠ 0 then c
  else (makeNetdev b n chan a c).2

theorem attrs_finish (c : Chan T) {res out : Int} (done : finish b s chan n res r a = some (out, s'))
    (same : attrs (s chan) = attrs c) :
    (∀ t, t ≠ chan → s' t = s t) ∧
    attrs (s' chan) = if res ≠ 0 ∨ a.chanconfig ≠ 0 then attrs c
      else attrs (makeNetdev b n chan a c).2 := by
  rw [finish] at done
  by_cases failed : res ≠ 0
  · rw [if_pos failed] at done
    cases done
    rw [if_pos (Or.inl failed)]
    exact ⟨fun _ _ => rfl, same⟩
  · rw [if_neg failed] at done
    split at done
    · cases done
    · by_cases driver : a.chanconfig ≠ 0
      · rw [if_pos driver] at done
        cases done
        rw [if_pos (Or.inr driver)]
        exact ⟨fun _ _ => rfl, same⟩
      · have neither : ¬ (res ≠ 0 ∨ a.chanconfig ≠ 0) := by
          rintro (one | other)
          · exact failed one
          · exact driver other
        rw [if_neg driver] at done
        rw [if_neg neither, ← (attrs_makeNetdev same).2]
        simp only at done
        split at done
        · cases done
          exact ⟨fun t other => setChan_other other, by rw [setChan_same]⟩
        · cases done
          refine ⟨fun t other => setChan_other other, ?_⟩
          rw [setChan_same]
          rfl

theorem attrs_dropped (b : Board T S) (s : Chans T) (chan t : T) (other : t ≠ chan) :
    attrs (unlink b (setChan s chan (dropNetdev b (s chan))) chan t) = attrs (s t) := by
  rw [attrs_unlink, setChan_other other]

/-- What a request that is not refused at once makes of the channels. -/
theorem chanconfig_attrs {out : Int} (granted : accepted b s r = .ok (chan, n, sigtype, dacsChan))
    (done : chanconfig b s r a = some (out, s')) :
    (∀ t, t ≠ chan → attrs (s' t) = attrs (s t)) ∧
    attrs (s' chan) =
      if supports (s chan).sigcap sigtype = false then attrs (dropNetdev b (s chan))
      else if has sigtype sigDacsBit = true ∧ dacsChan = none then
        attrs (signalled sigtype r.idlebits (dropNetdev b (s chan)))
      else attrs (left b chan n sigtype r.idlebits a (s chan)) := by
  have sigcap : (dropNetdev b (s chan)).sigcap = (s chan).sigcap := by
    rw [dropNetdev]
    split
    · rfl
    · rfl
  have others := attrs_dropped b s chan
  have own : attrs (unlink b (setChan s chan (dropNetdev b (s chan))) chan chan) =
      attrs (dropNetdev b (s chan)) := by
    rw [attrs_unlink, setChan_same]
  rw [chanconfig, granted] at done
  simp only [setChan_same] at done
  rw [sigcap] at done
  generalize unlink b (setChan s chan (dropNetdev b (s chan))) chan = middle at others own done
  by_cases able : supports (s chan).sigcap sigtype = true
  · rw [able] at done ⊢
    simp only [Bool.not_true, Bool.false_eq_true, if_false] at done
    rw [if_neg (by decide)]
    rw [configure] at done
    simp only at done
    by_cases missing : has sigtype sigDacsBit = true ∧ dacsChan = none
    · rw [if_pos missing] at done ⊢
      cases done
      constructor
      · intro t other
        rw [setChan_other other, others t other]
      · rw [setChan_same]
        exact attrs_signalled own
    · rw [if_neg missing] at done ⊢
      have finished := attrs_finish
        (typed sigtype (signalled sigtype r.idlebits (dropNetdev b (s chan)))) done
      obtain ⟨rest, mine⟩ := finished (by
        rw [setChan_same]
        apply attrs_typed
        rw [attrs_enslave, setChan_same, attrs_connected, setChan_same]
        exact attrs_signalled own)
      constructor
      · intro t other
        rw [rest t other, setChan_other other, attrs_enslave, setChan_other other,
          setChan_other other, others t other]
      · rw [mine, left]
        by_cases dacs : has sigtype sigDacsBit = true
        · simp only [dacs, if_true, true_and]
          split
          · rfl
          · rfl
        · simp only [dacs, Bool.false_eq_true, if_false, false_and, false_or, ne_eq,
            not_true_eq_false]
          split
          · rfl
          · rfl
  · rw [Bool.not_eq_true] at able
    rw [able] at done ⊢
    rw [if_pos rfl]
    cases done
    exact ⟨others, own⟩

omit [DecidableEq T] in
theorem drop_none (without : haveNetdev b c = false) : dropNetdev b c = c := by
  rw [dropNetdev, without]
  exact if_neg Bool.false_ne_true

omit [DecidableEq T] in
/-- A network device that is dropped is missed. -/
theorem drop_some (there : haveNetdev b c = true) :
    c.flags.netdev = true ∧ (dropNetdev b c).flags.netdev = false := by
  rw [dropNetdev, if_pos there]
  rw [haveNetdev, Bool.and_eq_true] at there
  exact ⟨there.2, rfl⟩

omit [DecidableEq T] in
theorem netdev_same {c c' : Chan T} (same : attrs c' = attrs c) : c'.flags.netdev = c.flags.netdev := by
  simp only [attrs, Prod.mk.injEq] at same
  rw [same.2.1]

omit [DecidableEq T] in
theorem drop_same : attrs (dropNetdev b c) = attrs c ↔ haveNetdev b c = false := by
  constructor
  · intro same
    apply Bool.eq_false_of_not_eq_true
    intro there
    have flag := netdev_same same
    rw [(drop_some there).1, (drop_some there).2] at flag
    exact Bool.false_ne_true flag
  · intro without
    rw [drop_none without]

omit [DecidableEq T] in
theorem signalled_same : attrs (signalled sigtype idlebits (dropNetdev b c)) = attrs c ↔
    haveNetdev b c = false ∧ Signalled sigtype c := by
  constructor
  · intro same
    have without : haveNetdev b c = false := by
      apply Bool.eq_false_of_not_eq_true
      intro there
      have flag := netdev_same same
      rw [(drop_some there).1, signalled, (drop_some there).2] at flag
      exact Bool.false_ne_true flag
    rw [drop_none without] at same
    simp only [attrs, signalled, Prod.mk.injEq] at same
    exact ⟨without, same.1.symm, same.2.1.symm⟩
  · intro both
    obtain ⟨without, sig, flags⟩ := both
    rw [drop_none without]
    simp only [attrs, signalled, Prod.mk.injEq]
    exact ⟨sig.symm, flags.symm, trivial⟩

omit [DecidableEq T] in
theorem lost_device (there : haveNetdev b c = true) :
    typedFlags sigtype (dropNetdev b c).flags ≠ c.flags := by
  intro same
  have flag := congrArg Flags.netdev same
  rw [(drop_some there).1] at flag
  exact Bool.false_ne_true ((drop_some there).2.symm.trans flag)

theorem netdev_failed (comes : b.net = true ∧ n = chan ∧ c.sig = sigHdlcnet) (fails : ¬ Registers a) :
    (makeNetdev b n chan a c).2 = { c with hdlcnetdev := a.hdlcAlloc } := by
  rw [makeNetdev, if_pos comes]
  by_cases first : a.hdlcAlloc = false
  · rw [if_pos first, first]
  · rw [if_neg first]
    rw [Bool.not_eq_false] at first
    rw [first]
    split
    · rfl
    case isFalse second =>
      rw [Bool.not_eq_false] at second
      rw [if_pos fun third => fails ⟨first, second, third⟩]

theorem netdev_made (comes : b.net = true ∧ n = chan ∧ c.sig = sigHdlcnet) (made : Registers a) :
    (makeNetdev b n chan a c).2 =
      { c with hdlcnetdev := true, up := false, flags := { c.flags with netdev := true } } := by
  rw [makeNetdev, if_pos comes, if_neg (by simp [made.1]), if_neg (by simp [made.2.1]),
    if_neg (not_not.mpr made.2.2)]

theorem left_plain (plain : ¬ Registering b chan n sigtype a) :
    left b chan n sigtype idlebits a c = typed sigtype (signalled sigtype idlebits (dropNetdev b c)) := by
  rw [left]
  split
  · rfl
  case isFalse passed =>
    rw [not_or] at passed
    rw [makeNetdev, if_neg]
    intro all
    exact plain ⟨not_not.mp passed.2, all⟩

/-- The signalling of a network device is no cross connect. -/
theorem left_registering (comes : Registering b chan n sigtype a) :
    left b chan n sigtype idlebits a c =
      (makeNetdev b n chan a (typed sigtype (signalled sigtype idlebits (dropNetdev b c)))).2 := by
  rw [left]
  apply if_neg
  rw [comes.2.2.2]
  rintro (⟨dacs, _⟩ | driver)
  · exact absurd dacs (by decide)
  · exact driver comes.1

omit [DecidableEq T] in
/-- The device is gone, or there was none. -/
theorem typed_same {hdlcnetdev : Bool} :
    attrs { typed sigtype (signalled sigtype idlebits (dropNetdev b c)) with hdlcnetdev := hdlcnetdev } =
      attrs c ↔ haveNetdev b c = false ∧ Typed sigtype c ∧ c.hdlcnetdev = hdlcnetdev := by
  by_cases there : haveNetdev b c = true
  · constructor
    · intro same
      exact absurd (congrArg (fun whole => whole.2.1) same) (lost_device there)
    · rintro ⟨without, _⟩
      rw [there] at without
      exact absurd without (by decide)
  · rw [Bool.not_eq_true] at there
    rw [drop_none there]
    constructor
    · intro same
      simp only [attrs, Prod.mk.injEq] at same
      exact ⟨there, ⟨same.1.symm, same.2.1.symm⟩, same.2.2.1.symm⟩
    · rintro ⟨_, ⟨sig, flags⟩, netdev⟩
      simp only [attrs, Prod.mk.injEq]
      exact ⟨sig.symm, flags.symm, netdev.symm, rfl⟩

omit [DecidableEq T] in
theorem made_same (net : b.net = true) (down : haveNetdev b c = true → c.up = false) :
    attrs { typed sigtype (signalled sigtype idlebits (dropNetdev b c)) with
      hdlcnetdev := true
      up := false
      flags := { typedFlags sigtype (dropNetdev b c).flags with netdev := true } } = attrs c ↔
    haveNetdev b c = true ∧ Typed sigtype c ∧ c.hdlcnetdev = true := by
  have dropped : { typedFlags sigtype (dropNetdev b c).flags with netdev := true } =
      { typedFlags sigtype c.flags with netdev := true } := by
    rw [dropNetdev]
    split
    · rfl
    · rfl
  rw [dropped]
  simp only [attrs, Prod.mk.injEq]
  constructor
  · rintro ⟨sig, flags, netdev, _⟩
    have flag : true = c.flags.netdev := congrArg Flags.netdev flags
    refine ⟨?_, ⟨sig.symm, ?_⟩, netdev.symm⟩
    · rw [haveNetdev, net, ← flag]
      rfl
    · rw [flag] at flags
      exact flags.symm
  · rintro ⟨there, ⟨sig, flags⟩, netdev⟩
    refine ⟨sig.symm, ?_, netdev.symm, (down there).symm⟩
    rw [← (drop_some there).1]
    exact flags.symm

theorem left_same (down : haveNetdev b c = true → c.up = false) :
    attrs (left b chan n sigtype idlebits a c) = attrs c ↔
    Typed sigtype c ∧ Reregistered b c chan n sigtype a := by
  rw [Reregistered]
  by_cases comes : Registering b chan n sigtype a
  · by_cases made : Registers a
    · rw [left_registering comes, netdev_made comes.2 made]
      refine (made_same comes.2.1 down).trans ?_
      rw [made.1]
      constructor
      · rintro ⟨there, fit, netdev⟩
        exact ⟨fit, fun _ => ⟨⟨fun _ => made, fun _ => there⟩, netdev⟩, fun not => absurd comes not⟩
      · rintro ⟨fit, again, _⟩
        exact ⟨(again comes).1.mpr made, fit, (again comes).2⟩
    · rw [left_registering comes, netdev_failed comes.2 made, typed_same]
      constructor
      · rintro ⟨without, fit, netdev⟩
        refine ⟨fit, fun _ => ⟨⟨?_, fun registers => absurd registers made⟩, netdev⟩,
          fun not => absurd comes not⟩
        intro there
        rw [there] at without
        exact absurd without (by decide)
      · rintro ⟨fit, again, _⟩
        refine ⟨?_, fit, (again comes).2⟩
        apply Bool.eq_false_of_not_eq_true
        intro there
        exact made ((again comes).1.mp there)
  · rw [left_plain comes]
    have same := @typed_same T S b sigtype c idlebits (dropNetdev b c).hdlcnetdev
    constructor
    · intro whole
      obtain ⟨without, fit, _⟩ := same.mp whole
      exact ⟨fit, fun registering => absurd registering comes, fun _ => without⟩
    · rintro ⟨fit, _, without⟩
      apply same.mpr
      refine ⟨without comes, fit, ?_⟩
      rw [drop_none (without comes)]

end attributes

section masters

/-- A channel that turns to its own master again leaves the links as they are if the chain
    was right. -/
theorem enslaved_same (own : masters s chan = n) :
    enslaved b (masters s) (unlinked b (masters s) (links s) chan) chan n = links s ↔
    Rethreaded b s chan n := by
  rw [enslaved, Rethreaded]
  by_cases self : n = chan
  · rw [if_pos self, unlinked, own, if_pos self]
    exact ⟨fun _ other => absurd self other, fun _ => rfl⟩
  · have slave : masters s chan ≠ chan := by
      rw [own]
      exact self
    rw [if_neg self, unlinked, if_neg slave, own]
    cases home : b.span n with
    | none =>
      rw [relinked_homeless home, relinked_homeless home, Function.update_eq_self_iff]
      have nobody : slaves b s n = [] := by
        rw [slaves, followers, behind_homeless home, List.filter_nil]
      rw [nobody]
      constructor
      · intro free _
        exact ⟨fun some => absurd rfl some, fun _ => free.symm⟩
      · intro free
        exact ((free self).2 List.not_mem_nil).symm
    | some sp =>
      have homed : b.span n ≠ none := by
        rw [home]
        exact Option.some_ne_none sp
      rw [relinked_homed homed, relinked_homed homed]
      have again : thread (thread (Function.update (links s) chan none) n
            (followers (behind b) (Function.update (masters s) chan chan) n)) n
            (followers (behind b) (masters s) n) =
          thread (Function.update (links s) chan none) n (slaves b s n) := by
        apply thread_congr (slaves_once b s n)
        intro t outside
        apply thread_other
        intro member
        apply outside
        rcases List.mem_cons.mp member with here | later
        · exact List.mem_cons.mpr (Or.inl here)
        · obtain ⟨after, follows⟩ := mem_followers.mp later
          by_cases same : t = chan
          · rw [same, Function.update_self] at follows
            exact absurd follows.symm self
          · rw [Function.update_of_ne same] at follows
            exact List.mem_cons_of_mem _ (mem_followers.mpr ⟨after, follows⟩)
      rw [again, thread_iff (slaves_once b s n)]
      constructor
      · rintro ⟨chain, others⟩ _
        refine ⟨fun _ => chain, ?_⟩
        intro outside
        have free := others chan (by
          rw [List.mem_cons, not_or]
          exact ⟨Ne.symm self, outside⟩)
        rw [Function.update_self] at free
        exact free.symm
      · intro right
        obtain ⟨chain, free⟩ := right self
        refine ⟨chain (Option.some_ne_none sp), ?_⟩
        intro t outside
        by_cases same : t = chan
        · rw [same] at outside ⊢
          rw [Function.update_self, free fun member => outside (List.mem_cons_of_mem _ member)]
        · rw [Function.update_of_ne same]

/-- The masters and the links are the same just if the master is, and its chain. -/
theorem links_same {out : Int} {v : T} (granted : accepted b s r = .ok (chan, n, sigtype, dacsChan))
    (ended : chanconfig b s r a = some (out, s'))
    (turned : v = if fits (s chan).sigcap sigtype dacsChan then n else chan) :
    masters s' = masters s ∧ links s' = links s ↔ (s chan).master = v ∧ Rethreaded b s chan v := by
  obtain ⟨owner, link⟩ := chanconfig_links granted ended turned
  rw [owner, link, Function.update_eq_self_iff]
  have either : ∀ own : masters s chan = v, Function.update (masters s) chan v = masters s := by
    intro own
    rw [Function.update_eq_self_iff]
    exact own.symm
  constructor
  · rintro ⟨own, same⟩
    rw [either own.symm] at same
    exact ⟨own.symm, (enslaved_same own.symm).mp same⟩
  · rintro ⟨own, right⟩
    rw [either own]
    exact ⟨own.symm, (enslaved_same own).mpr right⟩

end masters

omit [DecidableEq T] in
theorem accepted_down (granted : accepted b s r = .ok (chan, n, sigtype, dacsChan))
    (there : haveNetdev b (s chan) = true) : (s chan).up = false := by
  rw [accepted] at granted
  split at granted
  · cases granted
  · split at granted
    · cases granted
    · split at granted
      · cases granted
      case isFalse down =>
        split at granted
        · cases granted
        · cases granted
          apply Bool.eq_false_of_not_eq_true
          intro up
          exact down ⟨there, up⟩

theorem refused_untouched (b : Board T S) (s s' : Chans T) (r : Request) (a : Answers) (res : Int) :
    chanconfig b s r a = some (res, s') → res ≠ 0 → (Same s s' ↔ Untouched b s r a) := by
  intro ended _
  rw [Untouched]
  cases granted : accepted b s r with
  | error e =>
    rw [chanconfig, granted] at ended
    cases ended
    exact ⟨fun _ => trivial, fun _ => ⟨rfl, rfl, fun _ => rfl⟩⟩
  | ok four =>
    obtain ⟨chan, n, sigtype, dacsChan⟩ := four
    obtain ⟨others, mine⟩ := chanconfig_attrs granted ended
    have whole : Same s s' ↔ (masters s' = masters s ∧ links s' = links s) ∧
        attrs (s' chan) = attrs (s chan) := by
      constructor
      · rintro ⟨owner, link, same⟩
        exact ⟨⟨owner, link⟩, same chan⟩
      · rintro ⟨⟨owner, link⟩, same⟩
        refine ⟨owner, link, ?_⟩
        intro t
        by_cases here : t = chan
        · rw [here, same]
        · exact others t here
    have alone : Rethreaded b s chan chan := fun other => absurd rfl other
    rw [whole]
    simp only
    by_cases able : supports (s chan).sigcap sigtype = false
    · have unfit : ¬ fits (s chan).sigcap sigtype dacsChan := by
        rintro ⟨supported, _⟩
        rw [able] at supported
        exact Bool.false_ne_true supported
      rw [if_pos able] at mine ⊢
      rw [mine, links_same granted ended (if_neg unfit).symm, drop_same]
      exact ⟨fun all => ⟨all.1.1, all.2⟩, fun all => ⟨⟨all.1, alone⟩, all.2⟩⟩
    · rw [if_neg able] at mine ⊢
      rw [Bool.not_eq_false] at able
      by_cases missing : has sigtype sigDacsBit = true ∧ dacsChan = none
      · rw [if_pos missing] at mine ⊢
        rw [mine, links_same granted ended (if_neg fun both => both.2 missing).symm, signalled_same]
        exact ⟨fun all => ⟨all.1.1, all.2⟩, fun all => ⟨⟨all.1, alone⟩, all.2⟩⟩
      · rw [if_neg missing] at mine ⊢
        rw [mine, links_same granted ended (if_pos ⟨able, missing⟩).symm,
          left_same (accepted_down granted), and_assoc]

/-- One channel is a slave of another. -/
def joined (master slave : Fin 4) : Chans (Fin 4) := fun t =>
  { fresh t with
    sig := sigClear
    master := if t = slave then master else t
    nextslave := if t = master then some slave else none }

/-- A signalling that the channels do not support. -/
def wink : Request := ⟨2, sigCas, 2, 0, 0⟩

theorem refused_untouched_unsupported : ∃ s', chanconfig quad (joined 0 1) wink granted = some (-einval, s') ∧
    (Same (joined 0 1) s' ↔ Untouched quad (joined 0 1) wink granted) := by
  have runs : (chanconfig quad (joined 0 1) wink granted).any (fun out => out.1 = -einval) = true := by
    decide +kernel
  obtain ⟨⟨res, s'⟩, ended, refused⟩ := (Option.any_eq_true _ _).mp runs
  have code : res = -einval := of_decide_eq_true refused
  subst code
  exact ⟨s', ended, refused_untouched quad (joined 0 1) s' wink granted (-einval) ended (by decide)⟩

theorem refused_unlinked : ¬ ∀ s', ∀ res ≠ 0,
    chanconfig quad (joined 0 1) wink granted = some (res, s') → Same (joined 0 1) s' := by
  intro always
  have runs : (chanconfig quad (joined 0 1) wink granted).any (fun out =>
      out.1 ≠ 0 ∧ (out.2 1).master = 1 ∧ (out.2 0).nextslave = none) = true := by decide +kernel
  obtain ⟨⟨res, s'⟩, ended, shown⟩ := (Option.any_eq_true _ _).mp runs
  obtain ⟨refused, lost, _⟩ := of_decide_eq_true shown
  obtain ⟨owner, _⟩ := always s' res refused ended
  have kept := congrFun owner 1
  rw [masters, lost] at kept
  exact absurd kept (by decide)

end Chanconfig
