import Dahdi.Conference.Alias

/-!
DAHDI_SETCONF and the other operations that take a channel out of its
conference, each from its first to its last statement.
-/
namespace Conference

def einval : Int := 22
def ebusy : Int := 16

structure Confinfo where
  chan : Int
  confno : Int
  confmode : Confmode

/-- chan_from_num -/
def chanFromNum (s : State) (channo : Int) : Option Nat :=
  s.registered.find? fun a => (s.chans a).channo == channo

/-- A channel the request is about, from its number or from the open file. -/
def setconfChan (s : State) (file : Nat) (conf : Confinfo) : Option Nat :=
  if conf.chan ≠ 0 then chanFromNum s conf.chan else if file ∈ s.registered then some file else none

def preecho (mode : Confmode) : Bool :=
  mode == confMonitorRxPreecho || mode == confMonitorTxPreecho || mode == confMonitorbothPreecho

/-- conf_chan and the check of confno; none is -EINVAL. -/
def setconfConfChan (s : State) (conf : Confinfo) : Option (Option Nat) :=
  if monitors conf.confmode then (chanFromNum s conf.confno).map some
  else if conf.confno < -1 ∨ maxConf < conf.confno then none
  else some none

/-- The checks of dahdi_ioctl_setconf: the channel and conf_chan, or -EINVAL. -/
def setconfCheck (s : State) (file : Nat) (conf : Confinfo) : Option (Nat × Option Nat) :=
  match setconfChan s file conf with
  | none => none
  | some chan =>
    if (s.chans chan).audio = false then none
    else match setconfConfChan s conf with
      | none => none
      | some confChan =>
        -- a conference only with a mode, a mode only with a conference
        if conf.confno = 0 ∧ conf.confmode ≠ 0 then none
        else if conf.confmode = 0 ∧ conf.confno ≠ 0 then none
        else some (chan, confChan)

/-- A memset of DAHDI_MAX_CHUNKSIZE bytes, half of the samples. -/
def clearHalf (c : Chunk) : Chunk := fun x => if 2 * x.val < chunksize then 0 else c x

def setconfNumber (t : Tables) (confno : Int) : Int :=
  if confno = -1 then firstEmptyConference t else confno

/-- The channel with its new conference, not yet with its alias. -/
def joining (c : Chan) (confChan : Option Nat) (confno : Int) (confmode : Confmode) : Chan :=
  let c :=
    if confno ≠ c.confna then
      { c with
        conflast := clearHalf c.conflast
        conflast1 := clearHalf c.conflast1
        conflast2 := clearHalf c.conflast2 }
    else c
  { c with confna := confno, confChan := confChan, confmode := confmode, confn := 0 }

/-- The critical section of dahdi_ioctl_setconf as far as the channel goes. -/
def setconfJoin (s : State) (chan : Nat) (confChan : Option Nat) (confno : Int)
    (confmode : Confmode) : Except Fault State :=
  let c := joining (s.chans chan) confChan confno confmode
  if confno ≠ 0 ∧ isMixing confmode = true then
    match getConfAlias s.tables confno with
    | .error fault => .error fault
    | .ok (a, t) => .ok (setTables (setChan s chan { c with confn := a }) t)
  else .ok (setChan s chan c)

inductive Preec where
  | none
  | enable
  | disable
  deriving DecidableEq, Repr

def setPreec (s : State) (chan : Nat) (allocated : Bool) : State :=
  setChan s chan { s.chans chan with readchunkpreec := allocated }

/-- The critical section of dahdi_ioctl_setconf as far as conf_chan goes. -/
def setconfPreec (s : State) (confChan : Option Nat) (confmode : Confmode) (kmalloc : Bool) :
    Preec × State :=
  match confChan with
  | none => (.none, s)
  | some p =>
    if preecho (confmode &&& modeMask) then
      if !(s.chans p).readchunkpreec && kmalloc then (.enable, setPreec s p true) else (.none, s)
    else (.disable, setPreec s p false)

/-- From the end of the critical section on; hw is what the board returns when its
    echo canceller is to be bypassed. -/
def setconfFinish (s : State) (oldconf : Int) (confChan : Option Nat) (confmode : Confmode)
    (kmalloc : Bool) (hw : Int) : Except Fault (Int × State) :=
  match setconfPreec s confChan confmode kmalloc, confChan with
  | (.enable, s), some p => .ok (hw, if hw ≠ 0 then setPreec s p false else s)
  | (_, s), _ => (checkConf s false oldconf).map fun s => (0, s)

/-- dahdi_ioctl_setconf -/
def setconf (s : State) (file : Nat) (conf : Confinfo) (kmalloc : Bool) (hw : Int) :
    Except Fault (Int × State) :=
  match setconfCheck s file conf with
  | none => .ok (-einval, s)
  | some (chan, confChan) =>
    match checkConf s false conf.confno with
    | .error fault => .error fault
    | .ok s =>
      let confno := setconfNumber s.tables conf.confno
      if confno < 1 ∧ conf.confmode ≠ 0 then .ok (-ebusy, s)
      else
        match setconfJoin s chan confChan confno conf.confmode with
        | .error fault => .error fault
        | .ok s' => setconfFinish s' (s.chans chan).confna confChan conf.confmode kmalloc hw

/-- What close_channel leaves of the channel. -/
def closed (c : Chan) : Chan :=
  { c with
    readchunkpreec := false
    dialing := false
    afterdialingtimer := 0
    confn := 0
    confna := 0
    confmode := 0
    dacsChan := none
    confmute := false
    conflast := silence
    conflast1 := silence
    conflast2 := silence }

/-- A monitor that goes leaves the echo canceller of the monitored channel alone. -/
def dropPreecho (s : State) (chan : Nat) : State :=
  match (s.chans chan).confChan with
  | none => s
  | some p => if preecho (s.chans chan).confmode then setPreec s p false else s

/-- close_channel -/
def closeChannel (s : State) (chan : Nat) : Except Fault State :=
  let oldconf := (s.chans chan).confna
  let s := dropPreecho s chan
  let s := setChan s chan (closed (s.chans chan))
  if oldconf ≠ 0 then checkConf s false oldconf else .ok s

/-- What initialize_channel leaves of the channel after the check of its
    conference; the signalling decides about the audio flag. -/
def initialized (c : Chan) : Chan :=
  let c := if c.sigDacs then c else { c with confna := 0, confmode := 0, confChan := none }
  { c with
    dialing := false
    afterdialingtimer := 0
    dacsChan := none
    confn := 0
    conflast := silence
    conflast1 := silence
    conflast2 := silence
    confmute := false
    audio := if c.sigClear then false else c.audio }

/-- initialize_channel with buffers allocated. -/
def initializeChannel (s : State) (chan : Nat) : Except Fault State :=
  match (if (s.chans chan).confna ≠ 0 then checkConf s false (s.chans chan).confna else .ok s) with
  | .error fault => .error fault
  | .ok s => .ok (setChan s chan (initialized (s.chans chan)))

/-- The channel has something to do with the one that goes. -/
def pointsTo (s : State) (chan pos : Nat) : Bool :=
  let c := s.chans pos
  (decide (c.confna = (s.chans chan).channo) && isMonitorMode c.confmode) ||
    c.dacsChan == some chan || c.confChan == some chan

def cleaned (c : Chan) : Chan :=
  { c with confna := 0, confn := 0, confmode := 0, confChan := none, dacsChan := none }

/-- _chan_cleanup, which runs under chan_lock. -/
def chanCleanup (s : State) (chan pos : Nat) : Except Fault State :=
  if pointsTo s chan pos then
    match (if (s.chans pos).confna ≠ 0 then checkConf s true (s.chans pos).confna else .ok s) with
    | .error fault => .error fault
    | .ok s => .ok (setChan s pos (cleaned (s.chans pos)))
  else .ok s

def cleanupAll (chan : Nat) : List Nat → State → Except Fault State
  | [], s => .ok s
  | pos :: rest, s =>
    match chanCleanup s chan pos with
    | .error fault => .error fault
    | .ok s => cleanupAll chan rest s

/-- dahdi_chan_unreg -/
def chanUnreg (s : State) (chan : Nat) : Except Fault State :=
  match cleanupAll chan s.registered s with
  | .error fault => .error fault
  | .ok s => closeChannel (setChan s chan { s.chans chan with channo := -1 }) chan

def unregAll : List Nat → State → Except Fault State
  | [], s => .ok s
  | chan :: rest, s =>
    match chanUnreg s chan with
    | .error fault => .error fault
    | .ok s => unregAll rest s

def delist (s : State) (chans : List Nat) : State :=
  { s with
    spanChans := s.spanChans.filter fun a => a ∉ chans
    pseudos := s.pseudos.filter fun a => a ∉ chans }

/-- The channels of a span, or one pseudo channel, leave the lists and are
    unregistered one after the other. -/
def unregister (s : State) (chans : List Nat) : Except Fault State :=
  unregAll chans (delist s chans)

/-- The part of DAHDI_CHANCONFIG that sets the signalling; `dacs` is the number of
    the channel to be cross connected. -/
def chanconfig (s : State) (chan : Nat) (clear : Bool) (dacs : Option Int) : Int × State :=
  match dacs with
  | none =>
    (0, setChan s chan { s.chans chan with sigDacs := false, sigClear := clear, audio := !clear })
  | some idlebits =>
    match chanFromNum s idlebits with
    | none => (-einval, s)
    | some dacsChan =>
      (0, setChan s chan { s.chans chan with
        sigDacs := true
        sigClear := clear
        audio := !clear
        confmode := confDigitalmon
        confna := idlebits
        dacsChan := some dacsChan })

inductive Op where
  | setconf (file : Nat) (conf : Confinfo) (kmalloc : Bool) (hw : Int)
  | close (chan : Nat)
  | reinit (chan : Nat)
  | unregister (chans : List Nat)
  | chanconfig (chan : Nat) (clear : Bool) (dacs : Option Int)

/-- An operation from its beginning to its end. -/
def applyOp (s : State) : Op → Except Fault State
  | .setconf file conf kmalloc hw => (setconf s file conf kmalloc hw).map Prod.snd
  | .close chan => closeChannel s chan
  | .reinit chan => initializeChannel s chan
  | .unregister chans => unregister s chans
  | .chanconfig chan clear dacs => .ok (chanconfig s chan clear dacs).2

/-- Registered channels that have never been in a conference. -/
structure Idle (s : State) : Prop where
  tables : s.tables = ⟨fun _ => 0, fun _ => 0, 0⟩
  chans : ∀ a, (s.chans a).confna = 0 ∧ (s.chans a).confmode = 0 ∧ (s.chans a).confn = 0

section Requests
variable {s : State} {chan : Nat} {confChan : Option Nat} {confno : Int} {confmode : Confmode}

theorem mixing_cases (mixing : isMixing confmode = true) :
    confmode &&& modeMask = confConf ∨ confmode &&& modeMask = confConfann ∨
      confmode &&& modeMask = confConfmon ∨ confmode &&& modeMask = confConfannmon ∨
      confmode &&& modeMask = confRealandpseudo := by
  simpa [isMixing, or_assoc] using mixing

theorem mixing_not_monitors (mixing : isMixing confmode = true) :
    monitors confmode = false ∧ preecho (confmode &&& modeMask) = false := by
  unfold monitors isMonitorMode preecho
  rcases mixing_cases mixing with mode | mode | mode | mode | mode <;> rw [mode] <;> decide

theorem chan_from_num_registered {channo : Int} (found : chanFromNum s channo = some chan) :
    chan ∈ s.registered := List.mem_of_find?_eq_some found

/-- What the checks of dahdi_ioctl_setconf let through. -/
theorem check_inversion {file : Nat} {conf : Confinfo}
    (checked : setconfCheck s file conf = some (chan, confChan)) :
    chan ∈ s.registered ∧ setconfConfChan s conf = some confChan := by
  unfold setconfCheck at checked
  split at checked
  · cases checked
  · rename_i found
    split at checked
    · cases checked
    · split at checked
      · cases checked
      · rename_i confChan' target
        split at checked
        · cases checked
        · split at checked
          · cases checked
          · obtain ⟨rfl, rfl⟩ := Prod.mk.inj (Option.some.inj checked)
            refine ⟨?_, target⟩
            unfold setconfChan at found
            split at found
            · exact chan_from_num_registered found
            · split at found
              · obtain rfl := Option.some.inj found
                assumption
              · cases found

theorem conf_chan_cases {conf : Confinfo} (target : setconfConfChan s conf = some confChan) :
    (monitors conf.confmode = true ∧ confChan ≠ none) ∨
      (monitors conf.confmode = false ∧ confChan = none ∧ -1 ≤ conf.confno ∧ conf.confno ≤ maxConf) := by
  unfold setconfConfChan at target
  split at target
  · rename_i monitor
    refine Or.inl ⟨monitor, ?_⟩
    cases found : chanFromNum s conf.confno with
    | none =>
      rw [found] at target
      cases target
    | some p =>
      rw [found] at target
      obtain rfl := Option.some.inj target
      exact Option.some_ne_none p
  · rename_i monitor
    split at target
    · cases target
    · exact Or.inr ⟨by simpa using monitor, (Option.some.inj target).symm, by omega, by omega⟩

theorem conf_chan_mixing {conf : Confinfo} (target : setconfConfChan s conf = some confChan)
    (mixing : isMixing conf.confmode = true) : -1 ≤ conf.confno ∧ conf.confno ≤ maxConf := by
  rcases conf_chan_cases target with ⟨monitor, _⟩ | ⟨_, _, range⟩
  · rw [(mixing_not_monitors mixing).1] at monitor
    cases monitor
  · exact range

theorem first_empty_conference_from {confalias : Int → Int} (x : Nat) :
    firstEmptyConferenceFrom confalias x = -1 ∨ (1 ≤ firstEmptyConferenceFrom confalias x ∧
      firstEmptyConferenceFrom confalias x ≤ x ∧
      confalias (firstEmptyConferenceFrom confalias x) = 0) := by
  induction x with
  | zero => exact Or.inl rfl
  | succ x ih =>
    unfold firstEmptyConferenceFrom
    split
    · rename_i free
      exact Or.inr ⟨by omega, Int.le_refl _, free⟩
    · rcases ih with none | ⟨low, high, free⟩
      · exact Or.inl none
      · exact Or.inr ⟨low, by omega, free⟩

theorem setconf_number (t : Tables) {n : Int} (high : n ≤ maxConf) :
    setconfNumber t n ≤ maxConf := by
  unfold setconfNumber
  split
  · rcases @first_empty_conference_from t.confalias (maxConf - 1).toNat with none | ⟨_, below, _⟩
    · rw [firstEmptyConference, none]
      decide
    · unfold firstEmptyConference
      simp only [maxConf] at below ⊢
      omega
  · exact high

@[simp] theorem joining_confna (c : Chan) : (joining c confChan confno confmode).confna = confno := by
  simp only [joining]

@[simp] theorem joining_confmode (c : Chan) :
    (joining c confChan confno confmode).confmode = confmode := by
  simp only [joining]

@[simp] theorem joining_readchunkpreec (c : Chan) :
    (joining c confChan confno confmode).readchunkpreec = c.readchunkpreec := by
  unfold joining
  split <;> rfl

/-- Every member has the alias of its conference. -/
structure Linked (s : State) : Prop where
  tables : AliasOk s.tables
  member : ∀ a ∈ s.registered, ∀ x, chanInConf (s.chans a) x = true →
    s.tables.confalias x ≠ 0 ∧ (s.chans a).confn = s.tables.confalias x

/-- The critical section of dahdi_ioctl_setconf gives the channel the alias of its
    conference, and changes no other alias and no other channel. -/
theorem join_linked {s' : State} (linked : Linked s)
    (range : isMixing confmode = true → 1 ≤ confno ∧ confno ≤ maxConf)
    (done : setconfJoin s chan confChan confno confmode = .ok s') : Linked s' ∧
      (∀ y, (s'.tables.confalias y = s.tables.confalias y ∧
          ∀ b, b ≠ chan → s'.chans b = s.chans b) ∨
        (y = confno ∧ chanInConf (s'.chans chan) y = true)) ∧
      s'.registered = s.registered ∧ (isMixing confmode = false →
        s' = setChan s chan (joining (s.chans chan) confChan confno confmode)) := by
  unfold setconfJoin at done
  simp only at done
  split at done
  · rename_i mixing
    obtain ⟨low, high⟩ := range mixing.2
    split at done
    · cases done
    · rename_i a t given
      obtain rfl := Except.ok.inj done
      have entry : a ≠ 0 ∧ AliasOk t ∧ t.confalias confno = a ∧
          ∀ y, s.tables.confalias y ≠ 0 ∨ y ≠ confno → t.confalias y = s.tables.confalias y := by
        rcases get_alias_spec linked.tables low high with
          ⟨used, got⟩ | ⟨_, _, fault⟩ | ⟨unused, a', t', got, first, _, _, ok, confalias, _⟩
        · obtain ⟨rfl, rfl⟩ := Prod.mk.inj (Except.ok.inj (got.symm.trans given))
          exact ⟨used, linked.tables, rfl, fun _ _ => rfl⟩
        · rw [fault] at given
          cases given
        · obtain ⟨rfl, rfl⟩ := Prod.mk.inj (Except.ok.inj (got.symm.trans given))
          refine ⟨by omega, ok, by rw [confalias, Function.update_self], fun y other => ?_⟩
          have differ : y ≠ confno := by
            rintro rfl
            rcases other with used | other
            · exact used unused
            · exact other rfl
          rw [confalias, Function.update_of_ne differ]
      obtain ⟨some, ok, here, others⟩ := entry
      refine ⟨⟨ok, ?_⟩, ?_, rfl, fun unmixed => by rw [mixing.2] at unmixed; cases unmixed⟩
      · intro b member y inConf
        simp only [set_tables_chans, set_tables_tables] at inConf ⊢
        by_cases same : b = chan
        · subst same
          rw [set_chan_same] at inConf ⊢
          obtain ⟨number, _⟩ := in_conf_iff.mp inConf
          simp only [joining_confna] at number
          subst number
          rw [here]
          exact ⟨some, rfl⟩
        · rw [set_chan_other s _ same] at inConf ⊢
          obtain ⟨used, confn⟩ := linked.member b member y inConf
          rw [others y (Or.inl used)]
          exact ⟨used, confn⟩
      · intro y
        by_cases new : y = confno
        · refine Or.inr ⟨new, ?_⟩
          rw [set_tables_chans, set_chan_same, in_conf_iff]
          simp only [joining_confna, joining_confmode, mixing.2, new, and_self]
        · refine Or.inl ⟨others y (Or.inr new), fun b differ => ?_⟩
          rw [set_tables_chans, set_chan_other s _ differ]
  · rename_i unmixed
    obtain rfl := Except.ok.inj done
    have gone : isMixing confmode = false := by
      by_contra mixing
      simp only [Bool.not_eq_false] at mixing
      have := range mixing
      exact unmixed ⟨by omega, mixing⟩
    refine ⟨⟨linked.tables, ?_⟩, fun y => Or.inl ⟨rfl, fun b differ => set_chan_other s _ differ⟩,
      rfl, fun _ => rfl⟩
    intro b member y inConf
    by_cases same : b = chan
    · subst same
      rw [set_chan_same, in_conf_iff, joining_confmode, gone] at inConf
      cases inConf.2
    · rw [set_chan_other s _ same] at inConf ⊢
      exact linked.member b member y inConf

/-- The alias of a conference without members can go. -/
theorem clear_linked {t : Tables} {x : Int} (linked : Linked s) (ok : AliasOk t)
    (confalias : t.confalias = Function.update s.tables.confalias x 0)
    (empty : ∀ a ∈ s.registered, chanInConf (s.chans a) x = false) : Linked (setTables s t) := by
  refine ⟨ok, ?_⟩
  intro a inside y here
  have other : y ≠ x := by
    rintro rfl
    rw [set_tables_chans, empty a inside] at here
    cases here
  simp only [set_tables_tables, confalias, Function.update_of_ne other]
  exact linked.member a inside y here

theorem any_in_conf {x : Int} :
    anyInConf s x = false ↔ ∀ a ∈ s.registered, chanInConf (s.chans a) x = false := by
  simp [anyInConf]

end Requests

end Conference
