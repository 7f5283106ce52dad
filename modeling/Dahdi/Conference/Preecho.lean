import Dahdi.Conference.Residue
import Dahdi.Library.Watchers

/-!
The buffer for the audio before echo cancellation. One buffer serves all monitors of a
channel and is not counted, so that a request for one of them may take it from the others
or leave it behind.
-/
namespace ConferencePreecho
open Conference GuardedRun Watchers

/-- The channel that a registered channel monitors in one of the PREECHO modes. -/
def watch (s : State) (a : Nat) : Option Nat :=
  if a ∈ s.registered ∧ preecho ((s.chans a).confmode &&& modeMask) = true then (s.chans a).confChan
  else none

def allocated (s : State) (p : Nat) : Prop := (s.chans p).readchunkpreec = true

instance (s : State) (p : Nat) : Decidable (allocated s p) :=
  inferInstanceAs (Decidable ((s.chans p).readchunkpreec = true))

/-- A channel has the buffer exactly if some channel monitors it. -/
def Buffered (s : State) : Prop := Marked (watch s) (allocated s)

/-- Another registered channel monitors the same. -/
def others (s : State) (c p : Nat) : Prop := ∃ a ∈ s.registered, a ≠ c ∧ watch s a = some p

instance (s : State) (c p : Nat) : Decidable (others s c p) :=
  inferInstanceAs (Decidable (∃ a ∈ s.registered, a ≠ c ∧ watch s a = some p))

inductive Request where
  | setconf (file : Nat) (conf : Confinfo) (kmalloc : Bool) (hw : Int)
  | close (chan : Nat)

def Request.op : Request → Op
  | .setconf file conf kmalloc hw => .setconf file conf kmalloc hw
  | .close chan => .close chan

/-- A request that dahdi_ioctl_setconf does not refuse. -/
def taken (s : State) (file : Nat) (conf : Confinfo) : Option (Nat × Option Nat) :=
  if setconfNumber s.tables conf.confno < 1 ∧ conf.confmode ≠ 0 then none
  else setconfCheck s file conf

/-- The last monitor of a channel does not turn to another one or to none. A channel that
    is monitored has its buffer or gets one, and one whose buffer is dropped has no other
    monitor. -/
def Fits (s : State) (chan : Nat) (confChan : Option Nat) (confmode : Confmode) (kmalloc : Bool)
    (hw : Int) : Prop :=
  (∀ q ∈ watch s chan, confChan ≠ some q → others s chan q) ∧
    ∀ p ∈ confChan,
      if preecho (confmode &&& modeMask) = true then allocated s p ∨ (kmalloc = true ∧ hw = 0)
      else ¬ others s chan p

instance (s : State) (chan : Nat) (confChan : Option Nat) (confmode : Confmode) (kmalloc : Bool)
    (hw : Int) : Decidable (Fits s chan confChan confmode kmalloc hw) :=
  inferInstanceAs (Decidable (_ ∧ _))

/-- Nobody else monitors the channel that is closed, and what it monitors loses its buffer
    exactly if nobody else monitors that. -/
def Leaves (s : State) (chan : Nat) : Prop :=
  ¬ others s chan chan ∧
    ∀ p ∈ (s.chans chan).confChan, p ≠ chan →
      if preecho (s.chans chan).confmode = true then ¬ others s chan p
      else watch s chan = some p → others s chan p

instance (s : State) (chan : Nat) : Decidable (Leaves s chan) := inferInstanceAs (Decidable (_ ∧ _))

def Allowed (s : State) : Request → Prop
  | .setconf file conf kmalloc hw =>
    ∀ r ∈ taken s file conf, Fits s r.1 r.2 conf.confmode kmalloc hw
  | .close chan => Leaves s chan

instance (s : State) (r : Request) : Decidable (Allowed s r) :=
  match r with
  | .setconf file conf kmalloc hw =>
    inferInstanceAs (Decidable (∀ r ∈ taken s file conf, Fits s r.1 r.2 conf.confmode kmalloc hw))
  | .close chan => inferInstanceAs (Decidable (Leaves s chan))

/-- Channels that nobody monitors. -/
structure Unwatched (s : State) : Prop where
  idle : Idle s
  buffers : ∀ p, (s.chans p).readchunkpreec = false
  targets : ∀ a, (s.chans a).confChan = none

def monitoring : System State Request where
  start := Unwatched
  step s r s' := applyOp s r.op = .ok s'

section changes
variable {s s' : State} {chan : Nat} {confChan : Option Nat} {confmode : Confmode} {kmalloc : Bool}
  {hw : Int}

theorem others_shared (c p : Nat) : others s c p ↔ Shared (watch s) c p := by
  constructor
  · intro found
    obtain ⟨a, _, other, watches⟩ := found
    exact ⟨a, other, watches⟩
  · intro shared
    obtain ⟨a, other, watches⟩ := shared
    have member : a ∈ s.registered := by
      rw [watch] at watches
      split at watches
      case isTrue both => exact both.1
      case isFalse => cases watches
    exact ⟨a, member, other, watches⟩

/-- Only the monitors and the buffers matter. -/
theorem buffered_congr (registered : s'.registered = s.registered)
    (modes : ∀ a, (s'.chans a).confmode = (s.chans a).confmode)
    (targets : ∀ a, (s'.chans a).confChan = (s.chans a).confChan)
    (buffers : ∀ a, (s'.chans a).readchunkpreec = (s.chans a).readchunkpreec) :
    Buffered s' ↔ Buffered s := by
  have watches : watch s' = watch s := by
    funext a
    rw [watch, watch, registered, modes, targets]
  have same : allocated s' = allocated s := by
    funext p
    rw [allocated, allocated, buffers]
  rw [Buffered, Buffered, watches, same]

/-- What a request that is not refused does to the monitors and the buffers. -/
structure Turns (s s' : State) (chan : Nat) (confChan : Option Nat) (confmode : Confmode)
    (kmalloc : Bool) (hw : Int) : Prop where
  registered : s'.registered = s.registered
  mode : (s'.chans chan).confmode = confmode
  target : (s'.chans chan).confChan = confChan
  modes : ∀ a, a ≠ chan → (s'.chans a).confmode = (s.chans a).confmode
  targets : ∀ a, a ≠ chan → (s'.chans a).confChan = (s.chans a).confChan
  here : ∀ p, confChan = some p → (allocated s' p ↔
    preecho (confmode &&& modeMask) = true ∧ (allocated s p ∨ (kmalloc = true ∧ hw = 0)))
  there : ∀ p, confChan ≠ some p → (allocated s' p ↔ allocated s p)

theorem turns_watch (turns : Turns s s' chan confChan confmode kmalloc hw)
    (member : chan ∈ s.registered) : watch s' = Function.update (watch s) chan
      (if preecho (confmode &&& modeMask) = true then confChan else none) := by
  funext a
  by_cases same : a = chan
  · rw [same, Function.update_self, watch, turns.registered, turns.mode, turns.target]
    simp only [member, true_and]
  · rw [Function.update_of_ne same, watch, watch, turns.registered, turns.modes a same,
      turns.targets a same]

/-- The buffers are right after the request exactly if it fits. -/
theorem turns_buffered (buffered : Buffered s) (turns : Turns s s' chan confChan confmode kmalloc hw)
    (member : chan ∈ s.registered) : Buffered s' ↔ Fits s chan confChan confmode kmalloc hw := by
  rw [Buffered, turns_watch turns member, marked_turned]
  constructor
  · intro marks
    constructor
    · intro q watches other
      have none_ : (if preecho (confmode &&& modeMask) = true then confChan else none) ≠ some q := by
        split
        case isTrue => exact other
        case isFalse => exact (Option.some_ne_none q).symm
      have stays := (mark_stays buffered chan none_).mp ((turns.there q other).symm.trans (marks q))
      exact (others_shared chan q).mpr (stays watches)
    · intro p target
      have mark := marks p
      rw [turns.here p target] at mark
      split
      case isTrue on =>
        rw [if_pos on] at mark
        exact (mark.mpr (Or.inl target)).2
      case isFalse off =>
        rw [if_neg off] at mark
        intro shared
        exact off (mark.mpr (Or.inr ((others_shared chan p).mp shared))).1
  · intro fits p
    obtain ⟨leaves, target⟩ := fits
    by_cases here : confChan = some p
    · have fit := target p here
      rw [turns.here p here]
      split at fit
      case isTrue on =>
        rw [if_pos on]
        exact ⟨fun _ => Or.inl here, fun _ => ⟨on, fit⟩⟩
      case isFalse off =>
        rw [if_neg off]
        constructor
        · exact fun both => absurd both.1 off
        · intro either
          rcases either with none_ | shared
          · cases none_
          · exact absurd ((others_shared chan p).mpr shared) fit
    · have none_ : (if preecho (confmode &&& modeMask) = true then confChan else none) ≠ some p := by
        split
        case isTrue => exact here
        case isFalse => exact (Option.some_ne_none p).symm
      rw [turns.there p here]
      apply (mark_stays buffered chan none_).mpr
      intro watches
      exact (others_shared chan p).mp (leaves p watches here)

theorem join_fields {confno : Int} (done : setconfJoin s chan confChan confno confmode = .ok s') :
    ∃ c : Chan, s'.chans = Function.update s.chans chan c ∧ s'.registered = s.registered ∧
      c.confmode = confmode ∧ c.confChan = confChan ∧
        c.readchunkpreec = (s.chans chan).readchunkpreec := by
  have kept := @joining_readchunkpreec confChan confno confmode (s.chans chan)
  rw [setconfJoin] at done
  split at done
  case isTrue =>
    split at done
    case h_1 => cases done
    case h_2 a t _ =>
      rw [← Except.ok.inj done]
      exact ⟨{ joining (s.chans chan) confChan confno confmode with confn := a }, rfl, rfl, rfl, rfl, kept⟩
  case isFalse =>
    rw [← Except.ok.inj done]
    exact ⟨joining (s.chans chan) confChan confno confmode, rfl, rfl, rfl, rfl, kept⟩

/-- The buffer of one channel is allocated or freed. -/
structure Preecs (s s' : State) : Prop where
  registered : s'.registered = s.registered
  modes : ∀ a, (s'.chans a).confmode = (s.chans a).confmode
  targets : ∀ a, (s'.chans a).confChan = (s.chans a).confChan

theorem preec_fields (s : State) (p : Nat) (on : Bool) : Preecs s (setPreec s p on) ∧
    (setPreec s p on).chans p = { s.chans p with readchunkpreec := on } ∧
      ∀ q, q ≠ p → (setPreec s p on).chans q = s.chans q := by
  have here : (setPreec s p on).chans p = { s.chans p with readchunkpreec := on } := by
    rw [setPreec, set_chan_same]
  have there : ∀ q, q ≠ p → (setPreec s p on).chans q = s.chans q := by
    intro q other
    rw [setPreec, set_chan_other _ _ other]
  constructor
  · constructor
    · rfl
    · intro a
      by_cases same : a = p
      · rw [same, here]
      · rw [there a same]
    · intro a
      by_cases same : a = p
      · rw [same, here]
      · rw [there a same]
  · exact ⟨here, there⟩

theorem preecs_refl (s : State) : Preecs s s := ⟨rfl, fun _ => rfl, fun _ => rfl⟩

theorem preecs_trans {s'' : State} (first : Preecs s s') (second : Preecs s' s'') : Preecs s s'' where
  registered := second.registered.trans first.registered
  modes a := (second.modes a).trans (first.modes a)
  targets a := (second.targets a).trans (first.targets a)

theorem check_fields {locked : Bool} {x : Int} (done : checkConf s locked x = .ok s') :
    Preecs s s' ∧ s'.chans = s.chans := by
  rcases ConferenceResidue.check_cases done with ⟨rfl, _⟩ | ⟨_, t, rfl, _⟩
  · exact ⟨preecs_refl s', rfl⟩
  · exact ⟨⟨rfl, fun _ => rfl, fun _ => rfl⟩, rfl⟩

/-- The buffer of the channel that is monitored now, and no other. -/
theorem finish_fields {oldconf r : Int}
    (done : setconfFinish s oldconf confChan confmode kmalloc hw = .ok (r, s')) :
    Preecs s s' ∧
      (∀ p, confChan = some p → (allocated s' p ↔
        preecho (confmode &&& modeMask) = true ∧ (allocated s p ∨ (kmalloc = true ∧ hw = 0)))) ∧
      ∀ p, confChan ≠ some p → (allocated s' p ↔ allocated s p) := by
  cases confChan with
  | none =>
    obtain ⟨fields, chans⟩ := check_fields (ConferenceResidue.finish_mixing done)
    refine ⟨fields, ?_, ?_⟩
    · intro p none_
      cases none_
    · intro p _
      rw [allocated, allocated, chans]
  | some q =>
    by_cases on : preecho (confmode &&& modeMask) = true
    · by_cases fresh : (!(s.chans q).readchunkpreec && kmalloc) = true
      · have preec : setconfPreec s (some q) confmode kmalloc = (.enable, setPreec s q true) := by
          simp only [setconfPreec, if_pos on, if_pos fresh]
        rw [setconfFinish.eq_def, preec] at done
        obtain ⟨_, same⟩ := Prod.mk.inj (Except.ok.inj done)
        rw [Bool.and_eq_true, Bool.not_eq_true'] at fresh
        obtain ⟨given, here, there⟩ := preec_fields s q true
        obtain ⟨freed, here', there'⟩ := preec_fields (setPreec s q true) q false
        by_cases refused : hw ≠ 0
        · rw [if_pos refused] at same
          rw [← same]
          refine ⟨preecs_trans given freed, ?_, ?_⟩
          · intro p target
            rw [← Option.some.inj target, allocated, allocated, here', fresh.1]
            simp [refused]
          · intro p other
            have apart : p ≠ q := fun equal => other (congrArg some equal.symm)
            rw [allocated, allocated, there' p apart, there p apart]
        · rw [if_neg refused] at same
          rw [← same]
          refine ⟨given, ?_, ?_⟩
          · intro p target
            rw [← Option.some.inj target, allocated, allocated, here, fresh.2]
            simp [on, Classical.not_not.mp refused]
          · intro p other
            have apart : p ≠ q := fun equal => other (congrArg some equal.symm)
            rw [allocated, allocated, there p apart]
      · have preec : setconfPreec s (some q) confmode kmalloc = (.none, s) := by
          simp only [setconfPreec, if_pos on, if_neg fresh]
        rw [setconfFinish.eq_def, preec] at done
        obtain ⟨_, checked, same⟩ := map_ok done
        obtain ⟨_, rfl⟩ := Prod.mk.inj same
        obtain ⟨fields, chans⟩ := check_fields checked
        refine ⟨fields, ?_, ?_⟩
        · intro p target
          rw [← Option.some.inj target, allocated, allocated, chans]
          cases held : (s.chans q).readchunkpreec with
          | true => simp [on]
          | false =>
            rw [held] at fresh
            simp at fresh
            simp [fresh]
        · intro p _
          rw [allocated, allocated, chans]
    · have preec : setconfPreec s (some q) confmode kmalloc = (.disable, setPreec s q false) := by
        simp only [setconfPreec, if_neg on]
      rw [setconfFinish.eq_def, preec] at done
      obtain ⟨_, checked, same⟩ := map_ok done
      obtain ⟨_, rfl⟩ := Prod.mk.inj same
      obtain ⟨fields, chans⟩ := check_fields checked
      obtain ⟨freed, here, there⟩ := preec_fields s q false
      refine ⟨preecs_trans freed fields, ?_, ?_⟩
      · intro p target
        rw [← Option.some.inj target, allocated, chans, here]
        simp [on]
      · intro p other
        rw [allocated, allocated, chans, there p fun same => other (congrArg some same.symm)]

theorem setconf_turns {file : Nat} {conf : Confinfo} {r : Int}
    (done : setconf s file conf kmalloc hw = .ok (r, s')) :
    taken s file conf = none ∧ Preecs s s' ∧ s'.chans = s.chans ∨
      ∃ chan confChan, taken s file conf = some (chan, confChan) ∧ chan ∈ s.registered ∧
        Turns s s' chan confChan conf.confmode kmalloc hw := by
  rw [setconf] at done
  cases check : setconfCheck s file conf with
  | none =>
    rw [check] at done
    obtain ⟨_, rfl⟩ := Prod.mk.inj (Except.ok.inj done)
    refine Or.inl ⟨?_, preecs_refl _, rfl⟩
    rw [taken, check]
    split <;> rfl
  | some found =>
    obtain ⟨chan, confChan⟩ := found
    rw [check] at done
    simp only at done
    split at done
    case h_1 => cases done
    case h_2 s₁ checked =>
      obtain ⟨fields, chans⟩ := check_fields checked
      have number : setconfNumber s₁.tables conf.confno = setconfNumber s.tables conf.confno := by
        by_cases any : conf.confno = -1
        · rw [checkConf, if_pos (by omega)] at checked
          rw [Except.ok.inj checked]
        · rw [setconfNumber, setconfNumber, if_neg any, if_neg any]
      rw [number] at done
      split at done
      case isTrue busy =>
        obtain ⟨_, rfl⟩ := Prod.mk.inj (Except.ok.inj done)
        refine Or.inl ⟨?_, fields, chans⟩
        rw [taken, if_pos busy]
      case isFalse free =>
        split at done
        case h_1 => cases done
        case h_2 s₂ joined =>
          have target : taken s file conf = some (chan, confChan) := by rw [taken, if_neg free, check]
          refine Or.inr ⟨chan, confChan, target, (check_inversion check).1, ?_⟩
          obtain ⟨c, chans₂, registered₂, mode, confs, buffer⟩ := join_fields joined
          obtain ⟨last, here, there⟩ := finish_fields done
          have kept : ∀ p, allocated s₂ p ↔ allocated s p := by
            intro p
            by_cases same : p = chan
            · rw [same, allocated, allocated, chans₂, Function.update_self, buffer, chans]
            · rw [allocated, allocated, chans₂, Function.update_of_ne same, chans]
          constructor
          · rw [last.registered, registered₂, fields.registered]
          · rw [last.modes, chans₂, Function.update_self, mode]
          · rw [last.targets, chans₂, Function.update_self, confs]
          · intro a other
            rw [last.modes, chans₂, Function.update_of_ne other, fields.modes]
          · intro a other
            rw [last.targets, chans₂, Function.update_of_ne other, fields.targets]
          · intro p target
            rw [here p target, kept p]
          · intro p other
            rw [there p other, kept p]

/-- What a close does to the monitors and the buffers. -/
structure Closes (s s' : State) (chan : Nat) : Prop where
  registered : s'.registered = s.registered
  mode : (s'.chans chan).confmode = 0
  buffer : ¬ allocated s' chan
  modes : ∀ a, a ≠ chan → (s'.chans a).confmode = (s.chans a).confmode
  targets : ∀ a, a ≠ chan → (s'.chans a).confChan = (s.chans a).confChan
  buffers : ∀ p, p ≠ chan → (allocated s' p ↔ allocated s p ∧
    ¬ ((s.chans chan).confChan = some p ∧ preecho (s.chans chan).confmode = true))

theorem drop_fields (s : State) (chan : Nat) : Preecs s (dropPreecho s chan) ∧
    ∀ p, allocated (dropPreecho s chan) p ↔ allocated s p ∧
      ¬ ((s.chans chan).confChan = some p ∧ preecho (s.chans chan).confmode = true) := by
  rw [dropPreecho]
  cases target : (s.chans chan).confChan with
  | none => exact ⟨preecs_refl s, fun p => by simp⟩
  | some q =>
    by_cases on : preecho (s.chans chan).confmode = true
    · obtain ⟨fields, here, there⟩ := preec_fields s q false
      simp only [if_pos on]
      refine ⟨fields, ?_⟩
      intro p
      by_cases same : p = q
      · rw [same, allocated, here]
        simp [on]
      · rw [allocated, allocated, there p same]
        simp [Ne.symm same]
    · simp only [if_neg on]
      exact ⟨preecs_refl s, fun p => by simp [on]⟩

theorem close_fields (done : closeChannel s chan = .ok s') : Closes s s' chan := by
  obtain ⟨fields, buffers⟩ := drop_fields s chan
  rw [closeChannel] at done
  have whole : s'.registered = s.registered ∧ s'.chans =
      Function.update (dropPreecho s chan).chans chan (closed ((dropPreecho s chan).chans chan)) := by
    split at done
    case isTrue =>
      obtain ⟨last, chans⟩ := check_fields done
      exact ⟨last.registered.trans fields.registered, chans⟩
    case isFalse =>
      rw [← Except.ok.inj done]
      exact ⟨fields.registered, rfl⟩
  obtain ⟨registered, chans⟩ := whole
  constructor
  · exact registered
  · rw [chans, Function.update_self]
    rfl
  · rw [allocated, chans, Function.update_self]
    exact Bool.false_ne_true
  · intro a other
    rw [chans, Function.update_of_ne other, fields.modes]
  · intro a other
    rw [chans, Function.update_of_ne other, fields.targets]
  · intro p other
    rw [← buffers p, allocated, allocated, chans, Function.update_of_ne other]

/-- The buffers are right after the close exactly if the channel leaves them so. -/
theorem closes_buffered (buffered : Buffered s) (closes : Closes s s' chan) :
    Buffered s' ↔ Leaves s chan := by
  have watches : watch s' = Function.update (watch s) chan none := by
    funext a
    by_cases same : a = chan
    · rw [same, Function.update_self, watch, closes.mode]
      exact if_neg fun both => absurd both.2 (by decide)
    · rw [Function.update_of_ne same, watch, watch, closes.registered, closes.modes a same,
        closes.targets a same]
  have watched (p : Nat) (monitor : watch s chan = some p) : (s.chans chan).confChan = some p := by
    rw [watch] at monitor
    split at monitor
    case isTrue => exact monitor
    case isFalse => cases monitor
  have split_ (p : Nat) : allocated s p ↔ watch s chan = some p ∨ Shared (watch s) chan p :=
    (buffered p).trans (watched_split chan p)
  rw [Buffered, watches, marked_turned]
  constructor
  · intro marks
    constructor
    · intro shared
      exact closes.buffer ((marks chan).mpr (Or.inr ((others_shared chan chan).mp shared)))
    · intro p target other
      have mark := marks p
      rw [closes.buffers p other] at mark
      split
      case isTrue on =>
        intro shared
        exact (mark.mpr (Or.inr ((others_shared chan p).mp shared))).2 ⟨target, on⟩
      case isFalse off =>
        intro monitor
        have held := (split_ p).mpr (Or.inl monitor)
        rcases mark.mp ⟨held, fun both => off both.2⟩ with none_ | shared
        · cases none_
        · exact (others_shared chan p).mpr shared
  · intro leaves p
    obtain ⟨alone, rest⟩ := leaves
    by_cases same : p = chan
    · rw [same]
      constructor
      · exact fun held => absurd held closes.buffer
      · intro either
        rcases either with none_ | shared
        · cases none_
        · exact absurd ((others_shared chan chan).mpr shared) alone
    · rw [closes.buffers p same, split_ p]
      constructor
      · intro both
        obtain ⟨monitor | shared, kept⟩ := both
        · have leave := rest p (watched p monitor) same
          rw [if_neg fun on => kept ⟨watched p monitor, on⟩] at leave
          exact Or.inr ((others_shared chan p).mp (leave monitor))
        · exact Or.inr shared
      · intro either
        rcases either with none_ | shared
        · cases none_
        · refine ⟨Or.inr shared, ?_⟩
          intro dropped
          have leave := rest p dropped.1 same
          rw [if_pos dropped.2] at leave
          exact leave ((others_shared chan p).mpr shared)

/-- Each request leaves the buffers right exactly if it is one of those allowed. -/
theorem request_buffered {r : Request} (buffered : Buffered s) (done : applyOp s r.op = .ok s') :
    Buffered s' ↔ Allowed s r := by
  cases r with
  | setconf file conf kmalloc hw =>
    obtain ⟨answer, applied, same⟩ := map_ok done
    obtain ⟨result, after⟩ := answer
    rw [show after = s' from same] at applied
    rcases setconf_turns applied with ⟨refused, fields, chans⟩ | ⟨chan, confChan, accepted, member, turns⟩
    · constructor
      · intro _ found accepted
        rw [refused] at accepted
        cases accepted
      · intro _
        apply (buffered_congr fields.registered fields.modes fields.targets _).mpr buffered
        intro a
        rw [chans]
    · rw [turns_buffered buffered turns member]
      constructor
      · intro fits found same
        rw [accepted] at same
        rw [← Option.some.inj same]
        exact fits
      · intro allowed
        exact allowed (chan, confChan) accepted
  | close chan => exact closes_buffered buffered (close_fields done)

theorem unwatched_buffered (start : Unwatched s) : Buffered s := by
  intro p
  have free : (s.chans p).readchunkpreec = false := start.buffers p
  rw [allocated, free]
  constructor
  · intro held
    cases held
  · intro watched
    obtain ⟨a, monitor⟩ := watched
    rw [watch, start.targets a] at monitor
    split at monitor <;> cases monitor

/-- In runs of such requests a channel has the buffer exactly if some channel monitors it
    before echo cancellation, and any other request ends this at once. -/
theorem buffers_watched (run : Reach monitoring Allowed s) : Buffered s ∧
    ∀ r s', applyOp s (Request.op r) = .ok s' → (Buffered s' ↔ Allowed s r) := by
  have buffered : Buffered s := by
    apply @invariant_run _ _ monitoring Allowed Buffered
    · exact fun begin_ start => unwatched_buffered start
    · exact fun before r after buffered allowed done => (request_buffered buffered done).mpr allowed
    · exact run
  exact ⟨buffered, fun r s' done => request_buffered buffered done⟩

end changes

/-- Three channels of a span. -/
def threeChannels : State where
  chans a := freshChan (a + 1) false
  spanChans := [0, 1, 2]
  pseudos := []
  tables := ⟨fun _ => 0, fun _ => 0, 0⟩
  sums := ⟨fun _ => silence, fun _ => silence, fun _ => silence⟩

def computed (s : State) (r : Request) : Option State := (applyOp s r.op).toOption

theorem computed_step {s s' : State} {r : Request} (done : computed s r = some s') :
    monitoring.step s r s' := by
  rw [computed] at done
  cases result : applyOp s r.op with
  | error fault =>
    rw [result] at done
    cases done
  | ok after =>
    rw [result] at done
    exact result.trans (congrArg Except.ok (Option.some.inj done))

/-- Two channels monitor a third one, one after the other. -/
def inTurn : List Request :=
  [.setconf 0 ⟨1, 3, 10⟩ true 0, .setconf 1 ⟨2, 3, 11⟩ true 0, .setconf 0 ⟨1, 0, 0⟩ true 0, .close 1]

theorem buffers_watched_in_turn : ∃ s, follow computed Allowed inTurn threeChannels = some s ∧
    Buffered s ∧ ∀ r s', applyOp s (Request.op r) = .ok s' → (Buffered s' ↔ Allowed s r) := by
  have runs : (follow computed Allowed inTurn threeChannels).any (fun s => ¬ allocated s 2) = true := by
    decide +kernel
  obtain ⟨s, ends, _⟩ := (Option.any_eq_true _ _).mp runs
  refine ⟨s, ends, ?_⟩
  apply buffers_watched
  apply @follow_reach _ _ monitoring _ _ _ (fun _ _ _ done => computed_step done) _ _ _ _ ends
  exact Reach.start ⟨⟨rfl, fun _ => ⟨rfl, rfl, rfl⟩⟩, fun _ => rfl, fun _ => rfl⟩

/-- One of the two monitors is closed. -/
def sharing : List Request :=
  [.setconf 0 ⟨1, 3, 10⟩ true 0, .setconf 1 ⟨2, 3, 11⟩ true 0, .close 0]

theorem buffer_taken : ¬ ∀ s, Reach monitoring anyStep s → Buffered s := by
  intro always
  have runs : (follow computed anyStep sharing threeChannels).any
      (fun s => ¬ allocated s 2 ∧ watch s 1 = some 2) = true := by
    decide +kernel
  obtain ⟨s, ends, shown⟩ := (Option.any_eq_true _ _).mp runs
  obtain ⟨freed, monitor⟩ := of_decide_eq_true shown
  have reached : Reach monitoring anyStep s := by
    apply @follow_reach _ _ monitoring _ _ _ (fun _ _ _ done => computed_step done) _ _ _ _ ends
    exact Reach.start ⟨⟨rfl, fun _ => ⟨rfl, rfl, rfl⟩⟩, fun _ => rfl, fun _ => rfl⟩
  exact freed ((always s reached 2).mpr ⟨1, monitor⟩)

end ConferencePreecho
