import Dahdi.Library.GuardedRun

/-!
An Astribank with DAHDI: xbus_register_dahdi_device and xbus_unregister_dahdi_device of
xbus-core.c, with what xpp_dahdi.c does to the cards before and after, and what they share.
-/
namespace BusRegistration
variable {B : Type} [DecidableEq B]

section Data

def MAX_XPDS : Nat := 64

abbrev Slot : Type := Fin MAX_XPDS

def EINTR : Int := 4
def EBADF : Int := 9
def ENOMEM : Int := 12
def EEXIST : Int := 17
def ENODEV : Int := 19
def EINVAL : Int := 22

/-- A card: whether it is a telephony card, and its dahdi_registered. -/
structure Xpd where
  phonedev : Bool
  dahdiRegistered : Int
  deriving DecidableEq

/-- A dahdi_device, with whether it has a parent and the cards of its spans. -/
structure Ddev where
  manufacturer : Option String
  devicetype : Option String
  location : Option String
  hardwareId : Option String
  parent : Bool
  spans : List Slot
  deriving DecidableEq

structure Xbus where
  xpds : Slot → Option Xpd
  ddev : Option Ddev
  connector : String
  label : String

/-- dahdi_registration_mutex: who holds it, and how often one who did not hold it gave it
    back. -/
structure Mutex where
  holder : Option Nat
  stray : Nat
  deriving DecidableEq

/-- The buses, num_registered_spans and the mutex; the cards whose spans belong to a device
    that DAHDI has, those that are in its list of spans, and whether a tick has divided by
    zero. -/
structure State (B : Type) where
  xbus : B → Xbus
  numRegisteredSpans : Int
  mutex : Mutex
  registered : B → Slot → Bool
  assigned : B → Slot → Bool
  divided : Bool

/-- What a registration meets: a signal in the wait for the mutex, the allocations,
    dahdi_register_device with the spans it comes to assign, and whether one of these ticks
    before the call is back. -/
structure Answers where
  interrupted : Bool
  create : Bool
  kasprintf : Bool
  registers : Bool
  assigns : Slot → Bool
  ticked : Bool

end Data

section Code

def setXbus (p : B) (b : Xbus) (s : State B) : State B := { s with xbus := Function.update s.xbus p b }

/-- SPAN_REGISTERED -/
def spanRegistered (xpd : Xpd) : Bool := xpd.dahdiRegistered ≠ 0

def xbusIsRegistered (b : Xbus) : Bool := b.ddev.any Ddev.parent

def xbusFreeDdev (b : Xbus) : Xbus := { b with ddev := none }

def mutexUnlock (me : Nat) (m : Mutex) : Mutex :=
  if m.holder = some me then { m with holder := none } else ⟨none, m.stray + 1⟩

@[irreducible] def forXpds {S : Type} (f : Slot → S → S) (s : S) : S := (List.finRange MAX_XPDS).foldl (fun s i => f i s) s

def xpdDahdiPreregister (i : Slot) (b : Xbus) : Int × Xbus :=
  match b.xpds i with
  | none => (0, b)
  | some xpd =>
    if !xpd.phonedev then (-EBADF, b)
    else if spanRegistered xpd then (-EEXIST, b)
    else (0, { b with ddev := b.ddev.map fun d => { d with spans := d.spans ++ [i] } })

/-- A telephony card counts as registered by so much more or less. -/
def countSpan (change : Int) (p : B) (i : Slot) (s : State B) : State B :=
  match (s.xbus p).xpds i with
  | none => s
  | some xpd =>
    if xpd.phonedev then
      { setXbus p { s.xbus p with
          xpds := Function.update (s.xbus p).xpds i (some { xpd with dahdiRegistered := xpd.dahdiRegistered + change }) } s with
        numRegisteredSpans := s.numRegisteredSpans + change }
    else s

def xpdDahdiPostregister (p : B) (i : Slot) (s : State B) : State B := countSpan 1 p i s

def xpdDahdiPostunregister (p : B) (i : Slot) (s : State B) : State B := countSpan (-1) p i s

def spansOf (b : Xbus) : List Slot := (b.ddev.map Ddev.spans).getD []

/-- A tick of DAHDI that comes to the modulus of dahdi_sync_tick. -/
def dahdiSyncTick (s : State B) : State B := { s with divided := s.divided || s.numRegisteredSpans == 0 }

/-- dahdi_register_device. The spans assigned before an error stay assigned. -/
def dahdiRegisterDevice (p : B) (a : Answers) (s : State B) : Bool × State B :=
  let spans := spansOf (s.xbus p)
  let s := { s with
    assigned := Function.update s.assigned p fun i => s.assigned p i || (spans.contains i && a.assigns i) }
  let s := if a.ticked && spans.any a.assigns then dahdiSyncTick s else s
  let s := setXbus p { s.xbus p with ddev := (s.xbus p).ddev.map fun d => { d with parent := true } } s
  if a.registers then
    (true, { s with registered := Function.update s.registered p fun i => s.registered p i || spans.contains i })
  else (false, s)

/-- dahdi_unregister_device -/
def dahdiUnregisterDevice (p : B) (d : Ddev) (s : State B) : State B :=
  { s with
    assigned := Function.update s.assigned p fun i => s.assigned p i && !d.spans.contains i
    registered := Function.update s.registered p fun i => s.registered p i && !d.spans.contains i }

def registerOut (me : Nat) (ret : Int) (s : State B) : Int × State B :=
  (ret, { s with mutex := mutexUnlock me s.mutex })

def registerErr (me : Nat) (p : B) (ret : Int) (s : State B) : Int × State B :=
  registerOut me ret (setXbus p (xbusFreeDdev (s.xbus p)) s)

/-- The device as it is filled in, before the spans. -/
def newDdev (b : Xbus) : Ddev :=
  ⟨some "Xorcom Inc.", some "Astribank2", some b.connector, some b.label, false, []⟩

/-- xbus_register_dahdi_device with the mutex. -/
def registerLocked (me : Nat) (p : B) (a : Answers) (s : State B) : Int × State B :=
  let b := s.xbus p
  if xbusIsRegistered b then registerErr me p (-EINVAL) s
  else if !a.create then registerErr me p (-ENOMEM) (setXbus p { b with ddev := none } s)
  else if !a.kasprintf then
    registerErr me p (-ENOMEM)
      (setXbus p { b with ddev := some ⟨some "Xorcom Inc.", none, none, none, false, []⟩ } s)
  else
    let b := forXpds (fun i b => (xpdDahdiPreregister i b).2) { b with ddev := some (newDdev b) }
    match dahdiRegisterDevice p a (setXbus p b s) with
    | (false, s) => registerErr me p (-ENODEV) s
    | (true, s) => registerOut me 0 (forXpds (xpdDahdiPostregister p) s)

/-- It waits while another has the mutex. -/
def xbusRegisterDahdiDevice (me : Nat) (p : B) (a : Answers) (s : State B) : Option (Int × State B) :=
  if a.interrupted then some (registerErr me p (-EINTR) s)
  else if s.mutex.holder = none then
    some (registerLocked me p a { s with mutex := { s.mutex with holder := some me } })
  else none

def withdrawDdev (p : B) (s : State B) : State B :=
  match (s.xbus p).ddev with
  | none => s
  | some d => setXbus p (xbusFreeDdev (s.xbus p)) (dahdiUnregisterDevice p d s)

def unregisterLocked (me : Nat) (p : B) (s : State B) : State B :=
  let s := forXpds (xpdDahdiPostunregister p) (withdrawDdev p s)
  { s with mutex := mutexUnlock me s.mutex }

def xbusUnregisterDahdiDevice (me : Nat) (p : B) (interrupted : Bool) (s : State B) : Option (State B) :=
  if interrupted then some s
  else if s.mutex.holder = none then
    some (unregisterLocked me p { s with mutex := { s.mutex with holder := some me } })
  else none

end Code

section Failure
variable {s s' : State B} {p : B} {me : Nat} {a : Answers} {ret : Int}

/-- An error return has left every registration, with its device and spans, and the mutex as
    they were, and a bus that was not registered without a device. -/
structure Harmless (p : B) (s s' : State B) : Prop where
  devices : ∀ q, xbusIsRegistered (s.xbus q) → (s'.xbus q).ddev = (s.xbus q).ddev
  spans : ∀ q, xbusIsRegistered (s.xbus q) → s'.registered q = s.registered q ∧ s'.assigned q = s.assigned q
  mutex : s'.mutex = s.mutex
  cleared : xbusIsRegistered (s.xbus p) = false → (s'.xbus p).ddev = none

@[simp] theorem setXbus_self (p : B) (b : Xbus) (s : State B) : (setXbus p b s).xbus p = b := by
  simp only [setXbus, Function.update_self]

theorem setXbus_other {p q : B} (other : q ≠ p) (b : Xbus) (s : State B) : (setXbus p b s).xbus q = s.xbus q := by
  simp only [setXbus, Function.update_of_ne other]

/-- Two states agree but for one bus. -/
structure SameBut (p : B) (s s' : State B) : Prop where
  xbus : ∀ q, q ≠ p → s'.xbus q = s.xbus q
  registered : ∀ q, q ≠ p → s'.registered q = s.registered q
  assigned : ∀ q, q ≠ p → s'.assigned q = s.assigned q
  mutex : s'.mutex = s.mutex

omit [DecidableEq B] in
theorem SameBut.trans {s'' : State B} (first : SameBut p s s') (second : SameBut p s' s'') : SameBut p s s'' :=
  ⟨fun q other => (second.xbus q other).trans (first.xbus q other),
    fun q other => (second.registered q other).trans (first.registered q other),
    fun q other => (second.assigned q other).trans (first.assigned q other), second.mutex.trans first.mutex⟩

theorem setXbus_same (p : B) (b : Xbus) (s : State B) : SameBut p s (setXbus p b s) :=
  ⟨fun _ other => setXbus_other other b s, fun _ _ => rfl, fun _ _ => rfl, rfl⟩

theorem registerDevice_same (p : B) (a : Answers) (s : State B) : SameBut p s (dahdiRegisterDevice p a s).2 := by
  rw [dahdiRegisterDevice]
  dsimp only
  split <;> split
  all_goals
    refine ⟨fun q other => ?_, fun q other => ?_, fun q other => ?_, rfl⟩
    · exact setXbus_other other _ _
    · first
      | rfl
      | exact Function.update_of_ne other _ _
    · exact Function.update_of_ne other _ _

/-- What an error exit leaves. -/
theorem err_fields (me : Nat) (p : B) (ret : Int) (s : State B) :
    ((registerErr me p ret s).2.xbus p).ddev = none ∧ (registerErr me p ret s).2.mutex = mutexUnlock me s.mutex :=
  ⟨congrArg Xbus.ddev (setXbus_self p _ s), rfl⟩

/-- An error exit of a caller that took the mutex, for a bus that was not registered. -/
theorem err_harmless {held : State B} (free : s.mutex.holder = none)
    (taken : SameBut p { s with mutex := { s.mutex with holder := some me } } held)
    (unregistered : xbusIsRegistered (s.xbus p) = false) (ret : Int) :
    Harmless p s (registerErr me p ret held).2 := by
  have other {q : B} (registered : xbusIsRegistered (s.xbus q)) : q ≠ p := by
    rintro rfl
    rw [unregistered] at registered
    exact Bool.false_ne_true registered
  have all : SameBut p { s with mutex := { s.mutex with holder := some me } }
      (setXbus p (xbusFreeDdev (held.xbus p)) held) := taken.trans (setXbus_same p _ held)
  refine ⟨fun q there => ?_, fun q there => ?_, ?_, fun _ => (err_fields me p ret held).1⟩
  · exact congrArg Xbus.ddev (all.xbus q (other there))
  · exact ⟨all.registered q (other there), all.assigned q (other there)⟩
  · have back : mutexUnlock me { s.mutex with holder := some me } = s.mutex := by
      rw [mutexUnlock, if_pos rfl, ← free]
    rw [(err_fields me p ret held).2, taken.mutex]
    exact back

/-- The error exits of a caller that has the mutex. -/
theorem locked_cases (me : Nat) (p : B) (a : Answers) (s : State B) :
    (registerLocked me p a s).1 = 0 ∨
      ∃ ret held, SameBut p s held ∧ registerLocked me p a s = registerErr me p ret held := by
  rw [registerLocked]
  dsimp only
  split
  next => exact .inr ⟨_, s, ⟨fun _ _ => rfl, fun _ _ => rfl, fun _ _ => rfl, rfl⟩, rfl⟩
  next =>
    split
    next => exact .inr ⟨_, _, setXbus_same p _ s, rfl⟩
    next =>
      split
      next => exact .inr ⟨_, _, setXbus_same p _ s, rfl⟩
      next =>
        generalize forXpds _ _ = b
        have same := (setXbus_same p b s).trans (registerDevice_same p a (setXbus p b s))
        generalize dahdiRegisterDevice p a (setXbus p b s) = out at same ⊢
        obtain ⟨ok, held⟩ := out
        cases ok with
        | false => exact .inr ⟨_, held, same, rfl⟩
        | true => exact .inl rfl

theorem unlock_changes (me : Nat) (m : Mutex) : mutexUnlock me m ≠ m := by
  rw [mutexUnlock]
  split
  next held =>
    intro same
    rw [← same] at held
    cases held
  next => exact fun same => absurd (congrArg Mutex.stray same) (Nat.succ_ne_self _)

/-- A failed registration is harmless just when the mutex was obtained and the bus was not
    registered. -/
theorem failed_harmless (me : Nat) (p : B) (a : Answers) (s s' : State B) (ret : Int)
    (returned : xbusRegisterDahdiDevice me p a s = some (ret, s')) (failed : ret ≠ 0) :
    Harmless p s s' ↔ a.interrupted = false ∧ xbusIsRegistered (s.xbus p) = false := by
  rw [xbusRegisterDahdiDevice] at returned
  split at returned
  next interrupted =>
    have out : (registerErr me p (-EINTR) s).2 = s' := congrArg Prod.snd (Option.some.inj returned)
    refine iff_of_false (fun harmless => ?_) (fun both => ?_)
    · have same := harmless.mutex
      rw [← out, (err_fields me p (-EINTR) s).2] at same
      exact unlock_changes me s.mutex same
    · rw [both.1] at interrupted
      exact Bool.false_ne_true interrupted
  next uninterrupted =>
    rw [Bool.not_eq_true] at uninterrupted
    split at returned
    next free =>
      have out := Option.some.inj returned
      by_cases registered : xbusIsRegistered (s.xbus p) = true
      · refine iff_of_false (fun harmless => ?_) (fun both => ?_)
        · have gone : (s'.xbus p).ddev = none := by
            have ends : (registerLocked me p a { s with mutex := { s.mutex with holder := some me } }).2 = s' :=
              congrArg Prod.snd out
            rw [← ends, registerLocked, if_pos registered]
            exact (err_fields me p _ _).1
          have same := harmless.devices p registered
          rw [gone] at same
          rw [xbusIsRegistered, ← same] at registered
          exact Bool.false_ne_true registered
        · rw [both.2] at registered
          exact Bool.false_ne_true registered
      · rw [Bool.not_eq_true] at registered
        refine iff_of_true ?_ ⟨uninterrupted, registered⟩
        obtain fine | ⟨code, held, same, err⟩ := locked_cases me p a { s with mutex := { s.mutex with holder := some me } }
        · rw [out] at fine
          exact absurd fine failed
        · have harmless := @err_harmless _ _ s p me held free same registered code
          rwa [← err, out] at harmless
    next => cases returned

/-- A bus with one telephony card, not registered. -/
def waiting : State Unit where
  xbus := fun _ => ⟨fun i => if i.val = 0 then some ⟨true, 0⟩ else none, none, "usb-1", "usb:X1"⟩
  numRegisteredSpans := 0
  mutex := ⟨none, 0⟩
  registered := fun _ _ => false
  assigned := fun _ _ => false
  divided := false

def granted : Answers := ⟨false, true, true, true, fun _ => true, false⟩

theorem failed_harmless_nomem : ∃ s', xbusRegisterDahdiDevice 1 () { granted with create := false } waiting =
    some (-ENOMEM, s') ∧ Harmless () waiting s' := by
  refine ⟨_, rfl, ?_⟩
  exact (failed_harmless 1 () { granted with create := false } waiting _ (-ENOMEM) rfl (by decide)).mpr ⟨rfl, rfl⟩

/-- A bus is registered, and then once more. -/
theorem registered_freed : ¬ ∀ s s' : State Unit, ∀ me p a ret,
    xbusRegisterDahdiDevice me p a s = some (ret, s') → ret ≠ 0 → Harmless p s s' := by
  intro always
  have twice : ((xbusRegisterDahdiDevice 1 () granted waiting).bind fun first =>
      (xbusRegisterDahdiDevice 1 () granted first.2).map fun again =>
        (xbusIsRegistered (first.2.xbus ()), again.1, (again.2.xbus ()).ddev)) = some (true, -EINVAL, none) := by
    decide +kernel
  obtain ⟨⟨_, s⟩, _, second⟩ := Option.bind_eq_some_iff.mp twice
  obtain ⟨⟨ret, s'⟩, again, shown⟩ := Option.map_eq_some_iff.mp second
  obtain ⟨registered, refused, gone⟩ : xbusIsRegistered (s.xbus ()) = true ∧ ret = -EINVAL ∧ (s'.xbus ()).ddev = none := by
    simpa only [Prod.mk.injEq] using shown
  have same := (always s s' 1 () granted ret again (refused ▸ by decide)).devices () registered
  rw [gone] at same
  rw [xbusIsRegistered, ← same] at registered
  exact Bool.false_ne_true registered

end Failure

end BusRegistration
