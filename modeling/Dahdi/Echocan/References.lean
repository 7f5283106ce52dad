import Dahdi.Library.GuardedRun
import Dahdi.Library.RefCount

/-!
Echo canceller factories: how they are registered, attached to channels and started
there, and the module references taken on the way.
-/
namespace EchocanFactories
open RefCount GuardedRun
variable {T F E : Type} [DecidableEq T] [DecidableEq F]

structure Chan (F E : Type) where
  ecFactory : Option F
  ecCurrent : Option F
  ecState : Option E

structure State (T F E : Type) where
  chan : T → Chan F E
  registered : List F
  refs : F → Int

/-- The names the factories give, and what the spans say of their hardware. -/
structure Kit (T F : Type) where
  getName : F → Option T → Option (List Char)
  isHwecAvailable : T → Bool
  hwecDefName : List Char
  hwecOverridesSwec : Bool
  deftaps : Nat

/-- Whether there is memory, what `request_module` loads, and which modules can be
    pinned. -/
structure Answers (F : Type) where
  alloc : Bool
  loaded : List F
  tryModuleGet : F → Bool

def eperm : Int := -1
def e2big : Int := -7
def enomem : Int := -12
def efault : Int := -14
def einval : Int := -22

def setChan (s : State T F E) (c : T) (v : Chan F E) : State T F E :=
  { s with chan := Function.update s.chan c v }

def moduleGet (s : State T F E) (f : F) : State T F E := { s with refs := get s.refs (some f) }

def releaseEchocan (s : State T F E) (ec : Option F) : State T F E :=
  { s with refs := put s.refs ec }

def registerFactory (s : State T F E) (f : F) (alloc : Bool) : State T F E × Int :=
  if alloc = false then (s, enomem)
  else if f ∈ s.registered then (s, eperm)
  else ({ s with registered := s.registered ++ [f] }, 0)

def unregisterFactory (s : State T F E) (f : F) : State T F E :=
  { s with registered := s.registered.erase f }

def search (kit : Kit T F) (list : List F) (name : List Char) : Option F :=
  list.find? fun f => kit.getName f none = some (name.map Char.toUpper)

def pin (answers : Answers F) (s : State T F E) (f : F) : State T F E × Option F :=
  if answers.tryModuleGet f then (moduleGet s f, some f) else (s, none)

/-- Where no factory has the name, a module of that name is loaded, once. -/
def findEchocan (kit : Kit T F) (answers : Answers F) (s : State T F E) (name : List Char) :
    State T F E × Option F :=
  if answers.alloc = false then (s, none)
  else match search kit s.registered name with
    | some f => pin answers s f
    | none =>
      let s := answers.loaded.foldl (fun s f => (registerFactory s f true).1) s
      match search kit s.registered name with
      | some f => pin answers s f
      | none => (s, none)

def setFactory (s : State T F E) (c : T) (new : Option F) : State T F E :=
  releaseEchocan (setChan s c { s.chan c with ecFactory := new }) (s.chan c).ecFactory

def attachFound (kit : Kit T F) (c : T) : State T F E × Option F → State T F E × Int
  | (s, none) => (s, einval)
  | (s, some new) =>
    if kit.getName new (some c) = none then (releaseEchocan s (some new), einval)
    else (setFactory s c (some new), 0)

def attachName (kit : Kit T F) (c : T) (echocan : List Char) : List Char :=
  if kit.isHwecAvailable c && kit.hwecOverridesSwec then kit.hwecDefName else echocan

def ioctlAttachEchocan (kit : Kit T F) (answers : Answers F) (s : State T F E) (found : Option T)
    (echocan : List Char) : State T F E × Int :=
  match found with
  | none => (s, einval)
  | some c =>
    if attachName kit c echocan = [] then (setFactory s c none, 0)
    else attachFound kit c (findEchocan kit answers s (attachName kit c echocan))

/-- The running canceller is freed with its reference. -/
def dropEchocan (s : State T F E) (c : T) : State T F E :=
  let v := s.chan c
  let s := setChan s c { v with ecState := none, ecCurrent := none }
  if v.ecState.isSome then releaseEchocan s v.ecCurrent else s

def maxEchocanparams : Nat := 8

/-- `echocan_create` gets the tap length it is to use, and gives a result and perhaps an
    instance. -/
structure Request (F E : Type) where
  paramCount : Nat
  tapLength : Nat
  alloc : Bool
  copied : Bool
  tryModuleGet : Bool
  echocanCreate : F → Nat → Int × Option E

def taps (kit : Kit T F) (r : Request F E) : Nat :=
  if r.tapLength ∈ [32, 64, 128, 256, 512, 1024] then r.tapLength else kit.deftaps

def started (s : State T F E) (c : T) (f : F) : Int × Option E → State T F E × Int
  | (ret, ec) =>
    if ret ≠ 0 then (releaseEchocan s (some f), ret)
    else match ec with
      | none => (s, efault)
      | some e => (setChan s c { s.chan c with ecCurrent := some f, ecState := some e }, 0)

def startEchocan (kit : Kit T F) (s : State T F E) (c : T) (r : Request F E) : State T F E × Int :=
  match (s.chan c).ecFactory with
  | none => (s, 0)
  | some f =>
    if r.tryModuleGet = false then (s, 0)
    else started (moduleGet s f) c f (r.echocanCreate f (taps kit r))

def ioctlEchocancel (kit : Kit T F) (s : State T F E) (c : T) (r : Request F E) :
    State T F E × Int :=
  if maxEchocanparams < r.paramCount then (s, e2big)
  else if r.tapLength = 0 then (dropEchocan s c, 0)
  else if r.alloc = false then (s, enomem)
  else if r.copied = false then (s, efault)
  else startEchocan kit (dropEchocan s c) c r

/-- Opening and closing a channel both stop its canceller. -/
inductive Event (T F E : Type) where
  | register (f : F) (alloc : Bool)
  | unregister (f : F)
  | attach (answers : Answers F) (found : Option T) (echocan : List Char)
  | echocancel (c : T) (r : Request F E)
  | opens (c : T)
  | close (c : T)

def next (kit : Kit T F) (s : State T F E) : Event T F E → State T F E
  | .register f alloc => (registerFactory s f alloc).1
  | .unregister f => unregisterFactory s f
  | .attach answers found echocan => (ioctlAttachEchocan kit answers s found echocan).1
  | .echocancel c r => (ioctlEchocancel kit s c r).1
  | .opens c => dropEchocan s c
  | .close c => dropEchocan s c

def bare : State T F E := ⟨fun _ => ⟨none, none, none⟩, [], fun _ => 0⟩

def factories (kit : Kit T F) : System (State T F E) (Event T F E) where
  start := fun s => s = bare
  step := fun s e s' => s' = next kit s e

end EchocanFactories

/-!
The module references to a factory are those of the channels it is attached to and of
the channels it runs on, as long as no factory reports success without an instance.
-/
namespace EchocanFactories
open RefCount GuardedRun
variable {T F E : Type} [Fintype T] [DecidableEq T] [DecidableEq F]

def factoryOf (s : State T F E) (c : T) : Option F := (s.chan c).ecFactory

def currentOf (s : State T F E) (c : T) : Option F := (s.chan c).ecCurrent

/-- The references are as many as the channels that hold the factory, counted twice where
    it also runs. -/
def Counted (s : State T F E) : Prop :=
  ∀ f, s.refs f = count (factoryOf s) f + count (currentOf s) f

/-- A factory is asked for a canceller and reports success without one. -/
def Empty (kit : Kit T F) (s : State T F E) (c : T) (r : Request F E) : Prop :=
  r.paramCount ≤ maxEchocanparams ∧ r.tapLength ≠ 0 ∧ r.alloc ∧ r.copied ∧ r.tryModuleGet ∧
    ∃ f ∈ (s.chan c).ecFactory,
      (r.echocanCreate f (taps kit r)).1 = 0 ∧ (r.echocanCreate f (taps kit r)).2.isNone

instance (kit : Kit T F) (s : State T F E) (c : T) (r : Request F E) : Decidable (Empty kit s c r) :=
  inferInstanceAs (Decidable (_ ∧ _ ∧ _ ∧ _ ∧ _ ∧ ∃ f ∈ (s.chan c).ecFactory, _))

def Given (kit : Kit T F) (s : State T F E) : Event T F E → Prop
  | .echocancel c r => ¬ Empty kit s c r
  | _ => True

instance (kit : Kit T F) (s : State T F E) (e : Event T F E) : Decidable (Given kit s e) :=
  match e with
  | .register _ _ => inferInstanceAs (Decidable True)
  | .unregister _ => inferInstanceAs (Decidable True)
  | .attach _ _ _ => inferInstanceAs (Decidable True)
  | .echocancel c r => inferInstanceAs (Decidable (¬ Empty kit s c r))
  | .opens _ => inferInstanceAs (Decidable True)
  | .close _ => inferInstanceAs (Decidable True)

structure Kept (s : State T F E) : Prop where
  counted : Counted s
  running : ∀ c, (s.chan c).ecState.isSome = (s.chan c).ecCurrent.isSome

section fields
variable {s s' : State T F E} {c : T} {v : Chan F E}

omit [Fintype T] [DecidableEq F] in
theorem factory_set : factoryOf (setChan s c v) = Function.update (factoryOf s) c v.ecFactory := by
  funext d
  by_cases same : d = c
  · simp only [same, factoryOf, setChan, Function.update_self]
  · simp only [factoryOf, setChan, Function.update_of_ne same]

omit [Fintype T] [DecidableEq F] in
theorem current_set : currentOf (setChan s c v) = Function.update (currentOf s) c v.ecCurrent := by
  funext d
  by_cases same : d = c
  · simp only [same, currentOf, setChan, Function.update_self]
  · simp only [currentOf, setChan, Function.update_of_ne same]

/-- A channel changes what it holds, and the references change with it. -/
theorem kept_set (kept : Kept s) (running : v.ecState.isSome = v.ecCurrent.isSome)
    (chan : s'.chan = (setChan s c v).chan)
    (refs : ∀ f, s'.refs f = s.refs f - has (s.chan c).ecFactory f - has (s.chan c).ecCurrent f +
      has v.ecFactory f + has v.ecCurrent f) : Kept s' := by
  constructor
  · intro f
    have factory : factoryOf s' = Function.update (factoryOf s) c v.ecFactory := by
      rw [← factory_set]
      exact funext fun d => congrArg (fun chan => (chan d).ecFactory) chan
    have current : currentOf s' = Function.update (currentOf s) c v.ecCurrent := by
      rw [← current_set]
      exact funext fun d => congrArg (fun chan => (chan d).ecCurrent) chan
    rw [refs, factory, current, count_update, count_update, kept.counted f, factoryOf, currentOf]
    omega
  · intro d
    rw [chan]
    by_cases same : d = c
    · simp only [same, setChan, Function.update_self]
      exact running
    · simp only [setChan, Function.update_of_ne same]
      exact kept.running d

theorem kept_same (kept : Kept s) (chan : s'.chan = s.chan) (refs : s'.refs = s.refs) : Kept s' := by
  constructor
  · intro f
    have factory : factoryOf s' = factoryOf s :=
      funext fun d => congrArg (fun chan => (chan d).ecFactory) chan
    have current : currentOf s' = currentOf s :=
      funext fun d => congrArg (fun chan => (chan d).ecCurrent) chan
    rw [refs, factory, current]
    exact kept.counted f
  · intro d
    rw [chan]
    exact kept.running d

end fields

section steps
variable {kit : Kit T F} {answers : Answers F} {s : State T F E} {c : T} {f : F}

omit [Fintype T] [DecidableEq T] in
theorem register_rest (s : State T F E) (f : F) (alloc : Bool) :
    (registerFactory s f alloc).1.chan = s.chan ∧ (registerFactory s f alloc).1.refs = s.refs := by
  rw [registerFactory]
  split
  case isTrue => exact ⟨rfl, rfl⟩
  case isFalse =>
    split
    case isTrue => exact ⟨rfl, rfl⟩
    case isFalse => exact ⟨rfl, rfl⟩

omit [Fintype T] [DecidableEq T] in
theorem load_rest (loaded : List F) (s : State T F E) :
    (loaded.foldl (fun s f => (registerFactory s f true).1) s).chan = s.chan ∧
      (loaded.foldl (fun s f => (registerFactory s f true).1) s).refs = s.refs := by
  induction loaded generalizing s with
  | nil => exact ⟨rfl, rfl⟩
  | cons f rest ih =>
    obtain ⟨chan, refs⟩ := ih (registerFactory s f true).1
    obtain ⟨chan', refs'⟩ := register_rest s f true
    rw [List.foldl_cons, chan, refs]
    exact ⟨chan', refs'⟩

omit [Fintype T] [DecidableEq T] in
theorem pin_rest (s : State T F E) (f : F) : (pin answers s f).1.chan = s.chan ∧
    (pin answers s f).1.refs = get s.refs (pin answers s f).2 := by
  rw [pin]
  split
  case isTrue => exact ⟨rfl, rfl⟩
  case isFalse => exact ⟨rfl, (get_none s.refs).symm⟩

omit [Fintype T] [DecidableEq T] in
/-- The reference taken is to the factory found. -/
theorem find_rest (s : State T F E) (name : List Char) :
    (findEchocan kit answers s name).1.chan = s.chan ∧
      (findEchocan kit answers s name).1.refs =
        get s.refs (findEchocan kit answers s name).2 := by
  rw [findEchocan]
  split
  case isTrue => exact ⟨rfl, (get_none s.refs).symm⟩
  case isFalse =>
    obtain ⟨chan, refs⟩ := load_rest answers.loaded s
    split
    case h_1 f _ => exact pin_rest s f
    case h_2 =>
      simp only
      split
      case h_1 f _ =>
        obtain ⟨chan', refs'⟩ := @pin_rest _ _ _ _ answers
          (answers.loaded.foldl (fun s f => (registerFactory s f true).1) s) f
        rw [chan', refs', chan, refs]
        exact ⟨rfl, rfl⟩
      case h_2 => exact ⟨chan, refs.trans (get_none s.refs).symm⟩

/-- The factory attached comes with its reference, and the old one goes with its own. -/
theorem kept_factory (kept : Kept s) {new : Option F} {s' : State T F E} (chan : s'.chan = s.chan)
    (refs : s'.refs = get s.refs new) : Kept (setFactory s' c new) := by
  apply kept_set (c := c) (v := { s.chan c with ecFactory := new }) kept (kept.running c)
  · simp only [setFactory, releaseEchocan, setChan, chan]
  · intro f
    simp only [setFactory, releaseEchocan, setChan, put, refs, RefCount.get, chan]
    omega

theorem kept_attach (kept : Kept s) (found : Option T) (echocan : List Char) :
    Kept (ioctlAttachEchocan kit answers s found echocan).1 := by
  cases found with
  | none => exact kept
  | some c =>
    rw [ioctlAttachEchocan]
    split
    case isTrue => exact kept_factory kept rfl (get_none s.refs).symm
    case isFalse =>
      obtain ⟨chan, refs⟩ := @find_rest _ _ _ _ kit answers s (attachName kit c echocan)
      generalize findEchocan kit answers s (attachName kit c echocan) = result at chan refs ⊢
      obtain ⟨s', new⟩ := result
      cases new with
      | none => exact kept_same kept chan (refs.trans (get_none s.refs))
      | some new =>
        rw [attachFound.eq_def]
        simp only
        split
        case isTrue =>
          have released : (releaseEchocan s' (some new)).refs = s.refs :=
            (congrArg (put · (some new)) refs).trans (put_get s.refs (some new))
          exact kept_same kept chan released
        case isFalse => exact kept_factory kept chan refs

theorem kept_drop (kept : Kept s) : Kept (dropEchocan s c) := by
  have running := kept.running c
  apply kept_set (c := c) (v := { s.chan c with ecState := none, ecCurrent := none }) kept rfl
  · rw [dropEchocan]
    simp only
    split
    case isTrue => rfl
    case isFalse => rfl
  · intro f
    rw [dropEchocan]
    simp only
    split
    case isTrue =>
      simp only [releaseEchocan, setChan, put, has_none]
      omega
    case isFalse stopped =>
      rw [running, Bool.not_eq_true, Option.isSome_eq_false_iff, Option.isNone_iff_eq_none] at stopped
      simp only [setChan, stopped, has_none]
      omega

omit [Fintype T] in
theorem drop_chan (s : State T F E) (c : T) : (dropEchocan s c).chan =
    Function.update s.chan c { s.chan c with ecState := none, ecCurrent := none } := by
  rw [dropEchocan]
  simp only
  split
  case isTrue => rfl
  case isFalse => rfl

theorem kept_started (kept : Kept s) (stopped : (s.chan c).ecCurrent = none)
    (result : Int × Option E) (given : ¬ (result.1 = 0 ∧ result.2.isNone)) :
    Kept (started (moduleGet s f) c f result).1 := by
  obtain ⟨ret, ec⟩ := result
  rw [started.eq_def]
  simp only
  split
  case isTrue =>
    have released : (releaseEchocan (moduleGet s f) (some f)).refs = s.refs :=
      put_get s.refs (some f)
    exact kept_same kept rfl released
  case isFalse success =>
    cases ec with
    | none => exact absurd ⟨not_not.mp success, rfl⟩ given
    | some e =>
      apply kept_set (c := c) (v := { s.chan c with ecCurrent := some f, ecState := some e }) kept rfl
      · rfl
      · intro g
        simp only [setChan, moduleGet, RefCount.get, stopped, has_none]
        omega

theorem kept_echocancel (kept : Kept s) (r : Request F E) (given : ¬ Empty kit s c r) :
    Kept (ioctlEchocancel kit s c r).1 := by
  rw [ioctlEchocancel]
  split
  case isTrue => exact kept
  case isFalse few =>
    split
    case isTrue => exact kept_drop kept
    case isFalse enable =>
      split
      case isTrue => exact kept
      case isFalse alloc =>
        split
        case isTrue => exact kept
        case isFalse copied =>
          have dropped : Kept (dropEchocan s c) := kept_drop kept
          have here := drop_chan s c
          rw [startEchocan]
          split
          case h_1 => exact dropped
          case h_2 f factory =>
            split
            case isTrue => exact dropped
            case isFalse pinned =>
              apply kept_started dropped
              · rw [here, Function.update_self]
              · intro nothing
                apply given
                rw [here, Function.update_self] at factory
                exact ⟨by omega, enable, by simpa using alloc, by simpa using copied,
                  by simpa using pinned, f, factory, nothing⟩

theorem kept_step (kept : Kept s) {e : Event T F E} (given : Given kit s e) : Kept (next kit s e) := by
  cases e with
  | register f alloc =>
    obtain ⟨chan, refs⟩ := register_rest s f alloc
    exact kept_same kept chan refs
  | unregister f => exact kept_same kept rfl rfl
  | attach answers found echocan => exact kept_attach kept found echocan
  | echocancel c r => exact kept_echocancel kept r given
  | opens c => exact kept_drop kept
  | close c => exact kept_drop kept

theorem kept_bare : Kept (bare : State T F E) := by
  constructor
  · intro f
    have factory : factoryOf (bare : State T F E) = fun _ => none := rfl
    have current : currentOf (bare : State T F E) = fun _ => none := rfl
    rw [factory, current, count_none]
    rfl
  · intro c
    rfl

end steps

theorem references_counted (kit : Kit T F) (s : State T F E)
    (reached : Reach (factories kit) (Given kit) s) : Counted s := by
  have kept : Kept s := by
    apply @invariant_run _ _ (factories kit) (Given kit) Kept
    · intro s start
      rw [start]
      exact kept_bare
    · intro s e s' kept given moved
      rw [moved]
      exact kept_step kept given
    · exact reached
  exact kept.counted

/-- Two software cancellers, MG2 and KB1, on three channels. -/
def software : Kit (Fin 3) (Fin 2) where
  getName := fun f _ => some (if f = 0 then ['M', 'G', '2'] else ['K', 'B', '1'])
  isHwecAvailable := fun _ => false
  hwecDefName := ['H', 'W', 'E', 'C']
  hwecOverridesSwec := true
  deftaps := 64

def ready : Answers (Fin 2) := ⟨true, [1], fun _ => true⟩

/-- A canceller that refuses parameters. -/
def wants (params : Nat) : Request (Fin 2) Unit :=
  ⟨params, 128, true, true, true, fun _ _ => if params = 0 then (0, some ()) else (-22, none)⟩

def busy : List (Event (Fin 3) (Fin 2) Unit) :=
  [.register 0 true, .attach ready (some 0) ['m', 'g', '2'], .attach ready (some 1) ['k', 'b', '1'],
    .echocancel 0 (wants 0), .echocancel 1 (wants 0), .attach ready (some 0) [],
    .echocancel 1 (wants 2), .opens 2, .unregister 0, .close 0]

def computed (kit : Kit (Fin 3) (Fin 2)) (s : State (Fin 3) (Fin 2) Unit)
    (e : Event (Fin 3) (Fin 2) Unit) : Option (State (Fin 3) (Fin 2) Unit) := some (next kit s e)

theorem references_counted_busy : ∃ s, follow (computed software) (Given software) busy bare = some s ∧
    s.refs 1 = 1 ∧ Counted s := by
  have runs : (follow (computed software) (Given software) busy bare).any (fun s =>
      s.refs 1 = 1) = true := by decide +kernel
  obtain ⟨s, ends, shown⟩ := (Option.any_eq_true _ _).mp runs
  refine ⟨s, ends, of_decide_eq_true shown, ?_⟩
  apply references_counted software
  apply @follow_reach _ _ (factories software) _ _ _ (fun _ _ _ done => (Option.some.inj done).symm)
    _ _ _ _ ends
  exact Reach.start rfl

/-- The factory reports success and gives no instance. -/
def hollow : List (Event (Fin 3) (Fin 2) Unit) :=
  [.register 0 true, .attach ready (some 0) ['m', 'g', '2'],
    .echocancel 0 ⟨0, 128, true, true, true, fun _ _ => (0, none)⟩]

theorem reference_leaked : ¬ ∀ s, Reach (factories software) anyStep s → Counted (s : State (Fin 3) (Fin 2) Unit) := by
  intro always
  have runs : (follow (computed software) anyStep hollow bare).any (fun s =>
      s.refs 0 = 2 ∧ (count (factoryOf s) 0 = 1) ∧ count (currentOf s) 0 = 0) = true := by
    decide +kernel
  obtain ⟨s, ends, shown⟩ := (Option.any_eq_true _ _).mp runs
  obtain ⟨refs, attached, running⟩ := of_decide_eq_true shown
  have reached : Reach (factories software) anyStep s := by
    apply @follow_reach _ _ (factories software) _ _ _ (fun _ _ _ done => (Option.some.inj done).symm)
      _ _ _ _ ends
    exact Reach.start rfl
  have counted := always s reached 0
  rw [refs, attached, running] at counted
  omega

end EchocanFactories
