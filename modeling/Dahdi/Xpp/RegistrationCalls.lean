import Dahdi.Xpp.BusRegistration

/-!
What a registration or unregistration of an Astribank does to the cards, the counters and the
spans that DAHDI has.
-/
namespace BusRegistration

section Loops
variable {B : Type} [DecidableEq B] {s s' : State B} {p : B}

def telephony (b : Xbus) (i : Slot) : Bool := (b.xpds i).any Xpd.phonedev

/-- A telephony card that is not registered. -/
def fresh (b : Xbus) (i : Slot) : Bool := (b.xpds i).any fun xpd => xpd.phonedev && !spanRegistered xpd

def bump (change : Int) (slot : Option Xpd) : Option Xpd :=
  slot.map fun xpd => if xpd.phonedev then { xpd with dahdiRegistered := xpd.dahdiRegistered + change } else xpd

def phones (b : Xbus) : Finset Slot := Finset.univ.filter fun i => telephony b i

/-- The cards of a bus in a list of slots were counted. -/
structure Counted (change : Int) (p : B) (slots : List Slot) (s s' : State B) : Prop where
  xpds : ∀ i, (s'.xbus p).xpds i = if i ∈ slots then bump change ((s.xbus p).xpds i) else (s.xbus p).xpds i
  ddev : (s'.xbus p).ddev = (s.xbus p).ddev
  others : ∀ q, q ≠ p → s'.xbus q = s.xbus q
  spans : s'.numRegisteredSpans = s.numRegisteredSpans + change * (slots.filter (telephony (s.xbus p))).length
  registered : s'.registered = s.registered
  assigned : s'.assigned = s.assigned
  divided : s'.divided = s.divided

theorem count_one (change : Int) (p : B) (i : Slot) (s : State B) : Counted change p [i] s (countSpan change p i s) := by
  rw [countSpan.eq_def]
  cases card : (s.xbus p).xpds i with
  | none =>
    refine ⟨fun j => ?_, rfl, fun _ _ => rfl, ?_, rfl, rfl, rfl⟩
    · by_cases here : j = i
      · rw [here, if_pos (List.mem_singleton.mpr rfl), card]
        rfl
      · rw [if_neg (fun mem => here (List.mem_singleton.mp mem))]
    · simp [telephony, card]
  | some xpd =>
    dsimp only
    split
    next phone =>
      refine ⟨fun j => ?_, ?_, fun q other => setXbus_other other _ s, ?_, rfl, rfl, rfl⟩
      · rw [setXbus_self]
        dsimp only
        by_cases here : j = i
        · rw [here, Function.update_self, if_pos (List.mem_singleton.mpr rfl), card, bump, Option.map_some, if_pos phone]
        · rw [Function.update_of_ne here, if_neg (fun mem => here (List.mem_singleton.mp mem))]
      · rw [setXbus_self]
      · simp [telephony, card, phone]
    next plain =>
      refine ⟨fun j => ?_, rfl, fun _ _ => rfl, ?_, rfl, rfl, rfl⟩
      · by_cases here : j = i
        · rw [here, if_pos (List.mem_singleton.mpr rfl), card, bump, Option.map_some, if_neg plain]
        · rw [if_neg (fun mem => here (List.mem_singleton.mp mem))]
      · simp [telephony, card, plain]

theorem telephony_bump (change : Int) (slot : Option Xpd) : (bump change slot).any Xpd.phonedev = slot.any Xpd.phonedev := by
  cases slot with
  | none => rfl
  | some xpd =>
    simp only [bump, Option.map_some, Option.any_some]
    split <;> rfl

theorem count_fold {change : Int} {slots : List Slot} (distinct : slots.Nodup) (s : State B) :
    Counted change p slots s (slots.foldl (fun s i => countSpan change p i s) s) := by
  induction slots generalizing s with
  | nil =>
    refine ⟨fun _ => (if_neg List.not_mem_nil).symm, rfl, fun _ _ => rfl, ?_, rfl, rfl, rfl⟩
    simp
  | cons i rest ih =>
    obtain ⟨new, distinct⟩ := List.nodup_cons.mp distinct
    have first := count_one change p i s
    have later := ih distinct (countSpan change p i s)
    have same (j : Slot) : telephony ((countSpan change p i s).xbus p) j = telephony (s.xbus p) j := by
      rw [telephony, telephony, first.xpds j]
      split
      next => exact telephony_bump change _
      next => rfl
    refine ⟨fun j => ?_, later.ddev.trans first.ddev, fun q other => (later.others q other).trans (first.others q other),
      ?_, later.registered.trans first.registered, later.assigned.trans first.assigned,
      later.divided.trans first.divided⟩
    · rw [List.foldl_cons, later.xpds j, first.xpds j]
      by_cases here : j = i
      · rw [here, if_neg new, if_pos (List.mem_singleton.mpr rfl), if_pos List.mem_cons_self]
      · rw [if_neg (fun mem => here (List.mem_singleton.mp mem))]
        simp only [List.mem_cons, here, false_or]
    · have split_ : ([i].filter (telephony (s.xbus p))).length + (rest.filter (telephony (s.xbus p))).length =
          ((i :: rest).filter (telephony (s.xbus p))).length := by
        rw [← List.length_append, ← List.filter_append]
        rfl
      rw [List.foldl_cons, later.spans, first.spans, ← split_, funext same]
      push_cast
      ring

theorem phones_card (b : Xbus) : ((List.finRange MAX_XPDS).filter (telephony b)).length = (phones b).card := by
  have same : ((List.finRange MAX_XPDS).filter (telephony b)).toFinset = phones b := by
    rw [List.toFinset_filter, List.toFinset_finRange, phones]
  rw [← List.toFinset_card_of_nodup ((List.nodup_finRange MAX_XPDS).filter _), same]

/-- All the cards of a bus were counted. -/
structure AllCounted (change : Int) (p : B) (s s' : State B) : Prop where
  xpds : ∀ i, (s'.xbus p).xpds i = bump change ((s.xbus p).xpds i)
  ddev : (s'.xbus p).ddev = (s.xbus p).ddev
  others : ∀ q, q ≠ p → s'.xbus q = s.xbus q
  spans : s'.numRegisteredSpans = s.numRegisteredSpans + change * (phones (s.xbus p)).card
  registered : s'.registered = s.registered
  assigned : s'.assigned = s.assigned
  divided : s'.divided = s.divided

theorem count_all (change : Int) (p : B) (s : State B) : AllCounted change p s (forXpds (countSpan change p) s) := by
  have counted := @count_fold _ _ p change _ (List.nodup_finRange MAX_XPDS) s
  rw [forXpds]
  refine ⟨fun i => ?_, counted.ddev, counted.others, ?_, counted.registered, counted.assigned, counted.divided⟩
  · exact (counted.xpds i).trans (if_pos (List.mem_finRange i))
  · rw [← phones_card]
    exact counted.spans

/-- The loop that prepares the list of spans. -/
theorem preregister_fold (slots : List Slot) (b : Xbus) (d : Ddev) (made : b.ddev = some d) :
    slots.foldl (fun b i => (xpdDahdiPreregister i b).2) b =
      { b with ddev := some { d with spans := d.spans ++ slots.filter (fresh b) } } := by
  induction slots generalizing b d with
  | nil =>
    rw [List.filter_nil, List.append_nil]
    exact congrArg (fun ddev => { b with ddev }) made
  | cons i rest ih =>
    rw [List.foldl_cons]
    have step : (xpdDahdiPreregister i b).2 =
        { b with ddev := some { d with spans := d.spans ++ [i].filter (fresh b) } } := by
      have kept : b = { b with ddev := some { d with spans := d.spans ++ [] } } := by
        rw [List.append_nil, ← made]
      rw [xpdDahdiPreregister.eq_def, List.filter_singleton, fresh]
      cases card : b.xpds i with
      | none => exact kept
      | some xpd =>
        dsimp only
        split
        next plain =>
          rw [Bool.not_eq_true'] at plain
          rw [Option.any_some, plain, Bool.false_and]
          exact kept
        next phone =>
          rw [Bool.not_eq_true, Bool.not_eq_false'] at phone
          rw [Option.any_some, phone, Bool.true_and]
          split
          next registered =>
            rw [registered]
            exact kept
          next new =>
            rw [Bool.not_eq_true] at new
            rw [new, made]
            rfl
    rw [step, ih _ _ rfl]
    have lists : (d.spans ++ [i].filter (fresh b)) ++ rest.filter (fresh b) = d.spans ++ (i :: rest).filter (fresh b) := by
      rw [List.append_assoc, ← List.filter_append]
      rfl
    exact congrArg (fun spans => { b with ddev := some { d with spans } }) lists

end Loops

section Calls
variable {B : Type} [DecidableEq B] {s s' : State B} {p : B}

@[irreducible] def freshList (b : Xbus) : List Slot := (List.finRange MAX_XPDS).filter (fresh b)

theorem prepared (b : Xbus) : forXpds (fun i b => (xpdDahdiPreregister i b).2) { b with ddev := some (newDdev b) } =
    { b with ddev := some { newDdev b with spans := freshList b } } := by
  rw [forXpds, preregister_fold _ _ (newDdev b) rfl, freshList]
  rfl

/-- What a call leaves as it was that has not come to dahdi_register_device. -/
structure Kept (s s' : State B) : Prop where
  xpds : ∀ q i, (s'.xbus q).xpds i = (s.xbus q).xpds i
  ddev : ∀ q, (s'.xbus q).ddev = none ∨ (s'.xbus q).ddev = (s.xbus q).ddev
  spans : s'.numRegisteredSpans = s.numRegisteredSpans
  registered : s'.registered = s.registered
  assigned : s'.assigned = s.assigned
  divided : s'.divided = s.divided

/-- A registration that failed after dahdi_register_device had assigned some spans. -/
structure Refused (p : B) (a : Answers) (s s' : State B) : Prop where
  xpds : ∀ q i, (s'.xbus q).xpds i = (s.xbus q).xpds i
  ddev : ∀ q, (s'.xbus q).ddev = none ∨ (s'.xbus q).ddev = (s.xbus q).ddev
  spans : s'.numRegisteredSpans = s.numRegisteredSpans
  registered : s'.registered = s.registered
  assigned : s'.assigned = Function.update s.assigned p fun i => s.assigned p i || (fresh (s.xbus p) i && a.assigns i)
  divided : s'.divided = (s.divided ||
    (a.ticked && (freshList (s.xbus p)).any a.assigns && s.numRegisteredSpans == 0))

/-- A registration. -/
structure Joined (p : B) (a : Answers) (s s' : State B) : Prop where
  xpds : ∀ i, (s'.xbus p).xpds i = bump 1 ((s.xbus p).xpds i)
  others : ∀ q, q ≠ p → s'.xbus q = s.xbus q
  ddev : spansOf (s'.xbus p) = freshList (s.xbus p)
  spans : s'.numRegisteredSpans = s.numRegisteredSpans + (phones (s.xbus p)).card
  registered : s'.registered = Function.update s.registered p fun i => s.registered p i || fresh (s.xbus p) i
  assigned : s'.assigned = Function.update s.assigned p fun i => s.assigned p i || (fresh (s.xbus p) i && a.assigns i)
  divided : s'.divided = (s.divided ||
    (a.ticked && (freshList (s.xbus p)).any a.assigns && s.numRegisteredSpans == 0))

/-- The registration is not broken off before dahdi_register_device. -/
def comesToDahdi (p : B) (a : Answers) (s : State B) : Prop :=
  a.interrupted = false ∧ xbusIsRegistered (s.xbus p) = false ∧ a.create = true ∧ a.kasprintf = true

theorem freshList_contains (b : Xbus) (i : Slot) : (freshList b).contains i = fresh b i := by
  rw [freshList, List.contains_eq_mem]
  simp [List.mem_filter]

theorem freshList_any (b : Xbus) (f : Slot → Bool) :
    (freshList b).any f = true ↔ ∃ i, fresh b i = true ∧ f i = true := by
  rw [freshList, List.any_eq_true]
  simp [List.mem_filter]

theorem set_twice (p : B) (b b' : Xbus) (s : State B) : setXbus p b' (setXbus p b s) = setXbus p b' s := by
  simp only [setXbus, Function.update_idem]

/-- An error exit forgets the device that was being made. -/
theorem err_made (me : Nat) (p : B) (ret : Int) (d : Option Ddev) (s : State B) :
    registerErr me p ret (setXbus p { s.xbus p with ddev := d } s) = registerErr me p ret s := by
  rw [registerErr, set_twice, setXbus_self, registerErr]
  rfl

theorem err_kept (me : Nat) (p : B) (ret : Int) (s : State B) : Kept s (registerErr me p ret s).2 := by
  refine ⟨fun q i => ?_, fun q => ?_, rfl, rfl, rfl, rfl⟩
  · by_cases here : q = p
    · rw [here]
      exact (congrArg (fun b : Xbus => b.xpds i) (setXbus_self p (xbusFreeDdev (s.xbus p)) s)).trans rfl
    · exact congrArg (fun b : Xbus => b.xpds i) (setXbus_other here _ s)
  · by_cases here : q = p
    · rw [here]
      exact .inl (congrArg Xbus.ddev (setXbus_self p _ s))
    · exact .inr (congrArg Xbus.ddev (setXbus_other here (xbusFreeDdev (s.xbus p)) s))

omit [DecidableEq B] in
theorem tick_when (c : Bool) (s : State B) :
    (if c then dahdiSyncTick s else s) = { s with divided := s.divided || (c && s.numRegisteredSpans == 0) } := by
  cases c with
  | false => simp
  | true => rfl

/-- dahdi_register_device, for a bus with a device and its spans. -/
theorem registerDevice_eq (p : B) (a : Answers) (b : Xbus) (d : Ddev) (s : State B) (made : b.ddev = some d) :
    dahdiRegisterDevice p a (setXbus p b s) = (a.registers,
      { setXbus p { b with ddev := some { d with parent := true } } s with
        assigned := Function.update s.assigned p fun i => s.assigned p i || (d.spans.contains i && a.assigns i)
        divided := s.divided || (a.ticked && d.spans.any a.assigns && s.numRegisteredSpans == 0)
        registered := if a.registers then
          Function.update s.registered p fun i => s.registered p i || d.spans.contains i else s.registered }) := by
  have spans : spansOf b = d.spans := by
    rw [spansOf, made]
    rfl
  rw [dahdiRegisterDevice]
  simp only [setXbus_self, spans, tick_when, made, Option.map_some]
  cases a.registers <;> simp only [setXbus, Function.update_idem, if_true, Bool.false_eq_true, if_false]

/-- The bus with its device in DAHDI. -/
def entered (b : Xbus) : Xbus :=
  { b with ddev := some { newDdev b with spans := freshList b, parent := true } }

/-- A state in which the spans of a bus have come to DAHDI. -/
structure Entered (p : B) (a : Answers) (s held : State B) : Prop where
  xbus : held.xbus = (setXbus p (entered (s.xbus p)) s).xbus
  spans : held.numRegisteredSpans = s.numRegisteredSpans
  assigned : held.assigned = Function.update s.assigned p fun i => s.assigned p i || (fresh (s.xbus p) i && a.assigns i)
  divided : held.divided = (s.divided ||
    (a.ticked && (freshList (s.xbus p)).any a.assigns && s.numRegisteredSpans == 0))

theorem refused_fields {held : State B} {a : Answers} (me : Nat) (ret : Int) (in_ : Entered p a s held)
    (registered : held.registered = s.registered) : Refused p a s (registerErr me p ret held).2 := by
  have back (q : B) : (registerErr me p ret held).2.xbus q = (setXbus p { s.xbus p with ddev := none } s).xbus q := by
    simp only [registerErr, registerOut, setXbus, in_.xbus, Function.update_idem, Function.update_self]
    rfl
  refine ⟨fun q i => ?_, fun q => ?_, in_.spans, registered, in_.assigned, in_.divided⟩
  · rw [back q]
    by_cases here : q = p
    · rw [here, setXbus_self]
    · rw [setXbus_other here]
  · rw [back q]
    by_cases here : q = p
    · rw [here, setXbus_self]
      exact .inl rfl
    · rw [setXbus_other here]
      exact .inr rfl

theorem joined_fields {held : State B} {a : Answers} (me : Nat) (in_ : Entered p a s held)
    (registered : held.registered = Function.update s.registered p fun i => s.registered p i || fresh (s.xbus p) i) :
    Joined p a s (registerOut me 0 (forXpds (xpdDahdiPostregister p) held)).2 := by
  have counted : AllCounted 1 p held (forXpds (xpdDahdiPostregister p) held) := count_all 1 p held
  have here : held.xbus p = entered (s.xbus p) := by rw [in_.xbus, setXbus_self]
  refine ⟨fun i => ?_, fun q other => ?_, ?_, ?_, ?_, ?_, ?_⟩
  · refine (counted.xpds i).trans ?_
    rw [here]
    rfl
  · refine (counted.others q other).trans ?_
    rw [in_.xbus, setXbus_other other]
  · have same : (forXpds (xpdDahdiPostregister p) held |>.xbus p).ddev = (entered (s.xbus p)).ddev := by
      rw [counted.ddev, here]
    rw [spansOf]
    exact congrArg (fun ddev : Option Ddev => (ddev.map Ddev.spans).getD []) same
  · refine counted.spans.trans ?_
    rw [here, in_.spans, one_mul]
    rfl
  · exact counted.registered.trans registered
  · exact counted.assigned.trans in_.assigned
  · exact counted.divided.trans in_.divided

theorem locked_counts (me : Nat) (p : B) (a : Answers) (s : State B) (going : a.interrupted = false) :
    (¬ comesToDahdi p a s ∧ Kept s (registerLocked me p a s).2) ∨
    (comesToDahdi p a s ∧ a.registers = false ∧ Refused p a s (registerLocked me p a s).2) ∨
    (comesToDahdi p a s ∧ a.registers = true ∧ Joined p a s (registerLocked me p a s).2) := by
  rw [registerLocked]
  dsimp only
  split
  next registered =>
    refine .inl ⟨fun comes => ?_, err_kept me p _ s⟩
    rw [comes.2.1] at registered
    exact Bool.false_ne_true registered
  next unregistered =>
    split
    next failed =>
      refine .inl ⟨fun comes => ?_, err_made me p _ _ s ▸ err_kept me p _ s⟩
      rw [comes.2.2.1] at failed
      exact Bool.false_ne_true failed
    next created =>
      split
      next failed =>
        refine .inl ⟨fun comes => ?_, err_made me p _ _ s ▸ err_kept me p _ s⟩
        rw [comes.2.2.2] at failed
        exact Bool.false_ne_true failed
      next printed =>
        right
        rw [Bool.not_eq_true] at unregistered
        rw [Bool.not_eq_true, Bool.not_eq_false'] at created printed
        have comes : comesToDahdi p a s := ⟨going, unregistered, created, printed⟩
        rw [prepared, registerDevice_eq p a _ _ s rfl]
        simp only [freshList_contains]
        cases registers : a.registers with
        | false => exact .inl ⟨comes, rfl, refused_fields me _ ⟨rfl, rfl, rfl, rfl⟩ rfl⟩
        | true => exact .inr ⟨comes, rfl, joined_fields me ⟨rfl, rfl, rfl, rfl⟩ rfl⟩

/-- What a call to xbus_register_dahdi_device does. -/
theorem register_cases {me : Nat} {a : Answers} {ret : Int} (returned : xbusRegisterDahdiDevice me p a s = some (ret, s')) :
    (¬ comesToDahdi p a s ∧ Kept s s') ∨ (comesToDahdi p a s ∧ a.registers = false ∧ Refused p a s s') ∨
    (comesToDahdi p a s ∧ a.registers = true ∧ Joined p a s s') := by
  rw [xbusRegisterDahdiDevice] at returned
  split at returned
  next interrupted =>
    have out : (registerErr me p (-EINTR) s).2 = s' := congrArg Prod.snd (Option.some.inj returned)
    refine .inl ⟨fun comes => ?_, out ▸ err_kept me p _ s⟩
    rw [comes.1] at interrupted
    exact Bool.false_ne_true interrupted
  next going =>
    split at returned
    next =>
      have out : (registerLocked me p a { s with mutex := { s.mutex with holder := some me } }).2 = s' :=
        congrArg Prod.snd (Option.some.inj returned)
      rw [← out]
      obtain ⟨stays, kept⟩ | ⟨comes, refuses, refused⟩ | ⟨comes, registers, joined⟩ :=
        locked_counts me p a { s with mutex := { s.mutex with holder := some me } } (Bool.not_eq_true _ ▸ going)
      · exact .inl ⟨stays, kept.xpds, kept.ddev, kept.spans, kept.registered, kept.assigned, kept.divided⟩
      · exact .inr (.inl ⟨comes, refuses, refused.xpds, refused.ddev, refused.spans, refused.registered,
          refused.assigned, refused.divided⟩)
      · exact .inr (.inr ⟨comes, registers, joined.xpds, joined.others, joined.ddev, joined.spans, joined.registered,
          joined.assigned, joined.divided⟩)
    next => cases returned

/-- The spans of a bus leave DAHDI, and its telephony cards are counted down. -/
structure Parted (p : B) (s s' : State B) : Prop where
  xpds : ∀ i, (s'.xbus p).xpds i = bump (-1) ((s.xbus p).xpds i)
  others : ∀ q, q ≠ p → s'.xbus q = s.xbus q
  ddev : (s'.xbus p).ddev = none
  spans : s'.numRegisteredSpans = s.numRegisteredSpans - (phones (s.xbus p)).card
  registered : s'.registered =
    Function.update s.registered p fun i => s.registered p i && !(spansOf (s.xbus p)).contains i
  assigned : s'.assigned = Function.update s.assigned p fun i => s.assigned p i && !(spansOf (s.xbus p)).contains i
  divided : s'.divided = s.divided

/-- The spans of a bus leave DAHDI. -/
structure Withdrawn (p : B) (s s' : State B) : Prop where
  others : ∀ q, q ≠ p → s'.xbus q = s.xbus q
  here : s'.xbus p = { s.xbus p with ddev := none }
  spans : s'.numRegisteredSpans = s.numRegisteredSpans
  divided : s'.divided = s.divided
  registered : s'.registered =
    Function.update s.registered p fun i => s.registered p i && !(spansOf (s.xbus p)).contains i
  assigned : s'.assigned = Function.update s.assigned p fun i => s.assigned p i && !(spansOf (s.xbus p)).contains i

theorem withdraw_fields (p : B) (s : State B) : Withdrawn p s (withdrawDdev p s) := by
  rw [withdrawDdev.eq_def]
  cases device : (s.xbus p).ddev with
  | none =>
    have unlinked (listed : Slot → Bool) : (fun i => listed i && !(spansOf (s.xbus p)).contains i) = listed := by
      funext i
      rw [spansOf, device]
      exact Bool.and_true _
    refine ⟨fun _ _ => rfl, ?_, rfl, rfl, ?_, ?_⟩
    · exact congrArg (fun ddev => { s.xbus p with ddev }) device
    · rw [unlinked, Function.update_eq_self]
    · rw [unlinked, Function.update_eq_self]
  | some d =>
    have spans : spansOf (s.xbus p) = d.spans := by
      rw [spansOf, device]
      rfl
    refine ⟨fun q other => setXbus_other other _ _, setXbus_self p _ _, rfl, rfl, ?_, ?_⟩
    · rw [spans]
      rfl
    · rw [spans]
      rfl

theorem unregister_fields (me : Nat) (p : B) (s : State B) : Parted p s (unregisterLocked me p s) := by
  obtain ⟨others, here, spans, divided, registered, assigned⟩ := withdraw_fields p s
  have counted : AllCounted (-1) p (withdrawDdev p s) (forXpds (xpdDahdiPostunregister p) (withdrawDdev p s)) :=
    count_all (-1) p _
  refine ⟨fun i => ?_, fun q other => ?_, ?_, ?_, ?_, ?_, ?_⟩
  · refine (counted.xpds i).trans ?_
    rw [here]
  · exact (counted.others q other).trans (others q other)
  · refine counted.ddev.trans ?_
    rw [here]
  · refine counted.spans.trans ?_
    rw [here, spans, neg_one_mul, ← sub_eq_add_neg]
    rfl
  · exact counted.registered.trans registered
  · exact counted.assigned.trans assigned
  · exact counted.divided.trans divided

theorem unregister_cases {me : Nat} {interrupted : Bool} (returned : xbusUnregisterDahdiDevice me p interrupted s = some s') :
    (interrupted = true ∧ s' = s) ∨ (interrupted = false ∧ Parted p s s') := by
  rw [xbusUnregisterDahdiDevice] at returned
  split at returned
  next caught => exact .inl ⟨caught, (Option.some.inj returned).symm⟩
  next going =>
    split at returned
    next =>
      have parted := unregister_fields me p { s with mutex := { s.mutex with holder := some me } }
      rw [Option.some.inj returned] at parted
      exact .inr ⟨Bool.not_eq_true _ ▸ going, parted.xpds, parted.others, parted.ddev, parted.spans, parted.registered,
        parted.assigned, parted.divided⟩
    next => cases returned

end Calls

end BusRegistration
