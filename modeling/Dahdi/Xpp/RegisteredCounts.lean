import Dahdi.Xpp.RegistrationCalls

/-!
The counters of the registered spans, over every history of registrations, unregistrations,
cards and ticks.
-/
namespace BusRegistration

section Runs
variable {B : Type} [DecidableEq B]

/-- Registrations and unregistrations by any caller, cards that come, a bus that goes, what is
    done to the spans through sysfs, and ticks of DAHDI. -/
inductive Op (B : Type) where
  | register (me : Nat) (p : B) (a : Answers)
  | unregister (me : Nat) (p : B) (interrupted : Bool)
  | newCard (p : B) (i : Slot) (phonedev : Bool)
  | remove (me : Nat) (p : B) (interrupted : Bool)
  | assignSpan (p : B) (i : Slot)
  | unassignSpan (p : B) (i : Slot)
  | tick (p : B) (i : Slot)

def setAssigned (p : B) (i : Slot) (on : Bool) (s : State B) : State B :=
  { s with assigned := Function.update s.assigned p (Function.update (s.assigned p) i on) }

def addCard (p : B) (i : Slot) (phonedev : Bool) (s : State B) : State B :=
  setXbus p { s.xbus p with xpds := Function.update (s.xbus p).xpds i (some ⟨phonedev, 0⟩) } s

/-- The end of xbus_deactivate: the bus is unregistered, and its cards are released. -/
def releaseXpds (p : B) (s : State B) : State B :=
  setXbus p { s.xbus p with xpds := fun _ => none, ddev := none } s

def next (s : State B) (op : Op B) : Option (State B) :=
  match op with
  | .register me p a => (xbusRegisterDahdiDevice me p a s).map Prod.snd
  | .unregister me p interrupted => xbusUnregisterDahdiDevice me p interrupted s
  | .newCard p i phonedev => if (s.xbus p).xpds i = none then some (addCard p i phonedev s) else none
  | .remove me p interrupted => (xbusUnregisterDahdiDevice me p interrupted s).map (releaseXpds p)
  | .assignSpan p i => if s.registered p i then some (setAssigned p i true s) else none
  | .unassignSpan p i => some (setAssigned p i false s)
  | .tick p i => if s.assigned p i then some (dahdiSyncTick s) else none

structure Start (s : State B) : Prop where
  xpds : ∀ p i, (s.xbus p).xpds i = none
  ddev : ∀ p, (s.xbus p).ddev = none
  spans : s.numRegisteredSpans = 0
  registered : ∀ p i, s.registered p i = false
  assigned : ∀ p i, s.assigned p i = false
  divided : s.divided = false

def sys : GuardedRun.System (State B) (Op B) := ⟨Start, fun s op s' => next s op = some s'⟩

def regs (s : State B) (p : B) : Finset Slot := Finset.univ.filter fun i => s.registered p i = true

/-- How many cards are registered. -/
def registeredCount [Fintype B] (s : State B) : Int := ∑ p, ((regs s p).card : Int)

/-- dahdi_registered tells of each telephony card whether it is registered, num_registered_spans
    how many are, ticks come only for registered spans, and none has divided by zero. -/
structure Good [Fintype B] (s : State B) : Prop where
  counted : ∀ p i xpd, (s.xbus p).xpds i = some xpd → xpd.phonedev = true →
    xpd.dahdiRegistered = if s.registered p i then 1 else 0
  cards : ∀ p i, s.registered p i = true → telephony (s.xbus p) i = true
  spans : s.numRegisteredSpans = registeredCount s
  listed : ∀ p i, s.assigned p i = true → s.registered p i = true
  divided : s.divided = false

/-- The telephony cards of a bus are registered with the device that it has. -/
def whole (p : B) (s : State B) : Prop :=
  ∀ i, telephony (s.xbus p) i = true → s.registered p i = true ∧ i ∈ spansOf (s.xbus p)

/-- None of the telephony cards of a bus is registered, and no tick comes for them, with no
    other span registered, before they are counted. -/
def joins (p : B) (a : Answers) (s : State B) : Prop :=
  (∀ i, telephony (s.xbus p) i = true → s.registered p i = false) ∧
    (a.ticked = true → (∃ i, telephony (s.xbus p) i = true ∧ a.assigns i = true) → s.numRegisteredSpans ≠ 0)

/-- DAHDI refuses the device and has none of its spans assigned. -/
def leavesNone (p : B) (a : Answers) (s : State B) : Prop :=
  ∀ i, telephony (s.xbus p) i = true → s.registered p i = false → a.assigns i = false

def matched (s : State B) (op : Op B) : Prop :=
  match op with
  | .register _ p a => comesToDahdi p a s → if a.registers then joins p a s else leavesNone p a s
  | .unregister _ p interrupted => interrupted = false → whole p s
  | .remove _ p interrupted => if interrupted then ∀ i, s.registered p i = false else whole p s
  | .newCard _ _ _ | .assignSpan _ _ | .unassignSpan _ _ | .tick _ _ => True

/-- The spans of the device of a bus are registered. -/
def Linked (s : State B) : Prop := ∀ p i, i ∈ spansOf (s.xbus p) → s.registered p i = true

end Runs

section Steps
variable {B : Type} [DecidableEq B] [Fintype B] {s s' : State B} {p : B} {a : Answers}

theorem count_change (others : ∀ q, q ≠ p → s'.registered q = s.registered q) :
    registeredCount s' = registeredCount s - (regs s p).card + (regs s' p).card := by
  have rest : ∑ q ∈ Finset.univ.erase p, ((regs s' q).card : Int) = ∑ q ∈ Finset.univ.erase p, ((regs s q).card : Int) := by
    apply Finset.sum_congr rfl
    intro q member
    rw [regs, regs, others q (Finset.ne_of_mem_erase member)]
  have before := Finset.add_sum_erase Finset.univ (fun q => ((regs s q).card : Int)) (Finset.mem_univ p)
  have after := Finset.add_sum_erase Finset.univ (fun q => ((regs s' q).card : Int)) (Finset.mem_univ p)
  rw [registeredCount, registeredCount, ← before, ← after, rest]
  ring

theorem telephony_some {b : Xbus} {i : Slot} : telephony b i = true ↔ ∃ xpd, b.xpds i = some xpd ∧ xpd.phonedev = true := by
  rw [telephony, Option.any_eq_true]

omit [DecidableEq B] in
/-- A telephony card that is not registered is one that DAHDI does not have. -/
theorem fresh_iff (good : Good s) (i : Slot) :
    fresh (s.xbus p) i = true ↔ telephony (s.xbus p) i = true ∧ s.registered p i = false := by
  rw [fresh, telephony]
  cases card : (s.xbus p).xpds i with
  | none => simp
  | some xpd =>
    rw [Option.any_some, Option.any_some, Bool.and_eq_true]
    apply and_congr_right
    intro phone
    have value := good.counted p i xpd card phone
    rw [spanRegistered, value]
    cases s.registered p i <;> simp

omit [DecidableEq B] [Fintype B] in
theorem same_telephony (same : ∀ i, (s'.xbus p).xpds i = (s.xbus p).xpds i) (i : Slot) :
    telephony (s'.xbus p) i = telephony (s.xbus p) i := by
  rw [telephony, telephony, same]

omit [DecidableEq B] [Fintype B] in
theorem bump_telephony {change : Int} (bumped : ∀ i, (s'.xbus p).xpds i = bump change ((s.xbus p).xpds i)) (i : Slot) :
    telephony (s'.xbus p) i = telephony (s.xbus p) i := by
  rw [telephony, telephony, bumped, telephony_bump]

omit [DecidableEq B] in
theorem kept_good (good : Good s) (kept : Kept s s') : Good s' := by
  refine ⟨fun q i xpd card phone => ?_, fun q i there => ?_, ?_, fun q i there => ?_, kept.divided.trans good.divided⟩
  · rw [kept.xpds] at card
    rw [kept.registered]
    exact good.counted q i xpd card phone
  · rw [kept.registered] at there
    exact (same_telephony (kept.xpds q) i).trans (good.cards q i there)
  · rw [kept.spans, good.spans, registeredCount, registeredCount]
    exact Finset.sum_congr rfl fun q _ => by rw [regs, regs, kept.registered]
  · rw [kept.assigned] at there
    rw [kept.registered]
    exact good.listed q i there

theorem joined_good (good : Good s) (joined : Joined p a s s') : Good s' ↔ joins p a s := by
  have entered (q : B) (i : Slot) : s'.registered q i = true ↔
      s.registered q i = true ∨ q = p ∧ telephony (s.xbus p) i = true ∧ s.registered p i = false := by
    rw [joined.registered]
    by_cases here : q = p
    · rw [here, Function.update_self, Bool.or_eq_true, fresh_iff good]
      simp
    · rw [Function.update_of_ne here]
      simp [here]
  have divided : s'.divided = false ↔
      (a.ticked = true → (∃ i, fresh (s.xbus p) i = true ∧ a.assigns i = true) → s.numRegisteredSpans ≠ 0) := by
    rw [joined.divided, good.divided, Bool.false_or, ← freshList_any, Bool.and_eq_false_iff, Bool.and_eq_false_iff,
      beq_eq_false_iff_ne]
    cases a.ticked <;> cases (freshList (s.xbus p)).any a.assigns <;> simp
  constructor
  · intro good'
    have none_ (i : Slot) (phone : telephony (s.xbus p) i = true) : s.registered p i = false := by
      obtain ⟨xpd, card, phonedev⟩ := telephony_some.mp phone
      have value := good.counted p i xpd card phonedev
      have card' : (s'.xbus p).xpds i = some { xpd with dahdiRegistered := xpd.dahdiRegistered + 1 } := by
        rw [joined.xpds, card, bump, Option.map_some, if_pos phonedev]
      have value' := good'.counted p i _ card' phonedev
      dsimp only at value'
      by_contra there
      rw [value, if_pos (Bool.not_eq_false _ ▸ there)] at value'
      split at value' <;> omega
    refine ⟨none_, fun ticked found => divided.mp good'.divided ticked ?_⟩
    obtain ⟨i, phone, assigned⟩ := found
    exact ⟨i, (fresh_iff good i).mpr ⟨phone, none_ i phone⟩, assigned⟩
  · rintro ⟨none_, ticks⟩
    have empty : regs s p = ∅ := by
      apply Finset.filter_eq_empty_iff.mpr
      intro i _ there
      rw [none_ i (good.cards p i there)] at there
      exact Bool.false_ne_true there
    have full : regs s' p = phones (s.xbus p) := by
      ext i
      rw [regs, phones, Finset.mem_filter, Finset.mem_filter, entered]
      constructor
      · rintro ⟨_, there | ⟨_, phone, _⟩⟩
        · exact ⟨Finset.mem_univ i, good.cards p i there⟩
        · exact ⟨Finset.mem_univ i, phone⟩
      · rintro ⟨_, phone⟩
        exact ⟨Finset.mem_univ i, .inr ⟨rfl, phone, none_ i phone⟩⟩
    refine ⟨fun q i xpd card phone => ?_, fun q i there => ?_, ?_, fun q i there => ?_, ?_⟩
    · by_cases here : q = p
      · subst here
        obtain ⟨old, found, rfl⟩ := Option.map_eq_some_iff.mp ((joined.xpds i).symm.trans card)
        split at phone
        next phonedev =>
          have there := telephony_some.mpr ⟨old, found, phonedev⟩
          rw [if_pos phonedev, (entered q i).mpr (.inr ⟨rfl, there, none_ i there⟩)]
          dsimp only
          rw [good.counted q i old found phonedev, none_ i there]
          rfl
        next plain => exact absurd phone plain
      · rw [joined.others q here] at card
        rw [joined.registered, Function.update_of_ne here]
        exact good.counted q i xpd card phone
    · by_cases here : q = p
      · subst here
        rw [bump_telephony joined.xpds]
        obtain old | ⟨_, phone, _⟩ := (entered q i).mp there
        · exact good.cards q i old
        · exact phone
      · rw [joined.registered, Function.update_of_ne here] at there
        rw [joined.others q here]
        exact good.cards q i there
    · rw [joined.spans, good.spans, count_change (fun q here => by rw [joined.registered, Function.update_of_ne here]),
        empty, full, Finset.card_empty]
      push_cast
      ring
    · by_cases here : q = p
      · subst here
        rw [joined.assigned, Function.update_self, Bool.or_eq_true, Bool.and_eq_true, fresh_iff good] at there
        obtain old | ⟨new, _⟩ := there
        · exact (entered q i).mpr (.inl (good.listed q i old))
        · exact (entered q i).mpr (.inr ⟨rfl, new⟩)
      · rw [joined.assigned, Function.update_of_ne here] at there
        exact (entered q i).mpr (.inl (good.listed q i there))
    · apply divided.mpr
      rintro ticked ⟨i, new, assigned⟩
      exact ticks ticked ⟨i, ((fresh_iff good i).mp new).1, assigned⟩

theorem refused_good (good : Good s) (refused : Refused p a s s') : Good s' ↔ leavesNone p a s := by
  constructor
  · intro good' i phone new
    by_contra assigned
    rw [Bool.not_eq_false] at assigned
    have listed : s'.assigned p i = true := by
      rw [refused.assigned, Function.update_self, (fresh_iff good i).mpr ⟨phone, new⟩, assigned]
      exact Bool.or_true _
    have there := good'.listed p i listed
    rw [refused.registered, new] at there
    exact Bool.false_ne_true there
  · intro none_
    have quiet (i : Slot) (new : fresh (s.xbus p) i = true) : a.assigns i = false :=
      none_ i ((fresh_iff good i).mp new).1 ((fresh_iff good i).mp new).2
    have same : s'.assigned = s.assigned := by
      rw [refused.assigned]
      have unlisted : (fun i => s.assigned p i || (fresh (s.xbus p) i && a.assigns i)) = s.assigned p := by
        funext i
        cases new : fresh (s.xbus p) i with
        | false => rw [Bool.false_and, Bool.or_false]
        | true => rw [quiet i new, Bool.and_false, Bool.or_false]
      rw [unlisted, Function.update_eq_self]
    have still : (freshList (s.xbus p)).any a.assigns = false := by
      by_contra some_
      obtain ⟨i, new, assigned⟩ := (freshList_any _ _).mp (Bool.not_eq_false _ ▸ some_)
      rw [quiet i new] at assigned
      exact Bool.false_ne_true assigned
    refine kept_good good ⟨refused.xpds, refused.ddev, refused.spans, refused.registered, same, ?_⟩
    rw [refused.divided, still, Bool.and_false, Bool.false_and, Bool.or_false]

/-- The counter and the number of registered cards agree after an unregistration just if all
    the telephony cards were registered with the device of the bus. -/
theorem parted_spans (good : Good s) (linked : Linked s) (parted : Parted p s s') :
    s'.numRegisteredSpans = registeredCount s' ↔ whole p s := by
  have inside : (spansOf (s.xbus p)).toFinset ⊆ regs s p := by
    intro i mem
    exact Finset.mem_filter.mpr ⟨Finset.mem_univ i, linked p i (List.mem_toFinset.mp mem)⟩
  have phoned : regs s p ⊆ phones (s.xbus p) := by
    intro i mem
    exact Finset.mem_filter.mpr ⟨Finset.mem_univ i, good.cards p i (Finset.mem_filter.mp mem).2⟩
  have left : regs s' p = regs s p \ (spansOf (s.xbus p)).toFinset := by
    ext i
    rw [regs, regs, Finset.mem_sdiff, Finset.mem_filter, Finset.mem_filter, List.mem_toFinset, parted.registered,
      Function.update_self, Bool.and_eq_true, List.contains_eq_mem]
    simp
  have cut := Finset.card_sdiff_add_card_eq_card inside
  rw [parted.spans, good.spans, count_change (fun q here => by rw [parted.registered, Function.update_of_ne here]), left]
  constructor
  · intro equal
    have all : (spansOf (s.xbus p)).toFinset = phones (s.xbus p) := by
      apply Finset.eq_of_subset_of_card_le (inside.trans phoned)
      omega
    intro i phone
    have mem : i ∈ (spansOf (s.xbus p)).toFinset := by
      rw [all]
      exact Finset.mem_filter.mpr ⟨Finset.mem_univ i, phone⟩
    exact ⟨linked p i (List.mem_toFinset.mp mem), List.mem_toFinset.mp mem⟩
  · intro all
    have back : phones (s.xbus p) ⊆ (spansOf (s.xbus p)).toFinset := by
      intro i mem
      exact List.mem_toFinset.mpr (all i (Finset.mem_filter.mp mem).2).2
    have same : (spansOf (s.xbus p)).toFinset = phones (s.xbus p) := (inside.trans phoned).antisymm back
    rw [same] at cut ⊢
    omega

/-- After that none is registered. -/
theorem parted_none (good : Good s) (parted : Parted p s s') (all : whole p s) (i : Slot) : s'.registered p i = false := by
  rw [parted.registered, Function.update_self]
  cases there : s.registered p i with
  | false => rfl
  | true =>
    have mem := (all i (good.cards p i there)).2
    rw [List.contains_eq_mem, decide_eq_true mem]
    rfl

theorem parted_good (good : Good s) (linked : Linked s) (parted : Parted p s s') : Good s' ↔ whole p s := by
  constructor
  · exact fun good' => (parted_spans good linked parted).mp good'.spans
  · intro all
    have none_ := parted_none good parted all
    refine ⟨fun q i xpd card phone => ?_, fun q i there => ?_, (parted_spans good linked parted).mpr all,
      fun q i there => ?_, parted.divided.trans good.divided⟩
    · by_cases here : q = p
      · subst here
        obtain ⟨old, found, rfl⟩ := Option.map_eq_some_iff.mp ((parted.xpds i).symm.trans card)
        split at phone
        next phonedev =>
          have there := (all i (telephony_some.mpr ⟨old, found, phonedev⟩)).1
          rw [if_pos phonedev, none_ i]
          dsimp only
          rw [good.counted q i old found phonedev, there]
          rfl
        next plain => exact absurd phone plain
      · rw [parted.others q here] at card
        rw [parted.registered, Function.update_of_ne here]
        exact good.counted q i xpd card phone
    · by_cases here : q = p
      · rw [here, none_ i] at there
        exact absurd there Bool.false_ne_true
      · rw [parted.registered, Function.update_of_ne here] at there
        rw [parted.others q here]
        exact good.cards q i there
    · by_cases here : q = p
      · subst here
        rw [parted.assigned, Function.update_self, Bool.and_eq_true] at there
        rw [parted.registered, Function.update_self, Bool.and_eq_true]
        exact ⟨good.listed q i there.1, there.2⟩
      · rw [parted.assigned, Function.update_of_ne here] at there
        rw [parted.registered, Function.update_of_ne here]
        exact good.listed q i there

/-- The release of the cards of a bus of which none is registered. -/
theorem release_good (good : Good s) (none_ : ∀ i, s.registered p i = false) : Good (releaseXpds p s) := by
  refine ⟨fun q i xpd card phone => ?_, fun q i there => ?_, good.spans, good.listed, good.divided⟩
  · by_cases here : q = p
    · rw [here, releaseXpds, setXbus_self] at card
      cases card
    · rw [releaseXpds, setXbus_other here] at card
      exact good.counted q i xpd card phone
  · by_cases here : q = p
    · rw [here] at there
      rw [show (releaseXpds p s).registered p i = s.registered p i from rfl, none_ i] at there
      exact absurd there Bool.false_ne_true
    · rw [releaseXpds, setXbus_other here]
      exact good.cards q i there

theorem remove_good (good : Good s) (linked : Linked s) (parted : Parted p s s') : Good (releaseXpds p s') ↔ whole p s := by
  constructor
  · intro good'
    have count : registeredCount (releaseXpds p s') = registeredCount s' := rfl
    exact (parted_spans good linked parted).mp (count ▸ good'.spans)
  · intro all
    exact release_good ((parted_good good linked parted).mpr all) (parted_none good parted all)

theorem gone_good (good : Good s) : Good (releaseXpds p s) ↔ ∀ i, s.registered p i = false := by
  constructor
  · intro good' i
    by_contra there
    rw [Bool.not_eq_false] at there
    have phone := good'.cards p i there
    rw [releaseXpds, setXbus_self] at phone
    cases phone
  · exact release_good good

theorem addCard_good {i : Slot} (phonedev : Bool) (good : Good s) (free : (s.xbus p).xpds i = none) :
    Good (addCard p i phonedev s) := by
  have new : s.registered p i = false := by
    by_contra there
    obtain ⟨xpd, card, _⟩ := telephony_some.mp (good.cards p i (Bool.not_eq_false _ ▸ there))
    rw [free] at card
    cases card
  refine ⟨fun q j xpd card phone => ?_, fun q j there => ?_, good.spans, good.listed, good.divided⟩
  · by_cases here : q = p
    · rw [here, addCard, setXbus_self] at card
      rw [here]
      dsimp only at card
      by_cases slot : j = i
      · rw [slot, Function.update_self] at card
        rw [slot, ← Option.some.inj card, show (addCard p i phonedev s).registered p i = s.registered p i from rfl, new]
        rfl
      · rw [Function.update_of_ne slot] at card
        exact good.counted p j xpd card phone
    · rw [addCard, setXbus_other here] at card
      exact good.counted q j xpd card phone
  · have phone := good.cards q j there
    by_cases here : q = p
    · rw [here] at there phone ⊢
      have other : j ≠ i := by
        rintro rfl
        rw [show (addCard p j phonedev s).registered p j = s.registered p j from rfl, new] at there
        exact Bool.false_ne_true there
      rw [telephony, addCard, setXbus_self]
      dsimp only
      rw [Function.update_of_ne other]
      exact phone
    · rw [addCard, setXbus_other here]
      exact phone

theorem assign_good {i : Slot} (good : Good s) (there : s.registered p i = true) : Good (setAssigned p i true s) := by
  refine ⟨good.counted, good.cards, good.spans, fun q j listed => ?_, good.divided⟩
  by_cases here : q = p
  · rw [here] at listed ⊢
    by_cases slot : j = i
    · rw [slot]
      exact there
    · rw [setAssigned] at listed
      dsimp only at listed
      rw [Function.update_self, Function.update_of_ne slot] at listed
      exact good.listed p j listed
  · rw [setAssigned] at listed
    dsimp only at listed
    rw [Function.update_of_ne here] at listed
    exact good.listed q j listed

theorem unassign_good (good : Good s) (i : Slot) : Good (setAssigned p i false s) := by
  refine ⟨good.counted, good.cards, good.spans, fun q j listed => ?_, good.divided⟩
  by_cases here : q = p
  · rw [here] at listed ⊢
    rw [setAssigned] at listed
    dsimp only at listed
    rw [Function.update_self] at listed
    by_cases slot : j = i
    · rw [slot, Function.update_self] at listed
      cases listed
    · rw [Function.update_of_ne slot] at listed
      exact good.listed p j listed
  · rw [setAssigned] at listed
    dsimp only at listed
    rw [Function.update_of_ne here] at listed
    exact good.listed q j listed

omit [DecidableEq B] in
/-- A tick comes for a registered span, so at least one is counted. -/
theorem tick_good {i : Slot} (good : Good s) (listed : s.assigned p i = true) : Good (dahdiSyncTick s) := by
  have one : 0 < (regs s p).card :=
    Finset.card_pos.mpr ⟨i, Finset.mem_filter.mpr ⟨Finset.mem_univ i, good.listed p i listed⟩⟩
  have some_ : ((regs s p).card : Int) ≤ registeredCount s :=
    Finset.single_le_sum (f := fun q => ((regs s q).card : Int)) (fun _ _ => Int.natCast_nonneg _) (Finset.mem_univ p)
  have counted : s.numRegisteredSpans ≠ 0 := by
    rw [good.spans]
    omega
  refine ⟨good.counted, good.cards, good.spans, good.listed, ?_⟩
  rw [dahdiSyncTick, good.divided, Bool.false_or]
  exact beq_eq_false_iff_ne.mpr counted

theorem next_good {op : Op B} (good : Good s) (linked : Linked s) (moved : next s op = some s') : Good s' ↔ matched s op := by
  cases op with
  | register me p a =>
    obtain ⟨⟨ret, _⟩, returned, rfl⟩ := Option.map_eq_some_iff.mp moved
    obtain ⟨stays, kept⟩ | ⟨comes, refuses, refused⟩ | ⟨comes, registers, joined⟩ := register_cases returned
    · exact iff_of_true (kept_good good kept) (fun comes => absurd comes stays)
    · rw [refused_good good refused, matched, refuses]
      exact ⟨fun none_ _ => none_, fun none_ => none_ comes⟩
    · rw [joined_good good joined, matched, registers]
      exact ⟨fun none_ _ => none_, fun none_ => none_ comes⟩
  | unregister me p interrupted =>
    obtain ⟨caught, rfl⟩ | ⟨going, parted⟩ := unregister_cases moved
    · exact iff_of_true good (fun going => absurd (going.symm.trans caught) Bool.false_ne_true)
    · rw [parted_good good linked parted, matched]
      exact ⟨fun all _ => all, fun all => all going⟩
  | newCard p i phonedev =>
    rw [next] at moved
    split at moved
    next free =>
      rw [← Option.some.inj moved]
      exact iff_of_true (addCard_good phonedev good free) trivial
    next => cases moved
  | remove me p interrupted =>
    obtain ⟨middle, returned, rfl⟩ := Option.map_eq_some_iff.mp moved
    obtain ⟨caught, rfl⟩ | ⟨going, parted⟩ := unregister_cases returned
    · rw [gone_good good, matched, caught]
      exact Iff.rfl
    · rw [remove_good good linked parted, matched, going]
      exact Iff.rfl
  | assignSpan p i =>
    rw [next] at moved
    split at moved
    next there =>
      rw [← Option.some.inj moved]
      exact iff_of_true (assign_good good there) trivial
    next => cases moved
  | unassignSpan p i =>
    rw [← Option.some.inj moved]
    exact iff_of_true (unassign_good good i) trivial
  | tick p i =>
    rw [next] at moved
    split at moved
    next listed =>
      rw [← Option.some.inj moved]
      exact iff_of_true (tick_good good listed) trivial
    next => cases moved

omit [DecidableEq B] [Fintype B] in
theorem fewer_linked (linked : Linked s) (ddev : ∀ q, (s'.xbus q).ddev = none ∨ (s'.xbus q).ddev = (s.xbus q).ddev)
    (registered : s'.registered = s.registered) : Linked s' := by
  intro q i mem
  rw [registered]
  obtain gone | same := ddev q
  · rw [spansOf, gone] at mem
    cases mem
  · rw [spansOf, same] at mem
    exact linked q i mem

omit [Fintype B] in
theorem joined_linked (linked : Linked s) (joined : Joined p a s s') : Linked s' := by
  intro q i mem
  rw [joined.registered]
  by_cases here : q = p
  · rw [here] at mem ⊢
    rw [joined.ddev] at mem
    have new : fresh (s.xbus p) i = true := by rw [← freshList_contains, List.contains_eq_mem, decide_eq_true mem]
    rw [Function.update_self, new, Bool.or_true]
  · rw [joined.others q here] at mem
    rw [Function.update_of_ne here]
    exact linked q i mem

omit [Fintype B] in
theorem parted_linked (linked : Linked s) (parted : Parted p s s') : Linked s' := by
  intro q i mem
  by_cases here : q = p
  · rw [here, spansOf, parted.ddev] at mem
    cases mem
  · rw [parted.others q here] at mem
    rw [parted.registered, Function.update_of_ne here]
    exact linked q i mem

omit [Fintype B] in
/-- The cards of a bus do not matter. -/
theorem setXbus_linked {b : Xbus} (linked : Linked s) (ddev : b.ddev = none ∨ b.ddev = (s.xbus p).ddev) :
    Linked (setXbus p b s) := by
  refine fewer_linked linked (fun q => ?_) rfl
  by_cases here : q = p
  · rw [here, setXbus_self]
    exact ddev
  · rw [setXbus_other here]
    exact .inr rfl

omit [Fintype B] in
theorem next_linked {op : Op B} (linked : Linked s) (moved : next s op = some s') : Linked s' := by
  cases op with
  | register me p a =>
    obtain ⟨⟨ret, _⟩, returned, rfl⟩ := Option.map_eq_some_iff.mp moved
    obtain ⟨_, kept⟩ | ⟨_, _, refused⟩ | ⟨_, _, joined⟩ := register_cases returned
    · exact fewer_linked linked kept.ddev kept.registered
    · exact fewer_linked linked refused.ddev refused.registered
    · exact joined_linked linked joined
  | unregister me p interrupted =>
    obtain ⟨_, rfl⟩ | ⟨_, parted⟩ := unregister_cases moved
    · exact linked
    · exact parted_linked linked parted
  | newCard p i phonedev =>
    rw [next] at moved
    split at moved
    next =>
      rw [← Option.some.inj moved]
      exact setXbus_linked linked (.inr rfl)
    next => cases moved
  | remove me p interrupted =>
    obtain ⟨middle, returned, rfl⟩ := Option.map_eq_some_iff.mp moved
    obtain ⟨_, rfl⟩ | ⟨_, parted⟩ := unregister_cases returned
    · exact setXbus_linked linked (.inl rfl)
    · exact setXbus_linked (parted_linked linked parted) (.inl rfl)
  | assignSpan p i =>
    rw [next] at moved
    split at moved
    next =>
      rw [← Option.some.inj moved]
      exact linked
    next => cases moved
  | unassignSpan p i =>
    rw [← Option.some.inj moved]
    exact linked
  | tick p i =>
    rw [next] at moved
    split at moved
    next =>
      rw [← Option.some.inj moved]
      exact linked
    next => cases moved

omit [DecidableEq B] in
theorem start_good (begins : Start s) : Good s := by
  refine ⟨fun p i xpd card _ => ?_, fun p i there => ?_, ?_, fun p i there => ?_, begins.divided⟩
  · rw [begins.xpds] at card
    cases card
  · rw [begins.registered] at there
    cases there
  · rw [begins.spans, registeredCount]
    refine (Finset.sum_eq_zero fun p _ => ?_).symm
    rw [regs, Finset.filter_false_of_mem fun i _ => by rw [begins.registered]; exact Bool.false_ne_true]
    rfl
  · rw [begins.assigned] at there
    cases there

omit [DecidableEq B] [Fintype B] in
theorem start_linked (begins : Start s) : Linked s := by
  intro p i mem
  rw [spansOf, begins.ddev] at mem
  cases mem

omit [Fintype B] in
theorem reached_linked {guard : State B → Op B → Prop} (reached : GuardedRun.Reach sys guard s) : Linked s := by
  refine @GuardedRun.invariant_run _ _ sys guard Linked (fun _ begins => start_linked begins) ?_ _ reached
  exact fun _ _ _ linked _ moved => next_linked linked moved

theorem reached_counts (reached : GuardedRun.Reach sys matched s) : Good s := by
  induction reached with
  | start begins => exact start_good begins
  | step before fits moved good => exact (next_good good (reached_linked before) moved).mpr fits

/-- Over histories of matched calls the counters are right and no tick divides by zero; no
    other call from there keeps it so. -/
theorem counts_match (reached : GuardedRun.Reach sys matched s) :
    Good s ∧ ∀ op s', next s op = some s' → (Good s' ↔ matched s op) := by
  have good := reached_counts reached
  exact ⟨good, fun op s' moved => next_good good (reached_linked reached) moved⟩

end Steps

section Example

instance (p : Unit) (s : State Unit) : Decidable (whole p s) :=
  inferInstanceAs (Decidable (∀ i, telephony (s.xbus p) i = true → s.registered p i = true ∧ i ∈ spansOf (s.xbus p)))

instance (p : Unit) (a : Answers) (s : State Unit) : Decidable (joins p a s) :=
  inferInstanceAs (Decidable ((∀ i, telephony (s.xbus p) i = true → s.registered p i = false) ∧
    (a.ticked = true → (∃ i, telephony (s.xbus p) i = true ∧ a.assigns i = true) → s.numRegisteredSpans ≠ 0)))

instance (p : Unit) (a : Answers) (s : State Unit) : Decidable (leavesNone p a s) :=
  inferInstanceAs (Decidable (∀ i, telephony (s.xbus p) i = true → s.registered p i = false → a.assigns i = false))

instance (p : Unit) (a : Answers) (s : State Unit) : Decidable (comesToDahdi p a s) :=
  inferInstanceAs (Decidable (a.interrupted = false ∧ xbusIsRegistered (s.xbus p) = false ∧ a.create = true ∧
    a.kasprintf = true))

instance (s : State Unit) (op : Op Unit) : Decidable (matched s op) :=
  match op with
  | .register _ p a =>
    inferInstanceAs (Decidable (comesToDahdi p a s → if a.registers = true then joins p a s else leavesNone p a s))
  | .unregister _ p interrupted => inferInstanceAs (Decidable (interrupted = false → whole p s))
  | .remove _ p interrupted => inferInstanceAs (Decidable (if interrupted = true then ∀ i, s.registered p i = false else whole p s))
  | .newCard _ _ _ | .assignSpan _ _ | .unassignSpan _ _ | .tick _ _ => isTrue trivial

def empty : State Unit where
  xbus := fun _ => ⟨fun _ => none, none, "usb-1", "usb:X1"⟩
  numRegisteredSpans := 0
  mutex := ⟨none, 0⟩
  registered := fun _ _ => false
  assigned := fun _ _ => false
  divided := false

theorem empty_start : Start empty := ⟨fun _ _ => rfl, fun _ => rfl, rfl, fun _ _ => rfl, fun _ _ => rfl, rfl⟩

/-- A telephony card and another that come, are registered, and tick. -/
def upRun (i j : Slot) : List (Op Unit) :=
  [.newCard () i true, .newCard () j false, .register 1 () granted, .tick () i]

theorem counts_match_up : ∃ s : State Unit, GuardedRun.Reach sys matched s ∧ s.numRegisteredSpans = 1 ∧ Good s := by
  have view : (GuardedRun.follow next matched (upRun ⟨0, by decide⟩ ⟨8, by decide⟩) empty).map State.numRegisteredSpans = some 1 := by
    decide +kernel
  obtain ⟨s, followed, one⟩ := Option.map_eq_some_iff.mp view
  have reached : GuardedRun.Reach sys matched s :=
    @GuardedRun.follow_reach _ _ sys next matched _ (fun _ _ _ moved => moved) _ _ _ (.start empty_start) followed
  exact ⟨s, reached, one, (counts_match reached).1⟩

/-- A bus that goes without having been registered. -/
theorem never_registered : ¬ ∀ s : State Unit, GuardedRun.Reach sys GuardedRun.anyStep s → Good s := by
  intro always
  have view : (GuardedRun.follow next GuardedRun.anyStep [.newCard () ⟨0, by decide⟩ true, .remove 1 () false] empty).map
      State.numRegisteredSpans = some (-1) := by decide +kernel
  obtain ⟨s, followed, below⟩ := Option.map_eq_some_iff.mp view
  have reached : GuardedRun.Reach sys GuardedRun.anyStep s :=
    @GuardedRun.follow_reach _ _ sys next GuardedRun.anyStep _ (fun _ _ _ moved => moved) _ _ _ (.start empty_start)
      followed
  have above : 0 ≤ registeredCount s := Finset.sum_nonneg fun _ _ => Int.natCast_nonneg _
  rw [← (always s reached).spans, below] at above
  exact absurd above (by decide)

end Example

end BusRegistration
