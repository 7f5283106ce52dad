import Dahdi.Xpp.CardLedger

/-!
The books over every history of card descriptions, allocations and removals, and exactly which
failures of a creation spoil them.
-/
namespace CardCreation

section Conditions

def portsOf (d : Desc) (type : XpdType) (i : Nat) : Int := min (portsPerSubunit type : Int) (d.ports - i * portsPerSubunit type)

def channelsOf (d : Desc) (type : XpdType) (i : Nat) : Nat := cardChannels type d.unit d.subtype (portsOf d type i).toNat

/-- The slot of the subunit is free and its card_new comes to xpd_alloc. -/
def tried (d : Desc) (type : XpdType) (i : Nat) (a : Answers) (s : State) : Prop :=
  a.recvdDesc = true ∧ xpdByaddr d.unit i s = none ∧ cardAccepts type (portsOf d type i).toNat (toPhone d i) = true

/-- The subunit is there already or all of its creation succeeds. -/
def through (d : Desc) (type : XpdType) (i : Nat) (a : Answers) (s : State) : Prop :=
  a.recvdDesc = true ∧ (xpdByaddr d.unit i s = none →
    cardAccepts type (portsOf d type i).toNat (toPhone d i) = true ∧ allocates (channelsOf d type i) a ∧
      (hasCardProc type = true → a.cardProc = true))

/-- The bus has no echo canceller yet if this is one, and the subunit whose creation fails, if
    there is one, fails cleanly. -/
def cleanCard (d : Desc) (loaded : Bool) (a : Nat → Answers) (s : State) : Prop :=
  ∀ type ∈ xpdType d.type, loaded = true → (definesEchoops type && s.echoops) = false ∧
    ∀ i < subunits d type, (∀ j < i, through d type j (a j) s) → tried d type i (a i) s → cleanAlloc (channelsOf d type i) (a i)

theorem byaddr_none (unit subunit : Nat) (s : State) :
    (xpdByaddr unit subunit s).isNone = true ↔ xpdByaddr unit subunit s = none :=
  Option.isNone_iff_eq_none

instance (unit subunit : Nat) (s : State) : Decidable (xpdByaddr unit subunit s = none) :=
  decidable_of_iff _ (byaddr_none unit subunit s)

instance (d : Desc) (type : XpdType) (i : Nat) (a : Answers) (s : State) : Decidable (tried d type i a s) :=
  inferInstanceAs (Decidable (_ ∧ _ ∧ _))

instance (d : Desc) (type : XpdType) (i : Nat) (a : Answers) (s : State) : Decidable (through d type i a s) :=
  inferInstanceAs (Decidable (_ ∧ (_ → _ ∧ _ ∧ (_ → _))))

instance (d : Desc) (loaded : Bool) (a : Nat → Answers) (s : State) : Decidable (cleanCard d loaded a s) :=
  inferInstanceAs (Decidable (∀ type ∈ xpdType d.type, _ → _ ∧ ∀ i < _, (∀ j < i, _) → _ → _))

/-- A card description that comes in, xpd_alloc with any number of channels, and a card that is
    freed. -/
inductive Op where
  | newCard (d : Desc) (loaded : Bool) (a : Nat → Answers)
  | alloc (num : Nat) (type : XpdType) (channels : Nat) (a : Answers)
  | remove (num : Nat)

def next (s : State) (op : Op) : Option State :=
  match op with
  | .newCard d loaded a => (newCard d loaded a s).map Prod.snd
  | .alloc num type channels a => (xpdAlloc num type channels a s).map Prod.snd
  | .remove num => (s.xpds num).map fun xpd => xpdFree num xpd s

def clean (s : State) (op : Op) : Prop :=
  match op with
  | .newCard d loaded a => cleanCard d loaded a s
  | .alloc _ _ channels a => cleanAlloc channels a
  | .remove _ => True

instance (s : State) (op : Op) : Decidable (clean s op) :=
  match op with
  | .newCard d loaded a => inferInstanceAs (Decidable (cleanCard d loaded a s))
  | .alloc _ _ channels a => inferInstanceAs (Decidable (cleanAlloc channels a))
  | .remove _ => isTrue trivial

structure Start (s : State) : Prop where
  allocated : s.allocated = 0
  freed : s.freed = []
  xpds : ∀ num, s.xpds num = none
  numXpds : s.numXpds = 0
  refs : ∀ type, s.refs type = 0

def sys : GuardedRun.System State Op := ⟨Start, fun s op s' => next s op = some s'⟩

/-- Everything allocated is freed once or held by one card of the table, num_xpds is the number
    of the cards, and the references to a module are as many as the cards of its type. -/
def Sound (s : State) : Prop := Held (fun _ => 0) s

end Conditions

section Creation
variable {held : XpdType → Int} {s s' : State} {num : Nat} {type : XpdType} {a : Answers} {r : Option Xpd}

theorem card_cases {unit subtype ports : Nat} {phone : Bool} (books : Held held s)
    (done : cardNew num type unit subtype ports phone a s = some (r, s')) :
    (∃ xpd, r = some xpd ∧ cardAccepts type ports phone = true ∧ allocates (cardChannels type unit subtype ports) a ∧
        (hasCardProc type = true → a.cardProc = true) ∧ Held held s' ∧ Placed num xpd s s') ∨
      r = none ∧ ¬ (cardAccepts type ports phone = true ∧ allocates (cardChannels type unit subtype ports) a ∧
        (hasCardProc type = true → a.cardProc = true)) ∧
        (Held held s' ↔ (cardAccepts type ports phone = true → cleanAlloc (cardChannels type unit subtype ports) a)) := by
  rw [cardNew] at done
  split at done
  case isTrue refused =>
    cases Option.some.inj done
    have not_accepted : cardAccepts type ports phone ≠ true := by simpa using refused
    exact .inr ⟨rfl, fun all => not_accepted all.1, iff_of_true books fun accepted => absurd accepted not_accepted⟩
  case isFalse taken =>
    have accepted : cardAccepts type ports phone = true := by simpa using taken
    split at done
    · cases done
    case h_2 failed =>
      cases Option.some.inj done
      obtain ⟨xpd, impossible, _⟩ | ⟨_, missing, books_iff⟩ := alloc_cases books failed
      · cases impossible
      · refine .inr ⟨rfl, fun all => missing all.2.1, books_iff.trans ⟨fun clean _ => clean, fun clean => clean accepted⟩⟩
    case h_3 xpd s₁ made =>
      obtain ⟨xpd', same, good, after, placed, _⟩ | ⟨impossible, _⟩ := alloc_cases books made
      swap
      · cases impossible
      cases Option.some.inj same
      split at done
      case isTrue lacking =>
        cases Option.some.inj done
        rw [Bool.and_eq_true, Bool.not_eq_true'] at lacking
        refine .inr ⟨rfl, fun all => ?_, iff_of_true ?_ ?_⟩
        · exact Bool.false_ne_true (lacking.2.symm.trans (all.2.2 lacking.1))
        · apply free_held after
          rw [placed.xpds, Function.update_self]
        · intro _ _ _
          rw [if_pos good.2.2.1]
          exact good.2.2.2
      case isFalse whole =>
        cases Option.some.inj done
        refine .inl ⟨xpd, rfl, accepted, good, fun own => ?_, after, placed⟩
        by_contra no_proc
        apply whole
        rw [own, Bool.true_and, Bool.not_eq_true']
        exact eq_false_of_ne_true no_proc

theorem allocates_clean {channels : Nat} (good : allocates channels a) : cleanAlloc channels a := by
  intro _ _
  rw [if_pos good.2.2.1]
  exact good.2.2.2

theorem ports_le (d : Desc) (type : XpdType) (i : Nat) : (portsOf d type i).toNat ≤ CHANNELS_PERXPD := by
  have most : portsPerSubunit type ≤ CHANNELS_PERXPD := by cases type <;> decide
  rw [portsOf]
  omega

/-- A subunit below the number of subunits has ports. -/
theorem ports_pos {d : Desc} {type : XpdType} {i : Nat} (inside : i < subunits d type) : 0 < portsOf d type i := by
  rw [subunits] at inside
  rw [portsOf]
  cases type <;> · rw [portsPerSubunit] at *; omega

theorem create_cases {d : Desc} {i : Nat} {ret : Int} (books : Held held s) (ports : 0 < portsOf d type i)
    (received : a.recvdDesc = true) (done : createXpd d type i (portsOf d type i).toNat a s = some (ret, s')) :
    through d type i a s ∧ ret = 0 ∧ Held held s' ∧ (∀ k, k ≠ xpdIdx d.unit i → s'.xpds k = s.xpds k) ∨
      ¬ through d type i a s ∧ ret < 0 ∧ (Held held s' ↔ (tried d type i a s → cleanAlloc (channelsOf d type i) a)) := by
  rw [createXpd] at done
  split at done
  case isTrue there =>
    cases Option.some.inj done
    refine .inl ⟨⟨received, fun free => ?_⟩, rfl, books, fun _ _ => rfl⟩
    rw [free] at there
    cases there
  case isFalse gone =>
    have free : xpdByaddr d.unit i s = none := by simpa using gone
    have legal : ¬ ((portsOf d type i).toNat = 0 ∨ CHANNELS_PERXPD < (portsOf d type i).toNat) := by
      have most := ports_le d type i
      omega
    rw [if_neg legal] at done
    split at done
    · cases done
    case h_2 failed =>
      cases Option.some.inj done
      obtain ⟨xpd, impossible, _⟩ | ⟨_, missing, books_iff⟩ := card_cases books failed
      · cases impossible
      refine .inr ⟨fun all => missing (all.2 free), by decide, books_iff.trans ?_⟩
      exact ⟨fun clean both => clean both.2.2, fun clean accepted => clean ⟨received, free, accepted⟩⟩
    case h_3 made =>
      cases Option.some.inj done
      obtain ⟨xpd, _, accepted, good, own, after, placed⟩ | ⟨impossible, _⟩ := card_cases books made
      swap
      · cases impossible
      refine .inl ⟨⟨received, fun _ => ⟨accepted, good, own⟩⟩, rfl, after, fun k elsewhere => ?_⟩
      rw [placed.xpds, Function.update_of_ne elsewhere]

/-- Whether a subunit gets through depends on its own slot. -/
theorem same_byaddr {d : Desc} {i k : Nat} (after : i < k)
    (same : ∀ j, j ≠ xpdIdx d.unit i → s'.xpds j = s.xpds j) : xpdByaddr d.unit k s' = xpdByaddr d.unit k s := by
  have apart : xpdIdx d.unit k ≠ xpdIdx d.unit i := by
    rw [xpdIdx, xpdIdx]
    omega
  rw [xpdByaddr, xpdByaddr, same _ apart]

theorem same_through {d : Desc} {k : Nat} (same : xpdByaddr d.unit k s' = xpdByaddr d.unit k s) :
    through d type k a s' ↔ through d type k a s := by
  rw [through, through, same]

theorem same_tried {d : Desc} {k : Nat} (same : xpdByaddr d.unit k s' = xpdByaddr d.unit k s) :
    tried d type k a s' ↔ tried d type k a s := by
  rw [tried, tried, same]

/-- From subunit i on, those that are come to fail cleanly. -/
def cleanFrom (d : Desc) (type : XpdType) (answers : Nat → Answers) (i : Nat) (s : State) : Prop :=
  ∀ k, i ≤ k → k < subunits d type → (∀ j, i ≤ j → j < k → through d type j (answers j) s) →
    tried d type k (answers k) s → cleanAlloc (channelsOf d type k) (answers k)

theorem clean_stopped {d : Desc} {answers : Nat → Answers} {i : Nat} (inside : i < subunits d type)
    (stopped : ¬ through d type i (answers i) s) :
    cleanFrom d type answers i s ↔ (tried d type i (answers i) s → cleanAlloc (channelsOf d type i) (answers i)) := by
  constructor
  · intro all
    exact all i le_rfl inside fun j low high => absurd low (not_le.mpr high)
  · intro here k low _ before
    by_cases same : k = i
    · rwa [same]
    · exact absurd (before i le_rfl (by omega)) stopped

theorem clean_through {d : Desc} {answers : Nat → Answers} {i : Nat} (passed : through d type i (answers i) s)
    (same : ∀ k, i < k → xpdByaddr d.unit k s' = xpdByaddr d.unit k s) :
    cleanFrom d type answers i s ↔ cleanFrom d type answers (i + 1) s' := by
  constructor
  · intro all k low inside before attempted
    apply all k (by omega) inside
    · intro j above below
      by_cases head : j = i
      · rwa [head]
      · exact (same_through (same j (by omega))).mp (before j (by omega) below)
    · exact (same_tried (same k (by omega))).mp attempted
  · intro all k low inside before attempted
    by_cases head : k = i
    · rw [head] at attempted ⊢
      exact allocates_clean (passed.2 attempted.2.1).2.1
    · apply all k (by omega) inside
      · intro j above below
        exact (same_through (same j (by omega))).mpr (before j (by omega) below)
      · exact (same_tried (same k (by omega))).mpr attempted

theorem loop_held {d : Desc} {answers : Nat → Answers} {more i : Nat} {ret : Int} (books : Held held s)
    (to_go : i + more = subunits d type)
    (done : subunitLoop d type answers more i (d.ports - i * portsPerSubunit type) s = some (ret, s')) :
    Held held s' ↔ cleanFrom d type answers i s := by
  induction more generalizing i s with
  | zero =>
    cases Option.some.inj done
    refine iff_of_true books ?_
    intro k low inside
    omega
  | succ more ih =>
    have inside : i < subunits d type := by omega
    have ports := ports_pos inside
    rw [subunitLoop, ← portsOf] at done
    rw [if_neg (not_le.mpr ports)] at done
    split at done
    case isTrue elsewhere =>
      cases Option.some.inj done
      have left : (answers i).recvdDesc ≠ true := by simpa using elsewhere
      rw [clean_stopped inside fun passed => left passed.1]
      exact iff_of_true books fun attempted => absurd attempted.1 left
    case isFalse here =>
      have received : (answers i).recvdDesc = true := by simpa using here
      split at done
      · cases done
      case h_2 created =>
        obtain ⟨passed, zero, after, same⟩ | ⟨stopped, negative, books_iff⟩ := create_cases books ports received created
        · rw [zero, if_neg (lt_irrefl 0)] at done
          have rest : (d.ports : Int) - i * portsPerSubunit type - portsPerSubunit type =
              d.ports - (i + 1 : Nat) * portsPerSubunit type := by
            push_cast
            ring
          rw [rest] at done
          rw [clean_through passed fun k later => same_byaddr later same]
          exact ih after (by omega) done
        · rw [if_pos negative] at done
          cases Option.some.inj done
          rw [clean_stopped inside stopped]
          exact books_iff

theorem new_held {d : Desc} {loaded : Bool} {answers : Nat → Answers} {ret : Int} (books : Held held s)
    (done : newCard d loaded answers s = some (ret, s')) : Held held s' ↔ cleanCard d loaded answers s := by
  rw [newCard] at done
  rw [cleanCard]
  split at done
  case h_1 unknown =>
    cases Option.some.inj done
    refine iff_of_true books fun type known => ?_
    rw [unknown] at known
    cases known
  case h_2 type known =>
    dsimp only at done
    split at done
    case isTrue missing =>
      cases Option.some.inj done
      refine iff_of_true books fun _ _ there => ?_
      rw [there] at missing
      cases missing
    case isFalse given =>
      have there : loaded = true := by simpa using given
      split at done
      case isTrue second =>
        cases Option.some.inj done
        refine iff_of_false (leaked_spoils type books) fun condition => ?_
        exact Bool.false_ne_true ((condition type known there).1.symm.trans second)
      case isFalse first =>
        split at done
        · cases done
        case h_2 looped =>
          cases Option.some.inj done
          have taken := (echoops_held ((xprotoGet type s).echoops || definesEchoops type)).mpr (get_held type books)
          have start : (d.ports : Int) = d.ports - (0 : Nat) * portsPerSubunit type := by
            push_cast
            ring
          rw [start] at looped
          rw [← put_held, loop_held taken (Nat.zero_add _) looped]
          constructor
          · intro all other same _
            cases Option.some.inj (known.symm.trans same)
            refine ⟨eq_false_of_ne_true first, fun i inside before attempted => ?_⟩
            exact all i (Nat.zero_le i) inside (fun j _ below => before j below) attempted
          · intro condition i _ inside before attempted
            exact (condition type known there).2 i inside (fun j below => before j (Nat.zero_le j) below) attempted

theorem next_sound {op : Op} (sound : Sound s) (moved : next s op = some s') : Sound s' ↔ clean s op := by
  cases op with
  | newCard d loaded answers =>
    obtain ⟨⟨ret, s₁⟩, done, rfl⟩ := Option.map_eq_some_iff.mp moved
    exact new_held sound done
  | alloc num type channels a =>
    obtain ⟨⟨r, s₁⟩, done, rfl⟩ := Option.map_eq_some_iff.mp moved
    obtain ⟨xpd, _, good, after, _⟩ | ⟨_, _, books_iff⟩ := alloc_cases sound done
    · exact iff_of_true after (allocates_clean good)
    · exact books_iff
  | remove num =>
    obtain ⟨xpd, card, rfl⟩ := Option.map_eq_some_iff.mp moved
    exact iff_of_true (free_held sound card) trivial

theorem start_sound (start : Start s) : Sound s := by
  have empty : ∀ num < MAX_XPDS, s.xpds num = none := fun num _ => start.xpds num
  refine ⟨?_, ?_, ?_, fun num _ => start.xpds num⟩
  · rw [SlotLedger.total_empty empty, start.freed, start.allocated]
    rfl
  · rw [SlotLedger.total_empty empty, start.numXpds]
  · intro type
    rw [SlotLedger.total_empty empty, start.refs]
    rfl

end Creation

section Results

/-- Every step of a run leaves the books in order exactly when no channel but the first fails to
    be allocated, no proc entry fails to be made once the channels are there, and no second echo
    canceller comes. -/
theorem creation_sound {s : State} (reached : GuardedRun.Reach sys clean s) :
    Sound s ∧ ∀ op s', next s op = some s' → (Sound s' ↔ clean s op) := by
  have sound : Sound s :=
    GuardedRun.invariant_run (fun _ => start_sound)
      (fun s op s' before allowed moved => (next_sound before (show next s op = some s' from moved)).mpr allowed) reached
  exact ⟨sound, fun op s' moved => next_sound sound moved⟩

def startState : State := ⟨0, [], fun _ => none, 0, fun _ => 0, false⟩

theorem startState_start : Start startState := ⟨rfl, rfl, fun _ => rfl, rfl, fun _ => rfl⟩

def noFailure : Answers := ⟨true, true, fun _ => true, true, true, true⟩

/-- The echo state of the first channel cannot be allocated. -/
def lacksEc : Answers := { noFailure with channel := fun j => j ≠ 1 }

def lacksProc : Answers := { noFailure with procSummary := false }

/-- An FXS module comes, a BRI one whose second card lacks its proc entries, and the first card is
    removed. -/
theorem creation_sound_three : ∃ s : State, s.numXpds = 1 ∧ Sound s ∧
    ∀ op s', next s op = some s' → (Sound s' ↔ clean s op) := by
  have view : (GuardedRun.follow next clean
      [.newCard ⟨0, 1, 0, 8, 255⟩ true (fun _ => noFailure),
        .newCard ⟨1, 3, 0, 2, 3⟩ true (fun i => { noFailure with cardProc := i = 0 }), .remove 0]
      startState).map (fun s => s.numXpds) = some 1 := by
    decide +kernel
  obtain ⟨s, followed, count⟩ := Option.map_eq_some_iff.mp view
  exact ⟨s, count, creation_sound (GuardedRun.follow_reach (fun _ _ _ moved => moved) (.start startState_start) followed)⟩

/-- The only channel allocated is freed twice; a card is freed that the table keeps; and the
    second of two echo canceller modules leaves a reference behind. -/
theorem failures_unsound :
    (∃ s, next startState (.newCard ⟨0, 1, 0, 8, 255⟩ true fun _ => lacksEc) = some s ∧
        s.freed = [1, 1, 0] ∧ ¬ Sound s) ∧
      (∃ s, next startState (.alloc 0 .fxs 0 lacksProc) = some s ∧
        s.freed = [0] ∧ (s.xpds 0).map (fun xpd => xpd.object) = some 0 ∧ s.numXpds = 1 ∧ ¬ Sound s) ∧
      ∃ s s', next startState (.newCard ⟨0, 5, 0, 1, 0⟩ true fun _ => noFailure) = some s ∧ Sound s ∧
        next s (.newCard ⟨1, 5, 0, 1, 0⟩ true fun _ => noFailure) = some s' ∧
        s'.refs .echo = 2 ∧ s'.numXpds = 1 ∧ ¬ Sound s' := by
  have sound := start_sound startState_start
  refine ⟨?_, ?_, ?_⟩
  · have view : (next startState (.newCard ⟨0, 1, 0, 8, 255⟩ true fun _ => lacksEc)).map (fun s => s.freed) =
        some [1, 1, 0] := by
      decide +kernel
    obtain ⟨s, moved, freed⟩ := Option.map_eq_some_iff.mp view
    exact ⟨s, moved, freed, (next_sound sound moved).not.mpr (by decide +kernel)⟩
  · have view : (next startState (.alloc 0 .fxs 0 lacksProc)).map
        (fun s => (s.freed, (s.xpds 0).map (fun xpd => xpd.object), s.numXpds)) = some ([0], some 0, 1) := by
      decide +kernel
    obtain ⟨s, moved, seen⟩ := Option.map_eq_some_iff.mp view
    rw [Prod.mk.injEq, Prod.mk.injEq] at seen
    exact ⟨s, moved, seen.1, seen.2.1, seen.2.2, (next_sound sound moved).not.mpr (by decide +kernel)⟩
  · have view : ((next startState (.newCard ⟨0, 5, 0, 1, 0⟩ true fun _ => noFailure)).bind fun s =>
        (next s (.newCard ⟨1, 5, 0, 1, 0⟩ true fun _ => noFailure)).map fun s' =>
          (s.echoops, s'.refs .echo, s'.numXpds)) = some (true, 2, 1) := by
      decide +kernel
    obtain ⟨s, first, later⟩ := Option.bind_eq_some_iff.mp view
    obtain ⟨s', second, seen⟩ := Option.map_eq_some_iff.mp later
    rw [Prod.mk.injEq, Prod.mk.injEq] at seen
    have before : Sound s := (next_sound sound first).mpr (by decide +kernel)
    refine ⟨s, s', first, before, second, seen.2.1, seen.2.2, (next_sound before second).not.mpr fun condition => ?_⟩
    have alone := (condition .echo (by decide) rfl).1
    rw [seen.1] at alone
    cases alone

end Results

end CardCreation
