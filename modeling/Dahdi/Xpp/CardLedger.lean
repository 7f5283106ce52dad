import Dahdi.Xpp.CardCreation

/-!
The ledger of the cards of an Astribank: everything allocated is freed once or held by one
card of the table, and the references to a module are those held by a caller and one for each
card of its type. xpd_alloc and the card_new functions keep the books at every point where an
allocation or a proc entry can fail.
-/
namespace CardCreation
open SlotLedger (total total_put total_take)

section Ledger

/-- What a card holds: itself and its channels. -/
def objects (xpd : Xpd) : Multiset Nat := xpd.object ::ₘ (cleanupList xpd.phonedev : Multiset Nat)

def ofType (type : XpdType) (xpd : Xpd) : Int := if xpd.type = type then 1 else 0

def countOf (_ : Xpd) : Int := 1

/-- The books balance, with so many references in the hands of the callers. -/
structure Held (held : XpdType → Int) (s : State) : Prop where
  memory : (s.freed : Multiset Nat) + total MAX_XPDS objects s.xpds = Multiset.range s.allocated
  count : s.numXpds = total MAX_XPDS countOf s.xpds
  refs : ∀ type, s.refs type = held type + total MAX_XPDS (ofType type) s.xpds
  table : ∀ num, MAX_XPDS ≤ num → s.xpds num = none

/-- All channels and their echo cancellers are allocated. -/
def channelsGood (channels : Nat) (a : Answers) : Prop := ∀ j < 2 * channels, a.channel j = true

instance (channels : Nat) (a : Answers) : Decidable (channelsGood channels a) :=
  inferInstanceAs (Decidable (∀ j < 2 * channels, a.channel j = true))

def allocates (channels : Nat) (a : Answers) : Prop :=
  channels ≤ CHANNELS_PERXPD ∧ a.xpd = true ∧ channelsGood channels a ∧ a.procDir = true ∧ a.procSummary = true

/-- If a channel cannot be allocated it is the first one, and if all are then the proc entries
    are made too. -/
def cleanAlloc (channels : Nat) (a : Answers) : Prop :=
  channels ≤ CHANNELS_PERXPD → a.xpd = true →
    if channelsGood channels a then a.procDir = true ∧ a.procSummary = true else a.channel 0 = false

instance (channels : Nat) (a : Answers) : Decidable (allocates channels a) :=
  inferInstanceAs (Decidable (_ ∧ _))

instance (channels : Nat) (a : Answers) : Decidable (cleanAlloc channels a) :=
  inferInstanceAs (Decidable (_ → _))

end Ledger

section Books
variable {held : XpdType → Int} {s s' : State}

/-- Nothing is freed twice. -/
theorem freed_nodup (books : Held held s) : s.freed.Nodup := by
  have all := Multiset.nodup_range s.allocated
  rw [← books.memory] at all
  exact Multiset.coe_nodup.mp (Multiset.nodup_add.mp all).1

/-- A card of the table is not freed, nor are its channels. -/
theorem held_not_freed (books : Held held s) {num : Nat} {xpd : Xpd} (card : s.xpds num = some xpd) :
    ∀ o ∈ objects xpd, o ∉ s.freed := by
  intro o mine freed
  have inside : num < MAX_XPDS := by
    by_contra beyond
    rw [books.table num (not_lt.mp beyond)] at card
    cases card
  have all := Multiset.nodup_range s.allocated
  rw [← books.memory, SlotLedger.total_split objects s.xpds inside, card] at all
  exact Multiset.disjoint_left.mp (Multiset.nodup_add.mp all).2.2 (Multiset.mem_coe.mpr freed)
    (Multiset.mem_add.mpr (.inl mine))

/-- What is freed twice, or freed while a card of the table holds it, spoils the books. -/
theorem twice_spoils {o : Nat} (inside : 2 ≤ ((s.freed : Multiset Nat) + total MAX_XPDS objects s.xpds).count o) :
    ¬ Held held s := by
  intro books
  rw [books.memory] at inside
  have once := Multiset.nodup_iff_count_le_one.mp (Multiset.nodup_range s.allocated) o
  omega

theorem range_more (n c : Nat) : Multiset.range (n + c) = Multiset.range n + (List.range' n c : Multiset Nat) := by
  rw [← Multiset.coe_range, ← Multiset.coe_range, Multiset.coe_add, List.range_eq_range', List.range_eq_range',
    ← List.range'_append_1, Nat.zero_add]

theorem refs_get (type : XpdType) (s : State) :
    (xprotoGet type s).refs = Function.update s.refs type (s.refs type + 1) :=
  rfl

theorem xpds_get (type : XpdType) (s : State) : (xprotoGet type s).xpds = s.xpds :=
  rfl

theorem refs_put (type : XpdType) (s : State) :
    (xprotoPut type s).refs = Function.update s.refs type (s.refs type - 1) :=
  rfl

theorem xpds_put (type : XpdType) (s : State) : (xprotoPut type s).xpds = s.xpds :=
  rfl

theorem get_held (type : XpdType) (books : Held held s) :
    Held (Function.update held type (held type + 1)) (xprotoGet type s) := by
  refine ⟨books.memory, books.count, ?_, books.table⟩
  intro other
  by_cases same : other = type
  · rw [same, refs_get, xpds_get, Function.update_self, Function.update_self, books.refs]
    ring
  · rw [refs_get, xpds_get, Function.update_of_ne same, Function.update_of_ne same, books.refs]

theorem put_held (type : XpdType) :
    Held (Function.update held type (held type + 1)) s ↔ Held held (xprotoPut type s) := by
  constructor
  · intro books
    refine ⟨books.memory, books.count, ?_, books.table⟩
    intro other
    have before := books.refs other
    by_cases same : other = type
    · rw [same, Function.update_self] at before
      rw [same, refs_put, xpds_put, Function.update_self, before]
      ring
    · rw [Function.update_of_ne same] at before
      rw [refs_put, xpds_put, Function.update_of_ne same, before]
  · intro books
    refine ⟨books.memory, books.count, ?_, books.table⟩
    intro other
    have after := books.refs other
    by_cases same : other = type
    · rw [same, refs_put, xpds_put, Function.update_self] at after
      rw [same, Function.update_self]
      linarith
    · rw [refs_put, xpds_put, Function.update_of_ne same] at after
      rw [Function.update_of_ne same, after]

theorem echoops_held (echoops : Bool) : Held held { s with echoops := echoops } ↔ Held held s :=
  ⟨fun books => ⟨books.memory, books.count, books.refs, books.table⟩,
    fun books => ⟨books.memory, books.count, books.refs, books.table⟩⟩

/-- A reference taken and kept without a card spoils the books. -/
theorem leaked_spoils (type : XpdType) (books : Held held s) : ¬ Held held (xprotoGet type s) := by
  intro after
  have leaked := after.refs type
  rw [refs_get, xpds_get, Function.update_self, books.refs] at leaked
  omega

theorem free_held {num : Nat} {xpd : Xpd} (books : Held held s) (card : s.xpds num = some xpd) :
    Held held (xpdFree num xpd s) := by
  have inside : num < MAX_XPDS := by
    by_contra beyond
    rw [books.table num (not_lt.mp beyond)] at card
    cases card
  refine ⟨?_, ?_, ?_, ?_⟩
  · have before := books.memory
    rw [← total_take objects inside card] at before
    rw [xpdFree, kfree, phonedevCleanup, kfree, xbusXpdUnbind, xprotoPut, ← before]
    rw [← Multiset.coe_add, ← Multiset.coe_add, Multiset.coe_singleton, objects, ← Multiset.singleton_add]
    abel
  · have before := books.count
    rw [← total_take countOf inside card, countOf] at before
    rw [xpdFree, kfree, phonedevCleanup, kfree, xbusXpdUnbind, xprotoPut]
    dsimp only
    rw [before]
    ring
  · intro type
    have before := books.refs type
    rw [← total_take (ofType type) inside card, ofType] at before
    rw [xpdFree, kfree, phonedevCleanup, kfree, xbusXpdUnbind, xprotoPut]
    dsimp only
    by_cases same : type = xpd.type
    · rw [if_pos same.symm] at before
      rw [same, Function.update_self, ← same, before]
      ring
    · rw [if_neg (Ne.symm same)] at before
      rw [Function.update_of_ne same, before]
      ring
  · intro other beyond
    have ne : other ≠ num := by omega
    rw [xpdFree, kfree, phonedevCleanup, kfree, xbusXpdUnbind, xprotoPut]
    dsimp only
    rw [Function.update_of_ne ne]
    exact books.table other beyond

end Books

section Channels
variable {channel : Nat → Bool} {s s' : State}

def listed (p : Phonedev) (k : Nat) : List Nat :=
  (List.range k).flatMap fun x => (p.chans x).toList ++ (p.ec x).toList

/-- Nothing is allocated from channel x on. -/
def emptyFrom (x : Nat) (p : Phonedev) : Prop := ∀ y, x ≤ y → p.chans y = none ∧ p.ec y = none

theorem listed_succ (p : Phonedev) (k : Nat) :
    listed p (k + 1) = listed p k ++ ((p.chans k).toList ++ (p.ec k).toList) := by
  rw [listed, listed, List.range_succ, List.flatMap_append, List.flatMap_singleton]

theorem listed_congr {p q : Phonedev} {k : Nat} (same : ∀ y < k, q.chans y = p.chans y ∧ q.ec y = p.ec y) :
    listed q k = listed p k := by
  apply List.flatMap_congr
  intro y member
  have both := same y (List.mem_range.mp member)
  rw [both.1, both.2]

theorem listed_rest {p : Phonedev} {x : Nat} (empty : emptyFrom x p) (more : Nat) : listed p (x + more) = listed p x := by
  induction more with
  | zero => rfl
  | succ more ih =>
    have none_there := empty (x + more) (Nat.le_add_right x more)
    rw [← Nat.add_assoc, listed_succ, ih, none_there.1, none_there.2]
    exact List.append_nil _

/-- So many objects are allocated, the next numbers, and the channels hold them; all are when
    every allocation goes through, and none only when the first fails. -/
structure Filled (channel : Nat → Bool) (more x : Nat) (p : Phonedev) (s : State) (r : Bool × Phonedev × State)
    (c : Nat) : Prop where
  state : r.2.2 = { s with allocated := s.allocated + c }
  objects : listed r.2.1 (x + more) = listed p x ++ List.range' s.allocated c
  channels : r.2.1.channels = p.channels
  whole : r.1 = true ↔ ∀ j, 2 * x ≤ j → j < 2 * (x + more) → channel j = true
  first : more ≠ 0 → (c = 0 ↔ channel (2 * x) = false)

theorem filled (channel : Nat → Bool) (more x : Nat) (p : Phonedev) (s : State) (empty : emptyFrom x p) :
    ∃ c, Filled channel more x p s (phonedevAlloc channel more x p s) c := by
  induction more generalizing x p s with
  | zero =>
    refine ⟨0, rfl, (List.append_nil _).symm, rfl, iff_of_true rfl ?_, fun impossible => absurd rfl impossible⟩
    intro j low high
    omega
  | succ more ih =>
    cases one : channel (2 * x) with
    | false =>
      have result : phonedevAlloc channel (more + 1) x p s = (false, p, s) := by
        rw [phonedevAlloc, if_neg (by simp [one])]
      rw [result]
      refine ⟨0, rfl, ?_, rfl, iff_of_false Bool.false_ne_true ?_, fun _ => iff_of_true rfl one⟩
      · rw [listed_rest empty]
        exact (List.append_nil _).symm
      · intro every
        exact Bool.false_ne_true (one.symm.trans (every (2 * x) le_rfl (by omega)))
    | true =>
      let q : Phonedev := { p with chans := Function.update p.chans x (some s.allocated) }
      have unlisted : listed q x = listed p x := by
        apply listed_congr
        intro y below
        exact ⟨Function.update_of_ne (Nat.ne_of_lt below) _ _, rfl⟩
      cases two : channel (2 * x + 1) with
      | false =>
        have result : phonedevAlloc channel (more + 1) x p s =
            (false, q, { s with allocated := s.allocated + 1 }) := by
          rw [phonedevAlloc, if_pos one, if_neg (by simp [two])]
        rw [result]
        refine ⟨1, rfl, ?_, rfl, iff_of_false Bool.false_ne_true ?_, fun _ => iff_of_false Nat.one_ne_zero (by simp [one])⟩
        · have later : emptyFrom (x + 1) q := by
            intro y above
            exact ⟨(Function.update_of_ne (by omega) _ _).trans (empty y (by omega)).1, (empty y (by omega)).2⟩
          have last : q.chans x = some s.allocated := Function.update_self x _ _
          rw [show x + (more + 1) = x + 1 + more by omega, listed_rest later, listed_succ, unlisted, last,
            (empty x le_rfl).2]
          rfl
        · intro every
          exact Bool.false_ne_true (two.symm.trans (every (2 * x + 1) (by omega) (by omega)))
      | true =>
        let q' : Phonedev := { q with ec := Function.update p.ec x (some (s.allocated + 1)) }
        have later : emptyFrom (x + 1) q' := by
          intro y above
          exact ⟨(Function.update_of_ne (by omega) _ _).trans (empty y (by omega)).1,
            (Function.update_of_ne (by omega) _ _).trans (empty y (by omega)).2⟩
        have result : phonedevAlloc channel (more + 1) x p s =
            phonedevAlloc channel more (x + 1) q' { s with allocated := s.allocated + 1 + 1 } := by
          rw [phonedevAlloc, if_pos one, if_pos two]
        obtain ⟨c, rest⟩ := ih (x + 1) q' { s with allocated := s.allocated + 1 + 1 } later
        rw [result]
        refine ⟨c + 2, ?_, ?_, rest.channels, ?_, fun _ => iff_of_false (by omega) (by simp [one])⟩
        · rw [rest.state]
          congr 1
          dsimp only
          omega
        · have both : listed q' (x + 1) = listed p x ++ [s.allocated, s.allocated + 1] := by
            have same : listed q' x = listed p x := by
              apply listed_congr
              intro y below
              exact ⟨Function.update_of_ne (Nat.ne_of_lt below) _ _, Function.update_of_ne (Nat.ne_of_lt below) _ _⟩
            have chan : q'.chans x = some s.allocated := Function.update_self x _ _
            have ec : q'.ec x = some (s.allocated + 1) := Function.update_self x _ _
            rw [listed_succ, same, chan, ec]
            rfl
          rw [show x + (more + 1) = x + 1 + more by omega, rest.objects, both, List.append_assoc]
          rfl
        · rw [rest.whole]
          constructor
          · intro every j low high
            by_cases head : j = 2 * x
            · rw [head, one]
            · by_cases next : j = 2 * x + 1
              · rw [next, two]
              · exact every j (by omega) (by omega)
          · intro every j low high
            exact every j (by omega) (by omega)

/-- phonedev_init allocates so many objects, which the phonedev holds, and after a failure it has
    freed them. -/
theorem init_cases (channels : Nat) (channel : Nat → Bool) (s : State) :
    ∃ c p, cleanupList p = List.range' s.allocated c ∧
      ((∀ j < 2 * channels, channel j = true) ∧
          phonedevInit channels channel s = (true, p, { s with allocated := s.allocated + c }) ∨
        ¬ (∀ j < 2 * channels, channel j = true) ∧ (c = 0 ↔ channel 0 = false) ∧
          phonedevInit channels channel s =
            (false, p, kfree (List.range' s.allocated c) { s with allocated := s.allocated + c })) := by
  obtain ⟨c, held⟩ := filled channel channels 0 ⟨channels, fun _ => none, fun _ => none⟩ s (fun _ _ => ⟨rfl, rfl⟩)
  rcases result : phonedevAlloc channel channels 0 ⟨channels, fun _ => none, fun _ => none⟩ s with ⟨ok, p, s'⟩
  rw [result] at held
  have list : cleanupList p = List.range' s.allocated c := by
    have all := held.objects
    rw [Nat.zero_add] at all
    rw [cleanupList, show p.channels = channels from held.channels]
    exact all
  refine ⟨c, p, list, ?_⟩
  have state : s' = { s with allocated := s.allocated + c } := held.state
  have whole : ok = true ↔ ∀ j < 2 * channels, channel j = true := by
    refine held.whole.trans ⟨fun every j below => every j (Nat.zero_le _) (by omega), fun every j _ below => every j (by omega)⟩
  cases ok with
  | true =>
    refine .inl ⟨whole.mp rfl, ?_⟩
    rw [phonedevInit, result, state]
  | false =>
    have missing : ¬ ∀ j < 2 * channels, channel j = true := fun every => Bool.false_ne_true (whole.mpr every)
    have some_channels : channels ≠ 0 := by
      intro zero
      apply missing
      intro j below
      omega
    refine .inr ⟨missing, held.first some_channels, ?_⟩
    rw [phonedevInit, result, state]
    dsimp only
    rw [phonedevCleanup, list]

end Channels

section Cards
variable {held : XpdType → Int} {s s' : State} {num channels : Nat} {type : XpdType} {a : Answers} {r : Option Xpd}

/-- The card is in its slot, which was free, and all others are as they were. -/
structure Placed (num : Nat) (xpd : Xpd) (s s' : State) : Prop where
  free : s.xpds num = none
  xpds : s'.xpds = Function.update s.xpds num (some xpd)

/-- New objects that a new card holds. -/
theorem placed_memory {freed : List Nat} {n c : Nat} {xpds : Nat → Option Xpd} {xpd : Xpd}
    (memory : (freed : Multiset Nat) + total MAX_XPDS objects xpds = Multiset.range n)
    (object : xpd.object = n) (list : cleanupList xpd.phonedev = List.range' (n + 1) c) (inside : num < MAX_XPDS)
    (free : xpds num = none) :
    (freed : Multiset Nat) + total MAX_XPDS objects (Function.update xpds num (some xpd)) =
      Multiset.range (n + 1 + c) := by
  rw [total_put objects xpd inside free, objects, object, list, range_more, Multiset.range_succ, ← memory,
    ← Multiset.singleton_add, ← Multiset.singleton_add]
  abel

/-- New objects that are freed. -/
theorem freed_memory {freed : List Nat} {n c : Nat} {xpds : Nat → Option Xpd}
    (memory : (freed : Multiset Nat) + total MAX_XPDS objects xpds = Multiset.range n) :
    ((freed ++ List.range' n c : List Nat) : Multiset Nat) + total MAX_XPDS objects xpds = Multiset.range (n + c) := by
  rw [range_more, ← memory, ← Multiset.coe_add]
  abel

theorem bind_some {xpd : Xpd} (bound : xbusXpdBind num xpd s = some s') :
    num < MAX_XPDS ∧ s.xpds num = none ∧
      s' = { s with xpds := Function.update s.xpds num (some xpd), numXpds := s.numXpds + 1 } := by
  rw [xbusXpdBind] at bound
  split at bound
  · cases bound
  case isFalse inside =>
    split at bound
    · cases bound
    case isFalse free => exact ⟨not_le.mp inside, by simpa using free, (Option.some.inj bound).symm⟩

theorem placed_held {c : Nat} {xpd : Xpd} (books : Held held s) (object : xpd.object = s.allocated)
    (list : cleanupList xpd.phonedev = List.range' (s.allocated + 1) c) (inside : num < MAX_XPDS) (free : s.xpds num = none) :
    Held held (xprotoGet xpd.type { s with
      allocated := s.allocated + 1 + c, xpds := Function.update s.xpds num (some xpd), numXpds := s.numXpds + 1 }) := by
  refine ⟨placed_memory books.memory object list inside free, ?_, ?_, ?_⟩
  · rw [xpds_get, total_put countOf xpd inside free, ← books.count, countOf, xprotoGet]
    ring
  · intro type
    rw [xpds_get, total_put (ofType type) xpd inside free, refs_get, ofType]
    by_cases same : xpd.type = type
    · rw [if_pos same, ← same, Function.update_self, books.refs]
      ring
    · rw [if_neg same, Function.update_of_ne (Ne.symm same), books.refs]
      ring
  · intro other beyond
    have elsewhere : other ≠ num := by omega
    exact (Function.update_of_ne elsewhere _ _).trans (books.table other beyond)

/-- A card that xpd_alloc frees stays in the table once it is there. -/
theorem placed_spoils {xpd : Xpd} (here : s.xpds num = some xpd) :
    ¬ Held held (allocErr xpd s) := by
  intro books
  refine held_not_freed books here xpd.object (Multiset.mem_cons_self _ _) ?_
  exact List.mem_append_right _ (List.mem_singleton.mpr rfl)

/-- The channels that phonedev_init has freed are freed again by xpd_alloc. -/
theorem again_spoils {freed : List Nat} {xpd : Xpd} {o : Nat} (first : o ∈ freed) (list : o ∈ cleanupList xpd.phonedev) :
    ¬ Held held (allocErr xpd (kfree freed s)) := by
  intro books
  have once := freed_nodup books
  rw [allocErr, kfree, phonedevCleanup, kfree, kfree] at once
  dsimp only at once
  rw [List.append_assoc, List.append_assoc] at once
  have apart := (List.nodup_append.mp (List.nodup_append.mp once).2.1).2.2
  exact apart o first o (List.mem_append_left _ list) rfl

/-- xpd_alloc refuses, has a card in place with everything allocated, or frees what it
    allocated. -/
theorem alloc_cases (books : Held held s) (done : xpdAlloc num type channels a s = some (r, s')) :
    (∃ xpd, r = some xpd ∧ allocates channels a ∧ Held held s' ∧ Placed num xpd s s' ∧ xpd.type = type) ∨
      r = none ∧ ¬ allocates channels a ∧ (Held held s' ↔ cleanAlloc channels a) := by
  rw [xpdAlloc] at done
  split at done
  case isTrue beyond =>
    cases Option.some.inj done
    refine .inr ⟨rfl, fun all => absurd all.1 (not_le.mpr beyond), iff_of_true books ?_⟩
    intro inside
    exact absurd inside (not_le.mpr beyond)
  case isFalse inside =>
    split at done
    case isTrue nomem =>
      cases Option.some.inj done
      have failed : a.xpd ≠ true := by simpa using nomem
      refine .inr ⟨rfl, fun all => failed all.2.1, iff_of_true books ?_⟩
      intro _ there
      exact absurd there failed
    case isFalse given =>
      have there : a.xpd = true := by simpa using given
      have fits : channels ≤ CHANNELS_PERXPD := not_lt.mp inside
      obtain ⟨c, p, list, ⟨good, result⟩ | ⟨missing, first, result⟩⟩ :=
        init_cases channels a.channel { s with allocated := s.allocated + 1 }
      · rw [result] at done
        dsimp only at done list
        split at done
        · cases done
        case h_2 bound =>
          obtain ⟨slot, free, after⟩ := bind_some bound
          dsimp only at free after
          split at done
          case isTrue made =>
            rw [Bool.and_eq_true] at made
            cases Option.some.inj done
            refine .inl ⟨_, rfl, ⟨fits, there, good, made⟩, ?_, ⟨free, ?_⟩, rfl⟩
            · rw [after]
              exact placed_held books rfl list slot free
            · rw [xpds_get, after]
          case isFalse refused =>
            cases Option.some.inj done
            refine .inr ⟨rfl, fun all => refused (Bool.and_eq_true_iff.mpr all.2.2.2), iff_of_false ?_ ?_⟩
            · apply placed_spoils
              rw [after]
              exact Function.update_self num _ _
            · intro clean
              have made := clean fits there
              rw [if_pos (show channelsGood channels a from good)] at made
              exact refused (Bool.and_eq_true_iff.mpr made)
      · rw [result] at done
        dsimp only at done list
        cases Option.some.inj done
        have clean_iff : cleanAlloc channels a ↔ c = 0 := by
          refine Iff.trans ?_ first.symm
          refine ⟨fun clean => ?_, fun failed _ _ => ?_⟩
          · have told := clean fits there
            rwa [if_neg (show ¬ channelsGood channels a from missing)] at told
          · rwa [if_neg (show ¬ channelsGood channels a from missing)]
        refine .inr ⟨rfl, fun all => missing all.2.2.1, ?_⟩
        rw [clean_iff]
        cases c with
        | zero =>
          refine iff_of_true ⟨?_, books.count, books.refs, books.table⟩ rfl
          rw [allocErr, kfree, phonedevCleanup, kfree, kfree, list]
          dsimp only
          rw [List.range'_zero, List.append_nil, List.append_nil, Nat.add_zero]
          exact freed_memory (n := s.allocated) (c := 1) books.memory
        | succ c =>
          refine iff_of_false ?_ (Nat.succ_ne_zero c)
          apply again_spoils (o := s.allocated + 1)
          · exact List.mem_range'_1.mpr ⟨le_rfl, by omega⟩
          · rw [list]
            exact List.mem_range'_1.mpr ⟨le_rfl, by omega⟩

end Cards

end CardCreation
