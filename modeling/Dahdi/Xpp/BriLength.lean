import Dahdi.Xpp.PcmLength

/-!
The recompute of a BRI card adds two lines for a subunit that has any. That is the
number of its lines when both of its B-channels are off hook or neither is.
-/
namespace PcmLength
open Xpp LineMask

section Lines

structure SubShape (sub : BriXpd) : Prop where
  channels : sub.xpd.channels = 3
  offhook : Below 3 sub.xpd.offhookState
  signalling : ∀ j, sub.xpd.digitalSignalling.getLsbD j = true → j = 2
  started : sub.xpd.pvt = true → sub.xpd.digitalSignalling.getLsbD 2 = true
  idle : sub.xpd.pvt = false → sub.xpd.offhookState = 0

/-- Both B-channels are off hook, or neither is. -/
def Paired (offhook : Lines) : Prop := offhook.getLsbD 0 = offhook.getLsbD 1

variable {sub : BriXpd}

theorem lines_bit (xpd : Xpd) {j : Nat} (small : j < 32) :
    (briLines xpd).getLsbD j = (xpd.offhookState.getLsbD j && !xpd.digitalSignalling.getLsbD j) := by
  unfold briLines
  rw [BitVec.getLsbD_and, BitVec.getLsbD_not]
  simp [small]

theorem lines_below (shape : SubShape sub) : Below 2 (briLines sub.xpd) := by
  intro j isSet
  have small : j < 32 := BitVec.lt_of_getLsbD isSet
  rw [lines_bit sub.xpd small, Bool.and_eq_true, Bool.not_eq_true'] at isSet
  have := shape.offhook j isSet.1
  by_contra notB
  have last : j = 2 := by omega
  rw [last] at isSet
  cases started : sub.xpd.pvt with
  | true =>
    rw [shape.started started] at isSet
    exact absurd isSet.2 (by decide)
  | false =>
    rw [shape.idle started] at isSet
    simp at isSet

theorem lines_b_channel (shape : SubShape sub) {j : Nat} (b : j < 2) :
    (briLines sub.xpd).getLsbD j = sub.xpd.offhookState.getLsbD j := by
  rw [lines_bit sub.xpd (by omega)]
  have voice : sub.xpd.digitalSignalling.getLsbD j = false := by
    by_contra isSet
    have := shape.signalling j (by simpa using isSet)
    omega
  simp [voice]

theorem lines_empty (shape : SubShape sub) : briLines sub.xpd = 0 ↔ count (briLines sub.xpd) 4 = 0 := by
  constructor
  · intro empty
    rw [empty, count_zero]
  · intro none_
    have below := lines_below shape
    apply eq_zero_of_count below
    rwa [count_below below (by omega)] at none_

/-- The two lines that the recompute counts for a subunit with lines. -/
def counted (lines : Lines) : Nat := if lines = 0 then 0 else 2

theorem paired_iff (shape : SubShape sub) :
    Paired sub.xpd.offhookState ↔ count (briLines sub.xpd) 4 = counted (briLines sub.xpd) := by
  have four := count_below (lines_below shape) (show 2 ≤ 4 by omega)
  have empty := lines_empty shape
  have first := lines_b_channel shape (show 0 < 2 by omega)
  have second := lines_b_channel shape (show 1 < 2 by omega)
  have two : count (briLines sub.xpd) 2 = (if (briLines sub.xpd).getLsbD 0 then 1 else 0) +
      if (briLines sub.xpd).getLsbD 1 then 1 else 0 := by
    simp [count]
  rw [two] at four
  unfold Paired counted
  rw [← first, ← second]
  split <;> rename_i none_
  · rw [none_]
    simp [count]
  · have some_ : count (briLines sub.xpd) 4 ≠ 0 := fun zero => none_ (empty.mpr zero)
    rw [four] at some_ ⊢
    revert some_
    cases (briLines sub.xpd).getLsbD 0 <;> cases (briLines sub.xpd).getLsbD 1 <;> simp

theorem counted_most (shape : SubShape sub) : count (briLines sub.xpd) 4 ≤ counted (briLines sub.xpd) := by
  have four := count_below (lines_below shape) (show 2 ≤ 4 by omega)
  have bound := count_le (briLines sub.xpd) 2
  have empty := lines_empty shape
  unfold counted
  split <;> rename_i none_
  · rw [empty.mp none_]
  · omega

end Lines

section Recompute

structure BriShape (subs : BriUnit) : Prop where
  shape : ∀ i sub, subs i = some sub → SubShape sub
  fake : ∀ i sub, subs i = some sub → 0 < i → sub.xpd.pcmLen = 0

def AllPaired (subs : BriUnit) : Prop :=
  (subs 0).isSome = true → ∀ i < 8, ∀ sub, subs i = some sub → Paired sub.xpd.offhookState

/-- The lines of a subunit, none when it is absent. -/
def linesAt (subs : BriUnit) (i : Nat) : Lines :=
  match subs i with
  | none => 0
  | some sub => briLines sub.xpd

/-- A subunit after the recompute. -/
def faked (sub : BriXpd) : BriXpd :=
  { sub with xpd := updateWantedPcmMask sub.xpd (briLines sub.xpd) 0 }

variable {subs : BriUnit} {main : BriXpd}

theorem add_lines (sum : BriSum) (lines : Lines) (i : Nat) :
    sum.add lines i =
      ⟨sum.subs, sum.pcmMask ||| lines <<< (4 * i), sum.lineCount + counted lines⟩ := by
  unfold BriSum.add counted
  split <;> rename_i none_
  · rw [none_]
    simp
  · rfl

/-- The subunits once the loop has passed the first k of them. -/
def fakedBefore (subs : BriUnit) (k : Nat) : BriUnit :=
  fun i => if 0 < i ∧ i < k then (subs i).map faked else subs i

theorem faked_before_other {i k : Nat} (other : i ≠ k) :
    fakedBefore subs (k + 1) i = fakedBefore subs k i := by
  have : (0 < i ∧ i < k + 1) ↔ (0 < i ∧ i < k) := by omega
  unfold fakedBefore
  simp only [this]

theorem faked_before_self (subs : BriUnit) (k : Nat) : fakedBefore subs k k = subs k := by
  unfold fakedBefore
  rw [if_neg (by omega)]

theorem faked_before_absent {k : Nat} (absent : subs k = none) :
    fakedBefore subs (k + 1) = fakedBefore subs k := by
  funext i
  by_cases last : i = k
  · rw [last, faked_before_self]
    simp [fakedBefore, absent]
  · exact faked_before_other last

theorem faked_before_present {sub : BriXpd} {k : Nat} (present : subs k = some sub) :
    fakedBefore subs (k + 1) = if 0 < k then setSub (fakedBefore subs k) k (faked sub) else fakedBefore subs k := by
  split <;> rename_i first
  · funext i
    unfold setSub
    by_cases last : i = k
    · rw [last, Function.update_self]
      simp [fakedBefore, present, first]
    · rw [Function.update_of_ne last]
      exact faked_before_other last
  · funext i
    by_cases last : i = k
    · rw [last, faked_before_self]
      simp [fakedBefore, first]
    · exact faked_before_other last

/-- What the loop has made of the first k subunits. -/
theorem loop_sum (subs : BriUnit) (k : Nat) :
    (List.range k).foldl briAddSubunit ⟨subs, 0, 0⟩ =
      ⟨fakedBefore subs k, blocks (linesAt subs) 4 k,
        ((∑ i ∈ Finset.range k, counted (linesAt subs i) : Nat) : Int)⟩ := by
  induction k with
  | zero =>
    rw [List.range_zero, List.foldl_nil, BriSum.mk.injEq]
    constructor
    · funext i
      simp [fakedBefore]
    · simp [blocks]
  | succ k ih =>
    rw [List.range_succ, List.foldl_append, ih, List.foldl_cons, List.foldl_nil, Finset.sum_range_succ]
    unfold briAddSubunit
    dsimp only
    rw [faked_before_self]
    cases here : subs k with
    | none =>
      have absent : linesAt subs k = 0 := by
        unfold linesAt
        rw [here]
      dsimp only
      rw [blocks, absent, faked_before_absent here]
      simp [counted]
    | some sub =>
      have present : linesAt subs k = briLines sub.xpd := by
        unfold linesAt
        rw [here]
      dsimp only
      rw [add_lines, blocks, present, faked_before_present here]
      split <;> simp [faked]

theorem lines_at_below (shapes : ∀ i sub, subs i = some sub → SubShape sub) (i : Nat) :
    Below 2 (linesAt subs i) := by
  unfold linesAt
  cases here : subs i with
  | none => exact below_zero
  | some sub => exact lines_below (shapes i sub here)

theorem mask_count (shapes : ∀ i sub, subs i = some sub → SubShape sub) :
    count (blocks (linesAt subs) 4 8) 32 = ∑ i ∈ Finset.range 8, count (linesAt subs i) 4 := by
  have small : ∀ i, Below 4 (linesAt subs i) := by
    intro i j isSet
    have := lines_at_below shapes i j isSet
    omega
  exact count_blocks small (show 4 * 8 ≤ 32 by omega)

theorem counted_iff (shapes : ∀ i sub, subs i = some sub → SubShape sub) (present : subs 0 = some main) :
    count (blocks (linesAt subs) 4 8) 32 = ∑ i ∈ Finset.range 8, counted (linesAt subs i) ↔
      AllPaired subs := by
  have most : ∀ i ∈ Finset.range 8, count (linesAt subs i) 4 ≤ counted (linesAt subs i) := by
    intro i _
    unfold linesAt
    cases here : subs i with
    | none => exact (count_zero 4).le
    | some sub => exact counted_most (shapes i sub here)
  rw [mask_count shapes, Finset.sum_eq_sum_iff_of_le most]
  constructor
  · intro same _ i inside sub here
    have equal := same i (Finset.mem_range.mpr inside)
    unfold linesAt at equal
    rw [here] at equal
    exact (paired_iff (shapes i sub here)).mpr equal
  · intro paired i inside
    unfold linesAt
    cases here : subs i with
    | none => exact count_zero 4
    | some sub =>
      have both := paired (by rw [present]; rfl) i (Finset.mem_range.mp inside) sub here
      exact (paired_iff (shapes i sub here)).mp both

theorem counted_bound (subs : BriUnit) : ∑ i ∈ Finset.range 8, counted (linesAt subs i) ≤ 16 := by
  have each : ∀ i ∈ Finset.range 8, counted (linesAt subs i) ≤ 2 := by
    intro i _
    unfold counted
    split <;> omega
  exact Finset.sum_le_card_nsmul _ _ 2 each

/-- The main subunit after the recompute. -/
def settledMain (subs : BriUnit) (main : BriXpd) : BriXpd :=
  let lineCount : Nat := ∑ i ∈ Finset.range 8, counted (linesAt subs i)
  { main with
    xpd := settle main.xpd main.xpd.unit ((lineCount : Int) == 0) (blocks (linesAt subs) 4 8) lineCount }

theorem recompute_present (present : subs 0 = some main) (i : Nat) :
    briCardPcmRecompute subs i =
      if i = 0 then some (settledMain subs main) else if i < 8 then (subs i).map faked else subs i := by
  unfold briCardPcmRecompute MAX_SUBUNIT setSub
  rw [present]
  dsimp only
  rw [loop_sum]
  by_cases first : i = 0
  · rw [first, Function.update_self, if_pos rfl]
    rfl
  · rw [Function.update_of_ne first, if_neg first]
    have : (0 < i ∧ i < 8) ↔ i < 8 := by omega
    simp only [fakedBefore, this]

theorem recompute_absent (absent : subs 0 = none) : briCardPcmRecompute subs = subs := by
  unfold briCardPcmRecompute
  rw [absent]

theorem main_agrees_iff (shapes : ∀ i sub, subs i = some sub → SubShape sub) (present : subs 0 = some main) :
    Agrees (settledMain subs main).xpd ↔ AllPaired subs := by
  have exact_ := counted_iff shapes present
  have bound := counted_bound subs
  have sums := mask_count shapes
  have most : ∑ i ∈ Finset.range 8, count (linesAt subs i) 4 ≤ ∑ i ∈ Finset.range 8, counted (linesAt subs i) := by
    apply Finset.sum_le_sum
    intro i _
    unfold linesAt
    cases here : subs i with
    | none => exact (count_zero 4).le
    | some sub => exact counted_most (shapes i sub here)
  unfold settledMain settle
  dsimp only
  generalize ∑ i ∈ Finset.range 8, counted (linesAt subs i) = lineCount at *
  split <;> rename_i dummy
  · have none_ : lineCount = 0 := by simpa using dummy.2
    rw [← exact_]
    constructor
    · intro _
      omega
    · intro _
      exact dummy_agrees
  · rw [count_agrees (by omega) (by omega), ← exact_]
    omega

def BriAgrees (subs : BriUnit) : Prop := ∀ i sub, subs i = some sub → Agrees sub.xpd

/-- The subunits other than the main one have no length of their own. -/
theorem bri_agrees_iff (shape : BriShape subs) :
    BriAgrees subs ↔ ∀ main, subs 0 = some main → Agrees main.xpd := by
  constructor
  · intro agrees main present
    exact agrees 0 main present
  · intro agrees i sub present
    by_cases first : i = 0
    · rw [first] at present
      exact agrees sub present
    · exact Or.inl (shape.fake i sub present (by omega))

theorem settled_main_shape (shape : SubShape main) : SubShape (settledMain subs main) := by
  unfold settledMain
  dsimp only
  obtain ⟨_, _, updates⟩ := settle_updates main.xpd main.xpd.unit
    ((((∑ i ∈ Finset.range 8, counted (linesAt subs i) : Nat) : Int)) == 0) (blocks (linesAt subs) 4 8)
    ((∑ i ∈ Finset.range 8, counted (linesAt subs i) : Nat) : Int)
  rw [updates]
  exact ⟨shape.channels, shape.offhook, shape.signalling, shape.started, shape.idle⟩

theorem bri_recompute_shape (shape : BriShape subs) : BriShape (briCardPcmRecompute subs) := by
  cases present : subs 0 with
  | none =>
    rw [recompute_absent present]
    exact shape
  | some main =>
    have faked_shape {i : Nat} {sub : BriXpd} (here : subs i = some sub) : SubShape (faked sub) := by
      have kept := shape.shape i sub here
      exact ⟨kept.channels, kept.offhook, kept.signalling, kept.started, kept.idle⟩
    constructor
    · intro i sub here
      rw [recompute_present present] at here
      split at here
      · rw [← Option.some.inj here]
        exact settled_main_shape (shape.shape 0 main present)
      · split at here
        · obtain ⟨old, was, rfl⟩ := Option.map_eq_some_iff.mp here
          exact faked_shape was
        · exact shape.shape i sub here
    · intro i sub here later
      rw [recompute_present present, if_neg (by omega)] at here
      split at here
      · obtain ⟨old, _, rfl⟩ := Option.map_eq_some_iff.mp here
        rfl
      · exact shape.fake i sub here later

theorem bri_recompute_agrees (shape : BriShape subs) :
    BriAgrees (briCardPcmRecompute subs) ↔ AllPaired subs := by
  rw [bri_agrees_iff (bri_recompute_shape shape)]
  cases present : subs 0 with
  | none =>
    rw [recompute_absent present]
    constructor
    · intro _ there
      rw [present] at there
      exact absurd there (by decide)
    · intro _ main there
      rw [present] at there
      exact absurd there (by simp)
  | some main =>
    rw [← main_agrees_iff shape.shape present, recompute_present present, if_pos rfl]
    constructor
    · intro agrees
      exact agrees _ rfl
    · intro agrees main' same
      rw [← Option.some.inj same]
      exact agrees

end Recompute

section Operations
variable {subs subs' : BriUnit} {sub : BriXpd} {i : Nat}

theorem set_sub_shape (shape : BriShape subs) (new : SubShape sub) (fake : 0 < i → sub.xpd.pcmLen = 0) :
    BriShape (setSub subs i sub) := by
  constructor
  · intro j other here
    unfold setSub at here
    by_cases same : j = i
    · rw [same, Function.update_self] at here
      rw [← Option.some.inj here]
      exact new
    · rw [Function.update_of_ne same] at here
      exact shape.shape j other here
  · intro j other here later
    unfold setSub at here
    by_cases same : j = i
    · rw [same, Function.update_self] at here
      rw [← Option.some.inj here]
      exact fake (by omega)
    · rw [Function.update_of_ne same] at here
      exact shape.fake j other here later

theorem with_offhook_shape (shape : BriShape subs) (present : subs i = some sub) (started : sub.xpd.pvt = true)
    {mask : Lines} (below : Below 3 mask) : BriShape (setSub subs i (withOffhook sub mask)) := by
  have old := shape.shape i sub present
  apply set_sub_shape shape
  · constructor
    · exact old.channels
    · exact below
    · exact old.signalling
    · exact old.started
    · intro stopped
      exact absurd (started.symm.trans stopped) (by decide)
  · exact shape.fake i sub present

/-- Whether the offhook masks that an operation hands to the recompute are paired. -/
def BriGood (subs : BriUnit) (i : Nat) (sub : BriXpd) : BriOp → Prop
  | .preregistration => AllPaired subs
  | .recompute => AllPaired subs
  | .cardOpen pos =>
    pos = 2 → AllPaired (setSub subs i (withOffhook sub (briOffhookSpan sub.xpd.offhookState)))
  | .cardClose pos =>
    (pos = 2 → AllPaired (setSub subs i (withOffhook sub (briOnhookSpan sub.xpd.offhookState)))) ∧
      (pos ≠ 2 → sub.dchanIsOpen = false →
        AllPaired (setSub subs i (withOffhook sub (mark sub.xpd.offhookState pos false))))
  | .audioNotify pos on => AllPaired (setSub subs i (withOffhook sub (mark sub.xpd.offhookState pos on)))
  | _ => True

theorem offhook_step (shape : BriShape subs) (present : subs i = some sub) (started : sub.xpd.pvt = true)
    {mask : Lines} (below : Below 3 mask) :
    BriShape (briCardPcmRecompute (setSub subs i (withOffhook sub mask))) ∧
      (BriAgrees (briCardPcmRecompute (setSub subs i (withOffhook sub mask))) ↔
        AllPaired (setSub subs i (withOffhook sub mask))) := by
  have new := with_offhook_shape shape present started below
  exact ⟨bri_recompute_shape new, bri_recompute_agrees new⟩

theorem dchan_closed_step (shape : BriShape subs) :
    BriShape (dchanClosed subs i) ∧ (BriAgrees (dchanClosed subs i) ↔ BriAgrees subs) := by
  have same (j : Nat) (sub : BriXpd) (here : dchanClosed subs i j = some sub) :
      ∃ old, subs j = some old ∧ sub.xpd = old.xpd := by
    unfold dchanClosed at here
    by_cases this : j = i
    · rw [this, Function.update_self] at here
      obtain ⟨old, was, rfl⟩ := Option.map_eq_some_iff.mp here
      exact ⟨old, this ▸ was, rfl⟩
    · rw [Function.update_of_ne this] at here
      exact ⟨sub, here, rfl⟩
  have kept (j : Nat) (old : BriXpd) (was : subs j = some old) :
      ∃ sub, dchanClosed subs i j = some sub ∧ sub.xpd = old.xpd := by
    unfold dchanClosed
    by_cases this : j = i
    · rw [this, Function.update_self, ← this, was]
      exact ⟨_, rfl, rfl⟩
    · rw [Function.update_of_ne this]
      exact ⟨old, was, rfl⟩
  constructor
  · constructor
    · intro j sub here
      obtain ⟨old, was, equal⟩ := same j sub here
      have shaped := shape.shape j old was
      constructor
      · rw [equal]
        exact shaped.channels
      · rw [equal]
        exact shaped.offhook
      · rw [equal]
        exact shaped.signalling
      · rw [equal]
        exact shaped.started
      · rw [equal]
        exact shaped.idle
    · intro j sub here later
      obtain ⟨old, was, equal⟩ := same j sub here
      rw [equal]
      exact shape.fake j old was later
  · constructor
    · intro agrees j old was
      obtain ⟨sub, here, equal⟩ := kept j old was
      rw [← equal]
      exact agrees j sub here
    · intro agrees j sub here
      obtain ⟨old, was, equal⟩ := same j sub here
      rw [equal]
      exact agrees j old was

/-- Where a unit keeps its masks and lengths, it keeps their agreement. -/
theorem kept_step (agrees : BriAgrees subs) (new : Agrees sub.xpd) : BriAgrees (setSub subs i sub) := by
  intro j other here
  unfold setSub at here
  by_cases same : j = i
  · rw [same, Function.update_self] at here
    rw [← Option.some.inj here]
    exact new
  · rw [Function.update_of_ne same] at here
    exact agrees j other here

theorem flags_shape {old : BriXpd} (shape : SubShape old) (xpd : Xpd) (channels : xpd.channels = old.xpd.channels)
    (offhook : xpd.offhookState = old.xpd.offhookState)
    (signalling : xpd.digitalSignalling = old.xpd.digitalSignalling) (pvt : xpd.pvt = old.xpd.pvt)
    (isOpen : Bool) : SubShape ⟨xpd, isOpen⟩ := by
  constructor
  · exact channels.trans shape.channels
  · rw [offhook]
    exact shape.offhook
  · rw [signalling]
    exact shape.signalling
  · rw [signalling, pvt]
    exact shape.started
  · rw [offhook, pvt]
    exact shape.idle

theorem span_below {mask : Lines} (below : Below 3 mask) :
    Below 3 (briOffhookSpan mask) ∧ Below 3 (briOnhookSpan mask) := by
  unfold briOffhookSpan briOnhookSpan
  constructor
  · exact below_set (below_set (below_set below (by omega)) (by omega)) (by omega)
  · exact below_clear (below_clear (below_clear below))

theorem preregistered_shape (shape : SubShape sub) :
    SubShape ⟨{ sub.xpd with digitalSignalling := LineMask.set sub.xpd.digitalSignalling 2, pvt := true },
      sub.dchanIsOpen⟩ := by
  constructor
  · exact shape.channels
  · exact shape.offhook
  · intro j isSet
    dsimp only at isSet
    rw [getLsbD_set, Bool.or_eq_true, Bool.and_eq_true, decide_eq_true_eq, decide_eq_true_eq] at isSet
    rcases isSet with old | ⟨_, new⟩
    · exact shape.signalling j old
    · exact new.symm
  · intro _
    dsimp only
    rw [getLsbD_set]
    simp
  · intro stopped
    cases stopped

theorem all_paired_congr {subs subs' : BriUnit}
    (same : ∀ j, (subs j).map (fun sub => sub.xpd.offhookState) = (subs' j).map fun sub => sub.xpd.offhookState) :
    AllPaired subs ↔ AllPaired subs' := by
  have one {subs subs' : BriUnit}
      (same : ∀ j, (subs j).map (fun sub => sub.xpd.offhookState) = (subs' j).map fun sub => sub.xpd.offhookState)
      (paired : AllPaired subs) : AllPaired subs' := by
    intro there j inside sub here
    have main := congrArg Option.isSome (same 0)
    have equal := same j
    rw [here] at equal
    obtain ⟨old, was, offhook⟩ := Option.map_eq_some_iff.mp equal
    rw [Option.isSome_map, Option.isSome_map, there] at main
    have both := paired main j inside old was
    rwa [offhook] at both
  exact ⟨one same, one fun j => (same j).symm⟩

theorem bri_step {notify : Bool} (shape : BriShape subs) {op : BriOp} (step : BriStep notify subs i op subs') :
    BriShape subs' ∧ (BriAgrees subs →
      (BriAgrees subs' ↔ ∀ sub, subs i = some sub → BriGood subs i sub op)) := by
  cases step with
  | @attach unit absent _ =>
    have fresh : SubShape (freshBri unit) := by
      constructor
      · rfl
      · exact below_zero
      · intro j isSet
        exact absurd isSet (by simp [freshBri, freshXpd])
      · intro started
        cases started
      · intro _
        rfl
    constructor
    · exact set_sub_shape shape fresh fun _ => rfl
    · intro agrees
      constructor
      · intro _ sub here
        rw [absent] at here
        exact absurd here (by simp)
      · intro _
        exact kept_step agrees (Or.inl rfl)
  | @apply sub _ present allowed =>
    have only (p : BriXpd → Prop) : (∀ sub, subs i = some sub → p sub) ↔ p sub := by
      constructor
      · intro all
        exact all sub present
      · intro this other here
        rw [present] at here
        rwa [← Option.some.inj here]
    rw [only]
    have old := shape.shape i sub present
    have fake := shape.fake i sub present
    cases op with
    | attach unit => exact absurd allowed (by simp [BriOp.Allowed])
    | detach =>
      have fewer (j : Nat) (other : BriXpd) (here : Function.update subs i none j = some other) :
          subs j = some other := by
        by_cases same : j = i
        · rw [same, Function.update_self] at here
          exact absurd here (by simp)
        · rwa [Function.update_of_ne same] at here
      constructor
      · constructor
        · intro j other here
          exact shape.shape j other (fewer j other here)
        · intro j other here
          exact shape.fake j other (fewer j other here)
      · intro agrees
        constructor
        · intro _
          trivial
        · intro _ j other here
          exact agrees j other (fewer j other here)
    | present on =>
      constructor
      · exact set_sub_shape shape (flags_shape old (setPresent sub.xpd on) rfl rfl rfl rfl sub.dchanIsOpen) fake
      · intro agrees
        constructor
        · intro _
          trivial
        · intro _
          exact kept_step agrees (agrees i sub present)
    | postregistration on =>
      constructor
      · exact set_sub_shape shape (flags_shape old (setRegistered sub.xpd on) rfl rfl rfl rfl sub.dchanIsOpen) fake
      · intro agrees
        constructor
        · intro _
          trivial
        · intro _
          exact kept_step agrees (agrees i sub present)
    | preregistration =>
      have new := set_sub_shape (i := i) shape (preregistered_shape old) fake
      constructor
      · exact bri_recompute_shape new
      · intro _
        apply (bri_recompute_agrees new).trans
        apply all_paired_congr
        intro j
        unfold setSub
        by_cases same : j = i
        · rw [same, Function.update_self, present]
          rfl
        · rw [Function.update_of_ne same]
    | recompute => exact ⟨bri_recompute_shape shape, fun _ => bri_recompute_agrees shape⟩
    | audioNotify pos on =>
      obtain ⟨shaped, agree⟩ := offhook_step shape present allowed.2.2
        (below_mark old.offhook (old.channels ▸ allowed.2.1) on)
      exact ⟨shaped, fun _ => agree⟩
    | cardOpen pos =>
      unfold BriOp.applySub briCardOpen BriGood
      dsimp only
      split <;> rename_i dchan
      · have opened := with_offhook_shape shape present allowed.2 (span_below old.offhook).1
        have new := set_sub_shape (i := i) shape
          (flags_shape (opened.shape i (withOffhook sub (briOffhookSpan sub.xpd.offhookState)) (Function.update_self ..))
            (withOffhook sub (briOffhookSpan sub.xpd.offhookState)).xpd rfl rfl rfl rfl true) fake
        constructor
        · exact bri_recompute_shape new
        · intro _
          apply (bri_recompute_agrees new).trans
          apply Iff.trans (all_paired_congr _) (Iff.symm (forall_prop_of_true dchan))
          intro j
          unfold setSub
          by_cases same : j = i
          · rw [same, Function.update_self, Function.update_self]
            rfl
          · rw [Function.update_of_ne same, Function.update_of_ne same]
      · constructor
        · exact shape
        · intro agrees
          constructor
          · intro _ this
            exact absurd this dchan
          · intro _
            exact agrees
    | cardClose pos =>
      unfold BriOp.applySub briCardClose BriGood
      dsimp only
      split <;> rename_i dchan
      · obtain ⟨shaped, agree⟩ := offhook_step shape present allowed.2 (span_below old.offhook).2
        obtain ⟨closed, same⟩ := @dchan_closed_step _ i shaped
        constructor
        · exact closed
        · intro _
          rw [same, agree]
          simp [dchan]
      · split <;> rename_i isOpen
        · constructor
          · exact shape
          · intro agrees
            simp [dchan, isOpen, agrees]
        · obtain ⟨shaped, agree⟩ := offhook_step shape present allowed.2
            (below_mark old.offhook (old.channels ▸ allowed.1) false)
          constructor
          · exact shaped
          · intro _
            apply agree.trans
            simp [dchan, isOpen]

end Operations
end PcmLength
