import Dahdi.Library.GuardedRun
import Dahdi.Library.OrderedBlocks
import Dahdi.Span.Numbers

/-!
span_list stays in the order of the span numbers and of the channel numbers as
long as the number of a new span is free and fits an int.
-/
namespace SpanOrder
open SpanNumbers OrderedBlocks GuardedRun

/-- The first channel number after a span. -/
def endchan (s : Span) : Int := s.basechan + s.channels

/-- A span whose channels are numbered from basechan on. -/
structure Consecutive (s : Span) : Prop where
  nonempty : 0 < s.channels
  numbers : ∀ (i : Nat) c, s.chans[i]? = some c → c.channo = s.basechan + i

structure Numbered (s : Span) : Prop where
  consecutive : Consecutive s
  spanno : 1 ≤ s.spanno ∧ s.spanno < 2 ^ 31
  basechan : 1 ≤ s.basechan
  small : endchan s < 2 ^ 31

abbrev SpansOrdered (l : List Span) : Prop :=
  Ordered Span.spanno Span.basechan endchan l

abbrev SpanBefore (s t : Span) : Prop := Before Span.spanno Span.basechan endchan s t

/-- The claim on span_list: numbers strictly increasing, channel intervals
    disjoint and increasing. -/
structure SpanLaw (l : List Span) : Prop where
  consecutive : ∀ s ∈ l, Consecutive s
  ordered : l.Pairwise fun s t => s.spanno < t.spanno ∧ endchan s ≤ t.basechan

structure SpansOk (l : List Span) : Prop where
  numbered : ∀ s ∈ l, Numbered s
  ordered : SpansOrdered l

/-- A number is free before some span of the list, with room for the channels. -/
def Slot (channels : Nat) : Int → Int → List Span → Prop
  | _, _, [] => False
  | spanno, basechan, pos :: rest =>
    (spanno < pos.spanno ∧ basechan + channels ≤ pos.basechan) ∨
      Slot channels (pos.spanno + 1) (endchan pos) rest

/-- The location asked for, or the one the automatic assignment arrives at. -/
def location (s : State) (span : Span) (spanno basechan : BitVec 32) : Option (Nat × Nat) :=
  if spanno = 0 then assignLoop span.channels s.spans 1 1 else some (spanno.toNat, basechan.toNat)

/-- The requests the numbering is made for: spans with channels, locations from 1
    on, and channel numbers that end below 2^31. -/
def InDomain (s : State) : Event → Prop
  | .assign span spanno basechan => 0 < span.channels ∧ (spanno = 0 ∨ 1 ≤ basechan.toNat) ∧
      ∀ n b, location s span spanno basechan = some (n, b) → b + span.channels < 2 ^ 31
  | _ => True

def numberSystem (maxPseudoChannels : Nat) : System State Event where
  start s := s = ⟨[], []⟩
  step s e s' := InDomain s e ∧ apply maxPseudoChannels s e = some s'

/-- A span number that is free and fits an int: asked for, or within reach of the
    automatic assignment. -/
def FreeNumber (s : State) : Event → Prop
  | .assign span spanno _ =>
      if spanno = 0 then
        Slot span.channels 1 1 s.spans ∨ ∀ pos ∈ s.spans, pos.spanno ≠ 2 ^ 31 - 1
      else spanno.toNat < 2 ^ 31 ∧ ∀ pos ∈ s.spans, pos.spanno ≠ spanno.toNat
  | _ => True

section Placing
variable {l : List Span} {span : Span} {spanno basechan : Nat}

theorem numbered_end {s : Span} (numbered : Numbered s) : s.basechan < endchan s := by
  have := numbered.consecutive.nonempty
  unfold endchan
  omega

theorem next_channo {pos : Span} {rest : List Span} (numbered : Numbered pos) :
    (getNextChanno (pos :: rest) : Int) = pos.basechan := by
  have first := numbered.basechan
  have inside := numbered_end numbered
  have small := numbered.small
  rw [getNextChanno, if_neg (by have := numbered.consecutive.nonempty; omega)]
  exact u32_of_lt (by omega) (by omega)

/-- The span as it stands on the list. -/
theorem set_numbers (some : 0 < span.channels) (small : basechan + span.channels < 2 ^ 31) :
    (setSpannoAndBasechan span spanno basechan).basechan = basechan ∧
      endchan (setSpannoAndBasechan span spanno basechan) = basechan + span.channels ∧
      Consecutive (setSpannoAndBasechan span spanno basechan) := by
  have length : (setSpannoAndBasechan span spanno basechan).channels = span.channels :=
    number_from_length basechan 0 span.chans
  have base : (setSpannoAndBasechan span spanno basechan).basechan = basechan := by
    unfold Span.channels at some small
    unfold setSpannoAndBasechan Span.basechan
    cases chans : span.chans with
    | nil => simp [chans] at some
    | cons c rest =>
      simp only [numberFrom]
      rw [u32_of_lt (by omega) (by omega), s32_of_lt (by omega) (by omega)]
      simp
  refine ⟨base, ?_, ?_, ?_⟩
  · rw [endchan, base, length]
  · rw [length]
    exact some
  · intro i c here
    rw [base]
    have := number_from_get (by unfold Span.channels at small; omega) here
    omega

theorem add_insert (s : Span) (l : List Span) :
    addSpanToSpanList s l = insertByKey Span.spanno s l := by
  induction l with
  | nil => rfl
  | cons pos rest ih => simp only [addSpanToSpanList, insertByKey, ih]

theorem assign_loop_total {channels : Nat} (some : ∀ s ∈ l, 0 < s.channels) (n b : Nat) :
    ∃ n' b', assignLoop channels l n b = .some (n', b') := by
  induction l generalizing n b with
  | nil => exact ⟨n, b, rfl⟩
  | cons pos rest ih =>
    have first := some pos List.mem_cons_self
    have later := ih fun s member => some s (List.mem_cons_of_mem pos member)
    unfold assignLoop
    split
    · rw [if_neg (by omega)]
      exact later _ _
    · split
      · exact ⟨n, b, rfl⟩
      · exact later _ _

theorem ok_tail {pos : Span} {rest : List Span} (ok : SpansOk (pos :: rest)) :
    Numbered pos ∧ SpansOk rest ∧ ∀ s ∈ rest, SpanBefore pos s := by
  obtain ⟨numbered, ordered⟩ := ok
  obtain ⟨first, others⟩ := List.pairwise_cons.mp ordered
  exact ⟨numbered pos List.mem_cons_self,
    ⟨fun s member => numbered s (List.mem_cons_of_mem pos member), others⟩, first⟩

/-- Where the loop of the automatic assignment stops: past every span it has
    left behind and before the others, and not past a slot. -/
structure Stops (channels : Nat) (l : List Span) (n b n' b' : Nat) : Prop where
  spanno : n ≤ n'
  basechan : b ≤ b'
  beside : ∀ s ∈ l, s.spanno < n' ∧ endchan s ≤ b' ∨
    (n' : Int) < s.spanno ∧ (b' : Int) + channels ≤ s.basechan
  slot : Slot channels n b l → ∃ s ∈ l, (n' : Int) < s.spanno
  last : ¬ Slot channels n b l → ∀ s ∈ l, s.spanno < n'
  origin : n' = n ∧ b' = b ∨ ∃ s ∈ l, (n' : Int) = s.spanno + 1 ∧ (b' : Int) = endchan s

theorem stops_later {channels : Nat} {pos : Span} {rest : List Span} {n b n' b' n₁ b₁ : Nat}
    (next : (n₁ : Int) = pos.spanno + 1) (after : (b₁ : Int) = endchan pos)
    (start : (n : Int) ≤ pos.spanno) (below : (b : Int) ≤ endchan pos)
    (passed : ¬ ((n : Int) < pos.spanno ∧ (b : Int) + channels ≤ pos.basechan))
    (stops : Stops channels rest n₁ b₁ n' b') : Stops channels (pos :: rest) n b n' b' := by
  obtain ⟨spanno, basechan, beside, slot, last, origin⟩ := stops
  have same : Slot channels n b (pos :: rest) ↔ Slot channels n₁ b₁ rest := by
    rw [Slot, next, after]
    exact or_iff_right passed
  refine ⟨by omega, by omega, ?_, ?_, ?_, ?_⟩
  · intro s member
    rcases List.mem_cons.mp member with rfl | later
    · exact Or.inl ⟨by omega, by omega⟩
    · exact beside s later
  · intro free
    obtain ⟨s, member, smaller⟩ := slot (same.mp free)
    exact ⟨s, List.mem_cons_of_mem pos member, smaller⟩
  · intro none s member
    rcases List.mem_cons.mp member with rfl | later
    · omega
    · exact last (same.not.mp none) s later
  · right
    rcases origin with ⟨rfl, rfl⟩ | ⟨s, member, here⟩
    · exact ⟨pos, List.mem_cons_self, next, after⟩
    · exact ⟨s, List.mem_cons_of_mem pos member, here⟩

theorem assign_loop_stops {channels n b n' b' : Nat} (ok : SpansOk l) (small : channels < 2 ^ 31)
    (start : ∀ s ∈ l, (n : Int) ≤ s.spanno ∧ (b : Int) ≤ s.basechan)
    (run : assignLoop channels l n b = some (n', b')) : Stops channels l n b n' b' := by
  induction l generalizing n b with
  | nil =>
    obtain ⟨rfl, rfl⟩ := Prod.mk.inj (Option.some.inj run)
    exact ⟨Nat.le_refl n, Nat.le_refl b, by simp, fun free => free.elim, by simp, Or.inl ⟨rfl, rfl⟩⟩
  | cons pos rest ih =>
    obtain ⟨numbered, okRest, first⟩ := ok_tail ok
    obtain ⟨low, high⟩ := start pos List.mem_cons_self
    obtain ⟨positive, fits⟩ := numbered.spanno
    have inside := numbered_end numbered
    have below := numbered.small
    have base := numbered.basechan
    have some := numbered.consecutive.nonempty
    have spanno : (u32 pos.spanno : Int) = pos.spanno := u32_of_lt (by omega) (by omega)
    have next : (u32 (pos.spanno + 1) : Int) = pos.spanno + 1 := u32_of_lt (by omega) (by omega)
    have after : (u32 (pos.basechan + pos.channels) : Int) = endchan pos :=
      u32_of_lt (by omega) (Int.lt_trans below (by decide))
    have room : (u32 (b + channels) : Int) = b + channels := u32_of_lt (by omega) (by omega)
    have channo := @next_channo pos rest numbered
    have later : ∀ s ∈ rest, (u32 (pos.spanno + 1) : Int) ≤ s.spanno ∧
        (u32 (pos.basechan + pos.channels) : Int) ≤ s.basechan := by
      intro s member
      obtain ⟨larger, block⟩ := first s member
      rw [next, after]
      exact ⟨by omega, block⟩
    unfold assignLoop at run
    split at run
    · rename_i taken
      rw [if_neg (by omega)] at run
      exact stops_later next after low (by omega) (by omega) (ih okRest later run)
    · rename_i free
      split at run
      · rename_i fitting
        obtain ⟨rfl, rfl⟩ := Prod.mk.inj (Option.some.inj run)
        refine ⟨Nat.le_refl n, Nat.le_refl b, ?_, ?_, ?_, Or.inl ⟨rfl, rfl⟩⟩
        · intro s member
          right
          rcases List.mem_cons.mp member with rfl | member
          · exact ⟨by omega, by omega⟩
          · obtain ⟨larger, block⟩ := first s member
            exact ⟨by omega, by omega⟩
        · intro _
          exact ⟨pos, List.mem_cons_self, by omega⟩
        · intro none
          exact absurd (Or.inl ⟨by omega, by omega⟩) none
      · rename_i narrow
        rw [if_neg (by omega)] at run
        exact stops_later next after low (by omega) (by omega) (ih okRest later run)

/-- What an accepted location has beside it, whatever its number. -/
theorem check_loop_spec {channels : Nat} (ok : SpansOk l)
    (small : basechan + channels < 2 ^ 31) (accepted : checkLoop channels spanno basechan l = true)
    {s : Span} (member : s ∈ l) : s.spanno ≤ spanno ∧ endchan s ≤ basechan ∨
      (spanno : Int) < s.spanno ∧ (basechan : Int) + channels ≤ s.basechan := by
  induction l with
  | nil => simp at member
  | cons pos rest ih =>
    obtain ⟨numbered, okRest, first⟩ := ok_tail ok
    obtain ⟨positive, fits⟩ := numbered.spanno
    have below := numbered.small
    have base := numbered.basechan
    have inside := numbered_end numbered
    have number : (u32 pos.spanno : Int) = pos.spanno := u32_of_lt (by omega) (by omega)
    have channo := @next_channo pos rest numbered
    have after : (u32 (getNextChanno (pos :: rest) + pos.channels) : Int) = endchan pos := by
      rw [channo]
      exact u32_of_lt (by omega) (Int.lt_trans below (by decide))
    have room : (u32 (basechan + channels) : Int) = basechan + channels :=
      u32_of_lt (by omega) (by omega)
    simp only [checkLoop] at accepted
    split at accepted
    · rename_i smaller
      split at accepted
      · cases accepted
      · rename_i beyond
        rcases List.mem_cons.mp member with rfl | later
        · exact Or.inl ⟨by omega, by omega⟩
        · exact ih okRest accepted later
    · rename_i larger
      rw [if_neg (by omega)] at accepted
      have fitting := of_decide_eq_true accepted
      right
      rcases List.mem_cons.mp member with rfl | later
      · exact ⟨by omega, by omega⟩
      · obtain ⟨bigger, block⟩ := first s later
        exact ⟨by omega, by omega⟩

end Placing

section Steps
variable {s s' : State} {span : Span}

/-- An assignment that succeeds gives the span its location and puts it on the list. -/
theorem assign_inversion {spanno basechan : BitVec 32}
    (done : assignSpan s span spanno basechan = some s') :
    ∃ n b : Nat, location s span spanno basechan = some (n, b) ∧
      (spanno ≠ 0 → checkLoop span.channels n b s.spans = true) ∧
      s'.spans = insertByKey Span.spanno (setSpannoAndBasechan span n b) s.spans := by
  unfold assignSpan at done
  split at done
  · cases done
  · obtain ⟨placed, found, rfl⟩ := Option.map_eq_some_iff.mp done
    unfold location
    split at found
    · rename_i zero
      obtain ⟨⟨n, b⟩, run, rfl⟩ := Option.map_eq_some_iff.mp found
      exact ⟨n, b, by rw [if_pos zero]; exact run, fun other => absurd zero other, add_insert _ _⟩
    · rename_i other
      unfold checkSpannoAndBasechan at found
      split at found
      · rename_i accepted
        obtain rfl := Option.some.inj found
        exact ⟨_, _, by rw [if_neg other], fun _ => accepted, add_insert _ _⟩
      · cases found

/-- A location an assignment has accepted. -/
structure Accepted (l : List Span) (channels n b : Nat) : Prop where
  spanno : 1 ≤ n ∧ n < 2 ^ 32
  basechan : 1 ≤ b ∧ b + channels < 2 ^ 31
  beside : ∀ s ∈ l, s.spanno ≤ n ∧ endchan s ≤ b ∨ (n : Int) < s.spanno ∧ (b : Int) + channels ≤ s.basechan

theorem assign_accepted {spanno basechan : BitVec 32} {n b : Nat} (ok : SpansOk s.spans)
    (domain : InDomain s (.assign span spanno basechan))
    (found : location s span spanno basechan = some (n, b))
    (checked : spanno ≠ 0 → checkLoop span.channels n b s.spans = true) :
    Accepted s.spans span.channels n b ∧ (FreeNumber s (.assign span spanno basechan) ↔
      n < 2 ^ 31 ∧ ∀ pos ∈ s.spans, pos.spanno ≠ n) := by
  obtain ⟨_, low, small⟩ := domain
  have fits := small n b found
  unfold location at found
  by_cases zero : spanno = 0
  · rw [if_pos zero] at found
    have start : ∀ pos ∈ s.spans, ((1 : Nat) : Int) ≤ pos.spanno ∧ ((1 : Nat) : Int) ≤ pos.basechan :=
      fun pos member => ⟨(ok.numbered pos member).spanno.1, (ok.numbered pos member).basechan⟩
    obtain ⟨spanno, basechan, beside, slot, last, origin⟩ :=
      assign_loop_stops ok (by omega) start found
    simp only [FreeNumber, if_pos zero]
    have apart : ∀ pos ∈ s.spans, pos.spanno ≠ n := by
      intro pos member
      rcases beside pos member with ⟨smaller, _⟩ | ⟨larger, _⟩
      · omega
      · omega
    have bounded : n ≤ 2 ^ 31 ∧
        ((Slot span.channels 1 1 s.spans ∨ ∀ pos ∈ s.spans, pos.spanno ≠ 2 ^ 31 - 1) ↔ n < 2 ^ 31) := by
      by_cases free : Slot span.channels 1 1 s.spans
      · obtain ⟨pos, member, larger⟩ := slot free
        have := (ok.numbered pos member).spanno
        exact ⟨by omega, by simp only [free, true_or, true_iff]; omega⟩
      · have all := last free
        simp only [free, false_or]
        rcases origin with ⟨rfl, rfl⟩ | ⟨pos, member, here, _⟩
        · refine ⟨by omega, fun _ => by omega, fun _ pos member => ?_⟩
          have := all pos member
          omega
        · have := (ok.numbered pos member).spanno
          refine ⟨by omega, fun none => ?_, fun below other inside => ?_⟩
          · have := none pos member
            omega
          · have := all other inside
            omega
    refine ⟨⟨⟨spanno, by omega⟩, ⟨basechan, fits⟩, ?_⟩, ?_⟩
    · intro pos member
      rcases beside pos member with ⟨smaller, block⟩ | above
      · exact Or.inl ⟨by omega, block⟩
      · exact Or.inr above
    · rw [bounded.2]
      exact ⟨fun below => ⟨below, apart⟩, fun both => both.1⟩
  · rw [if_neg zero] at found
    obtain ⟨rfl, rfl⟩ := Prod.mk.inj (Option.some.inj found)
    have positive : 1 ≤ spanno.toNat := by
      have := BitVec.toNat_ne.mp zero
      simp only [BitVec.ofNat_eq_ofNat, BitVec.toNat_ofNat, Nat.zero_mod] at this
      omega
    simp only [FreeNumber, if_neg zero, and_true, iff_self]
    refine ⟨⟨positive, spanno.isLt⟩, ⟨low.resolve_left zero, fits⟩, ?_⟩
    intro pos member
    exact check_loop_spec ok fits (checked zero) member

/-- The new span takes its place in the order just when its number is free and
    fits an int; an empty list takes any number. -/
theorem placed_iff {l : List Span} {n b : Nat} (ok : SpansOk l) (some : 0 < span.channels)
    (accepted : Accepted l span.channels n b) :
    SpansOrdered (insertByKey Span.spanno (setSpannoAndBasechan span n b) l) ↔
      l = [] ∨ n < 2 ^ 31 ∧ ∀ pos ∈ l, pos.spanno ≠ n := by
  obtain ⟨⟨low, high⟩, ⟨first, small⟩, beside⟩ := accepted
  obtain ⟨base, ends, _⟩ := @set_numbers span n b some small
  have blocks : ∀ s ∈ l, s.basechan ≤ endchan s := by
    intro s member
    have := numbered_end (ok.numbered s member)
    omega
  unfold SpansOrdered
  rw [ordered_insert_iff blocks ok.ordered]
  simp only [Before, base, ends, set_spanno]
  by_cases fits : n < 2 ^ 31
  · rw [s32_of_lt (by omega) (by omega)]
    constructor
    · intro apart
      refine Or.inr ⟨fits, fun pos member => ?_⟩
      rcases apart pos member with ⟨smaller, _⟩ | ⟨larger, _⟩
      · omega
      · omega
    · rintro (rfl | ⟨_, free⟩) pos member
      · simp at member
      · have := free pos member
        rcases beside pos member with ⟨smaller, block⟩ | above
        · exact Or.inl ⟨by omega, block⟩
        · exact Or.inr above
  · rw [s32_of_ge (by omega) (by omega)]
    constructor
    · intro apart
      left
      refine List.eq_nil_iff_forall_not_mem.mpr fun pos member => ?_
      have numbered := ok.numbered pos member
      have := numbered_end numbered
      obtain ⟨positive, below⟩ := numbered.spanno
      rcases beside pos member with ⟨_, block⟩ | ⟨larger, _⟩
      · rcases apart pos member with ⟨smaller, _⟩ | ⟨_, block'⟩
        · omega
        · omega
      · omega
    · rintro (rfl | ⟨below, _⟩) pos member
      · simp at member
      · exact absurd below fits

/-- Every span on the list is numbered as long as the numbers fit an int. -/
theorem placed_ok {l : List Span} {n b : Nat} (ok : SpansOk l) (some : 0 < span.channels)
    (accepted : Accepted l span.channels n b) (fits : n < 2 ^ 31)
    (free : ∀ pos ∈ l, pos.spanno ≠ n) :
    SpansOk (insertByKey Span.spanno (setSpannoAndBasechan span n b) l) := by
  obtain ⟨base, ends, consecutive⟩ := @set_numbers span n b some accepted.basechan.2
  refine ⟨fun s member => ?_, (placed_iff ok some accepted).mpr (Or.inr ⟨fits, free⟩)⟩
  rcases mem_insert.mp member with rfl | old
  · have spanno := set_spanno span n b
    obtain ⟨low, _⟩ := accepted.spanno
    obtain ⟨first, small⟩ := accepted.basechan
    rw [s32_of_lt (by omega) (by omega)] at spanno
    exact ⟨consecutive, ⟨by omega, by omega⟩, by omega, by omega⟩
  · exact ok.numbered s old

theorem ok_unassign {l : List Span} (ok : SpansOk l) (keep : Span → Bool) :
    SpansOk (l.filter keep) :=
  ⟨fun s member => ok.numbered s (List.mem_of_mem_filter member), ordered_filter keep ok.ordered⟩

theorem ok_step {maxPseudoChannels : Nat} {e : Event} (ok : SpansOk s.spans) (free : FreeNumber s e)
    (step : (numberSystem maxPseudoChannels).step s e s') : SpansOk s'.spans := by
  obtain ⟨domain, done⟩ := step
  cases e with
  | assign span spanno basechan =>
    obtain ⟨n, b, found, checked, spans⟩ := assign_inversion done
    obtain ⟨accepted, free_iff⟩ := assign_accepted ok domain found checked
    obtain ⟨fits, apart⟩ := free_iff.mp free
    rw [spans]
    exact placed_ok ok domain.1 accepted fits apart
  | unassign addr =>
    obtain rfl := Option.some.inj done
    exact ok_unassign ok _
  | allocPseudo addr =>
    simp only [apply, allocPseudo] at done
    split at done
    · cases done
    · obtain rfl := Option.some.inj done
      exact ok
  | freePseudo addr =>
    obtain rfl := Option.some.inj done
    exact ok

theorem spans_run {maxPseudoChannels : Nat}
    (reached : Reach (numberSystem maxPseudoChannels) FreeNumber s) : SpansOk s.spans := by
  refine @invariant_run _ _ _ _ (fun s => SpansOk s.spans) ?_ ?_ s reached
  · rintro _ rfl
    exact ⟨by simp, .nil⟩
  · intro s e s' ok free step
    exact ok_step ok free step

end Steps

section Concrete

/-- A board of one channel. -/
def board (addr : Nat) : Span := ⟨addr, 0, [⟨addr + 100, 0⟩]⟩

end Concrete

end SpanOrder
