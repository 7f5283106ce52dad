import Dahdi.Xpp.PcmTrip

/-!
The packet of a BRI card: four slots of the mask for each subunit, of which two are
in use. The reader passes over the subunits that are not registered, but the writer
has written silence for them.
-/
namespace PcmTrip
open Xpp LineMask PackedSlots PcmLength

section Slots
variable {subs : BriUnit} {main : BriXpd}

/-- The masks as a recompute leaves them, with subunit 0 there. -/
structure BriMasks (subs : BriUnit) (main : BriXpd) : Prop where
  present : subs 0 = some main
  channels : ∀ i sub, subs i = some sub → sub.xpd.channels = 3
  low : ∀ j, 2 ≤ j → j < 4 → main.xpd.wantedPcmMask.getLsbD j = false
  small : ∀ i < 8, 0 < i → ∀ sub, subs i = some sub → Below 2 sub.xpd.wantedPcmMask
  union : ∀ i < 8, ∀ j < 4, ∀ sub, subs i = some sub →
    main.xpd.wantedPcmMask.getLsbD (4 * i + j) = true → sub.xpd.wantedPcmMask.getLsbD j = true

/-- The slots that the writer fills. -/
def sentSlot (subs : BriUnit) (s : Nat) : Bool :=
  match subs (s / 4) with
  | none => false
  | some sub => sub.xpd.cardPresent && (decide (s % 4 < 3) && sub.xpd.wantedPcmMask.getLsbD (s % 4))

def slotChunk (subs : BriUnit) (s : Nat) : Chunk :=
  match subs (s / 4) with
  | none => silence
  | some sub => sentChunk sub.xpd (s % 4)

def isRegistered (subs : BriUnit) (i : Nat) : Bool :=
  match subs i with
  | none => false
  | some sub => sub.xpd.registered

/-- The slots that the reader takes. -/
def gotSlot (subs : BriUnit) (s : Nat) : Bool := sentSlot subs s && isRegistered subs (s / 4)

theorem slot_sub (i : Nat) {j : Nat} (small : j < 4) : (4 * i + j) / 4 = i ∧ (4 * i + j) % 4 = j := by
  omega

theorem sent_slot_present {i j : Nat} {sub : BriXpd} (small : j < 4) (here : subs i = some sub) :
    sentSlot subs (4 * i + j) =
      (sub.xpd.cardPresent && (decide (j < 3) && sub.xpd.wantedPcmMask.getLsbD j)) := by
  obtain ⟨sub_, line⟩ := slot_sub i small
  unfold sentSlot
  rw [sub_, line, here]

theorem sent_slot_absent {i j : Nat} (small : j < 4) (absent : subs i = none) :
    sentSlot subs (4 * i + j) = false := by
  unfold sentSlot
  rw [(slot_sub i small).1, absent]

end Slots

section Writer
variable {subs : BriUnit} {main : BriXpd}

/-- What the writer's loop has done to the first k subunits. -/
structure BriWritten (subs : BriUnit) (k : Nat) (sent : BriSent) : Prop where
  pcm : sent.pcm = packed (sentSlot subs) (slotChunk subs) (4 * k)
  lines : ∀ s, sent.pcmMask.getLsbD s = true ↔
    s < 32 ∧ ∃ i < k, ∃ sub, subs i = some sub ∧ sub.xpd.cardPresent = true ∧ 4 * i ≤ s ∧
      sub.xpd.wantedPcmMask.getLsbD (s - 4 * i) = true

theorem bri_send_step (channels : ∀ i sub, subs i = some sub → sub.xpd.channels = 3) {k : Nat}
    {sent : BriSent} (before : BriWritten subs k sent) : BriWritten subs (k + 1) (briSendSubunit subs sent k) := by
  have more (absent : ∀ sub, subs k = some sub → sub.xpd.cardPresent = false) :
      BriWritten subs (k + 1) sent := by
    constructor
    · rw [before.pcm, Nat.mul_succ]
      symm
      apply packed_none (by omega)
      intro s start inside
      obtain ⟨j, rfl⟩ := Nat.exists_eq_add_of_le start
      cases here : subs k with
      | none => exact sent_slot_absent (by omega) here
      | some sub =>
        rw [sent_slot_present (by omega) here, absent sub here]
        rfl
    · intro s
      rw [before.lines]
      constructor
      · rintro ⟨small, i, earlier, rest⟩
        exact ⟨small, i, by omega, rest⟩
      · rintro ⟨small, i, earlier, sub, here, card, rest⟩
        refine ⟨small, i, ?_, sub, here, card, rest⟩
        by_contra last
        have : i = k := by omega
        rw [this] at here
        rw [absent sub here] at card
        cases card
  unfold briSendSubunit
  cases here : subs k with
  | none =>
    apply more
    intro sub other
    rw [here] at other
    cases other
  | some sub =>
    dsimp only
    split <;> rename_i card
    · constructor
      · dsimp only
        unfold sendLines
        rw [channels k sub here, send_lines, before.pcm, Nat.mul_succ, packed_add]
        congr 1
        symm
        rw [packed, sent_slot_present (by omega) here]
        simp only [Nat.lt_irrefl, decide_false, Bool.false_and, Bool.and_false]
        rw [if_neg Bool.false_ne_true, List.append_nil]
        apply packed_congr
        · intro j small
          rw [sent_slot_present (by omega) here, card]
          simp [small]
        · intro j small _
          obtain ⟨sub_, line⟩ := slot_sub k (show j < 4 by omega)
          unfold slotChunk
          rw [sub_, line, here]
      · intro s
        dsimp only
        rw [BitVec.getLsbD_or, Bool.or_eq_true, before.lines, BitVec.getLsbD_shiftLeft]
        unfold SUBUNIT_PCM_SHIFT
        simp only [Bool.and_eq_true, decide_eq_true_eq, Bool.not_eq_true', decide_eq_false_iff_not]
        constructor
        · rintro (⟨small, i, earlier, rest⟩ | ⟨⟨small, start⟩, isSet⟩)
          · exact ⟨small, i, by omega, rest⟩
          · exact ⟨small, k, by omega, sub, here, card, by omega, isSet⟩
        · rintro ⟨small, i, earlier, other, there, otherCard, start, isSet⟩
          by_cases last : i = k
          · right
            rw [last] at there start isSet
            rw [here] at there
            rw [← Option.some.inj there] at isSet
            exact ⟨⟨small, by omega⟩, isSet⟩
          · left
            exact ⟨small, i, by omega, other, there, otherCard, start, isSet⟩
    · apply more
      intro other there
      rw [here] at there
      rw [← Option.some.inj there]
      simpa using card

theorem bri_written (channels : ∀ i sub, subs i = some sub → sub.xpd.channels = 3) (k : Nat) :
    BriWritten subs k ((List.range k).foldl (briSendSubunit subs) ⟨[], 0⟩) := by
  induction k with
  | zero =>
    constructor
    · rfl
    · intro s
      simp
  | succ k ih =>
    rw [List.range_succ, List.foldl_append, List.foldl_cons, List.foldl_nil]
    exact bri_send_step channels ih

/-- The mask of the packet has the lines of every subunit that is there. -/
theorem packet_lines (masks : BriMasks subs main) (pack : Xpacket) {i j : Nat} {sub : BriXpd} (inside : i < 8)
    (small : j < 4) (here : subs i = some sub) (card : sub.xpd.cardPresent = true) :
    (briCardPcmFromspan subs pack).lines.getLsbD (4 * i + j) = sub.xpd.wantedPcmMask.getLsbD j := by
  have lines := (bri_written masks.channels 8).lines (4 * i + j)
  unfold briCardPcmFromspan MAX_SUBUNIT
  dsimp only
  rw [Bool.eq_iff_iff, lines]
  constructor
  · rintro ⟨_, k, before, other, there, _, start, isSet⟩
    by_cases same : k = i
    · rw [same] at there isSet
      rw [here] at there
      rw [Option.some.inj there]
      rwa [Nat.add_sub_cancel_left] at isSet
    · by_cases first : k = 0
      · rw [first] at there isSet
        rw [masks.present] at there
        rw [← Option.some.inj there] at isSet
        exact masks.union i inside j small sub here isSet
      · have := masks.small k before (by omega) other there _ isSet
        omega
  · intro isSet
    refine ⟨by omega, i, inside, sub, here, card, by omega, ?_⟩
    rwa [Nat.add_sub_cancel_left]

/-- The reader takes the slots of the registered subunits among those that were filled. -/
theorem taken_slot (masks : BriMasks subs main) (pack : Xpacket) {i j : Nat} {sub : BriXpd} (inside : i < 8)
    (small : j < 2) (here : subs i = some sub) :
    (sub.xpd.cardPresent && sub.xpd.registered &&
        (briCardPcmFromspan subs pack).lines.getLsbD (4 * i + j)) = gotSlot subs (4 * i + j) := by
  obtain ⟨sub_, _⟩ := slot_sub i (show j < 4 by omega)
  unfold gotSlot isRegistered
  rw [sub_, here, sent_slot_present (by omega) here]
  cases card : sub.xpd.cardPresent with
  | false => rfl
  | true =>
    rw [packet_lines masks pack inside (by omega) here card]
    have : j < 3 := by omega
    simp only [this, decide_true, Bool.true_and]
    exact Bool.and_comm ..

theorem unused_slot (masks : BriMasks subs main) {i j : Nat} (inside : i < 8) (high : 2 ≤ j) (small : j < 4) :
    sentSlot subs (4 * i + j) = false := by
  cases here : subs i with
  | none => exact sent_slot_absent small here
  | some sub =>
    have clear_ : sub.xpd.wantedPcmMask.getLsbD j = false := by
      by_cases first : i = 0
      · rw [first, masks.present] at here
        rw [← Option.some.inj here]
        exact masks.low j high small
      · by_contra isSet
        have := masks.small i inside (by omega) sub here j (by simpa using isSet)
        omega
    rw [sent_slot_present small here, clear_]
    simp

end Writer

section Reader
variable {subs : BriUnit} {main : BriXpd}

/-- What the reader's loop has done by slot 4k of the mask. -/
structure BriRead (subs : BriUnit) (pack : Xpacket) (k : Nat) (got : BriGot) : Prop where
  mask : got.pcmMask = pack.lines >>> (4 * k)
  pcm : got.pcm = 8 * rank (gotSlot subs) (4 * k)
  ahead : ∀ i, k ≤ i → got.subs i = subs i
  read : ∀ i < k, ∀ j < 2, gotSlot subs (4 * i + j) = true → ∃ sub, got.subs i = some sub ∧
    (sub.xpd.chans j).readchunk = chunkAt pack (8 * rank (gotSlot subs) (4 * i + j))

theorem shift_next (lines : Lines) (k : Nat) : (lines >>> (4 * k)) >>> 4 = lines >>> (4 * (k + 1)) := by
  rw [Nat.mul_succ, BitVec.shiftRight_add]

/-- Where nothing is taken from subunit k, the reader's pointer stays. -/
theorem bri_read_pass {pack : Xpacket} {k : Nat} {got : BriGot} (before : BriRead subs pack k got)
    (none_ : ∀ j < 4, gotSlot subs (4 * k + j) = false) (mask : Lines)
    (next : mask = pack.lines >>> (4 * (k + 1))) :
    BriRead subs pack (k + 1) { got with pcmMask := mask } := by
  constructor
  · exact next
  · dsimp only
    rw [before.pcm, Nat.mul_succ]
    congr 1
    symm
    apply rank_none (by omega)
    intro s start inside
    obtain ⟨j, rfl⟩ := Nat.exists_eq_add_of_le start
    exact none_ j (by omega)
  · intro i later
    exact before.ahead i (by omega)
  · intro i earlier j small isGot
    by_cases last : i = k
    · rw [last, none_ j (by omega)] at isGot
      cases isGot
    · exact before.read i (by omega) j small isGot

theorem bri_line_masked (mask : Lines) {j : Nat} (small : j < 2) :
    (mask &&& (bit 32 0 ||| bit 32 1)).getLsbD j = mask.getLsbD j := by
  rw [BitVec.getLsbD_and, BitVec.getLsbD_or, getLsbD_bit, getLsbD_bit]
  have : j = 0 ∨ j = 1 := by omega
  rcases this with rfl | rfl
  · simp
  · simp

/-- The two lines of a subunit that the reader looks at. -/
theorem bri_take_lines {pack : Xpacket} {mask : Lines} {start : Nat} {marked : Nat → Bool} {xpd : Xpd}
    (lines : ∀ j < 2, mask.getLsbD j = marked (start + j)) :
    let taken := (List.range 2).foldl (briTakeLine pack mask) (xpd, 8 * rank marked start)
    taken.2 = 8 * rank marked (start + 2) ∧ ∀ j < 2, marked (start + j) = true →
      (taken.1.chans j).readchunk = chunkAt pack (8 * rank marked (start + j)) := by
  have all : ∀ n ≤ 2,
      ((List.range n).foldl (briTakeLine pack mask) (xpd, 8 * rank marked start)).2 =
          8 * rank marked (start + n) ∧ ∀ j < n, marked (start + j) = true →
        (((List.range n).foldl (briTakeLine pack mask) (xpd, 8 * rank marked start)).1.chans j).readchunk =
          chunkAt pack (8 * rank marked (start + j)) := by
    intro n
    induction n with
    | zero =>
      intro _
      constructor
      · rfl
      · intro j none_
        exact absurd none_ (Nat.not_lt_zero j)
    | succ n ih =>
      intro most
      obtain ⟨pcm, read⟩ := ih (by omega)
      rw [List.range_succ, List.foldl_append, List.foldl_cons, List.foldl_nil]
      unfold briTakeLine DAHDI_CHUNKSIZE
      dsimp only
      rw [bri_line_masked mask (by omega), lines n (by omega)]
      cases here : marked (start + n) with
      | false =>
        rw [if_neg Bool.false_ne_true]
        constructor
        · rw [← Nat.add_assoc, rank, here]
          exact pcm
        · intro j earlier isMarked
          by_cases last : j = n
          · rw [last, here] at isMarked
            cases isMarked
          · exact read j (by omega) isMarked
      | true =>
        rw [if_pos rfl]
        constructor
        · rw [← Nat.add_assoc, rank, here, if_pos rfl, Nat.mul_add]
          exact congrArg (· + 8) pcm
        · intro j earlier isMarked
          dsimp only
          by_cases last : j = n
          · rw [last, set_read_self]
            exact congrArg (chunkAt pack) pcm
          · rw [set_read_other last]
            exact read j (by omega) isMarked
  exact all 2 (Nat.le_refl 2)

theorem bri_read_step (masks : BriMasks subs main) {pack : Xpacket} {k : Nat} (inside : k < 8) {got : BriGot}
    (before : BriRead subs (briCardPcmFromspan subs pack) k got) :
    BriRead subs (briCardPcmFromspan subs pack) (k + 1)
      (briTakeSubunit (briCardPcmFromspan subs pack) got k) := by
  have line (j : Nat) : got.pcmMask.getLsbD j = (briCardPcmFromspan subs pack).lines.getLsbD (4 * k + j) := by
    rw [before.mask, BitVec.getLsbD_ushiftRight]
  have high (j : Nat) (above : 2 ≤ j) (small : j < 4) : gotSlot subs (4 * k + j) = false := by
    unfold gotSlot
    rw [unused_slot masks inside above small]
    rfl
  have same := before.ahead k (Nat.le_refl k)
  unfold briTakeSubunit SUBUNIT_PCM_SHIFT
  split <;> rename_i empty
  · have stays : got = { got with pcmMask := 0 } := by
      rw [← empty]
    rw [stays]
    apply bri_read_pass before
    · intro j small
      by_cases above : 2 ≤ j
      · exact high j above small
      · cases here : subs k with
        | none =>
          unfold gotSlot
          rw [sent_slot_absent small here]
          rfl
        | some sub =>
          rw [← taken_slot masks pack inside (by omega) here, ← line j, empty]
          simp
    · rw [← shift_next, ← before.mask, empty]
      simp
  · rw [same]
    cases here : subs k with
    | none =>
      apply bri_read_pass before
      · intro j small
        unfold gotSlot
        rw [sent_slot_absent small here]
        rfl
      · rw [before.mask, shift_next]
    | some sub =>
      dsimp only
      split <;> rename_i taken
      · have lines : ∀ j < 2, got.pcmMask.getLsbD j = gotSlot subs (4 * k + j) := by
          intro j small
          rw [← taken_slot masks pack inside small here, taken, line, Bool.true_and]
        obtain ⟨pcm, read⟩ := @bri_take_lines (briCardPcmFromspan subs pack) got.pcmMask (4 * k)
          (gotSlot subs) sub.xpd lines
        rw [← before.pcm] at pcm read
        constructor
        · dsimp only
          rw [before.mask, shift_next]
        · dsimp only
          rw [pcm, Nat.mul_succ]
          congr 1
          symm
          apply rank_none (by omega)
          intro s start inside
          obtain ⟨j, rfl⟩ := Nat.exists_eq_add_of_le (show 4 * k ≤ s by omega)
          exact high j (by omega) (by omega)
        · intro i later
          unfold setSub
          dsimp only
          rw [Function.update_of_ne (by omega)]
          exact before.ahead i (by omega)
        · intro i earlier j small isGot
          unfold setSub
          dsimp only
          by_cases last : i = k
          · rw [last] at isGot ⊢
            exact ⟨_, Function.update_self .., read j small isGot⟩
          · rw [Function.update_of_ne last]
            exact before.read i (by omega) j small isGot
      · apply bri_read_pass before
        · intro j small
          by_cases above : 2 ≤ j
          · exact high j above small
          · rw [← taken_slot masks pack inside (by omega) here]
            simp only [Bool.not_eq_true] at taken
            rw [taken, Bool.false_and]
        · rw [before.mask, shift_next]

theorem bri_read (masks : BriMasks subs main) (pack : Xpacket) :
    BriRead subs (briCardPcmFromspan subs pack) 8 ((List.range 8).foldl
      (briTakeSubunit (briCardPcmFromspan subs pack)) ⟨subs, (briCardPcmFromspan subs pack).lines, 0⟩) := by
  have all : ∀ k ≤ 8, BriRead subs (briCardPcmFromspan subs pack) k ((List.range k).foldl
      (briTakeSubunit (briCardPcmFromspan subs pack)) ⟨subs, (briCardPcmFromspan subs pack).lines, 0⟩) := by
    intro k
    induction k with
    | zero =>
      intro _
      constructor
      · simp
      · rfl
      · intro i _
        rfl
      · intro i none_
        exact absurd none_ (Nat.not_lt_zero i)
    | succ k ih =>
      intro most
      rw [List.range_succ, List.foldl_append, List.foldl_cons, List.foldl_nil]
      exact bri_read_step masks (by omega) (ih (by omega))
  exact all 8 (Nat.le_refl 8)

/-- A slot that the reader takes has the chunk that stands where the reader is. -/
theorem bri_takes (masks : BriMasks subs main) (pack : Xpacket) (registered : main.xpd.registered = true)
    {i j : Nat} (inside : i < 8) (small : j < 2) (isGot : gotSlot subs (4 * i + j) = true) :
    ∃ sub, briCardPcmTospan subs 0 main.xpd (briCardPcmFromspan subs pack) i = some sub ∧
      (sub.xpd.chans j).readchunk =
        slotAt 8 0 (packed (sentSlot subs) (slotChunk subs) 32) (8 * rank (gotSlot subs) (4 * i + j)) := by
  obtain ⟨sub, there, read⟩ := (bri_read masks pack).read i inside j small isGot
  have pcm : (briCardPcmFromspan subs pack).pcm = packed (sentSlot subs) (slotChunk subs) 32 := by
    unfold briCardPcmFromspan MAX_SUBUNIT
    exact (bri_written masks.channels 8).pcm
  refine ⟨sub, ?_, ?_⟩
  · unfold briCardPcmTospan MAX_SUBUNIT
    rw [if_neg (by simp), registered, if_pos rfl]
    exact there
  · rw [read, chunkAt, pcm]

end Reader
end PcmTrip
