import Dahdi.Xpp.BriTrip
import Dahdi.Xpp.LengthRuns
import Dahdi.Xpp.PriTrip

/-!
The part of xbus_tick that fills frames with PCM packets. It reads the length of a card's
packet, reserves that many bytes, and has the card fill the packet by its mask; other
contexts work on the cards in between.
-/
namespace XbusTick
open Xpp LineMask GuardedRun PcmLength PcmLengthRuns

def XFRAME_DATASIZE : Nat := 512
def MAX_UNIT : Nat := 8
def MAX_XPDS : Nat := MAX_UNIT * MAX_SUBUNIT

/-- A packet, the place of its first byte in the frame, and the bytes reserved for it. -/
structure Placed where
  pos : Nat
  room : Nat
  pack : Xpacket
  deriving DecidableEq

/-- What the tick does next with xpd i. -/
inductive Phase where
  | idle
  | look (i : Nat)
  | reserve (i pcmLen : Nat)
  | fill (i pcmLen pos : Nat)
  deriving DecidableEq

/-- The cards by their unit, the frame under way with its XFRAME_LEN, and the frames that
    are out. -/
structure Bus where
  cards : Nat → Option Card
  phase : Phase
  xframe : Option (List Placed)
  frameLen : Nat
  sent : List (List Placed)

/-- xpd_of -/
def xpdOf (cards : Nat → Option Card) (i : Nat) : Option Xpd :=
  match cards (i / MAX_SUBUNIT) with
  | none => none
  | some (.generic card) => if i % MAX_SUBUNIT = 0 then some card.xpd else none
  | some (.bri subs) => (subs (i % MAX_SUBUNIT)).map fun sub => sub.xpd
  | some (.pri x) => if i % MAX_SUBUNIT = 0 then some x.xpd else none

/-- The card_pcm_fromspan of the card. -/
def cardPcmFromspan (xlawZero : BitVec 8) (card : Card) (pack : Xpacket) : Card × Xpacket :=
  match card with
  | .generic generic => (card, genericCardPcmFromspan generic.xpd pack)
  | .bri subs => (card, briCardPcmFromspan subs pack)
  | .pri x =>
    let (x, pack) := priCardPcmFromspan xlawZero x pack
    (.pri x, pack)

def pcmFrameOut (s : Bus) : Bus :=
  { s with xframe := none, frameLen := 0, sent := s.sent ++ s.xframe.toList }

def lookAt (s : Bus) (i : Nat) : Bus :=
  if MAX_XPDS ≤ i then { pcmFrameOut s with phase := .idle }
  else
    match xpdOf s.cards i with
    | none => { s with phase := .look (i + 1) }
    | some xpd =>
      if xpd.registered = true ∧ xpd.pcmLen ≠ 0 ∧ xpd.cardPresent = true then
        { s with phase := .reserve i xpd.pcmLen }
      else { s with phase := .look (i + 1) }

/-- The first packet of a new frame, if there is one; a packet that is too long for any
    frame is tried for ever. -/
def reserveFirst (got : Bool) (s : Bus) (i pcmLen : Nat) : Option Bus :=
  if got = false then some { s with phase := .idle }
  else if pcmLen ≤ XFRAME_DATASIZE then
    some { s with xframe := some [], frameLen := pcmLen, phase := .fill i pcmLen 0 }
  else none

/-- xframe_next_packet, in a new frame where the old one is full. -/
def reserveNext (got : Bool) (s : Bus) (i pcmLen : Nat) : Option Bus :=
  if s.xframe = none then reserveFirst got s i pcmLen
  else if s.frameLen + pcmLen ≤ XFRAME_DATASIZE then
    some { s with frameLen := s.frameLen + pcmLen, phase := .fill i pcmLen s.frameLen }
  else reserveFirst got (pcmFrameOut s) i pcmLen

def fillAt (xlawZero : BitVec 8) (s : Bus) (i pcmLen pos : Nat) : Option Bus :=
  (s.cards (i / MAX_SUBUNIT)).map fun card =>
    let (card, pack) := cardPcmFromspan xlawZero card ⟨pcmLen, 0, []⟩
    { s with
      cards := Function.update s.cards (i / MAX_SUBUNIT) (some card)
      xframe := s.xframe.map fun packets => packets ++ [⟨pos, pcmLen, pack⟩]
      phase := .look (i + 1) }

/-- An operation of another context on the card of a unit, or a step of the tick. -/
inductive Label where
  | op (unit : Nat) (op : CardOp)
  | tick
  | look
  | reserve (got : Bool)
  | fill (xlawZero : BitVec 8)

def tickStep (s : Bus) : Label → Option Bus
  | .op _ _ => none
  | .tick => if s.phase = .idle then some { s with phase := .look 0 } else none
  | .look =>
    match s.phase with
    | .look i => some (lookAt s i)
    | _ => none
  | .reserve got =>
    match s.phase with
    | .reserve i pcmLen => reserveNext got s i pcmLen
    | _ => none
  | .fill xlawZero =>
    match s.phase with
    | .fill i pcmLen pos => fillAt xlawZero s i pcmLen pos
    | _ => none

def BusStep (notify : Bool) (s : Bus) (l : Label) (s' : Bus) : Prop :=
  match l with
  | .op unit op => ∃ card card', s.cards unit = some card ∧ Step notify card op card' ∧
      s' = { s with cards := Function.update s.cards unit (some card') }
  | l => tickStep s l = some s'

def ticks (notify : Bool) : System Bus Label where
  start s := (∀ unit card, s.cards unit = some card → Fresh card) ∧ s.phase = .idle ∧
    s.xframe = none ∧ s.frameLen = 0 ∧ s.sent = []
  step := BusStep notify

/-- The length field is that of the lines, and the packet stays in the bytes reserved for
    it, which stay in the frame. -/
def Fits (p : Placed) : Prop :=
  p.pack.len = RPACKET_HEADERSIZE + sizeofLines + 8 * count p.pack.lines CHANNELS_PERXPD ∧
  RPACKET_HEADERSIZE + sizeofLines + p.pack.pcm.length ≤ p.room ∧
  p.pos + p.room ≤ XFRAME_DATASIZE

/-- The operations keep length and mask together, and when a card fills its packet its
    length is the one that the tick has read, and the main subunit of a BRI card is there. -/
def Steady (notify : Bool) (s : Bus) : Label → Prop
  | .op unit op => ∀ card, s.cards unit = some card → Good notify card op
  | .fill _ =>
    match s.phase with
    | .fill i pcmLen _ => ∃ xpd, xpdOf s.cards i = some xpd ∧ xpd.pcmLen = pcmLen ∧
        ∀ subs, s.cards (i / MAX_SUBUNIT) = some (.bri subs) → xpd.cardPresent = true
    | _ => True
  | _ => True

end XbusTick

/-!
Packets that xbus_tick fills while other contexts recompute. Each has the right length,
and stays in its bytes, as long as no recompute between the two reads of the tick changes
the length of the card.
-/
namespace XbusTick
open Xpp LineMask PackedSlots GuardedRun PcmLength PcmLengthRuns PcmTrip

section Bri
variable {subs subs' : BriUnit} {main sub : BriXpd} {i : Nat}

/-- The lines of the other subunits are among those of the main one, as long as it has a
    length. -/
def Covered (subs : BriUnit) : Prop :=
  ∀ main, subs 0 = some main → main.xpd.pcmLen ≠ 0 → ∀ i < 8, 0 < i → ∀ sub, subs i = some sub →
    ∀ j, sub.xpd.wantedPcmMask.getLsbD j = true →
      j < 2 ∧ main.xpd.wantedPcmMask.getLsbD (4 * i + j) = true

theorem covered_recompute (shapes : ∀ i sub, subs i = some sub → SubShape sub) :
    Covered (briCardPcmRecompute subs) := by
  cases present : subs 0 with
  | none =>
    rw [recompute_absent present]
    intro main here
    rw [present] at here
    cases here
  | some old =>
    intro main here _ i inside later sub there j wanted
    rw [recompute_present present, if_pos rfl] at here
    rw [recompute_present present, if_neg (by omega), if_pos inside] at there
    obtain ⟨before, was, rfl⟩ := Option.map_eq_some_iff.mp there
    have lines : (linesAt subs i).getLsbD j = true := by
      unfold linesAt
      rw [was]
      exact wanted
    have small := lines_at_below shapes i j lines
    refine ⟨small, ?_⟩
    rw [← Option.some.inj here]
    unfold settledMain settle
    dsimp only
    split <;> rename_i dummy
    · have none_ : ∑ i ∈ Finset.range 8, counted (linesAt subs i) = 0 :=
        Int.natCast_eq_zero.mp (beq_iff_eq.mp dummy.2)
      have empty := Finset.sum_eq_zero_iff.mp none_ i (Finset.mem_range.mpr inside)
      unfold counted at empty
      split at empty
      case isTrue zero =>
        rw [zero] at lines
        simp at lines
      case isFalse => cases empty
    · unfold updateWantedPcmMask
      dsimp only
      rw [getLsbD_blocks _ (show 4 * 8 ≤ 32 by omega) (by omega) inside]
      · exact lines
      · intro k l isSet
        have := lines_at_below shapes k l isSet
        omega

/-- The masks and lengths are those that were there. -/
theorem covered_kept (covered : Covered subs)
    (kept : ∀ i sub', subs' i = some sub' → ∃ sub, subs i = some sub ∧
      sub'.xpd.wantedPcmMask = sub.xpd.wantedPcmMask ∧ sub'.xpd.pcmLen = sub.xpd.pcmLen) :
    Covered subs' := by
  intro main here length i inside later sub there j wanted
  obtain ⟨oldMain, wasMain, masks, lengths⟩ := kept 0 main here
  obtain ⟨old, was, mask, _⟩ := kept i sub there
  rw [masks]
  rw [lengths] at length
  rw [mask] at wanted
  exact covered oldMain wasMain length i inside later old was j wanted

theorem covered_set (covered : Covered subs) (present : subs i = some sub) {new : BriXpd}
    (masks : new.xpd.wantedPcmMask = sub.xpd.wantedPcmMask) (lengths : new.xpd.pcmLen = sub.xpd.pcmLen) :
    Covered (setSub subs i new) := by
  apply covered_kept covered
  intro j sub' here
  unfold setSub at here
  by_cases same : j = i
  · rw [same, Function.update_self] at here
    rw [same, ← Option.some.inj here]
    exact ⟨sub, present, masks, lengths⟩
  · rw [Function.update_of_ne same] at here
    exact ⟨sub', here, rfl, rfl⟩

theorem covered_closed (covered : Covered subs) : Covered (dchanClosed subs i) := by
  apply covered_kept covered
  intro j sub' here
  unfold dchanClosed at here
  by_cases same : j = i
  · rw [same, Function.update_self] at here
    obtain ⟨old, was, rfl⟩ := Option.map_eq_some_iff.mp here
    rw [same]
    exact ⟨old, was, rfl, rfl⟩
  · rw [Function.update_of_ne same] at here
    exact ⟨sub', here, rfl, rfl⟩

theorem covered_detached (covered : Covered subs) : Covered (Function.update subs i none) := by
  apply covered_kept covered
  intro j sub' here
  by_cases same : j = i
  · rw [same, Function.update_self] at here
    cases here
  · rw [Function.update_of_ne same] at here
    exact ⟨sub', here, rfl, rfl⟩

/-- A new subunit has no lines and no length. -/
theorem covered_attached (covered : Covered subs) (unit : Nat) :
    Covered (setSub subs i (freshBri unit)) := by
  have other : ∀ j ≠ i, setSub subs i (freshBri unit) j = subs j := by
    intro j apart
    exact Function.update_of_ne apart _ _
  have new : setSub subs i (freshBri unit) i = some (freshBri unit) := Function.update_self _ _ _
  intro main here length k inside later sub there j wanted
  by_cases first : 0 = i
  · subst first
    rw [new] at here
    rw [← Option.some.inj here] at length
    exact absurd rfl length
  · rw [other 0 first] at here
    by_cases same : k = i
    · rw [same, new] at there
      rw [← Option.some.inj there] at wanted
      simp [freshBri, freshXpd] at wanted
    · rw [other k same] at there
      exact covered main here length k inside later sub there j wanted

theorem covered_step {notify : Bool} {op : BriOp} (shape : BriShape subs) (covered : Covered subs)
    (step : BriStep notify subs i op subs') : Covered subs' := by
  cases step with
  | @attach unit _ _ => exact covered_attached covered unit
  | @apply sub _ present allowed =>
    have old := shape.shape i sub present
    have fake := shape.fake i sub present
    cases op with
    | attach unit => exact absurd allowed (by simp [BriOp.Allowed])
    | detach => exact covered_detached covered
    | present on => exact covered_set covered present rfl rfl
    | postregistration on => exact covered_set covered present rfl rfl
    | preregistration =>
      exact covered_recompute (set_sub_shape shape (preregistered_shape old) fake).shape
    | recompute => exact covered_recompute shape.shape
    | audioNotify pos on =>
      exact covered_recompute (with_offhook_shape shape present allowed.2.2
        (below_mark old.offhook (old.channels ▸ allowed.2.1) on)).shape
    | cardOpen pos =>
      unfold BriOp.applySub briCardOpen
      dsimp only
      split
      · have opened := with_offhook_shape shape present allowed.2 (span_below old.offhook).1
        have new := opened.shape i (withOffhook sub (briOffhookSpan sub.xpd.offhookState))
          (Function.update_self ..)
        exact covered_recompute (set_sub_shape shape (flags_shape new
          (withOffhook sub (briOffhookSpan sub.xpd.offhookState)).xpd rfl rfl rfl rfl true) fake).shape
      · exact covered
    | cardClose pos =>
      unfold BriOp.applySub briCardClose
      dsimp only
      split
      · exact covered_closed (covered_recompute (with_offhook_shape shape present allowed.2
          (span_below old.offhook).2).shape)
      · split
        · exact covered
        · exact covered_recompute (with_offhook_shape shape present allowed.2
            (below_mark old.offhook (old.channels ▸ allowed.1) false)).shape

/-- The lines of the packet are those of the main subunit, and no more chunks are written. -/
theorem bri_filled (shape : BriShape subs) (covered : Covered subs) (present : subs 0 = some main)
    (there : main.xpd.cardPresent = true) (length : main.xpd.pcmLen ≠ 0) (pack : Xpacket) :
    (briCardPcmFromspan subs pack).lines = main.xpd.wantedPcmMask ∧
    (briCardPcmFromspan subs pack).pcm.length ≤ 8 * count main.xpd.wantedPcmMask 32 := by
  have written := bri_written (fun i sub here => (shape.shape i sub here).channels) 8
  have lines : (briCardPcmFromspan subs pack).lines = main.xpd.wantedPcmMask := by
    apply BitVec.eq_of_getLsbD_eq
    intro s small
    rw [Bool.eq_iff_iff]
    apply (written.lines s).trans
    constructor
    · rintro ⟨_, i, inside, sub, here, _, start, wanted⟩
      by_cases first : i = 0
      · subst first
        rw [present] at here
        rw [Option.some.inj here]
        exact wanted
      · have both := covered main present length i inside (by omega) sub here _ wanted
        have place : 4 * i + (s - 4 * i) = s := by omega
        rw [place] at both
        exact both.2
    · intro wanted
      exact ⟨small, 0, by omega, main, present, there, by omega, wanted⟩
  refine ⟨lines, ?_⟩
  have pcm : (briCardPcmFromspan subs pack).pcm = packed (sentSlot subs) (slotChunk subs) 32 := written.pcm
  rw [pcm, packed_length, ← rank_count]
  apply Nat.mul_le_mul_left
  apply rank_mono
  intro s small sent
  obtain ⟨i, j, low, rfl⟩ : ∃ i j, j < 4 ∧ 4 * i + j = s := ⟨s / 4, s % 4, by omega, by omega⟩
  cases here : subs i with
  | none =>
    rw [sent_slot_absent low here] at sent
    cases sent
  | some sub =>
    rw [sent_slot_present low here, Bool.and_eq_true, Bool.and_eq_true] at sent
    by_cases first : i = 0
    · subst first
      rw [present] at here
      rw [Option.some.inj here, Nat.mul_zero, Nat.zero_add]
      exact sent.2.2
    · exact (covered main present length i (by omega) (by omega) sub here j sent.2.2).2

end Bri

section Generic

theorem generic_filled (xpd : Xpd) (channels : xpd.channels ≤ 32) (pack : Xpacket) :
    (genericCardPcmFromspan xpd pack).pcm.length ≤ 8 * count xpd.wantedPcmMask 32 := by
  unfold genericCardPcmFromspan sendLines
  rw [send_lines, List.nil_append, packed_length, rank_count]
  apply Nat.mul_le_mul_left
  obtain ⟨more, sum⟩ := Nat.exists_eq_add_of_le channels
  have parts := count_add xpd.wantedPcmMask xpd.channels more
  rw [← sum] at parts
  omega

end Generic

section Pri
variable {x x' : PriXpd}

/-- What the watching of the D-channel leaves of the masks. -/
structure MasksKept (x x' : PriXpd) : Prop where
  channels : x'.xpd.channels = x.xpd.channels
  offhook : x'.xpd.offhookState = x.xpd.offhookState
  wanted : x'.xpd.wantedPcmMask = x.xpd.wantedPcmMask
  pcmLen : x'.xpd.pcmLen = x.xpd.pcmLen
  proto : x'.priProtocol = x.priProtocol
  number : x'.dchanNum = x.dchanNum

theorem sent_masks_kept (x : PriXpd) : MasksKept x (dchanSent x) := by
  unfold dchanSent
  dsimp only
  split
  · exact ⟨rfl, rfl, rfl, rfl, rfl, rfl⟩
  · split
    · obtain ⟨channels, offhook, wanted, pcmLen, proto, number⟩ := dchan_stop_keeps x
      exact ⟨channels, offhook, wanted, pcmLen, proto, number⟩
    · exact ⟨rfl, rfl, rfl, rfl, rfl, rfl⟩

theorem masks_kept_trans {x'' : PriXpd} (first : MasksKept x x') (second : MasksKept x' x'') :
    MasksKept x x'' := by
  constructor
  · exact second.channels.trans first.channels
  · exact second.offhook.trans first.offhook
  · exact second.wanted.trans first.wanted
  · exact second.pcmLen.trans first.pcmLen
  · exact second.proto.trans first.proto
  · exact second.number.trans first.number

theorem wire_inside (shape : PriShape x) {n : Nat} (inside : n < x.xpd.channels) :
    wire x.priProtocol n < 32 := by
  have layout := shape.layout
  have most := shape.channels
  cases proto : x.priProtocol with
  | none =>
    unfold wire
    dsimp only
    omega
  | e1 =>
    rw [proto] at layout
    rw [layout (by decide)] at inside
    exact wire_small (Or.inl rfl) inside
  | t1 =>
    rw [proto] at layout
    rw [layout (by decide)] at inside
    exact wire_small (Or.inr rfl) inside
  | j1 =>
    rw [proto] at layout
    rw [layout (by decide)] at inside
    cases inside

/-- What the writer's loop has done to the first n lines. -/
structure PriFilled (x : PriXpd) (n : Nat) (sent : PriSent) : Prop where
  kept : MasksKept x sent.x
  pcm : sent.pcm.length = 8 * count x.xpd.wantedPcmMask n
  physical : sent.physicalChan = wireNext x.priProtocol n
  below : Below (wireNext x.priProtocol n) sent.physicalMask
  lines : count sent.physicalMask 32 = count x.xpd.wantedPcmMask n

theorem pri_fill_step (shape : PriShape x) {n : Nat} {sent : PriSent} (xlawZero : BitVec 8)
    (inside : n < x.xpd.channels) (before : PriFilled x n sent) :
    PriFilled x (n + 1) (priSendLine xlawZero x.xpd.wantedPcmMask sent n) := by
  have wired := wire_inside shape inside
  have next := wire_next x.priProtocol n
  have after := wire_next_succ x.priProtocol n
  have here : sent.physicalChan + unusedBefore sent.x.priProtocol n = wire x.priProtocol n := by
    rw [before.physical, before.kept.proto, next]
  unfold priSendLine
  dsimp only
  rw [here]
  split <;> rename_i wanted
  · have fresh : sent.physicalMask.getLsbD (wire x.priProtocol n) = false := by
      by_contra there
      have := before.below _ (by simpa using there)
      omega
    constructor
    · split
      · exact masks_kept_trans before.kept (sent_masks_kept _)
      · exact before.kept
    · dsimp only
      rw [List.length_append, before.pcm, count, if_pos wanted, Vector.length_toList]
      omega
    · exact after.symm
    · rw [after]
      apply below_set _ (Nat.lt_succ_self _)
      intro j isSet
      have := before.below j isSet
      omega
    · rw [count_set_new fresh wired (by omega) wired, before.lines, count, if_pos wanted]
  · constructor
    · exact before.kept
    · rw [before.pcm, count, if_neg wanted, Nat.add_zero]
    · exact after.symm
    · intro j isSet
      have := before.below j isSet
      omega
    · rw [before.lines, count, if_neg wanted, Nat.add_zero]

theorem pri_filled (shape : PriShape x) (xlawZero : BitVec 8) (n : Nat) (most : n ≤ x.xpd.channels) :
    PriFilled x n ((List.range n).foldl (priSendLine xlawZero x.xpd.wantedPcmMask) ⟨x, [], 0, 0⟩) := by
  induction n with
  | zero =>
    constructor
    · exact ⟨rfl, rfl, rfl, rfl, rfl, rfl⟩
    · rfl
    · cases proto : x.priProtocol with
      | none => rfl
      | e1 => rfl
      | t1 => rfl
      | j1 => rfl
    · exact below_zero
    · exact count_zero 32
  | succ n ih =>
    rw [List.range_succ, List.foldl_append, List.foldl_cons, List.foldl_nil]
    exact pri_fill_step shape xlawZero most (ih (by omega))

end Pri

section Cards

structure CardSound (card : Card) : Prop where
  shape : CardShape card
  agrees : CardAgrees card
  covered : ∀ subs, card = .bri subs → Covered subs

theorem fresh_card_sound {card : Card} (fresh : Fresh card) : CardSound card := by
  obtain ⟨shape, agrees⟩ := fresh_sound fresh
  refine ⟨shape, agrees, ?_⟩
  intro subs same
  subst same
  cases fresh
  intro main here
  cases here

theorem card_sound_step {notify : Bool} {card card' : Card} {op : CardOp} (sound : CardSound card)
    (good : Good notify card op) (step : Step notify card op card') : CardSound card' := by
  obtain ⟨shape, agree⟩ := card_step sound.shape step
  refine ⟨shape, (agree sound.agrees).mpr good, ?_⟩
  intro subs' same
  cases step with
  | generic _ => cases same
  | @bri subs _ i op _ step =>
    cases same
    exact covered_step sound.shape (sound.covered subs rfl) step
  | pri _ => cases same

/-- The packet of a card whose length is the one that was read. -/
theorem card_filled {s : Bus} {i pcmLen : Nat} {card : Card} {xpd : Xpd} (xlawZero : BitVec 8)
    (here : s.cards (i / MAX_SUBUNIT) = some card) (sound : CardSound card)
    (chosen : xpdOf s.cards i = some xpd) (length : xpd.pcmLen = pcmLen) (some_ : pcmLen ≠ 0)
    (there : ∀ subs, card = .bri subs → xpd.cardPresent = true) :
    CardSound (cardPcmFromspan xlawZero card ⟨pcmLen, 0, []⟩).1 ∧
    (cardPcmFromspan xlawZero card ⟨pcmLen, 0, []⟩).2.len = pcmLen ∧
    pcmLen = 8 + 8 * count (cardPcmFromspan xlawZero card ⟨pcmLen, 0, []⟩).2.lines 32 ∧
    8 + (cardPcmFromspan xlawZero card ⟨pcmLen, 0, []⟩).2.pcm.length ≤ pcmLen := by
  have whole (agrees : Agrees xpd) : pcmLen = 8 + 8 * count xpd.wantedPcmMask 32 := by
    rw [← good_len, ← length]
    exact agrees.resolve_left (by omega)
  unfold xpdOf at chosen
  rw [here] at chosen
  cases card with
  | generic generic =>
    dsimp only at chosen
    split at chosen
    · cases chosen
      have lines := whole (sound.agrees _ (Has.generic generic))
      have bytes := generic_filled generic.xpd sound.shape.shape.channels ⟨pcmLen, 0, []⟩
      refine ⟨sound, rfl, lines, ?_⟩
      unfold cardPcmFromspan
      dsimp only
      omega
    · cases chosen
  | bri subs =>
    obtain ⟨sub, present, rfl⟩ := Option.map_eq_some_iff.mp chosen
    have first : i % MAX_SUBUNIT = 0 := by
      by_contra later
      exact some_ (length ▸ sound.shape.fake _ sub present (by omega))
    rw [first] at present
    have lines := whole (sound.agrees _ (Has.bri present))
    obtain ⟨same, bytes⟩ := bri_filled sound.shape (sound.covered subs rfl) present (there subs rfl)
      (by omega) ⟨pcmLen, 0, []⟩
    refine ⟨sound, rfl, ?_, ?_⟩
    · unfold cardPcmFromspan
      dsimp only
      rw [same]
      exact lines
    · unfold cardPcmFromspan
      dsimp only
      omega
  | pri x =>
    dsimp only at chosen
    split at chosen
    · cases chosen
      have agrees := sound.agrees _ (Has.pri x)
      have shape : PriShape x := sound.shape
      have lines := whole agrees
      have filled := pri_filled shape xlawZero x.xpd.channels (Nat.le_refl _)
      rw [count_below shape.wanted shape.channels] at lines
      have kept := filled.kept
      obtain ⟨shaped, same⟩ := pri_kept shape kept.channels kept.offhook kept.wanted kept.pcmLen
        kept.proto kept.number
      refine ⟨⟨shaped, ?_, ?_⟩, rfl, ?_, ?_⟩
      · intro xpd has
        cases has
        exact same.mpr agrees
      · intro subs equal
        cases equal
      · unfold cardPcmFromspan priCardPcmFromspan
        dsimp only
        rw [filled.lines]
        exact lines
      · unfold cardPcmFromspan priCardPcmFromspan
        dsimp only
        rw [filled.pcm]
        omega
    · cases chosen

end Cards

section Runs
variable {s s' : Bus} {l : Label} {notify : Bool}

def PhaseSound : Phase → Prop
  | .idle => True
  | .look _ => True
  | .reserve _ pcmLen => pcmLen ≠ 0
  | .fill _ pcmLen pos => pcmLen ≠ 0 ∧ pos + pcmLen ≤ XFRAME_DATASIZE

structure Sound (s : Bus) : Prop where
  cards : ∀ unit card, s.cards unit = some card → CardSound card
  frame : ∀ packets, s.xframe = some packets → ∀ p ∈ packets, Fits p
  sent : ∀ packets ∈ s.sent, ∀ p ∈ packets, Fits p
  phase : PhaseSound s.phase

theorem frame_out_sound (sound : Sound s) : Sound (pcmFrameOut s) := by
  constructor
  · exact sound.cards
  · intro packets here
    cases here
  · intro packets member p inside
    rcases List.mem_append.mp member with old | new
    · exact sound.sent packets old p inside
    · exact sound.frame packets (Option.mem_toList.mp new) p inside
  · exact sound.phase

theorem phase_sound (sound : Sound s) {phase : Phase} (new : PhaseSound phase) :
    Sound { s with phase := phase } :=
  ⟨sound.cards, sound.frame, sound.sent, new⟩

theorem look_sound (sound : Sound s) (i : Nat) : Sound (lookAt s i) := by
  unfold lookAt
  split
  · exact phase_sound (frame_out_sound sound) trivial
  · split
    · exact phase_sound sound trivial
    · split
      case isTrue all => exact phase_sound sound all.2.1
      case isFalse => exact phase_sound sound trivial

theorem reserve_first_sound {got : Bool} {i pcmLen : Nat} (sound : Sound s) (some_ : pcmLen ≠ 0)
    (done : reserveFirst got s i pcmLen = some s') : Sound s' := by
  unfold reserveFirst at done
  split at done
  · cases done
    exact phase_sound sound trivial
  · split at done
    case isTrue fits =>
      cases done
      refine ⟨sound.cards, ?_, sound.sent, ⟨some_, by omega⟩⟩
      intro packets here p member
      cases here
      cases member
    case isFalse => cases done

theorem reserve_next_sound {got : Bool} {i pcmLen : Nat} (sound : Sound s) (some_ : pcmLen ≠ 0)
    (done : reserveNext got s i pcmLen = some s') : Sound s' := by
  unfold reserveNext at done
  split at done
  · exact reserve_first_sound sound some_ done
  · split at done
    case isTrue fits =>
      cases done
      exact ⟨sound.cards, sound.frame, sound.sent, ⟨some_, fits⟩⟩
    case isFalse => exact reserve_first_sound (frame_out_sound sound) some_ done

theorem fill_sound {xlawZero : BitVec 8} {i pcmLen pos : Nat} (sound : Sound s) (some_ : pcmLen ≠ 0)
    (room : pos + pcmLen ≤ XFRAME_DATASIZE)
    (steady : ∃ xpd, xpdOf s.cards i = some xpd ∧ xpd.pcmLen = pcmLen ∧
      ∀ subs, s.cards (i / MAX_SUBUNIT) = some (.bri subs) → xpd.cardPresent = true)
    (done : fillAt xlawZero s i pcmLen pos = some s') : Sound s' := by
  obtain ⟨xpd, chosen, length, there⟩ := steady
  unfold fillAt at done
  obtain ⟨card, here, rfl⟩ := Option.map_eq_some_iff.mp done
  obtain ⟨kept, len, lines, bytes⟩ := card_filled xlawZero here (sound.cards _ card here) chosen length some_
    fun subs same => there subs (same ▸ here)
  have fits : Fits ⟨pos, pcmLen, (cardPcmFromspan xlawZero card ⟨pcmLen, 0, []⟩).2⟩ :=
    ⟨len.trans lines, bytes, room⟩
  constructor
  · intro unit card' now
    dsimp only at now
    by_cases same : unit = i / MAX_SUBUNIT
    · rw [same, Function.update_self] at now
      rw [← Option.some.inj now]
      exact kept
    · rw [Function.update_of_ne same] at now
      exact sound.cards unit card' now
  · intro packets now p member
    obtain ⟨old, was, rfl⟩ := Option.map_eq_some_iff.mp now
    rcases List.mem_append.mp member with before | last
    · exact sound.frame old was p before
    · rw [List.mem_singleton.mp last]
      exact fits
  · exact sound.sent
  · trivial

theorem sound_step (sound : Sound s) (steady : Steady notify s l) (moved : BusStep notify s l s') :
    Sound s' := by
  cases l with
  | op unit op =>
    obtain ⟨card, card', here, step, rfl⟩ := moved
    have new := card_sound_step (sound.cards unit card here) (steady card here) step
    refine ⟨?_, sound.frame, sound.sent, sound.phase⟩
    intro unit' other now
    dsimp only at now
    by_cases same : unit' = unit
    · rw [same, Function.update_self] at now
      rw [← Option.some.inj now]
      exact new
    · rw [Function.update_of_ne same] at now
      exact sound.cards unit' other now
  | tick =>
    unfold BusStep tickStep at moved
    dsimp only at moved
    split at moved
    · cases moved
      exact phase_sound sound trivial
    · cases moved
  | look =>
    unfold BusStep tickStep at moved
    dsimp only at moved
    split at moved
    · cases moved
      exact look_sound sound _
    · cases moved
  | reserve got =>
    unfold BusStep tickStep at moved
    dsimp only at moved
    split at moved
    case h_1 i pcmLen phase =>
      have some_ := sound.phase
      rw [phase] at some_
      exact reserve_next_sound sound some_ moved
    case h_2 => cases moved
  | fill xlawZero =>
    unfold BusStep tickStep at moved
    dsimp only at moved
    split at moved
    case h_1 i pcmLen pos phase =>
      have placed := sound.phase
      rw [phase] at placed
      unfold Steady at steady
      rw [phase] at steady
      exact fill_sound sound placed.1 placed.2 steady moved
    case h_2 => cases moved

theorem packets_fit (notify : Bool) (s : Bus) (reached : Reach (ticks notify) (Steady notify) s) :
    ∀ packets ∈ s.sent, ∀ p ∈ packets, Fits p := by
  have sound : Sound s := by
    apply @invariant_run _ _ (ticks notify) (Steady notify) Sound
    · intro s start
      obtain ⟨fresh, phase, frame, _, sent⟩ := start
      constructor
      · intro unit card here
        exact fresh_card_sound (fresh unit card here)
      · intro packets here
        rw [frame] at here
        cases here
      · intro packets member
        rw [sent] at member
        cases member
      · rw [phase]
        trivial
    · intro s l s' sound steady moved
      exact sound_step sound steady moved
    · exact reached
  exact sound.sent

end Runs

section Example

instance (xpd : Xpd) (op : GenericOp) : Decidable (op.Allowed xpd) := by
  cases op
  all_goals
    unfold GenericOp.Allowed
    infer_instance

def nextOf (s : Bus) : Label → Option Bus
  | .op unit (.generic op) =>
    match s.cards unit with
    | some (.generic card) =>
      if op.Allowed card.xpd then
        some { s with cards := Function.update s.cards unit (some (.generic (op.apply card))) }
      else none
    | _ => none
  | .op _ (.bri _ _) => none
  | .op _ (.pri _) => none
  | .tick => tickStep s .tick
  | .look => tickStep s .look
  | .reserve got => tickStep s (.reserve got)
  | .fill xlawZero => tickStep s (.fill xlawZero)

theorem next_of_step (s : Bus) (l : Label) (s' : Bus) (done : nextOf s l = some s') :
    BusStep false s l s' := by
  cases l with
  | op unit op =>
    cases op with
    | generic op =>
      rw [nextOf] at done
      split at done
      case h_1 card here =>
        split at done
        case isTrue allowed =>
          cases done
          exact ⟨_, _, here, Step.generic allowed, rfl⟩
        case isFalse => cases done
      case h_2 => cases done
    | bri _ _ => cases done
    | pri _ => cases done
  | tick => exact done
  | look => exact done
  | reserve got => exact done
  | fill xlawZero => exact done

/-- Operations on FXS and FXO cards, and no length changed where a packet is filled. -/
def Still (s : Bus) : Label → Prop
  | .op _ (.generic _) => True
  | .op _ (.bri _ _) => False
  | .op _ (.pri _) => False
  | .fill _ =>
    match s.phase with
    | .fill i pcmLen _ => (xpdOf s.cards i).any (fun xpd => xpd.pcmLen == pcmLen && xpd.cardPresent) = true
    | _ => True
  | _ => True

instance (s : Bus) (l : Label) : Decidable (Still s l) := by
  cases l with
  | op unit op =>
    cases op
    all_goals
      unfold Still
      infer_instance
  | fill xlawZero =>
    unfold Still
    cases s.phase
    all_goals infer_instance
  | tick => exact instDecidableTrue
  | look => exact instDecidableTrue
  | reserve got => exact instDecidableTrue

theorem still_steady (s : Bus) (l : Label) (still : Still s l) : Steady false s l := by
  cases l with
  | op unit op =>
    cases op with
    | generic op =>
      intro card _
      cases card
      all_goals trivial
    | bri _ _ => cases still
    | pri _ => cases still
  | tick => trivial
  | look => trivial
  | reserve got => trivial
  | fill xlawZero =>
    unfold Still at still
    unfold Steady
    cases phase : s.phase with
    | fill i pcmLen pos =>
      rw [phase] at still
      obtain ⟨xpd, chosen, both⟩ := (Option.any_eq_true _ _).mp still
      rw [Bool.and_eq_true, beq_iff_eq] at both
      exact ⟨xpd, chosen, both.1, fun _ _ => both.2⟩
    | idle => trivial
    | look i => trivial
    | reserve i pcmLen => trivial

/-- An FXS card of eight lines in unit 1. -/
def station : Bus where
  cards := fun unit => if unit = 1 then some (.generic (freshGeneric 1 8 0 0)) else none
  phase := .idle
  xframe := none
  frameLen := 0
  sent := []

theorem station_start : (ticks false).start station := by
  refine ⟨?_, rfl, rfl, rfl, rfl⟩
  intro unit card here
  unfold station at here
  dsimp only at here
  split at here
  · cases here
    exact Fresh.generic 1 8 0 0 (by decide)
  · cases here

/-- The first line goes off hook, and the tick comes to the card. -/
def offhookTick : List Label :=
  [.op 1 (.generic (.present true)), .op 1 (.generic (.postregistration true)),
    .op 1 (.generic (.markOffhook 0 true)), .tick] ++ List.replicate 9 .look ++ [.reserve true]

/-- The rest of the tick, with a recompute before the card fills its packet. -/
def undisturbed : List Label :=
  offhookTick ++ [.op 1 (.generic .recompute), .fill 0] ++ List.replicate 56 .look

theorem packets_fit_undisturbed : ∃ s, follow nextOf Still undisturbed station = some s ∧
    (s.sent.map fun packets => packets.map fun p => (p.room, p.pack.lines)) = [[(16, 1)]] ∧
    ∀ packets ∈ s.sent, ∀ p ∈ packets, Fits p := by
  have runs : (follow nextOf Still undisturbed station).any (fun s =>
      (s.sent.map fun packets => packets.map fun p => (p.room, p.pack.lines)) = [[(16, 1)]]) = true := by
    decide +kernel
  obtain ⟨s, ends, shown⟩ := (Option.any_eq_true _ _).mp runs
  refine ⟨s, ends, of_decide_eq_true shown, ?_⟩
  apply packets_fit false s
  apply @reach_mono _ _ (ticks false) Still
  · exact still_steady
  · apply @follow_reach _ _ (ticks false) nextOf Still _ next_of_step _ _ _ _ ends
    exact Reach.start station_start

/-- The second line goes off hook between the two reads. -/
def disturbed : List Label :=
  offhookTick ++ [.op 1 (.generic (.markOffhook 1 true)), .fill 0] ++ List.replicate 56 .look

theorem packet_overruns :
    ¬ ∀ s, Reach (ticks false) anyStep s → ∀ packets ∈ s.sent, ∀ p ∈ packets, Fits p := by
  intro always
  have runs : (follow nextOf anyStep disturbed station).any (fun s =>
      ∃ packets ∈ s.sent, ∃ p ∈ packets, p.room = 16 ∧ p.pack.len = 16 ∧ p.pack.lines = 3 ∧
        p.pack.pcm.length = 16) = true := by decide +kernel
  obtain ⟨s, ends, shown⟩ := (Option.any_eq_true _ _).mp runs
  obtain ⟨packets, member, p, inside, room, _, _, pcm⟩ := of_decide_eq_true shown
  have reached : Reach (ticks false) anyStep s := by
    apply @follow_reach _ _ (ticks false) nextOf anyStep _ next_of_step _ _ _ _ ends
    exact Reach.start station_start
  have short := (always s reached packets member p inside).2.1
  rw [room, pcm] at short
  exact absurd short (by decide)

end Example

end XbusTick
