import Dahdi.Xpp.PriTrip
import Dahdi.Xpp.BriTrip
import Dahdi.Xpp.LengthRuns

/-!
The loop-back of a packet with the masks of any run and any contents. FXS, FXO and PRI
cards give every line its own chunk. A BRI card does so unless it has lines of an
unregistered subunit to skip, or its subunit 0 is not registered.
-/
namespace PacketTrip
open Xpp LineMask PackedSlots PcmLength PcmLengthRuns PcmTrip GuardedRun

section Contents

/-- The xpd with new contents of its write chunks. -/
def filled (xpd : Xpd) (contents : Nat → Chunk) : Xpd :=
  { xpd with chans := fun j => ⟨(xpd.chans j).readchunk, contents j⟩ }

def filledUnit (subs : BriUnit) (contents : Nat → Nat → Chunk) : BriUnit :=
  fun i => (subs i).map fun sub => { sub with xpd := filled sub.xpd (contents i) }

def filledPri (x : PriXpd) (contents : Nat → Chunk) : PriXpd := { x with xpd := filled x.xpd contents }

def GenericTrips (xpd : Xpd) (contents : Nat → Chunk) : Prop :=
  ∀ pack, ∀ i < xpd.channels, xpd.wantedPcmMask.getLsbD i = true →
    ((genericCardPcmTospan xpd (genericCardPcmFromspan xpd pack)).chans i).readchunk = contents i

def PriTrips (x : PriXpd) (contents : Nat → Chunk) : Prop :=
  ∀ xlawZero pack, ∀ i < x.xpd.channels, x.xpd.wantedPcmMask.getLsbD i = true →
    let sent := priCardPcmFromspan xlawZero x pack
    ((priCardPcmTospan sent.1 sent.2).xpd.chans i).readchunk = contents i

/-- The lines of the subunits that are there and registered. -/
def BriTrips (subs : BriUnit) (main : BriXpd) (contents : Nat → Nat → Chunk) : Prop :=
  ∀ pack, ∀ i < 8, ∀ sub, subs i = some sub → sub.xpd.cardPresent = true → sub.xpd.registered = true →
    ∀ j < sub.xpd.channels, sub.xpd.wantedPcmMask.getLsbD j = true →
      ∃ sub', briCardPcmTospan subs 0 main.xpd (briCardPcmFromspan subs pack) i = some sub' ∧
        (sub'.xpd.chans j).readchunk = contents i j

/-- Each registered line of the recomputed card gets its own chunk, with nothing muted. -/
def Trips : Card → Prop
  | .generic card => ∀ arg contents,
    let xpd := filled (genericCardPcmRecompute card.xpd arg) contents
    xpd.muteDtmf = 0 → xpd.silencePcm = 0 → xpd.registered = true → GenericTrips xpd contents
  | .bri subs => ∀ contents main,
    let subs := filledUnit (briCardPcmRecompute subs) contents
    subs 0 = some main → BriTrips subs main contents
  | .pri x => ∀ contents,
    let x := filledPri (priCardPcmRecompute x 0) contents
    Framed x.priProtocol → x.xpd.registered = true → PriTrips x contents

/-- A subunit that is there has wanted lines. -/
def Wants (subs : BriUnit) (i : Nat) : Prop :=
  ∃ sub, subs i = some sub ∧ sub.xpd.cardPresent = true ∧ ∃ j < 3, sub.xpd.wantedPcmMask.getLsbD j = true

/-- A registered subunit with wanted lines has subunit 0 registered, and no
    unregistered subunit with wanted lines before it. -/
def InOrder (subs : BriUnit) : Prop :=
  ∀ i < 8, Wants subs i → isRegistered subs i = true →
    isRegistered subs 0 = true ∧ ∀ k < i, Wants subs k → isRegistered subs k = true

def TripsWhen : Card → Prop
  | .bri subs => (subs 0).isSome = true → InOrder (briCardPcmRecompute subs)
  | _ => True

end Contents

section Masks
variable {subs : BriUnit} {main : BriXpd}

theorem settled_main_wanted (subs : BriUnit) (main : BriXpd) :
    (settledMain subs main).xpd.wantedPcmMask = bit 32 0 ∨
      (settledMain subs main).xpd.wantedPcmMask = blocks (linesAt subs) 4 8 := by
  unfold settledMain settle
  dsimp only
  split
  · exact Or.inl rfl
  · exact Or.inr rfl

theorem lines_at_below (shape : BriShape subs) (i : Nat) : Below 2 (linesAt subs i) := by
  unfold linesAt
  cases here : subs i with
  | none => exact below_zero
  | some sub => exact lines_below (shape.shape i sub here)

theorem block_bit (shape : BriShape subs) {i j : Nat} (inside : i < 8) (small : j < 4) :
    (blocks (linesAt subs) 4 8).getLsbD (4 * i + j) = (linesAt subs i).getLsbD j := by
  apply getLsbD_blocks _ (by omega) small inside
  intro k l isSet
  have := lines_at_below shape k l isSet
  omega

theorem settled_main_bit (shape : BriShape subs) {i j : Nat} (inside : i < 8) (small : j < 4) (beyond : 0 < 4 * i + j)
    (isSet : (settledMain subs main).xpd.wantedPcmMask.getLsbD (4 * i + j) = true) :
    (linesAt subs i).getLsbD j = true := by
  rcases settled_main_wanted subs main with wanted | wanted
  · rw [wanted, getLsbD_bit] at isSet
    simp only [Nat.zero_mod, Bool.and_eq_true, decide_eq_true_eq] at isSet
    omega
  · rwa [wanted, block_bit shape inside small] at isSet

theorem recompute_masks (shape : BriShape subs) (present : subs 0 = some main) :
    BriMasks (briCardPcmRecompute subs) (settledMain subs main) := by
  have shaped := bri_recompute_shape shape
  have here : briCardPcmRecompute subs 0 = some (settledMain subs main) := by
    rw [recompute_present present, if_pos rfl]
  have other {i : Nat} (inside : i < 8) (later : 0 < i) {sub : BriXpd} (there : briCardPcmRecompute subs i = some sub) :
      sub.xpd.wantedPcmMask = linesAt subs i := by
    rw [recompute_present present, if_neg (by omega), if_pos inside] at there
    obtain ⟨old, was, rfl⟩ := Option.map_eq_some_iff.mp there
    unfold linesAt
    rw [was]
    rfl
  constructor
  · exact here
  · intro i sub there
    exact (shaped.shape i sub there).channels
  · intro j high small
    by_contra isSet
    have line := @settled_main_bit subs main shape 0 j (by omega) small (by omega) (by simpa using isSet)
    have := lines_at_below shape 0 j line
    omega
  · intro i inside later sub there
    rw [other inside later there]
    exact lines_at_below shape i
  · intro i inside j small sub there isSet
    by_cases first : i = 0
    · rw [first, here] at there
      rw [← Option.some.inj there]
      rwa [first, Nat.mul_zero, Nat.zero_add] at isSet
    · rw [other inside (by omega) there]
      exact settled_main_bit shape inside small (by omega) isSet

theorem filled_masks (masks : BriMasks subs main) (contents : Nat → Nat → Chunk) :
    BriMasks (filledUnit subs contents) { main with xpd := filled main.xpd (contents 0) } := by
  have old {i : Nat} {sub : BriXpd} (there : filledUnit subs contents i = some sub) :
      ∃ was, subs i = some was ∧ sub = { was with xpd := filled was.xpd (contents i) } := by
    obtain ⟨was, here, same⟩ := Option.map_eq_some_iff.mp there
    exact ⟨was, here, same.symm⟩
  constructor
  · unfold filledUnit
    rw [masks.present]
    rfl
  · intro i sub there
    obtain ⟨was, here, rfl⟩ := old there
    exact masks.channels i was here
  · exact masks.low
  · intro i inside later sub there
    obtain ⟨was, here, rfl⟩ := old there
    exact masks.small i inside later was here
  · intro i inside j small sub there isSet
    obtain ⟨was, here, rfl⟩ := old there
    exact masks.union i inside j small was here isSet

theorem filled_slots (subs : BriUnit) (contents : Nat → Nat → Chunk) :
    sentSlot (filledUnit subs contents) = sentSlot subs ∧
      isRegistered (filledUnit subs contents) = isRegistered subs ∧
      gotSlot (filledUnit subs contents) = gotSlot subs := by
  have sent : sentSlot (filledUnit subs contents) = sentSlot subs := by
    funext s
    unfold sentSlot filledUnit
    cases subs (s / 4) with
    | none => rfl
    | some sub => rfl
  have registered : isRegistered (filledUnit subs contents) = isRegistered subs := by
    funext i
    unfold isRegistered filledUnit
    cases subs i with
    | none => rfl
    | some sub => rfl
  refine ⟨sent, registered, ?_⟩
  funext s
  unfold gotSlot
  rw [sent, registered]

end Masks

section Order
variable {subs : BriUnit} {main : BriXpd}

theorem wants_slot (subs : BriUnit) (i : Nat) : Wants subs i ↔ ∃ j < 4, sentSlot subs (4 * i + j) = true := by
  constructor
  · rintro ⟨sub, here, card, j, small, wanted⟩
    refine ⟨j, by omega, ?_⟩
    rw [sent_slot_present (by omega) here, card, wanted]
    simp [small]
  · rintro ⟨j, small, sent⟩
    cases here : subs i with
    | none =>
      rw [sent_slot_absent small here] at sent
      cases sent
    | some sub =>
      rw [sent_slot_present small here] at sent
      simp only [Bool.and_eq_true, decide_eq_true_eq] at sent
      exact ⟨sub, here, sent.1, j, sent.2.1, sent.2.2⟩

/-- Every slot filled before a slot that is taken is taken as well. -/
def Aligned (subs : BriUnit) (s : Nat) : Prop := ∀ t < s, sentSlot subs t = true → gotSlot subs t = true

theorem slot_parts (s : Nat) : 4 * (s / 4) + s % 4 = s ∧ s % 4 < 4 := by omega

theorem in_order_aligned (order : InOrder subs) {s : Nat} (inside : s < 32) (got : gotSlot subs s = true) :
    Aligned subs s := by
  intro t before sent
  unfold gotSlot at got ⊢
  rw [Bool.and_eq_true] at got ⊢
  obtain ⟨parts, small⟩ := slot_parts s
  obtain ⟨parts', small'⟩ := slot_parts t
  refine ⟨sent, ?_⟩
  by_cases same : t / 4 = s / 4
  · rw [same]
    exact got.2
  · have wants : Wants subs (s / 4) := (wants_slot subs _).mpr ⟨s % 4, small, by rw [parts]; exact got.1⟩
    have wants' : Wants subs (t / 4) := (wants_slot subs _).mpr ⟨t % 4, small', by rw [parts']; exact sent⟩
    exact (order (s / 4) (by omega) wants got.2).2 (t / 4) (by omega) wants'

theorem aligned_rank {s : Nat} (aligned : Aligned subs s) : rank (gotSlot subs) s = rank (sentSlot subs) s := by
  apply rank_congr
  intro t before
  cases sent : sentSlot subs t with
  | true => exact aligned t before sent
  | false =>
    unfold gotSlot
    rw [sent]
    rfl

theorem in_order_trips (masks : BriMasks subs main) (order : InOrder subs) {contents : Nat → Nat → Chunk}
    (content : ∀ i sub, subs i = some sub → ∀ j, (sub.xpd.chans j).writechunk = contents i j) :
    BriTrips subs main contents := by
  intro pack i inside sub here card registered j line wanted
  rw [masks.channels i sub here] at line
  have sent : sentSlot subs (4 * i + j) = true := by
    rw [sent_slot_present (by omega) here, card, wanted]
    simp [line]
  have isReg : isRegistered subs i = true := by
    unfold isRegistered
    rw [here]
    exact registered
  obtain ⟨sub_, rest⟩ := slot_sub i (show j < 4 by omega)
  have got : gotSlot subs (4 * i + j) = true := by
    unfold gotSlot
    rw [sent, sub_, isReg]
    rfl
  have voice : j < 2 := by
    by_contra high
    rw [unused_slot masks inside (by omega) (by omega)] at sent
    cases sent
  have wants : Wants subs i := ⟨sub, here, card, j, line, wanted⟩
  have first := (order i inside wants isReg).1
  unfold isRegistered at first
  rw [masks.present] at first
  obtain ⟨sub', there, read⟩ := bri_takes masks pack first inside voice got
  refine ⟨sub', there, ?_⟩
  rw [read, aligned_rank (in_order_aligned order (by omega) got), slot_packed 0 (by omega) sent]
  unfold slotChunk
  rw [sub_, here]
  dsimp only
  rw [rest, sentChunk, registered, if_pos rfl, content i sub here]

end Order

section Necessity
variable {subs : BriUnit} {main : BriXpd}

/-- Chunks of zeros differ from silence. -/
def zeros : Nat → Nat → Chunk := fun _ _ => Vector.replicate 8 0

theorem zeros_differ (i j : Nat) : zeros i j ≠ silence := by
  unfold zeros silence
  decide

/-- The first slot taken after a slot that is skipped gets the silence that stands there. -/
theorem trips_aligned (masks : BriMasks subs main) (registered : main.xpd.registered = true)
    (trips : BriTrips subs main zeros) {s : Nat} (inside : s < 32) (got : gotSlot subs s = true) :
    Aligned subs s := by
  induction s using Nat.strong_induction_on with
  | _ s ih =>
    by_contra skipped
    unfold Aligned at skipped
    push Not at skipped
    obtain ⟨t, before, sent, notGot⟩ := skipped
    obtain ⟨u, ⟨earlier, filled_, passed⟩, least⟩ : ∃ u, (u < s ∧ sentSlot subs u = true ∧ gotSlot subs u ≠ true) ∧
        ∀ v < u, ¬ (v < s ∧ sentSlot subs v = true ∧ gotSlot subs v ≠ true) := by
      have some_ : ∃ u, u < s ∧ sentSlot subs u = true ∧ gotSlot subs u ≠ true := ⟨t, before, sent, notGot⟩
      classical
      exact ⟨Nat.find some_, Nat.find_spec some_, fun v => Nat.find_min some_⟩
    have until_ : Aligned subs u := by
      intro v first isSent
      by_contra notTaken
      exact least v first ⟨by omega, isSent, notTaken⟩
    have none_ : ∀ v, u ≤ v → v < s → gotSlot subs v = false := by
      intro v after inside'
      by_contra taken
      have isTaken : gotSlot subs v = true := by simpa using taken
      by_cases same : v = u
      · rw [same] at isTaken
        exact passed isTaken
      · exact passed (ih v inside' (by omega) isTaken u (by omega) filled_)
    have same : rank (gotSlot subs) s = rank (sentSlot subs) u := by
      rw [rank_none (by omega) none_, aligned_rank until_]
    obtain ⟨parts, small⟩ := slot_parts s
    have sentHere : sentSlot subs s = true := by
      unfold gotSlot at got
      rw [Bool.and_eq_true] at got
      exact got.1
    have regHere : isRegistered subs (s / 4) = true := by
      unfold gotSlot at got
      rw [Bool.and_eq_true] at got
      exact got.2
    have voice : s % 4 < 2 := by
      by_contra high
      rw [← parts, unused_slot masks (by omega) (by omega) small] at sentHere
      cases sentHere
    obtain ⟨sub', there, read⟩ := @bri_takes subs main masks ⟨0, 0, []⟩ registered (s / 4) (s % 4) (by omega) voice
      (by rw [parts]; exact got)
    rw [parts, same, slot_packed 0 (by omega) filled_] at read
    have silent : slotChunk subs u = silence := by
      unfold gotSlot at passed
      rw [filled_, Bool.true_and] at passed
      unfold isRegistered at passed
      unfold slotChunk
      cases other : subs (u / 4) with
      | none => rfl
      | some sub =>
        rw [other] at passed
        dsimp only at passed ⊢
        rw [sentChunk, if_neg passed]
    cases here : subs (s / 4) with
    | none =>
      rw [← parts, sent_slot_absent small here] at sentHere
      cases sentHere
    | some sub =>
      rw [← parts, sent_slot_present small here] at sentHere
      simp only [Bool.and_eq_true, decide_eq_true_eq] at sentHere
      unfold isRegistered at regHere
      rw [here] at regHere
      obtain ⟨sub'', there', own⟩ := trips ⟨0, 0, []⟩ (s / 4) (by omega) sub here sentHere.1 regHere (s % 4)
        (by rw [masks.channels _ sub here]; exact sentHere.2.1) sentHere.2.2
      rw [there] at there'
      rw [← Option.some.inj there', read, silent] at own
      exact zeros_differ _ _ own.symm

/-- Another chunk than the given one. -/
def otherChunk (chunk : Chunk) : Chunk := setFirst chunk (firstOf chunk + 1)

theorem other_chunk (chunk : Chunk) : otherChunk chunk ≠ chunk := by
  intro same
  have first : firstOf (otherChunk chunk) = firstOf chunk := by rw [same]
  rw [otherChunk, firstOf, setFirst, Vector.getElem_set_self] at first
  bv_omega

end Necessity

section Claim
variable {subs : BriUnit} {main : BriXpd}

theorem filled_content (subs : BriUnit) (contents : Nat → Nat → Chunk) (i : Nat) (sub : BriXpd)
    (there : filledUnit subs contents i = some sub) (j : Nat) : (sub.xpd.chans j).writechunk = contents i j := by
  obtain ⟨was, _, rfl⟩ := Option.map_eq_some_iff.mp there
  rfl

theorem wants_filled (subs : BriUnit) (contents : Nat → Nat → Chunk) (i : Nat) :
    Wants (filledUnit subs contents) i ↔ Wants subs i := by
  rw [wants_slot, wants_slot, (filled_slots subs contents).1]

theorem in_order_filled (subs : BriUnit) (contents : Nat → Nat → Chunk) :
    InOrder (filledUnit subs contents) ↔ InOrder subs := by
  unfold InOrder
  rw [(filled_slots subs contents).2.1]
  simp only [wants_filled]

/-- A packet that the main subunit does not read changes no chunk. -/
theorem unread (subs : BriUnit) (pack : Xpacket) (registered : main.xpd.registered = false) :
    briCardPcmTospan subs 0 main.xpd pack = subs := by
  unfold briCardPcmTospan
  rw [registered]
  rfl

theorem trips_in_order (masks : BriMasks subs main)
    (trips : ∀ contents, BriTrips (filledUnit subs contents) { main with xpd := filled main.xpd (contents 0) } contents) :
    InOrder subs := by
  intro i inside wants isReg
  have first : main.xpd.registered = true := by
    by_contra notReg
    have unregistered : main.xpd.registered = false := by simpa using notReg
    obtain ⟨sub, here, card, j, line, wanted⟩ := wants
    unfold isRegistered at isReg
    rw [here] at isReg
    obtain ⟨contents, own⟩ : ∃ contents : Nat → Nat → Chunk,
        contents = fun _ _ => otherChunk (sub.xpd.chans j).readchunk := ⟨_, rfl⟩
    have filled_ : filledUnit subs contents i = some { sub with xpd := filled sub.xpd (contents i) } := by
      unfold filledUnit
      rw [here]
      rfl
    obtain ⟨sub', there, read⟩ := trips contents ⟨0, 0, []⟩ i inside _ filled_ card isReg j
      (by rw [(filled_masks masks contents).channels i _ filled_]; exact line) wanted
    rw [@unread { main with xpd := filled main.xpd (contents 0) } _ _ unregistered, filled_] at there
    rw [← Option.some.inj there, own] at read
    exact other_chunk _ read.symm
  constructor
  · unfold isRegistered
    rw [masks.present]
    exact first
  · intro k before wants'
    by_contra notReg
    obtain ⟨j, small, sent⟩ := (wants_slot subs i).mp wants
    obtain ⟨j', small', sent'⟩ := (wants_slot subs k).mp wants'
    obtain ⟨sentSame, _, gotSame⟩ := filled_slots subs zeros
    obtain ⟨sub_, _⟩ := slot_sub i small
    obtain ⟨sub_', _⟩ := slot_sub k small'
    have got : gotSlot (filledUnit subs zeros) (4 * i + j) = true := by
      rw [gotSame]
      unfold gotSlot
      rw [sent, sub_, isReg]
      rfl
    have aligned := trips_aligned (filled_masks masks zeros) first (trips zeros) (by omega) got
    have passed := aligned (4 * k + j') (by omega) (by rw [sentSame]; exact sent')
    rw [gotSame] at passed
    unfold gotSlot at passed
    rw [sub_', Bool.and_eq_true] at passed
    exact notReg passed.2

theorem trips_bri (subs : BriUnit) : Trips (.bri subs) ↔ ∀ contents main,
    filledUnit (briCardPcmRecompute subs) contents 0 = some main →
      BriTrips (filledUnit (briCardPcmRecompute subs) contents) main contents := Iff.rfl

theorem trips_when_bri (subs : BriUnit) :
    TripsWhen (.bri subs) ↔ ((subs 0).isSome = true → InOrder (briCardPcmRecompute subs)) := Iff.rfl

theorem bri_trips_iff (shape : BriShape subs) : Trips (.bri subs) ↔ TripsWhen (.bri subs) := by
  rw [trips_bri, trips_when_bri]
  cases present : subs 0 with
  | none =>
    constructor
    · intro _ there
      exact absurd there (by decide)
    · intro _ contents main there
      rw [recompute_absent present] at there
      unfold filledUnit at there
      rw [present] at there
      cases there
  | some main =>
    have masks := recompute_masks shape present
    constructor
    · intro trips _
      apply trips_in_order masks
      intro contents
      exact trips contents _ (filled_masks masks contents).present
    · intro order contents main' there
      have filled_ := filled_masks masks contents
      rw [filled_.present] at there
      rw [← Option.some.inj there]
      apply in_order_trips filled_ _ (filled_content _ contents)
      rw [in_order_filled]
      exact order rfl

theorem pri_trips {x : PriXpd} (shape : PriShape x) : Trips (.pri x) := by
  intro contents
  dsimp only
  intro framed registered xlawZero pack i inside wanted
  have shaped := pri_recompute_shape shape
  have set_ : (priCardPcmRecompute x 0).priProtocol ≠ .none := by
    intro none_
    unfold filledPri at framed
    rw [none_] at framed
    exact framed.elim (fun this => by cases this) (fun this => by cases this)
  exact pri_trip framed (shaped.layout set_) registered xlawZero pack inside wanted

theorem generic_trips {card : GenericCard} (sound : GenericSound card) : Trips (.generic card) := by
  intro arg contents
  dsimp only
  intro dtmf silent registered pack i inside wanted
  have most : (filled (genericCardPcmRecompute card.xpd arg) contents).channels ≤ 32 := by
    have same := (generic_recompute_shape sound.shape arg).2
    unfold filled
    dsimp only
    rw [same]
    exact sound.shape.channels
  exact generic_trip most dtmf silent registered pack inside wanted

/-- In every state of every run, looping back a packet gives each registered line its
    own chunk, just when a BRI card has its registered subunits in order. -/
theorem packet_trip_iff (notify : Bool) (card : Card) (reached : Reach (cards notify) anyStep card) :
    Trips card ↔ TripsWhen card := by
  have shape := run_shape reached
  cases card with
  | generic card => exact iff_of_true (generic_trips shape) trivial
  | bri subs => exact bri_trips_iff shape
  | pri x => exact iff_of_true (pri_trips shape) trivial

end Claim

section Sequences

theorem packet_trip_e1 :
    ∃ x, Reach (cards false) anyStep (.pri x) ∧ x.priProtocol = .e1 ∧ x.xpd.registered = true ∧ Trips (.pri x) := by
  have reached : Reach (cards false) anyStep (.pri (runPri false (freshPri 1) registerOnce)) := by
    apply reach_ops
    · exact Reach.start (Fresh.pri 1)
    · simp [registerOnce, Taken, PriOp.Allowed, anyStep]
  refine ⟨_, reached, ?_, ?_, ?_⟩
  · decide +kernel
  · decide +kernel
  · exact (packet_trip_iff false _ reached).mpr trivial

/-- The unit with its first k subunits new. -/
def attached : Nat → BriUnit
  | 0 => fun _ => none
  | k + 1 => setSub (attached k) k (freshBri 1)

theorem attached_fresh {k i : Nat} {sub : BriXpd} (here : attached k i = some sub) :
    sub = freshBri 1 ∧ i < k := by
  induction k with
  | zero => cases here
  | succ k ih =>
    rw [attached, setSub] at here
    by_cases last : i = k
    · rw [last, Function.update_self] at here
      exact ⟨(Option.some.inj here).symm, by omega⟩
    · rw [Function.update_of_ne last] at here
      have := ih here
      exact ⟨this.1, by omega⟩

theorem reach_attached {notify : Bool} {guard : Card → CardOp → Prop} (free : ∀ card op, guard card op)
    {k : Nat} (most : k ≤ 8) : Reach (cards notify) guard (.bri (attached k)) := by
  induction k with
  | zero => exact Reach.start Fresh.bri
  | succ k ih =>
    have absent : attached k k = none := by
      cases here : attached k k with
      | none => rfl
      | some sub =>
        have := (attached_fresh here).2
        omega
    have step : BriStep notify (attached k) k (.attach 1) (attached (k + 1)) := by
      apply BriStep.attach absent
      intro j sub here
      rw [(attached_fresh here).1]
      rfl
    have inside : k < MAX_SUBUNIT := by
      unfold MAX_SUBUNIT
      omega
    exact Reach.step (ih (by omega)) (free _ _) (Step.bri inside step)

instance (notify : Bool) (sub : BriXpd) (op : BriOp) : Decidable (op.Allowed notify sub) :=
  match op with
  | .attach _ => inferInstanceAs (Decidable False)
  | .detach => inferInstanceAs (Decidable True)
  | .present _ => inferInstanceAs (Decidable True)
  | .preregistration => inferInstanceAs (Decidable True)
  | .postregistration _ => inferInstanceAs (Decidable True)
  | .recompute => inferInstanceAs (Decidable True)
  | .cardOpen pos => inferInstanceAs (Decidable (pos < sub.xpd.channels ∧ sub.xpd.pvt = true))
  | .cardClose pos => inferInstanceAs (Decidable (pos < sub.xpd.channels ∧ sub.xpd.pvt = true))
  | .audioNotify pos _ =>
    inferInstanceAs (Decidable (notify = true ∧ pos < sub.xpd.channels ∧ sub.xpd.pvt = true))

/-- The unit after operations on its subunits, as long as none is barred. -/
def runBri (notify : Bool) (subs : BriUnit) : List (Nat × BriOp) → Option BriUnit
  | [] => some subs
  | (i, op) :: ops =>
    match subs i with
    | none => none
    | some sub =>
      if i < MAX_SUBUNIT ∧ op.Allowed notify sub then runBri notify (op.applySub subs i sub) ops else none

theorem reach_bri {notify : Bool} {guard : Card → CardOp → Prop} (free : ∀ card op, guard card op)
    {subs subs' : BriUnit} (ops : List (Nat × BriOp)) (reached : Reach (cards notify) guard (.bri subs))
    (run : runBri notify subs ops = some subs') : Reach (cards notify) guard (.bri subs') := by
  induction ops generalizing subs with
  | nil =>
    rw [runBri] at run
    rwa [← Option.some.inj run]
  | cons next ops ih =>
    obtain ⟨i, op⟩ := next
    rw [runBri] at run
    cases here : subs i with
    | none =>
      rw [here] at run
      cases run
    | some sub =>
      rw [here] at run
      dsimp only at run
      split at run
      · next allowed =>
        exact ih (Reach.step reached (free _ _) (Step.bri allowed.1 (BriStep.apply here allowed.2))) run
      · cases run

/-- Subunits 1 and 2 have their D-channels open. -/
def opened : List (Nat × BriOp) :=
  [(0, .present true), (1, .present true), (2, .present true), (0, .preregistration), (1, .preregistration),
    (2, .preregistration), (0, .postregistration true), (1, .postregistration true), (2, .postregistration true),
    (1, .cardOpen 2), (2, .cardOpen 2)]

theorem wants_here {subs : BriUnit} {i j : Nat}
    (here : (subs i).any (fun sub => sub.xpd.cardPresent && sub.xpd.wantedPcmMask.getLsbD j) = true)
    (small : j < 3) : Wants subs i := by
  cases sub : subs i with
  | none =>
    rw [sub] at here
    cases here
  | some sub' =>
    rw [sub, Option.any_some, Bool.and_eq_true] at here
    exact ⟨sub', sub, here.1, j, small, here.2⟩

/-- Subunit 1 is unregistered with its lines still off hook: subunit 2 gets the silence
    that stands for subunit 1. -/
theorem unregistered_shifts :
    ∃ card, Reach (cards false) anyStep card ∧ ¬ Trips card := by
  obtain ⟨subs, run⟩ : ∃ subs, runBri false (attached 3) (opened ++ [(1, .postregistration false)]) = some subs :=
    Option.isSome_iff_exists.mp (by decide +kernel)
  have reached := @reach_bri false anyStep (fun _ _ => trivial) _ _ _ (reach_attached (fun _ _ => trivial) (by omega)) run
  have is_ : subs = (runBri false (attached 3) (opened ++ [(1, .postregistration false)])).get
      (by decide +kernel) := by
    simp [run]
  refine ⟨_, reached, ?_⟩
  rw [bri_trips_iff (run_shape reached), trips_when_bri, is_]
  intro order
  have shifted := order (by decide +kernel) 2 (by omega) (@wants_here _ _ 0 (by decide +kernel) (by omega))
    (by decide +kernel)
  have skipped := shifted.2 1 (by omega) (@wants_here _ _ 0 (by decide +kernel) (by omega))
  exact absurd skipped (by decide +kernel)

end Sequences
end PacketTrip
