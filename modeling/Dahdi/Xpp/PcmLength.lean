import Dahdi.Xpp.Cards

/-!
The PCM length of an Astribank card and the mask of its wanted lines. The recomputes
count their lines in three ways; each way is compared with the bits of the mask.
-/
namespace PcmLength
open Xpp LineMask GuardedRun

section Lengths
variable {xpd : Xpd} {mask : Lines}

def Agrees (xpd : Xpd) : Prop := xpd.pcmLen = 0 ∨ xpd.pcmLen = goodLen xpd.wantedPcmMask

theorem good_len (lines : Lines) : goodLen lines = 8 + 8 * count lines 32 := by
  have := count_le lines 32
  unfold goodLen RPACKET_HEADERSIZE sizeofLines CHANNELS_PERXPD
  omega

theorem pcm_len_of {lineCount : Int} (least : -1 ≤ lineCount) (most : lineCount ≤ 32) :
    (pcmLenOf lineCount : Int) = if lineCount = 0 then 0 else 8 + 8 * lineCount := by
  unfold pcmLenOf RPACKET_HEADERSIZE sizeofLines DAHDI_CHUNKSIZE
  split
  · rfl
  · omega

/-- A length made of a line count is right when there are no lines, or as many as in the mask. -/
theorem count_agrees {lineCount : Int} (least : -1 ≤ lineCount) (most : lineCount ≤ 32) :
    Agrees (updateWantedPcmMask xpd mask (pcmLenOf lineCount)) ↔
      lineCount ≤ 0 ∨ lineCount = count mask 32 := by
  have len := pcm_len_of least most
  have good := good_len mask
  have bound := count_le mask 32
  unfold Agrees updateWantedPcmMask
  dsimp only
  split at len <;> omega

theorem dummy_agrees : Agrees (updateWantedPcmMask xpd (bit 32 0) (pcmLenOf 1)) := by
  rw [count_agrees (by omega) (by omega)]
  right
  rfl

theorem settle_updates (xpd : Xpd) (unit : Nat) (empty : Bool) (mask : Lines) (lineCount : Int) :
    ∃ wanted len, settle xpd unit empty mask lineCount = updateWantedPcmMask xpd wanted len := by
  unfold settle
  split
  · exact ⟨_, _, rfl⟩
  · exact ⟨_, _, rfl⟩

theorem settle_below {unit n : Nat} {empty : Bool} {lineCount : Int} (some_ : 0 < n) (below : Below n mask) :
    Below n (settle xpd unit empty mask lineCount).wantedPcmMask := by
  unfold settle
  split
  · exact below_bit some_
  · exact below

theorem pcm_valid_of_agrees (agrees : Agrees xpd) (sent : xpd.pcmLen ≠ 0) (pcm : List (BitVec 8)) :
    pcmValid ⟨xpd.pcmLen, xpd.wantedPcmMask, pcm⟩ = true := by
  unfold pcmValid
  rw [beq_iff_eq]
  exact agrees.resolve_left sent

end Lengths

section Generic
variable {xpd : Xpd} {card : GenericCard}

structure GenericShape (xpd : Xpd) : Prop where
  channels : xpd.channels ≤ 32
  offhook : Below xpd.channels xpd.offhookState
  pass : Below xpd.channels xpd.ohtPcmPass

theorem generic_mask_below (shape : GenericShape xpd) {arg : Lines} (below : Below xpd.channels arg) :
    Below xpd.channels (genericMask xpd arg) :=
  below_and (below_and (below_or (below_or below shape.offhook) shape.pass))

theorem generic_recompute_agrees (shape : GenericShape xpd) {arg : Lines} (below : Below xpd.channels arg) :
    Agrees (genericCardPcmRecompute xpd arg) := by
  have within := generic_mask_below shape below
  have bound := count_le (genericMask xpd arg) xpd.channels
  have channels := shape.channels
  unfold genericCardPcmRecompute settle
  dsimp only
  split
  · exact dummy_agrees
  · rw [count_agrees (by omega) (by omega), count_below within channels]
    exact Or.inr rfl

theorem generic_recompute_shape (shape : GenericShape xpd) (arg : Lines) :
    GenericShape (genericCardPcmRecompute xpd arg) ∧
      (genericCardPcmRecompute xpd arg).channels = xpd.channels := by
  unfold genericCardPcmRecompute
  dsimp only
  obtain ⟨_, _, updates⟩ := settle_updates xpd xpd.unit (genericMask xpd arg == 0) (genericMask xpd arg)
    (count (genericMask xpd arg) xpd.channels)
  rw [updates]
  exact ⟨⟨shape.channels, shape.offhook, shape.pass⟩, rfl⟩

structure GenericSound (card : GenericCard) : Prop where
  shape : GenericShape card.xpd
  pattern : Below card.xpd.channels card.searchFskPattern
  agrees : Agrees card.xpd

/-- A recompute with the FSK pattern, or with no added lines, makes a card sound. -/
theorem generic_sound {arg : Lines} (shape : GenericShape xpd) (below : Below xpd.channels arg)
    {pattern : Lines} (search : Below xpd.channels pattern) :
    GenericSound ⟨genericCardPcmRecompute xpd arg, pattern⟩ := by
  obtain ⟨kept, same⟩ := generic_recompute_shape shape arg
  constructor
  · exact kept
  · rw [same]
    exact search
  · exact generic_recompute_agrees shape below

theorem mark_offhook_sound (sound : GenericSound card) {pos : Nat} (small : pos < card.xpd.channels)
    (on : Bool) : GenericSound { card with xpd := markOffhook card.xpd pos on } := by
  apply generic_sound
  · constructor
    · exact sound.shape.channels
    · exact below_mark sound.shape.offhook small on
    · exact sound.shape.pass
  · exact below_zero
  · exact sound.pattern

theorem oht_pcm_sound (sound : GenericSound card) {pos : Nat} (small : pos < card.xpd.channels)
    (pass : Bool) : GenericSound { card with xpd := ohtPcm card.xpd pos pass } := by
  apply generic_sound
  · constructor
    · exact sound.shape.channels
    · exact sound.shape.offhook
    · exact below_mark sound.shape.pass small pass
  · exact below_zero
  · exact sound.pattern

theorem mark_offhook_channels (shape : GenericShape xpd) {pos : Nat} (small : pos < xpd.channels) (on : Bool) :
    (markOffhook xpd pos on).channels = xpd.channels := by
  unfold markOffhook
  exact (@generic_recompute_shape { xpd with offhookState := mark xpd.offhookState pos on }
    ⟨shape.channels, below_mark shape.offhook small on, shape.pass⟩ 0).2

theorem oht_pcm_channels (shape : GenericShape xpd) {pos : Nat} (small : pos < xpd.channels) (pass : Bool) :
    (ohtPcm xpd pos pass).channels = xpd.channels := by
  unfold ohtPcm
  exact (@generic_recompute_shape { xpd with ohtPcmPass := mark xpd.ohtPcmPass pos pass }
    ⟨shape.channels, shape.offhook, below_mark shape.pass small pass⟩ 0).2

theorem hookstate_changed_sound (sound : GenericSound card) {pos : Nat} (small : pos < card.xpd.channels)
    (toOffhook : Bool) : GenericSound { card with xpd := hookstateChanged card.xpd pos toOffhook } := by
  have marked := mark_offhook_sound sound small toOffhook
  have same := mark_offhook_channels sound.shape small toOffhook
  unfold hookstateChanged
  cases toOffhook with
  | true => exact marked
  | false =>
    have blocked := @oht_pcm_sound { card with xpd := markOffhook card.xpd pos false } marked pos
      (by rw [same]; exact small) false
    exact ⟨⟨blocked.shape.channels, blocked.shape.offhook, blocked.shape.pass⟩, blocked.pattern, blocked.agrees⟩

theorem vmwi_search_sound (sound : GenericSound card) {pos : Nat} (small : pos < card.xpd.channels)
    (on : Bool) : GenericSound (vmwiSearch card pos on) :=
  ⟨sound.shape, below_mark sound.pattern small on, sound.agrees⟩

theorem onhook_transfer_sound (sound : GenericSound card) {pos : Nat} (small : pos < card.xpd.channels)
    (active neon : Bool) : GenericSound (onhookTransfer card pos active neon) := by
  have passed := oht_pcm_sound sound small true
  have same := oht_pcm_channels sound.shape small true
  unfold onhookTransfer
  split
  · exact sound
  · cases active with
    | false => exact passed
    | true =>
      have searched := @vmwi_search_sound { card with xpd := ohtPcm card.xpd pos true } passed pos
        (by rw [same]; exact small) neon
      exact generic_sound searched.shape searched.pattern searched.pattern

theorem generic_step_sound (sound : GenericSound card) (op : GenericOp) (allowed : op.Allowed card.xpd) :
    GenericSound (op.apply card) := by
  cases op with
  | recompute => exact generic_sound sound.shape below_zero sound.pattern
  | markOffhook pos on => exact mark_offhook_sound sound allowed on
  | ohtPcm pos pass => exact oht_pcm_sound sound allowed pass
  | hookstateChanged pos on => exact hookstate_changed_sound sound allowed on
  | vmwiSearch pos on => exact vmwi_search_sound sound allowed on
  | onhookTransfer pos active neon => exact onhook_transfer_sound sound allowed active neon
  | doMuteDtmf pos muteit =>
    exact @generic_sound { card.xpd with muteDtmf := mark card.xpd.muteDtmf pos muteit } _
      ⟨sound.shape.channels, sound.shape.offhook, sound.shape.pass⟩ sound.pattern _ sound.pattern
  | present on => exact ⟨⟨sound.shape.channels, sound.shape.offhook, sound.shape.pass⟩, sound.pattern, sound.agrees⟩
  | postregistration on =>
    exact ⟨⟨sound.shape.channels, sound.shape.offhook, sound.shape.pass⟩, sound.pattern, sound.agrees⟩

end Generic
end PcmLength
