import Dahdi.Xpp.BriLength

/-!
The recompute of a PRI card counts the lines that are off hook and, for E1 with CAS,
takes one away for the D-channel. That is right when the D-channel was counted.
-/
namespace PcmLength
open Xpp LineMask

section Recompute

structure PriShape (x : PriXpd) : Prop where
  some_ : 0 < x.xpd.channels
  channels : x.xpd.channels ≤ 32
  offhook : Below x.xpd.channels x.xpd.offhookState
  wanted : Below x.xpd.channels x.xpd.wantedPcmMask
  e1 : x.priProtocol = .e1 → x.dchanNum = 16
  layout : x.priProtocol ≠ .none → x.xpd.channels = priNumChannels x.priProtocol

/-- The D-channel is among the lines off hook, or no more than one line is. -/
def Counted (x : PriXpd) (offhook : Lines) : Prop :=
  x.cas = true → offhook.getLsbD x.dchanIdx = true ∨ count offhook x.xpd.channels ≤ 1

variable {x : PriXpd}

theorem cas_e1 (cas : x.cas = true) : x.priProtocol = .e1 := by
  unfold PriXpd.cas at cas
  rw [Bool.and_eq_true, beq_iff_eq] at cas
  exact cas.2

theorem e1_dchan (number : x.dchanNum = 16) : x.dchanIdx = 15 := by
  unfold PriXpd.dchanIdx
  omega

theorem pri_recompute_updates (x : PriXpd) :
    ∃ wanted len, priCardPcmRecompute x 0 = { x with xpd := updateWantedPcmMask x.xpd wanted len } := by
  unfold priCardPcmRecompute
  dsimp only
  split
  · obtain ⟨wanted, len, updates⟩ := settle_updates x.xpd x.xpd.unit
      (clear (0 ||| x.xpd.offhookState) x.dchanIdx == 0) (clear (0 ||| x.xpd.offhookState) x.dchanIdx)
      (count (0 ||| x.xpd.offhookState) x.xpd.channels - 1)
    exact ⟨wanted, len, by rw [updates]⟩
  · obtain ⟨wanted, len, updates⟩ := settle_updates x.xpd x.xpd.unit
      (0 ||| x.xpd.offhookState == 0) (0 ||| x.xpd.offhookState)
      (count (0 ||| x.xpd.offhookState) x.xpd.channels)
    exact ⟨wanted, len, by rw [updates]⟩

theorem pri_recompute_below (some_ : 0 < x.xpd.channels) (offhook : Below x.xpd.channels x.xpd.offhookState) :
    Below x.xpd.channels (priCardPcmRecompute x 0).xpd.wantedPcmMask := by
  have below := below_or below_zero offhook
  unfold priCardPcmRecompute
  dsimp only
  split
  · exact settle_below some_ (below_clear below)
  · exact settle_below some_ below

theorem pri_recompute_shape (shape : PriShape x) : PriShape (priCardPcmRecompute x 0) := by
  have wanted := pri_recompute_below shape.some_ shape.offhook
  obtain ⟨_, _, updates⟩ := pri_recompute_updates x
  rw [updates] at wanted ⊢
  exact ⟨shape.some_, shape.channels, shape.offhook, wanted, shape.e1, shape.layout⟩

theorem cas_agrees_iff {xpd : Xpd} {unit channels : Nat} {mask : Lines} (most : channels ≤ 32)
    (below : Below channels mask) :
    Agrees (settle xpd unit (clear mask 15 == 0) (clear mask 15) ((count mask channels : Int) - 1)) ↔
      mask.getLsbD 15 = true ∨ count mask channels ≤ 1 := by
  have fewer := @count_clear_self 32 mask 15 32 (by omega)
  have bound := count_le mask channels
  rw [count_below below most] at fewer
  unfold settle
  split <;> rename_i dummy
  · have none_ : clear mask 15 = 0 := by simpa using dummy.2
    rw [none_, count_zero] at fewer
    constructor
    · intro _
      right
      split at fewer <;> omega
    · intro _
      exact dummy_agrees
  · rw [count_agrees (by omega) (by omega)]
    cases counted : mask.getLsbD 15 <;> rw [counted] at fewer <;> simp at fewer <;> simp <;> omega

theorem plain_agrees {xpd : Xpd} {unit channels : Nat} {mask : Lines} (most : channels ≤ 32)
    (below : Below channels mask) (empty : Bool) :
    Agrees (settle xpd unit empty mask (count mask channels)) := by
  have bound := count_le mask channels
  unfold settle
  split
  · exact dummy_agrees
  · rw [count_agrees (by omega) (by omega), count_below below most]
    exact Or.inr rfl

theorem pri_recompute_agrees (shape : PriShape x) :
    Agrees (priCardPcmRecompute x 0).xpd ↔ Counted x x.xpd.offhookState := by
  have plain : (0 : Lines) ||| x.xpd.offhookState = x.xpd.offhookState := BitVec.zero_or
  unfold priCardPcmRecompute Counted
  dsimp only
  rw [plain]
  cases cas : x.cas with
  | false =>
    rw [if_neg Bool.false_ne_true]
    constructor
    · intro _ this
      cases this
    · intro _
      exact plain_agrees shape.channels shape.offhook _
  | true =>
    rw [if_pos rfl, e1_dchan (shape.e1 (cas_e1 cas)), forall_prop_of_true rfl]
    exact cas_agrees_iff shape.channels shape.offhook

end Recompute

section Operations
variable {x : PriXpd}

theorem offhook_shape (shape : PriShape x) {mask : Lines} (below : Below x.xpd.channels mask) :
    PriShape { x with xpd := { x.xpd with offhookState := mask } } :=
  ⟨shape.some_, shape.channels, below, shape.wanted, shape.e1, shape.layout⟩

theorem mark_others_below (shape : PriShape x) (on : Bool) : Below x.xpd.channels (markOthers x on) := by
  have all (lines : List Nat) (inside : ∀ i ∈ lines, i < x.xpd.channels) (mask : Lines)
      (below : Below x.xpd.channels mask) :
      Below x.xpd.channels
        (lines.foldl (fun mask i => if i = x.dchanIdx then mask else mark mask i on) mask) := by
    induction lines generalizing mask with
    | nil => exact below
    | cons i lines ih =>
      rw [List.foldl_cons]
      apply ih fun j later => inside j (List.mem_cons_of_mem _ later)
      split
      · exact below
      · exact below_mark below (inside i List.mem_cons_self) on
  exact all _ (fun i inside => List.mem_range.mp inside) _ shape.offhook

/-- Whether the offhook mask that an operation hands to the recompute is counted right. -/
def PriGood (notify : Bool) (x : PriXpd) : PriOp → Prop
  | .recompute => Counted x x.xpd.offhookState
  | .spanconfig lineconfig =>
    lineconfigTaken x lineconfig = true → Counted (coded x lineconfig) x.xpd.offhookState
  | .cardOpen pos => pos = x.dchanIdx → notify = false → Counted x (markOthers x true)
  | .cardClose pos =>
    (pos = x.dchanIdx → Counted x (markOthers x false)) ∧
      (pos ≠ x.dchanIdx → x.dchanIsOpen = false → Counted x (mark x.xpd.offhookState pos false))
  | .audioNotify pos on => Counted x (mark x.xpd.offhookState pos on)
  | _ => True

/-- An operation that keeps the masks and the length. -/
theorem pri_kept {x' : PriXpd} (shape : PriShape x)
    (channels : x'.xpd.channels = x.xpd.channels) (offhook : x'.xpd.offhookState = x.xpd.offhookState)
    (wanted : x'.xpd.wantedPcmMask = x.xpd.wantedPcmMask) (pcmLen : x'.xpd.pcmLen = x.xpd.pcmLen)
    (proto : x'.priProtocol = x.priProtocol) (number : x'.dchanNum = x.dchanNum) :
    PriShape x' ∧ (Agrees x'.xpd ↔ Agrees x.xpd) := by
  constructor
  · constructor
    · rw [channels]
      exact shape.some_
    · rw [channels]
      exact shape.channels
    · rw [channels, offhook]
      exact shape.offhook
    · rw [channels, wanted]
      exact shape.wanted
    · rw [proto, number]
      exact shape.e1
    · rw [proto, channels]
      exact shape.layout
  · unfold Agrees
    rw [wanted, pcmLen]

theorem pri_mark_step (shape : PriShape x) {mask : Lines} (below : Below x.xpd.channels mask) :
    PriShape (priCardPcmRecompute { x with xpd := { x.xpd with offhookState := mask } } 0) ∧
      (Agrees (priCardPcmRecompute { x with xpd := { x.xpd with offhookState := mask } } 0).xpd ↔
        Counted x mask) := by
  have new := offhook_shape shape below
  exact ⟨pri_recompute_shape new, pri_recompute_agrees new⟩

theorem dchan_stop_keeps (x : PriXpd) :
    (dchanStop x).xpd.channels = x.xpd.channels ∧ (dchanStop x).xpd.offhookState = x.xpd.offhookState ∧
      (dchanStop x).xpd.wantedPcmMask = x.xpd.wantedPcmMask ∧ (dchanStop x).xpd.pcmLen = x.xpd.pcmLen ∧
      (dchanStop x).priProtocol = x.priProtocol ∧ (dchanStop x).dchanNum = x.dchanNum := by
  unfold dchanStop setChan
  dsimp only
  split
  · simp
  · split <;> simp

theorem lineconfig_step (shape : PriShape x) (lineconfig : BitVec 32) :
    PriShape (priLineconfig x lineconfig) ∧
      (Agrees x.xpd → (Agrees (priLineconfig x lineconfig).xpd ↔
        (lineconfigTaken x lineconfig = true → Counted (coded x lineconfig) x.xpd.offhookState))) := by
  unfold priLineconfig
  split <;> rename_i taken
  · have new : PriShape (coded x lineconfig) :=
      ⟨shape.some_, shape.channels, shape.offhook, shape.wanted, shape.e1, shape.layout⟩
    constructor
    · exact pri_recompute_shape new
    · intro _
      rw [pri_recompute_agrees new, forall_prop_of_true taken]
      rfl
  · constructor
    · exact shape
    · intro agrees
      simp [taken, agrees]

theorem apply_protocol_step (shape : PriShape x) :
    PriShape (applyPriProtocol x) ∧ (Agrees (applyPriProtocol x).xpd ↔ Agrees x.xpd) :=
  ⟨⟨shape.some_, shape.channels, shape.wanted, shape.wanted, shape.e1, shape.layout⟩, Iff.rfl⟩

theorem bitmask_below (n : Nat) : Below n (bitmask n) := by
  intro j isSet
  unfold bitmask at isSet
  rw [BitVec.getLsbD_ofNat, Nat.testBit_two_pow_sub_one, Bool.and_eq_true, decide_eq_true_eq] at isSet
  simpa using isSet.2

/-- The switch ends with a recompute that knows the D-channel and counts all lines. -/
theorem switch_step {proto : PriProtocol} {dchanNum : Nat} {lineconfig : BitVec 32}
    (some_ : 0 < priNumChannels proto) (most : priNumChannels proto ≤ 32)
    (e1 : proto = .e1 → dchanNum = 16 ∧ codingCas (-1) lineconfig = 0)
    (compatible : (lineconfig &&& priLinecompat proto) ^^^ lineconfig = 0) (known : proto ≠ .j1)
    (framing : framed lineconfig = true) :
    PriShape (switchProto x proto dchanNum lineconfig) ∧
      Agrees (switchProto x proto dchanNum lineconfig).xpd := by
  unfold switchProto
  dsimp only
  have below := pri_recompute_below
    (x := { x with
      priProtocol := proto, isCas := -1,
      xpd := { x.xpd with channels := priNumChannels proto, offhookState := bitmask (priNumChannels proto) } })
    some_ (bitmask_below _)
  obtain ⟨wanted, len, updates⟩ := pri_recompute_updates
    { x with
      priProtocol := proto, isCas := -1,
      xpd := { x.xpd with channels := priNumChannels proto, offhookState := bitmask (priNumChannels proto) } }
  rw [updates] at below ⊢
  unfold priLineconfig lineconfigTaken
  dsimp only
  rw [compatible, framing, if_pos (by simp [known])]
  have new : PriShape (coded
      { x with
        priProtocol := proto, isCas := -1, dchanNum := dchanNum,
        xpd := updateWantedPcmMask
          { x.xpd with channels := priNumChannels proto, offhookState := bitmask (priNumChannels proto) }
          wanted len } lineconfig) :=
    ⟨some_, most, bitmask_below _, below, fun this => (e1 this).1, fun _ => rfl⟩
  obtain ⟨shaped, same⟩ := apply_protocol_step (pri_recompute_shape new)
  refine ⟨shaped, same.mpr ?_⟩
  rw [pri_recompute_agrees new]
  intro cas
  have off := (e1 (cas_e1 cas)).2
  unfold coded PriXpd.cas at cas
  dsimp only at cas
  rw [off] at cas
  exact absurd cas (by simp)

theorem set_proto_step (shape : PriShape x) (proto : PriProtocol) :
    PriShape (setPriProto x proto) ∧ (Agrees x.xpd → Agrees (setPriProto x proto).xpd) := by
  unfold setPriProto
  split
  · exact ⟨shape, id⟩
  · split
    · exact ⟨shape, id⟩
    · cases proto with
      | none => exact ⟨shape, id⟩
      | j1 => exact ⟨shape, id⟩
      | e1 =>
        have switched := @switch_step x .e1 16 (config [DAHDI_CONFIG_CCS, DAHDI_CONFIG_CRC4, DAHDI_CONFIG_HDB3])
          (by decide) (by decide) (fun _ => ⟨rfl, by decide⟩) (by decide) (by decide) (by decide)
        exact ⟨switched.1, fun _ => switched.2⟩
      | t1 =>
        have switched := @switch_step x .t1 24 (config [DAHDI_CONFIG_ESF, DAHDI_CONFIG_B8ZS])
          (by decide) (by decide) (fun this => by cases this) (by decide) (by decide) (by decide)
        exact ⟨switched.1, fun _ => switched.2⟩

theorem chanconfig_keeps (channo : Nat) (isDchan : Bool) :
    (priChanconfig x channo isDchan).xpd = x.xpd ∧
      (priChanconfig x channo isDchan).priProtocol = x.priProtocol ∧
      (priChanconfig x channo isDchan).dchanNum = x.dchanNum := by
  unfold priChanconfig
  dsimp only
  split
  · split
    · simp
    · split <;> simp
  · split <;> split <;> simp

theorem pri_step {notify : Bool} (shape : PriShape x) {op : PriOp} (allowed : op.Allowed notify x) :
    PriShape (op.apply notify x) ∧
      (Agrees x.xpd → (Agrees (op.apply notify x).xpd ↔ PriGood notify x op)) := by
  have good {x' : PriXpd} (same : Agrees x'.xpd ↔ Agrees x.xpd) (agrees : Agrees x.xpd) : Agrees x'.xpd ↔ True :=
    iff_true_intro (same.mpr agrees)
  cases op with
  | recompute => exact ⟨pri_recompute_shape shape, fun _ => pri_recompute_agrees shape⟩
  | present on =>
    obtain ⟨shaped, same⟩ := @pri_kept x { x with xpd := setPresent x.xpd on } shape rfl rfl rfl rfl rfl rfl
    exact ⟨shaped, good same⟩
  | postregistration on =>
    obtain ⟨shaped, same⟩ := @pri_kept x { x with xpd := setRegistered x.xpd on } shape rfl rfl rfl rfl rfl rfl
    exact ⟨shaped, good same⟩
  | setPriProto proto =>
    obtain ⟨shaped, agree⟩ := set_proto_step shape proto
    exact ⟨shaped, fun agrees => iff_true_intro (agree agrees)⟩
  | spanconfig lineconfig => exact lineconfig_step shape lineconfig
  | chanconfig channo isDchan =>
    obtain ⟨xpd, proto, number⟩ := @chanconfig_keeps x channo isDchan
    obtain ⟨shaped, same⟩ := @pri_kept x (priChanconfig x channo isDchan) shape
      (by rw [xpd]) (by rw [xpd]) (by rw [xpd]) (by rw [xpd]) proto number
    exact ⟨shaped, good same⟩
  | preregistration on =>
    cases on with
    | false => exact ⟨shape, good Iff.rfl⟩
    | true =>
      obtain ⟨shaped, same⟩ := apply_protocol_step shape
      exact ⟨shaped, good same⟩
  | audioNotify pos on =>
    obtain ⟨shaped, agree⟩ := pri_mark_step shape (below_mark shape.offhook allowed.2.1 on)
    exact ⟨shaped, fun _ => agree⟩
  | cardOpen pos =>
    unfold PriOp.apply priCardOpen PriGood
    dsimp only
    split <;> rename_i dchan
    · cases notify with
      | true =>
        obtain ⟨shaped, same⟩ := @pri_kept x { x with dchanIsOpen := true } shape rfl rfl rfl rfl rfl rfl
        refine ⟨shaped, ?_⟩
        intro agrees
        simp [agrees]
      | false =>
        obtain ⟨shaped, agree⟩ := pri_mark_step shape (mark_others_below shape true)
        obtain ⟨opened, same⟩ := @pri_kept _
          { priCardPcmRecompute (othersMarked x true) 0 with dchanIsOpen := true } shaped rfl rfl rfl rfl rfl rfl
        refine ⟨opened, ?_⟩
        intro _
        apply (same.trans agree).trans
        simp [dchan]
    · refine ⟨shape, ?_⟩
      intro agrees
      simp [dchan, agrees]
  | cardClose pos =>
    unfold PriOp.apply priCardClose PriGood
    dsimp only
    split <;> rename_i dchan
    · obtain ⟨shaped, agree⟩ := pri_mark_step shape (mark_others_below shape false)
      obtain ⟨channels, offhook, wanted, pcmLen, proto, number⟩ :=
        dchan_stop_keeps (priCardPcmRecompute (othersMarked x false) 0)
      obtain ⟨closed, same⟩ := @pri_kept _
        { dchanStop (priCardPcmRecompute (othersMarked x false) 0) with dchanIsOpen := false } shaped
        channels offhook wanted pcmLen proto number
      refine ⟨closed, ?_⟩
      intro _
      apply (same.trans agree).trans
      simp [dchan]
    · split <;> rename_i isOpen
      · refine ⟨shape, ?_⟩
        intro agrees
        simp [dchan, isOpen, agrees]
      · obtain ⟨shaped, agree⟩ := pri_mark_step shape (below_mark shape.offhook allowed.1 false)
        refine ⟨shaped, ?_⟩
        intro _
        apply agree.trans
        simp [dchan, isOpen]

end Operations
end PcmLength
