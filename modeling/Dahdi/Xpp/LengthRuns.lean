import Dahdi.Xpp.PriLength

/-!
Runs of the operations of Astribank cards. The length agrees with the mask until a
BRI subunit has one B-channel off hook, or an E1 card with CAS has lines off hook
without its D-channel.
-/
namespace PcmLengthRuns
open Xpp LineMask GuardedRun PcmLength

section Runs

/-- The xpds of a card. -/
inductive Has : Card → Xpd → Prop where
  | generic (card : GenericCard) : Has (.generic card) card.xpd
  | bri {subs : BriUnit} {i : Nat} {sub : BriXpd} : subs i = some sub → Has (.bri subs) sub.xpd
  | pri (x : PriXpd) : Has (.pri x) x.xpd

def CardAgrees (card : Card) : Prop := ∀ xpd, Has card xpd → Agrees xpd

def CardShape : Card → Prop
  | .generic card => GenericSound card
  | .bri subs => BriShape subs
  | .pri x => PriShape x

/-- The condition on the masks that an operation hands to the recompute. -/
def Good (notify : Bool) : Card → CardOp → Prop
  | .bri subs, .bri i op => ∀ sub, subs i = some sub → BriGood subs i sub op
  | .pri x, .pri op => PriGood notify x op
  | _, _ => True

theorem bri_card_agrees (subs : BriUnit) : CardAgrees (.bri subs) ↔ BriAgrees subs := by
  constructor
  · intro agrees i sub present
    exact agrees _ (Has.bri present)
  · intro agrees xpd has
    cases has with
    | bri present => exact agrees _ _ present

theorem pri_card_agrees (x : PriXpd) : CardAgrees (.pri x) ↔ Agrees x.xpd := by
  constructor
  · intro agrees
    exact agrees _ (Has.pri x)
  · intro agrees xpd has
    cases has
    exact agrees

theorem generic_card_agrees {card : GenericCard} (sound : GenericSound card) : CardAgrees (.generic card) := by
  intro xpd has
  cases has
  exact sound.agrees

theorem fresh_sound {card : Card} (fresh : Fresh card) : CardShape card ∧ CardAgrees card := by
  cases fresh with
  | generic unit channels inputs outputs most =>
    have sound : GenericSound (freshGeneric unit channels inputs outputs) :=
      ⟨⟨most, below_zero, below_zero⟩, below_zero, Or.inl rfl⟩
    exact ⟨sound, generic_card_agrees sound⟩
  | bri =>
    constructor
    · constructor
      · intro i sub present
        cases present
      · intro i sub present
        cases present
    · rw [bri_card_agrees]
      intro i sub present
      cases present
  | pri unit =>
    constructor
    · constructor
      · exact Nat.le_of_ble_eq_true rfl
      · exact Nat.le_of_ble_eq_true rfl
      · exact below_zero
      · exact below_zero
      · intro e1
        cases e1
      · intro set_
        exact absurd rfl set_
    · rw [pri_card_agrees]
      exact Or.inl rfl

theorem card_step {notify : Bool} {card card' : Card} {op : CardOp} (shape : CardShape card)
    (step : Step notify card op card') :
    CardShape card' ∧ (CardAgrees card → (CardAgrees card' ↔ Good notify card op)) := by
  cases step with
  | @generic card op allowed =>
    have sound := generic_step_sound shape op allowed
    exact ⟨sound, fun _ => iff_of_true (generic_card_agrees sound) trivial⟩
  | @bri subs subs' i op _ step =>
    rw [bri_card_agrees, bri_card_agrees]
    exact bri_step shape step
  | @pri x op allowed =>
    rw [pri_card_agrees, pri_card_agrees]
    exact pri_step shape allowed

/-- The masks keep their shape in every run. -/
theorem run_shape {notify : Bool} {guard : Card → CardOp → Prop} {card : Card}
    (reached : Reach (cards notify) guard card) : CardShape card := by
  apply @invariant_run _ _ _ _ CardShape _ _ card reached
  · intro card fresh
    exact (fresh_sound fresh).1
  · intro card op card' shape _ step
    exact (card_step shape step).1

theorem run_sound {notify : Bool} {card : Card} (reached : Reach (cards notify) (Good notify) card) :
    CardShape card ∧ CardAgrees card := by
  apply @invariant_run _ _ _ _ (fun card => CardShape card ∧ CardAgrees card) _ _ card reached
  · intro card fresh
    exact fresh_sound fresh
  · intro card op card' sound good step
    obtain ⟨shape, agree⟩ := card_step sound.1 step
    exact ⟨shape, (agree sound.2).mpr good⟩

/-- In a run of operations that all meet the condition, lengths and masks agree, so
    that pcm_valid takes the packets; the next operation keeps this just when it
    meets the condition too. -/
theorem pcm_len_agrees_run (notify : Bool) (card : Card) (reached : Reach (cards notify) (Good notify) card) :
    (∀ xpd, Has card xpd →
      (xpd.pcmLen = 0 ∨
        xpd.pcmLen = RPACKET_HEADERSIZE + sizeofLines + 8 * count xpd.wantedPcmMask CHANNELS_PERXPD) ∧
      (xpd.pcmLen ≠ 0 → ∀ pcm, pcmValid ⟨xpd.pcmLen, xpd.wantedPcmMask, pcm⟩ = true)) ∧
    ∀ op card', Step notify card op card' → (CardAgrees card' ↔ Good notify card op) := by
  obtain ⟨shape, agrees⟩ := run_sound reached
  constructor
  · intro xpd has
    have agree := agrees xpd has
    constructor
    · have good := good_len xpd.wantedPcmMask
      unfold Agrees at agree
      rw [good] at agree
      exact agree
    · intro sent pcm
      exact pcm_valid_of_agrees agree sent pcm
  · intro op card' step
    exact (card_step shape step).2 agrees

end Runs

section Sequences

/-- The card after the operations. -/
def runPri (notify : Bool) (x : PriXpd) (ops : List PriOp) : PriXpd := ops.foldl (PriOp.apply notify) x

/-- None of the operations is barred, and each meets the guard. -/
def Taken (notify : Bool) (guard : Card → CardOp → Prop) (x : PriXpd) : List PriOp → Prop
  | [] => True
  | op :: ops =>
    op.Allowed notify x ∧ guard (.pri x) (.pri op) ∧ Taken notify guard (op.apply notify x) ops

theorem reach_ops {notify : Bool} {guard : Card → CardOp → Prop} {x : PriXpd} (ops : List PriOp)
    (reached : Reach (cards notify) guard (.pri x)) (taken : Taken notify guard x ops) :
    Reach (cards notify) guard (.pri (runPri notify x ops)) := by
  induction ops generalizing x with
  | nil => exact reached
  | cons op ops ih => exact ih (Reach.step reached taken.2.1 (Step.pri taken.1)) taken.2.2

/-- The first spanconfig of an E1 span for CAS. -/
def registerOnce : List PriOp :=
  [.setPriProto .e1, .preregistration true, .postregistration true, .spanconfig (config [DAHDI_CONFIG_HDB3])]

theorem pcm_len_agrees_once :
    ∃ card xpd, Reach (cards false) (Good false) card ∧ Has card xpd ∧ xpd.pcmLen = 8 + 8 * 30 ∧
      ∀ pcm, pcmValid ⟨xpd.pcmLen, xpd.wantedPcmMask, pcm⟩ = true := by
  have reached : Reach (cards false) (Good false) (.pri (runPri false (freshPri 1) registerOnce)) := by
    apply reach_ops
    · exact Reach.start (Fresh.pri 1)
    · simp only [registerOnce, Taken, PriOp.Allowed, Good, PriGood, true_and, and_true]
      intro _ _
      left
      decide +kernel
  refine ⟨_, _, reached, Has.pri _, ?_, ?_⟩
  · decide +kernel
  · exact ((pcm_len_agrees_run false _ reached).1 _ (Has.pri _)).2 (by decide +kernel)

/-- An E1 span with CAS that is registered a second time. -/
def registerTwice : List PriOp :=
  let cas := PriOp.spanconfig (config [DAHDI_CONFIG_HDB3])
  [.setPriProto .e1, .preregistration true, .postregistration true, cas, .postregistration false,
    .preregistration true, .postregistration true, cas]

/-- The second registration takes the wanted lines for the lines off hook, and its
    spanconfig takes the D-channel away again: 30 lines, and a length for 29. -/
theorem register_twice_short :
    ∃ card xpd, Reach (cards false) anyStep card ∧ Has card xpd ∧ xpd.pcmLen = 8 + 8 * 29 ∧
      count xpd.wantedPcmMask 32 = 30 ∧ ∀ pcm, pcmValid ⟨xpd.pcmLen, xpd.wantedPcmMask, pcm⟩ = false := by
  refine ⟨.pri (runPri false (freshPri 1) registerTwice), _, ?_, Has.pri _, ?_, ?_, ?_⟩
  · apply reach_ops
    · exact Reach.start (Fresh.pri 1)
    · simp [registerTwice, Taken, PriOp.Allowed, anyStep]
  · decide +kernel
  · decide +kernel
  · intro pcm
    unfold pcmValid
    dsimp only
    decide +kernel

end Sequences
end PcmLengthRuns
