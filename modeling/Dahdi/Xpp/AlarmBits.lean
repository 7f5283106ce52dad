import Dahdi.Library.GuardedRun
import Dahdi.Xpp.CasTrip

/-!
The transmit signalling registers of a T1 D4 span, over the calls of pri_rbsbits and the alarms
that come and go: send_idlebits when an alarm starts, send_oldbits when it ends.
-/
namespace AlarmBits
open Xpp PriCas BitFields

section Code

def DAHDI_ALARM_NONE : Nat := 0
def DAHDI_ALARM_YELLOW : Nat := 4
def DAHDI_ALARM_RED : Nat := 8
def DAHDI_ALARM_BLUE : Nat := 16
def REG_FRS0_RRA : Nat := 4
def REG_FRS0_AIS : Nat := 6
def REG_FRS0_LOS : Nat := 7

/-- The card of the span, the idlebits of its channels, its alarms, and the bits that pri_rbsbits
    was last called with on each channel. -/
structure Span where
  card : CasXpd
  idlebits : Nat → BitVec 32
  alarms : Nat
  lastBits : Nat → Option (BitVec 32)

def alarmsOf (dataLow : Byte) : Nat :=
  (if dataLow.getLsbD REG_FRS0_LOS then DAHDI_ALARM_RED else DAHDI_ALARM_NONE) |||
    (if dataLow.getLsbD REG_FRS0_AIS then DAHDI_ALARM_BLUE else DAHDI_ALARM_NONE) |||
    (if dataLow.getLsbD REG_FRS0_RRA then DAHDI_ALARM_YELLOW else DAHDI_ALARM_NONE)

/-- The loop of send_idlebits, with so many lines to go. -/
def idleLoop (idlebits : Nat → BitVec 32) : Nat → Nat → CasXpd → Option CasXpd
  | 0, _, x => some x
  | more + 1, i, x => (priRbsbits x i (idlebits i)).bind (idleLoop idlebits more (i + 1))

def sendIdlebits (idlebits : Nat → BitVec 32) (saveold : Bool) (x : CasXpd) : Option CasXpd :=
  if x.pri.xpd.registered = false then some x
  else
    (idleLoop idlebits x.pri.xpd.channels 0 x).map fun y => if saveold then { y with casTsE := x.casTsE } else y

/-- The loop of send_oldbits, with so many registers to go. -/
def oldLoop : Nat → Nat → CasXpd → Option CasXpd
  | 0, _, x => some x
  | more + 1, i, x => (writeCasReg x i (x.casTsE i)).bind (oldLoop more (i + 1))

def sendOldbits (x : CasXpd) : Option CasXpd := (casNumregs x).bind fun numregs => oldLoop numregs 0 x

/-- layer1_state, as far as the signalling bits go. -/
def layer1State (dataLow : Byte) (s : Span) : Option Span :=
  let alarms := alarmsOf dataLow
  if s.card.pri.xpd.registered && s.alarms != alarms then
    let card :=
      if s.card.pri.isCas = 0 then some s.card
      else if alarms = DAHDI_ALARM_NONE then sendOldbits s.card
      else if s.alarms = DAHDI_ALARM_NONE then sendIdlebits s.idlebits true s.card
      else some s.card
    card.map fun card => { s with card := card, alarms := alarms }
  else some s

inductive Op where
  | rbsbits (pos : Nat) (bits : BitVec 32)
  | layer1 (dataLow : Byte)

def next (s : Span) (op : Op) : Option Span :=
  match op with
  | .rbsbits pos bits =>
    (priRbsbits s.card pos bits).map fun card =>
      { s with card := card, lastBits := Function.update s.lastBits pos (some bits) }
  | .layer1 dataLow => layer1State dataLow s

end Code

section Conditions

/-- What one register held before a step. -/
def poke (r : Nat) (v : Byte) (s : Span) : Span :=
  { s with card := { s.card with regs := Function.update s.card.regs r v } }

/-- A step writes a register if there is something that the register could hold and that does not
    stay. -/
def writes (s : Span) (op : Op) (r : Nat) : Prop :=
  ∃ v s', next (poke r v s) op = some s' ∧ s'.card.regs r ≠ v

/-- Both banks hold what the driver remembers of the six registers. -/
def Banks (x : CasXpd) : Prop :=
  ∀ k < 6, x.regs (REG_RS1_E + k) = x.casTsE k ∧ x.regs (REG_RS7_E + k) = x.casTsE k

/-- The driver remembers the bits last set on every channel that has signalling. -/
def Remembers (s : Span) : Prop :=
  ∀ pos < 24, (s.card.chans pos).sig ≠ DAHDI_SIG_NONE → ∀ bits, s.lastBits pos = some bits →
    read s.card.casTsE (CasTrip.field .d4 pos) = CasTrip.value .d4 bits &&& low 8 2

/-- Without an alarm both banks of a D4 span carry the bits last set. -/
structure Good (s : Span) : Prop where
  mode : InMode .d4 s.card
  remembers : Remembers s
  banks : s.alarms = DAHDI_ALARM_NONE → Banks s.card

structure Start (s : Span) : Prop where
  mode : InMode .d4 s.card
  banks : Banks s.card
  lastBits : ∀ pos, s.lastBits pos = none

def sys : GuardedRun.System Span Op := ⟨Start, fun s op s' => next s op = some s'⟩

/-- The step is not the end of an alarm. -/
def quiet (s : Span) (op : Op) : Prop :=
  match op with
  | .rbsbits _ _ => True
  | .layer1 dataLow => s.alarms ≠ DAHDI_ALARM_NONE → alarmsOf dataLow ≠ DAHDI_ALARM_NONE

instance (s : Span) (op : Op) : Decidable (quiet s op) :=
  match op with
  | .rbsbits _ _ => isTrue trivial
  | .layer1 dataLow => inferInstanceAs (Decidable (s.alarms ≠ _ → alarmsOf dataLow ≠ _))

end Conditions

section Registers
variable {x x' : CasXpd}

theorem write_both (mode : InMode .d4 x) {i : Nat} (inside : i < 12) (val : Byte) :
    writeCasReg x i val = some { x with
      casTsE := Function.update x.casTsE i val
      regs := Function.update (Function.update x.regs (REG_RS1_E + i) val) (REG_RS7_E + i) val } := by
  obtain ⟨t1, esf⟩ := mode.proto
  have room : ¬ NUM_CAS_RS_T ≤ i := not_le.mpr inside
  rw [writeCasReg, casRegbase, casNumregs, t1]
  simp only [room, esf]
  rfl

/-- The registers RS1 to RS12 are two banks of six. -/
def inBanks (r : Nat) : Prop := REG_RS1_E ≤ r ∧ r ≤ REG_RS12_E

theorem rbsbits_cases (mode : InMode .d4 x) (pos : Nat) (bits : BitVec 32) :
    priRbsbits x pos bits = some x ∧ ¬ (pos < 24 ∧ (x.chans pos).sig ≠ DAHDI_SIG_NONE) ∨
      (pos < 24 ∧ (x.chans pos).sig ≠ DAHDI_SIG_NONE) ∧ priRbsbits x pos bits = some (CasTrip.sentTo .d4 x pos bits) := by
  by_cases inside : pos < 24
  · by_cases configured : (x.chans pos).sig = DAHDI_SIG_NONE
    · refine .inl ⟨CasTrip.rbsbits_ignored mode inside (fun both => both.2 configured) bits, fun both => both.2 configured⟩
    · exact .inr ⟨⟨inside, configured⟩, CasTrip.rbsbits_sent mode ⟨inside, nofun⟩ configured bits⟩
  · refine .inl ⟨?_, fun both => inside both.1⟩
    obtain ⟨t1, _⟩ := mode.proto
    have channels := mode.channels
    rw [t1, priNumChannels] at channels
    rw [priRbsbits, if_neg mode.cas, t1]
    split
    · rfl
    · dsimp only
      rw [encodeRbsbitsT1, if_neg (not_not_intro t1), if_pos (by omega)]

/-- What priRbsbits keeps. -/
structure Sent (x x' : CasXpd) : Prop where
  mode : InMode .d4 x'
  chans : x'.chans = x.chans
  outside : ∀ r, ¬ inBanks r → x'.regs r = x.regs r

theorem rbsbits_kept (mode : InMode .d4 x) {pos : Nat} {bits : BitVec 32} (done : priRbsbits x pos bits = some x') :
    Sent x x' := by
  rcases rbsbits_cases mode pos bits with ⟨ignored, _⟩ | ⟨⟨inside, _⟩, sent⟩
  · obtain rfl := Option.some.inj (ignored.symm.trans done)
    exact ⟨mode, rfl, fun _ _ => rfl⟩
  · obtain rfl := Option.some.inj (sent.symm.trans done)
    refine ⟨⟨mode.cas, mode.registered, mode.channels, mode.proto⟩, rfl, fun r outside => ?_⟩
    have elsewhere : r ∉ LineMode.d4.brings pos := by
      intro brought
      apply outside
      simp only [LineMode.brings, List.mem_cons, List.not_mem_nil, or_false, REG_RS1_E, REG_RS7_E] at brought
      simp only [inBanks, REG_RS1_E, REG_RS12_E]
      omega
    exact (CasTrip.updated_at _ _ _ r).trans (if_neg elsewhere)

/-- A register of one of the banks that agrees with the driver still does after the bits of any
    channel are sent. -/
theorem sent_agrees {pos k r : Nat} (bits : BitVec 32) (inside : pos < 24) (small : k < 6)
    (own : r = REG_RS1_E + k ∨ r = REG_RS7_E + k) (agrees : x.regs r = x.casTsE k) :
    (CasTrip.sentTo .d4 x pos bits).regs r = (CasTrip.sentTo .d4 x pos bits).casTsE k := by
  have brought : r ∈ LineMode.d4.brings pos ↔ k = pos / 4 := by
    simp only [LineMode.brings, List.mem_cons, List.not_mem_nil, or_false, REG_RS1_E, REG_RS7_E] at own ⊢
    omega
  refine (CasTrip.updated_at _ _ _ r).trans ?_
  by_cases same : k = pos / 4
  · rw [if_pos (brought.mpr same), same]
    rfl
  · rw [if_neg fun there => same (brought.mp there)]
    exact agrees.trans (Function.update_of_ne same _ _).symm

/-- pri_rbsbits keeps the registers in agreement that are. -/
theorem rbsbits_agrees (mode : InMode .d4 x) {pos k r : Nat} {bits : BitVec 32} (done : priRbsbits x pos bits = some x')
    (small : k < 6) (own : r = REG_RS1_E + k ∨ r = REG_RS7_E + k) (agrees : x.regs r = x.casTsE k) :
    x'.regs r = x'.casTsE k := by
  rcases rbsbits_cases mode pos bits with ⟨ignored, _⟩ | ⟨⟨inside, _⟩, sent⟩
  · obtain rfl := Option.some.inj (ignored.symm.trans done)
    exact agrees
  · obtain rfl := Option.some.inj (sent.symm.trans done)
    exact sent_agrees bits inside small own agrees

theorem idle_kept {idlebits : Nat → BitVec 32} {more i : Nat} (mode : InMode .d4 x)
    (done : idleLoop idlebits more i x = some x') : Sent x x' := by
  induction more generalizing i x with
  | zero =>
    obtain rfl := Option.some.inj done
    exact ⟨mode, rfl, fun _ _ => rfl⟩
  | succ more ih =>
    obtain ⟨y, called, rest⟩ := Option.bind_eq_some_iff.mp done
    have first := rbsbits_kept mode called
    have later := ih first.mode rest
    exact ⟨later.mode, later.chans.trans first.chans, fun r outside => (later.outside r outside).trans (first.outside r outside)⟩

/-- send_oldbits after n rounds: register r holds what the last round to write it wrote there. -/
def oldRegs (x : CasXpd) (n r : Nat) : Byte :=
  if REG_RS1_E ≤ r ∧ r < REG_RS1_E + n then x.casTsE (r - REG_RS1_E)
  else if REG_RS7_E ≤ r ∧ r < REG_RS7_E + n then x.casTsE (r - REG_RS7_E)
  else x.regs r

theorem old_step (x : CasXpd) (n : Nat) :
    Function.update (Function.update (oldRegs x n) (REG_RS1_E + n) (x.casTsE n)) (REG_RS7_E + n) (x.casTsE n) =
      oldRegs x (n + 1) := by
  funext r
  by_cases second : r = REG_RS7_E + n
  · rw [second, Function.update_self, oldRegs]
    rw [if_neg (by simp only [REG_RS1_E, REG_RS7_E]; omega), if_pos (by omega), Nat.add_sub_cancel_left]
  · rw [Function.update_of_ne second]
    by_cases first : r = REG_RS1_E + n
    · rw [first, Function.update_self, oldRegs, if_pos (by omega), Nat.add_sub_cancel_left]
    · rw [Function.update_of_ne first, oldRegs, oldRegs]
      have one : REG_RS1_E ≤ r ∧ r < REG_RS1_E + n ↔ REG_RS1_E ≤ r ∧ r < REG_RS1_E + (n + 1) := by omega
      have two : REG_RS7_E ≤ r ∧ r < REG_RS7_E + n ↔ REG_RS7_E ≤ r ∧ r < REG_RS7_E + (n + 1) := by omega
      simp only [one, two]

theorem old_loop {more i : Nat} (mode : InMode .d4 x) (to_go : i + more = 12) :
    oldLoop more i { x with regs := oldRegs x i } = some { x with regs := oldRegs x 12 } := by
  induction more generalizing i with
  | zero =>
    rw [Nat.add_zero] at to_go
    rw [to_go]
    rfl
  | succ more ih =>
    have here : InMode .d4 { x with regs := oldRegs x i } := ⟨mode.cas, mode.registered, mode.channels, mode.proto⟩
    rw [oldLoop, write_both here (by omega), Option.bind_some]
    dsimp only
    rw [Function.update_eq_self, old_step]
    exact ih (by omega)

theorem oldbits_sent (mode : InMode .d4 x) : sendOldbits x = some { x with regs := oldRegs x 12 } := by
  have start : { x with regs := oldRegs x 0 } = x := by
    have same : oldRegs x 0 = x.regs := by
      funext r
      rw [oldRegs, if_neg (by omega), if_neg (by omega)]
    rw [same]
  have all : oldLoop 12 0 { x with regs := oldRegs x 0 } = some { x with regs := oldRegs x 12 } := old_loop mode rfl
  rw [start] at all
  rw [sendOldbits, casNumregs, mode.proto.1]
  exact all

end Registers

section Steps
variable {s s' : Span}

theorem idlebits_kept {idlebits : Nat → BitVec 32} {x x' : CasXpd} (mode : InMode .d4 x)
    (done : sendIdlebits idlebits true x = some x') : Sent x x' ∧ x'.casTsE = x.casTsE := by
  rw [sendIdlebits, if_neg (by rw [mode.registered]; decide)] at done
  obtain ⟨y, looped, rfl⟩ := Option.map_eq_some_iff.mp done
  have kept := idle_kept mode looped
  exact ⟨⟨⟨kept.mode.cas, kept.mode.registered, kept.mode.channels, kept.mode.proto⟩, kept.chans, kept.outside⟩, rfl⟩

/-- What layer1_state does to the signalling bits of a span that is registered and has channel
    associated signalling. -/
inductive Layer1 (s : Span) (dataLow : Byte) (s' : Span) : Prop where
  | same (steady : alarmsOf dataLow = s.alarms) : s' = s → Layer1 s dataLow s'
  | ends (before : s.alarms ≠ DAHDI_ALARM_NONE) (gone : alarmsOf dataLow = DAHDI_ALARM_NONE) :
      s' = { s with card := { s.card with regs := oldRegs s.card 12 }, alarms := DAHDI_ALARM_NONE } → Layer1 s dataLow s'
  | begins (before : s.alarms = DAHDI_ALARM_NONE) (card : CasXpd) (kept : Sent s.card card)
      (shadow : card.casTsE = s.card.casTsE) (now : alarmsOf dataLow ≠ DAHDI_ALARM_NONE) :
      s' = { s with card := card, alarms := alarmsOf dataLow } → Layer1 s dataLow s'
  | other (before : s.alarms ≠ DAHDI_ALARM_NONE) (now : alarmsOf dataLow ≠ DAHDI_ALARM_NONE) :
      s' = { s with alarms := alarmsOf dataLow } → Layer1 s dataLow s'

theorem layer1_cases {dataLow : Byte} (mode : InMode .d4 s.card) (done : layer1State dataLow s = some s') :
    Layer1 s dataLow s' := by
  rw [layer1State, mode.registered, Bool.true_and] at done
  split at done
  case isFalse steady =>
    have unchanged : s.alarms = alarmsOf dataLow := by simpa using steady
    exact .same unchanged.symm (Option.some.inj done).symm
  case isTrue changed =>
    have differs : s.alarms ≠ alarmsOf dataLow := by simpa using changed
    rw [if_neg mode.cas] at done
    split at done
    case isTrue gone =>
      rw [oldbits_sent mode, Option.map_some] at done
      refine .ends (fun none_before => differs (none_before.trans gone.symm)) gone ?_
      rw [← Option.some.inj done, gone]
    case isFalse now =>
      split at done
      case isTrue before =>
        obtain ⟨card, idle, rfl⟩ := Option.map_eq_some_iff.mp done
        have kept := idlebits_kept mode idle
        exact .begins before card kept.1 kept.2 now rfl
      case isFalse before =>
        rw [Option.map_some] at done
        exact .other before now (Option.some.inj done).symm

theorem alarm_ends {dataLow : Byte} (mode : InMode .d4 s.card) (before : s.alarms ≠ DAHDI_ALARM_NONE)
    (gone : alarmsOf dataLow = DAHDI_ALARM_NONE) : layer1State dataLow s =
      some { s with card := { s.card with regs := oldRegs s.card 12 }, alarms := DAHDI_ALARM_NONE } := by
  rw [layer1State, mode.registered, Bool.true_and, gone, if_pos (bne_iff_ne.mpr before), if_neg mode.cas, if_pos rfl,
    oldbits_sent mode, Option.map_some]

theorem next_mode {op : Op} (mode : InMode .d4 s.card) (done : next s op = some s') : InMode .d4 s'.card := by
  cases op with
  | rbsbits pos bits =>
    obtain ⟨card, called, rfl⟩ := Option.map_eq_some_iff.mp done
    exact (rbsbits_kept mode called).mode
  | layer1 dataLow =>
    cases layer1_cases mode done with
    | same _ same => rwa [same]
    | ends _ _ same =>
      rw [same]
      exact ⟨mode.cas, mode.registered, mode.channels, mode.proto⟩
    | begins _ card kept _ _ same =>
      rw [same]
      exact kept.mode
    | other _ _ same => rwa [same]

theorem next_remembers {op : Op} (mode : InMode .d4 s.card) (remembers : Remembers s) (done : next s op = some s') :
    Remembers s' := by
  cases op with
  | rbsbits pos bits =>
    obtain ⟨card, called, rfl⟩ := Option.map_eq_some_iff.mp done
    intro i inside configured b set
    dsimp only at configured set ⊢
    rw [(rbsbits_kept mode called).chans] at configured
    have here : LineMode.d4.Bearer i := ⟨inside, nofun⟩
    rcases rbsbits_cases mode pos bits with ⟨ignored, idle⟩ | ⟨⟨below, signalling⟩, sent⟩
    · obtain rfl := Option.some.inj (ignored.symm.trans called)
      have other : i ≠ pos := by
        rintro rfl
        exact idle ⟨inside, configured⟩
      rw [Function.update_of_ne other] at set
      exact remembers i inside configured b set
    · obtain rfl := Option.some.inj (sent.symm.trans called)
      have there : LineMode.d4.Bearer pos := ⟨below, nofun⟩
      by_cases same : i = pos
      · rw [same, Function.update_self] at set
        rw [same, ← Option.some.inj set]
        exact (CasTrip.sent_shows .d4 s.card pos bits).1
      · rw [Function.update_of_ne same] at set
        rw [(CasTrip.sent_others s.card there here (Ne.symm same) bits).1]
        exact remembers i inside configured b set
  | layer1 dataLow =>
    cases layer1_cases mode done with
    | same _ same => rwa [same]
    | ends _ _ same =>
      rw [same]
      exact remembers
    | begins _ card kept shadow _ same =>
      rw [same]
      intro i inside configured b set
      dsimp only at configured set ⊢
      rw [kept.chans] at configured
      rw [shadow]
      exact remembers i inside configured b set
    | other _ _ same =>
      rw [same]
      exact remembers

/-- A step that does not end an alarm keeps to the two banks and keeps them in agreement. -/
theorem quiet_outside {op : Op} {r : Nat} (mode : InMode .d4 s.card) (allowed : quiet s op) (done : next s op = some s')
    (outside : ¬ inBanks r) : s'.card.regs r = s.card.regs r := by
  cases op with
  | rbsbits pos bits =>
    obtain ⟨card, called, rfl⟩ := Option.map_eq_some_iff.mp done
    exact (rbsbits_kept mode called).outside r outside
  | layer1 dataLow =>
    cases layer1_cases mode done with
    | same _ same => rw [same]
    | ends before gone _ => exact absurd gone (allowed before)
    | begins _ card kept _ _ same =>
      rw [same]
      exact kept.outside r outside
    | other _ _ same => rw [same]

theorem quiet_good {op : Op} (good : Good s) (allowed : quiet s op) (done : next s op = some s') : Good s' := by
  refine ⟨next_mode good.mode done, next_remembers good.mode good.remembers done, fun none_now => ?_⟩
  cases op with
  | rbsbits pos bits =>
    obtain ⟨card, called, rfl⟩ := Option.map_eq_some_iff.mp done
    intro k small
    have before := good.banks none_now k small
    exact ⟨rbsbits_agrees good.mode called small (.inl rfl) before.1, rbsbits_agrees good.mode called small (.inr rfl) before.2⟩
  | layer1 dataLow =>
    cases layer1_cases good.mode done with
    | same _ same =>
      rw [same] at none_now ⊢
      exact good.banks none_now
    | ends before gone _ => exact absurd gone (allowed before)
    | begins _ card _ _ now same =>
      rw [same] at none_now
      exact absurd none_now now
    | other _ now same =>
      rw [same] at none_now
      exact absurd none_now now

theorem quiet_iff {op : Op} (good : Good s) (done : next s op = some s') :
    (Good s' ∧ ∀ r, writes s op r → inBanks r) ↔ quiet s op := by
  constructor
  · intro ⟨_, within⟩
    cases op with
    | rbsbits pos bits => trivial
    | layer1 dataLow =>
      intro before gone
      have outside : ¬ inBanks (REG_RS7_E + 6) := by
        rw [inBanks]
        decide
      apply outside
      apply within
      refine ⟨s.card.casTsE 6 + 1, ?_⟩
      have poked : InMode .d4 (poke (REG_RS7_E + 6) (s.card.casTsE 6 + 1) s).card :=
        ⟨good.mode.cas, good.mode.registered, good.mode.channels, good.mode.proto⟩
      refine ⟨_, alarm_ends poked before gone, ?_⟩
      have bumped : s.card.casTsE 6 ≠ s.card.casTsE 6 + 1 := by
        intro same
        simp at same
      exact bumped
  · intro allowed
    refine ⟨quiet_good good allowed done, ?_⟩
    intro r ⟨v, s₁, moved, changed⟩
    by_contra outside
    apply changed
    have mode : InMode .d4 (poke r v s).card := ⟨good.mode.cas, good.mode.registered, good.mode.channels, good.mode.proto⟩
    have still : quiet (poke r v s) op := by
      cases op with
      | rbsbits _ _ => trivial
      | layer1 _ => exact allowed
    rw [quiet_outside mode still moved outside, poke]
    simp only [Function.update_self]

end Steps

section Results

theorem start_good {s : Span} (start : Start s) : Good s := by
  refine ⟨start.mode, ?_, fun _ => start.banks⟩
  intro pos _ _ bits set
  rw [start.lastBits] at set
  cases set

/-- The first bank agrees while there is no alarm. -/
structure FirstBank (s : Span) : Prop where
  mode : InMode .d4 s.card
  bank : s.alarms = DAHDI_ALARM_NONE → ∀ k < 6, s.card.regs (REG_RS1_E + k) = s.card.casTsE k

theorem next_first {s s' : Span} {op : Op} (first : FirstBank s) (done : next s op = some s') : FirstBank s' := by
  refine ⟨next_mode first.mode done, fun none_now k small => ?_⟩
  cases op with
  | rbsbits pos bits =>
    obtain ⟨card, called, rfl⟩ := Option.map_eq_some_iff.mp done
    exact rbsbits_agrees first.mode called small (.inl rfl) (first.bank none_now k small)
  | layer1 dataLow =>
    cases layer1_cases first.mode done with
    | same _ same =>
      rw [same] at none_now ⊢
      exact first.bank none_now k small
    | ends _ _ same =>
      rw [same]
      dsimp only
      rw [oldRegs, if_pos (by omega), Nat.add_sub_cancel_left]
    | begins _ _ _ _ now same =>
      rw [same] at none_now
      exact absurd none_now now
    | other _ now same =>
      rw [same] at none_now
      exact absurd none_now now

/-- Whatever has happened, the first bank carries the bits last set when there is no alarm. -/
theorem first_bank_run {s : Span} (reached : GuardedRun.Reach sys GuardedRun.anyStep s) : FirstBank s :=
  GuardedRun.invariant_run (fun _ start => ⟨start.mode, fun _ k small => (start.banks k small).1⟩)
    (fun s op s' before _ moved => next_first before (show next s op = some s' from moved)) reached

/-- The end of an alarm leaves other bits in the second bank, those of six registers that a D4
    span does not have. -/
theorem second_bank_left {s : Span} {dataLow : Byte} (mode : InMode .d4 s.card) (before : s.alarms ≠ DAHDI_ALARM_NONE)
    (gone : alarmsOf dataLow = DAHDI_ALARM_NONE) :
    ∃ s', next s (.layer1 dataLow) = some s' ∧
      ∀ k < 6, s'.card.regs (REG_RS7_E + k) = s.card.casTsE (6 + k) ∧
        s'.card.regs (REG_RS7_E + 6 + k) = s.card.casTsE (6 + k) := by
  refine ⟨_, alarm_ends mode before gone, fun k small => ?_⟩
  dsimp only
  constructor
  · rw [oldRegs, if_pos (by simp only [REG_RS1_E, REG_RS7_E]; omega)]
    congr 1
    simp only [REG_RS1_E, REG_RS7_E]
    omega
  · rw [oldRegs, if_neg (by simp only [REG_RS1_E, REG_RS7_E]; omega), if_pos (by omega)]
    congr 1
    omega

theorem banks_agree {s : Span} (reached : GuardedRun.Reach sys quiet s) :
    Good s ∧ ∀ op s', next s op = some s' → ((Good s' ∧ ∀ r, writes s op r → inBanks r) ↔ quiet s op) := by
  have good : Good s :=
    GuardedRun.invariant_run (fun _ => start_good)
      (fun s op s' before allowed moved => quiet_good before allowed (show next s op = some s' from moved)) reached
  exact ⟨good, fun _ _ moved => quiet_iff good moved⟩

def freshSpan : Span where
  card := { CasTrip.d4Span with regs := fun _ => 0 }
  idlebits _ := 0xf
  alarms := DAHDI_ALARM_NONE
  lastBits _ := none

theorem freshSpan_start : Start freshSpan :=
  ⟨⟨by decide, rfl, rfl, rfl, rfl⟩, fun _ _ => ⟨rfl, rfl⟩, fun _ => rfl⟩

/-- Bits are set, and an alarm starts. -/
theorem banks_agree_alarm : ∃ s : Span, s.card.regs REG_RS7_E = 0xff ∧ s.card.casTsE 0 = 0x20 ∧
    Good s ∧ ∀ op s', next s op = some s' → ((Good s' ∧ ∀ r, writes s op r → inBanks r) ↔ quiet s op) := by
  have view : (GuardedRun.follow next quiet [.rbsbits 1 0x8, .layer1 0x80] freshSpan).map
      (fun s => (s.card.regs REG_RS7_E, s.card.casTsE 0)) = some (0xff, 0x20) := by
    decide +kernel
  obtain ⟨s, followed, seen⟩ := Option.map_eq_some_iff.mp view
  rw [Prod.mk.injEq] at seen
  exact ⟨s, seen.1, seen.2, banks_agree (GuardedRun.follow_reach (fun _ _ _ moved => moved) (.start freshSpan_start) followed)⟩

/-- The alarm is over, and the second bank holds no bits of the channel that has been set. -/
theorem bits_lost : ∃ s : Span, GuardedRun.Reach sys GuardedRun.anyStep s ∧ s.alarms = DAHDI_ALARM_NONE ∧
    s.card.casTsE 0 = 0x20 ∧ s.card.regs REG_RS1_E = 0x20 ∧ s.card.regs REG_RS7_E = 0 ∧ ¬ Good s := by
  have view : (GuardedRun.follow next GuardedRun.anyStep [.rbsbits 1 0x8, .layer1 0x80, .layer1 0] freshSpan).map
      (fun s => (s.alarms, s.card.casTsE 0, s.card.regs REG_RS1_E, s.card.regs REG_RS7_E)) = some (0, 0x20, 0x20, 0) := by
    decide +kernel
  obtain ⟨s, followed, seen⟩ := Option.map_eq_some_iff.mp view
  rw [Prod.mk.injEq, Prod.mk.injEq, Prod.mk.injEq] at seen
  obtain ⟨none_now, shadow, first, second⟩ := seen
  refine ⟨s, GuardedRun.follow_reach (fun _ _ _ moved => moved) (.start freshSpan_start) followed, none_now, shadow, first,
    second, fun good => ?_⟩
  have agrees := (good.banks none_now 0 (by decide)).2
  rw [Nat.add_zero, second, shadow] at agrees
  exact absurd agrees (by decide)

end Results

end AlarmBits
