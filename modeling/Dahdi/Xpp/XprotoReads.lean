import Dahdi.Xpp.Xproto

/-!
How long a command packet has to be for what its handler goes on to read of it. The
length follows from the opcode, the card, and for a register reply from the
register and the bytes that it announces.
-/
namespace Xproto
open Xpp PeekTree

section Needs

def dumpRegNeeds (mem : Nat → Byte) : Nat :=
  if 5 < regBytes (mem 4) then 5
  else if regIsMultibyte (mem 4) then 5 + regBytes (mem 4)
  else if regBytes (mem 4) ≠ 5 then 5
  else if regReadRequest (mem 5) then (if regDoSubreg (mem 5) then 8 else 7)
  else if regDoDatah (mem 5) then 10
  else 9

def keepNeeds (asked : RegAsked) (mem : Nat → Byte) : Nat :=
  if asked.regnum ≠ mem 6 ∨ asked.doSubreg ≠ regDoSubreg (mem 5) then 7
  else if asked.subreg ≠ mem 7 then 8
  else 10

def fxsNeeds (debug : Bool) (asked : RegAsked) (mem : Nat → Byte) : Nat :=
  max (max (if mem 6 = 0x1E then 8
      else if mem 6 = REG_DTMF_DECODE ∨ mem 6 = REG_DIGITAL_IOCTRL ∨ mem 6 = REG_LOOPCLOSURE then 9
      else 7)
    (if debug then 10 else 7)) (keepNeeds asked mem)

def fxoNeeds (debug : Bool) (asked : RegAsked) (mem : Nat → Byte) : Nat :=
  max (max (if mem 6 = REG_INTERRUPT_SRC ∨ mem 6 = DAA_REG_VBAT ∨ mem 6 = DAA_REG_CURRENT then 9 else 7)
    (if debug then 10 else 7)) (keepNeeds asked mem)

/-- A piece of the D-channel that dahdi gets, and the status behind the last one. -/
def dchanNeeds (sub : BriXpd) (room : Option Int) (mem : Nat → Byte) : Nat :=
  if regBytes (mem 4) = 0 ∨ sub.xpd.registered = false ∨ sub.xpd.offhookState.getLsbD 2 = false then 5
  else if regEoframe (mem 4) then 5 + regBytes (mem 4)
  else
    match room with
    | none => 5
    | some room => 5 + (min room (regBytes (mem 4))).toNat

def briNeeds (debug : Bool) (subs : BriUnit) (asked : Nat → RegAsked) (room : Nat → Option Int)
    (mem : Nat → Byte) : Nat :=
  match subs (regPortnum (mem 4)) with
  | none => 5
  | some sub =>
    max (if debug then 9 else if regDoSubreg (mem 5) then 6 else 7)
      (if regIsMultibyte (mem 4) then dchanNeeds sub (room (regPortnum (mem 4))) mem
      else max (if mem 6 = A_SU_RD_STA then 9 else 7) (keepNeeds (asked (regPortnum (mem 4))) mem))

def priNeeds (subs : Nat → Option PriXpd) (asked : Nat → RegAsked) (mem : Nat → Byte) : Nat :=
  if (subs (regPortnum (mem 4))).isNone ∨ regIsMultibyte (mem 4) = true then 9
  else max 9 (keepNeeds (asked (regPortnum (mem 4))) mem)

def echoNeeds (subs : Nat → Bool) (asked : Nat → RegAsked) (mem : Nat → Byte) : Nat :=
  if subs (regPortnum (mem 4)) then keepNeeds (asked (regPortnum (mem 4))) mem else 5

def cardNeeds (bus : Bus) (unit subunit : Nat) (mem : Nat → Byte) : Card → Nat
  | .fxs _ => fxsNeeds (bus.dbg DBG_REGS) (bus.requestedReply unit subunit) mem
  | .fxo _ => fxoNeeds (bus.dbg DBG_REGS) (bus.requestedReply unit subunit) mem
  | .bri subs => briNeeds (bus.dbg DBG_REGS) subs (bus.requestedReply unit) (bus.readRoom unit) mem
  | .pri subs => priNeeds subs (bus.requestedReply unit) mem
  | .echo subs => echoNeeds subs (bus.requestedReply unit) mem

def registerNeeds (bus : Bus) (unit subunit : Nat) (xpd : Option Card) (mem : Nat → Byte) : Nat :=
  match xpd with
  | none => 4
  | some card => max (if bus.dbg DBG_REGS then dumpRegNeeds mem else 5) (cardNeeds bus unit subunit mem card)

/-- The length that a packet with the entry's opcode has to have. -/
def needs (bus : Bus) (unit subunit : Nat) (xpd : Option Card) (mem : Nat → Byte) : Entry → Nat
  | .nullReply => 4
  | .abDescription => 5
  | .syncReply => 6
  | .errorCode => if errorReported bus then 6 else 4
  | .registerReply => registerNeeds bus unit subunit xpd mem
  | .fxsSigChanged => 12
  | .fxoSigChanged => 12
  | .setReply => 5

end Needs

section Header
variable {mem : Nat → Byte} {n : Nat}

theorem run_len : run mem peekLen = packetLen mem := rfl

theorem inside_len (header : 4 ≤ n) : Inside mem n peekLen := by
  simp only [peekLen, inside_bind, inside_peek, inside_pure, and_true]
  omega

theorem inside_lines (i : Nat) : Inside mem n (peekLines i) ↔ i + 4 ≤ n := by
  simp only [peekLines, inside_bind, inside_peek, inside_pure, and_true]
  omega

theorem run_lines (i : Nat) : run mem (peekLines i) = linesAt mem i := rfl

theorem inside_dump (header : 4 ≤ n) (len : packetLen mem = n) (debug : Bool) :
    Inside mem n (dumpPacket debug) := by
  have whole : min (packetLen mem) sizeofXpacket = 0 ∨ 0 + min (packetLen mem) sizeofXpacket ≤ n := by
    omega
  simp only [dumpPacket, inside_bind, inside_ite, inside_peek, inside_pure, inside_peekMany,
    inside_len header, and_true, true_and]
  simp only [run_len, whole, and_true]
  grind

end Header

section Global
variable {mem : Nat → Byte} {n : Nat}

theorem inside_proto_err (header : 4 ≤ n) (len : packetLen mem = n) : Inside mem n protoErr := by
  simp only [protoErr, inside_bind, inside_dump header len, inside_pure, and_self]

/-- The units counted lie in the packet. -/
theorem units_fit {len : Nat} (small : len < 1024) (some_ : 0 < countUnits len) :
    8 + 8 * (countUnits len).toNat ≤ len := by
  unfold countUnits at some_ ⊢
  by_cases head : len < 8
  · interval_cases len <;> simp at some_
  · have whole : (BitVec.ofInt 64 ((len : Int) - 8)).toNat = len - 8 := by
      rw [BitVec.toNat_ofInt]
      omega
    rw [whole] at some_ ⊢
    have small_ : (BitVec.ofNat 32 ((len - 8) / 8)).toInt = ((len - 8) / 8 : Nat) := by
      rw [BitVec.toInt_eq_toNat_of_lt] <;> rw [BitVec.toNat_ofNat] <;> omega
    rw [small_]
    omega

theorem inside_describe (allocs left : Nat) {i : Nat} (fits : 8 + 8 * (i + left) ≤ n) :
    Inside mem n (describeUnits allocs i left) := by
  induction left generalizing i with
  | zero => trivial
  | succ left ih =>
    rw [describeUnits, inside_ite]
    split
    · rw [inside_bind, inside_bind]
      refine ⟨?_, ih (by omega), inside_pure _⟩
      simp only [unitDescriptor, inside_bind, inside_peek, inside_pure, and_true]
      omega
    · exact inside_pure _

theorem len_small (mem : Nat → Byte) : packetLen mem < 1024 := by
  have := (mem 0).isLt
  unfold packetLen
  omega

theorem inside_cards (bus : Bus) (rev : Byte) {units : Nat} (fits : 8 + 8 * units ≤ n) :
    Inside mem n (describeCards bus rev units) := by
  rw [describeCards, inside_bind]
  exact ⟨inside_describe bus.allocs units (by omega), inside_pure _⟩

theorem inside_description (bus : Bus) (header : 4 ≤ n) (len : packetLen mem = n) :
    Inside mem n (abDescription bus) ↔ 5 ≤ n := by
  have err := inside_proto_err header len
  rw [abDescription, inside_bind, inside_peek, inside_bind, run_peek, run_len, len]
  constructor
  · intro h
    exact h.1
  · intro long
    refine ⟨long, inside_len header, ?_⟩
    dsimp only
    rw [inside_ite, inside_ite, inside_ite]
    split
    · exact err
    · split
      · exact err
      · split
        · exact err
        · next many =>
          have fits := units_fit (len ▸ len_small mem) (by omega : 0 < countUnits n)
          rw [inside_bind, inside_peek]
          refine ⟨by omega, ?_⟩
          simp only [inside_ite, inside_pure, inside_cards bus _ fits, err, ite_self]

theorem inside_sync : Inside mem n syncReply ↔ 6 ≤ n := by
  simp only [syncReply, inside_bind, inside_peek, inside_pure, and_true]
  omega

theorem inside_error (bus : Bus) (xpd : Option Card) (header : 4 ≤ n) (len : packetLen mem = n) :
    Inside mem n (errorCode bus xpd) ↔ (if errorReported bus then 6 else 4) ≤ n := by
  have dump := inside_dump header len true
  have told : Inside mem n notifyBadXpd := by
    simp only [notifyBadXpd, inside_bind, inside_peek, inside_pure, and_true]
    omega
  rw [errorCode, inside_ite]
  split
  · simp only [inside_bind, inside_peek, inside_ite, inside_pure, dump, told, ite_self, and_true]
    omega
  · simp [header]

theorem inside_null (bus : Bus) (header : 4 ≤ n) : Inside mem n (nullReply bus) := by
  rw [nullReply, inside_ite, inside_bind]
  split
  · exact ⟨inside_len header, inside_pure _⟩
  · exact inside_pure _

end Global

section Registers
variable {mem : Nat → Byte} {n : Nat}

theorem inside_dump_reg : Inside mem n dumpRegCmd ↔ dumpRegNeeds mem ≤ n := by
  simp only [dumpRegCmd, inside_bind, inside_ite, inside_peek, inside_pure, inside_peekMany, and_true]
  simp only [run_peek, dumpRegNeeds]
  grind

theorem inside_data (debug : Bool) (long : 7 ≤ n) :
    Inside mem n (peekData debug) ↔ (if debug then 10 else 7) ≤ n := by
  simp only [peekData, inside_bind, inside_ite, inside_peek, inside_pure, and_true]
  grind

theorem inside_keep (asked : RegAsked) : Inside mem n (keepReply asked) ↔ keepNeeds asked mem ≤ n := by
  simp only [keepReply, inside_bind, inside_ite, inside_peek, inside_pure, inside_peekMany, and_true]
  simp only [run_peek, keepNeeds]
  grind

theorem keep_needs (asked : RegAsked) (mem : Nat → Byte) : 7 ≤ keepNeeds asked mem := by
  unfold keepNeeds
  split_ifs <;> omega

theorem inside_fxs_direct (portnum : Nat) (regnum : Byte) :
    Inside mem n (fxsDirect portnum regnum) ↔
      (regnum = REG_DTMF_DECODE ∨ regnum = REG_DIGITAL_IOCTRL ∨ regnum = REG_LOOPCLOSURE → 9 ≤ n) := by
  simp only [fxsDirect, inside_bind, inside_ite, inside_peek, inside_pure, and_true]
  split_ifs <;> simp_all <;> omega

theorem inside_fxs (debug : Bool) (asked : RegAsked) :
    Inside mem n (fxsCardRegisterReply debug asked) ↔ fxsNeeds debug asked mem ≤ n := by
  have kept := @inside_keep mem n asked
  have long := keep_needs asked mem
  simp only [fxsCardRegisterReply, inside_bind, inside_ite, inside_peek, inside_pure, and_true, kept,
    inside_fxs_direct]
  simp only [run_peek, fxsNeeds]
  by_cases seven : 7 ≤ n
  · rw [inside_data debug seven]
    grind
  · omega

theorem inside_fxo_direct (portno : Nat) (regnum : Byte) :
    Inside mem n (fxoDirect portno regnum) ↔
      (regnum = REG_INTERRUPT_SRC ∨ regnum = DAA_REG_VBAT ∨ regnum = DAA_REG_CURRENT → 9 ≤ n) := by
  simp only [fxoDirect, inside_bind, inside_ite, inside_peek, inside_pure, and_true]
  split_ifs <;> simp_all <;> omega

theorem inside_fxo (debug : Bool) (asked : RegAsked) :
    Inside mem n (fxoCardRegisterReply debug asked) ↔ fxoNeeds debug asked mem ≤ n := by
  have kept := @inside_keep mem n asked
  have long := keep_needs asked mem
  simp only [fxoCardRegisterReply, inside_bind, inside_peek, inside_pure, and_true, kept,
    inside_fxo_direct]
  simp only [run_peek, fxoNeeds]
  by_cases seven : 7 ≤ n
  · rw [inside_data debug seven]
    grind
  · omega

theorem inside_put (room : Option Int) (bytes : Nat) :
    Inside mem n (hdlcPutbuf room 5 bytes) ↔
      ∀ left, room = some left → (min left bytes).toNat = 0 ∨ 5 + (min left bytes).toNat ≤ n := by
  cases room with
  | none => simp [hdlcPutbuf]
  | some left =>
    simp only [hdlcPutbuf, inside_bind, inside_pure, inside_peekMany, and_true, Option.some.injEq, forall_eq']

theorem inside_check_stat {len : Nat} (some_ : 0 < len) : Inside mem n (briCheckStat len) ↔ 5 + len ≤ n := by
  simp only [briCheckStat, inside_bind, inside_ite, inside_peek, inside_pure, inside_peekMany, and_true]
  grind

theorem inside_dchan (sub : BriXpd) (room : Option Int) :
    Inside mem n (rxDchan sub room) ↔ dchanNeeds sub room mem ≤ n := by
  simp only [rxDchan, inside_bind, inside_ite, inside_peek, inside_pure, and_true, inside_put]
  simp only [run_peek, dchanBytes]
  by_cases none_ : regBytes (mem 4) = 0
  · simp only [dchanNeeds, none_, true_or, if_true, and_true]
    omega
  · rw [inside_check_stat (Nat.pos_of_ne_zero none_), dchanNeeds.eq_def]
    cases room with
    | none => grind
    | some left => grind

theorem inside_bri_debug (debug : Bool) :
    Inside mem n (briDebug debug) ↔ (if debug then 9 else if regDoSubreg (mem 5) then 6 else 7) ≤ n := by
  simp only [briDebug, inside_bind, inside_ite, inside_peek, inside_pure, inside_peekMany, and_true]
  simp only [run_peek]
  grind

theorem inside_bri_state : Inside mem n briState ↔ (if mem 6 = A_SU_RD_STA then 9 else 7) ≤ n := by
  simp only [briState, inside_bind, inside_ite, inside_peek, inside_pure, and_true]
  simp only [run_peek]
  grind

theorem inside_bri (debug : Bool) (subs : BriUnit) (asked : Nat → RegAsked) (room : Nat → Option Int) :
    Inside mem n (briCardRegisterReply debug subs asked room) ↔ briNeeds debug subs asked room mem ≤ n := by
  rw [briCardRegisterReply, inside_bind, inside_peek, run_peek, briNeeds.eq_def]
  cases here : subs (regPortnum (mem 4)) with
  | none =>
    simp only [inside_pure, and_true]
    omega
  | some sub =>
    simp only [inside_bind, inside_ite, inside_pure, and_true, inside_bri_debug, inside_dchan,
      inside_bri_state, inside_keep]
    cases regIsMultibyte (mem 4) with
    | false =>
      simp only [Bool.false_eq_true, if_false]
      grind
    | true =>
      simp only [if_true]
      grind

theorem inside_plain (x : PriXpd) (regnum : Byte) (long : 6 ≤ n) : Inside mem n (priPlain x regnum) := by
  simp only [priPlain, inside_bind, inside_ite, inside_peek, inside_pure, and_true]
  grind

theorem inside_pri (subs : Nat → Option PriXpd) (asked : Nat → RegAsked) :
    Inside mem n (priCardRegisterReply subs asked) ↔ priNeeds subs asked mem ≤ n := by
  rw [priCardRegisterReply, inside_bind, inside_bind, inside_bind, inside_peek, inside_peek, inside_peek,
    run_peek, run_peek, run_peek, priNeeds]
  cases here : subs (regPortnum (mem 4)) with
  | none =>
    simp only [inside_pure, and_true, Option.isNone_none, true_or, if_true]
    omega
  | some x =>
    simp only [inside_ite, inside_bind, inside_pure, and_true, inside_keep, Option.isNone_some,
      Bool.false_eq_true, false_or]
    by_cases nine : 9 ≤ n
    · simp only [@inside_plain mem n x (mem 6) (by omega), true_and]
      grind
    · constructor
      · intro h
        omega
      · intro h
        grind

theorem inside_echo (subs : Nat → Bool) (asked : Nat → RegAsked) :
    Inside mem n (echoCardRegisterReply subs asked) ↔ echoNeeds subs asked mem ≤ n := by
  have long := keep_needs (asked (regPortnum (mem 4))) mem
  simp only [echoCardRegisterReply, inside_bind, inside_ite, inside_peek, inside_pure, and_true, inside_keep]
  simp only [run_peek, echoNeeds]
  grind

theorem inside_card (bus : Bus) (unit subunit : Nat) (card : Card) :
    Inside mem n (cardRegisterReply bus unit subunit card) ↔ cardNeeds bus unit subunit mem card ≤ n := by
  cases card with
  | fxs subs => exact inside_fxs _ _
  | fxo subs => exact inside_fxo _ _
  | bri subs => exact inside_bri _ subs _ _
  | pri subs => exact inside_pri subs _
  | echo subs => exact inside_echo subs _

theorem card_needs (bus : Bus) (unit subunit : Nat) (mem : Nat → Byte) (card : Card) :
    5 ≤ cardNeeds bus unit subunit mem card := by
  cases card with
  | fxs subs => simp only [cardNeeds, fxsNeeds]; grind
  | fxo subs => simp only [cardNeeds, fxoNeeds]; grind
  | bri subs =>
    simp only [cardNeeds, briNeeds.eq_def]
    split <;> grind
  | pri subs => simp only [cardNeeds, priNeeds]; grind
  | echo subs =>
    simp only [cardNeeds, echoNeeds]
    have := keep_needs (bus.requestedReply unit (regPortnum (mem 4))) mem
    grind

theorem inside_register (bus : Bus) (unit subunit : Nat) (xpd : Option Card) (header : 4 ≤ n)
    (len : packetLen mem = n) :
    Inside mem n (registerReply bus unit subunit xpd) ↔ registerNeeds bus unit subunit xpd mem ≤ n := by
  cases xpd with
  | none =>
    simp only [registerReply, registerNeeds, notifyBadXpd, inside_bind, inside_peek, inside_pure, and_true]
    omega
  | some card =>
    have atLeast := card_needs bus unit subunit mem card
    simp only [registerReply, registerNeeds, registerDump, inside_bind, inside_ite, inside_pure,
      inside_dump_reg, inside_dump header len, inside_card, and_true]
    grind

end Registers

/-- A handler stays in its packet just when the packet has the length it needs. -/
theorem inside_handler (bus : Bus) (unit subunit : Nat) (xpd : Option Card) {mem : Nat → Byte} {n : Nat}
    (header : 4 ≤ n) (len : packetLen mem = n) (xe : Entry) :
    Inside mem n (handler bus unit subunit xpd xe) ↔ needs bus unit subunit xpd mem xe ≤ n := by
  cases xe with
  | nullReply => exact ⟨fun _ => header, fun _ => inside_null bus header⟩
  | abDescription => exact inside_description bus header len
  | syncReply => exact inside_sync
  | errorCode => exact inside_error bus xpd header len
  | registerReply => exact inside_register bus unit subunit xpd header len
  | fxsSigChanged =>
    simp only [handler, fxsSigChanged, needs, inside_bind, inside_lines, inside_pure, and_true]
    omega
  | fxoSigChanged =>
    simp only [handler, fxoSigChanged, needs, inside_bind, inside_lines, inside_pure, and_true]
    omega
  | setReply =>
    simp only [handler, setReply, needs, inside_bind, inside_peek, inside_pure, and_true]
    omega

/-- The datalen of the entries would cover their handlers, but for the pieces of a
    D-channel that are longer than a register command. -/
theorem datalen_covers (bus : Bus) (unit subunit : Nat) (xpd : Option Card) (mem : Nat → Byte) (xe : Entry)
    (short : regBytes (mem 4) ≤ 5) : needs bus unit subunit xpd mem xe ≤ xe.datalen := by
  cases xe with
  | registerReply =>
    cases xpd with
    | none => simp only [needs, registerNeeds, Entry.datalen]; omega
    | some card =>
      have dump : dumpRegNeeds mem ≤ 10 := by
        unfold dumpRegNeeds
        grind
      have kept (asked : RegAsked) : keepNeeds asked mem ≤ 10 := by
        unfold keepNeeds
        grind
      have piece (sub : BriXpd) (room : Option Int) : dchanNeeds sub room mem ≤ 10 := by
        unfold dchanNeeds
        grind
      simp only [needs, registerNeeds, Entry.datalen]
      have reply : cardNeeds bus unit subunit mem card ≤ 10 := by
        cases card with
        | fxs subs => simp only [cardNeeds, fxsNeeds]; grind
        | fxo subs => simp only [cardNeeds, fxoNeeds]; grind
        | bri subs =>
          simp only [cardNeeds, briNeeds.eq_def]
          split <;> grind
        | pri subs => simp only [cardNeeds, priNeeds]; grind
        | echo subs => simp only [cardNeeds, echoNeeds]; grind
      grind
  | errorCode => simp only [needs, Entry.datalen]; split <;> omega
  | _ => simp only [needs, Entry.datalen]; omega

end Xproto
