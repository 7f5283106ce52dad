import Dahdi.Xpp.PcmReads

/-!
A received frame taken apart into its packets, by xframe_receive_cmd for the commands
and by copy_pcm_tospan for PCM. The bus may be another one at every packet.
-/
namespace Xproto
open Xpp PeekTree LineMask LengthChain

section Frames

/-- The buffer of a frame, of which the first `len` bytes have been received. -/
structure RecvFrame where
  packets : Nat → Byte
  len : Nat

def RecvFrame.behind (frame : RecvFrame) (p : Nat) : Nat → Byte := fun i => frame.packets (p + i)

def RecvFrame.lenAt (frame : RecvFrame) (p : Nat) : Nat := packetLen (frame.behind p)

def xpdAt (bus : Bus) (frame : RecvFrame) (p : Nat) : Option Card :=
  xpdByaddr bus (unitOf (frame.behind p 3)) (subunitOf (frame.behind p 3))

/-- What the loops check of the length of a packet. -/
def badLength (frame : RecvFrame) (p : Nat) : Bool :=
  frame.len < p + frame.lenAt p || frame.lenAt p < RPACKET_HEADERSIZE

def examineCmd (bus : Nat → Bus) (frame : RecvFrame) (n p : Nat) : Except Int (Peek Byte Reply) :=
  if opcode (frame.behind p) = PCM_READ then .error (-EPROTO)
  else if badLength frame p then .error (-EPROTO)
  else packetProcess (bus n) (frame.behind p)

def xframeReceiveCmd (bus : Nat → Bus) (frame : RecvFrame) (fuel : Nat) :
    Option (Option Int × List (Cut (Peek Byte Reply))) :=
  walk frame.lenAt frame.len (examineCmd bus frame) fuel 0 0

/-- The xpds that a PCM packet has changed. -/
inductive Taken where
  | generic (xpd : Xpd)
  | bri (subs : BriUnit)
  | pri (x : PriXpd)
  | skipped

/-- card_pcm_tospan of the card, unless its span is not registered. -/
def cardPcmTospan (bus : Bus) (subunit : Nat) (card : Card) : Peek Byte Taken :=
  match card with
  | .fxs subs | .fxo subs =>
    match subs subunit with
    | none => pure .skipped
    | some xpd =>
      if xpd.registered then do
        let got ← genericPeek xpd
        pure (.generic got)
      else pure .skipped
  | .bri subs =>
    match subs subunit with
    | none => pure .skipped
    | some sub =>
      if sub.xpd.registered then do
        let got ← briPeek subs subunit sub.xpd
        pure (.bri got)
      else pure .skipped
  | .pri subs =>
    match subs subunit with
    | none => pure .skipped
    | some x =>
      if x.xpd.registered then do
        let got ← priPeek (bus.dbg DBG_PCM) x
        pure (.pri got)
      else pure .skipped
  | .echo _ => pure .skipped

def examinePcm (bus : Nat → Bus) (frame : RecvFrame) (n p : Nat) : Except Int (Peek Byte Taken) :=
  if opcode (frame.behind p) ≠ PCM_READ then .error (-EPROTO)
  else if badLength frame p then .error (-EPROTO)
  else
    match xpdAt (bus n) frame p with
    | none => .error (-EPROTO)
    | some card =>
      if !pcmValid (packetAt (frame.behind p) (frame.lenAt p)) then .error (-EPROTO)
      else .ok (cardPcmTospan (bus n) (subunitOf (frame.behind p 3)) card)

def copyPcmTospan (bus : Nat → Bus) (frame : RecvFrame) (fuel : Nat) :
    Option (Option Int × List (Cut (Peek Byte Taken))) :=
  walk frame.lenAt frame.len (examinePcm bus frame) fuel 0 0

/-- The parse comes to an end, its packets lie one behind the other from the beginning of
    the frame, and each one's handler reads inside of it. -/
structure ParsedSafely {α : Type} (frame : RecvFrame)
    (parse : Nat → Option (Option Int × List (Cut (Peek Byte α)))) : Prop where
  safe : ∃ walked, (∀ fuel, frame.len < fuel → parse fuel = some walked) ∧
    (∃ upto ≤ frame.len, Tiles 0 walked.2 upto) ∧
    (walked.2.Pairwise fun first later => first.start + first.len ≤ later.start) ∧
    ∀ cut ∈ walked.2, Inside (frame.behind cut.start) cut.len cut.content

end Frames

section Conditions

/-- The entry of a packet that is a command of proper length. -/
def cmdEntry (bus : Bus) (frame : RecvFrame) (p : Nat) : Option Entry :=
  if opcode (frame.behind p) = PCM_READ ∨ badLength frame p = true then none
  else (xprotoEntry bus (xpdAt bus frame p) (opcode (frame.behind p))).map Prod.snd

def CmdThrough (bus : Nat → Bus) (frame : RecvFrame) (n p : Nat) : Prop :=
  (cmdEntry (bus n) frame p).isSome = true

/-- Each command that the headers before it lead to is as long as its opcode, its card and
    its register ask for. -/
def CmdCovered (bus : Nat → Bus) (frame : RecvFrame) : Prop :=
  ∀ n p xe, Reached frame.lenAt frame.len (CmdThrough bus frame) n p → cmdEntry (bus n) frame p = some xe →
    needs (bus n) (unitOf (frame.behind p 3)) (subunitOf (frame.behind p 3)) (xpdAt (bus n) frame p)
      (frame.behind p) xe ≤ frame.lenAt p

def PcmThrough (bus : Nat → Bus) (frame : RecvFrame) (n p : Nat) : Prop :=
  opcode (frame.behind p) = PCM_READ ∧ badLength frame p = false ∧ (xpdAt (bus n) frame p).isSome = true ∧
    pcmValid (packetAt (frame.behind p) (frame.lenAt p)) = true

/-- Each packet of a registered PRI xpd has a chunk left where its D-channel is looked at. -/
def PcmCovered (bus : Nat → Bus) (frame : RecvFrame) : Prop :=
  ∀ n p subs x, Reached frame.lenAt frame.len (PcmThrough bus frame) n p → PcmThrough bus frame n p →
    xpdAt (bus n) frame p = some (.pri subs) → subs (subunitOf (frame.behind p 3)) = some x →
    x.xpd.registered = true → DchanInside x (linesAt (frame.behind p) 4)

end Conditions

section Parsing
variable {bus : Nat → Bus} {frame : RecvFrame}

theorem length_good {p : Nat} (good : badLength frame p = false) :
    4 ≤ frame.lenAt p ∧ p + frame.lenAt p ≤ frame.len := by
  unfold badLength RPACKET_HEADERSIZE at good
  rw [Bool.or_eq_false_iff, decide_eq_false_iff_not, decide_eq_false_iff_not] at good
  omega

/-- A walk over the packets is safe just when each packet reached has all that its handler reads. -/
theorem parsed_safely {α : Type} {examine : Nat → Nat → Except Int (Peek Byte α)} {through : Nat → Nat → Prop}
    (ok : Examined frame.lenAt frame.len examine through) :
    ParsedSafely frame (fun fuel => walk frame.lenAt frame.len examine fuel 0 0) ↔
      ∀ n p content, Reached frame.lenAt frame.len through n p → examine n p = .ok content →
        Inside (frame.behind p) (frame.lenAt p) content := by
  constructor
  · intro safely n p content reached seen
    obtain ⟨walked, ends, _, _, reads⟩ := safely.safe
    exact reads _ (walk_reaches ok reached seen ends)
  · intro inside
    obtain ⟨walked, ends⟩ := walk_ends ok 0 0
    have done := ends (frame.len + 1) (by omega)
    obtain ⟨upto, le, tiles⟩ := walk_tiles ok (Nat.zero_le _) done
    refine ⟨walked, fun fuel enough => ends fuel (by omega), ⟨upto, le, tiles⟩, tiles_apart tiles, ?_⟩
    intro cut mem
    obtain ⟨n, reached, seen, len⟩ := walk_mem ok done .first mem
    rw [len]
    exact inside n cut.start cut.content reached seen

/-- In a safe parse no handler depends on what follows its packet. -/
theorem safely_alone {α : Type} {parse : Nat → Option (Option Int × List (Cut (Peek Byte α)))}
    (safely : ParsedSafely frame parse) :
    ∃ walked, parse (frame.len + 1) = some walked ∧ ∀ cut ∈ walked.2,
      run (frame.behind cut.start) cut.content = run (alone (frame.behind cut.start) cut.len) cut.content := by
  obtain ⟨walked, ends, _, _, reads⟩ := safely.safe
  exact ⟨walked, ends _ (by omega), fun cut mem => reads_alone (reads cut mem)⟩

theorem process_entry (b : Bus) (p : Nat) :
    packetProcess b (frame.behind p) =
      match (xprotoEntry b (xpdAt b frame p) (opcode (frame.behind p))).map Prod.snd with
      | none => .error (-EPROTO)
      | some xe => .ok (handler b (unitOf (frame.behind p 3)) (subunitOf (frame.behind p 3))
          (xpdAt b frame p) xe) := by
  unfold packetProcess
  dsimp only
  rw [valid_addr, Bool.not_true, if_neg Bool.false_ne_true]
  unfold xpdAt
  cases found : xprotoEntry b (xpdByaddr b (unitOf (frame.behind p 3)) (subunitOf (frame.behind p 3)))
      (opcode (frame.behind p)) with
  | none => rfl
  | some pair =>
    obtain ⟨table, xe⟩ := pair
    dsimp only
    rw [entry_valid found, Bool.not_true, if_neg Bool.false_ne_true]
    rfl

theorem examine_cmd (n p : Nat) :
    examineCmd bus frame n p =
      match cmdEntry (bus n) frame p with
      | none => .error (-EPROTO)
      | some xe => .ok (handler (bus n) (unitOf (frame.behind p 3)) (subunitOf (frame.behind p 3))
          (xpdAt (bus n) frame p) xe) := by
  unfold examineCmd cmdEntry
  by_cases pcm : opcode (frame.behind p) = PCM_READ
  · rw [if_pos pcm, if_pos (Or.inl pcm)]
  · cases bad : badLength frame p with
    | true => rw [if_neg pcm, if_pos rfl, if_pos (Or.inr rfl)]
    | false =>
      rw [if_neg pcm, if_neg Bool.false_ne_true, if_neg (by simp [pcm])]
      exact process_entry (bus n) p

theorem cmd_length {b : Bus} {p : Nat} {xe : Entry} (known : cmdEntry b frame p = some xe) :
    badLength frame p = false := by
  unfold cmdEntry at known
  split at known
  · cases known
  next fine =>
    cases bad : badLength frame p with
    | false => rfl
    | true => exact absurd (Or.inr bad) fine

theorem examined_cmd :
    Examined frame.lenAt frame.len (examineCmd bus frame) (CmdThrough bus frame) := by
  constructor
  · intro n p
    rw [examine_cmd, CmdThrough]
    cases cmdEntry (bus n) frame p with
    | none => simp
    | some xe => simp
  · intro n p through
    obtain ⟨xe, known⟩ := Option.isSome_iff_exists.mp through
    have := length_good (cmd_length known)
    omega
  · intro n p through
    obtain ⟨xe, known⟩ := Option.isSome_iff_exists.mp through
    exact (length_good (cmd_length known)).2

theorem cmd_safely : ParsedSafely frame (xframeReceiveCmd bus frame) ↔ CmdCovered bus frame := by
  have inside {n p : Nat} {xe : Entry} (known : cmdEntry (bus n) frame p = some xe) :=
    inside_handler (bus n) (unitOf (frame.behind p 3)) (subunitOf (frame.behind p 3)) (xpdAt (bus n) frame p)
      (length_good (cmd_length known)).1 rfl xe
  apply (parsed_safely examined_cmd).trans
  constructor
  · intro reads n p xe reached known
    apply (inside known).mp
    apply reads n p _ reached
    rw [examine_cmd, known]
  · intro covered n p content reached seen
    rw [examine_cmd] at seen
    cases known : cmdEntry (bus n) frame p with
    | none =>
      rw [known] at seen
      cases seen
    | some xe =>
      rw [known] at seen
      cases seen
      exact (inside known).mpr (covered n p xe reached known)

theorem examine_pcm {n p : Nat} (through : PcmThrough bus frame n p) {card : Card}
    (here : xpdAt (bus n) frame p = some card) :
    examinePcm bus frame n p = .ok (cardPcmTospan (bus n) (subunitOf (frame.behind p 3)) card) := by
  obtain ⟨op, good, _, valid⟩ := through
  unfold examinePcm
  rw [if_neg (by simp [op]), good, if_neg Bool.false_ne_true, here]
  dsimp only
  rw [valid, Bool.not_true, if_neg Bool.false_ne_true]

theorem pcm_through {n p : Nat} {content : Peek Byte Taken} (seen : examinePcm bus frame n p = .ok content) :
    PcmThrough bus frame n p := by
  unfold examinePcm at seen
  split at seen
  · cases seen
  next op =>
    split at seen
    · cases seen
    next good =>
      cases here : xpdAt (bus n) frame p with
      | none =>
        rw [here] at seen
        cases seen
      | some card =>
        rw [here] at seen
        dsimp only at seen
        split at seen
        · cases seen
        next valid =>
          refine ⟨not_not.mp op, Bool.eq_false_iff.mpr good, ?_, by simpa using valid⟩
          rw [here]
          rfl

theorem examined_pcm :
    Examined frame.lenAt frame.len (examinePcm bus frame) (PcmThrough bus frame) := by
  constructor
  · intro n p
    constructor
    · intro through
      obtain ⟨card, here⟩ := Option.isSome_iff_exists.mp through.2.2.1
      exact ⟨_, examine_pcm through here⟩
    · intro seen
      obtain ⟨content, seen⟩ := seen
      exact pcm_through seen
  · intro n p through
    have := length_good through.2.1
    omega
  · intro n p through
    exact (length_good through.2.1).2

theorem inside_card_pcm {mem : Nat → Byte} {len : Nat} (whole : packetLen mem = len)
    (valid : pcmValid (packetAt mem len) = true) (b : Bus) (subunit : Nat) (card : Card) :
    Inside mem len (cardPcmTospan b subunit card) ↔
      ∀ subs x, card = .pri subs → subs subunit = some x → x.xpd.registered = true →
        DchanInside x (linesAt mem 4) := by
  have long := valid_len valid
  have generic (xpd : Xpd) : Inside mem len (if xpd.registered = true then do
      let got ← genericPeek xpd
      pure (Taken.generic got)
    else pure Taken.skipped : Peek Byte Taken) := by
    rw [inside_ite, inside_bind]
    split
    · exact ⟨inside_generic xpd long, inside_pure _⟩
    · exact inside_pure _
  unfold cardPcmTospan
  cases card with
  | fxs subs =>
    refine ⟨fun _ _ _ other => (by cases other), fun _ => ?_⟩
    dsimp only
    cases subs subunit with
    | none => exact inside_pure _
    | some xpd => exact generic xpd
  | fxo subs =>
    refine ⟨fun _ _ _ other => (by cases other), fun _ => ?_⟩
    dsimp only
    cases subs subunit with
    | none => exact inside_pure _
    | some xpd => exact generic xpd
  | bri subs =>
    refine ⟨fun _ _ _ other => (by cases other), fun _ => ?_⟩
    dsimp only
    cases subs subunit with
    | none => exact inside_pure _
    | some sub =>
      dsimp only
      rw [inside_ite, inside_bind]
      split
      · exact ⟨inside_bri_pcm subs subunit sub.xpd long, inside_pure _⟩
      · exact inside_pure _
  | echo subs => exact ⟨fun _ _ _ other => (by cases other), fun _ => inside_pure _⟩
  | pri subs =>
    dsimp only
    cases here : subs subunit with
    | none =>
      refine ⟨fun _ subs' x same found => ?_, fun _ => inside_pure _⟩
      cases same
      rw [here] at found
      cases found
    | some x =>
      dsimp only
      have card := inside_pri_pcm whole long (b.dbg DBG_PCM) x
      rw [inside_ite, inside_bind]
      split
      next registered =>
        constructor
        · intro inside subs' x' same found _
          cases same
          rw [here] at found
          cases found
          exact card.mp inside.1 registered
        · intro covered
          exact ⟨card.mpr fun _ => covered subs x rfl here registered, inside_pure _⟩
      next off =>
        refine ⟨fun _ subs' x' same found registered => ?_, fun _ => inside_pure _⟩
        cases same
        rw [here] at found
        cases found
        exact absurd registered off

theorem pcm_safely : ParsedSafely frame (copyPcmTospan bus frame) ↔ PcmCovered bus frame := by
  apply (parsed_safely examined_pcm).trans
  constructor
  · intro reads n p subs x reached through here
    have inside := reads n p _ reached (examine_pcm through here)
    exact (inside_card_pcm rfl through.2.2.2 _ _ _).mp inside subs x rfl
  · intro covered n p content reached seen
    have through := pcm_through seen
    obtain ⟨card, here⟩ := Option.isSome_iff_exists.mp through.2.2.1
    rw [examine_pcm through here] at seen
    cases seen
    apply (inside_card_pcm rfl through.2.2.2 _ _ _).mpr
    intro subs x same
    exact covered n p subs x reached through (here.trans (congrArg some same))

/-- Both parses are safe just when the packets are long enough for their handlers. -/
theorem frames_parsed (bus : Nat → Bus) (frame : RecvFrame) :
    (ParsedSafely frame (xframeReceiveCmd bus frame) ↔ CmdCovered bus frame) ∧
      (ParsedSafely frame (copyPcmTospan bus frame) ↔ PcmCovered bus frame) :=
  ⟨cmd_safely, pcm_safely⟩

end Parsing

section Overread

/-- A bus without cards. -/
def bareBus : Bus where
  cards := fun _ => none
  requestedReply := fun _ _ => ⟨0, false, 0⟩
  readRoom := fun _ _ => none
  tables := fun _ => false
  debug := 0
  errorCodes := 0
  xbusState := .ready
  unique := true
  wq := true
  allocs := 0

/-- A SYNC_REPLY that is its header alone. -/
def bareReply : RecvFrame := ⟨fun i => if i = 0 then 4 else if i = 2 then 0x1A else 0, 4⟩

theorem sync_reply_overread :
    ¬ (ParsedSafely bareReply (xframeReceiveCmd (fun _ => bareBus) bareReply) ∧
      ParsedSafely bareReply (copyPcmTospan (fun _ => bareBus) bareReply)) := by
  intro safely
  have covered := cmd_safely.mp safely.1
  have short := covered 0 0 .syncReply .first (by decide)
  exact absurd short (by decide)

end Overread
end Xproto
