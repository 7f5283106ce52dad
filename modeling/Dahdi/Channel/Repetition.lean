import Dahdi.Library.Repeater
import Dahdi.Channel.HardExtract
import Dahdi.Channel.QueueRing
import Dahdi.Channel.DataLink

/-!
MTP2 on the sending side: with DAHDI_FLAG_MTP2 the transmitter repeats the last
message of its ring until there is a newer one.
-/
namespace Repetition
open Channel CyclicCursor RingInvariant RingContents GuardedRun HdlcOctets HdlcSender Fasthdlc
  FasthdlcLink FasthdlcTables QueueRing Repeater
variable {T : Type}

/-- A separator is a flag on the line. -/
def symOf : Option Octet → Sym
  | none => .flag
  | some y => .octet y

/-- An MTP2 channel that sends at once and does nothing else. -/
structure SigOk (env : Env T) (c : Chan T) : Prop where
  ring : QueueOk c.numbufs c.write
  plain : Plain env c
  mtp2 : c.flags.mtp2 = true
  immediate : startsWhenFull c = false
  running : c.txdisable = false
  busyTone : env.toneBusy c.tones = false

/-- The messages of the ring and what has been loaded of the first. -/
def spoolOf (c : Chan T) : Spool Octet := ⟨contents c.write, progress c.write⟩

section octet

/-- An octet sent while the register holds some bits: those of a symbol are added
    when it needs data. -/
theorem send_spec {h : State} {pending : List Bool} (held : Holds h pending) (below : h.ones < 5)
    (few : pending.length ≤ 23) (s : Sym) :
    ∃ pending', Holds (sendOctet h s).2 pending' ∧ pending'.length ≤ 21 ∧
      (fasthdlcTxNeedData h = true → pending'.length ≤ 15) ∧
      lineBits h.mode (sendOctet h s).1 ++ pending' =
        pending ++ wire h.ones (if fasthdlcTxNeedData h then [s] else []) ∧
      (sendOctet h s).2.ones = wireOnes h.ones (if fasthdlcTxNeedData h then [s] else []) ∧
      (sendOctet h s).2.mode = h.mode := by
  obtain ⟨two, eight⟩ := minbits_bounds h.mode
  have needs := need_data_iff held
  by_cases need : fasthdlcTxNeedData h = true
  · have short := needs.mp need
    obtain ⟨loaded, ones⟩ := load_sym_holds held below (by omega) s
    obtain ⟨low, high⟩ := sym_bits_length below s
    have mode := load_sym_mode h s
    have sent : sendOctet h s = fasthdlcTxRunNocheck (loadSym h s) := by
      unfold sendOctet
      rw [if_pos need]
    rw [sent, if_pos need]
    have enough : minbitsOf (loadSym h s).mode ≤ (pending ++ symBits h.ones s).length := by
      rw [mode, List.length_append]
      omega
    obtain ⟨bits, kept⟩ := tx_run loaded enough
    rw [mode] at bits kept
    have state := tx_run_state (loadSym h s)
    refine ⟨_, kept, ?_, ?_, ?_, ?_, ?_⟩
    · rw [List.length_drop, List.length_append]
      omega
    · intro _
      rw [List.length_drop, List.length_append]
      omega
    · rw [bits, List.take_append_drop]
      simp only [wire, List.append_nil]
    · rw [state]
      exact ones
    · rw [state]
      exact mode
  · have enough : minbitsOf h.mode ≤ pending.length := by
      by_contra short
      exact need (needs.mpr (by omega))
    have sent : sendOctet h s = fasthdlcTxRunNocheck h := by
      unfold sendOctet
      rw [if_neg need]
    rw [sent, if_neg need]
    obtain ⟨bits, kept⟩ := tx_run held enough
    have state := tx_run_state h
    refine ⟨_, kept, ?_, ?_, ?_, ?_, ?_⟩
    · rw [List.length_drop]
      omega
    · exact fun loaded => absurd loaded need
    · rw [bits, List.take_append_drop]
      simp only [wire, List.append_nil]
    · rw [state]
      rfl
    · rw [state]

variable {env : Env T} {c : Chan T}

/-- What the octets sent from a channel have done: the spool has been taken from
    some times, and the bits held and sent are those of the items taken. -/
structure Sent (env : Env T) (c c' : Chan T) (out : List Octet) (pending pending' : List Bool)
    (n : Nat) : Prop where
  ok : SigOk env c'
  spool : spoolOf c' = (Spool.takes n (spoolOf c)).2
  held : Holds c'.txhdlc pending'
  few : pending'.length ≤ 23
  mode : c'.txhdlc.mode = c.txhdlc.mode
  ones : c'.txhdlc.ones =
    wireOnes c.txhdlc.ones ((Spool.takes n (spoolOf c)).1.map symOf)
  bits : out.flatMap (lineBits c.txhdlc.mode) ++ pending' =
    pending ++ wire c.txhdlc.ones ((Spool.takes n (spoolOf c)).1.map symOf)

theorem quiet_ok (ok : SigOk env c) (h : State) : SigOk env (setTxhdlc c h) :=
  ⟨ok.ring, ⟨ok.plain.hdlc, ok.plain.looped, ok.plain.quiet⟩, ok.mtp2, ok.immediate, ok.running,
    ok.busyTone⟩

theorem moved_ok (ok : SigOk env c) (h : State) {w : Ring} (ring : QueueOk c.numbufs w) :
    SigOk env { setTxhdlc c h with write := w } :=
  ⟨ring, ⟨ok.plain.hdlc, ok.plain.looped, ok.plain.quiet⟩, ok.mtp2, ok.immediate, ok.running,
    ok.busyTone⟩

theorem flat_one (mode : Mode) (o : Octet) : [o].flatMap (lineBits mode) = lineBits mode o := by
  simp

theorem takes_one (s : Spool Octet) : Spool.takes 1 s = s.take := by
  simp [Spool.takes]

/-- The end of a message under MTP2. -/
theorem status_mtp2 {m : Chan T} (mtp2 : m.flags.mtp2 = true) (hdlc : m.flags.hdlc = true)
    (immediate : startsWhenFull m = false)
    (done : ¬m.write.idx m.write.outbuf.toNat < m.write.n m.write.outbuf.toNat) :
    getbufStatus m = { setTxhdlc m (fasthdlcTxFrameNocheck m.txhdlc) with
      write := turnRing m.numbufs m.write } := by
  simp only [getbufStatus, done, mtp2, hdlc, immediate, setTxhdlc, turnRing, Bool.and_false, if_false,
    if_true, Bool.not_true, Bool.false_eq_true, decide_eq_true_eq]

/-- The ring with a position of its first message. -/
def ringAt (c : Chan T) (idx : Int) : Ring :=
  { c.write with idx := Channel.set c.write.idx c.write.outbuf.toNat idx }

theorem status_more (h : State) {idx : Int} (more : idx < c.write.n c.write.outbuf.toNat) :
    getbufStatus (sentTo c h idx) = { setTxhdlc c h with write := ringAt c idx } := by
  have going : (sentTo c h idx).write.idx (sentTo c h idx).write.outbuf.toNat <
      (sentTo c h idx).write.n (sentTo c h idx).write.outbuf.toNat := by
    change Channel.set c.write.idx c.write.outbuf.toNat idx c.write.outbuf.toNat <
      c.write.n c.write.outbuf.toNat
    rw [set_same]
    exact more
  exact status_unfinished going

theorem status_last (ok : SigOk env c) (h : State) {idx : Int}
    (last : ¬idx < c.write.n c.write.outbuf.toNat) :
    getbufStatus (sentTo c h idx) = { setTxhdlc c (fasthdlcTxFrameNocheck h) with
      write := turnRing c.numbufs c.write } := by
  have done : ¬(sentTo c h idx).write.idx (sentTo c h idx).write.outbuf.toNat <
      (sentTo c h idx).write.n (sentTo c h idx).write.outbuf.toNat := by
    change ¬Channel.set c.write.idx c.write.outbuf.toNat idx c.write.outbuf.toNat <
      c.write.n c.write.outbuf.toNat
    rw [set_same]
    exact last
  rw [@status_mtp2 _ (sentTo c h idx) ok.mtp2 ok.plain.hdlc ok.immediate done]
  simp only [sentTo, setWriteIdx, setTxhdlc, turnRing, set_twice]

section message
variable {pending pending' : List Bool} {o y : Octet} {h : State} {f : List Octet}
  {rest : List (List Octet)}

/-- A byte that is not the last of its message. -/
theorem sent_byte (ok : SigOk env c) (sending : -1 < c.write.outbuf)
    (queue : contents c.write = f :: rest) (here : f[progress c.write]? = some y)
    (pos : progress c.write = (c.write.idx c.write.outbuf.toNat).toNat)
    (low : 0 ≤ c.write.idx c.write.outbuf.toNat)
    (more : c.write.idx c.write.outbuf.toNat + 1 < c.write.n c.write.outbuf.toNat)
    (size : f.length = (c.write.n c.write.outbuf.toNat).toNat) (kept : Holds h pending')
    (short : pending'.length ≤ 21) (mode : h.mode = c.txhdlc.mode)
    (ones : h.ones = wireOnes c.txhdlc.ones [.octet y])
    (bits : lineBits c.txhdlc.mode o ++ pending' = pending ++ wire c.txhdlc.ones [.octet y]) :
    Sent env c (getbufStatus (sentTo c h (c.write.idx c.write.outbuf.toNat + 1))) [o] pending
      pending' 1 := by
  obtain ⟨ring, contents', progress'⟩ :=
    queue_at ok.ring sending (by omega : 0 ≤ c.write.idx c.write.outbuf.toNat + 1) more
  have taken := @take_byte _ (spoolOf c) _ _ _ queue here (by simp only [spoolOf]; omega)
  have next : (c.write.idx c.write.outbuf.toNat + 1).toNat = progress c.write + 1 := by omega
  rw [status_more h more]
  refine ⟨moved_ok ok h ring, ?_, kept, by omega, mode, ?_, ?_⟩
  · rw [takes_one, taken]
    simp only [spoolOf, ringAt, contents', progress', next]
  · rw [takes_one, taken]
    exact ones
  · rw [takes_one, taken, flat_one]
    exact bits

/-- The last byte of a message and the flag behind it. -/
theorem sent_last (ok : SigOk env c) (sending : -1 < c.write.outbuf)
    (queue : contents c.write = f :: rest) (here : f[progress c.write]? = some y)
    (pos : progress c.write = (c.write.idx c.write.outbuf.toNat).toNat)
    (low : 0 ≤ c.write.idx c.write.outbuf.toNat)
    (last : ¬c.write.idx c.write.outbuf.toNat + 1 < c.write.n c.write.outbuf.toNat)
    (size : f.length = (c.write.n c.write.outbuf.toNat).toNat) (kept : Holds h pending')
    (short : pending'.length ≤ 15) (mode : h.mode = c.txhdlc.mode)
    (bits : lineBits c.txhdlc.mode o ++ pending' = pending ++ wire c.txhdlc.ones [.octet y]) :
    Sent env c (getbufStatus (sentTo c h (c.write.idx c.write.outbuf.toNat + 1))) [o] pending
      (pending' ++ flagBits) 1 := by
  obtain ⟨ring, contents', progress'⟩ := queue_turn ok.ring sending queue
  have taken := @take_last _ (spoolOf c) _ _ _ queue here (by simp only [spoolOf]; omega)
  have flagged := tx_frame kept (by omega)
  have flag : flagBits.length = 8 := rfl
  have ending : wire c.txhdlc.ones [.octet y, .flag] = wire c.txhdlc.ones [.octet y] ++ flagBits := by
    simp [wire, symBits]
  rw [status_last ok h last]
  refine ⟨moved_ok ok _ ring, ?_, flagged, ?_, mode, ?_, ?_⟩
  · rw [takes_one, taken]
    simp only [spoolOf, contents', progress']
  · rw [List.length_append]
    omega
  · rw [takes_one, taken]
    rfl
  · rw [takes_one, taken, flat_one]
    change lineBits c.txhdlc.mode o ++ (pending' ++ flagBits) =
      pending ++ wire c.txhdlc.ones [.octet y, .flag]
    rw [ending, ← List.append_assoc, ← List.append_assoc, bits]

end message

/-- One octet of the transmitter while there is a message. -/
theorem sending_octet (ok : SigOk env c) (sending : -1 < c.write.outbuf) {pending : List Bool}
    (held : Holds c.txhdlc pending) (below : c.txhdlc.ones < 5) (few : pending.length ≤ 23) :
    ∃ n pending', Sent env c (txOctet c).2 [(txOctet c).1] pending pending' n := by
  have both : -1 < c.write.outbuf ∧ c.txdisable = false := ⟨sending, ok.running⟩
  obtain ⟨buf, rest, present, _, _, queue, pos, low, inside⟩ := queue_first ok.ring sending
  have size : (frameAt c.write c.write.outbuf.toNat).length =
      (c.write.n c.write.outbuf.toNat).toNat := bytes_length _ _ _
  have here : (frameAt c.write c.write.outbuf.toNat)[progress c.write]? =
      some (buf (c.write.idx c.write.outbuf.toNat).toNat) := by
    rw [frameAt, bytes_get, if_pos (by omega), pos, present, Nat.zero_add]
    rfl
  obtain ⟨pending', kept, short, shorter, bits, ones, mode⟩ := send_spec held below few
    (.octet (buf (c.write.idx c.write.outbuf.toNat).toNat))
  rw [tx_octet_busy both present]
  simp only
  by_cases need : fasthdlcTxNeedData c.txhdlc = true
  · rw [if_pos need] at bits ones ⊢
    by_cases more : c.write.idx c.write.outbuf.toNat + 1 < c.write.n c.write.outbuf.toNat
    · exact ⟨1, pending', sent_byte ok sending queue here pos low more size kept short mode ones bits⟩
    · exact ⟨1, pending' ++ flagBits,
        sent_last ok sending queue here pos low more size kept (shorter need) mode bits⟩
  · rw [if_neg need] at bits ones ⊢
    have same : ringAt c (c.write.idx c.write.outbuf.toNat) = c.write := by
      unfold ringAt
      rw [set_self]
    rw [status_more _ inside, same]
    refine ⟨0, pending', moved_ok ok _ ok.ring, rfl, kept, by omega, mode, ones, ?_⟩
    rw [flat_one]
    exact bits

/-- One octet of the transmitter before the first message. -/
theorem idle_octet (ok : SigOk env c) (idle : ¬-1 < c.write.outbuf) {pending : List Bool}
    (held : Holds c.txhdlc pending) (below : c.txhdlc.ones < 5) (few : pending.length ≤ 23) :
    ∃ n pending', Sent env c (txOctet c).2 [(txOctet c).1] pending pending' n := by
  have flag : txOctet c = ((sendOctet c.txhdlc .flag).1, setTxhdlc c (sendOctet c.txhdlc .flag).2) := by
    rw [txOctet, if_neg (fun both => idle both.1)]
  obtain ⟨nothing, start⟩ := queue_none ok.ring idle
  have taken : (spoolOf c).take = ([none], spoolOf c) := by
    rw [spoolOf, nothing, start]
    rfl
  obtain ⟨pending', kept, short, _, bits, ones, mode⟩ := send_spec held below few .flag
  rw [flag]
  by_cases need : fasthdlcTxNeedData c.txhdlc = true
  · rw [if_pos need] at bits ones
    refine ⟨1, pending', quiet_ok ok _, ?_, kept, by omega, mode, ?_, ?_⟩
    · rw [takes_one, taken]
      rfl
    · rw [takes_one, taken]
      exact ones
    · rw [takes_one, taken, flat_one]
      exact bits
  · rw [if_neg need] at bits ones
    refine ⟨0, pending', quiet_ok ok _, rfl, kept, by omega, mode, ones, ?_⟩
    rw [flat_one]
    exact bits

theorem octet_sent (ok : SigOk env c) {pending : List Bool} (held : Holds c.txhdlc pending)
    (below : c.txhdlc.ones < 5) (few : pending.length ≤ 23) :
    ∃ n pending', Sent env c (txOctet c).2 [(txOctet c).1] pending pending' n := by
  by_cases sending : -1 < c.write.outbuf
  · exact sending_octet ok sending held below few
  · exact idle_octet ok sending held below few

theorem sent_trans {c' c'' : Chan T} {out out' : List Octet} {p p' p'' : List Bool} {j k : Nat}
    (first : Sent env c c' out p p' j) (second : Sent env c' c'' out' p' p'' k) :
    Sent env c c'' (out ++ out') p p'' (j + k) := by
  have items : (Spool.takes (j + k) (spoolOf c)).1 =
      (Spool.takes j (spoolOf c)).1 ++ (Spool.takes k (spoolOf c')).1 := by
    rw [takes_add, first.spool]
  refine ⟨second.ok, ?_, second.held, second.few, second.mode.trans first.mode, ?_, ?_⟩
  · rw [second.spool, first.spool, takes_add]
  · rw [second.ones, first.ones, items, List.map_append, wire_ones_append]
  · have bits := second.bits
    rw [first.mode] at bits
    rw [List.flatMap_append, List.append_assoc, bits, ← List.append_assoc, first.bits, items,
      List.map_append, wire_append, first.ones, List.append_assoc]

theorem octets_sent (k : Nat) (ok : SigOk env c) {pending : List Bool} (held : Holds c.txhdlc pending)
    (below : c.txhdlc.ones < 5) (few : pending.length ≤ 23) :
    ∃ n pending', Sent env c (txOctets k c).2 (txOctets k c).1 pending pending' n := by
  induction k generalizing c pending with
  | zero =>
    refine ⟨0, pending, ok, rfl, held, few, rfl, rfl, ?_⟩
    simp [txOctets, Spool.takes, wire]
  | succ k ih =>
    obtain ⟨j, middle, first⟩ := octet_sent ok held below few
    have below' : (txOctet c).2.txhdlc.ones < 5 := by
      rw [first.ones]
      exact wire_ones_below below _
    obtain ⟨n, pending', rest⟩ := ih first.ok first.held below' first.few
    exact ⟨j + n, pending', sent_trans first rest⟩

end octet

/-- What a channel has taken from its writers and given to the line. -/
inductive Entry where
  | wrote (m : List Octet)
  | chunk (octets : List Octet)

structure Line (T : Type) where
  c : Chan T
  log : List Entry

def writtenOf (log : List Entry) : List (List Octet) :=
  log.filterMap fun e => match e with
    | .wrote m => some m
    | .chunk _ => none

def bitsOf (mode : Mode) (log : List Entry) : List Bool :=
  log.flatMap fun e => match e with
    | .wrote _ => []
    | .chunk octets => octets.flatMap (lineBits mode)

inductive Event where
  | write (usr : List Octet)
  | chunk (fuel : Nat)

/-- dahdi_chan_write, with the message it has accepted. -/
def writeStep (env : Env T) (l : Line T) (usr : List Octet) : Option (Line T) :=
  if usr.length % 2 ^ 16 = 0 then some l
  else
    let (res, c) := chanWriteStart env l.c
    if res < 0 then some { l with c := c }
    else (chanWriteCommit env c res usr).map fun c' =>
      { c := c'
        log := if 0 < writeAmnt c usr then l.log ++ [.wrote (HardExtract.committed env c usr)]
          else l.log }

def chunkStep (env : Env T) (l : Line T) (fuel : Nat) : Option (Line T) :=
  (getbufChunk env fuel l.c).map fun done => ⟨done.2, l.log ++ [.chunk done.1]⟩

def sigStep (env : Env T) (l : Line T) : Event → Option (Line T)
  | .write usr => writeStep env l usr
  | .chunk fuel => chunkStep env l fuel

/-- A channel set up for MTP2 that sends at once and has neither a loop nor a
    tone, before its buffers are allocated. -/
structure SigUnused (env : Env T) (mode : Mode) (c : Chan T) : Prop where
  hdlc : c.flags.hdlc = true
  mtp2 : c.flags.mtp2 = true
  looped : c.flags.looped = false
  immediate : c.txbufpolicy = .immediate
  quiet : env.curtone c.tones = false
  busyTone : env.toneBusy c.tones = false
  txhdlc : c.txhdlc = fasthdlcInit mode

def sigSystem (env : Env T) (mode : Mode) : System (Line T) Event where
  start l := l.log = [] ∧ ∃ c₀ blocksize numbufs, SigUnused env mode c₀ ∧ 0 < blocksize ∧
    l.c = (reallocbufs c₀ blocksize numbufs true true).2
  step l event l' := sigStep env l event = some l'

/-- The spool gets the messages in the order of the log and is taken from during
    the chunks. -/
inductive Plays : List Entry → List (Option Octet) → Spool Octet → Prop where
  | start : Plays [] [] ⟨[], 0⟩
  | wrote {log : List Entry} {items : List (Option Octet)} {s : Spool Octet} (m : List Octet) :
      Plays log items s → Plays (log ++ [.wrote m]) items (s.put m)
  | chunk {log : List Entry} {items : List (Option Octet)} {s : Spool Octet} (octets : List Octet)
      (n : Nat) : Plays log items s →
      Plays (log ++ [.chunk octets]) (items ++ (s.takes n).1) (s.takes n).2

/-- Chunks one after the other. -/
inductive Chunks (env : Env T) : Line T → Line T → Prop where
  | none (l : Line T) : Chunks env l l
  | more {l m l' : Line T} {fuel : Nat} : chunkStep env l fuel = some m → Chunks env m l' →
      Chunks env l l'

/-- Every message written is on the line as a whole. -/
def AllOnLine (mode : Mode) (log : List Entry) : Prop :=
  ∃ flags rounds, Stutter (writtenOf log) rounds ∧
    wire 0 ((List.replicate flags none ++ rounds.flatMap frame : List (Option Octet)).map symOf) <+:
      bitsOf mode log

/-- The line carries the items of the spool, but for a few bits not sent yet:
    flags before the first message, whole messages in their order, each once or
    several times in a row, and the beginning of the current one. And further
    chunks put all that has been written on the line. -/
structure Repeats (env : Env T) (mode : Mode) (l : Line T) : Prop where
  played : ∃ items s pending, Plays l.log items s ∧ Account (writtenOf l.log) items s ∧
    bitsOf mode l.log ++ pending = wire 0 (items.map symOf) ∧ pending.length ≤ 23
  whole : writtenOf l.log ≠ [] → ∃ l', Chunks env l l' ∧ AllOnLine mode l'.log ∧
    writtenOf l'.log = writtenOf l.log

/-- A message is not empty. -/
def SomeMessage (l : Line T) : Event → Prop
  | .write usr => 0 < writeAmnt l.c usr → writeData l.c usr ≠ []
  | .chunk _ => True

/-- The channel follows the spool of its log. -/
structure Follows (env : Env T) (mode : Mode) (l : Line T) (items : List (Option Octet))
    (pending : List Bool) : Prop where
  ok : SigOk env l.c
  plays : Plays l.log items (spoolOf l.c)
  account : Account (writtenOf l.log) items (spoolOf l.c)
  someBytes : ∀ m ∈ writtenOf l.log, m ≠ []
  held : Holds l.c.txhdlc pending
  few : pending.length ≤ 23
  lineMode : l.c.txhdlc.mode = mode
  ones : l.c.txhdlc.ones = wireOnes 0 (items.map symOf)
  bits : bitsOf mode l.log ++ pending = wire 0 (items.map symOf)

section runs
variable {env : Env T} {mode : Mode} {l l' : Line T} {items : List (Option Octet)} {pending : List Bool}

@[simp] theorem written_wrote (log : List Entry) (m : List Octet) :
    writtenOf (log ++ [.wrote m]) = writtenOf log ++ [m] := by
  simp [writtenOf]

@[simp] theorem written_chunk (log : List Entry) (octets : List Octet) :
    writtenOf (log ++ [.chunk octets]) = writtenOf log := by
  simp [writtenOf]

@[simp] theorem bits_wrote (mode : Mode) (log : List Entry) (m : List Octet) :
    bitsOf mode (log ++ [.wrote m]) = bitsOf mode log := by
  simp [bitsOf]

@[simp] theorem bits_chunk (mode : Mode) (log : List Entry) (octets : List Octet) :
    bitsOf mode (log ++ [.chunk octets]) = bitsOf mode log ++ octets.flatMap (lineBits mode) := by
  simp [bitsOf]

theorem sig_ready (c : Chan T) (ok : SigOk env c) : Plain env c ∧ Busy c := by
  refine ⟨ok.plain, fun sending _ => ?_⟩
  obtain ⟨buf, _, present, _, _, _, _, low, inside⟩ := queue_first ok.ring sending
  exact ⟨⟨buf, present⟩, low, inside⟩

theorem tx_octet_ok (c : Chan T) (ok : SigOk env c ∧ c.txhdlc.ones < 5 ∧
    ∃ pending : List Bool, Holds c.txhdlc pending ∧ pending.length ≤ 23) :
    SigOk env (txOctet c).2 ∧ (txOctet c).2.txhdlc.ones < 5 ∧
      ∃ pending : List Bool, Holds (txOctet c).2.txhdlc pending ∧ pending.length ≤ 23 := by
  obtain ⟨okay, below, pending, held, few⟩ := ok
  obtain ⟨n, pending', sent⟩ := octet_sent okay held below few
  have below' : (txOctet c).2.txhdlc.ones < 5 := by
    rw [sent.ones]
    exact wire_ones_below below _
  exact ⟨sent.ok, below', pending', sent.held, sent.few⟩

theorem ones_below (follows : Follows env mode l items pending) : l.c.txhdlc.ones < 5 := by
  rw [follows.ones]
  exact wire_ones_below (by decide) _

/-- The loop of a chunk with enough fuel. -/
theorem loop_runs (follows : Follows env mode l items pending) {fuel : Nat} (enough : chunksize < fuel) :
    getbufLoop env fuel l.c chunksize =
      some ((txOctets chunksize l.c).1, (txOctets chunksize l.c).2, false) :=
  getbuf_octets tx_octet_ok (fun c ok => sig_ready c ok.1)
    ⟨follows.ok, ones_below follows, pending, follows.held, follows.few⟩ enough

theorem loop_more {c c' : Chan T} {fuel more : Nat} {b : Int} {txb : List Octet} {under : Bool}
    (done : getbufLoop env fuel c b = some (txb, c', under)) :
    getbufLoop env (fuel + more) c b = some (txb, c', under) := by
  induction fuel generalizing c c' b txb under with
  | zero => cases done
  | succ fuel ih =>
    rw [Nat.succ_add]
    rw [getbufLoop] at done ⊢
    split at done
    · rename_i none_
      rw [if_pos none_]
      exact done
    · rename_i wanted
      rw [if_neg wanted]
      split at done
      · cases done
      · split at done
        · cases done
        · rename_i looped
          rw [ih looped]
          exact done

/-- A chunk that returns has sent eight octets. -/
theorem loop_is (follows : Follows env mode l items pending) {fuel : Nat} {txb : List Octet}
    {c' : Chan T} {under : Bool}
    (done : getbufLoop env fuel l.c chunksize = some (txb, c', under)) :
    txb = (txOctets chunksize l.c).1 ∧ c' = (txOctets chunksize l.c).2 ∧ under = false := by
  have longer := @loop_more _ env _ _ fuel (chunksize + 1) _ _ _ done
  rw [loop_runs follows (by omega)] at longer
  cases longer
  exact ⟨rfl, rfl, rfl⟩

theorem sig_flag {c : Chan T} (ok : SigOk env c) (u : Bool) : SigOk env { c with txunderrun := u } :=
  ⟨ok.ring, ⟨ok.plain.hdlc, ok.plain.looped, ok.plain.quiet⟩, ok.mtp2, ok.immediate, ok.running,
    ok.busyTone⟩

theorem chunk_is (follows : Follows env mode l items pending) {fuel : Nat}
    (done : chunkStep env l fuel = some l') :
    l' = ⟨{ (txOctets chunksize l.c).2 with txunderrun := false },
      l.log ++ [.chunk (txOctets chunksize l.c).1]⟩ := by
  obtain ⟨⟨txb, c'⟩, returned, rfl⟩ := Option.map_eq_some_iff.mp done
  unfold getbufChunk at returned
  split at returned
  · cases returned
  · rename_i looped
    obtain ⟨rfl, rfl, rfl⟩ := loop_is follows looped
    cases returned
    rfl

theorem enough_fuel : chunksize < DataLink.chunkFuel := by decide

theorem chunk_runs (follows : Follows env mode l items pending) :
    chunkStep env l DataLink.chunkFuel = some ⟨{ (txOctets chunksize l.c).2 with txunderrun := false },
      l.log ++ [.chunk (txOctets chunksize l.c).1]⟩ := by
  have looped := loop_runs follows enough_fuel
  unfold chunkStep getbufChunk
  rw [looped]
  rfl

theorem octets_bits (mode : Mode) (k : Nat) (c : Chan T) :
    2 * k ≤ ((txOctets k c).1.flatMap (lineBits mode)).length := by
  induction k generalizing c with
  | zero => exact Nat.zero_le _
  | succ k ih =>
    have rest := ih (txOctet c).2
    have width := line_bits_length mode (txOctet c).1
    have low := (minbits_bounds mode).1
    simp only [txOctets, List.flatMap_cons, List.length_append]
    omega

theorem wire_length {ones : Nat} (below : ones < 5) (syms : List Sym) :
    (wire ones syms).length ≤ 10 * syms.length := by
  induction syms generalizing ones with
  | nil => exact Nat.le_refl 0
  | cons s rest ih =>
    have first := (sym_bits_length below s).2
    have later := ih (sym_ones_below below s)
    simp only [wire, List.length_append, List.length_cons]
    omega

theorem take_length (s : Spool Octet) : s.take.1.length ≤ 2 := by
  unfold Spool.take
  split
  · exact Nat.le_succ 1
  · split
    · exact Nat.zero_le 2
    · split
      · exact Nat.le_succ 1
      · exact Nat.le_refl 2

theorem takes_length (n : Nat) (s : Spool Octet) : (s.takes n).1.length ≤ 2 * n := by
  induction n generalizing s with
  | zero => exact Nat.le_refl 0
  | succ n ih =>
    have first := take_length s
    have rest := ih s.take.2
    simp only [Spool.takes, List.length_append]
    omega

/-- The line after a chunk. -/
def afterChunk (l : Line T) : Line T :=
  ⟨{ (txOctets chunksize l.c).2 with txunderrun := false },
    l.log ++ [.chunk (txOctets chunksize l.c).1]⟩

/-- A chunk goes on with the spool. -/
theorem follows_chunk (follows : Follows env mode l items pending) :
    ∃ n pending', Follows env mode (afterChunk l) (items ++ ((spoolOf l.c).takes n).1) pending' ∧
      spoolOf (afterChunk l).c = ((spoolOf l.c).takes n).2 := by
  obtain ⟨n, pending', sent⟩ :=
    octets_sent chunksize follows.ok follows.held (ones_below follows) follows.few
  have spool : spoolOf (afterChunk l).c = ((spoolOf l.c).takes n).2 := sent.spool
  refine ⟨n, pending', ⟨sig_flag sent.ok false, ?_, ?_, ?_, sent.held, sent.few,
    sent.mode.trans follows.lineMode, ?_, ?_⟩, spool⟩
  · rw [spool]
    exact Plays.chunk _ n follows.plays
  · rw [spool, afterChunk, written_chunk]
    exact account_takes follows.someBytes n follows.account
  · rw [afterChunk, written_chunk]
    exact follows.someBytes
  · have ones := sent.ones
    rw [follows.ones] at ones
    rw [List.map_append, wire_ones_append]
    exact ones
  · have bits := sent.bits
    rw [follows.lineMode, follows.ones] at bits
    rw [afterChunk, bits_chunk, List.append_assoc, bits, ← List.append_assoc, follows.bits,
      List.map_append, wire_append]

/-- Any number of chunks. -/
theorem follows_chunks (k : Nat) (follows : Follows env mode l items pending) :
    ∃ l' n pending', Chunks env l l' ∧
      Follows env mode l' (items ++ ((spoolOf l.c).takes n).1) pending' ∧
      writtenOf l'.log = writtenOf l.log ∧
      (bitsOf mode l.log).length + 16 * k ≤ (bitsOf mode l'.log).length := by
  induction k generalizing l items pending with
  | zero =>
    refine ⟨l, 0, pending, Chunks.none l, ?_, rfl, Nat.le_refl _⟩
    rw [Spool.takes, List.append_nil]
    exact follows
  | succ k ih =>
    obtain ⟨n, middle, first, spool⟩ := follows_chunk follows
    obtain ⟨l', n', pending', rest, later, written, longer⟩ := ih first
    have step : 2 * 8 ≤ _ := octets_bits mode chunksize l.c
    rw [spool, List.append_assoc] at later
    have items' : (Spool.takes (n + n') (spoolOf l.c)).1 =
        ((spoolOf l.c).takes n).1 ++ (((spoolOf l.c).takes n).2.takes n').1 := by
      rw [takes_add]
    refine ⟨l', n + n', pending', Chunks.more (chunk_runs follows) rest, ?_, ?_, ?_⟩
    · rw [items']
      exact later
    · rw [written, afterChunk, written_chunk]
    · rw [afterChunk, bits_chunk, List.length_append] at longer
      omega

theorem bits_within (follows : Follows env mode l items pending) :
    bitsOf mode l.log <+: wire 0 (items.map symOf) ∧
      (wire 0 (items.map symOf)).length ≤ (bitsOf mode l.log).length + 23 := by
  rw [← follows.bits]
  refine ⟨List.prefix_append _ _, ?_⟩
  rw [List.length_append]
  exact Nat.add_le_add_left follows.few _

/-- Enough chunks take as many items as wanted. -/
theorem takes_enough (follows : Follows env mode l items pending) (wanted : Nat) :
    ∃ l' n pending', Chunks env l l' ∧ wanted ≤ n ∧
      Follows env mode l' (items ++ ((spoolOf l.c).takes n).1) pending' ∧
      writtenOf l'.log = writtenOf l.log := by
  obtain ⟨l', n, pending', chunks, later, written, longer⟩ :=
    follows_chunks (2 * wanted + 4) follows
  refine ⟨l', n, pending', chunks, ?_, later, written⟩
  have before := (bits_within follows).2
  have after := (bits_within later).1.length_le
  have few := takes_length n (spoolOf l.c)
  have taken := @wire_length (wireOnes 0 (items.map symOf)) (wire_ones_below (by decide) _)
    (((spoolOf l.c).takes n).1.map symOf)
  rw [List.map_append, wire_append, List.length_append] at after
  have width := follows.bits
  have whole := congrArg List.length width
  rw [List.length_append] at whole
  rw [List.length_map] at taken
  have short := follows.few
  omega

theorem chunks_trans {l m l' : Line T} (first : Chunks env l m) (second : Chunks env m l') :
    Chunks env l l' := by
  induction first with
  | none => exact second
  | more done _ ih => exact Chunks.more done (ih second)

theorem wire_front {syms more : List Sym} (front : syms <+: more) : wire 0 syms <+: wire 0 more := by
  obtain ⟨rest, rfl⟩ := front
  rw [wire_append]
  exact List.prefix_append _ _

/-- Enough chunks put everything written on the line. -/
theorem follows_whole (follows : Follows env mode l items pending) (some_ : writtenOf l.log ≠ []) :
    ∃ l', Chunks env l l' ∧ AllOnLine mode l'.log ∧ writtenOf l'.log = writtenOf l.log := by
  obtain ⟨m, n, middle, first, enough, taken, written⟩ :=
    takes_enough follows (spoolOf l.c).left
  obtain ⟨flags, rounds, stutter, front⟩ :=
    takes_all follows.someBytes n follows.account enough some_
  obtain ⟨l', n', pending', second, later, written', longer⟩ := follows_chunks 2 taken
  refine ⟨l', chunks_trans first second, ⟨flags, rounds, ?_, ?_⟩, written'.trans written⟩
  · rw [written', written]
    exact stutter
  · apply (wire_front (front.map symOf)).trans
    have short := (bits_within taken).2
    apply List.prefix_of_prefix_length_le _ (bits_within later).1 (by omega)
    exact wire_front ((List.prefix_append _ _).map symOf)

theorem follows_repeats (follows : Follows env mode l items pending) : Repeats env mode l :=
  ⟨⟨items, spoolOf l.c, pending, follows.plays, follows.account, follows.bits, follows.few⟩,
    follows_whole follows⟩

end runs

section writes
variable {env : Env T} {mode : Mode} {l l' : Line T} {items : List (Option Octet)} {pending : List Bool}

/-- A write that is not the last the ring has room for leaves the transmitter on. -/
theorem announced_ok {c : Chan T} {w : Ring} {res : Int} (ok : SigOk env c)
    (ring : QueueOk c.numbufs (w.handOver c.numbufs res)) :
    SigOk env (announceWrite { c with write := w } res) ∧
      (announceWrite { c with write := w } res).txhdlc = c.txhdlc ∧
      (announceWrite { c with write := w } res).write = w.handOver c.numbufs res := by
  have on : (announceWrite { c with write := w } res) =
      { c with write := w.handOver c.numbufs res } := by
    simp only [announceWrite, ok.running, Bool.false_and, Bool.false_eq_true, false_and, and_false,
      if_false]
  rw [on]
  exact ⟨⟨ring, ⟨ok.plain.hdlc, ok.plain.looped, ok.plain.quiet⟩, ok.mtp2, ok.immediate, ok.running,
    ok.busyTone⟩, rfl, rfl⟩

/-- A write that is accepted puts its message behind the others. -/
theorem follows_commit {c' : Chan T} {usr : List Octet} (follows : Follows env mode l items pending)
    (free : 0 ≤ l.c.write.inbuf) (offered : 0 < writeAmnt l.c usr) (some_ : writeData l.c usr ≠ [])
    (done : chanWriteCommit env l.c l.c.write.inbuf usr = some c') :
    Follows env mode ⟨c', l.log ++ [.wrote (HardExtract.committed env l.c usr)]⟩ items pending := by
  have long := List.length_pos_iff.mpr some_
  have size := HardExtract.committed_length env l.c usr
  have message : HardExtract.committed env l.c usr ≠ [] :=
    List.length_pos_iff.mp (by omega)
  unfold chanWriteCommit at done
  rw [if_neg (by omega)] at done
  split at done
  · cases done
  · rename_i buf present
    cases done
    obtain ⟨ring, queue, same⟩ := queue_hand_over follows.ok.ring free
      (if l.c.flags.fcs then calcFcs env (copyAt buf 0 (writeData l.c usr)) (writeData l.c usr).length
        else copyAt buf 0 (writeData l.c usr)) long
      (rfl : storeWrite env l.c l.c.write.inbuf buf (writeData l.c usr) = _)
    have bytes : bytesOf (if l.c.flags.fcs then
          calcFcs env (copyAt buf 0 (writeData l.c usr)) (writeData l.c usr).length
        else copyAt buf 0 (writeData l.c usr)) 0 (writeData l.c usr).length =
        HardExtract.committed env l.c usr := by
      unfold HardExtract.committed
      split
      · rw [calc_fcs_bytes, bytes_copied]
      · rw [bytes_copied]
    rw [bytes] at queue
    obtain ⟨ok, txhdlc, write⟩ := announced_ok follows.ok ring
    have spool : spoolOf (announceWrite { l.c with
        write := storeWrite env l.c l.c.write.inbuf buf (writeData l.c usr) } l.c.write.inbuf) =
        (spoolOf l.c).put (HardExtract.committed env l.c usr) := by
      simp only [spoolOf, write, queue, same, Spool.put]
    refine ⟨ok, ?_, ?_, ?_, ?_, follows.few, ?_, ?_, ?_⟩
    · rw [spool]
      exact Plays.wrote _ follows.plays
    · rw [spool, written_wrote]
      exact account_put message follows.account
    · intro m member
      rw [written_wrote, List.mem_append, List.mem_singleton] at member
      rcases member with old | rfl
      · exact follows.someBytes m old
      · exact message
    · rw [txhdlc]
      exact follows.held
    · rw [txhdlc]
      exact follows.lineMode
    · rw [txhdlc]
      exact follows.ones
    · rw [bits_wrote]
      exact follows.bits

theorem elast_low : ¬0 ≤ -elast := by decide

theorem eagain_low : ¬0 ≤ -eagain := by decide

theorem write_start_quiet {c : Chan T} (quiet : env.toneBusy c.tones = false) :
    (chanWriteStart env c).2 = c ∧ (0 ≤ (chanWriteStart env c).1 →
      (chanWriteStart env c).1 = c.write.inbuf ∧ 0 ≤ c.write.inbuf) := by
  unfold chanWriteStart
  simp only [quiet, Bool.false_and, Bool.false_eq_true, if_false]
  split
  · exact ⟨rfl, fun accepted => absurd accepted elast_low⟩
  · split
    · rename_i free
      exact ⟨rfl, fun _ => ⟨rfl, free⟩⟩
    · exact ⟨rfl, fun accepted => absurd accepted eagain_low⟩

theorem follows_write {usr : List Octet} (follows : Follows env mode l items pending)
    (some_ : SomeMessage l (.write usr)) (done : writeStep env l usr = some l') :
    Follows env mode l' items pending := by
  obtain ⟨same, accepted⟩ := write_start_quiet follows.ok.busyTone
  unfold writeStep at done
  split at done
  · cases done
    exact follows
  · simp only [same] at done
    split at done
    · cases done
      exact follows
    · rename_i free
      obtain ⟨at_, low⟩ := accepted (by omega)
      obtain ⟨c', committed, rfl⟩ := Option.map_eq_some_iff.mp done
      rw [at_] at committed
      by_cases offered : 0 < writeAmnt l.c usr
      · rw [if_pos offered]
        exact follows_commit follows low offered (some_ offered) committed
      · rw [chanWriteCommit, if_pos (by omega)] at committed
        cases committed
        rw [if_neg offered]
        exact follows

theorem follows_step {event : Event} (follows : Follows env mode l items pending)
    (some_ : SomeMessage l event) (done : sigStep env l event = some l') :
    ∃ items' pending', Follows env mode l' items' pending' := by
  cases event with
  | write usr => exact ⟨items, pending, follows_write follows some_ done⟩
  | chunk fuel =>
    obtain ⟨n, pending', later, _⟩ := follows_chunk follows
    have same : l' = afterChunk l := chunk_is follows done
    rw [same]
    exact ⟨_, pending', later⟩

end writes

theorem follows_start {env : Env T} {mode : Mode} {l : Line T} (starts : (sigSystem env mode).start l) :
    Follows env mode l [] [] := by
  obtain ⟨empty, c₀, blocksize, numbufs, unused, sized, made⟩ := starts
  have done : (reallocbufs c₀ blocksize numbufs true true).1 = 0 := by
    simp [reallocbufs]
  have allocated : decide (blocksize ≠ 0) = true := decide_eq_true (by omega)
  rw [reallocbufs_done done, allocated] at made
  have nothing : spoolOf l.c = ⟨[], 0⟩ := by
    rw [made]
    rfl
  have txhdlc : l.c.txhdlc = fasthdlcInit mode := by
    rw [made]
    exact unused.txhdlc
  have ring : QueueOk l.c.numbufs l.c.write := by
    rw [made]
    exact queue_fresh (clamp_two numbufs) c₀.write
  refine ⟨⟨ring, ?_, ?_, ?_, ?_, ?_⟩, ?_, ?_, ?_, ?_, ?_, ?_, ?_, ?_⟩
  · rw [made]
    exact ⟨unused.hdlc, unused.looped, unused.quiet⟩
  · rw [made]
    exact unused.mtp2
  · rw [made]
    simp [startsWhenFull, unused.immediate]
  · rw [made]
    simp [unused.immediate]
  · rw [made]
    exact unused.busyTone
  · rw [nothing, empty]
    exact Plays.start
  · rw [nothing, empty]
    exact Account.idle 0
  · rw [empty]
    intro m member
    cases member
  · rw [txhdlc]
    exact holds_init mode
  · exact Nat.zero_le _
  · rw [txhdlc]
    rfl
  · rw [txhdlc]
    rfl
  · rw [empty]
    rfl

/-- Under MTP2 the channel sends every message at least once and in order, and
    repeats the last one, as long as no message is empty. -/
theorem sig_repeats {env : Env T} {mode : Mode} {l : Line T}
    (reached : Reach (sigSystem env mode) SomeMessage l) : Repeats env mode l := by
  have inv := @invariant_run _ _ (sigSystem env mode) SomeMessage
    (fun l => ∃ items pending, Follows env mode l items pending) ?_ ?_ l reached
  · obtain ⟨items, pending, follows⟩ := inv
    exact follows_repeats follows
  · intro l starts
    exact ⟨[], [], follows_start starts⟩
  · intro l event l' inv some_ done
    obtain ⟨items, pending, follows⟩ := inv
    exact follows_step follows some_ done

instance (l : Line T) (event : Event) : Decidable (SomeMessage l event) :=
  match event with
  | .write _ => inferInstanceAs (Decidable (_ → _))
  | .chunk _ => isTrue trivial

/-- A channel with 16-bit samples at its writers. -/
def sigChan : Chan Unit :=
  { zeroChan with flags := { zeroChan.flags with hdlc := true, mtp2 := true, linear := true } }

def sigLine : Line Unit := ⟨(reallocbufs sigChan 16 4 true true).2, []⟩

theorem sig_line_starts : (sigSystem silentEnv .mode64).start sigLine := by
  have unused : SigUnused silentEnv .mode64 sigChan := ⟨rfl, rfl, rfl, rfl, rfl, rfl, rfl⟩
  exact ⟨rfl, sigChan, 16, 4, unused, by decide, rfl⟩

def twoMessages : List Event :=
  [.chunk 9, .write [1, 2, 3, 4], .chunk 9, .chunk 9, .write [5, 6], .write [7, 8, 9, 10, 11, 12],
    .chunk 9, .chunk 9]

theorem sig_repeats_two : ∃ l, follow (sigStep silentEnv) SomeMessage twoMessages sigLine = some l ∧
    Repeats silentEnv .mode64 l := by
  have runs : (follow (sigStep silentEnv) SomeMessage twoMessages sigLine).isSome = true := by
    decide +kernel
  obtain ⟨l, followed⟩ := Option.isSome_iff_exists.mp runs
  refine ⟨l, followed, sig_repeats ?_⟩
  exact @follow_reach _ _ (sigSystem silentEnv .mode64) _ _ _ (fun _ _ _ done => done) _ _ _
    (Reach.start sig_line_starts) followed

/-- An MTP2 channel whose last message is empty and is being sent. -/
structure Stuck (c : Chan T) : Prop where
  hdlc : c.flags.hdlc = true
  mtp2 : c.flags.mtp2 = true
  immediate : startsWhenFull c = false
  running : c.txdisable = false
  sending : -1 < c.write.outbuf
  last : (c.write.outbuf + 1) % c.numbufs = c.write.inbuf
  present : (c.write.buf c.write.outbuf.toNat).isSome = true
  nothing : c.write.n c.write.outbuf.toNat = 0
  start : c.write.idx c.write.outbuf.toNat = 0

section empty
variable {env : Env T} {c c' : Chan T}

theorem stuck_pass (stuck : Stuck c) {b : Nat} :
    ∃ c', getbufPass env c b = some ([], c', (b : Int), false) ∧ Stuck c' := by
  obtain ⟨buf, present⟩ := Option.isSome_iff_exists.mp stuck.present
  have first : -1 < c.write.outbuf ∧ c.txdisable = false := ⟨stuck.sending, stuck.running⟩
  have none_ : min (c.write.n c.write.outbuf.toNat - c.write.idx c.write.outbuf.toNat) (b : Int) = 0 := by
    rw [stuck.nothing, stuck.start]
    omega
  have done : ¬(sentTo c c.txhdlc 0).write.idx (sentTo c c.txhdlc 0).write.outbuf.toNat <
      (sentTo c c.txhdlc 0).write.n (sentTo c c.txhdlc 0).write.outbuf.toNat := by
    change ¬Channel.set c.write.idx c.write.outbuf.toNat 0 c.write.outbuf.toNat <
      c.write.n c.write.outbuf.toNat
    rw [set_same, stuck.nothing]
    exact Int.lt_irrefl 0
  refine ⟨getbufStatus (sentTo c c.txhdlc 0), ?_, ?_⟩
  · rw [getbufPass, if_pos first]
    simp only [present, none_, stuck.hdlc, if_true, Int.toNat_zero, hdlcSendLoop, Int.sub_zero]
    rw [stuck.start]
    rfl
  · rw [@status_mtp2 _ (sentTo c c.txhdlc 0) stuck.mtp2 stuck.hdlc stuck.immediate done]
    have kept : turnRing (sentTo c c.txhdlc 0).numbufs (sentTo c c.txhdlc 0).write =
        { c.write with idx := Channel.set c.write.idx c.write.outbuf.toNat 0 } := by
      simp only [turnRing, sentTo, setWriteIdx, setTxhdlc, stuck.last, if_true, set_twice]
    rw [kept]
    exact ⟨stuck.hdlc, stuck.mtp2, stuck.immediate, stuck.running, stuck.sending, stuck.last,
      stuck.present, stuck.nothing, set_same _ _ _⟩

theorem stuck_loop (fuel : Nat) (stuck : Stuck c) {b : Nat} (some_ : 0 < b) :
    getbufLoop env fuel c b = none := by
  induction fuel generalizing c with
  | zero => rfl
  | succ fuel ih =>
    obtain ⟨c', passed, stuck'⟩ := @stuck_pass T env c stuck b
    have wanted : ¬(b : Int) = 0 := by omega
    rw [getbufLoop, if_neg wanted, passed]
    simp only [ih stuck']

theorem stuck_after {txb : List Octet} {b b' : Nat} {under : Bool} (some_ : 0 < b) (more : 0 < b')
    (passed : getbufPass env c b = some (txb, c', (b' : Int), under)) (stuck : Stuck c') (fuel : Nat) :
    getbufLoop env fuel c b = none := by
  have wanted : ¬(b : Int) = 0 := by omega
  cases fuel with
  | zero => rfl
  | succ fuel =>
    rw [getbufLoop, if_neg wanted, passed]
    simp only [stuck_loop fuel stuck more]

end empty

/-- Only an empty list of symbols has no bits. -/
theorem wire_some {ones : Nat} (below : ones < 5) {syms : List Sym} (some_ : syms ≠ []) :
    wire ones syms ≠ [] := by
  obtain ⟨s, rest, rfl⟩ := List.exists_cons_of_ne_nil some_
  have low := (sym_bits_length below s).1
  rw [wire]
  intro none_
  have empty := (List.append_eq_nil_iff.mp none_).1
  rw [empty] at low
  exact absurd low (by decide)

theorem stutter_some {α : Type} {done sent : List (List α)} (stutter : Stutter done sent)
    (some_ : done ≠ []) : sent ≠ [] := by
  cases stutter with
  | none => exact absurd rfl some_
  | next m before => simp
  | again before => simp

/-- A line on which no chunk ends and nothing has been sent. -/
theorem never_sent {env : Env T} {mode : Mode} {l : Line T}
    (never : ∀ fuel, getbufLoop env fuel l.c chunksize = none) (wrote : writtenOf l.log ≠ [])
    (silent : bitsOf mode l.log = []) : ¬Repeats env mode l := by
  intro repeats
  obtain ⟨l', chunks, ⟨flags, rounds, stutter, front⟩, written⟩ := repeats.whole wrote
  cases chunks with
  | none =>
    rw [silent, List.prefix_nil] at front
    have sent := stutter_some stutter wrote
    obtain ⟨m, rest, rfl⟩ := List.exists_cons_of_ne_nil sent
    exact wire_some (by decide) (by simp [frame]) front
  | @more _ m _ fuel done _ =>
    rw [chunkStep, getbufChunk, never fuel] at done
    cases done

/-- A message of two samples and then one byte, which is no sample. -/
def emptyMessage : List Event := [.write [1, 2, 3, 4], .write [5]]

instance (c : Chan T) : Decidable (Stuck c) :=
  decidable_of_iff (c.flags.hdlc = true ∧ c.flags.mtp2 = true ∧ startsWhenFull c = false ∧
    c.txdisable = false ∧ -1 < c.write.outbuf ∧
    (c.write.outbuf + 1) % c.numbufs = c.write.inbuf ∧
    (c.write.buf c.write.outbuf.toNat).isSome = true ∧ c.write.n c.write.outbuf.toNat = 0 ∧
    c.write.idx c.write.outbuf.toNat = 0)
    ⟨fun ⟨a, b, d, e, f, g, h, i, j⟩ => ⟨a, b, d, e, f, g, h, i, j⟩,
      fun s => ⟨s.hdlc, s.mtp2, s.immediate, s.running, s.sending, s.last, s.present, s.nothing,
        s.start⟩⟩

theorem empty_message_runs : (follow (sigStep silentEnv) anyStep emptyMessage sigLine).any (fun l =>
    writtenOf l.log ≠ [] ∧ bitsOf .mode64 l.log = [] ∧
      (getbufPass silentEnv l.c chunksize).any fun p => p.2.2.1 = 6 ∧ Stuck p.2.1) = true := by
  decide +kernel

/-- With an empty message behind it, the first message never gets onto the line. -/
theorem empty_message_never_sent :
    ¬∀ l, Reach (sigSystem silentEnv .mode64) anyStep l → Repeats silentEnv .mode64 l := by
  intro all
  obtain ⟨l, followed, facts⟩ := Option.any_eq_true _ _ |>.mp empty_message_runs
  obtain ⟨wrote, silent, passes⟩ := of_decide_eq_true facts
  obtain ⟨⟨txb, c', left, under⟩, passed, rest⟩ := Option.any_eq_true _ _ |>.mp passes
  obtain ⟨six, stuck⟩ := of_decide_eq_true rest
  simp only at six stuck
  rw [six] at passed
  have reached := @follow_reach _ _ (sigSystem silentEnv .mode64) _ _ _ (fun _ _ _ done => done) _ _ _
    (Reach.start sig_line_starts) followed
  have never := @stuck_after _ silentEnv l.c c' txb 8 6 under (by decide) (by decide) passed stuck
  exact never_sent never wrote silent (all l reached)

end Repetition
