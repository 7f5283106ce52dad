import Mathlib
import Dahdi.Channel.HdlcSender
import Dahdi.Channel.HdlcReceiver

/-!
Two channels in HDLC mode with frame check, the octets of the first fed to the
second. Frames leave the write ring, cross the line and come up in the read
ring; nothing is lost, repeated or reordered on the way.
-/
namespace DataLink
open Channel CyclicCursor GuardedRun RingInvariant RingContents HdlcOctets HdlcSender HdlcReceiver
open Fasthdlc FasthdlcLink HdlcFrames
variable {T : Type}

/-- The sender has still to load the queue, of whose first frame k bytes are
    loaded; what the receiver has collected and the symbols before it make up
    the rest of the frames. -/
def Owes (queue : List (List Octet)) (k : Nat) (c : Collected) (syms : List Sym)
    (frames : List (List Octet)) : Prop :=
  match queue with
  | [] => collectSyms c syms = (frames, [])
  | f :: rest => ∃ done, collectSyms c syms = (done, f.take k) ∧ done ++ f :: rest = frames

section Owing
variable {queue queue' : List (List Octet)} {k k' : Nat} {c : Collected} {syms left : List Sym}
  {frames : List (List Octet)} {h : State} {s : Sym} {more : List Sym}

theorem owes_follows (owes : Owes queue k c syms frames) : Follows c frames := by
  refine @follows_symbols c syms frames ?_
  cases queue with
  | nil =>
    rw [show (syms.map resultOf).foldl collectStep c = (frames, []) from owes]
    exact ⟨List.prefix_rfl, Or.inl rfl⟩
  | cons f rest =>
    obtain ⟨done, collected, whole⟩ := owes
    rw [show (syms.map resultOf).foldl collectStep c = (done, f.take k) from collected]
    refine ⟨⟨_, whole⟩, Or.inr ⟨f, ?_, List.take_prefix k f⟩⟩
    rw [← whole]
    simp

theorem owes_decoded {state state' : Nat} {r : RxResult} (owes : Owes queue k c syms frames)
    (decoded : Decoded state state' syms r left) (fresh : state = 0 → c = ([], [])) :
    Owes queue k (collectStep c r) left frames := by
  rcases decoded_collect decoded fresh with ⟨rfl, same⟩ | ⟨s, rfl, taken⟩
  · rw [same]
    exact owes
  · rw [taken]
    cases queue with
    | nil => exact owes
    | cons f rest => exact owes

theorem collect_offered (s : Sym) : collectSyms c (offered h syms s) =
    if fasthdlcTxNeedData h then collectStep (collectSyms c syms) (resultOf s)
    else collectSyms c syms := by
  unfold offered
  split
  · exact collect_syms_append c syms [s]
  · rfl

theorem owes_move (owes : Owes queue k c syms frames) (move : Move h queue k s more queue' k') :
    Owes queue' k' c (offered h syms s ++ more) frames := by
  cases move with
  | idle _ _ boundary =>
    rw [List.append_nil]
    cases queue with
    | nil =>
      change collectSyms c _ = _
      rw [collect_offered, show collectSyms c syms = (frames, []) from owes]
      split <;> rfl
    | cons f rest =>
      obtain ⟨done, collected, whole⟩ := owes
      obtain rfl : k = 0 := by simpa using boundary
      refine ⟨done, ?_, whole⟩
      rw [collect_offered, collected]
      split <;> rfl
  | wait f rest _ y full =>
    obtain ⟨done, collected, whole⟩ := owes
    refine ⟨done, ?_, whole⟩
    rw [List.append_nil, collect_offered, full]
    exact collected
  | byte f rest _ y short here inside =>
    obtain ⟨done, collected, whole⟩ := owes
    refine ⟨done, ?_, whole⟩
    rw [List.append_nil, collect_offered, short, collected, List.take_add_one, here]
    rfl
  | last f rest _ y short here ended =>
    obtain ⟨done, collected, whole⟩ := owes
    have all : f.take k ++ [y] = f := by
      have step := List.take_add_one (l := f) (i := k)
      rw [here, List.take_of_length_le (by omega)] at step
      exact step.symm
    have closed : collectSyms c (offered h syms (.octet y) ++ [.flag]) = (done ++ [f], []) := by
      rw [collect_syms_append, collect_offered, short, collected]
      simp only [↓reduceIte, collectStep, resultOf, collectSyms, List.map_cons, List.map_nil,
        List.foldl_cons, List.foldl_nil, all]
      rw [if_neg (List.ne_nil_of_length_pos (by omega))]
    cases queue' with
    | nil =>
      change collectSyms c _ = _
      rw [closed, whole]
    | cons g rest => exact ⟨done ++ [f], closed, by simpa using whole⟩

theorem move_more (move : Move h queue k s more queue' k') :
    more = [] ∨ more = [.flag] ∧ fasthdlcTxNeedData h = true := by
  cases move with
  | idle => exact Or.inl rfl
  | wait => exact Or.inl rfl
  | byte => exact Or.inl rfl
  | last _ _ _ _ short => exact Or.inr ⟨rfl, short⟩

theorem move_symbol (move : Move h queue k s more queue' k') : s = .flag ∨ queue ≠ [] := by
  cases move with
  | idle => exact Or.inl rfl
  | wait => exact Or.inr (by simp)
  | byte => exact Or.inr (by simp)
  | last => exact Or.inr (by simp)

end Owing

/-- What the kernel's frame check promises: data followed by its check leaves
    the good residue. -/
def FcsResidue (env : Env T) : Prop :=
  ∀ data, fcsOver env env.pppInitfcs (data ++ fcsBytes env data) = env.pppGoodfcs

/-- A frame on the link: written with room for its check, shorter than a buffer. -/
def Checked (env : Env T) (blocksize : Int) (f : List Octet) : Prop :=
  ∃ data : List Octet, f = withFcs env data ∧ 3 ≤ data.length ∧ (data.length : Int) < blocksize

theorem checked_good {env : Env T} (residue : FcsResidue env) {blocksize : Int} {f : List Octet}
    (checked : Checked env blocksize f) :
    fcsOver env env.pppInitfcs f = env.pppGoodfcs ∧ (f.length : Int) < blocksize := by
  obtain ⟨data, rfl, size, short⟩ := checked
  constructor
  · rw [withFcs, if_neg (by omega)]
    exact residue _
  · rw [with_fcs_length]
    exact short

/-- Everything the receiving channel has got: read, waiting and under way. -/
def gathered (got : List (List Octet)) (b : Chan T) : Collected :=
  (got ++ contents b.read, underWay b.read)

theorem gathered_step {got : List (List Octet)} {b b' : Chan T} {r : RxResult}
    (step : collected b' = collectStep (collected b) r) (kept : r ≠ .discard) :
    gathered got b' = collectStep (gathered got b) r := by
  unfold collected at step
  unfold gathered
  obtain ⟨whole, part⟩ := Prod.mk.inj step
  cases r with
  | discard => exact absurd rfl kept
  | empty =>
    simp only [collectStep] at whole part ⊢
    rw [whole, part]
  | complete =>
    simp only [collectStep] at whole part ⊢
    split <;> rename_i none <;> simp only [none, ↓reduceIte] at whole part
    · rw [whole, part, none]
    · rw [whole, part, List.append_assoc]
  | data y =>
    simp only [collectStep] at whole part ⊢
    rw [whole, part]

structure Coupled (env : Env T) (a b : Chan T) (got frames : List (List Octet)) (idle : Nat)
    (syms : List Sym) : Prop where
  sender : SenderOk env a
  receiver : ReceiverOk env b
  linked : Linked a.txhdlc b.rxhdlc syms
  room : a.txhdlc.bits ≤ 17
  ready : Opened b.rxhdlc syms ∨ a.txhdlc.bits = 0 ∧ contents a.write = []
  fresh : b.rxhdlc.state = 0 → gathered got b = ([], [])
  owes : Owes (contents a.write) (progress a.write) (gathered got b) syms frames
  settling : contents a.write = [] → ∃ flags, Settling (gathered got b) syms frames flags ∧
    (flags < 4 → 32 * ((4 - flags : Nat) : Int) + a.txhdlc.bits + idle ≤ 145)
  checked : ∀ f ∈ frames, Checked env b.blocksize f

section Octet
variable {env : Env T} {a b : Chan T} {got frames : List (List Octet)} {idle : Nat} {syms : List Sym}

/-- Flags loaded after the last frame, counted while there is nothing to send. -/
theorem settling_octet {s : Sym} {more left : List Sym} {queue' : List (List Octet)} {k' : Nat}
    {state state' : Nat} {r : RxResult} (coupled : Coupled env a b got frames idle syms)
    (move : Move a.txhdlc (contents a.write) (progress a.write) s more queue' k') (none : queue' = [])
    (owes : Owes queue' k' (collectStep (gathered got b) r) (left ++ more) frames)
    (decoded : Decoded state state' (offered a.txhdlc syms s) r left)
    (fresh : state = 0 → gathered got b = ([], []))
    (room : (more.foldl loadSym (sendOctet a.txhdlc s).2).bits ≤ 17) :
    ∃ flags, Settling (collectStep (gathered got b) r) (left ++ more) frames flags ∧
      (flags < 4 → 32 * ((4 - flags : Nat) : Int) +
        (more.foldl loadSym (sendOctet a.txhdlc s).2).bits +
        (if contents a.write = [] then idle + 1 else 0 : Nat) ≤ 145) := by
  obtain ⟨short, full⟩ := send_octet_bits coupled.linked s
  by_cases empty : contents a.write = []
  · rw [empty] at move
    cases move with
    | idle =>
      obtain ⟨flags, ⟨front, j, split, enough, whole⟩, bound⟩ := coupled.settling empty
      have after : ∃ flags', Settling (gathered got b) (offered a.txhdlc syms .flag) frames flags' ∧
          (flags' < 4 → 32 * ((4 - flags' : Nat) : Int) + (sendOctet a.txhdlc .flag).2.bits +
            (idle + 1 : Nat) ≤ 145) := by
        cases need : fasthdlcTxNeedData a.txhdlc with
        | true =>
          have bits := (short need).2
          refine ⟨flags + 1, ⟨front, j + 1, ?_, ?_, whole⟩, by omega⟩
          · simp only [offered, need, ↓reduceIte, split, List.append_assoc, List.replicate_succ']
          · intro some
            have := enough some
            omega
        | false =>
          have bits := full need
          refine ⟨flags, ⟨front, j, ?_, enough, whole⟩, by omega⟩
          simp only [offered, need, Bool.false_eq_true, ↓reduceIte, split]
      obtain ⟨flags', settling, bound'⟩ := after
      refine ⟨flags', ?_, by rw [if_pos empty]; exact bound'⟩
      rw [List.append_nil]
      rcases decoded_collect decoded fresh with ⟨rfl, same⟩ | ⟨s, taken, collected⟩
      · rw [same]
        exact settling
      · rw [collected]
        rw [taken] at settling
        exact settling_first settling
  · subst none
    refine ⟨0, ⟨left ++ more, 0, (List.append_nil _).symm, fun _ => Nat.le_refl 0, owes⟩, ?_⟩
    rw [if_neg empty]
    omega

/-- One octet sent by the first channel and received by the second. -/
theorem octet_step (residue : FcsResidue env) (coupled : Coupled env a b got frames idle syms)
    (free : 0 ≤ b.read.inbuf) :
    ∃ b' syms', rxOctet env b (txOctet a).1 = some b' ∧
      Coupled env (txOctet a).2 b' got frames (if contents a.write = [] then idle + 1 else 0) syms' ∧
      Opened b'.rxhdlc syms' ∧ b'.blocksize = b.blocksize := by
  obtain ⟨sender, s, more, move, octet, txhdlc⟩ := tx_octet_spec coupled.sender
  obtain ⟨nonneg, _, need⟩ := linked_count coupled.linked
  have width := minbits_bounds a.txhdlc.mode
  have fits : s = .flag ∨ Opened b.rxhdlc syms := by
    rcases move_symbol move with flag | some
    · exact Or.inl flag
    · rcases coupled.ready with opened | ⟨_, empty⟩
      · exact Or.inr opened
      · exact absurd empty some
  have offer : Opened b.rxhdlc (offered a.txhdlc syms s) := by
    unfold offered
    split
    · exact Or.inr (by simp)
    · rename_i full
      rw [need] at full
      rcases coupled.ready with opened | ⟨none, _⟩
      · exact opened
      · omega
  obtain ⟨short, full⟩ := send_octet_bits coupled.linked s
  obtain ⟨r, h, left, run, decoded, linked⟩ := send_octet_linked coupled.linked s fits
  have opened := @opened_decoded b.rxhdlc h _ left r offer decoded
  have kept := decoded_keeps decoded
  have owes := owes_decoded (owes_move coupled.owes move) (decoded_extend decoded more) coupled.fresh
  have follows := owes_follows owes
  obtain ⟨b', received, receiver, step, rxhdlc, blocksize⟩ :=
    rx_octet_spec coupled.receiver free run kept
      (by
        rintro y rfl
        obtain ⟨_, none | ⟨f, here, front⟩⟩ := follows
        · simp [collectStep] at none
        · have member := List.mem_of_getElem? here
          have bound := (checked_good residue (coupled.checked f member)).2
          have prefixed := front.length_le
          simp only [collectStep, gathered, List.length_append, List.length_cons,
            List.length_nil] at prefixed
          omega)
      (by
        rintro rfl some
        obtain ⟨⟨later, whole⟩, _⟩ := follows
        simp only [collectStep, gathered, some, ↓reduceIte] at whole
        refine (checked_good residue (coupled.checked _ ?_)).1
        rw [← whole]
        simp)
  have moved : Linked (txOctet a).2.txhdlc h (left ++ more) ∧ (txOctet a).2.txhdlc.bits ≤ 17 := by
    rw [txhdlc]
    have room := coupled.room
    rcases move_more move with rfl | ⟨rfl, needed⟩
    · rw [List.append_nil]
      refine ⟨linked, ?_⟩
      simp only [List.foldl_nil]
      cases value : fasthdlcTxNeedData a.txhdlc with
      | true =>
        have := (short value).1
        omega
      | false =>
        have := full value
        omega
    · have few := (short needed).1
      refine ⟨linked_load linked (by omega) .flag (Or.inl rfl), ?_⟩
      simp only [List.foldl_cons, List.foldl_nil, loadSym, fasthdlcTxFrameNocheck]
      omega
  have gather := @gathered_step T got b b' r step kept
  have opened' : Opened b'.rxhdlc (left ++ more) := by
    rw [rxhdlc]
    rcases opened with framed | some
    · exact Or.inl framed
    · exact Or.inr (by simp [some])
  refine ⟨b', left ++ more, by rw [octet]; exact received, ?_, opened', blocksize⟩
  refine ⟨sender, receiver, by rw [rxhdlc]; exact moved.1, moved.2, Or.inl opened', ?_, ?_, ?_, ?_⟩
  · rw [rxhdlc, gather]
    exact fresh_decoded decoded coupled.fresh
  · rw [gather]
    exact owes
  · intro none
    rw [gather, txhdlc]
    refine settling_octet coupled move none owes decoded coupled.fresh ?_
    rw [← txhdlc]
    exact moved.2
  · rw [blocksize]
    exact coupled.checked

end Octet

section Chunk
variable {env : Env T} {a b : Chan T} {got frames : List (List Octet)} {idle : Nat} {syms : List Sym}

theorem stays_empty (sender : SenderOk env a) (empty : contents a.write = []) :
    contents (txOctet a).2.write = [] := by
  obtain ⟨_, s, more, move, _⟩ := tx_octet_spec sender
  rw [empty] at move
  generalize contents (txOctet a).2.write = queue' at move ⊢
  generalize progress (txOctet a).2.write = k' at move
  cases move with
  | idle => rfl

/-- Octets sent and received as long as the read ring has room. -/
theorem octets_run (residue : FcsResidue env) (k : Nat)
    (coupled : Coupled env a b got frames idle syms) :
    ∃ b' dropped, Octetwise env b (txOctets k a).1 b' dropped ∧ (0 ≤ b'.read.inbuf →
      dropped = [] ∧ b'.blocksize = b.blocksize ∧ ∃ idle' syms',
        Coupled env (txOctets k a).2 b' got frames idle' syms' ∧
        (Opened b.rxhdlc syms ∨ 0 < k → Opened b'.rxhdlc syms') ∧
        (contents a.write = [] → idle' = idle + k ∧ contents (txOctets k a).2.write = [])) := by
  induction k generalizing a b idle syms with
  | zero =>
    refine ⟨b, [], .done b, fun _ => ⟨rfl, rfl, idle, syms, coupled, ?_, fun empty => ⟨rfl, empty⟩⟩⟩
    rintro (opened | none)
    · exact opened
    · omega
  | succ k ih =>
    by_cases full : b.read.inbuf < 0
    · exact ⟨b, _, .full b _ full, fun room => by omega⟩
    · have free : 0 ≤ b.read.inbuf := by omega
      obtain ⟨b₁, syms₁, received, coupled₁, opened, blocksize⟩ := octet_step residue coupled free
      obtain ⟨b', dropped, octets, later⟩ := ih coupled₁
      have inside := (coupled.receiver.filling free).2
      refine ⟨b', dropped, .step coupled.receiver.hdlc free inside received octets, fun room => ?_⟩
      obtain ⟨none, blocksize', idle', syms', coupled', opened', waited⟩ := later room
      refine ⟨none, blocksize'.trans blocksize, idle', syms', coupled',
        fun _ => opened' (Or.inl opened), fun empty => ?_⟩
      obtain ⟨counted, stays⟩ := waited (stays_empty coupled.sender empty)
      rw [if_pos empty] at counted
      exact ⟨by omega, stays⟩

theorem sender_ready (c : Chan T) (ok : SenderOk env c) : Plain env c ∧ Busy c :=
  ⟨ok.plain, sender_busy ok⟩

def chunkFuel : Nat := chunksize + 1

/-- The flags of a chunk's end change nothing the link depends on. -/
theorem coupled_flags (coupled : Coupled env a b got frames idle syms) (u v : Bool) :
    Coupled env { a with txunderrun := u } { b with rxoverrun := v } got frames idle syms := by
  obtain ⟨s, r, linked, room, ready, fresh, owes, settling, checked⟩ := coupled
  exact ⟨⟨s.two, s.allocated, s.valid, ⟨s.plain.hdlc, s.plain.looped, s.plain.quiet⟩, s.fcs, s.mtp2,
      s.linear, s.busyTone, s.noEvent, s.started, s.later, s.stopped⟩,
    ⟨r.two, r.sized, r.allocated, r.valid, r.hdlc, r.fcs, r.mtp2, r.linear, r.noEvent, r.unused,
      r.filling, r.check⟩, linked, room, ready, fresh, owes, settling, checked⟩

theorem octets_count (k : Nat) (c : Chan T) : (txOctets k c).1.length = k := by
  induction k generalizing c with
  | zero => rfl
  | succ k ih => simp only [txOctets, List.length_cons, ih]

/-- A chunk crosses the line. -/
theorem chunk_run (residue : FcsResidue env) (coupled : Coupled env a b got frames idle syms) :
    ∃ txb a' b', getbufChunk env chunkFuel a = some (txb, a') ∧
      putbufChunk env chunkFuel b txb = some b' ∧ (0 ≤ b'.read.inbuf →
      b'.blocksize = b.blocksize ∧ ∃ idle' syms', Coupled env a' b' got frames idle' syms' ∧
        Opened b'.rxhdlc syms' ∧
        (contents a.write = [] → idle' = idle + chunksize ∧ contents a'.write = [])) := by
  have sent := @getbuf_octets T env (SenderOk env) (fun c ok => (tx_octet_spec ok).1) sender_ready chunkFuel chunksize a
    coupled.sender (by decide : chunksize < chunkFuel)
  obtain ⟨b', dropped, octets, later⟩ := octets_run residue chunksize coupled
  have few : (txOctets chunksize a).1.length < chunkFuel := by
    rw [octets_count]
    decide
  have received := putbuf_octets octets few
  refine ⟨(txOctets chunksize a).1, { (txOctets chunksize a).2 with txunderrun := false }, ?_⟩
  have chunk : getbufChunk env chunkFuel a = some ((txOctets chunksize a).1,
      { (txOctets chunksize a).2 with txunderrun := false }) := by
    simp only [getbufChunk, sent, Bool.false_eq_true, ↓reduceIte]
  by_cases none : dropped = []
  · refine ⟨{ b' with rxoverrun := false }, chunk, ?_, ?_⟩
    · simp only [putbufChunk, received, none, ↓reduceIte]
    · intro room
      obtain ⟨_, blocksize, idle', syms', coupled', opened, waited⟩ := later room
      exact ⟨blocksize, idle', syms', coupled_flags coupled' false false,
        opened (Or.inr (by decide)), waited⟩
  · have full : ∀ c : Chan T, c.read.inbuf = b'.read.inbuf → ¬ 0 ≤ c.read.inbuf := by
      intro c same room
      rw [same] at room
      exact none (later room).1
    cases overrun : b'.rxoverrun with
    | true =>
      refine ⟨b', chunk, ?_, fun room => absurd room (full b' rfl)⟩
      simp only [putbufChunk, received, none, overrun, ↓reduceIte]
    | false =>
      let noticed := if b'.flags.bufevents then qevent b' eventReadOverrun else b'
      refine ⟨{ noticed with rxoverrun := true }, chunk, ?_, fun room => ?_⟩
      · simp only [putbufChunk, received, none, overrun, Bool.false_eq_true, ↓reduceIte]
        rfl
      · refine absurd room (full _ ?_)
        unfold noticed
        split
        · exact (fills_event b' eventReadOverrun).inbuf
        · rfl

end Chunk

/-- A channel set up for HDLC with frame check, before its buffers are allocated. -/
structure Unused (env : Env T) (mode : Mode) (c : Chan T) : Prop where
  hdlc : c.flags.hdlc = true
  fcs : c.flags.fcs = true
  mtp2 : c.flags.mtp2 = false
  linear : c.flags.linear = false
  looped : c.flags.looped = false
  quiet : env.curtone c.tones = false
  busyTone : env.toneBusy c.tones = false
  noEvent : c.eventinidx = c.eventoutidx
  rxhdlc : c.rxhdlc = fasthdlcInit mode
  txhdlc : c.txhdlc = fasthdlcInit mode
  infcs : c.infcs = env.pppInitfcs

/-- A channel as dahdi_reallocbufs leaves it, with any number of buffers of any
    size. -/
def Fresh (env : Env T) (mode : Mode) (c : Chan T) : Prop :=
  ∃ (c₀ : Chan T) (blocksize numbufs : Int), Unused env mode c₀ ∧ 0 < blocksize ∧
    (reallocbufs c₀ blocksize numbufs true true).2 = c

structure Link (T : Type) where
  a : Chan T
  b : Chan T
  /-- the frames a write has accepted, as written -/
  written : List (List Octet)
  /-- the reads that found a frame: the room they had and what they got -/
  reads : List (Nat × List Octet)
  /-- chunks since the last one with anything to send -/
  idle : Nat
  chunks : Nat

inductive Event where
  | write (usr : List Octet)
  | chunk
  | read (count : Nat)

def linkWrite (env : Env T) (l : Link T) (usr : List Octet) : Option (Link T) :=
  if usr.length % 2 ^ 16 = 0 then some l
  else
    let (res, a) := chanWriteStart env l.a
    if res < 0 then some { l with a := a }
    else (chanWriteCommit env a res usr).map fun a' =>
      { l with a := a', written := l.written ++ [usr.take (writeAmnt a usr).toNat], idle := 0 }

def linkChunk (env : Env T) (l : Link T) : Option (Link T) :=
  match getbufChunk env chunkFuel l.a with
  | none => none
  | some (txb, a) =>
    match putbufChunk env chunkFuel l.b txb with
    | none => none
    | some b => some { l with
        a := a
        b := b
        idle := if l.a.write.outbuf < 0 then l.idle + 1 else 0
        chunks := l.chunks + 1 }

def linkRead (l : Link T) (count : Nat) : Option (Link T) :=
  if count % 2 ^ 16 = 0 then some l
  else
    let res := chanReadStart l.b
    if res < 0 then some l
    else (chanReadCommit l.b res count).map fun (data, b) =>
      { l with b := b, reads := l.reads ++ [(count % 2 ^ 16, data)] }

def linkStep (env : Env T) (l : Link T) : Event → Option (Link T)
  | .write usr => linkWrite env l usr
  | .chunk => linkChunk env l
  | .read count => linkRead l count

def linkSystem (env : Env T) (mode : Mode) : System (Link T) Event where
  start l := Fresh env mode l.a ∧ Fresh env mode l.b ∧ l.written = [] ∧ l.reads = [] ∧
    l.idle = 0 ∧ l.chunks = 0
  step l event l' := linkStep env l event = some l'

/-- Frames of three octets and more that are shorter than a buffer, written
    after a first chunk; chunks that leave a free buffer in the read ring. -/
def Fits (env : Env T) (l : Link T) : Event → Prop
  | .write usr => 0 < l.chunks ∧ 3 ≤ writeAmnt l.a usr ∧ writeAmnt l.a usr < l.b.blocksize
  | .chunk => ∀ l', linkChunk env l = some l' → 0 ≤ l'.b.read.inbuf
  | .read _ => True

structure LinkOk (env : Env T) (l : Link T) : Prop where
  coupled : ∃ got idle syms,
    Coupled env l.a l.b got (l.written.map (withFcs env)) idle syms ∧
      (0 < l.chunks → Opened l.b.rxhdlc syms) ∧ chunksize * l.idle ≤ idle ∧
      List.Forall₂ (fun r f => r.2 = f.take r.1) l.reads got
  quiet : 0 < l.idle → contents l.a.write = []

section Runs
variable {env : Env T} {mode : Mode} {l l' : Link T}

theorem fresh_rings {c : Chan T} (fresh : Fresh env mode c) : Unused env mode c ∧ 2 ≤ c.numbufs ∧
    0 < c.blocksize ∧ ∀ r, r = c.read ∨ r = c.write → r.inbuf = 0 ∧ r.outbuf = -1 ∧ r.filled = [] ∧
      Allocated c.numbufs r ∧ ∀ x, x < c.numbufs → r.idx x = 0 := by
  obtain ⟨c₀, blocksize, numbufs, unused, sized, rfl⟩ := fresh
  have two : 2 ≤ clampNumbufs numbufs := by
    unfold clampNumbufs maxNumBufs
    split
    · exact Nat.le_refl 2
    · split <;> omega
  have allocated : decide (blocksize ≠ 0) = true := decide_eq_true (by omega)
  have ring : ∀ old : Ring, let r := old.realloc (clampNumbufs numbufs) true
      r.inbuf = 0 ∧ r.outbuf = -1 ∧ r.filled = [] ∧ Allocated (clampNumbufs numbufs) r ∧
        ∀ x, x < clampNumbufs numbufs → r.idx x = 0 := by
    intro old
    refine ⟨rfl, rfl, rfl, fun x inside => ?_, fun x inside => ?_⟩
    · simp [Ring.realloc, Ring.clear, inside]
    · simp [Ring.realloc, Ring.clear, inside]
  simp only [reallocbufs, allocated, Bool.and_self, Bool.not_true, Bool.and_false,
    Bool.false_eq_true, ↓reduceIte]
  refine ⟨?_, two, sized, ?_⟩
  · obtain ⟨hdlc, fcs, mtp2, linear, looped, quiet, busyTone, noEvent, rxhdlc, txhdlc, infcs⟩ := unused
    exact ⟨hdlc, fcs, mtp2, linear, looped, quiet, busyTone, noEvent, rxhdlc, txhdlc, infcs⟩
  · rintro r (rfl | rfl)
    · exact ring _
    · exact ring _

theorem fresh_sender {c : Chan T} (fresh : Fresh env mode c) : SenderOk env c := by
  obtain ⟨unused, two, _, ring⟩ := fresh_rings fresh
  obtain ⟨inn, out, filled, allocated, _⟩ := ring _ (Or.inr rfl)
  refine ⟨two, allocated, ?_, ⟨unused.hdlc, unused.looped, unused.quiet⟩, unused.fcs, unused.mtp2,
    unused.linear, unused.busyTone, unused.noEvent, ?_, ?_, ?_⟩
  · rw [inn, out, filled]
    exact valid_start (by omega)
  · simp [filled]
  · simp [filled]
  · simp [filled]

theorem fresh_receiver {c : Chan T} (fresh : Fresh env mode c) :
    ReceiverOk env c ∧ collected c = ([], []) := by
  obtain ⟨unused, two, sized, ring⟩ := fresh_rings fresh
  obtain ⟨inn, out, filled, allocated, zero⟩ := ring _ (Or.inl rfl)
  have first : c.read.idx 0 = 0 := zero 0 (by omega)
  have none : underWay c.read = [] := by
    unfold underWay
    rw [inn, if_neg (by omega), Int.toNat_zero, first]
    rfl
  refine ⟨⟨two, sized, allocated, ?_, unused.hdlc, unused.fcs, unused.mtp2, unused.linear,
    unused.noEvent, fun x inside _ _ => zero x inside, ?_, ?_⟩, ?_⟩
  · rw [inn, out, filled]
    exact valid_start (by omega)
  · intro _
    rw [inn, Int.toNat_zero, first]
    exact ⟨Int.le_refl 0, sized⟩
  · rw [none]
    exact unused.infcs
  · rw [collected, none, contents, filled]
    rfl

theorem link_start (start : (linkSystem env mode).start l) : LinkOk env l := by
  obtain ⟨freshA, freshB, written, reads, idle, chunks⟩ := start
  obtain ⟨receiver, empty⟩ := fresh_receiver freshB
  obtain ⟨unusedA, _, _, ring⟩ := fresh_rings freshA
  obtain ⟨unusedB, _⟩ := fresh_rings freshB
  obtain ⟨_, _, filled, _⟩ := ring _ (Or.inr rfl)
  have queue : contents l.a.write = [] := by
    rw [contents, filled]
    rfl
  have nothing : gathered [] l.b = ([], []) := empty
  refine ⟨⟨[], 0, [], ⟨fresh_sender freshA, receiver, ?_, ?_, ?_, fun _ => nothing, ?_, ?_, ?_⟩, ?_, ?_, ?_⟩,
    fun _ => queue⟩
  · rw [unusedA.txhdlc, unusedB.rxhdlc]
    exact linked_init mode
  · rw [unusedA.txhdlc]
    simp [fasthdlcInit]
  · rw [unusedA.txhdlc]
    exact Or.inr ⟨rfl, queue⟩
  · rw [queue, nothing, written]
    rfl
  · intro _
    rw [nothing, written, unusedA.txhdlc]
    exact ⟨0, ⟨[], 0, rfl, fun _ => Nat.le_refl 0, rfl⟩, by simp [fasthdlcInit]⟩
  · simp [written]
  · omega
  · rw [idle, Nat.mul_zero]
  · rw [reads]
    exact .nil

/-- A frame written is owed after all the others. -/
theorem owes_write {queue frames : List (List Octet)} {k : Nat} {c : Collected} {syms : List Sym}
    (owes : Owes queue k c syms frames) (unloaded : queue = [] → k = 0) (f : List Octet) :
    Owes (queue ++ [f]) k c syms (frames ++ [f]) := by
  cases queue with
  | nil =>
    obtain rfl := unloaded rfl
    exact ⟨frames, owes, rfl⟩
  | cons g rest =>
    obtain ⟨done, collected, whole⟩ := owes
    refine ⟨done, collected, ?_⟩
    rw [← whole]
    simp

theorem progress_none {a : Chan T} (sender : SenderOk env a) (empty : contents a.write = []) :
    progress a.write = 0 := by
  have filled : a.write.filled = [] := List.map_eq_nil_iff.mp empty
  exact progress_zero sender.valid (by simp [filled])

theorem write_starts {a : Chan T} (sender : SenderOk env a) : chanWriteStart env a =
    (if 0 ≤ a.write.inbuf then a.write.inbuf else -eagain, a) := by
  unfold chanWriteStart
  simp only [sender.busyTone, Bool.false_and, Bool.false_eq_true, ↓reduceIte, sender.noEvent,
    ne_eq, not_true_eq_false]
  split <;> rfl

theorem write_taken {a : Chan T} (linear : a.flags.linear = false) (usr : List Octet) :
    usr.take (writeAmnt a usr).toNat = writeData a usr := by
  simp only [writeData, linear, Bool.false_eq_true, ↓reduceIte]

theorem write_run (ok : LinkOk env l) (usr : List Octet) (opened : 0 < l.chunks)
    (size : 3 ≤ writeAmnt l.a usr) (short : writeAmnt l.a usr < l.b.blocksize) :
    ∃ l', linkWrite env l usr = some l' ∧ LinkOk env l' := by
  obtain ⟨⟨got, idle, syms, coupled, heard, waited, reads⟩, quiet⟩ := ok
  have sender := coupled.sender
  unfold linkWrite
  split
  · exact ⟨l, rfl, ⟨got, idle, syms, coupled, heard, waited, reads⟩, quiet⟩
  rw [write_starts sender]
  by_cases free : 0 ≤ l.a.write.inbuf
  · obtain ⟨a', written, sender', queue, started, txhdlc⟩ :=
      write_spec sender free (by omega : 0 < writeAmnt l.a usr)
    simp only [if_pos free, if_neg (by omega : ¬ l.a.write.inbuf < 0), written, Option.map_some]
    refine ⟨_, rfl, ⟨got, 0, syms, ⟨sender', coupled.receiver, ?_, ?_, Or.inl (heard opened),
      coupled.fresh, ?_, ?_, ?_⟩, heard, Nat.le_refl 0, reads⟩, fun idled => ?_⟩
    · rw [txhdlc]
      exact coupled.linked
    · rw [txhdlc]
      exact coupled.room
    · simp only [queue, started, List.map_append, List.map_cons, List.map_nil,
        write_taken sender.linear]
      exact owes_write coupled.owes (progress_none sender) _
    · intro none
      simp only [queue] at none
      simp at none
    · intro f member
      rw [List.map_append, List.mem_append, List.map_singleton, List.mem_singleton] at member
      rcases member with old | rfl
      · exact coupled.checked f old
      · have length := write_data_plain sender.linear usr
        rw [write_taken sender.linear]
        refine ⟨_, rfl, by omega, ?_⟩
        simp only
        omega
    · exact absurd idled (Nat.lt_irrefl 0)
  · simp only [if_neg free]
    rw [if_pos (by decide)]
    exact ⟨l, rfl, ⟨got, idle, syms, coupled, heard, waited, reads⟩, quiet⟩

theorem read_run (ok : LinkOk env l) (count : Nat) :
    ∃ l', linkRead l count = some l' ∧ LinkOk env l' := by
  obtain ⟨⟨got, idle, syms, coupled, heard, waited, reads⟩, quiet⟩ := ok
  have receiver := coupled.receiver
  unfold linkRead
  split
  · exact ⟨l, rfl, ⟨got, idle, syms, coupled, heard, waited, reads⟩, quiet⟩
  have start : chanReadStart l.b = if 0 ≤ l.b.read.outbuf then l.b.read.outbuf else -eagain := by
    unfold chanReadStart
    rw [if_neg (not_not.mpr receiver.noEvent)]
  simp only [start]
  by_cases held : 0 ≤ l.b.read.outbuf
  · obtain ⟨f, b', committed, taken, receiver', kept, rxhdlc, blocksize⟩ :=
      read_spec receiver held count
    simp only [if_pos held, if_neg (by omega : ¬ l.b.read.outbuf < 0), committed, Option.map_some]
    have same : gathered (got ++ [f]) b' = gathered got l.b := by
      rw [gathered, gathered, taken, kept, List.append_assoc]
      rfl
    refine ⟨_, rfl, ⟨got ++ [f], idle, syms, ⟨coupled.sender, receiver', ?_, coupled.room, ?_, ?_, ?_, ?_,
      ?_⟩, ?_, waited, ?_⟩, quiet⟩
    · rw [rxhdlc]
      exact coupled.linked
    · rw [rxhdlc]
      exact coupled.ready
    · rw [rxhdlc, same]
      exact coupled.fresh
    · rw [same]
      exact coupled.owes
    · rw [same]
      exact coupled.settling
    · rw [blocksize]
      exact coupled.checked
    · rw [rxhdlc]
      exact heard
    · exact List.rel_append reads (.cons rfl .nil)
  · simp only [if_neg held]
    rw [if_pos (by decide)]
    exact ⟨l, rfl, ⟨got, idle, syms, coupled, heard, waited, reads⟩, quiet⟩

theorem nothing_queued {a : Chan T} (sender : SenderOk env a) :
    a.write.outbuf < 0 ↔ contents a.write = [] := by
  constructor
  · intro none
    rw [contents, valid_none sender.valid none]
    rfl
  · intro empty
    by_contra held
    obtain ⟨rest, filled⟩ := valid_head sender.valid (by omega)
    rw [contents, filled] at empty
    simp at empty

theorem chunk_runs (residue : FcsResidue env) (ok : LinkOk env l) :
    ∃ l', linkChunk env l = some l' ∧ (0 ≤ l'.b.read.inbuf → LinkOk env l') := by
  obtain ⟨⟨got, idle, syms, coupled, heard, waited, reads⟩, quiet⟩ := ok
  obtain ⟨txb, a', b', sent, received, later⟩ := chunk_run residue coupled
  have moved : linkChunk env l = some { l with
      a := a'
      b := b'
      idle := if l.a.write.outbuf < 0 then l.idle + 1 else 0
      chunks := l.chunks + 1 } := by
    simp only [linkChunk, sent, received]
  refine ⟨_, moved, fun room => ?_⟩
  obtain ⟨blocksize, idle', syms', coupled', opened, counted⟩ := later room
  refine ⟨⟨got, idle', syms', coupled', fun _ => opened, ?_, reads⟩, ?_⟩
  · simp only
    split
    · rename_i none
      rw [(counted ((nothing_queued coupled.sender).mp none)).1]
      simp only [chunksize] at waited ⊢
      omega
    · exact Nat.zero_le _
  · simp only
    intro idled
    split at idled
    · rename_i none
      exact (counted ((nothing_queued coupled.sender).mp none)).2
    · exact absurd idled (Nat.lt_irrefl 0)

theorem link_step (residue : FcsResidue env) (ok : LinkOk env l) {event : Event}
    (fits : Fits env l event) (step : linkStep env l event = some l') : LinkOk env l' := by
  cases event with
  | write usr =>
    obtain ⟨opened, size, short⟩ := fits
    obtain ⟨after, written, ok'⟩ := write_run ok usr opened size short
    obtain rfl := Option.some.inj (written.symm.trans step)
    exact ok'
  | chunk =>
    obtain ⟨after, moved, ok'⟩ := chunk_runs residue ok
    obtain rfl := Option.some.inj (moved.symm.trans step)
    exact ok' (fits _ moved)
  | read count =>
    obtain ⟨after, took, ok'⟩ := read_run ok count
    obtain rfl := Option.some.inj (took.symm.trans step)
    exact ok'

theorem link_run (residue : FcsResidue env)
    (reached : Reach (linkSystem env mode) (Fits env) l) : LinkOk env l :=
  @invariant_run _ _ _ _ (LinkOk env) (fun _ start => link_start start)
    (fun _ _ _ ok fits step => link_step residue ok fits step) l reached

theorem link_moves (residue : FcsResidue env) (ok : LinkOk env l) {event : Event}
    (fits : Fits env l event) : ∃ l', linkStep env l event = some l' := by
  cases event with
  | write usr =>
    obtain ⟨opened, size, short⟩ := fits
    obtain ⟨after, written, _⟩ := write_run ok usr opened size short
    exact ⟨after, written⟩
  | chunk =>
    obtain ⟨after, moved, _⟩ := chunk_runs residue ok
    exact ⟨after, moved⟩
  | read count =>
    obtain ⟨after, took, _⟩ := read_run ok count
    exact ⟨after, took⟩

/-- Chunks after which the receiver has every symbol of the last frame. -/
def settleChunks : Nat := 19

/-- Once the transmitter has been idle that long every frame has come up. -/
theorem coupled_settled {a b : Chan T} {got frames : List (List Octet)} {idle : Nat}
    {syms : List Sym} (coupled : Coupled env a b got frames idle syms)
    (empty : contents a.write = []) (settled : chunksize * settleChunks ≤ idle) :
    got ++ contents b.read = frames := by
  obtain ⟨flags, ⟨front, j, split, enough, whole⟩, bound⟩ := coupled.settling empty
  have nonneg := (linked_count coupled.linked).1
  have short := linked_length coupled.linked coupled.room
  have length := congrArg List.length split
  rw [List.length_append, List.length_replicate] at length
  have flagged : 4 ≤ flags := by
    by_contra few
    have := bound (by omega)
    simp only [chunksize, settleChunks] at settled
    omega
  have none : front = [] := by
    by_contra some
    have := enough some
    omega
  rw [none] at whole
  exact (Prod.mk.inj whole).1

/-- The frames written come up in order, each once and with its frame check, as
    far as the reads had room; no event is queued, and no step gets stuck. -/
theorem data_link_lossless (env : Env T) (residue : FcsResidue env) (mode : Mode) {l : Link T}
    (reached : Reach (linkSystem env mode) (Fits env) l) :
    (∃ got later, l.written.map (withFcs env) = got ++ later ∧
      List.Forall₂ (fun r f => r.2 = f.take r.1) l.reads got ∧
      (settleChunks ≤ l.idle → l.b.read.outbuf < 0 → later = [])) ∧
    (l.a.eventinidx = l.a.eventoutidx ∧ l.b.eventinidx = l.b.eventoutidx) ∧
    ∀ event, Fits env l event → ∃ l', linkStep env l event = some l' := by
  have ok := link_run residue reached
  refine ⟨?_, ?_, fun event fits => link_moves residue ok fits⟩
  · obtain ⟨⟨got, idle, syms, coupled, _, waited, reads⟩, quiet⟩ := ok
    obtain ⟨⟨rest, whole⟩, _⟩ := owes_follows coupled.owes
    refine ⟨got, contents l.b.read ++ rest, ?_, reads, fun settled none => ?_⟩
    · rw [← whole, gathered, List.append_assoc]
    · have empty := quiet (by rw [settleChunks] at settled; omega)
      have all := coupled_settled coupled empty (by rw [chunksize] at waited ⊢; omega)
      have unread : contents l.b.read = [] := by
        rw [contents, valid_none coupled.receiver.valid none]
        rfl
      rw [← all, gathered] at whole
      rw [unread, List.append_right_eq_self.mp whole]
      rfl
  · obtain ⟨_, _, _, coupled, _⟩ := ok.coupled
    exact ⟨coupled.sender.noEvent, coupled.receiver.noEvent⟩

end Runs

/-- A byte of the PPP check, x^16 + x^12 + x^5 + 1 low bit first. -/
def ccittShift (v : BitVec 16) : BitVec 16 := if v.getLsbD 0 then (v >>> 1) ^^^ 0x8408#16 else v >>> 1

def ccittTable (c : Octet) : BitVec 16 := ccittShift^[8] (c.setWidth 16)

def crcCcittByte (crc : BitVec 16) (c : Octet) : BitVec 16 :=
  (crc >>> 8) ^^^ ccittTable (crc.setWidth 8 ^^^ c)

theorem ccitt_residue (crc : BitVec 16) :
    crcCcittByte (crcCcittByte crc ((crc ^^^ 0xffff#16).setWidth 8))
      (((crc ^^^ 0xffff#16) >>> 8).setWidth 8) = 0xf0b8#16 := by
  have low : crc.setWidth 8 ^^^ (crc ^^^ 0xffff#16).setWidth 8 = 0xff#8 := by
    rw [BitVec.setWidth_xor, ← BitVec.xor_assoc, BitVec.xor_self, BitVec.zero_xor]
    rfl
  have first : crcCcittByte crc ((crc ^^^ 0xffff#16).setWidth 8) = (crc >>> 8) ^^^ ccittTable 0xff#8 := by
    rw [crcCcittByte, low]
  have high : ((crc >>> 8) ^^^ ccittTable 0xff#8).setWidth 8 ^^^
      ((crc ^^^ 0xffff#16) >>> 8).setWidth 8 = (ccittTable 0xff#8).setWidth 8 ^^^ 0xff#8 := by
    rw [BitVec.ushiftRight_xor_distrib, BitVec.setWidth_xor, BitVec.setWidth_xor]
    rw [BitVec.xor_comm ((crc >>> 8).setWidth 8), BitVec.xor_assoc,
      ← BitVec.xor_assoc ((crc >>> 8).setWidth 8), BitVec.xor_self, BitVec.zero_xor]
    rfl
  have gone : (crc >>> 8) >>> 8 = 0#16 := by
    rw [← BitVec.shiftRight_add]
    exact BitVec.ushiftRight_eq_zero (by decide)
  rw [first, crcCcittByte, high, BitVec.ushiftRight_xor_distrib, gone]
  decide

/-- The kernel's PPP_FCS, and no tones. -/
def pppEnv : Env Unit :=
  { silentEnv with
    pppFcs := fun fcs c => (crcCcittByte (fcs.setWidth 16) c).setWidth 32
    pppInitfcs := 0xffff#32
    pppGoodfcs := 0xf0b8#32 }

theorem ppp_residue : FcsResidue pppEnv := by
  intro data
  have narrow : ∃ crc : BitVec 16, fcsOver pppEnv pppEnv.pppInitfcs data = crc.setWidth 32 := by
    rcases List.eq_nil_or_concat data with rfl | ⟨front, c, rfl⟩
    · exact ⟨0xffff#16, rfl⟩
    · refine ⟨crcCcittByte ((fcsOver pppEnv pppEnv.pppInitfcs front).setWidth 16) c, ?_⟩
      rw [List.concat_eq_append, fcsOver, List.foldl_append]
      rfl
  obtain ⟨crc, checksum⟩ := narrow
  have low : ((crc.setWidth 32) ^^^ 0xffff#32).setWidth 8 = (crc ^^^ 0xffff#16).setWidth 8 := by
    rw [BitVec.setWidth_xor, BitVec.setWidth_xor, BitVec.setWidth_setWidth_of_le _ (by decide)]
    rfl
  have high : (((crc.setWidth 32) ^^^ 0xffff#32) >>> 8).setWidth 8 =
      ((crc ^^^ 0xffff#16) >>> 8).setWidth 8 := by
    have shifted : ((crc.setWidth 32) >>> 8).setWidth 8 = (crc >>> 8).setWidth 8 := by
      ext i inside
      have below : 8 + i < 32 := by omega
      simp [below]
    rw [BitVec.ushiftRight_xor_distrib, BitVec.ushiftRight_xor_distrib, BitVec.setWidth_xor,
      BitVec.setWidth_xor, shifted]
    rfl
  have same : ((crc.setWidth 32).setWidth 16 : BitVec 16) = crc := by
    rw [BitVec.setWidth_setWidth_of_le _ (by decide), BitVec.setWidth_eq]
  rw [fcsBytes, checksum, low, high, fcsOver, List.foldl_append]
  rw [fcsOver] at checksum
  rw [checksum]
  change (crcCcittByte (((crcCcittByte ((crc.setWidth 32).setWidth 16) _).setWidth 32).setWidth 16) _).setWidth
    32 = _
  rw [same, BitVec.setWidth_setWidth_of_le _ (by decide), BitVec.setWidth_eq, ccitt_residue]
  rfl

/-- A channel in 64 kbit/s HDLC mode with two buffers of sixteen bytes. -/
def hdlcChan : Chan Unit :=
  { zeroChan with
    flags := { zeroChan.flags with hdlc := true, fcs := true }
    infcs := 0xffff#32 }

def hdlcFresh : Chan Unit := (reallocbufs hdlcChan 16 2 true true).2

def linkStart : Link Unit := ⟨hdlcFresh, hdlcFresh, [], [], 0, 0⟩

theorem link_start_starts : (linkSystem pppEnv .mode64).start linkStart := by
  have fresh : Fresh pppEnv .mode64 hdlcFresh :=
    ⟨hdlcChan, 16, 2, ⟨rfl, rfl, rfl, rfl, rfl, rfl, rfl, rfl, rfl, rfl, rfl⟩, by decide, rfl⟩
  exact ⟨fresh, fresh, rfl, rfl, rfl, rfl⟩

/-- A run in which every step fits. -/
def follow (env : Env T) : List Event → Link T → Option (Link T)
  | [], l => some l
  | .write usr :: rest, l =>
    if 0 < l.chunks ∧ 3 ≤ writeAmnt l.a usr ∧ writeAmnt l.a usr < l.b.blocksize then
      (linkWrite env l usr).bind (follow env rest)
    else none
  | .chunk :: rest, l =>
    (linkChunk env l).bind fun l => if 0 ≤ l.b.read.inbuf then follow env rest l else none
  | .read count :: rest, l => (linkRead l count).bind (follow env rest)

theorem follow_reach {env : Env T} {mode : Mode} {events : List Event} {l l' : Link T}
    (reached : Reach (linkSystem env mode) (Fits env) l) (followed : follow env events l = some l') :
    Reach (linkSystem env mode) (Fits env) l' := by
  induction events generalizing l with
  | nil =>
    obtain rfl := Option.some.inj followed
    exact reached
  | cons event rest ih =>
    cases event with
    | write usr =>
      simp only [follow] at followed
      split at followed
      · rename_i fits
        obtain ⟨m, step, later⟩ := Option.bind_eq_some_iff.mp followed
        exact ih (.step reached (l := .write usr) fits step) later
      · cases followed
    | chunk =>
      simp only [follow] at followed
      obtain ⟨m, step, later⟩ := Option.bind_eq_some_iff.mp followed
      split at later
      · rename_i room
        refine ih (.step reached (l := .chunk) ?_ step) later
        intro m' step'
        obtain rfl := Option.some.inj (step.symm.trans step')
        exact room
      · cases later
    | read count =>
      obtain ⟨m, step, later⟩ := Option.bind_eq_some_iff.mp followed
      exact ih (.step reached (l := .read count) trivial step) later

theorem data_link_lossless_once : ∃ l, Reach (linkSystem pppEnv .mode64) (Fits pppEnv) l ∧
    l.reads = [(10, withFcs pppEnv [0x7e, 0xff, 0, 0])] := by
  obtain ⟨l, followed, logs⟩ := Option.map_eq_some_iff.mp
    (by decide +kernel : (follow pppEnv [.chunk, .write [0x7e, 0xff, 0, 0], .chunk, .chunk, .chunk, .read 10]
      linkStart).map (fun l => (l.written, l.reads.map Prod.fst)) = some ([[0x7e, 0xff, 0, 0]], [10]))
  obtain ⟨written, rooms⟩ := Prod.mk.inj logs
  have reached := follow_reach (.start link_start_starts) followed
  obtain ⟨⟨got, later, whole, reads, _⟩, _⟩ := data_link_lossless pppEnv ppp_residue .mode64 reached
  refine ⟨l, reached, ?_⟩
  rw [written, List.map_cons, List.map_nil] at whole
  generalize l.reads = log at rooms reads ⊢
  match log, got, reads with
  | [(room, data)], f :: got, .cons taken rest =>
    obtain rfl : room = 10 := List.head_eq_of_cons_eq rooms
    obtain rfl := (List.cons.inj whole).1
    have size := with_fcs_length pppEnv [0x7e, 0xff, 0, 0]
    simp only at taken
    rw [taken, List.take_of_length_le (by rw [size]; decide)]

end DataLink
