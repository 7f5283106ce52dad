import Dahdi.Channel.HdlcOverrun
import Dahdi.Channel.HdlcPieces
import Dahdi.Hdlc.Silence

/-!
The same octets in chunks of any sizes: __putbuf_chunk called over and over
leaves what the octets leave one at a time, except for the mark of an overrun
of the whole ring.
-/
namespace ChunkedOctets
open Channel HdlcOctets HdlcEffects Fasthdlc HdlcOverrun
variable {T : Type} {env : Env T}

/-- The calls of a span that receives chunk after chunk. -/
def softDeliver (env : Env T) (c : Chan T) (chunks : List (List Octet)) : Option (Chan T) :=
  chunks.foldlM (fun c rxb => putbufChunk env (rxb.length + 1) c rxb) c

/-- A channel with its mark of a full ring set or not. -/
def marked (mark : Bool) (c : Chan T) : Chan T := { c with rxoverrun := mark }

theorem loop_marked (mark : Bool) (x : Nat) (c : Chan T) (o : Octet) :
    putbufHdlcLoop env x 1 (marked mark c) [o] =
      (putbufHdlcLoop env x 1 c [o]).map fun s => { s with ms := marked mark s.ms } := by
  simp only [putbufHdlcLoop, marked]
  cases fasthdlcRxRun (fasthdlcRxLoadNocheck c.rxhdlc o) with
  | none => rfl
  | some both =>
    obtain ⟨r, h⟩ := both
    cases r with
    | empty => rfl
    | complete =>
      by_cases none : c.read.idx x = 0
      · simp only [none, ↓reduceIte, Option.map_some]
      · by_cases good : c.infcs = env.pppGoodfcs
        · simp [none, good]
        · by_cases check : c.flags.fcs = true
          · simp [none, good, check]
          · simp [none, check]
    | discard =>
      by_cases none : c.read.idx x = 0
      · simp only [none, ↓reduceIte, Option.map_some]
      · simp only [none, ↓reduceIte, Option.map_some]
    | data y =>
      cases present : c.read.buf x with
      | none => simp only [putbufByte, present, Option.map_none]
      | some buf =>
        simp only [putbufByte, present]
        by_cases full : c.blocksize ≤ set c.read.idx x (c.read.idx x + 1) x
        · simp only [full, ↓reduceIte, Option.map_some]
          rfl
        · simp only [full, ↓reduceIte, Option.map_some]

theorem qevent_marked (mark : Bool) (c : Chan T) (event : Nat) :
    qevent (marked mark c) event = marked mark (qevent c event) := by
  unfold qevent marked
  split
  · rfl
  · split <;> rfl

theorem finish_marked (mark : Bool) (x : Nat) (s : Stopped T) :
    finishPass env x { s with ms := marked mark s.ms } = (finishPass env x s).map (marked mark) := by
  have aborted (c : Chan T) (abort : Nat) :
      putbufAbort env (marked mark c) x abort = marked mark (putbufAbort env c x abort) := by
    have same := qevent_marked mark { setReadIdx c x 0 with infcs := env.pppInitfcs } abort
    by_cases queues : (c.flags.isOpen && !c.alarms) = true
    · simp only [putbufAbort, setReadIdx, marked, queues, ↓reduceIte]
      exact same
    · simp only [putbufAbort, setReadIdx, marked, queues, Bool.false_eq_true, ↓reduceIte]
  have ended (c : Chan T) : putbufEof env (marked mark c) x = (putbufEof env c x).map (marked mark) := by
    by_cases signalling : c.flags.mtp2 = true
    · simp only [putbufEof, marked, signalling, ↓reduceIte]
      split <;> rfl
    · simp only [putbufEof, marked, signalling, Bool.false_eq_true, ↓reduceIte, Option.map_some]
  unfold finishPass
  rw [ended]
  cases s.eof with
  | false =>
    simp only [Bool.false_eq_true, ↓reduceIte, Option.map_some, aborted]
    split <;> rfl
  | true =>
    cases putbufEof env s.ms x with
    | none => rfl
    | some ms =>
      simp only [↓reduceIte, Option.map_some, aborted]
      split <;> rfl

theorem octet_marked {c c' : Chan T} {o : Octet} (hdlc : c.flags.hdlc = true)
    (room : c.read.idx c.read.inbuf.toNat < c.blocksize) (received : rxOctet env c o = some c')
    (mark : Bool) : rxOctet env (marked mark c) o = some (marked mark c') := by
  rw [rx_octet_eq hdlc room] at received
  have same := @rx_octet_eq T env (marked mark c) o hdlc room
  have first := @loop_marked T env mark c.read.inbuf.toNat c o
  change rxOctet env (marked mark c) o = (putbufHdlcLoop env c.read.inbuf.toNat 1 (marked mark c) [o]).bind
    (finishPass env c.read.inbuf.toNat) at same
  rw [same, first]
  cases stopped : putbufHdlcLoop env c.read.inbuf.toNat 1 c [o] with
  | none =>
    rw [stopped] at received
    cases received
  | some s =>
    rw [stopped, Option.bind_some] at received
    rw [Option.map_some, Option.bind_some, finish_marked, received, Option.map_some]

theorem octetwise_marked {c last : Chan T} {os dropped : List Octet}
    (octets : Octetwise env c os last dropped) (mark : Bool) :
    Octetwise env (marked mark c) os (marked mark last) dropped := by
  induction octets with
  | done c => exact .done _
  | full c os none => exact .full _ os none
  | step hdlc free room received rest ih =>
    exact .step hdlc free room (octet_marked hdlc room received mark) ih

theorem octetwise_append {c last : Chan T} {front back : List Octet}
    (octets : Octetwise env c (front ++ back) last []) :
    ∃ mid, Octetwise env c front mid [] ∧ Octetwise env mid back last [] := by
  induction front generalizing c with
  | nil => exact ⟨c, .done c, octets⟩
  | cons o front ih =>
    cases octets with
    | step hdlc free room received rest =>
      obtain ⟨mid, first, second⟩ := ih rest
      exact ⟨mid, .step hdlc free room received first, second⟩

theorem octetwise_trans {c mid last : Chan T} {front back : List Octet}
    (first : Octetwise env c front mid []) (second : Octetwise env mid back last []) :
    Octetwise env c (front ++ back) last [] := by
  generalize nothing : ([] : List Octet) = dropped at first
  induction first with
  | done c => exact second
  | full c os none =>
    subst nothing
    exact second
  | step hdlc free room received rest ih => exact .step hdlc free room received (ih second nothing)

/-- However the octets are cut into chunks. -/
theorem soft_octets {chunks : List (List Octet)} {c last : Chan T}
    (octets : Octetwise env c chunks.flatten last []) :
    ∃ mark, softDeliver env c chunks = some (marked mark last) := by
  induction chunks generalizing c last with
  | nil =>
    cases octets with
    | done => exact ⟨c.rxoverrun, rfl⟩
    | full => exact ⟨c.rxoverrun, rfl⟩
  | cons rxb chunks ih =>
    rw [List.flatten_cons] at octets
    obtain ⟨mid, first, second⟩ := octetwise_append octets
    obtain ⟨mark, rest⟩ := ih (octetwise_marked second false)
    have taken := putbuf_octets first (Nat.lt_succ_self _)
    refine ⟨mark, ?_⟩
    have chunk : putbufChunk env (rxb.length + 1) c rxb = some (marked false mid) := by
      simp only [putbufChunk, taken, ↓reduceIte, marked]
    rw [softDeliver, List.foldlM_cons, chunk]
    exact rest

end ChunkedOctets

/-!
The two ways a frame gets into the read ring of an HDLC channel: its line octets
through __putbuf_chunk, or its bytes in pieces through dahdi_hdlc_putbuf and
dahdi_hdlc_finish.
-/
namespace FramePaths
open Channel RingContents HdlcOctets HdlcEffects OnesRun ShiftRegister Fasthdlc FasthdlcTables
open FasthdlcLink FasthdlcRounds FasthdlcResync FasthdlcSilence FrameDelivery HdlcOverrun HdlcPieces
open ChunkedOctets RingInvariant
variable {T : Type} {env : Env T} {mode : Mode}

/-- The octets that bring a frame to a deframer which has taken others before them:
    to one in search of a flag behind two flags, to one between frames behind any
    number of flags. The last of the octets is the one that ends the frame. -/
structure Arrives (mode : Mode) (seen os f : List Octet) (flags : Nat) (lead rest : List Bool)
    (h : State) : Prop where
  line : lineOf mode (seen ++ os) = lead ++ (wire 0 (framed flags f) ++ rest)
  behind : 2 ≤ rest.length
  prompt : rest.length < 2 + minbitsOf mode
  opened : ∃ front, @Between mode (streamOf (seen ++ os)) h seen.length (List.length front) ∧
    (h.state = 0 ∧ (∃ g, lead = front ++ (g ++ (flagBits ++ flagBits)) ∧
        ∀ left right, g ≠ left ++ flagBits ++ right) ∨
      h.state = 1 ∧ h.ones = 0 ∧ lead = front)

/-- The bits of a frame up to its k-th octet. -/
def bitsTo (flags : Nat) (f : List Octet) (k : Nat) : Nat :=
  (wire 0 (List.replicate flags .flag ++ (f.take k).map .octet)).length

/-- Behind the octet that fills the buffer only zeros have been received when it is
    returned. -/
def ClearBehind (mode : Mode) (os f : List Octet) (flags lead blocksize : Nat) : Prop :=
  ∀ i, lead + bitsTo flags f blocksize ≤ i →
    i < minbitsOf mode * ((lead + bitsTo flags f (blocksize - 1) + 9) / minbitsOf mode + 1) →
    lineStream mode (streamOf os) i = false

/-- Nothing new to read, and OVERRUN queued. -/
def Rejected (c c' : Chan T) : Prop :=
  contents c'.read = contents c.read ∧ Queued c c'

/-- Both ways accept the frames that fit and reject the others. -/
def SameFrames (env : Env T) (c : Chan T) (chunks pieces : List (List Octet)) (f : List Octet) : Prop :=
  ∃ soft hard, softDeliver env c chunks = some soft ∧ hardDeliver c pieces = some hard ∧
    contents soft.read = contents hard.read ∧
    ((f.length : Int) ≤ c.blocksize → contents soft.read = contents c.read ++ [f]) ∧
    (c.blocksize < f.length → Rejected c soft ∧ Rejected c hard)

section Arrival
variable {seen os f : List Octet} {flags : Nat} {lead rest : List Bool} {c : Chan T}

/-- What is sent begins with flags before the leading bits end. -/
structure Opens (sent : Sent) (lead flags : Nat) (f : List Octet) : Prop where
  opened : ∃ extra, sent.whole = List.replicate extra .flag ++ framed flags f ∧
    sent.start + 8 * extra = lead

theorem flags_wire (extra : Nat) (syms : List Sym) :
    (wire 0 (List.replicate extra .flag ++ syms)).length = 8 * extra + (wire 0 syms).length := by
  induction extra with
  | zero => simp
  | succ extra ih =>
    have eight : flagBits.length = 8 := rfl
    rw [List.replicate_succ, List.cons_append, wire_flag, List.length_append, ih, eight]
    omega

theorem opens_last {sent : Sent} {lead : Nat} (opens : Opens sent lead flags f) :
    sent.last = lead + (wire 0 (framed flags f)).length := by
  obtain ⟨extra, whole, start⟩ := opens.opened
  rw [Sent.last, whole, flags_wire]
  omega

/-- Where the k-th octet of the frame begins. -/
theorem opens_place {stream : Nat → Bool} {sent : Sent} {lead q ones k : Nat}
    (opens : Opens sent lead flags f)
    (reads : Reads stream sent q ones ((f.drop k).map .octet ++ [.flag])) :
    q = lead + bitsTo flags f k := by
  obtain ⟨extra, whole, start⟩ := opens.opened
  obtain ⟨_, done, same, rfl, _⟩ := reads
  have cut : framed flags f = (List.replicate flags .flag ++ (f.take k).map .octet) ++
      ((f.drop k).map .octet ++ [.flag]) := by
    conv_lhs => rw [framed, ← List.take_append_drop k f, List.map_append]
    simp only [List.append_assoc]
  rw [whole, cut, ← List.append_assoc] at same
  rw [← List.append_cancel_right same, flags_wire, bitsTo]
  omega

theorem arrives_coming (idle : Idle env c) (arrives : Arrives mode seen os f flags lead rest c.rxhdlc) :
    ∃ sent, Opens sent lead.length flags f ∧
      Coming env mode (seen ++ os) sent f c c seen.length ∧
      sent.last + rest.length = minbitsOf mode * (seen ++ os).length := by
  have eight : flagBits.length = 8 := rfl
  have line := arrives.line
  have size := congrArg List.length line
  rw [line_length, @List.length_append _ lead, @List.length_append _ (wire 0 _)] at size
  obtain ⟨front, between, opened⟩ := arrives.opened
  rcases opened with ⟨searching, g, rfl, quiet⟩ | ⟨framed_, clear, rfl⟩
  · simp only [List.append_assoc] at line
    obtain ⟨overlapped, syms, left, ahead⟩ := flags_ahead line quiet searching
    have opens : Opens (sentBehind (front ++ g) flags f overlapped)
        (front ++ (g ++ (flagBits ++ flagBits))).length flags f := by
      simp only [List.length_append, eight]
      cases overlapped with
      | true => exact ⟨0, rfl, by simp only [sentBehind, ↓reduceIte, List.length_append]; omega⟩
      | false =>
        exact ⟨1, rfl, by
          simp only [sentBehind, Bool.false_eq_true, ↓reduceIte, List.length_append]
          omega⟩
    refine ⟨_, opens, ahead_coming idle.idx idle.present idle.check idle.sized left between ahead, ?_⟩
    rw [opens_last opens]
    omega
  · have opens : Opens ⟨lead.length, framed flags f⟩ lead.length flags f := ⟨0, rfl, rfl⟩
    have reads : Reads (lineStream mode (streamOf (seen ++ os))) ⟨lead.length, framed flags f⟩
        lead.length c.rxhdlc.ones (framed flags f) := by
      rw [clear]
      have segment := @line_segment mode (seen ++ os) lead (wire 0 (framed flags f)) rest
        (by simpa only [List.append_assoc] using line)
      exact ⟨segment, [], rfl, rfl, rfl⟩
    have left : Left f 0 (framed flags f) :=
      ⟨flags, by rw [List.drop_zero]; rfl, Nat.zero_le _, Or.inr rfl⟩
    refine ⟨_, opens, ahead_coming idle.idx idle.present idle.check idle.sized left between
      (.framed framed_ reads), ?_⟩
    rw [opens_last opens]
    omega

end Arrival

section Soft
variable {os f : List Octet} {sent : Sent} {c before last : Chan T} {n p : Nat} {h : State}

/-- Octets that return nothing leave a channel as it is, but for its deframer. -/
theorem silent_octets {P : State → Nat → Prop} (step : ∀ h n, P h n → n < os.length →
      ∃ h', fasthdlcRxRun (fasthdlcRxLoadNocheck h (streamOf os n)) = some (.empty, h') ∧ P h' (n + 1))
    (hdlc : c.flags.hdlc = true) (free : 0 ≤ c.read.inbuf)
    (room : c.read.idx c.read.inbuf.toNat < c.blocksize) (holds : P c.rxhdlc n) :
    ∃ h', Octetwise env c (os.drop n) { c with rxhdlc := h' } [] := by
  generalize left : os.length - n = k
  induction k generalizing c n with
  | zero =>
    rw [List.drop_eq_nil_of_le (by omega)]
    exact ⟨c.rxhdlc, .done c⟩
  | succ k ih =>
    have inside : n < os.length := by omega
    obtain ⟨h', run, next⟩ := step c.rxhdlc n holds inside
    obtain ⟨h'', rest⟩ := @ih { c with rxhdlc := h' } (n + 1) hdlc free room next (by omega)
    rw [streamOf, List.getD_eq_getElem _ _ inside] at run
    rw [List.drop_eq_getElem_cons inside]
    exact ⟨h'', .step hdlc free room (octet_empty hdlc room run) rest⟩

theorem delivered_contents (apart : c.read.inbuf.toNat ∉ c.read.filled) (frame : Delivered c last f) :
    contents last.read = contents c.read ++ [f] := by
  obtain ⟨filled, here, others⟩ := frame
  unfold contents
  rw [filled, List.map_append, List.map_cons, List.map_nil, here]
  congr 1
  apply List.map_congr_left
  intro x held
  apply others
  rintro rfl
  exact apart held

/-- The octet that fills the buffer empties it and queues OVERRUN. -/
theorem spilled_rejected (takes : Takes env c f) (apart : c.read.inbuf.toNat ∉ c.read.filled)
    (spilled : Spilled env mode os sent f c before last n p h) :
    Rejected c last ∧ last.flags = c.flags ∧ last.blocksize = c.blocksize ∧
      last.read.inbuf = c.read.inbuf ∧ last.read.idx c.read.inbuf.toNat = 0 := by
  obtain ⟨k, storing, _⟩ := spilled.stored
  obtain ⟨hdlc, room, _⟩ := storing_room takes storing
  have spills := spilled.spilled
  have received := spilled.received
  obtain ⟨ready, filled, _⟩ := storing.ready
  obtain ⟨eventbuf, eventinidx, eventoutidx, alarms⟩ := storing.events
  obtain ⟨buf, present, _⟩ := storing.bytes
  unfold overruns at spills
  split at spills
  · rename_i y g run
    rw [octet_overrun hdlc room run (by rw [storing.inbuf]; exact present)
      (of_decide_eq_true spills)] at received
    obtain rfl := Option.some.inj received
    generalize kept : ({ before with
      rxhdlc := { g with state := 0, bits := 0 }
      infcs := env.pppInitfcs
      read := { before.read with
        buf := set before.read.buf before.read.inbuf.toNat
          (some (set buf (before.read.idx before.read.inbuf.toNat).toNat y))
        idx := set (set (set before.read.idx before.read.inbuf.toNat
          (before.read.idx before.read.inbuf.toNat + 1)) before.read.inbuf.toNat 0)
          before.read.inbuf.toNat 0 } } : Chan T) = emptied
    have same : events emptied = events c := by
      rw [← kept]
      simp only [events, eventbuf, eventinidx, eventoutidx]
    have aborted : putbufAbort env { before with
        rxhdlc := { g with state := 0, bits := 0 }
        infcs := env.pppFcs before.infcs y
        read := { before.read with
          buf := set before.read.buf before.read.inbuf.toNat
            (some (set buf (before.read.idx before.read.inbuf.toNat).toNat y))
          idx := set (set before.read.idx before.read.inbuf.toNat
            (before.read.idx before.read.inbuf.toNat + 1)) before.read.inbuf.toNat 0 } }
        before.read.inbuf.toNat eventOverrun =
        if c.flags.isOpen && !c.alarms then qevent emptied eventOverrun else emptied := by
      rw [← storing.flags, ← alarms, ← kept]
      rfl
    have unread : contents emptied.read = contents c.read := by
      rw [← kept]
      refine contents_congr filled fun x held => ?_
      have other : x ≠ c.read.inbuf.toNat := by
        rintro rfl
        exact apart held
      rw [storing.inbuf]
      exact ⟨(set_other _ _ other).trans (storing.others x other), by rw [ready]⟩
    have fields : emptied.flags = c.flags ∧ emptied.blocksize = c.blocksize ∧
        emptied.read.inbuf = c.read.inbuf ∧ emptied.read.idx c.read.inbuf.toNat = 0 := by
      rw [← kept, ← storing.inbuf]
      exact ⟨storing.flags, storing.blocksize, rfl, set_same _ _ _⟩
    rw [aborted]
    split
    · rw [qevent_same]
      exact ⟨⟨unread, fun _ => ⟨1, Nat.le_refl 1, qevent_events same eventOverrun⟩⟩, fields⟩
    · rename_i shut
      exact ⟨⟨unread, fun queues => absurd queues shut⟩, fields⟩
  · cases spills

theorem reads_below {stream : Nat → Bool} {q ones : Nat} {syms : List Sym}
    (reads : Reads stream sent q ones syms) : ones < 5 := by
  obtain ⟨_, done, _, _, rfl⟩ := reads
  exact wire_ones_below (Nat.zero_lt_succ 4) done

/-- Where the channel goes on after the overrun: with an empty buffer, and nothing
    returned by the octets left. -/
theorem spilled_silent {P : State → Nat → Prop} (takes : Takes env c f)
    (apart : c.read.inbuf.toNat ∉ c.read.filled) (sized : 0 < c.blocksize)
    (spilled : Spilled env mode os sent f c before last n p h)
    (step : ∀ h i, P h i → i < os.length → ∃ h',
      fasthdlcRxRun (fasthdlcRxLoadNocheck h (streamOf os i)) = some (.empty, h') ∧ P h' (i + 1))
    (holds : P last.rxhdlc (n + 1)) :
    ∃ h', Octetwise env last (os.drop (n + 1)) { last with rxhdlc := h' } [] := by
  obtain ⟨_, flags, blocksize, inbuf, idx⟩ := spilled_rejected takes apart spilled
  refine silent_octets step ?_ ?_ ?_ holds
  · rw [flags]
    exact takes.hdlc
  · rw [inbuf]
    exact takes.free
  · rw [inbuf, blocksize, idx]
    exact sized

/-- Behind the closing flag of a frame whose last octet filled the buffer there are
    too few bits for another octet. -/
theorem tail_starved (takes : Takes env c f) (apart : c.read.inbuf.toNat ∉ c.read.filled)
    (sized : 0 < c.blocksize) (spilled : Spilled env mode os sent f c before last n p h)
    (length : (f.length : Int) = c.blocksize)
    (prompt : minbitsOf mode * os.length < sent.last + 2 + minbitsOf mode) :
    ∃ h', Octetwise env last (os.drop (n + 1)) { last with rxhdlc := h' } [] := by
  have width := minbits_bounds mode
  have registers := spilled.registers
  have same := spilled.between.mode
  obtain ⟨k, _, full, more, q, ones, reads, _, ten, _⟩ := spilled.stored
  have short : minbitsOf mode * os.length ≤ minbitsOf mode * (n + 1) + 17 := by
    have front := (sym_bits_length (reads_below reads) (.octet f[k])).2
    have eight : (wire (symOnes ones (.octet f[k])) [.flag]).length = 8 := rfl
    have whole := (reads_bits reads).2
    rw [List.drop_eq_getElem_cons more, List.drop_eq_nil_of_le (by omega), List.map_cons, List.map_nil,
      List.cons_append, List.nil_append, wire, List.length_append, eight] at whole
    omega
  refine @spilled_silent _ _ _ _ _ _ _ _ _ _ _ _
    (fun g i => ∃ loaded, Starved g loaded ∧ g.mode = mode ∧
      loaded + minbitsOf mode * (n + 1) = minbitsOf mode * i)
    takes apart sized spilled ?_ ⟨0, ?_, ?_, Nat.zero_add _⟩
  · rintro g i ⟨loaded, starved, mode', place⟩ inside
    have further := Nat.mul_le_mul_left (minbitsOf mode) (show i + 1 ≤ os.length from inside)
    have next : minbitsOf mode * (i + 1) = minbitsOf mode * i + minbitsOf mode := Nat.mul_succ _ _
    obtain ⟨g', run, after, kept⟩ := octet_starved starved (streamOf os i) (by rw [mode']; omega)
    refine ⟨g', run, _, after, kept.trans mode', ?_⟩
    rw [mode', next]
    omega
  · rw [registers]
    exact ⟨Int.le_refl 0, Int.le_refl 0, Nat.zero_le 17, Or.inl rfl⟩
  · rw [registers]
    exact same

/-- Where only zeros have been received behind the octet that fills the buffer, no
    flag is seen before the closing one. -/
theorem tail_calm (takes : Takes env c f) (apart : c.read.inbuf.toNat ∉ c.read.filled)
    (sized : 0 < c.blocksize) (spilled : Spilled env mode os sent f c before last n p h)
    (prompt : minbitsOf mode * os.length < sent.last + 2 + minbitsOf mode)
    (clear : ∀ i, p ≤ i → i < minbitsOf mode * (n + 1) → lineStream mode (streamOf os) i = false) :
    ∃ h', Octetwise env last (os.drop (n + 1)) { last with rxhdlc := h' } [] := by
  have width := minbits_bounds mode
  have registers := spilled.registers
  have between := spilled.between
  have inside := between.behind.inside
  obtain ⟨k, _, full, more, q, ones, reads, place, _, _⟩ := spilled.stored
  have data : h.data = 0 := by
    apply BitVec.eq_of_getMsbD_eq
    intro i _
    have none : (0 : BitVec 32).getMsbD i = false := by simp
    rw [between.behind.held.shown.bit i (by omega)]
    refine Eq.trans ?_ none.symm
    rcases Nat.lt_or_ge i (minbitsOf mode * (n + 1) - p) with early | late
    · rw [slice_get _ _ _ early]
      exact clear (p + i) (by omega) (by omega)
    · exact getD_of_length_le (by rw [slice_length]; exact late)
  have restarted : @Between mode (streamOf os) last.rxhdlc (n + 1) (minbitsOf mode * (n + 1)) := by
    rw [registers]
    refine ⟨⟨Nat.le_refl _, ?_, between.behind.ones, Or.inl rfl⟩, ?_, between.mode⟩
    · rw [Nat.sub_self]
      exact ⟨by rw [data]; exact shows_empty, rfl⟩
    · rw [Nat.sub_self]
      exact ⟨Nat.zero_le _, fun _ => Nat.zero_le _⟩
  have calm : Calm (lineStream mode (streamOf os)) (minbitsOf mode * os.length) last.rxhdlc
      (minbitsOf mode * (n + 1)) := by
    refine Or.inl ⟨by rw [registers], ?_⟩
    intro r after room
    rw [List.drop_eq_getElem_cons more, List.map_cons, List.cons_append] at reads
    obtain ⟨_, later⟩ := reads_cons reads
    obtain ⟨line, whole⟩ := reads_bits later
    exact no_flag_before (reads_below later) (f.drop (k + 1)) line (by omega) (by omega)
  refine @spilled_silent _ _ _ _ _ _ _ _ _ _ _ _
    (fun g i => ∃ p, @Between mode (streamOf os) g i p ∧
      Calm (lineStream mode (streamOf os)) (minbitsOf mode * os.length) g p)
    takes apart sized spilled ?_ ⟨_, restarted, calm⟩
  rintro g i ⟨p, here, calm⟩ inside
  obtain ⟨g', p', run, next, calm'⟩ := octet_calm here calm (Nat.mul_le_mul_left _ inside)
  exact ⟨g', run, p', next, calm'⟩

end Soft

section Whole
variable {seen os f : List Octet} {flags : Nat} {lead rest : List Bool} {c : Chan T}

/-- The octets of the frame up to one of them, and the others. -/
theorem octets_cut {n : Nat} (later : seen.length ≤ n) (inside : n < (seen ++ os).length) :
    ((seen ++ os).take (n + 1)).drop seen.length ++ (seen ++ os).drop (n + 1) = os := by
  have front : seen.length ≤ ((seen ++ os).take (n + 1)).length := by
    rw [List.length_take]
    omega
  rw [← List.drop_append_of_le_length front, List.take_append_drop, List.drop_left]

/-- The software path on any frame: it is handed over, or it fills the buffer. -/
theorem soft_path (idle : Idle env c) (arrives : Arrives mode seen os f flags lead rest c.rxhdlc)
    (some : f ≠ []) :
    ((f.length : Int) < c.blocksize ∧ ∃ last, Octetwise env c os last [] ∧
        contents last.read = contents c.read ++ [f]) ∨
      (c.blocksize ≤ f.length ∧
        ((f.length : Int) = c.blocksize ∨
          ClearBehind mode (seen ++ os) f flags lead.length c.blocksize.toNat →
        ∃ last, Octetwise env c os last [] ∧ Rejected c last)) := by
  have width := minbits_bounds mode
  have takes : FrameDelivery.Takes env c f :=
    ⟨idle.hdlc, idle.mtp2, idle.free, some, fun check => absurd check (by rw [idle.fcs]; decide)⟩
  obtain ⟨sent, opens, coming, whole⟩ := arrives_coming idle arrives
  have behind := arrives.behind
  have prompt := arrives.prompt
  have early : seen.length ≤ (seen ++ os).length := by
    rw [List.length_append]
    omega
  cases frame_ends takes coming early (by omega) with
  | delivered n later inside last octets frame fits enough =>
    have final : n + 1 = (seen ++ os).length := by
      have less : minbitsOf mode * (seen ++ os).length < minbitsOf mode * (n + 1 + 1) := by
        rw [Nat.mul_succ]
        omega
      have := Nat.lt_of_mul_lt_mul_left less
      omega
    have cut := octets_cut later inside
    rw [final, List.drop_length, List.append_nil, ← final] at cut
    rw [cut] at octets
    exact Or.inl ⟨fits, last, octets, delivered_contents idle.apart frame⟩
  | spilled n later inside p h before last octets spilled =>
    obtain ⟨k, _, full, more, q, ones, reads, place, ten, soon⟩ := spilled.stored
    refine Or.inr ⟨by omega, ?_⟩
    intro either
    have rejected := (spilled_rejected takes idle.apart spilled).1
    suffices silent : ∃ h', Octetwise env last ((seen ++ os).drop (n + 1)) { last with rxhdlc := h' } [] by
      obtain ⟨h', rest⟩ := silent
      have joined := octetwise_trans octets rest
      rw [octets_cut later inside] at joined
      exact ⟨_, joined, rejected⟩
    rcases either with length | clear
    · exact tail_starved takes idle.apart idle.sized spilled length (by omega)
    · refine tail_calm takes idle.apart idle.sized spilled (by omega) ?_
      have size : c.blocksize.toNat = k + 1 := by omega
      have begins := opens_place opens reads
      rw [List.drop_eq_getElem_cons more, List.map_cons, List.cons_append] at reads
      have ends := opens_place opens (reads_cons reads).2
      have octet : (q + 9) / minbitsOf mode = n :=
        Nat.div_eq_of_lt_le (by rw [Nat.mul_comm]; omega) (by rw [Nat.mul_comm]; omega)
      intro i low high
      apply clear i
      · rw [size]
        omega
      · rw [size, Nat.add_sub_cancel, ← begins, octet]
        exact high

/-- The paths agree where the frame is shorter than the buffer, and where it is
    longer, no piece of it is left and the overrun is clean. -/
theorem same_frames_when (idle : Idle env c)
    (arrives : Arrives mode seen os f flags lead rest c.rxhdlc) (some : f ≠ [])
    {chunks pieces : List (List Octet)} (octets : chunks.flatten = os) (bytes : pieces.flatten = f) :
    ((f.length : Int) < c.blocksize ∨ c.blocksize < f.length ∧ residue c.blocksize pieces = [] ∧
        ClearBehind mode (seen ++ os) f flags lead.length c.blocksize.toNat →
      SameFrames env c chunks pieces f) ∧
    (SameFrames env c chunks pieces f →
      (f.length : Int) < c.blocksize ∨ c.blocksize < f.length ∧ residue c.blocksize pieces = []) := by
  subst octets bytes
  obtain ⟨hard, finished, readable, refused⟩ := hard_delivered idle pieces
  have path := soft_path idle arrives some
  constructor
  · rintro (short | ⟨long, none, clear⟩)
    · rcases path with ⟨_, last, octets, joined⟩ | ⟨over_, _⟩
      · obtain ⟨mark, chunked⟩ := soft_octets octets
        rw [residue_fits _ (by omega), if_neg some] at readable
        refine ⟨_, hard, chunked, finished, joined.trans readable.symm, fun _ => joined, ?_⟩
        intro long
        omega
      · omega
    · rcases path with ⟨short, _⟩ | ⟨_, spilled⟩
      · omega
      · obtain ⟨last, octets, unread, queued⟩ := spilled (Or.inr clear)
        obtain ⟨mark, chunked⟩ := soft_octets octets
        rw [none, if_pos rfl, List.append_nil] at readable
        refine ⟨_, hard, chunked, finished, unread.trans readable.symm, fun fits => by omega, ?_⟩
        intro _
        exact ⟨⟨unread, queued⟩, readable, refused long⟩
  · rintro ⟨soft, hard', chunked, finished', same, accepted, rejected⟩
    obtain rfl := Option.some.inj (finished.symm.trans finished')
    rcases Int.lt_trichotomy pieces.flatten.length c.blocksize with short | equal | long
    · exact Or.inl short
    · rcases path with ⟨short, _⟩ | ⟨_, spilled⟩
      · exact Or.inl short
      · obtain ⟨last, octets, unread, _⟩ := spilled (Or.inl equal)
        obtain ⟨mark, chunked'⟩ := soft_octets octets
        obtain rfl := Option.some.inj (chunked.symm.trans chunked')
        have joined := (accepted (by omega)).symm.trans unread
        exact absurd joined (by simp)
    · refine Or.inr ⟨long, ?_⟩
      have nothing := (rejected long).2.1
      rw [readable] at nothing
      split at nothing
      · rename_i none
        exact none
      · exact absurd nothing (by simp)

/-- The short channel with the check of an empty frame. -/
def waitingChan : Chan Unit := { shortChan with infcs := silentEnv.pppInitfcs }

theorem waiting_chan_idle : Idle silentEnv waitingChan :=
  ⟨rfl, rfl, rfl, by decide, by decide, by decide, nofun, rfl, by decide⟩

/-- Two flags, one octet and its closing flag on a line of whole octets. -/
theorem waiting_chan_arrives : Arrives .mode64 [] [0x7e, 0x7e, 0x82, 0x7e, 0x7e] [0x41] 0
    (flagBits ++ flagBits) flagBits waitingChan.rxhdlc := by
  refine ⟨by decide, by decide, by decide, [], between_init, Or.inl ⟨rfl, [], rfl, ?_⟩⟩
  intro left right
  simp [flagBits]

theorem same_frames_octet :
    SameFrames silentEnv waitingChan [[0x7e, 0x7e], [0x82, 0x7e, 0x7e]] [[0x41]] [0x41] :=
  (same_frames_when waiting_chan_idle waiting_chan_arrives (by decide) rfl rfl).1 (Or.inl (by decide))

/-- Two octets fill a buffer of two bytes: the board's are read, those of the line
    are an overrun. -/
theorem full_frames_differ :
    ¬ ∀ os f flags lead rest, Arrives .mode64 [] os f flags lead rest waitingChan.rxhdlc → f ≠ [] →
      SameFrames silentEnv waitingChan [os] [f] f := by
  have unread : (softDeliver silentEnv waitingChan [[0x7e, 0x7e, 0x82, 0x42, 0x7e, 0x7e]]).map
      (fun c => contents c.read) = some [] := by decide +kernel
  have readable : (hardDeliver waitingChan [[0x41, 0x42]]).map (fun c => contents c.read) =
      some [[0x41, 0x42]] := by decide +kernel
  intro every
  have arrives : Arrives .mode64 [] [0x7e, 0x7e, 0x82, 0x42, 0x7e, 0x7e] [0x41, 0x42] 0
      (flagBits ++ flagBits) flagBits waitingChan.rxhdlc := by
    refine ⟨by decide, by decide, by decide, [], between_init, Or.inl ⟨rfl, [], rfl, ?_⟩⟩
    intro left right
    simp [flagBits]
  obtain ⟨soft, hard, chunked, finished, same, _⟩ := every _ _ _ _ _ arrives (by decide)
  rw [chunked, Option.map_some, Option.some.injEq] at unread
  rw [finished, Option.map_some, Option.some.injEq, ← same, unread] at readable
  cases readable

end Whole

end FramePaths
