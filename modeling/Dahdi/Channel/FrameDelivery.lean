import Dahdi.Channel.OctetEffects

/-!
A frame that starts behind a hunting receiver arrives in the buffer the channel
is filling, and the buffer is handed over.
-/
namespace FrameDelivery
open Channel RingContents HdlcOctets HdlcEffects OnesRun Fasthdlc FasthdlcTables FasthdlcLink
open FasthdlcRounds FasthdlcResync
variable {T : Type} {env : Env T} {mode : Mode}

/-- The octets of a list, as the start of a stream. -/
def streamOf (os : List Octet) : Nat → Octet := fun n => os.getD n 0

def lineOf (mode : Mode) (os : List Octet) : List Bool := os.flatMap (lineBits mode)

theorem line_length (os : List Octet) : (lineOf mode os).length = minbitsOf mode * os.length := by
  induction os with
  | nil => rfl
  | cons o os ih =>
    simp only [lineOf, List.flatMap_cons, List.length_append, line_bits_length, List.length_cons]
    rw [lineOf] at ih
    rw [ih, Nat.mul_succ, Nat.add_comm]

theorem line_of_stream (os : List Octet) (n : Nat) (inside : n ≤ os.length) :
    slice (lineStream mode (streamOf os)) 0 (minbitsOf mode * n) = lineOf mode (os.take n) := by
  induction n with
  | zero => rfl
  | succ n ih =>
    have joined := @slice_append (lineStream mode (streamOf os)) 0 (minbitsOf mode * n) (minbitsOf mode)
    rw [Nat.zero_add, line_slice, ih (by omega)] at joined
    rw [Nat.mul_succ, ← joined, List.take_add_one, List.getElem?_eq_getElem (by omega)]
    simp only [lineOf, streamOf, List.flatMap_append, Option.toList_some, List.flatMap_cons,
      List.flatMap_nil, List.append_nil, List.getD_eq_getElem _ _ (show n < os.length by omega)]

/-- A stretch of the line, found in the stream. -/
theorem line_segment {os : List Octet} {front middle back : List Bool}
    (line : lineOf mode os = front ++ middle ++ back) :
    slice (lineStream mode (streamOf os)) front.length middle.length = middle := by
  have whole := @line_of_stream mode os os.length (Nat.le_refl _)
  rw [List.take_length, ← line_length, line, List.append_assoc, List.length_append,
    List.length_append] at whole
  rw [← slice_append, ← slice_append] at whole
  have rest := List.append_inj whole (slice_length _ _)
  rw [Nat.zero_add] at rest
  exact (List.append_inj rest.2 (slice_length _ _)).1

/-- A channel that has stored the first k bytes of a frame since it stood at c0. -/
structure Storing (env : Env T) (c0 c : Chan T) (f : List Octet) (k : Nat) : Prop where
  flags : c.flags = c0.flags
  blocksize : c.blocksize = c0.blocksize
  numbufs : c.numbufs = c0.numbufs
  inbuf : c.read.inbuf = c0.read.inbuf
  idx : c.read.idx c0.read.inbuf.toNat = k
  room : (k : Int) < c0.blocksize
  bytes : ∃ buf, c.read.buf c0.read.inbuf.toNat = some buf ∧ bytesOf buf 0 k = f.take k
  check : c.infcs = fcsOver env env.pppInitfcs (f.take k)
  others : ∀ x, x ≠ c0.read.inbuf.toNat → c.read.buf x = c0.read.buf x
  ready : c.read.n = c0.read.n ∧ c.read.filled = c0.read.filled ∧ c.read.outbuf = c0.read.outbuf
  events : c.eventbuf = c0.eventbuf ∧ c.eventinidx = c0.eventinidx ∧
    c.eventoutidx = c0.eventoutidx ∧ c.alarms = c0.alarms

/-- The symbols still expected when k bytes of the frame are stored. -/
def Left (f : List Octet) (k : Nat) (syms : List Sym) : Prop :=
  ∃ a, syms = List.replicate a .flag ++ ((f.drop k).map .octet ++ [.flag]) ∧ k ≤ f.length ∧
    (a = 0 ∨ k = 0)

/-- The frame stands in the ring as the last one handed over. -/
def Delivered (c0 c : Chan T) (f : List Octet) : Prop :=
  c.read.filled = c0.read.filled ++ [c0.read.inbuf.toNat] ∧
    frameAt c.read c0.read.inbuf.toNat = f ∧
    ∀ x, x ≠ c0.read.inbuf.toNat → frameAt c.read x = frameAt c0.read x

/-- A frame the channel has nothing against: not empty and well checked. -/
structure Takes (env : Env T) (c : Chan T) (f : List Octet) : Prop where
  hdlc : c.flags.hdlc = true
  mtp2 : c.flags.mtp2 = false
  free : 0 ≤ c.read.inbuf
  some : f ≠ []
  good : c.flags.fcs = true → fcsOver env env.pppInitfcs f = env.pppGoodfcs

section Storing
variable {c0 c : Chan T} {f : List Octet} {k : Nat} {o : Octet} {h : State}

theorem storing_deframed (storing : Storing env c0 c f k) (h : State) :
    Storing env c0 { c with rxhdlc := h } f k :=
  ⟨storing.flags, storing.blocksize, storing.numbufs, storing.inbuf, storing.idx, storing.room,
    storing.bytes, storing.check, storing.others, storing.ready, storing.events⟩

theorem storing_room (takes : Takes env c0 f) (storing : Storing env c0 c f k) :
    c.flags.hdlc = true ∧ c.read.idx c.read.inbuf.toNat < c.blocksize ∧
      c.read.idx c.read.inbuf.toNat = k := by
  have short := storing.room
  have here := storing.idx
  rw [storing.flags, storing.inbuf, storing.blocksize]
  exact ⟨takes.hdlc, by omega, here⟩

theorem store_nothing (takes : Takes env c0 f) (storing : Storing env c0 c f k)
    {result : RxResult} (run : deframed c o = Option.some (result, h))
    (quiet : result = .empty ∨ (result = .complete ∨ result = .discard) ∧ k = 0) :
    rxOctet env c o = Option.some { c with rxhdlc := h } := by
  obtain ⟨hdlc, room, here⟩ := storing_room takes storing
  rcases quiet with rfl | ⟨ended, none⟩
  · exact octet_empty hdlc room run
  · exact octet_ignored hdlc room ended run (by omega)

theorem store_byte (takes : Takes env c0 f) (storing : Storing env c0 c f k) (more : k < f.length)
    (fits : (k : Int) + 1 < c0.blocksize) (run : deframed c o = Option.some (.data f[k], h)) :
    ∃ c', rxOctet env c o = Option.some c' ∧ Storing env c0 c' f (k + 1) ∧ c'.rxhdlc = h := by
  obtain ⟨hdlc, room, here⟩ := storing_room takes storing
  obtain ⟨buf, present, bytes⟩ := storing.bytes
  have size := storing.blocksize
  have taken : f.take (k + 1) = f.take k ++ [f[k]] := List.take_succ_eq_append_getElem more
  have received := @octet_data T env c o h hdlc room f[k] buf run
    (by rw [storing.inbuf]; exact present) (by omega)
  refine ⟨_, received, ⟨storing.flags, size, storing.numbufs, storing.inbuf, ?_, by omega, ?_, ?_, ?_,
    storing.ready, storing.events⟩, rfl⟩
  · rw [storing.inbuf] at here ⊢
    simp only [set_same, here]
    omega
  · rw [storing.inbuf] at here ⊢
    refine ⟨_, set_same _ _ _, ?_⟩
    rw [here, Int.toNat_natCast, bytes_snoc, Nat.zero_add, set_same, taken, ← bytes]
    congr 1
    exact bytes_congr fun i _ before => set_other _ _ (by omega)
  · simp only [storing.check, taken, fcsOver, List.foldl_append, List.foldl_cons, List.foldl_nil]
  · intro x other
    rw [storing.inbuf]
    simp only [set_other _ _ other]
    exact storing.others x other

theorem store_frame (takes : Takes env c0 f) (storing : Storing env c0 c f f.length)
    (run : deframed c o = Option.some (.complete, h)) :
    ∃ c', rxOctet env c o = Option.some c' ∧ Delivered c0 c' f := by
  obtain ⟨hdlc, room, here⟩ := storing_room takes storing
  obtain ⟨buf, present, bytes⟩ := storing.bytes
  obtain ⟨ready, filled, _⟩ := storing.ready
  have long := List.length_pos_iff.mpr takes.some
  have check := storing.check
  rw [List.take_length] at check bytes
  have received := @octet_frame T env c o h hdlc room run (by omega)
    (by rw [storing.flags]; exact takes.mtp2)
    (by rw [storing.flags, check]; exact takes.good)
  rw [storing.inbuf] at here received
  refine ⟨_, received, ?_, ?_, ?_⟩
  · simp only [Ring.handOver, filled, Int.toNat_natCast]
  · simp only [frameAt, Ring.handOver, present, Option.getD_some, set_same, here, Int.toNat_natCast,
      bytes]
  · intro x other
    simp only [frameAt, Ring.handOver, storing.others x other, set_other _ _ other, ready]

end Storing

/-- A channel after n octets, with the frame on its way. -/
structure Coming (env : Env T) (mode : Mode) (os : List Octet) (sent : Sent) (f : List Octet)
    (c0 c : Chan T) (n : Nat) : Prop where
  stored : ∃ k p fresh syms, Storing env c0 c f k ∧ Left f k syms ∧
    (fresh = true → k = 0) ∧ @Between mode (streamOf os) c.rxhdlc n p ∧
    Ahead (lineStream mode (streamOf os)) sent fresh c.rxhdlc p syms

/-- Octet n has returned the byte that fills the buffer; behind it the deframer
    holds the bits from p on. -/
structure Spilled (env : Env T) (mode : Mode) (os : List Octet) (sent : Sent) (f : List Octet)
    (c0 c c' : Chan T) (n p : Nat) (h : State) : Prop where
  stored : ∃ k, Storing env c0 c f k ∧ (k : Int) + 1 = c0.blocksize ∧ ∃ more : k < f.length,
    ∃ q ones, Reads (lineStream mode (streamOf os)) sent q ones ((f.drop k).map .octet ++ [.flag]) ∧
      p = q + (symBits ones (.octet f[k])).length ∧ q + 10 ≤ minbitsOf mode * (n + 1) ∧
      minbitsOf mode * n < q + 10
  spilled : overruns c (streamOf os n) = true
  received : rxOctet env c (streamOf os n) = some c'
  registers : c'.rxhdlc = { h with state := 0, bits := 0 }
  between : @Between mode (streamOf os) h (n + 1) p

theorem left_some {f : List Octet} {k : Nat} {syms : List Sym} (left : Left f k syms) : syms ≠ [] := by
  obtain ⟨a, rfl, _⟩ := left
  simp

/-- What one more octet does while the frame is coming. -/
inductive Outcome (env : Env T) (mode : Mode) (os : List Octet) (sent : Sent) (f : List Octet)
    (c0 c c' : Chan T) (n : Nat) : Prop where
  | coming (further : Coming env mode os sent f c0 c' (n + 1))
  | delivered (frame : Delivered c0 c' f) (fits : (f.length : Int) < c0.blocksize)
      (enough : sent.last + 2 ≤ minbitsOf mode * (n + 1))
  | spilled (p : Nat) (h : State) (spilled : Spilled env mode os sent f c0 c c' n p h)

theorem coming_step {os : List Octet} {sent : Sent} {n : Nat} {f : List Octet} {c0 c : Chan T}
    (takes : Takes env c0 f) (coming : Coming env mode os sent f c0 c n) :
    ∃ c', rxOctet env c (streamOf os n) = some c' ∧ Outcome env mode os sent f c0 c c' n := by
  obtain ⟨k, p, fresh, syms, storing, left, none, between, ahead⟩ := coming.stored
  obtain ⟨result, h', p', fresh', syms', run, next, got, further, begun⟩ :=
    octet_ahead between (left_some left) ahead
  have idle (quiet : result = .empty ∨ (result = .complete ∨ result = .discard) ∧ k = 0)
      (left' : Left f k syms') (none' : fresh' = true → k = 0) :
      ∃ c', rxOctet env c (streamOf os n) = some c' ∧ Outcome env mode os sent f c0 c c' n :=
    ⟨_, store_nothing takes storing run quiet, .coming ⟨k, p', fresh', syms',
      storing_deframed storing h', left', none', next, further⟩⟩
  have symbol (s : Sym) (first : syms = s :: syms') (same : result = resultOf s)
      (open_ : fresh' = false) :
      ∃ c', rxOctet env c (streamOf os n) = some c' ∧ Outcome env mode os sent f c0 c c' n := by
    have value : result ≠ .empty := by
      rw [same]
      cases s <;> simp [resultOf]
    obtain ⟨q, ones, reads, ten, soon⟩ := begun value open_
    rw [first] at reads
    obtain ⟨_, later⟩ := reads_cons reads
    have place : p' = q + (symBits ones s).length := by
      cases further with
      | hunting => cases open_
      | tripped => cases open_
      | framed _ reads' =>
        obtain ⟨_, done, whole, place, _⟩ := reads'
        obtain ⟨_, done', whole', place', _⟩ := later
        have same := List.append_cancel_right (whole.symm.trans whole')
        rw [place', place, same]
    obtain ⟨a, rfl, most, either⟩ := left
    cases a with
    | succ a =>
      rw [List.replicate_succ, List.cons_append] at first
      obtain ⟨rfl, rfl⟩ := List.cons.inj first
      have zero : k = 0 := by omega
      exact idle (Or.inr ⟨Or.inl same, zero⟩) ⟨a, rfl, most, Or.inr zero⟩ (fun _ => zero)
    | zero =>
      rw [List.replicate_zero, List.nil_append] at first
      rcases Nat.lt_or_ge k f.length with more | all
      · rw [List.drop_eq_getElem_cons more, List.map_cons, List.cons_append] at first
        obtain ⟨rfl, rfl⟩ := List.cons.inj first
        rw [same] at run
        by_cases fits : (k : Int) + 1 < c0.blocksize
        · obtain ⟨c', received, storing', rx⟩ := store_byte takes storing more fits run
          refine ⟨c', received, .coming ⟨k + 1, p', fresh', _, storing', ⟨0, rfl, more, Or.inl rfl⟩, ?_, ?_, ?_⟩⟩
          · rw [open_]
            intro opened
            cases opened
          · rw [rx]
            exact next
          · rw [rx]
            exact further
        · obtain ⟨hdlc, room, here⟩ := storing_room takes storing
          obtain ⟨buf, present, _⟩ := storing.bytes
          have size := storing.blocksize
          have tight := storing.room
          have received := @octet_overrun T env c (streamOf os n) h' hdlc room f[k] buf run
            (by rw [storing.inbuf]; exact present) (by omega)
          have spills : overruns c (streamOf os n) = true := by
            have run' : deframed c (streamOf os n) = some (.data f[k], h') := run
            simp only [overruns, run', decide_eq_true_eq]
            omega
          refine ⟨_, received, .spilled p' h' ⟨⟨k, storing, by omega, more, q, ones, ?_, place, ten, soon⟩,
            spills, received, (abort_rxhdlc _ _ _).1, next⟩⟩
          rw [List.drop_eq_getElem_cons more, List.map_cons, List.cons_append]
          exact reads
      · obtain rfl : k = f.length := by omega
        rw [List.drop_length, List.map_nil, List.nil_append] at first
        obtain ⟨rfl, rfl⟩ := List.cons.inj first
        rw [same] at run
        obtain ⟨c', received, delivered⟩ := store_frame takes storing run
        have last := (reads_bits reads).2
        have flag : (wire ones [.flag]).length = 8 := rfl
        exact ⟨c', received, .delivered delivered storing.room (by omega)⟩
  cases got with
  | none => exact idle (Or.inl rfl) left none
  | opened =>
    apply idle (Or.inl rfl) left
    intro opened
    cases opened
  | trip => exact idle (Or.inr ⟨Or.inr rfl, none rfl⟩) left none
  | symbol s => exact symbol s rfl rfl rfl
  | later s => exact symbol s rfl rfl rfl

theorem octetwise_snoc {c c' c'' : Chan T} {os : List Octet} {o : Octet}
    (octets : Octetwise env c os c' []) (hdlc : c'.flags.hdlc = true) (free : 0 ≤ c'.read.inbuf)
    (room : c'.read.idx c'.read.inbuf.toNat < c'.blocksize) (received : rxOctet env c' o = some c'') :
    Octetwise env c (os ++ [o]) c'' [] := by
  generalize nothing : ([] : List Octet) = dropped at octets
  induction octets with
  | done c => exact .step hdlc free room received (.done c'')
  | full c os none =>
    subst nothing
    exact .step hdlc free room received (.done c'')
  | step hdlc' free' room' received' rest ih =>
    subst nothing
    exact .step hdlc' free' room' received' (ih hdlc free room received rfl)

/-- How the octets of a frame from the m-th on end: handed over, or an overrun at
    some octet. -/
inductive Ending (env : Env T) (mode : Mode) (os : List Octet) (m : Nat) (sent : Sent) (f : List Octet)
    (c : Chan T) : Prop where
  | delivered (n : Nat) (later : m ≤ n) (inside : n < os.length) (last : Chan T)
      (octets : Octetwise env c ((os.take (n + 1)).drop m) last []) (frame : Delivered c last f)
      (fits : (f.length : Int) < c.blocksize) (enough : sent.last + 2 ≤ minbitsOf mode * (n + 1))
  | spilled (n : Nat) (later : m ≤ n) (inside : n < os.length) (p : Nat) (h : State)
      (before last : Chan T) (octets : Octetwise env c ((os.take (n + 1)).drop m) last [])
      (spilled : Spilled env mode os sent f c before last n p h)

/-- Octets that reach two bits past the closing flag bring the frame to its end. -/
theorem frame_ends {os : List Octet} {m : Nat} {sent : Sent} {f : List Octet} {c : Chan T}
    (takes : Takes env c f) (coming : Coming env mode os sent f c c m) (inside : m ≤ os.length)
    (late : sent.last + 2 ≤ minbitsOf mode * os.length) : Ending env mode os m sent f c := by
  have run (k : Nat) (inside : m + k ≤ os.length) : Ending env mode os m sent f c ∨
      ∃ c', Octetwise env c ((os.take (m + k)).drop m) c' [] ∧
        Coming env mode os sent f c c' (m + k) := by
    induction k with
    | zero =>
      refine Or.inr ⟨c, ?_, coming⟩
      rw [Nat.add_zero, List.drop_eq_nil_of_le (by rw [List.length_take]; omega)]
      exact .done c
    | succ k ih =>
      rcases ih (by omega) with done | ⟨c', octets, here⟩
      · exact Or.inl done
      · obtain ⟨_, _, _, _, storing, _⟩ := here.stored
        obtain ⟨hdlc, room, _⟩ := storing_room takes storing
        obtain ⟨c'', received, next⟩ := coming_step takes here
        have free : 0 ≤ c'.read.inbuf := by
          rw [storing.inbuf]
          exact takes.free
        have further := octetwise_snoc octets hdlc free room received
        have taken : (os.take (m + k)).drop m ++ [streamOf os (m + k)] =
            (os.take (m + k + 1)).drop m := by
          rw [List.take_succ_eq_append_getElem (show m + k < os.length by omega), streamOf,
            List.getD_eq_getElem _ _ (show m + k < os.length by omega),
            List.drop_append_of_le_length (by rw [List.length_take]; omega)]
        rw [taken] at further
        cases next with
        | coming coming' => exact Or.inr ⟨c'', further, coming'⟩
        | delivered frame fits enough =>
          exact Or.inl (.delivered (m + k) (by omega) inside c'' further frame fits enough)
        | spilled p h spilled =>
          exact Or.inl (.spilled (m + k) (by omega) inside p h c' c'' further spilled)
  rcases run (os.length - m) (by omega) with done | ⟨c', _, here⟩
  · exact done
  · rw [show m + (os.length - m) = os.length by omega] at here
    obtain ⟨k, p, fresh, syms, _, left, none, between, ahead⟩ := here.stored
    refine absurd (ahead_finished between ahead ?_ late) (left_some left)
    intro open_
    have long := List.length_pos_iff.mpr takes.some
    obtain ⟨a, rfl, _, _⟩ := left
    rw [none open_, List.drop_zero]
    simp only [List.length_append, List.length_replicate, List.length_map, List.length_cons,
      List.length_nil]
    omega

end FrameDelivery
