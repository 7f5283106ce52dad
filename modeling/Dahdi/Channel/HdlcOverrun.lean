import Dahdi.Channel.FrameDelivery
import Dahdi.Channel.RingInvariant
import Dahdi.Library.GuardedRun

/-!
The receive register of a channel over any octets, through overruns. An overrun
forgets the bits held but not what they were; only when all of them are zero
does the register stay what the line says.
-/
namespace HdlcOverrun
open GuardedRun Channel RingInvariant HdlcOctets HdlcEffects OnesRun ShiftRegister Fasthdlc
open FasthdlcTables FasthdlcLink FasthdlcEntries FasthdlcRounds FasthdlcResync FrameDelivery
variable {T : Type}

/-- A channel, the line bits its deframer has been given, and whether the last
    octet overran the buffer. -/
structure Receiving (T : Type) where
  chan : Chan T
  bits : List Bool
  overran : Bool

inductive Event where
  | octet (o : Octet)
  | other
  deriving DecidableEq, Repr

/-- Octets taken one at a time, and anything else that leaves the deframer alone. -/
def receiveSystem (env : Env T) (mode : Mode) : System (Receiving T) Event where
  start s := s.chan.rxhdlc = fasthdlcInit mode ∧ s.chan.flags.hdlc = true ∧ s.bits = [] ∧
    s.overran = false
  step s event s' :=
    match event with
    | .octet o => 0 ≤ s.chan.read.inbuf ∧
        s.chan.read.idx s.chan.read.inbuf.toNat < s.chan.blocksize ∧
        rxOctet env s.chan o = some s'.chan ∧ s'.bits = s.bits ++ lineBits mode o ∧
        s'.overran = overruns s.chan o
    | .other => s'.chan.rxhdlc = s.chan.rxhdlc ∧ s'.chan.flags.hdlc = true ∧ s'.bits = s.bits ∧
        s'.overran = false

/-- No one bit has been received behind the octet that fills the buffer. -/
def OverrunClean (s : Receiving T) : Event → Prop
  | .octet o => ∀ r h, deframed s.chan o = some (r, h) → overruns s.chan o = true → h.data = 0
  | .other => True

/-- The register holds the last bits received, left-aligned, and zeros below. -/
def Consistent (s : Receiving T) : Prop :=
  ∃ taken pending, s.bits = taken ++ pending ∧ Holds s.chan.rxhdlc pending

def rxResults : State → List Octet → Option (List RxResult)
  | _, [] => some []
  | h, o :: os =>
    match fasthdlcRxRun (fasthdlcRxLoadNocheck h o) with
    | none => none
    | some (r, h) => (rxResults h os).map (r :: ·)

/-- From here on the deframer returns what a new one would return for the octets
    that follow. -/
def StartsOver (mode : Mode) (c : Chan T) : Prop :=
  ∀ os, rxResults c.rxhdlc os = rxResults (fasthdlcInit mode) os

/-- A frame between its flags. -/
def framed (flags : Nat) (f : List Octet) : List Sym :=
  List.replicate flags .flag ++ (f.map .octet ++ [.flag])

/-- Two flags or more, a frame and its closing flag behind bits with no flag among
    them. -/
structure NextFrame (mode : Mode) (os f : List Octet) (flags : Nat) (g rest : List Bool) : Prop where
  line : lineOf mode os = g ++ (flagBits ++ (flagBits ++ (wire 0 (framed flags f) ++ rest)))
  behind : 2 ≤ rest.length
  quiet : ∀ front back, g ≠ front ++ flagBits ++ back

/-- The next frame behind two flags is handed over as it was sent. -/
def DeliversNext (env : Env T) (mode : Mode) (c : Chan T) : Prop :=
  ∀ os f flags g rest, NextFrame mode os f flags g rest → f ≠ [] → (f.length : Int) < c.blocksize →
    c.flags.mtp2 = false → (c.flags.fcs = true → fcsOver env env.pppInitfcs f = env.pppGoodfcs) →
    ∃ front back last, os = front ++ back ∧ Octetwise env c front last [] ∧ Delivered c last f

section Alike

/-- The same registers, except for the count of ones while searching. -/
structure Alike (h g : State) : Prop where
  state : h.state = g.state
  data : h.data = g.data
  bits : h.bits = g.bits
  mode : h.mode = g.mode
  ones : h.state ≠ 0 → h.ones = g.ones

theorem alike_round {h g : State} (alike : Alike h g) :
    (rxRound h).1 = (rxRound g).1 ∧ Alike (rxRound h).2 (rxRound g).2 := by
  obtain ⟨state, data, bits, mode, ones⟩ := alike
  by_cases search : g.state = frameSearch
  · have search' : h.state = frameSearch := state.trans search
    rw [round_searching search, round_searching search', data, bits]
    exact ⟨rfl, rfl, rfl, rfl, mode, fun _ => rfl⟩
  · have search' : ¬ h.state = frameSearch := by rw [state]; exact search
    simp only [rxRound, search, search', ↓reduceIte, data, ones search']
    split
    · split
      · exact ⟨rfl, rfl, by simp only [rxEntryState, data], by simp only [rxEntryState, bits], mode,
          fun _ => rfl⟩
      · exact ⟨rfl, rfl, by simp only [rxEntryState, data], by simp only [rxEntryState, bits], mode,
          fun _ => rfl⟩
    · exact ⟨rfl, rfl, by simp only [rxEntryState, data], by simp only [rxEntryState, bits], mode,
        fun _ => rfl⟩

theorem alike_loop {rounds : Nat} {h g : State} (alike : Alike h g) :
    (fasthdlcRxLoop rounds h .empty = none ∧ fasthdlcRxLoop rounds g .empty = none) ∨
      ∃ r h' g', fasthdlcRxLoop rounds h .empty = some (r, h') ∧
        fasthdlcRxLoop rounds g .empty = some (r, g') ∧ Alike h' g' := by
  induction rounds generalizing h g with
  | zero => exact Or.inl ⟨rfl, rfl⟩
  | succ rounds ih =>
    have both : Ready h ↔ Ready g := by
      unfold Ready
      rw [alike.state, alike.bits]
    by_cases ready : Ready h
    · obtain ⟨same, next⟩ := alike_round alike
      rw [rx_loop_round ready, rx_loop_round (both.mp ready), same]
      by_cases none : (rxRound g).1 = .empty
      · rw [none]
        exact ih next
      · cases rounds with
        | zero => exact Or.inl ⟨rfl, rfl⟩
        | succ rounds =>
          rw [rx_loop_done none, rx_loop_done none]
          exact Or.inr ⟨_, _, _, rfl, rfl, next⟩
    · rw [rx_loop_idle ready, rx_loop_idle (by rw [← both]; exact ready)]
      exact Or.inr ⟨_, _, _, rfl, rfl, alike⟩

theorem alike_results {h g : State} (alike : Alike h g) (os : List Octet) :
    rxResults h os = rxResults g os := by
  induction os generalizing h g with
  | nil => rfl
  | cons o os ih =>
    have loaded : Alike (fasthdlcRxLoadNocheck h o) (fasthdlcRxLoadNocheck g o) := by
      rw [rx_load_state, rx_load_state, alike.data, alike.bits, alike.mode]
      exact ⟨alike.state, rfl, rfl, rfl, alike.ones⟩
    simp only [rxResults, fasthdlcRxRun]
    rcases @alike_loop 40 _ _ loaded with ⟨first, second⟩ | ⟨r, h', g', first, second, next⟩
    · rw [first, second]
    · rw [first, second]
      simp only [ih next]

end Alike

section Hunting
variable {mode : Mode} {os f : List Octet} {flags : Nat} {g rest : List Bool}

theorem wire_flag (ones : Nat) (syms : List Sym) : wire ones (.flag :: syms) = flagBits ++ wire 0 syms :=
  rfl

/-- A flag that begins inside the bits before the two flags shares its last bit
    with the first of them. -/
theorem early_flag {front back : List Bool}
    (line : lineOf mode os = front ++ (g ++ (flagBits ++ back)))
    (quiet : ∀ front back, g ≠ front ++ flagBits ++ back) {q : Nat}
    (flag : FlagAt (lineStream mode (streamOf os)) q) (after : front.length ≤ q)
    (early : q < front.length + g.length) : q + 7 = front.length + g.length := by
  have eight : flagBits.length = 8 := rfl
  have own : FlagAt (lineStream mode (streamOf os)) (front.length + g.length) := by
    have segment := @line_segment mode os (front ++ g) flagBits back
      (by simpa only [List.append_assoc] using line)
    rwa [List.length_append] at segment
  rcases Nat.lt_or_ge (front.length + g.length) (q + 8) with crossing | inside
  · have zeros : ∀ k < 8, 0 < k → flagBits.getD k false = false → k = 7 := by decide
    have bit := flag_bits own 0 (by omega)
    have here := flag_bits flag (front.length + g.length - q) (by omega)
    rw [show q + (front.length + g.length - q) = front.length + g.length + 0 by omega, bit] at here
    have last := zeros (front.length + g.length - q) (by omega) (by omega) here.symm
    omega
  · exfalso
    obtain ⟨k, rfl⟩ : ∃ k, q = front.length + k := ⟨q - front.length, by omega⟩
    apply quiet (g.take k) (g.drop (k + 8))
    have whole := @line_segment mode os front g (flagBits ++ back)
      (by simpa only [List.append_assoc] using line)
    have part : slice (lineStream mode (streamOf os)) (front.length + k) 8 = (g.drop k).take 8 := by
      have cut := @slice_append (lineStream mode (streamOf os)) front.length k
        (8 + (g.length - (k + 8)))
      rw [show k + (8 + (g.length - (k + 8))) = g.length by omega, whole, ← slice_append] at cut
      rw [← cut, List.drop_left' (slice_length _ _), List.take_left' (slice_length _ _)]
    rw [← show slice (lineStream mode (streamOf os)) (front.length + k) 8 = flagBits from flag, part,
      List.append_assoc, ← List.drop_drop, List.take_append_drop, List.take_append_drop]

/-- The symbols from the second flag on, or from the one behind it. -/
def sentBehind (g : List Bool) (flags : Nat) (f : List Octet) (overlapped : Bool) : Sent :=
  if overlapped then ⟨g.length + 16, framed flags f⟩ else ⟨g.length + 8, .flag :: framed flags f⟩

theorem sent_behind_last (overlapped : Bool) :
    (sentBehind g flags f overlapped).last = g.length + 16 + (wire 0 (framed flags f)).length := by
  have eight : flagBits.length = 8 := rfl
  cases overlapped with
  | true => rfl
  | false =>
    simp only [sentBehind, Bool.false_eq_true, ↓reduceIte, Sent.last, wire_flag, List.length_append, eight]
    omega

/-- Whatever precedes the two flags, the frame behind them is ahead. -/
theorem flags_ahead {front : List Bool}
    (line : lineOf mode os =
      front ++ (g ++ (flagBits ++ (flagBits ++ (wire 0 (framed flags f) ++ rest)))))
    (quiet : ∀ front back, g ≠ front ++ flagBits ++ back) {h : State} (searching : h.state = 0) :
    ∃ overlapped syms, Left f 0 syms ∧
      Ahead (lineStream mode (streamOf os)) (sentBehind (front ++ g) flags f overlapped) true h
        front.length syms := by
  have eight : flagBits.length = 8 := rfl
  have size : (front ++ g).length = front.length + g.length := List.length_append
  have found := @early_flag mode os g front _ line quiet
  rw [← size] at found
  generalize frame : wire 0 (framed flags f) = image at line
  have first : FlagAt (lineStream mode (streamOf os)) (front ++ g).length :=
    @line_segment mode os (front ++ g) flagBits _ (by simpa only [List.append_assoc] using line)
  have second : FlagAt (lineStream mode (streamOf os)) ((front ++ g).length + 8) := by
    have segment := @line_segment mode os (front ++ g ++ flagBits) flagBits (image ++ rest)
      (by simpa only [List.append_assoc] using line)
    rwa [@List.length_append _ (front ++ g), eight] at segment
  have last : slice (lineStream mode (streamOf os)) ((front ++ g).length + 16) image.length = image := by
    have segment := @line_segment mode os (front ++ g ++ flagBits ++ flagBits) image rest
      (by simpa only [List.append_assoc] using line)
    rwa [@List.length_append _ (front ++ g ++ flagBits), @List.length_append _ (front ++ g),
      eight, Nat.add_assoc] at segment
  rw [← frame] at last
  generalize front ++ g = behind at *
  by_cases early : ∃ q, front.length ≤ q ∧ q < behind.length ∧ FlagAt (lineStream mode (streamOf os)) q
  · obtain ⟨q, after, before, flag⟩ := early
    have place := found flag after before
    refine ⟨true, framed flags f, ⟨flags, by rw [List.drop_zero]; rfl, Nat.zero_le _, Or.inr rfl⟩, ?_⟩
    refine .hunting q searching after ?_ flag (Or.inr ⟨?_, ?_, ?_, last, [], rfl, ?_, rfl⟩)
    · intro i low less other
      have := found other low (by omega)
      omega
    · intro i inside
      rw [show q + 8 + i = behind.length + (1 + i) by omega, flag_bits first _ (by omega)]
      have ones : ∀ i < 6, flagBits.getD (1 + i) false = true := by decide
      exact ones i inside
    · rw [show q + 8 + 6 = behind.length + 7 by omega, flag_bits first 7 (by omega)]
      rfl
    · rw [show q + 8 + 7 = behind.length + 8 by omega]
      exact second
    · simp only [wire, List.length_nil, sentBehind, ↓reduceIte]
      omega
  · refine ⟨false, .flag :: framed flags f, ⟨flags + 1, by rw [List.drop_zero]; rfl, Nat.zero_le _, Or.inr rfl⟩, ?_⟩
    refine .hunting behind.length searching (by omega) ?_ first (Or.inl ⟨?_, [], rfl, rfl, rfl⟩)
    · intro i low less flag
      exact early ⟨i, low, less, flag⟩
    · simp only [sentBehind, Bool.false_eq_true, ↓reduceIte]
      rw [wire_flag, List.length_append, ← slice_append, eight,
        show behind.length + 8 + 8 = behind.length + 16 by omega, last,
        show slice (lineStream mode (streamOf os)) (behind.length + 8) 8 = flagBits from second]

theorem next_late (next : NextFrame mode os f flags g rest) (overlapped : Bool) :
    (sentBehind g flags f overlapped).last + rest.length = minbitsOf mode * os.length := by
  have eight : flagBits.length = 8 := rfl
  have size := congrArg List.length next.line
  simp only [line_length, List.length_append, eight] at size
  rw [sent_behind_last]
  omega

end Hunting

/-- The channel right after an overrun: nothing stored, the deframer searching. -/
structure Emptied (env : Env T) (mode : Mode) (c : Chan T) : Prop where
  free : 0 ≤ c.read.inbuf
  idx : c.read.idx c.read.inbuf.toNat = 0
  present : c.read.buf c.read.inbuf.toNat ≠ none
  check : c.infcs = env.pppInitfcs
  state : c.rxhdlc.state = 0
  held : Holds c.rxhdlc []
  ones : c.rxhdlc.ones < 5
  mode : c.rxhdlc.mode = mode

theorem emptied_starts_over {env : Env T} {mode : Mode} {c : Chan T} (emptied : Emptied env mode c) :
    StartsOver mode c := by
  have data : c.rxhdlc.data = 0 := by
    apply BitVec.eq_of_getMsbD_eq
    intro i inside
    rw [emptied.held.shown.bit i inside]
    simp
  intro os
  refine alike_results ⟨emptied.state, data, emptied.held.count, emptied.mode, ?_⟩ os
  intro framed
  exact absurd emptied.state framed

/-- A channel with nothing stored, and the frame ahead. -/
theorem ahead_coming {env : Env T} {mode : Mode} {c : Chan T} {os f : List Octet} {sent : Sent}
    {syms : List Sym} {fresh : Bool} {n p : Nat} (idx : c.read.idx c.read.inbuf.toNat = 0)
    (present : c.read.buf c.read.inbuf.toNat ≠ none) (check : c.infcs = env.pppInitfcs)
    (sized : 0 < c.blocksize) (left : Left f 0 syms)
    (between : @Between mode (streamOf os) c.rxhdlc n p)
    (ahead : Ahead (lineStream mode (streamOf os)) sent fresh c.rxhdlc p syms) :
    Coming env mode os sent f c c n := by
  obtain ⟨buf, present⟩ := Option.ne_none_iff_exists'.mp present
  exact ⟨0, p, fresh, syms, ⟨rfl, rfl, rfl, rfl, idx, sized, ⟨buf, present, rfl⟩, check,
    fun _ _ => rfl, ⟨rfl, rfl, rfl⟩, rfl, rfl, rfl, rfl⟩, left, fun _ => rfl, between, ahead⟩

theorem emptied_delivers {env : Env T} {mode : Mode} {c : Chan T} (emptied : Emptied env mode c)
    (hdlc : c.flags.hdlc = true) : DeliversNext env mode c := by
  intro os f flags g rest next some short mtp2 good
  have takes : Takes env c f := ⟨hdlc, mtp2, emptied.free, some, good⟩
  obtain ⟨overlapped, syms, left, ahead⟩ := @flags_ahead mode os f flags g rest [] next.line next.quiet
    c.rxhdlc emptied.state
  have late := next_late next overlapped
  have behind := next.behind
  have between : @Between mode (streamOf os) c.rxhdlc 0 0 :=
    ⟨⟨Nat.zero_le _, emptied.held, emptied.ones, Or.inl emptied.state⟩,
      ⟨Nat.zero_le _, fun _ => Nat.zero_le _⟩, emptied.mode⟩
  have coming := ahead_coming emptied.idx emptied.present emptied.check (by omega) left between ahead
  rw [List.nil_append] at coming
  cases frame_ends takes coming (Nat.zero_le _) (by omega) with
  | delivered n later inside last octets frame _ enough =>
    exact ⟨_, _, last, (List.take_append_drop (n + 1) os).symm, octets, frame⟩
  | spilled n later inside p h before last octets spilled =>
    obtain ⟨k, _, full, more, _⟩ := spilled.stored
    omega

section Run
variable {env : Env T} {mode : Mode}

/-- The bits received, as a stream. -/
def bitStream (bits : List Bool) : Nat → Bool := fun i => bits.getD i false

theorem bit_stream_slice (bits : List Bool) (p : Nat) :
    slice (bitStream bits) p (bits.length - p) = bits.drop p := by
  apply List.ext_getElem
  · rw [slice_length, List.length_drop]
  · intro i inside _
    rw [slice_length] at inside
    have bit := @slice_get (bitStream bits) p _ i inside
    rw [List.getD_eq_getElem _ _ (by rw [slice_length]; exact inside)] at bit
    rw [bit, List.getElem_drop, bitStream, List.getD_eq_getElem _ _ (by omega)]

/-- The register is the end of the bits received, and light. -/
structure Tuned (env : Env T) (mode : Mode) (s : Receiving T) : Prop where
  hdlc : s.chan.flags.hdlc = true
  width : s.chan.rxhdlc.mode = mode
  behind : ∃ p, Behind (bitStream s.bits) s.chan.rxhdlc p s.bits.length ∧
    Light s.chan.rxhdlc (s.bits.length - p)
  emptied : s.overran = true → Emptied env mode s.chan

theorem tuned_consistent {s : Receiving T} (tuned : Tuned env mode s) : Consistent s := by
  obtain ⟨p, behind, _⟩ := tuned.behind
  have held := behind.held
  rw [bit_stream_slice] at held
  exact ⟨s.bits.take p, s.bits.drop p, (List.take_append_drop p s.bits).symm, held⟩

/-- One run of the deframer on an octet more. -/
theorem behind_octet {bits : List Bool} {h : State} {p : Nat}
    (behind : Behind (bitStream bits) h p bits.length) (light : Light h (bits.length - p))
    (same : h.mode = mode) (o : Octet) :
    ∃ r h' p', fasthdlcRxRun (fasthdlcRxLoadNocheck h o) = some (r, h') ∧
      Behind (bitStream (bits ++ lineBits mode o)) h' p' (bits ++ lineBits mode o).length ∧
      Light h' ((bits ++ lineBits mode o).length - p') ∧ h'.mode = mode := by
  have width := minbits_bounds mode
  have inside := behind.inside
  obtain ⟨most, less⟩ := light
  have loaded := rx_load behind.held (by rw [slice_length, same]; omega) o
  have longer : (bits ++ lineBits mode o).length = bits.length + minbitsOf mode := by
    rw [List.length_append, line_bits_length]
  rw [bit_stream_slice, same, ← List.drop_append_of_le_length inside, ← bit_stream_slice] at loaded
  have state := rx_load_state h o
  have known : (fasthdlcRxLoadNocheck h o).state = h.state := by rw [state]
  have full : Behind (bitStream (bits ++ lineBits mode o)) (fasthdlcRxLoadNocheck h o) p
      (bits ++ lineBits mode o).length := by
    refine ⟨by omega, loaded, ?_, ?_⟩
    · rw [state]
      exact behind.ones
    · rw [known]
      exact behind.known
  obtain ⟨r, h', p', run, shown, _, light', mode'⟩ := @rx_loop_stops _ _ _ _ 40 full (by omega)
    (by omega) (by rw [known]; intro framed; have := less framed; omega)
  refine ⟨r, h', p', run, shown, light', ?_⟩
  rw [mode', state]
  exact same

theorem tuned_octet {s s' : Receiving T} {o : Octet} (tuned : Tuned env mode s)
    (clean : OverrunClean s (.octet o)) (step : (receiveSystem env mode).step s (.octet o) s') :
    Tuned env mode s' := by
  obtain ⟨free, room, received, bits, overran⟩ := step
  obtain ⟨p, behind, light⟩ := tuned.behind
  obtain ⟨flags, r, h, run, after⟩ := octet_rxhdlc tuned.hdlc room received
  obtain ⟨r', h', p', run', shown, light', mode'⟩ := behind_octet behind light tuned.width o
  obtain ⟨rfl, rfl⟩ := Prod.mk.inj (Option.some.inj (run.symm.trans run'))
  rw [← bits] at shown light'
  by_cases spilled : overruns s.chan o = true
  · rw [if_pos spilled] at after
    have data := clean r h run spilled
    obtain ⟨_, _, check, inbuf, _, idx, present⟩ := overrun_effect tuned.hdlc room received spilled
    have held : Holds s'.chan.rxhdlc [] := by
      rw [after]
      exact ⟨by rw [data]; exact shows_empty, rfl⟩
    have ones : s'.chan.rxhdlc.ones < 5 := by
      rw [after]
      exact shown.ones
    have state : s'.chan.rxhdlc.state = 0 := by rw [after]
    have mode'' : s'.chan.rxhdlc.mode = mode := by
      rw [after]
      exact mode'
    refine ⟨flags ▸ tuned.hdlc, mode'', ⟨s'.bits.length, ⟨Nat.le_refl _, ?_, ones, Or.inl state⟩, ?_⟩, ?_⟩
    · rw [Nat.sub_self]
      exact held
    · rw [Nat.sub_self]
      exact ⟨Nat.zero_le _, fun _ => Nat.zero_le _⟩
    · intro _
      rw [← inbuf] at idx present free
      exact ⟨free, idx, present, check, state, held, ones, mode''⟩
  · rw [if_neg spilled] at after
    rw [← after] at shown light' mode'
    refine ⟨flags ▸ tuned.hdlc, mode', ⟨p', shown, light'⟩, ?_⟩
    intro impossible
    rw [overran] at impossible
    exact absurd impossible spilled

theorem tuned_run {s : Receiving T} (reached : Reach (receiveSystem env mode) OverrunClean s) :
    Tuned env mode s := by
  refine @invariant_run _ _ _ _ (Tuned env mode) ?_ ?_ s reached
  · intro s ⟨rx, hdlc, bits, overran⟩
    refine ⟨hdlc, by rw [rx]; rfl, ⟨0, ⟨Nat.zero_le _, ?_, ?_, ?_⟩, ?_⟩, ?_⟩
    · rw [rx, bits]
      exact holds_init mode
    · rw [rx]
      exact Nat.zero_lt_succ 4
    · rw [rx]
      exact Or.inl rfl
    · rw [bits]
      exact ⟨Nat.zero_le _, fun _ => Nat.zero_le _⟩
    · intro impossible
      rw [overran] at impossible
      cases impossible
  · intro s event s' tuned clean step
    cases event with
    | octet o => exact tuned_octet tuned clean step
    | other =>
      obtain ⟨rx, hdlc, bits, overran⟩ := step
      refine ⟨hdlc, by rw [rx]; exact tuned.width, ?_, ?_⟩
      · rw [rx, bits]
        exact tuned.behind
      · intro impossible
        rw [overran] at impossible
        cases impossible

/-- One overrun with a one bit behind it is enough to spoil the register. -/
theorem stale_after_overrun {s s' : Receiving T} {o : Octet} (tuned : Tuned env mode s)
    (step : (receiveSystem env mode).step s (.octet o) s') (stale : ¬ OverrunClean s (.octet o)) :
    ¬ Consistent s' := by
  obtain ⟨_, room, received, _, _⟩ := step
  obtain ⟨_, r, h, run, after⟩ := octet_rxhdlc tuned.hdlc room received
  intro ⟨taken, pending, _, held⟩
  apply stale
  intro r' h' run' spilled
  obtain ⟨rfl, rfl⟩ := Prod.mk.inj (Option.some.inj (run.symm.trans run'))
  rw [if_pos spilled] at after
  rw [after] at held
  have none : pending = [] := by
    have count : (0 : Int) = pending.length := held.count
    exact List.eq_nil_of_length_eq_zero (by omega)
  apply BitVec.eq_of_getMsbD_eq
  intro i inside
  have bit := held.shown.bit i inside
  rw [none] at bit
  simpa using bit

/-- As long as every overrun leaves only zeros the register is what the line says,
    and after an overrun the next frame is found and handed over. -/
theorem receiver_consistent_run (env : Env T) (mode : Mode) {s : Receiving T}
    (reached : Reach (receiveSystem env mode) OverrunClean s) :
    Consistent s ∧
      (s.overran = true → StartsOver mode s.chan ∧ DeliversNext env mode s.chan) := by
  have tuned := tuned_run reached
  refine ⟨tuned_consistent tuned, ?_⟩
  intro overran
  have emptied := tuned.emptied overran
  exact ⟨emptied_starts_over emptied, emptied_delivers emptied tuned.hdlc⟩

end Run

section Chunk
variable {env : Env T}

/-- A pass of the chunk loop is a number of single octets. -/
theorem pass_octets {left : Nat} {c c' last : Chan T} {os dropped : List Octet} {s : Stopped T}
    (hdlc : c.flags.hdlc = true) (free : 0 ≤ c.read.inbuf)
    (room : (left : Int) ≤ c.blocksize - c.read.idx c.read.inbuf.toNat)
    (loop : putbufHdlcLoop env c.read.inbuf.toNat left c os = some s)
    (finished : finishPass env c.read.inbuf.toNat s = some c') :
    c'.flags = c.flags ∧
      (Octetwise env c' s.rxb last dropped → Octetwise env c os last dropped) := by
  induction left generalizing c os with
  | zero =>
    obtain rfl : ⟨c, os, false, 0⟩ = s := by
      cases os <;> exact Option.some.inj loop
    rw [finish_going ⟨rfl, rfl⟩] at finished
    obtain rfl := Option.some.inj finished
    exact ⟨rfl, fun octets => octets⟩
  | succ left ih =>
    cases os with
    | nil =>
      obtain rfl : ⟨c, [], false, 0⟩ = s := Option.some.inj loop
      rw [finish_going ⟨rfl, rfl⟩] at finished
      obtain rfl := Option.some.inj finished
      exact ⟨rfl, fun octets => octets⟩
    | cons o os =>
      have inside : c.read.idx c.read.inbuf.toNat < c.blocksize := by omega
      have received := @rx_octet_eq T env c o hdlc inside
      rw [hdlc_loop_cut] at loop
      cases first : putbufHdlcLoop env c.read.inbuf.toNat 1 c [o] with
      | none =>
        rw [first] at loop
        cases loop
      | some s' =>
        rw [first] at loop received
        rw [Option.bind_some] at received
        dsimp only at loop
        split at loop
        · rename_i going
          obtain ⟨flags, inbuf, blocksize, more⟩ := first_octet_going first going
          rw [finish_going going] at received
          rw [← inbuf] at more room loop finished
          obtain ⟨flags', rest⟩ := ih (by rw [flags]; exact hdlc) (by omega)
            (by rw [blocksize]; omega) loop finished
          exact ⟨flags'.trans flags, fun octets => .step hdlc free inside received (rest octets)⟩
        · obtain rfl := Option.some.inj loop
          have same : finishPass env c.read.inbuf.toNat s' = some c' := finished
          rw [same] at received
          exact ⟨(octet_rxhdlc hdlc inside received).1,
            fun octets => .step hdlc free inside received octets⟩

/-- The chunk loop of __putbuf_chunk is octets received one after the other. -/
theorem loop_octets {fuel : Nat} {c last : Chan T} {os dropped : List Octet}
    (hdlc : c.flags.hdlc = true) (loop : putbufLoop env fuel c os = some (last, dropped)) :
    Octetwise env c os last dropped := by
  induction fuel generalizing c os with
  | zero => cases loop
  | succ fuel ih =>
    unfold putbufLoop at loop
    split at loop
    · rename_i none
      obtain ⟨rfl, rfl⟩ := Prod.mk.inj (Option.some.inj loop)
      rw [none]
      exact .done c
    · split at loop
      · rename_i free
        rw [hdlc_pass hdlc] at loop
        cases pass : putbufHdlcLoop env c.read.inbuf.toNat
            (min (c.blocksize - c.read.idx c.read.inbuf.toNat) os.length).toNat c os with
        | none =>
          rw [pass] at loop
          cases loop
        | some s =>
          rw [pass] at loop
          dsimp only at loop
          cases finished : finishPass env c.read.inbuf.toNat s with
          | none =>
            rw [finished] at loop
            cases loop
          | some c' =>
            rw [finished] at loop
            rcases Int.le_total 0 (c.blocksize - c.read.idx c.read.inbuf.toNat) with some | none
            · obtain ⟨flags, rest⟩ := @pass_octets T env _ c c' last os dropped s hdlc (by omega)
                (by omega) pass finished
              exact rest (ih (by rw [flags]; exact hdlc) loop)
            · rw [show (min (c.blocksize - c.read.idx c.read.inbuf.toNat) (os.length : Int)).toNat = 0
                by omega] at pass
              obtain rfl : ⟨c, os, false, 0⟩ = s := by
                cases os <;> exact Option.some.inj pass
              rw [finish_going ⟨rfl, rfl⟩] at finished
              obtain rfl := Option.some.inj finished
              exact ih hdlc loop
      · rename_i full
        obtain ⟨rfl, rfl⟩ := Prod.mk.inj (Option.some.inj loop)
        exact .full _ _ (by omega)

theorem octetwise_reach {mode : Mode} {c last : Chan T} {bits : List Bool} {overran : Bool}
    {os dropped : List Octet} (octets : Octetwise env c os last dropped)
    (reached : Reach (receiveSystem env mode) anyStep ⟨c, bits, overran⟩) :
    ∃ bits' overran', Reach (receiveSystem env mode) anyStep ⟨last, bits', overran'⟩ := by
  induction octets generalizing bits overran with
  | done => exact ⟨bits, overran, reached⟩
  | full => exact ⟨bits, overran, reached⟩
  | step hdlc free room received rest ih =>
    rename_i c c' last o os dropped
    have taken : (receiveSystem env mode).step ⟨c, bits, overran⟩ (.octet o)
        ⟨c', bits ++ lineBits mode o, overruns c o⟩ := ⟨free, room, received, rfl, rfl⟩
    exact ih (.step reached trivial taken)

theorem octetwise_hdlc {c last : Chan T} {os dropped : List Octet} (hdlc : c.flags.hdlc = true)
    (octets : Octetwise env c os last dropped) : last.flags.hdlc = true := by
  induction octets with
  | done => exact hdlc
  | full => exact hdlc
  | step hdlc' free room received rest ih =>
    exact ih (by rw [(octet_rxhdlc hdlc' room received).1]; exact hdlc')

/-- Whatever __putbuf_chunk leaves is reached octet by octet. -/
theorem chunk_reached {mode : Mode} {fuel : Nat} {c c' : Chan T} {bits : List Bool} {overran : Bool}
    {rxb : List Octet} (hdlc : c.flags.hdlc = true)
    (reached : Reach (receiveSystem env mode) anyStep ⟨c, bits, overran⟩)
    (chunk : putbufChunk env fuel c rxb = some c') :
    ∃ bits', Reach (receiveSystem env mode) anyStep ⟨c', bits', false⟩ := by
  unfold putbufChunk at chunk
  split at chunk
  · cases chunk
  · rename_i last dropped loop
    have octets := loop_octets hdlc loop
    have hdlc' := octetwise_hdlc hdlc octets
    obtain ⟨bits', overran', after⟩ := octetwise_reach octets reached
    have same : c'.rxhdlc = last.rxhdlc ∧ c'.flags = last.flags := by
      split at chunk
      · obtain rfl := Option.some.inj chunk
        exact ⟨rfl, rfl⟩
      · split at chunk
        · obtain rfl := Option.some.inj chunk
          exact ⟨rfl, rfl⟩
        · obtain rfl := Option.some.inj chunk
          unfold qevent
          split
          · split
            · exact ⟨rfl, rfl⟩
            · split <;> exact ⟨rfl, rfl⟩
          · exact ⟨rfl, rfl⟩
    have marked : (receiveSystem env mode).step ⟨last, bits', overran'⟩ .other ⟨c', bits', false⟩ :=
      ⟨same.1, by rw [same.2]; exact hdlc', rfl, rfl⟩
    exact ⟨bits', .step after trivial marked⟩

end Chunk

section Concrete

/-- Octets received as long as each passes a check. -/
def receive (env : Env T) (mode : Mode) (check : Receiving T → Octet → Bool) :
    List Octet → Receiving T → Option (Receiving T)
  | [], s => some s
  | o :: os, s =>
    if 0 ≤ s.chan.read.inbuf ∧ s.chan.read.idx s.chan.read.inbuf.toNat < s.chan.blocksize ∧
        check s o = true then
      match rxOctet env s.chan o with
      | none => none
      | some c => receive env mode check os ⟨c, s.bits ++ lineBits mode o, overruns s.chan o⟩
    else none

theorem receive_reach {env : Env T} {mode : Mode} {check : Receiving T → Octet → Bool}
    {guard : Receiving T → Event → Prop} (sound : ∀ s o, check s o = true → guard s (.octet o))
    {os : List Octet} {s s' : Receiving T} (reached : Reach (receiveSystem env mode) guard s)
    (followed : receive env mode check os s = some s') : Reach (receiveSystem env mode) guard s' := by
  induction os generalizing s with
  | nil =>
    obtain rfl := Option.some.inj followed
    exact reached
  | cons o os ih =>
    unfold receive at followed
    split at followed
    · rename_i ready
      split at followed
      · cases followed
      · rename_i c received
        exact ih (.step (l := .octet o) reached (sound s o ready.2.2)
          ⟨ready.1, ready.2.1, received, rfl, rfl⟩) followed
    · cases followed

def cleanly (s : Receiving T) (o : Octet) : Bool :=
  match deframed s.chan o with
  | none => true
  | some (_, h) => !overruns s.chan o || decide (h.data = 0)

theorem cleanly_sound (s : Receiving T) (o : Octet) (clean : cleanly s o = true) :
    OverrunClean s (.octet o) := by
  intro r h run spilled
  simpa [cleanly, run, spilled] using clean

/-- A channel with two buffers of two bytes. -/
def shortChan : Chan Unit :=
  (reallocbufs { zeroChan with flags := { zeroChan.flags with hdlc := true } } 2 2 true true).2

def shortStart : Receiving Unit := ⟨shortChan, [], false⟩

/-- Zeros behind the byte that fills the buffer do no harm. -/
theorem receiver_consistent_zeros :
    ∃ s, Reach (receiveSystem silentEnv .mode64) OverrunClean s ∧ s.overran = true ∧ Consistent s ∧
      DeliversNext silentEnv .mode64 s.chan := by
  obtain ⟨s, followed, overran⟩ := Option.map_eq_some_iff.mp
    (by decide +kernel : (receive silentEnv .mode64 cleanly [0x7e, 0, 0, 0] shortStart).map
      (fun s => s.overran) = some true)
  have reached := receive_reach cleanly_sound (.start ⟨rfl, rfl, rfl, rfl⟩) followed
  obtain ⟨consistent, after⟩ := receiver_consistent_run silentEnv .mode64 reached
  exact ⟨s, reached, overran, consistent, (after overran).2⟩

/-- Eight ones behind the second byte of the frame stay in the register. -/
theorem overrun_leaves_ones :
    ¬ ∀ s, Reach (receiveSystem silentEnv .mode64) anyStep s → Consistent s := by
  intro every
  obtain ⟨s, followed, registers⟩ := Option.map_eq_some_iff.mp
    (by decide +kernel : (receive silentEnv .mode64 (fun _ _ => true) [0x7e, 0, 0, 0xff] shortStart).map
      (fun s => (s.chan.rxhdlc.data, s.chan.rxhdlc.bits)) = some (0xff000000#32, 0))
  have reached := @receive_reach _ silentEnv .mode64 _ anyStep (fun _ _ _ => trivial) _ _ _ (.start ⟨rfl, rfl, rfl, rfl⟩) followed
  obtain ⟨taken, pending, _, held⟩ := every s reached
  obtain ⟨data, bits⟩ := Prod.mk.inj registers
  have none : pending = [] := by
    have count := held.count
    rw [bits] at count
    exact List.eq_nil_of_length_eq_zero (by omega)
  have first := held.shown.bit 0 (by decide)
  rw [data, none] at first
  revert first
  decide

end Concrete

end HdlcOverrun
