import Dahdi.Hdlc.Tables

/-!
One octet on the line. The bits the transmitter has loaded and not sent,
followed on the other side by those the receiver holds, are the wire image of
the symbols not decoded yet.
-/
namespace FasthdlcLink
open ShiftRegister BitStuffing Fasthdlc FasthdlcTables

inductive Sym where
  | flag
  | octet (y : Octet)
  deriving DecidableEq, Repr

def symBits (ones : Nat) : Sym → List Bool
  | .flag => flagBits
  | .octet y => octetBits ones y

def symOnes (ones : Nat) : Sym → Nat
  | .flag => 0
  | .octet y => onesAfter ones y

def wire : Nat → List Sym → List Bool
  | _, [] => []
  | ones, s :: rest => symBits ones s ++ wire (symOnes ones s) rest

def wireOnes : Nat → List Sym → Nat
  | ones, [] => ones
  | ones, s :: rest => wireOnes (symOnes ones s) rest

theorem wire_append (ones : Nat) (front back : List Sym) :
    wire ones (front ++ back) = wire ones front ++ wire (wireOnes ones front) back := by
  induction front generalizing ones with
  | nil => rfl
  | cons s front ih => simp only [List.cons_append, wire, wireOnes, ih, List.append_assoc]

theorem wire_ones_append (ones : Nat) (front back : List Sym) :
    wireOnes ones (front ++ back) = wireOnes (wireOnes ones front) back := by
  induction front generalizing ones with
  | nil => rfl
  | cons s front ih => exact ih (symOnes ones s)

theorem sym_ones_below {ones : Nat} (below : ones < 5) (s : Sym) : symOnes ones s < 5 := by
  cases s with
  | flag => exact Nat.zero_lt_succ 4
  | octet y => exact ones_below below y

theorem wire_ones_below {ones : Nat} (below : ones < 5) (syms : List Sym) :
    wireOnes ones syms < 5 := by
  induction syms generalizing ones with
  | nil => exact below
  | cons s syms ih => exact ih (sym_ones_below below s)

theorem sym_bits_length {ones : Nat} (below : ones < 5) (s : Sym) :
    8 ≤ (symBits ones s).length ∧ (symBits ones s).length ≤ 10 := by
  cases s with
  | flag => exact ⟨Nat.le_refl 8, Nat.le_add_right 8 2⟩
  | octet y => exact octet_bits_length below y

/-- The register shows the pending bits and counts them. -/
structure Holds (h : State) (pending : List Bool) : Prop where
  shown : Shows h.data pending
  count : h.bits = pending.length

theorem holds_init (mode : Mode) : Holds (fasthdlcInit mode) [] :=
  ⟨shows_empty, rfl⟩

/-- The line bits of one octet in a mode. -/
def lineBits (mode : Mode) (b : Octet) : List Bool := top (minbitsOf mode) b

theorem minbits_bounds (mode : Mode) : 2 ≤ minbitsOf mode ∧ minbitsOf mode ≤ 8 := by
  cases mode <;> exact ⟨by decide, by decide⟩

theorem line_bits_length (mode : Mode) (b : Octet) :
    (lineBits mode b).length = minbitsOf mode := top_length _ _

theorem need_data_iff {h : State} {pending : List Bool} (held : Holds h pending) :
    fasthdlcTxNeedData h = true ↔ pending.length < minbitsOf h.mode := by
  unfold fasthdlcTxNeedData
  rw [held.count]
  cases h.mode <;> simp only [minbitsOf, decide_eq_true_eq] <;> omega

theorem tx_load {h : State} {pending : List Bool} (held : Holds h pending)
    (below : h.ones < 5) (room : pending.length ≤ 22) (y : Octet) :
    Holds (fasthdlcTxLoadNocheck h y) (pending ++ octetBits h.ones y) ∧
      (fasthdlcTxLoadNocheck h y).ones = onesAfter h.ones y ∧
      (fasthdlcTxLoadNocheck h y).mode = h.mode := by
  obtain ⟨after, count, shown⟩ := encode_precalc_spec below y
  have short := (octet_bits_length below y).2
  refine ⟨⟨?_, ?_⟩, after, rfl⟩
  · have joined := shows_append held.shown shown (by omega)
    simpa only [fasthdlcTxLoadNocheck, held.count, Int.toNat_natCast] using joined
  · simp only [fasthdlcTxLoadNocheck, count, held.count, List.length_append, Nat.cast_add]

theorem shows_flag : Shows 0x7e000000#32 flagBits :=
  ⟨by decide, by decide⟩

theorem tx_frame {h : State} {pending : List Bool} (held : Holds h pending)
    (room : pending.length ≤ 24) :
    Holds (fasthdlcTxFrameNocheck h) (pending ++ flagBits) := by
  have joined := shows_append held.shown shows_flag
    (by simp only [flagBits, List.length_cons, List.length_nil]; omega)
  refine ⟨by simpa only [fasthdlcTxFrameNocheck, held.count, Int.toNat_natCast] using joined, ?_⟩
  simp only [fasthdlcTxFrameNocheck, held.count, List.length_append, Nat.cast_add]
  rfl

theorem top_shifted {x : BitVec 32} {k : Nat} (small : k ≤ 8) :
    top k ((x >>> (32 - k)).setWidth 8 <<< (8 - k)) = top k x := by
  apply List.map_congr_left
  intro i inside
  have early : i < k := List.mem_range.mp inside
  rw [BitVec.getMsbD_eq_getLsbD, BitVec.getMsbD_eq_getLsbD, BitVec.getLsbD_shiftLeft,
    BitVec.getLsbD_setWidth, BitVec.getLsbD_ushiftRight,
    show 32 - k + (8 - 1 - i - (8 - k)) = 32 - 1 - i by omega]
  have inOctet : i < 8 ∧ 8 - 1 - i < 8 ∧ ¬ 8 - 1 - i < 8 - k ∧ 8 - 1 - i - (8 - k) < 8 ∧
      i < 32 := by omega
  simp only [inOctet, decide_true, decide_false, Bool.not_false, Bool.true_and]

theorem tx_run_state (h : State) : (fasthdlcTxRunNocheck h).2 =
    { h with bits := h.bits - minbitsOf h.mode, data := h.data <<< minbitsOf h.mode } := by
  obtain ⟨state, data, bits, ones, mode, minbits⟩ := h
  cases mode <;> rfl

theorem masked_top {b : Octet} : top 2 ((b &&& 3#8) <<< 6) = top 2 (b <<< 6) := by
  revert b
  decide

theorem marked_top {b : Octet} : top 7 (((b &&& 0x7f#8) <<< 1) ||| 1#8) = top 7 (b <<< 1) := by
  revert b
  decide

theorem tx_run_top (h : State) :
    lineBits h.mode (fasthdlcTxRunNocheck h).1 = top (minbitsOf h.mode) h.data := by
  obtain ⟨state, data, bits, ones, mode, minbits⟩ := h
  rw [← top_shifted (minbits_bounds mode).2]
  cases mode with
  | mode64 =>
    simp only [minbitsOf, Nat.sub_self, BitVec.shiftLeft_zero]
    rfl
  | mode56 => exact marked_top
  | mode16 => exact masked_top

theorem tx_run {h : State} {pending : List Bool} (held : Holds h pending)
    (enough : minbitsOf h.mode ≤ pending.length) :
    lineBits h.mode (fasthdlcTxRunNocheck h).1 = pending.take (minbitsOf h.mode) ∧
      Holds (fasthdlcTxRunNocheck h).2 (pending.drop (minbitsOf h.mode)) := by
  constructor
  · rw [tx_run_top, shows_top held.shown enough]
  · rw [tx_run_state]
    refine ⟨shows_drop held.shown _, ?_⟩
    simp only [held.count, List.length_drop]
    omega

theorem rx_load_state (h : State) (b : Octet) : fasthdlcRxLoadNocheck h b =
    { h with
      data := h.data ||| ((b >>> (8 - minbitsOf h.mode)).setWidth 32 <<<
        (32 - minbitsOf h.mode - h.bits).toNat)
      bits := h.bits + minbitsOf h.mode } := by
  obtain ⟨state, data, bits, ones, mode, minbits⟩ := h
  cases mode with
  | mode64 =>
    simp only [minbitsOf, Nat.sub_self, BitVec.ushiftRight_zero]
    rfl
  | mode56 => rfl
  | mode16 => rfl

theorem shows_entry (b : Octet) {k : Nat} (small : k ≤ 8) :
    Shows ((b >>> (8 - k)).setWidth 32 <<< (32 - k)) (top k b) := by
  refine ⟨by rw [top_length]; omega, ?_⟩
  intro i inside
  rw [top_getD, BitVec.getMsbD_eq_getLsbD, BitVec.getMsbD_eq_getLsbD, BitVec.getLsbD_shiftLeft,
    BitVec.getLsbD_setWidth, BitVec.getLsbD_ushiftRight]
  by_cases early : i < k
  · rw [show 8 - k + (32 - 1 - i - (32 - k)) = 8 - 1 - i by omega]
    have placed : i < 32 ∧ 32 - 1 - i < 32 ∧ ¬ 32 - 1 - i < 32 - k ∧
        32 - 1 - i - (32 - k) < 32 ∧ i < 8 := by omega
    simp only [placed, early, decide_true, decide_false, Bool.not_false, Bool.true_and]
  · have low : 32 - 1 - i < 32 - k := by omega
    simp only [early, low, decide_true, decide_false, Bool.not_true, Bool.false_and, Bool.and_false]

theorem entry_placed (b : Octet) {k n : Nat} (small : k ≤ 8) (room : n + k ≤ 32) :
    (b >>> (8 - k)).setWidth 32 <<< (32 - k - n) =
      ((b >>> (8 - k)).setWidth 32 <<< (32 - k)) >>> n := by
  apply BitVec.eq_of_getLsbD_eq
  intro j inside
  rw [BitVec.getLsbD_ushiftRight, BitVec.getLsbD_shiftLeft, BitVec.getLsbD_shiftLeft]
  by_cases inWord : n + j < 32
  · rw [show n + j - (32 - k) = j - (32 - k - n) by omega]
    have same : n + j < 32 - k ↔ j < 32 - k - n := by omega
    simp only [inside, inWord, same]
  · have past : (b >>> (8 - k)).getLsbD (j - (32 - k - n)) = false := by
      rw [BitVec.getLsbD_ushiftRight]
      exact BitVec.getLsbD_of_ge _ _ (by omega)
    simp only [inWord, BitVec.getLsbD_setWidth, past, decide_false, Bool.false_and, Bool.and_false]

theorem rx_load {h : State} {pending : List Bool} (held : Holds h pending)
    (room : pending.length + minbitsOf h.mode ≤ 32) (b : Octet) :
    Holds (fasthdlcRxLoadNocheck h b) (pending ++ lineBits h.mode b) := by
  have small := (minbits_bounds h.mode).2
  have joined := shows_append held.shown (shows_entry b small) (by rw [top_length]; exact room)
  have place : ((32 : Int) - minbitsOf h.mode - h.bits).toNat =
      32 - minbitsOf h.mode - pending.length := by
    rw [held.count]
    omega
  rw [rx_load_state, place, entry_placed b small room]
  refine ⟨joined, ?_⟩
  simp only [held.count, List.length_append, line_bits_length, Nat.cast_add]

theorem unsigned_count {h : State} {pending : List Bool} (held : Holds h pending) :
    (h.bits % 2 ^ 32).toNat = pending.length := by
  have fits := held.shown.fits
  rw [held.count]
  omega

theorem rx_loop_short {rounds : Nat} {h : State} {pending : List Bool} (held : Holds h pending)
    (short : pending.length < rxMinbits h.state) :
    fasthdlcRxLoop (rounds + 1) h .empty = some (.empty, h) := by
  simp only [fasthdlcRxLoop, unsigned_count held]
  rw [if_neg (by omega)]

theorem rx_loop_done {rounds : Nat} {h : State} {result : RxResult} (full : result ≠ .empty) :
    fasthdlcRxLoop (rounds + 1) h result = some (result, h) := by
  simp only [fasthdlcRxLoop, full, and_false, ↓reduceIte]

theorem rx_run_short {h : State} {pending : List Bool} (held : Holds h pending)
    (short : pending.length < rxMinbits h.state) :
    fasthdlcRxRun h = some (.empty, h) := rx_loop_short held short

theorem shown_bit {h : State} {bits rest : List Bool} (held : Holds h (bits ++ rest)) {i : Nat}
    (inside : i < bits.length) : h.data.getLsbD (31 - i) = bits.getD i false := by
  have bit := shows_bit held.shown i
  have fits := held.shown.fits
  rw [List.length_append] at fits
  rw [BitVec.getMsbD_eq_getLsbD, show 32 - 1 - i = 31 - i by omega] at bit
  have inWord : i < 32 := by omega
  simpa only [inWord, decide_true, Bool.true_and, List.getD_eq_getElem?_getD,
    List.getElem?_append_left inside] using bit

theorem window_shown {h : State} {bits rest : List Bool} (held : Holds h (bits ++ rest))
    (short : bits.length ≤ 10) : Window ((h.data >>> 22).setWidth 16) bits := by
  intro i inside
  rw [BitVec.getLsbD_setWidth, BitVec.getLsbD_ushiftRight,
    show 22 + (9 - i) = 31 - i by omega, shown_bit held inside]
  simp only [show 9 - i < 16 by omega, decide_true, Bool.true_and]

theorem search_shown {h : State} {rest : List Bool} (held : Holds h (flagBits ++ rest)) :
    (h.data >>> 24).setWidth 8 = 0x7e#8 := by
  have pattern : ∀ j < 8, (0x7e#8).getLsbD j = flagBits.getD (7 - j) false := by decide
  apply BitVec.eq_of_getLsbD_eq
  intro j inside
  have seven : 7 - j < flagBits.length := by
    simp only [flagBits, List.length_cons, List.length_nil]
    omega
  rw [BitVec.getLsbD_setWidth, BitVec.getLsbD_ushiftRight,
    show 24 + j = 31 - (7 - j) by omega, shown_bit held seven, pattern j inside]
  simp only [inside, decide_true, Bool.true_and]

theorem holds_drop {h : State} {bits rest : List Bool} (held : Holds h (bits ++ rest)) :
    Shows (h.data <<< bits.length) rest ∧ h.bits - bits.length = rest.length := by
  constructor
  · simpa only [List.drop_left] using shows_drop held.shown bits.length
  · simp only [held.count, List.length_append, Nat.cast_add]
    omega

def resultOf : Sym → RxResult
  | .flag => .complete
  | .octet y => .data y

/-- In a frame, ten bits are enough to decode the next symbol. -/
theorem rx_run_sym {h : State} {s : Sym} {rest : List Bool} (framed : h.state = 1)
    (below : h.ones < 5) (held : Holds h (symBits h.ones s ++ rest))
    (enough : 10 ≤ (symBits h.ones s ++ rest).length) :
    ∃ h', fasthdlcRxRun h = some (resultOf s, h') ∧ Holds h' rest ∧ h'.state = 1 ∧
      h'.ones = symOnes h.ones s ∧ h'.mode = h.mode := by
  obtain ⟨shown, count⟩ := holds_drop held
  have window := window_shown held (sym_bits_length below s).2
  have lengths := sym_bits_length below s
  have ready : rxMinbits h.state ≤ (h.bits % 2 ^ 32).toNat := by
    rw [unsigned_count held, framed]
    exact enough
  rw [fasthdlcRxRun, fasthdlcRxLoop, if_pos ⟨ready, rfl⟩, if_neg (by rw [framed]; decide)]
  cases s with
  | flag =>
    rw [frame_precalc_flag below _ window]
    exact ⟨_, rx_loop_done (by decide), ⟨shown, count⟩, rfl, rfl, rfl⟩
  | octet y =>
    have octet := frame_precalc_octet below y _ window
    have run : onesAfter h.ones y < 8 := by
      have := ones_below below y
      omega
    have small := y.isLt
    simp only [symBits] at lengths shown count
    have size : (octetBits h.ones y).length < 16 := by omega
    rw [show statusValid = 1 <<< 15 from rfl] at octet
    simp only [octet, hfp_status run size small (by decide : 1 < 2), hfp_bits run size small,
      hfp_ones run size small, hfp_data run size small]
    rw [if_neg (by decide), BitVec.ofNat_toNat, BitVec.setWidth_eq]
    exact ⟨_, rx_loop_done (by simp), ⟨shown, count⟩, rfl, rfl, rfl⟩

/-- The search takes a whole flag and then waits for ten bits. -/
theorem rx_run_search {h : State} {rest : List Bool} (searching : h.state = 0)
    (held : Holds h (flagBits ++ rest)) (short : rest.length < 10) :
    ∃ h', fasthdlcRxRun h = some (.empty, h') ∧ Holds h' rest ∧ h'.state = 1 ∧
      h'.ones = 0 ∧ h'.mode = h.mode := by
  obtain ⟨shown, count⟩ := holds_drop held
  have ready : rxMinbits h.state ≤ (h.bits % 2 ^ 32).toNat := by
    rw [unsigned_count held, searching, List.length_append]
    exact Nat.le_add_right 8 _
  rw [fasthdlcRxRun, fasthdlcRxLoop, if_pos ⟨ready, rfl⟩, if_pos (by exact searching),
    search_shown held]
  exact ⟨_, rx_loop_short ⟨shown, count⟩ short, ⟨shown, count⟩, rfl, rfl, rfl⟩

structure Joined (tx rx : State) (sent held : List Bool) (syms : List Sym) : Prop where
  sender : Holds tx sent
  receiver : Holds rx held
  image : held ++ sent = wire rx.ones syms
  run : tx.ones = wireOnes rx.ones syms
  below : rx.ones < 5
  mode : tx.mode = rx.mode

/-- A searching receiver can only have a flag before it. -/
def Phase (rx : State) (held : List Bool) (syms : List Sym) : Prop :=
  rx.state = 1 ∧ held.length ≤ 9 ∨
    rx.state = 0 ∧ rx.ones = 0 ∧ held.length ≤ 7 ∧ ∀ s ∈ syms.head?, s = .flag

/-- The symbols are loaded by the sender and not decoded by the receiver. -/
def Linked (tx rx : State) (syms : List Sym) : Prop :=
  ∃ sent held, Joined tx rx sent held syms ∧ Phase rx held syms

theorem linked_init (mode : Mode) : Linked (fasthdlcInit mode) (fasthdlcInit mode) [] := by
  refine ⟨[], [], ⟨holds_init mode, holds_init mode, rfl, rfl, Nat.zero_lt_succ 4, rfl⟩, ?_⟩
  exact Or.inr ⟨rfl, rfl, by simp, by simp⟩

def loadSym (h : State) : Sym → State
  | .flag => fasthdlcTxFrameNocheck h
  | .octet y => fasthdlcTxLoadNocheck h y

@[simp] theorem load_sym_mode (h : State) (s : Sym) : (loadSym h s).mode = h.mode := by
  cases s <;> rfl

theorem load_sym_holds {h : State} {pending : List Bool} (held : Holds h pending)
    (below : h.ones < 5) (room : pending.length ≤ 22) (s : Sym) :
    Holds (loadSym h s) (pending ++ symBits h.ones s) ∧ (loadSym h s).ones = symOnes h.ones s := by
  cases s with
  | flag => exact ⟨tx_frame held (by omega), rfl⟩
  | octet y =>
    obtain ⟨loaded, ones, _⟩ := tx_load held below room y
    exact ⟨loaded, ones⟩

theorem load_sym_bits {h : State} {pending : List Bool} (held : Holds h pending)
    (below : h.ones < 5) (room : pending.length ≤ 22) (s : Sym) :
    h.bits + 8 ≤ (loadSym h s).bits ∧ (loadSym h s).bits ≤ h.bits + 10 := by
  obtain ⟨loaded, _⟩ := load_sym_holds held below room s
  have size := sym_bits_length below s
  rw [loaded.count, held.count, List.length_append]
  omega

/-- Only flags may be the first symbol after which nothing is synchronised. -/
def Opened (rx : State) (syms : List Sym) : Prop := rx.state = 1 ∨ syms ≠ []

theorem linked_below {tx rx : State} {syms : List Sym} (linked : Linked tx rx syms) :
    tx.ones < 5 := by
  obtain ⟨sent, held, joined, phase⟩ := linked
  rw [joined.run]
  exact wire_ones_below joined.below syms

theorem linked_load {tx rx : State} {syms : List Sym} (linked : Linked tx rx syms)
    (room : tx.bits ≤ 22) (s : Sym) (fits : s = .flag ∨ Opened rx syms) :
    Linked (loadSym tx s) rx (syms ++ [s]) := by
  have below := linked_below linked
  obtain ⟨sent, held, joined, phase⟩ := linked
  have space : sent.length ≤ 22 := by
    have := joined.sender.count
    omega
  obtain ⟨loaded, ones⟩ := load_sym_holds joined.sender below space s
  refine ⟨sent ++ symBits tx.ones s, held, ⟨loaded, joined.receiver, ?_, ?_, joined.below, ?_⟩, ?_⟩
  · rw [wire_append, ← joined.image, ← joined.run, List.append_assoc]
    simp only [wire, List.append_nil]
  · rw [wire_ones_append, ones, ← joined.run]
    rfl
  · rw [load_sym_mode, joined.mode]
  · rcases phase with framed | ⟨searching, clear, short, first⟩
    · exact Or.inl framed
    · refine Or.inr ⟨searching, clear, short, ?_⟩
      cases syms with
      | nil =>
        rcases fits with flag | framed | filled
        · simpa using flag
        · omega
        · exact absurd rfl filled
      | cons head tail => simpa using first

/-- What one octet lets the receiver do with the symbols before it. -/
inductive Decoded : Nat → Nat → List Sym → RxResult → List Sym → Prop where
  | waiting (state : Nat) (syms : List Sym) : Decoded state state syms .empty syms
  | opening (syms : List Sym) : Decoded 0 1 (.flag :: syms) .empty syms
  | symbol (s : Sym) (syms : List Sym) : Decoded 1 1 (s :: syms) (resultOf s) syms

theorem first_bits {ones : Nat} {held sent : List Bool} {s : Sym} {tail : List Sym}
    (image : held ++ sent = wire ones (s :: tail)) (enough : (symBits ones s).length ≤ held.length) :
    ∃ later, held = symBits ones s ++ later ∧ later ++ sent = wire (symOnes ones s) tail := by
  rcases List.append_eq_append_iff.mp image with ⟨missing, front, back⟩ | ⟨later, front, back⟩
  · have none : missing = [] := by
      have := congrArg List.length front
      simp only [List.length_append] at this
      exact List.eq_nil_of_length_eq_zero (by omega)
    subst none
    exact ⟨[], by rw [front, List.append_nil, List.append_nil], by simpa using back⟩
  · exact ⟨later, front, back.symm⟩

theorem joined_drop {tx rx rx' : State} {sent held later : List Bool} {s : Sym} {tail : List Sym}
    (joined : Joined tx rx sent held (s :: tail)) (kept : Holds rx' later)
    (image : later ++ sent = wire (symOnes rx.ones s) tail) (ones : rx'.ones = symOnes rx.ones s)
    (mode : rx'.mode = rx.mode) : Joined tx rx' sent later tail := by
  refine ⟨joined.sender, kept, by rw [ones, image], by rw [joined.run, ones]; rfl, ?_, ?_⟩
  · rw [ones]
    exact sym_ones_below joined.below s
  · rw [joined.mode, mode]

theorem symbols_left {tx rx : State} {sent held : List Bool} {syms : List Sym}
    (joined : Joined tx rx sent held syms) (some : held ≠ []) : ∃ s tail, syms = s :: tail := by
  cases syms with
  | nil => exact absurd (List.append_eq_nil_iff.mp joined.image).1 some
  | cons s tail => exact ⟨s, tail, rfl⟩

theorem decode_framed {tx rx : State} {sent held : List Bool} {syms : List Sym}
    (joined : Joined tx rx sent held syms) (framed : rx.state = 1) (size : held.length ≤ 17) :
    ∃ result rx' syms', fasthdlcRxRun rx = some (result, rx') ∧
      Decoded rx.state rx'.state syms result syms' ∧ Linked tx rx' syms' := by
  rcases Nat.lt_or_ge held.length 10 with short | enough
  · have idle := rx_run_short joined.receiver (by rw [framed]; exact short)
    exact ⟨.empty, rx, syms, idle, .waiting _ _, sent, held, joined, Or.inl ⟨framed, by omega⟩⟩
  · obtain ⟨s, tail, rfl⟩ := symbols_left joined (List.ne_nil_of_length_pos (by omega))
    have bounds := sym_bits_length joined.below s
    obtain ⟨later, rfl, image⟩ := first_bits joined.image (by omega)
    obtain ⟨rx', run, kept, state, ones, mode⟩ :=
      rx_run_sym framed joined.below joined.receiver enough
    refine ⟨resultOf s, rx', tail, run, ?_, sent, later,
      joined_drop joined kept image ones mode, Or.inl ⟨state, ?_⟩⟩
    · rw [framed, state]
      exact .symbol s tail
    · rw [List.length_append] at size
      omega

theorem decode_searching {tx rx : State} {sent held : List Bool} {syms : List Sym}
    (joined : Joined tx rx sent held syms) (searching : rx.state = 0) (clear : rx.ones = 0)
    (size : held.length ≤ 15) (first : ∀ s ∈ syms.head?, s = .flag) :
    ∃ result rx' syms', fasthdlcRxRun rx = some (result, rx') ∧
      Decoded rx.state rx'.state syms result syms' ∧ Linked tx rx' syms' := by
  rcases Nat.lt_or_ge held.length 8 with short | enough
  · have idle := rx_run_short joined.receiver (by rw [searching]; exact short)
    exact ⟨.empty, rx, syms, idle, .waiting _ _, sent, held, joined,
      Or.inr ⟨searching, clear, by omega, first⟩⟩
  · obtain ⟨s, tail, rfl⟩ := symbols_left joined (List.ne_nil_of_length_pos (by omega))
    obtain rfl : s = .flag := by simpa using first
    obtain ⟨later, rfl, image⟩ := first_bits joined.image enough
    rw [List.length_append] at size
    have flag : (symBits rx.ones .flag).length = 8 := rfl
    obtain ⟨rx', run, kept, state, ones, mode⟩ :=
      rx_run_search searching joined.receiver (by omega)
    refine ⟨.empty, rx', tail, run, ?_, sent, later,
      joined_drop joined kept image ones mode, Or.inl ⟨state, by omega⟩⟩
    rw [searching, state]
    exact .opening tail

/-- One octet sent and received. -/
theorem linked_step {tx rx : State} {syms : List Sym} (linked : Linked tx rx syms)
    (enough : (minbitsOf tx.mode : Int) ≤ tx.bits) :
    ∃ result rx' syms',
      fasthdlcRxRun (fasthdlcRxLoadNocheck rx (fasthdlcTxRunNocheck tx).1) = some (result, rx') ∧
      Decoded rx.state rx'.state syms result syms' ∧ Linked (fasthdlcTxRunNocheck tx).2 rx' syms' := by
  obtain ⟨sent, held, joined, phase⟩ := linked
  have width := (minbits_bounds rx.mode).2
  rw [joined.sender.count, joined.mode] at enough
  obtain ⟨line, kept⟩ := tx_run joined.sender (by rw [joined.mode]; omega)
  rw [joined.mode] at line kept
  have short : held.length ≤ 9 := by
    rcases phase with ⟨_, short⟩ | ⟨_, _, short, _⟩ <;> omega
  have loaded := rx_load joined.receiver (by omega) (fasthdlcTxRunNocheck tx).1
  rw [line] at loaded
  have size : (held ++ sent.take (minbitsOf rx.mode)).length = held.length + minbitsOf rx.mode := by
    rw [List.length_append, List.length_take]
    omega
  have carried : Joined (fasthdlcTxRunNocheck tx).2
      (fasthdlcRxLoadNocheck rx (fasthdlcTxRunNocheck tx).1) (sent.drop (minbitsOf rx.mode))
      (held ++ sent.take (minbitsOf rx.mode)) syms := by
    rw [tx_run_state] at kept ⊢
    rw [rx_load_state] at loaded ⊢
    refine ⟨kept, loaded, ?_, joined.run, joined.below, joined.mode⟩
    rw [List.append_assoc, List.take_append_drop, joined.image]
  rcases phase with ⟨framed, _⟩ | ⟨searching, clear, small, first⟩
  · have decoded := decode_framed carried (by rw [rx_load_state]; exact framed) (by omega)
    simpa only [rx_load_state] using decoded
  · have decoded := decode_searching carried (by rw [rx_load_state]; exact searching)
      (by rw [rx_load_state]; exact clear) (by omega) first
    simpa only [rx_load_state] using decoded

/-- Symbols are at least eight bits and both registers are nearly empty. -/
theorem linked_length {tx rx : State} {syms : List Sym} (linked : Linked tx rx syms)
    (room : tx.bits ≤ 17) : syms.length ≤ 3 := by
  obtain ⟨sent, held, joined, phase⟩ := linked
  have short : held.length ≤ 9 := by
    rcases phase with ⟨_, short⟩ | ⟨_, _, short, _⟩ <;> omega
  have size (ones : Nat) (below : ones < 5) : 8 * syms.length ≤ (wire ones syms).length := by
    clear joined phase
    induction syms generalizing ones with
    | nil => exact Nat.zero_le _
    | cons s syms ih =>
      have rest := ih (symOnes ones s) (sym_ones_below below s)
      have first := (sym_bits_length below s).1
      simp only [wire, List.length_cons, List.length_append]
      omega
  have image := congrArg List.length joined.image
  have all := size rx.ones joined.below
  have count := joined.sender.count
  rw [List.length_append] at image
  omega

theorem linked_count {tx rx : State} {syms : List Sym} (linked : Linked tx rx syms) :
    0 ≤ tx.bits ∧ tx.mode = rx.mode ∧
      (fasthdlcTxNeedData tx = true ↔ tx.bits < minbitsOf tx.mode) := by
  obtain ⟨sent, held, joined, phase⟩ := linked
  have count := joined.sender.count
  refine ⟨by omega, joined.mode, ?_⟩
  rw [need_data_iff joined.sender]
  omega

/-- One output octet: a symbol is loaded only when the register is short. -/
def sendOctet (h : State) (s : Sym) : Octet × State :=
  fasthdlcTxRunNocheck (if fasthdlcTxNeedData h then loadSym h s else h)

/-- The symbols before the receiver once the octet has been prepared. -/
def offered (h : State) (syms : List Sym) (s : Sym) : List Sym :=
  if fasthdlcTxNeedData h then syms ++ [s] else syms

theorem send_octet_linked {tx rx : State} {syms : List Sym} (linked : Linked tx rx syms)
    (s : Sym) (fits : s = .flag ∨ Opened rx syms) :
    ∃ result rx' syms',
      fasthdlcRxRun (fasthdlcRxLoadNocheck rx (sendOctet tx s).1) = some (result, rx') ∧
      Decoded rx.state rx'.state (offered tx syms s) result syms' ∧
      Linked (sendOctet tx s).2 rx' syms' := by
  obtain ⟨_, _, need⟩ := linked_count linked
  have width := minbits_bounds tx.mode
  unfold sendOctet offered
  split
  · rename_i short
    have few := need.mp short
    have loaded := linked_load linked (by omega) s fits
    have more : tx.bits + 8 ≤ (loadSym tx s).bits := by
      obtain ⟨sent, held, joined, phase⟩ := linked
      have count := joined.sender.count
      exact (load_sym_bits joined.sender (linked_below ⟨sent, held, joined, phase⟩) (by omega) s).1
    exact linked_step loaded (by rw [load_sym_mode]; omega)
  · rename_i full
    rw [need] at full
    exact linked_step linked (by omega)

/-- What one octet does to the count of bits held back. -/
theorem send_octet_bits {tx rx : State} {syms : List Sym} (linked : Linked tx rx syms) (s : Sym) :
    (fasthdlcTxNeedData tx = true →
      (sendOctet tx s).2.bits ≤ 9 ∧ (sendOctet tx s).2.bits ≤ tx.bits + 8) ∧
    (fasthdlcTxNeedData tx = false → (sendOctet tx s).2.bits + 2 ≤ tx.bits) := by
  obtain ⟨_, _, need⟩ := linked_count linked
  have width := minbits_bounds tx.mode
  unfold sendOctet
  constructor
  · intro short
    have few := need.mp short
    obtain ⟨sent, held, joined, phase⟩ := linked
    have count := joined.sender.count
    have more := (load_sym_bits joined.sender (linked_below ⟨sent, held, joined, phase⟩)
      (by omega) s).2
    rw [if_pos short, tx_run_state, load_sym_mode]
    constructor <;> simp only <;> omega
  · intro full
    rw [if_neg (by rw [full]; decide), tx_run_state]
    simp only
    omega

theorem opened_decoded {before after : State} {syms left : List Sym} {result : RxResult}
    (opened : Opened before syms) (decoded : Decoded before.state after.state syms result left) :
    Opened after left := by
  generalize state : before.state = first at decoded
  generalize state' : after.state = last at decoded
  cases decoded with
  | waiting =>
    rcases opened with framed | some
    · exact Or.inl (by omega)
    · exact Or.inr some
  | opening => exact Or.inl state'
  | symbol => exact Or.inl state'

end FasthdlcLink
