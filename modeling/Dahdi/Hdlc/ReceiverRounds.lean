import Dahdi.Hdlc.Link
import Dahdi.Library.OnesRun

/-!
What the table entries say about an arbitrary stretch of line bits. A frame
entry either takes eight bits besides the inserted zeros, without a sixth one
in a row, or reports the sixth one.
-/
namespace FasthdlcEntries
open OnesRun Fasthdlc FasthdlcTables FasthdlcLink

variable {bits : Nat → Bool} {carried : Nat}

/-- Bits before bit j that do not follow five ones. -/
def kept (bits : Nat → Bool) (carried : Nat) : Nat → Nat
  | 0 => 0
  | j + 1 => kept bits carried j + if run bits carried j = 5 then 0 else 1

/-- Bit j completes eight bits and no six ones have been seen. -/
structure OctetEnd (bits : Nat → Bool) (carried j : Nat) : Prop where
  full : kept bits carried j = 8
  first : ∀ i, i < j → kept bits carried i < 8
  quiet : Quiet 5 bits carried j

/-- Bit j is a sixth one inside an octet. -/
structure SixthOne (bits : Nat → Bool) (carried j : Nat) : Prop where
  short : kept bits carried j < 8
  five : run bits carried j = 5
  bit : bits j = true

theorem kept_step (j : Nat) : kept bits carried j ≤ kept bits carried (j + 1) := by
  simp only [kept]
  omega

theorem kept_mono {i j : Nat} (le : i ≤ j) : kept bits carried i ≤ kept bits carried j := by
  induction j, le using Nat.le_induction with
  | base => exact Nat.le_refl _
  | succ j _ ih =>
    have more := @kept_step bits carried j
    omega

theorem octet_end_unique {i j : Nat} (first : OctetEnd bits carried i)
    (second : OctetEnd bits carried j) : i = j := by
  rcases Nat.lt_trichotomy i j with early | same | late
  · have := second.first i early
    have := first.full
    omega
  · exact same
  · have := first.first j late
    have := second.full
    omega

theorem octet_end_not_sixth {i j : Nat} (ended : OctetEnd bits carried i)
    (sixth : SixthOne bits carried j) : False := by
  rcases Nat.lt_or_ge j i with inside | past
  · have counted := ended.quiet (j + 1) (by omega)
    rw [run_one sixth.bit, sixth.five] at counted
    omega
  · have more := @kept_mono bits carried i j past
    have := ended.full
    have := sixth.short
    omega

theorem sixth_one_unique {i j : Nat} (first : SixthOne bits carried i)
    (second : SixthOne bits carried j) (quiet : Quiet 5 bits carried i)
    (quiet' : Quiet 5 bits carried j) : i = j := by
  rcases Nat.lt_trichotomy i j with early | same | late
  · have counted := quiet' (i + 1) early
    rw [run_one first.bit, first.five] at counted
    omega
  · exact same
  · have counted := quiet (j + 1) late
    rw [run_one second.bit, second.five] at counted
    omega

/-- Every five ones allow one more inserted zero. -/
theorem kept_bounds (below : carried < 5) (j : Nat) (quiet : Quiet 5 bits carried j) :
    kept bits carried j ≤ j ∧
      5 * (j - kept bits carried j) + run bits carried j ≤ kept bits carried j + 4 := by
  induction j with
  | zero =>
    simp only [kept, run]
    omega
  | succ j ih =>
    obtain ⟨small, slack⟩ := ih (quiet_weaken quiet (by omega))
    have limit := quiet (j + 1) (Nat.le_refl _)
    simp only [kept, run] at limit ⊢
    by_cases five : run bits carried j = 5 <;> cases bit : bits j <;>
      simp only [five, bit, Bool.false_eq_true, ↓reduceIte] at limit slack ⊢ <;> omega

/-- The window shows the stream from bit j on. -/
def Seen (c : BitVec 16) (bits : Nat → Bool) (j : Nat) : Prop :=
  ∀ i, j + i < 10 → c.getLsbD (9 - i) = bits (j + i)

theorem seen_next {c : BitVec 16} {j : Nat} (seen : Seen c bits j) : Seen (c <<< 1) bits (j + 1) := by
  intro i inside
  have next := seen (i + 1) (by omega)
  rw [BitVec.getLsbD_shiftLeft, show 9 - i - 1 = 9 - (i + 1) by omega, next,
    show j + (i + 1) = j + 1 + i by omega]
  simp only [show 9 - i < 16 by omega, show ¬ 9 - i < 1 by omega, decide_true, decide_false,
    Bool.not_false, Bool.and_self, Bool.true_and]

/-- The entry of an octet that ends before bit j. -/
def octetEntry (bits : Nat → Bool) (carried j data : Nat) : Nat :=
  if run bits carried j = 5 then hfp statusValid 0 (j + 1) data
  else hfp statusValid (run bits carried j) j data

inductive Entry (bits : Nat → Bool) (carried : Nat) : Nat → Prop where
  | octet (j : Nat) (data : Octet) (ended : OctetEnd bits carried j) :
      Entry bits carried (octetEntry bits carried j data.toNat)
  | complete (j : Nat) (sixth : SixthOne bits carried j) (quiet : Quiet 5 bits carried j)
      (last : kept bits carried j = 6 ∧ bits (j + 1) = false) :
      Entry bits carried (hfp statusControl 0 8 controlComplete)
  | abort (j : Nat) (sixth : SixthOne bits carried j) (quiet : Quiet 5 bits carried j)
      (other : ¬ (kept bits carried j = 6 ∧ bits (j + 1) = false)) :
      Entry bits carried (hfp statusControl 0 (j + 2) controlAbort)

theorem frame_loop_entry {rounds j : Nat} {data : Octet} {c : BitVec 16} (below : carried < 5)
    (seen : Seen c bits j) (quiet : Quiet 5 bits carried j)
    (first : ∀ i, i < j → kept bits carried i < 8) (most : kept bits carried j ≤ 8)
    (enough : 2 * (8 - kept bits carried j) + (if run bits carried j = 5 then 1 else 0) < rounds) :
    Entry bits carried
      (hdlcFrameLoop rounds (run bits carried j) data (kept bits carried j) j c) := by
  induction rounds generalizing j data c with
  | zero => omega
  | succ rounds ih =>
    obtain ⟨small, slack⟩ := kept_bounds below j quiet
    have limit := quiet j (Nat.le_refl j)
    rcases Nat.lt_or_ge (kept bits carried j) 8 with short | full
    · have front : c.getLsbD 9 = bits j := seen 0 (by omega)
      have kept' (i : Nat) (inside : i < j + 1) : kept bits carried i < 8 := by
        by_cases last : i = j
        · rw [last]
          exact short
        · exact first i (by omega)
      by_cases five : run bits carried j = 5
      · cases bit : bits j with
        | true =>
          have sixth : SixthOne bits carried j := ⟨short, five, bit⟩
          rw [bit] at front
          have second : c.getLsbD 8 = bits (j + 1) := seen 1 (by omega)
          simp only [hdlcFrameLoop, short, five, front, second, ↓reduceIte]
          split
          · rename_i last
            exact .complete j sixth quiet (by simpa [and_comm] using last)
          · rename_i other
            exact .abort j sixth quiet (by simpa [and_comm] using other)
        | false =>
          rw [bit] at front
          have zeroed : run bits carried (j + 1) = 0 := run_zero bit
          have same : kept bits carried (j + 1) = kept bits carried j := by
            simp only [kept, five, ↓reduceIte, Nat.add_zero]
          rw [five, frame_round_skip short front, ← zeroed, ← same]
          rw [five, if_pos rfl] at enough
          exact ih (seen_next seen) (quiet_succ quiet (by omega)) kept' (by omega)
            (by rw [zeroed, if_neg (by decide)]; omega)
      · have more : kept bits carried (j + 1) = kept bits carried j + 1 := by
          simp only [kept, five, ↓reduceIte]
        cases bit : bits j with
        | true =>
          rw [bit] at front
          have counted : run bits carried (j + 1) = run bits carried j + 1 := run_one bit
          rw [frame_round_one five short front, ← counted, ← more]
          rw [if_neg five] at enough
          exact ih (seen_next seen) (quiet_succ quiet (by omega)) kept' (by omega)
            (by split <;> omega)
        | false =>
          rw [bit] at front
          have zeroed : run bits carried (j + 1) = 0 := run_zero bit
          rw [frame_round_zero five short front, ← zeroed, ← more]
          rw [if_neg five] at enough
          exact ih (seen_next seen) (quiet_succ quiet (by omega)) kept' (by omega)
            (by rw [zeroed, if_neg (by decide)]; omega)
    · have eight : kept bits carried j = 8 := by omega
      have entry := Entry.octet j data ⟨eight, first, quiet⟩
      rw [eight]
      by_cases five : run bits carried j = 5
      · rw [five, frame_round_full_five]
        simpa only [octetEntry, five, ↓reduceIte] using entry
      · rw [frame_round_full (by omega)]
        simpa only [octetEntry, five, ↓reduceIte] using entry

theorem frame_precalc_entry {c : BitVec 16} (below : carried < 5) (seen : Seen c bits 0) :
    Entry bits carried (hdlcFramePrecalc carried c) := by
  have start : (if run bits carried 0 = 5 then 1 else 0) = 0 := if_neg (Nat.ne_of_lt below)
  have none : kept bits carried 0 = 0 := rfl
  have loop := @frame_loop_entry bits carried 17 0 0 c below seen
    (quiet_zero (by omega)) (by intro i early; omega) (by omega) (by omega)
  exact loop

/-- What a search entry does: a whole flag, or up to eight bits skipped. -/
theorem search_entry (c : Octet) :
    (c = 0x7e#8 ∧ hdlcSearchPrecalc c = 0x18) ∨
      (c ≠ 0x7e#8 ∧ hdlcSearchPrecalc c >>> 4 = 0 ∧ 1 ≤ hdlcSearchPrecalc c &&& 0x0f ∧
        hdlcSearchPrecalc c &&& 0x0f ≤ 8) := by
  revert c
  decide +kernel

/-- The search stops at a zero that is followed by ones only. -/
theorem search_entry_zero (c : Octet) (other : c ≠ 0x7e#8) (i : Nat) (inside : i < 8)
    (some : 1 ≤ i) (zero : c.getMsbD i = false) (ones : ∀ j, j < 8 → i < j → c.getMsbD j = true) :
    hdlcSearchPrecalc c &&& 0x0f = i := by
  revert c i
  decide +kernel

end FasthdlcEntries

/-!
The receiver on an arbitrary octet stream. Its register always holds a stretch
of the line bits that ends with the last bit received; one round of
fasthdlc_rx_run moves the front of that stretch forward.
-/
namespace FasthdlcRounds
open OnesRun ShiftRegister Fasthdlc FasthdlcTables FasthdlcLink FasthdlcEntries

/-- The bits one round of the loop in fasthdlc_rx_run takes. -/
def rxConsumed (h : State) : Nat :=
  if h.state = frameSearch then hdlcSearchPrecalc ((h.data >>> 24).setWidth 8) &&& 0x0f
  else (hdlcFramePrecalc h.ones ((h.data >>> 22).setWidth 16) &&& 0x0f00) >>> 8

/-- The registers after one table entry has been used. -/
def rxEntryState (h : State) (next : Nat) : State :=
  { h with
    bits := h.bits - ((next &&& 0x0f00) >>> 8 : Nat)
    data := h.data <<< ((next &&& 0x0f00) >>> 8)
    state := (next &&& (1 <<< 15)) >>> 15
    ones := (next &&& (7 <<< 12)) >>> 12 }

/-- One round of the loop in fasthdlc_rx_run. -/
def rxRound (h : State) : RxResult × State :=
  if h.state = frameSearch then
    let next := hdlcSearchPrecalc ((h.data >>> 24).setWidth 8)
    (.empty, { h with bits := h.bits - (next &&& 0x0f : Nat), data := h.data <<< (next &&& 0x0f)
                      state := next >>> 4, ones := 0 })
  else
    let next := hdlcFramePrecalc h.ones ((h.data >>> 22).setWidth 16)
    if next &&& (1 <<< 15) = statusControl then
      if next &&& controlComplete ≠ 0 then (.complete, { rxEntryState h next with state := 1 })
      else (.discard, rxEntryState h next)
    else (.data (BitVec.ofNat 8 (next &&& 0xff)), rxEntryState h next)

def Ready (h : State) : Prop := rxMinbits h.state ≤ (h.bits % 2 ^ 32).toNat

instance (h : State) : Decidable (Ready h) := inferInstanceAs (Decidable (_ ≤ _))

theorem rx_loop_round {rounds : Nat} {h : State} (ready : Ready h) :
    fasthdlcRxLoop (rounds + 1) h .empty = fasthdlcRxLoop rounds (rxRound h).2 (rxRound h).1 := by
  unfold Ready at ready
  simp only [fasthdlcRxLoop, rxRound, ready, and_self, ↓reduceIte]
  split
  · rfl
  · split
    · split <;> rfl
    · rfl

theorem rx_loop_idle {rounds : Nat} {h : State} (idle : ¬ Ready h) :
    fasthdlcRxLoop (rounds + 1) h .empty = some (.empty, h) := by
  unfold Ready at idle
  simp only [fasthdlcRxLoop, idle, false_and, ↓reduceIte]

/-- The registers at the head of the loop during one fasthdlc_rx_run. -/
inductive Visits (h : State) : State → Prop where
  | start : Visits h h
  | round {g : State} (before : Visits h g) (ready : Ready g) (none : (rxRound g).1 = .empty) :
      Visits h (rxRound g).2

/-- The line bits of an octet stream. -/
def lineStream (mode : Mode) (octets : Nat → Octet) : Nat → Bool := fun i =>
  (octets (i / minbitsOf mode)).getMsbD (i % minbitsOf mode)

theorem line_slice (mode : Mode) (octets : Nat → Octet) (n : Nat) :
    slice (lineStream mode octets) (minbitsOf mode * n) (minbitsOf mode) =
      lineBits mode (octets n) := by
  have width := minbits_bounds mode
  apply List.map_congr_left
  intro i inside
  have early := List.mem_range.mp inside
  simp only [from_, lineStream]
  rw [Nat.mul_add_div (by omega), Nat.div_eq_of_lt early, Nat.mul_add_mod, Nat.mod_eq_of_lt early,
    Nat.add_zero]

/-- The register holds the line bits from position p to the last one received. -/
structure Behind (stream : Nat → Bool) (h : State) (p received : Nat) : Prop where
  inside : p ≤ received
  held : Holds h (slice stream p (received - p))
  ones : h.ones < 5
  known : h.state = 0 ∨ h.state = 1

section Round
variable {stream : Nat → Bool} {h : State} {p received : Nat}

theorem behind_bits (behind : Behind stream h p received) : h.bits = ((received - p : Nat) : Int) := by
  rw [behind.held.count, slice_length]

theorem ready_iff (behind : Behind stream h p received) :
    Ready h ↔ rxMinbits h.state ≤ received - p := by
  unfold Ready
  rw [unsigned_count behind.held, slice_length]

theorem behind_fits (behind : Behind stream h p received) : received - p ≤ 32 := by
  have fits := behind.held.shown.fits
  rwa [slice_length] at fits

/-- The front bits leave the register. -/
theorem behind_take {g : State} {k : Nat} (behind : Behind stream h p received)
    (enough : k ≤ received - p) (data : g.data = h.data <<< k) (bits : g.bits = h.bits - k)
    (ones : g.ones < 5) (known : g.state = 0 ∨ g.state = 1) :
    Behind stream g (p + k) received := by
  have inside := behind.inside
  have held := behind.held
  rw [show received - p = k + (received - (p + k)) by omega, ← slice_append] at held
  obtain ⟨shown, count⟩ := holds_drop held
  rw [slice_length] at shown count
  exact ⟨by omega, ⟨by rw [data]; exact shown, by rw [bits]; exact count⟩, ones, known⟩

theorem bit_shown (behind : Behind stream h p received) {i : Nat} (inside : i < received - p) :
    h.data.getLsbD (31 - i) = stream (p + i) := by
  have held := behind.held
  rw [← List.append_nil (slice stream p (received - p))] at held
  rw [shown_bit held (by rw [slice_length]; exact inside), slice_get p _ i inside]

theorem window_seen (behind : Behind stream h p received) (enough : 10 ≤ received - p) :
    Seen ((h.data >>> 22).setWidth 16) (from_ stream p) 0 := by
  intro i inside
  have fits := behind_fits behind
  rw [BitVec.getLsbD_setWidth, BitVec.getLsbD_ushiftRight,
    show 22 + (9 - i) = 31 - i by omega, bit_shown behind (by omega)]
  simp only [show 9 - i < 16 by omega, decide_true, Bool.true_and, Nat.zero_add, from_]

theorem octet_seen (behind : Behind stream h p received) (enough : 8 ≤ received - p) (i : Nat)
    (inside : i < 8) : ((h.data >>> 24).setWidth 8 : Octet).getMsbD i = stream (p + i) := by
  rw [BitVec.getMsbD_eq_getLsbD, BitVec.getLsbD_setWidth, BitVec.getLsbD_ushiftRight,
    show 24 + (8 - 1 - i) = 31 - i by omega, bit_shown behind (by omega)]
  simp only [inside, show 8 - 1 - i < 8 by omega, decide_true, Bool.true_and]

/-- A round inside a frame: an octet, or the report of a sixth one. -/
inductive FrameRead (stream : Nat → Bool) (p ones : Nat) : RxResult → Nat → Nat → Nat → Prop where
  | octet (j : Nat) (c : Octet) (ended : OctetEnd (from_ stream p) ones j)
      (short : run (from_ stream p) ones j < 5) :
      FrameRead stream p ones (.data c) j 1 (run (from_ stream p) ones j)
  | full (j : Nat) (c : Octet) (ended : OctetEnd (from_ stream p) ones j)
      (five : run (from_ stream p) ones j = 5) : FrameRead stream p ones (.data c) (j + 1) 1 0
  | complete (j : Nat) (sixth : SixthOne (from_ stream p) ones j)
      (quiet : Quiet 5 (from_ stream p) ones j)
      (last : kept (from_ stream p) ones j = 6 ∧ from_ stream p (j + 1) = false) :
      FrameRead stream p ones .complete 8 1 0
  | abort (j : Nat) (sixth : SixthOne (from_ stream p) ones j)
      (quiet : Quiet 5 (from_ stream p) ones j)
      (other : ¬ (kept (from_ stream p) ones j = 6 ∧ from_ stream p (j + 1) = false)) :
      FrameRead stream p ones .discard (j + 2) 0 0

/-- The bits of an octet and of the zeros between them. -/
theorem octet_end_bounds {bits : Nat → Bool} {ones j : Nat} (below : ones < 5)
    (ended : OctetEnd bits ones j) : 8 ≤ j ∧ j + (if run bits ones j = 5 then 1 else 0) ≤ 10 := by
  obtain ⟨small, slack⟩ := kept_bounds below j ended.quiet
  rw [ended.full] at small slack
  split <;> omega

theorem sixth_one_bounds {bits : Nat → Bool} {ones j : Nat} (below : ones < 5)
    (sixth : SixthOne bits ones j) (quiet : Quiet 5 bits ones j) : 1 ≤ j ∧ j ≤ 8 := by
  obtain ⟨small, slack⟩ := kept_bounds below j quiet
  have short := sixth.short
  have five := sixth.five
  refine ⟨?_, by omega⟩
  by_contra none
  rw [show j = 0 by omega] at five
  exact absurd five (Nat.ne_of_lt below)

theorem round_of_entry {next : Nat} {result : RxResult} {k state ones' : Nat} (framed : h.state = 1)
    (entry : hdlcFramePrecalc h.ones ((h.data >>> 22).setWidth 16) = next)
    (size : (next &&& 0x0f00) >>> 8 = k) (round : rxRound h = (result, { rxEntryState h next with
      state := state })) (ones : (next &&& (7 <<< 12)) >>> 12 = ones') :
    rxConsumed h = k ∧ (rxRound h).1 = result ∧ (rxRound h).2.data = h.data <<< k ∧
      (rxRound h).2.bits = h.bits - k ∧ (rxRound h).2.ones = ones' ∧ (rxRound h).2.state = state ∧
      (rxRound h).2.mode = h.mode := by
  have searching : ¬ h.state = frameSearch := by
    rw [framed]
    decide
  subst size ones
  refine ⟨by simp only [rxConsumed, searching, ↓reduceIte, entry], ?_⟩
  rw [round]
  exact ⟨rfl, rfl, rfl, rfl, rfl, rfl⟩

theorem round_framed (framed : h.state = 1) {next : Nat}
    (entry : hdlcFramePrecalc h.ones ((h.data >>> 22).setWidth 16) = next) :
    rxRound h =
      if next &&& (1 <<< 15) = statusControl then
        if next &&& controlComplete ≠ 0 then (.complete, { rxEntryState h next with state := 1 })
        else (.discard, rxEntryState h next)
      else (.data (BitVec.ofNat 8 (next &&& 0xff)), rxEntryState h next) := by
  have searching : ¬ h.state = frameSearch := by
    rw [framed]
    decide
  simp only [rxRound, searching, ↓reduceIte, entry]

/-- The entry of an octet. -/
theorem round_data {ones k : Nat} {c : Octet} (framed : h.state = 1) (small : ones < 8)
    (size : k < 16)
    (entry : hdlcFramePrecalc h.ones ((h.data >>> 22).setWidth 16) = hfp statusValid ones k c.toNat) :
    rxConsumed h = k ∧ (rxRound h).1 = .data c ∧ (rxRound h).2.data = h.data <<< k ∧
      (rxRound h).2.bits = h.bits - k ∧ (rxRound h).2.ones = ones ∧ (rxRound h).2.state = 1 ∧
      (rxRound h).2.mode = h.mode := by
  have byte := c.isLt
  rw [show statusValid = 1 <<< 15 from rfl] at entry
  have status := hfp_status small size byte (by decide : 1 < 2)
  refine round_of_entry framed entry (hfp_bits small size byte 1) ?_ (hfp_ones small size byte 1)
  rw [round_framed framed entry, status, if_neg (by decide), hfp_data small size byte 1,
    BitVec.ofNat_toNat, BitVec.setWidth_eq]
  simp only [rxEntryState, status]
  rfl

theorem round_complete (framed : h.state = 1)
    (entry : hdlcFramePrecalc h.ones ((h.data >>> 22).setWidth 16) =
      hfp statusControl 0 8 controlComplete) :
    rxConsumed h = 8 ∧ (rxRound h).1 = .complete ∧ (rxRound h).2.data = h.data <<< 8 ∧
      (rxRound h).2.bits = h.bits - (8 : Nat) ∧ (rxRound h).2.ones = 0 ∧ (rxRound h).2.state = 1 ∧
      (rxRound h).2.mode = h.mode := by
  refine round_of_entry framed entry (by decide) ?_ (by decide)
  rw [round_framed framed entry, if_pos (by decide), if_pos (by decide)]

theorem round_abort {k : Nat} (framed : h.state = 1) (size : k < 16)
    (entry : hdlcFramePrecalc h.ones ((h.data >>> 22).setWidth 16) =
      hfp statusControl 0 k controlAbort) :
    rxConsumed h = k ∧ (rxRound h).1 = .discard ∧ (rxRound h).2.data = h.data <<< k ∧
      (rxRound h).2.bits = h.bits - k ∧ (rxRound h).2.ones = 0 ∧ (rxRound h).2.state = 0 ∧
      (rxRound h).2.mode = h.mode := by
  have byte : controlAbort < 256 := by decide
  rw [show statusControl = 0 <<< 15 from rfl] at entry
  have status := hfp_status (by decide : 0 < 8) size byte (by decide : 0 < 2)
  refine round_of_entry framed entry (hfp_bits (by decide : 0 < 8) size byte 0) ?_
    (hfp_ones (by decide : 0 < 8) size byte 0)
  have code : hfp (0 <<< 15) 0 k controlAbort &&& controlComplete = 0 := by
    clear entry status
    revert size
    revert k
    decide
  rw [round_framed framed entry, status, if_pos (show 0 <<< 15 = statusControl from rfl), code,
    if_neg (by decide)]
  simp only [rxEntryState, status]
  rfl

theorem frame_read_bounds {ones : Nat} (below : ones < 5) {result : RxResult} {k state ones' : Nat}
    (read : FrameRead stream p ones result k state ones') :
    3 ≤ k ∧ k ≤ 10 ∧ (state = 1 ∧ 8 ≤ k ∨ state = 0 ∧ result = .discard) ∧ ones' < 5 ∧
      result ≠ .empty := by
  cases read with
  | octet j c ended short =>
    have bounds := octet_end_bounds below ended
    rw [if_neg (by omega)] at bounds
    exact ⟨by omega, by omega, Or.inl ⟨rfl, by omega⟩, short, by simp⟩
  | full j c ended five =>
    have bounds := octet_end_bounds below ended
    rw [if_pos five] at bounds
    exact ⟨by omega, by omega, Or.inl ⟨rfl, by omega⟩, by omega, by simp⟩
  | complete j sixth quiet last => exact ⟨by omega, by omega, Or.inl ⟨rfl, by omega⟩, by omega, by simp⟩
  | abort j sixth quiet other =>
    have bounds := sixth_one_bounds below sixth quiet
    exact ⟨by omega, by omega, Or.inr ⟨rfl, rfl⟩, by omega, by simp⟩

/-- What one round does to a register that shows at least ten bits of a frame. -/
theorem round_frame (behind : Behind stream h p received) (framed : h.state = 1)
    (enough : 10 ≤ received - p) :
    ∃ result k state ones, FrameRead stream p h.ones result k state ones ∧
      rxConsumed h = k ∧ (rxRound h).1 = result ∧ Behind stream (rxRound h).2 (p + k) received ∧
      (rxRound h).2.state = state ∧ (rxRound h).2.ones = ones ∧ (rxRound h).2.mode = h.mode := by
  have found := frame_precalc_entry behind.ones (window_seen behind enough)
  generalize entry : hdlcFramePrecalc h.ones ((h.data >>> 22).setWidth 16) = next at found
  suffices step : ∃ result k state ones, FrameRead stream p h.ones result k state ones ∧
      rxConsumed h = k ∧ (rxRound h).1 = result ∧ (rxRound h).2.data = h.data <<< k ∧
      (rxRound h).2.bits = h.bits - k ∧ (rxRound h).2.ones = ones ∧
      (rxRound h).2.state = state ∧ (rxRound h).2.mode = h.mode by
    obtain ⟨result, k, state, ones, read, consumed, value, data, bits, counted, after, mode⟩ := step
    obtain ⟨_, most, next, below, _⟩ := frame_read_bounds behind.ones read
    exact ⟨result, k, state, ones, read, consumed, value,
      behind_take behind (by omega) data bits (by omega) (by omega), after, counted, mode⟩
  cases found with
  | octet j c ended =>
    have bounds := octet_end_bounds behind.ones ended
    have limit := ended.quiet j (Nat.le_refl j)
    unfold octetEntry at entry
    by_cases five : run (from_ stream p) h.ones j = 5
    · rw [if_pos five] at entry bounds
      exact ⟨_, _, _, _, .full j c ended five, round_data framed (by decide) (by omega) entry⟩
    · rw [if_neg five] at entry bounds
      have short : run (from_ stream p) h.ones j < 5 := by omega
      exact ⟨_, _, _, _, .octet j c ended short, round_data framed (by omega) (by omega) entry⟩
  | complete j sixth quiet last =>
    exact ⟨_, _, _, _, .complete j sixth quiet last, round_complete framed entry⟩
  | abort j sixth quiet other =>
    have bounds := sixth_one_bounds behind.ones sixth quiet
    exact ⟨_, _, _, _, .abort j sixth quiet other, round_abort framed (by omega) entry⟩

theorem round_searching (search : h.state = frameSearch) :
    rxRound h = (.empty, { h with
      bits := h.bits - (hdlcSearchPrecalc ((h.data >>> 24).setWidth 8) &&& 0x0f : Nat)
      data := h.data <<< (hdlcSearchPrecalc ((h.data >>> 24).setWidth 8) &&& 0x0f)
      state := hdlcSearchPrecalc ((h.data >>> 24).setWidth 8) >>> 4, ones := 0 }) := if_pos search

/-- A round of the search takes a flag or skips up to eight bits. -/
theorem round_search (behind : Behind stream h p received) (searching : h.state = 0)
    (enough : 8 ≤ received - p) :
    ∃ k state, rxConsumed h = k ∧ (rxRound h).1 = .empty ∧ 1 ≤ k ∧ k ≤ 8 ∧
      Behind stream (rxRound h).2 (p + k) received ∧ (rxRound h).2.state = state ∧
      (rxRound h).2.ones = 0 ∧ (rxRound h).2.mode = h.mode ∧ (state = 0 ∨ state = 1 ∧ k = 8) := by
  have search : h.state = frameSearch := searching
  rw [round_searching search, show rxConsumed h = _ from if_pos search]
  rcases search_entry ((h.data >>> 24).setWidth 8) with ⟨_, entry⟩ | ⟨_, stay, least, most⟩
  · rw [entry]
    refine ⟨8, 1, rfl, rfl, by omega, by omega, ?_, rfl, rfl, rfl, Or.inr ⟨rfl, rfl⟩⟩
    exact behind_take behind enough rfl rfl (Nat.zero_lt_succ 4) (Or.inr rfl)
  · refine ⟨_, 0, rfl, rfl, least, most, ?_, stay, rfl, rfl, Or.inl rfl⟩
    exact behind_take behind (by omega) rfl rfl (Nat.zero_lt_succ 4) (Or.inl stay)

/-- How much may be left when a run stops. -/
def Light (h : State) (n : Nat) : Prop := n ≤ 14 ∧ (h.state = 1 → n ≤ 9)

/-- What one run of the loop does: it stops, and the register still shows the end
    of the line bits received. -/
theorem rx_loop_stops {rounds : Nat} (behind : Behind stream h p received)
    (fuel : received - p + 1 < rounds)
    (room : received - p ≤ 22) (less : h.state = 1 → received - p ≤ 17) :
    ∃ result h' p', fasthdlcRxLoop rounds h .empty = some (result, h') ∧
      Behind stream h' p' received ∧ p ≤ p' ∧ Light h' (received - p') ∧ h'.mode = h.mode := by
  induction rounds generalizing h p with
  | zero => omega
  | succ rounds ih =>
    have inside := behind.inside
    by_cases ready : Ready h
    · rw [rx_loop_round ready]
      rw [ready_iff behind, rxMinbits] at ready
      rcases behind.known with searching | framed
      · rw [if_pos searching] at ready
        obtain ⟨k, state, consumed, none, least, most, next, after, _, mode, target⟩ :=
          round_search behind searching ready
        rw [none]
        obtain ⟨result, h', p', run, shown, later, light, mode'⟩ :=
          ih next (by omega) (by omega) (by omega)
        exact ⟨result, h', p', run, shown, by omega, light, mode'.trans mode⟩
      · rw [if_neg (by omega)] at ready
        obtain ⟨result, k, state, ones, read, _, value, next, after, _, mode⟩ :=
          round_frame behind framed ready
        obtain ⟨least, most, target, _, some⟩ := frame_read_bounds behind.ones read
        obtain ⟨rounds, rfl⟩ : ∃ n, rounds = n + 1 := ⟨rounds - 1, by omega⟩
        rw [value, rx_loop_done some]
        have short := less framed
        exact ⟨result, (rxRound h).2, p + k, rfl, next, by omega, ⟨by omega, by omega⟩, mode⟩
    · rw [rx_loop_idle ready]
      rw [ready_iff behind, rxMinbits] at ready
      refine ⟨.empty, h, p, rfl, behind, Nat.le_refl p, ⟨?_, ?_⟩, rfl⟩
      · split at ready <;> omega
      · intro framed
        rw [if_neg (by omega)] at ready
        omega

/-- No round takes a bit that has not been received. -/
theorem visits_behind {g : State} (behind : Behind stream h p received) (visits : Visits h g) :
    ∃ q, p ≤ q ∧ Behind stream g q received := by
  induction visits with
  | start => exact ⟨p, Nat.le_refl p, behind⟩
  | @round g before ready none ih =>
    obtain ⟨q, le, shown⟩ := ih
    rw [ready_iff shown, rxMinbits] at ready
    rcases shown.known with searching | framed
    · rw [if_pos searching] at ready
      obtain ⟨k, _, _, _, _, _, next, _⟩ := round_search shown searching ready
      exact ⟨q + k, by omega, next⟩
    · rw [if_neg (by omega)] at ready
      obtain ⟨_, k, _, _, _, _, _, next, _⟩ := round_frame shown framed ready
      exact ⟨q + k, by omega, next⟩

theorem consumed_held {g : State} {q : Nat} (behind : Behind stream g q received) (ready : Ready g) :
    (rxConsumed g : Int) ≤ g.bits := by
  rw [ready_iff behind, rxMinbits] at ready
  rw [behind_bits behind]
  rcases behind.known with searching | framed
  · rw [if_pos searching] at ready
    obtain ⟨k, _, consumed, _, _, most, _⟩ := round_search behind searching ready
    omega
  · rw [if_neg (by omega)] at ready
    obtain ⟨_, k, _, _, read, consumed, _⟩ := round_frame behind framed ready
    have bounds := frame_read_bounds behind.ones read
    omega

end Round

section Stream
variable (mode : Mode) (octets : Nat → Octet)

/-- The receiver after the first n octets of the stream. -/
def received : Nat → Option State
  | 0 => some (fasthdlcInit mode)
  | n + 1 => (received n).bind fun h =>
      (fasthdlcRxRun (fasthdlcRxLoadNocheck h (octets n))).map Prod.snd

/-- What fasthdlc_rx_run returns for octet n. -/
def returned (n : Nat) : Option RxResult :=
  (received mode octets n).bind fun h =>
    (fasthdlcRxRun (fasthdlcRxLoadNocheck h (octets n))).map Prod.fst

variable {mode octets}

/-- The receiver between two octets. -/
structure Between (h : State) (n p : Nat) : Prop where
  behind : Behind (lineStream mode octets) h p (minbitsOf mode * n)
  light : Light h (minbitsOf mode * n - p)
  mode : h.mode = mode

theorem between_init : @Between mode octets (fasthdlcInit mode) 0 0 :=
  ⟨⟨Nat.zero_le _, holds_init mode, Nat.zero_lt_succ 4, Or.inl rfl⟩,
    ⟨Nat.zero_le _, by intro framed; exact Nat.zero_le _⟩, rfl⟩

theorem between_load {h : State} {n p : Nat} (between : @Between mode octets h n p) :
    Behind (lineStream mode octets) (fasthdlcRxLoadNocheck h (octets n)) p
      (minbitsOf mode * (n + 1)) := by
  have width := minbits_bounds mode
  have inside := between.behind.inside
  have light := between.light.1
  have loaded := rx_load between.behind.held
    (by rw [slice_length, between.mode]; omega) (octets n)
  have joined := @slice_append (lineStream mode octets) p (minbitsOf mode * n - p) (minbitsOf mode)
  rw [Nat.add_sub_cancel' inside, line_slice, ← Nat.sub_add_comm inside, ← Nat.mul_succ] at joined
  rw [between.mode, joined] at loaded
  have same := rx_load_state h (octets n)
  refine ⟨by rw [Nat.mul_succ]; omega, loaded, ?_, ?_⟩
  · rw [same]
    exact between.behind.ones
  · rw [same]
    exact between.behind.known

theorem between_step {h : State} {n p : Nat} (between : @Between mode octets h n p) :
    ∃ result h' p', fasthdlcRxRun (fasthdlcRxLoadNocheck h (octets n)) = some (result, h') ∧
      @Between mode octets h' (n + 1) p' ∧ p ≤ p' := by
  have width := minbits_bounds mode
  have inside := between.behind.inside
  have loaded := between_load between
  obtain ⟨light, less⟩ := between.light
  have size : minbitsOf mode * (n + 1) = minbitsOf mode * n + minbitsOf mode := Nat.mul_succ _ _
  have known : (fasthdlcRxLoadNocheck h (octets n)).state = h.state := by rw [rx_load_state]
  obtain ⟨result, h', p', run, shown, later, light', mode'⟩ :=
    @rx_loop_stops _ _ _ _ 40 loaded (by omega) (by omega)
      (by rw [known]; intro framed; have := less framed; omega)
  refine ⟨result, h', p', run, ⟨shown, light', ?_⟩, later⟩
  rw [mode', rx_load_state, between.mode]

theorem received_between (n : Nat) :
    ∃ h p, received mode octets n = some h ∧ @Between mode octets h n p := by
  induction n with
  | zero => exact ⟨fasthdlcInit mode, 0, rfl, between_init⟩
  | succ n ih =>
    obtain ⟨h, p, reached, between⟩ := ih
    obtain ⟨result, h', p', run, next, _⟩ := between_step between
    exact ⟨h', p', by simp only [received, reached, Option.bind_some, run, Option.map_some], next⟩

end Stream

end FasthdlcRounds
