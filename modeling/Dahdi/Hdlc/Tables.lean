import Dahdi.Library.ShiftRegister
import Dahdi.Library.BitStuffing
import Dahdi.Hdlc.Fasthdlc
import Mathlib

/-!
What the entries of the encoder and the frame table mean. An octet travels
lowest bit first with a zero after five ones; the tables agree on that.
-/
namespace FasthdlcTables
open ShiftRegister BitStuffing Fasthdlc

/-- Wire bits of one octet after a run of ones. -/
def octetBits (ones : Nat) (y : Octet) : List Bool := stuff 5 ones (low 8 y)

def onesAfter (ones : Nat) (y : Octet) : Nat := runAfter 5 ones (low 8 y)

def flagBits : List Bool := [false, true, true, true, true, true, true, false]

theorem ones_below {ones : Nat} (below : ones < 5) (y : Octet) : onesAfter ones y < 5 :=
  run_below_limit below _

theorem octet_bits_length {ones : Nat} (below : ones < 5) (y : Octet) :
    8 ≤ (octetBits ones y).length ∧ (octetBits ones y).length ≤ 10 := by
  have lower := length_le_stuff 5 ones (low 8 y)
  have upper := stuff_length_le (by omega) below (low 8 y)
  simp only [low_length] at lower upper
  exact ⟨lower, by unfold octetBits; omega⟩

theorem stuff_zero_settled {e : Encoding} (below : e.ones < 5) : stuffZero e = e := by
  simp [stuffZero, Nat.ne_of_lt below]

theorem stuff_zero_below {e : Encoding} (atMost : e.ones ≤ 5) : (stuffZero e).ones < 5 := by
  simp only [stuffZero]
  split
  · simp
  · omega

/- The source inserts the zero at the start of the next round and once more
   after the last one; inserting it at once makes no difference. -/
theorem encode_loop_settle (z : Nat) (y : Octet) {e : Encoding} (atMost : e.ones ≤ 5) :
    stuffZero (hdlcEncodeLoop z y (stuffZero e)) = stuffZero (hdlcEncodeLoop z y e) := by
  have again := stuff_zero_settled (stuff_zero_below atMost)
  cases z <;> simp [hdlcEncodeLoop, again]

theorem encode_loop_spec (z : Nat) (y : Octet) (e : Encoding) (out : List Bool)
    (below : e.ones < 5) (data : Ends e.data out) (count : e.bits = out.length) :
    let last := stuffZero (hdlcEncodeLoop z y e)
    Ends last.data (out ++ stuff 5 e.ones (low z y)) ∧
      last.ones = runAfter 5 e.ones (low z y) ∧
      last.bits = (out ++ stuff 5 e.ones (low z y)).length := by
  induction z generalizing y e out with
  | zero => simpa [hdlcEncodeLoop, low, stuff, runAfter, stuff_zero_settled below] using
      And.intro data count
  | succ z ih =>
    rw [low_succ]
    simp only [hdlcEncodeLoop, stuff_zero_settled below]
    cases bit : y.getLsbD 0 with
    | false =>
      have rest := ih (y >>> 1) ⟨e.data <<< 1, 0, e.bits + 1⟩ (out ++ [false])
        (by simp) (ends_shift data) (by simp [count])
      simpa [stuff, runAfter] using rest
    | true =>
      by_cases full : e.ones + 1 = 5
      · have rest := ih (y >>> 1) ⟨((e.data <<< 1) ||| 1) <<< 1, 0, e.bits + 1 + 1⟩
          (out ++ [true] ++ [false]) (by simp) (ends_shift (ends_shift_one data)) (by simp [count])
        have settle := encode_loop_settle z (y >>> 1)
          (e := ⟨(e.data <<< 1) ||| 1, e.ones + 1, e.bits + 1⟩) (by simp [full])
        have zeroed : stuffZero ⟨(e.data <<< 1) ||| 1, e.ones + 1, e.bits + 1⟩ =
            ⟨((e.data <<< 1) ||| 1) <<< 1, 0, e.bits + 1 + 1⟩ := by simp [stuffZero, full]
        rw [zeroed] at settle
        simp only [settle] at rest
        simpa [stuff, runAfter, full] using rest
      · have rest := ih (y >>> 1) ⟨(e.data <<< 1) ||| 1, e.ones + 1, e.bits + 1⟩
          (out ++ [true]) (by simp only; omega) (ends_shift_one data) (by simp [count])
        simpa [stuff, runAfter, full] using rest

theorem ends_to_top {x : BitVec 16} {bits : List Bool} (h : Ends x bits)
    (fits : bits.length ≤ 10) (i : Nat) (inside : i < 32) :
    ((x <<< (10 - bits.length)).setWidth 32 <<< 22).getMsbD i = bits.getD i false := by
  rw [BitVec.getMsbD_eq_getLsbD, BitVec.getLsbD_shiftLeft, BitVec.getLsbD_setWidth,
    BitVec.getLsbD_shiftLeft]
  by_cases early : i < bits.length
  · rw [show 32 - 1 - i - 22 - (10 - bits.length) = bits.length - 1 - i by omega,
      h (bits.length - 1 - i) (by omega), List.getD_eq_getElem?_getD,
      List.getElem?_reverse (by omega),
      show bits.length - 1 - (bits.length - 1 - i) = i by omega]
    have placed : 32 - 1 - i < 32 ∧ ¬ 32 - 1 - i < 22 ∧ 32 - 1 - i - 22 < 32 ∧
        32 - 1 - i - 22 < 16 ∧ ¬ 32 - 1 - i - 22 < 10 - bits.length := by omega
    simp only [inside, placed, decide_true, decide_false, Bool.not_false, Bool.true_and,
      List.getD_eq_getElem?_getD]
  · rw [getD_of_length_le (by omega)]
    have below : 32 - 1 - i < 22 ∨ 32 - 1 - i - 22 < 10 - bits.length := by omega
    rcases below with below | below <;> simp [below]

theorem field_bit {v k : Nat} (small : v < 2 ^ k) {j : Nat} (high : k ≤ j) :
    (BitVec.ofNat 32 v).getLsbD j = false := by
  rw [BitVec.getLsbD_ofNat, Nat.testBit_lt_two_pow
    (Nat.lt_of_lt_of_le small (Nat.pow_le_pow_right (by omega) high))]
  simp

section Pack
variable (top : BitVec 32) {ones bits : Nat}

theorem pack_bits (smallBits : bits < 16) :
    (((top <<< 22) ||| (BitVec.ofNat 32 ones <<< 8) ||| BitVec.ofNat 32 bits) &&& 0xf#32).toNat =
      bits := by
  have mask : ∀ j < 32, (0xf#32).getLsbD j = decide (j < 4) := by decide
  have same : (((top <<< 22) ||| (BitVec.ofNat 32 ones <<< 8) ||| BitVec.ofNat 32 bits) &&& 0xf#32) =
      BitVec.ofNat 32 bits := by
    apply BitVec.eq_of_getLsbD_eq
    intro j hj
    rw [BitVec.getLsbD_and, BitVec.getLsbD_or, BitVec.getLsbD_or, BitVec.getLsbD_shiftLeft,
      BitVec.getLsbD_shiftLeft, mask j hj]
    by_cases inField : j < 4
    · simp [inField, show j < 22 by omega, show j < 8 by omega]
    · simp only [inField, decide_false, Bool.and_false]
      exact (field_bit (k := 4) smallBits (by omega)).symm
  rw [same, BitVec.toNat_ofNat]
  exact Nat.mod_eq_of_lt (by omega)

theorem pack_ones (smallOnes : ones < 16) (smallBits : bits < 16) :
    ((((top <<< 22) ||| (BitVec.ofNat 32 ones <<< 8) ||| BitVec.ofNat 32 bits) &&& 0xf00#32) >>>
      8).toNat = ones := by
  have mask : ∀ j < 32, (0xf00#32).getLsbD j = (decide (8 ≤ j) && decide (j < 12)) := by decide
  have same : ((((top <<< 22) ||| (BitVec.ofNat 32 ones <<< 8) ||| BitVec.ofNat 32 bits) &&&
      0xf00#32) >>> 8) = BitVec.ofNat 32 ones := by
    apply BitVec.eq_of_getLsbD_eq
    intro j hj
    rw [BitVec.getLsbD_ushiftRight]
    by_cases inField : j < 4
    · rw [BitVec.getLsbD_and, BitVec.getLsbD_or, BitVec.getLsbD_or, BitVec.getLsbD_shiftLeft,
        BitVec.getLsbD_shiftLeft, mask (8 + j) (by omega),
        field_bit (k := 4) smallBits (by omega : 4 ≤ 8 + j)]
      simp [show 8 + j < 22 by omega, show 8 + j < 32 by omega, show 8 + j < 12 by omega]
    · rw [field_bit (k := 4) smallOnes (by omega : 4 ≤ j)]
      by_cases inWord : 8 + j < 32
      · rw [BitVec.getLsbD_and, mask (8 + j) inWord]
        simp [show ¬ 8 + j < 12 by omega]
      · exact BitVec.getLsbD_of_ge _ _ (by omega)
  rw [same, BitVec.toNat_ofNat]
  exact Nat.mod_eq_of_lt (by omega)

theorem pack_data (smallOnes : ones < 16) (smallBits : bits < 16) :
    (((top <<< 22) ||| (BitVec.ofNat 32 ones <<< 8) ||| BitVec.ofNat 32 bits) &&& 0xffc00000#32) =
      top <<< 22 := by
  have mask : ∀ j < 32, (0xffc00000#32).getLsbD j = decide (22 ≤ j) := by decide
  apply BitVec.eq_of_getLsbD_eq
  intro j hj
  rw [BitVec.getLsbD_and, BitVec.getLsbD_or, BitVec.getLsbD_or, mask j hj]
  by_cases inField : 22 ≤ j
  · rw [field_bit (k := 4) smallBits (by omega : 4 ≤ j), BitVec.getLsbD_shiftLeft (n := 8),
      field_bit (k := 4) smallOnes (by omega : 4 ≤ j - 8)]
    simp [inField]
  · rw [BitVec.getLsbD_shiftLeft (n := 22)]
    simp [inField, show j < 22 by omega]

end Pack

theorem encode_precalc_spec {ones : Nat} (below : ones < 5) (y : Octet) :
    let res := hdlcEncodePrecalc ones y
    ((res &&& 0xf00#32) >>> 8).toNat = onesAfter ones y ∧
      (res &&& 0xf#32).toNat = (octetBits ones y).length ∧
      Shows (res &&& 0xffc00000#32) (octetBits ones y) := by
  obtain ⟨data, last, count⟩ :=
    encode_loop_spec 8 y ⟨0, ones, 0⟩ [] below ends_empty rfl
  simp only [List.nil_append] at data last count
  have short := octet_bits_length below y
  have after := ones_below below y
  unfold onesAfter at after ⊢
  unfold octetBits at short ⊢
  simp only [hdlcEncodePrecalc, last, count]
  refine ⟨pack_ones _ (by omega) (by omega), pack_bits _ (by omega), by omega, ?_⟩
  intro i hi
  rw [pack_data _ (by omega) (by omega)]
  exact ends_to_top data short.2 i hi

/-- The receiver's byte while it fills from the top, earliest bit lowest. -/
def Filling (data : Octet) (bits : List Bool) : Prop :=
  ∀ i, i < 8 → data.getLsbD i =
    if i + bits.length < 8 then false else bits.getD (i + bits.length - 8) false

theorem filling_empty : Filling 0 [] := by
  intro i hi
  simp [hi]

theorem filling_zero {data : Octet} {bits : List Bool} (h : Filling data bits)
    (room : bits.length < 8) : Filling (data >>> 1) (bits ++ [false]) := by
  intro i hi
  rw [BitVec.getLsbD_ushiftRight]
  by_cases last : i = 7
  · subst last
    simp [show 7 + (bits.length + 1) - 8 = bits.length by omega]
  · rw [h (1 + i) (by omega)]
    have index : 1 + i + bits.length = i + (bits.length + 1) := by omega
    simp only [List.length_append, List.length_cons, List.length_nil, Nat.zero_add, index]
    split
    · rfl
    · simp [List.getElem?_append_left (by omega : i + (bits.length + 1) - 8 < bits.length)]

theorem filling_one {data : Octet} {bits : List Bool} (h : Filling data bits)
    (room : bits.length < 8) : Filling ((data >>> 1) ||| 0x80#8) (bits ++ [true]) := by
  have mask : ∀ j < 8, (0x80#8).getLsbD j = decide (j = 7) := by decide
  intro i hi
  rw [BitVec.getLsbD_or, filling_zero h room i hi, mask i hi]
  by_cases last : i = 7
  · subst last
    simp [show 7 + (bits.length + 1) - 8 = bits.length by omega]
    omega
  · simp only [List.length_append, List.length_cons, List.length_nil, Nat.zero_add, last,
      decide_false, Bool.or_false]
    split
    · rfl
    · simp [List.getElem?_append_left (by omega : i + (bits.length + 1) - 8 < bits.length)]

/- Skipping an inserted zero shifts down and up again; the bit that falls out
   is zero as long as the byte is not full. -/
theorem filling_skip {data : Octet} {bits : List Bool} (h : Filling data bits)
    (room : bits.length < 8) : (data >>> 1) <<< 1 = data := by
  apply BitVec.eq_of_getLsbD_eq
  intro i hi
  rw [BitVec.getLsbD_shiftLeft, BitVec.getLsbD_ushiftRight]
  cases i with
  | zero =>
    rw [h 0 (by omega)]
    simp [room]
  | succ i => simp [show 1 + i = i + 1 by omega, hi]

theorem filling_full {data y : Octet} (h : Filling data (low 8 y)) : data = y := by
  apply BitVec.eq_of_getLsbD_eq
  intro i hi
  rw [h i hi]
  simp [low, hi]

/-- The window holds the bits from its tenth bit downwards. -/
def Window (c : BitVec 16) (bits : List Bool) : Prop :=
  ∀ i, i < bits.length → c.getLsbD (9 - i) = bits.getD i false

theorem window_next {c : BitVec 16} {b : Bool} {bits : List Bool} (h : Window c (b :: bits))
    (fits : bits.length ≤ 9) : c.getLsbD 9 = b ∧ Window (c <<< 1) bits := by
  refine ⟨by simpa using h 0 (by simp), ?_⟩
  intro i hi
  have next := h (i + 1) (by simpa using hi)
  rw [BitVec.getLsbD_shiftLeft, show 9 - i - 1 = 9 - (i + 1) by omega, next]
  simp [show 9 - i < 16 by omega, show ¬ 9 - i = 0 by omega]

section Rounds
variable {rounds ones bits consumed : Nat} {data : Octet} {c : BitVec 16}

theorem frame_round (rounds ones : Nat) (data : Octet) (bits consumed : Nat) (c : BitVec 16) :
    hdlcFrameLoop (rounds + 1) ones data bits consumed c =
      if bits < 8 then
        if ones = 5 then
          if c.getLsbD 9 then
            if !c.getLsbD 8 && bits = 6 then hfp statusControl 0 8 controlComplete
            else hfp statusControl 0 (consumed + 1 + 1) controlAbort
          else hdlcFrameLoop rounds 0 ((data >>> 1) <<< 1) bits (consumed + 1) (c <<< 1)
        else if c.getLsbD 9 then
          hdlcFrameLoop rounds (ones + 1) (data >>> 1 ||| 0x80#8) (bits + 1) (consumed + 1) (c <<< 1)
        else hdlcFrameLoop rounds 0 (data >>> 1) (bits + 1) (consumed + 1) (c <<< 1)
      else if ones = 5 then hfp statusValid 0 (consumed + 1) data.toNat
      else hfp statusValid ones consumed data.toNat := rfl

theorem frame_round_zero (run : ones ≠ 5) (room : bits < 8) (bit : c.getLsbD 9 = false) :
    hdlcFrameLoop (rounds + 1) ones data bits consumed c =
      hdlcFrameLoop rounds 0 (data >>> 1) (bits + 1) (consumed + 1) (c <<< 1) := by
  simp only [frame_round, run, room, bit, ↓reduceIte, Bool.false_eq_true]

theorem frame_round_one (run : ones ≠ 5) (room : bits < 8) (bit : c.getLsbD 9 = true) :
    hdlcFrameLoop (rounds + 1) ones data bits consumed c =
      hdlcFrameLoop rounds (ones + 1) (data >>> 1 ||| 0x80#8) (bits + 1) (consumed + 1)
        (c <<< 1) := by
  simp [frame_round, run, room, bit]

theorem frame_round_skip (room : bits < 8) (bit : c.getLsbD 9 = false) :
    hdlcFrameLoop (rounds + 1) 5 data bits consumed c =
      hdlcFrameLoop rounds 0 ((data >>> 1) <<< 1) bits (consumed + 1) (c <<< 1) := by
  simp only [frame_round, room, bit, ↓reduceIte, Bool.false_eq_true]

theorem frame_round_flag (bit : c.getLsbD 9 = true) (next : c.getLsbD 8 = false) :
    hdlcFrameLoop (rounds + 1) 5 data 6 consumed c = hfp statusControl 0 8 controlComplete := by
  simp only [frame_round, bit, next]
  rfl

theorem frame_round_full (run : ones < 5) :
    hdlcFrameLoop (rounds + 1) ones data 8 consumed c =
      hfp statusValid ones consumed data.toNat := by
  simp [frame_round, Nat.ne_of_lt run]

theorem frame_round_full_five :
    hdlcFrameLoop (rounds + 1) 5 data 8 consumed c =
      hfp statusValid 0 (consumed + 1) data.toNat := by
  simp [frame_round]

end Rounds

theorem frame_loop_spec {rounds ones : Nat} {data : Octet} {consumed : Nat} {c : BitVec 16}
    {front rest : List Bool} {y : Octet} (below : ones < 5) (octet : low 8 y = front ++ rest)
    (filled : Filling data front) (window : Window c (stuff 5 ones rest))
    (fits : (stuff 5 ones rest).length ≤ 10) (enough : 2 * rest.length < rounds) :
    hdlcFrameLoop rounds ones data front.length consumed c =
      hfp statusValid (runAfter 5 ones rest) (consumed + (stuff 5 ones rest).length) y.toNat := by
  have total : front.length + rest.length = 8 := by
    simpa using (congrArg List.length octet).symm
  induction rest generalizing rounds ones data consumed c front with
  | nil =>
    obtain ⟨rounds, rfl⟩ : ∃ r, rounds = r + 1 := ⟨rounds - 1, by omega⟩
    simp only [List.append_nil] at octet
    rw [← octet] at filled
    rw [show front.length = 8 from total, frame_round_full below, filling_full filled]
    rfl
  | cons b rest ih =>
    simp only [List.length_cons] at total enough
    have room : front.length < 8 := by omega
    obtain ⟨rounds, rfl⟩ : ∃ r, rounds = r + 3 := ⟨rounds - 3, by omega⟩
    have grown (b : Bool) : (front ++ [b]).length = front.length + 1 := by simp
    have octet' : low 8 y = (front ++ [b]) ++ rest := by simpa using octet
    cases b with
    | false =>
      simp only [stuff, List.length_cons] at window fits
      obtain ⟨bit, window⟩ := window_next window (by omega)
      rw [frame_round_zero (by omega) room bit, ← grown false,
        ih (by omega) octet' (filling_zero filled room) window (by omega) (by omega)
          (by rw [grown]; omega)]
      simp only [stuff, runAfter, List.length_cons]
      congr 1
      omega
    | true =>
      have filled' := filling_one filled room
      by_cases full : ones + 1 = 5
      · simp only [stuff, full, ↓reduceIte, List.length_cons] at window fits
        obtain ⟨bit, window⟩ := window_next window (by simp; omega)
        obtain ⟨zero, window⟩ := window_next window (by omega)
        rw [frame_round_one (by omega) room bit, full]
        simp only [stuff, runAfter, full, ↓reduceIte, List.length_cons]
        cases rest with
        | nil =>
          rw [List.append_nil] at octet'
          rw [← octet'] at filled'
          rw [show front.length + 1 = 8 from total, frame_round_full_five, filling_full filled']
          rfl
        | cons b rest =>
          simp only [List.length_cons] at total
          rw [frame_round_skip (by omega) zero, filling_skip filled' (by rw [grown]; omega),
            ← grown true, ih (by omega) octet' filled' window (by omega)
              (by simp only [List.length_cons] at enough ⊢; omega) (by rw [grown]; simp only [List.length_cons]; omega)]
          congr 1
          omega
      · simp only [stuff, full, ↓reduceIte, List.length_cons] at window fits
        obtain ⟨bit, window⟩ := window_next window (by omega)
        rw [frame_round_one (by omega) room bit, ← grown true,
          ih (by omega) octet' filled' window (by omega) (by omega) (by rw [grown]; omega)]
        simp only [stuff, runAfter, full, ↓reduceIte, List.length_cons]
        congr 1
        omega

theorem frame_precalc_octet {ones : Nat} (below : ones < 5) (y : Octet) (c : BitVec 16)
    (window : Window c (octetBits ones y)) :
    hdlcFramePrecalc ones c =
      hfp statusValid (onesAfter ones y) (octetBits ones y).length y.toNat := by
  have spec := @frame_loop_spec 17 ones 0 0 c [] (low 8 y) y below rfl filling_empty window
    (octet_bits_length below y).2 (by simp)
  simpa [hdlcFramePrecalc, octetBits, onesAfter] using spec

theorem frame_precalc_flag {ones : Nat} (below : ones < 5) (c : BitVec 16)
    (window : Window c flagBits) :
    hdlcFramePrecalc ones c = hfp statusControl 0 8 controlComplete := by
  obtain ⟨b0, w0⟩ := window_next window (by simp)
  obtain ⟨b1, w1⟩ := window_next w0 (by simp)
  obtain ⟨b2, w2⟩ := window_next w1 (by simp)
  obtain ⟨b3, w3⟩ := window_next w2 (by simp)
  obtain ⟨b4, w4⟩ := window_next w3 (by simp)
  obtain ⟨b5, w5⟩ := window_next w4 (by simp)
  obtain ⟨b6, w6⟩ := window_next w5 (by simp)
  rw [hdlcFramePrecalc, frame_round_zero (by omega) (by omega) b0,
    frame_round_one (by omega) (by omega) b1, frame_round_one (by omega) (by omega) b2,
    frame_round_one (by omega) (by omega) b3, frame_round_one (by omega) (by omega) b4,
    frame_round_one (by omega) (by omega) b5]
  exact frame_round_flag b6 (w5 1 (by simp))

section Fields
variable {ones bits data : Nat} (smallOnes : ones < 8) (smallBits : bits < 16)
  (smallData : data < 256)
include smallOnes smallBits smallData

theorem hfp_sum (s : Nat) : hfp (s <<< 15) ones bits data =
    s * 2 ^ 15 + (ones * 2 ^ 12 + (bits * 2 ^ 8 + data)) := by
  have low : bits <<< 8 ||| data = bits * 2 ^ 8 + data := by
    rw [← Nat.shiftLeft_add_eq_or_of_lt (by omega), Nat.shiftLeft_eq]
  have mid : ones <<< 12 ||| (bits * 2 ^ 8 + data) = ones * 2 ^ 12 + (bits * 2 ^ 8 + data) := by
    rw [← Nat.shiftLeft_add_eq_or_of_lt (by omega), Nat.shiftLeft_eq]
  rw [hfp, Nat.or_assoc, Nat.or_assoc, low, mid, ← Nat.shiftLeft_add_eq_or_of_lt (by omega),
    Nat.shiftLeft_eq]

theorem hfp_bits (s : Nat) : (hfp (s <<< 15) ones bits data &&& 0x0f00) >>> 8 = bits := by
  rw [hfp_sum smallOnes smallBits smallData, Nat.shiftRight_and_distrib]
  change _ &&& 2 ^ 4 - 1 = _
  rw [Nat.and_two_pow_sub_one_eq_mod, Nat.shiftRight_eq_div_pow]
  omega

theorem hfp_ones (s : Nat) : (hfp (s <<< 15) ones bits data &&& (7 <<< 12)) >>> 12 = ones := by
  rw [hfp_sum smallOnes smallBits smallData, Nat.shiftRight_and_distrib]
  change _ &&& 2 ^ 3 - 1 = _
  rw [Nat.and_two_pow_sub_one_eq_mod, Nat.shiftRight_eq_div_pow]
  omega

theorem hfp_data (s : Nat) : hfp (s <<< 15) ones bits data &&& 0xff = data := by
  rw [hfp_sum smallOnes smallBits smallData]
  change _ &&& 2 ^ 8 - 1 = _
  rw [Nat.and_two_pow_sub_one_eq_mod]
  omega

theorem hfp_status {s : Nat} (small : s < 2) :
    hfp (s <<< 15) ones bits data &&& (1 <<< 15) = s <<< 15 := by
  rw [hfp_sum smallOnes smallBits smallData]
  change _ &&& 2 ^ 15 = _
  rw [Nat.and_two_pow, Nat.testBit_eq_decide_div_mod_eq, Nat.shiftLeft_eq]
  have quotient : (s * 2 ^ 15 + (ones * 2 ^ 12 + (bits * 2 ^ 8 + data))) / 2 ^ 15 = s := by omega
  rw [quotient]
  interval_cases s <;> simp

end Fields

end FasthdlcTables
