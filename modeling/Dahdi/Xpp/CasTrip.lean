import Dahdi.Xpp.PriCas

/-!
The signalling bits of a PRI span go out and come back: in every line mode each
channel has a field of its own in the registers, which the encoder writes and the
decoder reads.
-/
namespace CasTrip
open Xpp PriCas BitFields

/-- Where the bits of a channel stand. -/
def field : LineMode → Nat → Field
  | .e1, pos => ⟨pos % 16, if 16 ≤ pos then 0 else 4, 4⟩
  | .esf, pos => ⟨pos / 2, (2 - pos % 2 - 1) * 4, 4⟩
  | .d4, pos => ⟨pos / 4, (4 - pos % 4 - 1) * 2, 2⟩

/-- What the field holds for the bits of a channel, and back. -/
def value : LineMode → BitVec 32 → Byte
  | .d4, bits => (bits >>> 2).setWidth 8
  | _, bits => bits.setWidth 8

def shownBits : LineMode → Byte → BitVec 32
  | .d4, v => v.setWidth 32 <<< 2
  | _, v => v.setWidth 32

section Fields
variable {mode : LineMode} {i j : Nat}

theorem field_fits (mode : LineMode) (i : Nat) : (field mode i).shift + (field mode i).width ≤ 8 := by
  cases mode with
  | e1 =>
    simp only [field]
    split <;> omega
  | esf =>
    simp only [field]
    omega
  | d4 =>
    simp only [field]
    omega

theorem fields_apart (here : mode.Bearer i) (there : mode.Bearer j) (other : i ≠ j) :
    (field mode i).Apart (field mode j) := by
  obtain ⟨inside, _⟩ := here
  obtain ⟨inside', _⟩ := there
  cases mode with
  | e1 =>
    simp only [field, Field.Apart, LineMode.channels] at *
    split <;> split <;> omega
  | esf =>
    simp only [field, Field.Apart]
    omega
  | d4 =>
    simp only [field, Field.Apart]
    omega

/-- Two channels in one register are brought by the same registers, two in
    different ones by different registers. -/
theorem brings_same (same : (field mode i).reg = (field mode j).reg) : mode.brings i = mode.brings j := by
  cases mode with
  | e1 =>
    simp only [field] at same
    simp only [LineMode.brings, same]
  | esf =>
    simp only [field] at same
    simp only [LineMode.brings, same]
  | d4 =>
    simp only [field] at same
    simp only [LineMode.brings, same]

theorem brings_apart (here : mode.Bearer i) (there : mode.Bearer j)
    (other : (field mode i).reg ≠ (field mode j).reg) {r : Nat} (first : r ∈ mode.brings i) :
    r ∉ mode.brings j := by
  obtain ⟨inside, _⟩ := here
  obtain ⟨inside', _⟩ := there
  cases mode with
  | e1 =>
    simp only [field, LineMode.brings, List.mem_singleton] at *
    omega
  | esf =>
    simp only [field, LineMode.brings, List.mem_singleton] at *
    omega
  | d4 =>
    simp only [field, LineMode.brings, LineMode.channels, List.mem_cons, List.not_mem_nil, or_false,
      REG_RS1_E, REG_RS7_E] at *
    omega

/-- The low bits, seen at any width. -/
theorem nibble_bits (bits : BitVec 32) (n : Nat) (small : n ≤ 8) :
    (bits.setWidth 8 &&& low 8 n).setWidth 32 = bits &&& low 32 n := by
  apply BitVec.eq_of_getLsbD_eq
  intro i inside
  rw [BitVec.getLsbD_setWidth, BitVec.getLsbD_and, BitVec.getLsbD_and, BitVec.getLsbD_setWidth,
    low_bit n i inside]
  by_cases early : i < 8
  · rw [low_bit n i early]
    simp [inside, early]
  · have late : ¬ i < n := by omega
    simp [early, late]

theorem low_value (mode : LineMode) (i : Nat) (bits : BitVec 32) :
    shownBits mode (value mode bits &&& low 8 (field mode i).width) = mode.carried bits := by
  cases mode with
  | e1 => exact nibble_bits bits 4 (by decide)
  | esf => exact nibble_bits bits 4 (by decide)
  | d4 =>
    have narrow := nibble_bits (bits >>> 2) 2 (by decide)
    simp only [shownBits, value, field, LineMode.carried, narrow]
    apply BitVec.eq_of_getLsbD_eq
    intro i inside
    rw [BitVec.getLsbD_shiftLeft, BitVec.getLsbD_and, BitVec.getLsbD_and, BitVec.getLsbD_ushiftRight,
      low_bit 2 (i - 2) (by omega)]
    have mask : ∀ i < 32, (0xC#32).getLsbD i = decide (2 ≤ i ∧ i < 4) := by decide
    rw [mask i inside]
    by_cases below : i < 2
    · have outside : ¬ (2 ≤ i ∧ i < 4) := by omega
      simp [below, outside]
    · by_cases above : i < 4
      · rw [show 2 + (i - 2) = i by omega]
        simp [inside, show ¬ i < 2 by omega, show i - 2 < 2 by omega, show 2 ≤ i ∧ i < 4 by omega]
      · simp [show ¬ i - 2 < 2 by omega, show ¬ (2 ≤ i ∧ i < 4) by omega]

end Fields

section Send
variable {mode : LineMode} {x : CasXpd}

/-- A whole register value written to every register that brings it. -/
def sentTo (mode : LineMode) (x : CasXpd) (pos : Nat) (bits : BitVec 32) : CasXpd :=
  let ts := write x.casTsE (field mode pos) (value mode bits)
  { x with
    casTsE := ts
    regs := (mode.brings pos).foldl (fun regs r => Function.update regs r (ts (field mode pos).reg)) x.regs }

theorem put_nibble (r : Nat) (high : Bool) (x : Byte) (bits : BitVec 32) :
    (if high then (x.setWidth 32 &&& 0x0F#32 ||| (bits <<< 4) &&& 0xF0#32).setWidth 8
      else (x.setWidth 32 &&& 0xF0#32 ||| bits &&& 0x0F#32).setWidth 8) =
      Field.put ⟨r, if high then 4 else 0, 4⟩ (bits.setWidth 8) x := by
  apply BitVec.eq_of_getLsbD_eq
  intro i inside
  rw [put_bit i inside]
  cases high with
  | false => interval_cases i <;> simp
  | true => interval_cases i <;> simp

theorem reg_in_range (mode : LineMode) {pos : Nat} (bearer : mode.Bearer pos) :
    (field mode pos).reg < match mode with
      | .e1 => NUM_CAS_RS_E
      | _ => NUM_CAS_RS_T := by
  cases mode with
  | e1 =>
    have inside : pos < 31 := bearer.1
    have apart := bearer.2 rfl
    simp only [field, NUM_CAS_RS_E, REG_RS2_E, REG_RS16_E]
    omega
  | esf =>
    have inside : pos < 24 := bearer.1
    simp only [field, NUM_CAS_RS_T, REG_RS1_E, REG_RS12_E]
    omega
  | d4 =>
    have inside : pos < 24 := bearer.1
    simp only [field, NUM_CAS_RS_T, REG_RS1_E, REG_RS12_E]
    omega

/-- write_cas_reg, where the whole register is one more field written. -/
theorem cas_reg_written (inMode : InMode mode x) {pos : Nat} (bearer : mode.Bearer pos)
    {bits : BitVec 32} {val : Byte}
    (written : val = (field mode pos).put (value mode bits) (x.casTsE (field mode pos).reg)) :
    writeCasReg x (field mode pos).reg val = some (sentTo mode x pos bits) := by
  have proto := inMode.proto
  have room := reg_in_range mode bearer
  have here : write x.casTsE (field mode pos) (value mode bits) (field mode pos).reg = val := by
    rw [write, Function.update_self, written]
  have shadow : Function.update x.casTsE (field mode pos).reg val =
      write x.casTsE (field mode pos) (value mode bits) := by
    rw [write, written]
  unfold writeCasReg casRegbase casNumregs sentTo
  cases mode with
  | e1 =>
    simp only at proto room
    simp only [proto, here, shadow, writeSubunit, LineMode.brings, Nat.not_le.mpr room]
    rfl
  | esf =>
    obtain ⟨t1, esf⟩ := proto
    simp only at room
    simp only [t1, esf, here, shadow, writeSubunit, LineMode.brings, Nat.not_le.mpr room]
    rfl
  | d4 =>
    obtain ⟨t1, esf⟩ := proto
    simp only at room
    simp only [t1, esf, here, shadow, writeSubunit, LineMode.brings, Nat.not_le.mpr room]
    rfl

theorem encode_e1 (inMode : InMode .e1 x) {pos : Nat} (bearer : LineMode.e1.Bearer pos)
    (bits : BitVec 32) : encodeRbsbitsE1 x pos bits = some (sentTo .e1 x pos bits) := by
  have proto : x.pri.priProtocol = .e1 := inMode.proto
  obtain ⟨inside, other⟩ := bearer
  have apart := other rfl
  rw [LineMode.channels] at inside
  unfold encodeRbsbitsE1
  rw [if_neg (not_not_intro proto), if_neg (by omega), if_neg (by omega)]
  by_cases late : 16 ≤ pos
  · rw [if_pos (by omega)]
    have reg : ((pos : Int) - 16).toNat = (field .e1 pos).reg := by
      simp only [field]
      omega
    have whole := put_nibble (pos % 16) false (x.casTsE (field .e1 pos).reg) bits
    rw [reg]
    apply cas_reg_written inMode ⟨inside, other⟩
    simp only [field, late, ↓reduceIte] at whole ⊢
    exact whole
  · rw [if_neg (by omega)]
    have reg : (pos : Int).toNat = (field .e1 pos).reg := by
      simp only [field]
      omega
    have whole := put_nibble (pos % 16) true (x.casTsE (field .e1 pos).reg) bits
    rw [reg]
    apply cas_reg_written inMode ⟨inside, other⟩
    simp only [field, late, ↓reduceIte] at whole ⊢
    exact whole

/-- A field of a T1 register, as encode_rbsbits_t1 writes it. -/
theorem put_slot (f : Field) (fits : f.shift + f.width ≤ 8) (x : Byte) (bits : BitVec 32) :
    (x.setWidth 32 &&& ~~~(BITMASK f.width <<< f.shift) |||
      (bits &&& BITMASK f.width) <<< f.shift).setWidth 8 = f.put (bits.setWidth 8) x := by
  have cut := @put_narrow 32 f (x.setWidth 32) bits 8 fits (by decide)
  rw [show (x.setWidth 32).setWidth 8 = x by simp] at cut
  exact cut

theorem encode_t1 (t1 : x.pri.priProtocol = .t1) (inMode : InMode mode x) {pos : Nat}
    (bearer : mode.Bearer pos) (bits : BitVec 32) :
    encodeRbsbitsT1 x pos bits = some (sentTo mode x pos bits) := by
  have inside := bearer.1
  have channels := inMode.channels
  rw [t1, priNumChannels] at channels
  have proto := inMode.proto
  unfold encodeRbsbitsT1 chanPerRegs
  rw [if_neg (not_not_intro t1)]
  cases mode with
  | e1 =>
    rw [show x.pri.priProtocol = .e1 from proto] at t1
    cases t1
  | esf =>
    simp only [LineMode.channels] at inside
    rw [if_neg (by omega)]
    simp only [proto.2, ↓reduceIte, Int.toNat_natCast]
    exact cas_reg_written inMode bearer (put_slot (field .esf pos) (field_fits .esf pos) _ bits)
  | d4 =>
    simp only [LineMode.channels] at inside
    rw [if_neg (by omega)]
    simp only [proto.2, Bool.false_eq_true, ↓reduceIte, Int.toNat_natCast]
    exact cas_reg_written inMode bearer (put_slot (field .d4 pos) (field_fits .d4 pos) _ (bits >>> 2))

/-- A call on a channel that has signalling. -/
theorem rbsbits_sent (inMode : InMode mode x) {pos : Nat} (bearer : mode.Bearer pos)
    (configured : (x.chans pos).sig ≠ DAHDI_SIG_NONE) (bits : BitVec 32) :
    priRbsbits x pos bits = some (sentTo mode x pos bits) := by
  have proto := inMode.proto
  unfold priRbsbits
  rw [if_neg inMode.cas, if_neg configured]
  cases mode with
  | e1 =>
    simp only [proto]
    exact encode_e1 inMode bearer bits
  | esf =>
    simp only [proto.1]
    exact encode_t1 proto.1 inMode bearer bits
  | d4 =>
    simp only [proto.1]
    exact encode_t1 proto.1 inMode bearer bits

/-- Any other call does nothing. -/
theorem rbsbits_ignored (inMode : InMode mode x) {pos : Nat} (inside : pos < mode.channels)
    (none : ¬ (mode.Bearer pos ∧ (x.chans pos).sig ≠ DAHDI_SIG_NONE)) (bits : BitVec 32) :
    priRbsbits x pos bits = some x := by
  have proto := inMode.proto
  unfold priRbsbits
  rw [if_neg inMode.cas]
  split
  · rfl
  · rename_i configured
    have other : ¬ mode.Bearer pos := fun bearer => none ⟨bearer, configured⟩
    cases mode with
    | e1 =>
      have timeslot : pos = 15 := by
        by_contra apart
        exact other ⟨inside, fun _ => apart⟩
      subst timeslot
      simp only [proto]
      unfold encodeRbsbitsE1
      rw [if_neg (not_not_intro proto), if_pos (by decide)]
    | esf => exact absurd ⟨inside, nofun⟩ other
    | d4 => exact absurd ⟨inside, nofun⟩ other

/-- The registers of a channel hold what the driver remembers of them. -/
def Mirrored (mode : LineMode) (x : CasXpd) (pos : Nat) : Prop :=
  ∀ r ∈ mode.brings pos, x.regs r = x.casTsE (field mode pos).reg

theorem updated_at (rs : List Nat) (file : Nat → Byte) (v : Byte) (r : Nat) :
    rs.foldl (fun file r => Function.update file r v) file r = if r ∈ rs then v else file r := by
  induction rs generalizing file with
  | nil => rfl
  | cons first rs ih =>
    rw [List.foldl_cons, ih]
    by_cases later : r ∈ rs
    · simp [later]
    · by_cases same : r = first
      · simp [same]
      · simp [later, same]

theorem sent_shows (mode : LineMode) (x : CasXpd) (pos : Nat) (bits : BitVec 32) :
    read (sentTo mode x pos bits).casTsE (field mode pos) =
      value mode bits &&& low 8 (field mode pos).width ∧ Mirrored mode (sentTo mode x pos bits) pos := by
  refine ⟨read_write _ (field_fits mode pos), ?_⟩
  intro r brought
  simp only [sentTo, updated_at, brought, ↓reduceIte]

theorem sent_others (x : CasXpd) {pos i : Nat} (there : mode.Bearer pos) (here : mode.Bearer i)
    (other : pos ≠ i) (bits : BitVec 32) :
    read (sentTo mode x pos bits).casTsE (field mode i) = read x.casTsE (field mode i) ∧
      (Mirrored mode x i → Mirrored mode (sentTo mode x pos bits) i) := by
  refine ⟨read_write_apart _ (fields_apart there here other) (field_fits mode i), ?_⟩
  intro shown r brought
  simp only [sentTo, updated_at]
  by_cases same : (field mode pos).reg = (field mode i).reg
  · rw [if_pos (by rw [brings_same same]; exact brought), same]
  · have apart := brings_apart here there (fun h => same h.symm) brought
    rw [if_neg apart, write, Function.update_of_ne (fun h => same h.symm)]
    exact shown r brought

/-- What calls leave of one channel: its last bits, or nothing new. -/
structure Carries (mode : LineMode) (x x' : CasXpd) (bits : Option (BitVec 32)) (i : Nat) : Prop where
  set : ∀ b, bits = some b → read x'.casTsE (field mode i) = value mode b &&& low 8 (field mode i).width ∧
    Mirrored mode x' i
  kept : bits = none → read x'.casTsE (field mode i) = read x.casTsE (field mode i) ∧
    (Mirrored mode x i → Mirrored mode x' i)

theorem call_carries (inMode : InMode mode x) {pos : Nat} (inside : pos < mode.channels)
    (bits : BitVec 32) :
    ∃ x', priRbsbits x pos bits = some x' ∧ x'.pri = x.pri ∧ x'.isEsf = x.isEsf ∧ x'.chans = x.chans ∧
      ∀ i, mode.Bearer i → (x.chans i).sig ≠ DAHDI_SIG_NONE →
        Carries mode x x' (if pos = i then some bits else none) i := by
  by_cases sends : mode.Bearer pos ∧ (x.chans pos).sig ≠ DAHDI_SIG_NONE
  · refine ⟨_, rbsbits_sent inMode sends.1 sends.2 bits, rfl, rfl, rfl, ?_⟩
    intro i bearer _
    by_cases same : pos = i
    · subst same
      rw [if_pos rfl]
      refine ⟨?_, nofun⟩
      intro b given
      obtain rfl := Option.some.inj given
      exact sent_shows mode x pos bits
    · rw [if_neg same]
      exact ⟨nofun, fun _ => sent_others x sends.1 bearer same bits⟩
  · refine ⟨x, rbsbits_ignored inMode inside sends bits, rfl, rfl, rfl, ?_⟩
    intro i bearer configured
    rw [if_neg]
    · exact ⟨nofun, fun _ => ⟨rfl, id⟩⟩
    · rintro rfl
      exact sends ⟨bearer, configured⟩

theorem calls_carry (inMode : InMode mode x) (calls : List (Nat × BitVec 32))
    (inside : ∀ call ∈ calls, call.1 < mode.channels) :
    ∃ x', rbsCalls x calls = some x' ∧ InMode mode x' ∧ x'.chans = x.chans ∧
      ∀ i, mode.Bearer i → (x.chans i).sig ≠ DAHDI_SIG_NONE → Carries mode x x' (last i calls) i := by
  induction calls generalizing x with
  | nil => exact ⟨x, rfl, inMode, rfl, fun i _ _ => ⟨nofun, fun _ => ⟨rfl, id⟩⟩⟩
  | cons call calls ih =>
    obtain ⟨pos, bits⟩ := call
    obtain ⟨y, called, pri, esf, chans, first⟩ :=
      call_carries inMode (inside (pos, bits) List.mem_cons_self) bits
    have inMode' : InMode mode y := by
      obtain ⟨cas, registered, channels, proto⟩ := inMode
      exact ⟨by rw [pri]; exact cas, by rw [pri]; exact registered, by rw [pri]; exact channels,
        by rw [pri, esf]; exact proto⟩
    obtain ⟨x', rest, inMode'', chans', later⟩ :=
      ih inMode' fun call member => inside call (List.mem_cons_of_mem _ member)
    refine ⟨x', by rw [rbsCalls, called]; exact rest, inMode'', chans'.trans chans, ?_⟩
    intro i bearer configured
    obtain ⟨set, kept⟩ := first i bearer configured
    obtain ⟨set', kept'⟩ := later i bearer (by rw [chans]; exact configured)
    rw [last]
    cases ended : last i calls with
    | some b =>
      rw [Option.some_or]
      refine ⟨?_, nofun⟩
      intro b' given
      obtain rfl := Option.some.inj given
      exact set' b ended
    | none =>
      obtain ⟨same, shown⟩ := kept' ended
      rw [Option.none_or]
      constructor
      · intro b given
        obtain ⟨bits', mirror⟩ := set b given
        exact ⟨same.trans bits', shown mirror⟩
      · intro nothing
        obtain ⟨same', shown'⟩ := kept nothing
        exact ⟨same.trans same', fun mirror => shown (shown' mirror)⟩

end Send

section Receive
variable {mode : LineMode} {x : CasXpd}

/-- A channel told its signalling bits, unless they are frozen. -/
def told (c : CasChan) (v : BitVec 32) : CasChan := if c.sigfreeze then c else { c with rxsig := v }

theorem told_twice (c : CasChan) (v : BitVec 32) : told (told c v) v = told c v := by
  unfold told
  split
  · rfl
  · rfl

theorem dahdi_rbsbits_chans (x : CasXpd) (pos : Nat) (v : BitVec 32) :
    dahdiRbsbits x pos v = { x with chans := Function.update x.chans pos (told (x.chans pos) v) } := by
  unfold dahdiRbsbits told
  by_cases same : v = (x.chans pos).rxsig
  · rw [if_pos same]
    have kept : (if (x.chans pos).sigfreeze then x.chans pos else { x.chans pos with rxsig := v }) =
        x.chans pos := by
      rw [same]
      split <;> rfl
    rw [kept, Function.update_eq_self]
  · rw [if_neg same]
    split
    · rw [Function.update_eq_self]
    · rfl

/-- What reading one register does: the channels it brings are told their bits. -/
structure Reads (mode : LineMode) (r : Nat) (data : Byte) (x y : CasXpd) : Prop where
  pri : y.pri = x.pri
  isEsf : y.isEsf = x.isEsf
  chans : ∀ i, mode.Bearer i → y.chans i =
    if r ∈ mode.brings i then told (x.chans i) (shownBits mode ((field mode i).get data)) else x.chans i

theorem decode_e1 (inMode : InMode .e1 x) (r : Nat) (above : REG_RS2_E ≤ r) (small : r < 2 ^ 32)
    (data : Byte) : Reads .e1 r data x (decodeCasE1 x r data) := by
  have proto : x.pri.priProtocol = .e1 := inMode.proto
  have channels := inMode.channels
  rw [proto, priNumChannels] at channels
  have high : ((data.setWidth 32) >>> 4) &&& 0xF#32 = ((⟨0, 4, 4⟩ : Field).get data).setWidth 32 :=
    @get_wide 8 ⟨0, 4, 4⟩ data 32 (by decide) (by decide)
  have low_ : data.setWidth 32 &&& 0xF#32 = ((⟨0, 0, 4⟩ : Field).get data).setWidth 32 :=
    @get_wide 8 ⟨0, 0, 4⟩ data 32 (by decide) (by decide)
  unfold decodeCasE1
  obtain ⟨pos, rfl⟩ : ∃ pos, r = REG_RS2_E + pos := ⟨r - REG_RS2_E, by omega⟩
  have place : ((((REG_RS2_E + pos : Nat) : Int) - REG_RS2_E) % 2 ^ 32).toNat = pos := by omega
  simp only [place, high, low_]
  by_cases out : NUM_CAS_RS_E ≤ pos
  · rw [if_pos out]
    refine ⟨rfl, rfl, ?_⟩
    intro i bearer
    have inside : i < 31 := bearer.1
    have apart := bearer.2 rfl
    rw [if_neg]
    simp only [LineMode.brings, List.mem_singleton, NUM_CAS_RS_E, REG_RS16_E, REG_RS2_E] at out ⊢
    omega
  · simp only [NUM_CAS_RS_E, REG_RS16_E, REG_RS2_E] at out
    rw [if_neg (by simp only [NUM_CAS_RS_E, REG_RS16_E, REG_RS2_E]; omega), if_neg (by omega),
      if_neg (by omega)]
    simp only [inMode.registered, ↓reduceIte, dahdi_rbsbits_chans]
    refine ⟨rfl, rfl, ?_⟩
    intro i bearer
    have inside : i < 31 := bearer.1
    have apart := bearer.2 rfl
    simp only [LineMode.brings, List.mem_singleton, Nat.add_left_cancel_iff]
    by_cases second : i = pos + 16
    · subst second
      rw [Function.update_self, Function.update_of_ne (by omega), if_pos (by omega)]
      simp only [shownBits, field, Field.get, show 16 ≤ pos + 16 by omega, ↓reduceIte]
    · rw [Function.update_of_ne second]
      by_cases first : i = pos
      · subst first
        rw [Function.update_self, if_pos (by omega)]
        simp only [shownBits, field, Field.get, show ¬ 16 ≤ i by omega, ↓reduceIte]
      · rw [Function.update_of_ne first, if_neg (by omega)]

/-- A channel of a span told its bits. -/
def tell (v : Nat → BitVec 32) (x : CasXpd) (pos : Nat) : CasXpd :=
  { x with chans := Function.update x.chans pos (told (x.chans pos) (v pos)) }

theorem tell_all (v : Nat → BitVec 32) (ps : List Nat) (x : CasXpd) :
    (ps.foldl (tell v) x).pri = x.pri ∧ (ps.foldl (tell v) x).isEsf = x.isEsf ∧
      ∀ i, (ps.foldl (tell v) x).chans i = if i ∈ ps then told (x.chans i) (v i) else x.chans i := by
  induction ps generalizing x with
  | nil => exact ⟨rfl, rfl, fun i => rfl⟩
  | cons p ps ih =>
    obtain ⟨pri, esf, chans⟩ := ih (tell v x p)
    refine ⟨pri, esf, ?_⟩
    intro i
    rw [List.foldl_cons, chans i]
    by_cases same : i = p
    · subst same
      have here : (tell v x i).chans i = told (x.chans i) (v i) := Function.update_self _ _ _
      rw [here, if_pos List.mem_cons_self, told_twice, ite_self]
    · have other : (tell v x p).chans i = x.chans i := Function.update_of_ne same _ _
      rw [other]
      simp only [List.mem_cons, same, false_or]

/-- The shape of the T1 registers in a line mode: channels to a register. -/
def LineMode.slots : LineMode → Nat
  | .esf => 2
  | _ => 4

/-- What channel p is told of a register. -/
def heard (mode : LineMode) (data : Byte) (p : Nat) : BitVec 32 :=
  shownBits mode ((field mode p).get data)

theorem slot_told (t1 : x.pri.priProtocol = .t1) (inMode : InMode mode x) {rs j : Nat}
    (range : rs * LineMode.slots mode < 24) (slot : j < LineMode.slots mode) (data : Byte) :
    decodeSlotT1 rs data x j =
      tell (heard mode data) x (rs * LineMode.slots mode + LineMode.slots mode - j - 1) := by
  have channels := inMode.channels
  rw [t1, priNumChannels] at channels
  have proto := inMode.proto
  have same (pos : Nat) (v : BitVec 32) :
      (if (x.chans pos).rxsig = v then x else dahdiRbsbits x pos v) =
        { x with chans := Function.update x.chans pos (told (x.chans pos) v) } := by
    rw [← dahdi_rbsbits_chans]
    split
    · rename_i equal
      unfold dahdiRbsbits
      rw [if_pos equal.symm]
    · rfl
  cases mode with
  | e1 =>
    rw [show x.pri.priProtocol = .e1 from proto] at t1
    cases t1
  | esf =>
    simp only [LineMode.slots] at range slot ⊢
    have bits : ((data.setWidth 32) >>> (j * 4)) &&& BITMASK 4 =
        heard .esf data (rs * 2 + 2 - j - 1) := by
      have wide := @get_wide 8 ⟨0, j * 4, 4⟩ data 32 (by simp only; omega) (by decide)
      simp only [heard, shownBits, field, show 2 - (rs * 2 + 2 - j - 1) % 2 - 1 = j by omega]
      exact wide
    unfold decodeSlotT1 chanPerRegs
    simp only [proto.2, ↓reduceIte]
    rw [if_neg (by omega), same, show 8 / 2 = 4 from rfl, bits]
    rfl
  | d4 =>
    simp only [LineMode.slots] at range slot ⊢
    have bits : (((data.setWidth 32) >>> (j * 2)) &&& BITMASK 2) <<< 2 =
        heard .d4 data (rs * 4 + 4 - j - 1) := by
      have wide := @get_wide 8 ⟨0, j * 2, 2⟩ data 32 (by simp only; omega) (by decide)
      simp only [heard, shownBits, field, show 4 - (rs * 4 + 4 - j - 1) % 4 - 1 = j by omega]
      exact congrArg (fun v : BitVec 32 => v <<< 2) wide
    unfold decodeSlotT1 chanPerRegs
    simp only [proto.2, Bool.false_eq_true, ↓reduceIte]
    rw [if_neg (by omega), same, show 8 / 4 = 2 from rfl, bits]
    rfl

theorem slots_told (t1 : x.pri.priProtocol = .t1) (inMode : InMode mode x) {rs : Nat}
    (range : rs * LineMode.slots mode < 24) (data : Byte) (js : List Nat)
    (slots : ∀ j ∈ js, j < LineMode.slots mode) :
    js.foldl (decodeSlotT1 rs data) x = (js.map fun j =>
      rs * LineMode.slots mode + LineMode.slots mode - j - 1).foldl (tell (heard mode data)) x := by
  induction js generalizing x with
  | nil => rfl
  | cons j js ih =>
    rw [List.foldl_cons, List.map_cons, List.foldl_cons,
      slot_told t1 inMode range (slots j List.mem_cons_self)]
    have inMode' : InMode mode (tell (heard mode data) x
        (rs * LineMode.slots mode + LineMode.slots mode - j - 1)) :=
      ⟨inMode.cas, inMode.registered, inMode.channels, inMode.proto⟩
    exact ih t1 inMode' fun j member => slots j (List.mem_cons_of_mem _ member)

theorem decode_t1 (t1 : x.pri.priProtocol = .t1) (inMode : InMode mode x) (r : Nat)
    (small : r < 2 ^ 8) (inside : r ≤ REG_RS12_E) (data : Byte) :
    Reads mode r data x (decodeCasT1 x r data) := by
  have proto := inMode.proto
  have finish (rs : Nat) (range : rs * LineMode.slots mode < 24)
      (brings : ∀ i, mode.Bearer i → (r ∈ mode.brings i ↔ i / LineMode.slots mode = rs)) :
      Reads mode r data x ((List.range (LineMode.slots mode)).foldl (decodeSlotT1 rs data) x) := by
    have positive : 0 < LineMode.slots mode := by cases mode <;> decide
    rw [slots_told t1 inMode range data _ fun j member => List.mem_range.mp member]
    obtain ⟨pri, esf, chans⟩ := tell_all (heard mode data) ((List.range (LineMode.slots mode)).map
      fun j => rs * LineMode.slots mode + LineMode.slots mode - j - 1) x
    refine ⟨pri, esf, ?_⟩
    intro i bearer
    rw [chans i]
    congr 1
    rw [brings i bearer, List.mem_map, eq_iff_iff]
    constructor
    · rintro ⟨j, member, rfl⟩
      have slot := List.mem_range.mp member
      rw [show rs * LineMode.slots mode + LineMode.slots mode - j - 1 =
        LineMode.slots mode - j - 1 + LineMode.slots mode * rs by
          rw [Nat.mul_comm]; omega, Nat.add_mul_div_left _ _ positive, Nat.div_eq_of_lt (by omega),
        Nat.zero_add]
    · rintro rfl
      have part := Nat.div_add_mod i (LineMode.slots mode)
      have less := Nat.mod_lt i positive
      refine ⟨LineMode.slots mode - i % LineMode.slots mode - 1, List.mem_range.mpr (by omega), ?_⟩
      rw [Nat.mul_comm (i / LineMode.slots mode)]
      omega
  unfold decodeCasT1
  by_cases below : r < REG_RS1_E
  · have far : 12 ≤ (((r : Int) - REG_RS1_E) % 2 ^ 32).toNat := by
      simp only [REG_RS1_E] at below ⊢
      omega
    simp only [far, ↓reduceIte]
    refine ⟨rfl, rfl, ?_⟩
    intro i bearer
    rw [if_neg]
    cases mode with
    | e1 =>
      simp only [LineMode.brings, List.mem_singleton, REG_RS1_E, REG_RS2_E] at below ⊢
      omega
    | esf =>
      simp only [LineMode.brings, List.mem_singleton, REG_RS1_E] at below ⊢
      omega
    | d4 =>
      simp only [LineMode.brings, List.mem_cons, List.not_mem_nil, or_false, REG_RS1_E, REG_RS7_E] at below ⊢
      omega
  · obtain ⟨rs, rfl⟩ : ∃ rs, r = REG_RS1_E + rs := ⟨r - REG_RS1_E, by omega⟩
    have place : ((((REG_RS1_E + rs : Nat) : Int) - REG_RS1_E) % 2 ^ 32).toNat = rs := by omega
    have near : ¬ 12 ≤ rs := by
      simp only [REG_RS1_E, REG_RS12_E] at inside
      omega
    simp only [place, near, ↓reduceIte]
    have keep {y : CasXpd} {n : Nat} {v : Byte} (reads : Reads mode (REG_RS1_E + rs) data x y) :
        Reads mode (REG_RS1_E + rs) data x { y with casRsE := Function.update y.casRsE n v } :=
      ⟨reads.pri, reads.isEsf, reads.chans⟩
    apply keep
    cases mode with
    | e1 =>
      rw [show x.pri.priProtocol = .e1 from proto] at t1
      cases t1
    | esf =>
      simp only [chanPerRegs, proto.2, ↓reduceIte]
      refine finish rs (by simp only [LineMode.slots]; omega) ?_
      intro i _
      simp only [LineMode.brings, LineMode.slots, List.mem_singleton]
      omega
    | d4 =>
      simp only [chanPerRegs, proto.2, Bool.false_eq_true, ↓reduceIte]
      refine finish (rs % 6) (by simp only [LineMode.slots]; omega) ?_
      intro i bearer
      have short : i < 24 := bearer.1
      simp only [LineMode.brings, LineMode.slots, List.mem_cons, List.not_mem_nil, or_false,
        REG_RS1_E, REG_RS7_E]
      omega

theorem nothing_read (r : Nat) (data : Byte) (none : ∀ i, mode.Bearer i → r ∉ mode.brings i) :
    Reads mode r data x x :=
  ⟨rfl, rfl, fun i bearer => (if_neg (none i bearer)).symm⟩

theorem process_reads (inMode : InMode mode x) (r : Byte) (data : Byte) :
    Reads mode r.toNat data x (processCasDchan x r.toNat data) := by
  have proto := inMode.proto
  have small := r.isLt
  have span : ¬ x.pri.xpd.registered = false := by
    rw [inMode.registered]
    decide
  unfold processCasDchan
  rw [if_neg inMode.cas, if_neg span]
  cases mode with
  | e1 =>
    simp only [proto]
    split
    · apply nothing_read
      intro i _
      simp only [LineMode.brings, List.mem_singleton]
      omega
    · exact decode_e1 inMode r.toNat (by omega) (by omega) data
  | esf =>
    simp only [proto.1]
    split
    · apply nothing_read
      intro i bearer
      have inside : i < 24 := bearer.1
      simp only [LineMode.brings, List.mem_singleton, REG_RS1_E, REG_RS12_E] at *
      omega
    · exact decode_t1 proto.1 inMode r.toNat small (by omega) data
  | d4 =>
    simp only [proto.1]
    split
    · apply nothing_read
      intro i bearer
      have inside : i < 24 := bearer.1
      simp only [LineMode.brings, List.mem_cons, List.not_mem_nil, or_false, REG_RS1_E, REG_RS7_E,
        REG_RS12_E] at *
      omega
    · exact decode_t1 proto.1 inMode r.toNat small (by omega) data

/-- Registers read in any order, each any number of times. -/
theorem all_read (regs : Nat → Byte) (i : Nat) (bearer : mode.Bearer i) {data : Byte}
    (shown : ∀ r ∈ mode.brings i, regs r = data) (read : List Byte) (inMode : InMode mode x) :
    ((read.foldl (fun y r => processCasDchan y r.toNat (regs r.toNat)) x).chans i) =
      if ∃ r ∈ read, r.toNat ∈ mode.brings i then told (x.chans i) (heard mode data i)
      else x.chans i := by
  induction read generalizing x with
  | nil => simp
  | cons r read ih =>
    obtain ⟨pri, esf, chans⟩ := process_reads inMode r (regs r.toNat)
    have inMode' : InMode mode (processCasDchan x r.toNat (regs r.toNat)) := by
      obtain ⟨cas, registered, channels, proto⟩ := inMode
      exact ⟨by rw [pri]; exact cas, by rw [pri]; exact registered, by rw [pri]; exact channels,
        by rw [pri, esf]; exact proto⟩
    rw [List.foldl_cons, ih inMode', chans i bearer]
    by_cases here : r.toNat ∈ mode.brings i
    · have whole : ∃ s ∈ r :: read, s.toNat ∈ mode.brings i := ⟨r, List.mem_cons_self, here⟩
      rw [if_pos here, if_pos whole, shown r.toNat here]
      split
      · exact told_twice _ _
      · rfl
    · rw [if_neg here]
      congr 1
      simp [here]

end Receive

section Trip
variable {mode : LineMode} {x : CasXpd}

/-- Whatever calls have been made, each channel with signalling gets back the bits
    it was given last. -/
theorem cas_round_trip (inMode : InMode mode x) (calls : List (Nat × BitVec 32))
    (inside : ∀ call ∈ calls, call.1 < mode.channels) :
    ∃ x', rbsCalls x calls = some x' ∧ ∀ i bits, mode.Bearer i → (x.chans i).sig ≠ DAHDI_SIG_NONE →
      last i calls = some bits → ∀ read : List Byte, (∃ r ∈ read, r.toNat ∈ mode.brings i) →
        ((mirrored x' read).chans i).rxsig =
          if (x.chans i).sigfreeze then (x.chans i).rxsig else mode.carried bits := by
  obtain ⟨x', called, inMode', chans, carried⟩ := calls_carry inMode calls inside
  refine ⟨x', called, ?_⟩
  intro i bits bearer configured ended read brought
  obtain ⟨value_, shown⟩ := (carried i bearer configured).set bits ended
  have heard_ : heard mode (x'.casTsE (field mode i).reg) i = mode.carried bits := by
    rw [← low_value mode i bits, ← value_]
    rfl
  rw [mirrored, all_read x'.regs i bearer shown read inMode', if_pos brought, heard_, chans, told]
  split
  · rfl
  · rfl

/-- A D4 span of which every channel has signalling. -/
def d4Span : CasXpd where
  pri := { freshPri 0 with
    isCas := -1
    priProtocol := .t1
    xpd := { (freshPri 0).xpd with channels := 24, registered := true } }
  isEsf := false
  casRsE _ := 0
  casTsE _ := 0
  chans _ := ⟨1, 0, false⟩
  regs _ := 0xff

theorem cas_round_trip_d4 :
    ∃ x', rbsCalls d4Span [(5, 0xf), (6, 0x8), (5, 0x4)] = some x' ∧
      ((mirrored x' [0x77]).chans 5).rxsig = 0x4 := by
  have inMode : InMode .d4 d4Span := ⟨by decide, rfl, rfl, rfl, rfl⟩
  obtain ⟨x', called, bits⟩ := cas_round_trip inMode [(5, 0xf), (6, 0x8), (5, 0x4)] (by decide)
  exact ⟨x', called, bits 5 0x4 ⟨by decide, nofun⟩ (by decide) rfl [0x77] ⟨0x77, by decide, by decide⟩⟩

end Trip

end CasTrip
