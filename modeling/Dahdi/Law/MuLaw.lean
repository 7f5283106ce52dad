import Dahdi.Conference.Tick
import Dahdi.Law.Xlaw
import Mathlib

/-!
What the mu-law code of a sample keeps of it.
-/
namespace MuLaw
open Xlaw Segments Conference

section Codes

/-- The code of a sign, an exponent and a mantissa, before the traps. -/
def muCode (negative : Bool) (e f : Nat) : Octet :=
  ~~~ ((if negative then 0x80 else 0) ||| BitVec.ofNat 8 e <<< 4 ||| BitVec.ofNat 8 f)

/-- The middle of a step. -/
def middle (e f : Nat) : Int := (lower 4 3 e f + 2 ^ (e + 2) : Nat) - bias

theorem expLut_log : ∀ n < 256, expLut.getD n 0 = Nat.log2 n := by decide +kernel

/-- The biased magnitude of a sample, clipped. -/
def biased (m : Nat) : Nat := min m 32635 + 132

theorem biased_bounds (m : Nat) : 132 ≤ biased m ∧ biased m < 32768 := by
  unfold biased
  omega

theorem expLut_segment {s : Nat} (from_ : 128 ≤ s) (until_ : s < 32768) :
    expLut.getD (s / 2 ^ 7) 0 = segOf 4 3 s := by
  have small : s / 2 ^ 7 < 256 := Nat.div_lt_of_lt_mul (by omega)
  have large : 2 ^ (4 + 3) ≤ s := from_
  rw [expLut_log _ small]
  have some_ : s / 2 ^ 7 ≠ 0 := by omega
  rw [Nat.log2_eq_iff some_]
  obtain ⟨low, high⟩ := segment_bounds large
  rw [Nat.pow_add 2 (segOf 4 3 s) 3] at low high
  rw [Nat.pow_succ]
  constructor
  · exact (Nat.le_div_iff_mul_le (by decide)).mpr (by omega)
  · exact (Nat.div_lt_iff_lt_mul (by decide)).mpr (by omega)

theorem short_small {v : Int} (low : -2 ^ 15 ≤ v) (high : v < 2 ^ 15) : toShort v = v := by
  rw [toShort, Int.bmod_eq_of_le] <;> omega

theorem clipped (m : Nat) : (if clip < (m : Int) then clip else (m : Int)) + bias = (biased m : Int) := by
  unfold clip bias biased
  split <;> omega

/-- What is made of the sign and the magnitude. -/
theorem magnitude_code {m : Nat} (negative : Bool) :
    (let sample := if clip < (m : Int) then clip else (m : Int)
     let sample := toShort (sample + bias)
     let exponent := expLut.getD (sample / 2 ^ 7 % 256).toNat 0
     let mantissa := sample / 2 ^ (exponent + 3) % 16
     ~~~ ((if negative then 0x80 else 0) ||| BitVec.ofNat 8 exponent <<< 4 ||| BitVec.ofInt 8 mantissa)) =
      muCode negative (segOf 4 3 (biased m)) (stepOf 4 3 (biased m)) := by
  obtain ⟨low, high⟩ := biased_bounds m
  simp only [clipped]
  have same : toShort (biased m : Int) = (biased m : Int) := short_small (by omega) (by omega)
  have index : ((biased m : Int) / 2 ^ 7 % 256).toNat = biased m / 2 ^ 7 := by omega
  rw [same, index, expLut_segment (by omega) high]
  have step : (biased m : Int) / 2 ^ (segOf 4 3 (biased m) + 3) % 16 = (stepOf 4 3 (biased m) : Nat) := by
    unfold stepOf
    push_cast
    rfl
  rw [step, BitVec.ofInt_natCast]
  rfl

/-- The code of a sample that is not the least, from its sign and magnitude. -/
theorem lineartoulaw_code {m : Nat} (small : m < 32768) (negative : Bool) (signed : negative = true → m ≠ 0) :
    lineartoulaw (if negative then -m else m) =
      trapped (muCode negative (segOf 4 3 (biased m)) (stepOf 4 3 (biased m))) := by
  rw [← magnitude_code negative]
  cases negative with
  | false =>
    have sign : ¬ (m : Int) < 0 := by omega
    simp only [lineartoulaw, Bool.false_eq_true, if_neg, sign, not_false_eq_true]
    rfl
  | true =>
    have some_ := signed rfl
    have sign : (-m : Int) < 0 := by omega
    have back : toShort (- -(m : Int)) = m := by
      rw [Int.neg_neg]
      exact short_small (by omega) (by omega)
    simp only [lineartoulaw, ↓reduceIte, sign, back]
    rfl

/-- The samples whose code the zero trap changes. -/
theorem full_step {m : Nat} : segOf 4 3 (biased m) = 7 ∧ stepOf 4 3 (biased m) = 15 ↔ 31612 ≤ m := by
  obtain ⟨low, high⟩ := biased_bounds m
  have large : 2 ^ (4 + 3) ≤ biased m := by omega
  have inside := within_step large
  constructor
  · rintro ⟨last, full⟩
    rw [last, full] at inside
    unfold lower biased at inside
    omega
  · intro far
    have last : segOf 4 3 (biased m) = 7 := by
      apply segment_unique <;> unfold biased <;> omega
    refine ⟨last, ?_⟩
    unfold stepOf
    rw [last]
    unfold biased
    omega

theorem segment_few (m : Nat) : segOf 4 3 (biased m) < 8 := by
  obtain ⟨low, high⟩ := biased_bounds m
  exact segment_lt (by omega) (by omega)

theorem mulaw_trapped : ∀ negative : Bool, ∀ e < 8, ∀ f < 16, ¬(negative = true ∧ e = 7 ∧ f = 15) →
    mulaw (trapped (muCode negative e f)) = if negative then -middle e f else middle e f := by
  decide

/-- What a magnitude comes back as. -/
def regained (m : Nat) : Int := middle (segOf 4 3 (biased m)) (stepOf 4 3 (biased m))

theorem ulaw_back {m : Nat} (small : m < 32768) (negative : Bool)
    (signed : negative = true → m ≠ 0 ∧ m < 31612) :
    mulaw (lineartoulaw (if negative then -m else m)) = if negative then -regained m else regained m := by
  rw [lineartoulaw_code small negative fun is => (signed is).1]
  apply mulaw_trapped negative _ (segment_few m) _ (step_small 4 3 _)
  rintro ⟨is, last⟩
  have far := full_step.mp last
  have near := (signed is).2
  omega

theorem ulaw_trap {m : Nat} (small : m < 32768) (far : 31612 ≤ m) : mulaw (lineartoulaw (-m)) = -30076 := by
  have code := lineartoulaw_code small true (by omega)
  rw [(full_step.mpr far).1, (full_step.mpr far).2] at code
  rw [if_pos rfl] at code
  rw [code]
  decide

theorem regained_close (m : Nat) : 32 * |regained m - m| ≤ biased m ∨ 32635 < m := by
  obtain ⟨low, high⟩ := biased_bounds m
  have large : 2 ^ (4 + 3) ≤ biased m := by omega
  have inside := within_step large
  have wide := (segment_bounds large).1
  rw [Nat.pow_add 2 (segOf 4 3 (biased m)) 3] at inside wide
  rcases Nat.lt_or_ge 32635 m with past | fits
  · exact .inr past
  · left
    have whole : biased m = m + 132 := by
      unfold biased
      omega
    unfold regained middle bias
    rw [Nat.pow_add 2 _ 2]
    generalize lower 4 3 (segOf 4 3 (biased m)) (stepOf 4 3 (biased m)) = start at inside ⊢
    generalize 2 ^ segOf 4 3 (biased m) = width at inside wide ⊢
    have half : |((start + width * 2 ^ 2 : Nat) : Int) - 132 - m| ≤ 4 * width :=
      abs_le.mpr ⟨by omega, by omega⟩
    calc 32 * |((start + width * 2 ^ 2 : Nat) : Int) - 132 - m| ≤ 32 * (4 * width) :=
          Int.mul_le_mul_of_nonneg_left half (by decide)
      _ ≤ biased m := by omega

theorem regained_mono {m n : Nat} (le : m ≤ n) : regained m ≤ regained n := by
  have biased_le : biased m ≤ biased n := by
    unfold biased
    omega
  have large : 2 ^ (4 + 3) ≤ biased m := by
    have := biased_bounds m
    omega
  have segments := segment_mono large biased_le
  have steps := greatest_step (Nat.le_trans large biased_le) (step_small 4 3 (biased m))
    (Nat.le_trans (within_step large).1 biased_le)
  have halves := Nat.pow_le_pow_right (show 0 < 2 by decide) (Nat.add_le_add_right segments 2)
  unfold regained middle
  omega

theorem regained_nonneg (m : Nat) : 0 ≤ regained m := regained_mono (Nat.zero_le m)

end Codes

/-- An error of at most a thirty-second of the biased magnitude: half a step of the segment. -/
def Close (x d : Int) : Prop := 32 * |d - x| ≤ |x| + bias

/-- A sample by its sign and magnitude. -/
theorem sample_signed (x : Sample) : (∃ m : Nat, m < 32768 ∧ (x : Int) = m) ∨
    (∃ m : Nat, m ≠ 0 ∧ m < 32768 ∧ (x : Int) = -m) ∨ (x : Int) = -32768 := by
  obtain ⟨low, high⟩ := x.2
  change -32768 ≤ (x : Int) at low
  change (x : Int) ≤ 32767 at high
  rcases Int.lt_or_le (x : Int) 0 with below | above
  · by_cases least : (x : Int) = -32768
    · exact .inr (.inr least)
    · exact .inr (.inl ⟨(-(x : Int)).toNat, by omega, by omega, by omega⟩)
  · exact .inl ⟨(x : Int).toNat, by omega, by omega⟩

section Quantiser
variable (x y : Sample)

theorem regained_last {m : Nat} (past : 32635 < m) : regained m = 32124 := by
  have whole : biased m = 32767 := by
    unfold biased
    omega
  rw [regained, whole]
  decide

/-- The mu-law code of a sample is off by half a step at most, except for the last
    code of the negative side, which the zero trap replaces, and the least sample,
    which is coded as zero. -/
theorem ulaw_close : Close x (mulaw (lineartoulaw x)) ↔ -31612 < (x : Int) := by
  unfold Close bias
  rcases sample_signed x with ⟨m, small, is⟩ | ⟨m, some_, small, is⟩ | is
  · have back := ulaw_back small false (fun no => nomatch no)
    simp only [Bool.false_eq_true, ↓reduceIte] at back
    rw [is, back, abs_of_nonneg (Int.natCast_nonneg m)]
    have whole : (biased m : Int) ≤ m + 132 := by
      unfold biased
      omega
    have close : 32 * |regained m - m| ≤ m + 132 := by
      rcases regained_close m with close | past
      · exact Int.le_trans close whole
      · rw [regained_last past, abs_of_nonpos (by omega)]
        omega
    exact ⟨fun _ => by omega, fun _ => close⟩
  · rw [is, abs_neg, abs_of_nonneg (Int.natCast_nonneg m)]
    rcases Nat.lt_or_ge m 31612 with near | far
    · have back := ulaw_back small true (fun _ => ⟨some_, near⟩)
      simp only [↓reduceIte] at back
      rw [back, show -regained m - -(m : Int) = -(regained m - m) by ring, abs_neg]
      have whole : (biased m : Int) = m + 132 := by
        unfold biased
        omega
      have close := (regained_close m).resolve_right (by omega)
      rw [whole] at close
      exact ⟨fun _ => by omega, fun _ => close⟩
    · rw [ulaw_trap small far, show (-30076 : Int) - -(m : Int) = m - 30076 by ring,
        abs_of_nonneg (by omega)]
      omega
  · rw [is]
    decide

/-- Above the trapped samples the coding keeps the order. -/
theorem ulaw_mono (above : -31612 < (x : Int)) (le : (x : Int) ≤ y) :
    mulaw (lineartoulaw x) ≤ mulaw (lineartoulaw y) := by
  have upper : ∀ z : Sample, 0 ≤ (z : Int) → ∃ m : Nat, (z : Int) = m ∧ mulaw (lineartoulaw z) = regained m := by
    intro z nonneg
    rcases sample_signed z with ⟨m, small, is⟩ | ⟨m, some_, _, is⟩ | is
    · have back := ulaw_back small false (fun no => nomatch no)
      exact ⟨m, is, by rw [is]; exact back⟩
    · omega
    · omega
  have under : ∀ z : Sample, (z : Int) < 0 → -31612 < (z : Int) →
      ∃ m : Nat, (z : Int) = -m ∧ mulaw (lineartoulaw z) = -regained m := by
    intro z negative high
    rcases sample_signed z with ⟨m, _, is⟩ | ⟨m, some_, small, is⟩ | is
    · omega
    · have back := ulaw_back small true (fun _ => ⟨some_, by omega⟩)
      exact ⟨m, is, by rw [is]; exact back⟩
    · omega
  rcases Int.lt_or_le (x : Int) 0 with negative | positive
  · obtain ⟨m, xIs, xBack⟩ := under x negative above
    rcases Int.lt_or_le (y : Int) 0 with negative' | positive'
    · obtain ⟨n, yIs, yBack⟩ := under y negative' (by omega)
      have order := @regained_mono n m (by omega)
      omega
    · obtain ⟨n, yIs, yBack⟩ := upper y positive'
      have low := regained_nonneg m
      have high := regained_nonneg n
      omega
  · obtain ⟨m, xIs, xBack⟩ := upper x positive
    obtain ⟨n, yIs, yBack⟩ := upper y (by omega)
    have order := @regained_mono m n (by omega)
    omega

end Quantiser

/-- The mu-law codes as a quantiser of all samples. -/
theorem ulaw_quantises :
    (∀ x : Sample, Close x (mulaw (lineartoulaw x)) ↔ -31612 < (x : Int)) ∧
      ∀ x y : Sample, -31612 < (x : Int) → (x : Int) ≤ y →
        mulaw (lineartoulaw x) ≤ mulaw (lineartoulaw y) :=
  ⟨ulaw_close, ulaw_mono⟩

end MuLaw
