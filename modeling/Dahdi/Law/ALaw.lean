import Dahdi.Law.MuLaw

/-!
What the A-law code of a sample keeps of it, and the tables both laws are used by.
-/
namespace ALaw
open Xlaw Segments Conference MuLaw

/-- The code of a sign, a segment and a step. -/
def aCode (negative : Bool) (seg step : Nat) : Octet :=
  (BitVec.ofNat 8 (seg <<< 4) ||| BitVec.ofNat 8 step) ^^^ if negative then amiMask else amiMask ||| 0x80

/-- The lower end of a step. The steps of the first segment are as wide as those of the next. -/
def floor_ (seg step : Nat) : Int := if seg = 0 then 16 * step else lower 4 3 seg step

theorem alaw_code : ∀ negative : Bool, ∀ seg < 8, ∀ step < 16,
    alaw2linear (aCode negative seg step) = if negative then -floor_ seg step else floor_ seg step := by
  decide

/-- Every code is one of a sign, a segment and a step. -/
theorem code_parts (c : Octet) : ∃ negative : Bool, ∃ seg < 8, ∃ step < 16, c = aCode negative seg step := by
  refine ⟨!(c ^^^ amiMask).getLsbD 7, (c ^^^ amiMask).toNat / 16 % 8, by omega,
    (c ^^^ amiMask).toNat % 16, by omega, ?_⟩
  revert c
  decide

def segment (m : Nat) : Nat := if m < 256 then 0 else segOf 4 3 m

def step (m : Nat) : Nat := if m < 256 then m / 16 else stepOf 4 3 m

theorem segEnd_pow : ∀ seg < 8, segEnd seg = 2 ^ (8 + seg) - 1 := by decide

/-- The loop finds the first segment whose end is not passed. -/
theorem search_first {v : Int} {t : Nat} (within : v ≤ segEnd t) (left seg : Nat) (from_ : seg ≤ t)
    (until_ : t < seg + left) (past : ∀ u, seg ≤ u → u < t → segEnd u < v) : searchSeg v left seg = t := by
  induction left generalizing seg with
  | zero => omega
  | succ left ih =>
    rw [searchSeg]
    by_cases here : seg = t
    · rw [here, if_pos within]
    · have later := past seg (Nat.le_refl seg) (by omega)
      rw [if_neg (by omega)]
      exact ih (seg + 1) (by omega) (by omega) (fun u above before => past u (by omega) before)

theorem segment_few {m : Nat} (small : m < 32768) : segment m < 8 := by
  unfold segment
  split
  · decide
  · exact segment_lt (by omega) (by omega)

theorem search_segment {m : Nat} (small : m < 32768) : searchSeg m 8 0 = segment m := by
  have few := segment_few small
  refine search_first ?_ 8 0 (Nat.zero_le _) (by omega) ?_
  · rw [segEnd_pow _ few]
    unfold segment
    split
    · simp
      omega
    · have high := (@segment_bounds 4 3 m (by omega)).2
      rw [show (2 * 2 ^ 4 * 2 ^ (segOf 4 3 m + 3) : Nat) = 2 ^ (8 + segOf 4 3 m) by ring] at high
      zify at high
      omega
  · intro u _ before
    rw [segEnd_pow _ (by omega)]
    unfold segment at before
    split at before
    · omega
    · have low := (@segment_bounds 4 3 m (by omega)).1
      rw [show (2 ^ 4 * 2 ^ (segOf 4 3 m + 3) : Nat) = 2 ^ (7 + segOf 4 3 m) by ring] at low
      have ends := Nat.pow_le_pow_right (show 0 < 2 by decide) (show 8 + u ≤ 7 + segOf 4 3 m by omega)
      have reached : (2 : Int) ^ (8 + u) ≤ m := by
        exact_mod_cast Nat.le_trans ends low
      omega

theorem step_few (m : Nat) : step m < 16 := by
  unfold step
  split
  · omega
  · exact step_small 4 3 m

/-- The code of a sample that is not the least, from its sign and magnitude. -/
theorem lineartoalaw_code {m : Nat} (small : m < 32768) (negative : Bool) (signed : negative = true → m ≠ 0) :
    lineartoalaw (if negative then -m else m) = aCode negative (segment m) (step m) := by
  have magnitude : (if 0 ≤ (if negative then -(m : Int) else m) then (if negative then -(m : Int) else m)
      else -(if negative then -(m : Int) else m)) = m := by
    cases negative with
    | false => rw [if_neg Bool.false_ne_true, if_pos (by omega)]
    | true =>
      have some_ := signed rfl
      rw [if_pos rfl, if_neg (by omega), Int.neg_neg]
  have sign : (if 0 ≤ (if negative then -(m : Int) else m) then amiMask ||| 0x80 else amiMask) =
      if negative then amiMask else amiMask ||| 0x80 := by
    cases negative with
    | false => rw [if_neg Bool.false_ne_true, if_pos (by omega), if_neg Bool.false_ne_true]
    | true =>
      have some_ := signed rfl
      rw [if_pos rfl, if_neg (by omega), if_pos rfl]
  have shifted : (m : Int) / 2 ^ (if segment m ≠ 0 then segment m + 3 else 4) % 16 = (step m : Nat) := by
    unfold segment step
    by_cases low : m < 256
    · simp only [low, ↓reduceIte, ne_eq, not_true_eq_false]
      omega
    · have large : segOf 4 3 m ≠ 0 := by
        have first := (@segment_bounds 4 3 m (by omega)).2
        intro none_
        rw [none_] at first
        omega
      simp only [low, ↓reduceIte, ne_eq, large, not_false_eq_true, stepOf]
      push_cast
      rfl
  simp only [lineartoalaw, sign, magnitude, search_segment small, shifted]
  rw [BitVec.ofInt_natCast]
  rfl

/-- What a magnitude comes back as. -/
def kept (m : Nat) : Int := floor_ (segment m) (step m)

theorem alaw_back {m : Nat} (small : m < 32768) (negative : Bool) (signed : negative = true → m ≠ 0) :
    alaw2linear (lineartoalaw (if negative then -m else m)) = if negative then -kept m else kept m := by
  rw [lineartoalaw_code small negative signed]
  exact alaw_code negative _ (segment_few small) _ (step_few m)

theorem floor_nonneg (seg step : Nat) : 0 ≤ floor_ seg step := by
  unfold floor_
  split <;> omega

theorem high_segment {m : Nat} (large : 256 ≤ m) : segOf 4 3 m ≠ 0 := by
  have high := (@segment_bounds 4 3 m (by omega)).2
  intro none_
  rw [none_] at high
  omega

theorem kept_below (m : Nat) : kept m ≤ m := by
  unfold kept floor_ segment step
  by_cases low : m < 256
  · simp only [low, ↓reduceIte]
    omega
  · have inside := (@within_step 4 3 m (by omega)).1
    simp only [low, ↓reduceIte, high_segment (by omega : 256 ≤ m)]
    omega

/-- No step begins between a magnitude and what it comes back as. -/
theorem kept_greatest {m seg step : Nat} (few : step < 16) (below : floor_ seg step ≤ m) :
    floor_ seg step ≤ kept m := by
  unfold kept floor_ segment ALaw.step at *
  by_cases first : seg = 0
  · by_cases low : m < 256
    · simp only [first, low, ↓reduceIte] at below ⊢
      omega
    · have inside := within_step (show 2 ^ (4 + 3) ≤ m by omega)
      have wide := segment_bounds (show 2 ^ (4 + 3) ≤ m by omega)
      have later := @next_segment 4 3 0 15 (segOf 4 3 m) (stepOf 4 3 m) (by decide)
        (Nat.pos_of_ne_zero (high_segment (by omega)))
      have start : lower 4 3 0 15 + 2 ^ (0 + 3) = 256 := by decide
      simp only [first, low, ↓reduceIte, high_segment (by omega : 256 ≤ m)] at below ⊢
      omega
  · have later := @next_segment 4 3 0 15 seg step (by decide) (Nat.pos_of_ne_zero first)
    have start : lower 4 3 0 15 + 2 ^ (0 + 3) = 256 := by decide
    simp only [first, ↓reduceIte] at below ⊢
    have large : 256 ≤ m := by omega
    have most := greatest_step (show 2 ^ (4 + 3) ≤ m by omega) few (by exact_mod_cast below)
    simp only [show ¬ m < 256 by omega, ↓reduceIte, high_segment large]
    exact_mod_cast most

/-- Between zero and a sample. -/
def Toward (v x : Int) : Prop := 0 ≤ v ∧ v ≤ x ∨ x ≤ v ∧ v ≤ 0

instance (v x : Int) : Decidable (Toward v x) := inferInstanceAs (Decidable (_ ∨ _))

/-- Every sample but the least is cut to the largest value a code has between it and zero. -/
theorem alaw_truncates (x : Sample) :
    (Toward (alaw2linear (lineartoalaw x)) x ∧
      ∀ c, Toward (alaw2linear c) x → |alaw2linear c| ≤ |alaw2linear (lineartoalaw x)|) ↔
    (x : Int) ≠ -32768 := by
  rcases sample_signed x with ⟨m, small, is⟩ | ⟨m, some_, small, is⟩ | is
  · have back := alaw_back small false (fun no => nomatch no)
    simp only [Bool.false_eq_true, ↓reduceIte] at back
    rw [is, back]
    refine ⟨fun _ => by omega, fun _ => ⟨.inl ⟨floor_nonneg _ _, kept_below m⟩, ?_⟩⟩
    intro c toward
    obtain ⟨negative, seg, few, step, few', rfl⟩ := code_parts c
    rw [alaw_code negative seg few step few'] at toward ⊢
    have nonneg := floor_nonneg seg step
    have nonneg' : 0 ≤ kept m := floor_nonneg _ _
    rw [abs_of_nonneg nonneg']
    cases negative with
    | false =>
      simp only [Bool.false_eq_true, ↓reduceIte] at toward ⊢
      rw [abs_of_nonneg nonneg]
      unfold Toward at toward
      exact kept_greatest few' (by omega)
    | true =>
      simp only [↓reduceIte] at toward ⊢
      rw [abs_neg, abs_of_nonneg nonneg]
      unfold Toward at toward
      omega
  · have back := alaw_back small true (fun _ => some_)
    simp only [↓reduceIte] at back
    have below := kept_below m
    have nonneg' : 0 ≤ kept m := floor_nonneg _ _
    rw [is, back]
    refine ⟨fun _ => by omega, fun _ => ⟨.inr ⟨by omega, by omega⟩, ?_⟩⟩
    intro c toward
    obtain ⟨negative, seg, few, step, few', rfl⟩ := code_parts c
    rw [alaw_code negative seg few step few'] at toward ⊢
    have nonneg := floor_nonneg seg step
    rw [abs_neg, abs_of_nonneg nonneg']
    cases negative with
    | false =>
      simp only [Bool.false_eq_true, ↓reduceIte] at toward ⊢
      rw [abs_of_nonneg nonneg]
      unfold Toward at toward
      omega
    | true =>
      simp only [↓reduceIte] at toward ⊢
      rw [abs_neg, abs_of_nonneg nonneg]
      unfold Toward at toward
      exact kept_greatest few' (by omega)
  · rw [is]
    refine ⟨?_, fun no => absurd rfl no⟩
    rintro ⟨_, most⟩
    have last := most 0x2a (by decide)
    exact absurd last (by decide)

section Tables

/-- The place of the fourth of the samples that a sample belongs to. -/
theorem index_eq {a b : Int} (low : -32768 ≤ a) (high : a ≤ 32767) (low' : -32768 ≤ b) (high' : b ≤ 32767) :
    codeIndex a = codeIndex b ↔ a / 4 = b / 4 := by
  unfold codeIndex
  omega

/-- Every place is written once, for the least sample that belongs to it. -/
theorem table_filled (encode : Int → Octet) {a : Int} (low : -32768 ≤ a) (high : a ≤ 32767) (n : Nat)
    (most : n ≤ 16384) (reached : a / 4 < n - 8192) :
    reverseTable encode n (codeIndex a) = encode (4 * (a / 4)) := by
  induction n with
  | zero => omega
  | succ n ih =>
    have here : toShort (-32768 + 4 * (n : Int)) = -32768 + 4 * n := short_small (by omega) (by omega)
    rw [reverseTable, here]
    by_cases last : a / 4 = n - 8192
    · have same : codeIndex a = codeIndex (-32768 + 4 * (n : Int)) :=
        (index_eq low high (by omega) (by omega)).mpr (by omega)
      rw [same, Function.update_self, show 4 * (a / 4) = -32768 + 4 * (n : Int) by omega]
    · have other : codeIndex a ≠ codeIndex (-32768 + 4 * (n : Int)) := by
        rw [Ne, index_eq low high (by omega) (by omega)]
        omega
      rw [Function.update_of_ne other]
      exact ih (by omega) (by omega)

theorem table_entry (encode : Int → Octet) (x : Sample) :
    reverseTable encode 16384 (codeIndex x) = encode (4 * ((x : Int) / 4)) := by
  obtain ⟨low, high⟩ := x.2
  change -32768 ≤ (x : Int) at low
  change (x : Int) ≤ 32767 at high
  exact table_filled encode low high 16384 (Nat.le_refl _) (by omega)

theorem ulaw_fourth {m : Nat} (small : m < 32768) : lineartoulaw ((4 * (m / 4) : Nat) : Int) = lineartoulaw m := by
  have code := lineartoulaw_code small false (fun no => nomatch no)
  have code' := lineartoulaw_code (show 4 * (m / 4) < 32768 by omega) false (fun no => nomatch no)
  have bounds := biased_bounds m
  have bounds' := biased_bounds (4 * (m / 4))
  obtain ⟨segments, steps⟩ := @coarse_same 4 3 (biased (4 * (m / 4))) (biased m) (by omega) (by omega)
    (by unfold biased; omega)
  simp only [Bool.false_eq_true, ↓reduceIte] at code code'
  rw [code, code', segments, steps]

theorem alaw_fourth {m : Nat} (small : m < 32768) : lineartoalaw ((4 * (m / 4) : Nat) : Int) = lineartoalaw m := by
  have code := lineartoalaw_code small false (fun no => nomatch no)
  have code' := lineartoalaw_code (show 4 * (m / 4) < 32768 by omega) false (fun no => nomatch no)
  have same : segment (4 * (m / 4)) = segment m ∧ step (4 * (m / 4)) = step m := by
    unfold segment step
    by_cases low : m < 256
    · rw [if_pos low, if_pos (by omega), if_pos low, if_pos (by omega)]
      omega
    · rw [if_neg low, if_neg (by omega), if_neg low, if_neg (by omega)]
      exact coarse_same (by omega) (by omega) (by omega)
  simp only [Bool.false_eq_true, ↓reduceIte] at code code'
  rw [code, code', same.1, same.2]

theorem ulaw_codes : ∀ c, (lineartoulaw (mulaw c) = c ↔ c ≠ 0 ∧ c ≠ 0xff) ∧ 4 * (mulaw c / 4) = mulaw c ∧
    -32768 ≤ mulaw c ∧ mulaw c ≤ 32767 := by
  decide

theorem alaw_codes : ∀ c, (lineartoalaw (alaw2linear c) = c ↔ c ≠ 0x55) ∧
    4 * (alaw2linear c / 4) = alaw2linear c ∧ -32768 ≤ alaw2linear c ∧ alaw2linear c ≤ 32767 := by
  decide

/-- A sample is coded by the tables as the least of the four that share its place, which
    changes no sample that is not negative; a code is read and written back as itself,
    but for one of the two zeros and the code the zero trap replaces. -/
theorem tables_agree :
    (∀ x : Sample, lin2mu (codeIndex x) = lineartoulaw (4 * ((x : Int) / 4)) ∧
      lin2a (codeIndex x) = lineartoalaw (4 * ((x : Int) / 4))) ∧
    (∀ x : Sample, 0 ≤ (x : Int) → lin2mu (codeIndex x) = lineartoulaw x ∧
      lin2a (codeIndex x) = lineartoalaw x) ∧
    (∀ c, lin2mu (codeIndex (mulaw c)) = c ↔ c ≠ 0 ∧ c ≠ 0xff) ∧
    ∀ c, lin2a (codeIndex (alaw2linear c)) = c ↔ c ≠ 0x55 := by
  refine ⟨fun x => ⟨table_entry _ x, table_entry _ x⟩, ?_, ?_, ?_⟩
  · intro x nonneg
    obtain ⟨m, is⟩ := Int.eq_ofNat_of_zero_le nonneg
    have small : m < 32768 := by
      have high : (x : Int) ≤ 32767 := x.2.2
      omega
    have least : 4 * ((x : Int) / 4) = ((4 * (m / 4) : Nat) : Int) := by omega
    constructor
    · rw [lin2mu, table_entry, least, ulaw_fourth small, is]
    · rw [lin2a, table_entry, least, alaw_fourth small, is]
  · intro c
    obtain ⟨back, whole, low, high⟩ := ulaw_codes c
    rw [lin2mu, table_filled _ low high _ (Nat.le_refl _) (by omega), whole]
    exact back
  · intro c
    obtain ⟨back, whole, low, high⟩ := alaw_codes c
    rw [lin2a, table_filled _ low high _ (Nat.le_refl _) (by omega), whole]
    exact back

end Tables
end ALaw
