import Dahdi.Echocan.Windows

/-!
The peak of the short-time average is the maximum of its window, and the arithmetic of a
sample stays within an int for samples that were decoded from one of the companding laws.
-/
namespace EchocanPeak
open Echocan EchocanWindows SlidingWindow

section Scan
variable {y : Arr} {offset : Int} {len : Nat} {values : Nat → Int} {best : Int × Int}

/-- The loop of MAX16 keeps the first of the greatest values, or zero. -/
theorem max16_loop (found : ∀ k < len, y.get (offset + k) = some (values k))
    (ran : (List.range len).foldlM (fun (best : Int × Int) (k : Nat) =>
      (y.get (offset + k)).map fun sample => if best.1 < sample then (sample, (k : Int)) else best)
      (0, 0) = some best) :
    0 ≤ best.1 ∧ (∀ k < len, values k ≤ best.1) ∧
      (best = (0, 0) ∨ ∃ k < len, best = (values k, (k : Int))) := by
  induction len generalizing best with
  | zero =>
    rw [← Option.some.inj ran]
    exact ⟨Int.le_refl 0, fun k below => absurd below (Nat.not_lt_zero k), Or.inl rfl⟩
  | succ len ih =>
    rw [List.range_succ, List.foldlM_append] at ran
    obtain ⟨before, earlier, last⟩ := Option.bind_eq_some_iff.mp ran
    obtain ⟨low, most, from_⟩ := ih (fun k below => found k (by omega)) earlier
    rw [List.foldlM_cons, found len (by omega), Option.map_some] at last
    have best_eq : (if before.1 < values len then (values len, (len : Int)) else before) = best :=
      Option.some.inj last
    by_cases greater : before.1 < values len
    · rw [if_pos greater] at best_eq
      rw [← best_eq]
      refine ⟨by dsimp only; omega, ?_, Or.inr ⟨len, by omega, rfl⟩⟩
      intro k below
      rcases Nat.lt_succ_iff_lt_or_eq.mp below with inside | rfl
      · have := most k inside
        dsimp only
        omega
      · exact Int.le_refl _
    · rw [if_neg greater] at best_eq
      rw [← best_eq]
      refine ⟨low, ?_, ?_⟩
      · intro k below
        rcases Nat.lt_succ_iff_lt_or_eq.mp below with inside | rfl
        · exact most k inside
        · omega
      · rcases from_ with zero | ⟨k, inside, same⟩
        · exact Or.inl zero
        · exact Or.inr ⟨k, by omega, same⟩

/-- A scan of the ring finds the peak and the life that is left to it. -/
theorem max16_peak {n : Nat} {cb : Cb} {l : List Int} (holds : Holds n cb l) (positive : 0 < n)
    (low : ∀ v ∈ l, 0 ≤ v) (scanned : max16 cb.buf cb.idx n = some best) :
    Peak n l best.1 best.2 := by
  obtain ⟨found, ran, rfl⟩ := Option.map_eq_some_iff.mp scanned
  have values : ∀ k < n, cb.buf.get (cb.idx + k) = some (l.getD k 0) :=
    fun k below => holds_get holds below
  obtain ⟨atLeast, most, from_⟩ := max16_loop values ran
  rcases from_ with rfl | ⟨k, inside, rfl⟩
  · refine ⟨by dsimp only; omega, by dsimp only; omega, ?_, most⟩
    have newest : n - 1 - ((n : Int) - 1 - 0).toNat = 0 := by omega
    dsimp only
    rw [newest]
    have high := most 0 positive
    dsimp only at high
    have nonneg : 0 ≤ l.getD 0 0 := by
      cases l with
      | nil => exact Int.le_refl 0
      | cons v l => exact low v List.mem_cons_self
    omega
  · refine ⟨by dsimp only; omega, by dsimp only; omega, ?_, most⟩
    have place : n - 1 - ((n : Int) - 1 - (k : Int)).toNat = k := by omega
    dsimp only
    rw [place]

end Scan

section Tracking
variable {n : Nat} {h : History} {m : Meters} {p q r : Pvt} {iref isig sig u : Int}

/-- The samples that the companding tables decode to. -/
def Decoded (v : Int) : Prop := |v| ≤ 32256

def DecodedArgs : Op → Prop
  | .sample iref isig => Decoded iref ∧ Decoded isig
  | .train _ _ => True

theorem decoded_isShort {v : Int} (decoded : Decoded v) : IsShort v := by
  obtain ⟨low, high⟩ := abs_le.mp decoded
  exact ⟨by omega, by omega⟩

/-- The peak of y_tilde_i and its life, over a history of decoded reference samples. -/
structure Tracked (n : Nat) (h : History) (m : Meters) : Prop where
  gauged : Gauged n h m
  refs : ∀ v ∈ h.ref, Decoded v
  tildes : ∀ v ∈ h.tilde, 0 ≤ v ∧ v ≤ 32256
  peak : Peak n h.tilde m.maxYTilde m.maxYTildePos

theorem tilde_bounds {l : List Int} (refs : ∀ v ∈ l, Decoded v) :
    0 ≤ windowSum fifth 32 l ∧ windowSum fifth 32 l ≤ 32256 :=
  fifth_sum_bounds (b := 1008) (fun v member => refs v member) (by decide) 32

theorem shorts_kept {l : List Int} (small : ∀ v ∈ l, 0 ≤ v ∧ v ≤ 32256) : l.map short = l := by
  refine (List.map_congr_left fun v member => ?_).trans (List.map_id l)
  have bounds := small v member
  exact short_of_isShort ⟨by omega, by omega⟩

/-- "Update the Peak far-end receive signal detected": the new average is in the ring. -/
theorem peak_tracked (positive : 0 < n) (taps : p.nD = n)
    (tildes : ∀ v ∈ p.yTildeI :: h.tilde, 0 ≤ v ∧ v ≤ 32256)
    (ring : Holds n p.yTildeS ((p.yTildeI :: h.tilde).map short))
    (before : Peak n h.tilde p.maxYTilde p.maxYTildePos) :
    Keeps (fun q => Peak n (p.yTildeI :: h.tilde) q.maxYTilde q.maxYTildePos) (peak p) := by
  rw [shorts_kept tildes] at ring
  refine keeps_branch (fun greater => keeps_value ?_) fun smaller =>
    keeps_branch (fun over_ => keeps_map fun best scanned => ?_) fun alive => keeps_value ?_
  · have small := tildes p.yTildeI List.mem_cons_self
    have kept : short p.yTildeI = p.yTildeI := short_of_isShort ⟨by omega, by omega⟩
    dsimp only
    rw [kept, taps]
    exact peak_new before greater
  · rw [taps] at scanned
    exact max16_peak ring positive (fun v member => (tildes v member).1) scanned
  · exact peak_older before (Int.not_lt.mp smaller) (by omega)

/-- A sample from the state after the pushes to the state that it leaves. -/
theorem rear_tracked {kind : Kind} (positive : 0 < n) (tracked : Tracked n h m)
    (decoded : Decoded iref) (fronted : Fronted n h iref m (q, sig, u))
    (found : rear kind q iref u = some r) :
    Tracked n (h.push iref sig u r.yTildeI) (meters r) := by
  have gauged := rear_gauged tracked.gauged fronted found
  obtain ⟨_, _, rung, same⟩ := fronted
  obtain ⟨p₁, p₂, powers_, peak_, same₂⟩ := rear_meters kind r found
  have powered : Powered h (meters q) := by
    rw [same]
    exact ⟨tracked.gauged.powered.lu, tracked.gauged.powered.ly⟩
  obtain ⟨lu, ly, same₁, _⟩ := powers_meters rung powered p₁ powers_
  obtain ⟨maxY, life, same'⟩ := peak_meters p₂ peak_
  have tilde : r.yTildeI = p₁.yTildeI := by
    change (meters r).yTildeI = (meters p₁).yTildeI
    rw [same₂, same']
  have tilde' : p₁.yTildeI = q.yTildeI := congrArg Meters.yTildeI same₁
  have refs : ∀ v ∈ iref :: h.ref, Decoded v := by
    intro v member
    rcases List.mem_cons.mp member with rfl | earlier
    · exact decoded
    · exact tracked.refs v earlier
  have newest := tilde_bounds refs
  rw [← show q.yTildeI = windowSum fifth 32 (iref :: h.ref) from rung.yTilde, ← tilde'] at newest
  have tildes : ∀ v ∈ p₁.yTildeI :: h.tilde, 0 ≤ v ∧ v ≤ 32256 := by
    intro v member
    rcases List.mem_cons.mp member with rfl | earlier
    · exact newest
    · exact tracked.tildes v earlier
  have ring : Holds n p₁.yTildeS ((p₁.yTildeI :: h.tilde).map short) := by
    rw [tilde', show p₁.yTildeS = q.yTildeS from congrArg Meters.yTildeS same₁]
    exact rung.yTildeS
  have before : Peak n h.tilde p₁.maxYTilde p₁.maxYTildePos := by
    have maxY₁ : p₁.maxYTilde = q.maxYTilde := congrArg Meters.maxYTilde same₁
    have life₁ : p₁.maxYTildePos = q.maxYTildePos := congrArg Meters.maxYTildePos same₁
    have maxY₀ : q.maxYTilde = m.maxYTilde := congrArg Meters.maxYTilde same
    have life₀ : q.maxYTildePos = m.maxYTildePos := congrArg Meters.maxYTildePos same
    rw [maxY₁, life₁, maxY₀, life₀]
    exact tracked.peak
  have taps : p₁.nD = n := (congrArg Meters.nD same₁).trans rung.taps
  have after := peak_tracked positive taps tildes ring before p₂ peak_
  rw [tilde] at gauged ⊢
  refine ⟨gauged, refs, tildes, ?_⟩
  rw [same₂]
  exact after

theorem record_tracked (kind : Kind) (positive : 0 < n) {s : Pvt × History}
    (tracked : Tracked n s.2 (meters s.1)) {op : Op} (args : DecodedArgs op) :
    Keeps (fun s' : Pvt × History => Tracked n s'.2 (meters s'.1)) (record kind s op) := by
  intro s' found
  cases op with
  | train pos val =>
    obtain ⟨p, applied, rfl⟩ := Option.map_eq_some_iff.mp found
    dsimp only
    rw [traintap_meters kind rfl pos val p applied]
    exact tracked
  | sample iref isig =>
    obtain ⟨q, sig, u, r, begun, ended, rfl⟩ := record_sample found
    have fronted := front_fronted kind tracked.gauged.rung (decoded_isShort args.1)
      (decoded_isShort args.2) _ begun
    exact rear_tracked positive tracked args.1 fronted ended

theorem recorded_tracked (kind : Kind) (positive : 0 < n) (aggressive : Bool) {ops : List Op}
    (args : ∀ op ∈ ops, DecodedArgs op) :
    Keeps (fun s : Pvt × History => Tracked n s.2 (meters s.1)) (recorded kind n aggressive ops) := by
  have start : Tracked n ⟨[], [], [], []⟩ (meters (initCc n aggressive)) := by
    refine ⟨gauged_init positive aggressive, ?_, ?_, peak_nil positive⟩ <;>
    · intro v member
      cases member
  rw [recorded]
  generalize (⟨[], [], [], []⟩ : History) = h at start ⊢
  generalize initCc n aggressive = p at start ⊢
  induction ops generalizing p h with
  | nil => exact keeps_value start
  | cons op ops ih =>
    rw [List.foldlM_cons]
    refine keeps_bind fun s found => ?_
    exact ih (fun op' member => args op' (List.mem_cons_of_mem _ member)) s.2 s.1
      (record_tracked kind positive start (args op List.mem_cons_self) s found)

end Tracking

section Arithmetic
variable {n : Nat} {h : History} {p q r : Pvt} {iref isig sig u : Int}

def InInt (v : Int) : Prop := -2147483648 ≤ v ∧ v ≤ 2147483647

/-- Py_i -/
def pyOf (p : Pvt) : Int :=
  if p.hcntrD = 0 then
    int32 ((p.lyI >>> DEFAULT_SIGMA_LY_I) * (p.lyI >>> DEFAULT_SIGMA_LY_I)) >>> 15
  else 2 ^ 15

theorem twoBeta_py (p : Pvt) :
    twoBeta p =
      if int32 (DEFAULT_BETA1_I * pyOf p) >>> (15 : Int) = 0 then 1
      else int32 (DEFAULT_BETA1_I * pyOf p) >>> (15 : Int) := rfl

theorem shift_fifteen (v : Int) : v >>> (15 : Int) = v / 32768 :=
  (Int.shiftRight_natCast_right v 15).trans (Int.shiftRight_eq_div_pow v 15)

/-- What a sample divides by, with `q` the state at two_beta_i and `r` the one at the
    residual suppression. The quotient by isig is MG2's, behind its test for zero. -/
def divisors (kind : Kind) (q r : Pvt) (sig : Int) : List Int :=
  [twoBeta q, r.luI + 1, r.lyI >>> DEFAULT_SIGMA_LY_I + 1, r.lyI >>> (DEFAULT_SIGMA_LY_I + 2) + 1] ++
    if kind = .mg2 ∧ sig ≠ 0 then [sig] else []

/-- The arithmetic of a sample: no divisor is zero and no product leaves the range of an
    int. The residual suppression multiplies shorts, more than once if it is aggressive. -/
structure Sound (kind : Kind) (q r : Pvt) (sig : Int) : Prop where
  divided : ∀ d ∈ divisors kind q r sig, d ≠ 0
  square : InInt ((q.lyI >>> DEFAULT_SIGMA_LY_I) * (q.lyI >>> DEFAULT_SIGMA_LY_I))
  py : InInt (pyOf q)
  product : InInt (DEFAULT_BETA1_I * pyOf q)
  beta : InInt (twoBeta q)
  suppressed : ∀ v, IsShort v → InInt (v * (r.luI >>> DEFAULT_SIGMA_LU_I))
  doubled : InInt (r.luI * 2)

theorem lu_bounds (gauged : Gauged n h (meters p)) : 128 ≤ p.luI ∧ p.luI ≤ 128 + 127 * 32768 := by
  have bounds := abs_sum_bounds gauged.rung.outs 127
  have lu : p.luI = 128 + windowSum (|·|) 127 h.out := gauged.powered.lu
  omega

theorem ly_bounds (tracked : Tracked n h (meters p)) :
    128 ≤ p.lyI ∧ p.lyI ≤ 128 + 127 * 32256 := by
  have bounds := windowSum_bounds (f := (|·|)) (k := 127) (b := 32256)
    (fun v _ => abs_nonneg v) (fun v member => tracked.refs v member) (by decide)
  have ly : p.lyI = 128 + windowSum (|·|) 127 h.ref := tracked.gauged.powered.ly
  omega

theorem py_bounds (low : 128 ≤ q.lyI) (high : q.lyI ≤ 128 + 127 * 32256) :
    InInt ((q.lyI >>> DEFAULT_SIGMA_LY_I) * (q.lyI >>> DEFAULT_SIGMA_LY_I)) ∧
      0 ≤ pyOf q ∧ pyOf q ≤ 32768 := by
  have shift : q.lyI >>> DEFAULT_SIGMA_LY_I = q.lyI / 128 := by
    rw [Int.shiftRight_eq_div_pow]
    rfl
  have most : q.lyI / 128 ≤ 32005 := by omega
  have least : 0 ≤ q.lyI / 128 := by omega
  have square : (q.lyI / 128) * (q.lyI / 128) ≤ 32005 * 32005 :=
    Int.mul_le_mul most most least (by decide)
  have positive : 0 ≤ (q.lyI / 128) * (q.lyI / 128) := Int.mul_nonneg least least
  refine ⟨by rw [shift]; exact ⟨by omega, by omega⟩, ?_⟩
  rw [pyOf, shift]
  split
  · rw [int32_of_fits (by omega) (by omega), shift_fifteen]
    omega
  · decide

theorem twoBeta_bounds (low : 0 ≤ pyOf q) (high : pyOf q ≤ 32768) :
    1 ≤ twoBeta q ∧ twoBeta q ≤ 2048 := by
  rw [twoBeta_py, DEFAULT_BETA1_I, int32_of_fits (by omega) (by omega), shift_fifteen]
  split <;> omega

/-- The arithmetic of the next sample. -/
theorem sample_sound {kind : Kind} (positive : 0 < n) (tracked : Tracked n h (meters p))
    (decoded : Decoded iref) (fronted : Fronted n h iref (meters p) (q, sig, u))
    (found : rear kind q iref u = some r) : Sound kind q r sig := by
  have after := rear_tracked positive tracked decoded fronted found
  have ly : q.lyI = p.lyI := congrArg Meters.lyI fronted.2.2.2
  obtain ⟨low, high⟩ := ly_bounds tracked
  rw [← ly] at low high
  obtain ⟨square, pyLow, pyHigh⟩ := py_bounds low high
  obtain ⟨betaLow, betaHigh⟩ := twoBeta_bounds pyLow pyHigh
  obtain ⟨lowLu, highLu⟩ := lu_bounds after.gauged
  obtain ⟨lowLy, highLy⟩ := ly_bounds after
  have shiftLu : r.luI >>> DEFAULT_SIGMA_LU_I = r.luI / 128 := by
    rw [Int.shiftRight_eq_div_pow]
    rfl
  refine ⟨?_, square, ⟨by omega, by omega⟩, ?_, ⟨by omega, by omega⟩, ?_, ⟨by omega, by omega⟩⟩
  · intro d member
    rcases List.mem_append.mp member with always | quotient
    · simp only [List.mem_cons, List.not_mem_nil, or_false, Int.shiftRight_eq_div_pow] at always
      rcases always with rfl | rfl | rfl | rfl
      · omega
      · omega
      · have := Int.ediv_nonneg (a := r.lyI) (b := (2 ^ DEFAULT_SIGMA_LY_I : Nat)) (by omega) (by decide)
        omega
      · have := Int.ediv_nonneg (a := r.lyI) (b := (2 ^ (DEFAULT_SIGMA_LY_I + 2) : Nat)) (by omega)
          (by decide)
        omega
    · split at quotient
      case isTrue nonzero =>
        rw [List.mem_singleton.mp quotient]
        exact nonzero.2
      case isFalse => cases quotient
  · rw [DEFAULT_BETA1_I]
    exact ⟨by omega, by omega⟩
  · intro v fits
    rw [shiftLu]
    have size : |v * (r.luI / 128)| ≤ 32768 * 32513 := by
      rw [abs_mul, abs_of_nonneg (by omega : 0 ≤ r.luI / 128)]
      exact Int.mul_le_mul (abs_short fits) (by omega) (by omega) (by decide)
    obtain ⟨below, above⟩ := abs_le.mp size
    exact ⟨by omega, by omega⟩

theorem sample_some (kind : Kind) (positive : 0 < n) {aggressive : Bool} {ops : List Op}
    (found : recorded kind n aggressive ops = some (p, h)) (iref isig : Int) :
    ∃ q sig u r, front kind p iref isig = some (q, sig, u) ∧ rear kind q iref u = some r := by
  obtain ⟨p', ran, shape⟩ := accesses_inside kind positive aggressive ops
  rw [← recorded_run, found] at ran
  obtain rfl : p = p' := Option.some.inj ran
  obtain ⟨p'', applied, _⟩ := apply_runs kind shape (.sample iref isig)
  rw [sample_parts] at applied
  obtain ⟨⟨q, sig, u⟩, begun, later⟩ := Option.bind_eq_some_iff.mp applied
  obtain ⟨r, ended, _⟩ := Option.map_eq_some_iff.mp later
  exact ⟨q, sig, u, r, begun, ended⟩

/-- After every sequence of decoded samples the peak is the maximum of the last y_tilde_i
    and the power estimates are not negative, and the arithmetic of every further sample
    divides by nothing that is zero and stays within an int. -/
theorem peak_and_range (kind : Kind) {n : Nat} (positive : 0 < n) (aggressive : Bool)
    {ops : List Op} (args : ∀ op ∈ ops, DecodedArgs op) :
    ∃ p h, recorded kind n aggressive ops = some (p, h) ∧
      IsGreatest {v | ∃ i < n, v = h.tilde.getD i 0} p.maxYTilde ∧ 0 ≤ p.luI ∧ 0 ≤ p.lyI ∧
      ∀ iref isig, Decoded iref → Decoded isig →
        ∃ q sig u r, front kind p iref isig = some (q, sig, u) ∧ rear kind q iref u = some r ∧
          Sound kind q r sig := by
  obtain ⟨⟨p, h⟩, found⟩ := recorded_some kind positive aggressive ops
  have tracked : Tracked n h (meters p) := recorded_tracked kind positive aggressive args _ found
  have lu := (lu_bounds tracked.gauged).1
  have ly := (ly_bounds tracked).1
  refine ⟨p, h, found, tracked.peak.greatest, by omega, by omega, ?_⟩
  intro iref isig decoded decoded'
  obtain ⟨q, sig, u, r, begun, ended⟩ := sample_some kind positive found iref isig
  have fronted := front_fronted kind tracked.gauged.rung (decoded_isShort decoded)
    (decoded_isShort decoded') _ begun
  exact ⟨q, sig, u, r, begun, ended, sample_sound positive tracked decoded fronted ended⟩

def loudSample : List Op := [.sample 32256 (-32256)]

theorem peak_and_range_loud :
    ∃ p h, recorded .mg2 16 true loudSample = some (p, h) ∧
      IsGreatest {v | ∃ i < 16, v = h.tilde.getD i 0} p.maxYTilde ∧ 0 ≤ p.luI ∧ 0 ≤ p.lyI ∧
      ∀ iref isig, Decoded iref → Decoded isig →
        ∃ q sig u r, front .mg2 p iref isig = some (q, sig, u) ∧ rear .mg2 q iref u = some r ∧
          Sound .mg2 q r sig :=
  peak_and_range .mg2 (by decide) true (by
    intro op member
    rw [List.mem_singleton.mp member]
    exact ⟨by rw [Decoded]; decide, by rw [Decoded]; decide⟩)

end Arithmetic

end EchocanPeak
