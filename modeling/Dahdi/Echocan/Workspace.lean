import Dahdi.Echocan.Canceller

/-!
The workspace against its allocation: every element a sample or a training tap touches
lies inside its array, and the arrays do not fit the block of echo_can_create.
-/
namespace Echocan

/-- A computation that touches no element outside, with what holds of its value. -/
def Runs {α : Type} (P : α → Prop) (x : Option α) : Prop := ∃ a, x = some a ∧ P a

section Computations

variable {α β : Type} {P : α → Prop} {Q : β → Prop}

theorem Runs.value {a : α} (holds : P a) : Runs P (some a) := ⟨a, rfl, holds⟩

theorem Runs.bind {x : Option α} {f : α → Option β} (first : Runs P x)
    (next : ∀ a, P a → Runs Q (f a)) : Runs Q (x.bind f) := by
  obtain ⟨a, rfl, holds⟩ := first
  exact next a holds

theorem Runs.map {x : Option α} {f : α → β} (first : Runs P x) (next : ∀ a, P a → Q (f a)) :
    Runs Q (x.map f) := by
  obtain ⟨a, rfl, holds⟩ := first
  exact ⟨f a, rfl, next a holds⟩

theorem Runs.branch {c : Prop} [Decidable c] {x y : Option α} (yes : c → Runs P x)
    (no : ¬c → Runs P y) : Runs P (if c then x else y) := by
  split
  case isTrue taken => exact yes taken
  case isFalse other => exact no other

theorem get_runs {a : Arr} {i : Int} (low : 0 ≤ i) (high : i < a.len) :
    Runs (fun _ => True) (a.get i) := by
  obtain ⟨v, found⟩ := get_inside low high
  exact ⟨v, found, trivial⟩

theorem set_runs {a : Arr} {i : Int} {n : Nat} (len : a.len = n) (low : 0 ≤ i) (high : i < n)
    (value : Int) : Runs (fun a' : Arr => a'.len = n) (a.set i value) := by
  obtain ⟨a', stored, same⟩ := @set_inside a i low (by omega) value
  exact ⟨a', stored, same.trans len⟩

theorem ring_get_runs {size : Nat} {cb : Cb} (doubled : Doubled size cb) {pos : Int} (low : 0 ≤ pos)
    (high : pos ≤ size) : Runs (fun _ => True) (getCc cb pos) := by
  obtain ⟨v, found⟩ := doubled_get doubled low high
  exact ⟨v, found, trivial⟩

theorem convolve2_runs {coeffs hist : Arr} {c h : Int} {len : Nat} (low : 0 ≤ c)
    (high : c + len ≤ coeffs.len) (low' : 0 ≤ h) (high' : h + len ≤ hist.len) :
    Runs (fun _ => True) (convolve2 coeffs c hist h len) := by
  obtain ⟨sum, run⟩ := convolve2_inside low high low' high'
  exact ⟨sum, run, trivial⟩

theorem copy_runs {dest src : Arr} {n : Nat} (room : dest.len = n) (enough : src.len = n) :
    Runs (fun a' : Arr => a'.len = n) (copyArr dest src n) := by
  obtain ⟨dest', copied, len⟩ := @copy_inside dest src n (by omega) (by omega)
  exact ⟨dest', copied, len.trans room⟩

end Computations

section Accesses

/-- The arrays as init_cc sizes them, and the cursors of the circular buffers inside. -/
structure Shape (n : Nat) (p : Pvt) : Prop where
  taps : p.nD = n
  aI : p.aI.len = n
  aS : p.aS.len = n
  bI : p.bI.len = n
  cI : p.cI.len = n
  yS : Doubled (maxyOf n) p.yS
  sS : Doubled (2 ^ DEFAULT_ALPHA_ST_I) p.sS
  uS : Doubled maxuOf p.uS
  yTildeS : Doubled n p.yTildeS

theorem maxu_eq : maxuOf = 128 := by decide

theorem maxy_room (n : Nat) : n + 16 ≤ maxyOf n ∧ 128 ≤ maxyOf n := by
  simp only [maxyOf, DEFAULT_M, DEFAULT_ALPHA_YT_I, DEFAULT_SIGMA_LY_I]
  omega

theorem shape_init {n : Nat} (positive : 0 < n) (aggressive : Bool) : Shape n (initCc n aggressive) where
  taps := rfl
  aI := rfl
  aS := rfl
  bI := rfl
  cI := rfl
  yS := doubled_init (by have room := maxy_room n; omega)
  sS := doubled_init (by decide)
  uS := doubled_init (by decide)
  yTildeS := doubled_init positive

variable {n : Nat} {p : Pvt}

theorem push_ref_runs (shape : Shape n p) (iref : Int) :
    Runs (fun r : Pvt × Int => Shape n r.1) (pushRef p iref) := by
  have room := maxy_room n
  simp only [pushRef]
  apply Runs.bind (ring_get_runs shape.yS (by decide) (by simp only [DEFAULT_ALPHA_YT_I]; omega))
  intro oldest _
  apply Runs.bind (doubled_add shape.yS iref)
  intro yS doubled
  have filter : Runs (fun _ => True) (convolve2 p.aS 0 yS.buf yS.idx p.nD) := by
    have taps := shape.taps
    have aS := shape.aS
    obtain ⟨_, len, low, high⟩ := doubled
    exact convolve2_runs (Int.le_refl 0) (by omega) low (by omega)
  apply Runs.map filter
  intro sum _
  exact { shape with yS := doubled }

theorem push_out_runs (shape : Shape n p) (u : Int) : Runs (Shape n) (pushOut p u) := by
  apply Runs.map (doubled_add shape.uS u)
  intro uS doubled
  exact { shape with uS := doubled }

theorem push_sig_runs (shape : Shape n p) (isig : Int) : Runs (Shape n) (pushSig p isig) := by
  simp only [pushSig]
  apply Runs.bind (ring_get_runs shape.sS (by decide) (by decide))
  intro oldest _
  apply Runs.bind (doubled_add shape.sS isig)
  intro sS doubled
  apply Runs.map (doubled_add shape.yTildeS p.yTildeI)
  intro yTildeS doubled'
  exact { shape with sS := doubled, yTildeS := doubled' }

theorem powers_runs (shape : Shape n p) (iref u : Int) : Runs (Shape n) (powers p iref u) := by
  have room := maxy_room n
  simp only [powers]
  apply Runs.bind (ring_get_runs shape.uS (by decide) (by decide))
  intro oldU _
  apply Runs.map (ring_get_runs shape.yS (by decide) (by simp only [DEFAULT_SIGMA_LY_I]; omega))
  intro oldY _
  exact { shape with }

theorem peak_runs (shape : Shape n p) : Runs (Shape n) (peak p) := by
  simp only [peak]
  apply Runs.branch
  case yes =>
    intro _
    exact Runs.value { shape with }
  case no =>
    intro _
    apply Runs.branch
    case yes =>
      intro _
      have window : Runs (fun _ => True) (max16 p.yTildeS.buf p.yTildeS.idx p.nD) := by
        have taps := shape.taps
        obtain ⟨_, len, low, high⟩ := shape.yTildeS
        obtain ⟨best, found⟩ := @max16_inside p.yTildeS.buf p.yTildeS.idx p.nD low (by omega)
        exact ⟨best, found, trivial⟩
      apply Runs.map window
      intro best _
      exact { shape with }
    case no =>
      intro _
      exact Runs.value { shape with }

/-- The block of the last DEFAULT_M samples, at any tap. -/
theorem update_coeff_runs (shape : Shape n p) (twoBetaI : Int) {k : Nat} (inside : k < n) :
    Runs (fun r : Pvt × Int => Shape n r.1) (updateCoeff p twoBetaI k) := by
  have room := maxy_room n
  have block : Runs (fun _ => True)
      (convolve2 p.uS.buf p.uS.idx p.yS.buf (p.yS.idx + k) DEFAULT_M) := by
    have whole := maxu_eq
    obtain ⟨_, len, low, high⟩ := shape.uS
    obtain ⟨_, len', low', high'⟩ := shape.yS
    exact convolve2_runs low (by simp only [DEFAULT_M]; omega) (by omega) (by simp only [DEFAULT_M]; omega)
  simp only [updateCoeff]
  apply Runs.bind block
  intro grad2 _
  apply Runs.bind (@get_runs p.aI k (by omega) (by have len := shape.aI; omega))
  intro a _
  apply Runs.bind (set_runs shape.aI (by omega) (by omega) _)
  intro aI len
  apply Runs.map (set_runs shape.aS (by omega) (by omega) _)
  intro aS len'
  exact { shape with aI := len, aS := len' }

theorem suppress_shape (shape : Shape n p) (u : Int) : Shape n (suppress p u).2 := { shape with }

theorem count_down_shape (shape : Shape n p) : Shape n (countDown p) := by
  simp only [countDown]
  split
  · exact { shape with }
  · exact shape

/-- The loop over all the filter coefficients. -/
theorem coefficients_run {σ : Type} {Inv : σ → Prop} {f : σ → Nat → Option σ} {n : Nat}
    (step : ∀ s k, k < n → Inv s → Runs Inv (f s k)) {s : σ} (holds : Inv s) :
    Runs Inv ((List.range n).foldlM f s) := by
  apply loop_runs Inv _ holds
  intro s k member
  exact step s k (List.mem_range.mp member)

section Kb1

theorem kb1_update_runs (shape : Shape n p) (twoBetaI : Int) : Runs (Shape n) (kb1UpdateLoop p twoBetaI) := by
  rw [kb1UpdateLoop, shape.taps]
  apply coefficients_run _ shape
  intro p k inside shape
  exact Runs.map (update_coeff_runs shape twoBetaI inside) fun _ kept => kept

theorem kb1_sample_runs (shape : Shape n p) (iref isig : Int) :
    Runs (fun r : Int × Pvt => Shape n r.2) (kb1SampleUpdate p iref isig) := by
  simp only [kb1SampleUpdate]
  apply Runs.bind (push_ref_runs shape iref)
  intro (p, rs) shape
  apply Runs.bind (push_out_runs shape _)
  intro p shape
  apply Runs.bind (push_sig_runs shape isig)
  intro q shape
  apply Runs.bind (powers_runs shape iref _)
  intro p shape
  apply Runs.bind (peak_runs shape)
  intro p shape
  have counted : Shape n (if nearEnd p = true then { p with hcntrD := DEFAULT_HANGT } else countDown p) := by
    split
    · exact { shape with }
    · exact count_down_shape shape
  have updated : ∀ q b, Shape n q →
      Runs (Shape n) (if updates .kb1 q = true then kb1UpdateLoop q b else some q) := fun q b shape =>
    Runs.branch (fun _ => kb1_update_runs shape b) fun _ => Runs.value shape
  apply Runs.map (updated _ _ counted)
  intro p shape
  exact suppress_shape shape _

theorem kb1_train_runs (shape : Shape n p) (pos : Nat) (val : Int) : Runs (Shape n) (kb1Traintap p pos val) := by
  have taps := shape.taps
  simp only [kb1Traintap]
  apply Runs.branch
  case yes =>
    intro _
    exact Runs.value { shape with }
  case no =>
    intro inside
    apply Runs.bind (set_runs shape.aI (by omega) (by omega) _)
    intro aI len
    apply Runs.map (set_runs shape.aS (by omega) (by omega) _)
    intro aS len'
    exact { shape with aI := len, aS := len' }

end Kb1

section Mg2

theorem restore_runs (shape : Shape n p) : Runs (Shape n) (restoreCoeffs p) := by
  rw [restoreCoeffs, shape.taps]
  apply Runs.bind (copy_runs shape.aI shape.cI)
  intro aI len
  have shorts : Runs (fun aS : Arr => aS.len = n) ((List.range n).foldlM (fun (aS : Arr) (x : Nat) =>
      (aI.get x).bind fun a => aS.set x (short (a >>> 16))) p.aS) := by
    apply @coefficients_run Arr (fun aS => aS.len = n) _ n _ _ shape.aS
    intro aS k inside same
    apply Runs.bind (@get_runs aI k (by omega) (by omega))
    intro a _
    exact set_runs same (by omega) (by omega) _
  apply Runs.map shorts
  intro aS len'
  exact { shape with taps := rfl, aI := len, aS := len' }

theorem saturate_runs (shape : Shape n p) (rs : Int) :
    Runs (fun r : Pvt × Int => Shape n r.1) (saturate p rs) := by
  have restored : Runs (Shape n) (restoreCoeffs { p with hcntrD := DEFAULT_HANGT }) :=
    restore_runs { shape with }
  simp only [saturate]
  apply Runs.branch
  case yes =>
    intro _
    exact Runs.map restored fun _ kept => kept
  case no =>
    intro _
    apply Runs.branch
    case yes =>
      intro _
      exact Runs.map restored fun _ kept => kept
    case no =>
      intro _
      exact Runs.value shape

theorem cancel_runs (shape : Shape n p) (isig rs : Int) :
    Runs (fun r : Pvt × Int => Shape n r.1) (cancel p isig rs) := by
  simp only [cancel]
  apply Runs.bind (saturate_runs shape rs)
  intro (p, rs) shape
  have checked := @Runs.branch _ (fun r : Pvt × Int => Shape n r.1)
    (MAX_SIGN_ERROR < mg2Abs (mg2Abs rs - mg2Abs isig)) _ ((restoreCoeffs p).map fun p => (p, 0))
    (some (p, rs)) (fun _ => Runs.map (restore_runs shape) fun _ kept => kept) fun _ => Runs.value shape
  apply Runs.map checked
  intro (p, rs) shape
  exact shape

theorem output_runs (shape : Shape n p) (isig rs : Int) :
    Runs (fun r : Pvt × Int => Shape n r.1) (output p isig rs) := by
  have noted : Shape n (if p.lastsig = isig then { p with lastcount := int32 (p.lastcount + 1) }
      else { p with lastcount := 0, lastsig := isig }) := by
    split
    · exact { shape with }
    · exact { shape with }
  simp only [output]
  apply Runs.branch
  case yes =>
    intro _
    exact Runs.value noted
  case no =>
    intro _
    apply Runs.branch
    case yes =>
      intro _
      exact Runs.value noted
    case no =>
      intro _
      exact cancel_runs noted isig rs

theorem backup_runs (shape : Shape n p) : Runs (Shape n) (backupCoeffs p) := by
  rw [backupCoeffs, shape.taps]
  apply Runs.branch
  case yes =>
    intro _
    apply Runs.bind (copy_runs shape.cI shape.bI)
    intro cI len
    apply Runs.map (copy_runs shape.bI shape.aI)
    intro bI len'
    exact { shape with taps := rfl, cI := len, bI := len' }
  case no =>
    intro _
    exact Runs.value { shape with taps := rfl }

/-- The while loop stops at the smallest element at the latest: the new one is bigger. -/
theorem coeff_place_runs {maxCoeffs : Arr} {a least : Int} (len : maxCoeffs.len = USED_COEFFS)
    (last : maxCoeffs.get (USED_COEFFS - 1 : Nat) = some least) (bigger : least < a)
    (rounds pos : Nat) (inside : pos + rounds = USED_COEFFS) (some_left : 0 < rounds) :
    Runs (fun place => place < USED_COEFFS) (coeffPlace maxCoeffs a rounds pos) := by
  have size : USED_COEFFS = 64 := rfl
  induction rounds generalizing pos with
  | zero => omega
  | succ rounds ih =>
    obtain ⟨here, found⟩ := @get_inside maxCoeffs pos (by omega) (by omega)
    rw [coeffPlace, found, Option.bind_some]
    apply Runs.branch
    case yes =>
      intro smaller
      apply ih (pos + 1) (by omega)
      by_contra done
      have same : pos = USED_COEFFS - 1 := by omega
      rw [same, last] at found
      have equal := Option.some.inj found
      omega
    case no =>
      intro _
      exact Runs.value (by omega)

theorem insert_runs {maxCoeffs : Arr} (len : maxCoeffs.len = USED_COEFFS) (a : Int) :
    Runs (fun m : Arr => m.len = USED_COEFFS) (insertCoeff maxCoeffs a) := by
  have size : USED_COEFFS = 64 := rfl
  obtain ⟨least, last⟩ := @get_inside maxCoeffs (USED_COEFFS - 1 : Nat) (by omega) (by omega)
  rw [insertCoeff, last, Option.bind_some]
  apply Runs.branch
  case no =>
    intro _
    exact Runs.value len
  case yes =>
    intro bigger
    apply Runs.bind (coeff_place_runs len last bigger USED_COEFFS 0 (by omega) (by omega))
    intro pos inside
    apply Runs.bind (@get_runs maxCoeffs pos (by omega) (by omega))
    intro here _
    have shifted : Runs (fun m : Arr => m.len = USED_COEFFS)
        (if least < here then
          (List.range (USED_COEFFS - pos - 1)).foldlM (fun (moved : Arr) (j : Nat) =>
            (maxCoeffs.get (pos + j : Nat)).bind fun value => moved.set (pos + 1 + j : Nat) value) maxCoeffs
          else some maxCoeffs) := by
      apply Runs.branch
      case no =>
        intro _
        exact Runs.value len
      case yes =>
        intro _
        apply @coefficients_run Arr (fun m => m.len = USED_COEFFS) _ _ _ _ len
        intro moved j bound same
        apply Runs.bind (@get_runs maxCoeffs (pos + j : Nat) (by omega) (by omega))
        intro value _
        exact set_runs same (by omega) (by omega) _
    apply Runs.bind shifted
    intro m same
    exact set_runs same (by omega) (by omega) _

theorem mg2_coeff_runs {s : Pvt × Arr} (shape : Shape n s.1) (len : s.2.len = USED_COEFFS)
    (twoBetaI : Int) {k : Nat} (inside : k < n) :
    Runs (fun r : Pvt × Arr => Shape n r.1 ∧ r.2.len = USED_COEFFS) (mg2UpdateCoeff twoBetaI s k) := by
  rw [mg2UpdateCoeff]
  apply Runs.bind (update_coeff_runs shape twoBetaI inside)
  intro (p, a) shape
  apply Runs.branch
  case yes =>
    intro _
    apply Runs.map (insert_runs len (cabs a))
    intro m same
    exact ⟨shape, same⟩
  case no =>
    intro _
    exact Runs.value ⟨shape, len⟩

theorem filter_runs {maxCoeffs : Arr} (len : maxCoeffs.len = USED_COEFFS) (shape : Shape n p)
    {k : Nat} (inside : k < n) : Runs (Shape n) (filterCoeff maxCoeffs p k) := by
  have size : USED_COEFFS = 64 := rfl
  have aI := shape.aI
  rw [filterCoeff]
  apply Runs.bind (@get_runs p.aI k (by omega) (by omega))
  intro a _
  apply Runs.bind (@get_runs maxCoeffs (USED_COEFFS - 1 : Nat) (by omega) (by omega))
  intro least _
  apply Runs.branch
  case yes =>
    intro _
    apply Runs.bind (set_runs shape.aI (by omega) (by omega) _)
    intro aI len
    apply Runs.map (set_runs shape.aS (by omega) (by omega) _)
    intro aS len'
    exact { shape with aI := len, aS := len' }
  case no =>
    intro _
    exact Runs.value shape

theorem mg2_update_runs (shape : Shape n p) (twoBetaI : Int) : Runs (Shape n) (mg2UpdateLoop p twoBetaI) := by
  rw [mg2UpdateLoop, shape.taps]
  have updated : Runs (fun r : Pvt × Arr => Shape n r.1 ∧ r.2.len = USED_COEFFS)
      ((List.range n).foldlM (mg2UpdateCoeff twoBetaI) (p, zeros USED_COEFFS)) := by
    apply coefficients_run _ ⟨shape, rfl⟩
    intro s k inside holds
    exact mg2_coeff_runs holds.1 holds.2 twoBetaI inside
  apply Runs.bind updated
  intro (p, maxCoeffs) ⟨shape, len⟩
  dsimp only at shape len ⊢
  rw [shape.taps]
  apply Runs.branch
  case yes =>
    intro _
    apply coefficients_run _ shape
    intro p k inside shape
    exact filter_runs len shape inside
  case no =>
    intro _
    exact Runs.value shape

theorem mg2_sample_runs (shape : Shape n p) (iref isig : Int) :
    Runs (fun r : Int × Pvt => Shape n r.2) (mg2SampleUpdate p iref isig) := by
  have removed : Shape n (dcRemoval p isig).1 := { shape with }
  simp only [mg2SampleUpdate]
  apply Runs.bind (push_ref_runs removed iref)
  intro (p, rs) shape
  apply Runs.bind (output_runs shape _ rs)
  intro (p, u) shape
  apply Runs.bind (push_out_runs shape u)
  intro p shape
  apply Runs.bind (backup_runs shape)
  intro p shape
  apply Runs.bind (push_sig_runs shape _)
  intro q shape
  apply Runs.bind (powers_runs shape iref u)
  intro p shape
  apply Runs.bind (peak_runs shape)
  intro p shape
  have spoken : Runs (Shape n) (restoreCoeffs { p with hcntrD := DEFAULT_HANGT }) := restore_runs { shape with }
  have silent : Runs (Shape n) (some (countDown p)) := Runs.value (count_down_shape shape)
  apply Runs.bind (Runs.branch (fun _ => spoken) fun _ => silent)
  intro p shape
  apply Runs.map (Runs.branch (fun _ => mg2_update_runs shape (twoBeta q)) fun _ => Runs.value shape)
  intro p shape
  exact suppress_shape shape u

theorem mg2_train_runs (shape : Shape n p) (pos : Nat) (val : Int) : Runs (Shape n) (mg2Traintap p pos val) := by
  have backed : ∀ q : Pvt, Shape n q → Runs (Shape n) ((copyArr q.bI q.aI q.nD).bind fun bI =>
      (copyArr q.cI q.aI q.nD).map fun cI => { q with bI := bI, cI := cI }) := by
    intro q shape
    apply Runs.bind (copy_runs (shape.bI.trans shape.taps.symm) (shape.aI.trans shape.taps.symm))
    intro bI len
    apply Runs.map (copy_runs (shape.cI.trans shape.taps.symm) (shape.aI.trans shape.taps.symm))
    intro cI len'
    exact { shape with bI := len.trans shape.taps, cI := len'.trans shape.taps }
  have taps := shape.taps
  simp only [mg2Traintap]
  apply Runs.branch
  case yes =>
    intro _
    exact backed { p with hcntrD := (p.nD : Int) * 2 } { shape with }
  case no =>
    intro inside
    apply Runs.bind (set_runs shape.aI (by omega) (by omega) _)
    intro aI len
    apply Runs.bind (set_runs shape.aS (by omega) (by omega) _)
    intro aS len'
    have stored : Shape n { p with hcntrD := (p.nD : Int) * 2, aI := aI, aS := aS } :=
      { shape with aI := len, aS := len' }
    apply Runs.branch
    case yes =>
      intro _
      exact backed _ stored
    case no =>
      intro _
      exact Runs.value stored

end Mg2

theorem apply_runs (kind : Kind) (shape : Shape n p) (op : Op) : Runs (Shape n) (op.apply kind p) := by
  cases op with
  | sample iref isig =>
    cases kind with
    | kb1 => exact Runs.map (kb1_sample_runs shape iref isig) fun _ kept => kept
    | mg2 => exact Runs.map (mg2_sample_runs shape iref isig) fun _ kept => kept
  | train pos val =>
    cases kind with
    | kb1 => exact kb1_train_runs shape pos val
    | mg2 => exact mg2_train_runs shape pos val

/-- Every element that is read or written lies inside its own array. -/
theorem accesses_inside (kind : Kind) {n : Nat} (positive : 0 < n) (aggressive : Bool) (ops : List Op) :
    Runs (Shape n) (run kind n aggressive ops) := by
  apply loop_runs (Shape n) _ (shape_init positive aggressive)
  intro p op _ shape
  exact apply_runs kind shape op

end Accesses

section Allocation

theorem regions_inside {ptr : Nat} {bytes : List Nat} {r : Region} (member : r ∈ regions ptr bytes) :
    ptr ≤ r.start ∧ r.stop ≤ ptr + bytes.sum := by
  induction bytes generalizing ptr with
  | nil => cases member
  | cons first rest ih =>
    rw [List.sum_cons]
    cases member with
    | head =>
      constructor
      · exact Nat.le_refl ptr
      · simp only [Region.stop]
        omega
    | tail _ member =>
      have behind := ih member
      omega

theorem regions_reach (ptr first : Nat) (rest : List Nat) :
    ∃ r ∈ regions ptr (first :: rest), r.stop = ptr + (first :: rest).sum := by
  induction rest generalizing ptr first with
  | nil =>
    refine ⟨⟨ptr, first⟩, List.mem_cons_self, ?_⟩
    simp only [Region.stop, List.sum_cons, List.sum_nil]
    omega
  | cons second rest ih =>
    obtain ⟨r, member, stop⟩ := ih (ptr + first) second
    refine ⟨r, List.mem_cons_of_mem _ member, ?_⟩
    rw [stop, List.sum_cons, List.sum_cons, List.sum_cons]
    omega

/-- Behind the private state the arrays take four bytes more than their sum at most:
    with sizeof(*pvt) the block would hold them. -/
theorem fits_behind_pvt (kind : Kind) (abi : Abi) (pvt tapLength : Nat) {r : Region}
    (member : r ∈ initCcRegions kind abi pvt tapLength) :
    pvt ≤ r.start ∧ r.stop ≤ pvt + (pvtSize kind abi + 4 + (arrayBytes kind tapLength).sum) := by
  have bounds := regions_inside member
  omega

/-- Every array lies inside the block, and every element touched in its own array. -/
structure WorkspaceOk (kind : Kind) (abi : Abi) (pvt tapLength : Nat) : Prop where
  layout : ∀ r ∈ initCcRegions kind abi pvt tapLength,
    pvt ≤ r.start ∧ r.stop ≤ pvt + createSize kind abi tapLength
  accesses : ∀ aggressive ops, run kind tapLength aggressive ops ≠ none

theorem header_short (kind : Kind) (abi : Abi) (tapLength : Nat) :
    createSize kind abi tapLength < pvtSize kind abi + (arrayBytes kind tapLength).sum := by
  have short : ∀ kind : Kind, ∀ abi : Abi, createSize kind abi tapLength
      = createSize kind abi 0 - (arrayBytes kind 0).sum + (arrayBytes kind tapLength).sum := by
    intro kind abi
    simp only [createSize]
    omega
  have less : createSize kind abi 0 - (arrayBytes kind 0).sum < pvtSize kind abi := by
    cases kind <;> cases abi <;> decide +kernel
  rw [short]
  omega

/-- The block is too small for every tap_length: what echo_can_create counts in front
    of the arrays is not their private state. -/
theorem arrays_leave_the_block (kind : Kind) (abi : Abi) (pvt tapLength : Nat) :
    ¬WorkspaceOk kind abi pvt tapLength := by
  intro ok
  obtain ⟨first, rest, cons⟩ : ∃ first rest, arrayBytes kind tapLength = first :: rest := ⟨_, _, rfl⟩
  obtain ⟨r, member, stop⟩ := regions_reach ((pvt + pvtSize kind abi + 3) / 4 * 4) first rest
  rw [← cons] at member stop
  have inside := ok.layout r member
  have short := header_short kind abi tapLength
  omega

theorem kb1_leaves_the_block : ¬WorkspaceOk .kb1 .lp64 0 128 := by
  intro ok
  have inside := ok.layout ⟨2256, 512⟩ (by decide +kernel)
  revert inside
  decide +kernel

end Allocation

end Echocan
