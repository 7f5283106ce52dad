import Dahdi.Echocan.Workspace
import Dahdi.Library.SlidingWindow

/-!
The rings of the echo cancellers hold the latest samples, and the power estimates are sums
over them.
-/
namespace EchocanWindows
open Echocan SlidingWindow

section Rings

/-- Values that C stores in a short. -/
def IsShort (v : Int) : Prop := -32768 ≤ v ∧ v ≤ 32767

instance (v : Int) : Decidable (IsShort v) := inferInstanceAs (Decidable (_ ∧ _))

theorem zero_isShort : IsShort 0 := by decide

theorem short_isShort (v : Int) : IsShort (short v) := by
  have low := @Int.le_bmod v (2 ^ 16) (by decide)
  have high := @Int.bmod_lt v (2 ^ 16) (by decide)
  rw [IsShort, short]
  omega

theorem short_of_isShort {v : Int} (fits : IsShort v) : short v = v := by
  rw [short]
  exact Int.bmod_eq_of_le (by have := fits.1; omega) (by have := fits.2; omega)

theorem int32_of_fits {v : Int} (low : -2147483648 ≤ v) (high : v ≤ 2147483647) : int32 v = v :=
  Int.bmod_eq_of_le (by omega) (by omega)

theorem cabs_of_isShort {v : Int} (fits : IsShort v) : cabs v = |v| := by
  have low := fits.1
  have high := fits.2
  have size : |v| ≤ 32768 := abs_le.mpr ⟨low, by omega⟩
  have positive := abs_nonneg v
  rw [cabs]
  exact int32_of_fits (by omega) (by omega)

/-- The ring holds the latest values of a history, newest first, twice over. -/
structure Holds (size : Nat) (cb : Cb) (l : List Int) : Prop where
  doubled : Doubled size cb
  twice : ∀ j < size, cb.buf.elem (j + size) = cb.buf.elem j
  latest : ∀ k < size, cb.buf.elem (cb.idx.toNat + k) = l.getD k 0

variable {size : Nat} {cb cb' : Cb} {l : List Int} {v : Int}

theorem holds_init (positive : 0 < size) : Holds size (initCb size) [] where
  doubled := doubled_init positive
  twice := by simp [initCb, zeros]
  latest := by simp [initCb, zeros]

theorem holds_get (holds : Holds size cb l) {k : Nat} (inside : k < size) :
    getCc cb k = some (l.getD k 0) := by
  obtain ⟨_, len, low, high⟩ := holds.doubled
  have there : (cb.idx + (k : Int)).toNat = cb.idx.toNat + k := by omega
  rw [getCc, Arr.get, if_pos (by omega), there, holds.latest k inside]

/-- The place of the next value. -/
def nextIdx (cb : Cb) : Int := if cb.idx - 1 < 0 then cb.idx - 1 + cb.size else cb.idx - 1

theorem nextIdx_inside (doubled : Doubled size cb) : 0 ≤ nextIdx cb ∧ nextIdx cb < size := by
  obtain ⟨whole, _, low, high⟩ := doubled
  rw [nextIdx]
  split <;> omega

theorem addCc_eq (doubled : Doubled size cb) (v : Int) :
    addCc cb v = some { cb with
      idx := nextIdx cb
      buf := { cb.buf with
        elem := Function.update (Function.update cb.buf.elem (nextIdx cb).toNat (short v))
          (nextIdx cb + cb.size).toNat (short v) } } := by
  have inside := nextIdx_inside doubled
  obtain ⟨whole, len, low, high⟩ := doubled
  have first : 0 ≤ nextIdx cb ∧ nextIdx cb < cb.buf.len := by omega
  have second : 0 ≤ nextIdx cb + cb.size ∧ nextIdx cb + cb.size < cb.buf.len := by omega
  change (cb.buf.set (nextIdx cb) (short v)).bind _ = _
  rw [Arr.set, if_pos first, Option.bind_some]
  change (Arr.set _ (nextIdx cb + cb.size) (short v)).map _ = _
  rw [Arr.set, if_pos second, Option.map_some]
  rfl

/-- What the elements of the ring are after a value was added. -/
theorem added_elem (doubled : Doubled size cb) (added : addCc cb v = some cb') (j : Nat) :
    cb'.buf.elem j =
      if j = (nextIdx cb).toNat ∨ j = (nextIdx cb).toNat + size then short v else cb.buf.elem j := by
  have inside := nextIdx_inside doubled
  rw [addCc_eq doubled] at added
  have := doubled.whole
  have there : (nextIdx cb + cb.size).toNat = (nextIdx cb).toNat + size := by omega
  rw [← Option.some.inj added]
  dsimp only
  rw [there, Function.update_apply, Function.update_apply]
  split
  case isTrue same => rw [if_pos (Or.inr same)]
  case isFalse other =>
    split
    case isTrue same => rw [if_pos (Or.inl same)]
    case isFalse other' => rw [if_neg (not_or.mpr ⟨other', other⟩)]

theorem added_idx (doubled : Doubled size cb) (added : addCc cb v = some cb') :
    cb'.idx = nextIdx cb := by
  rw [addCc_eq doubled] at added
  rw [← Option.some.inj added]

/-- A value that is added becomes the newest. -/
theorem holds_add (holds : Holds size cb l) (added : addCc cb v = some cb') :
    Holds size cb' (short v :: l) := by
  have elem := added_elem holds.doubled added
  have inside := nextIdx_inside holds.doubled
  obtain ⟨cb'', added', doubled'⟩ := doubled_add holds.doubled v
  rw [added] at added'
  cases added'
  refine ⟨doubled', ?_, ?_⟩
  · intro j below
    rw [elem, elem]
    have := holds.twice j below
    split
    case isTrue => rw [if_pos (by omega)]
    case isFalse => rw [if_neg (by omega), this]
  · intro k below
    rw [elem, added_idx holds.doubled added]
    cases k with
    | zero => rw [if_pos (Or.inl (Nat.add_zero _)), List.getD_cons_zero]
    | succ k =>
      rw [if_neg (by omega), List.getD_cons_succ, ← holds.latest k (by omega)]
      have whole := holds.doubled.whole
      have low := holds.doubled.low
      rw [nextIdx]
      split
      case isTrue start =>
        -- the cursor has gone round: the older values stand in the second copy
        have zero : cb.idx = 0 := by omega
        have there : (cb.idx - 1 + cb.size).toNat + (k + 1) = k + size := by omega
        rw [there, zero, holds.twice k (by omega), Int.toNat_zero, Nat.zero_add]
      case isFalse =>
        have there : (cb.idx - 1).toNat + (k + 1) = cb.idx.toNat + k := by omega
        rw [there]

end Rings

section Frame

/-- Every value that a computation can have. -/
def Keeps {α : Type} (P : α → Prop) (x : Option α) : Prop := ∀ a, x = some a → P a

section Computations
variable {α β : Type} {P : α → Prop} {Q : β → Prop}

theorem keeps_value {a : α} (holds : P a) : Keeps P (some a) := by
  intro b same
  rw [← Option.some.inj same]
  exact holds

theorem keeps_bind {x : Option α} {f : α → Option β} (next : ∀ a, x = some a → Keeps Q (f a)) :
    Keeps Q (x.bind f) := by
  intro b found
  obtain ⟨a, first, later⟩ := Option.bind_eq_some_iff.mp found
  exact next a first b later

theorem keeps_map {x : Option α} {f : α → β} (next : ∀ a, x = some a → Q (f a)) :
    Keeps Q (x.map f) := by
  intro b found
  obtain ⟨a, first, rfl⟩ := Option.map_eq_some_iff.mp found
  exact next a first

theorem keeps_branch {c : Prop} [Decidable c] {x y : Option α} (yes : c → Keeps P x)
    (no : ¬ c → Keeps P y) : Keeps P (if c then x else y) := by
  split
  case isTrue taken => exact yes taken
  case isFalse other => exact no other

theorem keeps_loop {f : α → β → Option α} {l : List β} (step : ∀ s x, P s → Keeps P (f s x)) {s : α}
    (holds : P s) : Keeps P (l.foldlM f s) := by
  induction l generalizing s with
  | nil => exact keeps_value holds
  | cons x l ih =>
    rw [List.foldlM_cons]
    exact keeps_bind fun s' first => ih (step s x holds s' first)

end Computations

/-- The rings of a canceller and what is measured on them. -/
structure Meters where
  nD : Nat
  lyI : Int
  luI : Int
  sTildeI : Int
  yTildeI : Int
  maxYTilde : Int
  maxYTildePos : Int
  yS : Cb
  sS : Cb
  uS : Cb
  yTildeS : Cb

def meters (p : Pvt) : Meters where
  nD := p.nD
  lyI := p.lyI
  luI := p.luI
  sTildeI := p.sTildeI
  yTildeI := p.yTildeI
  maxYTilde := p.maxYTilde
  maxYTildePos := p.maxYTildePos
  yS := p.yS
  sS := p.sS
  uS := p.uS
  yTildeS := p.yTildeS

variable {p q : Pvt} {m : Meters}

theorem restore_meters (same : meters p = m) :
    Keeps (fun q => meters q = m) (restoreCoeffs p) := by
  refine keeps_bind fun aI _ => keeps_map fun aS _ => ?_
  exact same

theorem backup_meters (same : meters p = m) : Keeps (fun q => meters q = m) (backupCoeffs p) := by
  refine keeps_branch (fun _ => ?_) fun _ => keeps_value same
  exact keeps_bind fun cI _ => keeps_map fun bI _ => same

theorem saturate_meters (same : meters p = m) (rs : Int) :
    Keeps (fun r : Pvt × Int => meters r.1 = m) (saturate p rs) := by
  have hung : meters { p with hcntrD := DEFAULT_HANGT } = m := same
  refine keeps_branch (fun _ => ?_) fun _ => keeps_branch (fun _ => ?_) fun _ => keeps_value same
  · exact keeps_map fun q restored => restore_meters hung q restored
  · exact keeps_map fun q restored => restore_meters hung q restored

theorem cancel_meters (same : meters p = m) (isig rs : Int) :
    Keeps (fun r : Pvt × Int => meters r.1 = m ∧ IsShort r.2) (cancel p isig rs) := by
  refine keeps_bind fun (p', rs') saturated => ?_
  have same' : meters p' = m := saturate_meters same rs _ saturated
  refine keeps_map fun (p'', rs'') checked => ?_
  have same'' : meters p'' = m := by
    refine keeps_branch (P := fun r : Pvt × Int => meters r.1 = m) (fun _ => ?_)
      (fun _ => keeps_value same') _ checked
    exact keeps_map fun q restored => restore_meters same' q restored
  refine ⟨same'', ?_⟩
  dsimp only
  split <;> exact short_isShort _

theorem output_meters (same : meters p = m) {isig : Int} (fits : IsShort isig) (rs : Int) :
    Keeps (fun r : Pvt × Int => meters r.1 = m ∧ IsShort r.2) (output p isig rs) := by
  have noted : meters (if p.lastsig = isig then { p with lastcount := int32 (p.lastcount + 1) }
      else { p with lastcount := 0, lastsig := isig }) = m := by
    split <;> exact same
  refine keeps_branch (fun _ => keeps_value ⟨noted, zero_isShort⟩) fun _ =>
    keeps_branch (fun _ => keeps_value ⟨noted, fits⟩) fun _ => cancel_meters noted isig rs

theorem updateCoeff_meters (same : meters p = m) (twoBetaI : Int) (k : Nat) :
    Keeps (fun r : Pvt × Int => meters r.1 = m) (updateCoeff p twoBetaI k) :=
  keeps_bind fun _ _ => keeps_bind fun _ _ => keeps_bind fun _ _ => keeps_map fun _ _ => same

theorem kb1Update_meters (same : meters p = m) (twoBetaI : Int) :
    Keeps (fun q => meters q = m) (kb1UpdateLoop p twoBetaI) := by
  refine keeps_loop (fun s k kept => ?_) same
  exact keeps_map fun r found => updateCoeff_meters kept twoBetaI k r found

theorem mg2Update_meters (same : meters p = m) (twoBetaI : Int) :
    Keeps (fun q => meters q = m) (mg2UpdateLoop p twoBetaI) := by
  refine keeps_bind fun (p', maxCoeffs) updated => ?_
  have same' : meters p' = m := by
    refine keeps_loop (P := fun r : Pvt × Arr => meters r.1 = m) (fun s k kept => ?_) same _ updated
    refine keeps_bind fun (p'', a) found => ?_
    have same'' : meters p'' = m := updateCoeff_meters kept twoBetaI k _ found
    exact keeps_branch (fun _ => keeps_map fun _ _ => same'') fun _ => keeps_value same''
  refine keeps_branch (fun _ => keeps_loop (fun s k kept => ?_) same') fun _ => keeps_value same'
  refine keeps_bind fun a _ => keeps_bind fun least _ => keeps_branch (fun _ => ?_)
    fun _ => keeps_value kept
  exact keeps_bind fun _ _ => keeps_map fun _ _ => kept

theorem traintap_meters (kind : Kind) (same : meters p = m) (pos : Nat) (val : Int) :
    Keeps (fun q => meters q = m) (Op.apply kind p (.train pos val)) := by
  cases kind with
  | kb1 =>
    refine keeps_branch (fun _ => keeps_value same) fun _ => ?_
    exact keeps_bind fun _ _ => keeps_map fun _ _ => same
  | mg2 =>
    have backed : ∀ q : Pvt, meters q = m → Keeps (fun q => meters q = m)
        ((copyArr q.bI q.aI q.nD).bind fun bI => (copyArr q.cI q.aI q.nD).map fun cI =>
          { q with bI := bI, cI := cI }) := fun q same' =>
      keeps_bind fun _ _ => keeps_map fun _ _ => same'
    refine keeps_branch (fun _ => backed _ same) fun _ => ?_
    refine keeps_bind fun aI _ => keeps_bind fun aS _ => ?_
    exact keeps_branch (fun _ => backed _ same) fun _ => keeps_value same

end Frame

section Samples

/-- sample_update as far as the push of y_tilde_i, with isig and u. -/
def front (kind : Kind) (p : Pvt) (iref isig : Int) : Option (Pvt × Int × Int) :=
  match kind with
  | .kb1 =>
    (pushRef p iref).bind fun (p, rs) =>
    let u := short (isig - rs)
    (pushOut p u).bind fun p => (pushSig p isig).map fun p => (p, isig, u)
  | .mg2 =>
    let (p, isig) := dcRemoval p isig
    (pushRef p iref).bind fun (p, rs) =>
    (output p isig rs).bind fun (p, u) =>
    (pushOut p u).bind fun p =>
    (backupCoeffs p).bind fun p => (pushSig p isig).map fun p => (p, isig, u)

/-- sample_update from there to the residual error suppression. -/
def rear (kind : Kind) (q : Pvt) (iref u : Int) : Option Pvt :=
  (powers q iref u).bind fun p =>
  (peak p).bind fun p =>
  match kind with
  | .kb1 =>
    let p := if nearEnd p then { p with hcntrD := DEFAULT_HANGT } else countDown p
    if updates .kb1 p then kb1UpdateLoop p (twoBeta q) else some p
  | .mg2 =>
    (if nearEnd p then restoreCoeffs { p with hcntrD := DEFAULT_HANGT } else some (countDown p)).bind
      fun p => if updates .mg2 p then mg2UpdateLoop p (twoBeta q) else some p

theorem sample_parts (kind : Kind) (p : Pvt) (iref isig : Int) :
    Op.apply kind p (.sample iref isig) = (front kind p iref isig).bind fun (q, _, u) =>
      (rear kind q iref u).map fun r => (suppress r u).2 := by
  cases kind with
  | kb1 =>
    simp only [Op.apply, kb1SampleUpdate, front, rear, Option.bind_assoc, Option.map_bind,
      Option.bind_map, Option.map_map, Function.comp_def]
  | mg2 =>
    simp only [Op.apply, mg2SampleUpdate, front, rear, Option.bind_assoc, Option.map_bind,
      Option.bind_map, Option.map_map, Function.comp_def]

/-- What a canceller has heard and given out, the latest first: the reference samples, the
    near-end samples as sample_update measures them, u, and y_tilde_i. -/
structure History where
  ref : List Int
  sig : List Int
  out : List Int
  tilde : List Int

def History.push (h : History) (iref sig u tilde : Int) : History :=
  ⟨iref :: h.ref, sig :: h.sig, u :: h.out, tilde :: h.tilde⟩

/-- A step of a canceller, with its history. -/
def record (kind : Kind) (s : Pvt × History) (op : Op) : Option (Pvt × History) :=
  match op with
  | .sample iref isig =>
    (front kind s.1 iref isig).bind fun (_, sig, u) =>
      (Op.apply kind s.1 op).map fun p => (p, s.2.push iref sig u p.yTildeI)
  | .train _ _ => (Op.apply kind s.1 op).map fun p => (p, s.2)

def recorded (kind : Kind) (tapLength : Nat) (aggressive : Bool) (ops : List Op) :
    Option (Pvt × History) :=
  ops.foldlM (record kind) (initCc tapLength aggressive, ⟨[], [], [], []⟩)

theorem record_apply (kind : Kind) (s : Pvt × History) (op : Op) :
    (record kind s op).map Prod.fst = Op.apply kind s.1 op := by
  cases op with
  | train pos val =>
    rw [record]
    cases Op.apply kind s.1 (.train pos val) <;> rfl
  | sample iref isig =>
    rw [record]
    have parts := sample_parts kind s.1 iref isig
    cases begun : front kind s.1 iref isig with
    | none =>
      rw [begun] at parts
      rw [parts]
      rfl
    | some r =>
      rw [Option.bind_some]
      cases Op.apply kind s.1 (.sample iref isig) <;> rfl

/-- The history changes nothing. -/
theorem recorded_run (kind : Kind) (n : Nat) (aggressive : Bool) (ops : List Op) :
    (recorded kind n aggressive ops).map Prod.fst = run kind n aggressive ops := by
  rw [recorded, run]
  generalize (⟨[], [], [], []⟩ : History) = h
  generalize initCc n aggressive = p
  induction ops generalizing p h with
  | nil => rfl
  | cons op ops ih =>
    rw [List.foldlM_cons, List.foldlM_cons, ← record_apply kind (p, h) op]
    cases record kind (p, h) op with
    | none => rfl
    | some s => exact ih s.2 s.1

end Samples

section Sums
variable {n : Nat} {h : History} {p : Pvt} {m : Meters} {iref isig sig u : Int}

/-- What a reference sample adds to y_tilde_i. -/
def fifth (v : Int) : Int := |v| >>> DEFAULT_ALPHA_YT_I

/-- The rings hold the history, and the short-time averages are sums over it. -/
structure Rung (n : Nat) (h : History) (m : Meters) : Prop where
  taps : m.nD = n
  yS : Holds (maxyOf n) m.yS h.ref
  sS : Holds 32 m.sS h.sig
  uS : Holds 128 m.uS h.out
  yTildeS : Holds n m.yTildeS (h.tilde.map short)
  refs : ∀ v ∈ h.ref, IsShort v
  sigs : ∀ v ∈ h.sig, IsShort v
  outs : ∀ v ∈ h.out, IsShort v
  sTilde : m.sTildeI = windowSum (|·|) 32 h.sig
  yTilde : m.yTildeI = windowSum fifth 32 h.ref

/-- The power estimates are sums over 127 values. -/
structure Powered (h : History) (m : Meters) : Prop where
  lu : m.luI = DEFAULT_CUTOFF_I + windowSum (|·|) 127 h.out
  ly : m.lyI = DEFAULT_CUTOFF_I + windowSum (|·|) 127 h.ref

theorem abs_short {v : Int} (fits : IsShort v) : |v| ≤ 32768 :=
  abs_le.mpr ⟨fits.1, by have := fits.2; omega⟩

theorem abs_sum_bounds {l : List Int} (fits : ∀ v ∈ l, IsShort v) (k : Nat) :
    0 ≤ windowSum (|·|) k l ∧ windowSum (|·|) k l ≤ k * 32768 :=
  windowSum_bounds (fun v _ => abs_nonneg v) (fun v member => abs_short (fits v member)) (by decide)

theorem fifth_bounds {v b : Int} (small : |v| ≤ 32 * b) : 0 ≤ fifth v ∧ fifth v ≤ b := by
  have positive := abs_nonneg v
  rw [fifth, Int.shiftRight_eq_div_pow, DEFAULT_ALPHA_YT_I]
  omega

theorem fifth_sum_bounds {l : List Int} {b : Int} (small : ∀ v ∈ l, |v| ≤ 32 * b) (positive : 0 ≤ b)
    (k : Nat) : 0 ≤ windowSum fifth k l ∧ windowSum fifth k l ≤ k * b :=
  windowSum_bounds (fun v member => (fifth_bounds (small v member)).1)
    (fun v member => (fifth_bounds (small v member)).2) positive

theorem cons_short {l : List Int} {v : Int} (fits : IsShort v) (all : ∀ w ∈ l, IsShort w) :
    ∀ w ∈ v :: l, IsShort w := by
  intro w member
  rcases List.mem_cons.mp member with rfl | earlier
  · exact fits
  · exact all w earlier

theorem getD_short {l : List Int} (all : ∀ w ∈ l, IsShort w) (k : Nat) : IsShort (l.getD k 0) := by
  by_cases inside : k < l.length
  · rw [List.getD_eq_getElem _ _ inside]
    exact all _ (List.getElem_mem inside)
  · rw [List.getD_eq_default _ _ (by omega)]
    exact zero_isShort

theorem pushRef_meters (rung : Rung n h (meters p)) (fits : IsShort iref) :
    Keeps (fun r : Pvt × Int => ∃ yS, Holds (maxyOf n) yS (iref :: h.ref) ∧
      meters r.1 = { meters p with
        yTildeI := windowSum fifth 32 (iref :: h.ref)
        yS := yS }) (pushRef p iref) := by
  refine keeps_bind fun oldest got => keeps_bind fun yS added => keeps_map fun sum _ => ?_
  have room := maxy_room n
  have holds := holds_add rung.yS added
  rw [short_of_isShort fits] at holds
  refine ⟨yS, holds, ?_⟩
  have there := holds_get rung.yS (k := 31) (by omega)
  rw [show ((31 : Nat) : Int) = 2 ^ DEFAULT_ALPHA_YT_I - 1 from rfl] at there
  have old : oldest = h.ref.getD 31 0 := Option.some.inj (got.symm.trans there)
  have slid := windowSum_slide (f := fifth) (k := 31) (l := h.ref) (x := iref) rfl
  have small : ∀ v ∈ iref :: h.ref, |v| ≤ 32 * 1024 := fun v member =>
    abs_short (cons_short fits rung.refs v member)
  have bounds := fifth_sum_bounds small (by decide) 32
  have tilde := rung.yTilde
  have sum_eq : p.yTildeI - cabs oldest >>> DEFAULT_ALPHA_YT_I + cabs iref >>> DEFAULT_ALPHA_ST_I =
      windowSum fifth 32 (iref :: h.ref) := by
    rw [slid, ← tilde, old, cabs_of_isShort fits, cabs_of_isShort (getD_short rung.refs 31)]
    rfl
  dsimp only [meters]
  rw [sum_eq, int32_of_fits (by omega) (by omega)]

theorem pushOut_meters (rung : Holds 128 p.uS h.out) (fits : IsShort u) :
    Keeps (fun q => ∃ uS, Holds 128 uS (u :: h.out) ∧ meters q = { meters p with uS := uS })
      (pushOut p u) := by
  refine keeps_map fun uS added => ?_
  have holds := holds_add rung added
  rw [short_of_isShort fits] at holds
  exact ⟨uS, holds, rfl⟩

theorem pushSig_meters (rung : Holds 32 p.sS h.sig) (rung' : Holds n p.yTildeS (h.tilde.map short))
    (sTilde : p.sTildeI = windowSum (|·|) 32 h.sig) (sigs : ∀ v ∈ h.sig, IsShort v)
    (fits : IsShort sig) :
    Keeps (fun q => ∃ sS yTildeS, Holds 32 sS (sig :: h.sig) ∧
      Holds n yTildeS ((p.yTildeI :: h.tilde).map short) ∧
      meters q = { meters p with
        sTildeI := windowSum (|·|) 32 (sig :: h.sig)
        sS := sS
        yTildeS := yTildeS }) (pushSig p sig) := by
  refine keeps_bind fun oldest got => keeps_bind fun sS added => keeps_map fun yTildeS added' => ?_
  have holds := holds_add rung added
  rw [short_of_isShort fits] at holds
  refine ⟨sS, yTildeS, holds, holds_add rung' added', ?_⟩
  have there := holds_get rung (k := 31) (by decide)
  rw [show ((31 : Nat) : Int) = 2 ^ DEFAULT_ALPHA_ST_I - 1 from rfl] at there
  have old : oldest = h.sig.getD 31 0 := Option.some.inj (got.symm.trans there)
  have slid := windowSum_slide (f := (|·|)) (k := 31) (l := h.sig) (x := sig) rfl
  have bounds := abs_sum_bounds (cons_short fits sigs) 32
  have sum_eq : p.sTildeI - cabs oldest + cabs sig = windowSum (|·|) 32 (sig :: h.sig) := by
    rw [slid, ← sTilde, old, cabs_of_isShort fits, cabs_of_isShort (getD_short sigs 31)]
  dsimp only [meters]
  rw [sum_eq, int32_of_fits (by omega) (by omega)]

/-- After the pushes the rings hold the new sample too; the power estimates and the peak
    are still those of the sample before. -/
def Fronted (n : Nat) (h : History) (iref : Int) (m : Meters) (r : Pvt × Int × Int) : Prop :=
  IsShort r.2.1 ∧ IsShort r.2.2 ∧
    Rung n (h.push iref r.2.1 r.2.2 r.1.yTildeI) (meters r.1) ∧
    meters r.1 = { meters r.1 with
      lyI := m.lyI
      luI := m.luI
      maxYTilde := m.maxYTilde
      maxYTildePos := m.maxYTildePos }

/-- The pushes of u and of isig, in this order, after the one of iref. -/
theorem pushes_fronted {q₁ q₂ q₃ q₄ : Pvt} (rung : Rung n h m) (fits : IsShort iref)
    (fits' : IsShort sig) (fits'' : IsShort u) {yS : Cb} (holds : Holds (maxyOf n) yS (iref :: h.ref))
    (first : meters q₁ = { m with yTildeI := windowSum fifth 32 (iref :: h.ref), yS := yS })
    (second : pushOut q₁ u = some q₂) (between : meters q₃ = meters q₂)
    (third : pushSig q₃ sig = some q₄) : Fronted n h iref m (q₄, sig, u) := by
  obtain ⟨uS, holdsU, same₂⟩ := pushOut_meters (p := q₁) (h := h) (by
    have : q₁.uS = m.uS := congrArg Meters.uS first
    rw [this]
    exact rung.uS) fits'' q₂ second
  have same₃ := between.trans same₂
  rw [first] at same₃
  obtain ⟨sS, yTildeS, holdsS, holdsY, same₄⟩ := pushSig_meters (p := q₃) (h := h) (n := n) (by
      have : q₃.sS = m.sS := congrArg Meters.sS same₃
      rw [this]
      exact rung.sS) (by
      have : q₃.yTildeS = m.yTildeS := congrArg Meters.yTildeS same₃
      rw [this]
      exact rung.yTildeS) (by
      have : q₃.sTildeI = m.sTildeI := congrArg Meters.sTildeI same₃
      rw [this]
      exact rung.sTilde) rung.sigs fits' q₄ third
  have tilde : q₃.yTildeI = windowSum fifth 32 (iref :: h.ref) := congrArg Meters.yTildeI same₃
  rw [same₃] at same₄
  have tilde₄ : q₄.yTildeI = windowSum fifth 32 (iref :: h.ref) := congrArg Meters.yTildeI same₄
  rw [tilde, ← tilde₄] at holdsY
  refine ⟨fits', fits'', ?_, ?_⟩
  · dsimp only
    rw [same₄]
    exact {
      taps := rung.taps
      yS := holds
      sS := holdsS
      uS := holdsU
      yTildeS := holdsY
      refs := cons_short fits rung.refs
      sigs := cons_short fits' rung.sigs
      outs := cons_short fits'' rung.outs
      sTilde := rfl
      yTilde := rfl }
  · dsimp only
    rw [same₄]

theorem front_fronted (kind : Kind) (rung : Rung n h (meters p)) (fits : IsShort iref)
    (fits' : IsShort isig) : Keeps (Fronted n h iref (meters p)) (front kind p iref isig) := by
  cases kind with
  | kb1 =>
    refine keeps_bind fun (q₁, rs) pushed => keeps_bind fun q₂ pushed' => keeps_map fun q₄ pushed'' => ?_
    obtain ⟨yS, holds, first⟩ := pushRef_meters rung fits _ pushed
    exact pushes_fronted rung fits fits' (short_isShort _) holds first pushed' rfl pushed''
  | mg2 =>
    have removed : Rung n h (meters (dcRemoval p isig).1) := rung
    have fits' : IsShort (dcRemoval p isig).2 := short_isShort _
    refine keeps_bind fun (q₀, rs) pushed => keeps_bind fun (q₁, u) given =>
      keeps_bind fun q₂ pushed' => keeps_bind fun q₃ backed => keeps_map fun q₄ pushed'' => ?_
    obtain ⟨yS, holds, first⟩ := pushRef_meters removed fits _ pushed
    obtain ⟨same, fits''⟩ := output_meters first fits' rs _ given
    exact pushes_fronted rung fits fits' fits'' holds same pushed' (backup_meters rfl _ backed) pushed''

theorem powers_meters {q : Pvt} (rung : Rung n (h.push iref sig u q.yTildeI) (meters q))
    (powered : Powered h (meters q)) :
    Keeps (fun r : Pvt => ∃ lu ly, meters r = { meters q with luI := lu, lyI := ly } ∧
      Powered (h.push iref sig u q.yTildeI) (meters r)) (powers q iref u) := by
  refine keeps_bind fun oldU got => keeps_map fun oldY got' => ?_
  have room := maxy_room n
  have cutoff : DEFAULT_CUTOFF_I = 128 := rfl
  have thereU := holds_get rung.uS (k := 127) (by decide)
  rw [show ((127 : Nat) : Int) = 2 ^ DEFAULT_SIGMA_LU_I - 1 from rfl] at thereU
  have oldU_eq : oldU = (u :: h.out).getD 127 0 := Option.some.inj (got.symm.trans thereU)
  have thereY := holds_get rung.yS (k := 127) (by omega)
  rw [show ((127 : Nat) : Int) = 2 ^ DEFAULT_SIGMA_LY_I - 1 from rfl] at thereY
  have oldY_eq : oldY = (iref :: h.ref).getD 127 0 := Option.some.inj (got'.symm.trans thereY)
  refine ⟨_, _, rfl, ?_, ?_⟩
  · have bounds : 0 ≤ windowSum (|·|) 127 (u :: h.out) ∧
        windowSum (|·|) 127 (u :: h.out) ≤ (127 : Nat) * 32768 := abs_sum_bounds rung.outs 127
    have slid : windowSum (|·|) 127 (u :: h.out) =
        windowSum (|·|) 127 h.out - |h.out.getD 126 0| + |u| := windowSum_slide rfl
    have fits : IsShort ((u :: h.out).getD 127 0) := getD_short rung.outs 127
    have fits' : IsShort u := rung.outs u List.mem_cons_self
    have before : q.luI = DEFAULT_CUTOFF_I + windowSum (|·|) 127 h.out := powered.lu
    change int32 (q.luI - cabs oldU + cabs u) = DEFAULT_CUTOFF_I + windowSum (|·|) 127 (u :: h.out)
    rw [oldU_eq, cabs_of_isShort fits, cabs_of_isShort fits', List.getD_cons_succ, before,
      int32_of_fits (by omega) (by omega)]
    omega
  · have bounds : 0 ≤ windowSum (|·|) 127 (iref :: h.ref) ∧
        windowSum (|·|) 127 (iref :: h.ref) ≤ (127 : Nat) * 32768 := abs_sum_bounds rung.refs 127
    have slid : windowSum (|·|) 127 (iref :: h.ref) =
        windowSum (|·|) 127 h.ref - |h.ref.getD 126 0| + |iref| := windowSum_slide rfl
    have fits : IsShort ((iref :: h.ref).getD 127 0) := getD_short rung.refs 127
    have fits' : IsShort iref := rung.refs iref List.mem_cons_self
    have before : q.lyI = DEFAULT_CUTOFF_I + windowSum (|·|) 127 h.ref := powered.ly
    change max (int32 (q.lyI - cabs oldY + cabs iref)) DEFAULT_CUTOFF_I =
      DEFAULT_CUTOFF_I + windowSum (|·|) 127 (iref :: h.ref)
    rw [oldY_eq, cabs_of_isShort fits, cabs_of_isShort fits', List.getD_cons_succ, before,
      int32_of_fits (by omega) (by omega)]
    omega

theorem peak_meters : Keeps (fun q => ∃ maxY life, meters q = { meters p with
      maxYTilde := maxY
      maxYTildePos := life }) (peak p) := by
  refine keeps_branch (fun _ => keeps_value ⟨_, _, rfl⟩) fun _ =>
    keeps_branch (fun _ => keeps_map fun best _ => ⟨_, _, rfl⟩) fun _ => keeps_value ⟨_, _, rfl⟩

/-- Behind the peak detector nothing more is measured. -/
theorem rear_meters (kind : Kind) {q : Pvt} : Keeps (fun r => ∃ p₁ p₂, powers q iref u = some p₁ ∧
      peak p₁ = some p₂ ∧ meters r = meters p₂) (rear kind q iref u) := by
  refine keeps_bind fun p₁ powers_ => keeps_bind fun p₂ peak_ => ?_
  intro r found
  refine ⟨p₁, p₂, powers_, peak_, ?_⟩
  cases kind with
  | kb1 =>
    have counted : meters (if nearEnd p₂ = true then { p₂ with hcntrD := DEFAULT_HANGT }
        else countDown p₂) = meters p₂ := by
      rw [countDown]
      split
      · rfl
      · split <;> rfl
    exact keeps_branch (P := fun r => meters r = meters p₂)
      (fun _ => kb1Update_meters counted _) (fun _ => keeps_value counted) r found
  | mg2 =>
    have counted : meters (countDown p₂) = meters p₂ := by
      rw [countDown]
      split <;> rfl
    have hung : meters { p₂ with hcntrD := DEFAULT_HANGT } = meters p₂ := rfl
    obtain ⟨p₃, spoken, updated⟩ := Option.bind_eq_some_iff.mp found
    have same : meters p₃ = meters p₂ :=
      keeps_branch (P := fun r => meters r = meters p₂) (fun _ => restore_meters hung)
        (fun _ => keeps_value counted) p₃ spoken
    exact keeps_branch (P := fun r => meters r = meters p₂)
      (fun _ => mg2Update_meters same _) (fun _ => keeps_value same) r updated

/-- The rings and the sums of a canceller with this history. -/
structure Gauged (n : Nat) (h : History) (m : Meters) : Prop where
  rung : Rung n h m
  powered : Powered h m

theorem gauged_init {n : Nat} (positive : 0 < n) (aggressive : Bool) :
    Gauged n ⟨[], [], [], []⟩ (meters (initCc n aggressive)) := by
  have room := maxy_room n
  refine ⟨⟨rfl, holds_init (by omega), holds_init (by decide), holds_init (by decide),
    holds_init positive, ?_, ?_, ?_, rfl, rfl⟩, rfl, rfl⟩ <;>
  · intro v member
    cases member

/-- A sample whose arguments are shorts. -/
def ShortArgs : Op → Prop
  | .sample iref isig => IsShort iref ∧ IsShort isig
  | .train _ _ => True

/-- A sample from the state after the pushes to the state that it leaves. -/
theorem rear_gauged {r q : Pvt} {kind : Kind} (gauged : Gauged n h m)
    (fronted : Fronted n h iref m (q, sig, u)) (found : rear kind q iref u = some r) :
    Gauged n (h.push iref sig u r.yTildeI) (meters r) := by
  obtain ⟨_, _, rung, same⟩ := fronted
  dsimp only at rung same
  have powered : Powered h (meters q) := by
    rw [same]
    exact ⟨gauged.powered.lu, gauged.powered.ly⟩
  obtain ⟨p₁, p₂, powers_, peak_, same₂⟩ := rear_meters kind r found
  obtain ⟨lu, ly, same₁, powered₁⟩ := powers_meters rung powered p₁ powers_
  obtain ⟨maxY, life, same'⟩ := peak_meters p₂ peak_
  have tilde : r.yTildeI = q.yTildeI := by
    change (meters r).yTildeI = (meters q).yTildeI
    rw [same₂, same', same₁]
  rw [tilde, same₂, same']
  refine ⟨?_, powered₁.lu, powered₁.ly⟩
  rw [same₁]
  exact {
    taps := rung.taps
    yS := rung.yS
    sS := rung.sS
    uS := rung.uS
    yTildeS := rung.yTildeS
    refs := rung.refs
    sigs := rung.sigs
    outs := rung.outs
    sTilde := rung.sTilde
    yTilde := rung.yTilde }

/-- The parts of a recorded sample. -/
theorem record_sample {kind : Kind} {s s' : Pvt × History}
    (found : record kind s (.sample iref isig) = some s') :
    ∃ q sig u r, front kind s.1 iref isig = some (q, sig, u) ∧ rear kind q iref u = some r ∧
      s' = ((suppress r u).2, s.2.push iref sig u r.yTildeI) := by
  obtain ⟨⟨q, sig, u⟩, begun, later⟩ := Option.bind_eq_some_iff.mp found
  obtain ⟨p, applied, rfl⟩ := Option.map_eq_some_iff.mp later
  rw [sample_parts, begun, Option.bind_some] at applied
  obtain ⟨r, ended, rfl⟩ := Option.map_eq_some_iff.mp applied
  exact ⟨q, sig, u, r, begun, ended, rfl⟩

theorem record_gauged (kind : Kind) {s : Pvt × History} (gauged : Gauged n s.2 (meters s.1))
    {op : Op} (args : ShortArgs op) :
    Keeps (fun s' : Pvt × History => Gauged n s'.2 (meters s'.1)) (record kind s op) := by
  intro s' found
  cases op with
  | train pos val =>
    obtain ⟨p, applied, rfl⟩ := Option.map_eq_some_iff.mp found
    dsimp only
    rw [traintap_meters kind rfl pos val p applied]
    exact gauged
  | sample iref isig =>
    obtain ⟨q, sig, u, r, begun, ended, rfl⟩ := record_sample found
    exact rear_gauged gauged (front_fronted kind gauged.rung args.1 args.2 _ begun) ended

theorem recorded_gauged (kind : Kind) {n : Nat} (positive : 0 < n) (aggressive : Bool)
    {ops : List Op} (args : ∀ op ∈ ops, ShortArgs op) :
    Keeps (fun s : Pvt × History => Gauged n s.2 (meters s.1)) (recorded kind n aggressive ops) := by
  rw [recorded]
  have start := gauged_init positive aggressive
  generalize (⟨[], [], [], []⟩ : History) = h at start ⊢
  generalize initCc n aggressive = p at start ⊢
  induction ops generalizing p h with
  | nil => exact keeps_value start
  | cons op ops ih =>
    rw [List.foldlM_cons]
    refine keeps_bind fun s found => ?_
    exact ih (fun op' member => args op' (List.mem_cons_of_mem _ member)) s.2 s.1
      (record_gauged kind start (args op List.mem_cons_self) s found)

/-- A recorded run never stops. -/
theorem recorded_some (kind : Kind) {n : Nat} (positive : 0 < n) (aggressive : Bool)
    (ops : List Op) : ∃ s, recorded kind n aggressive ops = some s := by
  obtain ⟨p, ran, _⟩ := accesses_inside kind positive aggressive ops
  rw [← recorded_run] at ran
  obtain ⟨s, found, _⟩ := Option.map_eq_some_iff.mp ran
  exact ⟨s, found⟩

end Sums

section Exact
variable {n : Nat} {h : History}

/-- The averages and the power estimates are the sums over their windows. -/
structure WindowSums (h : History) (p : Pvt) : Prop where
  sTilde : p.sTildeI = windowSum (|·|) (2 ^ DEFAULT_ALPHA_ST_I) h.sig
  yTilde : p.yTildeI = windowSum fifth (2 ^ DEFAULT_ALPHA_YT_I) h.ref
  lu : p.luI - DEFAULT_CUTOFF_I = windowSum (|·|) (2 ^ DEFAULT_SIGMA_LU_I) h.out
  ly : p.lyI - DEFAULT_CUTOFF_I = windowSum (|·|) (2 ^ DEFAULT_SIGMA_LY_I) h.ref

/-- The values of u and of the reference 127 samples before the last. -/
def oldest (l : List Int) : Int := l.getD (2 ^ DEFAULT_SIGMA_LU_I - 1) 0

theorem window_misses (l : List Int) :
    windowSum (|·|) 128 l = windowSum (|·|) 127 l + |oldest l| := windowSum_succ rfl

theorem sums_exact {p : Pvt} (gauged : Gauged n h (meters p)) :
    WindowSums h p ↔ oldest h.out = 0 ∧ oldest h.ref = 0 := by
  have lu : p.luI = DEFAULT_CUTOFF_I + windowSum (|·|) 127 h.out := gauged.powered.lu
  have ly : p.lyI = DEFAULT_CUTOFF_I + windowSum (|·|) 127 h.ref := gauged.powered.ly
  have missedOut := window_misses h.out
  have missedRef := window_misses h.ref
  constructor
  · intro sums
    have luSum : p.luI - DEFAULT_CUTOFF_I = windowSum (|·|) 128 h.out := sums.lu
    have lySum : p.lyI - DEFAULT_CUTOFF_I = windowSum (|·|) 128 h.ref := sums.ly
    exact ⟨abs_eq_zero.mp (by omega), abs_eq_zero.mp (by omega)⟩
  · rintro ⟨out, ref⟩
    rw [out, abs_zero] at missedOut
    rw [ref, abs_zero] at missedRef
    refine ⟨gauged.rung.sTilde, gauged.rung.yTilde, ?_, ?_⟩
    · change p.luI - DEFAULT_CUTOFF_I = windowSum (|·|) 128 h.out
      omega
    · change p.lyI - DEFAULT_CUTOFF_I = windowSum (|·|) 128 h.ref
      omega

/-- The reference samples of these operations. -/
def refOf : Op → Option Int
  | .sample iref _ => some iref
  | .train _ _ => none

/-- The history of the reference is what the canceller was given. -/
theorem recorded_ref (kind : Kind) (n : Nat) (aggressive : Bool) (ops : List Op) :
    Keeps (fun s : Pvt × History => s.2.ref = (ops.filterMap refOf).reverse)
      (recorded kind n aggressive ops) := by
  have step : ∀ (ops : List Op) (p : Pvt) (h : History),
      Keeps (fun s : Pvt × History => s.2.ref = (ops.filterMap refOf).reverse ++ h.ref)
        (ops.foldlM (record kind) (p, h)) := by
    intro ops
    induction ops with
    | nil =>
      intro p h
      exact keeps_value rfl
    | cons op ops ih =>
      intro p h
      rw [List.foldlM_cons]
      refine keeps_bind fun s found s' found' => ?_
      rw [ih s.1 s.2 s' found']
      cases op with
      | train pos val =>
        obtain ⟨p', _, rfl⟩ := Option.map_eq_some_iff.mp found
        rfl
      | sample iref isig =>
        obtain ⟨q, sig, u, r, _, _, rfl⟩ := record_sample found
        rw [List.filterMap_cons_some (f := refOf) (b := iref) rfl, List.reverse_cons,
          List.append_assoc]
        rfl
  intro s found
  have same := step ops (initCc n aggressive) ⟨[], [], [], []⟩ s found
  rw [List.append_nil] at same
  exact same

/-- After every sequence of samples the averages are exact, and the power estimates are
    the sums over their windows exactly when the samples 127 before the last are zero. -/
theorem power_windows (kind : Kind) {n : Nat} (positive : 0 < n) (aggressive : Bool)
    {ops : List Op} (args : ∀ op ∈ ops, ShortArgs op) :
    ∃ p h, recorded kind n aggressive ops = some (p, h) ∧
      p.sTildeI = windowSum (|·|) (2 ^ DEFAULT_ALPHA_ST_I) h.sig ∧
      p.yTildeI = windowSum fifth (2 ^ DEFAULT_ALPHA_YT_I) h.ref ∧
      (WindowSums h p ↔ oldest h.out = 0 ∧ oldest h.ref = 0) := by
  obtain ⟨⟨p, h⟩, found⟩ := recorded_some kind positive aggressive ops
  have gauged : Gauged n h (meters p) := recorded_gauged kind positive aggressive args _ found
  exact ⟨p, h, found, gauged.rung.sTilde, gauged.rung.yTilde, sums_exact gauged⟩

def tone : List Op := List.replicate 128 (.sample 1 1)

theorem tone_shorts : ∀ op ∈ tone, ShortArgs op := by
  intro op member
  rw [List.eq_of_mem_replicate member]
  exact ⟨by decide, by decide⟩

theorem power_windows_tone :
    ∃ p h, recorded .mg2 128 true tone = some (p, h) ∧
      p.sTildeI = windowSum (|·|) (2 ^ DEFAULT_ALPHA_ST_I) h.sig ∧
      p.yTildeI = windowSum fifth (2 ^ DEFAULT_ALPHA_YT_I) h.ref ∧
      (WindowSums h p ↔ oldest h.out = 0 ∧ oldest h.ref = 0) :=
  power_windows .mg2 (by decide) true tone_shorts

/-- After 128 equal samples the first of them is missing in the power of the reference. -/
theorem power_window_short :
    ¬ ∃ p h, recorded .kb1 128 false tone = some (p, h) ∧ WindowSums h p := by
  rintro ⟨p, h, found, sums⟩
  have gauged : Gauged 128 h (meters p) :=
    recorded_gauged .kb1 (by decide) false tone_shorts _ found
  have ref := recorded_ref .kb1 128 false tone _ found
  have zero := ((sums_exact gauged).mp sums).2
  dsimp only at ref
  rw [ref] at zero
  exact absurd zero (by decide +kernel)

end Exact

end EchocanWindows
