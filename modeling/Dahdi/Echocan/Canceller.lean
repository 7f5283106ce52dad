import Mathlib

/-!
The workspace of a software echo canceller: arrays of which no element outside is
read or written, circular buffers stored twice, and the loops of arith.h.
-/
namespace Echocan

/-- An array of the workspace. -/
structure Arr where
  len : Nat
  elem : Nat → Int

def Arr.get (a : Arr) (i : Int) : Option Int :=
  if 0 ≤ i ∧ i < a.len then some (a.elem i.toNat) else none

def Arr.set (a : Arr) (i value : Int) : Option Arr :=
  if 0 ≤ i ∧ i < a.len then some { a with elem := Function.update a.elem i.toNat value } else none

def zeros (len : Nat) : Arr := ⟨len, fun _ => 0⟩

/-- short and int values. -/
def short (v : Int) : Int := Int.bmod v (2 ^ 16)
def int32 (v : Int) : Int := Int.bmod v (2 ^ 32)

/-- echo_can_cb_s -/
structure Cb where
  idx : Int
  size : Int
  buf : Arr

/-- init_cb_s: the layout gives the buffer twice its length. -/
def initCb (len : Nat) : Cb := ⟨0, len, zeros (2 * len)⟩

/-- add_cc_s -/
def addCc (cb : Cb) (newval : Int) : Option Cb :=
  let idx := cb.idx - 1
  let idx := if idx < 0 then idx + cb.size else idx
  (cb.buf.set idx (short newval)).bind fun buf =>
    (buf.set (idx + cb.size) (short newval)).map fun buf => { cb with idx := idx, buf := buf }

/-- get_cc_s -/
def getCc (cb : Cb) (pos : Int) : Option Int := cb.buf.get (cb.idx + pos)

/-- CONVOLVE2 over two arrays, each from some element on. -/
def convolve2 (coeffs : Arr) (c : Int) (hist : Arr) (h : Int) (len : Nat) : Option Int :=
  (List.range len).foldlM (fun sum (x : Nat) =>
    (coeffs.get (c + x)).bind fun coeff => (hist.get (h + x)).map fun sample =>
      int32 (sum + coeff * sample)) 0

/-- MAX16: the maximum, and how many elements stand behind it. -/
def max16 (y : Arr) (offset : Int) (len : Nat) : Option (Int × Int) :=
  ((List.range len).foldlM (fun (best : Int × Int) (k : Nat) =>
    (y.get (offset + k)).map fun sample => if best.1 < sample then (sample, (k : Int)) else best)
    (0, 0)).map fun best => (best.1, (len : Int) - 1 - best.2)

/-- memcpy of the first n elements. -/
def copyArr (dest src : Arr) (n : Nat) : Option Arr :=
  (List.range n).foldlM (fun (dest : Arr) (k : Nat) =>
    (src.get k).bind fun value => dest.set k value) dest

section Bounds

theorem get_inside {a : Arr} {i : Int} (low : 0 ≤ i) (high : i < a.len) : ∃ v, a.get i = some v :=
  ⟨_, if_pos ⟨low, high⟩⟩

theorem set_inside {a : Arr} {i : Int} (low : 0 ≤ i) (high : i < a.len) (value : Int) :
    ∃ a', a.set i value = some a' ∧ a'.len = a.len :=
  ⟨_, if_pos ⟨low, high⟩, rfl⟩

/-- A loop none of whose rounds fails keeps what each round keeps. -/
theorem loop_runs {α σ : Type} {f : σ → α → Option σ} (Inv : σ → Prop) {l : List α}
    (step : ∀ s x, x ∈ l → Inv s → ∃ s', f s x = some s' ∧ Inv s') {s : σ} (holds : Inv s) :
    ∃ s', l.foldlM f s = some s' ∧ Inv s' := by
  induction l generalizing s with
  | nil => exact ⟨s, rfl, holds⟩
  | cons x l ih =>
    obtain ⟨s', first, kept⟩ := step s x List.mem_cons_self holds
    obtain ⟨last, rest, kept'⟩ := ih (fun s y member => step s y (List.mem_cons_of_mem _ member)) kept
    refine ⟨last, ?_, kept'⟩
    rw [List.foldlM_cons, first]
    exact rest

theorem convolve2_inside {coeffs hist : Arr} {c h : Int} {len : Nat} (low : 0 ≤ c)
    (high : c + len ≤ coeffs.len) (low' : 0 ≤ h) (high' : h + len ≤ hist.len) :
    ∃ sum, convolve2 coeffs c hist h len = some sum := by
  obtain ⟨sum, run, _⟩ := @loop_runs _ _ (fun sum (x : Nat) =>
    (coeffs.get (c + x)).bind fun coeff => (hist.get (h + x)).map fun sample =>
      int32 (sum + coeff * sample)) (fun _ => True) (List.range len) (by
    intro s x member _
    have inside := List.mem_range.mp member
    obtain ⟨coeff, first⟩ := @get_inside coeffs (c + x) (by omega) (by omega)
    obtain ⟨sample, second⟩ := @get_inside hist (h + x) (by omega) (by omega)
    exact ⟨_, by rw [first, Option.bind_some, second, Option.map_some], trivial⟩) 0 trivial
  exact ⟨sum, run⟩

theorem max16_inside {y : Arr} {offset : Int} {len : Nat} (low : 0 ≤ offset)
    (high : offset + len ≤ y.len) : ∃ best, max16 y offset len = some best := by
  obtain ⟨best, run, _⟩ := @loop_runs _ _ (fun (best : Int × Int) (k : Nat) =>
    (y.get (offset + k)).map fun sample => if best.1 < sample then (sample, (k : Int)) else best)
    (fun _ => True) (List.range len) (by
    intro s x member _
    have inside := List.mem_range.mp member
    obtain ⟨sample, first⟩ := @get_inside y (offset + x) (by omega) (by omega)
    exact ⟨_, by rw [first, Option.map_some], trivial⟩) (0, 0) trivial
  exact ⟨_, by rw [max16, run, Option.map_some]⟩

theorem copy_inside {dest src : Arr} {n : Nat} (room : n ≤ dest.len) (enough : n ≤ src.len) :
    ∃ dest', copyArr dest src n = some dest' ∧ dest'.len = dest.len := by
  apply loop_runs fun a : Arr => a.len = dest.len
  · intro a k member same
    have inside := List.mem_range.mp member
    obtain ⟨value, first⟩ := @get_inside src k (by omega) (by omega)
    obtain ⟨a', second, len⟩ := @set_inside a k (by omega) (by omega) value
    exact ⟨a', by rw [first, Option.bind_some, second], len.trans same⟩
  · rfl

/-- A circular buffer of this size, stored twice. -/
structure Doubled (size : Nat) (cb : Cb) : Prop where
  whole : cb.size = size
  len : cb.buf.len = 2 * size
  low : 0 ≤ cb.idx
  high : cb.idx < size

theorem doubled_init {size : Nat} (positive : 0 < size) : Doubled size (initCb size) :=
  ⟨rfl, rfl, Int.le_refl 0, by simp only [initCb]; omega⟩

theorem doubled_add {size : Nat} {cb : Cb} (doubled : Doubled size cb) (newval : Int) :
    ∃ cb', addCc cb newval = some cb' ∧ Doubled size cb' := by
  obtain ⟨same, len, low, high⟩ := doubled
  generalize moved : (if cb.idx - 1 < 0 then cb.idx - 1 + cb.size else cb.idx - 1) = idx
  have range : 0 ≤ idx ∧ idx < size := by
    rw [← moved]
    split <;> omega
  obtain ⟨buf, first, len'⟩ := @set_inside cb.buf idx (by omega) (by omega) (short newval)
  obtain ⟨buf', second, len''⟩ := @set_inside buf (idx + cb.size) (by omega) (by omega) (short newval)
  have added : addCc cb newval = some { cb with idx := idx, buf := buf' } := by
    simp only [addCc, moved, first, Option.bind_some, second, Option.map_some]
  have both : buf'.len = 2 * size := by omega
  exact ⟨_, added, same, both, range.1, range.2⟩

theorem doubled_get {size : Nat} {cb : Cb} (doubled : Doubled size cb) {pos : Int} (low : 0 ≤ pos)
    (high : pos ≤ size) : ∃ v, getCc cb pos = some v := by
  obtain ⟨_, len, low', high'⟩ := doubled
  exact get_inside (by omega) (by omega)

end Bounds

end Echocan

/-!
The KB1 and MG2 echo cancellers: the block echo_can_create allocates, the arrays
init_cc lays out in it, sample_update and echo_can_traintap.
-/
namespace Echocan

def DEFAULT_BETA1_I : Int := 2048
def DEFAULT_SIGMA_LY_I : Nat := 7
def DEFAULT_SIGMA_LU_I : Nat := 7
def DEFAULT_ALPHA_ST_I : Nat := 5
def DEFAULT_ALPHA_YT_I : Nat := 5
def DEFAULT_CUTOFF_I : Int := 128
def DEFAULT_HANGT : Int := 600
def DEFAULT_SUPPR_I : Int := 16
def DEFAULT_M : Nat := 16
def AGGRESSIVE_HCNTR : Int := 160
def MAX_SIGN_ERROR : Int := 3000
def USED_COEFFS : Nat := 64
def BACKUP : Int := 256

inductive Kind where
  | kb1
  | mg2
  deriving DecidableEq, Repr

/-- MIN_UPDATE_THRESH_I -/
def minUpdateThresh : Kind → Int
  | .kb1 => 4096
  | .mg2 => 2048

section Layout

/-- Pointers and longs of 32 or of 64 bits; int has 32 and short 16. -/
inductive Abi where
  | ilp32
  | lp64
  deriving DecidableEq, Repr

def Abi.ptr : Abi → Nat
  | .ilp32 => 4
  | .lp64 => 8

def alignUp (to_ x : Nat) : Nat := (x + to_ - 1) / to_ * to_

/-- sizeof a struct with members of these sizes and alignments. -/
def structSize (members : List (Nat × Nat)) : Nat :=
  alignUp (members.foldl (fun most member => max most member.2) 1)
    (members.foldl (fun offset member => alignUp member.2 offset + member.1) 0)

def ints (n : Nat) : List (Nat × Nat) := List.replicate n (4, 4)

/-- echo_can_disable_detector_state_t: a biquad2_state_t and six ints. -/
def detectorSize : Nat := structSize ((structSize (ints 7), 4) :: ints 6)

/-- struct dahdi_echocan_state: ops, two detectors, features, status and events. -/
def stateSize (abi : Abi) : Nat :=
  structSize [(abi.ptr, abi.ptr), (detectorSize, 4), (detectorSize, 4), (4, 4),
    (structSize (ints 3), 4), (4, 4)]

def cbSize (abi : Abi) : Nat := structSize (ints 2 ++ [(abi.ptr, abi.ptr)])

/-- struct ec_pvt: the bit field takes the byte it begins in. -/
def pvtSize (kind : Kind) (abi : Abi) : Nat :=
  let pointer := (abi.ptr, abi.ptr)
  let cb := (cbSize abi, abi.ptr)
  match kind with
  | .kb1 => structSize ((stateSize abi, abi.ptr) :: ints 9 ++ [pointer, pointer] ++
      [cb, cb, cb, cb] ++ [(2, 2), (4, 4), (1, 1), (4, 4)])
  | .mg2 => structSize ((stateSize abi, abi.ptr) :: ints 9 ++ [pointer, pointer, pointer, pointer] ++
      [cb, cb, cb, cb] ++ [(2, 2), (4, 4), (1, 1), (2, 2)] ++ ints 4)

def maxyOf (tapLength : Nat) : Nat :=
  max (max (tapLength + DEFAULT_M) (2 ^ DEFAULT_ALPHA_YT_I)) (2 ^ DEFAULT_SIGMA_LY_I)

def maxuOf : Nat := max DEFAULT_M (2 ^ DEFAULT_SIGMA_LU_I)

/-- The bytes of the arrays, in the order of init_cc. -/
def arrayBytes (kind : Kind) (tapLength : Nat) : List Nat :=
  [4 * tapLength, 2 * tapLength] ++
    (match kind with
      | .kb1 => []
      | .mg2 => [4 * tapLength, 4 * tapLength]) ++
    [2 * maxyOf tapLength * 2, 2 * 2 ^ DEFAULT_ALPHA_ST_I * 2, 2 * maxuOf * 2, 2 * tapLength * 2]

/-- What echo_can_create asks kzalloc for: where sizeof(*pvt) is meant KB1 has
    sizeof(*ec), a pointer, and MG2 sizeof(**ec), the state of the core. -/
def createSize (kind : Kind) (abi : Abi) (tapLength : Nat) : Nat :=
  let header :=
    match kind with
    | .kb1 => abi.ptr
    | .mg2 => stateSize abi
  header + 4 + (arrayBytes kind tapLength).sum

/-- Some bytes of memory. -/
structure Region where
  start : Nat
  bytes : Nat
  deriving DecidableEq, Repr

def Region.stop (r : Region) : Nat := r.start + r.bytes

/-- Arrays one behind the other. -/
def regions : Nat → List Nat → List Region
  | _, [] => []
  | ptr, bytes :: rest => ⟨ptr, bytes⟩ :: regions (ptr + bytes) rest

/-- init_cc, for a private state at this address. -/
def initCcRegions (kind : Kind) (abi : Abi) (pvt tapLength : Nat) : List Region :=
  regions ((pvt + pvtSize kind abi + 3) / 4 * 4) (arrayBytes kind tapLength)

end Layout

/-- struct ec_pvt. b_i and c_i, and all from lastsig on, are MG2's. -/
structure Pvt where
  nD : Nat
  iD : Int
  lyI : Int
  luI : Int
  sTildeI : Int
  yTildeI : Int
  hcntrD : Int
  aI : Arr
  aS : Arr
  bI : Arr
  cI : Arr
  yS : Cb
  sS : Cb
  uS : Cb
  yTildeS : Cb
  maxYTilde : Int
  maxYTildePos : Int
  aggressive : Bool
  useNlp : Bool
  lastsig : Int
  lastcount : Int
  backup : Int
  dcEstimate : Int

/-- init_cc on zeroed memory. -/
def initCc (n : Nat) (aggressive : Bool) : Pvt where
  nD := n
  iD := 0
  lyI := DEFAULT_CUTOFF_I
  luI := DEFAULT_CUTOFF_I
  sTildeI := 0
  yTildeI := 0
  hcntrD := 0
  aI := zeros n
  aS := zeros n
  bI := zeros n
  cI := zeros n
  yS := initCb (maxyOf n)
  sS := initCb (2 ^ DEFAULT_ALPHA_ST_I)
  uS := initCb maxuOf
  yTildeS := initCb n
  maxYTilde := 0
  maxYTildePos := 0
  aggressive := aggressive
  useNlp := true
  lastsig := 0
  lastcount := 0
  backup := 0
  dcEstimate := 0

/-- abs of an int. -/
def cabs (v : Int) : Int := int32 |v|

section Update

/-- "Update the Far-end receive signal circular buffers", and rs. -/
def pushRef (p : Pvt) (iref : Int) : Option (Pvt × Int) :=
  (getCc p.yS (2 ^ DEFAULT_ALPHA_YT_I - 1)).bind fun oldest =>
  (addCc p.yS iref).bind fun yS =>
  (convolve2 p.aS 0 yS.buf yS.idx p.nD).map fun (sum : Int) =>
    ({ p with
        yTildeI := int32 (p.yTildeI - cabs oldest >>> DEFAULT_ALPHA_YT_I + cabs iref >>> DEFAULT_ALPHA_ST_I)
        yS := yS },
      sum >>> 15)

def pushOut (p : Pvt) (u : Int) : Option Pvt :=
  (addCc p.uS u).map fun uS => { p with uS := uS }

/-- "Update the Near-end hybrid signal circular buffers", and the short-time average. -/
def pushSig (p : Pvt) (isig : Int) : Option Pvt :=
  (getCc p.sS (2 ^ DEFAULT_ALPHA_ST_I - 1)).bind fun oldest =>
  (addCc p.sS isig).bind fun sS =>
  (addCc p.yTildeS p.yTildeI).map fun yTildeS =>
    { p with sTildeI := int32 (p.sTildeI - cabs oldest + cabs isig), sS := sS, yTildeS := yTildeS }

def twoBeta (p : Pvt) : Int :=
  let py :=
    if p.hcntrD = 0 then
      int32 ((p.lyI >>> DEFAULT_SIGMA_LY_I) * (p.lyI >>> DEFAULT_SIGMA_LY_I)) >>> 15
    else 2 ^ 15
  let twoBeta := int32 (DEFAULT_BETA1_I * py) >>> 15
  if twoBeta = 0 then 1 else twoBeta

/-- The power estimates of the suppressed signal and of the reference. -/
def powers (p : Pvt) (iref u : Int) : Option Pvt :=
  (getCc p.uS (2 ^ DEFAULT_SIGMA_LU_I - 1)).bind fun oldU =>
  (getCc p.yS (2 ^ DEFAULT_SIGMA_LY_I - 1)).map fun oldY =>
    { p with
      luI := int32 (p.luI - cabs oldU + cabs u)
      lyI := max (int32 (p.lyI - cabs oldY + cabs iref)) DEFAULT_CUTOFF_I }

/-- "Update the Peak far-end receive signal detected". -/
def peak (p : Pvt) : Option Pvt :=
  if p.maxYTilde < p.yTildeI then
    some { p with maxYTilde := short p.yTildeI, maxYTildePos := p.nD - 1 }
  else if p.maxYTildePos - 1 < 0 then
    (max16 p.yTildeS.buf p.yTildeS.idx p.nD).map fun best =>
      { p with maxYTilde := best.1, maxYTildePos := best.2 }
  else some { p with maxYTildePos := p.maxYTildePos - 1 }

/-- Near end speech was detected in this sample. -/
def nearEnd (p : Pvt) : Bool :=
  decide (p.maxYTilde < p.sTildeI >>> (DEFAULT_ALPHA_ST_I - 1)) && decide (0 < p.maxYTilde)

def countDown (p : Pvt) : Pvt := if 0 < p.hcntrD then { p with hcntrD := p.hcntrD - 1 } else p

/-- Whether the coefficients are updated in this sample. -/
def updates (kind : Kind) (p : Pvt) : Bool :=
  decide (p.hcntrD = 0) && decide (p.iD % DEFAULT_M = 0) && decide (minUpdateThresh kind < p.luI)

/-- Coefficient k, from the block of the last DEFAULT_M samples. -/
def updateCoeff (p : Pvt) (twoBetaI : Int) (k : Nat) : Option (Pvt × Int) :=
  (convolve2 p.uS.buf p.uS.idx p.yS.buf (p.yS.idx + k) DEFAULT_M).bind fun grad2 =>
  (p.aI.get k).bind fun a =>
  (p.aI.set k (int32 (a + grad2.tdiv twoBetaI))).bind fun aI =>
  (p.aS.set k (short (int32 (a + grad2.tdiv twoBetaI) >>> 16))).map fun aS =>
    ({ p with aI := aI, aS := aS }, int32 (a + grad2.tdiv twoBetaI))

/-- The residual error suppression, and the sample index. -/
def suppress (p : Pvt) (u : Int) : Int × Pvt :=
  let aggressively (u : Int) : Int :=
    short ((int32 (u * (p.luI >>> DEFAULT_SIGMA_LU_I))).tdiv (p.lyI >>> DEFAULT_SIGMA_LY_I + 1))
  let out :=
    if p.useNlp then
      if p.aggressive then
        if p.hcntrD < AGGRESSIVE_HCNTR ∧ int32 (p.luI * 2) < p.lyI then aggressively (aggressively u)
        else u
      else if p.hcntrD = 0 ∧ DEFAULT_SUPPR_I < p.lyI.tdiv (p.luI + 1) then
        short ((int32 (u * (p.luI >>> DEFAULT_SIGMA_LU_I))).tdiv
          (p.lyI >>> (DEFAULT_SIGMA_LY_I + 2) + 1))
      else u
    else u
  (out, { p with iD := int32 (p.iD + 1) })

end Update

section Kb1

/-- The loop over all the filter coefficients. -/
def kb1UpdateLoop (p : Pvt) (twoBetaI : Int) : Option Pvt :=
  (List.range p.nD).foldlM (fun p k => (updateCoeff p twoBetaI k).map Prod.fst) p

/-- sample_update of dahdi_echocan_kb1.c -/
def kb1SampleUpdate (p : Pvt) (iref isig : Int) : Option (Int × Pvt) :=
  (pushRef p iref).bind fun (p, rs) =>
  let u := short (isig - rs)
  (pushOut p u).bind fun p =>
  (pushSig p isig).bind fun p =>
  let twoBetaI := twoBeta p
  (powers p iref u).bind fun p =>
  (peak p).bind fun p =>
  let p := if nearEnd p then { p with hcntrD := DEFAULT_HANGT } else countDown p
  (if updates .kb1 p then kb1UpdateLoop p twoBetaI else some p).map fun p => suppress p u

/-- echo_can_traintap of dahdi_echocan_kb1.c -/
def kb1Traintap (p : Pvt) (pos : Nat) (val : Int) : Option Pvt :=
  let p := { p with hcntrD := (p.nD : Int) * 2 }
  if p.nD ≤ pos then some p
  else
    (p.aI.set pos (int32 (val * 2 ^ 17))).bind fun aI =>
    (p.aS.set pos (short (val * 2))).map fun aS => { p with aI := aI, aS := aS }

end Kb1

section Mg2

/-- ABS -/
def mg2Abs (a : Int) : Int := |if a = -32768 then -32767 else a|

/-- RESTORE_COEFFS -/
def restoreCoeffs (p : Pvt) : Option Pvt :=
  (copyArr p.aI p.cI p.nD).bind fun aI =>
  ((List.range p.nD).foldlM (fun (aS : Arr) (x : Nat) =>
    (aI.get x).bind fun a => aS.set x (short (a >>> 16))) p.aS).map fun aS =>
      { p with aI := aI, aS := aS, backup := BACKUP }

/-- rs within a short; outside, the coefficients are restored. -/
def saturate (p : Pvt) (rs : Int) : Option (Pvt × Int) :=
  if rs < -32768 then
    (restoreCoeffs { p with hcntrD := DEFAULT_HANGT }).map fun p => (p, -32768)
  else if 32767 < rs then
    (restoreCoeffs { p with hcntrD := DEFAULT_HANGT }).map fun p => (p, 32767)
  else some (p, rs)

/-- The output value of a sample that is not passed through. -/
def cancel (p : Pvt) (isig rs : Int) : Option (Pvt × Int) :=
  (saturate p rs).bind fun (p, rs) =>
  (if MAX_SIGN_ERROR < mg2Abs (mg2Abs rs - mg2Abs isig) then (restoreCoeffs p).map fun p => (p, 0)
    else some (p, rs)).map fun (p, rs) =>
      let u := short (isig - rs)
      (p, if u.tdiv isig < 0 then short (isig - rs >>> 1) else u)

def output (p : Pvt) (isig rs : Int) : Option (Pvt × Int) :=
  let p :=
    if p.lastsig = isig then { p with lastcount := int32 (p.lastcount + 1) }
    else { p with lastcount := 0, lastsig := isig }
  if isig = 0 then some (p, 0)
  else if 255 < p.lastcount then some (p, isig)
  else cancel p isig rs

/-- "Backup coefficients periodically". -/
def backupCoeffs (p : Pvt) : Option Pvt :=
  if p.backup = 0 then
    (copyArr p.cI p.bI p.nD).bind fun cI =>
    (copyArr p.bI p.aI p.nD).map fun bI => { p with cI := cI, bI := bI, backup := BACKUP }
  else some { p with backup := p.backup - 1 }

/-- The while loop that looks for the place of a coefficient. -/
def coeffPlace (maxCoeffs : Arr) (a : Int) : Nat → Nat → Option Nat
  | 0, _ => none
  | rounds + 1, pos =>
    (maxCoeffs.get pos).bind fun here =>
      if a < here then coeffPlace maxCoeffs a rounds (pos + 1) else some pos

/-- "More or less insertion-sort..." -/
def insertCoeff (maxCoeffs : Arr) (a : Int) : Option Arr :=
  (maxCoeffs.get (USED_COEFFS - 1 : Nat)).bind fun least =>
  if least < a then
    (coeffPlace maxCoeffs a USED_COEFFS 0).bind fun pos =>
    (maxCoeffs.get pos).bind fun here =>
    (if least < here then
      (List.range (USED_COEFFS - pos - 1)).foldlM (fun (moved : Arr) (j : Nat) =>
        (maxCoeffs.get (pos + j : Nat)).bind fun value => moved.set (pos + 1 + j : Nat) value) maxCoeffs
      else some maxCoeffs).bind fun maxCoeffs => maxCoeffs.set pos a
  else some maxCoeffs

/-- Coefficient k updated, and kept among the biggest if there are too many. -/
def mg2UpdateCoeff (twoBetaI : Int) (s : Pvt × Arr) (k : Nat) : Option (Pvt × Arr) :=
  (updateCoeff s.1 twoBetaI k).bind fun (p, a) =>
    if USED_COEFFS < p.nD then (insertCoeff s.2 (cabs a)).map fun maxCoeffs => (p, maxCoeffs)
    else some (p, s.2)

/-- "Filter out irrelevant coefficients". -/
def filterCoeff (maxCoeffs : Arr) (p : Pvt) (k : Nat) : Option Pvt :=
  (p.aI.get k).bind fun a =>
  (maxCoeffs.get (USED_COEFFS - 1 : Nat)).bind fun least =>
  if cabs a < least then
    (p.aI.set k 0).bind fun aI => (p.aS.set k 0).map fun aS => { p with aI := aI, aS := aS }
  else some p

def mg2UpdateLoop (p : Pvt) (twoBetaI : Int) : Option Pvt :=
  ((List.range p.nD).foldlM (mg2UpdateCoeff twoBetaI) (p, zeros USED_COEFFS)).bind fun (p, maxCoeffs) =>
    if USED_COEFFS < p.nD then (List.range p.nD).foldlM (filterCoeff maxCoeffs) p else some p

/-- dc_removal -/
def dcRemoval (p : Pvt) (samp : Int) : Pvt × Int :=
  let estimate := int32 (p.dcEstimate + int32 (samp * 2 ^ 15 - p.dcEstimate) >>> 9)
  ({ p with dcEstimate := estimate }, short (samp - estimate >>> 15))

/-- sample_update of dahdi_echocan_mg2.c -/
def mg2SampleUpdate (p : Pvt) (iref isig : Int) : Option (Int × Pvt) :=
  let (p, isig) := dcRemoval p isig
  (pushRef p iref).bind fun (p, rs) =>
  (output p isig rs).bind fun (p, u) =>
  (pushOut p u).bind fun p =>
  (backupCoeffs p).bind fun p =>
  (pushSig p isig).bind fun p =>
  let twoBetaI := twoBeta p
  (powers p iref u).bind fun p =>
  (peak p).bind fun p =>
  (if nearEnd p then restoreCoeffs { p with hcntrD := DEFAULT_HANGT } else some (countDown p)).bind fun p =>
  (if updates .mg2 p then mg2UpdateLoop p twoBetaI else some p).map fun p => suppress p u

/-- echo_can_traintap of dahdi_echocan_mg2.c -/
def mg2Traintap (p : Pvt) (pos : Nat) (val : Int) : Option Pvt :=
  let p := { p with hcntrD := (p.nD : Int) * 2 }
  let backedUp (p : Pvt) : Option Pvt :=
    (copyArr p.bI p.aI p.nD).bind fun bI => (copyArr p.cI p.aI p.nD).map fun cI => { p with bI := bI, cI := cI }
  if p.nD ≤ pos then backedUp p
  else
    (p.aI.set pos (int32 (val * 2 ^ 17))).bind fun aI =>
    (p.aS.set pos (short (val * 2))).bind fun aS =>
    let p := { p with aI := aI, aS := aS }
    if p.nD ≤ pos + 1 then backedUp p else some p

end Mg2

/-- What dahdi does with a canceller. -/
inductive Op where
  | sample (iref isig : Int)
  | train (pos : Nat) (val : Int)

def Op.apply (kind : Kind) (p : Pvt) : Op → Option Pvt
  | .sample iref isig =>
    match kind with
    | .kb1 => (kb1SampleUpdate p iref isig).map Prod.snd
    | .mg2 => (mg2SampleUpdate p iref isig).map Prod.snd
  | .train pos val =>
    match kind with
    | .kb1 => kb1Traintap p pos val
    | .mg2 => mg2Traintap p pos val

/-- Samples and training taps, from echo_can_create on: none where an element
    outside its array is touched. -/
def run (kind : Kind) (tapLength : Nat) (aggressive : Bool) (ops : List Op) : Option Pvt :=
  ops.foldlM (Op.apply kind) (initCc tapLength aggressive)

end Echocan
