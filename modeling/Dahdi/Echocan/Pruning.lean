import Dahdi.Echocan.Windows
import Dahdi.Library.LargestValues

/-!
The update of MG2's coefficients keeps the USED_COEFFS largest of them and clears the rest.
-/
namespace EchocanPruning
open Echocan EchocanWindows LargestValues

section Arrays
variable {m m' : Arr} {a v : Int} {i n : Nat}

/-- What one round after the other keeps, of a loop over the first n numbers. -/
theorem keeps_range {σ : Type} {P : Nat → σ → Prop} {f : σ → Nat → Option σ} {n : Nat}
    (step : ∀ k s, k < n → P k s → Keeps (P (k + 1)) (f s k)) {s : σ} (start : P 0 s) :
    Keeps (P n) ((List.range n).foldlM f s) := by
  induction n with
  | zero => exact keeps_value start
  | succ n ih =>
    rw [List.range_succ, List.foldlM_append]
    refine keeps_bind fun s' earlier => ?_
    have before := ih (fun k s below => step k s (by omega)) s' earlier
    rw [List.foldlM_cons]
    refine keeps_bind fun s'' last => ?_
    exact keeps_value (step n s' (by omega) before s'' last)

theorem get_value (found : m.get (i : Int) = some v) : i < m.len ∧ v = m.elem i := by
  rw [Arr.get] at found
  split at found
  case isTrue inside => exact ⟨by omega, (Option.some.inj found).symm⟩
  case isFalse => cases found

theorem set_value (stored : m.set (i : Int) v = some m') :
    m'.len = m.len ∧ ∀ j, m'.elem j = if j = i then v else m.elem j := by
  rw [Arr.set] at stored
  split at stored
  case isTrue =>
    rw [← Option.some.inj stored]
    exact ⟨rfl, fun j => Function.update_apply m.elem i v j⟩
  case isFalse => cases stored

def listOf (m : Arr) : List Int := (List.range m.len).map m.elem

theorem listOf_length : (listOf m).length = m.len := by
  rw [listOf, List.length_map, List.length_range]

theorem listOf_getElem (inside : i < (listOf m).length) : (listOf m)[i] = m.elem i := by
  simp only [listOf, List.getElem_map, List.getElem_range]

theorem listOf_descending (sorted : (listOf m).Pairwise (· ≥ ·)) {i j : Nat} (order : i ≤ j)
    (inside : j < m.len) : m.elem j ≤ m.elem i := by
  rcases Nat.eq_or_lt_of_le order with rfl | less
  · exact Int.le_refl _
  · have pair := List.pairwise_iff_getElem.mp sorted i j (by rw [listOf_length]; omega)
      (by rw [listOf_length]; omega) less
    rw [listOf_getElem, listOf_getElem] at pair
    exact pair

end Arrays

section Insertion
variable {m m' : Arr} {a : Int} {pos place rounds : Nat}

/-- The while loop stops in front of the first value that is not larger. -/
theorem coeffPlace_stops (found : coeffPlace m a rounds pos = some place) :
    place < m.len ∧ m.elem place ≤ a ∧ ∀ j, pos ≤ j → j < place → a < m.elem j := by
  induction rounds generalizing pos with
  | zero => cases found
  | succ rounds ih =>
    obtain ⟨here, got, later⟩ := Option.bind_eq_some_iff.mp found
    obtain ⟨inside, rfl⟩ := get_value got
    split at later
    case isTrue larger =>
      obtain ⟨inside', stop, before⟩ := ih later
      refine ⟨inside', stop, fun j low high => ?_⟩
      rcases Nat.eq_or_lt_of_le low with rfl | beyond
      · exact larger
      · exact before j beyond high
    case isFalse smaller =>
      obtain rfl := Option.some.inj later
      exact ⟨inside, Int.not_lt.mp smaller, fun j low high => absurd low (by omega)⟩

/-- memmove by one place, up to the end. -/
theorem moved_elem {count : Nat} :
    Keeps (fun moved : Arr => moved.len = m.len ∧ ∀ i, moved.elem i =
      if pos + 1 ≤ i ∧ i < pos + 1 + count then m.elem (i - 1) else m.elem i)
      ((List.range count).foldlM (fun (moved : Arr) (j : Nat) =>
        (m.get (pos + j : Nat)).bind fun value => moved.set (pos + 1 + j : Nat) value) m) := by
  refine keeps_range (P := fun k (moved : Arr) => moved.len = m.len ∧ ∀ i, moved.elem i =
    if pos + 1 ≤ i ∧ i < pos + 1 + k then m.elem (i - 1) else m.elem i) ?_ ?_
  · rintro k moved below ⟨len, elems⟩
    refine keeps_bind fun value got moved' stored => ?_
    obtain ⟨_, rfl⟩ := get_value got
    obtain ⟨len', elems'⟩ := set_value stored
    refine ⟨len'.trans len, fun i => ?_⟩
    rw [elems', elems]
    by_cases last : i = pos + 1 + k
    · have place : i - 1 = pos + k := by omega
      rw [if_pos last, if_pos (by omega), place]
    · rw [if_neg last]
      by_cases inside : pos + 1 ≤ i ∧ i < pos + 1 + k
      · rw [if_pos inside, if_pos (by omega)]
      · rw [if_neg inside, if_neg (by omega)]
  · refine ⟨rfl, fun i => ?_⟩
    rw [if_neg (by omega)]

/-- Where the new value stands at its place and every later one has moved up, the list is
    the one with the value inserted and the least dropped. -/
theorem listOf_inserted (len : m.len = USED_COEFFS) (len' : m'.len = USED_COEFFS)
    (inside : place < USED_COEFFS) (stop : m.elem place ≤ a) (before : ∀ j < place, a < m.elem j)
    (elems : ∀ i < USED_COEFFS, m'.elem i =
      if i < place then m.elem i else if i = place then a else m.elem (i - 1)) :
    listOf m' = keep USED_COEFFS a (listOf m) := by
  have length : (listOf m).length = USED_COEFFS := listOf_length.trans len
  have inserted : (listOf m).orderedInsert (· ≥ ·) a =
      (listOf m).take place ++ a :: (listOf m).drop place := by
    refine insert_at ?_ ?_
    · intro x member
      obtain ⟨j, low, rfl⟩ := List.mem_take_iff_getElem.mp member
      rw [listOf_getElem]
      exact before j (by omega)
    · intro x found
      obtain ⟨there, rfl⟩ := List.getElem?_eq_some_iff.mp found
      rw [listOf_getElem]
      exact stop
  rw [keep, inserted]
  refine List.ext_getElem ?_ fun i low high => ?_
  · simp only [listOf_length, len', List.length_take, List.length_append, List.length_cons,
      List.length_drop, length]
    omega
  · have bound : i < USED_COEFFS := by rw [listOf_length, len'] at low; exact low
    rw [listOf_getElem, elems i bound, List.getElem_take, List.getElem_append]
    simp only [List.length_take, length]
    by_cases first : i < place
    · rw [if_pos first, dif_pos (by omega), List.getElem_take, listOf_getElem]
    · rw [if_neg first, dif_neg (by omega), List.getElem_cons]
      by_cases here : i = place
      · rw [if_pos here, dif_pos (by omega)]
      · rw [if_neg here, dif_neg (by omega), List.getElem_drop, listOf_getElem]
        congr 1
        omega

/-- "More or less insertion-sort..." -/
theorem insertCoeff_keep (len : m.len = USED_COEFFS) (sorted : (listOf m).Pairwise (· ≥ ·)) :
    Keeps (fun m' : Arr => m'.len = USED_COEFFS ∧ listOf m' = keep USED_COEFFS a (listOf m))
      (insertCoeff m a) := by
  have size : USED_COEFFS = 64 := rfl
  refine keeps_bind fun least got => ?_
  obtain ⟨_, rfl⟩ := get_value got
  refine keeps_branch (fun bigger => ?_) fun small => keeps_value ⟨len, ?_⟩
  · refine keeps_bind fun place found => keeps_bind fun here got' => keeps_bind fun moved shifted => ?_
    obtain ⟨inside, stop, before⟩ := coeffPlace_stops found
    obtain ⟨_, rfl⟩ := get_value got'
    intro m' stored
    obtain ⟨len', elems'⟩ := set_value stored
    have movedElems : moved.len = USED_COEFFS ∧ ∀ i < USED_COEFFS, place < i →
        moved.elem i = m.elem (i - 1) := by
      split at shifted
      case isTrue =>
        obtain ⟨movedLen, elems⟩ := moved_elem moved shifted
        refine ⟨movedLen.trans len, fun i below above => ?_⟩
        rw [elems, if_pos (by omega)]
      case isFalse flat =>
        obtain rfl := Option.some.inj shifted
        refine ⟨len, fun i below above => ?_⟩
        -- from the place on all values are the least one
        have first := listOf_descending sorted (i := i - 1) (j := i) (by omega) (by omega)
        have second := listOf_descending sorted (i := place) (j := i - 1) (by omega) (by omega)
        have third := listOf_descending sorted (i := i) (j := USED_COEFFS - 1) (by omega) (by omega)
        omega
    have unmoved : ∀ i < place, moved.elem i = m.elem i := by
      intro i below
      split at shifted
      case isTrue =>
        rw [(moved_elem moved shifted).2, if_neg (by omega)]
      case isFalse =>
        obtain rfl := Option.some.inj shifted
        rfl
    refine ⟨len'.trans movedElems.1, listOf_inserted len (len'.trans movedElems.1) (by omega) stop
      (fun j below => before j (Nat.zero_le j) below) fun i below => ?_⟩
    rw [elems']
    by_cases here : i = place
    · rw [if_pos here, if_neg (by omega), if_pos here]
    · rw [if_neg here]
      by_cases first : i < place
      · rw [if_pos first, unmoved i first]
      · rw [if_neg first, if_neg here, movedElems.2 i below (by omega)]
  · have length : (listOf m).length = USED_COEFFS := listOf_length.trans len
    have same := keep_least sorted (a := a) fun x member => by
      obtain ⟨j, low, rfl⟩ := List.mem_iff_getElem.mp member
      rw [listOf_getElem]
      have least := listOf_descending sorted (i := j) (j := USED_COEFFS - 1) (by omega) (by omega)
      omega
    rw [length] at same
    exact same.symm

end Insertion

section Loops
variable {n : Nat} {p q : Pvt} {m : Arr} {twoBetaI : Int}

/-- Coefficient k after the update, which reads nothing that the update of the others
    writes. -/
def updated (p : Pvt) (twoBetaI : Int) (k : Nat) : Int :=
  int32 (p.aI.elem k +
    ((convolve2 p.uS.buf p.uS.idx p.yS.buf (p.yS.idx + k) DEFAULT_M).getD 0).tdiv twoBetaI)

/-- The state of the loop over all the filter coefficients in front of coefficient j. -/
structure Sifted (p : Pvt) (twoBetaI : Int) (j : Nat) (s : Pvt × Arr) : Prop where
  uS : s.1.uS = p.uS
  yS : s.1.yS = p.yS
  taps : s.1.nD = p.nD
  done : ∀ k < j, s.1.aI.elem k = updated p twoBetaI k ∧
    s.1.aS.elem k = short (updated p twoBetaI k >>> 16)
  open_ : ∀ k, j ≤ k → s.1.aI.elem k = p.aI.elem k
  len : s.2.len = USED_COEFFS
  top : listOf s.2 = largest USED_COEFFS
    (((List.range j).map fun k => |updated p twoBetaI k|).reverse ++ List.replicate USED_COEFFS 0)

theorem cabs_exact {v : Int} (low : -2147483648 < v) (high : v ≤ 2147483647) : cabs v = |v| := by
  have size : |v| ≤ 2147483647 := abs_le.mpr ⟨by omega, high⟩
  have positive := abs_nonneg v
  rw [cabs]
  exact int32_of_fits (by omega) size

theorem int32_high (v : Int) : int32 v ≤ 2147483647 := by
  have high := @Int.bmod_lt v (2 ^ 32) (by decide)
  rw [int32]
  omega

theorem updated_coeff {s : Pvt × Arr} {j : Nat} (sifted : Sifted p twoBetaI j s) :
    Keeps (fun r : Pvt × Int => r.2 = updated p twoBetaI j ∧
      Sifted p twoBetaI j (s.1, s.2) ∧ r.1.uS = p.uS ∧ r.1.yS = p.yS ∧ r.1.nD = p.nD ∧
      (∀ k, r.1.aI.elem k = if k = j then updated p twoBetaI j else s.1.aI.elem k) ∧
      ∀ k, r.1.aS.elem k = if k = j then short (updated p twoBetaI j >>> 16) else s.1.aS.elem k)
      (updateCoeff s.1 twoBetaI j) := by
  refine keeps_bind fun grad2 convolved => keeps_bind fun a got => keeps_bind fun aI stored =>
    keeps_map fun aS stored' => ?_
  obtain ⟨_, rfl⟩ := get_value got
  obtain ⟨_, elems⟩ := set_value stored
  obtain ⟨_, elems'⟩ := set_value stored'
  rw [sifted.uS, sifted.yS] at convolved
  have value : int32 (s.1.aI.elem j + grad2.tdiv twoBetaI) = updated p twoBetaI j := by
    rw [updated, convolved, Option.getD_some, sifted.open_ j (Nat.le_refl j)]
  rw [value] at elems elems'
  exact ⟨value, sifted, sifted.uS, sifted.yS, sifted.taps, elems, elems'⟩

/-- One coefficient updated and kept among the largest. -/
theorem sifted_next {s : Pvt × Arr} {j : Nat} (many : USED_COEFFS < p.nD)
    (low : -2147483648 < updated p twoBetaI j) (sifted : Sifted p twoBetaI j s) :
    Keeps (Sifted p twoBetaI (j + 1)) (mg2UpdateCoeff twoBetaI s j) := by
  refine keeps_bind fun r found => ?_
  obtain ⟨value, _, uS, yS, taps, elems, elems'⟩ := updated_coeff sifted r found
  dsimp only
  rw [taps, if_pos many]
  refine keeps_map fun maxCoeffs inserted => ?_
  have sorted : (listOf s.2).Pairwise (· ≥ ·) := by
    rw [sifted.top]
    exact largest_sorted _ _
  obtain ⟨len, top⟩ := insertCoeff_keep sifted.len sorted maxCoeffs inserted
  refine ⟨uS, yS, taps, ?_, ?_, len, ?_⟩
  · intro k below
    rw [elems, elems']
    by_cases last : k = j
    · rw [if_pos last, if_pos last, last]
      exact ⟨rfl, rfl⟩
    · rw [if_neg last, if_neg last]
      exact sifted.done k (by omega)
  · intro k above
    rw [elems, if_neg (by omega)]
    exact sifted.open_ k (by omega)
  · rw [top, sifted.top, value, cabs_exact low (int32_high _), ← largest_cons, List.range_succ,
      List.map_append, List.reverse_append]
    rfl

/-- The loop has updated every coefficient, and max_coeffs has the largest. -/
theorem loop_sifted (many : USED_COEFFS < p.nD) (lens : ∀ k < p.nD, -2147483648 < updated p twoBetaI k) :
    Keeps (Sifted p twoBetaI p.nD)
      ((List.range p.nD).foldlM (mg2UpdateCoeff twoBetaI) (p, zeros USED_COEFFS)) := by
  refine keeps_range (fun k s below sifted => sifted_next many (lens k below) sifted) ?_
  refine ⟨rfl, rfl, rfl, fun k below => absurd below (Nat.not_lt_zero k), fun k _ => rfl, rfl, ?_⟩
  rw [List.range_zero, List.map_nil, List.reverse_nil, List.nil_append, largest_replicate]
  exact List.eq_replicate_iff.mpr ⟨rfl, fun x member => by
    obtain ⟨k, _, rfl⟩ := List.mem_map.mp member
    rfl⟩

theorem sifted_largest {s : Pvt × Arr} (many : USED_COEFFS < p.nD)
    (sifted : Sifted p twoBetaI p.nD s) :
    listOf s.2 = largest USED_COEFFS ((List.range p.nD).map fun k => |updated p twoBetaI k|) := by
  have perm := List.reverse_perm ((List.range p.nD).map fun k => |updated p twoBetaI k|)
  rw [sifted.top, largest_padded, largest_perm perm]
  · intro x member
    obtain ⟨k, _, rfl⟩ := List.mem_map.mp (List.mem_reverse.mp member)
    exact abs_nonneg _
  · rw [List.length_reverse, List.length_map, List.length_range]
    omega

/-- The state of the filter in front of coefficient j. -/
def Filtered (n : Nat) (values : Nat → Int) (least : Int) (j : Nat) (q : Pvt) : Prop :=
  ∀ k < n, q.aI.elem k = (if k < j ∧ |values k| < least then 0 else values k) ∧
    q.aS.elem k = short (q.aI.elem k >>> 16)

/-- "Filter out irrelevant coefficients". -/
theorem filtered_next {values : Nat → Int} {j : Nat} (below : j < n)
    (low : -2147483648 < values j) (high : values j ≤ 2147483647)
    (filtered : Filtered n values (m.elem (USED_COEFFS - 1)) j q) :
    Keeps (Filtered n values (m.elem (USED_COEFFS - 1)) (j + 1)) (filterCoeff m q j) := by
  refine keeps_bind fun a got => keeps_bind fun least got' => ?_
  obtain ⟨_, rfl⟩ := get_value got
  obtain ⟨_, rfl⟩ := get_value got'
  obtain ⟨here, _⟩ := filtered j below
  rw [if_neg (by omega)] at here
  rw [here, cabs_exact low high]
  refine keeps_branch (fun small => ?_) fun large => keeps_value ?_
  · refine keeps_bind fun aI stored => keeps_map fun aS stored' => ?_
    obtain ⟨_, elems⟩ := set_value stored
    obtain ⟨_, elems'⟩ := set_value stored'
    intro k inside
    obtain ⟨value, short_⟩ := filtered k inside
    dsimp only
    rw [elems, elems']
    by_cases last : k = j
    · rw [if_pos last, if_pos last, if_pos ⟨by omega, last ▸ small⟩]
      exact ⟨rfl, rfl⟩
    · rw [if_neg last, if_neg last]
      refine ⟨value.trans (if_congr ?_ rfl rfl), short_⟩
      exact and_congr_left' (by omega)
  · intro k inside
    obtain ⟨value, short_⟩ := filtered k inside
    refine ⟨value.trans ?_, short_⟩
    by_cases last : k = j
    · subst last
      rw [if_neg (by omega), if_neg fun both => large both.2]
    · exact if_congr (and_congr_left' (by omega)) rfl rfl

theorem filter_done {s : Pvt × Arr} (sifted : Sifted p twoBetaI p.nD s)
    (lens : ∀ k < p.nD, -2147483648 < updated p twoBetaI k) :
    Keeps (Filtered p.nD (updated p twoBetaI) (s.2.elem (USED_COEFFS - 1)) p.nD)
      ((List.range p.nD).foldlM (filterCoeff s.2) s.1) := by
  refine keeps_range (fun k q below filtered => filtered_next below (lens k below)
    (int32_high _) filtered) ?_
  intro k inside
  obtain ⟨value, short_⟩ := sifted.done k inside
  rw [if_neg (by omega), value]
  exact ⟨rfl, short_⟩

/-- The state behind the update: the coefficients that are smaller than the least of the
    largest are zero, the others updated. -/
structure Pruned (p : Pvt) (twoBetaI : Int) (maxCoeffs : Arr) (r : Pvt) : Prop where
  len : maxCoeffs.len = USED_COEFFS
  largest : listOf maxCoeffs =
    largest USED_COEFFS ((List.range p.nD).map fun k => |updated p twoBetaI k|)
  descending : (listOf maxCoeffs).Pairwise (· ≥ ·)
  kept : ∀ k < p.nD, r.aI.elem k =
    if |updated p twoBetaI k| < maxCoeffs.elem (USED_COEFFS - 1) then 0 else updated p twoBetaI k
  survivors : USED_COEFFS ≤ ((List.range p.nD).filter fun k =>
    decide (maxCoeffs.elem (USED_COEFFS - 1) ≤ |updated p twoBetaI k|)).length
  shorts : ∀ k < p.nD, r.aS.elem k = short (r.aI.elem k >>> 16)

theorem survivors_count {s : Pvt × Arr} (many : USED_COEFFS < p.nD)
    (sifted : Sifted p twoBetaI p.nD s) :
    USED_COEFFS ≤ ((List.range p.nD).filter fun k =>
      decide (s.2.elem (USED_COEFFS - 1) ≤ |updated p twoBetaI k|)).length := by
  have size : USED_COEFFS = 64 := rfl
  have top := sifted_largest many sifted
  have sorted : (listOf s.2).Pairwise (· ≥ ·) := by
    rw [top]
    exact largest_sorted _ _
  have enough : USED_COEFFS ≤ ((List.range p.nD).map fun k => |updated p twoBetaI k|).length := by
    rw [List.length_map, List.length_range]
    omega
  have count := largest_survive (b := s.2.elem (USED_COEFFS - 1)) enough fun x member => by
    rw [← top] at member
    obtain ⟨j, low, rfl⟩ := List.mem_iff_getElem.mp member
    have len := sifted.len
    rw [listOf_length] at low
    rw [listOf_getElem]
    exact listOf_descending sorted (by omega) (by omega)
  rw [List.filter_map, List.length_map] at count
  exact count

end Loops

end EchocanPruning
