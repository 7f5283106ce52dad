import Dahdi.Channel.RingInvariant
import Dahdi.Channel.Contents

/-!
The write ring as the chunk loop finds it: the transmitter comes to an end of the
filled buffers, and a last one that is repeated has something in it. The index a
write finishes with need not be the one the filler stands at.
-/
namespace ReadyRing
open Channel CyclicCursor RingInvariant

/-- Where the transmitter stops: at the filler, or all the way round. -/
def stop (w : Ring) : Int := if w.inbuf < 0 then w.outbuf else w.inbuf

/-- The last filled buffer is not empty. -/
def LastSome (size : Nat) (w : Ring) : Prop :=
  0 ≤ w.outbuf → ∀ x : Nat, x < size → ((x : Int) + 1) % size = stop w → 0 < w.n x

structure Ready (size : Nat) (repeats : Bool) (w : Ring) : Prop where
  two : 2 ≤ size
  ring : Allocated size w ∧ Valid size w.inbuf w.outbuf (met size w.inbuf w.outbuf) ∨
    Unallocated size w ∧ w.outbuf = -1
  started : ∀ x, x < size → 0 ≤ w.idx x ∧ w.idx x ≤ w.n x
  message : repeats = true → LastSome size w

section ring
variable {size : Nat} {repeats : Bool} {w : Ring}

theorem next_inj {x y : Nat} (below : x < size) (below' : y < size)
    (same : ((x : Int) + 1) % size = ((y : Int) + 1) % size) : x = y := by
  have bound (z : Nat) (inside : z < size) :
      ((z : Int) + 1) % size = z + 1 ∧ z + 1 < size ∨ ((z : Int) + 1) % size = 0 ∧ z + 1 = size := by
    rcases Nat.lt_or_ge (z + 1) size with within | last
    · exact Or.inl ⟨Int.emod_eq_of_lt (by omega) (by omega), within⟩
    · have whole : (z : Int) + 1 = size := by omega
      exact Or.inr ⟨by rw [whole, Int.emod_self], by omega⟩
  rcases bound x below with ⟨first, _⟩ | ⟨first, _⟩ <;>
    rcases bound y below' with ⟨second, _⟩ | ⟨second, _⟩ <;> omega

theorem next_range (positive : 0 < size) (x : Int) : 0 ≤ (x + 1) % size ∧ (x + 1) % size < size :=
  ⟨Int.emod_nonneg _ (by omega), Int.emod_lt_of_pos _ (by omega)⟩

theorem next_apart (two : 2 ≤ size) {x : Nat} (below : x < size) : ((x : Int) + 1) % size ≠ x := by
  rcases Nat.lt_or_ge (x + 1) size with within | last
  · rw [Int.emod_eq_of_lt (by omega) (by omega)]
    omega
  · have whole : (x : Int) + 1 = size := by omega
    rw [whole, Int.emod_self]
    omega

theorem ready_out (ready : Ready size repeats w) (sending : -1 < w.outbuf) :
    Allocated size w ∧ Valid size w.inbuf w.outbuf (met size w.inbuf w.outbuf) ∧
      w.outbuf.toNat < size := by
  rcases ready.ring with ⟨allocated, valid⟩ | ⟨_, none_⟩
  · refine ⟨allocated, valid, ?_⟩
    rcases valid.outRange with none_ | ⟨low, high⟩ <;> omega
  · omega

/-- A ring in which nothing is filled. -/
theorem ready_empty (two : 2 ≤ size)
    (ring : Allocated size w ∧ w.inbuf = 0 ∨ Unallocated size w) (out : w.outbuf = -1)
    (n : ∀ x, x < size → w.n x = 0) (idx : ∀ x, x < size → w.idx x = 0) : Ready size repeats w := by
  refine ⟨two, ?_, ?_, fun _ low => by omega⟩
  · rcases ring with ⟨allocated, first⟩ | missing
    · left
      rw [first, out]
      exact ⟨allocated, valid_start (by omega)⟩
    · exact Or.inr ⟨missing, out⟩
  · intro x inside
    rw [n x inside, idx x inside]
    exact ⟨Int.le_refl 0, Int.le_refl 0⟩

theorem ready_clear (ready : Ready size repeats w) : Ready size repeats (w.clear size 0) := by
  apply ready_empty ready.two
  · rcases ready.ring with ⟨allocated, _⟩ | ⟨missing, _⟩
    · exact Or.inl ⟨allocated, rfl⟩
    · exact Or.inr missing
  · rfl
  · intro x inside
    simp [Ring.clear, inside]
  · intro x inside
    simp [Ring.clear, inside]

theorem ready_realloc (two : 2 ≤ size) (w : Ring) (allocated : Bool) :
    Ready size repeats (w.realloc size allocated) := by
  apply ready_empty two
  · cases allocated with
    | true =>
      refine Or.inl ⟨?_, rfl⟩
      intro x inside
      simp [Ring.realloc, Ring.clear, inside]
    | false =>
      right
      intro x inside
      simp [Ring.realloc, Ring.clear, inside]
  · rfl
  · intro x inside
    simp [Ring.realloc, Ring.clear, inside]
  · intro x inside
    simp [Ring.realloc, Ring.clear, inside]

/-- A message of some bytes put into any buffer and handed over. -/
theorem ready_hand_over (ready : Ready size repeats w) {x : Nat} (below : x < size)
    (present : w.buf x ≠ none) (b : Buffer) {len : Nat} (some_ : repeats = true → 0 < len) :
    Ready size repeats ({ w with
      buf := set w.buf x (some b)
      n := set w.n x len
      idx := set w.idx x 0 }.handOver size x) := by
  have two := ready.two
  have held : Allocated size w ∧ Valid size w.inbuf w.outbuf (met size w.inbuf w.outbuf) := by
    rcases ready.ring with both | ⟨missing, _⟩
    · exact both
    · exact absurd (missing x below) present
  obtain ⟨allocated, valid⟩ := held
  obtain ⟨low, high⟩ := next_range (by omega : 0 < size) (x : Int)
  have apart := next_apart two below
  refine ⟨two, Or.inl ⟨?_, ?_, ?_, ?_, rfl⟩, ?_, ?_⟩
  · intro i inside
    simp only [Ring.handOver, ne_eq, set_pointer present]
    exact allocated i inside
  · simp only [Ring.handOver]
    split
    · exact Or.inl rfl
    · exact Or.inr ⟨low, high⟩
  · simp only [Ring.handOver]
    split
    · exact Or.inr ⟨by omega, by omega⟩
    · exact valid.outRange
  · simp only [Ring.handOver]
    split <;> split <;> omega
  · intro i inside
    simp only [Ring.handOver]
    rcases Nat.decEq i x with other | rfl
    · rw [set_other _ _ other, set_other _ _ other]
      exact ready.started i inside
    · rw [set_same, set_same]
      omega
  · intro again _ i inside last
    have here : ((i : Int) + 1) % size = ((x : Int) + 1) % size := by
      rw [last]
      simp only [stop, Ring.handOver]
      split <;> split <;> omega
    rw [next_inj inside below here]
    simp only [Ring.handOver, set_same]
    exact_mod_cast some_ again

/-- Positions that move within their buffers. -/
theorem ready_idx (ready : Ready size repeats w) {x : Nat} {v : Int} (low : 0 ≤ v) (high : v ≤ w.n x) :
    Ready size repeats { w with idx := set w.idx x v } := by
  refine ⟨ready.two, ready.ring, ?_, ready.message⟩
  intro i inside
  simp only
  rcases Nat.decEq i x with other | rfl
  · rw [set_other _ _ other]
    exact ready.started i inside
  · rw [set_same]
    exact ⟨low, high⟩

/-- The buffer at the transmitter is given up, its length kept or cleared. -/
theorem ready_release (ready : Ready size repeats w) (sending : -1 < w.outbuf) (n : Nat → Int)
    (kept : ∀ x, x ≠ w.outbuf.toNat → n x = w.n x)
    (given : n w.outbuf.toNat = w.n w.outbuf.toNat ∨ n w.outbuf.toNat = 0) :
    Ready size repeats ({ w with idx := set w.idx w.outbuf.toNat 0, n := n }.release size w.outbuf) ∧
      (met size ({ w with idx := set w.idx w.outbuf.toNat 0, n := n }.release size w.outbuf).inbuf
        ({ w with idx := set w.idx w.outbuf.toNat 0, n := n }.release size w.outbuf).outbuf).length <
        (met size w.inbuf w.outbuf).length := by
  obtain ⟨allocated, valid, below⟩ := ready_out ready sending
  obtain ⟨rest, filled, valid'⟩ := valid_empty ready.two valid (by omega)
  have walked := valid'.walked
  have two := ready.two
  have apart := next_apart two below
  obtain ⟨low, _⟩ := next_range (by omega : 0 < size) w.outbuf
  have place : ((w.outbuf.toNat : Nat) : Int) = w.outbuf := by omega
  refine ⟨⟨two, Or.inl ⟨allocated, ?_⟩, ?_, ?_⟩, ?_⟩
  · rw [walked] at valid'
    exact valid'
  · intro x inside
    simp only [Ring.release]
    have before := ready.started x inside
    rcases Nat.decEq x w.outbuf.toNat with other | rfl
    · rw [set_other _ _ other, kept x other]
      exact before
    · rw [set_same]
      rcases given with same | none_ <;> omega
  · intro again
    simp only [LastSome, Ring.release, stop]
    intro more x inside last
    have before := ready.message again (by omega) x inside
    have next : ¬(w.outbuf + 1) % size = w.inbuf := by
      intro same
      rw [if_pos same] at more
      omega
    have stops : ((x : Int) + 1) % size = stop w := by
      rw [last, if_neg next]
      unfold stop
      by_cases full : w.inbuf < 0
      · simp only [if_pos full]
        exact if_neg (by omega)
      · simp only [if_neg full]
    have other : x ≠ w.outbuf.toNat := by
      rintro rfl
      rw [place] at stops apart
      unfold stop at stops
      split at stops
      · exact apart stops
      · exact next stops
    rw [kept x other]
    exact before stops
  · have shorter : rest.length < (met size w.inbuf w.outbuf).length := by
      rw [filled]
      exact Nat.lt_succ_self _
    rw [walked] at shorter
    exact shorter

end ring

end ReadyRing
