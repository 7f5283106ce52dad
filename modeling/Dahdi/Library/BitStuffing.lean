import Mathlib

/-!
Zero insertion after a full run of ones. The inserted zero follows the run at
once, so the run carried to the next bits is always shorter than the limit.
-/
namespace BitStuffing

/-- Bits on the wire for the given bits when `run` ones have just been sent. -/
def stuff (limit : Nat) : Nat → List Bool → List Bool
  | _, [] => []
  | run, true :: bits =>
      if run + 1 = limit then true :: false :: stuff limit 0 bits
      else true :: stuff limit (run + 1) bits
  | _, false :: bits => false :: stuff limit 0 bits

def runAfter (limit : Nat) : Nat → List Bool → Nat
  | run, [] => run
  | run, true :: bits =>
      if run + 1 = limit then runAfter limit 0 bits else runAfter limit (run + 1) bits
  | _, false :: bits => runAfter limit 0 bits

variable {limit : Nat}

theorem run_below_limit {run : Nat} (below : run < limit) (bits : List Bool) :
    runAfter limit run bits < limit := by
  induction bits generalizing run with
  | nil => exact below
  | cons b bits ih =>
    cases b with
    | false => exact ih (by omega)
    | true =>
      simp only [runAfter]
      split
      · exact ih (by omega)
      · exact ih (by omega)

theorem length_le_stuff (limit run : Nat) (bits : List Bool) :
    bits.length ≤ (stuff limit run bits).length := by
  induction bits generalizing run with
  | nil => simp [stuff]
  | cons b bits ih =>
    cases b with
    | false => simpa [stuff] using ih 0
    | true =>
      simp only [stuff]
      split
      · have := ih 0
        simp only [List.length_cons]
        omega
      · simpa using ih (run + 1)

/-- One zero for every full run that the old run and the new bits can contain. -/
theorem stuff_length_le {run : Nat} (positive : 0 < limit) (below : run < limit)
    (bits : List Bool) :
    (stuff limit run bits).length ≤ bits.length + (run + bits.length) / limit := by
  induction bits generalizing run with
  | nil => simp [stuff]
  | cons b bits ih =>
    cases b with
    | false =>
      have rest := ih positive
      have more : bits.length / limit ≤ (run + (bits.length + 1)) / limit :=
        Nat.div_le_div_right (by omega)
      simp only [stuff, List.length_cons, Nat.zero_add] at rest ⊢
      omega
    | true =>
      simp only [stuff]
      split
      · rename_i full
        have rest := ih positive
        have wrap : (run + (bits.length + 1)) / limit = bits.length / limit + 1 := by
          rw [show run + (bits.length + 1) = bits.length + limit by omega,
            Nat.add_div_right _ positive]
        simp only [List.length_cons, Nat.zero_add] at rest ⊢
        omega
      · have rest := @ih (run + 1) (by omega)
        have same : run + (bits.length + 1) = run + 1 + bits.length := by omega
        simp only [List.length_cons, same] at rest ⊢
        omega

end BitStuffing
