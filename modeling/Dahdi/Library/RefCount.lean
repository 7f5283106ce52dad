import Mathlib

/-!
References: how many of finitely many holders hold a thing, and what is counted when
one of them changes hands.
-/
namespace RefCount
variable {H R : Type*} [Fintype H] [DecidableEq H] [DecidableEq R]

/-- How many holders have this one. -/
def count (held : H → Option R) (r : R) : Nat := (Finset.univ.filter fun h => held h = some r).card

/-- The references to a thing that a place makes up. -/
def has (place : Option R) (r : R) : Int := if place = some r then 1 else 0

def get (refs : R → Int) (place : Option R) : R → Int := fun r => refs r + has place r

def put (refs : R → Int) (place : Option R) : R → Int := fun r => refs r - has place r

@[simp] theorem has_none (r : R) : has none r = 0 := rfl

@[simp] theorem get_none (refs : R → Int) : get refs none = refs := by
  funext r
  rw [get, has_none, Int.add_zero]

@[simp] theorem put_none (refs : R → Int) : put refs none = refs := by
  funext r
  rw [put, has_none, Int.sub_zero]

theorem put_get (refs : R → Int) (place : Option R) : put (get refs place) place = refs := by
  funext r
  rw [put, get, Int.add_sub_cancel]

theorem count_sum (held : H → Option R) (r : R) : (count held r : Int) = ∑ h, has (held h) r := by
  rw [count, Finset.card_filter]
  push_cast
  rfl

theorem count_update (held : H → Option R) (h : H) (place : Option R) (r : R) :
    (count (Function.update held h place) r : Int) = count held r - has (held h) r + has place r := by
  have others : ∑ x ∈ Finset.univ.erase h, has (Function.update held h place x) r =
      ∑ x ∈ Finset.univ.erase h, has (held x) r := by
    apply Finset.sum_congr rfl
    intro x member
    rw [Function.update_of_ne (Finset.ne_of_mem_erase member)]
  have before := Finset.add_sum_erase Finset.univ (fun x => has (held x) r) (Finset.mem_univ h)
  rw [count_sum, count_sum, ← Finset.add_sum_erase _ _ (Finset.mem_univ h), others,
    Function.update_self]
  omega

theorem count_none (r : R) : count (fun _ : H => none) r = 0 := by
  simp [count]

theorem count_positive {held : H → Option R} {h : H} {r : R} (holds : held h = some r) :
    0 < count held r := by
  apply Finset.card_pos.mpr
  exact ⟨h, Finset.mem_filter.mpr ⟨Finset.mem_univ h, holds⟩⟩

end RefCount
