import Mathlib

/-!
Two tables that are partial inverses of each other, zero standing for no entry.
-/
namespace InverseTables
variable {α β : Type*} [Zero α] [Zero β]

structure Inverse (f : α → β) (g : β → α) : Prop where
  zero : f 0 = 0
  back : g 0 = 0
  inverse : ∀ x y, x ≠ 0 → y ≠ 0 → (f x = y ↔ g y = x)

theorem inverse_zero : Inverse (fun _ : α => (0 : β)) (fun _ => 0) := by
  constructor
  · rfl
  · rfl
  · intro x y some some'
    simp only [some.symm, some'.symm]

variable {f : α → β} {g : β → α}

theorem inverse_entry (tables : Inverse f g) {x : α} (entry : f x ≠ 0) : x ≠ 0 ∧ g (f x) = x := by
  have some : x ≠ 0 := by
    rintro rfl
    exact entry tables.zero
  exact ⟨some, (tables.inverse x (f x) some entry).mp rfl⟩

/-- No two entries are equal. -/
theorem inverse_injective (tables : Inverse f g) {x x' : α} (entry : f x ≠ 0) (same : f x = f x') :
    x = x' := by
  have first := (inverse_entry tables entry).2
  rw [same] at entry first
  exact first.symm.trans (inverse_entry tables entry).2

variable [DecidableEq α] [DecidableEq β]

theorem inverse_link (tables : Inverse f g) {x : α} {y : β} (key : x ≠ 0) (value : y ≠ 0)
    (unused : f x = 0) (free : g y = 0) :
    Inverse (Function.update f x y) (Function.update g y x) := by
  obtain ⟨zero, back, inverse⟩ := tables
  constructor
  · rw [Function.update_of_ne key.symm, zero]
  · rw [Function.update_of_ne value.symm, back]
  · intro u v some some'
    by_cases here : u = x
    · subst here
      by_cases there : v = y
      · subst there
        simp
      · rw [Function.update_self, Function.update_of_ne there]
        have apart : g v ≠ u := by
          intro linked
          rw [(inverse u v some some').mpr linked] at unused
          exact some' unused
        exact ⟨fun same => absurd same.symm there, fun linked => absurd linked apart⟩
    · rw [Function.update_of_ne here]
      by_cases there : v = y
      · subst there
        rw [Function.update_self]
        have apart : f u ≠ v := by
          intro linked
          rw [(inverse u v some some').mp linked] at free
          exact some free
        exact ⟨fun linked => absurd linked apart, fun same => absurd same.symm here⟩
      · rw [Function.update_of_ne there]
        exact inverse u v some some'

theorem inverse_unlink (tables : Inverse f g) (x : α) :
    Inverse (Function.update f x 0) (Function.update g (f x) 0) := by
  obtain ⟨zero, back, inverse⟩ := tables
  constructor
  · by_cases here : (0 : α) = x
    · subst here
      simp
    · rw [Function.update_of_ne here, zero]
  · by_cases here : (0 : β) = f x
    · rw [← here]
      simp
    · rw [Function.update_of_ne here, back]
  · intro u v some some'
    by_cases here : u = x
    · subst here
      rw [Function.update_self]
      have apart : Function.update g (f u) 0 v ≠ u := by
        by_cases there : v = f u
        · rw [there, Function.update_self]
          exact some.symm
        · rw [Function.update_of_ne there]
          intro linked
          exact there ((inverse u v some some').mpr linked).symm
      exact ⟨fun same => absurd same.symm some', fun linked => absurd linked apart⟩
    · rw [Function.update_of_ne here]
      by_cases there : v = f x
      · rw [there, Function.update_self]
        have entry : f x ≠ 0 := there ▸ some'
        have linked := (inverse_entry ⟨zero, back, inverse⟩ entry).2
        constructor
        · intro same
          have := (inverse u (f x) some entry).mp same
          exact absurd (this.symm.trans linked) here
        · intro same
          exact absurd same.symm some
      · rw [Function.update_of_ne there]
        exact inverse u v some some'

end InverseTables
