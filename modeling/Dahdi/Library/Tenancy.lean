import Mathlib

/-!
Rooms that tenants hold, each room by at most one tenant and each tenant with at
most one room, and the flags of the busy rooms.
-/
namespace Tenancy
variable {Tenant Room : Type*}

/-- The busy rooms are the held ones, and no room has two tenants. -/
structure Settled (holds : Tenant → Option Room) (busy : Room → Bool) : Prop where
  held : ∀ r, busy r = true ↔ ∃ t, holds t = some r
  alone : ∀ t t' r, holds t = some r → holds t' = some r → t = t'

/-- The flags once the room of a tenant, if there was one, is free. -/
def vacate [DecidableEq Room] (busy : Room → Bool) (old : Option Room) : Room → Bool :=
  fun r => if old = some r then false else busy r

variable [DecidableEq Tenant] {holds : Tenant → Option Room} {busy : Room → Bool} {t : Tenant}
  {r : Room}

theorem holder_elsewhere {t' : Tenant} {o : Option Room} (settled : Settled holds busy)
    (held : Function.update holds t o t' = some r) (other : o ≠ some r) :
    t' ≠ t ∧ holds t' = some r ∧ holds t ≠ some r := by
  have apart : t' ≠ t := by
    rintro rfl
    rw [Function.update_self] at held
    exact other held
  rw [Function.update_of_ne apart] at held
  exact ⟨apart, held, fun also => apart (settled.alone t' t r held also)⟩

variable [DecidableEq Room]

/-- A tenant leaves. -/
theorem settled_leave (settled : Settled holds busy) :
    Settled (Function.update holds t none) (vacate busy (holds t)) := by
  constructor
  · intro r
    unfold vacate
    constructor
    · intro taken
      split at taken
      · simp at taken
      · rename_i elsewhere
        obtain ⟨t', held⟩ := (settled.held r).mp taken
        have apart : t' ≠ t := by
          rintro rfl
          exact elsewhere held
        exact ⟨t', by rw [Function.update_of_ne apart]; exact held⟩
    · rintro ⟨t', held⟩
      obtain ⟨_, kept, elsewhere⟩ := holder_elsewhere settled held (by simp)
      rw [if_neg elsewhere]
      exact (settled.held r).mpr ⟨t', kept⟩
  · intro t' t'' r first second
    obtain ⟨_, kept, _⟩ := holder_elsewhere settled first (by simp)
    obtain ⟨_, also, _⟩ := holder_elsewhere settled second (by simp)
    exact settled.alone t' t'' r kept also

/-- A tenant takes a free room, and then leaves the old one. -/
theorem settled_move (settled : Settled holds busy) (free : busy r = false) :
    Settled (Function.update holds t (some r)) (vacate (Function.update busy r true) (holds t)) := by
  have unheld (t' : Tenant) : holds t' ≠ some r := by
    intro held
    rw [(settled.held r).mpr ⟨t', held⟩] at free
    simp at free
  constructor
  · intro r'
    unfold vacate
    by_cases here : r' = r
    · subst here
      rw [if_neg (unheld t), Function.update_self]
      constructor
      · intro _
        exact ⟨t, Function.update_self ..⟩
      · intro _
        rfl
    · rw [Function.update_of_ne here]
      have other : some r ≠ some r' := fun same => here (Option.some.inj same).symm
      constructor
      · intro taken
        split at taken
        · simp at taken
        · rename_i elsewhere
          obtain ⟨t', held⟩ := (settled.held r').mp taken
          have apart : t' ≠ t := by
            rintro rfl
            exact elsewhere held
          exact ⟨t', by rw [Function.update_of_ne apart]; exact held⟩
      · rintro ⟨t', held⟩
        obtain ⟨_, kept, elsewhere⟩ := holder_elsewhere settled held other
        rw [if_neg elsewhere]
        exact (settled.held r').mpr ⟨t', kept⟩
  · intro t' t'' r' first second
    by_cases here : r' = r
    · subst here
      have mine (x : Tenant) (held : Function.update holds t (some r') x = some r') : x = t := by
        by_contra apart
        rw [Function.update_of_ne apart] at held
        exact unheld x held
      rw [mine t' first, mine t'' second]
    · have other : some r ≠ some r' := fun same => here (Option.some.inj same).symm
      obtain ⟨_, kept, _⟩ := holder_elsewhere settled first other
      obtain ⟨_, also, _⟩ := holder_elsewhere settled second other
      exact settled.alone t' t'' r' kept also

end Tenancy
