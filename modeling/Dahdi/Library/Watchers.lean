import Mathlib

/-!
Things that are marked as long as they are watched, where every watcher watches at most
one, and what the marks must be after one watcher has turned to another.
-/
namespace Watchers
variable {A P : Type*} [DecidableEq A] {watch : A → Option P} {marked marked' : P → Prop} {c : A}
  {target : Option P}

def Marked (watch : A → Option P) (marked : P → Prop) : Prop :=
  ∀ p, marked p ↔ ∃ a, watch a = some p

/-- Somebody else watches the same. -/
def Shared (watch : A → Option P) (c : A) (p : P) : Prop := ∃ a, a ≠ c ∧ watch a = some p

omit [DecidableEq A] in
theorem watched_split (c : A) (p : P) : (∃ a, watch a = some p) ↔ watch c = some p ∨ Shared watch c p := by
  constructor
  · intro watched
    obtain ⟨a, watches⟩ := watched
    by_cases same : a = c
    · exact Or.inl (same ▸ watches)
    · exact Or.inr ⟨a, same, watches⟩
  · intro either
    rcases either with watches | ⟨a, _, watches⟩
    · exact ⟨c, watches⟩
    · exact ⟨a, watches⟩

theorem watched_turned (c : A) (target : Option P) (p : P) :
    (∃ a, Function.update watch c target a = some p) ↔ target = some p ∨ Shared watch c p := by
  rw [watched_split c]
  have others : Shared (Function.update watch c target) c p ↔ Shared watch c p := by
    constructor
    · intro shared
      obtain ⟨a, other, watches⟩ := shared
      rw [Function.update_of_ne other] at watches
      exact ⟨a, other, watches⟩
    · intro shared
      obtain ⟨a, other, watches⟩ := shared
      exact ⟨a, other, by rw [Function.update_of_ne other, watches]⟩
  rw [Function.update_self, others]

/-- The marks after a turn, thing by thing. -/
theorem marked_turned (target : Option P) : Marked (Function.update watch c target) marked' ↔
    ∀ p, marked' p ↔ target = some p ∨ Shared watch c p := by
  constructor
  · intro marks p
    rw [marks p, watched_turned]
  · intro marks p
    rw [marks p, watched_turned]

omit [DecidableEq A] in
/-- A mark that stays is right if the watcher that turned away was not the last one. -/
theorem mark_stays (marks : Marked watch marked) (c : A) {p : P} (other : target ≠ some p) :
    (marked p ↔ target = some p ∨ Shared watch c p) ↔ (watch c = some p → Shared watch c p) := by
  rw [marks p, watched_split c]
  constructor
  · intro same watches
    exact (same.mp (Or.inl watches)).resolve_left other
  · intro stays
    constructor
    · intro either
      exact Or.inr (either.elim stays id)
    · intro either
      exact Or.inr (either.resolve_left other)

end Watchers
