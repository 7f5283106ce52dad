import Mathlib

/-!
Machines that answer every label they accept, and refinement between two of
them: related states accept the same labels with the same answers.
-/
namespace Transducer
variable {State Spec Label Output : Type*}

abbrev Machine (State Label Output : Type*) := State → Label → Option (Output × State)

/-- The answers to a list of labels and the state they lead to. -/
def run (m : Machine State Label Output) : State → List Label → Option (List Output × State)
  | s, [] => some ([], s)
  | s, l :: rest =>
    match m s l with
    | none => none
    | some (o, s') => (run m s' rest).map fun r => (o :: r.1, r.2)

/-- Same answer, related states. -/
def Agree (related : State → Spec → Prop) {Output : Type*} (x : Output × State)
    (y : Output × Spec) : Prop :=
  x.1 = y.1 ∧ related x.2 y.2

def Refines (m : Machine State Label Output) (spec : Machine Spec Label Output)
    (related : State → Spec → Prop) : Prop :=
  ∀ s t l, related s t → Option.Rel (Agree related) (m s l) (spec t l)

variable {m : Machine State Label Output} {spec : Machine Spec Label Output}
  {related : State → Spec → Prop}

theorem rel_none {α β : Type*} {r : α → β → Prop} {y : Option β} (rel : Option.Rel r none y) :
    y = none := by
  cases rel
  rfl

theorem rel_some {α β : Type*} {r : α → β → Prop} {a : α} {y : Option β}
    (rel : Option.Rel r (some a) y) : ∃ b, y = some b ∧ r a b := by
  cases rel with
  | some holds => exact ⟨_, rfl, holds⟩

theorem run_refines (refines : Refines m spec related) (labels : List Label) {s : State} {t : Spec}
    (start : related s t) : Option.Rel (Agree related) (run m s labels) (run spec t labels) := by
  induction labels generalizing s t with
  | nil => exact Option.Rel.some ⟨rfl, start⟩
  | cons l rest ih =>
    have first := refines s t l start
    rw [run, run]
    cases answered : m s l with
    | none =>
      rw [answered] at first
      rw [rel_none first]
      exact Option.Rel.none
    | some x =>
      rw [answered] at first
      obtain ⟨y, expected, same, after⟩ := rel_some first
      rw [expected]
      have later := ih after
      simp only
      cases ran : run m x.2 rest with
      | none =>
        rw [ran] at later
        rw [rel_none later]
        exact Option.Rel.none
      | some r =>
        rw [ran] at later
        obtain ⟨r', expected', same', after'⟩ := rel_some later
        rw [expected']
        exact Option.Rel.some ⟨congrArg₂ List.cons same same', after'⟩

end Transducer
