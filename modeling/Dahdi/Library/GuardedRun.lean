import Mathlib

/-!
Runs of a labelled transition system in which every step meets a guard on the
label and the state before it.
-/
namespace GuardedRun
variable {State Label : Type*}

structure System (State Label : Type*) where
  start : State → Prop
  step : State → Label → State → Prop

def anyStep : State → Label → Prop := fun _ _ => True

inductive Reach (sys : System State Label) (guard : State → Label → Prop) : State → Prop where
  | start {s : State} : sys.start s → Reach sys guard s
  | step {s s' : State} {l : Label} :
      Reach sys guard s → guard s l → sys.step s l s' → Reach sys guard s'

/-- What holds at the start and is kept by every guarded step holds throughout. -/
theorem invariant_run {sys : System State Label} {guard : State → Label → Prop}
    {inv : State → Prop} (initial : ∀ s, sys.start s → inv s)
    (kept : ∀ s l s', inv s → guard s l → sys.step s l s' → inv s')
    {s : State} (reached : Reach sys guard s) : inv s := by
  induction reached with
  | start begin_ => exact initial _ begin_
  | step _ allowed moved ih => exact kept _ _ _ ih allowed moved

theorem reach_mono {sys : System State Label} {guard guard' : State → Label → Prop}
    (weaker : ∀ s l, guard s l → guard' s l) {s : State} (reached : Reach sys guard s) :
    Reach sys guard' s := by
  induction reached with
  | start begin_ => exact Reach.start begin_
  | step _ allowed moved ih => exact Reach.step ih (weaker _ _ allowed) moved

instance (s : State) (l : Label) : Decidable (anyStep s l) := isTrue trivial

/-- The run over these labels of a system whose steps are computed, as far as the
    guard allows. -/
def follow (next : State → Label → Option State) (guard : State → Label → Prop)
    [∀ s l, Decidable (guard s l)] : List Label → State → Option State
  | [], s => some s
  | l :: rest, s => if guard s l then (next s l).bind (follow next guard rest) else none

theorem follow_reach {sys : System State Label} {next : State → Label → Option State}
    {guard : State → Label → Prop} [∀ s l, Decidable (guard s l)]
    (steps : ∀ s l s', next s l = some s' → sys.step s l s') {labels : List Label} {s s' : State}
    (reached : Reach sys guard s) (followed : follow next guard labels s = some s') :
    Reach sys guard s' := by
  induction labels generalizing s with
  | nil =>
    rw [← Option.some.inj followed]
    exact reached
  | cons l rest ih =>
    rw [follow] at followed
    split at followed
    case isTrue allowed =>
      obtain ⟨middle, moved, later⟩ := Option.bind_eq_some_iff.mp followed
      exact ih (Reach.step reached allowed (steps s l middle moved)) later
    case isFalse => cases followed

end GuardedRun
