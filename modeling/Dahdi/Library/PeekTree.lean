import Mathlib.Data.List.Basic
import Mathlib.Tactic.Common

/-!
Functions that read a memory cell by cell, as trees that branch on what they read:
what such a function looks at, and what it makes of it.
-/
namespace PeekTree
variable {β α γ σ : Type}

inductive Peek (β α : Type) where
  | done (a : α)
  | look (i : Nat) (k : β → Peek β α)

def Peek.bind : Peek β α → (α → Peek β γ) → Peek β γ
  | .done a, f => f a
  | .look i k, f => .look i fun b => (k b).bind f

instance : Monad (Peek β) where
  pure := .done
  bind := Peek.bind

theorem done_right (m : Peek β α) : m.bind .done = m := by
  induction m with
  | done a => rfl
  | look i k ih => exact congrArg (Peek.look i) (funext ih)

theorem bind_twice (m : Peek β α) (f : α → Peek β γ) (g : γ → Peek β σ) :
    (m.bind f).bind g = m.bind fun a => (f a).bind g := by
  induction m with
  | done a => rfl
  | look i k ih => exact congrArg (Peek.look i) (funext ih)

instance : LawfulMonad (Peek β) :=
  LawfulMonad.mk' _ done_right (fun _ _ => rfl) bind_twice

def peek (i : Nat) : Peek β β := .look i .done

/-- The k cells from start on. -/
def peekMany (start : Nat) : Nat → Peek β (List β)
  | 0 => pure []
  | k + 1 => do
    let b ← peek start
    let rest ← peekMany (start + 1) k
    pure (b :: rest)

def run (mem : Nat → β) : Peek β α → α
  | .done a => a
  | .look i k => run mem (k (mem i))

/-- Every cell looked at lies before n. -/
def Inside (mem : Nat → β) (n : Nat) : Peek β α → Prop
  | .done _ => True
  | .look i k => i < n ∧ Inside mem n (k (mem i))

instance inside_decidable (mem : Nat → β) (n : Nat) : (m : Peek β α) → Decidable (Inside mem n m)
  | .done _ => isTrue trivial
  | .look i k =>
    have := inside_decidable mem n (k (mem i))
    inferInstanceAs (Decidable (i < n ∧ Inside mem n (k (mem i))))

section Rules
variable {mem mem' : Nat → β} {n n' : Nat} {m : Peek β α} {f : α → Peek β γ}

@[simp] theorem run_pure (a : α) : run mem (pure a : Peek β α) = a := rfl

@[simp] theorem run_peek (i : Nat) : run mem (peek i) = mem i := rfl

@[simp] theorem run_bind (m : Peek β α) (f : α → Peek β γ) :
    run mem (m >>= f) = run mem (f (run mem m)) := by
  induction m with
  | done a => rfl
  | look i k ih => exact ih (mem i)

@[simp] theorem run_ite {c : Prop} {_ : Decidable c} (m m' : Peek β α) :
    run mem (if c then m else m') = if c then run mem m else run mem m' := by
  split <;> rfl

@[simp] theorem inside_pure (a : α) : Inside mem n (pure a : Peek β α) := trivial

@[simp] theorem inside_peek (i : Nat) : Inside mem n (peek i) ↔ i < n := by
  simp [peek, Inside]

@[simp] theorem inside_bind (m : Peek β α) (f : α → Peek β γ) :
    Inside mem n (m >>= f) ↔ Inside mem n m ∧ Inside mem n (f (run mem m)) := by
  induction m with
  | done a => exact ⟨fun h => ⟨trivial, h⟩, fun h => h.2⟩
  | look i k ih =>
    have next := ih (mem i)
    constructor
    · intro h
      exact ⟨⟨h.1, (next.mp h.2).1⟩, (next.mp h.2).2⟩
    · intro h
      exact ⟨h.1.1, next.mpr ⟨h.1.2, h.2⟩⟩

@[simp] theorem inside_ite {c : Prop} {_ : Decidable c} (m m' : Peek β α) :
    Inside mem n (if c then m else m') ↔ if c then Inside mem n m else Inside mem n m' := by
  split <;> rfl

/-- What lies from n on does not matter to a function that looks before n only. -/
theorem inside_agree (inside : Inside mem n m) (same : ∀ i < n, mem i = mem' i) :
    run mem' m = run mem m ∧ Inside mem' n m := by
  induction m with
  | done a => exact ⟨rfl, trivial⟩
  | look i k ih =>
    have cell := same i inside.1
    have rest := ih (mem i) inside.2
    constructor
    · rw [run, run, ← cell]
      exact rest.1
    · rw [Inside, ← cell]
      exact ⟨inside.1, rest.2⟩

end Rules

section Many
variable {mem : Nat → β} {n : Nat}

theorem run_peekMany (start k : Nat) :
    run mem (peekMany start k) = (List.range k).map fun j => mem (start + j) := by
  induction k generalizing start with
  | zero => rfl
  | succ k ih =>
    rw [peekMany, run_bind, run_bind, ih, List.range_succ_eq_map, List.map_cons, List.map_map]
    apply congrArg (mem start :: ·)
    apply List.map_congr_left
    intro j _
    exact congrArg mem (by simp only [Nat.succ_eq_add_one]; omega)

@[simp] theorem inside_peekMany (start k : Nat) :
    Inside mem n (peekMany start k) ↔ k = 0 ∨ start + k ≤ n := by
  induction k generalizing start with
  | zero => simp [peekMany]
  | succ k ih =>
    simp only [peekMany, inside_bind, inside_peek, inside_pure, ih, and_true]
    omega

end Many

section Loops
variable {mem : Nat → β} {n : Nat} (f : σ → Nat → Peek β σ) (s : σ)

/-- A loop over the numbers before k. -/
def loop (k : Nat) : Peek β σ := (List.range k).foldlM f s

theorem loop_succ (k : Nat) : loop f s (k + 1) = loop f s k >>= fun s' => f s' k := by
  rw [loop, List.range_succ, List.foldlM_append]
  simp only [List.foldlM_cons, List.foldlM_nil, bind_pure]
  rfl

theorem run_loop (k : Nat) :
    run mem (loop f s k) = (List.range k).foldl (fun s' i => run mem (f s' i)) s := by
  induction k with
  | zero => rfl
  | succ k ih =>
    rw [loop_succ, run_bind, ih, List.range_succ, List.foldl_append, List.foldl_cons, List.foldl_nil]

/-- A loop looks where its turns look. -/
theorem inside_loop (k : Nat) :
    Inside mem n (loop f s k) ↔ ∀ i < k, Inside mem n (f (run mem (loop f s i)) i) := by
  induction k with
  | zero => simp [loop]
  | succ k ih =>
    rw [loop_succ, inside_bind, ih]
    constructor
    · intro h i before
      by_cases last : i = k
      · rw [last]
        exact h.2
      · exact h.1 i (by omega)
    · intro h
      exact ⟨fun i before => h i (by omega), h k (by omega)⟩

end Loops
end PeekTree
