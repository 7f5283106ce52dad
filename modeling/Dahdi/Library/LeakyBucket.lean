import Mathlib

/-!
A bucket that leaks at a steady rate, is filled only while its level is not above zero, and
now and then has a level below zero brought back to zero. Whatever the stretch of time, all that
was filled in but the last amount has room in what leaked.
-/
namespace LeakyBucket
variable {G : Type*} [AddCommGroup G] [LinearOrder G] [IsOrderedAddMonoid G]

inductive Event (G : Type*) where
  | leak | fill (amount : G) | level

def after (rate height : G) (e : Event G) : G :=
  match e with
  | .leak => height - rate
  | .fill amount => height + amount
  | .level => max height 0

def allowed (height : G) (e : Event G) : Prop :=
  match e with
  | .fill _ => height ≤ 0
  | .leak | .level => True

inductive Run (rate : G) : G → List (Event G) → G → Prop where
  | done (height : G) : Run rate height [] height
  | event {height end_ : G} {e : Event G} {rest : List (Event G)} :
      allowed height e → Run rate (after rate height e) rest end_ → Run rate height (e :: rest) end_

def fills : List (Event G) → List G
  | [] => []
  | .fill amount :: rest => amount :: fills rest
  | .leak :: rest | .level :: rest => fills rest

def leaks : List (Event G) → Nat
  | [] => 0
  | .leak :: rest => leaks rest + 1
  | .fill _ :: rest | .level :: rest => leaks rest

theorem fills_append (a b : List (Event G)) : fills (a ++ b) = fills a ++ fills b := by
  induction a with
  | nil => rfl
  | cons e rest ih => cases e <;> simp [fills, ih]

theorem leaks_append (a b : List (Event G)) : leaks (a ++ b) = leaks a + leaks b := by
  induction a with
  | nil => exact (Nat.zero_add _).symm
  | cons e rest ih => cases e <;> simp [leaks, ih, Nat.add_right_comm]

theorem Run.append {rate first second third : G} {a b : List (Event G)} (left : Run rate first a second)
    (right : Run rate second b third) : Run rate first (a ++ b) third := by
  induction left with
  | done => exact right
  | event fine _ ih => exact .event fine (ih right)

/-- What is filled in before the last amount, on top of what there was. -/
theorem filled_before_last {rate height end_ : G} {events : List (Event G)} (leaking : 0 ≤ rate)
    (run : Run rate height events end_) :
    fills events = [] ∨ height + (fills events).dropLast.sum ≤ leaks events • rate := by
  induction run with
  | done => exact .inl rfl
  | @event height end_ e rest fine later ih =>
    cases e with
    | leak =>
      rcases ih with none_ | bounded
      · exact .inl none_
      · right
        rw [after, sub_add_eq_add_sub, sub_le_iff_le_add] at bounded
        rwa [fills, leaks, succ_nsmul]
    | fill amount =>
      right
      have leaked : 0 ≤ leaks rest • rate := nsmul_nonneg leaking _
      rw [fills, leaks]
      cases next : fills rest with
      | nil =>
        rw [List.dropLast_singleton, List.sum_nil, add_zero]
        exact le_trans fine leaked
      | cons more others =>
        rw [next] at ih
        have bounded := ih.resolve_left (List.cons_ne_nil _ _)
        rwa [List.dropLast_cons₂, List.sum_cons, ← add_assoc]
    | level =>
      rcases ih with none_ | bounded
      · exact .inl none_
      · right
        exact le_trans (add_le_add_left (le_max_left height 0) _) bounded

/-- Over any stretch that begins at zero or above. -/
theorem filled_leaked {rate height end_ : G} {events : List (Event G)} (leaking : 0 ≤ rate)
    (run : Run rate height events end_) (above : 0 ≤ height) :
    (fills events).dropLast.sum ≤ leaks events • rate := by
  rcases filled_before_last leaking run with none_ | bounded
  · rw [none_]
    exact nsmul_nonneg leaking _
  · exact le_trans (le_add_of_nonneg_left above) bounded

end LeakyBucket
