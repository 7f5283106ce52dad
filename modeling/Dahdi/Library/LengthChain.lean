import Mathlib.Data.List.Basic
import Mathlib.Tactic.Common

/-!
Pieces that carry their own length, one after the other: a walk over them that
examines a piece before it goes on behind it.
-/
namespace LengthChain
variable {γ ε : Type}

structure Cut (γ : Type) where
  start : Nat
  len : Nat
  content : γ

section Walk
variable (lenAt : Nat → Nat) (stop : Nat) (examine : Nat → Nat → Except ε γ)

/-- From piece n at p on. The walk ends with the first piece refused, or at stop. -/
def walk : Nat → Nat → Nat → Option (Option ε × List (Cut γ))
  | 0, _, _ => none
  | fuel + 1, n, p =>
    match examine n p with
    | .error e => some (some e, [])
    | .ok content =>
      let cut := ⟨p, lenAt p, content⟩
      if p + lenAt p < stop then
        (walk fuel (n + 1) (p + lenAt p)).map fun rest => (rest.1, cut :: rest.2)
      else some (none, [cut])

end Walk

/-- Piece n begins at p, and each one before it is let through. -/
inductive Reached (lenAt : Nat → Nat) (stop : Nat) (through : Nat → Nat → Prop) : Nat → Nat → Prop where
  | first : Reached lenAt stop through 0 0
  | next {n p : Nat} : Reached lenAt stop through n p → through n p → p + lenAt p < stop →
      Reached lenAt stop through (n + 1) (p + lenAt p)


/-- The cuts lie one behind the other and fill what is between two places. -/
def Tiles : Nat → List (Cut γ) → Nat → Prop
  | p, [], q => p = q
  | p, cut :: cuts, q => cut.start = p ∧ 0 < cut.len ∧ Tiles (p + cut.len) cuts q

section Tiling
variable {cuts : List (Cut γ)} {p q : Nat}

theorem tiles_le (tiles : Tiles p cuts q) : p ≤ q := by
  induction cuts generalizing p with
  | nil => exact Nat.le_of_eq tiles
  | cons cut cuts ih =>
    have := ih tiles.2.2
    omega

theorem tiles_within (tiles : Tiles p cuts q) {cut : Cut γ} (mem : cut ∈ cuts) :
    p ≤ cut.start ∧ cut.start + cut.len ≤ q := by
  induction cuts generalizing p with
  | nil => cases mem
  | cons head cuts ih =>
    have := tiles.1
    rcases List.mem_cons.mp mem with first | later
    · subst first
      have := tiles_le tiles.2.2
      omega
    · have := ih tiles.2.2 later
      omega

/-- Of two cuts one ends before the other begins. -/
theorem tiles_apart (tiles : Tiles p cuts q) :
    cuts.Pairwise fun first later => first.start + first.len ≤ later.start := by
  induction cuts generalizing p with
  | nil => exact List.Pairwise.nil
  | cons head cuts ih =>
    apply List.Pairwise.cons
    · intro later mem
      have := (tiles_within tiles.2.2 mem).1
      rw [tiles.1]
      exact this
    · exact ih tiles.2.2

end Tiling

section Runs
variable {lenAt : Nat → Nat} {stop : Nat} {examine : Nat → Nat → Except ε γ} {through : Nat → Nat → Prop}

/-- Every piece let through has a length and ends before stop. -/
structure Examined (lenAt : Nat → Nat) (stop : Nat) (examine : Nat → Nat → Except ε γ)
    (through : Nat → Nat → Prop) : Prop where
  same : ∀ n p, through n p ↔ ∃ content, examine n p = .ok content
  long : ∀ {n p}, through n p → 0 < lenAt p
  fits : ∀ {n p}, through n p → p + lenAt p ≤ stop

theorem examined_through (ok : Examined lenAt stop examine through) {n p : Nat} {content : γ}
    (seen : examine n p = .ok content) : through n p := (ok.same n p).mpr ⟨content, seen⟩

theorem walk_ends (ok : Examined lenAt stop examine through) (n p : Nat) :
    ∃ walked, ∀ fuel, stop - p < fuel → walk lenAt stop examine fuel n p = some walked := by
  obtain ⟨left, eq⟩ : ∃ left, stop - p = left := ⟨_, rfl⟩
  induction left using Nat.strongRecOn generalizing n p with
  | _ left ih =>
    cases seen : examine n p with
    | error e =>
      refine ⟨(some e, []), fun fuel enough => ?_⟩
      cases fuel with
      | zero => omega
      | succ fuel => simp only [walk, seen]
    | ok content =>
      have long := ok.long (examined_through ok seen)
      by_cases more : p + lenAt p < stop
      · obtain ⟨rest, goes⟩ := ih (stop - (p + lenAt p)) (by omega) (n + 1) (p + lenAt p) rfl
        refine ⟨(rest.1, ⟨p, lenAt p, content⟩ :: rest.2), fun fuel enough => ?_⟩
        cases fuel with
        | zero => omega
        | succ fuel => simp only [walk, seen, if_pos more, goes fuel (by omega), Option.map_some]
      · refine ⟨(none, [⟨p, lenAt p, content⟩]), fun fuel enough => ?_⟩
        cases fuel with
        | zero => omega
        | succ fuel => simp only [walk, seen, if_neg more]

/-- What one turn of the walk does. -/
theorem walk_cases {fuel n p : Nat} {walked : Option ε × List (Cut γ)}
    (done : walk lenAt stop examine fuel n p = some walked) :
    (∃ e, examine n p = .error e ∧ walked = (some e, [])) ∨
    (∃ content, examine n p = .ok content ∧ ¬ p + lenAt p < stop ∧
      walked = (none, [⟨p, lenAt p, content⟩])) ∨
    (∃ content less rest, examine n p = .ok content ∧ p + lenAt p < stop ∧ fuel = less + 1 ∧
      walk lenAt stop examine less (n + 1) (p + lenAt p) = some rest ∧
      walked = (rest.1, ⟨p, lenAt p, content⟩ :: rest.2)) := by
  cases fuel with
  | zero => cases done
  | succ fuel =>
    rw [walk] at done
    cases seen : examine n p with
    | error e =>
      rw [seen] at done
      exact .inl ⟨e, rfl, (Option.some.inj done).symm⟩
    | ok content =>
      rw [seen] at done
      dsimp only at done
      by_cases more : p + lenAt p < stop
      · rw [if_pos more, Option.map_eq_some_iff] at done
        obtain ⟨rest, goes, eq⟩ := done
        exact .inr (.inr ⟨content, fuel, rest, rfl, more, rfl, goes, eq.symm⟩)
      · rw [if_neg more] at done
        exact .inr (.inl ⟨content, rfl, more, (Option.some.inj done).symm⟩)

theorem walk_tiles (ok : Examined lenAt stop examine through) {fuel n p : Nat} (before : p ≤ stop)
    {walked : Option ε × List (Cut γ)} (done : walk lenAt stop examine fuel n p = some walked) :
    ∃ q ≤ stop, Tiles p walked.2 q := by
  induction fuel generalizing n p walked with
  | zero => cases done
  | succ fuel ih =>
    obtain ⟨e, _, eq⟩ | ⟨content, seen, _, eq⟩ | ⟨content, less, rest, seen, more, fuel_, goes, eq⟩ :=
      walk_cases done
    · subst eq
      exact ⟨p, before, rfl⟩
    · subst eq
      exact ⟨p + lenAt p, ok.fits (examined_through ok seen), rfl, ok.long (examined_through ok seen), rfl⟩
    · subst eq
      cases fuel_
      obtain ⟨q, le, tiles⟩ := ih (by omega) goes
      exact ⟨q, le, rfl, ok.long (examined_through ok seen), tiles⟩

/-- The pieces cut are the ones reached and let through. -/
theorem walk_mem (ok : Examined lenAt stop examine through) {fuel n p : Nat} {walked : Option ε × List (Cut γ)}
    (done : walk lenAt stop examine fuel n p = some walked) (reached : Reached lenAt stop through n p)
    {cut : Cut γ} (mem : cut ∈ walked.2) :
    ∃ m, Reached lenAt stop through m cut.start ∧ examine m cut.start = .ok cut.content ∧
      cut.len = lenAt cut.start := by
  induction fuel generalizing n p walked with
  | zero => cases done
  | succ fuel ih =>
    obtain ⟨e, _, eq⟩ | ⟨content, seen, _, eq⟩ | ⟨content, less, rest, seen, more, fuel_, goes, eq⟩ :=
      walk_cases done
    · subst eq
      cases mem
    · subst eq
      rw [List.mem_singleton] at mem
      subst mem
      exact ⟨n, reached, seen, rfl⟩
    · subst eq
      cases fuel_
      rcases List.mem_cons.mp mem with first | later
      · subst first
        exact ⟨n, reached, seen, rfl⟩
      · exact ih goes (.next reached (examined_through ok seen) more) later

/-- The walk from the start gets to every piece reached. -/
theorem walk_reaches (ok : Examined lenAt stop examine through) {m p : Nat} {content : γ}
    (reached : Reached lenAt stop through m p) (seen : examine m p = .ok content)
    {walked : Option ε × List (Cut γ)}
    (done : ∀ fuel, stop < fuel → walk lenAt stop examine fuel 0 0 = some walked) :
    ⟨p, lenAt p, content⟩ ∈ walked.2 := by
  have later : ∃ front rest, (∀ fuel, stop - p < fuel → walk lenAt stop examine fuel m p = some rest) ∧
      walked.2 = front ++ rest.2 := by
    clear seen
    induction reached with
    | first => exact ⟨[], walked, done, rfl⟩
    | @next n p reached passed more ih =>
      obtain ⟨front, rest, goes, split_⟩ := ih
      have long := ok.long passed
      obtain ⟨content, seen⟩ := (ok.same n p).mp passed
      obtain ⟨rest', goes'⟩ := walk_ends ok (n + 1) (p + lenAt p)
      have turn := goes (stop - p + 1) (by omega)
      rw [walk, seen] at turn
      dsimp only at turn
      rw [if_pos more, goes' (stop - p) (by omega), Option.map_some, Option.some.injEq] at turn
      refine ⟨front ++ [⟨p, lenAt p, content⟩], rest', goes', ?_⟩
      rw [split_, ← turn, List.append_assoc, List.singleton_append]
  obtain ⟨front, rest, goes, split_⟩ := later
  rw [split_]
  apply List.mem_append_right
  obtain ⟨e, refused, _⟩ | ⟨content', seen', _, eq⟩ | ⟨content', less, rest', seen', _, _, _, eq⟩ :=
    walk_cases (goes (stop - p + 1) (by omega))
  · rw [seen] at refused
    cases refused
  · rw [seen] at seen'
    cases seen'
    rw [eq]
    exact List.mem_singleton_self _
  · rw [seen] at seen'
    cases seen'
    rw [eq]
    exact List.mem_cons_self

end Runs
end LengthChain
