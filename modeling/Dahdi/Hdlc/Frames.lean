import Dahdi.Hdlc.Link

/-!
From results to frames: bytes gather until a COMPLETE makes a frame of them.
-/
namespace HdlcFrames
open Fasthdlc FasthdlcLink

/-- Frames completed so far and the bytes since the last COMPLETE. -/
abbrev Collected := List (List Octet) × List Octet

def collectStep (c : Collected) : RxResult → Collected
  | .empty => c
  | .complete => if c.2 = [] then c else (c.1 ++ [c.2], [])
  | .discard => (c.1, [])
  | .data y => (c.1, c.2 ++ [y])

def collect (results : List RxResult) : Collected := results.foldl collectStep ([], [])

/-- Whole frames in order, then the beginning of the next one. -/
def Follows (c : Collected) (frames : List (List Octet)) : Prop :=
  c.1 <+: frames ∧ (c.2 = [] ∨ ∃ f, frames[c.1.length]? = some f ∧ c.2 <+: f)

theorem follows_back {c : Collected} {r : RxResult} {frames : List (List Octet)}
    (kept : r ≠ .discard) (after : Follows (collectStep c r) frames) : Follows c frames := by
  obtain ⟨done, cur⟩ := c
  cases r with
  | empty => exact after
  | discard => exact absurd rfl kept
  | complete =>
    simp only [collectStep] at after
    split at after
    · exact after
    · obtain ⟨⟨rest, whole⟩, _⟩ := after
      refine ⟨⟨cur :: rest, by simpa using whole⟩, Or.inr ⟨cur, ?_, List.prefix_rfl⟩⟩
      rw [← whole]
      simp
  | data y =>
    obtain ⟨whole, started⟩ := after
    refine ⟨whole, Or.inr ?_⟩
    rcases started with none | ⟨f, here, front⟩
    · simp [collectStep] at none
    · exact ⟨f, here, (List.prefix_append cur [y]).trans front⟩

theorem follows_symbols {c : Collected} {syms : List Sym} {frames : List (List Octet)}
    (after : Follows ((syms.map resultOf).foldl collectStep c) frames) : Follows c frames := by
  induction syms generalizing c with
  | nil => exact after
  | cons s syms ih => exact follows_back (by cases s <;> simp [resultOf]) (ih after)

def collectSyms (c : Collected) (syms : List Sym) : Collected :=
  (syms.map resultOf).foldl collectStep c

theorem collect_syms_append (c : Collected) (front back : List Sym) :
    collectSyms c (front ++ back) = collectSyms (collectSyms c front) back := by
  simp only [collectSyms, List.map_append, List.foldl_append]

/-- After the script: everything but the last idle flags completes the frames. -/
def Settling (c : Collected) (syms : List Sym) (frames : List (List Octet)) (flags : Nat) : Prop :=
  ∃ front j, syms = front ++ List.replicate j .flag ∧ (front ≠ [] → flags ≤ j) ∧
    collectSyms c front = (frames, [])

/-- One step of the receiver either leaves the symbols alone or takes the first. -/
theorem decoded_collect {state state' : Nat} {syms left : List Sym} {r : RxResult} {c : Collected}
    (decoded : Decoded state state' syms r left) (fresh : state = 0 → c = ([], [])) :
    left = syms ∧ collectStep c r = c ∨
      ∃ s, syms = s :: left ∧ collectStep c r = collectStep c (resultOf s) := by
  cases decoded with
  | waiting => exact Or.inl ⟨rfl, rfl⟩
  | opening =>
    rw [fresh rfl]
    exact Or.inr ⟨.flag, rfl, rfl⟩
  | symbol s => exact Or.inr ⟨s, rfl, rfl⟩

theorem settling_first {c : Collected} {s : Sym} {left : List Sym} {frames : List (List Octet)}
    {flags : Nat} (settling : Settling c (s :: left) frames flags) :
    Settling (collectStep c (resultOf s)) left frames flags := by
  obtain ⟨front, j, syms, enough, whole⟩ := settling
  cases front with
  | nil =>
    obtain ⟨j, rfl⟩ : ∃ i, j = i + 1 := by
      cases j with
      | zero => simp at syms
      | succ j => exact ⟨j, rfl⟩
    simp only [List.nil_append, List.replicate_succ, List.cons.injEq] at syms
    obtain ⟨rfl, rfl⟩ := syms
    obtain rfl : c = (frames, []) := whole
    exact ⟨[], j, rfl, by simp, rfl⟩
  | cons head front =>
    simp only [List.cons_append, List.cons.injEq] at syms
    obtain ⟨rfl, rfl⟩ := syms
    exact ⟨front, j, rfl, fun _ => enough (by simp), whole⟩

theorem fresh_decoded {state state' : Nat} {syms left : List Sym} {r : RxResult} {c : Collected}
    (decoded : Decoded state state' syms r left) (fresh : state = 0 → c = ([], [])) :
    state' = 0 → collectStep c r = ([], []) := by
  intro searching
  cases decoded with
  | waiting => exact fresh searching
  | opening => exact absurd searching Nat.one_ne_zero
  | symbol => exact absurd searching Nat.one_ne_zero

theorem decoded_keeps {state state' : Nat} {syms left : List Sym} {r : RxResult}
    (decoded : Decoded state state' syms r left) : r ≠ .discard := by
  cases decoded with
  | waiting => simp
  | opening => simp
  | symbol s => cases s <;> simp [resultOf]

theorem decoded_extend {state state' : Nat} {syms left : List Sym} {r : RxResult}
    (decoded : Decoded state state' syms r left) (more : List Sym) :
    Decoded state state' (syms ++ more) r (left ++ more) := by
  cases decoded with
  | waiting => exact .waiting state (syms ++ more)
  | opening => exact .opening (left ++ more)
  | symbol s => exact .symbol s (left ++ more)

end HdlcFrames
