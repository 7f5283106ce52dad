import Mathlib

/-!
A text cut at the first of a separator: what stands before it, and what stands behind it
when there is one. Cutting and joining are inverses while the front is clear of it.
-/
namespace CutText
variable {α : Type*} [DecidableEq α] {sep : α}

def cut (sep : α) : List α → List α × Option (List α)
  | [] => ([], none)
  | c :: text => if c = sep then ([], some text) else (c :: (cut sep text).1, (cut sep text).2)

def behind (sep : α) : Option (List α) → List α
  | none => []
  | some text => sep :: text

theorem cut_join (sep : α) (text : List α) :
    text = (cut sep text).1 ++ behind sep (cut sep text).2 := by
  induction text with
  | nil => rfl
  | cons c text ih =>
    rw [cut]
    split
    next here =>
      rw [here]
      rfl
    next => exact congrArg (List.cons c) ih

theorem cut_clear (sep : α) (text : List α) : sep ∉ (cut sep text).1 := by
  induction text with
  | nil => exact List.not_mem_nil
  | cons c text ih =>
    rw [cut]
    split
    next => exact List.not_mem_nil
    next other =>
      rw [List.mem_cons, not_or]
      exact ⟨Ne.symm other, ih⟩

theorem cut_behind {front : List α} (clear : sep ∉ front) (back : Option (List α)) :
    cut sep (front ++ behind sep back) = (front, back) := by
  induction front with
  | nil =>
    cases back with
    | none => rfl
    | some back => exact if_pos rfl
  | cons c front ih =>
    rw [List.mem_cons, not_or] at clear
    rw [List.cons_append, cut, if_neg (Ne.symm clear.1), ih clear.2]

theorem cut_iff {text front : List α} {back : Option (List α)} :
    cut sep text = (front, back) ↔ text = front ++ behind sep back ∧ sep ∉ front := by
  constructor
  · intro cuts
    have joined := cut_join sep text
    have clear := cut_clear sep text
    rw [cuts] at joined clear
    exact ⟨joined, clear⟩
  · rintro ⟨joined, clear⟩
    rw [joined]
    exact cut_behind clear back

/-- The text of these fields, with a separator before each but the first, and the rest. -/
def fields (sep : α) (rest : Option (List α)) : List (List α) → Option (List α)
  | [] => rest
  | field :: more => some (field ++ behind sep (fields sep rest more))

theorem fields_unique {rest rest' : Option (List α)} {texts texts' : List (List α)}
    (length : texts.length = texts'.length) (clear : ∀ text ∈ texts, sep ∉ text)
    (clear' : ∀ text ∈ texts', sep ∉ text) (same : fields sep rest texts = fields sep rest' texts') :
    texts = texts' ∧ rest = rest' := by
  induction texts generalizing texts' with
  | nil =>
    cases texts' with
    | nil => exact ⟨rfl, same⟩
    | cons text texts' => cases length
  | cons text texts ih =>
    cases texts' with
    | nil => cases length
    | cons text' texts' =>
      have joined := congrArg (cut sep) (Option.some.inj same)
      rw [cut_behind (clear text List.mem_cons_self), cut_behind (clear' text' List.mem_cons_self),
        Prod.mk.injEq] at joined
      obtain ⟨texts_, rest_⟩ := ih (Nat.succ.inj length)
        (fun field member => clear field (List.mem_cons_of_mem text member))
        (fun field member => clear' field (List.mem_cons_of_mem text' member)) joined.2
      rw [joined.1, texts_]
      exact ⟨rfl, rest_⟩

end CutText
