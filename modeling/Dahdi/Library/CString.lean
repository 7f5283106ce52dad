import Mathlib

/-!
Strings that end at the first nul of a buffer, and what copying one, copying one to the
end of another and moving the buffer down by one leave in it. A buffer that is written
past its end gets longer.
-/
namespace CString
variable {α : Type*} [DecidableEq α] {nul c : α} {size : Nat} {buf text more : List α}

/-- The string in a buffer. -/
def contents (nul : α) (buf : List α) : List α := buf.takeWhile fun c => decide (c ≠ nul)

/-- The data stored from a position on. -/
def store (buf : List α) (pos : Nat) (data : List α) : List α :=
  buf.take pos ++ data ++ buf.drop (pos + data.length)

def strcpy (nul : α) (buf src : List α) : List α := store buf 0 (src ++ [nul])

/-- strlcpy to a position, with so much room from there on. -/
def strlcpy (nul : α) (buf : List α) (pos : Nat) (src : List α) (room : Nat) : List α :=
  store buf pos (src.take (room - 1) ++ [nul])

/-- strncat of no more than so many characters. -/
def strncat (nul : α) (buf src : List α) (count : Nat) : List α :=
  if count = 0 then buf else store buf (contents nul buf).length (src.take count ++ [nul])

/-- memmove of all but the first element to the front. -/
def moveDown (buf : List α) : List α := store buf 0 (buf.drop 1)

structure Holds (nul : α) (size : Nat) (buf text : List α) : Prop where
  length : buf.length = size
  front : ∃ rest, buf = text ++ nul :: rest
  clear : nul ∉ text

theorem contents_clear (nul : α) (buf : List α) : nul ∉ contents nul buf := by
  intro member
  have other := List.mem_takeWhile_imp member
  exact of_decide_eq_true other rfl

theorem contents_front {rest : List α} (clear : nul ∉ text) :
    contents nul (text ++ nul :: rest) = text := by
  induction text with
  | nil => simp [contents]
  | cons c text ih =>
    rw [List.mem_cons, not_or] at clear
    obtain ⟨other, clear⟩ := clear
    have kept : decide (c ≠ nul) = true := decide_eq_true (Ne.symm other)
    rw [contents, List.cons_append, List.takeWhile_cons, if_pos kept]
    exact congrArg (List.cons c) (ih clear)

theorem holds_contents (holds : Holds nul size buf text) : contents nul buf = text := by
  obtain ⟨rest, rfl⟩ := holds.front
  exact contents_front holds.clear

theorem holds_short (holds : Holds nul size buf text) : text.length < size := by
  obtain ⟨rest, rfl⟩ := holds.front
  have length := holds.length
  rw [List.length_append, List.length_cons] at length
  omega

/-- What is stored behind a text and within the buffer is found there. -/
theorem holds_store {front data : List α} {rest : List α} (length : buf.length = size)
    (begins : buf = front ++ rest) (clear : nul ∉ front ++ data)
    (fits : (front ++ data).length < size) :
    Holds nul size (store buf front.length (data ++ [nul])) (front ++ data) := by
  rw [begins, List.length_append] at length
  rw [List.length_append] at fits
  constructor
  · rw [store, begins, List.length_append, List.length_append, List.length_take, List.length_drop,
      List.length_append, List.length_append, List.length_singleton]
    omega
  · rw [store, begins, List.take_left]
    exact ⟨rest.drop (data.length + 1), by simp⟩
  · exact clear

theorem holds_strcpy (length : buf.length = size) (clear : nul ∉ text) (fits : text.length < size) :
    Holds nul size (strcpy nul buf text) text :=
  @holds_store _ _ nul size buf [] text buf length rfl clear fits

theorem holds_strlcpy (holds : Holds nul size buf text) (clear : nul ∉ more)
    (fits : text.length + more.length < size) :
    Holds nul size (strlcpy nul buf text.length more (size - text.length)) (text ++ more) := by
  obtain ⟨rest, begins⟩ := holds.front
  have whole : more.take (size - text.length - 1) = more := List.take_of_length_le (by omega)
  rw [strlcpy, whole]
  apply holds_store holds.length begins
  · rw [List.mem_append]
    exact fun either => either.elim holds.clear clear
  · rw [List.length_append]
    exact fits

theorem store_length {buf data : List α} {pos : Nat} (inside : pos ≤ buf.length) :
    (store buf pos data).length = max buf.length (pos + data.length) := by
  rw [store, List.length_append, List.length_append, List.length_take, List.length_drop]
  omega

theorem holds_strncat {count : Nat} (holds : Holds nul size buf text) (clear : nul ∉ more) (some_ : 0 < count)
    (fits : text.length + (more.take count).length < size) :
    Holds nul size (strncat nul buf more count) (text ++ more.take count) := by
  obtain ⟨rest, begins⟩ := holds.front
  rw [strncat, if_neg (by omega), holds_contents holds]
  apply holds_store holds.length begins
  · rw [List.mem_append]
    exact fun either => either.elim holds.clear fun member => clear (List.mem_of_mem_take member)
  · rw [List.length_append]
    exact fits

/-- What does not fit behind the text and its nul is written past the end. -/
theorem strncat_past {count : Nat} (holds : Holds nul size buf text) (some_ : 0 < count)
    (past : size ≤ text.length + (more.take count).length) : size < (strncat nul buf more count).length := by
  have short := holds_short holds
  rw [strncat, if_neg (by omega), holds_contents holds, store_length (holds.length ▸ by omega),
    List.length_append, List.length_singleton]
  omega

theorem strncat_longer (buf more : List α) (count : Nat) : buf.length ≤ (strncat nul buf more count).length := by
  have inside : (contents nul buf).length ≤ buf.length := (List.takeWhile_prefix _).length_le
  rw [strncat]
  split
  case isTrue => exact Nat.le_refl _
  case isFalse =>
    rw [store_length inside]
    exact Nat.le_max_left _ _

theorem holds_moved (holds : Holds nul size buf (c :: text)) : Holds nul size (moveDown buf) text := by
  obtain ⟨rest, begins⟩ := holds.front
  have length := holds.length
  constructor
  · rw [moveDown, store, List.length_append, List.length_append, List.length_drop, List.length_take,
      List.length_drop]
    omega
  · have tail : buf.drop 1 = text ++ nul :: rest := by
      rw [begins]
      rfl
    rw [moveDown, store, tail, List.take_zero, List.nil_append, List.append_assoc, List.cons_append]
    exact ⟨_, rfl⟩
  · exact fun member => holds.clear (List.mem_cons_of_mem c member)

/-- A nul at the front leaves no text. -/
theorem holds_cut (length : buf.length = size) (some_ : 0 < size) :
    Holds nul size (store buf 0 [nul]) [] :=
  @holds_store _ _ nul size buf [] [] buf length rfl List.not_mem_nil some_

end CString
