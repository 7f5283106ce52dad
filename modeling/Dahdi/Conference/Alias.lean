import Dahdi.Library.InverseTables
import Dahdi.Conference.State

/-!
The alias tables: how a conference gets its alias and how it loses it.
-/
namespace Conference
open InverseTables

/-- The loop of dahdi_first_empty_alias. -/
def firstEmptyAliasFrom (confrev : Int → Int) : Nat → Int → Int
  | 0, _ => -1
  | left + 1, x => if confrev x = 0 then x else firstEmptyAliasFrom confrev left (x + 1)

def firstEmptyAlias (t : Tables) : Int := firstEmptyAliasFrom t.confrev (maxConf - 1).toNat 1

/-- The loop of dahdi_first_empty_conference, which counts down. -/
def firstEmptyConferenceFrom (confalias : Int → Int) : Nat → Int
  | 0 => -1
  | x + 1 =>
    if confalias (x + 1 : Nat) = 0 then (x + 1 : Nat) else firstEmptyConferenceFrom confalias x

def firstEmptyConference (t : Tables) : Int :=
  firstEmptyConferenceFrom t.confalias (maxConf - 1).toNat

/-- The loop of recalc_maxconfs, which counts down. -/
def maxconfsFrom (confrev : Int → Int) : Nat → Int
  | 0 => 0
  | x + 1 => if confrev (x + 1 : Nat) ≠ 0 then (x + 1 : Nat) + 1 else maxconfsFrom confrev x

def recalcMaxconfs (t : Tables) : Tables :=
  { t with maxconfs := maxconfsFrom t.confrev (maxConf - 1).toNat }

/-- dahdi_get_conf_alias -/
def getConfAlias (t : Tables) (x : Int) : Except Fault (Int × Tables) :=
  if ¬ inBounds x then .error .index
  else if t.confalias x ≠ 0 then .ok (t.confalias x, t)
  else
    let a := firstEmptyAlias t
    if ¬ inBounds a then .error .index
    else .ok (a, recalcMaxconfs { t with
      confalias := Function.update t.confalias x a
      confrev := Function.update t.confrev a x })

/-- "Return if there is no alias" of dahdi_check_conf. -/
def hasAlias (t : Tables) (x : Int) : Except Fault Bool :=
  if ¬ inBounds x then .error .index else .ok (decide (t.confalias x ≠ 0))

/-- _chan_in_conf -/
def chanInConf (c : Chan) (x : Int) : Bool := decide (c.confna = x) && isMixing c.confmode

/-- The walk of dahdi_check_conf over the channels, under chan_lock. -/
def anyInConf (s : State) (x : Int) : Bool :=
  s.registered.any fun a => chanInConf (s.chans a) x

/-- The end of dahdi_check_conf, after chan_lock has been released. -/
def clearAlias (t : Tables) (x : Int) : Except Fault Tables :=
  if ¬ inBounds x ∨ ¬ inBounds (t.confalias x) then .error .index
  else .ok (recalcMaxconfs { t with
    confrev := Function.update t.confrev (t.confalias x) 0
    confalias := Function.update t.confalias x 0 })

/-- dahdi_check_conf with nothing in between; it takes chan_lock itself. -/
def checkConf (s : State) (locked : Bool) (x : Int) : Except Fault State :=
  if x ≤ 0 then .ok s
  else
    match hasAlias s.tables x with
    | .error fault => .error fault
    | .ok false => .ok s
    | .ok true =>
      if locked then .error .deadlock
      else if anyInConf s x then .ok s
      else (clearAlias s.tables x).map fun t => setTables s t

/-- confalias and confrev are inverse to each other, within their arrays, and
    below maxconfs. -/
structure AliasOk (t : Tables) : Prop where
  inverse : Inverse t.confalias t.confrev
  conf : ∀ x, t.confalias x ≠ 0 → 1 ≤ x ∧ x ≤ maxConf
  back : ∀ a, t.confrev a ≠ 0 → 1 ≤ a ∧ a < maxConf
  highest : ∀ a, t.confrev a ≠ 0 → a < t.maxconfs

/-- An alias is left for one more conference. -/
def FreeAlias (t : Tables) : Prop := ∃ a, 1 ≤ a ∧ a < maxConf ∧ t.confrev a = 0

section Loops
variable {confrev : Int → Int}

theorem first_empty_alias_from {left : Nat} {x : Int} :
    (firstEmptyAliasFrom confrev left x = -1 ∧ ∀ a, x ≤ a → a < x + left → confrev a ≠ 0) ∨
      (x ≤ firstEmptyAliasFrom confrev left x ∧ firstEmptyAliasFrom confrev left x < x + left ∧
        confrev (firstEmptyAliasFrom confrev left x) = 0) := by
  induction left generalizing x with
  | zero => exact Or.inl ⟨rfl, fun a low high => by omega⟩
  | succ left ih =>
    unfold firstEmptyAliasFrom
    split
    · rename_i free
      exact Or.inr ⟨Int.le_refl x, by omega, free⟩
    · rename_i taken
      rcases ih (x := x + 1) with ⟨none, full⟩ | ⟨low, high, free⟩
      · refine Or.inl ⟨none, fun a above below => ?_⟩
        by_cases first : a = x
        · rw [first]
          exact taken
        · exact full a (by omega) (by omega)
      · exact Or.inr ⟨by omega, by omega, free⟩

theorem maxconfs_from (x : Nat) : ∀ a : Int, 1 ≤ a → a ≤ x → confrev a ≠ 0 → a < maxconfsFrom confrev x := by
  induction x with
  | zero =>
    intro a low high _
    omega
  | succ x ih =>
    intro a low high used
    unfold maxconfsFrom
    split
    · omega
    · rename_i unused
      have other : a ≠ (x + 1 : Nat) := by
        rintro rfl
        exact used (not_not.mp unused)
      exact ih a low (by omega) used

end Loops

section Tables
variable {t t' : Tables} {x a : Int}

theorem first_empty_alias (t : Tables) :
    (¬ FreeAlias t ∧ firstEmptyAlias t = -1) ∨ (FreeAlias t ∧ 1 ≤ firstEmptyAlias t ∧
      firstEmptyAlias t < maxConf ∧ t.confrev (firstEmptyAlias t) = 0) := by
  unfold firstEmptyAlias FreeAlias
  rcases @first_empty_alias_from t.confrev (maxConf - 1).toNat 1 with ⟨none, full⟩ | ⟨low, high, free⟩
  · refine Or.inl ⟨?_, none⟩
    rintro ⟨a, low, high, free⟩
    exact full a low (by omega) free
  · have below : firstEmptyAliasFrom t.confrev (maxConf - 1).toNat 1 < maxConf := by
      simp only [maxConf] at high ⊢
      omega
    exact Or.inr ⟨⟨_, low, below, free⟩, low, below, free⟩

theorem recalc_ok (inverse : Inverse t.confalias t.confrev)
    (conf : ∀ x, t.confalias x ≠ 0 → 1 ≤ x ∧ x ≤ maxConf)
    (back : ∀ a, t.confrev a ≠ 0 → 1 ≤ a ∧ a < maxConf) : AliasOk (recalcMaxconfs t) := by
  refine ⟨inverse, conf, back, fun a used => ?_⟩
  obtain ⟨low, high⟩ := back a used
  refine maxconfs_from _ a low ?_ used
  simp only [maxConf] at high ⊢
  omega

theorem alias_range (ok : AliasOk t) (used : t.confalias x ≠ 0) :
    1 ≤ t.confalias x ∧ t.confalias x < maxConf ∧ t.confrev (t.confalias x) = x := by
  obtain ⟨some, linked⟩ := inverse_entry ok.inverse used
  obtain ⟨low, high⟩ := ok.back (t.confalias x) (by rw [linked]; exact some)
  exact ⟨low, high, linked⟩

theorem alias_in_bounds (ok : AliasOk t) (x : Int) : inBounds (t.confalias x) := by
  by_cases used : t.confalias x = 0
  · rw [used]
    decide
  · obtain ⟨low, high, _⟩ := alias_range ok used
    exact ⟨by omega, by omega⟩

/-- dahdi_get_conf_alias on a conference number, whether or not it has an alias. -/
theorem get_alias_spec (ok : AliasOk t) (low : 1 ≤ x) (high : x ≤ maxConf) :
    (t.confalias x ≠ 0 ∧ getConfAlias t x = .ok (t.confalias x, t)) ∨
    (t.confalias x = 0 ∧ ¬ FreeAlias t ∧ getConfAlias t x = .error .index) ∨
    (t.confalias x = 0 ∧ ∃ a t', getConfAlias t x = .ok (a, t') ∧ 1 ≤ a ∧ a < maxConf ∧
      t.confrev a = 0 ∧ AliasOk t' ∧ t'.confalias = Function.update t.confalias x a ∧
      t'.confrev = Function.update t.confrev a x) := by
  have inside : inBounds x := ⟨by omega, high⟩
  unfold getConfAlias
  rw [if_neg (not_not.mpr inside)]
  by_cases used : t.confalias x = 0
  · right
    rw [if_neg (not_not.mpr used)]
    rcases first_empty_alias t with ⟨full, none⟩ | ⟨_, first, last, free⟩
    · left
      refine ⟨used, full, ?_⟩
      simp only [none]
      rfl
    · right
      have within : inBounds (firstEmptyAlias t) := ⟨by omega, by omega⟩
      simp only [if_neg (not_not.mpr within)]
      refine ⟨used, _, _, rfl, first, last, free, recalc_ok ?_ ?_ ?_, rfl, rfl⟩
      · exact inverse_link ok.inverse (by omega) (by omega) used free
      · intro y entry
        by_cases here : y = x
        · subst here
          exact ⟨low, high⟩
        · simp only [Function.update_of_ne here] at entry
          exact ok.conf y entry
      · intro b entry
        by_cases here : b = firstEmptyAlias t
        · subst here
          exact ⟨first, last⟩
        · simp only [Function.update_of_ne here] at entry
          exact ok.back b entry
  · exact Or.inl ⟨used, by rw [if_pos used]⟩

theorem clear_alias_spec (ok : AliasOk t) (inside : inBounds x) :
    ∃ t', clearAlias t x = .ok t' ∧ AliasOk t' ∧ t'.confalias = Function.update t.confalias x 0 ∧
      t'.confrev = Function.update t.confrev (t.confalias x) 0 := by
  unfold clearAlias
  have within := alias_in_bounds ok x
  rw [if_neg (by simp only [inside, within, not_true_eq_false, or_self, not_false_eq_true])]
  refine ⟨_, rfl, recalc_ok (inverse_unlink ok.inverse x) ?_ ?_, rfl, rfl⟩
  · intro y entry
    by_cases here : y = x
    · subst here
      simp at entry
    · simp only [Function.update_of_ne here] at entry
      exact ok.conf y entry
  · intro b entry
    by_cases here : b = t.confalias x
    · subst here
      simp at entry
    · simp only [Function.update_of_ne here] at entry
      exact ok.back b entry

end Tables

theorem in_conf_iff {c : Chan} {x : Int} :
    chanInConf c x = true ↔ c.confna = x ∧ isMixing c.confmode = true := by
  simp [chanInConf]

theorem in_conf_here {c : Chan} (mixing : isMixing c.confmode = true) :
    chanInConf c c.confna = true := in_conf_iff.mpr ⟨rfl, mixing⟩

/-- What a call of dahdi_check_conf does, or that it does not survive. -/
theorem check_conf_spec {s : State} {x : Int} (ok : AliasOk s.tables) (locked : Bool) :
    (¬ inBounds x ∧ 0 < x ∧ checkConf s locked x = .error .index) ∨
    (s.tables.confalias x ≠ 0 ∧ locked = true ∧ checkConf s locked x = .error .deadlock) ∨
    ((x ≤ 0 ∨ s.tables.confalias x = 0 ∨ locked = false ∧ anyInConf s x = true) ∧
      checkConf s locked x = .ok s) ∨
    (anyInConf s x = false ∧ s.tables.confalias x ≠ 0 ∧ ∃ t, clearAlias s.tables x = .ok t ∧
      checkConf s locked x = .ok (setTables s t) ∧ AliasOk t ∧
      t.confalias = Function.update s.tables.confalias x 0) := by
  unfold checkConf
  by_cases low : x ≤ 0
  · exact Or.inr (Or.inr (Or.inl ⟨Or.inl low, by rw [if_pos low]⟩))
  · rw [if_neg low]
    unfold hasAlias
    by_cases inside : inBounds x
    · simp only [if_neg (not_not.mpr inside)]
      by_cases used : s.tables.confalias x = 0
      · exact Or.inr (Or.inr (Or.inl ⟨Or.inr (Or.inl used), by simp [used]⟩))
      · right
        simp only [used, ne_eq, not_false_eq_true, decide_true]
        cases locked with
        | true => exact Or.inl ⟨trivial, rfl, rfl⟩
        | false =>
          right
          cases members : anyInConf s x with
          | true => exact Or.inl ⟨Or.inr (Or.inr ⟨rfl, rfl⟩), rfl⟩
          | false =>
            obtain ⟨t, cleared, ok', confalias, _⟩ := clear_alias_spec ok inside
            exact Or.inr ⟨rfl, trivial, t, cleared, by simp [cleared, Except.map], ok', confalias⟩
    · exact Or.inl ⟨inside, by omega, by simp [inside]⟩

end Conference
