import Dahdi.Library.GuardedRun
import Dahdi.Conference.Alias
import Dahdi.Conference.Tick

/-!
Conference links, which a build with CONFIG_DAHDI_CONFLINK has: the slots of conf_links,
how DAHDI_CONFLINK fills and clears them, and what dahdi_check_conf does to them when a
conference goes.
-/
namespace Conflink
open Conference

section Slots

structure Link where
  src : Int
  dst : Int
  deriving DecidableEq

def vacant : Link := ⟨0, 0⟩

/-- The loop that looks for a slot, from slot i on. -/
def findLink (p : Link → Bool) (links : Int → Link) : Nat → Int → Option Int
  | 0, _ => none
  | left + 1, i => if p (links i) then some i else findLink p links left (i + 1)

def findSlot (p : Link → Bool) (links : Int → Link) : Option Int := findLink p links maxConf.toNat 1

/-- The loop of recalc_maxlinks, which counts down. -/
def maxlinksFrom (links : Int → Link) : Nat → Int
  | 0 => 0
  | x + 1 =>
    if (links (x + 1 : Nat)).src ≠ 0 ∨ (links (x + 1 : Nat)).dst ≠ 0 then (x + 1 : Nat) + 1
    else maxlinksFrom links x

structure Conf where
  conf : State
  links : Int → Link
  maxlinks : Int

def recalcMaxlinks (l : Conf) : Conf := { l with maxlinks := maxlinksFrom l.links (maxConf - 1).toNat }

def unlinkEnds (x : Int) (link : Link) : Link :=
  ⟨if link.src = x then 0 else link.src, if link.dst = x then 0 else link.dst⟩

def unlinkConf (links : Int → Link) (x : Int) : Int → Link :=
  fun i => if 0 < i ∧ i ≤ maxConf - 1 then unlinkEnds x (links i) else links i

/-- dahdi_check_conf, with the links. -/
def checkConfLinks (l : Conf) (x : Int) : Except Fault Conf :=
  if x ≤ 0 then .ok l
  else
    match hasAlias l.conf.tables x with
    | .error fault => .error fault
    | .ok false => .ok l
    | .ok true =>
      if anyInConf l.conf x then .ok l
      else (clearAlias l.conf.tables x).map fun t =>
        recalcMaxlinks { l with conf := setTables l.conf t, links := unlinkConf l.links x }

end Slots

section Ioctl

/-- struct dahdi_confinfo of DAHDI_CONFLINK. -/
structure LinkReq where
  chan : Int
  confno : Int
  confmode : Confmode

def EINVAL : Int := 22
def EEXIST : Int := 17
def ENOSPC : Int := 28
def ENOENT : Int := 2

def saneReq (audio : Bool) (req : LinkReq) : Bool :=
  audio && 0 ≤ req.chan && req.chan ≤ maxConf && 0 ≤ req.confno && req.confno ≤ maxConf &&
    !(req.chan ≠ 0 && req.chan = req.confno)

def isLink (req : LinkReq) (link : Link) : Bool := link.src = req.chan && link.dst = req.confno

def isEmpty (link : Link) : Bool := link.src = 0 && link.dst = 0

/-- What becomes of the slots, but for the request to clear all links. -/
def changeLinks (l : Conf) (req : LinkReq) : Int × Conf :=
  match findSlot (isLink req) l.links with
  | some i =>
    if req.confmode = 0 then (0, { l with links := Function.update l.links i vacant }) else (-EEXIST, l)
  | none =>
    if req.confmode ≠ 0 then
      match findSlot isEmpty l.links with
      | some i => (0, { l with links := Function.update l.links i ⟨req.chan, req.confno⟩ })
      | none => (-ENOSPC, l)
    else (-ENOENT, l)

/-- dahdi_ioctl_conflink -/
def ioctlConflink (l : Conf) (audio : Bool) (req : LinkReq) : Int × Conf :=
  if !saneReq audio req then (-EINVAL, l)
  else if req.chan = 0 ∧ req.confno = 0 then (0, recalcMaxlinks { l with links := fun _ => vacant })
  else
    let done := changeLinks l req
    (done.1, recalcMaxlinks done.2)

end Ioctl

section Tick

/-- The turn of _process_masterspan for a slot. -/
def mixLink (l : Conf) (sums : Int → Chunk) (x : Int) : Int → Chunk :=
  let z := l.conf.tables.confalias (l.links x).dst
  let y := l.conf.tables.confalias (l.links x).src
  if z ≠ 0 ∧ y ≠ 0 then Function.update sums z (acss (sums z) (sums y)) else sums

/-- The slots that the tick looks at. -/
def tickSlots (l : Conf) : List Int :=
  if l.maxlinks ≠ 0 then (List.range l.maxlinks.toNat).map fun k : Nat => (k : Int) + 1 else []

def mixLinks (l : Conf) : Int → Chunk := (tickSlots l).foldl (mixLink l) l.conf.sums.cur

end Tick

section Runs

inductive Op where
  | getConfAlias (x : Int)
  | members (conf : State)
  | checkConf (x : Int)
  | conflink (audio : Bool) (req : LinkReq)

def Existing (l : Conf) (x : Int) : Prop := l.conf.tables.confalias x ≠ 0

def Step (l : Conf) : Op → Conf → Prop
  | .getConfAlias x, l' => 1 ≤ x ∧ x ≤ maxConf ∧ ∃ a t, getConfAlias l.conf.tables x = .ok (a, t) ∧
      l' = { l with conf := setTables l.conf t }
  | .members conf, l' => conf.tables = l.conf.tables ∧ l' = { l with conf := conf }
  | .checkConf x, l' => checkConfLinks l x = .ok l'
  | .conflink audio req, l' => l' = (ioctlConflink l audio req).2

def noTables : Tables := ⟨fun _ => 0, fun _ => 0, 0⟩

def Start (l : Conf) : Prop := l.conf.tables = noTables ∧ (∀ i, l.links i = vacant) ∧ l.maxlinks = 0

def sys : GuardedRun.System Conf Op := ⟨Start, Step⟩

def Slot (i : Int) : Prop := 1 ≤ i ∧ i ≤ maxConf

/-- Every slot is empty or links two conferences, and is one that the tick gets to. -/
structure Good (l : Conf) : Prop where
  linked : ∀ i, Slot i → l.links i = vacant ∨ (Existing l (l.links i).src ∧ Existing l (l.links i).dst)
  below : ∀ i, Slot i → l.links i ≠ vacant → i < l.maxlinks

/-- Nothing is left of a conference that goes. -/
def Forgotten (l : Conf) (x : Int) (l' : Conf) : Prop :=
  ∀ i, Slot i → (l'.links i).src ≠ x ∧ (l'.links i).dst ≠ x ∧
    ((l.links i).src = x ∨ (l.links i).dst = x → l'.links i = vacant)

/-- Whether dahdi_check_conf destroys the conference. -/
def Destroys (l : Conf) (x : Int) : Prop := 0 < x ∧ Existing l x ∧ anyInConf l.conf x = false

/-- The slot that a request to link fills. -/
def addedAt (l : Conf) (audio : Bool) (req : LinkReq) : Option Int :=
  if saneReq audio req ∧ ¬ (req.chan = 0 ∧ req.confno = 0) ∧ findSlot (isLink req) l.links = none ∧
    req.confmode ≠ 0 then findSlot isEmpty l.links
  else none

/-- A link added joins two conferences and leaves the last slot alone, and no conference
    goes while it is linked. -/
def Fair (l : Conf) : Op → Prop
  | .checkConf x => Destroys l x → ∀ i, Slot i → (l.links i).src ≠ x ∧ (l.links i).dst ≠ x
  | .conflink audio req =>
    ∀ i, addedAt l audio req = some i → i < maxConf ∧ Existing l req.chan ∧ Existing l req.confno
  | _ => True

end Runs

section Loops
variable {p : Link → Bool} {links : Int → Link} {x : Nat}

theorem vacant_iff {link : Link} : link = vacant ↔ link.src = 0 ∧ link.dst = 0 := by
  cases link
  simp [vacant]

theorem is_empty_iff {link : Link} : isEmpty link = true ↔ link = vacant := by
  simp [isEmpty, vacant_iff]

theorem find_link {left : Nat} {i j : Int} (found : findLink p links left i = some j) :
    i ≤ j ∧ j < i + left ∧ p (links j) = true := by
  induction left generalizing i with
  | zero => cases found
  | succ left ih =>
    rw [findLink] at found
    split at found
    next here =>
      cases found
      exact ⟨Int.le_refl _, by omega, here⟩
    next =>
      obtain ⟨low, high, matched⟩ := ih found
      exact ⟨by omega, by omega, matched⟩

theorem find_slot {j : Int} (found : findSlot p links = some j) : Slot j ∧ p (links j) = true := by
  obtain ⟨low, high, matched⟩ := find_link found
  refine ⟨⟨low, ?_⟩, matched⟩
  unfold maxConf at high ⊢
  omega

theorem maxlinks_above : ∀ i : Int, 1 ≤ i → i ≤ x → links i ≠ vacant → i < maxlinksFrom links x := by
  induction x with
  | zero =>
    intro i low high _
    omega
  | succ x ih =>
    intro i low high used
    rw [maxlinksFrom]
    split
    · omega
    next none_ =>
      have other : i ≠ (x + 1 : Nat) := by
        intro same
        apply used
        rw [same]
        rw [vacant_iff]
        exact ⟨not_not.mp (not_or.mp none_).1, not_not.mp (not_or.mp none_).2⟩
      exact ih i low (by omega) used

theorem maxlinks_le : maxlinksFrom links x ≤ x + 1 := by
  induction x with
  | zero => exact Int.zero_le_ofNat _
  | succ x ih =>
    rw [maxlinksFrom]
    split <;> omega

end Loops

section Steps
variable {l l' : Conf} {x : Int} {audio : Bool} {req : LinkReq}

/-- The three things that dahdi_check_conf can do. -/
theorem check_links_cases (ok : AliasOk l.conf.tables) (done : checkConfLinks l x = .ok l') :
    (¬ Destroys l x ∧ l' = l) ∨
    (Destroys l x ∧ ∃ t, AliasOk t ∧ t.confalias = Function.update l.conf.tables.confalias x 0 ∧
      l' = recalcMaxlinks { l with conf := setTables l.conf t, links := unlinkConf l.links x }) := by
  unfold checkConfLinks hasAlias at done
  by_cases low : x ≤ 0
  · rw [if_pos low] at done
    cases done
    exact .inl ⟨fun gone => absurd gone.1 (by omega), rfl⟩
  · rw [if_neg low] at done
    by_cases inside : inBounds x
    · rw [if_neg (not_not.mpr inside)] at done
      by_cases used : l.conf.tables.confalias x = 0
      · simp only [used, ne_eq, not_true_eq_false, decide_false] at done
        cases done
        exact .inl ⟨fun gone => gone.2.1 used, rfl⟩
      · simp only [used, ne_eq, not_false_eq_true, decide_true] at done
        cases members : anyInConf l.conf x with
        | true =>
          rw [members, if_pos rfl] at done
          cases done
          refine .inl ⟨fun gone => ?_, rfl⟩
          rw [gone.2.2] at members
          cases members
        | false =>
          rw [members, if_neg Bool.false_ne_true] at done
          obtain ⟨t, cleared, ok', confalias, _⟩ := clear_alias_spec ok inside
          rw [cleared] at done
          cases done
          exact .inr ⟨⟨by omega, used, members⟩, t, ok', confalias, rfl⟩
    · rw [if_pos inside] at done
      cases done

/-- With the links left aside dahdi_check_conf is as it is without them. -/
theorem check_links_conf (l : Conf) (x : Int) :
    (checkConfLinks l x).map (·.conf) = checkConf l.conf false x := by
  unfold checkConfLinks checkConf
  by_cases low : x ≤ 0
  · rw [if_pos low, if_pos low]
    rfl
  · rw [if_neg low, if_neg low]
    cases hasAlias l.conf.tables x with
    | error fault => rfl
    | ok used =>
      cases used with
      | false => rfl
      | true =>
        dsimp only
        rw [if_neg Bool.false_ne_true]
        split
        · rfl
        · cases clearAlias l.conf.tables x <;> rfl

/-- What DAHDI_CONFLINK does to the slots. -/
theorem conflink_cases (l : Conf) (audio : Bool) (req : LinkReq) :
    (addedAt l audio req = none ∧ (ioctlConflink l audio req).2 = l) ∨
    (addedAt l audio req = none ∧ (ioctlConflink l audio req).2 =
      recalcMaxlinks { l with links := fun _ => vacant }) ∨
    (addedAt l audio req = none ∧ (ioctlConflink l audio req).2 = recalcMaxlinks l) ∨
    (addedAt l audio req = none ∧ ∃ i, Slot i ∧ (ioctlConflink l audio req).2 =
      recalcMaxlinks { l with links := Function.update l.links i vacant }) ∨
    (∃ i, addedAt l audio req = some i ∧ Slot i ∧ l.links i = vacant ∧ saneReq audio req = true ∧
      ¬ (req.chan = 0 ∧ req.confno = 0) ∧ (ioctlConflink l audio req).2 =
        recalcMaxlinks { l with links := Function.update l.links i ⟨req.chan, req.confno⟩ }) := by
  unfold ioctlConflink addedAt
  cases sane : saneReq audio req with
  | false => exact .inl ⟨by simp, rfl⟩
  | true =>
    by_cases all : req.chan = 0 ∧ req.confno = 0
    · exact .inr (.inl ⟨by simp [all], by simp [all]⟩)
    · simp only [Bool.not_true, Bool.false_eq_true, if_false, all, not_false_eq_true, true_and]
      unfold changeLinks
      cases found : findSlot (isLink req) l.links with
      | some i =>
        refine .inr (.inr ?_)
        by_cases remove : req.confmode = 0
        · exact .inr (.inl ⟨by simp, i, (find_slot found).1, by simp [remove]⟩)
        · exact .inl ⟨by simp, by simp only [if_neg remove]⟩
      | none =>
        by_cases remove : req.confmode = 0
        · exact .inr (.inr (.inl ⟨by simp [remove], by simp [remove]⟩))
        · simp only [remove, ne_eq, not_false_eq_true, and_self, if_true]
          cases free : findSlot isEmpty l.links with
          | none => exact .inr (.inr (.inl ⟨rfl, rfl⟩))
          | some i =>
            obtain ⟨slot, empty⟩ := find_slot free
            exact .inr (.inr (.inr (.inr ⟨i, rfl, slot, is_empty_iff.mp empty, rfl⟩)))

theorem sane_ends (sane : saneReq audio req = true) : ¬ (req.chan ≠ 0 ∧ req.chan = req.confno) := by
  unfold saneReq at sane
  simp only [Bool.and_eq_true, Bool.not_eq_true', Bool.and_eq_false_iff, decide_eq_false_iff_not] at sane
  intro self
  have := sane.2
  tauto

end Steps
end Conflink
