import Dahdi.Conference.Links

/-!
Conference links over whole runs: while links are added between conferences that exist,
and no linked conference goes, every slot is empty or links two conferences. Each other
step leaves a slot that is neither.
-/
namespace Conflink
open Conference GuardedRun

/-- A good state, with what the tables and the requests keep. -/
structure Ok (l : Conf) : Prop where
  good : Good l
  tables : AliasOk l.conf.tables
  apart : ∀ i, Slot i → l.links i ≠ vacant → (l.links i).src ≠ (l.links i).dst

section Kept
variable {l l' : Conf} {i x : Int} {link : Link}

theorem recalc_below (slot : Slot i) (last : i < maxConf) (used : l.links i ≠ vacant) :
    i < (recalcMaxlinks l).maxlinks := by
  apply maxlinks_above i slot.1 _ used
  unfold maxConf at last ⊢
  omega

theorem recalc_small (l : Conf) : (recalcMaxlinks l).maxlinks ≤ maxConf := maxlinks_le

/-- In a good state the last slot is empty. -/
theorem last_vacant (good : Good l) (small : l.maxlinks ≤ maxConf) : l.links maxConf = vacant := by
  by_contra used
  have := good.below maxConf ⟨by decide, Int.le_refl _⟩ used
  omega

theorem start_ok (begin_ : Start l) : Ok l := by
  obtain ⟨tables, links, _⟩ := begin_
  constructor
  · constructor
    · intro i _
      exact .inl (links i)
    · intro i _ used
      exact absurd (links i) used
  · rw [tables]
    constructor
    · exact InverseTables.inverse_zero
    · intro x used
      exact absurd rfl used
    · intro a used
      exact absurd rfl used
    · intro a used
      exact absurd rfl used
  · intro i _ used
    exact absurd (links i) used

/-- New tables that keep the conferences keep a good state. -/
theorem ok_tables (ok : Ok l) {conf : State} (tables : AliasOk conf.tables)
    (kept : ∀ x, Existing l x → conf.tables.confalias x ≠ 0) : Ok { l with conf := conf } := by
  constructor
  · constructor
    · intro i slot
      rcases ok.good.linked i slot with empty | ends
      · exact .inl empty
      · exact .inr ⟨kept _ ends.1, kept _ ends.2⟩
    · exact ok.good.below
  · exact tables
  · exact ok.apart

/-- Recounting the links of slots that are good leaves them good. -/
theorem ok_links (ok : Ok l) (links : Int → Link) (last : links maxConf = vacant)
    (good : ∀ i, Slot i → links i = vacant ∨
      (Existing l (links i).src ∧ Existing l (links i).dst ∧ (links i).src ≠ (links i).dst)) :
    Ok (recalcMaxlinks { l with links := links }) := by
  constructor
  · constructor
    · intro i slot
      rcases good i slot with empty | ends
      · exact .inl empty
      · exact .inr ⟨ends.1, ends.2.1⟩
    · intro i slot used
      apply recalc_below slot _ used
      have other : i ≠ maxConf := by
        intro same
        exact used (same ▸ last)
      have := slot.2
      omega
  · exact ok.tables
  · intro i slot used
    rcases good i slot with empty | ends
    · exact absurd empty used
    · exact ends.2.2

theorem ok_slot (ok : Ok l) (slot : Slot i) : l.links i = vacant ∨
    (Existing l (l.links i).src ∧ Existing l (l.links i).dst ∧ (l.links i).src ≠ (l.links i).dst) := by
  rcases ok.good.linked i slot with empty | ends
  · exact .inl empty
  · by_cases empty : l.links i = vacant
    · exact .inl empty
    · exact .inr ⟨ends.1, ends.2, ok.apart i slot empty⟩

theorem ok_update (ok : Ok l) (small : l.maxlinks ≤ maxConf) (fits : i < maxConf ∨ link = vacant)
    (good : link = vacant ∨ (Existing l link.src ∧ Existing l link.dst ∧ link.src ≠ link.dst)) :
    Ok (recalcMaxlinks { l with links := Function.update l.links i link }) := by
  apply ok_links ok
  · by_cases last : maxConf = i
    · rw [← last, Function.update_self]
      exact fits.resolve_left (by omega)
    · rw [Function.update_of_ne last]
      exact last_vacant ok.good small
  · intro j slot
    by_cases here : j = i
    · rw [here, Function.update_self]
      exact good
    · rw [Function.update_of_ne here]
      exact ok_slot ok slot

/-- Where no link has x for an end, taking x out of the links changes none. -/
theorem unlink_same {links : Int → Link} (free : ∀ i, Slot i → (links i).src ≠ x ∧ (links i).dst ≠ x) :
    unlinkConf links x = links := by
  funext i
  unfold unlinkConf
  split
  next inside =>
    have ends := free i ⟨by omega, by omega⟩
    rw [unlinkEnds, if_neg ends.1, if_neg ends.2]
  next => rfl

end Kept

section Steps
variable {l l' : Conf} {op : Op}

/-- The bound on maxlinks that every recount keeps. -/
structure Inv (l : Conf) : Prop where
  ok : Ok l
  small : l.maxlinks ≤ maxConf

theorem alias_kept (inv : Inv l) {x : Int} (moved : Step l (.getConfAlias x) l') : Inv l' := by
  obtain ⟨low, high, a, t, got, eq⟩ := moved
  subst eq
  refine ⟨?_, inv.small⟩
  obtain ⟨_, same⟩ | ⟨_, _, fault⟩ | ⟨fresh, a', t', new, first, _, _, tables, confalias, _⟩ :=
    get_alias_spec inv.ok.tables low high
  · rw [same] at got
    cases got
    exact ok_tables inv.ok inv.ok.tables fun x here => here
  · rw [fault] at got
    cases got
  · rw [new] at got
    cases got
    apply ok_tables inv.ok tables
    intro y here
    rw [set_tables_tables, confalias]
    by_cases same : y = x
    · rw [same, Function.update_self]
      omega
    · rw [Function.update_of_ne same]
      exact here

theorem check_kept (inv : Inv l) {x : Int} (fair : Fair l (.checkConf x)) (moved : Step l (.checkConf x) l') :
    Inv l' := by
  obtain ⟨_, same⟩ | ⟨gone, t, tables, confalias, eq⟩ := check_links_cases inv.ok.tables moved
  · rw [same]
    exact inv
  · subst eq
    have free := fair gone
    rw [unlink_same free]
    refine ⟨?_, recalc_small _⟩
    have last := last_vacant inv.ok.good inv.small
    constructor
    · constructor
      · intro i slot
        rcases inv.ok.good.linked i slot with empty | ends
        · exact .inl empty
        · have still (y : Int) (other : y ≠ x) (here : Existing l y) : t.confalias y ≠ 0 := by
            rw [confalias, Function.update_of_ne other]
            exact here
          exact .inr ⟨still _ (free i slot).1 ends.1, still _ (free i slot).2 ends.2⟩
      · intro i slot used
        apply recalc_below slot _ used
        have other : i ≠ maxConf := by
          intro same
          exact used (same ▸ last)
        have := slot.2
        omega
    · exact tables
    · exact inv.ok.apart

theorem conflink_kept (inv : Inv l) {audio : Bool} {req : LinkReq} (fair : Fair l (.conflink audio req)) :
    Inv (ioctlConflink l audio req).2 := by
  have empty : Inv (recalcMaxlinks { l with links := fun _ => vacant }) :=
    ⟨ok_links inv.ok _ rfl fun _ _ => .inl rfl, recalc_small _⟩
  obtain ⟨_, eq⟩ | ⟨_, eq⟩ | ⟨_, eq⟩ | ⟨_, i, slot, eq⟩ | ⟨i, added, slot, _, sane, _, eq⟩ :=
    conflink_cases l audio req
  · rw [eq]
    exact inv
  · rw [eq]
    exact empty
  · rw [eq]
    exact ⟨ok_links inv.ok l.links (last_vacant inv.ok.good inv.small) fun i slot => ok_slot inv.ok slot,
      recalc_small _⟩
  · rw [eq]
    exact ⟨ok_update inv.ok inv.small (.inr rfl) (.inl rfl), recalc_small _⟩
  · rw [eq]
    obtain ⟨fits, src, dst⟩ := fair i added
    refine ⟨ok_update inv.ok inv.small (.inl fits) (.inr ⟨src, dst, ?_⟩), recalc_small _⟩
    intro same
    have zero : req.chan ≠ 0 := by
      intro none_
      have := (inv.ok.tables.conf req.chan src).1
      omega
    exact sane_ends sane ⟨zero, same⟩

theorem step_kept (inv : Inv l) (fair : Fair l op) (moved : Step l op l') : Inv l' := by
  cases op with
  | getConfAlias x => exact alias_kept inv moved
  | members conf =>
    obtain ⟨same, eq⟩ := moved
    subst eq
    refine ⟨ok_tables inv.ok (same ▸ inv.ok.tables) fun x here => ?_, inv.small⟩
    rw [same]
    exact here
  | checkConf x => exact check_kept inv fair moved
  | conflink audio req =>
    have eq : l' = (ioctlConflink l audio req).2 := moved
    rw [eq]
    exact conflink_kept inv fair

/-- What a step into a good state has forgotten of a conference that goes. -/
def Clean (l : Conf) (op : Op) (l' : Conf) : Prop := ∀ x, op = .checkConf x → Destroys l x → Forgotten l x l'

theorem step_clean (inv : Inv l) (fair : Fair l op) (moved : Step l op l') : Clean l op l' := by
  intro x same gone i slot
  subst same
  obtain ⟨stays, _⟩ | ⟨_, t, _, _, eq⟩ := check_links_cases inv.ok.tables moved
  · exact absurd gone stays
  · subst eq
    have free := fair gone
    have kept : (recalcMaxlinks { l with conf := setTables l.conf t, links := unlinkConf l.links x }).links i =
        l.links i := congrFun (unlink_same free) i
    rw [kept]
    refine ⟨(free i slot).1, (free i slot).2, fun ends => ?_⟩
    exact absurd ends (by simp [free i slot])

/-- A link that loses one of its two ends is neither empty nor a link. -/
theorem half_link {x : Int} {link : Link} (ends : link.src = x ∨ link.dst = x) (apart : link.src ≠ link.dst)
    {exist : Int → Prop} (zero : ¬ exist 0)
    (both : exist link.src ∧ exist link.dst) :
    unlinkEnds x link ≠ vacant ∧ ¬ (exist (unlinkEnds x link).src ∧ exist (unlinkEnds x link).dst) := by
  have some_ (y : Int) (here : exist y) : y ≠ 0 := fun none_ => zero (none_ ▸ here)
  unfold unlinkEnds
  rcases ends with src | dst
  · have other : ¬ link.dst = x := fun dst => apart (src.trans dst.symm)
    rw [if_pos src, if_neg other]
    refine ⟨fun empty => ?_, fun here => zero here.1⟩
    exact some_ _ both.2 (vacant_iff.mp empty).2
  · have other : ¬ link.src = x := fun src => apart (src.trans dst.symm)
    rw [if_pos dst, if_neg other]
    refine ⟨fun empty => ?_, fun here => zero here.2⟩
    exact some_ _ both.1 (vacant_iff.mp empty).1

/-- A step that is not fair leaves a slot that is neither empty nor a link the tick gets to. -/
theorem unfair_bad (inv : Inv l) (moved : Step l op l') (good : Good l') : Fair l op := by
  cases op with
  | getConfAlias x => trivial
  | members conf => trivial
  | checkConf x =>
    intro gone i slot
    obtain ⟨stays, _⟩ | ⟨_, t, tables, confalias, eq⟩ := check_links_cases inv.ok.tables moved
    · exact absurd gone stays
    · subst eq
      by_contra linked
      have ends : (l.links i).src = x ∨ (l.links i).dst = x := by tauto
      have used : l.links i ≠ vacant := by
        intro empty
        have := gone.1
        rw [empty] at ends
        rcases ends with src | dst
        · exact absurd src (by simp [vacant]; omega)
        · exact absurd dst (by simp [vacant]; omega)
      have both := (inv.ok.good.linked i slot).resolve_left used
      have inside : 0 < i ∧ i ≤ maxConf - 1 := by
        have := inv.ok.good.below i slot used
        have := inv.small
        have := slot.1
        omega
      have zero : ¬ Existing l 0 := fun here => absurd (inv.ok.tables.conf 0 here).1 (by decide)
      have half := half_link ends (inv.ok.apart i slot used) zero both
      have here : (recalcMaxlinks
          { l with conf := setTables l.conf t, links := unlinkConf l.links x }).links i =
          unlinkEnds x (l.links i) := if_pos inside
      rcases good.linked i slot with empty | linked'
      · rw [here] at empty
        exact half.1 empty
      · rw [here] at linked'
        apply half.2
        have back (y : Int) (alive : t.confalias y ≠ 0) : Existing l y := by
          rw [confalias] at alive
          by_cases same : y = x
          · rw [same, Function.update_self] at alive
            exact absurd rfl alive
          · rw [Function.update_of_ne same] at alive
            exact alive
        exact ⟨back _ linked'.1, back _ linked'.2⟩
  | conflink audio req =>
    intro i added
    have eq : l' = (ioctlConflink l audio req).2 := moved
    obtain ⟨none_, _⟩ | ⟨none_, _⟩ | ⟨none_, _⟩ | ⟨none_, _⟩ | ⟨j, added', slot, _, sane, some_, eq'⟩ :=
      conflink_cases l audio req
    · rw [none_] at added
      cases added
    · rw [none_] at added
      cases added
    · rw [none_] at added
      cases added
    · rw [none_] at added
      cases added
    · have same : j = i := Option.some.inj (added'.symm.trans added)
      subst same
      rw [eq'] at eq
      subst eq
      have here : (recalcMaxlinks { l with links := Function.update l.links j ⟨req.chan, req.confno⟩ }).links j =
          ⟨req.chan, req.confno⟩ := Function.update_self ..
      have used : (⟨req.chan, req.confno⟩ : Link) ≠ vacant := by
        intro empty
        exact some_ (vacant_iff.mp empty)
      have filled : (recalcMaxlinks
          { l with links := Function.update l.links j ⟨req.chan, req.confno⟩ }).links j ≠ vacant := by
        rw [here]
        exact used
      have below := good.below j slot filled
      have small := recalc_small { l with links := Function.update l.links j ⟨req.chan, req.confno⟩ }
      have ends := (good.linked j slot).resolve_left filled
      rw [here] at ends
      exact ⟨by omega, ends.1, ends.2⟩

end Steps

section Runs
variable {l : Conf}

theorem reached_inv (reached : Reach sys Fair l) : Inv l :=
  @invariant_run _ _ sys Fair Inv (fun l begin_ => ⟨start_ok begin_, by rw [begin_.2.2]; decide⟩)
    (fun _ _ _ inv fair moved => step_kept inv fair moved) l reached

/-- In a good state the tick mixes every link. -/
theorem links_mixed (good : Good l) {i : Int} (slot : Slot i)
    (used : l.links i ≠ vacant) :
    i ∈ tickSlots l ∧ l.conf.tables.confalias (l.links i).dst ≠ 0 ∧
      l.conf.tables.confalias (l.links i).src ≠ 0 := by
  have below := good.below i slot used
  have low := slot.1
  have both := (good.linked i slot).resolve_left used
  refine ⟨?_, both.2, both.1⟩
  unfold tickSlots
  rw [if_pos (by omega), List.mem_map]
  have before : (i - 1).toNat < l.maxlinks.toNat := by omega
  exact ⟨(i - 1).toNat, List.mem_range.mpr before, by omega⟩

/-- Through fair steps the links stay good and nothing is left of a conference that goes;
    and each step that is not fair ends that. -/
theorem links_stay_good {l : Conf} (reached : Reach sys Fair l) :
    Good l ∧ ∀ op l', Step l op l' → ((Good l' ∧ Clean l op l') ↔ Fair l op) := by
  have inv := reached_inv reached
  constructor
  · exact inv.ok.good
  · intro op l' moved
    constructor
    · intro after
      exact unfair_bad inv moved after.1
    · intro fair
      exact ⟨(step_kept inv fair moved).ok.good, step_clean inv fair moved⟩

/-- The steps that are computed. -/
def next (l : Conf) : Op → Option Conf
  | .getConfAlias x =>
    if 1 ≤ x ∧ x ≤ maxConf then
      (getConfAlias l.conf.tables x).toOption.map fun done => { l with conf := setTables l.conf done.2 }
    else none
  | .members _ => none
  | .checkConf x => (checkConfLinks l x).toOption
  | .conflink audio req => some (ioctlConflink l audio req).2

theorem except_some {α : Type} {e : Except Fault α} {a : α} (some_ : e.toOption = some a) : e = .ok a := by
  cases e with
  | error fault => cases some_
  | ok b => exact congrArg Except.ok (Option.some.inj some_)

theorem next_step {l l' : Conf} {op : Op} (moved : next l op = some l') : Step l op l' := by
  cases op with
  | getConfAlias x =>
    simp only [next] at moved
    split at moved
    next inside =>
      obtain ⟨done, got, eq⟩ := Option.map_eq_some_iff.mp moved
      exact ⟨inside.1, inside.2, done.1, done.2, except_some got, eq.symm⟩
    next => cases moved
  | members conf => cases moved
  | checkConf x => exact except_some moved
  | conflink audio req => exact (Option.some.inj moved).symm

def quiet : Conf := ⟨⟨fun _ => freshChan 0 false, [], [], noTables, ⟨fun _ => silence, fun _ => silence,
  fun _ => silence⟩⟩, fun _ => vacant, 0⟩

instance (l : Conf) (x : Int) : Decidable (Destroys l x) :=
  inferInstanceAs (Decidable (0 < x ∧ l.conf.tables.confalias x ≠ 0 ∧ anyInConf l.conf x = false))

instance (l : Conf) : (op : Op) → Decidable (Fair l op)
  | .getConfAlias _ => isTrue trivial
  | .members _ => isTrue trivial
  | .checkConf x =>
    decidable_of_iff (Destroys l x → ∀ i, 1 ≤ i → i ≤ maxConf → (l.links i).src ≠ x ∧ (l.links i).dst ≠ x)
      ⟨fun free gone i slot => free gone i slot.1 slot.2, fun free gone i low high => free gone i ⟨low, high⟩⟩
  | .conflink audio req =>
    match added : addedAt l audio req with
    | none => isTrue fun i some_ => by
      rw [added] at some_
      cases some_
    | some j =>
      decidable_of_iff (j < maxConf ∧ l.conf.tables.confalias req.chan ≠ 0 ∧ l.conf.tables.confalias req.confno ≠ 0)
        ⟨fun fair i some_ => Option.some.inj (added.symm.trans some_) ▸ fair, fun fair => fair j added⟩

theorem quiet_start {guard : Conf → Op → Prop} : Reach sys guard quiet :=
  Reach.start ⟨rfl, fun _ => rfl, rfl⟩

/-- Conferences 5 and 6 come to be, and 6 listens to 5. -/
def linkedOps : List Op := [.getConfAlias 5, .getConfAlias 6, .conflink true ⟨5, 6, 1⟩]

def linkedState : Conf := (follow next Fair linkedOps quiet).getD quiet

/-- The state with the link is good; taking the link away is fair and leaves it good. -/
theorem linked_good : linkedState.links 1 = ⟨5, 6⟩ ∧ Good linkedState ∧
    Good (ioctlConflink linkedState true ⟨5, 6, 0⟩).2 := by
  have ends : follow next Fair linkedOps quiet = some linkedState := by
    have some_ : (follow next Fair linkedOps quiet).isSome = true := by decide +kernel
    obtain ⟨l, ends⟩ := Option.isSome_iff_exists.mp some_
    rw [linkedState, ends, Option.getD_some]
  have reached : Reach sys Fair linkedState :=
    @follow_reach _ _ sys next Fair _ (fun _ _ _ moved => next_step moved) _ _ _ quiet_start ends
  have fair : Fair linkedState (.conflink true ⟨5, 6, 0⟩) := by decide +kernel
  have moved : Step linkedState (.conflink true ⟨5, 6, 0⟩) (ioctlConflink linkedState true ⟨5, 6, 0⟩).2 := rfl
  have good := links_stay_good reached
  exact ⟨by decide +kernel, good.1, ((good.2 _ _ moved).mpr fair).1⟩

/-- And the conference that is listened to goes. -/
def goneOps : List Op := linkedOps ++ [.checkConf 5]

/-- What is left of the link is neither empty nor a link. -/
theorem half_cleared : ∃ l, Reach sys anyStep l ∧ ¬ Good l ∧ l.links 1 = ⟨0, 6⟩ := by
  have some_ : (follow next anyStep goneOps quiet).isSome = true := by decide +kernel
  obtain ⟨l, ends⟩ := Option.isSome_iff_exists.mp some_
  have computed : (follow next anyStep goneOps quiet).map (fun l => (l.links 1, l.conf.tables.confalias 0)) =
      some (⟨0, 6⟩, 0) := by decide +kernel
  rw [ends, Option.map_some, Option.some.injEq, Prod.mk.injEq] at computed
  obtain ⟨left, zero⟩ := computed
  have reached := @follow_reach _ _ sys next anyStep _ (fun _ _ _ moved => next_step moved) _ _ _
    quiet_start ends
  refine ⟨l, reached, fun good => ?_, left⟩
  rcases good.linked 1 ⟨by decide, by decide⟩ with empty | exist
  · rw [left] at empty
    exact absurd empty (by decide)
  · rw [left] at exist
    exact exist.1 zero

end Runs
end Conflink
