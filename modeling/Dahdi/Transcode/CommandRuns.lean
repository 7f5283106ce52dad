import Dahdi.Transcode.CommandMatch

/-!
Runs of the commands of a transcoder card. A command is in at most one place on its way to
the card, and what may still complete it has not completed it yet.
-/
namespace Wctc4xxp
open GuardedRun
variable {K P : Type} [DecidableEq K] {s s' : Card K P} {k p : K} {c : Tcb}

section View

/-- A command, and how often it is on the lists and on the ring. -/
structure View where
  cmd : Tcb
  waiting : Nat
  cmdList : Nat
  ring : Nat
  retrieved : Nat

def view (s : Card K P) (k : K) : View where
  cmd := s.cmd k
  waiting := s.waiting.count k
  cmdList := s.cmdList.count k
  ring := s.ring.count k
  retrieved := s.retrieved.count k

/-- In how many places a command is on its way to the card. -/
def View.load (v : View) : Nat :=
  (if v.cmd.stage = .none then 0 else 1) + v.cmdList + v.ring + v.retrieved

structure Good (v : View) : Prop where
  place : v.load ≤ 1
  sent : v.cmd.txComplete = true → v.load = 0
  listed : v.waiting ≤ 1
  waits : 0 < v.waiting → v.cmd.completed = 0 ∧ v.cmd.waitForResponse = true ∧ v.cmdList = 0 ∧
    v.cmd.stage ≠ .begin_ ∧ v.cmd.stage ≠ .store
  pending : v.cmd.stage = .begin_ ∨ 0 < v.cmdList → v.cmd.completed = 0
  once : v.cmd.completed ≤ 1
  given : v.cmd.completed = 1 → 0 < v.load → v.cmd.waitForResponse = true ∧ v.cmd.cmdTimeout = true
  fresh : v.cmd.created = false → v.load = 0 ∧ v.waiting = 0 ∧ v.cmd.completed = 0
  ack : v.cmd.created = true → v.cmd.waitForAck = false
  own : ∀ seqNum, v.cmd.response = some seqNum → seqNum = v.cmd.seqNum
  known : v.cmd.submitted = true → v.cmd.created = true

variable {v : View}

theorem good_created (good : Good v) (new : v.cmd.created = false) (function channel seqNum : Nat) :
    Good { v with cmd :=
      ⟨true, function, channel, seqNum, false, true, false, false, 0, none, 0, .begin_, false⟩ } := by
  obtain ⟨load, waiting, _⟩ := good.fresh new
  constructor <;> grind -ring -linarith [View.load]

/-- A command that is about to be sent is on no list. -/
theorem begin_bare (good : Good v) (at_ : v.cmd.stage = .begin_) :
    v.cmdList = 0 ∧ v.ring = 0 ∧ v.retrieved = 0 ∧ v.waiting = 0 ∧ v.cmd.created = true := by
  have place := good.place
  have fresh := good.fresh
  rw [View.load, at_, if_neg (by decide)] at place fresh
  have waiting : v.waiting = 0 := by
    by_contra some
    exact (good.waits (by omega)).2.2.2.1 at_
  have created : v.cmd.created = true := by
    by_contra new
    have := (fresh (by simpa using new)).1
    omega
  exact ⟨by omega, by omega, by omega, waiting, created⟩

theorem good_shut (good : Good v) (at_ : v.cmd.stage = .begin_) :
    Good { v with
      cmd := { v.cmd.complete with cmdTimeout := true, stage := .none }
      waiting := v.waiting - 1
      cmdList := v.cmdList - 1 } := by
  obtain ⟨cmdList, ring, retrieved, waiting, created⟩ := begin_bare good at_
  have zero := good.pending (Or.inl at_)
  have ack := good.ack
  have own := good.own
  have known := good.known
  constructor <;> grind -ring -linarith [View.load, Tcb.complete]

theorem good_listed (good : Good v) (at_ : v.cmd.stage = .begin_) (waits : v.cmd.waits = true) :
    Good { v with cmd := { v.cmd with stage := .submit }, waiting := v.waiting + 1 } := by
  obtain ⟨cmdList, ring, retrieved, waiting, created⟩ := begin_bare good at_
  have zero := good.pending (Or.inl at_)
  have sent := good.sent
  have ack := good.ack
  have own := good.own
  have known := good.known
  rw [Tcb.waits, ack created, Bool.false_or] at waits
  constructor <;> grind -ring -linarith [View.load]

theorem good_unlisted (good : Good v) (at_ : v.cmd.stage = .begin_) :
    Good { v with cmd := { v.cmd with stage := .submit } } := by
  obtain ⟨cmdList, ring, retrieved, waiting, created⟩ := begin_bare good at_
  have zero := good.pending (Or.inl at_)
  have sent := good.sent
  have ack := good.ack
  have own := good.own
  have known := good.known
  constructor <;> grind -ring -linarith [View.load]

theorem good_refused (good : Good v) (at_ : v.cmd.stage = .submit) :
    Good { v with cmd := { v.cmd with stage := .refused } } := by
  obtain ⟨place, sent, listed, waits, pending, once, given, fresh, ack, own, known⟩ := good
  constructor <;> grind -ring -linarith [View.load]

theorem good_rung (good : Good v) (at_ : v.cmd.stage = .submit) :
    Good { v with cmd := { v.cmd with stage := .none, submitted := true }, ring := v.ring + 1 } := by
  obtain ⟨place, sent, listed, waits, pending, once, given, fresh, ack, own, known⟩ := good
  constructor <;> grind -ring -linarith [View.load]

theorem good_unlist (good : Good v) (at_ : v.cmd.stage = .refused) :
    Good { v with cmd := { v.cmd with stage := .store }, waiting := v.waiting - 1 } := by
  obtain ⟨place, sent, listed, waits, pending, once, given, fresh, ack, own, known⟩ := good
  constructor <;> grind -ring -linarith [View.load]

theorem good_store (good : Good v) (at_ : v.cmd.stage = .store) (kept : v.cmd.cmdTimeout = false) :
    Good { v with cmd := { v.cmd with stage := .none }, cmdList := v.cmdList + 1 } := by
  obtain ⟨place, sent, listed, waits, pending, once, given, fresh, ack, own, known⟩ := good
  constructor <;> grind -ring -linarith [View.load]

theorem good_retrieve (good : Good v) (there : 0 < v.ring) :
    Good { v with ring := v.ring - 1, retrieved := v.retrieved + 1 } := by
  obtain ⟨place, sent, listed, waits, pending, once, given, fresh, ack, own, known⟩ := good
  constructor <;> grind -ring -linarith [View.load]

theorem good_mark (good : Good v) (there : 0 < v.retrieved) :
    Good { v with
      cmd := if ({ v.cmd with txComplete := true } : Tcb).waits then { v.cmd with txComplete := true }
        else ({ v.cmd with txComplete := true } : Tcb).complete
      retrieved := v.retrieved - 1 } := by
  obtain ⟨place, sent, listed, waits, pending, once, given, fresh, ack, own, known⟩ := good
  split
  · constructor <;> grind -ring -linarith [View.load]
  · constructor <;> grind -ring -linarith [View.load, Tcb.waits, Tcb.complete]

theorem good_pull (good : Good v) (there : 0 < v.cmdList) :
    Good { v with cmd := { v.cmd with stage := .begin_ }, cmdList := v.cmdList - 1 } := by
  obtain ⟨place, sent, listed, waits, pending, once, given, fresh, ack, own, known⟩ := good
  constructor <;> grind -ring -linarith [View.load]

theorem good_answer (good : Good v) (there : 0 < v.waiting) {answer : Tcb}
    (answered : answer = { v.cmd with waitForResponse := false, response := some v.cmd.seqNum }) :
    Good { v with
      cmd := if answer.txComplete then answer.complete else answer
      waiting := v.waiting - 1 } := by
  subst answered
  obtain ⟨place, sent, listed, waits, pending, once, given, fresh, ack, own, known⟩ := good
  split
  · constructor <;> grind -ring -linarith [View.load, Tcb.complete]
  · constructor <;> grind -ring -linarith [View.load]

theorem good_acked (good : Good v) : Good { v with cmd := { v.cmd with waitForAck := false } } := by
  obtain ⟨place, sent, listed, waits, pending, once, given, fresh, ack, own, known⟩ := good
  constructor <;> grind -ring -linarith [View.load]

theorem good_given (good : Good v) (there : 0 < v.waiting) (retries : Nat) :
    Good { v with
      cmd := { ({ v.cmd with retries := retries } : Tcb).complete with cmdTimeout := true }
      waiting := v.waiting - 1 } := by
  obtain ⟨place, sent, listed, waits, pending, once, given, fresh, ack, own, known⟩ := good
  constructor <;> grind -ring -linarith [View.load, Tcb.complete]

theorem good_retried (good : Good v) (there : 0 < v.waiting) (done : v.cmd.txComplete = true) (retries : Nat) :
    Good { v with
      cmd := { v.cmd with retries := retries, txComplete := false, stage := .begin_ }
      waiting := v.waiting - 1 } := by
  obtain ⟨place, sent, listed, waits, pending, once, given, fresh, ack, own, known⟩ := good
  constructor <;> grind -ring -linarith [View.load]

theorem good_reset (good : Good v) (retries : Nat) :
    Good { v with cmd := { v.cmd with retries := retries } } := by
  obtain ⟨place, sent, listed, waits, pending, once, given, fresh, ack, own, known⟩ := good
  exact ⟨place, sent, listed, waits, pending, once, given, fresh, ack, own, known⟩

theorem set_same : (setCmd s k c).cmd k = c := Function.update_self _ _ _

theorem set_other {other : K} (apart : other ≠ k) : (setCmd s k c).cmd other = s.cmd other :=
  Function.update_of_ne apart _ _

theorem count_push {list : List K} (other : K) :
    (list ++ [k]).count other = list.count other + if other = k then 1 else 0 := by
  rw [List.count_append, List.count_singleton]
  by_cases same : other = k
  · rw [if_pos same, same, beq_self_eq_true, if_pos rfl]
  · rw [if_neg same, if_neg (by simp [Ne.symm same])]

theorem count_erase {list : List K} (other : K) :
    (list.erase k).count other = list.count other - if other = k then 1 else 0 := by
  rw [List.count_erase]
  by_cases same : other = k
  · rw [if_pos same, same, beq_self_eq_true, if_pos rfl]
  · rw [if_neg same, if_neg (by simp [Ne.symm same])]

end View

section Steps

/-- A step that changes one command keeps the others as they are. -/
theorem good_changed (good : ∀ k, Good (view s k)) (k : K) {v : View} (kept : Good v)
    (here : view s' k = v) (others : ∀ other ≠ k, view s' other = view s other) :
    ∀ other, Good (view s' other) := by
  intro other
  by_cases same : other = k
  · rw [same, here]
    exact kept
  · rw [others other same]
    exact good other

/-- Only the command itself changes. -/
theorem set_good (good : ∀ k, Good (view s k)) (kept : Good { view s k with cmd := c }) :
    ∀ other, Good (view (setCmd s k c) other) := by
  apply good_changed good k kept
  · rw [view, set_same]
    rfl
  · intro other apart
    rw [view, set_other apart]
    rfl

/-- A command leaves the list of waiting commands. -/
theorem unlisted_good (good : ∀ k, Good (view s k))
    (kept : Good { view s k with cmd := c, waiting := (view s k).waiting - 1 }) (shutdown : Bool) :
    ∀ other, Good (view { setCmd s k c with waiting := s.waiting.erase k, shutdown } other) := by
  apply good_changed good k kept
  · simp only [view]
    rw [set_same, count_erase, if_pos rfl]
    rfl
  · intro other apart
    simp only [view]
    rw [set_other apart, count_erase, if_neg apart]
    rfl

theorem create_good [DecidableEq P] (good : ∀ k, Good (view s k)) {pvt : Option P} {function channel : Nat}
    (new : (s.cmd k).created = false) :
    ∀ other, Good (view (createCmd s k pvt function channel) other) :=
  set_good good (good_created (good k) new _ _ _)

theorem transmit_good (good : ∀ k, Good (view s k)) (at_ : (s.cmd k).stage = .begin_) :
    ∀ other, Good (view (transmitCmd s k) other) := by
  rw [transmitCmd]
  simp only
  split
  · apply good_changed good k (good_shut (good k) at_)
    · rw [view, set_same]
      simp only [view, setCmd]
      rw [count_erase, count_erase, if_pos rfl]
    · intro other apart
      rw [view, set_other apart]
      simp only [view, setCmd]
      rw [count_erase, count_erase, if_neg apart]
      rfl
  · split
    case isTrue waits =>
      apply good_changed good k (good_listed (good k) at_ waits)
      · simp only [view]
        rw [set_same, setCmd, count_push, if_pos rfl]
      · intro other apart
        simp only [view]
        rw [set_other apart, setCmd, count_push, if_neg apart]
        rfl
    case isFalse => exact set_good good (good_unlisted (good k) at_)

theorem submit_good (good : ∀ k, Good (view s k)) (at_ : (s.cmd k).stage = .submit) (busy : Bool) :
    ∀ other, Good (view (submitCmd s k busy) other) := by
  rw [submitCmd]
  split
  · exact set_good good (good_refused (good k) at_)
  · apply good_changed good k (good_rung (good k) at_)
    · simp only [view]
      rw [set_same, count_push, if_pos rfl]
      rfl
    · intro other apart
      simp only [view]
      rw [set_other apart, count_push, if_neg apart]
      rfl

theorem mark_good (good : ∀ k, Good (view s k)) (there : k ∈ s.retrieved) :
    ∀ other, Good (view (markCmd s k) other) := by
  rw [markCmd]
  apply good_changed good k (good_mark (good k) (List.count_pos_iff.mpr there))
  · simp only [view]
    rw [set_same, count_erase, if_pos rfl]
    rfl
  · intro other apart
    simp only [view]
    rw [set_other apart, count_erase, if_neg apart]
    rfl

theorem watch_good (good : ∀ k, Good (view s k)) (there : k ∈ s.waiting) :
    ∀ other, Good (view (watchCmd s k) other) := by
  have listed := List.count_pos_iff.mpr there
  rw [watchCmd]
  simp only
  split
  · exact unlisted_good good (good_given (good k) listed _) _
  · split
    case isTrue done => exact unlisted_good good (good_retried (good k) listed done _) s.shutdown
    case isFalse => exact set_good good (good_reset (good k) _)

theorem response_good (good : ∀ k, Good (view s k))
    (found : ∀ p, matching s (s.cmd k).function (s.cmd k).channel = some p → p = k) :
    ∀ other, Good (view (matchResponse s k) other) := by
  rw [matchResponse]
  split
  · exact good
  case h_2 p first =>
    have listed := List.count_pos_iff.mpr (List.mem_of_find?_eq_some first)
    have same := found p first
    subst same
    exact unlisted_good good (good_answer (good p) listed rfl) s.shutdown

theorem ack_good (good : ∀ k, Good (view s k)) (seqNum channel : Nat) :
    ∀ other, Good (view (rxAck s seqNum channel) other) := by
  rw [rxAck]
  split
  · exact good
  case h_2 p found =>
    have listed := List.count_pos_iff.mpr (List.mem_of_find?_eq_some found)
    have waits : (s.cmd p).waitForResponse = true := ((good p).waits listed).2.1
    rw [if_pos waits]
    exact set_good good (good_acked (good p))

end Steps

section Numbers

/-- A command keeps its header, and does not lose an answer. -/
def Kept (c c' : Tcb) : Prop :=
  c'.created = c.created ∧ c'.channel = c.channel ∧ c'.seqNum = c.seqNum ∧ (Unanswered c' → Unanswered c)

theorem kept_refl (c : Tcb) : Kept c c := ⟨rfl, rfl, rfl, id⟩

theorem kept_set (kept : Kept (s.cmd k) c) (other : K) : Kept (s.cmd other) ((setCmd s k c).cmd other) := by
  by_cases same : other = k
  · rw [same, set_same]
    exact kept
  · rw [set_other same]
    exact kept_refl _

theorem transmit_kept (other : K) : Kept (s.cmd other) ((transmitCmd s k).cmd other) := by
  rw [transmitCmd]
  simp only
  split
  · have shut : Kept (s.cmd k) { (s.cmd k).complete with cmdTimeout := true, stage := .none } :=
      ⟨rfl, rfl, rfl, fun open_ => absurd open_.2 (Nat.succ_ne_zero _)⟩
    exact kept_set shut other
  · split
    all_goals
      apply kept_set
      exact ⟨rfl, rfl, rfl, id⟩

theorem submit_kept (busy : Bool) (other : K) : Kept (s.cmd other) ((submitCmd s k busy).cmd other) := by
  rw [submitCmd]
  split
  all_goals
    apply kept_set
    exact ⟨rfl, rfl, rfl, id⟩

theorem mark_kept (other : K) : Kept (s.cmd other) ((markCmd s k).cmd other) := by
  rw [markCmd]
  simp only
  split
  · apply kept_set
    exact ⟨rfl, rfl, rfl, id⟩
  · apply kept_set
    exact ⟨rfl, rfl, rfl, fun open_ => absurd open_.2 (Nat.succ_ne_zero _)⟩

theorem watch_kept (other : K) : Kept (s.cmd other) ((watchCmd s k).cmd other) := by
  rw [watchCmd]
  simp only
  split
  · apply kept_set
    exact ⟨rfl, rfl, rfl, fun open_ => absurd open_.2 (Nat.succ_ne_zero _)⟩
  · split
    all_goals
      apply kept_set
      exact ⟨rfl, rfl, rfl, id⟩

theorem ack_kept (seqNum channel : Nat) (other : K) :
    Kept (s.cmd other) ((rxAck s seqNum channel).cmd other) := by
  rw [rxAck]
  split
  · exact kept_refl _
  · split
    · apply kept_set
      exact ⟨rfl, rfl, rfl, id⟩
    · apply kept_set
      exact ⟨rfl, rfl, rfl, fun open_ => absurd open_.2 (Nat.succ_ne_zero _)⟩

/-- The command that a response finds is answered. -/
theorem match_kept (other : K) :
    Kept (s.cmd other) ((matchResponse s k).cmd other) ∧
    (matching s (s.cmd k).function (s.cmd k).channel = some other →
      ¬ Unanswered ((matchResponse s k).cmd other)) := by
  rw [matchResponse]
  split
  case h_1 none_ =>
    rw [none_]
    refine ⟨kept_refl _, ?_⟩
    intro some_
    cases some_
  case h_2 p found =>
    simp only
    constructor
    · apply kept_set
      split
      all_goals exact ⟨rfl, rfl, rfl, fun open_ => by cases open_.1⟩
    · intro same
      rw [found] at same
      cases same
      rw [set_same]
      split
      all_goals exact fun open_ => by cases open_.1

/-- No unanswered command of the supervisor channel has the seq_num of the last response. -/
def Fresh (s : Card K P) : Prop :=
  ∀ k, Open (s.cmd k) → ((s.cmd k).seqNum : Int) ≠ s.lastRxSeqNum

theorem open_kept {c' : Tcb} (kept : Kept c c') (open_ : Open c') : Open c :=
  ⟨kept.1.symm.trans open_.1, kept.2.2.2 open_.2.1, kept.2.1.symm.trans open_.2.2⟩

omit [DecidableEq K] in
theorem fresh_kept (fresh : Fresh s) (last : s'.lastRxSeqNum = s.lastRxSeqNum)
    (kept : ∀ k, Kept (s.cmd k) (s'.cmd k)) : Fresh s' := by
  intro k open_
  rw [(kept k).2.2.1, last]
  exact fresh k (open_kept (kept k) open_)

theorem create_fresh [DecidableEq P] (fresh : Fresh s) {pvt : Option P} {function channel : Nat}
    (new : duplicate s (header s pvt channel).2 (header s pvt channel).1 = false) :
    Fresh (createCmd s k pvt function channel) := by
  intro other open_
  rw [createCmd] at open_ ⊢
  simp only at open_ ⊢
  by_cases same : other = k
  · rw [same, set_same] at open_ ⊢
    rw [duplicate, decide_eq_false_iff_not] at new
    exact fun equal => new ⟨open_.2.2, equal⟩
  · rw [set_other same] at open_ ⊢
    exact fresh other open_

end Numbers

section Thrown

theorem transmit_same : (transmitCmd s k).thrown = s.thrown ∧
    (transmitCmd s k).lastRxSeqNum = s.lastRxSeqNum := by
  rw [transmitCmd]
  simp only
  repeat' split
  all_goals exact ⟨rfl, rfl⟩

theorem submit_same {busy : Bool} : (submitCmd s k busy).thrown = s.thrown ∧
    (submitCmd s k busy).lastRxSeqNum = s.lastRxSeqNum := by
  rw [submitCmd]
  split
  all_goals exact ⟨rfl, rfl⟩

theorem match_same : (matchResponse s k).thrown = s.thrown ∧
    (matchResponse s k).lastRxSeqNum = s.lastRxSeqNum := by
  rw [matchResponse]
  split
  all_goals exact ⟨rfl, rfl⟩

theorem ack_same {seqNum channel : Nat} : (rxAck s seqNum channel).thrown = s.thrown ∧
    (rxAck s seqNum channel).lastRxSeqNum = s.lastRxSeqNum := by
  rw [rxAck]
  repeat' split
  all_goals exact ⟨rfl, rfl⟩

theorem watch_same : (watchCmd s k).thrown = s.thrown ∧
    (watchCmd s k).lastRxSeqNum = s.lastRxSeqNum := by
  rw [watchCmd]
  simp only
  repeat' split
  all_goals exact ⟨rfl, rfl⟩

end Thrown

section Runs

structure Sound (s : Card K P) : Prop where
  good : ∀ k, Good (view s k)
  kept : s.thrown = []
  fresh : Fresh s

theorem sound_matched (sound : Sound s) : Matched s := by
  constructor
  · intro k
    exact (sound.good k).once
  · intro k
    exact (sound.good k).own
  · exact sound.kept

theorem receive_sound (sound : Sound s) (there : (s.cmd k).submitted = true)
    (orderly : Orderly s (.receive k)) : Sound (rxResponse s k) := by
  rw [rxResponse]
  split
  case isTrue again =>
    have closed : ¬ Unanswered (s.cmd k) := by
      intro unanswered
      rw [duplicate, decide_eq_true_eq] at again
      exact sound.fresh k ⟨(sound.good k).known there, unanswered, again.1⟩ again.2
    rw [if_neg closed]
    exact sound
  case isFalse first =>
    obtain ⟨found, alone⟩ := orderly.resolve_left first
    refine ⟨response_good sound.good found, match_same.1.trans sound.kept, ?_⟩
    intro j open_
    obtain ⟨kept, answered⟩ := @match_kept K P _
      { s with lastRxSeqNum := if (s.cmd k).channel = SUPERVISOR_CHANNEL then (s.cmd k).seqNum
          else s.lastRxSeqNum } k j
    have was := open_kept kept open_
    rw [kept.2.2.1, match_same.2]
    simp only
    split
    case isTrue supervisor =>
      intro equal
      exact answered (alone supervisor j was (Int.natCast_inj.mp equal)) open_.2.1
    case isFalse => exact sound.fresh j was

variable [DecidableEq P]

theorem sound_step {l : Label K P} (sound : Sound s) (orderly : Orderly s l) (moved : next s l = some s') :
    Sound s' := by
  have good := sound.good
  have kept := sound.kept
  have fresh := sound.fresh
  cases l with
  | create k pvt function channel =>
    rw [next] at moved
    split at moved
    · cases moved
    case isFalse new =>
      cases moved
      exact ⟨create_good good (by simpa using new), kept, create_fresh fresh orderly⟩
  | transmit k =>
    rw [next] at moved
    split at moved
    case isTrue at_ =>
      cases moved
      exact ⟨transmit_good good at_, transmit_same.1.trans kept,
        fresh_kept fresh transmit_same.2 transmit_kept⟩
    case isFalse => cases moved
  | submit k busy =>
    rw [next] at moved
    split at moved
    case isTrue at_ =>
      cases moved
      exact ⟨submit_good good at_ busy, submit_same.1.trans kept,
        fresh_kept fresh submit_same.2 (submit_kept busy)⟩
    case isFalse => cases moved
  | unlist k =>
    rw [next] at moved
    split at moved
    case isTrue at_ =>
      cases moved
      refine ⟨?_, kept, fresh_kept fresh rfl ?_⟩
      · apply good_changed good k (good_unlist (good k) at_)
        · simp only [view]
          rw [set_same, count_erase, if_pos rfl]
          rfl
        · intro other apart
          simp only [view]
          rw [set_other apart, count_erase, if_neg apart]
          rfl
      · intro other
        apply kept_set
        exact ⟨rfl, rfl, rfl, id⟩
    case isFalse => cases moved
  | store k =>
    rw [next] at moved
    split at moved
    case isTrue at_ =>
      cases moved
      refine ⟨?_, kept, fresh_kept fresh rfl ?_⟩
      · apply good_changed good k (good_store (good k) at_ orderly)
        · simp only [view]
          rw [set_same, count_push, if_pos rfl]
          rfl
        · intro other apart
          simp only [view]
          rw [set_other apart, count_push, if_neg apart]
          rfl
      · intro other
        apply kept_set
        exact ⟨rfl, rfl, rfl, id⟩
    case isFalse => cases moved
  | retrieve =>
    rw [next] at moved
    split at moved
    · cases moved
    case h_2 k rest ring =>
      cases moved
      refine ⟨?_, kept, fresh_kept fresh rfl fun _ => kept_refl _⟩
      have there : 0 < (view s k).ring := by
        simp [view, ring]
      apply good_changed good k (good_retrieve (good k) there)
      · simp only [view]
        rw [ring, count_push, if_pos rfl, List.count_cons_self]
        rfl
      · intro other apart
        simp only [view]
        rw [ring, count_push, if_neg apart, List.count_cons_of_ne apart.symm]
        rfl
  | mark k =>
    rw [next] at moved
    split at moved
    case isTrue there =>
      cases moved
      exact ⟨mark_good good there, kept, fresh_kept fresh rfl mark_kept⟩
    case isFalse => cases moved
  | pull =>
    rw [next] at moved
    split at moved
    · cases moved
    · split at moved
      · cases moved
        exact ⟨good, kept, fresh⟩
      case h_2 k rest list =>
        cases moved
        refine ⟨?_, kept, fresh_kept fresh rfl ?_⟩
        · have there : 0 < (view s k).cmdList := by
            simp [view, list]
          apply good_changed good k (good_pull (good k) there)
          · simp only [view]
            rw [set_same, list, List.count_cons_self]
            rfl
          · intro other apart
            simp only [view]
            rw [set_other apart, list, List.count_cons_of_ne apart.symm]
            rfl
        · intro other
          apply kept_set
          exact ⟨rfl, rfl, rfl, id⟩
  | receive k =>
    rw [next] at moved
    split at moved
    case isTrue there =>
      cases moved
      exact receive_sound sound there orderly
    case isFalse => cases moved
  | ack seqNum channel =>
    cases moved
    exact ⟨ack_good good seqNum channel, ack_same.1.trans kept,
      fresh_kept fresh ack_same.2 (ack_kept seqNum channel)⟩
  | watch k =>
    rw [next] at moved
    split at moved
    case isTrue there =>
      cases moved
      exact ⟨watch_good good there, watch_same.1.trans kept, fresh_kept fresh watch_same.2 watch_kept⟩
    case isFalse => cases moved
  | halt =>
    cases moved
    exact ⟨good, kept, fresh⟩

theorem start_sound (start : (card : System (Card K P) (Label K P)).start s) : Sound s := by
  obtain ⟨unused, waiting, cmdList, ring, retrieved, _, thrown⟩ := start
  refine ⟨?_, thrown, ?_⟩
  · intro k
    obtain ⟨created, stage, submitted, completed, response⟩ := unused k
    have load : (view s k).load = 0 := by
      simp [View.load, view, stage, cmdList, ring, retrieved]
    have unlisted : (view s k).waiting = 0 := by
      simp [view, waiting]
    have unqueued : (view s k).cmdList = 0 := by
      simp [view, cmdList]
    have zero : (view s k).cmd.completed = 0 := completed
    have new : (view s k).cmd.created = false := created
    have idle : (view s k).cmd.stage = .none := stage
    have unanswered : (view s k).cmd.response = none := response
    have unsent : (view s k).cmd.submitted = false := submitted
    constructor <;> grind -ring -linarith
  · intro k open_
    have created := open_.1
    rw [(unused k).1] at created
    cases created

theorem commands_matched (s : Card K P) (reached : Reach card Orderly s) : Matched s := by
  apply sound_matched
  apply @invariant_run _ _ card Orderly Sound
  · intro s start
    exact start_sound start
  · intro s l s' sound orderly moved
    exact sound_step sound orderly moved
  · exact reached

end Runs

section Example

def unused : Tcb := ⟨false, 0, 0, 0, false, false, false, false, 0, none, 0, .none, false⟩

def idleCard : Card (Fin 2) Unit where
  cmd := fun _ => unused
  waiting := []
  cmdList := []
  ring := []
  retrieved := []
  pulls := 0
  seqNum := fun _ => 0
  lastRxSeqNum := -1
  shutdown := false
  thrown := []

theorem idle_start : card.start idleCard :=
  ⟨fun _ => ⟨rfl, rfl, rfl, rfl, rfl⟩, rfl, rfl, rfl, rfl, rfl, rfl⟩

instance (s : Card (Fin 2) Unit) (l : Label (Fin 2) Unit) : Decidable (Orderly s l) := by
  cases l
  all_goals
    unfold Orderly
    infer_instance

/-- A command goes to the card and off the descriptor ring. -/
def sends (k : Fin 2) : List (Label (Fin 2) Unit) :=
  [.transmit k, .submit k false, .retrieve, .mark k, .pull]

/-- The first copy of a supervisor command is lost, and the second is answered twice. -/
def lossy (c d : Fin 2) : List (Label (Fin 2) Unit) :=
  [.create c none 0x411 0] ++ sends c ++ [.watch c] ++ sends c ++
    [.receive c, .receive c, .create d none 0x412 0] ++ sends d ++ [.receive d]

theorem commands_matched_lossy : ∃ s, follow next Orderly (lossy 0 1) idleCard = some s ∧
    (s.cmd 0).completed = 1 ∧ (s.cmd 1).response = some 1 ∧ Matched s := by
  have runs : (follow next Orderly (lossy 0 1) idleCard).any (fun s =>
      (s.cmd 0).completed = 1 ∧ (s.cmd 1).response = some 1) = true := by decide +kernel
  obtain ⟨s, ends, shown⟩ := (Option.any_eq_true _ _).mp runs
  obtain ⟨first, second⟩ := of_decide_eq_true shown
  refine ⟨s, ends, first, second, ?_⟩
  apply commands_matched
  apply @follow_reach _ _ card _ _ _ (fun _ _ _ done => done) _ _ _ _ ends
  exact Reach.start idle_start

/-- The response comes while the watchdog has the command on its own list, and the
    response to the next copy is taken for a duplicate of it. -/
def crossing (c : Fin 2) : List (Label (Fin 2) Unit) :=
  [.create c none 0x411 0] ++ sends c ++ [.watch c, .receive c] ++ sends c ++ [.receive c]

theorem response_thrown : ¬ ∀ s : Card (Fin 2) Unit, Reach card anyStep s → Matched s := by
  intro always
  have runs : (follow next anyStep (crossing 0) idleCard).any (fun s =>
      (s.cmd 0).response = none ∧ (s.cmd 0).completed = 0 ∧ s.waiting = [0] ∧ s.thrown = [0]) = true := by
    decide +kernel
  obtain ⟨s, ends, shown⟩ := (Option.any_eq_true _ _).mp runs
  obtain ⟨_, _, _, lost⟩ := of_decide_eq_true shown
  have reached : Reach card anyStep s := by
    apply @follow_reach _ _ card _ _ _ (fun _ _ _ done => done) _ _ _ _ ends
    exact Reach.start idle_start
  have kept := (always s reached).kept
  rw [lost] at kept
  cases kept

end Example

end Wctc4xxp
