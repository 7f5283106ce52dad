import Dahdi.Library.GuardedRun

/-!
The way of the RTP packets of a transcoder card to its transmit ring: each packet is
submitted by the write that made it or, when the ring was full, by a later service of the
ring that takes it from cmd_list.
-/
namespace PacketOrder
open GuardedRun

/-- The packet of a write, with the value of cpvt->seqno that the write found. -/
structure Packet (C : Type) where
  channel : C
  seqno : Nat
  deriving DecidableEq

/-- What calls wctc4xxp_transmit_cmd: the write of a channel or a call of service_tx_ring. -/
inductive Call (C I : Type) where
  | write (c : C)
  | service (i : I)
  deriving DecidableEq

/-- Where a call stands between the sections that it locks. -/
inductive Stage (C : Type) where
  | idle
  | submit (p : Packet C)
  | store (p : Packet C)
  | pull
  deriving DecidableEq

def Stage.held {C : Type} : Stage C → Option (Packet C)
  | .submit p => some p
  | .store p => some p
  | _ => none

/-- A card that is not shut down. `placed` is history: every packet put on the ring, in
    this order. -/
structure Sender (C I : Type) where
  seqno : C → Nat
  call : Call C I → Stage C
  cmdList : List (Packet C)
  ring : List (Packet C)
  placed : List (Packet C)

def DRING_SIZE : Nat := 128

inductive Label (C I : Type) where
  | write (c : C)
  | submit (x : Call C I)
  | store (x : Call C I)
  | retrieve (i : I)
  | pull (i : I)

section Steps
variable {C I : Type} [DecidableEq C] [DecidableEq I]

def setCall (s : Sender C I) (x : Call C I) (g : Stage C) : Sender C I :=
  { s with call := Function.update s.call x g }

/-- wctc4xxp_write as far as the call of wctc4xxp_transmit_cmd. -/
def writePacket (s : Sender C I) (c : C) : Sender C I :=
  { setCall s (.write c) (.submit ⟨c, s.seqno c⟩) with
    seqno := Function.update s.seqno c (s.seqno c + 1) }

/-- wctc4xxp_submit -/
def submitPacket (s : Sender C I) (x : Call C I) (p : Packet C) : Sender C I :=
  if s.ring.length < DRING_SIZE then
    { setCall s x .idle with ring := s.ring ++ [p], placed := s.placed ++ [p] }
  else setCall s x (.store p)

/-- wctc4xxp_add_to_command_list -/
def addToCommandList (s : Sender C I) (x : Call C I) (p : Packet C) : Sender C I :=
  { setCall s x .idle with cmdList := s.cmdList ++ [p] }

/-- service_tx_ring takes the first packet of cmd_list. -/
def pullPacket (s : Sender C I) (i : I) : Sender C I :=
  match s.cmdList with
  | [] => setCall s (.service i) .idle
  | p :: rest => { setCall s (.service i) (.submit p) with cmdList := rest }

def next (s : Sender C I) : Label C I → Option (Sender C I)
  | .write c => if s.call (.write c) = .idle then some (writePacket s c) else none
  | .submit x =>
    match s.call x with
    | .submit p => some (submitPacket s x p)
    | _ => none
  | .store x =>
    match s.call x with
    | .store p => some (addToCommandList s x p)
    | _ => none
  | .retrieve i =>
    match s.call (.service i), s.ring with
    | .idle, _ :: rest => some { setCall s (.service i) .pull with ring := rest }
    | _, _ => none
  | .pull i => if s.call (.service i) = .pull then some (pullPacket s i) else none

def sender : System (Sender C I) (Label C I) where
  start s := (∀ x, s.call x = .idle) ∧ (∀ c, s.seqno c = 0) ∧ s.cmdList = [] ∧ s.ring = [] ∧
    s.placed = []
  step s l s' := next s l = some s'

end Steps

section Property
variable {C I : Type} [DecidableEq C]

def Written (s : Sender C I) (p : Packet C) : Prop := p.seqno < s.seqno p.channel

/-- The packets of a channel on their way to the card, by the numbers of their writes. -/
def sequence (s : Sender C I) (c : C) : List Nat :=
  (s.placed.filter fun p => decide (p.channel = c)).map (·.seqno)

/-- No call is under way and the card has fetched all that was placed. -/
def Quiet (s : Sender C I) : Prop := s.ring = [] ∧ ∀ x, s.call x = .idle

/-- The packets of a channel are placed in the order of the writes and each once, and all
    of them once nothing is under way. -/
structure Delivered (s : Sender C I) : Prop where
  order : ∀ c, sequence s c = List.range (sequence s c).length
  once : s.placed.Nodup
  lost : Quiet s → ∀ p, Written s p → p ∈ s.placed

/-- A call that puts a packet on the ring or looks at cmd_list in its next step. -/
def Awake (g : Stage C) : Prop :=
  match g with
  | .submit _ => True
  | .pull => True
  | _ => False

/-- No earlier packet of the channel waits on cmd_list or is in the hands of a call. -/
def First (s : Sender C I) (p : Packet C) : Prop :=
  ∀ q, q.channel = p.channel → q.seqno < p.seqno →
    q ∉ s.cmdList ∧ ∀ y, (s.call y).held ≠ some q

/-- A packet takes a free place of the ring only as the first of its channel, and a packet
    is put on cmd_list only while something is left on the ring or to be put there. -/
def InTurn (s : Sender C I) : Label C I → Prop
  | .submit x => ∀ p, s.call x = .submit p → s.ring.length < DRING_SIZE → First s p
  | .store _ => s.ring ≠ [] ∨ ∃ y, Awake (s.call y)
  | _ => True

end Property

section Custody
variable {C I : Type} [DecidableEq C] [DecidableEq I] {s s' : Sender C I} {x : Call C I}
  {g : Stage C} {p : Packet C} {i : I} {c : C} {l : Label C I}

/-- Every written packet is in exactly one place: on the ring or past it, on cmd_list, or
    in the hands of one call. -/
structure Custody (s : Sender C I) : Prop where
  known : ∀ p, Written s p ↔ p ∈ s.placed ∨ p ∈ s.cmdList ∨ ∃ x, (s.call x).held = some p
  once : (s.placed ++ s.cmdList).Nodup
  held : ∀ x p, (s.call x).held = some p → p ∉ s.placed ++ s.cmdList
  alone : ∀ x y p, (s.call x).held = some p → (s.call y).held = some p → x = y

theorem setCall_call (y : Call C I) :
    (setCall s x g).call y = if y = x then g else s.call y := by
  exact Function.update_apply s.call x g y

/-- The packet is in the hands of another call. -/
def Elsewhere (s : Sender C I) (x : Call C I) (p : Packet C) : Prop :=
  ∃ y, y ≠ x ∧ (s.call y).held = some p

theorem hands (x : Call C I) :
    (∃ y, (s.call y).held = some p) ↔ (s.call x).held = some p ∨ Elsewhere s x p := by
  constructor
  · rintro ⟨y, held⟩
    by_cases same : y = x
    · exact Or.inl (same ▸ held)
    · exact Or.inr ⟨y, same, held⟩
  · rintro (held | ⟨y, _, held⟩)
    · exact ⟨x, held⟩
    · exact ⟨y, held⟩

theorem elsewhere_setCall : Elsewhere (setCall s x g) x p ↔ Elsewhere s x p := by
  refine exists_congr fun y => and_congr_right fun other => ?_
  rw [setCall_call, if_neg other]

theorem hands_setCall :
    (∃ y, ((setCall s x g).call y).held = some p) ↔ g.held = some p ∨ Elsewhere s x p := by
  rw [hands x, elsewhere_setCall, setCall_call, if_pos rfl]

/-- The places of a written packet, with one call apart from the others. -/
theorem known_hands (custody : Custody s) (x : Call C I) (q : Packet C) :
    Written s q ↔ q ∈ s.placed ∨ q ∈ s.cmdList ∨ (s.call x).held = some q ∨ Elsewhere s x q :=
  (custody.known q).trans (or_congr_right (or_congr_right (hands x)))

theorem places_setCall {placed listed : Prop} :
    (placed ∨ listed ∨ ∃ y, ((setCall s x g).call y).held = some p) ↔
      placed ∨ listed ∨ g.held = some p ∨ Elsewhere s x p :=
  or_congr_right (or_congr_right hands_setCall)

theorem held_setCall {y : Call C I} (held : ((setCall s x g).call y).held = some p) :
    y = x ∧ g.held = some p ∨ y ≠ x ∧ (s.call y).held = some p := by
  rw [setCall_call] at held
  split at held
  case isTrue same => exact Or.inl ⟨same, held⟩
  case isFalse other => exact Or.inr ⟨other, held⟩

theorem alone_setCall (custody : Custody s) (unshared : ∀ q, g.held = some q → ¬ Elsewhere s x q)
    (y z : Call C I) (q : Packet C) (first : ((setCall s x g).call y).held = some q)
    (second : ((setCall s x g).call z).held = some q) : y = z := by
  rcases held_setCall first with ⟨rfl, new⟩ | ⟨otherY, heldY⟩
  · rcases held_setCall second with ⟨same, _⟩ | ⟨other, held⟩
    · exact same.symm
    · exact absurd ⟨z, other, held⟩ (unshared q new)
  · rcases held_setCall second with ⟨same, new⟩ | ⟨_, heldZ⟩
    · exact absurd ⟨y, otherY, heldY⟩ (unshared q new)
    · exact custody.alone y z q heldY heldZ

omit [DecidableEq C] [DecidableEq I] in
theorem unshared_none (empty : g.held = none) (q : Packet C) (held : g.held = some q) :
    ¬ Elsewhere s x q := by
  rw [empty] at held
  cases held

/-- A call moves on with the same packet, or with none before and after. -/
theorem custody_moved (custody : Custody s) (same : g.held = (s.call x).held) :
    Custody (setCall s x g) := by
  have hand : ∀ y, ((setCall s x g).call y).held = (s.call y).held := by
    intro y
    rw [setCall_call]
    split
    case isTrue at_ => rw [at_, same]
    case isFalse => rfl
  refine ⟨?_, custody.once, ?_, ?_⟩
  · intro q
    simp only [hand]
    exact custody.known q
  · intro y q
    rw [hand]
    exact custody.held y q
  · intro y z q
    rw [hand, hand]
    exact custody.alone y z q

theorem custody_written (custody : Custody s) (free : s.call (.write c) = .idle) :
    Custody (writePacket s c) := by
  have fresh : ¬ Written s ⟨c, s.seqno c⟩ := by
    rw [Written]
    exact Nat.lt_irrefl _
  rw [custody.known] at fresh
  obtain ⟨unplaced, unlisted, unheld⟩ := not_or.mp fresh |>.imp_right not_or.mp
  have more : ∀ q, Written (writePacket s c) q ↔ Written s q ∨ q = ⟨c, s.seqno c⟩ := by
    intro q
    obtain ⟨channel, seqno⟩ := q
    rw [Written, Written, writePacket]
    dsimp only
    rw [Function.update_apply]
    split
    case isTrue same =>
      subst same
      simp only [Packet.mk.injEq, true_and]
      omega
    case isFalse other =>
      simp only [Packet.mk.injEq, other, false_and, or_false]
  refine ⟨?_, custody.once, ?_, ?_⟩
  · intro q
    have before := known_hands custody (.write c) q
    refine Iff.trans (more q) (Iff.symm (Iff.trans places_setCall ?_))
    rw [before, free]
    simp only [Stage.held, Option.some.injEq, eq_comm, reduceCtorEq]
    tauto
  · intro y q held
    rcases held_setCall held with ⟨_, new⟩ | ⟨_, old⟩
    · rw [← Option.some.inj new]
      exact fun there => (List.mem_append.mp there).elim unplaced unlisted
    · exact custody.held y q old
  · refine alone_setCall custody ?_
    rintro q new ⟨y, _, held⟩
    rw [← Option.some.inj new] at held
    exact unheld ⟨y, held⟩

/-- A call puts the packet that it holds on the ring. -/
theorem custody_placed (custody : Custody s) (held : (s.call x).held = some p) :
    Custody { setCall s x .idle with ring := s.ring ++ [p], placed := s.placed ++ [p] } := by
  have there := custody.held x p held
  refine ⟨?_, ?_, ?_, alone_setCall custody (unshared_none rfl)⟩
  · intro q
    have before := known_hands custody x q
    refine Iff.trans before (Iff.symm (Iff.trans places_setCall ?_))
    rw [held]
    simp only [List.mem_append, List.mem_singleton, Stage.held, Option.some.injEq, eq_comm,
      reduceCtorEq]
    tauto
  · dsimp only [setCall]
    rw [List.append_assoc]
    exact List.perm_middle.nodup_iff.mpr (List.nodup_cons.mpr ⟨there, custody.once⟩)
  · intro y q heldY
    rcases held_setCall heldY with ⟨_, none_⟩ | ⟨other, old⟩
    · cases none_
    · have unequal : q ≠ p := by
        rintro rfl
        exact other (custody.alone y x q old held)
      have := custody.held y q old
      simp only [setCall, List.mem_append, List.mem_singleton] at this ⊢
      tauto

/-- A call puts the packet that it holds on cmd_list. -/
theorem custody_listed (custody : Custody s) (held : (s.call x).held = some p) :
    Custody (addToCommandList s x p) := by
  have there := custody.held x p held
  refine ⟨?_, ?_, ?_, alone_setCall custody (unshared_none rfl)⟩
  · intro q
    have before := known_hands custody x q
    refine Iff.trans before (Iff.symm (Iff.trans places_setCall ?_))
    rw [held]
    simp only [addToCommandList, setCall, List.mem_append, List.mem_singleton, Stage.held,
      Option.some.injEq, eq_comm, reduceCtorEq]
    tauto
  · dsimp only [addToCommandList, setCall]
    rw [← List.append_assoc]
    exact (List.perm_append_singleton _ _).nodup_iff.mpr
      (List.nodup_cons.mpr ⟨there, custody.once⟩)
  · intro y q heldY
    rcases held_setCall heldY with ⟨_, none_⟩ | ⟨other, old⟩
    · cases none_
    · have unequal : q ≠ p := by
        rintro rfl
        exact other (custody.alone y x q old held)
      have := custody.held y q old
      simp only [addToCommandList, setCall, List.mem_append, List.mem_singleton] at this ⊢
      tauto

theorem custody_pulled (custody : Custody s) (at_ : s.call (.service i) = .pull) :
    Custody (pullPacket s i) := by
  have empty : (s.call (.service i)).held = none := by
    rw [at_]
    rfl
  rw [pullPacket]
  split
  case h_1 => exact custody_moved custody empty.symm
  case h_2 p rest listed =>
    have once := custody.once
    rw [listed] at once
    obtain ⟨alone, rest_once⟩ := List.nodup_cons.mp (List.perm_middle.nodup_iff.mp once)
    refine ⟨?_, rest_once, ?_, ?_⟩
    · intro q
      have before := known_hands custody (.service i) q
      refine Iff.trans before (Iff.symm (Iff.trans places_setCall ?_))
      rw [empty, listed]
      simp only [setCall, List.mem_cons, Stage.held, Option.some.injEq, eq_comm, reduceCtorEq]
      tauto
    · intro y q held
      rcases held_setCall held with ⟨_, new⟩ | ⟨_, old⟩
      · rw [← Option.some.inj new]
        exact alone
      · have := custody.held y q old
        rw [listed] at this
        simp only [setCall, List.mem_append, List.mem_cons] at this ⊢
        tauto
    · refine alone_setCall custody ?_
      rintro q new ⟨y, _, held⟩
      have := custody.held y q held
      rw [← Option.some.inj new, listed] at this
      exact this (List.mem_append_right _ List.mem_cons_self)

theorem custody_next (custody : Custody s) (moved : next s l = some s') : Custody s' := by
  cases l with
  | write c =>
    rw [next] at moved
    split at moved
    case isTrue free =>
      rw [← Option.some.inj moved]
      exact custody_written custody free
    case isFalse => cases moved
  | submit x =>
    rw [next] at moved
    split at moved
    case h_1 p at_ =>
      have held : (s.call x).held = some p := by
        rw [at_]
        rfl
      rw [← Option.some.inj moved, submitPacket]
      split
      · exact custody_placed custody held
      · exact custody_moved custody held.symm
    case h_2 => cases moved
  | store x =>
    rw [next] at moved
    split at moved
    case h_1 p at_ =>
      rw [← Option.some.inj moved]
      refine custody_listed custody ?_
      rw [at_]
      rfl
    case h_2 => cases moved
  | retrieve i =>
    rw [next] at moved
    split at moved
    case h_1 p rest at_ _ =>
      rw [← Option.some.inj moved]
      obtain ⟨known, once, apart, alone⟩ := custody_moved (x := .service i) (g := .pull) custody (by
        rw [at_]
        rfl)
      exact ⟨known, once, apart, alone⟩
    case h_2 => cases moved
  | pull i =>
    rw [next] at moved
    split at moved
    case isTrue at_ =>
      rw [← Option.some.inj moved]
      exact custody_pulled custody at_
    case isFalse => cases moved

/-- In every run each written packet is in one place. -/
theorem custody_run (reached : Reach sender anyStep s) : Custody s := by
  have kept : ∀ (s : Sender C I) l s', Custody s → anyStep s l → sender.step s l s' →
      Custody s' := fun _ _ _ custody _ moved => custody_next custody moved
  refine invariant_run ?_ kept reached
  rintro s ⟨idle, unwritten, listed, _, placed⟩
  constructor
  · intro p
    simp [Written, unwritten, listed, placed, idle, Stage.held]
  · simp [listed, placed]
  · simp [idle, Stage.held]
  · simp [idle, Stage.held]

end Custody

section Order
variable {C I : Type} [DecidableEq C] [DecidableEq I] {s s' : Sender C I} {x : Call C I}
  {g : Stage C} {p : Packet C} {i : I} {c : C} {l : Label C I}

def Ordered (s : Sender C I) : Prop := ∀ c, sequence s c = List.range (sequence s c).length

omit [DecidableEq I] in
theorem mem_sequence {n : Nat} : n ∈ sequence s c ↔ ⟨c, n⟩ ∈ s.placed := by
  simp only [sequence, List.mem_map, List.mem_filter, decide_eq_true_eq]
  constructor
  · rintro ⟨q, ⟨placed, rfl⟩, rfl⟩
    exact placed
  · intro placed
    exact ⟨⟨c, n⟩, ⟨placed, rfl⟩, rfl⟩

/-- A written packet that is the first of its channel still to be placed has as many
    packets of the channel before it as its number says. -/
theorem first_number (custody : Custody s) (ordered : Ordered s) (first : First s p)
    (held : (s.call x).held = some p) : p.seqno = (sequence s p.channel).length := by
  have mem : ∀ n, n ∈ sequence s p.channel ↔ n < (sequence s p.channel).length := by
    intro n
    conv_lhs => rw [ordered p.channel]
    exact List.mem_range
  have unplaced : p ∉ s.placed := fun there =>
    custody.held x p held (List.mem_append_left _ there)
  have written : Written s p := (custody.known p).mpr (Or.inr (Or.inr ⟨x, held⟩))
  refine Nat.le_antisymm ?_ ?_
  · by_contra more
    have earlier : (sequence s p.channel).length < p.seqno := by omega
    obtain ⟨unlisted, unheld⟩ := first ⟨p.channel, (sequence s p.channel).length⟩ rfl earlier
    have known := (custody.known ⟨p.channel, (sequence s p.channel).length⟩).mp
      (Nat.lt_trans earlier written)
    rcases known with placed | listed | ⟨y, there⟩
    · exact Nat.lt_irrefl _ ((mem _).mp (mem_sequence.mpr placed))
    · exact unlisted listed
    · exact unheld y there
  · by_contra fewer
    exact unplaced (mem_sequence.mp ((mem p.seqno).mpr (by omega)))

theorem sequence_placed (ring : List (Packet C)) :
    sequence { setCall s x g with ring := ring, placed := s.placed ++ [p] } c =
      sequence s c ++ if p.channel = c then [p.seqno] else [] := by
  dsimp only [sequence]
  rw [List.filter_append, List.map_append, List.filter_singleton]
  by_cases same : p.channel = c
  · simp [same]
  · simp [same]

theorem ordered_placed (custody : Custody s) (ordered : Ordered s) (first : First s p)
    (held : (s.call x).held = some p) (ring : List (Packet C)) :
    Ordered { setCall s x g with ring := ring, placed := s.placed ++ [p] } := by
  intro c
  rw [sequence_placed]
  by_cases same : p.channel = c
  · rw [if_pos same, List.length_append, List.length_singleton, List.range_succ, ← ordered c,
      first_number custody ordered first held, same]
  · rw [if_neg same, List.append_nil]
    exact ordered c

/-- A packet that takes a free place keeps the order only if it is the first of its
    channel. -/
theorem order_kept_iff (custody : Custody s) (ordered : Ordered s)
    (held : (s.call x).held = some p) (room : s.ring.length < DRING_SIZE) :
    Ordered (submitPacket s x p) ↔ First s p := by
  rw [submitPacket, if_pos room]
  constructor
  · intro after q same earlier
    have last := after p.channel
    rw [sequence_placed, if_pos rfl, List.length_append, List.length_singleton,
      List.range_succ, ← ordered p.channel] at last
    have number : p.seqno = (sequence s p.channel).length :=
      List.singleton_inj.mp (List.append_cancel_left last)
    have placed : q ∈ s.placed := by
      have : q.seqno ∈ sequence s p.channel := by
        rw [ordered p.channel]
        exact List.mem_range.mpr (number ▸ earlier)
      rw [mem_sequence, ← same] at this
      exact this
    refine ⟨fun listed => ?_, fun y there => ?_⟩
    · exact (List.nodup_append.mp custody.once).2.2 q placed q listed rfl
    · exact custody.held y q there (List.mem_append_left _ placed)
  · intro first
    exact ordered_placed custody ordered first held _

theorem ordered_next (custody : Custody s) (ordered : Ordered s) (turn : InTurn s l)
    (moved : next s l = some s') : Ordered s' := by
  cases l with
  | write c =>
    rw [next] at moved
    split at moved
    case isTrue =>
      rw [← Option.some.inj moved]
      exact ordered
    case isFalse => cases moved
  | submit x =>
    rw [next] at moved
    split at moved
    case h_1 p at_ =>
      have held : (s.call x).held = some p := by
        rw [at_]
        rfl
      rw [← Option.some.inj moved, submitPacket]
      split
      case isTrue room => exact ordered_placed custody ordered (turn p at_ room) held _
      case isFalse => exact ordered
    case h_2 => cases moved
  | store x =>
    rw [next] at moved
    split at moved
    case h_1 =>
      rw [← Option.some.inj moved]
      exact ordered
    case h_2 => cases moved
  | retrieve i =>
    rw [next] at moved
    split at moved
    case h_1 =>
      rw [← Option.some.inj moved]
      exact ordered
    case h_2 => cases moved
  | pull i =>
    rw [next] at moved
    split at moved
    case isTrue =>
      rw [← Option.some.inj moved, pullPacket]
      split <;> exact ordered
    case isFalse => cases moved

end Order

section Drained
variable {C I : Type} [DecidableEq C] [DecidableEq I] {s s' : Sender C I} {x : Call C I}
  {g : Stage C} {p : Packet C} {i : I} {c : C} {l : Label C I}

/-- What waits on cmd_list is still to be looked at. -/
def Followed (s : Sender C I) : Prop :=
  s.cmdList ≠ [] → s.ring ≠ [] ∨ ∃ y, Awake (s.call y)

theorem awake_set (awake : Awake g) : ∃ y, Awake ((setCall s x g).call y) := by
  refine ⟨x, ?_⟩
  rw [setCall_call, if_pos rfl]
  exact awake

theorem followed_next (followed : Followed s) (turn : InTurn s l) (moved : next s l = some s') :
    Followed s' := by
  cases l with
  | write c =>
    rw [next] at moved
    split at moved
    case isTrue =>
      rw [← Option.some.inj moved]
      exact fun _ => Or.inr (awake_set trivial)
    case isFalse => cases moved
  | submit x =>
    rw [next] at moved
    split at moved
    case h_1 p at_ =>
      rw [← Option.some.inj moved, submitPacket]
      split
      case isTrue => exact fun _ => Or.inl (by simp)
      case isFalse full =>
        refine fun _ => Or.inl ?_
        intro empty
        have : s.ring = [] := empty
        rw [this] at full
        exact full (Nat.zero_lt_succ 127)
    case h_2 => cases moved
  | store x =>
    rw [next] at moved
    split at moved
    case h_1 p at_ =>
      rw [← Option.some.inj moved]
      refine fun _ => turn.imp_right ?_
      rintro ⟨y, awake⟩
      refine ⟨y, ?_⟩
      dsimp only [addToCommandList]
      rw [setCall_call, if_neg]
      · exact awake
      · rintro rfl
        rw [at_] at awake
        exact awake
    case h_2 => cases moved
  | retrieve i =>
    rw [next] at moved
    split at moved
    case h_1 =>
      rw [← Option.some.inj moved]
      exact fun _ => Or.inr (awake_set trivial)
    case h_2 => cases moved
  | pull i =>
    rw [next] at moved
    split at moved
    case isTrue =>
      rw [← Option.some.inj moved, pullPacket]
      split
      case h_1 none_ => exact fun some_ => absurd none_ some_
      case h_2 => exact fun _ => Or.inr (awake_set trivial)
    case isFalse => cases moved

omit [DecidableEq C] [DecidableEq I] in
theorem quiet_placed (custody : Custody s) (followed : Followed s) (quiet : Quiet s)
    (written : Written s p) : p ∈ s.placed := by
  have unlisted : s.cmdList = [] := by
    by_contra some_
    rcases followed some_ with ring | ⟨y, awake⟩
    · exact ring quiet.1
    · rw [quiet.2 y] at awake
      exact awake
  rcases (custody.known p).mp written with placed | listed | ⟨y, held⟩
  · exact placed
  · rw [unlisted] at listed
    cases listed
  · rw [quiet.2 y] at held
    cases held

end Drained

section Main
variable {C I : Type} [DecidableEq C] [DecidableEq I] {s s' : Sender C I}

theorem kept_run (reached : Reach sender InTurn s) : Custody s ∧ Ordered s ∧ Followed s := by
  have kept : ∀ (s : Sender C I) l s', Custody s ∧ Ordered s ∧ Followed s → InTurn s l →
      sender.step s l s' → Custody s' ∧ Ordered s' ∧ Followed s' := by
    rintro s l s' ⟨custody, ordered, followed⟩ turn moved
    exact ⟨custody_next custody moved, ordered_next custody ordered turn moved,
      followed_next followed turn moved⟩
  refine invariant_run ?_ kept reached
  rintro s begin_
  refine ⟨custody_run (Reach.start begin_), ?_, fun some_ => absurd begin_.2.2.1 some_⟩
  intro c
  rw [sequence, begin_.2.2.2.2]
  rfl

end Main

section Example

def empty : Sender Bool Unit := ⟨fun _ => 0, fun _ => .idle, [], [], []⟩

theorem empty_start : (sender : System (Sender Bool Unit) (Label Bool Unit)).start empty :=
  ⟨fun _ => rfl, fun _ => rfl, rfl, rfl, rfl⟩

def onePacket : Sender Bool Unit :=
  submitPacket (writePacket empty true) (.write true) ⟨true, 0⟩

theorem onePacket_reached : Reach sender InTurn onePacket := by
  refine Reach.step (l := .submit (.write true))
    (Reach.step (l := .write true) (Reach.start empty_start) trivial rfl) ?_ rfl
  intro p at_ _ q _ earlier
  cases at_
  exact absurd earlier (Nat.not_lt_zero _)

/-- The writes of one channel fill the ring, the first packet of the other channel waits on
    cmd_list, and the ring is served: before the service looks at cmd_list, the second packet
    of that channel is written. -/
def overtaking : List (Label Bool Unit) :=
  (List.replicate DRING_SIZE [.write true, .submit (.write true)]).flatten ++
    [.write false, .submit (.write false), .store (.write false), .retrieve (),
      .write false, .submit (.write false)]

theorem overtaken :
    (follow next anyStep overtaking empty).map (fun s => sequence s false) = some [1] := by
  decide +kernel

end Example

end PacketOrder
