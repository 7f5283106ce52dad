import Dahdi.Library.GuardedRun
import Dahdi.Dynamic.EthAddress

/-!
Local dynamic spans, from dahdi_dynamic_loc.c: how dahdi_dynamic_local_create and
dahdi_dynamic_local_destroy link a span with the others of its key.
-/
namespace LocalSpans
open GuardedRun
open EthAddress (digit2int EINVAL ENOMEM)

section Code

/-- struct dahdi_dynamic_local at its address. What it monitors is kept in the name of the
    span only, -1 for a span that monitors none. -/
structure Local where
  ptr : Nat
  key : Int
  id : Int
  monitor : Int
  peer : Option Nat
  monitorRxPeer : Option Nat
  span : Nat
  deriving DecidableEq

structure Address where
  key : Int
  id : Int
  monitor : Int
  deriving DecidableEq

def parse : List Char → Option Address
  | c0 :: c1 :: c2 :: rest =>
    if c1 ≠ ':' then none
    else
      match rest with
      | [c3, c4] =>
        if c3 ≠ ':' then none
        else if digit2int c0 = -1 ∨ digit2int c2 = -1 then none
        else some ⟨digit2int c0, digit2int c2, digit2int c4⟩
      | _ =>
        if digit2int c0 = -1 ∨ digit2int c2 = -1 then none
        else some ⟨digit2int c0, digit2int c2, -1⟩
  | _ => none

/-- The turn of the loop over the list: none where it leaves by the goto. -/
def linkOne (d l : Local) : Option (Local × Local) :=
  if l.key ≠ d.key then some (d, l)
  else if l.id = d.id then none
  else
    let paired := if d.monitor = -1 then
        if l.peer.isSome then none
        else some ({ d with peer := some l.ptr }, { l with peer := some d.ptr })
      else some (d, l)
    paired.bind fun (d, l) =>
      if d.monitor = l.id then
        if l.monitorRxPeer.isSome then none else some (d, { l with monitorRxPeer := some d.ptr })
      else some (d, l)

def linkAll (d : Local) : List Local → (List Local × Local) × Bool
  | [] => (([], d), true)
  | l :: rest =>
    match linkOne d l with
    | none => ((l :: rest, d), false)
    | some (d, l) =>
      let done := linkAll d rest
      ((l :: done.1.1, done.1.2), done.2)

def forget (ptr : Nat) (l : Local) : Local :=
  { l with
    peer := if l.peer = some ptr then none else l.peer
    monitorRxPeer := if l.monitorRxPeer = some ptr then none else l.monitorRxPeer }

def fresh (ptr span : Nat) (a : Address) : Local := ⟨ptr, a.key, a.id, a.monitor, none, none, span⟩

/-- dahdi_dynamic_local_create, with what kzalloc gives. -/
def localCreate (alloc : Option Nat) (span : Nat) (address : List Char) (list : List Local) :
    Int × List Local :=
  match parse address with
  | none => (-EINVAL, list)
  | some a =>
    match alloc with
    | none => (-ENOMEM, list)
    | some ptr =>
      let done := linkAll (fresh ptr span a) list
      if done.2 then (0, done.1.2 :: done.1.1) else (-EINVAL, done.1.1.map (forget ptr))

/-- dahdi_dynamic_local_destroy -/
def localDestroy (ptr : Nat) (list : List Local) : List Local :=
  (list.map (forget ptr)).filter fun l => l.ptr ≠ ptr

end Code

section Runs

inductive Op where
  | create (alloc : Option Nat) (span : Nat) (address : List Char)
  | destroy (ptr : Nat)

/-- What kzalloc gives is not in use. -/
def Step (s : List Local) : Op → List Local → Prop
  | .create alloc span address, s' =>
    (∀ ptr, alloc = some ptr → ∀ l ∈ s, l.ptr ≠ ptr) ∧ s' = (localCreate alloc span address s).2
  | .destroy ptr, s' => (∃ l ∈ s, l.ptr = ptr) ∧ s' = localDestroy ptr s

def sys : System (List Local) Op := ⟨fun s => s = [], Step⟩

def Paired (l m : Local) : Prop := l.monitor = -1 ∧ m.monitor = -1 ∧ l.key = m.key ∧ l.id ≠ m.id

def Monitors (m l : Local) : Prop := m.key = l.key ∧ m.monitor = l.id

/-- A normal span has the other one of its key for a peer, and each span is monitored by
    the span that names it. -/
structure Good (s : List Local) : Prop where
  peer : ∀ l ∈ s, ∀ p, l.peer = some p ↔ ∃ m ∈ s, m.ptr = p ∧ Paired l m
  monitor : ∀ l ∈ s, ∀ p, l.monitorRxPeer = some p ↔ ∃ m ∈ s, m.ptr = p ∧ Monitors m l

/-- A span that keeps another from being created: one with its id, or one that has the link
    it would get. -/
def Blocks (a : Address) (l : Local) : Prop :=
  l.key = a.key ∧ (l.id = a.id ∨ (a.monitor = -1 ∧ l.peer.isSome = true) ∨
    (a.monitor = l.id ∧ l.monitorRxPeer.isSome = true))

/-- A normal span comes while its key has no monitor, and a monitor while no span of its
    key, itself included, monitors its id. -/
def Ordered (s : List Local) (a : Address) : Prop :=
  (∃ l ∈ s, Blocks a l) ∨
  (a.monitor ≠ a.id ∧ ∀ l ∈ s, l.key = a.key → l.monitor ≠ a.id ∧ (a.monitor = -1 → l.monitor = -1))

def Fair (s : List Local) : Op → Prop
  | .create (some _) _ address => ∀ a, parse address = some a → Ordered s a
  | _ => True

/-- The spans, as they are addressed. -/
def spans (s : List Local) : List Address := s.map fun l => ⟨l.key, l.id, l.monitor⟩

/-- Who sends to whom, by key and id. -/
def PeerOf (s : List Local) (a b : Int × Int) : Prop :=
  ∃ l ∈ s, ∃ m ∈ s, (l.key, l.id) = a ∧ (m.key, m.id) = b ∧ l.peer = some m.ptr

def MonitorOf (s : List Local) (a b : Int × Int) : Prop :=
  ∃ l ∈ s, ∃ m ∈ s, (l.key, l.id) = a ∧ (m.key, m.id) = b ∧ l.monitorRxPeer = some m.ptr

end Runs

section Linking
variable {d l : Local} {s : List Local} {a : Address} {ptr span : Nat}

/-- What a span becomes by a new one, and the new one by a span. -/
def linked (d l : Local) : Local :=
  if l.key = d.key then
    { l with
      peer := if d.monitor = -1 then some d.ptr else l.peer
      monitorRxPeer := if d.monitor = l.id then some d.ptr else l.monitorRxPeer }
  else l

def taken (d l : Local) : Local :=
  if l.key = d.key ∧ d.monitor = -1 then { d with peer := some l.ptr } else d

/-- The address of a span. -/
def address (d : Local) : Address := ⟨d.key, d.id, d.monitor⟩

theorem link_one (d l : Local) :
    (linkOne d l = none ∧ Blocks (address d) l) ∨
    (linkOne d l = some (taken d l, linked d l) ∧ ¬ Blocks (address d) l) := by
  obtain ⟨ptr, key, id, monitor, peer, rx, span⟩ := d
  obtain ⟨ptr', key', id', monitor', peer', rx', span'⟩ := l
  simp only [linkOne, taken, linked, Blocks, address]
  by_cases sameKey : key' = key
  · by_cases sameId : id' = id
    · simp [sameKey, sameId]
    · by_cases normal : monitor = -1
      · by_cases named : monitor = id'
        · subst named
          cases peer' <;> cases rx' <;> simp [sameKey, normal, normal ▸ sameId]
        · cases peer' <;> simp [sameKey, sameId, normal, normal ▸ named]
      · by_cases named : monitor = id'
        · subst named
          cases rx' <;> simp [sameKey, sameId, normal]
        · simp [sameKey, sameId, normal, named]
  · simp [sameKey]

theorem taken_core (d l : Local) :
    (taken d l).ptr = d.ptr ∧ address (taken d l) = address d ∧
      (taken d l).monitorRxPeer = d.monitorRxPeer ∧ (taken d l).span = d.span := by
  unfold taken address
  split <;> exact ⟨rfl, rfl, rfl, rfl⟩

theorem linked_taken (d l m : Local) : linked (taken d l) m = linked d m := by
  unfold taken linked
  split <;> rfl

theorem forget_apart (peer : l.peer ≠ some ptr) (monitor : l.monitorRxPeer ≠ some ptr) : forget ptr l = l := by
  rw [forget, if_neg peer, if_neg monitor]

/-- A link that is taken back was none before. -/
theorem forget_linked (peer : l.peer ≠ some d.ptr) (monitor : l.monitorRxPeer ≠ some d.ptr)
    (free : ¬ Blocks (address d) l) : forget d.ptr (linked d l) = l := by
  unfold linked
  split
  next key =>
    have free : ¬ (l.id = d.id ∨ (d.monitor = -1 ∧ l.peer.isSome = true) ∨
        (d.monitor = l.id ∧ l.monitorRxPeer.isSome = true)) := fun blocks => free ⟨key, blocks⟩
    have peers : (if (if d.monitor = -1 then some d.ptr else l.peer) = some d.ptr then none
        else if d.monitor = -1 then some d.ptr else l.peer) = l.peer := by
      by_cases normal : d.monitor = -1
      · cases held : l.peer with
        | none => simp [normal]
        | some p => exact absurd (.inr (.inl ⟨normal, by rw [held]; rfl⟩)) free
      · simp [normal, peer]
    have monitors : (if (if d.monitor = l.id then some d.ptr else l.monitorRxPeer) = some d.ptr then none
        else if d.monitor = l.id then some d.ptr else l.monitorRxPeer) = l.monitorRxPeer := by
      by_cases named : d.monitor = l.id
      · cases held : l.monitorRxPeer with
        | none => simp [named]
        | some p => exact absurd (.inr (.inr ⟨named, by rw [held]; rfl⟩)) free
      · simp [named, monitor]
    rw [forget]
    dsimp only
    rw [peers, monitors]
  next => exact forget_apart peer monitor

theorem link_all (d : Local) (s : List Local) :
    ((linkAll d s).2 = true ∧ (linkAll d s).1 = (s.map (linked d), s.foldl taken d) ∧
      ∀ l ∈ s, ¬ Blocks (address d) l) ∨
    ((linkAll d s).2 = false ∧ (∃ l ∈ s, Blocks (address d) l) ∧
      ((∀ l ∈ s, l.peer ≠ some d.ptr ∧ l.monitorRxPeer ≠ some d.ptr) →
        (linkAll d s).1.1.map (forget d.ptr) = s)) := by
  induction s generalizing d with
  | nil => exact .inl ⟨rfl, rfl, fun l member => absurd member List.not_mem_nil⟩
  | cons l s ih =>
    rw [linkAll]
    rcases link_one d l with ⟨stops, blocks⟩ | ⟨goes, free⟩
    · right
      rw [stops]
      refine ⟨rfl, ⟨l, List.mem_cons_self, blocks⟩, fun apart => ?_⟩
      have same : ∀ m ∈ l :: s, forget d.ptr m = m := fun m member =>
        forget_apart (apart m member).1 (apart m member).2
      exact (List.map_congr_left same).trans (List.map_id' _)
    · rw [goes]
      obtain ⟨ptr, core, _, _⟩ := taken_core d l
      have ih := ih (taken d l)
      rw [core, ptr] at ih
      rcases ih with ⟨done, both, free'⟩ | ⟨stops, ⟨l', member, blocks⟩, back⟩
      · left
        refine ⟨done, ?_, fun l' member => ?_⟩
        · dsimp only
          have same : linked (taken d l) = linked d := funext fun m => linked_taken d l m
          rw [both, same]
          rfl
        · rcases List.mem_cons.mp member with here | there
          · exact here ▸ free
          · exact free' l' there
      · right
        refine ⟨stops, ⟨l', List.mem_cons_of_mem l member, blocks⟩, fun apart => ?_⟩
        dsimp only
        rw [List.map_cons, back fun m member => apart m (List.mem_cons_of_mem l member),
          forget_linked (apart l List.mem_cons_self).1 (apart l List.mem_cons_self).2 free]

theorem fold_core (d : Local) (s : List Local) :
    (s.foldl taken d).ptr = d.ptr ∧ address (s.foldl taken d) = address d ∧
      (s.foldl taken d).monitorRxPeer = d.monitorRxPeer := by
  induction s generalizing d with
  | nil => exact ⟨rfl, rfl, rfl⟩
  | cons l s ih =>
    obtain ⟨ptr, core, rx, _⟩ := taken_core d l
    obtain ⟨ptr', core', rx'⟩ := ih (taken d l)
    exact ⟨ptr'.trans ptr, core'.trans core, rx'.trans rx⟩

theorem fold_monitor (named : d.monitor ≠ -1) (s : List Local) : s.foldl taken d = d := by
  induction s with
  | nil => rfl
  | cons l s ih =>
    have same : taken d l = d := if_neg fun both => named both.2
    rw [List.foldl_cons, same, ih]

theorem fold_peer (none_ : d.peer = none) (normal : d.monitor = -1)
    (one : ∀ l ∈ s, ∀ m ∈ s, l.key = d.key → m.key = d.key → l = m) (p : Nat) :
    (s.foldl taken d).peer = some p ↔ ∃ l ∈ s, l.ptr = p ∧ l.key = d.key := by
  induction s using List.reverseRecOn with
  | nil => simp [none_]
  | append_singleton s l ih =>
    have before : ∀ l ∈ s, ∀ m ∈ s, l.key = d.key → m.key = d.key → l = m := fun l' here m there =>
      one l' (List.mem_append_left [l] here) m (List.mem_append_left [l] there)
    have last : l ∈ s ++ [l] := List.mem_append_right s List.mem_cons_self
    obtain ⟨_, core, _⟩ := fold_core d s
    have key : (s.foldl taken d).key = d.key := congrArg Address.key core
    have monitor : (s.foldl taken d).monitor = -1 := (congrArg Address.monitor core).trans normal
    rw [List.foldl_append, List.foldl_cons, List.foldl_nil, taken, key, monitor]
    by_cases same : l.key = d.key
    · rw [if_pos ⟨same, rfl⟩]
      constructor
      · intro here
        exact ⟨l, last, Option.some.inj here, same⟩
      · rintro ⟨m, member, ptr, key_⟩
        rw [← ptr, one m member l last key_ same]
    · rw [if_neg fun both => same both.1, ih before]
      constructor
      · rintro ⟨m, member, rest⟩
        exact ⟨m, List.mem_append_left [l] member, rest⟩
      · rintro ⟨m, member, ptr, key_⟩
        rcases List.mem_append.mp member with here | there
        · exact ⟨m, here, ptr, key_⟩
        · rw [List.mem_singleton] at there
          exact absurd (there ▸ key_) same

end Linking

section Steps
variable {s : List Local} {a : Address} {ptr span : Nat} {l m : Local}

/-- What holds of the list beside the links. -/
structure Ok (s : List Local) : Prop where
  good : Good s
  apart : ∀ l ∈ s, ∀ m ∈ s, l.ptr = m.ptr → l = m
  ids : ∀ l ∈ s, ∀ m ∈ s, l.key = m.key → l.id = m.id → l = m
  named : ∀ l ∈ s, l.id ≠ -1

theorem parse_named {text : List Char} (parsed : parse text = some a) : a.id ≠ -1 := by
  unfold parse at parsed
  grind

theorem create_cases {alloc : Option Nat} {text : List Char} (ok : Ok s)
    (apart : ∀ ptr, alloc = some ptr → ∀ l ∈ s, l.ptr ≠ ptr) :
    ((localCreate alloc span text s).2 = s ∧ Fair s (.create alloc span text)) ∨
    (∃ ptr a, alloc = some ptr ∧ parse text = some a ∧ (∀ l ∈ s, ¬ Blocks a l) ∧
      (localCreate alloc span text s).2 =
        s.foldl taken (fresh ptr span a) :: s.map (linked (fresh ptr span a))) := by
  unfold localCreate
  cases parsed : parse text with
  | none =>
    left
    refine ⟨rfl, ?_⟩
    cases alloc with
    | none => trivial
    | some ptr =>
      intro a some_
      rw [parsed] at some_
      cases some_
  | some a =>
    cases alloc with
    | none => exact .inl ⟨rfl, trivial⟩
    | some ptr =>
      dsimp only
      rcases link_all (fresh ptr span a) s with ⟨done, both, free⟩ | ⟨stops, ⟨l, member, blocks⟩, back⟩
      · right
        rw [if_pos done, both]
        exact ⟨ptr, a, rfl, rfl, free, rfl⟩
      · left
        rw [if_neg (by rw [stops]; exact Bool.false_ne_true)]
        have unused : ∀ l ∈ s, l.peer ≠ some ptr ∧ l.monitorRxPeer ≠ some ptr := by
          intro l member
          constructor
          · intro held
            obtain ⟨m, there, same, _⟩ := (ok.good.peer l member ptr).mp held
            exact apart ptr rfl m there same
          · intro held
            obtain ⟨m, there, same, _⟩ := (ok.good.monitor l member ptr).mp held
            exact apart ptr rfl m there same
        refine ⟨back unused, fun a' some_ => ?_⟩
        rw [parsed] at some_
        cases some_
        exact .inl ⟨l, member, blocks⟩

theorem linked_core (d l : Local) :
    (linked d l).ptr = l.ptr ∧ (linked d l).key = l.key ∧ (linked d l).id = l.id ∧
      (linked d l).monitor = l.monitor := by
  unfold linked
  split <;> exact ⟨rfl, rfl, rfl, rfl⟩

theorem paired_linked (d l m : Local) : Paired (linked d l) (linked d m) ↔ Paired l m := by
  obtain ⟨_, key, id, monitor⟩ := linked_core d l
  obtain ⟨_, key', id', monitor'⟩ := linked_core d m
  rw [Paired, Paired, key, id, monitor, key', id', monitor']

theorem monitors_linked (d l m : Local) : Monitors (linked d m) (linked d l) ↔ Monitors m l := by
  obtain ⟨_, key, id, monitor⟩ := linked_core d l
  obtain ⟨_, key', id', monitor'⟩ := linked_core d m
  rw [Monitors, Monitors, key, id, key', monitor']

/-- The new span with its peer, and the list with it. -/
def newest (ptr span : Nat) (a : Address) (s : List Local) : Local := s.foldl taken (fresh ptr span a)

def added (ptr span : Nat) (a : Address) (s : List Local) : List Local :=
  newest ptr span a s :: s.map (linked (fresh ptr span a))

theorem newest_core (ptr span : Nat) (a : Address) (s : List Local) :
    (newest ptr span a s).ptr = ptr ∧ (newest ptr span a s).key = a.key ∧ (newest ptr span a s).id = a.id ∧
      (newest ptr span a s).monitor = a.monitor ∧ (newest ptr span a s).monitorRxPeer = none := by
  obtain ⟨ptr_, core, rx⟩ := fold_core (fresh ptr span a) s
  exact ⟨ptr_, congrArg Address.key core, congrArg Address.id core, congrArg Address.monitor core, rx⟩

theorem added_exists {P : Local → Prop} :
    (∃ m ∈ added ptr span a s, P m) ↔ P (newest ptr span a s) ∨ ∃ m ∈ s, P (linked (fresh ptr span a) m) := by
  simp [added]

theorem paired_newest : Paired l (newest ptr span a s) ↔
    l.monitor = -1 ∧ a.monitor = -1 ∧ l.key = a.key ∧ l.id ≠ a.id := by
  obtain ⟨_, key, id, monitor, _⟩ := newest_core ptr span a s
  rw [Paired, key, id, monitor]

theorem linked_same (key : l.key = a.key) : linked (fresh ptr span a) l =
    { l with
      peer := if a.monitor = -1 then some ptr else l.peer
      monitorRxPeer := if a.monitor = l.id then some ptr else l.monitorRxPeer } := if_pos key

/-- Among the spans that a new one may be paired with there is at most one. -/
theorem one_unpaired (ok : Ok s) (free : ∀ l ∈ s, ¬ Blocks a l) (normal : a.monitor = -1)
    (normals : ∀ l ∈ s, l.key = a.key → l.monitor = -1) (l m : Local) (here : l ∈ s) (there : m ∈ s)
    (key : l.key = a.key) (key' : m.key = a.key) : l = m := by
  by_cases id : l.id = m.id
  · exact ok.ids l here m there (key.trans key'.symm) id
  · have paired : Paired l m := ⟨normals l here key, normals m there key', key.trans key'.symm, id⟩
    have held := (ok.good.peer l here m.ptr).mpr ⟨m, there, rfl, paired⟩
    exact absurd ⟨key, .inr (.inl ⟨normal, by rw [held]; rfl⟩)⟩ (free l here)

theorem newest_peer (ok : Ok s) (free : ∀ l ∈ s, ¬ Blocks a l)
    (ordered : a.monitor = -1 → ∀ l ∈ s, l.key = a.key → l.monitor = -1) (p : Nat) :
    (newest ptr span a s).peer = some p ↔
      ∃ m ∈ added ptr span a s, m.ptr = p ∧ Paired (newest ptr span a s) m := by
  obtain ⟨_, key, id, monitor, _⟩ := newest_core ptr span a s
  rw [added_exists]
  by_cases normal : a.monitor = -1
  · have normals := ordered normal
    have peers := @fold_peer (fresh ptr span a) s rfl normal
      (fun l here m there => one_unpaired ok free normal normals l m here there) p
    rw [newest, peers, ← newest]
    constructor
    · rintro ⟨l, member, ptr_, key_⟩
      obtain ⟨ptr', core⟩ := linked_core (fresh ptr span a) l
      refine .inr ⟨l, member, ptr'.trans ptr_, ?_⟩
      rw [Paired, key, id, monitor, core.1, core.2.1, core.2.2]
      exact ⟨normal, normals l member key_, key_.symm, fun same => free l member ⟨key_, .inl same.symm⟩⟩
    · rintro (⟨_, self⟩ | ⟨l, member, ptr_, paired⟩)
      · exact absurd rfl self.2.2.2
      · obtain ⟨ptr', core⟩ := linked_core (fresh ptr span a) l
        rw [Paired, key, core.1] at paired
        exact ⟨l, member, ptr'.symm.trans ptr_, paired.2.2.1.symm⟩
  · have alone : newest ptr span a s = fresh ptr span a := fold_monitor normal s
    constructor
    · intro held
      rw [alone] at held
      cases held
    · rintro (⟨_, paired⟩ | ⟨_, _, _, paired⟩)
      · exact absurd (monitor.symm.trans paired.1) normal
      · exact absurd (monitor.symm.trans paired.1) normal

theorem linked_peer (ok : Ok s) (free : ∀ l ∈ s, ¬ Blocks a l)
    (ordered : a.monitor = -1 → ∀ l ∈ s, l.key = a.key → l.monitor = -1) (member : l ∈ s) (p : Nat) :
    (linked (fresh ptr span a) l).peer = some p ↔
      ∃ m ∈ added ptr span a s, m.ptr = p ∧ Paired (linked (fresh ptr span a) l) m := by
  obtain ⟨_, core⟩ := linked_core (fresh ptr span a) l
  have old : (∃ m ∈ s, (linked (fresh ptr span a) m).ptr = p ∧
      Paired (linked (fresh ptr span a) l) (linked (fresh ptr span a) m)) ↔ l.peer = some p := by
    rw [ok.good.peer l member p]
    simp only [paired_linked, (linked_core (fresh ptr span a) _).1]
  rw [added_exists, old, paired_newest, (newest_core ptr span a s).1, core.1, core.2.1, core.2.2]
  by_cases gets : l.key = a.key ∧ a.monitor = -1
  · have none_ : l.peer = none := by
      cases held : l.peer with
      | none => rfl
      | some q => exact absurd ⟨gets.1, .inr (.inl ⟨gets.2, by rw [held]; rfl⟩)⟩ (free l member)
    have other : l.id ≠ a.id := fun same => free l member ⟨gets.1, .inl same⟩
    have peer : (linked (fresh ptr span a) l).peer = some ptr := by
      rw [linked_same gets.1]
      exact if_pos gets.2
    rw [peer, none_, Option.some.injEq]
    simp [gets, ordered gets.2 l member gets.1, other]
  · have peer : (linked (fresh ptr span a) l).peer = l.peer := by
      rw [linked]
      split
      next key => exact if_neg fun normal => gets ⟨key, normal⟩
      next => rfl
    rw [peer]
    constructor
    · exact .inr
    · rintro (⟨_, _, normal, key, _⟩ | held)
      · exact absurd ⟨key, normal⟩ gets
      · exact held

theorem linked_monitor (ok : Ok s) (free : ∀ l ∈ s, ¬ Blocks a l) (member : l ∈ s) (p : Nat) :
    (linked (fresh ptr span a) l).monitorRxPeer = some p ↔
      ∃ m ∈ added ptr span a s, m.ptr = p ∧ Monitors m (linked (fresh ptr span a) l) := by
  obtain ⟨_, core⟩ := linked_core (fresh ptr span a) l
  obtain ⟨ptr', key', _, monitor', _⟩ := newest_core ptr span a s
  have old : (∃ m ∈ s, (linked (fresh ptr span a) m).ptr = p ∧
      Monitors (linked (fresh ptr span a) m) (linked (fresh ptr span a) l)) ↔ l.monitorRxPeer = some p := by
    rw [ok.good.monitor l member p]
    simp only [monitors_linked, (linked_core (fresh ptr span a) _).1]
  rw [added_exists, old, Monitors, key', monitor', ptr', core.1, core.2.1]
  by_cases gets : l.key = a.key ∧ a.monitor = l.id
  · have none_ : l.monitorRxPeer = none := by
      cases held : l.monitorRxPeer with
      | none => rfl
      | some q => exact absurd ⟨gets.1, .inr (.inr ⟨gets.2, by rw [held]; rfl⟩)⟩ (free l member)
    have rx : (linked (fresh ptr span a) l).monitorRxPeer = some ptr := by
      rw [linked_same gets.1]
      exact if_pos gets.2
    rw [rx, none_, Option.some.injEq]
    simp [gets]
  · have rx : (linked (fresh ptr span a) l).monitorRxPeer = l.monitorRxPeer := by
      rw [linked]
      split
      next key => exact if_neg fun named => gets ⟨key, named⟩
      next => rfl
    rw [rx]
    constructor
    · exact .inr
    · rintro (⟨_, key, named⟩ | held)
      · exact absurd ⟨key.symm, named⟩ gets
      · exact held

theorem newest_monitor (other : a.monitor ≠ a.id) (unnamed : ∀ l ∈ s, l.key = a.key → l.monitor ≠ a.id)
    (p : Nat) :
    (newest ptr span a s).monitorRxPeer = some p ↔
      ∃ m ∈ added ptr span a s, m.ptr = p ∧ Monitors m (newest ptr span a s) := by
  obtain ⟨_, key, id, monitor, rx⟩ := newest_core ptr span a s
  rw [added_exists, rx, Monitors, monitor, id]
  constructor
  · intro held
    cases held
  · rintro (⟨_, _, self⟩ | ⟨l, member, _, named⟩)
    · exact absurd self other
    · obtain ⟨_, core⟩ := linked_core (fresh ptr span a) l
      rw [Monitors, key, id, core.1, core.2.2] at named
      exact absurd named.2 (unnamed l member named.1)

theorem added_good (ok : Ok s) (free : ∀ l ∈ s, ¬ Blocks a l) :
    Good (added ptr span a s) ↔ Ordered s a := by
  obtain ⟨ptr', key, id, monitor, rx⟩ := newest_core ptr span a s
  have first : newest ptr span a s ∈ added ptr span a s := List.mem_cons_self
  have later (l : Local) (member : l ∈ s) : linked (fresh ptr span a) l ∈ added ptr span a s :=
    List.mem_cons_of_mem _ (List.mem_map_of_mem member)
  constructor
  · intro good
    refine .inr ⟨fun self => ?_, fun l member key_ => ⟨fun names => ?_, fun normal => ?_⟩⟩
    · have held := (good.monitor _ first ptr).mpr ⟨_, first, ptr', rfl, by rw [monitor, id, self]⟩
      rw [rx] at held
      cases held
    · obtain ⟨_, core⟩ := linked_core (fresh ptr span a) l
      have held := (good.monitor _ first _).mpr ⟨_, later l member, rfl, by rw [core.1, key, key_], by
        rw [core.2.2, id, names]⟩
      rw [rx] at held
      cases held
    · have held : (linked (fresh ptr span a) l).peer = some ptr := by
        rw [linked_same key_]
        exact if_pos normal
      obtain ⟨_, _, _, paired⟩ := (good.peer _ (later l member) ptr).mp held
      rw [← (linked_core (fresh ptr span a) l).2.2.2]
      exact paired.1
  · rintro (⟨l, member, blocks⟩ | ⟨other, ordered⟩)
    · exact absurd blocks (free l member)
    · have normals : a.monitor = -1 → ∀ l ∈ s, l.key = a.key → l.monitor = -1 :=
        fun normal l member key_ => (ordered l member key_).2 normal
      constructor
      · intro x member p
        rcases List.mem_cons.mp member with here | there
        · rw [here]
          exact newest_peer ok free normals p
        · obtain ⟨l, old, rfl⟩ := List.mem_map.mp there
          exact linked_peer ok free normals old p
      · intro x member p
        rcases List.mem_cons.mp member with here | there
        · rw [here]
          exact newest_monitor other (fun l member key_ => (ordered l member key_).1) p
        · obtain ⟨l, old, rfl⟩ := List.mem_map.mp there
          exact linked_monitor ok free old p

theorem added_ok (ok : Ok s) (apart : ∀ l ∈ s, l.ptr ≠ ptr) (free : ∀ l ∈ s, ¬ Blocks a l) (named : a.id ≠ -1)
    (ordered : Ordered s a) : Ok (added ptr span a s) := by
  obtain ⟨ptr', key, id, _, _⟩ := newest_core ptr span a s
  constructor
  · exact (added_good ok free).mpr ordered
  · intro x here y there same
    rcases List.mem_cons.mp here with rfl | old <;> rcases List.mem_cons.mp there with rfl | old'
    · rfl
    · obtain ⟨l, member, rfl⟩ := List.mem_map.mp old'
      exact absurd ((linked_core _ l).1.symm.trans (same.symm.trans ptr')) (apart l member)
    · obtain ⟨l, member, rfl⟩ := List.mem_map.mp old
      exact absurd ((linked_core _ l).1.symm.trans (same.trans ptr')) (apart l member)
    · obtain ⟨l, member, rfl⟩ := List.mem_map.mp old
      obtain ⟨m, member', rfl⟩ := List.mem_map.mp old'
      rw [(linked_core _ l).1, (linked_core _ m).1] at same
      rw [ok.apart l member m member' same]
  · intro x here y there key_ id_
    rcases List.mem_cons.mp here with rfl | old <;> rcases List.mem_cons.mp there with rfl | old'
    · rfl
    · obtain ⟨l, member, rfl⟩ := List.mem_map.mp old'
      rw [key, (linked_core _ l).2.1] at key_
      rw [id, (linked_core _ l).2.2.1] at id_
      exact absurd ⟨key_.symm, .inl id_.symm⟩ (free l member)
    · obtain ⟨l, member, rfl⟩ := List.mem_map.mp old
      rw [key, (linked_core _ l).2.1] at key_
      rw [id, (linked_core _ l).2.2.1] at id_
      exact absurd ⟨key_, .inl id_⟩ (free l member)
    · obtain ⟨l, member, rfl⟩ := List.mem_map.mp old
      obtain ⟨m, member', rfl⟩ := List.mem_map.mp old'
      rw [(linked_core _ l).2.1, (linked_core _ m).2.1] at key_
      rw [(linked_core _ l).2.2.1, (linked_core _ m).2.2.1] at id_
      rw [ok.ids l member m member' key_ id_]
  · intro x here
    rcases List.mem_cons.mp here with rfl | old
    · rw [id]
      exact named
    · obtain ⟨l, member, rfl⟩ := List.mem_map.mp old
      rw [(linked_core _ l).2.2.1]
      exact ok.named l member

theorem left_exists {P : Local → Prop} :
    (∃ m ∈ localDestroy ptr s, P m) ↔ ∃ m ∈ s, m.ptr ≠ ptr ∧ P (forget ptr m) := by
  simp only [localDestroy, List.mem_filter, List.mem_map, decide_eq_true_eq]
  constructor
  · rintro ⟨_, ⟨⟨m, member, rfl⟩, other⟩, holds⟩
    exact ⟨m, member, other, holds⟩
  · rintro ⟨m, member, other, holds⟩
    exact ⟨_, ⟨⟨m, member, rfl⟩, other⟩, holds⟩

theorem left_member {x : Local} (member : x ∈ localDestroy ptr s) : ∃ l ∈ s, l.ptr ≠ ptr ∧ x = forget ptr l :=
  left_exists.mp ⟨x, member, rfl⟩

theorem forget_held {held : Option Nat} {p : Nat} :
    (if held = some ptr then none else held) = some p ↔ held = some p ∧ p ≠ ptr := by
  by_cases gone : held = some ptr
  · rw [if_pos gone, gone, Option.some.injEq]
    simp [eq_comm]
  · rw [if_neg gone]
    constructor
    · intro same
      exact ⟨same, fun here => gone (here ▸ same)⟩
    · exact fun both => both.1

theorem destroyed_ok (ok : Ok s) : Ok (localDestroy ptr s) := by
  constructor
  · constructor
    · intro x member p
      obtain ⟨l, old, _, rfl⟩ := left_member member
      have held : (forget ptr l).peer = some p ↔ l.peer = some p ∧ p ≠ ptr := forget_held
      rw [left_exists, held, ok.good.peer l old p]
      constructor
      · rintro ⟨⟨m, there, ptr_, paired⟩, other⟩
        exact ⟨m, there, ptr_.symm ▸ other, ptr_, paired⟩
      · rintro ⟨m, there, other, ptr_, paired⟩
        have ptr_ : m.ptr = p := ptr_
        exact ⟨⟨m, there, ptr_, paired⟩, ptr_ ▸ other⟩
    · intro x member p
      obtain ⟨l, old, _, rfl⟩ := left_member member
      have held : (forget ptr l).monitorRxPeer = some p ↔ l.monitorRxPeer = some p ∧ p ≠ ptr := forget_held
      rw [left_exists, held, ok.good.monitor l old p]
      constructor
      · rintro ⟨⟨m, there, ptr_, monitors⟩, other⟩
        exact ⟨m, there, ptr_.symm ▸ other, ptr_, monitors⟩
      · rintro ⟨m, there, other, ptr_, monitors⟩
        have ptr_ : m.ptr = p := ptr_
        exact ⟨⟨m, there, ptr_, monitors⟩, ptr_ ▸ other⟩
  · intro x here y there same
    obtain ⟨l, old, _, rfl⟩ := left_member here
    obtain ⟨m, old', _, rfl⟩ := left_member there
    rw [ok.apart l old m old' same]
  · intro x here y there key id
    obtain ⟨l, old, _, rfl⟩ := left_member here
    obtain ⟨m, old', _, rfl⟩ := left_member there
    rw [ok.ids l old m old' key id]
  · intro x here
    obtain ⟨l, old, _, rfl⟩ := left_member here
    exact ok.named l old

theorem step_ok {op : Op} {s' : List Local} (ok : Ok s) (moved : Step s op s') :
    (Fair s op → Ok s') ∧ (Good s' → Fair s op) := by
  cases op with
  | create alloc span text =>
    obtain ⟨apart, eq⟩ := moved
    rcases create_cases ok apart with ⟨same, fair⟩ | ⟨ptr, a, alloc_, parsed, free, new⟩
    · rw [eq, same]
      exact ⟨fun _ => ok, fun _ => fair⟩
    · have whole : s' = added ptr span a s := eq.trans new
      subst alloc_
      rw [whole]
      constructor
      · intro fair
        exact added_ok ok (apart ptr rfl) free (parse_named parsed) (fair a parsed)
      · intro good a' parsed'
        have same : a = a' := Option.some.inj (parsed.symm.trans parsed')
        exact same ▸ (added_good ok free).mp good
  | destroy ptr =>
    rw [moved.2]
    exact ⟨fun _ => destroyed_ok ok, fun _ => trivial⟩

end Steps

section Main
variable {s s' : List Local}

theorem reached_ok (reached : Reach sys Fair s) : Ok s := by
  apply @invariant_run _ _ sys Fair Ok _ _ s reached
  · intro s begin_
    have empty : s = [] := begin_
    subst empty
    constructor
    · exact ⟨fun l member => absurd member List.not_mem_nil, fun l member => absurd member List.not_mem_nil⟩
    · exact fun l member => absurd member List.not_mem_nil
    · exact fun l member => absurd member List.not_mem_nil
    · exact fun l member => absurd member List.not_mem_nil
  · intro s op s' ok fair moved
    exact (step_ok ok moved).1 fair

theorem spans_member {a : Address} : a ∈ spans s ↔ ∃ l ∈ s, address l = a := List.mem_map

/-- In a good state the links are what the addresses of the spans say. -/
theorem peer_addressed (ok : Ok s) {a b : Int × Int} : PeerOf s a b ↔
    ⟨a.1, a.2, -1⟩ ∈ spans s ∧ ⟨b.1, b.2, -1⟩ ∈ spans s ∧ a.1 = b.1 ∧ a.2 ≠ b.2 := by
  rw [spans_member, spans_member]
  constructor
  · rintro ⟨l, here, m, there, rfl, rfl, held⟩
    obtain ⟨m', there', same, paired⟩ := (ok.good.peer l here m.ptr).mp held
    rw [ok.apart m' there' m there same] at paired
    exact ⟨⟨l, here, by rw [address, paired.1]⟩, ⟨m, there, by rw [address, paired.2.1]⟩, paired.2.2⟩
  · rintro ⟨⟨l, here, at_⟩, ⟨m, there, at'⟩, key, id⟩
    simp only [address, Address.mk.injEq] at at_ at'
    have paired : Paired l m := by
      rw [Paired, at_.1, at_.2.1, at'.1, at'.2.1]
      exact ⟨at_.2.2, at'.2.2, key, id⟩
    refine ⟨l, here, m, there, ?_, ?_, (ok.good.peer l here m.ptr).mpr ⟨m, there, rfl, paired⟩⟩
    · rw [at_.1, at_.2.1]
    · rw [at'.1, at'.2.1]

theorem monitor_addressed (ok : Ok s) {a b : Int × Int} : MonitorOf s a b ↔
    (∃ monitor, ⟨a.1, a.2, monitor⟩ ∈ spans s) ∧ ⟨b.1, b.2, a.2⟩ ∈ spans s ∧ a.1 = b.1 := by
  simp only [spans_member]
  constructor
  · rintro ⟨l, here, m, there, rfl, rfl, held⟩
    obtain ⟨m', there', same, monitors⟩ := (ok.good.monitor l here m.ptr).mp held
    rw [ok.apart m' there' m there same] at monitors
    exact ⟨⟨l.monitor, l, here, rfl⟩, ⟨m, there, by rw [address, monitors.2]⟩, monitors.1.symm⟩
  · rintro ⟨⟨monitor, l, here, at_⟩, ⟨m, there, at'⟩, key⟩
    simp only [address, Address.mk.injEq] at at_ at'
    have monitors : Monitors m l := by
      rw [Monitors, at_.1, at_.2.1, at'.1]
      exact ⟨key.symm, at'.2.2⟩
    refine ⟨l, here, m, there, ?_, ?_, (ok.good.monitor l here m.ptr).mpr ⟨m, there, rfl, monitors⟩⟩
    · rw [at_.1, at_.2.1]
    · rw [at'.1, at'.2.1]

/-- In runs that are fair the links are as they should be, peers are peers of each other, and
    the links depend on what spans there are only; and just the steps that are not fair end
    that. -/
theorem local_pairing {s : List Local} (reached : Reach sys Fair s) :
    Good s ∧ (∀ a b, PeerOf s a b → PeerOf s b a) ∧
    (∀ s', Reach sys Fair s' → (∀ a, a ∈ spans s ↔ a ∈ spans s') →
      ∀ a b, (PeerOf s a b ↔ PeerOf s' a b) ∧ (MonitorOf s a b ↔ MonitorOf s' a b)) ∧
    (∀ op s', Step s op s' → (Good s' ↔ Fair s op)) := by
  have ok := reached_ok reached
  refine ⟨ok.good, fun a b held => ?_, fun s' reached' same a b => ?_, fun op s' moved => ?_⟩
  · obtain ⟨here, there, key, id⟩ := (peer_addressed ok).mp held
    exact (peer_addressed ok).mpr ⟨there, here, key.symm, id.symm⟩
  · have ok' := reached_ok reached'
    simp only [peer_addressed ok, peer_addressed ok', monitor_addressed ok, monitor_addressed ok', same,
      and_self]
  · have both := step_ok ok moved
    exact ⟨both.2, fun fair => (both.1 fair).good⟩

/-- The steps that are computed. -/
def next (s : List Local) : Op → Option (List Local)
  | .create alloc span text =>
    if ∀ ptr ∈ alloc, ∀ l ∈ s, l.ptr ≠ ptr then some (localCreate alloc span text s).2 else none
  | .destroy ptr => if ∃ l ∈ s, l.ptr = ptr then some (localDestroy ptr s) else none

theorem next_step {op : Op} (moved : next s op = some s') : Step s op s' := by
  cases op with
  | create alloc span text =>
    simp only [next] at moved
    split at moved
    next apart => exact ⟨fun ptr some_ => apart ptr some_, (Option.some.inj moved).symm⟩
    next => cases moved
  | destroy ptr =>
    simp only [next] at moved
    split at moved
    next there => exact ⟨there, (Option.some.inj moved).symm⟩
    next => cases moved

instance (a : Address) (l : Local) : Decidable (Blocks a l) :=
  inferInstanceAs (Decidable (l.key = a.key ∧ (l.id = a.id ∨ (a.monitor = -1 ∧ l.peer.isSome = true) ∨
    (a.monitor = l.id ∧ l.monitorRxPeer.isSome = true))))

instance (s : List Local) (a : Address) : Decidable (Ordered s a) :=
  inferInstanceAs (Decidable ((∃ l ∈ s, Blocks a l) ∨ (a.monitor ≠ a.id ∧
    ∀ l ∈ s, l.key = a.key → l.monitor ≠ a.id ∧ (a.monitor = -1 → l.monitor = -1))))

instance (s : List Local) : (op : Op) → Decidable (Fair s op)
  | .create none _ _ => isTrue trivial
  | .create (some _) _ text => inferInstanceAs (Decidable (∀ a ∈ parse text, Ordered s a))
  | .destroy _ => isTrue trivial

/-- The spans 1:0 and 1:1 and the monitor 1:2:0 of the first, in this order. -/
def inOrder : List Op :=
  [.create (some 1) 1 ['1', ':', '0'], .create (some 2) 2 ['1', ':', '1'],
    .create (some 3) 3 ['1', ':', '2', ':', '0']]

def linkedSpans : List Local :=
  [⟨3, 1, 2, 0, none, none, 3⟩, ⟨2, 1, 1, -1, some 1, none, 2⟩, ⟨1, 1, 0, -1, some 2, some 3, 1⟩]

theorem linked_reached : Reach sys Fair linkedSpans :=
  @follow_reach _ _ sys next Fair _ (fun _ _ _ moved => next_step moved) inOrder _ _ (Reach.start rfl)
    (by decide)

/-- The normal spans the other way round. -/
def turned : List Op :=
  [.create (some 2) 2 ['1', ':', '1'], .create (some 1) 1 ['1', ':', '0'],
    .create (some 3) 3 ['1', ':', '2', ':', '0']]

def turnedSpans : List Local :=
  [⟨3, 1, 2, 0, none, none, 3⟩, ⟨1, 1, 0, -1, some 2, some 3, 1⟩, ⟨2, 1, 1, -1, some 1, none, 2⟩]

/-- In these orders the two normal spans are peers and the monitor hears the first. -/
theorem ordered_linked : PeerOf linkedSpans (1, 0) (1, 1) ∧ PeerOf linkedSpans (1, 1) (1, 0) ∧
    MonitorOf turnedSpans (1, 0) (1, 2) ∧ Good (localDestroy 1 linkedSpans) := by
  have peers : PeerOf linkedSpans (1, 0) (1, 1) :=
    ⟨_, .tail _ (.tail _ (.head _)), _, .tail _ (.head _), rfl, rfl, rfl⟩
  have monitors : MonitorOf linkedSpans (1, 0) (1, 2) :=
    ⟨_, .tail _ (.tail _ (.head _)), _, .head _, rfl, rfl, rfl⟩
  have reached : Reach sys Fair turnedSpans :=
    @follow_reach _ _ sys next Fair _ (fun _ _ _ moved => next_step moved) turned _ _ (Reach.start rfl)
      (by decide)
  have same (a : Address) : a ∈ spans linkedSpans ↔ a ∈ spans turnedSpans := by
    simp only [spans, linkedSpans, turnedSpans, List.map_cons, List.map_nil, List.mem_cons, List.not_mem_nil,
      or_false]
    tauto
  have moved : Step linkedSpans (.destroy 1) (localDestroy 1 linkedSpans) :=
    ⟨⟨_, .tail _ (.tail _ (.head _)), rfl⟩, rfl⟩
  obtain ⟨-, turns, members, kept⟩ := local_pairing linked_reached
  refine ⟨peers, turns _ _ peers, ?_, ?_⟩
  · exact (members _ reached same _ _).2.mp monitors
  · exact (kept _ _ moved).mpr trivial

/-- The monitor comes before the second span. -/
def monitorFirst : List Op :=
  [.create (some 1) 1 ['1', ':', '0'], .create (some 3) 3 ['1', ':', '2', ':', '0'],
    .create (some 2) 2 ['1', ':', '1']]

def pairedMonitor : List Local :=
  [⟨2, 1, 1, -1, some 1, none, 2⟩, ⟨3, 1, 2, 0, some 2, none, 3⟩, ⟨1, 1, 0, -1, some 2, some 3, 1⟩]

/-- The same spans in another order, and the monitor sends to the second span, which does not
    send to it. -/
theorem monitor_paired : Reach sys anyStep linkedSpans ∧ Reach sys anyStep pairedMonitor ∧
    (∀ a, a ∈ spans linkedSpans ↔ a ∈ spans pairedMonitor) ∧ ¬ Good pairedMonitor ∧
    PeerOf pairedMonitor (1, 2) (1, 1) ∧ ¬ PeerOf pairedMonitor (1, 1) (1, 2) ∧
    ¬ PeerOf linkedSpans (1, 2) (1, 1) := by
  have reached : Reach sys anyStep pairedMonitor :=
    @follow_reach _ _ sys next anyStep _ (fun _ _ _ moved => next_step moved) monitorFirst _ _ (Reach.start rfl)
      (by decide)
  refine ⟨reach_mono (fun _ _ _ => trivial) linked_reached, reached, fun a => ?_, fun good => ?_, ?_, ?_, ?_⟩
  · simp only [spans, linkedSpans, pairedMonitor, List.map_cons, List.map_nil, List.mem_cons, List.not_mem_nil,
      or_false]
    tauto
  · obtain ⟨_, _, _, paired⟩ := (good.peer ⟨3, 1, 2, 0, some 2, none, 3⟩ (.tail _ (.head _)) 2).mp rfl
    exact absurd paired.1 (by decide)
  · exact ⟨_, .tail _ (.head _), _, .head _, rfl, rfl, rfl⟩
  · simp [PeerOf, pairedMonitor]
  · simp [PeerOf, linkedSpans]

end Main
end LocalSpans
