import Mathlib

/-!
Lists threaded through one pointer of each node, the last of them null.
-/
namespace PointerChain
variable {T S : Type*} {next : T → Option T}

inductive Chain (next : T → Option T) : Option T → List T → Prop where
  | nil : Chain next none []
  | cons {x : T} {rest : List T} : Chain next (next x) rest → Chain next (some x) (x :: rest)

/-- The body for each node, as long as the steps suffice. -/
def forEach (body : S → T → S) (next : T → Option T) : Nat → Option T → S → Option S
  | 0, _, _ => none
  | _ + 1, none, s => some s
  | fuel + 1, some x, s => forEach body next fuel (next x) (body s x)

theorem chain_unique {start : Option T} {nodes nodes' : List T} (chain : Chain next start nodes)
    (again : Chain next start nodes') : nodes = nodes' := by
  induction chain generalizing nodes' with
  | nil =>
    cases again
    rfl
  | cons _ ih =>
    cases again with
    | cons rest => rw [ih rest]

theorem chain_from {start : Option T} {before behind : List T} {x : T}
    (chain : Chain next start (before ++ x :: behind)) : Chain next (some x) (x :: behind) := by
  induction before generalizing start with
  | nil =>
    cases chain with
    | cons rest => exact Chain.cons rest
  | cons y before ih =>
    cases chain with
    | cons rest => exact ih rest

/-- A chain that comes to its end meets no node twice. -/
theorem chain_nodup {start : Option T} {nodes : List T} (chain : Chain next start nodes) :
    nodes.Nodup := by
  induction chain with
  | nil => exact List.nodup_nil
  | @cons x rest tail ih =>
    apply List.nodup_cons.mpr
    refine ⟨?_, ih⟩
    intro member
    obtain ⟨before, behind, place⟩ := List.append_of_mem member
    have short := chain_unique (chain_from (place ▸ tail)) (Chain.cons tail)
    have length := congrArg List.length short
    rw [place] at length
    simp only [List.length_cons, List.length_append] at length
    omega

theorem forEach_chain {body : S → T → S} {start : Option T} {nodes : List T}
    (chain : Chain next start nodes) {fuel : Nat} (enough : nodes.length < fuel) (s : S) :
    forEach body next fuel start s = some (nodes.foldl body s) := by
  induction chain generalizing fuel s with
  | nil =>
    cases fuel with
    | zero => cases enough
    | succ fuel => rfl
  | cons _ ih =>
    cases fuel with
    | zero => cases enough
    | succ fuel => exact ih (Nat.lt_of_succ_lt_succ enough) _

theorem chain_congr {next' : T → Option T} {start : Option T} {nodes : List T}
    (chain : Chain next start nodes) (same : ∀ x ∈ nodes, next' x = next x) :
    Chain next' start nodes := by
  induction chain with
  | nil => exact Chain.nil
  | @cons x rest _ ih =>
    apply Chain.cons
    rw [same x List.mem_cons_self]
    exact ih fun y member => same y (List.mem_cons_of_mem x member)

section thread
variable [DecidableEq T]

/-- The pointers that thread these nodes behind a node. -/
def thread (next : T → Option T) : T → List T → T → Option T
  | last, [] => Function.update next last none
  | last, x :: rest => thread (Function.update next last (some x)) x rest

theorem thread_other {last : T} {nodes : List T} {y : T} (outside : y ∉ last :: nodes) :
    thread next last nodes y = next y := by
  rw [List.mem_cons, not_or] at outside
  obtain ⟨other, outside⟩ := outside
  induction nodes generalizing last next with
  | nil => exact Function.update_of_ne other _ _
  | cons x rest ih =>
    rw [List.mem_cons, not_or] at outside
    rw [thread, ih outside.1 outside.2, Function.update_of_ne other]

theorem thread_chain {last : T} {nodes : List T} (once : (last :: nodes).Nodup) :
    Chain (thread next last nodes) (thread next last nodes last) nodes := by
  induction nodes generalizing last next with
  | nil =>
    rw [thread, Function.update_self]
    exact Chain.nil
  | cons x rest ih =>
    obtain ⟨fresh, once⟩ := List.nodup_cons.mp once
    rw [thread, thread_other fresh, Function.update_self]
    exact Chain.cons (ih once)

/-- Nothing of the old pointers of the threaded nodes is left. -/
theorem thread_congr {next' : T → Option T} {last : T} {nodes : List T} (once : (last :: nodes).Nodup)
    (same : ∀ y, y ∉ last :: nodes → next' y = next y) :
    thread next' last nodes = thread next last nodes := by
  induction nodes generalizing last next next' with
  | nil =>
    funext y
    by_cases here : y = last
    · rw [here, thread, thread, Function.update_self, Function.update_self]
    · rw [thread, thread, Function.update_of_ne here, Function.update_of_ne here]
      exact same y (by simp [here])
  | cons x rest ih =>
    obtain ⟨_, later⟩ := List.nodup_cons.mp once
    apply ih later
    intro y outside
    by_cases here : y = last
    · rw [here, Function.update_self, Function.update_self]
    · rw [Function.update_of_ne here, Function.update_of_ne here]
      apply same
      rw [List.mem_cons, not_or]
      exact ⟨here, outside⟩

omit [DecidableEq T] in
theorem chain_start {start : Option T} {nodes : List T} (chain : Chain next start nodes) :
    start = nodes.head? := by
  cases chain with
  | nil => rfl
  | cons _ => rfl

omit [DecidableEq T] in
/-- Two threads through the same nodes have the same pointers there. -/
theorem chain_same {next' : T → Option T} {last : T} {nodes : List T}
    (chain : Chain next (next last) nodes) (again : Chain next' (next' last) nodes) :
    ∀ y ∈ last :: nodes, next' y = next y := by
  induction nodes generalizing last with
  | nil =>
    intro y member
    rw [List.mem_singleton.mp member, chain_start chain, chain_start again]
  | cons x rest ih =>
    intro y member
    have first := chain_start chain
    have first' := chain_start again
    rw [List.head?_cons] at first first'
    rw [first] at chain
    rw [first'] at again
    cases chain with
    | cons chain =>
      cases again with
      | cons again =>
        rcases List.mem_cons.mp member with here | later
        · rw [here, first, first']
        · exact ih chain again y later

theorem thread_iff {next' : T → Option T} {last : T} {nodes : List T} (once : (last :: nodes).Nodup) :
    thread next' last nodes = next ↔
      Chain next (next last) nodes ∧ ∀ y, y ∉ last :: nodes → next' y = next y := by
  constructor
  · intro same
    rw [← same]
    exact ⟨thread_chain once, fun y outside => (thread_other outside).symm⟩
  · intro both
    obtain ⟨chain, others⟩ := both
    funext y
    by_cases member : y ∈ last :: nodes
    · exact chain_same chain (thread_chain once) y member
    · rw [thread_other member, others y member]

end thread

end PointerChain

/-!
Followers threaded behind their leaders: every one has a leader, which is itself or leads
itself, and a leader reaches its followers in the order in which they stand after it.
-/
namespace Followers
open PointerChain
variable {T : Type*} [DecidableEq T] {after : T → List T} {leader : T → T} {next : T → Option T}

/-- The followers that stand after a leader. -/
def followers (after : T → List T) (leader : T → T) (m : T) : List T :=
  (after m).filter fun t => decide (leader t = m)

structure Linked (after : T → List T) (leader : T → T) (next : T → Option T) : Prop where
  own : ∀ m, leader m = m → Chain next (next m) (followers after leader m)
  led : ∀ c, leader c ≠ c → leader (leader c) = leader c ∧ c ∈ followers after leader (leader c)

theorem mem_followers {m t : T} : t ∈ followers after leader m ↔ t ∈ after m ∧ leader t = m := by
  rw [followers, List.mem_filter, decide_eq_true_eq]

theorem followers_nodup {m : T} (once : (m :: after m).Nodup) :
    (m :: followers after leader m).Nodup := by
  obtain ⟨fresh, once⟩ := List.nodup_cons.mp once
  apply List.nodup_cons.mpr
  exact ⟨fun member => fresh (mem_followers.mp member).1, once.filter _⟩

/-- Who has no followers has no next one. -/
theorem own_none (linked : Linked after leader next) {c : T} (own : leader c = c)
    (childless : ∀ t, t ≠ c → leader t ≠ c) (fresh : c ∉ after c) : next c = none := by
  have chain := linked.own c own
  have empty : followers after leader c = [] := by
    apply List.eq_nil_iff_forall_not_mem.mpr
    intro t member
    obtain ⟨later, follows⟩ := mem_followers.mp member
    exact childless t (ne_of_mem_of_not_mem later fresh) follows
  rw [empty] at chain
  generalize next c = start at chain
  cases chain
  rfl

theorem other_followers {c v m : T} (before : leader c ≠ m) (now : v ≠ m) :
    followers after (Function.update leader c v) m = followers after leader m := by
  apply List.filter_congr
  intro t _
  by_cases same : t = c
  · rw [same, Function.update_self, decide_eq_false before, decide_eq_false now]
  · rw [Function.update_of_ne same]

/-- One without followers turns to a leader or away from it, and the leader is threaded
    again. -/
theorem linked_turned (once : ∀ m, (m :: after m).Nodup) (linked : Linked after leader next)
    {c k v : T} (childless : ∀ t, t ≠ c → leader t ≠ c) (other : k ≠ c) (leads : leader k = k)
    (before : leader c = c ∨ leader c = k) (now : v = c ∨ v = k ∧ c ∈ after k) :
    Linked after (Function.update leader c v)
      (thread (Function.update next c none) k (followers after (Function.update leader c v) k)) := by
  have stays : ∀ t, t ≠ c → Function.update leader c v t = leader t := by
    intro t apart
    exact Function.update_of_ne apart _ _
  constructor
  · intro m own
    by_cases again : m = k
    · rw [again]
      exact thread_chain (followers_nodup (once k))
    · have outside : ∀ t, t = m ∨ t ∈ followers after (Function.update leader c v) m →
          t ∉ k :: followers after (Function.update leader c v) k := by
        intro t here there
        have mine : Function.update leader c v t = m := by
          rcases here with same | member
          · rw [same, own]
          · exact (mem_followers.mp member).2
        rcases List.mem_cons.mp there with same | member
        · rw [same, stays k other, leads] at mine
          exact again mine.symm
        · exact again (mine.symm.trans (mem_followers.mp member).2)
      rw [thread_other (outside m (Or.inl rfl))]
      by_cases same : m = c
      · rw [same, Function.update_self]
        have empty : followers after (Function.update leader c v) c = [] := by
          apply List.eq_nil_iff_forall_not_mem.mpr
          intro t member
          obtain ⟨later, follows⟩ := mem_followers.mp member
          have apart : t ≠ c := ne_of_mem_of_not_mem later (List.nodup_cons.mp (once c)).1
          rw [stays t apart] at follows
          exact childless t apart follows
        rw [empty]
        exact Chain.nil
      · have self : leader m = m := (stays m same).symm.trans own
        have kept : followers after (Function.update leader c v) m = followers after leader m := by
          apply other_followers
          · rcases before with mine | theirs
            · rw [mine]
              exact Ne.symm same
            · rw [theirs]
              exact Ne.symm again
          · rcases now with mine | theirs
            · rw [mine]
              exact Ne.symm same
            · rw [theirs.1]
              exact Ne.symm again
        rw [Function.update_of_ne same]
        rw [kept] at outside ⊢
        apply chain_congr (linked.own m self)
        intro t member
        have apart : t ≠ c := by
          intro equal
          have follows := (mem_followers.mp member).2
          rw [equal] at follows
          rcases before with mine | theirs
          · exact same (follows.symm.trans mine)
          · exact again (follows.symm.trans theirs)
        rw [thread_other (outside t (Or.inr member)), Function.update_of_ne apart]
  · intro t follows
    by_cases same : t = c
    · rw [same, Function.update_self] at follows ⊢
      rcases now with mine | ⟨mine, later⟩
      · exact absurd mine follows
      · subst mine
        refine ⟨(stays _ other).trans leads, ?_⟩
        rw [mem_followers, Function.update_self]
        exact ⟨later, rfl⟩
    · rw [stays t same] at follows ⊢
      obtain ⟨top, member⟩ := linked.led t follows
      have apart : leader t ≠ c := childless t same
      rw [stays _ apart]
      refine ⟨top, ?_⟩
      rw [mem_followers, stays t same]
      exact ⟨(mem_followers.mp member).1, rfl⟩

end Followers
