import Dahdi.Dynamic.MultiframeTrip

/-!
The spans of one destination, sent in one frame once they are all ready, and what
each span of the peer gets.
-/
namespace SpanGroup
open Dynamic Multiframe MultiframeTrip

section Ready

/-- The spans of ethmf_list that send in one frame. -/
def group (hash : List Octet → BitVec 32) (addrHash : BitVec 32) (list : List Ztdeth) : List Ztdeth :=
  list.filter fun t => decide (t.delay = 0 ∧ hash t.addr = addrHash)

variable {hash : List Octet → BitVec 32} {addrHash : BitVec 32}

theorem sub_address (v : BitVec 16) :
    (v.toInt < maxPerSpanGroup ∧ ¬ v.toInt < 0) ↔ v.toNat < 8 := by
  have few := v.isLt
  rw [BitVec.toInt_eq_toNat_cond]
  unfold maxPerSpanGroup
  split <;> omega

/-- What the pass has counted of the spans it has seen. -/
structure Counted (hash : List Octet → BitVec 32) (addrHash : BitVec 32) (seen : List Ztdeth)
    (r : Ready) : Prop where
  count : r.spanCount = (group hash addrHash seen).length
  most : r.spansReady ≤ r.spanCount
  small : r.spansReady = r.spanCount ↔ ∀ t ∈ group hash addrHash seen, t.subaddr.toNat < 8
  named : ∀ x j, r.spans x = some j →
    ∃ t, seen[j]? = some t ∧ t ∈ group hash addrHash seen ∧ t.subaddr.toNat = x
  found : ∀ t ∈ group hash addrHash seen, t.subaddr.toNat < 8 → r.spans t.subaddr.toNat ≠ none

variable {seen : List Ztdeth} {r : Ready} {t : Ztdeth}

theorem group_inside (inside : t.delay = 0 ∧ hash t.addr = addrHash) :
    group hash addrHash (seen ++ [t]) = group hash addrHash seen ++ [t] := by
  rw [group, List.filter_append, List.filter_cons_of_pos (by simpa using inside)]
  rfl

theorem group_outside (outside : ¬ (t.delay = 0 ∧ hash t.addr = addrHash)) :
    group hash addrHash (seen ++ [t]) = group hash addrHash seen := by
  rw [group, List.filter_append, List.filter_cons_of_neg (by simpa using outside), List.filter_nil,
    List.append_nil]
  rfl

theorem seen_before {u : Ztdeth} {j : Nat} (at_ : seen[j]? = some u) : (seen ++ [t])[j]? = some u := by
  rw [List.getElem?_append_left (List.getElem?_eq_some_iff.mp at_).1]
  exact at_

theorem counted_outside (counted : Counted hash addrHash seen r)
    (outside : ¬ (t.delay = 0 ∧ hash t.addr = addrHash)) : Counted hash addrHash (seen ++ [t]) r := by
  have same := @group_outside hash addrHash seen t outside
  refine ⟨by rw [same]; exact counted.count, counted.most, by rw [same]; exact counted.small, ?_,
    by rw [same]; exact counted.found⟩
  intro x j spans
  obtain ⟨u, at_, member, place⟩ := counted.named x j spans
  exact ⟨u, seen_before at_, by rw [same]; exact member, place⟩

/-- A span whose sub-address lies past the array. -/
theorem counted_past (counted : Counted hash addrHash seen r)
    (inside : t.delay = 0 ∧ hash t.addr = addrHash) (past : ¬ t.subaddr.toNat < 8) :
    Counted hash addrHash (seen ++ [t]) { r with spanCount := r.spanCount + 1 } := by
  have more := @group_inside hash addrHash seen t inside
  have last : t ∈ group hash addrHash (seen ++ [t]) := by
    rw [more]
    exact List.mem_append_right _ List.mem_cons_self
  have most := counted.most
  constructor
  · rw [more, List.length_append, ← counted.count]
    rfl
  · exact Nat.le_succ_of_le most
  · constructor
    · intro all
      simp only at all
      omega
    · intro all
      exact absurd (all t last) past
  · intro x j spans
    obtain ⟨u, at_, member, place⟩ := counted.named x j spans
    refine ⟨u, seen_before at_, ?_, place⟩
    rw [more]
    exact List.mem_append_left _ member
  · intro u member below
    rw [more, List.mem_append, List.mem_singleton] at member
    rcases member with before | rfl
    · exact counted.found u before below
    · exact absurd below past

theorem counted_ready (counted : Counted hash addrHash seen r)
    (inside : t.delay = 0 ∧ hash t.addr = addrHash) (below : t.subaddr.toNat < 8) :
    Counted hash addrHash (seen ++ [t]) { r with
      spanCount := r.spanCount + 1
      spansReady := r.spansReady + 1
      spans := fun x => if x = t.subaddr.toNat then some seen.length else r.spans x } := by
  have more := @group_inside hash addrHash seen t inside
  constructor
  · rw [more, List.length_append, ← counted.count]
    rfl
  · exact Nat.succ_le_succ counted.most
  · simp only [more, Nat.add_right_cancel_iff, List.forall_mem_append, List.forall_mem_singleton, below,
      and_true]
    exact counted.small
  · intro x j spans
    simp only at spans
    split at spans
    · rename_i here
      rw [Option.some.injEq] at spans
      refine ⟨t, by rw [← spans, List.getElem?_concat_length], ?_, here.symm⟩
      rw [more]
      exact List.mem_append_right _ List.mem_cons_self
    · obtain ⟨u, at_, member, place⟩ := counted.named x j spans
      refine ⟨u, seen_before at_, ?_, place⟩
      rw [more]
      exact List.mem_append_left _ member
  · intro u member small
    simp only
    split
    · simp
    · rename_i elsewhere
      rw [more, List.mem_append, List.mem_singleton] at member
      rcases member with before | rfl
      · exact counted.found u before small
      · exact absurd rfl elsewhere

/-- The pass over spans that are all ready. -/
theorem count_ready {rest : List Ztdeth} (counted : Counted hash addrHash seen r)
    (ready : ∀ t ∈ group hash addrHash rest, t.ready = true) :
    (∀ r', countReady hash addrHash seen.length r rest = some r' →
      Counted hash addrHash (seen ++ rest) r') ∧
    ((∀ t ∈ group hash addrHash rest, t.subaddr.toNat < 8) →
      ∃ r', countReady hash addrHash seen.length r rest = some r') := by
  induction rest generalizing seen r with
  | nil =>
    constructor
    · intro r' done
      rw [countReady, Option.some.injEq] at done
      rw [List.append_nil, ← done]
      exact counted
    · intro _
      exact ⟨r, rfl⟩
  | cons t rest ih =>
    have longer : seen ++ t :: rest = (seen ++ [t]) ++ rest := List.append_cons seen t rest
    have step : seen.length + 1 = (seen ++ [t]).length := by rw [List.length_append]; rfl
    rw [longer, countReady, step]
    by_cases inside : t.delay = 0 ∧ hash t.addr = addrHash
    · have here : group hash addrHash (t :: rest) = t :: group hash addrHash rest :=
        List.filter_cons_of_pos (by simpa using inside)
      rw [here] at ready ⊢
      have later : ∀ u ∈ group hash addrHash rest, u.ready = true := fun u member =>
        ready u (List.mem_cons_of_mem _ member)
      simp only [if_pos inside, ready t List.mem_cons_self, ↓reduceIte]
      by_cases below : t.subaddr.toNat < 8
      · obtain ⟨low, high⟩ := (sub_address t.subaddr).mpr below
        rw [if_pos low, if_neg high]
        obtain ⟨only, all⟩ := ih (counted_ready counted inside below) later
        exact ⟨only, fun small => all fun u member => small u (List.mem_cons_of_mem _ member)⟩
      · constructor
        · intro r' done
          split at done
          · rename_i low
            split at done
            · simp at done
            · rename_i high
              exact absurd ((sub_address t.subaddr).mp ⟨low, high⟩) below
          · exact (ih (counted_past counted inside below) later).1 r' done
        · intro small
          exact absurd (small t List.mem_cons_self) below
    · have here : group hash addrHash (t :: rest) = group hash addrHash rest :=
        List.filter_cons_of_neg (by simpa using inside)
      rw [here] at ready ⊢
      rw [if_neg inside]
      exact ih (counted_outside counted inside) ready

theorem counted_none : Counted hash addrHash [] ⟨0, 0, fun _ => none⟩ := by
  constructor
  · rfl
  · exact Nat.le_refl 0
  · simp [group]
  · intro x j spans
    simp at spans
  · intro t member
    simp [group] at member

end Ready

section Placed

/-- Spans in the order of their sub-addresses, which are their places. -/
structure Placed (group zs : List Ztdeth) : Prop where
  length : zs.length = group.length
  place : ∀ (x : Nat) (t : Ztdeth), zs[x]? = some t → t ∈ group ∧ t.subaddr.toNat = x

variable {group zs : List Ztdeth}

theorem placed_subaddrs (placed : Placed group zs) :
    zs.map (fun t => t.subaddr.toNat) = List.range zs.length := by
  apply List.ext_getElem
  · rw [List.length_map, List.length_range]
  · intro x below inside
    rw [List.length_map] at below
    rw [List.getElem_map, List.getElem_range]
    exact (placed.place x zs[x] (List.getElem?_eq_getElem below)).2

theorem placed_perm (placed : Placed group zs) : zs.Perm group := by
  have apart : zs.Nodup := by
    apply List.Nodup.of_map fun t => t.subaddr.toNat
    rw [placed_subaddrs placed]
    exact List.nodup_range
  have part : zs ⊆ group := by
    intro t member
    obtain ⟨x, at_⟩ := List.getElem?_of_mem member
    exact (placed.place x t at_).1
  exact (List.subperm_of_subset apart part).perm_of_length_le (Nat.le_of_eq placed.length.symm)

theorem placed_at (placed : Placed group zs) {t : Ztdeth} (member : t ∈ group) :
    zs[t.subaddr.toNat]? = some t := by
  obtain ⟨x, at_⟩ := List.getElem?_of_mem ((placed_perm placed).mem_iff.mpr member)
  rw [(placed.place x t at_).2]
  exact at_

/-- The places of as many spans as there are places. -/
theorem places_apart (places : ∀ x < group.length, ∃ t ∈ group, t.subaddr.toNat = x) :
    ∀ t ∈ group, t.subaddr.toNat < group.length := by
  have part : List.range group.length ⊆ group.map fun t => t.subaddr.toNat := by
    intro x member
    obtain ⟨t, inside, place⟩ := places x (List.mem_range.mp member)
    rw [← place]
    exact List.mem_map_of_mem inside
  have all := (List.subperm_of_subset List.nodup_range part).perm_of_length_le (by
    rw [List.length_map, List.length_range])
  intro t member
  exact List.mem_range.mp (all.mem_iff.mpr (List.mem_map_of_mem member))

theorem map_some {α β : Type*} {f : α → Option β} {l : List α} {bs : List β} :
    l.mapM f = some bs ↔ l.map f = bs.map some := by
  induction l generalizing bs with
  | nil => cases bs <;> simp
  | cons a l ih =>
    cases bs with
    | nil => cases head : f a <;> cases tail : l.mapM f <;> simp [List.mapM_cons, head, tail]
    | cons b bs =>
      rw [List.map_cons, List.map_cons, List.cons.injEq, ← ih, List.mapM_cons]
      cases head : f a with
      | none => simp
      | some c => cases tail : l.mapM f <;> simp

variable {list : List Ztdeth} {spans : Nat → Option Nat} {n : Nat}

theorem framed_at : framed list spans n = some zs ↔
    zs.length = n ∧ ∀ x < n, (spans x).bind (fun i => list[i]?) = zs[x]? := by
  rw [framed, map_some]
  constructor
  · intro same
    have length := congrArg List.length same
    rw [List.length_map, List.length_map, List.length_range] at length
    refine ⟨length.symm, ?_⟩
    intro x below
    have here := congrArg (fun l => l[x]?) same
    simp only [List.getElem?_map, List.getElem?_range below, Option.map_some] at here
    rw [List.getElem?_eq_getElem (by omega)] at here ⊢
    exact Option.some.inj here
  · rintro ⟨length, at_⟩
    apply List.ext_getElem?
    intro x
    by_cases below : x < n
    · rw [List.getElem?_map, List.getElem?_map, List.getElem?_range below, Option.map_some,
        at_ x below, List.getElem?_eq_getElem (by omega)]
      rfl
    · rw [List.getElem?_eq_none (by rw [List.length_map, List.length_range]; omega),
        List.getElem?_eq_none (by rw [List.length_map]; omega)]

end Placed

section Sender
variable {hash : List Octet → BitVec 32} {addrHash : BitVec 32} {list zs : List Ztdeth} {r : Ready}

theorem framed_placed (counted : Counted hash addrHash list r)
    (done : framed list r.spans (group hash addrHash list).length = some zs) :
    Placed (group hash addrHash list) zs := by
  obtain ⟨length, at_⟩ := framed_at.mp done
  refine ⟨length, ?_⟩
  intro x t here
  have below : x < (group hash addrHash list).length := by
    rw [← length]
    exact (List.getElem?_eq_some_iff.mp here).1
  rw [← at_ x below] at here
  obtain ⟨i, spans, value⟩ := Option.bind_eq_some_iff.mp here
  obtain ⟨u, first, member, place⟩ := counted.named x i spans
  rw [first, Option.some.injEq] at value
  rw [← value]
  exact ⟨member, place⟩

theorem placed_framed (counted : Counted hash addrHash list r)
    (places : ∀ x < (group hash addrHash list).length,
      ∃ t ∈ group hash addrHash list, t.subaddr.toNat = x)
    (few : (group hash addrHash list).length ≤ maxSpans) :
    ∃ zs, framed list r.spans (group hash addrHash list).length = some zs := by
  have all : ∀ x < (group hash addrHash list).length, ∃ t, (r.spans x).bind (fun i => list[i]?) = some t := by
    intro x below
    obtain ⟨t, member, place⟩ := places x below
    unfold maxSpans at few
    have present := counted.found t member (by omega)
    rw [place] at present
    obtain ⟨i, spans⟩ := Option.ne_none_iff_exists'.mp present
    obtain ⟨u, at_, _⟩ := counted.named x i spans
    refine ⟨u, ?_⟩
    rw [spans]
    exact at_
  choose value found using all
  refine ⟨List.ofFn fun x : Fin (group hash addrHash list).length => value x.val x.isLt, ?_⟩
  apply framed_at.mpr
  refine ⟨List.length_ofFn, ?_⟩
  intro x below
  rw [found x below, List.getElem?_ofFn, dif_pos below]

theorem trx_counted (ready : ∀ t ∈ group hash addrHash list, t.ready = true) {n : Nat}
    {spans : Nat → Option Nat} (done : trxSpansReady hash addrHash list = some (n, spans))
    (some_ : n ≠ 0) :
    n = (group hash addrHash list).length ∧ ∃ r, Counted hash addrHash list r ∧ r.spans = spans := by
  have pass := (@count_ready hash addrHash [] ⟨0, 0, fun _ => none⟩ list counted_none ready).1
  rw [List.nil_append, List.length_nil] at pass
  unfold trxSpansReady at done
  split at done
  · simp at done
  · rename_i r result
    have counted := pass r result
    simp only [Option.some.injEq, Prod.mk.injEq] at done
    obtain ⟨count, same⟩ := done
    refine ⟨?_, r, counted, same⟩
    split at count
    · rename_i full
      rw [← count, ← full.2.2, counted.count]
    · exact absurd count.symm some_

theorem trx_all (ready : ∀ t ∈ group hash addrHash list, t.ready = true)
    (some_ : group hash addrHash list ≠ [])
    (small : ∀ t ∈ group hash addrHash list, t.subaddr.toNat < 8) :
    ∃ r, Counted hash addrHash list r ∧
      trxSpansReady hash addrHash list = some ((group hash addrHash list).length, r.spans) := by
  obtain ⟨only, all⟩ := @count_ready hash addrHash [] ⟨0, 0, fun _ => none⟩ list counted_none ready
  rw [List.nil_append, List.length_nil] at only
  obtain ⟨r, result⟩ := all small
  have counted := only r result
  have count := counted.count
  have full := counted.small.mpr small
  have positive := List.length_pos_iff.mpr some_
  refine ⟨r, counted, ?_⟩
  rw [List.length_nil] at result
  unfold trxSpansReady
  rw [result]
  simp only
  rw [if_pos ⟨by omega, by omega, full.symm⟩, full, count]

theorem rbs_channels {chan : Nat} {rbs : Nat} (known : rbsOf chan = some rbs) : chan = 24 ∨ chan = 31 := by
  unfold rbsOf at known
  split at known
  · rename_i few
    exact Or.inl few
  · split at known
    · rename_i many
      exact Or.inr many
    · simp at known

theorem assemble_known {stale : Octet} {frame : Frame} (done : assemble stale zs = some frame) :
    zs.length ≤ maxSpans ∧ ∀ t ∈ zs, t.realChannels = 24 ∨ t.realChannels = 31 := by
  unfold assemble at done
  split at done
  · simp at done
  · rename_i few
    refine ⟨Nat.not_lt.mp few, ?_⟩
    split at done
    · simp at done
    · rename_i rbs found
      intro t member
      obtain ⟨x, at_⟩ := List.getElem?_of_mem member
      have here := congrArg (fun l => l[x]?) (map_some.mp found)
      simp only [List.getElem?_map, at_, Option.map_some] at here
      obtain ⟨words, _, known⟩ := Option.map_eq_some_iff.mp here.symm
      exact rbs_channels known.symm

/-- The group of a span after its message was stored. -/
def sending (hash : List Octet → BitVec 32) (e : Ethmf) (i : Nat) (z : Ztdeth) (msg : List Octet) :
    List Ztdeth :=
  group hash (hash z.addr) (e.list.set i (store z msg))

/-- A span in use on a running interface. -/
structure Running (e : Ethmf) (i : Nat) (z : Ztdeth) : Prop where
  at_ : e.list[i]? = some z
  running : e.shutdown = false
  dev : z.dev = true
  usable : z.delay = 0

variable {e e' : Ethmf} {i : Nat} {z : Ztdeth} {msg : List Octet} {stale : Octet} {frame : Frame}

theorem sending_some (started : Running e i z) : sending hash e i z msg ≠ [] := by
  have kept : (store z msg).delay = z.delay ∧ (store z msg).addr = z.addr := by
    unfold store
    split <;> exact ⟨rfl, rfl⟩
  have member : store z msg ∈ e.list.set i (store z msg) :=
    List.mem_set (List.getElem?_eq_some_iff.mp started.at_).1 _
  apply List.ne_nil_of_mem (a := store z msg)
  rw [sending, group, List.mem_filter]
  refine ⟨member, ?_⟩
  rw [kept.1, kept.2, started.usable]
  simp

/-- The frame that goes out has the spans of the group in their places. -/
theorem transmit_frame (started : Running e i z) (waiting : ∀ t ∈ sending hash e i z msg, Waiting t)
    (done : transmit hash stale e i msg = some (some frame, e')) :
    ∃ zs, Placed (sending hash e i z msg) zs ∧ (∀ t ∈ zs, Sendable t) ∧ zs.length ≤ maxSpans ∧
      frame = frameOf stale zs := by
  unfold transmit at done
  simp only [started.at_, started.running, started.dev, Bool.false_eq_true, ↓reduceIte,
    Bool.not_true] at done
  split at done
  · simp at done
  · rename_i n spans counts
    split at done
    · simp at done
    · rename_i some_
      obtain ⟨rfl, r, counted, rfl⟩ := trx_counted (fun t member => (waiting t member).ready) counts some_
      split at done
      · simp at done
      · rename_i zs framed_
        have placed := framed_placed counted framed_
        split at done
        · simp at done
        · rename_i frame' assembled_
          simp only [Option.some.injEq, Prod.mk.injEq] at done
          obtain ⟨few, known⟩ := assemble_known assembled_
          have sendable : ∀ t ∈ zs, Sendable t := by
            intro t member
            exact ⟨waiting t ((placed_perm placed).mem_iff.mp member), known t member⟩
          have same := assembled_.symm.trans (assembled few sendable)
          refine ⟨zs, placed, sendable, few, ?_⟩
          rw [← done.1]
          exact Option.some.inj same

theorem transmit_all (stale : Octet) (started : Running e i z)
    (waiting : ∀ t ∈ sending hash e i z msg, Waiting t)
    (few : (sending hash e i z msg).length ≤ maxSpans)
    (places : ∀ x < (sending hash e i z msg).length, ∃ t ∈ sending hash e i z msg, t.subaddr.toNat = x)
    (known : ∀ t ∈ sending hash e i z msg, t.realChannels = 24 ∨ t.realChannels = 31) :
    ∃ frame e', transmit hash stale e i msg = some (some frame, e') := by
  have small : ∀ t ∈ sending hash e i z msg, t.subaddr.toNat < 8 := by
    intro t member
    have below := places_apart places t member
    unfold maxSpans at few
    omega
  obtain ⟨r, counted, counts⟩ := trx_all (fun t member => (waiting t member).ready)
    (sending_some started) small
  obtain ⟨zs, framed_⟩ := placed_framed counted places few
  have placed := framed_placed counted framed_
  have sendable : ∀ t ∈ zs, Sendable t := by
    intro t member
    have inside := (placed_perm placed).mem_iff.mp member
    exact ⟨waiting t inside, known t inside⟩
  have assembled_ := @assembled stale zs (by rw [placed.length]; exact few) sendable
  have some_ : (group hash (hash z.addr) (e.list.set i (store z msg))).length ≠ 0 :=
    Nat.ne_of_gt (List.length_pos_iff.mpr (sending_some started))
  unfold transmit
  simp only [started.at_, started.running, started.dev, Bool.false_eq_true, ↓reduceIte, Bool.not_true,
    counts, some_, framed_, assembled_]
  exact ⟨_, _, rfl⟩

end Sender

section Peer

/-- A span of the peer that carries the sub-address of a span of the group. -/
def Addressed (source : List Octet) (t y : Ztdeth) : Prop :=
  y.delay = 0 ∧ y.addr = source ∧ y.subaddr = t.subaddr

/-- Each span of the peer that is addressed gets the message of its sub-address,
    and no other span changes. -/
def Delivers (group : List Ztdeth) (source : List Octet) (p p' : Ethmf) : Prop :=
  ∀ (x : Nat) (y y' : Ztdeth), p.list[x]? = some y → p'.list[x]? = some y' →
    (∀ t ∈ group, Addressed source t y → deliver y (!t.noFrontPadding) t.msgbuf = some y') ∧
      ((∀ t ∈ group, ¬ Addressed source t y) → y' = y)

/-- The spans of the group in a frame that leave every present span of the peer
    where it expects its voice. -/
structure Heard (group : List Ztdeth) (source : List Octet) (p : Ethmf) : Prop where
  reached : p.shutdown = true → ∀ y ∈ p.list, ∀ t ∈ group, Addressed source t y → t.subaddr.toNat = 0
  single : ∀ (x x' : Nat) (y y' : Ztdeth), p.list[x]? = some y → p.list[x']? = some y' → ∀ t ∈ group,
    Addressed source t y → Addressed source t y' → x = x'
  free : ∀ y ∈ p.list, ∀ t ∈ group, Addressed source t y → y.refcnt ≠ 1
  even : ∀ t ∈ group, ∀ u ∈ group, t.subaddr.toNat < u.subaddr.toNat → t.noFrontPadding = false →
    u.noFrontPadding = true → (∃ y ∈ p.list, Addressed source t y) → (∃ y ∈ p.list, Addressed source u y) →
      Silent u

variable {group zs : List Ztdeth} {source : List Octet} {p p' : Ethmf} {t y : Ztdeth} {x : Nat}

/-- A message that arrives leaves its trace. -/
theorem deliver_traced {z z' : Ztdeth} {front : Bool} {msg : List Octet}
    (done : deliver z front msg = some z') : z'.delivered = z.delivered ++ [msg] := by
  obtain ⟨span, _, rfl⟩ := Option.map_eq_some_iff.mp done
  rfl

theorem hit_addressed {j : Nat} (placed : Placed group zs) (at_ : zs[j]? = some t)
    (found : hit p.list source j = some x) : ∃ y ∈ p.list, Addressed source t y := by
  obtain ⟨_, y, present, _, delay, addr, subaddr⟩ := hit_spec found
  refine ⟨y, List.mem_of_getElem? present, delay, addr, ?_⟩
  rw [subaddr, ← (placed.place j t at_).2, BitVec.ofNat_toNat, BitVec.setWidth_eq]

theorem addressed_place (addressed : Addressed source t y) : y.subaddr.toNat = t.subaddr.toNat := by
  rw [addressed.2.2]

theorem find_addressed (at_ : p.list[x]? = some y) (addressed : Addressed source t y) :
    ∃ i z, findEthmf p.list source t.subaddr = some i ∧ p.list[i]? = some z ∧ Addressed source t z := by
  cases found : findEthmf p.list source t.subaddr with
  | none =>
    have nobody := List.findIdx?_eq_none_iff.mp found y (List.mem_of_getElem? at_)
    rw [addressed.1, addressed.2.1, addressed.2.2] at nobody
    simp at nobody
  | some i =>
    obtain ⟨z, present, delay, addr, subaddr⟩ := find_spec found
    exact ⟨i, z, rfl, present, delay, addr, subaddr⟩

/-- A present span whose buffer is free, alone at its address, is the one its pass
    finds. -/
theorem heard_hit (heard : Heard group source p) (member : t ∈ group) (at_ : p.list[x]? = some y)
    (addressed : Addressed source t y) : hit p.list source t.subaddr.toNat = some x := by
  obtain ⟨i, z, found, present, also⟩ := find_addressed at_ addressed
  obtain rfl := heard.single i x z y present at_ t member also addressed
  have free := heard.free z (List.mem_of_getElem? present) t member also
  rw [hit, BitVec.ofNat_toNat, BitVec.setWidth_eq, found]
  simp only [present]
  rw [if_neg (by omega)]

variable {passes : Nat}

/-- Where the spans are heard, every one gets its message. -/
theorem heard_told (placed : Placed group zs) (sendable : ∀ t ∈ zs, Sendable t)
    (heard : Heard group source p) (member : t ∈ group) (at_ : p.list[x]? = some y)
    (addressed : Addressed source t y) :
    told t (skipAfter p.list source zs (t.subaddr.toNat + 1)) = t.msgbuf := by
  have here := placed_at placed member
  have able := sendable t (List.mem_of_getElem? here)
  have step : skipAfter p.list source zs (t.subaddr.toNat + 1) =
      skipNext t (skipAfter p.list source zs t.subaddr.toNat) := by
    rw [skipAfter, heard_hit heard member at_ addressed, here]
  rw [step, skipNext]
  cases padding : t.noFrontPadding with
  | false => exact told_front able padding
  | true =>
    rw [if_pos rfl]
    rcases skip_after_cases p.list source zs t.subaddr.toNat with zero | ⟨eight, j, i, u, before, found,
      there, front⟩
    · rw [zero]
      exact told_plain able padding
    · rw [eight]
      apply (told_shifted able padding).mpr
      obtain ⟨first, place⟩ := placed.place j u there
      exact heard.even u first t member (by omega) front padding (hit_addressed placed there found)
        ⟨y, List.mem_of_getElem? at_, addressed⟩

theorem heard_delivers (placed : Placed group zs) (sendable : ∀ t ∈ zs, Sendable t)
    (after : After p.list source zs (if p.shutdown then 1 else zs.length) p'.list)
    (heard : Heard group source p) : Delivers group source p p' := by
  intro x y y' before now
  have came := after.came x y y' before now
  constructor
  · intro t member addressed
    have here := placed_at placed member
    have inside := (List.getElem?_eq_some_iff.mp here).1
    have reached : t.subaddr.toNat < if p.shutdown then 1 else zs.length := by
      cases down : p.shutdown with
      | false => exact inside
      | true =>
        rw [heard.reached down y (List.mem_of_getElem? before) t member addressed]
        exact Nat.zero_lt_one
    have found := heard_hit heard member before addressed
    rw [Came, addressed_place addressed, if_pos ⟨reached, found⟩] at came
    obtain ⟨u, at_, done⟩ := came
    rw [here, Option.some.injEq] at at_
    rw [← at_, heard_told placed sendable heard member before addressed] at done
    exact done
  · intro nobody
    by_cases both : y.subaddr.toNat < (if p.shutdown then 1 else zs.length) ∧
        hit p.list source y.subaddr.toNat = some x
    · rw [Came, if_pos both] at came
      obtain ⟨t, at_, _⟩ := came
      obtain ⟨_, z, present, _, delay, addr, subaddr⟩ := hit_spec both.2
      rw [before, Option.some.injEq] at present
      obtain ⟨member, place⟩ := placed.place _ t at_
      refine absurd ?_ (nobody t member)
      rw [present]
      exact ⟨delay, addr, by rw [subaddr, ← place, BitVec.ofNat_toNat, BitVec.setWidth_eq]⟩
    · rw [Came, if_neg both] at came
      exact came

/-- What a delivery tells of the pass that made it. -/
theorem delivered_hit (placed : Placed group zs)
    (after : After p.list source zs passes p'.list) (delivers : Delivers group source p p')
    (member : t ∈ group) (at_ : p.list[x]? = some y) (addressed : Addressed source t y) :
    t.subaddr.toNat < passes ∧ hit p.list source t.subaddr.toNat = some x ∧
      told t (skipAfter p.list source zs (t.subaddr.toNat + 1)) = t.msgbuf := by
  have inside : x < p'.list.length := by
    rw [after.length]
    exact (List.getElem?_eq_some_iff.mp at_).1
  have now := List.getElem?_eq_getElem inside
  have delivered := deliver_traced ((delivers x y _ at_ now).1 t member addressed)
  have came := after.came x y _ at_ now
  rw [Came, addressed_place addressed] at came
  split at came
  · rename_i both
    obtain ⟨u, here, done⟩ := came
    rw [placed_at placed member, Option.some.injEq] at here
    have trace := deliver_traced done
    rw [delivered, ← here] at trace
    have same := List.append_cancel_left trace
    rw [List.cons.injEq] at same
    exact ⟨both.1, both.2, same.1.symm⟩
  · rw [came] at delivered
    simp at delivered

theorem delivers_heard (placed : Placed group zs) (sendable : ∀ t ∈ zs, Sendable t)
    (after : After p.list source zs (if p.shutdown then 1 else zs.length) p'.list)
    (delivers : Delivers group source p p') : Heard group source p := by
  constructor
  · intro down y present t member addressed
    obtain ⟨x, at_⟩ := List.getElem?_of_mem present
    have reached := (delivered_hit placed after delivers member at_ addressed).1
    rw [down, if_pos rfl] at reached
    omega
  · intro x x' y y' at_ at' t member addressed also
    have first := (delivered_hit placed after delivers member at_ addressed).2.1
    have second := (delivered_hit placed after delivers member at' also).2.1
    rw [first, Option.some.injEq] at second
    exact second
  · intro y present t member addressed
    obtain ⟨x, at_⟩ := List.getElem?_of_mem present
    obtain ⟨_, z, same, free, _⟩ := hit_spec (delivered_hit placed after delivers member at_ addressed).2.1
    rw [at_, Option.some.injEq] at same
    rw [same]
    omega
  · rintro t first u second before front plain ⟨y, present, addressed⟩ ⟨z, also, there⟩
    obtain ⟨x, at_⟩ := List.getElem?_of_mem present
    obtain ⟨x', at'⟩ := List.getElem?_of_mem also
    obtain ⟨_, found, _⟩ := delivered_hit placed after delivers first at_ addressed
    obtain ⟨_, again, message⟩ := delivered_hit placed after delivers second at' there
    have eight := skip_after_padded before found (placed_at placed first) front
    have here := placed_at placed second
    have step : skipAfter p.list source zs (u.subaddr.toNat + 1) = 8 := by
      rw [skipAfter, again, here]
      simp only [skipNext, plain, ↓reduceIte, eight]
    rw [step] at message
    exact (told_shifted (sendable u (List.mem_of_getElem? here)) plain).mp message

end Peer

section Trip
variable {hash : List Octet → BitVec 32} {e : Ethmf} {i : Nat} {z : Ztdeth} {msg : List Octet}
  {source : List Octet} {p : Ethmf}

/-- The message that goes out is received as it should be. -/
def Trip (hash : List Octet → BitVec 32) (stale : Octet) (e : Ethmf) (i : Nat) (z : Ztdeth)
    (msg source : List Octet) (p : Ethmf) : Prop :=
  ∃ frame e', transmit hash stale e i msg = some (some frame, e') ∧
    ∃ p', rcv p source frame = some p' ∧ p'.list.length = p.list.length ∧
      Delivers (sending hash e i z msg) source p p'

/-- A group of the numbers that fit, of channels the sender knows, whose
    sub-addresses are the places of the frame. -/
structure Aligned (group : List Ztdeth) (source : List Octet) (p : Ethmf) : Prop where
  few : group.length ≤ maxSpans
  places : ∀ x < group.length, ∃ t ∈ group, t.subaddr.toNat = x
  known : ∀ t ∈ group, t.realChannels = 24 ∨ t.realChannels = 31
  heard : Heard group source p

theorem trip_aligned {stale : Octet} (started : Running e i z)
    (waiting : ∀ t ∈ sending hash e i z msg, Waiting t) (trip : Trip hash stale e i z msg source p) :
    Aligned (sending hash e i z msg) source p := by
  have some_ : 1 ≤ (sending hash e i z msg).length := List.length_pos_iff.mpr (sending_some started)
  obtain ⟨frame, e', done, p', received, _, delivers⟩ := trip
  obtain ⟨zs, placed, sendable, few, rfl⟩ := transmit_frame started waiting done
  rw [← placed.length] at some_
  obtain ⟨_, again, after⟩ := @received_after zs source stale p some_ few sendable
  rw [received, Option.some.injEq] at again
  subst again
  constructor
  · rw [← placed.length]
    exact few
  · intro x below
    have at_ := List.getElem?_eq_getElem (by rw [placed.length]; exact below : x < zs.length)
    exact ⟨_, placed.place x _ at_⟩
  · intro t member
    exact (sendable t ((placed_perm placed).mem_iff.mpr member)).known
  · exact delivers_heard placed sendable after delivers

theorem aligned_trip (stale : Octet) (started : Running e i z)
    (waiting : ∀ t ∈ sending hash e i z msg, Waiting t)
    (aligned : Aligned (sending hash e i z msg) source p) : Trip hash stale e i z msg source p := by
  have some_ : 1 ≤ (sending hash e i z msg).length := List.length_pos_iff.mpr (sending_some started)
  obtain ⟨frame, e', done⟩ := transmit_all stale started waiting aligned.few aligned.places aligned.known
  obtain ⟨zs, placed, sendable, few, rfl⟩ := transmit_frame started waiting done
  rw [← placed.length] at some_
  obtain ⟨p', received, after⟩ := @received_after zs source stale p some_ few sendable
  exact ⟨_, e', done, p', received, after.length, heard_delivers placed sendable after aligned.heard⟩

/-- The spans of one destination reach the present spans of the peer exactly when
    the group is aligned. -/
theorem multiframe_trip_iff (stale : Octet) (started : Running e i z)
    (waiting : ∀ t ∈ sending hash e i z msg, Waiting t) :
    Trip hash stale e i z msg source p ↔ Aligned (sending hash e i z msg) source p := by
  constructor
  · exact trip_aligned started waiting
  · exact aligned_trip stale started waiting

def line : Span where
  chans := List.replicate 24 ⟨.other, false, 0, 0, ⟨List.replicate 8 0x55, rfl⟩,
    ⟨List.replicate 8 0, rfl⟩, []⟩
  some := by decide
  few := by decide
  alarms := 0
  txcnt := 0
  rxcnt := 0
  err := 0

def station (subaddr : BitVec 16) (noFrontPadding ready : Bool) : Ztdeth where
  addr := [0, 0, 0, 0, 0, 1]
  subaddr := subaddr
  span := line
  dev := true
  msgbuf := message line
  ready := ready
  delay := 0
  realChannels := 24
  noFrontPadding := noFrontPadding
  refcnt := 0
  delivered := []

theorem station_waits (subaddr : BitVec 16) (noFrontPadding : Bool) :
    Waiting (station subaddr noFrontPadding true) := ⟨rfl, line, rfl, rfl⟩

/-- One span of 24 channels and its peer. -/
theorem multiframe_trip_single : Trip (fun _ => 0) 0 ⟨[station 0 false false], false⟩ 0
    (station 0 false false) (message line) [0, 0, 0, 0, 0, 1] ⟨[station 0 false false], false⟩ := by
  have group : sending (fun _ => 0) ⟨[station 0 false false], false⟩ 0 (station 0 false false)
      (message line) = [station 0 false true] := rfl
  apply (multiframe_trip_iff 0 ⟨rfl, rfl, rfl, rfl⟩ ?_).mpr
  · rw [group]
    refine ⟨by decide, ?_, ?_, ?_, ?_, ?_, ?_⟩
    · intro x below
      simp only [List.length_cons, List.length_nil] at below
      obtain rfl : x = 0 := by omega
      exact ⟨_, List.mem_cons_self, rfl⟩
    · intro t member
      rw [List.mem_singleton.mp member]
      exact Or.inl rfl
    · intro down
      simp at down
    · intro x x' y y' at_ at'
      have first := (List.getElem?_eq_some_iff.mp at_).1
      have second := (List.getElem?_eq_some_iff.mp at').1
      simp only [List.length_cons, List.length_nil] at first second
      omega
    · intro y member
      rw [List.mem_singleton.mp member]
      simp [station]
    · intro t first u second before
      rw [List.mem_singleton.mp first, List.mem_singleton.mp second] at before
      exact absurd before (Nat.lt_irrefl _)
  · rw [group]
    intro t member
    rw [List.mem_singleton.mp member]
    exact station_waits 0 false

/-- A span without front padding behind one with it: the receiver skips eight octets
    of its voice. -/
theorem voice_behind_padding :
    Running ⟨[station 0 false true, station 1 true false], false⟩ 1 (station 1 true false) ∧
    sending (fun _ => 0) ⟨[station 0 false true, station 1 true false], false⟩ 1 (station 1 true false)
      (message line) = [station 0 false true, station 1 true true] ∧
    (∀ t ∈ [station 0 false true, station 1 true true], Waiting t) ∧
    ¬ Trip (fun _ => 0) 0 ⟨[station 0 false true, station 1 true false], false⟩ 1 (station 1 true false)
      (message line) [0, 0, 0, 0, 0, 1] ⟨[station 0 false false, station 1 true false], false⟩ := by
  have started : Running ⟨[station 0 false true, station 1 true false], false⟩ 1
      (station 1 true false) := ⟨rfl, rfl, rfl, rfl⟩
  have group : sending (fun _ => 0) ⟨[station 0 false true, station 1 true false], false⟩ 1
      (station 1 true false) (message line) = [station 0 false true, station 1 true true] := rfl
  have waiting : ∀ t ∈ [station 0 false true, station 1 true true], Waiting t := by
    intro t member
    rcases List.mem_cons.mp member with rfl | later
    · exact station_waits 0 false
    · rw [List.mem_singleton.mp later]
      exact station_waits 1 true
  refine ⟨started, group, waiting, ?_⟩
  intro trip
  have aligned := trip_aligned started (by rw [group]; exact waiting) trip
  rw [group] at aligned
  have silent := aligned.heard.even (station 0 false true) List.mem_cons_self (station 1 true true)
    (List.mem_cons_of_mem _ List.mem_cons_self) (by decide) rfl rfl
    ⟨station 0 false false, List.mem_cons_self, rfl, rfl, rfl⟩
    ⟨station 1 true false, List.mem_cons_of_mem _ List.mem_cons_self, rfl, rfl, rfl⟩
  have loud : (0x55 : Octet) ∈ voice (station 1 true true) := by decide +kernel
  exact absurd (silent 0x55 loud) (by decide)

end Trip

end SpanGroup
