import Dahdi.Channel.Chanconfig

/-!
What recalc_slaves and the steps of DAHDI_CHANCONFIG around it do to the masters and to
the links of the slaves.
-/
namespace Chanconfig
open Followers PointerChain
variable {T S : Type} [DecidableEq T] {b : Board T S} {s s' : Chans T} {chan m t : T} {c : Chan T}

def masters (s : Chans T) (t : T) : T := (s t).master

def links (s : Chans T) (t : T) : Option T := (s t).nextslave

/-- The slaves of a channel that stand after it in its span. -/
def slaves (b : Board T S) (s : Chans T) (m : T) : List T := followers (behind b) (masters s) m

/-- The links that recalc_slaves leaves. -/
def relinked (b : Board T S) (master : T → T) (next : T → Option T) (m : T) : T → Option T :=
  match b.span m with
  | none => next
  | some _ => thread next m (followers (behind b) master m)

/-- The links after a channel has left its master. -/
def unlinked (b : Board T S) (master : T → T) (next : T → Option T) (chan : T) : T → Option T :=
  if master chan = chan then next
  else relinked b (Function.update master chan chan) (Function.update next chan none) (master chan)

/-- The links after a channel has come to a master. -/
def enslaved (b : Board T S) (master : T → T) (next : T → Option T) (chan n : T) : T → Option T :=
  if n = chan then next else relinked b master next n

/-- The channel supports the signalling, and a cross connect has its channel. -/
def fits (sigcap sigtype : Sig) (dacsChan : Option T) : Prop :=
  supports sigcap sigtype = true ∧ ¬ (has sigtype sigDacsBit = true ∧ dacsChan = none)

instance (sigcap sigtype : Sig) (dacsChan : Option T) : Decidable (fits sigcap sigtype dacsChan) :=
  inferInstanceAs (Decidable (_ ∧ _))

theorem link_thread (master : T → T) (last : T) (chans : List T) (next : T → Option T) :
    linkSlaves master m last chans next =
      thread next last (chans.filter fun x => decide (master x = m)) := by
  induction chans generalizing last next with
  | nil => rfl
  | cons x rest ih =>
    rw [linkSlaves, List.filter_cons]
    by_cases here : master x = m
    · rw [if_pos here, if_pos (by simp [here]), ih, thread]
    · rw [if_neg here, if_neg (by simp [here]), ih]

omit [DecidableEq T] in
/-- A channel stands once in its span, and its position is right. -/
theorem behind_once (b : Board T S) (t : T) : (t :: behind b t).Nodup := by
  rw [behind]
  cases home : b.span t with
  | none => exact List.nodup_singleton t
  | some sp =>
    obtain ⟨before, rest, place, pos⟩ := b.placed t sp home
    have once := b.once sp
    have cut : (before ++ t :: rest).drop (before.length + 1) = rest := by
      rw [← List.drop_drop, List.drop_left]
      rfl
    rw [place] at once
    simp only
    rw [place, pos, cut]
    exact (List.nodup_append.mp once).2.1

theorem slaves_once (b : Board T S) (s : Chans T) (m : T) : (m :: slaves b s m).Nodup :=
  followers_nodup (behind_once b m)

omit [DecidableEq T] in
theorem behind_homeless (homeless : b.span m = none) : behind b m = [] := by
  rw [behind, homeless]

theorem setChan_same : setChan s t c t = c := Function.update_self _ _ _

theorem setChan_other {u : T} (other : u ≠ t) : setChan s t c u = s u :=
  Function.update_of_ne other _ _

theorem masters_setChan : masters (setChan s t c) = Function.update (masters s) t c.master := by
  funext u
  by_cases here : u = t
  · rw [here, masters, setChan_same, Function.update_self]
  · rw [masters, setChan_other here, Function.update_of_ne here, masters]

theorem links_setChan : links (setChan s t c) = Function.update (links s) t c.nextslave := by
  funext u
  by_cases here : u = t
  · rw [here, links, setChan_same, Function.update_self]
  · rw [links, setChan_other here, Function.update_of_ne here, links]

/-- Apart from its links no channel is changed. -/
theorem recalc_chan (b : Board T S) (s : Chans T) (m t : T) :
    recalcSlaves b m s t = { s t with nextslave := relinked b (masters s) (links s) m t } := by
  rw [recalcSlaves, relinked, followers]
  cases b.span m with
  | none => rfl
  | some _ =>
    simp only
    rw [setNext, link_thread]
    rfl

theorem masters_recalc : masters (recalcSlaves b m s) = masters s := by
  funext t
  rw [masters, recalc_chan, masters]

theorem links_recalc : links (recalcSlaves b m s) = relinked b (masters s) (links s) m := by
  funext t
  rw [links, recalc_chan]

theorem relinked_homed {master : T → T} {next : T → Option T} (home : b.span m ≠ none) :
    relinked b master next m = thread next m (followers (behind b) master m) := by
  rw [relinked]
  cases there : b.span m with
  | none => exact absurd there home
  | some _ => rfl

theorem relinked_homeless {master : T → T} {next : T → Option T} (homeless : b.span m = none) :
    relinked b master next m = next := by
  rw [relinked, homeless]

section steps
variable {n : T} {idlebits : Int} {sigtype : Sig} {dacsChan : Option T}

theorem masters_unlink : masters (unlink b s chan) = Function.update (masters s) chan chan := by
  rw [unlink]
  split
  case isTrue slave => rw [masters_recalc, masters_setChan]
  case isFalse own =>
    rw [not_not] at own
    funext t
    by_cases here : t = chan
    · rw [here, masters, own, Function.update_self]
    · rw [Function.update_of_ne here]

theorem links_unlink : links (unlink b s chan) = unlinked b (masters s) (links s) chan := by
  have master : masters s chan = (s chan).master := rfl
  rw [unlink, unlinked, master]
  by_cases own : (s chan).master = chan
  · rw [if_pos own, if_neg (not_not.mpr own)]
  · rw [if_neg own, if_pos own, links_recalc, masters_setChan, links_setChan]

theorem masters_enslave : masters (enslave b s chan n) = Function.update (masters s) chan n := by
  rw [enslave]
  simp only
  split
  · rw [masters_recalc, masters_setChan]
  · rw [masters_setChan]

theorem links_enslave : links (enslave b s chan n) =
    enslaved b (Function.update (masters s) chan n) (links s) chan n := by
  have kept : links (setChan s chan { s chan with master := n }) = links s := by
    rw [links_setChan]
    exact Function.update_eq_self _ _
  rw [enslave, enslaved]
  simp only
  by_cases own : n = chan
  · rw [if_pos own, if_neg (not_not.mpr own), kept]
  · rw [if_neg own, if_pos own, links_recalc, masters_setChan, kept]

/-- Neither master nor link is changed. -/
theorem masters_kept (master : c.master = (s t).master) : masters (setChan s t c) = masters s := by
  rw [masters_setChan, master]
  exact Function.update_eq_self _ _

theorem links_kept (nextslave : c.nextslave = (s t).nextslave) : links (setChan s t c) = links s := by
  rw [links_setChan, nextslave]
  exact Function.update_eq_self _ _

omit [DecidableEq T] in
theorem dropNetdev_links (b : Board T S) (c : Chan T) :
    (dropNetdev b c).master = c.master ∧ (dropNetdev b c).nextslave = c.nextslave := by
  rw [dropNetdev]
  split
  · exact ⟨rfl, rfl⟩
  · exact ⟨rfl, rfl⟩

theorem signalled_links :
    masters (setChan s chan (signalled sigtype idlebits (s chan))) = masters s ∧
    links (setChan s chan (signalled sigtype idlebits (s chan))) = links s :=
  ⟨masters_kept rfl, links_kept rfl⟩

theorem connected_links :
    masters (setChan s chan (connected idlebits dacsChan (s chan))) = masters s ∧
    links (setChan s chan (connected idlebits dacsChan (s chan))) = links s := by
  cases dacsChan with
  | none => exact ⟨masters_kept rfl, links_kept rfl⟩
  | some _ => exact ⟨masters_kept rfl, links_kept rfl⟩

theorem typed_links :
    masters (setChan s chan (typed sigtype (s chan))) = masters s ∧
    links (setChan s chan (typed sigtype (s chan))) = links s :=
  ⟨masters_kept rfl, links_kept rfl⟩

theorem finish_links {res out : Int} {r : Request} {a : Answers}
    (done : finish b s chan n res r a = some (out, s')) :
    masters s' = masters s ∧ links s' = links s := by
  have made : (makeNetdev b n chan a (s chan)).2.master = (s chan).master ∧
      (makeNetdev b n chan a (s chan)).2.nextslave = (s chan).nextslave := by
    rw [makeNetdev]
    repeat' split
    all_goals exact ⟨rfl, rfl⟩
  rw [finish] at done
  split at done
  · cases done
    exact ⟨rfl, rfl⟩
  · split at done
    · cases done
    · split at done
      · cases done
        exact ⟨rfl, rfl⟩
      · simp only at done
        split at done
        · cases done
          exact ⟨masters_kept made.1, links_kept made.2⟩
        · cases done
          exact ⟨masters_kept made.1, links_kept made.2⟩

/-- A request that is not refused at once takes the channel from its master, and brings it
    to the new one if the signalling fits. -/
theorem chanconfig_links {r : Request} {a : Answers} {out : Int}
    (granted : accepted b s r = .ok (chan, n, sigtype, dacsChan))
    (done : chanconfig b s r a = some (out, s')) {v : T}
    (turned : v = if fits (s chan).sigcap sigtype dacsChan then n else chan) :
    masters s' = Function.update (masters s) chan v ∧
    links s' = enslaved b (Function.update (masters s) chan v)
      (unlinked b (masters s) (links s) chan) chan v := by
  have dropped := dropNetdev_links b (s chan)
  have sigcap : (dropNetdev b (s chan)).sigcap = (s chan).sigcap := by
    rw [dropNetdev]
    split
    · rfl
    · rfl
  have left : masters (unlink b (setChan s chan (dropNetdev b (s chan))) chan) =
      Function.update (masters s) chan chan := by
    rw [masters_unlink, masters_kept dropped.1]
  have left' : links (unlink b (setChan s chan (dropNetdev b (s chan))) chan) =
      unlinked b (masters s) (links s) chan := by
    rw [links_unlink, masters_kept dropped.1, links_kept dropped.2]
  rw [chanconfig, granted] at done
  simp only [setChan_same] at done
  rw [sigcap] at done
  generalize unlink b (setChan s chan (dropNetdev b (s chan))) chan = middle at left left' done
  rw [enslaved]
  by_cases able : supports (s chan).sigcap sigtype = true
  · rw [able] at done
    simp only [Bool.not_true, Bool.false_eq_true, if_false] at done
    rw [configure] at done
    simp only at done
    by_cases missing : has sigtype sigDacsBit = true ∧ dacsChan = none
    · rw [if_neg (fun both => both.2 missing)] at turned
      rw [if_pos missing] at done
      cases done
      rw [turned, if_pos rfl, signalled_links.1, signalled_links.2]
      exact ⟨left, left'⟩
    · rw [if_pos ⟨able, missing⟩] at turned
      rw [if_neg missing] at done
      obtain ⟨end_, end'⟩ := finish_links done
      rw [end_, end', typed_links.1, typed_links.2, masters_enslave, links_enslave,
        connected_links.1, connected_links.2, signalled_links.1, signalled_links.2,
        left, left', turned, Function.update_idem, enslaved]
      exact ⟨rfl, rfl⟩
  · rw [if_neg (fun both => able both.1)] at turned
    rw [Bool.not_eq_true] at able
    rw [able] at done
    cases done
    rw [turned, if_pos rfl]
    exact ⟨left, left'⟩

end steps

end Chanconfig

/-!
Slaves in the chains of their masters, over any requests of DAHDI_CHANCONFIG. They hold as
long as a slave gets a master that stands before it in its span and is none itself, and
has no slaves of its own.
-/
namespace Chanconfig
open Followers PointerChain GuardedRun
variable {T S : Type} [DecidableEq T] {b : Board T S} {s s' : Chans T} {chan m t : T}

structure Chained (s : Chans T) : Prop where
  slave : ∀ c, masters s c ≠ c → masters s (masters s c) = masters s c ∧
    ∃ nodes, Chain (links s) (some (masters s c)) nodes ∧ nodes.count c = 1
  apart : ∀ m m' nodes nodes', masters s m = m → masters s m' = m' → m ≠ m' →
    Chain (links s) (some m) nodes → Chain (links s) (some m') nodes' → List.Disjoint nodes nodes'
  ends : ∀ m, masters s m = m → ∃ nodes, Chain (links s) (some m) nodes

inductive Label (T : Type) where
  | config : Request → Answers → Label T
  | updown : T → Bool → Label T

/-- A network interface goes up or down only where there is one. -/
def next (b : Board T S) (s : Chans T) : Label T → Option (Chans T)
  | .config r a => (chanconfig b s r a).map Prod.snd
  | .updown t up => if haveNetdev b (s t) then some (setChan s t { s t with up := up }) else none

/-- The channels begin as their own masters. -/
def requests (b : Board T S) : System (Chans T) (Label T) where
  start s := ∀ t, (s t).master = t ∧ (s t).nextslave = none
  step s l s' := next b s l = some s'

/-- A new master other than the channel is its own master and stands before the channel,
    which has no slaves. -/
def Orderly (b : Board T S) (s : Chans T) : Label T → Prop
  | .config r _ =>
    match accepted b s r with
    | .error _ => True
    | .ok (chan, n, sigtype, dacsChan) =>
      fits (s chan).sigcap sigtype dacsChan → n ≠ chan →
        (s n).master = n ∧ (∀ t, t ≠ chan → (s t).master ≠ chan) ∧ chan ∈ behind b n
  | .updown _ _ => True

section chains
variable {master : T → T} {next : T → Option T}

theorem linked_chained (linked : Linked (behind b) (masters s) (links s)) : Chained s := by
  have whole : ∀ m, masters s m = m → Chain (links s) (some m) (m :: slaves b s m) := by
    intro m own
    exact Chain.cons (linked.own m own)
  constructor
  · intro c slave
    obtain ⟨top, member⟩ := linked.led c slave
    refine ⟨top, _, whole _ top, ?_⟩
    exact List.count_eq_one_of_mem (slaves_once b s _) (List.mem_cons_of_mem _ member)
  · intro m m' nodes nodes' own own' other chain chain'
    have mine : ∀ m, masters s m = m → ∀ t ∈ m :: slaves b s m, masters s t = m := by
      intro m own t member
      rcases List.mem_cons.mp member with here | later
      · rw [here, own]
      · exact (mem_followers.mp later).2
    rw [chain_unique chain (whole m own), chain_unique chain' (whole m' own')]
    intro t here there
    exact other ((mine m own t here).symm.trans (mine m' own' t there))
  · intro m own
    exact ⟨_, whole m own⟩

/-- A channel without a span and without slaves is threaded as it is. -/
theorem relinked_thread (alone : b.span m = none → next m = none) :
    relinked b master next m = thread next m (followers (behind b) master m) := by
  cases home : b.span m with
  | none =>
    rw [relinked_homeless home, followers, behind_homeless home, List.filter_nil, thread]
    rw [Function.eq_update_self_iff]
    exact alone home
  | some sp => exact relinked_homed (by rw [home]; exact Option.some_ne_none sp)

theorem linked_alone (linked : Linked (behind b) master next) (own : master m = m)
    (homeless : b.span m = none) : next m = none := by
  have chain := linked.own m own
  rw [followers, behind_homeless homeless, List.filter_nil] at chain
  exact chain_start chain

/-- Nobody's master is a slave. -/
theorem slave_childless (linked : Linked (behind b) master next) (slave : master chan ≠ chan) :
    ∀ t, t ≠ chan → master t ≠ chan := by
  intro t other child
  have top := (linked.led t (by rw [child]; exact other.symm)).1
  rw [child] at top
  exact slave top

theorem own_again (own : master chan = chan) :
    Function.update master chan chan = master := by
  rw [Function.update_eq_self_iff]
  exact own.symm

theorem linked_unlinked (linked : Linked (behind b) master next) :
    Linked (behind b) (Function.update master chan chan) (unlinked b master next chan) := by
  rw [unlinked]
  by_cases own : master chan = chan
  · rw [if_pos own, own_again own]
    exact linked
  · have top := (linked.led chan own).1
    rw [if_neg own, relinked_thread]
    · exact linked_turned (behind_once b) linked (slave_childless linked own) own top
        (Or.inr rfl) (Or.inl rfl)
    · intro homeless
      rw [Function.update_of_ne own]
      exact linked_alone linked top homeless

theorem linked_enslaved {n : T} (linked : Linked (behind b) master next) (own : master chan = chan)
    (fair : n ≠ chan → master n = n ∧ (∀ t, t ≠ chan → master t ≠ chan) ∧ chan ∈ behind b n) :
    Linked (behind b) (Function.update master chan n)
      (enslaved b (Function.update master chan n) next chan n) := by
  rw [enslaved]
  by_cases same : n = chan
  · rw [if_pos same, same, own_again own]
    exact linked
  · obtain ⟨top, childless, later⟩ := fair same
    rw [if_neg same, relinked_thread (linked_alone linked top)]
    have free : Function.update next chan none = next := by
      rw [Function.update_eq_self_iff]
      exact (own_none linked own childless (List.nodup_cons.mp (behind_once b chan)).1).symm
    have turned := linked_turned (behind_once b) linked childless same top (Or.inl own)
      (Or.inr ⟨rfl, later⟩)
    rw [free] at turned
    exact turned

/-- A slave is in the chain of its new master only when it may get that one. -/
theorem fair_chained {n : T} (linked : Linked (behind b) master next) (own : master chan = chan)
    (turned : masters s' = Function.update master chan n)
    (turned' : links s' = enslaved b (Function.update master chan n) next chan n)
    (chained : Chained s') (other : n ≠ chan) :
    master n = n ∧ (∀ t, t ≠ chan → master t ≠ chan) ∧ chan ∈ behind b n := by
  have here : masters s' chan = n := by rw [turned, Function.update_self]
  have there : ∀ t, t ≠ chan → masters s' t = master t := by
    intro t apart
    rw [turned, Function.update_of_ne apart]
  have slave : masters s' chan ≠ chan := by
    rw [here]
    exact other
  obtain ⟨top, nodes, chain, count⟩ := chained.slave chan slave
  rw [here] at top chain
  have top' : master n = n := (there n other).symm.trans top
  refine ⟨top', ?_, ?_⟩
  · intro t apart child
    have again := there t apart
    rw [child] at again
    have up := (chained.slave t (by rw [again]; exact apart.symm)).1
    rw [again] at up
    exact slave up
  · rw [turned', enslaved, if_neg other, relinked_thread (linked_alone linked top')] at chain
    have whole := chain_unique chain (Chain.cons (thread_chain (followers_nodup (behind_once b n))))
    have member : chan ∈ nodes := by
      rw [← List.count_pos_iff, count]
      exact Nat.one_pos
    rw [whole] at member
    rcases List.mem_cons.mp member with same | later
    · exact absurd same.symm other
    · exact (mem_followers.mp later).1

end chains

/-- A request turns the channel to itself and then to the new master. -/
theorem config_turns {r : Request} {a : Answers} {out : Int} {n : T} {sigtype : Sig}
    {dacsChan : Option T} (granted : accepted b s r = .ok (chan, n, sigtype, dacsChan))
    (done : chanconfig b s r a = some (out, s')) {v : T}
    (chosen : v = if fits (s chan).sigcap sigtype dacsChan then n else chan) :
    masters s' = Function.update (Function.update (masters s) chan chan) chan v ∧
    links s' = enslaved b (Function.update (Function.update (masters s) chan chan) chan v)
      (unlinked b (masters s) (links s) chan) chan v := by
  rw [Function.update_idem]
  exact chanconfig_links granted done chosen

/-- A channel that gets a master gets a fair one just if the chains hold afterwards. -/
theorem config_chained {r : Request} {a : Answers} {out : Int} {n : T} {sigtype : Sig}
    {dacsChan : Option T} (linked : Linked (behind b) (masters s) (links s))
    (granted : accepted b s r = .ok (chan, n, sigtype, dacsChan))
    (done : chanconfig b s r a = some (out, s')) :
    (Orderly b s (.config r a) → Linked (behind b) (masters s') (links s')) ∧
    (Chained s' → Orderly b s (.config r a)) := by
  have single : Linked (behind b) (Function.update (masters s) chan chan)
      (unlinked b (masters s) (links s) chan) := linked_unlinked linked
  have own := Function.update_self chan chan (masters s)
  have others : ∀ t, t ≠ chan → Function.update (masters s) chan chan t = masters s t := by
    intro t apart
    exact Function.update_of_ne apart _ _
  rw [Orderly, granted]
  simp only
  by_cases able : fits (s chan).sigcap sigtype dacsChan
  · obtain ⟨turned, turned'⟩ := config_turns granted done (if_pos able).symm
    constructor
    · intro orderly
      rw [turned, turned']
      apply linked_enslaved single own
      intro other
      obtain ⟨top, childless, later⟩ := orderly able other
      refine ⟨(others n other).trans top, ?_, later⟩
      intro t apart
      rw [others t apart]
      exact childless t apart
    · intro chained _ other
      obtain ⟨top, childless, later⟩ := fair_chained single own turned turned' chained other
      refine ⟨(others n other).symm.trans top, ?_, later⟩
      intro t apart
      have free := childless t apart
      rw [others t apart] at free
      exact free
  · obtain ⟨turned, turned'⟩ := config_turns granted done (if_neg able).symm
    constructor
    · intro _
      rw [turned, turned']
      exact linked_enslaved single own fun other => absurd rfl other
    · intro _ fit
      exact absurd fit able

theorem step_chained {l : Label T} (linked : Linked (behind b) (masters s) (links s))
    (moved : (requests b).step s l s') :
    (Orderly b s l → Linked (behind b) (masters s') (links s')) ∧ (Chained s' → Orderly b s l) := by
  cases l with
  | config r a =>
    obtain ⟨⟨out, s''⟩, done, same⟩ := Option.map_eq_some_iff.mp moved
    subst same
    cases granted : accepted b s r with
    | error e =>
      rw [chanconfig, granted] at done
      cases done
      rw [Orderly, granted]
      exact ⟨fun _ => linked, fun _ => trivial⟩
    | ok four => exact config_chained linked granted done
  | updown t up =>
    refine ⟨fun _ => ?_, fun _ => trivial⟩
    simp only [requests, next] at moved
    split at moved
    · cases moved
      have kept : masters (setChan s t { s t with up := up }) = masters s := masters_kept rfl
      have kept' : links (setChan s t { s t with up := up }) = links s := links_kept rfl
      rw [kept, kept']
      exact linked
    · cases moved

theorem start_linked (start : (requests b).start s) : Linked (behind b) (masters s) (links s) := by
  have own : ∀ t, masters s t = t := fun t => (start t).1
  constructor
  · intro m _
    have empty : followers (behind b) (masters s) m = [] := by
      apply List.eq_nil_iff_forall_not_mem.mpr
      intro t member
      obtain ⟨later, follows⟩ := mem_followers.mp member
      rw [own] at follows
      subst follows
      exact (List.nodup_cons.mp (behind_once b t)).1 later
    rw [empty, links, (start m).2]
    exact Chain.nil
  · intro c slave
    exact absurd (own c) slave

theorem slaves_chained (b : Board T S) (s : Chans T) (reached : Reach (requests b) (Orderly b) s) :
    Chained s ∧ ∀ l s', (requests b).step s l s' → (Chained s' ↔ Orderly b s l) := by
  have linked : Linked (behind b) (masters s) (links s) := by
    apply @invariant_run _ _ (requests b) (Orderly b) fun s => Linked (behind b) (masters s) (links s)
    · intro s start
      exact start_linked start
    · intro s l s' linked orderly moved
      exact (step_chained linked moved).1 orderly
    · exact reached
  refine ⟨linked_chained linked, ?_⟩
  intro l s' moved
  have step := step_chained linked moved
  exact ⟨step.2, fun orderly => linked_chained (step.1 orderly)⟩

section fourWide

/-- One span of four channels, and no support for networking. -/
def quad : Board (Fin 4) Unit where
  span := fun _ => some ()
  chans := fun _ => [0, 1, 2, 3]
  chanpos := fun t => t.val + 1
  number := fun n => if n = 1 then some 0 else if n = 2 then some 1 else if n = 3 then some 2 else
    if n = 4 then some 3 else none
  net := false
  once := by decide
  placed := by
    intro t s _
    fin_cases t
    · exact ⟨[], [1, 2, 3], rfl, rfl⟩
    · exact ⟨[0], [2, 3], rfl, rfl⟩
    · exact ⟨[0, 1], [3], rfl, rfl⟩
    · exact ⟨[0, 1, 2], [], rfl, rfl⟩
  member := fun _ _ _ => rfl

def fresh : Chans (Fin 4) := fun t =>
  ⟨sigClear, 0, 0, ⟨true, false, false, false, false, false, false⟩, t, none, false, false, false,
    0, none, 0⟩

theorem fresh_start : (requests quad).start fresh := fun _ => ⟨rfl, rfl⟩

def granted : Answers := ⟨0, 0, true, true, 0, true⟩

/-- The second and the fourth channel become slaves of the first, and the second leaves it. -/
def bundle : List (Label (Fin 4)) :=
  [.config ⟨1, sigClear, 1, 0, 0⟩ granted, .config ⟨2, sigSlave, 1, 0, 0⟩ granted,
    .config ⟨4, sigSlave, 1, 0, 0⟩ granted, .config ⟨2, sigClear, 2, 0, 0⟩ granted]

instance (s : Chans (Fin 4)) (l : Label (Fin 4)) : Decidable (Orderly quad s l) := by
  cases l with
  | config r a =>
    rw [Orderly]
    cases accepted quad s r with
    | error _ => exact instDecidableTrue
    | ok four => exact inferInstanceAs (Decidable (_ → _ → _))
  | updown _ _ => exact instDecidableTrue

theorem slaves_chained_bundle : ∃ s, follow (next quad) (Orderly quad) bundle fresh = some s ∧
    (s 0).nextslave = some 3 ∧ (s 3).master = 0 ∧ Chained s := by
  have runs : (follow (next quad) (Orderly quad) bundle fresh).any (fun s =>
      (s 0).nextslave = some 3 ∧ (s 3).master = 0) = true := by decide +kernel
  obtain ⟨s, ends, shown⟩ := (Option.any_eq_true _ _).mp runs
  obtain ⟨link, follows⟩ := of_decide_eq_true shown
  refine ⟨s, ends, link, follows, ?_⟩
  apply (slaves_chained quad s _).1
  apply @follow_reach _ _ (requests quad) _ _ _ (fun _ _ _ done => done) _ _ _ _ ends
  exact Reach.start fresh_start

/-- The first channel becomes a slave of the second. -/
def backwards : List (Label (Fin 4)) :=
  [.config ⟨2, sigClear, 2, 0, 0⟩ granted, .config ⟨1, sigSlave, 2, 0, 0⟩ granted]

theorem slave_unchained : ¬ ∀ s, Reach (requests quad) anyStep s → Chained s := by
  intro always
  have runs : (follow (next quad) anyStep backwards fresh).any (fun s =>
      (s 0).master = 1 ∧ (s 1).nextslave = none) = true := by decide +kernel
  obtain ⟨s, ends, shown⟩ := (Option.any_eq_true _ _).mp runs
  obtain ⟨follows, alone⟩ := of_decide_eq_true shown
  have reached : Reach (requests quad) anyStep s := by
    apply @follow_reach _ _ (requests quad) _ _ _ (fun _ _ _ done => done) _ _ _ _ ends
    exact Reach.start fresh_start
  have slave : masters s 0 ≠ 0 := by
    rw [masters, follows]
    decide
  obtain ⟨_, nodes, chain, count⟩ := (always s reached).slave 0 slave
  have short : Chain (links s) (some 1) [1] := by
    apply Chain.cons
    rw [links, alone]
    exact Chain.nil
  rw [masters, follows] at chain
  rw [chain_unique chain short] at count
  exact absurd count (by decide)

end fourWide

end Chanconfig
