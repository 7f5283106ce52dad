import Mathlib
import Dahdi.Conference.Turns

/-!
What the members of a conference hear. Every talker adds to the sum of the tick just
what its conflast says, so that a listener can take it away again.
-/
namespace ConferenceMixing
open Conference Saturation

def member (c : Chan) (k : Int) : Bool := isMixing c.confmode && decide (c.confn = k)

/-- The channel has talked in this tick. -/
def speaks (c : Chan) (k : Int) : Bool := member c k && has c confTalker && putOpen c

/-- What the channel has in the sum of the conference. -/
def share (c : Chan) (k : Int) (x : Fin chunksize) : Int :=
  if speaks c k then (c.conflast x : Int) else 0

/-- The channel listens, and nothing keeps it out of either half of the tick. -/
def listens (c : Chan) (k : Int) : Bool :=
  member c k && has c confListener && putOpen c && getOpen c

/-- What the channel is given in a tick. -/
def given (c : Chan) : Chunk := if c.pseudo then c.putlin else c.getlin

/-- What the channel would be given without a conference. -/
def bare (i : Signal) (a : Nat) (c : Chan) : Chunk :=
  if c.pseudo then linear (i.law a) fun x => (i.law a).rxgain (i.rx a x)
  else linear (i.law a) (i.tx a)

/-- What the channel says in a tick. -/
def said (i : Signal) (a : Nat) (c : Chan) : Chunk :=
  if c.pseudo then linear (i.law a) (i.tx a)
  else linear (i.law a) fun x => (i.law a).rxgain (i.rx a x)

/-- A conference of CONF members, and lists without duplicates. -/
structure Mixture (s : State) (k : Int) : Prop where
  nodup : s.registered.Nodup
  real : ∀ a ∈ s.spanChans, (s.chans a).pseudo = false
  pseudo : ∀ a ∈ s.pseudos, (s.chans a).pseudo = true
  conf : ∀ a ∈ s.registered, member (s.chans a) k = true →
    (s.chans a).confmode &&& modeMask = confConf

/-- conflast is what the member has added in this tick. -/
def Settled (c : Chan) (k : Int) : Prop :=
  member c k = true → putOpen c = true → ∀ x, (c.conflast x : Int) = share c k x

section Members
variable {s s' : State} {c c' : Chan} {k : Int} {a : Nat}

theorem role_member (same : role c' = role c) : member c' k = member c k := by
  rw [member, member, role_confmode same, role_confn same]

theorem role_pseudo_open (same : role c' = role c) (pseudo : c.pseudo = true) :
    putOpen c' = true ∧ putOpen c = true := by
  simp only [putOpen, role_pseudo same, pseudo, Bool.or_true, and_self]

theorem share_stranger (x : Fin chunksize) (stranger : member c k = false) : share c k x = 0 := by
  simp only [share, speaks, stranger, Bool.false_and, Bool.false_eq_true, ↓reduceIte]

theorem mixture_turn (mixture : Mixture s k) (turn : Turn s s' a) : Mixture s' k := by
  have same : ∀ b, role (s'.chans b) = role (s.chans b) := by
    intro b
    by_cases here : b = a
    · rw [here]
      exact turn.role
    · rw [turn.others b here]
  have registered : s'.registered = s.registered := by
    rw [State.registered, State.registered, turn.spanChans, turn.pseudos]
  constructor
  · rw [registered]
    exact mixture.nodup
  · intro b inside
    rw [turn.spanChans] at inside
    rw [role_pseudo (same b)]
    exact mixture.real b inside
  · intro b inside
    rw [turn.pseudos] at inside
    rw [role_pseudo (same b)]
    exact mixture.pseudo b inside
  · intro b inside here
    rw [registered] at inside
    rw [role_member (same b)] at here
    rw [role_confmode (same b)]
    exact mixture.conf b inside here

end Members

section Contributions
variable {sums : Int → Chunk} {lin : Chunk} {k : Int}

theorem contribution_exact (sum lin : Chunk) (x : Fin chunksize) :
    ((acss sum (contribution sum lin)) x : Int) = sum x + (contribution sum lin x : Int) ∧
      acss sum (contribution sum lin) x = addSat short (sum x) (lin x) := by
  have swap : addSat short (lin x) (sum x) = addSat short (sum x) (lin x) := by
    rw [addSat, addSat, Int.add_comm]
  have again : acss sum (contribution sum lin) x = addSat short (lin x) (sum x) :=
    add_added (lin x) (sum x)
  have added : (contribution sum lin x : Int) = (addSat short (lin x) (sum x) : Sample) - sum x :=
    added_exact (lin x) (sum x)
  constructor
  · rw [again, added]
    omega
  · rw [again, swap]

end Contributions

section Turns
variable {s s' : State} {i : Signal} {k : Int} {a : Nat}

theorem mixing_conf (law : Law) (c : Chan) (sums : Sums) (lin : Chunk) (octets : Octets)
    (conf : c.confmode &&& modeMask = confConf) :
    putMixing law c sums lin octets = putConf law c sums lin octets ∧
      getMixing law c sums lin = getConf law c sums lin := by
  have differ : confConf ≠ confRealandpseudo := by decide
  constructor
  · simp only [putMixing, conf, differ, ↓reduceIte]
  · simp only [getMixing, conf, differ, ↓reduceIte]

/-- A channel that is not in the conference leaves its sums alone. -/
theorem stranger_turn (turn : Turn s s' a) (stranger : member (s.chans a) k = false) :
    s'.sums.entry k = s.sums.entry k := by
  apply turn.sums
  intro mixing here
  simp only [member, mixing, here, decide_true, Bool.and_self] at stranger
  cases stranger

/-- What a channel that is let into the conference has received. -/
theorem put_start_open (law : Law) (c : Chan) (rxb : Octets)
    (opened : putOpen (putStart law c rxb).1 = true) :
    (putStart law c rxb).2.1 = linear law fun x => law.rxgain (rxb x) := by
  have timer : (putStart law c rxb).1.afterdialingtimer = (dialTimer c).afterdialingtimer := by
    unfold putStart
    simp only
    split <;> rfl
  have pseudo : (putStart law c rxb).1.pseudo = (dialTimer c).pseudo := by
    unfold putStart
    simp only
    split <;> rfl
  have heard : ¬ ((dialTimer c).afterdialingtimer ≠ 0 ∧ ¬ (dialTimer c).pseudo = true) := by
    intro kept
    rw [putOpen, timer, pseudo] at opened
    simp [kept] at opened
  unfold putStart
  simp only [heard, ↓reduceIte]

theorem member_conferenced {c : Chan} (here : member c k = true) : c.confmode ≠ 0 := by
  intro zero
  simp only [member, zero, Bool.and_eq_true] at here
  exact absurd here.1 (by decide)

theorem set_twice (s : State) (a : Nat) (c c' : Chan) :
    setChan (setChan s a c) a c' = setChan s a c' := by
  simp only [setChan, Function.update_idem]

/-- The receive half of a member of a CONF conference. -/
theorem receive_member (done : receiveChunk i s a = .ok s') (here : member (s.chans a) k = true)
    (conf : (s.chans a).confmode &&& modeMask = confConf) :
    (putOpen (s'.chans a) = false ∧ s'.sums = s.sums) ∨
      ∃ c m, role c = role (s.chans a) ∧ putOpen c = true ∧
        putConf (i.law a) c s.sums
          (linear (i.law a) fun x => (i.law a).rxgain (i.rx a x))
          (putStart (i.law a) (s.chans a) (i.rx a)).2.2 = .ok m ∧
        c.conflast = (s.chans a).conflast ∧ s'.chans a = m.chan ∧ s'.sums = m.sums := by
  have noted := member_conferenced here
  unfold receiveChunk at done
  simp only [noted, ne_eq, not_false_eq_true, or_true, ↓reduceIte] at done
  obtain ⟨⟨rxb, s₁⟩, processed, rfl⟩ := map_ok done
  unfold processPutaudioChunk at processed
  have started := put_start_role (i.law a) (s.chans a) (i.rx a)
  have heard := put_start_open (i.law a) (s.chans a) (i.rx a)
  have last : (putStart (i.law a) (s.chans a) (i.rx a)).1.conflast = (s.chans a).conflast := by
    unfold putStart dialTimer
    simp only
    split <;> split <;> try split
    all_goals rfl
  generalize putStart (i.law a) (s.chans a) (i.rx a) = start at processed started heard last
  obtain ⟨c, lin, octets⟩ := start
  simp only at processed started heard last
  have mixing : isMixing c.confmode = true := by
    rw [role_confmode started]
    simp only [member, Bool.and_eq_true] at here
    exact here.1
  split at processed
  · rename_i opened
    right
    obtain ⟨m, mixed, done⟩ := map_ok processed
    obtain ⟨_, rfl⟩ := Prod.mk.inj done
    rw [(mixing_conf _ _ _ _ _ (by rw [role_confmode started]; exact conf)).1, heard opened] at mixed
    refine ⟨c, m, started, opened, mixed, last, ?_, rfl⟩
    rw [set_sums_chans, set_chan_same]
  · rename_i shut
    left
    obtain ⟨_, rfl⟩ := Prod.mk.inj (Except.ok.inj processed)
    rw [set_chan_same]
    exact ⟨by simpa using shut, rfl⟩

/-- The transmit half of a member of a CONF conference. -/
theorem transmit_member (done : transmitChunk i s a = .ok s') (here : member (s.chans a) k = true)
    (conf : (s.chans a).confmode &&& modeMask = confConf) :
    (getOpen (s.chans a) = false ∧ s'.sums = s.sums ∧
      (s'.chans a).conflast = (s.chans a).conflast ∧
      (s'.chans a).afterdialingtimer = (s.chans a).afterdialingtimer) ∨
      ∃ m octets, getOpen (s.chans a) = true ∧
        getConf (i.law a) (s.chans a) s.sums (linear (i.law a) (i.tx a)) = .ok m ∧
        s'.chans a = { m.chan with getlin := m.lin, getraw := octets } ∧ s'.sums = m.sums := by
  have noted := member_conferenced here
  have mixing : isMixing (s.chans a).confmode = true := by
    simp only [member, Bool.and_eq_true] at here
    exact here.1
  unfold transmitChunk at done
  simp only [noted, ne_eq, not_false_eq_true, or_true, ↓reduceIte] at done
  obtain ⟨⟨txb, s₁⟩, processed, rfl⟩ := map_ok done
  unfold processGetaudioChunk at processed
  obtain ⟨m, switched, done⟩ := map_ok processed
  obtain ⟨_, rfl⟩ := Prod.mk.inj done
  unfold getSwitch at switched
  split at switched
  · rename_i opened
    right
    rw [(mixing_conf _ _ _ _ (i.tx a) conf).2] at switched
    exact ⟨m, _, opened, switched, by rw [set_sums_chans, set_chan_same], rfl⟩
  · rename_i shut
    left
    obtain rfl := Except.ok.inj switched
    refine ⟨by simpa using shut, rfl, ?_, ?_⟩
    · rw [set_sums_chans, set_chan_same]
    · rw [set_sums_chans, set_chan_same]

theorem member_number {c : Chan} (here : member c k = true) : c.confn = k := by
  simp only [member, Bool.and_eq_true, decide_eq_true_eq] at here
  exact here.2

theorem share_silent {c : Chan} (quiet : has c confTalker = false) (x : Fin chunksize) :
    share c k x = 0 := by
  simp only [share, speaks, quiet, Bool.and_false, Bool.false_and, Bool.false_eq_true, ↓reduceIte]

theorem share_spoken {c : Chan} (here : member c k = true) (talker : has c confTalker = true)
    (opened : putOpen c = true) (x : Fin chunksize) : share c k x = c.conflast x := by
  simp only [share, speaks, here, talker, opened, Bool.and_self, ↓reduceIte]

theorem share_shut {c : Chan} (shut : putOpen c = false) (x : Fin chunksize) :
    share c k x = 0 := by
  simp only [share, speaks, shut, Bool.and_false, Bool.false_eq_true, ↓reduceIte]

/-- A member on a span talks into the sum of the next chunk. -/
theorem real_talks (done : receiveChunk i s a = .ok s') (here : member (s.chans a) k = true)
    (conf : (s.chans a).confmode &&& modeMask = confConf) (real : (s.chans a).pseudo = false) :
    (∀ x, (s'.sums.next k x : Int) = s.sums.next k x + share (s'.chans a) k x) ∧
      s'.sums.cur k = s.sums.cur k ∧ Settled (s'.chans a) k ∧
      (speaks (s'.chans a) k = true →
        ∀ x, s'.sums.next k x = addSat short (s.sums.next k x) (said i a (s.chans a) x)) := by
  have role := (receive_turn done).role
  rcases receive_member done here conf with ⟨shut, sums⟩ |
    ⟨c, m, started, opened, mixed, _, chan, sums⟩
  · refine ⟨?_, by rw [sums], ?_, ?_⟩
    · intro x
      rw [sums, share_shut shut, Int.add_zero]
    · intro _ opened
      rw [shut] at opened
      cases opened
    · intro spoken
      simp only [speaks, shut, Bool.and_false] at spoken
      cases spoken
  · have number := member_number here
    rw [← role_confn started] at number
    rw [← role_pseudo started] at real
    rw [← role_member role] at here
    unfold putConf putTalk at mixed
    rw [if_neg (by simp [real])] at mixed
    split at mixed
    · rename_i talker
      obtain ⟨⟨added, next⟩, talked, rfl⟩ := map_ok mixed
      obtain ⟨_, rfl, rfl⟩ := talk_spec talked
      rw [number] at chan sums
      have spoken : ∀ x, share (s'.chans a) k x = (s'.chans a).conflast x := by
        intro x
        refine share_spoken here ?_ ?_ x
        · rw [chan]
          exact talker
        · rw [chan]
          exact opened
      refine ⟨?_, by rw [sums], fun _ _ x => (spoken x).symm, ?_⟩
      · intro x
        rw [spoken, sums, chan]
        simp only [Function.update_self]
        exact (contribution_exact _ _ x).1
      · intro _ x
        rw [sums, said, ← role_pseudo started, if_neg (by simp [real])]
        simp only [Function.update_self]
        exact (contribution_exact _ _ x).2
    · rename_i quiet
      obtain rfl := Except.ok.inj mixed
      have silent : has (s'.chans a) confTalker = false := by
        rw [chan]
        exact Bool.eq_false_iff.mpr quiet
      refine ⟨?_, by rw [sums], ?_, ?_⟩
      · intro x
        rw [sums, share_silent silent, Int.add_zero]
      · intro _ _ x
        rw [share_silent silent, chan]
        rfl
      · intro spoken
        simp only [speaks, silent, Bool.and_false, Bool.false_and] at spoken
        cases spoken

/-- A pseudo channel talks into the sum of the current chunk. -/
theorem pseudo_talks (done : transmitChunk i s a = .ok s') (here : member (s.chans a) k = true)
    (conf : (s.chans a).confmode &&& modeMask = confConf) (pseudo : (s.chans a).pseudo = true) :
    (∀ x, (s'.sums.cur k x : Int) = s.sums.cur k x + share (s'.chans a) k x) ∧
      Settled (s'.chans a) k ∧
      (speaks (s'.chans a) k = true →
        ∀ x, s'.sums.cur k x = addSat short (s.sums.cur k x) (said i a (s.chans a) x)) := by
  have role := (transmit_turn done).role
  have opened := (role_pseudo_open role pseudo).1
  have number := member_number here
  rcases transmit_member done here conf with ⟨shut, _⟩ | ⟨m, octets, _, mixed, chan, sums⟩
  · simp only [getOpen, pseudo, Bool.or_true] at shut
    cases shut
  · rw [← role_member role] at here
    unfold getConf at mixed
    rw [if_pos pseudo] at mixed
    split at mixed
    · rename_i talker
      obtain ⟨⟨added, cur⟩, talked, rfl⟩ := map_ok mixed
      obtain ⟨_, rfl, rfl⟩ := talk_spec talked
      rw [number] at chan sums
      have spoken : ∀ x, share (s'.chans a) k x = (s'.chans a).conflast x := by
        intro x
        refine share_spoken here ?_ opened x
        rw [chan]
        exact talker
      refine ⟨?_, fun _ _ x => (spoken x).symm, ?_⟩
      · intro x
        rw [spoken, sums, chan]
        simp only [Function.update_self]
        exact (contribution_exact _ _ x).1
      · intro _ x
        rw [sums, said, if_pos pseudo]
        simp only [Function.update_self]
        exact (contribution_exact _ _ x).2
    · rename_i quiet
      obtain rfl := Except.ok.inj mixed
      have silent : has (s'.chans a) confTalker = false := by
        rw [chan]
        exact Bool.eq_false_iff.mpr quiet
      refine ⟨?_, ?_, ?_⟩
      · intro x
        rw [sums, share_silent silent, Int.add_zero]
      · intro _ _ x
        rw [share_silent silent, chan]
        rfl
      · intro spoken
        simp only [speaks, silent, Bool.and_false, Bool.false_and] at spoken
        cases spoken

/-- What a listener is given of the sum. -/
def Heard (i : Signal) (s : State) (k : Int) (a : Nat) : Prop :=
  listens (s.chans a) k = true → ∀ x, given (s.chans a) x =
    addSat short (subSat short (bare i a (s.chans a) x) ((s.chans a).conflast x)) (s.sums.cur k x)

/-- A pseudo channel listens. -/
theorem pseudo_listens (done : receiveChunk i s a = .ok s') (here : member (s.chans a) k = true)
    (conf : (s.chans a).confmode &&& modeMask = confConf) (pseudo : (s.chans a).pseudo = true) :
    s'.sums = s.sums ∧ (s'.chans a).conflast = (s.chans a).conflast ∧ Heard i s' k a := by
  have role := (receive_turn done).role
  have opened := (role_pseudo_open role pseudo).1
  have number := member_number here
  rcases receive_member done here conf with ⟨shut, _⟩ |
    ⟨c, m, started, _, mixed, last, chan, sums⟩
  · rw [shut] at opened
    cases opened
  · rw [← role_confn started] at number
    have pseudo' := pseudo
    rw [← role_pseudo started] at pseudo
    unfold putConf at mixed
    rw [if_pos pseudo] at mixed
    obtain ⟨heard, listened, rfl⟩ := map_ok mixed
    refine ⟨sums, by rw [chan]; exact last, ?_⟩
    intro listening x
    have listener : has c confListener = true := by
      simp only [listens, chan, Bool.and_eq_true] at listening
      exact listening.1.1.2
    rw [if_pos listener, number] at listened
    obtain ⟨_, rfl⟩ := listen_spec listened
    rw [given, bare, role_pseudo role, if_pos pseudo', if_pos pseudo', chan, sums]
    rfl

/-- A member on a span listens. -/
theorem real_listens (done : transmitChunk i s a = .ok s') (here : member (s.chans a) k = true)
    (conf : (s.chans a).confmode &&& modeMask = confConf) (real : (s.chans a).pseudo = false) :
    s'.sums = s.sums ∧ (s'.chans a).conflast = (s.chans a).conflast ∧
      (s'.chans a).afterdialingtimer = (s.chans a).afterdialingtimer ∧ Heard i s' k a := by
  have role := (transmit_turn done).role
  have number := member_number here
  rcases transmit_member done here conf with ⟨shut, sums, last, timer⟩ |
    ⟨m, octets, _, mixed, chan, sums⟩
  · refine ⟨sums, last, timer, ?_⟩
    intro listening
    simp only [listens, role_get_open role, shut, Bool.and_false] at listening
    cases listening
  · unfold getConf at mixed
    rw [if_neg (by simp [real])] at mixed
    unfold getListen at mixed
    obtain ⟨heard, listened, rfl⟩ := map_ok mixed
    refine ⟨sums, by rw [chan], by rw [chan], ?_⟩
    intro listening x
    have listener : has (s.chans a) confListener = true := by
      rw [← role_has role]
      simp only [listens, Bool.and_eq_true] at listening
      exact listening.1.1.2
    rw [if_pos listener, number] at listened
    obtain ⟨_, rfl⟩ := listen_spec listened
    rw [given, bare, role_pseudo role, real, if_neg (by simp), if_neg (by simp), chan, sums]
    rfl

end Turns

section Passes
variable {f : State → Nat → Except Fault State} {s s' : State} {l : List Nat} {i : Signal} {k : Int}

/-- A walk in which every channel adds its part adds all parts. -/
theorem visit_sum {inv : State → Prop} {total : State → Int} {part : State → Nat → Int}
    (turn : ∀ s a s', a ∈ l → inv s → f s a = .ok s' →
      inv s' ∧ total s' = total s + part s' a ∧ ∀ b, b ≠ a → part s' b = part s b)
    (nodup : l.Nodup) (holds : inv s) (done : visit f l s = .ok s') :
    total s' = total s + (l.map (part s')).sum := by
  induction l generalizing s with
  | nil =>
    obtain rfl := Except.ok.inj done
    simp
  | cons a rest ih =>
    unfold visit at done
    split at done
    · cases done
    · rename_i s₁ first
      obtain ⟨fresh, nodup⟩ := List.nodup_cons.mp nodup
      obtain ⟨holds₁, added, _⟩ := turn s a s₁ (by simp) holds first
      have later : ∀ s b s', b ∈ rest → inv s → f s b = .ok s' →
          inv s' ∧ total s' = total s + part s' b ∧ ∀ c, c ≠ b → part s' c = part s c :=
        fun s b s' member => turn s b s' (List.mem_cons_of_mem a member)
      have sum := ih later nodup holds₁ done
      have kept : inv s' ∧ part s' a = part s₁ a := by
        refine @visit_inv _ _ _ rest (fun s => inv s ∧ part s a = part s₁ a) ?_ ⟨holds₁, rfl⟩ done
        intro s b s' member holds step
        obtain ⟨holds', _, others⟩ := later s b s' member holds.1 step
        refine ⟨holds', ?_⟩
        rw [others a fun same => fresh (same ▸ member)]
        exact holds.2
      rw [sum, added, List.map_cons, List.sum_cons, kept.2]
      omega

/-- What a turn brings about for its channel and other turns keep holds after the walk. -/
theorem visit_each {inv : State → Prop} {post : State → Nat → Prop}
    (turn : ∀ s a s', a ∈ l → inv s → f s a = .ok s' →
      inv s' ∧ post s' a ∧ ∀ b, b ≠ a → post s b → post s' b)
    (holds : inv s) (done : visit f l s = .ok s') : ∀ a ∈ l, post s' a := by
  induction l generalizing s with
  | nil =>
    intro a inside
    cases inside
  | cons a rest ih =>
    unfold visit at done
    split at done
    · cases done
    · rename_i s₁ first
      obtain ⟨holds₁, reached, _⟩ := turn s a s₁ (by simp) holds first
      have later : ∀ s b s', b ∈ rest → inv s → f s b = .ok s' →
          inv s' ∧ post s' b ∧ ∀ c, c ≠ b → post s c → post s' c :=
        fun s b s' member => turn s b s' (List.mem_cons_of_mem a member)
      intro b inside
      rcases List.mem_cons.mp inside with here | inside
      · have kept : inv s' ∧ post s' a := by
          refine @visit_inv _ _ _ rest (fun s => inv s ∧ post s a) ?_ ⟨holds₁, reached⟩ done
          intro s c s' member holds step
          obtain ⟨holds', own, others⟩ := later s c s' member holds.1 step
          by_cases same : a = c
          · rw [same]
            exact ⟨holds', own⟩
          · exact ⟨holds', others a same holds.2⟩
        rw [here]
        exact kept.2
      · exact ih later holds₁ done b inside

/-- A conferenced turn is a turn, or the channel is in no conference. -/
theorem conferenced_cases {a : Nat} (done : conferenced f s a = .ok s') :
    f s a = .ok s' ∨ s' = s ∧ ∀ k, member (s.chans a) k = false := by
  unfold conferenced at done
  split at done
  · rename_i zero
    obtain rfl := Except.ok.inj done
    refine Or.inr ⟨rfl, fun k => ?_⟩
    by_contra here
    exact member_conferenced (by simpa using here) zero
  · exact Or.inl done

theorem share_others {a b : Nat} {x : Fin chunksize} (turn : Turn s s' a) (other : b ≠ a) :
    share (s'.chans b) k x = share (s.chans b) k x := by
  rw [turn.others b other]

/-- What the members in a list have in the sum. -/
def shares (s : State) (l : List Nat) (k : Int) (x : Fin chunksize) : Int :=
  (l.map fun a => share (s.chans a) k x).sum

/-- A conference after the channels of `l` have talked into its sum. -/
structure Summed (s₀ s : State) (sum : State → Chunk) (l : List Nat) (k : Int) : Prop where
  mixture : Mixture s k
  spanChans : s.spanChans = s₀.spanChans
  pseudos : s.pseudos = s₀.pseudos
  settled : ∀ a ∈ l, Settled (s.chans a) k
  total : ∀ x, (sum s x : Int) = s₀.sums.next k x + shares s l k x

/-- In the course of a tick. -/
def Along (s₀ : State) (k : Int) (s : State) : Prop :=
  Mixture s k ∧ s.spanChans = s₀.spanChans ∧ s.pseudos = s₀.pseudos

theorem along_turn {s₀ : State} {a : Nat} (along : Along s₀ k s) (turn : Turn s s' a) :
    Along s₀ k s' :=
  ⟨mixture_turn along.1 turn, turn.spanChans.trans along.2.1, turn.pseudos.trans along.2.2⟩

theorem shares_congr {t t' : State} {l : List Nat} {x : Fin chunksize}
    (same : ∀ a ∈ l, share (t'.chans a) k x = share (t.chans a) k x) :
    shares t' l k x = shares t l k x := by
  unfold shares
  rw [List.map_congr_left same]

/-- 1. The channels of spans talk into the sum of the next chunk. -/
theorem real_turn {s₀ t t' : State} {a : Nat} (along : Along s₀ k t) (inside : a ∈ s₀.spanChans)
    (done : conferenced (receiveChunk i) t a = .ok t') : Along s₀ k t' ∧ Turn t t' a ∧
      (∀ x, (t'.sums.next k x : Int) = t.sums.next k x + share (t'.chans a) k x) ∧
      Settled (t'.chans a) k := by
  have moved := conferenced_turn receive_turn done
  refine ⟨along_turn along moved, moved, ?_⟩
  obtain ⟨mixture, spanChans, _⟩ := along
  rw [← spanChans] at inside
  cases here : member (t.chans a) k with
  | true =>
    rcases conferenced_cases done with received | ⟨_, none⟩
    · have conf := mixture.conf a (List.mem_append_left _ inside) here
      obtain ⟨added, _, settled, _⟩ := real_talks received here conf (mixture.real a inside)
      exact ⟨added, settled⟩
    · rw [none k] at here
      cases here
  | false =>
    have next : t'.sums.next k = t.sums.next k := congrArg (fun e => e.2.2) (stranger_turn moved here)
    rw [← role_member moved.role] at here
    constructor
    · intro x
      rw [next, share_stranger x here, Int.add_zero]
    · intro inConf
      rw [here] at inConf
      cases inConf

theorem real_pass (mixture : Mixture s k)
    (done : visit (conferenced (receiveChunk i)) s.spanChans s = .ok s') :
    Summed s s' (fun t => t.sums.next k) s.spanChans k := by
  have nodup := mixture.nodup
  rw [State.registered, List.nodup_append] at nodup
  have start : Along s k s := ⟨mixture, rfl, rfl⟩
  have finish : Along s k s' :=
    visit_inv (fun _ _ _ inside along turn => (real_turn along inside turn).1) start done
  refine ⟨finish.1, finish.2.1, finish.2.2, ?_, fun x => ?_⟩
  · refine @visit_each _ _ _ _ (Along s k) (fun t a => Settled (t.chans a) k) ?_ start done
    intro t a t' inside along turn
    obtain ⟨along', moved, _, settled⟩ := real_turn along inside turn
    refine ⟨along', settled, fun b other before => ?_⟩
    rw [moved.others b other]
    exact before
  · refine @visit_sum _ _ _ _ (Along s k) (fun t => t.sums.next k x)
      (fun t a => share (t.chans a) k x) ?_ nodup.1 start done
    intro t a t' inside along turn
    obtain ⟨along', moved, added, _⟩ := real_turn along inside turn
    exact ⟨along', added x, fun b other => share_others moved other⟩

/-- 3. The pseudo channels talk into the sum of the current chunk. -/
theorem pseudo_turn {s₀ t t' : State} {a : Nat} (along : Along s₀ k t) (inside : a ∈ s₀.pseudos)
    (done : transmitChunk i t a = .ok t') : Along s₀ k t' ∧ Turn t t' a ∧
      (∀ x, (t'.sums.cur k x : Int) = t.sums.cur k x + share (t'.chans a) k x) ∧
      Settled (t'.chans a) k := by
  have moved := transmit_turn done
  refine ⟨along_turn along moved, moved, ?_⟩
  obtain ⟨mixture, _, pseudos⟩ := along
  rw [← pseudos] at inside
  cases here : member (t.chans a) k with
  | true =>
    have conf := mixture.conf a (List.mem_append_right _ inside) here
    obtain ⟨added, settled, _⟩ := pseudo_talks done here conf (mixture.pseudo a inside)
    exact ⟨added, settled⟩
  | false =>
    have cur : t'.sums.cur k = t.sums.cur k := congrArg (fun e => e.2.1) (stranger_turn moved here)
    rw [← role_member moved.role] at here
    constructor
    · intro x
      rw [cur, share_stranger x here, Int.add_zero]
    · intro inConf
      rw [here] at inConf
      cases inConf

theorem pseudo_pass {s₀ : State}
    (summed : Summed s₀ s (fun t => t.sums.cur k) s.spanChans k)
    (done : visit (transmitChunk i) s.pseudos s = .ok s') :
    Summed s₀ s' (fun t => t.sums.cur k) s'.registered k := by
  have nodup := summed.mixture.nodup
  rw [State.registered, List.nodup_append] at nodup
  have start : Along s k s := ⟨summed.mixture, rfl, rfl⟩
  have finish : Along s k s' :=
    visit_inv (fun _ _ _ inside along turn => (pseudo_turn along inside turn).1) start done
  have apart : ∀ b ∈ s.spanChans, s'.chans b = s.chans b := by
    intro b outside
    have kept : Along s k s' ∧ s'.chans b = s.chans b := by
      refine @visit_inv _ _ _ _ (fun t => Along s k t ∧ t.chans b = s.chans b) ?_ ⟨start, rfl⟩ done
      intro t a t' inside along turn
      obtain ⟨along', moved, _⟩ := pseudo_turn along.1 inside turn
      refine ⟨along', ?_⟩
      rw [moved.others b (nodup.2.2 b outside a inside)]
      exact along.2
    exact kept.2
  refine ⟨finish.1, finish.2.1.trans summed.spanChans, finish.2.2.trans summed.pseudos, ?_, ?_⟩
  · intro a inside
    rw [State.registered, finish.2.1, finish.2.2] at inside
    rcases List.mem_append.mp inside with real | pseudo
    · rw [apart a real]
      exact summed.settled a real
    · refine @visit_each _ _ _ _ (Along s k) (fun t a => Settled (t.chans a) k) ?_ start done a pseudo
      intro t a t' inside along turn
      obtain ⟨along', moved, _, settled⟩ := pseudo_turn along inside turn
      refine ⟨along', settled, fun b other before => ?_⟩
      rw [moved.others b other]
      exact before
  · intro x
    have added : (s'.sums.cur k x : Int) = s.sums.cur k x + shares s' s.pseudos k x := by
      refine @visit_sum _ _ _ _ (Along s k) (fun t => t.sums.cur k x)
        (fun t a => share (t.chans a) k x) ?_ nodup.2.1 start done
      intro t a t' inside along turn
      obtain ⟨along', moved, added, _⟩ := pseudo_turn along inside turn
      exact ⟨along', added x, fun b other => share_others moved other⟩
    have before := summed.total x
    have same : shares s' s.spanChans k x = shares s s.spanChans k x := by
      apply shares_congr
      intro a real
      rw [apart a real]
    rw [State.registered, finish.2.1, finish.2.2, shares, List.map_append, List.sum_append]
    unfold shares at added before same
    omega

/-- A turn that adds nothing. -/
theorem summed_turn {s₀ : State} {a : Nat}
    (summed : Summed s₀ s (fun t => t.sums.cur k) s.registered k) (turn : Turn s s' a)
    (sums : s'.sums.cur k = s.sums.cur k)
    (last : member (s.chans a) k = true → (s'.chans a).conflast = (s.chans a).conflast ∧
      putOpen (s'.chans a) = putOpen (s.chans a)) :
    Summed s₀ s' (fun t => t.sums.cur k) s'.registered k := by
  have registered : s'.registered = s.registered := by
    rw [State.registered, State.registered, turn.spanChans, turn.pseudos]
  have own : ∀ x, share (s'.chans a) k x = share (s.chans a) k x := by
    intro x
    cases here : member (s.chans a) k with
    | true =>
      obtain ⟨last, opened⟩ := last here
      rw [share, share, speaks, speaks, last, opened, role_member turn.role, role_has turn.role]
    | false =>
      rw [share_stranger x here, share_stranger x (by rw [role_member turn.role]; exact here)]
  have same : ∀ b x, share (s'.chans b) k x = share (s.chans b) k x := by
    intro b x
    by_cases here : b = a
    · rw [here]
      exact own x
    · rw [turn.others b here]
  refine ⟨mixture_turn summed.mixture turn, turn.spanChans.trans summed.spanChans,
    turn.pseudos.trans summed.pseudos, ?_, ?_⟩
  · intro b inside here opened x
    rw [registered] at inside
    by_cases place : b = a
    · rw [place] at here opened inside ⊢
      rw [role_member turn.role] at here
      obtain ⟨last, alike⟩ := last here
      rw [alike] at opened
      rw [own, last]
      exact summed.settled a inside here opened x
    · rw [turn.others b place] at here opened ⊢
      exact summed.settled b inside here opened x
  · intro x
    rw [registered, shares_congr fun b _ => same b x, sums]
    exact summed.total x

theorem heard_others {a b : Nat} (turn : Turn s s' a) (sums : s'.sums.cur k = s.sums.cur k)
    (other : b ≠ a) (heard : Heard i s k b) : Heard i s' k b := by
  intro listening x
  rw [turn.others b other] at listening ⊢
  rw [sums]
  exact heard listening x

/-- A turn that only listens. -/
structure Listened (i : Signal) (k : Int) (s₀ s s' : State) (a : Nat) : Prop where
  summed : Summed s₀ s' (fun t => t.sums.cur k) s'.registered k
  turn : Turn s s' a
  sums : s'.sums.cur k = s.sums.cur k
  heard : Heard i s' k a

theorem stranger_listened {s₀ : State} {a : Nat}
    (summed : Summed s₀ s (fun t => t.sums.cur k) s.registered k) (turn : Turn s s' a)
    (stranger : member (s.chans a) k = false) : Listened i k s₀ s s' a := by
  have cur : s'.sums.cur k = s.sums.cur k := congrArg (fun e => e.2.1) (stranger_turn turn stranger)
  refine ⟨summed_turn summed turn cur ?_, turn, cur, ?_⟩
  · intro here
    rw [stranger] at here
    cases here
  · intro listening
    simp only [listens, role_member turn.role, stranger, Bool.false_and] at listening
    cases listening

/-- 5. The pseudo channels listen to the sum of the current chunk. -/
theorem pseudo_listened {s₀ : State} {a : Nat}
    (summed : Summed s₀ s (fun t => t.sums.cur k) s.registered k) (inside : a ∈ s₀.pseudos)
    (done : receiveChunk i s a = .ok s') : Listened i k s₀ s s' a := by
  have moved := receive_turn done
  rw [← summed.pseudos] at inside
  cases here : member (s.chans a) k with
  | true =>
    have conf := summed.mixture.conf a (List.mem_append_right _ inside) here
    have pseudo := summed.mixture.pseudo a inside
    obtain ⟨sums, last, heard⟩ := pseudo_listens done here conf pseudo
    obtain ⟨after, before⟩ := role_pseudo_open moved.role pseudo
    have cur : s'.sums.cur k = s.sums.cur k := by rw [sums]
    exact ⟨summed_turn summed moved cur fun _ => ⟨last, after.trans before.symm⟩, moved, cur, heard⟩
  | false => exact stranger_listened summed moved here

/-- 6. The channels of spans listen to the sum of the current chunk. -/
theorem real_listened {s₀ : State} {a : Nat}
    (summed : Summed s₀ s (fun t => t.sums.cur k) s.registered k) (inside : a ∈ s₀.spanChans)
    (done : conferenced (transmitChunk i) s a = .ok s') : Listened i k s₀ s s' a := by
  have moved := conferenced_turn transmit_turn done
  rw [← summed.spanChans] at inside
  cases here : member (s.chans a) k with
  | true =>
    have conf := summed.mixture.conf a (List.mem_append_left _ inside) here
    rcases conferenced_cases done with transmitted | ⟨_, none⟩
    · obtain ⟨sums, last, timer, heard⟩ :=
        real_listens transmitted here conf (summed.mixture.real a inside)
      have alike : putOpen (s'.chans a) = putOpen (s.chans a) := by
        rw [putOpen, putOpen, timer, role_confmute moved.role, role_pseudo moved.role]
      have cur : s'.sums.cur k = s.sums.cur k := by rw [sums]
      exact ⟨summed_turn summed moved cur fun _ => ⟨last, alike⟩, moved, cur, heard⟩
    · rw [none k] at here
      cases here
  | false => exact stranger_listened summed moved here

theorem listen_pass {s₀ : State} (summed : Summed s₀ s (fun t => t.sums.cur k) s.registered k)
    (turn : ∀ t a t', a ∈ l → Summed s₀ t (fun t => t.sums.cur k) t.registered k →
      f t a = .ok t' → Listened i k s₀ t t' a)
    (done : visit f l s = .ok s') :
    Summed s₀ s' (fun t => t.sums.cur k) s'.registered k ∧ (∀ a ∈ l, Heard i s' k a) ∧
      ∀ b, b ∉ l → Heard i s k b → Heard i s' k b := by
  refine ⟨?_, ?_, ?_⟩
  · exact visit_inv (fun t a t' inside summed done => (turn t a t' inside summed done).summed)
      summed done
  · refine @visit_each _ _ _ _ (fun t => Summed s₀ t (fun t => t.sums.cur k) t.registered k)
      (fun t a => Heard i t k a) ?_ summed done
    intro t a t' inside summed done
    obtain ⟨summed', moved, sums, heard⟩ := turn t a t' inside summed done
    exact ⟨summed', heard, fun b other before => heard_others moved sums other before⟩
  · intro b outside before
    have kept : Summed s₀ s' (fun t => t.sums.cur k) s'.registered k ∧ Heard i s' k b := by
      refine @visit_inv _ _ _ _ (fun t => Summed s₀ t (fun t => t.sums.cur k) t.registered k ∧
        Heard i t k b) ?_ ⟨summed, before⟩ done
      intro t a t' inside holds done
      obtain ⟨summed', moved, sums, _⟩ := turn t a t' inside holds.1 done
      refine ⟨summed', heard_others moved sums ?_ holds.2⟩
      intro same
      exact outside (same ▸ inside)
    exact kept.2

end Passes

section Tick
variable {s s' : State} {i : Signal} {k : Int}

theorem tick_law (mixture : Mixture s k) (ticked : processMasterspan s i = .ok s') :
    Summed s s' (fun t => t.sums.cur k) s'.registered k ∧ ∀ a ∈ s'.registered, Heard i s' k a := by
  unfold processMasterspan at ticked
  obtain ⟨s₁, received, ticked⟩ := bind_ok ticked
  obtain ⟨s₂, transmitted, ticked⟩ := bind_ok ticked
  obtain ⟨s₃, listened, ticked⟩ := bind_ok ticked
  have first := real_pass mixture received
  have rotated : Summed s (rotateSums s₁) (fun t => t.sums.cur k) (rotateSums s₁).spanChans k := by
    obtain ⟨nodup, real, pseudo, conf⟩ := first.mixture
    have spanChans : (rotateSums s₁).spanChans = s.spanChans := first.spanChans
    rw [spanChans]
    exact ⟨⟨nodup, real, pseudo, conf⟩, spanChans, first.pseudos, first.settled, first.total⟩
  have second := pseudo_pass rotated transmitted
  have third := listen_pass second
    (fun t a t' inside summed done => pseudo_listened summed (second.pseudos ▸ inside) done) listened
  have fourth := listen_pass third.1
    (fun t a t' inside summed done => real_listened summed (third.1.spanChans ▸ inside) done) ticked
  refine ⟨fourth.1, ?_⟩
  intro a inside
  rw [State.registered, fourth.1.spanChans, fourth.1.pseudos] at inside
  rw [third.1.spanChans] at fourth
  rcases List.mem_append.mp inside with real | pseudo
  · exact fourth.2.1 a real
  · have nodup := mixture.nodup
    rw [State.registered, List.nodup_append] at nodup
    refine fourth.2.2 a ?_ (third.2.1 a (by rw [second.pseudos]; exact pseudo))
    intro real
    exact nodup.2.2 a real a pseudo rfl

/-- Every turn in which a member talks records in conflast what it adds to the sum,
    saturated. The sum of a tick is what it starts from and all that is added, and a
    listener is given the sum without its own part, unless taking the own part away
    already saturates. -/
theorem mixing_law {k : Int} (mixture : Mixture s k) (ticked : processMasterspan s i = .ok s') :
    (∀ t t' a, Mixture t k → a ∈ t.spanChans → receiveChunk i t a = .ok t' →
      speaks (t'.chans a) k = true → ∀ x,
        t'.sums.next k x = addSat short (t.sums.next k x) (said i a (t.chans a) x) ∧
        ((t'.chans a).conflast x : Int) = t'.sums.next k x - t.sums.next k x) ∧
    (∀ t t' a, Mixture t k → a ∈ t.pseudos → transmitChunk i t a = .ok t' →
      speaks (t'.chans a) k = true → ∀ x,
        t'.sums.cur k x = addSat short (t.sums.cur k x) (said i a (t.chans a) x) ∧
        ((t'.chans a).conflast x : Int) = t'.sums.cur k x - t.sums.cur k x) ∧
    (∀ x, (s'.sums.cur k x : Int) = s.sums.next k x + shares s' s.registered k x) ∧
    ∀ a ∈ s.registered, listens (s'.chans a) k = true → ∀ x,
      given (s'.chans a) x = addSat short
        (subSat short (bare i a (s'.chans a) x) ((s'.chans a).conflast x)) (s'.sums.cur k x) ∧
      (short.low ≤ (bare i a (s'.chans a) x : Int) - (s'.chans a).conflast x →
        (bare i a (s'.chans a) x : Int) - (s'.chans a).conflast x ≤ short.high →
        given (s'.chans a) x = saturate short (bare i a (s'.chans a) x +
          (s.sums.next k x + shares s' (s.registered.erase a) k x))) := by
  obtain ⟨summed, heard⟩ := tick_law mixture ticked
  have registered : s'.registered = s.registered := by
    rw [State.registered, State.registered, summed.spanChans, summed.pseudos]
  rw [registered] at summed heard
  refine ⟨?_, ?_, summed.total, ?_⟩
  · intro t t' a mixture inside done spoken x
    have here : member (t.chans a) k = true := by
      rw [← role_member (receive_turn done).role]
      simp only [speaks, Bool.and_eq_true] at spoken
      exact spoken.1.1
    have conf := mixture.conf a (List.mem_append_left _ inside) here
    obtain ⟨added, _, _, talked⟩ := real_talks done here conf (mixture.real a inside)
    refine ⟨talked spoken x, ?_⟩
    rw [added x, share, if_pos spoken]
    omega
  · intro t t' a mixture inside done spoken x
    have here : member (t.chans a) k = true := by
      rw [← role_member (transmit_turn done).role]
      simp only [speaks, Bool.and_eq_true] at spoken
      exact spoken.1.1
    have conf := mixture.conf a (List.mem_append_right _ inside) here
    obtain ⟨added, _, talked⟩ := pseudo_talks done here conf (mixture.pseudo a inside)
    refine ⟨talked spoken x, ?_⟩
    rw [added x, share, if_pos spoken]
    omega
  · intro a inside listening x
    refine ⟨heard a inside listening x, fun low high => ?_⟩
    rw [heard a inside listening x, sub_add _ _ _ low high]
    have parts : share (s'.chans a) k x + shares s' (s.registered.erase a) k x =
        shares s' s.registered k x := 
      List.sum_map_erase (fun a => share (s'.chans a) k x) inside
    have settled : ((s'.chans a).conflast x : Int) = share (s'.chans a) k x := by
      simp only [listens, Bool.and_eq_true] at listening
      exact summed.settled a inside listening.1.1.1 listening.1.2 x
    have total := summed.total x
    congr 1
    omega

end Tick

section Concrete

/-- The loudest samples of the law: octet 0x00 and, for anything else, octet 0x80. -/
def loud : Law where
  rxgain := id
  txgain := id
  xlaw octet := if octet = 0 then ⟨-32124, by decide⟩ else ⟨32124, by decide⟩
  lin2x sample := if (sample : Int) < 0 then 0 else 0x80

/-- Every channel says the loudest sample and is sent the opposite one. -/
def clash : Signal where
  law _ := loud
  rx _ _ := 0x80
  tx _ _ := 0
  preec _ := silence

/-- A talker and listener of the conference with alias 1. -/
def partner : Chan := { freshChan 1 false with confna := 5, confmode := 0x304, confn := 1 }

def alone : State where
  chans _ := partner
  spanChans := [0]
  pseudos := []
  tables := ⟨Function.update (fun _ => 0) 5 1, Function.update (fun _ => 0) 1 5, 2⟩
  sums := ⟨fun _ => silence, fun _ => silence, fun _ => silence⟩

def afterTick (s : State) (i : Signal) : State :=
  match processMasterspan s i with
  | .ok s' => s'
  | .error _ => s

theorem alone_ticks : processMasterspan alone clash = .ok (afterTick alone clash) := rfl

theorem alone_mixture : Mixture alone 1 := by
  constructor
  · decide
  · intro a _
    rfl
  · intro a inside
    cases inside
  · intro a _ _
    have mode : partner.confmode &&& modeMask = confConf := by decide
    exact mode

def first : Fin chunksize := ⟨0, by decide⟩

/-- A member who is alone hears itself when it is sent the opposite of what it says. -/
theorem own_voice_heard : Mixture alone 1 ∧
    processMasterspan alone clash = .ok (afterTick alone clash) ∧
    speaks ((afterTick alone clash).chans 0) 1 = true ∧
    listens ((afterTick alone clash).chans 0) 1 = true ∧
    given ((afterTick alone clash).chans 0) first ≠
      saturate short (bare clash 0 ((afterTick alone clash).chans 0) first +
        (alone.sums.next 1 first + shares (afterTick alone clash) (alone.registered.erase 0) 1 first)) := by
  refine ⟨alone_mixture, alone_ticks, ?_, ?_, ?_⟩
  · decide +kernel
  · decide +kernel
  · decide +kernel

theorem mixing_law_alone : ((afterTick alone clash).sums.cur 1 first : Int) =
    alone.sums.next 1 first + shares (afterTick alone clash) alone.registered 1 first :=
  (mixing_law alone_mixture alone_ticks).2.2.1 first

end Concrete

end ConferenceMixing
