import Dahdi.Conference.Setconf
import Dahdi.Conference.Tick

/-!
What the turn of one channel in a tick leaves alone: the other channels, the place of
the channel in its conference, and the sums of all other conferences.
-/
namespace Conference

/-- The channel without its audio. -/
def role (c : Chan) : Chan :=
  { c with
    afterdialingtimer := 0
    conflast := silence
    conflast1 := silence
    conflast2 := silence
    getlin := silence
    putlin := silence
    getraw := fun _ => 0
    putraw := fun _ => 0 }

/-- The entries of one conference in the three sets of accumulators. -/
def Sums.entry (sums : Sums) (k : Int) : Chunk × Chunk × Chunk :=
  (sums.prev k, sums.cur k, sums.next k)

/-- The sums of all conferences but one are the same. -/
def SameBut (k : Int) (sums sums' : Sums) : Prop := ∀ j, j ≠ k → sums'.entry j = sums.entry j

structure Turn (s s' : State) (a : Nat) : Prop where
  tables : s'.tables = s.tables
  spanChans : s'.spanChans = s.spanChans
  pseudos : s'.pseudos = s.pseudos
  others : ∀ b, b ≠ a → s'.chans b = s.chans b
  role : role (s'.chans a) = role (s.chans a)
  sums : ∀ k, (isMixing (s.chans a).confmode = true → (s.chans a).confn ≠ k) →
    s'.sums.entry k = s.sums.entry k

section Roles
variable {c c' : Chan}

theorem role_pseudo (same : role c' = role c) : c'.pseudo = c.pseudo := by
  simpa [role] using congrArg Chan.pseudo same

theorem role_confna (same : role c' = role c) : c'.confna = c.confna := by
  simpa [role] using congrArg Chan.confna same

theorem role_confmode (same : role c' = role c) : c'.confmode = c.confmode := by
  simpa [role] using congrArg Chan.confmode same

theorem role_confn (same : role c' = role c) : c'.confn = c.confn := by
  simpa [role] using congrArg Chan.confn same

theorem role_confChan (same : role c' = role c) : c'.confChan = c.confChan := by
  simpa [role] using congrArg Chan.confChan same

theorem role_confmute (same : role c' = role c) : c'.confmute = c.confmute := by
  simpa [role] using congrArg Chan.confmute same

theorem role_dialing (same : role c' = role c) : c'.dialing = c.dialing := by
  simpa [role] using congrArg Chan.dialing same

theorem role_has (same : role c' = role c) (flag : Confmode) : has c' flag = has c flag := by
  rw [has, has, role_confmode same]

theorem role_get_open (same : role c' = role c) : getOpen c' = getOpen c := by
  rw [getOpen, getOpen, role_confmute same, role_dialing same, role_pseudo same]

end Roles

section Accumulators
variable {sums sums' : Int → Chunk} {k : Int} {lin own added heard : Chunk}

/-- The samples of one conference after a member has talked. -/
theorem talk_spec (done : talk sums k lin = .ok (added, sums')) : inBounds k ∧
    added = contribution (sums k) lin ∧ sums' = Function.update sums k (acss (sums k) added) := by
  unfold talk at done
  split at done
  · cases done
  · rename_i inside
    obtain ⟨rfl, rfl⟩ := Prod.mk.inj (Except.ok.inj done)
    exact ⟨not_not.mp inside, rfl, rfl⟩

theorem listen_spec (done : listenIn sums k lin own = .ok heard) :
    inBounds k ∧ heard = acss (scss lin own) (sums k) := by
  unfold listenIn at done
  split at done
  · cases done
  · rename_i inside
    exact ⟨not_not.mp inside, (Except.ok.inj done).symm⟩

theorem announce_spec (done : announce sums k lin = .ok sums') :
    inBounds k ∧ sums' = Function.update sums k (acss (sums k) lin) := by
  unfold announce at done
  split at done
  · cases done
  · rename_i inside
    exact ⟨not_not.mp inside, (Except.ok.inj done).symm⟩

end Accumulators

/-- A branch keeps the role of the channel and the sums of other conferences. -/
def Minds (c : Chan) (sums : Sums) (m : Mixed) : Prop :=
  role m.chan = role c ∧ SameBut c.confn sums m.sums

section Branches
variable {law : Law} {c : Chan} {sums : Sums} {lin : Chunk} {rxb : Octets} {m : Mixed}

theorem same_refl (k : Int) (sums : Sums) : SameBut k sums sums := fun _ _ => rfl

theorem same_next (k : Int) (sums : Sums) (chunk : Chunk) :
    SameBut k sums { sums with next := Function.update sums.next k chunk } := by
  intro j other
  simp only [Sums.entry, Function.update_of_ne other]

theorem same_cur (k : Int) (sums : Sums) (chunk : Chunk) :
    SameBut k sums { sums with cur := Function.update sums.cur k chunk } := by
  intro j other
  simp only [Sums.entry, Function.update_of_ne other]

theorem put_talk_minds (done : putTalk c sums lin rxb = .ok m) : Minds c sums m := by
  unfold putTalk at done
  split at done
  · obtain ⟨⟨added, next⟩, talked, rfl⟩ := map_ok done
    obtain ⟨_, _, rfl⟩ := talk_spec talked
    exact ⟨rfl, same_next _ _ _⟩
  · obtain rfl := Except.ok.inj done
    exact ⟨rfl, same_refl _ _⟩

theorem put_conf_minds (done : putConf law c sums lin rxb = .ok m) : Minds c sums m := by
  unfold putConf at done
  split at done
  · obtain ⟨heard, _, rfl⟩ := map_ok done
    exact ⟨rfl, same_refl _ _⟩
  · exact put_talk_minds done

theorem put_realandpseudo_minds (done : putRealandpseudo law c sums lin rxb = .ok m) :
    Minds c sums m := by
  unfold putRealandpseudo at done
  split at done
  · cases done
  · rename_i talked
    obtain ⟨heard, _, rfl⟩ := map_ok done
    obtain ⟨kept, away⟩ := put_talk_minds talked
    exact ⟨kept, away⟩

theorem put_confmon_minds (done : putConfmon law c sums lin = .ok m) : Minds c sums m := by
  unfold putConfmon at done
  split at done
  · cases done
  · simp only at done
    split at done
    · obtain ⟨⟨added, cur⟩, talked, rfl⟩ := map_ok done
      obtain ⟨_, _, rfl⟩ := talk_spec talked
      refine ⟨rfl, ?_⟩
      intro j other
      simp only [Sums.entry, Function.update_of_ne other]
    · obtain rfl := Except.ok.inj done
      exact ⟨rfl, same_refl _ _⟩

theorem put_mixing_minds (done : putMixing law c sums lin rxb = .ok m) : Minds c sums m := by
  unfold putMixing at done
  simp only at done
  split at done
  · exact put_realandpseudo_minds done
  · split at done
    · exact put_conf_minds done
    · split at done
      · exact put_talk_minds done
      · exact put_confmon_minds done

theorem get_listen_minds (done : getListen law c sums lin = .ok m) : m.chan = c ∧ m.sums = sums := by
  unfold getListen at done
  obtain ⟨heard, _, rfl⟩ := map_ok done
  exact ⟨rfl, rfl⟩

theorem get_conf_minds (done : getConf law c sums lin = .ok m) : Minds c sums m := by
  unfold getConf at done
  split at done
  · split at done
    · obtain ⟨⟨added, cur⟩, talked, rfl⟩ := map_ok done
      obtain ⟨_, _, rfl⟩ := talk_spec talked
      exact ⟨rfl, same_cur _ _ _⟩
    · obtain rfl := Except.ok.inj done
      exact ⟨rfl, same_refl _ _⟩
  · obtain ⟨chan, kept⟩ := get_listen_minds done
    rw [Minds, chan, kept]
    exact ⟨rfl, same_refl _ _⟩

theorem get_realandpseudo_minds (done : getRealandpseudo law c sums lin = .ok m) :
    Minds c sums m := by
  unfold getRealandpseudo at done
  split at done
  · split at done
    · cases done
    · rename_i added next talked
      obtain ⟨_, _, rfl⟩ := talk_spec talked
      obtain ⟨kept, away⟩ := get_conf_minds done
      refine ⟨kept, ?_⟩
      intro j other
      rw [away j other, same_next _ _ _ j other]
  · obtain ⟨kept, away⟩ := get_conf_minds done
    exact ⟨kept, away⟩

theorem get_confann_minds (done : getConfann law c sums lin = .ok m) : Minds c sums m := by
  unfold getConfann at done
  split at done
  · cases done
  · rename_i next announced
    obtain ⟨_, rfl⟩ := announce_spec announced
    obtain ⟨chan, kept⟩ := get_listen_minds done
    rw [Minds, chan, kept]
    exact ⟨rfl, same_next _ _ _⟩

theorem get_mixing_minds (done : getMixing law c sums lin = .ok m) : Minds c sums m := by
  unfold getMixing at done
  simp only at done
  split at done
  · exact get_realandpseudo_minds done
  · split at done
    · exact get_conf_minds done
    · split at done
      · obtain ⟨chan, kept⟩ := get_listen_minds done
        rw [Minds, chan, kept]
        exact ⟨rfl, same_refl _ _⟩
      · exact get_confann_minds done

theorem put_start_role (law : Law) (c : Chan) (rxb : Octets) :
    role (putStart law c rxb).1 = role c := by
  have timed : role (dialTimer c) = role c := by
    unfold dialTimer
    split
    · rfl
    · split <;> rfl
  unfold putStart
  simp only
  split
  · exact timed
  · exact timed

end Branches

section Turns
variable {s s' : State} {i : Signal} {a : Nat}

theorem turn_refl (s : State) (a : Nat) : Turn s s a := ⟨rfl, rfl, rfl, fun _ _ => rfl, rfl, fun _ _ => rfl⟩

theorem turn_set {c : Chan} {sums : Sums} (same : role c = role (s.chans a))
    (away : ∀ k, (isMixing (s.chans a).confmode = true → (s.chans a).confn ≠ k) →
      sums.entry k = s.sums.entry k) : Turn s (setSums (setChan s a c) sums) a := by
  refine ⟨rfl, rfl, rfl, ?_, ?_, away⟩
  · intro b other
    rw [set_sums_chans, set_chan_other s c other]
  · rw [set_sums_chans, set_chan_same]
    exact same

theorem receive_turn (done : receiveChunk i s a = .ok s') : Turn s s' a := by
  unfold receiveChunk at done
  split at done
  · obtain ⟨⟨rxb, s₁⟩, processed, rfl⟩ := map_ok done
    unfold processPutaudioChunk at processed
    have started := put_start_role (i.law a) (s.chans a) (i.rx a)
    generalize putStart (i.law a) (s.chans a) (i.rx a) = start at processed started
    obtain ⟨c, lin, octets⟩ := start
    simp only at processed started
    have plain : Turn s (setChan s a c) a := @turn_set s a c s.sums started fun _ _ => rfl
    split at processed
    · split at processed
      · rename_i mixing
        obtain ⟨m, mixed, done⟩ := map_ok processed
        obtain ⟨_, rfl⟩ := Prod.mk.inj done
        obtain ⟨kept, away⟩ := put_mixing_minds mixed
        have whole : setSums (setChan (setChan s a c) a m.chan) m.sums =
            setSums (setChan s a m.chan) m.sums := by
          simp only [setSums, setChan, Function.update_idem]
        rw [whole]
        refine turn_set (kept.trans started) fun k differ => ?_
        have other : c.confn ≠ k := by
          rw [role_confn started]
          exact differ (by rw [← role_confmode started]; exact mixing)
        rw [away k (Ne.symm other), set_chan_sums]
      · obtain ⟨_, _, done⟩ := map_ok processed
        obtain ⟨_, rfl⟩ := Prod.mk.inj done
        exact plain
    · obtain ⟨_, rfl⟩ := Prod.mk.inj (Except.ok.inj processed)
      exact plain
  · obtain rfl := Except.ok.inj done
    exact turn_refl _ _

theorem transmit_turn (done : transmitChunk i s a = .ok s') : Turn s s' a := by
  unfold transmitChunk at done
  split at done
  · obtain ⟨⟨txb, s₁⟩, processed, rfl⟩ := map_ok done
    unfold processGetaudioChunk at processed
    obtain ⟨m, switched, done⟩ := map_ok processed
    obtain ⟨_, rfl⟩ := Prod.mk.inj done
    unfold getSwitch at switched
    split at switched
    · split at switched
      · rename_i mixing
        obtain ⟨kept, away⟩ := get_mixing_minds switched
        refine turn_set kept fun k differ => ?_
        exact away k (Ne.symm (differ mixing))
      · obtain ⟨_, _, rfl⟩ := map_ok switched
        exact turn_set rfl fun _ _ => rfl
    · obtain rfl := Except.ok.inj switched
      exact turn_set rfl fun _ _ => rfl
  · obtain rfl := Except.ok.inj done
    exact turn_refl _ _

theorem conferenced_turn {f : State → Nat → Except Fault State}
    (turn : f s a = .ok s' → Turn s s' a) (done : conferenced f s a = .ok s') : Turn s s' a := by
  unfold conferenced at done
  split at done
  · obtain rfl := Except.ok.inj done
    exact turn_refl _ _
  · exact turn done

end Turns

section Walks
variable {f : State → Nat → Except Fault State} {s s' : State} {l : List Nat}

/-- What holds before a walk and is kept by every turn holds after it. -/
theorem visit_inv {inv : State → Prop} (kept : ∀ s a s', a ∈ l → inv s → f s a = .ok s' → inv s')
    (holds : inv s) (done : visit f l s = .ok s') : inv s' := by
  induction l generalizing s with
  | nil =>
    obtain rfl := Except.ok.inj done
    exact holds
  | cons a rest ih =>
    unfold visit at done
    split at done
    · cases done
    · rename_i s₁ turn
      have first := kept s a s₁ (by simp) holds turn
      refine ih ?_ first done
      intro s b s' member
      exact kept s b s' (List.mem_cons_of_mem a member)

end Walks

/-- A walk whose turns all complete completes. -/
theorem visit_ok {f : State → Nat → Except Fault State} {s : State} {l : List Nat}
    {inv : State → Prop} (turn : ∀ s a, a ∈ l → inv s → ∃ s', f s a = .ok s' ∧ inv s')
    (holds : inv s) : ∃ s', visit f l s = .ok s' ∧ inv s' := by
  induction l generalizing s with
  | nil => exact ⟨s, rfl, holds⟩
  | cons a rest ih =>
    obtain ⟨s₁, first, holds₁⟩ := turn s a (by simp) holds
    obtain ⟨s', walked, holds'⟩ := ih (fun t b inside => turn t b (List.mem_cons_of_mem a inside)) holds₁
    refine ⟨s', ?_, holds'⟩
    unfold visit
    rw [first]
    exact walked

/-- What happens to the conferences: an operation from its beginning to its end, a tick,
    or that a channel is muted or starts or stops to dial. -/
inductive Event where
  | op (o : Op)
  | tick (i : Signal)
  | control (chan : Nat) (confmute dialing : Bool)

def applyEvent (s : State) : Event → Except Fault State
  | .op o => applyOp s o
  | .tick i => processMasterspan s i
  | .control chan confmute dialing =>
    .ok (setChan s chan { s.chans chan with confmute := confmute, dialing := dialing })

end Conference
