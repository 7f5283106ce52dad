import Dahdi.Library.GuardedRun
import Dahdi.Conference.Turns

/-!
What is left in the accumulators. An entry that nobody has written since it was last
cleared is silent, but rotate_sums clears the entries of the aliases in use only.
-/
namespace ConferenceResidue
open Conference GuardedRun

/-- The entries written since they were last cleared. -/
structure Marks where
  prev : Int → Bool
  cur : Int → Bool
  next : Int → Bool

def Marks.write (m : Marks) (k : Int) (cur next : Bool) : Marks :=
  { m with
    cur := Function.update m.cur k (m.cur k || cur)
    next := Function.update m.next k (m.next k || next) }

section Writes

def mode (c : Chan) : Confmode := c.confmode &&& modeMask

/-- A channel that receives writes the current sum: the talkers who monitor a conference. -/
def putCur (c : Chan) : Bool :=
  putOpen c && isMixing c.confmode && has c confTalker &&
    (mode c == confConfmon || mode c == confConfannmon)

/-- A channel that receives writes the next sum: all other talkers on spans. -/
def putNext (c : Chan) : Bool :=
  putOpen c && isMixing c.confmode && has c confTalker &&
    (mode c == confRealandpseudo || mode c == confConf && !c.pseudo || mode c == confConfann)

/-- A channel that transmits writes the current sum: the talkers on pseudo channels. -/
def getCur (c : Chan) : Bool :=
  getOpen c && isMixing c.confmode && has c confTalker && c.pseudo &&
    (mode c == confRealandpseudo || mode c == confConf)

/-- A channel that transmits writes the next sum: announcements, and the pseudo part of a
    real channel. -/
def getNext (c : Chan) : Bool :=
  getOpen c && isMixing c.confmode &&
    (mode c == confRealandpseudo && has c confPseudoTalker || mode c == confConfann ||
      mode c == confConfannmon)

end Writes

section Marking

def receiveMarks (i : Signal) (s : State) (a : Nat) (m : Marks) : Marks :=
  if (s.chans a).audio ∨ (s.chans a).confmode ≠ 0 then
    let c := (putStart (i.law a) (s.chans a) (i.rx a)).1
    m.write c.confn (putCur c) (putNext c)
  else m

def transmitMarks (_ : Signal) (s : State) (a : Nat) (m : Marks) : Marks :=
  if (s.chans a).audio ∨ (s.chans a).confmode ≠ 0 then
    m.write (s.chans a).confn (getCur (s.chans a)) (getNext (s.chans a))
  else m

def conferencedMarks (w : State → Nat → Marks → Marks) (s : State) (a : Nat) (m : Marks) : Marks :=
  if (s.chans a).confmode = 0 then m else w s a m

/-- The marks of a walk. -/
def visitMarks (f : State → Nat → Except Fault State) (w : State → Nat → Marks → Marks) :
    List Nat → State → Marks → Marks
  | [], _, m => m
  | a :: rest, s, m =>
    match f s a with
    | .error _ => m
    | .ok s' => visitMarks f w rest s' (w s a m)

def rotateMarks (s : State) (m : Marks) : Marks where
  prev := m.cur
  cur := m.next
  next k := m.prev k && !decide (0 ≤ k ∧ k < s.tables.maxconfs)

/-- The marks of the walks of a tick, and the states between them. -/
def tickMarks (i : Signal) (s : State) (m : Marks) : Marks :=
  let m := visitMarks (conferenced (receiveChunk i)) (conferencedMarks (receiveMarks i)) s.spanChans s m
  match visit (conferenced (receiveChunk i)) s.spanChans s with
  | .error _ => m
  | .ok s =>
    let m := rotateMarks s m
    let s := rotateSums s
    let m := visitMarks (transmitChunk i) (transmitMarks i) s.pseudos s m
    match visit (transmitChunk i) s.pseudos s with
    | .error _ => m
    | .ok s =>
      let m := visitMarks (receiveChunk i) (receiveMarks i) s.pseudos s m
      match visit (receiveChunk i) s.pseudos s with
      | .error _ => m
      | .ok s =>
        visitMarks (conferenced (transmitChunk i)) (conferencedMarks (transmitMarks i)) s.spanChans s m

def eventMarks (s : State) (m : Marks) : Event → Marks
  | .tick i => tickMarks i s m
  | _ => m

end Marking

/-- An entry without a mark is silent. -/
structure Covered (sums : Sums) (m : Marks) : Prop where
  prev : ∀ k, m.prev k = false → sums.prev k = silence
  cur : ∀ k, m.cur k = false → sums.cur k = silence
  next : ∀ k, m.next k = false → sums.next k = silence

section Branches
variable {law : Law} {c : Chan} {sums : Sums} {lin : Chunk} {octets : Octets} {m : Mixed}

/-- What a branch may have written. -/
def Wrote (sums sums' : Sums) (cur next : Bool) : Prop :=
  sums'.prev = sums.prev ∧ (cur = false → sums'.cur = sums.cur) ∧
    (next = false → sums'.next = sums.next)

theorem put_talk_wrote (done : putTalk c sums lin octets = .ok m) :
    Wrote sums m.sums false (has c confTalker) := by
  unfold putTalk at done
  split at done
  · rename_i talker
    obtain ⟨⟨added, next⟩, talked, rfl⟩ := map_ok done
    refine ⟨rfl, fun _ => rfl, fun silent => ?_⟩
    rw [talker] at silent
    cases silent
  · obtain rfl := Except.ok.inj done
    exact ⟨rfl, fun _ => rfl, fun _ => rfl⟩

theorem put_conf_wrote (done : putConf law c sums lin octets = .ok m) :
    Wrote sums m.sums false (has c confTalker && !c.pseudo) := by
  unfold putConf at done
  split at done
  · obtain ⟨heard, _, rfl⟩ := map_ok done
    exact ⟨rfl, fun _ => rfl, fun _ => rfl⟩
  · rename_i real
    have wrote := put_talk_wrote done
    rw [Bool.not_eq_true] at real
    rw [real, Bool.not_false, Bool.and_true]
    exact wrote

theorem put_realandpseudo_wrote (done : putRealandpseudo law c sums lin octets = .ok m) :
    Wrote sums m.sums false (has c confTalker) := by
  unfold putRealandpseudo at done
  split at done
  · cases done
  · rename_i talked
    obtain ⟨heard, _, rfl⟩ := map_ok done
    have wrote := put_talk_wrote talked
    exact wrote

theorem put_confmon_wrote (done : putConfmon law c sums lin = .ok m) :
    Wrote sums m.sums (has c confTalker) false := by
  unfold putConfmon at done
  split at done
  · cases done
  · simp only at done
    split at done
    · rename_i talker
      obtain ⟨⟨added, cur⟩, _, rfl⟩ := map_ok done
      refine ⟨rfl, fun silent => ?_, fun _ => rfl⟩
      rw [talker] at silent
      cases silent
    · obtain rfl := Except.ok.inj done
      exact ⟨rfl, fun _ => rfl, fun _ => rfl⟩

theorem wrote_less {sums' : Sums} {cur next cur' next' : Bool} (wrote : Wrote sums sums' cur next)
    (less : cur' = false → cur = false) (less' : next' = false → next = false) :
    Wrote sums sums' cur' next' :=
  ⟨wrote.1, fun silent => wrote.2.1 (less silent), fun silent => wrote.2.2 (less' silent)⟩

theorem put_mixing_wrote (opened : putOpen c = true) (mixing : isMixing c.confmode = true)
    (done : putMixing law c sums lin octets = .ok m) :
    Wrote sums m.sums (putCur c) (putNext c) := by
  unfold putMixing at done
  simp only at done
  simp only [putCur, putNext, mode, opened, mixing, Bool.true_and]
  split at done
  · rename_i realandpseudo
    refine wrote_less (put_realandpseudo_wrote done) (fun _ => rfl) ?_
    simp [realandpseudo]
  · split at done
    · rename_i conf
      refine wrote_less (put_conf_wrote done) (fun _ => rfl) fun silent => ?_
      have differ : (confConf == confRealandpseudo) = false ∧ (confConf == confConfann) = false := by
        decide
      rw [conf, differ.1, differ.2] at silent
      simpa using silent
    · split at done
      · rename_i confann
        refine wrote_less (put_talk_wrote done) (fun _ => rfl) ?_
        simp [confann]
      · rename_i realandpseudo conf confann
        refine wrote_less (put_confmon_wrote done) (fun silent => ?_) (fun _ => rfl)
        have monitoring : (c.confmode &&& modeMask == confConfmon ||
            c.confmode &&& modeMask == confConfannmon) = true := by
          rcases mixing_cases mixing with here | here | here | here | here
          · exact absurd here conf
          · exact absurd here confann
          · rw [here]
            rfl
          · rw [here]
            rfl
          · exact absurd here realandpseudo
        rw [monitoring, Bool.and_true] at silent
        exact silent

theorem get_conf_wrote (done : getConf law c sums lin = .ok m) :
    Wrote sums m.sums (has c confTalker && c.pseudo) false := by
  unfold getConf at done
  split at done
  · rename_i pseudo
    split at done
    · rename_i talker
      obtain ⟨⟨added, cur⟩, _, rfl⟩ := map_ok done
      refine ⟨rfl, fun silent => ?_, fun _ => rfl⟩
      rw [talker, pseudo] at silent
      cases silent
    · obtain rfl := Except.ok.inj done
      exact ⟨rfl, fun _ => rfl, fun _ => rfl⟩
  · obtain ⟨_, same⟩ := get_listen_minds done
    rw [same]
    exact ⟨rfl, fun _ => rfl, fun _ => rfl⟩

theorem get_realandpseudo_wrote (done : getRealandpseudo law c sums lin = .ok m) :
    Wrote sums m.sums (has c confTalker && c.pseudo) (has c confPseudoTalker) := by
  unfold getRealandpseudo at done
  split at done
  · rename_i talker
    split at done
    · cases done
    · obtain ⟨prev, cur, next⟩ := get_conf_wrote done
      refine ⟨prev, cur, fun silent => ?_⟩
      rw [talker] at silent
      cases silent
  · obtain ⟨prev, cur, next⟩ := get_conf_wrote done
    exact ⟨prev, cur, fun _ => next rfl⟩

theorem get_mixing_wrote (opened : getOpen c = true) (mixing : isMixing c.confmode = true)
    (done : getMixing law c sums lin = .ok m) : Wrote sums m.sums (getCur c) (getNext c) := by
  unfold getMixing at done
  simp only at done
  simp only [getCur, getNext, mode, opened, mixing, Bool.true_and]
  split at done
  · rename_i realandpseudo
    refine wrote_less (get_realandpseudo_wrote done) ?_ ?_
    · simp [realandpseudo]
    · intro silent
      simp only [realandpseudo, Bool.or_eq_false_iff] at silent
      simpa using silent.1.1
  · split at done
    · rename_i conf
      refine wrote_less (get_conf_wrote done) ?_ (fun _ => rfl)
      simp [conf]
    · split at done
      · obtain ⟨_, same⟩ := get_listen_minds done
        rw [same]
        exact ⟨rfl, fun _ => rfl, fun _ => rfl⟩
      · rename_i realandpseudo conf confmon
        unfold getConfann at done
        split at done
        · cases done
        · obtain ⟨_, same⟩ := get_listen_minds done
          rw [same]
          refine ⟨rfl, fun _ => rfl, fun silent => ?_⟩
          have announcing : (c.confmode &&& modeMask == confConfann ||
              c.confmode &&& modeMask == confConfannmon) = true := by
            rcases mixing_cases mixing with here | here | here | here | here
            · exact absurd here conf
            · rw [here]
              rfl
            · exact absurd here confmon
            · rw [here]
              rfl
            · exact absurd here realandpseudo
          rw [Bool.or_assoc, announcing, Bool.or_true] at silent
          cases silent

end Branches

section Turns
variable {s s' : State} {i : Signal} {a : Nat} {m : Marks}

theorem covered_write {sums sums' : Sums} {k : Int} {cur next : Bool} (covered : Covered sums m)
    (away : SameBut k sums sums') (wrote : Wrote sums sums' cur next) :
    Covered sums' (m.write k cur next) := by
  obtain ⟨prev, curKept, nextKept⟩ := wrote
  constructor
  · intro j clear
    rw [prev]
    exact covered.prev j clear
  · intro j clear
    by_cases here : j = k
    · subst here
      simp only [Marks.write, Function.update_self, Bool.or_eq_false_iff] at clear
      rw [curKept clear.2]
      exact covered.cur j clear.1
    · simp only [Marks.write, Function.update_of_ne here] at clear
      have same : sums'.cur j = sums.cur j := congrArg (fun e => e.2.1) (away j here)
      rw [same]
      exact covered.cur j clear
  · intro j clear
    by_cases here : j = k
    · subst here
      simp only [Marks.write, Function.update_self, Bool.or_eq_false_iff] at clear
      rw [nextKept clear.2]
      exact covered.next j clear.1
    · simp only [Marks.write, Function.update_of_ne here] at clear
      have same : sums'.next j = sums.next j := congrArg (fun e => e.2.2) (away j here)
      rw [same]
      exact covered.next j clear

theorem wrote_nothing (sums : Sums) (cur next : Bool) : Wrote sums sums cur next :=
  ⟨rfl, fun _ => rfl, fun _ => rfl⟩

theorem receive_covered (covered : Covered s.sums m) (done : receiveChunk i s a = .ok s') :
    Covered s'.sums (receiveMarks i s a m) := by
  unfold receiveChunk at done
  unfold receiveMarks
  split at done
  · rename_i audio
    rw [if_pos audio]
    obtain ⟨⟨rxb, s₁⟩, processed, rfl⟩ := map_ok done
    unfold processPutaudioChunk at processed
    generalize putStart (i.law a) (s.chans a) (i.rx a) = start at processed
    obtain ⟨c, lin, octets⟩ := start
    simp only at processed ⊢
    split at processed
    · rename_i opened
      split at processed
      · rename_i mixing
        obtain ⟨mixed, put, done⟩ := map_ok processed
        obtain ⟨_, rfl⟩ := Prod.mk.inj done
        exact covered_write covered (put_mixing_minds put).2 (put_mixing_wrote opened mixing put)
      · obtain ⟨_, _, done⟩ := map_ok processed
        obtain ⟨_, rfl⟩ := Prod.mk.inj done
        exact covered_write covered (same_refl _ _) (wrote_nothing _ _ _)
    · obtain ⟨_, rfl⟩ := Prod.mk.inj (Except.ok.inj processed)
      exact covered_write covered (same_refl _ _) (wrote_nothing _ _ _)
  · rename_i audio
    obtain rfl := Except.ok.inj done
    rw [if_neg audio]
    exact covered

theorem transmit_covered (covered : Covered s.sums m) (done : transmitChunk i s a = .ok s') :
    Covered s'.sums (transmitMarks i s a m) := by
  unfold transmitChunk at done
  unfold transmitMarks
  split at done
  · rename_i audio
    rw [if_pos audio]
    obtain ⟨⟨txb, s₁⟩, processed, rfl⟩ := map_ok done
    unfold processGetaudioChunk at processed
    obtain ⟨mixed, switched, done⟩ := map_ok processed
    obtain ⟨_, rfl⟩ := Prod.mk.inj done
    unfold getSwitch at switched
    split at switched
    · rename_i opened
      split at switched
      · rename_i mixing
        exact covered_write covered (get_mixing_minds switched).2
          (get_mixing_wrote opened mixing switched)
      · obtain ⟨_, _, rfl⟩ := map_ok switched
        exact covered_write covered (same_refl _ _) (wrote_nothing _ _ _)
    · obtain rfl := Except.ok.inj switched
      exact covered_write covered (same_refl _ _) (wrote_nothing _ _ _)
  · rename_i audio
    obtain rfl := Except.ok.inj done
    rw [if_neg audio]
    exact covered

theorem conferenced_covered {f : State → Nat → Except Fault State} {w : State → Nat → Marks → Marks}
    (turn : f s a = .ok s' → Covered s'.sums (w s a m)) (covered : Covered s.sums m)
    (done : conferenced f s a = .ok s') : Covered s'.sums (conferencedMarks w s a m) := by
  unfold conferenced at done
  unfold conferencedMarks
  split at done
  · rename_i zero
    obtain rfl := Except.ok.inj done
    rw [if_pos zero]
    exact covered
  · rename_i some
    rw [if_neg some]
    exact turn done

theorem visit_covered {f : State → Nat → Except Fault State} {w : State → Nat → Marks → Marks}
    {l : List Nat}
    (turn : ∀ s a s' m, Covered s.sums m → f s a = .ok s' → Covered s'.sums (w s a m))
    (covered : Covered s.sums m) (done : visit f l s = .ok s') :
    Covered s'.sums (visitMarks f w l s m) := by
  induction l generalizing s m with
  | nil =>
    obtain rfl := Except.ok.inj done
    exact covered
  | cons a rest ih =>
    unfold visit at done
    unfold visitMarks
    cases first : f s a with
    | error fault =>
      rw [first] at done
      cases done
    | ok s₁ =>
      rw [first] at done
      exact ih (turn s a s₁ m covered first) done

theorem rotate_covered (covered : Covered s.sums m) :
    Covered (rotateSums s).sums (rotateMarks s m) := by
  refine ⟨covered.cur, covered.next, ?_⟩
  intro k clear
  simp only [rotateMarks, Bool.and_eq_false_iff, Bool.not_eq_eq_eq_not, Bool.not_false,
    decide_eq_true_eq] at clear
  simp only [rotateSums, set_sums_sums]
  split
  · rfl
  · rename_i kept
    exact covered.prev k (clear.resolve_right kept)

theorem tick_covered (covered : Covered s.sums m) (ticked : processMasterspan s i = .ok s') :
    Covered s'.sums (tickMarks i s m) := by
  unfold processMasterspan at ticked
  obtain ⟨s₁, received, ticked⟩ := bind_ok ticked
  obtain ⟨s₂, transmitted, ticked⟩ := bind_ok ticked
  obtain ⟨s₃, listened, ticked⟩ := bind_ok ticked
  have same : (rotateSums s₁).pseudos = s₁.pseudos := rfl
  unfold tickMarks
  simp only [received, same, transmitted, listened]
  have first := visit_covered (w := conferencedMarks (receiveMarks i))
    (fun s a s' m before done => conferenced_covered (receive_covered before) before done)
    covered received
  have second := visit_covered (w := transmitMarks i)
    (fun s a s' m before done => transmit_covered before done) (rotate_covered first) transmitted
  have third := visit_covered (w := receiveMarks i)
    (fun s a s' m before done => receive_covered before done) second listened
  exact visit_covered (w := conferencedMarks (transmitMarks i))
    (fun s a s' m before done => conferenced_covered (transmit_covered before) before done)
    third ticked

end Turns

/-- Nobody joins a conference, and the sums are the same. -/
structure Shrinks (s s' : State) : Prop where
  sums : s'.sums = s.sums
  registered : ∀ a ∈ s'.registered, a ∈ s.registered
  members : ∀ a x, chanInConf (s'.chans a) x = true → chanInConf (s.chans a) x = true

section Leaving
variable {s s' s'' : State} {a : Nat} {c : Chan}

theorem shrinks_refl (s : State) : Shrinks s s := ⟨rfl, fun _ inside => inside, fun _ _ here => here⟩

theorem shrinks_trans (first : Shrinks s s') (second : Shrinks s' s'') : Shrinks s s'' :=
  ⟨second.sums.trans first.sums, fun a inside => first.registered a (second.registered a inside),
    fun a x here => first.members a x (second.members a x here)⟩

theorem shrinks_set (leaves : ∀ x, chanInConf c x = true → chanInConf (s.chans a) x = true) :
    Shrinks s (setChan s a c) := by
  refine ⟨rfl, fun _ inside => inside, ?_⟩
  intro b x here
  by_cases place : b = a
  · rw [place, set_chan_same] at here
    rw [place]
    exact leaves x here
  · rw [set_chan_other s c place] at here
    exact here

theorem unmixed_nowhere (gone : isMixing c.confmode = false) (x : Int) : chanInConf c x = false := by
  rw [chanInConf, gone, Bool.and_false]

theorem shrinks_gone (gone : isMixing c.confmode = false) : Shrinks s (setChan s a c) := by
  apply shrinks_set
  intro x here
  rw [unmixed_nowhere gone] at here
  cases here

/-- dahdi_check_conf takes no more than the alias of an empty conference. -/
theorem check_cases {locked : Bool} {x : Int} (done : checkConf s locked x = .ok s') :
    s' = s ∧ (x ≤ 0 ∨ s.tables.confalias x = 0 ∨ anyInConf s x = true) ∨
      anyInConf s x = false ∧ ∃ t, s' = setTables s t ∧
        t.confalias = Function.update s.tables.confalias x 0 := by
  unfold checkConf at done
  split at done
  · rename_i low
    exact Or.inl ⟨(Except.ok.inj done).symm, Or.inl low⟩
  · unfold hasAlias at done
    by_cases inside : inBounds x
    · simp only [inside, not_true_eq_false, ↓reduceIte] at done
      by_cases used : s.tables.confalias x = 0
      · simp only [used, ne_eq, not_true_eq_false, decide_false] at done
        exact Or.inl ⟨(Except.ok.inj done).symm, Or.inr (Or.inl used)⟩
      · simp only [used, ne_eq, not_false_eq_true, decide_true] at done
        split at done
        · cases done
        · split at done
          · rename_i members
            exact Or.inl ⟨(Except.ok.inj done).symm, Or.inr (Or.inr members)⟩
          · rename_i members
            obtain ⟨t, cleared, rfl⟩ := map_ok done
            refine Or.inr ⟨by simpa using members, t, rfl, ?_⟩
            unfold clearAlias at cleared
            split at cleared
            · cases cleared
            · obtain rfl := Except.ok.inj cleared
              rfl
    · simp only [inside, not_false_eq_true, ↓reduceIte] at done
      cases done

theorem check_shrinks {locked : Bool} {x : Int} (done : checkConf s locked x = .ok s') :
    Shrinks s s' ∧ s'.chans = s.chans := by
  rcases check_cases done with ⟨rfl, _⟩ | ⟨_, t, rfl, _⟩
  · exact ⟨shrinks_refl s', rfl⟩
  · exact ⟨⟨rfl, fun _ inside => inside, fun _ _ here => here⟩, rfl⟩

theorem preec_shrinks (s : State) (p : Nat) (allocated : Bool) : Shrinks s (setPreec s p allocated) :=
  shrinks_set fun _ here => here

theorem close_shrinks (done : closeChannel s a = .ok s') : Shrinks s s' := by
  have dropped : Shrinks s (dropPreecho s a) := by
    unfold dropPreecho
    split
    · exact shrinks_refl s
    · split
      · exact preec_shrinks _ _ _
      · exact shrinks_refl s
  have gone : isMixing (closed ((dropPreecho s a).chans a)).confmode = false := by
    have normal : isMixing 0 = false := by decide
    exact normal
  have left := shrinks_trans dropped (shrinks_gone (a := a) gone)
  unfold closeChannel at done
  simp only at done
  split at done
  · exact shrinks_trans left (check_shrinks done).1
  · obtain rfl := Except.ok.inj done
    exact left

theorem reinit_shrinks (done : initializeChannel s a = .ok s') : Shrinks s s' := by
  unfold initializeChannel at done
  split at done
  · cases done
  · rename_i s₁ checked
    obtain rfl := Except.ok.inj done
    have first : Shrinks s s₁ := by
      split at checked
      · exact (check_shrinks checked).1
      · obtain rfl := Except.ok.inj checked
        exact shrinks_refl _
    refine shrinks_trans first ?_
    cases dacs : (s₁.chans a).sigDacs with
    | false =>
      apply shrinks_gone
      simp only [initialized, dacs, Bool.false_eq_true, ↓reduceIte]
      decide
    | true =>
      apply shrinks_set
      intro x here
      have kept : (initialized (s₁.chans a)).confna = (s₁.chans a).confna ∧
          (initialized (s₁.chans a)).confmode = (s₁.chans a).confmode := by
        simp only [initialized, dacs, ↓reduceIte, and_self]
      rw [chanInConf, kept.1, kept.2] at here
      exact here

theorem cleanup_shrinks {pos : Nat} (done : chanCleanup s a pos = .ok s') : Shrinks s s' := by
  unfold chanCleanup at done
  split at done
  · split at done
    · cases done
    · rename_i s₁ checked
      obtain rfl := Except.ok.inj done
      have first : Shrinks s s₁ := by
        split at checked
        · exact (check_shrinks checked).1
        · obtain rfl := Except.ok.inj checked
          exact shrinks_refl _
      have normal : isMixing (cleaned (s₁.chans pos)).confmode = false := by
        have normal : isMixing 0 = false := by decide
        exact normal
      exact shrinks_trans first (shrinks_gone normal)
  · obtain rfl := Except.ok.inj done
    exact shrinks_refl s

theorem cleanup_all_shrinks {l : List Nat} (done : cleanupAll a l s = .ok s') : Shrinks s s' := by
  induction l generalizing s with
  | nil =>
    obtain rfl := Except.ok.inj done
    exact shrinks_refl _
  | cons pos rest ih =>
    unfold cleanupAll at done
    split at done
    · cases done
    · rename_i s₁ first
      exact shrinks_trans (cleanup_shrinks first) (ih done)

theorem unreg_shrinks (done : chanUnreg s a = .ok s') : Shrinks s s' := by
  unfold chanUnreg at done
  split at done
  · cases done
  · rename_i s₁ cleaned
    have renumbered : Shrinks s₁ (setChan s₁ a { s₁.chans a with channo := -1 }) :=
      shrinks_set fun _ here => here
    exact shrinks_trans (cleanup_all_shrinks cleaned) (shrinks_trans renumbered (close_shrinks done))

theorem unreg_all_shrinks {l : List Nat} (done : unregAll l s = .ok s') : Shrinks s s' := by
  induction l generalizing s with
  | nil =>
    obtain rfl := Except.ok.inj done
    exact shrinks_refl _
  | cons a rest ih =>
    unfold unregAll at done
    split at done
    · cases done
    · rename_i s₁ first
      exact shrinks_trans (unreg_shrinks first) (ih done)

theorem unregister_shrinks {l : List Nat} (done : unregister s l = .ok s') : Shrinks s s' := by
  have delisted : Shrinks s (delist s l) := by
    refine ⟨rfl, ?_, fun _ _ here => here⟩
    intro a inside
    simp only [delist, State.registered, List.mem_append, List.mem_filter] at inside ⊢
    exact inside.imp And.left And.left
  exact shrinks_trans delisted (unreg_all_shrinks done)

theorem chanconfig_shrinks (s : State) (a : Nat) (clear : Bool) (dacs : Option Int) :
    Shrinks s (chanconfig s a clear dacs).2 := by
  unfold chanconfig
  split
  · exact shrinks_set fun _ here => here
  · split
    · exact shrinks_refl s
    · apply shrinks_gone
      have digitalmon : isMixing confDigitalmon = false := by decide
      exact digitalmon

end Leaving

/-- A conference has its first member. -/
structure Created (s s' : State) (x : Int) : Prop where
  before : ∀ a ∈ s.registered, chanInConf (s.chans a) x = false
  after : ∃ a ∈ s'.registered, chanInConf (s'.chans a) x = true

section Joining
variable {s s' : State} {file chan : Nat} {conf : Confinfo} {kmalloc : Bool} {hw r x : Int}

theorem shrinks_creates_nothing (shrinks : Shrinks s s') : ¬ Created s s' x := by
  rintro ⟨before, a, inside, here⟩
  have there := shrinks.members a x here
  rw [before a (shrinks.registered a inside)] at there
  cases there

/-- A conference without members has no alias once it has been checked. -/
theorem checked_free {s₁ : State} {n : Int} (checked : checkConf s false n = .ok s₁)
    (number : setconfNumber s₁.tables n = x) (low : 1 ≤ x)
    (before : ∀ a ∈ s.registered, chanInConf (s.chans a) x = false) :
    s₁.tables.confalias x = 0 := by
  unfold setconfNumber at number
  split at number
  · rcases @first_empty_conference_from s₁.tables.confalias (maxConf - 1).toNat with none | ⟨_, _, free⟩
    · rw [firstEmptyConference, none] at number
      omega
    · rw [firstEmptyConference] at number
      rw [← number]
      exact free
  · subst number
    rcases check_cases checked with ⟨rfl, quiet⟩ | ⟨_, t, rfl, confalias⟩
    · rcases quiet with zero | free | members
      · omega
      · exact free
      · obtain ⟨a, inside, here⟩ := List.any_eq_true.mp members
        rw [before a inside] at here
        cases here
    · rw [set_tables_tables, confalias, Function.update_self]

theorem finish_mixing {oldconf : Int} {confmode : Confmode}
    (done : setconfFinish s oldconf none confmode kmalloc hw = .ok (r, s')) :
    checkConf s false oldconf = .ok s' := by
  simp only [setconfFinish, setconfPreec] at done
  obtain ⟨s₁, checked, same⟩ := map_ok done
  obtain ⟨_, rfl⟩ := Prod.mk.inj same
  exact checked

theorem finish_shrinks {oldconf : Int} {confChan : Option Nat} {confmode : Confmode}
    (done : setconfFinish s oldconf confChan confmode kmalloc hw = .ok (r, s')) : Shrinks s s' := by
  have first : Shrinks s (setconfPreec s confChan confmode kmalloc).2 := by
    unfold setconfPreec
    split
    · exact shrinks_refl s
    · split
      · split
        · exact preec_shrinks _ _ _
        · exact shrinks_refl s
      · exact preec_shrinks _ _ _
  unfold setconfFinish at done
  split at done
  · rename_i s₁ p result
    rw [result] at first
    obtain ⟨_, rfl⟩ := Prod.mk.inj (Except.ok.inj done)
    split
    · exact shrinks_trans first (preec_shrinks _ _ _)
    · exact first
  · rename_i preec s₁ _ result
    rw [result] at first
    obtain ⟨s₂, checked, same⟩ := map_ok done
    obtain ⟨_, rfl⟩ := Prod.mk.inj same
    exact shrinks_trans first (check_shrinks checked).1

theorem alias_given {t t' : Tables} {k : Int} (free : t.confalias x = 0)
    (given : getConfAlias t x = .ok (k, t')) : k = firstEmptyAlias t ∧ t'.confalias x = k := by
  unfold getConfAlias at given
  split at given
  · cases given
  · rw [if_neg (not_not.mpr free)] at given
    simp only at given
    split at given
    · cases given
    · obtain ⟨rfl, rfl⟩ := Prod.mk.inj (Except.ok.inj given)
      refine ⟨rfl, ?_⟩
      simp only [recalcMaxconfs, Function.update_self]

/-- A request that creates a conference gives it the first empty alias. -/
theorem setconf_creates (done : setconf s file conf kmalloc hw = .ok (r, s')) :
    s'.sums = s.sums ∧ (Created s s' x → setconfCheck s file conf ≠ none ∧
      isMixing conf.confmode = true ∧ ∃ s₁, checkConf s false conf.confno = .ok s₁ ∧
        setconfNumber s₁.tables conf.confno = x ∧
        s'.tables.confalias x = firstEmptyAlias s₁.tables) := by
  unfold setconf at done
  split at done
  · obtain ⟨_, rfl⟩ := Prod.mk.inj (Except.ok.inj done)
    exact ⟨rfl, fun created => absurd created (shrinks_creates_nothing (shrinks_refl _))⟩
  · rename_i chan confChan accepted
    obtain ⟨inside, target⟩ := check_inversion accepted
    split at done
    · cases done
    · rename_i s₁ checked
      obtain ⟨first, chans⟩ := check_shrinks checked
      simp only at done
      split at done
      · obtain ⟨_, rfl⟩ := Prod.mk.inj (Except.ok.inj done)
        exact ⟨first.sums, fun created => absurd created (shrinks_creates_nothing first)⟩
      · rename_i placed
        split at done
        · cases done
        · rename_i s₂ joined
          have last := finish_shrinks done
          unfold setconfJoin at joined
          simp only at joined
          split at joined
          · rename_i mixing
            split at joined
            · cases joined
            · rename_i k t given
              obtain rfl := Except.ok.inj joined
              refine ⟨last.sums.trans first.sums, fun created => ?_⟩
              obtain ⟨before, a, member, here⟩ := created
              have unmonitored : confChan = none := by
                rcases conf_chan_cases target with ⟨monitor, _⟩ | ⟨_, none, _⟩
                · rw [(mixing_not_monitors mixing.2).1] at monitor
                  cases monitor
                · exact none
              rw [unmonitored] at done
              have there := last.members a x here
              have place : a = chan := by
                by_contra other
                rw [set_tables_chans, set_chan_other s₁ _ other, chans] at there
                rw [before a (first.registered a (last.registered a member))] at there
                cases there
              rw [place, set_tables_chans, set_chan_same, in_conf_iff, joining_confna] at there
              obtain ⟨number, _⟩ := there
              subst number
              have noted : conf.confmode ≠ 0 := by
                intro zero
                rw [zero] at mixing
                exact absurd mixing.2 (by decide)
              have low : 1 ≤ setconfNumber s₁.tables conf.confno := by
                by_contra low
                exact placed ⟨by omega, noted⟩
              obtain ⟨rfl, entry⟩ := alias_given (checked_free checked rfl low before) given
              refine ⟨by rw [accepted]; exact Option.some_ne_none _, mixing.2, s₁, checked, rfl, ?_⟩
              rcases check_cases (finish_mixing done) with ⟨rfl, _⟩ | ⟨empty, t', rfl, confalias⟩
              · exact entry
              · have other : setconfNumber s₁.tables conf.confno ≠ (s₁.chans chan).confna := by
                  intro same
                  have inConf := List.any_eq_false.mp empty chan (by
                    rw [place] at member
                    exact last.registered chan member)
                  rw [set_tables_chans, set_chan_same] at inConf
                  apply inConf
                  rw [in_conf_iff]
                  simp only [joining_confna, joining_confmode, same, mixing.2, and_self]
                rw [set_tables_tables, confalias, Function.update_of_ne other]
                exact entry
          · rename_i unmixed
            obtain rfl := Except.ok.inj joined
            have gone : isMixing conf.confmode = false := by
              by_contra mixing
              simp only [Bool.not_eq_false] at mixing
              have noted : conf.confmode ≠ 0 := by
                intro zero
                rw [zero] at mixing
                exact absurd mixing (by decide)
              refine unmixed ⟨?_, mixing⟩
              intro zero
              exact placed ⟨by omega, noted⟩
            have left : Shrinks s₁ (setChan s₁ chan
                (joining (s₁.chans chan) confChan (setconfNumber s₁.tables conf.confno) conf.confmode)) :=
              shrinks_gone (by rw [joining_confmode]; exact gone)
            have whole := shrinks_trans first (shrinks_trans left last)
            exact ⟨whole.sums, fun created => absurd created (shrinks_creates_nothing whole)⟩

end Joining

section Runs

def SilentAt (sums : Sums) (k : Int) : Prop :=
  sums.prev k = silence ∧ sums.cur k = silence ∧ sums.next k = silence

def ClearAt (m : Marks) (k : Int) : Prop := m.prev k = false ∧ m.cur k = false ∧ m.next k = false

/-- Joins, leaves and ticks, with what they have written in the accumulators. -/
def rooms : System (State × Marks) Event where
  start p := Idle p.1 ∧ (∀ k, SilentAt p.1.sums k) ∧ ∀ k, ClearAt p.2 k
  step p e p' := applyEvent p.1 e = .ok p'.1 ∧ p'.2 = eventMarks p.1 p.2 e

/-- The alias that a conference without members is about to be given has been cleared in
    all three accumulators since anybody wrote to it. -/
def NewClear (p : State × Marks) : Op → Prop
  | .setconf file conf _ _ =>
    setconfCheck p.1 file conf ≠ none → isMixing conf.confmode = true →
      ∀ s₁, checkConf p.1 false conf.confno = .ok s₁ →
        (∀ a ∈ p.1.registered,
          chanInConf (p.1.chans a) (setconfNumber s₁.tables conf.confno) = false) →
        ClearAt p.2 (firstEmptyAlias s₁.tables)
  | _ => True

variable {p p' : State × Marks} {o : Op} {s s' : State}

theorem op_creates {x : Int} (done : applyOp s o = .ok s') : s'.sums = s.sums ∧
    (Created s s' x → ∃ file conf kmalloc hw, o = .setconf file conf kmalloc hw ∧
      setconfCheck s file conf ≠ none ∧ isMixing conf.confmode = true ∧
      ∃ s₁, checkConf s false conf.confno = .ok s₁ ∧ setconfNumber s₁.tables conf.confno = x ∧
        s'.tables.confalias x = firstEmptyAlias s₁.tables) := by
  have nothing : Shrinks s s' → s'.sums = s.sums ∧ (Created s s' x → ∃ file conf kmalloc hw,
      o = .setconf file conf kmalloc hw ∧ setconfCheck s file conf ≠ none ∧
      isMixing conf.confmode = true ∧ ∃ s₁, checkConf s false conf.confno = .ok s₁ ∧
        setconfNumber s₁.tables conf.confno = x ∧
        s'.tables.confalias x = firstEmptyAlias s₁.tables) :=
    fun shrinks => ⟨shrinks.sums, fun created => absurd created (shrinks_creates_nothing shrinks)⟩
  cases o with
  | setconf file conf kmalloc hw =>
    obtain ⟨⟨r, s₁⟩, called, rfl⟩ := map_ok done
    obtain ⟨sums, creates⟩ := setconf_creates (x := x) called
    refine ⟨sums, fun created => ?_⟩
    obtain ⟨accepted, mixing, rest⟩ := creates created
    exact ⟨file, conf, kmalloc, hw, rfl, accepted, mixing, rest⟩
  | close chan => exact nothing (close_shrinks done)
  | reinit chan => exact nothing (reinit_shrinks done)
  | unregister chans => exact nothing (unregister_shrinks done)
  | chanconfig chan clear dacs =>
    obtain rfl := Except.ok.inj done
    exact nothing (chanconfig_shrinks s chan clear dacs)

theorem covered_run (reached : Reach rooms anyStep p) : Covered p.1.sums p.2 := by
  refine @invariant_run _ _ _ _ (fun p => Covered p.1.sums p.2) ?_ ?_ p reached
  · rintro p ⟨_, silent, _⟩
    exact ⟨fun k _ => (silent k).1, fun k _ => (silent k).2.1, fun k _ => (silent k).2.2⟩
  · rintro p e p' covered _ ⟨done, marks⟩
    rw [marks]
    cases e with
    | op o =>
      rw [(op_creates (x := 0) done).1]
      exact covered
    | tick i => exact tick_covered covered done
    | control chan confmute dialing =>
      rw [← Except.ok.inj done]
      exact covered

end Runs

section Concrete

/-- One channel of a span, before anything has happened. -/
def quietSpan : State where
  chans _ := freshChan 1 false
  spanChans := [0]
  pseudos := []
  tables := ⟨fun _ => 0, fun _ => 0, 0⟩
  sums := ⟨fun _ => silence, fun _ => silence, fun _ => silence⟩

/-- Every octet is a sample of 1000. -/
def tone : Signal where
  law _ := ⟨id, id, fun _ => ⟨1000, by decide⟩, fun _ => 0⟩
  rx _ _ := 0
  tx _ _ := 0
  preec _ := silence

def joinConf (confno : Int) : Event := .op (.setconf 0 ⟨1, confno, 0x304⟩ true 0)

def leaveConf : Event := .op (.setconf 0 ⟨1, 0, 0⟩ true 0)

def afterEvents (p : State × Marks) : List Event → State × Marks
  | [] => p
  | e :: events =>
    match applyEvent p.1 e with
    | .ok s' => afterEvents (s', eventMarks p.1 p.2 e) events
    | .error _ => p

def unmarked : Marks := ⟨fun _ => false, fun _ => false, fun _ => false⟩

theorem quiet_start : rooms.start (quietSpan, unmarked) :=
  ⟨⟨rfl, fun _ => ⟨rfl, rfl, rfl⟩⟩, fun _ => ⟨rfl, rfl, rfl⟩, fun _ => ⟨rfl, rfl, rfl⟩⟩

/-- The member of conference 5 talks in one tick, leaves, and two ticks later conference 6
    is given the alias. -/
def stale : List Event := [joinConf 5, .tick tone, leaveConf, .tick tone, .tick tone]

theorem reach_events {p : State × Marks} (reached : Reach rooms anyStep p) (events : List Event) :
    Reach rooms anyStep (afterEvents p events) := by
  induction events generalizing p with
  | nil => exact reached
  | cons e events ih =>
    unfold afterEvents
    split
    · rename_i s' done
      have moved : rooms.step p e (s', eventMarks p.1 p.2 e) := ⟨done, rfl⟩
      exact ih (.step reached trivial moved)
    · exact reached

end Concrete

end ConferenceResidue
