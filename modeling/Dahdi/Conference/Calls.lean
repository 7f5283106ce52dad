import Dahdi.Conference.Mixing
import Dahdi.Law.ALaw
import Dahdi.Library.GuardedRun

/-!
A conference nobody clips in: everyone is given what all the others say and nothing
else, and the two parties of a μ-law call hear each other's codes.
-/
namespace ConferenceCalls
open Conference ConferenceMixing Saturation GuardedRun Xlaw

/-- Ticks, with a conference that has begun and whose sum starts silent. -/
def ticking (k : Int) : System State Signal where
  start s := Mixture s k ∧ (0 ≤ k ∧ k < s.tables.maxconfs) ∧ s.sums.next k = silence
  step s i s' := processMasterspan s i = .ok s'

/-- What the channel has said in the tick that ended. -/
def voice (i : Signal) (s : State) (k : Int) (x : Fin chunksize) (a : Nat) : Int :=
  if speaks (s.chans a) k then said i a (s.chans a) x else 0

def voices (i : Signal) (s : State) (k : Int) (x : Fin chunksize) (l : List Nat) : Int :=
  (l.map (voice i s k x)).sum

def loudness (i : Signal) (s : State) (k : Int) (x : Fin chunksize) (l : List Nat) : Int :=
  (l.map fun a => |voice i s k x a|).sum

section Sums
variable {f : State → Nat → Except Fault State} {s s' : State} {l : List Nat}

/-- A walk in which every channel adds what it says, as long as all that is said fits. -/
theorem visit_exact {inv : State → Prop} {total : State → Int} {part word : State → Nat → Int} {high : Int}
    (turn : ∀ s a s', a ∈ l → inv s → f s a = .ok s' → inv s' ∧
      (|total s| + |word s' a| ≤ high → total s' = total s + word s' a ∧ part s' a = word s' a) ∧
      ∀ b, b ≠ a → part s' b = part s b ∧ word s' b = word s b)
    (nodup : l.Nodup) (holds : inv s) (done : visit f l s = .ok s')
    (fits : |total s| + (l.map fun a => |word s' a|).sum ≤ high) :
    ∀ a ∈ l, part s' a = word s' a := by
  induction l generalizing s with
  | nil =>
    intro a inside
    cases inside
  | cons a rest ih =>
    unfold visit at done
    split at done
    · cases done
    · rename_i s₁ first
      obtain ⟨fresh, nodup⟩ := List.nodup_cons.mp nodup
      obtain ⟨holds₁, exact_, _⟩ := turn s a s₁ (by simp) holds first
      have later : ∀ s b s', b ∈ rest → inv s → f s b = .ok s' → inv s' ∧
          (|total s| + |word s' b| ≤ high → total s' = total s + word s' b ∧ part s' b = word s' b) ∧
          ∀ c, c ≠ b → part s' c = part s c ∧ word s' c = word s c :=
        fun s b s' member => turn s b s' (List.mem_cons_of_mem a member)
      have kept : inv s' ∧ part s' a = part s₁ a ∧ word s' a = word s₁ a := by
        refine @visit_inv _ _ _ rest (fun s => inv s ∧ part s a = part s₁ a ∧ word s a = word s₁ a) ?_
          ⟨holds₁, rfl, rfl⟩ done
        intro s b s' member holds step
        obtain ⟨holds', _, others⟩ := later s b s' member holds.1 step
        obtain ⟨samePart, sameWord⟩ := others a fun same => fresh (same ▸ member)
        exact ⟨holds', samePart.trans holds.2.1, sameWord.trans holds.2.2⟩
      rw [List.map_cons, List.sum_cons] at fits
      have rest_nonneg : 0 ≤ (rest.map fun a => |word s' a|).sum := by
        apply List.sum_nonneg
        intro v inside
        obtain ⟨b, _, rfl⟩ := List.mem_map.mp inside
        exact abs_nonneg _
      obtain ⟨sum, own⟩ := exact_ (by rw [← kept.2.2]; omega)
      have grows : |total s₁| ≤ |total s| + |word s' a| := by
        rw [sum, ← kept.2.2]
        exact abs_add_le _ _
      intro b inside
      rcases List.mem_cons.mp inside with here | inside
      · rw [here, kept.2.1, kept.2.2, own]
      · exact ih later nodup holds₁ done (by omega) b inside

/-- The loudness bounds the sum. -/
theorem voices_le {i : Signal} {k : Int} {x : Fin chunksize} (l : List Nat) :
    |voices i s k x l| ≤ loudness i s k x l := by
  induction l with
  | nil => simp [voices, loudness]
  | cons a rest ih =>
    rw [voices, loudness, List.map_cons, List.map_cons, List.sum_cons, List.sum_cons]
    calc |voice i s k x a + voices i s k x rest|
      _ ≤ |voice i s k x a| + |voices i s k x rest| := abs_add_le _ _
      _ ≤ _ := by
        have := ih
        unfold loudness at this
        omega

end Sums

section Turns
variable {s s' : State} {i : Signal} {k : Int} {a : Nat} {x : Fin chunksize}

theorem said_role {c c' : Chan} (same : role c' = role c) : said i a c' = said i a c := by
  rw [said, said, role_pseudo same]

theorem voice_others (turn : Turn s s' a) {b : Nat} (other : b ≠ a) :
    share (s'.chans b) k x = share (s.chans b) k x ∧ voice i s' k x b = voice i s k x b := by
  rw [voice, voice, turn.others b other]
  exact ⟨rfl, rfl⟩

/-- A sum that fits is not cut. -/
theorem part_exact {sum sum' word : Sample} {part : Int} (added : (sum' : Int) = sum + part)
    (talked : sum' = addSat short sum word) (fits : |(sum : Int)| + |(word : Int)| ≤ 32767) : part = word := by
  have low := neg_abs_le (sum : Int)
  have high := le_abs_self (sum : Int)
  have low' := neg_abs_le (word : Int)
  have high' := le_abs_self (word : Int)
  have whole : ((addSat short sum word : Sample) : Int) = sum + word :=
    saturate_inside (show -32768 ≤ (sum : Int) + word by omega) (show (sum : Int) + word ≤ 32767 by omega)
  rw [talked, whole] at added
  omega

/-- 1. A channel of a span talks. -/
theorem real_exact {s₀ : State} (along : Along s₀ k s) (inside : a ∈ s₀.spanChans)
    (done : conferenced (receiveChunk i) s a = .ok s')
    (fits : |(s.sums.next k x : Int)| + |voice i s' k x a| ≤ 32767) :
    share (s'.chans a) k x = voice i s' k x a := by
  obtain ⟨_, moved, added, _⟩ := real_turn along inside done
  unfold voice at fits ⊢
  split
  · rename_i spoken
    rw [if_pos spoken, said_role moved.role] at fits
    rw [said_role moved.role]
    have here : member (s.chans a) k = true := by
      rw [← role_member moved.role]
      simp only [speaks, Bool.and_eq_true] at spoken
      exact spoken.1.1
    rw [← along.2.1] at inside
    rcases conferenced_cases done with received | ⟨_, none_⟩
    · have conf := along.1.conf a (List.mem_append_left _ inside) here
      obtain ⟨_, _, _, talked⟩ := real_talks received here conf (along.1.real a inside)
      exact part_exact (added x) (talked spoken x) fits
    · rw [none_ k] at here
      cases here
  · rename_i mute
    rw [share, if_neg mute]

/-- 3. A pseudo channel talks. -/
theorem pseudo_exact {s₀ : State} (along : Along s₀ k s) (inside : a ∈ s₀.pseudos)
    (done : transmitChunk i s a = .ok s')
    (fits : |(s.sums.cur k x : Int)| + |voice i s' k x a| ≤ 32767) :
    share (s'.chans a) k x = voice i s' k x a := by
  obtain ⟨_, moved, added, _⟩ := pseudo_turn along inside done
  unfold voice at fits ⊢
  split
  · rename_i spoken
    rw [if_pos spoken, said_role moved.role] at fits
    rw [said_role moved.role]
    have here : member (s.chans a) k = true := by
      rw [← role_member moved.role]
      simp only [speaks, Bool.and_eq_true] at spoken
      exact spoken.1.1
    rw [← along.2.2] at inside
    have conf := along.1.conf a (List.mem_append_right _ inside) here
    obtain ⟨_, _, talked⟩ := pseudo_talks done here conf (along.1.pseudo a inside)
    exact part_exact (added x) (talked spoken x) fits
  · rename_i mute
    rw [share, if_neg mute]

/-- A turn that only listens changes nothing that was said. -/
theorem listening_keeps (turn : Turn s s' a) (last : member (s.chans a) k = true →
    (s'.chans a).conflast = (s.chans a).conflast ∧ putOpen (s'.chans a) = putOpen (s.chans a)) (b : Nat) :
    share (s'.chans b) k x = share (s.chans b) k x ∧ voice i s' k x b = voice i s k x b := by
  by_cases other : b = a
  · subst other
    cases here : member (s.chans b) k with
    | true =>
      obtain ⟨last, opened⟩ := last here
      have same : speaks (s'.chans b) k = speaks (s.chans b) k := by
        rw [speaks, speaks, opened, role_member turn.role, role_has turn.role]
      rw [share, share, voice, voice, same, last, said_role turn.role]
      exact ⟨rfl, rfl⟩
    | false =>
      have still : member (s'.chans b) k = false := by rw [role_member turn.role, here]
      rw [share_stranger x here, share_stranger x still, voice, voice, speaks, speaks, here, still]
      exact ⟨rfl, rfl⟩
  · exact voice_others turn other

theorem pseudo_listening {s₀ : State} (along : Along s₀ k s) (inside : a ∈ s₀.pseudos)
    (done : receiveChunk i s a = .ok s') (b : Nat) :
    share (s'.chans b) k x = share (s.chans b) k x ∧ voice i s' k x b = voice i s k x b := by
  have moved := receive_turn done
  rw [← along.2.2] at inside
  apply listening_keeps moved
  intro here
  have pseudo := along.1.pseudo a inside
  obtain ⟨_, last, _⟩ := pseudo_listens done here (along.1.conf a (List.mem_append_right _ inside) here) pseudo
  obtain ⟨after, before⟩ := role_pseudo_open moved.role pseudo
  exact ⟨last, after.trans before.symm⟩

theorem real_listening {s₀ : State} (along : Along s₀ k s) (inside : a ∈ s₀.spanChans)
    (done : conferenced (transmitChunk i) s a = .ok s') (b : Nat) :
    share (s'.chans b) k x = share (s.chans b) k x ∧ voice i s' k x b = voice i s k x b := by
  have moved := conferenced_turn transmit_turn done
  rw [← along.2.1] at inside
  apply listening_keeps moved
  intro here
  rcases conferenced_cases done with transmitted | ⟨_, none_⟩
  · obtain ⟨_, last, timer, _⟩ := real_listens transmitted here
      (along.1.conf a (List.mem_append_left _ inside) here) (along.1.real a inside)
    refine ⟨last, ?_⟩
    rw [putOpen, putOpen, timer, role_confmute moved.role, role_pseudo moved.role]
  · rw [none_ k] at here
    cases here

end Turns

section Tick
variable {s s' : State} {i : Signal} {k : Int} {x : Fin chunksize}

theorem loudness_append (l m : List Nat) :
    loudness i s k x (l ++ m) = loudness i s k x l + loudness i s k x m := by
  rw [loudness, List.map_append, List.sum_append, loudness, loudness]

theorem loudness_congr {l : List Nat} (same : ∀ a ∈ l, voice i s' k x a = voice i s k x a) :
    loudness i s' k x l = loudness i s k x l := by
  rw [loudness, loudness, List.map_congr_left fun a inside => congrArg abs (same a inside)]

/-- Nothing was said or taken back between these states. -/
def Unsaid (i : Signal) (k : Int) (x : Fin chunksize) (s s' : State) : Prop :=
  ∀ b, share (s'.chans b) k x = share (s.chans b) k x ∧ voice i s' k x b = voice i s k x b

theorem real_words (mixture : Mixture s k) (quiet_ : s.sums.next k = silence)
    (received : visit (conferenced (receiveChunk i)) s.spanChans s = .ok s')
    (fits : loudness i s' k x s.spanChans ≤ 32767) :
    ∀ a ∈ s.spanChans, share (s'.chans a) k x = voice i s' k x a := by
  have nodup := mixture.nodup
  rw [State.registered, List.nodup_append] at nodup
  refine @visit_exact _ _ _ _ (Along s k) (fun t => t.sums.next k x) (fun t a => share (t.chans a) k x)
    (fun t a => voice i t k x a) 32767 ?_ nodup.1 ⟨mixture, rfl, rfl⟩ received ?_
  · intro t a t' inside along done
    obtain ⟨along', moved, added, _⟩ := real_turn along inside done
    refine ⟨along', fun room => ?_, fun b other => voice_others moved other⟩
    have own := real_exact along inside done room
    exact ⟨by rw [added x, own], own⟩
  · have none_ : (s.sums.next k x : Int) = 0 := by rw [quiet_]; rfl
    rw [none_, abs_zero, Int.zero_add]
    exact fits

theorem pseudo_words {s₀ : State} (along : Along s₀ k s) (transmitted : visit (transmitChunk i) s₀.pseudos s = .ok s')
    (fits : |(s.sums.cur k x : Int)| + loudness i s' k x s₀.pseudos ≤ 32767) :
    ∀ a ∈ s₀.pseudos, share (s'.chans a) k x = voice i s' k x a := by
  have nodup := along.1.nodup
  rw [State.registered, List.nodup_append, along.2.1, along.2.2] at nodup
  refine @visit_exact _ _ _ _ (Along s₀ k) (fun t => t.sums.cur k x) (fun t a => share (t.chans a) k x)
      (fun t a => voice i t k x a) 32767 ?_ nodup.2.1 along transmitted fits
  intro t a t' inside along done
  obtain ⟨along', moved, added, _⟩ := pseudo_turn along inside done
  refine ⟨along', fun room => ?_, fun b other => voice_others moved other⟩
  have own := pseudo_exact along inside done room
  exact ⟨by rw [added x, own], own⟩

/-- 5. and 6. The listening passes. -/
theorem listening_unsaid {s₀ s₁ : State} (along : Along s₀ k s)
    (pseudos : visit (receiveChunk i) s₀.pseudos s = .ok s₁)
    (reals : visit (conferenced (transmitChunk i)) s₀.spanChans s₁ = .ok s') : Unsaid i k x s s' := by
  have first : Along s₀ k s₁ ∧ Unsaid i k x s s₁ := by
    refine @visit_inv _ _ _ _ (fun t => Along s₀ k t ∧ Unsaid i k x s t) ?_ ⟨along, fun _ => ⟨rfl, rfl⟩⟩ pseudos
    intro t a t' inside holds done
    refine ⟨along_turn holds.1 (receive_turn done), fun b => ?_⟩
    obtain ⟨shared, voiced⟩ := @pseudo_listening t t' i k a x s₀ holds.1 inside done b
    exact ⟨shared.trans (holds.2 b).1, voiced.trans (holds.2 b).2⟩
  have both : Along s₀ k s' ∧ Unsaid i k x s s' := by
    refine @visit_inv _ _ _ _ (fun t => Along s₀ k t ∧ Unsaid i k x s t) ?_ first reals
    intro t a t' inside holds done
    refine ⟨along_turn holds.1 (conferenced_turn transmit_turn done), fun b => ?_⟩
    obtain ⟨shared, voiced⟩ := @real_listening t t' i k a x s₀ holds.1 inside done b
    exact ⟨shared.trans (holds.2 b).1, voiced.trans (holds.2 b).2⟩
  exact both.2

/-- After a tick in which all that is said fits, every member has in the sum what it has said. -/
theorem shares_exact (mixture : Mixture s k) (quiet_ : s.sums.next k = silence)
    (ticked : processMasterspan s i = .ok s') (fits : loudness i s' k x s.registered ≤ 32767) :
    ∀ a ∈ s.registered, share (s'.chans a) k x = voice i s' k x a := by
  unfold processMasterspan at ticked
  obtain ⟨s₁, received, ticked⟩ := bind_ok ticked
  obtain ⟨s₂, transmitted, ticked⟩ := bind_ok ticked
  obtain ⟨s₃, listened, ticked⟩ := bind_ok ticked
  have first := real_pass mixture received
  have rotated : Along s k (rotateSums s₁) := by
    obtain ⟨nodup, real, pseudo, conf⟩ := first.mixture
    exact ⟨⟨nodup, real, pseudo, conf⟩, first.spanChans, first.pseudos⟩
  have nodup := mixture.nodup
  rw [State.registered, List.nodup_append] at nodup
  rw [first.pseudos] at transmitted
  have kept : Along s k s₂ ∧ ∀ b ∈ s.spanChans, s₂.chans b = s₁.chans b := by
    refine @visit_inv _ _ _ _ (fun t => Along s k t ∧ ∀ b ∈ s.spanChans, t.chans b = s₁.chans b) ?_
      ⟨rotated, fun _ _ => rfl⟩ transmitted
    intro t a t' inside holds done
    obtain ⟨along', moved, _⟩ := pseudo_turn holds.1 inside done
    refine ⟨along', fun b outside => ?_⟩
    rw [moved.others b (nodup.2.2 b outside a inside), holds.2 b outside]
  obtain ⟨along, apart⟩ := kept
  have along' : Along s k s₃ :=
    visit_inv (fun _ _ _ inside along turn => along_turn along (receive_turn turn)) along listened
  rw [along.2.2] at listened
  rw [along'.2.1] at ticked
  have after := @listening_unsaid s₂ s' i k x s s₃ along listened ticked
  rw [State.registered, loudness_append, loudness_congr fun b _ => (after b).2,
    loudness_congr fun b _ => (after b).2] at fits
  have spoken : ∀ b ∈ s.spanChans, voice i s₂ k x b = voice i s₁ k x b := by
    intro b inside
    rw [voice, voice, apart b inside]
  have positive : 0 ≤ loudness i s₂ k x s.pseudos := (abs_nonneg _).trans (voices_le _)
  have reals := real_words mixture quiet_ received (x := x) (by rw [← loudness_congr spoken]; omega)
  have sum : ((rotateSums s₁).sums.cur k x : Int) = voices i s₂ k x s.spanChans := by
    have none_ : (s.sums.next k x : Int) = 0 := by rw [quiet_]; rfl
    have total := first.total x
    rw [none_, Int.zero_add] at total
    refine total.trans ?_
    rw [shares, voices, List.map_congr_left]
    intro a inside
    rw [reals a inside, spoken a inside]
  have bound := @voices_le s₂ i k x s.spanChans
  have pseudos := pseudo_words rotated transmitted (x := x) (by rw [sum]; omega)
  intro a inside
  rw [(after a).1, (after a).2]
  rcases List.mem_append.mp inside with real | pseudo
  · rw [apart a real, spoken a real]
    exact reals a real
  · exact pseudos a pseudo

/-- A CONF member leaves the sum of the next chunk alone when it sends. -/
theorem conf_next {law : Law} {c : Chan} {sums : Sums} {lin : Chunk} {m : Mixed}
    (done : getConf law c sums lin = .ok m) : m.sums.next = sums.next := by
  unfold getConf at done
  split at done
  · split at done
    · obtain ⟨_, _, rfl⟩ := map_ok done
      rfl
    · rw [← Except.ok.inj done]
  · obtain ⟨_, _, rfl⟩ := map_ok done
    rfl

theorem transmit_next {a : Nat} (mixture : Mixture s k) (inside : a ∈ s.registered)
    (done : transmitChunk i s a = .ok s') : s'.sums.next k = s.sums.next k := by
  cases here : member (s.chans a) k with
  | true =>
    rcases transmit_member done here (mixture.conf a inside here) with ⟨_, sums, _⟩ | ⟨m, _, _, mixed, _, sums⟩
    · rw [sums]
    · rw [sums, conf_next mixed]
  | false => exact congrArg (fun e => e.2.2) (stranger_turn (transmit_turn done) here)

theorem pseudo_next {a : Nat} (mixture : Mixture s k) (inside : a ∈ s.pseudos)
    (done : receiveChunk i s a = .ok s') : s'.sums.next k = s.sums.next k := by
  cases here : member (s.chans a) k with
  | true =>
    obtain ⟨sums, _⟩ := pseudo_listens done here (mixture.conf a (List.mem_append_right _ inside) here)
      (mixture.pseudo a inside)
    rw [sums]
  | false => exact congrArg (fun e => e.2.2) (stranger_turn (receive_turn done) here)

/-- What a tick leaves to the next one. -/
theorem tick_silent (mixture : Mixture s k) (here : 0 ≤ k ∧ k < s.tables.maxconfs)
    (ticked : processMasterspan s i = .ok s') :
    s'.tables = s.tables ∧ Along s k s' ∧ s'.sums.next k = silence := by
  unfold processMasterspan at ticked
  obtain ⟨s₁, received, ticked⟩ := bind_ok ticked
  obtain ⟨s₂, transmitted, ticked⟩ := bind_ok ticked
  obtain ⟨s₃, listened, ticked⟩ := bind_ok ticked
  have first : s₁.tables = s.tables ∧ Along s k s₁ := by
    refine @visit_inv _ _ _ _ (fun t => t.tables = s.tables ∧ Along s k t) ?_ ⟨rfl, mixture, rfl, rfl⟩ received
    intro t a t' inside holds done
    have moved := conferenced_turn receive_turn done
    exact ⟨moved.tables.trans holds.1, along_turn holds.2 moved⟩
  have silent : (rotateSums s₁).sums.next k = silence := by
    have room : 0 ≤ k ∧ k < s₁.tables.maxconfs := by rw [first.1]; exact here
    exact if_pos room
  have rotated : (rotateSums s₁).tables = s.tables ∧ Along s k (rotateSums s₁) := by
    obtain ⟨tables, ⟨nodup, real, pseudo, conf⟩, places⟩ := first
    exact ⟨tables, ⟨nodup, real, pseudo, conf⟩, places⟩
  have second : s₂.tables = s.tables ∧ Along s k s₂ ∧ s₂.sums.next k = silence := by
    refine @visit_inv _ _ _ _ (fun t => t.tables = s.tables ∧ Along s k t ∧ t.sums.next k = silence) ?_
      ⟨rotated.1, rotated.2, silent⟩ transmitted
    intro t a t' inside holds done
    have moved := transmit_turn done
    rw [first.2.2.2, ← holds.2.1.2.2] at inside
    exact ⟨moved.tables.trans holds.1, along_turn holds.2.1 moved,
      (transmit_next holds.2.1.1 (List.mem_append_right _ inside) done).trans holds.2.2⟩
  have third : s₃.tables = s.tables ∧ Along s k s₃ ∧ s₃.sums.next k = silence := by
    refine @visit_inv _ _ _ _ (fun t => t.tables = s.tables ∧ Along s k t ∧ t.sums.next k = silence) ?_
      second listened
    intro t a t' inside holds done
    have moved := receive_turn done
    rw [second.2.1.2.2, ← holds.2.1.2.2] at inside
    exact ⟨moved.tables.trans holds.1, along_turn holds.2.1 moved,
      (pseudo_next holds.2.1.1 inside done).trans holds.2.2⟩
  refine @visit_inv _ _ _ _ (fun t => t.tables = s.tables ∧ Along s k t ∧ t.sums.next k = silence) ?_
    third ticked
  intro t a t' inside holds done
  have moved := conferenced_turn transmit_turn done
  rw [third.2.1.2.1, ← holds.2.1.2.1] at inside
  refine ⟨moved.tables.trans holds.1, along_turn holds.2.1 moved, ?_⟩
  rcases conferenced_cases done with sent | ⟨same, _⟩
  · exact (transmit_next holds.2.1.1 (List.mem_append_left _ inside) sent).trans holds.2.2
  · rw [same]
    exact holds.2.2

/-- Between ticks the sum of the next chunk is silent. -/
theorem silent_reached (reached : Reach (ticking k) anyStep s) :
    Mixture s k ∧ (0 ≤ k ∧ k < s.tables.maxconfs) ∧ s.sums.next k = silence := by
  apply @invariant_run _ _ (ticking k) anyStep
    (fun s => Mixture s k ∧ (0 ≤ k ∧ k < s.tables.maxconfs) ∧ s.sums.next k = silence)
  · exact fun _ begins => begins
  · intro t i t' holds _ ticked
    obtain ⟨tables, along, silent⟩ := tick_silent holds.1 holds.2.1 ticked
    rw [tables]
    exact ⟨along.1, holds.2.1, silent⟩
  · exact reached

/-- What a listener is given when nothing is cut. -/
theorem given_exact (mixture : Mixture s k) (quiet_ : s.sums.next k = silence)
    (ticked : processMasterspan s i = .ok s') {a : Nat} (inside : a ∈ s.registered)
    (listening : listens (s'.chans a) k = true)
    (fits : |(bare i a (s'.chans a) x : Int)| + loudness i s' k x s.registered ≤ 32767) :
    (given (s'.chans a) x : Int) = bare i a (s'.chans a) x + voices i s' k x (s.registered.erase a) := by
  obtain ⟨summed, heard⟩ := tick_law mixture ticked
  have registered : s'.registered = s.registered := by
    rw [State.registered, State.registered, summed.spanChans, summed.pseudos]
  rw [registered] at summed heard
  have own_bound : |(bare i a (s'.chans a) x : Int)| ≥ 0 := abs_nonneg _
  have spoken := shares_exact mixture quiet_ ticked (x := x) (by omega)
  have settled : ((s'.chans a).conflast x : Int) = voice i s' k x a := by
    rw [← spoken a inside]
    simp only [listens, Bool.and_eq_true] at listening
    exact summed.settled a inside listening.1.1.1 listening.1.2 x
  have total : (s'.sums.cur k x : Int) = voices i s' k x s.registered := by
    have none_ : (s.sums.next k x : Int) = 0 := by rw [quiet_]; rfl
    have sum := summed.total x
    rw [none_, Int.zero_add, shares, List.map_congr_left spoken] at sum
    exact sum
  have parts : voice i s' k x a + voices i s' k x (s.registered.erase a) = voices i s' k x s.registered :=
    List.sum_map_erase (voice i s' k x) inside
  have loud : |voice i s' k x a| + loudness i s' k x (s.registered.erase a) = loudness i s' k x s.registered :=
    List.sum_map_erase (fun b => |voice i s' k x b|) inside
  have others := @voices_le s' i k x (s.registered.erase a)
  rw [heard a inside listening x]
  obtain ⟨low, high⟩ := abs_le.mp (Int.le_refl |(bare i a (s'.chans a) x : Int)|)
  obtain ⟨low', high'⟩ := abs_le.mp (Int.le_refl |voice i s' k x a|)
  obtain ⟨low'', high''⟩ := abs_le.mp others
  have without : ((subSat short (bare i a (s'.chans a) x) ((s'.chans a).conflast x) : Sample) : Int) =
      bare i a (s'.chans a) x - voice i s' k x a := by
    rw [subSat, settled]
    exact saturate_inside (show -32768 ≤ _ by omega) (show _ ≤ (32767 : Int) by omega)
  rw [addSat, without, total]
  refine (saturate_inside (show -32768 ≤ _ by omega) (show _ ≤ (32767 : Int) by omega)).trans ?_
  omega

end Tick

section Concrete

/-- A μ-law channel without gains. -/
def muLaw : Law where
  rxgain := id
  txgain := id
  xlaw octet := ⟨mulaw octet, (ALaw.ulaw_codes octet).2.2⟩
  lin2x sample := lin2mu (codeIndex sample)

/-- One says 1820 and the other -876. -/
def chat : Signal where
  law _ := muLaw
  rx a _ := if a = 0 then 0xb0 else 0x40
  tx _ _ := 0xff
  preec _ := silence

/-- Two talkers and listeners on spans. -/
def pair : State := { alone with spanChans := [0, 1] }

theorem pair_ticks : processMasterspan pair chat = .ok (afterTick pair chat) := rfl

theorem pair_reached : Reach (ticking 1) anyStep pair := by
  apply Reach.start
  have mode : partner.confmode &&& modeMask = confConf := by decide
  refine ⟨⟨by decide, fun _ _ => rfl, ?_, fun _ _ _ => mode⟩, by decide, rfl⟩
  intro a inside
  cases inside

end Concrete

section Others
variable {s s' : State} {i : Signal} {k : Int} {x : Fin chunksize}

/-- In every tick of a conference in which what is said fits, a listener is given what
    the others say, each of them once, and nothing of itself. -/
theorem others_heard_exactly (reached : Reach (ticking k) anyStep s) (ticked : processMasterspan s i = .ok s')
    (a : Nat) (inside : a ∈ s.registered) (listening : listens (s'.chans a) k = true)
    (fits : |(bare i a (s'.chans a) x : Int)| + loudness i s' k x s.registered ≤ 32767) :
    (given (s'.chans a) x : Int) = bare i a (s'.chans a) x + voices i s' k x (s.registered.erase a) := by
  obtain ⟨mixture, _, quiet_⟩ := silent_reached reached
  exact given_exact mixture quiet_ ticked inside listening fits

theorem others_heard_exactly_pair : ((given ((afterTick pair chat).chans 0) first : Sample) : Int) =
    mulaw 0x40 :=
  (others_heard_exactly pair_reached pair_ticks 0 (by decide) (by decide +kernel) (x := first)
    (by decide +kernel)).trans (by decide +kernel)

end Others

section MuLawCall
variable {s s' : State} {i : Signal} {k : Int} {x : Fin chunksize} {a b : Nat}

theorem ulaw_again : ∀ c : Octet, c ≠ 0 → mulaw (lineartoulaw (mulaw c)) = mulaw c := by decide

/-- A decoded sample is coded so that it is decoded as before. -/
theorem coded_again {v : Sample} {c : Octet} (is : (v : Int) = mulaw c) (sent : c ≠ 0) :
    mulaw (muLaw.lin2x v) = mulaw c := by
  have whole := (ALaw.ulaw_codes c).2.1
  have entry : muLaw.lin2x v = lineartoulaw (4 * ((v : Int) / 4)) := ALaw.table_entry lineartoulaw v
  rw [entry, is, whole, ulaw_again c sent]

/-- What a listener on a span is sent is what it is given. -/
theorem real_coded (done : transmitChunk i s a = .ok s') (here : member (s.chans a) k = true)
    (conf : (s.chans a).confmode &&& modeMask = confConf) (real : (s.chans a).pseudo = false)
    (opened : getOpen (s.chans a) = true) : (s'.chans a).getraw = coded (i.law a) (s'.chans a).getlin := by
  have noted := member_conferenced here
  have mixing : isMixing (s.chans a).confmode = true := by
    simp only [member, Bool.and_eq_true] at here
    exact here.1
  have unmuted : (s.chans a).confmute = false := by
    simp only [getOpen, real, Bool.or_false, Bool.and_eq_true, Bool.not_eq_true'] at opened
    exact opened.1
  unfold transmitChunk at done
  simp only [noted, ne_eq, not_false_eq_true, or_true, ↓reduceIte] at done
  obtain ⟨⟨txb, s₁⟩, processed, rfl⟩ := map_ok done
  unfold processGetaudioChunk at processed
  obtain ⟨m, switched, done⟩ := map_ok processed
  obtain ⟨_, rfl⟩ := Prod.mk.inj done
  rw [getSwitch, if_pos opened, if_pos mixing, (mixing_conf _ _ _ _ (i.tx a) conf).2, getConf, if_neg (by simp [real]),
    getListen] at switched
  obtain ⟨lin, _, rfl⟩ := map_ok switched
  rw [set_sums_chans, set_chan_same, unmuted]
  rfl

theorem tick_coded (mixture : Mixture s k) (ticked : processMasterspan s i = .ok s') (inside : a ∈ s.spanChans)
    (listening : listens (s'.chans a) k = true) :
    (s'.chans a).getraw = coded (i.law a) (s'.chans a).getlin := by
  unfold processMasterspan at ticked
  obtain ⟨s₁, received, ticked⟩ := bind_ok ticked
  obtain ⟨s₂, transmitted, ticked⟩ := bind_ok ticked
  obtain ⟨s₃, listened, ticked⟩ := bind_ok ticked
  have first : Along s k s₁ := visit_inv (fun _ _ _ _ along turn =>
    along_turn along (conferenced_turn receive_turn turn)) ⟨mixture, rfl, rfl⟩ received
  have rotated : Along s k (rotateSums s₁) := by
    obtain ⟨⟨nodup, real, pseudo, conf⟩, places⟩ := first
    exact ⟨⟨nodup, real, pseudo, conf⟩, places⟩
  have second : Along s k s₂ :=
    visit_inv (fun _ _ _ _ along turn => along_turn along (transmit_turn turn)) rotated transmitted
  have third : Along s k s₃ :=
    visit_inv (fun _ _ _ _ along turn => along_turn along (receive_turn turn)) second listened
  rw [← third.2.1] at inside
  refine @visit_each _ _ _ _ (Along s k) (fun t a => listens (t.chans a) k = true →
    (t.chans a).getraw = coded (i.law a) (t.chans a).getlin) ?_ third ticked a inside listening
  intro t a t' inside along done
  have moved := conferenced_turn transmit_turn done
  refine ⟨along_turn along moved, fun listening => ?_, fun b other before => ?_⟩
  · rw [third.2.1, ← along.2.1] at inside
    simp only [listens, Bool.and_eq_true] at listening
    have here := listening.1.1.1
    rw [role_member moved.role] at here
    have opened := listening.2
    rw [role_get_open moved.role] at opened
    rcases conferenced_cases done with sent | ⟨_, none_⟩
    · exact real_coded sent here (along.1.conf a (List.mem_append_left _ inside) here) (along.1.real a inside) opened
    · rw [none_ k] at here
      cases here
  · rw [moved.others b other]
    exact before

/-- Two speakers are all there is to hear. -/
theorem two_voices {l : List Nat} (nodup : l.Nodup) (hereA : a ∈ l) (hereB : b ∈ l.erase a)
    (only : ∀ c ∈ l, c ≠ a → c ≠ b → speaks (s.chans c) k = false) :
    voices i s k x (l.erase a) = voice i s k x b ∧
      loudness i s k x l = |voice i s k x a| + |voice i s k x b| := by
  have rest : ∀ c ∈ (l.erase a).erase b, voice i s k x c = 0 := by
    intro c inside
    obtain ⟨otherB, inside'⟩ := (nodup.erase a).mem_erase_iff.mp inside
    obtain ⟨otherA, here⟩ := nodup.mem_erase_iff.mp inside'
    rw [voice, only c here otherA otherB]
    rfl
  have mute : voices i s k x ((l.erase a).erase b) = 0 := by
    rw [voices, List.map_congr_left rest]
    simp
  have quiet_ : loudness i s k x ((l.erase a).erase b) = 0 := by
    rw [loudness, List.map_congr_left (g := fun _ => (0 : Int)) fun c inside => by rw [rest c inside, abs_zero]]
    simp
  have sumB : voice i s k x b + voices i s k x ((l.erase a).erase b) = voices i s k x (l.erase a) :=
    List.sum_map_erase (voice i s k x) hereB
  have loudA : |voice i s k x a| + loudness i s k x (l.erase a) = loudness i s k x l :=
    List.sum_map_erase (fun c => |voice i s k x c|) hereA
  have loudB : |voice i s k x b| + loudness i s k x ((l.erase a).erase b) = loudness i s k x (l.erase a) :=
    List.sum_map_erase (fun c => |voice i s k x c|) hereB
  constructor
  · rw [← sumB, mute, Int.add_zero]
  · rw [← loudA, ← loudB, quiet_, Int.add_zero]

/-- In a μ-law conference in which two channels speak, each hears the samples of the other and
    is sent octets that decode to them, while the sum of both fits and the far end sends no zero octet. -/
theorem call_transparent (reached : Reach (ticking k) anyStep s) (ticked : processMasterspan s i = .ok s')
    (parties : a ∈ s.spanChans ∧ b ∈ s.spanChans ∧ a ≠ b) (laws : i.law a = muLaw ∧ i.law b = muLaw)
    (speaking : speaks (s'.chans b) k = true) (listening : listens (s'.chans a) k = true)
    (only : ∀ c ∈ s.registered, c ≠ a → c ≠ b → speaks (s'.chans c) k = false)
    (idle : mulaw (i.tx a x) = 0) (sent : i.rx b x ≠ 0)
    (fits : |mulaw (i.rx a x)| + |mulaw (i.rx b x)| ≤ 32767) :
    ((s'.chans a).getlin x : Int) = mulaw (i.rx b x) ∧
      mulaw ((s'.chans a).getraw x) = mulaw (i.rx b x) := by
  obtain ⟨mixture, _, quiet_⟩ := silent_reached reached
  obtain ⟨insideA, insideB, apart⟩ := parties
  have registeredA : a ∈ s.registered := List.mem_append_left _ insideA
  obtain ⟨_, ⟨mixture', places, _⟩, _⟩ := tick_silent mixture (silent_reached reached).2.1 ticked
  have realA : (s'.chans a).pseudo = false := mixture'.real a (by rw [places]; exact insideA)
  have realB : (s'.chans b).pseudo = false := mixture'.real b (by rw [places]; exact insideB)
  have nodup := mixture.nodup
  have registeredB : b ∈ s.registered.erase a :=
    (List.mem_erase_of_ne apart.symm).mpr (List.mem_append_left _ insideB)
  obtain ⟨heardB, loud⟩ := @two_voices s' i k x a b s.registered nodup registeredA registeredB only
  have saidB : voice i s' k x b = mulaw (i.rx b x) := by
    rw [voice, if_pos speaking, said, realB, laws.2]
    rfl
  have saidA : |voice i s' k x a| ≤ |mulaw (i.rx a x)| := by
    rw [voice]
    split
    · rw [said, realA, laws.1]
      exact Int.le_refl _
    · rw [abs_zero]
      exact abs_nonneg _
  have bareA : (bare i a (s'.chans a) x : Int) = 0 := by
    rw [bare, realA, laws.1]
    exact idle
  have heard := given_exact mixture quiet_ ticked registeredA listening (x := x) (by
    rw [bareA, abs_zero, loud, saidB]
    omega)
  rw [bareA, heardB, saidB, given, realA] at heard
  have same : ((s'.chans a).getlin x : Int) = mulaw (i.rx b x) := by simpa using heard
  refine ⟨same, ?_⟩
  rw [tick_coded mixture ticked insideA listening, coded, laws.1]
  exact coded_again same sent

theorem call_transparent_pair : (((afterTick pair chat).chans 1).getlin first : Int) = mulaw (chat.rx 0 first) ∧
    mulaw (((afterTick pair chat).chans 1).getraw first) = mulaw (chat.rx 0 first) := by
  have only : ∀ c ∈ pair.registered, c ≠ 1 → c ≠ 0 → speaks ((afterTick pair chat).chans c) 1 = false := by
    intro c inside other other'
    rcases List.mem_cons.mp inside with here | inside
    · exact absurd here other'
    · rcases List.mem_cons.mp inside with here | inside
      · exact absurd here other
      · cases inside
  have parties : 1 ∈ pair.spanChans ∧ 0 ∈ pair.spanChans ∧ 1 ≠ 0 := by decide
  have speaking : speaks ((afterTick pair chat).chans 0) 1 = true := by decide +kernel
  have listening : listens ((afterTick pair chat).chans 1) 1 = true := by decide +kernel
  have idle : mulaw (chat.tx 1 first) = 0 := by decide
  have sent : chat.rx 0 first ≠ 0 := by decide
  have fits : |mulaw (chat.rx 1 first)| + |mulaw (chat.rx 0 first)| ≤ 32767 := by decide
  exact call_transparent pair_reached pair_ticks parties ⟨rfl, rfl⟩ speaking listening only idle sent fits

end MuLawCall
end ConferenceCalls
