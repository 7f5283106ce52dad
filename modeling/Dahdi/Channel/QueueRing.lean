import Dahdi.Channel.HdlcSender

/-!
The write ring as a queue of messages: what a message handed over, a byte sent,
the end of a message and its repetition do to it.
-/
namespace QueueRing
open Channel CyclicCursor RingInvariant RingContents HdlcSender Fasthdlc

structure QueueOk (size : Nat) (w : Ring) : Prop where
  two : 2 ≤ size
  allocated : Allocated size w
  valid : Valid size w.inbuf w.outbuf w.filled
  started : ∀ x ∈ w.filled, 0 ≤ w.idx x ∧ w.idx x < w.n x
  later : ∀ x ∈ w.filled, x ≠ w.outbuf.toNat → w.idx x = 0

section queue
variable {size : Nat} {w : Ring}

theorem queue_fresh (two : 2 ≤ size) (old : Ring) : QueueOk size (old.realloc size true) := by
  refine ⟨two, ?_, valid_start (by omega), ?_, ?_⟩
  · intro x below
    simp [Ring.realloc, Ring.clear, below]
  · intro x member
    cases member
  · intro x member
    cases member

theorem queue_first (ok : QueueOk size w) (held : -1 < w.outbuf) :
    ∃ buf rest, w.buf w.outbuf.toNat = some buf ∧ w.filled = w.outbuf.toNat :: rest ∧
      w.outbuf.toNat ∉ rest ∧ contents w = frameAt w w.outbuf.toNat :: rest.map (frameAt w) ∧
      progress w = (w.idx w.outbuf.toNat).toNat ∧ 0 ≤ w.idx w.outbuf.toNat ∧
      w.idx w.outbuf.toNat < w.n w.outbuf.toNat := by
  obtain ⟨rest, filled⟩ := valid_head ok.valid (by omega)
  have first : w.outbuf.toNat ∈ w.filled := by
    rw [filled]
    exact List.mem_cons_self
  have present := ok.allocated _ (valid_below ok.valid first)
  obtain ⟨buf, here⟩ := Option.ne_none_iff_exists'.mp present
  have once := valid_nodup ok.valid
  rw [filled, List.nodup_cons] at once
  have queue : contents w = frameAt w w.outbuf.toNat :: rest.map (frameAt w) := by
    rw [contents, filled, List.map_cons]
  have pos : progress w = (w.idx w.outbuf.toNat).toNat := by
    rw [progress, if_neg (by omega)]
  exact ⟨buf, rest, here, filled, once.1, queue, pos, ok.started _ first⟩

theorem queue_none (ok : QueueOk size w) (none_ : ¬-1 < w.outbuf) :
    contents w = [] ∧ progress w = 0 := by
  constructor
  · rw [contents, valid_none ok.valid (by omega)]
    rfl
  · rw [progress, if_pos (by omega)]

/-- A position within the message being sent. -/
theorem queue_at (ok : QueueOk size w) (held : -1 < w.outbuf) {v : Int} (low : 0 ≤ v)
    (inside : v < w.n w.outbuf.toNat) :
    QueueOk size { w with idx := set w.idx w.outbuf.toNat v } ∧
      contents { w with idx := set w.idx w.outbuf.toNat v } = contents w ∧
      progress { w with idx := set w.idx w.outbuf.toNat v } = v.toNat := by
  refine ⟨⟨ok.two, ok.allocated, ok.valid, ?_, ?_⟩, contents_congr rfl fun _ _ => ⟨rfl, rfl⟩, ?_⟩
  · intro x member
    simp only
    rcases Nat.decEq x w.outbuf.toNat with other | rfl
    · rw [set_other _ _ other]
      exact ok.started x member
    · rw [set_same]
      exact ⟨low, inside⟩
  · intro x member other
    simp only at other ⊢
    rw [set_other _ _ other]
    exact ok.later x member other
  · rw [progress, if_neg (by simp only; omega)]
    simp only [set_same]

/-- The message being sent is given up for the next one. -/
theorem queue_release (ok : QueueOk size w) (held : -1 < w.outbuf) :
    QueueOk size ({ w with idx := set w.idx w.outbuf.toNat 0 }.release size w.outbuf) ∧
      contents w = frameAt w w.outbuf.toNat ::
        contents ({ w with idx := set w.idx w.outbuf.toNat 0 }.release size w.outbuf) ∧
      progress ({ w with idx := set w.idx w.outbuf.toNat 0 }.release size w.outbuf) = 0 := by
  obtain ⟨rest, filled, valid'⟩ := valid_empty ok.two ok.valid (by omega)
  have once := valid_nodup ok.valid
  rw [filled, List.nodup_cons] at once
  have erased : w.filled.erase w.outbuf.toNat = rest := by
    rw [filled, List.erase_cons_head]
  have zero : ∀ x ∈ rest, set w.idx w.outbuf.toNat 0 x = 0 ∧ 0 < w.n x := by
    intro x member
    have other : x ≠ w.outbuf.toNat := by
      rintro rfl
      exact once.1 member
    have before : x ∈ w.filled := by
      rw [filled]
      exact List.mem_cons_of_mem _ member
    rw [set_other _ _ other, ok.later x before other]
    have bounds := ok.started x before
    exact ⟨rfl, by omega⟩
  have valid_ : Valid size ({ w with idx := set w.idx w.outbuf.toNat 0 }.release size w.outbuf).inbuf
      ({ w with idx := set w.idx w.outbuf.toNat 0 }.release size w.outbuf).outbuf
      ({ w with idx := set w.idx w.outbuf.toNat 0 }.release size w.outbuf).filled := by
    simp only [Ring.release, erased]
    exact valid'
  have kept : ∀ x ∈ ({ w with idx := set w.idx w.outbuf.toNat 0 }.release size w.outbuf).filled,
      set w.idx w.outbuf.toNat 0 x = 0 ∧ 0 < w.n x := by
    intro x member
    simp only [Ring.release, erased] at member
    exact zero x member
  refine ⟨⟨ok.two, ok.allocated, valid_, ?_, ?_⟩, ?_, ?_⟩
  · intro x member
    obtain ⟨start, some_⟩ := kept x member
    change 0 ≤ set w.idx w.outbuf.toNat 0 x ∧ set w.idx w.outbuf.toNat 0 x < w.n x
    rw [start]
    exact ⟨Int.le_refl 0, some_⟩
  · intro x member _
    exact (kept x member).1
  · exact contents_release ok.valid (by omega) w.n _ fun _ _ _ => rfl
  · exact progress_zero valid_ fun x member => (kept x member).1

/-- Where the next place is the filler's, there is only one message. -/
theorem queue_last (ok : QueueOk size w) (held : -1 < w.outbuf) (last : (w.outbuf + 1) % size = w.inbuf) :
    contents w = [frameAt w w.outbuf.toNat] := by
  obtain ⟨rest, filled, valid'⟩ := valid_empty ok.two ok.valid (by omega)
  have nothing := valid_none valid' (by rw [emptyOut, if_pos last]; decide)
  rw [contents, filled, nothing]
  rfl

/-- And where it is not, there is another. -/
theorem queue_more (ok : QueueOk size w) (held : -1 < w.outbuf)
    (more : (w.outbuf + 1) % size ≠ w.inbuf) :
    contents ({ w with idx := set w.idx w.outbuf.toNat 0 }.release size w.outbuf) ≠ [] := by
  obtain ⟨ok', _, _⟩ := queue_release ok held
  have positive : -1 < ({ w with idx := set w.idx w.outbuf.toNat 0 }.release size w.outbuf).outbuf := by
    simp only [Ring.release, if_neg more]
    have two := ok.two
    have low : 0 ≤ (w.outbuf + 1) % (size : Int) := Int.emod_nonneg _ (by omega)
    omega
  obtain ⟨_, rest, _, _, _, queue, _⟩ := queue_first ok' positive
  rw [queue]
  exact List.cons_ne_nil _ _

/-- The ring at the end of a message that stays if it is the last. -/
def turnRing (size : Nat) (w : Ring) : Ring :=
  if (w.outbuf + 1) % size = w.inbuf then { w with idx := set w.idx w.outbuf.toNat 0 }
  else { w with idx := set w.idx w.outbuf.toNat 0 }.release size w.outbuf

theorem queue_turn (ok : QueueOk size w) (held : -1 < w.outbuf) {m : List Octet}
    {rest : List (List Octet)} (queue : contents w = m :: rest) :
    QueueOk size (turnRing size w) ∧ contents (turnRing size w) = (if rest = [] then [m] else rest) ∧
      progress (turnRing size w) = 0 := by
  unfold turnRing
  by_cases last : (w.outbuf + 1) % size = w.inbuf
  · obtain ⟨_, _, _, _, _, _, _, _, inside⟩ := queue_first ok held
    obtain ⟨ok', contents', progress'⟩ := queue_at ok held (Int.le_refl 0) (by omega)
    have only := queue_last ok held last
    rw [queue] at only
    rw [if_pos last, contents', progress', queue, (List.cons.inj only).2, if_pos rfl]
    exact ⟨ok', rfl, rfl⟩
  · obtain ⟨ok', contents', progress'⟩ := queue_release ok held
    have another := queue_more ok held last
    rw [queue] at contents'
    rw [← (List.cons.inj contents').2] at another
    rw [if_neg last, progress', ← (List.cons.inj contents').2, if_neg another]
    exact ⟨ok', rfl, rfl⟩

/-- A message put into the free buffer and handed over. -/
theorem queue_hand_over (ok : QueueOk size w) (free : 0 ≤ w.inbuf) (b : Buffer) {len : Nat}
    (some_ : 0 < len) {w' : Ring} (here : w' = { w with
      buf := set w.buf w.inbuf.toNat (some b)
      n := set w.n w.inbuf.toNat len
      idx := set w.idx w.inbuf.toNat 0 }) :
    QueueOk size (w'.handOver size w.inbuf) ∧
      contents (w'.handOver size w.inbuf) = contents w ++ [bytesOf b 0 len] ∧
      progress (w'.handOver size w.inbuf) = progress w := by
  have inside : w.inbuf.toNat < size := by
    rcases ok.valid.inRange with none_ | ⟨low, high⟩ <;> omega
  have present := ok.allocated _ inside
  have unused := valid_free ok.valid free
  have apart : ∀ x ∈ w.filled, x ≠ w.inbuf.toNat := by
    rintro x member rfl
    exact unused member
  have valid' := valid_fill ok.two ok.valid free
  have handed : (w'.handOver size w.inbuf).filled = w.filled ++ [w.inbuf.toNat] := by
    rw [here]
    rfl
  have kept : ∀ x ∈ (w'.handOver size w.inbuf).filled,
      x ∈ w.filled ∧ w'.idx x = w.idx x ∧ w'.n x = w.n x ∨
        x = w.inbuf.toNat ∧ w'.idx x = 0 ∧ w'.n x = len := by
    intro x member
    rw [handed, List.mem_append, List.mem_singleton] at member
    rw [here]
    simp only
    rcases member with old | rfl
    · have other := apart x old
      rw [set_other _ _ other, set_other _ _ other]
      exact Or.inl ⟨old, rfl, rfl⟩
    · rw [set_same, set_same]
      exact Or.inr ⟨rfl, rfl, rfl⟩
  refine ⟨⟨ok.two, ?_, ?_, ?_, ?_⟩, ?_, ?_⟩
  · intro x below
    rw [here]
    simp only [Ring.handOver, ne_eq, set_pointer present]
    exact ok.allocated x below
  · rw [handed, here]
    exact valid'
  · intro x member
    change 0 ≤ w'.idx x ∧ w'.idx x < w'.n x
    rcases kept x member with ⟨old, i, count⟩ | ⟨_, i, count⟩
    · rw [i, count]
      exact ok.started x old
    · rw [i, count]
      omega
  · intro x member first
    change w'.idx x = 0
    rcases kept x member with ⟨old, i, _⟩ | ⟨_, i, _⟩
    · rw [i]
      apply ok.later x old
      rintro rfl
      apply first
      have some_ : ¬w.outbuf < 0 := by
        intro none_
        rw [valid_none ok.valid none_] at old
        exact List.not_mem_nil old
      rw [here]
      simp only [Ring.handOver, if_neg some_]
    · exact i
  · have before : contents w' = contents w := by
      apply contents_congr
      · rw [here]
      · intro x member
        rw [here]
        exact ⟨set_other _ _ (apart x member), set_other _ _ (apart x member)⟩
    have last : frameAt w' w.inbuf.toNat = bytesOf b 0 len := by
      rw [here, frameAt]
      simp only [set_same, Option.getD_some, Int.toNat_natCast]
    rw [contents_hand_over, before, last]
  · rw [here]
    unfold progress
    simp only [Ring.handOver]
    by_cases none_ : w.outbuf < 0
    · rw [if_pos none_, if_neg (by omega), if_pos none_, set_same]
      rfl
    · obtain ⟨rest, filled⟩ := valid_head ok.valid (by omega)
      have other : w.outbuf.toNat ≠ w.inbuf.toNat := by
        apply apart
        rw [filled]
        exact List.mem_cons_self
      rw [if_neg none_, if_neg none_, if_neg none_, set_other _ _ other]

end queue

end QueueRing
