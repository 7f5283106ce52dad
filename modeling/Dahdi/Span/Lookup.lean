import Dahdi.Span.SpanOrder

/-!
A channel is found by its number, and only a channel that has the number.
-/
namespace ChannelLookup
open SpanNumbers SpanOrder OrderedBlocks GuardedRun

/-- The channels of the assigned spans and the open pseudo channels. -/
def registered (s : State) : List Chan := s.spans.flatMap Span.chans ++ s.pseudos

/-- Automatic assignments whose channel numbers stay below those of the pseudo
    channels, and pseudo channels as long as there are numbers for them. -/
def Automatic (s : State) : Event → Prop
  | .assign span spanno basechan => spanno = 0 ∧
      ∀ n b, location s span spanno basechan = some (n, b) → b + span.channels ≤ firstPseudoChannel
  | .allocPseudo _ => firstPseudoChannel + s.pseudos.length < 2 ^ 32
  | _ => True

/-- Pseudo channels in the order of their numbers, from one on. -/
structure PseudosFrom (channo : Nat) (l : List Chan) : Prop where
  above : ∀ c ∈ l, channo ≤ u32 c.channo
  ordered : l.Pairwise fun c d => u32 c.channo < u32 d.channo

structure LookupOk (s : State) : Prop where
  spans : SpansOk s.spans
  low : ∀ span ∈ s.spans, span.spanno ≤ span.basechan ∧ endchan span ≤ firstPseudoChannel
  pseudos : PseudosFrom firstPseudoChannel s.pseudos

section Pseudos

theorem u32_s32 {n : Nat} (small : n < 2 ^ 32) : u32 (s32 n) = n := by
  unfold u32 s32
  have whole := @Int.bmod_emod n (2 ^ 32)
  omega

theorem pseudos_tail {channo : Nat} {p : Chan} {rest : List Chan}
    (from_ : PseudosFrom channo (p :: rest)) :
    channo ≤ u32 p.channo ∧ (∀ c ∈ rest, u32 p.channo < u32 c.channo) ∧
      PseudosFrom (u32 p.channo + 1) rest := by
  obtain ⟨above, ordered⟩ := from_
  obtain ⟨first, others⟩ := List.pairwise_cons.mp ordered
  exact ⟨above p List.mem_cons_self, first, first, others⟩

theorem alloc_pseudo_from {addr channo : Nat} {l : List Chan} (from_ : PseudosFrom channo l)
    (small : channo + l.length < 2 ^ 32) : PseudosFrom channo (allocPseudoLoop addr l channo) := by
  induction l generalizing channo with
  | nil =>
    have number : u32 (s32 channo) = channo := u32_s32 (by simpa using small)
    exact ⟨by simp [allocPseudoLoop, number], by simp [allocPseudoLoop]⟩
  | cons p rest ih =>
    obtain ⟨above, first, later⟩ := pseudos_tail from_
    simp only [List.length_cons] at small
    unfold allocPseudoLoop
    split
    · rename_i here
      have next : u32 (channo + 1 : Nat) = channo + 1 := by
        have := @u32_of_lt (channo + 1 : Nat) (by omega) (by omega)
        omega
      rw [show ((channo : Int) + 1) = (channo + 1 : Nat) from rfl, next]
      obtain ⟨above', ordered'⟩ := ih (here ▸ later) (by omega)
      constructor
      · intro c member
        rcases List.mem_cons.mp member with rfl | member
        · exact above
        · have := above' c member
          omega
      · refine List.pairwise_cons.mpr ⟨fun c member => ?_, ordered'⟩
        have := above' c member
        omega
    · rename_i other
      have number : u32 (s32 channo) = channo := u32_s32 (by omega)
      constructor
      · intro c member
        rcases List.mem_cons.mp member with rfl | member
        · simp only [number, Nat.le_refl]
        · exact from_.above c member
      · refine List.pairwise_cons.mpr ⟨fun c member => ?_, from_.ordered⟩
        simp only [number]
        rcases List.mem_cons.mp member with rfl | member
        · omega
        · have := first c member
          omega

theorem find_pseudo {channo n : Nat} {l : List Chan} {c : Chan} (from_ : PseudosFrom channo l) :
    (l.find? fun p => u32 p.channo == n) = some c ↔ c ∈ l ∧ u32 c.channo = n := by
  induction l generalizing channo with
  | nil => simp
  | cons p rest ih =>
    obtain ⟨_, first, later⟩ := pseudos_tail from_
    by_cases here : u32 p.channo = n
    · rw [List.find?_cons_of_pos (by simpa using here)]
      simp only [Option.some.injEq, List.mem_cons]
      constructor
      · rintro rfl
        exact ⟨Or.inl rfl, here⟩
      · rintro ⟨rfl | member, number⟩
        · rfl
        · have := first c member
          omega
    · rw [List.find?_cons_of_neg (by simpa using here), ih later, List.mem_cons]
      constructor
      · rintro ⟨member, number⟩
        exact ⟨Or.inr member, number⟩
      · rintro ⟨rfl | member, number⟩
        · exact absurd number here
        · exact ⟨member, number⟩

end Pseudos

section Spans
variable {l : List Span} {n : Nat} {c : Chan}

theorem numbered_bounds {s : Span} (numbered : Numbered s) :
    0 < s.channels ∧ (u32 s.basechan : Int) = s.basechan ∧
      (u32 (u32 s.basechan + s.channels) : Int) = endchan s := by
  have first := numbered.basechan
  have inside := numbered_end numbered
  have small := numbered.small
  have base : (u32 s.basechan : Int) = s.basechan := u32_of_lt (by omega) (by omega)
  refine ⟨numbered.consecutive.nonempty, base, ?_⟩
  rw [base]
  exact u32_of_lt (by omega) (Int.lt_trans small (by decide))

/-- The walk is the search for the block of the number. -/
theorem span_walk_block (numbered : ∀ s ∈ l, Numbered s) : spanChanFromNum n l =
    (findBlock Span.basechan endchan n l).bind fun s => s.chans[n - u32 s.basechan]? := by
  induction l with
  | nil => rfl
  | cons s rest ih =>
    obtain ⟨some, base, ends⟩ := numbered_bounds (numbered s List.mem_cons_self)
    have later := ih fun t member => numbered t (List.mem_cons_of_mem s member)
    unfold spanChanFromNum findBlock
    rw [if_neg (by omega)]
    by_cases beyond : endchan s ≤ n
    · rw [if_pos (by omega), if_pos beyond]
      exact later
    · rw [if_neg (by omega), if_neg beyond]
      by_cases before : (n : Int) < s.basechan
      · rw [if_pos (by omega), if_pos before]
        rfl
      · rw [if_neg (by omega), if_neg before]
        rfl

theorem span_walk_iff (ok : SpansOk l) : spanChanFromNum n l = some c ↔
    ∃ s ∈ l, c ∈ s.chans ∧ c.channo = n := by
  have blocks : ∀ s ∈ l, s.basechan ≤ endchan s := by
    intro s member
    have := numbered_end (ok.numbered s member)
    omega
  rw [span_walk_block ok.numbered, Option.bind_eq_some_iff]
  constructor
  · rintro ⟨s, found, here⟩
    obtain ⟨member, low, _⟩ := (find_block_iff blocks ok.ordered).mp found
    obtain ⟨_, base, _⟩ := numbered_bounds (ok.numbered s member)
    have number := (ok.numbered s member).consecutive.numbers _ c here
    exact ⟨s, member, List.mem_of_getElem? here, by omega⟩
  · rintro ⟨s, member, inside, number⟩
    obtain ⟨i, below, rfl⟩ := List.getElem_of_mem inside
    have here : s.chans[i]? = some s.chans[i] := List.getElem?_eq_getElem below
    have numbered := (ok.numbered s member).consecutive.numbers i _ here
    obtain ⟨_, base, _⟩ := numbered_bounds (ok.numbered s member)
    have place : n - u32 s.basechan = i := by omega
    refine ⟨s, (find_block_iff blocks ok.ordered).mpr ⟨member, by omega, ?_⟩, by rw [place]; exact here⟩
    simp only [endchan, Span.channels]
    omega

end Spans

section Runs
variable {s s' : State}

theorem automatic_free (ok : LookupOk s) {e : Event} (automatic : Automatic s e) : FreeNumber s e := by
  cases e with
  | assign span spanno basechan =>
    obtain ⟨zero, _⟩ := automatic
    simp only [FreeNumber, if_pos zero]
    refine Or.inr fun pos member => ?_
    have number := (ok.low pos member).1
    have block := (ok.low pos member).2
    have := numbered_end (ok.spans.numbered pos member)
    simp only [firstPseudoChannel] at block
    omega
  | unassign addr => trivial
  | allocPseudo addr => trivial
  | freePseudo addr => trivial

theorem lookup_step {maxPseudoChannels : Nat} {e : Event} (ok : LookupOk s)
    (automatic : Automatic s e) (step : (numberSystem maxPseudoChannels).step s e s') :
    LookupOk s' := by
  have spans := ok_step ok.spans (automatic_free ok automatic) step
  obtain ⟨domain, done⟩ := step
  refine ⟨spans, ?_, ?_⟩
  · cases e with
    | assign span spanno basechan =>
      obtain ⟨zero, below⟩ := automatic
      obtain ⟨n, b, found, _, list⟩ := assign_inversion done
      have small := domain.2.2 n b found
      have first := below n b found
      have start : ∀ pos ∈ s.spans, ((1 : Nat) : Int) ≤ pos.spanno ∧ ((1 : Nat) : Int) ≤ pos.basechan :=
        fun pos member => ⟨(ok.spans.numbered pos member).spanno.1,
          (ok.spans.numbered pos member).basechan⟩
      rw [location, if_pos zero] at found
      have stops := assign_loop_stops ok.spans (by omega) start found
      have spanno : n ≤ b ∧ n < 2 ^ 31 := by
        rcases stops.origin with ⟨rfl, rfl⟩ | ⟨pos, member, next, after⟩
        · omega
        · have := (ok.low pos member).1
          have := numbered_end (ok.spans.numbered pos member)
          omega
      obtain ⟨base, ends, _⟩ := @set_numbers span n b domain.1 small
      rw [list]
      intro t member
      rcases mem_insert.mp member with rfl | old
      · rw [set_spanno, s32_of_lt (by omega) (by omega), base, ends]
        omega
      · exact ok.low t old
    | unassign addr =>
      obtain rfl := Option.some.inj done
      exact fun t member => ok.low t (List.mem_of_mem_filter member)
    | allocPseudo addr =>
      simp only [apply, allocPseudo] at done
      split at done
      · cases done
      · obtain rfl := Option.some.inj done
        exact ok.low
    | freePseudo addr =>
      obtain rfl := Option.some.inj done
      exact ok.low
  · cases e with
    | assign span spanno basechan =>
      unfold apply assignSpan at done
      simp only at done
      split at done
      · cases done
      · obtain ⟨placed, _, rfl⟩ := Option.map_eq_some_iff.mp done
        exact ok.pseudos
    | unassign addr =>
      obtain rfl := Option.some.inj done
      exact ok.pseudos
    | allocPseudo addr =>
      simp only [apply, allocPseudo] at done
      split at done
      · cases done
      · obtain rfl := Option.some.inj done
        exact alloc_pseudo_from ok.pseudos automatic
    | freePseudo addr =>
      obtain rfl := Option.some.inj done
      exact ⟨fun c member => ok.pseudos.above c (List.mem_of_mem_filter member),
        ok.pseudos.ordered.sublist List.filter_sublist⟩

theorem lookup_run {maxPseudoChannels : Nat}
    (reached : Reach (numberSystem maxPseudoChannels) Automatic s) : LookupOk s := by
  refine @invariant_run _ _ _ _ LookupOk ?_ ?_ s reached
  · rintro _ rfl
    exact ⟨⟨by simp, .nil⟩, by simp, by simp, by simp⟩
  · intro s e s' ok automatic step
    exact lookup_step ok automatic step

/-- The lookup returns the registered channel that has the number, and NULL when
    there is none. -/
theorem chan_from_num_correct (maxPseudoChannels : Nat)
    (reached : Reach (numberSystem maxPseudoChannels) Automatic s) (channo : BitVec 32) (c : Chan) :
    chanFromNum s channo = some c ↔ c ∈ registered s ∧ u32 c.channo = channo.toNat := by
  obtain ⟨spans, low, pseudos⟩ := lookup_run reached
  have spanned : ∀ span ∈ s.spans, ∀ c ∈ span.chans, (u32 c.channo : Int) = c.channo ∧
      c.channo < firstPseudoChannel := by
    intro span member c inside
    obtain ⟨i, below, rfl⟩ := List.getElem_of_mem inside
    have number := (spans.numbered span member).consecutive.numbers i _ (List.getElem?_eq_getElem below)
    have first := (spans.numbered span member).basechan
    have block := (low span member).2
    simp only [endchan, Span.channels, firstPseudoChannel] at block ⊢
    exact ⟨u32_of_lt (by omega) (by omega), by omega⟩
  rw [registered, List.mem_append, List.mem_flatMap]
  unfold chanFromNum
  split
  · rename_i high
    rw [find_pseudo pseudos]
    constructor
    · rintro ⟨member, number⟩
      exact ⟨Or.inr member, number⟩
    · rintro ⟨⟨span, member, inside⟩ | member, number⟩
      · have := spanned span member c inside
        omega
      · exact ⟨member, number⟩
  · rename_i high
    rw [span_walk_iff spans]
    constructor
    · rintro ⟨span, member, inside, number⟩
      have := spanned span member c inside
      exact ⟨Or.inl ⟨span, member, inside⟩, by omega⟩
    · rintro ⟨⟨span, member, inside⟩ | member, number⟩
      · have := spanned span member c inside
        exact ⟨span, member, inside, by omega⟩
      · have := pseudos.above c member
        omega

theorem chan_from_num_correct_one : ∃ s, Reach (numberSystem 512) Automatic s ∧
    chanFromNum s 1 = some ⟨101, 1⟩ ∧ chanFromNum s 0x8000 = some ⟨7, 0x8000⟩ := by
  have first : (numberSystem 512).step ⟨[], []⟩ (.assign (board 1) 0 0)
      ⟨[⟨1, 1, [⟨101, 1⟩]⟩], []⟩ := by
    refine ⟨⟨by decide, Or.inl rfl, fun n b found => ?_⟩, by decide⟩
    obtain ⟨rfl, rfl⟩ := Prod.mk.inj (Option.some.inj found)
    decide
  have second : (numberSystem 512).step ⟨[⟨1, 1, [⟨101, 1⟩]⟩], []⟩ (.allocPseudo 7)
      ⟨[⟨1, 1, [⟨101, 1⟩]⟩], [⟨7, 0x8000⟩]⟩ := ⟨trivial, by decide⟩
  have automatic : Automatic ⟨[], []⟩ (.assign (board 1) 0 0) := by
    refine ⟨rfl, fun n b found => ?_⟩
    obtain ⟨rfl, rfl⟩ := Prod.mk.inj (Option.some.inj found)
    decide
  have room : Automatic ⟨[⟨1, 1, [⟨101, 1⟩]⟩], []⟩ (.allocPseudo 7) := by
    simp [Automatic, firstPseudoChannel]
  have reached : Reach (numberSystem 512) Automatic _ :=
    .step (.step (.start rfl) automatic first) room second
  exact ⟨_, reached, (chan_from_num_correct 512 reached 1 ⟨101, 1⟩).mpr ⟨by decide, by decide⟩,
    (chan_from_num_correct 512 reached 0x8000 ⟨7, 0x8000⟩).mpr ⟨by decide, by decide⟩⟩

end Runs

end ChannelLookup
