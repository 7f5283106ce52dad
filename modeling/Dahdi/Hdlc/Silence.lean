import Dahdi.Hdlc.Resync

/-!
A receiver that has lost a frame returns nothing until the frame is over: no
flag stands among stuffed bits.
-/
namespace FasthdlcSilence
open OnesRun ShiftRegister BitStuffing Fasthdlc FasthdlcTables FasthdlcLink FasthdlcEntries
open FasthdlcRounds FasthdlcResync

section Stuffed
variable {stream : Nat → Bool} {p ones : Nat}

theorem slice_cons (p n : Nat) : slice stream p (n + 1) = stream p :: slice stream (p + 1) n := by
  have parts := @slice_append stream p 1 n
  rw [Nat.add_comm n 1, ← parts]
  rfl

/-- One more bit in front of a quiet stretch. -/
theorem quiet_cons {j after : Nat} (first : run (from_ stream p) ones 1 = after) (small : ones ≤ 5)
    (later : Quiet 5 (from_ stream (p + 1)) after j) :
    Quiet 5 (from_ stream p) ones (j + 1) ∧
      run (from_ stream p) ones (j + 1) = run (from_ stream (p + 1)) after j := by
  subst first
  have start := later 0 (Nat.zero_le j)
  rw [← from_from] at later ⊢
  rw [Nat.add_comm j 1]
  exact ⟨quiet_append (quiet_succ (quiet_zero small) start) later, (run_from 1 j).symm⟩

/-- Stuffed bits hold no six ones in a row. -/
theorem stuffed_quiet (below : ones < 5) (bits : List Bool)
    (line : slice stream p (stuff 5 ones bits).length = stuff 5 ones bits) :
    Quiet 5 (from_ stream p) ones (stuff 5 ones bits).length ∧
      run (from_ stream p) ones (stuff 5 ones bits).length = runAfter 5 ones bits := by
  induction bits generalizing p ones with
  | nil => exact ⟨quiet_zero (Nat.le_of_lt below), rfl⟩
  | cons b bits ih =>
    have zero (p ones : Nat) (bit : stream p = false) : run (from_ stream p) ones 1 = 0 := run_zero bit
    have one (bit : stream p = true) : run (from_ stream p) ones 1 = ones + 1 := run_one bit
    cases b with
    | false =>
      simp only [stuff, runAfter, List.length_cons, slice_cons, List.cons.injEq] at line ⊢
      obtain ⟨bit, rest⟩ := line
      obtain ⟨quiet, counted⟩ := ih (Nat.zero_lt_succ 4) rest
      obtain ⟨quiet', counted'⟩ := quiet_cons (zero p ones bit) (Nat.le_of_lt below) quiet
      exact ⟨quiet', counted'.trans counted⟩
    | true =>
      by_cases full : ones + 1 = 5
      · simp only [stuff, runAfter, full, ↓reduceIte, List.length_cons, slice_cons,
          List.cons.injEq] at line ⊢
        obtain ⟨bit, stuffed, rest⟩ := line
        obtain ⟨quiet, counted⟩ := ih (Nat.zero_lt_succ 4) rest
        obtain ⟨quiet', counted'⟩ := quiet_cons (zero (p + 1) 5 stuffed) (Nat.le_refl 5) quiet
        obtain ⟨quiet'', counted''⟩ := quiet_cons (one bit) (Nat.le_of_lt below) (by rw [full]; exact quiet')
        rw [full, counted', counted] at counted''
        exact ⟨quiet'', counted''⟩
      · simp only [stuff, runAfter, full, ↓reduceIte, List.length_cons, slice_cons,
          List.cons.injEq] at line ⊢
        obtain ⟨bit, rest⟩ := line
        obtain ⟨quiet, counted⟩ := ih (by omega) rest
        obtain ⟨quiet', counted'⟩ := quiet_cons (one bit) (Nat.le_of_lt below) quiet
        exact ⟨quiet', counted'.trans counted⟩

theorem octets_quiet (below : ones < 5) (f : List Octet)
    (line : slice stream p (wire ones (f.map .octet)).length = wire ones (f.map .octet)) :
    Quiet 5 (from_ stream p) ones (wire ones (f.map .octet)).length := by
  induction f generalizing p ones with
  | nil => exact quiet_zero (Nat.le_of_lt below)
  | cons y f ih =>
    simp only [List.map_cons, wire, List.length_append] at line ⊢
    rw [← slice_append] at line
    obtain ⟨front, back⟩ := List.append_inj line (slice_length _ _)
    obtain ⟨quiet, counted⟩ := stuffed_quiet below (low 8 y) front
    have after : run (from_ stream p) ones (symBits ones (.octet y)).length = symOnes ones (.octet y) :=
      counted
    refine quiet_append quiet ?_
    rw [from_from, after]
    exact ih (ones_below below y) back

/-- The only flag in the octets of a frame and its closing flag is the last. -/
theorem no_flag_before (below : ones < 5) (f : List Octet)
    (line : slice stream p (wire ones (f.map .octet ++ [.flag])).length =
      wire ones (f.map .octet ++ [.flag])) {q : Nat} (after : p ≤ q)
    (early : q + 9 ≤ p + (wire ones (f.map .octet ++ [.flag])).length) : ¬ FlagAt stream q := by
  intro flag
  have closing (ones : Nat) : wire ones [.flag] = flagBits := rfl
  rw [wire_append, closing, List.length_append] at line early
  have eight : flagBits.length = 8 := rfl
  rw [← slice_append] at line
  obtain ⟨front, back⟩ := List.append_inj line (slice_length _ _)
  have quiet := octets_quiet below f front
  generalize (wire ones (f.map .octet)).length = size at *
  obtain ⟨k, rfl⟩ : ∃ k, q = p + k := ⟨q - p, by omega⟩
  have ones : ∀ i < 6, stream (p + k + (1 + i)) = true := by
    intro i inside
    rw [flag_bits flag (1 + i) (by omega)]
    have bits : ∀ i < 6, flagBits.getD (1 + i) false = true := by decide
    exact bits i inside
  rcases Nat.lt_or_ge size (k + 7) with crossing | inside
  · have zero := flag_bits (show FlagAt stream (p + size) from back) 0 (by omega)
    have bit := ones (size - (k + 1)) (by omega)
    rw [show p + k + (1 + (size - (k + 1))) = p + size + 0 by omega, zero] at bit
    cases bit
  · refine not_quiet_of_ones ?_ (by omega : 5 < 6) inside quiet
    intro i few
    rw [← ones i few]
    simp only [from_]
    congr 1
    omega

end Stuffed

section Calm
variable {stream : Nat → Bool} {total p received : Nat} {h : State}

/-- Up to the bit where the line ends no octet can be returned. -/
def Calm (stream : Nat → Bool) (total : Nat) (h : State) (p : Nat) : Prop :=
  h.state = 0 ∧ (∀ q, p ≤ q → q + 18 ≤ total → ¬ FlagAt stream q) ∨ h.state = 1 ∧ total < p + 10

theorem round_calm (behind : Behind stream h p received) (calm : Calm stream total h p)
    (ready : Ready h) (before : received ≤ total) :
    (rxRound h).1 = .empty ∧ ∃ k, 1 ≤ k ∧ Behind stream (rxRound h).2 (p + k) received ∧
      Calm stream total (rxRound h).2 (p + k) ∧ (rxRound h).2.mode = h.mode := by
  have inside := behind.inside
  rw [ready_iff behind, rxMinbits] at ready
  rcases calm with ⟨searching, none⟩ | ⟨framed, short⟩
  · rw [if_pos searching] at ready
    obtain ⟨k, state, _, empty, least, _, next, after, _, mode, found⟩ :=
      round_search behind searching ready
    refine ⟨empty, k, least, next, ?_, mode⟩
    rcases found with zero | ⟨one, eight⟩
    · refine Or.inl ⟨after.trans zero, ?_⟩
      intro q later room
      exact none q (by omega) room
    · refine Or.inr ⟨after.trans one, ?_⟩
      have search : h.state = frameSearch := searching
      rw [round_searching search] at after
      rcases search_entry ((h.data >>> 24).setWidth 8) with ⟨flag, _⟩ | ⟨_, stay, _, _⟩
      · have here := (window_flag behind ready).mp flag
        by_contra room
        exact none p (Nat.le_refl p) (by omega) here
      · rw [one] at after
        exact absurd (after.symm.trans stay) Nat.one_ne_zero
  · rw [if_neg (by omega)] at ready
    omega

theorem loop_calm {rounds : Nat} (fuel : received - p < rounds) (behind : Behind stream h p received)
    (calm : Calm stream total h p) (before : received ≤ total) :
    ∃ h' p', fasthdlcRxLoop rounds h .empty = some (.empty, h') ∧ Behind stream h' p' received ∧
      Calm stream total h' p' ∧ h'.mode = h.mode := by
  induction rounds generalizing h p with
  | zero => omega
  | succ rounds ih =>
    by_cases ready : Ready h
    · obtain ⟨empty, k, least, next, calm', mode⟩ := round_calm behind calm ready before
      have inside := next.inside
      rw [rx_loop_round ready, empty]
      obtain ⟨h', p', run, last, calm'', mode'⟩ := ih (by omega) next calm'
      exact ⟨h', p', run, last, calm'', mode'.trans mode⟩
    · exact ⟨h, p, rx_loop_idle ready, behind, calm, rfl⟩

variable {mode : Mode} {octets : Nat → Octet} {n : Nat}

theorem octet_calm (between : @Between mode octets h n p) (calm : Calm (lineStream mode octets) total h p)
    (before : minbitsOf mode * (n + 1) ≤ total) :
    ∃ h' p', fasthdlcRxRun (fasthdlcRxLoadNocheck h (octets n)) = some (.empty, h') ∧
      @Between mode octets h' (n + 1) p' ∧ Calm (lineStream mode octets) total h' p' := by
  have width := minbits_bounds mode
  have light := between.light.1
  have inside := between.behind.inside
  obtain ⟨result, h', p', run, next, _⟩ := between_step between
  have loaded : Calm (lineStream mode octets) total (fasthdlcRxLoadNocheck h (octets n)) p := by
    rw [rx_load_state]
    exact calm
  have size : minbitsOf mode * (n + 1) = minbitsOf mode * n + minbitsOf mode := Nat.mul_succ _ _
  obtain ⟨h'', p'', run', shown, calm', _⟩ :=
    @loop_calm _ _ _ _ _ 40 (by omega) (between_load between) loaded before
  obtain ⟨rfl, rfl⟩ := Prod.mk.inj (Option.some.inj (run.symm.trans run'))
  have place : p'' = p' := by
    have first := behind_bits shown
    have second := behind_bits next.behind
    have := shown.inside
    have := next.behind.inside
    omega
  rw [place] at calm'
  exact ⟨_, p', run, next, calm'⟩

end Calm

section Starved
variable {h : State} {loaded : Nat}

/-- Too few bits have been loaded since the restart for a flag and an octet. -/
structure Starved (h : State) (loaded : Nat) : Prop where
  low : 0 ≤ h.bits
  held : h.bits ≤ loaded
  few : loaded ≤ 17
  known : h.state = 0 ∨ h.state = 1 ∧ h.bits + 8 ≤ loaded

theorem starved_ready (starved : Starved h loaded) (ready : Ready h) : h.state = 0 ∧ 8 ≤ h.bits := by
  obtain ⟨low, held, few, known⟩ := starved
  unfold Ready rxMinbits at ready
  rcases known with searching | ⟨framed, flag⟩
  · rw [if_pos searching] at ready
    exact ⟨searching, by omega⟩
  · rw [if_neg (by omega)] at ready
    omega

theorem loop_starved {rounds : Nat} (fuel : h.bits < rounds) (starved : Starved h loaded) :
    ∃ h', fasthdlcRxLoop rounds h .empty = some (.empty, h') ∧ Starved h' loaded ∧ h'.mode = h.mode := by
  induction rounds generalizing h with
  | zero =>
    have := starved.low
    omega
  | succ rounds ih =>
    by_cases ready : Ready h
    · obtain ⟨searching, eight⟩ := starved_ready starved ready
      have held := starved.held
      rw [rx_loop_round ready, round_searching searching]
      rcases search_entry ((h.data >>> 24).setWidth 8) with ⟨_, entry⟩ | ⟨_, stay, least, most⟩
      · rw [entry]
        refine ih ?_ ⟨?_, ?_, starved.few, Or.inr ⟨rfl, ?_⟩⟩
        · simp only [Nat.reduceAnd]
          omega
        · simp only [Nat.reduceAnd]
          omega
        · simp only [Nat.reduceAnd]
          omega
        · simp only [Nat.reduceAnd]
          omega
      · refine ih ?_ ⟨?_, ?_, starved.few, Or.inl stay⟩
        · dsimp only
          omega
        · dsimp only
          omega
        · dsimp only
          omega
    · exact ⟨h, rx_loop_idle ready, starved, rfl⟩

theorem octet_starved (starved : Starved h loaded) (o : Octet)
    (few : loaded + minbitsOf h.mode ≤ 17) :
    ∃ h', fasthdlcRxRun (fasthdlcRxLoadNocheck h o) = some (.empty, h') ∧
      Starved h' (loaded + minbitsOf h.mode) ∧ h'.mode = h.mode := by
  obtain ⟨low, held, _, known⟩ := starved
  have more : Starved (fasthdlcRxLoadNocheck h o) (loaded + minbitsOf h.mode) := by
    rw [rx_load_state]
    refine ⟨?_, ?_, few, ?_⟩
    · dsimp only
      omega
    · dsimp only
      omega
    · dsimp only
      omega
  obtain ⟨h', run, after, mode⟩ := @loop_starved _ _ 40
    (by have := more.held; omega) more
  refine ⟨h', run, after, ?_⟩
  rw [mode, rx_load_state]

end Starved

end FasthdlcSilence
