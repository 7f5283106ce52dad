import Dahdi.Hdlc.ReceiverRounds

/-!
The receiver finds the next frame again: it hunts for the first flag, and of two
flags in a row at least the second one opens the frame behind them.
-/
namespace FasthdlcResync
open OnesRun ShiftRegister Fasthdlc FasthdlcTables FasthdlcLink FasthdlcEntries FasthdlcRounds

def FlagAt (stream : Nat → Bool) (q : Nat) : Prop := slice stream q 8 = flagBits

/-- Symbols that stand on the line from some bit on. -/
structure Sent where
  start : Nat
  whole : List Sym

def Sent.last (sent : Sent) : Nat := sent.start + (wire 0 sent.whole).length

/-- At bit p, with this count of ones, these symbols are still to come. -/
structure Reads (stream : Nat → Bool) (sent : Sent) (p ones : Nat) (syms : List Sym) : Prop where
  line : slice stream sent.start (wire 0 sent.whole).length = wire 0 sent.whole
  place : ∃ done, sent.whole = done ++ syms ∧ p = sent.start + (wire 0 done).length ∧
    ones = wireOnes 0 done

/-- The rest of a flag whose first bit was the last one of another flag, a flag, and
    the symbols. -/
structure Tripped (stream : Nat → Bool) (sent : Sent) (p : Nat) (syms : List Sym) : Prop where
  ones : ∀ i, i < 6 → stream (p + i) = true
  zero : stream (p + 6) = false
  flag : FlagAt stream (p + 7)
  later : Reads stream sent (p + 15) 0 syms

/-- What stands before a receiver at bit p. Until the frame is open it is fresh. -/
inductive Ahead (stream : Nat → Bool) (sent : Sent) : Bool → State → Nat → List Sym → Prop where
  | hunting {h : State} {p : Nat} {syms : List Sym} (q : Nat) (searching : h.state = 0)
      (before : p ≤ q) (first : ∀ i, p ≤ i → i < q → ¬ FlagAt stream i) (flag : FlagAt stream q)
      (opened : Reads stream sent (q + 8) 0 syms ∨ Tripped stream sent (q + 8) syms) :
      Ahead stream sent true h p syms
  | tripped {h : State} {p : Nat} {syms : List Sym} (framed : h.state = 1) (clear : h.ones = 0)
      (rest : Tripped stream sent p syms) : Ahead stream sent true h p syms
  | framed {h : State} {p : Nat} {syms : List Sym} (framed : h.state = 1)
      (reads : Reads stream sent p h.ones syms) : Ahead stream sent false h p syms

/-- What a result does to the symbols expected. -/
inductive Got : Bool → List Sym → RxResult → Bool → List Sym → Prop where
  | none (fresh : Bool) (syms : List Sym) : Got fresh syms .empty fresh syms
  | opened (syms : List Sym) : Got true syms .empty false syms
  | trip (syms : List Sym) : Got true syms .discard true syms
  | symbol (s : Sym) (syms : List Sym) : Got false (s :: syms) (resultOf s) false syms
  | later (s : Sym) (syms : List Sym) : Got true (s :: syms) (resultOf s) false syms

section Round
variable {stream : Nat → Bool} {sent : Sent} {p received : Nat} {h : State} {syms : List Sym}

theorem flag_bits {q : Nat} (flag : FlagAt stream q) (i : Nat) (inside : i < 8) :
    stream (q + i) = flagBits.getD i false := by
  have bit := @slice_get stream q 8 i inside
  rw [show slice stream q 8 = flagBits from flag] at bit
  exact bit.symm

theorem window_flag (behind : Behind stream h p received) (enough : 8 ≤ received - p) :
    (h.data >>> 24).setWidth 8 = 0x7e#8 ↔ FlagAt stream p := by
  have pattern : ∀ i < 8, (0x7e#8).getMsbD i = flagBits.getD i false := by decide
  have eight : flagBits.length = 8 := rfl
  constructor
  · intro same
    apply List.ext_getElem
    · rw [slice_length, eight]
    · intro i inside _
      rw [slice_length] at inside
      have bit := octet_seen behind enough i inside
      rw [same, pattern i inside] at bit
      have got := @slice_get stream p 8 i inside
      rw [← bit, List.getD_eq_getElem _ _ (by rw [slice_length]; exact inside),
        List.getD_eq_getElem _ _ (by omega)] at got
      exact got
  · intro flag
    apply BitVec.eq_of_getMsbD_eq
    intro i inside
    rw [octet_seen behind enough i inside, pattern i inside, flag_bits flag i inside]

/-- The search never goes past the first flag. -/
theorem round_hunting (behind : Behind stream h p received) (searching : h.state = 0)
    (enough : 8 ≤ received - p) {q : Nat} (before : p ≤ q)
    (first : ∀ i, p ≤ i → i < q → ¬ FlagAt stream i) (flag : FlagAt stream q) :
    (rxRound h).1 = .empty ∧ (rxRound h).2.ones = 0 ∧ ∃ k,
      Behind stream (rxRound h).2 (p + k) received ∧
      ((rxRound h).2.state = 1 ∧ p = q ∧ k = 8 ∨ (rxRound h).2.state = 0 ∧ p + k ≤ q) := by
  have search : h.state = frameSearch := searching
  obtain ⟨k, state, consumed, none, least, most, next, after, clear, _, _⟩ :=
    round_search behind searching enough
  refine ⟨none, clear, k, next, ?_⟩
  rw [show rxConsumed h = _ from if_pos search] at consumed
  rw [round_searching search] at after
  by_cases here : (h.data >>> 24).setWidth 8 = 0x7e#8
  · have same : p = q := by
      by_contra differ
      exact first p (Nat.le_refl p) (by omega) ((window_flag behind enough).mp here)
    rw [here] at consumed after
    rw [round_searching search, here]
    exact Or.inl ⟨rfl, same, consumed.symm⟩
  · right
    have apart : p ≠ q := by
      rintro rfl
      exact here ((window_flag behind enough).mpr flag)
    rcases search_entry ((h.data >>> 24).setWidth 8) with ⟨same, _⟩ | ⟨_, stay, _, _⟩
    · exact absurd same here
    · rw [round_searching search]
      refine ⟨stay, ?_⟩
      rcases Nat.lt_or_ge q (p + 8) with close | far
      · have bits (i : Nat) (inside : i < 8) (later : q ≤ p + i) :
            ((h.data >>> 24).setWidth 8 : Octet).getMsbD i = flagBits.getD (p + i - q) false := by
          rw [octet_seen behind enough i inside, ← flag_bits flag _ (by omega)]
          congr 1
          omega
        have ones : ∀ i < 7, 0 < i → flagBits.getD i false = true := by decide
        have place := search_entry_zero ((h.data >>> 24).setWidth 8) here (q - p) (by omega) (by omega)
          (by rw [bits (q - p) (by omega) (by omega), show p + (q - p) - q = 0 by omega]; rfl)
          (by
            intro j inside later
            rw [bits j inside (by omega)]
            exact ones _ (by omega) (by omega))
        omega
      · omega

/-- The ones left of an overlapped flag end the frame it opened. -/
theorem round_tripped (behind : Behind stream h p received) (framed : h.state = 1)
    (clear : h.ones = 0) (enough : 10 ≤ received - p) (rest : Tripped stream sent p syms) :
    (rxRound h).1 = .discard ∧ (rxRound h).2.state = 0 ∧ Behind stream (rxRound h).2 (p + 7) received := by
  obtain ⟨result, k, state, ones, read, _, value, next, after, _, _⟩ := round_frame behind framed enough
  have counted (j : Nat) (few : j ≤ 6) : run (from_ stream p) 0 j = j := by
    have all := @run_of_ones (from_ stream p) 0 0 j (by
      intro i inside
      rw [Nat.zero_add]
      exact rest.ones i (by omega))
    rwa [Nat.zero_add, run, Nat.zero_add] at all
  have all (j : Nat) (few : j ≤ 5) : kept (from_ stream p) 0 j = j := by
    induction j with
    | zero => rfl
    | succ j ih => rw [kept, ih (by omega), counted j (by omega), if_neg (by omega)]
  have five := counted 5 (by omega)
  have sixth : SixthOne (from_ stream p) 0 5 := ⟨by rw [all 5 (by omega)]; omega, five, rest.ones 5 (by omega)⟩
  have quiet : Quiet 5 (from_ stream p) 0 5 := by
    intro i inside
    rw [counted i (by omega)]
    exact inside
  rw [clear] at read
  rw [value, after]
  cases read with
  | octet j c ended short => exact (octet_end_not_sixth ended sixth).elim
  | full j c ended full => exact (octet_end_not_sixth ended sixth).elim
  | complete j sixth' quiet' last =>
    obtain rfl := sixth_one_unique sixth sixth' quiet quiet'
    rw [all 5 (by omega)] at last
    omega
  | abort j sixth' quiet' other =>
    obtain rfl := sixth_one_unique sixth sixth' quiet quiet'
    exact ⟨rfl, rfl, next⟩

theorem reads_bits {ones : Nat} (reads : Reads stream sent p ones syms) :
    slice stream p (wire ones syms).length = wire ones syms ∧
      p + (wire ones syms).length = sent.last := by
  obtain ⟨line, done, whole, rfl, rfl⟩ := reads
  rw [whole, wire_append, List.length_append, ← slice_append] at line
  have parts := List.append_inj line (slice_length _ _)
  refine ⟨parts.2, ?_⟩
  rw [Sent.last, whole, wire_append, List.length_append, Nat.add_assoc]

theorem reads_cons {s : Sym} {ones : Nat} (reads : Reads stream sent p ones (s :: syms)) :
    slice stream p (symBits ones s).length = symBits ones s ∧
      Reads stream sent (p + (symBits ones s).length) (symOnes ones s) syms := by
  obtain ⟨bits, _⟩ := reads_bits reads
  obtain ⟨line, done, whole, rfl, rfl⟩ := reads
  rw [wire, List.length_append, ← slice_append] at bits
  refine ⟨(List.append_inj bits (slice_length _ _)).1, line, done ++ [s], ?_, ?_, ?_⟩
  · rw [whole, List.append_assoc]
    rfl
  · rw [wire_append, List.length_append, Nat.add_assoc]
    simp only [wire, List.append_nil]
  · rw [wire_ones_append]
    rfl

/-- Inside the frame a round decodes the next symbol. -/
theorem round_symbol (behind : Behind stream h p received) (framed : h.state = 1)
    (enough : 10 ≤ received - p) {s : Sym} (reads : Reads stream sent p h.ones (s :: syms)) :
    (rxRound h).1 = resultOf s ∧ (rxRound h).2.state = 1 ∧ ∃ k,
      Behind stream (rxRound h).2 (p + k) received ∧
      Reads stream sent (p + k) (rxRound h).2.ones syms := by
  obtain ⟨front, later⟩ := reads_cons reads
  have size := sym_bits_length behind.ones s
  have held := behind.held
  rw [show received - p = (symBits h.ones s).length + (received - p - (symBits h.ones s).length) by
    omega, ← slice_append, front] at held
  obtain ⟨h', run, kept, state, ones, mode⟩ := rx_run_sym framed behind.ones held
    (by rw [List.length_append, slice_length]; omega)
  obtain ⟨result, k, state', ones', read, _, value, next, after, _, _⟩ :=
    round_frame behind framed enough
  have bounds := frame_read_bounds behind.ones read
  have ready := ready_iff behind
  rw [rxMinbits, if_neg (by omega)] at ready
  rw [fasthdlcRxRun, rx_loop_round (ready.mpr enough), value, rx_loop_done bounds.2.2.2.2] at run
  obtain ⟨rfl, rfl⟩ := Prod.mk.inj (Option.some.inj run)
  refine ⟨value, state, k, next, ?_⟩
  have taken := behind_bits next
  have count := kept.count
  rw [slice_length] at count
  have inside := next.inside
  rw [ones, show p + k = p + (symBits h.ones s).length by omega]
  exact later

/-- The bit at which a symbol decoded in this run begins, and that ten bits were
    there from it on. -/
def Begun (stream : Nat → Bool) (sent : Sent) (fresh : Bool) (p received : Nat) (syms : List Sym) :
    Prop :=
  ∃ q ones, Reads stream sent q ones syms ∧ q + 10 ≤ received ∧
    (fresh = true → p + 8 ≤ q) ∧ (fresh = false → q = p)

/-- One round, whatever is ahead. -/
theorem round_ahead {fresh : Bool} (behind : Behind stream h p received) (ready : Ready h)
    (some : syms ≠ []) (ahead : Ahead stream sent fresh h p syms) :
    ∃ k fresh' syms', Got fresh syms (rxRound h).1 fresh' syms' ∧
      Behind stream (rxRound h).2 (p + k) received ∧
      Ahead stream sent fresh' (rxRound h).2 (p + k) syms' ∧
      ((rxRound h).1 = .empty → fresh = true ∧ (fresh' = false → 8 ≤ k)) ∧
      ((rxRound h).1 ≠ .empty → fresh' = false → Begun stream sent fresh p received syms) := by
  rw [ready_iff behind, rxMinbits] at ready
  cases ahead with
  | hunting q searching before first flag opened =>
    rw [if_pos searching] at ready
    obtain ⟨none, clear, k, next, place⟩ := round_hunting behind searching ready before first flag
    rw [none]
    rcases place with ⟨framed, rfl, rfl⟩ | ⟨still, short⟩
    · rcases opened with reads | rest
      · refine ⟨8, false, syms, .opened syms, next, .framed framed ?_,
          fun _ => ⟨rfl, fun _ => Nat.le_refl 8⟩, fun some => absurd rfl some⟩
        rw [clear]
        exact reads
      · exact ⟨8, true, syms, .none true syms, next, .tripped framed clear rest,
          fun _ => ⟨rfl, fun _ => Nat.le_refl 8⟩, fun some => absurd rfl some⟩
    · refine ⟨k, true, syms, .none true syms, next, .hunting q still short ?_ flag opened,
        fun _ => ⟨rfl, by intro shut; cases shut⟩,
        fun some => absurd rfl some⟩
      intro i low high
      exact first i (by omega) high
  | tripped framed clear rest =>
    rw [if_neg (by omega)] at ready
    obtain ⟨result, state, next⟩ := round_tripped behind framed clear ready rest
    rw [result]
    refine ⟨7, true, syms, .trip syms, next, .hunting (p + 7) state (Nat.le_refl _) ?_ rest.flag
      (Or.inl rest.later), ?_, ?_⟩
    · intro i low high
      omega
    · intro none
      cases none
    · intro _ shut
      cases shut
  | framed framed reads =>
    rw [if_neg (by omega)] at ready
    cases syms with
    | nil => exact absurd rfl some
    | cons s syms =>
      obtain ⟨result, state, k, next, later⟩ := round_symbol behind framed ready reads
      rw [result]
      refine ⟨k, false, syms, .symbol s syms, next, .framed state later, ?_, ?_⟩
      · intro none
        cases s <;> cases none
      · intro _ _
        exact ⟨p, h.ones, reads, by omega, (by intro opened; cases opened), fun _ => rfl⟩

theorem got_empty {fresh fresh' fresh'' : Bool} {syms' syms'' : List Sym} {result : RxResult}
    (first : Got fresh syms .empty fresh' syms') (second : Got fresh' syms' result fresh'' syms'') :
    Got fresh syms result fresh'' syms'' := by
  generalize value : RxResult.empty = none at first
  cases first with
  | none => exact second
  | opened =>
    cases second with
    | none => exact .opened syms
    | symbol s syms'' => exact .later s syms''
  | trip => cases value
  | symbol s => cases s <;> cases value
  | later s => cases s <;> cases value

theorem got_keeps {fresh fresh' : Bool} {syms' : List Sym} (got : Got fresh syms .empty fresh' syms') :
    syms' = syms := by
  generalize value : RxResult.empty = none at got
  cases got with
  | none => rfl
  | opened => rfl
  | trip => cases value
  | symbol s => cases s <;> cases value
  | later s => cases s <;> cases value

theorem loop_ahead {rounds : Nat} {fresh : Bool} {result : RxResult} {h' : State}
    (behind : Behind stream h p received) (some : syms ≠ [])
    (ahead : Ahead stream sent fresh h p syms)
    (run : fasthdlcRxLoop rounds h .empty = Option.some (result, h')) :
    ∃ p' fresh' syms', Got fresh syms result fresh' syms' ∧ Behind stream h' p' received ∧
      Ahead stream sent fresh' h' p' syms' ∧
      (result ≠ .empty → fresh' = false → Begun stream sent fresh p received syms) := by
  induction rounds generalizing h p fresh with
  | zero => cases run
  | succ rounds ih =>
    by_cases ready : Ready h
    · obtain ⟨k, fresh', syms', got, next, further, passed, begun⟩ := round_ahead behind ready some ahead
      rw [rx_loop_round ready] at run
      by_cases none : (rxRound h).1 = .empty
      · rw [none] at run got
        obtain rfl := got_keeps got
        obtain ⟨p', fresh'', syms'', got', shown, last, begun'⟩ := ih next further run
        refine ⟨p', fresh'', syms'', got_empty got got', shown, last, ?_⟩
        intro value open_
        obtain ⟨q, ones, reads, ten, more, same⟩ := begun' value open_
        obtain ⟨rfl, eight⟩ := passed none
        refine ⟨q, ones, reads, ten, ?_, by intro opened; cases opened⟩
        intro _
        cases fresh' with
        | true =>
          have := more rfl
          omega
        | false =>
          have := same rfl
          have := eight rfl
          omega
      · cases rounds with
        | zero => cases run
        | succ rounds =>
          rw [rx_loop_done none] at run
          obtain ⟨rfl, rfl⟩ := Prod.mk.inj (Option.some.inj run)
          exact ⟨p + k, fresh', syms', got, next, further, begun⟩
    · rw [rx_loop_idle ready] at run
      obtain ⟨rfl, rfl⟩ := Prod.mk.inj (Option.some.inj run)
      exact ⟨p, fresh, syms, .none fresh syms, behind, ahead, fun some => absurd rfl some⟩

end Round

section Octets
variable {mode : Mode} {octets : Nat → Octet} {sent : Sent}

/-- One octet received with something ahead. -/
theorem octet_ahead {h : State} {n p : Nat} {fresh : Bool} {syms : List Sym}
    (between : @Between mode octets h n p) (some : syms ≠ [])
    (ahead : Ahead (lineStream mode octets) sent fresh h p syms) :
    ∃ result h' p' fresh' syms',
      fasthdlcRxRun (fasthdlcRxLoadNocheck h (octets n)) = Option.some (result, h') ∧
      @Between mode octets h' (n + 1) p' ∧ Got fresh syms result fresh' syms' ∧
      Ahead (lineStream mode octets) sent fresh' h' p' syms' ∧
      (result ≠ .empty → fresh' = false → ∃ q ones, Reads (lineStream mode octets) sent q ones syms ∧
        q + 10 ≤ minbitsOf mode * (n + 1) ∧ minbitsOf mode * n < q + 10) := by
  obtain ⟨result, h', p', run, next, _⟩ := between_step between
  have same := rx_load_state h (octets n)
  have loaded : Ahead (lineStream mode octets) sent fresh (fasthdlcRxLoadNocheck h (octets n)) p syms := by
    rw [same]
    cases ahead with
    | hunting q searching before first flag opened =>
      exact .hunting q searching before first flag opened
    | tripped framed clear rest => exact .tripped framed clear rest
    | framed framed reads => exact .framed framed reads
  obtain ⟨p'', fresh', syms', got, shown, further, begun⟩ :=
    loop_ahead (between_load between) some loaded run
  have place : p'' = p' := by
    have first := behind_bits shown
    have second := behind_bits next.behind
    have := shown.inside
    have := next.behind.inside
    omega
  rw [place] at further
  refine ⟨result, h', p', fresh', syms', run, next, got, further, ?_⟩
  intro value open_
  obtain ⟨q, ones, reads, ten, more, same⟩ := begun value open_
  obtain ⟨most, less⟩ := between.light
  have inside := between.behind.inside
  refine ⟨q, ones, reads, ten, ?_⟩
  cases ahead with
  | hunting => have := more rfl; omega
  | tripped => have := more rfl; omega
  | framed framed reads' =>
    have := same rfl
    have := less framed
    omega

/-- Two bits behind the last symbol are enough for all of them to be decoded. -/
theorem ahead_finished {h : State} {n p : Nat} {fresh : Bool} {syms : List Sym}
    (between : @Between mode octets h n p)
    (ahead : Ahead (lineStream mode octets) sent fresh h p syms) (two : fresh = true → 1 < syms.length)
    (late : sent.last + 2 ≤ minbitsOf mode * n) : syms = [] := by
  obtain ⟨most, light⟩ := between.light
  have inside := between.behind.inside
  have wide (ones : Nat) (below : ones < 5) (syms : List Sym) :
      8 * syms.length ≤ (wire ones syms).length := by
    induction syms generalizing ones with
    | nil => exact Nat.zero_le _
    | cons s syms ih =>
      have rest := ih (symOnes ones s) (sym_ones_below below s)
      have front := (sym_bits_length below s).1
      simp only [wire, List.length_cons, List.length_append]
      omega
  cases ahead with
  | hunting q searching before first flag opened =>
    have more := two rfl
    have size := wide 0 (by omega) syms
    have last : q + 8 + (wire 0 syms).length ≤ sent.last := by
      rcases opened with reads | rest
      · exact Nat.le_of_eq (reads_bits reads).2
      · have := (reads_bits rest.later).2
        omega
    omega
  | tripped framed clear rest =>
    have more := two rfl
    have size := wide 0 (by omega) syms
    have last := (reads_bits rest.later).2
    omega
  | framed framed reads =>
    have size := wide h.ones between.behind.ones syms
    have last := (reads_bits reads).2
    have few := light framed
    cases syms with
    | nil => rfl
    | cons s syms =>
      rw [List.length_cons] at size
      omega

end Octets

end FasthdlcResync
