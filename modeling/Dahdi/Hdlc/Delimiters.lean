import Dahdi.Hdlc.ReceiverRounds

/-!
Delimiters inside a frame. The receiver takes the bit after five ones with the
octet they end and does not look at it; where that bit is a one, the delimiter
it belongs to goes unnoticed.
-/
namespace FasthdlcDelimiters
open OnesRun Fasthdlc FasthdlcLink FasthdlcEntries FasthdlcRounds

/-- A flag or an abort in the bits from d to e. -/
inductive Delimiter (stream : Nat → Bool) : Nat → Nat → Prop where
  | flag (d : Nat) (front : stream d = false) (ones : ∀ i, i < 6 → stream (d + 1 + i) = true)
      (back : stream (d + 7) = false) : Delimiter stream d (d + 8)
  | abort (d e : Nat) (long : d + 7 ≤ e) (ones : ∀ i, d ≤ i → i < e → stream i = true) :
      Delimiter stream d e

/-- Bit r is where the frame read from bit zero has an octet boundary, and o ones
    are carried over it. -/
inductive FrameAt (bits : Nat → Bool) (carried : Nat) : Nat → Nat → Prop where
  | start : FrameAt bits carried 0 carried
  | short {r o j : Nat} (before : FrameAt bits carried r o) (ended : OctetEnd (from_ bits r) o j)
      (few : run (from_ bits r) o j < 5) : FrameAt bits carried (r + j) (run (from_ bits r) o j)
  | full {r o j : Nat} (before : FrameAt bits carried r o) (ended : OctetEnd (from_ bits r) o j)
      (five : run (from_ bits r) o j = 5) : FrameAt bits carried (r + j + 1) 0

/-- The octet at bit r ends in five ones and another one follows. -/
structure Crossed (bits : Nat → Bool) (r o j : Nat) : Prop where
  ended : OctetEnd (from_ bits r) o j
  five : run (from_ bits r) o j = 5
  bit : bits (r + j) = true

/-- After an octet that ends in five ones and is followed by another one there is
    no other whole octet. -/
def Settled (bits : Nat → Bool) (carried : Nat) : Prop :=
  ∀ r o j, FrameAt bits carried r o → Crossed bits r o j →
    ∀ i, ¬ OctetEnd (from_ bits (r + j + 1)) 0 i

section Frame
variable {bits : Nat → Bool} {carried r o j d e : Nat}

theorem frame_below (below : carried < 5) (frame : FrameAt bits carried r o) : o < 5 := by
  cases frame with
  | start => exact below
  | short before ended few => exact few
  | full before ended five => exact Nat.zero_lt_succ 4

/-- Up to a boundary the ones are counted as they are in the stream, or else no
    octet follows. -/
theorem frame_counted (below : carried < 5) (settled : Settled bits carried)
    (frame : FrameAt bits carried r o) :
    (Quiet 5 bits carried r ∧ run bits carried r = o) ∨ ∀ i, ¬ OctetEnd (from_ bits r) o i := by
  induction frame with
  | start => exact Or.inl ⟨quiet_zero (by omega), rfl⟩
  | short before ended few ih =>
    rename_i r o j
    rcases ih with ⟨quiet, counted⟩ | none
    · subst counted
      exact Or.inl ⟨quiet_append quiet ended.quiet, (run_from r j).symm⟩
    · exact absurd ended (none j)
  | full before ended five ih =>
    rename_i r o j
    rcases ih with ⟨quiet, counted⟩ | none
    · cases bit : bits (r + j) with
      | true => exact Or.inr (settled r o j before ⟨ended, five, bit⟩)
      | false =>
        subst counted
        have zeroed : run bits carried (r + j + 1) = 0 := run_zero bit
        exact Or.inl ⟨quiet_succ (quiet_append quiet ended.quiet) (by omega), zeroed⟩
    · exact absurd ended (none j)

/-- A delimiter has six ones before its last bit. -/
theorem delimiter_ones (delimiter : Delimiter bits d e) :
    ∃ p, d ≤ p ∧ p + 6 < e ∧ ∀ i, i < 6 → bits (p + i) = true := by
  cases delimiter with
  | flag front ones back => exact ⟨d + 1, by omega, by omega, ones⟩
  | abort e long ones => exact ⟨d, Nat.le_refl d, by omega, by intro i early; exact ones _ (by omega) (by omega)⟩

/-- In a settled frame no octet reaches past a delimiter. -/
theorem octet_before_delimiter (below : carried < 5) (settled : Settled bits carried)
    (frame : FrameAt bits carried r o) (ended : OctetEnd (from_ bits r) o j)
    (delimiter : Delimiter bits d e) : r + j < e := by
  rcases frame_counted below settled frame with ⟨quiet, counted⟩ | none
  · obtain ⟨p, _, inside, ones⟩ := delimiter_ones delimiter
    subst counted
    by_contra past
    exact not_quiet_of_ones ones (Nat.lt_succ_self 5) (by omega) (quiet_append quiet ended.quiet)
  · exact absurd ended (none j)

theorem boundary_before_delimiter (below : carried < 5) (settled : Settled bits carried)
    (frame : FrameAt bits carried r o) (delimiter : Delimiter bits d e) : r ≤ e := by
  cases frame with
  | start => exact Nat.zero_le e
  | short before ended few =>
    exact Nat.le_of_lt (octet_before_delimiter below settled before ended delimiter)
  | full before ended five => exact octet_before_delimiter below settled before ended delimiter

/-- Where the bit taken with an octet is a one, a delimiter ends with the bit
    after it. -/
theorem crossed_delimiter (below : o < 5) (crossed : Crossed bits r o j) :
    ∃ d, r ≤ d ∧ Delimiter bits d (r + j + 2) := by
  obtain ⟨least, _⟩ := octet_end_bounds below crossed.ended
  obtain ⟨front, ones⟩ := ones_of_run crossed.five (by omega)
  have six (i : Nat) (inside : i < 6) : bits (r + j - 5 + i) = true := by
    by_cases last : i = 5
    · rw [last, show r + j - 5 + 5 = r + j by omega]
      exact crossed.bit
    · have one := ones i (by omega)
      rwa [from_, show r + (j - 5 + i) = r + j - 5 + i by omega] at one
  rw [from_, show r + (j - 5 - 1) = r + j - 6 by omega] at front
  cases next : bits (r + j + 1) with
  | false =>
    refine ⟨r + j - 6, by omega, ?_⟩
    have flag := Delimiter.flag (r + j - 6) front
      (by rw [show r + j - 6 + 1 = r + j - 5 by omega]; exact six)
      (by rw [show r + j - 6 + 7 = r + j + 1 by omega]; exact next)
    rwa [show r + j - 6 + 8 = r + j + 2 by omega] at flag
  | true =>
    refine ⟨r + j - 5, by omega, .abort _ _ (by omega) ?_⟩
    intro i low high
    by_cases last : i = r + j + 1
    · rw [last]
      exact next
    · have one := six (i - (r + j - 5)) (by omega)
      rwa [show r + j - 5 + (i - (r + j - 5)) = i by omega] at one

theorem delimiter_from {p : Nat} (delimiter : Delimiter bits d e) (after : p ≤ d) :
    Delimiter (from_ bits p) (d - p) (e - p) := by
  cases delimiter with
  | flag front ones back =>
    rw [show d + 8 - p = d - p + 8 by omega]
    refine .flag _ ?_ ?_ ?_
    · rw [from_, show p + (d - p) = d by omega]
      exact front
    · intro i inside
      rw [from_, show p + (d - p + 1 + i) = d + 1 + i by omega]
      exact ones i inside
    · rw [from_, show p + (d - p + 7) = d + 7 by omega]
      exact back
  | abort e long ones =>
    refine .abort _ _ (by omega) ?_
    intro i low high
    exact ones (p + i) (by omega) (by omega)

theorem delimiter_to {p : Nat} (delimiter : Delimiter (from_ bits p) d e) :
    Delimiter bits (p + d) (p + e) := by
  cases delimiter with
  | flag front ones back =>
    refine .flag (p + d) front ?_ back
    intro i inside
    rw [show p + d + 1 + i = p + (d + 1 + i) by omega]
    exact ones i inside
  | abort e long ones =>
    refine .abort _ _ (by omega) ?_
    intro i low high
    have one := ones (i - p) (by omega) (by omega)
    rwa [from_, show p + (i - p) = i by omega] at one

end Frame

section Stream
variable {mode : Mode} {octets : Nat → Octet}

/-- Line bits taken by the receiver in the first n runs. -/
def position (mode : Mode) (octets : Nat → Octet) (n : Nat) : Nat :=
  match received mode octets n with
  | none => 0
  | some h => minbitsOf mode * n - h.bits.toNat

def Ended (result : Option RxResult) : Prop := result = some .complete ∨ result = some .discard

/-- After run n every delimiter that lies before the receiver is reported before
    an octet with bits behind it is returned. -/
def Delimits (mode : Mode) (octets : Nat → Octet) (n : Nat) : Prop :=
  ∀ d e, Delimiter (lineStream mode octets) d e → position mode octets n ≤ d →
    ∃ k, n ≤ k ∧ Ended (returned mode octets k) ∧
      ∀ i c, n ≤ i → i < k → returned mode octets i = some (.data c) →
        position mode octets (i + 1) ≤ e

/-- The receiver after n runs, inside a frame at bit p. -/
structure InFrame (n p : Nat) (h : State) : Prop where
  reached : received mode octets n = some h
  between : @Between mode octets h n p
  framed : h.state = 1

theorem position_between {h : State} {n p : Nat} (reached : received mode octets n = some h)
    (between : @Between mode octets h n p) : position mode octets n = p := by
  have count := behind_bits between.behind
  have inside := between.behind.inside
  simp only [position, reached]
  omega

/-- One octet and one run inside a frame. -/
theorem in_frame_step {n p : Nat} {h : State} (inside : @InFrame mode octets n p h) :
    ∃ result h' p', received mode octets (n + 1) = some h' ∧
      returned mode octets n = some result ∧ @Between mode octets h' (n + 1) p' ∧
      (result = .empty ∧ p' = p ∧ h'.state = 1 ∧ h'.ones = h.ones ∧
          minbitsOf mode * (n + 1) - p < 10 ∨
        10 ≤ minbitsOf mode * (n + 1) - p ∧ ∃ k, p' = p + k ∧
          FrameRead (lineStream mode octets) p h.ones result k h'.state h'.ones) := by
  have loaded := between_load inside.between
  have light := inside.between.light.2 inside.framed
  have width := minbits_bounds mode
  have size : minbitsOf mode * (n + 1) = minbitsOf mode * n + minbitsOf mode := Nat.mul_succ _ _
  have same := rx_load_state h (octets n)
  have framed : (fasthdlcRxLoadNocheck h (octets n)).state = 1 := by
    rw [same]
    exact inside.framed
  have ones : (fasthdlcRxLoadNocheck h (octets n)).ones = h.ones := by rw [same]
  obtain ⟨result, h', p', run, next, _⟩ := between_step inside.between
  have reached : received mode octets (n + 1) = some h' := by
    simp only [received, inside.reached, Option.bind_some, run, Option.map_some]
  have value : returned mode octets n = some result := by
    simp only [returned, inside.reached, Option.bind_some, run, Option.map_some]
  refine ⟨result, h', p', reached, value, next, ?_⟩
  have ready := ready_iff loaded
  rw [rxMinbits, if_neg (by omega)] at ready
  rw [fasthdlcRxRun] at run
  by_cases enough : 10 ≤ minbitsOf mode * (n + 1) - p
  · obtain ⟨result', k, state, ones', read, _, value', taken, after, counted, mode'⟩ :=
      round_frame loaded framed enough
    have bounds := frame_read_bounds loaded.ones read
    rw [rx_loop_round (ready.mpr enough), value', rx_loop_done bounds.2.2.2.2] at run
    obtain ⟨rfl, rfl⟩ := Prod.mk.inj (Option.some.inj run)
    refine Or.inr ⟨enough, k, ?_, ?_⟩
    · have count := behind_bits next.behind
      have taken' := behind_bits taken
      have := next.behind.inside
      have := taken.inside
      omega
    · rw [after, counted, ← ones]
      exact read
  · rw [rx_loop_idle (by rw [ready]; exact enough)] at run
    obtain ⟨rfl, rfl⟩ := Prod.mk.inj (Option.some.inj run)
    refine Or.inl ⟨rfl, ?_, framed, ones, by omega⟩
    have count := behind_bits next.behind
    have loaded' := behind_bits loaded
    have := next.behind.inside
    have := loaded.inside
    omega

theorem in_frame_between {n : Nat} {h : State} (reached : received mode octets n = some h)
    (framed : h.state = 1) : @InFrame mode octets n (position mode octets n) h := by
  obtain ⟨h', p, reached', between⟩ := @received_between mode octets n
  obtain rfl : h = h' := Option.some.inj (reached.symm.trans reached')
  rw [position_between reached between]
  exact ⟨reached, between, framed⟩

/-- Inside a frame whose boundaries from bit `start` on carry the ones counted. -/
def Boundary (start : Nat) (carried p ones : Nat) : Prop :=
  start ≤ p ∧ FrameAt (from_ (lineStream mode octets) start) carried (p - start) ones

theorem boundary_read {start carried p ones k state ones' : Nat} {result : RxResult}
    (boundary : @Boundary mode octets start carried p ones)
    (read : FrameRead (lineStream mode octets) p ones result k state ones')
    (open_ : ¬ Ended (some result)) :
    state = 1 ∧ @Boundary mode octets start carried (p + k) ones' := by
  obtain ⟨after, frame⟩ := boundary
  have same : from_ (from_ (lineStream mode octets) start) (p - start) =
      from_ (lineStream mode octets) p := by
    rw [from_from, show start + (p - start) = p by omega]
  cases read with
  | octet j c ended few =>
    rw [← same] at ended few ⊢
    refine ⟨rfl, by omega, ?_⟩
    rw [show p + k - start = p - start + k by omega]
    exact .short frame ended few
  | full j c ended five =>
    rw [← same] at ended five
    refine ⟨rfl, by omega, ?_⟩
    rw [show p + (j + 1) - start = p - start + j + 1 by omega]
    exact .full frame ended five
  | complete j sixth quiet last => exact absurd (Or.inl rfl) open_
  | abort j sixth quiet other => exact absurd (Or.inr rfl) open_

/-- Until a delimiter is reported the runs stop at the boundaries of the frame. -/
theorem boundaries_followed {n : Nat} {h : State} (reached : received mode octets n = some h)
    (framed : h.state = 1) (m : Nat)
    (open_ : ∀ i, n ≤ i → i < n + m → ¬ Ended (returned mode octets i)) :
    ∃ p g, @InFrame mode octets (n + m) p g ∧
      @Boundary mode octets (position mode octets n) h.ones p g.ones := by
  induction m with
  | zero =>
    refine ⟨_, h, in_frame_between reached framed, Nat.le_refl _, ?_⟩
    rw [Nat.add_zero, Nat.sub_self]
    exact .start
  | succ m ih =>
    obtain ⟨p, g, inside, boundary⟩ := ih (by intro i low high; exact open_ i low (by omega))
    obtain ⟨result, h', p', next, value, between, kind⟩ := in_frame_step inside
    have still := open_ (n + m) (by omega) (by omega)
    rw [value] at still
    rcases kind with ⟨_, rfl, state, ones, _⟩ | ⟨_, k, rfl, read⟩
    · refine ⟨p', h', ⟨next, between, state⟩, ?_⟩
      rw [ones]
      exact boundary
    · obtain ⟨state, further⟩ := boundary_read boundary read still
      exact ⟨p + k, h', ⟨next, between, state⟩, further⟩

/-- In a settled frame the first report comes before any octet behind the delimiter. -/
theorem delimits_of_settled {n : Nat} {h : State} (reached : received mode octets n = some h)
    (framed : h.state = 1)
    (settled : Settled (from_ (lineStream mode octets) (position mode octets n)) h.ones) :
    Delimits mode octets n := by
  intro d e delimiter after
  have below := (in_frame_between reached framed).between.behind.ones
  have width := minbits_bounds mode
  have relative := delimiter_from delimiter after
  have reach {i p : Nat} {g : State} (boundary : @Boundary mode octets (position mode octets n)
      h.ones p g.ones) : p ≤ e := by
    have bound := boundary_before_delimiter below settled boundary.2 relative
    have later : d + 7 ≤ e := by cases delimiter <;> omega
    have := boundary.1
    omega
  have found : ∃ k, n ≤ k ∧ Ended (returned mode octets k) := by
    by_contra none
    have open_ (i : Nat) (low : n ≤ i) : ¬ Ended (returned mode octets i) := by
      intro ended
      exact none ⟨i, low, ended⟩
    obtain ⟨p, g, inside, boundary⟩ :=
      boundaries_followed reached framed (e + 10) (by intro i low _; exact open_ i low)
    have bound := @reach 0 p g boundary
    have light := inside.between.light.2 inside.framed
    have grown : 2 * (n + (e + 10)) ≤ minbitsOf mode * (n + (e + 10)) :=
      Nat.mul_le_mul_right _ width.1
    omega
  classical
  refine ⟨Nat.find found, (Nat.find_spec found).1, (Nat.find_spec found).2, ?_⟩
  intro i c low early value
  have open_ (l : Nat) (low : n ≤ l) (before : l < Nat.find found) :
      ¬ Ended (returned mode octets l) := by
    intro ended
    exact Nat.find_min found before ⟨low, ended⟩
  obtain ⟨p, g, inside, boundary⟩ := boundaries_followed reached framed (i + 1 - n)
    (by intro l low' high; exact open_ l low' (by omega))
  rw [show n + (i + 1 - n) = i + 1 by omega] at inside
  rw [position_between inside.reached inside.between]
  exact @reach 0 p g boundary

/-- A frame waits until ten bits are there. -/
theorem in_frame_waits {n p : Nat} {h : State} (inside : @InFrame mode octets n p h) :
    ∃ m g, @InFrame mode octets (n + m) p g ∧ g.ones = h.ones ∧
      10 ≤ minbitsOf mode * (n + m + 1) - p ∧
      ∀ i, n ≤ i → i < n + m → ¬ Ended (returned mode octets i) := by
  have width := minbits_bounds mode
  obtain ⟨need, lack⟩ : ∃ need, 10 - (minbitsOf mode * (n + 1) - p) ≤ need := ⟨_, Nat.le_refl _⟩
  induction need generalizing n h with
  | zero => exact ⟨0, h, inside, rfl, by rw [Nat.add_zero]; omega, by intro i low high; omega⟩
  | succ need ih =>
    by_cases enough : 10 ≤ minbitsOf mode * (n + 1) - p
    · exact ⟨0, h, inside, rfl, enough, by intro i low high; omega⟩
    · obtain ⟨result, h', p', next, value, between, kind⟩ := in_frame_step inside
      rcases kind with ⟨none, rfl, state, ones, _⟩ | ⟨full, _⟩
      · have size : minbitsOf mode * (n + 1 + 1) = minbitsOf mode * (n + 1) + minbitsOf mode :=
          Nat.mul_succ _ _
        have held := inside.between.behind.inside
        have size' : minbitsOf mode * (n + 1) = minbitsOf mode * n + minbitsOf mode := Nat.mul_succ _ _
        obtain ⟨m, g, later, same, room, open_⟩ := ih ⟨next, between, state⟩ (by omega)
        rw [show n + 1 + m = n + (m + 1) by omega] at later room open_
        refine ⟨m + 1, g, later, same.trans ones, room, ?_⟩
        intro i low high
        by_cases first : i = n
        · rw [first, value, none, Ended]
          simp
        · exact open_ i (by omega) high
      · exact absurd full enough

/-- An octet at the receiver's position is returned without a report before it. -/
theorem octet_returned {n p j : Nat} {h : State} (inside : @InFrame mode octets n p h)
    (ended : OctetEnd (from_ (lineStream mode octets) p) h.ones j) :
    ∃ m c g k, returned mode octets (n + m) = some (.data c) ∧
      @InFrame mode octets (n + m + 1) (p + k) g ∧
      FrameRead (lineStream mode octets) p h.ones (.data c) k 1 g.ones ∧
      ∀ i, n ≤ i → i < n + m + 1 → ¬ Ended (returned mode octets i) := by
  obtain ⟨m, g, waiting, ones, room, open_⟩ := in_frame_waits inside
  obtain ⟨result, h', p', next, value, between, kind⟩ := in_frame_step waiting
  rcases kind with ⟨_, _, _, _, short⟩ | ⟨_, k, rfl, read⟩
  · omega
  · rw [ones] at read
    have closed (result : Option RxResult) (ended : Ended result) (c : Octet)
        (data : result = some (.data c)) : False := by
      rw [data] at ended
      rcases ended with same | same <;> cases same
    have further (c : Octet) (same : result = .data c) (state : h'.state = 1)
        (read : FrameRead (lineStream mode octets) p h.ones (.data c) k 1 h'.ones) :
        ∃ m c g k, returned mode octets (n + m) = some (.data c) ∧
          @InFrame mode octets (n + m + 1) (p + k) g ∧
          FrameRead (lineStream mode octets) p h.ones (.data c) k 1 g.ones ∧
          ∀ i, n ≤ i → i < n + m + 1 → ¬ Ended (returned mode octets i) := by
      rw [same] at value
      refine ⟨m, c, h', k, value, ⟨next, between, state⟩, read, ?_⟩
      intro i low high
      by_cases last : i = n + m
      · intro report
        exact closed _ report c (by rw [last, value])
      · exact open_ i low (by omega)
    generalize after : h'.state = state at read
    generalize counted : h'.ones = ones' at read
    cases read with
    | octet j' c first few => exact further c rfl after (by rw [counted]; exact .octet k c first few)
    | full j' c first five => exact further c rfl after (by rw [counted]; exact .full j' c first five)
    | complete j' sixth quiet last => exact (octet_end_not_sixth ended sixth).elim
    | abort j' sixth quiet other => exact (octet_end_not_sixth ended sixth).elim

theorem read_octet_end {p ones j k ones' : Nat} {c : Octet} {stream : Nat → Bool}
    (ended : OctetEnd (from_ stream p) ones j)
    (read : FrameRead stream p ones (.data c) k 1 ones') :
    (run (from_ stream p) ones j < 5 → k = j ∧ ones' = run (from_ stream p) ones j) ∧
      (run (from_ stream p) ones j = 5 → k = j + 1 ∧ ones' = 0) := by
  cases read with
  | octet j' c first few =>
    obtain rfl := octet_end_unique ended first
    exact ⟨by intro _; exact ⟨rfl, rfl⟩, by intro five; omega⟩
  | full j' c first five =>
    obtain rfl := octet_end_unique ended first
    exact ⟨by intro few; omega, by intro _; exact ⟨rfl, rfl⟩⟩

/-- Reached from run n without a report on the way. -/
def Unreported (mode : Mode) (octets : Nat → Octet) (n p o : Nat) : Prop :=
  ∃ m g, @InFrame mode octets (n + m) p g ∧ g.ones = o ∧
    ∀ i, n ≤ i → i < n + m → ¬ Ended (returned mode octets i)

theorem unreported_next {n p o j : Nat} (here : Unreported mode octets n p o)
    (ended : OctetEnd (from_ (lineStream mode octets) p) o j) :
    ∃ k ones', Unreported mode octets n (p + k) ones' ∧
      (run (from_ (lineStream mode octets) p) o j < 5 →
        k = j ∧ ones' = run (from_ (lineStream mode octets) p) o j) ∧
      (run (from_ (lineStream mode octets) p) o j = 5 → k = j + 1 ∧ ones' = 0) := by
  obtain ⟨m, g, inside, rfl, open_⟩ := here
  obtain ⟨l, c, g', k, _, next, read, open'⟩ := octet_returned inside ended
  refine ⟨k, g'.ones, ⟨m + l + 1, g', ?_, rfl, ?_⟩, read_octet_end ended read⟩
  · rw [show n + (m + l + 1) = n + m + l + 1 by omega]
    exact next
  · intro i low high
    by_cases early : i < n + m
    · exact open_ i low early
    · exact open' i (by omega) (by omega)

/-- The receiver stops at every boundary of the frame. -/
theorem boundary_reached {n r o : Nat} {h : State} (reached : received mode octets n = some h)
    (framed : h.state = 1)
    (frame : FrameAt (from_ (lineStream mode octets) (position mode octets n)) h.ones r o) :
    Unreported mode octets n (position mode octets n + r) o := by
  induction frame with
  | start =>
    exact ⟨0, h, in_frame_between reached framed, rfl, by intro i low high; omega⟩
  | short before ended few ih =>
    rw [from_from] at ended few
    obtain ⟨k, ones', next, short, _⟩ := unreported_next ih ended
    obtain ⟨rfl, rfl⟩ := short few
    rw [Nat.add_assoc] at next
    rw [from_from]
    exact next
  | full before ended five ih =>
    rw [from_from] at ended five
    obtain ⟨k, ones', next, _, full⟩ := unreported_next ih ended
    obtain ⟨rfl, rfl⟩ := full five
    rw [Nat.add_assoc] at next
    exact next

/-- An octet read across a delimiter is returned before any report. -/
theorem settled_of_delimits {n : Nat} {h : State} (reached : received mode octets n = some h)
    (framed : h.state = 1) (delimits : Delimits mode octets n) :
    Settled (from_ (lineStream mode octets) (position mode octets n)) h.ones := by
  intro r o j frame crossed i ended
  have below := (in_frame_between reached framed).between.behind.ones
  obtain ⟨d, after, delimiter⟩ := crossed_delimiter (frame_below below frame) crossed
  obtain ⟨m, g, inside, counted, open_⟩ :=
    boundary_reached reached framed (.full frame crossed.ended crossed.five)
  rw [from_from, ← counted] at ended
  obtain ⟨l, c, g', k, value, next, read, open'⟩ := octet_returned inside ended
  have bounds := frame_read_bounds inside.between.behind.ones read
  obtain ⟨report, late, reported, data⟩ := delimits _ _ (delimiter_to delimiter) (by omega)
  have past : n + m + l < report := by
    by_contra early
    by_cases first : report < n + m
    · exact open_ report late first reported
    · exact open' report (by omega) (by omega) reported
  have behind := data (n + m + l) c (by omega) past value
  rw [position_between next.reached next.between] at behind
  omega

end Stream

/-- Every delimiter before a receiver in a frame is reported in time exactly when no
    octet of the frame that ends in five ones and is followed by another one has a
    whole octet behind it. -/
theorem delimits_iff (mode : Mode) (octets : Nat → Octet) (n : Nat) (h : State)
    (reached : received mode octets n = some h) (framed : h.state = processFrame) :
    Delimits mode octets n ↔
      Settled (from_ (lineStream mode octets) (position mode octets n)) h.ones :=
  ⟨settled_of_delimits reached framed, delimits_of_settled reached framed⟩

/-- A flag, an octet that ends in five ones, and the rest of the flag that these are
    part of. -/
def crossedFlag (n : Nat) : Octet := [0x7e#8, 0x1f#8, 0x80#8].getD n 0

theorem delimits_iff_crossed_flag :
    Delimits .mode64 crossedFlag 1 ↔ Settled (from_ (lineStream .mode64 crossedFlag) 8) 0 :=
  delimits_iff .mode64 crossedFlag 1
    { state := 1, data := 0, bits := 0, ones := 0, mode := .mode64, minbits := 8 }
    (by decide +kernel) (by decide)

/-- The two octets after the opening flag are returned across the flag. -/
theorem flag_crossed :
    ¬ ∀ (mode : Mode) (octets : Nat → Octet) (n : Nat) (h : State),
      received mode octets n = some h → h.state = processFrame → Delimits mode octets n := by
  intro every
  have delimits := every .mode64 crossedFlag 1
    { state := 1, data := 0, bits := 0, ones := 0, mode := .mode64, minbits := 8 }
    (by decide +kernel) (by decide)
  have flag : Delimiter (lineStream .mode64 crossedFlag) 10 18 :=
    .flag 10 (by decide) (by decide) (by decide)
  obtain ⟨report, late, reported, data⟩ := delimits 10 18 flag (by decide +kernel)
  have third : returned .mode64 crossedFlag 3 = some (.data 0) := by decide +kernel
  have past : 3 < report := by
    by_contra early
    have quiet : ∀ i, 1 ≤ i → i < 4 → ¬ (returned .mode64 crossedFlag i = some .complete ∨
        returned .mode64 crossedFlag i = some .discard) := by
      intro i low high
      interval_cases i <;> decide +kernel
    exact quiet report late (by omega) reported
  have behind := data 3 0 (by omega) past third
  revert behind
  decide +kernel

end FasthdlcDelimiters
