import Dahdi.Xpp.PcmTrip

/-!
The packet of a PRI card, whose lines are shifted to the channels of the wire: E1
leaves out channel 0, T1 every fourth channel. The D-channel's chunks change beside.
-/
namespace PcmTrip
open Xpp LineMask PackedSlots PcmLength

section Wire

/-- The channel of the wire that carries line i. -/
def wire (proto : PriProtocol) (i : Nat) : Nat :=
  match proto with
  | .e1 => i + 1
  | .t1 => i + i / 3 + 1
  | _ => i

/-- The channel of the wire at which the writer stands before line n. -/
def wireNext (proto : PriProtocol) (n : Nat) : Nat :=
  match proto with
  | .e1 => if n = 0 then 0 else n + 1
  | .t1 => n + (n + 2) / 3
  | _ => n

def Framed (proto : PriProtocol) : Prop := proto = .e1 ∨ proto = .t1

variable {proto : PriProtocol}

theorem wire_next (proto : PriProtocol) (n : Nat) : wireNext proto n + unusedBefore proto n = wire proto n := by
  cases proto with
  | e1 =>
    unfold wireNext unusedBefore wire
    dsimp only
    split <;> omega
  | t1 =>
    unfold wireNext unusedBefore wire
    dsimp only
    split <;> omega
  | none => rfl
  | j1 => rfl

theorem wire_next_succ (proto : PriProtocol) (n : Nat) : wireNext proto (n + 1) = wire proto n + 1 := by
  cases proto with
  | e1 => rfl
  | t1 =>
    unfold wireNext wire
    dsimp only
    omega
  | none => rfl
  | j1 => rfl

theorem wire_lt {i j : Nat} (before : i < j) : wire proto i < wire proto j := by
  unfold wire
  cases proto <;> dsimp only <;> omega

theorem wire_small (framed : Framed proto) {i : Nat} (inside : i < priNumChannels proto) : wire proto i < 32 := by
  rcases framed with rfl | rfl
  · unfold wire priNumChannels at *
    dsimp only at *
    omega
  · unfold wire priNumChannels at *
    dsimp only at *
    omega

def used (proto : PriProtocol) (i : Nat) : Bool := !unused proto i

/-- The reader's line is the one that the wire carries here. -/
theorem wire_used (framed : Framed proto) {m : Nat} (inside : m < 32) (carried : used proto m = true) :
    rank (used proto) m < priNumChannels proto ∧ wire proto (rank (used proto) m) = m := by
  have all : ∀ proto, (proto = PriProtocol.e1 ∨ proto = PriProtocol.t1) → ∀ m < 32, used proto m = true →
      rank (used proto) m < priNumChannels proto ∧ wire proto (rank (used proto) m) = m := by
    rintro proto (rfl | rfl)
    · decide +kernel
    · decide +kernel
  exact all proto framed m inside carried

theorem used_all (framed : Framed proto) : rank (used proto) 32 = priNumChannels proto := by
  rcases framed with rfl | rfl
  · decide +kernel
  · decide +kernel

end Wire

section Dchannel
variable {x : PriXpd}

/-- What the watching of the D-channel leaves as it is. -/
structure DchanKept (x x' : PriXpd) : Prop where
  proto : x'.priProtocol = x.priProtocol
  number : x'.dchanNum = x.dchanNum
  channels : x'.xpd.channels = x.xpd.channels
  registered : x'.xpd.registered = x.xpd.registered
  chans : ∀ j, j ≠ x.dchanIdx → x'.xpd.chans j = x.xpd.chans j

theorem dchan_stop_kept (x : PriXpd) : DchanKept x (dchanStop x) := by
  unfold dchanStop
  dsimp only
  split
  · exact ⟨rfl, rfl, rfl, rfl, fun _ _ => rfl⟩
  · split
    · exact ⟨rfl, rfl, rfl, rfl, fun j other => set_chan_other other _⟩
    · exact ⟨rfl, rfl, rfl, rfl, fun _ _ => rfl⟩

theorem dchan_sent_kept (x : PriXpd) : DchanKept x (dchanSent x) := by
  unfold dchanSent
  dsimp only
  split
  · exact ⟨rfl, rfl, rfl, rfl, fun _ _ => rfl⟩
  · split
    · exact dchan_stop_kept x
    · exact ⟨rfl, rfl, rfl, rfl, fun j other => set_chan_other other _⟩

theorem dchan_taken_kept (x : PriXpd) (sample : BitVec 8) : DchanKept x (dchanTaken x sample) := by
  unfold dchanTaken
  split
  · exact ⟨rfl, rfl, rfl, rfl, fun _ _ => rfl⟩
  · split
    · exact dchan_stop_kept x
    · exact ⟨rfl, rfl, rfl, rfl, fun _ _ => rfl⟩

end Dchannel

section Writer
variable {x : PriXpd}

def priSlot (x : PriXpd) (i : Nat) : Chunk := (x.xpd.chans i).writechunk

/-- What the writer's loop has done to the first n lines. -/
structure PriWritten (x : PriXpd) (n : Nat) (sent : PriSent) : Prop where
  proto : sent.x.priProtocol = x.priProtocol
  number : sent.x.dchanNum = x.dchanNum
  channels : sent.x.xpd.channels = x.xpd.channels
  registered : sent.x.xpd.registered = true
  ahead : ∀ j, n ≤ j → sent.x.xpd.chans j = x.xpd.chans j
  pcm : sent.pcm = packed x.xpd.wantedPcmMask.getLsbD (priSlot x) n
  physical : sent.physicalChan = wireNext x.priProtocol n
  lines : ∀ i < priNumChannels x.priProtocol,
    sent.physicalMask.getLsbD (wire x.priProtocol i) = (decide (i < n) && x.xpd.wantedPcmMask.getLsbD i)

theorem pri_written_step (framed : Framed x.priProtocol) {n : Nat} {sent : PriSent} (xlawZero : BitVec 8)
    (small : n < priNumChannels x.priProtocol) (before : PriWritten x n sent) :
    PriWritten x (n + 1) (priSendLine xlawZero x.xpd.wantedPcmMask sent n) := by
  have wired := wire_small framed small
  have here : sent.physicalChan + unusedBefore sent.x.priProtocol n = wire x.priProtocol n := by
    rw [before.physical, before.proto, wire_next]
  have index : sent.x.dchanIdx = x.dchanIdx := by
    unfold PriXpd.dchanIdx
    rw [before.number]
  unfold priSendLine
  dsimp only
  rw [here, before.registered]
  split <;> rename_i wanted
  · have kept : DchanKept sent.x (if true = true ∧ n = sent.x.dchanIdx then dchanSent sent.x else sent.x) ∧
        ∀ j, n < j → (if true = true ∧ n = sent.x.dchanIdx then dchanSent sent.x else sent.x).xpd.chans j =
          sent.x.xpd.chans j := by
      split <;> rename_i dchan
      · have kept := dchan_sent_kept sent.x
        exact ⟨kept, fun j later => kept.chans j (by omega)⟩
      · exact ⟨⟨rfl, rfl, rfl, rfl, fun _ _ => rfl⟩, fun _ _ => rfl⟩
    constructor
    · exact kept.1.proto.trans before.proto
    · exact kept.1.number.trans before.number
    · exact kept.1.channels.trans before.channels
    · exact kept.1.registered.trans before.registered
    · intro j later
      exact (kept.2 j (by omega)).trans (before.ahead j (by omega))
    · dsimp only
      rw [if_pos rfl, packed, wanted, if_pos rfl, before.pcm, before.ahead n (Nat.le_refl n)]
      rfl
    · exact (wire_next_succ _ n).symm
    · intro i inside
      dsimp only
      rw [getLsbD_set, before.lines i inside, Nat.mod_eq_of_lt (by omega)]
      have bound := wire_small framed inside
      by_cases same : i = n
      · subst same
        simp [wanted, bound]
      · have apart : wire x.priProtocol n ≠ wire x.priProtocol i := by
          by_cases first : i < n
          · have := @wire_lt x.priProtocol i n first
            omega
          · have := @wire_lt x.priProtocol n i (by omega)
            omega
        have : i < n + 1 ↔ i < n := by omega
        simp [apart, this]
  · have clear_ : x.xpd.wantedPcmMask.getLsbD n = false := by simpa using wanted
    constructor
    · exact before.proto
    · exact before.number
    · exact before.channels
    · exact before.registered
    · intro j later
      exact before.ahead j (by omega)
    · dsimp only
      rw [packed, clear_, before.pcm]
      simp
    · exact (wire_next_succ _ n).symm
    · intro i inside
      dsimp only
      rw [before.lines i inside]
      by_cases same : i = n
      · rw [same, clear_]
        simp
      · have : i < n + 1 ↔ i < n := by omega
        simp only [this]

theorem pri_written (framed : Framed x.priProtocol) (channels : x.xpd.channels = priNumChannels x.priProtocol)
    (registered : x.xpd.registered = true) (xlawZero : BitVec 8) :
    PriWritten x x.xpd.channels
      ((List.range x.xpd.channels).foldl (priSendLine xlawZero x.xpd.wantedPcmMask) ⟨x, [], 0, 0⟩) := by
  have all : ∀ n ≤ x.xpd.channels, PriWritten x n
      ((List.range n).foldl (priSendLine xlawZero x.xpd.wantedPcmMask) ⟨x, [], 0, 0⟩) := by
    intro n
    induction n with
    | zero =>
      intro _
      constructor
      · rfl
      · rfl
      · rfl
      · exact registered
      · intro j _
        rfl
      · rfl
      · rcases framed with proto | proto
        · rw [proto]
          rfl
        · rw [proto]
          rfl
      · intro i _
        simp
    | succ n ih =>
      intro most
      rw [List.range_succ, List.foldl_append, List.foldl_cons, List.foldl_nil]
      exact pri_written_step framed xlawZero (by omega) (ih (by omega))
  exact all _ (Nat.le_refl _)

end Writer

section Reader
variable {x : PriXpd}

/-- What the reader's loop has done by channel m of the wire. -/
structure PriRead (x : PriXpd) (pack : Xpacket) (m : Nat) (got : PriGot) : Prop where
  proto : got.x.priProtocol = x.priProtocol
  logical : got.logicalChan = rank (used x.priProtocol) m
  pcm : got.pcm = 8 * rank x.xpd.wantedPcmMask.getLsbD (rank (used x.priProtocol) m)
  read : ∀ j < rank (used x.priProtocol) m, x.xpd.wantedPcmMask.getLsbD j = true →
    (got.x.xpd.chans j).readchunk = chunkAt pack (8 * rank x.xpd.wantedPcmMask.getLsbD j)

theorem pri_read_step (framed : Framed x.priProtocol) {pack : Xpacket}
    (lines : ∀ i < priNumChannels x.priProtocol,
      pack.lines.getLsbD (wire x.priProtocol i) = x.xpd.wantedPcmMask.getLsbD i)
    {m : Nat} (inside : m < 32) {got : PriGot} (before : PriRead x pack m got)
    (index : got.x.dchanIdx = x.dchanIdx) :
    PriRead x pack (m + 1) (priTakeLine pack got m) ∧ (priTakeLine pack got m).x.dchanIdx = x.dchanIdx := by
  unfold priTakeLine
  rw [before.proto]
  split <;> rename_i skipped
  · have here : used x.priProtocol m = false := by
      unfold used
      rw [skipped]
      rfl
    have stays : rank (used x.priProtocol) (m + 1) = rank (used x.priProtocol) m := by
      rw [rank, here]
      rfl
    constructor
    · constructor
      · exact before.proto
      · rw [stays]
        exact before.logical
      · rw [stays]
        exact before.pcm
      · rw [stays]
        exact before.read
    · exact index
  · have here : used x.priProtocol m = true := by
      unfold used
      simpa using skipped
    obtain ⟨small, wired⟩ := wire_used framed inside here
    have moves : rank (used x.priProtocol) (m + 1) = rank (used x.priProtocol) m + 1 := by
      rw [rank, here]
      rfl
    have line := lines _ small
    rw [wired] at line
    obtain ⟨watched, isWatched⟩ : ∃ watched, watched =
        if got.logicalChan = got.x.dchanIdx ∧ got.x.isCas = 0 then dchanTaken got.x (pack.pcm.getD got.pcm 0)
        else got.x := ⟨_, rfl⟩
    have kept : DchanKept got.x watched ∧
        ∀ j < got.logicalChan, watched.xpd.chans j = got.x.xpd.chans j := by
      rw [isWatched]
      split <;> rename_i dchan
      · have kept := dchan_taken_kept got.x (pack.pcm.getD got.pcm 0)
        exact ⟨kept, fun j earlier => kept.chans j (by omega)⟩
      · exact ⟨⟨rfl, rfl, rfl, rfl, fun _ _ => rfl⟩, fun _ _ => rfl⟩
    have still : watched.dchanIdx = x.dchanIdx := by
      rw [← index]
      unfold PriXpd.dchanIdx
      rw [kept.1.number]
    dsimp only
    rw [← isWatched, line]
    have logical := before.logical
    split <;> rename_i wanted
    · constructor
      · constructor
        · exact kept.1.proto.trans before.proto
        · rw [moves, ← logical]
        · rw [moves, rank, wanted, if_pos rfl, before.pcm]
          rfl
        · intro j earlier isSet
          rw [moves] at earlier
          dsimp only
          by_cases last : j = got.logicalChan
          · rw [last, set_read_self, before.pcm, logical]
          · rw [set_read_other last, kept.2 j (by omega)]
            exact before.read j (by omega) isSet
      · exact still
    · constructor
      · constructor
        · exact kept.1.proto.trans before.proto
        · rw [moves, ← logical]
        · rw [moves, rank, before.pcm]
          simp [wanted]
        · intro j earlier isSet
          rw [moves] at earlier
          have notLast : j ≠ rank (used x.priProtocol) m := by
            intro last
            rw [last] at isSet
            exact wanted isSet
          dsimp only
          rw [kept.2 j (by omega)]
          exact before.read j (by omega) isSet
      · exact still

theorem pri_read (framed : Framed x.priProtocol) {y : PriXpd} {pack : Xpacket} (proto : y.priProtocol = x.priProtocol)
    (number : y.dchanNum = x.dchanNum)
    (lines : ∀ i < priNumChannels x.priProtocol,
      pack.lines.getLsbD (wire x.priProtocol i) = x.xpd.wantedPcmMask.getLsbD i) :
    PriRead x pack 32 ((List.range 32).foldl (priTakeLine pack) ⟨y, 0, 0⟩) := by
  have all : ∀ m ≤ 32, PriRead x pack m ((List.range m).foldl (priTakeLine pack) ⟨y, 0, 0⟩) ∧
      ((List.range m).foldl (priTakeLine pack) ⟨y, 0, 0⟩).x.dchanIdx = x.dchanIdx := by
    intro m
    induction m with
    | zero =>
      intro _
      constructor
      · constructor
        · exact proto
        · rfl
        · rfl
        · intro j none_
          exact absurd none_ (Nat.not_lt_zero j)
      · unfold PriXpd.dchanIdx
        rw [List.range_zero, List.foldl_nil, number]
    | succ m ih =>
      intro most
      obtain ⟨before, index⟩ := ih (by omega)
      rw [List.range_succ, List.foldl_append, List.foldl_cons, List.foldl_nil]
      exact pri_read_step framed lines (by omega) before index
  exact (all 32 (Nat.le_refl 32)).1

theorem pri_trip (framed : Framed x.priProtocol) (channels : x.xpd.channels = priNumChannels x.priProtocol)
    (registered : x.xpd.registered = true) (xlawZero : BitVec 8) (pack : Xpacket) {i : Nat}
    (inside : i < x.xpd.channels) (wanted : x.xpd.wantedPcmMask.getLsbD i = true) :
    let sent := priCardPcmFromspan xlawZero x pack
    ((priCardPcmTospan sent.1 sent.2).xpd.chans i).readchunk = (x.xpd.chans i).writechunk := by
  have written := pri_written framed channels registered xlawZero
  unfold priCardPcmFromspan priCardPcmTospan
  dsimp only
  have read := @pri_read x framed
    ((List.range x.xpd.channels).foldl (priSendLine xlawZero x.xpd.wantedPcmMask) ⟨x, [], 0, 0⟩).x
    { pack with
      lines := ((List.range x.xpd.channels).foldl (priSendLine xlawZero x.xpd.wantedPcmMask)
        ⟨x, [], 0, 0⟩).physicalMask,
      pcm := ((List.range x.xpd.channels).foldl (priSendLine xlawZero x.xpd.wantedPcmMask) ⟨x, [], 0, 0⟩).pcm }
    written.proto written.number (by
      intro i inside
      dsimp only
      rw [written.lines i inside]
      simp [channels, inside])
  have last := read.read i (by rw [used_all framed, ← channels]; exact inside) wanted
  rw [written.registered, if_pos rfl]
  unfold CHANNELS_PERXPD
  rw [last]
  unfold chunkAt
  dsimp only
  rw [written.pcm, slot_packed 0 inside wanted]
  rfl

end Reader
end PcmTrip
