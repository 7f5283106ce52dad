import Dahdi.Signalling.Cadence
import Dahdi.Tone.DialParams
import Mathlib.Data.Nat.Find

/-!
The turns of the ringer of a ringing channel, against the cadence it was given.
-/
namespace Signalling
open Tone

/-- A channel that a ring can be started on. -/
structure Ringable (zone : Zone) (chan : Chan) : Prop where
  zoned : chan.curzone = some zone
  idle : chan.txstate = .onhook
  takes : chan.takesHook = true
  facing : chan.sig.fxo = true

def ringSig (n : Nat) : TxSig := if n % 2 = 0 then .start else .offhook

/-- Where the loud time of an entry leads, and the time set there. -/
def onTurn (r : Nat → Int) (z : Int) (p : Nat) : Nat × Int :=
  let pos := if maxCadence ≤ p + 1 then 0 else p + 1
  if r pos = 0 then (0, z) else (pos, r pos)

def offTurn (r : Nat → Int) (f : Nat) (p : Nat) : Nat × Int :=
  let pos := if maxCadence ≤ p + 1 then f else p + 1
  let pos := if r pos = 0 then f else pos
  (pos, r pos)

/-- The turns that the expiries of the timer take. -/
def turnOf (r : Nat → Int) (f : Nat) (z : Int) : Nat → Nat × Int
  | 0 => (0, r 0)
  | n + 1 =>
    if n % 2 = 0 then onTurn r z (turnOf r f z n).1 else offTurn r f (turnOf r f z n).1

structure Ringing (r : Nat → Int) (f : Nat) (zone : Zone) (c : Chan) : Prop where
  cadence : c.ringcadence = r
  first : c.firstcadencepos = f
  zoned : c.curzone = some zone
  takes : c.takesHook = true
  facing : c.sig.fxo = true

def ringState (n : Nat) : TxState := if n % 2 = 0 then .ringon else .ringoff

structure AtTurn (r : Nat → Int) (f : Nat) (zone : Zone) (n : Nat) (c : Chan) : Prop
    extends Ringing r f zone c where
  state : c.txstate = ringState n
  sends : c.txhooksig = ringSig n
  pos : c.cadencepos = (turnOf r f (zone.ringcadence 0) n).1
  timer : c.otimer = int32 ((turnOf r f (zone.ringcadence 0) n).2 * chunksize)

theorem sethook_fxo {c : Chan} (takes : c.takesHook = true) (facing : c.sig.fxo = true)
    (txsig : TxSig) (txstate : TxState) (timeout : Int) :
    rbsSethook c txsig txstate timeout =
      { c with
        txstate := txstate
        txhooksig := txsig
        otimer := int32 (timeout * chunksize) } := by
  have known : c.sig.known = true := by
    generalize c.sig = sig at facing
    cases sig <;> first | rfl | cases facing
  unfold rbsSethook
  rw [if_neg (by rw [takes]; decide)]
  exact if_pos (.inr (.inr known))

section turns
variable {g : Globals} {zone : Zone} {r : Nat → Int} {f : Nat} {chan c c' : Chan} {n k : Nat}
  {time : Int}

/-- The channel after the ringer was switched. -/
theorem switched {txsig : TxSig} {txstate : TxState} {event : Event} (ringing : Ringing r f zone c)
    (sends : txsig = ringSig n) (state : txstate = ringState n)
    (turn : turnOf r f (zone.ringcadence 0) n = (c.cadencepos, time)) :
    AtTurn r f zone n (qevent (rbsSethook c txsig txstate time) event) := by
  rw [sethook_fxo ringing.takes ringing.facing]
  exact
    { cadence := ringing.cadence
      first := ringing.first
      zoned := ringing.zoned
      takes := ringing.takes
      facing := ringing.facing
      state := state
      sends := sends
      pos := by rw [turn]; rfl
      timer := by rw [turn]; rfl }

theorem expire_on (at_ : AtTurn r f zone n c) (even : n % 2 = 0) :
    ∃ c', rbsOtimerExpire g c = some c' ∧ AtTurn r f zone (n + 1) c' := by
  have odd : ¬(n + 1) % 2 = 0 := by omega
  have loud : c.txstate = .ringon := by rw [at_.state, ringState, if_pos even]
  have expire : rbsOtimerExpire g c = ringonExpire { c with otimer := 0 } := by
    unfold rbsOtimerExpire
    simp only [loud]
  have turn : turnOf r f (zone.ringcadence 0) (n + 1) =
      onTurn r (zone.ringcadence 0) c.cadencepos := by
    rw [turnOf, if_pos even, at_.pos]
  have ringing := fun pos : Nat =>
    show Ringing r f zone { c with otimer := 0, cadencepos := pos } from
      ⟨at_.cadence, at_.first, at_.zoned, at_.takes, at_.facing⟩
  rw [expire]
  unfold ringonExpire
  unfold onTurn at turn
  rw [← at_.cadence] at turn ringing ⊢
  simp only at turn ⊢
  generalize (if maxCadence ≤ c.cadencepos + 1 then 0 else c.cadencepos + 1) = pos at turn ⊢
  by_cases ended : c.ringcadence pos = 0
  · rw [if_pos ended] at turn ⊢
    exact ⟨_, Option.map_eq_some_iff.mpr ⟨zone, at_.zoned, rfl⟩,
      switched (ringing 0) (if_neg odd).symm (if_neg odd).symm turn⟩
  · rw [if_neg ended] at turn ⊢
    exact ⟨_, rfl, switched (ringing pos) (if_neg odd).symm (if_neg odd).symm turn⟩

theorem expire_off (at_ : AtTurn r f zone n c) (odd : n % 2 = 1) :
    ∃ c', rbsOtimerExpire g c = some c' ∧ AtTurn r f zone (n + 1) c' := by
  have even : (n + 1) % 2 = 0 := by omega
  have silent : c.txstate = .ringoff := by rw [at_.state, ringState, if_neg (by omega)]
  have expire : rbsOtimerExpire g c = some (ringoffExpire { c with otimer := 0 }) := by
    unfold rbsOtimerExpire
    simp only [silent]
  have turn : turnOf r f (zone.ringcadence 0) (n + 1) = offTurn r f c.cadencepos := by
    rw [turnOf, if_neg (by omega), at_.pos]
  have ringing := fun pos : Nat =>
    show Ringing r f zone { c with otimer := 0, cadencepos := pos } from
      ⟨at_.cadence, at_.first, at_.zoned, at_.takes, at_.facing⟩
  unfold offTurn at turn
  rw [← at_.cadence, ← at_.first] at turn ringing ⊢
  exact ⟨_, expire, switched (ringing _) (if_pos even).symm (if_pos even).symm turn⟩

theorem expire_turn (at_ : AtTurn r f zone n c) :
    ∃ c', rbsOtimerExpire g c = some c' ∧ AtTurn r f zone (n + 1) c' := by
  by_cases even : n % 2 = 0
  · exact expire_on at_ even
  · exact expire_off at_ (by omega)

theorem ring_starts (ringable : Ringable zone chan) :
    ∃ c, hookRing chan = .ok c ∧ AtTurn chan.ringcadence chan.firstcadencepos zone 0 c := by
  have known : ¬chan.curzone.isNone = true := by
    rw [ringable.zoned]
    exact Bool.false_ne_true
  let idle : Chan :=
    { chan with
      curtone := none
      dialing := false
      txdialbuf := []
      tonep := 0
      pdialcount := 0
      cadencepos := 0 }
  have started : hookRing chan = .ok (rbsSethook idle .start .ringon (chan.ringcadence 0)) := by
    unfold hookRing
    simp only
    rw [if_neg known, if_neg (not_not_intro ringable.idle), if_pos ringable.facing]
  refine ⟨_, started, ?_⟩
  rw [sethook_fxo (c := idle) ringable.takes ringable.facing]
  exact
    { cadence := rfl
      first := rfl
      zoned := ringable.zoned
      takes := ringable.takes
      facing := ringable.facing
      state := rfl
      sends := rfl
      pos := rfl
      timer := rfl }

theorem turn_at (ringable : Ringable zone chan) (turn : Turn g chan n c) :
    AtTurn chan.ringcadence chan.firstcadencepos zone n c := by
  induction turn with
  | ring started =>
    obtain ⟨c', started', at_⟩ := ring_starts ringable
    rw [started] at started'
    rw [Except.ok.inj started']
    exact at_
  | next _ lasts ih =>
    obtain ⟨c', expired, at_⟩ := @expire_turn g _ _ _ _ _ ih
    have expired' := ((lasts_iff ih.timer).mp lasts).2
    rw [expired] at expired'
    rw [← Option.some.inj expired']
    exact at_

/-- A turn lasts as long as the timer set for it runs. -/
theorem turn_lasts (ringable : Ringable zone chan) (turn : Turn g chan n c) :
    (∃ c', Lasts g c k c') ↔
      runsFor (turnOf chan.ringcadence chan.firstcadencepos (zone.ringcadence 0) n).2 = some k := by
  have at_ := turn_at ringable turn
  constructor
  · rintro ⟨c', lasts⟩
    exact ((lasts_iff at_.timer).mp lasts).1
  · intro runs
    obtain ⟨c', expired, _⟩ := @expire_turn g _ _ _ _ _ at_
    exact ⟨c', (lasts_iff at_.timer).mpr ⟨runs, expired⟩⟩

/-- A turn is reached if the timers of all turns before it run. -/
theorem turn_reached (ringable : Ringable zone chan)
    (running : ∀ i < n,
      runsFor (turnOf chan.ringcadence chan.firstcadencepos (zone.ringcadence 0) i).2 ≠ none) :
    ∃ c, Turn g chan n c := by
  induction n with
  | zero =>
    obtain ⟨c, started, _⟩ := ring_starts ringable
    exact ⟨c, Turn.ring started⟩
  | succ n ih =>
    obtain ⟨c, turn⟩ := ih (fun i before => running i (by omega))
    obtain ⟨k, runs⟩ := Option.ne_none_iff_exists'.mp (running n (by omega))
    obtain ⟨c', lasts⟩ := (turn_lasts ringable turn).mpr runs
    exact ⟨c', Turn.next turn lasts⟩

theorem turn_observed (ringable : Ringable zone chan) {txsig : TxSig} {pos time : Nat}
    (seen : Observed g chan n txsig pos time) :
    txsig = ringSig n ∧
      pos = (turnOf chan.ringcadence chan.firstcadencepos (zone.ringcadence 0) n).1 ∧
      runsFor (turnOf chan.ringcadence chan.firstcadencepos (zone.ringcadence 0) n).2 = some time := by
  obtain ⟨c, c', turn, sends, here, lasts⟩ := seen
  have at_ := turn_at ringable turn
  exact ⟨sends.symm.trans at_.sends, here.symm.trans at_.pos,
    (turn_lasts ringable turn).mp ⟨c', lasts⟩⟩

end turns

end Signalling

/-!
When the turns of the ringer are the entries of the cadence, in their order and
for ever, whichever way the cadence got into the channel.
-/
namespace Signalling
open Tone

/-- A timer of one time runs as long as another one says. -/
def RunsAs (time listed : Int) : Prop := ∃ k : Nat, runsFor time = some k ∧ (k : Int) = listed

/-- The channel takes the turns that are listed, each for the listed time. -/
def RingsAs (g : Globals) (chan : Chan) (l : Listing) : Prop :=
  l.entries 0 ≠ 0 → ∀ n, ∃ time : Nat, (time : Int) = l.entries (l.position n) ∧
    Observed g chan n (ringSig n) (l.position n) time

/-- Two channels ring alike. -/
def RingAlike (g : Globals) (a b : Chan) : Prop :=
  ∀ n txsig pos time, Observed g a n txsig pos time ↔ Observed g b n txsig pos time

namespace Listing

/-- No ring-on entry is the last of the list. -/
def EndsOff (l : Listing) : Prop :=
  ∀ n, l.position n % 2 = 0 → l.entries (l.position n + 1) ≠ 0

/-- The times in the channel are those of the list, and the list is not left at a
    ring-on entry, or goes back to the first entry and the zone has that time. -/
def InOrder (l : Listing) (r : Nat → Int) (f : Nat) (z : Int) : Prop :=
  l.entries 0 ≠ 0 → f = l.loop ∧ (∀ n, RunsAs (r (l.position n)) (l.entries (l.position n))) ∧
    (l.EndsOff ∨ l.loop = 0 ∧ RunsAs z (l.entries 0))

/-- The loop goes back to a ring-on entry. -/
structure Wellformed (l : Listing) : Prop where
  within : l.loop < maxCadence
  even : l.loop % 2 = 0

variable {l : Listing} {p n : Nat}

theorem following_next (more : p + 1 < maxCadence) (listed : l.entries (p + 1) ≠ 0) :
    l.following p = p + 1 := if_pos ⟨more, listed⟩

theorem following_last (last : p + 1 < maxCadence → l.entries (p + 1) = 0) :
    l.following p = l.loop := if_neg fun more => more.2 (last more.1)

theorem position_within (formed : l.Wellformed) (n : Nat) : l.position n < maxCadence := by
  induction n with
  | zero => exact Nat.zero_lt_succ 15
  | succ n ih =>
    rw [position, following]
    split
    · rename_i more
      exact more.1
    · exact formed.within

theorem even_next (formed : l.Wellformed) (even : l.position n % 2 = 0) :
    l.position n + 1 < maxCadence := by
  have within := position_within formed n
  unfold maxCadence at within ⊢
  omega

/-- The list comes to its last entry. -/
theorem last_reached (formed : l.Wellformed) :
    ∃ n, (∀ i ≤ n, l.position i = i) ∧ (n + 1 < maxCadence → l.entries (n + 1) = 0) := by
  by_contra never
  push Not at never
  have straight : ∀ n, ∀ i ≤ n, l.position i = i := by
    intro n
    induction n with
    | zero =>
      intro i first
      rw [Nat.le_zero.mp first]
      rfl
    | succ n ih =>
      intro i upto
      rcases Nat.le_succ_iff.mp upto with before | rfl
      · exact ih i before
      · obtain ⟨more, listed⟩ := never n ih
        rw [position, ih n (Nat.le_refl n)]
        exact following_next more listed
  have within := position_within formed maxCadence
  rw [straight maxCadence maxCadence (Nat.le_refl _)] at within
  exact Nat.lt_irrefl _ within

/-- Entries and turns are on and off together, up to a ring-on entry that is the
    last. -/
theorem in_step (formed : l.Wellformed)
    (off : ∀ i < n, l.position i % 2 = 0 → l.entries (l.position i + 1) ≠ 0) :
    l.position n % 2 = n % 2 := by
  induction n with
  | zero => rfl
  | succ n ih =>
    have before := ih fun i earlier => off i (by omega)
    rw [position, following]
    by_cases even : l.position n % 2 = 0
    · rw [if_pos ⟨even_next formed even, off n (by omega) even⟩]
      omega
    · split
      · omega
      · have loop := formed.even
        omega

theorem position_again (back : l.position (n + 1) = 0) (i : Nat) :
    l.position (n + 1 + i) = l.position i := by
  induction i with
  | zero => exact back
  | succ i ih =>
    rw [← Nat.add_assoc, position, ih]
    rfl

end Listing

section order
variable {l : Listing} {r : Nat → Int} {f n : Nat} {z : Int}

/-- The turns taken are the entries of the list, and their timers run as long. -/
def TurnsListed (l : Listing) (r : Nat → Int) (f : Nat) (z : Int) (n : Nat) : Prop :=
  (turnOf r f z n).1 = l.position n ∧ RunsAs (turnOf r f z n).2 (l.entries (l.position n))

theorem on_next {p : Nat} (more : p + 1 < maxCadence) (listed : r (p + 1) ≠ 0) :
    onTurn r z p = (p + 1, r (p + 1)) := by
  simp only [onTurn, if_neg (Nat.not_le.mpr more), if_neg listed]

theorem on_last {p : Nat} (more : p + 1 < maxCadence) (last : r (p + 1) = 0) :
    onTurn r z p = (0, z) := by
  simp only [onTurn, if_neg (Nat.not_le.mpr more), if_pos last]

theorem off_next {p : Nat} (more : p + 1 < maxCadence) (listed : r (p + 1) ≠ 0) :
    offTurn r f p = (p + 1, r (p + 1)) := by
  simp only [offTurn, if_neg (Nat.not_le.mpr more), if_neg listed]

theorem off_last {p : Nat} (last : p + 1 < maxCadence → r (p + 1) = 0) :
    offTurn r f p = (f, r f) := by
  unfold offTurn
  by_cases more : p + 1 < maxCadence
  · simp only [if_neg (Nat.not_le.mpr more), if_pos (last more)]
  · simp only [if_pos (Nat.not_lt.mp more)]
    split <;> rfl

/-- The times of a turn are those of its entry, but for the first one. -/
theorem turn_time (n : Nat) :
    (turnOf r f z n).2 = r (turnOf r f z n).1 ∨ (turnOf r f z n).1 = 0 := by
  cases n with
  | zero => exact .inr rfl
  | succ n =>
    rw [turnOf]
    split
    · unfold onTurn
      simp only
      generalize (if maxCadence ≤ (turnOf r f z n).1 + 1 then 0 else (turnOf r f z n).1 + 1) = pos
      by_cases ended : r pos = 0
      · rw [if_pos ended]
        exact .inr rfl
      · rw [if_neg ended]
        exact .inl rfl
    · exact .inl rfl

variable (formed : l.Wellformed) (zeros : ∀ p, r p = 0 ↔ l.entries p = 0)
include zeros

theorem off_follows (p : Nat) (same : f = l.loop) : offTurn r f p = (l.following p, r (l.following p)) := by
  by_cases more : p + 1 < maxCadence ∧ l.entries (p + 1) ≠ 0
  · rw [off_next more.1 (mt (zeros _).mp more.2), Listing.following_next more.1 more.2]
  · have last : p + 1 < maxCadence → l.entries (p + 1) = 0 := fun within =>
      not_not.mp fun listed => more ⟨within, listed⟩
    rw [off_last fun within => (zeros _).mpr (last within), Listing.following_last last, same]

include formed in
theorem turns_off (same : f = l.loop) (times : ∀ n, RunsAs (r (l.position n)) (l.entries (l.position n)))
    (off : l.EndsOff) (n : Nat) : TurnsListed l r f z n := by
  have turn : turnOf r f z n = (l.position n, r (l.position n)) := by
    induction n with
    | zero => rfl
    | succ n ih =>
      have step := Listing.in_step formed fun i (_ : i < n) => off i
      rw [turnOf, ih]
      split
      · rename_i even
        have listed := off n (by omega)
        have more := Listing.even_next formed (by omega : l.position n % 2 = 0)
        rw [on_next more (mt (zeros _).mp listed), Listing.position, Listing.following_next more listed]
      · exact off_follows zeros _ same
  rw [TurnsListed, turn]
  exact ⟨rfl, times n⟩

theorem turns_back (some_ : l.entries 0 ≠ 0) (same : f = l.loop)
    (times : ∀ n, RunsAs (r (l.position n)) (l.entries (l.position n))) (back : l.loop = 0)
    (zoned : RunsAs z (l.entries 0)) (n : Nat) : TurnsListed l r f z n := by
  induction n with
  | zero => exact ⟨rfl, times 0⟩
  | succ n ih =>
    have later := times (n + 1)
    rw [Listing.position] at later
    rw [TurnsListed, turnOf, ih.1, Listing.position]
    split
    · by_cases more : l.position n + 1 < maxCadence
      · by_cases listed : l.entries (l.position n + 1) = 0
        · rw [on_last more ((zeros _).mpr listed), Listing.following_last fun _ => listed, back]
          exact ⟨rfl, zoned⟩
        · rw [on_next more (mt (zeros _).mp listed)]
          rw [Listing.following_next more listed] at later ⊢
          exact ⟨rfl, later⟩
      · rw [Listing.following_last fun within => absurd within more, back] at later ⊢
        simp only [onTurn, if_pos (Nat.not_lt.mp more), if_neg (mt (zeros 0).mp some_)]
        exact ⟨trivial, later⟩
    · rw [off_follows zeros _ same]
      exact ⟨rfl, later⟩

include formed

/-- A list that is left at a ring-on entry is taken up at its first one, for the
    time the zone has. -/
theorem left_on (listed : ∀ n, TurnsListed l r f z n) (on_ : ¬l.EndsOff) :
    l.loop = 0 ∧ RunsAs z (l.entries 0) ∧
      ∃ n, l.position n % 2 = 0 ∧ n % 2 = 0 ∧ l.entries (l.position n + 1) = 0 := by
  have ends : ∃ n, l.position n % 2 = 0 ∧ l.entries (l.position n + 1) = 0 := by
    by_contra never
    push Not at never
    exact on_ never
  classical
  obtain ⟨even, last⟩ := Nat.find_spec ends
  have step := @Listing.in_step l (Nat.find ends) formed fun i earlier even' last' =>
    Nat.find_min ends earlier ⟨even', last'⟩
  generalize Nat.find ends = n at even last step
  have more := Listing.even_next formed even
  have next := listed (n + 1)
  rw [TurnsListed, turnOf, if_pos (by omega), (listed n).1, on_last more ((zeros _).mpr last),
    Listing.position, Listing.following_last fun _ => last] at next
  obtain ⟨back, runs⟩ := next
  rw [← back] at runs
  exact ⟨back.symm, runs, n, even, by omega, last⟩

theorem turns_loop (listed : ∀ n, TurnsListed l r f z n) : f = l.loop := by
  obtain ⟨n, straight, last⟩ := Listing.last_reached formed
  have here := straight n (Nat.le_refl n)
  have next : l.position (n + 1) = l.loop := by
    rw [Listing.position, here, Listing.following_last last]
  have last' : n + 1 < maxCadence → r (n + 1) = 0 := fun within => (zeros _).mpr (last within)
  by_cases odd : n % 2 = 1
  · have turn := (listed (n + 1)).1
    rw [turnOf, if_neg (by omega), (listed n).1, here, off_last last', next] at turn
    exact turn
  · have even : l.position n % 2 = 0 := by omega
    have ended : l.entries (l.position n + 1) = 0 := by
      have more := Listing.even_next formed even
      rw [here] at more ⊢
      exact last more
    have back := (left_on formed zeros listed fun off => off n even ended).1
    rw [back] at next
    -- the second time the list comes to its end, the turn is one of silence
    have again := Listing.position_again next n
    have again' := Listing.position_again next (n + 1)
    have turn := (listed (n + 1 + n + 1)).1
    rw [turnOf, if_neg (by omega), (listed (n + 1 + n)).1, again, here, off_last last',
      Nat.add_assoc, again', next] at turn
    exact turn.trans back.symm

/-- The turns are the entries of the list exactly if the list is in order. -/
theorem turns_listed_iff :
    (l.entries 0 ≠ 0 → ∀ n, TurnsListed l r f z n) ↔ l.InOrder r f z := by
  constructor
  · intro turns some_
    have listed := turns some_
    refine ⟨turns_loop formed zeros listed, ?_, ?_⟩
    · intro n
      have here := (listed n).1
      have runs := (listed n).2
      rcases turn_time (r := r) (f := f) (z := z) n with own | first
      · rw [own, here] at runs
        exact runs
      · rw [← here, first]
        exact (listed 0).2
    · by_cases off : l.EndsOff
      · exact .inl off
      · obtain ⟨back, runs, _⟩ := left_on formed zeros listed off
        exact .inr ⟨back, runs⟩
  · intro order some_
    obtain ⟨same, times, off | ⟨back, zoned⟩⟩ := order some_
    · exact turns_off formed zeros same times off
    · exact turns_back zeros some_ same times back zoned

end order

section ringing
variable {g : Globals} {zone : Zone} {chan c : Chan} {l : Listing} {n : Nat}

theorem rings_iff_turns (ringable : Ringable zone chan) :
    RingsAs g chan l ↔ (l.entries 0 ≠ 0 → ∀ n,
      TurnsListed l chan.ringcadence chan.firstcadencepos (zone.ringcadence 0) n) := by
  constructor
  · intro rings some_ n
    obtain ⟨time, listed, seen⟩ := rings some_ n
    obtain ⟨_, pos, runs⟩ := turn_observed ringable seen
    exact ⟨pos.symm, time, runs, listed⟩
  · intro turns some_ n
    have running : ∀ i < n, runsFor
        (turnOf chan.ringcadence chan.firstcadencepos (zone.ringcadence 0) i).2 ≠ none := by
      intro i _
      obtain ⟨_, k, runs, _⟩ := turns some_ i
      rw [runs]
      exact Option.some_ne_none k
    obtain ⟨c, turn⟩ := @turn_reached g _ _ _ ringable running
    obtain ⟨pos, time, runs, listed⟩ := turns some_ n
    obtain ⟨c', lasts⟩ := (turn_lasts ringable turn).mpr runs
    have at_ := turn_at ringable turn
    exact ⟨time, listed, c, c', turn, at_.sends, at_.pos.trans pos, lasts⟩

theorem rings_iff (ringable : Ringable zone chan) (formed : l.Wellformed)
    (zeros : ∀ p, chan.ringcadence p = 0 ↔ l.entries p = 0) :
    RingsAs g chan l ↔
      l.InOrder chan.ringcadence chan.firstcadencepos (zone.ringcadence 0) := by
  rw [rings_iff_turns ringable]
  exact turns_listed_iff formed zeros

/-- A ring without a first time is never turned off. -/
theorem never_turns (ringable : Ringable zone chan) (silent : chan.ringcadence 0 = 0)
    {txsig : TxSig} {pos time : Nat} : ¬Observed g chan n txsig pos time := by
  have stuck : ∀ {k c c'}, Turn g chan 0 c → ¬Lasts g c k c' := by
    intro k c c' turn lasts
    have runs := (turn_lasts ringable turn).mp ⟨c', lasts⟩
    rw [turnOf, silent] at runs
    cases runs
  rintro ⟨c, c', turn, _, _, lasts⟩
  have first : ∀ {m c}, Turn g chan m c → m = 0 := by
    intro m c turn
    induction turn with
    | ring => rfl
    | next before lasts ih =>
      subst ih
      exact absurd lasts (stuck before)
  obtain rfl := first turn
  exact stuck turn lasts

/-- Two channels that both ring as listed ring alike. -/
theorem ring_alike {zone' : Zone} (ringable : Ringable zone chan) (ringable' : Ringable zone' c)
    (zeros : ∀ p, chan.ringcadence p = 0 ↔ l.entries p = 0)
    (zeros' : ∀ p, c.ringcadence p = 0 ↔ l.entries p = 0) (rings : RingsAs g chan l)
    (rings' : RingsAs g c l) : RingAlike g chan c := by
  intro n txsig pos time
  by_cases silent : l.entries 0 = 0
  · exact iff_of_false (never_turns ringable ((zeros 0).mpr silent))
      (never_turns ringable' ((zeros' 0).mpr silent))
  obtain ⟨time₁, listed, seen⟩ := rings silent n
  obtain ⟨time₂, listed', seen'⟩ := rings' silent n
  have same : time₁ = time₂ := by omega
  constructor
  · intro seen₁
    obtain ⟨sends, here, runs⟩ := turn_observed ringable seen₁
    obtain ⟨_, here', runs'⟩ := turn_observed ringable seen
    rw [sends, here, ← here', Option.some.inj (runs.symm.trans runs'), same]
    exact seen'
  · intro seen₁
    obtain ⟨sends, here, runs⟩ := turn_observed ringable' seen₁
    obtain ⟨_, here', runs'⟩ := turn_observed ringable' seen'
    rw [sends, here, ← here', Option.some.inj (runs.symm.trans runs'), ← same]
    exact seen

end ringing

/-- The ways a cadence gets into a channel: DAHDI_SETCADENCE with a cadence and
    without one, DAHDI_SETTONEZONE and the opening of the channel. -/
inductive Installer where
  | setcadence (cad : Nat → Int)
  | reset
  | settonezone (zone : Zone)
  | opened (defaultZone : Option Zone)

namespace Installer

def apply (chan : Chan) : Installer → Chan
  | setcadence cad => Signalling.setcadence (some cad) chan
  | reset => Signalling.setcadence none chan
  | settonezone zone => setToneZone zone chan
  | opened defaultZone => initializeChannel defaultZone chan

/-- The cadence that is meant, the user's or that of the zone. -/
def source (zone : Zone) : Installer → Nat → Int
  | setcadence cad => cad
  | _ => zone.ringcadence

/-- The cadence of the zone is copied as it is. -/
def copies : Installer → Prop
  | settonezone _ | opened _ => True
  | _ => False

end Installer

/-- The entries are ints. -/
def Ints (cad : Nat → Int) : Prop := ∀ i, -2 ^ 31 ≤ cad i ∧ cad i < 2 ^ 31

/-- The channel has the cadence and the zone of another one. -/
structure Carries (installed c : Chan) : Prop where
  cadence : c.ringcadence = installed.ringcadence
  first : c.firstcadencepos = installed.firstcadencepos
  zoned : c.curzone = installed.curzone

/-- The channel rings as its cadence says, and a copied cadence like one that is
    installed by DAHDI_SETCADENCE. -/
def CadenceKept (g : Globals) (op : Installer) (zone : Zone) (c : Chan) : Prop :=
  RingsAs g c (listingOf (op.source zone)) ∧
    (op.copies → RingAlike g c (setcadence none c))

/-- The times in the channel are in order, and so are those that DAHDI_SETCADENCE
    would install in place of a copy. -/
def Installer.InOrder (op : Installer) (chan : Chan) (zone : Zone) : Prop :=
  (listingOf (op.source zone)).InOrder (op.apply chan).ringcadence (op.apply chan).firstcadencepos
      (zone.ringcadence 0) ∧
    (op.copies → (listingOf zone.ringcadence).InOrder (listingOf zone.ringcadence).entries
      (listingOf zone.ringcadence).loop (zone.ringcadence 0))

section installers
variable {g : Globals} {zone : Zone} {chan c : Chan} {cad : Nat → Int} {op : Installer}

theorem marker_position {i : Nat} (marked : loopMarker cad = some i) :
    i < maxCadence ∧ i % 2 = 0 ∧ cad i < 0 := by
  have listed := List.mem_of_find?_eq_some marked
  have negative := List.find?_some marked
  have low : ∀ j ∈ [0, 2, 4, 6, 8, 10, 12, 14], j < maxCadence ∧ j % 2 = 0 := by decide
  exact ⟨(low i listed).1, (low i listed).2, of_decide_eq_true negative⟩

theorem listing_formed (cad : Nat → Int) : (listingOf cad).Wellformed := by
  unfold listingOf
  cases marked : loopMarker cad with
  | none => exact ⟨Nat.zero_lt_succ 15, rfl⟩
  | some i =>
    obtain ⟨within, even, _⟩ := marker_position marked
    exact ⟨within, even⟩

theorem take_listing (chan : Chan) (cad : Nat → Int) :
    (takeCadence chan cad).ringcadence = (listingOf cad).entries ∧
      (takeCadence chan cad).firstcadencepos = (listingOf cad).loop ∧
      (takeCadence chan cad).curzone = chan.curzone := by
  unfold takeCadence listingOf
  cases loopMarker cad with
  | none => exact ⟨rfl, rfl, rfl⟩
  | some i => exact ⟨rfl, rfl, rfl⟩

/-- Taking out the loop marker leaves the end of the list where it is. -/
theorem listing_zeros (ints : Ints cad) (p : Nat) : cad p = 0 ↔ (listingOf cad).entries p = 0 := by
  unfold listingOf
  cases marked : loopMarker cad with
  | none => exact Iff.rfl
  | some i =>
    obtain ⟨_, _, negative⟩ := marker_position marked
    simp only
    by_cases here : p = i
    · rw [here, Function.update_self]
      have low := (ints i).1
      refine iff_of_false (by omega) ?_
      by_cases lowest : cad i = -2 ^ 31
      · rw [lowest]
        decide
      · rw [int32_small (by omega) (by omega)]
        omega
    · rw [Function.update_of_ne here]

theorem initialize_cadence {defaultZone : Option Zone}
    (zoned : (initializeChannel defaultZone chan).curzone = some zone) :
    (initializeChannel defaultZone chan).ringcadence = zone.ringcadence := by
  unfold initializeChannel at zoned ⊢
  simp only at zoned ⊢
  cases defaultZone with
  | some d =>
    rw [← Option.some.inj zoned]
    rfl
  | none =>
    simp only at zoned ⊢
    split
    · rename_i z found
      rw [found] at zoned
      simp only at zoned
      rw [Option.some.inj zoned]
    · rename_i found
      rw [found] at zoned
      cases zoned

/-- The channel ends its list where the cadence does. -/
theorem installed_zeros (ints : Ints (op.source zone)) (carried : Carries (op.apply chan) c)
    (zoned : c.curzone = some zone) (p : Nat) :
    c.ringcadence p = 0 ↔ (listingOf (op.source zone)).entries p = 0 := by
  have here := carried.zoned.symm.trans zoned
  rw [carried.cadence]
  cases op with
  | setcadence cad => exact iff_of_eq (congrArg (· p = 0) (take_listing chan cad).1)
  | reset =>
    have known : chan.curzone = some zone := by
      simp only [Installer.apply, setcadence] at here
      split at here
      · rename_i z found
        rw [(take_listing chan z.ringcadence).2.2] at here
        exact here
      · exact here
    simp only [Installer.apply, setcadence, known]
    exact iff_of_eq (congrArg (· p = 0) (take_listing chan zone.ringcadence).1)
  | settonezone z =>
    have same : z = zone := Option.some.inj here
    rw [← same] at ints ⊢
    exact listing_zeros ints p
  | opened d =>
    have same : (Installer.apply chan (.opened d)).ringcadence = zone.ringcadence :=
      initialize_cadence here
    rw [same]
    exact listing_zeros ints p

theorem take_ringable (ringable : Ringable zone c) (cad : Nat → Int) :
    Ringable zone (takeCadence c cad) := by
  unfold takeCadence
  cases loopMarker cad with
  | none => exact ⟨ringable.zoned, ringable.idle, ringable.takes, ringable.facing⟩
  | some i => exact ⟨ringable.zoned, ringable.idle, ringable.takes, ringable.facing⟩

theorem kept_iff_in_order (ints : Ints (op.source zone)) (carried : Carries (op.apply chan) c)
    (ringable : Ringable zone c) : CadenceKept g op zone c ↔ op.InOrder chan zone := by
  have zeros := installed_zeros ints carried ringable.zoned
  have rings := @rings_iff g _ _ _ ringable (listing_formed _) zeros
  have reset : setcadence none c = takeCadence c zone.ringcadence := by
    simp only [setcadence, ringable.zoned]
  have ringable' : Ringable zone (setcadence none c) := by
    rw [reset]
    exact take_ringable ringable zone.ringcadence
  obtain ⟨entries, loop, _⟩ := take_listing c zone.ringcadence
  rw [← reset] at entries loop
  have zeros' : ∀ p, (setcadence none c).ringcadence p = 0 ↔
      (listingOf zone.ringcadence).entries p = 0 := by
    intro p
    rw [entries]
  have rings' := @rings_iff g _ _ _ ringable' (listing_formed _) zeros'
  rw [entries, loop] at rings'
  rw [carried.cadence, carried.first] at rings
  have zone_meant : op.copies → op.source zone = zone.ringcadence := by
    intro copied
    cases op with
    | setcadence => exact copied.elim
    | reset => exact copied.elim
    | settonezone => rfl
    | opened => rfl
  constructor
  · rintro ⟨rung, alike⟩
    refine ⟨rings.mp rung, ?_⟩
    intro copied
    rw [zone_meant copied] at rung
    apply rings'.mp
    intro some_ n
    obtain ⟨time, listed, seen⟩ := rung some_ n
    exact ⟨time, listed, (alike copied n _ _ _).mp seen⟩
  · rintro ⟨order, order'⟩
    have rung := rings.mpr order
    refine ⟨rung, ?_⟩
    intro copied
    rw [zone_meant copied] at rung zeros
    exact ring_alike ringable ringable' zeros zeros' rung (rings'.mpr (order' copied))

/-- A channel rings as the cadence that was installed says, and a copy of the
    cadence of the zone like the one DAHDI_SETCADENCE installs, exactly if the
    entries are in order. -/
theorem cadence_kept_iff (g : Globals) (op : Installer) (zone : Zone) (chan c : Chan)
    (ints : Ints (op.source zone)) (carried : Carries (op.apply chan) c)
    (ringable : Ringable zone c) : CadenceKept g op zone c ↔ op.InOrder chan zone :=
  kept_iff_in_order ints carried ringable

theorem runs_as_own {time : Int} (low : 1 ≤ time) (high : time ≤ 2 ^ 28) : RunsAs time time :=
  ⟨time.toNat, runs_for_own low high, by omega⟩

end installers

/-- Two rings and a pause that is gone back to. -/
def markedCadence : Nat → Int
  | 0 => 1000
  | 1 => 500
  | 2 => -2000
  | 3 => 4000
  | _ => 0

/-- A cadence that ends on. -/
def oddCadence : Nat → Int
  | 0 => 1000
  | 1 => 500
  | 2 => 800
  | _ => 0

def ringZone : Zone :=
  { num := 0
    ringcadence := fun i => if i = 0 then 2000 else if i = 1 then 4000 else 0
    tones := fun _ => none
    tone := fun _ => ⟨noWave, 0, none⟩ }

def zonedChan : Chan := { idleChan with curzone := some ringZone }

theorem zoned_ringable (cad : Nat → Int) :
    Ringable ringZone ((Installer.setcadence cad).apply zonedChan) :=
  take_ringable ⟨rfl, rfl, rfl, rfl⟩ cad

theorem marked_positions (n : Nat) : (listingOf markedCadence).position n < 4 := by
  have next : ∀ p < 4, (listingOf markedCadence).following p < 4 := by decide
  induction n with
  | zero => decide
  | succ n ih => exact next _ ih

theorem marked_in_order : (Installer.setcadence markedCadence).InOrder zonedChan ringZone := by
  refine ⟨fun _ => ⟨rfl, ?_, .inl ?_⟩, False.elim⟩
  · intro n
    have few := marked_positions n
    have times : ∀ p < 4, 1 ≤ (listingOf markedCadence).entries p ∧
        (listingOf markedCadence).entries p ≤ 2 ^ 28 := by decide
    obtain ⟨low, high⟩ := times _ few
    exact runs_as_own low high
  · intro n even
    have few := marked_positions n
    have listed : ∀ p < 4, p % 2 = 0 → (listingOf markedCadence).entries (p + 1) ≠ 0 := by decide
    exact listed _ few even

theorem cadence_kept_iff_marked :
    CadenceKept initialGlobals (.setcadence markedCadence) ringZone
      ((Installer.setcadence markedCadence).apply zonedChan) := by
  have ints : Ints markedCadence := by
    intro i
    unfold markedCadence
    split <;> decide
  exact (cadence_kept_iff initialGlobals (.setcadence markedCadence) ringZone zonedChan _ ints
    ⟨rfl, rfl, rfl⟩ (zoned_ringable markedCadence)).mpr marked_in_order

/-- After the last time on, the ringer is off for the first time of the zone. -/
theorem zone_time_after_last_on :
    ¬CadenceKept initialGlobals (.setcadence oddCadence) ringZone
      ((Installer.setcadence oddCadence).apply zonedChan) := by
  intro kept
  have ints : Ints oddCadence := by
    intro i
    unfold oddCadence
    split <;> decide
  have order := (@kept_iff_in_order _ ringZone zonedChan _ (.setcadence oddCadence) ints
    ⟨rfl, rfl, rfl⟩ (zoned_ringable oddCadence)).mp kept
  have some_ : (listingOf oddCadence).entries 0 ≠ 0 := by decide
  obtain ⟨_, _, off | ⟨_, k, runs, listed⟩⟩ := order.1 some_
  · exact off 2 (by decide) (by decide)
  · have zone_time : runsFor (ringZone.ringcadence 0) = some 2000 := by decide
    have first : (k : Int) = 1000 := listed
    rw [zone_time] at runs
    have whole := Option.some.inj runs
    omega

end Signalling
