import Dahdi.Library.GuardedRun
import Dahdi.Voicebus.Tasklet

/-!
The latency of a VoiceBus card: voicebus_set_minlatency, voicebus_set_maxlatency and what
vb_increase_latency makes of an underrun.
-/
namespace VoicebusLatency
open Voicebus GuardedRun

def VOICEBUS_DEFAULT_LATENCY : BitVec 32 := 3
def VOICEBUS_DEFAULT_MAXLATENCY : BitVec 32 := 25

structure Latency where
  minTxBufferCount : BitVec 32
  maxLatency : BitVec 32
  locked : Bool
  deriving DecidableEq, Repr

inductive Op where
  | setMinlatency (ms : BitVec 32)
  | setMaxlatency (maxLatency : BitVec 32)
  | lock (on : Bool)
  | underrun (behind : BitVec 32)
  deriving DecidableEq, Repr

section Code

def EINVAL : Int := 22

def setMinlatency (ms : BitVec 32) (s : Latency) : Int × Latency :=
  if BitVec.ofNat 32 DRING_SIZE < ms then (-EINVAL, s)
  else if ms < VOICEBUS_DEFAULT_LATENCY then (-EINVAL, s)
  else (0, { s with minTxBufferCount := ms })

/-- clamp of the kernel: the upper bound is the last word. -/
def clamp (val low high : BitVec 32) : BitVec 32 :=
  let val := if val < low then low else val
  if high < val then high else val

def setMaxlatency (maxLatency : BitVec 32) (s : Latency) : Latency :=
  { s with maxLatency := clamp maxLatency s.minTxBufferCount VOICEBUS_DEFAULT_MAXLATENCY }

/-- How many times vb_increase_latency allocates a buffer. -/
def increase (behind : BitVec 32) (s : Latency) : BitVec 32 :=
  if behind = 0 ∨ s.locked = true then 0
  else
    let increase := if VOICEBUS_MAXLATENCY_BUMP < behind then VOICEBUS_MAXLATENCY_BUMP else behind
    if s.maxLatency < increase + s.minTxBufferCount then s.maxLatency - s.minTxBufferCount else increase

def increaseLatency (behind : BitVec 32) (s : Latency) : Latency :=
  { s with minTxBufferCount := s.minTxBufferCount + increase behind s }

def next (s : Latency) (op : Op) : Latency :=
  match op with
  | .setMinlatency ms => (setMinlatency ms s).2
  | .setMaxlatency maxLatency => setMaxlatency maxLatency s
  | .lock on => { s with locked := on }
  | .underrun behind => increaseLatency behind s

/-- The end of voicebus_init. -/
def fresh : Latency := ⟨VOICEBUS_DEFAULT_LATENCY, VOICEBUS_DEFAULT_MAXLATENCY, false⟩

def sys : System Latency Op := ⟨fun s => s = fresh, fun s op s' => next s op = s'⟩

def latencyOf (vb : Vb) : Latency := ⟨vb.minTxBufferCount, vb.maxLatency, vb.latencyLocked⟩

/-- vb_tasklet_normal increases the latency so. -/
theorem tasklet_increase (vb : Vb) (behind : Nat) :
    increaseOf vb behind = increase (BitVec.ofNat 32 behind) (latencyOf vb) :=
  rfl

end Code

section Bounds
variable {s : Latency}

structure Bounded (s : Latency) : Prop where
  min : s.minTxBufferCount ≤ BitVec.ofNat 32 DRING_SIZE
  max : s.maxLatency ≤ VOICEBUS_DEFAULT_MAXLATENCY

theorem clamp_high (val low high : BitVec 32) : clamp val low high ≤ high := by
  rw [clamp]
  split
  · split
    · exact BitVec.le_refl high
    · rename_i fits
      exact BitVec.not_lt.mp fits
  · split
    · exact BitVec.le_refl high
    · rename_i fits
      exact BitVec.not_lt.mp fits

/-- An increase in the words of the numbers: it stops at the bump and at the maximum, unless the
    minimum is above the maximum already. -/
theorem increase_spec (bounded : Bounded s) (behind : BitVec 32) :
    (behind = 0 ∨ s.locked = true) ∧ increase behind s = 0 ∨
    ¬ (behind = 0 ∨ s.locked = true) ∧ s.minTxBufferCount ≤ s.maxLatency ∧
      increase behind s ≤ VOICEBUS_MAXLATENCY_BUMP ∧
      (s.minTxBufferCount + increase behind s).toNat = s.minTxBufferCount.toNat + (increase behind s).toNat ∧
      s.minTxBufferCount + increase behind s ≤ s.maxLatency ∨
    ¬ (behind = 0 ∨ s.locked = true) ∧ s.maxLatency < s.minTxBufferCount ∧
      increase behind s = s.maxLatency - s.minTxBufferCount := by
  have below := bounded.min
  have above := bounded.max
  rw [increase]
  have bump : VOICEBUS_MAXLATENCY_BUMP = 6 := rfl
  have ring : BitVec.ofNat 32 DRING_SIZE = 128 := rfl
  have most : VOICEBUS_DEFAULT_MAXLATENCY = 25 := rfl
  rw [bump]
  rw [ring] at below
  rw [most] at above
  by_cases idle : behind = 0 ∨ s.locked = true
  · rw [if_pos idle]
    exact .inl ⟨idle, rfl⟩
  · rw [if_neg idle]
    refine .inr ?_
    dsimp only
    by_cases under : s.minTxBufferCount ≤ s.maxLatency
    · refine .inl ⟨idle, under, ?_⟩
      split <;> split <;> bv_omega
    · refine .inr ⟨idle, BitVec.not_le.mp under, ?_⟩
      split <;> split <;> bv_omega

theorem word_zero (x : BitVec 32) : x + 0 = x := BitVec.add_zero x

theorem bounded_next (bounded : Bounded s) (op : Op) : Bounded (next s op) := by
  cases op with
  | setMinlatency ms =>
    rw [next, setMinlatency]
    split
    · exact bounded
    · rename_i fits
      split
      · exact bounded
      · exact ⟨BitVec.not_lt.mp fits, bounded.max⟩
  | setMaxlatency maxLatency => exact ⟨bounded.min, clamp_high _ _ _⟩
  | lock on => exact ⟨bounded.min, bounded.max⟩
  | underrun behind =>
    refine ⟨?_, bounded.max⟩
    have ring : VOICEBUS_DEFAULT_MAXLATENCY ≤ BitVec.ofNat 32 DRING_SIZE := by decide
    have most := BitVec.le_trans bounded.max ring
    change s.minTxBufferCount + increase behind s ≤ BitVec.ofNat 32 DRING_SIZE
    rcases increase_spec bounded behind with ⟨_, none⟩ | ⟨_, _, _, _, capped⟩ | ⟨_, _, wrapped⟩
    · rw [none, word_zero]
      exact bounded.min
    · exact BitVec.le_trans capped most
    · rw [wrapped, BitVec.add_comm, BitVec.sub_add_cancel]
      exact most

theorem bounded_run (reached : Reach sys anyStep s) : Bounded s := by
  apply @invariant_run _ _ sys anyStep Bounded _ _ s reached
  · rintro _ rfl
    exact ⟨by decide, by decide⟩
  · rintro s op _ bounded _ rfl
    exact bounded_next bounded op

/-- The minimum stays within the ring and is never raised above the maximum; an underrun allocates
    no more than the bump just when the minimum is not above the maximum before it. -/
theorem latency_bounded (reached : Reach sys anyStep s) :
    s.minTxBufferCount ≤ BitVec.ofNat 32 DRING_SIZE ∧ ∀ behind,
      (s.minTxBufferCount < (increaseLatency behind s).minTxBufferCount →
        (increaseLatency behind s).minTxBufferCount ≤ s.maxLatency) ∧
      (increase behind s ≤ VOICEBUS_MAXLATENCY_BUMP ↔
        behind = 0 ∨ s.locked = true ∨ s.minTxBufferCount ≤ s.maxLatency) := by
  have bounded := bounded_run reached
  refine ⟨bounded.min, fun behind => ?_⟩
  change (s.minTxBufferCount < s.minTxBufferCount + increase behind s → s.minTxBufferCount + increase behind s ≤ _) ∧ _
  rcases increase_spec bounded behind with ⟨idle, none⟩ | ⟨_, under, few, _, capped⟩ | ⟨running, past, wrapped⟩
  · rw [none, word_zero]
    refine ⟨fun raised => absurd raised (BitVec.lt_irrefl _), iff_of_true (by decide) ?_⟩
    rcases idle with zero | locked
    · exact .inl zero
    · exact .inr (.inl locked)
  · exact ⟨fun _ => capped, iff_of_true few (.inr (.inr under))⟩
  · have below := bounded.min
    rw [wrapped, BitVec.add_comm, BitVec.sub_add_cancel]
    refine ⟨fun _ => BitVec.le_refl _, iff_of_false (fun few => ?_) ?_⟩
    · have bump : VOICEBUS_MAXLATENCY_BUMP = 6 := rfl
      have ring : BitVec.ofNat 32 DRING_SIZE = 128 := rfl
      rw [bump] at few
      rw [ring] at below
      bv_omega
    · rintro (zero | locked | under)
      · exact running (.inl zero)
      · exact running (.inr locked)
      · exact absurd past (BitVec.not_lt.mpr under)

def untilRaised : Latency := next (next fresh (.setMinlatency 100)) (.setMaxlatency 25)

theorem until_raised_reached : Reach sys anyStep untilRaised :=
  .step (.step (.start rfl) trivial rfl) trivial rfl

/-- A minimum of 100, which the ring allows and the maximum cannot follow. -/
theorem latency_bounded_raised : untilRaised.minTxBufferCount ≤ BitVec.ofNat 32 DRING_SIZE ∧
    ¬ increase 1 untilRaised ≤ VOICEBUS_MAXLATENCY_BUMP := by
  obtain ⟨ring, increases⟩ := latency_bounded until_raised_reached
  refine ⟨ring, fun few => ?_⟩
  exact absurd ((increases 1).2.mp few) (by decide)

/-- The next underrun allocates 4294967221 buffers. -/
theorem increase_wraps : ¬ ∀ s, Reach sys anyStep s → ∀ behind, increase behind s ≤ VOICEBUS_MAXLATENCY_BUMP := by
  intro always
  have few := always untilRaised until_raised_reached 1
  have wraps : increase 1 untilRaised = 4294967221 := by decide
  rw [wraps] at few
  exact absurd few (by decide)

end Bounds

end VoicebusLatency
