import Dahdi.Signalling.Timers

/-!
Ring cadences: DAHDI_SETCADENCE, set_tone_zone, the start of a ring and the turns
of the ringer of a ringing channel.
-/
namespace Signalling
open Tone

/-- The first ring-on entry that is negative. -/
def loopMarker (cad : Nat → Int) : Option Nat :=
  [0, 2, 4, 6, 8, 10, 12, 14].find? fun i => decide (cad i < 0)

/-- A cadence copied into the channel, with its loop marker taken out. -/
def takeCadence (chan : Chan) (cad : Nat → Int) : Chan :=
  match loopMarker cad with
  | none => { chan with ringcadence := cad, firstcadencepos := 0 }
  | some i =>
    { chan with
      ringcadence := Function.update cad i (int32 (-cad i))
      firstcadencepos := i }

/-- The cadence of a channel without a zone. -/
def plainCadence (starttime : Int) : Nat → Int
  | 0 => starttime
  | 1 => ringofftime
  | _ => 0

/-- DAHDI_SETCADENCE -/
def setcadence (cad : Option (Nat → Int)) (chan : Chan) : Chan :=
  match cad with
  | some cad => takeCadence chan cad
  | none =>
    match chan.curzone with
    | some zone => takeCadence chan zone.ringcadence
    | none =>
      { chan with ringcadence := plainCadence chan.times.starttime, firstcadencepos := 0 }

/-- set_tone_zone, with the zone it has found. -/
def setToneZone (zone : Zone) (chan : Chan) : Chan :=
  { chan with curzone := some zone, ringcadence := zone.ringcadence }

/-- The fields of the channel that dahdi_hangup resets. -/
def stopDialing (chan : Chan) : Chan :=
  { chan with
    dialing := false
    curtone := none
    pdialcount := 0
    cadencepos := 0
    txdialbuf := [] }

/-- dahdi_hangup, for a registered channel that is not clear. -/
def dahdiHangup (chan : Chan) : Chan :=
  if chan.line.span = false then chan
  else
    let chan := { chan with kewlonhook := false }
    let chan := if chan.sig.fxs then { chan with ringdebtimer := ringDebounceTime } else chan
    let chan :=
      if chan.line.rbs = true ∧ chan.sig ≠ .cas then
        if chan.sig = .fxoks ∧ chan.txstate ≠ .onhook ∧
            ¬(chan.rxhooksig = .onhook ∧ chan.itimer ≤ 0) then
          rbsSethook chan .kewl .kewl 500
        else rbsSethook chan .onhook .onhook 0
      else chan
    stopDialing chan

def defaultTimes (sig : Sig) : Times :=
  { prewinktime := 50
    preflashtime := 50
    winktime := 150
    flashtime := 750
    starttime := if sig.fxo then 2000 else 1500
    rxwinktime := 300
    rxflashtime := 1250
    debouncetime := 600
    pulsebreaktime := 50
    pulsemaketime := 50
    pulseaftertime := 750 }

/-- initialize_channel, with the zone that is the default one. -/
def initializeChannel (defaultZone : Option Zone) (chan : Chan) : Chan :=
  let chan :=
    { chan with
      digitmode := .dtmf
      dialing := false
      cadencepos := 0
      firstcadencepos := 0
      times := defaultTimes chan.sig
      itimerset := 0
      itimer := 0
      otimer := 0
      ringdebtimer := 0
      gotgs := false
      curtone := none
      tonep := 0
      pdialcount := 0
      events := [] }
  let chan := dahdiHangup chan
  let chan :=
    match chan.curzone with
    | some zone => { chan with ringcadence := zone.ringcadence }
    | none => { chan with ringcadence := plainCadence chan.times.starttime }
  match defaultZone with
  | some zone => setToneZone zone chan
  | none => chan

inductive HookError where
  | enodata
  | ebusy
  deriving DecidableEq, Repr

/-- DAHDI_HOOK with DAHDI_RING, on a span with robbed bit signalling. -/
def hookRing (chan : Chan) : Except HookError Chan :=
  let chan := { chan with curtone := none, dialing := false, txdialbuf := [], tonep := 0, pdialcount := 0 }
  if chan.curzone.isNone then .error .enodata
  else if chan.txstate ≠ .onhook then .error .ebusy
  else if chan.sig.fxo then
    .ok (rbsSethook { chan with cadencepos := 0 } .start .ringon (chan.ringcadence 0))
  else .ok (rbsSethook chan .start .start chan.times.starttime)

section runs
variable (g : Globals)

/-- Chunks up to the expiry of the transmit timer, and the channel after it. -/
inductive Lasts : Chan → Nat → Chan → Prop where
  | expires {c c' : Chan} : c.otimer ≠ 0 → int32 (c.otimer - chunksize) ≤ 0 →
      transmitTick g c = some c' → Lasts c 1 c'
  | runs {c middle c' : Chan} {k : Nat} : c.otimer ≠ 0 → 0 < int32 (c.otimer - chunksize) →
      transmitTick g c = some middle → Lasts middle k c' → Lasts c (k + 1) c'

/-- The channel at the beginning of its turns of the ringer, from the start of the
    ring. -/
inductive Turn (chan : Chan) : Nat → Chan → Prop where
  | ring {c : Chan} : hookRing chan = .ok c → Turn chan 0 c
  | next {n k : Nat} {c c' : Chan} : Turn chan n c → Lasts g c k c' → Turn chan (n + 1) c'

/-- The turn of this number is of the entry at a position and lasts that many
    chunks, of a millisecond each. -/
def Observed (chan : Chan) (n : Nat) (txsig : TxSig) (pos : Nat) (time : Nat) : Prop :=
  ∃ c c', Turn g chan n c ∧ c.txhooksig = txsig ∧ c.cadencepos = pos ∧ Lasts g c time c'

end runs

/-- A list of times and the entry to go on with after the last. -/
structure Listing where
  entries : Nat → Int
  loop : Nat

/-- A cadence as it is meant: the loop marker is the sign of its entry. -/
def listingOf (cad : Nat → Int) : Listing :=
  match loopMarker cad with
  | none => ⟨cad, 0⟩
  | some i => ⟨Function.update cad i (int32 (-cad i)), i⟩

namespace Listing

/-- The entry after another one: the next of the list, or the one the list goes
    back to. -/
def following (l : Listing) (p : Nat) : Nat :=
  if p + 1 < maxCadence ∧ l.entries (p + 1) ≠ 0 then p + 1 else l.loop

def position (l : Listing) : Nat → Nat
  | 0 => 0
  | n + 1 => l.following (l.position n)

end Listing

/-- The chunks a timer of this time runs for, if it runs. -/
def runsFor (time : Int) : Option Nat :=
  let timer := int32 (time * chunksize)
  if timer = 0 then none
  else if 0 < timer then some (timer / chunksize).toNat
  else if timer = -2 ^ 31 then some (2 ^ 28)
  else some 1

/-- An entry of up to 2^28 ms runs for its time. -/
theorem runs_for_own {time : Int} (low : 1 ≤ time) (high : time ≤ 2 ^ 28) :
    runsFor time = some time.toNat := by
  have timer : int32 (time * chunksize) = if time = 2 ^ 28 then -2 ^ 31 else time * 8 := by
    unfold chunksize
    by_cases top : time = 2 ^ 28
    · rw [if_pos top, top]
      decide
    · rw [if_neg top, int32_small (by omega) (by omega)]
  unfold runsFor
  simp only [timer]
  by_cases top : time = 2 ^ 28
  · rw [if_pos top, top]
    decide
  · rw [if_neg top, if_neg (by omega), if_pos (by omega)]
    unfold chunksize
    congr 1
    omega

section timers
variable {g : Globals} {c c' : Chan} {k m : Nat}

theorem expire_untimed (time : Int) :
    rbsOtimerExpire g { c with otimer := time } = rbsOtimerExpire g c := rfl

theorem tick_expires (set : c.otimer ≠ 0) (due : int32 (c.otimer - chunksize) ≤ 0) :
    transmitTick g c = rbsOtimerExpire g c := by
  rw [transmitTick, if_neg set]
  exact if_pos due

theorem tick_runs (set : c.otimer ≠ 0) (later : 0 < int32 (c.otimer - chunksize)) :
    transmitTick g c = some { c with otimer := int32 (c.otimer - chunksize) } := by
  rw [transmitTick, if_neg set]
  exact if_neg (Int.not_le.mpr later)

/-- A timer that is due runs for one chunk. -/
theorem lasts_due (set : c.otimer ≠ 0) (due : int32 (c.otimer - chunksize) ≤ 0) :
    Lasts g c k c' ↔ k = 1 ∧ rbsOtimerExpire g c = some c' := by
  constructor
  · intro lasts
    cases lasts with
    | expires _ _ moved => exact ⟨rfl, (tick_expires set due) ▸ moved⟩
    | runs _ later _ _ => omega
  · rintro ⟨rfl, moved⟩
    exact Lasts.expires set due (tick_expires set due ▸ moved)

theorem lasts_later (set : c.otimer ≠ 0) (later : 0 < int32 (c.otimer - chunksize)) :
    Lasts g c (k + 1) c' ↔ Lasts g { c with otimer := int32 (c.otimer - chunksize) } k c' := by
  constructor
  · intro lasts
    cases lasts with
    | expires _ due _ => omega
    | runs _ _ moved rest =>
      rw [tick_runs set later] at moved
      rw [Option.some.inj moved]
      exact rest
  · intro rest
    exact Lasts.runs set later (tick_runs set later) rest

theorem lasts_some (lasts : Lasts g c k c') : ∃ j, k = j + 1 := by
  cases lasts with
  | expires => exact ⟨0, rfl⟩
  | runs => exact ⟨_, rfl⟩

/-- A timer of a whole number of chunks runs for that many. -/
theorem lasts_chunks (timer : c.otimer = (m + 1 : Nat) * 8) (small : m + 1 < 2 ^ 28) :
    Lasts g c k c' ↔ k = m + 1 ∧ rbsOtimerExpire g c = some c' := by
  have set : c.otimer ≠ 0 := by omega
  have left : int32 (c.otimer - chunksize) = (m : Int) * 8 := by
    rw [timer, chunksize, int32_small (by omega) (by omega)]
    omega
  induction m generalizing c k with
  | zero => exact lasts_due set (by omega)
  | succ m ih =>
    have later : 0 < int32 (c.otimer - chunksize) := by omega
    have middle := @ih { c with otimer := int32 (c.otimer - chunksize) } (k - 1)
      (by simp only [left]) (by omega) (by simp only [left]; omega)
      (by
        simp only [left]
        rw [chunksize, int32_small (by omega) (by omega)]
        omega)
    rw [expire_untimed] at middle
    constructor
    · intro lasts
      obtain ⟨j, rfl⟩ := lasts_some lasts
      have rest := middle.mp ((lasts_later set later).mp lasts)
      exact ⟨by omega, rest.2⟩
    · rintro ⟨rfl, moved⟩
      exact (lasts_later set later).mpr (middle.mpr ⟨by omega, moved⟩)

/-- How long a timer runs that was set to a time. -/
theorem lasts_iff {time : Int} (timer : c.otimer = int32 (time * chunksize)) :
    Lasts g c k c' ↔ runsFor time = some k ∧ rbsOtimerExpire g c = some c' := by
  have bounds := int32_bounds (time * chunksize)
  have multiple := int32_multiple time
  unfold runsFor
  simp only [← timer] at bounds multiple ⊢
  by_cases stopped : c.otimer = 0
  · rw [if_pos stopped]
    constructor
    · intro lasts
      cases lasts with
      | expires set => exact absurd stopped set
      | runs set => exact absurd stopped set
    · rintro ⟨never, _⟩
      cases never
  rw [if_neg stopped]
  by_cases ahead : 0 < c.otimer
  · rw [if_pos ahead]
    obtain ⟨m, chunks⟩ : ∃ m : Nat, c.otimer = (m + 1 : Nat) * 8 :=
      ⟨(c.otimer / 8).toNat - 1, by omega⟩
    have count : (c.otimer / chunksize).toNat = m + 1 := by
      rw [chunksize]
      omega
    rw [count, lasts_chunks chunks (by omega), Option.some.injEq, eq_comm]
  · rw [if_neg ahead]
    by_cases lowest : c.otimer = -2 ^ 31
    · rw [if_pos lowest]
      have left : int32 (c.otimer - chunksize) = (2 ^ 28 - 2 + 1 : Nat) * 8 := by
        rw [lowest]
        decide
      have later : 0 < int32 (c.otimer - chunksize) := by
        rw [left]
        decide
      have rest := @lasts_chunks g { c with otimer := int32 (c.otimer - chunksize) } c' (k - 1)
        (2 ^ 28 - 2) left (by decide)
      rw [expire_untimed] at rest
      constructor
      · intro lasts
        obtain ⟨j, rfl⟩ := lasts_some lasts
        have done := rest.mp ((lasts_later stopped later).mp lasts)
        exact ⟨congrArg some (by omega), done.2⟩
      · rintro ⟨count, moved⟩
        have whole := Option.some.inj count
        obtain ⟨j, rfl⟩ : ∃ j, k = j + 1 := ⟨k - 1, by omega⟩
        exact (lasts_later stopped later).mpr (rest.mpr ⟨by omega, moved⟩)
    · rw [if_neg lowest]
      have due : int32 (c.otimer - chunksize) ≤ 0 := by
        rw [chunksize, int32_small (by omega) (by omega)]
        omega
      rw [lasts_due stopped due, Option.some.injEq, eq_comm]

end timers

end Signalling
