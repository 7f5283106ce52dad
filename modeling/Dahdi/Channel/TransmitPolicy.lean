import Dahdi.Channel.BufferSpace

/-!
The policies that let the transmitter wait for the writer. txdisable is the
gate: it is to be shut whenever the write ring is empty, and to open when
enough has been written.
-/
namespace TransmitPolicy
open Channel RingInvariant GuardedRun BufferSpace
variable {T : Type} {env : Env T}

def RanDry (c : Chan T) : Prop := c.write.outbuf < 0

/-- Under WHEN_FULL and HALF_FULL the gate is shut while the ring is empty. -/
def Shut (c : Chan T) : Prop := startsWhenFull c = true → RanDry c → c.txdisable = true

/-- The ring is full, or half full where that is enough. -/
def Enough (c : Chan T) : Prop :=
  c.write.inbuf < 0 ∨ c.txbufpolicy = .halfFull ∧ (c.numbufs / 2 : Nat) ≤ numFilledBufs c

/-- The transmitter leaves the policy, never opens the gate, and shuts it when
    it takes the last buffer. -/
structure Drains (c c' : Chan T) : Prop where
  policy : c'.txbufpolicy = c.txbufpolicy
  stays : c.txdisable = true → c'.txdisable = true
  shuts : startsWhenFull c = true → RanDry c' → RanDry c ∨ c'.txdisable = true

theorem waits_policy {c c' : Chan T} (policy : c'.txbufpolicy = c.txbufpolicy) :
    startsWhenFull c' = startsWhenFull c := by
  unfold startsWhenFull
  rw [policy]

theorem drains_trans {a b c : Chan T} (first : Drains a b) (second : Drains b c) : Drains a c where
  policy := second.policy.trans first.policy
  stays shut := second.stays (first.stays shut)
  shuts waits dry := by
    rcases second.shuts ((waits_policy first.policy).trans waits) dry with before | shut
    · rcases first.shuts waits before with earlier | shut
      · exact Or.inl earlier
      · exact Or.inr (second.stays shut)
    · exact Or.inr shut

theorem drains_same {c c' : Chan T} (policy : c'.txbufpolicy = c.txbufpolicy)
    (gate : c'.txdisable = c.txdisable) (out : c'.write.outbuf = c.write.outbuf) : Drains c c' where
  policy := policy
  stays shut := gate.trans shut
  shuts _ dry := by
    unfold RanDry at dry ⊢
    rw [out] at dry
    exact Or.inl dry

theorem shut_drained {c c' : Chan T} (shut : Shut c) (drains : Drains c c') : Shut c' := by
  intro waits dry
  have waits' := (waits_policy drains.policy).symm.trans waits
  rcases drains.shuts waits' dry with before | gate
  · exact drains.stays (shut waits' before)
  · exact gate

/-- The buffer after one that holds data. -/
theorem next_low {old : Int} (held : -1 < old) (numbufs : Nat) : 0 ≤ (old + 1) % (numbufs : Int) := by
  cases numbufs with
  | zero =>
    rw [Int.natCast_zero, Int.emod_zero]
    omega
  | succ n => exact Int.emod_nonneg _ (by omega)

section Transmitter

theorem drains_status {c : Chan T} (held : -1 < c.write.outbuf) : Drains c (getbufStatus c) := by
  have next := next_low held c.numbufs
  simp only [getbufStatus]
  split
  · exact drains_same rfl rfl rfl
  · refine ⟨rfl, ?_, ?_⟩
    · intro shut
      simp only [shut, ite_self]
    · intro waits dry
      right
      unfold RanDry at dry
      simp only [waits, Bool.and_true]
      rw [if_pos]
      by_contra more
      have differ : (c.write.outbuf + 1) % (c.numbufs : Int) ≠ c.write.inbuf := by
        simpa using more
      simp only [differ, decide_false, Bool.false_eq_true, ↓reduceIte] at dry
      split at dry <;> simp only [Ring.release, if_neg differ] at dry <;> omega

theorem drains_after {c m : Chan T} (held : -1 < c.write.outbuf)
    (policy : m.txbufpolicy = c.txbufpolicy) (gate : m.txdisable = c.txdisable)
    (out : m.write.outbuf = c.write.outbuf) : Drains c (getbufStatus m) :=
  drains_trans (drains_same policy gate out) (drains_status (by rw [out]; exact held))

theorem drains_pass {c c' : Chan T} {bytes left : Int} {txb : List Fasthdlc.Octet} {under : Bool}
    (done : getbufPass env c bytes = some (txb, c', left, under)) : Drains c c' := by
  simp only [getbufPass] at done
  split at done
  · rename_i sending
    split at done
    · cases done
    · split at done
      · simp only [Option.some.injEq, Prod.mk.injEq] at done
        obtain ⟨_, rfl, _⟩ := done
        exact drains_after sending.1 rfl rfl rfl
      · split at done
        · cases done
        · simp only [Option.some.injEq, Prod.mk.injEq] at done
          obtain ⟨_, rfl, _⟩ := done
          exact drains_after sending.1 rfl rfl rfl
  · split at done
    · simp only [Option.some.injEq, Prod.mk.injEq] at done
      obtain ⟨_, rfl, _⟩ := done
      exact drains_same rfl rfl rfl
    · split at done
      · simp only [Option.some.injEq, Prod.mk.injEq] at done
        obtain ⟨_, rfl, _⟩ := done
        exact drains_same rfl rfl rfl
      · split at done
        · simp only [Option.some.injEq, Prod.mk.injEq] at done
          obtain ⟨_, rfl, _⟩ := done
          exact drains_same rfl rfl rfl
        · simp only [Option.some.injEq, Prod.mk.injEq] at done
          obtain ⟨_, rfl, _⟩ := done
          exact drains_same rfl rfl rfl

theorem drains_loop {fuel : Nat} {c c' : Chan T} {bytes : Int} {txb : List Fasthdlc.Octet}
    {under : Bool} (done : getbufLoop env fuel c bytes = some (txb, c', under)) : Drains c c' := by
  induction fuel generalizing c bytes txb under with
  | zero => simp [getbufLoop] at done
  | succ fuel ih =>
    unfold getbufLoop at done
    split at done
    · simp only [Option.some.injEq, Prod.mk.injEq] at done
      obtain ⟨_, rfl, _⟩ := done
      exact drains_same rfl rfl rfl
    · split at done
      · cases done
      · rename_i passed
        split at done
        · cases done
        · rename_i looped
          simp only [Option.some.injEq, Prod.mk.injEq] at done
          obtain ⟨_, rfl, _⟩ := done
          exact drains_trans (drains_pass passed) (ih looped)

theorem event_kept (c : Chan T) (event : Nat) : (qevent c event).txbufpolicy = c.txbufpolicy ∧
    (qevent c event).txdisable = c.txdisable ∧ (qevent c event).write = c.write := by
  unfold qevent
  split
  · exact ⟨rfl, rfl, rfl⟩
  · split <;> exact ⟨rfl, rfl, rfl⟩

theorem drains_chunk {fuel : Nat} {c c' : Chan T} {txb : List Fasthdlc.Octet}
    (done : getbufChunk env fuel c = some (txb, c')) : Drains c c' := by
  unfold getbufChunk at done
  split at done
  · cases done
  · rename_i txb' ms needtxunderrun looped
    have drains := drains_loop looped
    obtain ⟨policy, gate, write⟩ := event_kept ms eventWriteUnderrun
    split at done
    · split at done
      · simp only [Option.some.injEq, Prod.mk.injEq] at done
        obtain ⟨_, rfl⟩ := done
        exact drains
      · simp only [Option.some.injEq, Prod.mk.injEq] at done
        obtain ⟨_, rfl⟩ := done
        refine drains_trans drains (drains_same ?_ ?_ ?_)
        · split
          · exact policy
          · rfl
        · split
          · exact gate
          · rfl
        · split
          · exact congrArg Ring.outbuf write
          · rfl
    · simp only [Option.some.injEq, Prod.mk.injEq] at done
      obtain ⟨_, rfl⟩ := done
      exact drains_trans drains (drains_same rfl rfl rfl)

theorem drains_hdlc_getbuf {c c' : Chan T} {size stored : BitVec 32} {res : Int}
    {data : List Fasthdlc.Octet} (done : hdlcGetbuf c size = some (res, data, stored, c')) :
    Drains c c' := by
  simp only [hdlcGetbuf] at done
  split at done
  · rename_i held
    have next := next_low held c.numbufs
    split at done
    · cases done
    · split at done
      · simp only [Option.some.injEq, Prod.mk.injEq] at done
        obtain ⟨_, _, _, rfl⟩ := done
        refine ⟨rfl, ?_, ?_⟩
        · intro shut
          simp only [shut, ite_self]
        · intro waits dry
          right
          unfold RanDry at dry
          simp only [waits, Bool.and_true]
          rw [if_pos]
          by_contra more
          have differ : (c.write.outbuf + 1) % (c.numbufs : Int) ≠ c.write.inbuf := by
            simpa using more
          simp only [Ring.release, if_neg differ] at dry
          omega
      · simp only [Option.some.injEq, Prod.mk.injEq] at done
        obtain ⟨_, _, _, rfl⟩ := done
        exact drains_same rfl rfl rfl
  · simp only [Option.some.injEq, Prod.mk.injEq] at done
    obtain ⟨_, _, _, rfl⟩ := done
    exact drains_same rfl rfl rfl

end Transmitter

/-- Another write ring in place of the one there is. -/
def setWrite (c : Chan T) (w : Ring) : Chan T := { c with write := w }

/-- The chunk does not depend on what was written, and leaves it. -/
def Untouched (env : Env T) (c : Chan T) : Prop :=
  ∀ fuel w, getbufChunk env fuel (setWrite c w) =
    (getbufChunk env fuel c).map fun r => (r.1, setWrite r.2 w)

section Gate

theorem gate_pass {c : Chan T} (shut : c.txdisable = true) (w : Ring) (bytes : Int) :
    getbufPass env (setWrite c w) bytes =
      (getbufPass env c bytes).map fun r => (r.1, setWrite r.2.1 w, r.2.2) := by
  have closed (c : Chan T) (shut : c.txdisable = true) :
      ¬(-1 < c.write.outbuf ∧ c.txdisable = false) := by
    rw [shut]
    simp
  rw [getbufPass, getbufPass, if_neg (closed c shut), if_neg (closed (setWrite c w) shut)]
  by_cases tone : env.curtone c.tones = true ∧ c.pseudo = false
  · have tone' : env.curtone (setWrite c w).tones = true ∧ (setWrite c w).pseudo = false := tone
    rw [if_pos tone, if_pos tone']
    rfl
  · have tone' : ¬(env.curtone (setWrite c w).tones = true ∧ (setWrite c w).pseudo = false) := tone
    rw [if_neg tone, if_neg tone']
    by_cases looped : c.flags.looped = true
    · have looped' : (setWrite c w).flags.looped = true := looped
      rw [if_pos looped, if_pos looped']
      rfl
    · have looped' : ¬(setWrite c w).flags.looped = true := looped
      rw [if_neg looped, if_neg looped']
      by_cases hdlc : c.flags.hdlc = true
      · have hdlc' : (setWrite c w).flags.hdlc = true := hdlc
        rw [if_pos hdlc, if_pos hdlc']
        rfl
      · have hdlc' : ¬(setWrite c w).flags.hdlc = true := hdlc
        rw [if_neg hdlc, if_neg hdlc']
        rfl

theorem gate_loop {fuel : Nat} {c : Chan T} (shut : c.txdisable = true) (w : Ring) (bytes : Int) :
    getbufLoop env fuel (setWrite c w) bytes =
      (getbufLoop env fuel c bytes).map fun r => (r.1, setWrite r.2.1 w, r.2.2) := by
  induction fuel generalizing c bytes with
  | zero => rfl
  | succ fuel ih =>
    rw [getbufLoop, getbufLoop]
    split
    · rfl
    · rw [gate_pass shut]
      cases passed : getbufPass env c bytes with
      | none => rfl
      | some r =>
        obtain ⟨txb, ms, bytes', under⟩ := r
        have later := ih ((drains_pass passed).stays shut) bytes'
        simp only [Option.map_some, later]
        cases getbufLoop env fuel ms bytes' with
        | none => rfl
        | some r => rfl

theorem event_write (c : Chan T) (w : Ring) (event : Nat) :
    qevent (setWrite c w) event = setWrite (qevent c event) w := by
  unfold qevent
  by_cases last : c.eventoutidx = 0 ∧ c.eventinidx = maxEventsize - 1
  · have last' : (setWrite c w).eventoutidx = 0 ∧ (setWrite c w).eventinidx = maxEventsize - 1 := last
    rw [if_pos last, if_pos last']
  · have last' : ¬((setWrite c w).eventoutidx = 0 ∧ (setWrite c w).eventinidx = maxEventsize - 1) :=
      last
    rw [if_neg last, if_neg last']
    by_cases full : (c.eventinidx : Int) = (c.eventoutidx : Int) - 1
    · have full' : ((setWrite c w).eventinidx : Int) = ((setWrite c w).eventoutidx : Int) - 1 := full
      rw [if_pos full, if_pos full']
    · have full' : ¬((setWrite c w).eventinidx : Int) = ((setWrite c w).eventoutidx : Int) - 1 := full
      rw [if_neg full, if_neg full']
      rfl

theorem shut_untouched {c : Chan T} (shut : c.txdisable = true) : Untouched env c := by
  intro fuel w
  rw [getbufChunk, getbufChunk, gate_loop shut]
  cases getbufLoop env fuel c chunksize with
  | none => rfl
  | some r =>
    obtain ⟨txb, ms, under⟩ := r
    simp only [Option.map_some]
    split
    · have same : (setWrite ms w).txunderrun = ms.txunderrun := rfl
      rw [same]
      split
      · rfl
      · have events : (setWrite ms w).flags = ms.flags := rfl
        rw [events, event_write]
        split <;> rfl
    · rfl

end Gate

/-- What a writer does to the gate: it opens it only when there is enough, and
    no ring is empty after a write. -/
structure Writes (c c' : Chan T) : Prop where
  policy : c'.txbufpolicy = c.txbufpolicy
  some : ¬ RanDry c'
  opens : c.txdisable = true → c'.txdisable = false → Enough c'

theorem writes_announce (c : Chan T) {res : Int} (low : 0 ≤ res) : Writes c (announceWrite c res) := by
  have held : ¬ RanDry { c with write := c.write.handOver c.numbufs res } := by
    unfold RanDry
    simp only [Ring.handOver]
    split <;> omega
  simp only [announceWrite]
  split
  · rename_i half
    exact ⟨rfl, held, fun _ _ => Or.inr ⟨half.1, half.2.2⟩⟩
  · refine ⟨rfl, held, ?_⟩
    intro shut opened
    left
    simp only [shut, Bool.true_and, Bool.not_eq_false', decide_eq_true_eq] at opened
    simp only [Ring.handOver, if_pos opened]
    decide

theorem flush_gate (c : Chan T) (mask : Nat) :
    (flush c mask).txbufpolicy = c.txbufpolicy ∧ (flush c mask).txdisable = c.txdisable ∧
      (flush c mask).write =
        if mask &&& flushWrite ≠ 0 then c.write.clear c.numbufs 0 else c.write := by
  simp only [flush]
  split <;> split <;> split <;> exact ⟨rfl, rfl, rfl⟩

/-- Operations on the transmit side of a channel. `settings` is any other one. -/
inductive Step (T : Type) where
  | setBufinfo (bi : Bufinfo) (tx rx : Bool)
  | write (res : Int) (usr : List Fasthdlc.Octet)
  | flush (mask : Nat)
  | getbufChunk (fuel : Nat)
  | hdlcGetbuf (size : BitVec 32)
  | settings (changed : Chan T)

def applyStep (env : Env T) (c : Chan T) : Step T → Option (Chan T)
  | .setBufinfo bi tx rx => some (setBufinfo c bi tx rx).2
  | .write res usr => if 0 ≤ res then chanWriteCommit env c res usr else none
  | .flush mask => some (flush c mask)
  | .getbufChunk fuel => (getbufChunk env fuel c).map (·.2)
  | .hdlcGetbuf size => (hdlcGetbuf c size).map (·.2.2.2)
  | .settings changed => some { changed with
      numbufs := c.numbufs, read := c.read, write := c.write, txbufpolicy := c.txbufpolicy
      txdisable := c.txdisable }

/-- A channel, and whether its ring has been empty under a waiting policy and
    has not held enough since. -/
structure Line (T : Type) where
  chan : Chan T
  dry : Bool

instance (c : Chan T) : Decidable (RanDry c) := inferInstanceAs (Decidable (_ < _))

instance (c : Chan T) : Decidable (Enough c) := inferInstanceAs (Decidable (_ ∨ _ ∧ _))

def dryAfter (dry : Bool) (c : Chan T) : Bool :=
  startsWhenFull c && (decide (RanDry c) || dry && !decide (Enough c))

/-- A channel after dahdi_reallocbufs, and any operations that return. -/
def policySystem (env : Env T) : System (Line T) (Step T) where
  start l := (∃ c₀ blocksize numbufs tx rx,
    (reallocbufs c₀ blocksize numbufs tx rx).1 = 0 ∧
      l.chan = (reallocbufs c₀ blocksize numbufs tx rx).2) ∧ l.dry = dryAfter false l.chan
  step l s l' := applyStep env l.chan s = some l'.chan ∧ l'.dry = dryAfter l.dry l'.chan

/-- The checks of DAHDI_SET_BUFINFO. -/
def Accepted (bi : Bufinfo) : Prop :=
  bi.bufsize.toInt ≤ maxBlocksize ∧ 16 ≤ bi.bufsize.toInt ∧
    (bi.bufsize * bi.numbufs).toInt ≤ maxBufSpace

/-- Nothing empties the ring under a waiting policy, or brings such a policy to
    an empty ring, with the gate open. -/
def Kept (c : Chan T) : Step T → Prop
  | .flush mask => mask &&& flushWrite ≠ 0 → startsWhenFull c = true → c.txdisable = true
  | .setBufinfo bi tx rx => Accepted bi → (tx && rx) = false →
      policyOf bi.txbufpolicy ≠ .immediate → RanDry c → c.txdisable = true
  | _ => True

/-- DAHDI_SET_BUFINFO refuses, finds no memory or makes new buffers. -/
theorem bufinfo_cases (c : Chan T) (bi : Bufinfo) (tx rx : Bool) :
    (¬ Accepted bi ∧ (setBufinfo c bi tx rx).2 = c) ∨
    (Accepted bi ∧ (tx && rx) = false ∧
      (setBufinfo c bi tx rx).2 = { c with txbufpolicy := policyOf bi.txbufpolicy }) ∨
    (Accepted bi ∧ (tx && rx) = true ∧
      (setBufinfo c bi tx rx).2.txdisable = startsWhenFull (setBufinfo c bi tx rx).2) := by
  unfold setBufinfo Accepted
  split
  · exact Or.inl ⟨by omega, rfl⟩
  · split
    · exact Or.inl ⟨by omega, rfl⟩
    · rename_i low
      split
      · exact Or.inl ⟨by omega, rfl⟩
      · right
        have sized : bi.bufsize.toInt ≠ 0 := by omega
        simp only [reallocbufs, sized, ne_eq, not_false_eq_true, decide_true, Bool.true_and]
        cases memory : tx && rx with
        | false => exact Or.inl ⟨by omega, rfl, rfl⟩
        | true => exact Or.inr ⟨by omega, rfl, rfl⟩

theorem waits_iff (c : Chan T) (policy : Policy) :
    startsWhenFull { c with txbufpolicy := policy } = true ↔ policy ≠ .immediate := by
  cases policy <;> simp [startsWhenFull]

/-- One step: the gate stays right if and only if the step keeps it. -/
theorem shut_step {c c' : Chan T} {s : Step T} (shut : Shut c) (done : applyStep env c s = some c') :
    Shut c' ↔ Kept c s := by
  cases s with
  | setBufinfo bi tx rx =>
    obtain rfl := Option.some.inj done
    rcases bufinfo_cases c bi tx rx with ⟨refused, same⟩ | ⟨accepted, memory, same⟩ |
        ⟨accepted, memory, made⟩
    · rw [same]
      exact iff_of_true shut fun accepted => absurd accepted refused
    · rw [same]
      unfold Shut
      rw [waits_iff]
      exact ⟨fun kept _ _ => kept, fun kept => kept accepted memory⟩
    · refine iff_of_true (fun waits _ => made.trans waits) fun _ none => ?_
      rw [memory] at none
      cases none
  | write res usr =>
    simp only [Kept, iff_true]
    simp only [applyStep] at done
    split at done
    · rename_i low
      unfold chanWriteCommit at done
      split at done
      · obtain rfl := Option.some.inj done
        exact shut
      · split at done
        · cases done
        · obtain rfl := Option.some.inj done
          intro _ dry
          exact absurd dry (writes_announce _ low).some
    · cases done
  | flush mask =>
    obtain rfl := Option.some.inj done
    obtain ⟨policy, gate, write⟩ := flush_gate c mask
    have waits := waits_policy policy
    unfold Shut RanDry Kept
    rw [waits, gate, write]
    split
    · rename_i selected
      exact ⟨fun kept _ waits => kept waits (Int.negSucc_lt_zero 0), fun kept waits _ => kept selected waits⟩
    · rename_i spared
      exact iff_of_true shut fun selected => absurd selected spared
  | getbufChunk fuel =>
    obtain ⟨⟨txb, m⟩, returned, rfl⟩ := Option.map_eq_some_iff.mp done
    exact iff_of_true (shut_drained shut (drains_chunk returned)) trivial
  | hdlcGetbuf size =>
    obtain ⟨⟨res, data, stored, m⟩, returned, rfl⟩ := Option.map_eq_some_iff.mp done
    exact iff_of_true (shut_drained shut (drains_hdlc_getbuf returned)) trivial
  | settings changed =>
    obtain rfl := Option.some.inj done
    exact iff_of_true shut trivial

/-- As long as there was not enough the gate stays shut. -/
theorem dry_step {l l' : Line T} {s : Step T} (shut : Shut l.chan) (shut' : Shut l'.chan)
    (gate : l.dry = true → l.chan.txdisable = true)
    (done : applyStep env l.chan s = some l'.chan) (after : l'.dry = dryAfter l.dry l'.chan) :
    l'.dry = true → l'.chan.txdisable = true := by
  intro still
  rw [after] at still
  simp only [dryAfter, Bool.and_eq_true, Bool.or_eq_true, decide_eq_true_eq, Bool.not_eq_true',
    decide_eq_false_iff_not] at still
  obtain ⟨waits, empty | ⟨before, few⟩⟩ := still
  · exact shut' waits empty
  · have closed := gate before
    cases s with
    | setBufinfo bi tx rx =>
      have same := Option.some.inj done
      rcases bufinfo_cases l.chan bi tx rx with ⟨_, kept⟩ | ⟨_, _, kept⟩ | ⟨_, _, made⟩
      · rw [← same, kept]
        exact closed
      · rw [← same, kept]
        exact closed
      · rw [same] at made
        exact made.trans waits
    | write res usr =>
      simp only [applyStep] at done
      split at done
      · rename_i low
        unfold chanWriteCommit at done
        split at done
        · rw [← Option.some.inj done]
          exact closed
        · split at done
          · cases done
          · have same := Option.some.inj done
            rw [← same] at few ⊢
            by_contra opened
            exact few ((writes_announce _ low).opens closed (by simpa using opened))
      · cases done
    | flush mask =>
      rw [← Option.some.inj done, (flush_gate l.chan mask).2.1]
      exact closed
    | getbufChunk fuel =>
      obtain ⟨⟨txb, m⟩, returned, same⟩ := Option.map_eq_some_iff.mp done
      rw [← same]
      exact (drains_chunk returned).stays closed
    | hdlcGetbuf size =>
      obtain ⟨⟨res, data, stored, m⟩, returned, same⟩ := Option.map_eq_some_iff.mp done
      rw [← same]
      exact (drains_hdlc_getbuf returned).stays closed
    | settings changed =>
      rw [← Option.some.inj done]
      exact closed

section Concrete

/-- A channel with two buffers of 16 bytes that starts when both are full. -/
def fullPolicy : Line Unit :=
  let chan := (reallocbufs { zeroChan with txbufpolicy := .whenFull } 16 2 true true).2
  ⟨chan, dryAfter false chan⟩

theorem full_policy_start : Reach (policySystem silentEnv) anyStep fullPolicy ∧
    Reach (policySystem silentEnv) (fun l => Kept l.chan) fullPolicy :=
  ⟨.start ⟨⟨_, 16, 2, true, true, by decide, rfl⟩, rfl⟩,
    .start ⟨⟨_, 16, 2, true, true, by decide, rfl⟩, rfl⟩⟩

def lineAfter (l : Line Unit) (s : Step Unit) : Option (Line Unit) :=
  (applyStep silentEnv l.chan s).map fun c => ⟨c, dryAfter l.dry c⟩

end Concrete

end TransmitPolicy
