import Dahdi.Channel.ReadCall

/-!
The read ring while a reader copies without the lock. A commit goes on from the
index its reader has seen, whatever has become of the ring since.
-/
namespace ReadRace
open Channel CyclicCursor GuardedRun RingInvariant ReadCall Fasthdlc
variable {T : Type}

/-- The buffers with unread data are those between the cursors. -/
structure Unread (c : Chan T) : Prop where
  two : 2 ≤ c.numbufs
  sized : c.blocksize ≠ 0
  started : ∀ x, x < c.numbufs → 0 ≤ c.read.idx x
  valid : Valid c.numbufs c.read.inbuf c.read.outbuf (met c.numbufs c.read.inbuf c.read.outbuf)
  ready : ∀ x, x < c.numbufs → (0 < c.read.n x ↔ x ∈ met c.numbufs c.read.inbuf c.read.outbuf)

/-- The reader's cursor is at -1 or at unread data, the filler's never at
    unread data. -/
structure ReadLaw (c : Chan T) : Prop where
  reader : c.read.outbuf = -1 ∨ 0 ≤ c.read.outbuf ∧ 0 < c.read.n c.read.outbuf.toNat
  filler : 0 ≤ c.read.inbuf → ¬ 0 < c.read.n c.read.inbuf.toNat

theorem read_law {c : Chan T} (ok : Unread c) : ReadLaw c := by
  constructor
  · rcases ok.valid.outRange with none | ⟨low, high⟩
    · exact Or.inl none
    · obtain ⟨rest, filled⟩ := valid_head ok.valid low
      right
      refine ⟨low, (ok.ready _ (by omega)).mpr ?_⟩
      rw [filled]
      exact List.mem_cons_self
  · intro free
    rcases ok.valid.inRange with none | ⟨low, high⟩
    · omega
    · rw [ok.ready _ (by omega)]
      exact valid_free ok.valid free

section Chunks

theorem unread_fills {c c' : Chan T} (ok : Unread c) (fills : Fills c c') : Unread c' := by
  obtain ⟨numbufs, blocksize, _, inn, out, _, ready, _, started⟩ := fills
  refine ⟨?_, ?_, ?_, ?_, ?_⟩
  · rw [numbufs]
    exact ok.two
  · rw [blocksize]
    exact ok.sized
  · rw [numbufs]
    intro x below
    exact started x (ok.started x below)
  · rw [numbufs, inn, out]
    exact ok.valid
  · rw [numbufs, inn, out, ready]
    exact ok.ready

/-- A buffer with data joins those between the cursors. -/
theorem unread_hand_over {c c' : Chan T} (ok : Unread c) (free : 0 ≤ c.read.inbuf)
    (some : 0 < c.read.idx c.read.inbuf.toNat) (numbufs : c'.numbufs = c.numbufs)
    (blocksize : c'.blocksize = c.blocksize) (read : c'.read = { c.read with
      n := Channel.set c.read.n c.read.inbuf.toNat (c.read.idx c.read.inbuf.toNat) }.handOver
        c.numbufs c.read.inbuf) : Unread c' := by
  have valid := valid_fill ok.two ok.valid free
  have walked := valid.walked
  rw [walked] at valid
  refine ⟨by rw [numbufs]; exact ok.two, by rw [blocksize]; exact ok.sized, ?_, ?_, ?_⟩
  · rw [numbufs, read]
    exact ok.started
  · rw [numbufs, read]
    exact valid
  · rw [numbufs, read]
    intro x below
    change 0 < Channel.set c.read.n c.read.inbuf.toNat _ x ↔
      x ∈ met c.numbufs (fillIn c.numbufs c.read.inbuf c.read.outbuf)
        (fillOut c.read.inbuf c.read.outbuf)
    rw [← walked, List.mem_append, List.mem_singleton]
    rcases Nat.decEq x c.read.inbuf.toNat with other | rfl
    · rw [set_other _ _ other, ok.ready x below]
      exact ⟨Or.inl, fun member => member.resolve_right other⟩
    · rw [set_same]
      exact ⟨fun _ => Or.inr rfl, fun _ => some⟩

theorem unread_eof {env : Env T} {c c' : Chan T} (ok : Unread c) (free : 0 ≤ c.read.inbuf)
    (some : 0 < c.read.idx c.read.inbuf.toNat)
    (done : putbufEof env c c.read.inbuf.toNat = .some c') : Unread c' := by
  have slot : ((c.read.inbuf.toNat : Nat) : Int) = c.read.inbuf := by omega
  have spare := valid_free ok.valid free
  unfold putbufEof at done
  rw [slot] at done
  simp only at done
  split at done
  · split at done
    · simp at done
    · simp only [Option.some.injEq] at done
      subst done
      refine ⟨ok.two, ok.sized, ?_, ok.valid, ?_⟩
      · intro x below
        simp only
        rcases Nat.decEq x c.read.inbuf.toNat with other | rfl
        · rw [set_other _ _ other]
          exact ok.started x below
        · rw [set_same]
      · intro x below
        simp only
        rcases Nat.decEq x c.read.inbuf.toNat with other | rfl
        · rw [set_other _ _ other, set_other _ _ other]
          exact ok.ready x below
        · rw [set_same]
          exact ⟨fun absurd_ => by omega, fun member => absurd member spare⟩
    · simp only [Option.some.injEq] at done
      subst done
      exact unread_hand_over ok free some rfl rfl rfl
  · simp only [Option.some.injEq] at done
    subst done
    exact unread_hand_over ok free some rfl rfl rfl

theorem unread_kept (env : Env T) : KeptByChunk env Unread where
  fills := unread_fills
  started ok free := by
    rcases ok.valid.inRange with none | ⟨low, high⟩
    · omega
    · exact ⟨ok.started _ (by omega), ok.sized⟩
  eof := unread_eof

end Chunks

section Resets

theorem unread_empty {c : Chan T} (two : 2 ≤ c.numbufs) (sized : c.blocksize ≠ 0)
    (inn : c.read.inbuf = 0) (out : c.read.outbuf = -1)
    (empty : ∀ x, x < c.numbufs → c.read.n x = 0 ∧ c.read.idx x = 0) : Unread c := by
  refine ⟨two, sized, ?_, ?_, ?_⟩
  · intro x below
    rw [(empty x below).2]
  · rw [inn, out, met_empty]
    exact valid_start (by omega)
  · intro x below
    rw [(empty x below).1, out, met_empty]
    simp

theorem unread_reallocbufs {c : Chan T} {blocksize numbufs : Int} {tx rx : Bool}
    (sized : blocksize ≠ 0) (done : (reallocbufs c blocksize numbufs tx rx).1 = 0) :
    Unread (reallocbufs c blocksize numbufs tx rx).2 := by
  rw [reallocbufs_done done]
  apply unread_empty (clamp_two numbufs) sized
  · simp [Ring.realloc, Ring.clear, sized]
  · rfl
  · intro x below
    simp only at below
    simp [Ring.realloc, Ring.clear, below]

/-- A call that fails leaves the ring as it was. -/
theorem unread_realloc_step {c : Chan T} (ok : Unread c) {blocksize : Int} (sized : blocksize ≠ 0)
    (numbufs : Int) (tx rx : Bool) : Unread (reallocbufs c blocksize numbufs tx rx).2 := by
  rcases eq_or_ne (reallocbufs c blocksize numbufs tx rx).1 0 with done | failed
  · exact unread_reallocbufs sized done
  · unfold reallocbufs at failed ⊢
    simp only at failed ⊢
    split
    · exact ok
    · rename_i enough
      rw [if_neg enough] at failed
      exact absurd rfl failed

theorem unread_same {c c' : Chan T} (ok : Unread c) (numbufs : c'.numbufs = c.numbufs)
    (blocksize : c'.blocksize = c.blocksize) (read : c'.read = c.read) : Unread c' := by
  obtain ⟨two, sized, started, valid, ready⟩ := ok
  rw [← numbufs, ← read] at started valid ready
  exact ⟨by omega, by rw [blocksize]; exact sized, started, valid, ready⟩

theorem unread_set_bufinfo {c : Chan T} (ok : Unread c) (bufsize numbufs : Int) (txbufpolicy : Nat)
    (tx rx : Bool) : Unread (setBufinfo c bufsize numbufs txbufpolicy tx rx).2 := by
  unfold setBufinfo
  split
  · exact ok
  · split
    · exact ok
    · rename_i large
      split
      · exact ok
      · have sized : bufsize ≠ 0 := by omega
        have set_ : Unread { c with txbufpolicy := policyOf txbufpolicy } :=
          unread_same ok rfl rfl rfl
        exact unread_realloc_step set_ sized numbufs tx rx

theorem unread_set_blocksize {c : Chan T} (ok : Unread c) (j : Int) (tx rx : Bool) :
    Unread (setBlocksize c j tx rx).2 := by
  unfold setBlocksize
  split
  · exact ok
  · split
    · exact ok
    · exact unread_realloc_step ok (by omega) c.numbufs tx rx

theorem unread_flush {c : Chan T} (ok : Unread c) (mask : Nat) : Unread (flush c mask) := by
  have first : Unread (if mask &&& flushRead ≠ 0 then
      { c with read := c.read.clear c.numbufs 0 } else c) := by
    split
    · refine @unread_empty T { c with read := c.read.clear c.numbufs 0 } ok.two ok.sized rfl rfl ?_
      intro x below
      simp only at below
      simp [Ring.clear, below]
    · exact ok
  have second {m : Chan T} (holds : Unread m) : Unread (if mask &&& flushWrite ≠ 0 then
      { m with write := m.write.clear m.numbufs 0 } else m) := by
    split
    · exact unread_same holds rfl rfl rfl
    · exact holds
  have third {m : Chan T} (holds : Unread m) : Unread (if mask &&& flushEvent ≠ 0 then
      { m with eventinidx := 0, eventoutidx := 0 } else m) := by
    split
    · exact unread_same holds rfl rfl rfl
    · exact holds
  exact third (second first)

theorem unread_event {c : Chan T} (ok : Unread c) : Unread (getEvent c).2 := by
  unfold getEvent
  split
  · exact ok
  · exact unread_same ok rfl rfl rfl

end Resets

section Commit
variable {c : Chan T} {res : Int}

theorem release_ready (emptied : ∀ x, x < c.numbufs →
      (x ∈ met c.numbufs (releaseRead c res).read.inbuf (releaseRead c res).read.outbuf ↔
        x ∈ met c.numbufs c.read.inbuf c.read.outbuf ∧ x ≠ res.toNat))
    (ready : ∀ x, x < c.numbufs → (0 < c.read.n x ↔ x ∈ met c.numbufs c.read.inbuf c.read.outbuf))
    (x : Nat) (below : x < c.numbufs) : 0 < (releaseRead c res).read.n x ↔
      x ∈ met c.numbufs (releaseRead c res).read.inbuf (releaseRead c res).read.outbuf := by
  rw [emptied x below]
  simp only [releaseRead, Ring.release]
  rcases Nat.decEq x res.toNat with other | rfl
  · rw [set_other _ _ other, ready x below]
    exact ⟨fun member => ⟨member, other⟩, fun kept => kept.1⟩
  · rw [set_same]
    exact ⟨fun absurd_ => by omega, fun kept => absurd rfl kept.2⟩

/-- A commit keeps the ring in order exactly when its index fits. -/
theorem commit_fits (ok : Unread c) (low : 0 ≤ res) :
    Unread (releaseRead c res) ↔ Fits c.numbufs c.read.inbuf c.read.outbuf res := by
  constructor
  · intro after
    apply fits_emptied ok.two ok.valid low
    refine ⟨after.valid, fun x below => ?_⟩
    have ready := after.ready x below
    change x ∈ met (releaseRead c res).numbufs (releaseRead c res).read.inbuf
      (releaseRead c res).read.outbuf ↔ _
    rw [← ready, ← ok.ready x below]
    simp only [releaseRead, Ring.release]
    rcases Nat.decEq x res.toNat with other | rfl
    · rw [set_other _ _ other]
      exact ⟨fun some => ⟨some, other⟩, fun kept => kept.1⟩
    · rw [set_same]
      exact ⟨fun absurd_ => by omega, fun kept => absurd rfl kept.2⟩
  · intro fits
    obtain ⟨valid, others⟩ := emptied_fits ok.two ok.valid low fits
    refine ⟨ok.two, ok.sized, ?_, valid, release_ready others ok.ready⟩
    intro x below
    simp only [releaseRead, Ring.release]
    rcases Nat.decEq x res.toNat with other | rfl
    · rw [set_other _ _ other]
      exact ok.started x below
    · rw [set_same]

end Commit

/-- The index a reader is about to commit still has a place in the ring. -/
def Rejoins (c : Chan T) : Reader → Prop
  | .copied res _ => Fits c.numbufs c.read.inbuf c.read.outbuf res
  | .idle | .looked .. => True

def Timely (s : Session T) : Call → Prop
  | .commit => Rejoins s.chan s.reader
  | _ => True

/-- A channel after dahdi_reallocbufs with some block size. -/
def OpenStart (c : Chan T) : Prop :=
  ∃ c₀ blocksize numbufs tx rx, blocksize ≠ 0 ∧
    (reallocbufs c₀ blocksize numbufs tx rx).1 = 0 ∧ c = (reallocbufs c₀ blocksize numbufs tx rx).2

/-- The reader remembers an index it has found. -/
def Remembers (s : Session T) : Prop :=
  match s.reader with
  | .idle => True
  | .looked res _ => 0 ≤ res
  | .copied res _ => 0 ≤ res

structure RaceOk (s : Session T) : Prop where
  ring : Unread s.chan
  reader : Remembers s

section Steps
variable {env : Env T} {s s' : Session T}

theorem race_look {count : Nat} (ok : RaceOk s) (done : applyCall env s (.look count) = some s') :
    RaceOk s' := by
  cases at_ : s.reader with
  | idle =>
    simp only [applyCall, at_, Option.some.injEq] at done
    subst done
    unfold look
    split
    · exact ok
    · split
      · rename_i found
        exact ⟨ok.ring, found⟩
      · exact ok
  | looked res count => simp [applyCall, at_] at done
  | copied res data => simp [applyCall, at_] at done

theorem race_reading (ok : RaceOk s) (done : applyCall env s .copy = some s' ∨
    applyCall env s .fault = some s') : RaceOk s' := by
  have reader := ok.reader
  cases at_ : s.reader with
  | idle => simp [applyCall, at_] at done
  | copied res data => simp [applyCall, at_] at done
  | looked res count =>
    simp only [Remembers, at_] at reader
    simp only [applyCall, at_, Option.map_eq_some_iff, Option.some.injEq] at done
    rcases done with ⟨data, _, rfl⟩ | rfl
    · exact ⟨ok.ring, reader⟩
    · exact ⟨ok.ring, trivial⟩

theorem race_commit (ok : RaceOk s) (timely : Timely s .commit)
    (done : applyCall env s .commit = some s') : RaceOk s' := by
  have reader := ok.reader
  cases at_ : s.reader with
  | idle => simp [applyCall, at_] at done
  | looked res count => simp [applyCall, at_] at done
  | copied res data =>
    simp only [Remembers, at_] at reader
    simp only [Timely, Rejoins, at_] at timely
    simp only [applyCall, at_, Option.some.injEq] at done
    subst done
    exact ⟨(commit_fits ok.ring reader).mpr timely, trivial⟩

theorem race_step {call : Call} (ok : RaceOk s) (timely : Timely s call)
    (done : applyCall env s call = some s') : RaceOk s' := by
  cases call with
  | chunk rxb =>
    obtain ⟨c, returned, rfl⟩ := Option.map_eq_some_iff.mp done
    exact ⟨kept_putbuf_chunk (unread_kept env) ok.ring returned, ok.reader⟩
  | look count => exact race_look ok done
  | copy => exact race_reading ok (Or.inl done)
  | fault => exact race_reading ok (Or.inr done)
  | commit => exact race_commit ok timely done
  | getEvent =>
    obtain rfl := Option.some.inj done
    exact ⟨unread_event ok.ring, ok.reader⟩
  | flush mask =>
    obtain rfl := Option.some.inj done
    exact ⟨unread_flush ok.ring mask, ok.reader⟩
  | setBufinfo bufsize numbufs txbufpolicy tx rx =>
    obtain rfl := Option.some.inj done
    exact ⟨unread_set_bufinfo ok.ring bufsize numbufs txbufpolicy tx rx, ok.reader⟩
  | setBlocksize j tx rx =>
    obtain rfl := Option.some.inj done
    exact ⟨unread_set_blocksize ok.ring j tx rx, ok.reader⟩

/-- In every interleaving whose commits are timely the read ring keeps its law. -/
theorem read_ring_kept (env : Env T) {s : Session T}
    (reached : Reach (callSystem env OpenStart) Timely s) : ReadLaw s.chan := by
  have ok : RaceOk s := by
    apply @invariant_run _ _ _ _ RaceOk _ _ s reached
    · intro s begun
      obtain ⟨c, ⟨c₀, blocksize, numbufs, tx, rx, sized, done, rfl⟩, rfl⟩ := begun
      exact ⟨unread_reallocbufs sized done, trivial⟩
    · intro s call s' ok timely done
      exact race_step ok timely done
  exact read_law ok.ring

end Steps

section Concrete

def blockChan : Chan Unit := (reallocbufs zeroChan 16 4 true true).2

theorem block_chan_start : OpenStart blockChan := ⟨zeroChan, 16, 4, true, true, by decide, rfl, rfl⟩

/-- A block comes in, a reader takes it, and other calls come before its commit. -/
def readAround (between : List Call) : List Call :=
  [.chunk [1, 2, 3, 4, 5, 6, 7, 8], .chunk [9, 10, 11, 12, 13, 14, 15, 16], .look 64, .copy] ++
    between ++ [.commit]

instance rejoinsDecidable (c : Chan T) : (reader : Reader) → Decidable (Rejoins c reader)
  | .copied res _ => inferInstanceAs (Decidable (Fits c.numbufs c.read.inbuf c.read.outbuf res))
  | .idle | .looked .. => isTrue trivial

instance timelyDecidable (s : Session T) : (call : Call) → Decidable (Timely s call)
  | .commit => rejoinsDecidable s.chan s.reader
  | .look _ | .flush _ | .setBufinfo .. | .setBlocksize .. | .chunk _ | .copy | .fault
  | .getEvent => isTrue trivial

instance anyStepDecidable (s : Session T) (call : Call) : Decidable (anyStep s call) :=
  isTrue trivial

/-- A chunk between the copy and the commit does no harm. -/
theorem read_ring_kept_chunk :
    ∃ s, afterCalls silentEnv (opened blockChan) (readAround [.chunk [17, 18]]) = some s ∧
      s.chan.read.inbuf = 1 ∧ s.chan.read.outbuf = -1 ∧ ReadLaw s.chan := by
  have start : Reach (callSystem silentEnv OpenStart) Timely (opened blockChan) :=
    .start ⟨blockChan, block_chan_start, rfl⟩
  obtain ⟨s, done, reached⟩ :=
    reach_calls start (by decide +kernel : allMeet _ _ _ (readAround [.chunk [17, 18]]) = true)
  have outcome : (afterCalls silentEnv (opened blockChan) (readAround [.chunk [17, 18]])).map
      (fun s => (s.chan.read.inbuf, s.chan.read.outbuf)) = some (1, -1) := by
    decide +kernel
  rw [done, Option.map_some, Option.some.injEq, Prod.mk.injEq] at outcome
  exact ⟨s, done, outcome.1, outcome.2, read_ring_kept silentEnv reached⟩

/-- A flush does: the commit moves the reader to a buffer that holds nothing. -/
theorem committed_after_flush :
    ∃ s, Reach (callSystem silentEnv OpenStart) anyStep s ∧ ¬ ReadLaw s.chan := by
  have start : Reach (callSystem silentEnv OpenStart) anyStep (opened blockChan) :=
    .start ⟨blockChan, block_chan_start, rfl⟩
  obtain ⟨s, done, reached⟩ :=
    reach_calls start (by decide +kernel : allMeet _ _ _ (readAround [.flush flushRead]) = true)
  have outcome : (afterCalls silentEnv (opened blockChan) (readAround [.flush flushRead])).map
      (fun s => (s.chan.read.outbuf, s.chan.read.n 1)) = some (1, 0) := by
    decide +kernel
  rw [done, Option.map_some, Option.some.injEq, Prod.mk.injEq] at outcome
  refine ⟨s, reached, ?_⟩
  intro law
  rcases law.reader with none | ⟨_, some⟩
  · omega
  · rw [outcome.1] at some
    have empty := outcome.2
    simp only [Int.toNat_one] at some
    omega

end Concrete

end ReadRace
