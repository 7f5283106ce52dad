import Dahdi.Channel.ReadyRing
import Dahdi.Channel.HdlcOctets
import Dahdi.Signalling.Cadence
import Dahdi.Tone.SoundZones

/-!
That __dahdi_getbuf_chunk ends and writes a chunk: from any write buffers and
tones that can be played for the rest of it, in every run of the ioctls, the
writes and the chunks of a channel.
-/
namespace ChunkTotality
open Channel CyclicCursor GuardedRun RingInvariant ReadyRing ToneSource Tone

abbrev ToneChan := Channel.Chan Signalling.Chan

section loop
variable {T : Type}

/-- __dahdi_getbuf_chunk ends and writes DAHDI_CHUNKSIZE octets. -/
def Total (env : Env T) (c : Channel.Chan T) : Prop :=
  ∃ fuel txb c', getbufChunk env fuel c = some (txb, c') ∧ txb.length = Channel.chunksize

/-- The loop ends and writes the octets asked for. -/
def Ends (env : Env T) (c : Channel.Chan T) (b : Nat) : Prop :=
  ∃ fuel txb c' under, getbufLoop env fuel c b = some (txb, c', under) ∧ txb.length = b

theorem chunk_loop (env : Env T) (fuel : Nat) (c : Channel.Chan T) :
    (getbufChunk env fuel c).map (·.1) = (getbufLoop env fuel c Channel.chunksize).map (·.1) := by
  unfold getbufChunk
  split
  · rename_i stuck
    rw [stuck]
    rfl
  · rename_i looped
    rw [looped]
    split
    · split <;> rfl
    · rfl

theorem total_iff (env : Env T) (c : Channel.Chan T) :
    Total env c ↔ Ends env c Channel.chunksize := by
  constructor
  · rintro ⟨fuel, txb, c', done, full⟩
    have same := chunk_loop env fuel c
    rw [done] at same
    obtain ⟨⟨txb', m, under⟩, looped, rfl⟩ := Option.map_eq_some_iff.mp same.symm
    exact ⟨fuel, txb', m, under, looped, full⟩
  · rintro ⟨fuel, txb, c', under, done, full⟩
    have same := chunk_loop env fuel c
    rw [done] at same
    obtain ⟨⟨txb', m⟩, looped, rfl⟩ := Option.map_eq_some_iff.mp same
    exact ⟨fuel, txb', m, looped, full⟩

theorem ends_none (env : Env T) (c : Channel.Chan T) : Ends env c 0 := ⟨1, [], c, false, rfl, rfl⟩

theorem ends_pass {env : Env T} {c m : Channel.Chan T} {b left : Nat} {txb : List Fasthdlc.Octet}
    {under : Bool} (passed : getbufPass env c b = some (txb, m, (b : Int) - left, under))
    (wrote : txb.length = left) (within : left ≤ b) (some_ : 0 < b) (rest : Ends env m (b - left)) :
    Ends env c b := by
  obtain ⟨fuel, out, c', later, looped, full⟩ := rest
  refine ⟨fuel + 1, txb ++ out, c', under || later, ?_, ?_⟩
  · have wanted : ¬(b : Int) = 0 := by omega
    have left_ : ((b : Int) - left) = ((b - left : Nat) : Int) := by omega
    rw [getbufLoop, if_neg wanted, passed]
    simp only [left_, looped]
  · rw [List.length_append, wrote, full]
    omega

theorem send_loop_bounds (buf : Buffer) (left : Nat) (h : Fasthdlc.State) (idx : Int) :
    (hdlcSendLoop buf left h idx).1.length = left ∧ idx ≤ (hdlcSendLoop buf left h idx).2.2 ∧
      (hdlcSendLoop buf left h idx).2.2 ≤ idx + left := by
  induction left generalizing h idx with
  | zero => exact ⟨rfl, by simp [hdlcSendLoop], by simp [hdlcSendLoop]⟩
  | succ left ih =>
    rw [HdlcOctets.send_loop_succ]
    simp only [List.length_cons]
    generalize (FasthdlcLink.sendOctet h (.octet (buf idx.toNat))).2 = h'
    by_cases need : Fasthdlc.fasthdlcTxNeedData h = true
    · obtain ⟨count, low, high⟩ := ih h' (idx + 1)
      rw [if_pos need]
      exact ⟨by rw [count], by omega, by omega⟩
    · obtain ⟨count, low, high⟩ := ih h' idx
      rw [if_neg need]
      exact ⟨by rw [count], by omega, by omega⟩

theorem idle_loop_length (left : Nat) (h : Fasthdlc.State) :
    (hdlcIdleLoop left h).1.length = left := by
  induction left generalizing h with
  | zero => rfl
  | succ left ih =>
    rw [hdlcIdleLoop]
    simp only [List.length_cons, ih]

end loop

section buffers
variable {T : Type} {env : Env T} {c m : Channel.Chan T}

/-- Under MTP2 the last message is sent again and again. -/
def repeats (c : Channel.Chan T) : Bool := c.flags.mtp2 && !startsWhenFull c

def Sending (c : Channel.Chan T) : Prop := -1 < c.write.outbuf ∧ c.txdisable = false

/-- The filled buffers, and whether there is nothing left of the first. -/
def work (c : Channel.Chan T) : Nat :=
  2 * (met c.numbufs c.write.inbuf c.write.outbuf).length +
    if c.write.idx c.write.outbuf.toNat < c.write.n c.write.outbuf.toNat then 0 else 1

def ReadyChan (c : Channel.Chan T) : Prop := Ready c.numbufs (repeats c) c.write

theorem status_other (m : Channel.Chan T) : (getbufStatus m).tones = m.tones ∧
    (getbufStatus m).pseudo = m.pseudo ∧ (getbufStatus m).numbufs = m.numbufs ∧
      repeats (getbufStatus m) = repeats m := by
  unfold getbufStatus
  simp only
  split
  · exact ⟨rfl, rfl, rfl, rfl⟩
  · exact ⟨rfl, rfl, rfl, rfl⟩

/-- The end of a buffer leaves one buffer fewer, or one that has something left,
    or nothing to send. -/
theorem status_ready (ready : ReadyChan m) (sending : -1 < m.write.outbuf) :
    ReadyChan (getbufStatus m) ∧
      (¬m.write.idx m.write.outbuf.toNat < m.write.n m.write.outbuf.toNat →
        Sending (getbufStatus m) →
          work (getbufStatus m) < 2 * (met m.numbufs m.write.inbuf m.write.outbuf).length + 1) := by
  obtain ⟨_, _, numbufs, again⟩ := status_other m
  unfold ReadyChan
  rw [numbufs, again]
  by_cases more : m.write.idx m.write.outbuf.toNat < m.write.n m.write.outbuf.toNat
  · rw [HdlcOctets.status_unfinished more]
    exact ⟨ready, fun done => absurd more done⟩
  · obtain ⟨_, _, below⟩ := ready_out ready sending
    have bounds := ready.started _ below
    unfold work
    rw [numbufs]
    have released {w : Ring} (given : (getbufStatus m).write = w)
        (ready' : Ready m.numbufs (repeats m) w)
        (fewer : (met m.numbufs w.inbuf w.outbuf).length <
          (met m.numbufs m.write.inbuf m.write.outbuf).length) :
        Ready m.numbufs (repeats m) (getbufStatus m).write ∧
          (¬m.write.idx m.write.outbuf.toNat < m.write.n m.write.outbuf.toNat →
            Sending (getbufStatus m) →
              2 * (met m.numbufs (getbufStatus m).write.inbuf (getbufStatus m).write.outbuf).length +
                  (if (getbufStatus m).write.idx (getbufStatus m).write.outbuf.toNat <
                    (getbufStatus m).write.n (getbufStatus m).write.outbuf.toNat then 0 else 1) <
                2 * (met m.numbufs m.write.inbuf m.write.outbuf).length + 1) := by
      rw [given]
      refine ⟨ready', fun _ _ => ?_⟩
      split <;> omega
    by_cases mtp2 : m.flags.mtp2 = true
    · by_cases last : (m.write.outbuf + 1) % m.numbufs = m.write.inbuf
      · have kept : (getbufStatus m).write =
            { m.write with idx := set m.write.idx m.write.outbuf.toNat 0 } := by
          simp only [getbufStatus, if_neg more, mtp2, last, Bool.not_true, decide_true,
            Bool.false_eq_true, if_false, if_true]
        rw [kept]
        refine ⟨ready_idx ready (Int.le_refl 0) (by omega), fun _ still => ?_⟩
        have immediate : startsWhenFull m = false := by
          have running := still.2
          simp only [getbufStatus, if_neg more, last, decide_true, Bool.true_and] at running
          split at running
          · cases running
          · rename_i not_
            simpa using not_
        have some_ : 0 < m.write.n m.write.outbuf.toNat := by
          apply ready.message (by simp [repeats, mtp2, immediate]) (by omega) _ below
          obtain ⟨low, _⟩ := @next_range m.numbufs (by omega) m.write.outbuf
          have place : ((m.write.outbuf.toNat : Nat) : Int) = m.write.outbuf := by omega
          rw [place, last, stop, if_neg (by omega)]
        simp only [set_same, if_pos some_]
        omega
      · have given : (getbufStatus m).write =
            { m.write with
              idx := set m.write.idx m.write.outbuf.toNat 0
              n := m.write.n }.release m.numbufs m.write.outbuf := by
          simp only [getbufStatus, if_neg more, mtp2, last, Bool.not_true, decide_false,
            Bool.false_eq_true, if_false]
        obtain ⟨ready', fewer⟩ := ready_release ready sending m.write.n (fun _ _ => rfl) (Or.inl rfl)
        exact released given ready' fewer
    · have given : (getbufStatus m).write =
          { m.write with
            idx := set m.write.idx m.write.outbuf.toNat 0
            n := set m.write.n m.write.outbuf.toNat 0 }.release m.numbufs m.write.outbuf := by
        have flag : m.flags.mtp2 = false := by simpa using mtp2
        simp only [getbufStatus, if_neg more, flag, Bool.not_false, if_true]
      obtain ⟨ready', fewer⟩ := ready_release ready sending (set m.write.n m.write.outbuf.toNat 0)
        (fun x other => set_other _ _ other) (Or.inr (set_same _ _ _))
      exact released given ready' fewer

/-- A pass over the current write buffer. -/
theorem buffer_pass (ready : ReadyChan c) (sending : Sending c) (b : Nat) :
    ∃ txb m left, getbufPass env c b = some (txb, m, (b : Int) - (left : Nat), false) ∧
      txb.length = left ∧ left ≤ b ∧ ReadyChan m ∧ m.tones = c.tones ∧ m.pseudo = c.pseudo ∧
      (0 < b → left = 0 → Sending m → work m < work c) := by
  obtain ⟨allocated, _, below⟩ := ready_out ready sending.1
  obtain ⟨buf, present⟩ := Option.ne_none_iff_exists'.mp (allocated _ below)
  obtain ⟨low, high⟩ := ready.started _ below
  obtain ⟨left, min_⟩ : ∃ left : Nat, min (c.write.n c.write.outbuf.toNat -
      c.write.idx c.write.outbuf.toNat) (b : Int) = left := Int.eq_ofNat_of_zero_le (by omega)
  have after (m : Channel.Chan T) (v : Int) (tones : m.tones = c.tones) (pseudo : m.pseudo = c.pseudo)
      (numbufs : m.numbufs = c.numbufs) (again : repeats m = repeats c)
      (write : m.write = { c.write with idx := set c.write.idx c.write.outbuf.toNat v })
      (v_low : c.write.idx c.write.outbuf.toNat ≤ v)
      (v_high : v ≤ c.write.idx c.write.outbuf.toNat + left) :
      ReadyChan (getbufStatus m) ∧ (getbufStatus m).tones = c.tones ∧
        (getbufStatus m).pseudo = c.pseudo ∧
        (0 < b → left = 0 → Sending (getbufStatus m) → work (getbufStatus m) < work c) := by
    have moved : ReadyChan m := by
      unfold ReadyChan
      rw [numbufs, again, write]
      exact ready_idx ready (by omega) (by omega)
    have sending' : -1 < m.write.outbuf := by
      rw [write]
      exact sending.1
    obtain ⟨tones', pseudo', _, _⟩ := status_other m
    obtain ⟨ready', less⟩ := status_ready moved sending'
    refine ⟨ready', tones'.trans tones, pseudo'.trans pseudo, fun some_ zero still => ?_⟩
    rw [write, numbufs] at less
    simp only [set_same] at less
    have done : ¬c.write.idx c.write.outbuf.toNat < c.write.n c.write.outbuf.toNat := by omega
    have fewer := less (by omega) still
    unfold work at fewer ⊢
    rw [if_neg done]
    exact fewer
  have first : -1 < c.write.outbuf ∧ c.txdisable = false := sending
  rw [getbufPass, if_pos first]
  simp only [present, min_, Int.toNat_natCast]
  by_cases hdlc : c.flags.hdlc = true
  · obtain ⟨count, v_low, v_high⟩ :=
      send_loop_bounds buf left c.txhdlc (c.write.idx c.write.outbuf.toNat)
    rw [if_pos hdlc]
    refine ⟨_, _, left, rfl, count, by omega, ?_⟩
    exact after _ _ rfl rfl rfl rfl rfl v_low v_high
  · rw [if_neg hdlc, if_neg (by omega)]
    refine ⟨_, _, left, rfl, RingContents.bytes_length _ _ _, by omega, ?_⟩
    exact after _ _ rfl rfl rfl rfl rfl (by omega) (Int.le_refl _)

/-- The sources that fill any chunk: the loop, the idle octets of HDLC and silence. -/
theorem filler_pass (idle : ¬Sending c) (silent : ¬(env.curtone c.tones = true ∧ c.pseudo = false))
    (b : Nat) : ∃ txb m under, getbufPass env c b = some (txb, m, 0, under) ∧ txb.length = b ∧
      m.write = c.write ∧ m.numbufs = c.numbufs ∧ repeats m = repeats c ∧ m.tones = c.tones := by
  have second : ¬(-1 < c.write.outbuf ∧ c.txdisable = false) := idle
  rw [getbufPass, if_neg second, if_neg silent]
  by_cases looped : c.flags.looped = true
  · rw [if_pos looped]
    exact ⟨_, _, _, rfl, RingContents.bytes_length _ _ _, rfl, rfl, rfl, rfl⟩
  · rw [if_neg looped]
    by_cases hdlc : c.flags.hdlc = true
    · rw [if_pos hdlc]
      exact ⟨_, _, _, rfl, idle_loop_length _ _, rfl, rfl, rfl, rfl⟩
    · rw [if_neg hdlc]
      exact ⟨_, _, _, rfl, by simp, rfl, rfl, rfl, rfl⟩

theorem filler_ends (idle : ¬Sending c) (silent : ¬(env.curtone c.tones = true ∧ c.pseudo = false))
    (b : Nat) : Ends env c b := by
  obtain ⟨txb, m, under, passed, wrote, _⟩ := filler_pass idle silent b
  rcases Nat.eq_zero_or_pos b with zero | some_
  · rw [zero]
    exact ends_none env c
  · have whole : (0 : Int) = (b : Int) - (b : Nat) := by omega
    rw [whole] at passed
    apply ends_pass passed wrote (Nat.le_refl b) some_
    rw [Nat.sub_self]
    exact ends_none env m

end buffers

section tones
variable {ppp : Env Unit} {g : Globals} {c : ToneChan}

/-- One pass over the current tone. -/
theorem tone_pass (idle : ¬Sending c) (playing : c.tones.curtone ≠ none) (heard : c.pseudo = false)
    (b : Nat) (left : Int) (min_ : min (remaining g c.tones) b = left) :
    ∃ txb t, getbufPass (toneEnv ppp g) c b =
        some (txb, { c with tones := tonePlayed g t left }, (b : Int) - left, false) ∧
      txb.length = left.toNat ∧ Alike c.tones t := by
  have second : ¬(-1 < c.write.outbuf ∧ c.txdisable = false) := idle
  have third : (toneEnv ppp g).curtone c.tones = true ∧ c.pseudo = false :=
    ⟨Option.isSome_iff_ne_none.mpr playing, heard⟩
  have left_ : min ((toneEnv ppp g).toneLeft c.tones) (b : Int) = left := min_
  obtain ⟨alike, count⟩ := @loop_alike ppp g c.lin2x left.toNat c.tones
  rw [getbufPass, if_neg second, if_pos third]
  simp only [left_]
  exact ⟨_, _, rfl, count, alike⟩

theorem played_alike {t : Signalling.Chan} (alike : Alike c.tones t) (k : Nat)
    (playing : c.tones.curtone ≠ none) (left : remaining g c.tones = k) :
    Alike (advance g c.tones) (tonePlayed g t k) := by
  obtain ⟨same, here⟩ := @remaining_alike g _ _ alike
  rw [played_through (by rw [here]; exact playing) (by rw [same]; exact left)]
  obtain ⟨ts, rfl⟩ := alike
  exact advance_alike ts _

/-- With nothing to send, tones that feed the rest of the chunk. -/
theorem idle_ends {t : Signalling.Chan} {b : Nat} (feeds : Feeds g t b) (alike : Alike t c.tones)
    (idle : ¬Sending c) : Ends (toneEnv ppp g) c b := by
  induction feeds generalizing c with
  | done t => exact ends_none _ c
  | @ended t b silent =>
    obtain ⟨_, same⟩ := @remaining_alike g _ _ alike
    have quiet : ¬((toneEnv ppp g).curtone c.tones = true ∧ c.pseudo = false) := by
      intro both
      have playing : c.tones.curtone.isSome = true := both.1
      rw [same, silent] at playing
      cases playing
    exact filler_ends idle quiet b
  | @enough t b playing room =>
    by_cases heard : c.pseudo = false
    · obtain ⟨same, here⟩ := @remaining_alike g _ _ alike
      obtain ⟨txb, t', passed, wrote, _⟩ := @tone_pass ppp g c idle (by rw [here]; exact playing) heard
        b b (by omega)
      rcases Nat.eq_zero_or_pos b with zero | some_
      · rw [zero]
        exact ends_none _ c
      · apply ends_pass passed (by simpa using wrote) (Nat.le_refl b) some_
        rw [Nat.sub_self]
        exact ends_none _ _
    · exact filler_ends idle (fun both => heard both.2) b
  | @next t b k playing left short _ ih =>
    by_cases heard : c.pseudo = false
    · obtain ⟨same, here⟩ := @remaining_alike g _ _ alike
      have playing' : c.tones.curtone ≠ none := by
        rw [here]
        exact playing
      obtain ⟨txb, t', passed, wrote, alike'⟩ := @tone_pass ppp g c idle playing' heard b k (by omega)
      apply ends_pass passed (by simpa using wrote) (Nat.le_of_lt short) (by omega)
      have step := played_alike alike' k playing' (same.trans left)
      have before : Alike (advance g t) (advance g c.tones) := by
        obtain ⟨ts, tones⟩ := alike
        rw [tones]
        exact advance_alike ts t.tonep
      exact ih (alike_trans before step) idle
    · exact filler_ends idle (fun both => heard both.2) b

/-- From any write buffers. -/
theorem ready_ends {b : Nat} (ready : ReadyChan c) (feeds : Feeds g c.tones b) :
    Ends (toneEnv ppp g) c b := by
  induction b using Nat.strong_induction_on generalizing c with
  | _ b fewer =>
    rcases Nat.eq_zero_or_pos b with zero | some_
    · rw [zero]
      exact ends_none _ c
    · induction size : work c using Nat.strong_induction_on generalizing c with
      | _ size less =>
        by_cases sending : Sending c
        · obtain ⟨txb, m, left, passed, wrote, within, ready', tones, _, shrinks⟩ :=
            @buffer_pass _ (toneEnv ppp g) c ready sending b
          apply ends_pass passed wrote within some_
          have feeds' : Feeds g m.tones (b - left) := by
            rw [tones]
            exact feeds_fewer feeds (Nat.sub_le b left)
          by_cases none_ : left = 0
          · rw [none_, Nat.sub_zero] at feeds' ⊢
            by_cases still : Sending m
            · exact less _ (by rw [← size]; exact shrinks some_ none_ still) ready' feeds' rfl
            · exact idle_ends feeds' ⟨m.tones.ts, rfl⟩ still
          · exact fewer (b - left) (by omega) ready' feeds'
        · exact idle_ends feeds ⟨c.tones.ts, rfl⟩ sending

/-- With nothing to send, the tones have to feed a chunk. -/
theorem ends_feeds {b fuel : Nat} {txb : List Fasthdlc.Octet} {c' : ToneChan} {under : Bool}
    (idle : ¬Sending c) (heard : c.pseudo = false)
    (done : getbufLoop (toneEnv ppp g) fuel c b = some (txb, c', under)) :
    b ≤ txb.length ∧ (txb.length = b → Feeds g c.tones b) := by
  induction fuel generalizing c b txb under with
  | zero => cases done
  | succ fuel ih =>
    rcases Nat.eq_zero_or_pos b with zero | some_
    · rw [zero]
      exact ⟨Nat.zero_le _, fun _ => Feeds.done _⟩
    · have wanted : ¬(b : Int) = 0 := by omega
      rw [getbufLoop, if_neg wanted] at done
      by_cases playing : c.tones.curtone = none
      · have quiet : ¬((toneEnv ppp g).curtone c.tones = true ∧ c.pseudo = false) := by
          intro both
          have sounding : c.tones.curtone.isSome = true := both.1
          rw [playing] at sounding
          cases sounding
        obtain ⟨out, m, under', passed, wrote, _⟩ := @filler_pass _ (toneEnv ppp g) c idle quiet b
        rw [passed] at done
        simp only at done
        split at done
        · cases done
        · cases done
          rw [List.length_append, wrote]
          exact ⟨Nat.le_add_right b _, fun _ => Feeds.ended playing⟩
      · obtain ⟨out, t, passed, wrote, alike⟩ := @tone_pass ppp g c idle playing heard b _ rfl
        rw [passed] at done
        simp only at done
        split at done
        · cases done
        · rename_i rest m later looped
          cases done
          rw [List.length_append, wrote]
          obtain ⟨k, rest_⟩ : ∃ k : Nat, (b : Int) - min (remaining g c.tones) b = k :=
            Int.eq_ofNat_of_zero_le (by omega)
          rw [rest_] at looped
          obtain ⟨enough, feeds⟩ :=
            @ih { c with tones := tonePlayed g t (min (remaining g c.tones) b) } k rest later idle
              heard looped
          refine ⟨by omega, fun exact_ => ?_⟩
          by_cases room : (b : Int) ≤ remaining g c.tones
          · exact Feeds.enough playing room
          · obtain ⟨j, left⟩ : ∃ j : Nat, remaining g c.tones = j :=
              Int.eq_ofNat_of_zero_le (by omega)
            have after := feeds (by omega)
            have min_ : min (j : Int) b = j := by omega
            simp only [left, min_] at after
            apply Feeds.next playing left (by omega)
            rw [show b - j = k by omega]
            exact feeds_alike (alike_symm (played_alike alike j playing left)) after

/-- The chunk of a channel with nothing to send comes from its tones. -/
theorem idle_total_iff (idle : ¬Sending c) (heard : c.pseudo = false) :
    Total (toneEnv ppp g) c ↔ Feeds g c.tones Channel.chunksize := by
  rw [total_iff]
  constructor
  · rintro ⟨fuel, txb, c', under, done, full⟩
    exact (ends_feeds idle heard done).2 full
  · intro feeds
    exact idle_ends feeds ⟨c.tones.ts, rfl⟩ idle

end tones

/-- A channel and what the tone code keeps outside it. -/
structure World where
  g : Globals
  c : ToneChan

/-- What happens to a channel. `settings` is any operation that leaves the write
    ring and the tones alone, `signal` one of the signalling that at most stops
    the tone. A zone that nobody else holds is freed when the channel takes
    another; `reused` is what is found in its place. -/
inductive Move where
  | chunk (fuel : Nat)
  | writeStart
  | writeCommit (res : Int) (usr : List Fasthdlc.Octet)
  | flush (mask : Nat)
  | realloc (blocksize numbufs : Int) (tx rx : Bool)
  | settings (changed : ToneChan)
  | loadzone (th : ToneDefHeader)
  | freezone (num : Int)
  | setDialparams (tdp : DialParams) (zoneListed toneListed : Bool)
  | setToneZone (zone : Int) (reused : Option Zone)
  | sendTone (tone : Int)
  | dial (op : Signalling.DialOp) (dialstr : List Char)
  | dialOn
  | signal (changed : Signalling.Chan) (stopped : Bool)
  | close

def withTones (c : ToneChan) (t : Signalling.Chan) : ToneChan := { c with tones := t }

/-- The tones of a channel whose zone has been freed. -/
def freedZone (reused : Option Zone) (t : Signalling.Chan) : Signalling.Chan :=
  match reused with
  | none => t
  | some junk => { t with curtone := t.curtone.map fun cur => { cur with zone := junk } }

def keepTones (t changed : Signalling.Chan) (stopped : Bool) : Signalling.Chan :=
  if stopped then { changed with curzone := t.curzone, curtone := none }
  else { changed with curzone := t.curzone, curtone := t.curtone, tonep := t.tonep }

def applyMove (ppp : Env Unit) (w : World) : Move → Option World
  | .chunk fuel =>
    (getbufChunk (toneEnv ppp w.g) fuel w.c).map fun done => { w with c := done.2 }
  | .writeStart => some { w with c := (chanWriteStart (toneEnv ppp w.g) w.c).2 }
  | .writeCommit res usr =>
    (chanWriteCommit (toneEnv ppp w.g) w.c res usr).map fun c => { w with c := c }
  | .flush mask => some { w with c := Channel.flush w.c mask }
  | .realloc blocksize numbufs tx rx =>
    some { w with c := (reallocbufs w.c blocksize numbufs tx rx).2 }
  | .settings changed => some { w with
      c := { changed with numbufs := w.c.numbufs, write := w.c.write, tones := w.c.tones } }
  | .loadzone th =>
    match Tone.loadzone th w.g with
    | .error _ => some w
    | .ok g => some { w with g := g }
  | .freezone num => some { w with g := Tone.freezone num w.g }
  | .setDialparams tdp zoneListed toneListed => some
      { g := Tone.setDialparams tdp w.g
        c := withTones w.c (Signalling.retimeChan (acceptParams tdp w.g.dialparams) zoneListed
          toneListed w.c.tones) }
  | .setToneZone zone reused =>
    match Signalling.findZone w.g zone with
    | none => some w
    | some z =>
      some { w with c := withTones w.c (Signalling.setToneZone z (freedZone reused w.c.tones)) }
  | .sendTone tone =>
    (Signalling.startTone w.g w.c.tones tone).map fun done => { w with c := withTones w.c done.2 }
  | .dial op dialstr =>
    some { w with c := withTones w.c (Signalling.ioctlDial w.g w.c.tones op dialstr).2 }
  | .dialOn => some { w with c := withTones w.c (Signalling.doDtmf w.g w.c.tones) }
  | .signal changed stopped =>
    some { w with c := withTones w.c (keepTones w.c.tones changed stopped) }
  | .close => some { w with
      c := withTones w.c { Signalling.stopTone w.c.tones with curzone := none } }

/-- The module as it is loaded and a channel with its buffers. -/
def txSystem (ppp : Env Unit) : System World Move where
  start w := w.g = initialGlobals ∧ w.c.tones.curzone = none ∧ w.c.tones.curtone = none ∧
    ∃ c blocksize numbufs tx rx, (reallocbufs c blocksize numbufs tx rx).1 = 0 ∧
      w.c = (reallocbufs c blocksize numbufs tx rx).2
  step w m w' := applyMove ppp w m = some w'

/-- A loaded zone has no tones of negative length and none of length zero that go
    round in a circle, and a tone is not cut to less than has been played of it
    nor freed. A message that is repeated is not empty, and a write finishes with
    an index of the ring. -/
def Sane (w : World) : Move → Prop
  | .writeCommit res usr => 0 ≤ res ∧ res < w.c.numbufs ∧
      (repeats w.c = true → 0 < writeAmnt w.c usr → writeData w.c usr ≠ [])
  | .settings changed => repeats changed = true → LastSome w.c.numbufs w.c.write
  | .loadzone th => SoundHeader th
  | .setDialparams tdp zoneListed toneListed => ∀ cur,
      (Signalling.retimeChan (acceptParams tdp w.g.dialparams) zoneListed toneListed
        w.c.tones).curtone = some cur →
      w.c.tones.tonep ≤ (Signalling.tonePointed (Tone.setDialparams tdp w.g) cur).tonesamples
  | .setToneZone _ reused => reused = none ∨ w.c.tones.curtone = none
  | _ => True

structure Inv (w : World) : Prop where
  ready : ReadyChan w.c
  globals : SoundGlobals w.g
  tones : SoundTones w.g w.c.tones

theorem inv_total (ppp : Env Unit) {w : World} (inv : Inv w) : Total (toneEnv ppp w.g) w.c :=
  (total_iff _ _).mpr (ready_ends inv.ready (sound_feeds _ inv.tones))

section runs
variable {ppp : Env Unit} {g : Globals} {c c' : ToneChan}

/-- What a pass of the chunk loop keeps. -/
theorem kept_pass {b b' : Int} {txb : List Fasthdlc.Octet} {under : Bool} (low : 0 ≤ b)
    (ready : ReadyChan c) (sound : SoundTones g c.tones)
    (done : getbufPass (toneEnv ppp g) c b = some (txb, c', b', under)) :
    0 ≤ b' ∧ ReadyChan c' ∧ SoundTones g c'.tones := by
  obtain ⟨b, rfl⟩ := Int.eq_ofNat_of_zero_le low
  by_cases sending : Sending c
  · obtain ⟨_, m, left, passed, _, within, ready', tones, _⟩ :=
      @buffer_pass _ (toneEnv ppp g) c ready sending b
    rw [passed] at done
    cases done
    rw [tones]
    exact ⟨by omega, ready', sound⟩
  · by_cases playing : c.tones.curtone ≠ none ∧ c.pseudo = false
    · obtain ⟨_, t, passed, _, alike⟩ := @tone_pass ppp g c sending playing.1 playing.2 b _ rfl
      rw [passed] at done
      cases done
      obtain ⟨same, _⟩ := @remaining_alike g _ _ alike
      have room := remaining_low sound
      have sound' : SoundTones g t := by
        obtain ⟨ts, rfl⟩ := alike
        exact sound_same sound rfl rfl rfl
      exact ⟨by omega, ready, sound_played sound' (by omega) (by omega)⟩
    · have quiet : ¬((toneEnv ppp g).curtone c.tones = true ∧ c.pseudo = false) := by
        intro both
        exact playing ⟨Option.isSome_iff_ne_none.mp both.1, both.2⟩
      obtain ⟨_, m, _, passed, _, write, numbufs, again, tones⟩ :=
        @filler_pass _ (toneEnv ppp g) c sending quiet b
      rw [passed] at done
      cases done
      unfold ReadyChan
      rw [numbufs, again, write, tones]
      exact ⟨Int.le_refl 0, ready, sound⟩

theorem kept_loop {fuel : Nat} {b : Int} {txb : List Fasthdlc.Octet} {under : Bool} (low : 0 ≤ b)
    (ready : ReadyChan c) (sound : SoundTones g c.tones)
    (done : getbufLoop (toneEnv ppp g) fuel c b = some (txb, c', under)) :
    ReadyChan c' ∧ SoundTones g c'.tones := by
  induction fuel generalizing c b txb under with
  | zero => cases done
  | succ fuel ih =>
    rw [getbufLoop] at done
    split at done
    · cases done
      exact ⟨ready, sound⟩
    · split at done
      · cases done
      · rename_i passed
        split at done
        · cases done
        · rename_i looped
          cases done
          obtain ⟨low', ready', sound'⟩ := kept_pass low ready sound passed
          exact ih low' ready' sound' looped

theorem kept_chunk {fuel : Nat} {txb : List Fasthdlc.Octet} (ready : ReadyChan c)
    (sound : SoundTones g c.tones)
    (done : getbufChunk (toneEnv ppp g) fuel c = some (txb, c')) :
    ReadyChan c' ∧ SoundTones g c'.tones := by
  unfold getbufChunk at done
  split at done
  · cases done
  · rename_i looped
    have kept := kept_loop (by decide) ready sound looped
    split at done
    · split at done
      · cases done
        exact kept
      · cases done
        simp only
        split
        · unfold qevent
          split
          · exact kept
          · split
            · exact kept
            · exact kept
        · exact kept
    · cases done
      exact kept

theorem ready_commit {T : Type} {env : Env T} {c c' : Channel.Chan T} {res : Int}
    {usr : List Fasthdlc.Octet} (ready : ReadyChan c) (low : 0 ≤ res) (high : res < c.numbufs)
    (some_ : repeats c = true → 0 < writeAmnt c usr → writeData c usr ≠ [])
    (done : chanWriteCommit env c res usr = some c') : ReadyChan c' ∧ c'.tones = c.tones := by
  obtain ⟨x, rfl⟩ := Int.eq_ofNat_of_zero_le low
  unfold chanWriteCommit at done
  split at done
  · cases done
    exact ⟨ready, rfl⟩
  · rename_i offered
    split at done
    · cases done
    · rename_i buf present
      have here : c.write.buf x ≠ none := by
        rw [Int.toNat_natCast] at present
        rw [present]
        exact Option.some_ne_none buf
      have data : repeats c = true → 0 < (writeData c usr).length := fun again =>
        List.length_pos_iff.mpr (some_ again (by omega))
      have handed := ready_hand_over ready (by omega) here
        (if c.flags.fcs then calcFcs env (copyAt buf 0 (writeData c usr)) (writeData c usr).length
          else copyAt buf 0 (writeData c usr)) data
      cases done
      unfold announceWrite
      simp only
      split
      · exact ⟨handed, rfl⟩
      · exact ⟨handed, rfl⟩

theorem ready_flush {T : Type} {c : Channel.Chan T} (ready : ReadyChan c) (mask : Nat) :
    ReadyChan (Channel.flush c mask) ∧ (Channel.flush c mask).tones = c.tones := by
  have reading : ReadyChan (if mask &&& flushRead ≠ 0 then
      { c with read := c.read.clear c.numbufs 0 } else c) ∧
      (if mask &&& flushRead ≠ 0 then
        { c with read := c.read.clear c.numbufs 0 } else c).tones = c.tones := by
    split
    · exact ⟨ready, rfl⟩
    · exact ⟨ready, rfl⟩
  have writing {m : Channel.Chan T} (ready : ReadyChan m ∧ m.tones = c.tones) :
      ReadyChan (if mask &&& flushWrite ≠ 0 then
        { m with write := m.write.clear m.numbufs 0 } else m) ∧
        (if mask &&& flushWrite ≠ 0 then
          { m with write := m.write.clear m.numbufs 0 } else m).tones = c.tones := by
    split
    · exact ⟨ready_clear ready.1, ready.2⟩
    · exact ready
  have events {m : Channel.Chan T} (ready : ReadyChan m ∧ m.tones = c.tones) :
      ReadyChan (if mask &&& flushEvent ≠ 0 then
        { m with eventinidx := 0, eventoutidx := 0 } else m) ∧
        (if mask &&& flushEvent ≠ 0 then
          { m with eventinidx := 0, eventoutidx := 0 } else m).tones = c.tones := by
    split
    · exact ready
    · exact ready
  exact events (writing reading)

theorem ready_reallocbufs {T : Type} {c : Channel.Chan T} (ready : ReadyChan c)
    (blocksize numbufs : Int) (tx rx : Bool) :
    ReadyChan (reallocbufs c blocksize numbufs tx rx).2 ∧
      (reallocbufs c blocksize numbufs tx rx).2.tones = c.tones := by
  unfold reallocbufs
  simp only
  split
  · exact ⟨ready, rfl⟩
  · exact ⟨ready_realloc (clamp_two numbufs) _ _, rfl⟩

theorem sound_start_write (sound : SoundTones g c.tones) :
    ReadyChan (chanWriteStart (toneEnv ppp g) c).2 = ReadyChan c ∧
      SoundTones g (chanWriteStart (toneEnv ppp g) c).2.tones := by
  have stopped : SoundTones g (Signalling.stopTone c.tones) := sound_silent sound rfl rfl
  unfold chanWriteStart
  simp only
  split
  · split
    · exact ⟨rfl, stopped⟩
    · split
      · exact ⟨rfl, stopped⟩
      · exact ⟨rfl, stopped⟩
  · split
    · exact ⟨rfl, sound⟩
    · split
      · exact ⟨rfl, sound⟩
      · exact ⟨rfl, sound⟩

end runs

section tones
variable {g : Globals} {t : Signalling.Chan}

/-- Only the silences of the globals are pointed to. -/
theorem sound_zones {zones : List Zone} (sound : SoundTones g t) :
    SoundTones { g with toneZones := zones } t := by
  have pointed (cur : Signalling.CurTone) :
      Signalling.tonePointed { g with toneZones := zones } cur = Signalling.tonePointed g cur := by
    obtain ⟨z, ref⟩ := cur
    cases ref <;> rfl
  have zone {z : Zone} (good : SoundZone g z) : SoundZone { g with toneZones := zones } z := by
    intro ref
    apply grounded_same (good ref)
    · intro ref
      rw [pointed]
    · intro ref
      exact Or.inl (by rw [pointed])
  constructor
  · intro z here
    exact zone (sound.zone z here)
  · intro cur playing
    obtain ⟨good, low, high⟩ := sound.playing cur playing
    rw [pointed]
    exact ⟨zone good, low, high⟩

theorem sound_free (num : Int) (globals : SoundGlobals g) : SoundGlobals (Tone.freezone num g) := by
  obtain ⟨mfv1, dtmf, mfr2, first, second, third, pause, zones⟩ := globals
  refine ⟨mfv1, dtmf, mfr2, first, second, third, pause, ?_⟩
  intro z listed ref
  apply grounded_same (zones z (List.mem_of_mem_eraseP listed) ref)
  · intro ref
    cases ref <;> rfl
  · intro ref
    cases ref <;> exact Or.inl rfl

theorem found_zone {zone : Int} {z : Zone} (found : Signalling.findZone g zone = some z) :
    z ∈ g.toneZones := by
  unfold Signalling.findZone at found
  split at found
  · exact List.mem_of_head? found
  · exact List.mem_of_find?_eq_some found

theorem sound_select {zone : Int} {z : Zone} {reused : Option Zone} (globals : SoundGlobals g)
    (sound : SoundTones g t) (found : Signalling.findZone g zone = some z)
    (held : reused = none ∨ t.curtone = none) :
    SoundTones g (Signalling.setToneZone z (freedZone reused t)) := by
  have curtone : (freedZone reused t).curtone = t.curtone ∧ (freedZone reused t).tonep = t.tonep := by
    cases reused with
    | none => exact ⟨rfl, rfl⟩
    | some junk =>
      have silent := held.resolve_left (Option.some_ne_none junk)
      simp [freedZone, silent]
  constructor
  · intro z' here
    rw [← Option.some.inj here]
    exact globals.zones z (found_zone found)
  · simp only [Signalling.setToneZone, curtone.1, curtone.2]
    exact sound.playing

theorem sound_retimed {tdp : DialParams} {zoneListed toneListed : Bool} (globals : SoundGlobals g)
    (sound : SoundTones g t)
    (long : ∀ cur, (Signalling.retimeChan (acceptParams tdp g.dialparams) zoneListed toneListed
        t).curtone = some cur →
      t.tonep ≤ (Signalling.tonePointed (Tone.setDialparams tdp g) cur).tonesamples) :
    SoundTones (Tone.setDialparams tdp g) (Signalling.retimeChan (acceptParams tdp g.dialparams)
      zoneListed toneListed t) := by
  constructor
  · intro z here
    cases zoneListed with
    | true =>
      obtain ⟨old, before, rfl⟩ := Option.map_eq_some_iff.mp here
      exact sound_retime globals (sound.zone old before)
    | false => exact sound_silences globals (sound.zone z here)
  · intro cur playing
    have within := long cur playing
    cases toneListed with
    | true =>
      obtain ⟨old, before, rfl⟩ := Option.map_eq_some_iff.mp playing
      obtain ⟨good, low, _⟩ := sound.playing old before
      exact ⟨sound_retime globals good, low, within⟩
    | false =>
      obtain ⟨good, low, _⟩ := sound.playing cur playing
      exact ⟨sound_silences globals good, low, within⟩

theorem sound_tone_state (sound : SoundTones g t) : SoundTones g (Signalling.startToneState g t) := by
  unfold Signalling.startToneState
  split
  · exact sound
  · exact sound_same sound rfl rfl rfl

theorem sound_start_digit {tone : Int} (sound : SoundTones g t) (start : t.tonep = 0) :
    SoundTones g (Signalling.startToneDigit t tone).2 := by
  have dialled : SoundTones g (if t.digitmode = .dtmf then { t with dialing := true } else t) := by
    split
    · exact sound_same sound rfl rfl rfl
    · exact sound
  unfold Signalling.startToneDigit
  split
  · exact sound
  · rename_i zone here
    simp only
    split
    · exact dialled
    · split
      · exact dialled
      · apply sound_start dialled
        · rfl
        · intro cur playing
          rw [← Option.some.inj playing]
          refine ⟨sound.zone zone here, ?_⟩
          simp only
          split
          · exact start
          · exact start

theorem sound_start_tone {tone : Int} {done : Option Signalling.ToneError × Signalling.Chan}
    (sound : SoundTones g t) (started : Signalling.startTone g t tone = some done) :
    SoundTones g done.2 := by
  have stopped : SoundTones g (Signalling.stopTone t) := sound_silent sound rfl rfl
  unfold Signalling.startTone at started
  simp only at started
  split at started
  · cases started
    exact stopped
  · split at started
    · cases started
      exact stopped
    · rename_i zone here
      split at started
      · split at started
        · cases started
        · split at started
          · rename_i place _
            have ringing : SoundTones g { Signalling.stopTone t with
                curtone := some ⟨zone, .inZone place⟩ } := by
              apply sound_start stopped
              · rfl
              · intro cur playing
                rw [← Option.some.inj playing]
                exact ⟨stopped.zone zone here, rfl⟩
            cases started
            exact sound_tone_state ringing
          · cases started
            exact stopped
      · split at started
        · cases started
          exact sound_tone_state (sound_start_digit stopped rfl)
        · cases started
          exact sound_same stopped rfl rfl rfl

theorem sound_dial {op : Signalling.DialOp} {dialstr : List Char} (sound : SoundTones g t) :
    SoundTones g (Signalling.ioctlDial g t op dialstr).2 := by
  unfold Signalling.ioctlDial
  simp only
  split
  · exact sound
  · split
    · exact sound_silent sound rfl rfl
    · exact sound_dtmf _ (sound_same sound rfl rfl rfl)
    · split
      · exact sound
      · split
        · exact sound_same sound rfl rfl rfl
        · exact sound_dtmf _ (sound_same sound rfl rfl rfl)
    · exact sound

theorem sound_kept {changed : Signalling.Chan} {stopped : Bool} (sound : SoundTones g t) :
    SoundTones g (keepTones t changed stopped) := by
  unfold keepTones
  split
  · exact sound_silent sound rfl rfl
  · exact sound_same sound rfl rfl rfl

end tones

theorem inv_step {ppp : Env Unit} {w w' : World} {m : Move} (inv : Inv w) (sane : Sane w m)
    (done : applyMove ppp w m = some w') : Inv w' := by
  obtain ⟨ready, globals, sound⟩ := inv
  cases m with
  | chunk fuel =>
    obtain ⟨⟨txb, c'⟩, returned, rfl⟩ := Option.map_eq_some_iff.mp done
    obtain ⟨ready', sound'⟩ := kept_chunk ready sound returned
    exact ⟨ready', globals, sound'⟩
  | writeStart =>
    cases done
    obtain ⟨same, sound'⟩ := @sound_start_write ppp w.g w.c sound
    exact ⟨same.mpr ready, globals, sound'⟩
  | writeCommit res usr =>
    obtain ⟨c', returned, rfl⟩ := Option.map_eq_some_iff.mp done
    obtain ⟨low, high, some_⟩ := sane
    obtain ⟨ready', tones⟩ := ready_commit ready low high some_ returned
    refine ⟨ready', globals, ?_⟩
    simp only
    rw [tones]
    exact sound
  | flush mask =>
    cases done
    obtain ⟨ready', tones⟩ := ready_flush ready mask
    refine ⟨ready', globals, ?_⟩
    simp only
    rw [tones]
    exact sound
  | realloc blocksize numbufs tx rx =>
    cases done
    obtain ⟨ready', tones⟩ := ready_reallocbufs ready blocksize numbufs tx rx
    refine ⟨ready', globals, ?_⟩
    simp only
    rw [tones]
    exact sound
  | settings changed =>
    cases done
    exact ⟨⟨ready.two, ready.ring, ready.started, sane⟩, globals, sound⟩
  | loadzone th =>
    simp only [applyMove] at done
    split at done
    · cases done
      exact ⟨ready, globals, sound⟩
    · rename_i g loaded
      cases done
      obtain ⟨_, _, _, work, _, zones⟩ := loadzone_ok loaded
      refine ⟨ready, sound_loaded globals sane loaded, ?_⟩
      simp only
      rw [zones]
      exact sound_zones sound
  | freezone num =>
    cases done
    exact ⟨ready, sound_free num globals, sound_zones sound⟩
  | setDialparams tdp zoneListed toneListed =>
    cases done
    exact ⟨ready, sound_set_dialparams globals, sound_retimed globals sound sane⟩
  | setToneZone zone reused =>
    simp only [applyMove] at done
    split at done
    · cases done
      exact ⟨ready, globals, sound⟩
    · rename_i z found
      cases done
      exact ⟨ready, globals, sound_select globals sound found sane⟩
  | sendTone tone =>
    obtain ⟨res, started, rfl⟩ := Option.map_eq_some_iff.mp done
    exact ⟨ready, globals, sound_start_tone sound started⟩
  | dial op dialstr =>
    cases done
    exact ⟨ready, globals, sound_dial sound⟩
  | dialOn =>
    cases done
    exact ⟨ready, globals, sound_dtmf _ sound⟩
  | signal changed stopped =>
    cases done
    exact ⟨ready, globals, sound_kept sound⟩
  | close =>
    cases done
    refine ⟨ready, globals, ?_, ?_⟩
    · intro z here
      cases here
    · intro cur playing
      cases playing

/-- A tone of no samples that goes on to itself never comes to an end. -/
def Stalled (g : Globals) (t : Signalling.Chan) : Prop :=
  ∃ cur, t.curtone = some cur ∧ t.tonep = 0 ∧ (Signalling.tonePointed g cur).tonesamples = 0 ∧
    (Signalling.tonePointed g cur).next = some cur.ref

theorem stalled_stays {g : Globals} {t : Signalling.Chan} (stalled : Stalled g t) :
    remaining g t = 0 ∧ advance g t = t := by
  obtain ⟨cur, playing, start, zero, again⟩ := stalled
  refine ⟨?_, ?_⟩
  · rw [remaining_some playing, zero, start]
    rfl
  · simp only [advance, playing, again, ne_eq, not_true_eq_false, if_false]
    rw [← start, ← playing]

theorem stalled_feeds_none {g : Globals} {t : Signalling.Chan} {n : Nat} (stalled : Stalled g t)
    (feeds : Feeds g t n) : n = 0 := by
  induction feeds with
  | done t => rfl
  | ended silent =>
    obtain ⟨cur, playing, _⟩ := stalled
    rw [playing] at silent
    cases silent
  | enough _ room =>
    rw [(stalled_stays stalled).1] at room
    omega
  | next _ left short _ ih =>
    obtain ⟨none_, same⟩ := stalled_stays stalled
    rw [same] at ih
    have rest := ih stalled
    omega

def freshChan : ToneChan := { zeroChan with tones := Signalling.idleChan }

def freshWorld : World := ⟨initialGlobals, (reallocbufs freshChan 64 4 true true).2⟩

theorem fresh_start : (txSystem silentEnv).start freshWorld :=
  ⟨rfl, rfl, rfl, freshChan, 64, 4, true, true, rfl, rfl⟩

def moved (w : World) (m : Move) : World := (applyMove silentEnv w m).getD w

theorem moved_reach {guard : World → Move → Prop} {w : World}
    (reached : Reach (txSystem silentEnv) guard w) (m : Move) (allowed : guard w m)
    (done : (applyMove silentEnv w m).isSome = true) :
    Reach (txSystem silentEnv) guard (moved w m) := by
  obtain ⟨w', same⟩ := Option.isSome_iff_exists.mp done
  have stepped : (txSystem silentEnv).step w m (moved w m) := by
    change applyMove silentEnv w m = some ((applyMove silentEnv w m).getD w)
    rw [same]
    rfl
  exact Reach.step reached allowed stepped

/-- A zone with one regular tone of this length that goes on to itself. -/
def ringHeader (samples : Int) : ToneDefHeader :=
  { count := 1
    zone := 0
    ringcadence := fun _ => 0
    tones := [⟨0, 0, samples, noWave⟩] }

/-- The zone is loaded, and the channel plays its tone. -/
def ringingWorld (samples : Int) : World :=
  moved (moved (moved freshWorld (.loadzone (ringHeader samples))) (.setToneZone 0 none))
    (.sendTone 0)

end ChunkTotality
