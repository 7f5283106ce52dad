import Dahdi.Dynamic.Message

/-!
A message of one dynamic span received by another. The signalling words hold the
bits of four channels each as the digits of a number to base 16.
-/
namespace DynamicRoundTrip
open Dynamic

section Digits

theorem nibble_lt (chan : Chan) : nibble chan < 16 := by
  unfold nibble
  omega

/-- The bits of four channels, the first in the lowest place. -/
def word (ds : List Nat) : BitVec 16 := BitVec.ofNat 16 (Nat.ofDigits 16 ds)

theorem digits_below {ds : List Nat} (small : ∀ d ∈ ds, d < 16) : Nat.ofDigits 16 ds < 16 ^ ds.length :=
  Nat.ofDigits_lt_base_pow_length (by decide) small

theorem word_value {ds : List Nat} (small : ∀ d ∈ ds, d < 16) (few : ds.length ≤ 4) :
    (word ds).toNat = Nat.ofDigits 16 ds := by
  have below := digits_below small
  have room : 16 ^ ds.length ≤ 16 ^ 4 := Nat.pow_le_pow_right (by decide) few
  rw [word, BitVec.toNat_ofNat, Nat.mod_eq_of_lt (by omega)]

/-- The sender's step adds a digit. -/
theorem word_snoc {ds : List Nat} (small : ∀ d ∈ ds, d < 16) (few : ds.length < 4) {n : Nat}
    (digit : n < 16) :
    word ds ||| BitVec.ofNat 16 n <<< (ds.length <<< 2) = word (ds ++ [n]) := by
  have below := digits_below small
  have all : ∀ d ∈ ds ++ [n], d < 16 := by
    intro d member
    rcases List.mem_append.mp member with before | last
    · exact small d before
    · rw [List.mem_singleton.mp last]
      exact digit
  have whole := digits_below all
  have room : 16 ^ (ds ++ [n]).length ≤ 16 ^ 4 :=
    Nat.pow_le_pow_right (by decide) (by rw [List.length_append, List.length_singleton]; omega)
  have power : 16 ^ ds.length = 2 ^ (ds.length <<< 2) := by
    rw [Nat.shiftLeft_eq, Nat.mul_comm, Nat.pow_mul]
  apply BitVec.eq_of_toNat_eq
  rw [BitVec.toNat_or, BitVec.toNat_shiftLeft, BitVec.toNat_ofNat, word_value small (by omega),
    word_value all (by rw [List.length_append, List.length_singleton]; omega)]
  rw [Nat.ofDigits_append, Nat.ofDigits_singleton] at whole ⊢
  rw [Nat.mod_eq_of_lt (by omega : n < 2 ^ 16), Nat.shiftLeft_eq, ← power,
    Nat.mod_eq_of_lt (by rw [Nat.mul_comm]; omega), Nat.or_comm, power, ← Nat.shiftLeft_eq,
    ← Nat.shiftLeft_add_eq_or_of_lt (by rw [← power]; exact below), Nat.shiftLeft_eq]
  ring

/-- Eight bits from a digit on are the digit and the next one. -/
theorem digits_window {ds : List Nat} (small : ∀ d ∈ ds, d < 16) (i : Nat) :
    Nat.ofDigits 16 ds / 16 ^ i % 256 = ds.getD i 0 + 16 * ds.getD (i + 1) 0 := by
  induction i generalizing ds with
  | zero =>
    cases ds with
    | nil => rfl
    | cons a ds =>
      have first := small a List.mem_cons_self
      cases ds with
      | nil =>
        simp only [Nat.ofDigits_singleton, Nat.pow_zero, Nat.div_one, List.getD_cons_zero,
          List.getD_cons_succ, List.getD_nil]
        omega
      | cons b ds =>
        have second := small b (List.mem_cons_of_mem _ List.mem_cons_self)
        simp only [Nat.ofDigits_cons, Nat.pow_zero, Nat.div_one, List.getD_cons_zero,
          List.getD_cons_succ]
        omega
  | succ i ih =>
    cases ds with
    | nil => simp
    | cons a ds =>
      have first := small a List.mem_cons_self
      have later := ih fun d member => small d (List.mem_cons_of_mem _ member)
      rw [List.getD_cons_succ, List.getD_cons_succ, ← later, Nat.ofDigits_cons, Nat.pow_succ',
        ← Nat.div_div_eq_div_mul]
      congr 2
      omega

/-- What the receiver picks out of a word for the channel at a place in it. -/
def window (bits : BitVec 16) (place : Nat) : Nat := ((bits >>> (place <<< 2)) &&& 0xff#16).toNat

theorem window_word {ds : List Nat} (small : ∀ d ∈ ds, d < 16) (few : ds.length ≤ 4) (i : Nat) :
    window (word ds) i = ds.getD i 0 + 16 * ds.getD (i + 1) 0 := by
  have power : 2 ^ (i <<< 2) = 16 ^ i := by
    rw [Nat.shiftLeft_eq, Nat.mul_comm, Nat.pow_mul]
  rw [← digits_window small, window, BitVec.toNat_and, BitVec.toNat_ushiftRight,
    word_value small few, Nat.shiftRight_eq_div_pow, power]
  exact Nat.and_two_pow_sub_one_eq_mod _ 8

end Digits

section Words

/-- The sender writes one word for up to four channels and goes on with the rest. -/
theorem send_group {chans front : List Chan} {x offset : Nat} {bits : BitVec 16}
    (place : x % 4 = front.length) (begun : bits = word (front.map nibble))
    (some : chans ≠ [] ∨ offset ≠ 3) :
    sendSigbits x offset bits chans =
      htons (word ((front ++ chans.take (4 - front.length)).map nibble)) ++
        sendSigbits (x + (4 - front.length)) 3 0 (chans.drop (4 - front.length)) := by
  induction chans generalizing front x offset bits with
  | nil =>
    have going : offset ≠ 3 := by simpa using some
    simp only [sendSigbits, List.take_nil, List.drop_nil, List.append_nil, going, ne_eq,
      not_false_eq_true, ↓reduceIte, not_true_eq_false, begun]
  | cons chan rest ih =>
    have below : x % 4 < 4 := Nat.mod_lt _ (by decide)
    have small : ∀ d ∈ front.map nibble, d < 16 := by
      intro d member
      obtain ⟨c, _, rfl⟩ := List.mem_map.mp member
      exact nibble_lt c
    have more : bits ||| BitVec.ofNat 16 (nibble chan) <<< ((x % 4) <<< 2) =
        word ((front ++ [chan]).map nibble) := by
      have snoc := @word_snoc (front.map nibble) small (by rw [List.length_map]; omega)
        (nibble chan) (nibble_lt chan)
      rw [List.length_map] at snoc
      rw [begun, place, snoc, List.map_append, List.map_singleton]
    obtain ⟨left, left_eq⟩ : ∃ left, 4 - front.length = left + 1 :=
      ⟨4 - front.length - 1, by omega⟩
    simp only [sendSigbits]
    rw [more, left_eq, List.take_succ_cons, List.drop_succ_cons]
    by_cases last : x % 4 = 3
    · rw [if_pos last, last, show left = 0 by omega, List.take_zero, List.drop_zero]
    · rw [if_neg last]
      have length : (front ++ [chan]).length = front.length + 1 := by
        rw [List.length_append, List.length_singleton]
      have later := @ih (front ++ [chan]) (x + 1) (x % 4) _ (by rw [length]; omega) rfl
        (Or.inr last)
      rw [later, length, show 4 - (front.length + 1) = left by omega, List.append_assoc,
        List.singleton_append, show x + 1 + left = x + (left + 1) by omega]

/-- The channels of one word, with what the receiver picks for each. -/
def windows (bits : BitVec 16) : Nat → List Chan → List Chan
  | _, [] => []
  | place, chan :: rest => rbsbits chan (window bits place) :: windows bits (place + 1) rest

theorem unless_same (chan : Chan) (sig : Int) :
    (if sig ≠ chan.rxsig then rbsbits chan sig else chan) = rbsbits chan sig := by
  split
  · rfl
  · rename_i same
    rw [rbsbits, if_pos (not_not.mp same)]

theorem record_within {chans : List Chan} {x : Nat} {bits : BitVec 16} {msg : List Octet}
    (inside : x % 4 ≠ 0) : recordSigbits x bits msg chans =
      (recordSigbits (x + (4 - x % 4)) bits msg (chans.drop (4 - x % 4))).map fun r =>
        (windows bits (x % 4) (chans.take (4 - x % 4)) ++ r.1, r.2) := by
  induction chans generalizing x with
  | nil => simp [recordSigbits, windows]
  | cons chan rest ih =>
    obtain ⟨left, left_eq⟩ : ∃ left, 4 - x % 4 = left + 1 := ⟨4 - x % 4 - 1, by omega⟩
    rw [left_eq, List.take_succ_cons, List.drop_succ_cons, windows, recordSigbits, if_neg inside]
    simp only [unless_same]
    by_cases last : x % 4 = 3
    · rw [show left = 0 by omega, List.take_zero, List.drop_zero, windows]
      cases recordSigbits (x + 1) bits msg rest with
      | none => rfl
      | some r => rfl
    · rw [ih (by omega), show (x + 1) % 4 = x % 4 + 1 by omega, show 4 - (x % 4 + 1) = left by omega,
        show x + 1 + left = x + (left + 1) by omega]
      cases recordSigbits (x + (left + 1)) bits msg (rest.drop left) with
      | none => rfl
      | some r => rfl

theorem ntohs_htons (w : BitVec 16) : ntohs ((w >>> 8).setWidth 8) (w.setWidth 8) = w := by
  apply BitVec.eq_of_getLsbD_eq
  intro i inside
  simp only [ntohs, BitVec.getLsbD_append, BitVec.getLsbD_setWidth, BitVec.getLsbD_ushiftRight]
  by_cases low : i < 8
  · simp [low]
  · have high : i - 8 < 8 := by omega
    simp [low, high, show 8 + (i - 8) = i by omega]

/-- The receiver takes one word for up to four channels. -/
theorem record_group {chans : List Chan} {x : Nat} {bits w : BitVec 16} {msg : List Octet}
    (begins : x % 4 = 0) (some : chans ≠ []) : recordSigbits x bits (htons w ++ msg) chans =
      (recordSigbits (x + 4) w msg (chans.drop 4)).map fun r =>
        (windows w 0 (chans.take 4) ++ r.1, r.2) := by
  cases chans with
  | nil => exact absurd rfl some
  | cons chan rest =>
    rw [recordSigbits, if_pos begins, htons, List.cons_append, List.cons_append, List.nil_append,
      takeShort, ntohs_htons]
    simp only [unless_same]
    rw [record_within (by omega), show (x + 1) % 4 = 1 by omega, List.take_succ_cons,
      List.drop_succ_cons, windows, begins]
    cases recordSigbits (x + 1 + (4 - 1)) w msg (rest.drop (4 - 1)) with
    | none => rfl
    | some r => rfl

theorem windows_length (bits : BitVec 16) (place : Nat) (chans : List Chan) :
    (windows bits place chans).length = chans.length := by
  induction chans generalizing place with
  | nil => rfl
  | cons chan rest ih => rw [windows, List.length_cons, List.length_cons, ih]

theorem windows_get (bits : BitVec 16) (place : Nat) (chans : List Chan) (i : Nat) :
    (windows bits place chans)[i]? =
      chans[i]?.map fun chan => rbsbits chan (window bits (place + i)) := by
  induction chans generalizing place i with
  | nil => rfl
  | cons chan rest ih =>
    cases i with
    | zero => rfl
    | succ i =>
      rw [windows, List.getElem?_cons_succ, ih, List.getElem?_cons_succ, Nat.add_assoc,
        Nat.add_comm 1 i]

end Words

section Trip

/-- The signalling value that reaches the channel at a place: its own bits, and
    those of the next channel of its word above them. -/
def heard (ds : List Nat) (i : Nat) : Nat :=
  ds.getD i 0 + 16 * if i % 4 = 3 then 0 else ds.getD (i + 1) 0

theorem heard_first {ds : List Nat} {i : Nat} (inside : i < 4) :
    (ds.take 4).getD i 0 + 16 * (ds.take 4).getD (i + 1) 0 = heard ds i := by
  simp only [heard, List.getD_eq_getElem?_getD]
  rw [List.getElem?_take_of_lt inside]
  by_cases last : i % 4 = 3
  · have past : (ds.take 4)[i + 1]? = none :=
      List.getElem?_eq_none (by rw [List.length_take]; omega)
    rw [if_pos last, past, Option.getD_none]
  · rw [if_neg last, List.getElem?_take_of_lt (by omega)]

theorem heard_drop (ds : List Nat) (i : Nat) : heard (ds.drop 4) i = heard ds (i + 4) := by
  simp only [heard, List.getD_eq_getElem?_getD, List.getElem?_drop, Nat.add_mod_right]
  rw [Nat.add_comm 4 i, show 4 + (i + 1) = i + 4 + 1 by omega]

/-- The signalling words written by one side and taken by the other. -/
theorem signalling_trip {ss ps : List Chan} {x offset : Nat} {bits : BitVec 16} (tail : List Octet)
    (begins : x % 4 = 0) (same : ss.length = ps.length) (some : ss ≠ [] ∨ offset = 3) :
    ∃ rs, recordSigbits x bits (sendSigbits x offset 0 ss ++ tail) ps = .some (rs, tail) ∧
      ∀ i : Nat, rs[i]? = ps[i]?.map fun chan => rbsbits chan (heard (ss.map nibble) i) := by
  induction size : ss.length using Nat.strongRecOn generalizing ss ps x offset bits with
  | ind n ih =>
    by_cases none : ss = []
    · have last := some.resolve_left (not_not.mpr none)
      subst none
      have empty : ps = [] := List.eq_nil_of_length_eq_zero (by rw [← same]; rfl)
      subst empty
      exact ⟨[], by simp [sendSigbits, recordSigbits, last], fun i => rfl⟩
    · have long : 0 < ss.length := List.length_pos_of_ne_nil none
      have group := @send_group ss [] x offset 0 begins rfl (Or.inl none)
      simp only [List.length_nil, Nat.sub_zero, List.nil_append] at group
      have other : ps ≠ [] := List.ne_nil_of_length_pos (by omega)
      obtain ⟨later, done, values⟩ := @ih (ss.drop 4).length
        (by rw [List.length_drop]; omega) (ss.drop 4) (ps.drop 4) (x + 4) 3
        (word ((ss.take 4).map nibble)) (by omega) (by simp only [List.length_drop, same])
        (Or.inr rfl) rfl
      have small : ∀ d ∈ (ss.take 4).map nibble, d < 16 := by
        intro d member
        obtain ⟨c, _, rfl⟩ := List.mem_map.mp member
        exact nibble_lt c
      refine ⟨windows (word ((ss.take 4).map nibble)) 0 (ps.take 4) ++ later, ?_, ?_⟩
      · rw [group, List.append_assoc, record_group begins other, done]
        rfl
      · intro i
        by_cases inside : i < 4
        · by_cases present : i < ps.length
          · have front : i < (windows (word ((ss.take 4).map nibble)) 0 (ps.take 4)).length := by
              rw [windows_length, List.length_take]
              omega
            rw [List.getElem?_append_left front, windows_get, List.getElem?_take_of_lt inside,
              Nat.zero_add, window_word small (by rw [List.length_map, List.length_take]; omega),
              List.map_take, heard_first inside]
          · have outside := values (i - (windows (word ((ss.take 4).map nibble)) 0 (ps.take 4)).length)
            rw [List.getElem?_append_right (by rw [windows_length, List.length_take]; omega), outside,
              List.getElem?_eq_none (by omega : ps.length ≤ i),
              List.getElem?_eq_none (by rw [List.length_drop]; omega)]
            rfl
        · have length : (windows (word ((ss.take 4).map nibble)) 0 (ps.take 4)).length =
              min 4 ps.length := by
            rw [windows_length, List.length_take]
          by_cases full : 4 ≤ ps.length
          · rw [List.getElem?_append_right (by omega), length, Nat.min_eq_left full, values,
              List.getElem?_drop, show 4 + (i - 4) = i by omega, List.map_drop, heard_drop,
              show i - 4 + 4 = i by omega]
          · rw [List.getElem?_append_right (by omega), values,
              List.getElem?_eq_none (by omega : ps.length ≤ i),
              List.getElem?_eq_none (by rw [List.length_drop]; omega)]
            rfl

theorem take_chunk (chunk : Chunk) (msg : List Octet) :
    takeChunk (chunk.octets ++ msg) = some (chunk, msg) := by
  have full := chunk.full
  unfold takeChunk
  rw [dif_pos (by rw [List.length_append]; omega)]
  simp only [← full, List.take_left, List.drop_left]

theorem audio_trip {ss ps : List Chan} (same : ss.length = ps.length) :
    ∃ rs, recordAudio (ss.flatMap fun chan => chan.writechunk.octets) ps = some rs ∧
      ∀ (i : Nat) (a b : Chan), ss[i]? = some a → ps[i]? = some b →
        rs[i]? = some { b with readchunk := a.writechunk } := by
  induction ps generalizing ss with
  | nil => exact ⟨[], rfl, fun i a b _ none => by simp at none⟩
  | cons p ps ih =>
    cases ss with
    | nil => simp at same
    | cons s ss =>
      obtain ⟨rs, done, values⟩ := @ih ss (by simpa using same)
      refine ⟨{ p with readchunk := s.writechunk } :: rs, ?_, ?_⟩
      · rw [List.flatMap_cons, recordAudio, take_chunk]
        simp only [done]
      · intro i a b first second
        cases i with
        | zero =>
          rw [List.getElem?_cons_zero, Option.some.injEq] at first second
          rw [List.getElem?_cons_zero, ← first, ← second]
        | succ i =>
          rw [List.getElem?_cons_succ] at first second ⊢
          exact values i a b first second

theorem send_sigbits_length {ss : List Chan} {x offset : Nat} (begins : x % 4 = 0)
    (some : ss ≠ [] ∨ offset = 3) :
    (sendSigbits x offset 0 ss).length = (ss.length + 3) / 4 * 2 := by
  induction size : ss.length using Nat.strongRecOn generalizing ss x offset with
  | ind n ih =>
    by_cases none : ss = []
    · have last := some.resolve_left (not_not.mpr none)
      subst none
      rw [← size]
      simp [sendSigbits, last]
    · have long : 0 < ss.length := List.length_pos_of_ne_nil none
      have group := @send_group ss [] x offset 0 begins rfl (Or.inl none)
      simp only [List.length_nil, Nat.sub_zero, List.nil_append] at group
      have later := @ih (ss.drop 4).length (by rw [List.length_drop]; omega) (ss.drop 4) (x + 4) 3
        (by omega) (Or.inr rfl) rfl
      rw [group, List.length_append, later, htons, List.length_drop]
      simp only [List.length_cons, List.length_nil]
      omega

theorem audio_length (ss : List Chan) :
    (ss.flatMap fun chan => chan.writechunk.octets).length = ss.length * chunksize := by
  induction ss with
  | nil => simp
  | cons s ss ih =>
    rw [List.flatMap_cons, List.length_append, ih, s.writechunk.full, List.length_cons, Nat.succ_mul,
      Nat.add_comm]

theorem flags_present (s : Span) : sendFlags s &&& flagSigbitsPresent ≠ 0 := by
  unfold sendFlags
  split <;> decide

theorem receive_accepts {dtd : Span} {sflags poshigh poslow high low : Octet} {msg : List Octet}
    {chans : List Chan} (count : (ntohs high low).toNat = dtd.chans.length)
    (length : announced sflags dtd.chans.length = msg.length + 6)
    (recorded : recordChans sflags msg dtd.chans = some chans) :
    ∃ p', receive dtd (BitVec.ofNat 8 chunksize :: sflags :: poshigh :: poslow :: high :: low :: msg) =
      some p' ∧ p'.chans = chans := by
  simp only [receive, count, length, ne_eq, not_true_eq_false, ↓reduceIte]
  split
  · rename_i none
    rw [recorded] at none
    simp at none
  · rename_i chans' same
    rw [recorded, Option.some.injEq] at same
    exact ⟨_, rfl, same.symm⟩

theorem record_sigbits_returns {ps : List Chan} {x : Nat} {bits : BitVec 16} {msg : List Octet}
    (long : ((x + ps.length + 3) / 4 - (x + 3) / 4) * 2 ≤ msg.length) :
    ∃ r, recordSigbits x bits msg ps = some r ∧
      r.2.length + ((x + ps.length + 3) / 4 - (x + 3) / 4) * 2 = msg.length := by
  induction ps generalizing x bits msg with
  | nil => exact ⟨([], msg), rfl, by simp⟩
  | cons p ps ih =>
    simp only [List.length_cons] at long ⊢
    rw [recordSigbits]
    by_cases begins : x % 4 = 0
    · rw [if_pos begins]
      rcases msg with _ | ⟨high, _ | ⟨low, msg⟩⟩
      · simp only [List.length_nil] at long
        omega
      · simp only [List.length_cons, List.length_nil] at long
        omega
      · simp only [List.length_cons] at long ⊢
        obtain ⟨r, done, left⟩ := @ih (x + 1) (ntohs high low) msg (by omega)
        simp only [takeShort, done]
        exact ⟨_, rfl, by simp only; omega⟩
    · rw [if_neg begins]
      obtain ⟨r, done, left⟩ := @ih (x + 1) bits msg (by omega)
      simp only [done]
      exact ⟨_, rfl, by simp only; omega⟩

theorem record_audio_returns {ps : List Chan} {msg : List Octet}
    (long : ps.length * chunksize ≤ msg.length) : ∃ r, recordAudio msg ps = some r := by
  induction ps generalizing msg with
  | nil => exact ⟨[], rfl⟩
  | cons p ps ih =>
    rw [List.length_cons, Nat.succ_mul] at long
    obtain ⟨r, done⟩ := @ih (msg.drop chunksize) (by rw [List.length_drop]; omega)
    rw [recordAudio, takeChunk, dif_pos (by omega)]
    simp only [done]
    exact ⟨_, rfl⟩

/-- Whatever comes in, nothing is read past its end. -/
theorem receive_returns (dtd : Span) (msg : List Octet) : ∃ p', receive dtd msg = some p' := by
  unfold receive
  split
  · rename_i samples sflags poshigh poslow high low msg
    simp only
    split
    · exact ⟨_, rfl⟩
    · split
      · exact ⟨_, rfl⟩
      · rename_i count
        split
        · exact ⟨_, rfl⟩
        · rename_i length
          have recorded : ∃ r, recordChans sflags msg dtd.chans = some r := by
            rw [not_not] at count length
            rw [count] at length
            unfold announced at length
            unfold recordChans
            split
            · rename_i none
              split at none
              · rename_i present
                rw [if_pos present] at length
                obtain ⟨r, done, _⟩ := @record_sigbits_returns dtd.chans 0 0 msg (by omega)
                rw [done] at none
                simp at none
              · simp at none
            · rename_i chans rest signalled
              apply record_audio_returns
              split at signalled
              · rename_i present
                rw [if_pos present] at length
                obtain ⟨r, done, left⟩ := @record_sigbits_returns dtd.chans 0 0 msg (by omega)
                rw [done, Option.some.injEq] at signalled
                subst signalled
                rw [record_sigbits_length done]
                simp only at left
                omega
              · rename_i absent
                rw [if_neg absent] at length
                simp only [Option.some.injEq, Prod.mk.injEq] at signalled
                obtain ⟨rfl, rfl⟩ := signalled
                omega
          obtain ⟨r, recorded⟩ := recorded
          split
          · rename_i none
            rw [recorded] at none
            simp at none
          · exact ⟨_, rfl⟩
  · exact ⟨_, rfl⟩

/-- A message is accepted by any span of as many channels: each gets the other's
    audio, and the signalling value `heard`. -/
theorem message_trip (s p : Span) (same : s.chans.length = p.chans.length) :
    ∃ p', receive p (sendmessage s).1 = some p' ∧ p'.chans.length = p.chans.length ∧
      ∀ (i : Nat) (a b : Chan), s.chans[i]? = some a → p.chans[i]? = some b →
        p'.chans[i]? = some { rbsbits b (heard (s.chans.map nibble) i) with
          readchunk := a.writechunk } := by
  have some_ : s.chans ≠ [] := List.ne_nil_of_length_pos s.some
  have few := s.few
  obtain ⟨rs, signalled, values⟩ := @signalling_trip s.chans p.chans 0 0 0
    (s.chans.flatMap fun chan => chan.writechunk.octets) rfl same (Or.inl some_)
  have kept : rs.length = p.chans.length := record_sigbits_length signalled
  obtain ⟨rs', recorded, chunks⟩ := @audio_trip s.chans rs (by omega)
  have chans : recordChans (sendFlags s) (sendSigbits 0 0 0 s.chans ++
      s.chans.flatMap fun chan => chan.writechunk.octets) p.chans = some rs' := by
    simp only [recordChans, flags_present, ne_eq, not_false_eq_true, ↓reduceIte, signalled, recorded]
  have count : (BitVec.ofNat 16 s.chans.length).toNat = s.chans.length := by
    rw [BitVec.toNat_ofNat, Nat.mod_eq_of_lt (by unfold maxChans at few; omega)]
  have length : announced (sendFlags s) s.chans.length = (sendSigbits 0 0 0 s.chans ++
      s.chans.flatMap fun chan => chan.writechunk.octets).length + 6 := by
    rw [announced, if_pos (flags_present s), List.length_append,
      send_sigbits_length rfl (Or.inl some_), audio_length]
    omega
  obtain ⟨p', received, result⟩ := @receive_accepts p (sendFlags s) ((s.txcnt >>> 8).setWidth 8)
    (s.txcnt.setWidth 8) ((BitVec.ofNat 16 s.chans.length >>> 8).setWidth 8)
    ((BitVec.ofNat 16 s.chans.length).setWidth 8) _ rs' (by rw [ntohs_htons, count, same])
    (by rw [← same]; exact length) chans
  refine ⟨p', ?_, ?_, ?_⟩
  · rw [← received, sendmessage]
    simp only [htons, List.cons_append, List.nil_append]
  · rw [result, record_audio_length recorded, kept]
  · intro i a b first second
    have heard_ := values i
    rw [second] at heard_
    rw [result]
    exact chunks i a _ first heard_

end Trip

/-- The peer's channels have the sender's audio and its four signalling bits. -/
structure Carried (s p : Span) : Prop where
  audio : ∀ (i : Nat) (a b : Chan), s.chans[i]? = some a → p.chans[i]? = some b →
    b.readchunk = a.writechunk
  signalling : ∀ (i : Nat) (a b : Chan), s.chans[i]? = some a → p.chans[i]? = some b →
    b.rxsig = nibble a

/-- The next channel of the same word sends zero bits. A channel with frozen
    signalling has the bits already. -/
def NextSilent (s p : Span) : Prop :=
  ∀ (i : Nat) (a b : Chan), s.chans[i]? = some a → p.chans[i]? = some b →
    if b.sigfreeze then b.rxsig = nibble a
    else i % 4 = 3 ∨ ∀ d, s.chans[i + 1]? = some d → nibble d = 0

theorem rbsbits_value (chan : Chan) (sig : Int) :
    (rbsbits chan sig).rxsig = if chan.sigfreeze then chan.rxsig else sig := by
  unfold rbsbits
  split
  · rename_i same
    rw [same, ite_self]
  · split <;> rfl

theorem heard_own {ss : List Chan} {i : Nat} {a : Chan} (present : ss[i]? = some a) :
    heard (ss.map nibble) i = nibble a ↔
      i % 4 = 3 ∨ ∀ d, ss[i + 1]? = some d → nibble d = 0 := by
  simp only [heard, List.getD_eq_getElem?_getD, List.getElem?_map, present, Option.map_some,
    Option.getD_some]
  by_cases last : i % 4 = 3
  · simp [last]
  · cases next : ss[i + 1]? with
    | none => simp
    | some d => simp [last]

/-- Delivering a message gives each channel the sender's audio, and the sender's
    four bits to all of them exactly when no channel hears the next one. -/
theorem delivered_iff (s p : Span) (same : s.chans.length = p.chans.length) :
    ∃ p', receive p (sendmessage s).1 = some p' ∧ p'.chans.length = p.chans.length ∧
      (∀ (i : Nat) (a b : Chan), s.chans[i]? = some a → p'.chans[i]? = some b →
        b.readchunk = a.writechunk) ∧ (Carried s p' ↔ NextSilent s p) := by
  obtain ⟨p', received, length, values⟩ := message_trip s p same
  have audio (i : Nat) (a b : Chan) (first : s.chans[i]? = some a)
      (second : p'.chans[i]? = some b) : b.readchunk = a.writechunk := by
    have inside : i < p.chans.length := by
      rw [← length]
      exact (List.getElem?_eq_some_iff.mp second).1
    have value := values i a _ first (List.getElem?_eq_getElem inside)
    rw [second, Option.some.injEq] at value
    rw [value]
  refine ⟨p', received, length, audio, ?_, ?_⟩
  · intro carried i a b first second
    have value := carried.signalling i a _ first (values i a b first second)
    simp only [rbsbits_value] at value
    split
    · rename_i frozen
      rw [if_pos frozen] at value
      exact value
    · rename_i free
      rw [if_neg free] at value
      exact (heard_own first).mp (by exact_mod_cast value)
  · intro silent
    refine ⟨audio, ?_⟩
    intro i a b first second
    have inside : i < p.chans.length := by
      rw [← length]
      exact (List.getElem?_eq_some_iff.mp second).1
    have before := List.getElem?_eq_getElem inside
    have value := values i a _ first before
    rw [second, Option.some.injEq] at value
    have held := silent i a _ first before
    rw [value]
    simp only [rbsbits_value]
    split
    · rename_i frozen
      rw [if_pos frozen] at held
      exact held
    · rename_i free
      rw [if_neg free] at held
      exact_mod_cast (heard_own first).mpr held

section Concrete

def silence : Chunk := ⟨[0, 0, 0, 0, 0, 0, 0, 0], rfl⟩
def speech : Chunk := ⟨[1, 2, 3, 4, 5, 6, 7, 8], rfl⟩

def channel (txsig : Int) (chunk : Chunk) : Chan :=
  ⟨.cas, false, txsig, 0, chunk, silence, []⟩

def pair (first second : Int) : Span :=
  ⟨[channel first speech, channel second speech], Nat.le_add_left 1 1, by
    simp [maxChans], 0, 0, 0, 0⟩

theorem delivered_iff_quiet : ∃ p', receive (pair 0 0) (sendmessage (pair 5 0)).1 = some p' ∧
    p'.chans.map (·.rxsig) = [5, 0] ∧ Carried (pair 5 0) p' := by
  obtain ⟨p', received, _, _, carried⟩ := delivered_iff (pair 5 0) (pair 0 0) rfl
  have values : (receive (pair 0 0) (sendmessage (pair 5 0)).1).map
      (fun p => p.chans.map (·.rxsig)) = some [5, 0] := by
    decide +kernel
  rw [received] at values
  refine ⟨p', received, Option.some.inj values, carried.mpr ?_⟩
  intro i a b first second
  match i, first, second with
  | 0, _, second =>
    obtain rfl := Option.some.inj second
    right
    intro d next
    obtain rfl := Option.some.inj next
    rfl
  | 1, _, second =>
    obtain rfl := Option.some.inj second
    right
    intro d next
    simp [pair] at next
  | i + 2, first, _ => simp [pair] at first

/-- A channel next to one that sends all four bits hears these above its own. -/
theorem next_channel_heard : ∃ p', receive (pair 0 0) (sendmessage (pair 5 15)).1 = some p' ∧
    p'.chans.map (·.rxsig) = [245, 15] ∧ ¬ Carried (pair 5 15) p' := by
  obtain ⟨p', received, _, values⟩ := message_trip (pair 5 15) (pair 0 0) rfl
  have heard_ : (receive (pair 0 0) (sendmessage (pair 5 15)).1).map
      (fun p => p.chans.map (·.rxsig)) = some [245, 15] := by
    decide +kernel
  rw [received] at heard_
  refine ⟨p', received, Option.some.inj heard_, ?_⟩
  intro carried
  have first := carried.signalling 0 _ _ rfl (values 0 _ _ rfl rfl)
  exact absurd first (by decide +kernel)

end Concrete

end DynamicRoundTrip
