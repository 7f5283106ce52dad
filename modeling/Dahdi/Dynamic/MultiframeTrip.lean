import Dahdi.Dynamic.Multiframe
import Dahdi.Dynamic.RoundTrip
import Dahdi.Library.EqualBlocks

/-!
A multi-frame message from one group of spans to another. The frame has places of
6, 16 and 256 octets for each span; the receiver finds them by the place of the
span in the frame.
-/
namespace MultiframeTrip
open Dynamic Multiframe DynamicRoundTrip EqualBlocks

section Parts

/-- The message of a span. -/
def message (s : Span) : List Octet := (sendmessage s).1

def head (t : Ztdeth) : List Octet := t.msgbuf.take 6

def signalling (t : Ztdeth) : List Octet := (t.msgbuf.drop 6).take (rbslenOf t.realChannels)

def voice (t : Ztdeth) : List Octet := t.msgbuf.drop (6 + rbslenOf t.realChannels)

theorem message_parts (t : Ztdeth) : t.msgbuf = head t ++ signalling t ++ voice t := by
  rw [head, signalling, voice, ← List.drop_drop, List.append_assoc, List.take_append_drop,
    List.take_append_drop]

/-- A span that waits with a message of all its channels. -/
structure Waiting (t : Ztdeth) : Prop where
  ready : t.ready = true
  holds : ∃ s : Span, t.msgbuf = message s ∧ t.realChannels = s.chans.length

/-- A span of a number of channels whose signalling block the sender knows. -/
structure Sendable (t : Ztdeth) : Prop extends Waiting t where
  known : t.realChannels = 24 ∨ t.realChannels = 31

variable {t : Ztdeth}

theorem rbslen_words (channels : Nat) : rbslenOf channels = (channels + 3) / 4 * 2 := by
  unfold rbslenOf
  split
  · rename_i few
    rw [few]
  · split
    · rename_i many
      rw [many]
    · rfl

theorem send_sigbits_all (s : Span) :
    (sendSigbits 0 0 0 s.chans).length = rbslenOf s.chans.length := by
  rw [rbslen_words]
  exact send_sigbits_length rfl (Or.inl (List.ne_nil_of_length_pos s.some))

/-- The octets of the header of a message. -/
theorem head_octets (waiting : Waiting t) : ∃ flags third fourth high, flags &&& flagIgnoreChan0 = 0 ∧
    head t = [8, flags, third, fourth, high, (BitVec.ofNat 16 t.realChannels).setWidth 8] := by
  obtain ⟨s, msgbuf, channels⟩ := waiting.holds
  have plain : sendFlags s &&& flagIgnoreChan0 = 0 := by
    unfold sendFlags
    split <;> decide
  rw [head, msgbuf, channels]
  exact ⟨sendFlags s, _, _, _, plain, rfl⟩

theorem msgbuf_length (waiting : Waiting t) :
    t.msgbuf.length = 6 + rbslenOf t.realChannels + t.realChannels * 8 := by
  obtain ⟨s, msgbuf, channels⟩ := waiting.holds
  rw [msgbuf, channels, message, sendmessage, List.length_append, List.length_append,
    send_sigbits_all, audio_length]
  rfl

theorem signalling_length (waiting : Waiting t) :
    (signalling t).length = rbslenOf t.realChannels := by
  have all := msgbuf_length waiting
  rw [signalling, List.length_take, List.length_drop]
  omega

theorem voice_length (waiting : Waiting t) : (voice t).length = t.realChannels * 8 := by
  have all := msgbuf_length waiting
  rw [voice, List.length_drop]
  omega

theorem rbs_known (sendable : Sendable t) : rbsOf t.realChannels = some (rbslenOf t.realChannels) := by
  rcases sendable.known with few | many
  · rw [few]
    rfl
  · rw [many]
    rfl

theorem rbslen_short (sendable : Sendable t) : rbslenOf t.realChannels ≤ 16 := by
  rw [rbslen_words]
  rcases sendable.known with few | many <;> omega

theorem rbs_part (t : Ztdeth) (stale : Octet) : rbsPart stale t (rbslenOf t.realChannels) =
    signalling t ++ List.replicate (16 - rbslenOf t.realChannels) stale := rfl

theorem voice_part (waiting : Waiting t) : voicePart t (rbslenOf t.realChannels) =
    (if t.noFrontPadding then [] else List.replicate 8 0xA5) ++ voice t ++
      List.replicate (padOf t).toNat 0xDD := by
  have all : (voice t).take (t.realChannels * 8) = voice t :=
    List.take_of_length_le (Nat.le_of_eq (voice_length waiting))
  rw [voicePart, ← voice, all]

theorem header_part_length (waiting : Waiting t) : (headerPart t).length = 6 := by
  have all := msgbuf_length waiting
  unfold headerPart
  cases t.noFrontPadding with
  | false =>
    simp only [Bool.false_eq_true, ↓reduceIte, List.length_take, List.length_modify]
    omega
  | true =>
    simp only [↓reduceIte, List.length_take]
    omega

theorem rbs_part_length (sendable : Sendable t) (stale : Octet) :
    (rbsPart stale t (rbslenOf t.realChannels)).length = 16 := by
  have short := rbslen_short sendable
  have words := signalling_length sendable.toWaiting
  rw [rbs_part, List.length_append, List.length_replicate]
  omega

theorem voice_part_length (sendable : Sendable t) :
    (voicePart t (rbslenOf t.realChannels)).length = 256 := by
  have length := voice_length sendable.toWaiting
  rw [voice_part sendable.toWaiting, List.length_append, List.length_append, length,
    List.length_replicate]
  unfold padOf
  cases t.noFrontPadding with
  | false => rcases sendable.known with few | many <;> simp [*]
  | true => rcases sendable.known with few | many <;> simp [*]

end Parts

section Frame

/-- The frame after its header, for spans in the order of their places. -/
def frameData (stale : Octet) (zs : List Ztdeth) : List Octet :=
  zs.flatMap headerPart ++
    zs.flatMap (fun t => rbsPart stale t (rbslenOf t.realChannels)) ++
      zs.flatMap fun t => voicePart t (rbslenOf t.realChannels)

variable {stale : Octet} {zs : List Ztdeth}

theorem rbs_all (known : ∀ t ∈ zs, rbsOf t.realChannels = some (rbslenOf t.realChannels)) :
    zs.mapM (fun z => rbsOf z.realChannels) = some (zs.map fun t => rbslenOf t.realChannels) := by
  induction zs with
  | nil => rfl
  | cons t zs ih =>
    rw [List.mapM_cons, known t List.mem_cons_self,
      ih fun u member => known u (List.mem_cons_of_mem _ member)]
    rfl

theorem zip_parts (part : Ztdeth → Nat → List Octet) (zs : List Ztdeth) :
    (zs.zip (zs.map fun t => rbslenOf t.realChannels)).flatMap (fun p => part p.1 p.2) =
      zs.flatMap fun t => part t (rbslenOf t.realChannels) := by
  induction zs with
  | nil => rfl
  | cons t zs ih => simp only [List.map_cons, List.zip_cons_cons, List.flatMap_cons, ih]

def frameOf (stale : Octet) (zs : List Ztdeth) : Frame :=
  ⟨0x8000#16 ||| BitVec.ofNat 16 zs.length, frameData stale zs⟩

theorem assembled (few : zs.length ≤ maxSpans) (sendable : ∀ t ∈ zs, Sendable t) :
    assemble stale zs = some (frameOf stale zs) := by
  have small : zs.length % 256 = zs.length := Nat.mod_eq_of_lt (by unfold maxSpans at few; omega)
  unfold assemble
  rw [if_neg (Nat.not_lt.mpr few), rbs_all fun t member => rbs_known (sendable t member)]
  simp only [zip_parts, small, frameOf, frameData]

theorem slice_part {a b c : List Octet} {start len : Nat} (inside : start + len ≤ b.length) :
    slice (a ++ b ++ c) (a.length + start) len = some ((b.drop start).take len) := by
  unfold slice
  rw [if_pos (by simp only [List.length_append]; omega), List.append_assoc, ← List.drop_drop,
    List.drop_left, List.drop_append_of_le_length (by omega), List.take_append_of_le_length (by
      rw [List.length_drop]
      omega)]

theorem headers_length (sendable : ∀ t ∈ zs, Sendable t) :
    (zs.flatMap headerPart).length = 6 * zs.length :=
  flat_length fun t member => header_part_length (sendable t member).toWaiting

theorem words_length (sendable : ∀ t ∈ zs, Sendable t) :
    (zs.flatMap fun t => rbsPart stale t (rbslenOf t.realChannels)).length = 16 * zs.length :=
  flat_length fun t member => rbs_part_length (sendable t member) stale

theorem voices_length (sendable : ∀ t ∈ zs, Sendable t) :
    (zs.flatMap fun t => voicePart t (rbslenOf t.realChannels)).length = 256 * zs.length :=
  flat_length fun t member => voice_part_length (sendable t member)

variable {j : Nat} {t : Ztdeth}

theorem header_window (stale : Octet) (sendable : ∀ t ∈ zs, Sendable t) (at_ : zs[j]? = some t) :
    slice (frameData stale zs) (6 * j) 6 = some (headerPart t) := by
  obtain ⟨below, _⟩ := List.getElem?_eq_some_iff.mp at_
  have here := (sendable t (List.mem_of_getElem? at_)).toWaiting
  have window := @window_flat _ _ 6 headerPart zs
    (fun t member => header_part_length (sendable t member).toWaiting) j t at_ 0 6 (by omega)
  have part := @slice_part [] (zs.flatMap headerPart)
    ((zs.flatMap fun t => rbsPart stale t (rbslenOf t.realChannels)) ++
      zs.flatMap fun t => voicePart t (rbslenOf t.realChannels)) (6 * j) 6
    (by rw [headers_length sendable]; omega)
  rw [List.nil_append, List.length_nil, Nat.zero_add, ← List.append_assoc] at part
  rw [frameData, part, ← Nat.add_zero (6 * j), window, List.drop_zero,
    List.take_of_length_le (Nat.le_of_eq (header_part_length here))]

theorem words_window (stale : Octet) (sendable : ∀ t ∈ zs, Sendable t) (at_ : zs[j]? = some t) :
    slice (frameData stale zs) (6 * zs.length + 16 * j) (rbslenOf t.realChannels) =
      some (signalling t) := by
  obtain ⟨below, _⟩ := List.getElem?_eq_some_iff.mp at_
  have here := sendable t (List.mem_of_getElem? at_)
  have short := rbslen_short here
  have window := @window_flat _ _ 16 (fun t => rbsPart stale t (rbslenOf t.realChannels)) zs
    (fun t member => rbs_part_length (sendable t member) stale) j t at_ 0 (rbslenOf t.realChannels)
    (by omega)
  have part := @slice_part (zs.flatMap headerPart)
    (zs.flatMap fun t => rbsPart stale t (rbslenOf t.realChannels))
    (zs.flatMap fun t => voicePart t (rbslenOf t.realChannels)) (16 * j) (rbslenOf t.realChannels)
    (by rw [words_length sendable]; omega)
  rw [headers_length sendable] at part
  rw [frameData, part, ← Nat.add_zero (16 * j), window, List.drop_zero, rbs_part,
    ← signalling_length here.toWaiting, List.take_left]

/-- The voice window of the receiver, which starts at `skip` in the span's place. -/
theorem voice_window (stale : Octet) (sendable : ∀ t ∈ zs, Sendable t) (at_ : zs[j]? = some t)
    {skip : Nat} (small : skip ≤ 8) : slice (frameData stale zs)
      (6 * zs.length + 16 * zs.length + 256 * j + skip) (t.realChannels * 8) =
        some (((voicePart t (rbslenOf t.realChannels)).drop skip).take (t.realChannels * 8)) := by
  obtain ⟨below, _⟩ := List.getElem?_eq_some_iff.mp at_
  have here := sendable t (List.mem_of_getElem? at_)
  have size : skip + t.realChannels * 8 ≤ 256 := by
    rcases here.known with few | many <;> omega
  have window := @window_flat _ _ 256 (fun t => voicePart t (rbslenOf t.realChannels)) zs
    (fun t member => voice_part_length (sendable t member)) j t at_ skip (t.realChannels * 8) size
  have part := @slice_part (zs.flatMap headerPart ++
      zs.flatMap fun t => rbsPart stale t (rbslenOf t.realChannels))
    (zs.flatMap fun t => voicePart t (rbslenOf t.realChannels)) [] (256 * j + skip)
    (t.realChannels * 8) (by rw [voices_length sendable]; omega)
  rw [List.append_nil, List.length_append, headers_length sendable, words_length sendable,
    ← Nat.add_assoc] at part
  rw [frameData, part, window]

end Frame

section Pass

/-- The voice the receiver takes for a span when it starts at `skip`. -/
def heardVoice (t : Ztdeth) (skip : Nat) : List Octet :=
  ((voicePart t (rbslenOf t.realChannels)).drop skip).take (t.realChannels * 8)

def told (t : Ztdeth) (skip : Nat) : List Octet := head t ++ signalling t ++ heardVoice t skip

def skipNext (t : Ztdeth) (skip : Nat) : Nat := if t.noFrontPadding then skip else 8

theorem flag_marked : ∀ flags : Octet, flags &&& flagIgnoreChan0 = 0 →
    (flags ||| flagIgnoreChan0) &&& flagIgnoreChan0 ≠ 0 ∧
      (flags ||| flagIgnoreChan0) &&& ~~~flagIgnoreChan0 = flags := by
  decide +kernel

/-- The header in the frame: its flag tells the padding, and without the flag it is
    the header of the message. -/
theorem header_octets {t : Ztdeth} (waiting : Waiting t) : ∃ flags third fourth high,
    headerPart t = [8, flags, third, fourth, high, (BitVec.ofNat 16 t.realChannels).setWidth 8] ∧
      decide (flags &&& flagIgnoreChan0 ≠ 0) = !t.noFrontPadding ∧
        (if flags &&& flagIgnoreChan0 ≠ 0 then (headerPart t).set 1 (flags &&& ~~~flagIgnoreChan0)
          else headerPart t) = head t := by
  obtain ⟨flags, third, fourth, high, plain, octets⟩ := head_octets waiting
  obtain ⟨on, off⟩ := flag_marked flags plain
  have header : headerPart t = if t.noFrontPadding then head t
      else (head t).modify 1 fun flags => flags ||| flagIgnoreChan0 := by
    unfold headerPart head
    split
    · rfl
    · rw [List.take_modify]
  rw [header, octets]
  cases t.noFrontPadding with
  | false =>
    refine ⟨flags ||| flagIgnoreChan0, third, fourth, high, rfl, by simpa using on, ?_⟩
    rw [if_pos on, off]
    rfl
  | true =>
    refine ⟨flags, third, fourth, high, rfl, by simp [plain], ?_⟩
    rw [if_neg fun marked => marked plain]
    rfl

theorem slice_get {data part : List Octet} {start len x : Nat}
    (sliced : slice data start len = some part) (inside : x < len) :
    data[start + x]? = part[x]? := by
  unfold slice at sliced
  split at sliced
  · simp only [Option.some.injEq] at sliced
    rw [← sliced, List.getElem?_take_of_lt inside, List.getElem?_drop]
  · simp at sliced

variable {zs : List Ztdeth} {j : Nat} {t : Ztdeth}

theorem skip_small (t : Ztdeth) {skip : Nat} (small : skip ≤ 8) : skipNext t skip ≤ 8 := by
  unfold skipNext
  split
  · exact small
  · exact Nat.le_refl 8

theorem count_octet (sendable : Sendable t) :
    ((BitVec.ofNat 16 t.realChannels).setWidth 8 : Octet).toNat = t.realChannels := by
  rcases sendable.known with few | many
  · rw [few]
    rfl
  · rw [many]
    rfl

/-- A pass that finds a span of its place gives it what it reads there, unless the
    buffer is in use. -/
theorem pass_told (stale : Octet) (sendable : ∀ t ∈ zs, Sendable t) (at_ : zs[j]? = some t)
    {skip : Nat} (small : skip ≤ 8) {source : List Octet} {list : List Ztdeth} {i : Nat}
    {z : Ztdeth} (found : findEthmf list source (BitVec.ofNat 16 j) = some i)
    (present : list[i]? = some z) :
    rcvSpan source (frameData stale zs) zs.length j skip list =
      if z.refcnt - 1 = 0 then some (skip, list)
      else (deliver z (!t.noFrontPadding) (told t (skipNext t skip))).map fun z =>
        (skipNext t skip, list.set i z) := by
  have here := sendable t (List.mem_of_getElem? at_)
  have header := header_window stale sendable at_
  obtain ⟨flags, third, fourth, high, octets, front, restored⟩ := header_octets here.toWaiting
  have samples := slice_get header (by omega : 0 < 6)
  have flagged := slice_get header (by omega : 1 < 6)
  have count := slice_get header (by omega : 5 < 6)
  rw [Nat.mul_comm, octets] at samples flagged count
  have channels := count_octet here
  have accepted : ¬ ((8 : Octet) ≠ 8 ∨ 32 ≤ t.realChannels ∨
      ((BitVec.ofNat 16 t.realChannels).setWidth 8 : Octet) = 0) := by
    rintro (wrong | many | none)
    · exact wrong rfl
    · rcases here.known with few | many <;> omega
    · rw [none] at channels
      rcases here.known with few | many <;> simp_all
  have going : (if !t.noFrontPadding then 8 else skip) = skipNext t skip := by
    unfold skipNext
    cases t.noFrontPadding <;> rfl
  have buffer : rcvbuf (frameData stale zs) zs.length j (skipNext t skip) flags t.realChannels =
      some (told t (skipNext t skip)) := by
    unfold rcvbuf
    simp only [header, words_window stale sendable at_,
      voice_window stale sendable at_ (skip_small t small), restored]
    rfl
  unfold rcvSpan
  rw [Nat.add_zero] at samples
  simp only [found, present, samples, flagged, count, List.getElem?_cons_zero,
    List.getElem?_cons_succ, front, going, channels, buffer]
  rw [if_neg accepted]
  split
  · rfl
  · cases deliver z (!t.noFrontPadding) (told t (skipNext t skip)) with
    | none => rfl
    | some z => rfl

end Pass

section Loop

def keyOf (z : Ztdeth) : Nat × List Octet × BitVec 16 := (z.delay, z.addr, z.subaddr)

theorem find_keys {list list' : List Ztdeth} (same : list'.map keyOf = list.map keyOf)
    (source : List Octet) (subaddr : BitVec 16) :
    findEthmf list' source subaddr = findEthmf list source subaddr := by
  have by_key (l : List Ztdeth) : findEthmf l source subaddr = (l.map keyOf).findIdx?
      fun k => decide (k.1 = 0) && decide (source = k.2.1) && decide (k.2.2 = subaddr) := by
    rw [List.findIdx?_map]
    rfl
  rw [by_key, by_key, same]

theorem find_spec {list : List Ztdeth} {source : List Octet} {subaddr : BitVec 16} {i : Nat}
    (found : findEthmf list source subaddr = some i) :
    ∃ z, list[i]? = some z ∧ z.delay = 0 ∧ z.addr = source ∧ z.subaddr = subaddr := by
  obtain ⟨below, holds, _⟩ := List.findIdx?_eq_some_iff_getElem.mp found
  simp only [Bool.and_eq_true, decide_eq_true_eq] at holds
  exact ⟨list[i], List.getElem?_eq_getElem below, holds.1.1, holds.1.2.symm, holds.2⟩

/-- The span a pass finds with a free buffer. -/
def hit (list : List Ztdeth) (source : List Octet) (j : Nat) : Option Nat :=
  match findEthmf list source (BitVec.ofNat 16 j) with
  | none => none
  | some i =>
    match list[i]? with
    | none => none
    | some z => if z.refcnt - 1 = 0 then none else some i

theorem hit_spec {list : List Ztdeth} {source : List Octet} {j i : Nat}
    (found : hit list source j = some i) : findEthmf list source (BitVec.ofNat 16 j) = some i ∧
      ∃ z, list[i]? = some z ∧ z.refcnt - 1 ≠ 0 ∧ z.delay = 0 ∧ z.addr = source ∧
        z.subaddr = BitVec.ofNat 16 j := by
  unfold hit at found
  split at found
  · simp at found
  · rename_i i' first
    obtain ⟨z, present, delay, addr, subaddr⟩ := find_spec first
    simp only [present] at found
    split at found
    · simp at found
    · rename_i free
      obtain rfl := Option.some.inj found
      exact ⟨first, z, present, free, delay, addr, subaddr⟩

/-- `skip` after some passes. -/
def skipAfter (list : List Ztdeth) (source : List Octet) (zs : List Ztdeth) : Nat → Nat
  | 0 => 0
  | j + 1 =>
    match hit list source j, zs[j]? with
    | some _, some t => skipNext t (skipAfter list source zs j)
    | _, _ => skipAfter list source zs j

theorem skip_after_small (list : List Ztdeth) (source : List Octet) (zs : List Ztdeth) (j : Nat) :
    skipAfter list source zs j ≤ 8 := by
  induction j with
  | zero => exact Nat.zero_le 8
  | succ j ih =>
    unfold skipAfter
    split
    · exact skip_small _ ih
    · exact ih

/-- What the passes so far have made of the span at an index. -/
def Came (list : List Ztdeth) (source : List Octet) (zs : List Ztdeth) (passes i : Nat)
    (z z' : Ztdeth) : Prop :=
  if z.subaddr.toNat < passes ∧ hit list source z.subaddr.toNat = some i then
    ∃ t, zs[z.subaddr.toNat]? = some t ∧ deliver z (!t.noFrontPadding)
      (told t (skipAfter list source zs (z.subaddr.toNat + 1))) = some z'
  else z' = z

theorem came_later {list zs : List Ztdeth} {source : List Octet} {passes i : Nat} {z z' : Ztdeth}
    (came : Came list source zs passes i z z')
    (other : z.subaddr.toNat = passes → hit list source passes ≠ some i) :
    Came list source zs (passes + 1) i z z' := by
  unfold Came at came ⊢
  by_cases reached : z.subaddr.toNat < passes ∧ hit list source z.subaddr.toNat = some i
  · rw [if_pos reached] at came
    rw [if_pos ⟨Nat.lt_succ_of_lt reached.1, reached.2⟩]
    exact came
  · rw [if_neg reached] at came
    rw [if_neg]
    · exact came
    · rintro ⟨below, found⟩
      rcases Nat.lt_succ_iff_lt_or_eq.mp below with earlier | here
      · exact reached ⟨earlier, found⟩
      · rw [here] at found
        exact other here found

structure After (list : List Ztdeth) (source : List Octet) (zs : List Ztdeth) (passes : Nat)
    (list' : List Ztdeth) : Prop where
  length : list'.length = list.length
  keys : list'.map keyOf = list.map keyOf
  came : ∀ (i : Nat) (z z' : Ztdeth), list[i]? = some z → list'[i]? = some z' →
    Came list source zs passes i z z'

theorem deliver_key {z z' : Ztdeth} {front : Bool} {msg : List Octet}
    (done : deliver z front msg = some z') : keyOf z' = keyOf z := by
  obtain ⟨span, _, rfl⟩ := Option.map_eq_some_iff.mp done
  rfl

theorem deliver_returns (z : Ztdeth) (front : Bool) (msg : List Octet) :
    ∃ z', deliver z front msg = some z' := by
  obtain ⟨span, received⟩ := receive_returns z.span msg
  rw [deliver, received]
  exact ⟨_, rfl⟩

theorem set_keys {list : List Ztdeth} {i : Nat} {z z' : Ztdeth} (present : list[i]? = some z)
    (same : keyOf z' = keyOf z) : (list.set i z').map keyOf = list.map keyOf := by
  obtain ⟨below, rfl⟩ := List.getElem?_eq_some_iff.mp present
  rw [List.map_set, same]
  apply List.ext_getElem?
  intro x
  rw [List.getElem?_set]
  split
  · rename_i here
    subst here
    rw [List.length_map, if_pos below, List.getElem?_map, List.getElem?_eq_getElem below]
    rfl
  · rfl

variable {stale : Octet} {zs list list' : List Ztdeth} {source : List Octet}

theorem place_value {j : Nat} (few : j < maxSpans) : (BitVec.ofNat 16 j).toNat = j := by
  unfold maxSpans at few
  rw [BitVec.toNat_ofNat, Nat.mod_eq_of_lt (by omega)]

/-- A place not reached before. -/
theorem came_fresh {passes i : Nat} {z z' : Ztdeth} (came : Came list source zs passes i z z')
    (fresh : ¬ z.subaddr.toNat < passes) : z' = z := by
  rw [Came, if_neg fun reached => fresh reached.1] at came
  exact came

theorem after_miss {passes : Nat} (after : After list source zs passes list')
    (missed : hit list source passes = none) : After list source zs (passes + 1) list' := by
  refine ⟨after.length, after.keys, ?_⟩
  intro i z z' before now
  apply came_later (after.came i z z' before now)
  intro _ found
  rw [missed] at found
  exact absurd found (by simp)

theorem after_hit {passes i : Nat} {z z' t : Ztdeth} (few : passes < maxSpans)
    (after : After list source zs passes list') (found : hit list source passes = some i)
    (present : list[i]? = some z) (at_ : zs[passes]? = some t)
    (done : deliver z (!t.noFrontPadding) (told t (skipAfter list source zs (passes + 1))) = some z')
    (same : list'[i]? = some z) : After list source zs (passes + 1) (list'.set i z') := by
  obtain ⟨_, y, here, _, _, _, subaddr⟩ := hit_spec found
  rw [present, Option.some.injEq] at here
  rw [← here] at subaddr
  have place : z.subaddr.toNat = passes := by rw [subaddr, place_value few]
  refine ⟨by rw [List.length_set, after.length], (set_keys same (deliver_key done)).trans after.keys, ?_⟩
  intro x u u' before now
  rcases Nat.decEq x i with other | rfl
  · rw [List.getElem?_set_ne (fun eq => other eq.symm)] at now
    apply came_later (after.came x u u' before now)
    intro _ again
    rw [found, Option.some.injEq] at again
    exact other again.symm
  · rw [present, Option.some.injEq] at before
    subst before
    obtain ⟨below, _⟩ := List.getElem?_eq_some_iff.mp same
    rw [List.getElem?_set_self below, Option.some.injEq] at now
    subst now
    rw [Came, place, if_pos ⟨Nat.lt_succ_self _, found⟩]
    exact ⟨t, at_, done⟩

/-- The span of a place not reached yet is as it was. -/
theorem still {passes i j : Nat} {z : Ztdeth} (after : After list source zs passes list')
    (present : list[i]? = some z) (subaddr : z.subaddr = BitVec.ofNat 16 j) (few : j < maxSpans)
    (later : passes ≤ j) : list'[i]? = some z := by
  have inside : i < list'.length := by
    rw [after.length]
    exact (List.getElem?_eq_some_iff.mp present).1
  have now := List.getElem?_eq_getElem inside
  have fresh : ¬ z.subaddr.toNat < passes := by
    rw [subaddr, place_value few]
    omega
  rw [now, came_fresh (after.came i z _ present now) fresh]

theorem pass_after (stale : Octet) (few : zs.length ≤ maxSpans) (sendable : ∀ t ∈ zs, Sendable t)
    {passes : Nat} (below : passes < zs.length) (after : After list source zs passes list') :
    ∃ list'', rcvSpan source (frameData stale zs) zs.length passes
      (skipAfter list source zs passes) list' = some (skipAfter list source zs (passes + 1), list'') ∧
        After list source zs (passes + 1) list'' := by
  have at_ := List.getElem?_eq_getElem below
  have finds := find_keys after.keys source (BitVec.ofNat 16 passes)
  cases found : hit list source passes with
  | none =>
    have next : skipAfter list source zs (passes + 1) = skipAfter list source zs passes := by
      rw [skipAfter, found]
    refine ⟨list', ?_, after_miss after found⟩
    rw [next]
    unfold hit at found
    split at found
    · rename_i nobody
      rw [rcvSpan, finds, nobody]
    · rename_i i first
      obtain ⟨z, present, _, _, subaddr⟩ := find_spec first
      have same := still after present subaddr (by omega) (Nat.le_refl _)
      rw [pass_told stale sendable at_ (skip_after_small list source zs passes) (finds.trans first) same]
      simp only [present] at found
      split at found
      · rename_i busy
        rw [if_pos busy]
      · simp at found
  | some i =>
    obtain ⟨first, z, present, free, _, _, subaddr⟩ := hit_spec found
    have next : skipAfter list source zs (passes + 1) =
        skipNext zs[passes] (skipAfter list source zs passes) := by
      rw [skipAfter, found, at_]
    have same := still after present subaddr (by omega) (Nat.le_refl _)
    obtain ⟨z', done⟩ := deliver_returns z (!zs[passes].noFrontPadding)
      (told zs[passes] (skipAfter list source zs (passes + 1)))
    refine ⟨list'.set i z', ?_, after_hit (by omega) after found present at_ done same⟩
    rw [pass_told stale sendable at_ (skip_after_small list source zs passes) (finds.trans first) same,
      if_neg free, ← next, done]
    rfl

/-- The passes from one place on. -/
theorem loop_after (stale : Octet) (few : zs.length ≤ maxSpans) (sendable : ∀ t ∈ zs, Sendable t)
    {left passes : Nat} (inside : passes + left ≤ zs.length)
    (after : After list source zs passes list') :
    ∃ list'', rcvLoop source (frameData stale zs) zs.length left passes
      (skipAfter list source zs passes) list' = some list'' ∧
        After list source zs (passes + left) list'' := by
  induction left generalizing passes list' with
  | zero => exact ⟨list', rfl, after⟩
  | succ left ih =>
    obtain ⟨next, pass, reached⟩ := pass_after stale few sendable (by omega) after
    obtain ⟨list'', rest, done⟩ := ih (by omega) reached
    rw [Nat.add_right_comm] at done
    rw [rcvLoop, pass]
    exact ⟨list'', rest, done⟩

/-- What the receiver reads in the header of a frame. -/
theorem counted {k : Nat} (few : k ≤ maxSpans) :
    (0x8000#16 ||| BitVec.ofNat 16 k) &&& 0x8000#16 ≠ 0 ∧
      ((0x8000#16 ||| BitVec.ofNat 16 k) &&& 0xff#16).toNat = k := by
  have all : ∀ k : Fin 5, (0x8000#16 ||| BitVec.ofNat 16 k.val) &&& 0x8000#16 ≠ 0 ∧
      ((0x8000#16 ||| BitVec.ofNat 16 k.val) &&& 0xff#16).toNat = k.val := by decide +kernel
  exact all ⟨k, Nat.lt_succ_of_le few⟩

/-- A frame of some spans, received. -/
theorem received_after (stale : Octet) (p : Ethmf) (some_ : 1 ≤ zs.length) (few : zs.length ≤ maxSpans)
    (sendable : ∀ t ∈ zs, Sendable t) :
    ∃ p', rcv p source (frameOf stale zs) = some p' ∧
      After p.list source zs (if p.shutdown then 1 else zs.length) p'.list := by
  obtain ⟨multi, count⟩ := counted few
  have start : After p.list source zs 0 p.list := by
    refine ⟨rfl, rfl, ?_⟩
    intro i z z' before now
    rw [before, Option.some.injEq] at now
    rw [Came, if_neg fun reached => absurd reached.1 (Nat.not_lt_zero _)]
    exact now.symm
  have passes : (if p.shutdown then 1 else max 1 zs.length) = if p.shutdown then 1 else zs.length := by
    rw [Nat.max_eq_right some_]
  have inside : 0 + (if p.shutdown then 1 else zs.length) ≤ zs.length := by
    split <;> omega
  obtain ⟨list', looped, after⟩ := loop_after stale few sendable inside start
  rw [Nat.zero_add] at after
  rw [skipAfter] at looped
  unfold rcv frameOf
  rw [if_neg multi]
  simp only [count, passes]
  rw [if_neg (Nat.not_lt.mpr few), looped]
  exact ⟨{ p with list := list' }, rfl, after⟩

end Loop

section Skip
variable {t : Ztdeth}

/-- A voice that its own shift leaves as it is. -/
def Silent (t : Ztdeth) : Prop := ∀ octet ∈ voice t, octet = 0xDD

theorem told_front (sendable : Sendable t) (front : t.noFrontPadding = false) :
    told t 8 = t.msgbuf := by
  have length := voice_length sendable.toWaiting
  have heard : heardVoice t 8 = voice t := by
    rw [heardVoice, voice_part sendable.toWaiting, front, if_neg (by simp), List.append_assoc,
      List.drop_left' (List.length_replicate ..), ← length, List.take_left]
  rw [told, heard, ← message_parts]

theorem told_plain (sendable : Sendable t) (plain : t.noFrontPadding = true) :
    told t 0 = t.msgbuf := by
  have length := voice_length sendable.toWaiting
  have heard : heardVoice t 0 = voice t := by
    rw [heardVoice, voice_part sendable.toWaiting, plain, if_pos rfl, List.nil_append, List.drop_zero,
      ← length, List.take_left]
  rw [told, heard, ← message_parts]

/-- Eight octets skipped in a place without front padding. -/
theorem told_shifted (sendable : Sendable t) (plain : t.noFrontPadding = true) :
    told t 8 = t.msgbuf ↔ Silent t := by
  have length := voice_length sendable.toWaiting
  have short : 8 ≤ (voice t).length := by
    rcases sendable.known with few | many <;> omega
  have pad : 8 ≤ (padOf t).toNat := by
    rw [padOf, plain]
    rcases sendable.known with few | many
    · rw [few]
      decide
    · rw [many]
      decide
  have heard : heardVoice t 8 = (voice t).drop 8 ++ List.replicate 8 0xDD := by
    rw [heardVoice, voice_part sendable.toWaiting, plain, if_pos rfl, List.nil_append,
      List.drop_append_of_le_length short, ← length, List.take_append, List.take_of_length_le (by
        rw [List.length_drop]
        omega), List.take_replicate, List.length_drop]
    congr 2
    omega
  have shifted := shifted_constant (by omega : 0 < 8) short (c := 0xDD)
  rw [told, heard]
  constructor
  · intro same
    rw [message_parts t] at same
    have constant := shifted.mp (List.append_cancel_left same)
    intro octet member
    rw [constant] at member
    exact List.eq_of_mem_replicate member
  · intro silent
    have constant := shifted.mpr (List.eq_replicate_of_mem silent)
    rw [constant, ← message_parts]

variable {list zs : List Ztdeth} {source : List Octet}

theorem skip_after_padded {j j' i : Nat} (earlier : j' < j) (found : hit list source j' = some i)
    (at_ : zs[j']? = some t) (front : t.noFrontPadding = false) :
    skipAfter list source zs j = 8 := by
  induction j with
  | zero => exact absurd earlier (Nat.not_lt_zero j')
  | succ j ih =>
    rcases Nat.lt_succ_iff_lt_or_eq.mp earlier with before | rfl
    · rw [skipAfter, ih before]
      split
      · unfold skipNext
        split <;> rfl
      · rfl
    · rw [skipAfter, found, at_]
      simp only [skipNext, front, Bool.false_eq_true, ↓reduceIte]

theorem skip_after_cases (list : List Ztdeth) (source : List Octet) (zs : List Ztdeth) (j : Nat) :
    skipAfter list source zs j = 0 ∨ (skipAfter list source zs j = 8 ∧
      ∃ j' i t, j' < j ∧ hit list source j' = some i ∧ zs[j']? = some t ∧ t.noFrontPadding = false) := by
  induction j with
  | zero => exact Or.inl rfl
  | succ j ih =>
    have earlier (eight : skipAfter list source zs (j + 1) = skipAfter list source zs j) :
        skipAfter list source zs (j + 1) = 0 ∨ (skipAfter list source zs (j + 1) = 8 ∧
          ∃ j' i t, j' < j + 1 ∧ hit list source j' = some i ∧ zs[j']? = some t ∧
            t.noFrontPadding = false) := by
      rw [eight]
      rcases ih with zero | ⟨eight, j', i, t, before, found, at_, front⟩
      · exact Or.inl zero
      · exact Or.inr ⟨eight, j', i, t, Nat.lt_succ_of_lt before, found, at_, front⟩
    cases found : hit list source j with
    | none => exact earlier (by rw [skipAfter, found])
    | some i =>
      cases at_ : zs[j]? with
      | none => exact earlier (by rw [skipAfter, found, at_])
      | some t =>
        cases front : t.noFrontPadding with
        | true => exact earlier (by rw [skipAfter, found, at_]; simp only [skipNext, front, ↓reduceIte])
        | false =>
          refine Or.inr ⟨?_, j, i, t, Nat.lt_succ_self j, found, at_, front⟩
          exact skip_after_padded (Nat.lt_succ_self j) found at_ front

end Skip

end MultiframeTrip
