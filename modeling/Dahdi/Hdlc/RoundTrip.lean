import Dahdi.Hdlc.Frames

/-!
Frames through the codec. The transmitter follows the discipline of
__dahdi_getbuf_chunk for a script of frames, each after a number of idle
octets; after the last frame the line stays idle.
-/
namespace CodecRoundTrip
open Fasthdlc FasthdlcLink HdlcFrames

/-- A frame has at least one byte: the next one and those after it. -/
structure Frame where
  next : Octet
  later : List Octet
  deriving DecidableEq, Repr

def Frame.bytes (f : Frame) : List Octet := f.next :: f.later

structure Line where
  h : State
  script : List (Nat × Frame)

/-- Sending the flag after the last byte makes way for the rest of the script. -/
def sentByte (h : State) (f : Frame) (rest : List (Nat × Frame)) : Line :=
  match f.later with
  | [] => ⟨fasthdlcTxFrameNocheck h, rest⟩
  | y :: later => ⟨h, (0, ⟨y, later⟩) :: rest⟩

def transmitOctet (line : Line) : Octet × Line :=
  match line.script with
  | [] =>
      let (b, h) := sendOctet line.h .flag
      (b, ⟨h, []⟩)
  | (idle + 1, f) :: rest =>
      let (b, h) := sendOctet line.h .flag
      (b, ⟨h, (idle, f) :: rest⟩)
  | (0, f) :: rest =>
      let (b, h) := sendOctet line.h (.octet f.next)
      if fasthdlcTxNeedData line.h then (b, sentByte h f rest)
      else (b, ⟨h, (0, f) :: rest⟩)

def transmit : Nat → Line → List Octet
  | 0, _ => []
  | n + 1, line => (transmitOctet line).1 :: transmit n (transmitOctet line).2

/-- The value of every fasthdlc_rx_run, one for each octet loaded. -/
def receive : State → List Octet → Option (List RxResult)
  | _, [] => some []
  | h, b :: rest =>
    match fasthdlcRxRun (fasthdlcRxLoadNocheck h b) with
    | none => none
    | some (result, h) => (receive h rest).map (result :: ·)

def scriptFrames (script : List (Nat × Frame)) : List (List Octet) :=
  script.map fun step => step.2.bytes

/-- Octets the script asks for: idle ones, and at least one for each byte. -/
def work : List (Nat × Frame) → Nat
  | [] => 0
  | (idle, f) :: rest => idle + f.bytes.length + work rest

/-- What the receiver has collected, the symbols before it and the rest of the
    script make up the frames; the budget bounds the octets still needed. -/
def Expects (script : List (Nat × Frame)) (c : Collected) (syms : List Sym)
    (frames : List (List Octet)) (bits : Int) (budget : Nat) : Prop :=
  match script with
  | [] => ∃ flags, Settling c syms frames flags ∧
      (flags < 4 → 32 * ((4 - flags : Nat) : Int) + bits ≤ budget)
  | (idle, f) :: rest => ∃ done cur, collectSyms c syms = (done, cur) ∧ (0 < idle → cur = []) ∧
      done ++ (cur ++ f.bytes) :: scriptFrames rest = frames ∧
      32 * (work ((idle, f) :: rest) : Int) + 128 + bits ≤ budget

theorem expects_decoded {script : List (Nat × Frame)} {c : Collected} {syms left : List Sym}
    {frames : List (List Octet)} {bits : Int} {budget state state' : Nat} {r : RxResult}
    (expects : Expects script c syms frames bits budget)
    (decoded : Decoded state state' syms r left) (fresh : state = 0 → c = ([], [])) :
    Expects script (collectStep c r) left frames bits budget := by
  rcases decoded_collect decoded fresh with ⟨rfl, same⟩ | ⟨s, rfl, taken⟩
  · rw [same]
    exact expects
  · rw [taken]
    cases script with
    | nil =>
      obtain ⟨flags, settling, bound⟩ := expects
      exact ⟨flags, settling_first settling, bound⟩
    | cons step rest => exact expects

section Sending
variable {h : State} {rx : State} {c : Collected} {syms : List Sym} {frames : List (List Octet)}
  {budget : Nat}

theorem offered_collect (s : Sym) : collectSyms c (offered h syms s) =
    if fasthdlcTxNeedData h then collectSyms (collectSyms c syms) [s] else collectSyms c syms := by
  unfold offered
  split
  · exact collect_syms_append c syms [s]
  · rfl

theorem expects_idle_end (linked : Linked h rx syms)
    (expects : Expects [] c syms frames h.bits budget) :
    Expects [] c (offered h syms .flag) frames (sendOctet h .flag).2.bits (budget - 1) := by
  obtain ⟨flags, ⟨front, j, split, enough, whole⟩, bound⟩ := expects
  obtain ⟨short, full⟩ := send_octet_bits linked .flag
  obtain ⟨nonneg, _⟩ := linked_count linked
  cases need : fasthdlcTxNeedData h with
  | true =>
    have bits := (short need).2
    refine ⟨flags + 1, ⟨front, j + 1, ?_, ?_, whole⟩, ?_⟩
    · simp only [offered, need, ↓reduceIte, split, List.append_assoc, List.replicate_succ']
    · intro some
      have := enough some
      omega
    · omega
  | false =>
    have bits := full need
    refine ⟨flags, ⟨front, j, ?_, enough, whole⟩, by omega⟩
    simp only [offered, need, Bool.false_eq_true, ↓reduceIte, split]

theorem expects_idle {idle : Nat} {f : Frame} {rest : List (Nat × Frame)}
    (linked : Linked h rx syms)
    (expects : Expects ((idle + 1, f) :: rest) c syms frames h.bits budget) :
    Expects ((idle, f) :: rest) c (offered h syms .flag) frames (sendOctet h .flag).2.bits
      (budget - 1) := by
  obtain ⟨done, cur, collected, boundary, whole, bound⟩ := expects
  obtain rfl := boundary (by omega)
  obtain ⟨short, full⟩ := send_octet_bits linked .flag
  obtain ⟨nonneg, _⟩ := linked_count linked
  refine ⟨done, [], ?_, fun _ => rfl, whole, ?_⟩
  · rw [offered_collect, collected]
    split <;> rfl
  · simp only [work] at bound ⊢
    cases need : fasthdlcTxNeedData h with
    | true =>
      have bits := (short need).2
      omega
    | false =>
      have bits := full need
      omega

theorem expects_waiting {f : Frame} {rest : List (Nat × Frame)} {s : Sym}
    (linked : Linked h rx syms) (full : fasthdlcTxNeedData h = false)
    (expects : Expects ((0, f) :: rest) c syms frames h.bits budget) :
    Expects ((0, f) :: rest) c (offered h syms s) frames (sendOctet h s).2.bits (budget - 1) := by
  obtain ⟨done, cur, collected, boundary, whole, bound⟩ := expects
  have bits := (send_octet_bits linked s).2 full
  obtain ⟨nonneg, _⟩ := linked_count linked
  refine ⟨done, cur, ?_, boundary, whole, by omega⟩
  rw [offered_collect, full]
  exact collected

/-- The flag after the last byte. -/
def closing (f : Frame) : List Sym := if f.later = [] then [.flag] else []

theorem expects_byte {f : Frame} {rest : List (Nat × Frame)}
    (linked : Linked h rx syms) (short : fasthdlcTxNeedData h = true)
    (expects : Expects ((0, f) :: rest) c syms frames h.bits budget) :
    Expects (sentByte (sendOctet h (.octet f.next)).2 f rest).script c
      (offered h syms (.octet f.next) ++ closing f) frames
      (sentByte (sendOctet h (.octet f.next)).2 f rest).h.bits (budget - 1) := by
  obtain ⟨done, cur, collected, boundary, whole, bound⟩ := expects
  have bits := ((send_octet_bits linked (.octet f.next)).1 short).2
  obtain ⟨nonneg, _⟩ := linked_count linked
  have loaded : collectSyms c (offered h syms (.octet f.next)) = (done, cur ++ [f.next]) := by
    rw [offered_collect, collected, short]
    rfl
  obtain ⟨next, later⟩ := f
  simp only at bits loaded
  cases later with
  | cons y later =>
    refine ⟨done, cur ++ [next], ?_, by simp, ?_, ?_⟩
    · rw [closing, if_neg (by simp), List.append_nil, loaded]
    · rw [← whole]
      simp only [Frame.bytes, List.append_assoc, List.cons_append, List.nil_append]
    · simp only [work, Frame.bytes, List.length_cons, sentByte] at bound ⊢
      omega
  | nil =>
    have ended : collectSyms c (offered h syms (.octet next) ++ closing ⟨next, []⟩) =
        (done ++ [cur ++ [next]], []) := by
      rw [collect_syms_append, loaded]
      simp [closing, collectSyms, resultOf, collectStep]
    simp only [work, Frame.bytes, List.length_cons, List.length_nil] at bound
    cases rest with
    | nil =>
      refine ⟨0, ⟨_, 0, (List.append_nil _).symm, fun _ => Nat.le_refl 0, ?_⟩, ?_⟩
      · rw [ended, ← whole]
        rfl
      · simp only [sentByte, fasthdlcTxFrameNocheck, work] at bound ⊢
        omega
    | cons step rest =>
      obtain ⟨idle, g⟩ := step
      refine ⟨done ++ [cur ++ [next]], [], ended, fun _ => rfl, ?_, ?_⟩
      · rw [← whole]
        simp only [scriptFrames, List.map_cons, List.append_assoc, List.cons_append,
          List.nil_append, Frame.bytes]
      · simp only [sentByte, fasthdlcTxFrameNocheck] at bound ⊢
        omega

end Sending

/-- The first symbol loaded is a flag. -/
def Ready (line : Line) (rx : State) (syms : List Sym) : Prop :=
  Opened rx syms ∨ line.h.bits = 0 ∧ ∀ step ∈ line.script.head?, 0 < step.1

structure Carries (line : Line) (rx : State) (c : Collected) (syms : List Sym)
    (frames : List (List Octet)) (budget : Nat) : Prop where
  linked : Linked line.h rx syms
  room : line.h.bits ≤ 17
  ready : Ready line rx syms
  fresh : rx.state = 0 → c = ([], [])
  expects : Expects line.script c syms frames line.h.bits budget

theorem opened_offered {line : Line} {rx : State} {syms : List Sym} (linked : Linked line.h rx syms)
    (ready : Ready line rx syms) (s : Sym) : Opened rx (offered line.h syms s) := by
  obtain ⟨_, _, need⟩ := linked_count linked
  have width := (minbits_bounds line.h.mode).1
  unfold offered
  split
  · exact Or.inr (by simp)
  · rename_i full
    rw [need] at full
    rcases ready with opened | ⟨empty, _⟩
    · exact opened
    · omega

theorem sent_byte_linked {h rx : State} {left : List Sym} (linked : Linked h rx left)
    (room : h.bits ≤ 9) (f : Frame) (rest : List (Nat × Frame)) :
    Linked (sentByte h f rest).h rx (left ++ closing f) ∧ (sentByte h f rest).h.bits ≤ 17 := by
  obtain ⟨next, later⟩ := f
  cases later with
  | nil => exact ⟨linked_load linked (by omega) .flag (Or.inl rfl),
      by simp only [sentByte, fasthdlcTxFrameNocheck]; omega⟩
  | cons y later =>
    rw [closing, if_neg (by simp), List.append_nil]
    exact ⟨linked, by simp only [sentByte]; omega⟩

theorem transmit_byte {h : State} {f : Frame} {rest : List (Nat × Frame)}
    (short : fasthdlcTxNeedData h = true) : transmitOctet ⟨h, (0, f) :: rest⟩ =
      ((sendOctet h (.octet f.next)).1, sentByte (sendOctet h (.octet f.next)).2 f rest) := by
  simp only [transmitOctet, short, ↓reduceIte]

theorem transmit_waiting {h : State} {f : Frame} {rest : List (Nat × Frame)}
    (full : fasthdlcTxNeedData h = false) : transmitOctet ⟨h, (0, f) :: rest⟩ =
      ((sendOctet h (.octet f.next)).1, ⟨(sendOctet h (.octet f.next)).2, (0, f) :: rest⟩) := by
  simp only [transmitOctet, full, Bool.false_eq_true, ↓reduceIte]

section Steps
variable {line : Line} {rx : State} {c : Collected} {syms : List Sym} {frames : List (List Octet)}
  {budget : Nat}

/-- What an octet of the line achieves for the octet's own value `s`, when the
    line goes on with `line'` after more symbols. -/
theorem carries_after {line' : Line} {s : Sym} {more : List Sym}
    (carries : Carries line rx c syms frames budget) (fits : s = .flag ∨ Opened rx syms)
    (grown : ∀ rx' left, Linked (sendOctet line.h s).2 rx' left →
      Linked line'.h rx' (left ++ more) ∧ line'.h.bits ≤ 17)
    (expects : Expects line'.script c (offered line.h syms s ++ more) frames line'.h.bits
      (budget - 1)) :
    ∃ r rx' left, fasthdlcRxRun (fasthdlcRxLoadNocheck rx (sendOctet line.h s).1) = some (r, rx') ∧
      r ≠ .discard ∧ Carries line' rx' (collectStep c r) left frames (budget - 1) := by
  obtain ⟨r, rx', left, run, decoded, linked⟩ := send_octet_linked carries.linked s fits
  obtain ⟨linked', room⟩ := grown rx' left linked
  have opened := opened_decoded (opened_offered carries.linked carries.ready s) decoded
  refine ⟨r, rx', left ++ more, run, decoded_keeps decoded, linked', room, Or.inl ?_,
    fresh_decoded decoded carries.fresh,
    expects_decoded expects (decoded_extend decoded more) carries.fresh⟩
  rcases opened with framed | some
  · exact Or.inl framed
  · exact Or.inr (by simp [some])

theorem sent_room (carries : Carries line rx c syms frames budget) (s : Sym) :
    (sendOctet line.h s).2.bits ≤ 17 := by
  obtain ⟨short, full⟩ := send_octet_bits carries.linked s
  have room := carries.room
  cases need : fasthdlcTxNeedData line.h with
  | true =>
    have := (short need).1
    omega
  | false =>
    have := full need
    omega

theorem carries_step (carries : Carries line rx c syms frames budget) :
    ∃ r rx' left,
      fasthdlcRxRun (fasthdlcRxLoadNocheck rx (transmitOctet line).1) = some (r, rx') ∧
      r ≠ .discard ∧
      Carries (transmitOctet line).2 rx' (collectStep c r) left frames (budget - 1) := by
  have expects := carries.expects
  obtain ⟨h, script⟩ := line
  have unchanged (s : Sym) (rx' : State) (left : List Sym)
      (linked : Linked (sendOctet h s).2 rx' left) :
      Linked (sendOctet h s).2 rx' (left ++ []) ∧ (sendOctet h s).2.bits ≤ 17 :=
    ⟨by rw [List.append_nil]; exact linked, sent_room carries s⟩
  match script with
  | [] =>
    refine @carries_after _ _ _ _ _ _ ⟨_, []⟩ .flag [] carries (Or.inl rfl) (unchanged .flag) ?_
    rw [List.append_nil]
    exact expects_idle_end carries.linked expects
  | (idle + 1, f) :: rest =>
    refine @carries_after _ _ _ _ _ _ ⟨_, (idle, f) :: rest⟩ .flag [] carries (Or.inl rfl)
      (unchanged .flag) ?_
    rw [List.append_nil]
    exact expects_idle carries.linked expects
  | (0, f) :: rest =>
    have opened : Opened rx syms := by
      rcases carries.ready with opened | ⟨_, first⟩
      · exact opened
      · exact absurd (first (0, f) rfl) (Nat.lt_irrefl 0)
    cases need : fasthdlcTxNeedData h with
    | true =>
      have few := ((send_octet_bits carries.linked (.octet f.next)).1 need).1
      rw [transmit_byte need]
      exact @carries_after ⟨h, (0, f) :: rest⟩ rx c syms frames budget (sentByte (sendOctet h (.octet f.next)).2 f rest)
        (.octet f.next) (closing f) carries (Or.inr opened)
        (fun rx' left linked => sent_byte_linked linked few f rest)
        (expects_byte carries.linked need expects)
    | false =>
      rw [transmit_waiting need]
      refine @carries_after ⟨h, (0, f) :: rest⟩ rx c syms frames budget ⟨_, (0, f) :: rest⟩ (.octet f.next) [] carries
        (Or.inr opened) (unchanged (.octet f.next)) ?_
      rw [List.append_nil]
      exact expects_waiting carries.linked need expects

theorem expects_follows {script : List (Nat × Frame)} {bits : Int}
    (expects : Expects script c syms frames bits budget) : Follows c frames := by
  match script with
  | [] =>
    obtain ⟨flags, ⟨front, j, split, enough, whole⟩, bound⟩ := expects
    refine @follows_symbols c front frames ?_
    rw [show (front.map resultOf).foldl collectStep c = (frames, []) from whole]
    exact ⟨List.prefix_rfl, Or.inl rfl⟩
  | (idle, f) :: rest =>
    obtain ⟨done, cur, collected, boundary, whole, bound⟩ := expects
    refine @follows_symbols c syms frames ?_
    rw [show (syms.map resultOf).foldl collectStep c = (done, cur) from collected]
    refine ⟨⟨_, whole⟩, Or.inr ⟨cur ++ f.bytes, ?_, List.prefix_append _ _⟩⟩
    rw [← whole]
    simp

theorem carries_done (carries : Carries line rx c syms frames 0) : c = (frames, []) := by
  have expects := carries.expects
  obtain ⟨nonneg, _⟩ := linked_count carries.linked
  have length := linked_length carries.linked carries.room
  obtain ⟨h, script⟩ := line
  match script with
  | [] =>
    obtain ⟨flags, ⟨front, j, rfl, enough, whole⟩, bound⟩ := expects
    have settled : 4 ≤ flags := by
      rcases Nat.lt_or_ge flags 4 with few | settled
      · have := bound few
        simp only at nonneg this
        omega
      · exact settled
    have none : front = [] := by
      cases front with
      | nil => rfl
      | cons s front =>
        have := enough (by simp)
        simp only [List.length_append, List.length_replicate] at length
        omega
    rw [none] at whole
    exact whole
  | (idle, f) :: rest =>
    obtain ⟨done, cur, collected, boundary, whole, bound⟩ := expects
    simp only at nonneg bound
    omega

theorem carries_run (n : Nat) (carries : Carries line rx c syms frames budget) :
    ∃ results, receive rx (transmit n line) = some results ∧ .discard ∉ results ∧
      Follows (results.foldl collectStep c) frames ∧
      (budget ≤ n → results.foldl collectStep c = (frames, [])) := by
  induction n generalizing line rx c syms budget with
  | zero =>
    refine ⟨[], rfl, by simp, expects_follows carries.expects, ?_⟩
    intro spent
    obtain rfl : budget = 0 := by omega
    exact carries_done carries
  | succ n ih =>
    obtain ⟨r, rx', left, run, kept, carries'⟩ := carries_step carries
    obtain ⟨results, rest, clean, follows, done⟩ := ih carries'
    refine ⟨r :: results, ?_, ?_, follows, ?_⟩
    · simp only [transmit, receive, run, rest, Option.map_some]
    · simp only [List.mem_cons, not_or]
      exact ⟨kept.symm, clean⟩
    · intro spent
      exact done (by omega)

end Steps

theorem carries_init (mode : Mode) (script : List (Nat × Frame))
    (opened : ∀ step ∈ script.head?, 0 < step.1) :
    Carries ⟨fasthdlcInit mode, script⟩ (fasthdlcInit mode) ([], []) [] (scriptFrames script)
      (32 * work script + 128) := by
  refine ⟨linked_init mode, by simp [fasthdlcInit], Or.inr ⟨rfl, opened⟩, fun _ => rfl, ?_⟩
  match script with
  | [] => exact ⟨0, ⟨[], 0, rfl, by simp, rfl⟩, by simp [fasthdlcInit, work]⟩
  | (idle, f) :: rest => exact ⟨[], [], rfl, fun _ => rfl, rfl, by simp [fasthdlcInit]⟩

/-- Octets after which every frame of the script has been delivered. -/
def settleTime (script : List (Nat × Frame)) : Nat := 32 * work script + 128

/-- The frames arrive in order, each with its COMPLETE, and nothing is discarded. -/
theorem codec_round_trip (mode : Mode) (script : List (Nat × Frame))
    (opened : ∀ step ∈ script.head?, 0 < step.1) (n : Nat) :
    ∃ results, receive (fasthdlcInit mode) (transmit n ⟨fasthdlcInit mode, script⟩) = some results ∧
      .discard ∉ results ∧ Follows (collect results) (scriptFrames script) ∧
      (settleTime script ≤ n → collect results = (scriptFrames script, [])) :=
  carries_run n (carries_init mode script opened)

theorem codec_round_trip_two :
    ∃ results, receive (fasthdlcInit .mode16) (transmit 400
        ⟨fasthdlcInit .mode16, [(1, ⟨0x7e, [0xff]⟩), (0, ⟨0x03, []⟩)]⟩) = some results ∧
      .discard ∉ results ∧ collect results = ([[0x7e, 0xff], [0x03]], []) := by
  obtain ⟨results, received, clean, _, done⟩ :=
    codec_round_trip .mode16 [(1, ⟨0x7e, [0xff]⟩), (0, ⟨0x03, []⟩)] (by decide) 400
  exact ⟨results, received, clean, done (by decide)⟩

example : transmit 4 ⟨fasthdlcInit .mode64, [(1, ⟨0x41, []⟩)]⟩ = [0x7e, 0x82, 0x7e, 0x7e] := by
  decide

end CodecRoundTrip
