import Dahdi.Signalling.PulseDial
import Dahdi.Signalling.RbsTrunk

/-!
Pulse dialling from one end of a trunk to the other: the pulses the transmit timer of a
station makes of a dialling string, and what the office at the far end makes of them.
-/
namespace PulseTrip
open Signalling RbsTrunk
open Tone (Globals initialGlobals)

/-- A chunk at both ends: the far end hears the bits and does its work, and the timer of
    the near end runs. -/
def exchange (g : Globals) (s : Ends) : Option Ends := do
  let s ← act g s (.deliver .far)
  let s ← act g s (.receive .far)
  let s ← act g s (.transmit .far)
  act g s (.transmit .near)

def exchanges (g : Globals) : Nat → Ends → Option Ends
  | 0, s => some s
  | n + 1, s => (exchange g s).bind (exchanges g n)

/-- The pulses of a digit. -/
def pulsesOf (digit : Char) : Nat :=
  match decimal digit with
  | some 0 => 10
  | some n => n
  | none => 0

/-- The times of a station in chunks. -/
structure Pace where
  break_ : Nat
  make : Nat
  after : Nat

/-- The chunks in which a string is dialled. -/
def chunksOf (pace : Pace) (digits : List Char) : Nat :=
  (digits.map fun digit => pulsesOf digit * (pace.break_ + pace.make) + pace.after).sum

/-- Breaks that are no flashes, makes that end no digit, and pauses that do. -/
structure Paced (pace : Pace) (flash : Int) : Prop where
  break_ : BreakOk flash pace.break_
  make : 0 < pace.make ∧ pace.make + pace.break_ < 250
  after : 0 < pace.after ∧ 250 ≤ pace.make + pace.after ∧ pace.after < 2 ^ 28

/-- A station of these times that may dial pulses. -/
structure Station (pace : Pace) (c : Chan) : Prop where
  line : c.line = rbsLine
  facing : c.sig.fxs = true
  breaks : c.times.pulsebreaktime = pace.break_
  makes : c.times.pulsemaketime = pace.make
  pauses : c.times.pulseaftertime = pace.after
  mode : c.digitmode = .pulse
  hook : c.txhooksig = .offhook

/-- The hook states that the near end shows in so many chunks, and its channel then. -/
def sends (g : Globals) : Nat → Chan → Option (List TxSig × Chan)
  | 0, c => some ([], c)
  | n + 1, c =>
    (transmitTick g c).bind fun c' => (sends g n c').map fun (shown, d) => (c.txhooksig :: shown, d)

section Sending
variable {g : Globals} {c d : Chan} {pace : Pace} {flash : Int} {n m : Nat}

theorem sends_append {shown : List TxSig} (first : sends g n c = some (shown, d)) :
    sends g (n + m) c = (sends g m d).map fun (later, e) => (shown ++ later, e) := by
  induction n generalizing c shown with
  | zero =>
    obtain ⟨rfl, rfl⟩ := Prod.mk.inj (Option.some.inj first)
    rw [Nat.zero_add]
    cases sends g m c <;> rfl
  | succ n ih =>
    obtain ⟨c', ticked, rest⟩ := Option.bind_eq_some_iff.mp first
    obtain ⟨⟨shown', d'⟩, later, same⟩ := Option.map_eq_some_iff.mp rest
    obtain ⟨rfl, rfl⟩ := Prod.mk.inj same
    rw [Nat.add_right_comm, sends, ticked, Option.bind_some, ih later]
    cases sends g m d' <;> rfl

/-- A timer shows the same state until it expires. -/
theorem sends_hold (some_ : 0 < n) (short : 8 * n < 2 ^ 31) (timer : c.otimer = 8 * n) :
    sends g n c = (rbsOtimerExpire g c).map fun d => (List.replicate n c.txhooksig, d) := by
  induction n generalizing c with
  | zero => omega
  | succ n ih =>
    have running : c.otimer ≠ 0 := by omega
    have less : int32 (c.otimer - chunksize) = 8 * n := by
      rw [int32_small] <;> unfold chunksize <;> omega
    rw [sends, transmitTick, if_neg running]
    simp only
    rw [less]
    by_cases last : n = 0
    · subst last
      rw [if_pos (by omega)]
      have same : rbsOtimerExpire g { c with otimer := 8 * (0 : Nat) } = rbsOtimerExpire g c := rfl
      rw [same]
      cases rbsOtimerExpire g c <;> rfl
    · rw [if_neg (by omega), Option.bind_some]
      have later := @ih { c with otimer := 8 * n } (by omega) (by omega) rfl
      have same : rbsOtimerExpire g { c with otimer := 8 * n } = rbsOtimerExpire g c := rfl
      rw [later, same]
      cases rbsOtimerExpire g c <;> rfl

theorem station_known (station : Station pace c) : c.sig.known = true ∧ c.sig ≠ .dacsRbs := by
  have facing := station.facing
  cases sig : c.sig <;> rw [sig] at facing <;> first | exact ⟨rfl, by decide⟩ | cases facing

/-- What is shown of the pulses of a digit and the pause after it. -/
def shownPulses (pace : Pace) (pulses : Nat) : List TxSig :=
  (List.replicate pulses (List.replicate pace.break_ .onhook ++ List.replicate pace.make .offhook)).flatten ++
    List.replicate pace.after .offhook

/-- A station at the beginning of a break, with so many pulses left. -/
def pulsing (pace : Pace) (c : Chan) (pulses : Nat) : Chan :=
  { c with txstate := .pulsebreak, txhooksig := .onhook, otimer := 8 * pace.break_, pdialcount := pulses }

/-- A station at the beginning of a make. -/
def making (pace : Pace) (c : Chan) (pulses : Nat) : Chan :=
  { c with txstate := .pulsemake, txhooksig := .offhook, otimer := 8 * pace.make, pdialcount := pulses }

/-- A station at the beginning of the pause after a digit. -/
def pausing (pace : Pace) (c : Chan) : Chan :=
  { c with txstate := .pulseafter, txhooksig := .offhook, otimer := 8 * pace.after, pdialcount := 0 }

/-- The station after the pause. -/
def paused (c : Chan) : Chan := { c with txstate := .offhook, txhooksig := .offhook, otimer := 0, pdialcount := 0 }

theorem otimer_small {time : Nat} (short : 8 * time < 2 ^ 31) : int32 ((time : Int) * chunksize) = 8 * time := by
  rw [int32_small] <;> unfold chunksize <;> omega

/-- A break: its chunks, and the make after it. -/
theorem sends_break (station : Station pace c) (paced : Paced pace flash) (pulses : Nat) :
    sends g pace.break_ (pulsing pace c pulses) = some (List.replicate pace.break_ .onhook, making pace c pulses) := by
  obtain ⟨⟨least, most, _⟩, make, _⟩ := paced
  unfold minpulsetime maxpulsetime Signalling.chunksize at *
  rw [sends_hold (by omega) (by omega) rfl]
  have expired : rbsOtimerExpire g (pulsing pace c pulses) = some (making pace c pulses) := by
    have hooked := @sethook_known { pulsing pace c pulses with otimer := 0 } station.line (station_known (c := c) station) .offhook
      .pulsemake pace.make
    rw [otimer_small (by omega)] at hooked
    unfold rbsOtimerExpire
    change some (rbsSethook { pulsing pace c pulses with otimer := 0 } .offhook .pulsemake
      c.times.pulsemaketime) = _
    rw [station.makes, hooked]
    rfl
  rw [expired]
  rfl

/-- A make: its chunks, and the break or the pause after it. -/
theorem sends_make (station : Station pace c) (paced : Paced pace flash) (pulses : Nat) :
    sends g pace.make (making pace c (pulses + 1)) = some (List.replicate pace.make .offhook,
      if pulses = 0 then pausing pace c else pulsing pace c pulses) := by
  obtain ⟨⟨least, most, _⟩, make, after⟩ := paced
  unfold minpulsetime maxpulsetime Signalling.chunksize at *
  rw [sends_hold make.1 (by omega) rfl]
  have counted : ((pulses + 1 : Nat) : Int) ≠ 0 := by omega
  have fewer : ((pulses + 1 : Nat) : Int) - 1 = pulses := by omega
  have expired : rbsOtimerExpire g (making pace c (pulses + 1)) =
      some (if pulses = 0 then pausing pace c else pulsing pace c pulses) := by
    unfold rbsOtimerExpire making
    simp only
    rw [if_pos counted]
    simp only
    rw [fewer]
    by_cases last : pulses = 0
    · rw [if_neg (by omega), if_pos last, station.pauses, otimer_small (by omega), last]
      rfl
    · rw [if_pos (by omega), if_neg last, station.breaks]
      have hooked := @sethook_known { making pace c pulses with otimer := 0 } station.line (station_known (c := c) station) .onhook
        .pulsebreak pace.break_
      rw [otimer_small (by omega)] at hooked
      exact congrArg some hooked
  rw [expired]
  rfl

theorem sends_pulses (station : Station pace c) (paced : Paced pace flash) {pulses : Nat} (some_ : 0 < pulses) :
    sends g (pulses * (pace.break_ + pace.make) + pace.after) (pulsing pace c pulses) =
      some (shownPulses pace pulses, doDtmf g (paused c)) := by
  induction pulses with
  | zero => omega
  | succ pulses ih =>
    have opened := @sends_break g c pace flash station paced (pulses + 1)
    have closed := @sends_make g c pace flash station paced pulses
    have chunks : (pulses + 1) * (pace.break_ + pace.make) + pace.after =
        pace.break_ + (pace.make + (pulses * (pace.break_ + pace.make) + pace.after)) := by
      rw [Nat.succ_mul]
      omega
    rw [chunks, sends_append opened, sends_append closed]
    by_cases last : pulses = 0
    · subst last
      have pause : sends g pace.after (pausing pace c) =
          some (List.replicate pace.after .offhook, doDtmf g (paused c)) := by
        rw [sends_hold paced.after.1 (by have := paced.after.2.2; omega) rfl]
        rfl
      rw [Nat.zero_mul, Nat.zero_add, if_pos rfl, pause]
      simp [shownPulses]
    · rw [if_neg last, ih (by omega)]
      simp [shownPulses, List.replicate_succ]

theorem decimal_pulses {digit : Char} {v : Nat} (digit_ : decimal digit = some v) :
    pulsesOf digit = if v = 0 then 10 else v := by
  unfold pulsesOf
  rw [digit_]
  cases v <;> rfl

/-- The next digit of a string. -/
theorem dtmf_digit (station : Station pace c) (paced : Paced pace flash) {digit : Char} {rest : List Char} {v : Nat}
    (next : c.txdialbuf = digit :: rest) (digit_ : decimal digit = some v) :
    doDtmf g c = pulsing pace { c with txdialbuf := rest } (pulsesOf digit) := by
  obtain ⟨⟨_, most, _⟩, _⟩ := paced
  unfold maxpulsetime Signalling.chunksize at most
  have letter : ∀ l : Char, decimal l = none → digit ≠ l := by
    intro l none_ same
    rw [same, none_] at digit_
    cases digit_
  have plain : modeOf digit = none := by
    rw [modeOf, if_neg (letter 'T' (by decide)), if_neg (letter 'M' (by decide)), if_neg (letter 'O' (by decide)),
      if_neg (letter 'R' (by decide)), if_neg (letter 'P' (by decide))]
  rw [doDtmf, next, doDtmfFrom]
  simp only
  rw [plain]
  simp only
  rw [if_pos ⟨letter 'W' (by decide), station.mode⟩, digit_]
  simp only
  rw [if_pos station.hook, station.breaks, decimal_pulses digit_]
  have hooked := @sethook_known
    { c with txdialbuf := rest, pdialcount := if v = 0 then 10 else (v : Int) } station.line (station_known (c := c) station)
    .onhook .pulsebreak pace.break_
  rw [otimer_small (by omega)] at hooked
  refine hooked.trans ?_
  unfold pulsing
  by_cases zero : v = 0
  · simp only [if_pos zero]
    rfl
  · simp only [if_neg zero]

/-- What is shown of a string. -/
def shownDigits (pace : Pace) (digits : List Char) : List TxSig :=
  digits.flatMap fun digit => shownPulses pace (pulsesOf digit)

def Digits (digits : List Char) : Prop := ∀ digit ∈ digits, (decimal digit).isSome

theorem pulses_some {digit : Char} (digit_ : (decimal digit).isSome) : 0 < pulsesOf digit := by
  obtain ⟨v, is⟩ := Option.isSome_iff_exists.mp digit_
  rw [decimal_pulses is]
  split <;> omega

/-- A string is dialled to its end. -/
theorem sends_digits {digits : List Char} (station : Station pace c) (paced : Paced pace flash)
    (text : c.txdialbuf = digits) (all : Digits digits) :
    ∃ d, sends g (chunksOf pace digits) (doDtmf g c) = some (shownDigits pace digits, d) ∧
      Station pace d ∧ d.txdialbuf = [] ∧ d.dialing = false := by
  induction digits generalizing c with
  | nil =>
    refine ⟨_, rfl, ?_⟩
    rw [doDtmf, text, doDtmfFrom]
    exact ⟨{ station with }, rfl, rfl⟩
  | cons digit rest ih =>
    have here : (decimal digit).isSome := all digit List.mem_cons_self
    obtain ⟨v, is⟩ := Option.isSome_iff_exists.mp here
    have station' : Station pace { c with txdialbuf := rest } := { station with }
    have later : Station pace (paused { c with txdialbuf := rest }) := { station' with hook := rfl }
    obtain ⟨d, sent, done⟩ := ih later rfl fun k inside => all k (List.mem_cons_of_mem digit inside)
    refine ⟨d, ?_, done⟩
    have first := @sends_pulses g _ pace flash station' paced (pulsesOf digit) (pulses_some here)
    rw [dtmf_digit station paced text is, chunksOf, List.map_cons, List.sum_cons, sends_append first]
    unfold chunksOf at sent
    rw [sent]
    rfl

end Sending

/-- How an office reads the loop of a station. -/
def loop (tx : TxSig) : RxSig := if tx = .onhook then .onhook else .offhook

/-- What happens at the far end meanwhile. -/
def heard (shown : List TxSig) : List Input := shown.flatMap fun tx => [.hook (loop tx), .receive, .transmit]

section Receiving
variable {g : Globals} {c c' : Chan} {pace : Pace} {flash timer : Int} {pulses : Nat} {inputs : List Input}

theorem heard_append (a b : List TxSig) : heard (a ++ b) = heard a ++ heard b := List.flatMap_append

theorem heard_phase {tx : TxSig} {n : Nat} (some_ : 0 < n) : Phase (loop tx) n (heard (List.replicate n tx)) := by
  obtain ⟨n, rfl⟩ := Nat.exists_eq_succ_of_ne_zero (Nat.ne_of_gt some_)
  refine ⟨.receive :: .transmit :: heard (List.replicate n tx), rfl, ?_, ?_⟩
  · intro i inside
    rcases List.mem_cons.mp inside with here | inside
    · exact .inl here
    rcases List.mem_cons.mp inside with here | inside
    · exact .inr (.inl here)
    obtain ⟨tx', shown, among⟩ := List.mem_flatMap.mp inside
    rw [List.eq_of_mem_replicate shown] at among
    simp only [List.mem_cons, List.not_mem_nil, or_false] at among
    tauto
  · have counted : (heard (List.replicate n tx)).count .receive = n := by
      induction n with
      | zero => rfl
      | succ n ih =>
        have more : heard (List.replicate (n + 1) tx) =
            .hook (loop tx) :: .receive :: .transmit :: heard (List.replicate n tx) := rfl
        rw [more, List.count_cons_of_ne (by simp), List.count_cons_self, List.count_cons_of_ne (by simp),
          ih (Nat.succ_pos n)]
    rw [List.count_cons_self, List.count_cons_of_ne (by simp), counted]

/-- The breaks and makes of a digit, the pause as a part of its last make. -/
def trainOf (pace : Pace) : Nat → List (Nat × Nat)
  | 0 => [(pace.break_, pace.make + pace.after)]
  | more + 1 => (pace.break_, pace.make) :: trainOf pace more

theorem train_length (more : Nat) : (trainOf pace more).length = more + 1 := by
  induction more with
  | zero => rfl
  | succ more ih => rw [trainOf, List.length_cons, ih]

theorem train_head (more : Nat) : ∃ make rest, trainOf pace more = (pace.break_, make) :: rest := by
  cases more with
  | zero => exact ⟨_, _, rfl⟩
  | succ more => exact ⟨_, _, rfl⟩

theorem train_limits (paced : Paced pace flash) (more : Nat) : Limits flash (trainOf pace more) := by
  induction more with
  | zero =>
    have long := paced.after.2.1
    exact ⟨paced.break_, by unfold pulsetimeout; omega⟩
  | succ more ih =>
    obtain ⟨make, rest, next⟩ := @train_head pace more
    have short := paced.make.2
    rw [trainOf, next]
    rw [next] at ih
    exact ⟨paced.break_, by unfold pulsetimeout; omega, ih⟩

theorem train_heard (paced : Paced pace flash) (more : Nat) :
    Train (trainOf pace more) (heard (shownPulses pace (more + 1))) := by
  have broken : 0 < pace.break_ := by
    have least := paced.break_.1
    unfold minpulsetime Signalling.chunksize at least
    omega
  have opened : Phase .onhook pace.break_ (heard (List.replicate pace.break_ .onhook)) := heard_phase broken
  induction more with
  | zero =>
    have closed : Phase .offhook (pace.make + pace.after) (heard (List.replicate (pace.make + pace.after) .offhook)) :=
      heard_phase (Nat.add_pos_left paced.make.1 _)
    have train := Train.cons opened closed Train.nil
    rw [List.append_nil] at train
    have parts : shownPulses pace 1 =
        List.replicate pace.break_ .onhook ++ List.replicate (pace.make + pace.after) .offhook := by
      change List.replicate pace.break_ TxSig.onhook ++ List.replicate pace.make TxSig.offhook ++ [] ++
        List.replicate pace.after TxSig.offhook = _
      rw [List.append_nil, List.append_assoc, ← List.replicate_add]
    rw [parts, heard_append]
    exact train
  | succ more ih =>
    have closed : Phase .offhook pace.make (heard (List.replicate pace.make .offhook)) := heard_phase paced.make.1
    have train := Train.cons opened closed ih
    have parts : shownPulses pace (more + 1 + 1) = List.replicate pace.break_ .onhook ++
        List.replicate pace.make .offhook ++ shownPulses pace (more + 1) := by
      rw [shownPulses, List.replicate_succ, List.flatten_cons, List.append_assoc, shownPulses]
    rw [parts, heard_append, heard_append]
    exact train

/-- A make that is long enough leaves the office between two digits. -/
theorem make_ends (here : InMake flash pulses timer c) (some_ : pulses ≠ 0) (few : pulses ≤ 10)
    (still : Still .offhook inputs) (low : 1 ≤ timer) (high : timer ≤ pulsetimeout)
    (long : timer ≤ inputs.count .receive) (run : feed g inputs c = some c') :
    ∃ rest, InMake flash 0 rest c' := by
  induction inputs generalizing c timer with
  | nil =>
    rw [List.count_nil] at long
    omega
  | cons i rest ih =>
    obtain ⟨d, stepped, later⟩ := feed_cons run
    have still' : Still .offhook rest := fun j within => still j (List.mem_cons_of_mem i within)
    obtain rfl | rfl | rfl := still i List.mem_cons_self
    · rw [List.count_cons_self] at long
      rw [← Option.some.inj stepped] at later
      by_cases due : timer = 1
      · subst due
        obtain ⟨next, _⟩ := receive_digit here some_ few
        exact ⟨_, (make_tail next still' (fun none_ => absurd rfl none_) later).1⟩
      · obtain ⟨next, _⟩ := receive_make here (fun _ => ⟨by omega, high⟩)
        exact ih next still' (by omega) (by omega) (by omega) later
    · have kept := transmit_kept here.accepts stepped
      rw [List.count_cons_of_ne (by decide)] at long
      exact ih (here.kept kept) still' low high long later
    · have same : d = c := (Option.some.inj stepped).symm.trans (hook_same here.hook)
      rw [List.count_cons_of_ne (by decide)] at long
      rw [same] at later
      exact ih here still' low high long later

theorem train_ends {train : List (Nat × Nat)} (here : InMake flash pulses timer c)
    (some_ : train ≠ []) (few : pulses + train.length ≤ 10) (limits : Limits flash train)
    (quiet : pulses ≠ 0 → ((train.head some_).1 : Int) < timer ∧ timer ≤ pulsetimeout)
    (trained : Train train inputs) (run : feed g inputs c = some c') : ∃ rest, InMake flash 0 rest c' := by
  induction trained generalizing c pulses timer with
  | nil => exact absurd rfl some_
  | @cons break_ make opened closed rest later open_ close trained ih =>
    rw [feed_append] at run
    obtain ⟨c₁, run₁, run₂⟩ := Option.bind_eq_some_iff.mp run
    rw [List.length_cons] at few
    cases later with
    | nil =>
      cases trained
      rw [← Option.some.inj run₂]
      obtain ⟨d, tail, there, still, count, ran, _⟩ := one_pulse here (by omega) limits.1 quiet open_ close run₁
      exact make_ends there (Nat.succ_ne_zero pulses) (by omega) still (by decide) (Int.le_refl _)
        (by rw [count]; exact limits.2) ran
    | cons next others =>
      obtain ⟨within, short, limits'⟩ := limits
      obtain ⟨d, tail, there, still, count, ran, _⟩ := one_pulse here (by omega) within quiet open_ close run₁
      obtain ⟨there', _⟩ := make_tail there still
        (fun _ => ⟨by rw [count]; push_cast at short; omega, Int.le_refl _⟩) ran
      rw [count] at there'
      exact ih there' (List.cons_ne_nil _ _) (by omega) limits'
        (fun _ => ⟨by rw [List.head_cons]; push_cast at short; omega, by omega⟩) run₂

/-- An office that hears hook states, while its own transmitter rests. -/
structure Resting (c : Chan) : Prop where
  facing : c.sig.fxo = true
  live : c.sigfreeze = false
  state : c.txstate = .onhook ∨ c.txstate = .offhook
  timer : c.otimer = 0

/-- What such an office keeps while it hears. -/
structure Rests (c c' : Chan) : Prop where
  sig : c'.sig = c.sig
  live : c'.sigfreeze = c.sigfreeze
  state : c'.txstate = c.txstate
  timer : c'.otimer = c.otimer

theorem Rests.trans {d : Chan} (first : Rests c d) (second : Rests d c') : Rests c c' :=
  ⟨second.sig.trans first.sig, second.live.trans first.live, second.state.trans first.state,
    second.timer.trans first.timer⟩

theorem Resting.rests (resting : Resting c) (rests : Rests c c') : Resting c' := by
  obtain ⟨sig, live, state, timer⟩ := rests
  refine ⟨?_, live.trans resting.live, ?_, timer.trans resting.timer⟩
  · rw [sig]
    exact resting.facing
  · rw [state]
    exact resting.state

theorem receive_rests : Rests c (receiveTick c) := by
  obtain ⟨_, _, _, _, _, _, _, changes⟩ := receive_changes c
  rw [changes]
  exact ⟨rfl, rfl, rfl, rfl⟩

theorem hook_rests (resting : Resting c) (tx : TxSig) : Rests c (hooksigPvt c (loop tx)) := by
  by_cases same : c.rxhooksig = loop tx
  · rw [hook_same same]
    exact ⟨rfl, rfl, rfl, rfl⟩
  rw [hook_changes resting.facing resting.live same (by unfold loop; split <;> decide)]
  unfold loop
  split
  · unfold fxoHooksig fxoOnhook
    simp only
    repeat' split
    all_goals exact ⟨rfl, rfl, rfl, rfl⟩
  · have awake : c.txstate ≠ .start := by
      rcases resting.state with state | state <;> rw [state] <;> decide
    have stopped : fxoStopRing { c with rxhooksig := .offhook } =
        { c with rxhooksig := .offhook, kewlonhook := false } := by
      unfold fxoStopRing
      simp only [if_neg awake]
    unfold fxoHooksig fxoOffhook
    simp only
    rw [stopped]
    unfold fxoBreak
    simp only
    repeat' split
    all_goals exact ⟨rfl, rfl, rfl, rfl⟩

theorem transmit_rests (resting : Resting c) : transmitTick g c = some c := if_pos resting.timer

/-- Such an office is never stuck. -/
theorem feed_resting (resting : Resting c) (shown : List TxSig) :
    ∃ c', feed g (heard shown) c = some c' ∧ Resting c' := by
  induction shown generalizing c with
  | nil => exact ⟨c, rfl, resting⟩
  | cons tx rest ih =>
    have hooked := resting.rests (hook_rests resting tx)
    have received := hooked.rests receive_rests
    obtain ⟨c', run, done⟩ := ih received
    refine ⟨c', ?_, done⟩
    have steps : heard (tx :: rest) = .hook (loop tx) :: .receive :: .transmit :: heard rest := rfl
    rw [steps, feed, feedOne, Option.bind_some, feed, feedOne, Option.bind_some, feed, feedOne,
      transmit_rests received, Option.bind_some]
    exact run

theorem decimal_char {digit : Char} {v : Nat} (digit_ : decimal digit = some v) :
    v ≤ 9 ∧ Nat.digitChar v = digit := by
  unfold decimal at digit_
  split at digit_
  · rename_i within
    obtain rfl := Option.some.inj digit_
    have low : 48 ≤ digit.toNat := within.1
    have high : digit.toNat ≤ 57 := within.2
    have digits : ∀ n, 48 ≤ n → n ≤ 57 → Nat.digitChar (n - 48) = Char.ofNat n := by
      intro n low high
      interval_cases n <;> rfl
    refine ⟨by show digit.toNat - 48 ≤ 9; omega, (digits _ low high).trans (Char.ofNat_toNat digit)⟩
  · cases digit_

theorem dialled_digit {digit : Char} (digit_ : (decimal digit).isSome) : dialled (pulsesOf digit) = digit := by
  obtain ⟨v, is⟩ := Option.isSome_iff_exists.mp digit_
  obtain ⟨few, char⟩ := decimal_char is
  rw [decimal_pulses is, dialled, ← char]
  split
  · rename_i zero
    rw [zero]
  · rw [Nat.mod_eq_of_lt (by omega)]

theorem pulses_few {digit : Char} (digit_ : (decimal digit).isSome) : pulsesOf digit ≤ 10 := by
  obtain ⟨v, is⟩ := Option.isSome_iff_exists.mp digit_
  have few := (decimal_char is).1
  rw [decimal_pulses is]
  split <;> omega

/-- The office hears every digit. -/
theorem digits_heard {digits : List Char} (here : InMake flash 0 timer c) (paced : Paced pace flash)
    (all : Digits digits) (run : feed g (heard (shownDigits pace digits)) c = some c') :
    farEvents c' = farEvents c ++ digits.flatMap fun digit => [.pulseStart, .pulsedigit digit] := by
  induction digits generalizing c timer with
  | nil =>
    rw [← Option.some.inj run]
    simp
  | cons digit rest ih =>
    have decimal_ : (decimal digit).isSome := all digit List.mem_cons_self
    have parts : shownDigits pace (digit :: rest) = shownPulses pace (pulsesOf digit) ++ shownDigits pace rest := rfl
    rw [parts, heard_append, feed_append] at run
    obtain ⟨d, first, later⟩ := Option.bind_eq_some_iff.mp run
    have positive := pulses_some decimal_
    obtain ⟨more, is⟩ : ∃ more, pulsesOf digit = more + 1 := ⟨pulsesOf digit - 1, by omega⟩
    rw [is] at first
    have few := pulses_few decimal_
    have train := @train_heard pace flash paced more
    have limits := @train_limits pace flash paced more
    have whole : 0 + (trainOf pace more).length ≤ 10 := by
      rw [train_length]
      omega
    have some_ : trainOf pace more ≠ [] := by
      obtain ⟨make, tail, next⟩ := @train_head pace more
      rw [next]
      exact List.cons_ne_nil _ _
    have decoded := train_decoded here some_ whole limits (fun none_ => absurd rfl none_) train first
    obtain ⟨left, between⟩ := train_ends here some_ whole limits (fun none_ => absurd rfl none_) train first
    rw [ih between (fun k inside => all k (List.mem_cons_of_mem digit inside)) later, decoded, train_length,
      if_pos rfl, Nat.zero_add, ← is, dialled_digit decimal_]
    simp

end Receiving

/-- A station and the office that hears it and has the bits of this state. -/
structure Linked (s : Ends) (tx : TxSig) : Prop where
  mated : Sig.mate (s .near).chan.sig = some (s .far).chan.sig
  facing : (s .near).chan.sig.fxs = true
  bits : (s .far).rxsig = outs (s .near).chan.sig tx
  hook : (s .far).chan.rxhooksig = loop tx

section Trunk
variable {g : Globals} {s : Ends} {tx : TxSig} {n : Nat}

theorem mated_cases {sig peer : Sig} (mated : Sig.mate sig = some peer) (facing : sig.fxs = true) :
    sig = .fxsls ∧ peer = .fxols ∨ sig = .fxsgs ∧ peer = .fxogs ∨ sig = .fxsks ∧ peer = .fxoks := by
  cases sig <;> first | (cases mated; decide) | cases facing

/-- The bits of an open or closed loop are read as such. -/
theorem delivered (linked : Linked s tx) (resting : Resting (s .far).chan) {tx' : TxSig}
    (plain : tx = .onhook ∨ tx = .offhook) (plain' : tx' = .onhook ∨ tx' = .offhook) :
    rbsbits (s .far) (outs (s .near).chan.sig tx') =
      ⟨hooksigPvt (s .far).chan (loop tx'), outs (s .near).chan.sig tx'⟩ := by
  obtain ⟨mated, facing, bits, hook⟩ := linked
  by_cases same : tx' = tx
  · subst same
    rw [rbsbits, if_pos bits.symm, hook_same hook, ← bits]
  · have live : ¬(s .far).chan.sigfreeze = true := by
      rw [resting.live]
      exact Bool.false_ne_true
    unfold rbsbits
    rw [if_neg live, bits]
    rcases mated_cases mated facing with ⟨near, far⟩ | ⟨near, far⟩ | ⟨near, far⟩ <;>
      rw [near, far] <;> rcases plain with rfl | rfl <;> rcases plain' with rfl | rfl <;>
        first | exact absurd rfl same | rfl

/-- What a chunk makes of both ends. -/
theorem exchange_split {near : Chan} (linked : Linked s tx) (resting : Resting (s .far).chan)
    (plain : tx = .onhook ∨ tx = .offhook)
    (plain' : (s .near).chan.txhooksig = .onhook ∨ (s .near).chan.txhooksig = .offhook)
    (ticked : transmitTick g (s .near).chan = some near) :
    ∃ s', exchange g s = some s' ∧ (s' .near).chan = near ∧ Linked s' (s .near).chan.txhooksig ∧
      (s' .far).chan = receiveTick (hooksigPvt (s .far).chan (loop (s .near).chan.txhooksig)) := by
  have bits := delivered linked resting plain plain'
  generalize shows : (s .near).chan.txhooksig = tx' at bits plain' ⊢
  have hooked := resting.rests (hook_rests resting tx')
  have received := hooked.rests receive_rests
  let heard_ : End := ⟨receiveTick (hooksigPvt (s .far).chan (loop tx')), outs (s .near).chan.sig tx'⟩
  refine ⟨Function.update (Function.update s .far heard_) .near { s .near with chan := near }, ?_, ?_, ?_, ?_⟩
  · have first : act g s (.deliver .far) =
        some (Function.update s .far ⟨hooksigPvt (s .far).chan (loop tx'), outs (s .near).chan.sig tx'⟩) := by
      rw [← bits, ← shows]
      rfl
    have second : act g (Function.update s .far ⟨hooksigPvt (s .far).chan (loop tx'), outs (s .near).chan.sig tx'⟩)
        (.receive .far) = some (Function.update s .far heard_) := by
      change some (Function.update (Function.update s .far _) .far heard_) = _
      rw [Function.update_idem]
    have third : act g (Function.update s .far heard_) (.transmit .far) = some (Function.update s .far heard_) := by
      change (transmitTick g heard_.chan).map _ = _
      rw [transmit_rests received, Option.map_some]
      change some (Function.update (Function.update s .far heard_) .far heard_) = _
      rw [Function.update_idem]
    have fourth : act g (Function.update s .far heard_) (.transmit .near) =
        some (Function.update (Function.update s .far heard_) .near { s .near with chan := near }) := by
      change (transmitTick g (s .near).chan).map _ = _
      rw [ticked]
      rfl
    simp only [exchange, first, second, third, Option.bind_eq_bind, Option.bind_some]
    exact fourth
  · rfl
  · have calm := transmit_calm ticked
    have office := (hook_rests resting tx').sig
    have office' := (receive_rests (c := hooksigPvt (s .far).chan (loop tx'))).sig
    have still := (@hooksig_calm _ (loop tx') resting.live).hook
    have still' := (receive_calm (c := hooksigPvt (s .far).chan (loop tx'))).hook
    constructor
    · change Sig.mate near.sig = some heard_.chan.sig
      rw [calm.sig, office', office]
      exact linked.mated
    · change near.sig.fxs = true
      rw [calm.sig]
      exact linked.facing
    · change outs (s .near).chan.sig tx' = outs near.sig tx'
      rw [calm.sig]
    · exact still'.trans still
  · rfl

/-- The chunks of a trunk are those of the station and those of the office. -/
theorem exchanges_split {shown : List TxSig} {d c' : Chan} (linked : Linked s tx)
    (resting : Resting (s .far).chan) (plain : tx = .onhook ∨ tx = .offhook)
    (sent : sends g n (s .near).chan = some (shown, d)) (plains : ∀ x ∈ shown, x = .onhook ∨ x = .offhook)
    (run : feed g (heard shown) (s .far).chan = some c') :
    ∃ s', exchanges g n s = some s' ∧ (s' .near).chan = d ∧ (s' .far).chan = c' := by
  induction n generalizing s tx shown with
  | zero =>
    obtain ⟨rfl, rfl⟩ := Prod.mk.inj (Option.some.inj sent)
    exact ⟨s, rfl, rfl, Option.some.inj run⟩
  | succ n ih =>
    obtain ⟨near, ticked, rest⟩ := Option.bind_eq_some_iff.mp sent
    obtain ⟨⟨shown', d'⟩, later, same⟩ := Option.map_eq_some_iff.mp rest
    obtain ⟨rfl, rfl⟩ := Prod.mk.inj same
    obtain ⟨s₁, exchanged, chan, linked', far⟩ :=
      exchange_split linked resting plain (plains _ List.mem_cons_self) ticked
    have hooked := resting.rests (hook_rests resting (s .near).chan.txhooksig)
    have received := hooked.rests receive_rests
    have steps : heard ((s .near).chan.txhooksig :: shown') =
        .hook (loop (s .near).chan.txhooksig) :: .receive :: .transmit :: heard shown' := rfl
    rw [steps, feed, feedOne, Option.bind_some, feed, feedOne, Option.bind_some, feed, feedOne,
      transmit_rests received, Option.bind_some, ← far] at run
    rw [← far] at received
    rw [← chan] at later
    obtain ⟨s', finished, near', far'⟩ := ih linked' received (plains _ List.mem_cons_self) later
      (fun x inside => plains x (List.mem_cons_of_mem _ inside)) run
    refine ⟨s', ?_, near', far'⟩
    rw [exchanges, exchanged]
    exact finished

theorem shown_plain {pace : Pace} {digits : List Char} :
    ∀ x ∈ shownDigits pace digits, x = .onhook ∨ x = .offhook := by
  intro x inside
  obtain ⟨digit, _, inside⟩ := List.mem_flatMap.mp inside
  rcases List.mem_append.mp inside with pulse | pause
  · obtain ⟨part, among, inside⟩ := List.mem_flatten.mp pulse
    rw [List.eq_of_mem_replicate among] at inside
    rcases List.mem_append.mp inside with opened | closed
    · exact .inl (List.eq_of_mem_replicate opened)
    · exact .inr (List.eq_of_mem_replicate closed)
  · exact .inr (List.eq_of_mem_replicate pause)

/-- A string of digits dialled in pulses arrives: after its chunks the far end has had the
    start and the end of every digit and nothing else of the station, and the station has
    closed its loop and dials no more. -/
theorem digits_arrive {pace : Pace} {digits : List Char} (linked : Linked s .offhook)
    (station : Station pace (s .near).chan) (zoned : (s .near).chan.curzone.isSome) (all : Digits digits)
    (resting : Resting (s .far).chan) (idle : OffHook (s .far).chan)
    (paced : Paced pace (flashTimer (s .far).chan)) :
    ∃ s₀ s', act g s (.dial .near digits) = some s₀ ∧ exchanges g (chunksOf pace digits) s₀ = some s' ∧
      farEvents (s' .far).chan = farEvents (s .far).chan ++
        digits.flatMap (fun digit => [.pulseStart, .pulsedigit digit]) ∧
      (s' .near).chan.txhooksig = .offhook ∧ (s' .near).chan.dialing = false ∧ (s' .near).chan.txdialbuf = [] := by
  have asked : Station pace { (s .near).chan with txdialbuf := digits, dialing := true } := { station with }
  obtain ⟨d, sent, done, empty, over_⟩ := @sends_digits g _ pace _ digits asked paced rfl all
  obtain ⟨c', run, _⟩ := @feed_resting g _ resting (shownDigits pace digits)
  have here : InMake (flashTimer (s .far).chan) 0 0 (s .far).chan :=
    { facing := idle.facing
      live := resting.live
      accepts := by rcases resting.state with state | state <;> rw [state] <;> decide
      flashes := rfl
      hook := idle.hook
      untimed := idle.untimed
      count := idle.between
      timed := fun none_ => absurd rfl none_ }
  have events := digits_heard here paced all run
  let dials : Chan := doDtmf g { (s .near).chan with txdialbuf := digits, dialing := true }
  have dialled_ : act g s (.dial .near digits) = some (Function.update s .near { s .near with chan := dials }) := by
    change (actAlone g (s .near).chan (.dial .near digits)).map _ = _
    rw [actAlone, if_neg (by rw [Option.isNone_eq_false_iff.mpr zoned]; decide)]
    rfl
  have sig : dials.sig = (s .near).chan.sig := by
    have calm : Calm (s .near).chan { (s .near).chan with txdialbuf := digits, dialing := true } :=
      (Calm.refl _).set ⟨rfl, rfl, rfl, rfl⟩
    exact (calm.dtmf (g := g)).sig
  have linked' : Linked (Function.update s .near { s .near with chan := dials }) .offhook := by
    constructor
    · change Sig.mate dials.sig = some (s .far).chan.sig
      rw [sig, linked.mated]
    · change dials.sig.fxs = true
      rw [sig]
      exact linked.facing
    · change (s .far).rxsig = outs dials.sig .offhook
      rw [sig, linked.bits]
    · exact linked.hook
  obtain ⟨s', exchanged, near, far⟩ := exchanges_split linked' resting (.inr rfl) sent shown_plain run
  refine ⟨_, s', dialled_, exchanged, ?_, ?_, ?_, ?_⟩
  · rw [far, events]
  · rw [near, done.hook]
  · rw [near, over_]
  · rw [near, empty]

/-- The times of a channel that was just set up. -/
def usualPace : Pace := ⟨50, 50, 750⟩

/-- A station and an office in a call. -/
def callTrunk : Ends
  | .near =>
    { chan :=
        { idleChan with
          sig := .fxsks
          line := rbsLine
          txstate := .offhook
          txhooksig := .offhook
          digitmode := .pulse
          curzone := some ⟨0, fun _ => 0, fun _ => none, fun _ => ⟨Tone.noWave, 0, none⟩⟩ }
      rxsig := 0 }
  | .far => ⟨talkingChan, bitsAbcd⟩

theorem digits_arrive_call : ∃ s₀ s', act initialGlobals callTrunk (.dial .near ['1', '0']) = some s₀ ∧
    exchanges initialGlobals 2600 s₀ = some s' ∧
    farEvents (s' .far).chan = [.pulseStart, .pulsedigit '1', .pulseStart, .pulsedigit '0'] ∧
    (s' .near).chan.txhooksig = .offhook ∧ (s' .near).chan.dialing = false ∧ (s' .near).chan.txdialbuf = [] := by
  have paced : Paced usualPace (flashTimer talkingChan) :=
    ⟨⟨by decide, by decide, by decide⟩, by decide, by decide⟩
  have all : Digits ['1', '0'] := by
    intro digit inside
    rcases List.mem_cons.mp inside with rfl | inside
    · rfl
    · rw [List.mem_singleton.mp inside]
      rfl
  exact @digits_arrive initialGlobals callTrunk usualPace ['1', '0'] ⟨rfl, rfl, rfl, rfl⟩
    ⟨rfl, rfl, rfl, rfl, rfl, rfl, rfl⟩ rfl all ⟨rfl, rfl, .inr rfl, rfl⟩ ⟨rfl, rfl, rfl, rfl⟩ paced

end Trunk
end PulseTrip
