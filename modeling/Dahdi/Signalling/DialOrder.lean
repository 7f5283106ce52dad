import Dahdi.Signalling.DialBuffer

/-!
The characters taken from the dialing string are those of the accepted requests in their
order, and DIALCOMPLETE is given when no character is left that makes a tone or pulses.
-/
namespace DialBuffer
open Tone Signalling CString GuardedRun

/-- Whether a character other than a mode letter makes a tone or pulses. -/
def playable (digitmode : DigitMode) (offhook zoned : Bool) (c : Char) : Bool :=
  if c ≠ 'W' ∧ digitmode = .pulse then offhook && (decimal c).isSome
  else zoned && (decide (c = 'W') || (mfPlace digitmode c).isSome)

/-- Nothing in the string makes a tone or pulses. -/
def runsOut (offhook zoned : Bool) : DigitMode → List Char → Bool
  | _, [] => true
  | digitmode, c :: rest =>
    match modeOf c with
    | some mode => runsOut offhook zoned mode rest
    | none => !playable digitmode offhook zoned c && runsOut offhook zoned digitmode rest

/-- Mode letters select a mode, and no other character is passed over that makes a tone
    or pulses. -/
def Note.Proper : Note → Prop
  | .mode c => (modeOf c).isSome = true
  | .tone c => modeOf c = none
  | .pulse c => modeOf c = none
  | .skip c digitmode offhook zoned =>
    modeOf c = none ∧ playable digitmode offhook zoned c = false
  | .complete => True

/-- The channel with the string of its buffer. -/
def shown (chan : Chan) : Chan := { chan with txdialbuf := text chan }

structure Turn (g : Globals) (chan : Chan) (digits : List Char) (r : Chan × List Note) : Prop where
  holds : Holds nul maxDtmfBuf r.1.txdialbuf (text r.1)
  order : r.2.filterMap Note.taken ++ text r.1 = digits
  proper : ∀ n ∈ r.2, n.Proper
  completes : (r.2.filter fun n => decide (n = .complete)) =
    if runsOut (offhook chan) chan.curzone.isSome chan.digitmode digits then [.complete] else []
  shows : shown r.1 = doDtmfFrom g digits (shown chan)

section turn
variable {g : Globals} {chan chan' : Chan} {digits rest : List Char} {c : Char}

theorem mf_playable (chan : Chan) (c : Char) (tones : ¬(c ≠ 'W' ∧ chan.digitmode = .pulse)) :
    (mfTone chan c chan.digitmode).isSome =
      playable chan.digitmode (offhook chan) chan.curzone.isSome c := by
  rw [mfTone, playable, if_neg tones]
  cases chan.curzone with
  | none => rfl
  | some zone =>
    simp only
    split
    case isTrue wait => simp [wait]
    case isFalse other => simp [other]

theorem shown_sethook {txsig : TxSig} {txstate : TxState} {timeout : Int} :
    shown (rbsSethook chan txsig txstate timeout) = rbsSethook (shown chan) txsig txstate timeout := by
  have takes : (shown chan).takesHook = chan.takesHook := rfl
  rw [rbsSethook, rbsSethook, takes]
  split
  case isTrue => rfl
  case isFalse =>
    have sig : (shown chan).sig = chan.sig := rfl
    have line : (shown chan).line = chan.line := rfl
    simp only [sig, line]
    split <;> rfl

theorem text_sethook {txsig : TxSig} {txstate : TxState} {timeout : Int} :
    (rbsSethook chan txsig txstate timeout).txdialbuf = chan.txdialbuf := by
  rw [rbsSethook]
  split
  case isTrue => rfl
  case isFalse =>
    simp only
    split <;> rfl

/-- A character is passed, and the rest of the string is up. -/
theorem turn_noted {n : Note} {r : Chan × List Note} (turn : Turn g chan' rest r)
    (takes : n.taken = some c) (proper : n.Proper)
    (out : runsOut (offhook chan) chan.curzone.isSome chan.digitmode (c :: rest) =
      runsOut (offhook chan') chan'.curzone.isSome chan'.digitmode rest)
    (same : doDtmfFrom g (c :: rest) (shown chan) = doDtmfFrom g rest (shown chan')) :
    Turn g chan (c :: rest) (noted n r) := by
  have other : n ≠ .complete := by
    rintro rfl
    cases takes
  constructor
  · exact turn.holds
  · rw [noted, List.filterMap_cons_some takes, List.cons_append, turn.order]
  · intro m member
    rcases List.mem_cons.mp member with rfl | later
    · exact proper
    · exact turn.proper m later
  · rw [noted, List.filter_cons_of_neg (by simp [other]), turn.completes, out]
  · rw [same]
    exact turn.shows

/-- A character makes a tone or pulses. -/
theorem turn_stops {n : Note} (holds : Holds nul maxDtmfBuf chan'.txdialbuf rest)
    (takes : n.taken = some c) (proper : n.Proper)
    (out : runsOut (offhook chan) chan.curzone.isSome chan.digitmode (c :: rest) = false)
    (same : shown chan' = doDtmfFrom g (c :: rest) (shown chan)) :
    Turn g chan (c :: rest) (chan', [n]) := by
  have other : n ≠ .complete := by
    rintro rfl
    cases takes
  have string : text chan' = rest := holds_contents holds
  constructor
  · rw [string]
    exact holds
  · rw [List.filterMap_cons_some takes, string]
    rfl
  · intro m member
    rw [List.mem_singleton.mp member]
    exact proper
  · rw [out, List.filter_cons_of_neg (by simp [other])]
    rfl
  · exact same

theorem loop_end {passes : Nat} (holds : Holds nul maxDtmfBuf chan.txdialbuf []) :
    doDtmfLoop g (passes + 1) chan =
      some (qevent { chan with dialing := false } .dialcomplete, [.complete]) := by
  obtain ⟨rest, begins⟩ := holds.front
  rw [doDtmfLoop, begins]
  exact if_pos rfl

theorem loop_char {passes : Nat} (holds : Holds nul maxDtmfBuf chan.txdialbuf (c :: rest)) :
    doDtmfLoop g (passes + 1) chan =
      dialChar g (doDtmfLoop g passes) c { chan with txdialbuf := moveDown chan.txdialbuf } := by
  obtain ⟨behind, begins⟩ := holds.front
  have other : c ≠ nul := fun same => holds.clear (same ▸ List.mem_cons_self)
  rw [doDtmfLoop]
  split
  case h_1 none_ =>
    rw [none_] at begins
    cases begins
  case h_2 first _ some_ =>
    rw [begins] at some_
    have same : c = first := (List.cons.inj some_).1
    rw [← same, if_neg other]

theorem end_turn (holds : Holds nul maxDtmfBuf chan.txdialbuf []) :
    Turn g chan [] (qevent { chan with dialing := false } .dialcomplete, [.complete]) := by
  have string : contents nul chan.txdialbuf = [] := holds_contents holds
  constructor
  · rw [text, qevent]
    simp only [string]
    exact holds
  · exact string
  · intro n member
    rw [List.mem_singleton.mp member]
    trivial
  · rfl
  · simp only [shown, text, qevent, string, doDtmfFrom]

/-- The step of __do_dtmf for one character, on the string itself. -/
theorem dial_step (string : text chan = rest) :
    doDtmfFrom g (c :: rest) (shown chan) =
      match modeOf c with
      | some mode => doDtmfFrom g rest (shown { chan with digitmode := mode, tonep := 0 })
      | none =>
        if c ≠ 'W' ∧ chan.digitmode = .pulse then
          match decimal c with
          | some digit =>
            if chan.txhooksig = .offhook then
              shown
                (rbsSethook { chan with pdialcount := if digit = 0 then 10 else digit } .onhook
                  .pulsebreak chan.times.pulsebreaktime)
            else doDtmfFrom g rest (shown chan)
          | none => doDtmfFrom g rest (shown chan)
        else
          match mfTone chan c chan.digitmode with
          | some t =>
            shown { chan with
              curtone := some t
              tonep := 0
              ts := initToneState (tonePointed g t).wave }
          | none => doDtmfFrom g rest (shown { chan with curtone := none, tonep := 0 }) := by
  have same : contents nul chan.txdialbuf = rest := string
  rw [doDtmfFrom]
  cases modeOf c with
  | some mode => simp only [shown, text, same]
  | none =>
    simp only [shown_sethook]
    simp only [shown, text, same]
    split
    · rfl
    · rfl

/-- One character, where the passes after it come to an end for the rest. -/
theorem char_turn {again : Chan → Option (Chan × List Note)}
    (holds : Holds nul maxDtmfBuf chan.txdialbuf rest)
    (later : ∀ chan : Chan, Holds nul maxDtmfBuf chan.txdialbuf rest →
      ∃ r, again chan = some r ∧ Turn g chan rest r) :
    ∃ r, dialChar g again c chan = some r ∧ Turn g chan (c :: rest) r := by
  have step := @dial_step g chan rest c (holds_contents holds)
  have passed (skip : modeOf c = none)
      (silent : playable chan.digitmode (offhook chan) chan.curzone.isSome c = false)
      (chan' : Chan) (same : chan'.digitmode = chan.digitmode ∧ chan'.txhooksig = chan.txhooksig ∧
        chan'.curzone = chan.curzone ∧ chan'.txdialbuf = chan.txdialbuf)
      (shows : doDtmfFrom g (c :: rest) (shown chan) = doDtmfFrom g rest (shown chan')) :
      ∃ r, (again chan').map (noted (skipped chan c)) = some r ∧ Turn g chan (c :: rest) r := by
    obtain ⟨mode, hook, zone, string⟩ := same
    obtain ⟨r, runs, turn⟩ := later chan' (string ▸ holds)
    have out : runsOut (offhook chan) chan.curzone.isSome chan.digitmode (c :: rest) =
        runsOut (offhook chan') chan'.curzone.isSome chan'.digitmode rest := by
      have hooks : offhook chan' = offhook chan := by rw [offhook, offhook, hook]
      rw [runsOut, skip, mode, hooks, zone]
      simp only [silent, Bool.not_false, Bool.true_and]
    exact ⟨noted (skipped chan c) r, by rw [runs, Option.map_some],
      turn_noted turn rfl ⟨skip, silent⟩ out shows⟩
  rw [dialChar]
  cases chosen : modeOf c with
  | some mode =>
    obtain ⟨r, runs, turn⟩ := later { chan with digitmode := mode, tonep := 0 } holds
    have out : runsOut (offhook chan) chan.curzone.isSome chan.digitmode (c :: rest) =
        runsOut (offhook chan) chan.curzone.isSome mode rest := by
      rw [runsOut, chosen]
    have shows : doDtmfFrom g (c :: rest) (shown chan) =
        doDtmfFrom g rest (shown { chan with digitmode := mode, tonep := 0 }) := by
      rw [step, chosen]
    simp only [runs, Option.map_some]
    exact ⟨_, rfl, turn_noted turn rfl (by rw [Note.Proper, chosen]; rfl) out shows⟩
  | none =>
    simp only
    by_cases pulses : c ≠ 'W' ∧ chan.digitmode = .pulse
    · rw [if_pos pulses]
      cases number : decimal c with
      | none =>
        simp only
        apply passed chosen _ chan ⟨rfl, rfl, rfl, rfl⟩
        · rw [step, chosen]
          simp only [if_pos pulses, number]
        · rw [playable, if_pos pulses, number]
          exact Bool.and_false _
      | some digit =>
        simp only
        by_cases off : chan.txhooksig = .offhook
        · have out : runsOut (offhook chan) chan.curzone.isSome chan.digitmode (c :: rest) = false := by
            have plays : playable chan.digitmode (offhook chan) chan.curzone.isSome c = true := by
              rw [playable, if_pos pulses, offhook, decide_eq_true off, number]
              rfl
            rw [runsOut, chosen, plays]
            rfl
          rw [if_pos off]
          refine ⟨_, rfl, turn_stops (by rw [text_sethook]; exact holds) rfl chosen out ?_⟩
          rw [step, chosen]
          simp only [if_pos pulses, number, if_pos off]
        · rw [if_neg off]
          apply passed chosen _ chan ⟨rfl, rfl, rfl, rfl⟩
          · rw [step, chosen]
            simp only [if_pos pulses, number, if_neg off]
          · rw [playable, if_pos pulses, offhook, decide_eq_false off]
            exact Bool.false_and _
    · rw [if_neg pulses]
      have plays := mf_playable chan c pulses
      cases found : mfTone chan c chan.digitmode with
      | none =>
        rw [found] at plays
        simp only
        apply passed chosen plays.symm { chan with curtone := none, tonep := 0 } ⟨rfl, rfl, rfl, rfl⟩
        rw [step, chosen]
        simp only [if_neg pulses, found]
      | some t =>
        have out : runsOut (offhook chan) chan.curzone.isSome chan.digitmode (c :: rest) = false := by
          rw [found] at plays
          rw [runsOut, chosen, ← plays]
          rfl
        refine ⟨_, rfl, turn_stops holds rfl chosen out ?_⟩
        rw [step, chosen]
        simp only [if_neg pulses, found]

theorem loop_turn {passes : Nat} (holds : Holds nul maxDtmfBuf chan.txdialbuf digits)
    (enough : digits.length < passes) :
    ∃ r, doDtmfLoop g passes chan = some r ∧ Turn g chan digits r := by
  induction digits generalizing chan passes with
  | nil =>
    cases passes with
    | zero => cases enough
    | succ passes => exact ⟨_, loop_end holds, end_turn holds⟩
  | cons c rest ih =>
    cases passes with
    | zero => cases enough
    | succ passes =>
      have fewer : rest.length < passes := Nat.lt_of_succ_lt_succ enough
      obtain ⟨r, runs, turn⟩ := @char_turn g { chan with txdialbuf := moveDown chan.txdialbuf } rest c
        (doDtmfLoop g passes) (holds_moved holds) fun chan holds => ih holds fewer
      rw [loop_char holds]
      exact ⟨r, runs, turn.holds, turn.order, turn.proper, turn.completes, turn.shows⟩

theorem dtmf_turn (holds : Holds nul maxDtmfBuf chan.txdialbuf digits) :
    ∃ r, doDtmf g chan = some r ∧ Turn g chan digits r :=
  loop_turn holds (holds_short holds)

/-- __do_dtmf on the buffer is __do_dtmf on the string in it. -/
theorem dtmf_shown (holds : Holds nul maxDtmfBuf chan.txdialbuf (text chan)) :
    ∃ r, doDtmf g chan = some r ∧ shown r.1 = Signalling.doDtmf g (shown chan) := by
  obtain ⟨r, runs, turn⟩ := @dtmf_turn g chan _ holds
  exact ⟨r, runs, turn.shows⟩

end turn

/-- The string is ended within the buffer, and the characters taken and those still in it
    are the ones owed. -/
structure Intact (s : Dialer) : Prop where
  holds : Holds nul maxDtmfBuf s.chan.txdialbuf (text s.chan)
  order : s.taken ++ text s.chan = s.owed
  proper : ∀ n ∈ s.notes, n.Proper
  queue : s.eventq.InRange

/-- The string that __do_dtmf is called with. -/
def calls (g : Globals) (s : Dialer) : Op → Option (List Char)
  | .dial .replace dialstr => if s.chan.curzone.isNone then none else some (request dialstr)
  | .dial .append dialstr =>
    if s.chan.curzone.isNone then none
    else if maxDtmfBuf - 1 ≤ (request dialstr).length + (text s.chan).length then none
    else if s.chan.dialing then none
    else some (text s.chan ++ request dialstr)
  | .toneEnd =>
    match s.chan.curtone with
    | none => none
    | some cur =>
      if (tonePointed g cur).next.isNone ∧ s.chan.dialing = true then some (text s.chan) else none
  | .pulseAfter => some (text s.chan)
  | .dial .cancel _ | .dial .other _ | .stop | .sendTone _ _ | .hook _ | .zone _ | .getEvent => none

/-- One DIALCOMPLETE where the string runs out, unless the queue is full. -/
def told (g : Globals) (s : Dialer) (op : Op) : List Event :=
  match calls g s op with
  | some digits =>
    if runsOut (offhook s.chan) s.chan.curzone.isSome s.chan.digitmode digits = true ∧
        s.eventq.events.length < maxEventsize - 1 then
      s.eventq.events ++ [.dialcomplete]
    else s.eventq.events
  | none =>
    match op with
    | .getEvent => s.eventq.events.tail
    | _ => s.eventq.events

section steps
variable {g : Globals} {s s' : Dialer} {chan : Chan} {digits more : List Char}

theorem upper_some {c : Char} (some_ : c ≠ nul) : toupper c ≠ nul := by
  rw [toupper]
  split
  case isTrue letter =>
    intro same
    have number := congrArg Char.toNat same
    rw [nul, Char.toNat_ofNat, Char.toNat_ofNat, if_pos (Or.inl (by omega)), if_pos (by decide)] at number
    omega
  case isFalse => exact some_

theorem request_clear (dialstr : List Char) : nul ∉ request dialstr := by
  intro member
  obtain ⟨c, inside, same⟩ := List.mem_map.mp member
  exact upper_some (ne_of_mem_of_not_mem inside (contents_clear nul _)) same

theorem request_short (dialstr : List Char) : (request dialstr).length < maxDtmfBuf := by
  have shorter : (contents nul (dialstr.take (maxDtmfBuf - 1))).length ≤ (dialstr.take (maxDtmfBuf - 1)).length :=
    (List.takeWhile_sublist _).length_le
  rw [request, List.length_map]
  rw [List.length_take] at shorter
  unfold maxDtmfBuf at *
  omega

theorem announce_turn {r : Chan × List Note} (inside : s.eventq.InRange) (turn : Turn g chan digits r) :
    (announce r.2 s.eventq).InRange ∧
      (announce r.2 s.eventq).events =
        if runsOut (offhook chan) chan.curzone.isSome chan.digitmode digits = true ∧
            s.eventq.events.length < maxEventsize - 1 then
          s.eventq.events ++ [.dialcomplete]
        else s.eventq.events := by
  rw [announce, turn.completes]
  by_cases out : runsOut (offhook chan) chan.curzone.isSome chan.digitmode digits = true
  · rw [if_pos out, List.foldl_cons, List.foldl_nil]
    by_cases full : s.eventq.Full
    · have length := (full_count inside).mp full
      rw [saveEvent, if_pos full, if_neg (by omega)]
      exact ⟨inside, rfl⟩
    · have length : s.eventq.events.length < maxEventsize - 1 := by
        have other := mt (full_count inside).mpr full
        have most : s.eventq.count < maxEventsize := Nat.mod_lt _ (by decide)
        rw [events_length] at other ⊢
        omega
      rw [if_pos ⟨out, length⟩]
      exact ⟨save_range inside, save_events inside full⟩
  · rw [if_neg out, if_neg fun both => out both.1]
    exact ⟨inside, rfl⟩

/-- A call of __do_dtmf with the characters still owed. -/
theorem turn_intact {r : Chan × List Note} (intact : Intact s) (turn : Turn g chan digits r) :
    Intact (after s (s.taken ++ digits) r) := by
  constructor
  · exact turn.holds
  · rw [Dialer.taken, after]
    simp only [List.filterMap_append, List.append_assoc, turn.order]
    rfl
  · intro n member
    rcases List.mem_append.mp member with before | now
    · exact intact.proper n before
    · exact turn.proper n now
  · exact (announce_turn intact.queue turn).1

/-- The string changes without a call of __do_dtmf. -/
theorem quiet_intact (intact : Intact s) (holds : Holds nul maxDtmfBuf chan.txdialbuf digits) :
    Intact (after s (s.taken ++ digits) (chan, [])) := by
  have string : text chan = digits := holds_contents holds
  constructor
  · rw [after, string]
    exact holds
  · rw [Dialer.taken, after]
    simp only [List.append_nil, string]
    rfl
  · intro n member
    rw [after, List.append_nil] at member
    exact intact.proper n member
  · exact intact.queue

theorem settled_taken (intact : Intact s) : s.settled = s.taken := by
  rw [Dialer.settled, ← intact.order]
  exact List.take_left

/-- What a step comes to. -/
def Goes (g : Globals) (s : Dialer) (op : Op) : Prop :=
  ∃ s', next g s op = some s' ∧ Intact s' ∧ s'.eventq.events = told g s op

theorem quiet_goes {op : Op} {owed : List Char} (intact : Intact s) (other : op ≠ .getEvent)
    (silent : calls g s op = none) (moved : next g s op = some (after s owed (chan, [])))
    (owes : owed = s.taken ++ digits) (holds : Holds nul maxDtmfBuf chan.txdialbuf digits) :
    Goes g s op := by
  refine ⟨_, moved, owes ▸ quiet_intact intact holds, ?_⟩
  rw [told.eq_def, silent]
  cases op with
  | getEvent => exact absurd rfl other
  | _ => rfl

theorem turn_goes {op : Op} {owed : List Char} {r : Chan × List Note} (intact : Intact s)
    (call : calls g s op = some digits) (moved : next g s op = some (after s owed r))
    (owes : owed = s.taken ++ digits) (turn : Turn g chan digits r)
    (same : chan.txhooksig = s.chan.txhooksig ∧ chan.curzone = s.chan.curzone ∧
      chan.digitmode = s.chan.digitmode) : Goes g s op := by
  refine ⟨_, moved, owes ▸ turn_intact intact turn, ?_⟩
  have announced := (announce_turn intact.queue turn).2
  rw [offhook, same.1, same.2.1, same.2.2] at announced
  rw [told.eq_def, call, offhook]
  exact announced

theorem append_goes {dialstr : List Char} (intact : Intact s) (zoned : ¬ s.chan.curzone.isNone) :
    Goes g s (.dial .append dialstr) := by
  by_cases long : maxDtmfBuf - 1 ≤ (request dialstr).length + (text s.chan).length
  · apply quiet_goes intact _ _ _ intact.order.symm intact.holds
    · intro same
      cases same
    · rw [calls, if_neg zoned, if_pos long]
    · rw [next, ioctlDial, if_neg zoned, if_pos long]
      rfl
  · have fits : (text s.chan).length + (request dialstr).length < maxDtmfBuf := by omega
    have holds := holds_strlcpy intact.holds (request_clear dialstr) fits
    have owes : s.owed ++ request dialstr = s.taken ++ (text s.chan ++ request dialstr) := by
      rw [← intact.order, List.append_assoc]
    by_cases dialing : s.chan.dialing = true
    · apply @quiet_goes g s { s.chan with txdialbuf := _ } _ _ _ intact _ _ _ owes holds
      · intro same
        cases same
      · rw [calls, if_neg zoned, if_neg long, if_pos dialing]
      · rw [next, ioctlDial, if_neg zoned, if_neg long]
        simp only [if_pos dialing]
        rfl
    · obtain ⟨r, runs, turn⟩ := @dtmf_turn g { s.chan with
        txdialbuf := strlcpy nul s.chan.txdialbuf (text s.chan).length (request dialstr)
          (maxDtmfBuf - (text s.chan).length)
        dialing := true } _ holds
      simp only at runs
      apply turn_goes intact _ _ owes turn ⟨rfl, rfl, rfl⟩
      · rw [calls, if_neg zoned, if_neg long, if_neg dialing]
      · rw [next, ioctlDial, if_neg zoned, if_neg long]
        simp only [if_neg dialing, runs]
        rfl

theorem dial_goes {op : DialOp} {dialstr : List Char} (intact : Intact s) :
    Goes g s (.dial op dialstr) := by
  have settled := settled_taken intact
  have length := intact.holds.length
  by_cases zoned : s.chan.curzone.isNone
  · apply quiet_goes intact _ _ _ intact.order.symm intact.holds
    · intro same
      cases same
    · cases op with
      | replace => rw [calls, if_pos zoned]
      | append => rw [calls, if_pos zoned]
      | _ => rfl
    · rw [next, ioctlDial.eq_def, if_pos zoned]
      rfl
  · cases op with
    | append => exact append_goes intact zoned
    | cancel =>
      have owes : s.settled = s.taken ++ [] := by rw [settled, List.append_nil]
      apply @quiet_goes g s (stop s.chan) [] _ _ intact _ _ _ owes (holds_cut length (by decide))
      · intro same
        cases same
      · rfl
      · rw [next, ioctlDial, if_neg zoned]
        rfl
    | replace =>
      have owes : s.settled ++ request dialstr = s.taken ++ request dialstr := by rw [settled]
      obtain ⟨r, runs, turn⟩ := @dtmf_turn g { s.chan with
        txdialbuf := strcpy nul s.chan.txdialbuf (request dialstr), dialing := true } (request dialstr)
        (holds_strcpy length (request_clear dialstr) (request_short dialstr))
      apply turn_goes intact _ _ owes turn ⟨rfl, rfl, rfl⟩
      · rw [calls, if_neg zoned]
      · rw [next, ioctlDial, if_neg zoned, runs]
        rfl
    | other =>
      apply quiet_goes intact _ _ _ intact.order.symm intact.holds
      · intro same
        cases same
      · rfl
      · rw [next, ioctlDial, if_neg zoned]
        rfl

theorem tone_goes (intact : Intact s) : Goes g s .toneEnd := by
  have other : Op.toneEnd ≠ .getEvent := by
    intro same
    cases same
  cases playing : s.chan.curtone with
  | none =>
    apply @quiet_goes g s s.chan _ _ _ intact other _ _ intact.order.symm intact.holds
    · rw [calls, playing]
    · rw [next, toneEnd, playing]
      rfl
  | some cur =>
    cases link : (tonePointed g cur).next with
    | some ref =>
      have still : calls g s .toneEnd = none := by
        rw [calls, playing]
        simp only [link]
        rfl
      by_cases loops : ref ≠ cur.ref
      · apply @quiet_goes g s { s.chan with
          tonep := 0
          curtone := some ⟨cur.zone, ref⟩
          ts := initToneState (tonePointed g ⟨cur.zone, ref⟩).wave } _ _ _ intact other still _
          intact.order.symm intact.holds
        rw [next, toneEnd, playing]
        simp only [link, if_pos loops]
        rfl
      · apply @quiet_goes g s { s.chan with tonep := 0, curtone := some ⟨cur.zone, ref⟩ } _ _ _ intact
          other still _ intact.order.symm intact.holds
        rw [next, toneEnd, playing]
        simp only [link, if_neg loops]
        rfl
    | none =>
      by_cases dialing : s.chan.dialing = true
      · obtain ⟨r, runs, turn⟩ := @dtmf_turn g { s.chan with tonep := 0, curtone := none } _ intact.holds
        simp only at runs
        apply turn_goes intact _ _ intact.order.symm turn ⟨rfl, rfl, rfl⟩
        · rw [calls, playing]
          simp only [link, Option.isNone_none, dialing, and_self, if_true]
        · rw [next, toneEnd, playing]
          simp only [link, if_pos dialing, runs]
          rfl
      · apply @quiet_goes g s { s.chan with tonep := 0, curtone := none } _ _ _ intact other _ _
          intact.order.symm intact.holds
        · rw [calls, playing]
          simp only [dialing, Bool.false_eq_true, and_false, if_false]
        · rw [next, toneEnd, playing]
          simp only [link, if_neg dialing]
          rfl

theorem step_goes (intact : Intact s) (op : Op) : Goes g s op := by
  have length := intact.holds.length
  have emptied : s.settled = s.taken ++ [] := by rw [settled_taken intact, List.append_nil]
  cases op with
  | dial op dialstr => exact dial_goes intact
  | toneEnd => exact tone_goes intact
  | pulseAfter =>
    obtain ⟨r, runs, turn⟩ := @dtmf_turn g { s.chan with txstate := .offhook } _ intact.holds
    apply turn_goes intact rfl _ intact.order.symm turn ⟨rfl, rfl, rfl⟩
    rw [next, runs]
    rfl
  | stop =>
    apply quiet_goes intact _ rfl rfl emptied (holds_cut length (by decide))
    intro same
    cases same
  | sendTone curtone dialing =>
    apply @quiet_goes g s { stop s.chan with curtone := curtone, dialing := dialing } _ _ _ intact _ rfl
      rfl emptied (holds_cut length (by decide))
    intro same
    cases same
  | hook txhooksig =>
    apply @quiet_goes g s { s.chan with txhooksig := txhooksig } _ _ _ intact _ rfl rfl
      intact.order.symm intact.holds
    intro same
    cases same
  | zone curzone =>
    apply @quiet_goes g s { s.chan with curzone := curzone } _ _ _ intact _ rfl rfl
      intact.order.symm intact.holds
    intro same
    cases same
  | getEvent =>
    obtain ⟨_, rest⟩ := get_events intact.queue
    exact ⟨_, rfl, ⟨intact.holds, intact.order, intact.proper, get_range intact.queue⟩, rest⟩

theorem fresh_intact (fresh : Fresh s) : Intact s := by
  obtain ⟨buffer, inn, out, notes, owed⟩ := fresh
  have holds : Holds nul maxDtmfBuf s.chan.txdialbuf [] := by
    rw [buffer]
    exact ⟨List.length_replicate, ⟨List.replicate (maxDtmfBuf - 1) nul, rfl⟩, List.not_mem_nil⟩
  have string : text s.chan = [] := holds_contents holds
  constructor
  · rw [string]
    exact holds
  · rw [string, owed, Dialer.taken, notes]
    rfl
  · intro n member
    rw [notes] at member
    cases member
  · constructor
    · rw [inn]
      decide
    · rw [out]
      decide

/-- In every run the dialing string is ended within its buffer, what was taken from it and
    what is in it are the characters owed, in order, and every step returns with one
    DIALCOMPLETE more where the string runs out and the queue has room, and else none. -/
theorem dialled_in_order (run : Reach (sys g) anyStep s) :
    Intact s ∧ ∀ op, ∃ s', next g s op = some s' ∧ s'.eventq.events = told g s op := by
  have intact : Intact s := by
    apply @invariant_run _ _ (sys g) anyStep Intact
    · exact fun begin_ fresh => fresh_intact fresh
    · intro before op after intact _ moved
      obtain ⟨s', moved', intact', _⟩ := @step_goes g before intact op
      rw [moved] at moved'
      exact Option.some.inj moved' ▸ intact'
    · exact run
  constructor
  · exact intact
  · intro op
    obtain ⟨s', moved, _, events⟩ := step_goes intact op
    exact ⟨s', moved, events⟩

end steps

/-- An idle channel that has a zone. -/
def fresh : Dialer :=
  { chan := { idleChan with
      curzone := some ⟨0, fun _ => 0, fun _ => none, fun _ => ⟨noWave, 8, some .dtmfSilence⟩⟩
      txdialbuf := List.replicate maxDtmfBuf nul }
    eventq := ⟨fun _ => .dialcomplete, 0, 0⟩
    notes := []
    owed := [] }

/-- A number is dialled, and more digits come while its first one is played. -/
def dialled : List Op :=
  [.dial .replace ['7', '?'], .dial .append ['M', '5'], .toneEnd, .toneEnd, .toneEnd, .toneEnd]

theorem dialled_in_order_appended :
    ∃ s, follow (next initialGlobals) anyStep dialled fresh = some s ∧
      s.handed = ['7', '5'] ∧ s.eventq.events = [.dialcomplete] ∧ Intact s ∧
      ∀ op, ∃ s', next initialGlobals s op = some s' ∧ s'.eventq.events = told initialGlobals s op := by
  have runs : (follow (next initialGlobals) anyStep dialled fresh).any
      (fun s => s.handed = ['7', '5'] ∧ s.eventq.events = [.dialcomplete]) = true := by
    decide +kernel
  obtain ⟨s, ends, shown⟩ := (Option.any_eq_true _ _).mp runs
  obtain ⟨handed, told⟩ := of_decide_eq_true shown
  refine ⟨s, ends, handed, told, ?_⟩
  apply dialled_in_order
  apply @follow_reach _ _ (sys initialGlobals) _ _ _ (fun _ _ _ done => done) _ _ _ _ ends
  exact Reach.start ⟨rfl, rfl, rfl, rfl, rfl⟩

/-- A mode letter is taken from the string and makes no tone. -/
theorem letter_taken : ¬ ∀ s, Reach (sys initialGlobals) anyStep s →
    s.handed ++ text s.chan = s.owed := by
  intro always
  have runs : (follow (next initialGlobals) anyStep [.dial .replace ['M', '5']] fresh).any
      (fun s => s.handed = ['5'] ∧ text s.chan = [] ∧ s.owed = ['M', '5']) = true := by
    decide +kernel
  obtain ⟨s, ends, shown⟩ := (Option.any_eq_true _ _).mp runs
  obtain ⟨handed, string, owed⟩ := of_decide_eq_true shown
  have reached : Reach (sys initialGlobals) anyStep s := by
    apply @follow_reach _ _ (sys initialGlobals) _ _ _ (fun _ _ _ done => done) _ _ _ _ ends
    exact Reach.start ⟨rfl, rfl, rfl, rfl, rfl⟩
  have same := always s reached
  rw [handed, string, owed] at same
  cases same

end DialBuffer
