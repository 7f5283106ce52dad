import Mathlib

/-!
Span and channel numbers, from dahdi-base.c: how a span gets its place on
span_list, how a pseudo channel gets its number, and how a channel is found by
its number. Each function runs under registration_mutex.
-/
namespace SpanNumbers

/-- An int read as an unsigned int. -/
def u32 (x : Int) : Nat := (x % 2 ^ 32).toNat

/-- An unsigned int stored in an int. -/
def s32 (x : Int) : Int := x.bmod (2 ^ 32)

/-- A struct dahdi_chan, known by its address. -/
structure Chan where
  addr : Nat
  channo : Int
  deriving DecidableEq, Repr

structure Span where
  addr : Nat
  spanno : Int
  chans : List Chan
  deriving DecidableEq, Repr

def Span.channels (s : Span) : Nat := s.chans.length

/-- chans[0]->channo -/
def Span.basechan (s : Span) : Int :=
  match s.chans with
  | [] => 0
  | c :: _ => c.channo

/-- span_list and pseudo_chans; num_pseudo_channels is the length of the latter. -/
structure State where
  spans : List Span
  pseudos : List Chan
  deriving DecidableEq, Repr

def firstPseudoChannel : Nat := 0x8000

/-- _get_next_channo, from an entry of span_list on. -/
def getNextChanno : List Span → Nat
  | [] => 2 ^ 32 - 1
  | span :: rest => if span.channels = 0 then getNextChanno rest else u32 span.basechan

def numberFrom (basechan : Nat) : Nat → List Chan → List Chan
  | _, [] => []
  | i, c :: rest => { c with channo := s32 (u32 (basechan + i)) } :: numberFrom basechan (i + 1) rest

def setSpannoAndBasechan (span : Span) (spanno basechan : Nat) : Span :=
  { span with spanno := s32 spanno, chans := numberFrom basechan 0 span.chans }

/-- The loop of _assign_spanno_and_basechan for a span of the given channels. The
    first channel of a span that has none cannot be read. -/
def assignLoop (channels : Nat) : List Span → Nat → Nat → Option (Nat × Nat)
  | [], spanno, basechan => some (spanno, basechan)
  | pos :: rest, spanno, basechan =>
    if u32 pos.spanno ≤ spanno then
      if pos.channels = 0 then none
      else assignLoop channels rest (u32 (pos.spanno + 1)) (u32 (pos.basechan + pos.channels))
    else if u32 (basechan + channels) ≤ getNextChanno (pos :: rest) then some (spanno, basechan)
    else
      assignLoop channels rest (u32 (pos.spanno + 1))
        (if pos.channels = 0 then basechan else u32 (pos.basechan + pos.channels))

def assignSpannoAndBasechan (spanList : List Span) (span : Span) : Option Span :=
  (assignLoop span.channels spanList 1 1).map fun (spanno, basechan) =>
    setSpannoAndBasechan span spanno basechan

/-- The loop of _check_spanno_and_basechan: whether the location is free. -/
def checkLoop (channels spanno basechan : Nat) : List Span → Bool
  | [] => true
  | pos :: rest =>
    let nextChanno := getNextChanno (pos :: rest)
    if u32 pos.spanno ≤ spanno then
      if basechan < u32 (nextChanno + pos.channels) then false
      else checkLoop channels spanno basechan rest
    else if nextChanno = 2 ^ 32 - 1 then true
    else decide (u32 (basechan + channels) ≤ nextChanno)

def checkSpannoAndBasechan (spanList : List Span) (span : Span) (spanno basechan : Nat) :
    Option Span :=
  if checkLoop span.channels spanno basechan spanList then
    some (setSpannoAndBasechan span spanno basechan)
  else none

/-- _dahdi_add_span_to_span_list -/
def addSpanToSpanList (span : Span) : List Span → List Span
  | [] => [span]
  | pos :: rest =>
    if span.spanno < pos.spanno then span :: pos :: rest else pos :: addSpanToSpanList span rest

/-- _dahdi_assign_span as far as the numbers go: a registered span and a location
    that is not free are errors. -/
def assignSpan (s : State) (span : Span) (spanno basechan : BitVec 32) : Option State :=
  if s.spans.any fun pos => pos.addr == span.addr then none
  else
    let placed :=
      if spanno = 0 then assignSpannoAndBasechan s.spans span
      else checkSpannoAndBasechan s.spans span spanno.toNat basechan.toNat
    placed.map fun span => { s with spans := addSpanToSpanList span s.spans }

/-- _dahdi_unassign_span -/
def unassignSpan (s : State) (addr : Nat) : State :=
  { s with spans := s.spans.filter fun pos => pos.addr != addr }

/-- The search of dahdi_alloc_pseudo for a number and a place, and the list_add. -/
def allocPseudoLoop (addr : Nat) : List Chan → Nat → List Chan
  | [], channo => [⟨addr, s32 channo⟩]
  | p :: rest, channo =>
    if channo = u32 p.channo then p :: allocPseudoLoop addr rest (u32 (channo + 1))
    else ⟨addr, s32 channo⟩ :: p :: rest

/-- dahdi_alloc_pseudo with a timing source and memory, under the module's limit. -/
def allocPseudo (maxPseudoChannels : Nat) (s : State) (addr : Nat) : Option State :=
  if maxPseudoChannels ≤ s.pseudos.length then none
  else some { s with pseudos := allocPseudoLoop addr s.pseudos firstPseudoChannel }

/-- dahdi_free_pseudo -/
def freePseudo (s : State) (addr : Nat) : State :=
  { s with pseudos := s.pseudos.filter fun p => p.addr != addr }

/-- The walk of _chan_from_num over span_list. -/
def spanChanFromNum (channo : Nat) : List Span → Option Chan
  | [] => none
  | s :: rest =>
    if s.channels = 0 then spanChanFromNum channo rest
    else if u32 (u32 s.basechan + s.channels) ≤ channo then spanChanFromNum channo rest
    else if channo < u32 s.basechan then none
    else s.chans[channo - u32 s.basechan]?

/-- _chan_from_num -/
def chanFromNum (s : State) (channo : BitVec 32) : Option Chan :=
  if firstPseudoChannel ≤ channo.toNat then s.pseudos.find? fun p => u32 p.channo == channo.toNat
  else spanChanFromNum channo.toNat s.spans

/-- The operations on the two lists. -/
inductive Event where
  | assign (span : Span) (spanno basechan : BitVec 32)
  | unassign (addr : Nat)
  | allocPseudo (addr : Nat)
  | freePseudo (addr : Nat)

def apply (maxPseudoChannels : Nat) (s : State) : Event → Option State
  | .assign span spanno basechan => assignSpan s span spanno basechan
  | .unassign addr => some (unassignSpan s addr)
  | .allocPseudo addr => allocPseudo maxPseudoChannels s addr
  | .freePseudo addr => some (freePseudo s addr)

section Conversions

theorem u32_of_lt {x : Int} (low : 0 ≤ x) (high : x < 2 ^ 32) : (u32 x : Int) = x := by
  unfold u32
  rw [Int.emod_eq_of_lt low high, Int.toNat_of_nonneg low]

theorem u32_lt (x : Int) : u32 x < 2 ^ 32 := by
  unfold u32
  omega

theorem s32_of_lt {x : Int} (low : 0 ≤ x) (high : x < 2 ^ 31) : s32 x = x := by
  unfold s32
  rw [Int.bmod_eq_of_le] <;> omega

theorem s32_of_ge {x : Int} (low : 2 ^ 31 ≤ x) (high : x < 2 ^ 32) : s32 x = x - 2 ^ 32 := by
  unfold s32 Int.bmod
  rw [Int.emod_eq_of_lt (by omega) (by omega)]
  simp only
  split <;> omega

end Conversions

section Numbering

@[simp] theorem set_spanno (span : Span) (spanno basechan : Nat) :
    (setSpannoAndBasechan span spanno basechan).spanno = s32 spanno := by
  simp only [setSpannoAndBasechan]

theorem number_from_length (basechan i : Nat) (chans : List Chan) :
    (numberFrom basechan i chans).length = chans.length := by
  induction chans generalizing i with
  | nil => rfl
  | cons c rest ih => simp only [numberFrom, List.length_cons, ih]

theorem number_from_get {basechan i k : Nat} {chans : List Chan} {c : Chan}
    (small : basechan + i + chans.length < 2 ^ 31) (here : (numberFrom basechan i chans)[k]? = some c) :
    c.channo = basechan + i + k := by
  induction chans generalizing i k with
  | nil => simp [numberFrom] at here
  | cons first rest ih =>
    simp only [List.length_cons] at small
    cases k with
    | zero =>
      simp only [numberFrom, List.getElem?_cons_zero, Option.some.injEq] at here
      subst here
      simp only
      rw [u32_of_lt (by omega) (by omega), s32_of_lt (by omega) (by omega)]
      simp
    | succ k =>
      rw [numberFrom, List.getElem?_cons_succ] at here
      have := @ih (i + 1) k (by omega) here
      omega

end Numbering

end SpanNumbers
