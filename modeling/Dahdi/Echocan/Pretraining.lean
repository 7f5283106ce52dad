import Mathlib

/-!
The training of an echo canceller: DAHDI_ECHOTRAIN, the chunks that __dahdi_ec_chunk gives to
the canceller, and what else sets its mode. The canceller itself is given by its operations.
-/
namespace Pretraining
variable {E : Type}

abbrev Octet := BitVec 8

def chunksize : Nat := 8
def maxPretraining : Int := 1000
def einval : Int := -22

/-- enum dahdi_echocan_mode, and its bit __ECHO_MODE_MUTE -/
inductive Mode where
  | idle | pretraining | starttraining | awaitingecho | training | active | fax
  deriving DecidableEq

def Mode.mute : Mode → Bool
  | .pretraining | .starttraining | .awaitingecho | .training => true
  | .idle | .active | .fax => false

structure Status where
  mode : Mode
  lastTrainTap : BitVec 32
  pretrainTimer : BitVec 32

structure Features where
  nlpToggle : Bool
  nlpAutomatic : Bool

/-- union dahdi_echocan_events -/
structure Events where
  cedTxDetected : Bool
  cedRxDetected : Bool
  cngTxDetected : Bool
  cngRxDetected : Bool
  nlpAutoDisabled : Bool
  nlpAutoEnabled : Bool
  deriving DecidableEq

def Events.zero : Events := ⟨false, false, false, false, false, false⟩

/-- struct dahdi_echocan_ops, as far as the driver calls it here. Samples are shorts. -/
structure Ops (E : Type) where
  process : Option (E → List Int → List Int → List Int × Events × E)
  events : Option (E → Events × E)
  traintap : Option (E → Int → Int → Bool × E)
  nlpToggle : E → Bool → E

structure EcState (E : Type) where
  ops : Ops E
  features : Features
  status : Status
  own : E

inductive Event where
  | txCedDetected | rxCedDetected | txCngDetected | rxCngDetected | ecNlpDisabled | ecNlpEnabled
  deriving DecidableEq

/-- A channel with the events queued on it, latest last. -/
structure Chan (E : Type) where
  ecState : Option (EcState E)
  readchunkpreec : Option (List Int)
  confmute : Bool
  queued : List Event
  xlaw : Octet → Int
  lin2x : Int → Octet

structure Chunk where
  octets : List Octet
  whole : octets.length = chunksize

section Code

def EcState.setMode (ec : EcState E) (mode : Mode) : EcState E :=
  { ec with status := { ec.status with mode } }

/-- DAHDI_ECHOTRAIN of so many milliseconds -/
def echotrain (chan : Chan E) (j : Int) : Chan E × Int :=
  if j < 0 ∨ maxPretraining ≤ j then (chan, einval)
  else match chan.ecState with
    | some ec =>
      if ec.ops.traintap.isSome then
        ({ chan with ecState := some { ec with status :=
          { ec.status with mode := .pretraining, pretrainTimer := BitVec.ofInt 32 (j <<< (3 : Nat)) } } }, 0)
      else (chan, 0)
    | none => (chan, einval)

def countdown (ec : EcState E) : EcState E :=
  if ec.status.mode = .pretraining then
    -- the timer is unsigned, so only zero is not above zero
    if ec.status.pretrainTimer - 1 ≤ 0 then
      { ec with status := { ec.status with pretrainTimer := 0, mode := .starttraining } }
    else { ec with status := { ec.status with pretrainTimer := ec.status.pretrainTimer - 1 } }
  else ec

def awaitEcho (ec : EcState E) : EcState E :=
  if ec.status.mode = .awaitingecho then
    { ec with status := { ec.status with lastTrainTap := 0, mode := .training } }
  else ec

def train (rxlin : Int) (ec : EcState E) : EcState E :=
  match ec.ops.traintap with
  | some traintap =>
    if ec.status.mode = .training then
      let (done, own) := traintap ec.own ec.status.lastTrainTap.toInt rxlin
      { ec with
        own
        status := { ec.status with
          lastTrainTap := ec.status.lastTrainTap + 1
          mode := if done then .active else ec.status.mode } }
    else ec
  | none => ec

/-- A sample while the canceller is muted for its training. -/
def trainSample (rxlin : Int) (ec : EcState E) : EcState E := train rxlin (awaitEcho (countdown ec))

def trainSamples (ec : EcState E) (rxlins : List Int) : EcState E :=
  rxlins.foldl (fun ec rxlin => trainSample rxlin ec) ec

def setEchocanFaxMode (enable : Bool) (chan : Chan E) : Chan E :=
  match chan.ecState with
  | none => chan
  | some ec =>
    if enable then
      if ec.status.mode = .fax then chan
      else if ec.status.mode ≠ .active then chan
      else if ec.features.nlpAutomatic then { chan with ecState := some (ec.setMode .fax) }
      else if ec.features.nlpToggle then
        { chan with
          queued := chan.queued ++ [.ecNlpDisabled]
          ecState := some ({ ec with own := ec.ops.nlpToggle ec.own false }.setMode .fax) }
      else { chan with ecState := some (ec.setMode .idle) }
    else
      if ec.status.mode = .active then chan
      else if ec.status.mode ≠ .fax ∧ ec.status.mode ≠ .idle then chan
      else if ec.features.nlpAutomatic then { chan with ecState := some (ec.setMode .active) }
      else if ec.features.nlpToggle then
        { chan with
          queued := chan.queued ++ [.ecNlpEnabled]
          ecState := some ({ ec with own := ec.ops.nlpToggle ec.own true }.setMode .active) }
      else { chan with ecState := some (ec.setMode .active) }

def qevent (event : Event) (chan : Chan E) : Chan E := { chan with queued := chan.queued ++ [event] }

def setMode (mode : Mode) (chan : Chan E) : Chan E :=
  { chan with ecState := chan.ecState.map fun ec => ec.setMode mode }

def cedDetected (event : Event) (chan : Chan E) : Chan E :=
  let chan := qevent event chan
  if chan.ecState.any fun ec => ec.status.mode = .active then setEchocanFaxMode true chan else chan

def processEchocanEvents (events : Events) (chan : Chan E) : Chan E :=
  let chan := if events.cedTxDetected then cedDetected .txCedDetected chan else chan
  let chan := if events.cedRxDetected then cedDetected .rxCedDetected chan else chan
  let chan := if events.cngTxDetected then qevent .txCngDetected chan else chan
  let chan := if events.cngRxDetected then qevent .rxCngDetected chan else chan
  let chan := if events.nlpAutoDisabled then setMode .fax (qevent .ecNlpDisabled chan) else chan
  if events.nlpAutoEnabled then setMode .active (qevent .ecNlpEnabled chan) else chan

/-- A chunk for a canceller that is not idle and not in training: the received samples, the
    events and the canceller. -/
def cancel (ec : EcState E) (rxlins txlins : List Int) : Option (List Int) × Events × EcState E :=
  match ec.ops.process, ec.ops.events with
  | some process, _ =>
    let (rxlins, events, own) := process ec.own rxlins txlins
    (some rxlins, events, { ec with own })
  | none, some events =>
    let (events, own) := events ec.own
    (none, events, { ec with own })
  | none, none => (none, .zero, ec)

/-- __dahdi_ec_chunk, with what is in the received chunk afterwards -/
def ecChunk (ss : Chan E) (rxchunk preecchunk txchunk : Chunk) : List Octet × Chan E :=
  let rxlins := preecchunk.octets.map ss.xlaw
  let ss := { ss with readchunkpreec := ss.readchunkpreec.map fun _ => rxlins }
  match ss.ecState with
  | none => (rxchunk.octets, ss)
  | some ec =>
    if ec.status.mode.mute then
      (List.replicate chunksize (ss.lin2x 0), { ss with ecState := some (trainSamples ec rxlins) })
    else if ec.status.mode ≠ .idle then
      let (rxlins, events, ec) := cancel ec rxlins (txchunk.octets.map ss.xlaw)
      let ss := { ss with ecState := some ec }
      ((rxlins.map fun rxlins => rxlins.map ss.lin2x).getD rxchunk.octets,
        if events = .zero then ss else processEchocanEvents events ss)
    else (rxchunk.octets, ss)

/-- The part of __dahdi_process_getaudio_chunk that mutes a chunk and sends the impulse. -/
def muteChunk (ms : Chan E) (txb : Chunk) : List Octet × Chan E :=
  if ms.confmute || ms.ecState.any fun ec => ec.status.mode.mute then
    match ms.ecState with
    | some ec =>
      if ec.status.mode = .starttraining then
        (ms.lin2x 16384 :: List.replicate (chunksize - 1) (ms.lin2x 0),
          { ms with ecState := some (ec.setMode .awaitingecho) })
      else (List.replicate chunksize (ms.lin2x 0), ms)
    | none => (List.replicate chunksize (ms.lin2x 0), ms)
  else (txb.octets, ms)

/-- DAHDI_ECHOCANCEL: no canceller, or another one that becomes active -/
def echocancel (ec : Option (EcState E)) (chan : Chan E) : Chan E :=
  { chan with ecState := ec.map fun ec => ec.setMode .active }

end Code

section Runs

/-- What comes after a request: chunks received and sent, and all else that sets the mode. -/
inductive Step (E : Type) where
  | ecChunk (rxchunk preecchunk txchunk : Chunk)
  | muteChunk (txb : Chunk)
  | setEchocanFaxMode (enable : Bool)
  | echocancel (ec : Option (EcState E))

def next (chan : Chan E) : Step E → Chan E
  | .ecChunk rxchunk preecchunk txchunk => (ecChunk chan rxchunk preecchunk txchunk).2
  | .muteChunk txb => (muteChunk chan txb).2
  | .setEchocanFaxMode enable => setEchocanFaxMode enable chan
  | .echocancel ec => echocancel ec chan

def run (chan : Chan E) (steps : List (Step E)) : Chan E := steps.foldl next chan

def samples : Step E → Nat
  | .ecChunk _ _ _ => chunksize
  | .muteChunk _ | .setEchocanFaxMode _ | .echocancel _ => 0

def mode (chan : Chan E) : Option Mode := chan.ecState.map fun ec => ec.status.mode

/-- The samples that find a canceller in its pretraining. -/
def waited (ec : EcState E) : List Int → Nat
  | [] => 0
  | rxlin :: rest => (if ec.status.mode = .pretraining then 1 else 0) + waited (trainSample rxlin ec) rest

def waitedStep (chan : Chan E) : Step E → Nat
  | .ecChunk _ preecchunk _ =>
    match chan.ecState with
    | some ec => if ec.status.mode.mute then waited ec (preecchunk.octets.map chan.xlaw) else 0
    | none => 0
  | .muteChunk _ | .setEchocanFaxMode _ | .echocancel _ => 0

def waitedRun : Chan E → List (Step E) → Nat
  | _, [] => 0
  | chan, step :: steps => waitedStep chan step + waitedRun (next chan step) steps

/-- In every run the pretraining takes no more than so many samples, is over after as many,
    and its timer is never above. -/
structure Ends (limit : Nat) (chan : Chan E) : Prop where
  taken : ∀ steps, waitedRun chan steps ≤ limit
  ended : ∀ steps, limit ≤ (steps.map samples).sum → mode (run chan steps) ≠ some .pretraining
  timer : ∀ steps ec, (run chan steps).ecState = some ec → ec.status.mode = .pretraining →
    ec.status.pretrainTimer.toNat ≤ limit

end Runs

section Sample
variable {ec : EcState E} {rest : Nat}

/-- So many samples of the pretraining are left, if it is under way. -/
def Left (rest : Nat) (ec : EcState E) : Prop :=
  ec.status.mode = .pretraining → 0 < rest ∧ ec.status.pretrainTimer.toNat = rest

theorem left_other (other : ec.status.mode ≠ .pretraining) : Left rest ec := fun here => absurd here other

theorem awaitEcho_cases (ec : EcState E) :
    awaitEcho ec = ec ∨ ec.status.mode ≠ .pretraining ∧ (awaitEcho ec).status.mode ≠ .pretraining := by
  rw [awaitEcho]
  split
  case isTrue awaits =>
    right
    rw [awaits]
    constructor
    · decide
    · dsimp only
      decide
  case isFalse => exact .inl rfl

theorem train_cases (rxlin : Int) (ec : EcState E) :
    train rxlin ec = ec ∨ ec.status.mode ≠ .pretraining ∧ (train rxlin ec).status.mode ≠ .pretraining := by
  rw [train]
  cases ec.ops.traintap with
  | none => exact .inl rfl
  | some traintap =>
    dsimp only
    split
    case isTrue training =>
      rw [training]
      refine .inr ⟨by decide, ?_⟩
      dsimp only
      split <;> decide
    case isFalse => exact .inl rfl

/-- Only the countdown matters to the pretraining. -/
theorem sample_countdown (rxlin : Int) (ec : EcState E) :
    trainSample rxlin ec = countdown ec ∨
      (countdown ec).status.mode ≠ .pretraining ∧ (trainSample rxlin ec).status.mode ≠ .pretraining := by
  rw [trainSample]
  obtain waits | ⟨before, after⟩ := awaitEcho_cases (countdown ec)
  · rw [waits]
    exact train_cases rxlin (countdown ec)
  · obtain same | ⟨_, trained⟩ := train_cases rxlin (awaitEcho (countdown ec))
    · rw [same]
      exact .inr ⟨before, after⟩
    · exact .inr ⟨before, trained⟩

theorem countdown_left (left : Left rest ec) : Left (rest - 1) (countdown ec) := by
  rw [countdown]
  split
  case isTrue pretrains =>
    obtain ⟨some_, timer⟩ := left pretrains
    split
    case isTrue =>
      apply left_other
      dsimp only
      decide
    case isFalse above =>
      intro _
      dsimp only
      bv_omega
  case isFalse other => exact left_other other

theorem sample_left (left : Left rest ec) (rxlin : Int) : Left (rest - 1) (trainSample rxlin ec) := by
  obtain same | ⟨_, other⟩ := sample_countdown rxlin ec
  · rw [same]
    exact countdown_left left
  · exact left_other other

theorem samples_left (left : Left rest ec) (rxlins : List Int) :
    Left (rest - rxlins.length) (trainSamples ec rxlins) := by
  induction rxlins generalizing ec rest with
  | nil => exact left
  | cons rxlin rxlins ih =>
    have later := ih (sample_left left rxlin)
    rw [Nat.sub_sub, Nat.add_comm 1] at later
    exact later

theorem waited_length (ec : EcState E) (rxlins : List Int) : waited ec rxlins ≤ rxlins.length := by
  induction rxlins generalizing ec with
  | nil => exact Nat.le_refl 0
  | cons rxlin rxlins ih =>
    have later := ih (trainSample rxlin ec)
    rw [waited, List.length_cons]
    split <;> omega

theorem waited_left (left : Left rest ec) (rxlins : List Int) : waited ec rxlins ≤ rest := by
  induction rxlins generalizing ec rest with
  | nil => exact Nat.zero_le rest
  | cons rxlin rxlins ih =>
    have later := ih (sample_left left rxlin)
    rw [waited]
    split
    case isTrue pretrains =>
      have some_ := (left pretrains).1
      omega
    case isFalse => omega

/-- A timer above one goes down by one. -/
theorem sample_stays (pretrains : ec.status.mode = .pretraining) (above : ec.status.pretrainTimer ≠ 1)
    (rxlin : Int) : (trainSample rxlin ec).status.mode = .pretraining ∧
      (trainSample rxlin ec).status.pretrainTimer = ec.status.pretrainTimer - 1 := by
  have counted : countdown ec =
      { ec with status := { ec.status with pretrainTimer := ec.status.pretrainTimer - 1 } } := by
    have more : ¬ ec.status.pretrainTimer - 1 ≤ 0 := by bv_omega
    rw [countdown, if_pos pretrains, if_neg more]
  obtain same | ⟨other, _⟩ := sample_countdown rxlin ec
  · rw [same, counted]
    exact ⟨pretrains, rfl⟩
  · rw [counted] at other
    exact absurd pretrains other

theorem samples_stay (pretrains : ec.status.mode = .pretraining) {rxlins : List Int}
    (enough : rxlins.length < ec.status.pretrainTimer.toNat) :
    (trainSamples ec rxlins).status.mode = .pretraining := by
  induction rxlins generalizing ec with
  | nil => exact pretrains
  | cons rxlin rxlins ih =>
    rw [List.length_cons] at enough
    obtain ⟨mode, timer⟩ := sample_stays pretrains (by bv_omega) rxlin
    have rest : rxlins.length < (trainSample rxlin ec).status.pretrainTimer.toNat := by
      rw [timer]
      bv_omega
    exact ih mode rest

end Sample

section Steps
variable {chan : Chan E} {rest : Nat}

def LeftIn (rest : Nat) (chan : Chan E) : Prop := ∀ ec, chan.ecState = some ec → Left rest ec

def Calm (chan : Chan E) : Prop := ∀ ec, chan.ecState = some ec → ec.status.mode ≠ .pretraining

theorem calm_left (calm : Calm chan) : LeftIn rest chan := fun ec here => left_other (calm ec here)

theorem calm_set {ec : EcState E} (here : chan.ecState = some ec) (other : ec.status.mode ≠ .pretraining) :
    Calm chan := by
  intro ec' here'
  rw [← Option.some.inj (here.symm.trans here')]
  exact other

theorem calm_mode {ec : EcState E} {m : Mode} (set : chan.ecState = some (ec.setMode m))
    (other : m ≠ .pretraining) : Calm chan :=
  calm_set set other

/-- Only a canceller that is active, idle or in FAX mode gets another mode. -/
theorem faxMode_cases (enable : Bool) (chan : Chan E) :
    setEchocanFaxMode enable chan = chan ∨ Calm chan ∧ Calm (setEchocanFaxMode enable chan) := by
  cases here : chan.ecState with
  | none =>
    left
    rw [setEchocanFaxMode, here]
  | some ec =>
    rw [setEchocanFaxMode, here]
    dsimp only
    split
    case isTrue =>
      split
      case isTrue => exact .inl rfl
      split
      case isTrue => exact .inl rfl
      case isFalse active =>
        have calm := calm_set here (by rw [not_not.mp active]; decide)
        split
        case isTrue => exact .inr ⟨calm, calm_mode rfl (by decide)⟩
        split
        case isTrue => exact .inr ⟨calm, calm_mode rfl (by decide)⟩
        case isFalse => exact .inr ⟨calm, calm_mode rfl (by decide)⟩
    case isFalse =>
      split
      case isTrue => exact .inl rfl
      split
      case isTrue => exact .inl rfl
      case isFalse either =>
        have calm := calm_set here (by intro pretrains; rw [pretrains] at either; exact either (by decide))
        split
        case isTrue => exact .inr ⟨calm, calm_mode rfl (by decide)⟩
        split
        case isTrue => exact .inr ⟨calm, calm_mode rfl (by decide)⟩
        case isFalse => exact .inr ⟨calm, calm_mode rfl (by decide)⟩

theorem faxMode_calm (calm : Calm chan) (enable : Bool) : Calm (setEchocanFaxMode enable chan) := by
  obtain same | ⟨_, after⟩ := faxMode_cases enable chan
  · rw [same]
    exact calm
  · exact after

theorem setMode_calm {m : Mode} (other : m ≠ .pretraining) (chan : Chan E) : Calm (setMode m chan) := by
  intro ec here
  obtain ⟨ec', _, rfl⟩ := Option.map_eq_some_iff.mp here
  exact other

theorem cedDetected_calm (calm : Calm chan) (event : Event) : Calm (cedDetected event chan) := by
  have queued : Calm (qevent event chan) := calm
  rw [cedDetected]
  split
  case isTrue => exact faxMode_calm queued true
  case isFalse => exact queued

theorem unless_calm (b : Bool) (f : Chan E → Chan E) (kept : Calm chan → Calm (f chan)) (calm : Calm chan) :
    Calm (if b then f chan else chan) := by
  split
  case isTrue => exact kept calm
  case isFalse => exact calm

theorem processEchocanEvents_calm (events : Events) (calm : Calm chan) :
    Calm (processEchocanEvents events chan) := by
  rw [processEchocanEvents]
  apply unless_calm _ (fun chan => setMode .active (qevent .ecNlpEnabled chan))
  · exact fun _ => setMode_calm (by decide) _
  apply unless_calm _ (fun chan => setMode .fax (qevent .ecNlpDisabled chan))
  · exact fun _ => setMode_calm (by decide) _
  apply unless_calm _ (qevent .rxCngDetected)
  · exact id
  apply unless_calm _ (qevent .txCngDetected)
  · exact id
  apply unless_calm _ (cedDetected .rxCedDetected)
  · exact fun calm => cedDetected_calm calm _
  apply unless_calm _ (cedDetected .txCedDetected)
  · exact fun calm => cedDetected_calm calm _
  exact calm

theorem cancel_status (ec : EcState E) (rxlins txlins : List Int) :
    (cancel ec rxlins txlins).2.2.status = ec.status := by
  rw [cancel]
  split <;> rfl

theorem mute_pretraining {ec : EcState E} (unmuted : ¬ ec.status.mode.mute) : ec.status.mode ≠ .pretraining := by
  intro pretrains
  rw [pretrains] at unmuted
  exact unmuted rfl

/-- A chunk takes as many samples of the pretraining as it has, or all that are left. -/
theorem ecChunk_left (left : LeftIn rest chan) (rxchunk preecchunk txchunk : Chunk) :
    LeftIn (rest - chunksize) (ecChunk chan rxchunk preecchunk txchunk).2 := by
  rw [ecChunk]
  dsimp only
  cases here : chan.ecState with
  | none =>
    intro ec found
    have never : (none : Option (EcState E)) = some ec := found
    cases never
  | some ec =>
    dsimp only
    split
    case isTrue =>
      intro ec' here'
      have length : (preecchunk.octets.map chan.xlaw).length = chunksize := by
        rw [List.length_map, preecchunk.whole]
      rw [← Option.some.inj here', ← length]
      exact samples_left (left ec here) _
    case isFalse unmuted =>
      have other := mute_pretraining unmuted
      split
      case isTrue =>
        apply calm_left
        have status := cancel_status ec (preecchunk.octets.map chan.xlaw) (txchunk.octets.map chan.xlaw)
        have calm : Calm { chan with
            readchunkpreec := chan.readchunkpreec.map fun _ => preecchunk.octets.map chan.xlaw
            ecState := some (cancel ec (preecchunk.octets.map chan.xlaw) (txchunk.octets.map chan.xlaw)).2.2 } :=
          calm_set rfl (by rw [status]; exact other)
        split
        case isTrue => exact calm
        case isFalse => exact processEchocanEvents_calm _ calm
      case isFalse => exact calm_left (calm_set rfl other)

theorem muteChunk_left (left : LeftIn rest chan) (txb : Chunk) : LeftIn rest (muteChunk chan txb).2 := by
  rw [muteChunk]
  split
  case isTrue =>
    cases here : chan.ecState with
    | none => exact left
    | some ec =>
      dsimp only
      split
      case isTrue => exact calm_left (calm_mode rfl (by decide))
      case isFalse => exact left
  case isFalse => exact left

theorem step_left (left : LeftIn rest chan) (step : Step E) : LeftIn (rest - samples step) (next chan step) := by
  cases step with
  | ecChunk rxchunk preecchunk txchunk => exact ecChunk_left left rxchunk preecchunk txchunk
  | muteChunk txb => exact muteChunk_left left txb
  | setEchocanFaxMode enable =>
    obtain same | ⟨_, calm⟩ := faxMode_cases enable chan
    · rw [next, same]
      exact left
    · exact calm_left calm
  | echocancel ec =>
    apply calm_left
    intro ec' here
    obtain ⟨new, _, rfl⟩ := Option.map_eq_some_iff.mp here
    exact (by decide : Mode.active ≠ .pretraining)

end Steps

section Request
variable {chan : Chan E} {rest : Nat}

theorem waitedStep_bounds (left : LeftIn rest chan) (step : Step E) :
    waitedStep chan step ≤ rest ∧ waitedStep chan step ≤ samples step := by
  cases step with
  | ecChunk rxchunk preecchunk txchunk =>
    rw [waitedStep]
    cases here : chan.ecState with
    | none => exact ⟨Nat.zero_le _, Nat.zero_le _⟩
    | some ec =>
      dsimp only
      split
      case isTrue =>
        have length := waited_length ec (preecchunk.octets.map chan.xlaw)
        rw [List.length_map, preecchunk.whole] at length
        exact ⟨waited_left (left ec here) _, length⟩
      case isFalse => exact ⟨Nat.zero_le _, Nat.zero_le _⟩
  | muteChunk txb => exact ⟨Nat.zero_le _, Nat.zero_le _⟩
  | setEchocanFaxMode enable => exact ⟨Nat.zero_le _, Nat.zero_le _⟩
  | echocancel ec => exact ⟨Nat.zero_le _, Nat.zero_le _⟩

theorem run_left (left : LeftIn rest chan) (steps : List (Step E)) :
    LeftIn (rest - (steps.map samples).sum) (run chan steps) := by
  induction steps generalizing chan rest with
  | nil => exact left
  | cons step steps ih =>
    have later := ih (step_left left step)
    rw [Nat.sub_sub] at later
    rw [List.map_cons, List.sum_cons]
    exact later

theorem waitedRun_left (left : LeftIn rest chan) (steps : List (Step E)) : waitedRun chan steps ≤ rest := by
  induction steps generalizing chan rest with
  | nil => exact Nat.zero_le rest
  | cons step steps ih =>
    have later := ih (step_left left step)
    obtain ⟨now, few⟩ := waitedStep_bounds left step
    rw [waitedRun]
    omega

/-- A pretraining with so many samples left ends after as many. -/
theorem left_ends (left : LeftIn rest chan) : Ends rest chan := by
  constructor
  · exact waitedRun_left left
  · intro steps enough pretrains
    obtain ⟨ec, here, mode⟩ := Option.map_eq_some_iff.mp pretrains
    have some_ := (run_left left steps ec here mode).1
    omega
  · intro steps ec here pretrains
    have timer := (run_left left steps ec here pretrains).2
    omega

theorem milliseconds {j : Int} (low : 0 ≤ j) (high : j < maxPretraining) :
    (BitVec.ofInt 32 (j <<< (3 : Nat))).toNat = 8 * j.toNat := by
  have eight : j <<< (3 : Nat) = j * 8 := Int.shiftLeft_eq j 3
  rw [maxPretraining] at high
  rw [eight, BitVec.toNat_ofInt]
  omega

theorem echotrain_accepted {ec : EcState E} {chan' : Chan E} {j : Int} (running : chan.ecState = some ec)
    (trains : ec.ops.traintap.isSome) (accepted : echotrain chan j = (chan', 0)) :
    0 ≤ j ∧ ∃ ec', chan'.ecState = some ec' ∧ ec'.status.mode = .pretraining ∧
      ec'.status.pretrainTimer.toNat = 8 * j.toNat := by
  rw [echotrain] at accepted
  split at accepted
  case isTrue => cases (Prod.mk.inj accepted).2
  case isFalse within =>
    rw [not_or] at within
    rw [running] at accepted
    dsimp only at accepted
    rw [if_pos trains] at accepted
    rw [← (Prod.mk.inj accepted).1]
    exact ⟨by omega, _, rfl, rfl, milliseconds (by omega) (by omega)⟩

/-- The timer of a request of zero milliseconds wraps, and the first chunk does not end it. -/
theorem zero_stays {ec : EcState E} (here : chan.ecState = some ec) (pretrains : ec.status.mode = .pretraining)
    (zero : ec.status.pretrainTimer.toNat = 0) (chunk : Chunk) :
    mode (ecChunk chan chunk chunk chunk).2 = some .pretraining := by
  have muted : ec.status.mode.mute = true := by
    rw [pretrains]
    rfl
  have length : (chunk.octets.map chan.xlaw).length = chunksize := by
    rw [List.length_map, chunk.whole]
  have stays : (trainSamples ec (chunk.octets.map chan.xlaw)).status.mode = .pretraining := by
    cases samples : chunk.octets.map chan.xlaw with
    | nil => exact pretrains
    | cons rxlin rxlins =>
      rw [samples, List.length_cons, chunksize] at length
      obtain ⟨mode, timer⟩ := sample_stays pretrains (by bv_omega) rxlin
      have rest : rxlins.length < (trainSample rxlin ec).status.pretrainTimer.toNat := by
        rw [timer]
        bv_omega
      exact samples_stay mode rest
  rw [ecChunk, mode]
  dsimp only
  rw [here]
  dsimp only
  rw [if_pos muted]
  exact congrArg some stays

def quiet : Chunk := ⟨List.replicate chunksize 0, List.length_replicate⟩

/-- The pretraining asked for ends after eight samples a millisecond, or after one sample, except
    where no time at all was asked for. -/
theorem pretraining_ends {ec : EcState E} {chan' : Chan E} {j : Int} (running : chan.ecState = some ec)
    (trains : ec.ops.traintap.isSome) (accepted : echotrain chan j = (chan', 0)) :
    Ends (max 1 (8 * j.toNat)) chan' ↔ j ≠ 0 := by
  obtain ⟨low, ec', here, pretrains, timer⟩ := echotrain_accepted running trains accepted
  constructor
  · rintro ends rfl
    have done := ends.ended [.ecChunk quiet quiet quiet] (by decide : max 1 (8 * Int.toNat 0) ≤ chunksize)
    exact done (zero_stays here pretrains timer quiet)
  · intro some_
    have most : max 1 (8 * j.toNat) = 8 * j.toNat := by omega
    rw [most]
    apply left_ends
    intro ec'' here''
    rw [← Option.some.inj (here.symm.trans here'')]
    exact fun _ => ⟨by omega, timer⟩

/-- A canceller that is trained at 64 taps. -/
def tapped : EcState Nat where
  ops := ⟨none, none, some fun taps pos _ => (decide (63 ≤ pos), taps + 1), fun taps _ => taps⟩
  features := ⟨false, false⟩
  status := ⟨.active, 0, 0⟩
  own := 0

def attached : Chan Nat := ⟨some tapped, none, false, [], fun _ => 0, fun _ => 0xff⟩

theorem pretraining_ends_one : Ends 8 (echotrain attached 1).1 :=
  (@pretraining_ends Nat attached tapped _ 1 rfl rfl rfl).mpr (by decide)

/-- A request of zero milliseconds is accepted, and the pretraining goes on. -/
theorem zero_goes_on : (echotrain attached 0).2 = 0 ∧
    mode (run (echotrain attached 0).1 [.ecChunk quiet quiet quiet]) = some .pretraining ∧
    ¬ Ends 1 (echotrain attached 0).1 := by
  have stays : mode (run (echotrain attached 0).1 [.ecChunk quiet quiet quiet]) = some .pretraining := by
    decide +kernel
  exact ⟨rfl, stays, fun ends => ends.ended [.ecChunk quiet quiet quiet] (by decide) stays⟩

end Request

end Pretraining
