import Dahdi.Library.CutText

/-!
The register commands that are written to the chip of an Astribank unit, one line each, and
the requests that parse_chip_command of card_global.c makes of them.
-/
namespace ChipCommand
open CutText

def MAX_PROC_WRITE : Nat := 100
def MAX_ARGS : Nat := 10
def PORT_BROADCAST : Nat := 255
def EBADR : Int := 53

abbrev Word : Type := List Char

section Numbers

def digitValue (c : Char) : Option Nat :=
  if '0' ≤ c ∧ c ≤ '9' then some (c.toNat - '0'.toNat)
  else if 'a' ≤ c ∧ c ≤ 'f' then some (c.toNat - 'a'.toNat + 10)
  else if 'A' ≤ c ∧ c ≤ 'F' then some (c.toNat - 'A'.toNat + 10)
  else none

/-- The value of some digits behind a value, and what stands behind the digits. -/
def readDigits (value : Nat) : Word → Nat × Word
  | [] => (value, [])
  | c :: rest =>
    match digitValue c with
    | some d => readDigits (value * 16 + d) rest
    | none => (value, c :: rest)

/-- The text without an 0x before it. -/
def stripPrefix : Word → Word
  | '0' :: 'x' :: rest => rest
  | '0' :: 'X' :: rest => rest
  | w => w

/-- simple_strtoul of the kernel, to the base 16: an unsigned long and where it stopped. -/
def simpleStrtoul (buf : Word) : Nat × Word :=
  ((readDigits 0 (stripPrefix buf)).1 % 2 ^ 64, (readDigits 0 (stripPrefix buf)).2)

/-- The unsigned that parse_hexbyte gets of a word that is read to its end. -/
def narrowed (buf : Word) : Option Nat :=
  if (simpleStrtoul buf).2 = [] then some ((simpleStrtoul buf).1 % 2 ^ 32) else none

def parseHexbyte (buf : Word) : Option Nat := (narrowed buf).filter fun val => decide (val ≤ 0xff)

end Numbers

section Requests

/-- The fields of a register request that is not multibyte. -/
structure RegFields where
  doDatah : Bool
  doSubreg : Bool
  readRequest : Bool
  allPortsBroadcast : Bool
  regnum : Nat
  subreg : Nat
  dataLow : Nat
  dataHigh : Nat
  deriving DecidableEq, Repr

/-- reg_cmd_t; portnum has three bits. -/
structure RegCmd where
  bytes : Nat
  eoframe : Bool
  portnum : Fin 8
  isMultibyte : Bool
  alt : Option RegFields
  deriving DecidableEq, Repr

/-- send_magic_request -/
def magicRequest (portno : Nat) (eoftx : Bool) : RegCmd :=
  ⟨0, eoftx, Fin.ofNat 8 portno, true, none⟩

/-- xpp_register_request -/
def registerRequest (portno : Nat) (writing : Bool) (regnum : Nat) (doSubreg : Bool)
    (subreg dataLow : Nat) (doDatah : Bool) (dataHigh : Nat) : RegCmd where
  bytes := 5
  eoframe := false
  portnum := if portno = PORT_BROADCAST then 0 else Fin.ofNat 8 portno
  isMultibyte := false
  alt := some {
    doDatah := doDatah
    doSubreg := doSubreg
    readRequest := !writing
    allPortsBroadcast := decide (portno = PORT_BROADCAST)
    regnum := regnum
    subreg := subreg
    dataLow := dataLow
    dataHigh := dataHigh }

end Requests

section Execute

def portOf (w : Word) : Option Nat :=
  if w = ['*'] then some PORT_BROADCAST
  else (parseHexbyte w).filter fun portno => decide (portno < 8)

/-- The addressing modes; 'I' is the deprecated name of 'S'. -/
inductive Mode where
  | subreg
  | direct
  | magic (eoftx : Bool)
  deriving DecidableEq

def writingOf (op : Char) : Option Bool :=
  match op with
  | 'W' => some true
  | 'R' => some false
  | _ => none

def modeOf (writing : Bool) (addrMode : Char) : Option Mode :=
  match addrMode with
  | 'I' => some .subreg
  | 'S' => some .subreg
  | 'D' => some .direct
  | 'M' => if writing then some (.magic false) else none
  | 'm' => if writing then some (.magic true) else none
  | _ => none

/-- num_args -/
def numArgs (writing : Bool) (mode : Mode) : Nat :=
  let numArgs := if writing then 3 else 2
  match mode with
  | .subreg => numArgs + 2
  | .direct => numArgs + 1
  | .magic _ => numArgs - 1

/-- The byte of the next argument, and the arguments behind it. -/
def nextByte : List Word → Option (Nat × List Word)
  | [] => none
  | w :: rest => (parseHexbyte w).map fun val => (val, rest)

/-- The last argument, data_high, if there is one. -/
def dataHigh : List Word → Option (Bool × Nat)
  | [] => some (false, 0)
  | [w] => (parseHexbyte w).map fun val => (true, val)
  | _ :: _ :: _ => none

/-- execute_chip_command at the arguments of a register command. -/
def registerCommand (portno : Nat) (writing doSubreg : Bool) (args : List Word) : Option RegCmd :=
  (nextByte args).bind fun (regnum, args) =>
  (if doSubreg then nextByte args else some (0, args)).bind fun (subreg, args) =>
  (if writing then nextByte args else some (0, args)).bind fun (dataLow, args) =>
  (dataHigh args).map fun (doDatah, dataHigh) =>
    registerRequest portno writing regnum doSubreg subreg dataLow doDatah dataHigh

/-- execute_chip_command as far as the request that it sends; every error is -EBADR. -/
def executeChipCommand (argv : List Word) : Option RegCmd :=
  match argv with
  | port :: op :: args =>
    (portOf port).bind fun portno =>
    match op with
    | [c, addrMode] =>
      (writingOf c).bind fun writing =>
      (modeOf writing addrMode).bind fun mode =>
      if argv.length < numArgs writing mode then none
      else
        match mode with
        | .magic eoftx => if args ≠ [] then none else some (magicRequest portno eoftx)
        | .subreg => registerCommand portno writing true args
        | .direct => registerCommand portno writing false args
    | _ => none
  | _ => none

end Execute

section Parse

def isBlank (c : Char) : Bool := c == ' ' || c == '\t'

/-- strsep with " \t": the text before the first delimiter, and the one behind it. -/
def strsep : Word → Word × Option Word
  | [] => ([], none)
  | c :: s => if isBlank c then ([], some s) else (c :: (strsep s).1, (strsep s).2)

theorem strsep_shorter {s rest : Word} (found : (strsep s).2 = some rest) :
    rest.length < s.length := by
  induction s with
  | nil => cases found
  | cons c s ih =>
    rw [strsep] at found
    split at found
    · rw [← Option.some.inj found]
      exact Nat.lt_succ_self _
    · exact Nat.lt_succ_of_lt (ih found)

/-- The loop over the words: argv, and the word that it stopped at if there were too many. -/
def splitWords (str : Option Word) (argv : List Word) : List Word × Option Word :=
  match str with
  | none => (argv, none)
  | some s =>
    if argv.length < MAX_ARGS then
      splitWords (strsep s).2 (if (strsep s).1 ≠ [] then argv ++ [(strsep s).1] else argv)
    else (argv, some (strsep s).1)
termination_by str.elim 0 fun s => s.length + 1
decreasing_by
  cases found : (strsep s).2 with
  | none => exact Nat.succ_pos _
  | some rest => exact Nat.succ_lt_succ (strsep_shorter found)

/-- What a command line has led to: the value returned and the requests sent. -/
structure Done where
  ret : Int
  sent : List RegCmd

/-- parse_chip_command of a connected bus; `send` is what sending a request returns. -/
def parseChipCommand (send : RegCmd → Int) (cmdline : Word) : Done :=
  let buf := cmdline.take (MAX_PROC_WRITE - 1)
  let buf := (cut ';' (cut '#' buf).1).1
  let (argv, p) := splitWords (some (buf.dropWhile isBlank)) []
  if p.isSome then ⟨-EBADR, []⟩
  else if argv = [] then ⟨0, []⟩
  else
    match executeChipCommand argv with
    | some cmd => ⟨send cmd, [cmd]⟩
    | none => ⟨-EBADR, []⟩

end Parse

section Language

/-- The words of a line: up to the first '#' or ';', between blanks and tabs. -/
def words (line : Word) : List Word :=
  ((line.takeWhile fun c => decide (c ≠ '#' ∧ c ≠ ';')).splitOnP isBlank).filter fun w =>
    decide (w ≠ [])

/-- A hexadecimal number: an optional 0x, and digits only. -/
def hexNumber (w : Word) : Option Nat :=
  if stripPrefix w ≠ [] ∧ (readDigits 0 (stripPrefix w)).2 = [] then
    some (readDigits 0 (stripPrefix w)).1
  else none

/-- What a line asks for; the port none stands for '*'. -/
inductive Command where
  | magic (port : Option Nat) (eoftx : Bool)
  | register (port : Option Nat) (writing : Bool) (regnum : Nat) (subreg dataLow dataHigh : Option Nat)
  deriving DecidableEq

inductive Operation where
  | magic (eoftx : Bool)
  | register (writing doSubreg : Bool)

def operation (op : Word) : Option Operation :=
  match op with
  | ['W', 'D'] => some (.register true false)
  | ['R', 'D'] => some (.register false false)
  | ['W', 'S'] => some (.register true true)
  | ['W', 'I'] => some (.register true true)
  | ['R', 'S'] => some (.register false true)
  | ['R', 'I'] => some (.register false true)
  | ['W', 'M'] => some (.magic false)
  | ['W', 'm'] => some (.magic true)
  | _ => none

variable (num : Word → Option Nat)

def byte (w : Word) : Option Nat := (num w).filter fun val => decide (val ≤ 0xff)

def port (w : Word) : Option (Option Nat) :=
  if w = ['*'] then some none
  else ((num w).filter fun val => decide (val < 8)).map some

/-- The register command of an operation with these bytes, if they are as many as it has. -/
def registerForm (port : Option Nat) (writing doSubreg : Bool) (bytes : List Nat) : Option Command :=
  match writing, doSubreg, bytes with
  | false, false, [reg] => some (.register port false reg none none none)
  | false, false, [reg, high] => some (.register port false reg none none (some high))
  | false, true, [reg, sub] => some (.register port false reg (some sub) none none)
  | false, true, [reg, sub, high] => some (.register port false reg (some sub) none (some high))
  | true, false, [reg, low] => some (.register port true reg none (some low) none)
  | true, false, [reg, low, high] => some (.register port true reg none (some low) (some high))
  | true, true, [reg, sub, low] => some (.register port true reg (some sub) (some low) none)
  | true, true, [reg, sub, low, high] =>
    some (.register port true reg (some sub) (some low) (some high))
  | _, _, _ => none

/-- The command of some words, whose numbers `num` reads. -/
def form : List Word → Option Command
  | p :: op :: args =>
    (port num p).bind fun port =>
    (operation op).bind fun
      | .magic eoftx => if args = [] then some (.magic port eoftx) else none
      | .register writing doSubreg =>
        (args.mapM (byte num)).bind fun bytes => registerForm port writing doSubreg bytes
  | _ => none

end Language

section Requested

/-- The request that the code makes of a command. -/
def requestOf : Command → RegCmd
  | .magic port eoftx => magicRequest (port.getD PORT_BROADCAST) eoftx
  | .register port writing regnum subreg dataLow dataHigh =>
    registerRequest (port.getD PORT_BROADCAST) writing regnum subreg.isSome (subreg.getD 0)
      (dataLow.getD 0) dataHigh.isSome (dataHigh.getD 0)

theorem parseHexbyte_eq (w : Word) : parseHexbyte w = byte narrowed w := rfl

/-- The arguments of a register command, taken one after the other. -/
theorem registerCommand_form (port : Option Nat) (writing doSubreg : Bool) (args : List Word) :
    (if args.length + 2 < numArgs writing (if doSubreg then .subreg else .direct) then none
      else registerCommand (port.getD PORT_BROADCAST) writing doSubreg args) =
      ((args.mapM (byte narrowed)).bind fun bytes =>
        registerForm port writing doSubreg bytes).map requestOf := by
  -- no command has more than four bytes behind its operation
  cases writing <;> cases doSubreg <;>
    rcases args with _ | ⟨a, _ | ⟨b, _ | ⟨c, _ | ⟨d, _ | ⟨e, rest⟩⟩⟩⟩⟩ <;>
    simp [numArgs, registerCommand, nextByte, dataHigh, parseHexbyte_eq, registerForm, requestOf,
      Function.comp_def, Option.bind_assoc, Option.map_eq_bind]

theorem portOf_port (w : Word) :
    portOf w = (port narrowed w).map fun p => p.getD PORT_BROADCAST := by
  rw [portOf, port]
  split
  · rfl
  · have small : (parseHexbyte w).filter (fun portno => decide (portno < 8)) =
        (narrowed w).filter fun val => decide (val < 8) := by
      rw [parseHexbyte, Option.filter_filter]
      refine congrArg (Option.filter · (narrowed w)) (funext fun val => ?_)
      rw [← Bool.decide_and]
      exact decide_eq_decide.mpr (by omega)
    rw [small, Option.map_map]
    cases (narrowed w).filter fun val => decide (val < 8) <;> rfl

def Mode.operation (writing : Bool) : Mode → Operation
  | .subreg => .register writing true
  | .direct => .register writing false
  | .magic eoftx => .magic eoftx

theorem operation_pair (c m : Char) :
    operation [c, m] = (writingOf c).bind fun writing =>
      (modeOf writing m).map (Mode.operation writing) := by
  by_cases write : c = 'W'
  · subst write
    by_cases m = 'I' ∨ m = 'S' ∨ m = 'D' ∨ m = 'M' ∨ m = 'm'
    case pos known =>
      rcases known with rfl | rfl | rfl | rfl | rfl <;> rfl
    case neg unknown =>
      simp only [not_or] at unknown
      simp [operation, writingOf, modeOf, unknown]
  · by_cases read : c = 'R'
    · subst read
      by_cases m = 'I' ∨ m = 'S' ∨ m = 'D' ∨ m = 'M' ∨ m = 'm'
      case pos known =>
        rcases known with rfl | rfl | rfl | rfl | rfl <;> rfl
      case neg unknown =>
        simp only [not_or] at unknown
        simp [operation, writingOf, modeOf, unknown]
    · simp [operation, writingOf, write, read]

theorem operation_length {op : Word} (other : op.length ≠ 2) : operation op = none := by
  unfold operation
  split
  all_goals first
    | exact absurd rfl other
    | rfl

theorem modeOf_magic {writing eoftx : Bool} {m : Char}
    (found : modeOf writing m = some (.magic eoftx)) : writing = true := by
  cases writing with
  | true => rfl
  | false =>
    unfold modeOf at found
    split at found <;> cases found

/-- The arguments behind the operation, in the mode that the operation asks for. -/
theorem operands_form (port : Option Nat) (args : List Word) {writing : Bool} {mode : Mode}
    (possible : ∀ eoftx, mode = .magic eoftx → writing = true) :
    (if args.length + 2 < numArgs writing mode then none
      else
        match mode with
        | .magic eoftx =>
          if args ≠ [] then none else some (magicRequest (port.getD PORT_BROADCAST) eoftx)
        | .subreg => registerCommand (port.getD PORT_BROADCAST) writing true args
        | .direct => registerCommand (port.getD PORT_BROADCAST) writing false args) =
      (match mode.operation writing with
        | .magic eoftx => if args = [] then some (Command.magic port eoftx) else none
        | .register writing doSubreg =>
          (args.mapM (byte narrowed)).bind fun bytes =>
            registerForm port writing doSubreg bytes).map requestOf := by
  cases mode with
  | subreg => exact registerCommand_form port writing true args
  | direct => exact registerCommand_form port writing false args
  | magic eoftx =>
    rw [possible eoftx rfl, if_neg (by simp [numArgs])]
    cases args <;> rfl

/-- What execute_chip_command does is told by the form of the words. -/
theorem execute_form (argv : List Word) :
    executeChipCommand argv = (form narrowed argv).map requestOf := by
  rcases argv with _ | ⟨p, _ | ⟨op, args⟩⟩
  · rfl
  · rfl
  · rw [executeChipCommand, form, portOf_port]
    cases port narrowed p with
    | none => rfl
    | some port =>
      rw [Option.map_some, Option.bind_some, Option.bind_some]
      rcases op with _ | ⟨c, _ | ⟨m, _ | ⟨extra, more⟩⟩⟩
      · rfl
      · rw [operation_length (by simp)]
        rfl
      · rw [operation_pair]
        dsimp only
        cases writingOf c with
        | none => rfl
        | some writing =>
          rw [Option.bind_some, Option.bind_some]
          cases found : modeOf writing m with
          | none => rfl
          | some mode =>
            rw [Option.bind_some, Option.map_some, Option.bind_some]
            refine operands_form port args fun eoftx magic => ?_
            rw [magic] at found
            exact modeOf_magic found
      · rw [operation_length (by simp)]
        rfl

end Requested

section Line
variable {num num' : Word → Option Nat} {cmd : Command} {line : Word}

theorem mapM_length {f : Word → Option Nat} {args : List Word} {bytes : List Nat}
    (read : args.mapM f = some bytes) : bytes.length = args.length := by
  induction args generalizing bytes with
  | nil =>
    rw [← Option.some.inj read]
    rfl
  | cons a args ih =>
    rw [List.mapM_cons] at read
    obtain ⟨b, _, later⟩ := Option.bind_eq_some_iff.mp read
    obtain ⟨bs, rest, same⟩ := Option.bind_eq_some_iff.mp later
    rw [← Option.some.inj same, List.length_cons, List.length_cons, ih rest]

theorem registerForm_length {port : Option Nat} {writing doSubreg : Bool} {bytes : List Nat}
    (found : registerForm port writing doSubreg bytes = some cmd) : bytes.length ≤ 4 := by
  unfold registerForm at found
  split at found
  all_goals first
    | exact Nat.le_of_ble_eq_true rfl
    | cases found

/-- No command has more than six words. -/
theorem form_length {argv : List Word} (found : form num argv = some cmd) : argv.length ≤ 6 := by
  rcases argv with _ | ⟨p, _ | ⟨op, args⟩⟩
  · cases found
  · cases found
  · obtain ⟨port, _, later⟩ := Option.bind_eq_some_iff.mp found
    obtain ⟨o, _, last⟩ := Option.bind_eq_some_iff.mp later
    cases o with
    | magic eoftx =>
      dsimp only at last
      split at last
      case isTrue none_ =>
        rw [none_, List.length_cons, List.length_cons, List.length_nil]
        omega
      case isFalse => cases last
    | register writing doSubreg =>
      obtain ⟨bytes, read, taken⟩ := Option.bind_eq_some_iff.mp last
      have few := registerForm_length taken
      rw [mapM_length read] at few
      rw [List.length_cons, List.length_cons]
      omega

/-- The words that are read as numbers. -/
def numbers : List Word → List Word
  | p :: _ :: args => (if p = ['*'] then [] else [p]) ++ args
  | _ => []

theorem byte_congr {w : Word} (same : num w = num' w) : byte num w = byte num' w := by
  rw [byte, byte, same]

theorem mapM_congr {args : List Word} (same : ∀ w ∈ args, num w = num' w) :
    args.mapM (byte num) = args.mapM (byte num') := by
  induction args with
  | nil => rfl
  | cons a args ih =>
    rw [List.mapM_cons, List.mapM_cons, byte_congr (same a List.mem_cons_self),
      ih fun w member => same w (List.mem_cons_of_mem _ member)]

/-- Only the reading of the numbers counts. -/
theorem form_congr {argv : List Word} (same : ∀ w ∈ numbers argv, num w = num' w) :
    form num argv = form num' argv := by
  rcases argv with _ | ⟨p, _ | ⟨op, args⟩⟩
  · rfl
  · rfl
  · have ports : port num p = port num' p := by
      rw [port, port]
      split
      · rfl
      · case isFalse other =>
          rw [same p (List.mem_append_left _ (by rw [if_neg other]; exact List.mem_singleton_self p))]
    rw [form, form, ports, mapM_congr fun w member => same w (List.mem_append_right _ member)]

theorem mapM_bytes {args : List Word} {bytes : List Nat} (read : args.mapM (byte num) = some bytes) :
    ∀ w ∈ args, ∃ val, num w = some val ∧ val ≤ 0xff := by
  induction args generalizing bytes with
  | nil =>
    intro w member
    cases member
  | cons a args ih =>
    rw [List.mapM_cons] at read
    obtain ⟨b, first, later⟩ := Option.bind_eq_some_iff.mp read
    obtain ⟨bs, rest, _⟩ := Option.bind_eq_some_iff.mp later
    intro w member
    rcases List.mem_cons.mp member with rfl | behind
    · obtain ⟨found, small⟩ := Option.filter_eq_some_iff.mp first
      exact ⟨b, found, of_decide_eq_true small⟩
    · exact ih rest w behind

/-- The numbers of a command are bytes. -/
theorem form_numbers {argv : List Word} (found : form num argv = some cmd) :
    ∀ w ∈ numbers argv, ∃ val, num w = some val ∧ val ≤ 0xff := by
  rcases argv with _ | ⟨p, _ | ⟨op, args⟩⟩
  · cases found
  · cases found
  · obtain ⟨port, first, later⟩ := Option.bind_eq_some_iff.mp found
    obtain ⟨o, _, last⟩ := Option.bind_eq_some_iff.mp later
    intro w member
    rcases List.mem_append.mp member with portWord | operand
    · rw [ChipCommand.port] at first
      split at portWord
      case isTrue => cases portWord
      case isFalse other =>
        rw [if_neg other] at first
        obtain ⟨val, small, _⟩ := Option.map_eq_some_iff.mp first
        obtain ⟨read, below⟩ := Option.filter_eq_some_iff.mp small
        rw [List.mem_singleton.mp portWord]
        have := of_decide_eq_true below
        exact ⟨val, read, by omega⟩
    · cases o with
      | magic eoftx =>
        dsimp only at last
        split at last
        case isTrue none_ =>
          rw [none_] at operand
          cases operand
        case isFalse => cases last
      | register writing doSubreg =>
        obtain ⟨bytes, read, _⟩ := Option.bind_eq_some_iff.mp last
        exact mapM_bytes read w operand

theorem strsep_splitOnP (s : Word) :
    s.splitOnP isBlank = (strsep s).1 :: (match (strsep s).2 with
      | none => []
      | some rest => rest.splitOnP isBlank) := by
  induction s with
  | nil => rfl
  | cons c s ih =>
    rw [List.splitOnP_cons_eq_if_modifyHead, strsep]
    split
    · rfl
    · rw [ih]
      rfl

/-- The words found so far and those still to come. -/
def allWords (str : Option Word) (argv : List Word) : List Word :=
  argv ++ match str with
    | none => []
    | some s => (s.splitOnP isBlank).filter fun w => decide (w ≠ [])

theorem allWords_step (s : Word) (argv : List Word) :
    allWords (strsep s).2 (if (strsep s).1 ≠ [] then argv ++ [(strsep s).1] else argv) =
      allWords (some s) argv := by
  rw [allWords.eq_def (some s), allWords.eq_def]
  dsimp only
  rw [strsep_splitOnP s, List.filter_cons]
  by_cases empty : (strsep s).1 = []
  · rw [if_neg (not_not_intro empty), if_neg (by simp [empty])]
    cases (strsep s).2 <;> rfl
  · rw [if_pos empty, if_pos (by simp [empty]), List.append_assoc]
    cases (strsep s).2 <;> rfl

/-- The loop finds all words, or stops at too many. -/
theorem splitWords_all (str : Option Word) (argv : List Word) :
    (splitWords str argv).2 = none ∧ (splitWords str argv).1 = allWords str argv ∨
      (splitWords str argv).2.isSome = true ∧ MAX_ARGS ≤ (allWords str argv).length := by
  induction str, argv using splitWords.induct with
  | case1 argv =>
    rw [splitWords]
    exact Or.inl ⟨rfl, (List.append_nil argv).symm⟩
  | case2 argv s room ih =>
    rw [splitWords, if_pos room, ← allWords_step s argv]
    exact ih
  | case3 argv s full =>
    rw [splitWords, if_neg full]
    refine Or.inr ⟨rfl, ?_⟩
    rw [allWords, List.length_append]
    omega

theorem trimmed_words (s : Word) :
    ((s.dropWhile isBlank).splitOnP isBlank).filter (fun w => decide (w ≠ [])) =
      (s.splitOnP isBlank).filter fun w => decide (w ≠ []) := by
  induction s with
  | nil => rfl
  | cons c s ih =>
    rw [List.dropWhile_cons]
    split
    case isTrue blank =>
      rw [ih, List.splitOnP_cons_eq_if_modifyHead, if_pos blank]
      rfl
    case isFalse => rfl

theorem cut_takeWhile (sep : Char) (text : Word) :
    (cut sep text).1 = text.takeWhile fun c => decide (c ≠ sep) := by
  induction text with
  | nil => rfl
  | cons c text ih =>
    rw [cut, List.takeWhile_cons]
    by_cases here : c = sep
    · rw [if_pos here, if_neg (by simp [here])]
    · rw [if_neg here, if_pos (by simp [here]), ih]

/-- What stands before both kinds of comments. -/
theorem comment_cut (line : Word) :
    (cut ';' (cut '#' line).1).1 = line.takeWhile fun c => decide (c ≠ '#' ∧ c ≠ ';') := by
  rw [cut_takeWhile, cut_takeWhile, List.takeWhile_takeWhile]
  refine congrArg (List.takeWhile · line) (funext fun c => ?_)
  rw [decide_eq_decide, decide_eq_true_eq, decide_eq_true_eq]
  exact and_comm

/-- The requests of a line and the value returned, told by the form of its words. -/
theorem parse_form (send : RegCmd → Int) (short : line.length < MAX_PROC_WRITE) :
    parseChipCommand send line =
      match form narrowed (words line) with
      | some cmd => ⟨send (requestOf cmd), [requestOf cmd]⟩
      | none => ⟨if words line = [] then 0 else -EBADR, []⟩ := by
  have whole : line.take (MAX_PROC_WRITE - 1) = line := List.take_of_length_le (by omega)
  have all : allWords (some ((line.takeWhile fun c => decide (c ≠ '#' ∧ c ≠ ';')).dropWhile isBlank)) [] =
      words line := by
    rw [allWords, List.nil_append]
    exact trimmed_words _
  have split_ := splitWords_all
    (some ((line.takeWhile fun c => decide (c ≠ '#' ∧ c ≠ ';')).dropWhile isBlank)) []
  rw [all] at split_
  rw [parseChipCommand]
  dsimp only
  rw [whole, comment_cut]
  rcases split_ with ⟨none_, found⟩ | ⟨some_, many⟩
  · rw [none_, found, execute_form]
    by_cases empty : words line = []
    · rw [empty]
      rfl
    · rw [if_neg (by decide), if_neg empty, if_neg empty]
      cases form narrowed (words line) <;> rfl
  · rw [if_pos some_]
    have unformed : form narrowed (words line) = none := by
      cases found : form narrowed (words line) with
      | none => rfl
      | some cmd =>
        have few := form_length found
        have : MAX_ARGS = 10 := rfl
        omega
    have nonempty : words line ≠ [] := by
      intro empty
      rw [empty] at many
      exact absurd many (by decide)
    rw [unformed, if_neg nonempty]

end Line

section Exact
variable {line : Word}

/-- The values of a command in a request. -/
def Carries : Command → RegCmd → Prop
  | .magic port eoftx, r =>
    r.isMultibyte = true ∧ r.bytes = 0 ∧ r.eoframe = eoftx ∧ port = some r.portnum.val
  | .register port writing regnum subreg dataLow dataHigh, r =>
    r.isMultibyte = false ∧ r.eoframe = false ∧ ∃ a, r.alt = some a ∧
      a.allPortsBroadcast = port.isNone ∧ (∀ n, port = some n → r.portnum.val = n) ∧
      a.readRequest = !writing ∧ a.regnum = regnum ∧ a.doSubreg = subreg.isSome ∧
      (∀ n, subreg = some n → a.subreg = n) ∧ (∀ n, dataLow = some n → a.dataLow = n) ∧
      a.doDatah = dataHigh.isSome ∧ ∀ n, dataHigh = some n → a.dataHigh = n

/-- One request with the values of the line if it has the form of a command, none
    otherwise, and success without words. -/
structure Correct (send : RegCmd → Int) (line : Word) : Prop where
  formed : ∀ cmd, form hexNumber (words line) = some cmd →
    ∃ r, (parseChipCommand send line).sent = [r] ∧ Carries cmd r
  malformed : form hexNumber (words line) = none → (parseChipCommand send line).sent = []
  empty : words line = [] →
    (parseChipCommand send line).sent = [] ∧ (parseChipCommand send line).ret = 0

/-- A number with digits that fits an unsigned. -/
def Fits (w : Word) : Prop := ∃ n, hexNumber w = some n ∧ n < 2 ^ 32

/-- A line that has the form of a command when its numbers are taken modulo 2^32 has only
    numbers below 2^32, each with a digit, and does not address all ports with WM or Wm. -/
def Plain (line : Word) : Prop :=
  ∀ cmd, form narrowed (words line) = some cmd →
    (∀ w ∈ numbers (words line), Fits w) ∧ ∀ eoftx, cmd ≠ .magic none eoftx

theorem narrowed_of_fits {w : Word} (fits : Fits w) : narrowed w = hexNumber w := by
  obtain ⟨n, read, small⟩ := fits
  rw [hexNumber] at read ⊢
  split at read
  case isTrue digits =>
    have value := Option.some.inj read
    rw [if_pos digits, narrowed, simpleStrtoul, if_pos digits.2]
    refine congrArg some ?_
    dsimp only
    omega
  case isFalse => cases read

theorem byte_fits {w : Word} {n : Nat} (read : hexNumber w = some n) (small : n ≤ 0xff) : Fits w :=
  ⟨n, read, by omega⟩

def Command.port : Command → Option Nat
  | .magic port _ => port
  | .register port _ _ _ _ _ => port

theorem registerForm_port {port : Option Nat} {writing doSubreg : Bool} {bytes : List Nat}
    {cmd : Command} (found : registerForm port writing doSubreg bytes = some cmd) :
    cmd.port = port := by
  unfold registerForm at found
  split at found
  all_goals first
    | (rw [← Option.some.inj found]; rfl)
    | cases found

theorem form_port {num : Word → Option Nat} {argv : List Word} {n : Nat} {cmd : Command}
    (found : form num argv = some cmd) (named : cmd.port = some n) : n < 8 := by
  rcases argv with _ | ⟨p, _ | ⟨op, args⟩⟩
  · cases found
  · cases found
  · obtain ⟨port, first, later⟩ := Option.bind_eq_some_iff.mp found
    obtain ⟨o, _, last⟩ := Option.bind_eq_some_iff.mp later
    have same : cmd.port = port := by
      cases o with
      | magic eoftx =>
        dsimp only at last
        split at last
        case isTrue =>
          rw [← Option.some.inj last]
          rfl
        case isFalse => cases last
      | register writing doSubreg =>
        obtain ⟨bytes, _, taken⟩ := Option.bind_eq_some_iff.mp last
        exact registerForm_port taken
    rw [same] at named
    rw [ChipCommand.port, named] at first
    split at first
    case isTrue => cases first
    case isFalse =>
      obtain ⟨val, small, value⟩ := Option.map_eq_some_iff.mp first
      obtain ⟨_, below⟩ := Option.filter_eq_some_iff.mp small
      rw [← Option.some.inj value]
      exact of_decide_eq_true below

/-- The request carries the values, unless it is a magic one for all ports. -/
theorem request_carries {cmd : Command} (ports : ∀ n, cmd.port = some n → n < 8)
    (single : ∀ eoftx, cmd ≠ .magic none eoftx) : Carries cmd (requestOf cmd) := by
  cases cmd with
  | magic port eoftx =>
    cases port with
    | none => exact absurd rfl (single eoftx)
    | some n =>
      refine ⟨rfl, rfl, rfl, ?_⟩
      have below := ports n rfl
      exact congrArg some (Nat.mod_eq_of_lt below).symm
  | register port writing regnum subreg dataLow dataHigh =>
    refine ⟨rfl, rfl, _, rfl, ?_, ?_, rfl, rfl, rfl, ?_, ?_, rfl, ?_⟩
    · cases port with
      | none => rfl
      | some n =>
        have below := ports n rfl
        have other : n ≠ PORT_BROADCAST := by
          rw [PORT_BROADCAST]
          omega
        exact decide_eq_false other
    · intro n named
      have below := ports n named
      have other : n ≠ PORT_BROADCAST := by
        rw [PORT_BROADCAST]
        omega
      rw [named, requestOf, registerRequest]
      dsimp only
      rw [Option.getD_some, if_neg other]
      exact Nat.mod_eq_of_lt below
    · intro n named
      rw [named]
      rfl
    · intro n named
      rw [named]
      rfl
    · intro n named
      rw [named]
      rfl

theorem magic_uncarried (eoftx : Bool) (r : RegCmd) : ¬ Carries (.magic none eoftx) r := by
  rintro ⟨_, _, _, lost⟩
  cases lost

/-- Lines shorter than the copy are parsed as the language says if and only if they are
    plain. -/
theorem chip_commands (send : RegCmd → Int) (line : Word) (short : line.length < MAX_PROC_WRITE) :
    Correct send line ↔ Plain line := by
  have parsed := parse_form send short
  constructor
  · intro correct cmd found
    rw [found] at parsed
    dsimp only at parsed
    cases formed : form hexNumber (words line) with
    | none =>
      have sent := correct.malformed formed
      rw [parsed] at sent
      cases sent
    | some cmd' =>
      have fits : ∀ w ∈ numbers (words line), Fits w := by
        intro w member
        obtain ⟨val, read, small⟩ := form_numbers formed w member
        exact byte_fits read small
      have same := form_congr fun w member => narrowed_of_fits (fits w member)
      rw [found, formed] at same
      obtain rfl : cmd = cmd' := Option.some.inj same
      refine ⟨fits, fun eoftx all => ?_⟩
      obtain ⟨r, _, carried⟩ := correct.formed cmd formed
      rw [all] at carried
      exact magic_uncarried eoftx r carried
  · intro plain
    refine ⟨fun cmd formed => ?_, fun formed => ?_, fun empty => ?_⟩
    · have fits : ∀ w ∈ numbers (words line), Fits w := by
        intro w member
        obtain ⟨val, read, small⟩ := form_numbers formed w member
        exact byte_fits read small
      have same := form_congr fun w member => narrowed_of_fits (fits w member)
      have found := same.trans formed
      rw [found] at parsed
      refine ⟨requestOf cmd, by rw [parsed], ?_⟩
      exact request_carries (fun n named => form_port found named) (plain cmd found).2
    · cases found : form narrowed (words line) with
      | none =>
        rw [found] at parsed
        rw [parsed]
      | some cmd =>
        have same := form_congr fun w member => narrowed_of_fits ((plain cmd found).1 w member)
        rw [found, formed] at same
        cases same
    · rw [parsed, empty]
      exact ⟨rfl, rfl⟩

def accepted (r : RegCmd) : Int := (r.bytes : Int)

/-- Register 1 of port 3 is written. -/
def plainLine : Word := "3 WD 1 2f # gain".toList

theorem chip_commands_plain : Correct accepted plainLine ↔ Plain plainLine :=
  chip_commands accepted plainLine (by decide)

/-- The register number 100000001 is taken for 1. -/
def wideLine : Word := "0 RD 100000001".toList

theorem wide_number_sent : ¬ Correct accepted wideLine := by
  intro correct
  have sent := correct.malformed (by decide +kernel)
  have parsed := @parse_form wideLine accepted (by decide)
  rw [parsed] at sent
  exact absurd sent (by decide +kernel)

end Exact

end ChipCommand
