import Mathlib

/-!
The messages of a dynamic span, from dahdi_dynamic.c. A short is two octets, high
one first. Reading past the end of a message has no result.
-/
namespace Dynamic

abbrev Octet := BitVec 8

def chunksize : Nat := 8

/-- DAHDI_CHUNKSIZE octets of audio. -/
structure Chunk where
  octets : List Octet
  full : octets.length = chunksize
  deriving DecidableEq

/-- chan->sig, as far as dahdi_rbsbits tells one from another. -/
inductive Sig where
  | fxogs
  | emE1
  | fxols
  | fxoks
  | em
  | fxsks
  | fxsgs
  | fxsls
  | cas
  | other
  deriving DecidableEq

inductive Rxsig where
  | onhook
  | offhook
  | start
  | ring
  deriving DecidableEq

/-- What dahdi_rbsbits calls: __dahdi_hooksig_pvt, or __qevent for changed bits. -/
inductive Report where
  | hooksig (rxsig : Rxsig)
  | bitschanged
  deriving DecidableEq

structure Chan where
  sig : Sig
  sigfreeze : Bool
  txsig : Int
  rxsig : Int
  writechunk : Chunk
  readchunk : Chunk
  reports : List Report
  deriving DecidableEq

def abit (bits : Int) : Bool := decide (bits / 8 % 2 = 1)
def bbit (bits : Int) : Bool := decide (bits / 4 % 2 = 1)

def hookOf (cursig : Int) : Report := .hooksig (if abit cursig then .offhook else .onhook)

/-- The switch of dahdi_rbsbits. -/
def rbsReport (chan : Chan) (cursig : Int) : Option Report :=
  match chan.sig with
  | .fxogs => some (if bbit cursig then hookOf cursig else .hooksig .start)
  | .emE1 | .fxols | .fxoks => some (hookOf cursig)
  | .em => if abit cursig = abit chan.rxsig then none else some (hookOf cursig)
  | .fxsks | .fxsgs | .fxsls =>
    if !bbit cursig then some (.hooksig .ring)
    else if chan.sig ≠ .fxsls ∧ abit cursig then some (.hooksig .onhook)
    else some (.hooksig .offhook)
  | .cas => some .bitschanged
  | .other => none

def rbsbits (chan : Chan) (cursig : Int) : Chan :=
  if cursig = chan.rxsig then chan
  else if chan.sigfreeze then chan
  else { chan with
    rxsig := cursig
    reports := chan.reports ++ (rbsReport chan cursig).toList }

def maxChans : Nat := 256

/-- struct dahdi_dynamic with its span; the bounds are those of _create_dynamic. -/
structure Span where
  chans : List Chan
  some : 1 ≤ chans.length
  few : chans.length < maxChans
  alarms : BitVec 32
  txcnt : BitVec 16
  rxcnt : BitVec 16
  err : Nat

def alarmYellow : BitVec 32 := 4
def alarmRed : BitVec 32 := 8

def flagYellowAlarm : Octet := 1
def flagSigbitsPresent : Octet := 2

def errNsamp : Nat := 2 ^ 16
def errNchan : Nat := 2 ^ 17
def errLen : Nat := 2 ^ 18

def htons (v : BitVec 16) : List Octet := [(v >>> 8).setWidth 8, v.setWidth 8]

def ntohs (high low : Octet) : BitVec 16 := high ++ low

/-- The four signalling bits a channel sends. -/
def nibble (chan : Chan) : Nat := (chan.txsig % 16).toNat

/-- The first loop of dahdi_dynamic_sendmessage, from channel x on, and the word
    written after it. -/
def sendSigbits : Nat → Nat → BitVec 16 → List Chan → List Octet
  | _, offset, bits, [] => if offset ≠ 3 then htons bits else []
  | x, _, bits, chan :: rest =>
    let offset := x % 4
    let bits := bits ||| BitVec.ofNat 16 (nibble chan) <<< (offset <<< 2)
    if offset = 3 then htons bits ++ sendSigbits (x + 1) offset 0 rest
    else sendSigbits (x + 1) offset bits rest

def sendFlags (d : Span) : Octet :=
  (if d.alarms &&& alarmRed ≠ 0 then flagYellowAlarm else 0) ||| flagSigbitsPresent

/-- dahdi_dynamic_sendmessage up to the driver's transmit. -/
def sendmessage (d : Span) : List Octet × Span :=
  (BitVec.ofNat 8 chunksize :: sendFlags d :: htons d.txcnt ++
      htons (BitVec.ofNat 16 d.chans.length) ++ sendSigbits 0 0 0 d.chans ++
      d.chans.flatMap fun chan => chan.writechunk.octets,
    { d with txcnt := d.txcnt + 1 })

def takeShort : List Octet → Option (BitVec 16 × List Octet)
  | high :: low :: msg => some (ntohs high low, msg)
  | _ => none

/-- The loop that records the signalling bits, from channel x on. -/
def recordSigbits : Nat → BitVec 16 → List Octet → List Chan → Option (List Chan × List Octet)
  | _, _, msg, [] => some ([], msg)
  | x, bits, msg, chan :: rest =>
    match (if x % 4 = 0 then takeShort msg else some (bits, msg)) with
    | none => none
    | some (bits, msg) =>
      let sig : Int := ((bits >>> ((x % 4) <<< 2)) &&& 0xff#16).toNat
      match recordSigbits (x + 1) bits msg rest with
      | none => none
      | some (rest, msg) => some ((if sig ≠ chan.rxsig then rbsbits chan sig else chan) :: rest, msg)

def takeChunk (msg : List Octet) : Option (Chunk × List Octet) :=
  if long : chunksize ≤ msg.length then
    some (⟨msg.take chunksize, List.length_take_of_le long⟩, msg.drop chunksize)
  else none

/-- The loop that records the audio. -/
def recordAudio : List Octet → List Chan → Option (List Chan)
  | _, [] => some []
  | msg, chan :: rest =>
    match takeChunk msg with
    | none => none
    | some (chunk, msg) =>
      match recordAudio msg rest with
      | none => none
      | some rest => some ({ chan with readchunk := chunk } :: rest)

theorem record_sigbits_length {x : Nat} {bits : BitVec 16} {msg msg' : List Octet}
    {chans chans' : List Chan} (done : recordSigbits x bits msg chans = some (chans', msg')) :
    chans'.length = chans.length := by
  induction chans generalizing x bits msg chans' with
  | nil =>
    simp only [recordSigbits, Option.some.injEq, Prod.mk.injEq] at done
    rw [← done.1]
  | cons chan rest ih =>
    simp only [recordSigbits] at done
    split at done
    · simp at done
    · split at done
      · simp at done
      · rename_i recorded
        simp only [Option.some.injEq, Prod.mk.injEq] at done
        obtain ⟨rfl, rfl⟩ := done
        rw [List.length_cons, List.length_cons, ih recorded]

theorem record_audio_length {msg : List Octet} {chans chans' : List Chan}
    (done : recordAudio msg chans = some chans') : chans'.length = chans.length := by
  induction chans generalizing msg chans' with
  | nil =>
    simp only [recordAudio, Option.some.injEq] at done
    rw [← done]
  | cons chan rest ih =>
    simp only [recordAudio] at done
    split at done
    · simp at done
    · split at done
      · simp at done
      · rename_i recorded
        simp only [Option.some.injEq] at done
        subst done
        rw [List.length_cons, List.length_cons, ih recorded]

/-- The channels after both loops. -/
def recordChans (sflags : Octet) (msg : List Octet) (chans : List Chan) : Option (List Chan) :=
  match (if sflags &&& flagSigbitsPresent ≠ 0 then recordSigbits 0 0 msg chans
    else some (chans, msg)) with
  | none => none
  | some (chans, msg) => recordAudio msg chans

theorem record_chans_length {sflags : Octet} {msg : List Octet} {chans chans' : List Chan}
    (done : recordChans sflags msg chans = some chans') : chans'.length = chans.length := by
  unfold recordChans at done
  split at done
  · simp at done
  · rename_i signalled
    rw [record_audio_length done]
    split at signalled
    · exact record_sigbits_length signalled
    · simp only [Option.some.injEq, Prod.mk.injEq] at signalled
      rw [signalled.1]

/-- The length the header announces. -/
def announced (sflags : Octet) (nchans : Nat) : Nat :=
  6 + nchans * chunksize +
    if sflags &&& flagSigbitsPresent ≠ 0 then (nchans + 3) / 4 * 2 else 0

def recordAlarms (alarms : BitVec 32) (sflags : Octet) : BitVec 32 :=
  alarms &&& ~~~(alarmYellow ||| alarmRed) |||
    if sflags &&& flagYellowAlarm ≠ 0 then alarmYellow else 0

/-- dahdi_dynamic_receive up to the audio's further processing. -/
def receive (dtd : Span) : List Octet → Option Span
  | samples :: sflags :: poshigh :: poslow :: high :: low :: msg =>
    let nchans := (ntohs high low).toNat
    if samples ≠ BitVec.ofNat 8 chunksize then
      some { dtd with err := errNsamp ||| samples.toNat }
    else if nchans ≠ dtd.chans.length then some { dtd with err := errNchan ||| nchans }
    else if announced sflags nchans ≠ msg.length + 6 then
      some { dtd with err := errLen ||| announced sflags nchans }
    else
      match recorded : recordChans sflags msg dtd.chans with
      | none => none
      | some chans => some { dtd with
          chans := chans
          some := by rw [record_chans_length recorded]; exact dtd.some
          few := by rw [record_chans_length recorded]; exact dtd.few
          rxcnt := ntohs poshigh poslow + 1
          alarms := recordAlarms dtd.alarms sflags }
  | _ => some { dtd with err := errLen }

end Dynamic
