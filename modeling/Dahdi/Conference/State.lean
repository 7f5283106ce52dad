import Mathlib
import Dahdi.Library.Saturation

/-!
Conferences of dahdi-base.c: the channels, the alias tables and the three sets
of accumulators. Boards' own cross connects and echo cancellers are left out, and
so are conference links, which are not configured.
-/
namespace Conference
open Saturation

/-- The range of a short. -/
def short : Bounds := ⟨-32768, 32767, by decide, by decide⟩

abbrev Sample := Value short

def chunksize : Nat := 8

abbrev Chunk := Fin chunksize → Sample

def silence : Chunk := fun _ => 0

/-- A chunk as it is on the line. -/
abbrev Octets := Fin chunksize → BitVec 8

/-- ACSS -/
def acss (dst src : Chunk) : Chunk := fun x => addSat short (dst x) (src x)

/-- SCSS -/
def scss (dst src : Chunk) : Chunk := fun x => subSat short (dst x) (src x)

def maxConf : Int := 1024

abbrev Confmode := BitVec 32

def modeMask : Confmode := 0xff
def confMonitor : Confmode := 1
def confMonitortx : Confmode := 2
def confMonitorboth : Confmode := 3
def confConf : Confmode := 4
def confConfann : Confmode := 5
def confConfmon : Confmode := 6
def confConfannmon : Confmode := 7
def confRealandpseudo : Confmode := 8
def confDigitalmon : Confmode := 9
def confMonitorRxPreecho : Confmode := 10
def confMonitorTxPreecho : Confmode := 11
def confMonitorbothPreecho : Confmode := 12
def confListener : Confmode := 0x100
def confTalker : Confmode := 0x200
def confPseudoListener : Confmode := 0x400
def confPseudoTalker : Confmode := 0x800

/-- The fields of struct dahdi_chan that conferences use. Another channel is known
    by its address; of readchunkpreec only whether it is allocated. -/
structure Chan where
  channo : Int
  pseudo : Bool
  audio : Bool
  sigDacs : Bool
  sigClear : Bool
  confna : Int
  confmode : Confmode
  confn : Int
  confChan : Option Nat
  dacsChan : Option Nat
  readchunkpreec : Bool
  confmute : Bool
  dialing : Bool
  afterdialingtimer : Nat
  conflast : Chunk
  conflast1 : Chunk
  conflast2 : Chunk
  getlin : Chunk
  putlin : Chunk
  getraw : Octets
  putraw : Octets

/-- A channel nobody has used. -/
def freshChan (channo : Int) (pseudo : Bool) : Chan where
  channo := channo
  pseudo := pseudo
  audio := true
  sigDacs := false
  sigClear := false
  confna := 0
  confmode := 0
  confn := 0
  confChan := none
  dacsChan := none
  readchunkpreec := false
  confmute := false
  dialing := false
  afterdialingtimer := 0
  conflast := silence
  conflast1 := silence
  conflast2 := silence
  getlin := silence
  putlin := silence
  getraw := fun _ => 0
  putraw := fun _ => 0

/-- confalias, confrev and maxconfs -/
structure Tables where
  confalias : Int → Int
  confrev : Int → Int
  maxconfs : Int

/-- conf_sums_prev, conf_sums and conf_sums_next -/
structure Sums where
  prev : Int → Chunk
  cur : Int → Chunk
  next : Int → Chunk

/-- All channels by address, those of the spans in the order of span_list and the
    pseudo channels in the order of their list. -/
structure State where
  chans : Nat → Chan
  spanChans : List Nat
  pseudos : List Nat
  tables : Tables
  sums : Sums

/-- The channels __for_each_channel visits. -/
def State.registered (s : State) : List Nat := s.spanChans ++ s.pseudos

/-- What the kernel does not survive: an index outside an array, a lock taken by the
    thread that holds it, and a null pointer. -/
inductive Fault where
  | index
  | deadlock
  | null
  deriving DecidableEq, Repr

theorem map_ok {α β : Type} {e : Except Fault α} {f : α → β} {b : β} (done : e.map f = .ok b) :
    ∃ a, e = .ok a ∧ f a = b := by
  cases e with
  | error fault => cases done
  | ok a => exact ⟨a, rfl, Except.ok.inj done⟩

theorem bind_ok {α β : Type} {e : Except Fault α} {f : α → Except Fault β} {b : β}
    (done : e >>= f = .ok b) : ∃ a, e = .ok a ∧ f a = .ok b := by
  cases e with
  | error fault => cases done
  | ok a => exact ⟨a, rfl, done⟩

/-- An index into an array of DAHDI_MAX_CONF + 1 entries. -/
def inBounds (x : Int) : Prop := 0 ≤ x ∧ x ≤ maxConf

instance (x : Int) : Decidable (inBounds x) := inferInstanceAs (Decidable (_ ∧ _))

/-- The modes of a member of a conference. -/
def isMixing (confmode : Confmode) : Bool :=
  let mode := confmode &&& modeMask
  mode == confConf || mode == confConfann || mode == confConfmon || mode == confConfannmon ||
    mode == confRealandpseudo

/-- is_monitor_mode -/
def isMonitorMode (confmode : Confmode) : Bool :=
  let mode := confmode &&& modeMask
  mode == confMonitor || mode == confMonitortx || mode == confMonitorboth ||
    mode == confMonitorRxPreecho || mode == confMonitorTxPreecho || mode == confMonitorbothPreecho

def monitors (confmode : Confmode) : Bool :=
  confmode &&& modeMask == confDigitalmon || isMonitorMode confmode

def setChan (s : State) (a : Nat) (c : Chan) : State :=
  { s with chans := Function.update s.chans a c }

def setSums (s : State) (sums : Sums) : State := { s with sums := sums }

def setTables (s : State) (t : Tables) : State := { s with tables := t }

@[simp] theorem set_chan_same (s : State) (a : Nat) (c : Chan) : (setChan s a c).chans a = c := by
  simp [setChan]

theorem set_chan_other (s : State) {a i : Nat} (c : Chan) (other : i ≠ a) :
    (setChan s a c).chans i = s.chans i := by
  simp [setChan, other]

@[simp] theorem set_chan_tables (s : State) (a : Nat) (c : Chan) :
    (setChan s a c).tables = s.tables := rfl

@[simp] theorem set_chan_registered (s : State) (a : Nat) (c : Chan) :
    (setChan s a c).registered = s.registered := rfl

@[simp] theorem set_chan_sums (s : State) (a : Nat) (c : Chan) : (setChan s a c).sums = s.sums := rfl

@[simp] theorem set_tables_tables (s : State) (t : Tables) : (setTables s t).tables = t := rfl

@[simp] theorem set_tables_chans (s : State) (t : Tables) : (setTables s t).chans = s.chans := rfl

@[simp] theorem set_tables_registered (s : State) (t : Tables) :
    (setTables s t).registered = s.registered := rfl

@[simp] theorem set_tables_sums (s : State) (t : Tables) : (setTables s t).sums = s.sums := rfl

@[simp] theorem set_sums_sums (s : State) (sums : Sums) : (setSums s sums).sums = sums := rfl

@[simp] theorem set_sums_chans (s : State) (sums : Sums) : (setSums s sums).chans = s.chans := rfl

@[simp] theorem set_sums_tables (s : State) (sums : Sums) :
    (setSums s sums).tables = s.tables := rfl

end Conference
