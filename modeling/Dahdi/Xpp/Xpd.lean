import Dahdi.Library.LineMask

/-!
Astribank cards and the masks of their PCM lines: struct phonedev and struct xpd,
and what xbus-pcm.c, card_bri.c and card_pri.c recompute from the masks.
Subunits of a BRI card are found by their number, as xpd_byaddr finds them.
-/
namespace Xpp
open LineMask

/-- xpp_line_t -/
abbrev Lines := BitVec 32

/-- u_char[DAHDI_CHUNKSIZE] -/
abbrev Chunk := Vector (BitVec 8) 8

def CHANNELS_PERXPD : Nat := 32
def MAX_SUBUNIT : Nat := 8
def SUBUNIT_PCM_SHIFT : Nat := 4
def RPACKET_HEADERSIZE : Nat := 4
def sizeofLines : Nat := 4
def DAHDI_CHUNKSIZE : Nat := 8

structure Chan where
  readchunk : Chunk
  writechunk : Chunk
  deriving DecidableEq

/-- struct xpd with its struct phonedev. `pvt` tells that preregistration gave the
    channels their pvt, without which dahdi calls none of their operations. -/
structure Xpd where
  unit : Nat
  channels : Nat
  chans : Nat → Chan
  offhookState : Lines
  ohtPcmPass : Lines
  digitalOutputs : Lines
  digitalInputs : Lines
  digitalSignalling : Lines
  pcmLen : Nat
  wantedPcmMask : Lines
  silencePcm : Lines
  muteDtmf : Lines
  cardPresent : Bool
  registered : Bool
  pvt : Bool

/-- xpacket_t of GLOBAL PCM_WRITE and PCM_READ. -/
structure Xpacket where
  len : Nat
  lines : Lines
  pcm : List (BitVec 8)
  deriving DecidableEq

section Length

/-- What pcm_valid wants the length of a packet with these lines to be. -/
def goodLen (lines : Lines) : Nat :=
  (RPACKET_HEADERSIZE + sizeofLines + count lines CHANNELS_PERXPD * 8) % 2 ^ 16

def pcmValid (pack : Xpacket) : Bool := pack.len == goodLen pack.lines

def updateWantedPcmMask (xpd : Xpd) (newMask : Lines) (newPcmLen : Nat) : Xpd :=
  { xpd with pcmLen := newPcmLen, wantedPcmMask := newMask }

/-- The uint that the three recomputes make of their int line_count. -/
def pcmLenOf (lineCount : Int) : Nat :=
  if lineCount = 0 then 0
  else (((RPACKET_HEADERSIZE + sizeofLines : Nat) + lineCount * DAHDI_CHUNKSIZE) % 2 ^ 32).toNat

/-- The end of the three recomputes: unit 0 sends dummy PCM for sync. -/
def settle (xpd : Xpd) (unit : Nat) (empty : Bool) (pcmMask : Lines) (lineCount : Int) : Xpd :=
  if unit = 0 ∧ empty = true then updateWantedPcmMask xpd (bit 32 0) (pcmLenOf 1)
  else updateWantedPcmMask xpd pcmMask (pcmLenOf lineCount)

end Length

section Generic

def genericMask (xpd : Xpd) (pcmMask : Lines) : Lines :=
  (pcmMask ||| xpd.offhookState ||| xpd.ohtPcmPass) &&& ~~~ xpd.digitalInputs &&& ~~~ xpd.digitalOutputs

def genericCardPcmRecompute (xpd : Xpd) (pcmMask : Lines) : Xpd :=
  let pcmMask := genericMask xpd pcmMask
  settle xpd xpd.unit (pcmMask == 0) pcmMask (count pcmMask xpd.channels)

end Generic

section Bri

structure BriXpd where
  xpd : Xpd
  dchanIsOpen : Bool

abbrev BriUnit := Nat → Option BriXpd

def briLines (xpd : Xpd) : Lines := xpd.offhookState &&& ~~~ xpd.digitalSignalling

structure BriSum where
  subs : BriUnit
  pcmMask : Lines
  lineCount : Int

def BriSum.add (sum : BriSum) (lines : Lines) (i : Nat) : BriSum :=
  if lines = 0 then sum
  else { sum with pcmMask := sum.pcmMask ||| lines <<< (SUBUNIT_PCM_SHIFT * i), lineCount := sum.lineCount + 2 }

def setSub (subs : BriUnit) (i : Nat) (sub : BriXpd) : BriUnit := Function.update subs i (some sub)

/-- The body of the loop over the subunits, which have fake pcm_len and wanted_pcm_mask. -/
def briAddSubunit (sum : BriSum) (i : Nat) : BriSum :=
  match sum.subs i with
  | none => sum
  | some sub =>
    let lines := briLines sub.xpd
    let sum := sum.add lines i
    if 0 < i then { sum with subs := setSub sum.subs i { sub with xpd := updateWantedPcmMask sub.xpd lines 0 } }
    else sum

def briCardPcmRecompute (subs : BriUnit) : BriUnit :=
  match subs 0 with
  | none => subs
  | some main =>
    let sum := (List.range MAX_SUBUNIT).foldl briAddSubunit ⟨subs, 0, 0⟩
    setSub sum.subs 0
      { main with xpd := settle main.xpd main.xpd.unit (sum.lineCount == 0) sum.pcmMask sum.lineCount }

end Bri

section Pri

inductive PriProtocol where
  | none
  | e1
  | t1
  | j1
  deriving DecidableEq

/-- struct PRI_priv_data: isCas is -1 before the span is configured. -/
structure PriXpd where
  xpd : Xpd
  priProtocol : PriProtocol
  isCas : Int
  dchanNum : Nat
  chanconfigDchan : Nat
  dchanIsOpen : Bool
  dchanAlive : Bool
  dchanTxSample : BitVec 8
  dchanRxSample : BitVec 8

/-- PRI_DCHAN_IDX, an unsigned int. -/
def PriXpd.dchanIdx (x : PriXpd) : Nat := (x.dchanNum + (2 ^ 32 - 1)) % 2 ^ 32

def PriXpd.cas (x : PriXpd) : Bool := x.isCas != 0 && x.priProtocol == .e1

def priCardPcmRecompute (x : PriXpd) (pcmMask : Lines) : PriXpd :=
  let pcmMask := pcmMask ||| x.xpd.offhookState
  let lineCount : Int := count pcmMask x.xpd.channels
  if x.cas then
    let pcmMask := clear pcmMask x.dchanIdx
    { x with xpd := settle x.xpd x.xpd.unit (pcmMask == 0) pcmMask (lineCount - 1) }
  else { x with xpd := settle x.xpd x.xpd.unit (pcmMask == 0) pcmMask lineCount }

end Pri
end Xpp
