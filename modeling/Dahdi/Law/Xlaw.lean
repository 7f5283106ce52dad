import Dahdi.Library.Segments
import Mathlib

/-!
The companding laws of dahdi-base.c: __dahdi_lineartoulaw, __dahdi_lineartoalaw,
alaw2linear and the tables dahdi_conv_init fills.
-/
namespace Xlaw

abbrev Octet := BitVec 8

/-- The conversion to a short. -/
def toShort (v : Int) : Int := v.bmod (2 ^ 16)

def bias : Int := 0x84
def clip : Int := 32635

def expLut : List Nat :=
  [0,0,1,1,2,2,2,2,3,3,3,3,3,3,3,3,
   4,4,4,4,4,4,4,4,4,4,4,4,4,4,4,4,
   5,5,5,5,5,5,5,5,5,5,5,5,5,5,5,5,
   5,5,5,5,5,5,5,5,5,5,5,5,5,5,5,5,
   6,6,6,6,6,6,6,6,6,6,6,6,6,6,6,6,
   6,6,6,6,6,6,6,6,6,6,6,6,6,6,6,6,
   6,6,6,6,6,6,6,6,6,6,6,6,6,6,6,6,
   6,6,6,6,6,6,6,6,6,6,6,6,6,6,6,6,
   7,7,7,7,7,7,7,7,7,7,7,7,7,7,7,7,
   7,7,7,7,7,7,7,7,7,7,7,7,7,7,7,7,
   7,7,7,7,7,7,7,7,7,7,7,7,7,7,7,7,
   7,7,7,7,7,7,7,7,7,7,7,7,7,7,7,7,
   7,7,7,7,7,7,7,7,7,7,7,7,7,7,7,7,
   7,7,7,7,7,7,7,7,7,7,7,7,7,7,7,7,
   7,7,7,7,7,7,7,7,7,7,7,7,7,7,7,7,
   7,7,7,7,7,7,7,7,7,7,7,7,7,7,7,7]

/-- The codes that are not sent: ZEROTRAP, and 0xff. -/
def trapped (ulawbyte : Octet) : Octet :=
  let ulawbyte := if ulawbyte = 0 then 0x02 else ulawbyte
  if ulawbyte = 0xff then 0x7f else ulawbyte

/-- __dahdi_lineartoulaw of a short -/
def lineartoulaw (sample : Int) : Octet :=
  -- (sample >> 8) & 0x80
  let sign : Octet := if sample < 0 then 0x80 else 0
  let sample := if sign ≠ 0 then toShort (-sample) else sample
  let sample := if clip < sample then clip else sample
  let sample := toShort (sample + bias)
  let exponent := expLut.getD (sample / 2 ^ 7 % 256).toNat 0
  let mantissa := sample / 2 ^ (exponent + 3) % 16
  trapped (~~~ (sign ||| BitVec.ofNat 8 exponent <<< 4 ||| BitVec.ofInt 8 mantissa))

def amiMask : Octet := 0x55

/-- seg_end -/
def segEnd (seg : Nat) : Int := [0xff, 0x1ff, 0x3ff, 0x7ff, 0xfff, 0x1fff, 0x3fff, 0x7fff].getD seg 0

/-- The loop over the segments: the first whose end is not passed, or 8. -/
def searchSeg (pcmVal : Int) : Nat → Nat → Nat
  | 0, seg => seg
  | left + 1, seg => if pcmVal ≤ segEnd seg then seg else searchSeg pcmVal left (seg + 1)

/-- __dahdi_lineartoalaw of a short -/
def lineartoalaw (linear : Int) : Octet :=
  let mask := if 0 ≤ linear then amiMask ||| 0x80 else amiMask
  let pcmVal := if 0 ≤ linear then linear else -linear
  let seg := searchSeg pcmVal 8 0
  let shifted := pcmVal / 2 ^ (if seg ≠ 0 then seg + 3 else 4)
  (BitVec.ofNat 8 (seg <<< 4) ||| BitVec.ofInt 8 (shifted % 16)) ^^^ mask

/-- alaw2linear -/
def alaw2linear (alaw : Octet) : Int :=
  let alaw := alaw ^^^ amiMask
  let i := (alaw &&& 0x0f).toNat <<< 4
  let seg := (alaw &&& 0x70).toNat >>> 4
  let i := if seg ≠ 0 then (i + 0x100) <<< (seg - 1) else i
  if alaw &&& 0x80 ≠ 0 then toShort i else toShort (-i)

def etab : List Int := [0, 132, 396, 924, 1980, 4092, 8316, 16764]

/-- The entry of __dahdi_mulaw. -/
def mulaw (i : Octet) : Int :=
  let mu := 255 - i.toNat
  let e := (BitVec.ofNat 8 mu &&& 0x70).toNat / 16
  let f := (BitVec.ofNat 8 mu &&& 0x0f).toNat
  let y := toShort (f * 2 ^ (e + 3))
  let y := toShort (y + etab.getD e 0)
  if BitVec.ofNat 8 mu &&& 0x80 ≠ 0 then toShort (-y) else y

/-- The index of a table of 16384 codes. -/
def codeIndex (a : Int) : Nat := (a % 2 ^ 16 / 4).toNat

/-- One of the tables dahdi_conv_init fills from -32768 on, four samples at a time. -/
def reverseTable (encode : Int → Octet) : Nat → Nat → Octet
  | 0 => fun _ => 0
  | n + 1 =>
    let i := -32768 + 4 * (n : Int)
    Function.update (reverseTable encode n) (codeIndex (toShort i)) (encode (toShort i))

/-- __dahdi_lin2mu -/
def lin2mu : Nat → Octet := reverseTable lineartoulaw 16384

/-- __dahdi_lin2a -/
def lin2a : Nat → Octet := reverseTable lineartoalaw 16384

end Xlaw
