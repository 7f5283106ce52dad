import Dahdi.Library.CutText
import Dahdi.Dynamic.Message

/-!
The addresses of dynamic spans over Ethernet, as ztdeth_create of dahdi_dynamic_eth.c
reads them: `<dev>/<macaddr>[/subaddr]`.
-/
namespace EthAddress
open CutText
open Dynamic (Octet)

section Digits

def digit2int (d : Char) : Int :=
  if 'A' ≤ d ∧ d ≤ 'F' then (d.toNat : Int) - 'A'.toNat + 10
  else if 'a' ≤ d ∧ d ≤ 'f' then (d.toNat : Int) - 'a'.toNat + 10
  else if '0' ≤ d ∧ d ≤ '9' then (d.toNat : Int) - '0'.toNat
  else -1

def hex2int (s : List Char) : Int :=
  match s with
  | [] => -1
  | [first] => if digit2int first < 0 then -1 else digit2int first
  | [first, next] =>
    if digit2int first < 0 then -1
    else if digit2int next < 0 then -1
    else digit2int first * 16 + digit2int next
  | _ => -1

end Digits

section Address

def EINVAL : Int := 22
def ENOMEM : Int := 12

def IFNAMSIZ : Nat := 16

/-- sizeof(tmp) -/
def tmpSize : Nat := 256

/-- struct ztdeth, with the span and the device as numbers. -/
structure Ztdeth where
  addr : List Octet
  subaddr : List Octet
  span : Nat
  ethdev : List Char
  dev : Nat
  deriving DecidableEq

/-- The loop over the octets of the address; tmp2 is null once no colon is left. -/
def readOctets : Nat → Option (List Char) → Option (List Octet)
  | 0, _ => some []
  | _ + 1, none => none
  | left + 1, some tmp2 =>
    let res := hex2int (cut ':' tmp2).1
    if res < 0 then none
    else (readOctets left (cut ':' tmp2).2).map (BitVec.ofInt 8 res :: ·)

/-- The loop over the digits of a subaddress, from the last on. -/
def readSub : List Char → BitVec 32 → BitVec 32 → Option (BitVec 32)
  | [], _, sub => some sub
  | c :: rest, mul, sub =>
    if '0' ≤ c ∧ c ≤ '9' then readSub rest (mul * 10) (sub + BitVec.ofNat 32 (c.toNat - '0'.toNat) * mul)
    else none

/-- What stands before and after the slash behind the octets, which is looked for from
    the second character on. What is found behind the end of the text does not matter. -/
def cutSub (stale : Option (List Char)) : List Char → List Char × Option (List Char)
  | [] => ([], stale)
  | c :: text => (c :: (cut '/' text).1, (cut '/' text).2)

def readSubaddr : Option (List Char) → Option (List Octet)
  | none => some [0, 0]
  | some tmp4 => (readSub tmp4.reverse 1 0).map fun sub => Dynamic.htons (sub.setWidth 16)

/-- ztdeth_create, with what kmalloc and dev_get_by_name give. -/
def ztdethCreate (alloc : Bool) (stale : Option (List Char)) (devGetByName : List Char → Option Nat)
    (span : Nat) (addr : List Char) (zdevs : List Ztdeth) : Int × List Ztdeth :=
  if !alloc then (-ENOMEM, zdevs)
  else
    let (tmp, tmp2) := cut '/' (addr.take (tmpSize - 1))
    match tmp2 with
    | none => (-EINVAL, zdevs)
    | some tmp2 =>
      let ethdev := tmp.take (IFNAMSIZ - 1)
      let (tmp2, tmp4) := cutSub stale tmp2
      match readOctets 6 (some tmp2) with
      | none => (-EINVAL, zdevs)
      | some mac =>
        match readSubaddr tmp4 with
        | none => (-EINVAL, zdevs)
        | some subaddr =>
          match devGetByName ethdev with
          | none => (-EINVAL, zdevs)
          | some dev => (0, ⟨mac, subaddr, span, ethdev, dev⟩ :: zdevs)

end Address

section Denotation

def IsHex (c : Char) : Prop := ('0' ≤ c ∧ c ≤ '9') ∨ ('A' ≤ c ∧ c ≤ 'F') ∨ ('a' ≤ c ∧ c ≤ 'f')

def IsDigit (c : Char) : Prop := '0' ≤ c ∧ c ≤ '9'

instance : DecidablePred IsHex := fun c =>
  inferInstanceAs (Decidable (('0' ≤ c ∧ c ≤ '9') ∨ ('A' ≤ c ∧ c ≤ 'F') ∨ ('a' ≤ c ∧ c ≤ 'f')))

instance : DecidablePred IsDigit := fun c => inferInstanceAs (Decidable ('0' ≤ c ∧ c ≤ '9'))

def hexValue (s : List Char) : Int := s.foldl (fun v c => v * 16 + digit2int c) 0

def decimal (s : List Char) : Nat := s.foldl (fun v c => v * 10 + (c.toNat - '0'.toNat)) 0

/-- One or two hexadecimal digits. -/
def IsOctet (s : List Char) : Prop := 1 ≤ s.length ∧ s.length ≤ 2 ∧ ∀ c ∈ s, IsHex c

instance : DecidablePred IsOctet := fun s =>
  haveI : Decidable (∀ c ∈ s, IsHex c) := List.decidableBAll IsHex s
  inferInstanceAs (Decidable (1 ≤ s.length ∧ s.length ≤ 2 ∧ ∀ c ∈ s, IsHex c))

/-- An address cut into the device, six octets, what stands behind a colon after them, and
    digits behind a slash. -/
structure Reads (addr dev : List Char) (mac : List (List Char)) (more sub : Option (List Char)) : Prop where
  text : ∃ octets, fields ':' more mac = some octets ∧ addr = dev ++ '/' :: (octets ++ behind '/' sub)
  dev : '/' ∉ dev
  six : mac.length = 6
  octets : ∀ m ∈ mac, IsOctet m
  more : ∀ text, more = some text → '/' ∉ text
  digits : ∀ text, sub = some text → ∀ c ∈ text, IsDigit c

/-- An address as the comment in the code has it. -/
structure WellFormed (devGetByName : List Char → Option Nat) (addr dev : List Char) (mac : List (List Char))
    (sub : Option (List Char)) : Prop where
  reads : Reads addr dev mac none sub
  short : dev.length < IFNAMSIZ
  found : (devGetByName dev).isSome = true
  sub : ∀ text, sub = some text → text ≠ [] ∧ decimal text < 2 ^ 16

/-- The subaddress that is denoted, none being the same as 0. -/
def subValue (sub : Option (List Char)) : Nat := (sub.map decimal).getD 0

/-- An entry with what an address denotes, the subaddress high octet first. -/
structure Denoted (devGetByName : List Char → Option Nat) (dev : List Char) (mac : List (List Char))
    (sub : Option (List Char)) (z : Ztdeth) : Prop where
  addr : z.addr = mac.map fun m => BitVec.ofInt 8 (hexValue m)
  subaddr : z.subaddr = [BitVec.ofNat 8 (subValue sub / 256), BitVec.ofNat 8 (subValue sub % 256)]
  dev : z.ethdev = dev ∧ devGetByName dev = some z.dev

end Denotation

section Octets
variable {c : Char} {s : List Char} {mac : List (List Char)} {more : Option (List Char)}

theorem digit_hex (hex : IsHex c) : 0 ≤ digit2int c := by
  simp only [IsHex, Char.le_def, UInt32.le_iff_toNat_le] at hex
  simp only [digit2int, Char.le_def, UInt32.le_iff_toNat_le, Char.toNat] at hex ⊢
  split_ifs <;> simp at * <;> omega

theorem digit_other (other : ¬ IsHex c) : digit2int c = -1 := by
  simp only [IsHex, not_or] at other
  rw [digit2int, if_neg other.2.1, if_neg other.2.2, if_neg other.1]

theorem hex_digit (some_ : ¬ digit2int c < 0) : IsHex c := by
  by_contra other
  rw [digit_other other] at some_
  omega

theorem hex_clear (octet : IsOctet s) (sep : Char) (not_hex : ¬ IsHex sep) : sep ∉ s :=
  fun member => not_hex (octet.2.2 sep member)

theorem hex2int_octet (octet : IsOctet s) : hex2int s = hexValue s ∧ 0 ≤ hex2int s := by
  obtain ⟨low, high, hex⟩ := octet
  rcases s with _ | ⟨first, _ | ⟨next, _ | ⟨third, rest⟩⟩⟩
  · exact absurd low (by decide)
  · have some_ := digit_hex (hex first List.mem_cons_self)
    rw [hex2int, if_neg (by omega)]
    exact ⟨by simp [hexValue], some_⟩
  · have some_ := digit_hex (hex first List.mem_cons_self)
    have some' := digit_hex (hex next (List.mem_cons_of_mem first List.mem_cons_self))
    rw [hex2int, if_neg (by omega), if_neg (by omega)]
    exact ⟨by simp [hexValue], by omega⟩
  · simp only [List.length_cons] at high
    omega

theorem octet_hex2int (some_ : ¬ hex2int s < 0) : IsOctet s := by
  rcases s with _ | ⟨first, _ | ⟨next, _ | ⟨third, rest⟩⟩⟩
  · exact absurd (show hex2int [] < 0 by decide) some_
  · rw [hex2int] at some_
    split at some_
    next => exact absurd (show (-1 : Int) < 0 by decide) some_
    next some' =>
      refine ⟨Nat.le_refl 1, by simp, fun c member => ?_⟩
      rw [List.mem_singleton] at member
      exact member ▸ hex_digit some'
  · rw [hex2int] at some_
    split at some_
    next => exact absurd (show (-1 : Int) < 0 by decide) some_
    next first_ =>
      split at some_
      next => exact absurd (show (-1 : Int) < 0 by decide) some_
      next next_ =>
        refine ⟨by simp, Nat.le_refl 2, fun c member => ?_⟩
        rw [List.mem_cons, List.mem_singleton] at member
        rcases member with here | here
        · exact here ▸ hex_digit first_
        · exact here ▸ hex_digit next_
  · exact absurd (show (-1 : Int) < 0 by decide) some_

theorem read_fields (octets : ∀ m ∈ mac, IsOctet m) (more : Option (List Char)) :
    readOctets mac.length (fields ':' more mac) = some (mac.map fun m => BitVec.ofInt 8 (hexValue m)) := by
  induction mac with
  | nil => rfl
  | cons m mac ih =>
    have octet := octets m List.mem_cons_self
    have clear := hex_clear octet ':' (by decide)
    obtain ⟨value, some_⟩ := hex2int_octet octet
    rw [fields, List.length_cons, readOctets, cut_behind clear]
    dsimp only
    rw [if_neg (by omega), ih fun m' member => octets m' (List.mem_cons_of_mem m member), value]
    rfl

theorem fields_read {left : Nat} {text : Option (List Char)} {octets : List Octet}
    (read : readOctets left text = some octets) :
    ∃ mac more, text = fields ':' more mac ∧ mac.length = left ∧ ∀ m ∈ mac, IsOctet m := by
  induction left generalizing text octets with
  | zero => exact ⟨[], text, rfl, rfl, fun m member => absurd member List.not_mem_nil⟩
  | succ left ih =>
    cases text with
    | none => cases read
    | some tmp2 =>
      simp only [readOctets] at read
      split at read
      next => cases read
      next some_ =>
        obtain ⟨octets', read', _⟩ := Option.map_eq_some_iff.mp read
        obtain ⟨mac, more, text, length, octets_⟩ := ih read'
        refine ⟨(cut ':' tmp2).1 :: mac, more, ?_, congrArg (· + 1) length, fun m member => ?_⟩
        · rw [fields, ← text, ← cut_join]
        · rcases List.mem_cons.mp member with here | there
          · exact here ▸ octet_hex2int some_
          · exact octets_ m there

/-- The text of six octets is short, starts with a digit, and holds no slash but in what
    stands behind it. -/
theorem fields_length {text : List Char} (octets : ∀ m ∈ mac, IsOctet m)
    (whole : fields ':' none mac = some text) : text.length + 1 ≤ 3 * mac.length := by
  induction mac generalizing text with
  | nil => cases whole
  | cons m mac ih =>
    have short := (octets m List.mem_cons_self).2.1
    have whole' := Option.some.inj whole
    rw [← whole', List.length_append, List.length_cons]
    cases rest : fields ':' none mac with
    | none =>
      rw [behind, List.length_nil]
      omega
    | some text' =>
      have := ih (fun m' member => octets m' (List.mem_cons_of_mem m member)) rest
      rw [behind, List.length_cons]
      omega

theorem fields_slash {text : List Char} (octets : ∀ m ∈ mac, IsOctet m)
    (whole : fields ':' more mac = some text) : '/' ∈ text ↔ ∃ text', more = some text' ∧ '/' ∈ text' := by
  induction mac generalizing text with
  | nil =>
    have same : more = some text := whole
    rw [same]
    simp
  | cons m mac ih =>
    have clear := hex_clear (octets m List.mem_cons_self) '/' (by decide)
    have whole' := Option.some.inj whole
    rw [← whole', List.mem_append]
    cases rest : fields ':' more mac with
    | none =>
      have none_ : more = none := by
        cases mac with
        | nil => exact rest
        | cons m' mac => cases rest
      rw [none_]
      simp [behind, clear]
    | some text' =>
      rw [behind, List.mem_cons, ← ih (fun m' member => octets m' (List.mem_cons_of_mem m member)) rest]
      simp [clear]

end Octets

section Subaddress
variable {text rest : List Char} {c : Char}

theorem decimal_snoc (text : List Char) (c : Char) :
    decimal (text ++ [c]) = decimal text * 10 + (c.toNat - '0'.toNat) := by
  simp [decimal]

theorem decimal_append (text rest : List Char) :
    decimal (text ++ rest) = decimal text * 10 ^ rest.length + decimal rest := by
  induction rest using List.reverseRecOn with
  | nil => simp [decimal]
  | append_singleton rest c ih =>
    rw [← List.append_assoc, decimal_snoc, decimal_snoc, ih, List.length_append, List.length_singleton,
      Nat.pow_succ]
    ring

theorem decimal_zero (digits : ∀ c ∈ text, IsDigit c) : decimal text = 0 ↔ ∀ c ∈ text, c = '0' := by
  induction text using List.reverseRecOn with
  | nil => simp [decimal]
  | append_singleton text c ih =>
    have digit := digits c (List.mem_append_right text List.mem_cons_self)
    have here : c.toNat - '0'.toNat = 0 ↔ c = '0' := by
      constructor
      · intro zero
        have low : '0'.toNat ≤ c.toNat := digit.1
        exact Char.toNat_inj.mp (by omega)
      · intro same
        rw [same]
        rfl
    have ih := ih fun c' member => digits c' (List.mem_append_left [c] member)
    rw [decimal_snoc, Nat.add_eq_zero_iff, here, Nat.mul_eq_zero, or_iff_left (by decide), ih]
    simp [or_imp, forall_and]

/-- The digits are read from the last on, modulo the width of an int. -/
theorem read_sub_reverse (digits : ∀ c ∈ text, IsDigit c) (mul sub : BitVec 32) :
    readSub text.reverse mul sub = some (sub + BitVec.ofNat 32 (decimal text) * mul) := by
  induction text using List.reverseRecOn generalizing mul sub with
  | nil => simp [readSub, decimal]
  | append_singleton text c ih =>
    have digit : '0' ≤ c ∧ c ≤ '9' := digits c (List.mem_append_right text List.mem_cons_self)
    rw [List.reverse_append, List.reverse_singleton, List.singleton_append, readSub, if_pos digit,
      ih fun c' member => digits c' (List.mem_append_left [c] member), decimal_snoc, BitVec.ofNat_add,
      BitVec.ofNat_mul]
    have ten : BitVec.ofNat 32 10 = 10 := rfl
    rw [ten]
    congr 1
    ring

theorem sub_read_digits {mul sub done : BitVec 32} (read : readSub text mul sub = some done) :
    ∀ c ∈ text, IsDigit c := by
  induction text generalizing mul sub with
  | nil => exact fun c member => absurd member List.not_mem_nil
  | cons c text ih =>
    rw [readSub] at read
    split at read
    next digit =>
      intro c' member
      rcases List.mem_cons.mp member with here | there
      · exact here ▸ digit
      · exact ih read c' there
    next => cases read

theorem read_subaddr {sub : Option (List Char)} (digits : ∀ text, sub = some text → ∀ c ∈ text, IsDigit c) :
    readSubaddr sub = some (Dynamic.htons (BitVec.ofNat 16 (subValue sub))) := by
  cases sub with
  | none => rfl
  | some text =>
    have whole : BitVec.setWidth 16 (0 + BitVec.ofNat 32 (decimal text) * 1) = BitVec.ofNat 16 (decimal text) := by
      have alone : 0 + BitVec.ofNat 32 (decimal text) * 1 = BitVec.ofNat 32 (decimal text) := by ring
      rw [alone]
      exact BitVec.setWidth_ofNat_of_le (by decide) _
    rw [readSubaddr, read_sub_reverse (digits text rfl), Option.map_some, whole]
    rfl

theorem subaddr_digits {sub : Option (List Char)} {octets : List Octet} (read : readSubaddr sub = some octets) :
    ∀ text, sub = some text → ∀ c ∈ text, IsDigit c := by
  intro text same c member
  rw [same] at read
  obtain ⟨done, read', _⟩ := Option.map_eq_some_iff.mp read
  exact sub_read_digits read' c (List.mem_reverse.mpr member)

theorem htons_octets (n : Nat) :
    Dynamic.htons (BitVec.ofNat 16 n) = [BitVec.ofNat 8 (n / 256), BitVec.ofNat 8 (n % 256)] := by
  unfold Dynamic.htons
  congr 1
  · apply BitVec.eq_of_toNat_eq
    simp only [BitVec.toNat_setWidth, BitVec.toNat_ushiftRight, BitVec.toNat_ofNat, Nat.shiftRight_eq_div_pow]
    omega
  · congr 1
    apply BitVec.eq_of_toNat_eq
    simp only [BitVec.toNat_setWidth, BitVec.toNat_ofNat]
    omega

end Subaddress

section Reading
variable {addr dev : List Char} {mac : List (List Char)} {more sub : Option (List Char)} {span : Nat}
variable {zdevs : List Ztdeth} {stale : Option (List Char)} {devGetByName : List Char → Option Nat}

/-- What is stored of an address that reads. -/
def stored (dev : List Char) (mac : List (List Char)) (sub : Option (List Char)) (span d : Nat) : Ztdeth :=
  ⟨mac.map fun m => BitVec.ofInt 8 (hexValue m), Dynamic.htons (BitVec.ofNat 16 (subValue sub)), span,
    dev.take (IFNAMSIZ - 1), d⟩

theorem reads_clear (reads : Reads addr dev mac more sub) {octets : List Char}
    (whole : fields ':' more mac = some octets) : '/' ∉ octets := by
  rw [fields_slash reads.octets whole]
  rintro ⟨text', same, slash⟩
  exact reads.more text' same slash

theorem reads_stored {d : Nat} (reads : Reads (addr.take (tmpSize - 1)) dev mac more sub)
    (found : devGetByName (dev.take (IFNAMSIZ - 1)) = some d) :
    ztdethCreate true stale devGetByName span addr zdevs = (0, stored dev mac sub span d :: zdevs) := by
  obtain ⟨octets, whole, text⟩ := reads.text
  have device : cut '/' (addr.take (tmpSize - 1)) = (dev, some (octets ++ behind '/' sub)) := by
    rw [text]
    exact cut_behind reads.dev (some (octets ++ behind '/' sub))
  have clear := reads_clear reads whole
  have six : readOctets 6 (some octets) = some (mac.map fun m => BitVec.ofInt 8 (hexValue m)) := by
    rw [← whole, ← reads.six]
    exact read_fields reads.octets more
  have slashes : cutSub stale (octets ++ behind '/' sub) = (octets, sub) := by
    cases octets with
    | nil => exact absurd six (by simp [readOctets, cut, hex2int])
    | cons c octets =>
      rw [List.mem_cons, not_or] at clear
      rw [List.cons_append, cutSub, cut_behind clear.2]
  rw [ztdethCreate, if_neg (by decide), device]
  dsimp only
  rw [slashes]
  dsimp only
  rw [six]
  dsimp only
  rw [read_subaddr reads.digits]
  dsimp only
  rw [found]
  rfl

theorem accepted_reads (accepted : (ztdethCreate true stale devGetByName span addr zdevs).1 = 0) :
    ∃ dev mac more sub d, Reads (addr.take (tmpSize - 1)) dev mac more sub ∧
      devGetByName (dev.take (IFNAMSIZ - 1)) = some d := by
  rw [ztdethCreate, if_neg (by decide)] at accepted
  have refused : (-EINVAL : Int) ≠ 0 := by decide
  rcases device : cut '/' (addr.take (tmpSize - 1)) with ⟨dev, _ | tmp2⟩
  · rw [device] at accepted
    exact absurd accepted refused
  · rw [device] at accepted
    dsimp only at accepted
    rcases slashes : cutSub stale tmp2 with ⟨octets, sub⟩
    rw [slashes] at accepted
    dsimp only at accepted
    cases six : readOctets 6 (some octets) with
    | none =>
      rw [six] at accepted
      exact absurd accepted refused
    | some stored_ =>
      rw [six] at accepted
      dsimp only at accepted
      cases subaddr : readSubaddr sub with
      | none =>
        rw [subaddr] at accepted
        exact absurd accepted refused
      | some subaddr_ =>
        rw [subaddr] at accepted
        dsimp only at accepted
        cases found : devGetByName (dev.take (IFNAMSIZ - 1)) with
        | none =>
          rw [found] at accepted
          exact absurd accepted refused
        | some d =>
          obtain ⟨mac, more, whole, length, isOctets⟩ := fields_read six
          have joined := cut_iff.mp device
          cases tmp2 with
          | nil =>
            cases slashes
            exact absurd six (by simp [readOctets, cut, hex2int])
          | cons c text =>
            rw [cutSub] at slashes
            cases slashes
            have apart : '/' ∉ c :: (cut '/' text).1 := by
              cases mac with
              | nil => cases length
              | cons m mac =>
                have octet := isOctets m List.mem_cons_self
                have first : c ∈ m := by
                  have whole' := Option.some.inj whole
                  cases m with
                  | nil => exact absurd octet.1 (by decide)
                  | cons c' m =>
                    rw [List.cons_append, List.cons.injEq] at whole'
                    rw [whole'.1]
                    exact List.mem_cons_self
                rw [List.mem_cons, not_or]
                refine ⟨fun same => hex_clear octet '/' (by decide) (same ▸ first), cut_clear '/' text⟩
            refine ⟨dev, mac, more, (cut '/' text).2, d, ?_, found⟩
            constructor
            · refine ⟨c :: (cut '/' text).1, whole.symm, ?_⟩
              rw [joined.1, List.cons_append, ← cut_join]
              rfl
            · exact joined.2
            · exact length
            · exact isOctets
            · intro text' same slash
              exact apart ((fields_slash isOctets whole.symm).mpr ⟨text', same, slash⟩)
            · exact subaddr_digits subaddr

theorem reads_unique {dev' : List Char} {mac' : List (List Char)} {more' sub' : Option (List Char)}
    (reads : Reads addr dev mac more sub) (reads' : Reads addr dev' mac' more' sub') :
    dev = dev' ∧ mac = mac' ∧ more = more' ∧ sub = sub' := by
  obtain ⟨octets, whole, text⟩ := reads.text
  obtain ⟨octets', whole', text'⟩ := reads'.text
  have devices : cut '/' (dev ++ behind '/' (some (octets ++ behind '/' sub))) =
      cut '/' (dev' ++ behind '/' (some (octets' ++ behind '/' sub'))) :=
    congrArg (cut '/') (text.symm.trans text')
  rw [cut_behind reads.dev, cut_behind reads'.dev, Prod.mk.injEq, Option.some.injEq] at devices
  have subs := congrArg (cut '/') devices.2
  rw [cut_behind (reads_clear reads whole), cut_behind (reads_clear reads' whole'), Prod.mk.injEq] at subs
  have clear {mac : List (List Char)} (octets : ∀ m ∈ mac, IsOctet m) : ∀ m ∈ mac, ':' ∉ m :=
    fun m member => hex_clear (octets m member) ':' (by decide)
  have macs := fields_unique (reads.six.trans reads'.six.symm) (clear reads.octets) (clear reads'.octets)
    (whole.trans ((congrArg some subs.1).trans whole'.symm))
  exact ⟨devices.1, macs.1, macs.2, subs.2⟩

/-- What stands before the digits of a subaddress is short. -/
theorem reads_front (reads : Reads addr dev mac none sub) (short : dev.length < IFNAMSIZ) :
    ∃ front, front.length ≤ 33 ∧ addr = front ++ behind '/' sub := by
  obtain ⟨octets, whole, text⟩ := reads.text
  have bound := fields_length reads.octets whole
  rw [reads.six] at bound
  unfold IFNAMSIZ at short
  refine ⟨dev ++ '/' :: octets, ?_, ?_⟩
  · rw [List.length_append, List.length_cons]
    omega
  · rw [text]
    simp

/-- The cut at the end of the buffer leaves a well-formed address as it is but for digits
    of its subaddress. -/
theorem reads_take (reads : Reads addr dev mac none sub) (short : dev.length < IFNAMSIZ) :
    (addr.length < tmpSize ∧ addr.take (tmpSize - 1) = addr) ∨
    (tmpSize ≤ addr.length ∧ ∃ text, text ≠ [] ∧ sub = some (text ++ addr.drop (tmpSize - 1)) ∧
      Reads (addr.take (tmpSize - 1)) dev mac none (some text)) := by
  by_cases few : addr.length < tmpSize
  · exact .inl ⟨few, List.take_of_length_le (by omega)⟩
  · have many : tmpSize ≤ addr.length := Nat.le_of_not_lt few
    obtain ⟨front, bound, joined⟩ := reads_front reads short
    obtain ⟨octets, whole, text⟩ := reads.text
    unfold tmpSize at many ⊢
    cases sub with
    | none =>
      rw [joined, behind, List.append_nil] at many
      omega
    | some digits =>
      have before : addr = (dev ++ '/' :: (octets ++ ['/'])) ++ digits := by
        rw [text]
        simp [behind]
      have same : dev ++ '/' :: (octets ++ ['/']) = front ++ ['/'] := by
        have both := before.symm.trans joined
        have split : front ++ behind '/' (some digits) = (front ++ ['/']) ++ digits := by simp [behind]
        rw [split] at both
        exact List.append_cancel_right both
      have length : (dev ++ '/' :: (octets ++ ['/'])).length ≤ 34 := by
        rw [same, List.length_append, List.length_singleton]
        omega
      generalize cutAt : (dev ++ '/' :: (octets ++ ['/'])).length = n at length
      have taken : addr.take 255 = (dev ++ '/' :: (octets ++ ['/'])) ++ digits.take (255 - n) := by
        rw [before, List.take_append, cutAt, List.take_of_length_le (by omega)]
      have dropped : addr.drop 255 = digits.drop (255 - n) := by
        rw [before, List.drop_append, cutAt, List.drop_of_length_le (by omega), List.nil_append]
      have total : addr.length = n + digits.length := by
        rw [before, List.length_append, cutAt]
      refine .inr ⟨many, digits.take (255 - n), ?_, ?_, ?_⟩
      · intro none_
        have empty := congrArg List.length none_
        rw [List.length_take, List.length_nil] at empty
        omega
      · rw [dropped, List.take_append_drop]
      · constructor
        · refine ⟨octets, whole, ?_⟩
          rw [taken]
          simp [behind]
        · exact reads.dev
        · exact reads.six
        · exact reads.octets
        · exact reads.more
        · intro text' same' c member
          cases same'
          exact reads.digits digits rfl c (List.mem_of_mem_take member)

/-- The other way round: with digits cut off at the end of the buffer the whole address
    reads. -/
theorem take_reads (reads : Reads (addr.take (tmpSize - 1)) dev mac none sub) (short : dev.length < IFNAMSIZ)
    (many : tmpSize ≤ addr.length) (digits : ∀ c ∈ addr.drop (tmpSize - 1), IsDigit c) :
    ∃ text, text ≠ [] ∧ sub = some text ∧ Reads addr dev mac none (some (text ++ addr.drop (tmpSize - 1))) := by
  obtain ⟨front, bound, joined⟩ := reads_front reads short
  have length := congrArg List.length joined
  rw [List.length_append, List.length_take, Nat.min_eq_left (by omega)] at length
  obtain ⟨octets, whole, text⟩ := reads.text
  unfold tmpSize at length
  cases sub with
  | none =>
    rw [behind, List.length_nil] at length
    omega
  | some digits' =>
    rw [behind, List.length_cons] at length
    refine ⟨digits', ?_, rfl, ?_⟩
    · intro none_
      rw [none_, List.length_nil] at length
      omega
    · constructor
      · refine ⟨octets, whole, ?_⟩
        calc addr = addr.take (tmpSize - 1) ++ addr.drop (tmpSize - 1) := (List.take_append_drop _ _).symm
          _ = dev ++ '/' :: (octets ++ behind '/' (some digits')) ++ addr.drop (tmpSize - 1) := by rw [text]
          _ = dev ++ '/' :: (octets ++ behind '/' (some (digits' ++ addr.drop (tmpSize - 1)))) := by simp [behind]
      · exact reads.dev
      · exact reads.six
      · exact reads.octets
      · exact reads.more
      · intro text' same c member
        cases same
        rcases List.mem_append.mp member with here | there
        · exact reads.digits digits' rfl c here
        · exact digits c there

end Reading

section Main
variable {addr : List Char} {span : Nat} {zdevs : List Ztdeth} {stale : Option (List Char)}
variable {devGetByName : List Char → Option Nat}

/-- Just the well-formed addresses are accepted, and what they denote is stored. -/
def Correct (stale : Option (List Char)) (devGetByName : List Char → Option Nat) (span : Nat)
    (addr : List Char) (zdevs : List Ztdeth) : Prop :=
  let done := ztdethCreate true stale devGetByName span addr zdevs
  (done.1 = 0 ↔ ∃ dev mac sub, WellFormed devGetByName addr dev mac sub) ∧
  ∀ dev mac sub, WellFormed devGetByName addr dev mac sub →
    ∃ z, done.2 = z :: zdevs ∧ z.span = span ∧ Denoted devGetByName dev mac sub z

/-- An address that reads up to the end of the buffer, on a device, has nothing behind the
    sixth octet, a device name that is not cut, a subaddress in range, and no digit behind
    the end of the buffer that counts. -/
def Strict (devGetByName : List Char → Option Nat) (addr : List Char) : Prop :=
  ∀ dev mac more sub, Reads (addr.take (tmpSize - 1)) dev mac more sub →
    (devGetByName (dev.take (IFNAMSIZ - 1))).isSome = true →
    more = none ∧ dev.length < IFNAMSIZ ∧ (∀ text, sub = some text → text ≠ [] ∧ decimal text < 2 ^ 16) ∧
    (addr.length < tmpSize ∨ ∀ c ∈ sub.getD [] ++ addr.drop (tmpSize - 1), c = '0')

theorem stored_denoted {dev : List Char} {mac : List (List Char)} {sub sub' : Option (List Char)} {d : Nat}
    (short : dev.length < IFNAMSIZ) (found : devGetByName dev = some d) (same : subValue sub = subValue sub') :
    Denoted devGetByName dev mac sub (stored dev mac sub' span d) := by
  constructor
  · rfl
  · rw [same]
    exact htons_octets _
  · exact ⟨List.take_of_length_le (by omega), found⟩

/-- Digits that leave a number below the bound of a short as it is are all 0. -/
theorem cut_zero {text rest : List Char} (digits : ∀ c ∈ text ++ rest, IsDigit c) (some_ : rest ≠ [])
    (same : decimal text = decimal (text ++ rest)) : ∀ c ∈ text ++ rest, c = '0' := by
  rw [← decimal_zero digits, ← same]
  rw [decimal_append] at same
  have ten : 10 ≤ 10 ^ rest.length := Nat.le_self_pow (by simpa using some_) 10
  have grown : decimal text * 10 ≤ decimal text * 10 ^ rest.length := Nat.mul_le_mul_left _ ten
  omega

theorem correct_strict (correct : Correct stale devGetByName span addr zdevs) : Strict devGetByName addr := by
  intro dev mac more sub reads found
  obtain ⟨d, found⟩ := Option.isSome_iff_exists.mp found
  have created := @reads_stored addr dev mac more sub span zdevs stale devGetByName d reads found
  obtain ⟨dev', mac', sub', well⟩ := correct.1.mp (by rw [created])
  obtain ⟨z, first, _, denoted⟩ := correct.2 dev' mac' sub' well
  rw [created, List.cons.injEq] at first
  rcases reads_take well.reads well.short with ⟨few, whole⟩ | ⟨many, text, some_, sub_, taken⟩
  · rw [whole] at reads
    obtain ⟨rfl, rfl, rfl, rfl⟩ := reads_unique reads well.reads
    exact ⟨rfl, well.short, well.sub, .inl few⟩
  · obtain ⟨rfl, rfl, rfl, rfl⟩ := reads_unique reads taken
    have bound := (well.sub _ sub_).2
    rw [decimal_append] at bound
    have pow : 0 < 10 ^ (addr.drop (tmpSize - 1)).length := Nat.pow_pos (by decide)
    have less : decimal text ≤ decimal text * 10 ^ (addr.drop (tmpSize - 1)).length :=
      Nat.le_mul_of_pos_right _ pow
    refine ⟨rfl, well.short, fun text' same => ?_, .inr ?_⟩
    · cases same
      exact ⟨some_, by omega⟩
    · have rest : addr.drop (tmpSize - 1) ≠ [] := by
        intro none_
        have length := congrArg List.length none_
        unfold tmpSize at many length
        rw [List.length_drop, List.length_nil] at length
        omega
      apply cut_zero (well.reads.digits _ sub_) rest
      have octets := denoted.subaddr
      rw [← first.1, sub_] at octets
      have octets' := (htons_octets (decimal text)).symm.trans octets
      rw [List.cons.injEq, List.cons.injEq] at octets'
      have high := congrArg BitVec.toNat octets'.1
      have low := congrArg BitVec.toNat octets'.2.1
      simp only [BitVec.toNat_ofNat, subValue, Option.map_some, Option.getD_some] at high low
      rw [decimal_append] at high low ⊢
      omega

/-- A device name that fits is not cut. -/
theorem found_cut {dev : List Char} {d : Nat} (short : dev.length < IFNAMSIZ) (found : devGetByName dev = some d) :
    devGetByName (dev.take (IFNAMSIZ - 1)) = some d := by
  rw [List.take_of_length_le (Nat.le_sub_one_of_lt short)]
  exact found

theorem strict_correct (strict : Strict devGetByName addr) : Correct stale devGetByName span addr zdevs := by
  constructor
  · constructor
    · intro accepted
      obtain ⟨dev, mac, more, sub, d, reads, found⟩ := accepted_reads accepted
      have found' : (devGetByName (dev.take (IFNAMSIZ - 1))).isSome = true := by
        rw [found]
        rfl
      obtain ⟨rfl, short, bound, zero⟩ := strict dev mac more sub reads found'
      have device : (devGetByName dev).isSome = true := by
        rw [List.take_of_length_le (by omega)] at found'
        exact found'
      by_cases few : addr.length < tmpSize
      · rw [List.take_of_length_le (by omega)] at reads
        exact ⟨dev, mac, sub, reads, short, device, bound⟩
      · have zero := zero.resolve_left few
        obtain ⟨text, some_, sub_, whole⟩ := take_reads reads short (Nat.le_of_not_lt few) fun c member => by
          rw [zero c (List.mem_append_right _ member)]
          decide
        subst sub_
        refine ⟨dev, mac, _, whole, short, device, fun text' same => ?_⟩
        cases same
        refine ⟨List.append_ne_nil_of_left_ne_nil some_ _, ?_⟩
        rw [(decimal_zero (whole.digits _ rfl)).mpr zero]
        decide
    · rintro ⟨dev, mac, sub, well⟩
      obtain ⟨d, found⟩ := Option.isSome_iff_exists.mp well.found
      have found' := found_cut well.short found
      rcases reads_take well.reads well.short with ⟨_, whole⟩ | ⟨_, text, _, _, taken⟩
      · have reads := well.reads
        rw [← whole] at reads
        rw [reads_stored reads found']
      · rw [reads_stored taken found']
  · intro dev mac sub well
    obtain ⟨d, found⟩ := Option.isSome_iff_exists.mp well.found
    have found' := found_cut well.short found
    rcases reads_take well.reads well.short with ⟨_, whole⟩ | ⟨many, text, _, sub_, taken⟩
    · have reads := well.reads
      rw [← whole] at reads
      rw [reads_stored reads found']
      exact ⟨_, rfl, rfl, stored_denoted well.short found rfl⟩
    · rw [reads_stored taken found']
      refine ⟨_, rfl, rfl, stored_denoted well.short found ?_⟩
      have zero := (strict dev mac none (some text) taken (by rw [found']; rfl)).2.2.2
      have zero := zero.resolve_left (Nat.not_lt_of_le many)
      have digits := well.reads.digits _ sub_
      rw [sub_, subValue, subValue, Option.map_some, Option.map_some, Option.getD_some, Option.getD_some,
        (decimal_zero digits).mpr zero]
      rw [Option.getD_some] at zero
      apply Eq.symm
      rw [decimal_zero fun c member => digits c (List.mem_append_left _ member)]
      exact fun c member => zero c (List.mem_append_left _ member)

/-- The reading is exact on the addresses that are strict, and on no other. -/
theorem address_parsed (stale : Option (List Char)) (devGetByName : List Char → Option Nat) (span : Nat)
    (addr : List Char) (zdevs : List Ztdeth) :
    Correct stale devGetByName span addr zdevs ↔ Strict devGetByName addr :=
  ⟨correct_strict, strict_correct⟩

/-- One network device. -/
def oneDevice (name : List Char) : Option Nat := if name = ['e', 't', 'h', '0'] then some 2 else none

/-- `eth0/0:1:2:3:4:5:6` -/
def sevenOctets : List Char :=
  ['e', 't', 'h', '0', '/', '0', ':', '1', ':', '2', ':', '3', ':', '4', ':', '5', ':', '6']

/-- A seventh octet is not noticed. -/
theorem seven_octets : ¬ Correct none oneDevice 1 sevenOctets [] := by
  intro correct
  have reads : Reads (sevenOctets.take (tmpSize - 1)) ['e', 't', 'h', '0']
      [['0'], ['1'], ['2'], ['3'], ['4'], ['5']] (some ['6']) none := by
    constructor
    · exact ⟨sevenOctets.drop 5, by decide, rfl⟩
    · decide
    · rfl
    · decide
    · intro text same
      have clear : '/' ∉ ['6'] := by decide
      exact Option.some.inj same ▸ clear
    · intro text same
      exact absurd same (Option.some_ne_none text).symm
  exact absurd (correct_strict correct _ _ _ _ reads (by decide)).1 (Option.some_ne_none ['6'])

end Main
end EthAddress
