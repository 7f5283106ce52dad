import Dahdi.Channel.RingInvariant

/-!
Who chooses the size and the number of a channel's buffers: DAHDI_SET_BUFINFO
and DAHDI_SET_BLOCKSIZE of dahdi_chan_ioctl, and the callers of
dahdi_reallocbufs that use sizes of their own.
-/
namespace BufferSpace
open Channel RingInvariant GuardedRun
variable {T : Type}

def maxBlocksize : Int := 8192
def maxBufSpace : Int := 32768
def defaultBlocksize : Int := 1024
def defaultNumBufs : Int := 2
def defaultMtuMru : Int := 2048
def einval : Int := 22

/-- struct dahdi_bufferinfo, as far as DAHDI_SET_BUFINFO reads it. -/
structure Bufinfo where
  txbufpolicy : BitVec 32
  numbufs : BitVec 32
  bufsize : BitVec 32

/-- The code tells only WHEN_FULL and HALF_FULL from the other values. -/
def policyOf (txbufpolicy : BitVec 32) : Policy :=
  if txbufpolicy &&& 3 = 1 then .whenFull
  else if txbufpolicy &&& 3 = 2 then .halfFull
  else .immediate

/-- DAHDI_SET_BUFINFO -/
def setBufinfo (chan : Chan T) (bi : Bufinfo) (tx rx : Bool) : Int × Chan T :=
  if maxBlocksize < bi.bufsize.toInt then (-einval, chan)
  else if bi.bufsize.toInt < 16 then (-einval, chan)
  else if maxBufSpace < (bi.bufsize * bi.numbufs).toInt then (-einval, chan)
  else
    let chan := { chan with txbufpolicy := policyOf bi.txbufpolicy }
    reallocbufs chan bi.bufsize.toInt bi.numbufs.toInt tx rx

/-- DAHDI_SET_BLOCKSIZE -/
def setBlocksize (chan : Chan T) (j : BitVec 32) (tx rx : Bool) : Int × Chan T :=
  if maxBlocksize < j.toInt then (-einval, chan)
  else if j.toInt < 16 then (-einval, chan)
  else reallocbufs chan j.toInt chan.numbufs tx rx

/-- The buffers in initialize_channel. -/
def initializeBuffers (chan : Chan T) (tx rx : Bool) : Int × Chan T :=
  match reallocbufs chan defaultBlocksize defaultNumBufs tx rx with
  | (0, chan) => (0, { chan with txbufpolicy := .immediate, txdisable := false })
  | failed => failed

/-- The buffers in dahdi_net_open. -/
def netOpenBuffers (chan : Chan T) (tx rx : Bool) : Int × Chan T :=
  reallocbufs { chan with txbufpolicy := .immediate } defaultMtuMru defaultNumBufs tx rx

/-- Whoever asks for buffers. `ppp` is DAHDI_HDLCPPP, `release` the end of
    close_channel or dahdi_net_stop. -/
inductive Request where
  | setBufinfo (bi : Bufinfo)
  | setBlocksize (j : BitVec 32)
  | chanInit
  | netOpen
  | ppp
  | release

def serve (chan : Chan T) (tx rx : Bool) : Request → Int × Chan T
  | .setBufinfo bi => setBufinfo chan bi tx rx
  | .setBlocksize j => setBlocksize chan j tx rx
  | .chanInit => initializeBuffers chan tx rx
  | .netOpen => netOpenBuffers chan tx rx
  | .ppp => reallocbufs chan defaultMtuMru defaultNumBufs tx rx
  | .release => reallocbufs chan 0 0 tx rx

/-- A channel as kzalloc leaves it, and any requests, whether or not there is
    memory for them. -/
def spaceSystem : System (Chan T) (Request × Bool × Bool) where
  start c := c.blocksize = 0 ∧ c.numbufs = 0
  step c r c' := c' = (serve c r.2.1 r.2.2 r.1).2

def Spacious (c : Chan T) : Prop := c.blocksize * c.numbufs ≤ maxBufSpace

/-- The product SET_BUFINFO looks at does not leave 32 bits where that matters,
    and SET_BLOCKSIZE asks for no more than fits with the buffers there are. -/
def Fits (c : Chan T) (r : Request × Bool × Bool) : Prop :=
  (serve c r.2.1 r.2.2 r.1).1 = 0 →
    match r.1 with
    | .setBufinfo bi => 1024 < bi.bufsize.toInt → bi.bufsize.toInt * bi.numbufs.toInt < 2 ^ 31
    | .setBlocksize j => j.toInt * c.numbufs ≤ maxBufSpace
    | _ => True

/-- dahdi_reallocbufs stores what it is asked for, or does nothing. -/
theorem realloc_sizes (c : Chan T) (blocksize numbufs : Int) (tx rx : Bool) :
    let done := reallocbufs c blocksize numbufs tx rx
    (done.1 = 0 ∧ done.2.blocksize = blocksize ∧ done.2.numbufs = clampNumbufs numbufs) ∨
      (done.1 = -12 ∧ done.2 = c) := by
  simp only [reallocbufs]
  split
  · exact Or.inr ⟨rfl, rfl⟩
  · exact Or.inl ⟨rfl, rfl, rfl⟩

/-- What the wrapped product tells about the clamped one. -/
theorem clamped_product {bufsize numbufs : BitVec 32} (low : 16 ≤ bufsize.toInt)
    (high : bufsize.toInt ≤ maxBlocksize) (wrapped : (bufsize * numbufs).toInt ≤ maxBufSpace) :
    bufsize.toInt * (clampNumbufs numbufs.toInt : Nat) ≤ maxBufSpace ↔
      (1024 < bufsize.toInt → bufsize.toInt * numbufs.toInt < 2 ^ 31) := by
  rw [BitVec.toInt_mul] at wrapped
  generalize bufsize.toInt = a at *
  generalize numbufs.toInt = b at *
  unfold maxBlocksize at high
  unfold maxBufSpace at wrapped ⊢
  have exact_ (positive : 0 ≤ a * b) (small : a * b < 2 ^ 31) : a * b ≤ 32768 := by
    rw [Int.bmod_eq_of_le (by omega) (by omega)] at wrapped
    exact wrapped
  unfold clampNumbufs maxNumBufs
  split
  · rename_i few
    have product : a * b ≤ a * 1 := Int.mul_le_mul_of_nonneg_left (by omega) (by omega)
    constructor <;> intro _ <;> omega
  · rename_i enough
    have positive : 0 ≤ a * b := Int.mul_nonneg (by omega) (by omega)
    split
    · rename_i many
      have most : (((32 : Int).toNat : Nat) : Int) = 32 := rfl
      rw [most]
      constructor
      · intro small large
        omega
      · intro inside
        by_contra large
        have product : 1025 * 33 ≤ a * b := Int.mul_le_mul (by omega) (by omega) (by omega) (by omega)
        have small := exact_ positive (inside (by omega))
        omega
    · have product : a * b ≤ 8192 * 32 := Int.mul_le_mul (by omega) (by omega) (by omega) (by omega)
      have small := exact_ positive (by omega)
      rw [Int.toNat_of_nonneg (by omega)]
      constructor
      · intro _ _
        omega
      · intro _
        exact small

theorem clamp_same {n : Nat} (low : 2 ≤ n) (high : n ≤ 32) : clampNumbufs n = n := by
  unfold clampNumbufs maxNumBufs
  rw [if_neg (by omega), if_neg (by omega)]
  rfl

def Counted (c : Chan T) : Prop := c.numbufs = 0 ∨ 2 ≤ c.numbufs ∧ c.numbufs ≤ 32

/-- What a request leaves: the sizes it asked for when it is done, the old ones
    when it is refused. -/
theorem serve_sizes (c : Chan T) (r : Request) (tx rx : Bool) :
    let done := serve c tx rx r
    (done.1 = 0 ∧ ∃ blocksize numbufs, done.2.blocksize = blocksize ∧
      done.2.numbufs = clampNumbufs numbufs ∧
      match r with
      | .setBufinfo bi => blocksize = bi.bufsize.toInt ∧ numbufs = bi.numbufs.toInt ∧
          16 ≤ blocksize ∧ blocksize ≤ maxBlocksize ∧
          (bi.bufsize * bi.numbufs).toInt ≤ maxBufSpace
      | .setBlocksize j => blocksize = j.toInt ∧ numbufs = c.numbufs ∧ 16 ≤ blocksize ∧
          blocksize ≤ maxBlocksize
      | _ => numbufs ≤ 2 ∧ 0 ≤ blocksize ∧ blocksize ≤ defaultMtuMru) ∨
      (done.1 ≠ 0 ∧ done.2.blocksize = c.blocksize ∧ done.2.numbufs = c.numbufs) := by
  have kept (chan : Chan T) (sized : chan.blocksize = c.blocksize) (many : chan.numbufs = c.numbufs)
      (blocksize numbufs : Int) :
      let done := reallocbufs chan blocksize numbufs tx rx
      (done.1 = 0 ∧ done.2.blocksize = blocksize ∧ done.2.numbufs = clampNumbufs numbufs) ∨
        (done.1 ≠ 0 ∧ done.2.blocksize = c.blocksize ∧ done.2.numbufs = c.numbufs) := by
    rcases realloc_sizes chan blocksize numbufs tx rx with done | ⟨failed, same⟩
    · exact Or.inl done
    · right
      simp only [failed, same]
      exact ⟨by decide, sized, many⟩
  have refused : -einval ≠ 0 := by decide
  cases r with
  | setBufinfo bi =>
    simp only [serve, setBufinfo]
    split
    · exact Or.inr ⟨refused, rfl, rfl⟩
    · rename_i high
      split
      · exact Or.inr ⟨refused, rfl, rfl⟩
      · rename_i low
        split
        · exact Or.inr ⟨refused, rfl, rfl⟩
        · rename_i wrapped
          rcases kept { c with txbufpolicy := policyOf bi.txbufpolicy } rfl rfl bi.bufsize.toInt
            bi.numbufs.toInt with ⟨done, sized, many⟩ | failed
          · exact Or.inl ⟨done, _, _, sized, many, rfl, rfl, by omega, by omega, by omega⟩
          · exact Or.inr failed
  | setBlocksize j =>
    simp only [serve, setBlocksize]
    split
    · exact Or.inr ⟨refused, rfl, rfl⟩
    · rename_i high
      split
      · exact Or.inr ⟨refused, rfl, rfl⟩
      · rename_i low
        rcases kept c rfl rfl j.toInt c.numbufs with ⟨done, sized, many⟩ | failed
        · exact Or.inl ⟨done, _, _, sized, many, rfl, rfl, by omega, by omega⟩
        · exact Or.inr failed
  | chanInit =>
    simp only [serve, initializeBuffers]
    rcases kept c rfl rfl defaultBlocksize defaultNumBufs with ⟨done, sized, many⟩ | failed
    · split
      · rename_i chan opened
        rw [opened] at done sized many
        exact Or.inl ⟨rfl, _, _, sized, many, by decide, by decide, by decide⟩
      · exact Or.inl ⟨done, _, _, sized, many, by decide, by decide, by decide⟩
    · split
      · rename_i chan opened
        rw [opened] at failed
        exact absurd rfl failed.1
      · exact Or.inr failed
  | netOpen =>
    rcases kept { c with txbufpolicy := .immediate } rfl rfl defaultMtuMru defaultNumBufs with
      ⟨done, sized, many⟩ | failed
    · exact Or.inl ⟨done, _, _, sized, many, by decide, by decide, by decide⟩
    · exact Or.inr failed
  | ppp =>
    rcases kept c rfl rfl defaultMtuMru defaultNumBufs with ⟨done, sized, many⟩ | failed
    · exact Or.inl ⟨done, _, _, sized, many, by decide, by decide, by decide⟩
    · exact Or.inr failed
  | release =>
    rcases kept c rfl rfl 0 0 with ⟨done, sized, many⟩ | failed
    · exact Or.inl ⟨done, _, _, sized, many, by decide, by decide, by decide⟩
    · exact Or.inr failed

/-- A request keeps the bound if and only if it fits. -/
theorem space_step {c : Chan T} (counted : Counted c) (spacious : Spacious c)
    (r : Request × Bool × Bool) : Spacious (serve c r.2.1 r.2.2 r.1).2 ↔ Fits c r := by
  obtain ⟨r, tx, rx⟩ := r
  unfold Spacious at spacious ⊢
  rcases serve_sizes c r tx rx with ⟨done, blocksize, numbufs, sized, many, asked⟩ | ⟨failed, sized, many⟩
  · simp only [Fits, done, forall_const, sized, many]
    cases r with
    | setBufinfo bi =>
      obtain ⟨rfl, rfl, low, high, wrapped⟩ := asked
      exact clamped_product low high wrapped
    | setBlocksize j =>
      obtain ⟨rfl, rfl, low, high⟩ := asked
      rcases counted with none | ⟨two, most⟩
      · have least : clampNumbufs (0 : Nat) = 2 := rfl
        rw [none, least]
        unfold maxBlocksize at high
        unfold maxBufSpace
        omega
      · rw [clamp_same two most]
    | chanInit | netOpen | ppp | release =>
      obtain ⟨few, low, high⟩ := asked
      simp only [iff_true]
      have least : clampNumbufs numbufs = 2 := by
        unfold clampNumbufs
        split
        · rfl
        · have two : numbufs = 2 := by omega
          rw [two]
          rfl
      simp only [least, maxBufSpace, defaultMtuMru] at high ⊢
      omega
  · simp only [Fits, failed, false_implies, iff_true, sized, many]
    exact spacious

theorem counted_step {c : Chan T} (counted : Counted c) (r : Request × Bool × Bool) :
    Counted (serve c r.2.1 r.2.2 r.1).2 := by
  obtain ⟨r, tx, rx⟩ := r
  rcases serve_sizes c r tx rx with ⟨_, _, numbufs, _, many, _⟩ | ⟨_, _, many⟩
  · have two := clamp_range numbufs
    right
    rw [many]
    exact two
  · unfold Counted at counted ⊢
    rw [many]
    exact counted

section Concrete

def wideBufinfo : Bufinfo := ⟨0, 0x80000#32, 8192#32⟩

end Concrete

end BufferSpace
