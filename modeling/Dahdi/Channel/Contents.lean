import Dahdi.Channel.RingInvariant

/-!
What a ring holds. Seen through its filled buffers a ring is a queue of
messages: a buffer handed over joins at the end, a released one leaves at the
front.
-/
namespace RingContents
open Channel CyclicCursor RingInvariant Fasthdlc
variable {T : Type}

theorem bytes_length (b : Buffer) (pos len : Nat) : (bytesOf b pos len).length = len := by
  induction len generalizing pos with
  | zero => rfl
  | succ len ih => simp only [bytesOf, List.length_cons, ih]

theorem bytes_get (b : Buffer) (pos len i : Nat) :
    (bytesOf b pos len)[i]? = if i < len then some (b (pos + i)) else none := by
  induction len generalizing pos i with
  | zero => simp [bytesOf]
  | succ len ih =>
    cases i with
    | zero => simp [bytesOf]
    | succ i =>
      simp only [bytesOf, List.getElem?_cons_succ, ih, Nat.add_lt_add_iff_right]
      rw [Nat.add_assoc, Nat.add_comm 1 i]

theorem bytes_eq {b : Buffer} {pos len : Nat} {data : List Octet} (size : data.length = len)
    (same : ∀ i, i < len → data[i]? = some (b (pos + i))) : bytesOf b pos len = data := by
  apply List.ext_getElem?
  intro i
  rw [bytes_get]
  split
  · rename_i inside
    exact (same i inside).symm
  · rw [List.getElem?_eq_none (by omega)]

theorem bytes_snoc (b : Buffer) (pos len : Nat) :
    bytesOf b pos (len + 1) = bytesOf b pos len ++ [b (pos + len)] := by
  induction len generalizing pos with
  | zero => rfl
  | succ len ih =>
    rw [bytesOf, ih, bytesOf, List.cons_append, Nat.add_right_comm, Nat.add_assoc]

theorem bytes_append (b : Buffer) (pos len more : Nat) :
    bytesOf b pos (len + more) = bytesOf b pos len ++ bytesOf b (pos + len) more := by
  induction len generalizing pos with
  | zero => rw [Nat.zero_add, Nat.add_zero]; rfl
  | succ len ih =>
    rw [Nat.add_right_comm, bytesOf, ih, bytesOf, List.cons_append, Nat.add_assoc pos,
      Nat.add_comm 1 len]

theorem bytes_take (b : Buffer) (pos : Nat) {k len : Nat} (short : k ≤ len) :
    (bytesOf b pos len).take k = bytesOf b pos k := by
  symm
  apply bytes_eq
  · rw [List.length_take, bytes_length]
    omega
  · intro i inside
    rw [List.getElem?_take_of_lt inside, bytes_get, if_pos (by omega)]

theorem bytes_congr {b c : Buffer} {pos len : Nat}
    (same : ∀ i, pos ≤ i → i < pos + len → b i = c i) : bytesOf b pos len = bytesOf c pos len := by
  apply bytes_eq (bytes_length c pos len)
  intro i inside
  rw [bytes_get, if_pos inside, same (pos + i) (by omega) (by omega)]

theorem copy_at_get (b : Buffer) (pos : Nat) (data : List Octet) (i : Nat) :
    copyAt b pos data i = if i < pos then b i else (data[i - pos]?).getD (b i) := by
  induction data generalizing b pos with
  | nil => simp [copyAt]
  | cons c data ih =>
    rw [copyAt, ih]
    rcases Nat.lt_trichotomy i pos with before | rfl | after
    · rw [if_pos (by omega), if_pos before, set_other _ _ (by omega)]
    · rw [if_pos (by omega), if_neg (Nat.lt_irrefl i), set_same, Nat.sub_self]
      rfl
    · rw [if_neg (by omega), if_neg (by omega), set_other _ _ (by omega),
        show i - pos = i - (pos + 1) + 1 by omega, List.getElem?_cons_succ]

theorem bytes_copied (b : Buffer) (pos : Nat) (data : List Octet) :
    bytesOf (copyAt b pos data) pos data.length = data := by
  apply bytes_eq rfl
  intro i inside
  rw [copy_at_get, if_neg (by omega), Nat.add_sub_cancel_left, List.getElem?_eq_getElem inside]
  rfl

/-- Data copied to the end of what a buffer holds. -/
theorem bytes_extended (b : Buffer) (pos : Nat) (data : List Octet) :
    bytesOf (copyAt b pos data) 0 (pos + data.length) = bytesOf b 0 pos ++ data := by
  rw [bytes_append, Nat.zero_add, bytes_copied]
  congr 1
  apply bytes_congr
  intro i _ before
  rw [copy_at_get, if_pos (by omega)]

/-- The two bytes of the frame check, low byte first. -/
def fcsBytes (env : Env T) (data : List Octet) : List Octet :=
  let fcs := fcsOver env env.pppInitfcs data ^^^ 0xffff#32
  [fcs.setWidth 8, (fcs >>> 8).setWidth 8]

/-- The last two bytes give way to the frame check of the rest. -/
def withFcs (env : Env T) (data : List Octet) : List Octet :=
  if data.length < 2 then data
  else data.take (data.length - 2) ++ fcsBytes env (data.take (data.length - 2))

theorem with_fcs_length (env : Env T) (data : List Octet) :
    (withFcs env data).length = data.length := by
  unfold withFcs
  split
  · rfl
  · simp only [fcsBytes, List.length_append, List.length_take, List.length_cons, List.length_nil]
    omega

theorem calc_fcs_bytes (env : Env T) (b : Buffer) (len : Nat) :
    bytesOf (calcFcs env b len) 0 len = withFcs env (bytesOf b 0 len) := by
  unfold calcFcs withFcs
  rw [bytes_length]
  split
  · rfl
  · rename_i enough
    rw [bytes_take b 0 (by omega : len - 2 ≤ len)]
    obtain ⟨k, rfl⟩ : ∃ k, len = k + 1 + 1 := ⟨len - 2, by omega⟩
    rw [show k + 1 + 1 - 2 = k by omega, show k + 1 + 1 - 1 = k + 1 by omega, bytes_snoc, bytes_snoc,
      Nat.zero_add, Nat.zero_add, set_same, set_other _ _ (by omega : k ≠ k + 1), set_same]
    have kept (u v : Octet) :
        bytesOf (Channel.set (Channel.set b k u) (k + 1) v) 0 k = bytesOf b 0 k :=
      bytes_congr fun i _ inside => by
        rw [set_other _ _ (by omega), set_other _ _ (by omega)]
    rw [kept]
    simp only [fcsBytes, List.append_assoc, List.cons_append, List.nil_append]

def frameAt (r : Ring) (x : Nat) : List Octet :=
  bytesOf ((r.buf x).getD fun _ => 0) 0 (r.n x).toNat

/-- The messages a ring holds, oldest first. -/
def contents (r : Ring) : List (List Octet) := r.filled.map (frameAt r)

theorem contents_congr {r r' : Ring} (filled : r'.filled = r.filled)
    (same : ∀ x ∈ r.filled, r'.buf x = r.buf x ∧ r'.n x = r.n x) : contents r' = contents r := by
  unfold contents
  rw [filled]
  apply List.map_congr_left
  intro x held
  unfold frameAt
  rw [(same x held).1, (same x held).2]

theorem contents_hand_over (r : Ring) (size : Nat) (old : Int) :
    contents (r.handOver size old) = contents r ++ [frameAt r old.toNat] := by
  simp only [contents, Ring.handOver, List.map_append, List.map_cons, List.map_nil]
  rfl

/-- Releasing the first buffer, whatever is done to its count and position. -/
theorem contents_release {size : Nat} {r : Ring} (valid : Valid size r.inbuf r.outbuf r.filled)
    (held : 0 ≤ r.outbuf) (n idx : Nat → Int) (same : ∀ x ∈ r.filled, x ≠ r.outbuf.toNat → n x = r.n x) :
    contents r = frameAt r r.outbuf.toNat ::
      contents ({ r with n := n, idx := idx }.release size r.outbuf) := by
  obtain ⟨rest, filled⟩ := valid_head valid held
  have once := valid_nodup valid
  rw [filled, List.nodup_cons] at once
  have left : (Ring.release { r with n := n, idx := idx } size r.outbuf).filled = rest := by
    simp only [Ring.release, filled, List.erase_cons_head]
  unfold contents
  rw [left, filled, List.map_cons]
  congr 1
  apply List.map_congr_left
  intro x later
  have other : x ≠ r.outbuf.toNat := by
    rintro rfl
    exact once.1 later
  simp only [frameAt, Ring.release, same x (by rw [filled]; exact List.mem_cons_of_mem _ later) other]

/-- Where every slot neither filled nor being filled stands at the start, the
    filler begins its next slot there. -/
theorem next_unused {size : Nat} {r : Ring} (two : 2 ≤ size)
    (valid : Valid size r.inbuf r.outbuf r.filled) (free : 0 ≤ r.inbuf)
    (unused : ∀ x, x < size → x ∉ r.filled → (x : Int) ≠ r.inbuf → r.idx x = 0)
    (low : 0 ≤ fillIn size r.inbuf r.outbuf) :
    r.idx (fillIn size r.inbuf r.outbuf).toNat = 0 := by
  have valid' := valid_fill two valid free
  have apart := valid_free valid' low
  rw [List.mem_append, List.mem_singleton, not_or] at apart
  have inside : (fillIn size r.inbuf r.outbuf).toNat < size := by
    rcases valid'.inRange with none | ⟨_, high⟩ <;> omega
  exact unused _ inside apart.1 (by omega)

theorem store_write_frame (env : Env T) (c : Chan T) (res : Int) (buf : Buffer) (data : List Octet)
    (check : c.flags.fcs = true) :
    frameAt (storeWrite env c res buf data) res.toNat = withFcs env data := by
  simp only [frameAt, storeWrite, check, ↓reduceIte, set_same, Option.getD_some, Int.toNat_natCast,
    calc_fcs_bytes, bytes_copied]

end RingContents
