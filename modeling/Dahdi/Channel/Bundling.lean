import Dahdi.Library.BlockStream
import Dahdi.Library.PointerChain

/-!
Bundled channels: the octets of a master go out sample by sample over its slaves and
come back the same way.
-/
namespace Bundling
open BlockStream PointerChain
variable {T M R : Type}

abbrev Octet := BitVec 8
abbrev Chunk := Vector Octet 8

def putSample [DecidableEq T] (chunks : T → Chunk) (slave : T) (i : Fin 8) (v : Octet) : T → Chunk :=
  Function.update chunks slave ((chunks slave).set i.val v i.isLt)

/-- What `__transmit_to_slaves` works on: the master's sender with `data` and `pos`, and
    the write chunks of the channels. -/
structure Sending (M T : Type) where
  data : Drawn M Octet 8
  writechunk : T → Chunk

/-- `slave->writechunk[i] = data[pos++]`, after a chunk of the master where `data` is used up. -/
def sendSample [DecidableEq T] (transmitChunk : M → M × Chunk) (i : Fin 8) (s : Sending M T) (slave : T) :
    Sending M T :=
  let drawn := draw transmitChunk s.data
  ⟨drawn.1, putSample s.writechunk slave i drawn.2⟩

def transmitToSlaves [DecidableEq T] (transmitChunk : M → M × Chunk) (nextslave : T → Option T) (fuel : Nat)
    (chan : T) (master : M) (garbage : Chunk) (writechunk : T → Chunk) :
    Option (M × (T → Chunk)) :=
  ((List.finRange 8).foldlM (fun s i => forEach (sendSample transmitChunk i) nextslave fuel
    (some chan) s) ⟨⟨master, garbage, 8⟩, writechunk⟩).map fun s => (s.data.source, s.writechunk)

/-- `data[pos++] = slave->readchunk[i]`, and the chunk goes to the master once it is full. -/
def takeSample (receiveChunk : R → Chunk → R) (readchunk : T → Chunk) (i : Fin 8)
    (s : Stored R Octet 8) (slave : T) : Stored R Octet 8 :=
  store receiveChunk s ((readchunk slave).get i)

def receiveFromSlaves (receiveChunk : R → Chunk → R) (nextslave : T → Option T) (fuel : Nat)
    (chan : T) (master : R) (garbage : Chunk) (readchunk : T → Chunk) : Option R :=
  ((List.finRange 8).foldlM (fun s i => forEach (takeSample receiveChunk readchunk i) nextslave
    fuel (some chan) s) ⟨master, garbage, 0⟩).map (·.sink)

/-- The samples in the order both loops go through them. -/
def samples (chain : List T) : List (Fin 8 × T) :=
  (List.finRange 8).flatMap fun i => chain.map fun slave => (i, slave)

section loops
variable {S : Type} {body : Fin 8 → S → T → S} {nextslave : T → Option T} {start : Option T}
  {chain : List T}

/-- Two loops over a chain that ends are one over its samples. -/
theorem loops_samples (ends : Chain nextslave start chain) {fuel : Nat}
    (enough : chain.length < fuel) (s : S) (indices : List (Fin 8)) :
    indices.foldlM (fun s i => forEach (body i) nextslave fuel start s) s =
      some ((indices.flatMap fun i => chain.map fun slave => (i, slave)).foldl
        (fun s cell => body cell.1 s cell.2) s) := by
  induction indices generalizing s with
  | nil => rfl
  | cons i indices ih =>
    rw [List.foldlM_cons, forEach_chain ends enough, List.flatMap_cons, List.foldl_append,
      List.foldl_map]
    exact ih _

theorem samples_nodup (distinct : chain.Nodup) : (samples chain).Nodup := by
  apply List.nodup_flatMap.mpr
  constructor
  · intro i _
    apply distinct.map
    intro slave slave' same
    exact (Prod.mk.inj same).2
  · apply (List.nodup_finRange 8).imp
    intro i j apart cell here there
    obtain ⟨_, _, rfl⟩ := List.mem_map.mp here
    obtain ⟨_, _, same⟩ := List.mem_map.mp there
    exact apart (Prod.mk.inj same).1.symm

theorem samples_length (chain : List T) : (samples chain).length = 8 * chain.length := by
  have each : ∀ i : Fin 8, (chain.map fun slave => (i, slave)).length = chain.length := by
    intro i
    exact List.length_map ..
  simp only [samples, List.length_flatMap, each, List.map_const', List.sum_replicate,
    List.length_finRange, smul_eq_mul]

end loops

section samples
variable [DecidableEq T] {transmitChunk : M → M × Chunk}

theorem put_same (chunks : T → Chunk) (slave : T) (i : Fin 8) (v : Octet) :
    (putSample chunks slave i v slave).get i = v := by
  rw [putSample, Function.update_self, Vector.get_eq_getElem, Vector.getElem_set_self]

theorem put_other {chunks : T → Chunk} {slave slave' : T} {i j : Fin 8} {v : Octet}
    (apart : (j, slave') ≠ (i, slave)) :
    (putSample chunks slave i v slave').get j = (chunks slave').get j := by
  by_cases same : slave' = slave
  · have other : i.val ≠ j.val := by
      intro place
      exact apart (Prod.ext (Fin.ext place.symm) same)
    rw [putSample, same, Function.update_self, Vector.get_eq_getElem, Vector.getElem_set_ne _ _ other,
      Vector.get_eq_getElem]
  · rw [putSample, Function.update_of_ne same]

/-- The samples of a pass hold, in its order, the octets drawn, and every other sample
    is left alone. -/
theorem sent_samples {cells : List (Fin 8 × T)} (distinct : cells.Nodup) (s : Sending M T) :
    let after := cells.foldl (fun s cell => sendSample transmitChunk cell.1 s cell.2) s
    let drawn := draws transmitChunk cells.length s.data
    after.data = drawn.1 ∧ (cells.map fun cell => (after.writechunk cell.2).get cell.1) = drawn.2 ∧
      ∀ cell, cell ∉ cells → (after.writechunk cell.2).get cell.1 = (s.writechunk cell.2).get cell.1 := by
  induction cells generalizing s with
  | nil => exact ⟨rfl, rfl, fun _ _ => rfl⟩
  | cons cell rest ih =>
    obtain ⟨first, distinct⟩ := List.nodup_cons.mp distinct
    obtain ⟨data, held, others⟩ := ih distinct (sendSample transmitChunk cell.1 s cell.2)
    refine ⟨data, ?_, ?_⟩
    · rw [List.map_cons, List.foldl_cons, others cell first, held]
      exact congrArg (· :: _) (put_same ..)
    · intro other apart
      rw [List.mem_cons, not_or] at apart
      rw [List.foldl_cons, others other apart.2]
      exact put_other apart.1

end samples

section bundle
variable [DecidableEq T] {nextslave : T → Option T} {chan : T} {chain : List T} {fuel : Nat}

def sentAll (transmitChunk : M → M × Chunk) (chain : List T) (s : Sending M T) : Sending M T :=
  (samples chain).foldl (fun s cell => sendSample transmitChunk cell.1 s cell.2) s

theorem transmit_samples (transmitChunk : M → M × Chunk) (ends : Chain nextslave (some chan) chain)
    (enough : chain.length < fuel) (master : M) (garbage : Chunk) (writechunk : T → Chunk) :
    transmitToSlaves transmitChunk nextslave fuel chan master garbage writechunk =
      let after := sentAll transmitChunk chain ⟨⟨master, garbage, 8⟩, writechunk⟩
      some (after.data.source, after.writechunk) := by
  rw [transmitToSlaves, @loops_samples _ _ (sendSample transmitChunk) _ _ _ ends _ enough]
  rfl

theorem receive_samples (receiveChunk : R → Chunk → R) (ends : Chain nextslave (some chan) chain)
    (enough : chain.length < fuel) (master : R) (garbage : Chunk) (readchunk : T → Chunk) :
    receiveFromSlaves receiveChunk nextslave fuel chan master garbage readchunk =
      some (((samples chain).map fun cell => (readchunk cell.2).get cell.1).foldl
        (store receiveChunk) ⟨master, garbage, 0⟩).sink := by
  rw [receiveFromSlaves, @loops_samples _ _ (takeSample receiveChunk readchunk) _ _ _ ends _ enough,
    List.foldl_map]
  rfl

/-- The chunks a master sends over any chain of slaves, looped back on every channel, are
    the chunks it receives. -/
theorem bundle_trip (transmitChunk : M → M × Chunk) (receiveChunk : R → Chunk → R)
    (ends : Chain nextslave (some chan) chain) (enough : chain.length < fuel)
    (sender : M) (receiver : R) (garbage garbage' : Chunk) (writechunk : T → Chunk) :
    ∃ looped, transmitToSlaves transmitChunk nextslave fuel chan sender garbage writechunk =
        some ((pulls transmitChunk chain.length sender).1, looped) ∧
      receiveFromSlaves receiveChunk nextslave fuel chan receiver garbage' looped =
        some ((pulls transmitChunk chain.length sender).2.foldl receiveChunk receiver) := by
  obtain ⟨data, held, _⟩ := @sent_samples _ _ _ transmitChunk _ (samples_nodup (chain_nodup ends))
    ⟨⟨sender, garbage, 8⟩, writechunk⟩
  obtain ⟨octets, source⟩ :=
    @draws_blocks _ _ _ _ transmitChunk ⟨sender, garbage, 8⟩ (by decide) rfl chain.length
  rw [samples_length] at data held
  refine ⟨(sentAll transmitChunk chain ⟨⟨sender, garbage, 8⟩, writechunk⟩).writechunk, ?_, ?_⟩
  · rw [transmit_samples transmitChunk ends enough, ← source]
    simp only [sentAll, data]
  · rw [receive_samples receiveChunk ends enough, sentAll, held, octets,
      stores_blocks (by decide) rfl]

/-- Three channels, 4 over 7 to 1, and a sender that counts. -/
def threeSlaves : Nat → Option Nat := fun c => if c = 4 then some 7 else if c = 7 then some 1 else none

def counting (n : Nat) : Nat × Chunk := (n + 8, Vector.ofFn fun i => BitVec.ofNat 8 (n + i.val))

theorem bundle_trip_three : ∃ looped, transmitToSlaves counting threeSlaves 4 4 0
        (Vector.replicate 8 0) (fun _ => Vector.replicate 8 0) =
      some ((pulls counting 3 0).1, looped) ∧
    receiveFromSlaves (fun seen chunk => seen ++ chunk.toList) threeSlaves 4 4 []
        (Vector.replicate 8 0) looped =
      some ((pulls counting 3 0).2.foldl (fun seen chunk => seen ++ chunk.toList) []) := by
  have ends : Chain threeSlaves (some 4) [4, 7, 1] := Chain.cons (Chain.cons (Chain.cons Chain.nil))
  exact bundle_trip counting (fun seen chunk => seen ++ chunk.toList) ends (by decide) 0 []
    (Vector.replicate 8 0) (Vector.replicate 8 0) fun _ => Vector.replicate 8 0

end bundle

end Bundling
