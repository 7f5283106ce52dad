import Dahdi.Dynamic.Message

/-!
Several dynamic spans in one Ethernet frame, from dahdi_dynamic_ethmf.c. Using an
array element that was never assigned or lies outside its array, and reading past
the end of a frame, have no result.
-/
namespace Multiframe
open Dynamic

def maxPerSpanGroup : Int := 8
def maxSpans : Nat := 4
def flagIgnoreChan0 : Octet := 8

/-- struct ztdeth with its dynamic span. The sub-address is in host order.
    `delivered` is history: what dahdi_dynamic_receive was given. -/
structure Ztdeth where
  addr : List Octet
  subaddr : BitVec 16
  span : Span
  dev : Bool
  msgbuf : List Octet
  ready : Bool
  delay : Nat
  realChannels : Nat
  noFrontPadding : Bool
  refcnt : Int
  delivered : List (List Octet)

/-- ethmf_list and the shutdown flag. -/
structure Ethmf where
  list : List Ztdeth
  shutdown : Bool

/-- What one pass over ethmf_list counts, and the ready spans by sub-address. -/
structure Ready where
  spanCount : Nat
  spansReady : Nat
  spans : Nat → Option Nat

/-- The list loop of ethmf_trx_spans_ready, from an index on. -/
def countReady (hash : List Octet → BitVec 32) (addrHash : BitVec 32) :
    Nat → Ready → List Ztdeth → Option Ready
  | _, r, [] => some r
  | i, r, t :: rest =>
    if t.delay = 0 ∧ hash t.addr = addrHash then
      let r := { r with spanCount := r.spanCount + 1 }
      if t.ready then
        if t.subaddr.toInt < maxPerSpanGroup then
          if t.subaddr.toInt < 0 then none
          else countReady hash addrHash (i + 1) { r with
            spansReady := r.spansReady + 1
            spans := fun x => if x = t.subaddr.toNat then some i else r.spans x } rest
        else countReady hash addrHash (i + 1) r rest
      else countReady hash addrHash (i + 1) r rest
    else countReady hash addrHash (i + 1) r rest

/-- ethmf_trx_spans_ready -/
def trxSpansReady (hash : List Octet → BitVec 32) (addrHash : BitVec 32) (list : List Ztdeth) :
    Option (Nat × (Nat → Option Nat)) :=
  match countReady hash addrHash 0 ⟨0, 0, fun _ => none⟩ list with
  | none => none
  | some r =>
    some (if r.spanCount ≠ 0 ∧ r.spansReady ≠ 0 ∧ r.spanCount = r.spansReady then r.spansReady else 0,
      r.spans)

/-- The spans of the frame, in the order of their places in the array. -/
def framed (list : List Ztdeth) (spans : Nat → Option Nat) (spansReady : Nat) :
    Option (List Ztdeth) :=
  (List.range spansReady).mapM fun index => (spans index).bind fun i => list[i]?

/-- rbs[index]. The code assigns rbs[spans_ready] for other counts, and leaves
    the element it reads. -/
def rbsOf (chan : Nat) : Option Nat :=
  if chan = 24 then some 12 else if chan = 31 then some 16 else none

def padOf (z : Ztdeth) : Int :=
  ((if z.noFrontPadding then 32 else 31) - z.realChannels) * 8

def headerPart (z : Ztdeth) : List Octet :=
  let msgbuf := if z.noFrontPadding then z.msgbuf
    else z.msgbuf.modify 1 fun flags => flags ||| flagIgnoreChan0
  msgbuf.take 6

/-- The sixteen octets for the signalling words; those past the words are left
    as they are. -/
def rbsPart (stale : Octet) (z : Ztdeth) (rbs : Nat) : List Octet :=
  (z.msgbuf.drop 6).take rbs ++ List.replicate (16 - rbs) stale

def voicePart (z : Ztdeth) (rbs : Nat) : List Octet :=
  (if z.noFrontPadding then [] else List.replicate 8 0xA5) ++
    (z.msgbuf.drop (6 + rbs)).take (z.realChannels * 8) ++ List.replicate (padOf z).toNat 0xDD

/-- The frame after its header, and the count of spans in the header. -/
structure Frame where
  subaddr : BitVec 16
  data : List Octet
  deriving DecidableEq

/-- The frame of the ready spans; the arrays pad and rbs have maxSpans elements. -/
def assemble (stale : Octet) (zs : List Ztdeth) : Option Frame :=
  if maxSpans < zs.length then none
  else match zs.mapM fun z => rbsOf z.realChannels with
    | none => none
    | some rbs => some ⟨0x8000#16 ||| BitVec.ofNat 16 (zs.length % 256),
        zs.flatMap headerPart ++
          (zs.zip rbs).flatMap (fun p => rbsPart stale p.1 p.2) ++
          (zs.zip rbs).flatMap fun p => voicePart p.1 p.2⟩

/-- msgbuf keeps the flag of front padding, and the span is ready for new data. -/
def sent (z : Ztdeth) : Ztdeth :=
  { z with
    msgbuf := if z.noFrontPadding then z.msgbuf
      else z.msgbuf.modify 1 fun flags => flags ||| flagIgnoreChan0
    ready := false }

def store (z : Ztdeth) (msg : List Octet) : Ztdeth :=
  if z.ready then z else { z with msgbuf := msg, ready := true }

/-- ztdethmf_transmit for the span at an index of the list. -/
def transmit (hash : List Octet → BitVec 32) (stale : Octet) (e : Ethmf) (i : Nat)
    (msg : List Octet) : Option (Option Frame × Ethmf) :=
  match e.list[i]? with
  | none => some (none, e)
  | some z =>
    if e.shutdown then some (none, e)
    else if !z.dev then some (none, e)
    else
      let list := e.list.set i (store z msg)
      match trxSpansReady hash (hash z.addr) list with
      | none => none
      | some (spansReady, spans) =>
        if spansReady = 0 then some (none, { e with list := list })
        else match framed list spans spansReady with
          | none => none
          | some zs =>
            match assemble stale zs with
            | none => none
            | some frame => some (some frame, { e with
                list := list.mapIdx fun j z =>
                  if (List.range spansReady).any (fun index => spans index = some j) then sent z else z })

/-- find_ethmf, as an index of the list. -/
def findEthmf (list : List Ztdeth) (addr : List Octet) (subaddr : BitVec 16) : Option Nat :=
  list.findIdx? fun z => decide (z.delay = 0) && decide (addr = z.addr) && decide (z.subaddr = subaddr)

def rbslenOf (channels : Nat) : Nat :=
  if channels = 24 then 12 else if channels = 31 then 16 else (channels + 3) / 4 * 2

def slice (data : List Octet) (start len : Nat) : Option (List Octet) :=
  if start + len ≤ data.length then some ((data.drop start).take len) else none

/-- z->rcvbuf for the span at an index of the frame. -/
def rcvbuf (data : List Octet) (numSpans index skip : Nat) (flags : Octet) (channels : Nat) :
    Option (List Octet) :=
  let rbslen := rbslenOf channels
  match slice data (6 * index) 6, slice data (6 * numSpans + 16 * index) rbslen,
      slice data (6 * numSpans + 16 * numSpans + 256 * index + skip) (channels * 8) with
  | some header, some rbs, some voice =>
    let header := if flags &&& flagIgnoreChan0 ≠ 0 then header.set 1 (flags &&& ~~~flagIgnoreChan0)
      else header
    some (header ++ rbs ++ voice)
  | _, _, _ => none

def deliver (z : Ztdeth) (frontPadding : Bool) (msg : List Octet) : Option Ztdeth :=
  (receive z.span msg).map fun span =>
    { z with span := span, noFrontPadding := !frontPadding, delivered := z.delivered ++ [msg] }

/-- The body of the loop of ztdethmf_rcv. `skip` outlives the pass. -/
def rcvSpan (source : List Octet) (data : List Octet) (numSpans index skip : Nat)
    (list : List Ztdeth) : Option (Nat × List Ztdeth) :=
  match findEthmf list source (BitVec.ofNat 16 index) with
  | none => some (skip, list)
  | some i =>
    match list[i]?, data[index * 6]?, data[index * 6 + 1]?, data[index * 6 + 5]? with
    | some z, some samples, some flags, some channels =>
      if samples ≠ 8 ∨ 32 ≤ channels.toNat ∨ channels = 0 then some (skip, list)
      -- atomic_dec_and_test finds the buffer in use
      else if z.refcnt - 1 = 0 then some (skip, list)
      else
        let front := decide (flags &&& flagIgnoreChan0 ≠ 0)
        let skip := if front then 8 else skip
        match rcvbuf data numSpans index skip flags channels.toNat with
        | none => none
        | some msg =>
          match deliver z front msg with
          | none => none
          | some z => some (skip, list.set i z)
    | _, _, _, _ => none

/-- The loop, over the number of passes still to come. -/
def rcvLoop (source : List Octet) (data : List Octet) (numSpans : Nat) :
    Nat → Nat → Nat → List Ztdeth → Option (List Ztdeth)
  | 0, _, _, list => some list
  | left + 1, index, skip, list =>
    match rcvSpan source data numSpans index skip list with
    | none => none
    | some (skip, list) => rcvLoop source data numSpans left (index + 1) skip list

/-- ztdethmf_rcv; the body comes before the test of the loop. -/
def rcv (e : Ethmf) (source : List Octet) (frame : Frame) : Option Ethmf :=
  if frame.subaddr &&& 0x8000#16 = 0 then some e
  else
    let numSpans := (frame.subaddr &&& 0xff#16).toNat
    if maxSpans < numSpans then some e
    else
      let passes := if e.shutdown then 1 else max 1 numSpans
      (rcvLoop source frame.data numSpans passes 0 0 e.list).map fun list => { e with list := list }

end Multiframe
