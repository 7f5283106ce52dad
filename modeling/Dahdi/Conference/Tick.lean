import Dahdi.Conference.State

/-!
The audio of one tick: what _process_masterspan does with the channels that have a
conference mode. Echo cancellers, the tone detector and the tone generator of a
channel are left out.
-/
namespace Conference

/-- The gains and the law of a channel. -/
structure Law where
  rxgain : BitVec 8 → BitVec 8
  txgain : BitVec 8 → BitVec 8
  xlaw : BitVec 8 → Sample
  lin2x : Sample → BitVec 8

def linear (law : Law) (octets : Octets) : Chunk := fun x => law.xlaw (octets x)

def coded (law : Law) (lin : Chunk) : Octets := fun x => law.lin2x (lin x)

def quiet (law : Law) : Octets := fun _ => law.lin2x 0

def has (c : Chan) (flag : Confmode) : Bool := c.confmode &&& flag != 0

/-- A channel, the accumulators, and what the channel sends or receives. -/
structure Mixed where
  chan : Chan
  sums : Sums
  lin : Chunk
  octets : Octets

/-- What ACSS and SCSS leave in conflast, "the amount actually added". -/
def contribution (sum lin : Chunk) : Chunk := scss (acss lin sum) sum

/-- Contribute a chunk to the sum of a conference and remember how much it was. -/
def talk (sums : Int → Chunk) (k : Int) (lin : Chunk) : Except Fault (Chunk × (Int → Chunk)) :=
  if ¬ inBounds k then .error .index
  else
    let added := contribution (sums k) lin
    .ok (added, Function.update sums k (acss (sums k) added))

/-- Take the own contribution away and add the conference. -/
def listenIn (sums : Int → Chunk) (k : Int) (lin own : Chunk) : Except Fault Chunk :=
  if ¬ inBounds k then .error .index else .ok (acss (scss lin own) (sums k))

/-- The sum of CONFANN, whose speakers do not take themselves out. -/
def announce (sums : Int → Chunk) (k : Int) (lin : Chunk) : Except Fault (Int → Chunk) :=
  if ¬ inBounds k then .error .index else .ok (Function.update sums k (acss (sums k) lin))

section Receive

/-- The talker of DAHDI_CONF_CONF and DAHDI_CONF_CONFANN; the octets are unmodified. -/
def putTalk (c : Chan) (sums : Sums) (lin : Chunk) (rxb : Octets) : Except Fault Mixed :=
  if has c confTalker then
    (talk sums.next c.confn lin).map fun (added, next) =>
      ⟨{ c with conflast := added }, { sums with next := next }, lin, rxb⟩
  else .ok ⟨{ c with conflast := silence }, sums, lin, rxb⟩

/-- DAHDI_CONF_CONF -/
def putConf (law : Law) (c : Chan) (sums : Sums) (lin : Chunk) (rxb : Octets) :
    Except Fault Mixed :=
  if c.pseudo then
    (if has c confListener then listenIn sums.cur c.confn lin c.conflast else .ok lin).map fun lin =>
      ⟨{ c with putlin := lin }, sums, lin, coded law lin⟩
  else putTalk c sums lin rxb

/-- DAHDI_CONF_REALANDPSEUDO -/
def putRealandpseudo (law : Law) (c : Chan) (sums : Sums) (lin : Chunk) (rxb : Octets) :
    Except Fault Mixed :=
  match putTalk c sums lin rxb with
  | .error fault => .error fault
  | .ok m =>
    (if has c confPseudoListener then listenIn m.sums.cur c.confn silence c.conflast2
      else .ok silence).map fun lin => ⟨m.chan, m.sums, lin, coded law lin⟩

/-- DAHDI_CONF_CONFMON and DAHDI_CONF_CONFANNMON -/
def putConfmon (law : Law) (c : Chan) (sums : Sums) (lin : Chunk) : Except Fault Mixed :=
  if ¬ inBounds c.confn then .error .index
  else
    let heard := coded law (sums.prev c.confn)
    if has c confTalker then
      let cur := Function.update sums.cur c.confn (scss (sums.cur c.confn) c.conflast)
      (talk cur c.confn lin).map fun (added, cur) =>
        ⟨{ c with conflast := added }, { sums with cur := cur }, lin, heard⟩
    else .ok ⟨{ c with conflast := silence }, sums, lin, heard⟩

def putMixing (law : Law) (c : Chan) (sums : Sums) (lin : Chunk) (rxb : Octets) :
    Except Fault Mixed :=
  let mode := c.confmode &&& modeMask
  if mode = confRealandpseudo then putRealandpseudo law c sums lin rxb
  else if mode = confConf then putConf law c sums lin rxb
  else if mode = confConfann then putTalk c sums lin rxb
  else putConfmon law c sums lin

/-- The chunks of a monitored channel that a pseudo channel receives; none is a
    monitor before the echo canceller without its buffer. -/
def putMonitored (mode : Confmode) (p : Chan) (preec : Chunk) : Option (List Chunk) :=
  if mode = confMonitor then some [if p.pseudo then p.getlin else p.putlin]
  else if mode = confMonitortx then some [if p.pseudo then p.putlin else p.getlin]
  else if mode = confMonitorboth then some [p.getlin, p.putlin]
  else if !p.readchunkpreec then none
  else if mode = confMonitorRxPreecho then some [if p.pseudo then p.getlin else preec]
  else if mode = confMonitorTxPreecho then some [if p.pseudo then preec else p.getlin]
  else some [p.getlin, preec]

/-- The other modes of __dahdi_process_putaudio_chunk; `preec` is the readchunkpreec
    of the monitored channel. -/
def putMonitoring (s : State) (law : Law) (preec : Chunk) (c : Chan) (lin : Chunk) (rxb : Octets) :
    Except Fault (Chunk × Octets) :=
  if ¬ c.pseudo ∨ monitors c.confmode = false then .ok (lin, rxb)
  else match c.confChan with
    | none => .error .null
    | some p =>
      let p := s.chans p
      if c.confmode &&& modeMask = confDigitalmon then
        .ok (lin, if p.pseudo then p.getraw else p.putraw)
      else match putMonitored (c.confmode &&& modeMask) p preec with
        | none => .ok (lin, rxb)
        | some heard =>
          let lin := heard.foldl acss lin
          .ok (lin, coded law lin)

/-- A channel that dials receives silence, and so it does for 50 chunks afterwards. -/
def dialTimer (c : Chan) : Chan :=
  if c.dialing then { c with afterdialingtimer := 50 }
  else if c.afterdialingtimer ≠ 0 then { c with afterdialingtimer := c.afterdialingtimer - 1 }
  else c

/-- The timer, the gain and the copies at the start of __dahdi_process_putaudio_chunk. -/
def putStart (law : Law) (c : Chan) (rxb : Octets) : Chan × Chunk × Octets :=
  let c := dialTimer c
  let rxb := if c.afterdialingtimer ≠ 0 ∧ ¬ c.pseudo then quiet law else rxb
  let rxb : Octets := fun x => law.rxgain (rxb x)
  let lin := linear law rxb
  (if c.pseudo then c else { c with putlin := lin, putraw := rxb }, lin, rxb)

/-- The channel is not kept out of the conference while it receives. -/
def putOpen (c : Chan) : Bool := !c.confmute && c.afterdialingtimer == 0 || c.pseudo

/-- __dahdi_process_putaudio_chunk -/
def processPutaudioChunk (s : State) (law : Law) (preec : Chunk) (a : Nat) (rxb : Octets) :
    Except Fault (Octets × State) :=
  let (c, lin, rxb) := putStart law (s.chans a) rxb
  let s := setChan s a c
  if putOpen c then
    if isMixing c.confmode then
      (putMixing law c s.sums lin rxb).map fun m => (m.octets, setSums (setChan s a m.chan) m.sums)
    else (putMonitoring s law preec c lin rxb).map fun (_, rxb) => (rxb, s)
  else .ok (rxb, s)

end Receive

section Transmit

/-- The listener of DAHDI_CONF_CONF and DAHDI_CONF_CONFMON. -/
def getListen (law : Law) (c : Chan) (sums : Sums) (lin : Chunk) : Except Fault Mixed :=
  (if has c confListener then listenIn sums.cur c.confn lin c.conflast else .ok lin).map fun lin =>
    ⟨c, sums, lin, coded law lin⟩

/-- DAHDI_CONF_CONF -/
def getConf (law : Law) (c : Chan) (sums : Sums) (lin : Chunk) : Except Fault Mixed :=
  if c.pseudo then
    if has c confTalker then
      (talk sums.cur c.confn lin).map fun (added, cur) =>
        ⟨{ c with conflast := added, getlin := lin }, { sums with cur := cur }, lin, quiet law⟩
    else .ok ⟨{ c with conflast := silence }, sums, c.getlin, quiet law⟩
  else getListen law c sums lin

/-- DAHDI_CONF_REALANDPSEUDO -/
def getRealandpseudo (law : Law) (c : Chan) (sums : Sums) (lin : Chunk) : Except Fault Mixed :=
  if has c confPseudoTalker then
    match talk sums.next c.confn lin with
    | .error fault => .error fault
    | .ok (added, next) =>
      getConf law { c with conflast2 := c.conflast1, conflast1 := added }
        { sums with next := next } silence
  else getConf law { c with conflast1 := silence, conflast2 := silence } sums silence

/-- DAHDI_CONF_CONFANN and DAHDI_CONF_CONFANNMON -/
def getConfann (law : Law) (c : Chan) (sums : Sums) (lin : Chunk) : Except Fault Mixed :=
  match announce sums.next c.confn lin with
  | .error fault => .error fault
  | .ok next => getListen law c { sums with next := next } silence

def getMixing (law : Law) (c : Chan) (sums : Sums) (lin : Chunk) : Except Fault Mixed :=
  let mode := c.confmode &&& modeMask
  if mode = confRealandpseudo then getRealandpseudo law c sums lin
  else if mode = confConf then getConf law c sums lin
  else if mode = confConfmon then getListen law c sums lin
  else getConfann law c sums lin

/-- The chunks of a monitored channel that a real channel sends. -/
def getMonitored (mode : Confmode) (p : Chan) (preec : Chunk) : Option (List Chunk) :=
  if mode = confMonitor then some [if p.pseudo then p.getlin else p.putlin]
  else if mode = confMonitortx then some [if p.pseudo then p.putlin else p.getlin]
  else if mode = confMonitorboth then some [p.putlin, p.getlin]
  else if !p.readchunkpreec then none
  else if mode = confMonitorRxPreecho then some [if p.pseudo then preec else p.putlin]
  else if mode = confMonitorTxPreecho then some [if p.pseudo then p.putlin else preec]
  else some [p.putlin, preec]

/-- The other modes of __dahdi_process_getaudio_chunk. -/
def getMonitoring (s : State) (law : Law) (preec : Chunk) (c : Chan) (lin : Chunk) (txb : Octets) :
    Except Fault (Chunk × Octets) :=
  if c.confmode &&& modeMask = confDigitalmon then
    match c.confChan with
    | none => .ok (lin, txb)
    | some p =>
      let p := s.chans p
      let txb := if p.pseudo then p.getraw else p.putraw
      .ok (linear law txb, txb)
  else if c.pseudo ∨ isMonitorMode c.confmode = false then .ok (lin, txb)
  else match c.confChan with
    | none => .error .null
    | some p =>
      match getMonitored (c.confmode &&& modeMask) (s.chans p) preec with
      | none => .ok (lin, txb)
      | some heard =>
        let lin := heard.foldl acss lin
        .ok (lin, coded law lin)

def getOpen (c : Chan) : Bool := !c.confmute && !c.dialing || c.pseudo

/-- The switch of __dahdi_process_getaudio_chunk. -/
def getSwitch (s : State) (law : Law) (preec : Chunk) (c : Chan) (lin : Chunk) (txb : Octets) :
    Except Fault Mixed :=
  if getOpen c then
    if isMixing c.confmode then getMixing law c s.sums lin
    else (getMonitoring s law preec c lin txb).map fun (lin, txb) => ⟨c, s.sums, lin, txb⟩
  else .ok ⟨c, s.sums, lin, txb⟩

/-- __dahdi_process_getaudio_chunk -/
def processGetaudioChunk (s : State) (law : Law) (preec : Chunk) (a : Nat) (txb : Octets) :
    Except Fault (Octets × State) :=
  (getSwitch s law preec (s.chans a) (linear law txb) txb).map fun m =>
    let txb := if m.chan.confmute then quiet law else m.octets
    (fun x => law.txgain (txb x),
      setSums (setChan s a { m.chan with getlin := m.lin, getraw := txb }) m.sums)

end Transmit

/-- What the channels get from elsewhere in a tick: what is queued or generated to be
    received, what __dahdi_getbuf_chunk has to send, and the readchunkpreec of the
    monitored channel. -/
structure Signal where
  law : Nat → Law
  rx : Nat → Octets
  tx : Nat → Octets
  preec : Nat → Chunk

/-- __dahdi_receive_chunk -/
def receiveChunk (i : Signal) (s : State) (a : Nat) : Except Fault State :=
  if (s.chans a).audio ∨ (s.chans a).confmode ≠ 0 then
    (processPutaudioChunk s (i.law a) (i.preec a) a (i.rx a)).map Prod.snd
  else .ok s

/-- __dahdi_transmit_chunk -/
def transmitChunk (i : Signal) (s : State) (a : Nat) : Except Fault State :=
  if (s.chans a).audio ∨ (s.chans a).confmode ≠ 0 then
    (processGetaudioChunk s (i.law a) (i.preec a) a (i.tx a)).map Prod.snd
  else .ok s

/-- A walk over channels. -/
def visit (f : State → Nat → Except Fault State) : List Nat → State → Except Fault State
  | [], s => .ok s
  | a :: rest, s =>
    match f s a with
    | .error fault => .error fault
    | .ok s => visit f rest s

/-- Channels of spans without a conference mode are not processed here. -/
def conferenced (f : State → Nat → Except Fault State) (s : State) (a : Nat) : Except Fault State :=
  if (s.chans a).confmode = 0 then .ok s else f s a

/-- rotate_sums -/
def rotateSums (s : State) : State :=
  setSums s {
    prev := s.sums.cur
    cur := s.sums.next
    next := fun k => if 0 ≤ k ∧ k < s.tables.maxconfs then silence else s.sums.prev k }

/-- _process_masterspan -/
def processMasterspan (s : State) (i : Signal) : Except Fault State := do
  let s ← visit (conferenced (receiveChunk i)) s.spanChans s
  let s ← visit (transmitChunk i) s.pseudos (rotateSums s)
  let s ← visit (receiveChunk i) s.pseudos s
  visit (conferenced (transmitChunk i)) s.spanChans s

end Conference
