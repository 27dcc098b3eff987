import FuseTransport.Transfer.Addresses
import FuseTransport.Transfer.SendLane

/-!
# The two ends and their addresses

Both ends of a lane are run with the source of every datagram.  The receiving end answers
at the source until a sender has proved its address; from then on it sends to that peer,
and challenges other sources that take part in the session.  The sending end begins with
the address it was given.
-/

namespace FuseTransport.Transfer

open Proto Foundation

/-- What the clock, the generator and the backend decide when a source may be challenged. -/
structure Probe where
  nowNs : Nat := 0
  drawn : Nat := 0
  works : Bool := true
  deriving DecidableEq, Repr

/-! ## The receiving end -/

/-- The source of a block; the code does not keep the datagram once the block is handled. -/
structure Origin where
  src : PeerAddr
  dg : List UInt8
  deriving DecidableEq, Repr

/-- What a reader knows about addresses: the peer, and the sources of the blocks in its
rings. -/
structure PeerLane where
  anchor : Anchor := {}
  ringSrcs : Nat → List Origin := fun _ => []
  doneSrcs : Nat → List Origin := fun _ => []

/-- `prf lane` is the keyed function of a lane's tokens. -/
structure PeerConfig where
  rx : RxConfig
  prf : Nat → List UInt8 → Nat

structure PeerState where
  base : RxState
  ends : Nat → PeerLane := fun _ => {}

inductive PeerEvent where
  | datagram (lane : Nat) (src : PeerAddr) (inp : RecvLane.Inputs) (dg : List UInt8) (probe : Probe)
  | consumer (lane k count : Nat) (failsAfter : Nat → Option Nat)
  | result (lane k nowNs : Nat) (probe : Probe)
  | own (e : RxEvent)

def RxEvent.unprompted : RxEvent → Bool
  | .datagram .. => false
  | .consumer .. => false
  | .results .. => false
  | .probe .. => false
  | _ => true

namespace RecvLane

def retries (L : RecvLane) (wantToken : Nat) (dg : List UInt8) : Bool :=
  match decodeStreamStart dg with
  | some ss =>
    ss.token = wantToken && L.haveStart && ss.nonce = L.peerNonce && ctlAuthentic L.signer dg
  | none => false

def response (L : RecvLane) (dg : List UInt8) : Option Nat :=
  match decodePathProbe .pathResponse dg with
  | some pp =>
    if L.haveStart ∧ pp.nonce = L.peerNonce ∧ ctlAuthentic L.signer dg then some pp.challenge else none
  | none => none

def accepts (L : RecvLane) (nowNs : Nat) (c : Completion) : Bool :=
  c.result = .written && (L.rx.onReceive c.seq c.sendTime nowNs).2 = .accepted

end RecvLane

namespace PeerState

def create (sink : Sink) : PeerState where
  base := RxState.create sink

variable (cfg : PeerConfig) (st : PeerState)

def setEnd (lane : Nat) (P : PeerLane) : PeerState :=
  { st with ends := Function.update st.ends lane P }

def onAnchor (lane : Nat) (change : Anchor → Anchor) : PeerState :=
  st.setEnd lane { st.ends lane with anchor := change (st.ends lane).anchor }

/-- Traffic for the session arrived from a source other than the peer. -/
def probePath (lane : Nat) (src : PeerAddr) (p : Probe) : Option PeerState :=
  match ((st.ends lane).anchor.path.wantProbe src p.nowNs p.drawn).2 with
  | none => some (st.onAnchor lane fun a => a.probe src p.nowNs p.drawn [])
  | some challenge =>
    (st.base.act cfg.rx (.probe lane p.works challenge)).map fun out =>
      { st.onAnchor lane (fun a => a.probe src p.nowNs p.drawn out.2) with base := out.1 }

/-- The peer after a datagram that the lane has handled. -/
def turn (L L' : RecvLane) (src : PeerAddr) (dg : List UInt8) (a : Anchor) : Anchor :=
  if L.haveStart = false ∧ L'.haveStart = true then a.join src
  else match L.response dg with
    | some value => a.respond src value
    | none => a

/-- The sources of the blocks in the rings after a datagram. -/
def handOut (cfg : RxConfig) (L : RecvLane) (origin : Origin) (srcs : Nat → List Origin) :
    Nat → List Origin :=
  match RecvLane.passes cfg L origin.dg with
  | some d =>
    Function.update srcs (RecvLane.route cfg d.hdr) (srcs (RecvLane.route cfg d.hdr) ++ [origin])
  | none => srcs

/-- The lane handles a datagram.  The answer of a session goes to the peer, every other
reply to the source. -/
def receive (lane : Nat) (src : PeerAddr)
    (inp : RecvLane.Inputs) (dg : List UInt8) : Option PeerState :=
  (st.base.act cfg.rx (.datagram lane inp dg)).map fun out =>
    let L := st.base.lanes lane
    let a := turn L (out.1.lanes lane) src dg (st.ends lane).anchor
    { st.setEnd lane
        { st.ends lane with
          anchor := if L.retries inp.wantToken dg then a.sendPeer out.2 else a.send src out.2
          ringSrcs := handOut cfg.rx L ⟨src, dg⟩ (st.ends lane).ringSrcs } with
      base := out.1 }

/-- The token a source has to echo. -/
def wantToken (lane : Nat) (src : PeerAddr) (dg : List UInt8) : Nat :=
  addressToken (cfg.prf lane) src (((decodeStreamStart dg).map fun ss => ss.nonce).getD 0)

/-- One datagram; a repeated opening message from a new source has it challenged first. -/
def onDatagram (lane : Nat) (src : PeerAddr)
    (inp : RecvLane.Inputs) (dg : List UInt8) (p : Probe) : Option PeerState :=
  let inp := { inp with wantToken := wantToken cfg lane src dg }
  let heard := st.onAnchor lane fun a => a.hear src dg
  if (st.base.lanes lane).retries inp.wantToken dg ∧ (st.ends lane).anchor.peer ≠ some src then
    (heard.probePath cfg lane src p).bind fun next => next.receive cfg lane src inp dg
  else heard.receive cfg lane src inp dg

/-- One batch of a consumer; the reports carry the sources of their blocks. -/
def onConsumer (lane k count : Nat) (failsAfter : Nat → Option Nat) : Option PeerState :=
  (st.base.act cfg.rx (.consumer lane k count failsAfter)).map fun out =>
    let P := st.ends lane
    let n := min count (RecvLane.batchSize cfg.rx (st.base.lanes lane) k)
    { st.setEnd lane
        { P with
          ringSrcs := Function.update P.ringSrcs k ((P.ringSrcs k).drop n)
          doneSrcs := Function.update P.doneSrcs k (P.doneSrcs k ++ (P.ringSrcs k).take n) } with
      base := out.1 }

/-- The reader takes one verdict; an accepted block from a new source has it challenged. -/
def onResult (lane k nowNs : Nat) (p : Probe) : Option PeerState :=
  match ((st.base.lanes lane).dones k).head?, ((st.ends lane).doneSrcs k).head? with
  | some c, some origin =>
    (st.base.act cfg.rx (.results lane k 1 nowNs)).bind fun out =>
      let P := st.ends lane
      let next :=
        { st.setEnd lane
            { P with doneSrcs := Function.update P.doneSrcs k ((P.doneSrcs k).drop 1) } with
          base := out.1 }
      if (st.base.lanes lane).accepts nowNs c ∧ P.anchor.peer ≠ some origin.src then
        next.probePath cfg lane origin.src p
      else some next
  | _, _ => none

def step : PeerEvent → Option PeerState
  | .datagram lane src inp dg probe => st.onDatagram cfg lane src inp dg probe
  | .consumer lane k count failsAfter => st.onConsumer cfg lane k count failsAfter
  | .result lane k nowNs probe => st.onResult cfg lane k nowNs probe
  | .own e =>
    if e.unprompted then
      (st.base.act cfg.rx e).map fun out =>
        { st.onAnchor e.lane (fun a => a.sendPeer out.2) with base := out.1 }
    else none

end PeerState

structure SendEnd where
  lane : SendLane
  anchor : Anchor

inductive SendEndEvent where
  | receive (src : PeerAddr) (dg : List UInt8) (works : Nat → Bool) (wireNs : Nat) (probe : Probe)
  | own (e : TxEvent)

def TxEvent.unprompted : TxEvent → Bool
  | .receive .. => false
  | .probe .. => false
  | _ => true

namespace SendLane

def acknowledges (cfg : SendConfig) (lane : Nat) (L : SendLane) (dg : List UInt8) : Bool :=
  match decodeAck dg with
  | some ack => L.phase = .sending && ctlAuthentic L.signer dg && ack.nonce = cfg.nonce lane
  | none => false

def response (cfg : SendConfig) (lane : Nat) (L : SendLane) (dg : List UInt8) : Option Nat :=
  match decodePathProbe .pathResponse dg with
  | some pp =>
    if L.phase = .sending ∧ ctlAuthentic L.signer dg ∧ pp.nonce = cfg.nonce lane then
      some pp.challenge
    else none
  | none => none

end SendLane

namespace SendEnd

variable (cfg : SendConfig)

def create (lane : Nat) (dst : PeerAddr) : SendEnd where
  lane := SendLane.create cfg lane
  anchor := { peer := some dst }

def probePath (lane : Nat) (st : SendEnd) (src : PeerAddr) (p : Probe) : Option SendEnd :=
  match (st.anchor.path.wantProbe src p.nowNs p.drawn).2 with
  | none => some { st with anchor := st.anchor.probe src p.nowNs p.drawn [] }
  | some challenge =>
    (st.lane.act cfg lane (.probe p.works challenge)).map fun out =>
      { lane := out.1, anchor := st.anchor.probe src p.nowNs p.drawn out.2 }

/-- The lane handles a datagram.  The reply to a challenge goes to its source, all else to
the destination. -/
def receive (lane : Nat) (st : SendEnd) (src : PeerAddr) (dg : List UInt8)
    (works : Nat → Bool) (wireNs : Nat) : Option SendEnd :=
  (st.lane.act cfg lane (.receive dg works wireNs)).map fun out =>
    let a := match st.lane.response cfg lane dg with
      | some value => st.anchor.respond src value
      | none => st.anchor
    { lane := out.1
      anchor := if peekMsgType dg = some .pathChallenge then a.send src out.2 else a.sendPeer out.2 }

def step (lane : Nat) (st : SendEnd) : SendEndEvent → Option SendEnd
  | .receive src dg works wireNs p =>
    let heard := { st with anchor := st.anchor.hear src dg }
    if st.lane.acknowledges cfg lane dg ∧ st.anchor.peer ≠ some src then
      (heard.probePath cfg lane src p).bind fun next => next.receive cfg lane src dg works wireNs
    else heard.receive cfg lane src dg works wireNs
  | .own e =>
    if e.unprompted then
      (st.lane.act cfg lane e).map fun out =>
        { lane := out.1, anchor := st.anchor.sendPeer out.2 }
    else none

end SendEnd

end FuseTransport.Transfer
