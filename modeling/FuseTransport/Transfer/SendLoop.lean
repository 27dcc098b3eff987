import FuseTransport.Foundation.Cuts
import FuseTransport.Transfer.BlockSize
import FuseTransport.Transfer.OldAcks
import FuseTransport.Transfer.Tiling

/-!
# The sending loop of a lane

Around the steps of a lane runs a loop that decides how much is sent at once.  It packs
new blocks into a batch while the congestion window and the window of the receiver have
room, counts the bytes sent and acknowledged, and adapts the block size at the end of each
turn.  Pacing decides only when a batch goes out; a batch may come at any time here.
-/

namespace FuseTransport.Transfer

open Foundation.Cuts Foundation.Runs Proto

def kGsoBudget : Nat := 60000

def kMaxGsoSegments : Nat := 64

/-- The size of the buffer in which a batch is staged. -/
def stagingBytes : Nat := kGsoBudget + kMaxDatagramSize

/-- A call to send over a route.  A block size of zero is refused. -/
structure LoopConfig where
  send : SendConfig
  sized : 0 < send.blockSize.toNat := by decide
  route : Route

/-- The congestion window counts blocks of the configured size; its cap is what the
registry holds of the largest blocks. -/
def LoopConfig.controller (cfg : LoopConfig) : CongestionController :=
  (CongestionController.create
    (min 65535 (max kWindow (kWindow * cfg.send.mtuCeiling cfg.route / cfg.send.baseBlock)))
    true 1 16).enableSlowStart 128

/-- What a block of a batch meets: whether it can be sealed, and the two clocks. -/
structure Attempt where
  works : Bool := true
  nowNs : Nat := 0
  wireNs : Nat := 0
  deriving DecidableEq, Repr

/-- A batch under construction; its blocks lie in `staged` one behind the other.  The code
keeps only the number of the `datagrams`, and it does not keep `crowded`: a sealed block
did not find room in the buffer. -/
structure Packing where
  lane : SendLane
  sentBytes : Nat
  staged : List UInt8 := []
  datagrams : List Sent := []
  crowded : Bool := false

namespace Packing

section Packing

variable (cfg : SendConfig) (lane block : Nat)

def segment : Nat := kDataPrefixSize + block + cfg.tagBytes

/-- A short block goes out alone. -/
def short (p : Packing) : Bool :=
  p.lane.rangeEnd - p.lane.nextOffset < block ∧ p.datagrams ≠ []

def put (p : Packing) (a : Attempt) : Packing :=
  match p.lane.sendNext cfg lane block a.works a.nowNs a.wireNs (stagingBytes - p.staged.length) with
  | (L, []) =>
    { p with
      lane := L
      crowded := (protect (cfg.cipher lane) a.works lane p.lane.nextSeq
        (p.lane.nextBlock cfg lane (p.lane.blockLength block))).isSome }
  | (L, sent :: _) =>
    { p with
      lane := L
      sentBytes := u64 (p.sentBytes + p.lane.blockLength block)
      staged := p.staged ++ sent.bytes
      datagrams := p.datagrams ++ [sent] }

/-- The batch goes on behind a full block that is not the last one. -/
def goesOn (p q : Packing) : Bool :=
  p.datagrams.length < q.datagrams.length ∧ p.lane.isLast (p.lane.blockLength block) = false ∧
    q.staged.length = p.staged.length + segment cfg block

def pack (emptyLast : Bool) (attempts : Nat → Attempt) : Nat → Packing → Packing
  | 0, p => p
  | room + 1, p =>
    if p.lane.ri < p.lane.ranges.length ∨ emptyLast = true then
      if p.short block then p
      else
        let q := p.put cfg lane block (attempts p.datagrams.length)
        if p.goesOn cfg block q then pack emptyLast attempts room q else q
    else p

end Packing

end Packing

/-! ## The loop -/

/-- The variables of the loop around a lane.  The code does not keep `news`, the datagrams
of the blocks as they were first sent. -/
structure SendLoop where
  lane : SendLane
  est : Estimate
  sizing : BlockSizing
  sentBytes : Nat := 0
  lastBase : Nat := 0
  lossSeen : Bool := false
  news : List Sent := []

inductive LoopEvent where
  | lane (e : TxEvent)
  | controller (e : ControllerEvent)
  | batch (attempts : Nat → Attempt)
  | turn

namespace SendLoop

section Loop

variable (cfg : LoopConfig) (lane : Nat)

def create : SendLoop where
  lane := SendLane.create cfg.send lane
  est := { cc := cfg.controller }
  sizing := BlockSizing.create cfg.send cfg.route

/-! ### Windows -/

variable (st : SendLoop)

/-- The congestion window in bytes, at least four blocks of the configured size. -/
def congestionBytes : Nat := u64 (max 4 st.est.cc.window * cfg.send.baseBlock)

/-- What the receiver said it can hold, at least four blocks. -/
def rwndBytes : Nat :=
  if st.est.peerRwnd = kRwndUnlimited then 2 ^ 64 - 1
  else u64 (max st.est.peerRwnd 4 * st.sizing.block)

def windowBytes : Nat := min (st.congestionBytes cfg) st.rwndBytes

def inflight : Nat := u64Sub st.sentBytes st.est.ackedBytes

/-- How many blocks the windows have room for, rounded up. -/
def byteRoom : Nat :=
  u64 (u64Sub (st.windowBytes cfg) st.inflight + st.sizing.block - 1) / st.sizing.block

def burstCap : Nat := if st.est.cc.srttNs > 1000000 then 16 else kMaxGsoSegments

def seg : Nat := Packing.segment cfg.send st.sizing.block

def maxSegs : Nat :=
  min (min (kGsoBudget / st.seg cfg) (u64Sub kWindow (u64Sub st.lane.nextSeq st.lane.base)))
    (min (st.byteRoom cfg) st.burstCap)

/-- The guard of a batch. -/
def Sends : Prop :=
  st.lane.status = none ∧ st.lane.phase = .sending ∧ st.lane.pending ∧
    st.lane.nextSeq < u64 (st.lane.base + kWindow) ∧ st.inflight < st.windowBytes cfg

instance  : Decidable (st.Sends cfg) := inferInstanceAs (Decidable (_ ∧ _))

/-- The batch that the loop packs. -/
def packed (attempts : Nat → Attempt) : Packing :=
  Packing.pack cfg.send lane st.sizing.block
    (decide (st.lane.ranges = [] ∧ st.lane.nextSeq = 0)) attempts (st.maxSegs cfg)
    { lane := st.lane, sentBytes := st.sentBytes }

/-- A buffer that the kernel cuts; what is no longer than one segment is sent as it is. -/
def sendSegmented (segment : Nat) (buf : List UInt8) : List (List UInt8) :=
  if buf.length ≤ segment then [buf] else cut segment buf.length buf

/-- How a batch leaves: one datagram alone, and several cut by the kernel or, when that
fails, by the loop. -/
def leaves (p : Packing) (segmented : Bool) : List (List UInt8) :=
  if p.datagrams = [] then []
  else if p.datagrams.length = 1 ∨ segmented = false then
    cut (st.seg cfg) p.datagrams.length p.staged
  else sendSegmented (st.seg cfg) p.staged

/-! ### Steps -/

def hearsLoss (dg : List UInt8) : Bool :=
  st.lane.phase = .sending ∧ ctlAuthentic st.lane.signer dg = true ∧
    peekMsgType dg = some .nack ∧ (decodeNack dg).isSome

def learn : TxEvent → Estimate × Bool
  | .receive dg _ wireNs =>
    match st.lane.heeded cfg.send lane dg with
    | some ack => (st.est.onAck st.lane ack wireNs, st.lossSeen)
    | none =>
      if st.hearsLoss dg then ({ st.est with cc := st.est.cc.onLoss }, true)
      else (st.est, st.lossSeen)
  | _ => (st.est, st.lossSeen)

/-- New blocks are sent in batches only. -/
def isNewBlock : TxEvent → Bool
  | .sendBlock .. => true
  | _ => false

def onTurn : SendLoop :=
  let advanced := st.lane.base != st.lastBase
  { st with
    sizing := st.sizing.turn cfg.send cfg.route advanced st.lossSeen
    est := if advanced then { st.est with cc := st.est.cc.onProgress } else st.est
    lastBase := st.lane.base
    lossSeen := false }

/-- One step of the loop, with what it puts on the wire. -/
def act : LoopEvent → Option (SendLoop × List Sent)
  | .lane e =>
    if isNewBlock e then none
    else (st.lane.act cfg.send lane e).map fun out =>
      ({ st with
          lane := out.1, est := (st.learn cfg lane e).1, lossSeen := (st.learn cfg lane e).2 }, out.2)
  | .controller e => some ({ st with est := { st.est with cc := e.apply st.est.cc } }, [])
  | .batch attempts =>
    if st.Sends cfg then
      let p := st.packed cfg lane attempts
      some ({ st with
        lane := p.lane, sentBytes := p.sentBytes, news := st.news ++ p.datagrams }, p.datagrams)
    else none
  | .turn =>
    if st.lane.status = none ∧ st.lane.phase = .sending then some (st.onTurn cfg, []) else none

def step (e : LoopEvent) : Option SendLoop := (st.act cfg lane e).map Prod.fst

end Loop

end SendLoop

end FuseTransport.Transfer
