import FuseTransport.Mux.Adoption
import FuseTransport.Mux.Receiver
import FuseTransport.Mux.WindowSafety
import FuseTransport.Transfer.RecvLane
import FuseTransport.Transfer.Shards

/-!
# A multiplexed transfer

The sender offers its streams in a handshake and then sends one shard of its buffer on each;
the receiver takes the streams from the offer and puts the shards together again.  Between
them is a network that loses, repeats and reorders datagrams, but neither changes nor makes
any.
-/

namespace FuseTransport.Mux

open Foundation Foundation.Runs Proto
open FuseTransport.Transfer (TransferStatus worst shardOffset shardLength)

/-- The sender's configuration and its buffer, and what the receiver's caller has in `out`.
The configuration has passed the checks of `run`; a buffer is never larger than half of the
address space. -/
structure MuxTransfer where
  numStreams : Nat
  blockSize : Nat
  windowSize : Nat
  data : List UInt8
  outBefore : List UInt8 := []
  streams_pos : 0 < numStreams
  streams_le : numStreams ≤ kMaxStreams
  blockSize_lt : blockSize < 2 ^ 16
  windowSize_lt : windowSize < 2 ^ 16
  data_lt : data.length < 2 ^ 63

namespace MuxTransfer

variable (job : MuxTransfer)

def streamConfig (i : Nat) : StreamConfig where
  streamId := i
  streamFlags := kStreamFlagLossless
  blockSize := job.blockSize
  windowSize := job.windowSize

/-- What the sender offers. -/
def payload : SetupPayload where
  numWorkers := 1
  streams := (List.range job.numStreams).map job.streamConfig

/-- The part of the buffer that stream `i` sends. -/
def shard (i : Nat) : List UInt8 :=
  (job.data.drop (shardOffset job.data.length job.numStreams i)).take
    (shardLength job.data.length job.numStreams i)

/-- The sender's streams; each has a nonce and a clock offset of its own. -/
def buildStreams (nonce clockOffset : Nat → Nat) (nowNs : Nat) : List SenderStreamState :=
  (List.range job.numStreams).map fun i =>
    SenderStreamState.create i job.blockSize job.windowSize (job.shard i) (u64 (nonce i))
      (u64 (clockOffset i)) nowNs

end MuxTransfer

/-- The answer of a handshake round; it goes to the peer, if there is one. -/
def MuxSetup.reply {Address : Type} (st : MuxSetup Address) : SetupTurn Address → Option (List UInt8)
  | .heard source bytes random nowNs =>
    if isForeignVersion (received bytes) ∨ (st.onDatagram source bytes random nowNs).peer.isNone then
      none
    else (st.resp.onDatagram random (received bytes) kMaxSetupDatagramSize nowNs).2
  | .silence nowNs =>
    if st.peer.isNone then none else (st.resp.onTimeout kMaxSetupDatagramSize nowNs).2

namespace ReceiverStreamState

def wire (s : ReceiverStreamState) : List (List UInt8) :=
  s.log.acks.filterMap (encodeAck · (kMaxAuxDatagramSize + 64)) ++
    s.log.nacks.filterMap (encodeNack · (kMaxAuxDatagramSize + 64))

def status (s : ReceiverStreamState) (timedOut : Bool) : TransferStatus :=
  if s.resourceLimit then .resourceLimit
  else if s.haveStart ∧ s.written = s.shardBytes then .ok
  else if timedOut then .timeout
  else .incomplete

end ReceiverStreamState

/-- The status of the call, and what it leaves in `out`. -/
def MuxReceiver.result (m : MuxReceiver) (timedOut : Bool) : TransferStatus × List UInt8 :=
  let status := worst (m.streams.map fun s => s.status timedOut)
  (status, if status = .ok then m.streams.flatMap ReceiverStreamState.shard else [])

/-! ## The session -/

/-- Both ends.  A side has no streams until its handshake is over.  The code does not keep
the SETUP datagrams it has sent. -/
structure MuxSession where
  init : SetupInitiator
  senders : List SenderStreamState := []
  setupSent : List (List UInt8) := []
  setup : MuxSetup Unit := MuxSetup.create
  replies : List (List UInt8) := []
  receiver : MuxReceiver := { streams := [] }
  returned : Option (TransferStatus × List UInt8) := none

inductive MuxEvent where
  | start (nowNs : Nat)
  | initiatorTimeout (nowNs : Nat)
  | buildSenders (nonce clockOffset : Nat → Nat) (nowNs : Nat)
  | trySendOne (stream nowNs : Nat) (accepted : Nat → Bool)
  | toSender (dg : List UInt8) (nowNs : Nat) (accepted : Nat → Bool)
  | toResponder (dg : List UInt8) (random nowNs : Nat)
  | responderTimeout (nowNs : Nat)
  | buildReceivers (nowNs : Nat)
  | toReceiver (dg : List UInt8) (nowNs : Nat) (allocated : Bool)
  | service (stream nowNs : Nat)
  | giveUp (status : TransferStatus)
  | finish (timedOut : Bool)

namespace MuxSession

def create (job : MuxTransfer) : MuxSession where
  init := SetupInitiator.create job.payload kDefaultSetupTimeoutNs kDefaultSetupMaxRetries

variable (st : MuxSession)

/-- Every datagram the sender has sent; each may arrive at any time, or never. -/
def forward : List (List UInt8) :=
  st.setupSent ++ st.senders.flatMap fun s => s.log.wire

def backward : List (List UInt8) :=
  st.replies ++ st.receiver.streams.flatMap ReceiverStreamState.wire

def initiated (out : SetupInitiator × Option (List UInt8)) : MuxSession :=
  { st with init := out.1, setupSent := st.setupSent ++ out.2.toList }

def responded (event : SetupTurn Unit) : Option MuxSession :=
  if st.returned.isSome then none
  else (st.setup.turn event).map fun setup =>
    { st with setup := setup, replies := st.replies ++ (st.setup.reply event).toList }

/-- A step of the receiver's streams. -/
def received (event : MuxReceiver.Event) : Option MuxSession :=
  (st.receiver.step event).map fun receiver => { st with receiver := receiver }

def step (job : MuxTransfer) (st : MuxSession) : MuxEvent → Option MuxSession
  | .start nowNs =>
    if st.init.dataSent ∨ st.init.failed then none
    else some (st.initiated (st.init.start kMaxSetupDatagramSize nowNs))
  | .initiatorTimeout nowNs =>
    if st.senders = [] then some (st.initiated (st.init.onTimeout kMaxSetupDatagramSize nowNs))
    else none
  | .buildSenders nonce clockOffset nowNs =>
    if st.init.isMatched ∧ st.senders = [] then
      some { st with senders := job.buildStreams nonce clockOffset nowNs }
    else none
  | .trySendOne stream nowNs accepted =>
    (st.senders[stream]?.bind fun s => s.trySendOne nowNs accepted).map fun sent =>
      { st with senders := st.senders.set stream sent.1 }
  | .toSender dg nowNs accepted =>
    -- a repeated SETUP reply is confirmed again while the streams run
    if dg ∈ st.backward ∧ st.init.failed = false then
      some { st.initiated (st.init.onDatagram dg kMaxSetupDatagramSize nowNs) with
        senders := st.senders.map fun s => s.dispatchIncoming dg nowNs accepted }
    else none
  | .toResponder dg random nowNs =>
    if dg ∈ st.forward then st.responded (.heard () dg random nowNs) else none
  | .responderTimeout nowNs => st.responded (.silence nowNs)
  | .buildReceivers nowNs =>
    if st.receiver.streams = [] ∧ st.returned.isNone then
      st.setup.adopted.map fun config =>
        { st with
          receiver := MuxReceiver.buildStreams (config.streams.map StreamConfig.windowSize) nowNs }
    else none
  | .toReceiver dg nowNs allocated =>
    if dg ∈ st.forward then st.received (.incoming dg nowNs allocated) else none
  | .service stream nowNs => st.received (.service stream nowNs)
  | .giveUp status =>
    -- every return before the streams are built
    if st.receiver.streams = [] ∧ st.returned.isNone ∧ status ≠ .ok then
      some { st with returned := some (status, job.outBefore) }
    else none
  | .finish timedOut =>
    if st.receiver.streams = [] then none
    else (st.received .finish).map fun st =>
      { st with returned := some (st.receiver.result timedOut) }

variable {st} {next : MuxSession} {nowNs : Nat}

theorem received_incoming {dg : List UInt8} {allocated : Bool}
    (stepped : st.received (.incoming dg nowNs allocated) = some next) :
    next = { st with receiver := st.receiver.dispatchIncoming dg nowNs allocated } := by
  obtain ⟨receiver, hstep, rfl⟩ := Option.map_eq_some_iff.mp stepped
  cases (Option.ite_none_left_eq_some.mp hstep).2
  rfl

theorem received_service {stream : Nat} (stepped : st.received (.service stream nowNs) = some next) :
    next = { st with receiver := { st.receiver with
      streams := st.receiver.streams.modify stream fun s => (s.tryServiceOne nowNs).1 } } := by
  obtain ⟨receiver, hstep, rfl⟩ := Option.map_eq_some_iff.mp stepped
  cases (Option.ite_none_left_eq_some.mp hstep).2
  rfl

theorem received_finish (stepped : st.received .finish = some next) :
    next = { st with receiver :=
      { streams := st.receiver.streams.map ReceiverStreamState.finalAcks, finished := true } } := by
  obtain ⟨receiver, hstep, rfl⟩ := Option.map_eq_some_iff.mp stepped
  cases (Option.ite_none_left_eq_some.mp hstep).2
  rfl

end MuxSession

end FuseTransport.Mux
