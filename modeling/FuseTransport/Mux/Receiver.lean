import FuseTransport.Foundation.Runs
import FuseTransport.Proto.Block
import FuseTransport.Proto.Receiver
import FuseTransport.Proto.RoundTrip

/-!
# The multiplexed receiver's streams

Incoming datagrams are dispatched to the stream they name; workers service the
streams in any order, sending acknowledgements on a cadence and NACKs for gaps
that last.  A stream is done once its base has passed its last block.
-/

namespace FuseTransport.Mux

open Foundation Foundation.Runs Proto

/-- The sequence number that stands for a last block not yet seen. -/
def kNoFinalSeq : Nat := 2 ^ 64 - 1

/-- What a stream has sent so far, newest first.  The code does not read it. -/
structure ReceiverLog where
  acks : List Ack := []
  nacks : List Nack := []

structure ReceiverStreamState where
  streamId : Nat
  windowSize : Nat
  rx : ReceiverStream
  shard : List UInt8 := []
  shardBytes : Nat := 0
  written : Nat := 0
  delivered : Nat := 0
  lastAckDelivered : Nat := 0
  finalSeq : Nat := kNoFinalSeq
  haveStart : Bool := false
  resourceLimit : Bool := false
  peerNonce : Nat := 0
  rttEstNs : Nat := 0
  nackSentNs : Nat := 0
  lastAckNs : Nat := 0
  done : Bool := false
  lastProgressNs : Nat
  log : ReceiverLog := {}

namespace ReceiverStreamState

def create (streamId windowSize nowNs : Nat) : ReceiverStreamState where
  streamId := streamId
  windowSize := windowSize
  rx := ReceiverStream.create streamId windowSize true
  lastProgressNs := nowNs

variable (s : ReceiverStreamState)

def ackDue (nowNs : Nat) : Bool :=
  decide (s.delivered - s.lastAckDelivered ≥ 8) || decide (nowNs > u64 (s.lastAckNs + 200000))

def currentAck : Ack :=
  { s.rx.buildAck with streamId := s.streamId, nonce := s.peerNonce }

def sendAck (nowNs : Nat) : ReceiverStreamState :=
  { s with
    lastAckDelivered := s.delivered
    lastAckNs := nowNs
    log := { s.log with acks := s.currentAck :: s.log.acks } }

def reorderNs : Nat :=
  if s.rttEstNs = 0 then 3000000 else max 1000000 (min (s.rttEstNs / 2) 100000000)

def renackNs : Nat :=
  if s.rttEstNs = 0 then 40000000 else max 20000000 (min (u64 (s.rttEstNs * 3) / 2) 500000000)

def sendNacks (nowNs : Nat) : ReceiverStreamState × Bool :=
  let collected := s.rx.collectNacks nowNs s.reorderNs s.renackNs
  if collected.2.missing.length > 0 then
    ({ s with
        rx := collected.1
        nackSentNs := nowNs
        log := { s.log with nacks := { collected.2 with streamId := s.streamId } :: s.log.nacks } },
      true)
  else ({ s with rx := collected.1 }, false)

/-- Every block up to the last one has arrived. -/
def complete : Bool :=
  s.finalSeq != kNoFinalSeq && decide (s.rx.baseSeqNo > s.finalSeq)

def tryServiceOne (nowNs : Nat) : ReceiverStreamState × Bool :=
  if s.done || !s.haveStart then (s, false)
  else
    let acked := if s.ackDue nowNs then s.sendAck nowNs else s
    let nacked := acked.sendNacks nowNs
    let serviced := if nacked.1.complete then { nacked.1 with done := true } else nacked.1
    (serviced, s.ackDue nowNs || nacked.2)

def onStreamStart (ss : StreamStart) (allocated : Bool) : ReceiverStreamState :=
  if s.haveStart then s
  else if allocated = false then { s with resourceLimit := true, done := true }
  else { s with
    shard := List.replicate ss.totalBytes 0
    haveStart := true
    peerNonce := ss.nonce
    shardBytes := ss.totalBytes }

def noteRetransmission (flags : UInt8) (nowNs : Nat) : ReceiverStreamState :=
  if isRetransmission flags = true ∧ s.nackSentNs ≠ 0 then
    { s with
      nackSentNs := 0
      rttEstNs :=
        if nowNs > s.nackSentNs then
          if s.rttEstNs = 0 then nowNs - s.nackSentNs
          else u64 (s.rttEstNs * 7 + (nowNs - s.nackSentNs)) / 8
        else s.rttEstNs }
  else s

/-- Copy a payload into the shard when it lies inside. -/
def writeShard (offset : Nat) (payload : List UInt8) : ReceiverStreamState :=
  if payload ≠ [] ∧ offset ≤ s.shard.length ∧ payload.length ≤ s.shard.length - offset then
    { s with
      shard := s.shard.take offset ++ payload ++ s.shard.drop (offset + payload.length)
      written := s.written + payload.length }
  else s

def onData (dg : DataDatagram) (nowNs : Nat) : ReceiverStreamState :=
  if s.haveStart = false then s
  else
    let received := s.rx.onReceive dg.hdr.seqNo dg.sendTimeNs nowNs
    let s := { s with rx := received.1 }
    if received.2 ≠ .accepted then s
    else
      let s := (s.noteRetransmission dg.hdr.flags nowNs).writeShard dg.hdr.offset dg.payload
      { s with
        delivered := s.delivered + 1
        finalSeq := if isLastBlock dg.hdr.flags then dg.hdr.seqNo else s.finalSeq
        lastProgressNs := nowNs }

def finalAcks : ReceiverStreamState :=
  if s.haveStart = false ∨ s.resourceLimit = true then s
  else { s with log := { s.log with acks := List.replicate 6 s.currentAck ++ s.log.acks } }

end ReceiverStreamState

/-! ## The receiver -/

structure MuxReceiver where
  streams : List ReceiverStreamState
  finished : Bool := false

namespace MuxReceiver

def buildStreams (windows : List Nat) (nowNs : Nat) : MuxReceiver where
  streams := windows.mapIdx fun i windowSize => ReceiverStreamState.create i windowSize nowNs

def dispatchIncoming (m : MuxReceiver) (dg : List UInt8) (nowNs : Nat) (allocated : Bool) :
    MuxReceiver :=
  match peekMsgType dg with
  | some .streamStart =>
    match decodeStreamStart dg with
    | some ss =>
      { m with streams := m.streams.modify ss.streamId fun s => s.onStreamStart ss allocated }
    | none => m
  | some .data =>
    match decodeDataDatagram dg with
    | some data =>
      { m with streams := m.streams.modify data.hdr.streamId fun s => s.onData data nowNs }
    | none => m
  | _ => m

inductive Event where
  | incoming (dg : List UInt8) (nowNs : Nat) (allocated : Bool)
  | service (stream nowNs : Nat)
  | finish

/-- One step: a datagram, a worker's call, or the end of the transfer. -/
def step (m : MuxReceiver) : Event → Option MuxReceiver
  | .incoming dg nowNs allocated =>
    if m.finished then none else some (m.dispatchIncoming dg nowNs allocated)
  | .service stream nowNs =>
    if m.finished then none
    else some { m with streams := m.streams.modify stream fun s => (s.tryServiceOne nowNs).1 }
  | .finish =>
    if m.finished then none
    else some { streams := m.streams.map ReceiverStreamState.finalAcks, finished := true }

end MuxReceiver

end FuseTransport.Mux
