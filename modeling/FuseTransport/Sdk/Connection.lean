import FuseTransport.Foundation.Splice
import FuseTransport.Proto.Feedback
import FuseTransport.Proto.SealedBlock

/-!
# One direction of an SDK connection

`fuse_send` cuts a message into blocks, each with its offset in the message, and
returns once the peer's acknowledged base has passed the last of them.  The peer
reassembles in one buffer: a block with the last flag fixes the message's size,
and the message is queued once the window's base has passed that block.
-/

namespace FuseTransport.Sdk

open Foundation Foundation.BigEndian Foundation.Splice Proto

def kWindow : Nat := 1024
def kBlockSize : Nat := 1200
def kMaxMessage : Nat := 64 * 1024 * 1024
def kMaxInboxBytes : Nat := 256 * 1024 * 1024

/-- The value of `asm_end_seq` while no last block has arrived. -/
def kNoSeq : Nat := 2 ^ 64 - 1

/-- The buffer every datagram is encoded in. -/
def kScratch : Nat := kMaxDatagramSize + 64

inductive FuseError where
  | config
  | timeout
  | closed
  | tooLarge
  | internal
  | buffer
  deriving DecidableEq, Repr

def buildAad (lane seqNo offset : Nat) (flags : UInt8) : List UInt8 :=
  put 2 lane ++ put 8 seqNo ++ put 8 offset ++ put 1 flags.toNat

/-- What both ends agree on: the lane, and the key when the connection is
encrypted. -/
structure Direction where
  lane : Fin 2
  keyed : Option (CryptoBackend × List UInt8)

namespace Direction

def cipher (dir : Direction) : Option BlockCipher :=
  dir.keyed.map fun keyed => ⟨keyed.1, fun _ => keyed.2, buildAad⟩

theorem lane_lt (dir : Direction) : dir.lane.val < 2 ^ 16 :=
  Nat.lt_trans dir.lane.isLt (by decide)

end Direction

def nblocks (len : Nat) : Nat :=
  if len = 0 then 1 else (len + kBlockSize - 1) / kBlockSize

/-- Block `i` of a message. -/
def chunk (data : List UInt8) (i : Nat) : SentBlock :=
  let off := i * kBlockSize
  let blen := min kBlockSize (data.length - min off data.length)
  { payload := (data.drop off).take blen
    offset := off
    flags := if i + 1 = nblocks data.length then kFlagLastBlock else 0 }

structure TxMeta where
  offset : Nat := 0
  flags : UInt8 := 0
  deriving DecidableEq, Repr

/-- A `fuse_send` that holds `send_busy`: it has sent `sent` of its blocks. -/
structure SendCall where
  call : Nat
  data : List UInt8
  firstSeq : Nat
  sent : Nat
  deriving DecidableEq, Repr

structure Sender where
  reg : SenderRegistry
  txMeta : Nat → TxMeta
  txBase : Nat
  txNextSeq : Nat
  sending : Option SendCall

namespace Sender

def create (dir : Direction) : Sender where
  reg := SenderRegistry.create dir.lane.val kWindow
  txMeta := fun _ => {}
  txBase := 0
  txNextSeq := 0
  sending := none

variable (tx : Sender)

def keep (seqNo : Nat) (block : SentBlock) (nowNs : Nat) : Sender :=
  { tx with
    reg := (tx.reg.store seqNo block.payload nowNs block.offset 0).getD tx.reg
    txMeta := Function.update tx.txMeta (seqNo % kWindow) ⟨block.offset, block.flags⟩ }

def sendBlockLocked (dir : Direction) (tx : Sender) (seqNo : Nat) (block : SentBlock)
    (works : Bool) (nowNs : Nat) : Sender × Option (List UInt8) :=
  (tx.keep seqNo block nowNs,
    blockDatagram dir.cipher works dir.lane.val seqNo block nowNs kScratch)

def retransmitLocked (dir : Direction) (tx : Sender) (seqNo : Nat) (works : Bool) (nowNs : Nat) :
    Option (List UInt8) :=
  (tx.reg.lookup seqNo).bind fun slot =>
    let stored := tx.txMeta (seqNo % kWindow)
    blockDatagram dir.cipher works dir.lane.val seqNo
      (SentBlock.again ⟨slot.payload, stored.offset, stored.flags⟩) nowNs kScratch

/-- An ACK frees everything below its base, which is clamped to what was sent. -/
def onAck (ack : Ack) : Sender :=
  if ack.baseSeqNo > tx.txBase then
    let newBase := min ack.baseSeqNo tx.txNextSeq
    { tx with
      reg := (List.range' tx.txBase (newBase - tx.txBase)).foldl SenderRegistry.confirm tx.reg
      txBase := newBase }
  else tx

def room (cwnd : Nat) : Prop :=
  u64Sub tx.txNextSeq tx.txBase < min kWindow (max 4 cwnd)

instance  (cwnd : Nat) : Decidable (tx.room cwnd) :=
  inferInstanceAs (Decidable (_ < _))

def lastSeq (call : SendCall) : Nat :=
  u64Sub (u64 (call.firstSeq + nblocks call.data.length)) 1

end Sender

structure Receiver where
  rx : ReceiverStream
  asmBuf : List UInt8
  asmEndSeq : Nat
  asmTotal : Nat
  inbox : List (List UInt8)
  inboxBytes : Nat

namespace Receiver

def create (dir : Direction) : Receiver where
  rx := ReceiverStream.create dir.lane.val kWindow true
  asmBuf := []
  asmEndSeq := kNoSeq
  asmTotal := 0
  inbox := []
  inboxBytes := 0

variable (c : Receiver)

def assemble (hdr : BlockHeader) (body : List UInt8) : Receiver :=
  if hdr.offset ≤ kMaxMessage ∧ body.length ≤ kMaxMessage - hdr.offset then
    let written := { c with asmBuf := splice 0 c.asmBuf hdr.offset body }
    if isLastBlock hdr.flags then
      { written with asmEndSeq := hdr.seqNo, asmTotal := hdr.offset + body.length }
    else written
  else c

/-- Queue the message once every block up to its last one has arrived. -/
def complete : Receiver :=
  if c.asmEndSeq ≠ kNoSeq ∧ c.rx.baseSeqNo > c.asmEndSeq then
    { c with
      inbox := c.inbox ++ [resize 0 c.asmBuf c.asmTotal]
      inboxBytes := c.inboxBytes + c.asmTotal
      asmBuf := []
      asmEndSeq := kNoSeq
      asmTotal := 0 }
  else c

def receiveBlock (hdr : BlockHeader) (body : List UInt8) (sendTimeNs nowNs : Nat) : Receiver :=
  if c.inboxBytes ≥ kMaxInboxBytes then c
  else
    let received := c.rx.onReceive hdr.seqNo sendTimeNs nowNs
    let noted := { c with rx := received.1 }
    (if received.2 = .accepted then noted.assemble hdr body else noted).complete

def handleDataLocked (dir : Direction) (c : Receiver) (dg : List UInt8) (nowNs : Nat) : Receiver :=
  match decodeDataDatagram dg with
  | none => c
  | some data =>
    if data.hdr.streamId ≠ dir.lane.val then c
    else
      match unprotect dir.cipher dir.lane.val data with
      | none => c
      | some body => c.receiveBlock data.hdr body data.sendTimeNs nowNs

/-- Take the front message when the caller's buffer holds it. -/
def fuseRecv (cap : Nat) : Option (List UInt8) × Receiver :=
  match c.inbox with
  | [] => (none, c)
  | front :: rest =>
    if front.length > cap then (none, c)
    else (some front, { c with inbox := rest, inboxBytes := c.inboxBytes - front.length })

end Receiver

/-! ## The direction as a system -/

inductive CallStatus where
  | pending
  | ok
  | failed (error : FuseError)
  deriving DecidableEq, Repr

structure Call where
  data : List UInt8
  status : CallStatus
  deriving DecidableEq, Repr

/-- Where a block comes from: block `index` of a call whose blocks start at
`first`. -/
structure BlockOrigin where
  call : Nat
  first : Nat
  index : Nat
  message : List UInt8
  deriving DecidableEq, Repr

/-- What happened so far.  The code does not read it. -/
structure Log where
  calls : List Call
  blocks : List BlockOrigin
  returned : List (List UInt8)

/-- Both ends, the datagrams put on the wire in each direction, and the log. -/
structure State where
  tx : Sender
  peer : Receiver
  forward : List (List UInt8)
  backward : List (List UInt8)
  log : Log

def initial (dir : Direction) : State where
  tx := Sender.create dir
  peer := Receiver.create dir
  forward := []
  backward := []
  log := ⟨[], [], []⟩

/-- The messages the peer's application has got or will get next. -/
def State.delivered (st : State) : List (List UInt8) :=
  st.log.returned ++ st.peer.inbox

/-- One atomic step.  The congestion window, every clock reading, whether a
backend call works, and when a wait ends in an error are inputs. -/
inductive Event where
  | fuseSend (data : List UInt8)
  | refuse (data : List UInt8) (error : FuseError)
  | sendBlock (cwnd : Nat) (works : Bool) (nowNs : Nat)
  | giveUp (error : FuseError)
  | sendDone
  | deliverData (dg : List UInt8) (nowNs : Nat)
  | sendAck
  | sendNack (nowNs reorderNs renackNs : Nat)
  | deliverControl (dg : List UInt8) (works : Nat → Bool) (nowNs : Nat)
  | retransmissionTimeout (works : Bool) (nowNs : Nat)
  | fuseRecv (cap : Nat)

namespace State

def returns (st : State) (call : Nat) (status : CallStatus) : State :=
  { st with
    tx := { st.tx with sending := none }
    log := { st.log with calls := st.log.calls.modify call fun c => { c with status := status } } }

def fuseSend (st : State) (data : List UInt8) : Option State :=
  if data.length > kMaxMessage then
    some { st with log := { st.log with calls := st.log.calls ++ [⟨data, .failed .tooLarge⟩] } }
  else if st.tx.sending.isSome then none
  else
    some { st with
      tx := { st.tx with sending := some ⟨st.log.calls.length, data, st.tx.txNextSeq, 0⟩ }
      log := { st.log with calls := st.log.calls ++ [⟨data, .pending⟩] } }

def sendBlock (dir : Direction) (st : State) (call : SendCall) (works : Bool) (nowNs : Nat) :
    State :=
  let sent := st.tx.sendBlockLocked dir st.tx.txNextSeq (chunk call.data call.sent) works nowNs
  match sent.2 with
  | none => { st with tx := sent.1 }.returns call.call (.failed .internal)
  | some dg =>
    { st with
      tx := { sent.1 with
        txNextSeq := u64 (st.tx.txNextSeq + 1)
        sending := some { call with sent := call.sent + 1 } }
      forward := dg :: st.forward
      log := { st.log with
        blocks := st.log.blocks ++ [⟨call.call, call.firstSeq, call.sent, call.data⟩] } }

def onControl (dir : Direction) (st : State) (dg : List UInt8) (works : Nat → Bool) (nowNs : Nat) :
    State :=
  match peekMsgType dg with
  | some .ack =>
    match decodeAck dg with
    | some ack => { st with tx := st.tx.onAck ack }
    | none => st
  | some .nack =>
    match decodeNack dg with
    | some nack =>
      { st with
        forward := nack.missing.filterMap
          (fun seqNo => st.tx.retransmitLocked dir seqNo (works seqNo) nowNs) ++ st.forward }
    | none => st
  | _ => st

def onData (dir : Direction) (st : State) (dg : List UInt8) (nowNs : Nat) : State :=
  match peekMsgType dg with
  | some .data => { st with peer := st.peer.handleDataLocked dir dg nowNs }
  | _ => st

def sendAck (dir : Direction) (st : State) : State :=
  match encodeAck { st.peer.rx.buildAck with streamId := dir.lane.val } kScratch with
  | some dg => { st with backward := dg :: st.backward }
  | none => st

def sendNack (dir : Direction) (st : State) (nowNs reorderNs renackNs : Nat) : State :=
  let collected := st.peer.rx.collectNacks nowNs reorderNs renackNs
  let noted := { st with peer := { st.peer with rx := collected.1 } }
  if collected.2.missing.length > 0 then
    match encodeNack ⟨dir.lane.val, collected.2.missing⟩ kScratch with
    | some dg => { noted with backward := dg :: st.backward }
    | none => noted
  else noted

end State

local instance lawfulDatagrams : LawfulBEq (List UInt8) := inferInstance

def step (dir : Direction) (st : State) : Event → Option State
  | .fuseSend data => st.fuseSend data
  | .refuse data error =>
    some { st with log := { st.log with calls := st.log.calls ++ [⟨data, .failed error⟩] } }
  | .sendBlock cwnd works nowNs =>
    st.tx.sending.bind fun call =>
      if call.sent < nblocks call.data.length ∧ st.tx.room cwnd then
        some (st.sendBlock dir call works nowNs)
      else none
  | .giveUp error => st.tx.sending.map fun call => st.returns call.call (.failed error)
  | .sendDone =>
    st.tx.sending.bind fun call =>
      if call.sent = nblocks call.data.length ∧ st.tx.txBase > Sender.lastSeq call then
        some (st.returns call.call .ok)
      else none
  | .deliverData dg nowNs => if dg ∈ st.forward then some (st.onData dir dg nowNs) else none
  | .sendAck => some (st.sendAck dir)
  | .sendNack nowNs reorderNs renackNs => some (st.sendNack dir nowNs reorderNs renackNs)
  | .deliverControl dg works nowNs =>
    if dg ∈ st.backward then some (st.onControl dir dg works nowNs) else none
  | .retransmissionTimeout works nowNs =>
    if st.tx.txBase < st.tx.txNextSeq then
      some { st with
        forward := (st.tx.retransmitLocked dir st.tx.txBase works nowNs).toList ++ st.forward }
    else none
  | .fuseRecv cap =>
    let taken := st.peer.fuseRecv cap
    some { st with
      peer := taken.2
      log := { st.log with returned := st.log.returned ++ taken.1.toList } }

end FuseTransport.Sdk
