import FuseTransport.Transfer.RecvLane
import FuseTransport.Transfer.Shards

/-!
# The sending end of a transfer

One lane opens with a StreamStart, learns which parts of its shard are needed,
sends them in blocks, repeats what is reported missing, and leaves when everything
it sent is acknowledged.  Block sizes, congestion windows, pacing and timers decide
only when a block goes out and how large it is; they are inputs.
-/

namespace FuseTransport.Transfer

open Foundation Proto

theorem length_noSalt : (List.replicate 16 (0 : UInt8)).length = 16 := List.length_replicate

theorem none_fit : 0 < 2 ^ 64 := by decide

theorem one_fits : 1 < 2 ^ 64 := by decide

theorem two_fit : 2 < 2 ^ 64 := by decide

/-- A call to send `data`.  The salt is drawn once for the call, a nonce for each
lane; `digest` is the digest of `data`. -/
structure SendConfig where
  lanes : Nat
  lanes_pos : 0 < lanes := by first | exact Nat.one_pos | decide
  lanes_fit : lanes < 2 ^ 16 := by first | exact one_lt_short | decide
  keyed : Option Keyed := none
  salt : List UInt8 := List.replicate 16 0
  salt_length : salt.length = 16 := by first | exact length_noSalt | decide
  data : List UInt8
  data_fits : data.length < 2 ^ 64 := by first | exact none_fit | exact one_fits | exact two_fit | decide
  fileId : UInt64 := 0
  blockSize : UInt16 := 1200
  nonces : Nat → UInt64 := fun _ => 0
  digest : List UInt8 := List.replicate 32 0

namespace SendConfig

variable (cfg : SendConfig) (lane : Nat)

def laneBase : Nat := shardOffset cfg.data.length cfg.lanes lane

def shardBytes : Nat := shardLength cfg.data.length cfg.lanes lane

/-- The bytes of one lane. -/
def shard : List UInt8 := (cfg.data.drop (cfg.laneBase lane)).take (cfg.shardBytes lane)

def nonce : Nat := (cfg.nonces lane).toNat

def cipher : Option BlockCipher :=
  cfg.keyed.map fun k => blockCipher k.backend (k.deriveSessionKey cfg.salt) lane

def signer (dir : UInt8) : Option Signer :=
  cfg.keyed.map fun k =>
    ⟨k.backend, ControlAuth.init k.backend (k.deriveSessionKey cfg.salt) lane dir⟩

/-- The largest payload a block may have; a tag needs room behind it. -/
def blockCeiling : Nat := if cfg.keyed.isSome then kMaxPayloadSize - kAeadTagLen else kMaxPayloadSize

end SendConfig

inductive Phase where
  | handshake
  | sending
  | digesting
  deriving DecidableEq, Repr

/-- The variables of one lane.  The code does not keep `history`, the blocks as they
were first sent. -/
structure SendLane where
  phase : Phase := .handshake
  token : Nat := 0
  acked : Bool := false
  resumed : Bool := false
  partsExpected : Nat := 0
  partsSeen : Nat := 0
  answer : List (List ResumeRange) := []
  havePart : List Bool := []
  ranges : List ResumeRange := []
  ri : Nat := 0
  nextOffset : Nat := 0
  reg : SenderRegistry
  base : Nat := 0
  nextSeq : Nat := 0
  receivedEnd : Nat := 0
  sentLast : Bool := false
  digest : Option Sent := none
  signer : Option Signer := none
  status : Option TransferStatus := none
  history : List SentBlock := []

namespace SendLane

def create (cfg : SendConfig) (lane : Nat) : SendLane where
  reg := SenderRegistry.create lane kWindow
  signer := cfg.signer lane 0

section Lane

variable (cfg : SendConfig) (lane : Nat)

/-! ## Handshake -/

variable (L : SendLane)

def streamStart : StreamStart where
  streamId := lane
  blockSize := cfg.blockSize.toNat
  totalBytes := cfg.shardBytes lane
  sessionSalt := if cfg.keyed.isSome then cfg.salt else List.replicate 16 0
  nonce := cfg.nonce lane
  streamBaseOffset := cfg.laneBase lane
  fileTotalBytes := cfg.data.length
  fileId := cfg.fileId.toNat
  token := L.token

def sendStart (works : Bool) (L : SendLane) : SendLane × List Sent :=
  let out := sealCtl L.signer works (encodeStreamStart (L.streamStart cfg lane)
    (kMaxAuxDatagramSize + 64)) (kMaxAuxDatagramSize + 64)
  ({ L with signer := out.2 }, out.1.toList)

def expectParts (parts : Nat) : SendLane :=
  if L.partsExpected = 0 then
    { L with
      partsExpected := parts
      answer := List.replicate parts []
      havePart := List.replicate parts false }
  else L

def onResumeRanges (rr : ResumeRanges) : SendLane :=
  let told := L.expectParts rr.parts
  if rr.parts = told.partsExpected ∧ told.havePart[rr.part]? = some false then
    { told with
      answer := told.answer.set rr.part rr.ranges
      havePart := told.havePart.set rr.part true
      partsSeen := told.partsSeen + 1
      resumed := told.resumed || rr.flags &&& kResumeFlagResumed != 0 }
  else told

def onHandshake (dg : List UInt8) : SendLane :=
  match peekMsgType dg with
  | some .streamClose =>
    match decodeStreamClose dg with
    | some sc =>
      if sc.nonce = cfg.nonce lane ∧ sc.reason = kStreamCloseAuthFailed then
        { L with status := some .authFailed }
      else L
    | none => L
  | some .retry =>
    match decodeRetry dg with
    | some r => if r.nonce = cfg.nonce lane ∧ r.token ≠ L.token then { L with token := r.token } else L
    | none => L
  | some .ack =>
    match decodeAck dg with
    | some ack =>
      if ctlAuthentic L.signer dg ∧ ack.nonce = cfg.nonce lane then { L with acked := true } else L
    | none => L
  | some .resumeRanges =>
    match decodeResumeRanges dg with
    | some rr =>
      if ctlAuthentic L.signer dg ∧ rr.nonce = cfg.nonce lane then L.onResumeRanges rr else L
    | none => L
  | _ => L

/-- Acknowledged, and every part of the answer is in. -/
def ready : Bool :=
  L.acked && L.partsExpected ≠ 0 && L.partsSeen = L.partsExpected

def begin : SendLane :=
  if L.status = none ∧ L.ready then
    let ranges := rangesToSend (cfg.shardBytes lane) L.answer
    { L with
      phase := .sending
      ranges := ranges
      nextOffset := (ranges.head?.map fun r => r.offset).getD 0 }
  else L

def rangeEnd : Nat := (L.ranges[L.ri]?.map fun r => r.offset + r.length).getD 0

def blockLength (block : Nat) : Nat := min block (L.rangeEnd - L.nextOffset)

def isLast (len : Nat) : Bool :=
  decide (L.ranges.length ≤ L.ri + 1 ∧ L.rangeEnd ≤ L.nextOffset + len)

def nextBlock (len : Nat) : SentBlock where
  payload := ((cfg.shard lane).drop L.nextOffset).take len
  offset := L.nextOffset
  flags := if L.isLast len then kFlagLastBlock else 0

/-- Something is left to send, or the lane has nothing and has not said so. -/
def pending : Prop :=
  L.ri < L.ranges.length ∨ (L.ranges = [] ∧ L.nextSeq = 0)

instance  : Decidable L.pending :=
  inferInstanceAs (Decidable (_ ∨ _))

def advance (len : Nat) : SendLane :=
  if L.ri < L.ranges.length ∧ L.rangeEnd ≤ L.nextOffset + len then
    { L with
      ri := L.ri + 1
      nextOffset := (L.ranges[L.ri + 1]?.map fun r => r.offset).getD (L.nextOffset + len) }
  else { L with nextOffset := L.nextOffset + len }

def keep (block : SentBlock) (nowNs : Nat) : SendLane :=
  { L with
    reg := (L.reg.store L.nextSeq block.payload nowNs block.offset block.flags).getD L.reg }

/-- The block is on the wire. -/
def count (block : SentBlock) (len : Nat) : SendLane :=
  { L.advance len with
    nextSeq := u64 (L.nextSeq + 1)
    sentLast := L.sentLast || L.isLast len
    history := L.history ++ [block] }

/-- One block, when it can be sealed and the batch has room for it. -/
def sendNext (block : Nat) (works : Bool) (nowNs wireNs cap : Nat) : SendLane × List Sent :=
  let len := L.blockLength block
  let next := L.nextBlock cfg lane len
  let kept := L.keep next nowNs
  match sendBlock (cfg.cipher lane) works lane L.nextSeq next wireNs cap with
  | some sent => (kept.count next len, [sent])
  | none => (kept, [])

def resend (works : Bool) (wireNs seqNo : Nat) : List Sent :=
  match L.reg.lookup seqNo with
  | some slot =>
    (sendBlock (cfg.cipher lane) works lane seqNo
      ⟨slot.payload, slot.offset, slot.flags ||| kFlagRetransmission⟩ wireNs
      (kMaxDatagramSize + 64)).toList
  | none => []

def onAck (ack : Ack) : SendLane :=
  let applied := applyAck L.reg ack L.base L.nextSeq (some L.receivedEnd)
  { L with
    reg := applied.reg
    base := applied.base
    receivedEnd := applied.receivedEnd.getD L.receivedEnd }

def onNack (works : Nat → Bool) (wireNs : Nat) (nack : Nack) : List Sent :=
  nack.missing.zipIdx.flatMap fun named => L.resend cfg lane (works named.2) wireNs named.1

def onAborted (sc : StreamClose) : SendLane :=
  if sc.nonce = cfg.nonce lane ∧ sc.reason = kStreamCloseAborted then
    { L with status := some .peerAborted }
  else L

def onFeedback (dg : List UInt8) (works : Nat → Bool) (wireNs : Nat) : SendLane × List Sent :=
  if ctlAuthentic L.signer dg = false then (L, [])
  else match peekMsgType dg with
    | some .ack =>
      match decodeAck dg with
      | some ack => if ack.nonce = cfg.nonce lane then (L.onAck ack, []) else (L, [])
      | none => (L, [])
    | some .nack =>
      match decodeNack dg with
      | some nack => (L, L.onNack cfg lane works wireNs nack)
      | none => (L, [])
    | some .pathChallenge =>
      match decodePathProbe .pathChallenge dg with
      | some pp =>
        if pp.nonce = cfg.nonce lane then
          let out := sendPathProbe L.signer (works 0) .pathResponse lane (cfg.nonce lane) pp.challenge
          ({ L with signer := out.2 }, out.1)
        else (L, [])
      | none => (L, [])
    | some .streamClose =>
      match decodeStreamClose dg with
      | some sc => (L.onAborted cfg lane sc, [])
      | none => (L, [])
    | _ => (L, [])

def finish (works : Bool) (L : SendLane) : SendLane × List Sent :=
  let out := sendStreamClose L.signer works lane (cfg.nonce lane) kStreamCloseFinished
  ({ L with signer := out.2, status := some .ok }, out.1)

/-- Behind the last acknowledgement; lane 0 of a resumed transfer first seals the
digest. -/
def leave (works : Bool) (L : SendLane) : SendLane × List Sent :=
  if L.resumed ∧ lane = 0 then
    let out := sealCtl L.signer works (encodeDigest
      { streamId := lane, nonce := cfg.nonce lane, digest := cfg.digest }
      (kMaxDatagramSize + 64)) (kMaxDatagramSize + 64)
    ({ L with phase := .digesting, digest := out.1, signer := out.2 }, [])
  else L.finish cfg lane works

def onEcho (dg : List UInt8) (works : Bool) : SendLane × List Sent :=
  if ctlAuthentic L.signer dg = false then (L, [])
  else match peekMsgType dg with
    | some .fileDigest =>
      match decodeDigest dg with
      | some echo =>
        if echo.nonce = cfg.nonce lane ∧ echo.digest = cfg.digest then L.finish cfg lane works
        else (L, [])
      | none => (L, [])
    | some .streamClose =>
      match decodeStreamClose dg with
      | some sc => (L.onAborted cfg lane sc, [])
      | none => (L, [])
    | _ => (L, [])

inductive Quit where
  | cancelled
  | stopped
  | timeout
  deriving DecidableEq, Repr

def Quit.status : Quit → TransferStatus
  | cancelled => .cancelled
  | stopped => .peerAborted
  | timeout => .timeout

def giveUp (works : Bool) (why : Quit) (L : SendLane) : SendLane × List Sent :=
  let out := sendStreamClose L.signer works lane (cfg.nonce lane) kStreamCloseAborted
  ({ L with signer := out.2, status := some why.status }, out.1)

/-- Challenge a source other than the receiver's. -/
def probePath (works : Bool) (challenge : Nat) (L : SendLane) : SendLane × List Sent :=
  let out := sendPathProbe L.signer works .pathChallenge lane (cfg.nonce lane) challenge
  ({ L with signer := out.2 }, out.1)

end Lane

end SendLane

inductive TxEvent where
  | sendStart (works : Bool)
  | receive (dg : List UInt8) (works : Nat → Bool) (wireNs : Nat)
  | sendBlock (block : Nat) (works : Bool) (nowNs wireNs cap : Nat)
  | retransmit (seqNo : Nat) (works : Bool) (wireNs : Nat)
  | probe (works : Bool) (challenge : Nat)
  | leave (works : Bool)
  | sendDigest
  | giveUp (works : Bool) (why : SendLane.Quit)

namespace SendLane

/-- One step of a lane that has not returned, with what it puts on the wire. -/
def act (cfg : SendConfig) (lane : Nat) (L : SendLane) : TxEvent → Option (SendLane × List Sent)
  | .sendStart works =>
    if L.status = none ∧ L.phase = .handshake then some (L.sendStart cfg lane works) else none
  | .receive dg works wireNs =>
    if L.status = none then
      match L.phase with
      | .handshake => some ((L.onHandshake cfg lane dg).begin cfg lane, [])
      | .sending => some (L.onFeedback cfg lane dg works wireNs)
      | .digesting => some (L.onEcho cfg lane dg (works 0))
    else none
  | .sendBlock block works nowNs wireNs cap =>
    if L.status = none ∧ L.phase = .sending ∧ L.pending ∧ L.nextSeq < u64 (L.base + kWindow) ∧
        0 < block ∧ block ≤ cfg.blockCeiling then
      some (L.sendNext cfg lane block works nowNs wireNs cap)
    else none
  | .retransmit seqNo works wireNs =>
    if L.status = none ∧ L.phase = .sending ∧ L.base ≤ seqNo ∧ seqNo < L.nextSeq ∧
        (seqNo = L.base ∨ seqNo < L.receivedEnd) then
      some (L, L.resend cfg lane works wireNs seqNo)
    else none
  | .probe works challenge =>
    if L.status = none ∧ L.phase = .sending then some (L.probePath cfg lane works challenge)
    else none
  | .leave works =>
    if L.status = none ∧ L.phase = .sending ∧ L.sentLast ∧ L.nextSeq ≤ L.base then
      some (L.leave cfg lane works)
    else none
  | .sendDigest =>
    if L.status = none ∧ L.phase = .digesting then some (L, L.digest.toList) else none
  | .giveUp works why => if L.status = none then some (L.giveUp cfg lane works why) else none

end SendLane

end FuseTransport.Transfer
