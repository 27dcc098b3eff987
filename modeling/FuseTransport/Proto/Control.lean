import Mathlib.Data.Fintype.Basic
import FuseTransport.Proto.Wire

/-!
# Control messages

The signalling messages that ride alongside the data plane.  Each has an encoder
that writes its fields in order and a decoder that checks the outer header and
the length before it reads them back.  Bytes behind the last field are ignored:
an authenticated datagram carries its trailer there.
-/

namespace FuseTransport.Proto

open Foundation Foundation.BigEndian

def kMaxExtensionBytes : Nat := 256
def kExtensionCritical : Nat := 0x8000

def nextExtension (area : List UInt8) : Option (Nat × List UInt8) :=
  if area.length < 4 then none
  else if getAt 2 2 area > area.length - 4 then none
  else some (getAt 2 0 area, area.drop (4 + getAt 2 2 area))

def extensionsAcceptableFrom : Nat → List UInt8 → Bool
  | 0, area => area.isEmpty
  | fuel + 1, area =>
    if area.isEmpty then true
    else match nextExtension area with
      | none => false
      | some (type, rest) =>
        if type &&& kExtensionCritical ≠ 0 then false
        else extensionsAcceptableFrom fuel rest

/-- A well-formed area without a critical type (no type is understood yet). -/
def extensionsAcceptable (area : List UInt8) : Bool :=
  extensionsAcceptableFrom area.length area

def kRwndUnlimited : Nat := 2 ^ 32 - 1
def kStreamCloseFinished : UInt8 := 0
def kStreamCloseAborted : UInt8 := 1
def kStreamCloseAuthFailed : UInt8 := 2
def kResumeFlagResumed : UInt8 := 0x01
def kMaxResumeRangesPerMsg : Nat := 64
def kDigestLen : Nat := 32
def kMaxAuxDatagramSize : Nat := kOuterHeaderSize + 2 + 2 + kMaxWindow * 8

structure Heartbeat where
  streamId : Nat := 0
  highestSeqNo : Nat := 0
  deriving DecidableEq, Repr

structure StreamStart where
  streamId : Nat := 0
  totalBlocks : Nat := 0
  blockSize : Nat := 0
  totalBytes : Nat := 0
  sessionSalt : List UInt8 := List.replicate 16 0
  nonce : Nat := 0
  streamBaseOffset : Nat := 0
  fileTotalBytes : Nat := 0
  fileId : Nat := 0
  token : Nat := 0
  ext : List UInt8 := []
  deriving DecidableEq, Repr

structure Retry where
  streamId : Nat := 0
  nonce : Nat := 0
  token : Nat := 0
  deriving DecidableEq, Repr

structure PathProbe where
  streamId : Nat := 0
  nonce : Nat := 0
  challenge : Nat := 0
  deriving DecidableEq, Repr

structure Ack where
  streamId : Nat := 0
  baseSeqNo : Nat := 0
  receivedBitmask : Fin 16 → BitVec 64 := fun _ => 0
  echoedSendTime : Nat := 0
  nonce : Nat := 0
  rwnd : Nat := kRwndUnlimited
  deriving DecidableEq

structure Nack where
  streamId : Nat := 0
  missing : List Nat := []
  deriving DecidableEq, Repr

structure StreamClose where
  streamId : Nat := 0
  nonce : Nat := 0
  reason : UInt8 := kStreamCloseFinished
  deriving DecidableEq, Repr

structure ResumeRange where
  offset : Nat := 0
  length : Nat := 0
  deriving DecidableEq, Repr

structure ResumeRanges where
  streamId : Nat := 0
  nonce : Nat := 0
  flags : UInt8 := 0
  part : Nat := 0
  parts : Nat := 1
  ranges : List ResumeRange := []
  deriving DecidableEq, Repr

structure DigestMessage where
  streamId : Nat := 0
  nonce : Nat := 0
  digest : List UInt8 := List.replicate 32 0
  deriving DecidableEq, Repr

def heartbeatBytes (hb : Heartbeat) : List UInt8 :=
  putOuter .heartbeat ++ put 2 hb.streamId ++ put 8 hb.highestSeqNo

def encodeHeartbeat (hb : Heartbeat) (outCap : Nat) : Option (List UInt8) :=
  emit outCap (heartbeatBytes hb)

def streamStartBytes (ss : StreamStart) : List UInt8 :=
  putOuter .streamStart ++ put 2 ss.streamId ++ put 8 ss.totalBlocks ++ put 2 ss.blockSize ++
    put 8 ss.totalBytes ++ ss.sessionSalt ++ put 8 ss.nonce ++ put 8 ss.streamBaseOffset ++
    put 8 ss.fileTotalBytes ++ put 8 ss.fileId ++ put 8 ss.token ++ put 2 ss.ext.length ++ ss.ext

def encodeStreamStart (ss : StreamStart) (outCap : Nat) : Option (List UInt8) :=
  if ss.ext.length > kMaxExtensionBytes then none else emit outCap (streamStartBytes ss)

def ackBytes (ack : Ack) : List UInt8 :=
  putOuter .ack ++ put 2 ack.streamId ++ put 8 ack.baseSeqNo ++
    putAll 8 (List.ofFn fun w => (ack.receivedBitmask w).toNat) ++
    put 8 ack.echoedSendTime ++ put 8 ack.nonce ++ put 4 ack.rwnd

def encodeAck (ack : Ack) (outCap : Nat) : Option (List UInt8) :=
  emit outCap (ackBytes ack)

def nackBytes (nack : Nack) : List UInt8 :=
  putOuter .nack ++ put 2 nack.streamId ++ put 2 nack.missing.length ++ putAll 8 nack.missing

def encodeNack (nack : Nack) (outCap : Nat) : Option (List UInt8) :=
  if nack.missing.length > kMaxWindow then none else emit outCap (nackBytes nack)

def streamCloseBytes (sc : StreamClose) : List UInt8 :=
  putOuter .streamClose ++ put 2 sc.streamId ++ put 8 sc.nonce ++ put 1 sc.reason.toNat

def encodeStreamClose (sc : StreamClose) (outCap : Nat) : Option (List UInt8) :=
  emit outCap (streamCloseBytes sc)

def rangeFields (ranges : List ResumeRange) : List Nat :=
  ranges.flatMap fun r => [r.offset, r.length]

def resumeRangesBytes (rr : ResumeRanges) : List UInt8 :=
  putOuter .resumeRanges ++ put 2 rr.streamId ++ put 8 rr.nonce ++ put 1 rr.flags.toNat ++
    put 2 rr.part ++ put 2 rr.parts ++ put 2 rr.ranges.length ++ putAll 8 (rangeFields rr.ranges)

def encodeResumeRanges (rr : ResumeRanges) (outCap : Nat) : Option (List UInt8) :=
  if rr.ranges.length > kMaxResumeRangesPerMsg ∨ rr.parts = 0 ∨ rr.parts ≤ rr.part then none
  else emit outCap (resumeRangesBytes rr)

def digestBytes (dm : DigestMessage) : List UInt8 :=
  putOuter .fileDigest ++ put 2 dm.streamId ++ put 8 dm.nonce ++ dm.digest

def encodeDigest (dm : DigestMessage) (outCap : Nat) : Option (List UInt8) :=
  emit outCap (digestBytes dm)

def retryBytes (r : Retry) : List UInt8 :=
  putOuter .retry ++ put 2 r.streamId ++ put 8 r.nonce ++ put 8 r.token

def encodeRetry (r : Retry) (outCap : Nat) : Option (List UInt8) :=
  emit outCap (retryBytes r)

def pathProbeBytes (type : MsgType) (pp : PathProbe) : List UInt8 :=
  putOuter type ++ put 2 pp.streamId ++ put 8 pp.nonce ++ put 8 pp.challenge

def encodePathProbe (type : MsgType) (pp : PathProbe) (outCap : Nat) : Option (List UInt8) :=
  if type ≠ .pathChallenge ∧ type ≠ .pathResponse then none
  else emit outCap (pathProbeBytes type pp)

/-! ## Decoders -/

def decodeHeartbeat (bytes : List UInt8) : Option Heartbeat :=
  if checkOuter .heartbeat bytes = false ∨ bytes.length < kOuterHeaderSize + 2 + 8 then none
  else some { streamId := getAt 2 2 bytes, highestSeqNo := getAt 8 4 bytes }

def kStreamStartFixed : Nat := kOuterHeaderSize + 2 + 8 + 2 + 8 + 16 + 8 + 8 + 8 + 8 + 8

def decodeStreamStart (bytes : List UInt8) : Option StreamStart :=
  if checkOuter .streamStart bytes = false ∨ bytes.length < kStreamStartFixed + 2 then none
  else
    let extLen := getAt 2 78 bytes
    let ext := (bytes.drop 80).take extLen
    if extLen > kMaxExtensionBytes ∨ extLen > bytes.length - 80 ∨
        extensionsAcceptable ext = false then none
    else some {
      streamId := getAt 2 2 bytes
      totalBlocks := getAt 8 4 bytes
      blockSize := getAt 2 12 bytes
      totalBytes := getAt 8 14 bytes
      sessionSalt := (bytes.drop 22).take 16
      nonce := getAt 8 38 bytes
      streamBaseOffset := getAt 8 46 bytes
      fileTotalBytes := getAt 8 54 bytes
      fileId := getAt 8 62 bytes
      token := getAt 8 70 bytes
      ext := ext }

def decodeAck (bytes : List UInt8) : Option Ack :=
  if checkOuter .ack bytes = false ∨
      bytes.length < kOuterHeaderSize + 2 + 8 + kMaskWords * 8 + 8 + 8 + 4 then none
  else some {
    streamId := getAt 2 2 bytes
    baseSeqNo := getAt 8 4 bytes
    receivedBitmask := fun w => BitVec.ofNat 64 (getAt 8 (12 + 8 * w.val) bytes)
    echoedSendTime := getAt 8 140 bytes
    nonce := getAt 8 148 bytes
    rwnd := getAt 4 156 bytes }

def decodeNack (bytes : List UInt8) : Option Nack :=
  if checkOuter .nack bytes = false ∨ bytes.length < kOuterHeaderSize + 2 + 2 then none
  else
    let count := getAt 2 4 bytes
    if count > kMaxWindow then none
    else if bytes.length < kOuterHeaderSize + 2 + 2 + count * 8 then none
    else some {
      streamId := getAt 2 2 bytes
      missing := (List.range count).map fun i => getAt 8 (6 + 8 * i) bytes }

def decodeStreamClose (bytes : List UInt8) : Option StreamClose :=
  if checkOuter .streamClose bytes = false ∨ bytes.length < kOuterHeaderSize + 2 + 8 + 1 then none
  else some {
    streamId := getAt 2 2 bytes
    nonce := getAt 8 4 bytes
    reason := UInt8.ofNat (getAt 1 12 bytes) }

def kResumeRangesFixed : Nat := kOuterHeaderSize + 2 + 8 + 1 + 2 + 2 + 2

def decodeResumeRanges (bytes : List UInt8) : Option ResumeRanges :=
  if checkOuter .resumeRanges bytes = false ∨ bytes.length < kResumeRangesFixed then none
  else
    let part := getAt 2 13 bytes
    let parts := getAt 2 15 bytes
    let count := getAt 2 17 bytes
    if count > kMaxResumeRangesPerMsg ∨ parts = 0 ∨ parts ≤ part ∨
        bytes.length < kResumeRangesFixed + count * 16 then none
    else some {
      streamId := getAt 2 2 bytes
      nonce := getAt 8 4 bytes
      flags := UInt8.ofNat (getAt 1 12 bytes)
      part := part
      parts := parts
      ranges := (List.range count).map fun i =>
        { offset := getAt 8 (19 + 16 * i) bytes, length := getAt 8 (27 + 16 * i) bytes } }

def decodeDigest (bytes : List UInt8) : Option DigestMessage :=
  if checkOuter .fileDigest bytes = false ∨
      bytes.length < kOuterHeaderSize + 2 + 8 + kDigestLen then none
  else some {
    streamId := getAt 2 2 bytes
    nonce := getAt 8 4 bytes
    digest := (bytes.drop 12).take kDigestLen }

def decodeRetry (bytes : List UInt8) : Option Retry :=
  if checkOuter .retry bytes = false ∨ bytes.length < kOuterHeaderSize + 2 + 8 + 8 then none
  else some {
    streamId := getAt 2 2 bytes
    nonce := getAt 8 4 bytes
    token := getAt 8 12 bytes }

def decodePathProbe (type : MsgType) (bytes : List UInt8) : Option PathProbe :=
  if checkOuter type bytes = false ∨ bytes.length < kOuterHeaderSize + 2 + 8 + 8 then none
  else some {
    streamId := getAt 2 2 bytes
    nonce := getAt 8 4 bytes
    challenge := getAt 8 12 bytes }

end FuseTransport.Proto
