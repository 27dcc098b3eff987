import FuseTransport.Proto.SealedBlock
import FuseTransport.Transfer.Ranges

/-!
# What a transfer puts on the wire

Data blocks are sealed under the lane's keys with their identity as associated
data; control datagrams are signed with a counter of their own.  Every datagram
is kept together with the seal it carries, so that two seals of a session can be
compared.
-/

namespace FuseTransport.Transfer

open Foundation.BigEndian Proto

/-- A pre-shared key: the backend and the session key it yields for a salt. -/
structure Keyed where
  backend : CryptoBackend
  deriveSessionKey : (salt : List UInt8) → List UInt8

structure SealRecord where
  key : List UInt8
  nonce : List UInt8
  aad : List UInt8
  plain : List UInt8
  deriving DecidableEq, Repr

/-- A datagram on the wire and, when it is sealed, the seal it carries.  The code
does not keep the seal. -/
structure Sent where
  bytes : List UInt8
  carried : Option SealRecord := none
  deriving DecidableEq, Repr

/-- The identity of a block, without the retransmission bit. -/
def buildAad (lane seqNo offset : Nat) (flags : UInt8) : List UInt8 :=
  put 2 lane ++ put 8 seqNo ++ put 8 offset ++ put 1 (flags &&& ~~~kFlagRetransmission).toNat

/-- The blocks of a lane are sealed and opened with what its key schedule gives out. -/
def blockCipher (backend : CryptoBackend) (sessionKey : List UInt8) (lane : Nat)
    (schedule : LaneKeySchedule backend sessionKey lane := .empty) : BlockCipher where
  backend := backend
  keyFor := fun seqNo => (schedule.cipherFor true seqNo).1.elim [] LaneCipher.key
  aad := buildAad

/-- It makes no difference which epochs the schedule remembers. -/
theorem blockCipher_keyFor {backend : CryptoBackend} {sessionKey : List UInt8} {lane : Nat}
    (schedule : LaneKeySchedule backend sessionKey lane) :
    (blockCipher backend sessionKey lane schedule).keyFor = laneKeyFor backend sessionKey lane := by
  funext seqNo
  cases found : (schedule.cipherFor true seqNo).1 with
  | none =>
    rw [LaneKeySchedule.cipherFor] at found
    split at found <;> cases found
  | some cipher =>
    change (schedule.cipherFor true seqNo).1.elim [] LaneCipher.key = _
    rw [found]
    exact LaneKeySchedule.cipherFor_key found

def blockSeal (cipher : BlockCipher) (lane seqNo : Nat) (block : SentBlock) : SealRecord where
  key := cipher.keyFor seqNo
  nonce := buildNonce lane seqNo
  aad := cipher.aad lane seqNo block.offset block.flags
  plain := block.payload

def sendBlock (cipher : Option BlockCipher) (works : Bool) (lane seqNo : Nat) (block : SentBlock)
    (nowNs cap : Nat) : Option Sent :=
  (blockDatagram cipher works lane seqNo block nowNs cap).map fun dg =>
    ⟨dg, cipher.map fun c => blockSeal c lane seqNo block⟩

/-- The seal of a control datagram: the tag covers the datagram and its counter. -/
def controlSeal (auth : ControlAuth) (dg : List UInt8) : SealRecord where
  key := auth.key
  nonce := controlNonce auth.lane auth.nextCtr auth.dir
  aad := dg ++ put 8 auth.nextCtr
  plain := []

structure Signer where
  backend : CryptoBackend
  auth : ControlAuth

/-- Sign an encoded control datagram when the session is keyed. -/
def sealCtl (signer : Option Signer) (works : Bool) (dg : Option (List UInt8)) (cap : Nat) :
    Option Sent × Option Signer :=
  match dg, signer with
  | none, _ => (none, signer)
  | some body, none => (some ⟨body, none⟩, none)
  | some body, some s =>
    let out := s.auth.sealControl s.backend works body cap
    (out.1.map fun bytes => ⟨bytes, some (controlSeal s.auth body)⟩, some { s with auth := out.2 })

def ctlAuthentic (signer : Option Signer) (dg : List UInt8) : Bool :=
  match signer with
  | none => true
  | some s => (s.auth.openControl s.backend dg).isSome

def sendStreamClose (signer : Option Signer) (works : Bool) (lane nonce : Nat) (reason : UInt8) :
    List Sent × Option Signer :=
  let out := sealCtl signer works
    (encodeStreamClose { streamId := lane, nonce := nonce, reason := reason } 64) 64
  (out.1.toList.flatMap fun sent => [sent, sent, sent], out.2)

def sendPathProbe (signer : Option Signer) (works : Bool) (type : MsgType)
    (lane nonce challenge : Nat) : List Sent × Option Signer :=
  let out := sealCtl signer works
    (encodePathProbe type { streamId := lane, nonce := nonce, challenge := challenge } 64) 64
  (out.1.toList, out.2)

/-- Seal one part of the answer behind those before it; one that cannot be sealed
goes out empty. -/
def encodePart (works : Nat → Bool) (acc : List Sent × Option Signer) (rr : ResumeRanges) :
    List Sent × Option Signer :=
  let out := sealCtl acc.2 (works acc.1.length) (encodeResumeRanges rr 2048) 2048
  (acc.1 ++ [out.1.getD ⟨[], none⟩], out.2)

def encodeResumeAnswer (signer : Option Signer) (works : Nat → Bool) (lane nonce : Nat)
    (resumed : Bool) (want : List ResumeRange) : List Sent × Option Signer :=
  (resumeAnswer lane nonce resumed want).foldl (encodePart works) ([], signer)

end FuseTransport.Transfer
