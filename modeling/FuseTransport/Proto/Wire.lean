import FuseTransport.Foundation.BigEndian

/-!
# Wire constants and the outer header

Every datagram starts with a protocol version and a message type.  Multi-byte
fields are big-endian.
-/

namespace FuseTransport.Proto

open Foundation

/-- An unsigned 64-bit machine word. -/
def u64 (value : Nat) : Nat := value % 2 ^ 64

theorem u64_of_lt {value : Nat} (fits : value < 2 ^ 64) : u64 value = value :=
  Nat.mod_eq_of_lt fits

/-- The wrap-around difference of two machine words. -/
def u64Sub (first second : Nat) : Nat := u64 (first + (2 ^ 64 - second))

theorem u64_lt (value : Nat) : u64 value < 2 ^ 64 :=
  Nat.mod_lt _ (by decide)

theorem u64Sub_of_le {first second : Nat} (le : second ≤ first) (fits : first < 2 ^ 64) :
    u64Sub first second = first - second := by
  unfold u64Sub u64
  omega

theorem u64_add (total more : Nat) : u64 (u64 total + more) = u64 (total + more) :=
  Nat.mod_add_mod total (2 ^ 64) more

/-- The difference of two counters that are no further apart than a word. -/
theorem u64Sub_counters {ahead behind : Nat} (le : behind ≤ ahead)
    (near : ahead - behind < 2 ^ 64) : u64Sub (u64 ahead) (u64 behind) = ahead - behind := by
  unfold u64Sub u64
  omega

theorem one_lt_short : 1 < 2 ^ 16 := by decide

theorem two_lt_short : 2 < 2 ^ 16 := by decide

theorem four_lt_short : 4 < 2 ^ 16 := by decide

def kProtocolVersion : UInt8 := 8
def kMaxPayloadSize : Nat := 16384
def kMaxWindow : Nat := 1024
def kMaskWords : Nat := (kMaxWindow + 63) / 64

def kFlagRetransmission : UInt8 := 0x01
def kFlagLastBlock : UInt8 := 0x02

def kOuterHeaderSize : Nat := 2
def kBlockHeaderSize : Nat := 21
def kSendTimeSize : Nat := 8
def kDataPrefixSize : Nat := kOuterHeaderSize + kBlockHeaderSize + kSendTimeSize
def kMaxDatagramSize : Nat := kDataPrefixSize + kMaxPayloadSize

/-- A block whose flags mark the end of its stream or message. -/
def isLastBlock (flags : UInt8) : Bool := flags &&& kFlagLastBlock != 0

def isRetransmission (flags : UInt8) : Bool := flags &&& kFlagRetransmission != 0

/-- A block sent again is still the last block. -/
theorem isLastBlock_retransmission (flags : UInt8) :
    isLastBlock (flags ||| kFlagRetransmission) = isLastBlock flags := by
  have hmask : (flags ||| kFlagRetransmission) &&& kFlagLastBlock = flags &&& kFlagLastBlock := by
    apply UInt8.toBitVec_inj.mp
    rw [UInt8.toBitVec_and, UInt8.toBitVec_or, BitVec.and_comm,
      BitVec.and_or_distrib_left]
    change _ ||| 0#8 = _
    simp [BitVec.and_comm]
  rw [isLastBlock, hmask, isLastBlock]

/-- Flags with a mark removed, whether or not it was set. -/
theorem or_and_not (flags mark : UInt8) : (flags ||| mark) &&& ~~~mark = flags &&& ~~~mark := by
  apply UInt8.toBitVec_inj.mp
  ext i
  simp [Bool.and_or_distrib_right]

/-- The message types, with `other` for a byte that names none of them. -/
inductive MsgType where
  | data
  | heartbeat
  | ack
  | nack
  | setupData
  | setupHashReply
  | setupFinAck
  | streamStart
  | hello
  | helloAck
  | close
  | streamClose
  | resumeRanges
  | fileDigest
  | retry
  | pathChallenge
  | pathResponse
  | other (code : UInt8)
  deriving DecidableEq, Repr

namespace MsgType

def code : MsgType → UInt8
  | data => 0
  | heartbeat => 1
  | ack => 2
  | nack => 3
  | setupData => 4
  | setupHashReply => 5
  | setupFinAck => 6
  | streamStart => 7
  | hello => 8
  | helloAck => 9
  | close => 10
  | streamClose => 11
  | resumeRanges => 12
  | fileDigest => 13
  | retry => 14
  | pathChallenge => 15
  | pathResponse => 16
  | other code => code

def ofCode (code : UInt8) : MsgType :=
  match code.toNat with
  | 0 => data
  | 1 => heartbeat
  | 2 => ack
  | 3 => nack
  | 4 => setupData
  | 5 => setupHashReply
  | 6 => setupFinAck
  | 7 => streamStart
  | 8 => hello
  | 9 => helloAck
  | 10 => close
  | 11 => streamClose
  | 12 => resumeRanges
  | 13 => fileDigest
  | 14 => retry
  | 15 => pathChallenge
  | 16 => pathResponse
  | _ => other code

end MsgType

/-- The two bytes in front of every datagram. -/
def putOuter (type : MsgType) : List UInt8 := [kProtocolVersion, type.code]

@[simp]
theorem length_putOuter (type : MsgType) : (putOuter type).length = 2 := by
  simp [putOuter]

/-- Read the message type of a datagram of our protocol version. -/
def peekMsgType (bytes : List UInt8) : Option MsgType :=
  match bytes with
  | version :: code :: _ => if version = kProtocolVersion then some (MsgType.ofCode code) else none
  | _ => none

def checkOuter (expected : MsgType) (bytes : List UInt8) : Bool :=
  peekMsgType bytes == some expected

theorem peekMsgType_putOuter (type : MsgType) (known : MsgType.ofCode type.code = type)
    (rest : List UInt8) : peekMsgType (putOuter type ++ rest) = some type := by
  simp [peekMsgType, putOuter, known]

theorem checkOuter_putOuter (type : MsgType) (known : MsgType.ofCode type.code = type)
    (rest : List UInt8) : checkOuter type (putOuter type ++ rest) = true := by
  rw [checkOuter, peekMsgType_putOuter type known]
  exact beq_self_eq_true _

/-- An encoder's result: the bytes when they fit the buffer, nothing otherwise. -/
def emit (outCap : Nat) (bytes : List UInt8) : Option (List UInt8) :=
  if outCap < bytes.length then none else some bytes

theorem emit_eq_some {outCap : Nat} {bytes out : List UInt8} (emitted : emit outCap bytes = some out) :
    out = bytes := by
  unfold emit at emitted
  split at emitted
  · cases emitted
  · exact (Option.some.inj emitted).symm

end FuseTransport.Proto
