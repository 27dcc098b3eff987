import FuseTransport.Proto.Block
import FuseTransport.Proto.SendWindow
import FuseTransport.Proto.SessionCrypto

/-!
# Blocks as datagrams, in the clear or sealed

A sender puts a block on the wire with its payload as it is, or sealed under the
lane's key with the block's identity as associated data.  Both the first send
and every retransmission go through the same steps, and so does the other end
in reverse.
-/

namespace FuseTransport.Proto

open Foundation

/-- How one direction is keyed: the key of each block and what its associated
data says. -/
structure BlockCipher where
  backend : CryptoBackend
  keyFor : Nat → List UInt8
  aad : (lane seqNo offset : Nat) → (flags : UInt8) → List UInt8

def protect (cipher : Option BlockCipher) (works : Bool) (lane seqNo : Nat) (block : SentBlock) :
    Option (List UInt8) :=
  match cipher with
  | none => some block.payload
  | some c =>
    LaneCipher.sealData c.backend ⟨c.keyFor seqNo⟩ works lane seqNo
      (c.aad lane seqNo block.offset block.flags) block.payload

/-- The payload of a received block, when its body opens. -/
def unprotect (cipher : Option BlockCipher) (lane : Nat) (dg : DataDatagram) :
    Option (List UInt8) :=
  match cipher with
  | none => some dg.payload
  | some c =>
    LaneCipher.openData c.backend ⟨c.keyFor dg.hdr.seqNo⟩ lane dg.hdr.seqNo
      (c.aad lane dg.hdr.seqNo dg.hdr.offset dg.hdr.flags) dg.payload

/-- The datagram of one block, when the backend works and the buffer holds it. -/
def blockDatagram (cipher : Option BlockCipher) (works : Bool) (lane seqNo : Nat)
    (block : SentBlock) (nowNs cap : Nat) : Option (List UInt8) :=
  (protect cipher works lane seqNo block).bind fun body =>
    encodeDataDatagram
      { streamId := lane, seqNo := seqNo, flags := block.flags, payloadLen := body.length,
        offset := block.offset }
      (u64 nowNs) body cap

/-- The same block marked as sent again. -/
def SentBlock.again (block : SentBlock) : SentBlock :=
  { block with flags := block.flags ||| kFlagRetransmission }

def SendOf (cipher : Option BlockCipher) (lane seqNo : Nat) (block : SentBlock)
    (dg : List UInt8) : Prop :=
  ∃ works nowNs cap, blockDatagram cipher works lane seqNo block nowNs cap = some dg ∨
    blockDatagram cipher works lane seqNo block.again nowNs cap = some dg

/-- A decoded datagram that says about a block what its sender put there. -/
structure Conveys (cipher : Option BlockCipher) (lane seqNo : Nat) (block : SentBlock)
    (dg : DataDatagram) : Prop where
  streamId : dg.hdr.streamId = lane
  seqNo : dg.hdr.seqNo = seqNo
  offset : dg.hdr.offset = block.offset
  last : isLastBlock dg.hdr.flags = isLastBlock block.flags
  flags : dg.hdr.flags &&& ~~~kFlagRetransmission = block.flags &&& ~~~kFlagRetransmission
  sendTimeNs : dg.sendTimeNs < 2 ^ 64
  payload : unprotect cipher lane dg = some block.payload

variable {works : Bool} {block : SentBlock} {cipher : Option BlockCipher}

theorem unprotect_protect {lane seqNo : Nat} {body : List UInt8}
    (sealed : protect cipher works lane seqNo block = some body) {hdr : BlockHeader}
    (hseq : hdr.seqNo = seqNo) (hoffset : hdr.offset = block.offset)
    (hflags : hdr.flags = block.flags) (sendTimeNs : Nat) :
    unprotect cipher lane ⟨hdr, sendTimeNs, body⟩ = some block.payload := by
  cases cipher with
  | none => exact sealed.symm
  | some c =>
    rw [LaneCipher.sealData_eq_some c.backend sealed]
    simp only [unprotect, hseq, hoffset, hflags]
    exact LaneCipher.openData_encrypt c.backend _ lane seqNo _ _

theorem blockDatagram_eq_some {lane seqNo : Nat} {nowNs cap : Nat} {dg : List UInt8}
    (sent : blockDatagram cipher works lane seqNo block nowNs cap = some dg) :
    ∃ body, protect cipher works lane seqNo block = some body ∧
      body.length ≤ kMaxPayloadSize ∧
      dg = dataPrefix
        { streamId := lane, seqNo := seqNo, flags := block.flags, payloadLen := body.length,
          offset := block.offset } (u64 nowNs) ++ body := by
  obtain ⟨body, hbody, hencoded⟩ := Option.bind_eq_some_iff.mp sent
  obtain ⟨hsmall, hencoded⟩ := Option.ite_none_left_eq_some.mp hencoded
  split at hencoded
  · cases hencoded
  · exact ⟨body, hbody, Nat.le_of_not_gt hsmall, (Option.some.inj hencoded).symm⟩

/-- The other end reads a block's datagram as that block. -/
theorem decode_blockDatagram {lane seqNo : Nat} {nowNs cap : Nat} {dg : List UInt8}
    (sent : blockDatagram cipher works lane seqNo block nowNs cap = some dg)
    (hlane : lane < 2 ^ 16) (hseq : seqNo < 2 ^ 64) (hoffset : block.offset < 2 ^ 64) :
    ∃ decoded, decodeDataDatagram dg = some decoded ∧
      Conveys cipher lane seqNo block decoded := by
  obtain ⟨body, hbody, hsmall, hdg⟩ := blockDatagram_eq_some sent
  have htime : u64 nowNs < 2 ^ 64 := u64_lt nowNs
  have hdecoded := decodeDataDatagram_encode
    { streamId := lane, seqNo := seqNo, flags := block.flags, payloadLen := body.length,
      offset := block.offset } ⟨hlane, hseq, hsmall, hoffset⟩ htime rfl []
  rw [List.append_nil, ← hdg] at hdecoded
  exact ⟨_, hdecoded, rfl, rfl, rfl, rfl, rfl, htime, unprotect_protect hbody rfl rfl rfl _⟩

namespace SendOf

variable {cipher : Option BlockCipher} {lane seqNo : Nat} {block : SentBlock} {dg : List UInt8}

/-- A retransmission is read as the block it repeats. -/
theorem decode (sent : SendOf cipher lane seqNo block dg) (hlane : lane < 2 ^ 16)
    (hseq : seqNo < 2 ^ 64) (hoffset : block.offset < 2 ^ 64) :
    ∃ decoded, decodeDataDatagram dg = some decoded ∧
      Conveys cipher lane seqNo block decoded := by
  obtain ⟨works, nowNs, cap, hfirst | hagain⟩ := sent
  · exact decode_blockDatagram hfirst hlane hseq hoffset
  · obtain ⟨decoded, hdecoded, conveys⟩ := decode_blockDatagram hagain hlane hseq hoffset
    exact ⟨decoded, hdecoded, conveys.streamId, conveys.seqNo, conveys.offset,
      conveys.last.trans (isLastBlock_retransmission block.flags),
      conveys.flags.trans (or_and_not block.flags _), conveys.sendTimeNs, conveys.payload⟩

/-- Every send of a block is a DATA datagram. -/
theorem peek (sent : SendOf cipher lane seqNo block dg) : peekMsgType dg = some .data := by
  obtain ⟨works, nowNs, cap, hfirst | hagain⟩ := sent
  · obtain ⟨body, _, _, hdg⟩ := blockDatagram_eq_some hfirst
    rw [hdg, dataPrefix]
    simp only [List.append_assoc]
    exact peekMsgType_putOuter .data rfl _
  · obtain ⟨body, _, _, hdg⟩ := blockDatagram_eq_some hagain
    rw [hdg]
    exact peekMsgType_putOuter .data rfl _

end SendOf

end FuseTransport.Proto
