import FuseTransport.Proto.Wire

/-!
# Block headers and DATA datagrams

A block is one independently addressed datagram: its header carries the stream,
the sequence number, and the payload's byte offset within the stream.
-/

namespace FuseTransport.Proto

open Foundation Foundation.BigEndian

structure BlockHeader where
  streamId : Nat := 0
  seqNo : Nat := 0
  flags : UInt8 := 0
  payloadLen : Nat := 0
  offset : Nat := 0
  deriving DecidableEq, Repr

/-- The header's numbers are within their wire fields. -/
structure BlockHeader.Fits (hdr : BlockHeader) : Prop where
  streamId : hdr.streamId < 2 ^ 16
  seqNo : hdr.seqNo < 2 ^ 64
  payloadLen : hdr.payloadLen ≤ kMaxPayloadSize
  offset : hdr.offset < 2 ^ 64

def dataPrefix (hdr : BlockHeader) (sendTimeNs : Nat) : List UInt8 :=
  putOuter .data ++ put 2 hdr.streamId ++ put 8 hdr.seqNo ++ put 1 hdr.flags.toNat ++
    put 2 hdr.payloadLen ++ put 8 hdr.offset ++ put 8 sendTimeNs

@[simp]
theorem length_dataPrefix (hdr : BlockHeader) (sendTimeNs : Nat) :
    (dataPrefix hdr sendTimeNs).length = 31 := by
  simp [dataPrefix]

/-- Encode one block; `payload` is the `payloadLen` bytes behind the prefix. -/
def encodeDataDatagram (hdr : BlockHeader) (sendTimeNs : Nat) (payload : List UInt8)
    (outCap : Nat) : Option (List UInt8) :=
  if hdr.payloadLen > kMaxPayloadSize then none
  else if outCap < kDataPrefixSize + hdr.payloadLen then none
  else some (dataPrefix hdr sendTimeNs ++ payload)

def readBlockHeader (bytes : List UInt8) : BlockHeader where
  streamId := getAt 2 2 bytes
  seqNo := getAt 8 4 bytes
  flags := UInt8.ofNat (getAt 1 12 bytes)
  payloadLen := getAt 2 13 bytes
  offset := getAt 8 15 bytes

/-- A decoded DATA datagram. -/
structure DataDatagram where
  hdr : BlockHeader
  sendTimeNs : Nat
  payload : List UInt8
  deriving DecidableEq, Repr

/-- Decode one block.  Bytes behind the payload are accepted and ignored. -/
def decodeDataDatagram (bytes : List UInt8) : Option DataDatagram :=
  if bytes.length < kDataPrefixSize then none
  else if checkOuter .data bytes = false then none
  else if (readBlockHeader bytes).payloadLen > kMaxPayloadSize then none
  else if bytes.length < kDataPrefixSize + (readBlockHeader bytes).payloadLen then none
  else some {
    hdr := readBlockHeader bytes
    sendTimeNs := getAt 8 23 bytes
    payload := (bytes.drop kDataPrefixSize).take (readBlockHeader bytes).payloadLen }

variable {bytes : List UInt8} {dg : DataDatagram}

section

variable (decoded : decodeDataDatagram bytes = some dg)
include decoded

theorem decodeDataDatagram_some :
    checkOuter .data bytes = true ∧ dg.hdr = readBlockHeader bytes ∧
      dg.hdr.payloadLen ≤ kMaxPayloadSize ∧
      kDataPrefixSize + dg.hdr.payloadLen ≤ bytes.length ∧
      dg.payload = (bytes.drop kDataPrefixSize).take dg.hdr.payloadLen ∧
      dg.sendTimeNs = getAt 8 23 bytes := by
  obtain ⟨_, decoded⟩ := Option.ite_none_left_eq_some.mp decoded
  split at decoded
  · cases decoded
  · rename_i houter
    split at decoded
    · cases decoded
    · rename_i hsmall
      split at decoded
      · cases decoded
      · rename_i hlong
        cases decoded
        exact ⟨by simpa using houter, rfl, Nat.le_of_not_gt hsmall, Nat.le_of_not_gt hlong,
          rfl, rfl⟩

/-- A decoded payload has the length its header announces. -/
theorem decodeDataDatagram_payload_length : dg.payload.length = dg.hdr.payloadLen := by
  obtain ⟨_, _, _, hlong, hpayload, _⟩ := decodeDataDatagram_some decoded
  rw [hpayload, List.length_take, List.length_drop]
  exact Nat.min_eq_left (Nat.le_sub_of_add_le (by rwa [Nat.add_comm]))

/-- A decoded header's numbers are within their wire fields. -/
theorem decodeDataDatagram_fits : dg.hdr.Fits := by
  obtain ⟨_, hhdr, hsmall, _, _⟩ := decodeDataDatagram_some decoded
  refine ⟨?_, ?_, hsmall, ?_⟩
  · rw [hhdr]
    exact getAt_lt 2 2 bytes
  · rw [hhdr]
    exact getAt_lt 8 4 bytes
  · rw [hhdr]
    exact getAt_lt 8 15 bytes

end

theorem readBlockHeader_dataPrefix (hdr : BlockHeader) (fits : hdr.Fits) (sendTimeNs : Nat)
    (rest : List UInt8) : readBlockHeader (dataPrefix hdr sendTimeNs ++ rest) = hdr := by
  have hpayload : hdr.payloadLen < 256 ^ 2 :=
    Nat.lt_of_le_of_lt fits.payloadLen (by decide)
  unfold readBlockHeader dataPrefix
  simp only [List.append_assoc, getAt_append, length_putOuter, length_put, Nat.reduceLeDiff, Nat.reduceSub]
  rw [getAt_put _ fits.streamId, getAt_put _ fits.seqNo, getAt_put _ hdr.flags.toNat_lt,
    getAt_put _ hpayload, getAt_put _ fits.offset, UInt8.ofNat_toNat]

/-- Decoding an encoded block gives the block back, whatever follows it. -/
theorem decodeDataDatagram_encode (hdr : BlockHeader) (fits : hdr.Fits) {sendTimeNs : Nat}
    (htime : sendTimeNs < 2 ^ 64) {payload : List UInt8}
    (hlen : payload.length = hdr.payloadLen) (rest : List UInt8) :
    decodeDataDatagram (dataPrefix hdr sendTimeNs ++ payload ++ rest) =
      some ⟨hdr, sendTimeNs, payload⟩ := by
  have houter : checkOuter .data (dataPrefix hdr sendTimeNs ++ payload ++ rest) = true := by
    simp only [List.append_assoc]
    exact checkOuter_putOuter .data rfl _
  have hread : readBlockHeader (dataPrefix hdr sendTimeNs ++ payload ++ rest) = hdr := by
    rw [List.append_assoc]
    exact readBlockHeader_dataPrefix hdr fits sendTimeNs _
  have hsend : getAt 8 23 (dataPrefix hdr sendTimeNs ++ payload ++ rest) = sendTimeNs := by
    simp only [dataPrefix, List.append_assoc]
    exact getAt_put _ htime
  have hsmall : ¬ hdr.payloadLen > kMaxPayloadSize := Nat.not_lt.mpr fits.payloadLen
  have hpayload : ((dataPrefix hdr sendTimeNs ++ payload ++ rest).drop kDataPrefixSize).take
      hdr.payloadLen = payload := by
    rw [List.append_assoc, List.drop_append_of_le_length (by simp [kDataPrefixSize,
      kOuterHeaderSize, kBlockHeaderSize, kSendTimeSize]), List.drop_eq_nil_of_le (by simp
      [kDataPrefixSize, kOuterHeaderSize, kBlockHeaderSize, kSendTimeSize]), List.nil_append,
      ← hlen, List.take_left']
    rfl
  unfold decodeDataDatagram
  rw [houter, hread, hsend]
  simp [hsmall, hlen, kDataPrefixSize, kOuterHeaderSize, kBlockHeaderSize, kSendTimeSize]

end FuseTransport.Proto
