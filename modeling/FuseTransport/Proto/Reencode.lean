import FuseTransport.Proto.Block
import FuseTransport.Proto.SetupWire

/-!
# What was decoded encodes to what was received

Whenever a decoder accepts a datagram, the encoder of its message type writes the front
of that datagram again, and the numbers it writes are within their wire fields.
-/

namespace FuseTransport.Proto

open Foundation Foundation.BigEndian

theorem MsgType.code_ofCode (code : UInt8) : (MsgType.ofCode code).code = code := by
  unfold MsgType.ofCode
  split
  all_goals first
    | rfl
    | (rename_i hcode; exact (UInt8.toNat_inj.mp hcode).symm)

variable {type : MsgType} {bytes : List UInt8}

/-- The outer header of an accepted datagram. -/
theorem putOuter_of_peek (peeked : peekMsgType bytes = some type) :
    putOuter type = bytes.take 2 := by
  unfold peekMsgType at peeked
  split at peeked
  · split at peeked
    · rename_i hversion
      cases peeked
      rw [putOuter, MsgType.code_ofCode, hversion]
      rfl
    · cases peeked
  · cases peeked

theorem decodeHeartbeat_some {hb : Heartbeat} (decoded : decodeHeartbeat bytes = some hb) :
    peekMsgType bytes = some .heartbeat ∧ (hb.streamId < 2 ^ 16 ∧ hb.highestSeqNo < 2 ^ 64) ∧
      heartbeatBytes hb = bytes.take 12 := by
  obtain ⟨hpeek, hlong, hbody⟩ := of_decoded decoded
  cases hbody
  rw [kOuterHeaderSize] at hlong
  refine ⟨hpeek, ⟨getAt_lt 2 _ _, getAt_lt 8 _ _⟩, ?_⟩
  rw [heartbeatBytes, putOuter_of_peek hpeek]
  simp (disch := omega) only [take_put]

theorem decodeAck_some {ack : Ack} (decoded : decodeAck bytes = some ack) :
    peekMsgType bytes = some .ack ∧ ack.Fits ∧ ackBytes ack = bytes.take 160 := by
  obtain ⟨hpeek, hlong, hbody⟩ := of_decoded decoded
  cases hbody
  rw [kOuterHeaderSize, kMaskWords, kMaxWindow] at hlong
  refine ⟨hpeek, ⟨getAt_lt 2 _ _, getAt_lt 8 _ _, getAt_lt 8 _ _, getAt_lt 8 _ _, getAt_lt 4 _ _⟩,
    ?_⟩
  have hmask : List.ofFn (fun w : Fin 16 =>
      (BitVec.ofNat 64 (getAt 8 (12 + 8 * w.val) bytes)).toNat) =
        (List.range 16).map fun i => getAt 8 (12 + 8 * i) bytes := by
    apply List.ext_getElem
    · simp
    · intro i hi hi'
      have hword : getAt 8 (12 + 8 * i) bytes < 2 ^ 64 := getAt_lt 8 _ _
      rw [List.getElem_ofFn, List.getElem_map, List.getElem_range]
      exact Nat.mod_eq_of_lt hword
  have hwords : bytes.take 12 ++ putAll 8 ((List.range 16).map fun i => getAt 8 (12 + 8 * i) bytes) =
      bytes.take (12 + 8 * 16) := by
    refine take_records fun i inside => ?_
    exact take_put (by omega)
  rw [ackBytes, putOuter_of_peek hpeek]
  rw [hmask]
  simp (disch := omega) only [take_put, hwords]

theorem decodeStreamClose_some {sc : StreamClose} (decoded : decodeStreamClose bytes = some sc) :
    peekMsgType bytes = some .streamClose ∧ (sc.streamId < 2 ^ 16 ∧ sc.nonce < 2 ^ 64) ∧
      streamCloseBytes sc = bytes.take 13 := by
  obtain ⟨hpeek, hlong, hbody⟩ := of_decoded decoded
  cases hbody
  rw [kOuterHeaderSize] at hlong
  refine ⟨hpeek, ⟨getAt_lt 2 _ _, getAt_lt 8 _ _⟩, ?_⟩
  rw [streamCloseBytes, putOuter_of_peek hpeek]
  simp (disch := omega) only [take_put, toNat_ofNat_getAt]

theorem decodeDigest_some {dm : DigestMessage} (decoded : decodeDigest bytes = some dm) :
    peekMsgType bytes = some .fileDigest ∧
      (dm.streamId < 2 ^ 16 ∧ dm.nonce < 2 ^ 64 ∧ dm.digest.length = kDigestLen) ∧
      digestBytes dm = bytes.take 44 := by
  obtain ⟨hpeek, hlong, hbody⟩ := of_decoded decoded
  cases hbody
  rw [kOuterHeaderSize, kDigestLen] at hlong
  have hdigest : ((bytes.drop 12).take kDigestLen).length = kDigestLen := by
    rw [List.length_take, List.length_drop, kDigestLen]
    omega
  refine ⟨hpeek, ⟨getAt_lt 2 _ _, getAt_lt 8 _ _, hdigest⟩, ?_⟩
  rw [digestBytes, putOuter_of_peek hpeek]
  simp (disch := omega) only [take_put, take_slice, kDigestLen]

theorem decodeRetry_some {r : Retry} (decoded : decodeRetry bytes = some r) :
    peekMsgType bytes = some .retry ∧
      (r.streamId < 2 ^ 16 ∧ r.nonce < 2 ^ 64 ∧ r.token < 2 ^ 64) ∧ retryBytes r = bytes.take 20 := by
  obtain ⟨hpeek, hlong, hbody⟩ := of_decoded decoded
  cases hbody
  rw [kOuterHeaderSize] at hlong
  refine ⟨hpeek, ⟨getAt_lt 2 _ _, getAt_lt 8 _ _, getAt_lt 8 _ _⟩, ?_⟩
  rw [retryBytes, putOuter_of_peek hpeek]
  simp (disch := omega) only [take_put]

theorem decodePathProbe_some {pp : PathProbe} (decoded : decodePathProbe type bytes = some pp) :
    peekMsgType bytes = some type ∧
      (pp.streamId < 2 ^ 16 ∧ pp.nonce < 2 ^ 64 ∧ pp.challenge < 2 ^ 64) ∧
      pathProbeBytes type pp = bytes.take 20 := by
  obtain ⟨hpeek, hlong, hbody⟩ := of_decoded decoded
  cases hbody
  rw [kOuterHeaderSize] at hlong
  refine ⟨hpeek, ⟨getAt_lt 2 _ _, getAt_lt 8 _ _, getAt_lt 8 _ _⟩, ?_⟩
  rw [pathProbeBytes, putOuter_of_peek hpeek]
  simp (disch := omega) only [take_put]

theorem decodeSetupHash_some {hash responderNonce : Nat}
    (decoded : decodeSetupHash type bytes = some (hash, responderNonce)) :
    peekMsgType bytes = some type ∧ (hash < 2 ^ 64 ∧ responderNonce < 2 ^ 64) ∧
      setupHashBytes type hash responderNonce = bytes := by
  obtain ⟨hlength, decoded⟩ := Option.ite_none_left_eq_some.mp decoded
  split at decoded
  · cases decoded
  · rename_i houter
    cases decoded
    rw [Bool.not_eq_false] at houter
    rw [Decidable.not_not, kOuterHeaderSize] at hlength
    have hpeek := peekMsgType_of_checkOuter houter
    refine ⟨hpeek, ⟨getAt_lt 8 _ _, getAt_lt 8 _ _⟩, ?_⟩
    rw [setupHashBytes, putOuter_of_peek hpeek]
    simp (disch := omega) only [take_put]
    exact List.take_of_length_le (Nat.le_of_eq hlength)

/-! ## Messages with lists -/

theorem decodeNack_some {nack : Nack} (decoded : decodeNack bytes = some nack) :
    peekMsgType bytes = some .nack ∧ nack.Fits ∧
      nackBytes nack = bytes.take (6 + 8 * nack.missing.length) := by
  obtain ⟨hpeek, hlong, hbody⟩ := of_decoded decoded
  dsimp only at hbody
  obtain ⟨hcount, hbody⟩ := Option.ite_none_left_eq_some.mp hbody
  obtain ⟨hfull, hbody⟩ := Option.ite_none_left_eq_some.mp hbody
  cases hbody
  rw [kOuterHeaderSize] at hlong hfull
  have hmissing : bytes.take 6 ++
      putAll 8 ((List.range (getAt 2 4 bytes)).map fun i => getAt 8 (6 + 8 * i) bytes) =
        bytes.take (6 + 8 * getAt 2 4 bytes) := by
    refine take_records fun i inside => ?_
    exact take_put (by omega)
  refine ⟨hpeek, ?_, ?_⟩
  · refine ⟨getAt_lt 2 _ _, ?_, ?_⟩
    · rw [List.length_map, List.length_range]
      exact Nat.not_lt.mp hcount
    · intro seq member
      obtain ⟨i, _, rfl⟩ := List.mem_map.mp member
      exact getAt_lt 8 _ _
  · rw [nackBytes, putOuter_of_peek hpeek]
    simp only [List.length_map, List.length_range]
    simp (disch := omega) only [take_put, hmissing]

/-- A range list is written range by range. -/
theorem putAll_rangeFields (ranges : List ResumeRange) :
    putAll 8 (rangeFields ranges) = ranges.flatMap fun r => put 8 r.offset ++ put 8 r.length := by
  unfold putAll rangeFields
  rw [List.flatMap_assoc]
  simp

theorem decodeResumeRanges_some {rr : ResumeRanges} (decoded : decodeResumeRanges bytes = some rr) :
    peekMsgType bytes = some .resumeRanges ∧ rr.Fits ∧
      resumeRangesBytes rr = bytes.take (19 + 16 * rr.ranges.length) := by
  obtain ⟨hpeek, hlong, hbody⟩ := of_decoded decoded
  dsimp only at hbody
  obtain ⟨hpassed, hbody⟩ := Option.ite_none_left_eq_some.mp hbody
  cases hbody
  simp only [not_or, Nat.not_lt, Nat.not_le] at hpassed
  obtain ⟨hcount, _, hpart, hfull⟩ := hpassed
  rw [kResumeRangesFixed, kOuterHeaderSize] at hfull
  have hranges : bytes.take 19 ++ ((List.range (getAt 2 17 bytes)).map fun i =>
      ({ offset := getAt 8 (19 + 16 * i) bytes, length := getAt 8 (27 + 16 * i) bytes } :
        ResumeRange)).flatMap (fun r => put 8 r.offset ++ put 8 r.length) =
        bytes.take (19 + 16 * getAt 2 17 bytes) := by
    refine take_records fun i inside => ?_
    rw [← List.append_assoc, take_put (by omega), show 27 + 16 * i = 19 + 16 * i + 8 by omega,
      take_put (by omega)]
  refine ⟨hpeek, ?_, ?_⟩
  · refine ⟨getAt_lt 2 _ _, getAt_lt 8 _ _, getAt_lt 2 _ _, hpart, ?_, ?_⟩
    · rw [List.length_map, List.length_range]
      exact hcount
    · intro r member
      obtain ⟨i, _, rfl⟩ := List.mem_map.mp member
      exact ⟨getAt_lt 8 _ _, getAt_lt 8 _ _⟩
  · rw [resumeRangesBytes, putOuter_of_peek hpeek, putAll_rangeFields]
    simp only [List.length_map, List.length_range, toNat_ofNat_getAt]
    simp (disch := omega) only [take_put, hranges]

theorem decodeStreamStart_some {ss : StreamStart} (decoded : decodeStreamStart bytes = some ss) :
    peekMsgType bytes = some .streamStart ∧ ss.Fits ∧
      streamStartBytes ss = bytes.take (80 + ss.ext.length) := by
  obtain ⟨hpeek, hlong, hbody⟩ := of_decoded decoded
  dsimp only at hbody
  obtain ⟨hpassed, hbody⟩ := Option.ite_none_left_eq_some.mp hbody
  cases hbody
  simp only [not_or, Nat.not_lt, Bool.not_eq_false] at hpassed
  obtain ⟨hcount, hfull, hacceptable⟩ := hpassed
  rw [kStreamStartFixed, kOuterHeaderSize] at hlong
  have hext : ((bytes.drop 80).take (getAt 2 78 bytes)).length = getAt 2 78 bytes := by
    rw [List.length_take, List.length_drop]
    omega
  have hsalt : ((bytes.drop 22).take 16).length = 16 := by
    rw [List.length_take, List.length_drop]
    omega
  refine ⟨hpeek, ?_, ?_⟩
  · refine ⟨getAt_lt 2 _ _, getAt_lt 8 _ _, getAt_lt 2 _ _, getAt_lt 8 _ _, hsalt, getAt_lt 8 _ _,
      getAt_lt 8 _ _, getAt_lt 8 _ _, getAt_lt 8 _ _, getAt_lt 8 _ _, ?_, hacceptable⟩
    rw [hext]
    exact hcount
  · rw [streamStartBytes, putOuter_of_peek hpeek]
    simp only [hext]
    simp (disch := omega) only [take_put, take_slice]

theorem decodeDataDatagram_reencode {dg : DataDatagram}
    (decoded : decodeDataDatagram bytes = some dg) :
    dg.sendTimeNs < 2 ^ 64 ∧
      dataPrefix dg.hdr dg.sendTimeNs ++ dg.payload = bytes.take (31 + dg.hdr.payloadLen) := by
  obtain ⟨houter, hhdr, _, hlong, hpayload, htime⟩ := decodeDataDatagram_some decoded
  rw [kDataPrefixSize, kOuterHeaderSize, kBlockHeaderSize, kSendTimeSize] at hlong hpayload
  constructor
  · rw [htime]
    exact getAt_lt 8 _ _
  · have hfront : dataPrefix dg.hdr dg.sendTimeNs = bytes.take 31 := by
      rw [dataPrefix, putOuter_of_peek (peekMsgType_of_checkOuter houter), htime, hhdr,
        readBlockHeader]
      simp only [toNat_ofNat_getAt]
      simp (disch := omega) only [take_put]
    rw [hfront, hpayload]
    exact take_slice bytes 31 _

theorem readStreamConfig_fits (bytes : List UInt8) : (readStreamConfig bytes).Fits :=
  ⟨getAt_lt 2 _ _, getAt_lt 2 _ _, getAt_lt 2 _ _, getAt_lt 2 _ _⟩

theorem streamConfigBytes_read (long : 9 ≤ bytes.length) :
    streamConfigBytes (readStreamConfig bytes) = bytes.take 9 := by
  have hfirst : put 2 (getAt 2 0 bytes) = bytes.take 2 := put_getAt_zero (by omega)
  unfold streamConfigBytes readStreamConfig
  simp only [toNat_ofNat_getAt, hfirst]
  simp (disch := omega) only [take_put]

/-- The streams of a payload, written where they were read. -/
theorem take_streams {body : List UInt8} {count : Nat} (long : 5 + 9 * count ≤ body.length) :
    body.take 5 ++ ((List.range count).map fun i =>
      readStreamConfig (body.drop (5 + 9 * i))).flatMap streamConfigBytes =
        body.take (5 + 9 * count) := by
  refine take_records fun i inside => ?_
  rw [streamConfigBytes_read (by rw [List.length_drop]; omega)]
  exact take_slice body _ 9

/-- A decoded SETUP payload is written as it was received. -/
theorem decodeSetupData_some {body : List UInt8} {p : SetupPayload}
    (decoded : decodeSetupData bytes = some (p, body)) :
    peekMsgType bytes = some .setupData ∧ p.Fits ∧ setupBody p = body ∧
      putOuter .setupData ++ body = bytes := by
  obtain ⟨hpeek, hlong, hbody⟩ := of_decoded decoded
  have houter : putOuter .setupData ++ bytes.drop kOuterHeaderSize = bytes := by
    rw [putOuter_of_peek hpeek]
    exact List.take_append_drop 2 bytes
  dsimp only at hbody
  generalize bytes.drop kOuterHeaderSize = received at hbody houter
  obtain ⟨hcount, hbody⟩ := Option.ite_none_left_eq_some.mp hbody
  obtain ⟨_, hbody⟩ := Option.ite_none_left_eq_some.mp hbody
  split at hbody
  · cases hbody
  · rename_i hpassed
    cases hbody
    simp only [not_or, Nat.not_lt, Bool.not_eq_false] at hpassed
    obtain ⟨hextLen, hlength, hacceptable⟩ := hpassed
    have hext : ((body.drop (1 + 2 + 2 + getAt 2 3 body * 9 + 2)).take
        (getAt 2 (1 + 2 + 2 + getAt 2 3 body * 9) body)).length =
          getAt 2 (1 + 2 + 2 + getAt 2 3 body * 9) body := by
      rw [List.length_take, List.length_drop]
      omega
    refine ⟨hpeek, ⟨getAt_lt 2 _ _, ?_, ?_, ?_, hacceptable⟩, ?_, houter⟩
    · rw [List.length_map, List.length_range]
      exact Nat.not_lt.mp hcount
    · intro s member
      obtain ⟨i, _, rfl⟩ := List.mem_map.mp member
      exact readStreamConfig_fits _
    · rw [hext]
      exact hextLen
    · have hfirst : put 1 (getAt 1 0 body) = body.take 1 := put_getAt_zero (by omega)
      have hoffset : 1 + 2 + 2 + getAt 2 3 body * 9 = 5 + 9 * getAt 2 3 body := by omega
      unfold setupBody
      simp only [toNat_ofNat_getAt, hfirst, hext, List.length_map, List.length_range]
      rw [hoffset] at hlength
      rw [take_put (by omega), take_put (by omega), hoffset, take_streams (by omega),
        take_put (by omega), take_slice]
      exact List.take_of_length_le (by omega)

end FuseTransport.Proto
