import FuseTransport.Proto.Control

/-!
# Control messages decode to what was encoded

For every control message whose numbers are within their wire fields, decoding
the encoded bytes gives the message back, whatever bytes follow it.
-/

namespace FuseTransport.Proto

open Foundation Foundation.BigEndian

variable {type : MsgType} {bytes : List UInt8}

theorem peekMsgType_of_checkOuter (outer : checkOuter type bytes = true) :
    peekMsgType bytes = some type :=
  eq_of_beq outer

theorem decodable {size : Nat} (outer : checkOuter type bytes = true) (long : size ≤ bytes.length) :
    ¬ (checkOuter type bytes = false ∨ bytes.length < size) := by
  rintro (mismatch | short)
  · rw [outer] at mismatch
    cases mismatch
  · omega

/-- The first check of a decoder, read off its success. -/
theorem of_decoded {Short : Prop} [Decidable Short] {Message : Type} {body : Option Message}
    {message : Message}
    (decoded : (if checkOuter type bytes = false ∨ Short then none else body) = some message) :
    peekMsgType bytes = some type ∧ ¬ Short ∧ body = some message := by
  split at decoded
  · cases decoded
  · rename_i hpassed
    rw [not_or, Bool.not_eq_false] at hpassed
    exact ⟨peekMsgType_of_checkOuter hpassed.1, hpassed.2, decoded⟩

variable (rr : ResumeRanges) (dm : DigestMessage) (ss : StreamStart) (rest : List UInt8)
  (sc : StreamClose) (ack : Ack) (hb : Heartbeat)

@[simp]
theorem length_heartbeatBytes : (heartbeatBytes hb).length = 12 := by
  simp [heartbeatBytes]

theorem checkOuter_heartbeat (rest : List UInt8) :
    checkOuter .heartbeat (heartbeatBytes hb ++ rest) = true := by
  exact checkOuter_putOuter .heartbeat rfl _

theorem decodeHeartbeat_encode (hstream : hb.streamId < 2 ^ 16)
    (hseq : hb.highestSeqNo < 2 ^ 64) (rest : List UInt8) :
    decodeHeartbeat (heartbeatBytes hb ++ rest) = some hb := by
  unfold decodeHeartbeat
  rw [if_neg (decodable (checkOuter_heartbeat hb rest) (by simp [kOuterHeaderSize]))]
  simp only [heartbeatBytes, List.append_assoc, getAt_append, length_putOuter, length_put,
    Nat.le_refl, Nat.reduceLeDiff]
  rw [getAt_put _ hstream, getAt_put _ hseq]

/-- The numbers of an acknowledgement are within their wire fields. -/
structure Ack.Fits (ack : Ack) : Prop where
  streamId : ack.streamId < 2 ^ 16
  baseSeqNo : ack.baseSeqNo < 2 ^ 64
  echoedSendTime : ack.echoedSendTime < 2 ^ 64
  nonce : ack.nonce < 2 ^ 64
  rwnd : ack.rwnd < 2 ^ 32

@[simp]
theorem length_ackBytes : (ackBytes ack).length = 160 := by
  simp [ackBytes]

theorem checkOuter_ack (rest : List UInt8) : checkOuter .ack (ackBytes ack ++ rest) = true := by
  exact checkOuter_putOuter .ack rfl _

theorem getAt_ackBytes_mask (rest : List UInt8) (w : Fin 16) :
    getAt 8 (12 + 8 * w.val) (ackBytes ack ++ rest) = (ack.receivedBitmask w).toNat := by
  have hbehind : 12 + 8 * w.val - 2 - 2 - 8 = 8 * w.val := by omega
  have hwords : ∀ value ∈ List.ofFn (fun w => (ack.receivedBitmask w).toNat), value < 256 ^ 8 := by
    intro value member
    obtain ⟨i, rfl⟩ := List.mem_ofFn.mp member
    exact (ack.receivedBitmask i).isLt
  simp only [ackBytes, List.append_assoc]
  rw [getAt_append _ _ (by rw [length_putOuter]; omega),
    getAt_append _ _ (by rw [length_putOuter, length_put]; omega),
    getAt_append _ _ (by rw [length_putOuter, length_put, length_put]; omega)]
  rw [length_putOuter, length_put, length_put, hbehind,
    getAt_putAll _ _ hwords w.val (by rw [List.length_ofFn]; exact w.isLt), List.getElem_ofFn]

theorem decodeAck_encode (fits : ack.Fits) (rest : List UInt8) :
    decodeAck (ackBytes ack ++ rest) = some ack := by
  have hwords := getAt_ackBytes_mask ack rest
  unfold decodeAck
  rw [if_neg (decodable (checkOuter_ack ack rest)
    (by simp [kOuterHeaderSize, kMaskWords, kMaxWindow]))]
  simp only [hwords, BitVec.ofNat_toNat, BitVec.setWidth_eq]
  simp only [ackBytes, List.append_assoc, getAt_append, length_putOuter, length_put,
    length_putAll, List.length_ofFn, Nat.reduceLeDiff, Nat.reduceSub, Nat.reduceMul]
  rw [getAt_put _ fits.streamId, getAt_put _ fits.baseSeqNo, getAt_put _ fits.echoedSendTime,
    getAt_put _ fits.nonce, getAt_put _ fits.rwnd]

/-- A list of numbers within their wire fields, short enough for one NACK. -/
structure Nack.Fits (nack : Nack) : Prop where
  streamId : nack.streamId < 2 ^ 16
  count : nack.missing.length ≤ kMaxWindow
  missing : ∀ seq ∈ nack.missing, seq < 2 ^ 64

@[simp]
theorem length_nackBytes (nack : Nack) :
    (nackBytes nack).length = 6 + nack.missing.length * 8 := by
  simp [nackBytes]
  omega

theorem checkOuter_nack (nack : Nack) (rest : List UInt8) :
    checkOuter .nack (nackBytes nack ++ rest) = true := by
  exact checkOuter_putOuter .nack rfl _

theorem encodeNack_eq_some {nack : Nack} {outCap : Nat}
    (encoded : encodeNack nack outCap = some bytes) : bytes = nackBytes nack := by
  unfold encodeNack at encoded
  split at encoded
  · cases encoded
  · exact emit_eq_some encoded

theorem decodeNack_encode (nack : Nack) (fits : nack.Fits) (rest : List UInt8) :
    decodeNack (nackBytes nack ++ rest) = some nack := by
  have hcount : nack.missing.length < 2 ^ 16 := Nat.lt_of_le_of_lt fits.count (by decide)
  have hnumber : getAt 2 4 (nackBytes nack ++ rest) = nack.missing.length := by
    exact getAt_put _ hcount
  have hstream : getAt 2 2 (nackBytes nack ++ rest) = nack.streamId := by
    exact getAt_put _ fits.streamId
  have hmissing : (List.range nack.missing.length).map
      (fun i => getAt 8 (6 + 8 * i) (nackBytes nack ++ rest)) = nack.missing := by
    apply List.ext_getElem
    · simp
    · intro i hi hi'
      have hbehind : 6 + 8 * i - 2 - 2 - 2 = 8 * i := by omega
      simp only [List.getElem_map, List.getElem_range, nackBytes, List.append_assoc]
      rw [getAt_append _ _ (by rw [length_putOuter]; omega),
        getAt_append _ _ (by rw [length_putOuter, length_put]; omega),
        getAt_append _ _ (by rw [length_putOuter, length_put, length_put]; omega),
        length_putOuter, length_put, length_put, hbehind, getAt_putAll _ _ fits.missing i hi']
  unfold decodeNack
  rw [if_neg (decodable (checkOuter_nack nack rest) (by simp [kOuterHeaderSize]; omega))]
  simp only [hnumber, hstream, hmissing]
  rw [if_neg (Nat.not_lt.mpr fits.count)]
  simp [kOuterHeaderSize]

/-! ## Handshake and teardown -/

/-- The fields of a StreamStart are within their wire fields. -/
structure StreamStart.Fits (ss : StreamStart) : Prop where
  streamId : ss.streamId < 2 ^ 16
  totalBlocks : ss.totalBlocks < 2 ^ 64
  blockSize : ss.blockSize < 2 ^ 16
  totalBytes : ss.totalBytes < 2 ^ 64
  sessionSalt : ss.sessionSalt.length = 16
  nonce : ss.nonce < 2 ^ 64
  streamBaseOffset : ss.streamBaseOffset < 2 ^ 64
  fileTotalBytes : ss.fileTotalBytes < 2 ^ 64
  fileId : ss.fileId < 2 ^ 64
  token : ss.token < 2 ^ 64
  ext : ss.ext.length ≤ kMaxExtensionBytes
  acceptable : extensionsAcceptable ss.ext = true

theorem length_streamStartBytes (fits : ss.Fits) :
    (streamStartBytes ss).length = 80 + ss.ext.length := by
  simp [streamStartBytes, fits.sessionSalt]
  omega

theorem checkOuter_streamStart : checkOuter .streamStart (streamStartBytes ss ++ rest) = true := by
  simp only [streamStartBytes, List.append_assoc]
  exact checkOuter_putOuter .streamStart rfl _

theorem encodeStreamStart_eq_some {ss : StreamStart} {outCap : Nat}
    (encoded : encodeStreamStart ss outCap = some bytes) : bytes = streamStartBytes ss := by
  unfold encodeStreamStart at encoded
  split at encoded
  · cases encoded
  · exact emit_eq_some encoded

theorem decodeStreamStart_encode (fits : ss.Fits) (rest : List UInt8) :
    decodeStreamStart (streamStartBytes ss ++ rest) = some ss := by
  have hlen := length_streamStartBytes ss fits
  have hextLen : ss.ext.length < 2 ^ 16 := Nat.lt_of_le_of_lt fits.ext (by decide)
  have hnumber : getAt 2 78 (streamStartBytes ss ++ rest) = ss.ext.length := by
    simp only [streamStartBytes, List.append_assoc, getAt_append, length_putOuter, length_put,
      fits.sessionSalt, Nat.reduceLeDiff, Nat.reduceSub]
    exact getAt_put _ hextLen
  have hext : ((streamStartBytes ss ++ rest).drop 80).take ss.ext.length = ss.ext := by
    have hsplit : streamStartBytes ss ++ rest =
        (putOuter .streamStart ++ put 2 ss.streamId ++ put 8 ss.totalBlocks ++
          put 2 ss.blockSize ++ put 8 ss.totalBytes ++ ss.sessionSalt ++ put 8 ss.nonce ++
          put 8 ss.streamBaseOffset ++ put 8 ss.fileTotalBytes ++ put 8 ss.fileId ++
          put 8 ss.token ++ put 2 ss.ext.length) ++ (ss.ext ++ rest) := by
      rw [streamStartBytes, List.append_assoc]
    rw [hsplit, List.drop_left' (by simp [fits.sessionSalt]), List.take_left']
    rfl
  have hsalt : ((streamStartBytes ss ++ rest).drop 22).take 16 = ss.sessionSalt := by
    have hsplit : streamStartBytes ss ++ rest =
        (putOuter .streamStart ++ put 2 ss.streamId ++ put 8 ss.totalBlocks ++
          put 2 ss.blockSize ++ put 8 ss.totalBytes) ++ (ss.sessionSalt ++ (put 8 ss.nonce ++
          (put 8 ss.streamBaseOffset ++ (put 8 ss.fileTotalBytes ++ (put 8 ss.fileId ++
          (put 8 ss.token ++ (put 2 ss.ext.length ++ (ss.ext ++ rest)))))))) := by
      simp only [streamStartBytes, List.append_assoc]
    rw [hsplit, List.drop_left' (by simp), List.take_left' fits.sessionSalt]
  unfold decodeStreamStart
  rw [if_neg (decodable (checkOuter_streamStart ss rest)
    (by rw [List.length_append]; simp [kStreamStartFixed, kOuterHeaderSize]; omega))]
  simp only [hnumber, hext, hsalt]
  rw [if_neg]
  · simp only [streamStartBytes, List.append_assoc, getAt_append, length_putOuter, length_put,
      fits.sessionSalt, Nat.reduceLeDiff, Nat.reduceSub]
    rw [getAt_put _ fits.streamId, getAt_put _ fits.totalBlocks, getAt_put _ fits.blockSize,
      getAt_put _ fits.totalBytes, getAt_put _ fits.nonce, getAt_put _ fits.streamBaseOffset,
      getAt_put _ fits.fileTotalBytes, getAt_put _ fits.fileId, getAt_put _ fits.token]
  · rintro (hlong | hshort | hrefused)
    · exact absurd fits.ext (Nat.not_le.mpr hlong)
    · rw [List.length_append] at hshort
      omega
    · rw [fits.acceptable] at hrefused
      cases hrefused

@[simp]
theorem length_streamCloseBytes : (streamCloseBytes sc).length = 13 := by
  simp [streamCloseBytes]

theorem checkOuter_streamClose (rest : List UInt8) :
    checkOuter .streamClose (streamCloseBytes sc ++ rest) = true := by
  exact checkOuter_putOuter .streamClose rfl _

theorem decodeStreamClose_encode (hstream : sc.streamId < 2 ^ 16)
    (hnonce : sc.nonce < 2 ^ 64) (rest : List UInt8) :
    decodeStreamClose (streamCloseBytes sc ++ rest) = some sc := by
  unfold decodeStreamClose
  rw [if_neg (decodable (checkOuter_streamClose sc rest) (by simp [kOuterHeaderSize]))]
  simp only [streamCloseBytes, List.append_assoc, getAt_append, length_putOuter, length_put, Nat.reduceLeDiff, Nat.reduceSub]
  rw [getAt_put _ hstream, getAt_put _ hnonce, getAt_put _ sc.reason.toNat_lt, UInt8.ofNat_toNat]

@[simp]
theorem length_retryBytes (r : Retry) : (retryBytes r).length = 20 := by
  simp [retryBytes]

theorem checkOuter_retry (r : Retry) (rest : List UInt8) :
    checkOuter .retry (retryBytes r ++ rest) = true := by
  exact checkOuter_putOuter .retry rfl _

theorem decodeRetry_encode (r : Retry) (hstream : r.streamId < 2 ^ 16) (hnonce : r.nonce < 2 ^ 64)
    (htoken : r.token < 2 ^ 64) (rest : List UInt8) :
    decodeRetry (retryBytes r ++ rest) = some r := by
  unfold decodeRetry
  rw [if_neg (decodable (checkOuter_retry r rest) (by simp [kOuterHeaderSize]))]
  simp only [retryBytes, List.append_assoc, getAt_append, length_putOuter, length_put, Nat.reduceLeDiff, Nat.reduceSub]
  rw [getAt_put _ hstream, getAt_put _ hnonce, getAt_put _ htoken]

@[simp]
theorem length_pathProbeBytes (type : MsgType) (pp : PathProbe) :
    (pathProbeBytes type pp).length = 20 := by
  simp [pathProbeBytes]

theorem decodePathProbe_encode (type : MsgType) (known : MsgType.ofCode type.code = type)
    (pp : PathProbe) (hstream : pp.streamId < 2 ^ 16) (hnonce : pp.nonce < 2 ^ 64)
    (hchallenge : pp.challenge < 2 ^ 64) (rest : List UInt8) :
    decodePathProbe type (pathProbeBytes type pp ++ rest) = some pp := by
  have houter : checkOuter type (pathProbeBytes type pp ++ rest) = true := by
    exact checkOuter_putOuter type known _
  unfold decodePathProbe
  rw [if_neg (decodable houter (by simp [kOuterHeaderSize]))]
  simp only [pathProbeBytes, List.append_assoc, getAt_append, length_putOuter, length_put, Nat.reduceLeDiff, Nat.reduceSub]
  rw [getAt_put _ hstream, getAt_put _ hnonce, getAt_put _ hchallenge]

theorem length_digestBytes (hdigest : dm.digest.length = kDigestLen) :
    (digestBytes dm).length = 44 := by
  simp [digestBytes, hdigest, kDigestLen]

theorem checkOuter_digest : checkOuter .fileDigest (digestBytes dm ++ rest) = true := by
  exact checkOuter_putOuter .fileDigest rfl _

theorem decodeDigest_encode (hstream : dm.streamId < 2 ^ 16)
    (hnonce : dm.nonce < 2 ^ 64) (hdigest : dm.digest.length = kDigestLen) (rest : List UInt8) :
    decodeDigest (digestBytes dm ++ rest) = some dm := by
  have hlen := length_digestBytes dm hdigest
  have hbytes : ((digestBytes dm ++ rest).drop 12).take kDigestLen = dm.digest := by
    rw [digestBytes, List.append_assoc, List.drop_left' (by simp), List.take_left' hdigest]
  unfold decodeDigest
  rw [if_neg (decodable (checkOuter_digest dm rest)
    (by rw [List.length_append, hlen]; simp [kOuterHeaderSize, kDigestLen])), hbytes]
  simp only [digestBytes, List.append_assoc, getAt_append, length_putOuter, length_put,
    Nat.le_refl, Nat.reduceLeDiff]
  rw [getAt_put _ hstream, getAt_put _ hnonce]

/-- The fields of a range list part are within their wire fields. -/
structure ResumeRanges.Fits (rr : ResumeRanges) : Prop where
  streamId : rr.streamId < 2 ^ 16
  nonce : rr.nonce < 2 ^ 64
  parts : rr.parts < 2 ^ 16
  part : rr.part < rr.parts
  count : rr.ranges.length ≤ kMaxResumeRangesPerMsg
  ranges : ∀ r ∈ rr.ranges, r.offset < 2 ^ 64 ∧ r.length < 2 ^ 64

@[simp]
theorem length_rangeFields (ranges : List ResumeRange) :
    (rangeFields ranges).length = 2 * ranges.length := by
  induction ranges with
  | nil => rfl
  | cons r rest ih =>
    change (r.offset :: r.length :: rangeFields rest).length = 2 * (rest.length + 1)
    rw [List.length_cons, List.length_cons]
    omega

theorem getElem?_rangeFields (ranges : List ResumeRange) (i : Nat) :
    (rangeFields ranges)[2 * i]? = ranges[i]?.map ResumeRange.offset ∧
      (rangeFields ranges)[2 * i + 1]? = ranges[i]?.map ResumeRange.length := by
  induction ranges generalizing i with
  | nil => exact ⟨rfl, rfl⟩
  | cons r rest ih =>
    cases i with
    | zero => exact ⟨rfl, rfl⟩
    | succ i => exact ih i

theorem rangeFields_fit {ranges : List ResumeRange}
    (fits : ∀ r ∈ ranges, r.offset < 2 ^ 64 ∧ r.length < 2 ^ 64) :
    ∀ value ∈ rangeFields ranges, value < 256 ^ 8 := by
  intro value member
  obtain ⟨r, hr, hvalue⟩ := List.mem_flatMap.mp member
  rcases List.mem_cons.mp hvalue with rfl | hrest
  · exact (fits r hr).1
  · rw [List.mem_singleton.mp hrest]
    exact (fits r hr).2

@[simp]
theorem length_resumeRangesBytes : (resumeRangesBytes rr).length = 19 + rr.ranges.length * 16 := by
  simp [resumeRangesBytes]
  omega

theorem checkOuter_resumeRanges :
    checkOuter .resumeRanges (resumeRangesBytes rr ++ rest) = true := by
  simp only [resumeRangesBytes, List.append_assoc]
  exact checkOuter_putOuter .resumeRanges rfl _

theorem getAt_resumeRangesBytes (fits : rr.Fits) (rest : List UInt8)
    (j : Nat) (inside : j < (rangeFields rr.ranges).length) :
    getAt 8 (19 + 8 * j) (resumeRangesBytes rr ++ rest) = (rangeFields rr.ranges)[j] := by
  have hsplit : resumeRangesBytes rr ++ rest =
      (putOuter .resumeRanges ++ put 2 rr.streamId ++ put 8 rr.nonce ++ put 1 rr.flags.toNat ++
        put 2 rr.part ++ put 2 rr.parts ++ put 2 rr.ranges.length) ++
        (putAll 8 (rangeFields rr.ranges) ++ rest) := by
    rw [resumeRangesBytes, List.append_assoc]
  have hbehind : (putOuter .resumeRanges ++ put 2 rr.streamId ++ put 8 rr.nonce ++
      put 1 rr.flags.toNat ++ put 2 rr.part ++ put 2 rr.parts ++ put 2 rr.ranges.length).length =
        19 := by
    simp
  rw [hsplit, getAt_append _ _ (by rw [hbehind]; omega), hbehind, Nat.add_sub_cancel_left,
    getAt_putAll _ _ (rangeFields_fit fits.ranges) j inside]

theorem decodeResumeRanges_encode (fits : rr.Fits) (rest : List UInt8) :
    decodeResumeRanges (resumeRangesBytes rr ++ rest) = some rr := by
  have hcount : rr.ranges.length < 2 ^ 16 := Nat.lt_of_le_of_lt fits.count (by decide)
  have hpart : rr.part < 2 ^ 16 := Nat.lt_trans fits.part fits.parts
  have hnumber : getAt 2 17 (resumeRangesBytes rr ++ rest) = rr.ranges.length := by
    simp only [resumeRangesBytes, List.append_assoc]
    exact getAt_put _ hcount
  have hpartField : getAt 2 13 (resumeRangesBytes rr ++ rest) = rr.part := by
    simp only [resumeRangesBytes, List.append_assoc]
    exact getAt_put _ hpart
  have hpartsField : getAt 2 15 (resumeRangesBytes rr ++ rest) = rr.parts := by
    simp only [resumeRangesBytes, List.append_assoc]
    exact getAt_put _ fits.parts
  have hranges : (List.range rr.ranges.length).map (fun i =>
      ({ offset := getAt 8 (19 + 16 * i) (resumeRangesBytes rr ++ rest)
         length := getAt 8 (27 + 16 * i) (resumeRangesBytes rr ++ rest) } : ResumeRange)) =
        rr.ranges := by
    apply List.ext_getElem
    · simp
    · intro i hi hi'
      obtain ⟨hfirst, hsecond⟩ := getElem?_rangeFields rr.ranges i
      have hlen := length_rangeFields rr.ranges
      rw [List.getElem?_eq_getElem (by omega), List.getElem?_eq_getElem hi'] at hfirst hsecond
      have hoffset := getAt_resumeRangesBytes rr fits rest (2 * i) (by omega)
      have hlength := getAt_resumeRangesBytes rr fits rest (2 * i + 1) (by omega)
      rw [Option.some.inj hfirst, show 19 + 8 * (2 * i) = 19 + 16 * i by omega] at hoffset
      rw [Option.some.inj hsecond, show 19 + 8 * (2 * i + 1) = 27 + 16 * i by omega] at hlength
      simp only [List.getElem_map, List.getElem_range, hoffset, hlength]
  unfold decodeResumeRanges
  rw [if_neg (decodable (checkOuter_resumeRanges rr rest)
    (by simp [kResumeRangesFixed, kOuterHeaderSize]; omega))]
  simp only [hnumber, hranges, hpartField, hpartsField]
  rw [if_neg]
  · simp only [resumeRangesBytes, List.append_assoc, getAt_append, length_putOuter, length_put, Nat.reduceLeDiff, Nat.reduceSub]
    rw [getAt_put _ fits.streamId, getAt_put _ fits.nonce, getAt_put _ rr.flags.toNat_lt,
      UInt8.ofNat_toNat]
  · rintro (hlong | hzero | hpast | hshort)
    · exact absurd fits.count (Nat.not_le.mpr hlong)
    · exact absurd fits.part (by omega)
    · exact absurd fits.part (by omega)
    · simp [kResumeRangesFixed, kOuterHeaderSize] at hshort

end FuseTransport.Proto
