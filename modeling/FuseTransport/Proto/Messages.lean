import FuseTransport.Proto.Reencode

/-!
# The wire format

Every message the two ends exchange in one type, with its encoder and its decoder.
-/

namespace FuseTransport.Proto

open Foundation

inductive Message where
  | data (dg : DataDatagram)
  | heartbeat (hb : Heartbeat)
  | streamStart (ss : StreamStart)
  | ack (a : Ack)
  | nack (n : Nack)
  | streamClose (sc : StreamClose)
  | resumeRanges (rr : ResumeRanges)
  | fileDigest (dm : DigestMessage)
  | retry (r : Retry)
  | pathChallenge (pp : PathProbe)
  | pathResponse (pp : PathProbe)
  | setupData (p : SetupPayload)
  | setupHashReply (hash responderNonce : Nat)
  | setupFinAck (hash responderNonce : Nat)

variable {rest : List UInt8} {message : Message}

namespace Message

def type : Message → MsgType
  | data _ => .data
  | heartbeat _ => .heartbeat
  | streamStart _ => .streamStart
  | ack _ => .ack
  | nack _ => .nack
  | streamClose _ => .streamClose
  | resumeRanges _ => .resumeRanges
  | fileDigest _ => .fileDigest
  | retry _ => .retry
  | pathChallenge _ => .pathChallenge
  | pathResponse _ => .pathResponse
  | setupData _ => .setupData
  | setupHashReply _ _ => .setupHashReply
  | setupFinAck _ _ => .setupFinAck

/-- The encoder of each message, given the size of the buffer. -/
def encode (outCap : Nat) : Message → Option (List UInt8)
  | data dg => encodeDataDatagram dg.hdr dg.sendTimeNs dg.payload outCap
  | heartbeat hb => encodeHeartbeat hb outCap
  | streamStart ss => encodeStreamStart ss outCap
  | ack a => encodeAck a outCap
  | nack n => encodeNack n outCap
  | streamClose sc => encodeStreamClose sc outCap
  | resumeRanges rr => encodeResumeRanges rr outCap
  | fileDigest dm => encodeDigest dm outCap
  | retry r => encodeRetry r outCap
  | pathChallenge pp => encodePathProbe .pathChallenge pp outCap
  | pathResponse pp => encodePathProbe .pathResponse pp outCap
  | setupData p => encodeSetupData p outCap
  | setupHashReply hash responderNonce => encodeSetupHash .setupHashReply hash responderNonce outCap
  | setupFinAck hash responderNonce => encodeSetupHash .setupFinAck hash responderNonce outCap

/-- The decoder of a message type; the other types have no body of their own here. -/
def decodeAs (type : MsgType) (bytes : List UInt8) : Option Message :=
  match type with
  | .data => (decodeDataDatagram bytes).map data
  | .heartbeat => (decodeHeartbeat bytes).map heartbeat
  | .streamStart => (decodeStreamStart bytes).map streamStart
  | .ack => (decodeAck bytes).map ack
  | .nack => (decodeNack bytes).map nack
  | .streamClose => (decodeStreamClose bytes).map streamClose
  | .resumeRanges => (decodeResumeRanges bytes).map resumeRanges
  | .fileDigest => (decodeDigest bytes).map fileDigest
  | .retry => (decodeRetry bytes).map retry
  | .pathChallenge => (decodePathProbe .pathChallenge bytes).map pathChallenge
  | .pathResponse => (decodePathProbe .pathResponse bytes).map pathResponse
  | .setupData => (decodeSetupData bytes).map fun decoded => setupData decoded.1
  | .setupHashReply => (decodeSetupHash .setupHashReply bytes).map fun decoded =>
    setupHashReply decoded.1 decoded.2
  | .setupFinAck => (decodeSetupHash .setupFinAck bytes).map fun decoded =>
    setupFinAck decoded.1 decoded.2
  | _ => none

/-- The SETUP messages take up their whole datagram. -/
def exact : MsgType → Bool
  | .setupData | .setupHashReply | .setupFinAck => true
  | _ => false

/-- The encoder's limits: every number is within its field, every list within its cap, and
an extension area is acceptable. -/
def Fits : Message → Prop
  | data dg => dg.hdr.Fits ∧ dg.sendTimeNs < 2 ^ 64 ∧ dg.payload.length = dg.hdr.payloadLen
  | heartbeat hb => hb.streamId < 2 ^ 16 ∧ hb.highestSeqNo < 2 ^ 64
  | streamStart ss => ss.Fits
  | ack a => a.Fits
  | nack n => n.Fits
  | streamClose sc => sc.streamId < 2 ^ 16 ∧ sc.nonce < 2 ^ 64
  | resumeRanges rr => rr.Fits
  | fileDigest dm => dm.streamId < 2 ^ 16 ∧ dm.nonce < 2 ^ 64 ∧ dm.digest.length = kDigestLen
  | retry r => r.streamId < 2 ^ 16 ∧ r.nonce < 2 ^ 64 ∧ r.token < 2 ^ 64
  | pathChallenge pp => pp.streamId < 2 ^ 16 ∧ pp.nonce < 2 ^ 64 ∧ pp.challenge < 2 ^ 64
  | pathResponse pp => pp.streamId < 2 ^ 16 ∧ pp.nonce < 2 ^ 64 ∧ pp.challenge < 2 ^ 64
  | setupData p => p.Fits
  | setupHashReply hash responderNonce => hash < 2 ^ 64 ∧ responderNonce < 2 ^ 64
  | setupFinAck hash responderNonce => hash < 2 ^ 64 ∧ responderNonce < 2 ^ 64

/-- The bytes of a message. -/
def bytes : Message → List UInt8
  | data dg => dataPrefix dg.hdr dg.sendTimeNs ++ dg.payload
  | heartbeat hb => heartbeatBytes hb
  | streamStart ss => streamStartBytes ss
  | ack a => ackBytes a
  | nack n => nackBytes n
  | streamClose sc => streamCloseBytes sc
  | resumeRanges rr => resumeRangesBytes rr
  | fileDigest dm => digestBytes dm
  | retry r => retryBytes r
  | pathChallenge pp => pathProbeBytes .pathChallenge pp
  | pathResponse pp => pathProbeBytes .pathResponse pp
  | setupData p => putOuter .setupData ++ setupBody p
  | setupHashReply hash responderNonce => setupHashBytes .setupHashReply hash responderNonce
  | setupFinAck hash responderNonce => setupHashBytes .setupFinAck hash responderNonce

theorem emit_of_le {outCap : Nat} {out : List UInt8} (room : out.length ≤ outCap) :
    emit outCap out = some out :=
  if_neg (Nat.not_lt.mpr room)

/-- Within its limits the encoder needs no more than room for the bytes. -/
theorem encode_eq (fits : message.Fits) {outCap : Nat} (room : message.bytes.length ≤ outCap) :
    message.encode outCap = some message.bytes := by
  cases message with
  | data dg =>
    obtain ⟨hhdr, _, hlength⟩ := fits
    change (dataPrefix dg.hdr dg.sendTimeNs ++ dg.payload).length ≤ outCap at room
    rw [List.length_append, length_dataPrefix, hlength] at room
    change encodeDataDatagram _ _ _ _ = _
    rw [encodeDataDatagram, if_neg (Nat.not_lt.mpr hhdr.payloadLen), if_neg]
    · rfl
    · exact Nat.not_lt.mpr room
  | heartbeat => exact emit_of_le room
  | streamStart ss =>
    change encodeStreamStart ss outCap = _
    rw [encodeStreamStart, if_neg (Nat.not_lt.mpr fits.ext)]
    exact emit_of_le room
  | ack => exact emit_of_le room
  | nack n =>
    change encodeNack n outCap = _
    rw [encodeNack, if_neg (Nat.not_lt.mpr fits.count)]
    exact emit_of_le room
  | streamClose => exact emit_of_le room
  | resumeRanges rr =>
    change encodeResumeRanges rr outCap = _
    rw [encodeResumeRanges, if_neg]
    · exact emit_of_le room
    · rintro (hlong | hzero | hpast)
      · exact absurd fits.count (Nat.not_le.mpr hlong)
      · exact absurd (hzero ▸ fits.part) (Nat.not_lt_zero _)
      · exact absurd fits.part (Nat.not_lt.mpr hpast)
  | fileDigest | retry | pathChallenge | pathResponse => exact emit_of_le room
  | setupData p =>
    change (putOuter .setupData ++ setupBody p).length ≤ outCap at room
    rw [List.length_append, length_putOuter] at room
    change encodeSetupData p outCap = _
    have houter : ¬ outCap < kOuterHeaderSize := by
      rw [kOuterHeaderSize]
      omega
    have hlimits : ¬ (p.streams.length > kMaxStreams ∨ p.ext.length > kMaxExtensionBytes) := by
      rintro (hlong | hlong)
      · exact absurd fits.count (Nat.not_le.mpr hlong)
      · exact absurd fits.ext (Nat.not_le.mpr hlong)
    rw [encodeSetupData, if_neg houter, serializeSetupPayload, if_neg hlimits, emit_of_le]
    · rfl
    · rw [kOuterHeaderSize]
      omega
  | setupHashReply | setupFinAck => exact emit_of_le room

theorem decodeAs_bytes (fits : message.Fits) (whole : exact message.type = true → rest = []) :
    decodeAs message.type (message.bytes ++ rest) = some message := by
  cases message with
  | data dg =>
    obtain ⟨hhdr, htime, hlength⟩ := fits
    rw [type, bytes, decodeAs, decodeDataDatagram_encode dg.hdr hhdr htime hlength rest]
    rfl
  | heartbeat hb =>
    rw [type, bytes, decodeAs, decodeHeartbeat_encode hb fits.1 fits.2 rest]
    rfl
  | streamStart ss =>
    rw [type, bytes, decodeAs, decodeStreamStart_encode ss fits rest]
    rfl
  | ack a =>
    rw [type, bytes, decodeAs, decodeAck_encode a fits rest]
    rfl
  | nack n =>
    rw [type, bytes, decodeAs, decodeNack_encode n fits rest]
    rfl
  | streamClose sc =>
    rw [type, bytes, decodeAs, decodeStreamClose_encode sc fits.1 fits.2 rest]
    rfl
  | resumeRanges rr =>
    rw [type, bytes, decodeAs, decodeResumeRanges_encode rr fits rest]
    rfl
  | fileDigest dm =>
    rw [type, bytes, decodeAs, decodeDigest_encode dm fits.1 fits.2.1 fits.2.2 rest]
    rfl
  | retry r =>
    rw [type, bytes, decodeAs, decodeRetry_encode r fits.1 fits.2.1 fits.2.2 rest]
    rfl
  | pathChallenge pp =>
    rw [type, bytes, decodeAs,
      decodePathProbe_encode .pathChallenge rfl pp fits.1 fits.2.1 fits.2.2 rest]
    rfl
  | pathResponse pp =>
    rw [type, bytes, decodeAs,
      decodePathProbe_encode .pathResponse rfl pp fits.1 fits.2.1 fits.2.2 rest]
    rfl
  | setupData p =>
    rw [whole rfl, List.append_nil, type, bytes, decodeAs, decodeSetupData_encode p fits]
    rfl
  | setupHashReply hash responderNonce =>
    rw [whole rfl, List.append_nil, type, bytes, decodeAs,
      decodeSetupHash_encode .setupHashReply rfl fits.1 fits.2]
    rfl
  | setupFinAck hash responderNonce =>
    rw [whole rfl, List.append_nil, type, bytes, decodeAs,
      decodeSetupHash_encode .setupFinAck rfl fits.1 fits.2]
    rfl

/-! ## Encoding what was decoded -/

theorem prefix_of_take {out received : List UInt8} {count : Nat} (front : out = received.take count) :
    out <+: received :=
  front ▸ List.take_prefix count received

/-- An accepted datagram: its type, the limits of what it holds, and its bytes. -/
theorem of_decodeAs {type : MsgType} {received : List UInt8}
    (decoded : decodeAs type received = some message) :
    peekMsgType received = some type ∧ message.type = type ∧ message.Fits ∧
      message.bytes <+: received ∧ (exact type = true → message.bytes = received) := by
  cases type with
  | data =>
    obtain ⟨dg, hdg, rfl⟩ := Option.map_eq_some_iff.mp decoded
    obtain ⟨htime, hbytes⟩ := decodeDataDatagram_reencode hdg
    exact ⟨peekMsgType_of_checkOuter (decodeDataDatagram_some hdg).1, rfl,
      ⟨decodeDataDatagram_fits hdg, htime, decodeDataDatagram_payload_length hdg⟩,
      prefix_of_take hbytes, nofun⟩
  | heartbeat =>
    obtain ⟨hb, hhb, rfl⟩ := Option.map_eq_some_iff.mp decoded
    obtain ⟨hpeek, hfits, hbytes⟩ := decodeHeartbeat_some hhb
    exact ⟨hpeek, rfl, hfits, prefix_of_take hbytes, nofun⟩
  | streamStart =>
    obtain ⟨ss, hss, rfl⟩ := Option.map_eq_some_iff.mp decoded
    obtain ⟨hpeek, hfits, hbytes⟩ := decodeStreamStart_some hss
    exact ⟨hpeek, rfl, hfits, prefix_of_take hbytes, nofun⟩
  | ack =>
    obtain ⟨a, ha, rfl⟩ := Option.map_eq_some_iff.mp decoded
    obtain ⟨hpeek, hfits, hbytes⟩ := decodeAck_some ha
    exact ⟨hpeek, rfl, hfits, prefix_of_take hbytes, nofun⟩
  | nack =>
    obtain ⟨n, hn, rfl⟩ := Option.map_eq_some_iff.mp decoded
    obtain ⟨hpeek, hfits, hbytes⟩ := decodeNack_some hn
    exact ⟨hpeek, rfl, hfits, prefix_of_take hbytes, nofun⟩
  | streamClose =>
    obtain ⟨sc, hsc, rfl⟩ := Option.map_eq_some_iff.mp decoded
    obtain ⟨hpeek, hfits, hbytes⟩ := decodeStreamClose_some hsc
    exact ⟨hpeek, rfl, hfits, prefix_of_take hbytes, nofun⟩
  | resumeRanges =>
    obtain ⟨rr, hrr, rfl⟩ := Option.map_eq_some_iff.mp decoded
    obtain ⟨hpeek, hfits, hbytes⟩ := decodeResumeRanges_some hrr
    exact ⟨hpeek, rfl, hfits, prefix_of_take hbytes, nofun⟩
  | fileDigest =>
    obtain ⟨dm, hdm, rfl⟩ := Option.map_eq_some_iff.mp decoded
    obtain ⟨hpeek, hfits, hbytes⟩ := decodeDigest_some hdm
    exact ⟨hpeek, rfl, hfits, prefix_of_take hbytes, nofun⟩
  | retry =>
    obtain ⟨r, hr, rfl⟩ := Option.map_eq_some_iff.mp decoded
    obtain ⟨hpeek, hfits, hbytes⟩ := decodeRetry_some hr
    exact ⟨hpeek, rfl, hfits, prefix_of_take hbytes, nofun⟩
  | pathChallenge | pathResponse =>
    obtain ⟨pp, hpp, rfl⟩ := Option.map_eq_some_iff.mp decoded
    obtain ⟨hpeek, hfits, hbytes⟩ := decodePathProbe_some hpp
    exact ⟨hpeek, rfl, hfits, prefix_of_take hbytes, nofun⟩
  | setupData =>
    obtain ⟨⟨p, body⟩, hp, rfl⟩ := Option.map_eq_some_iff.mp decoded
    obtain ⟨hpeek, hfits, hbody, hbytes⟩ := decodeSetupData_some hp
    rw [← hbody] at hbytes
    exact ⟨hpeek, rfl, hfits, ⟨[], (List.append_nil _).trans hbytes⟩, fun _ => hbytes⟩
  | setupHashReply | setupFinAck =>
    obtain ⟨⟨hash, responderNonce⟩, hh, rfl⟩ := Option.map_eq_some_iff.mp decoded
    obtain ⟨hpeek, hfits, hbytes⟩ := decodeSetupHash_some hh
    exact ⟨hpeek, rfl, hfits, ⟨[], (List.append_nil _).trans hbytes⟩, fun _ => hbytes⟩
  | hello | helloAck | close | other => cases decoded

theorem setupHashBytes_longer {type : MsgType} {hash nonce hash' nonce' : Nat}
    (longer : setupHashBytes type hash nonce = setupHashBytes type hash' nonce' ++ rest) :
    rest = [] := by
  have hlength := congrArg List.length longer
  rw [List.length_append, length_setupHashBytes, length_setupHashBytes] at hlength
  exact List.length_eq_zero_iff.mp (by omega)

/-- No SETUP message is the front of another one. -/
theorem longer_of_exact {other : Message} (fits : message.Fits) (fits' : other.Fits)
    (same : other.type = message.type) (whole : exact message.type = true)
    (longer : other.bytes = message.bytes ++ rest) : rest = [] := by
  cases message with
  | setupData p =>
    cases other with
    | setupData p' =>
      exact setupBody_longer fits fits' (List.append_cancel_left longer)
    | _ => cases same
  | setupHashReply hash responderNonce =>
    cases other with
    | setupHashReply hash' responderNonce' => exact setupHashBytes_longer longer
    | _ => cases same
  | setupFinAck hash responderNonce =>
    cases other with
    | setupFinAck hash' responderNonce' => exact setupHashBytes_longer longer
    | _ => cases same
  | _ => cases whole

/-- A SETUP message with something behind it is refused. -/
theorem decodeAs_longer (fits : message.Fits) (whole : exact message.type = true)
    (more : rest ≠ []) :
    decodeAs message.type (message.bytes ++ rest) = none := by
  cases hdecoded : decodeAs message.type (message.bytes ++ rest) with
  | none => rfl
  | some other =>
    obtain ⟨_, htype, hother, _, hbytes⟩ := of_decodeAs hdecoded
    refine absurd (longer_of_exact fits hother htype whole (hbytes whole)) more

end Message

/-- The wire format: what is encoded within the limits is decoded, whatever follows it
unless the message takes up its datagram; what is decoded is encoded to the front of what
was received; and a datagram is a message of one type only. -/
theorem wire_round_trip :
    (∀ (message : Message), message.Fits → ∀ outCap, message.bytes.length ≤ outCap →
      ∃ out, message.encode outCap = some out ∧ ∀ rest,
        Message.decodeAs message.type (out ++ rest) =
          if Message.exact message.type = true ∧ rest ≠ [] then none else some message) ∧
    (∀ type received (message : Message), Message.decodeAs type received = some message →
      message.type = type ∧ ∀ outCap, received.length ≤ outCap →
        ∃ out, message.encode outCap = some out ∧ out <+: received ∧
          (Message.exact type = true → out = received)) ∧
    ∀ type type' received, (Message.decodeAs type received).isSome = true →
      (Message.decodeAs type' received).isSome = true → type = type' := by
  refine ⟨?_, ?_, ?_⟩
  · intro message fits outCap room
    refine ⟨message.bytes, Message.encode_eq fits room, fun rest => ?_⟩
    split
    · rename_i hmore
      exact Message.decodeAs_longer fits hmore.1 hmore.2
    · rename_i hwhole
      refine Message.decodeAs_bytes fits fun exact => ?_
      exact Decidable.not_not.mp fun more => hwhole ⟨exact, more⟩
  · intro type received message decoded
    obtain ⟨_, htype, hfits, hfront, hwhole⟩ := Message.of_decodeAs decoded
    refine ⟨htype, fun outCap room => ⟨message.bytes, ?_, hfront, hwhole⟩⟩
    exact Message.encode_eq hfits (Nat.le_trans hfront.length_le room)
  · intro type type' received first second
    obtain ⟨message, hfirst⟩ := Option.isSome_iff_exists.mp first
    obtain ⟨message', hsecond⟩ := Option.isSome_iff_exists.mp second
    have hpeek := (Message.of_decodeAs hfirst).1
    rw [(Message.of_decodeAs hsecond).1] at hpeek
    exact (Option.some.inj hpeek).symm

theorem wire_round_trip_nack :
    (Message.nack ⟨7, [3, 5]⟩).Fits ∧ ∃ out, Message.encode 24 (.nack ⟨7, [3, 5]⟩) = some out ∧
      ∀ rest, Message.decodeAs .nack (out ++ rest) = some (.nack ⟨7, [3, 5]⟩) := by
  have hfits : (Message.nack ⟨7, [3, 5]⟩).Fits := ⟨by decide, by decide, by decide⟩
  obtain ⟨out, hencoded, hdecoded⟩ := wire_round_trip.1 _ hfits 24 (by decide)
  exact ⟨hfits, out, hencoded, hdecoded⟩

end FuseTransport.Proto
