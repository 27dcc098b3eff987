import FuseTransport.Proto.RoundTrip
import FuseTransport.Proto.Setup

/-!
# SETUP messages

The wire form of the handshake.  Unlike the control messages a SETUP message takes up
its whole datagram, so what was received is exactly what would be sent for the same
payload.
-/

namespace FuseTransport.Proto

open Foundation Foundation.BigEndian

def streamConfigBytes (s : StreamConfig) : List UInt8 :=
  put 2 s.streamId ++ put 2 s.workerId ++ put 1 s.streamFlags.toNat ++ put 2 s.blockSize ++
    put 2 s.windowSize

/-- Everything behind the outer header; this is what both ends hash. -/
def setupBody (p : SetupPayload) : List UInt8 :=
  put 1 p.protocolVersion.toNat ++ put 2 p.numWorkers ++ put 2 p.streams.length ++
    p.streams.flatMap streamConfigBytes ++ put 2 p.ext.length ++ p.ext

def serializeSetupPayload (p : SetupPayload) (outCap : Nat) : Option (List UInt8) :=
  if p.streams.length > kMaxStreams ∨ p.ext.length > kMaxExtensionBytes then none
  else emit outCap (setupBody p)

def encodeSetupData (p : SetupPayload) (outCap : Nat) : Option (List UInt8) :=
  if outCap < kOuterHeaderSize then none
  else (serializeSetupPayload p (outCap - kOuterHeaderSize)).map fun body =>
    putOuter .setupData ++ body

def setupHashBytes (type : MsgType) (hash responderNonce : Nat) : List UInt8 :=
  putOuter type ++ put 8 hash ++ put 8 responderNonce

def encodeSetupHash (type : MsgType) (hash responderNonce outCap : Nat) : Option (List UInt8) :=
  if type ≠ .setupHashReply ∧ type ≠ .setupFinAck then none
  else emit outCap (setupHashBytes type hash responderNonce)

def readStreamConfig (bytes : List UInt8) : StreamConfig where
  streamId := getAt 2 0 bytes
  workerId := getAt 2 2 bytes
  streamFlags := UInt8.ofNat (getAt 1 4 bytes)
  blockSize := getAt 2 5 bytes
  windowSize := getAt 2 7 bytes

def decodeSetupData (bytes : List UInt8) : Option (SetupPayload × List UInt8) :=
  if checkOuter .setupData bytes = false ∨ bytes.length < kOuterHeaderSize + 1 + 2 + 2 then none
  else
    let body := bytes.drop kOuterHeaderSize
    let numStreams := getAt 2 3 body
    let fixed := 1 + 2 + 2 + numStreams * 9
    if numStreams > kMaxStreams then none
    else if body.length < fixed + 2 then none
    else
      let extLen := getAt 2 fixed body
      let ext := (body.drop (fixed + 2)).take extLen
      if extLen > kMaxExtensionBytes ∨ body.length ≠ fixed + 2 + extLen ∨
          extensionsAcceptable ext = false then none
      else some
        ({ protocolVersion := UInt8.ofNat (getAt 1 0 body)
           numWorkers := getAt 2 1 body
           streams := (List.range numStreams).map fun i => readStreamConfig (body.drop (5 + 9 * i))
           ext := ext }, body)

def decodeSetupHash (expected : MsgType) (bytes : List UInt8) : Option (Nat × Nat) :=
  if bytes.length ≠ kOuterHeaderSize + 8 + 8 then none
  else if checkOuter expected bytes = false then none
  else some (getAt 8 2 bytes, getAt 8 10 bytes)

/-! ## What was encoded is decoded -/

/-- The numbers of a stream are within their wire fields. -/
structure StreamConfig.Fits (s : StreamConfig) : Prop where
  streamId : s.streamId < 2 ^ 16
  workerId : s.workerId < 2 ^ 16
  blockSize : s.blockSize < 2 ^ 16
  windowSize : s.windowSize < 2 ^ 16

/-- A payload the encoder takes, with an acceptable extension area. -/
structure SetupPayload.Fits (p : SetupPayload) : Prop where
  numWorkers : p.numWorkers < 2 ^ 16
  count : p.streams.length ≤ kMaxStreams
  streams : ∀ s ∈ p.streams, s.Fits
  ext : p.ext.length ≤ kMaxExtensionBytes
  acceptable : extensionsAcceptable p.ext = true

@[simp]
theorem length_streamConfigBytes (s : StreamConfig) : (streamConfigBytes s).length = 9 := by
  simp [streamConfigBytes]

variable (p : SetupPayload)

@[simp]
theorem length_setupBody : (setupBody p).length = 7 + 9 * p.streams.length + p.ext.length := by
  simp only [setupBody, List.length_append, length_put, length_records length_streamConfigBytes]
  omega

@[simp]
theorem length_setupHashBytes (type : MsgType) (hash responderNonce : Nat) :
    (setupHashBytes type hash responderNonce).length = 18 := by
  simp [setupHashBytes]

theorem readStreamConfig_encode (s : StreamConfig) (fits : s.Fits) (rest : List UInt8) :
    readStreamConfig (streamConfigBytes s ++ rest) = s := by
  unfold readStreamConfig streamConfigBytes
  simp only [List.append_assoc, getAt_append, length_put, Nat.reduceLeDiff,
    Nat.reduceSub]
  rw [getAt_put _ fits.streamId, getAt_put _ fits.workerId, getAt_put _ s.streamFlags.toNat_lt,
    getAt_put _ fits.blockSize, getAt_put _ fits.windowSize, UInt8.ofNat_toNat]

/-- The streams, read one by one out of a payload's bytes. -/
theorem streams_setupBody (fits : p.Fits) : (List.range p.streams.length).map
      (fun i => readStreamConfig ((setupBody p).drop (5 + 9 * i))) = p.streams := by
  have hsplit : setupBody p = (put 1 p.protocolVersion.toNat ++ put 2 p.numWorkers ++
      put 2 p.streams.length) ++ (p.streams.flatMap streamConfigBytes ++
        (put 2 p.ext.length ++ p.ext)) := by
    simp only [setupBody, List.append_assoc]
  apply List.ext_getElem
  · simp
  · intro i hi hi'
    obtain ⟨behind, hbehind⟩ :=
      drop_records length_streamConfigBytes p.streams (put 2 p.ext.length ++ p.ext) hi'
    simp only [List.getElem_map, List.getElem_range]
    rw [hsplit, ← List.drop_drop, List.drop_left' (by simp), hbehind]
    exact readStreamConfig_encode _ (fits.streams _ (List.getElem_mem hi')) behind

def setupFront (p : SetupPayload) : List UInt8 :=
  put 1 p.protocolVersion.toNat ++ put 2 p.numWorkers ++ put 2 p.streams.length ++
    p.streams.flatMap streamConfigBytes

@[simp]
theorem length_setupFront : (setupFront p).length = 1 + 2 + 2 + p.streams.length * 9 := by
  simp only [setupFront, List.length_append, length_put, length_records length_streamConfigBytes]
  omega

theorem getAt_streamCount (fits : p.Fits) (rest : List UInt8) :
    getAt 2 3 (setupBody p ++ rest) = p.streams.length := by
  have hcount : p.streams.length < 2 ^ 16 := Nat.lt_of_le_of_lt fits.count (by decide)
  simp only [setupBody, List.append_assoc]
  exact getAt_put _ hcount

theorem getAt_extLen (fits : p.Fits) (rest : List UInt8) :
    getAt 2 (1 + 2 + 2 + p.streams.length * 9) (setupBody p ++ rest) = p.ext.length := by
  have hextLen : p.ext.length < 2 ^ 16 := Nat.lt_of_le_of_lt fits.ext (by decide)
  have hsplit : setupBody p ++ rest = setupFront p ++ (put 2 p.ext.length ++ (p.ext ++ rest)) := by
    simp only [setupBody, setupFront, List.append_assoc]
  rw [hsplit, getAt_append _ _ (Nat.le_of_eq (length_setupFront p)), length_setupFront, Nat.sub_self]
  exact getAt_put _ hextLen

/-- No payload's bytes are the front of another's. -/
theorem setupBody_longer {p p' : SetupPayload} (fits : p.Fits) (fits' : p'.Fits) {rest : List UInt8}
    (longer : setupBody p' = setupBody p ++ rest) : rest = [] := by
  have hcount : p'.streams.length = p.streams.length := by
    rw [← getAt_streamCount p fits rest, ← longer, ← getAt_streamCount p' fits' [], List.append_nil]
  have hext : p'.ext.length = p.ext.length := by
    rw [← getAt_extLen p fits rest, ← longer, ← getAt_extLen p' fits' [], List.append_nil, hcount]
  have hlength := congrArg List.length longer
  rw [List.length_append, length_setupBody, length_setupBody] at hlength
  exact List.length_eq_zero_iff.mp (by omega)

theorem decodeSetupData_encode (fits : p.Fits) :
    decodeSetupData (putOuter .setupData ++ setupBody p) = some (p, setupBody p) := by
  have hbody : (putOuter .setupData ++ setupBody p).drop kOuterHeaderSize = setupBody p :=
    List.drop_left' (by simp [kOuterHeaderSize])
  have hnumber := getAt_streamCount p fits []
  have hversion : getAt 1 0 (setupBody p) = p.protocolVersion.toNat := by
    exact getAt_put _ p.protocolVersion.toNat_lt
  have hworkers : getAt 2 1 (setupBody p) = p.numWorkers := by
    exact getAt_put _ fits.numWorkers
  have hextNumber := getAt_extLen p fits []
  rw [List.append_nil] at hnumber hextNumber
  have hext : ((setupBody p).drop (1 + 2 + 2 + p.streams.length * 9 + 2)).take p.ext.length =
      p.ext := by
    have hsplit : setupBody p = (setupFront p ++ put 2 p.ext.length) ++ p.ext := rfl
    rw [hsplit, List.drop_left' (by rw [List.length_append, length_setupFront, length_put]),
      List.take_length]
  unfold decodeSetupData
  rw [if_neg (decodable (checkOuter_putOuter .setupData rfl _) (by
    rw [List.length_append, length_setupBody, kOuterHeaderSize]
    omega))]
  simp only [hbody, hnumber, hversion, hworkers, hextNumber, hext, streams_setupBody p fits]
  rw [if_neg (Nat.not_lt.mpr fits.count), if_neg (by rw [length_setupBody]; omega), if_neg,
    UInt8.ofNat_toNat]
  rintro (hlong | hlength | hrefused)
  · exact absurd fits.ext (Nat.not_le.mpr hlong)
  · rw [length_setupBody] at hlength
    omega
  · rw [fits.acceptable] at hrefused
    cases hrefused

theorem decodeSetupHash_encode (type : MsgType) (known : MsgType.ofCode type.code = type)
    {hash responderNonce : Nat} (hhash : hash < 2 ^ 64) (hnonce : responderNonce < 2 ^ 64) :
    decodeSetupHash type (setupHashBytes type hash responderNonce) = some (hash, responderNonce) := by
  have houter : checkOuter type (setupHashBytes type hash responderNonce) = true := by
    exact checkOuter_putOuter type known _
  have hfirst : getAt 8 2 (setupHashBytes type hash responderNonce) = hash := by
    exact getAt_put _ hhash
  have hsecond : getAt 8 10 (setupHashBytes type hash responderNonce) = responderNonce := by
    exact getAt_put _ hnonce
  unfold decodeSetupHash
  rw [if_neg (by simp [kOuterHeaderSize]), if_neg (by simp [houter]), hfirst, hsecond]

end FuseTransport.Proto
