import FuseTransport.Proto.Reencode

/-!
# The SETUP handshake

An initiator offers a configuration, a responder answers with the hash of what it got and
a nonce, and the initiator confirms both.  Each side repeats its message on silence.
-/

namespace FuseTransport.Proto

open Foundation

/-- FNV-1a. -/
def hash64 (data : List UInt8) : Nat :=
  data.foldl (fun h byte => u64 ((h ^^^ byte.toNat) * 1099511628211)) 1469598103934665603

theorem hash64_lt (data : List UInt8) : hash64 data < 2 ^ 64 := by
  have hfold : ∀ h < 2 ^ 64,
      data.foldl (fun h byte => u64 ((h ^^^ byte.toNat) * 1099511628211)) h < 2 ^ 64 := by
    induction data with
    | nil => exact fun h small => small
    | cons byte rest ih => exact fun h _ => ih _ (u64_lt _)
  exact hfold _ (by decide)

def kMaxSetupDatagramSize : Nat :=
  kOuterHeaderSize + 1 + 2 + 2 + kMaxStreams * 9 + 2 + kMaxExtensionBytes

/-- The bytes of a payload as its initiator hashes them; a payload that cannot be written
has none. -/
def serialized (p : SetupPayload) : List UInt8 :=
  (serializeSetupPayload p kMaxSetupDatagramSize).getD []

structure SetupInitiator where
  payload : SetupPayload
  myHash : Nat
  responderNonce : Nat := 0
  timeoutNs : Nat
  maxRetries : Nat
  lastSendNs : Nat := 0
  retries : Nat := 0
  dataSent : Bool := false
  isMatched : Bool := false
  failed : Bool := false

namespace SetupInitiator

def create (payload : SetupPayload) (timeoutNs maxRetries : Nat) : SetupInitiator where
  payload := payload
  myHash := hash64 (serialized payload)
  timeoutNs := timeoutNs
  maxRetries := maxRetries

variable (init : SetupInitiator)

def start (outCap nowNs : Nat) : SetupInitiator × Option (List UInt8) :=
  match encodeSetupData init.payload outCap with
  | none => ({ init with failed := true }, none)
  | some out => ({ init with dataSent := true, lastSendNs := nowNs }, some out)

/-- A reply with our hash is confirmed, as often as it comes. -/
def onDatagram (bytes : List UInt8) (outCap nowNs : Nat) : SetupInitiator × Option (List UInt8) :=
  if peekMsgType bytes = some .setupHashReply then
    match decodeSetupHash .setupHashReply bytes with
    | none => (init, none)
    | some (theirHash, theirNonce) =>
      if theirHash ≠ init.myHash then (init, none)
      else
        ({ init with isMatched := true, responderNonce := theirNonce, lastSendNs := nowNs },
          encodeSetupHash .setupFinAck init.myHash theirNonce outCap)
  else (init, none)

def onTimeout (outCap nowNs : Nat) : SetupInitiator × Option (List UInt8) :=
  if init.isMatched ∨ init.failed ∨ init.dataSent = false then (init, none)
  else if u64Sub nowNs init.lastSendNs < init.timeoutNs then (init, none)
  else if init.maxRetries ≤ init.retries then ({ init with failed := true }, none)
  else
    ({ init with retries := init.retries + 1, lastSendNs := nowNs },
      encodeSetupData init.payload outCap)

end SetupInitiator

/-! ## The responder -/

structure SetupResponder where
  config : SetupPayload := {}
  myHash : Nat := 0
  nonce : Nat := 0
  timeoutNs : Nat
  maxRetries : Nat
  lastSendNs : Nat := 0
  retries : Nat := 0
  hasConfig : Bool := false
  replySent : Bool := false
  complete : Bool := false
  failed : Bool := false

namespace SetupResponder

def create (timeoutNs maxRetries : Nat) : SetupResponder where
  timeoutNs := timeoutNs
  maxRetries := maxRetries

/-- The offer a datagram makes, with the bytes that are hashed. -/
def offer (bytes : List UInt8) : Option (SetupPayload × List UInt8) :=
  (decodeSetupData bytes).filter fun decoded => setupPayloadValid decoded.1

variable (resp : SetupResponder)

/-- An offer gets a nonce of its own unless it has the hash of the one before it. -/
def draws (body : List UInt8) : Bool :=
  resp.replySent = false ∨ hash64 body ≠ resp.myHash

/-- `random` is the number drawn if one is. -/
def onDatagram (random : Nat) (bytes : List UInt8) (outCap nowNs : Nat) :
    SetupResponder × Option (List UInt8) :=
  match peekMsgType bytes with
  | some .setupData =>
    if resp.complete then (resp, none)
    else match offer bytes with
      | none => (resp, none)
      | some (decoded, body) =>
        let nonce := if resp.draws body then random else resp.nonce
        ({ resp with
          nonce := nonce
          config := decoded
          hasConfig := true
          myHash := hash64 body
          replySent := true
          lastSendNs := nowNs },
          encodeSetupHash .setupHashReply (hash64 body) nonce outCap)
  | some .setupFinAck =>
    match decodeSetupHash .setupFinAck bytes with
    | none => (resp, none)
    | some (theirHash, theirNonce) =>
      if resp.replySent ∧ theirHash = resp.myHash ∧ theirNonce = resp.nonce then
        ({ resp with complete := true }, none)
      else (resp, none)
  | _ => (resp, none)

def onTimeout (outCap nowNs : Nat) : SetupResponder × Option (List UInt8) :=
  if resp.complete ∨ resp.failed ∨ resp.replySent = false then (resp, none)
  else if u64Sub nowNs resp.lastSendNs < resp.timeoutNs then (resp, none)
  else if resp.maxRetries ≤ resp.retries then ({ resp with failed := true }, none)
  else
    ({ resp with retries := resp.retries + 1, lastSendNs := nowNs },
      encodeSetupHash .setupHashReply resp.myHash resp.nonce outCap)

/-! ### What a datagram or a timeout can do -/

inductive Heard (resp : SetupResponder) (random : Nat) (bytes : List UInt8) (outCap nowNs : Nat) :
    SetupResponder → Option (List UInt8) → Prop where
  | ignored : Heard resp random bytes outCap nowNs resp none
  | offered (p : SetupPayload) (incomplete : resp.complete = false) (fits : p.Fits)
      (valid : setupPayloadValid p = true) (offers : offer bytes = some (p, setupBody p)) :
      Heard resp random bytes outCap nowNs
        { resp with
          nonce := if resp.draws (setupBody p) then random else resp.nonce
          config := p
          hasConfig := true
          myHash := hash64 (setupBody p)
          replySent := true
          lastSendNs := nowNs }
        (encodeSetupHash .setupHashReply (hash64 (setupBody p))
          (if resp.draws (setupBody p) then random else resp.nonce) outCap)
  | confirmed (sent : resp.replySent = true)
      (decoded : decodeSetupHash .setupFinAck bytes = some (resp.myHash, resp.nonce)) :
      Heard resp random bytes outCap nowNs { resp with complete := true } none

theorem offer_some {bytes body : List UInt8} {p : SetupPayload}
    (offers : offer bytes = some (p, body)) :
    p.Fits ∧ setupPayloadValid p = true ∧ setupBody p = body := by
  obtain ⟨hdecoded, hvalid⟩ := Option.filter_eq_some_iff.mp offers
  obtain ⟨_, hfits, hbody, _⟩ := decodeSetupData_some hdecoded
  exact ⟨hfits, hvalid, hbody⟩

theorem onDatagram_heard (random : Nat) (bytes : List UInt8) (outCap nowNs : Nat) :
    Heard resp random bytes outCap nowNs (resp.onDatagram random bytes outCap nowNs).1
      (resp.onDatagram random bytes outCap nowNs).2 := by
  unfold onDatagram
  split
  · split
    · exact .ignored
    · rename_i hincomplete
      split
      · exact .ignored
      · rename_i decoded body hoffer
        obtain ⟨hfits, hvalid, rfl⟩ := offer_some hoffer
        exact .offered decoded (Bool.eq_false_iff.mpr hincomplete) hfits hvalid hoffer
  · split
    · exact .ignored
    · rename_i theirHash theirNonce hdecoded
      split
      · rename_i hsame
        obtain ⟨hsent, rfl, rfl⟩ := hsame
        exact .confirmed hsent hdecoded
      · exact .ignored
  · exact .ignored

inductive Waited (resp : SetupResponder) (outCap : Nat) :
    SetupResponder → Option (List UInt8) → Prop where
  | still (failed : Bool) : Waited resp outCap { resp with failed := failed } none
  | repeated (retries lastSendNs : Nat) (incomplete : resp.complete = false)
      (sent : resp.replySent = true) :
      Waited resp outCap { resp with retries := retries, lastSendNs := lastSendNs }
        (encodeSetupHash .setupHashReply resp.myHash resp.nonce outCap)

theorem onTimeout_waited (outCap nowNs : Nat) :
    Waited resp outCap (resp.onTimeout outCap nowNs).1 (resp.onTimeout outCap nowNs).2 := by
  unfold onTimeout
  split
  · exact .still resp.failed
  · rename_i hactive
    simp only [not_or, Bool.not_eq_true, Bool.not_eq_false] at hactive
    split
    · exact .still resp.failed
    · split
      · exact .still true
      · exact .repeated _ _ hactive.1 hactive.2.2

/-- A responder that is complete neither replies nor changes its configuration. -/
theorem onDatagram_complete {resp : SetupResponder} (complete : resp.complete = true)
    (random : Nat) (bytes : List UInt8) (outCap nowNs : Nat) :
    (resp.onDatagram random bytes outCap nowNs).2 = none ∧
      (resp.onDatagram random bytes outCap nowNs).1.complete = true ∧
      (resp.onDatagram random bytes outCap nowNs).1.config = resp.config := by
  have hheard := resp.onDatagram_heard random bytes outCap nowNs
  generalize resp.onDatagram random bytes outCap nowNs = out at hheard
  obtain ⟨resp', sent⟩ := out
  cases hheard with
  | ignored => exact ⟨rfl, complete, rfl⟩
  | offered _ incomplete =>
    rw [complete] at incomplete
    cases incomplete
  | confirmed => exact ⟨rfl, rfl, rfl⟩

theorem onTimeout_complete {resp : SetupResponder} (complete : resp.complete = true)
    (outCap nowNs : Nat) :
    (resp.onTimeout outCap nowNs).2 = none ∧ (resp.onTimeout outCap nowNs).1.complete = true ∧
      (resp.onTimeout outCap nowNs).1.config = resp.config := by
  unfold onTimeout
  rw [if_pos (Or.inl complete)]
  exact ⟨rfl, complete, rfl⟩

end SetupResponder

theorem encodeSetupHash_some {type : MsgType} {hash responderNonce outCap : Nat} {out : List UInt8}
    (encoded : encodeSetupHash type hash responderNonce outCap = some out) :
    out = setupHashBytes type hash responderNonce := by
  unfold encodeSetupHash at encoded
  split at encoded
  · cases encoded
  · exact emit_eq_some encoded

theorem encodeSetupHash_roomy {hash responderNonce outCap : Nat} (room : 18 ≤ outCap) :
    encodeSetupHash .setupHashReply hash responderNonce outCap =
      some (setupHashBytes .setupHashReply hash responderNonce) := by
  have hfits : ¬ outCap < (setupHashBytes .setupHashReply hash responderNonce).length := by
    exact Nat.not_lt.mpr room
  rw [encodeSetupHash, if_neg (fun neither => neither.1 rfl), emit, if_neg hfits]

theorem setupHashBytes_inj {type : MsgType} (known : MsgType.ofCode type.code = type)
    {hash hash' nonce nonce' : Nat} (hhash : hash < 2 ^ 64) (hhash' : hash' < 2 ^ 64)
    (hnonce : nonce < 2 ^ 64) (hnonce' : nonce' < 2 ^ 64)
    (same : setupHashBytes type hash nonce = setupHashBytes type hash' nonce') :
    hash = hash' ∧ nonce = nonce' := by
  have hdecoded := decodeSetupHash_encode type known hhash hnonce
  rw [same, decodeSetupHash_encode type known hhash' hnonce'] at hdecoded
  obtain ⟨rfl, rfl⟩ := Prod.mk.inj (Option.some.inj hdecoded)
  exact ⟨rfl, rfl⟩

namespace SetupInitiator

structure Same (init init' : SetupInitiator) : Prop where
  payload : init'.payload = init.payload
  myHash : init'.myHash = init.myHash

variable (init : SetupInitiator)

theorem start_same (outCap nowNs : Nat) : Same init (init.start outCap nowNs).1 := by
  unfold start
  split <;> exact ⟨rfl, rfl⟩

theorem onTimeout_same (outCap nowNs : Nat) : Same init (init.onTimeout outCap nowNs).1 := by
  unfold onTimeout
  split
  · exact ⟨rfl, rfl⟩
  · split
    · exact ⟨rfl, rfl⟩
    · split <;> exact ⟨rfl, rfl⟩

/-- An initiator confirms only its own hash, with the nonce it was sent. -/
theorem onDatagram_confirms (bytes : List UInt8) (outCap nowNs : Nat) :
    Same init (init.onDatagram bytes outCap nowNs).1 ∧
      ∀ out, (init.onDatagram bytes outCap nowNs).2 = some out →
        ∃ nonce < 2 ^ 64, bytes = setupHashBytes .setupHashReply init.myHash nonce ∧
          out = setupHashBytes .setupFinAck init.myHash nonce := by
  unfold onDatagram
  split
  · split
    · exact ⟨⟨rfl, rfl⟩, nofun⟩
    · rename_i theirHash theirNonce hdecoded
      split
      · exact ⟨⟨rfl, rfl⟩, nofun⟩
      · rename_i hsame
        rw [Decidable.not_not] at hsame
        subst hsame
        refine ⟨⟨rfl, rfl⟩, fun out sent => ?_⟩
        obtain ⟨_, hfits, hbytes⟩ := decodeSetupHash_some hdecoded
        exact ⟨theirNonce, hfits.2, hbytes.symm, encodeSetupHash_some sent⟩
  · exact ⟨⟨rfl, rfl⟩, nofun⟩

end SetupInitiator

end FuseTransport.Proto
