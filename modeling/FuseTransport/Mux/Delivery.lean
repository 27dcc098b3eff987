import FuseTransport.Mux.Intake

/-!
# A multiplexed transfer arrives whole or not at all

Whatever the network loses, repeats or reorders, and in whatever order the streams are
serviced, a call that succeeds has put the sender's buffer together, and a call that fails
leaves none of it behind.
-/

namespace FuseTransport.Mux

open Foundation Foundation.Runs Proto
open FuseTransport.Transfer (TransferStatus worst worst_ok shards_join)

theorem MuxTransfer.payload_fits (job : MuxTransfer) : job.payload.Fits where
  numWorkers := Nat.one_lt_two_pow (by decide)
  count := by
    rw [MuxTransfer.payload, List.length_map, List.length_range]
    exact job.streams_le
  streams := by
    intro config member
    obtain ⟨i, hi, rfl⟩ := List.mem_map.mp member
    have hcount := job.streams_le
    have hi' := List.mem_range.mp hi
    unfold kMaxStreams at hcount
    exact ⟨by change i < 2 ^ 16; omega, Nat.two_pow_pos 16, job.blockSize_lt, job.windowSize_lt⟩
  ext := Nat.zero_le _
  acceptable := rfl

/-- The SETUP datagrams of the sender: its offer, or a confirmation. -/
inductive IsSetup (job : MuxTransfer) : List UInt8 → Prop where
  | offer : IsSetup job (putOuter .setupData ++ setupBody job.payload)
  | finAck (hash nonce : Nat) : IsSetup job (setupHashBytes .setupFinAck hash nonce)

variable {dg : List UInt8}

theorem encodeSetupData_some {p : SetupPayload} {cap : Nat}
    (encoded : encodeSetupData p cap = some dg) : dg = putOuter .setupData ++ setupBody p := by
  rw [encodeSetupData] at encoded
  split at encoded
  · cases encoded
  · obtain ⟨body, hbody, rfl⟩ := Option.map_eq_some_iff.mp encoded
    rw [serializeSetupPayload] at hbody
    split at hbody
    · cases hbody
    · rw [emit_eq_some hbody]

/-- The only configuration the sender offers is its own. -/
theorem IsSetup.offers {job : MuxTransfer} {body : List UInt8} {config : SetupPayload}
    (setup : IsSetup job dg) (offers : SetupResponder.offer (received dg) = some (config, body)) :
    config = job.payload ∧ setupPayloadValid job.payload = true := by
  obtain ⟨hdecoded, hvalid⟩ := Option.filter_eq_some_iff.mp offers
  cases setup with
  | offer =>
    have hwhole : received (putOuter .setupData ++ setupBody job.payload) =
        putOuter .setupData ++ setupBody job.payload := by
      have hcount := job.payload_fits.count
      have hext := job.payload_fits.ext
      rw [received, List.take_of_length_le]
      rw [List.length_append, length_putOuter, length_setupBody]
      unfold kMaxSetupDatagramSize kOuterHeaderSize
      omega
    rw [hwhole, decodeSetupData_encode job.payload job.payload_fits] at hdecoded
    cases hdecoded
    exact ⟨rfl, hvalid⟩
  | finAck hash nonce =>
    have hpeek := (decodeSetupData_some hdecoded).1
    cases hpeek

variable {s : SenderStreamState} {stream : Nat} {next : MuxSession} {nowNs i : Nat}

namespace MuxSession

variable {job : MuxTransfer} {st : MuxSession}

/-- The blocks stream `i` has sent so far. -/
def history (st : MuxSession) (i : Nat) : List SentBlock :=
  match st.senders[i]? with
  | some s => s.log.history
  | none => []

/-- What holds of the handshake: the only configuration on the way is the sender's. -/
structure Offered (job : MuxTransfer) (st : MuxSession) : Prop where
  payload : st.init.payload = job.payload
  setupSent : ∀ dg ∈ st.setupSent, IsSetup job dg
  config : st.setup.resp.replySent = true →
    st.setup.resp.config = job.payload ∧ setupPayloadValid job.payload = true
  completed : st.setup.resp.complete = true → st.setup.resp.replySent = true
  replies : ∀ dg ∈ st.replies,
    setupPayloadValid job.payload = true ∧ peekMsgType dg = some .setupHashReply
  matched : st.init.isMatched = true → setupPayloadValid job.payload = true

structure Streams (job : MuxTransfer) (st : MuxSession) : Prop where
  senders : ∀ i s, st.senders[i]? = some s → Emits job i s
  receivers : ∀ i r, st.receiver.streams[i]? = some r → Holds (job.shard i) (st.history i) r
  count : st.receiver.streams = [] ∨ st.receiver.streams.length = job.numStreams

theorem Offered.same (offered : Offered job st) (init : next.init = st.init)
    (setupSent : next.setupSent = st.setupSent) (setup : next.setup = st.setup)
    (replies : next.replies = st.replies) : Offered job next := by
  obtain ⟨hpayload, hsent, hconfig, hcompleted, hreplies, hmatched⟩ := offered
  rw [← init] at hpayload hmatched
  rw [← setupSent] at hsent
  rw [← setup] at hconfig hcompleted
  rw [← replies] at hreplies
  exact ⟨hpayload, hsent, hconfig, hcompleted, hreplies, hmatched⟩

theorem Streams.same (streams : Streams job st) (senders : next.senders = st.senders)
    (receiver : next.receiver = st.receiver) :
    Streams job next := by
  obtain ⟨hsenders, hreceivers, hcount⟩ := streams
  have hhistory : next.history = st.history := by
    funext i
    rw [history, history, senders]
  rw [← senders] at hsenders
  rw [← receiver] at hreceivers hcount
  rw [← hhistory] at hreceivers
  exact ⟨hsenders, hreceivers, hcount⟩

theorem create_offered (job : MuxTransfer) : Offered job (create job) :=
  ⟨rfl, nofun, nofun, nofun, nofun, nofun⟩

theorem create_streams (job : MuxTransfer) : Streams job (create job) :=
  ⟨nofun, nofun, Or.inl rfl⟩

theorem mem_forward (offered : Offered job st) (streams : Streams job st)
    (member : dg ∈ st.forward) :
    IsSetup job dg ∨
      ∃ i s, st.senders[i]? = some s ∧ Carried i (job.shard i) s.log.history dg := by
  rcases List.mem_append.mp member with hsetup | hstream
  · exact Or.inl (offered.setupSent dg hsetup)
  · obtain ⟨s, hs, hwire⟩ := List.mem_flatMap.mp hstream
    obtain ⟨i, hfound⟩ := List.mem_iff_getElem?.mp hs
    have hemits := streams.senders i s hfound
    have hcarried := hemits.wire dg hwire
    rw [hemits.data] at hcarried
    exact Or.inr ⟨i, s, hfound, hcarried⟩

/-- A stream's datagram is no SETUP. -/
theorem peekMsgType_carried {data : List UInt8} {history : List SentBlock}
    (carried : Carried i data history dg) :
    peekMsgType (Mux.received dg) ≠ some .setupData := by
  cases carried with
  | start fits stream size =>
    simp only [streamStartBytes, List.append_assoc]
    exact fun same => by cases same
  | block fits word stream sent offset length =>
    exact fun same => by cases same

/-- Whatever is offered to the receiver is what the sender wants to offer. -/
theorem forward_offers (offered : Offered job st) (streams : Streams job st) {body : List UInt8}
    {config : SetupPayload} (member : dg ∈ st.forward)
    (offers : SetupResponder.offer (Mux.received dg) = some (config, body)) :
    config = job.payload ∧ setupPayloadValid job.payload = true := by
  rcases mem_forward offered streams member with hsetup | ⟨i, s, _, hcarried⟩
  · exact hsetup.offers offers
  · obtain ⟨hdecoded, _⟩ := Option.filter_eq_some_iff.mp offers
    exact absurd (decodeSetupData_some hdecoded).1 (peekMsgType_carried hcarried)

/-- A datagram on the way back is a reply of the handshake, an ACK or a NACK. -/
theorem mem_backward (member : dg ∈ st.backward) :
    dg ∈ st.replies ∨ peekMsgType dg = some .ack ∨
      ∃ (i : Nat) (r : ReceiverStreamState) (nack : Nack), st.receiver.streams[i]? = some r ∧
        nack ∈ r.log.nacks ∧ nack.missing.length ≤ kMaxWindow ∧ dg = nackBytes nack := by
  rcases List.mem_append.mp member with hreply | hstream
  · exact Or.inl hreply
  · obtain ⟨r, hr, hwire⟩ := List.mem_flatMap.mp hstream
    rcases List.mem_append.mp hwire with hack | hnack
    · obtain ⟨ack, _, hencoded⟩ := List.mem_filterMap.mp hack
      right
      left
      rw [emit_eq_some hencoded]
      exact peekMsgType_putOuter .ack rfl _
    · obtain ⟨nack, hnack, hencoded⟩ := List.mem_filterMap.mp hnack
      obtain ⟨i, hfound⟩ := List.mem_iff_getElem?.mp hr
      obtain ⟨hshort, hencoded⟩ := Option.ite_none_left_eq_some.mp hencoded
      exact Or.inr (Or.inr ⟨i, r, nack, hfound, hnack, Nat.not_lt.mp hshort,
        emit_eq_some hencoded⟩)

/-- A SETUP reply on the way back is a reply of the handshake. -/
theorem replies_of_peek (member : dg ∈ st.backward)
    (reply : peekMsgType dg = some .setupHashReply) : dg ∈ st.replies := by
  rcases mem_backward member with hreply | hack | ⟨_, _, nack, _, _, _, rfl⟩
  · exact hreply
  · rw [hack] at reply
    cases reply
  · cases reply

/-! ## The handshake keeps to the offer -/

theorem Offered.initiated (offered : Offered job st) {out : SetupInitiator × Option (List UInt8)}
    (payload : out.1.payload = st.init.payload) (sent : ∀ dg, out.2 = some dg → IsSetup job dg)
    (matched : out.1.isMatched = true → setupPayloadValid job.payload = true) :
    Offered job (st.initiated out) where
  payload := payload.trans offered.payload
  setupSent := by
    intro dg member
    rcases List.mem_append.mp member with hold | hnew
    · exact offered.setupSent dg hold
    · exact sent dg (Option.mem_toList.mp hnew)
  config := offered.config
  completed := offered.completed
  replies := offered.replies
  matched := matched

theorem Offered.start (offered : Offered job st) (nowNs : Nat) :
    Offered job (st.initiated (st.init.start kMaxSetupDatagramSize nowNs)) := by
  refine offered.initiated (st.init.start_same _ nowNs).payload ?_ ?_
  · intro dg hsent
    rw [SetupInitiator.start] at hsent
    split at hsent
    · cases hsent
    · rename_i hencoded
      cases hsent
      rw [encodeSetupData_some hencoded, offered.payload]
      exact .offer
  · intro hmatched
    rw [SetupInitiator.start] at hmatched
    split at hmatched <;> exact offered.matched hmatched

theorem Offered.initiatorTimeout (offered : Offered job st) (nowNs : Nat) :
    Offered job (st.initiated (st.init.onTimeout kMaxSetupDatagramSize nowNs)) := by
  refine offered.initiated (st.init.onTimeout_same _ nowNs).payload ?_ ?_
  · intro dg hsent
    rw [SetupInitiator.onTimeout] at hsent
    repeat' split at hsent
    · cases hsent
    · cases hsent
    · cases hsent
    · dsimp only at hsent
      rw [encodeSetupData_some hsent, offered.payload]
      exact .offer
  · intro hmatched
    rw [SetupInitiator.onTimeout] at hmatched
    repeat' split at hmatched
    all_goals exact offered.matched hmatched

/-- An initiator is matched by a SETUP reply only. -/
theorem isMatched_onDatagram {init : SetupInitiator} {bytes : List UInt8} {outCap : Nat}
    (matched : (init.onDatagram bytes outCap nowNs).1.isMatched = true) :
    init.isMatched = true ∨ peekMsgType bytes = some .setupHashReply := by
  rw [SetupInitiator.onDatagram] at matched
  split at matched
  · rename_i hreply
    exact Or.inr hreply
  · exact Or.inl matched

theorem Offered.toInitiator (offered : Offered job st) (member : dg ∈ st.backward) (nowNs : Nat) :
    Offered job (st.initiated (st.init.onDatagram dg kMaxSetupDatagramSize nowNs)) := by
  obtain ⟨hsame, hconfirms⟩ := st.init.onDatagram_confirms dg kMaxSetupDatagramSize nowNs
  refine offered.initiated hsame.payload ?_ ?_
  · intro out hsent
    obtain ⟨nonce, _, _, rfl⟩ := hconfirms out hsent
    exact .finAck _ nonce
  · intro hmatched
    rcases isMatched_onDatagram hmatched with hbefore | hreply
    · exact offered.matched hbefore
    · exact (offered.replies dg (replies_of_peek member hreply)).1

/-- A round of the receiver's handshake in which every offer is the sender's. -/
def Genuine (job : MuxTransfer) (event : SetupTurn Unit) : Prop :=
  ∀ source dg random nowNs config body, event = .heard source dg random nowNs →
    SetupResponder.offer (Mux.received dg) = some (config, body) →
      config = job.payload ∧ setupPayloadValid job.payload = true

theorem encodeSetupHash_some {type : MsgType} {hash responderNonce outCap : Nat}
    (encoded : encodeSetupHash type hash responderNonce outCap = some dg) :
    dg = setupHashBytes type hash responderNonce := by
  rw [encodeSetupHash] at encoded
  split at encoded
  · cases encoded
  · exact emit_eq_some encoded

variable {event : SetupTurn Unit}

theorem reply_sent (offered : Offered job st) (genuine : Genuine job event)
    (replied : st.setup.reply event = some dg) :
    setupPayloadValid job.payload = true ∧ peekMsgType dg = some .setupHashReply := by
  have hpeek : ∀ hash nonce,
      encodeSetupHash .setupHashReply hash nonce kMaxSetupDatagramSize = some dg →
        peekMsgType dg = some .setupHashReply := by
    intro hash nonce hencoded
    rw [encodeSetupHash_some hencoded]
    exact peekMsgType_putOuter .setupHashReply rfl _
  cases event with
  | heard source bytes random nowNs =>
    obtain ⟨_, replied⟩ := Option.ite_none_left_eq_some.mp replied
    have hheard := st.setup.resp.onDatagram_heard random (Mux.received bytes)
      kMaxSetupDatagramSize nowNs
    rw [replied] at hheard
    generalize (st.setup.resp.onDatagram random (Mux.received bytes) kMaxSetupDatagramSize
      nowNs).1 = after at hheard
    generalize hsome : some dg = sent at hheard
    cases hheard with
    | ignored => cases hsome
    | offered p incomplete fits valid offers =>
      exact ⟨(genuine source bytes random nowNs p _ rfl offers).2, hpeek _ _ hsome.symm⟩
    | confirmed => cases hsome
  | silence nowNs =>
    obtain ⟨_, replied⟩ := Option.ite_none_left_eq_some.mp replied
    have hwaited := st.setup.resp.onTimeout_waited kMaxSetupDatagramSize nowNs
    rw [replied] at hwaited
    generalize (st.setup.resp.onTimeout kMaxSetupDatagramSize nowNs).1 = after at hwaited
    generalize hsome : some dg = sent at hwaited
    cases hwaited with
    | still => cases hsome
    | repeated retries lastSendNs incomplete sent =>
      exact ⟨(offered.config sent).2, hpeek _ _ hsome.symm⟩

theorem Offered.responded (offered : Offered job st) (genuine : Genuine job event)
    (stepped : st.responded event = some next) :
    Offered job next := by
  obtain ⟨_, stepped⟩ := Option.ite_none_left_eq_some.mp stepped
  obtain ⟨setup, hturn, rfl⟩ := Option.map_eq_some_iff.mp stepped
  have hreplies : ∀ dg ∈ st.replies ++ (st.setup.reply event).toList,
      setupPayloadValid job.payload = true ∧ peekMsgType dg = some .setupHashReply := by
    intro dg member
    rcases List.mem_append.mp member with hold | hnew
    · exact offered.replies dg hold
    · exact reply_sent offered genuine (Option.mem_toList.mp hnew)
  cases MuxSetup.turned hturn with
  | kept other same peer =>
    constructor
    case payload => exact offered.payload
    case setupSent => exact offered.setupSent
    case config =>
      intro hsent
      rw [same.replySent] at hsent
      rw [same.config]
      exact offered.config hsent
    case completed =>
      intro hcomplete
      rw [same.replySent]
      rcases same.complete hcomplete with hbefore | hsent
      · exact offered.completed hbefore
      · exact hsent
    case replies => exact hreplies
    case matched => exact offered.matched
  | offered data offers answered replySent peer =>
    exact ⟨offered.payload, offered.setupSent,
      fun _ => genuine _ _ _ _ _ _ rfl offers, fun _ => replySent, hreplies, offered.matched⟩
  | mistaken data refused =>
    exact ⟨offered.payload, offered.setupSent, offered.config, offered.completed, hreplies,
      offered.matched⟩

/-! ## The streams keep to their shards -/

theorem history_of_some (found : st.senders[i]? = some s) : st.history i = s.log.history := by
  rw [history, found]

/-- A step of the sender: each stream sends what is its own and adds at most one block. -/
theorem Streams.sent (streams : Streams job st) {senders : List SenderStreamState}
    (emits : ∀ i s, senders[i]? = some s → Emits job i s)
    (grows : ∀ i, history { st with senders := senders } i = st.history i ∨
      ∃ block, history { st with senders := senders } i = st.history i ++ [block]) :
    Streams job { st with senders := senders } where
  senders := emits
  receivers := by
    intro i r found
    rcases grows i with hsame | ⟨block, hadded⟩
    · rw [hsame]
      exact streams.receivers i r found
    · rw [hadded]
      exact (streams.receivers i r found).append block
  count := streams.count

theorem Streams.trySendOne (streams : Streams job st) {accepted : Nat → Bool}
    {sent : SenderStreamState × Bool} (found : st.senders[stream]? = some s)
    (tried : s.trySendOne nowNs accepted = some sent) :
    Streams job { st with senders := st.senders.set stream sent.1 } := by
  have hemits := streams.senders stream s found
  have hinside := (List.getElem?_eq_some_iff.mp found).1
  refine streams.sent ?_ ?_
  · intro i other hother
    rw [List.getElem?_set] at hother
    split at hother
    · rename_i hsame
      cases hother
      exact hsame ▸ hemits.trySendOne tried
    · exact streams.senders i other hother
  · intro i
    by_cases hsame : stream = i
    · subst hsame
      have hset : (st.senders.set stream sent.1)[stream]? = some sent.1 := by
        rw [List.getElem?_set, if_pos rfl, if_pos hinside]
      rw [history_of_some found, history, hset]
      exact hemits.trySendOne_history tried
    · left
      rw [history, history, List.getElem?_set, if_neg hsame]

theorem Streams.toSender (streams : Streams job st) (dg : List UInt8) (nowNs : Nat)
    (accepted : Nat → Bool) :
    Streams job
      { st with senders := st.senders.map fun s => s.dispatchIncoming dg nowNs accepted } := by
  refine streams.sent ?_ ?_
  · intro i s found
    rw [List.getElem?_map] at found
    obtain ⟨earlier, hearlier, rfl⟩ := Option.map_eq_some_iff.mp found
    exact (streams.senders i earlier hearlier).dispatchIncoming dg nowNs accepted
  · intro i
    left
    rw [history, history, List.getElem?_map]
    cases st.senders[i]? with
    | none => rfl
    | some s => exact Emits.dispatchIncoming_history s dg nowNs accepted

theorem getElem?_buildStreams {nonce clockOffset : Nat → Nat}
    (found : (job.buildStreams nonce clockOffset nowNs)[i]? = some s) :
    i < job.numStreams ∧ s = SenderStreamState.create i job.blockSize job.windowSize (job.shard i)
      (u64 (nonce i)) (u64 (clockOffset i)) nowNs := by
  rw [MuxTransfer.buildStreams, List.getElem?_map] at found
  obtain ⟨k, hk, rfl⟩ := Option.map_eq_some_iff.mp found
  obtain ⟨hinside, rfl⟩ := List.getElem?_eq_some_iff.mp hk
  rw [List.length_range] at hinside
  exact ⟨hinside, by rw [List.getElem_range]⟩

theorem Streams.buildSenders (streams : Streams job st)
    (valid : setupPayloadValid job.payload = true) (none_yet : st.senders = [])
    (nonce clockOffset : Nat → Nat) (nowNs : Nat) :
    Streams job { st with senders := job.buildStreams nonce clockOffset nowNs } := by
  refine streams.sent ?_ ?_
  · intro i s found
    obtain ⟨hinside, rfl⟩ := getElem?_buildStreams found
    exact Emits.create valid hinside _ _ _
  · intro i
    left
    have hnone : st.history i = [] := by
      rw [history, none_yet]
      rfl
    rw [hnone, history]
    split
    · rename_i s found
      obtain ⟨_, rfl⟩ := getElem?_buildStreams found
      rfl
    · rfl

/-- A step of the receiver changes each stream or leaves it as it is. -/
theorem Streams.received (streams : Streams job st) {receiver : MuxReceiver}
    (holds : ∀ i r, receiver.streams[i]? = some r → ∃ earlier,
      st.receiver.streams[i]? = some earlier ∧
        (Holds (job.shard i) (st.history i) earlier → Holds (job.shard i) (st.history i) r))
    (length : receiver.streams.length = st.receiver.streams.length) :
    Streams job { st with receiver := receiver } where
  senders := streams.senders
  receivers := by
    intro i r found
    obtain ⟨earlier, hearlier, hkeeps⟩ := holds i r found
    exact hkeeps (streams.receivers i earlier hearlier)
  count := by
    rcases streams.count with hnone | hall
    · rw [hnone] at length
      exact Or.inl (List.length_eq_zero_iff.mp length)
    · exact Or.inr (length.trans hall)

theorem Streams.modify (streams : Streams job st) {f : ReceiverStreamState → ReceiverStreamState}
    (keeps : ∀ r, Holds (job.shard stream) (st.history stream) r →
      Holds (job.shard stream) (st.history stream) (f r)) :
    Streams job { st with
      receiver := { st.receiver with streams := st.receiver.streams.modify stream f } } := by
  refine streams.received ?_ (List.length_modify ..)
  intro i r found
  obtain ⟨earlier, hearlier, rfl | ⟨rfl, rfl⟩⟩ := getElem?_modify_cases found
  · exact ⟨r, hearlier, id⟩
  · exact ⟨earlier, hearlier, keeps earlier⟩

theorem dispatchIncoming_setup (m : MuxReceiver) (setup : IsSetup job dg) (nowNs : Nat)
    (allocated : Bool) : m.dispatchIncoming dg nowNs allocated = m := by
  rw [MuxReceiver.dispatchIncoming]
  cases setup with
  | offer => rw [peekMsgType_putOuter .setupData rfl]
  | finAck hash nonce =>
    rw [setupHashBytes, List.append_assoc, peekMsgType_putOuter .setupFinAck rfl]

theorem dispatchIncoming_start (m : MuxReceiver) {ss : StreamStart} (fits : ss.Fits) (nowNs : Nat)
    (allocated : Bool) :
    m.dispatchIncoming (streamStartBytes ss) nowNs allocated =
      { m with
        streams := m.streams.modify ss.streamId fun r => r.onStreamStart ss allocated } := by
  have hpeek : peekMsgType (streamStartBytes ss) = some .streamStart := by
    simp only [streamStartBytes, List.append_assoc]
    exact peekMsgType_putOuter .streamStart rfl _
  have hdecoded := decodeStreamStart_encode ss fits []
  rw [List.append_nil] at hdecoded
  rw [MuxReceiver.dispatchIncoming, hpeek, hdecoded]

theorem dispatchIncoming_block (m : MuxReceiver) {hdr : BlockHeader} {sendNs : Nat}
    {payload : List UInt8} (fits : hdr.Fits) (word : sendNs < 2 ^ 64)
    (length : payload.length = hdr.payloadLen) (nowNs : Nat) (allocated : Bool) :
    m.dispatchIncoming (dataPrefix hdr sendNs ++ payload) nowNs allocated =
      { m with
        streams := m.streams.modify hdr.streamId fun r => r.onData ⟨hdr, sendNs, payload⟩ nowNs } := by
  have hpeek : peekMsgType (dataPrefix hdr sendNs ++ payload) = some .data := by
    exact peekMsgType_putOuter .data rfl _
  have hdecoded := decodeDataDatagram_encode hdr fits word length []
  rw [List.append_nil] at hdecoded
  rw [MuxReceiver.dispatchIncoming, hpeek, hdecoded]

theorem Streams.toReceiver (streams : Streams job st) (offered : Offered job st)
    (member : dg ∈ st.forward) (nowNs : Nat) (allocated : Bool) :
    Streams job { st with receiver := st.receiver.dispatchIncoming dg nowNs allocated } := by
  rcases mem_forward offered streams member with hsetup | ⟨i, s, found, hcarried⟩
  · rw [dispatchIncoming_setup st.receiver hsetup]
    exact streams
  · have hemits := streams.senders i s found
    cases hcarried with
    | start fits stream size =>
      rw [dispatchIncoming_start st.receiver fits, stream]
      exact streams.modify fun r holds => holds.onStreamStart size allocated
    | block fits word stream sent offset length =>
      rw [dispatchIncoming_block st.receiver fits word length.symm, stream]
      obtain ⟨hinside, hslice⟩ := hemits.tiles.slices _ (List.mem_of_getElem? sent)
      rw [hemits.data] at hinside hslice
      have hshort : s.log.history.length < 2 ^ 64 := by
        rw [hemits.windowed.recorded]
        exact hemits.windowed.window.bounded
      refine streams.modify fun r holds => ?_
      rw [history_of_some found] at holds ⊢
      exact holds.onData sent offset rfl hinside hslice hshort nowNs

/-- The configuration the receiver builds its streams from is the sender's. -/
theorem adopted_config (offered : Offered job st) {config : SetupPayload}
    (adopted : st.setup.adopted = some config) :
    config = job.payload ∧ setupPayloadValid job.payload = true := by
  obtain ⟨hboth, adopted⟩ := Option.ite_none_right_eq_some.mp adopted
  rw [← Option.some.inj adopted]
  exact offered.config (offered.completed hboth.1)

theorem Streams.buildReceivers (streams : Streams job st) (offered : Offered job st)
    {config : SetupPayload} (adopted : st.setup.adopted = some config) (nowNs : Nat) :
    Streams job { st with
      receiver := MuxReceiver.buildStreams (config.streams.map StreamConfig.windowSize) nowNs } := by
  obtain ⟨hconfig, _⟩ := adopted_config offered adopted
  refine ⟨streams.senders, ?_, Or.inr ?_⟩
  · intro i r found
    rw [MuxReceiver.buildStreams, List.getElem?_mapIdx] at found
    obtain ⟨windowSize, _, rfl⟩ := Option.map_eq_some_iff.mp found
    exact holds_create _ _ _ _ _
  · rw [MuxReceiver.buildStreams, hconfig, MuxTransfer.payload]
    simp

/-! ## What the call returns -/

/-- A call that succeeded has the buffer; one that failed has none of it, and has not touched
`out` if it failed before its streams were built. -/
def Returns (job : MuxTransfer) (st : MuxSession) : Prop :=
  ∀ status out, st.returned = some (status, out) →
    (status = .ok → out = job.data) ∧
      (status ≠ .ok → out = [] ∨ (st.receiver.streams = [] ∧ out = job.outBefore))

/-- A stream that reports success has its shard. -/
theorem Streams.shard_of_ok (streams : Streams job st) {r : ReceiverStreamState}
    (found : st.receiver.streams[i]? = some r) {timedOut : Bool} (ok : r.status timedOut = .ok) :
    r.shard = job.shard i := by
  have hholds := streams.receivers i r found
  have htiles : ∃ nextOffset, Tiles (job.shard i) (st.history i) nextOffset := by
    rw [history]
    split
    · rename_i s hsender
      have hemits := streams.senders i s hsender
      exact ⟨s.nextOffset, hemits.data ▸ hemits.tiles⟩
    · exact ⟨0, tiles_nil _⟩
  obtain ⟨nextOffset, htiles⟩ := htiles
  rw [ReceiverStreamState.status] at ok
  split at ok
  · cases ok
  · split at ok
    · rename_i hwhole
      exact hholds.whole htiles hwhole.1 hwhole.2
    · split at ok <;> cases ok

/-- The shards one behind the other are the buffer. -/
theorem Streams.result (streams : Streams job st) (built : st.receiver.streams ≠ [])
    (timedOut : Bool) {status : TransferStatus} {out : List UInt8}
    (result : st.receiver.result timedOut = (status, out)) :
    (status = .ok → out = job.data) ∧ (status ≠ .ok → out = []) := by
  obtain ⟨rfl, rfl⟩ := Prod.mk.inj result
  constructor
  · intro hok
    rw [if_pos hok]
    have hcount : st.receiver.streams.length = job.numStreams := streams.count.resolve_left built
    have hshards : st.receiver.streams.map ReceiverStreamState.shard =
        (List.range job.numStreams).map job.shard := by
      apply List.ext_getElem
      · rw [List.length_map, List.length_map, List.length_range, hcount]
      · intro i hi _
        rw [List.length_map] at hi
        have hstatus := worst_ok hok _ (List.mem_map_of_mem (List.getElem_mem hi))
        rw [List.getElem_map, List.getElem_map, List.getElem_range]
        exact streams.shard_of_ok (List.getElem?_eq_getElem hi) hstatus
    rw [List.flatMap_def, hshards]
    exact shards_join job.data job.streams_pos
  · intro hfailed
    rw [if_neg hfailed]

structure Inv (job : MuxTransfer) (st : MuxSession) : Prop where
  offered : Offered job st
  streams : Streams job st
  returns : Returns job st

theorem create_inv (job : MuxTransfer) : Inv job (create job) :=
  ⟨create_offered job, create_streams job, nofun⟩

/-- A receiver without streams stays without. -/
theorem received_nil {event : MuxReceiver.Event} (stepped : st.received event = some next)
    (none_yet : st.receiver.streams = []) :
    next.receiver.streams = [] := by
  cases event with
  | incoming dg nowNs allocated =>
    rw [received_incoming stepped, MuxReceiver.dispatchIncoming]
    repeat' split
    all_goals simp [none_yet]
  | service stream nowNs =>
    rw [received_service stepped]
    simp [none_yet]
  | finish =>
    rw [received_finish stepped]
    simp [none_yet]

theorem Returns.mono (returns : Returns job st) (returned : next.returned = st.returned)
    (built : st.receiver.streams = [] → next.receiver.streams = []) : Returns job next := by
  intro status out hreturned
  rw [returned] at hreturned
  obtain ⟨hok, hfailed⟩ := returns status out hreturned
  refine ⟨hok, fun failed => ?_⟩
  rcases hfailed failed with hnone | ⟨hstreams, huntouched⟩
  · exact Or.inl hnone
  · exact Or.inr ⟨built hstreams, huntouched⟩

theorem Streams.finish (streams : Streams job st) (stepped : st.received .finish = some next) :
    Streams job next := by
  cases received_finish stepped
  refine streams.received ?_ (List.length_map _)
  intro i r found
  rw [List.getElem?_map] at found
  obtain ⟨earlier, hearlier, rfl⟩ := Option.map_eq_some_iff.mp found
  exact ⟨earlier, hearlier, fun holds => holds.intake (finalAcks_intake earlier)⟩

namespace Inv

variable (inv : Inv job st)
include inv

theorem start (stepped : MuxSession.step job st (.start nowNs) = some next) : Inv job next := by
  cases (Option.ite_none_left_eq_some.mp stepped).2
  exact ⟨inv.offered.start nowNs, inv.streams.same rfl rfl, inv.returns.mono rfl id⟩

theorem initiatorTimeout
    (stepped : MuxSession.step job st (.initiatorTimeout nowNs) = some next) : Inv job next := by
  cases (Option.ite_none_right_eq_some.mp stepped).2
  exact ⟨inv.offered.initiatorTimeout nowNs, inv.streams.same rfl rfl, inv.returns.mono rfl id⟩

theorem buildSenders {nonce clockOffset : Nat → Nat}
    (stepped : MuxSession.step job st (.buildSenders nonce clockOffset nowNs) = some next) :
    Inv job next := by
  obtain ⟨hready, hnext⟩ := Option.ite_none_right_eq_some.mp stepped
  cases hnext
  exact ⟨inv.offered.same rfl rfl rfl rfl,
    inv.streams.buildSenders (inv.offered.matched hready.1) hready.2 nonce clockOffset nowNs,
    inv.returns.mono rfl id⟩

theorem trySendOne {accepted : Nat → Bool}
    (stepped : MuxSession.step job st (.trySendOne stream nowNs accepted) = some next) :
    Inv job next := by
  obtain ⟨sent, htried, rfl⟩ := Option.map_eq_some_iff.mp stepped
  obtain ⟨s, hfound, hsent⟩ := Option.bind_eq_some_iff.mp htried
  exact ⟨inv.offered.same rfl rfl rfl rfl, inv.streams.trySendOne hfound hsent,
    inv.returns.mono rfl id⟩

theorem toSender {accepted : Nat → Bool}
    (stepped : MuxSession.step job st (.toSender dg nowNs accepted) = some next) :
    Inv job next := by
  obtain ⟨hallowed, hnext⟩ := Option.ite_none_right_eq_some.mp stepped
  cases hnext
  have hoffered := inv.offered.toInitiator hallowed.1 nowNs
  have hsent := inv.streams.toSender dg nowNs accepted
  exact ⟨hoffered.same rfl rfl rfl rfl, hsent.same rfl rfl, inv.returns.mono rfl id⟩

theorem responded (genuine : Genuine job event) (stepped : st.responded event = some next) :
    Inv job next := by
  have hoffered := inv.offered.responded genuine stepped
  obtain ⟨setup, _, rfl⟩ :=
    Option.map_eq_some_iff.mp (Option.ite_none_left_eq_some.mp stepped).2
  exact ⟨hoffered, inv.streams.same rfl rfl, inv.returns.mono rfl id⟩

theorem toResponder {random : Nat}
    (stepped : MuxSession.step job st (.toResponder dg random nowNs) = some next) :
    Inv job next := by
  obtain ⟨hmember, hresponded⟩ := Option.ite_none_right_eq_some.mp stepped
  refine inv.responded ?_ hresponded
  intro source heard draw ns config body hheard hoffers
  cases hheard
  exact forward_offers inv.offered inv.streams hmember hoffers

theorem responderTimeout
    (stepped : MuxSession.step job st (.responderTimeout nowNs) = some next) : Inv job next := by
  refine inv.responded ?_ stepped
  intro source heard draw ns config body hheard
  cases hheard

theorem buildReceivers
    (stepped : MuxSession.step job st (.buildReceivers nowNs) = some next) : Inv job next := by
  obtain ⟨hready, hbuilt⟩ := Option.ite_none_right_eq_some.mp stepped
  obtain ⟨config, hadopted, rfl⟩ := Option.map_eq_some_iff.mp hbuilt
  refine ⟨inv.offered.same rfl rfl rfl rfl,
    inv.streams.buildReceivers inv.offered hadopted nowNs, ?_⟩
  intro status out hreturned
  rw [hreturned] at hready
  cases hready.2

theorem toReceiver {allocated : Bool}
    (stepped : MuxSession.step job st (.toReceiver dg nowNs allocated) = some next) :
    Inv job next := by
  obtain ⟨hmember, hreceived⟩ := Option.ite_none_right_eq_some.mp stepped
  have hnone := received_nil hreceived
  cases received_incoming hreceived
  exact ⟨inv.offered.same rfl rfl rfl rfl,
    inv.streams.toReceiver inv.offered hmember nowNs allocated, inv.returns.mono rfl hnone⟩

theorem service (stepped : MuxSession.step job st (.service stream nowNs) = some next) :
    Inv job next := by
  have hnone := received_nil stepped
  cases received_service stepped
  refine ⟨inv.offered.same rfl rfl rfl rfl, ?_, inv.returns.mono rfl hnone⟩
  exact inv.streams.modify fun r holds => holds.intake (tryServiceOne_intake r nowNs)

theorem giveUp {status : TransferStatus}
    (stepped : MuxSession.step job st (.giveUp status) = some next) : Inv job next := by
  obtain ⟨hready, hnext⟩ := Option.ite_none_right_eq_some.mp stepped
  cases hnext
  refine ⟨inv.offered.same rfl rfl rfl rfl, inv.streams.same rfl rfl, ?_⟩
  intro other out hreturned
  cases hreturned
  exact ⟨fun ok => absurd ok hready.2.2, fun _ => Or.inr ⟨hready.1, rfl⟩⟩

theorem finish {timedOut : Bool}
    (stepped : MuxSession.step job st (.finish timedOut) = some next) : Inv job next := by
  obtain ⟨hbuilt, hfinished⟩ := Option.ite_none_left_eq_some.mp stepped
  obtain ⟨after, hreceived, rfl⟩ := Option.map_eq_some_iff.mp hfinished
  have hstreams := inv.streams.finish hreceived
  cases received_finish hreceived
  refine ⟨inv.offered.same rfl rfl rfl rfl, hstreams.same rfl rfl, ?_⟩
  intro status out hreturned
  obtain ⟨hok, hfailed⟩ :=
    hstreams.result (by simpa using hbuilt) timedOut (Option.some.inj hreturned)
  exact ⟨hok, fun failed => Or.inl (hfailed failed)⟩

theorem step {event : MuxEvent} (stepped : MuxSession.step job st event = some next) :
    Inv job next := by
  cases event with
  | start => exact inv.start stepped
  | initiatorTimeout => exact inv.initiatorTimeout stepped
  | buildSenders => exact inv.buildSenders stepped
  | trySendOne => exact inv.trySendOne stepped
  | toSender => exact inv.toSender stepped
  | toResponder => exact inv.toResponder stepped
  | responderTimeout => exact inv.responderTimeout stepped
  | buildReceivers => exact inv.buildReceivers stepped
  | toReceiver => exact inv.toReceiver stepped
  | service => exact inv.service stepped
  | giveUp => exact inv.giveUp stepped
  | finish => exact inv.finish stepped

end Inv

/-- In every run of a session, whatever its network and its workers do: when the receiving
call returns success it has put the sender's buffer into `out`, and otherwise `out` is empty,
or untouched if the call returned before its handshake was complete. -/
theorem multiplexed_integrity (job : MuxTransfer) {run : List MuxEvent} {st : MuxSession}
    (replayed : replay (step job) (create job) run = some st) {status : TransferStatus}
    {out : List UInt8} (returned : st.returned = some (status, out)) :
    (status = .ok → out = job.data) ∧
      (status ≠ .ok → out = [] ∨ (st.receiver.streams = [] ∧ out = job.outBefore)) := by
  have hstep : ∀ before event after, Inv job before → MuxSession.step job before event = some after →
      Inv job after := fun _ _ _ inv stepped => inv.step stepped
  exact (replay_preserves hstep replayed (create_inv job)).returns status out returned

def threeBytes : MuxTransfer where
  numStreams := 2
  blockSize := 1200
  windowSize := 4
  data := [1, 2, 3]
  outBefore := [9]
  streams_pos := by decide
  streams_le := by decide
  blockSize_lt := by decide
  windowSize_lt := by decide
  data_lt := by decide

def agreedRun (job : MuxTransfer) : List MuxEvent :=
  [.start 1, .toResponder (putOuter .setupData ++ setupBody job.payload) 5 2,
    .toSender (setupHashBytes .setupHashReply (hash64 (setupBody job.payload)) 5) 3 fun _ => true,
    .toResponder (setupHashBytes .setupFinAck (hash64 (setupBody job.payload)) 5) 0 4,
    .buildReceivers 5, .buildSenders (fun i => 7 + i) (fun _ => 0) 6]

/-- The StreamStart of one stream, its acknowledgement, and its only block. -/
def shardRun (stream size nonce : Nat) (block : List UInt8) : List MuxEvent :=
  [.trySendOne stream 10 fun _ => true,
    .toReceiver (streamStartBytes
      { streamId := stream, blockSize := 1200, totalBytes := size, nonce := nonce }) 11 true,
    .service stream 300000,
    .toSender (ackBytes { streamId := stream, nonce := nonce }) 300001 fun _ => true,
    .trySendOne stream 300002 fun _ => true,
    .toReceiver (dataPrefix
      { streamId := stream, flags := kFlagLastBlock, payloadLen := size } 300002 ++ block) 300003 true]

/-- The second stream comes first, and a block of it arrives twice. -/
def threeBytesRun : List MuxEvent :=
  agreedRun threeBytes ++ shardRun 1 1 8 [3] ++ shardRun 0 2 7 [1, 2] ++
    [.toReceiver (dataPrefix
        { streamId := 1, flags := kFlagLastBlock, payloadLen := 1 } 300002 ++ [3]) 300004 true,
      .service 0 600000, .service 1 600000, .finish false]

theorem multiplexed_integrity_threeBytes :
    ∃ st, replay (step threeBytes) (create threeBytes) threeBytesRun = some st ∧
      st.returned = some (.ok, threeBytes.data) := by
  obtain ⟨st, hreplay, hreturned⟩ : ∃ st,
      replay (step threeBytes) (create threeBytes) threeBytesRun = some st ∧
        st.returned.map Prod.fst = some .ok := by decide +kernel
  obtain ⟨⟨status, out⟩, hout, rfl⟩ := Option.map_eq_some_iff.mp hreturned
  have hwhole := (multiplexed_integrity threeBytes hreplay hout).1 rfl
  exact ⟨st, hreplay, by rw [hout, hwhole]⟩

end MuxSession

end FuseTransport.Mux
