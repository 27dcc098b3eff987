import FuseTransport.Proto.Feedback
import FuseTransport.Transfer.Answer
import FuseTransport.Transfer.Session

/-!
# What the datagrams of a session say

Whatever the sender puts on the wire of a lane, the receiver reads it as the lane's
own opening message or as a block the lane has sent.  Whatever the receiver answers,
the sender reads an acknowledgement of blocks that were accepted, a report that names
blocks that were sent, or a message of the lane's answer.
-/

namespace FuseTransport.Transfer

open Foundation Proto

variable {s : Sent}

/-- Everything signed starts with its body. -/
theorem Emits.bytes {signer after : Option Signer} {bodies : List (List UInt8)}
    {sents : List Sent} (emits : Emits signer after bodies sents) (member : s ∈ sents) :
    ∃ body ∈ bodies, ∃ rest, s.bytes = body ++ rest := by
  obtain ⟨i, body, hbody, hsigns⟩ := emits.each s member
  exact ⟨body, List.mem_of_getElem? hbody, hsigns.bytes⟩

def Carried (cfg : SendConfig) (lane : Nat) (history : List SentBlock) (dg : List UInt8) : Prop :=
  ∃ (seqNo : Nat) (block : SentBlock), history[seqNo]? = some block ∧
    SendOf (cfg.cipher lane) lane seqNo block dg

/-- A datagram that carries a block the lane has sent, with the seal of that block. -/
def Sent.Carries (cfg : SendConfig) (lane : Nat) (history : List SentBlock) (s : Sent) : Prop :=
  ∃ (seqNo : Nat) (block : SentBlock), history[seqNo]? = some block ∧
    SendOf (cfg.cipher lane) lane seqNo block s.bytes ∧
    s.carried = (cfg.cipher lane).map fun c => blockSeal c lane seqNo block

structure Forward (cfg : SendConfig) (lane : Nat) (history : List SentBlock) (dg : List UInt8) :
    Prop where
  starts : ∀ ss, decodeStreamStart dg = some ss → ∃ L : SendLane, ss = L.streamStart cfg lane
  blocks : peekMsgType dg = some .data → Carried cfg lane history dg

variable {longer : List SentBlock}

theorem getElem?_of_grows {history : List SentBlock} (grows : history <+: longer) {i : Nat}
    {block : SentBlock} (found : history[i]? = some block) : longer[i]? = some block := by
  obtain ⟨hinside, hvalue⟩ := List.getElem?_eq_some_iff.mp found
  rw [← hvalue]
  exact List.prefix_iff_getElem?.mp grows i hinside

variable {body : List UInt8} {L : SendLane}

section Forward

variable {cfg : SendConfig} {lane : Nat} {history : List SentBlock} {dg : List UInt8}

theorem Carried.mono (carried : Carried cfg lane history dg) (grows : history <+: longer) :
    Carried cfg lane longer dg := by
  obtain ⟨seqNo, sent, hfound, hsend⟩ := carried
  exact ⟨seqNo, sent, getElem?_of_grows grows hfound, hsend⟩

theorem Sent.Carries.mono (carries : s.Carries cfg lane history) (grows : history <+: longer) :
    s.Carries cfg lane longer := by
  obtain ⟨seqNo, block, hfound, hrest⟩ := carries
  exact ⟨seqNo, block, getElem?_of_grows grows hfound, hrest⟩

theorem Sent.Carries.forward (carries : s.Carries cfg lane history) :
    Carried cfg lane history s.bytes := by
  obtain ⟨seqNo, block, hfound, hsend, _⟩ := carries
  exact ⟨seqNo, block, hfound, hsend⟩

theorem Forward.mono (forward : Forward cfg lane history dg) (grows : history <+: longer) :
    Forward cfg lane longer dg :=
  ⟨forward.starts, fun peeked => (forward.blocks peeked).mono grows⟩

theorem Carried.forward (carried : Carried cfg lane history dg) : Forward cfg lane history dg := by
  refine ⟨fun ss decoded => ?_, fun _ => carried⟩
  obtain ⟨seqNo, block, _, hsend⟩ := carried
  have hpeek := (of_decoded decoded).1.symm.trans hsend.peek
  cases hpeek

theorem forward_aside (aside : Aside body) (rest : List UInt8) :
    Forward cfg lane history (body ++ rest) := by
  refine ⟨fun ss decoded => ?_, fun peeked => ?_⟩
  · exact absurd (of_decoded decoded).1 (aside.peek_ne rest (by simp))
  · exact absurd peeked (aside.peek_ne rest (by simp))

theorem streamStart_fits (lane_fits : lane < 2 ^ 16) (token : L.token < 2 ^ 64) :
    (L.streamStart cfg lane).Fits := by
  have hinside := shard_inside cfg.data.length cfg.lanes lane
  have hdata := cfg.data_fits
  constructor
  case streamId => exact lane_fits
  case totalBlocks => exact Nat.two_pow_pos 64
  case blockSize => exact cfg.blockSize.toNat_lt
  case totalBytes => change shardLength cfg.data.length cfg.lanes lane < 2 ^ 64; omega
  case sessionSalt =>
    change (if cfg.keyed.isSome then cfg.salt else List.replicate 16 0).length = 16
    split
    · exact cfg.salt_length
    · exact List.length_replicate
  case nonce => exact (cfg.nonces lane).toNat_lt
  case streamBaseOffset => change shardOffset cfg.data.length cfg.lanes lane < 2 ^ 64; omega
  case fileTotalBytes => exact cfg.data_fits
  case fileId => exact cfg.fileId.toNat_lt
  case token => exact token
  case ext => exact Nat.zero_le _
  case acceptable => rfl

/-- What a lane signs is its opening message or says nothing about blocks. -/
theorem SendLane.Says.forward (said : L.Says cfg lane body) (lane_fits : lane < 2 ^ 16)
    (token : L.token < 2 ^ 64) (rest : List UInt8) :
    Forward cfg lane history (body ++ rest) := by
  cases said with
  | aside _ aside => exact forward_aside aside rest
  | start =>
    have hfits : (L.streamStart cfg lane).Fits := streamStart_fits lane_fits token
    have hdecode := decodeStreamStart_encode _ hfits rest
    have hpeek := peekMsgType_of_checkOuter (checkOuter_streamStart (L.streamStart cfg lane) rest)
    refine ⟨fun ss decoded => ⟨L, ?_⟩, fun peeked => ?_⟩
    · exact Option.some.inj (decoded.symm.trans hdecode)
    · cases hpeek.symm.trans peeked

/-- The mark of a retransmission is not part of what is sealed. -/
theorem blockSeal_again (lane seqNo : Nat) (block : SentBlock) :
    ((cfg.cipher lane).map fun c => blockSeal c lane seqNo block.again) =
      (cfg.cipher lane).map fun c => blockSeal c lane seqNo block := by
  have haad : buildAad lane seqNo block.offset (block.flags ||| kFlagRetransmission) =
      buildAad lane seqNo block.offset block.flags := by
    simp only [buildAad, or_and_not]
  unfold SendConfig.cipher
  cases cfg.keyed with
  | none => rfl
  | some k => simp only [Option.map_some, blockSeal, blockCipher, SentBlock.again, haad]

/-- A block still held goes out as it was first sent. -/
theorem resend_carries {Done : Nat → Prop} {works : Bool} {wireNs seqNo : Nat}
    (window : SendWindow (Original L.history) Done L.reg L.base L.nextSeq)
    (sent : seqNo < L.nextSeq) (member : s ∈ L.resend cfg lane works wireNs seqNo) :
    s.Carries cfg lane L.history := by
  unfold SendLane.resend at member
  cases hlookup : L.reg.lookup seqNo with
  | none =>
    rw [hlookup] at member
    cases member
  | some slot =>
    rw [hlookup] at member
    obtain ⟨dg, hdg, hs⟩ := Option.map_eq_some_iff.mp (Option.mem_toList.mp member)
    rw [← hs]
    exact ⟨seqNo, _, window.original seqNo slot sent hlookup, ⟨works, wireNs, _, Or.inr hdg⟩,
      blockSeal_again lane seqNo ⟨slot.payload, slot.offset, slot.flags⟩⟩

/-- A new block goes out as it is recorded. -/
theorem sendNext_carries (counted : L.history.length = L.nextSeq) {block : Nat} {works : Bool}
    {nowNs wireNs cap : Nat} (member : s ∈ (L.sendNext cfg lane block works nowNs wireNs cap).2) :
    s.Carries cfg lane (L.sendNext cfg lane block works nowNs wireNs cap).1.history := by
  unfold SendLane.sendNext at member ⊢
  dsimp only at member ⊢
  split at member
  · rename_i sent hsent
    rw [List.mem_singleton.mp member]
    obtain ⟨dg, hdg, hs⟩ := Option.map_eq_some_iff.mp hsent
    rw [← hs]
    refine ⟨L.nextSeq, _, ?_, ⟨works, wireNs, cap, Or.inl hdg⟩, rfl⟩
    change (L.history ++ [_])[L.nextSeq]? = _
    rw [← counted, List.getElem?_concat_length]
  · cases member

end Forward

/-! ## Towards the sender -/

/-- What a datagram of the receiver may say to a sender that has sent the blocks below
`nextSeq`. -/
structure Backward (lane : Nat) (R : RecvLane) (nextSeq : Nat) (dg : List UInt8) : Prop where
  acks : ∀ ack, decodeAck dg = some ack → ∀ seqNo, ack.Asserts seqNo → R.rx.Accepted seqNo
  nacks : ∀ nack, decodeNack dg = some nack → ∀ seqNo ∈ nack.missing, seqNo < nextSeq
  parts : ∀ rr, decodeResumeRanges dg = some rr → R.haveStart = true ∧
    ∃ nonce resumed, rr ∈ Transfer.resumeAnswer lane nonce resumed R.log.want

structure RecvLane.Asks (R : RecvLane) : Prop where
  ascending : Ascending 0 R.shardBytes R.log.want
  short : R.log.want.length ≤ kMaxResumeRanges
  bounded : R.shardBytes ≤ kMaxSize

section Backward

variable {cfg : RxConfig} {lane : Nat} {R R' : RecvLane} {nextSeq : Nat} {dg : List UInt8}

theorem Backward.mono (backward : Backward lane R nextSeq dg) {nextSeq' : Nat}
    (grows : nextSeq ≤ nextSeq') (accepted : ∀ s, R.rx.Accepted s → R'.rx.Accepted s)
    (kept : R.haveStart = true → R'.haveStart = true ∧ R'.log.want = R.log.want) :
    Backward lane R' nextSeq' dg where
  acks := fun ack decoded s asserted => accepted s (backward.acks ack decoded s asserted)
  nacks := fun nack decoded s member => Nat.lt_of_lt_of_le (backward.nacks nack decoded s member) grows
  parts := by
    intro rr decoded
    obtain ⟨hstarted, hmember⟩ := backward.parts rr decoded
    obtain ⟨hstill, hwant⟩ := kept hstarted
    rw [hwant]
    exact ⟨hstill, hmember⟩

theorem backward_other (other : ∀ type, peekMsgType dg = some type →
    type ≠ .ack ∧ type ≠ .nack ∧ type ≠ .resumeRanges) : Backward lane R nextSeq dg where
  acks := fun _ decoded => absurd rfl (other _ (of_decoded decoded).1).1
  nacks := fun _ decoded => absurd rfl (other _ (of_decoded decoded).1).2.1
  parts := fun _ decoded => absurd rfl (other _ (of_decoded decoded).1).2.2

theorem backward_aside (aside : Aside body) (rest : List UInt8) :
    Backward lane R nextSeq (body ++ rest) := by
  refine backward_other fun type peeked => ⟨?_, ?_, ?_⟩
  · rintro rfl
    exact aside.peek_ne rest (by simp) peeked
  · rintro rfl
    exact aside.peek_ne rest (by simp) peeked
  · rintro rfl
    exact aside.peek_ne rest (by simp) peeked

theorem Sent.Bare.backward (bare : s.Bare) : Backward lane R nextSeq s.bytes := by
  refine backward_other fun type peeked => ?_
  rcases bare.type type peeked with rfl | rfl <;> exact ⟨nofun, nofun, nofun⟩

theorem ackMessage_fits (reports : R.rx.Reports nextSeq) (nonce : R.peerNonce < 2 ^ 64) :
    (R.ackMessage cfg).Fits := by
  refine { reports.buildAck_fits with nonce := nonce, rwnd := ?_ }
  have hwindow : R.receiveWindow cfg ≤ kWindow := Nat.min_le_right _ _
  exact Nat.lt_of_le_of_lt hwindow (by decide)

theorem RecvLane.Says.backward (said : R.Says cfg body) (reports : R.rx.Reports nextSeq)
    (word : nextSeq ≤ 2 ^ 64) (nonce : R.peerNonce < 2 ^ 64) (rest : List UInt8) :
    Backward lane R nextSeq (body ++ rest) := by
  cases said with
  | aside _ aside => exact backward_aside aside rest
  | ack =>
    have hfits : (R.ackMessage cfg).Fits := ackMessage_fits reports nonce
    have hdecode := decodeAck_encode _ hfits rest
    have hpeek := peekMsgType_of_checkOuter (checkOuter_ack (R.ackMessage cfg) rest)
    constructor
    case acks =>
      intro ack decoded seqNo asserted
      rw [Option.some.inj (decoded.symm.trans hdecode)] at asserted
      exact (R.rx.buildAck_asserts seqNo).mp asserted
    case nacks =>
      intro nack decoded
      cases hpeek.symm.trans (of_decoded decoded).1
    case parts =>
      intro rr decoded
      cases hpeek.symm.trans (of_decoded decoded).1
  | nack nowNs reorderNs renackNs =>
    have hstream : (R.rx.collectNacks nowNs reorderNs renackNs).2 =
        ⟨R.rx.streamId, (R.rx.collectNacks nowNs reorderNs renackNs).2.missing⟩ := by
      unfold ReceiverStream.collectNacks
      split <;> rfl
    have hfits := reports.collectNacks_fits word reports.streamId nowNs reorderNs renackNs
    rw [← hstream] at hfits
    have hdecode := decodeNack_encode _ hfits rest
    have hpeek := peekMsgType_of_checkOuter
      (checkOuter_nack (R.rx.collectNacks nowNs reorderNs renackNs).2 rest)
    constructor
    case acks =>
      intro ack decoded
      cases hpeek.symm.trans (of_decoded decoded).1
    case nacks =>
      intro nack decoded seqNo member
      rw [Option.some.inj (decoded.symm.trans hdecode)] at member
      exact reports.named member
    case parts =>
      intro rr decoded
      cases hpeek.symm.trans (of_decoded decoded).1

theorem RecvLane.Asks.fits (asks : R.Asks) (lane_fits : lane < 2 ^ 16) {nonce : Nat}
    (nonce_fits : nonce < 2 ^ 64) {resumed : Bool} {rr : ResumeRanges}
    (member : rr ∈ Transfer.resumeAnswer lane nonce resumed R.log.want) : rr.Fits := by
  obtain ⟨hstream, hnonce, hparts, hranges⟩ := resumeAnswer_member asks.short member
  obtain ⟨hpart, hvalue⟩ := List.getElem?_eq_some_iff.mp hranges
  have hlists : ∀ r ∈ rr.ranges, r ∈ R.log.want := by
    intro r hr
    rw [← flatten_answerLists R.log.want]
    exact List.mem_flatten.mpr ⟨rr.ranges, List.mem_of_getElem? hranges, hr⟩
  constructor
  case streamId => rw [hstream]; exact lane_fits
  case nonce => rw [hnonce]; exact nonce_fits
  case parts => rw [hparts]; exact length_answerLists asks.short
  case part => rw [hparts]; exact hpart
  case count =>
    obtain ⟨i, _, rfl⟩ := List.mem_map.mp member
    exact List.length_take_le _ _
  case ranges =>
    intro r hr
    have hinside := asks.ascending.inside (hlists r hr)
    have hbounded := asks.bounded
    unfold kMaxSize at hbounded
    omega

/-- A message of the answer is read as such. -/
theorem RecvLane.Asks.backward (asks : R.Asks) (started : R.haveStart = true)
    (lane_fits : lane < 2 ^ 16) {nonce : Nat} (nonce_fits : nonce < 2 ^ 64) {resumed : Bool}
    {rr : ResumeRanges} (member : rr ∈ Transfer.resumeAnswer lane nonce resumed R.log.want)
    (rest : List UInt8) : Backward lane R nextSeq (resumeRangesBytes rr ++ rest) := by
  have hdecode := decodeResumeRanges_encode rr (asks.fits lane_fits nonce_fits member) rest
  have hpeek := peekMsgType_of_checkOuter (checkOuter_resumeRanges rr rest)
  constructor
  case acks =>
    intro ack decoded
    cases hpeek.symm.trans (of_decoded decoded).1
  case nacks =>
    intro nack decoded
    cases hpeek.symm.trans (of_decoded decoded).1
  case parts =>
    intro other decoded
    rw [Option.some.inj (decoded.symm.trans hdecode)]
    exact ⟨started, nonce, resumed, member⟩

/-- Everything a step of the receiver says to a lane of the sender is true. -/
theorem RecvLane.Replied.backward {sh : Shared} {sent : List Sent}
    (replied : RecvLane.Replied cfg lane R sh R' sent) (lane_fits : lane < 2 ^ 16)
    (reports : R.rx.Reports nextSeq) (word : nextSeq ≤ 2 ^ 64) (nonce : R.peerNonce < 2 ^ 64)
    (answer : ∀ s ∈ R.resumeAnswer, Backward lane R nextSeq s.bytes)
    (nonce' : R'.peerNonce < 2 ^ 64) (asks : R'.haveStart = true → R'.Asks)
    (mono : ∀ dg, Backward lane R nextSeq dg → Backward lane R' nextSeq dg) :
    (∀ s ∈ sent, Backward lane R' nextSeq s.bytes) ∧
      ∀ s ∈ R'.resumeAnswer, Backward lane R' nextSeq s.bytes := by
  cases replied with
  | spoke bodies signed emits said _ among kept =>
    refine ⟨fun s member => ?_, ?_⟩
    · rcases among s member with hsigned | hanswer | hbare
      · obtain ⟨body, hbody, rest, hbytes⟩ := emits.bytes hsigned
        rw [hbytes]
        exact mono _ ((said body hbody).backward reports word nonce rest)
      · exact mono _ (answer s hanswer)
      · exact hbare.backward
    · rw [kept]
      exact fun s member => mono _ (answer s member)
  | joined _ _ _ _ bodies signed _ started _ _ emits parts _ among kept =>
    have hsent : ∀ s ∈ sent, Backward lane R' nextSeq s.bytes := by
      intro s member
      rcases among s member with hsigned | hbare
      · obtain ⟨body, hbody, rest, hbytes⟩ := emits.bytes hsigned
        obtain ⟨rr, hrr, hbodyBytes⟩ := parts body hbody
        rw [hbytes, hbodyBytes]
        exact (asks started).backward started lane_fits nonce' hrr rest
      · exact hbare.backward
    refine ⟨hsent, ?_⟩
    rw [kept]
    exact hsent

end Backward

end FuseTransport.Transfer
