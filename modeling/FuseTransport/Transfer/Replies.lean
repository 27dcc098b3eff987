import FuseTransport.Transfer.Reader
import FuseTransport.Transfer.Speech

/-!
# What the receiving end says

Every reply of a lane is signed by its reader in this step, or is the answer it
signed when it joined, or needs no signature.
-/

namespace FuseTransport.Transfer

open Foundation.BigEndian Proto

/-- A datagram outside the signed traffic: it says nothing about blocks. -/
structure Sent.Bare (s : Sent) : Prop where
  carried : s.carried = none
  type : ∀ type, peekMsgType s.bytes = some type → type = .retry ∨ type = .streamClose

def Aside (body : List UInt8) : Prop :=
  ∃ type, (∀ rest, peekMsgType (body ++ rest) = some type) ∧
    (type = .streamClose ∨ type = .pathChallenge ∨ type = .pathResponse ∨ type = .fileDigest)

theorem aside_streamClose (sc : StreamClose) : Aside (streamCloseBytes sc) :=
  ⟨.streamClose, fun rest => peekMsgType_of_checkOuter (checkOuter_streamClose sc rest), Or.inl rfl⟩

theorem aside_digest (dm : DigestMessage) : Aside (digestBytes dm) :=
  ⟨.fileDigest, fun rest => peekMsgType_of_checkOuter (checkOuter_digest dm rest),
    Or.inr (Or.inr (Or.inr rfl))⟩

theorem aside_pathProbe {type : MsgType} (kind : type = .pathChallenge ∨ type = .pathResponse)
    (pp : PathProbe) : Aside (pathProbeBytes type pp) := by
  refine ⟨type, fun rest => ?_, Or.inr ?_⟩
  · rcases kind with rfl | rfl
    · exact peekMsgType_putOuter .pathChallenge rfl _
    · exact peekMsgType_putOuter .pathResponse rfl _
  · exact kind.elim Or.inl fun response => Or.inr (Or.inl response)

/-- The types that say something about blocks are not among those of an aside. -/
theorem Aside.peek_ne {body : List UInt8} (aside : Aside body) (rest : List UInt8) {type : MsgType}
    (about : type ∈ [MsgType.streamStart, .data, .ack, .nack, .resumeRanges]) :
    peekMsgType (body ++ rest) ≠ some type := by
  obtain ⟨kind, hpeek, hkind⟩ := aside
  rw [hpeek rest, Ne, Option.some.injEq]
  rintro rfl
  rcases hkind with rfl | rfl | rfl | rfl <;> exact absurd about (by decide)

theorem sent_bare_nil : Sent.Bare ⟨[], none⟩ := ⟨rfl, nofun⟩

theorem sent_bare_retry {r : Retry} {cap : Nat} {s : Sent}
    (member : s ∈ ((encodeRetry r cap).map fun bytes => (⟨bytes, none⟩ : Sent)).toList) :
    s.Bare := by
  rw [Option.mem_toList] at member
  obtain ⟨bytes, hencoded, hsent⟩ := Option.map_eq_some_iff.mp member
  rw [← hsent]
  refine ⟨rfl, fun type peeked => Or.inl ?_⟩
  have hpeek := peekMsgType_of_checkOuter (checkOuter_retry r [])
  rw [List.append_nil, ← emit_eq_some hencoded] at hpeek
  exact Option.some.inj (peeked.symm.trans hpeek)

theorem sent_bare_close {works : Bool} {lane nonce : Nat} {reason : UInt8} {s : Sent}
    (member : s ∈ (sendStreamClose none works lane nonce reason).1) : s.Bare := by
  obtain ⟨bodies, hemits, hbodies, _⟩ := sendStreamClose_emits none works lane nonce reason
  obtain ⟨i, body, hbody, hsigns⟩ := hemits.each s member
  refine ⟨hsigns.carried, fun type peeked => Or.inr ?_⟩
  obtain ⟨rest, hbytes⟩ := hsigns.bytes
  rw [hbytes, hbodies body (List.mem_of_getElem? hbody)] at peeked
  exact (Option.some.inj peeked).symm

namespace RecvLane

inductive Says (cfg : RxConfig) (L : RecvLane) : List UInt8 → Prop where
  | ack : Says cfg L (ackBytes (L.ackMessage cfg))
  | nack (nowNs reorderNs renackNs : Nat) :
      Says cfg L (nackBytes (L.rx.collectNacks nowNs reorderNs renackNs).2)
  | aside (body : List UInt8) (aside : Aside body) : Says cfg L body

inductive Replied (cfg : RxConfig) (lane : Nat) (L : RecvLane) (sh' : Shared) (L' : RecvLane)
    (sent : List Sent) : Prop where
  | spoke (bodies : List (List UInt8)) (signed : List Sent)
      (emits : Emits L.signer L'.signer bodies signed) (said : ∀ body ∈ bodies, L.Says cfg body)
      (few : bodies.length ≤ 8)
      (among : ∀ s ∈ sent, s ∈ signed ∨ s ∈ L.resumeAnswer ∨ s.Bare)
      (kept : L'.resumeAnswer = L.resumeAnswer)
  | joined (dg : List UInt8) (ss : StreamStart) (derives : Bool)
      (keys : Option (List UInt8) × Option Signer) (bodies : List (List UInt8)) (signed : List Sent)
      (before : L.haveStart = false) (started : L'.haveStart = true)
      (decoded : decodeStreamStart dg = some ss)
      (authentic : trial cfg.keyed lane ss dg derives = some keys)
      (emits : Emits keys.2 L'.signer bodies signed)
      (parts : ∀ body ∈ bodies,
        ∃ rr ∈ Transfer.resumeAnswer lane L'.peerNonce sh'.sink.resumed L'.log.want,
          body = resumeRangesBytes rr)
      (few : bodies.length ≤
        (Transfer.resumeAnswer lane L'.peerNonce sh'.sink.resumed L'.log.want).length)
      (among : ∀ s ∈ sent, s ∈ signed ∨ s.Bare) (answer : L'.resumeAnswer = sent)

section Functions

variable {cfg : RxConfig} {lane : Nat} {L : RecvLane} {sh : Shared}

/-- Up to its next signer a lane signs at most `limit` things, each of which it may say. -/
def Speaks (cfg : RxConfig) (L : RecvLane) (limit : Nat) (signer : Option Signer)
    (sent : List Sent) : Prop :=
  ∃ bodies, Emits L.signer signer bodies sent ∧ (∀ body ∈ bodies, L.Says cfg body) ∧
    bodies.length ≤ limit

variable {sh' : Shared} {L' : RecvLane} {sent : List Sent}

theorem Speaks.nothing (cfg : RxConfig) (L : RecvLane) (limit : Nat) :
    L.Speaks cfg limit L.signer [] :=
  ⟨[], Emits.nil _, List.forall_mem_nil _, Nat.zero_le _⟩

theorem Replied.speaks {limit : Nat} (speaks : L.Speaks cfg limit L'.signer sent)
    (few : limit ≤ 8) (kept : L'.resumeAnswer = L.resumeAnswer) :
    Replied cfg lane L sh' L' sent := by
  obtain ⟨bodies, hemits, hsaid, hfew⟩ := speaks
  exact .spoke bodies sent hemits hsaid (Nat.le_trans hfew few) (fun s member => Or.inl member) kept

/-- A step that signs nothing. -/
theorem Replied.unsigned (signer : L'.signer = L.signer) (kept : L'.resumeAnswer = L.resumeAnswer)
    (among : ∀ s ∈ sent, s ∈ L.resumeAnswer ∨ s.Bare) : Replied cfg lane L sh' L' sent :=
  .spoke [] [] (by rw [signer]; exact Emits.nil _) (List.forall_mem_nil _) (Nat.zero_le _)
    (fun s member => Or.inr (among s member)) kept

theorem Replied.silent (signer : L'.signer = L.signer) (kept : L'.resumeAnswer = L.resumeAnswer) :
    Replied cfg lane L sh' L' [] :=
  .unsigned signer kept (List.forall_mem_nil _)

theorem Opened.replied {inp : Inputs} {dg : List UInt8} {ss : StreamStart}
    {out : Shared × RecvLane × List Sent} (opened : Opened cfg lane sh L inp dg ss out)
    (decoded : decodeStreamStart dg = some ss) : Replied cfg lane L out.1 out.2.1 out.2.2 := by
  cases opened with
  | retry sent answer =>
    have hbare : ∀ s ∈ sent, s.Bare := by
      rw [answer]
      exact fun s member => sent_bare_retry member
    exact Replied.unsigned rfl rfl fun s member => Or.inr (hbare s member)
  | repeated => exact Replied.unsigned rfl rfl fun s member => Or.inl member
  | ignored => exact Replied.silent rfl rfl
  | refused sent reply =>
    exact Replied.unsigned rfl rfl fun s member => Or.inr (sent_bare_close (reply s member))
  | unprepared => exact Replied.silent rfl rfl
  | joined keys claimed before authentic =>
    obtain ⟨bodies, signed, hemits, hparts, hfew, hsent⟩ := encodeResumeAnswer_emits keys.2 inp.works lane
      ss.nonce claimed.sink.resumed (wanted claimed.sink ss.streamBaseOffset ss.totalBytes)
    refine Replied.joined dg ss inp.derives keys bodies signed before rfl decoded authentic hemits
      hparts hfew (fun s member => ?_) rfl
    rcases hsent s member with hsigned | rfl
    · exact Or.inl hsigned
    · exact Or.inr sent_bare_nil

theorem Handled.replied {inp : Inputs} {dg : List UInt8} {out : Shared × RecvLane × List Sent}
    (running : L.status = none) (handled : Handled cfg lane sh L inp dg out) :
    Replied cfg lane L out.1 out.2.1 out.2.2 := by
  cases handled with
  | ignored => exact Replied.silent rfl rfl
  | streamStart ss peeked decoded =>
    exact (onStreamStart_opened cfg lane sh L inp dg ss running).replied decoded
  | streamClose sc =>
    have hsame := (onStreamClose_untouched L cfg dg sc).1
    refine Replied.silent ?_ (by rw [hsame.rest])
    unfold onStreamClose
    split
    · split
      · rfl
      · split <;> rfl
    · split <;> rfl
  | pathProbe type pp =>
    unfold onPathProbe
    split
    · exact Replied.silent rfl rfl
    · split
      · obtain ⟨bodies, hemits, hbodies, hfew⟩ := sendPathProbe_emits L.signer (inp.works 0) .pathResponse
          lane L.peerNonce pp.challenge
        refine Replied.speaks ⟨bodies, hemits, fun body member => ?_, hfew⟩ (by decide) rfl
        obtain ⟨hkind, hbody⟩ := hbodies body member
        rw [hbody]
        exact .aside _ (aside_pathProbe hkind _)
      · exact Replied.silent rfl rfl
  | fileDigest dm =>
    unfold onFileDigest
    split
    · exact Replied.silent rfl rfl
    · obtain ⟨bodies, hemits, hbodies, hfew⟩ := sealCtl_emits L.signer (inp.works 0)
        (encodeDigest dm (kMaxAuxDatagramSize + 64)) (kMaxAuxDatagramSize + 64)
      refine Replied.speaks ⟨bodies, hemits, fun body member => ?_, hfew⟩ (by decide) rfl
      rw [emit_eq_some (hbodies body member)]
      exact .aside _ (aside_digest dm)
  | block d next _ _ _ _ handed =>
    unfold dispatch at handed
    split at handed
    · rw [← Option.some.inj handed]
      exact Replied.silent rfl rfl
    · cases handed

theorem sendAck_emits (cfg : RxConfig) (works : Bool) (L : RecvLane) :
    L.Speaks cfg 1 (sendAck cfg works L).1.signer (sendAck cfg works L).2 := by
  obtain ⟨bodies, hemits, hbodies, hfew⟩ := sealCtl_emits L.signer works
    (encodeAck (L.ackMessage cfg) (kMaxAuxDatagramSize + 64)) (kMaxAuxDatagramSize + 64)
  unfold sendAck
  generalize sealCtl L.signer works _ _ = out at hemits ⊢
  refine ⟨bodies, hemits, fun body member => ?_, hfew⟩
  rw [emit_eq_some (hbodies body member)]
  exact .ack

/-- Asking the rings a second time finds nothing new. -/
theorem writable_surveyed (cfg : RxConfig) (L : RecvLane) {k : Nat} (inside : k < cfg.writers) :
    (L.surveyed cfg).writable cfg k = L.writable cfg k := by
  have hlag : (L.surveyed cfg).lag k = L.lagSeen cfg k := if_pos inside
  have hseen : (L.surveyed cfg).lagSeen cfg k = L.lagSeen cfg k := by
    rw [lagSeen, hlag]
    split
    · rename_i hfull
      unfold lagSeen at hfull ⊢
      split
      · rfl
      · rename_i hlooks
        rw [if_neg hlooks] at hfull
        exact absurd hfull hlooks
    · rfl
  rw [writable, hseen]
  rfl

theorem receiveWindow_surveyed (cfg : RxConfig) (L : RecvLane) :
    (L.surveyed cfg).receiveWindow cfg = L.receiveWindow cfg := by
  have hsame : (List.range cfg.writers).map ((L.surveyed cfg).writable cfg) =
      (List.range cfg.writers).map (L.writable cfg) :=
    List.map_congr_left fun _ member => writable_surveyed cfg L (List.mem_range.mp member)
  rw [receiveWindow, hsame]
  rfl

/-- An acknowledgement sent again says the same. -/
theorem ackMessage_sendAck (cfg : RxConfig) (works : Bool) (L : RecvLane) :
    (L.sendAck cfg works).1.ackMessage cfg = L.ackMessage cfg := by
  unfold sendAck
  generalize sealCtl L.signer works _ _ = out
  change { L.rx.buildAck with
    nonce := L.peerNonce, rwnd := (L.surveyed cfg).receiveWindow cfg } = L.ackMessage cfg
  rw [receiveWindow_surveyed]
  rfl

theorem sendAcks_emits (cfg : RxConfig) (works : Nat → Bool) (count : Nat) (L : RecvLane) :
    L.Speaks cfg count (sendAcks cfg works count L).1.signer (sendAcks cfg works count L).2 := by
  induction count generalizing L with
  | zero => exact Speaks.nothing cfg L 0
  | succ count ih =>
    obtain ⟨first, hfirst, hsays, hone⟩ := sendAck_emits cfg (works count) L
    obtain ⟨later, hlater, hmore, hfew⟩ := ih (L.sendAck cfg (works count)).1
    refine ⟨first ++ later, hfirst.append hlater, fun body member => ?_, ?_⟩
    rcases List.mem_append.mp member with hhere | hrest
    · exact hsays body hhere
    · cases hmore body hrest with
      | ack =>
        rw [ackMessage_sendAck]
        exact .ack
      | nack nowNs reorderNs renackNs => exact .nack nowNs reorderNs renackNs
      | aside body aside => exact .aside body aside
    · rw [List.length_append]
      omega

theorem sendNack_emits (cfg : RxConfig) (works : Bool) (nowNs reorderNs renackNs : Nat)
    (L : RecvLane) :
    L.Speaks cfg 1 (sendNack works nowNs reorderNs renackNs L).1.signer
      (sendNack works nowNs reorderNs renackNs L).2 := by
  unfold sendNack
  dsimp only
  split
  · exact Speaks.nothing cfg L 1
  · obtain ⟨bodies, hemits, hbodies, hfew⟩ := sealCtl_emits L.signer works
      (encodeNack (L.rx.collectNacks nowNs reorderNs renackNs).2 (kMaxAuxDatagramSize + 64))
      (kMaxAuxDatagramSize + 64)
    refine ⟨bodies, hemits, fun body member => ?_, hfew⟩
    rw [encodeNack_eq_some (hbodies body member)]
    exact .nack nowNs reorderNs renackNs

theorem giveUp_emits (cfg : RxConfig) (lane : Nat) (works : Bool) (why : Leave) (L : RecvLane) :
    L.Speaks cfg 1 (giveUp lane works why L).1.signer (giveUp lane works why L).2 := by
  unfold giveUp
  split
  · obtain ⟨bodies, hemits, hbodies, hfew⟩ := sendStreamClose_emits L.signer works lane L.peerNonce
      kStreamCloseAborted
    refine ⟨bodies, hemits, fun body member => ?_, hfew⟩
    rw [hbodies body member]
    exact .aside _ (aside_streamClose _)
  · exact Speaks.nothing cfg L 1

theorem probePath_emits (cfg : RxConfig) (lane : Nat) (works : Bool) (challenge : Nat)
    (L : RecvLane) :
    L.Speaks cfg 1 (probePath lane works challenge L).1.signer
      (probePath lane works challenge L).2 := by
  obtain ⟨bodies, hemits, hbodies, hfew⟩ := sendPathProbe_emits L.signer works .pathChallenge lane
    L.peerNonce challenge
  refine ⟨bodies, hemits, fun body member => ?_, hfew⟩
  obtain ⟨hkind, hbody⟩ := hbodies body member
  rw [hbody]
  exact .aside _ (aside_pathProbe hkind _)

theorem drainResults_signer (L : RecvLane) (nowNs k count : Nat) :
    (L.drainResults nowNs k count).signer = L.signer ∧
      (L.drainResults nowNs k count).resumeAnswer = L.resumeAnswer := by
  have hstep : ∀ M M' c rest, M.signer = L.signer ∧ M.resumeAnswer = L.resumeAnswer →
      M.dones k = c :: rest → Taken k nowNs c rest M M' →
      M'.signer = L.signer ∧ M'.resumeAnswer = L.resumeAnswer := by
    intro M M' c rest kept _ taken
    rw [taken.rest]
    exact kept
  exact drainResults_induction hstep count ⟨rfl, rfl⟩

end Functions

end RecvLane

/-! ## The call -/

namespace RxState

variable {cfg : RxConfig} {st st' : RxState} {sent : List Sent}

theorem onLane_replied {lane limit : Nat} {guard : Bool}
    {change : RecvLane → RecvLane × List Sent} (done : st.onLane cfg lane guard change = some (st', sent))
    (speaks : (st.lanes lane).Speaks cfg limit (change (st.lanes lane)).1.signer
      (change (st.lanes lane)).2) (few : limit ≤ 8)
    (kept : (change (st.lanes lane)).1.resumeAnswer = (st.lanes lane).resumeAnswer) :
    RecvLane.Replied cfg lane (st.lanes lane) st'.shared (st'.lanes lane) sent := by
  obtain ⟨_, _, hstate, hsent⟩ := onLane_some done
  rw [hstate, setLane_self, hsent]
  exact .speaks speaks few kept

/-- Everything a step of the call puts on the wire. -/
theorem act_replied {e : RxEvent} (acted : st.act cfg e = some (st', sent)) :
    RecvLane.Replied cfg e.lane (st.lanes e.lane) st'.shared (st'.lanes e.lane) sent := by
  cases e with
  | datagram lane inp dg =>
    obtain ⟨hreading, acted⟩ := Option.ite_none_right_eq_some.mp acted
    obtain ⟨out, hout, hnext⟩ := Option.map_eq_some_iff.mp acted
    obtain ⟨_, hrunning⟩ := reading_some hreading
    obtain ⟨hstate, hsent⟩ := Prod.mk.inj hnext
    rw [← hstate, ← hsent]
    change RecvLane.Replied cfg lane (st.lanes lane) out.1 ((st.setLane lane out.2.1).lanes lane) _
    rw [setLane_self]
    exact (RecvLane.onDatagram_handled cfg lane st.shared _ hout).replied hrunning
  | consumer lane k count failsAfter =>
    rw [act] at acted
    split at acted
    · obtain ⟨hstate, hsent⟩ := Prod.mk.inj (Option.some.inj acted)
      rw [← hstate, ← hsent]
      change RecvLane.Replied cfg lane (st.lanes lane) _ ((st.setLane lane _).lanes lane) _
      rw [setLane_self]
      exact .silent rfl rfl
    · cases acted
  | results lane k count nowNs =>
    rw [act] at acted
    obtain ⟨hsigner, hkept⟩ := RecvLane.drainResults_signer (st.lanes lane) nowNs k count
    have hnone := RecvLane.Speaks.nothing cfg (st.lanes lane) 0
    rw [← hsigner] at hnone
    exact onLane_replied acted hnone (Nat.zero_le 8) hkept
  | window lane =>
    rw [act] at acted
    exact onLane_replied acted (RecvLane.Speaks.nothing cfg _ 0) (Nat.zero_le 8) rfl
  | ack lane works =>
    exact onLane_replied acted (RecvLane.sendAck_emits cfg works _) (by decide) rfl
  | nack lane works nowNs reorderNs renackNs =>
    refine onLane_replied acted (RecvLane.sendNack_emits cfg works nowNs reorderNs renackNs _) (by decide) ?_
    rw [(RecvLane.sendNack_untouched _ works nowNs reorderNs renackNs).1.rest]
  | probe lane works challenge =>
    exact onLane_replied acted (RecvLane.probePath_emits cfg lane works challenge _) (by decide) rfl
  | giveUp lane works why =>
    refine onLane_replied acted (RecvLane.giveUp_emits cfg lane works why _) (by decide) ?_
    rw [(RecvLane.giveUp_untouched _ lane works why).1.rest]
  | aborted lane =>
    rw [act] at acted
    exact onLane_replied acted (RecvLane.Speaks.nothing cfg _ 0) (Nat.zero_le 8) rfl
  | complete lane works =>
    refine onLane_replied acted (RecvLane.sendAcks_emits cfg works _ _) ?_ ?_
    · split
      · exact Nat.zero_le 8
      · exact Nat.le_refl 8
    · rw [(RecvLane.finishLane_untouched _ cfg works).1.rest]
  | finish verifies commits =>
    rw [act] at acted
    split at acted
    · obtain ⟨hstate, hsent⟩ := Prod.mk.inj (Option.some.inj acted)
      rw [← hstate, ← hsent]
      exact .silent rfl rfl
    · cases acted

end RxState

end FuseTransport.Transfer
