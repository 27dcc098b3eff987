import FuseTransport.Transfer.Replies
import FuseTransport.Transfer.SendLane

/-!
# What one step of the sending end can do

Each step of a lane, inverted once: what it puts on the wire and what it does to the
lane's cursor, its registry and its handshake.
-/

namespace FuseTransport.Transfer

open Foundation Proto

namespace SendLane

/-! ## Steps -/

inductive Says (cfg : SendConfig) (lane : Nat) (L : SendLane) : List UInt8 → Prop where
  | start : Says cfg lane L (streamStartBytes (L.streamStart cfg lane))
  | aside (body : List UInt8) (aside : Aside body) : Says cfg lane L body

/-- A change that concerns neither the blocks nor the answer of the receiver. -/
structure Steady (L L' : SendLane) : Prop where
  rest : L' = { L with
    phase := L'.phase, digest := L'.digest, signer := L'.signer, status := L'.status }

def Drained (L : SendLane) : Prop := L.sentLast = true ∧ L.nextSeq ≤ L.base

/-- A step that sends only control messages. -/
structure Spoke (cfg : SendConfig) (lane : Nat) (L L' : SendLane) (sent : List Sent)
    (bodies : List (List UInt8)) (signed : List Sent) : Prop where
  steady : Steady L L'
  emits : Emits L.signer L'.signer bodies signed
  said : ∀ body ∈ bodies, L.Says cfg lane body
  few : bodies.length ≤ 1
  among : ∀ s ∈ sent, s ∈ signed ∨ L.digest = some s
  digest : ∀ s, L'.digest = some s → s ∈ signed ∨ L.digest = some s
  phase : L'.phase = L.phase ∨ (L'.phase = .digesting ∧ L.Drained)
  ok : L'.status = some .ok → L.Drained ∨ L.phase = .digesting

inductive Heard (cfg : SendConfig) (lane : Nat) (L : SendLane) (dg : List UInt8) :
    SendLane → Prop where
  | ignored : Heard cfg lane L dg L
  | refused : Heard cfg lane L dg { L with status := some .authFailed }
  | retry (r : Retry) (decoded : decodeRetry dg = some r) :
      Heard cfg lane L dg { L with token := r.token }
  | acked : Heard cfg lane L dg { L with acked := true }
  | part (rr : ResumeRanges) (decoded : decodeResumeRanges dg = some rr) :
      Heard cfg lane L dg (L.onResumeRanges rr)

inductive Moved (cfg : SendConfig) (lane : Nat) (L : SendLane) :
    TxEvent → SendLane → List Sent → Prop where
  | spoke (e : TxEvent) (L' : SendLane) (sent : List Sent) (bodies : List (List UInt8))
      (signed : List Sent) (spoke : Spoke cfg lane L L' sent bodies signed) : Moved cfg lane L e L' sent
  | heard (dg : List UInt8) (works : Nat → Bool) (wireNs : Nat) (told : SendLane)
      (waiting : L.phase = .handshake) (running : L.status = none) (heard : Heard cfg lane L dg told) :
      Moved cfg lane L (.receive dg works wireNs) (told.begin cfg lane) []
  | acked (dg : List UInt8) (works : Nat → Bool) (wireNs : Nat) (ack : Ack)
      (sending : L.phase = .sending) (running : L.status = none) (decoded : decodeAck dg = some ack) :
      Moved cfg lane L (.receive dg works wireNs) (L.onAck ack) []
  | nacked (dg : List UInt8) (works : Nat → Bool) (wireNs : Nat) (nack : Nack)
      (decoded : decodeNack dg = some nack) :
      Moved cfg lane L (.receive dg works wireNs) L (L.onNack cfg lane works wireNs nack)
  | timedOut (seqNo : Nat) (works : Bool) (wireNs : Nat) (sent : seqNo < L.nextSeq) :
      Moved cfg lane L (.retransmit seqNo works wireNs) L (L.resend cfg lane works wireNs seqNo)
  | block (block : Nat) (works : Bool) (nowNs wireNs cap : Nat) (sending : L.phase = .sending)
      (running : L.status = none) (pending : L.pending) (room : L.nextSeq < u64 (L.base + kWindow))
      (positive : 0 < block) (fits : block ≤ cfg.blockCeiling) :
      Moved cfg lane L (.sendBlock block works nowNs wireNs cap)
        (L.sendNext cfg lane block works nowNs wireNs cap).1
        (L.sendNext cfg lane block works nowNs wireNs cap).2

section Inversion

variable {cfg : SendConfig} {lane : Nat} {L L' : SendLane} {sent : List Sent}

variable (e : TxEvent) (works : Bool)

/-- A step that leaves the digest and the phase alone and does not succeed. -/
theorem Moved.said {bodies : List (List UInt8)} (steady : Steady L L')
    (emits : Emits L.signer L'.signer bodies sent) (said : ∀ body ∈ bodies, L.Says cfg lane body)
    (few : bodies.length ≤ 1)
    (digest : L'.digest = L.digest) (phase : L'.phase = L.phase)
    (failed : L'.status = some .ok → L.Drained ∨ L.phase = .digesting) :
    Moved cfg lane L e L' sent :=
  .spoke e L' sent bodies sent
    ⟨steady, emits, said, few, fun _ member => Or.inl member,
      fun _ found => Or.inr (digest.symm.trans found), Or.inl phase, failed⟩

theorem Moved.silent (steady : Steady L L') (signer : L'.signer = L.signer)
    (digest : L'.digest = L.digest) (phase : L'.phase = L.phase)
    (failed : L'.status ≠ some .ok) : Moved cfg lane L e L' [] := by
  have hnone : Emits L.signer L'.signer [] [] := by
    rw [signer]
    exact Emits.nil _
  exact Moved.said e steady hnone nofun (Nat.zero_le _) digest phase fun ok => absurd ok failed

theorem Moved.of_some {e : TxEvent} {out : SendLane × List Sent}
    (acted : some out = some (L', sent)) (moved : Moved cfg lane L e out.1 out.2) :
    Moved cfg lane L e L' sent := by
  rw [Option.some.inj acted] at moved
  exact moved

theorem Moved.of_guard {e : TxEvent} {guard : Prop} [Decidable guard] {out : SendLane × List Sent}
    (acted : (if guard then some out else none) = some (L', sent))
    (moved : guard → Moved cfg lane L e out.1 out.2) : Moved cfg lane L e L' sent := by
  obtain ⟨hguard, hout⟩ := Option.ite_none_right_eq_some.mp acted
  exact .of_some hout (moved hguard)

theorem Moved.same (running : L.status = none) : Moved cfg lane L e L [] :=
  Moved.silent e ⟨rfl⟩ rfl rfl rfl (by rw [running]; exact Option.some_ne_none _ ∘ Eq.symm)

theorem onHandshake_heard (L : SendLane) (dg : List UInt8) :
    Heard cfg lane L dg (L.onHandshake cfg lane dg) := by
  unfold onHandshake
  split
  · split
    · split
      · exact .refused
      · exact .ignored
    · exact .ignored
  · split
    · rename_i r hdecoded
      split
      · exact .retry r hdecoded
      · exact .ignored
    · exact .ignored
  · split
    · split
      · exact .acked
      · exact .ignored
    · exact .ignored
  · split
    · rename_i rr hdecoded
      split
      · exact .part rr hdecoded
      · exact .ignored
    · exact .ignored
  · exact .ignored

theorem onAborted_moved (sc : StreamClose) (running : L.status = none) :
    Moved cfg lane L e (L.onAborted cfg lane sc) [] := by
  unfold onAborted
  split
  · exact Moved.silent e ⟨rfl⟩ rfl rfl rfl (by simp)
  · exact Moved.same e running

theorem finish_moved (done : L.Drained ∨ L.phase = .digesting) :
    Moved cfg lane L e (L.finish cfg lane works).1 (L.finish cfg lane works).2 := by
  obtain ⟨bodies, hemits, hbodies, hfew⟩ := sendStreamClose_emits L.signer works lane (cfg.nonce lane)
    kStreamCloseFinished
  refine Moved.said e ⟨rfl⟩ hemits (fun body member => ?_) hfew rfl rfl fun _ => done
  rw [hbodies body member]
  exact .aside _ (aside_streamClose _)

theorem giveUp_moved (why : Quit) :
    Moved cfg lane L e (L.giveUp cfg lane works why).1 (L.giveUp cfg lane works why).2 := by
  obtain ⟨bodies, hemits, hbodies, hfew⟩ := sendStreamClose_emits L.signer works lane (cfg.nonce lane)
    kStreamCloseAborted
  refine Moved.said e ⟨rfl⟩ hemits (fun body member => ?_) hfew rfl rfl fun ok => ?_
  · rw [hbodies body member]
    exact .aside _ (aside_streamClose _)
  · cases why with
    | cancelled | stopped | timeout => cases ok

theorem sendPathProbe_moved (works : Bool) (type : MsgType) (challenge : Nat)
    (running : L.status = none) :
    Moved cfg lane L e
      { L with signer := (sendPathProbe L.signer works type lane (cfg.nonce lane) challenge).2 }
      (sendPathProbe L.signer works type lane (cfg.nonce lane) challenge).1 := by
  obtain ⟨bodies, hemits, hbodies, hfew⟩ := sendPathProbe_emits L.signer works type lane (cfg.nonce lane)
    challenge
  refine Moved.said e ⟨rfl⟩ hemits (fun body member => ?_) hfew rfl rfl fun ok => ?_
  · obtain ⟨hkind, hbody⟩ := hbodies body member
    rw [hbody]
    exact .aside _ (aside_pathProbe hkind _)
  · exact absurd (running.symm.trans ok) (Option.some_ne_none _).symm

theorem sendStart_moved (running : L.status = none) :
    Moved cfg lane L e (L.sendStart cfg lane works).1 (L.sendStart cfg lane works).2 := by
  obtain ⟨bodies, hemits, hbodies, hfew⟩ := sealCtl_emits L.signer works (encodeStreamStart
    (L.streamStart cfg lane) (kMaxAuxDatagramSize + 64)) (kMaxAuxDatagramSize + 64)
  unfold sendStart
  generalize sealCtl L.signer works _ _ = out at hemits ⊢
  refine Moved.said e ⟨rfl⟩ hemits (fun body member => ?_) hfew rfl rfl fun ok => ?_
  · have hencoded := hbodies body member
    rw [encodeStreamStart_eq_some hencoded]
    exact .start
  · exact absurd (running.symm.trans ok) (Option.some_ne_none _).symm

theorem leave_moved (running : L.status = none) (done : L.Drained) :
    Moved cfg lane L e (L.leave cfg lane works).1 (L.leave cfg lane works).2 := by
  unfold leave
  split
  · obtain ⟨bodies, hemits, hbodies, hfew⟩ := sealCtl_emits L.signer works (encodeDigest
      { streamId := lane, nonce := cfg.nonce lane, digest := cfg.digest } (kMaxDatagramSize + 64))
      (kMaxDatagramSize + 64)
    refine .spoke e _ [] bodies _ ⟨⟨rfl⟩, hemits, fun body member => ?_, hfew, nofun, fun s found => ?_,
      Or.inr ⟨rfl, done⟩, fun ok => ?_⟩
    · rw [emit_eq_some (hbodies body member)]
      exact .aside _ (aside_digest _)
    · exact Or.inl (Option.mem_toList.mpr found)
    · exact absurd (running.symm.trans ok) (Option.some_ne_none _).symm
  · exact finish_moved e works (Or.inl done)

theorem onFeedback_moved (dg : List UInt8) (works : Nat → Bool) (wireNs : Nat)
    (sending : L.phase = .sending) (running : L.status = none) :
    Moved cfg lane L (.receive dg works wireNs) (L.onFeedback cfg lane dg works wireNs).1
      (L.onFeedback cfg lane dg works wireNs).2 := by
  unfold onFeedback
  split
  · exact Moved.same _ running
  · split
    · split
      · rename_i ack hdecoded
        split
        · exact .acked dg works wireNs ack sending running hdecoded
        · exact Moved.same _ running
      · exact Moved.same _ running
    · split
      · rename_i nack hdecoded
        exact .nacked dg works wireNs nack hdecoded
      · exact Moved.same _ running
    · split
      · split
        · exact sendPathProbe_moved _ (works 0) .pathResponse _ running
        · exact Moved.same _ running
      · exact Moved.same _ running
    · split
      · exact onAborted_moved _ _ running
      · exact Moved.same _ running
    · exact Moved.same _ running

theorem onEcho_moved (dg : List UInt8) (works : Bool)
    (digesting : L.phase = .digesting) (running : L.status = none) :
    Moved cfg lane L e (L.onEcho cfg lane dg works).1 (L.onEcho cfg lane dg works).2 := by
  unfold onEcho
  split
  · exact Moved.same _ running
  · split
    · split
      · split
        · exact finish_moved e works (Or.inr digesting)
        · exact Moved.same _ running
      · exact Moved.same _ running
    · split
      · exact onAborted_moved _ _ running
      · exact Moved.same _ running
    · exact Moved.same _ running

theorem act_moved {e : TxEvent} (acted : L.act cfg lane e = some (L', sent)) :
    Moved cfg lane L e L' sent := by
  cases e with
  | sendStart works => exact .of_guard acted fun guard => sendStart_moved _ works guard.1
  | receive dg works wireNs =>
    obtain ⟨hrunning, hout⟩ := Option.ite_none_right_eq_some.mp acted
    split at hout <;> rename_i hphase <;> refine .of_some hout ?_
    · exact .heard dg works wireNs _ hphase hrunning (onHandshake_heard L dg)
    · exact onFeedback_moved dg works wireNs hphase hrunning
    · exact onEcho_moved _ dg (works 0) hphase hrunning
  | sendBlock block works nowNs wireNs cap =>
    refine .of_guard acted fun ⟨hrunning, hphase, hpending, hroom, hpositive, hfits⟩ => ?_
    exact .block block works nowNs wireNs cap hphase hrunning hpending hroom hpositive hfits
  | retransmit seqNo works wireNs =>
    exact .of_guard acted fun guard => .timedOut seqNo works wireNs guard.2.2.2.1
  | probe works challenge =>
    exact .of_guard acted fun guard =>
      sendPathProbe_moved _ works .pathChallenge challenge guard.1
  | leave works => exact .of_guard acted fun guard => leave_moved _ works guard.1 guard.2.2
  | sendDigest =>
    refine .of_guard acted fun guard => .spoke _ L _ [] [] ⟨⟨rfl⟩, Emits.nil _, nofun,
      Nat.zero_le _, fun s member => ?_, fun s found => Or.inr found, Or.inl rfl,
      fun ok => Or.inr guard.2⟩
    exact Or.inr (Option.mem_toList.mp member)
  | giveUp works why => exact .of_guard acted fun _ => giveUp_moved _ works why

end Inversion

end SendLane

end FuseTransport.Transfer
