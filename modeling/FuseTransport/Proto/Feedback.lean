import FuseTransport.Proto.Receiver
import FuseTransport.Proto.RoundTrip

/-!
# What a receiver reports

A receiver reports with ACKs and NACKs.  Both fit their wire fields, and a NACK
names only blocks below the highest block that has arrived.
-/

namespace FuseTransport.Proto.ReceiverStream

open Foundation.SetBits

/-- A receiver whose reports fit the wire and that has seen only blocks below
`limit`. -/
structure Reports (limit : Nat) (r : ReceiverStream) : Prop where
  streamId : r.streamId < 2 ^ 16
  baseSeqNo : r.baseSeqNo < 2 ^ 64
  lastSendTime : r.lastSendTime < 2 ^ 64
  highest : r.haveAny = true → r.highestReceived < limit

namespace Reports

variable {limit : Nat} {r : ReceiverStream}

theorem create {streamId : Nat} (fits : streamId < 2 ^ 16) (limit windowSize : Nat)
    (lossless : Bool) : Reports limit (ReceiverStream.create streamId windowSize lossless) where
  streamId := fits
  baseSeqNo := Nat.two_pow_pos 64
  lastSendTime := Nat.two_pow_pos 64
  highest := fun impossible => Bool.noConfusion impossible

theorem mono (reports : Reports limit r) {larger : Nat} (grows : limit ≤ larger) :
    Reports larger r :=
  { reports with highest := fun any => Nat.lt_of_lt_of_le (reports.highest any) grows }

theorem record (reports : Reports limit r) {seqNo sendTimeNs : Nat} (sent : seqNo < limit)
    (htime : sendTimeNs < 2 ^ 64) (nowNs : Nat) :
    Reports limit (r.record seqNo sendTimeNs nowNs) := by
  unfold ReceiverStream.record
  split
  · exact ⟨reports.streamId, reports.baseSeqNo, htime, fun _ => sent⟩
  · rename_i hold
    refine ⟨reports.streamId, reports.baseSeqNo, reports.lastSendTime, fun _ => ?_⟩
    apply reports.highest
    cases hany : r.haveAny with
    | true => rfl
    | false => exact (hold (Or.inl hany)).elim

theorem slideBase (fuel : Nat) (reports : Reports limit r) :
    Reports limit (ReceiverStream.slideBase fuel r) := by
  induction fuel generalizing r with
  | zero => exact reports
  | succ fuel ih =>
    rw [ReceiverStream.slideBase]
    split
    · exact ih ⟨reports.streamId, u64_lt _, reports.lastSendTime, reports.highest⟩
    · exact reports

/-- Receiving a block that was sent keeps the reports in range. -/
theorem onReceive (reports : Reports limit r) {seqNo sendTimeNs : Nat} (sent : seqNo < limit)
    (htime : sendTimeNs < 2 ^ 64) (nowNs : Nat) :
    Reports limit (r.onReceive seqNo sendTimeNs nowNs).1 := by
  unfold ReceiverStream.onReceive
  split
  · exact reports
  · split
    · exact ⟨reports.streamId, reports.baseSeqNo, reports.lastSendTime, reports.highest⟩
    · split
      · exact reports
      · exact (reports.record sent htime nowNs).slideBase kMaxWindow

theorem collectNacks (reports : Reports limit r) (nowNs reorderDelayNs renackIntervalNs : Nat) :
    Reports limit (r.collectNacks nowNs reorderDelayNs renackIntervalNs).1 := by
  obtain ⟨stamps, hframe⟩ := r.collectNacks_frame nowNs reorderDelayNs renackIntervalNs
  rw [hframe]
  exact ⟨reports.streamId, reports.baseSeqNo, reports.lastSendTime, reports.highest⟩

theorem buildAck_fits (reports : Reports limit r) : r.buildAck.Fits where
  streamId := reports.streamId
  baseSeqNo := reports.baseSeqNo
  echoedSendTime := reports.lastSendTime
  nonce := Nat.two_pow_pos 64
  rwnd := by
    change kRwndUnlimited < 2 ^ 32
    decide

end Reports

/-! ## The blocks a NACK names -/

theorem getLsbD_spanMask {span i : Nat} (inside : span < 63) :
    ((2#64 <<< span) - 1).getLsbD i = decide (i ≤ span) := by
  have hshift : 2#64 <<< span = 1#64 <<< (span + 1) := by
    rfl
  rw [hshift, getLsbD_lowMask (span + 1) i (Nat.succ_lt_succ inside)]
  exact decide_eq_decide.mpr Nat.lt_succ_iff

theorem missingInWord_le {r : ReceiverStream} {span w seq : Nat} (started : w * 64 ≤ span)
    (member : seq ∈ r.missingInWord span w) : seq ≤ r.baseSeqNo + span := by
  obtain ⟨b, hbit, hseq⟩ := List.mem_map.mp member
  rw [mem_setBits_iff] at hbit
  have hwidth : b < 64 := BitVec.lt_of_getLsbD hbit
  split at hbit
  · rename_i hshort
    rw [BitVec.getLsbD_and, Bool.and_eq_true, getLsbD_spanMask hshort, decide_eq_true_eq] at hbit
    omega
  · omega

theorem foldl_collectNack_names (nowNs reorderDelayNs renackIntervalNs : Nat) (seqs : List Nat)
    (acc : ReceiverStream × List Nat) (short : acc.2.length ≤ kMaxWindow) :
    (seqs.foldl (collectNack nowNs reorderDelayNs renackIntervalNs) acc).2.length ≤ kMaxWindow ∧
      ∀ seq ∈ (seqs.foldl (collectNack nowNs reorderDelayNs renackIntervalNs) acc).2,
        seq ∈ acc.2 ∨ seq ∈ seqs := by
  induction seqs generalizing acc with
  | nil => exact ⟨short, fun _ member => Or.inl member⟩
  | cons first rest ih =>
    have hone : (collectNack nowNs reorderDelayNs renackIntervalNs acc first).2.length ≤
        kMaxWindow ∧
        ∀ seq ∈ (collectNack nowNs reorderDelayNs renackIntervalNs acc first).2,
          seq ∈ acc.2 ∨ seq = first := by
      unfold collectNack
      dsimp only
      split
      · exact ⟨short, fun _ member => Or.inl member⟩
      · split
        · exact ⟨short, fun _ member => Or.inl member⟩
        · split
          · rename_i hroom
            refine ⟨?_, ?_⟩
            · rw [List.length_append]
              exact hroom
            · intro seq member
              rw [List.mem_append, List.mem_singleton] at member
              exact member
          · exact ⟨short, fun _ member => Or.inl member⟩
    obtain ⟨hlength, hnames⟩ := ih _ hone.1
    refine ⟨hlength, ?_⟩
    intro seq member
    rcases hnames seq member with hacc | hrest
    · rcases hone.2 seq hacc with hold | hfirst
      · exact Or.inl hold
      · exact Or.inr (hfirst ▸ List.mem_cons_self)
    · exact Or.inr (List.mem_cons_of_mem _ hrest)

/-- A NACK is short enough for one datagram and names only blocks up to the
highest that has arrived. -/
theorem collectNacks_names (r : ReceiverStream) (nowNs reorderDelayNs renackIntervalNs : Nat) :
    (r.collectNacks nowNs reorderDelayNs renackIntervalNs).2.missing.length ≤ kMaxWindow ∧
      ∀ seq ∈ (r.collectNacks nowNs reorderDelayNs renackIntervalNs).2.missing,
        r.haveAny = true ∧ seq ≤ r.highestReceived := by
  unfold collectNacks
  split
  · exact ⟨Nat.zero_le _, fun _ impossible => (List.not_mem_nil impossible).elim⟩
  · rename_i hgaps
    obtain ⟨hlength, hnames⟩ := foldl_collectNack_names nowNs reorderDelayNs renackIntervalNs
      (((List.range kMaskWords).takeWhile fun w =>
        decide (w * 64 ≤ r.highestReceived - r.baseSeqNo)).flatMap
        (r.missingInWord (r.highestReceived - r.baseSeqNo))) (r, []) (Nat.zero_le _)
    refine ⟨hlength, ?_⟩
    intro seq member
    rcases hnames seq member with impossible | hlisted
    · exact (List.not_mem_nil impossible).elim
    · obtain ⟨w, hword, hseq⟩ := List.mem_flatMap.mp hlisted
      have hstarted := List.mem_takeWhile_imp hword
      have hbound := missingInWord_le (of_decide_eq_true hstarted) hseq
      rw [not_or, not_or] at hgaps
      refine ⟨Bool.not_eq_false _ ▸ hgaps.2.1, ?_⟩
      omega

namespace Reports

variable {limit : Nat} {r : ReceiverStream}

/-- A NACK names only blocks below the limit. -/
theorem named (reports : Reports limit r) {nowNs reorderDelayNs renackIntervalNs seq : Nat}
    (member : seq ∈ (r.collectNacks nowNs reorderDelayNs renackIntervalNs).2.missing) :
    seq < limit := by
  obtain ⟨hany, hhighest⟩ :=
    (r.collectNacks_names nowNs reorderDelayNs renackIntervalNs).2 seq member
  exact Nat.lt_of_le_of_lt hhighest (reports.highest hany)

theorem collectNacks_fits (reports : Reports limit r) (word : limit ≤ 2 ^ 64)
    {streamId : Nat} (fits : streamId < 2 ^ 16) (nowNs reorderDelayNs renackIntervalNs : Nat) :
    Nack.Fits ⟨streamId, (r.collectNacks nowNs reorderDelayNs renackIntervalNs).2.missing⟩ where
  streamId := fits
  count := (r.collectNacks_names nowNs reorderDelayNs renackIntervalNs).1
  missing := fun _ member => Nat.lt_of_lt_of_le (reports.named member) word

end Reports

end FuseTransport.Proto.ReceiverStream
