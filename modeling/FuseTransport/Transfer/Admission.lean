import FuseTransport.Transfer.Ledger

/-!
# Written once, admitted only after writing

A written block is always accepted, and the window never names a block that was not
authentic and dealt with by the sink.  The copy into a slot, on the other hand, is
not bounded by the checks in front of it.
-/

namespace FuseTransport.Transfer

open Foundation Foundation.Channels Foundation.Runs Proto

/-! ## What an acknowledgement stands for -/

/-- A block reported as written was authentic, and is written when there is
something to write and it lies in the lane. -/
theorem examine_written {opens : DataDatagram → Option (List UInt8)} {s : PacketSlot}
    (written : (examine opens s).completion.result = .written) :
    ∃ d body, decodeDataDatagram s.dg = some d ∧ opens d = some body ∧
      (examine opens s).body =
        (if 0 < body.length ∧ d.hdr.offset ≤ s.laneTotal ∧
          body.length ≤ s.laneTotal - d.hdr.offset then body else []) ∧
      ((examine opens s).body ≠ [] → (examine opens s).off = s.laneBase + d.hdr.offset) := by
  unfold examine at written ⊢
  split
  · rename_i hdecode
    rw [hdecode] at written
    cases written
  · rename_i d hdecode
    rw [hdecode] at written
    cases hopen : opens d with
    | none =>
      simp only [hopen] at written
      cases written
    | some body =>
      refine ⟨d, body, hdecode, hopen, ?_⟩
      dsimp only
      split
      · exact ⟨rfl, fun _ => rfl⟩
      · exact ⟨rfl, fun something => absurd rfl something⟩

variable {c : Completion}

theorem Reports.of_written {item : Item} (reports : Reports item c)
    (written : c.result = .written) : c = item.completion := by
  cases reports with
  | examined => rfl
  | ioFailed => cases written

/-- The writes of one block are those of its reports. -/
theorem filter_writes (lane s : Nat) (reported : List (Item × Completion)) :
    (reported.filterMap (writeOf lane)).filter (fun w => w.seq = s) =
      (reported.filter fun r => RecvLane.writtenAs s r.2).filterMap (writeOf lane) := by
  rw [List.filter_filterMap, List.filterMap_filter]
  refine List.filterMap_congr fun r _ => ?_
  unfold writeOf RecvLane.writtenAs
  by_cases hresult : r.2.result = .written
  · by_cases hseq : r.2.seq = s
    · by_cases hbody : r.1.body = []
      · simp [hbody]
      · simp [hresult, hseq, hbody]
    · by_cases hbody : r.1.body = []
      · simp [hbody]
      · simp [hseq]
  · simp [hresult]

namespace RecvLane

/-- A consumer handled the block with this number, found it authentic and reported it;
its payload is in the sink's writes once when it has one that lies in the lane, and
not at all otherwise. -/
def DealtWith (cfg : RxConfig) (lane : Nat) (sh : Shared) (L : RecvLane) (s : Nat) : Prop :=
  ∃ h ∈ L.log.handled, h.2.result = .written ∧ ∃ d body,
    decodeDataDatagram h.1.dg = some d ∧ d.hdr.seqNo = s ∧
    L.opens cfg.keyed lane d = some body ∧
    (sh.writes.filter fun w => w.lane = lane && w.seq = s) =
      if 0 < body.length ∧ d.hdr.offset ≤ L.shardBytes ∧
          body.length ≤ L.shardBytes - d.hdr.offset then
        [⟨lane, s, L.laneBase + d.hdr.offset, body⟩]
      else []

section Accounts

variable {cfg : RxConfig} {lane : Nat} {sh : Shared} {L : RecvLane}

theorem untaken_inFlight (member : c ∈ L.untaken cfg) : c.seq ∈ L.inFlight cfg := by
  obtain ⟨k, hk, hdone⟩ := mem_contents.mp member
  exact mem_contents.mpr ⟨k, hk, List.mem_append_right _ (List.mem_map_of_mem hdone)⟩

/-- A verdict the reader has not taken is about a block it has not accepted. -/
theorem Inv.untaken_missing (holds : L.Inv cfg lane sh) (member : c ∈ L.untaken cfg) :
    ¬ L.rx.Accepted c.seq :=
  holds.handout.missing _ (untaken_inFlight member)

/-- Among everything reported, one verdict belongs to an accepted block. -/
theorem Inv.handled_once (holds : L.Inv cfg lane sh) {s : Nat} (accepted : L.rx.Accepted s) :
    ∃ h, L.log.handled.filter (fun h => writtenAs s h.2) = [h] := by
  have hcount := holds.ledger.reported.countP_eq (writtenAs s)
  have hnone : (L.untaken cfg).countP (writtenAs s) = 0 := by
    refine List.countP_eq_zero.mpr fun c member hwas => ?_
    have hseq : c.seq = s := of_decide_eq_true (Bool.and_eq_true_iff.mp hwas).2
    exact holds.untaken_missing member (hseq ▸ accepted)
  rw [List.countP_append, holds.ledger.accepted s, if_pos accepted, hnone, List.countP_map,
    List.countP_eq_length_filter] at hcount
  exact List.length_eq_one_iff.mp hcount

theorem Inv.dealtWith (holds : L.Inv cfg lane sh) {s : Nat} (accepted : L.rx.Accepted s) :
    L.DealtWith cfg lane sh s := by
  obtain ⟨h, hfilter⟩ := holds.handled_once accepted
  have hmember : h ∈ L.log.handled.filter fun h => writtenAs s h.2 := by
    rw [hfilter]
    exact List.mem_singleton_self h
  obtain ⟨hhandled, hwas⟩ := List.mem_filter.mp hmember
  obtain ⟨hresult, hseq⟩ := Bool.and_eq_true_iff.mp hwas
  have hwritten : h.2.result = .written := of_decide_eq_true hresult
  have hreport := (holds.ledger.handled h hhandled).of_written hwritten
  have hitem : (examine (L.opens cfg.keyed lane) h.1).completion.result = .written := by
    rw [← hwritten, hreport]
    rfl
  obtain ⟨d, body, hdecode, hopen, hbody, hoff⟩ := examine_written hitem
  obtain ⟨hbase, htotal⟩ := holds.ledger.placed h.1
    (List.mem_append_right _ (List.mem_map_of_mem hhandled))
  have hnumber : d.hdr.seqNo = s := by
    rw [← of_decide_eq_true hseq, hreport]
    change _ = (examine (L.opens cfg.keyed lane) h.1).completion.seq
    rw [examine_seq, slotSeq, hdecode]
    rfl
  refine ⟨h, hhandled, hwritten, d, body, hdecode, hnumber, hopen, ?_⟩
  have hwrites : (sh.writes.filter fun w => w.lane = lane && w.seq = s) =
      [L.examined cfg lane h].filterMap (writeOf lane) := by
    rw [← List.filter_filter]
    have hswap : (sh.writes.filter fun w => w.seq = s).filter (fun w => w.lane = lane) =
        (sh.writes.filter fun w => w.lane = lane).filter fun w => w.seq = s := by
      rw [List.filter_filter, List.filter_filter]
      exact List.filter_congr fun w _ => Bool.and_comm _ _
    rw [hswap, holds.ledger.writes, filter_writes, List.filter_map]
    change ((L.log.handled.filter fun h => writtenAs s h.2).map _).filterMap _ = _
    rw [hfilter]
    rfl
  rw [hwrites, ← htotal, ← hbase]
  by_cases hcond : 0 < body.length ∧ d.hdr.offset ≤ h.1.laneTotal ∧
      body.length ≤ h.1.laneTotal - d.hdr.offset
  · rw [if_pos hcond] at hbody ⊢
    have hsome : (examine (L.opens cfg.keyed lane) h.1).body ≠ [] := by
      rw [hbody]
      exact List.ne_nil_of_length_pos hcond.1
    have hone : writeOf lane (L.examined cfg lane h) =
        some ⟨lane, s, h.1.laneBase + d.hdr.offset, body⟩ := by
      rw [writeOf, if_pos ⟨hwritten, hsome⟩, ← of_decide_eq_true hseq, ← hbody, ← hoff hsome]
      rfl
    rw [List.filterMap_cons_some hone]
    rfl
  · rw [if_neg hcond] at hbody ⊢
    have hnone : writeOf lane (L.examined cfg lane h) = none := if_neg fun both => both.2 hbody
    rw [List.filterMap_cons_none hnone]
    rfl

/-- Over reported blocks, the bytes of the writes are the bytes counted. -/
theorem sum_writes {reported : List (Item × Completion)} (reports : ∀ r ∈ reported, Reports r.1 r.2)
    (counts : Nat → Bool) :
    (((reported.filterMap (writeOf lane)).filter fun w => counts w.seq).map
        fun w => w.body.length).sum =
      (((reported.map Prod.snd).filter fun c => c.result = .written && counts c.seq).map
        fun c => c.bytes).sum := by
  induction reported with
  | nil => rfl
  | cons r rest ih =>
    have hrest := ih fun other member => reports other (List.mem_cons_of_mem _ member)
    by_cases hwritten : r.2.result = .written
    · have hbytes : r.2.bytes = r.1.body.length := by
        rw [(reports r List.mem_cons_self).of_written hwritten]
        exact r.1.counted
      by_cases hbody : r.1.body = []
      · have hnone : writeOf lane r = none := if_neg fun both => both.2 hbody
        rw [hbody] at hbytes
        rw [List.filterMap_cons_none hnone, hrest, List.map_cons, List.filter_cons]
        split
        · rw [List.map_cons, hbytes]
          exact (Nat.zero_add _).symm
        · rfl
      · have hsome : writeOf lane r = some ⟨lane, r.2.seq, r.1.off, r.1.body⟩ :=
          if_pos ⟨hwritten, hbody⟩
        rw [List.filterMap_cons_some hsome, List.map_cons, List.filter_cons, List.filter_cons]
        simp only [hwritten, decide_true, Bool.true_and]
        split
        · rw [List.map_cons, List.map_cons, List.sum_cons, List.sum_cons, hrest, hbytes]
        · exact hrest
    · have hnone : writeOf lane r = none := if_neg fun both => hwritten both.1
      rw [List.filterMap_cons_none hnone, hrest]
      simp [hwritten]

/-- `written` counts the bytes of the accepted blocks. -/
theorem Inv.written_eq (holds : L.Inv cfg lane sh) :
    L.written = u64 (((sh.writes.filter fun w => w.lane = lane && L.rx.Accepted w.seq).map
      fun w => w.body.length).sum) := by
  have hreports : ∀ r ∈ L.log.handled.map (L.examined cfg lane), Reports r.1 r.2 := by
    intro r member
    obtain ⟨h, hmember, rfl⟩ := List.mem_map.mp member
    exact holds.ledger.handled h hmember
  have hsplit : (sh.writes.filter fun w => w.lane = lane && L.rx.Accepted w.seq) =
      (((L.log.handled.map (L.examined cfg lane)).filterMap (writeOf lane)).filter
        fun w => L.rx.Accepted w.seq) := by
    rw [← holds.ledger.writes, List.filter_filter]
    exact List.filter_congr fun w _ => Bool.and_comm _ _
  have hseconds : (L.log.handled.map (L.examined cfg lane)).map Prod.snd =
      L.log.handled.map Prod.snd := by
    rw [List.map_map]
    rfl
  have hsame : ((L.log.taken.map Prod.fst ++ L.untaken cfg).filter
      fun c => c.result = .written && L.rx.Accepted c.seq) =
      (L.log.taken.map Prod.fst).filter fun c => c.result = .written := by
    rw [List.filter_append]
    have hnone : ((L.untaken cfg).filter
        fun c => c.result = .written && L.rx.Accepted c.seq) = [] := by
      refine List.filter_eq_nil_iff.mpr fun c member => ?_
      simp [holds.untaken_missing member]
    rw [hnone, List.append_nil]
    refine List.filter_congr fun c member => ?_
    by_cases hwritten : c.result = .written
    · have haccepted : L.rx.Accepted c.seq := by
        by_contra hmissing
        have hcount := holds.ledger.accepted c.seq
        rw [if_neg hmissing] at hcount
        exact List.countP_eq_zero.mp hcount c member (by simp [writtenAs, hwritten])
      simp [haccepted]
    · simp [hwritten]
  rw [holds.ledger.written, hsplit, sum_writes hreports fun s => L.rx.Accepted s, hseconds, ← hsame]
  exact congrArg u64 ((((holds.ledger.reported.filter _).map _).sum_eq).symm)

end Accounts

end RecvLane

/-- In every state the receiving end can reach, whatever datagrams arrive and
however its threads interleave: no number is in two rings or twice in one, `pending`
counts the blocks handed out and not yet reported back, every written block is
accepted, every acknowledged block was authentic and its payload, if it has one
that lies in the lane, was written exactly once, and `written` is the sum of the
bytes so written. -/
theorem acknowledged_blocks_written_once {cfg : RxConfig} {sink : Sink} {st : RxState}
    (reached : Reachable (RxState.step cfg) (RxState.create sink) st) (lane : Nat) :
    ((st.lanes lane).inFlight cfg).Nodup ∧
    (st.lanes lane).pending = ((st.lanes lane).inFlight cfg).length ∧
    (∀ t ∈ (st.lanes lane).log.taken, t.1.result = .written → t.2 = some .accepted) ∧
    (∀ c ∈ (st.lanes lane).untaken cfg, c.result = .written → ∀ nowNs,
      ((st.lanes lane).rx.onReceive c.seq c.sendTime nowNs).2 = .accepted) ∧
    (∀ s, ((st.lanes lane).ackMessage cfg).Asserts s →
      (st.lanes lane).DealtWith cfg lane st.shared s) ∧
    (st.lanes lane).written = u64 (((st.shared.writes.filter fun w =>
      w.lane = lane && (st.lanes lane).rx.Accepted w.seq).map fun w => w.body.length).sum) := by
  have holds := RxState.reachable_inv reached lane
  refine ⟨holds.handout.once, holds.handout.counted, holds.ledger.answered, ?_, ?_,
    holds.written_eq⟩
  · intro c member _ nowNs
    have hout := RecvLane.untaken_inFlight member
    obtain ⟨after, hafter, _⟩ := ReceiverStream.onReceive_fresh holds.handout.receiver
      (holds.handout.bounded _ hout) (holds.handout.missing _ hout)
      (by rw [holds.handout.window]; exact holds.handout.below _ hout) c.sendTime nowNs
    rw [hafter]
  · intro s asserted
    exact holds.dealtWith (((st.lanes lane).rx.buildAck_asserts s).mp asserted)

def oneByteStart : List UInt8 :=
  streamStartBytes { totalBytes := 1, fileTotalBytes := 1, nonce := 7 }

/-- A block of one byte for a place in the lane. -/
def oneByteBlock (offset : Nat) : List UInt8 :=
  dataPrefix { payloadLen := 1, offset := offset } 1 ++ [9]

def oneBlockRun (offset : Nat) : List RxEvent :=
  [.datagram 0 {} oneByteStart, .datagram 0 {} (oneByteBlock offset),
    .consumer 0 0 1 fun _ => none, .results 0 0 1 1]

def oneLane : RxConfig := { lanes := 1 }

def memorySink : Sink := { kind := .memory }

theorem acknowledged_blocks_written_once_oneBlock :
    ∃ st, Reachable (RxState.step oneLane) (RxState.create memorySink) st ∧
      (st.lanes 0).rx.Accepted 0 ∧ (st.lanes 0).DealtWith oneLane 0 st.shared 0 := by
  obtain ⟨st, hreplay, haccepted⟩ : ∃ st,
      replay (RxState.step oneLane) (RxState.create memorySink) (oneBlockRun 0) = some st ∧
        (st.lanes 0).rx.Accepted 0 := by decide +kernel
  have hreached : Reachable (RxState.step oneLane) (RxState.create memorySink) st := ⟨_, hreplay⟩
  exact ⟨st, hreached, haccepted, (acknowledged_blocks_written_once hreached 0).2.2.2.2.1 0
    (((st.lanes 0).rx.buildAck_asserts 0).mpr haccepted)⟩

/-- A block that lies outside the lane is accepted, although none of its payload
reached the sink. -/
theorem stray_block_accepted_unwritten :
    ∃ st slot d, Reachable (RxState.step oneLane) (RxState.create memorySink) st ∧
      (st.lanes 0).rx.Accepted 0 ∧ slot ∈ (st.lanes 0).log.handled.map Prod.fst ∧
      decodeDataDatagram (PacketSlot.dg slot) = some d ∧ d.hdr.seqNo = 0 ∧ d.payload = [9] ∧
      st.shared.writes = [] := by
  obtain ⟨st, hreplay, haccepted, hwrites, hhandled⟩ : ∃ st,
      replay (RxState.step oneLane) (RxState.create memorySink) (oneBlockRun 5) = some st ∧
        (st.lanes 0).rx.Accepted 0 ∧ st.shared.writes = [] ∧
        (st.lanes 0).log.handled.map (fun h => h.1.dg) = [oneByteBlock 5] := by decide +kernel
  have hmember : oneByteBlock 5 ∈ (st.lanes 0).log.handled.map fun h => h.1.dg := by
    rw [hhandled]
    exact List.mem_singleton_self _
  obtain ⟨h, hh, hdg⟩ := List.mem_map.mp hmember
  refine ⟨st, h.1, ⟨{ payloadLen := 1, offset := 5 }, 1, [9]⟩, ⟨_, hreplay⟩,
    haccepted, List.mem_map_of_mem hh, ?_, rfl, rfl, hwrites⟩
  rw [hdg]
  decide +kernel

/-- A block that passes the reader's checks is copied inside its slot exactly when
the bytes behind its payload leave the datagram no longer than one with a full
payload. -/
theorem copy_fits_iff {cfg : RxConfig} {st : RxState} {lane : Nat} {dg : List UInt8}
    {d : DataDatagram} (reading : st.reading cfg lane = true)
    (passed : RecvLane.passes cfg (st.lanes lane) dg = some d) (inp : RecvLane.Inputs) :
    (dg.length ≤ kMaxDatagramSize ↔
      dg.length - (kDataPrefixSize + d.hdr.payloadLen) ≤ kMaxPayloadSize - d.hdr.payloadLen) ∧
    ((st.step cfg (.datagram lane inp dg)).isSome = true ↔
      dg.length - (kDataPrefixSize + d.hdr.payloadLen) ≤
        kMaxPayloadSize - d.hdr.payloadLen) := by
  obtain ⟨_, hdecoded, _⟩ := RecvLane.passes_some passed
  obtain ⟨houter, _, hsmall, hlong, _⟩ := decodeDataDatagram_some hdecoded
  have htype : peekMsgType dg = some .data := peekMsgType_of_checkOuter houter
  have hbound : dg.length ≤ kMaxDatagramSize ↔
      dg.length - (kDataPrefixSize + d.hdr.payloadLen) ≤
        kMaxPayloadSize - d.hdr.payloadLen := by
    unfold kMaxDatagramSize
    omega
  refine ⟨hbound, ?_⟩
  rw [← hbound]
  have hstep : (st.step cfg (.datagram lane inp dg)).isSome =
      (RecvLane.dispatch cfg (st.lanes lane) dg d).isSome := by
    simp [RxState.step, RxState.act, reading, RecvLane.onDatagram, htype, passed]
  rw [hstep]
  unfold RecvLane.dispatch
  split
  · rename_i hfits
    exact ⟨fun _ => hfits, fun _ => rfl⟩
  · rename_i hover
    exact ⟨fun impossible => absurd impossible (by simp), fun hfits => absurd hfits hover⟩

theorem copy_fits_iff_oneByteBlock :
    ∃ st, Reachable (RxState.step oneLane) (RxState.create memorySink) st ∧
      ((st.step oneLane (.datagram 0 {} (oneByteBlock 0))).isSome = true ↔
        (oneByteBlock 0).length - (kDataPrefixSize + 1) ≤ kMaxPayloadSize - 1) := by
  obtain ⟨st, hreplay, hreading, d, hd, hlen⟩ : ∃ st, replay (RxState.step oneLane)
      (RxState.create memorySink) [.datagram 0 {} oneByteStart] = some st ∧
        st.reading oneLane 0 = true ∧
        ∃ d, RecvLane.passes oneLane (st.lanes 0) (oneByteBlock 0) = some d ∧
          d.hdr.payloadLen = 1 := by decide +kernel
  refine ⟨st, ⟨_, hreplay⟩, ?_⟩
  rw [← hlen]
  exact (copy_fits_iff hreading hd {}).2

/-- A header that announces no payload, with one byte more behind it than a slot
has room for. -/
def overlongBlock : List UInt8 :=
  dataPrefix { payloadLen := 0 } 1 ++ [] ++ List.replicate (kMaxPayloadSize + 1) 0

/-- A lane that has just joined hands out a datagram longer than its slot. -/
theorem overlong_block_passes :
    ∃ st d, Reachable (RxState.step oneLane) (RxState.create memorySink) st ∧
      st.reading oneLane 0 = true ∧ overlongBlock.length ≤ kMaxDatagramSize + 64 ∧
      peekMsgType overlongBlock = some .data ∧
      RecvLane.passes oneLane (st.lanes 0) overlongBlock = some d ∧
      ¬ overlongBlock.length ≤ kMaxDatagramSize := by
  have hlength : overlongBlock.length = kMaxDatagramSize + 1 := by
    rw [overlongBlock, List.length_append,
      List.length_replicate]
    rfl
  have hdecoded : decodeDataDatagram overlongBlock = some ⟨{ payloadLen := 0 }, 1, []⟩ :=
    decodeDataDatagram_encode { payloadLen := 0 } ⟨by decide, by decide, by decide, by decide⟩
      (by decide) rfl _
  obtain ⟨st, hreplay, hreading, hstart, hchecks⟩ : ∃ st, replay (RxState.step oneLane)
      (RxState.create memorySink) [.datagram 0 {} oneByteStart] = some st ∧
        st.reading oneLane 0 = true ∧ (st.lanes 0).haveStart = true ∧
        RecvLane.dispatchable oneLane (st.lanes 0) ⟨{ payloadLen := 0 }, 1, []⟩ = true := by
    decide +kernel
  refine ⟨st, ⟨{ payloadLen := 0 }, 1, []⟩, ⟨_, hreplay⟩, hreading, ?_, ?_, ?_, ?_⟩
  · rw [hlength]
    decide
  · exact peekMsgType_of_checkOuter (decodeDataDatagram_some hdecoded).1
  · rw [RecvLane.passes, if_pos hstart, hdecoded, Option.filter_some, if_pos hchecks]
  · rw [hlength]
    exact Nat.not_succ_le_self _

end FuseTransport.Transfer
