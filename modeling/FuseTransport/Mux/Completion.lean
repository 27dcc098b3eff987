import FuseTransport.Mux.Receiver

/-!
# When the multiplexed receiver goes quiet

A stream that is done answers nothing any more, so the sender has to have been
told by then that the last block arrived.  That is so in every run in which a
completed stream is serviced only when an ACK is due, and in which no further
last block is accepted on a stream that is done.
-/

namespace FuseTransport.Mux

open Foundation Foundation.Runs Proto ReceiverStreamState

/-- Every stream that is done (and was not refused) has sent an ACK past its
last block, and no other ACK since. -/
def ToldBeforeQuiet (m : MuxReceiver) : Prop :=
  ∀ s ∈ m.streams, s.done = true → s.resourceLimit = false →
    ∃ ack, s.log.acks.head? = some ack ∧ s.finalSeq < ack.baseSeqNo

/-- The steps that keep to the cadence. -/
def Timely (m : MuxReceiver) : MuxReceiver.Event → Prop
  | .incoming dg _ _ =>
    ∀ data s, decodeDataDatagram dg = some data → m.streams[data.hdr.streamId]? = some s →
      s.rx.fresh data.hdr.seqNo = true →
        data.hdr.seqNo ≠ kNoFinalSeq ∧ (s.done = true → isLastBlock data.hdr.flags = false)
  | .service stream nowNs =>
    ∀ s, m.streams[stream]? = some s → s.done = false → s.complete = true →
      s.ackDue nowNs = true
  | .finish => True

structure Settled (s : ReceiverStreamState) : Prop where
  rx : s.rx.Inv
  told : s.done = true → s.resourceLimit = false →
    s.haveStart = true ∧ s.finalSeq < s.rx.baseSeqNo ∧
      ∃ ack, s.log.acks.head? = some ack ∧ s.finalSeq < ack.baseSeqNo

/-- An entry of a list in which one entry was changed. -/
theorem getElem?_modify_cases {α : Type} {items : List α} {i j : Nat} {f : α → α} {item : α}
    (found : (items.modify i f)[j]? = some item) :
    ∃ earlier, items[j]? = some earlier ∧ (item = earlier ∨ (i = j ∧ item = f earlier)) := by
  rw [List.getElem?_modify] at found
  obtain ⟨earlier, hearlier, hitem⟩ := Option.map_eq_some_iff.mp found
  refine ⟨earlier, hearlier, ?_⟩
  split at hitem
  · rename_i hsame
    exact Or.inr ⟨hsame, hitem.symm⟩
  · exact Or.inl hitem.symm

theorem forall_mem_modify {α : Type} {Keeps : α → Prop} {items : List α} {i : Nat} {f : α → α}
    (keeps : ∀ item ∈ items, Keeps item)
    (changed : ∀ item, items[i]? = some item → Keeps item → Keeps (f item)) :
    ∀ item ∈ items.modify i f, Keeps item := by
  intro item member
  obtain ⟨j, found⟩ := List.mem_iff_getElem?.mp member
  obtain ⟨earlier, hearlier, rfl | ⟨rfl, rfl⟩⟩ := getElem?_modify_cases found
  · exact keeps item (List.mem_of_getElem? hearlier)
  · exact changed earlier hearlier (keeps earlier (List.mem_of_getElem? hearlier))

theorem create_settled (streamId windowSize nowNs : Nat) :
    Settled (create streamId windowSize nowNs) :=
  ⟨ReceiverStream.create_inv streamId windowSize true, fun impossible => by cases impossible⟩

variable {s : ReceiverStreamState}

theorem onStreamStart_settled (settled : Settled s) (ss : StreamStart) (allocated : Bool) :
    Settled (s.onStreamStart ss allocated) := by
  unfold onStreamStart
  split
  · exact settled
  · rename_i hfirst
    split
    · exact ⟨settled.rx, fun _ impossible => by cases impossible⟩
    · refine ⟨settled.rx, fun hdone hlimit => ?_⟩
      exact (hfirst (settled.told hdone hlimit).1).elim

/-- Sending NACKs leaves the window's base and the sent ACKs alone. -/
theorem sendNacks_frame (s : ReceiverStreamState) (nowNs : Nat) :
    ∃ stamps sentNs nacks, (s.sendNacks nowNs).1 =
      { s with
        rx := { s.rx with lastNackNs := stamps }
        nackSentNs := sentNs
        log := { s.log with nacks := nacks } } := by
  obtain ⟨stamps, hstamps⟩ := s.rx.collectNacks_frame nowNs s.reorderNs s.renackNs
  unfold sendNacks
  dsimp only
  rw [hstamps]
  split <;> exact ⟨stamps, _, _, rfl⟩

theorem tryServiceOne_settled (settled : Settled s) (nowNs : Nat)
    (timely : s.done = false → s.complete = true → s.ackDue nowNs = true) :
    Settled (s.tryServiceOne nowNs).1 := by
  unfold tryServiceOne
  split
  · exact settled
  · rename_i hopen
    rw [Bool.or_eq_true, not_or, Bool.not_eq_true, Bool.not_eq_true', Bool.not_eq_false] at hopen
    obtain ⟨hdone, hstart⟩ := hopen
    dsimp only
    by_cases hdue : s.ackDue nowNs = true
    · rw [if_pos hdue]
      obtain ⟨stamps, sentNs, nacks, hframe⟩ := sendNacks_frame (s.sendAck nowNs) nowNs
      rw [hframe]
      split
      · rename_i hcomplete
        refine ⟨⟨settled.rx.confined, settled.rx.base_lt⟩, fun _ _ => ?_⟩
        rw [complete, Bool.and_eq_true, decide_eq_true_eq] at hcomplete
        exact ⟨hstart, hcomplete.2, s.currentAck, rfl, hcomplete.2⟩
      · refine ⟨⟨settled.rx.confined, settled.rx.base_lt⟩, fun hnow => ?_⟩
        change s.done = true at hnow
        rw [hdone] at hnow
        cases hnow
    · rw [if_neg hdue]
      obtain ⟨stamps, sentNs, nacks, hframe⟩ := sendNacks_frame s nowNs
      rw [hframe]
      split
      · rename_i hcomplete
        exact (hdue (timely hdone hcomplete)).elim
      · refine ⟨⟨settled.rx.confined, settled.rx.base_lt⟩, fun hnow => ?_⟩
        rw [hdone] at hnow
        cases hnow

/-- Two states that agree on everything but the shard and the counters. -/
structure SameProgress (before after : ReceiverStreamState) : Prop where
  rx : after.rx = before.rx
  done : after.done = before.done
  resourceLimit : after.resourceLimit = before.resourceLimit
  haveStart : after.haveStart = before.haveStart
  log : after.log = before.log
  finalSeq : after.finalSeq = before.finalSeq

theorem noteRetransmission_same (s : ReceiverStreamState) (flags : UInt8) (nowNs : Nat) :
    SameProgress s (s.noteRetransmission flags nowNs) := by
  unfold noteRetransmission
  split <;> exact ⟨rfl, rfl, rfl, rfl, rfl, rfl⟩

theorem writeShard_same (s : ReceiverStreamState) (offset : Nat) (payload : List UInt8) :
    SameProgress s (s.writeShard offset payload) := by
  unfold writeShard
  split <;> exact ⟨rfl, rfl, rfl, rfl, rfl, rfl⟩

/-- What an accepted block leaves alone in its stream. -/
theorem onData_accepted_frame {dg : DataDatagram} {nowNs : Nat} {after : ReceiverStream}
    (started : s.haveStart = true)
    (received : s.rx.onReceive dg.hdr.seqNo dg.sendTimeNs nowNs = (after, .accepted)) :
    (s.onData dg nowNs).rx = after ∧ (s.onData dg nowNs).done = s.done ∧
      (s.onData dg nowNs).resourceLimit = s.resourceLimit ∧
      (s.onData dg nowNs).haveStart = true ∧ (s.onData dg nowNs).log = s.log ∧
      (s.onData dg nowNs).finalSeq =
        if isLastBlock dg.hdr.flags then dg.hdr.seqNo else s.finalSeq := by
  have hnoted := noteRetransmission_same { s with rx := after } dg.hdr.flags nowNs
  have hwritten := writeShard_same (({ s with rx := after } : ReceiverStreamState).noteRetransmission
    dg.hdr.flags nowNs) dg.hdr.offset dg.payload
  unfold onData
  rw [if_neg (by rw [started]; exact Bool.noConfusion), received]
  dsimp only
  rw [if_neg (not_not_intro rfl)]
  refine ⟨hwritten.rx.trans hnoted.rx, hwritten.done.trans hnoted.done,
    hwritten.resourceLimit.trans hnoted.resourceLimit,
    (hwritten.haveStart.trans hnoted.haveStart).trans started,
    hwritten.log.trans hnoted.log, ?_⟩
  rw [hwritten.finalSeq, hnoted.finalSeq]

theorem onData_settled (settled : Settled s) (dg : DataDatagram) (nowNs : Nat)
    (timely : s.rx.fresh dg.hdr.seqNo = true →
      dg.hdr.seqNo ≠ kNoFinalSeq ∧ (s.done = true → isLastBlock dg.hdr.flags = false))
    (word : dg.hdr.seqNo < 2 ^ 64) : Settled (s.onData dg nowNs) := by
  cases hstart : s.haveStart with
  | false =>
    unfold onData
    rw [if_pos hstart]
    exact settled
  | true =>
    by_cases haccepted : (s.rx.onReceive dg.hdr.seqNo dg.sendTimeNs nowNs).2 = .accepted
    · have hfresh := (s.rx.onReceive_accepted_iff _ _ _).mp haccepted
      obtain ⟨hseq, hlast⟩ := timely hfresh
      obtain ⟨hnew, hinside⟩ := ReceiverStream.not_accepted_of_fresh hfresh
      have hbounded : dg.hdr.seqNo < 2 ^ 64 - 1 := by
        unfold kNoFinalSeq at hseq
        omega
      obtain ⟨after, hreceived, admits⟩ :=
        ReceiverStream.onReceive_fresh settled.rx hbounded hnew hinside dg.sendTimeNs nowNs
      obtain ⟨hrx, hdone, hlimit, hstarted, hlog, hfinal⟩ :=
        onData_accepted_frame hstart hreceived
      refine ⟨by rw [hrx]; exact admits.inv, fun hnow hrefused => ?_⟩
      rw [hdone] at hnow
      rw [hlimit] at hrefused
      obtain ⟨_, hpast, ack, hhead, hack⟩ := settled.told hnow hrefused
      rw [hlast hnow] at hfinal
      rw [hrx, hlog, hfinal]
      exact ⟨hstarted, Nat.lt_of_lt_of_le hpast admits.base_le, ack, hhead, hack⟩
    · obtain ⟨count, hrefused⟩ := ReceiverStream.onReceive_refused haccepted
      unfold onData
      rw [if_neg (by rw [hstart]; exact Bool.noConfusion)]
      rw [if_pos haccepted, hrefused]
      exact ⟨settled.rx.overflow count, settled.told⟩

theorem finalAcks_settled (settled : Settled s) : Settled s.finalAcks := by
  unfold finalAcks
  split
  · exact settled
  · refine ⟨settled.rx, fun hdone hlimit => ?_⟩
    obtain ⟨hstart, hpast, _⟩ := settled.told hdone hlimit
    exact ⟨hstart, hpast, s.currentAck, rfl, hpast⟩

variable {m : MuxReceiver}

theorem dispatchIncoming_settled {dg : List UInt8} {nowNs : Nat} {allocated : Bool}
    (settled : ∀ s ∈ m.streams, Settled s) (timely : Timely m (.incoming dg nowNs allocated)) :
    ∀ s ∈ (m.dispatchIncoming dg nowNs allocated).streams, Settled s := by
  unfold MuxReceiver.dispatchIncoming
  split
  · split
    · rename_i ss _
      exact forall_mem_modify settled fun s _ hs => onStreamStart_settled hs ss allocated
    · exact settled
  · split
    · rename_i data decoded
      exact forall_mem_modify settled fun s found hs =>
        onData_settled hs data nowNs (timely data s decoded found)
          (decodeDataDatagram_fits decoded).seqNo
    · exact settled
  · exact settled

theorem step_settled (m : MuxReceiver) (event : MuxReceiver.Event) (next : MuxReceiver)
    (settled : ∀ s ∈ m.streams, Settled s) (timely : Timely m event)
    (stepped : m.step event = some next) : ∀ s ∈ next.streams, Settled s := by
  cases event with
  | incoming dg nowNs allocated =>
    cases (Option.ite_none_left_eq_some.mp stepped).2
    exact dispatchIncoming_settled settled timely
  | service stream nowNs =>
    cases (Option.ite_none_left_eq_some.mp stepped).2
    exact forall_mem_modify settled fun s found hs =>
      tryServiceOne_settled hs nowNs (timely s found)
  | finish =>
    cases (Option.ite_none_left_eq_some.mp stepped).2
    intro s member
    obtain ⟨earlier, hearlier, rfl⟩ := List.mem_map.mp member
    exact finalAcks_settled (settled earlier hearlier)

theorem buildStreams_settled (windows : List Nat) (nowNs : Nat) :
    ∀ s ∈ (MuxReceiver.buildStreams windows nowNs).streams, Settled s := by
  intro s member
  obtain ⟨i, hi, rfl⟩ := List.mem_mapIdx.mp member
  exact create_settled _ _ _

/-- Along every timely run, a stream that is done has told the sender. -/
theorem told_before_quiet (windows : List Nat) (nowNs : Nat) (events : List MuxReceiver.Event)
    (last : MuxReceiver)
    (run : replay MuxReceiver.step (MuxReceiver.buildStreams windows nowNs) events = some last)
    (timely : Along MuxReceiver.step Timely (MuxReceiver.buildStreams windows nowNs) events) :
    ToldBeforeQuiet last := by
  have hsettled := replay_preserves_along step_settled run timely
    (buildStreams_settled windows nowNs)
  intro s member hdone hlimit
  obtain ⟨_, _, htold⟩ := (hsettled s member).told hdone hlimit
  exact htold

/-! ## One stream of one block -/

def oneByteStart : StreamStart where
  blockSize := 1200
  totalBytes := 1
  nonce := 9

/-- Its only block. -/
def oneByteBlock : DataDatagram where
  hdr := { flags := kFlagLastBlock, payloadLen := 1 }
  sendTimeNs := 50
  payload := [5]

theorem dispatch_oneByteStart (m : MuxReceiver) (nowNs : Nat) (allocated : Bool) :
    m.dispatchIncoming (streamStartBytes oneByteStart) nowNs allocated =
      { m with streams := m.streams.modify 0 fun s => s.onStreamStart oneByteStart allocated } := by
  have hdecode := decodeStreamStart_encode oneByteStart
    ⟨by decide, by decide, by decide, by decide, by decide, by decide, by decide, by decide,
      by decide, by decide, by decide, rfl⟩ []
  rw [List.append_nil] at hdecode
  unfold MuxReceiver.dispatchIncoming
  rw [hdecode]
  rfl

/-- The bytes of the only block. -/
def oneByteDatagram : List UInt8 := dataPrefix oneByteBlock.hdr 50 ++ [5]

theorem decode_oneByteDatagram : decodeDataDatagram oneByteDatagram = some oneByteBlock := by
  have hdecode := decodeDataDatagram_encode oneByteBlock.hdr
    ⟨by decide, by decide, by decide, by decide⟩ (show 50 < 2 ^ 64 by decide)
    (show [5].length = oneByteBlock.hdr.payloadLen from rfl) []
  rwa [List.append_nil] at hdecode

theorem dispatch_oneByteDatagram (m : MuxReceiver) (nowNs : Nat) (allocated : Bool) :
    m.dispatchIncoming oneByteDatagram nowNs allocated =
      { m with streams := m.streams.modify 0 fun s => s.onData oneByteBlock nowNs } := by
  rfl

/-- The stream after its start, a service at 300 us, its block, and another
service `laterNs` after that block. -/
def oneByteStream (laterNs : Nat) : ReceiverStreamState :=
  ((((((create 0 4 1).onStreamStart oneByteStart true).tryServiceOne 300000).1).onData
    oneByteBlock 300100).tryServiceOne (300100 + laterNs)).1

def oneByteRun (laterNs : Nat) : List MuxReceiver.Event :=
  [.incoming (streamStartBytes oneByteStart) 100 true, .service 0 300000,
    .incoming oneByteDatagram 300100 true, .service 0 (300100 + laterNs)]

theorem step_oneByteStart (running : m.finished = false) (nowNs : Nat) :
    m.step (.incoming (streamStartBytes oneByteStart) nowNs true) =
      some { m with streams := m.streams.modify 0 fun s => s.onStreamStart oneByteStart true } := by
  rw [MuxReceiver.step, if_neg (by rw [running]; exact Bool.false_ne_true), dispatch_oneByteStart]

theorem step_oneByteDatagram (running : m.finished = false) (nowNs : Nat) :
    m.step (.incoming oneByteDatagram nowNs true) =
      some { m with streams := m.streams.modify 0 fun s => s.onData oneByteBlock nowNs } := by
  rw [MuxReceiver.step, if_neg (by rw [running]; exact Bool.false_ne_true),
    dispatch_oneByteDatagram]

theorem replay_oneByteRun (laterNs : Nat) :
    replay MuxReceiver.step (MuxReceiver.buildStreams [4] 1) (oneByteRun laterNs) =
      some { streams := [oneByteStream laterNs] } := by
  unfold oneByteRun
  rw [replay_cons_some _ (step_oneByteStart rfl 100)]
  rfl

theorem timely_oneByteRun :
    Along MuxReceiver.step Timely (MuxReceiver.buildStreams [4] 1) (oneByteRun 400000) := by
  refine along_cons (step_oneByteStart rfl 100) ?_ (along_cons rfl ?_
    (along_cons (step_oneByteDatagram rfl 300100) ?_ (along_cons rfl ?_ trivial)))
  · intro data s decoded
    cases decoded
  · intro s found _ hcomplete
    cases found
    cases hcomplete
  · intro data s decoded found _
    rw [decode_oneByteDatagram] at decoded
    cases decoded
    cases found
    exact ⟨by decide, fun hdone => by cases hdone⟩
  · intro s found _ _
    have hlast : s.lastAckNs = 300000 := by
      cases found
      rfl
    rw [ackDue, hlast, Bool.or_eq_true]
    exact Or.inr (by decide)

/-- The same stream serviced 400 us after its only block. -/
theorem told_before_quiet_oneByte :
    ∃ last, replay MuxReceiver.step (MuxReceiver.buildStreams [4] 1) (oneByteRun 400000) =
        some last ∧
      (∃ s ∈ last.streams, s.done = true) ∧ ToldBeforeQuiet last :=
  ⟨_, replay_oneByteRun 400000, ⟨_, List.mem_singleton_self _, rfl⟩,
    told_before_quiet [4] 1 (oneByteRun 400000) _ (replay_oneByteRun 400000) timely_oneByteRun⟩

/-- A stream serviced 100 ns after its only block is done, although its last
ACK does not cover that block. -/
theorem quiet_before_told :
    ∃ last, replay MuxReceiver.step (MuxReceiver.buildStreams [4] 1) (oneByteRun 100) = some last ∧
      ¬ ToldBeforeQuiet last := by
  refine ⟨_, replay_oneByteRun 100, ?_⟩
  intro told
  obtain ⟨ack, hhead, hcovers⟩ := told (oneByteStream 100) (List.mem_singleton_self _) rfl rfl
  have hack : (oneByteStream 100).log.acks.head?.map Ack.baseSeqNo = some 0 := rfl
  have hfinal : (oneByteStream 100).finalSeq = 0 := rfl
  rw [hhead] at hack
  rw [Option.some.inj hack] at hcovers
  exact Nat.lt_irrefl 0 hcovers

end FuseTransport.Mux
