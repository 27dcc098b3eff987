import FuseTransport.Mux.Delivery
import FuseTransport.Proto.NackPass

/-!
# What the NACKs of a multiplexed transfer ask for

A NACK names blocks that have been sent, all of them of one window, so that no two share a
place in a table as long as the window.  This remains true of it however long it is on the way.
-/

namespace FuseTransport.Mux

open Foundation Foundation.Runs Proto ReceiverStreamState

/-- A NACK of stream `i`, of which `count` blocks have been sent. -/
structure Asked (job : MuxTransfer) (i count : Nat) (nack : Nack) : Prop where
  streamId : nack.streamId = i
  sent : ∀ seq ∈ nack.missing, seq < count
  apart : nack.missing.Pairwise fun first second =>
    first % job.windowSize ≠ second % job.windowSize

/-- What holds of stream `i` of the receiver when `count` blocks have been sent. -/
structure Asks (job : MuxTransfer) (i count : Nat) (r : ReceiverStreamState) : Prop where
  streamId : r.streamId = i
  windowSize : r.rx.windowSize = job.windowSize
  newest : r.rx.haveAny = true →
    r.rx.highestReceived < count ∧ r.rx.highestReceived < r.rx.baseSeqNo + r.rx.windowSize
  nacks : ∀ nack ∈ r.log.nacks, Asked job i count nack

structure SameReach (before after : ReceiverStream) : Prop where
  windowSize : after.windowSize = before.windowSize
  baseSeqNo : after.baseSeqNo = before.baseSeqNo
  haveAny : after.haveAny = before.haveAny
  highestReceived : after.highestReceived = before.highestReceived

namespace Asks

variable {job : MuxTransfer} {i count : Nat} {r next : ReceiverStreamState}

theorem mono (asks : Asks job i count r) {later : Nat} (grown : count ≤ later) :
    Asks job i later r where
  streamId := asks.streamId
  windowSize := asks.windowSize
  newest := fun any => ⟨Nat.lt_of_lt_of_le (asks.newest any).1 grown, (asks.newest any).2⟩
  nacks := by
    intro nack member
    obtain ⟨hstream, hsent, hapart⟩ := asks.nacks nack member
    exact ⟨hstream, fun seq named => Nat.lt_of_lt_of_le (hsent seq named) grown, hapart⟩

theorem create (valid : setupPayloadValid job.payload = true) (inside : i < job.numStreams)
    (count nowNs : Nat) :
    Asks job i count (ReceiverStreamState.create i job.windowSize nowNs) where
  streamId := rfl
  windowSize := by
    have hmember : job.streamConfig i ∈ job.payload.streams :=
      List.mem_map_of_mem (List.mem_range.mpr inside)
    obtain ⟨_, hpos, hle⟩ := (streamConfigValid_iff _).mp (setupPayloadValid_mem valid hmember)
    exact clampWindow_of_valid hpos hle
  newest := nofun
  nacks := nofun

section

variable (asks : Asks job i count r)
include asks

/-- A step that takes no block and asks for none. -/
theorem quiet (streamId : next.streamId = r.streamId) (reach : SameReach r.rx next.rx)
    (nacks : next.log.nacks = r.log.nacks) :
    Asks job i count next where
  streamId := streamId.trans asks.streamId
  windowSize := reach.windowSize.trans asks.windowSize
  newest := by
    rw [reach.haveAny, reach.highestReceived, reach.baseSeqNo, reach.windowSize]
    exact asks.newest
  nacks := by
    rw [nacks]
    exact asks.nacks

theorem onStreamStart (ss : StreamStart) (allocated : Bool) :
    Asks job i count (r.onStreamStart ss allocated) := by
  unfold ReceiverStreamState.onStreamStart
  split
  · exact asks
  · split <;> exact asks.quiet rfl ⟨rfl, rfl, rfl, rfl⟩ rfl

theorem onData (inv : r.rx.Inv) {dg : DataDatagram} (sent : dg.hdr.seqNo < count)
    (bounded : count < 2 ^ 64) (nowNs : Nat) :
    Asks job i count (r.onData dg nowNs) := by
  have harrived := onData_arrived inv (show dg.hdr.seqNo < 2 ^ 64 - 1 by omega) nowNs
  generalize r.onData dg nowNs = after at harrived
  cases harrived with
  | ignored same =>
    subst same
    exact asks.quiet rfl ⟨rfl, rfl, rfl, rfl⟩ rfl
  | accepted started fresh inside received admits streamId haveStart shardBytes log shard written =>
    obtain ⟨_, hhighest, _⟩ := ReceiverStream.onReceive_newest received
    refine ⟨streamId.trans asks.streamId, admits.window.trans asks.windowSize, fun _ => ?_, ?_⟩
    · have hbase := admits.base_le
      rw [hhighest, admits.window]
      split
      · exact ⟨sent, by omega⟩
      · rename_i hold
        rw [not_or, Bool.not_eq_false] at hold
        obtain ⟨hcount, hwindow⟩ := asks.newest hold.1
        exact ⟨hcount, by omega⟩
    · rw [log]
      exact asks.nacks

/-- The gaps a pass reports have been sent and lie in one window. -/
theorem reports (nowNs reorderNs renackNs : Nat) :
    Asked job i count
      { streamId := r.streamId, missing := r.rx.reports nowNs reorderNs renackNs } := by
  have hbounds : ∀ seq ∈ r.rx.reports nowNs reorderNs renackNs, r.rx.baseSeqNo ≤ seq ∧
      seq < count ∧ seq < r.rx.baseSeqNo + r.rx.windowSize := by
    intro seq member
    obtain ⟨habove, _, hspan, _⟩ :=
      (r.rx.mem_unset seq).mp (ReceiverStream.mem_unset_of_mem_reports member)
    unfold ReceiverStream.reports at member
    split at member
    · cases member
    · rename_i hany
      rw [not_or, not_or, Bool.not_eq_false, Bool.not_eq_false] at hany
      obtain ⟨hcount, hwindow⟩ := asks.newest hany.2.1
      omega
  refine ⟨asks.streamId, fun seq member => (hbounds seq member).2.1, ?_⟩
  have hsorted : (r.rx.reports nowNs reorderNs renackNs).Pairwise (· < ·) := by
    unfold ReceiverStream.reports
    split
    · exact List.Pairwise.nil
    · exact r.rx.unset_sorted.sublist List.filter_sublist
  refine hsorted.imp_of_mem ?_
  intro first second hfirst hsecond hlt hsame
  obtain ⟨hlow, _, hhigh⟩ := hbounds first hfirst
  obtain ⟨hlow', _, hhigh'⟩ := hbounds second hsecond
  rw [← asks.windowSize] at hsame
  exact Nat.ne_of_lt hlt (Residues.eq_of_mod_eq hlow hhigh hlow' hhigh' hsame)

theorem sendNacks (nowNs : Nat) : Asks job i count (r.sendNacks nowNs).1 := by
  unfold ReceiverStreamState.sendNacks
  rw [ReceiverStream.collectNacks_eq]
  dsimp only
  split
  · refine ⟨asks.streamId, asks.windowSize, asks.newest, ?_⟩
    intro nack member
    rcases List.mem_cons.mp member with rfl | hold
    · exact asks.reports nowNs r.reorderNs r.renackNs
    · exact asks.nacks nack hold
  · exact asks.quiet rfl ⟨rfl, rfl, rfl, rfl⟩ rfl

theorem tryServiceOne (nowNs : Nat) : Asks job i count (r.tryServiceOne nowNs).1 := by
  unfold ReceiverStreamState.tryServiceOne
  split
  · exact asks
  · have hacked : Asks job i count (if r.ackDue nowNs then r.sendAck nowNs else r) := by
      split
      · exact asks.quiet rfl ⟨rfl, rfl, rfl, rfl⟩ rfl
      · exact asks
    dsimp only
    generalize (if r.ackDue nowNs then r.sendAck nowNs else r) = acked at hacked ⊢
    have hnacked := hacked.sendNacks nowNs
    split
    · exact hnacked.quiet rfl ⟨rfl, rfl, rfl, rfl⟩ rfl
    · exact hnacked

theorem finalAcks : Asks job i count r.finalAcks := by
  unfold ReceiverStreamState.finalAcks
  split
  · exact asks
  · exact asks.quiet rfl ⟨rfl, rfl, rfl, rfl⟩ rfl

end

end Asks

/-! ## A step of the session -/

namespace MuxSession

variable {job : MuxTransfer} {st next : MuxSession} {event : MuxEvent}

inductive Moved (job : MuxTransfer) (st : MuxSession) : MuxEvent → MuxSession → Prop where
  | same {event : MuxEvent} {next : MuxSession} (senders : next.senders = st.senders)
      (receiver : next.receiver = st.receiver) : Moved job st event next
  | buildSenders {event : MuxEvent} {next : MuxSession} {nonce clockOffset : Nat → Nat}
      {nowNs : Nat} (none_yet : st.senders = [])
      (senders : next.senders = job.buildStreams nonce clockOffset nowNs)
      (receiver : next.receiver = st.receiver) : Moved job st event next
  | trySendOne {event : MuxEvent} {next : MuxSession} {stream nowNs : Nat} {accepted : Nat → Bool}
      {s sent : SenderStreamState} {did : Bool} (found : st.senders[stream]? = some s)
      (tried : s.trySendOne nowNs accepted = some (sent, did))
      (senders : next.senders = st.senders.set stream sent)
      (receiver : next.receiver = st.receiver) : Moved job st event next
  | toSender {next : MuxSession} {dg : List UInt8} {nowNs : Nat} {accepted : Nat → Bool}
      (member : dg ∈ st.backward)
      (senders : next.senders = st.senders.map fun s => s.dispatchIncoming dg nowNs accepted)
      (receiver : next.receiver = st.receiver) : Moved job st (.toSender dg nowNs accepted) next
  | buildReceivers {event : MuxEvent} {next : MuxSession} {config : SetupPayload} {nowNs : Nat}
      (adopted : st.setup.adopted = some config) (senders : next.senders = st.senders)
      (receiver : next.receiver =
        MuxReceiver.buildStreams (config.streams.map StreamConfig.windowSize) nowNs) :
      Moved job st event next
  | toReceiver {event : MuxEvent} {next : MuxSession} {dg : List UInt8} {nowNs : Nat}
      {allocated : Bool} (member : dg ∈ st.forward) (senders : next.senders = st.senders)
      (receiver : next.receiver = st.receiver.dispatchIncoming dg nowNs allocated) :
      Moved job st event next
  | service {event : MuxEvent} {next : MuxSession} {stream nowNs : Nat}
      (senders : next.senders = st.senders)
      (receiver : next.receiver.streams =
        st.receiver.streams.modify stream fun r => (r.tryServiceOne nowNs).1) :
      Moved job st event next
  | finish {event : MuxEvent} {next : MuxSession} (senders : next.senders = st.senders)
      (receiver : next.receiver.streams = st.receiver.streams.map finalAcks) :
      Moved job st event next

theorem responded_moved {round : SetupTurn Unit} (stepped : st.responded round = some next) :
    Moved job st event next := by
  obtain ⟨setup, _, rfl⟩ :=
    Option.map_eq_some_iff.mp (Option.ite_none_left_eq_some.mp stepped).2
  exact .same rfl rfl

theorem buildReceivers_moved {nowNs : Nat}
    (stepped : step job st (.buildReceivers nowNs) = some next) : Moved job st event next := by
  obtain ⟨config, hadopted, rfl⟩ :=
    Option.map_eq_some_iff.mp (Option.ite_none_right_eq_some.mp stepped).2
  exact .buildReceivers hadopted rfl rfl

theorem toReceiver_moved {dg : List UInt8} {nowNs : Nat} {allocated : Bool}
    (stepped : step job st (.toReceiver dg nowNs allocated) = some next) :
    Moved job st event next := by
  obtain ⟨hmember, hreceived⟩ := Option.ite_none_right_eq_some.mp stepped
  cases received_incoming hreceived
  exact .toReceiver hmember rfl rfl

theorem finish_moved {timedOut : Bool} (stepped : step job st (.finish timedOut) = some next) :
    Moved job st event next := by
  obtain ⟨after, hreceived, rfl⟩ :=
    Option.map_eq_some_iff.mp (Option.ite_none_left_eq_some.mp stepped).2
  cases received_finish hreceived
  exact .finish rfl rfl

theorem step_moved (stepped : step job st event = some next) : Moved job st event next := by
  cases event with
  | start nowNs =>
    cases (Option.ite_none_left_eq_some.mp stepped).2
    exact .same rfl rfl
  | initiatorTimeout nowNs =>
    cases (Option.ite_none_right_eq_some.mp stepped).2
    exact .same rfl rfl
  | giveUp status =>
    cases (Option.ite_none_right_eq_some.mp stepped).2
    exact .same rfl rfl
  | buildSenders nonce clockOffset nowNs =>
    obtain ⟨hready, hnext⟩ := Option.ite_none_right_eq_some.mp stepped
    cases hnext
    exact .buildSenders hready.2 rfl rfl
  | trySendOne stream nowNs accepted =>
    obtain ⟨⟨sent, did⟩, htried, rfl⟩ := Option.map_eq_some_iff.mp stepped
    obtain ⟨s, hfound, hsent⟩ := Option.bind_eq_some_iff.mp htried
    exact .trySendOne hfound hsent rfl rfl
  | toSender dg nowNs accepted =>
    obtain ⟨hallowed, hnext⟩ := Option.ite_none_right_eq_some.mp stepped
    cases hnext
    exact .toSender hallowed.1 rfl rfl
  | toResponder dg random nowNs =>
    exact responded_moved (Option.ite_none_right_eq_some.mp stepped).2
  | responderTimeout nowNs => exact responded_moved stepped
  | buildReceivers nowNs => exact buildReceivers_moved stepped
  | toReceiver dg nowNs allocated => exact toReceiver_moved stepped
  | service stream nowNs =>
    cases received_service stepped
    exact .service rfl rfl
  | finish timedOut => exact finish_moved stepped

theorem history_congr (senders : next.senders = st.senders) (i : Nat) :
    next.history i = st.history i := by
  rw [history, history, senders]

theorem history_lt (streams : Streams job st) (i : Nat) : (st.history i).length < 2 ^ 64 := by
  rw [history]
  split
  · rename_i s found
    have hwindowed := (streams.senders i s found).windowed
    rw [hwindowed.recorded]
    exact hwindowed.window.bounded
  · exact Nat.two_pow_pos 64

/-- A step takes nothing out of a stream's history. -/
theorem Moved.history_le (moved : Moved job st event next) (streams : Streams job st) (i : Nat) :
    (st.history i).length ≤ (next.history i).length := by
  cases moved with
  | same senders | buildReceivers _ senders | toReceiver _ senders | service senders
  | finish senders => rw [history_congr senders]
  | buildSenders none_yet =>
    rw [history, none_yet]
    exact Nat.zero_le _
  | @trySendOne _ _ stream _ _ s sent _ found tried senders =>
    by_cases hsame : stream = i
    · subst hsame
      have hset : next.senders[stream]? = some sent := by
        rw [senders, List.getElem?_set, if_pos rfl,
          if_pos (List.getElem?_eq_some_iff.mp found).1]
      rw [history_of_some found, history_of_some hset]
      rcases (streams.senders stream s found).trySendOne_history tried with hkept | ⟨block, hadded⟩
      · rw [hkept]
      · rw [hadded, List.length_append]
        exact Nat.le_add_right _ _
    · rw [history, history, senders, List.getElem?_set, if_neg hsame]
  | toSender member senders =>
    rw [history, history, senders, List.getElem?_map]
    cases st.senders[i]? with
    | none => exact Nat.le_refl _
    | some s =>
      dsimp only [Option.map_some]
      rw [Emits.dispatchIncoming_history]

def Asking (job : MuxTransfer) (st : MuxSession) : Prop :=
  ∀ i r, st.receiver.streams[i]? = some r → Asks job i (st.history i).length r

/-- A NACK that arrives is one of the receiver's. -/
theorem Asking.decoded (asking : Asking job st) (inv : Inv job st) {dg : List UInt8} {nack : Nack}
    (member : dg ∈ st.backward) (decoded : decodeNack dg = some nack) :
    Asked job nack.streamId (st.history nack.streamId).length nack := by
  have hpeek := (decodeNack_some decoded).1
  rcases mem_backward member with hreply | hack | ⟨i, r, sent, found, hsent, hshort, rfl⟩
  · rw [(inv.offered.replies dg hreply).2] at hpeek
    cases hpeek
  · rw [hack] at hpeek
    cases hpeek
  · have hasked := (asking i r found).nacks sent hsent
    have hinside : i < job.numStreams := by
      have hlength := (List.getElem?_eq_some_iff.mp found).1
      rcases inv.streams.count with hnone | hall
      · rw [hnone] at hlength
        cases hlength
      · omega
    have hfits : sent.Fits := by
      have hcount := job.streams_le
      unfold kMaxStreams at hcount
      refine ⟨?_, hshort, fun seq named => ?_⟩
      · rw [hasked.streamId]
        omega
      · exact Nat.lt_trans (hasked.sent seq named) (history_lt inv.streams i)
    have hround := decodeNack_encode sent hfits []
    rw [List.append_nil, decoded] at hround
    cases hround
    rw [hasked.streamId]
    exact hasked

theorem Asking.modify (asking : Asking job st) {stream : Nat}
    {f : ReceiverStreamState → ReceiverStreamState} {receiver : MuxReceiver}
    (senders : next.senders = st.senders) (streams : next.receiver = receiver)
    (changed : receiver.streams = st.receiver.streams.modify stream f)
    (keeps : ∀ r, st.receiver.streams[stream]? = some r →
      Asks job stream (st.history stream).length r →
        Asks job stream (st.history stream).length (f r)) : Asking job next := by
  intro i r found
  rw [streams, changed] at found
  rw [history_congr senders]
  obtain ⟨earlier, hearlier, rfl | ⟨rfl, rfl⟩⟩ := getElem?_modify_cases found
  · exact asking i r hearlier
  · exact keeps earlier hearlier (asking stream earlier hearlier)

theorem Asking.toReceiver (asking : Asking job st) (inv : Inv job st) {dg : List UInt8} {nowNs : Nat}
    {allocated : Bool} (member : dg ∈ st.forward) (senders : next.senders = st.senders)
    (receiver : next.receiver = st.receiver.dispatchIncoming dg nowNs allocated) :
    Asking job next := by
  rcases mem_forward inv.offered inv.streams member with hsetup | ⟨i, s, found, hcarried⟩
  · rw [dispatchIncoming_setup st.receiver hsetup] at receiver
    intro i r hfound
    rw [receiver] at hfound
    rw [history_congr senders]
    exact asking i r hfound
  · cases hcarried with
    | start fits stream size =>
      rw [dispatchIncoming_start st.receiver fits] at receiver
      exact asking.modify senders receiver rfl fun r _ asks => asks.onStreamStart _ allocated
    | block fits word stream sent offset length =>
      rw [dispatchIncoming_block st.receiver fits word length.symm, stream] at receiver
      refine asking.modify senders receiver rfl fun r hr asks => ?_
      have hsent := (List.getElem?_eq_some_iff.mp sent).1
      rw [← history_of_some found] at hsent
      exact asks.onData (inv.streams.receivers i r hr).rx hsent (history_lt inv.streams i) nowNs

theorem Asking.step (asking : Asking job st) (inv : Inv job st)
    (stepped : step job st event = some next) : Asking job next := by
  have hmoved := step_moved stepped
  have hgrows := hmoved.history_le inv.streams
  have hkept : next.receiver = st.receiver → Asking job next := by
    intro receiver i r found
    rw [receiver] at found
    exact (asking i r found).mono (hgrows i)
  cases hmoved with
  | same senders receiver | buildSenders none_yet senders receiver => exact hkept receiver
  | trySendOne found tried senders receiver => exact hkept receiver
  | toSender member senders receiver => exact hkept receiver
  | buildReceivers adopted senders receiver =>
    obtain ⟨rfl, hvalid⟩ := adopted_config inv.offered adopted
    intro i r found
    rw [receiver, MuxReceiver.buildStreams, List.getElem?_mapIdx] at found
    obtain ⟨windowSize, hwindow, rfl⟩ := Option.map_eq_some_iff.mp found
    rw [MuxTransfer.payload, List.map_map, List.getElem?_map] at hwindow
    obtain ⟨k, hk, rfl⟩ := Option.map_eq_some_iff.mp hwindow
    have hinside := (List.getElem?_eq_some_iff.mp hk).1
    rw [List.length_range] at hinside
    exact Asks.create hvalid hinside _ _
  | toReceiver member senders receiver => exact asking.toReceiver inv member senders receiver
  | service senders receiver =>
    exact asking.modify senders rfl receiver fun r _ asks => asks.tryServiceOne _
  | finish senders receiver =>
    intro i r found
    rw [receiver, List.getElem?_map] at found
    obtain ⟨earlier, hearlier, rfl⟩ := Option.map_eq_some_iff.mp found
    rw [history_congr senders]
    exact (asking i earlier hearlier).finalAcks

end MuxSession

end FuseTransport.Mux
