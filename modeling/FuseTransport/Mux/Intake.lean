import FuseTransport.Foundation.Splice
import FuseTransport.Mux.Completion
import FuseTransport.Mux.Traffic

/-!
# What the streams of the multiplexed receiver hold

A stream counts the bytes of the blocks it accepts, each block once, and copies them to where
they belong.  When it has counted as many bytes as its shard is long, the shard is whole.
-/

namespace FuseTransport.Mux

open Foundation Foundation.Splice Foundation.Tally Proto ReceiverStreamState

/-- What a stream holds of a shard whose blocks so far are `history`. -/
structure Holds (data : List UInt8) (history : List SentBlock) (r : ReceiverStreamState) : Prop where
  rx : r.rx.Inv
  sent : ∀ seq, r.rx.Accepted seq → seq < history.length
  idle : r.haveStart = false → ∀ seq, ¬ r.rx.Accepted seq
  sized : r.haveStart = true → r.shardBytes = data.length ∧ r.shard.length = data.length
  filled : ∀ seq block p, r.rx.Accepted seq → history[seq]? = some block → block.offset ≤ p →
    p < block.offset + block.payload.length → r.shard[p]? = data[p]?
  written : r.written = tally r.rx.Accepted (blockSizes history)

variable {data : List UInt8} {r : ReceiverStreamState} {history : List SentBlock}

/-- A stream that has counted its whole shard has it. -/
theorem Holds.whole (holds : Holds data history r) {nextOffset : Nat}
    (tiles : Tiles data history nextOffset) (started : r.haveStart = true)
    (counted : r.written = r.shardBytes) : r.shard = data := by
  obtain ⟨hbytes, hlength⟩ := holds.sized started
  have hcounted : data.length = tally r.rx.Accepted (blockSizes history) := by
    rw [← hbytes, ← counted, holds.written]
  have hle : tally r.rx.Accepted (blockSizes history) ≤ total (blockSizes history) := tally_le_total
  have htotal := tiles.total
  have hinside := tiles.inside
  apply List.ext_getElem?
  intro p
  rcases Nat.lt_or_ge p data.length with hp | hp
  · obtain ⟨k, block, hblock, hlow, hhigh⟩ := tiles.covers p (by omega)
    have hsize := getD_blockSizes hblock
    have hfull : total (blockSizes history) ≤ tally r.rx.Accepted (blockSizes history) := by omega
    have haccepted : r.rx.Accepted k := marked_of_full hfull (by omega)
    exact holds.filled k block p haccepted hblock hlow hhigh
  · rw [List.getElem?_eq_none (by omega), List.getElem?_eq_none hp]

theorem holds_create (data : List UInt8) (history : List SentBlock) (i windowSize nowNs : Nat) :
    Holds data history (create i windowSize nowNs) where
  rx := ReceiverStream.create_inv i windowSize true
  sent := fun seq accepted => (ReceiverStream.create_accepted i windowSize true seq accepted).elim
  idle := fun _ seq => ReceiverStream.create_accepted i windowSize true seq
  sized := nofun
  filled := fun seq _ _ accepted =>
    (ReceiverStream.create_accepted i windowSize true seq accepted).elim
  written := (tally_of_unmarked (ReceiverStream.create_accepted i windowSize true)).symm

/-- Nothing changes for the blocks there are when one more is sent. -/
theorem Holds.append (holds : Holds data history r) (added : SentBlock) :
    Holds data (history ++ [added]) r where
  rx := holds.rx
  sent := by
    intro seq accepted
    rw [List.length_append]
    exact Nat.lt_add_right _ (holds.sent seq accepted)
  idle := holds.idle
  sized := holds.sized
  filled := by
    intro seq block p accepted hblock
    rw [List.getElem?_append_left (holds.sent seq accepted)] at hblock
    exact holds.filled seq block p accepted hblock
  written := by
    have hnew : ¬ r.rx.Accepted (blockSizes history).length := by
      rw [length_blockSizes]
      intro accepted
      exact Nat.lt_irrefl _ (holds.sent _ accepted)
    rw [holds.written, blockSizes_append, tally_append hnew]

/-- Only what the stream reports, and when, may differ. -/
structure SameIntake (before after : ReceiverStreamState) : Prop where
  rx : ∃ stamps, after.rx = { before.rx with lastNackNs := stamps }
  streamId : after.streamId = before.streamId
  shard : after.shard = before.shard
  shardBytes : after.shardBytes = before.shardBytes
  written : after.written = before.written
  haveStart : after.haveStart = before.haveStart
  resourceLimit : after.resourceLimit = before.resourceLimit

theorem SameIntake.refl (r : ReceiverStreamState) : SameIntake r r :=
  ⟨⟨r.rx.lastNackNs, rfl⟩, rfl, rfl, rfl, rfl, rfl, rfl⟩

theorem SameIntake.trans {before middle after : ReceiverStreamState}
    (first : SameIntake before middle) (second : SameIntake middle after) :
    SameIntake before after := by
  obtain ⟨_, hfirst⟩ := first.rx
  obtain ⟨stamps, hsecond⟩ := second.rx
  exact ⟨⟨stamps, by rw [hsecond, hfirst]⟩, second.streamId.trans first.streamId,
    second.shard.trans first.shard, second.shardBytes.trans first.shardBytes,
    second.written.trans first.written, second.haveStart.trans first.haveStart,
    second.resourceLimit.trans first.resourceLimit⟩

theorem Holds.intake {next : ReceiverStreamState} (holds : Holds data history r)
    (same : SameIntake r next) : Holds data history next := by
  obtain ⟨stamps, hrx⟩ := same.rx
  have haccepted : next.rx.Accepted = r.rx.Accepted := by
    rw [hrx]
    rfl
  constructor
  case rx =>
    rw [hrx]
    exact ⟨holds.rx.confined, holds.rx.base_lt⟩
  case sent =>
    rw [haccepted]
    exact holds.sent
  case idle =>
    rw [haccepted, same.haveStart]
    exact holds.idle
  case sized =>
    rw [same.haveStart, same.shardBytes, same.shard]
    exact holds.sized
  case filled =>
    rw [haccepted, same.shard]
    exact holds.filled
  case written =>
    rw [same.written, holds.written, hrx]
    rfl

theorem sendNacks_intake (r : ReceiverStreamState) (nowNs : Nat) :
    SameIntake r (r.sendNacks nowNs).1 := by
  obtain ⟨stamps, sentNs, nacks, hframe⟩ := sendNacks_frame r nowNs
  rw [hframe]
  exact ⟨⟨stamps, rfl⟩, rfl, rfl, rfl, rfl, rfl, rfl⟩

theorem tryServiceOne_intake (r : ReceiverStreamState) (nowNs : Nat) :
    SameIntake r (r.tryServiceOne nowNs).1 := by
  rw [tryServiceOne]
  split
  · exact SameIntake.refl r
  · have hacked : SameIntake r (if r.ackDue nowNs then r.sendAck nowNs else r) := by
      split
      · exact ⟨⟨r.rx.lastNackNs, rfl⟩, rfl, rfl, rfl, rfl, rfl, rfl⟩
      · exact SameIntake.refl r
    dsimp only
    generalize (if r.ackDue nowNs then r.sendAck nowNs else r) = acked at hacked ⊢
    have hnacked := hacked.trans (sendNacks_intake acked nowNs)
    split
    · exact hnacked.trans ⟨⟨_, rfl⟩, rfl, rfl, rfl, rfl, rfl, rfl⟩
    · exact hnacked

theorem finalAcks_intake (r : ReceiverStreamState) : SameIntake r r.finalAcks := by
  rw [finalAcks]
  split
  · exact SameIntake.refl r
  · exact ⟨⟨r.rx.lastNackNs, rfl⟩, rfl, rfl, rfl, rfl, rfl, rfl⟩

/-! ## Arrivals -/

section Arrivals

variable {data : List UInt8} {history : List SentBlock} {r : ReceiverStreamState}

theorem Holds.onStreamStart (holds : Holds data history r) {ss : StreamStart}
    (size : ss.totalBytes = data.length) (allocated : Bool) :
    Holds data history (r.onStreamStart ss allocated) := by
  rw [ReceiverStreamState.onStreamStart]
  split
  · exact holds
  · rename_i hfirst
    have hidle := holds.idle (Bool.eq_false_iff.mpr hfirst)
    split
    · exact ⟨holds.rx, holds.sent, holds.idle, holds.sized, holds.filled, holds.written⟩
    · refine ⟨holds.rx, holds.sent, fun impossible => ?_, fun _ => ⟨size, ?_⟩, ?_, holds.written⟩
      · cases impossible
      · rw [List.length_replicate, size]
      · intro seq block p accepted
        exact absurd accepted (hidle seq)

theorem writeShard_inside {offset : Nat} {payload : List UInt8}
    (fits : offset + payload.length ≤ r.shard.length) :
    (r.writeShard offset payload).shard = splice 0 r.shard offset payload ∧
      (r.writeShard offset payload).written = r.written + payload.length := by
  rw [writeShard, splice, if_neg (Nat.not_lt.mpr fits)]
  split
  · exact ⟨rfl, rfl⟩
  · rename_i hskipped
    have hempty : payload = [] := by
      by_contra hsome
      exact hskipped ⟨hsome, by omega, by omega⟩
    subst hempty
    simp

theorem writeShard_frame (r : ReceiverStreamState) (offset : Nat) (payload : List UInt8) :
    r.writeShard offset payload =
      { r with
        shard := (r.writeShard offset payload).shard
        written := (r.writeShard offset payload).written } := by
  rw [writeShard]
  split <;> rfl

theorem writeShard_congr (r other : ReceiverStreamState) (shard : other.shard = r.shard)
    (written : other.written = r.written) (offset : Nat) (payload : List UInt8) :
    (other.writeShard offset payload).shard = (r.writeShard offset payload).shard ∧
      (other.writeShard offset payload).written = (r.writeShard offset payload).written := by
  rw [writeShard, writeShard, shard]
  split
  · exact ⟨rfl, by rw [written]⟩
  · exact ⟨shard, written⟩

theorem noteRetransmission_frame (r : ReceiverStreamState) (flags : UInt8) (nowNs : Nat) :
    ∃ sentNs estNs, r.noteRetransmission flags nowNs =
      { r with nackSentNs := sentNs, rttEstNs := estNs } := by
  rw [noteRetransmission]
  split <;> exact ⟨_, _, rfl⟩

/-- What can become of a block of the shard: it is not taken, or it is copied and counted. -/
inductive Arrived (r : ReceiverStreamState) (dg : DataDatagram) (nowNs : Nat) :
    ReceiverStreamState → Prop where
  | ignored {next : ReceiverStreamState} {count : Nat}
      (same : next = { r with rx := { r.rx with windowOverflowCount := count } }) :
      Arrived r dg nowNs next
  | accepted {next : ReceiverStreamState} (started : r.haveStart = true)
      (fresh : ¬ r.rx.Accepted dg.hdr.seqNo) (inside : dg.hdr.seqNo < r.rx.baseSeqNo + r.rx.windowSize)
      (received : r.rx.onReceive dg.hdr.seqNo dg.sendTimeNs nowNs = (next.rx, .accepted))
      (admits : r.rx.Admits next.rx dg.hdr.seqNo)
      (streamId : next.streamId = r.streamId) (haveStart : next.haveStart = true)
      (shardBytes : next.shardBytes = r.shardBytes) (log : next.log = r.log)
      (shard : next.shard = (r.writeShard dg.hdr.offset dg.payload).shard)
      (written : next.written = (r.writeShard dg.hdr.offset dg.payload).written) :
      Arrived r dg nowNs next

theorem onData_arrived (inv : r.rx.Inv) {dg : DataDatagram} (bounded : dg.hdr.seqNo < 2 ^ 64 - 1)
    (nowNs : Nat) : Arrived r dg nowNs (r.onData dg nowNs) := by
  cases hstart : r.haveStart with
  | false =>
    rw [onData, if_pos hstart]
    exact .ignored rfl
  | true =>
    rw [onData, if_neg (by rw [hstart]; exact Bool.noConfusion)]
    rcases ReceiverStream.onReceive_cases inv bounded dg.sendTimeNs nowNs with
      ⟨_, hreceived⟩ | ⟨_, hreceived⟩ | ⟨hfresh, hinside, after, hreceived, hadmits⟩
    · rw [hreceived]
      exact .ignored rfl
    · rw [hreceived]
      exact .ignored rfl
    · rw [hreceived]
      obtain ⟨sentNs, estNs, hnoted⟩ :=
        noteRetransmission_frame { r with rx := after } dg.hdr.flags nowNs
      dsimp only
      rw [hnoted]
      obtain ⟨hshard, hwritten⟩ := writeShard_congr r
        { r with rx := after, nackSentNs := sentNs, rttEstNs := estNs } rfl rfl dg.hdr.offset
        dg.payload
      rw [writeShard_frame]
      exact .accepted hstart hfresh hinside hreceived hadmits rfl hstart rfl rfl hshard hwritten

/-- A block of the shard is where it belongs once it is copied. -/
theorem getElem?_slice {block : SentBlock}
    (slice : block.payload = (data.drop block.offset).take block.payload.length) {p : Nat}
    (low : block.offset ≤ p) (high : p < block.offset + block.payload.length) :
    block.payload[p - block.offset]? = data[p]? := by
  rw [slice, List.getElem?_take_of_lt (by omega), List.getElem?_drop, Nat.add_sub_cancel' low]

theorem Holds.onData (holds : Holds data history r) {dg : DataDatagram} {block : SentBlock}
    (sent : history[dg.hdr.seqNo]? = some block) (offset : dg.hdr.offset = block.offset)
    (payload : dg.payload = block.payload)
    (inside : block.offset + block.payload.length ≤ data.length)
    (slice : block.payload = (data.drop block.offset).take block.payload.length)
    (short : history.length < 2 ^ 64) (nowNs : Nat) : Holds data history (r.onData dg nowNs) := by
  obtain ⟨hseq, _⟩ := List.getElem?_eq_some_iff.mp sent
  have harrived := onData_arrived holds.rx (show dg.hdr.seqNo < 2 ^ 64 - 1 by omega) nowNs
  generalize r.onData dg nowNs = next at harrived
  cases harrived with
  | ignored same =>
    subst same
    exact ⟨holds.rx.overflow _, holds.sent, holds.idle, holds.sized, holds.filled, holds.written⟩
  | accepted started fresh within received admits streamId haveStart shardBytes log shard written =>
    obtain ⟨hbytes, hlength⟩ := holds.sized started
    rw [offset, payload] at shard written
    obtain ⟨hspliced, hcounted⟩ := writeShard_inside (show
      block.offset + block.payload.length ≤ r.shard.length by omega)
    rw [hspliced] at shard
    rw [hcounted] at written
    constructor
    case rx => exact admits.inv
    case sent =>
      intro seq accepted
      rcases (admits.accepted seq).mp accepted with hold | hnew
      · exact holds.sent seq hold
      · rw [hnew]
        exact hseq
    case idle =>
      intro unstarted
      rw [haveStart] at unstarted
      cases unstarted
    case sized =>
      intro _
      rw [shardBytes, shard, length_splice]
      exact ⟨hbytes, by omega⟩
    case filled =>
      intro seq other p accepted hother hlow hhigh
      rw [shard]
      by_cases hcopied : block.offset ≤ p ∧ p < block.offset + block.payload.length
      · rw [getElem?_splice_inside hcopied.1 hcopied.2]
        exact getElem?_slice slice hcopied.1 hcopied.2
      · rcases (admits.accepted seq).mp accepted with hold | hnew
        · have hp := holds.filled seq other p hold hother hlow hhigh
          rcases Nat.lt_or_ge p r.shard.length with hinside | houtside
          · rw [getElem?_splice_outside hinside (by omega), hp]
          · rw [← hp, List.getElem?_eq_none houtside,
              List.getElem?_eq_none (by rw [length_splice]; omega)]
        · rw [hnew, sent] at hother
          cases hother
          exact absurd ⟨hlow, hhigh⟩ hcopied
    case written =>
      rw [written, holds.written, ← getD_blockSizes sent]
      exact (tally_mark (by rw [length_blockSizes]; exact hseq) fresh admits.accepted).symm

end Arrivals

end FuseTransport.Mux
