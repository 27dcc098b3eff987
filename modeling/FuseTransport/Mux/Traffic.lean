import FuseTransport.Foundation.Tally
import FuseTransport.Mux.Session

/-!
# What the streams of a multiplexed transfer send

A stream cuts its shard into blocks from the front.  All it ever sends is its StreamStart and
these blocks, the first time or again, so every datagram on the way says which bytes of which
shard it carries.
-/

namespace FuseTransport.Mux

open Foundation Foundation.Runs Foundation.Tally Proto SenderStreamState

def blockSizes (history : List SentBlock) : List Nat := history.map fun block => block.payload.length

@[simp]
theorem length_blockSizes (history : List SentBlock) :
    (blockSizes history).length = history.length := List.length_map _

theorem blockSizes_append (history : List SentBlock) (added : SentBlock) :
    blockSizes (history ++ [added]) = blockSizes history ++ [added.payload.length] := by
  simp [blockSizes]

theorem getD_blockSizes {history : List SentBlock} {k : Nat} {block : SentBlock}
    (found : history[k]? = some block) : (blockSizes history).getD k 0 = block.payload.length := by
  simp [blockSizes, found]

/-- The blocks are slices of the shard, and together its bytes up to `nextOffset`. -/
structure Tiles (data : List UInt8) (history : List SentBlock) (nextOffset : Nat) : Prop where
  slices : ∀ block ∈ history, block.offset + block.payload.length ≤ data.length ∧
    block.payload = (data.drop block.offset).take block.payload.length
  covers : ∀ p, p < nextOffset → ∃ (k : Nat) (block : SentBlock), history[k]? = some block ∧
    block.offset ≤ p ∧ p < block.offset + block.payload.length
  total : total (blockSizes history) = nextOffset
  inside : nextOffset ≤ data.length

theorem tiles_nil (data : List UInt8) : Tiles data [] 0 :=
  ⟨nofun, nofun, rfl, Nat.zero_le _⟩

variable {s : SenderStreamState}

theorem length_nextBlock (inside : s.nextOffset ≤ s.data.length) :
    s.nextBlock.payload.length = min s.blockSize (s.data.length - s.nextOffset) := by
  rw [nextBlock, List.length_take, List.length_drop]
  omega

theorem Tiles.next (tiles : Tiles s.data s.log.history s.nextOffset) :
    Tiles s.data (s.log.history ++ [s.nextBlock])
      (s.nextOffset + s.nextBlock.payload.length) := by
  have hlength := length_nextBlock tiles.inside
  have hinside := tiles.inside
  constructor
  · intro block member
    rcases List.mem_append.mp member with hold | hnew
    · exact tiles.slices block hold
    · rw [List.mem_singleton.mp hnew]
      refine ⟨?_, ?_⟩
      · change s.nextOffset + s.nextBlock.payload.length ≤ s.data.length
        omega
      · rw [hlength]
        rfl
  · intro p before
    rcases Nat.lt_or_ge p s.nextOffset with hold | hnew
    · obtain ⟨k, block, hblock, hspan⟩ := tiles.covers p hold
      obtain ⟨hlt, _⟩ := List.getElem?_eq_some_iff.mp hblock
      exact ⟨k, block, by rw [List.getElem?_append_left hlt, hblock], hspan⟩
    · exact ⟨s.log.history.length, s.nextBlock, List.getElem?_concat_length, hnew, before⟩
  · rw [blockSizes_append, total_append, tiles.total]
  · omega

/-! ## Datagrams of a stream -/

/-- A datagram of stream `i`: its StreamStart, or a block of its history. -/
inductive Carried (i : Nat) (data : List UInt8) (history : List SentBlock) : List UInt8 → Prop where
  | start {ss : StreamStart} (fits : ss.Fits) (stream : ss.streamId = i)
      (size : ss.totalBytes = data.length) : Carried i data history (streamStartBytes ss)
  | block {hdr : BlockHeader} {sendNs : Nat} {block : SentBlock} (fits : hdr.Fits)
      (word : sendNs < 2 ^ 64) (stream : hdr.streamId = i)
      (sent : history[hdr.seqNo]? = some block) (offset : hdr.offset = block.offset)
      (length : hdr.payloadLen = block.payload.length) :
      Carried i data history (dataPrefix hdr sendNs ++ block.payload)

variable {dg : List UInt8}

theorem Carried.append {i : Nat} {data : List UInt8} {history : List SentBlock}
    (carried : Carried i data history dg) (added : SentBlock) :
    Carried i data (history ++ [added]) dg := by
  cases carried with
  | start fits stream size => exact .start fits stream size
  | block fits word stream sent offset length =>
    obtain ⟨hlt, _⟩ := List.getElem?_eq_some_iff.mp sent
    exact .block fits word stream (by rw [List.getElem?_append_left hlt, sent]) offset length

theorem encodeDataDatagram_some {hdr : BlockHeader} {sendNs cap : Nat} {payload : List UInt8}
    (encoded : encodeDataDatagram hdr sendNs payload cap = some dg) :
    hdr.payloadLen ≤ kMaxPayloadSize ∧ dg = dataPrefix hdr sendNs ++ payload := by
  obtain ⟨hsmall, encoded⟩ := Option.ite_none_left_eq_some.mp encoded
  split at encoded
  · cases encoded
  · cases encoded
    exact ⟨Nat.not_lt.mp hsmall, rfl⟩

structure Emits (job : MuxTransfer) (i : Nat) (s : SenderStreamState) : Prop where
  inside : i < job.numStreams
  streamId : s.streamId = i
  data : s.data = job.shard i
  blockSize : s.blockSize = job.blockSize
  windowSize : s.windowSize = job.windowSize
  nonce : s.nonce < 2 ^ 64
  waits : s.retransmitBacklog.coalesce = false
  windowed : Windowed s
  stored : ∀ seq slot, s.reg.lookup seq = some slot → seq < s.txNextSeq
  tiles : Tiles s.data s.log.history s.nextOffset
  wire : ∀ dg ∈ s.log.wire, Carried i s.data s.log.history dg

theorem MuxTransfer.length_shard_lt (job : MuxTransfer) (i : Nat) :
    (job.shard i).length < 2 ^ 63 := by
  have hlength : (job.shard i).length ≤ job.data.length := by
    rw [MuxTransfer.shard, List.length_take, List.length_drop]
    omega
  exact Nat.lt_of_le_of_lt hlength job.data_lt

structure SendsNext (s next : SenderStreamState) (nowNs : Nat) : Prop where
  streamId : next.streamId = s.streamId
  data : next.data = s.data
  nonce : next.nonce = s.nonce
  nextOffset : next.nextOffset = s.nextOffset + s.nextBlock.payload.length
  attempts : next.log.attempts = s.log.attempts
  backlog : SameBacklog s next
  done : next.done = s.done
  wire : ∀ dg ∈ next.log.wire, dg ∈ s.log.wire ∨
    encodeDataDatagram
      { streamId := s.streamId, seqNo := s.txNextSeq, flags := s.nextBlock.flags,
        payloadLen := s.nextBlock.payload.length, offset := s.nextBlock.offset }
      (u64 (nowNs + s.clockOffset)) s.nextBlock.payload kMaxDatagramSize = some dg

theorem sendNext_keeps (inv : Windowed s) (nowNs : Nat) :
    SendsNext s (s.sendNext nowNs).1 nowNs := by
  have hsmall := nextBlock_payload_le inv
  have hencoded : encodeDataDatagram
      { streamId := s.streamId, seqNo := s.txNextSeq, flags := s.nextBlock.flags,
        payloadLen := s.nextBlock.payload.length, offset := s.nextBlock.offset }
      (u64 (nowNs + s.clockOffset)) s.nextBlock.payload kMaxDatagramSize ≠ none := by
    unfold encodeDataDatagram kMaxDatagramSize
    rw [if_neg (Nat.not_lt.mpr hsmall), if_neg (by dsimp only; omega)]
    exact Option.some_ne_none _
  unfold sendNext
  dsimp only
  split
  · rename_i hnone
    exact absurd hnone hencoded
  · rename_i dgram hsome
    refine ⟨rfl, rfl, rfl, rfl, rfl, ⟨rfl, rfl⟩, rfl, ?_⟩
    intro dg member
    rcases List.mem_cons.mp member with rfl | hold
    · exact Or.inr hsome
    · exact Or.inl hold

namespace Emits

variable {job : MuxTransfer} {i : Nat} {s next : SenderStreamState}

section

variable (emits : Emits job i s)
include emits

theorem stream_lt : s.streamId < 2 ^ 16 := by
  have hcount := job.streams_le
  have hinside := emits.inside
  unfold kMaxStreams at hcount
  rw [emits.streamId]
  omega

theorem data_lt : s.data.length < 2 ^ 63 := by
  rw [emits.data]
  exact job.length_shard_lt i

theorem streamStart_fits : s.streamStart.Fits := by
  have hzero : 0 < 2 ^ 64 := by decide
  refine ⟨emits.stream_lt, hzero, ?_, ?_, rfl, emits.nonce, hzero, hzero, hzero, hzero,
    Nat.zero_le _, rfl⟩
  · change s.blockSize < 2 ^ 16
    rw [emits.blockSize]
    exact job.blockSize_lt
  · exact Nat.lt_trans emits.data_lt (by decide)

/-- A datagram the stream repeats is one of its own. -/
theorem again (again : Again s dg) : Carried i s.data s.log.history dg := by
  have hdata := emits.data_lt
  cases again with
  | start encoded =>
    rw [encodeStreamStart] at encoded
    split at encoded
    · cases encoded
    · rw [emit_eq_some encoded]
      exact .start emits.streamStart_fits emits.streamId rfl
  | @block seq slot resident sendNs encoded =>
    obtain ⟨hsmall, rfl⟩ := encodeDataDatagram_some encoded
    have hsent := emits.stored seq slot resident
    have hblock := emits.windowed.window.original seq slot hsent resident
    have hslice := (emits.tiles.slices _ (List.mem_of_getElem? hblock)).1
    have hword := emits.windowed.window.bounded
    dsimp only at hslice
    exact .block ⟨emits.stream_lt, Nat.lt_trans hsent hword, hsmall, by dsimp only; omega⟩
      (u64_lt _) emits.streamId hblock rfl rfl

/-- A step that leaves the window and the shard alone, and sends only what is the stream's. -/
theorem congr (unmoved : Unmoved s next) (shard : SameShard s next)
    (waits : next.retransmitBacklog.coalesce = s.retransmitBacklog.coalesce)
    (wire : ∀ dg ∈ next.log.wire, dg ∈ s.log.wire ∨ Again s dg) : Emits job i next where
  inside := emits.inside
  streamId := shard.streamId.trans emits.streamId
  data := shard.data.trans emits.data
  blockSize := unmoved.blockSize.trans emits.blockSize
  windowSize := unmoved.windowSize.trans emits.windowSize
  nonce := shard.nonce ▸ emits.nonce
  waits := waits.trans emits.waits
  windowed := emits.windowed.unmoved unmoved
  stored := by
    rw [unmoved.reg, unmoved.txNextSeq]
    exact emits.stored
  tiles := by
    rw [shard.data, unmoved.history, shard.nextOffset]
    exact emits.tiles
  wire := by
    intro dg member
    rw [shard.data, unmoved.history]
    rcases wire dg member with hold | hagain
    · exact emits.wire dg hold
    · exact emits.again hagain

theorem repeats {seqs : List Nat} (again : Repeats s next seqs) : Emits job i next :=
  emits.congr again.unmoved again.shard (by rw [again.backlog.retransmitBacklog]) again.wire

theorem sendNext {window : Nat} (found : s.effectiveWindow = some window)
    (guard : s.txNextSeq < u64 (s.txBase + window)) (nowNs : Nat) :
    Emits job i (s.sendNext nowNs).1 := by
  obtain ⟨_, hfits⟩ := guard_room emits.windowed found guard
  obtain ⟨reg, hstore, hreg, _, hnext, hwindow, hblock, hhistory, _⟩ :=
    sendNext_spec emits.windowed nowNs
  have hkept := sendNext_keeps emits.windowed nowNs
  rw [u64_of_lt hfits] at hnext
  constructor
  case inside => exact emits.inside
  case streamId => exact hkept.streamId.trans emits.streamId
  case data => exact hkept.data.trans emits.data
  case blockSize => exact hblock.trans emits.blockSize
  case windowSize => exact hwindow.trans emits.windowSize
  case nonce => exact hkept.nonce ▸ emits.nonce
  case waits =>
    rw [hkept.backlog.retransmitBacklog]
    exact emits.waits
  case windowed => exact emits.windowed.sendNext found guard nowNs
  case stored =>
    intro seq slot found
    rw [hreg, SenderRegistry.lookup_store hstore] at found
    rw [hnext]
    split at found
    · omega
    · split at found
      · cases found
      · exact Nat.lt_succ_of_lt (emits.stored seq slot found)
  case tiles =>
    rw [hkept.data, hhistory, hkept.nextOffset]
    exact emits.tiles.next
  case wire =>
    intro dg member
    rw [hkept.data, hhistory]
    rcases hkept.wire dg member with hold | hnew
    · exact (emits.wire dg hold).append _
    · obtain ⟨hsmall, rfl⟩ := encodeDataDatagram_some hnew
      have hslice := (emits.tiles.next.slices _
        (List.mem_append_right _ (List.mem_singleton_self _))).1
      have hdata := emits.data_lt
      refine .block ⟨emits.stream_lt, ?_, hsmall, ?_⟩ (u64_lt _) emits.streamId ?_ rfl rfl
      · dsimp only
        omega
      · dsimp only
        omega
      · rw [← emits.windowed.recorded]
        exact List.getElem?_concat_length

theorem trySendOne {nowNs : Nat} {accepted : Nat → Bool} {did : Bool}
    (sent : s.trySendOne nowNs accepted = some (next, did)) : Emits job i next := by
  cases trySendOne_tried sent with
  | repeated again => exact emits.repeats again
  | popped taken again =>
    refine (emits.congr taken.unmoved taken.shard taken.coalesce ?_).repeats again
    intro dg member
    exact Or.inl (taken.log ▸ member)
  | sent running none poll found left guard => exact (emits.repeats poll).sendNext found guard nowNs

theorem onAck (ack : Ack) (nowNs : Nat) : Emits job i (s.onAck ack nowNs) := by
  obtain ⟨hshard, hbacklog, hwire, hhistory, _⟩ := onAck_keeps s ack nowNs
  have hwindowed := emits.windowed.onAck ack nowNs
  constructor
  case inside => exact emits.inside
  case streamId => exact hshard.streamId.trans emits.streamId
  case data => exact hshard.data.trans emits.data
  case blockSize => exact (onAck_blockSize s ack nowNs).trans emits.blockSize
  case windowSize => exact (onAck_windowSize s ack nowNs).trans emits.windowSize
  case nonce => exact hshard.nonce ▸ emits.nonce
  case waits =>
    rw [hbacklog.retransmitBacklog]
    exact emits.waits
  case windowed => exact hwindowed
  case stored =>
    intro seq slot found
    obtain ⟨hkept, hnext⟩ := onAck_lookup emits.windowed ack nowNs found
    rw [hnext]
    exact emits.stored seq slot hkept
  case tiles =>
    rw [hshard.data, hhistory, hshard.nextOffset]
    exact emits.tiles
  case wire =>
    rw [hshard.data, hhistory, hwire]
    exact emits.wire

theorem requested {seq : Nat} (requested : Requested s seq next) : Emits job i next := by
  cases requested with
  | waiting marked => exact emits
  | joined unmarked unmoved shard done log items coalesce queued =>
    exact emits.congr unmoved shard coalesce fun dg member => Or.inl (log ▸ member)
  | atOnce again => exact emits.repeats again

theorem onNack (nack : Nack) (nowNs : Nat) (accepted : Nat → Bool) :
    Emits job i (s.onNack nack nowNs accepted) := by
  unfold SenderStreamState.onNack
  split
  · exact emits
  · have hloss : Emits job i { s with cc := s.cc.onLoss } := emits.repeats (Repeats.quiet
      ⟨rfl, rfl, rfl, rfl, rfl, rfl, rfl⟩ ⟨rfl, rfl, rfl, rfl⟩ ⟨rfl, rfl⟩ rfl rfl)
    generalize { s with cc := s.cc.onLoss } = first at hloss
    induction nack.missing generalizing first with
    | nil => exact hloss
    | cons seq rest ih =>
      exact ih _ (hloss.requested (onMissing_requested nowNs accepted hloss.waits seq))

theorem dispatchIncoming (dg : List UInt8) (nowNs : Nat) (accepted : Nat → Bool) :
    Emits job i (s.dispatchIncoming dg nowNs accepted) := by
  rcases dispatchIncoming_cases s dg nowNs accepted with
    hsame | ⟨ack, _, _, hack⟩ | ⟨nack, _, _, hnack⟩
  · rw [hsame]
    exact emits
  · rw [hack]
    exact emits.onAck ack nowNs
  · rw [hnack]
    exact emits.onNack nack nowNs accepted

end

theorem create (valid : setupPayloadValid job.payload = true) (inside : i < job.numStreams)
    (nonce clockOffset nowNs : Nat) :
    Emits job i (SenderStreamState.create i job.blockSize job.windowSize (job.shard i) (u64 nonce)
      clockOffset nowNs) where
  inside := inside
  streamId := rfl
  data := rfl
  blockSize := rfl
  windowSize := rfl
  nonce := u64_lt nonce
  waits := rfl
  windowed := by
    have hmember : job.streamConfig i ∈ job.payload.streams :=
      List.mem_map_of_mem (List.mem_range.mpr inside)
    obtain ⟨⟨_, hblock⟩, hpos, hle⟩ :=
      (streamConfigValid_iff _).mp (setupPayloadValid_mem valid hmember)
    exact ⟨SendWindow.create _ _, clampWindow_of_valid hpos hle, hblock, rfl⟩
  stored := by
    intro seq slot found
    cases found
  tiles := tiles_nil _
  wire := nofun

/-- A unit of work adds at most one block to the history. -/
theorem trySendOne_history (emits : Emits job i s) {nowNs : Nat} {accepted : Nat → Bool}
    {did : Bool} (sent : s.trySendOne nowNs accepted = some (next, did)) :
    next.log.history = s.log.history ∨ ∃ block, next.log.history = s.log.history ++ [block] := by
  cases trySendOne_tried sent with
  | repeated again => exact Or.inl again.unmoved.history
  | popped taken again => exact Or.inl (again.unmoved.history.trans taken.unmoved.history)
  | sent running none poll found left guard =>
    obtain ⟨_, _, _, _, _, _, _, hhistory, _⟩ := sendNext_spec (emits.repeats poll).windowed nowNs
    exact Or.inr ⟨_, by rw [hhistory, poll.unmoved.history]⟩

theorem dispatchIncoming_history (s : SenderStreamState) (dg : List UInt8) (nowNs : Nat)
    (accepted : Nat → Bool) :
    (s.dispatchIncoming dg nowNs accepted).log.history = s.log.history := by
  rcases dispatchIncoming_cases s dg nowNs accepted with
    hsame | ⟨ack, _, _, hack⟩ | ⟨nack, _, _, hnack⟩
  · rw [hsame]
  · rw [hack]
    exact (onAck_keeps s ack nowNs).2.2.2.1
  · rw [hnack]
    exact (onNack_unmoved s nack nowNs accepted).history

end Emits

end FuseTransport.Mux
