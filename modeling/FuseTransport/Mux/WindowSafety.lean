import FuseTransport.Mux.Sender
import FuseTransport.Proto.RoundTrip

/-!
# The multiplexed sender never outruns its registry

The registry of a stream has as many slots as the window negotiated at SETUP,
while the send limit is the congestion window clamped between four blocks and
that window.  Every run keeps the two together exactly when the negotiated
window is at least four blocks.
-/

namespace FuseTransport.Mux

open Foundation Foundation.Runs Proto SenderStreamState

inductive SenderEvent where
  | trySendOne (nowNs : Nat) (accepted : Nat → Bool)
  | incoming (dg : List UInt8) (nowNs : Nat) (accepted : Nat → Bool)

/-- One step of a sender stream: a worker's call or an incoming datagram. -/
def senderStep (s : SenderStreamState) : SenderEvent → Option SenderStreamState
  | .trySendOne nowNs accepted => (s.trySendOne nowNs accepted).map Prod.fst
  | .incoming dg nowNs accepted => some (s.dispatchIncoming dg nowNs accepted)

/-- Named as received, after it was sent, by an acknowledgement the stream
processed. -/
def Acknowledged (acks : List (Ack × Nat)) (seqNo : Nat) : Prop :=
  ∃ entry ∈ acks, seqNo < entry.2 ∧ entry.1.Asserts seqNo

/-- What the window of a stream promises in one state. -/
structure WindowSound (s : SenderStreamState) : Prop where
  defined : ∃ window, s.effectiveWindow = some window ∧ window ≤ s.windowSize
  inFlight : s.txBase ≤ s.txNextSeq ∧ s.txNextSeq - s.txBase ≤ s.windowSize
  spared : ∀ nowNs accepted next did, s.trySendOne nowNs accepted = some (next, did) →
    ∀ seqNo, s.txBase ≤ seqNo → seqNo < s.txNextSeq →
      next.reg.lookup seqNo = s.reg.lookup seqNo
  resident : ∀ seqNo, s.txBase ≤ seqNo → seqNo < s.txNextSeq →
    ¬ Acknowledged s.log.acks seqNo →
      ∃ slot, s.reg.lookup seqNo = some slot ∧
        s.log.history[seqNo]? = some ⟨slot.payload, slot.offset, slot.flags⟩

structure Windowed (s : SenderStreamState) : Prop where
  window : SendWindow (Original s.log.history) (Acknowledged s.log.acks) s.reg s.txBase s.txNextSeq
  windowSize : s.reg.windowSize = s.windowSize
  blockSize : s.blockSize ≤ kMaxPayloadSize
  recorded : s.log.history.length = s.txNextSeq

structure SenderInv (s : SenderStreamState) : Prop extends Windowed s where
  floor : 4 ≤ s.windowSize

theorem Windowed.unmoved {before after : SenderStreamState} (inv : Windowed before)
    (unmoved : Unmoved before after) : Windowed after := by
  refine ⟨?_, ?_, ?_, ?_⟩
  · rw [unmoved.history, unmoved.acks, unmoved.reg, unmoved.txBase, unmoved.txNextSeq]
    exact inv.window
  · rw [unmoved.reg, unmoved.windowSize]
    exact inv.windowSize
  · rw [unmoved.blockSize]
    exact inv.blockSize
  · rw [unmoved.history, unmoved.txNextSeq]
    exact inv.recorded

variable {s : SenderStreamState}

/-- With ordered bounds the clamp has a result between them. -/
theorem effectiveWindow_defined (floor : 4 ≤ s.windowSize) :
    ∃ window, s.effectiveWindow = some window ∧ window ≤ s.windowSize := by
  unfold effectiveWindow clamp
  rw [if_neg (Nat.not_lt.mpr floor)]
  refine ⟨_, rfl, ?_⟩
  split
  · exact floor
  · split
    · exact Nat.le_refl _
    · omega

theorem effectiveWindow_le {window : Nat} (found : s.effectiveWindow = some window) :
    window ≤ s.windowSize ∧ 4 ≤ s.windowSize := by
  unfold effectiveWindow clamp at found
  split at found
  · cases found
  · rename_i hfloor
    have hfloor' := Nat.not_lt.mp hfloor
    obtain ⟨other, hother, hle⟩ := effectiveWindow_defined hfloor'
    unfold effectiveWindow clamp at hother
    rw [if_neg hfloor, found] at hother
    cases hother
    exact ⟨hle, hfloor'⟩

theorem nextBlock_payload_le (inv : Windowed s) :
    s.nextBlock.payload.length ≤ kMaxPayloadSize := by
  unfold nextBlock
  rw [List.length_take]
  exact Nat.le_trans (Nat.min_le_left _ _) (Nat.le_trans (Nat.min_le_left _ _) inv.blockSize)

/-- Sending the next block stores it and moves on to the next number. -/
theorem sendNext_spec (inv : Windowed s) (nowNs : Nat) :
    ∃ reg, s.reg.store s.txNextSeq s.nextBlock.payload nowNs s.nextBlock.offset
        s.nextBlock.flags = some reg ∧
      (s.sendNext nowNs).1.reg = reg ∧
      (s.sendNext nowNs).1.txBase = s.txBase ∧
      (s.sendNext nowNs).1.txNextSeq = u64 (s.txNextSeq + 1) ∧
      (s.sendNext nowNs).1.windowSize = s.windowSize ∧
      (s.sendNext nowNs).1.blockSize = s.blockSize ∧
      (s.sendNext nowNs).1.log.history = s.log.history ++ [s.nextBlock] ∧
      (s.sendNext nowNs).1.log.acks = s.log.acks := by
  have hle := nextBlock_payload_le inv
  have hlen : ¬ s.nextBlock.payload.length > kMaxPayloadSize := Nat.not_lt.mpr hle
  have hcap : ¬ kMaxDatagramSize < kDataPrefixSize + s.nextBlock.payload.length := by
    unfold kMaxDatagramSize
    omega
  have hstore : ∃ reg, s.reg.store s.txNextSeq s.nextBlock.payload nowNs s.nextBlock.offset
      s.nextBlock.flags = some reg := by
    unfold SenderRegistry.store
    rw [if_neg hlen]
    exact ⟨_, rfl⟩
  obtain ⟨reg, hreg⟩ := hstore
  refine ⟨reg, hreg, ?_⟩
  unfold sendNext encodeDataDatagram
  dsimp only
  rw [if_neg hlen, if_neg hcap, hreg]
  exact ⟨rfl, rfl, rfl, rfl, rfl, rfl, rfl⟩

/-- The room the guard leaves for one more block. -/
theorem guard_room (inv : Windowed s) {window : Nat} (found : s.effectiveWindow = some window)
    (guard : s.txNextSeq < u64 (s.txBase + window)) :
    s.txNextSeq < s.txBase + s.reg.windowSize ∧ s.txNextSeq + 1 < 2 ^ 64 := by
  have hsize := inv.windowSize
  obtain ⟨hle, _⟩ := effectiveWindow_le found
  obtain ⟨hroom, hfits⟩ := SendWindow.guard_exact guard
  exact ⟨by omega, hfits⟩

theorem Windowed.sendNext (inv : Windowed s) {window : Nat}
    (found : s.effectiveWindow = some window) (guard : s.txNextSeq < u64 (s.txBase + window))
    (nowNs : Nat) : Windowed (s.sendNext nowNs).1 := by
  obtain ⟨hroom, hfits⟩ := guard_room inv found guard
  obtain ⟨reg, hstore, hreg, hbase, hnext, hwindow, hblock, hhistory, hacks⟩ :=
    sendNext_spec inv nowNs
  rw [u64_of_lt hfits] at hnext
  refine ⟨?_, ?_, by rw [hblock]; exact inv.blockSize, ?_⟩
  · rw [hreg, hbase, hnext, hhistory, hacks]
    exact inv.window.store inv.recorded hroom hfits hstore
  · rw [hreg, hwindow, SenderRegistry.store_windowSize hstore]
    exact inv.windowSize
  · rw [hhistory, hnext, List.length_append, inv.recorded]
    rfl

/-- What an acknowledgement of this session does to the window. -/
theorem onAck_spec (s : SenderStreamState) (ack : Ack) (nowNs : Nat)
    (session : ack.nonce = s.nonce) :
    (s.onAck ack nowNs).reg =
        (applyAck s.reg ack s.txBase s.txNextSeq (some s.receivedEnd)).reg ∧
      (s.onAck ack nowNs).txBase =
        (applyAck s.reg ack s.txBase s.txNextSeq (some s.receivedEnd)).base ∧
      (s.onAck ack nowNs).txNextSeq = s.txNextSeq ∧
      (s.onAck ack nowNs).windowSize = s.windowSize ∧
      (s.onAck ack nowNs).blockSize = s.blockSize ∧
      (s.onAck ack nowNs).log.history = s.log.history ∧
      (s.onAck ack nowNs).log.acks = (ack, s.txNextSeq) :: s.log.acks := by
  unfold onAck
  rw [if_neg (not_not_intro session)]
  dsimp only
  split <;> split <;> split <;> exact ⟨rfl, rfl, rfl, rfl, rfl, rfl, rfl⟩

theorem onAck_windowSize (s : SenderStreamState) (ack : Ack) (nowNs : Nat) :
    (s.onAck ack nowNs).windowSize = s.windowSize := by
  by_cases session : ack.nonce = s.nonce
  · exact (onAck_spec s ack nowNs session).2.2.2.1
  · unfold onAck
    rw [if_pos session]

theorem onAck_blockSize (s : SenderStreamState) (ack : Ack) (nowNs : Nat) :
    (s.onAck ack nowNs).blockSize = s.blockSize := by
  by_cases session : ack.nonce = s.nonce
  · exact (onAck_spec s ack nowNs session).2.2.2.2.1
  · unfold onAck
    rw [if_pos session]

/-- An acknowledgement brings no block into the registry. -/
theorem onAck_lookup (inv : Windowed s) (ack : Ack) (nowNs : Nat) {seq : Nat}
    {slot : RegistrySlot} (found : (s.onAck ack nowNs).reg.lookup seq = some slot) :
    s.reg.lookup seq = some slot ∧ (s.onAck ack nowNs).txNextSeq = s.txNextSeq := by
  by_cases session : ack.nonce = s.nonce
  · obtain ⟨hreg, _, hnext, _⟩ := onAck_spec s ack nowNs session
    have hfrees := applyAck_frees s.reg ack (some s.receivedEnd) inv.window.ordered
      (Nat.le_trans inv.window.window (Nat.add_le_add_left s.reg.window_le _)) inv.window.bounded
    rw [hreg] at found
    exact ⟨hfrees.lookup_some found, hnext⟩
  · unfold onAck at found ⊢
    rw [if_pos session] at found ⊢
    exact ⟨found, rfl⟩

theorem acknowledged_cons {acks : List (Ack × Nat)} {seqNo : Nat} (entry : Ack × Nat)
    (acknowledged : Acknowledged acks seqNo) : Acknowledged (entry :: acks) seqNo := by
  obtain ⟨earlier, member, hnamed⟩ := acknowledged
  exact ⟨earlier, List.mem_cons_of_mem entry member, hnamed⟩

theorem Windowed.onAck (inv : Windowed s) (ack : Ack) (nowNs : Nat) :
    Windowed (s.onAck ack nowNs) := by
  by_cases session : ack.nonce = s.nonce
  · obtain ⟨hreg, hbase, hnext, hwindow, hblock, hhistory, hacks⟩ := onAck_spec s ack nowNs session
    have hlonger : SendWindow (Original s.log.history)
        (Acknowledged ((ack, s.txNextSeq) :: s.log.acks)) s.reg s.txBase s.txNextSeq :=
      inv.window.mono (fun _ _ _ original => original) fun _ done => acknowledged_cons _ done
    have happlied := hlonger.applyAck ack (some s.receivedEnd) fun seqNo sent asserted =>
      ⟨(ack, s.txNextSeq), List.mem_cons_self .., sent, asserted⟩
    have hsize := (applyAck_frees s.reg ack (some s.receivedEnd) inv.window.ordered
      (Nat.le_trans inv.window.window (Nat.add_le_add_left s.reg.window_le _))
      inv.window.bounded).window
    refine ⟨?_, ?_, by rw [hblock]; exact inv.blockSize, ?_⟩
    · rw [hreg, hbase, hnext, hhistory, hacks]
      exact happlied
    · rw [hreg, hwindow, hsize]
      exact inv.windowSize
    · rw [hhistory, hnext]
      exact inv.recorded
  · unfold SenderStreamState.onAck
    rw [if_pos session]
    exact inv

/-- What an incoming datagram can do to a stream. -/
theorem dispatchIncoming_cases (s : SenderStreamState) (dg : List UInt8) (nowNs : Nat)
    (accepted : Nat → Bool) :
    s.dispatchIncoming dg nowNs accepted = s ∨
      (∃ ack, decodeAck dg = some ack ∧ ack.streamId = s.streamId ∧
        s.dispatchIncoming dg nowNs accepted = s.onAck ack nowNs) ∨
      ∃ nack, decodeNack dg = some nack ∧ nack.streamId = s.streamId ∧
        s.dispatchIncoming dg nowNs accepted = s.onNack nack nowNs accepted := by
  unfold dispatchIncoming
  split
  · split
    · rename_i ack decoded
      split
      · rename_i mine
        exact Or.inr (Or.inl ⟨ack, decoded, mine, rfl⟩)
      · exact Or.inl rfl
    · exact Or.inl rfl
  · split
    · rename_i nack decoded
      split
      · rename_i mine
        exact Or.inr (Or.inr ⟨nack, decoded, mine, rfl⟩)
      · exact Or.inl rfl
    · exact Or.inl rfl
  · exact Or.inl rfl

theorem Windowed.dispatchIncoming (inv : Windowed s) (dg : List UInt8) (nowNs : Nat)
    (accepted : Nat → Bool) : Windowed (s.dispatchIncoming dg nowNs accepted) := by
  rcases dispatchIncoming_cases s dg nowNs accepted with
    hsame | ⟨ack, _, _, hack⟩ | ⟨nack, _, _, hnack⟩
  · rw [hsame]
    exact inv
  · rw [hack]
    exact inv.onAck ack nowNs
  · rw [hnack]
    exact inv.unmoved (onNack_unmoved s nack nowNs accepted)

variable {nowNs : Nat} {accepted : Nat → Bool} {did : Bool} {next : SenderStreamState}

theorem Windowed.trySendOne (inv : Windowed s)
    (sent : s.trySendOne nowNs accepted = some (next, did)) :
    Windowed next := by
  rcases trySendOne_cases sent with hunmoved | ⟨polled, window, hpolled, hwindow, guard, rfl⟩
  · exact inv.unmoved hunmoved
  · exact (inv.unmoved hpolled).sendNext hwindow guard nowNs

theorem trySendOne_windowSize (inv : Windowed s)
    (sent : s.trySendOne nowNs accepted = some (next, did)) :
    next.windowSize = s.windowSize := by
  rcases trySendOne_cases sent with hunmoved | ⟨polled, window, hpolled, hwindow, guard, rfl⟩
  · exact hunmoved.windowSize
  · obtain ⟨_, _, _, _, _, hsize, _⟩ := sendNext_spec (inv.unmoved hpolled) nowNs
    rw [hsize, hpolled.windowSize]

theorem dispatchIncoming_windowSize (s : SenderStreamState) (dg : List UInt8) (nowNs : Nat)
    (accepted : Nat → Bool) : (s.dispatchIncoming dg nowNs accepted).windowSize = s.windowSize := by
  rcases dispatchIncoming_cases s dg nowNs accepted with
    hsame | ⟨ack, _, _, hack⟩ | ⟨nack, _, _, hnack⟩
  · rw [hsame]
  · rw [hack]
    exact onAck_windowSize s ack nowNs
  · rw [hnack]
    exact (onNack_unmoved s nack nowNs accepted).windowSize

theorem inv_senderStep (s : SenderStreamState) (event : SenderEvent) (next : SenderStreamState)
    (inv : SenderInv s) (stepped : senderStep s event = some next) : SenderInv next := by
  cases event with
  | trySendOne nowNs accepted =>
    obtain ⟨⟨sent, did⟩, htried, rfl⟩ := Option.map_eq_some_iff.mp stepped
    exact ⟨inv.toWindowed.trySendOne htried,
      (trySendOne_windowSize inv.toWindowed htried).symm ▸ inv.floor⟩
  | incoming dg nowNs accepted =>
    cases stepped
    exact ⟨inv.toWindowed.dispatchIncoming dg nowNs accepted,
      (dispatchIncoming_windowSize s dg nowNs accepted).symm ▸ inv.floor⟩

theorem inv_create (config : StreamConfig) (valid : streamConfigValid config = true)
    (floor : 4 ≤ config.windowSize) (data : List UInt8) (nonce clockOffset nowNs : Nat) :
    SenderInv (create config.streamId config.blockSize config.windowSize data nonce clockOffset
      nowNs) := by
  obtain ⟨⟨_, hblock⟩, hpos, hle⟩ := (streamConfigValid_iff config).mp valid
  exact ⟨⟨SendWindow.create _ _, clampWindow_of_valid hpos hle, hblock, rfl⟩, floor⟩

/-- A unit of sending work leaves every unacknowledged block in its slot. -/
theorem trySendOne_spares (inv : Windowed s)
    (sent : s.trySendOne nowNs accepted = some (next, did)) {seqNo : Nat}
    (above : s.txBase ≤ seqNo) (below : seqNo < s.txNextSeq) :
    next.reg.lookup seqNo = s.reg.lookup seqNo := by
  rcases trySendOne_cases sent with hunmoved | ⟨polled, window, hpolled, hwindow, guard, rfl⟩
  · rw [hunmoved.reg]
  · have hinv := inv.unmoved hpolled
    obtain ⟨hroom, _⟩ := guard_room hinv hwindow guard
    obtain ⟨reg, hstore, hreg, _⟩ := sendNext_spec hinv nowNs
    have hsent : seqNo < polled.txNextSeq := by
      rw [hpolled.txNextSeq]
      exact below
    have hother : seqNo ≠ polled.txNextSeq := Nat.ne_of_lt hsent
    have hslot : ¬ seqNo % polled.reg.windowSize = polled.txNextSeq % polled.reg.windowSize := by
      intro hsame
      have hpast := hinv.window.store_overwrites hroom hsent hsame
      rw [hpolled.txBase] at hpast
      omega
    rw [hreg, SenderRegistry.lookup_store hstore, if_neg hother, if_neg hslot, hpolled.reg]

theorem sound_of_inv (inv : SenderInv s) : WindowSound s where
  defined := effectiveWindow_defined inv.floor
  inFlight := by
    have hwindow := inv.window.window
    have hsize := inv.windowSize
    exact ⟨inv.window.ordered, by omega⟩
  spared := fun _ _ _ _ sent _ above below => trySendOne_spares inv.toWindowed sent above below
  resident := fun _ _ below pending => inv.window.lookup_of_not_done below pending

/-- For every stream of a valid SETUP payload: its window is sound in every
reachable state exactly when the negotiated window is at least four blocks. -/
theorem window_sound_iff (payload : SetupPayload) (valid : setupPayloadValid payload = true)
    (config : StreamConfig) (member : config ∈ payload.streams) (data : List UInt8)
    (nonce clockOffset nowNs : Nat) :
    (∀ s, Reachable senderStep
        (create config.streamId config.blockSize config.windowSize data nonce clockOffset nowNs) s →
      WindowSound s) ↔ 4 ≤ config.windowSize := by
  constructor
  · intro sound
    obtain ⟨window, hwindow, _⟩ := (sound _ (Reachable.refl _)).defined
    exact (effectiveWindow_le hwindow).2
  · intro floor s reached
    have hvalid := setupPayloadValid_mem valid member
    exact sound_of_inv (reached.invariant inv_senderStep
      (inv_create config hvalid floor data nonce clockOffset nowNs))

/-- A payload whose one stream asks for a window of `windowSize` blocks. -/
def onePayload (windowSize : Nat) : SetupPayload where
  numWorkers := 1
  streams := [{ streamFlags := kStreamFlagLossless, blockSize := 1200, windowSize := windowSize }]

/-- A stream with a window of four blocks. -/
theorem window_sound_four :
    setupPayloadValid (onePayload 4) = true ∧
      ∀ s, Reachable senderStep (create 0 1200 4 [1, 2, 3] 7 0 1) s → WindowSound s := by
  have hvalid : setupPayloadValid (onePayload 4) = true := by decide
  exact ⟨hvalid, (window_sound_iff (onePayload 4) hvalid _ (List.mem_singleton_self _) [1, 2, 3] 7 0
    1).mpr (by decide)⟩

/-- A window of three blocks passes SETUP, and the first attempt to send a block
after the StreamStart is acknowledged clamps between bounds out of order. -/
theorem window_of_three_undefined :
    setupPayloadValid (onePayload 3) = true ∧
      ∃ s, replay senderStep (create 0 1200 3 [1, 2, 3] 7 0 1)
          [.trySendOne 10 fun _ => true,
            .incoming (ackBytes { nonce := 7 }) 20 fun _ => true] = some s ∧
        s.trySendOne 30 (fun _ => true) = none ∧ ¬ WindowSound s := by
  have hpeek : peekMsgType (ackBytes { nonce := 7 }) = some .ack := rfl
  have hack : decodeAck (ackBytes { nonce := 7 }) = some { nonce := 7 } := by
    have hdecoded := decodeAck_encode { nonce := 7 } ⟨by decide, by decide, by decide, by decide,
      by decide⟩ []
    rwa [List.append_nil] at hdecoded
  refine ⟨by decide,
    (((create 0 1200 3 [1, 2, 3] 7 0 1).trySendStart 10).1.onAck { nonce := 7 } 20), ?_, rfl, ?_⟩
  · rw [replay_cons_some _ rfl, replay_cons, senderStep, dispatchIncoming]
    rw [hack]
    rfl
  · intro sound
    obtain ⟨window, hwindow, _⟩ := sound.defined
    cases hwindow

end FuseTransport.Mux
