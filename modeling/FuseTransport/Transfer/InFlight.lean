import FuseTransport.Proto.AckOrder
import FuseTransport.Transfer.LoopRuns

/-!
# What a lane has in flight

The bytes that were sent and not acknowledged are those of the blocks the registry still
holds, whatever acknowledgements come.  A batch fills the windows up to at most one block
more.  The window of the receiver counts blocks while the loop counts bytes, so it is kept
when the blocks in flight are as large as the current block size.
-/

namespace FuseTransport.Transfer

open Foundation.Runs Proto

namespace SendLane

def historyBytes (L : SendLane) : Nat := (L.history.map fun block => block.payload.length).sum

/-- The payload bytes of the blocks sent and not acknowledged. -/
def heldBytes (L : SendLane) : Nat := L.reg.bytesBetween L.base L.nextSeq

/-- How many blocks are sent and not acknowledged. -/
def heldBlocks (L : SendLane) : Nat := L.reg.weightBetween (fun _ => 1) L.base L.nextSeq

section Blocks

variable {cfg : SendConfig} {lane : Nat} {L L' : SendLane}

theorem SameBlocks.counts (same : SameBlocks L L') :
    L'.historyBytes = L.historyBytes ∧ L'.heldBytes = L.heldBytes := by
  unfold historyBytes heldBytes
  rw [same.history, same.reg, same.base, same.nextSeq]
  exact ⟨rfl, rfl⟩

/-- A lane never sends more than its shard. -/
theorem Kept.historyBytes_le (kept : L.Kept cfg lane) : L.historyBytes ≤ cfg.shardBytes lane := by
  have htiles := congrArg List.length kept.tiled.tiles
  rw [List.length_append, length_carried, length_spots] at htiles
  have hsum := kept.sound.walk.ranges.sum_le
  unfold historyBytes
  omega

theorem Kept.historyBytes_lt (kept : L.Kept cfg lane) : L.historyBytes < 2 ^ 64 := by
  have hle := kept.historyBytes_le
  have hinside := shard_inside cfg.data.length cfg.lanes lane
  have hdata := cfg.data_fits
  unfold SendConfig.shardBytes at hle
  omega

/-- The bytes an acknowledgement confirms are held no longer. -/
theorem Kept.heldBytes_onAck (kept : L.Kept cfg lane) (ack : Ack) :
    (applyAck L.reg ack L.base L.nextSeq (some L.receivedEnd)).bytes + (L.onAck ack).heldBytes =
      L.heldBytes := by
  have hwindow := kept.sound.window
  have hordered := hwindow.ordered
  have hbalanced := applyAck_balanced L.reg ack (some L.receivedEnd) hordered
  have hbase := applyAck_base L.reg ack (some L.receivedEnd) hordered
  have hfrees := applyAck_frees L.reg ack (some L.receivedEnd) hordered
    (Nat.le_trans hwindow.window (Nat.add_le_add_left L.reg.window_le _)) hwindow.bounded
  have hmoved : (applyAck L.reg ack L.base L.nextSeq (some L.receivedEnd)).reg.bytesBetween L.base
      L.nextSeq = (L.onAck ack).heldBytes := by
    change SenderRegistry.weightBetween _ _ _ _ = (applyAck L.reg ack L.base L.nextSeq
      (some L.receivedEnd)).reg.weightBetween _ (applyAck L.reg ack L.base L.nextSeq
        (some L.receivedEnd)).base L.nextSeq
    refine SenderRegistry.weightBetween_free (by omega) (by omega) fun s above below => ?_
    exact hfrees.freed s ⟨above, by omega, Or.inl (by omega)⟩
  rw [← hmoved]
  exact hbalanced

end Blocks

end SendLane

namespace Packing

variable {cfg : SendConfig} {lane block room : Nat} {emptyLast : Bool} {attempts : Nat → Attempt}
  {p q : Packing} {a : Attempt}

/-- A block that is stored leaves what is in flight as it was. -/
theorem Loads.weight_kept (loads : Loads cfg lane emptyLast (room + 1) p)
    (more : p.lane.ri < p.lane.ranges.length ∨ emptyLast = true) (fits : block ≤ cfg.blockCeiling)
    (a : Attempt) (weight : RegistrySlot → Nat) :
    (p.kept cfg lane block a).reg.weightBetween weight p.lane.base p.lane.nextSeq =
        p.lane.reg.weightBetween weight p.lane.base p.lane.nextSeq ∧
      ∃ slot, (p.kept cfg lane block a).reg.lookup p.lane.nextSeq = some slot ∧
        slot.payload.length = p.lane.blockLength block := by
  have hkept := SendLane.reachable_kept loads.reached
  have hroom : p.lane.nextSeq < u64 (p.lane.base + kWindow) :=
    Nat.lt_of_lt_of_le (Nat.lt_add_of_pos_right (Nat.succ_pos room)) loads.room
  rw [← hkept.sound.size] at hroom
  have hinside := (SendWindow.guard_exact hroom).1
  obtain ⟨stored, hstore, hkeep⟩ := hkept.sound.keep (loads.pending more) fits a.nowNs
  have hlength := loads.length_next more block
  have hreg : (p.kept cfg lane block a).reg = stored := by
    rw [Packing.kept, Packing.next, hkeep]
  rw [hreg]
  refine ⟨SenderRegistry.weightBetween_congr fun s above sent =>
    hkept.sound.window.lookup_store hinside hstore above sent, ?_⟩
  exact ⟨_, (SenderRegistry.lookup_store hstore _).trans (if_pos rfl), hlength⟩

structure Adds (p q : Packing) (blocks bytes : Nat) : Prop where
  datagrams : q.datagrams.length = p.datagrams.length + blocks
  heldBlocks : q.lane.heldBlocks = p.lane.heldBlocks + blocks
  heldBytes : q.lane.heldBytes = p.lane.heldBytes + bytes
  historyBytes : q.lane.historyBytes = p.lane.historyBytes + bytes

theorem Loads.adds (loads : Loads cfg lane emptyLast (room + 1) p)
    (more : p.lane.ri < p.lane.ranges.length ∨ emptyLast = true) (fits : block ≤ cfg.blockCeiling)
    (puts : Puts cfg lane block p a q) :
    (Adds p q 1 (p.lane.blockLength block) ∧
        q.sentBytes = u64 (p.sentBytes + p.lane.blockLength block)) ∨
      (Adds p q 0 0 ∧ q.sentBytes = p.sentBytes) := by
  have hweight := loads.weight_kept more fits a
  cases puts with
  | stored refused =>
    exact Or.inr ⟨⟨rfl, (hweight _).1, (hweight _).1, rfl⟩, rfl⟩
  | staged sent encoded =>
    have hroom := loads.room
    have hword := u64_lt (p.lane.base + kWindow)
    have hordered := (SendLane.reachable_kept loads.reached).sound.window.ordered
    obtain ⟨hreg, hbase, _⟩ := SendLane.count_frame (p.kept cfg lane block a)
      (p.next cfg lane block) (p.lane.blockLength block)
    have hfits : p.lane.nextSeq + 1 < 2 ^ 64 := by omega
    have hseq : ((p.kept cfg lane block a).count (p.next cfg lane block)
        (p.lane.blockLength block)).nextSeq = p.lane.nextSeq + 1 := u64_of_lt hfits
    have hadd : ∀ weight : RegistrySlot → Nat,
        ((p.kept cfg lane block a).count (p.next cfg lane block)
          (p.lane.blockLength block)).reg.weightBetween weight
          ((p.kept cfg lane block a).count (p.next cfg lane block)
            (p.lane.blockLength block)).base
          ((p.kept cfg lane block a).count (p.next cfg lane block)
            (p.lane.blockLength block)).nextSeq =
        p.lane.reg.weightBetween weight p.lane.base p.lane.nextSeq +
          (((p.kept cfg lane block a).reg.lookup p.lane.nextSeq).map weight).getD 0 := by
      intro weight
      rw [hreg, hbase, hseq]
      change (p.kept cfg lane block a).reg.weightBetween weight p.lane.base _ = _
      rw [SenderRegistry.weightBetween_succ hordered, (hweight weight).1]
    obtain ⟨slot, hslot, hlength⟩ := (hweight fun _ => 1).2
    refine Or.inl ⟨⟨List.length_append, ?_, ?_, ?_⟩, rfl⟩
    · refine (hadd _).trans ?_
      rw [hslot]
      rfl
    · refine (hadd _).trans ?_
      rw [hslot]
      exact congrArg _ hlength
    · change ((p.lane.history ++ [p.next cfg lane block]).map _).sum = _
      rw [List.map_append, List.sum_append, List.map_singleton,
        loads.length_next more block]
      rfl

/-- The counts of a batch that began at `start` and may have `limit` datagrams, when `room`
more are allowed. -/
structure Counted (start : Packing) (acked limit block room : Nat) (p : Packing) : Prop where
  sent : p.sentBytes = p.lane.historyBytes
  balanced : acked + p.lane.heldBytes = p.sentBytes
  few : p.datagrams.length + room ≤ limit
  blocks : p.lane.heldBlocks = start.lane.heldBlocks + p.datagrams.length
  bytes : p.lane.heldBytes ≤ start.lane.heldBytes + p.datagrams.length * block

variable {start : Packing} {acked limit : Nat}

theorem Counted.puts (counted : Counted start acked limit block (room + 1) p)
    (loads : Loads cfg lane emptyLast (room + 1) p)
    (more : p.lane.ri < p.lane.ranges.length ∨ emptyLast = true) (positive : 0 < block)
    (fits : block ≤ cfg.blockCeiling) (puts : Puts cfg lane block p a q) :
    Counted start acked limit block room q := by
  have hfew := counted.few
  have hsent := counted.sent
  have hbalanced := counted.balanced
  have hblocks := counted.blocks
  have hbytes := counted.bytes
  rcases loads.adds more fits puts with ⟨adds, hnow⟩ | ⟨adds, hnow⟩
  · have hkept := SendLane.reachable_kept (loads.puts more positive fits puts)
    have hword := hkept.historyBytes_lt
    have hhistory := adds.historyBytes
    have hlen := blockLength_le_block p.lane block
    rw [u64_of_lt (by omega)] at hnow
    have hheld := adds.heldBytes
    constructor
    case sent => omega
    case balanced => omega
    case few => rw [adds.datagrams]; omega
    case blocks => rw [adds.heldBlocks, adds.datagrams]; omega
    case bytes => rw [adds.datagrams, Nat.succ_mul]; omega
  · have hhistory := adds.historyBytes
    have hheld := adds.heldBytes
    constructor
    case sent => omega
    case balanced => omega
    case few => rw [adds.datagrams]; omega
    case blocks => rw [adds.heldBlocks, adds.datagrams]; omega
    case bytes => rw [hheld, adds.datagrams]; exact hbytes

theorem Counted.done (counted : Counted start acked limit block room p) :
    Counted start acked limit block 0 p :=
  { counted with few := Nat.le_of_add_right_le counted.few }

theorem Counted.pack (counted : Counted start acked limit block room p)
    (loads : Loads cfg lane emptyLast room p) (positive : 0 < block)
    (fits : block ≤ cfg.blockCeiling) :
    Counted start acked limit block 0 (Packing.pack cfg lane block emptyLast attempts room p) := by
  refine pack_rule
    (fun room p => Loads cfg lane emptyLast room p ∧ Counted start acked limit block room p)
    (Counted start acked limit block 0) (fun _ _ enters => enters.2.done) ?_ ⟨loads, counted⟩
  rintro room p ⟨loads, counted⟩ more _ a q puts
  have hcounted := counted.puts loads more positive fits puts
  exact ⟨hcounted.done, fun goes => ⟨loads.goesOn more positive fits puts goes, hcounted⟩⟩

end Packing

/-! ## The counters of the loop -/

namespace SendLoop

section Loop

variable {cfg : LoopConfig} {lane : Nat} {st st' : SendLoop} {sent : List Sent}

structure Accounted (st : SendLoop) : Prop where
  sent : st.sentBytes = st.lane.historyBytes
  balanced : st.est.ackedBytes + st.lane.heldBytes = st.sentBytes

theorem Accounted.inflight (accounted : st.Accounted) (held : st.Held cfg lane) :
    st.inflight = st.lane.heldBytes := by
  have hbalanced := accounted.balanced
  have hword := held.kept.historyBytes_lt
  have hsent := accounted.sent
  unfold SendLoop.inflight
  rw [u64Sub_of_le (by omega) (by omega)]
  omega

/-- The counts when a batch begins. -/
theorem Accounted.counted (accounted : st.Accounted) :
    Packing.Counted { lane := st.lane, sentBytes := st.sentBytes } st.est.ackedBytes
      (st.maxSegs cfg) st.sizing.block (st.maxSegs cfg)
      { lane := st.lane, sentBytes := st.sentBytes } :=
  ⟨accounted.sent, accounted.balanced, Nat.le_of_eq (Nat.zero_add _), rfl, Nat.le_add_right _ _⟩

/-- The counts when it is done. -/
theorem Accounted.counted_packed (accounted : st.Accounted) (held : st.Held cfg lane)
    (sends : st.Sends cfg) (attempts : Nat → Attempt) :
    Packing.Counted { lane := st.lane, sentBytes := st.sentBytes } st.est.ackedBytes
      (st.maxSegs cfg) st.sizing.block 0 (st.packed cfg lane attempts) :=
  accounted.counted.pack (held.fills sends).loads held.block_pos held.block_le

theorem Looped.accounted {e : LoopEvent} (looped : Looped cfg lane st e st' sent)
    (held : st.Held cfg lane) (accounted : st.Accounted) : st'.Accounted := by
  cases looped with
  | acked dg works wireNs ack sent fits acted =>
    have hheld := held.kept.heldBytes_onAck ack
    have hword := held.kept.historyBytes_lt
    have hsent := accounted.sent
    have hbalanced := accounted.balanced
    refine ⟨hsent, ?_⟩
    unfold Estimate.onAck
    rw [Estimate.onEcho_ackedBytes, u64_of_lt (by omega)]
    dsimp only
    omega
  | other e L est loss sent _ same acted learned =>
    obtain ⟨hhistory, hheld⟩ := same.counts
    have hacked : est.ackedBytes = st.est.ackedBytes := by
      rcases learned with rfl | rfl <;> rfl
    refine ⟨accounted.sent.trans hhistory.symm, ?_⟩
    rw [hacked, hheld]
    exact accounted.balanced
  | controller => exact ⟨accounted.sent, accounted.balanced⟩
  | batch attempts sends =>
    have hcounted := accounted.counted_packed held sends attempts
    exact ⟨hcounted.sent, hcounted.balanced⟩
  | turn =>
    have hacked : (st.onTurn cfg).est.ackedBytes = st.est.ackedBytes := by
      unfold onTurn
      dsimp only
      split <;> rfl
    refine ⟨accounted.sent, ?_⟩
    rw [hacked]
    exact accounted.balanced

theorem reachable_accounted (reached : Reachable (SendLoop.step cfg lane) (create cfg lane) st) :
    st.Accounted :=
  reachable_keeps Accounted ⟨rfl, rfl⟩
    (fun _ _ _ _ looped held accounted => looped.accounted held accounted) reached

/-- What the receiver said it can hold is a machine word. -/
theorem Held.rwndBytes_eq (held : st.Held cfg lane)
    (limited : st.est.peerRwnd ≠ kRwndUnlimited) :
    st.rwndBytes = max st.est.peerRwnd 4 * st.sizing.block := by
  have hrwnd : max st.est.peerRwnd 4 ≤ 2 ^ 32 := by
    have hheld := held.rwnd
    omega
  have hblock : st.sizing.block ≤ 16384 := by
    have hfits := held.block_le
    have hceiling := blockCeiling_le cfg.send
    omega
  have hproduct := Nat.mul_le_mul hrwnd hblock
  rw [rwndBytes, if_neg limited, u64_of_lt (Nat.lt_of_le_of_lt hproduct (by decide))]

/-- The blocks that fit the room take at most one block more than the windows. -/
theorem Held.room_bytes (held : st.Held cfg lane) (open_window : st.inflight < st.windowBytes cfg)
    {count : Nat} (few : count ≤ st.maxSegs cfg) :
    st.inflight + count * st.sizing.block < st.windowBytes cfg + st.sizing.block := by
  have hpositive := held.block_pos
  have hroom : count ≤ st.byteRoom cfg :=
    Nat.le_trans few (Nat.le_trans (Nat.min_le_right _ _) (Nat.min_le_left _ _))
  rw [held.byteRoom_eq open_window, Nat.le_div_iff_mul_le hpositive] at hroom
  omega

/-- The bytes sent and not acknowledged are those of the blocks the registry holds, the
numbers in flight fit the registry, and a batch exceeds the windows by less than a block. -/
theorem in_flight_accounted (reached : Reachable (SendLoop.step cfg lane) (create cfg lane) st) :
    st.est.ackedBytes ≤ st.sentBytes ∧
    st.sentBytes - st.est.ackedBytes = st.lane.reg.bytesBetween st.lane.base st.lane.nextSeq ∧
    st.lane.base ≤ st.lane.nextSeq ∧ st.lane.nextSeq - st.lane.base ≤ kWindow ∧
    ∀ attempts st', st.step cfg lane (.batch attempts) = some st' →
      st'.sentBytes - st'.est.ackedBytes < st.windowBytes cfg + st.sizing.block ∧
        st.windowBytes cfg = min (max 4 st.est.cc.window * cfg.send.baseBlock)
          (if st.est.peerRwnd = kRwndUnlimited then 2 ^ 64 - 1
            else max st.est.peerRwnd 4 * st.sizing.block) := by
  have held := reachable_held reached
  have hkept := held.kept
  have haccounted := reachable_accounted reached
  have hbalanced := haccounted.balanced
  have hwindow := hkept.sound.window.window
  rw [hkept.sound.size] at hwindow
  refine ⟨by omega, ?_, hkept.sound.window.ordered, by omega, fun attempts st' stepped => ?_⟩
  · rw [← hbalanced, Nat.add_sub_cancel_left]
    rfl
  · rw [step, act] at stepped
    split at stepped
    · rename_i hsends
      cases stepped
      have hcounted := haccounted.counted_packed held hsends attempts
      have hroom := held.room_bytes hsends.2.2.2.2 (Nat.le_of_add_right_le hcounted.few)
      have hafter := hcounted.balanced
      have hbytes := hcounted.bytes
      rw [haccounted.inflight held] at hroom
      refine ⟨?_, ?_⟩
      · dsimp only at hbytes ⊢
        omega
      · rw [windowBytes, held.congestionBytes_eq.1]
        split
        · rename_i hunlimited
          rw [rwndBytes, if_pos hunlimited]
        · rename_i hlimited
          rw [held.rwndBytes_eq hlimited]
    · cases stepped

theorem in_flight_accounted_fiveBytes :
    ∃ st st', Reachable (SendLoop.step fiveBytes 0) (create fiveBytes 0) st ∧
      st.step fiveBytes 0 (.batch fun _ => {}) = some st' ∧ st.windowBytes fiveBytes = 256 ∧
      st'.sentBytes = 4 ∧ st'.sentBytes - st'.est.ackedBytes < st.windowBytes fiveBytes + 2 := by
  obtain ⟨st, hst, hwindow, hblock, st', hstep, hsent⟩ : ∃ st,
      replay (SendLoop.step fiveBytes 0) (create fiveBytes 0) (opening [⟨0, 5⟩]) = some st ∧
        st.windowBytes fiveBytes = 256 ∧ st.sizing.block = 2 ∧
        ∃ st', st.step fiveBytes 0 (.batch fun _ => {}) = some st' ∧ st'.sentBytes = 4 := by
    decide +kernel
  have hreached : Reachable (SendLoop.step fiveBytes 0) (create fiveBytes 0) st := ⟨_, hst⟩
  obtain ⟨_, _, _, _, hbatches⟩ := in_flight_accounted hreached
  exact ⟨st, st', hreached, hstep, hwindow, hsent, hblock ▸ (hbatches _ st' hstep).1⟩

/-- The blocks in flight have, on average, at least the current block size. -/
def Stout (st : SendLoop) : Prop := st.lane.heldBlocks * st.sizing.block ≤ st.lane.heldBytes

instance (st : SendLoop) : Decidable st.Stout := inferInstanceAs (Decidable (_ ≤ _))

/-- When the receiver sets the limit, the room of a batch keeps to it exactly in this case. -/
theorem Held.byteRoom_le_iff (held : st.Held cfg lane) (accounted : st.Accounted)
    (open_window : st.inflight < st.windowBytes cfg) {limit : Nat}
    (bound : st.windowBytes cfg = limit * st.sizing.block) :
    st.lane.heldBlocks + st.byteRoom cfg ≤ limit ↔ st.Stout := by
  have hpositive := held.block_pos
  have hceil := Nat.div_add_mod (st.windowBytes cfg - st.inflight + st.sizing.block - 1)
    st.sizing.block
  have hrest := Nat.mod_lt (st.windowBytes cfg - st.inflight + st.sizing.block - 1) hpositive
  have hsplit := Nat.add_mul st.lane.heldBlocks (st.byteRoom cfg) st.sizing.block
  rw [← held.byteRoom_eq open_window, Nat.mul_comm] at hceil
  rw [accounted.inflight held] at hceil open_window hrest
  unfold Stout
  constructor
  · intro within
    have hproduct := Nat.mul_le_mul_right st.sizing.block within
    omega
  · intro stout
    refine Nat.lt_succ_iff.mp (Nat.lt_of_mul_lt_mul_right (a := st.sizing.block) ?_)
    rw [Nat.succ_mul]
    omega

/-- A batch keeps the blocks in flight within what the receiver said it can hold when those
already in flight have, on average, the current block size or more.  When the receiver's
window is the one that counts, the loop allows itself no more than that exactly then. -/
theorem blocks_within_rwnd (reached : Reachable (SendLoop.step cfg lane) (create cfg lane) st)
    (sends : st.Sends cfg) (limited : st.est.peerRwnd ≠ kRwndUnlimited) :
    (st.Stout → ∀ attempts,
      (st.packed cfg lane attempts).lane.heldBlocks ≤ max st.est.peerRwnd 4) ∧
    (st.windowBytes cfg = st.rwndBytes →
      (st.lane.heldBlocks + st.byteRoom cfg ≤ max st.est.peerRwnd 4 ↔ st.Stout)) := by
  have held := reachable_held reached
  have haccounted := reachable_accounted reached
  have hopen := sends.2.2.2.2
  have hrwnd := held.rwndBytes_eq limited
  refine ⟨fun stout attempts => ?_, fun binding => ?_⟩
  · have hcounted := haccounted.counted_packed held sends attempts
    have hroom := held.room_bytes hopen (Nat.le_of_add_right_le hcounted.few)
    have hwindow : st.windowBytes cfg ≤ max st.est.peerRwnd 4 * st.sizing.block :=
      hrwnd ▸ Nat.min_le_right _ _
    rw [haccounted.inflight held] at hroom
    rw [hcounted.blocks]
    refine Nat.lt_succ_iff.mp (Nat.lt_of_mul_lt_mul_right (a := st.sizing.block) ?_)
    unfold Stout at stout
    rw [Nat.succ_mul, Nat.add_mul]
    dsimp only
    omega
  · exact held.byteRoom_le_iff haccounted hopen (binding.trans hrwnd)

def fiveParts : List ResumeRange := [⟨0, 1⟩, ⟨2, 1⟩, ⟨4, 1⟩, ⟨6, 1⟩, ⟨8, 1⟩]

/-- Ten bytes in blocks of two. -/
def tenBytes : LoopConfig where
  send := { lanes := 1, data := List.replicate 10 1, blockSize := 2, nonces := fun _ => 7 }
  route := ⟨0, false⟩

def fourSlots (ranges : List ResumeRange) : List LoopEvent :=
  opening ranges ++ [.lane (.receive (ackBytes { nonce := 7, rwnd := 4 }) (fun _ => true) 0)]

/-- Short parts make short blocks: a fifth one goes out while the receiver can hold four. -/
theorem rwnd_exceeded_fiveParts :
    ∃ st, Reachable (SendLoop.step tenBytes 0) (create tenBytes 0) st ∧ st.Sends tenBytes ∧
      st.est.peerRwnd = 4 ∧ st.lane.heldBlocks = 4 ∧
      (st.packed tenBytes 0 fun _ => {}).lane.heldBlocks = 5 ∧
      ¬ (st.packed tenBytes 0 fun _ => {}).lane.heldBlocks ≤ max st.est.peerRwnd 4 := by
  obtain ⟨st, hst, hsends, hrwnd, hbefore, hafter⟩ : ∃ st,
      replay (SendLoop.step tenBytes 0) (create tenBytes 0)
        (fourSlots fiveParts ++ List.replicate 4 (.batch fun _ => {})) = some st ∧
        st.Sends tenBytes ∧ st.est.peerRwnd = 4 ∧ st.lane.heldBlocks = 4 ∧
        (st.packed tenBytes 0 fun _ => {}).lane.heldBlocks = 5 := by decide +kernel
  refine ⟨st, ⟨_, hst⟩, hsends, hrwnd, hbefore, hafter, ?_⟩
  rw [hrwnd, hafter]
  decide

theorem blocks_within_rwnd_tenBytes :
    ∃ st, Reachable (SendLoop.step tenBytes 0) (create tenBytes 0) st ∧ st.Sends tenBytes ∧
      st.est.peerRwnd = 4 ∧ st.Stout ∧
      (st.packed tenBytes 0 fun _ => {}).lane.heldBlocks = 4 ∧
      ∀ attempts, (st.packed tenBytes 0 attempts).lane.heldBlocks ≤ max st.est.peerRwnd 4 := by
  obtain ⟨st, hst, hsends, hrwnd, hstout, hafter⟩ : ∃ st,
      replay (SendLoop.step tenBytes 0) (create tenBytes 0) (fourSlots [⟨0, 10⟩]) = some st ∧
        st.Sends tenBytes ∧ st.est.peerRwnd = 4 ∧ st.Stout ∧
        (st.packed tenBytes 0 fun _ => {}).lane.heldBlocks = 4 := by decide +kernel
  have hreached : Reachable (SendLoop.step tenBytes 0) (create tenBytes 0) st := ⟨_, hst⟩
  have hlimited : st.est.peerRwnd ≠ kRwndUnlimited := by
    rw [hrwnd]
    decide
  exact ⟨st, hreached, hsends, hrwnd, hstout, hafter,
    (blocks_within_rwnd hreached hsends hlimited).1 hstout⟩

end Loop

end SendLoop

end FuseTransport.Transfer
