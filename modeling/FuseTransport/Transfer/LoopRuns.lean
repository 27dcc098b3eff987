import FuseTransport.Proto.Reencode
import FuseTransport.Transfer.Packing

/-!
# Runs of the sending loop

Each step of the loop, inverted once.  The lane of a loop makes a run of its own, its
block size and its windows stay within their limits, and a batch splits back into its
datagrams.
-/

namespace FuseTransport.Transfer

open Foundation.Runs Proto

namespace SendLane

structure SameBlocks (L L' : SendLane) : Prop where
  reg : L'.reg = L.reg
  base : L'.base = L.base
  nextSeq : L'.nextSeq = L.nextSeq
  history : L'.history = L.history

section SameBlocks

variable {cfg : SendConfig} {lane : Nat} {L L' : SendLane}

theorem Steady.sameBlocks (steady : Steady L L') : SameBlocks L L' := by
  constructor
  all_goals rw [steady.rest]

theorem onAborted_sameBlocks (L : SendLane) (sc : StreamClose) :
    SameBlocks L (L.onAborted cfg lane sc) := by
  unfold onAborted
  split <;> exact ⟨rfl, rfl, rfl, rfl⟩

theorem onFeedback_sameBlocks (sending : L.phase = .sending) {dg : List UInt8}
    (unheeded : L.heeded cfg lane dg = none) (works : Nat → Bool) (wireNs : Nat) :
    SameBlocks L (L.onFeedback cfg lane dg works wireNs).1 := by
  have hsame : SameBlocks L L := ⟨rfl, rfl, rfl, rfl⟩
  unfold onFeedback
  split
  · exact hsame
  · rename_i hauthentic
    split
    · rename_i hpeek
      split
      · rename_i ack hdecoded
        split
        · rename_i hnonce
          rw [heeded, if_pos ⟨sending, Bool.not_eq_false _ ▸ hauthentic, hpeek⟩, hdecoded,
            Option.filter_some, if_pos (decide_eq_true hnonce)] at unheeded
          cases unheeded
        · exact hsame
      · exact hsame
    · split <;> exact hsame
    · split
      · split
        · exact ⟨rfl, rfl, rfl, rfl⟩
        · exact hsame
      · exact hsame
    · split
      · exact onAborted_sameBlocks L _
      · exact hsame
    · exact hsame

theorem Heard.sameBlocks {dg : List UInt8} (heard : Heard cfg lane L dg L') :
    SameBlocks L (L'.begin cfg lane) := by
  have hbegin : SameBlocks L' (L'.begin cfg lane) := by
    unfold SendLane.begin
    split <;> exact ⟨rfl, rfl, rfl, rfl⟩
  have htold : SameBlocks L L' := by
    cases heard with
    | part rr decoded =>
      rw [onResumeRanges_frame]
      exact ⟨rfl, rfl, rfl, rfl⟩
    | ignored | refused | retry | acked => exact ⟨rfl, rfl, rfl, rfl⟩
  exact ⟨hbegin.reg.trans htold.reg, hbegin.base.trans htold.base,
    hbegin.nextSeq.trans htold.nextSeq, hbegin.history.trans htold.history⟩

/-- Only new blocks and acknowledgements that are acted on concern the blocks. -/
theorem act_sameBlocks {e : TxEvent} {sent : List Sent} (old : SendLoop.isNewBlock e = false)
    (unheeded : ∀ dg works wireNs, e = .receive dg works wireNs → L.heeded cfg lane dg = none)
    (acted : L.act cfg lane e = some (L', sent)) : SameBlocks L L' := by
  cases act_moved acted with
  | spoke _ _ _ _ _ spoke => exact spoke.steady.sameBlocks
  | heard dg works wireNs told waiting running heard => exact heard.sameBlocks
  | acked dg works wireNs ack sending running decoded =>
    rw [act, if_pos running, sending] at acted
    have hsame := onFeedback_sameBlocks sending (unheeded dg works wireNs rfl) works wireNs
    rw [Option.some.inj acted] at hsame
    exact hsame
  | nacked | timedOut => exact ⟨rfl, rfl, rfl, rfl⟩
  | block => cases old

end SameBlocks

end SendLane

namespace SendLoop

section Loop

variable {cfg : LoopConfig} {lane : Nat} {st st' : SendLoop} {sent : List Sent}

inductive Looped (cfg : LoopConfig) (lane : Nat) (st : SendLoop) :
    LoopEvent → SendLoop → List Sent → Prop where
  | acked (dg : List UInt8) (works : Nat → Bool) (wireNs : Nat) (ack : Ack) (sent : List Sent)
      (fits : ack.Fits)
      (acted : st.lane.act cfg.send lane (.receive dg works wireNs) = some (st.lane.onAck ack, sent)) :
      Looped cfg lane st (.lane (.receive dg works wireNs))
        { st with lane := st.lane.onAck ack, est := st.est.onAck st.lane ack wireNs } sent
  | other (e : TxEvent) (L : SendLane) (est : Estimate) (loss : Bool) (sent : List Sent)
      (old : isNewBlock e = false) (same : SendLane.SameBlocks st.lane L)
      (acted : st.lane.act cfg.send lane e = some (L, sent))
      (learned : est = st.est ∨ est = { st.est with cc := st.est.cc.onLoss }) :
      Looped cfg lane st (.lane e) { st with lane := L, est := est, lossSeen := loss } sent
  | controller (e : ControllerEvent) :
      Looped cfg lane st (.controller e) { st with est := { st.est with cc := e.apply st.est.cc } } []
  | batch (attempts : Nat → Attempt) (sends : st.Sends cfg) :
      Looped cfg lane st (.batch attempts)
        { st with
          lane := (st.packed cfg lane attempts).lane
          sentBytes := (st.packed cfg lane attempts).sentBytes
          news := st.news ++ (st.packed cfg lane attempts).datagrams }
        (st.packed cfg lane attempts).datagrams
  | turn : Looped cfg lane st .turn (st.onTurn cfg) []

/-- What the loop learns from a step that is no acknowledgement. -/
theorem learn_other {e : TxEvent}
    (unheeded : ∀ dg works wireNs, e = .receive dg works wireNs →
      st.lane.heeded cfg.send lane dg = none) :
    (st.learn cfg lane e).1 = st.est ∨
      (st.learn cfg lane e).1 = { st.est with cc := st.est.cc.onLoss } := by
  cases e with
  | receive dg works wireNs =>
    rw [learn, unheeded dg works wireNs rfl]
    dsimp only
    split
    · exact Or.inr rfl
    · exact Or.inl rfl
  | sendStart | sendBlock | retransmit | probe | leave | sendDigest | giveUp => exact Or.inl rfl

theorem lane_looped {e : TxEvent} (old : isNewBlock e = false) {L : SendLane}
    (acted : st.lane.act cfg.send lane e = some (L, sent)) :
    Looped cfg lane st (.lane e)
      { st with
        lane := L, est := (st.learn cfg lane e).1, lossSeen := (st.learn cfg lane e).2 } sent := by
  by_cases heeds : ∃ dg works wireNs ack, e = .receive dg works wireNs ∧
      st.lane.heeded cfg.send lane dg = some ack
  · obtain ⟨dg, works, wireNs, ack, rfl, hheeded⟩ := heeds
    have hlane := (SendLane.act_heeded hheeded acted).2
    have hdecoded : decodeAck dg = some ack := by
      obtain ⟨_, hheeded⟩ := Option.ite_none_right_eq_some.mp hheeded
      exact (Option.filter_eq_some_iff.mp hheeded).1
    rw [hlane] at acted ⊢
    rw [learn, hheeded]
    exact .acked dg works wireNs ack sent (decodeAck_some hdecoded).2.1 acted
  · have hunheeded : ∀ dg works wireNs, e = .receive dg works wireNs →
        st.lane.heeded cfg.send lane dg = none := by
      intro dg works wireNs received
      cases hfound : st.lane.heeded cfg.send lane dg with
      | none => rfl
      | some ack => exact absurd ⟨dg, works, wireNs, ack, received, hfound⟩ heeds
    exact .other e L _ _ sent old (SendLane.act_sameBlocks old hunheeded acted) acted
      (learn_other hunheeded)

variable {e : LoopEvent}

theorem act_looped (acted : st.act cfg lane e = some (st', sent)) :
    Looped cfg lane st e st' sent := by
  cases e with
  | lane e =>
    obtain ⟨hold, acted⟩ := Option.ite_none_left_eq_some.mp acted
    obtain ⟨⟨L, out⟩, hacted, hst⟩ := Option.map_eq_some_iff.mp acted
    obtain ⟨rfl, rfl⟩ := Prod.mk.inj hst
    exact lane_looped (Bool.eq_false_iff.mpr hold) hacted
  | controller e =>
    obtain ⟨rfl, rfl⟩ := Prod.mk.inj (Option.some.inj acted)
    exact .controller e
  | batch attempts =>
    rw [act] at acted
    split at acted
    · rename_i hsends
      obtain ⟨rfl, rfl⟩ := Prod.mk.inj (Option.some.inj acted)
      exact .batch attempts hsends
    · cases acted
  | turn =>
    rw [act] at acted
    split at acted
    · obtain ⟨rfl, rfl⟩ := Prod.mk.inj (Option.some.inj acted)
      exact .turn
    · cases acted

structure Held (cfg : LoopConfig) (lane : Nat) (st : SendLoop) : Prop where
  reached : Reachable (SendLane.step cfg.send lane) (SendLane.create cfg.send lane) st.lane
  within : st.sizing.Within cfg.send cfg.route
  capped : st.est.cc.Capped 65535
  rwnd : st.est.peerRwnd < 2 ^ 32

theorem controller_capped (cfg : LoopConfig) : cfg.controller.Capped 65535 := by
  refine CongestionController.Capped.enableSlowStart
    (CongestionController.create_capped ?_ (Nat.min_le_left _ _) _ _ _) 128
  have hwindow : 1 ≤ kWindow := by decide
  exact Nat.le_min.mpr ⟨by decide, Nat.le_trans hwindow (Nat.le_max_left _ _)⟩

theorem create_held (cfg : LoopConfig) (lane : Nat) : (create cfg lane).Held cfg lane where
  reached := .refl _
  within := BlockSizing.create_within
  capped := controller_capped cfg
  rwnd := by
    change kRwndUnlimited < 2 ^ 32
    decide

theorem Held.kept (held : st.Held cfg lane) : st.lane.Kept cfg.send lane :=
  SendLane.reachable_kept held.reached

theorem Held.block_pos (held : st.Held cfg lane) : 0 < st.sizing.block :=
  Nat.lt_of_lt_of_le (cfg.send.baseBlock_pos cfg.sized) held.within.base

theorem Held.block_le (held : st.Held cfg lane) : st.sizing.block ≤ cfg.send.blockCeiling :=
  Nat.le_trans (Nat.le_trans held.within.block held.within.ceiling)
    (cfg.send.mtuCeiling_le_blockCeiling cfg.route)

theorem blockCeiling_le (cfg : SendConfig) : cfg.blockCeiling + cfg.tagBytes ≤ 16384 := by
  unfold SendConfig.blockCeiling SendConfig.tagBytes
  split <;> decide

theorem Held.seg_bounds (held : st.Held cfg lane) :
    31 < st.seg cfg ∧ st.seg cfg ≤ 16415 := by
  have hpositive := held.block_pos
  have hfits := held.block_le
  have hceiling := blockCeiling_le cfg.send
  have hprefix : kDataPrefixSize = 31 := rfl
  unfold seg Packing.segment
  omega

section

variable (held : st.Held cfg lane)
include held

/-- The congestion window is a machine word. -/
theorem Held.congestionBytes_eq :
    st.congestionBytes cfg = max 4 st.est.cc.window * cfg.send.baseBlock ∧
      max 4 st.est.cc.window * cfg.send.baseBlock ≤ 65535 * 16384 := by
  have hwindow : max 4 st.est.cc.window ≤ 65535 :=
    Nat.max_le.mpr ⟨by decide, Nat.le_trans held.capped.window held.capped.cap⟩
  have hbase : cfg.send.baseBlock ≤ 16384 := by
    have hblock := held.within.base
    have hfits := held.block_le
    have hceiling := blockCeiling_le cfg.send
    omega
  have hproduct := Nat.mul_le_mul hwindow hbase
  exact ⟨u64_of_lt (Nat.lt_of_le_of_lt hproduct (by decide)), hproduct⟩

theorem Held.windowBytes_le : st.windowBytes cfg ≤ 65535 * 16384 := by
  obtain ⟨hexact, hsmall⟩ := held.congestionBytes_eq
  exact Nat.le_trans (Nat.min_le_left _ _) (hexact ▸ hsmall)

/-- The room of a batch, without machine words. -/
theorem Held.byteRoom_eq (open_window : st.inflight < st.windowBytes cfg) :
    st.byteRoom cfg =
      (st.windowBytes cfg - st.inflight + st.sizing.block - 1) / st.sizing.block := by
  have hwindow := held.windowBytes_le
  have hfits := held.block_le
  have hceiling := blockCeiling_le cfg.send
  unfold byteRoom
  rw [u64Sub_of_le (Nat.le_of_lt open_window) (by omega), u64_of_lt (by omega)]

theorem Held.byteRoom_pos (open_window : st.inflight < st.windowBytes cfg) :
    0 < st.byteRoom cfg := by
  have hpositive := held.block_pos
  rw [held.byteRoom_eq open_window]
  exact Nat.div_pos (by omega) hpositive

theorem Held.room_eq (room : st.lane.nextSeq < u64 (st.lane.base + kWindow)) :
    u64Sub kWindow (u64Sub st.lane.nextSeq st.lane.base) =
        kWindow - (st.lane.nextSeq - st.lane.base) ∧
      u64 (st.lane.base + kWindow) = st.lane.base + kWindow ∧
      st.lane.base ≤ st.lane.nextSeq ∧ st.lane.nextSeq < st.lane.base + kWindow := by
  have hwindow := held.kept.sound.window
  have hordered := hwindow.ordered
  have hbounded := hwindow.bounded
  rw [← held.kept.sound.size] at room ⊢
  have hexact := (SendWindow.guard_exact room).1
  have hsize := st.lane.reg.window_le
  have hmax : kMaxWindow = 1024 := rfl
  refine ⟨?_, ?_, hordered, hexact⟩
  · rw [u64Sub_of_le hordered hbounded, u64Sub_of_le (by omega) (by omega)]
  · unfold u64 at room ⊢
    omega

theorem Held.maxSegs_pos (sends : st.Sends cfg) : 0 < st.maxSegs cfg := by
  obtain ⟨_, _, _, hroom, hopen⟩ := sends
  obtain ⟨hexact, _, hordered, hinside⟩ := held.room_eq hroom
  obtain ⟨hlow, hhigh⟩ := held.seg_bounds
  have hburst : 0 < st.burstCap := by
    unfold burstCap
    split <;> decide
  have hbudget : 0 < kGsoBudget / st.seg cfg :=
    Nat.div_pos (Nat.le_trans hhigh (by decide)) (Nat.zero_lt_of_lt hlow)
  exact Nat.lt_min.mpr ⟨Nat.lt_min.mpr ⟨hbudget, by omega⟩,
    Nat.lt_min.mpr ⟨held.byteRoom_pos hopen, hburst⟩⟩

end

/-! ## Batches -/

/-- The batch as the packing loop is first entered. -/
theorem Held.fills (held : st.Held cfg lane) (sends : st.Sends cfg) :
    Packing.Fills cfg.send lane st.sizing.block
      (decide (st.lane.ranges = [] ∧ st.lane.nextSeq = 0)) (st.maxSegs cfg)
      { lane := st.lane, sentBytes := st.sentBytes } := by
  obtain ⟨hrunning, hsending, _, hroom, _⟩ := sends
  obtain ⟨hexact, hword, hordered, hinside⟩ := held.room_eq hroom
  have hsegs : st.maxSegs cfg ≤ kWindow - (st.lane.nextSeq - st.lane.base) := by
    rw [← hexact]
    exact Nat.le_trans (Nat.min_le_left _ _) (Nat.min_le_right _ _)
  have hbudget : st.maxSegs cfg ≤ kGsoBudget / st.seg cfg :=
    Nat.le_trans (Nat.min_le_left _ _) (Nat.min_le_left _ _)
  refine ⟨⟨held.reached, hrunning, hsending, of_decide_eq_true, ?_⟩, nofun, nofun, rfl, ?_, rfl⟩
  · dsimp only
    omega
  · rw [List.length_nil, Nat.zero_add]
    exact Nat.le_trans (Nat.mul_le_mul_right _ hbudget) (Nat.div_mul_le_self _ _)

theorem Held.packed (held : st.Held cfg lane) (sends : st.Sends cfg) (attempts : Nat → Attempt) :
    Packing.Packed cfg.send st.sizing.block (st.packed cfg lane attempts) :=
  (held.fills sends).pack held.block_pos held.block_le

theorem Estimate.onAck_capped {est : Estimate} (capped : est.cc.Capped 65535) (L : SendLane)
    (ack : Ack) (wireNs : Nat) :
    (est.onAck L ack wireNs).cc.Capped 65535 ∧ (est.onAck L ack wireNs).peerRwnd = ack.rwnd := by
  unfold Estimate.onAck Estimate.onEcho
  dsimp only
  split
  · exact ⟨capped.onRttSample _, rfl⟩
  · exact ⟨capped, rfl⟩

theorem ControllerEvent.apply_capped {cc : CongestionController} (capped : cc.Capped 65535)
    (e : ControllerEvent) : (e.apply cc).Capped 65535 := by
  cases e with
  | poll nowNs => exact capped.poll nowNs
  | loss => exact capped.onLoss
  | timeout => exact capped.onTimeout
  | progress => exact capped.onProgress

theorem Looped.held (looped : Looped cfg lane st e st' sent) (held : st.Held cfg lane) :
    st'.Held cfg lane := by
  have hlane : ∀ {e : TxEvent} {L : SendLane} {out : List Sent},
      st.lane.act cfg.send lane e = some (L, out) →
      Reachable (SendLane.step cfg.send lane) (SendLane.create cfg.send lane) L := by
    intro e L out acted
    have hstep : st.lane.step cfg.send lane e = some L := by
      rw [SendLane.step, acted]
      rfl
    exact held.reached.tail hstep
  cases looped with
  | acked dg works wireNs ack sent fits acted =>
    obtain ⟨hcapped, hrwnd⟩ := Estimate.onAck_capped held.capped st.lane ack wireNs
    exact ⟨hlane acted, held.within, hcapped, hrwnd ▸ fits.rwnd⟩
  | other e L est loss sent _ same acted learned =>
    rcases learned with rfl | rfl
    · exact ⟨hlane acted, held.within, held.capped, held.rwnd⟩
    · exact ⟨hlane acted, held.within, held.capped.onLoss, held.rwnd⟩
  | controller e =>
    exact ⟨held.reached, held.within, ControllerEvent.apply_capped held.capped e, held.rwnd⟩
  | batch attempts sends =>
    exact ⟨(held.fills sends).loads.pack held.block_pos held.block_le, held.within, held.capped,
      held.rwnd⟩
  | turn =>
    have hest : (st.onTurn cfg).est.cc.Capped 65535 ∧ (st.onTurn cfg).est.peerRwnd < 2 ^ 32 := by
      unfold onTurn
      dsimp only
      split
      · exact ⟨held.capped.onProgress, held.rwnd⟩
      · exact ⟨held.capped, held.rwnd⟩
    exact ⟨held.reached, held.within.turn _ _, hest.1, hest.2⟩

theorem step_looped (stepped : st.step cfg lane e = some st') :
    ∃ sent, Looped cfg lane st e st' sent := by
  obtain ⟨⟨next, sent⟩, hacted, rfl⟩ := Option.map_eq_some_iff.mp stepped
  exact ⟨sent, act_looped hacted⟩

theorem reachable_held (reached : Reachable (SendLoop.step cfg lane) (create cfg lane) st) :
    st.Held cfg lane := by
  refine reached.invariant (fun st e st' held stepped => ?_) (create_held cfg lane)
  obtain ⟨sent, looped⟩ := step_looped stepped
  exact looped.held held

/-- The rule for the runs of the loop: what every step from a state within the limits keeps
holds of every state that is reached. -/
theorem reachable_keeps (Keeps : SendLoop → Prop) (initially : Keeps (create cfg lane))
    (keeps : ∀ st e st' sent, Looped cfg lane st e st' sent → st.Held cfg lane → Keeps st → Keeps st')
    (reached : Reachable (SendLoop.step cfg lane) (create cfg lane) st) : Keeps st := by
  have hstep : ∀ (st : SendLoop) (e : LoopEvent) (st' : SendLoop), st.Held cfg lane ∧ Keeps st →
      st.step cfg lane e = some st' → st'.Held cfg lane ∧ Keeps st' := by
    rintro st e st' ⟨held, kept⟩ stepped
    obtain ⟨sent, looped⟩ := step_looped stepped
    exact ⟨looped.held held, keeps st e st' sent looped held kept⟩
  exact (reached.invariant hstep ⟨create_held cfg lane, initially⟩).2

/-- A batch comes apart into its datagrams. -/
theorem Held.leaves_packed (held : st.Held cfg lane) {p : Packing}
    (packed : Packing.Packed cfg.send st.sizing.block p) (segmented : Bool) :
    st.leaves cfg p segmented = p.datagrams.map Sent.bytes := by
  have hpositive : 0 < st.seg cfg := Nat.zero_lt_of_lt held.seg_bounds.1
  unfold leaves
  split
  · rename_i hnone
    rw [hnone]
    rfl
  · rename_i hsome
    split
    · exact packed.cut hpositive (Nat.le_refl _)
    · have hcount := List.length_pos_iff.mpr hsome
      exact packed.sendSegmented hpositive (by omega)

/-- A batch has room for a block, stays within its buffer, and comes apart into exactly its
datagrams, whether the kernel cuts it or the loop does. -/
theorem batch_splits (reached : Reachable (SendLoop.step cfg lane) (create cfg lane) st)
    (sends : st.Sends cfg) (attempts : Nat → Attempt) :
    0 < st.maxSegs cfg ∧ st.seg cfg < 2 ^ 16 ∧
      (st.packed cfg lane attempts).crowded = false ∧
      (st.packed cfg lane attempts).staged.length ≤ stagingBytes ∧
      ((st.packed cfg lane attempts).datagrams.length = 1 ∨
        ∀ sent ∈ (st.packed cfg lane attempts).datagrams, sent.bytes.length = st.seg cfg) ∧
      ∀ segmented, st.leaves cfg (st.packed cfg lane attempts) segmented =
        (st.packed cfg lane attempts).datagrams.map Sent.bytes := by
  have held := reachable_held reached
  have hpacked := held.packed sends attempts
  obtain ⟨hlow, hhigh⟩ := held.seg_bounds
  refine ⟨held.maxSegs_pos sends, Nat.lt_of_le_of_lt hhigh (by decide), hpacked.uncrowded,
    Nat.le_trans hpacked.within (Nat.le_add_right _ _), ?_, held.leaves_packed hpacked⟩
  rcases hpacked.uniform with huniform | ⟨sent, hsingle, _⟩
  · exact Or.inr huniform
  · exact Or.inl (by rw [hsingle]; rfl)

/-- Five bytes in blocks of two, in the clear, on a route of unknown MTU. -/
def fiveBytes : LoopConfig where
  send := { lanes := 1, data := [1, 2, 3, 4, 5], blockSize := 2, nonces := fun _ => 7 }
  route := ⟨0, false⟩

def opening (ranges : List ResumeRange) : List LoopEvent :=
  [.lane (.receive (ackBytes { nonce := 7 }) (fun _ => true) 0),
    .lane (.receive (resumeRangesBytes { nonce := 7, ranges := ranges }) (fun _ => true) 0)]

theorem batch_splits_fiveBytes :
    ∃ st, Reachable (SendLoop.step fiveBytes 0) (create fiveBytes 0) st ∧ st.Sends fiveBytes ∧
      (st.packed fiveBytes 0 fun _ => {}).datagrams.length = 2 ∧
      ∀ segmented, st.leaves fiveBytes (st.packed fiveBytes 0 fun _ => {}) segmented =
        (st.packed fiveBytes 0 fun _ => {}).datagrams.map Sent.bytes := by
  obtain ⟨st, hst, hsends, hcount⟩ : ∃ st,
      replay (SendLoop.step fiveBytes 0) (create fiveBytes 0) (opening [⟨0, 5⟩]) = some st ∧
        st.Sends fiveBytes ∧
        (st.packed fiveBytes 0 fun _ => {}).datagrams.length = 2 := by decide +kernel
  have hreached : Reachable (SendLoop.step fiveBytes 0) (create fiveBytes 0) st := ⟨_, hst⟩
  have hsplits := batch_splits hreached hsends fun _ => {}
  exact ⟨st, hreached, hsends, hcount, hsplits.2.2.2.2.2⟩

end Loop

end SendLoop

end FuseTransport.Transfer
