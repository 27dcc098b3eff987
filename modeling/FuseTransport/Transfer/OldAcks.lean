import FuseTransport.Foundation.Chronicle
import FuseTransport.Proto.Congestion
import FuseTransport.Transfer.Integrity

/-!
# Acknowledgements that come late

An acknowledgement that was made before another one the sender has already processed
says nothing new about blocks.  The receive window it advertises and the send time it
echoes are old as well, but these the sender takes over from every acknowledgement.
-/

namespace FuseTransport.Transfer

open Foundation Foundation.Runs Proto

/-- The bytes known to have arrived, the window the receiver advertises, and the estimate
of the round-trip time.  `samples` are the echoed times that entered the estimate; the
code does not keep them. -/
structure Estimate where
  ackedBytes : Nat := 0
  peerRwnd : Nat := kRwndUnlimited
  lastRttEcho : Nat := 0
  cc : CongestionController
  samples : List Nat := []
  deriving DecidableEq, Repr

variable {ack : Ack} {L : SendLane} {wireNs : Nat}

namespace Estimate

variable (est : Estimate)

/-- An echo is a sample unless it repeats the last one. -/
def onEcho (echoed wireNs : Nat) : Estimate :=
  if 0 < echoed ∧ echoed ≠ est.lastRttEcho then
    { est with
      lastRttEcho := echoed
      samples := est.samples ++ [echoed]
      cc := est.cc.onRttSample (rttSampleFromEcho wireNs echoed) }
  else est

def onAck (L : SendLane) (ack : Ack) (wireNs : Nat) : Estimate :=
  let applied := applyAck L.reg ack L.base L.nextSeq (some L.receivedEnd)
  { est with
    ackedBytes := u64 (est.ackedBytes + applied.bytes)
    peerRwnd := ack.rwnd }.onEcho ack.echoedSendTime wireNs

theorem repeats_of_not {est : Estimate} {echoed : Nat}
    (old : ¬(0 < echoed ∧ echoed ≠ est.lastRttEcho)) : echoed = 0 ∨ echoed = est.lastRttEcho := by
  rcases Nat.eq_zero_or_pos echoed with hzero | hpos
  · exact Or.inl hzero
  · exact Or.inr (Decidable.not_not.mp fun differs => old ⟨hpos, differs⟩)

theorem onEcho_ackedBytes (echoed wireNs : Nat) :
    (est.onEcho echoed wireNs).ackedBytes = est.ackedBytes := by
  unfold onEcho
  split <;> rfl

theorem onAck_old {est : Estimate}
    (old : applyAck L.reg ack L.base L.nextSeq (some L.receivedEnd) =
      ⟨L.reg, L.base, some L.receivedEnd, 0⟩) (word : est.ackedBytes < 2 ^ 64) :
    est.onAck L ack wireNs =
      { est with peerRwnd := ack.rwnd }.onEcho ack.echoedSendTime wireNs := by
  unfold onAck
  rw [old]
  change Estimate.onEcho { est with ackedBytes := u64 est.ackedBytes, peerRwnd := ack.rwnd } _ _ = _
  rw [u64_of_lt word]

/-- What the times that acknowledgements echo do to an estimate. -/
inductive Hears (est est' : Estimate) : List Nat → Prop where
  | nothing (samples : est'.samples = est.samples) (last : est'.lastRttEcho = est.lastRttEcho) :
      Hears est est' []
  | again (samples : est'.samples = est.samples) (last : est'.lastRttEcho = est.lastRttEcho) :
      Hears est est' [est.lastRttEcho]
  | sample (echoed : Nat) (differs : est.lastRttEcho ≠ echoed)
      (samples : est'.samples = est.samples ++ [echoed]) (last : est'.lastRttEcho = echoed) :
      Hears est est' [echoed]

theorem onAck_hears (L : SendLane) (ack : Ack) (wireNs : Nat) :
    est.Hears (est.onAck L ack wireNs) ([ack.echoedSendTime].filter (0 < ·)) := by
  unfold onAck onEcho
  dsimp only
  split
  · rename_i hsample
    rw [List.filter_singleton, decide_eq_true hsample.1]
    exact .sample _ (Ne.symm hsample.2) rfl rfl
  · rename_i hold
    rcases repeats_of_not hold with hzero | hlast
    · rw [hzero]
      exact .nothing rfl rfl
    · rw [hlast, List.filter_singleton]
      cases decide (0 < est.lastRttEcho) with
      | true => exact .again rfl rfl
      | false => exact .nothing rfl rfl

/-- An advertised window and an echo that change nothing are those last taken over. -/
theorem retaken_iff (rwnd echoed wireNs : Nat) :
    (({ est with peerRwnd := rwnd }.onEcho echoed wireNs).peerRwnd = est.peerRwnd ∧
      ({ est with peerRwnd := rwnd }.onEcho echoed wireNs).lastRttEcho = est.lastRttEcho ∧
      ({ est with peerRwnd := rwnd }.onEcho echoed wireNs).cc.srttNs = est.cc.srttNs ∧
      ({ est with peerRwnd := rwnd }.onEcho echoed wireNs).cc.rttvarNs = est.cc.rttvarNs) ↔
    rwnd = est.peerRwnd ∧ (echoed = 0 ∨ echoed = est.lastRttEcho) := by
  unfold onEcho
  split
  · rename_i hsample
    constructor
    · rintro ⟨_, hecho, _, _⟩
      exact absurd hecho hsample.2
    · rintro ⟨_, hzero | hsame⟩
      · exact absurd hzero (Nat.ne_of_gt hsample.1)
      · exact absurd hsame hsample.2
  · rename_i hold
    exact ⟨fun same => ⟨same.1, repeats_of_not hold⟩, fun same => ⟨same.1, rfl, rfl, rfl⟩⟩

end Estimate

theorem SendLane.onAck_old (old : applyAck L.reg ack L.base L.nextSeq (some L.receivedEnd) =
      ⟨L.reg, L.base, some L.receivedEnd, 0⟩) : L.onAck ack = L := by
  unfold SendLane.onAck
  rw [old]
  rfl

/-- The acknowledgement a lane that is sending acts on. -/
def SendLane.heeded (cfg : SendConfig) (lane : Nat) (L : SendLane) (dg : List UInt8) : Option Ack :=
  if L.phase = .sending ∧ ctlAuthentic L.signer dg ∧ peekMsgType dg = some .ack then
    (decodeAck dg).filter fun ack => ack.nonce = cfg.nonce lane
  else none

inductive ControllerEvent where
  | poll (nowNs : Nat)
  | loss
  | timeout
  | progress

def ControllerEvent.apply (cc : CongestionController) : ControllerEvent → CongestionController
  | poll nowNs => cc.poll nowNs
  | loss => cc.onLoss
  | timeout => cc.onTimeout
  | progress => cc.onProgress

/-- A session together with what each lane of the sender has learned. -/
structure Measured where
  session : Session
  est : Nat → Estimate

inductive MeasuredEvent where
  | session (e : SessionEvent)
  | controller (lane : Nat) (e : ControllerEvent)

namespace Measured

variable (cfg : SessionConfig)

def create (cc : Nat → CongestionController) : Measured where
  session := Session.create cfg
  est := fun lane => { cc := cc lane }

def learn (st : Measured) : SessionEvent → Nat → Estimate
  | .sender lane (.receive dg _ wireNs) =>
    match (st.session.tx lane).heeded cfg.send lane dg with
    | some ack =>
      Function.update st.est lane ((st.est lane).onAck (st.session.tx lane) ack wireNs)
    | none => st.est
  | _ => st.est

def step (st : Measured) : MeasuredEvent → Option Measured
  | .session e => (st.session.step cfg e).map fun next => { session := next, est := st.learn cfg e }
  | .controller lane e =>
    some { st with
      est := Function.update st.est lane
        { st.est lane with cc := e.apply (st.est lane).cc } }

end Measured

/-! ## What a processed acknowledgement leaves behind -/

variable {dg : List UInt8} {lane : Nat}

namespace SendLane

/-- A lane that has processed an acknowledgement: it holds none of the blocks that one
names, and knows that they have arrived. -/
structure Heeds (ack : Ack) (L : SendLane) : Prop where
  begun : L.phase ≠ .handshake
  base : ack.baseSeqNo ≤ L.base
  ends : L.base ≤ L.receivedEnd
  known : ∀ seqNo, ack.Asserts seqNo →
    seqNo < L.nextSeq ∧ seqNo < L.receivedEnd ∧ (L.base ≤ seqNo → L.reg.lookup seqNo = none)

section Heeds

variable {cfg : SendConfig} {lane : Nat} {Accepted : Nat → Prop} {L L' : SendLane} {ack other : Ack}

/-- The parts of a lane an acknowledgement changes. -/
theorem onAck_applied (sound : L.Sound cfg lane Accepted) (ack : Ack) :
    L.base ≤ (L.onAck ack).base ∧ min ack.baseSeqNo L.nextSeq ≤ (L.onAck ack).base ∧
      L.receivedEnd ≤ (L.onAck ack).receivedEnd ∧ (L.onAck ack).base ≤ (L.onAck ack).receivedEnd ∧
      (∀ seqNo, seqNo < L.nextSeq → ack.Asserts seqNo → seqNo < (L.onAck ack).receivedEnd) ∧
      Frees L.reg (L.onAck ack).reg
        (fun seqNo => L.base ≤ seqNo ∧ seqNo < L.nextSeq ∧ ack.Asserts seqNo) := by
  have hwindow : L.nextSeq ≤ L.base + kMaxWindow :=
    Nat.le_trans sound.window.window (Nat.add_le_add_left L.reg.window_le _)
  have hbase := applyAck_base L.reg ack (some L.receivedEnd) sound.window.ordered
  obtain ⟨⟨last, hlast, hgrows⟩, hends, hnamed⟩ :=
    applyAck_known L.reg ack L.receivedEnd sound.window.ordered hwindow sound.window.bounded
  have hend : (L.onAck ack).receivedEnd = last := by
    change ((applyAck _ _ _ _ _).receivedEnd.getD _) = last
    rw [hlast]
    rfl
  have hknown : ∀ count, (applyAck L.reg ack L.base L.nextSeq (some L.receivedEnd)).Known count →
      count ≤ last := by
    rintro count ⟨other, hother, hcount⟩
    rw [hlast] at hother
    cases hother
    exact hcount
  refine ⟨?_, ?_, ?_, ?_, ?_, applyAck_frees L.reg ack (some L.receivedEnd) sound.window.ordered
    hwindow sound.window.bounded⟩
  · change L.base ≤ (applyAck _ _ _ _ _).base
    rw [hbase]
    exact Nat.le_max_left _ _
  · change _ ≤ (applyAck _ _ _ _ _).base
    rw [hbase]
    exact Nat.le_max_right _ _
  · rw [hend]
    exact hgrows
  · rw [hend]
    exact hknown _ hends
  · intro seqNo sent asserted
    rw [hend]
    exact hknown _ (hnamed seqNo sent asserted)

/-- Processing an acknowledgement of blocks that were sent. -/
theorem heeds_onAck (sound : L.Sound cfg lane Accepted) (begun : L.phase ≠ .handshake)
    (sent : ∀ seqNo, ack.Asserts seqNo → seqNo < L.nextSeq) : (L.onAck ack).Heeds ack := by
  obtain ⟨_, hbase, _, hends, hnamed, hfrees⟩ := onAck_applied sound ack
  have hsent : ack.baseSeqNo ≤ L.nextSeq := by
    rcases Nat.eq_zero_or_pos ack.baseSeqNo with hzero | hpos
    · rw [hzero]
      exact Nat.zero_le _
    · exact Nat.le_of_pred_lt (sent _ (Or.inl (Nat.pred_lt_of_lt hpos)))
  constructor
  case begun => exact begun
  case base => rwa [Nat.min_eq_left hsent] at hbase
  case ends => exact hends
  case known =>
    intro seqNo asserted
    have hbelow := sent seqNo asserted
    refine ⟨hbelow, hnamed seqNo hbelow asserted, fun above => ?_⟩
    refine hfrees.freed seqNo ⟨?_, hbelow, asserted⟩
    exact Nat.le_trans (onAck_applied sound ack).1 above

theorem Heeds.onAck (heeds : L.Heeds ack) (sound : L.Sound cfg lane Accepted) (other : Ack) :
    (L.onAck other).Heeds ack := by
  obtain ⟨hbase, _, hgrows, hends, _, hfrees⟩ := onAck_applied sound other
  constructor
  case begun => exact heeds.begun
  case base => exact Nat.le_trans heeds.base hbase
  case ends => exact hends
  case known =>
    intro seqNo asserted
    obtain ⟨hsent, hinside, hfree⟩ := heeds.known seqNo asserted
    refine ⟨hsent, Nat.lt_of_lt_of_le hinside hgrows, fun above => ?_⟩
    by_cases hfreed : L.base ≤ seqNo ∧ seqNo < L.nextSeq ∧ other.Asserts seqNo
    · exact hfrees.freed seqNo hfreed
    · rw [hfrees.kept seqNo hfreed]
      exact hfree (Nat.le_trans hbase above)

/-- A change that keeps the window and the blocks that were sent. -/
theorem Heeds.congr (heeds : L.Heeds ack) (phase : L'.phase ≠ .handshake) (base : L'.base = L.base)
    (ends : L'.receivedEnd = L.receivedEnd) (next : L.nextSeq ≤ L'.nextSeq)
    (held : ∀ seqNo < L.nextSeq, L.reg.lookup seqNo = none → L'.reg.lookup seqNo = none) :
    L'.Heeds ack := by
  constructor
  case begun => exact phase
  case base => rw [base]; exact heeds.base
  case ends => rw [base, ends]; exact heeds.ends
  case known =>
    intro seqNo asserted
    obtain ⟨hsent, hinside, hfree⟩ := heeds.known seqNo asserted
    rw [ends, base]
    exact ⟨Nat.lt_of_lt_of_le hsent next, hinside, fun above => held seqNo hsent (hfree above)⟩

theorem Heeds.sendNext (heeds : L.Heeds ack) (sound : L.Sound cfg lane Accepted)
    (pending : L.pending) (room : L.nextSeq < u64 (L.base + kWindow)) {block : Nat}
    (fits : block ≤ cfg.blockCeiling) (works : Bool) (nowNs wireNs cap : Nat) :
    (L.sendNext cfg lane block works nowNs wireNs cap).1.Heeds ack := by
  obtain ⟨stored, hstore, hkept⟩ := sound.keep pending fits nowNs
  obtain ⟨_, hword⟩ := SendWindow.guard_exact room
  have hheld : ∀ seqNo < L.nextSeq, L.reg.lookup seqNo = none → stored.lookup seqNo = none := by
    intro seqNo sent free
    rw [SenderRegistry.lookup_store hstore, if_neg (Nat.ne_of_lt sent)]
    split
    · rfl
    · exact free
  unfold SendLane.sendNext
  dsimp only
  rw [hkept]
  split
  · obtain ⟨hreg, hbase, _, hphase, _⟩ := count_frame { L with reg := stored }
      (L.nextBlock cfg lane (L.blockLength block)) (L.blockLength block)
    refine heeds.congr (fun waiting => heeds.begun (hphase.symm.trans waiting)) hbase ?_ ?_ ?_
    · unfold SendLane.count SendLane.advance
      split <;> rfl
    · change L.nextSeq ≤ u64 (L.nextSeq + 1)
      rw [u64_of_lt hword]
      exact Nat.le_succ _
    · rw [hreg]
      exact hheld
  · exact heeds.congr heeds.begun rfl rfl (Nat.le_refl _) hheld

/-- What a processed acknowledgement leaves behind stays. -/
theorem Moved.heeds {e : TxEvent} {sent : List Sent} (moved : Moved cfg lane L e L' sent)
    (sound : L.Sound cfg lane Accepted) (heeds : L.Heeds ack) : L'.Heeds ack := by
  cases moved with
  | spoke _ _ _ _ _ spoke =>
    have hphase : L'.phase ≠ .handshake := by
      rcases spoke.phase with hsame | ⟨hdigesting, _⟩
      · rw [hsame]
        exact heeds.begun
      · rw [hdigesting]
        exact nofun
    refine heeds.congr hphase ?_ ?_ ?_ ?_
    · rw [spoke.steady.rest]
    · rw [spoke.steady.rest]
    · rw [spoke.steady.rest]
    · rw [spoke.steady.rest]
      exact fun _ _ => id
  | heard _ _ _ _ waiting => exact absurd waiting heeds.begun
  | acked _ _ _ other => exact heeds.onAck sound other
  | nacked | timedOut => exact heeds
  | block block works nowNs wireNs cap _ _ pending room _ fits =>
    exact heeds.sendNext sound pending room fits works nowNs wireNs cap

/-- An acknowledgement that names nothing new is without effect. -/
theorem Heeds.old (heeds : L.Heeds ack) (sound : L.Sound cfg lane Accepted)
    (earlier : other.baseSeqNo ≤ ack.baseSeqNo)
    (fewer : ∀ seqNo, other.Asserts seqNo → ack.Asserts seqNo) :
    applyAck L.reg other L.base L.nextSeq (some L.receivedEnd) =
      ⟨L.reg, L.base, some L.receivedEnd, 0⟩ := by
  have hwindow : L.nextSeq ≤ L.base + kMaxWindow :=
    Nat.le_trans sound.window.window (Nat.add_le_add_left L.reg.window_le _)
  refine applyAck_old hwindow sound.window.bounded (Nat.le_trans earlier heeds.base) heeds.ends ?_
  intro seqNo above _ asserted
  obtain ⟨_, hinside, hfree⟩ := heeds.known seqNo (fewer seqNo asserted)
  exact ⟨hfree above, hinside⟩

end Heeds

/-- The step by which a lane processes an acknowledgement. -/
theorem act_heeded {cfg : SendConfig} {L' : SendLane} {works : Nat → Bool} {sent : List Sent}
    (heeded : L.heeded cfg lane dg = some ack)
    (acted : L.act cfg lane (.receive dg works wireNs) = some (L', sent)) :
    L.phase = .sending ∧ L' = L.onAck ack := by
  obtain ⟨hguard, heeded⟩ := Option.ite_none_right_eq_some.mp heeded
  obtain ⟨hphase, hauthentic, hpeek⟩ := hguard
  obtain ⟨hdecoded, hnonce⟩ := Option.filter_eq_some_iff.mp heeded
  rw [decide_eq_true_eq] at hnonce
  refine ⟨hphase, ?_⟩
  rw [SendLane.act] at acted
  split at acted
  · simp only [hphase, SendLane.onFeedback, hauthentic, hpeek, hdecoded, hnonce] at acted
    exact (Prod.mk.inj (Option.some.inj acted)).1.symm
  · cases acted

end SendLane

theorem RecvLane.Kept.refl (R : RecvLane) : RecvLane.Kept R R :=
  ⟨Nat.le_refl _, fun _ => id, fun started => ⟨started, rfl⟩⟩

theorem RecvLane.Kept.trans {R R' R'' : RecvLane} (first : RecvLane.Kept R R')
    (second : RecvLane.Kept R' R'') : RecvLane.Kept R R'' where
  base := Nat.le_trans first.base second.base
  accepted := fun s accepted => second.accepted s (first.accepted s accepted)
  asked := by
    intro started
    obtain ⟨hstarted, hwant⟩ := first.asked started
    obtain ⟨hstill, hsame⟩ := second.asked hstarted
    exact ⟨hstill, hsame.trans hwant⟩

namespace Session

variable {cfg : SessionConfig} {st st' : Session}

/-- A lane of the receiver never goes back. -/
theorem Inv.kept (inv : st.Inv cfg) {e : SessionEvent} (moved : st.step cfg e = some st')
    (inside : lane < cfg.send.lanes) :
    RecvLane.Kept (st.rx.lanes lane) (st'.rx.lanes lane) := by
  cases step_stepped moved with
  | receiver e rx sent arrived stepped replied =>
    cases stepped with
    | lane own sh L same within change =>
      subst same
      have hlane : ({ st.rx.setLane e.lane L with shared := sh } : RxState).lanes e.lane = L :=
        RxState.setLane_self _ _ _
      rw [hlane] at replied
      by_cases hother : lane = e.lane
      · subst hother
        change RecvLane.Kept _ (({ st.rx.setLane e.lane L with shared := sh } : RxState).lanes e.lane)
        rw [hlane]
        exact ((inv.links e.lane inside).received (lane_fits cfg inside) (inv.accounts e.lane)
          inv.output change (fun inp dg => arrived e.lane inp dg) replied).2.2.2
      · change RecvLane.Kept _ ((st.rx.setLane e.lane L).lanes lane)
        rw [RxState.setLane_of_ne _ hother]
        exact RecvLane.Kept.refl _
    | finish => exact RecvLane.Kept.refl _
  | sender => exact RecvLane.Kept.refl _

/-- What a lane of the sender has processed stays processed. -/
theorem Inv.heeds (inv : st.Inv cfg) {e : SessionEvent} (moved : st.step cfg e = some st')
    (heeds : (st.tx lane).Heeds ack) : (st'.tx lane).Heeds ack := by
  cases step_stepped moved with
  | receiver => exact heeds
  | sender own e T sent inside arrived change =>
    by_cases hother : lane = own
    · subst hother
      change (Function.update st.tx lane T lane).Heeds ack
      rw [Function.update_self]
      exact change.heeds (inv.links lane inside).sender heeds
    · change (Function.update st.tx own T lane).Heeds ack
      rw [Function.update_of_ne hother]
      exact heeds

/-- Everything a lane of the receiver has accepted was sent. -/
theorem Inv.accepted_sent (inv : st.Inv cfg) (inside : lane < cfg.send.lanes) {s : Nat}
    (accepted : (st.rx.lanes lane).rx.Accepted s) : s < (st.tx lane).nextSeq := by
  have hlink := inv.links lane inside
  obtain ⟨block, hfound, _⟩ := hlink.receiver.accepted (inv.accounts lane) hlink.sender.walk.slices
    (lane_fits cfg inside) hlink.word accepted
  rw [← hlink.sender.counted]
  exact (List.getElem?_eq_some_iff.mp hfound).1

end Session

/-! ## Whole runs -/

namespace RecvLane

/-- A later acknowledgement names everything an earlier one names. -/
theorem Kept.acks (cfg : RxConfig) {R R' : RecvLane} (kept : Kept R R') :
    (R.ackMessage cfg).baseSeqNo ≤ (R'.ackMessage cfg).baseSeqNo ∧
      ∀ seqNo, (R.ackMessage cfg).Asserts seqNo → (R'.ackMessage cfg).Asserts seqNo := by
  refine ⟨kept.base, ?_⟩
  intro seqNo asserted
  exact (R'.rx.buildAck_asserts seqNo).mpr
    (kept.accepted seqNo ((R.rx.buildAck_asserts seqNo).mp asserted))

end RecvLane

variable {run : List MeasuredEvent} {first : Measured}

namespace Measured

variable {cfg : SessionConfig} {st st' : Measured}

/-- What a lane of the sender knows of its blocks and of the way to the receiver. -/
structure View where
  base : Nat
  reg : SenderRegistry
  receivedEnd : Nat
  ackedBytes : Nat
  peerRwnd : Nat
  lastRttEcho : Nat
  srttNs : Nat
  rttvarNs : Nat

def view (st : Measured) (lane : Nat) : View where
  base := (st.session.tx lane).base
  reg := (st.session.tx lane).reg
  receivedEnd := (st.session.tx lane).receivedEnd
  ackedBytes := (st.est lane).ackedBytes
  peerRwnd := (st.est lane).peerRwnd
  lastRttEcho := (st.est lane).lastRttEcho
  srttNs := (st.est lane).cc.srttNs
  rttvarNs := (st.est lane).cc.rttvarNs

theorem view_eq_iff (same : st'.session.tx lane = st.session.tx lane)
    (acked : (st'.est lane).ackedBytes = (st.est lane).ackedBytes) :
    st'.view lane = st.view lane ↔
      (st'.est lane).peerRwnd = (st.est lane).peerRwnd ∧
      (st'.est lane).lastRttEcho = (st.est lane).lastRttEcho ∧
      (st'.est lane).cc.srttNs = (st.est lane).cc.srttNs ∧
      (st'.est lane).cc.rttvarNs = (st.est lane).cc.rttvarNs := by
  unfold view
  rw [same, acked]
  simp

structure Inv (cfg : SessionConfig) (st : Measured) : Prop where
  session : st.session.Inv cfg
  word : ∀ lane, (st.est lane).ackedBytes < 2 ^ 64

theorem create_inv (cfg : SessionConfig) (cc : Nat → CongestionController) :
    (create cfg cc).Inv cfg :=
  ⟨Session.create_inv cfg, fun _ => Nat.two_pow_pos 64⟩

variable {e : MeasuredEvent}

theorem step_session (moved : st.step cfg e = some st') :
    st'.session = st.session ∨ ∃ own, st.session.step cfg own = some st'.session := by
  cases e with
  | session own =>
    obtain ⟨next, hnext, rfl⟩ := Option.map_eq_some_iff.mp moved
    exact Or.inr ⟨own, hnext⟩
  | controller lane own =>
    cases moved
    exact Or.inl rfl

/-- At most one lane learns from an event, and it learns from an acknowledgement. -/
theorem learn_update (cfg : SessionConfig) (st : Measured) (e : SessionEvent) :
    st.learn cfg e = st.est ∨ ∃ lane ack wireNs, st.learn cfg e =
      Function.update st.est lane ((st.est lane).onAck (st.session.tx lane) ack wireNs) := by
  unfold learn
  split
  · split
    · exact Or.inr ⟨_, _, _, rfl⟩
    · exact Or.inl rfl
  · exact Or.inl rfl

theorem step_word (word : ∀ lane, (st.est lane).ackedBytes < 2 ^ 64)
    (moved : st.step cfg e = some st') (lane : Nat) : (st'.est lane).ackedBytes < 2 ^ 64 := by
  have hupdate : ∀ own est, est.ackedBytes < 2 ^ 64 →
      (Function.update st.est own est lane).ackedBytes < 2 ^ 64 := by
    intro own est small
    by_cases hother : lane = own
    · subst hother
      rw [Function.update_self]
      exact small
    · rw [Function.update_of_ne hother]
      exact word lane
  cases e with
  | controller own e =>
    cases moved
    exact hupdate own _ (word own)
  | session e =>
    obtain ⟨next, _, rfl⟩ := Option.map_eq_some_iff.mp moved
    rcases learn_update cfg st e with hsame | ⟨own, ack, wireNs, hlearned⟩
    · rw [hsame]
      exact word lane
    · rw [hlearned]
      refine hupdate own _ ?_
      rw [Estimate.onAck, Estimate.onEcho_ackedBytes]
      exact Nat.mod_lt _ (Nat.two_pow_pos 64)

theorem Inv.step (inv : st.Inv cfg) (moved : st.step cfg e = some st') :
    st'.Inv cfg where
  session := by
    rcases step_session moved with hsame | ⟨own, hstep⟩
    · rw [hsame]
      exact inv.session
    · exact inv.session.step hstep
  word := step_word inv.word moved

theorem Inv.onward (inv : st.Inv cfg) (replayed : replay (Measured.step cfg) st run = some st') :
    st'.Inv cfg :=
  replay_preserves (fun _ _ _ inv moved => inv.step moved) replayed inv

/-- What the steps of a session preserve holds over a run. -/
theorem Inv.keeps {K : Session → Prop} (inv : st.Inv cfg)
    (preserved : ∀ before e after, before.Inv cfg → K before →
      Session.step cfg before e = some after → K after)
    (replayed : replay (Measured.step cfg) st run = some st') (initially : K st.session) :
    K st'.session := by
  have hstep : ∀ before e after, before.Inv cfg ∧ K before.session →
      Measured.step cfg before e = some after → after.Inv cfg ∧ K after.session := by
    rintro before e after ⟨hinv, hkeeps⟩ moved
    refine ⟨hinv.step moved, ?_⟩
    rcases step_session moved with hsame | ⟨own, hsession⟩
    · rwa [hsame]
    · exact preserved _ own _ hinv.session hkeeps hsession
  exact (replay_preserves hstep replayed ⟨inv, initially⟩).2

/-- Over a run a lane of the receiver never goes back. -/
theorem Inv.replay_kept (inv : st.Inv cfg)
    (replayed : replay (Measured.step cfg) st run = some st') (inside : lane < cfg.send.lanes) :
    RecvLane.Kept (st.session.rx.lanes lane) (st'.session.rx.lanes lane) :=
  inv.keeps (K := fun s => RecvLane.Kept (st.session.rx.lanes lane) (s.rx.lanes lane))
    (fun _ _ _ hinv hkept hstep => hkept.trans (hinv.kept hstep inside)) replayed
    (RecvLane.Kept.refl _)

/-- Over a run what a lane has processed stays processed. -/
theorem Inv.replay_heeds (inv : st.Inv cfg)
    (replayed : replay (Measured.step cfg) st run = some st')
    (heeds : (st.session.tx lane).Heeds ack) : (st'.session.tx lane).Heeds ack :=
  inv.keeps (K := fun s => (s.tx lane).Heeds ack)
    (fun _ _ _ hinv hheeds hstep => hinv.heeds hstep hheeds) replayed heeds

/-- The step by which a lane of the sender processes an acknowledgement. -/
theorem step_heeded {works : Nat → Bool}
    (heeded : (st.session.tx lane).heeded cfg.send lane dg = some ack)
    (moved : st.step cfg (.session (.sender lane (.receive dg works wireNs))) = some st') :
    lane < cfg.send.lanes ∧ (st.session.tx lane).phase = .sending ∧
      st'.session.tx lane = (st.session.tx lane).onAck ack ∧
      st'.est lane = (st.est lane).onAck (st.session.tx lane) ack wireNs := by
  obtain ⟨next, hnext, rfl⟩ := Option.map_eq_some_iff.mp moved
  obtain ⟨hguard, hnext⟩ := Option.ite_none_right_eq_some.mp hnext
  obtain ⟨⟨L', sent⟩, hact, rfl⟩ := Option.map_eq_some_iff.mp hnext
  obtain ⟨hphase, hlane⟩ := SendLane.act_heeded heeded hact
  refine ⟨hguard.1, hphase, ?_, ?_⟩
  · change Function.update st.session.tx lane L' lane = _
    rw [Function.update_self, hlane]
  · rw [learn, heeded]
    exact Function.update_self _ _ _

/-- The lane has processed an acknowledgement that was built when `older` was or later. -/
inductive Overtaken (cfg : SessionConfig) (cc : Nat → CongestionController) (lane : Nat)
    (older : Ack) (st : Measured) : Prop where
  | intro (before between waiting after : List MeasuredEvent) (st₁ st₂ st₃ st₄ : Measured)
      (dg : List UInt8) (works : Nat → Bool) (wireNs : Nat)
      (first : replay (Measured.step cfg) (create cfg cc) before = some st₁)
      (builds : older = (st₁.session.rx.lanes lane).ackMessage cfg.recv)
      (second : replay (Measured.step cfg) st₁ between = some st₂)
      (third : replay (Measured.step cfg) st₂ waiting = some st₃)
      (newer : (st₃.session.tx lane).heeded cfg.send lane dg =
        some ((st₂.session.rx.lanes lane).ackMessage cfg.recv))
      (processed : st₃.step cfg (.session (.sender lane (.receive dg works wireNs))) = some st₄)
      (fourth : replay (Measured.step cfg) st₄ after = some st)

/-- What an overtaken acknowledgement says of blocks is known. -/
theorem Overtaken.old {cc : Nat → CongestionController} {older : Ack}
    (overtaken : Overtaken cfg cc lane older st) :
    st.Inv cfg ∧ applyAck (st.session.tx lane).reg older (st.session.tx lane).base
      (st.session.tx lane).nextSeq (some (st.session.tx lane).receivedEnd) =
        ⟨(st.session.tx lane).reg, (st.session.tx lane).base,
          some (st.session.tx lane).receivedEnd, 0⟩ := by
  obtain ⟨before, between, waiting, after, st₁, st₂, st₃, st₄, dg, works, wireNs, first, rfl,
    second, third, newer, processed, fourth⟩ := overtaken
  have inv₁ := (create_inv cfg cc).onward first
  have inv₂ := inv₁.onward second
  have inv₃ := inv₂.onward third
  have inv := (inv₃.step processed).onward fourth
  obtain ⟨inside, hphase, hlane, _⟩ := step_heeded newer processed
  -- the sender has sent whatever the newer acknowledgement names
  have hsent : ∀ seqNo, ((st₂.session.rx.lanes lane).ackMessage cfg.recv).Asserts seqNo →
      seqNo < (st₃.session.tx lane).nextSeq := by
    intro seqNo asserted
    have haccepted := (inv₂.replay_kept third inside).accepted seqNo
      (((st₂.session.rx.lanes lane).rx.buildAck_asserts seqNo).mp asserted)
    exact inv₃.session.accepted_sent inside haccepted
  have hbegun : (st₃.session.tx lane).phase ≠ .handshake := by
    rw [hphase]
    exact nofun
  have hheeds : (st.session.tx lane).Heeds ((st₂.session.rx.lanes lane).ackMessage cfg.recv) := by
    refine (inv₃.step processed).replay_heeds fourth ?_
    rw [hlane]
    exact SendLane.heeds_onAck (inv₃.session.links lane inside).sender hbegun hsent
  obtain ⟨hbase, hfewer⟩ := (inv₁.replay_kept second inside).acks cfg.recv
  exact ⟨inv, hheeds.old (inv.session.links lane inside).sender hbase hfewer⟩

/-- The send time that reaches the lane with an event: the one echoed by an
acknowledgement that it acts on, if there is one. -/
def echoAt (cfg : SessionConfig) (lane : Nat) (st : Measured) : MeasuredEvent → List Nat
  | .session (.sender own (.receive dg _ _)) =>
    if own = lane then
      (((st.session.tx lane).heeded cfg.send lane dg).toList.map Ack.echoedSendTime).filter (0 < ·)
    else []
  | _ => []

/-- The send times that reach the lane in a run. -/
def echoes (cfg : SessionConfig) (lane : Nat) : Measured → List MeasuredEvent → List Nat :=
  trace (Measured.step cfg) (echoAt cfg lane)

theorem echoAt_pos (lane : Nat) (st : Measured) (e : MeasuredEvent) :
    0 ∉ st.echoAt cfg lane e := by
  unfold echoAt
  split
  · split
    · simp
    · exact List.not_mem_nil
  · exact List.not_mem_nil

theorem learn_hears (st : Measured) (lane own : Nat) (dg : List UInt8) (works : Nat → Bool)
    (wireNs : Nat) :
    (st.est lane).Hears (st.learn cfg (.sender own (.receive dg works wireNs)) lane)
      (st.echoAt cfg lane (.session (.sender own (.receive dg works wireNs)))) := by
  rw [learn, echoAt]
  by_cases hother : own = lane
  · subst hother
    rw [if_pos rfl]
    cases (st.session.tx own).heeded cfg.send own dg with
    | none => exact .nothing rfl rfl
    | some ack =>
      dsimp only
      rw [Function.update_self]
      exact Estimate.onAck_hears _ _ ack wireNs
  · rw [if_neg hother]
    cases (st.session.tx own).heeded cfg.send own dg with
    | none => exact .nothing rfl rfl
    | some ack =>
      dsimp only
      rw [Function.update_of_ne (Ne.symm hother)]
      exact .nothing rfl rfl

theorem step_hears (lane : Nat) (moved : st.step cfg e = some st') :
    (st.est lane).Hears (st'.est lane) (st.echoAt cfg lane e) := by
  cases e with
  | controller own e =>
    cases moved
    by_cases hother : lane = own
    · subst hother
      dsimp only
      rw [Function.update_self]
      exact .nothing rfl rfl
    · dsimp only
      rw [Function.update_of_ne hother]
      exact .nothing rfl rfl
  | session e =>
    obtain ⟨next, _, rfl⟩ := Option.map_eq_some_iff.mp moved
    cases e with
    | receiver => exact .nothing rfl rfl
    | sender own e =>
      cases e with
      | receive dg works wireNs => exact st.learn_hears lane own dg works wireNs
      | sendStart | sendBlock | retransmit | probe | leave | sendDigest | giveUp =>
        exact .nothing rfl rfl

/-- The samples are the times that reached the lane, repetitions put together. -/
theorem replay_samples {last : Measured} (lane : Nat)
    (replayed : replay (Measured.step cfg) first run = some last) :
    ∃ fresh, (echoes cfg lane first run).destutter' (· ≠ ·) (first.est lane).lastRttEcho =
        (first.est lane).lastRttEcho :: fresh ∧
      (last.est lane).samples = (first.est lane).samples ++ fresh := by
  induction run generalizing first with
  | nil =>
    cases replayed
    exact ⟨[], rfl, (List.append_nil _).symm⟩
  | cons e rest ih =>
    obtain ⟨next, hnext, onward⟩ := Option.bind_eq_some_iff.mp replayed
    obtain ⟨fresh, hparts, hsamples⟩ := ih onward
    have hhears := step_hears lane hnext
    rw [echoes, trace_cons hnext]
    rw [echoes] at hparts
    generalize echoAt cfg lane first e = heard at hhears
    cases hhears with
    | nothing same hlast =>
      rw [hlast] at hparts
      exact ⟨fresh, hparts, by rw [hsamples, same]⟩
    | again same hlast =>
      rw [hlast] at hparts
      refine ⟨fresh, ?_, by rw [hsamples, same]⟩
      rw [List.singleton_append, List.destutter'_cons_neg _ (not_not.mpr rfl)]
      exact hparts
    | sample echoed differs more hlast =>
      rw [hlast] at hparts
      refine ⟨echoed :: fresh, ?_, by rw [hsamples, more, ← List.append_cons]⟩
      rw [List.singleton_append, List.destutter'_cons_pos _ differs, hparts]

theorem echoes_pos (lane : Nat) (first : Measured) (run : List MeasuredEvent) :
    0 ∉ echoes cfg lane first run := by
  induction run generalizing first with
  | nil => exact List.not_mem_nil
  | cons e rest ih =>
    intro member
    rcases List.mem_append.mp member with hhere | hlater
    · exact echoAt_pos lane first e hhere
    · split at hlater
      · exact ih _ hlater
      · cases hlater

end Measured

/-- Processing an acknowledgement that was built before one already processed: the lane's
blocks and byte counts stay as they are, and the rest does exactly when the old
acknowledgement advertises the window and echoes the time last taken over.  In a run each
time is sampled once exactly when none reaches the lane again after a different one. -/
theorem old_ack_harmless_iff {cfg : SessionConfig} {cc : Nat → CongestionController} {lane : Nat}
    {st st' : Measured} {older : Ack} {dg : List UInt8} {works : Nat → Bool} {wireNs : Nat}
    (overtaken : st.Overtaken cfg cc lane older)
    (heeded : (st.session.tx lane).heeded cfg.send lane dg = some older)
    (processed : st.step cfg (.session (.sender lane (.receive dg works wireNs))) = some st') :
    ((st'.view lane).base = (st.view lane).base ∧ (st'.view lane).reg = (st.view lane).reg ∧
      (st'.view lane).receivedEnd = (st.view lane).receivedEnd ∧
      (st'.view lane).ackedBytes = (st.view lane).ackedBytes) ∧
    (st'.view lane = st.view lane ↔ older.rwnd = (st.est lane).peerRwnd ∧
      (older.echoedSendTime = 0 ∨ older.echoedSendTime = (st.est lane).lastRttEcho)) ∧
    ∀ run last, replay (Measured.step cfg) (Measured.create cfg cc) run = some last →
      ((last.est lane).samples.Nodup ↔
        Chronicle.Settled (Measured.echoes cfg lane (Measured.create cfg cc) run)) := by
  obtain ⟨inv, hold⟩ := overtaken.old
  obtain ⟨_, _, hlane, hest⟩ := Measured.step_heeded heeded processed
  rw [SendLane.onAck_old hold] at hlane
  rw [Estimate.onAck_old hold (inv.word lane)] at hest
  have hacked : (st'.est lane).ackedBytes = (st.est lane).ackedBytes := by
    rw [hest, Estimate.onEcho_ackedBytes]
  refine ⟨⟨congrArg SendLane.base hlane, congrArg SendLane.reg hlane,
    congrArg SendLane.receivedEnd hlane, hacked⟩, ?_, ?_⟩
  · rw [Measured.view_eq_iff hlane hacked, hest]
    exact Estimate.retaken_iff _ _ _ _
  · intro run last replayed
    obtain ⟨fresh, hparts, hsamples⟩ := Measured.replay_samples lane replayed
    rw [hsamples]
    exact Chronicle.nodup_fresh_iff (Measured.echoes_pos lane _ run) hparts

/-! ## An acknowledgement processed twice -/

/-- One lane and two blocks of one byte. -/
def twoBlockSession : SessionConfig where
  send := { lanes := 1, data := [8, 9], nonces := fun _ => 7 }

def twoBlockStart : Measured :=
  Measured.create twoBlockSession fun _ => CongestionController.create 8 true 4 1

/-- Both blocks are sent, and the second is not yet reported as written. -/
def twoBlockRun : List MeasuredEvent :=
  let opening := streamStartBytes
    { blockSize := 1200, totalBytes := 2, fileTotalBytes := 2, nonce := 7 }
  let wanted := resumeRangesBytes { nonce := 7, ranges := [⟨0, 2⟩] }
  let last : BlockHeader := { seqNo := 1, offset := 1, payloadLen := 1, flags := kFlagLastBlock }
  [.session (.sender 0 (.sendStart true)), .session (.receiver (.datagram 0 {} opening)),
    .session (.receiver (.ack 0 true)),
    .session (.sender 0 (.receive (ackBytes { nonce := 7, rwnd := 16 }) (fun _ => true) 0)),
    .session (.sender 0 (.receive wanted (fun _ => true) 0)),
    .session (.sender 0 (.sendBlock 1 true 1 5 2000)),
    .session (.sender 0 (.sendBlock 1 true 1 9 2000)),
    .session (.receiver (.datagram 0 {} (dataPrefix { payloadLen := 1 } 5 ++ [8]))),
    .session (.receiver (.consumer 0 0 1 fun _ => none)), .session (.receiver (.results 0 0 1 1)),
    .session (.receiver (.datagram 0 {} (dataPrefix last 9 ++ [9]))),
    .session (.receiver (.consumer 0 0 1 fun _ => none)), .session (.receiver (.ack 0 true))]

def twoBlockRest : List MeasuredEvent :=
  [.session (.receiver (.results 0 0 1 1)), .session (.receiver (.ack 0 true))]

/-- The acknowledgements of the first block and of both. -/
def olderAck : Ack := { baseSeqNo := 1, echoedSendTime := 5, nonce := 7, rwnd := 15 }
def newerAck : Ack := { baseSeqNo := 2, echoedSendTime := 9, nonce := 7, rwnd := 14 }

/-- An acknowledgement reaches the lane. -/
def takes (ack : Ack) (wireNs : Nat) : MeasuredEvent :=
  .session (.sender 0 (.receive (ackBytes ack) (fun _ => true) wireNs))

/-- The older acknowledgement is processed again, after the newer one. -/
def takenAgain : List MeasuredEvent :=
  twoBlockRun ++ (twoBlockRest ++ [takes olderAck 12, takes newerAck 14, takes olderAck 30])

/-- The controller that every lane of the run has. -/
def twoBlockCc : Nat → CongestionController := fun _ => CongestionController.create 8 true 4 1

variable {st : Measured}

def ackFields (ack : Ack) : List Nat × List (BitVec 64) :=
  ([ack.streamId, ack.baseSeqNo, ack.echoedSendTime, ack.nonce, ack.rwnd],
    List.ofFn ack.receivedBitmask)

theorem ackFields_injective : Function.Injective ackFields := by
  rintro ⟨_, _, mask, _, _, _⟩ ⟨_, _, mask', _, _, _⟩ same
  simp only [ackFields, Prod.mk.injEq, List.ofFn_inj] at same
  obtain ⟨⟨rfl, rfl, rfl, rfl, rfl, _⟩, rfl⟩ := same
  rfl

def nextAck (st : Measured) : Ack := (st.session.rx.lanes 0).ackMessage twoBlockSession.recv

def processes (ack : Ack) (st : Measured) : Option Ack :=
  (st.session.tx 0).heeded twoBlockSession.send 0 (ackBytes ack)

theorem processes_of_fields (same : (processes ack st).map ackFields = some (ackFields ack)) :
    processes ack st = some ack :=
  Option.map_injective ackFields_injective same

def figures (st : Measured) : List Nat :=
  [(st.est 0).peerRwnd, (st.est 0).lastRttEcho, (st.est 0).cc.srttNs] ++ (st.est 0).samples

theorem figures_read {rwnd echo srtt : Nat} {samples : List Nat}
    (read : figures st = rwnd :: echo :: srtt :: samples) :
    (st.view 0).peerRwnd = rwnd ∧ (st.view 0).lastRttEcho = echo ∧ (st.view 0).srttNs = srtt ∧
      (st.est 0).samples = samples := by
  simpa [figures, Measured.view] using read

/-- The last step of the run, and what it finds and leaves. -/
theorem twoBlock_overtaken :
    ∃ st st' : Measured, st.Overtaken twoBlockSession twoBlockCc 0 olderAck ∧
      processes olderAck st = some olderAck ∧ figures st = [14, 9, 6, 5, 9] ∧
      st.step twoBlockSession (takes olderAck 30) = some st' ∧ figures st' = [15, 5, 8, 5, 9, 5] ∧
      replay (Measured.step twoBlockSession) twoBlockStart takenAgain = some st' := by
  obtain ⟨st₁, first, hbuilds, st₂, second, hbuilds', st₃, third, hnewer, st, fourth, holder, hbefore,
      st', hstep, hafter⟩ :
    ∃ st₁, replay (Measured.step twoBlockSession) twoBlockStart twoBlockRun = some st₁ ∧
      ackFields (nextAck st₁) = ackFields olderAck ∧
    ∃ st₂, replay (Measured.step twoBlockSession) st₁ twoBlockRest = some st₂ ∧
      ackFields (nextAck st₂) = ackFields newerAck ∧
    ∃ st₃, st₂.step twoBlockSession (takes olderAck 12) = some st₃ ∧
      (processes newerAck st₃).map ackFields = some (ackFields newerAck) ∧
    ∃ st, st₃.step twoBlockSession (takes newerAck 14) = some st ∧
      (processes olderAck st).map ackFields = some (ackFields olderAck) ∧
      figures st = [14, 9, 6, 5, 9] ∧
    ∃ st', st.step twoBlockSession (takes olderAck 30) = some st' ∧
      figures st' = [15, 5, 8, 5, 9, 5] := by decide +kernel
  have hprocesses : processes newerAck st₃ = some (nextAck st₂) := by
    rw [ackFields_injective hbuilds']
    exact processes_of_fields hnewer
  refine ⟨st, st', ?_, processes_of_fields holder, hbefore, hstep, hafter, ?_⟩
  · exact ⟨_, _, [takes olderAck 12], [], st₁, st₂, st₃, st, _, _, _, first,
      (ackFields_injective hbuilds).symm, second, replay_cons_some [] third, hprocesses, fourth, rfl⟩
  · rw [takenAgain, replay_append, first, Option.bind_some, replay_append, second, Option.bind_some,
      replay_cons_some _ third, replay_cons_some _ fourth, replay_cons_some _ hstep, replay_nil]

/-- Overtaken, the older acknowledgement brings back its window and its time, and the time
enters the estimate again. -/
theorem old_ack_resampled :
    ∃ st st' : Measured, st.Overtaken twoBlockSession twoBlockCc 0 olderAck ∧
      (st.session.tx 0).heeded twoBlockSession.send 0 (ackBytes olderAck) = some olderAck ∧
      st.step twoBlockSession (takes olderAck 30) = some st' ∧ st'.view 0 ≠ st.view 0 ∧
      ((st.view 0).peerRwnd = 14 ∧ (st.view 0).lastRttEcho = 9 ∧ (st.view 0).srttNs = 6 ∧
        (st.est 0).samples = [5, 9]) ∧
      (st'.view 0).peerRwnd = 15 ∧ (st'.view 0).lastRttEcho = 5 ∧ (st'.view 0).srttNs = 8 ∧
        (st'.est 0).samples = [5, 9, 5] := by
  obtain ⟨st, st', hovertaken, hheeded, hbefore, hstep, hafter, _⟩ := twoBlock_overtaken
  have hread := figures_read hbefore
  have hread' := figures_read hafter
  refine ⟨st, st', hovertaken, hheeded, hstep, fun same => ?_, hread, hread'⟩
  have hsame := congrArg Measured.View.peerRwnd same
  rw [hread.1, hread'.1] at hsame
  cases hsame

/-- Of the same step: what it says of blocks is known. -/
theorem old_ack_harmless_iff_twoBlock :
    ∃ st st' : Measured, st.Overtaken twoBlockSession twoBlockCc 0 olderAck ∧
      st.step twoBlockSession (takes olderAck 30) = some st' ∧
      (st'.view 0).base = (st.view 0).base ∧ (st'.view 0).ackedBytes = (st.view 0).ackedBytes ∧
      st'.view 0 ≠ st.view 0 ∧
      ¬ Chronicle.Settled (Measured.echoes twoBlockSession 0 twoBlockStart takenAgain) := by
  obtain ⟨st, st', hovertaken, hheeded, hbefore, hstep, hafter, hwhole⟩ := twoBlock_overtaken
  obtain ⟨hrwnd, _⟩ := figures_read hbefore
  obtain ⟨_, _, _, hsamples⟩ := figures_read hafter
  obtain ⟨⟨hbase, _, _, hacked⟩, hiff, hsettled⟩ := old_ack_harmless_iff hovertaken hheeded hstep
  refine ⟨st, st', hovertaken, hstep, hbase, hacked, fun same => ?_, fun settled => ?_⟩
  · have hadvertised := (hiff.mp same).1
    rw [show (st.est 0).peerRwnd = 14 from hrwnd] at hadvertised
    cases hadvertised
  · have hnodup := (hsettled _ st' hwhole).mpr settled
    rw [hsamples] at hnodup
    exact absurd hnodup (by decide)

end FuseTransport.Transfer
