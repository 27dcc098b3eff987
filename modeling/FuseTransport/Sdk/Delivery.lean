import FuseTransport.Sdk.Link

/-!
# Messages reach the peer whole and in call order

As long as no block is delivered before all blocks of earlier calls, the peer
gets exactly the messages of the calls that got through, in call order.  A block
delivered too early breaks this: the two messages meet in the one assembly
buffer.
-/

namespace FuseTransport.Sdk

open Foundation.Runs Foundation.Splice Proto

/-- What the application has got are messages of calls, each of one call, in
call order, and every call that returned FUSE_OK is among them. -/
def State.DeliversCalls (st : State) : Prop :=
  ∃ served : List Nat, served.Pairwise (· < ·) ∧
    st.delivered.map some = served.map (fun k => st.log.calls[k]?.map Call.data) ∧
    ∀ (k : Nat) (call : Call), st.log.calls[k]? = some call → call.status = .ok → k ∈ served

/-- A block that finds room in the inbox is delivered only once every block of the earlier calls
has been accepted. -/
def InOrder (st : State) : Event → Prop
  | .deliverData dg _ => st.peer.inboxBytes < kMaxInboxBytes →
    ∀ o ∈ (decodeDataDatagram dg).bind fun data => st.log.blocks[data.hdr.seqNo]?,
      ∀ earlier, earlier < o.first → st.peer.rx.Accepted earlier
  | _ => True

instance (st : State) : (event : Event) → Decidable (InOrder st event)
  | .deliverData _ _ => inferInstanceAs (Decidable (_ → ∀ o ∈ (_ : Option BlockOrigin), _))
  | .fuseSend _ | .refuse _ _ | .sendBlock _ _ _ | .giveUp _ | .sendDone | .sendAck
  | .sendNack _ _ _ | .deliverControl _ _ _ | .retransmissionTimeout _ _ | .fuseRecv _ =>
    isTrue trivial

def Assembled (st : State) : Prop :=
  Assembly st.log.blocks st.log.returned st.peer.rx.baseSeqNo st.peer

inductive Changed (dir : Direction) (st : State) : Event → State → Prop where
  | quiet {event : Event} {next : State} (tx : next.tx = st.tx) (peer : next.peer = st.peer)
      (log : next.log = st.log) : Changed dir st event next
  | refused {event : Event} {next : State} {data : List UInt8} {error : FuseError}
      (issued : event = .fuseSend data ∨ event = .refuse data error) (tx : next.tx = st.tx)
      (peer : next.peer = st.peer)
      (log : next.log = { st.log with calls := st.log.calls ++ [⟨data, .failed error⟩] }) :
      Changed dir st event next
  | started {data : List UInt8} {next : State} (free : st.tx.sending = none)
      (tx : next.tx = { st.tx with
        sending := some ⟨st.log.calls.length, data, st.tx.txNextSeq, 0⟩ })
      (peer : next.peer = st.peer)
      (log : next.log = { st.log with calls := st.log.calls ++ [⟨data, .pending⟩] }) :
      Changed dir st (.fuseSend data) next
  | sent {event : Event} {call : SendCall} {works : Bool} {nowNs : Nat}
      (sending : st.tx.sending = some call) : Changed dir st event (st.sendBlock dir call works nowNs)
  | returned {event : Event} {call : SendCall} {status : CallStatus}
      (sending : st.tx.sending = some call)
      (finished : status = .ok →
        call.sent = nblocks call.data.length ∧ st.tx.txBase > Sender.lastSeq call) :
      Changed dir st event (st.returns call.call status)
  | arrived {dg : List UInt8} {nowNs : Nat} (member : dg ∈ st.forward) :
      Changed dir st (.deliverData dg nowNs) (st.onData dir dg nowNs)
  | noted {event : Event} {next : State} {stamps : Nat → Nat} (tx : next.tx = st.tx)
      (peer : next.peer = { st.peer with rx := { st.peer.rx with lastNackNs := stamps } })
      (log : next.log = st.log) : Changed dir st event next
  | acked {event : Event} {next : State} {ack : Ack} (tx : next.tx = st.tx.onAck ack)
      (peer : next.peer = st.peer) (log : next.log = st.log) : Changed dir st event next
  | taken {event : Event} {next : State} {cap : Nat} (tx : next.tx = st.tx)
      (peer : next.peer = (st.peer.fuseRecv cap).2)
      (log : next.log = { st.log with
        returned := st.log.returned ++ (st.peer.fuseRecv cap).1.toList }) :
      Changed dir st event next

theorem fuseSend_changed {dir : Direction} {st next : State} {data : List UInt8}
    (started : st.fuseSend data = some next) : Changed dir st (.fuseSend data) next := by
  unfold State.fuseSend at started
  split at started
  · cases started
    exact .refused (Or.inl rfl) rfl rfl rfl
  · split at started
    · cases started
    · rename_i hfree
      cases started
      exact .started (Option.not_isSome_iff_eq_none.mp hfree) rfl rfl rfl

variable (dir : Direction) (st : State) (event : Event)

theorem sendAck_changed : Changed dir st event (st.sendAck dir) := by
  unfold State.sendAck
  split <;> exact .quiet rfl rfl rfl

theorem sendNack_changed (nowNs reorderNs renackNs : Nat) :
    Changed dir st event (st.sendNack dir nowNs reorderNs renackNs) := by
  obtain ⟨stamps, hframe⟩ := st.peer.rx.collectNacks_frame nowNs reorderNs renackNs
  unfold State.sendNack
  dsimp only
  rw [hframe]
  split
  · split <;> exact .noted rfl rfl rfl
  · exact .noted rfl rfl rfl

theorem onControl_changed (dg : List UInt8) (works : Nat → Bool) (nowNs : Nat) :
    Changed dir st event (st.onControl dir dg works nowNs) := by
  unfold State.onControl
  split
  · split
    · exact .acked rfl rfl rfl
    · exact .quiet rfl rfl rfl
  · split <;> exact .quiet rfl rfl rfl
  · exact .quiet rfl rfl rfl

theorem step_changed {dir : Direction} {st next : State} {event : Event}
    (stepped : step dir st event = some next) : Changed dir st event next := by
  cases event with
  | fuseSend data => exact fuseSend_changed stepped
  | refuse data error =>
    cases stepped
    exact .refused (Or.inr rfl) rfl rfl rfl
  | sendBlock cwnd works nowNs =>
    obtain ⟨call, hsending, hguard⟩ := Option.bind_eq_some_iff.mp stepped
    split at hguard
    · cases hguard
      exact .sent hsending
    · cases hguard
  | giveUp error =>
    obtain ⟨call, hsending, rfl⟩ := Option.map_eq_some_iff.mp stepped
    exact .returned hsending fun impossible => CallStatus.noConfusion impossible
  | sendDone =>
    obtain ⟨call, hsending, hguard⟩ := Option.bind_eq_some_iff.mp stepped
    split at hguard
    · rename_i ready
      cases hguard
      exact .returned hsending fun _ => ready
    · cases hguard
  | deliverData dg nowNs =>
    obtain ⟨member, stepped⟩ := Option.ite_none_right_eq_some.mp stepped
    cases stepped
    exact .arrived member
  | sendAck =>
    cases stepped
    exact sendAck_changed dir st _
  | sendNack nowNs reorderNs renackNs =>
    cases stepped
    exact sendNack_changed dir st _ nowNs reorderNs renackNs
  | deliverControl dg works nowNs =>
    cases (Option.ite_none_right_eq_some.mp stepped).2
    exact onControl_changed dir st _ dg works nowNs
  | retransmissionTimeout works nowNs =>
    cases (Option.ite_none_right_eq_some.mp stepped).2
    exact .quiet rfl rfl rfl
  | fuseRecv cap =>
    cases stepped
    exact .taken rfl rfl rfl

theorem onData_keeps (dg : List UInt8) (nowNs : Nat) :
    (st.onData dir dg nowNs).tx = st.tx ∧ (st.onData dir dg nowNs).log = st.log := by
  unfold State.onData
  split <;> exact ⟨rfl, rfl⟩

/-! ## Messages put together -/

namespace Assembly

variable {blocks : List BlockOrigin} {out : List (List UInt8)} {mark : Nat} {c : Receiver}

theorem create (dir : Direction) : Assembly [] [] 0 (Receiver.create dir) := by
  refine ⟨?_, ?_, ?_, fun none => (none rfl).elim, rfl⟩
  · intro seqNo o _ impossible
    cases impossible
  · intro seqNo o _ impossible
    cases impossible
  · intro seqNo o _ impossible
    cases impossible

/-- A further block of the history that has not been accepted. -/
theorem append (assembly : Assembly blocks out mark c) {added : BlockOrigin}
    (sent : ∀ seqNo, c.rx.Accepted seqNo → seqNo < blocks.length) (marked : mark ≤ blocks.length) :
    Assembly (blocks ++ [added]) out mark c := by
  have hold : ∀ (seqNo : Nat) (o : BlockOrigin), c.rx.Accepted seqNo →
      (blocks ++ [added])[seqNo]? = some o → blocks[seqNo]? = some o := by
    intro seqNo o accepted ho
    rw [List.getElem?_append_left (sent seqNo accepted)] at ho
    exact ho
  refine ⟨?_, ?_, ?_, ?_, ?_⟩
  · intro seqNo o accepted ho
    exact assembly.started seqNo o accepted (hold seqNo o accepted ho)
  · intro seqNo o accepted ho latest
    refine assembly.buffered seqNo o accepted (hold seqNo o accepted ho) ?_
    intro other p paccepted hp
    have hlt := (List.getElem?_eq_some_iff.mp hp).1
    exact latest other p paccepted ((List.getElem?_append_left hlt).trans hp)
  · intro seqNo o accepted ho
    exact assembly.ends seqNo o accepted (hold seqNo o accepted ho)
  · intro hend
    obtain ⟨o, ho, rest⟩ := assembly.ended hend
    have hlt := (List.getElem?_eq_some_iff.mp ho).1
    exact ⟨o, (List.getElem?_append_left hlt).trans ho, rest⟩
  · rw [List.take_append_of_le_length marked]
    exact assembly.delivered

/-- The application takes messages from the front of the queue. -/
theorem fuseRecv (assembly : Assembly blocks out mark c) (cap : Nat) :
    Assembly blocks (out ++ (c.fuseRecv cap).1.toList) mark (c.fuseRecv cap).2 := by
  unfold Receiver.fuseRecv
  split
  · rw [Option.toList_none, List.append_nil]
    exact assembly
  · rename_i front rest hinbox
    split
    · rw [Option.toList_none, List.append_nil]
      exact assembly
    · refine { assembly with delivered := ?_ }
      rw [← assembly.delivered, hinbox, List.append_assoc]
      rfl

end Assembly

namespace Inv

variable {dir : Direction} {st : State}

/-- The window's base has not passed what was sent. -/
theorem base_le (inv : Inv dir st) : st.peer.rx.baseSeqNo ≤ st.log.blocks.length := by
  rw [inv.counted]
  cases hbase : st.peer.rx.baseSeqNo with
  | zero => exact Nat.zero_le _
  | succ last =>
    apply inv.accepted_sent
    exact Or.inl (by omega)

theorem length_le (inv : Inv dir st) : st.log.blocks.length ≤ kNoSeq := by
  have hbounded := inv.window.bounded
  have hcounted := inv.counted
  unfold kNoSeq
  omega

/-- One block on its way into the message, in order. -/
theorem assembled_onData (inv : Inv dir st) (assembled : Assembled st) {dg : List UInt8}
    (member : dg ∈ st.forward) {nowNs : Nat} (inOrder : InOrder st (.deliverData dg nowNs)) :
    Assembled (st.onData dir dg nowNs) := by
  obtain ⟨seqNo, o, data, hdecoded, ho, conveys, heq⟩ := inv.onData_eq member nowNs
  have hseq := conveys.seqNo
  rw [heq]
  unfold Assembled Receiver.receiveBlock
  dsimp only
  split
  · exact assembled
  · rename_i hroom
    have hfirst : o.first ≤ st.peer.rx.baseSeqNo := by
      apply Nat.le_of_not_lt
      intro hbehind
      apply inv.missing
      refine inOrder (Nat.lt_of_not_le hroom) o ?_ _ hbehind
      rw [hdecoded, Option.bind_some, hseq]
      exact ho
    rw [hseq]
    rcases inv.receive_cases (inv.block_sent ho) data.sendTimeNs nowNs with
      ⟨_, hdup⟩ | ⟨hfresh, after, hadmitted, admits⟩
    · rw [hdup]
      exact Assembly.complete assembled inv.history (Nat.le_refl _) inv.length_le
    · rw [hadmitted]
      have hmark : st.peer.rx.baseSeqNo ≤ seqNo :=
        Nat.le_of_not_lt fun hlt => hfresh (Or.inl hlt)
      have hassembled := Assembly.assemble assembled inv.history ho hfresh hmark hfirst admits
        hseq conveys.offset conveys.last rfl
      refine hassembled.complete inv.history ?_ inv.length_le
      rw [assemble_eq (inv.history.inside seqNo o ho) (inv.history.sized seqNo o ho)
        conveys.offset conveys.last rfl]
      exact admits.base_le

theorem assembled_sendBlock (inv : Inv dir st) (assembled : Assembled st) (call : SendCall)
    (works : Bool) (nowNs : Nat) : Assembled (st.sendBlock dir call works nowNs) := by
  unfold State.sendBlock
  dsimp only
  split
  · exact assembled
  · refine Assembly.append assembled ?_ inv.base_le
    rw [inv.counted]
    exact inv.accepted_sent

/-- Steps that deliver in order keep every message whole. -/
theorem assembled_step (inv : Inv dir st) (assembled : Assembled st) {event : Event} {next : State}
    (inOrder : InOrder st event) (stepped : Sdk.step dir st event = some next) :
    Assembled next := by
  cases step_changed stepped with
  | quiet tx peer log | refused _ tx peer log | started _ tx peer log | acked tx peer log =>
    unfold Assembled
    rw [peer, log]
    exact assembled
  | sent sending => exact inv.assembled_sendBlock assembled _ _ _
  | returned sending finished => exact assembled
  | arrived member => exact inv.assembled_onData assembled member inOrder
  | noted tx peer log =>
    unfold Assembled
    rw [peer, log]
    exact ⟨assembled.started, assembled.buffered, assembled.ends, assembled.ended,
      assembled.delivered⟩
  | taken tx peer log =>
    unfold Assembled
    rw [peer, log, fuseRecv_rx]
    exact Assembly.fuseRecv assembled _

/-- The calls whose last block the window's base has passed. -/
def served (st : State) : List Nat :=
  ((st.log.blocks.take st.peer.rx.baseSeqNo).filter BlockOrigin.isLast).map BlockOrigin.call

theorem served_increasing (inv : Inv dir st) : (served st).Pairwise (· < ·) := by
  unfold served
  rw [List.pairwise_map, List.pairwise_filter]
  apply List.Pairwise.sublist (List.take_sublist _ _)
  rw [List.pairwise_iff_getElem]
  intro i j hi hj hlt hlast hlater
  exact inv.history.last_increasing hlt (List.getElem?_eq_getElem hi) (List.getElem?_eq_getElem hj)
    hlast hlater

theorem delivered_eq (inv : Inv dir st) (assembled : Assembled st) :
    st.delivered.map some = (served st).map fun k => st.log.calls[k]?.map Call.data := by
  unfold State.delivered served
  rw [assembled.delivered, List.map_map, List.map_map]
  apply List.map_congr_left
  intro o member
  obtain ⟨seqNo, ho⟩ := List.mem_iff_getElem?.mp (List.mem_of_mem_take (List.mem_of_mem_filter member))
  obtain ⟨call, hcall, hdata⟩ := inv.logged seqNo o ho
  change some o.message = st.log.calls[o.call]?.map Call.data
  rw [hcall, Option.map_some, hdata]

/-- A call that returned FUSE_OK has been served. -/
theorem mem_served (inv : Inv dir st) {k : Nat} {call : Call} (hcall : st.log.calls[k]? = some call)
    (hok : call.status = .ok) : k ∈ served st := by
  obtain ⟨seqNo, o, ho, horigin, hlast, hbase⟩ := inv.ok k call hcall hok
  have hpassed : seqNo < st.peer.rx.baseSeqNo := by
    apply Nat.lt_of_lt_of_le hbase
    exact Nat.le_of_not_lt fun hlt => inv.missing (inv.window.below _ hlt)
  rw [← horigin]
  apply List.mem_map_of_mem
  apply List.mem_filter_of_mem _ hlast
  apply List.mem_of_getElem?
  rw [List.getElem?_take_of_lt hpassed]
  exact ho

theorem deliversCalls (inv : Inv dir st) (assembled : Assembled st) : st.DeliversCalls :=
  ⟨served st, inv.served_increasing, inv.delivered_eq assembled,
    fun _ _ hcall hok => inv.mem_served hcall hok⟩

end Inv

theorem sendBlock_nextSeq (dir : Direction) (st : State) (call : SendCall) (works : Bool)
    (nowNs : Nat) :
    (st.sendBlock dir call works nowNs).tx.txNextSeq ≤ st.tx.txNextSeq + 1 := by
  unfold State.sendBlock
  dsimp only
  split
  · exact Nat.le_succ _
  · exact Nat.mod_le _ _

theorem onAck_nextSeq (tx : Sender) (ack : Ack) : (tx.onAck ack).txNextSeq = tx.txNextSeq := by
  unfold Sender.onAck
  split <;> rfl

/-- A step sends at most one new block. -/
theorem nextSeq_grows (dir : Direction) (st : State) (event : Event) (next : State)
    (stepped : step dir st event = some next) : next.tx.txNextSeq ≤ st.tx.txNextSeq + 1 := by
  cases step_changed stepped with
  | quiet tx | refused _ tx | started _ tx | noted tx | taken tx =>
    rw [tx]
    exact Nat.le_succ _
  | sent sending => exact sendBlock_nextSeq dir st _ _ _
  | returned sending finished => exact Nat.le_succ _
  | arrived member =>
    rw [(onData_keeps dir st _ _).1]
    exact Nat.le_succ _
  | acked tx =>
    rw [tx, onAck_nextSeq]
    exact Nat.le_succ _

/-- In every run that delivers in order, and that is too short to run the 64-bit
block numbers out, the peer gets the messages of the calls in call order, each
once and unchanged, and every message whose call returned FUSE_OK. -/
theorem messages_in_call_order (dir : Direction) (run : List Event) (st : State)
    (replayed : replay (step dir) (initial dir) run = some st)
    (inOrder : Along (step dir) InOrder (initial dir) run) (short : run.length ≤ 2 ^ 64 - 2) :
    st.DeliversCalls := by
  have preserved : ∀ state event next, Inv dir state ∧ Assembled state → InOrder state event →
      state.tx.txNextSeq < 2 ^ 64 - 2 → step dir state event = some next →
      Inv dir next ∧ Assembled next := by
    intro state event next keeps meets room stepped
    exact ⟨keeps.1.step room stepped, keeps.1.assembled_step keeps.2 meets stepped⟩
  obtain ⟨inv, assembled⟩ := replay_preserves_counted (fun state : State => state.tx.txNextSeq)
    (nextSeq_grows dir) preserved replayed inOrder ((Nat.zero_add _).le.trans short)
    ⟨inv_initial dir, Assembly.create dir⟩
  exact inv.deliversCalls assembled

/-- A connection in the clear. -/
def plainDirection : Direction := ⟨⟨0, Nat.two_pos⟩, none⟩

/-- The only block of a short message, as it is sent in the clear. -/
def soleDatagram (seqNo : Nat) (message : List UInt8) : List UInt8 :=
  dataPrefix ⟨0, seqNo, kFlagLastBlock, message.length, 0⟩ 0 ++ message

/-- The block of a call that timed out arrives behind that of the next call. -/
def overtakenRun : List Event :=
  [.fuseSend [1], .sendBlock 4 true 0, .giveUp .timeout,
    .fuseSend [2], .sendBlock 4 true 0,
    .deliverData (soleDatagram 1 [2]) 0, .deliverData (soleDatagram 0 [1]) 0,
    .sendAck, .deliverControl (ackBytes { baseSeqNo := 2 }) (fun _ => true) 0, .sendDone]

/-- The same two calls with their blocks delivered in order. -/
def orderlyRun : List Event :=
  [.fuseSend [1], .sendBlock 4 true 0, .giveUp .timeout,
    .fuseSend [2], .sendBlock 4 true 0,
    .deliverData (soleDatagram 0 [1]) 0, .deliverData (soleDatagram 1 [2]) 0,
    .sendAck, .deliverControl (ackBytes { baseSeqNo := 2 }) (fun _ => true) 0, .sendDone]

/-- In order, both messages arrive, that of the failed call as well. -/
theorem messages_in_call_order_orderlyRun :
    ∃ st, replay (step plainDirection) (initial plainDirection) orderlyRun = some st ∧
      st.delivered = [[1], [2]] ∧ st.DeliversCalls := by
  obtain ⟨st, replayed, hdelivered⟩ : ∃ st,
      replay (step plainDirection) (initial plainDirection) orderlyRun = some st ∧
        st.delivered = [[1], [2]] := by decide +kernel
  refine ⟨st, replayed, hdelivered, ?_⟩
  exact messages_in_call_order plainDirection orderlyRun st replayed (by decide +kernel)
    (by decide)

/-- The second call returned FUSE_OK and its message is lost. -/
theorem overtaken_message_lost :
    ∃ st, replay (step plainDirection) (initial plainDirection) overtakenRun = some st ∧
      st.log.calls = [⟨[1], .failed .timeout⟩, ⟨[2], .ok⟩] ∧ st.delivered = [[1]] ∧
      ¬ st.DeliversCalls := by
  obtain ⟨st, replayed, hcalls, hdelivered⟩ : ∃ st,
      replay (step plainDirection) (initial plainDirection) overtakenRun = some st ∧
        st.log.calls = [⟨[1], .failed .timeout⟩, ⟨[2], .ok⟩] ∧ st.delivered = [[1]] := by
    decide +kernel
  refine ⟨st, replayed, hcalls, hdelivered, ?_⟩
  rintro ⟨served, _, hmessages, hok⟩
  have hserved : 1 ∈ served := by
    apply hok 1 ⟨[2], .ok⟩
    · rw [hcalls]
      rfl
    · rfl
  rw [hdelivered, hcalls] at hmessages
  have hlost : some [2] ∈ [[(1 : UInt8)]].map some := by
    rw [hmessages]
    exact List.mem_map_of_mem (f := fun k => _) hserved
  revert hlost
  decide

end FuseTransport.Sdk
