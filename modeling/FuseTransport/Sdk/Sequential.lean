import FuseTransport.Sdk.Delivery

/-!
# One call after the other

When a call is issued only after the one before it returned FUSE_OK, its first
block is sent only once everything before it is acknowledged.  Every delivery is
then in order by itself, and the peer's queue is filled with a prefix of the
messages sent, whatever the network and the queue's limit do.
-/

namespace FuseTransport.Sdk

open Foundation.Runs Foundation.Splice Proto

/-- A call is issued only when every call before it has returned FUSE_OK. -/
def Sequential (st : State) : Event → Prop
  | .fuseSend _ | .refuse _ _ => ∀ call ∈ st.log.calls, call.status = .ok
  | _ => True

instance (st : State) : (event : Event) → Decidable (Sequential st event)
  | .fuseSend _ | .refuse _ _ => inferInstanceAs (Decidable (∀ call ∈ _, _))
  | .sendBlock _ _ _ | .giveUp _ | .sendDone | .deliverData _ _ | .sendAck | .sendNack _ _ _
  | .deliverControl _ _ _ | .retransmissionTimeout _ _ | .fuseRecv _ => isTrue trivial

structure Settled (tx : Sender) (log : Log) : Prop where
  idle : tx.sending = none → (∀ call ∈ log.calls, call.status = .ok) → tx.txNextSeq ≤ tx.txBase
  current : ∀ call, tx.sending = some call → call.firstSeq ≤ tx.txBase
  firsts : ∀ (seqNo : Nat) (o : BlockOrigin), log.blocks[seqNo]? = some o → o.first ≤ tx.txBase
  returned : ∀ (k : Nat) (call : Call), log.calls[k]? = some call → k + 1 < log.calls.length →
    call.status = .ok

namespace Settled

variable {dir : Direction} {st : State}

theorem initial (dir : Direction) : Settled (initial dir).tx (initial dir).log := by
  refine ⟨fun _ _ => Nat.le_refl _, ?_, ?_, ?_⟩
  · intro call impossible
    cases impossible
  · intro seqNo o impossible
    cases impossible
  · intro k call impossible
    cases impossible

/-- With everything returned, one more call leaves all but the last returned. -/
theorem returned_append {calls : List Call} (sequential : ∀ call ∈ calls, call.status = .ok)
    {added : Call} (k : Nat) (call : Call) (hcall : (calls ++ [added])[k]? = some call)
    (earlier : k + 1 < (calls ++ [added]).length) : call.status = .ok := by
  rw [List.length_append, List.length_singleton] at earlier
  rw [List.getElem?_append_left (by omega)] at hcall
  exact sequential call (List.mem_of_getElem? hcall)

section

variable (settled : Settled st.tx st.log)
include settled

theorem failed_call (sequential : ∀ call ∈ st.log.calls, call.status = .ok) (data : List UInt8)
    (error : FuseError) :
    Settled st.tx { st.log with calls := st.log.calls ++ [⟨data, .failed error⟩] } := by
  refine ⟨?_, settled.current, settled.firsts, returned_append sequential⟩
  intro _ allOk
  cases allOk ⟨data, .failed error⟩ (List.mem_append_right _ List.mem_cons_self)

theorem returns {call : SendCall}
    (hlogged : st.log.calls[call.call]? = some ⟨call.data, .pending⟩) {status : CallStatus}
    (finished : status = .ok → st.tx.txNextSeq ≤ st.tx.txBase) :
    Settled (st.returns call.call status).tx (st.returns call.call status).log := by
  have hmodified : (st.log.calls.modify call.call fun c => { c with status := status })[
      call.call]? = some ⟨call.data, status⟩ := by
    simp [hlogged]
  refine ⟨?_, ?_, settled.firsts, ?_⟩
  · intro _ allOk
    exact finished (allOk ⟨call.data, status⟩ (List.mem_of_getElem? hmodified))
  · intro other impossible
    cases impossible
  · intro k c hc earlier
    change (st.log.calls.modify call.call _)[k]? = some c at hc
    change k + 1 < (st.log.calls.modify call.call _).length at earlier
    rw [List.length_modify] at earlier
    rw [List.getElem?_modify] at hc
    obtain ⟨old, hold, hnew⟩ := Option.map_eq_some_iff.mp hc
    by_cases hsame : call.call = k
    · have hpending := settled.returned k old hold earlier
      rw [← hsame, hlogged] at hold
      cases hold
      cases hpending
    · rw [if_neg hsame] at hnew
      rw [← hnew]
      exact settled.returned k old hold earlier

theorem started (sequential : ∀ call ∈ st.log.calls, call.status = .ok)
    (free : st.tx.sending = none) (data : List UInt8) :
    Settled { st.tx with sending := some ⟨st.log.calls.length, data, st.tx.txNextSeq, 0⟩ }
      { st.log with calls := st.log.calls ++ [⟨data, .pending⟩] } := by
  refine ⟨?_, ?_, settled.firsts, returned_append sequential⟩
  · intro impossible
    cases impossible
  · intro call hcall
    cases hcall
    exact settled.idle free sequential

theorem sendBlock (inv : Inv dir st) {call : SendCall} (hsending : st.tx.sending = some call)
    (works : Bool) (nowNs : Nat) :
    Settled (st.sendBlock dir call works nowNs).tx (st.sendBlock dir call works nowNs).log := by
  unfold State.sendBlock Sender.sendBlockLocked
  dsimp only
  split
  · let kept : State :=
      { st with tx := st.tx.keep st.tx.txNextSeq (chunk call.data call.sent) nowNs }
    have hkept : Settled kept.tx kept.log :=
      ⟨settled.idle, settled.current, settled.firsts, settled.returned⟩
    refine hkept.returns (inv.sending call hsending).logged ?_
    intro impossible
    cases impossible
  · refine ⟨?_, ?_, ?_, settled.returned⟩
    · intro impossible
      cases impossible
    · intro other hother
      cases hother
      exact settled.current call hsending
    · intro seqNo o ho
      rcases origin_cases ho with hold | ⟨_, rfl⟩
      · exact settled.firsts seqNo o hold
      · exact settled.current call hsending

/-- An ACK only moves the base forward. -/
theorem onAck (inv : Inv dir st) (ack : Ack) : Settled (st.tx.onAck ack) st.log := by
  unfold Sender.onAck
  split
  · have hordered := inv.window.ordered
    have hforward : st.tx.txBase ≤ min ack.baseSeqNo st.tx.txNextSeq := by omega
    refine ⟨?_, ?_, ?_, settled.returned⟩
    · intro hfree allOk
      exact Nat.le_trans (settled.idle hfree allOk) hforward
    · intro call hcall
      exact Nat.le_trans (settled.current call hcall) hforward
    · intro seqNo o ho
      exact Nat.le_trans (settled.firsts seqNo o ho) hforward
  · exact settled

theorem step (inv : Inv dir st) {event : Event} {next : State} (sequential : Sequential st event)
    (stepped : Sdk.step dir st event = some next) :
    Settled next.tx next.log := by
  cases step_changed stepped with
  | quiet tx peer log | noted tx peer log =>
    rw [tx, log]
    exact settled
  | @refused _ _ data error issued tx peer log =>
    rw [tx, log]
    rcases issued with rfl | rfl <;> exact settled.failed_call sequential data error
  | started free tx peer log =>
    rw [tx, log]
    exact settled.started sequential free _
  | sent sending => exact settled.sendBlock inv sending _ _
  | returned sending finished =>
    refine settled.returns (inv.sending _ sending).logged fun ok => ?_
    obtain ⟨hsent, hacked⟩ := finished ok
    have hlast := inv.lastSeq_eq sending hsent
    omega
  | arrived member =>
    obtain ⟨htx, hlog⟩ := onData_keeps dir st _ _
    rw [htx, hlog]
    exact settled
  | acked tx peer log =>
    rw [tx, log]
    exact settled.onAck inv _
  | taken tx peer log =>
    rw [tx, log]
    exact ⟨settled.idle, settled.current, settled.firsts, settled.returned⟩

theorem inOrder (inv : Inv dir st) (event : Event) : InOrder st event := by
  cases event with
  | deliverData dg nowNs =>
    intro _ o member earlier hearlier
    obtain ⟨data, _, ho⟩ := Option.bind_eq_some_iff.mp member
    apply inv.window.below
    exact Nat.lt_of_lt_of_le hearlier (settled.firsts _ o ho)
  | fuseSend | refuse | sendBlock | giveUp | sendDone | sendAck | sendNack | deliverControl
  | retransmissionTimeout | fuseRecv => trivial

end

end Settled

namespace Inv

variable {dir : Direction} {st : State}

theorem served_lt (inv : Inv dir st) {k : Nat} (member : k ∈ served st) :
    k < st.log.calls.length := by
  obtain ⟨o, ho, rfl⟩ := List.mem_map.mp member
  obtain ⟨seqNo, hseq⟩ :=
    List.mem_iff_getElem?.mp (List.mem_of_mem_take (List.mem_of_mem_filter ho))
  obtain ⟨call, hcall, _⟩ := inv.logged seqNo o hseq
  exact (List.getElem?_eq_some_iff.mp hcall).1

theorem served_eq_range (inv : Inv dir st) (settled : Settled st.tx st.log) :
    served st = List.range (served st).length := by
  apply eq_range_of_increasing inv.served_increasing
  intro k member j hj
  have hlast := inv.served_lt member
  have hlt : j < st.log.calls.length := Nat.lt_trans hj hlast
  have hcall := List.getElem?_eq_getElem hlt
  exact inv.mem_served hcall (settled.returned j _ hcall (by omega))

theorem delivered_starts_calls (inv : Inv dir st) (assembled : Assembled st)
    (settled : Settled st.tx st.log) : st.delivered <+: st.log.calls.map Call.data := by
  have hdelivered := inv.delivered_eq assembled
  rw [inv.served_eq_range settled] at hdelivered
  rw [List.prefix_iff_getElem?]
  intro i hi
  have hlength : st.delivered.length = (served st).length := by
    have hboth := congrArg List.length hdelivered
    rw [List.length_map, List.length_map, List.length_range] at hboth
    exact hboth
  have hentry := congrArg (fun entries => entries[i]?) hdelivered
  rw [List.getElem?_map, List.getElem?_map, List.getElem?_eq_getElem hi,
    List.getElem?_range (by omega)] at hentry
  rw [List.getElem?_map]
  exact (Option.some.inj hentry).symm

end Inv

/-- In every run of sequential calls that is too short to run the 64-bit block
numbers out, what the peer's queue was filled with is a prefix of the messages
sent, and the message of a call that returned FUSE_OK is in it. -/
theorem sequential_calls_deliver_in_order (dir : Direction) (run : List Event) (st : State)
    (replayed : replay (step dir) (initial dir) run = some st)
    (sequential : Along (step dir) Sequential (initial dir) run)
    (short : run.length ≤ 2 ^ 64 - 2) :
    st.delivered <+: st.log.calls.map Call.data ∧
      ∀ (k : Nat) (call : Call), st.log.calls[k]? = some call → call.status = .ok →
        st.delivered[k]? = some call.data := by
  have preserved : ∀ state event next,
      (Inv dir state ∧ Assembled state ∧ Settled state.tx state.log) → Sequential state event →
      state.tx.txNextSeq < 2 ^ 64 - 2 → step dir state event = some next →
      Inv dir next ∧ Assembled next ∧ Settled next.tx next.log := by
    rintro state event next ⟨inv, assembled, settled⟩ meets room stepped
    exact ⟨inv.step room stepped, inv.assembled_step assembled (settled.inOrder inv event) stepped,
      settled.step inv meets stepped⟩
  obtain ⟨inv, assembled, settled⟩ := replay_preserves_counted
    (fun state : State => state.tx.txNextSeq) (nextSeq_grows dir) preserved replayed sequential
    ((Nat.zero_add _).le.trans short) ⟨inv_initial dir, Assembly.create dir, Settled.initial dir⟩
  have hstarts := inv.delivered_starts_calls assembled settled
  refine ⟨hstarts, ?_⟩
  intro k call hcall hok
  have hserved := inv.mem_served hcall hok
  rw [inv.served_eq_range settled, List.mem_range] at hserved
  have hlength : st.delivered.length = (Inv.served st).length := by
    have hboth := congrArg List.length (inv.delivered_eq assembled)
    rw [List.length_map, List.length_map] at hboth
    exact hboth
  have hlt : k < st.delivered.length := hlength ▸ hserved
  have hentry := List.prefix_iff_getElem?.mp hstarts k hlt
  rw [List.getElem?_map, hcall] at hentry
  rw [List.getElem?_eq_getElem hlt]
  exact hentry.symm

/-- Two calls, the second of an empty message, with a block delivered twice. -/
def sequentialRun : List Event :=
  [.fuseSend [1], .sendBlock 4 true 0, .deliverData (soleDatagram 0 [1]) 0,
    .deliverData (soleDatagram 0 [1]) 0, .sendAck,
    .deliverControl (ackBytes { baseSeqNo := 1 }) (fun _ => true) 0, .sendDone,
    .fuseSend [], .sendBlock 4 true 0, .deliverData (soleDatagram 1 []) 0]

theorem sequential_calls_deliver_in_order_sequentialRun :
    ∃ st, replay (step plainDirection) (initial plainDirection) sequentialRun = some st ∧
      st.delivered = [[1], []] ∧ st.delivered <+: st.log.calls.map Call.data := by
  obtain ⟨st, replayed, hdelivered⟩ : ∃ st,
      replay (step plainDirection) (initial plainDirection) sequentialRun = some st ∧
        st.delivered = [[1], []] := by decide +kernel
  refine ⟨st, replayed, hdelivered, ?_⟩
  exact (sequential_calls_deliver_in_order plainDirection sequentialRun st replayed
    (by decide +kernel) (by decide)).1

end FuseTransport.Sdk
