import FuseTransport.Foundation.Runs
import FuseTransport.Sdk.Reassembly

/-!
# What both ends agree on in every run

Whatever the calls do and whatever the network does, a datagram on the wire is a
send of a block of the history, a report never claims more than has arrived, and
the sending end keeps what the other end lacks.
-/

namespace FuseTransport.Sdk

open Foundation Foundation.Runs Proto

def Holds (blocks : List BlockOrigin) (seqNo : Nat) (slot : RegistrySlot) : Prop :=
  ∃ o, blocks[seqNo]? = some o ∧ slot.payload = o.block.payload

/-- A report that says no more than what has arrived. -/
inductive Honest (rx : ReceiverStream) (limit : Nat) (dg : List UInt8) : Prop where
  | ack (ack : Ack) (fits : ack.Fits) (below : ∀ seqNo, seqNo < ack.baseSeqNo → rx.Accepted seqNo)
      (bytes : dg = ackBytes ack)
  | nack (nack : Nack) (fits : nack.Fits) (named : ∀ seqNo ∈ nack.missing, seqNo < limit)
      (bytes : dg = nackBytes nack)

variable {seqNo : Nat}

theorem Holds.append {blocks : List BlockOrigin} {slot : RegistrySlot}
    (holds : Holds blocks seqNo slot) (added : BlockOrigin) :
    Holds (blocks ++ [added]) seqNo slot := by
  obtain ⟨o, ho, hpayload⟩ := holds
  have hlt := (List.getElem?_eq_some_iff.mp ho).1
  exact ⟨o, (List.getElem?_append_left hlt).trans ho, hpayload⟩

variable {dg : List UInt8}

theorem Honest.mono {rx after : ReceiverStream} {limit larger : Nat} (honest : Honest rx limit dg)
    (grown : ∀ seqNo, rx.Accepted seqNo → after.Accepted seqNo) (le : limit ≤ larger) :
    Honest after larger dg := by
  cases honest with
  | ack ack fits below bytes =>
    exact .ack ack fits (fun seqNo hlt => grown seqNo (below seqNo hlt)) bytes
  | nack nack fits named bytes =>
    exact .nack nack fits (fun seqNo member => Nat.lt_of_lt_of_le (named seqNo member) le) bytes

/-- The call that holds `send_busy`: its blocks are the last of the history. -/
structure Sending (nextSeq : Nat) (calls : List Call) (blocks : List BlockOrigin)
    (call : SendCall) : Prop where
  next : nextSeq = call.firstSeq + call.sent
  within : call.sent ≤ nblocks call.data.length
  sized : call.data.length ≤ kMaxMessage
  logged : calls[call.call]? = some ⟨call.data, .pending⟩
  own : ∀ (seqNo : Nat) (o : BlockOrigin), blocks[seqNo]? = some o → call.firstSeq ≤ seqNo →
    o = ⟨call.call, call.firstSeq, seqNo - call.firstSeq, call.data⟩
  earlier : ∀ (seqNo : Nat) (o : BlockOrigin), blocks[seqNo]? = some o →
    seqNo < call.firstSeq → o.call < call.call

structure Inv (dir : Direction) (st : State) : Prop where
  window : SendWindow (Holds st.log.blocks) st.peer.rx.Accepted st.tx.reg st.tx.txBase
    st.tx.txNextSeq
  metas : ∀ (seqNo : Nat) (slot : RegistrySlot) (o : BlockOrigin),
    st.tx.reg.lookup seqNo = some slot → st.log.blocks[seqNo]? = some o →
    st.tx.txMeta (seqNo % kWindow) = ⟨o.block.offset, o.block.flags⟩
  regSize : st.tx.reg.windowSize = kWindow
  rxSize : st.peer.rx.windowSize = kWindow
  history : History st.log.blocks
  counted : st.log.blocks.length = st.tx.txNextSeq
  rx : st.peer.rx.Inv
  missing : ¬ st.peer.rx.Accepted st.peer.rx.baseSeqNo
  accepted_sent : ∀ seqNo, st.peer.rx.Accepted seqNo → seqNo < st.tx.txNextSeq
  reports : st.peer.rx.Reports st.tx.txNextSeq
  forward : ∀ dg ∈ st.forward, ∃ (seqNo : Nat) (o : BlockOrigin),
    st.log.blocks[seqNo]? = some o ∧ SendOf dir.cipher dir.lane.val seqNo o.block dg
  backward : ∀ dg ∈ st.backward, Honest st.peer.rx st.tx.txNextSeq dg
  sending : ∀ call, st.tx.sending = some call → Sending st.tx.txNextSeq st.log.calls st.log.blocks call
  logged : ∀ (seqNo : Nat) (o : BlockOrigin), st.log.blocks[seqNo]? = some o →
    ∃ call, st.log.calls[o.call]? = some call ∧ call.data = o.message
  ok : ∀ (k : Nat) (call : Call), st.log.calls[k]? = some call → call.status = .ok →
    ∃ (seqNo : Nat) (o : BlockOrigin), st.log.blocks[seqNo]? = some o ∧ o.call = k ∧
      o.isLast = true ∧ seqNo < st.tx.txBase

theorem inv_initial (dir : Direction) : Inv dir (initial dir) where
  window := SendWindow.create dir.lane.val kWindow
  metas := by
    intro seqNo slot o found impossible
    cases impossible
  regSize := rfl
  rxSize := rfl
  history := History.nil
  counted := rfl
  rx := ReceiverStream.create_inv dir.lane.val kWindow true
  missing := ReceiverStream.create_accepted dir.lane.val kWindow true _
  accepted_sent := fun seqNo accepted =>
    (ReceiverStream.create_accepted dir.lane.val kWindow true seqNo accepted).elim
  reports := ReceiverStream.Reports.create dir.lane_lt 0 kWindow true
  forward := fun _ impossible => (List.not_mem_nil impossible).elim
  backward := fun _ impossible => (List.not_mem_nil impossible).elim
  sending := by
    intro call impossible
    cases impossible
  logged := by
    intro seqNo o impossible
    cases impossible
  ok := by
    intro k call impossible
    cases impossible

variable {call : SendCall}

/-- The block the call sends next. -/
def SendCall.origin (call : SendCall) : BlockOrigin :=
  ⟨call.call, call.firstSeq, call.sent, call.data⟩

namespace Sending

variable {nextSeq : Nat} {calls : List Call} {blocks : List BlockOrigin}
  (sending : Sending nextSeq calls blocks call)
include sending

theorem newCall (added : Call) : Sending nextSeq (calls ++ [added]) blocks call := by
  have hlt := (List.getElem?_eq_some_iff.mp sending.logged).1
  exact { sending with logged := (List.getElem?_append_left hlt).trans sending.logged }

variable (counted : blocks.length = nextSeq) (unsent : call.sent < nblocks call.data.length)
include counted unsent

theorem history (history : History blocks) : History (blocks ++ [call.origin]) := by
  refine history.append (counted.trans sending.next) unsent sending.sized ?_
  intro seqNo p hp
  rcases Nat.lt_or_ge seqNo call.firstSeq with hbefore | hbehind
  · exact Or.inr ⟨sending.earlier seqNo p hp hbefore, hbefore⟩
  · rw [sending.own seqNo p hp hbehind]
    exact Or.inl ⟨rfl, rfl, rfl⟩

theorem blockSent :
    Sending (nextSeq + 1) calls (blocks ++ [call.origin]) { call with sent := call.sent + 1 } := by
  have hnext := sending.next
  refine ⟨congrArg (· + 1) hnext, unsent, sending.sized, sending.logged, ?_, ?_⟩
  · intro seqNo o ho hbehind
    rcases origin_cases ho with hold | ⟨hseq, rfl⟩
    · exact sending.own seqNo o hold hbehind
    · have hsent : call.sent = seqNo - call.firstSeq := by omega
      rw [SendCall.origin, hsent]
  · intro seqNo o ho hbefore
    rcases origin_cases ho with hold | ⟨hseq, rfl⟩
    · exact sending.earlier seqNo o hold hbefore
    · change seqNo < call.firstSeq at hbefore
      omega

end Sending

namespace Inv

variable {dir : Direction} {st : State}

section

variable (inv : Inv dir st)
include inv

theorem sent_block (sent : seqNo < st.tx.txNextSeq) : ∃ o, st.log.blocks[seqNo]? = some o := by
  rw [← inv.counted] at sent
  exact ⟨_, List.getElem?_eq_getElem sent⟩

theorem block_sent {o : BlockOrigin} (ho : st.log.blocks[seqNo]? = some o) :
    seqNo < st.tx.txNextSeq := by
  rw [← inv.counted]
  exact (List.getElem?_eq_some_iff.mp ho).1

/-- A further call in the log changes nothing for the others. -/
theorem newCall {data : List UInt8} {status : CallStatus} (unfinished : status ≠ .ok)
    {sending : Option SendCall} (hsending : ∀ call, sending = some call →
      Sending st.tx.txNextSeq (st.log.calls ++ [⟨data, status⟩]) st.log.blocks call) :
    Inv dir { st with
      tx := { st.tx with sending := sending }
      log := { st.log with calls := st.log.calls ++ [⟨data, status⟩] } } := by
  refine { inv with sending := hsending, logged := ?_, ok := ?_ }
  · intro seqNo o ho
    obtain ⟨call, hcall, hdata⟩ := inv.logged seqNo o ho
    have hlt := (List.getElem?_eq_some_iff.mp hcall).1
    exact ⟨call, (List.getElem?_append_left hlt).trans hcall, hdata⟩
  · intro k call hcall hok
    rw [List.getElem?_append] at hcall
    split at hcall
    · exact inv.ok k call hcall hok
    · obtain ⟨_, hvalue⟩ := List.getElem?_eq_some_iff.mp hcall
      rw [List.getElem_singleton] at hvalue
      rw [← hvalue] at hok
      exact (unfinished hok).elim

theorem refuse (data : List UInt8) (error : FuseError) :
    Inv dir { st with
      log := { st.log with calls := st.log.calls ++ [⟨data, .failed error⟩] } } := by
  refine inv.newCall CallStatus.noConfusion ?_
  intro call hcall
  exact (inv.sending call hcall).newCall _

theorem fuseSend {data : List UInt8} {next : State} (started : st.fuseSend data = some next) :
    Inv dir next := by
  unfold State.fuseSend at started
  split at started
  · cases started
    exact inv.refuse data .tooLarge
  · rename_i hsized
    cases (Option.ite_none_left_eq_some.mp started).2
    refine inv.newCall CallStatus.noConfusion ?_
    intro call hcall
    cases hcall
    refine ⟨rfl, Nat.zero_le _, Nat.le_of_not_gt hsized, ?_, ?_, ?_⟩
    · exact List.getElem?_concat_length
    · intro seqNo o ho hbehind
      have hsent := inv.block_sent ho
      change st.tx.txNextSeq ≤ seqNo at hbehind
      omega
    · intro seqNo o ho hbefore
      obtain ⟨call, hcall, _⟩ := inv.logged seqNo o ho
      exact (List.getElem?_eq_some_iff.mp hcall).1

/-- A call that returns FUSE_OK has every block acknowledged. -/
theorem returns {status : CallStatus}
    (finished : status = .ok → ∃ (seqNo : Nat) (o : BlockOrigin), st.log.blocks[seqNo]? = some o ∧
      o.call = call.call ∧ o.isLast = true ∧ seqNo < st.tx.txBase) :
    Inv dir (st.returns call.call status) := by
  refine { inv with sending := ?_, logged := ?_, ok := ?_ }
  · intro other impossible
    cases impossible
  · intro seqNo o ho
    obtain ⟨logged, hlogged, hdata⟩ := inv.logged seqNo o ho
    change ∃ c, (st.log.calls.modify call.call _)[o.call]? = some c ∧ _
    rw [List.getElem?_modify, hlogged]
    refine ⟨_, rfl, ?_⟩
    split <;> exact hdata
  · intro k c hc hok
    change (st.log.calls.modify call.call _)[k]? = some c at hc
    rw [List.getElem?_modify] at hc
    obtain ⟨old, hold, hnew⟩ := Option.map_eq_some_iff.mp hc
    by_cases hsame : call.call = k
    · rw [if_pos hsame] at hnew
      rw [← hnew] at hok
      obtain ⟨seqNo, o, ho, hcall, hlast, hbase⟩ := finished hok
      exact ⟨seqNo, o, ho, hcall.trans hsame, hlast, hbase⟩
    · rw [if_neg hsame] at hnew
      exact inv.ok k old hold (by rw [← hnew] at hok; exact hok)

end

/-! ## Sending blocks -/

theorem room_exact (inv : Inv dir st) {cwnd : Nat} (room : st.tx.room cwnd) :
    st.tx.txNextSeq < st.tx.txBase + st.tx.reg.windowSize := by
  have hordered := inv.window.ordered
  have hbounded := inv.window.bounded
  have hsize := inv.regSize
  unfold Sender.room at room
  rw [u64Sub_of_le hordered hbounded] at room
  omega

theorem store_chunk (tx : Sender) (seqNo : Nat) (data : List UInt8) (i nowNs : Nat) :
    ∃ stored, tx.reg.store seqNo (chunk data i).payload nowNs (chunk data i).offset 0 = some stored ∧
      (tx.keep seqNo (chunk data i) nowNs).reg = stored := by
  have hsmall : ¬ (chunk data i).payload.length > kMaxPayloadSize := by
    have hlength := length_chunk_le data i
    unfold kBlockSize at hlength
    unfold kMaxPayloadSize
    omega
  unfold Sender.keep SenderRegistry.store
  rw [if_neg hsmall]
  exact ⟨_, rfl, rfl⟩

/-- A block that is stored but not yet counted as sent. -/
theorem keep (inv : Inv dir st) (room : st.tx.txNextSeq < st.tx.txBase + st.tx.reg.windowSize)
    (data : List UInt8) (i nowNs : Nat) :
    Inv dir { st with tx := st.tx.keep st.tx.txNextSeq (chunk data i) nowNs } := by
  obtain ⟨stored, hstore, hreg⟩ := store_chunk st.tx st.tx.txNextSeq data i nowNs
  refine { inv with window := ?_, metas := ?_, regSize := ?_ }
  · rw [hreg]
    exact inv.window.attempt room hstore
  · intro seqNo slot o found ho
    have hsent := inv.block_sent ho
    rw [hreg, SenderRegistry.lookup_store hstore, if_neg (Nat.ne_of_lt hsent)] at found
    split at found
    · cases found
    · rename_i hother
      rw [inv.regSize] at hother
      change Function.update st.tx.txMeta _ _ (seqNo % kWindow) = _
      rw [Function.update_of_ne hother]
      exact inv.metas seqNo slot o found ho
  · rw [hreg, SenderRegistry.store_windowSize hstore]
    exact inv.regSize

/-- A stored block that goes out counts as sent. -/
theorem advance (inv : Inv dir st) (hsending : st.tx.sending = some call)
    (unsent : call.sent < nblocks call.data.length)
    (room : st.tx.txNextSeq < st.tx.txBase + st.tx.reg.windowSize)
    (fits : st.tx.txNextSeq + 1 < 2 ^ 64) {slot : RegistrySlot}
    (resident : st.tx.reg.lookup st.tx.txNextSeq = some slot)
    (hpayload : slot.payload = (chunk call.data call.sent).payload)
    (hmeta : st.tx.txMeta (st.tx.txNextSeq % kWindow) =
      ⟨(chunk call.data call.sent).offset, (chunk call.data call.sent).flags⟩)
    (sent : SendOf dir.cipher dir.lane.val st.tx.txNextSeq (chunk call.data call.sent) dg) :
    Inv dir { st with
      tx := { st.tx with
        txNextSeq := u64 (st.tx.txNextSeq + 1)
        sending := some { call with sent := call.sent + 1 } }
      forward := dg :: st.forward
      log := { st.log with
        blocks := st.log.blocks ++ [call.origin] } } := by
  have current := inv.sending call hsending
  have hcounted := inv.counted
  have hnew : (st.log.blocks ++ [call.origin])[st.tx.txNextSeq]? = some call.origin := by
    rw [← hcounted]
    exact List.getElem?_concat_length
  have hkept : ∀ (seqNo : Nat) (o : BlockOrigin), st.log.blocks[seqNo]? = some o →
      (st.log.blocks ++ [call.origin])[seqNo]? = some o := fun seqNo o ho =>
    (List.getElem?_append_left (List.getElem?_eq_some_iff.mp ho).1).trans ho
  rw [u64_of_lt fits]
  refine { inv with
    window := (inv.window.mono (fun _ _ _ holds => holds.append _) fun _ done => done).advance
      room fits resident ⟨_, hnew, hpayload⟩
    metas := ?_
    history := current.history hcounted unsent inv.history
    counted := ?_
    accepted_sent := fun seqNo accepted => Nat.lt_succ_of_lt (inv.accepted_sent seqNo accepted)
    reports := inv.reports.mono (Nat.le_succ _)
    forward := ?_
    backward := fun other member =>
      (inv.backward other member).mono (fun _ accepted => accepted) (Nat.le_succ _)
    sending := ?_
    logged := ?_
    ok := ?_ }
  · intro seqNo other o found ho
    rcases origin_cases ho with hold | ⟨hseq, rfl⟩
    · exact inv.metas seqNo other o found hold
    · rw [hseq, hcounted]
      exact hmeta
  · rw [List.length_append, hcounted]
    rfl
  · intro other member
    rcases List.mem_cons.mp member with rfl | hold
    · exact ⟨_, _, hnew, sent⟩
    · obtain ⟨seqNo, o, ho, hsent⟩ := inv.forward other hold
      exact ⟨seqNo, o, hkept seqNo o ho, hsent⟩
  · intro other hother
    cases hother
    exact current.blockSent hcounted unsent
  · intro seqNo o ho
    rcases origin_cases ho with hold | ⟨_, rfl⟩
    · exact inv.logged seqNo o hold
    · exact ⟨_, current.logged, rfl⟩
  · intro k finished hfinished hok
    obtain ⟨seqNo, o, ho, hcall, hlast, hbase⟩ := inv.ok k finished hfinished hok
    exact ⟨seqNo, o, hkept seqNo o ho, hcall, hlast, hbase⟩

theorem sendBlock (inv : Inv dir st) (hsending : st.tx.sending = some call)
    (unsent : call.sent < nblocks call.data.length) {cwnd : Nat} (room : st.tx.room cwnd)
    (fits : st.tx.txNextSeq + 1 < 2 ^ 64) (works : Bool) (nowNs : Nat) :
    Inv dir (st.sendBlock dir call works nowNs) := by
  have hroom := inv.room_exact room
  have hkeep := inv.keep hroom call.data call.sent nowNs
  unfold State.sendBlock Sender.sendBlockLocked
  cases hdg : blockDatagram dir.cipher works dir.lane.val st.tx.txNextSeq
      (chunk call.data call.sent) nowNs kScratch with
  | none => exact hkeep.returns fun impossible => CallStatus.noConfusion impossible
  | some dg =>
    obtain ⟨stored, hstore, hreg⟩ := store_chunk st.tx st.tx.txNextSeq call.data call.sent nowNs
    have hsize := SenderRegistry.store_windowSize hstore
    have hlookup := SenderRegistry.lookup_store hstore st.tx.txNextSeq
    rw [if_pos rfl, ← hreg] at hlookup
    refine hkeep.advance hsending unsent ?_ fits hlookup rfl ?_ ⟨works, nowNs, kScratch, Or.inl hdg⟩
    · rw [hreg, hsize]
      exact hroom
    · exact Function.update_self _ _ _

theorem onAck (inv : Inv dir st) {ack : Ack}
    (below : ∀ seqNo, seqNo < ack.baseSeqNo → st.peer.rx.Accepted seqNo) :
    Inv dir { st with tx := st.tx.onAck ack } := by
  unfold Sender.onAck
  split
  · have hordered := inv.window.ordered
    have hfrees := Frees.foldl_confirm
      (List.range' st.tx.txBase (min ack.baseSeqNo st.tx.txNextSeq - st.tx.txBase)) st.tx.reg
    have hforward : st.tx.txBase ≤ min ack.baseSeqNo st.tx.txNextSeq := by omega
    have hwindow := inv.window.frees hfrees hforward (Nat.min_le_right _ _)
      (fun seqNo _ hbelow => below seqNo (by omega))
      (fun seqNo _ hfreed => below seqNo (by rw [List.mem_range'_1] at hfreed; omega))
    refine { inv with window := hwindow, metas := ?_, regSize := ?_, ok := ?_ }
    · intro seqNo slot o found ho
      exact inv.metas seqNo slot o (hfrees.lookup_some found) ho
    · exact hfrees.window.trans inv.regSize
    · intro k call hcall hok
      obtain ⟨seqNo, o, ho, horigin, hlast, hbase⟩ := inv.ok k call hcall hok
      refine ⟨seqNo, o, ho, horigin, hlast, ?_⟩
      change seqNo < min ack.baseSeqNo st.tx.txNextSeq
      omega
  · exact inv

/-- A retransmission repeats a block of the history. -/
theorem retransmit (inv : Inv dir st) {nowNs : Nat} {works : Bool}
    (sent : seqNo < st.tx.txNextSeq)
    (again : st.tx.retransmitLocked dir seqNo works nowNs = some dg) :
    ∃ o, st.log.blocks[seqNo]? = some o ∧ SendOf dir.cipher dir.lane.val seqNo o.block dg := by
  obtain ⟨slot, found, hdg⟩ := Option.bind_eq_some_iff.mp again
  obtain ⟨o, ho, hpayload⟩ := inv.window.original seqNo slot sent found
  refine ⟨o, ho, works, nowNs, kScratch, Or.inr ?_⟩
  rw [inv.metas seqNo slot o found ho, hpayload] at hdg
  exact hdg

theorem moreForward (inv : Inv dir st) {added : List (List UInt8)}
    (sends : ∀ dg ∈ added, ∃ (seqNo : Nat) (o : BlockOrigin),
      st.log.blocks[seqNo]? = some o ∧ SendOf dir.cipher dir.lane.val seqNo o.block dg) :
    Inv dir { st with forward := added ++ st.forward } := by
  refine { inv with forward := ?_ }
  intro dg member
  rcases List.mem_append.mp member with hnew | hold
  · exact sends dg hnew
  · exact inv.forward dg hold

theorem onControl (inv : Inv dir st) (member : dg ∈ st.backward) (works : Nat → Bool)
    (nowNs : Nat) : Inv dir (st.onControl dir dg works nowNs) := by
  unfold State.onControl
  cases inv.backward dg member with
  | ack ack fits below bytes =>
    have hdecoded := decodeAck_encode ack fits []
    have hpeek := peekMsgType_of_checkOuter (checkOuter_ack ack [])
    rw [List.append_nil, ← bytes] at hdecoded hpeek
    rw [hpeek]
    simp only [hdecoded]
    exact inv.onAck below
  | nack nack fits named bytes =>
    have hdecoded := decodeNack_encode nack fits []
    have hpeek := peekMsgType_of_checkOuter (checkOuter_nack nack [])
    rw [List.append_nil, ← bytes] at hdecoded hpeek
    rw [hpeek]
    simp only [hdecoded]
    apply inv.moreForward
    intro other hother
    obtain ⟨seqNo, hnamed, hagain⟩ := List.mem_filterMap.mp hother
    obtain ⟨o, ho, hsend⟩ := inv.retransmit (named seqNo hnamed) hagain
    exact ⟨seqNo, o, ho, hsend⟩

theorem retransmissionTimeout (inv : Inv dir st) (outstanding : st.tx.txBase < st.tx.txNextSeq)
    (works : Bool) (nowNs : Nat) :
    Inv dir { st with
      forward := (st.tx.retransmitLocked dir st.tx.txBase works nowNs).toList ++ st.forward } := by
  apply inv.moreForward
  intro dg member
  rw [Option.mem_toList] at member
  obtain ⟨o, ho, hsend⟩ := inv.retransmit outstanding member
  exact ⟨_, o, ho, hsend⟩

/-! ## Blocks that arrive at the receiving end -/

theorem receiveBlock_rx (c : Receiver) (hdr : BlockHeader) (body : List UInt8) (sendTimeNs nowNs : Nat) :
    (c.receiveBlock hdr body sendTimeNs nowNs).rx = c.rx ∨
      (c.receiveBlock hdr body sendTimeNs nowNs).rx = (c.rx.onReceive hdr.seqNo sendTimeNs nowNs).1 := by
  have hcomplete : ∀ other : Receiver, other.complete.rx = other.rx := by
    intro other
    unfold Receiver.complete
    split <;> rfl
  have hassemble : ∀ other : Receiver, (other.assemble hdr body).rx = other.rx := by
    intro other
    unfold Receiver.assemble
    split
    · split <;> rfl
    · rfl
  unfold Receiver.receiveBlock
  split
  · exact Or.inl rfl
  · right
    rw [hcomplete]
    split
    · rw [hassemble]
    · rfl

section

variable (inv : Inv dir st)
include inv

/-- A datagram on the wire reaches the window as the block it was sent for. -/
theorem onData_eq (member : dg ∈ st.forward) (nowNs : Nat) :
    ∃ (seqNo : Nat) (o : BlockOrigin) (data : DataDatagram), decodeDataDatagram dg = some data ∧
      st.log.blocks[seqNo]? = some o ∧ Conveys dir.cipher dir.lane.val seqNo o.block data ∧
      st.onData dir dg nowNs =
        { st with peer := st.peer.receiveBlock data.hdr o.block.payload data.sendTimeNs nowNs } := by
  obtain ⟨seqNo, o, ho, sends⟩ := inv.forward dg member
  have hseq : seqNo < 2 ^ 64 := Nat.lt_trans (inv.block_sent ho) inv.window.bounded
  have hoffset : o.block.offset < 2 ^ 64 := by
    have hend : o.block.offset + o.block.payload.length ≤ o.message.length :=
      (chunk_end_le (inv.history.inside seqNo o ho)).1
    have hsized := inv.history.sized seqNo o ho
    unfold kMaxMessage at hsized
    omega
  obtain ⟨data, hdecoded, conveys⟩ := sends.decode dir.lane_lt hseq hoffset
  refine ⟨seqNo, o, data, hdecoded, ho, conveys, ?_⟩
  unfold State.onData Receiver.handleDataLocked
  rw [sends.peek, hdecoded]
  simp only [conveys.streamId, conveys.payload, ne_eq, not_true_eq_false, if_false]

/-- No block of the history is past the receiving end's window. -/
theorem inside_window (sent : seqNo < st.tx.txNextSeq) :
    seqNo < st.peer.rx.baseSeqNo + st.peer.rx.windowSize := by
  have hwindow := inv.window.window
  have hsender := inv.regSize
  have hreceiver := inv.rxSize
  have hbase : st.tx.txBase ≤ st.peer.rx.baseSeqNo :=
    Nat.le_of_not_lt fun hlt => inv.missing (inv.window.below _ hlt)
  omega

/-- The receiving end with a window that has at most admitted more. -/
theorem peer_of_rx {peer : Receiver}
    (grown : ∀ seqNo, st.peer.rx.Accepted seqNo → peer.rx.Accepted seqNo)
    (size : peer.rx.windowSize = st.peer.rx.windowSize) (rx : peer.rx.Inv)
    (missing : ¬ peer.rx.Accepted peer.rx.baseSeqNo)
    (sent : ∀ seqNo, peer.rx.Accepted seqNo → seqNo < st.tx.txNextSeq)
    (reports : peer.rx.Reports st.tx.txNextSeq) : Inv dir { st with peer := peer } :=
  { inv with
    window := inv.window.mono (fun _ _ _ holds => holds) grown
    rxSize := size.trans inv.rxSize
    rx := rx
    missing := missing
    accepted_sent := sent
    reports := reports
    backward := fun dg member => (inv.backward dg member).mono grown (Nat.le_refl _) }

theorem peer_same {peer : Receiver} (hrx : peer.rx = st.peer.rx) :
    Inv dir { st with peer := peer } := by
  apply inv.peer_of_rx
  · rw [hrx]
    exact fun _ accepted => accepted
  · rw [hrx]
  · rw [hrx]
    exact inv.rx
  · rw [hrx]
    exact inv.missing
  · rw [hrx]
    exact inv.accepted_sent
  · rw [hrx]
    exact inv.reports

/-- What the window does with a block of the history. -/
theorem receive_cases (sent : seqNo < st.tx.txNextSeq) (sendTimeNs nowNs : Nat) :
    (st.peer.rx.Accepted seqNo ∧
      st.peer.rx.onReceive seqNo sendTimeNs nowNs = (st.peer.rx, .duplicate)) ∨
    (¬ st.peer.rx.Accepted seqNo ∧ ∃ after,
      st.peer.rx.onReceive seqNo sendTimeNs nowNs = (after, .accepted) ∧
      ReceiverStream.Admits st.peer.rx after seqNo) := by
  have hinside := inv.inside_window sent
  have hmax := inv.window.bounded
  have hbounded : seqNo < 2 ^ 64 - 1 := by omega
  rcases ReceiverStream.onReceive_cases inv.rx hbounded sendTimeNs nowNs with
    hdup | ⟨hpast, _⟩ | ⟨hfresh, _, hadmitted⟩
  · exact Or.inl hdup
  · omega
  · exact Or.inr ⟨hfresh, hadmitted⟩

theorem onData (member : dg ∈ st.forward) (nowNs : Nat) : Inv dir (st.onData dir dg nowNs) := by
  obtain ⟨seqNo, o, data, _, ho, conveys, heq⟩ := inv.onData_eq member nowNs
  have hsent := inv.block_sent ho
  rw [heq]
  rcases receiveBlock_rx st.peer data.hdr o.block.payload data.sendTimeNs nowNs with hrefused | hreceived
  · exact inv.peer_same hrefused
  · rw [conveys.seqNo] at hreceived
    rcases inv.receive_cases hsent data.sendTimeNs nowNs with
      ⟨_, hdup⟩ | ⟨_, after, hadmitted, admits⟩
    · rw [hdup] at hreceived
      exact inv.peer_same hreceived
    · have hreports := inv.reports.onReceive hsent conveys.sendTimeNs nowNs
      rw [hadmitted] at hreceived hreports
      apply inv.peer_of_rx
      · rw [hreceived]
        exact fun other accepted => (admits.accepted other).mpr (Or.inl accepted)
      · rw [hreceived]
        exact admits.window
      · rw [hreceived]
        exact admits.inv
      · rw [hreceived]
        exact admits.missing
      · rw [hreceived]
        intro other accepted
        rcases (admits.accepted other).mp accepted with hold | hnew
        · exact inv.accepted_sent other hold
        · rw [hnew]
          exact hsent
      · rw [hreceived]
        exact hreports

theorem moreBackward (honest : Honest st.peer.rx st.tx.txNextSeq dg) :
    Inv dir { st with backward := dg :: st.backward } := by
  refine { inv with backward := ?_ }
  intro other member
  rcases List.mem_cons.mp member with rfl | hold
  · exact honest
  · exact inv.backward other hold

theorem sendAck : Inv dir (st.sendAck dir) := by
  unfold State.sendAck
  split
  · rename_i dg encoded
    have hfits := inv.reports.buildAck_fits
    refine inv.moreBackward (.ack { st.peer.rx.buildAck with streamId := dir.lane.val }
      ⟨dir.lane_lt, hfits.baseSeqNo, hfits.echoedSendTime, hfits.nonce, hfits.rwnd⟩ ?_ ?_)
    · intro seqNo hlt
      exact Or.inl hlt
    · exact emit_eq_some encoded
  · exact inv

theorem sendNack (nowNs reorderNs renackNs : Nat) :
    Inv dir (st.sendNack dir nowNs reorderNs renackNs) := by
  obtain ⟨stamps, hframe⟩ := st.peer.rx.collectNacks_frame nowNs reorderNs renackNs
  have hnoted : Inv dir { st with
      peer := { st.peer with rx := (st.peer.rx.collectNacks nowNs reorderNs renackNs).1 } } := by
    apply inv.peer_of_rx
    · rw [hframe]
      exact fun _ accepted => accepted
    · rw [hframe]
    · rw [hframe]
      exact ⟨inv.rx.confined, inv.rx.base_lt⟩
    · rw [hframe]
      exact inv.missing
    · rw [hframe]
      exact inv.accepted_sent
    · exact inv.reports.collectNacks nowNs reorderNs renackNs
  unfold State.sendNack
  dsimp only
  split
  · split
    · rename_i dg encoded
      refine hnoted.moreBackward (.nack ⟨dir.lane.val, _⟩
        (inv.reports.collectNacks_fits (Nat.le_of_lt inv.window.bounded) dir.lane_lt nowNs
          reorderNs renackNs) ?_ (encodeNack_eq_some encoded))
      intro seqNo named
      exact inv.reports.named named
    · exact hnoted
  · exact hnoted

end

theorem fuseRecv_rx (c : Receiver) (cap : Nat) : (c.fuseRecv cap).2.rx = c.rx := by
  unfold Receiver.fuseRecv
  split
  · rfl
  · split <;> rfl

theorem lastSeq_eq (inv : Inv dir st) (hsending : st.tx.sending = some call)
    (hsent : call.sent = nblocks call.data.length) :
    Sender.lastSeq call = st.tx.txNextSeq - 1 := by
  have hnext := (inv.sending call hsending).next
  have hpos := (nblocks_spec call.data.length).1
  have hbounded := inv.window.bounded
  unfold Sender.lastSeq
  rw [← hsent, ← hnext, u64_of_lt hbounded, u64Sub_of_le (by omega) hbounded]

/-- A call whose last block is below the sender's base has all its blocks in the
history. -/
theorem finished (inv : Inv dir st) (hsending : st.tx.sending = some call)
    (hsent : call.sent = nblocks call.data.length) (hacked : st.tx.txBase > Sender.lastSeq call) :
    ∃ (seqNo : Nat) (o : BlockOrigin), st.log.blocks[seqNo]? = some o ∧ o.call = call.call ∧
      o.isLast = true ∧ seqNo < st.tx.txBase := by
  have current := inv.sending call hsending
  have hnext := current.next
  have hpos := (nblocks_spec call.data.length).1
  have hlast := inv.lastSeq_eq hsending hsent
  have hlt : st.tx.txNextSeq - 1 < st.tx.txNextSeq := by omega
  obtain ⟨o, ho⟩ := inv.sent_block hlt
  have hown := current.own _ o ho (by omega)
  refine ⟨_, o, ho, by rw [hown], ?_, by omega⟩
  rw [hown]
  apply decide_eq_true
  change st.tx.txNextSeq - 1 - call.firstSeq + 1 = nblocks call.data.length
  omega

theorem step (inv : Inv dir st) {event : Event} {next : State}
    (short : st.tx.txNextSeq < 2 ^ 64 - 2) (stepped : Sdk.step dir st event = some next) :
    Inv dir next := by
  cases event with
  | fuseSend data => exact inv.fuseSend stepped
  | refuse data error =>
    cases stepped
    exact inv.refuse data error
  | sendBlock cwnd works nowNs =>
    obtain ⟨call, hsending, hguard⟩ := Option.bind_eq_some_iff.mp stepped
    split at hguard
    · rename_i ready
      cases hguard
      exact inv.sendBlock hsending ready.1 ready.2 (by omega) works nowNs
    · cases hguard
  | giveUp error =>
    obtain ⟨call, _, hnext⟩ := Option.map_eq_some_iff.mp stepped
    rw [← hnext]
    exact inv.returns fun impossible => CallStatus.noConfusion impossible
  | sendDone =>
    obtain ⟨call, hsending, hguard⟩ := Option.bind_eq_some_iff.mp stepped
    split at hguard
    · rename_i ready
      cases hguard
      exact inv.returns fun _ => inv.finished hsending ready.1 ready.2
    · cases hguard
  | deliverData dg nowNs =>
    obtain ⟨member, stepped⟩ := Option.ite_none_right_eq_some.mp stepped
    cases stepped
    exact inv.onData member nowNs
  | sendAck =>
    cases stepped
    exact inv.sendAck
  | sendNack nowNs reorderNs renackNs =>
    cases stepped
    exact inv.sendNack nowNs reorderNs renackNs
  | deliverControl dg works nowNs =>
    obtain ⟨member, stepped⟩ := Option.ite_none_right_eq_some.mp stepped
    cases stepped
    exact inv.onControl member works nowNs
  | retransmissionTimeout works nowNs =>
    obtain ⟨outstanding, stepped⟩ := Option.ite_none_right_eq_some.mp stepped
    cases stepped
    exact inv.retransmissionTimeout outstanding works nowNs
  | fuseRecv cap =>
    cases stepped
    exact { inv.peer_same (fuseRecv_rx st.peer cap) with }

end Inv

end FuseTransport.Sdk
