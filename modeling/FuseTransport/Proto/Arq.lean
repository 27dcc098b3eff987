import FuseTransport.Foundation.Runs
import FuseTransport.Proto.Block
import FuseTransport.Proto.Receiver
import FuseTransport.Proto.SendWindow

/-!
# One stream over an unreliable network

A sender with a registry and a receiver with a window of the same size exchange
DATA and ACK datagrams.  The network keeps every datagram that was ever sent and
may deliver any of them at any time, any number of times, or never.
-/

namespace FuseTransport.Proto.Arq

open Foundation Foundation.Runs

inductive Datagram where
  | data (block : DataDatagram)
  | ack (ack : Ack)
  deriving DecidableEq

/-- Both ends, the datagrams sent so far, and the history of first sends. -/
structure State where
  reg : SenderRegistry
  base : Nat
  nextSeq : Nat
  rx : ReceiverStream
  network : List Datagram
  history : List SentBlock

def initial (streamId windowSize : Nat) : State where
  reg := SenderRegistry.create streamId windowSize
  base := 0
  nextSeq := 0
  rx := ReceiverStream.create streamId windowSize true
  network := []
  history := []

inductive Event where
  | send (block : SentBlock) (nowNs : Nat)
  | retransmit (seqNo nowNs : Nat)
  | deliverData (block : DataDatagram) (nowNs : Nat)
  | sendAck
  | deliverAck (ack : Ack)

def datagramOf (streamId seqNo nowNs : Nat) (payload : List UInt8) (offset : Nat) (flags : UInt8) :
    DataDatagram where
  hdr := { streamId := streamId, seqNo := seqNo, flags := flags, payloadLen := payload.length,
           offset := offset }
  sendTimeNs := nowNs
  payload := payload

/-- Store and send the next block while the window has room. -/
def send (st : State) (windowSize : Nat) (block : SentBlock) (nowNs : Nat) : Option State :=
  if st.nextSeq < u64 (st.base + windowSize) then
    (st.reg.store st.nextSeq block.payload nowNs block.offset block.flags).map fun reg =>
      { st with
        reg := reg
        nextSeq := u64 (st.nextSeq + 1)
        network := .data (datagramOf reg.streamId st.nextSeq nowNs block.payload block.offset
          block.flags) :: st.network
        history := st.history ++ [block] }
  else none

def retransmit (st : State) (seqNo nowNs : Nat) : Option State :=
  (st.reg.lookup seqNo).map fun slot =>
    { st with
      network := .data (datagramOf st.reg.streamId slot.seqNo nowNs slot.payload slot.offset
        (slot.flags ||| kFlagRetransmission)) :: st.network }

def deliverAck (st : State) (ack : Ack) : State :=
  let applied := applyAck st.reg ack st.base st.nextSeq none
  { st with reg := applied.reg, base := applied.base }

/-- One step of the stream, for a sender configured with `windowSize`. -/
def step (windowSize : Nat) (st : State) : Event → Option State
  | .send block nowNs => send st windowSize block nowNs
  | .retransmit seqNo nowNs => retransmit st seqNo nowNs
  | .deliverData block nowNs =>
    if .data block ∈ st.network then
      some { st with rx := (st.rx.onReceive block.hdr.seqNo block.sendTimeNs nowNs).1 }
    else none
  | .sendAck => some { st with network := .ack st.rx.buildAck :: st.network }
  | .deliverAck ack => if .ack ack ∈ st.network then some (deliverAck st ack) else none

/-! ## The invariant -/

structure Inv (windowSize : Nat) (st : State) : Prop where
  sender : SendWindow (Original st.history) st.rx.Accepted st.reg st.base st.nextSeq
  unsent : ∀ seqNo slot, st.reg.lookup seqNo = some slot → seqNo < st.nextSeq
  senderSize : st.reg.windowSize = windowSize
  receiverSize : st.rx.windowSize = windowSize
  receiver : st.rx.Inv
  missing : ¬ st.rx.Accepted st.rx.baseSeqNo
  accepted_sent : ∀ seqNo, st.rx.Accepted seqNo → seqNo < st.nextSeq
  history_length : st.history.length = st.nextSeq
  data_sent : ∀ block, .data block ∈ st.network → block.hdr.seqNo < st.nextSeq
  acks_honest : ∀ ack, .ack ack ∈ st.network → ∀ seqNo, ack.Asserts seqNo → st.rx.Accepted seqNo
  overflow : st.rx.windowOverflowCount = 0

variable {windowSize : Nat}

theorem inv_initial (streamId : Nat) (hpos : 1 ≤ windowSize) (hle : windowSize ≤ kMaxWindow) :
    Inv windowSize (initial streamId windowSize) where
  sender := SendWindow.create streamId windowSize
  unsent := by
    intro seqNo slot found
    cases found
  senderSize := clampWindow_of_valid hpos hle
  receiverSize := clampWindow_of_valid hpos hle
  receiver := ReceiverStream.create_inv streamId windowSize true
  missing := ReceiverStream.create_accepted streamId windowSize true _
  accepted_sent := fun seqNo accepted =>
    (ReceiverStream.create_accepted streamId windowSize true seqNo accepted).elim
  history_length := rfl
  data_sent := fun _ impossible => (List.not_mem_nil impossible).elim
  acks_honest := fun _ impossible => (List.not_mem_nil impossible).elim
  overflow := rfl

variable {st : State}

theorem inv_send {next : State} {block : SentBlock} {nowNs : Nat} (inv : Inv windowSize st)
    (sent : send st windowSize block nowNs = some next) :
    Inv windowSize next := by
  unfold send at sent
  split at sent
  · rename_i guard
    obtain ⟨reg, hstore, hnext⟩ := Option.map_eq_some_iff.mp sent
    obtain ⟨room, fits⟩ := SendWindow.guard_exact guard
    have hseq : u64 (st.nextSeq + 1) = st.nextSeq + 1 := u64_of_lt fits
    rw [← inv.senderSize] at room
    subst hnext
    rw [hseq]
    refine ⟨inv.sender.store inv.history_length room fits hstore, ?_,
      (SenderRegistry.store_windowSize hstore).trans inv.senderSize, inv.receiverSize,
      inv.receiver, inv.missing, ?_, ?_, ?_, ?_, inv.overflow⟩
    · intro seqNo slot found
      rw [SenderRegistry.lookup_store hstore] at found
      split at found
      · rename_i hnext
        rw [hnext]
        exact Nat.lt_succ_self _
      · split at found
        · cases found
        · exact Nat.lt_succ_of_lt (inv.unsent seqNo slot found)
    · intro seqNo accepted
      exact Nat.lt_succ_of_lt (inv.accepted_sent seqNo accepted)
    · rw [List.length_append, inv.history_length]
      rfl
    · intro other member
      rcases List.mem_cons.mp member with hnew | hold
      · cases hnew
        exact Nat.lt_succ_self _
      · exact Nat.lt_succ_of_lt (inv.data_sent other hold)
    · intro ack member
      rcases List.mem_cons.mp member with hnew | hold
      · cases hnew
      · exact inv.acks_honest ack hold
  · cases sent

theorem inv_retransmit {next : State} {seqNo nowNs : Nat} (inv : Inv windowSize st)
    (sent : retransmit st seqNo nowNs = some next) :
    Inv windowSize next := by
  obtain ⟨slot, found, hnext⟩ := Option.map_eq_some_iff.mp sent
  subst hnext
  refine { inv with data_sent := ?_, acks_honest := ?_ }
  · intro other member
    rcases List.mem_cons.mp member with hnew | hold
    · cases hnew
      rw [SenderRegistry.lookup_seqNo found]
      exact inv.unsent seqNo slot found
    · exact inv.data_sent other hold
  · intro ack member
    rcases List.mem_cons.mp member with hnew | hold
    · cases hnew
    · exact inv.acks_honest ack hold

/-- A delivered block is never past the receiver's window. -/
theorem data_inside {block : DataDatagram} (inv : Inv windowSize st)
    (member : .data block ∈ st.network) :
    block.hdr.seqNo < st.rx.baseSeqNo + st.rx.windowSize := by
  have hsent := inv.data_sent block member
  have hwindow := inv.sender.window
  have hsender := inv.senderSize
  have hreceiver := inv.receiverSize
  have hbase : st.base ≤ st.rx.baseSeqNo :=
    Nat.le_of_not_lt fun hlt => inv.missing (inv.sender.below _ hlt)
  omega

theorem inv_deliverData {block : DataDatagram} (nowNs : Nat) (inv : Inv windowSize st)
    (member : .data block ∈ st.network) :
    Inv windowSize { st with
      rx := (st.rx.onReceive block.hdr.seqNo block.sendTimeNs nowNs).1 } := by
  have hsent := inv.data_sent block member
  have hinside := data_inside inv member
  have hbounded : block.hdr.seqNo < 2 ^ 64 - 1 := by
    have hmax := inv.sender.bounded
    omega
  rcases ReceiverStream.onReceive_cases inv.receiver hbounded block.sendTimeNs nowNs with
    ⟨_, hdup⟩ | ⟨hpast, _⟩ | ⟨_, _, after, hreceived, admits⟩
  · rw [hdup]
    exact inv
  · omega
  · rw [hreceived]
    have hgrown : ∀ seqNo, st.rx.Accepted seqNo → after.Accepted seqNo := fun seqNo accepted =>
      (admits.accepted seqNo).mpr (Or.inl accepted)
    refine ⟨inv.sender.mono (fun _ _ _ original => original) hgrown, inv.unsent, inv.senderSize,
      admits.window.trans inv.receiverSize, admits.inv, admits.missing, ?_, inv.history_length,
      inv.data_sent, ?_, admits.overflow.trans inv.overflow⟩
    · intro seqNo accepted
      rcases (admits.accepted seqNo).mp accepted with hold | hnew
      · exact inv.accepted_sent seqNo hold
      · rw [hnew]
        exact hsent
    · intro ack hack seqNo asserted
      exact hgrown seqNo (inv.acks_honest ack hack seqNo asserted)

theorem inv_sendAck (inv : Inv windowSize st) :
    Inv windowSize { st with network := .ack st.rx.buildAck :: st.network } := by
  refine { inv with data_sent := ?_, acks_honest := ?_ }
  · intro block member
    rcases List.mem_cons.mp member with hnew | hold
    · cases hnew
    · exact inv.data_sent block hold
  · intro ack member seqNo asserted
    rcases List.mem_cons.mp member with hnew | hold
    · cases hnew
      exact (st.rx.buildAck_asserts seqNo).mp asserted
    · exact inv.acks_honest ack hold seqNo asserted

theorem inv_deliverAck {ack : Ack} (inv : Inv windowSize st) (member : .ack ack ∈ st.network) :
    Inv windowSize (deliverAck st ack) := by
  have hhonest := inv.acks_honest ack member
  have hfrees := applyAck_frees st.reg ack none inv.sender.ordered
    (Nat.le_trans inv.sender.window (Nat.add_le_add_left st.reg.window_le _)) inv.sender.bounded
  exact { inv with
    sender := inv.sender.applyAck ack none fun seqNo _ asserted => hhonest seqNo asserted
    unsent := fun seqNo slot found => inv.unsent seqNo slot (hfrees.lookup_some found)
    senderSize := hfrees.window.trans inv.senderSize }

theorem inv_step (st : State) (event : Event) (next : State) (inv : Inv windowSize st)
    (stepped : step windowSize st event = some next) :
    Inv windowSize next := by
  cases event with
  | send block nowNs => exact inv_send inv stepped
  | retransmit seqNo nowNs => exact inv_retransmit inv stepped
  | deliverData block nowNs =>
    rw [step] at stepped
    split at stepped
    · rename_i member
      cases stepped
      exact inv_deliverData nowNs inv member
    · cases stepped
  | sendAck =>
    cases stepped
    exact inv_sendAck inv
  | deliverAck ack =>
    rw [step] at stepped
    split at stepped
    · rename_i member
      cases stepped
      exact inv_deliverAck inv member
    · cases stepped

/-- The receiver's base never passes the next number to be sent. -/
theorem base_le_nextSeq (inv : Inv windowSize st) : st.rx.baseSeqNo ≤ st.nextSeq := by
  cases hbase : st.rx.baseSeqNo with
  | zero => exact Nat.zero_le _
  | succ last =>
    apply inv.accepted_sent
    exact Or.inl (by omega)

/-- In every reachable state of a stream of any window, a block the receiver
lacks is resident with what it was first sent with, a block the sender has freed
was accepted, the two bases are ordered, and no block in flight is out of the
receiver's window. -/
theorem no_block_lost (streamId windowSize : Nat) (hpos : 1 ≤ windowSize)
    (hle : windowSize ≤ kMaxWindow) (st : State)
    (reached : Reachable (step windowSize) (initial streamId windowSize) st) :
    (∀ seqNo, seqNo < st.nextSeq → ¬ st.rx.Accepted seqNo →
      ∃ slot, st.reg.lookup seqNo = some slot ∧
        st.history[seqNo]? = some ⟨slot.payload, slot.offset, slot.flags⟩) ∧
    (∀ seqNo, seqNo < st.base ∨ (seqNo < st.nextSeq ∧ st.reg.lookup seqNo = none) →
      st.rx.Accepted seqNo) ∧
    (st.base ≤ st.rx.baseSeqNo ∧ st.rx.baseSeqNo ≤ st.nextSeq) ∧
    (st.rx.windowOverflowCount = 0 ∧
      ∀ block nowNs, .data block ∈ st.network →
        (st.rx.onReceive block.hdr.seqNo block.sendTimeNs nowNs).2 ≠ .outOfWindow) := by
  have inv : Inv windowSize st := reached.invariant inv_step (inv_initial streamId hpos hle)
  refine ⟨?_, ?_, ⟨?_, base_le_nextSeq inv⟩, inv.overflow, ?_⟩
  · intro seqNo sent lacking
    exact inv.sender.lookup_of_not_done sent lacking
  · rintro seqNo (hbelow | ⟨sent, freed⟩)
    · exact inv.sender.below seqNo hbelow
    · exact inv.sender.kept seqNo sent freed
  · exact Nat.le_of_not_lt fun hlt => inv.missing (inv.sender.below _ hlt)
  · intro block nowNs member
    have hsent := inv.data_sent block member
    have hmax := inv.sender.bounded
    have hinside := data_inside inv member
    have hbounded : block.hdr.seqNo < 2 ^ 64 - 1 := by omega
    rcases ReceiverStream.onReceive_cases inv.receiver hbounded block.sendTimeNs nowNs with
      ⟨_, houtcome⟩ | ⟨hpast, _⟩ | ⟨_, _, _, houtcome, _⟩
    · rw [houtcome]
      exact ReceiveResult.noConfusion
    · omega
    · rw [houtcome]
      exact ReceiveResult.noConfusion

/-- Of two blocks the first is lost; the second arrives and is acknowledged. -/
def lossyRun : List Event :=
  let lossy := [.send ⟨[10], 0, 0⟩ 5, .send ⟨[20], 1, kFlagLastBlock⟩ 6,
    .deliverData (datagramOf 3 1 6 [20] 1 kFlagLastBlock) 8, .sendAck]
  let last := (replay (step 4) (initial 3 4) lossy).getD (initial 3 4)
  lossy ++ [.deliverAck last.rx.buildAck]

theorem no_block_lost_lossyRun :
    ∃ st, replay (step 4) (initial 3 4) lossyRun = some st ∧
      (st.reg.lookup 1 = none ∧ st.rx.Accepted 1) ∧ ¬ st.rx.Accepted 0 ∧
      ∃ slot, st.reg.lookup 0 = some slot ∧
        st.history[0]? = some ⟨slot.payload, slot.offset, slot.flags⟩ := by
  obtain ⟨st, hreplay, hsent, hfreed, hlacking⟩ : ∃ st,
      replay (step 4) (initial 3 4) lossyRun = some st ∧ st.nextSeq = 2 ∧
        (st.reg.lookup 1).isNone = true ∧ ¬ st.rx.Accepted 0 := by decide +kernel
  have hnone := Option.isNone_iff_eq_none.mp hfreed
  obtain ⟨hresident, haccepted, _⟩ :=
    no_block_lost 3 4 (by decide) (by decide) st ⟨lossyRun, hreplay⟩
  exact ⟨st, hreplay, ⟨hnone, haccepted 1 (Or.inr ⟨by omega, hnone⟩)⟩, hlacking,
    hresident 0 (by omega) hlacking⟩

end FuseTransport.Proto.Arq
