import FuseTransport.Foundation.Runs
import FuseTransport.Proto.Block
import FuseTransport.Proto.Congestion
import FuseTransport.Proto.SendWindow
import FuseTransport.Proto.Setup

/-!
# The multiplexed sender's streams

Each stream of a multiplexed transfer keeps its own registry, congestion
controller and retransmission backlog.  Workers call `trySendOne` in any order;
incoming datagrams are dispatched to the stream they name.
-/

namespace FuseTransport.Mux

open Foundation Foundation.Runs Proto

def kStreamStartRtoNs : Nat := 50000000

structure SendQueue where
  items : List Nat := []
  cap : Nat
  coalesce : Bool
  dropped : Nat := 0
  deriving DecidableEq, Repr

namespace SendQueue

def create (capacity : Nat) (coalesce : Bool) : SendQueue :=
  { cap := if capacity = 0 then 1 else capacity, coalesce := coalesce }

def full (q : SendQueue) : Bool := q.items.length == q.cap

/-- Enqueue; a full queue refuses, or drops its oldest entry when it coalesces. -/
def push (q : SendQueue) (seqNo : Nat) : SendQueue × Bool :=
  if q.full then
    if q.coalesce = false then (q, false)
    else ({ q with items := q.items.tail ++ [seqNo], dropped := q.dropped + 1 }, true)
  else ({ q with items := q.items ++ [seqNo] }, true)

def pop (q : SendQueue) : Option (Nat × SendQueue) :=
  match q.items with
  | [] => none
  | seqNo :: rest => some (seqNo, { q with items := rest })

theorem pop_eq_some {q rest : SendQueue} {seqNo : Nat} (popped : q.pop = some (seqNo, rest)) :
    q.items = seqNo :: rest.items ∧ rest.cap = q.cap ∧ rest.coalesce = q.coalesce := by
  rw [pop] at popped
  split at popped
  · cases popped
  · rename_i hitems
    cases popped
    exact ⟨hitems, rfl, rfl⟩

theorem pop_eq_none {q : SendQueue} (popped : q.pop = none) : q.items = [] := by
  rw [pop] at popped
  split at popped
  · rename_i hitems
    exact hitems
  · cases popped

end SendQueue

/-! ## Stream state -/

/-- What a stream has done so far: the datagrams handed to the socket, the
blocks it sent for the first time, the acknowledgements it processed, each
with the next sequence number at that time, and the blocks it tried to send
again.  The code does not read it. -/
structure SenderLog where
  wire : List (List UInt8) := []
  history : List SentBlock := []
  acks : List (Ack × Nat) := []
  attempts : List Nat := []

/-- One sender stream; `data` is its shard. -/
structure SenderStreamState where
  streamId : Nat
  blockSize : Nat
  windowSize : Nat
  reg : SenderRegistry
  cc : CongestionController
  retransmitBacklog : SendQueue
  queued : Nat → Nat
  data : List UInt8
  txBase : Nat := 0
  txNextSeq : Nat := 0
  nextOffset : Nat := 0
  sentLast : Bool := false
  nonce : Nat
  clockOffset : Nat
  receivedEnd : Nat := 0
  startAcked : Bool := false
  lastStartSendNs : Nat := 0
  lastProgressNs : Nat
  lastRttEchoNs : Nat := 0
  retransmitCount : Nat := 0
  done : Bool := false
  lastRealProgressNs : Nat
  log : SenderLog := {}

namespace SenderStreamState

def create (streamId blockSize windowSize : Nat) (data : List UInt8)
    (nonce clockOffset nowNs : Nat) : SenderStreamState where
  streamId := streamId
  blockSize := blockSize
  windowSize := windowSize
  reg := SenderRegistry.create streamId windowSize
  cc := (CongestionController.create windowSize true 1 16).enableSlowStart 16
  retransmitBacklog := SendQueue.create windowSize false
  queued := fun _ => 2 ^ 64 - 1
  data := data
  nonce := nonce
  clockOffset := clockOffset
  lastProgressNs := nowNs
  lastRealProgressNs := nowNs

variable (s : SenderStreamState)

def queuedSize : Nat := if s.windowSize = 0 then 1 else s.windowSize

/-- `std::clamp`, which has a result only for ordered bounds. -/
def clamp (value low high : Nat) : Option Nat :=
  if high < low then none else some (if value < low then low else if high < value then high else value)

def effectiveWindow : Option Nat := clamp s.cc.window 4 s.windowSize

def resend (seq nowNs : Nat) (accepted : Bool) : SenderStreamState × Bool :=
  let s := { s with log := { s.log with attempts := seq :: s.log.attempts } }
  match s.reg.lookup seq with
  | none => (s, false)
  | some slot =>
    match encodeDataDatagram
        { streamId := s.streamId, seqNo := seq, flags := slot.flags ||| kFlagRetransmission,
          payloadLen := slot.payload.length, offset := slot.offset }
        (u64 (nowNs + s.clockOffset)) slot.payload kMaxDatagramSize with
    | none => (s, false)
    | some dgram =>
      if accepted then
        ({ s with
            retransmitCount := s.retransmitCount + 1
            log := { s.log with wire := dgram :: s.log.wire } }, true)
      else (s, false)

def resendHoles (nowNs : Nat) (accepted : Nat → Bool) :
    List Nat → Nat → SenderStreamState × Bool → SenderStreamState × Bool
  | [], _, acc => acc
  | q :: rest, holes, acc =>
    if holes ≥ 8 then acc
    else if q ≠ acc.1.txBase ∧ q ≥ acc.1.receivedEnd then acc
    else if (acc.1.reg.lookup q).isNone then resendHoles nowNs accepted rest holes acc
    else
      let sent := acc.1.resend q nowNs (accepted q)
      resendHoles nowNs accepted rest (holes + 1) (sent.1, acc.2 || sent.2)

def nextBlock : SentBlock :=
  let blen := min s.blockSize (s.data.length - s.nextOffset)
  { payload := (s.data.drop s.nextOffset).take blen
    offset := s.nextOffset
    flags := if s.nextOffset + blen ≥ s.data.length then kFlagLastBlock else 0 }

def sendNext (nowNs : Nat) : SenderStreamState × Bool :=
  let block := s.nextBlock
  let reg := (s.reg.store s.txNextSeq block.payload nowNs block.offset block.flags).getD s.reg
  match encodeDataDatagram
      { streamId := s.streamId, seqNo := s.txNextSeq, flags := block.flags,
        payloadLen := block.payload.length, offset := block.offset }
      (u64 (nowNs + s.clockOffset)) block.payload kMaxDatagramSize with
  | none => ({ s with reg := reg }, false)
  | some dgram =>
    ({ s with
        reg := reg
        txNextSeq := u64 (s.txNextSeq + 1)
        nextOffset := s.nextOffset + block.payload.length
        sentLast := s.sentLast || isLastBlock block.flags
        log := { s.log with
          wire := dgram :: s.log.wire, history := s.log.history ++ [block] } }, true)

def streamStart : StreamStart where
  streamId := s.streamId
  blockSize := s.blockSize
  totalBytes := s.data.length
  nonce := s.nonce

def trySendStart (nowNs : Nat) : SenderStreamState × Bool :=
  if s.lastStartSendNs ≠ 0 ∧ nowNs < u64 (s.lastStartSendNs + kStreamStartRtoNs) then (s, false)
  else match encodeStreamStart s.streamStart (kMaxAuxDatagramSize + 64) with
    | none => (s, false)
    | some ctl =>
      ({ s with lastStartSendNs := nowNs, log := { s.log with wire := ctl :: s.log.wire } }, true)

/-- One unit of sending work.  There is no result where the window's bounds are
out of order. -/
def trySendOne (nowNs : Nat) (accepted : Nat → Bool) : Option (SenderStreamState × Bool) :=
  if s.done then some (s, false)
  else if s.startAcked = false then some (s.trySendStart nowNs)
  else
    let s := { s with cc := s.cc.poll nowNs }
    match s.retransmitBacklog.pop with
    | some (seq, backlog) =>
      let mark := seq % s.queuedSize
      let s := { s with
        retransmitBacklog := backlog
        queued := if s.queued mark = seq then Function.update s.queued mark (2 ^ 64 - 1)
          else s.queued }
      some ((s.resend seq nowNs (accepted seq)).1, true)
    | none =>
      let rtoNs := s.cc.rtoNs 5000000 1000000000 1000000000
      if s.txBase < s.txNextSeq ∧ nowNs > u64 (s.lastProgressNs + rtoNs) then
        let sent := resendHoles nowNs accepted
          (List.range' s.txBase (s.txNextSeq - s.txBase)) 0 (s, false)
        let s := if sent.2 then { sent.1 with cc := sent.1.cc.onTimeout } else sent.1
        some ({ s with lastProgressNs := nowNs }, true)
      else
        s.effectiveWindow.map fun window =>
          if (s.nextOffset < s.data.length ∨ (s.data.length = 0 ∧ s.txNextSeq = 0)) ∧
              s.txNextSeq < u64 (s.txBase + window) then
            s.sendNext nowNs
          else (s, false)

def onAck (ack : Ack) (nowNs : Nat) : SenderStreamState :=
  if ack.nonce ≠ s.nonce then s
  else
    let applied := applyAck s.reg ack s.txBase s.txNextSeq (some s.receivedEnd)
    let moved := { s with
      startAcked := true
      reg := applied.reg
      txBase := applied.base
      receivedEnd := applied.receivedEnd.getD s.receivedEnd
      log := { s.log with acks := (ack, s.txNextSeq) :: s.log.acks } }
    let progressed :=
      if moved.txBase > s.txBase then
        { moved with
          cc := moved.cc.onProgress, lastProgressNs := nowNs, lastRealProgressNs := nowNs }
      else moved
    let sampled :=
      if ack.echoedSendTime > 0 ∧ ack.echoedSendTime ≠ progressed.lastRttEchoNs then
        { progressed with
          lastRttEchoNs := ack.echoedSendTime
          cc := progressed.cc.onRttSample
            (rttSampleFromEcho (u64 (nowNs + progressed.clockOffset)) ack.echoedSendTime) }
      else progressed
    if sampled.txBase ≥ sampled.txNextSeq ∧ sampled.sentLast then { sampled with done := true }
    else sampled

/-- One sequence number of a NACK: queued for a resend, or sent at once when the
backlog is full. -/
def onMissing (nowNs : Nat) (accepted : Nat → Bool) (s : SenderStreamState) (seq : Nat) :
    SenderStreamState :=
  let mark := seq % s.queuedSize
  if s.queued mark = seq then s
  else
    let pushed := s.retransmitBacklog.push seq
    if pushed.2 then
      { s with retransmitBacklog := pushed.1, queued := Function.update s.queued mark seq }
    else (s.resend seq nowNs (accepted seq)).1

def onNack (nack : Nack) (nowNs : Nat) (accepted : Nat → Bool) : SenderStreamState :=
  if s.done then s
  else nack.missing.foldl (onMissing nowNs accepted) { s with cc := s.cc.onLoss }

def dispatchIncoming (dg : List UInt8) (nowNs : Nat) (accepted : Nat → Bool) : SenderStreamState :=
  match peekMsgType dg with
  | some .ack =>
    match decodeAck dg with
    | some ack => if ack.streamId = s.streamId then s.onAck ack nowNs else s
    | none => s
  | some .nack =>
    match decodeNack dg with
    | some nack => if nack.streamId = s.streamId then s.onNack nack nowNs accepted else s
    | none => s
  | _ => s

/-! ## What a step leaves alone -/

/-- The window, the registry and their record are the same in both states. -/
structure Unmoved (before after : SenderStreamState) : Prop where
  blockSize : after.blockSize = before.blockSize
  windowSize : after.windowSize = before.windowSize
  reg : after.reg = before.reg
  txBase : after.txBase = before.txBase
  txNextSeq : after.txNextSeq = before.txNextSeq
  history : after.log.history = before.log.history
  acks : after.log.acks = before.log.acks

theorem Unmoved.refl : Unmoved s s :=
  ⟨rfl, rfl, rfl, rfl, rfl, rfl, rfl⟩

theorem Unmoved.trans {before middle after : SenderStreamState} (first : Unmoved before middle)
    (second : Unmoved middle after) : Unmoved before after :=
  ⟨second.blockSize.trans first.blockSize, second.windowSize.trans first.windowSize,
    second.reg.trans first.reg, second.txBase.trans first.txBase,
    second.txNextSeq.trans first.txNextSeq, second.history.trans first.history,
    second.acks.trans first.acks⟩

structure SameShard (before after : SenderStreamState) : Prop where
  streamId : after.streamId = before.streamId
  data : after.data = before.data
  nonce : after.nonce = before.nonce
  nextOffset : after.nextOffset = before.nextOffset

/-- The retransmission backlog and its marks are the same in both states. -/
structure SameBacklog (before after : SenderStreamState) : Prop where
  retransmitBacklog : after.retransmitBacklog = before.retransmitBacklog
  queued : after.queued = before.queued

/-- A datagram of a stream that carries no new block: its StreamStart, or a resident block
once more. -/
inductive Again (s : SenderStreamState) (dg : List UInt8) : Prop where
  | start (encoded : encodeStreamStart s.streamStart (kMaxAuxDatagramSize + 64) = some dg)
  | block {seq : Nat} {slot : RegistrySlot} (resident : s.reg.lookup seq = some slot) (sendNs : Nat)
      (encoded : encodeDataDatagram
        { streamId := s.streamId, seqNo := seq, flags := slot.flags ||| kFlagRetransmission,
          payloadLen := slot.payload.length, offset := slot.offset }
        (u64 sendNs) slot.payload kMaxDatagramSize = some dg)

/-- Work that sends no new block and leaves the backlog alone; it tries to resend `seqs`. -/
structure Repeats (before after : SenderStreamState) (seqs : List Nat) : Prop where
  unmoved : Unmoved before after
  shard : SameShard before after
  backlog : SameBacklog before after
  done : after.done = before.done
  attempts : after.log.attempts = seqs ++ before.log.attempts
  wire : ∀ dg ∈ after.log.wire, dg ∈ before.log.wire ∨ Again before dg

theorem Again.of_unmoved {before after : SenderStreamState} {dg : List UInt8}
    (unmoved : Unmoved before after) (shard : SameShard before after) (again : Again after dg) :
    Again before dg := by
  have hstart : after.streamStart = before.streamStart := by
    simp only [streamStart, shard.streamId, unmoved.blockSize, shard.data, shard.nonce]
  cases again with
  | start encoded => exact .start (hstart ▸ encoded)
  | block resident sendNs encoded =>
    rw [unmoved.reg] at resident
    rw [shard.streamId] at encoded
    exact .block resident sendNs encoded

namespace Repeats

/-- A change of anything that is not recorded here. -/
theorem quiet {before after : SenderStreamState} (unmoved : Unmoved before after)
    (shard : SameShard before after) (backlog : SameBacklog before after)
    (done : after.done = before.done) (log : after.log = before.log) : Repeats before after [] :=
  ⟨unmoved, shard, backlog, done, by rw [log]; rfl, fun _ member => Or.inl (log ▸ member)⟩

theorem refl (s : SenderStreamState) : Repeats s s [] :=
  quiet (Unmoved.refl s) ⟨rfl, rfl, rfl, rfl⟩ ⟨rfl, rfl⟩ rfl rfl

theorem trans {before middle after : SenderStreamState} {first second : List Nat}
    (earlier : Repeats before middle first) (later : Repeats middle after second) :
    Repeats before after (second ++ first) where
  unmoved := earlier.unmoved.trans later.unmoved
  shard := ⟨later.shard.streamId.trans earlier.shard.streamId,
    later.shard.data.trans earlier.shard.data, later.shard.nonce.trans earlier.shard.nonce,
    later.shard.nextOffset.trans earlier.shard.nextOffset⟩
  backlog := ⟨later.backlog.retransmitBacklog.trans earlier.backlog.retransmitBacklog,
    later.backlog.queued.trans earlier.backlog.queued⟩
  done := later.done.trans earlier.done
  attempts := by rw [later.attempts, earlier.attempts, List.append_assoc]
  wire := by
    intro dg member
    rcases later.wire dg member with hmiddle | hagain
    · exact earlier.wire dg hmiddle
    · exact Or.inr (hagain.of_unmoved earlier.unmoved earlier.shard)

end Repeats

variable (s : SenderStreamState) (nowNs : Nat) (accepted : Nat → Bool)

theorem resend_repeats (seq nowNs : Nat) (accepted : Bool) :
    Repeats s (s.resend seq nowNs accepted).1 [seq] := by
  have hunsent : Repeats s
      { s with log := { s.log with attempts := seq :: s.log.attempts } } [seq] :=
    ⟨⟨rfl, rfl, rfl, rfl, rfl, rfl, rfl⟩, ⟨rfl, rfl, rfl, rfl⟩, ⟨rfl, rfl⟩, rfl, rfl,
      fun _ member => Or.inl member⟩
  unfold resend
  dsimp only
  split
  · exact hunsent
  · rename_i slot hslot
    split
    · exact hunsent
    · rename_i dgram hencoded
      cases accepted with
      | false => exact hunsent
      | true =>
        refine ⟨⟨rfl, rfl, rfl, rfl, rfl, rfl, rfl⟩, ⟨rfl, rfl, rfl, rfl⟩, ⟨rfl, rfl⟩, rfl, rfl, ?_⟩
        intro dg member
        rcases List.mem_cons.mp member with rfl | hold
        · exact Or.inr (.block hslot _ hencoded)
        · exact Or.inl hold

theorem resendHoles_repeats (seqs : List Nat) (holes : Nat) (acc : SenderStreamState × Bool) :
    ∃ tried, Repeats acc.1 (resendHoles nowNs accepted seqs holes acc).1 tried := by
  induction seqs generalizing holes acc with
  | nil => exact ⟨[], Repeats.refl acc.1⟩
  | cons q rest ih =>
    rw [resendHoles]
    split
    · exact ⟨[], Repeats.refl acc.1⟩
    · split
      · exact ⟨[], Repeats.refl acc.1⟩
      · split
        · exact ih holes acc
        · obtain ⟨tried, hrest⟩ := ih (holes + 1) ((acc.1.resend q nowNs (accepted q)).1,
            acc.2 || (acc.1.resend q nowNs (accepted q)).2)
          exact ⟨_, (resend_repeats acc.1 q nowNs (accepted q)).trans hrest⟩

theorem trySendStart_repeats : Repeats s (s.trySendStart nowNs).1 [] := by
  unfold trySendStart
  split
  · exact Repeats.refl s
  · split
    · exact Repeats.refl s
    · rename_i ctl hencoded
      refine ⟨⟨rfl, rfl, rfl, rfl, rfl, rfl, rfl⟩, ⟨rfl, rfl, rfl, rfl⟩, ⟨rfl, rfl⟩, rfl, rfl, ?_⟩
      intro dg member
      rcases List.mem_cons.mp member with rfl | hold
      · exact Or.inr (.start hencoded)
      · exact Or.inl hold

/-- The oldest entry of the backlog has been taken out, and its mark with it. -/
structure Popped (before after : SenderStreamState) (seq : Nat) : Prop where
  unmoved : Unmoved before after
  shard : SameShard before after
  done : after.done = before.done
  log : after.log = before.log
  cap : after.retransmitBacklog.cap = before.retransmitBacklog.cap
  coalesce : after.retransmitBacklog.coalesce = before.retransmitBacklog.coalesce
  items : before.retransmitBacklog.items = seq :: after.retransmitBacklog.items
  queued : after.queued =
    if before.queued (seq % before.queuedSize) = seq then
      Function.update before.queued (seq % before.queuedSize) (2 ^ 64 - 1)
    else before.queued

/-- What a unit of sending work can do.  A new block is sent only when nothing waits to be
sent again. -/
inductive Tried (s : SenderStreamState) (nowNs : Nat) : SenderStreamState → Prop where
  | repeated {next : SenderStreamState} {seqs : List Nat} (again : Repeats s next seqs) :
      Tried s nowNs next
  | popped {seq : Nat} {middle next : SenderStreamState} (taken : Popped s middle seq)
      (again : Repeats middle next [seq]) : Tried s nowNs next
  | sent {polled : SenderStreamState} {window : Nat} (running : s.done = false)
      (none : s.retransmitBacklog.items = [])
      (poll : Repeats s polled []) (found : polled.effectiveWindow = some window)
      (left : polled.nextOffset < polled.data.length ∨
        (polled.data.length = 0 ∧ polled.txNextSeq = 0))
      (guard : polled.txNextSeq < u64 (polled.txBase + window)) :
      Tried s nowNs (polled.sendNext nowNs).1

theorem trySendOne_tried {s next : SenderStreamState} {nowNs : Nat} {accepted : Nat → Bool}
    {did : Bool} (sent : s.trySendOne nowNs accepted = some (next, did)) : Tried s nowNs next := by
  have hpoll : Repeats s { s with cc := s.cc.poll nowNs } [] :=
    Repeats.quiet ⟨rfl, rfl, rfl, rfl, rfl, rfl, rfl⟩ ⟨rfl, rfl, rfl, rfl⟩ ⟨rfl, rfl⟩ rfl rfl
  unfold trySendOne at sent
  split at sent
  · cases sent
    exact .repeated (Repeats.refl s)
  · rename_i hrunning
    split at sent
    · have hstart := trySendStart_repeats s nowNs
      rw [Option.some.inj sent] at hstart
      exact .repeated hstart
    · dsimp only at sent
      split at sent
      · rename_i seq backlog hpop
        cases sent
        obtain ⟨hitems, hcap, hcoalesce⟩ := SendQueue.pop_eq_some hpop
        refine .popped ?_ (resend_repeats _ seq nowNs (accepted seq))
        exact ⟨⟨rfl, rfl, rfl, rfl, rfl, rfl, rfl⟩, ⟨rfl, rfl, rfl, rfl⟩, rfl, rfl, hcap, hcoalesce,
          hitems, rfl⟩
      · rename_i hpop
        split at sent
        · cases sent
          obtain ⟨tried, hholes⟩ := resendHoles_repeats nowNs accepted
            (List.range' s.txBase (s.txNextSeq - s.txBase)) 0
            ({ s with cc := s.cc.poll nowNs }, false)
          split
          · exact .repeated ((hpoll.trans hholes).trans (Repeats.quiet
              ⟨rfl, rfl, rfl, rfl, rfl, rfl, rfl⟩ ⟨rfl, rfl, rfl, rfl⟩ ⟨rfl, rfl⟩ rfl rfl))
          · exact .repeated ((hpoll.trans hholes).trans (Repeats.quiet
              ⟨rfl, rfl, rfl, rfl, rfl, rfl, rfl⟩ ⟨rfl, rfl, rfl, rfl⟩ ⟨rfl, rfl⟩ rfl rfl))
        · obtain ⟨window, hwindow, hsent⟩ := Option.map_eq_some_iff.mp sent
          split at hsent
          · rename_i guard
            have hnext := congrArg Prod.fst hsent
            dsimp only at hnext
            rw [← hnext]
            exact .sent (Bool.eq_false_iff.mpr hrunning) (SendQueue.pop_eq_none hpop) hpoll hwindow
              guard.1 guard.2
          · cases hsent
            exact .repeated hpoll

/-- A unit of sending work either leaves the window alone or sends the next
block into room the effective window gives it. -/
theorem trySendOne_cases {s next : SenderStreamState} {nowNs : Nat} {accepted : Nat → Bool}
    {did : Bool} (sent : s.trySendOne nowNs accepted = some (next, did)) :
    Unmoved s next ∨
      ∃ polled window, Unmoved s polled ∧ polled.effectiveWindow = some window ∧
        polled.txNextSeq < u64 (polled.txBase + window) ∧ next = (polled.sendNext nowNs).1 := by
  cases trySendOne_tried sent with
  | repeated again => exact Or.inl again.unmoved
  | popped taken again => exact Or.inl (taken.unmoved.trans again.unmoved)
  | sent running none poll found left guard => exact Or.inr ⟨_, _, poll.unmoved, found, guard, rfl⟩

theorem onMissing_unmoved (s : SenderStreamState)
    (seq : Nat) : Unmoved s (onMissing nowNs accepted s seq) := by
  unfold onMissing
  dsimp only
  split
  · exact Unmoved.refl s
  · split
    · exact ⟨rfl, rfl, rfl, rfl, rfl, rfl, rfl⟩
    · exact (resend_repeats s seq nowNs (accepted seq)).unmoved

theorem foldl_onMissing_unmoved (missing : List Nat)
    (s : SenderStreamState) : Unmoved s (missing.foldl (onMissing nowNs accepted) s) := by
  induction missing generalizing s with
  | nil => exact Unmoved.refl s
  | cons seq rest ih => exact (onMissing_unmoved nowNs accepted s seq).trans (ih _)

theorem onNack_unmoved (nack : Nack) (nowNs : Nat)
    (accepted : Nat → Bool) : Unmoved s (s.onNack nack nowNs accepted) := by
  unfold onNack
  split
  · exact Unmoved.refl s
  · have hloss : Unmoved s { s with cc := s.cc.onLoss } := ⟨rfl, rfl, rfl, rfl, rfl, rfl, rfl⟩
    exact hloss.trans (foldl_onMissing_unmoved nowNs accepted nack.missing _)

/-- What one requested number can do: its mark is there, it joins the backlog, or the backlog
is full and it is sent again at once. -/
inductive Requested (s : SenderStreamState) (seq : Nat) : SenderStreamState → Prop where
  | waiting (marked : s.queued (seq % s.queuedSize) = seq) : Requested s seq s
  | joined {next : SenderStreamState} (unmarked : s.queued (seq % s.queuedSize) ≠ seq)
      (unmoved : Unmoved s next) (shard : SameShard s next) (done : next.done = s.done)
      (log : next.log = s.log)
      (items : next.retransmitBacklog.items = s.retransmitBacklog.items ++ [seq])
      (coalesce : next.retransmitBacklog.coalesce = s.retransmitBacklog.coalesce)
      (queued : next.queued = Function.update s.queued (seq % s.queuedSize) seq) :
      Requested s seq next
  | atOnce {next : SenderStreamState} (again : Repeats s next [seq]) : Requested s seq next

theorem onMissing_requested {s : SenderStreamState}
    (waits : s.retransmitBacklog.coalesce = false) (seq : Nat) :
    Requested s seq (onMissing nowNs accepted s seq) := by
  unfold onMissing
  dsimp only
  split
  · rename_i hmarked
    exact .waiting hmarked
  · rename_i hunmarked
    cases hfull : s.retransmitBacklog.full with
    | true =>
      rw [SendQueue.push, if_pos hfull, if_pos waits]
      exact .atOnce (resend_repeats s seq nowNs (accepted seq))
    | false =>
      rw [SendQueue.push, hfull]
      exact .joined hunmarked ⟨rfl, rfl, rfl, rfl, rfl, rfl, rfl⟩ ⟨rfl, rfl, rfl, rfl⟩ rfl rfl rfl
        rfl rfl

/-- An acknowledgement changes neither the shard nor the backlog, and sends nothing. -/
theorem onAck_keeps (ack : Ack) (nowNs : Nat) :
    SameShard s (s.onAck ack nowNs) ∧ SameBacklog s (s.onAck ack nowNs) ∧
      (s.onAck ack nowNs).log.wire = s.log.wire ∧
      (s.onAck ack nowNs).log.history = s.log.history ∧
      (s.onAck ack nowNs).log.attempts = s.log.attempts := by
  unfold onAck
  dsimp only
  repeat' split
  all_goals exact ⟨⟨rfl, rfl, rfl, rfl⟩, ⟨rfl, rfl⟩, rfl, rfl, rfl⟩

end SenderStreamState

end FuseTransport.Mux
