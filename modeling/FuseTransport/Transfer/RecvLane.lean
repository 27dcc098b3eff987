import FuseTransport.Proto.Receiver
import FuseTransport.Proto.RoundTrip
import FuseTransport.Transfer.Pipeline

/-!
# The receiving end of a transfer

One reader for each lane owns the lane's window; consumers write the blocks; the
call ends when every reader has left.  Datagrams, timers, failures of the backend
and of the output, and the order in which the threads run are inputs.
-/

namespace FuseTransport.Transfer

open Foundation Proto

inductive TransferStatus where
  | ok
  | configError
  | socketError
  | timeout
  | authFailed
  | incomplete
  | unsupported
  | resourceLimit
  | cancelled
  | peerAborted
  | ioError
  | verifyFailed
  | versionMismatch
  deriving DecidableEq, Repr

/-- How much a status dominates the others when lanes disagree. -/
def severity : TransferStatus → Nat
  | .ok => 0
  | .incomplete => 1
  | .timeout => 2
  | .peerAborted => 3
  | .cancelled => 4
  | .authFailed => 5
  | .verifyFailed => 6
  | .resourceLimit => 7
  | .ioError => 8
  | .socketError => 9
  | .versionMismatch => 10
  | .configError => 11
  | .unsupported => 11

def worst (statuses : List TransferStatus) : TransferStatus :=
  statuses.foldl (fun st s => if severity s > severity st then s else st) .ok

theorem severity_le_worst (statuses : List TransferStatus) (st : TransferStatus) :
    severity st ≤ severity (statuses.foldl
        (fun st s => if severity s > severity st then s else st) st) ∧
      ∀ s ∈ statuses, severity s ≤ severity (statuses.foldl
        (fun st s => if severity s > severity st then s else st) st) := by
  induction statuses generalizing st with
  | nil => exact ⟨Nat.le_refl _, fun s member => by cases member⟩
  | cons first rest ih =>
    obtain ⟨hstart, hrest⟩ := ih (if severity first > severity st then first else st)
    have hboth : severity st ≤ severity (if severity first > severity st then first else st) ∧
        severity first ≤ severity (if severity first > severity st then first else st) := by
      split
      · rename_i hworse
        exact ⟨Nat.le_of_lt hworse, Nat.le_refl _⟩
      · rename_i hbetter
        exact ⟨Nat.le_refl _, Nat.not_lt.mp hbetter⟩
    refine ⟨Nat.le_trans hboth.1 hstart, fun s member => ?_⟩
    rcases List.mem_cons.mp member with rfl | hmember
    · exact Nat.le_trans hboth.2 hstart
    · exact hrest s hmember

theorem eq_ok_of_severity {s : TransferStatus} (least : severity s ≤ 0) : s = .ok := by
  cases s with
  | ok => rfl
  | _ => exact absurd least (by decide)

/-- The worst status is success only if every status is. -/
theorem worst_ok {statuses : List TransferStatus} (ok : worst statuses = .ok) :
    ∀ s ∈ statuses, s = .ok := by
  intro s member
  have hbound := (severity_le_worst statuses .ok).2 s member
  rw [worst] at ok
  rw [ok] at hbound
  exact eq_ok_of_severity hbound

/-! ## State -/

def roundUpPow2From : Nat → Nat → Nat → Nat
  | 0, p, _ => p
  | fuel + 1, p, v => if p < v then roundUpPow2From fuel (p * 2) v else p

def ringCapacity (minCapacity : Nat) : Nat := roundUpPow2From 64 1 (max minCapacity 2)

/-- The port range of a call leaves it a positive number of lanes below 2¹⁶. -/
structure RxConfig where
  lanes : Nat
  lanes_pos : 0 < lanes := by first | exact Nat.one_pos | decide
  lanes_fit : lanes < 2 ^ 16 := by first | exact one_lt_short | decide
  writerThreads : Nat := 1
  ringSlots : Nat := 16
  keyed : Option Keyed := none

namespace RxConfig

variable (cfg : RxConfig)

def writers : Nat := max 1 cfg.writerThreads

theorem writers_pos : 0 < cfg.writers :=
  Nat.lt_of_lt_of_le Nat.zero_lt_one (Nat.le_max_left _ _)

def slots : Nat := min (max cfg.ringSlots 16) (2 ^ 16)

/-- Channel `k` below `writers` leads to writer `k`, channel `writers` to the
retransmission thread. -/
def capacity (k : Nat) : Nat :=
  ringCapacity (if k = cfg.writers then max 16 (cfg.slots / 4) else cfg.slots)

end RxConfig

inductive SinkState where
  | pending
  | ready
  | failed
  deriving DecidableEq, Repr

/-- What the lanes of one call share.  The code does not keep `writes`, the blocks
the sink has taken. -/
structure Shared where
  sink : Sink
  fileTotal : Nat := kNone
  sinkState : SinkState := .pending
  ioFailed : Bool := false
  digest : Option (List UInt8) := none
  writes : List Write := []

/-- What has happened to a lane's blocks: the slots its consumers have handled with
what they reported, the completions the reader has taken with the window's answer,
and the parts it asked for.  The code does not read it. -/
structure LaneLog where
  handled : List (PacketSlot × Completion) := []
  taken : List (Completion × Option ReceiveResult) := []
  want : List ResumeRange := []

/-- One lane: the reader's variables, its rings and its result.  `lag` is how many blocks
consumers have taken from a ring since the reader last looked at their counter. -/
structure RecvLane where
  rx : ReceiverStream
  dispatched : Nat → Nat := fun _ => kNone
  pending : Nat := 0
  laneBase : Nat := 0
  shardBytes : Nat := 0
  finalSeq : Nat := kNone
  written : Nat := 0
  expectedBytes : Nat := 0
  resumeAnswer : List Sent := []
  delivered : Nat := 0
  authFailures : Nat := 0
  badStarts : Nat := 0
  haveStart : Bool := false
  peerFinished : Bool := false
  peerAborted : Bool := false
  peerNonce : Nat := 0
  key : Option (List UInt8) := none
  signer : Option Signer := none
  rings : Nat → List PacketSlot := fun _ => []
  lag : Nat → Nat := fun _ => 0
  dones : Nat → List Completion := fun _ => []
  status : Option TransferStatus := none
  log : LaneLog := {}

namespace RecvLane

def create (lane : Nat) : RecvLane where
  rx := ReceiverStream.create lane kWindow true

/-- What the backend, the allocator and the clock decide while a datagram is
handled. -/
structure Inputs where
  wantToken : Nat := 0
  derives : Bool := true
  prepares : Bool := true
  replies : Bool := true
  works : Nat → Bool := fun _ => true

/-- What a consumer of the lane reads from a block, when it is authentic. -/
def opens (keyed : Option Keyed) (L : RecvLane) (lane : Nat) (d : DataDatagram) :
    Option (List UInt8) :=
  match keyed with
  | none => some d.payload
  | some k => L.key.bind fun key => unprotect (some (blockCipher k.backend key lane)) lane d

/-- The keys an opening message proves: nothing in the clear, and under a
pre-shared key the session key of its own salt. -/
def trial (keyed : Option Keyed) (lane : Nat) (ss : StreamStart) (dg : List UInt8) (derives : Bool) :
    Option (Option (List UInt8) × Option Signer) :=
  let salted := ss.sessionSalt.any fun b => b != 0
  match keyed with
  | none => if salted then none else some (none, none)
  | some k =>
    let key := k.deriveSessionKey ss.sessionSalt
    let signer : Signer := ⟨k.backend, ControlAuth.init k.backend key lane 1⟩
    if salted && derives && ctlAuthentic (some signer) dg then some (some key, some signer) else none

def claim (sh : Shared) (prepares : Bool) (ss : StreamStart) : Option Shared :=
  if sh.fileTotal = kNone then
    match sh.sink.prepare prepares ss.fileTotalBytes ss.fileId with
    | some sink =>
      some { sh with fileTotal := ss.fileTotalBytes, sink := sink, sinkState := .ready }
    | none => some { sh with fileTotal := ss.fileTotalBytes, sinkState := .failed }
  else if sh.fileTotal = ss.fileTotalBytes then some sh else none

/-- The parts of a lane that are still needed, relative to the lane. -/
def wanted (sink : Sink) (laneBase shardBytes : Nat) : List ResumeRange :=
  coarsenRanges
    ((sink.missing laneBase (laneBase + shardBytes)).map
      fun r => { r with offset := r.offset - laneBase })
    kMaxResumeRanges

variable (cfg : RxConfig) (L : RecvLane)

def join (sh : Shared) (lane : Nat) (ss : StreamStart) (works : Nat → Bool)
    (keys : Option (List UInt8) × Option Signer) : RecvLane :=
  let want := wanted sh.sink ss.streamBaseOffset ss.totalBytes
  let answer := encodeResumeAnswer keys.2 works lane ss.nonce sh.sink.resumed want
  { L with
    key := keys.1
    signer := answer.2
    haveStart := true
    peerNonce := ss.nonce
    laneBase := ss.streamBaseOffset
    shardBytes := ss.totalBytes
    expectedBytes := u64 (want.map fun r => r.length).sum
    resumeAnswer := answer.1
    log := { L.log with want := want } }

def onStreamStart (lane : Nat) (inp : Inputs) (sh : Shared) (L : RecvLane)
    (dg : List UInt8) (ss : StreamStart) : Shared × RecvLane × List Sent :=
  if ss.token ≠ inp.wantToken then
    (sh, L, ((encodeRetry { streamId := lane, nonce := ss.nonce, token := inp.wantToken }
      (kMaxAuxDatagramSize + 64)).map fun bytes => ⟨bytes, none⟩).toList)
  else if L.haveStart then
    if ss.nonce = L.peerNonce ∧ ctlAuthentic L.signer dg then (sh, L, L.resumeAnswer)
    else (sh, L, [])
  else match trial cfg.keyed lane ss dg inp.derives with
    | none =>
      (sh, { L with badStarts := L.badStarts + 1 },
        if inp.replies then (sendStreamClose none true lane ss.nonce kStreamCloseAuthFailed).1
        else [])
    | some keys =>
      if ss.totalBytes > ss.fileTotalBytes ∨
          ss.streamBaseOffset > ss.fileTotalBytes - ss.totalBytes then (sh, L, [])
      else match claim sh inp.prepares ss with
        | none => (sh, L, [])
        | some claimed =>
          match claimed.sinkState with
          | .failed => (claimed, { L with status := some .resourceLimit }, [])
          | .pending => (claimed, L, [])
          | .ready =>
            let joined := L.join claimed lane ss inp.works keys
            (claimed, joined, joined.resumeAnswer)

def onStreamClose (dg : List UInt8) (sc : StreamClose) : RecvLane :=
  if L.haveStart then
    if sc.nonce ≠ L.peerNonce ∨ ctlAuthentic L.signer dg = false then L
    else if sc.reason = kStreamCloseAborted then { L with peerAborted := true }
    else { L with peerFinished := true }
  else if sc.reason = kStreamCloseAborted ∧ cfg.keyed.isNone then { L with peerAborted := true }
  else L

/-- A challenge is answered; an answer only concerns the peer's address. -/
def onPathProbe (lane : Nat) (works : Bool) (L : RecvLane) (dg : List UInt8) (type : MsgType)
    (pp : PathProbe) : RecvLane × List Sent :=
  if L.haveStart = false ∨ pp.nonce ≠ L.peerNonce ∨ ctlAuthentic L.signer dg = false then (L, [])
  else if type = .pathChallenge then
    let out := sendPathProbe L.signer works .pathResponse lane L.peerNonce pp.challenge
    ({ L with signer := out.2 }, out.1)
  else (L, [])

def onFileDigest (lane : Nat) (works : Bool) (sh : Shared) (L : RecvLane) (dg : List UInt8)
    (dm : DigestMessage) : Shared × RecvLane × List Sent :=
  if lane ≠ 0 ∨ L.haveStart = false ∨ dm.nonce ≠ L.peerNonce ∨ ctlAuthentic L.signer dg = false then
    (sh, L, [])
  else
    let out := sealCtl L.signer works (encodeDigest dm (kMaxAuxDatagramSize + 64))
      (kMaxAuxDatagramSize + 64)
    ({ sh with digest := some (sh.digest.getD dm.digest) }, { L with signer := out.2 }, out.1.toList)

/-- The channel a block is routed to. -/
def route (hdr : BlockHeader) : Nat :=
  if isRetransmission hdr.flags then cfg.writers else (hdr.seqNo / kRouteRun) % cfg.writers

/-- The lag of a ring once the reader has asked for its free slots: it looks at the
consumer's counter only when the ring seems full. -/
def lagSeen (k : Nat) : Nat :=
  if (L.rings k).length + L.lag k = cfg.capacity k then 0 else L.lag k

/-- The slots of a ring the reader knows to be free. -/
def writable (k : Nat) : Nat :=
  cfg.capacity k - ((L.rings k).length + L.lagSeen cfg k)

def dispatchable (d : DataDatagram) : Bool :=
  L.rx.baseSeqNo ≤ d.hdr.seqNo && d.hdr.seqNo - L.rx.baseSeqNo < kWindow &&
    !L.rx.isReceived (d.hdr.seqNo - L.rx.baseSeqNo) &&
    L.dispatched (d.hdr.seqNo % kWindow) ≠ d.hdr.seqNo &&
    L.writable cfg (route cfg d.hdr) ≠ 0

/-- Copy the datagram into a slot of the block's ring.  The copy is as long as the
datagram; one longer than the slot has no defined outcome. -/
def dispatch (dg : List UInt8) (d : DataDatagram) : Option RecvLane :=
  if fits : dg.length ≤ kMaxDatagramSize then
    some { L with
      rings := Function.update L.rings (route cfg d.hdr)
        (L.rings (route cfg d.hdr) ++ [⟨L.laneBase, L.shardBytes, dg, fits⟩])
      lag := Function.update L.lag (route cfg d.hdr) (L.lagSeen cfg (route cfg d.hdr))
      dispatched := Function.update L.dispatched (d.hdr.seqNo % kWindow) d.hdr.seqNo
      pending := L.pending + 1 }
  else none

/-- A block datagram that passes all of the reader's checks. -/
def passes (dg : List UInt8) : Option DataDatagram :=
  if L.haveStart then
    (decodeDataDatagram dg).filter fun d => dispatchable cfg L d
  else none

/-- One datagram from the socket. -/
def onDatagram (lane : Nat) (inp : Inputs) (sh : Shared) (L : RecvLane)
    (dg : List UInt8) : Option (Shared × RecvLane × List Sent) :=
  match peekMsgType dg with
  | some .streamStart =>
    match decodeStreamStart dg with
    | none => some (sh, L, [])
    | some ss => some (onStreamStart cfg lane inp sh L dg ss)
  | some .streamClose =>
    match decodeStreamClose dg with
    | none => some (sh, L, [])
    | some sc => some (sh, onStreamClose cfg L dg sc, [])
  | some .pathChallenge =>
    match decodePathProbe .pathChallenge dg with
    | none => some (sh, L, [])
    | some pp => some (sh, onPathProbe lane (inp.works 0) L dg .pathChallenge pp)
  | some .pathResponse =>
    match decodePathProbe .pathResponse dg with
    | none => some (sh, L, [])
    | some pp => some (sh, onPathProbe lane (inp.works 0) L dg .pathResponse pp)
  | some .fileDigest =>
    match decodeDigest dg with
    | none => some (sh, L, [])
    | some dm => some (onFileDigest lane (inp.works 0) sh L dg dm)
  | some .data =>
    match passes cfg L dg with
    | none => some (sh, L, [])
    | some d => (dispatch cfg L dg d).map fun next => (sh, next, [])
  | _ => some (sh, L, [])

/-- The number of blocks a consumer takes: what there is, what it can report, and
at most a batch. -/
def batchSize (k : Nat) : Nat :=
  min (min (L.rings k).length (cfg.capacity k - (L.dones k).length)) kWriteBatch

def drainChannel (lane k count : Nat) (failsAfter : Nat → Option Nat)
    (sh : Shared) (L : RecvLane) : Shared × RecvLane :=
  let n := min count (batchSize cfg L k)
  let taken := (L.rings k).take n
  let batch := writeRuns lane failsAfter 0 { sink := sh.sink, ioFailed := sh.ioFailed }
    (runs (taken.map (examine (opens cfg.keyed L lane))))
  ({ sh with
      sink := batch.sink
      ioFailed := batch.ioFailed
      writes := sh.writes ++ batch.writes },
    { L with
      rings := Function.update L.rings k ((L.rings k).drop n)
      lag := Function.update L.lag k (L.lag k + taken.length)
      dones := Function.update L.dones k (L.dones k ++ batch.completions)
      log := { L.log with handled := L.log.handled ++ taken.zip batch.completions } })

/-- The block is no longer with a consumer. -/
def handBack (c : Completion) : RecvLane :=
  { L with
    pending := L.pending - 1
    dispatched :=
      if L.dispatched (c.seq % kWindow) = c.seq then
        Function.update L.dispatched (c.seq % kWindow) kNone
      else L.dispatched }

def note (c : Completion) (answer : Option ReceiveResult) : RecvLane :=
  { L with log := { L.log with taken := L.log.taken ++ [(c, answer)] } }

/-- Take one verdict; only here does a block enter the window. -/
def takeResult (nowNs : Nat) (L : RecvLane) (c : Completion) : RecvLane :=
  let back := L.handBack c
  match c.result with
  | .authFailed => { back.note c none with authFailures := L.authFailures + 1 }
  | .ioFailed => back.note c none
  | .written =>
    let out := L.rx.onReceive c.seq c.sendTime nowNs
    let seen : RecvLane :=
      { back.note c (some out.2) with
        finalSeq := if isLastBlock c.flags then c.seq else L.finalSeq
        rx := out.1 }
    if out.2 = .accepted then
      { seen with written := u64 (L.written + c.bytes), delivered := L.delivered + 1 }
    else seen

def setDones (dones : Nat → List Completion) : RecvLane := { L with dones := dones }

def drainResults (nowNs k count : Nat) (L : RecvLane) : RecvLane :=
  (((L.dones k).take count).foldl (takeResult nowNs) L).setDones
    (Function.update L.dones k ((L.dones k).drop count))

def receiveWindow : Nat :=
  min (L.pending + ((List.range cfg.writers).map (L.writable cfg)).sum) kWindow

def surveyed : RecvLane :=
  { L with lag := fun k => if k < cfg.writers then L.lagSeen cfg k else L.lag k }

/-- The acknowledgement a reader sends. -/
def ackMessage : Ack :=
  { L.rx.buildAck with nonce := L.peerNonce, rwnd := L.receiveWindow cfg }

def sendAck (works : Bool) (L : RecvLane) : RecvLane × List Sent :=
  let out := sealCtl L.signer works (encodeAck (L.ackMessage cfg) (kMaxAuxDatagramSize + 64))
    (kMaxAuxDatagramSize + 64)
  ({ L.surveyed cfg with signer := out.2 }, out.1.toList)

def sendNack (works : Bool) (nowNs reorderNs renackNs : Nat) (L : RecvLane) : RecvLane × List Sent :=
  let collected := L.rx.collectNacks nowNs reorderNs renackNs
  let noted := { L with rx := collected.1 }
  if collected.2.missing = [] then (noted, [])
  else
    let out := sealCtl L.signer works (encodeNack collected.2 (kMaxAuxDatagramSize + 64))
      (kMaxAuxDatagramSize + 64)
    ({ noted with signer := out.2 }, out.1.toList)

/-- Challenge a source other than the peer's. -/
def probePath (lane : Nat) (works : Bool) (challenge : Nat) (L : RecvLane) : RecvLane × List Sent :=
  let out := sendPathProbe L.signer works .pathChallenge lane L.peerNonce challenge
  ({ L with signer := out.2 }, out.1)

def classify (fallback : TransferStatus) : TransferStatus :=
  if L.haveStart = false ∧ L.badStarts > 0 then .authFailed
  else if L.delivered + L.authFailures ≥ 20 ∧
      L.authFailures * 2 > L.delivered + L.authFailures then .authFailed
  else fallback

inductive Leave where
  | socketError
  | cancelled
  | stopped
  | ioFailed
  | timeout
  deriving DecidableEq, Repr

def Leave.status : Leave → TransferStatus
  | socketError => .socketError
  | cancelled => .cancelled
  | stopped => L.classify .peerAborted
  | ioFailed => .ioError
  | timeout => L.classify .timeout

def giveUp (lane : Nat) (works : Bool) (why : Leave) (L : RecvLane) : RecvLane × List Sent :=
  let left := { L with status := some (why.status L) }
  if L.haveStart then
    let out := sendStreamClose L.signer works lane L.peerNonce kStreamCloseAborted
    ({ left with signer := out.2 }, out.1)
  else (left, [])

/-- Every block up to the last one is in, and no digest is awaited. -/
def completed (lane : Nat) (sh : Shared) (L : RecvLane) : Bool :=
  L.haveStart && L.finalSeq ≠ kNone && L.rx.baseSeqNo > L.finalSeq &&
    !(lane == 0 && sh.sink.resumed && sh.digest.isNone)

def sendAcks (cfg : RxConfig) (works : Nat → Bool) : Nat → RecvLane → RecvLane × List Sent
  | 0, L => (L, [])
  | count + 1, L =>
    let out := L.sendAck cfg (works count)
    let rest := sendAcks cfg works count out.1
    (rest.1, out.2 ++ rest.2)

def finishLane (works : Nat → Bool) (L : RecvLane) : RecvLane × List Sent :=
  let out := L.sendAcks cfg works (if L.peerFinished then 0 else 8)
  ({ out.1 with
      status := some (L.classify (if L.written = L.expectedBytes then .ok else .incomplete)) },
    out.2)

end RecvLane

/-! ## The call -/

structure RxState where
  shared : Shared
  lanes : Nat → RecvLane := RecvLane.create
  outcome : Option TransferStatus := none

inductive RxEvent where
  | datagram (lane : Nat) (inp : RecvLane.Inputs) (dg : List UInt8)
  | consumer (lane k count : Nat) (failsAfter : Nat → Option Nat)
  | results (lane k count nowNs : Nat)
  | window (lane : Nat)
  | ack (lane : Nat) (works : Bool)
  | nack (lane : Nat) (works : Bool) (nowNs reorderNs renackNs : Nat)
  | probe (lane : Nat) (works : Bool) (challenge : Nat)
  | giveUp (lane : Nat) (works : Bool) (why : RecvLane.Leave)
  | aborted (lane : Nat)
  | complete (lane : Nat) (works : Nat → Bool)
  | finish (verifies commits : Bool)

/-- The lane an event concerns; the end of the call concerns none. -/
def RxEvent.lane : RxEvent → Nat
  | .datagram lane _ _ => lane
  | .consumer lane _ _ _ => lane
  | .results lane _ _ _ => lane
  | .window lane => lane
  | .ack lane _ => lane
  | .nack lane _ _ _ _ => lane
  | .probe lane _ _ => lane
  | .giveUp lane _ _ => lane
  | .aborted lane => lane
  | .complete lane _ => lane
  | .finish _ _ => 0

namespace RxState

def create (sink : Sink) : RxState where
  shared := { sink := sink }

variable (cfg : RxConfig) (st : RxState)

def setLane (lane : Nat) (L : RecvLane) : RxState :=
  { st with lanes := Function.update st.lanes lane L }

/-- The reader of a lane is still running. -/
def reading (lane : Nat) : Bool :=
  lane < cfg.lanes && (st.lanes lane).status.isNone

def onLane (lane : Nat) (guard : Bool)
    (change : RecvLane → RecvLane × List Sent) : Option (RxState × List Sent) :=
  if st.reading cfg lane && guard then
    let out := change (st.lanes lane)
    some (st.setLane lane out.1, out.2)
  else none

/-- The result of a call whose readers have all left. -/
def result (verifies commits : Bool) : TransferStatus :=
  let status := worst ((List.range cfg.lanes).map fun lane => ((st.lanes lane).status.getD .incomplete))
  let verified :=
    if status = .ok ∧ st.shared.sink.resumed ∧ (st.shared.digest.isNone ∨ verifies = false) then
      .verifyFailed
    else status
  if commits = false ∧ verified = .ok then .ioError else verified

/-- One step of some thread, with what it puts on the wire of its lane. -/
def act : RxEvent → Option (RxState × List Sent)
  | .datagram lane inp dg =>
    if st.reading cfg lane then
      (RecvLane.onDatagram cfg lane inp st.shared (st.lanes lane) dg).map fun out =>
        ({ st.setLane lane out.2.1 with shared := out.1 }, out.2.2)
    else none
  | .consumer lane k count failsAfter =>
    if lane < cfg.lanes ∧ k ≤ cfg.writers ∧ st.outcome = none then
      let out := RecvLane.drainChannel cfg lane k count failsAfter st.shared (st.lanes lane)
      some ({ st.setLane lane out.2 with shared := out.1 }, [])
    else none
  | .results lane k count nowNs =>
    st.onLane cfg lane (k ≤ cfg.writers) fun L => (L.drainResults nowNs k count, [])
  | .window lane => st.onLane cfg lane (st.lanes lane).haveStart fun L => (L.surveyed cfg, [])
  | .ack lane works =>
    st.onLane cfg lane (st.lanes lane).haveStart (RecvLane.sendAck cfg works)
  | .nack lane works nowNs reorderNs renackNs =>
    st.onLane cfg lane (st.lanes lane).haveStart (RecvLane.sendNack works nowNs reorderNs renackNs)
  | .probe lane works challenge =>
    st.onLane cfg lane (st.lanes lane).haveStart (RecvLane.probePath lane works challenge)
  | .giveUp lane works why => st.onLane cfg lane true (RecvLane.giveUp lane works why)
  | .aborted lane =>
    st.onLane cfg lane (st.lanes lane).peerAborted fun L =>
      ({ L with status := some (L.classify .peerAborted) }, [])
  | .complete lane works =>
    st.onLane cfg lane ((st.lanes lane).completed lane st.shared) (RecvLane.finishLane cfg works)
  | .finish verifies commits =>
    if st.outcome = none ∧
        (List.range cfg.lanes).all fun lane => (st.lanes lane).status.isSome then
      some ({ st with outcome := some (st.result cfg verifies commits) }, [])
    else none

def step (e : RxEvent) : Option RxState :=
  (st.act cfg e).map Prod.fst

end RxState

end FuseTransport.Transfer
