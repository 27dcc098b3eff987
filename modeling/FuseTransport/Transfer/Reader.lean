import FuseTransport.Transfer.Batch

/-!
# What one step of the receiving end can do

Each function of the receiving end, inverted once: what a datagram does to a lane,
what a consumer's batch does, what taking a verdict does, and how the steps of the
call put these together.
-/

namespace FuseTransport.Transfer

open Proto

def slotSeq (s : PacketSlot) : Nat := ((decodeDataDatagram s.dg).map fun d => d.hdr.seqNo).getD 0

@[simp]
theorem examine_seq (opens : DataDatagram → Option (List UInt8)) (s : PacketSlot) :
    (examine opens s).completion.seq = slotSeq s := by
  unfold examine slotSeq
  cases decodeDataDatagram s.dg with
  | none => rfl
  | some d =>
    cases hopen : opens d with
    | none => simp [hopen, Item.nothing]
    | some body =>
      simp only [hopen]
      split <;> rfl

theorem Reports.seq {item : Item} {c : Completion} (reports : Reports item c) :
    c.seq = item.completion.seq := by
  cases reports with
  | examined | ioFailed => rfl

variable {dg : List UInt8} {nowNs : Nat} {inp : Inputs} {out : Shared × RecvLane × List Sent}

namespace RecvLane

/-! ## Datagrams -/

section Datagrams

variable (cfg : RxConfig) (lane : Nat) (sh : Shared) (L : RecvLane)

inductive Opened (inp : Inputs) (dg : List UInt8) (ss : StreamStart) :
    Shared × RecvLane × List Sent → Prop where
  | retry (sent : List Sent) (answer : sent = ((encodeRetry
      { streamId := lane, nonce := ss.nonce, token := inp.wantToken }
      (kMaxAuxDatagramSize + 64)).map fun bytes => ⟨bytes, none⟩).toList) :
      Opened inp dg ss (sh, L, sent)
  | repeated (joined : L.haveStart = true) : Opened inp dg ss (sh, L, L.resumeAnswer)
  | ignored : Opened inp dg ss (sh, L, [])
  | refused (sent : List Sent)
      (reply : ∀ s ∈ sent, s ∈ (sendStreamClose none true lane ss.nonce kStreamCloseAuthFailed).1) :
      Opened inp dg ss (sh, { L with badStarts := L.badStarts + 1 }, sent)
  | unprepared (claimed : Shared) (agreed : claim sh inp.prepares ss = some claimed)
      (unready : claimed.sinkState ≠ .ready) (status : Option TransferStatus)
      (failed : status ≠ some .ok) :
      Opened inp dg ss (claimed, { L with status := status }, [])
  | joined (keys : Option (List UInt8) × Option Signer) (claimed : Shared)
      (before : L.haveStart = false)
      (authentic : trial cfg.keyed lane ss dg inp.derives = some keys)
      (inside : ss.totalBytes ≤ ss.fileTotalBytes ∧
        ss.streamBaseOffset ≤ ss.fileTotalBytes - ss.totalBytes)
      (agreed : claim sh inp.prepares ss = some claimed) (ready : claimed.sinkState = .ready) :
      Opened inp dg ss (claimed, L.join claimed lane ss inp.works keys,
        (L.join claimed lane ss inp.works keys).resumeAnswer)

theorem onStreamStart_opened (inp : Inputs) (dg : List UInt8) (ss : StreamStart)
    (running : L.status = none) :
    Opened cfg lane sh L inp dg ss (onStreamStart cfg lane inp sh L dg ss) := by
  unfold onStreamStart
  split
  · exact Opened.retry _ rfl
  · split
    · rename_i hjoined
      split
      · exact Opened.repeated hjoined
      · exact Opened.ignored
    · rename_i hbefore
      split
      · refine Opened.refused _ ?_
        intro s member
        split at member
        · exact member
        · cases member
      · rename_i keys htrial
        split
        · exact Opened.ignored
        · rename_i hinside
          split
          · exact Opened.ignored
          · rename_i claimed hclaim
            split
            · rename_i hfailed
              exact Opened.unprepared claimed hclaim (by simp [hfailed]) _ (by simp)
            · rename_i hpending
              have hsame : { L with status := none } = L := by rw [← running]
              rw [← hsame]
              exact Opened.unprepared claimed hclaim (by simp [hpending]) none (by simp)
            · rename_i hready
              rw [not_or, Nat.not_lt, Nat.not_lt] at hinside
              exact Opened.joined keys claimed (Bool.eq_false_iff.mpr hbefore) htrial hinside hclaim
                hready

inductive Handled (inp : Inputs) (dg : List UInt8) : Shared × RecvLane × List Sent → Prop where
  | ignored : Handled inp dg (sh, L, [])
  | streamStart (ss : StreamStart) (peeked : peekMsgType dg = some .streamStart)
      (decoded : decodeStreamStart dg = some ss) :
      Handled inp dg (onStreamStart cfg lane inp sh L dg ss)
  | streamClose (sc : StreamClose) (peeked : peekMsgType dg = some .streamClose)
      (decoded : decodeStreamClose dg = some sc) : Handled inp dg (sh, onStreamClose cfg L dg sc, [])
  | pathProbe (type : MsgType) (pp : PathProbe) (peeked : peekMsgType dg = some type)
      (kind : type = .pathChallenge ∨ type = .pathResponse)
      (decoded : decodePathProbe type dg = some pp) :
      Handled inp dg (sh, onPathProbe lane (inp.works 0) L dg type pp)
  | fileDigest (dm : DigestMessage) (peeked : peekMsgType dg = some .fileDigest)
      (decoded : decodeDigest dg = some dm) :
      Handled inp dg (onFileDigest lane (inp.works 0) sh L dg dm)
  | block (d : DataDatagram) (next : RecvLane) (peeked : peekMsgType dg = some .data)
      (started : L.haveStart = true) (decoded : decodeDataDatagram dg = some d)
      (passed : dispatchable cfg L d = true) (handed : dispatch cfg L dg d = some next) :
      Handled inp dg (sh, next, [])

theorem passes_some {cfg : RxConfig} {L : RecvLane} {d : DataDatagram}
    (passed : passes cfg L dg = some d) :
    L.haveStart = true ∧ decodeDataDatagram dg = some d ∧ dispatchable cfg L d = true := by
  unfold passes at passed
  split at passed
  · rename_i hstart
    exact ⟨hstart, Option.filter_eq_some_iff.mp passed⟩
  · cases passed

theorem onDatagram_handled (done : onDatagram cfg lane inp sh L dg = some out) :
    Handled cfg lane sh L inp dg out := by
  unfold onDatagram at done
  split at done
  · rename_i hpeek
    split at done
    · rw [← Option.some.inj done]
      exact Handled.ignored
    · rename_i ss hdecoded
      rw [← Option.some.inj done]
      exact Handled.streamStart ss hpeek hdecoded
  · rename_i hpeek
    split at done
    · rw [← Option.some.inj done]
      exact Handled.ignored
    · rename_i sc hdecoded
      rw [← Option.some.inj done]
      exact Handled.streamClose sc hpeek hdecoded
  · rename_i hpeek
    split at done
    · rw [← Option.some.inj done]
      exact Handled.ignored
    · rename_i pp hdecoded
      rw [← Option.some.inj done]
      exact Handled.pathProbe .pathChallenge pp hpeek (Or.inl rfl) hdecoded
  · rename_i hpeek
    split at done
    · rw [← Option.some.inj done]
      exact Handled.ignored
    · rename_i pp hdecoded
      rw [← Option.some.inj done]
      exact Handled.pathProbe .pathResponse pp hpeek (Or.inr rfl) hdecoded
  · rename_i hpeek
    split at done
    · rw [← Option.some.inj done]
      exact Handled.ignored
    · rename_i dm hdecoded
      rw [← Option.some.inj done]
      exact Handled.fileDigest dm hpeek hdecoded
  · rename_i hpeek
    split at done
    · rw [← Option.some.inj done]
      exact Handled.ignored
    · rename_i d hpassed
      obtain ⟨next, hnext, hout⟩ := Option.map_eq_some_iff.mp done
      obtain ⟨hstart, hdecoded, hchecks⟩ := passes_some hpassed
      rw [← hout]
      exact Handled.block d next hpeek hstart hdecoded hchecks hnext
  · rw [← Option.some.inj done]
    exact Handled.ignored

end Datagrams

def examined (cfg : RxConfig) (lane : Nat) (L : RecvLane) (h : PacketSlot × Completion) :
    Item × Completion :=
  (examine (L.opens cfg.keyed lane) h.1, h.2)

/-- The blocks of one batch with their outcomes, as the lane's consumer saw them. -/
structure Drained (cfg : RxConfig) (lane k : Nat) (sh : Shared) (L : RecvLane)
    (after : Shared × RecvLane) (handled : List (PacketSlot × Completion)) : Prop where
  slots : ∃ n, handled.map Prod.fst = (L.rings k).take n ∧
    after.2.rings = Function.update L.rings k ((L.rings k).drop n)
  dones : after.2.dones = Function.update L.dones k (L.dones k ++ handled.map Prod.snd)
  logged : after.2.log.handled = L.log.handled ++ handled
  reports : ∀ h ∈ handled, Reports (L.examined cfg lane h).1 h.2
  writes : after.1.writes =
    sh.writes ++ (handled.map (L.examined cfg lane)).filterMap (writeOf lane)
  takes : Takes sh.sink (handled.map (L.examined cfg lane)) after.1.sink

def nextItems (cfg : RxConfig) (lane k count : Nat) (L : RecvLane) : List Item :=
  ((L.rings k).take (min count (batchSize cfg L k))).map (examine (L.opens cfg.keyed lane))

theorem drainChannel_drained (cfg : RxConfig) (lane k count : Nat) (failsAfter : Nat → Option Nat)
    (sh : Shared) (L : RecvLane) :
    ∃ handled, Drained cfg lane k sh L (drainChannel cfg lane k count failsAfter sh L) handled ∧
      (handled.map (L.examined cfg lane)).map Prod.fst = L.nextItems cfg lane k count := by
  unfold drainChannel nextItems
  generalize min count (batchSize cfg L k) = n
  dsimp only
  obtain ⟨reported, hitems, settled⟩ := batch_settled lane failsAfter
    { sink := sh.sink, ioFailed := sh.ioFailed }
    (((L.rings k).take n).map (examine (L.opens cfg.keyed lane)))
  generalize hbatch : writeRuns lane failsAfter 0 { sink := sh.sink, ioFailed := sh.ioFailed }
    (runs (((L.rings k).take n).map (examine (L.opens cfg.keyed lane)))) = batch at settled ⊢
  have hcompletions : batch.completions = reported.map Prod.snd := settled.completions
  have hlength : ((L.rings k).take n).length = batch.completions.length := by
    rw [hcompletions, List.length_map, ← List.length_map Prod.fst, hitems, List.length_map]
  have hexamined : (((L.rings k).take n).zip batch.completions).map (L.examined cfg lane) =
      reported := by
    rw [List.zip_of_prod hitems rfl, ← hcompletions, List.zip_map_left]
    rfl
  have hseconds : (((L.rings k).take n).zip batch.completions).map Prod.snd = batch.completions :=
    List.map_snd_zip (Nat.le_of_eq hlength.symm)
  refine ⟨((L.rings k).take n).zip batch.completions,
    ⟨⟨n, List.map_fst_zip (Nat.le_of_eq hlength), rfl⟩, ?_, rfl, ?_, ?_, ?_⟩, ?_⟩
  · rw [hseconds]
  · intro h member
    have hmem : L.examined cfg lane h ∈ reported := by
      rw [← hexamined]
      exact List.mem_map_of_mem member
    exact settled.reports _ hmem
  · rw [hexamined]
    exact congrArg (sh.writes ++ ·) settled.writes
  · rw [hexamined]
    exact settled.takes
  · rw [hexamined]
    exact hitems

section Verdicts

variable {k : Nat} {L : RecvLane}

/-- What the reader does with one verdict, apart from the window. -/
structure Taken (k nowNs : Nat) (c : Completion) (rest : List Completion) (L L' : RecvLane) :
    Prop where
  rx : L'.rx = if c.result = .written then (L.rx.onReceive c.seq c.sendTime nowNs).1 else L.rx
  pending : L'.pending = L.pending - 1
  dispatched : L.dispatched (c.seq % kWindow) = c.seq →
    L'.dispatched = Function.update L.dispatched (c.seq % kWindow) kNone
  rings : L'.rings = L.rings
  dones : L'.dones = Function.update L.dones k rest
  handled : L'.log.handled = L.log.handled
  taken : L'.log.taken = L.log.taken ++ [(c, if c.result = .written then
    some (L.rx.onReceive c.seq c.sendTime nowNs).2 else none)]
  written : L'.written =
    if c.result = .written ∧ (L.rx.onReceive c.seq c.sendTime nowNs).2 = .accepted then
      u64 (L.written + c.bytes)
    else L.written
  finalSeq : L'.finalSeq =
    if c.result = .written ∧ isLastBlock c.flags = true then c.seq else L.finalSeq
  rest : L' = { L with
    rx := L'.rx, pending := L'.pending, dispatched := L'.dispatched, dones := L'.dones,
    written := L'.written, finalSeq := L'.finalSeq, delivered := L'.delivered,
    authFailures := L'.authFailures, log := { L.log with taken := L'.log.taken } }

theorem takeResult_taken (L : RecvLane) (k nowNs : Nat) (c : Completion) (rest : List Completion) :
    Taken k nowNs c rest L
      ((L.takeResult nowNs c).setDones (Function.update L.dones k rest)) := by
  unfold takeResult setDones
  cases hresult : c.result with
  | authFailed | ioFailed =>
    exact ⟨by simp [hresult, note, handBack], rfl, fun marked => if_pos marked, rfl, rfl, rfl,
      by simp [hresult, note, handBack], by simp [hresult, note, handBack],
      by simp [hresult, note, handBack], rfl⟩
  | written =>
    dsimp only
    split
    · rename_i haccepted
      exact ⟨by simp [hresult], rfl, fun marked => if_pos marked, rfl, rfl, rfl,
        by simp [hresult, note, handBack], by simp [hresult, haccepted], by simp [hresult], rfl⟩
    · rename_i hrefused
      exact ⟨by simp [hresult], rfl, fun marked => if_pos marked, rfl, rfl, rfl,
        by simp [hresult, note, handBack], by simp [hrefused, note, handBack],
        by simp [hresult], rfl⟩

/-- The reader does not look at the rings of reports while it takes a verdict. -/
theorem takeResult_setDones (L : RecvLane) (nowNs : Nat) (dones : Nat → List Completion)
    (c : Completion) :
    takeResult nowNs (L.setDones dones) c = (L.takeResult nowNs c).setDones dones := by
  unfold takeResult
  cases c.result with
  | authFailed | ioFailed => rfl
  | written =>
    dsimp only [setDones]
    split <;> rfl

theorem foldl_takeResult_setDones (L : RecvLane) (nowNs : Nat) (dones : Nat → List Completion)
    (cs : List Completion) :
    cs.foldl (takeResult nowNs) (L.setDones dones) =
      (cs.foldl (takeResult nowNs) L).setDones dones := by
  induction cs generalizing L with
  | nil => rfl
  | cons c rest ih => rw [List.foldl_cons, List.foldl_cons, takeResult_setDones, ih]

theorem drainResults_none {count : Nat} (none_taken : (L.dones k).take count = []) :
    L.drainResults nowNs k count = L := by
  have hrest : (L.dones k).drop count = L.dones k := by
    have hboth := List.take_append_drop count (L.dones k)
    rwa [none_taken] at hboth
  rw [drainResults, none_taken, hrest, Function.update_eq_self]
  rfl

theorem drainResults_cons {count : Nat} {c : Completion} {rest : List Completion}
    (reported : L.dones k = c :: rest) :
    L.drainResults nowNs k (count + 1) =
      drainResults nowNs k count
        ((L.takeResult nowNs c).setDones (Function.update L.dones k rest)) := by
  have hrest : ((L.takeResult nowNs c).setDones (Function.update L.dones k rest)).dones k = rest := by
    exact Function.update_self _ _ _
  rw [drainResults, drainResults, hrest, reported, foldl_takeResult_setDones]
  change _ = setDones _ (Function.update (Function.update L.dones k rest) k _)
  rw [Function.update_idem]
  rfl

/-- Taking several verdicts is taking one after the other. -/
theorem drainResults_induction {Keeps : RecvLane → Prop}
    (step : ∀ L L' c rest, Keeps L → L.dones k = c :: rest → Taken k nowNs c rest L L' → Keeps L')
    (count : Nat) {L : RecvLane} (holds : Keeps L) : Keeps (L.drainResults nowNs k count) := by
  induction count generalizing L with
  | zero =>
    rw [drainResults_none (List.take_zero)]
    exact holds
  | succ count ih =>
    cases hdones : L.dones k with
    | nil =>
      rw [drainResults_none (by rw [hdones, List.take_nil])]
      exact holds
    | cons c rest =>
      rw [drainResults_cons hdones]
      exact ih (step L _ c rest holds hdones (takeResult_taken L k nowNs c rest))

end Verdicts

/-- A change that leaves the lane's blocks, its place and its window alone, apart
from the times of the gaps reported.  The reader may learn of free slots. -/
structure Untouched (L L' : RecvLane) : Prop where
  stamps : ∃ stamps, L'.rx = { L.rx with lastNackNs := stamps }
  rest : L' = { L with
    rx := L'.rx, badStarts := L'.badStarts, peerFinished := L'.peerFinished,
    peerAborted := L'.peerAborted, signer := L'.signer, lag := L'.lag, status := L'.status }
  lagged : ∀ k, L'.lag k ≤ L.lag k

section Quiet

variable {L L' L'' : RecvLane}

theorem Untouched.refl (L : RecvLane) : Untouched L L :=
  ⟨⟨L.rx.lastNackNs, rfl⟩, rfl, fun _ => Nat.le_refl _⟩

theorem Untouched.trans (first : Untouched L L') (second : Untouched L' L'') : Untouched L L'' := by
  obtain ⟨stamps, hstamps⟩ := second.stamps
  obtain ⟨_, hfirst⟩ := first.stamps
  refine ⟨⟨stamps, by rw [hstamps, hfirst]⟩, ?_, fun k => ?_⟩
  · refine second.rest.trans ?_
    rw [first.rest]
  · exact Nat.le_trans (second.lagged k) (first.lagged k)

variable (L)

theorem untouched_signer (signer : Option Signer) : Untouched L { L with signer := signer } :=
  ⟨⟨L.rx.lastNackNs, rfl⟩, rfl, fun _ => Nat.le_refl _⟩

variable (cfg : RxConfig)

theorem lagSeen_le (k : Nat) : L.lagSeen cfg k ≤ L.lag k := by
  unfold lagSeen
  split
  · exact Nat.zero_le _
  · exact Nat.le_refl _

theorem untouched_surveyed : Untouched L (L.surveyed cfg) := by
  refine ⟨⟨L.rx.lastNackNs, rfl⟩, rfl, fun k => ?_⟩
  change (if k < cfg.writers then L.lagSeen cfg k else L.lag k) ≤ L.lag k
  split
  · exact lagSeen_le L cfg k
  · exact Nat.le_refl _

theorem untouched_status (status : Option TransferStatus) :
    Untouched L { L with status := status } :=
  ⟨⟨L.rx.lastNackNs, rfl⟩, rfl, fun _ => Nat.le_refl _⟩

theorem untouched_badStarts (count : Nat) : Untouched L { L with badStarts := count } :=
  ⟨⟨L.rx.lastNackNs, rfl⟩, rfl, fun _ => Nat.le_refl _⟩

theorem untouched_peer (finished aborted : Bool) :
    Untouched L { L with peerFinished := finished, peerAborted := aborted } :=
  ⟨⟨L.rx.lastNackNs, rfl⟩, rfl, fun _ => Nat.le_refl _⟩

theorem onStreamClose_untouched (dg : List UInt8) (sc : StreamClose) :
    Untouched L (onStreamClose cfg L dg sc) ∧ (onStreamClose cfg L dg sc).status = L.status := by
  unfold onStreamClose
  split
  · split
    · exact ⟨Untouched.refl L, rfl⟩
    · split
      · exact ⟨untouched_peer L L.peerFinished true, rfl⟩
      · exact ⟨untouched_peer L true L.peerAborted, rfl⟩
  · split
    · exact ⟨untouched_peer L L.peerFinished true, rfl⟩
    · exact ⟨Untouched.refl L, rfl⟩

theorem onPathProbe_untouched (lane : Nat) (works : Bool) (dg : List UInt8) (type : MsgType)
    (pp : PathProbe) :
    Untouched L (onPathProbe lane works L dg type pp).1 ∧
      (onPathProbe lane works L dg type pp).1.status = L.status := by
  unfold onPathProbe
  split
  · exact ⟨Untouched.refl L, rfl⟩
  · split
    · exact ⟨untouched_signer L _, rfl⟩
    · exact ⟨Untouched.refl L, rfl⟩

theorem onFileDigest_untouched (lane : Nat) (works : Bool) (sh : Shared) (dg : List UInt8)
    (dm : DigestMessage) :
    Untouched L (onFileDigest lane works sh L dg dm).2.1 ∧
      (onFileDigest lane works sh L dg dm).2.1.status = L.status ∧
      ∃ digest, (onFileDigest lane works sh L dg dm).1 = { sh with digest := digest } := by
  unfold onFileDigest
  split
  · exact ⟨Untouched.refl L, rfl, sh.digest, rfl⟩
  · exact ⟨untouched_signer L _, rfl, _, rfl⟩

theorem sendNack_untouched (works : Bool) (nowNs reorderNs renackNs : Nat) :
    Untouched L (sendNack works nowNs reorderNs renackNs L).1 ∧
      (sendNack works nowNs reorderNs renackNs L).1.status = L.status := by
  obtain ⟨stamps, hstamps⟩ := ReceiverStream.collectNacks_frame L.rx nowNs reorderNs renackNs
  unfold sendNack
  dsimp only
  split <;> exact ⟨⟨⟨stamps, hstamps⟩, rfl, fun _ => Nat.le_refl _⟩, rfl⟩

theorem classify_ok {fallback : TransferStatus} (ok : L.classify fallback = .ok) :
    fallback = .ok := by
  unfold classify at ok
  split at ok
  · cases ok
  · split at ok
    · cases ok
    · exact ok

/-- Leaving early is never a success. -/
theorem leave_status_ne_ok (why : Leave) : why.status L ≠ .ok := by
  cases why with
  | socketError | cancelled => exact fun ok => by cases ok
  | stopped => exact fun ok => by cases classify_ok L ok
  | ioFailed => exact fun ok => by cases ok
  | timeout => exact fun ok => by cases classify_ok L ok

theorem giveUp_untouched (lane : Nat) (works : Bool) (why : Leave) :
    Untouched L (giveUp lane works why L).1 ∧
      (giveUp lane works why L).1.status = some (why.status L) := by
  unfold giveUp
  split
  · exact ⟨(untouched_status L _).trans (untouched_signer _ _), rfl⟩
  · exact ⟨untouched_status L _, rfl⟩

theorem sendAcks_untouched (works : Nat → Bool) (count : Nat) :
    Untouched L (sendAcks cfg works count L).1 := by
  induction count generalizing L with
  | zero => exact Untouched.refl L
  | succ count ih => exact ((untouched_surveyed L cfg).trans (untouched_signer _ _)).trans (ih _)

/-- A lane that leaves the loop with success has the bytes it expected. -/
theorem finishLane_untouched (works : Nat → Bool) : Untouched L (finishLane cfg works L).1 ∧
      ((finishLane cfg works L).1.status = some .ok → L.written = L.expectedBytes) := by
  refine ⟨(sendAcks_untouched L cfg works _).trans (untouched_status _ _), fun ok => ?_⟩
  have hok := classify_ok L (Option.some.inj ok)
  split at hok
  · assumption
  · cases hok

end Quiet

/-- What an event can do to its lane and to what the lanes share. -/
inductive Moved (cfg : RxConfig) (lane : Nat) (sh : Shared) (L : RecvLane) :
    RxEvent → Shared → RecvLane → Prop where
  | quiet (e : RxEvent) (digest : Option (List UInt8)) (L' : RecvLane) (same : Untouched L L')
      (running : L.status = none)
      (leaves : L'.status = some .ok →
        L.completed lane sh = true ∧ L.written = L.expectedBytes) :
      Moved cfg lane sh L e { sh with digest := digest } L'
  | unprepared (inp : Inputs) (dg : List UInt8) (ss : StreamStart) (claimed : Shared)
      (running : L.status = none) (agreed : claim sh inp.prepares ss = some claimed)
      (unready : claimed.sinkState ≠ .ready) (status : Option TransferStatus)
      (failed : status ≠ some .ok) :
      Moved cfg lane sh L (.datagram lane inp dg) claimed { L with status := status }
  | joined (inp : Inputs) (dg : List UInt8) (ss : StreamStart)
      (keys : Option (List UInt8) × Option Signer) (claimed : Shared)
      (running : L.status = none) (peeked : peekMsgType dg = some .streamStart)
      (decoded : decodeStreamStart dg = some ss) (before : L.haveStart = false)
      (authentic : trial cfg.keyed lane ss dg inp.derives = some keys)
      (inside : ss.totalBytes ≤ ss.fileTotalBytes ∧
        ss.streamBaseOffset ≤ ss.fileTotalBytes - ss.totalBytes)
      (agreed : claim sh inp.prepares ss = some claimed) (ready : claimed.sinkState = .ready) :
      Moved cfg lane sh L (.datagram lane inp dg) claimed (L.join claimed lane ss inp.works keys)
  | handedOut (inp : Inputs) (dg : List UInt8) (d : DataDatagram) (L' : RecvLane)
      (running : L.status = none) (peeked : peekMsgType dg = some .data)
      (started : L.haveStart = true) (decoded : decodeDataDatagram dg = some d)
      (passed : dispatchable cfg L d = true) (handed : dispatch cfg L dg d = some L') :
      Moved cfg lane sh L (.datagram lane inp dg) sh L'
  | drained (k count : Nat) (failsAfter : Nat → Option Nat) (inside : k ≤ cfg.writers) :
      Moved cfg lane sh L (.consumer lane k count failsAfter)
        (drainChannel cfg lane k count failsAfter sh L).1
        (drainChannel cfg lane k count failsAfter sh L).2
  | verdicts (k count nowNs : Nat) (running : L.status = none) (inside : k ≤ cfg.writers) :
      Moved cfg lane sh L (.results lane k count nowNs) sh (L.drainResults nowNs k count)

section Moves

variable {cfg : RxConfig} {lane : Nat} {sh : Shared} {L : RecvLane}

theorem Moved.silent (e : RxEvent) {L' : RecvLane} (same : Untouched L L')
    (running : L.status = none) (status : L'.status = L.status) : Moved cfg lane sh L e sh L' :=
  Moved.quiet e sh.digest L' same running fun ok => by
    rw [status, running] at ok
    cases ok

theorem Opened.moved {ss : StreamStart} (running : L.status = none)
    (peeked : peekMsgType dg = some .streamStart) (decoded : decodeStreamStart dg = some ss)
    (opened : Opened cfg lane sh L inp dg ss out) :
    Moved cfg lane sh L (.datagram lane inp dg) out.1 out.2.1 := by
  cases opened with
  | retry | repeated | ignored => exact Moved.silent _ (Untouched.refl L) running rfl
  | refused => exact Moved.silent _ (untouched_badStarts L _) running rfl
  | unprepared claimed agreed unready status failed =>
    exact Moved.unprepared inp dg ss claimed running agreed unready status failed
  | joined keys claimed before authentic inside agreed ready =>
    exact Moved.joined inp dg ss keys claimed running peeked decoded before authentic inside
      agreed ready

theorem Handled.moved (running : L.status = none) (handled : Handled cfg lane sh L inp dg out) :
    Moved cfg lane sh L (.datagram lane inp dg) out.1 out.2.1 := by
  cases handled with
  | ignored => exact Moved.silent _ (Untouched.refl L) running rfl
  | streamStart ss peeked decoded =>
    exact (onStreamStart_opened cfg lane sh L inp dg ss running).moved running peeked decoded
  | streamClose sc =>
    obtain ⟨hsame, hstatus⟩ := onStreamClose_untouched L cfg dg sc
    exact Moved.silent _ hsame running hstatus
  | pathProbe type pp =>
    obtain ⟨hsame, hstatus⟩ := onPathProbe_untouched L lane (inp.works 0) dg type pp
    exact Moved.silent _ hsame running hstatus
  | fileDigest dm =>
    obtain ⟨hsame, hstatus, digest, hshared⟩ := onFileDigest_untouched L lane (inp.works 0) sh dg dm
    rw [hshared]
    refine Moved.quiet _ digest _ hsame running fun ok => ?_
    rw [hstatus, running] at ok
    cases ok
  | block d next peeked started decoded passed handed =>
    exact Moved.handedOut inp dg d next running peeked started decoded passed handed

end Moves

end RecvLane

/-! ## Steps of the call -/

variable {lane : Nat}

namespace RxState

theorem onLane_some {cfg : RxConfig} {st st' : RxState} {guard : Bool}
    {change : RecvLane → RecvLane × List Sent} {sent : List Sent}
    (done : st.onLane cfg lane guard change = some (st', sent)) :
    st.reading cfg lane = true ∧ guard = true ∧ st' = st.setLane lane (change (st.lanes lane)).1 ∧
      sent = (change (st.lanes lane)).2 := by
  unfold onLane at done
  split at done
  · rename_i hguard
    obtain ⟨hreading, hgiven⟩ := Bool.and_eq_true_iff.mp hguard
    obtain ⟨hstate, hsent⟩ := Prod.mk.inj (Option.some.inj done)
    exact ⟨hreading, hgiven, hstate.symm, hsent.symm⟩
  · cases done

@[simp]
theorem setLane_self (st : RxState) (lane : Nat) (L : RecvLane) :
    (st.setLane lane L).lanes lane = L := by
  simp [setLane]

theorem setLane_of_ne (st : RxState) {other : Nat} (differs : other ≠ lane) (L : RecvLane) :
    (st.setLane lane L).lanes other = st.lanes other := by
  exact Function.update_of_ne differs _ _

/-- A change of one lane is checked on that lane and on the others. -/
theorem forall_lanes {st : RxState} {L : RecvLane} {sh : Shared} {P : Nat → RecvLane → Prop}
    (changed : P lane L) (others : ∀ other, other ≠ lane → P other (st.lanes other)) :
    ∀ other, P other (({ st.setLane lane L with shared := sh } : RxState).lanes other) := by
  intro other
  by_cases hsame : other = lane
  · subst hsame
    rw [setLane_self]
    exact changed
  · rw [setLane_of_ne st hsame]
    exact others other hsame

inductive Stepped (cfg : RxConfig) (st : RxState) (e : RxEvent) : RxState → Prop where
  | lane (lane : Nat) (sh : Shared) (L : RecvLane) (own : lane = e.lane) (inside : lane < cfg.lanes)
      (moved : RecvLane.Moved cfg lane st.shared (st.lanes lane) e sh L) :
      Stepped cfg st e { st.setLane lane L with shared := sh }
  | finish (verifies commits : Bool) (waiting : st.outcome = none)
      (left : ∀ lane < cfg.lanes, (st.lanes lane).status.isSome = true) :
      Stepped cfg st e { st with outcome := some (st.result cfg verifies commits) }

section Steps

variable {cfg : RxConfig} {st st' : RxState} {e : RxEvent} {sent : List Sent}

theorem reading_some (reading : st.reading cfg lane = true) :
    lane < cfg.lanes ∧ (st.lanes lane).status = none := by
  obtain ⟨hinside, hrunning⟩ := Bool.and_eq_true_iff.mp reading
  exact ⟨of_decide_eq_true hinside, Option.isNone_iff_eq_none.mp hrunning⟩

theorem onLane_stepped {guard : Bool} {change : RecvLane → RecvLane × List Sent}
    (done : st.onLane cfg lane guard change = some (st', sent)) (own : lane = e.lane)
    (moves : (st.lanes lane).status = none → guard = true →
      RecvLane.Moved cfg lane st.shared (st.lanes lane) e st.shared (change (st.lanes lane)).1) :
    Stepped cfg st e st' := by
  obtain ⟨hreading, hguard, hstate, _⟩ := onLane_some done
  obtain ⟨hinside, hrunning⟩ := reading_some hreading
  rw [hstate]
  exact Stepped.lane lane st.shared _ own hinside (moves hrunning hguard)

theorem act_stepped (acted : st.act cfg e = some (st', sent)) : Stepped cfg st e st' := by
  cases e with
  | datagram lane inp dg =>
    obtain ⟨hreading, acted⟩ := Option.ite_none_right_eq_some.mp acted
    obtain ⟨out, hout, hnext⟩ := Option.map_eq_some_iff.mp acted
    obtain ⟨hinside, hrunning⟩ := reading_some hreading
    rw [← (Prod.mk.inj hnext).1]
    exact Stepped.lane lane out.1 out.2.1 rfl hinside
      ((RecvLane.onDatagram_handled cfg lane st.shared _ hout).moved hrunning)
  | consumer lane k count failsAfter =>
    rw [act] at acted
    split at acted
    · rename_i hguard
      rw [← (Prod.mk.inj (Option.some.inj acted)).1]
      exact Stepped.lane lane _ _ rfl hguard.1 (.drained k count failsAfter hguard.2.1)
    · cases acted
  | results lane k count nowNs =>
    rw [act] at acted
    exact onLane_stepped acted rfl fun running inside =>
      .verdicts k count nowNs running (of_decide_eq_true inside)
  | window lane =>
    rw [act] at acted
    exact onLane_stepped acted rfl fun running _ =>
      .silent _ (RecvLane.untouched_surveyed _ cfg) running rfl
  | ack lane works =>
    exact onLane_stepped acted rfl fun running _ =>
      .silent _ ((RecvLane.untouched_surveyed _ cfg).trans (RecvLane.untouched_signer _ _)) running rfl
  | nack lane works nowNs reorderNs renackNs =>
    obtain ⟨hsame, hstatus⟩ :=
      RecvLane.sendNack_untouched (st.lanes lane) works nowNs reorderNs renackNs
    exact onLane_stepped acted rfl fun running _ => .silent _ hsame running hstatus
  | probe lane works challenge =>
    exact onLane_stepped acted rfl fun running _ =>
      .silent _ (RecvLane.untouched_signer _ _) running rfl
  | giveUp lane works why =>
    obtain ⟨hsame, hstatus⟩ := RecvLane.giveUp_untouched (st.lanes lane) lane works why
    refine onLane_stepped acted rfl fun running _ => .quiet _ st.shared.digest _ hsame running ?_
    rw [hstatus]
    exact fun ok => absurd (Option.some.inj ok) (RecvLane.leave_status_ne_ok _ why)
  | aborted lane =>
    rw [act] at acted
    refine onLane_stepped acted rfl fun running _ =>
      .quiet _ st.shared.digest _ (RecvLane.untouched_status _ _) running ?_
    exact fun ok => by cases RecvLane.classify_ok _ (Option.some.inj ok)
  | complete lane works =>
    obtain ⟨hsame, hstatus⟩ := RecvLane.finishLane_untouched (st.lanes lane) cfg works
    exact onLane_stepped acted rfl fun running complete =>
      .quiet _ st.shared.digest _ hsame running fun ok => ⟨complete, hstatus ok⟩
  | finish verifies commits =>
    obtain ⟨hguard, acted⟩ := Option.ite_none_right_eq_some.mp acted
    rw [← (Prod.mk.inj (Option.some.inj acted)).1]
    refine Stepped.finish verifies commits hguard.1 fun lane inside => ?_
    exact List.all_eq_true.mp hguard.2 lane (List.mem_range.mpr inside)

theorem step_stepped (moved : st.step cfg e = some st') : Stepped cfg st e st' := by
  obtain ⟨⟨_, _⟩, hact, rfl⟩ := Option.map_eq_some_iff.mp moved
  exact act_stepped hact

end Steps

end RxState

end FuseTransport.Transfer
