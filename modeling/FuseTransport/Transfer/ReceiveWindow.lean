import FuseTransport.Transfer.Admission

/-!
# The window a lane advertises

Every acknowledgement says how many blocks its lane can still absorb: those that are with a
consumer, and the slots of the writers' rings that the reader knows to be free.  The number
is one for the whole lane, while each block is bound for one ring; and a reader looks at
a consumer's counter only when a ring seems full, so it may know of fewer free slots than
there are.
-/

namespace FuseTransport.Transfer

open Foundation Foundation.Runs Proto

theorem RxConfig.capacity_writer (cfg : RxConfig) {k : Nat} (writer : k < cfg.writers) :
    cfg.capacity k = cfg.capacity 0 := by
  unfold RxConfig.capacity
  rw [if_neg (Nat.ne_of_lt writer), if_neg (Nat.ne_of_lt cfg.writers_pos)]

variable {d : DataDatagram}

namespace RecvLane

variable {cfg : RxConfig} {lane : Nat} {sh sh' : Shared} {L L' : RecvLane} {e : RxEvent}

/-- No ring holds more than its capacity, also as its reader sees it. -/
def Bounded (cfg : RxConfig) (L : RecvLane) : Prop :=
  ∀ k, (L.rings k).length + L.lag k ≤ cfg.capacity k

/-- A ring has no slot for the reader exactly when it is full. -/
theorem Bounded.writable_eq_zero (bounded : L.Bounded cfg) (k : Nat) :
    L.writable cfg k = 0 ↔ (L.rings k).length = cfg.capacity k := by
  have hbound := bounded k
  unfold writable lagSeen
  split <;> omega

theorem dispatch_some {dg : List UInt8} (handed : dispatch cfg L dg d = some L') :
    ∃ slot, L' = { L with
      rings := Function.update L.rings (route cfg d.hdr) (L.rings (route cfg d.hdr) ++ [slot])
      lag := Function.update L.lag (route cfg d.hdr) (L.lagSeen cfg (route cfg d.hdr))
      dispatched := Function.update L.dispatched (d.hdr.seqNo % kWindow) d.hdr.seqNo
      pending := L.pending + 1 } := by
  unfold dispatch at handed
  split at handed
  · exact ⟨_, (Option.some.inj handed).symm⟩
  · cases handed

/-- A block is handed out only where the reader sees a free slot. -/
theorem Bounded.dispatch (bounded : L.Bounded cfg) {dg : List UInt8}
    (free : L.writable cfg (route cfg d.hdr) ≠ 0) (handed : dispatch cfg L dg d = some L') :
    L'.Bounded cfg := by
  obtain ⟨slot, rfl⟩ := dispatch_some handed
  intro k
  by_cases hring : k = route cfg d.hdr
  · subst hring
    unfold writable at free
    simp only [Function.update_self, List.length_append, List.length_singleton]
    omega
  · simp only [Function.update_of_ne hring]
    exact bounded k

/-- What a consumer takes from a ring the reader does not know to be free yet. -/
theorem Bounded.drain (bounded : L.Bounded cfg) (lane k count : Nat)
    (failsAfter : Nat → Option Nat) (sh : Shared) :
    (drainChannel cfg lane k count failsAfter sh L).2.Bounded cfg := by
  intro j
  have hbound := bounded j
  unfold drainChannel
  by_cases hring : j = k
  · subst hring
    simp only [Function.update_self, List.length_drop, List.length_take]
    omega
  · simp only [Function.update_of_ne hring]
    exact hbound

theorem Bounded.drainResults (bounded : L.Bounded cfg) (nowNs k count : Nat) :
    (L.drainResults nowNs k count).Bounded cfg := by
  have hstep : ∀ M M' c rest, M.Bounded cfg → M.dones k = c :: rest → Taken k nowNs c rest M M' →
      M'.Bounded cfg := by
    intro M M' c rest kept _ taken
    rw [taken.rest]
    exact kept
  exact drainResults_induction hstep count bounded

theorem Bounded.moved (bounded : L.Bounded cfg) (moved : Moved cfg lane sh L e sh' L') :
    L'.Bounded cfg := by
  cases moved with
  | quiet _ _ _ same =>
    intro k
    have hlag := same.lagged k
    have hrings : L'.rings = L.rings := by rw [same.rest]
    rw [hrings]
    exact Nat.le_trans (Nat.add_le_add_left hlag _) (bounded k)
  | unprepared | joined => exact bounded
  | handedOut _ _ d _ _ _ _ _ passed handed =>
    exact bounded.dispatch ((dispatchable_iff L d).mp passed).2.2.2.2 handed
  | drained k count failsAfter => exact bounded.drain lane k count failsAfter sh
  | verdicts k count nowNs => exact bounded.drainResults nowNs k count

end RecvLane

variable {st : RxState}

namespace RxState

def Bounded (cfg : RxConfig) (st : RxState) : Prop := ∀ lane, (st.lanes lane).Bounded cfg

theorem Bounded.step {cfg : RxConfig} {st' : RxState} {e : RxEvent} (bounded : st.Bounded cfg)
    (moved : st.step cfg e = some st') : st'.Bounded cfg := by
  cases step_stepped moved with
  | lane lane sh L _ _ change =>
    exact forall_lanes ((bounded lane).moved change) fun other _ => bounded other
  | finish => exact bounded

theorem reachable_bounded {cfg : RxConfig} {sink : Sink}
    (reached : Reachable (RxState.step cfg) (create sink) st) : st.Bounded cfg :=
  reached.invariant (fun _ _ _ bounded moved => Bounded.step bounded moved)
    fun _ _ => Nat.zero_le _

end RxState

namespace RecvLane

variable {cfg : RxConfig} {L : RecvLane}

/-- The slots of the writers' rings that are free without the reader knowing it, when it has
asked for them. -/
def unseenSlots (cfg : RxConfig) (L : RecvLane) : Nat :=
  ((List.range cfg.writers).map (L.lagSeen cfg)).sum

theorem sum_map_sub {size : Nat} {used : Nat → Nat} {ks : List Nat}
    (bounded : ∀ k ∈ ks, used k ≤ size) :
    (ks.map fun k => size - used k).sum + (ks.map used).sum = ks.length * size := by
  induction ks with
  | nil => simp
  | cons k rest ih =>
    have hk := bounded k List.mem_cons_self
    have hrest := ih fun j member => bounded j (List.mem_cons_of_mem k member)
    rw [List.map_cons, List.map_cons, List.sum_cons, List.sum_cons, List.length_cons, Nat.succ_mul]
    omega

/-- With empty rings the reader sees all slots but those it has not looked for. -/
theorem Bounded.sum_writable (bounded : L.Bounded cfg)
    (consumed : ∀ k < cfg.writers, L.rings k = []) :
    ((List.range cfg.writers).map (L.writable cfg)).sum + L.unseenSlots cfg =
      cfg.writers * cfg.capacity 0 := by
  have hsame : (List.range cfg.writers).map (L.writable cfg) =
      (List.range cfg.writers).map fun k => cfg.capacity 0 - L.lagSeen cfg k := by
    refine List.map_congr_left fun k member => ?_
    have hk := List.mem_range.mp member
    rw [writable, consumed k hk, List.length_nil, Nat.zero_add, cfg.capacity_writer hk]
  have hbound : ∀ k ∈ List.range cfg.writers, L.lagSeen cfg k ≤ cfg.capacity 0 := by
    intro k member
    have hk := List.mem_range.mp member
    rw [← cfg.capacity_writer hk]
    exact Nat.le_trans (lagSeen_le L cfg k) (Nat.le_trans (Nat.le_add_left _ _) (bounded k))
  rw [hsame, unseenSlots, sum_map_sub hbound, List.length_range]

end RecvLane

/-- A lane with nothing under way advertises its full window exactly when its reader knows of
all free slots, or of enough of them. -/
theorem idle_window_iff {cfg : RxConfig} {sink : Sink} {st : RxState}
    (reached : Reachable (RxState.step cfg) (RxState.create sink) st) {lane : Nat}
    (idle : (st.lanes lane).pending = 0)
    (consumed : ∀ k < cfg.writers, (st.lanes lane).rings k = []) :
    ((st.lanes lane).ackMessage cfg).rwnd = min kWindow (cfg.writers * cfg.capacity 0) ↔
      (st.lanes lane).unseenSlots cfg = 0 ∨
        kWindow + (st.lanes lane).unseenSlots cfg ≤ cfg.writers * cfg.capacity 0 := by
  have hsum := (RxState.reachable_bounded reached lane).sum_writable consumed
  change min ((st.lanes lane).pending + _) kWindow = _ ↔ _
  omega

/-- A ring with room to spare hides the slot of the block that went through it. -/
def wideLane : RxConfig := { lanes := 1, ringSlots := 2048 }

theorem idle_window_iff_wideLane :
    ∃ st, Reachable (RxState.step wideLane) (RxState.create memorySink) st ∧
      (st.lanes 0).unseenSlots wideLane = 1 ∧
      ((st.lanes 0).ackMessage wideLane).rwnd = min kWindow (wideLane.writers * 2048) := by
  obtain ⟨st, hreplay, hpending, hempty, hunseen⟩ : ∃ st,
      replay (RxState.step wideLane) (RxState.create memorySink) (oneBlockRun 0) = some st ∧
        (st.lanes 0).pending = 0 ∧ (∀ k < wideLane.writers, (st.lanes 0).rings k = []) ∧
        (st.lanes 0).unseenSlots wideLane = 1 := by decide +kernel
  have hreached : Reachable (RxState.step wideLane) (RxState.create memorySink) st := ⟨_, hreplay⟩
  refine ⟨st, hreached, hunseen, (idle_window_iff hreached hpending hempty).mpr (Or.inr ?_)⟩
  rw [hunseen]
  decide

/-- After one block has been received, written and reported, nothing is under way and the
only ring is empty, and still the lane advertises one block less than the ring holds. -/
theorem idle_window_short :
    ∃ st, Reachable (RxState.step oneLane) (RxState.create memorySink) st ∧
      (st.lanes 0).pending = 0 ∧ (∀ k < oneLane.writers, (st.lanes 0).rings k = []) ∧
      min kWindow (oneLane.writers * oneLane.capacity 0) = 16 ∧
      ((st.lanes 0).ackMessage oneLane).rwnd = 15 := by
  obtain ⟨st, hreplay, hpending, hempty, hrwnd⟩ : ∃ st,
      replay (RxState.step oneLane) (RxState.create memorySink) (oneBlockRun 0) = some st ∧
        (st.lanes 0).pending = 0 ∧ (∀ k < oneLane.writers, (st.lanes 0).rings k = []) ∧
        ((st.lanes 0).ackMessage oneLane).rwnd = 15 := by decide +kernel
  exact ⟨st, ⟨_, hreplay⟩, hpending, hempty, by decide +kernel, hrwnd⟩

/-! ## What arrives after an acknowledgement -/

/-- A datagram that carries block `seq` for the first time. -/
structure Arrival where
  seq : Nat
  inp : RecvLane.Inputs
  dg : List UInt8
  block : ∃ d, decodeDataDatagram dg = some d ∧ d.hdr.seqNo = seq ∧
    isRetransmission d.hdr.flags = false
  fits : dg.length ≤ kMaxDatagramSize

def Arrival.event (lane : Nat) (a : Arrival) : RxEvent := .datagram lane a.inp a.dg

namespace RecvLane

variable (cfg : RxConfig) (L : RecvLane)

/-- The datagram is dropped because the ring of its block has no slot for the reader. -/
def overrun (dg : List UInt8) : Bool :=
  L.haveStart && (decodeDataDatagram dg).any fun d =>
    L.rx.baseSeqNo ≤ d.hdr.seqNo && d.hdr.seqNo - L.rx.baseSeqNo < kWindow &&
      !L.rx.isReceived (d.hdr.seqNo - L.rx.baseSeqNo) &&
      L.dispatched (d.hdr.seqNo % kWindow) ≠ d.hdr.seqNo &&
      L.writable cfg (route cfg d.hdr) = 0

/-- The blocks an acknowledgement lets the sender have outstanding, without those that are
received or with a consumer. -/
def outstanding : List Nat :=
  (List.range' (L.ackMessage cfg).baseSeqNo (L.ackMessage cfg).rwnd).filter fun s =>
    s < 2 ^ 64 && !L.rx.isReceived (s - L.rx.baseSeqNo) && s ∉ L.inFlight cfg

/-- The block of this number is bound for writer `k`.  The last number is also the mark of
an empty place, so that the reader takes its block for one that is out. -/
def boundFor (k s : Nat) : Bool :=
  s < kNone && (s / kRouteRun) % cfg.writers = k

/-- How many of the outstanding blocks are bound for writer `k`. -/
def demand (k : Nat) : Nat :=
  (L.outstanding cfg).countP (boundFor cfg k)

end RecvLane

/-- A step at which the reader drops a block because its ring is full. -/
def RxState.overruns (cfg : RxConfig) (st : RxState) : RxEvent → Bool
  | .datagram lane _ dg => (st.lanes lane).overrun cfg dg
  | _ => false

variable {s : Nat} {seqs : List Nat}

namespace RecvLane

variable {cfg : RxConfig} {lane : Nat} {sh : Shared} {L : RecvLane}

/-- A lane that has the blocks `seqs` still to come, with nobody but its reader at work. -/
structure Awaits (cfg : RxConfig) (lane : Nat) (sh : Shared) (L : RecvLane) (seqs : List Nat) :
    Prop where
  inv : L.Inv cfg lane sh
  bounded : L.Bounded cfg
  started : L.haveStart = true
  distinct : seqs.Nodup
  above : ∀ s ∈ seqs, L.rx.baseSeqNo ≤ s
  inside : ∀ s ∈ seqs, s - L.rx.baseSeqNo < kWindow
  missing : ∀ s ∈ seqs, L.rx.isReceived (s - L.rx.baseSeqNo) = false
  absent : ∀ s ∈ seqs, s ∉ L.inFlight cfg

theorem Awaits.sublist {fewer : List Nat} (awaits : L.Awaits cfg lane sh seqs)
    (sub : fewer.Sublist seqs) : L.Awaits cfg lane sh fewer where
  inv := awaits.inv
  bounded := awaits.bounded
  started := awaits.started
  distinct := awaits.distinct.sublist sub
  above := fun s member => awaits.above s (sub.subset member)
  inside := fun s member => awaits.inside s (sub.subset member)
  missing := fun s member => awaits.missing s (sub.subset member)
  absent := fun s member => awaits.absent s (sub.subset member)

theorem Awaits.below (awaits : L.Awaits cfg lane sh seqs) (member : s ∈ seqs) :
    s < L.rx.baseSeqNo + kWindow := by
  have hinside := awaits.inside s member
  omega

/-- The place of a block that is not out holds its number only if that is the mark of an
empty place. -/
theorem Handout.mark_eq_iff (holds : L.Handout cfg) (above : L.rx.baseSeqNo ≤ s)
    (inside : s - L.rx.baseSeqNo < kWindow) (absent : s ∉ L.inFlight cfg) :
    L.dispatched (s % kWindow) = s ↔ s = kNone := by
  have hplace : s % kWindow < kWindow := Nat.mod_lt _ (by decide)
  constructor
  · intro hmark
    by_contra hset
    have hout := (holds.marks _ hplace (by rw [hmark]; exact hset)).1
    rw [hmark] at hout
    exact absent hout
  · intro hnone
    by_contra hmark
    obtain ⟨hout, hresidue⟩ := holds.marks _ hplace (by rwa [hnone] at hmark ⊢)
    exact hmark (mem_inFlight_of_same_mark holds above (by omega) hresidue.symm hout).symm

theorem Awaits.mark_iff {seqs : List Nat} (awaits : L.Awaits cfg lane sh seqs) (member : s ∈ seqs) :
    L.dispatched (s % kWindow) = s ↔ s = kNone :=
  awaits.inv.handout.mark_eq_iff (awaits.above s member) (awaits.inside s member)
    (awaits.absent s member)

section Arriving

variable {a : Arrival} {rest : List Nat}

section

variable (awaits : L.Awaits cfg lane sh (a.seq :: rest))
include awaits

/-- The checks in front of the ring pass for all blocks to come but the last number. -/
theorem Awaits.overrun_iff :
    L.overrun cfg a.dg = true ↔
      a.seq < kNone ∧ (L.rings ((a.seq / kRouteRun) % cfg.writers)).length =
        cfg.capacity ((a.seq / kRouteRun) % cfg.writers) := by
  obtain ⟨d, hdecoded, hseq, hfirst⟩ := a.block
  have hword : a.seq < 2 ^ 64 := hseq ▸ (decodeDataDatagram_fits hdecoded).seqNo
  have hmem : a.seq ∈ a.seq :: rest := List.mem_cons_self
  have hroute : route cfg d.hdr = (a.seq / kRouteRun) % cfg.writers := by
    simp [route, hfirst, hseq]
  have hlast : L.dispatched (a.seq % kWindow) ≠ a.seq ↔ a.seq < kNone := by
    rw [Ne, awaits.mark_iff hmem]
    unfold kNone
    omega
  rw [overrun, awaits.started, hdecoded, Option.any_some, hseq, hroute]
  simp only [Bool.and_eq_true, decide_eq_true_eq, Bool.not_eq_true',
    awaits.missing _ hmem, awaits.above _ hmem, awaits.inside _ hmem, true_and, hlast,
    awaits.bounded.writable_eq_zero]

/-- The last number is taken for one that is out. -/
theorem Awaits.refuse (last : a.seq = kNone) :
    onDatagram cfg lane a.inp sh L a.dg = some (sh, L, []) := by
  obtain ⟨d, hdecoded, hseq, _⟩ := a.block
  have hmem : a.seq ∈ a.seq :: rest := List.mem_cons_self
  have hpeek : peekMsgType a.dg = some .data :=
    peekMsgType_of_checkOuter (decodeDataDatagram_some hdecoded).1
  have hblocked : dispatchable cfg L d = false := by
    rw [Bool.eq_false_iff]
    intro passed
    have hfree := ((dispatchable_iff L d).mp passed).2.2.2.1
    rw [hseq] at hfree
    exact hfree ((awaits.mark_iff hmem).mpr last)
  have hrefused : passes cfg L a.dg = none := by
    rw [passes, if_pos awaits.started, hdecoded, Option.filter_some, hblocked]
    rfl
  simp [onDatagram, hpeek, hrefused]

/-- When one of the blocks is handed out, the others are awaited as before. -/
theorem Awaits.handed (decoded : decodeDataDatagram a.dg = some d) (number : d.hdr.seqNo = a.seq)
    (passed : dispatchable cfg L d = true) (handed : dispatch cfg L a.dg d = some L') :
    L'.Awaits cfg lane sh rest := by
  have hmem : a.seq ∈ a.seq :: rest := List.mem_cons_self
  have hnext := awaits.sublist (List.sublist_cons_self a.seq rest)
  have hinv := dispatch_inv awaits.inv decoded awaits.started passed handed
  have hbounded := awaits.bounded.dispatch ((dispatchable_iff L d).mp passed).2.2.2.2 handed
  obtain ⟨slot, hstate⟩ := dispatch_some handed
  have hrx : L'.rx = L.rx := by rw [hstate]
  refine { hnext with
    inv := hinv, bounded := hbounded, started := by rw [hstate]; exact awaits.started,
    above := hrx ▸ hnext.above, inside := hrx ▸ hnext.inside,
    missing := hrx ▸ hnext.missing, absent := ?_ }
  -- A number that is out holds its place, and the places of the others are as before.
  intro s member out
  have hplace := hinv.handout.marked s out
  have hother : s % kWindow ≠ a.seq % kWindow := by
    intro same
    have heq := Residues.eq_of_mod_eq (hnext.above s member)
      (hnext.below member) (awaits.above _ hmem) (awaits.below hmem) same
    exact (List.nodup_cons.mp awaits.distinct).1 (heq ▸ member)
  rw [hstate, number] at hplace
  simp only [Function.update_of_ne hother] at hplace
  exact Nat.ne_of_lt (hinv.handout.bounded s out) ((hnext.mark_iff member).mp hplace)

/-- Only the block's own ring grows, unless its number is the last one. -/
theorem Awaits.arrive (kept : L.overrun cfg a.dg = false) :
    ∃ L', onDatagram cfg lane a.inp sh L a.dg = some (sh, L', []) ∧ L'.Awaits cfg lane sh rest ∧
      L'.status = L.status ∧ ∀ k < cfg.writers, (L'.rings k).length =
        (L.rings k).length + if boundFor cfg k a.seq then 1 else 0 := by
  obtain ⟨d, hdecoded, hseq, hfirst⟩ := a.block
  have hmem : a.seq ∈ a.seq :: rest := List.mem_cons_self
  have hroute : route cfg d.hdr = (a.seq / kRouteRun) % cfg.writers := by
    simp [route, hfirst, hseq]
  by_cases hlast : a.seq = kNone
  · refine ⟨L, awaits.refuse hlast, awaits.sublist (List.sublist_cons_self a.seq rest), rfl,
      fun k _ => ?_⟩
    simp [boundFor, hlast]
  · have hword : a.seq < 2 ^ 64 := hseq ▸ (decodeDataDatagram_fits hdecoded).seqNo
    have hbelow : a.seq < kNone := by
      unfold kNone at hlast ⊢
      omega
    have hfree : L.writable cfg (route cfg d.hdr) ≠ 0 := by
      rw [hroute, Ne, awaits.bounded.writable_eq_zero]
      intro full
      exact absurd (awaits.overrun_iff.mpr ⟨hbelow, full⟩) (by rw [kept]; decide)
    have hpassed : dispatchable cfg L d = true := by
      rw [dispatchable_iff, hseq]
      exact ⟨awaits.above _ hmem, awaits.inside _ hmem, awaits.missing _ hmem,
        mt (awaits.mark_iff hmem).mp hlast, hfree⟩
    obtain ⟨L', hhanded⟩ : ∃ L', dispatch cfg L a.dg d = some L' := by
      rw [dispatch, dif_pos a.fits]
      exact ⟨_, rfl⟩
    have hpeek : peekMsgType a.dg = some .data :=
      peekMsgType_of_checkOuter (decodeDataDatagram_some hdecoded).1
    have hdone : onDatagram cfg lane a.inp sh L a.dg = some (sh, L', []) := by
      simp [onDatagram, hpeek, passes, awaits.started, hdecoded, Option.filter_some, hpassed,
        hhanded]
    obtain ⟨slot, hstate⟩ := dispatch_some hhanded
    refine ⟨L', hdone, awaits.handed hdecoded hseq hpassed hhanded, by rw [hstate], fun k hk => ?_⟩
    rw [hstate, hroute]
    by_cases hring : (a.seq / kRouteRun) % cfg.writers = k
    · simp [boundFor, hbelow, hring]
    · simp [boundFor, hring, Function.update_of_ne (Ne.symm hring)]

end

end Arriving

end RecvLane

namespace RxState

variable {cfg : RxConfig}

/-- Blocks that arrive while only the reader works find a slot exactly when every ring has
room for all that are bound for it. -/
theorem arrivals_kept_iff {lane : Nat} {arrivals : List Arrival}
    (reading : st.reading cfg lane = true)
    (awaits : (st.lanes lane).Awaits cfg lane st.shared (arrivals.map Arrival.seq)) :
    Along (RxState.step cfg) (fun st e => st.overruns cfg e = false) st
        (arrivals.map (Arrival.event lane)) ↔
      ∀ k < cfg.writers, ((st.lanes lane).rings k).length +
        (arrivals.map Arrival.seq).countP (RecvLane.boundFor cfg k) ≤ cfg.capacity k := by
  induction arrivals generalizing st with
  | nil =>
    refine iff_of_true trivial fun k _ => ?_
    exact Nat.le_trans (Nat.le_add_right _ _) (awaits.bounded k)
  | cons a rest ih =>
    cases hkept : (st.lanes lane).overrun cfg a.dg with
    | true =>
      obtain ⟨hbelow, hfull⟩ := awaits.overrun_iff.mp hkept
      refine iff_of_false (fun along => ?_) (fun room => ?_)
      · have hmeets : (st.lanes lane).overrun cfg a.dg = false := along.1
        rw [hkept] at hmeets
        cases hmeets
      · have hroom := room _ (Nat.mod_lt (a.seq / kRouteRun) cfg.writers_pos)
        rw [List.map_cons, List.countP_cons_of_pos (by simp [RecvLane.boundFor, hbelow])] at hroom
        omega
    | false =>
      obtain ⟨L', hdone, hawaits, hstatus, hgrown⟩ := awaits.arrive hkept
      have hstep : st.step cfg (a.event lane) = some { st.setLane lane L' with shared := st.shared } := by
        simp [RxState.step, RxState.act, Arrival.event, reading, hdone]
      have hself : ({ st.setLane lane L' with shared := st.shared } : RxState).lanes lane = L' :=
        setLane_self st lane L'
      have hreading : ({ st.setLane lane L' with shared := st.shared } : RxState).reading cfg lane =
          true := by
        rw [RxState.reading, hself, hstatus]
        exact reading
      have hrest := ih hreading (by rw [hself]; exact hawaits)
      rw [hself] at hrest
      have hsame : ∀ k < cfg.writers, (L'.rings k).length +
          (rest.map Arrival.seq).countP (RecvLane.boundFor cfg k) =
          ((st.lanes lane).rings k).length +
            ((a :: rest).map Arrival.seq).countP (RecvLane.boundFor cfg k) := by
        intro k hk
        rw [hgrown k hk, List.map_cons, List.countP_cons]
        omega
      constructor
      · intro along k hk
        rw [← hsame k hk]
        exact hrest.mp (along.2 _ hstep) k hk
      · intro room
        refine along_cons hstep hkept (hrest.mpr fun k hk => ?_)
        rw [hsame k hk]
        exact room k hk

end RxState

/-! ## The window and the rings -/

/-- Block `s` without payload, sent for the first time. -/
def Arrival.empty (s : Nat) (fits : s < 2 ^ 64) : Arrival where
  seq := s
  inp := {}
  dg := dataPrefix { seqNo := s } 0
  block := by
    have hdecoded := decodeDataDatagram_encode { seqNo := s }
      ⟨by simp, fits, by simp, by simp⟩ (show 0 < 2 ^ 64 by decide)
      (show ([] : List UInt8).length = 0 from rfl) []
    rw [List.append_nil, List.append_nil] at hdecoded
    exact ⟨_, hdecoded, rfl, by simp [isRetransmission]⟩
  fits := by rw [length_dataPrefix]; decide

theorem exists_arrivals (fit : ∀ s ∈ seqs, s < 2 ^ 64) :
    ∃ arrivals : List Arrival, arrivals.map Arrival.seq = seqs := by
  induction seqs with
  | nil => exact ⟨[], rfl⟩
  | cons s rest ih =>
    obtain ⟨arrivals, hseqs⟩ := ih fun t member => fit t (List.mem_cons_of_mem s member)
    refine ⟨Arrival.empty s (fit s List.mem_cons_self) :: arrivals, ?_⟩
    rw [List.map_cons, hseqs]
    rfl

namespace RecvLane

variable {cfg : RxConfig} {lane : Nat} {sh : Shared} {L : RecvLane}

theorem mem_outstanding (member : s ∈ L.outstanding cfg) :
    L.rx.baseSeqNo ≤ s ∧ s - L.rx.baseSeqNo < kWindow ∧ s < 2 ^ 64 ∧
      L.rx.isReceived (s - L.rx.baseSeqNo) = false ∧ s ∉ L.inFlight cfg := by
  obtain ⟨hrange, hchecks⟩ := List.mem_filter.mp member
  obtain ⟨habove, hbelow⟩ := List.mem_range'_1.mp hrange
  have hbase : (L.ackMessage cfg).baseSeqNo = L.rx.baseSeqNo := rfl
  have hwindow : (L.ackMessage cfg).rwnd ≤ kWindow := Nat.min_le_right _ _
  simp only [Bool.and_eq_true, decide_eq_true_eq, Bool.not_eq_true'] at hchecks
  exact ⟨habove, by omega, hchecks.1.1, hchecks.1.2, hchecks.2⟩

/-- What an acknowledgement lets the sender have outstanding is awaited. -/
theorem outstanding_awaits {L' : RecvLane} (inv : L'.Inv cfg lane sh) (bounded : L'.Bounded cfg)
    (started : L'.haveStart = true) (rx : L'.rx = L.rx) (out : L'.inFlight cfg = L.inFlight cfg) :
    L'.Awaits cfg lane sh (L.outstanding cfg) where
  inv := inv
  bounded := bounded
  started := started
  distinct := List.Nodup.filter _ List.nodup_range'
  above := fun s member => rx ▸ (mem_outstanding member).1
  inside := fun s member => rx ▸ (mem_outstanding member).2.1
  missing := fun s member => rx ▸ (mem_outstanding member).2.2.2.1
  absent := fun s member => out ▸ (mem_outstanding member).2.2.2.2

end RecvLane

/-- After an acknowledgement, the blocks it allows are all absorbed, whichever of them
arrive, exactly when no writer's ring is asked for more slots than it has. -/
theorem window_absorbed_iff {cfg : RxConfig} {sink : Sink} {st st' : RxState}
    (reached : Reachable (RxState.step cfg) (RxState.create sink) st) {lane : Nat} {works : Bool}
    (acked : st.step cfg (.ack lane works) = some st') :
    (∀ arrivals : List Arrival,
      (arrivals.map Arrival.seq).Sublist ((st.lanes lane).outstanding cfg) →
      Along (RxState.step cfg) (fun st e => st.overruns cfg e = false) st'
        (arrivals.map (Arrival.event lane))) ↔
      ∀ k < cfg.writers, ((st.lanes lane).rings k).length + (st.lanes lane).demand cfg k ≤
        cfg.capacity k := by
  obtain ⟨⟨_, sent⟩, hact, rfl⟩ := Option.map_eq_some_iff.mp acked
  obtain ⟨hreading, hstart, hstate, _⟩ := RxState.onLane_some hact
  have hreached := reached.tail acked
  subst hstate
  have hself := RxState.setLane_self st lane ((st.lanes lane).sendAck cfg works).1
  have hnow : (st.setLane lane ((st.lanes lane).sendAck cfg works).1).reading cfg lane = true := by
    rw [RxState.reading, hself]
    exact hreading
  have hawaits := RecvLane.outstanding_awaits (L := st.lanes lane)
    (RxState.reachable_inv hreached lane) (RxState.reachable_bounded hreached lane)
    (by rw [hself]; exact hstart) (by rw [hself]; rfl) (by rw [hself]; rfl)
  constructor
  · intro absorbed k hk
    have hfit : ∀ s ∈ (st.lanes lane).outstanding cfg, s < 2 ^ 64 := fun _ member =>
      (RecvLane.mem_outstanding member).2.2.1
    obtain ⟨arrivals, hseqs⟩ := exists_arrivals hfit
    have hroom := (RxState.arrivals_kept_iff hnow (hseqs ▸ hawaits)).mp
      (absorbed arrivals (hseqs ▸ List.Sublist.refl _)) k hk
    rw [hself, hseqs] at hroom
    exact hroom
  · intro room arrivals sub
    refine (RxState.arrivals_kept_iff hnow (hawaits.sublist sub)).mpr fun k hk => ?_
    rw [hself]
    exact Nat.le_trans (Nat.add_le_add_left sub.countP_le _) (room k hk)

/-- With one writer, a lane that has just joined can take the sixteen blocks it says. -/
theorem window_absorbed_iff_joined :
    ∃ st st', Reachable (RxState.step oneLane) (RxState.create memorySink) st ∧
      st.step oneLane (.ack 0 true) = some st' ∧ ((st.lanes 0).ackMessage oneLane).rwnd = 16 ∧
      ∀ arrivals : List Arrival, (arrivals.map Arrival.seq).Sublist (List.range 16) →
        Along (RxState.step oneLane) (fun st e => st.overruns oneLane e = false) st'
          (arrivals.map (Arrival.event 0)) := by
  obtain ⟨st, hreplay, hrwnd, hallowed, hring, hsome⟩ : ∃ st, replay (RxState.step oneLane)
      (RxState.create memorySink) [.datagram 0 {} oneByteStart] = some st ∧
        ((st.lanes 0).ackMessage oneLane).rwnd = 16 ∧
        (st.lanes 0).outstanding oneLane = List.range 16 ∧ ((st.lanes 0).rings 0).length = 0 ∧
        (st.step oneLane (.ack 0 true)).isSome = true := by decide +kernel
  obtain ⟨st', hacked⟩ := Option.isSome_iff_exists.mp hsome
  have hreached : Reachable (RxState.step oneLane) (RxState.create memorySink) st := ⟨_, hreplay⟩
  have habsorbed := (window_absorbed_iff hreached hacked).mpr (by
    intro k hk
    have hfirst : k = 0 := Nat.lt_one_iff.mp hk
    rw [hfirst, hring, RecvLane.demand, hallowed]
    decide +kernel)
  rw [hallowed] at habsorbed
  exact ⟨st, st', hreached, hacked, hrwnd, habsorbed⟩

def twoWriters : RxConfig := { lanes := 1, writerThreads := 2 }

def firstSeventeen : List Arrival :=
  (List.finRange 17).map fun s => Arrival.empty s.val (Nat.lt_trans s.isLt (by decide))

/-- With two writers the lane says thirty-two, while the first sixty-four blocks are all
bound for the first writer: of the first seventeen one is dropped. -/
theorem window_overrun_twoWriters :
    ∃ st st', Reachable (RxState.step twoWriters) (RxState.create memorySink) st ∧
      st.step twoWriters (.ack 0 true) = some st' ∧
      ((st.lanes 0).ackMessage twoWriters).baseSeqNo = 0 ∧
      ((st.lanes 0).ackMessage twoWriters).rwnd = 32 ∧
      (firstSeventeen.map Arrival.seq).Sublist ((st.lanes 0).outstanding twoWriters) ∧
      ¬ Along (RxState.step twoWriters) (fun st e => st.overruns twoWriters e = false) st'
        (firstSeventeen.map (Arrival.event 0)) := by
  obtain ⟨st, hreplay, hbase, hrwnd, hsub, st', hacked, hnot⟩ : ∃ st,
      replay (RxState.step twoWriters) (RxState.create memorySink)
        [.datagram 0 {} oneByteStart] = some st ∧
      ((st.lanes 0).ackMessage twoWriters).baseSeqNo = 0 ∧
      ((st.lanes 0).ackMessage twoWriters).rwnd = 32 ∧
      (firstSeventeen.map Arrival.seq).Sublist ((st.lanes 0).outstanding twoWriters) ∧
      ∃ st', st.step twoWriters (.ack 0 true) = some st' ∧
        ¬ Along (RxState.step twoWriters) (fun st e => st.overruns twoWriters e = false) st'
          (firstSeventeen.map (Arrival.event 0)) := by decide +kernel
  exact ⟨st, st', ⟨_, hreplay⟩, hacked, hbase, hrwnd, hsub, hnot⟩

end FuseTransport.Transfer
