import FuseTransport.Foundation.MarkRing
import FuseTransport.Foundation.SetBits
import FuseTransport.Foundation.Splice
import FuseTransport.Proto.Setup

/-!
# Reassembly of a received stream

A stream that is not ordered surfaces each block when it first arrives and keeps a ring of
bits to tell repetitions.  An ordered stream surfaces blocks by number and keeps a ring of
slots for those that wait.  Both are tracked here by one list, the numbers that were taken.
-/

namespace FuseTransport.Proto

open Foundation Foundation.MarkRing Foundation.SetBits Foundation.Splice

def kMaxDeliveryTrace : Nat := 2 ^ 16

/-- One call of `onBlock`; the payload has `len` bytes unless it is the null pointer. -/
structure Arrival where
  seqNo : Nat
  offset : Nat
  payload : Option (List UInt8)
  len : Nat
  fits : ∀ bytes, payload = some bytes → bytes.length = len

structure ReorderSlot where
  seqNo : Nat := 0
  len : Nat := 0
  valid : Bool := false
  deriving DecidableEq, Repr

structure ReassemblyStream where
  ordered : Bool
  sink : Option (List UInt8)
  sinkCap : Nat
  totalBlocks : Nat
  deliveredCount : Nat := 0
  deliveryOrder : List Nat := []
  unorderedLow : Nat := 0
  unorderedSeen : Nat → BitVec 64 := fun _ => 0
  nextExpected : Nat := 0
  buffer : Nat → ReorderSlot := fun _ => {}
  /-- Every number surfaced so far.  The code keeps only the first `kMaxDeliveryTrace`. -/
  surfaced : List Nat := []

variable {taken : List Nat} {st : ReassemblyStream}

namespace ReassemblyStream

def create (config : StreamConfig) (sink : Option (List UInt8)) (sinkCap totalBlocks : Nat) :
    ReassemblyStream where
  ordered := decide (config.streamFlags &&& kStreamFlagOrdered ≠ 0)
  sink := sink
  sinkCap := sinkCap
  totalBlocks := totalBlocks

def isComplete (st : ReassemblyStream) : Bool :=
  decide (st.totalBlocks ≠ 0) && st.deliveredCount == st.totalBlocks

def record (st : ReassemblyStream) (seqNo : Nat) : ReassemblyStream :=
  { st with
    deliveryOrder :=
      if st.deliveryOrder.length < kMaxDeliveryTrace then st.deliveryOrder ++ [seqNo]
      else st.deliveryOrder
    deliveredCount := u64 (st.deliveredCount + 1)
    surfaced := st.surfaced ++ [seqNo] }

/-- The sink after a block was written where it fits. -/
def written (sink : Option (List UInt8)) (sinkCap : Nat) (block : Arrival) :
    Option (List UInt8) :=
  match sink, block.payload with
  | some content, some bytes =>
    if block.len > 0 ∧ block.offset ≤ sinkCap ∧ block.len ≤ sinkCap - block.offset then
      some (splice 0 content block.offset bytes)
    else some content
  | held, _ => held

def writeSink (st : ReassemblyStream) (block : Arrival) : ReassemblyStream :=
  { st with sink := written st.sink st.sinkCap block }

def deliver (st : ReassemblyStream) (block : Arrival) : ReassemblyStream :=
  (st.writeSink block).record block.seqNo

def seen (st : ReassemblyStream) (seqNo : Nat) : Bool :=
  (st.unorderedSeen (seqNo % kMaxWindow / 64)).getLsbD (seqNo % 64)

def markSeen (st : ReassemblyStream) (seqNo : Nat) : ReassemblyStream :=
  { st with
    unorderedSeen := Function.update st.unorderedSeen (seqNo % kMaxWindow / 64)
      (st.unorderedSeen (seqNo % kMaxWindow / 64) ||| (1#64 <<< (seqNo % 64))) }

def passLow (st : ReassemblyStream) : ReassemblyStream :=
  { st with
    unorderedSeen := Function.update st.unorderedSeen (st.unorderedLow % kMaxWindow / 64)
      (st.unorderedSeen (st.unorderedLow % kMaxWindow / 64) &&&
        ~~~(1#64 <<< (st.unorderedLow % 64)))
    unorderedLow := u64 (st.unorderedLow + 1) }

def slideLow : Nat → ReassemblyStream → ReassemblyStream
  | 0, st => st
  | fuel + 1, st => if st.seen st.unorderedLow then slideLow fuel st.passLow else st

def onUnordered (st : ReassemblyStream) (block : Arrival) : ReassemblyStream × Nat :=
  if block.seqNo < st.unorderedLow ∨ block.seqNo - st.unorderedLow ≥ kMaxWindow then (st, 0)
  else if st.seen block.seqNo then (st, 0)
  else ((slideLow kMaxWindow (st.markSeen block.seqNo)).deliver block, 1)

def waits (st : ReassemblyStream) (seqNo : Nat) : Bool :=
  (st.buffer (seqNo % kMaxWindow)).valid && (st.buffer (seqNo % kMaxWindow)).seqNo == seqNo

def hold (st : ReassemblyStream) (block : Arrival) : ReassemblyStream :=
  { st with
    buffer := Function.update st.buffer (block.seqNo % kMaxWindow)
      { seqNo := block.seqNo, len := block.len, valid := true } }

def release (st : ReassemblyStream) : ReassemblyStream :=
  { st.record (st.buffer (st.nextExpected % kMaxWindow)).seqNo with
    buffer := Function.update st.buffer (st.nextExpected % kMaxWindow)
      { st.buffer (st.nextExpected % kMaxWindow) with valid := false }
    nextExpected := u64 (st.nextExpected + 1) }

/-- Each round frees one of `kMaxWindow` slots; the second component counts the rounds. -/
def drain : Nat → ReassemblyStream → ReassemblyStream × Nat
  | 0, st => (st, 0)
  | fuel + 1, st =>
    if st.waits st.nextExpected then
      let drained := drain fuel st.release
      (drained.1, drained.2 + 1)
    else (st, 0)

def deliverNext (st : ReassemblyStream) (block : Arrival) : ReassemblyStream :=
  { st.deliver block with nextExpected := u64 (st.nextExpected + 1) }

def onOrdered (st : ReassemblyStream) (block : Arrival) : ReassemblyStream × Nat :=
  if block.seqNo < st.nextExpected then (st, 0)
  else if block.seqNo > st.nextExpected then
    if block.seqNo - st.nextExpected < kMaxWindow then
      if st.waits block.seqNo then (st, 0) else ((st.writeSink block).hold block, 0)
    else (st, 0)
  else
    let drained := drain kMaxWindow (st.deliverNext block)
    (drained.1, drained.2 + 1)

/-- The state after a block, and how many blocks it surfaced. -/
def onBlock (st : ReassemblyStream) (block : Arrival) : ReassemblyStream × Nat :=
  if st.ordered then st.onOrdered block else st.onUnordered block

/-- The state after a list of blocks. -/
def feed (st : ReassemblyStream) (blocks : List Arrival) : ReassemblyStream :=
  blocks.foldl (fun reached block => (reached.onBlock block).1) st

@[simp]
theorem feed_concat (st : ReassemblyStream) (blocks : List Arrival) (block : Arrival) :
    st.feed (blocks ++ [block]) = ((st.feed blocks).onBlock block).1 := by
  simp [feed]

theorem seen_eq_bitAt (st : ReassemblyStream) (n : Nat) :
    st.seen n = bitAt st.unorderedSeen (n % kMaxWindow) := by
  rw [seen, bitAt, Nat.mod_mod_of_dvd n (by decide)]

theorem seen_markSeen (st : ReassemblyStream) (seqNo n : Nat) :
    (st.markSeen seqNo).seen n = (decide (n % kMaxWindow = seqNo % kMaxWindow) || st.seen n) := by
  rw [seen_eq_bitAt, seen_eq_bitAt, ← bitAt_set, markSeen, Nat.mod_mod_of_dvd seqNo (by decide)]

theorem seen_passLow (st : ReassemblyStream) (n : Nat) :
    st.passLow.seen n =
      (decide (n % kMaxWindow ≠ st.unorderedLow % kMaxWindow) && st.seen n) := by
  rw [seen_eq_bitAt, seen_eq_bitAt, ← bitAt_clear, passLow,
    Nat.mod_mod_of_dvd st.unorderedLow (by decide)]

theorem waits_iff (st : ReassemblyStream) (n : Nat) :
    st.waits n = true ↔
      (st.buffer (n % kMaxWindow)).valid = true ∧ (st.buffer (n % kMaxWindow)).seqNo = n := by
  simp [waits]

theorem waits_hold (st : ReassemblyStream) (block : Arrival) (n : Nat) :
    (st.hold block).waits n = true ↔
      n = block.seqNo ∨ (n % kMaxWindow ≠ block.seqNo % kMaxWindow ∧ st.waits n = true) := by
  rw [waits_iff, waits_iff, hold]
  by_cases hplace : n % kMaxWindow = block.seqNo % kMaxWindow
  · simp only [hplace, Function.update_self, true_and, ne_eq, not_true, false_and, or_false]
    exact eq_comm
  · have hother : n ≠ block.seqNo := fun same => hplace (by rw [same])
    simp [hplace, hother]

theorem waits_release (st : ReassemblyStream) (n : Nat) :
    st.release.waits n = true ↔
      n % kMaxWindow ≠ st.nextExpected % kMaxWindow ∧ st.waits n = true := by
  rw [waits_iff, waits_iff, release]
  by_cases hplace : n % kMaxWindow = st.nextExpected % kMaxWindow <;> simp [hplace]

/-! ## The numbers a stream has taken -/

/-- The lowest number the stream still lacks. -/
def low (st : ReassemblyStream) : Nat := if st.ordered then st.nextExpected else st.unorderedLow

def Marked (st : ReassemblyStream) (n : Nat) : Prop :=
  (if st.ordered then st.waits n else st.seen n) = true

theorem low_of_ordered (ordered : st.ordered = true) : st.low = st.nextExpected := if_pos ordered

theorem low_of_unordered (unordered : st.ordered = false) : st.low = st.unorderedLow := by
  simp [low, unordered]

theorem marked_of_ordered (ordered : st.ordered = true) (n : Nat) :
    st.Marked n ↔ st.waits n = true := by
  rw [Marked, if_pos ordered]

theorem marked_of_unordered (unordered : st.ordered = false) (n : Nat) :
    st.Marked n ↔ st.seen n = true := by
  simp [Marked, unordered]

structure Recorded (st : ReassemblyStream) : Prop where
  count : st.deliveredCount = u64 st.surfaced.length
  trace : st.deliveryOrder = st.surfaced.take kMaxDeliveryTrace

/-- The list `taken` explains the stream: its ring, and what it has surfaced. -/
structure Tracks (st : ReassemblyStream) (taken : List Nat) : Prop where
  mirrors : Mirrors kMaxWindow st.Marked st.low taken
  held : st.ordered = true → ∀ n, st.waits n = true → n ∈ taken
  surfaced : st.surfaced = if st.ordered then List.range st.low else taken
  recorded : st.Recorded

/-- Between two calls the low end is missing, and no number was taken twice. -/
structure Settled (st : ReassemblyStream) (taken : List Nat) : Prop extends Tracks st taken where
  missing : st.low ∉ taken
  nodup : taken.Nodup
  bounded : ∀ n ∈ taken, n + 1 < 2 ^ 64

theorem settled_create (config : StreamConfig) (sink : Option (List UInt8))
    (sinkCap totalBlocks : Nat) : (create config sink sinkCap totalBlocks).Settled [] := by
  have hseen : ∀ n, (create config sink sinkCap totalBlocks).seen n = false := fun n =>
    BitVec.getLsbD_zero
  have hwaits : ∀ n, (create config sink sinkCap totalBlocks).waits n = false := fun n => rfl
  have hlow : (create config sink sinkCap totalBlocks).low = 0 := ite_self 0
  constructor
  · constructor
    · rw [hlow]
      apply Mirrors.empty
      intro n
      rw [Marked, hseen, hwaits, ite_self]
      exact Bool.false_ne_true
    · intro _ n hn
      cases hn
    · rw [hlow]
      exact (ite_self []).symm
    · exact ⟨rfl, rfl⟩
  · exact List.not_mem_nil
  · exact List.nodup_nil
  · intro n impossible
    cases impossible

theorem Recorded.record (recorded : st.Recorded) (seqNo : Nat) :
    (st.record seqNo).Recorded where
  count := by
    change u64 (st.deliveredCount + 1) = u64 (st.surfaced ++ [seqNo]).length
    rw [recorded.count, List.length_append]
    exact Nat.mod_add_mod _ _ _
  trace := by
    have hlength : st.deliveryOrder.length = min kMaxDeliveryTrace st.surfaced.length := by
      rw [recorded.trace, List.length_take]
    change (if st.deliveryOrder.length < kMaxDeliveryTrace then _ else _) =
      (st.surfaced ++ [seqNo]).take kMaxDeliveryTrace
    split
    · rw [recorded.trace, List.take_of_length_le (by omega), List.take_of_length_le]
      rw [List.length_append, List.length_singleton]
      omega
    · rw [recorded.trace, List.take_append_of_le_length (by omega)]

/-- What no call changes, and the sink. -/
structure SameSink (st after : ReassemblyStream) : Prop where
  ordered : after.ordered = st.ordered
  sink : after.sink = st.sink
  sinkCap : after.sinkCap = st.sinkCap
  totalBlocks : after.totalBlocks = st.totalBlocks

structure SameTrace (st after : ReassemblyStream) : Prop extends SameSink st after where
  deliveredCount : after.deliveredCount = st.deliveredCount
  deliveryOrder : after.deliveryOrder = st.deliveryOrder
  surfaced : after.surfaced = st.surfaced

theorem SameTrace.recorded {after : ReassemblyStream} (same : SameTrace st after)
    (recorded : st.Recorded) : after.Recorded where
  count := by rw [same.deliveredCount, same.surfaced, recorded.count]
  trace := by rw [same.deliveryOrder, same.surfaced, recorded.trace]

/-- Sliding changes the low mark and the bits, and stops at a number that was not taken. -/
theorem slideLow_spec {fuel : Nat}
    (mirrors : Mirrors kMaxWindow (fun n => st.seen n = true) st.unorderedLow taken)
    (bounded : ∀ n ∈ taken, n + 1 < 2 ^ 64) (reach : ∀ n ∈ taken, n < st.unorderedLow + fuel) :
    Mirrors kMaxWindow (fun n => (slideLow fuel st).seen n = true)
        (slideLow fuel st).unorderedLow taken ∧
      (slideLow fuel st).unorderedLow ∉ taken ∧ SameTrace st (slideLow fuel st) := by
  induction fuel generalizing st with
  | zero =>
    exact ⟨mirrors, fun member => Nat.lt_irrefl _ (reach _ member), ⟨rfl, rfl, rfl, rfl⟩, rfl,
      rfl, rfl⟩
  | succ fuel ih =>
    rw [slideLow]
    split
    · rename_i hseen
      have hmember : st.unorderedLow ∈ taken :=
        (mirrors.marks _ (Nat.le_refl _) (Nat.lt_add_of_pos_right (by decide))).mp hseen
      have hlow : st.passLow.unorderedLow = st.unorderedLow + 1 :=
        Nat.mod_eq_of_lt (bounded _ hmember)
      have hpassed : Mirrors kMaxWindow (fun n => st.passLow.seen n = true)
          st.passLow.unorderedLow taken := by
        rw [hlow]
        refine mirrors.pass (by decide) hseen ?_
        intro n _ _
        simp [seen_passLow]
      have hreach : ∀ n ∈ taken, n < st.passLow.unorderedLow + fuel := by
        intro n member
        have hbefore := reach n member
        omega
      obtain ⟨hmirrors, hmissing, hsame⟩ := ih hpassed hreach
      exact ⟨hmirrors, hmissing, ⟨hsame.ordered, hsame.sink, hsame.sinkCap, hsame.totalBlocks⟩,
        hsame.deliveredCount, hsame.deliveryOrder, hsame.surfaced⟩
    · rename_i hunseen
      exact ⟨mirrors, mirrors.low_missing (by decide) hunseen, ⟨rfl, rfl, rfl, rfl⟩, rfl, rfl,
        rfl⟩

theorem release_tracks (tracks : st.Tracks taken) (ordered : st.ordered = true)
    (bounded : ∀ n ∈ taken, n + 1 < 2 ^ 64) (waiting : st.waits st.nextExpected = true) :
    st.release.nextExpected = st.nextExpected + 1 ∧ st.release.Tracks taken := by
  have hnext : st.release.nextExpected = st.nextExpected + 1 :=
    Nat.mod_eq_of_lt (bounded _ (tracks.held ordered _ waiting))
  have hafter : st.release.ordered = true := ordered
  have hlow := low_of_ordered ordered
  have hlowAfter := (low_of_ordered hafter).trans hnext
  refine ⟨hnext, ?_, ?_, ?_, ?_⟩
  · have hmirrors := tracks.mirrors
    rw [hlow] at hmirrors
    rw [hlowAfter]
    refine hmirrors.pass (by decide) ((marked_of_ordered ordered _).mpr waiting) ?_
    intro n _ _
    rw [marked_of_ordered hafter, marked_of_ordered ordered, waits_release]
  · intro _ n hwaits
    exact tracks.held ordered n ((waits_release st n).mp hwaits).2
  · have hsurfaced := tracks.surfaced
    have hseq : (st.buffer (st.nextExpected % kMaxWindow)).seqNo = st.nextExpected :=
      ((waits_iff st _).mp waiting).2
    rw [if_pos ordered, hlow] at hsurfaced
    rw [if_pos hafter, hlowAfter, List.range_succ, ← hsurfaced]
    change st.surfaced ++ [(st.buffer (st.nextExpected % kMaxWindow)).seqNo] = _
    rw [hseq]
  · exact ⟨(tracks.recorded.record _).count, (tracks.recorded.record _).trace⟩

/-- Draining stops at a number that was not taken. -/
theorem drain_spec {fuel : Nat} (tracks : st.Tracks taken) (ordered : st.ordered = true)
    (bounded : ∀ n ∈ taken, n + 1 < 2 ^ 64) (reach : ∀ n ∈ taken, n < st.nextExpected + fuel) :
    (drain fuel st).1.Tracks taken ∧ (drain fuel st).1.low ∉ taken ∧
      SameSink st (drain fuel st).1 := by
  induction fuel generalizing st with
  | zero =>
    refine ⟨tracks, ?_, rfl, rfl, rfl, rfl⟩
    change st.low ∉ taken
    rw [low_of_ordered ordered]
    exact fun member => Nat.lt_irrefl _ (reach _ member)
  | succ fuel ih =>
    rw [drain]
    split
    · rename_i hwaits
      obtain ⟨hnext, hreleased⟩ := release_tracks tracks ordered bounded hwaits
      obtain ⟨htracks, hmissing, hsame⟩ := ih hreleased ordered (by
        intro n member
        have hbefore := reach n member
        omega)
      exact ⟨htracks, hmissing, hsame.ordered, hsame.sink, hsame.sinkCap, hsame.totalBlocks⟩
    · rename_i hwaits
      refine ⟨tracks, tracks.mirrors.low_missing (by decide) ?_, rfl, rfl, rfl, rfl⟩
      rw [marked_of_ordered ordered, low_of_ordered ordered]
      exact hwaits

/-! ## One block -/

/-- A number is fresh when it lies below the end of the window and was not taken. -/
def Fresh (st : ReassemblyStream) (taken : List Nat) (seqNo : Nat) : Prop :=
  seqNo < st.low + kMaxWindow ∧ seqNo ∉ taken

/-- What an accepted block leaves: its number is taken, and the sink holds its bytes. -/
structure Accepted (st : ReassemblyStream) (taken : List Nat) (block : Arrival)
    (after : ReassemblyStream) : Prop where
  settled : after.Settled (taken ++ [block.seqNo])
  written : SameSink (st.writeSink block) after

variable {st : ReassemblyStream} {taken : List Nat} {block : Arrival}

namespace Settled

section

variable (settled : st.Settled taken)
include settled

theorem low_le (fresh : st.Fresh taken block.seqNo) : st.low ≤ block.seqNo := by
  apply Nat.le_of_not_lt
  intro hbelow
  exact fresh.2 (settled.mirrors.below _ hbelow)

theorem marked_iff {n : Nat} (above : st.low ≤ n) (inside : n < st.low + kMaxWindow) :
    st.Marked n ↔ n ∈ taken :=
  settled.mirrors.marks n above inside

theorem nodup_concat (fresh : st.Fresh taken block.seqNo) : (taken ++ [block.seqNo]).Nodup := by
  rw [List.nodup_append]
  refine ⟨settled.nodup, List.pairwise_singleton _ _, ?_⟩
  intro n member other hother same
  rw [List.mem_singleton.mp hother] at same
  exact fresh.2 (same ▸ member)

theorem bounded_concat (small : block.seqNo + 1 < 2 ^ 64) :
    ∀ n ∈ taken ++ [block.seqNo], n + 1 < 2 ^ 64 := by
  intro n member
  rcases List.mem_append.mp member with hold | hnew
  · exact settled.bounded n hold
  · rw [List.mem_singleton.mp hnew]
    exact small

/-- A block that is not fresh changes nothing. -/
theorem onBlock_refused (stale : ¬ st.Fresh taken block.seqNo) : st.onBlock block = (st, 0) := by
  have hstale : ∀ n, n = block.seqNo → st.low ≤ n → n < st.low + kMaxWindow → st.Marked n := by
    rintro n rfl habove hinside
    apply (settled.marked_iff habove hinside).mpr
    by_contra hfresh
    exact stale ⟨hinside, hfresh⟩
  cases hordered : st.ordered with
  | false =>
    have hlow := low_of_unordered hordered
    have hmark := marked_of_unordered hordered
    simp only [onBlock, hordered, onUnordered, Bool.false_eq_true, if_false]
    split
    · rfl
    · rw [if_pos ((hmark _).mp (hstale _ rfl (by omega) (by omega)))]
  | true =>
    have hlow := low_of_ordered hordered
    have hmark := marked_of_ordered hordered
    simp only [onBlock, hordered, onOrdered, if_true]
    split
    · rfl
    · split
      · split
        · rw [if_pos ((hmark _).mp (hstale _ rfl (by omega) (by omega)))]
        · rfl
      · -- the next number itself is missing, so it is always fresh
        have hnext : block.seqNo = st.low := by omega
        refine absurd ⟨?_, ?_⟩ stale
        · rw [hnext]
          exact Nat.lt_add_of_pos_right (by decide)
        · rw [hnext]
          exact settled.missing

theorem onUnordered_fresh (unordered : st.ordered = false) (fresh : st.Fresh taken block.seqNo)
    (small : block.seqNo + 1 < 2 ^ 64) :
    st.onUnordered block = ((slideLow kMaxWindow (st.markSeen block.seqNo)).deliver block, 1) ∧
      Accepted st taken block ((slideLow kMaxWindow (st.markSeen block.seqNo)).deliver block) := by
  have hlow := low_of_unordered unordered
  have hmark := marked_of_unordered unordered
  have habove := settled.low_le fresh
  have hinside := fresh.1
  have hunseen : ¬ st.seen block.seqNo = true := fun hseen =>
    fresh.2 ((settled.marked_iff habove hinside).mp ((hmark _).mpr hseen))
  have hmarked : Mirrors kMaxWindow (fun n => (st.markSeen block.seqNo).seen n = true)
      st.unorderedLow (taken ++ [block.seqNo]) := by
    rw [← hlow]
    refine settled.mirrors.take hinside ?_
    intro n hlower hupper
    rw [seen_markSeen, Bool.or_eq_true, decide_eq_true_eq, hmark]
    refine or_congr_left ⟨fun same => ?_, fun same => by rw [same]⟩
    exact Residues.eq_of_mod_eq hlower hupper habove hinside same
  obtain ⟨hmirrors, hmissing, hsame⟩ :=
    slideLow_spec hmarked (settled.bounded_concat small) hmarked.within
  constructor
  · rw [onUnordered, if_neg (by omega), if_neg hunseen]
  · generalize slideLow kMaxWindow (st.markSeen block.seqNo) = slid at hmirrors hmissing hsame
    have hafter : (slid.deliver block).ordered = false := hsame.ordered.trans unordered
    have hsurfaced : slid.surfaced = taken := by
      rw [hsame.surfaced]
      exact settled.surfaced.trans (if_neg (ne_true_of_eq_false unordered))
    have hrecorded : slid.Recorded :=
      hsame.recorded ⟨settled.recorded.count, settled.recorded.trace⟩
    refine ⟨⟨⟨?_, ?_, ?_, ?_⟩, ?_, settled.nodup_concat fresh, settled.bounded_concat small⟩,
      hsame.ordered, ?_, hsame.sinkCap, hsame.totalBlocks⟩
    · rw [low_of_unordered hafter]
      refine ⟨hmirrors.below, hmirrors.within, ?_⟩
      intro n hlower hupper
      rw [marked_of_unordered hafter]
      exact hmirrors.marks n hlower hupper
    · intro hordered
      exact absurd (hafter.symm.trans hordered) Bool.false_ne_true
    · rw [if_neg (ne_true_of_eq_false hafter), ← hsurfaced]
      rfl
    · have hdelivered := hrecorded.record block.seqNo
      exact ⟨hdelivered.count, hdelivered.trace⟩
    · rw [low_of_unordered hafter]
      exact hmissing
    · change written slid.sink slid.sinkCap block = written st.sink st.sinkCap block
      rw [hsame.sink, hsame.sinkCap]
      rfl

/-- A block ahead of the next one waits in the ring. -/
theorem hold_fresh (ordered : st.ordered = true) (fresh : st.Fresh taken block.seqNo)
    (small : block.seqNo + 1 < 2 ^ 64) (ahead : block.seqNo > st.nextExpected) :
    Accepted st taken block ((st.writeSink block).hold block) := by
  have hafter : ((st.writeSink block).hold block).ordered = true := ordered
  have hlow := low_of_ordered ordered
  have hwaits : ∀ n, ((st.writeSink block).hold block).waits n = true ↔
      n = block.seqNo ∨ (n % kMaxWindow ≠ block.seqNo % kMaxWindow ∧ st.waits n = true) :=
    fun n => waits_hold (st.writeSink block) block n
  have hinside := fresh.1
  refine ⟨⟨⟨?_, ?_, ?_, ?_⟩, ?_, settled.nodup_concat fresh, settled.bounded_concat small⟩,
    rfl, rfl, rfl, rfl⟩
  · refine settled.mirrors.take hinside ?_
    intro n hlower hupper
    rw [marked_of_ordered hafter, hwaits, marked_of_ordered ordered]
    refine or_congr_right' fun hother => and_iff_right ?_
    intro same
    exact hother (Residues.eq_of_mod_eq hlower hupper (settled.low_le fresh) hinside same)
  · intro _ n hn
    rcases (hwaits n).mp hn with rfl | ⟨_, hold⟩
    · exact List.mem_append_right _ List.mem_cons_self
    · exact List.mem_append_left _ (settled.held ordered n hold)
  · have hsurfaced := settled.surfaced
    rw [if_pos ordered] at hsurfaced
    rw [if_pos hafter]
    exact hsurfaced
  · exact ⟨settled.recorded.count, settled.recorded.trace⟩
  · intro member
    rcases List.mem_append.mp member with hold | hnew
    · exact settled.missing hold
    · have hequal : st.low = block.seqNo := List.mem_singleton.mp hnew
      omega

/-- The block that was missing is delivered, before those that waited for it. -/
theorem deliverNext_tracks (ordered : st.ordered = true) (small : block.seqNo + 1 < 2 ^ 64)
    (next : block.seqNo = st.nextExpected) :
    (st.deliverNext block).Tracks (taken ++ [block.seqNo]) := by
  have hafter : (st.deliverNext block).ordered = true := ordered
  have hlow := low_of_ordered ordered
  have hnext : (st.deliverNext block).nextExpected = st.nextExpected + 1 :=
    Nat.mod_eq_of_lt (next ▸ small)
  have hlowAfter := (low_of_ordered hafter).trans hnext
  refine ⟨?_, ?_, ?_, ?_⟩
  · have hmirrors := settled.mirrors
    rw [hlow] at hmirrors
    rw [hlowAfter, next]
    have hbeyond : ¬ st.Marked (st.nextExpected + kMaxWindow) := by
      intro hmarked
      have hwaits := (marked_of_ordered ordered _).mp hmarked
      exact Nat.lt_irrefl _ (hmirrors.within _ (settled.held ordered _ hwaits))
    exact hmirrors.take_low (by decide) hbeyond
  · intro _ n hwaits
    exact List.mem_append_left _ (settled.held ordered n hwaits)
  · have hsurfaced := settled.surfaced
    rw [if_pos ordered, hlow] at hsurfaced
    rw [if_pos hafter, hlowAfter, List.range_succ, ← hsurfaced, ← next]
    rfl
  · have hrecorded := settled.recorded.record block.seqNo
    exact ⟨hrecorded.count, hrecorded.trace⟩

/-- A fresh block is accepted, in either mode. -/
theorem onBlock_fresh (fresh : st.Fresh taken block.seqNo) (small : block.seqNo + 1 < 2 ^ 64) :
    Accepted st taken block (st.onBlock block).1 := by
  cases hordered : st.ordered with
  | false =>
    obtain ⟨hstep, haccepted⟩ := settled.onUnordered_fresh hordered fresh small
    rw [onBlock, if_neg (by simp [hordered]), hstep]
    exact haccepted
  | true =>
    have hlow := low_of_ordered hordered
    have habove := settled.low_le fresh
    have hinside := fresh.1
    rw [onBlock, if_pos hordered, onOrdered, if_neg (by omega)]
    by_cases hahead : block.seqNo > st.nextExpected
    · have hnot : ¬ st.waits block.seqNo = true := fun hwaits =>
        fresh.2 (settled.held hordered _ hwaits)
      rw [if_pos hahead, if_pos (by omega), if_neg hnot]
      exact settled.hold_fresh hordered fresh small hahead
    · have hafter : (st.deliverNext block).ordered = true := hordered
      have htracks := settled.deliverNext_tracks hordered small (by omega)
      have hreach := htracks.mirrors.within
      rw [low_of_ordered hafter] at hreach
      obtain ⟨hdrained, hmissing, hsame⟩ :=
        drain_spec htracks hafter (settled.bounded_concat small) hreach
      rw [if_neg hahead]
      exact ⟨⟨hdrained, hmissing, settled.nodup_concat fresh, settled.bounded_concat small⟩,
        hsame.ordered, hsame.sink, hsame.sinkCap, hsame.totalBlocks⟩

end

end Settled

end ReassemblyStream

end FuseTransport.Proto
