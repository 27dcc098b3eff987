import FuseTransport.Proto.Registry

/-!
# The receiver's window

A receiver stream tracks which sequence numbers arrived: everything below the
base, and a ring of bits, one for each number modulo `kMaxWindow`, above it.
-/

namespace FuseTransport.Proto

open Foundation Foundation.SetBits

inductive ReceiveResult where
  | accepted
  | duplicate
  | outOfWindow
  deriving DecidableEq, Repr

structure ReceiverStream where
  streamId : Nat
  windowSize : Nat
  window_pos : 0 < windowSize
  window_le : windowSize ≤ kMaxWindow
  lossless : Bool
  baseSeqNo : Nat := 0
  ring : Nat → BitVec 64 := fun _ => 0
  highestReceived : Nat := 0
  haveAny : Bool := false
  lastSendTime : Nat := 0
  windowOverflowCount : Nat := 0
  firstMissingNs : Nat → Nat := fun _ => 0
  lastNackNs : Nat → Nat := fun _ => 0

variable {r after : ReceiverStream} {seqNo sendTimeNs : Nat}

namespace ReceiverStream

def create (streamId windowSize : Nat) (lossless : Bool) : ReceiverStream where
  streamId := streamId
  windowSize := clampWindow windowSize
  window_pos := clampWindow_pos windowSize
  window_le := clampWindow_le windowSize
  lossless := lossless

def slot (seq : Nat) : Nat := seq % kMaxWindow

def ringTest (r : ReceiverStream) (seq : Nat) : Bool :=
  (r.ring (slot seq / 64)).getLsbD (slot seq % 64)

def ringSet (r : ReceiverStream) (seq : Nat) : ReceiverStream :=
  { r with
    ring := Function.update r.ring (slot seq / 64)
      (r.ring (slot seq / 64) ||| (1#64 <<< (slot seq % 64))) }

def ringClear (r : ReceiverStream) (seq : Nat) : ReceiverStream :=
  { r with
    ring := Function.update r.ring (slot seq / 64)
      (r.ring (slot seq / 64) &&& ~~~(1#64 <<< (slot seq % 64))) }

/-- Whether `baseSeqNo + rel` has arrived. -/
def isReceived (r : ReceiverStream) (rel : Nat) : Bool :=
  decide (rel < r.windowSize) && r.ringTest (u64 (r.baseSeqNo + rel))

/-- Sixty-four bits of the received set from `baseSeqNo + 64 * w` on, put
together from two words of the rotated ring. -/
def relativeWord (r : ReceiverStream) (w : Nat) : BitVec 64 :=
  let start := slot (u64 (r.baseSeqNo + 64 * w))
  let low := r.ring (start / 64) >>> (start % 64)
  let joined :=
    if start % 64 ≠ 0 then low ||| r.ring ((start / 64 + 1) % kMaskWords) <<< (64 - start % 64)
    else low
  if 64 * w ≥ r.windowSize then 0
  else if r.windowSize - 64 * w < 64 then joined &&& (1#64 <<< (r.windowSize - 64 * w)) - 1
  else joined

def passBase (r : ReceiverStream) : ReceiverStream :=
  { r.ringClear r.baseSeqNo with
    firstMissingNs := Function.update r.firstMissingNs (slot r.baseSeqNo) 0
    lastNackNs := Function.update r.lastNackNs (slot r.baseSeqNo) 0
    baseSeqNo := u64 (r.baseSeqNo + 1) }

def slideBase : Nat → ReceiverStream → ReceiverStream
  | 0, r => r
  | fuel + 1, r => if r.ringTest r.baseSeqNo then slideBase fuel r.passBase else r

def slideBaseOverContiguousPrefix (r : ReceiverStream) : ReceiverStream :=
  slideBase kMaxWindow r

def stampGaps (firstMissingNs : Nat → Nat) (first last nowNs : Nat) : Nat → Nat :=
  (List.range' first (last - first)).foldl
    (fun stamps gap =>
      if stamps (slot gap) = 0 then Function.update stamps (slot gap) nowNs else stamps)
    firstMissingNs

def record (r : ReceiverStream) (seqNo sendTimeNs nowNs : Nat) : ReceiverStream :=
  let marked := r.ringSet seqNo
  let noted :=
    if r.haveAny = false ∨ seqNo > r.highestReceived then
      { marked with
        firstMissingNs := stampGaps r.firstMissingNs
          (max (if r.haveAny then r.highestReceived + 1 else r.baseSeqNo) r.baseSeqNo) seqNo nowNs
        highestReceived := seqNo
        lastSendTime := sendTimeNs }
    else marked
  { noted with haveAny := true }

def onReceive (r : ReceiverStream) (seqNo sendTimeNs nowNs : Nat) :
    ReceiverStream × ReceiveResult :=
  if seqNo < r.baseSeqNo then (r, .duplicate)
  else if seqNo - r.baseSeqNo ≥ r.windowSize then
    ({ r with windowOverflowCount := r.windowOverflowCount + 1 }, .outOfWindow)
  else if r.ringTest seqNo then (r, .duplicate)
  else ((r.record seqNo sendTimeNs nowNs).slideBaseOverContiguousPrefix, .accepted)

def buildAck (r : ReceiverStream) : Ack where
  streamId := r.streamId
  baseSeqNo := r.baseSeqNo
  receivedBitmask := fun w => r.relativeWord w.val
  echoedSendTime := r.lastSendTime

/-- One unset position: reported once it has been a gap for long enough and was
not reported recently. -/
def collectNack (nowNs reorderDelayNs renackIntervalNs : Nat) (acc : ReceiverStream × List Nat)
    (seq : Nat) : ReceiverStream × List Nat :=
  let r := acc.1
  let first := r.firstMissingNs (slot seq)
  let last := r.lastNackNs (slot seq)
  if first = 0 ∨ u64Sub nowNs first < reorderDelayNs then acc
  else if last ≠ 0 ∧ u64Sub nowNs last < renackIntervalNs then acc
  else if acc.2.length < kMaxWindow then
    ({ r with lastNackNs := Function.update r.lastNackNs (slot seq) nowNs }, acc.2 ++ [seq])
  else acc

def missingInWord (r : ReceiverStream) (span w : Nat) : List Nat :=
  let unset := ~~~r.relativeWord w
  let trimmed := if span - 64 * w < 63 then unset &&& (2#64 <<< (span - 64 * w)) - 1 else unset
  (setBits trimmed).map fun b => r.baseSeqNo + 64 * w + b

def collectNacks (r : ReceiverStream) (nowNs reorderDelayNs renackIntervalNs : Nat) :
    ReceiverStream × Nack :=
  if r.lossless = false ∨ r.haveAny = false ∨ r.highestReceived < r.baseSeqNo then
    (r, { streamId := r.streamId })
  else
    let span := r.highestReceived - r.baseSeqNo
    let words := (List.range kMaskWords).takeWhile fun w => decide (w * 64 ≤ span)
    let collected := (words.flatMap (r.missingInWord span)).foldl
      (collectNack nowNs reorderDelayNs renackIntervalNs) (r, [])
    (collected.1, { streamId := r.streamId, missing := collected.2 })

@[simp]
theorem slot_lt (seq : Nat) : slot seq < kMaxWindow :=
  Nat.mod_lt _ (by decide)

/-- Setting a position sets that ring position and no other. -/
theorem ringTest_ringSet (r : ReceiverStream) (seq other : Nat) :
    (r.ringSet seq).ringTest other = (decide (slot other = slot seq) || r.ringTest other) :=
  bitAt_set r.ring (slot seq) (slot other)

/-- Clearing a position clears that ring position and no other. -/
theorem ringTest_ringClear (r : ReceiverStream) (seq other : Nat) :
    (r.ringClear seq).ringTest other = (decide (slot other ≠ slot seq) && r.ringTest other) :=
  bitAt_clear r.ring (slot seq) (slot other)

theorem slot_u64 (seq : Nat) : slot (u64 seq) = slot seq :=
  Nat.mod_mod_of_dvd seq (by decide)

/-- The word put together from the rotated ring reads one ring position for each
of its bits. -/
theorem getLsbD_joined (r : ReceiverStream) (first b : Nat) (inside : b < 64) :
    (if slot first % 64 ≠ 0 then
        r.ring (slot first / 64) >>> (slot first % 64) |||
          r.ring ((slot first / 64 + 1) % kMaskWords) <<< (64 - slot first % 64)
      else r.ring (slot first / 64) >>> (slot first % 64)).getLsbD b = r.ringTest (first + b) := by
  have hslot : slot (first + b) = (slot first + b) % kMaxWindow := by
    simp only [slot, Nat.mod_add_mod]
  have hstart := slot_lt first
  unfold kMaxWindow at hstart hslot
  unfold ringTest kMaskWords kMaxWindow
  rcases Nat.lt_or_ge (slot first % 64 + b) 64 with hlow | hhigh
  · have hword : slot (first + b) / 64 = slot first / 64 := by omega
    have hbit : slot (first + b) % 64 = slot first % 64 + b := by omega
    have hbefore : b < 64 - slot first % 64 := by omega
    rw [hword, hbit]
    split
    · simp [hbefore]
    · rw [BitVec.getLsbD_ushiftRight]
  · have hword : slot (first + b) / 64 = (slot first / 64 + 1) % ((1024 + 63) / 64) := by omega
    have hbit : slot (first + b) % 64 = b - (64 - slot first % 64) := by omega
    have hshifted : slot first % 64 ≠ 0 := by omega
    have hbehind : ¬ b < 64 - slot first % 64 := by omega
    rw [hword, hbit, if_pos hshifted, BitVec.getLsbD_or, BitVec.getLsbD_ushiftRight,
      BitVec.getLsbD_of_ge _ _ hhigh, BitVec.getLsbD_shiftLeft]
    simp [inside, hbehind]

/-- A bit of a relative word says whether that position of the window arrived. -/
theorem getLsbD_relativeWord (r : ReceiverStream) (w b : Nat) (inside : b < 64) :
    (r.relativeWord w).getLsbD b =
      (decide (64 * w + b < r.windowSize) && r.ringTest (r.baseSeqNo + 64 * w + b)) := by
  have hjoined := getLsbD_joined r (r.baseSeqNo + 64 * w) b inside
  unfold relativeWord
  simp only [slot_u64]
  split
  · have hpast : ¬ 64 * w + b < r.windowSize := by omega
    simp [hpast]
  · split
    · rename_i hwindow hpartial
      rw [BitVec.getLsbD_and, getLsbD_lowMask _ _ hpartial, Bool.and_comm]
      congr 1
      exact decide_eq_decide.mpr (by omega)
    · have hwhole : 64 * w + b < r.windowSize := by omega
      rw [hjoined, decide_eq_true hwhole, Bool.true_and]

/-- The sequence numbers a receiver has accepted. -/
def Accepted (r : ReceiverStream) (seqNo : Nat) : Prop :=
  seqNo < r.baseSeqNo ∨ (seqNo < r.baseSeqNo + r.windowSize ∧ r.ringTest seqNo = true)

instance (r : ReceiverStream) (seqNo : Nat) : Decidable (r.Accepted seqNo) :=
  inferInstanceAs (Decidable (_ ∨ _))

/-- An acknowledgement names exactly the accepted blocks. -/
theorem buildAck_asserts (r : ReceiverStream) (seqNo : Nat) :
    r.buildAck.Asserts seqNo ↔ r.Accepted seqNo := by
  have hwindow := r.window_le
  unfold kMaxWindow at hwindow
  constructor
  · rintro (hbelow | ⟨w, b, hset, rfl⟩)
    · exact Or.inl hbelow
    · have hbit := BitVec.lt_of_getLsbD hset
      change (r.relativeWord w.val).getLsbD b = true at hset
      rw [getLsbD_relativeWord r w.val b hbit, Bool.and_eq_true, decide_eq_true_eq] at hset
      refine Or.inr ⟨?_, hset.2⟩
      change r.baseSeqNo + 64 * w.val + b < _
      omega
  · rintro (hbelow | ⟨hinside, harrived⟩)
    · exact Or.inl hbelow
    · rcases Nat.lt_or_ge seqNo r.baseSeqNo with hlt | hge
      · exact Or.inl hlt
      · have hsplit : seqNo = r.baseSeqNo + 64 * ((seqNo - r.baseSeqNo) / 64) +
            (seqNo - r.baseSeqNo) % 64 := by omega
        refine Or.inr ⟨⟨(seqNo - r.baseSeqNo) / 64, by omega⟩, (seqNo - r.baseSeqNo) % 64, ?_, hsplit⟩
        change (r.relativeWord ((seqNo - r.baseSeqNo) / 64)).getLsbD _ = true
        rw [getLsbD_relativeWord _ _ _ (Nat.mod_lt _ (by decide)), ← hsplit, harrived,
          Bool.and_true, decide_eq_true_eq]
        omega

def Confined (r : ReceiverStream) (limit : Nat) : Prop :=
  ∀ seqNo, r.baseSeqNo ≤ seqNo → seqNo < r.baseSeqNo + kMaxWindow →
    r.ringTest seqNo = true → seqNo < limit

/-- The end of the numbers a receiver can hold: its window, short of the last
machine word. -/
def limit (r : ReceiverStream) : Nat := min (r.baseSeqNo + r.windowSize) (2 ^ 64 - 1)

structure Inv (r : ReceiverStream) : Prop where
  confined : r.Confined r.limit
  base_lt : r.baseSeqNo < 2 ^ 64

theorem create_inv (streamId windowSize : Nat) (lossless : Bool) :
    (create streamId windowSize lossless).Inv := by
  refine ⟨?_, by change 0 < 2 ^ 64; decide⟩
  intro seqNo _ _ hset
  change (0 : BitVec 64).getLsbD _ = true at hset
  simp at hset

theorem create_accepted (streamId windowSize : Nat) (lossless : Bool) (seqNo : Nat) :
    ¬ (create streamId windowSize lossless).Accepted seqNo := by
  rintro (hbelow | ⟨_, hset⟩)
  · exact Nat.not_lt_zero _ hbelow
  · change (0 : BitVec 64).getLsbD _ = true at hset
    simp at hset

/-! ## Sliding the base -/

theorem slot_injective {low first second : Nat} (hfirst : low ≤ first)
    (hfirstEnd : first < low + kMaxWindow) (hsecond : low ≤ second)
    (hsecondEnd : second < low + kMaxWindow) (same : slot first = slot second) : first = second :=
  Residues.eq_of_mod_eq hfirst hfirstEnd hsecond hsecondEnd same

/-- The position that the base leaves is taken next by the last number of the moved window. -/
theorem slot_moved_up {low : Nat} (above : low < seqNo) (inside : seqNo < low + 1 + kMaxWindow) :
    (seqNo < low + kMaxWindow ∧ slot seqNo ≠ slot low) ∨
      (seqNo = low + kMaxWindow ∧ slot seqNo = slot low) :=
  Residues.moved_up above (by omega)

theorem ringTest_passBase (r : ReceiverStream) (seqNo : Nat) :
    r.passBase.ringTest seqNo =
      (decide (slot seqNo ≠ slot r.baseSeqNo) && r.ringTest seqNo) :=
  ringTest_ringClear r r.baseSeqNo seqNo

/-- What the base moving up leaves unchanged, and where it stops. -/
structure Slides (before after : ReceiverStream) (limit : Nat) : Prop where
  streamId : after.streamId = before.streamId
  window : after.windowSize = before.windowSize
  overflow : after.windowOverflowCount = before.windowOverflowCount
  base_le : before.baseSeqNo ≤ after.baseSeqNo
  base_end : after.baseSeqNo ≤ max before.baseSeqNo limit
  confined : after.Confined limit
  accepted : ∀ seqNo, after.Accepted seqNo ↔ before.Accepted seqNo

theorem Slides.trans {before middle : ReceiverStream} {limit : Nat}
    (first : Slides before middle limit) (second : Slides middle after limit) :
    Slides before after limit where
  streamId := second.streamId.trans first.streamId
  window := second.window.trans first.window
  overflow := second.overflow.trans first.overflow
  base_le := Nat.le_trans first.base_le second.base_le
  base_end := by
    have hfirst := first.base_end
    have hsecond := second.base_end
    omega
  confined := second.confined
  accepted := fun seqNo => (second.accepted seqNo).trans (first.accepted seqNo)

theorem passBase_slides {limit : Nat} (confined : r.Confined limit) (bounded : limit < 2 ^ 64)
    (window : limit ≤ r.baseSeqNo + r.windowSize) (arrived : r.ringTest r.baseSeqNo = true) :
    r.passBase.baseSeqNo = r.baseSeqNo + 1 ∧ Slides r r.passBase limit := by
  have hsize := r.window_le
  have hlimit : r.baseSeqNo < limit :=
    confined r.baseSeqNo (Nat.le_refl _) (Nat.lt_add_of_pos_right (by decide)) arrived
  have hbase : r.passBase.baseSeqNo = r.baseSeqNo + 1 := u64_of_lt (by omega)
  have hcleared : ∀ seqNo, r.baseSeqNo + 1 ≤ seqNo → seqNo < r.baseSeqNo + 1 + kMaxWindow →
      r.passBase.ringTest seqNo = true → seqNo < r.baseSeqNo + kMaxWindow ∧
        r.ringTest seqNo = true := by
    intro seqNo habove hbelow hset
    rw [ringTest_passBase, Bool.and_eq_true, decide_eq_true_eq] at hset
    rcases slot_moved_up habove hbelow with ⟨hinside, _⟩ | ⟨_, hsame⟩
    · exact ⟨hinside, hset.2⟩
    · exact absurd hsame hset.1
  refine ⟨hbase, rfl, rfl, rfl, by omega, by omega, ?_, ?_⟩
  · intro seqNo habove hbelow hset
    rw [hbase] at habove hbelow
    obtain ⟨hend, hring⟩ := hcleared seqNo habove hbelow hset
    exact confined seqNo (by omega) hend hring
  · intro seqNo
    change (seqNo < r.passBase.baseSeqNo ∨ seqNo < r.passBase.baseSeqNo + r.windowSize ∧ _) ↔ _
    rw [hbase]
    constructor
    · rintro (hbelow | ⟨hend, hset⟩)
      · rcases Nat.lt_or_eq_of_le (Nat.le_of_lt_succ hbelow) with hlt | heq
        · exact Or.inl hlt
        · rw [heq]
          exact Or.inr ⟨Nat.lt_add_of_pos_right r.window_pos, arrived⟩
      · rcases Nat.lt_or_ge seqNo (r.baseSeqNo + 1) with hlow | hhigh
        · rcases Nat.lt_or_eq_of_le (Nat.le_of_lt_succ hlow) with hlt | heq
          · exact Or.inl hlt
          · rw [heq]
            exact Or.inr ⟨Nat.lt_add_of_pos_right r.window_pos, arrived⟩
        · obtain ⟨hinside, hring⟩ := hcleared seqNo hhigh (by omega) hset
          have hheld := confined seqNo (by omega) hinside hring
          exact Or.inr ⟨by omega, hring⟩
    · rintro (hbelow | ⟨hend, hring⟩)
      · exact Or.inl (by omega)
      · rcases Nat.lt_or_ge seqNo (r.baseSeqNo + 1) with hlow | hhigh
        · exact Or.inl hlow
        · refine Or.inr ⟨by omega, ?_⟩
          rw [ringTest_passBase, hring, Bool.and_true]
          rcases slot_moved_up hhigh (by omega) with ⟨_, hother⟩ | ⟨hequal, _⟩
          · exact decide_eq_true hother
          · omega

/-- With enough fuel the base stops at the first block that has not arrived. -/
theorem slideBase_slides (fuel : Nat) {limit : Nat} (confined : r.Confined limit)
    (bounded : limit < 2 ^ 64) (window : limit ≤ r.baseSeqNo + r.windowSize)
    (enough : limit ≤ r.baseSeqNo + fuel) :
    Slides r (slideBase fuel r) limit ∧
      (slideBase fuel r).ringTest (slideBase fuel r).baseSeqNo = false := by
  induction fuel generalizing r with
  | zero =>
    refine ⟨⟨rfl, rfl, rfl, Nat.le_refl _, Nat.le_max_left _ _, confined, fun _ => Iff.rfl⟩, ?_⟩
    rw [← Bool.not_eq_true]
    intro arrived
    have hlimit := confined r.baseSeqNo (Nat.le_refl _)
      (Nat.lt_add_of_pos_right (by decide)) arrived
    omega
  | succ fuel ih =>
    rw [slideBase]
    split
    · rename_i arrived
      obtain ⟨hbase, hpass⟩ := passBase_slides confined bounded window arrived
      have hsize := hpass.window
      obtain ⟨hslides, hstopped⟩ := ih hpass.confined (by omega) (by omega)
      exact ⟨hpass.trans hslides, hstopped⟩
    · rename_i missing
      exact ⟨⟨rfl, rfl, rfl, Nat.le_refl _, Nat.le_max_left _ _, confined, fun _ => Iff.rfl⟩,
        Bool.not_eq_true _ ▸ missing⟩

/-- Sliding touches the base, the ring and the times of the gaps. -/
theorem slideBase_frame (fuel : Nat) (r : ReceiverStream) :
    ∃ base ring firstMissing lastNack, slideBase fuel r =
      { r with
        baseSeqNo := base, ring := ring, firstMissingNs := firstMissing, lastNackNs := lastNack } := by
  induction fuel generalizing r with
  | zero => exact ⟨_, _, _, _, rfl⟩
  | succ fuel ih =>
    rw [slideBase]
    split
    · obtain ⟨base, ring, firstMissing, lastNack, hrest⟩ := ih r.passBase
      exact ⟨base, ring, firstMissing, lastNack, hrest⟩
    · exact ⟨_, _, _, _, rfl⟩

/-! ## Receiving one block -/

structure Admits (before after : ReceiverStream) (seqNo : Nat) : Prop where
  streamId : after.streamId = before.streamId
  window : after.windowSize = before.windowSize
  overflow : after.windowOverflowCount = before.windowOverflowCount
  base_le : before.baseSeqNo ≤ after.baseSeqNo
  inv : after.Inv
  accepted : ∀ other, after.Accepted other ↔ before.Accepted other ∨ other = seqNo
  missing : ¬ after.Accepted after.baseSeqNo

/-- Recording a block sets its bit and may note it as the newest one. -/
theorem record_frame (r : ReceiverStream) (seqNo sendTimeNs nowNs : Nat) :
    ∃ firstMissing highest last, r.record seqNo sendTimeNs nowNs =
      { r.ringSet seqNo with
        firstMissingNs := firstMissing
        highestReceived := highest
        lastSendTime := last
        haveAny := true } := by
  unfold record
  split <;> exact ⟨_, _, _, rfl⟩

theorem ringTest_record (r : ReceiverStream) (seqNo sendTimeNs nowNs other : Nat) :
    (r.record seqNo sendTimeNs nowNs).ringTest other =
      (decide (slot other = slot seqNo) || r.ringTest other) := by
  obtain ⟨_, _, _, hframe⟩ := r.record_frame seqNo sendTimeNs nowNs
  rw [hframe]
  exact ringTest_ringSet r seqNo other

@[simp]
theorem record_streamId (r : ReceiverStream) (seqNo sendTimeNs nowNs : Nat) :
    (r.record seqNo sendTimeNs nowNs).streamId = r.streamId := by
  obtain ⟨_, _, _, hframe⟩ := r.record_frame seqNo sendTimeNs nowNs
  rw [hframe]
  rfl

@[simp]
theorem record_windowSize (r : ReceiverStream) (seqNo sendTimeNs nowNs : Nat) :
    (r.record seqNo sendTimeNs nowNs).windowSize = r.windowSize := by
  obtain ⟨_, _, _, hframe⟩ := r.record_frame seqNo sendTimeNs nowNs
  rw [hframe]
  rfl

@[simp]
theorem record_overflow (r : ReceiverStream) (seqNo sendTimeNs nowNs : Nat) :
    (r.record seqNo sendTimeNs nowNs).windowOverflowCount = r.windowOverflowCount := by
  obtain ⟨_, _, _, hframe⟩ := r.record_frame seqNo sendTimeNs nowNs
  rw [hframe]
  rfl

@[simp]
theorem record_baseSeqNo (r : ReceiverStream) (seqNo sendTimeNs nowNs : Nat) :
    (r.record seqNo sendTimeNs nowNs).baseSeqNo = r.baseSeqNo := by
  obtain ⟨_, _, _, hframe⟩ := r.record_frame seqNo sendTimeNs nowNs
  rw [hframe]
  rfl

theorem record_confined (inv : r.Inv) (above : r.baseSeqNo ≤ seqNo) (below : seqNo < r.limit)
    (sendTimeNs nowNs : Nat) :
    (r.record seqNo sendTimeNs nowNs).Confined r.limit := by
  intro other hlow hhigh hset
  rw [record_baseSeqNo] at hlow hhigh
  rw [ringTest_record, Bool.or_eq_true, decide_eq_true_eq] at hset
  rcases hset with hsame | hring
  · have hwindow := r.window_le
    unfold limit at below
    rw [slot_injective hlow hhigh above (by omega) hsame]
    unfold limit
    omega
  · exact inv.confined other hlow hhigh hring

theorem record_accepted (above : r.baseSeqNo ≤ seqNo) (below : seqNo < r.baseSeqNo + r.windowSize)
    (sendTimeNs nowNs other : Nat) :
    (r.record seqNo sendTimeNs nowNs).Accepted other ↔ r.Accepted other ∨ other = seqNo := by
  have hwindow := r.window_le
  unfold Accepted
  rw [record_baseSeqNo, record_windowSize, ringTest_record, Bool.or_eq_true, decide_eq_true_eq]
  constructor
  · rintro (hbelow | ⟨hinside, hsame | hring⟩)
    · exact Or.inl (Or.inl hbelow)
    · rcases Nat.lt_or_ge other r.baseSeqNo with hlt | hge
      · exact Or.inl (Or.inl hlt)
      · exact Or.inr (slot_injective hge (by omega) above (by omega) hsame)
    · exact Or.inl (Or.inr ⟨hinside, hring⟩)
  · rintro ((hbelow | ⟨hinside, hring⟩) | rfl)
    · exact Or.inl hbelow
    · exact Or.inr ⟨hinside, Or.inr hring⟩
    · exact Or.inr ⟨below, Or.inl rfl⟩

theorem onReceive_duplicate (accepted : r.Accepted seqNo) (sendTimeNs nowNs : Nat) :
    r.onReceive seqNo sendTimeNs nowNs = (r, .duplicate) := by
  unfold onReceive
  by_cases hbelow : seqNo < r.baseSeqNo
  · rw [if_pos hbelow]
  · obtain ⟨hinside, hring⟩ := accepted.resolve_left hbelow
    rw [if_neg hbelow, if_neg (by omega), if_pos hring]

theorem onReceive_outOfWindow (past : r.baseSeqNo + r.windowSize ≤ seqNo) (sendTimeNs nowNs : Nat) :
    r.onReceive seqNo sendTimeNs nowNs =
      ({ r with windowOverflowCount := r.windowOverflowCount + 1 }, .outOfWindow) := by
  unfold onReceive
  rw [if_neg (by omega), if_pos (by omega)]

/-- A block inside the window that has not arrived before is accepted, and
nothing else is. -/
theorem onReceive_fresh (inv : r.Inv) (bounded : seqNo < 2 ^ 64 - 1) (fresh : ¬ r.Accepted seqNo)
    (inside : seqNo < r.baseSeqNo + r.windowSize) (sendTimeNs nowNs : Nat) :
    ∃ after, r.onReceive seqNo sendTimeNs nowNs = (after, .accepted) ∧ Admits r after seqNo := by
  have hwindow := r.window_le
  have habove : r.baseSeqNo ≤ seqNo := Nat.le_of_not_lt fun h => fresh (Or.inl h)
  have hring : ¬ r.ringTest seqNo = true := fun h => fresh (Or.inr ⟨inside, h⟩)
  have hlimit : r.limit ≤ r.baseSeqNo + r.windowSize := Nat.min_le_left _ _
  have hmax : r.limit < 2 ^ 64 := Nat.lt_of_le_of_lt (Nat.min_le_right _ _) (by decide)
  have hheld : seqNo < r.limit := by
    unfold limit
    omega
  have hconfined := record_confined inv habove hheld sendTimeNs nowNs
  obtain ⟨hslides, hstopped⟩ := slideBase_slides kMaxWindow hconfined hmax
    (by rw [record_baseSeqNo, record_windowSize]; exact hlimit)
    (by rw [record_baseSeqNo]; omega)
  refine ⟨_, ?_, hslides.streamId.trans (record_streamId ..),
    hslides.window.trans (record_windowSize ..), hslides.overflow.trans (record_overflow ..),
    ?_, ⟨?_, ?_⟩, ?_, ?_⟩
  · unfold onReceive
    rw [if_neg (by omega), if_neg (by omega), if_neg hring, slideBaseOverContiguousPrefix]
  · have hbase := hslides.base_le
    rwa [record_baseSeqNo] at hbase
  · have hbase := hslides.base_le
    have hsize := hslides.window
    rw [record_baseSeqNo] at hbase
    rw [record_windowSize] at hsize
    intro other hlow hhigh hset
    have hother := hslides.confined other hlow hhigh hset
    unfold limit at hother ⊢
    omega
  · have hend := hslides.base_end
    rw [record_baseSeqNo] at hend
    omega
  · intro other
    exact (hslides.accepted other).trans (record_accepted habove inside sendTimeNs nowNs other)
  · rintro (hbelow | ⟨_, harrived⟩)
    · exact Nat.lt_irrefl _ hbelow
    · exact Bool.false_ne_true (hstopped.symm.trans harrived)

/-- A block the window has room for and that has not arrived. -/
def fresh (r : ReceiverStream) (seqNo : Nat) : Bool :=
  decide (r.baseSeqNo ≤ seqNo) && decide (seqNo < r.baseSeqNo + r.windowSize) && !r.ringTest seqNo

theorem onReceive_accepted_iff (r : ReceiverStream) (seqNo sendTimeNs nowNs : Nat) :
    (r.onReceive seqNo sendTimeNs nowNs).2 = .accepted ↔ r.fresh seqNo = true := by
  unfold onReceive fresh
  by_cases hbelow : seqNo < r.baseSeqNo
  · simp [hbelow]
  · by_cases hpast : seqNo - r.baseSeqNo ≥ r.windowSize
    · have hend : ¬ seqNo < r.baseSeqNo + r.windowSize := by omega
      simp [hbelow, hpast, hend]
    · have hend : seqNo < r.baseSeqNo + r.windowSize := by omega
      cases harrived : r.ringTest seqNo with
      | true => simp [hpast]
      | false => simp [hbelow, hpast, hend, Nat.not_lt.mp hbelow]

theorem not_accepted_of_fresh (isFresh : r.fresh seqNo = true) :
    ¬ r.Accepted seqNo ∧ seqNo < r.baseSeqNo + r.windowSize := by
  unfold fresh at isFresh
  rw [Bool.and_eq_true, Bool.and_eq_true, decide_eq_true_eq, decide_eq_true_eq,
    Bool.not_eq_true'] at isFresh
  obtain ⟨⟨habove, hinside⟩, hmissing⟩ := isFresh
  refine ⟨?_, hinside⟩
  rintro (hbelow | ⟨_, harrived⟩)
  · omega
  · rw [hmissing] at harrived
    cases harrived

variable {nowNs : Nat}

/-- A block that is not accepted at most counts as an overflow. -/
theorem onReceive_refused (refused : (r.onReceive seqNo sendTimeNs nowNs).2 ≠ .accepted) :
    ∃ count, (r.onReceive seqNo sendTimeNs nowNs).1 = { r with windowOverflowCount := count } := by
  unfold onReceive at refused ⊢
  split
  · exact ⟨_, rfl⟩
  · rename_i hbelow
    rw [if_neg hbelow] at refused
    split
    · exact ⟨_, rfl⟩
    · rename_i hpast
      rw [if_neg hpast] at refused
      split
      · exact ⟨_, rfl⟩
      · rename_i hfresh
        rw [if_neg hfresh] at refused
        exact (refused rfl).elim

theorem onReceive_of_accepted (accepted : r.onReceive seqNo sendTimeNs nowNs = (after, .accepted)) :
    after = slideBase kMaxWindow (r.record seqNo sendTimeNs nowNs) := by
  unfold onReceive at accepted
  split at accepted
  · cases accepted
  · split at accepted
    · cases accepted
    · split at accepted
      · cases accepted
      · exact (Prod.mk.inj accepted).1.symm

/-- An accepted block is remembered as the highest one if it is. -/
theorem onReceive_newest (accepted : r.onReceive seqNo sendTimeNs nowNs = (after, .accepted)) :
    after.haveAny = true ∧
    after.highestReceived =
      (if r.haveAny = false ∨ seqNo > r.highestReceived then seqNo else r.highestReceived) ∧
    after.lastSendTime =
      (if r.haveAny = false ∨ seqNo > r.highestReceived then sendTimeNs else r.lastSendTime) := by
  obtain ⟨base, ring, firstMissing, lastNack, hframe⟩ :=
    slideBase_frame kMaxWindow (r.record seqNo sendTimeNs nowNs)
  rw [onReceive_of_accepted accepted, hframe]
  unfold record
  split <;> exact ⟨rfl, rfl, rfl⟩

theorem Inv.overflow (inv : r.Inv) (count : Nat) :
    ({ r with windowOverflowCount := count } : ReceiverStream).Inv :=
  ⟨inv.confined, inv.base_lt⟩

theorem onReceive_cases (inv : r.Inv) (bounded : seqNo < 2 ^ 64 - 1) (sendTimeNs nowNs : Nat) :
    (r.Accepted seqNo ∧ r.onReceive seqNo sendTimeNs nowNs = (r, .duplicate)) ∨
    (r.baseSeqNo + r.windowSize ≤ seqNo ∧ r.onReceive seqNo sendTimeNs nowNs =
      ({ r with windowOverflowCount := r.windowOverflowCount + 1 }, .outOfWindow)) ∨
    (¬ r.Accepted seqNo ∧ seqNo < r.baseSeqNo + r.windowSize ∧
      ∃ after, r.onReceive seqNo sendTimeNs nowNs = (after, .accepted) ∧
        Admits r after seqNo) := by
  by_cases haccepted : r.Accepted seqNo
  · exact Or.inl ⟨haccepted, onReceive_duplicate haccepted sendTimeNs nowNs⟩
  · rcases Nat.lt_or_ge seqNo (r.baseSeqNo + r.windowSize) with hinside | hpast
    · exact Or.inr (Or.inr ⟨haccepted, hinside,
        onReceive_fresh inv bounded haccepted hinside sendTimeNs nowNs⟩)
    · exact Or.inr (Or.inl ⟨hpast, onReceive_outOfWindow hpast sendTimeNs nowNs⟩)

theorem foldl_collectNack_frame (nowNs reorderDelayNs renackIntervalNs : Nat) (seqs : List Nat)
    (acc : ReceiverStream × List Nat) :
    ∃ stamps, (seqs.foldl (collectNack nowNs reorderDelayNs renackIntervalNs) acc).1 =
      { acc.1 with lastNackNs := stamps } := by
  induction seqs generalizing acc with
  | nil => exact ⟨_, rfl⟩
  | cons seq rest ih =>
    have hone : ∃ stamps, (collectNack nowNs reorderDelayNs renackIntervalNs acc seq).1 =
        { acc.1 with lastNackNs := stamps } := by
      unfold collectNack
      dsimp only
      split
      · exact ⟨_, rfl⟩
      · split
        · exact ⟨_, rfl⟩
        · split <;> exact ⟨_, rfl⟩
    obtain ⟨first, hfirst⟩ := hone
    obtain ⟨stamps, hstamps⟩ := ih (collectNack nowNs reorderDelayNs renackIntervalNs acc seq)
    refine ⟨stamps, ?_⟩
    rw [List.foldl_cons, hstamps, hfirst]

/-- Collecting the gaps changes nothing but the times of the last reports. -/
theorem collectNacks_frame (r : ReceiverStream) (nowNs reorderDelayNs renackIntervalNs : Nat) :
    ∃ stamps, (r.collectNacks nowNs reorderDelayNs renackIntervalNs).1 =
      { r with lastNackNs := stamps } := by
  unfold collectNacks
  split
  · exact ⟨_, rfl⟩
  · exact foldl_collectNack_frame nowNs reorderDelayNs renackIntervalNs _ (r, [])

end ReceiverStream

end FuseTransport.Proto
