import Mathlib.Data.List.TakeWhile
import FuseTransport.Foundation.Residues
import FuseTransport.Foundation.SetBits
import FuseTransport.Proto.Control

/-!
# The sender's block registry

The registry keeps the unacknowledged blocks of one stream in a ring indexed by
sequence number modulo the window.  An acknowledgement frees the slots of the
blocks it names, cumulatively below its base and selectively by its bitmask.
-/

namespace FuseTransport.Proto

open Foundation Foundation.SetBits

/-- The window a stream gets when it asks for `windowSize`. -/
def clampWindow (windowSize : Nat) : Nat :=
  if windowSize < 1 then 1 else if windowSize > kMaxWindow then kMaxWindow else windowSize

theorem clampWindow_pos (windowSize : Nat) : 0 < clampWindow windowSize := by
  unfold clampWindow
  split
  · exact Nat.one_pos
  · split
    · decide
    · omega

theorem clampWindow_le (windowSize : Nat) : clampWindow windowSize ≤ kMaxWindow := by
  unfold clampWindow
  split
  · decide
  · split
    · exact Nat.le_refl _
    · omega

theorem clampWindow_of_valid {windowSize : Nat} (hpos : 1 ≤ windowSize)
    (hle : windowSize ≤ kMaxWindow) : clampWindow windowSize = windowSize := by
  unfold clampWindow
  rw [if_neg (Nat.not_lt.mpr hpos), if_neg (Nat.not_lt.mpr hle)]

/-- One stored block; its `payload_len` is the length of `payload`. -/
structure RegistrySlot where
  seqNo : Nat := 0
  sendTimeNs : Nat := 0
  offset : Nat := 0
  flags : UInt8 := 0
  valid : Bool := false
  payload : List UInt8 := []
  deriving DecidableEq, Repr

/-- The slot when it is valid and still holds exactly this block. -/
def RegistrySlot.heldFor (slot : RegistrySlot) (seqNo : Nat) : Option RegistrySlot :=
  if (slot.valid && slot.seqNo == seqNo) = true then some slot else none

/-- The ring of slots, together with the bounds its window was clamped to. -/
structure SenderRegistry where
  streamId : Nat
  windowSize : Nat
  window_pos : 0 < windowSize
  window_le : windowSize ≤ kMaxWindow
  slots : Nat → RegistrySlot

variable {slot : RegistrySlot}

namespace SenderRegistry

def create (streamId windowSize : Nat) : SenderRegistry where
  streamId := streamId
  windowSize := clampWindow windowSize
  window_pos := clampWindow_pos windowSize
  window_le := clampWindow_le windowSize
  slots := fun _ => {}

variable (reg : SenderRegistry)

def indexOf (seqNo : Nat) : Nat := seqNo % reg.windowSize

def store (seqNo : Nat) (payload : List UInt8) (sendTimeNs offset : Nat)
    (flags : UInt8) : Option SenderRegistry :=
  if payload.length > kMaxPayloadSize then none
  else some { reg with
    slots := Function.update reg.slots (reg.indexOf seqNo)
      { seqNo := seqNo, sendTimeNs := sendTimeNs, offset := offset, flags := flags,
        valid := true, payload := payload } }

/-- The slot of a block still held for retransmission. -/
def lookup (seqNo : Nat) : Option RegistrySlot :=
  (reg.slots (reg.indexOf seqNo)).heldFor seqNo

def confirm (seqNo : Nat) : SenderRegistry :=
  match reg.lookup seqNo with
  | some slot =>
    { reg with slots := Function.update reg.slots (reg.indexOf seqNo) { slot with valid := false } }
  | none => reg

theorem heldFor_some {held : RegistrySlot} {seqNo : Nat} (found : slot.heldFor seqNo = some held) :
    held = slot ∧ slot.valid = true ∧ slot.seqNo = seqNo := by
  obtain ⟨hheld, found⟩ := Option.ite_none_right_eq_some.mp found
  rw [Bool.and_eq_true, beq_iff_eq] at hheld
  exact ⟨(Option.some.inj found).symm, hheld⟩

theorem heldFor_of_ne {seqNo : Nat} (hne : slot.seqNo ≠ seqNo) : slot.heldFor seqNo = none := by
  simp [RegistrySlot.heldFor, hne]

@[simp]
theorem lookup_create (streamId windowSize seqNo : Nat) :
    (create streamId windowSize).lookup seqNo = none := by
  simp [lookup, create, RegistrySlot.heldFor]

theorem lookup_seqNo {reg : SenderRegistry} {seqNo : Nat} (found : reg.lookup seqNo = some slot) :
    slot.seqNo = seqNo := by
  obtain ⟨heq, _, hseq⟩ := heldFor_some found
  rw [heq]
  exact hseq

theorem store_windowSize {reg stored : SenderRegistry} {seqNo sendTimeNs offset : Nat}
    {payload : List UInt8} {flags : UInt8}
    (hstore : reg.store seqNo payload sendTimeNs offset flags = some stored) :
    stored.windowSize = reg.windowSize := by
  cases (Option.ite_none_left_eq_some.mp hstore).2
  rfl

/-- A stored block is found, its slot's former block is not, and the rest of the
ring is as before. -/
theorem lookup_store {reg stored : SenderRegistry} {seqNo sendTimeNs offset : Nat}
    {payload : List UInt8} {flags : UInt8}
    (hstore : reg.store seqNo payload sendTimeNs offset flags = some stored) (other : Nat) :
    stored.lookup other =
      if other = seqNo then some ⟨seqNo, sendTimeNs, offset, flags, true, payload⟩
      else if other % reg.windowSize = seqNo % reg.windowSize then none
      else reg.lookup other := by
  cases (Option.ite_none_left_eq_some.mp hstore).2
  by_cases hsame : other = seqNo
  · subst hsame
    simp [lookup, indexOf, RegistrySlot.heldFor]
  · rw [if_neg hsame]
    by_cases hindex : other % reg.windowSize = seqNo % reg.windowSize
    · simp only [lookup, indexOf, hindex, Function.update_self]
      exact heldFor_of_ne (Ne.symm hsame)
    · rw [if_neg hindex]
      simp only [lookup, indexOf, Function.update_of_ne hindex]

@[simp]
theorem confirm_windowSize (seqNo : Nat) : (reg.confirm seqNo).windowSize = reg.windowSize := by
  unfold confirm
  split <;> rfl

/-- Confirming a block frees exactly that block. -/
theorem lookup_confirm (seqNo other : Nat) :
    (reg.confirm seqNo).lookup other = if other = seqNo then none else reg.lookup other := by
  unfold confirm
  split
  · rename_i slot found
    obtain ⟨hslot, _, hseq⟩ := heldFor_some found
    by_cases hindex : reg.indexOf other = reg.indexOf seqNo
    · have hfreed : (Function.update reg.slots (reg.indexOf seqNo)
          { slot with valid := false } (reg.indexOf other)).heldFor other = none := by
        rw [hindex, Function.update_self]
        rfl
      by_cases hsame : other = seqNo
      · rw [if_pos hsame]
        exact hfreed
      · rw [if_neg hsame]
        refine hfreed.trans (Eq.symm ?_)
        rw [lookup, hindex]
        exact heldFor_of_ne (by rw [hseq]; exact Ne.symm hsame)
    · have hsame : other ≠ seqNo := fun h => hindex (by rw [h])
      rw [if_neg hsame]
      change (Function.update reg.slots (reg.indexOf seqNo) _ (reg.indexOf other)).heldFor other = _
      rw [Function.update_of_ne hindex]
      rfl
  · rename_i hfree
    by_cases hsame : other = seqNo
    · rw [if_pos hsame, hsame]
      exact hfree
    · rw [if_neg hsame]

end SenderRegistry

/-! ## Acknowledgements -/

/-- What an acknowledgement updates at the sender. -/
structure AckState where
  reg : SenderRegistry
  base : Nat
  receivedEnd : Option Nat
  bytes : Nat

namespace AckState

/-- Free one named block, counting its payload. -/
def take (st : AckState) (seqNo : Nat) : AckState :=
  match st.reg.lookup seqNo with
  | some slot => { st with bytes := st.bytes + slot.payload.length, reg := st.reg.confirm seqNo }
  | none => st

def takeBelow (st : AckState) (ackBase nextSeq : Nat) : AckState :=
  if ackBase > st.base then
    { (List.range' st.base (min ackBase nextSeq - st.base)).foldl take st with
      base := min ackBase nextSeq }
  else st

def takeNamed (st : AckState) (seqNo : Nat) : AckState :=
  let taken := if seqNo ≥ st.base then st.take seqNo else st
  { taken with receivedEnd := taken.receivedEnd.map fun last => max last (seqNo + 1) }

/-- One word of the selective part, lowest bit first, left at the first block
not yet sent. -/
def takeWord (ackBase w nextSeq : Nat) : List Nat → AckState → AckState
  | [], st => st
  | b :: rest, st =>
    if u64 (ackBase + 64 * w + b) ≥ nextSeq then st
    else takeWord ackBase w nextSeq rest (st.takeNamed (u64 (ackBase + 64 * w + b)))

end AckState

def applyAck (reg : SenderRegistry) (ack : Ack) (base nextSeq : Nat) (receivedEnd : Option Nat) :
    AckState :=
  let below := AckState.takeBelow ⟨reg, base, receivedEnd, 0⟩ ack.baseSeqNo nextSeq
  let named :=
    if ack.baseSeqNo < nextSeq then
      (List.finRange 16).foldl
        (fun st w => st.takeWord ack.baseSeqNo w.val nextSeq (setBits (ack.receivedBitmask w))) below
    else below
  { named with receivedEnd := named.receivedEnd.map fun last => max last named.base }

/-- The blocks an acknowledgement names as received. -/
def Ack.Asserts (ack : Ack) (seqNo : Nat) : Prop :=
  seqNo < ack.baseSeqNo ∨
    ∃ (w : Fin 16) (b : Nat), (ack.receivedBitmask w).getLsbD b = true ∧
      seqNo = ack.baseSeqNo + 64 * w.val + b

/-- One registry is another with exactly the named blocks freed. -/
structure Frees (before after : SenderRegistry) (Freed : Nat → Prop) : Prop where
  freed : ∀ seqNo, Freed seqNo → after.lookup seqNo = none
  kept : ∀ seqNo, ¬ Freed seqNo → after.lookup seqNo = before.lookup seqNo
  window : after.windowSize = before.windowSize

namespace Frees

theorem refl (reg : SenderRegistry) : Frees reg reg (fun _ => False) :=
  ⟨fun _ impossible => impossible.elim, fun _ _ => rfl, rfl⟩

theorem trans {before middle after : SenderRegistry} {First Second : Nat → Prop}
    (first : Frees before middle First) (second : Frees middle after Second) :
    Frees before after (fun seqNo => First seqNo ∨ Second seqNo) := by
  refine ⟨?_, ?_, second.window.trans first.window⟩
  · intro seqNo hfreed
    by_cases hsecond : Second seqNo
    · exact second.freed seqNo hsecond
    · rw [second.kept seqNo hsecond]
      exact first.freed seqNo (hfreed.resolve_right hsecond)
  · intro seqNo hkept
    rw [second.kept seqNo fun h => hkept (Or.inr h)]
    exact first.kept seqNo fun h => hkept (Or.inl h)

theorem congr {before after : SenderRegistry} {First Second : Nat → Prop}
    (frees : Frees before after First) (same : ∀ seqNo, First seqNo ↔ Second seqNo) :
    Frees before after Second :=
  ⟨fun seqNo h => frees.freed seqNo ((same seqNo).mpr h),
    fun seqNo h => frees.kept seqNo fun hfirst => h ((same seqNo).mp hfirst), frees.window⟩

theorem confirm (reg : SenderRegistry) (seqNo : Nat) :
    Frees reg (reg.confirm seqNo) (fun other => other = seqNo) := by
  refine ⟨?_, ?_, SenderRegistry.confirm_windowSize _ _⟩
  · intro other hsame
    rw [SenderRegistry.lookup_confirm, if_pos hsame]
  · intro other hother
    rw [SenderRegistry.lookup_confirm, if_neg hother]

theorem foldl_confirm (seqNos : List Nat) (reg : SenderRegistry) :
    Frees reg (seqNos.foldl SenderRegistry.confirm reg) (fun other => other ∈ seqNos) := by
  induction seqNos generalizing reg with
  | nil => exact (Frees.refl reg).congr fun other => by simp
  | cons seqNo rest ih =>
    refine ((confirm reg seqNo).trans (ih (reg.confirm seqNo))).congr ?_
    intro other
    rw [List.mem_cons]

/-- A block still found is found as it was before. -/
theorem lookup_some {before after : SenderRegistry} {Freed : Nat → Prop}
    (frees : Frees before after Freed) {seqNo : Nat} (found : after.lookup seqNo = some slot) :
    before.lookup seqNo = some slot := by
  rw [← found]
  apply Eq.symm
  apply frees.kept
  intro hfreed
  rw [frees.freed seqNo hfreed] at found
  cases found

end Frees

variable {nextSeq : Nat}

namespace AckState

variable (st : AckState) (seqNo : Nat)

@[simp]
theorem take_base : (st.take seqNo).base = st.base := by
  unfold take
  split <;> rfl

theorem take_frees : Frees st.reg (st.take seqNo).reg (fun other => other = seqNo) := by
  unfold take
  split
  · exact Frees.confirm st.reg seqNo
  · rename_i hfree
    refine ⟨?_, fun _ _ => rfl, rfl⟩
    intro other hsame
    rw [hsame]
    exact hfree

theorem foldl_take_frees (seqNos : List Nat) (st : AckState) :
    Frees st.reg (seqNos.foldl take st).reg (fun other => other ∈ seqNos) := by
  induction seqNos generalizing st with
  | nil => exact (Frees.refl st.reg).congr fun other => by simp
  | cons seqNo rest ih =>
    refine ((take_frees st seqNo).trans (ih (st.take seqNo))).congr ?_
    intro other
    rw [List.mem_cons]

theorem takeBelow_base (ackBase : Nat) (ordered : st.base ≤ nextSeq) :
    (st.takeBelow ackBase nextSeq).base = max st.base (min ackBase nextSeq) := by
  unfold takeBelow
  split
  · change min ackBase nextSeq = _
    omega
  · omega

theorem takeBelow_frees (ackBase nextSeq : Nat) : Frees st.reg (st.takeBelow ackBase nextSeq).reg
      (fun other => st.base ≤ other ∧ other < min ackBase nextSeq) := by
  unfold takeBelow
  split
  · refine (foldl_take_frees _ st).congr ?_
    intro other
    rw [List.mem_range'_1]
    omega
  · refine (Frees.refl st.reg).congr fun other => ⟨False.elim, ?_⟩
    rintro ⟨habove, hbelow⟩
    omega

@[simp]
theorem takeNamed_base : (st.takeNamed seqNo).base = st.base := by
  unfold takeNamed
  by_cases hbelow : seqNo ≥ st.base <;> simp [hbelow]

theorem takeNamed_frees :
    Frees st.reg (st.takeNamed seqNo).reg (fun other => st.base ≤ other ∧ other = seqNo) := by
  by_cases habove : seqNo ≥ st.base
  · have hreg : (st.takeNamed seqNo).reg = (st.take seqNo).reg := by
      simp [takeNamed, habove]
    rw [hreg]
    refine (take_frees st seqNo).congr fun other => ?_
    constructor
    · rintro rfl
      exact ⟨habove, rfl⟩
    · exact And.right
  · have hreg : (st.takeNamed seqNo).reg = st.reg := by
      simp [takeNamed, habove]
    rw [hreg]
    refine (Frees.refl st.reg).congr fun other => ⟨False.elim, ?_⟩
    rintro ⟨hother, rfl⟩
    exact habove hother

def visited (ackBase w nextSeq : Nat) (bits : List Nat) : List Nat :=
  bits.takeWhile fun b => decide (u64 (ackBase + 64 * w + b) < nextSeq)

@[simp]
theorem takeWord_base (ackBase w nextSeq : Nat) (bits : List Nat) (st : AckState) :
    (st.takeWord ackBase w nextSeq bits).base = st.base := by
  induction bits generalizing st with
  | nil => rfl
  | cons b rest ih =>
    rw [takeWord]
    split
    · rfl
    · rw [ih, takeNamed_base]

theorem takeWord_frees (ackBase w nextSeq : Nat) (bits : List Nat) (st : AckState) :
    Frees st.reg (st.takeWord ackBase w nextSeq bits).reg
      (fun other => st.base ≤ other ∧
        ∃ b ∈ visited ackBase w nextSeq bits, other = u64 (ackBase + 64 * w + b)) := by
  induction bits generalizing st with
  | nil => exact (Frees.refl st.reg).congr fun other => by simp [visited]
  | cons b rest ih =>
    rw [takeWord]
    split
    · rename_i hunsent
      refine (Frees.refl st.reg).congr fun other => ?_
      simp [visited, Nat.not_lt.mpr hunsent]
    · rename_i hsent
      refine ((takeNamed_frees st _).trans (ih _)).congr fun other => ?_
      rw [takeNamed_base]
      simp only [visited, List.takeWhile_cons, decide_eq_true (Nat.not_le.mp hsent), if_true,
        List.mem_cons, exists_eq_or_imp]
      exact and_or_left.symm

theorem foldl_takeWord_frees (ack : Ack) (nextSeq : Nat) (words : List (Fin 16)) (st : AckState) :
    Frees st.reg (words.foldl (fun st w =>
        st.takeWord ack.baseSeqNo w.val nextSeq (setBits (ack.receivedBitmask w))) st).reg
      (fun other => st.base ≤ other ∧ ∃ w ∈ words,
        ∃ b ∈ visited ack.baseSeqNo w.val nextSeq (setBits (ack.receivedBitmask w)),
          other = u64 (ack.baseSeqNo + 64 * w.val + b)) := by
  induction words generalizing st with
  | nil => exact (Frees.refl st.reg).congr fun other => by simp
  | cons w rest ih =>
    refine ((takeWord_frees _ _ _ _ st).trans (ih _)).congr fun other => ?_
    rw [takeWord_base]
    simp only [List.mem_cons, exists_eq_or_imp]
    exact and_or_left.symm

theorem foldl_takeWord_base (ack : Ack) (nextSeq : Nat) (words : List (Fin 16)) (st : AckState) :
    (words.foldl (fun st w =>
      st.takeWord ack.baseSeqNo w.val nextSeq (setBits (ack.receivedBitmask w))) st).base =
        st.base := by
  induction words generalizing st with
  | nil => rfl
  | cons w rest ih => rw [List.foldl_cons, ih, takeWord_base]

end AckState

/-- Inside the sender's window the selective loop names exactly the blocks whose
bits are set: neither leaving a word early nor word overflow changes that. -/
theorem visited_iff_named {ack : Ack} {base seqNo : Nat} (behind : ack.baseSeqNo < nextSeq)
    (window : nextSeq ≤ base + kMaxWindow) (bounded : nextSeq < 2 ^ 64) (above : base ≤ seqNo) :
    (∃ w ∈ List.finRange 16,
        ∃ b ∈ AckState.visited ack.baseSeqNo w.val nextSeq (setBits (ack.receivedBitmask w)),
          seqNo = u64 (ack.baseSeqNo + 64 * w.val + b)) ↔
      seqNo < nextSeq ∧ ∃ (w : Fin 16) (b : Nat), (ack.receivedBitmask w).getLsbD b = true ∧
        seqNo = ack.baseSeqNo + 64 * w.val + b := by
  unfold kMaxWindow at window
  constructor
  · rintro ⟨w, _, b, hvisited, hseq⟩
    have hsent := List.mem_takeWhile_imp hvisited
    rw [decide_eq_true_eq] at hsent
    have hset := (mem_setBits_iff _ b).mp ((List.takeWhile_sublist _).subset hvisited)
    have hbit := BitVec.lt_of_getLsbD hset
    refine ⟨by omega, w, b, hset, ?_⟩
    unfold u64 at hseq hsent
    omega
  · rintro ⟨hsent, w, b, hset, hseq⟩
    refine ⟨w, List.mem_finRange w, b, ?_, ?_⟩
    · refine mem_takeWhile_of_sorted (setBits_sorted _) ((mem_setBits_iff _ b).mpr hset) ?_
      intro j _ hj
      apply decide_eq_true
      rw [u64_of_lt (by omega)]
      omega
    · rw [u64_of_lt (by omega)]
      exact hseq

theorem applyAck_base (reg : SenderRegistry) (ack : Ack) {base : Nat} (receivedEnd : Option Nat)
    (ordered : base ≤ nextSeq) :
    (applyAck reg ack base nextSeq receivedEnd).base = max base (min ack.baseSeqNo nextSeq) := by
  have hbelow := AckState.takeBelow_base ⟨reg, base, receivedEnd, 0⟩ ack.baseSeqNo ordered
  unfold applyAck
  by_cases behind : ack.baseSeqNo < nextSeq
  · simp only [behind, if_true]
    rw [AckState.foldl_takeWord_base, hbelow]
  · simp only [behind]
    exact hbelow

/-- An acknowledgement frees exactly the unacknowledged blocks it names. -/
theorem applyAck_frees (reg : SenderRegistry) (ack : Ack) {base : Nat} (receivedEnd : Option Nat)
    (ordered : base ≤ nextSeq) (window : nextSeq ≤ base + kMaxWindow) (bounded : nextSeq < 2 ^ 64) :
    Frees reg (applyAck reg ack base nextSeq receivedEnd).reg
      (fun seqNo => base ≤ seqNo ∧ seqNo < nextSeq ∧ ack.Asserts seqNo) := by
  have hcumulative := AckState.takeBelow_frees ⟨reg, base, receivedEnd, 0⟩ ack.baseSeqNo nextSeq
  have hbase := AckState.takeBelow_base ⟨reg, base, receivedEnd, 0⟩ ack.baseSeqNo ordered
  unfold applyAck
  by_cases behind : ack.baseSeqNo < nextSeq
  · simp only [behind]
    refine (hcumulative.trans (AckState.foldl_takeWord_frees ack nextSeq _ _)).congr ?_
    intro seqNo
    rw [hbase]
    change (base ≤ seqNo ∧ seqNo < min ack.baseSeqNo nextSeq ∨
      max base (min ack.baseSeqNo nextSeq) ≤ seqNo ∧ _) ↔ _
    constructor
    · rintro (⟨habove, hbelow⟩ | ⟨habove, hvisited⟩)
      · exact ⟨habove, by omega, Or.inl (by omega)⟩
      · have hlow : base ≤ seqNo := by omega
        obtain ⟨hsent, hnamed⟩ := (visited_iff_named behind window bounded hlow).mp hvisited
        exact ⟨hlow, hsent, Or.inr hnamed⟩
    · rintro ⟨habove, hsent, hcumul | hnamed⟩
      · exact Or.inl ⟨habove, by omega⟩
      · have hvisited := (visited_iff_named behind window bounded habove).mpr ⟨hsent, hnamed⟩
        exact Or.inr ⟨by omega, hvisited⟩
  · simp only [behind]
    refine hcumulative.congr ?_
    intro seqNo
    constructor
    · rintro ⟨habove, hbelow⟩
      exact ⟨habove, by omega, Or.inl (by omega)⟩
    · rintro ⟨habove, hsent, _⟩
      exact ⟨habove, by omega⟩

/-! ## The end the receiver is known to hold -/

variable {st : AckState} {count : Nat}

namespace AckState

/-- Everything below `count` is known to lie below the end the receiver has reported. -/
def Known (st : AckState) (count : Nat) : Prop := ∃ last, st.receivedEnd = some last ∧ count ≤ last

theorem take_receivedEnd (st : AckState) (seqNo : Nat) :
    (st.take seqNo).receivedEnd = st.receivedEnd := by
  unfold take
  split <;> rfl

theorem foldl_take_receivedEnd (seqNos : List Nat) (st : AckState) :
    (seqNos.foldl take st).receivedEnd = st.receivedEnd := by
  induction seqNos generalizing st with
  | nil => rfl
  | cons seqNo rest ih => rw [List.foldl_cons, ih, take_receivedEnd]

theorem takeBelow_receivedEnd (st : AckState) (ackBase nextSeq : Nat) :
    (st.takeBelow ackBase nextSeq).receivedEnd = st.receivedEnd := by
  unfold takeBelow
  split
  · exact foldl_take_receivedEnd _ st
  · rfl

theorem takeNamed_receivedEnd (st : AckState) (seqNo : Nat) :
    (st.takeNamed seqNo).receivedEnd = st.receivedEnd.map fun last => max last (seqNo + 1) := by
  unfold takeNamed
  dsimp only
  split
  · rw [take_receivedEnd]
  · rfl

theorem Known.takeNamed (known : st.Known count) (seqNo : Nat) :
    (st.takeNamed seqNo).Known (max count (seqNo + 1)) := by
  obtain ⟨last, hlast, hcount⟩ := known
  rw [Known, takeNamed_receivedEnd, hlast]
  exact ⟨_, rfl, Nat.max_le.mpr ⟨Nat.le_trans hcount (Nat.le_max_left _ _), Nat.le_max_right _ _⟩⟩

theorem Known.mono {fewer : Nat} (known : st.Known count) (le : fewer ≤ count) :
    st.Known fewer := by
  obtain ⟨last, hlast, hcount⟩ := known
  exact ⟨last, hlast, Nat.le_trans le hcount⟩

theorem Known.takeWord (known : st.Known count) (ackBase w nextSeq : Nat) (bits : List Nat) :
    (st.takeWord ackBase w nextSeq bits).Known count ∧
      ∀ b ∈ visited ackBase w nextSeq bits,
        (st.takeWord ackBase w nextSeq bits).Known (u64 (ackBase + 64 * w + b) + 1) := by
  induction bits generalizing st count with
  | nil => exact ⟨known, nofun⟩
  | cons b rest ih =>
    rw [AckState.takeWord]
    split
    · rename_i hunsent
      refine ⟨known, ?_⟩
      simp [visited, Nat.not_lt.mpr hunsent]
    · rename_i hsent
      obtain ⟨hkept, hmore⟩ := ih (known.takeNamed (u64 (ackBase + 64 * w + b)))
      refine ⟨hkept.mono (Nat.le_max_left _ _), fun other member => ?_⟩
      rw [visited, List.takeWhile_cons, decide_eq_true (Nat.not_le.mp hsent)] at member
      rcases List.mem_cons.mp member with rfl | hrest
      · exact hkept.mono (Nat.le_max_right _ _)
      · exact hmore other hrest

theorem Known.foldl_takeWord (known : st.Known count) (ack : Ack) (nextSeq : Nat)
    (words : List (Fin 16)) :
    (words.foldl (fun st w =>
        st.takeWord ack.baseSeqNo w.val nextSeq (setBits (ack.receivedBitmask w))) st).Known count ∧
      ∀ w ∈ words, ∀ b ∈ visited ack.baseSeqNo w.val nextSeq (setBits (ack.receivedBitmask w)),
        (words.foldl (fun st w => st.takeWord ack.baseSeqNo w.val nextSeq
          (setBits (ack.receivedBitmask w))) st).Known (u64 (ack.baseSeqNo + 64 * w.val + b) + 1) := by
  induction words generalizing st count with
  | nil => exact ⟨known, nofun⟩
  | cons w rest ih =>
    obtain ⟨hkept, hnamed⟩ := known.takeWord ack.baseSeqNo w.val nextSeq
      (setBits (ack.receivedBitmask w))
    refine ⟨(ih hkept).1, fun other member b hb => ?_⟩
    rcases List.mem_cons.mp member with rfl | hrest
    · exact (ih (hnamed b hb)).1
    · exact (ih hkept).2 other hrest b hb

/-- Naming a block that is known to have arrived and is no longer held changes nothing. -/
theorem takeNamed_known {seqNo : Nat} (known : st.Known (seqNo + 1))
    (free : st.base ≤ seqNo → st.reg.lookup seqNo = none) : st.takeNamed seqNo = st := by
  obtain ⟨last, hlast, hinside⟩ := known
  have htaken : (if seqNo ≥ st.base then st.take seqNo else st) = st := by
    split
    · rename_i habove
      simp [take, free habove]
    · rfl
  unfold takeNamed
  dsimp only
  rw [htaken, hlast, Option.map_some, Nat.max_eq_left hinside, ← hlast]

theorem takeWord_known {ackBase w : Nat} {bits : List Nat}
    (known : ∀ b ∈ visited ackBase w nextSeq bits, st.Known (u64 (ackBase + 64 * w + b) + 1) ∧
      (st.base ≤ u64 (ackBase + 64 * w + b) → st.reg.lookup (u64 (ackBase + 64 * w + b)) = none)) :
    st.takeWord ackBase w nextSeq bits = st := by
  induction bits with
  | nil => rfl
  | cons b rest ih =>
    rw [takeWord]
    split
    · rfl
    · rename_i hsent
      have hvisited : visited ackBase w nextSeq (b :: rest) = b :: visited ackBase w nextSeq rest := by
        rw [visited, List.takeWhile_cons, decide_eq_true (Nat.not_le.mp hsent)]
        rfl
      rw [hvisited] at known
      obtain ⟨hknown, hfree⟩ := known b List.mem_cons_self
      rw [takeNamed_known hknown hfree]
      exact ih fun other member => known other (List.mem_cons_of_mem _ member)

end AckState

namespace AckState

/-- The known end is never in front of the base. -/
def settle (st : AckState) : AckState :=
  { st with receivedEnd := st.receivedEnd.map fun last => max last st.base }

theorem Known.settle (known : st.Known count) : st.settle.Known (max count st.base) := by
  obtain ⟨last, hlast, hcount⟩ := known
  refine ⟨max last st.base, ?_, Nat.max_le.mpr
    ⟨Nat.le_trans hcount (Nat.le_max_left _ _), Nat.le_max_right _ _⟩⟩
  rw [AckState.settle, hlast]
  rfl

end AckState

/-- An acknowledgement moves the known end behind everything it names. -/
theorem applyAck_known (reg : SenderRegistry) (ack : Ack) {base : Nat} (last : Nat)
    (ordered : base ≤ nextSeq) (window : nextSeq ≤ base + kMaxWindow) (bounded : nextSeq < 2 ^ 64) :
    (applyAck reg ack base nextSeq (some last)).Known last ∧
      (applyAck reg ack base nextSeq (some last)).Known
        (applyAck reg ack base nextSeq (some last)).base ∧
      ∀ seqNo, seqNo < nextSeq → ack.Asserts seqNo →
        (applyAck reg ack base nextSeq (some last)).Known (seqNo + 1) := by
  have hbase := applyAck_base reg ack (some last) ordered
  have hbelow : ((⟨reg, base, some last, 0⟩ : AckState).takeBelow ack.baseSeqNo nextSeq).Known last :=
    ⟨last, AckState.takeBelow_receivedEnd _ _ _, Nat.le_refl _⟩
  obtain ⟨hwords, hvisited⟩ := hbelow.foldl_takeWord ack nextSeq (List.finRange 16)
  have hknown : (applyAck reg ack base nextSeq (some last)).Known
      (max last (applyAck reg ack base nextSeq (some last)).base) := by
    unfold applyAck
    by_cases behind : ack.baseSeqNo < nextSeq
    · simp only [behind]
      exact hwords.settle
    · simp only [behind]
      exact hbelow.settle
  refine ⟨hknown.mono (Nat.le_max_left _ _), hknown.mono (Nat.le_max_right _ _), ?_⟩
  intro seqNo hsent hasserts
  by_cases hlow : seqNo < (applyAck reg ack base nextSeq (some last)).base
  · exact hknown.mono (Nat.le_trans hlow (Nat.le_max_right _ _))
  · rcases hasserts with hcumulative | hnamed
    · omega
    · have behind : ack.baseSeqNo < nextSeq := by
        omega
      obtain ⟨w, hw, b, hb, hseq⟩ :=
        (visited_iff_named behind window bounded (by omega)).mpr ⟨hsent, hnamed⟩
      have hnow := (hvisited w hw b hb).settle
      unfold applyAck
      simp only [behind]
      rw [hseq]
      exact hnow.mono (Nat.le_max_left _ _)

/-- An acknowledgement that names only blocks known to have arrived changes nothing. -/
theorem applyAck_old {reg : SenderRegistry} {ack : Ack} {base last : Nat}
    (window : nextSeq ≤ base + kMaxWindow) (bounded : nextSeq < 2 ^ 64)
    (old : ack.baseSeqNo ≤ base) (behind : base ≤ last)
    (known : ∀ seqNo, base ≤ seqNo → seqNo < nextSeq → ack.Asserts seqNo →
      reg.lookup seqNo = none ∧ seqNo < last) :
    applyAck reg ack base nextSeq (some last) = ⟨reg, base, some last, 0⟩ := by
  have hbelow : (⟨reg, base, some last, 0⟩ : AckState).takeBelow ack.baseSeqNo nextSeq =
      ⟨reg, base, some last, 0⟩ := by
    rw [AckState.takeBelow, if_neg (Nat.not_lt.mpr old)]
  have hword : ∀ w ∈ List.finRange 16, ack.baseSeqNo < nextSeq →
      (⟨reg, base, some last, 0⟩ : AckState).takeWord ack.baseSeqNo w.val nextSeq
        (setBits (ack.receivedBitmask w)) = ⟨reg, base, some last, 0⟩ := by
    intro w hw sent
    refine AckState.takeWord_known fun b hb => ?_
    -- A bit that wraps around the word names a block below the base.
    rcases Nat.lt_or_ge (u64 (ack.baseSeqNo + 64 * w.val + b)) base with hlow | hhigh
    · exact ⟨⟨last, rfl, Nat.le_trans hlow behind⟩, fun above => absurd hlow (Nat.not_lt.mpr above)⟩
    · obtain ⟨hsent, hnamed⟩ :=
        (visited_iff_named sent window bounded hhigh).mp ⟨w, hw, b, hb, rfl⟩
      obtain ⟨hfree, hinside⟩ := known _ hhigh hsent (Or.inr hnamed)
      exact ⟨⟨last, rfl, hinside⟩, fun _ => hfree⟩
  have hfold : ack.baseSeqNo < nextSeq → ∀ words : List (Fin 16), (∀ w ∈ words, w ∈ List.finRange 16) →
      words.foldl (fun st w =>
        AckState.takeWord ack.baseSeqNo w.val nextSeq (setBits (ack.receivedBitmask w)) st)
        ⟨reg, base, some last, 0⟩ = ⟨reg, base, some last, 0⟩ := by
    intro sent words among
    induction words with
    | nil => rfl
    | cons w rest ih =>
      rw [List.foldl_cons, hword w (among w List.mem_cons_self) sent]
      exact ih fun other member => among other (List.mem_cons_of_mem _ member)
  unfold applyAck
  rw [hbelow]
  by_cases sent : ack.baseSeqNo < nextSeq
  · simp only [sent, if_true, hfold sent (List.finRange 16) fun _ member => member, Option.map_some,
      Nat.max_eq_left behind]
  · simp only [sent, if_false, Option.map_some, Nat.max_eq_left behind]

end FuseTransport.Proto
