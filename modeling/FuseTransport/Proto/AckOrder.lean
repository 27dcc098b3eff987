import FuseTransport.Foundation.Largest
import FuseTransport.Proto.Registry

/-!
# Acknowledgements in any order

Acknowledgements are lost, repeated, reordered and, in the clear, forged.  What a list of
them does to a sender depends only on which ones are in it, and the bytes they are said to
confirm add up to the payloads of the blocks that they free.
-/

namespace FuseTransport.Proto

open Foundation Foundation.SetBits

/-! ## The bytes a registry holds -/

variable {seqNo : Nat}

namespace SenderRegistry

/-- The payload bytes held for one number. -/
def heldBytes (reg : SenderRegistry) (seqNo : Nat) : Nat :=
  ((reg.lookup seqNo).map fun slot => slot.payload.length).getD 0

/-- The payload bytes held for the numbers from `base` up to `nextSeq`. -/
def bytesBetween (reg : SenderRegistry) (base nextSeq : Nat) : Nat :=
  ((List.range' base (nextSeq - base)).map reg.heldBytes).sum

def weightBetween (weight : RegistrySlot → Nat) (reg : SenderRegistry) (base nextSeq : Nat) : Nat :=
  ((List.range' base (nextSeq - base)).map fun s => ((reg.lookup s).map weight).getD 0).sum

section Weight

variable {weight : RegistrySlot → Nat} {reg other : SenderRegistry} {base nextSeq : Nat}

theorem weightBetween_congr
    (same : ∀ s, base ≤ s → s < nextSeq → other.lookup s = reg.lookup s) :
    other.weightBetween weight base nextSeq = reg.weightBetween weight base nextSeq := by
  refine congrArg List.sum (List.map_congr_left fun s member => ?_)
  have hrange := List.mem_range'_1.mp member
  rw [same s hrange.1 (by omega)]

theorem weightBetween_succ (ordered : base ≤ nextSeq) :
    reg.weightBetween weight base (nextSeq + 1) =
      reg.weightBetween weight base nextSeq + ((reg.lookup nextSeq).map weight).getD 0 := by
  have hcount : nextSeq + 1 - base = nextSeq - base + 1 := by omega
  have hlast : base + (nextSeq - base) = nextSeq := by omega
  unfold weightBetween
  rw [hcount, List.range'_1_concat, List.map_append, List.sum_append, hlast, List.map_singleton,
    List.sum_singleton]

/-- Numbers for which nothing is held weigh nothing. -/
theorem weightBetween_free {low : Nat} (below : low ≤ base) (ordered : base ≤ nextSeq)
    (free : ∀ s, low ≤ s → s < base → reg.lookup s = none) :
    reg.weightBetween weight low nextSeq = reg.weightBetween weight base nextSeq := by
  have hsplit : List.range' low (nextSeq - low) =
      List.range' low (base - low) ++ List.range' base (nextSeq - base) := by
    have hlow : base = low + (base - low) := by omega
    have hcount : nextSeq - low = base - low + (nextSeq - base) := by omega
    rw [hcount, ← List.range'_append_1, ← hlow]
  have hzero : ((List.range' low (base - low)).map fun s =>
      ((reg.lookup s).map weight).getD 0).sum = 0 := by
    refine List.sum_eq_zero_iff_forall_eq_nat.mpr fun count member => ?_
    obtain ⟨s, hs, rfl⟩ := List.mem_map.mp member
    have hrange := List.mem_range'_1.mp hs
    rw [free s hrange.1 (by omega)]
    rfl
  unfold weightBetween
  rw [hsplit, List.map_append, List.sum_append, hzero, Nat.zero_add]

end Weight

theorem heldBytes_confirm (reg : SenderRegistry) (seqNo other : Nat) :
    (reg.confirm seqNo).heldBytes other = if other = seqNo then 0 else reg.heldBytes other := by
  unfold heldBytes
  rw [lookup_confirm]
  split <;> rfl

/-- Freeing a number takes its bytes out of every sum it is part of. -/
theorem sum_heldBytes_confirm (reg : SenderRegistry) {seqNos : List Nat} (distinct : seqNos.Nodup)
    (member : seqNo ∈ seqNos) :
    reg.heldBytes seqNo + (seqNos.map (reg.confirm seqNo).heldBytes).sum =
      (seqNos.map reg.heldBytes).sum := by
  induction seqNos with
  | nil => cases member
  | cons first rest ih =>
    rw [List.nodup_cons] at distinct
    rw [List.map_cons, List.map_cons, List.sum_cons, List.sum_cons, heldBytes_confirm]
    by_cases hfirst : first = seqNo
    · subst hfirst
      have hrest : rest.map (reg.confirm first).heldBytes = rest.map reg.heldBytes := by
        refine List.map_congr_left fun other hother => ?_
        have hne : other ≠ first := fun same => distinct.1 (same ▸ hother)
        rw [heldBytes_confirm, if_neg hne]
      rw [if_pos rfl, hrest, Nat.zero_add]
    · have hlater := ih distinct.2 ((List.mem_cons.mp member).resolve_left (Ne.symm hfirst))
      rw [if_neg hfirst]
      omega

end SenderRegistry

/-- What was held is held still or has been freed. -/
theorem Frees.sum_heldBytes {before after : SenderRegistry} {Freed : Nat → Prop}
    (frees : Frees before after Freed) (seqNos : List Nat) :
    (seqNos.map before.heldBytes).sum =
      ((seqNos.filter fun s => (after.lookup s).isNone).map before.heldBytes).sum +
        (seqNos.map after.heldBytes).sum := by
  induction seqNos with
  | nil => rfl
  | cons s rest ih =>
    rw [List.map_cons, List.map_cons, List.sum_cons, List.sum_cons, List.filter_cons]
    cases hfound : after.lookup s with
    | none =>
      have hempty : after.heldBytes s = 0 := by
        rw [SenderRegistry.heldBytes, hfound]
        rfl
      rw [Option.isNone_none, if_pos rfl, List.map_cons, List.sum_cons]
      omega
    | some slot =>
      have hsame : after.heldBytes s = before.heldBytes s := by
        rw [SenderRegistry.heldBytes, SenderRegistry.heldBytes, hfound,
          frees.lookup_some hfound]
      rw [Option.isNone_some, if_neg (by decide)]
      omega

namespace AckState

def Balanced (base nextSeq total : Nat) (st : AckState) : Prop :=
  st.bytes + st.reg.bytesBetween base nextSeq = total

variable {base nextSeq total : Nat} {st : AckState}

theorem Balanced.take (balanced : st.Balanced base nextSeq total) (above : base ≤ seqNo)
    (below : seqNo < nextSeq) : (st.take seqNo).Balanced base nextSeq total := by
  have hmember : seqNo ∈ List.range' base (nextSeq - base) :=
    List.mem_range'_1.mpr ⟨above, by omega⟩
  have hsum := st.reg.sum_heldBytes_confirm List.nodup_range' hmember
  unfold Balanced SenderRegistry.bytesBetween at balanced ⊢
  unfold AckState.take
  split
  · rename_i slot found
    have hheld : st.reg.heldBytes seqNo = slot.payload.length := by
      rw [SenderRegistry.heldBytes, found]
      rfl
    change st.bytes + slot.payload.length + (List.map (st.reg.confirm seqNo).heldBytes _).sum = total
    omega
  · exact balanced

theorem Balanced.foldl_take (balanced : st.Balanced base nextSeq total) {seqNos : List Nat}
    (inside : ∀ s ∈ seqNos, base ≤ s ∧ s < nextSeq) :
    (seqNos.foldl AckState.take st).Balanced base nextSeq total := by
  induction seqNos generalizing st with
  | nil => exact balanced
  | cons seqNo rest ih =>
    obtain ⟨habove, hbelow⟩ := inside seqNo List.mem_cons_self
    exact ih (balanced.take habove hbelow) fun s member => inside s (List.mem_cons_of_mem _ member)

theorem Balanced.takeBelow (balanced : st.Balanced st.base nextSeq total) (ackBase : Nat) :
    (st.takeBelow ackBase nextSeq).Balanced st.base nextSeq total := by
  unfold AckState.takeBelow
  split
  · refine balanced.foldl_take fun s member => ?_
    have hrange := List.mem_range'_1.mp member
    omega
  · exact balanced

section

variable (balanced : st.Balanced base nextSeq total)
include balanced

theorem Balanced.takeNamed (ahead : base ≤ st.base) (below : seqNo < nextSeq) :
    (st.takeNamed seqNo).Balanced base nextSeq total := by
  unfold AckState.takeNamed
  split
  · rename_i habove
    exact balanced.take (Nat.le_trans ahead habove) below
  · exact balanced

theorem Balanced.takeWord (ahead : base ≤ st.base) (ackBase w : Nat) (bits : List Nat) :
    (st.takeWord ackBase w nextSeq bits).Balanced base nextSeq total := by
  induction bits generalizing st with
  | nil => exact balanced
  | cons b rest ih =>
    rw [AckState.takeWord]
    split
    · exact balanced
    · rename_i hsent
      refine ih (balanced.takeNamed ahead (Nat.not_le.mp hsent)) ?_
      rw [takeNamed_base]
      exact ahead

theorem Balanced.foldl_takeWord (ahead : base ≤ st.base) (ack : Ack) (words : List (Fin 16)) :
    (words.foldl (fun st w => st.takeWord ack.baseSeqNo w.val nextSeq
      (setBits (ack.receivedBitmask w))) st).Balanced base nextSeq total := by
  induction words generalizing st with
  | nil => exact balanced
  | cons w rest ih =>
    refine ih (balanced.takeWord ahead ack.baseSeqNo w.val _) ?_
    rw [takeWord_base]
    exact ahead

end

end AckState

variable {nextSeq : Nat}

/-- The bytes an acknowledgement confirms are those the registry holds no longer. -/
theorem applyAck_balanced (reg : SenderRegistry) (ack : Ack) {base : Nat}
    (receivedEnd : Option Nat) (ordered : base ≤ nextSeq) :
    (applyAck reg ack base nextSeq receivedEnd).bytes +
        (applyAck reg ack base nextSeq receivedEnd).reg.bytesBetween base nextSeq =
      reg.bytesBetween base nextSeq := by
  have hstart : AckState.Balanced base nextSeq (reg.bytesBetween base nextSeq)
      ⟨reg, base, receivedEnd, 0⟩ := Nat.zero_add _
  have hbelow := hstart.takeBelow ack.baseSeqNo
  have hbase := AckState.takeBelow_base ⟨reg, base, receivedEnd, 0⟩ ack.baseSeqNo ordered
  unfold applyAck
  by_cases behind : ack.baseSeqNo < nextSeq
  · simp only [behind]
    refine hbelow.foldl_takeWord ?_ ack _
    rw [hbase]
    exact Nat.le_max_left _ _
  · simp only [behind]
    exact hbelow

namespace AckState

def namedEnds (ack : Ack) (nextSeq : Nat) : List Nat :=
  if ack.baseSeqNo < nextSeq then
    (List.finRange 16).flatMap fun w =>
      (visited ack.baseSeqNo w.val nextSeq (setBits (ack.receivedBitmask w))).map fun b =>
        u64 (ack.baseSeqNo + 64 * w.val + b) + 1
  else []

theorem takeWord_receivedEnd (ackBase w nextSeq : Nat) (bits : List Nat) (st : AckState) :
    (st.takeWord ackBase w nextSeq bits).receivedEnd = st.receivedEnd.map fun last =>
      ((visited ackBase w nextSeq bits).map fun b => u64 (ackBase + 64 * w + b) + 1).foldl
        max last := by
  induction bits generalizing st with
  | nil => simp [takeWord, visited]
  | cons b rest ih =>
    rw [takeWord]
    split
    · rename_i hunsent
      simp [visited, Nat.not_lt.mpr hunsent]
    · rename_i hsent
      rw [ih, takeNamed_receivedEnd, visited, visited, List.takeWhile_cons,
        if_pos (decide_eq_true (Nat.not_le.mp hsent)), Option.map_map]
      rfl

theorem foldl_takeWord_receivedEnd (ack : Ack) (nextSeq : Nat) (words : List (Fin 16))
    (st : AckState) :
    (words.foldl (fun st w => st.takeWord ack.baseSeqNo w.val nextSeq
      (setBits (ack.receivedBitmask w))) st).receivedEnd = st.receivedEnd.map fun last =>
        (words.flatMap fun w =>
          (visited ack.baseSeqNo w.val nextSeq (setBits (ack.receivedBitmask w))).map fun b =>
            u64 (ack.baseSeqNo + 64 * w.val + b) + 1).foldl max last := by
  induction words generalizing st with
  | nil => simp
  | cons w rest ih =>
    rw [List.foldl_cons, ih, takeWord_receivedEnd, Option.map_map, List.flatMap_cons]
    refine congrArg (Option.map · st.receivedEnd) (funext fun last => ?_)
    rw [Function.comp_apply, List.foldl_append]

end AckState

theorem applyAck_receivedEnd (reg : SenderRegistry) (ack : Ack) {base : Nat}
    (receivedEnd : Option Nat) (ordered : base ≤ nextSeq) :
    (applyAck reg ack base nextSeq receivedEnd).receivedEnd = receivedEnd.map fun last =>
      max ((AckState.namedEnds ack nextSeq).foldl max last)
        (max base (min ack.baseSeqNo nextSeq)) := by
  have hbelow := AckState.takeBelow_receivedEnd ⟨reg, base, receivedEnd, 0⟩ ack.baseSeqNo nextSeq
  have hbase := AckState.takeBelow_base ⟨reg, base, receivedEnd, 0⟩ ack.baseSeqNo ordered
  unfold applyAck AckState.namedEnds
  by_cases behind : ack.baseSeqNo < nextSeq
  · simp only [behind, if_true]
    rw [AckState.foldl_takeWord_receivedEnd, AckState.foldl_takeWord_base, hbelow, hbase,
      Option.map_map]
    rfl
  · simp only [behind, if_false]
    rw [hbelow, hbase]
    rfl

theorem namedEnds_le {ack : Ack} {n : Nat} (member : n ∈ AckState.namedEnds ack nextSeq) :
    n ≤ nextSeq := by
  unfold AckState.namedEnds at member
  split at member
  · obtain ⟨w, _, hw⟩ := List.mem_flatMap.mp member
    obtain ⟨b, hb, rfl⟩ := List.mem_map.mp hw
    have hsent := List.mem_takeWhile_imp hb
    exact of_decide_eq_true hsent
  · cases member

/-! ## Lists of acknowledgements -/

/-- A sender's registry: everything it holds lies in the window.  A number of the window for
which it holds nothing is a confirmed one. -/
structure Registered (reg : SenderRegistry) (base nextSeq : Nat) : Prop where
  ordered : base ≤ nextSeq
  window : nextSeq ≤ base + reg.windowSize
  bounded : nextSeq < 2 ^ 64
  resident : ∀ s, reg.lookup s ≠ none → base ≤ s ∧ s < nextSeq

def AckState.apply (nextSeq : Nat) (st : AckState) (ack : Ack) : AckState :=
  { applyAck st.reg ack st.base nextSeq st.receivedEnd with
    bytes := st.bytes + (applyAck st.reg ack st.base nextSeq st.receivedEnd).bytes }

def applyAcks (nextSeq : Nat) (st : AckState) (acks : List Ack) : AckState :=
  acks.foldl (AckState.apply nextSeq) st

namespace Registered

variable {reg : SenderRegistry} {base nextSeq : Nat}

theorem frees (holds : Registered reg base nextSeq) (ack : Ack) (receivedEnd : Option Nat) :
    Frees reg (applyAck reg ack base nextSeq receivedEnd).reg
      (fun s => s < nextSeq ∧ ack.Asserts s) := by
  have hfrees := applyAck_frees reg ack receivedEnd holds.ordered
    (Nat.le_trans holds.window (Nat.add_le_add_left reg.window_le base)) holds.bounded
  refine ⟨fun s named => ?_, fun s unnamed => hfrees.kept s fun named => unnamed named.2,
    hfrees.window⟩
  by_cases habove : base ≤ s
  · exact hfrees.freed s ⟨habove, named⟩
  · rw [hfrees.kept s fun inside => habove inside.1]
    by_contra hresident
    exact habove (holds.resident s hresident).1

theorem applyAck (holds : Registered reg base nextSeq) (ack : Ack) (receivedEnd : Option Nat) :
    Registered (applyAck reg ack base nextSeq receivedEnd).reg
      (applyAck reg ack base nextSeq receivedEnd).base nextSeq := by
  have hbase := applyAck_base reg ack receivedEnd holds.ordered
  have hfrees := holds.frees ack receivedEnd
  have hordered := holds.ordered
  have hwindow := holds.window
  refine ⟨by omega, by rw [hfrees.window]; omega, holds.bounded, fun s resident => ?_⟩
  have hnamed : ¬ (s < nextSeq ∧ ack.Asserts s) := fun named => resident (hfrees.freed s named)
  rw [hfrees.kept s hnamed] at resident
  obtain ⟨habove, hbelow⟩ := holds.resident s resident
  refine ⟨?_, hbelow⟩
  have hcumulative : ¬ s < ack.baseSeqNo := fun below => hnamed ⟨hbelow, Or.inl below⟩
  omega

theorem create (streamId windowSize : Nat) : Registered (.create streamId windowSize) 0 0 where
  ordered := Nat.le_refl 0
  window := Nat.zero_le _
  bounded := by decide
  resident := fun s found => absurd (SenderRegistry.lookup_create streamId windowSize s) found

section Store

variable {stored : SenderRegistry} {sendTimeNs offset : Nat} {payload : List UInt8} {flags : UInt8}

theorem lookup_store (holds : Registered reg base nextSeq) (room : nextSeq < base + reg.windowSize)
    (kept : reg.store nextSeq payload sendTimeNs offset flags = some stored) (s : Nat) :
    stored.lookup s = if s = nextSeq then some ⟨nextSeq, sendTimeNs, offset, flags, true, payload⟩
      else reg.lookup s := by
  rw [SenderRegistry.lookup_store kept]
  split
  · rfl
  · rename_i hother
    split
    · rename_i hplace
      by_contra hresident
      obtain ⟨habove, hbelow⟩ := holds.resident s (Ne.symm hresident)
      have hordered := holds.ordered
      exact hother (Residues.eq_of_mod_eq habove (by omega) hordered room hplace)
    · rfl

theorem store (holds : Registered reg base nextSeq) (room : nextSeq < base + reg.windowSize)
    (fits : nextSeq + 1 < 2 ^ 64)
    (kept : reg.store nextSeq payload sendTimeNs offset flags = some stored) :
    Registered stored base (nextSeq + 1) := by
  have hordered := holds.ordered
  refine ⟨by omega, ?_, fits, fun s resident => ?_⟩
  · rw [SenderRegistry.store_windowSize kept]
    omega
  · rw [holds.lookup_store room kept] at resident
    split at resident
    · omega
    · obtain ⟨habove, hbelow⟩ := holds.resident s resident
      omega

end Store

/-- Below the base there is nothing to count. -/
theorem bytesBetween_eq (holds : Registered reg base nextSeq) {low : Nat} (below : low ≤ base) :
    reg.bytesBetween low nextSeq = reg.bytesBetween base nextSeq := by
  refine SenderRegistry.weightBetween_free below holds.ordered fun s _ low => ?_
  by_contra hresident
  exact absurd (holds.resident s hresident).1 (Nat.not_le.mpr low)

end Registered

structure Applied (nextSeq : Nat) (acks : List Ack) (before after : AckState) : Prop where
  registered : Registered after.reg after.base nextSeq
  base : after.base = (acks.map fun ack => min ack.baseSeqNo nextSeq).foldl max before.base
  frees : Frees before.reg after.reg fun s => s < nextSeq ∧ ∃ ack ∈ acks, ack.Asserts s
  balanced : after.bytes + after.reg.bytesBetween after.base nextSeq =
    before.bytes + before.reg.bytesBetween before.base nextSeq

theorem applyAcks_applied (acks : List Ack) {st : AckState}
    (holds : Registered st.reg st.base nextSeq) :
    Applied nextSeq acks st (applyAcks nextSeq st acks) := by
  induction acks generalizing st with
  | nil => exact ⟨holds, rfl, (Frees.refl st.reg).congr fun s => by simp, rfl⟩
  | cons ack rest ih =>
    have hnext : Registered (st.apply nextSeq ack).reg (st.apply nextSeq ack).base nextSeq :=
      holds.applyAck ack st.receivedEnd
    have hbase : (st.apply nextSeq ack).base = max st.base (min ack.baseSeqNo nextSeq) :=
      applyAck_base st.reg ack st.receivedEnd holds.ordered
    have hrest := ih hnext
    refine ⟨hrest.registered, ?_, ?_, ?_⟩
    · change (applyAcks nextSeq (st.apply nextSeq ack) rest).base = _
      rw [hrest.base, hbase]
      rfl
    · refine ((holds.frees ack st.receivedEnd).trans hrest.frees).congr fun s => ?_
      rw [← and_or_left]
      simp
    · refine hrest.balanced.trans ?_
      have hlow : st.base ≤ (st.apply nextSeq ack).base := by
        rw [hbase]
        exact Nat.le_max_left _ _
      have hbalanced := applyAck_balanced st.reg ack st.receivedEnd holds.ordered
      rw [← hnext.bytesBetween_eq hlow]
      change st.bytes + _ + _ = _
      rw [Nat.add_assoc]
      exact congrArg (st.bytes + ·) hbalanced

def AckState.EndsBy (base nextSeq bound : Nat) (ack : Ack) : Prop :=
  base ≤ bound ∧ min ack.baseSeqNo nextSeq ≤ bound ∧ ∀ n ∈ namedEnds ack nextSeq, n ≤ bound

/-- The known end gets as far as some acknowledgement says, and no further. -/
theorem applyAcks_receivedEnd (acks : List Ack) (st : AckState)
    (holds : Registered st.reg st.base nextSeq) :
    ∃ raise : Nat → Nat, (applyAcks nextSeq st acks).receivedEnd = st.receivedEnd.map raise ∧
      ∀ last bound, raise last ≤ bound ↔
        last ≤ bound ∧ ∀ ack ∈ acks, AckState.EndsBy st.base nextSeq bound ack := by
  induction acks generalizing st with
  | nil => exact ⟨id, by simp [applyAcks], by simp⟩
  | cons ack rest ih =>
    have hbase : (st.apply nextSeq ack).base = max st.base (min ack.baseSeqNo nextSeq) :=
      applyAck_base st.reg ack st.receivedEnd holds.ordered
    have hend : (st.apply nextSeq ack).receivedEnd = _ :=
      applyAck_receivedEnd st.reg ack st.receivedEnd holds.ordered
    have hnext : Registered (st.apply nextSeq ack).reg (st.apply nextSeq ack).base nextSeq :=
      holds.applyAck ack st.receivedEnd
    obtain ⟨raise, hraise, hle⟩ := ih (st.apply nextSeq ack) hnext
    refine ⟨fun last => raise (max ((AckState.namedEnds ack nextSeq).foldl max last)
      (max st.base (min ack.baseSeqNo nextSeq))), ?_, fun last bound => ?_⟩
    · change (applyAcks nextSeq (st.apply nextSeq ack) rest).receivedEnd = _
      rw [hraise, hend, Option.map_map]
      rfl
    · rw [hle, List.forall_mem_cons, max_le_iff, Largest.foldl_max_le_iff, hbase]
      unfold AckState.EndsBy
      simp only [max_le_iff]
      constructor
      · rintro ⟨⟨⟨hlast, hnamed⟩, hlow, hcumulative⟩, hrest⟩
        exact ⟨hlast, ⟨hlow, hcumulative, hnamed⟩, fun other member =>
          ⟨hlow, (hrest other member).2⟩⟩
      · rintro ⟨hlast, ⟨hlow, hcumulative, hnamed⟩, hrest⟩
        exact ⟨⟨⟨hlast, hnamed⟩, hlow, hcumulative⟩, fun other member =>
          ⟨⟨hlow, hcumulative⟩, (hrest other member).2⟩⟩

/-- What has become of a sender depends only on which acknowledgements it was given, whatever
they say, however often and in which order; nothing that was not sent is confirmed; and the
bytes counted are those of the blocks confirmed. -/
theorem applyAcks_order_free {reg : SenderRegistry} {base nextSeq : Nat}
    (holds : Registered reg base nextSeq) (receivedEnd : Option Nat) {acks others : List Ack}
    (same : ∀ ack, ack ∈ acks ↔ ack ∈ others) {st st' : AckState}
    (applied : applyAcks nextSeq ⟨reg, base, receivedEnd, 0⟩ acks = st)
    (reordered : applyAcks nextSeq ⟨reg, base, receivedEnd, 0⟩ others = st') :
    (st.base = st'.base ∧ (∀ s, st.reg.lookup s = st'.reg.lookup s) ∧
      st.receivedEnd = st'.receivedEnd) ∧
    st.base = (acks.map fun ack => min ack.baseSeqNo nextSeq).foldl max base ∧
    ((∀ last ∈ receivedEnd, last ≤ nextSeq) → ∀ last ∈ st.receivedEnd, last ≤ nextSeq) ∧
    Registered st.reg st.base nextSeq ∧
    (∀ s, reg.lookup s ≠ none → (st.reg.lookup s = none ↔ ∃ ack ∈ acks, ack.Asserts s)) ∧
    (∀ s, nextSeq ≤ s → st.reg.lookup s = reg.lookup s) ∧
    st.bytes = (((List.range' base (nextSeq - base)).filter fun s =>
      (st.reg.lookup s).isNone).map reg.heldBytes).sum := by
  have hfirst : Applied nextSeq acks ⟨reg, base, receivedEnd, 0⟩ st :=
    applied ▸ applyAcks_applied acks holds
  have hsecond : Applied nextSeq others ⟨reg, base, receivedEnd, 0⟩ st' :=
    reordered ▸ applyAcks_applied others holds
  obtain ⟨raise, hraise, hle⟩ := applyAcks_receivedEnd acks ⟨reg, base, receivedEnd, 0⟩ holds
  obtain ⟨raise', hraise', hle'⟩ := applyAcks_receivedEnd others ⟨reg, base, receivedEnd, 0⟩ holds
  rw [applied] at hraise
  rw [reordered] at hraise'
  have hnamed : ∀ s, (s < nextSeq ∧ ∃ ack ∈ acks, ack.Asserts s) ↔
      s < nextSeq ∧ ∃ ack ∈ others, ack.Asserts s := by
    intro s
    simp only [same]
  refine ⟨⟨?_, fun s => ?_, ?_⟩, hfirst.base, ?_, hfirst.registered, ?_, ?_, ?_⟩
  · rw [hfirst.base, hsecond.base]
    refine Largest.foldl_max_congr (fun n => ?_) base
    simp only [List.mem_map, same]
  · by_cases hfreed : s < nextSeq ∧ ∃ ack ∈ acks, ack.Asserts s
    · rw [hfirst.frees.freed s hfreed, hsecond.frees.freed s ((hnamed s).mp hfreed)]
    · rw [hfirst.frees.kept s hfreed, hsecond.frees.kept s (mt (hnamed s).mpr hfreed)]
  · have hsame : raise = raise' := by
      refine funext fun last => eq_of_forall_ge_iff fun bound => ?_
      rw [hle, hle']
      simp only [same]
    rw [hraise, hraise', hsame]
  · intro inside last member
    rw [hraise] at member
    obtain ⟨before, hbefore, rfl⟩ := Option.mem_map.mp member
    refine (hle before nextSeq).mpr ⟨inside before hbefore, fun ack _ => ?_⟩
    exact ⟨holds.ordered, Nat.min_le_right _ _, fun n hn => namedEnds_le hn⟩
  · intro s resident
    have hsent := (holds.resident s resident).2
    constructor
    · intro hfree
      by_contra hunnamed
      rw [hfirst.frees.kept s fun named => hunnamed named.2] at hfree
      exact resident hfree
    · exact fun named => hfirst.frees.freed s ⟨hsent, named⟩
  · exact fun s beyond => hfirst.frees.kept s fun named => absurd named.1 (Nat.not_lt.mpr beyond)
  · have hbase : base ≤ st.base := by
      rw [hfirst.base]
      exact Largest.le_foldl_max _ base
    have hbalanced := hfirst.balanced
    rw [← hfirst.registered.bytesBetween_eq hbase] at hbalanced
    have hsplit := hfirst.frees.sum_heldBytes (List.range' base (nextSeq - base))
    unfold SenderRegistry.bytesBetween at hbalanced
    dsimp only at hbalanced hsplit
    omega

def SenderRegistry.push (reg : SenderRegistry) (seqNo : Nat) (payload : List UInt8) : SenderRegistry :=
  (reg.store seqNo payload 0 0 0).getD reg

theorem Registered.push {reg : SenderRegistry} {base : Nat} (holds : Registered reg base nextSeq)
    (room : nextSeq < base + reg.windowSize) (fits : nextSeq + 1 < 2 ^ 64) {payload : List UInt8}
    (small : payload.length ≤ kMaxPayloadSize) :
    Registered (reg.push nextSeq payload) base (nextSeq + 1) := by
  obtain ⟨stored, kept⟩ : ∃ stored, reg.store nextSeq payload 0 0 0 = some stored := by
    rw [SenderRegistry.store, if_neg (Nat.not_lt.mpr small)]
    exact ⟨_, rfl⟩
  rw [SenderRegistry.push, kept]
  exact holds.store room fits kept

/-- Two blocks of two bytes and one of one byte, all sent. -/
def threeBlocks : SenderRegistry :=
  (((SenderRegistry.create 0 4).push 0 [1, 2]).push 1 [3, 4]).push 2 [5]

/-- One acknowledges the first block, one only the last, and one blocks that were never
sent. -/
def straightAndForged : List Ack :=
  [{ baseSeqNo := 1 }, { receivedBitmask := fun w => if w = 0 then 4 else 0 },
    { baseSeqNo := 2, receivedBitmask := fun _ => BitVec.allOnes 64 }]

theorem applyAcks_order_free_threeBlocks :
    Registered threeBlocks 0 3 ∧
    (applyAcks 3 ⟨threeBlocks, 0, some 0, 0⟩ straightAndForged).base =
      (applyAcks 3 ⟨threeBlocks, 0, some 0, 0⟩ straightAndForged.reverse).base ∧
    (applyAcks 3 ⟨threeBlocks, 0, some 0, 0⟩ straightAndForged).bytes = 5 := by
  have hholds : Registered threeBlocks 0 3 :=
    (((Registered.create 0 4).push (by decide) (by decide) (by decide)).push (by decide) (by decide)
      (by decide)).push (by decide) (by decide) (by decide)
  obtain ⟨⟨hbase, _⟩, _⟩ := applyAcks_order_free hholds (some 0)
    (fun _ => List.mem_reverse.symm) rfl rfl
  exact ⟨hholds, hbase, by decide +kernel⟩

end FuseTransport.Proto
