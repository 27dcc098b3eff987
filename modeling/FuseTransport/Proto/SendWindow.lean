import FuseTransport.Proto.Registry

/-!
# The sender's window over its registry

A sender keeps `base ≤ nextSeq ≤ base + window` and stores every block before
it sends it.  The window predicate below says what the registry then still
holds: a block that is not in its slot any more is one the other side is done
with.  It is kept by storing the next block and by applying acknowledgements.
-/

namespace FuseTransport.Proto

open Foundation

structure SentBlock where
  payload : List UInt8
  offset : Nat
  flags : UInt8
  deriving DecidableEq, Repr

def Original (history : List SentBlock) (seqNo : Nat) (slot : RegistrySlot) : Prop :=
  history[seqNo]? = some ⟨slot.payload, slot.offset, slot.flags⟩

variable {seqNo : Nat}

theorem original_append {history : List SentBlock} {slot : RegistrySlot} (block : SentBlock)
    (original : Original history seqNo slot) :
    Original (history ++ [block]) seqNo slot := by
  unfold Original at original ⊢
  obtain ⟨hlt, _⟩ := List.getElem?_eq_some_iff.mp original
  rw [List.getElem?_append_left hlt]
  exact original

/-- The registry of a sender at `base` and `nextSeq`.  `Carries` relates a
sequence number to the slots that carry what it was first sent with; `Done`
holds of the blocks that need no more retransmission. -/
structure SendWindow (Carries : Nat → RegistrySlot → Prop) (Done : Nat → Prop)
    (reg : SenderRegistry) (base nextSeq : Nat) : Prop where
  ordered : base ≤ nextSeq
  window : nextSeq ≤ base + reg.windowSize
  bounded : nextSeq < 2 ^ 64
  below : ∀ seqNo, seqNo < base → Done seqNo
  original : ∀ seqNo slot, seqNo < nextSeq → reg.lookup seqNo = some slot → Carries seqNo slot
  kept : ∀ seqNo, seqNo < nextSeq → reg.lookup seqNo = none → Done seqNo

variable {sendTimeNs : Nat} {stored : SenderRegistry}

namespace SendWindow

variable {Carries : Nat → RegistrySlot → Prop} {Done : Nat → Prop}
variable {reg : SenderRegistry} {base nextSeq : Nat}

theorem create (streamId windowSize : Nat) :
    SendWindow Carries Done (SenderRegistry.create streamId windowSize) 0 0 where
  ordered := Nat.le_refl 0
  window := Nat.zero_le _
  bounded := by decide
  below := fun seqNo impossible => (Nat.not_lt_zero seqNo impossible).elim
  original := fun seqNo _ impossible => (Nat.not_lt_zero seqNo impossible).elim
  kept := fun seqNo impossible => (Nat.not_lt_zero seqNo impossible).elim

/-- The guard `nextSeq < base + window`, computed in machine words, leaves room. -/
theorem guard_exact {limit : Nat} (guard : nextSeq < u64 (base + limit)) :
    nextSeq < base + limit ∧ nextSeq + 1 < 2 ^ 64 := by
  have hword := u64_lt (base + limit)
  unfold u64 at guard hword
  omega

section

variable (holds : SendWindow Carries Done reg base nextSeq)
include holds

/-- What the window says stays true as more is known about each block. -/
theorem mono {Carries' : Nat → RegistrySlot → Prop} {Done' : Nat → Prop}
    (originalMono : ∀ seqNo slot, seqNo < nextSeq → Carries seqNo slot → Carries' seqNo slot)
    (doneMono : ∀ seqNo, Done seqNo → Done' seqNo) :
    SendWindow Carries' Done' reg base nextSeq where
  ordered := holds.ordered
  window := holds.window
  bounded := holds.bounded
  below := fun seqNo hbelow => doneMono seqNo (holds.below seqNo hbelow)
  original := fun seqNo slot hsent found =>
    originalMono seqNo slot hsent (holds.original seqNo slot hsent found)
  kept := fun seqNo hsent hfree => doneMono seqNo (holds.kept seqNo hsent hfree)

/-- A block stored for retransmission is one of the window. -/
theorem lookup_of_not_done (sent : seqNo < nextSeq) (pending : ¬ Done seqNo) :
    ∃ slot, reg.lookup seqNo = some slot ∧ Carries seqNo slot := by
  cases found : reg.lookup seqNo with
  | none => exact (pending (holds.kept seqNo sent found)).elim
  | some slot => exact ⟨slot, rfl, holds.original seqNo slot sent found⟩

/-- Storing the next block overwrites only a block below the base. -/
theorem store_overwrites (room : nextSeq < base + reg.windowSize) (sent : seqNo < nextSeq)
    (same : seqNo % reg.windowSize = nextSeq % reg.windowSize) : seqNo < base := by
  rcases Nat.lt_or_ge seqNo base with hbelow | habove
  · exact hbelow
  · have hordered := holds.ordered
    have hequal := Residues.eq_of_mod_eq habove (by omega) hordered room same
    omega

/-- Storing the next block leaves the blocks of the window where they are. -/
theorem lookup_store (room : nextSeq < base + reg.windowSize) {offset : Nat}
    {payload : List UInt8} {flags : UInt8}
    (hstore : reg.store nextSeq payload sendTimeNs offset flags = some stored)
    (above : base ≤ seqNo) (sent : seqNo < nextSeq) : stored.lookup seqNo = reg.lookup seqNo := by
  rw [SenderRegistry.lookup_store hstore, if_neg (Nat.ne_of_lt sent), if_neg]
  intro same
  exact absurd (holds.store_overwrites room sent same) (Nat.not_lt.mpr above)

/-- Storing the next block, before it counts as sent, keeps the window. -/
theorem attempt (room : nextSeq < base + reg.windowSize) {offset : Nat} {payload : List UInt8}
    {flags : UInt8} (hstore : reg.store nextSeq payload sendTimeNs offset flags = some stored) :
    SendWindow Carries Done stored base nextSeq := by
  have hsize := SenderRegistry.store_windowSize hstore
  have hlookup := SenderRegistry.lookup_store hstore
  refine ⟨holds.ordered, by omega, holds.bounded, holds.below, ?_, ?_⟩
  · intro seqNo slot hsent found
    rw [hlookup, if_neg (Nat.ne_of_lt hsent)] at found
    split at found
    · cases found
    · exact holds.original seqNo slot hsent found
  · intro seqNo hsent hfree
    rw [hlookup, if_neg (Nat.ne_of_lt hsent)] at hfree
    split at hfree
    · rename_i hsame
      exact holds.below seqNo (holds.store_overwrites room hsent hsame)
    · exact holds.kept seqNo hsent hfree

/-- A resident block counts as sent from now on. -/
theorem advance (room : nextSeq < base + reg.windowSize) (fits : nextSeq + 1 < 2 ^ 64)
    {slot : RegistrySlot} (resident : reg.lookup nextSeq = some slot)
    (original : Carries nextSeq slot) :
    SendWindow Carries Done reg base (nextSeq + 1) := by
  refine ⟨Nat.le_succ_of_le holds.ordered, room, fits, holds.below, ?_, ?_⟩
  · intro seqNo other hsent found
    rcases Nat.lt_succ_iff_lt_or_eq.mp hsent with hearlier | hnext
    · exact holds.original seqNo other hearlier found
    · rw [hnext, resident] at found
      cases found
      exact hnext ▸ original
  · intro seqNo hsent hfree
    rcases Nat.lt_succ_iff_lt_or_eq.mp hsent with hearlier | hnext
    · exact holds.kept seqNo hearlier hfree
    · rw [hnext, resident] at hfree
      cases hfree

theorem storeSlot (room : nextSeq < base + reg.windowSize) (fits : nextSeq + 1 < 2 ^ 64)
    {offset : Nat} {payload : List UInt8} {flags : UInt8}
    (hstore : reg.store nextSeq payload sendTimeNs offset flags = some stored)
    (original : Carries nextSeq ⟨nextSeq, sendTimeNs, offset, flags, true, payload⟩) :
    SendWindow Carries Done stored base (nextSeq + 1) := by
  have hsize := SenderRegistry.store_windowSize hstore
  refine (holds.attempt room hstore).advance (by omega) fits ?_ original
  rw [SenderRegistry.lookup_store hstore, if_pos rfl]

end

/-- Storing the next block of a recorded history. -/
theorem store {history : List SentBlock} {block : SentBlock}
    (holds : SendWindow (Original history) Done reg base nextSeq)
    (recorded : history.length = nextSeq) (room : nextSeq < base + reg.windowSize)
    (fits : nextSeq + 1 < 2 ^ 64)
    (hstore : reg.store nextSeq block.payload sendTimeNs block.offset block.flags = some stored) :
    SendWindow (Original (history ++ [block])) Done stored base (nextSeq + 1) := by
  have hlonger : SendWindow (Original (history ++ [block])) Done reg base nextSeq :=
    holds.mono (fun _ _ _ original => original_append block original) (fun _ done => done)
  refine hlonger.storeSlot room fits hstore ?_
  unfold Original
  rw [← recorded, List.getElem?_concat_length]

/-- Freeing finished blocks, and moving the base over finished blocks, keeps the
window. -/
theorem frees (holds : SendWindow Carries Done reg base nextSeq) {after : SenderRegistry}
    {Freed : Nat → Prop} {newBase : Nat} (freed : Frees reg after Freed)
    (forward : base ≤ newBase) (sent : newBase ≤ nextSeq)
    (doneBelow : ∀ seqNo, base ≤ seqNo → seqNo < newBase → Done seqNo)
    (doneFreed : ∀ seqNo, seqNo < nextSeq → Freed seqNo → Done seqNo) :
    SendWindow Carries Done after newBase nextSeq := by
  have hsize := freed.window
  have hroom := holds.window
  refine ⟨sent, by omega, holds.bounded, ?_, ?_, ?_⟩
  · intro seqNo hbelow
    rcases Nat.lt_or_ge seqNo base with hlow | hhigh
    · exact holds.below seqNo hlow
    · exact doneBelow seqNo hhigh hbelow
  · intro seqNo slot hsent found
    exact holds.original seqNo slot hsent (freed.lookup_some found)
  · intro seqNo hsent hfree
    by_cases hfreed : Freed seqNo
    · exact doneFreed seqNo hsent hfreed
    · rw [freed.kept seqNo hfreed] at hfree
      exact holds.kept seqNo hsent hfree

/-- An acknowledgement that names only finished blocks keeps the window. -/
theorem applyAck (holds : SendWindow Carries Done reg base nextSeq) (ack : Ack)
    (receivedEnd : Option Nat)
    (honest : ∀ seqNo, seqNo < nextSeq → ack.Asserts seqNo → Done seqNo) :
    SendWindow Carries Done (applyAck reg ack base nextSeq receivedEnd).reg
      (applyAck reg ack base nextSeq receivedEnd).base nextSeq := by
  have hwindow : nextSeq ≤ base + kMaxWindow :=
    Nat.le_trans holds.window (Nat.add_le_add_left reg.window_le base)
  have hfrees := applyAck_frees reg ack receivedEnd holds.ordered hwindow holds.bounded
  have hbase := applyAck_base reg ack receivedEnd holds.ordered
  have hordered := holds.ordered
  refine holds.frees hfrees (by omega) (by omega) ?_ ?_
  · intro seqNo _ hbelow
    exact honest seqNo (by omega) (Or.inl (by omega))
  · intro seqNo hsent hfreed
    exact honest seqNo hsent hfreed.2.2

end SendWindow

end FuseTransport.Proto
