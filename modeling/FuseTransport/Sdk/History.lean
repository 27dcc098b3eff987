import FuseTransport.Sdk.Connection

/-!
# The blocks of the calls so far

Blocks are numbered in the order they are sent, and the blocks of one call are
consecutive.  The first section says how a message's bytes fall into its blocks;
the second how the numbering relates blocks of different calls.
-/

namespace FuseTransport.Sdk

open Proto

/-- A message has as few blocks as hold it, and at least one. -/
theorem nblocks_spec (len : Nat) :
    1 ≤ nblocks len ∧ len ≤ nblocks len * 1200 ∧ (1 < nblocks len → (nblocks len - 1) * 1200 < len) := by
  unfold nblocks kBlockSize
  split <;> omega

/-- Every byte of a message is in one of its blocks. -/
theorem div_lt_nblocks {len i : Nat} (inside : i < len) : i / kBlockSize < nblocks len := by
  have hspec := nblocks_spec len
  unfold kBlockSize
  omega

theorem length_chunk (data : List UInt8) (i : Nat) :
    (chunk data i).payload.length = min kBlockSize (data.length - i * kBlockSize) := by
  simp only [chunk, List.length_take, List.length_drop]
  omega

variable {data : List UInt8}

/-- A block ends inside its message, and the last block ends with it. -/
theorem chunk_end_le {i : Nat} (inside : i < nblocks data.length) :
    (chunk data i).offset + (chunk data i).payload.length ≤ data.length ∧
      (i + 1 = nblocks data.length →
        (chunk data i).offset + (chunk data i).payload.length = data.length) := by
  have hspec := nblocks_spec data.length
  rw [length_chunk]
  change i * kBlockSize + _ ≤ _ ∧ (_ → i * kBlockSize + _ = _)
  unfold kBlockSize
  omega

theorem length_chunk_le (data : List UInt8) (i : Nat) :
    (chunk data i).payload.length ≤ kBlockSize := by
  rw [length_chunk]
  exact Nat.min_le_left _ _

/-- The byte of a message at a position of the block. -/
theorem getElem?_chunk {i position : Nat} (after : (chunk data i).offset ≤ position)
    (before : position < (chunk data i).offset + (chunk data i).payload.length) :
    (chunk data i).payload[position - (chunk data i).offset]? = data[position]? := by
  have hlength := length_chunk data i
  change i * kBlockSize ≤ position at after
  change position < i * kBlockSize + _ at before
  change (List.take _ (data.drop (i * kBlockSize)))[position - i * kBlockSize]? = _
  rw [List.getElem?_take_of_lt (by omega), List.getElem?_drop, Nat.add_sub_cancel' after]

/-- A position falls inside exactly the block of its index. -/
theorem mem_chunk_iff {i position : Nat} (inside : position < data.length) :
    ((chunk data i).offset ≤ position ∧
      position < (chunk data i).offset + (chunk data i).payload.length) ↔
      position / kBlockSize = i := by
  rw [length_chunk]
  change (i * kBlockSize ≤ position ∧ position < i * kBlockSize + _) ↔ _
  unfold kBlockSize
  omega

theorem isLastBlock_chunk (data : List UInt8) (i : Nat) :
    isLastBlock (chunk data i).flags = decide (i + 1 = nblocks data.length) := by
  by_cases hlast : i + 1 = nblocks data.length
  · rw [decide_eq_true hlast]
    change isLastBlock (if i + 1 = nblocks data.length then kFlagLastBlock else 0) = true
    rw [if_pos hlast]
    decide
  · rw [decide_eq_false hlast]
    change isLastBlock (if i + 1 = nblocks data.length then kFlagLastBlock else 0) = false
    rw [if_neg hlast]
    decide

/-! ## The numbering of blocks -/

namespace BlockOrigin

def block (o : BlockOrigin) : SentBlock := chunk o.message o.index

def isLast (o : BlockOrigin) : Bool := decide (o.index + 1 = nblocks o.message.length)

def lastSeq (o : BlockOrigin) : Nat := o.first + nblocks o.message.length - 1

structure SameCall (o p : BlockOrigin) : Prop where
  call : o.call = p.call
  first : o.first = p.first
  message : o.message = p.message

end BlockOrigin

/-- Blocks stand at their numbers, those of one call side by side, and later
calls behind earlier ones. -/
structure History (blocks : List BlockOrigin) : Prop where
  placed : ∀ (seqNo : Nat) (o : BlockOrigin), blocks[seqNo]? = some o → seqNo = o.first + o.index
  inside : ∀ (seqNo : Nat) (o : BlockOrigin), blocks[seqNo]? = some o → o.index < nblocks o.message.length
  sized : ∀ (seqNo : Nat) (o : BlockOrigin), blocks[seqNo]? = some o → o.message.length ≤ kMaxMessage
  ordered : ∀ (seqNo later : Nat) (o p : BlockOrigin), seqNo ≤ later → blocks[seqNo]? = some o →
    blocks[later]? = some p → o.SameCall p ∨ (o.call < p.call ∧ seqNo < p.first)

variable {seqNo : Nat} {o : BlockOrigin}

theorem origin_cases {blocks : List BlockOrigin} {added : BlockOrigin}
    (ho : (blocks ++ [added])[seqNo]? = some o) :
    blocks[seqNo]? = some o ∨ (seqNo = blocks.length ∧ o = added) := by
  rw [List.getElem?_append] at ho
  split at ho
  · exact Or.inl ho
  · obtain ⟨hzero, hvalue⟩ := List.getElem?_eq_some_iff.mp ho
    rw [List.length_singleton] at hzero
    exact Or.inr ⟨by omega, by rw [← hvalue, List.getElem_singleton]⟩

namespace History

variable {blocks : List BlockOrigin}

theorem nil : History [] := by
  refine ⟨?_, ?_, ?_, ?_⟩
  · intro seqNo o impossible
    cases impossible
  · intro seqNo o impossible
    cases impossible
  · intro seqNo o impossible
    cases impossible
  · intro seqNo later o p hle impossible
    cases impossible

variable {p : BlockOrigin}

section

variable (history : History blocks)
include history

/-- Blocks with the same call number are blocks of one call. -/
theorem same_of_call {other : Nat} (ho : blocks[seqNo]? = some o) (hp : blocks[other]? = some p)
    (hcall : o.call = p.call) :
    o.SameCall p := by
  rcases Nat.le_total seqNo other with hle | hle
  · rcases history.ordered seqNo other o p hle ho hp with hsame | ⟨hless, _⟩
    · exact hsame
    · omega
  · rcases history.ordered other seqNo p o hle hp ho with hsame | ⟨hless, _⟩
    · exact ⟨hsame.call.symm, hsame.first.symm, hsame.message.symm⟩
    · omega

/-- A block of an earlier call stands before every block of a later one. -/
theorem before_first {other : Nat} (ho : blocks[seqNo]? = some o) (hp : blocks[other]? = some p)
    (hcall : o.call < p.call) :
    seqNo < p.first := by
  rcases Nat.le_total seqNo other with hle | hle
  · rcases history.ordered seqNo other o p hle ho hp with hsame | ⟨_, hfirst⟩
    · exact (Nat.ne_of_lt hcall hsame.call).elim
    · exact hfirst
  · rcases history.ordered other seqNo p o hle hp ho with hsame | ⟨hless, _⟩
    · exact (Nat.ne_of_gt hcall hsame.call).elim
    · omega

/-- What was sent between the first block of a call and another of its blocks
belongs to the call. -/
theorem between {middle : Nat} (ho : blocks[seqNo]? = some o) (hfirst : o.first ≤ middle)
    (hle : middle ≤ seqNo) :
    ∃ p, blocks[middle]? = some p ∧ p.SameCall o ∧ p.index = middle - o.first := by
  obtain ⟨hlt, _⟩ := List.getElem?_eq_some_iff.mp ho
  have hmiddle : middle < blocks.length := Nat.lt_of_le_of_lt hle hlt
  refine ⟨blocks[middle], List.getElem?_eq_getElem hmiddle, ?_⟩
  have hp := List.getElem?_eq_getElem hmiddle
  rcases history.ordered middle seqNo _ o hle hp ho with hsame | ⟨_, hbefore⟩
  · have hplaced := history.placed middle _ hp
    have hstart := hsame.first
    exact ⟨hsame, by omega⟩
  · omega

theorem last_placed (ho : blocks[seqNo]? = some o) (hlast : o.isLast = true) :
    seqNo = o.lastSeq := by
  have hplaced := history.placed seqNo o ho
  have hindex : o.index + 1 = nblocks o.message.length := of_decide_eq_true hlast
  unfold BlockOrigin.lastSeq
  omega

/-- The last blocks of different calls come in the order of the calls. -/
theorem last_increasing {later : Nat} (hlt : seqNo < later) (ho : blocks[seqNo]? = some o)
    (hp : blocks[later]? = some p) (hlast : o.isLast = true) (hlater : p.isLast = true) :
    o.call < p.call := by
  rcases history.ordered seqNo later o p (Nat.le_of_lt hlt) ho hp with hsame | ⟨hless, _⟩
  · have hfirst := history.last_placed ho hlast
    have hsecond := history.last_placed hp hlater
    have hequal : o.lastSeq = p.lastSeq := by
      unfold BlockOrigin.lastSeq
      rw [hsame.first, hsame.message]
    omega
  · exact hless

/-- The next block of the call that is sending. -/
theorem append (placed : blocks.length = o.first + o.index)
    (inside : o.index < nblocks o.message.length) (sized : o.message.length ≤ kMaxMessage)
    (follows : ∀ (seqNo : Nat) (p : BlockOrigin), blocks[seqNo]? = some p →
      p.SameCall o ∨ (p.call < o.call ∧ seqNo < o.first)) :
    History (blocks ++ [o]) := by
  refine ⟨?_, ?_, ?_, ?_⟩
  · intro seqNo p hp
    rcases origin_cases hp with hold | ⟨rfl, rfl⟩
    · exact history.placed seqNo p hold
    · exact placed
  · intro seqNo p hp
    rcases origin_cases hp with hold | ⟨rfl, rfl⟩
    · exact history.inside seqNo p hold
    · exact inside
  · intro seqNo p hp
    rcases origin_cases hp with hold | ⟨rfl, rfl⟩
    · exact history.sized seqNo p hold
    · exact sized
  · intro seqNo later p q hle hp hq
    rcases origin_cases hq with hlater | ⟨rfl, rfl⟩
    · rcases origin_cases hp with hearlier | ⟨rfl, rfl⟩
      · exact history.ordered seqNo later p q hle hearlier hlater
      · have hlt := (List.getElem?_eq_some_iff.mp hlater).1
        omega
    · rcases origin_cases hp with hearlier | ⟨rfl, rfl⟩
      · exact follows seqNo p hearlier
      · exact Or.inl ⟨rfl, rfl, rfl⟩

end

end History

end FuseTransport.Sdk
