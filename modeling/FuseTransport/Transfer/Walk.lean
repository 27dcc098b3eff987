import FuseTransport.Transfer.Sender

/-!
# The sender's walk over its parts

A lane sends the parts it was asked for from front to back.  Its blocks are slices
of the lane's bytes, nothing in front of the cursor is left out, and the block that
carries the end of stream is the last one.
-/

namespace FuseTransport.Transfer

open Foundation Proto

theorem rangesHold_ascending {shardBytes prevEnd : Nat} {ranges : List ResumeRange}
    (bounded : prevEnd ≤ shardBytes) (holds : rangesHold shardBytes prevEnd ranges = true) :
    Ascending prevEnd shardBytes ranges := by
  induction ranges generalizing prevEnd with
  | nil => exact .nil bounded
  | cons r rest ih =>
    rw [rangesHold] at holds
    split at holds
    · cases holds
    · rename_i hinside
      rw [not_or, Nat.not_lt] at hinside
      exact .cons hinside.1 (ih (by omega) holds)

variable (shardBytes : Nat)

theorem wholeLane_ascending : Ascending 0 shardBytes (wholeLane shardBytes) := by
  unfold wholeLane
  split
  · exact .cons (Nat.zero_le _) (.nil (Nat.le_of_eq (Nat.zero_add _)))
  · exact .nil (Nat.zero_le _)

/-- Whatever the answer says, the parts sent are in order and inside the lane. -/
theorem rangesToSend_ascending (answer : List (List ResumeRange)) :
    Ascending 0 shardBytes (rangesToSend shardBytes answer) := by
  unfold rangesToSend
  dsimp only
  split
  · rename_i hholds
    exact rangesHold_ascending (Nat.zero_le _) hholds
  · exact wholeLane_ascending shardBytes

theorem positive_wholeLane : Positive (wholeLane shardBytes) := by
  unfold wholeLane
  split
  · rename_i hsome
    exact positive_singleton hsome
  · exact nofun

/-- An answer that asks for the whole lane is followed. -/
theorem rangesToSend_wholeLane :
    rangesToSend shardBytes [wholeLane shardBytes] = wholeLane shardBytes :=
  (wholeLane_ascending shardBytes).rangesToSend (positive_wholeLane shardBytes)
    List.flatten_singleton

theorem Ascending.inside {low high : Nat} {ranges : List ResumeRange}
    (ascending : Ascending low high ranges) {r : ResumeRange} (member : r ∈ ranges) :
    r.offset + r.length ≤ high := by
  induction ascending with
  | nil => cases member
  | cons start behind ih =>
    rcases List.mem_cons.mp member with rfl | hrest
    · exact behind.le
    · exact ih hrest

theorem SendConfig.length_shard (cfg : SendConfig) (lane : Nat) :
    (cfg.shard lane).length = cfg.shardBytes lane := by
  have hinside := shard_inside cfg.data.length cfg.lanes lane
  unfold SendConfig.shard SendConfig.laneBase SendConfig.shardBytes
  rw [List.length_take, List.length_drop]
  omega

/-! ## The walk -/

def SentAt (history : List SentBlock) (p : Nat) : Prop :=
  ∃ block ∈ history, block.offset ≤ p ∧ p < block.offset + block.payload.length

variable {p : Nat}

theorem SentAt.append {history : List SentBlock} (sent : SentAt history p) (block : SentBlock) :
    SentAt (history ++ [block]) p := by
  obtain ⟨other, member, inside⟩ := sent
  exact ⟨other, List.mem_append_left _ member, inside⟩

/-- A block that carries the lane's bytes at its offset. -/
def Slice (cfg : SendConfig) (lane : Nat) (block : SentBlock) : Prop :=
  block.offset + block.payload.length ≤ cfg.shardBytes lane ∧
    block.payload = ((cfg.shard lane).drop block.offset).take block.payload.length

namespace SendLane

structure Walk (cfg : SendConfig) (lane : Nat) (L : SendLane) : Prop where
  ranges : Ascending 0 (cfg.shardBytes lane) L.ranges
  start : L.ranges = [] → L.nextOffset = 0
  cursor : ∀ r, L.ranges[L.ri]? = some r →
    r.offset ≤ L.nextOffset ∧ L.nextOffset ≤ r.offset + r.length
  slices : ∀ block ∈ L.history, Slice cfg lane block
  behind : ∀ i r, i < L.ri → L.ranges[i]? = some r → ∀ p, r.offset ≤ p →
    p < r.offset + r.length → SentAt L.history p
  current : ∀ r, L.ranges[L.ri]? = some r → ∀ p, r.offset ≤ p → p < L.nextOffset →
    SentAt L.history p
  last : ∀ i block, L.history[i]? = some block → isLastBlock block.flags = true →
    i + 1 = L.history.length ∧ L.ranges.length ≤ L.ri
  sentLast : L.sentLast = true → L.ranges.length ≤ L.ri ∧ L.history ≠ []

section Walk

variable {cfg : SendConfig} {lane : Nat} {L : SendLane}

/-- When the end of stream has been sent, so has every part. -/
theorem Walk.complete (walk : L.Walk cfg lane) (ended : L.ranges.length ≤ L.ri)
    (named : Names L.ranges p) : SentAt L.history p := by
  obtain ⟨r, member, habove, hbelow⟩ := named
  obtain ⟨i, hi, hr⟩ := List.getElem_of_mem member
  exact walk.behind i r (Nat.lt_of_lt_of_le hi ended) (by rw [List.getElem?_eq_getElem hi, hr]) p
    habove hbelow

theorem rangeEnd_of_some {r : ResumeRange} (found : L.ranges[L.ri]? = some r) :
    L.rangeEnd = r.offset + r.length := by
  rw [rangeEnd, found]
  rfl

theorem rangeEnd_of_none (ended : L.ranges[L.ri]? = none) : L.rangeEnd = 0 := by
  rw [rangeEnd, ended]
  rfl

theorem rangeEnd_of_nil (none : L.ranges = []) : L.rangeEnd = 0 :=
  rangeEnd_of_none (by rw [none, List.getElem?_nil])

/-- The next block has the length asked for and stays in the lane. -/
theorem Walk.nextBlock (walk : L.Walk cfg lane) (pending : L.pending) (block : Nat) :
    L.nextOffset + L.blockLength block ≤ cfg.shardBytes lane ∧
      (L.nextBlock cfg lane (L.blockLength block)).payload.length = L.blockLength block := by
  have hinside : L.nextOffset + L.blockLength block ≤ cfg.shardBytes lane := by
    unfold blockLength
    rcases pending with hmore | ⟨hnone, _⟩
    · have hfound := List.getElem?_eq_getElem hmore
      have hcursor := walk.cursor _ hfound
      have hend := walk.ranges.inside (List.getElem_mem hmore)
      rw [rangeEnd_of_some hfound]
      omega
    · rw [rangeEnd_of_nil hnone, walk.start hnone]
      omega
  refine ⟨hinside, ?_⟩
  change (((cfg.shard lane).drop L.nextOffset).take (L.blockLength block)).length = _
  rw [List.length_take, List.length_drop, cfg.length_shard]
  omega

theorem Walk.nextSlice (walk : L.Walk cfg lane) (pending : L.pending) (block : Nat) :
    Slice cfg lane (L.nextBlock cfg lane (L.blockLength block)) := by
  obtain ⟨hinside, hlength⟩ := walk.nextBlock pending block
  refine ⟨?_, ?_⟩
  · rw [hlength]
    exact hinside
  · rw [hlength]
    rfl

theorem isLastBlock_nextBlock (cfg : SendConfig) (lane : Nat) (L : SendLane) (len : Nat) :
    isLastBlock (L.nextBlock cfg lane len).flags = L.isLast len := by
  change isLastBlock (if L.isLast len = true then kFlagLastBlock else 0) = L.isLast len
  cases L.isLast len with
  | true | false => decide

/-- Nothing was marked as the end while something is pending. -/
theorem Walk.not_last (walk : L.Walk cfg lane) (counted : L.history.length = L.nextSeq)
    (pending : L.pending) {i : Nat} {block : SentBlock} (found : L.history[i]? = some block) :
    isLastBlock block.flags = false := by
  cases hlast : isLastBlock block.flags with
  | false => rfl
  | true =>
    have hover := (walk.last i block found hlast).2
    have hinside := (List.getElem?_eq_some_iff.mp found).1
    rcases pending with hmore | ⟨_, hzero⟩ <;> omega

structure Adds (cfg : SendConfig) (lane : Nat) (L : SendLane) (len : Nat) (next : SentBlock) : Prop where
  offset : next.offset = L.nextOffset
  length : next.payload.length = len
  slice : Slice cfg lane next
  flag : isLastBlock next.flags = L.isLast len
  unmarked : ∀ (i : Nat) (other : SentBlock), L.history[i]? = some other →
    isLastBlock other.flags = false
  nothing : L.ranges = [] → len = 0

theorem Walk.adds (walk : L.Walk cfg lane) (counted : L.history.length = L.nextSeq)
    (pending : L.pending) (block : Nat) :
    Adds cfg lane L (L.blockLength block) (L.nextBlock cfg lane (L.blockLength block)) where
  offset := rfl
  length := (walk.nextBlock pending block).2
  slice := walk.nextSlice pending block
  flag := isLastBlock_nextBlock cfg lane L (L.blockLength block)
  unmarked := fun _ _ found => walk.not_last counted pending found
  nothing := by
    intro none
    rw [blockLength, rangeEnd_of_nil none, Nat.zero_sub, Nat.min_zero]

namespace Adds

variable {len : Nat} {next : SentBlock}

theorem slices (adds : Adds cfg lane L len next) (walk : L.Walk cfg lane) :
    ∀ other ∈ L.history ++ [next], Slice cfg lane other := by
  intro other member
  rcases List.mem_append.mp member with hbefore | hnew
  · exact walk.slices other hbefore
  · rw [List.mem_singleton.mp hnew]
    exact adds.slice

theorem sentAt (adds : Adds cfg lane L len next) (above : L.nextOffset ≤ p)
    (below : p < L.nextOffset + len) : SentAt (L.history ++ [next]) p := by
  have hoffset := adds.offset
  have hlength := adds.length
  exact ⟨next, List.mem_append_right _ (List.mem_singleton_self _), by omega, by omega⟩

/-- Only the new block can be the marked one. -/
theorem marked (adds : Adds cfg lane L len next) {i : Nat} {other : SentBlock}
    (found : (L.history ++ [next])[i]? = some other) (marked : isLastBlock other.flags = true) :
    i + 1 = (L.history ++ [next]).length ∧ L.isLast len = true := by
  have hinside := (List.getElem?_eq_some_iff.mp found).1
  rw [List.length_append, List.length_singleton] at hinside ⊢
  rcases Nat.lt_or_ge i L.history.length with hbefore | hafter
  · rw [List.getElem?_append_left hbefore] at found
    rw [adds.unmarked i other found] at marked
    cases marked
  · have hi : i = L.history.length := by omega
    rw [hi, List.getElem?_concat_length] at found
    rw [← Option.some.inj found, adds.flag] at marked
    exact ⟨by rw [hi], marked⟩

end Adds

/-- A block that reaches the end of its part takes the cursor to the next one. -/
theorem Walk.leave {len : Nat} {next : SentBlock} (walk : L.Walk cfg lane)
    (adds : Adds cfg lane L len next) (more : L.ri < L.ranges.length)
    (reached : L.rangeEnd ≤ L.nextOffset + len) (nextSeq : Nat) :
    Walk cfg lane { L with
      ri := L.ri + 1
      nextOffset := (L.ranges[L.ri + 1]?.map fun r => r.offset).getD (L.nextOffset + len)
      nextSeq := nextSeq
      sentLast := L.sentLast || L.isLast len
      history := L.history ++ [next] } := by
  constructor
  case ranges => exact walk.ranges
  case start =>
    intro none
    rw [none] at more
    exact absurd more (Nat.not_lt_zero _)
  case cursor =>
    intro r found
    rw [found]
    exact ⟨Nat.le_refl _, Nat.le_add_right _ _⟩
  case slices => exact adds.slices walk
  case behind =>
    intro i r earlier found p habove hbelow
    rcases Nat.lt_succ_iff_lt_or_eq.mp earlier with hbefore | rfl
    · exact (walk.behind i r hbefore found p habove hbelow).append next
    · rcases Nat.lt_or_ge p L.nextOffset with hdone | hnew
      · exact (walk.current r found p habove hdone).append next
      · rw [rangeEnd_of_some found] at reached
        exact adds.sentAt hnew (Nat.lt_of_lt_of_le hbelow reached)
  case current =>
    intro r found p habove hbelow
    rw [found] at hbelow
    exact absurd hbelow (Nat.not_lt.mpr habove)
  case last =>
    intro i other found marked
    obtain ⟨hi, hmarked⟩ := adds.marked found marked
    exact ⟨hi, (of_decide_eq_true hmarked).1⟩
  case sentLast =>
    intro marked
    refine ⟨?_, List.append_ne_nil_of_right_ne_nil _ (List.cons_ne_nil _ _)⟩
    rcases Bool.or_eq_true_iff.mp marked with hbefore | hnow
    · exact Nat.le_succ_of_le (walk.sentLast hbefore).1
    · exact (of_decide_eq_true hnow).1

/-- A block that ends inside its part moves the cursor on in it. -/
theorem Walk.stay {len : Nat} {next : SentBlock} (walk : L.Walk cfg lane)
    (adds : Adds cfg lane L len next)
    (inside : ¬ (L.ri < L.ranges.length ∧ L.rangeEnd ≤ L.nextOffset + len)) (nextSeq : Nat) :
    Walk cfg lane { L with
      nextOffset := L.nextOffset + len
      nextSeq := nextSeq
      sentLast := L.sentLast || L.isLast len
      history := L.history ++ [next] } := by
  have hmark : L.isLast len = true → L.ranges.length ≤ L.ri := by
    intro marked
    refine Nat.le_of_not_lt fun hmore => inside ⟨hmore, (of_decide_eq_true marked).2⟩
  constructor
  case ranges => exact walk.ranges
  case start =>
    intro none
    rw [walk.start none, adds.nothing none]
  case cursor =>
    intro r found
    change L.ranges[L.ri]? = some r at found
    have hmore := (List.getElem?_eq_some_iff.mp found).1
    have hbelow := Nat.lt_of_not_le fun hend => inside ⟨hmore, hend⟩
    rw [rangeEnd_of_some found] at hbelow
    have hcursor := walk.cursor r found
    exact ⟨Nat.le_trans hcursor.1 (Nat.le_add_right _ _), Nat.le_of_lt hbelow⟩
  case slices => exact adds.slices walk
  case behind =>
    intro i r earlier found p habove hbelow
    exact (walk.behind i r earlier found p habove hbelow).append next
  case current =>
    intro r found p habove hbelow
    rcases Nat.lt_or_ge p L.nextOffset with hdone | hnew
    · exact (walk.current r found p habove hdone).append next
    · exact adds.sentAt hnew hbelow
  case last =>
    intro i other found marked
    obtain ⟨hi, hmarked⟩ := adds.marked found marked
    exact ⟨hi, hmark hmarked⟩
  case sentLast =>
    intro marked
    refine ⟨?_, List.append_ne_nil_of_right_ne_nil _ (List.cons_ne_nil _ _)⟩
    rcases Bool.or_eq_true_iff.mp marked with hbefore | hnow
    · exact (walk.sentLast hbefore).1
    · exact hmark hnow

theorem Walk.count (walk : L.Walk cfg lane) (counted : L.history.length = L.nextSeq)
    (pending : L.pending) (block : Nat) :
    (L.count (L.nextBlock cfg lane (L.blockLength block)) (L.blockLength block)).Walk cfg lane := by
  have hadds := walk.adds counted pending block
  generalize L.blockLength block = len at hadds ⊢
  generalize L.nextBlock cfg lane len = next at hadds ⊢
  by_cases hover : L.ri < L.ranges.length ∧ L.rangeEnd ≤ L.nextOffset + len
  · have hstate : L.count next len = { L with
        ri := L.ri + 1
        nextOffset := (L.ranges[L.ri + 1]?.map fun r => r.offset).getD (L.nextOffset + len)
        nextSeq := u64 (L.nextSeq + 1)
        sentLast := L.sentLast || L.isLast len
        history := L.history ++ [next] } := by
      rw [SendLane.count, advance, if_pos hover]
    rw [hstate]
    exact walk.leave hadds hover.1 hover.2 _
  · have hstate : L.count next len = { L with
        nextOffset := L.nextOffset + len
        nextSeq := u64 (L.nextSeq + 1)
        sentLast := L.sentLast || L.isLast len
        history := L.history ++ [next] } := by
      rw [SendLane.count, advance, if_neg hover]
    rw [hstate]
    exact walk.stay hadds hover _

/-- The walk concerns only the parts, the cursor and the blocks. -/
theorem Walk.congr (walk : L.Walk cfg lane) {L' : SendLane} (ranges : L'.ranges = L.ranges)
    (ri : L'.ri = L.ri) (nextOffset : L'.nextOffset = L.nextOffset)
    (history : L'.history = L.history) (sentLast : L'.sentLast = L.sentLast) :
    L'.Walk cfg lane := by
  obtain ⟨hranges, hstart, hcursor, hslices, hbehind, hcurrent, hlast, hsentLast⟩ := walk
  rw [← ranges, ← nextOffset] at hstart
  rw [← ranges] at hranges
  rw [← ranges, ← ri, ← nextOffset] at hcursor
  rw [← history] at hslices
  rw [← ranges, ← ri, ← history] at hbehind hlast
  rw [← ranges, ← ri, ← nextOffset, ← history] at hcurrent
  rw [← ranges, ← ri, ← history, ← sentLast] at hsentLast
  exact ⟨hranges, hstart, hcursor, hslices, hbehind, hcurrent, hlast, hsentLast⟩

theorem create_walk (cfg : SendConfig) (lane : Nat) : (create cfg lane).Walk cfg lane :=
  ⟨.nil (Nat.zero_le _), fun _ => rfl, nofun, nofun, nofun, nofun, nofun, nofun⟩

theorem Walk.begin (walk : L.Walk cfg lane) (none : L.history = []) (first : L.ri = 0)
    (unmarked : L.sentLast = false) : (L.begin cfg lane).Walk cfg lane := by
  unfold SendLane.begin
  split
  · constructor
    case ranges => exact rangesToSend_ascending _ _
    case start =>
      intro empty
      dsimp only at empty ⊢
      rw [empty]
      rfl
    case cursor =>
      intro r found
      dsimp only at found ⊢
      rw [first, ← List.head?_eq_getElem?] at found
      rw [found]
      exact ⟨Nat.le_refl _, Nat.le_add_right _ _⟩
    case slices => exact walk.slices
    case behind =>
      intro i r earlier
      rw [first] at earlier
      exact absurd earlier (Nat.not_lt_zero _)
    case current =>
      intro r found p habove hbelow
      dsimp only at found hbelow
      rw [first, ← List.head?_eq_getElem?] at found
      rw [found] at hbelow
      exact absurd hbelow (Nat.not_lt.mpr habove)
    case last =>
      intro i block found
      rw [none] at found
      cases found
    case sentLast =>
      intro marked
      rw [unmarked] at marked
      cases marked
  · exact walk

end Walk

end SendLane

end FuseTransport.Transfer
