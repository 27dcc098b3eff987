import Mathlib.Data.List.Perm.Subperm
import FuseTransport.Foundation.Runs
import FuseTransport.Proto.Reassembly

/-!
# Ordered and unordered delivery

Fed the same blocks, a stream that surfaces by number and one that surfaces on arrival fill
equal sinks, and the first surfaces the longest gapless beginning of what the second did.
Completeness is a count of surfaced blocks, so it says that all blocks came only when no
block from beyond the end is counted.
-/

namespace FuseTransport.Proto

open Foundation.Runs

variable {blocks : List Arrival}

namespace ReassemblyStream

variable {st inOrder asArrived : ReassemblyStream} {taken : List Nat} {block : Arrival}

/-- One block keeps a stream settled, with the number taken exactly when it was fresh. -/
theorem Settled.onBlock (settled : st.Settled taken) (small : block.seqNo + 1 < 2 ^ 64) :
    (st.Fresh taken block.seqNo ∧ Accepted st taken block (st.onBlock block).1) ∨
      (¬ st.Fresh taken block.seqNo ∧ (st.onBlock block).1 = st) := by
  by_cases hfresh : st.Fresh taken block.seqNo
  · exact Or.inl ⟨hfresh, settled.onBlock_fresh hfresh small⟩
  · exact Or.inr ⟨hfresh, by rw [settled.onBlock_refused hfresh]⟩

/-- Two streams that took the same numbers lack the same lowest one. -/
theorem Settled.low_unique (first : inOrder.Settled taken) (second : asArrived.Settled taken) :
    inOrder.low = asArrived.low := by
  apply Nat.le_antisymm
  · apply Nat.le_of_not_lt
    intro hless
    exact second.missing (first.mirrors.below _ hless)
  · apply Nat.le_of_not_lt
    intro hless
    exact first.missing (second.mirrors.below _ hless)

/-- An ordered and an unordered stream that took the same numbers into equal sinks. -/
structure Paired (inOrder asArrived : ReassemblyStream) (taken : List Nat) : Prop where
  ordered : inOrder.ordered = true
  unordered : asArrived.ordered = false
  first : inOrder.Settled taken
  second : asArrived.Settled taken
  sink : inOrder.sink = asArrived.sink
  sinkCap : inOrder.sinkCap = asArrived.sinkCap

theorem Paired.onBlock (paired : Paired inOrder asArrived taken)
    (small : block.seqNo + 1 < 2 ^ 64) :
    ∃ after, Paired (inOrder.onBlock block).1 (asArrived.onBlock block).1 after := by
  have hlow := paired.first.low_unique paired.second
  have hsame : inOrder.Fresh taken block.seqNo ↔ asArrived.Fresh taken block.seqNo := by
    rw [Fresh, Fresh, hlow]
  rcases paired.first.onBlock small with ⟨hfresh, hfirst⟩ | ⟨hstale, hfirst⟩
  · have hsecond := paired.second.onBlock_fresh (hsame.mp hfresh) small
    refine ⟨taken ++ [block.seqNo], hfirst.written.ordered.trans paired.ordered,
      hsecond.written.ordered.trans paired.unordered, hfirst.settled, hsecond.settled, ?_, ?_⟩
    · rw [hfirst.written.sink, hsecond.written.sink]
      change written inOrder.sink inOrder.sinkCap block = written asArrived.sink _ block
      rw [paired.sink, paired.sinkCap]
    · rw [hfirst.written.sinkCap, hsecond.written.sinkCap]
      exact paired.sinkCap
  · rw [hfirst, paired.second.onBlock_refused (fun hfresh => hstale (hsame.mpr hfresh))]
    exact ⟨taken, paired⟩

theorem Paired.feed (paired : Paired inOrder asArrived taken)
    (small : ∀ block ∈ blocks, block.seqNo + 1 < 2 ^ 64) :
    ∃ after, Paired (inOrder.feed blocks) (asArrived.feed blocks) after := by
  induction blocks using List.reverseRecOn with
  | nil => exact ⟨taken, paired⟩
  | append_singleton blocks block ih =>
    obtain ⟨before, hbefore⟩ := ih fun other member => small other (List.mem_append_left _ member)
    rw [feed_concat, feed_concat]
    exact hbefore.onBlock (small block (List.mem_append_right _ List.mem_cons_self))

/-! ## First arrivals inside the window -/

/-- The number is not below the low mark and not a window above it. -/
def InWindow (st : ReassemblyStream) (n : Nat) : Prop :=
  st.unorderedLow ≤ n ∧ n < st.unorderedLow + kMaxWindow

variable (start : ReassemblyStream)

/-- The number has arrived inside the window during the run. -/
def Arrived (blocks : List Arrival) (n : Nat) : Prop :=
  ∃ earlier block later, blocks = earlier ++ block :: later ∧ block.seqNo = n ∧
    (start.feed earlier).InWindow n

theorem not_arrived_nil (n : Nat) : ¬ Arrived start [] n := by
  rintro ⟨earlier, block, later, hblocks, _⟩
  simp at hblocks

/-- A run and one block more: the number had arrived, or this block brings it. -/
theorem arrived_concat (blocks : List Arrival) (block : Arrival) (n : Nat) :
    Arrived start (blocks ++ [block]) n ↔
      Arrived start blocks n ∨ block.seqNo = n ∧ (start.feed blocks).InWindow n := by
  constructor
  · rintro ⟨earlier, other, later, hblocks, hseq, hwindow⟩
    rcases List.eq_nil_or_concat later with rfl | ⟨front, last, rfl⟩
    · obtain ⟨hfront, hlast⟩ := List.append_inj' hblocks rfl
      rw [List.singleton_inj] at hlast
      subst hfront hlast
      exact Or.inr ⟨hseq, hwindow⟩
    · rw [List.concat_eq_append, ← List.cons_append, ← List.append_assoc] at hblocks
      obtain ⟨hfront, _⟩ := List.append_inj' hblocks rfl
      exact Or.inl ⟨earlier, other, front, hfront, hseq, hwindow⟩
  · rintro (⟨earlier, other, later, rfl, hseq, hwindow⟩ | ⟨hseq, hwindow⟩)
    · exact ⟨earlier, other, later ++ [block], by simp, hseq, hwindow⟩
    · exact ⟨blocks, block, [], rfl, hseq, hwindow⟩

/-- What an unordered stream has taken is what has arrived inside its window. -/
structure Surfaces (start : ReassemblyStream) (blocks : List Arrival) (taken : List Nat) :
    Prop where
  settled : (start.feed blocks).Settled taken
  unordered : (start.feed blocks).ordered = false
  arrived : ∀ n, n ∈ taken ↔ Arrived start blocks n

namespace Surfaces

variable {start : ReassemblyStream} {blocks : List Arrival}

section

variable (surfaces : Surfaces start blocks taken)
include surfaces

theorem surfaced : (start.feed blocks).surfaced = taken :=
  surfaces.settled.surfaced.trans (if_neg (ne_true_of_eq_false surfaces.unordered))

theorem fresh_iff (n : Nat) :
    (start.feed blocks).Fresh taken n ↔
      (start.feed blocks).InWindow n ∧ ¬ Arrived start blocks n := by
  rw [Fresh, surfaces.arrived, low_of_unordered surfaces.unordered]
  constructor
  · rintro ⟨hinside, hnew⟩
    refine ⟨⟨?_, hinside⟩, hnew⟩
    apply Nat.le_of_not_lt
    intro hbelow
    rw [← low_of_unordered surfaces.unordered] at hbelow
    exact hnew ((surfaces.arrived n).mp (surfaces.settled.mirrors.below n hbelow))
  · rintro ⟨⟨_, hinside⟩, hnew⟩
    exact ⟨hinside, hnew⟩

/-- The next block is surfaced when it is the first of its number inside the window, and
otherwise nothing is. -/
theorem onBlock (small : block.seqNo + 1 < 2 ^ 64) :
    ((start.feed blocks).InWindow block.seqNo ∧ ¬ Arrived start blocks block.seqNo ∧
        Surfaces start (blocks ++ [block]) (taken ++ [block.seqNo])) ∨
      (¬ ((start.feed blocks).InWindow block.seqNo ∧ ¬ Arrived start blocks block.seqNo) ∧
        Surfaces start (blocks ++ [block]) taken) := by
  rcases surfaces.settled.onBlock small with ⟨hfresh, hafter⟩ | ⟨hstale, hafter⟩
  · obtain ⟨hwindow, hfirst⟩ := (surfaces.fresh_iff _).mp hfresh
    refine Or.inl ⟨hwindow, hfirst, ?_, ?_, ?_⟩
    · rw [feed_concat]
      exact hafter.settled
    · rw [feed_concat]
      exact hafter.written.ordered.trans surfaces.unordered
    · intro n
      rw [List.mem_append, List.mem_singleton, arrived_concat, surfaces.arrived]
      refine or_congr_right ⟨?_, fun hnew => hnew.1.symm⟩
      rintro rfl
      exact ⟨rfl, hwindow⟩
  · rw [surfaces.fresh_iff] at hstale
    refine Or.inr ⟨hstale, ?_, ?_, ?_⟩
    · rw [feed_concat, hafter]
      exact surfaces.settled
    · rw [feed_concat, hafter]
      exact surfaces.unordered
    · intro n
      rw [arrived_concat, surfaces.arrived]
      refine (or_iff_left_of_imp ?_).symm
      rintro ⟨rfl, hwindow⟩
      by_contra hfirst
      exact hstale ⟨hwindow, hfirst⟩

end

end Surfaces

theorem surfaces_feed (start : ReassemblyStream) (settled : start.Settled [])
    (unordered : start.ordered = false) (small : ∀ block ∈ blocks, block.seqNo + 1 < 2 ^ 64) :
    ∃ taken, Surfaces start blocks taken := by
  induction blocks using List.reverseRecOn with
  | nil =>
    refine ⟨[], settled, unordered, ?_⟩
    intro n
    exact ⟨fun impossible => absurd impossible List.not_mem_nil, fun arrived =>
      absurd arrived (not_arrived_nil start n)⟩
  | append_singleton blocks block ih =>
    obtain ⟨before, hbefore⟩ := ih fun other member => small other (List.mem_append_left _ member)
    have hsmall := small block (List.mem_append_right _ List.mem_cons_self)
    rcases hbefore.onBlock hsmall with ⟨_, _, hafter⟩ | ⟨_, hafter⟩ <;> exact ⟨_, hafter⟩

/-- Ordered and unordered reassembly agree: equal sinks, and what the ordered stream has
surfaced is the longest gapless beginning of what the unordered one surfaced, each number at
its first arrival inside the window. -/
theorem ordered_agrees_unordered (byNumber onArrival : StreamConfig)
    (ordered : byNumber.streamFlags &&& kStreamFlagOrdered ≠ 0)
    (unordered : onArrival.streamFlags &&& kStreamFlagOrdered = 0) (sink : Option (List UInt8))
    (sinkCap totalBlocks otherTotal : Nat) (blocks : List Arrival)
    (small : ∀ block ∈ blocks, block.seqNo < 2 ^ 64 - kMaxWindow) :
    let inOrder := (create byNumber sink sinkCap totalBlocks).feed blocks
    let start := create onArrival sink sinkCap otherTotal
    let asArrived := start.feed blocks
    inOrder.sink = asArrived.sink ∧
      asArrived.surfaced.Nodup ∧
      (∀ before block after, blocks = before ++ block :: after →
        ((start.feed before).InWindow block.seqNo ∧ ¬ Arrived start before block.seqNo →
          ((start.feed before).onBlock block).1.surfaced =
            (start.feed before).surfaced ++ [block.seqNo]) ∧
        (¬ ((start.feed before).InWindow block.seqNo ∧ ¬ Arrived start before block.seqNo) →
          ((start.feed before).onBlock block).1.surfaced = (start.feed before).surfaced)) ∧
      inOrder.surfaced = List.range inOrder.nextExpected ∧
      (∀ n, n < inOrder.nextExpected → n ∈ asArrived.surfaced) ∧
      inOrder.nextExpected ∉ asArrived.surfaced ∧
      inOrder.nextExpected = asArrived.unorderedLow := by
  intro inOrder start asArrived
  have hsmall : ∀ block ∈ blocks, block.seqNo + 1 < 2 ^ 64 := by
    intro block member
    have hbound := small block member
    have hwindow : 1 ≤ kMaxWindow := by decide
    omega
  have hunordered : start.ordered = false := decide_eq_false (not_not_intro unordered)
  have hsettled : start.Settled [] := settled_create onArrival sink sinkCap otherTotal
  have hpaired : Paired (create byNumber sink sinkCap totalBlocks) start [] :=
    ⟨decide_eq_true ordered, hunordered, settled_create byNumber sink sinkCap totalBlocks,
      hsettled, rfl, rfl⟩
  obtain ⟨taken, hend⟩ := hpaired.feed hsmall
  have hlow : inOrder.nextExpected = asArrived.unorderedLow := by
    rw [← low_of_ordered hend.ordered, ← low_of_unordered hend.unordered]
    exact hend.first.low_unique hend.second
  have htaken : asArrived.surfaced = taken :=
    hend.second.surfaced.trans (if_neg (ne_true_of_eq_false hend.unordered))
  refine ⟨hend.sink, ?_, ?_, ?_, ?_, ?_, hlow⟩
  · rw [htaken]
    exact hend.second.nodup
  · rintro before block after rfl
    obtain ⟨held, hbefore⟩ := surfaces_feed start hsettled hunordered
      fun other member => hsmall other (List.mem_append_left _ member)
    have hblock := hsmall block (List.mem_append_right _ List.mem_cons_self)
    rw [hbefore.surfaced, ← feed_concat]
    rcases hbefore.onBlock hblock with ⟨hwindow, hfirst, hafter⟩ | ⟨hstale, hafter⟩
    · exact ⟨fun _ => hafter.surfaced, fun hnot => absurd ⟨hwindow, hfirst⟩ hnot⟩
    · exact ⟨fun hboth => absurd hboth hstale, fun _ => hafter.surfaced⟩
  · have hsurfaced := hend.first.surfaced
    rw [if_pos hend.ordered, low_of_ordered hend.ordered] at hsurfaced
    exact hsurfaced
  · intro n hless
    rw [htaken]
    rw [← low_of_ordered hend.ordered] at hless
    exact hend.first.mirrors.below n hless
  · rw [htaken, ← low_of_ordered hend.ordered]
    exact hend.first.missing

/-- A block as it comes off the wire. -/
def arrival (seqNo offset : Nat) (bytes : List UInt8) : Arrival where
  seqNo := seqNo
  offset := offset
  payload := some bytes
  len := bytes.length
  fits := by
    intro other same
    rw [Option.some.inj same]

def byNumber : StreamConfig := { streamFlags := kStreamFlagOrdered }

/-- Two blocks that changed places reach equal sinks, in the order of each mode. -/
theorem ordered_agrees_swapped :
    let blocks := [arrival 1 2 [7, 8], arrival 0 0 [5, 6]]
    let inOrder := (create byNumber (some [0, 0, 0, 0]) 4 2).feed blocks
    let asArrived := (create {} (some [0, 0, 0, 0]) 4 2).feed blocks
    inOrder.sink = asArrived.sink ∧ asArrived.sink = some [5, 6, 7, 8] ∧
      inOrder.surfaced = [0, 1] ∧ asArrived.surfaced = [1, 0] := by
  refine ⟨(ordered_agrees_unordered byNumber {} (by decide) (by decide) (some [0, 0, 0, 0]) 4 2 2
    [arrival 1 2 [7, 8], arrival 0 0 [5, 6]] (by decide)).1, ?_⟩
  decide +kernel

/-- The block belongs to the stream, or lies beyond the window and is refused. -/
def Expected (st : ReassemblyStream) (block : Arrival) : Prop :=
  block.seqNo < st.totalBlocks ∨ st.low + kMaxWindow ≤ block.seqNo

instance (st : ReassemblyStream) (block : Arrival) : Decidable (st.Expected block) :=
  inferInstanceAs (Decidable (_ ∨ _))

def step (st : ReassemblyStream) (block : Arrival) : Option ReassemblyStream :=
  some (st.onBlock block).1

structure Counted (st : ReassemblyStream) (taken : List Nat) : Prop extends Settled st taken where
  word : st.totalBlocks < 2 ^ 64
  inside : ∀ n ∈ taken, n < st.totalBlocks

namespace Counted

section

variable (counted : st.Counted taken)
include counted

theorem low_le_total : st.low ≤ st.totalBlocks := by
  apply Nat.le_of_not_lt
  intro hless
  exact Nat.lt_irrefl _ (counted.inside _ (counted.mirrors.below _ hless))

theorem taken_subperm : taken.Subperm (List.range st.totalBlocks) :=
  List.subperm_of_subset counted.nodup fun n member => List.mem_range.mpr (counted.inside n member)

theorem length_le : taken.length ≤ st.totalBlocks := by
  have hshort := counted.taken_subperm.length_le
  rwa [List.length_range] at hshort

theorem surfaced_le : st.surfaced.length ≤ st.totalBlocks := by
  rw [counted.surfaced]
  split
  · rw [List.length_range]
    exact counted.low_le_total
  · exact counted.length_le

theorem deliveredCount_eq : st.deliveredCount = st.surfaced.length := by
  rw [counted.recorded.count]
  exact Nat.mod_eq_of_lt (Nat.lt_of_le_of_lt counted.surfaced_le counted.word)

/-- A stream with a full count has surfaced every block. -/
theorem all_surfaced (complete : st.isComplete = true) :
    ∀ n, n < st.totalBlocks → n ∈ st.surfaced := by
  have hcount : st.surfaced.length = st.totalBlocks := by
    rw [← counted.deliveredCount_eq]
    simp only [isComplete, Bool.and_eq_true, beq_iff_eq] at complete
    exact complete.2
  intro n hless
  cases hordered : st.ordered with
  | true =>
    have hsurfaced := counted.surfaced
    rw [if_pos hordered] at hsurfaced
    rw [hsurfaced, List.length_range] at hcount
    rw [hsurfaced, hcount]
    exact List.mem_range.mpr hless
  | false =>
    have hsurfaced := counted.surfaced
    rw [if_neg (ne_true_of_eq_false hordered)] at hsurfaced
    rw [hsurfaced] at hcount ⊢
    -- as many different numbers below the end as there are: none is left out
    have hperm := counted.taken_subperm.perm_of_length_le (by rw [List.length_range, hcount])
    exact hperm.mem_iff.mpr (List.mem_range.mpr hless)

theorem taken_of_surfaced {n : Nat} (member : n ∈ st.surfaced) : n ∈ taken := by
  rw [counted.surfaced] at member
  split at member
  · exact counted.mirrors.below n (List.mem_range.mp member)
  · exact member

/-- A complete stream refuses every block it may expect. -/
theorem onBlock_complete (complete : st.isComplete = true) (expected : st.Expected block) :
    (st.onBlock block).1 = st := by
  rw [counted.onBlock_refused]
  rintro ⟨hinside, hnew⟩
  rcases expected with hbelow | hbeyond
  · exact hnew (counted.taken_of_surfaced (counted.all_surfaced complete _ hbelow))
  · omega

theorem onBlock (expected : st.Expected block) :
    ∃ after, (st.onBlock block).1.Counted after ∧
      (st.onBlock block).1.totalBlocks = st.totalBlocks := by
  by_cases hfresh : st.Fresh taken block.seqNo
  · have hbelow : block.seqNo < st.totalBlocks := by
      rcases expected with hbelow | hbeyond
      · exact hbelow
      · exact absurd hfresh.1 (Nat.not_lt.mpr hbeyond)
    have hword := counted.word
    have haccepted := counted.onBlock_fresh hfresh (by omega)
    have htotal := haccepted.written.totalBlocks
    refine ⟨taken ++ [block.seqNo], ⟨haccepted.settled, ?_, ?_⟩, htotal⟩
    · rw [htotal]
      exact hword
    · intro n member
      rw [htotal]
      rcases List.mem_append.mp member with hold | hnew
      · exact counted.inside n hold
      · rw [List.mem_singleton.mp hnew]
        exact hbelow
  · rw [counted.onBlock_refused hfresh]
    exact ⟨taken, counted, rfl⟩

end

theorem replay_feed (st : ReassemblyStream) (blocks : List Arrival) :
    replay step st blocks = some (st.feed blocks) := by
  induction blocks generalizing st with
  | nil => rfl
  | cons block rest ih => exact ih (st.onBlock block).1

/-- Counting stays sound along a run of expected blocks. -/
theorem feed (counted : st.Counted taken) (along : Along step Expected st blocks) :
    ∃ after, (st.feed blocks).Counted after ∧
      (st.feed blocks).totalBlocks = st.totalBlocks := by
  have hstep : ∀ reached block next,
      (∃ held, Counted reached held ∧ reached.totalBlocks = st.totalBlocks) →
      Expected reached block → step reached block = some next →
      ∃ after, next.Counted after ∧ next.totalBlocks = st.totalBlocks := by
    rintro reached block next ⟨held, hcounted, htotal⟩ hexpected henabled
    cases henabled
    obtain ⟨after, hafter, hsame⟩ := hcounted.onBlock hexpected
    exact ⟨after, hafter, hsame.trans htotal⟩
  exact replay_preserves_along hstep (replay_feed st blocks) along ⟨taken, counted, rfl⟩

/-- A complete stream stays as it is along a run of expected blocks. -/
theorem feed_complete (counted : st.Counted taken) (complete : st.isComplete = true)
    (along : Along step Expected st blocks) :
    st.feed blocks = st := by
  have hstep : ∀ reached block next, reached = st → Expected reached block →
      step reached block = some next → next = st := by
    rintro reached block next rfl hexpected henabled
    cases henabled
    exact counted.onBlock_complete complete hexpected
  exact replay_preserves_along hstep (replay_feed st blocks) along rfl

end Counted

/-- In a run that takes no block from beyond the end, a complete stream has surfaced every
block and stays complete. -/
theorem isComplete_sound (config : StreamConfig) (sink : Option (List UInt8))
    (sinkCap totalBlocks : Nat) (word : totalBlocks < 2 ^ 64) (before after : List Arrival)
    (along : Along step Expected (create config sink sinkCap totalBlocks) (before ++ after))
    (complete : ((create config sink sinkCap totalBlocks).feed before).isComplete = true) :
    (∀ n, n < totalBlocks → n ∈ ((create config sink sinkCap totalBlocks).feed before).surfaced) ∧
      ((create config sink sinkCap totalBlocks).feed (before ++ after)).isComplete = true := by
  have hstart : (create config sink sinkCap totalBlocks).Counted [] :=
    ⟨settled_create config sink sinkCap totalBlocks, word, fun _ impossible =>
      absurd impossible List.not_mem_nil⟩
  obtain ⟨hbefore, hafter⟩ := along_append along (Counted.replay_feed _ before)
  obtain ⟨taken, hcounted, htotal⟩ := hstart.feed hbefore
  constructor
  · intro n hless
    exact hcounted.all_surfaced complete n (htotal ▸ hless)
  · have hstill := hcounted.feed_complete complete hafter
    rw [feed, List.foldl_append]
    change (((create config sink sinkCap totalBlocks).feed before).feed after).isComplete = true
    rw [hstill]
    exact complete

/-- Two blocks that changed places and then a repetition: complete, and complete still. -/
theorem isComplete_sound_repeated :
    let blocks := [arrival 1 0 [], arrival 0 0 []]
    0 ∈ ((create {} none 0 2).feed blocks).surfaced ∧
      ((create {} none 0 2).feed (blocks ++ [arrival 1 0 []])).isComplete = true := by
  have hsound := isComplete_sound {} none 0 2 (by decide) [arrival 1 0 [], arrival 0 0 []]
    [arrival 1 0 []] (by decide +kernel) (by decide +kernel)
  exact ⟨hsound.1 0 (by decide), hsound.2⟩

/-- The one block of a stream is missing, and a block beyond the end makes it complete; when
the missing block comes it is complete no longer.  An ordered stream that is complete loses
it to the block beyond the end. -/
theorem complete_without_block :
    ((create {} none 0 1).feed [arrival 1 0 []]).isComplete = true ∧
      0 ∉ ((create {} none 0 1).feed [arrival 1 0 []]).surfaced ∧
      ((create {} none 0 1).feed [arrival 1 0 [], arrival 0 0 []]).isComplete = false ∧
      ((create byNumber none 0 1).feed [arrival 0 0 []]).isComplete = true ∧
      ((create byNumber none 0 1).feed [arrival 0 0 [], arrival 1 0 []]).isComplete = false := by
  decide +kernel

end ReassemblyStream

end FuseTransport.Proto
