import FuseTransport.Transfer.Outgoing

/-!
# The blocks of a lane tile its parts

Whatever the receiver asked for, the blocks a lane has sent carry the positions of its
parts from the front, each position once, and what they do not carry yet is what lies
behind the cursor.  A block is empty only when the lane has nothing to send, and the end
of stream stands on the block behind which nothing is left.
-/

namespace FuseTransport.Transfer

open Foundation Foundation.Runs Proto

/-- The parts an answer asks for, without the empty ones and in the order of their offsets. -/
def askedFor (answer : List (List ResumeRange)) : List ResumeRange :=
  (answer.flatten.filter fun r => r.length ≠ 0).insertionSort fun a b => a.offset ≤ b.offset

theorem rangesHold_iff (shardBytes : Nat) (ranges : List ResumeRange) :
    rangesHold shardBytes 0 ranges = true ↔ Ascending 0 shardBytes ranges :=
  ⟨rangesHold_ascending (Nat.zero_le _), Ascending.rangesHold⟩

/-- What an answer asks for is sent when it is disjoint and inside the lane. -/
theorem rangesToSend_of_ascending {shardBytes : Nat} {answer : List (List ResumeRange)}
    (ascending : Ascending 0 shardBytes (askedFor answer)) :
    rangesToSend shardBytes answer = askedFor answer :=
  if_pos ascending.rangesHold

theorem rangesToSend_of_not_ascending {shardBytes : Nat} {answer : List (List ResumeRange)}
    (refused : ¬ Ascending 0 shardBytes (askedFor answer)) :
    rangesToSend shardBytes answer = wholeLane shardBytes :=
  if_neg fun holds => refused ((rangesHold_iff shardBytes _).mp holds)

theorem positive_askedFor (answer : List (List ResumeRange)) : Positive (askedFor answer) := by
  intro r member
  have hfiltered := (List.mem_insertionSort _).mp member
  exact Nat.pos_of_ne_zero (of_decide_eq_true (List.mem_filter.mp hfiltered).2)

theorem positive_rangesToSend (shardBytes : Nat) (answer : List (List ResumeRange)) :
    Positive (rangesToSend shardBytes answer) := by
  by_cases hascending : Ascending 0 shardBytes (askedFor answer)
  · rw [rangesToSend_of_ascending hascending]
    exact positive_askedFor answer
  · rw [rangesToSend_of_not_ascending hascending]
    exact positive_wholeLane shardBytes

/-- Parts in order name their positions in order. -/
theorem Ascending.pairwise_spots {low high : Nat} {ranges : List ResumeRange}
    (ascending : Ascending low high ranges) : (spots ranges).Pairwise (· < ·) := by
  induction ascending with
  | nil => exact List.Pairwise.nil
  | @cons low high r rest start behind ih =>
    refine List.pairwise_append.mpr ⟨List.pairwise_lt_range', ih, fun p inside q later => ?_⟩
    have hinside := List.mem_range'_1.mp inside
    have hlater := behind.named ((mem_spots rest q).mp later)
    omega

/-! ## The positions a lane has sent and those it has not -/

/-- The positions the blocks carry, one after the other. -/
def carried (history : List SentBlock) : List Nat :=
  history.flatMap fun block => List.range' block.offset block.payload.length

theorem carried_append (history : List SentBlock) (block : SentBlock) :
    carried (history ++ [block]) =
      carried history ++ List.range' block.offset block.payload.length := by
  simp [carried]

theorem length_carried (history : List SentBlock) :
    (carried history).length = (history.map fun block => block.payload.length).sum := by
  simp [carried]

variable {r : ResumeRange} {block : Nat}

namespace SendLane

/-- The positions behind the cursor, in the order in which they are sent. -/
def unsent (L : SendLane) : List Nat :=
  match L.ranges[L.ri]? with
  | some r =>
    List.range' L.nextOffset (r.offset + r.length - L.nextOffset) ++ spots (L.ranges.drop (L.ri + 1))
  | none => []

structure Tiled (cfg : SendConfig) (lane : Nat) (L : SendLane) : Prop where
  begun : L.ranges =
    if L.phase = .handshake then [] else rangesToSend (cfg.shardBytes lane) L.answer
  tiles : carried L.history ++ L.unsent = spots L.ranges
  left : ∀ r, L.ranges[L.ri]? = some r → L.nextOffset < r.offset + r.length
  filled : ∀ block ∈ L.history, block.payload = [] → L.ranges = [] ∧ L.history = [block]
  ended : ∀ block, L.history.getLast? = some block → (isLastBlock block.flags = true ↔ ¬ L.pending)

theorem create_tiled (cfg : SendConfig) (lane : Nat) : (create cfg lane).Tiled cfg lane :=
  ⟨rfl, rfl, nofun, nofun, nofun⟩

section Tiled

variable {cfg : SendConfig} {lane : Nat} {L L' : SendLane}

/-- The tiling concerns only the answer, the parts, the cursor and the blocks. -/
theorem Tiled.congr (tiled : L.Tiled cfg lane)
    (phase : L'.phase = .handshake ↔ L.phase = .handshake) (answer : L'.answer = L.answer)
    (ranges : L'.ranges = L.ranges) (ri : L'.ri = L.ri) (nextOffset : L'.nextOffset = L.nextOffset)
    (nextSeq : L'.nextSeq = L.nextSeq) (history : L'.history = L.history) :
    L'.Tiled cfg lane := by
  have hunsent : L'.unsent = L.unsent := by
    unfold unsent
    rw [ranges, ri, nextOffset]
  have hpending : L'.pending ↔ L.pending := by
    unfold pending
    rw [ranges, ri, nextSeq]
  constructor
  case begun =>
    rw [ranges, answer, tiled.begun]
    simp only [phase]
  case tiles => rw [history, hunsent, ranges]; exact tiled.tiles
  case left => rw [ranges, ri, nextOffset]; exact tiled.left
  case filled => rw [history, ranges]; exact tiled.filled
  case ended => rw [history, hpending]; exact tiled.ended

theorem unsent_of_some (found : L.ranges[L.ri]? = some r) :
    L.unsent = List.range' L.nextOffset (r.offset + r.length - L.nextOffset) ++
      spots (L.ranges.drop (L.ri + 1)) := by
  rw [unsent, found]

/-- At the start of a part everything from it on is unsent. -/
theorem unsent_of_start (starts : ∀ r, L.ranges[L.ri]? = some r → L.nextOffset = r.offset) :
    L.unsent = spots (L.ranges.drop L.ri) := by
  cases hfound : L.ranges[L.ri]? with
  | none =>
    rw [unsent, hfound, List.drop_eq_nil_of_le (List.getElem?_eq_none_iff.mp hfound)]
    rfl
  | some r =>
    obtain ⟨hmore, hr⟩ := List.getElem?_eq_some_iff.mp hfound
    rw [unsent_of_some hfound, starts r hfound, Nat.add_sub_cancel_left,
      List.drop_eq_getElem_cons hmore, hr]
    rfl

/-- A block takes its positions off the front of what is unsent. -/
theorem unsent_advance (found : L.ranges[L.ri]? = some r) {len : Nat}
    (inside : L.nextOffset + len ≤ r.offset + r.length) :
    L.unsent = List.range' L.nextOffset len ++ (L.advance len).unsent := by
  have hend := rangeEnd_of_some found
  rw [unsent_of_some found]
  unfold advance
  split
  · have hlen : len = r.offset + r.length - L.nextOffset := by omega
    rw [hlen]
    refine congrArg _ (Eq.symm (unsent_of_start ?_))
    intro next hnext
    rw [hnext]
    rfl
  · have hsplit : r.offset + r.length - L.nextOffset =
        len + (r.offset + r.length - (L.nextOffset + len)) := by omega
    rw [hsplit, ← List.range'_append_1, List.append_assoc]
    exact congrArg _ (Eq.symm (unsent_of_some found))

theorem count_ranges (L : SendLane) (block : SentBlock) (len : Nat) :
    (L.count block len).ranges = L.ranges ∧ (L.count block len).phase = L.phase ∧
      (L.count block len).answer = L.answer := by
  unfold SendLane.count advance
  split <;> exact ⟨rfl, rfl, rfl⟩

/-- The end of stream stands on a block behind which nothing is left. -/
theorem isLast_iff_count (block : SentBlock) (len : Nat) (word : L.nextSeq + 1 < 2 ^ 64)
    (pending : L.pending) :
    L.isLast len = true ↔ ¬ (L.count block len).pending := by
  have hnext : (L.count block len).nextSeq = L.nextSeq + 1 := u64_of_lt word
  have hranges := (count_ranges L block len).1
  unfold SendLane.pending
  rw [hnext, hranges, isLast, decide_eq_true_eq]
  change _ ↔ ¬ ((L.advance len).ri < _ ∨ _)
  unfold advance
  rcases pending with hmore | ⟨hnone, _⟩
  · split
    · dsimp only
      omega
    · dsimp only
      omega
  · rw [rangeEnd_of_nil hnone, hnone]
    simp

/-- The next block takes its positions off what is unsent. -/
theorem Walk.unsent_nextBlock (walk : L.Walk cfg lane) (block : Nat) :
    L.unsent = List.range' L.nextOffset (L.blockLength block) ++
      (L.advance (L.blockLength block)).unsent := by
  cases hfound : L.ranges[L.ri]? with
  | some r =>
    refine unsent_advance hfound ?_
    have hcursor := walk.cursor r hfound
    rw [blockLength, rangeEnd_of_some hfound]
    omega
  | none =>
    have hover := List.getElem?_eq_none_iff.mp hfound
    rw [blockLength, rangeEnd_of_none hfound, Nat.zero_sub, Nat.min_zero, advance,
      if_neg fun both => absurd both.1 (Nat.not_lt.mpr hover)]
    rfl

section

variable (tiled : L.Tiled cfg lane)
include tiled

/-- Only a lane that has nothing to send sends an empty block. -/
theorem Tiled.blockLength_pos (pending : L.pending) (positive : 0 < block) (parts : L.ranges ≠ []) :
    0 < L.blockLength block := by
  rcases pending with hmore | ⟨hnone, _⟩
  · have hfound := List.getElem?_eq_getElem hmore
    have hleft := tiled.left _ hfound
    rw [blockLength, rangeEnd_of_some hfound]
    omega
  · exact absurd hnone parts

theorem Tiled.positive_ranges : Positive L.ranges := by
  rw [tiled.begun]
  split
  · exact nofun
  · exact positive_rangesToSend _ _

/-- Behind a block the cursor is in front of the end of a part again. -/
theorem Tiled.left_advance (len : Nat)
    (found : (L.advance len).ranges[(L.advance len).ri]? = some r) :
    (L.advance len).nextOffset < r.offset + r.length := by
  unfold advance at found ⊢
  split at found
  · rename_i hover
    rw [if_pos hover]
    have hr := tiled.positive_ranges r (List.mem_of_getElem? found)
    rw [found]
    change r.offset < _
    omega
  · rename_i hinside
    rw [if_neg hinside]
    change L.ranges[L.ri]? = some r at found
    have hmore := (List.getElem?_eq_some_iff.mp found).1
    rw [rangeEnd_of_some found] at hinside
    change L.nextOffset + len < _
    omega

theorem Tiled.count (walk : L.Walk cfg lane) (counted : L.history.length = L.nextSeq)
    (word : L.nextSeq + 1 < 2 ^ 64) (pending : L.pending) (positive : 0 < block) :
    (L.count (L.nextBlock cfg lane (L.blockLength block)) (L.blockLength block)).Tiled cfg lane := by
  obtain ⟨_, hlength⟩ := walk.nextBlock pending block
  have hunsent := walk.unsent_nextBlock block
  have hnonempty := tiled.blockLength_pos pending positive
  have hflag := isLastBlock_nextBlock cfg lane L (L.blockLength block)
  have hlast := isLast_iff_count (L.nextBlock cfg lane (L.blockLength block)) (L.blockLength block)
    word pending
  obtain ⟨hranges, hphase, hanswer⟩ :=
    count_ranges L (L.nextBlock cfg lane (L.blockLength block)) (L.blockLength block)
  have hoffset : (L.nextBlock cfg lane (L.blockLength block)).offset = L.nextOffset := rfl
  generalize hnext : L.nextBlock cfg lane (L.blockLength block) = next at *
  generalize L.blockLength block = len at *
  constructor
  case begun => rw [hranges, hphase, hanswer]; exact tiled.begun
  case tiles =>
    change carried (L.history ++ [next]) ++ (L.advance len).unsent = _
    rw [hranges, ← tiled.tiles, hunsent, carried_append, hlength, hoffset, List.append_assoc]
  case left =>
    intro r found
    exact tiled.left_advance len found
  case filled =>
    intro other member empty
    rw [hranges]
    change other ∈ L.history ++ [next] at member
    change _ ∧ L.history ++ [next] = [other]
    -- an empty block was the only one of its lane, and a lane with nothing to send has sent none
    have hnone : L.ranges = [] := by
      rcases List.mem_append.mp member with hbefore | hnew
      · exact (tiled.filled other hbefore empty).1
      · by_contra parts
        have hsome := hnonempty parts
        rw [← hlength, ← List.mem_singleton.mp hnew, empty] at hsome
        exact Nat.lt_irrefl _ hsome
    have hfirst : L.history = [] := by
      rcases pending with hmore | ⟨_, hzero⟩
      · rw [hnone] at hmore
        exact absurd hmore (Nat.not_lt_zero _)
      · exact List.eq_nil_of_length_eq_zero (counted.trans hzero)
    rw [hfirst, List.nil_append, List.mem_singleton] at member
    exact ⟨hnone, by rw [hfirst, member]; rfl⟩
  case ended =>
    intro other found
    change (L.history ++ [next]).getLast? = some other at found
    rw [List.getLast?_concat] at found
    rw [← Option.some.inj found, hflag]
    exact hlast

theorem Tiled.sendNext {Accepted : Nat → Prop} (sound : L.Sound cfg lane Accepted)
    (pending : L.pending) (room : L.nextSeq < u64 (L.base + kWindow)) (positive : 0 < block)
    (fits : block ≤ cfg.blockCeiling) (works : Bool) (nowNs wireNs cap : Nat) :
    (L.sendNext cfg lane block works nowNs wireNs cap).1.Tiled cfg lane := by
  obtain ⟨stored, _, hkept⟩ := sound.keep pending fits nowNs
  rw [← sound.size] at room
  obtain ⟨_, hword⟩ := SendWindow.guard_exact room
  have htiled : ({ L with reg := stored } : SendLane).Tiled cfg lane :=
    tiled.congr Iff.rfl rfl rfl rfl rfl rfl rfl
  have hwalk : ({ L with reg := stored } : SendLane).Walk cfg lane :=
    sound.walk.congr rfl rfl rfl rfl rfl
  unfold SendLane.sendNext
  dsimp only
  rw [hkept]
  split
  · exact htiled.count hwalk sound.counted hword pending positive
  · exact htiled

theorem Tiled.begin (none : L.history = []) (first : L.ri = 0) :
    (L.begin cfg lane).Tiled cfg lane := by
  unfold SendLane.begin
  split
  · constructor
    case begun => rfl
    case tiles =>
      rw [none, unsent_of_start ?_]
      · rw [first]
        rfl
      · intro r found
        dsimp only at found ⊢
        rw [first, ← List.head?_eq_getElem?] at found
        rw [found]
        rfl
    case left =>
      intro r found
      dsimp only at found ⊢
      rw [first, ← List.head?_eq_getElem?] at found
      have hpositive := positive_rangesToSend _ _ r (List.mem_of_head? found)
      rw [found]
      change r.offset < _
      omega
    case filled =>
      intro block member
      rw [none] at member
      cases member
    case ended =>
      intro block found
      rw [none] at found
      cases found
  · exact tiled

end

theorem Heard.tiled {dg : List UInt8} (heard : Heard cfg lane L dg L') (tiled : L.Tiled cfg lane)
    (waiting : L.phase = .handshake) :
    L'.Tiled cfg lane ∧ L'.history = L.history ∧ L'.ri = L.ri := by
  cases heard with
  | ignored => exact ⟨tiled, rfl, rfl⟩
  | refused | retry | acked => exact ⟨tiled.congr Iff.rfl rfl rfl rfl rfl rfl rfl, rfl, rfl⟩
  | part rr decoded =>
    rw [onResumeRanges_frame]
    refine ⟨?_, rfl, rfl⟩
    -- the answer has changed, but no part is sent yet
    have hnone : L.ranges = [] := by rw [tiled.begun, if_pos waiting]
    refine ⟨?_, tiled.tiles, tiled.left, tiled.filled, tiled.ended⟩
    rw [if_pos waiting, hnone]

/-- Every step of a lane, whatever it hears. -/
theorem Moved.tiled {e : TxEvent} {sent : List Sent} {Accepted : Nat → Prop}
    (moved : Moved cfg lane L e L' sent) (sound : L.Sound cfg lane Accepted)
    (tiled : L.Tiled cfg lane) : L'.Tiled cfg lane := by
  cases moved with
  | spoke _ _ _ _ _ spoke =>
    have hphase : L'.phase = .handshake ↔ L.phase = .handshake := by
      rcases spoke.phase with hsame | ⟨hdigesting, hdrained⟩
      · rw [hsame]
      · rw [hdigesting]
        refine ⟨nofun, fun waiting => ?_⟩
        cases (sound.idle waiting).2.2.symm.trans hdrained.1
    have hrest := spoke.steady.rest
    exact tiled.congr hphase (by rw [hrest]) (by rw [hrest]) (by rw [hrest]) (by rw [hrest])
      (by rw [hrest]) (by rw [hrest])
  | heard dg works wireNs told waiting running heard =>
    obtain ⟨htold, hhistory, hri⟩ := heard.tiled tiled waiting
    obtain ⟨hnone, hfirst, _⟩ := sound.idle waiting
    exact htold.begin (hhistory.trans hnone) (hri.trans hfirst)
  | acked => exact tiled.congr Iff.rfl rfl rfl rfl rfl rfl rfl
  | nacked | timedOut => exact tiled
  | block block works nowNs wireNs cap sending running pending room positive fits =>
    exact tiled.sendNext sound pending room positive fits works nowNs wireNs cap

end Tiled

def step (cfg : SendConfig) (lane : Nat) (L : SendLane) (e : TxEvent) : Option SendLane :=
  (L.act cfg lane e).map Prod.fst

structure Kept (cfg : SendConfig) (lane : Nat) (L : SendLane) : Prop where
  sound : L.Sound cfg lane (fun _ => True)
  tiled : L.Tiled cfg lane

theorem Kept.step {cfg : SendConfig} {lane : Nat} {L L' : SendLane} {e : TxEvent}
    (kept : L.Kept cfg lane) (stepped : L.step cfg lane e = some L') : L'.Kept cfg lane := by
  obtain ⟨⟨L', sent⟩, hacted, rfl⟩ := Option.map_eq_some_iff.mp stepped
  have hmoved := act_moved hacted
  exact ⟨hmoved.sound kept.sound fun _ _ _ _ _ _ _ _ => trivial, hmoved.tiled kept.sound kept.tiled⟩

theorem reachable_kept {cfg : SendConfig} {lane : Nat} {L : SendLane}
    (reached : Reachable (SendLane.step cfg lane) (create cfg lane) L) : L.Kept cfg lane :=
  reached.invariant (fun _ _ _ kept stepped => Kept.step kept stepped)
    ⟨create_sound cfg lane _, create_tiled cfg lane⟩

end SendLane

end FuseTransport.Transfer
