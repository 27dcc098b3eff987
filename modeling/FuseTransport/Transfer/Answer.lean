import FuseTransport.Transfer.Walk

/-!
# The answer of the receiver

The list of parts a lane asks for is short enough for the fields of its messages.  A
sender that has all messages of an answer, in whatever order and however often they
came, has the list.
-/

namespace FuseTransport.Transfer

open Proto

/-! ## Merging ends -/

theorem foldl_min_le (values : List Nat) (start : Nat) :
    values.foldl min start ≤ start ∧ ∀ v ∈ values, values.foldl min start ≤ v := by
  induction values generalizing start with
  | nil => exact ⟨Nat.le_refl _, nofun⟩
  | cons first rest ih =>
    obtain ⟨hstart, hrest⟩ := ih (min start first)
    refine ⟨Nat.le_trans hstart (Nat.min_le_left _ _), fun v member => ?_⟩
    rcases List.mem_cons.mp member with rfl | hmember
    · exact Nat.le_trans hstart (Nat.min_le_right _ _)
    · exact hrest v hmember

theorem foldl_min_mem (values : List Nat) (start : Nat) :
    values.foldl min start = start ∨ values.foldl min start ∈ values := by
  induction values generalizing start with
  | nil => exact Or.inl rfl
  | cons first rest ih =>
    rw [List.foldl_cons]
    rcases ih (min start first) with hstart | hrest
    · rw [hstart]
      rcases Nat.le_total start first with hle | hle
      · exact Or.inl (Nat.min_eq_left hle)
      · rw [Nat.min_eq_right hle]
        exact Or.inr List.mem_cons_self
    · exact Or.inr (List.mem_cons_of_mem _ hrest)

theorem length_mergeBelow (bound : Nat) (back : ResumeRange) (ranges : List ResumeRange) :
    (mergeBelow bound back ranges).length ≤ ranges.length + 1 := by
  induction ranges generalizing back with
  | nil => exact Nat.le_refl _
  | cons cur rest ih =>
    rw [mergeBelow]
    split
    · exact Nat.le_succ_of_le (ih _)
    · exact Nat.succ_le_succ (ih cur)

variable {ranges : List ResumeRange}

theorem length_mergeBelow_of_gap {bound gap : Nat} {back : ResumeRange}
    (member : gap ∈ gaps (back :: ranges)) (small : gap ≤ bound) :
    (mergeBelow bound back ranges).length ≤ ranges.length := by
  induction ranges generalizing back with
  | nil => cases member
  | cons cur rest ih =>
    rw [mergeBelow]
    split
    · exact length_mergeBelow _ _ _
    · rename_i hwide
      rcases List.mem_cons.mp member with rfl | hrest
      · exact absurd small hwide
      · exact Nat.succ_le_succ (ih hrest)

theorem Ascending.gap_le {low high : Nat} (ascending : Ascending low high ranges) {gap : Nat}
    (member : gap ∈ gaps ranges) :
    gap ≤ high := by
  induction ascending with
  | nil => cases member
  | @cons low high r rest _ behind ih =>
    cases rest with
    | nil => cases member
    | cons next more =>
      rcases List.mem_cons.mp member with rfl | hrest
      · have hinside := behind.inside List.mem_cons_self
        omega
      · exact ih hrest

/-- A round of merging closes the smallest gap; the bound does not overflow. -/
theorem length_round {low high : Nat} {first next : ResumeRange} {rest : List ResumeRange}
    (ascending : Ascending low high (first :: next :: rest)) (bounded : high ≤ kMaxSize) :
    (mergeBelow (u64 ((gaps (first :: next :: rest)).foldl min (2 ^ 64 - 1) * 2 + 1)) first
      (next :: rest)).length ≤ (next :: rest).length := by
  have hsmall := (foldl_min_le (gaps (first :: next :: rest)) (2 ^ 64 - 1)).2
  have hmember := foldl_min_mem (gaps (first :: next :: rest)) (2 ^ 64 - 1)
  have hgap : next.offset - (first.offset + first.length) ∈ gaps (first :: next :: rest) :=
    List.mem_cons_self
  have hleast := Nat.le_trans (hsmall _ hgap) (ascending.gap_le hgap)
  unfold kMaxSize at bounded
  rcases hmember with hstart | hfound
  · omega
  · refine length_mergeBelow_of_gap hfound ?_
    rw [u64_of_lt (by omega)]
    omega

theorem length_coarsenFrom {low high limit : Nat} (positive : 0 < limit) (fuel : Nat)
    (ascending : Ascending low high ranges) (bounded : high ≤ kMaxSize)
    (enough : ranges.length ≤ limit + fuel) : (coarsenFrom limit fuel ranges).length ≤ limit := by
  induction fuel generalizing ranges with
  | zero => exact enough
  | succ fuel ih =>
    match ranges, ascending, enough with
    | [], _, _ => exact Nat.zero_le _
    | [first], _, _ =>
      have hone : ¬ [first].length > limit := Nat.not_lt.mpr positive
      rw [coarsenFrom, if_neg hone]
      exact positive
    | first :: next :: rest, ascending, enough =>
      rw [coarsenFrom]
      split
      · have hround := length_round ascending bounded
        rw [List.length_cons] at enough
        exact ih ascending.mergeBelow.1 (by omega)
      · rename_i hshort
        exact Nat.le_of_not_lt hshort

/-- The list sent to the other end is never longer than its limit. -/
theorem length_coarsenRanges {low high limit : Nat} (positive : 0 < limit)
    (ascending : Ascending low high ranges) (bounded : high ≤ kMaxSize) :
    (coarsenRanges ranges limit).length ≤ limit :=
  length_coarsenFrom positive ranges.length ascending bounded (Nat.le_add_left _ _)

section Messages

variable {want : List ResumeRange}

def answerLists (want : List ResumeRange) : List (List ResumeRange) :=
  (List.range (max 1 ((want.length + kMaxResumeRangesPerMsg - 1) / kMaxResumeRangesPerMsg))).map
    fun part => (want.drop (part * kMaxResumeRangesPerMsg)).take kMaxResumeRangesPerMsg

theorem length_answerLists (short : want.length ≤ kMaxResumeRanges) :
    (answerLists want).length < 2 ^ 16 := by
  unfold kMaxResumeRanges at short
  rw [answerLists, List.length_map, List.length_range]
  unfold kMaxResumeRangesPerMsg
  omega

/-- Each message says which list it carries and how many there are. -/
theorem resumeAnswer_member {lane nonce : Nat} {resumed : Bool}
    (short : want.length ≤ kMaxResumeRanges) {rr : ResumeRanges}
    (member : rr ∈ resumeAnswer lane nonce resumed want) :
    rr.streamId = lane ∧ rr.nonce = nonce ∧ rr.parts = (answerLists want).length ∧
      (answerLists want)[rr.part]? = some rr.ranges := by
  have hcount := length_answerLists short
  obtain ⟨i, hi, rfl⟩ := List.mem_map.mp member
  have hlength : (answerLists want).length =
      max 1 ((want.length + kMaxResumeRangesPerMsg - 1) / kMaxResumeRangesPerMsg) := by
    rw [answerLists, List.length_map, List.length_range]
  rw [← hlength] at hi ⊢
  have hinside := List.mem_range.mp hi
  rw [Nat.mod_eq_of_lt (Nat.lt_trans hinside hcount), Nat.mod_eq_of_lt hcount]
  refine ⟨rfl, rfl, rfl, ?_⟩
  rw [answerLists, List.getElem?_map, List.getElem?_range (hlength ▸ hinside)]
  rfl

theorem flatten_parts (size : Nat) (values : List ResumeRange) (count : Nat) :
    ((List.range count).map fun i => (values.drop (i * size)).take size).flatten =
      values.take (count * size) := by
  induction count with
  | zero => rw [Nat.zero_mul]; rfl
  | succ count ih =>
    rw [List.range_succ, List.map_append, List.flatten_append, ih, List.map_singleton,
      List.flatten_singleton, Nat.succ_mul, List.take_add]

/-- The lists one behind the other are the whole list. -/
theorem flatten_answerLists (want : List ResumeRange) : (answerLists want).flatten = want := by
  refine (flatten_parts _ want _).trans (List.take_of_length_le ?_)
  unfold kMaxResumeRangesPerMsg
  omega

end Messages

namespace SendLane

/-- A lane that has heard of an answer and has some of its lists. -/
structure Hears (lists : List (List ResumeRange)) (L : SendLane) : Prop where
  expected : L.partsExpected = lists.length
  answer : L.answer.length = lists.length
  havePart : L.havePart.length = lists.length
  seen : L.partsSeen = L.havePart.count true
  got : ∀ (i : Nat), L.havePart[i]? = some true → L.answer[i]? = lists[i]?

section Hears

variable {lists : List (List ResumeRange)} {L : SendLane}

/-- With every message in, the lane has the whole answer. -/
theorem Hears.complete (hears : L.Hears lists) (all : L.partsSeen = L.partsExpected) :
    L.answer = lists := by
  have hevery : ∀ b ∈ L.havePart, true = b := by
    apply List.count_eq_length.mp
    rw [← hears.seen, all, hears.expected, hears.havePart]
  refine List.ext_getElem? fun i => ?_
  rcases Nat.lt_or_ge i L.havePart.length with hinside | hbehind
  · refine hears.got i ?_
    rw [List.getElem?_eq_getElem hinside, ← hevery _ (List.getElem_mem hinside)]
  · rw [hears.havePart] at hbehind
    rw [List.getElem?_eq_none_iff.mpr hbehind,
      List.getElem?_eq_none_iff.mpr (hears.answer ▸ hbehind)]

/-- The first message starts the bookkeeping. -/
theorem hears_of_first (unheard : L.partsExpected = 0) (unseen : L.partsSeen = 0) :
    (L.expectParts lists.length).Hears lists := by
  unfold expectParts
  rw [if_pos unheard]
  refine ⟨rfl, List.length_replicate, List.length_replicate, ?_, fun i got => ?_⟩
  · rw [List.count_replicate]
    exact unseen
  · rw [List.getElem?_replicate] at got
    split at got <;> cases got

theorem Hears.expectParts (hears : L.Hears lists) (some : lists ≠ []) :
    L.expectParts lists.length = L := by
  unfold SendLane.expectParts
  rw [if_neg]
  rw [hears.expected]
  exact fun none => some (List.length_eq_zero_iff.mp none)

/-- One message of the answer, for the first time or again. -/
theorem Hears.onResumeRanges {rr : ResumeRanges} (hears : (L.expectParts lists.length).Hears lists)
    (count : rr.parts = lists.length) (found : lists[rr.part]? = some rr.ranges) :
    (L.onResumeRanges rr).Hears lists := by
  unfold SendLane.onResumeRanges
  dsimp only
  rw [count]
  split
  · rename_i hnew
    obtain ⟨hinside, hold⟩ := List.getElem?_eq_some_iff.mp hnew.2
    constructor
    case expected => exact hears.expected
    case answer => rw [List.length_set]; exact hears.answer
    case havePart => rw [List.length_set]; exact hears.havePart
    case seen =>
      rw [List.count_set hinside, hold, hears.seen]
      simp
    case got =>
      intro j hhave
      by_cases hsame : j = rr.part
      · rw [hsame, found, List.getElem?_set_self]
        rw [hears.answer, ← hears.havePart]
        exact hinside
      · rw [List.getElem?_set_ne (Ne.symm hsame)] at hhave ⊢
        exact hears.got j hhave
  · exact hears

end Hears

end SendLane

end FuseTransport.Transfer
