import FuseTransport.Transfer.Answer

/-!
# Coarsening in machine words

`coarsen_ranges` once more, with every sum and difference formed in words of 64 bits.  On
ranges in order no word overflows, every round closes a gap, and the list that remains asks
for more bytes only where the input left a gap.
-/

namespace FuseTransport.Transfer

open Proto

/-- What the sum and the difference of two words are, if they may be formed. -/
structure WordArith where
  add : Nat → Nat → Option Nat
  sub : Nat → Nat → Option Nat

namespace WordArith

/-- The arithmetic of the machine. -/
def wrapping : WordArith where
  add first second := some (u64 (first + second))
  sub first second := some (u64Sub first second)

/-- An arithmetic in which nothing may overflow. -/
def checked : WordArith where
  add first second := if first + second < 2 ^ 64 then some (first + second) else none
  sub first second := if second ≤ first then some (first - second) else none

structure Exact (arith : WordArith) : Prop where
  add : ∀ {first second}, first + second < 2 ^ 64 → arith.add first second = some (first + second)
  sub : ∀ {first second}, second ≤ first → first < 2 ^ 64 →
    arith.sub first second = some (first - second)

theorem wrapping_exact : wrapping.Exact where
  add fits := congrArg some (u64_of_lt fits)
  sub le fits := congrArg some (u64Sub_of_le le fits)

theorem checked_exact : checked.Exact where
  add fits := if_pos fits
  sub le _ := if_pos le

end WordArith

section Loops

variable (arith : WordArith)

def smallestGap : Nat → List ResumeRange → Option Nat
  | minGap, a :: b :: rest => do
      let gap ← arith.sub b.offset (← arith.add a.offset a.length)
      smallestGap (min minGap gap) (b :: rest)
  | minGap, _ => some minGap

def mergeClose (bound : Nat) : ResumeRange → List ResumeRange → Option (List ResumeRange)
  | last, [] => some [last]
  | last, cur :: rest => do
      let gap ← arith.sub cur.offset (← arith.add last.offset last.length)
      if gap ≤ bound then
        let length ← arith.sub (← arith.add cur.offset cur.length) last.offset
        mergeClose bound { last with length := length } rest
      else (mergeClose bound cur rest).map (last :: ·)

/-- At most so many rounds; `none` also says that they were not enough. -/
def coarsenWords (limit : Nat) : Nat → List ResumeRange → Option (List ResumeRange)
  | 0, r => if r.length > limit then none else some r
  | _ + 1, [] => some []
  | rounds + 1, first :: rest =>
    if (first :: rest).length > limit then do
      let minGap ← smallestGap arith (2 ^ 64 - 1) (first :: rest)
      -- `min_gap * 2 + 1`
      let bound ← arith.add (← arith.add minGap minGap) 1
      coarsenWords limit rounds (← mergeClose arith bound first rest)
    else some (first :: rest)

end Loops

/-! ## Nothing overflows -/

section Exact

variable {arith : WordArith} {low high : Nat} {ranges : List ResumeRange}

theorem smallestGap_eq (exact : arith.Exact) (ascending : Ascending low high ranges)
    (bounded : high ≤ kMaxSize) (minGap : Nat) :
    smallestGap arith minGap ranges = some ((gaps ranges).foldl min minGap) := by
  induction ascending generalizing minGap with
  | nil => rfl
  | @cons low high a rest _ behind ih =>
    cases behind with
    | nil => rfl
    | @cons _ _ b rest next onward =>
      have hstop := onward.le
      unfold kMaxSize at bounded
      rw [smallestGap, exact.add (by omega)]
      change (arith.sub b.offset (a.offset + a.length)).bind _ = _
      rw [exact.sub next (by omega)]
      exact ih bounded _

theorem mergeClose_eq (exact : arith.Exact) {bound : Nat} {back : ResumeRange}
    (ascending : Ascending low high (back :: ranges)) (bounded : high ≤ kMaxSize) :
    mergeClose arith bound back ranges = some (mergeBelow bound back ranges) := by
  induction ranges generalizing low back with
  | nil => rfl
  | cons cur rest ih =>
    cases ascending with
    | cons start behind =>
      cases behind with
      | cons next onward =>
        have hstop := onward.le
        have hmax : kMaxSize < 2 ^ 64 := by decide
        have hjoined : Ascending low high
            ({ back with length := cur.offset + cur.length - back.offset } :: rest) :=
          .cons start (onward.mono (by dsimp only; omega) (Nat.le_refl _))
        rw [mergeClose, exact.add (by omega)]
        change (arith.sub cur.offset (back.offset + back.length)).bind _ = _
        rw [exact.sub next (by omega), Option.bind_some, mergeBelow]
        split
        · rw [exact.add (by omega)]
          change (arith.sub (cur.offset + cur.length) back.offset).bind _ = _
          rw [exact.sub (by omega) (by omega)]
          exact ih hjoined
        · rw [ih (.cons next onward)]
          rfl

theorem coarsenWords_eq (exact : arith.Exact) {limit : Nat} (positive : 0 < limit) (rounds : Nat)
    (ascending : Ascending low high ranges) (bounded : high ≤ kMaxSize)
    (enough : ranges.length ≤ limit + rounds) :
    coarsenWords arith limit rounds ranges = some (coarsenFrom limit rounds ranges) := by
  induction rounds generalizing ranges with
  | zero => exact if_neg (Nat.not_lt.mpr enough)
  | succ rounds ih =>
    match ranges, ascending, enough with
    | [], _, _ => rfl
    | [first], _, _ =>
      have hone : ¬ [first].length > limit := Nat.not_lt.mpr positive
      rw [coarsenWords, if_neg hone, coarsenFrom, if_neg hone]
    | first :: next :: rest, ascending, enough =>
      have hround := length_round ascending bounded
      have hleast := (foldl_min_le (gaps (first :: next :: rest)) (2 ^ 64 - 1)).2 _
        List.mem_cons_self
      have hgap := ascending.gap_le List.mem_cons_self
      rw [coarsenWords, coarsenFrom]
      split
      · rw [smallestGap_eq exact ascending bounded]
        generalize (gaps (first :: next :: rest)).foldl min (2 ^ 64 - 1) = least
          at hleast hround ⊢
        have hsmall : least ≤ 2 ^ 63 - 1 := Nat.le_trans (Nat.le_trans hleast hgap) bounded
        have hbound : u64 (least * 2 + 1) = least + least + 1 := by
          rw [u64_of_lt (by omega), Nat.mul_two]
        dsimp only
        rw [hbound] at hround ⊢
        change (arith.add least least).bind _ = _
        rw [exact.add (by omega)]
        change (arith.add (least + least) 1).bind _ = _
        rw [exact.add (by omega)]
        change (mergeClose arith (least + least + 1) first (next :: rest)).bind _ = _
        rw [mergeClose_eq exact ascending bounded]
        rw [List.length_cons] at enough
        exact ih ascending.mergeBelow.1 (by omega)
      · rfl

end Exact

/-- Ranges one behind the other, each end before the next offset. -/
def SortedDisjoint (ranges : List ResumeRange) : Prop :=
  ranges.Pairwise fun a b => a.offset + a.length ≤ b.offset

theorem ascending_of_sortedDisjoint {ranges : List ResumeRange} (disjoint : SortedDisjoint ranges)
    {high : Nat} (inside : ∀ r ∈ ranges, r.offset + r.length ≤ high) (low : Nat)
    (above : ∀ r ∈ ranges, low ≤ r.offset) (ordered : low ≤ high) :
    Ascending low high ranges := by
  induction ranges generalizing low with
  | nil => exact .nil ordered
  | cons r rest ih =>
    obtain ⟨hnext, hrest⟩ := List.pairwise_cons.mp disjoint
    refine .cons (above r List.mem_cons_self) ?_
    exact ih hrest (fun other member => inside other (List.mem_cons_of_mem _ member)) _ hnext
      (inside r List.mem_cons_self)

/-- On ranges in order that end below `2 ^ 63`, in the arithmetic of the machine as in one in
which nothing may overflow: the loop ends after at most one round for every range, with a list
that is no longer than the limit, and with the list itself if that was short enough.  The
ranges that remain are in order, name every byte of the list and beside them only bytes
between two of its ranges, and start and end where the list does. -/
theorem coarsening_widens {ranges : List ResumeRange} {limit : Nat} (positive : 1 ≤ limit)
    (disjoint : SortedDisjoint ranges)
    (small : ∀ r ∈ ranges, r.offset < 2 ^ 63 ∧ r.offset + r.length < 2 ^ 63) :
    ∃ out, coarsenWords .wrapping limit ranges.length ranges = some out ∧
      coarsenWords .checked limit ranges.length ranges = some out ∧
      out.length ≤ limit ∧ (ranges.length ≤ limit → out = ranges) ∧ SortedDisjoint out ∧
      Widens ranges out := by
  have hascending : Ascending 0 kMaxSize ranges :=
    ascending_of_sortedDisjoint disjoint (fun r member => Nat.le_sub_one_of_lt (small r member).2) 0
      (fun _ _ => Nat.zero_le _) (Nat.zero_le _)
  have hbounded := Nat.le_refl kMaxSize
  have henough := Nat.le_add_left ranges.length limit
  obtain ⟨hordered, hwidens⟩ := hascending.coarsenRanges limit
  refine ⟨coarsenRanges ranges limit,
    coarsenWords_eq WordArith.wrapping_exact positive _ hascending hbounded henough,
    coarsenWords_eq WordArith.checked_exact positive _ hascending hbounded henough,
    length_coarsenRanges positive hascending hbounded, fun short => ?_, hordered.pairwise, hwidens⟩
  cases ranges with
  | nil => rfl
  | cons first rest => exact if_neg (Nat.not_lt.mpr short)

/-- Of three ranges the two that are closest become one. -/
theorem coarsening_widens_three :
    SortedDisjoint [⟨0, 4⟩, ⟨9, 1⟩, ⟨30, 5⟩] ∧
      ∃ out, coarsenWords .wrapping 2 3 [⟨0, 4⟩, ⟨9, 1⟩, ⟨30, 5⟩] = some out ∧
        out = [⟨0, 10⟩, ⟨30, 5⟩] ∧ Widens [⟨0, 4⟩, ⟨9, 1⟩, ⟨30, 5⟩] out := by
  have hdisjoint : SortedDisjoint [⟨0, 4⟩, ⟨9, 1⟩, ⟨30, 5⟩] := by
    unfold SortedDisjoint
    decide
  obtain ⟨out, hmachine, _, _, _, _, hwidens⟩ :=
    coarsening_widens (by decide : 1 ≤ 2) hdisjoint (by decide)
  refine ⟨hdisjoint, out, hmachine, ?_, hwidens⟩
  exact Option.some.inj (hmachine.symm.trans rfl)

end FuseTransport.Transfer
