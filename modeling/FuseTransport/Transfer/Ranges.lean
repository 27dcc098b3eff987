import Mathlib.Data.List.Sort
import FuseTransport.Proto.SessionCrypto
import FuseTransport.Transfer.Sink

/-!
# Resume ranges

The receiver answers a lane's opening message with the parts of the lane it still
needs, merged until the list is short enough and split over as many datagrams as
it takes.  The sender puts the parts together again and checks that they hold
together; otherwise it sends the whole lane.
-/

namespace FuseTransport.Transfer

open Proto

def kMaxResumeRanges : Nat := 4096

def gaps : List ResumeRange → List Nat
  | a :: b :: rest => (b.offset - (a.offset + a.length)) :: gaps (b :: rest)
  | _ => []

def mergeBelow (bound : Nat) : ResumeRange → List ResumeRange → List ResumeRange
  | back, [] => [back]
  | back, cur :: rest =>
    if cur.offset - (back.offset + back.length) ≤ bound then
      mergeBelow bound { back with length := cur.offset + cur.length - back.offset } rest
    else back :: mergeBelow bound cur rest

/-- Merge the closest ranges until at most `limit` remain; a round merges at
least one pair, so as many rounds as there are ranges are enough. -/
def coarsenFrom (limit : Nat) : Nat → List ResumeRange → List ResumeRange
  | fuel + 1, first :: rest =>
    if (first :: rest).length > limit then
      let minGap := (gaps (first :: rest)).foldl min (2 ^ 64 - 1)
      coarsenFrom limit fuel (mergeBelow (u64 (minGap * 2 + 1)) first rest)
    else first :: rest
  | _, r => r

def coarsenRanges (r : List ResumeRange) (limit : Nat) : List ResumeRange :=
  coarsenFrom limit r.length r

def resumeAnswer (lane nonce : Nat) (resumed : Bool) (want : List ResumeRange) :
    List ResumeRanges :=
  let parts := max 1 ((want.length + kMaxResumeRangesPerMsg - 1) / kMaxResumeRangesPerMsg)
  (List.range parts).map fun part =>
    { streamId := lane
      nonce := nonce
      flags := if resumed then kResumeFlagResumed else 0
      part := part % 2 ^ 16
      parts := parts % 2 ^ 16
      ranges := (want.drop (part * kMaxResumeRangesPerMsg)).take kMaxResumeRangesPerMsg }

def rangesHold (shardBytes : Nat) : Nat → List ResumeRange → Bool
  | _, [] => true
  | prevEnd, r :: rest =>
    if r.offset < prevEnd ∨ r.offset > shardBytes ∨ r.length > shardBytes - r.offset then false
    else rangesHold shardBytes (r.offset + r.length) rest

/-- The whole lane, nothing at all when it is empty. -/
def wholeLane (shardBytes : Nat) : List ResumeRange :=
  if shardBytes > 0 then [⟨0, shardBytes⟩] else []

def rangesToSend (shardBytes : Nat) (answer : List (List ResumeRange)) : List ResumeRange :=
  let asked := (answer.flatten.filter fun r => r.length ≠ 0).insertionSort
    fun a b => a.offset ≤ b.offset
  if rangesHold shardBytes 0 asked then asked else wholeLane shardBytes

/-- Ranges one behind the other, from `low` to `high`. -/
inductive Ascending : Nat → Nat → List ResumeRange → Prop where
  | nil {low high : Nat} (ordered : low ≤ high) : Ascending low high []
  | cons {low high : Nat} {r : ResumeRange} {ranges : List ResumeRange} (start : low ≤ r.offset)
      (behind : Ascending (r.offset + r.length) high ranges) : Ascending low high (r :: ranges)

/-- A position that one of the ranges names. -/
def Names (ranges : List ResumeRange) (p : Nat) : Prop :=
  ∃ r ∈ ranges, r.offset ≤ p ∧ p < r.offset + r.length

/-- The positions the ranges name, one after the other. -/
def spots (ranges : List ResumeRange) : List Nat :=
  ranges.flatMap fun r => List.range' r.offset r.length

theorem mem_spots (ranges : List ResumeRange) (p : Nat) : p ∈ spots ranges ↔ Names ranges p := by
  simp [spots, Names]

theorem length_spots (ranges : List ResumeRange) :
    (spots ranges).length = (ranges.map fun r => r.length).sum := by
  simp [spots]

variable {p : Nat}

theorem Names.shift {ranges : List ResumeRange} (named : Names ranges p) (base : Nat) :
    Names (ranges.map fun r => { r with offset := r.offset - base }) (p - base) := by
  obtain ⟨r, member, habove, hbelow⟩ := named
  refine ⟨{ r with offset := r.offset - base }, List.mem_map_of_mem member,
    Nat.sub_le_sub_right habove base, ?_⟩
  change p - base < r.offset - base + r.length
  omega

theorem Names.append_left {ranges : List ResumeRange} (named : Names ranges p)
    (more : List ResumeRange) : Names (ranges ++ more) p := by
  obtain ⟨r, member, inside⟩ := named
  exact ⟨r, List.mem_append_left _ member, inside⟩

/-- Every part has at least one byte. -/
def Positive (ranges : List ResumeRange) : Prop := ∀ r ∈ ranges, 0 < r.length

theorem Positive.append {front back : List ResumeRange} (first : Positive front)
    (second : Positive back) : Positive (front ++ back) := by
  intro r member
  rcases List.mem_append.mp member with hfront | hback
  · exact first r hfront
  · exact second r hback

variable {r : ResumeRange}

theorem positive_singleton (some : 0 < r.length) : Positive [r] := by
  intro other member
  rw [List.mem_singleton.mp member]
  exact some

/-! ## Lists that ask for more -/

def lastStop : Nat → List ResumeRange → Nat
  | stop, [] => stop
  | _, r :: rest => lastStop (r.offset + r.length) rest

/-- A list that names what another one names and beside it only what lies between two ranges
of that list.  Its ranges start and end where ranges of that list do, the first and the last
of them where the first and the last do. -/
structure Widens (before after : List ResumeRange) : Prop where
  covers : ∀ p, Names before p → Names after p
  between : ∀ p, Names after p → Names before p ∨
    ∃ a ∈ before, ∃ b ∈ before, a.offset + a.length ≤ p ∧ p < b.offset
  starts : ∀ r ∈ after, ∃ a ∈ before, a.offset = r.offset
  stops : ∀ r ∈ after, ∃ b ∈ before, b.offset + b.length = r.offset + r.length
  first : after.head?.map ResumeRange.offset = before.head?.map ResumeRange.offset
  last : ∀ stop, lastStop stop after = lastStop stop before

theorem names_cons {ranges : List ResumeRange} :
    Names (r :: ranges) p ↔ (r.offset ≤ p ∧ p < r.offset + r.length) ∨ Names ranges p := by
  simp only [Names, List.mem_cons, exists_eq_or_imp]

namespace Widens

variable {before middle after : List ResumeRange}

theorem refl (ranges : List ResumeRange) : Widens ranges ranges where
  covers := fun _ => id
  between := fun _ => Or.inl
  starts := fun r member => ⟨r, member, rfl⟩
  stops := fun r member => ⟨r, member, rfl⟩
  first := rfl
  last := fun _ => rfl

theorem trans (first : Widens before middle) (second : Widens middle after) :
    Widens before after where
  covers := fun p named => second.covers p (first.covers p named)
  between := by
    intro p named
    rcases second.between p named with hnamed | ⟨a, ha, b, hb, habove, hbelow⟩
    · exact first.between p hnamed
    · obtain ⟨a', ha', hstop⟩ := first.stops a ha
      obtain ⟨b', hb', hstart⟩ := first.starts b hb
      exact Or.inr ⟨a', ha', b', hb', hstop.trans_le habove, hbelow.trans_eq hstart.symm⟩
  starts := by
    intro r member
    obtain ⟨a, ha, hstart⟩ := second.starts r member
    obtain ⟨a', ha', hfirst⟩ := first.starts a ha
    exact ⟨a', ha', hfirst.trans hstart⟩
  stops := by
    intro r member
    obtain ⟨b, hb, hstop⟩ := second.stops r member
    obtain ⟨b', hb', hfirst⟩ := first.stops b hb
    exact ⟨b', hb', hfirst.trans hstop⟩
  first := second.first.trans first.first
  last := fun stop => (second.last stop).trans (first.last stop)

theorem cons (widens : Widens before after) (r : ResumeRange) :
    Widens (r :: before) (r :: after) where
  covers := fun p named =>
    names_cons.mpr ((names_cons.mp named).imp_right (widens.covers p))
  between := by
    intro p named
    rcases names_cons.mp named with hhere | hrest
    · exact Or.inl (names_cons.mpr (Or.inl hhere))
    · rcases widens.between p hrest with hnamed | ⟨a, ha, b, hb, hbetween⟩
      · exact Or.inl (names_cons.mpr (Or.inr hnamed))
      · exact Or.inr ⟨a, List.mem_cons_of_mem _ ha, b, List.mem_cons_of_mem _ hb, hbetween⟩
  starts := by
    rintro _ (_ | ⟨_, hrest⟩)
    · exact ⟨r, List.mem_cons_self, rfl⟩
    · obtain ⟨a, ha, hstart⟩ := widens.starts _ hrest
      exact ⟨a, List.mem_cons_of_mem _ ha, hstart⟩
  stops := by
    rintro _ (_ | ⟨_, hrest⟩)
    · exact ⟨r, List.mem_cons_self, rfl⟩
    · obtain ⟨b, hb, hstop⟩ := widens.stops _ hrest
      exact ⟨b, List.mem_cons_of_mem _ hb, hstop⟩
  first := rfl
  last := fun _ => widens.last (r.offset + r.length)

theorem join {back cur : ResumeRange} (rest : List ResumeRange)
    (apart : back.offset + back.length ≤ cur.offset) :
    Widens (back :: cur :: rest)
      ({ back with length := cur.offset + cur.length - back.offset } :: rest) where
  covers := by
    intro p named
    simp only [names_cons] at named ⊢
    rcases named with hback | hcur | hrest
    · exact Or.inl (by omega)
    · exact Or.inl (by omega)
    · exact Or.inr hrest
  between := by
    intro p named
    simp only [names_cons] at named ⊢
    rcases named with hjoined | hrest
    · by_cases hgap : back.offset + back.length ≤ p ∧ p < cur.offset
      · exact Or.inr ⟨back, List.mem_cons_self, cur, List.mem_cons_of_mem _ List.mem_cons_self, hgap⟩
      · omega
    · exact Or.inl (Or.inr (Or.inr hrest))
  starts := by
    rintro _ (_ | ⟨_, hrest⟩)
    · exact ⟨back, List.mem_cons_self, rfl⟩
    · exact ⟨_, List.mem_cons_of_mem _ (List.mem_cons_of_mem _ hrest), rfl⟩
  stops := by
    rintro _ (_ | ⟨_, hrest⟩)
    · exact ⟨cur, List.mem_cons_of_mem _ List.mem_cons_self, by dsimp only; omega⟩
    · exact ⟨_, List.mem_cons_of_mem _ (List.mem_cons_of_mem _ hrest), rfl⟩
  first := rfl
  last := by
    intro stop
    have hstop : back.offset + (cur.offset + cur.length - back.offset) =
        cur.offset + cur.length := by omega
    rw [lastStop, hstop]
    rfl

end Widens

namespace Ascending

variable {low high : Nat} {ranges : List ResumeRange}

theorem le (ascending : Ascending low high ranges) : low ≤ high := by
  induction ascending with
  | nil ordered => exact ordered
  | cons start _ ih => exact Nat.le_trans start (Nat.le_trans (Nat.le_add_right _ _) ih)

theorem mono (ascending : Ascending low high ranges) {low' high' : Nat} (earlier : low' ≤ low)
    (later : high ≤ high') : Ascending low' high' ranges := by
  induction ascending generalizing low' with
  | nil ordered => exact .nil (Nat.le_trans earlier (Nat.le_trans ordered later))
  | cons start _ ih => exact .cons (Nat.le_trans earlier start) (ih (Nat.le_refl _) later)

/-- The lengths add up to no more than there is room for. -/
theorem sum_le (ascending : Ascending low high ranges) :
    low + (ranges.map fun r => r.length).sum ≤ high := by
  induction ascending with
  | nil ordered => exact ordered
  | cons start _ ih =>
    rw [List.map_cons, List.sum_cons]
    omega

theorem snoc {middle : Nat} (ascending : Ascending low middle ranges) (start : middle ≤ r.offset)
    (inside : r.offset + r.length ≤ high) :
    Ascending low high (ranges ++ [r]) := by
  induction ascending with
  | nil ordered => exact .cons (Nat.le_trans ordered start) (.nil inside)
  | cons first _ ih => exact .cons first (ih start)

theorem snoc_inv (ascending : Ascending low high (ranges ++ [r])) :
    ∃ middle, Ascending low middle ranges ∧ middle ≤ r.offset ∧ r.offset + r.length ≤ high := by
  induction ranges generalizing low with
  | nil =>
    cases ascending with
    | cons start behind => exact ⟨low, .nil (Nat.le_refl _), start, behind.le⟩
  | cons first rest ih =>
    cases ascending with
    | cons start behind =>
      obtain ⟨middle, hrest, hstart, hinside⟩ := ih behind
      exact ⟨middle, .cons start hrest, hstart, hinside⟩

section

variable (ascending : Ascending low high ranges)
include ascending

theorem named (name : Names ranges p) : low ≤ p ∧ p < high := by
  induction ascending with
  | nil =>
    obtain ⟨r, member, _⟩ := name
    cases member
  | cons start behind ih =>
    obtain ⟨r, member, habove, hbelow⟩ := name
    have hend := behind.le
    rcases List.mem_cons.mp member with rfl | hrest
    · exact ⟨Nat.le_trans start habove, Nat.lt_of_lt_of_le hbelow hend⟩
    · obtain ⟨hlow, hhigh⟩ := ih ⟨r, hrest, habove, hbelow⟩
      exact ⟨by omega, hhigh⟩

/-- The same ranges counted from a later origin. -/
theorem shift {base : Nat} (behind : base ≤ low) :
    Ascending (low - base) (high - base)
      (ranges.map fun r => { r with offset := r.offset - base }) := by
  induction ascending with
  | nil ordered => exact .nil (Nat.sub_le_sub_right ordered base)
  | @cons low high r ranges start _ ih =>
    have hoffset : base ≤ r.offset := Nat.le_trans behind start
    refine .cons (Nat.sub_le_sub_right start base) ?_
    have hrest := ih (Nat.le_trans hoffset (Nat.le_add_right _ _))
    rw [Nat.sub_add_comm hoffset] at hrest
    exact hrest

theorem low_le_offset (member : r ∈ ranges) : low ≤ r.offset := by
  induction ascending with
  | nil => cases member
  | cons start _ ih =>
    rcases List.mem_cons.mp member with rfl | hrest
    · exact start
    · exact Nat.le_trans start (Nat.le_trans (Nat.le_add_right _ _) (ih hrest))

end

/-- Merging asks for more bytes, never for fewer. -/
theorem mergeBelow {bound : Nat} {back : ResumeRange}
    (ascending : Ascending low high (back :: ranges)) :
    Ascending low high (mergeBelow bound back ranges) ∧
      Widens (back :: ranges) (Transfer.mergeBelow bound back ranges) := by
  induction ranges generalizing low back with
  | nil => exact ⟨ascending, .refl _⟩
  | cons cur rest ih =>
    cases ascending with
    | cons start behind =>
      cases behind with
      | cons next onward =>
        rw [Transfer.mergeBelow]
        split
        · have hlength : back.offset + (cur.offset + cur.length - back.offset) =
              cur.offset + cur.length := by omega
          have hjoined : Ascending low high
              ({ back with length := cur.offset + cur.length - back.offset } :: rest) :=
            .cons start (hlength.symm ▸ onward)
          obtain ⟨hasc, hwidens⟩ := ih hjoined
          exact ⟨hasc, (Widens.join rest next).trans hwidens⟩
        · obtain ⟨hasc, hwidens⟩ := ih (.cons next onward)
          exact ⟨.cons start hasc, hwidens.cons back⟩

theorem coarsenFrom (limit fuel : Nat) (ascending : Ascending low high ranges) :
    Ascending low high (coarsenFrom limit fuel ranges) ∧
      Widens ranges (Transfer.coarsenFrom limit fuel ranges) := by
  induction fuel generalizing ranges with
  | zero => exact ⟨ascending, .refl _⟩
  | succ fuel ih =>
    cases ranges with
    | nil => exact ⟨ascending, .refl _⟩
    | cons first rest =>
      rw [Transfer.coarsenFrom]
      split
      · obtain ⟨hmerged, hwidens⟩ := ascending.mergeBelow
        obtain ⟨hasc, hmore⟩ := ih hmerged
        exact ⟨hasc, hwidens.trans hmore⟩
      · exact ⟨ascending, .refl _⟩

/-- The coarsened list still names everything, in order. -/
theorem coarsenRanges (ascending : Ascending low high ranges) (limit : Nat) :
    Ascending low high (coarsenRanges ranges limit) ∧
      Widens ranges (Transfer.coarsenRanges ranges limit) :=
  ascending.coarsenFrom limit ranges.length

theorem pairwise (ascending : Ascending low high ranges) :
    ranges.Pairwise fun a b => a.offset + a.length ≤ b.offset := by
  induction ascending with
  | nil => exact List.Pairwise.nil
  | cons _ behind ih => exact List.Pairwise.cons (fun b member => behind.low_le_offset member) ih

theorem rangesHold (ascending : Ascending low high ranges) :
    rangesHold high low ranges = true := by
  induction ascending with
  | nil => rfl
  | @cons low high r rest start behind ih =>
    have hend := behind.le
    rw [Transfer.rangesHold, if_neg (by omega)]
    exact ih

/-- A list that is in order and has no empty parts is sent as it is. -/
theorem rangesToSend (ascending : Ascending 0 high ranges) (positive : Positive ranges)
    {lists : List (List ResumeRange)} (whole : lists.flatten = ranges) :
    rangesToSend high lists = ranges := by
  have hkept : ranges.filter (fun r => r.length ≠ 0) = ranges :=
    List.filter_eq_self.mpr fun r member => decide_eq_true (Nat.ne_of_gt (positive r member))
  have hsorted : ranges.Pairwise fun a b => a.offset ≤ b.offset :=
    ascending.pairwise.imp fun ordered => Nat.le_trans (Nat.le_add_right _ _) ordered
  unfold Transfer.rangesToSend
  rw [whole, hkept, List.Pairwise.insertionSort_eq hsorted]
  exact if_pos ascending.rangesHold

end Ascending

end FuseTransport.Transfer
