import FuseTransport.Foundation.Largest
import FuseTransport.Proto.NackPass
import FuseTransport.Proto.SeqSet

/-!
# Which gaps are reported

A gap is a number that was passed over: a higher one has been accepted and it has not.  A
lossless stream reports a gap once it has been one for long enough, and again only after
a while.  The stream keeps the times in two arrays indexed by the number modulo
`kMaxWindow`; here the calls themselves say what they are.
-/

namespace FuseTransport.Proto

open Foundation Foundation.Runs

/-- A stream with the time of the last call, the numbers it has accepted and those it has
reported, each with the time of the call.  The code does not keep the two lists. -/
structure Watch where
  stream : ReceiverStream
  clock : Nat := 0
  accepted : List (Nat × Nat) := []
  reported : List (Nat × Nat) := []

namespace Watch

variable (w : Watch)

/-- A positive clock that does not run backwards and fits its word. -/
def Timely (nowNs : Nat) : Prop := w.clock ≤ nowNs ∧ 0 < nowNs ∧ nowNs < 2 ^ 64

instance  (nowNs : Nat) : Decidable (w.Timely nowNs) :=
  inferInstanceAs (Decidable (_ ∧ _ ∧ _))

def accept (seqNo nowNs : Nat) : Watch :=
  { w with accepted := w.accepted ++ [(seqNo, nowNs)] }

def report (seqs : List Nat) (nowNs : Nat) : Watch :=
  { w with reported := w.reported ++ seqs.map fun s => (s, nowNs) }

def step : ReceiverCall → Option Watch
  | .onReceive seqNo sendTimeNs nowNs =>
    if w.Timely nowNs ∧ seqNo < 2 ^ 64 then
      let out := w.stream.onReceive seqNo sendTimeNs nowNs
      let noted := if out.2 = .accepted then w.accept seqNo nowNs else w
      some { noted with stream := out.1, clock := nowNs }
    else none
  | .collectNacks nowNs reorderDelayNs renackIntervalNs =>
    if w.Timely nowNs then
      let out := w.stream.collectNacks nowNs reorderDelayNs renackIntervalNs
      some { w.report out.2.missing nowNs with stream := out.1, clock := nowNs }
    else none

def watch (streamId windowSize : Nat) (lossless : Bool) : Watch where
  stream := .create streamId windowSize lossless

def Has (s : Nat) : Prop := s ∈ w.accepted.map Prod.fst

instance  (s : Nat) : Decidable (w.Has s) := inferInstanceAs (Decidable (_ ∈ _))

def highest : Nat := (w.accepted.map Prod.fst).foldl max 0

def exposedAt (s : Nat) : Option Nat :=
  (w.accepted.find? fun a => s < a.1).map Prod.snd

def lastReport (s : Nat) : Option Nat :=
  (w.reported.reverse.find? fun a => a.1 = s).map Prod.snd

/-- A gap that has been one for long enough and was not reported lately. -/
def due (nowNs reorderDelayNs renackIntervalNs s : Nat) : Bool :=
  (w.exposedAt s).any (fun t => reorderDelayNs ≤ nowNs - t) &&
    (w.lastReport s).all (fun t => renackIntervalNs ≤ nowNs - t)

/-- The gaps from the base up to the highest number that are due, lowest first. -/
def overdue (nowNs reorderDelayNs renackIntervalNs : Nat) : List Nat :=
  (List.range' w.stream.baseSeqNo (w.highest - w.stream.baseSeqNo)).filter fun s =>
    !decide (w.Has s) && w.due nowNs reorderDelayNs renackIntervalNs s

end Watch

namespace Watch

variable {w : Watch} {s seqNo nowNs : Nat}

theorem has_accept : (w.accept seqNo nowNs).Has s ↔ w.Has s ∨ s = seqNo := by
  simp [Has, accept]

theorem le_highest (has : w.Has s) : s ≤ w.highest := Largest.le_foldl_max_of_mem has 0

theorem has_highest (any : w.accepted ≠ []) : w.Has w.highest := by
  rcases Largest.foldl_max_mem (w.accepted.map Prod.fst) 0 with hnone | hfound
  · obtain ⟨first, rest, hcons⟩ := List.exists_cons_of_ne_nil any
    have hfirst : w.Has first.1 := by simp [Has, hcons]
    have hzero := le_highest hfirst
    have hsame : first.1 = w.highest := Nat.le_antisymm hzero (by
      rw [highest, hnone]
      exact Nat.zero_le _)
    rw [← hsame]
    exact hfirst
  · exact hfound

theorem accepted_ne_nil (has : w.Has s) : w.accepted ≠ [] := by
  rintro hnone
  rw [Has, hnone] at has
  cases has

theorem highest_accept : (w.accept seqNo nowNs).highest = max w.highest seqNo := by
  simp [highest, accept]

theorem exposedAt_accept : (w.accept seqNo nowNs).exposedAt s =
    (w.exposedAt s).or (if s < seqNo then some nowNs else none) := by
  unfold exposedAt accept
  rw [List.find?_append]
  cases w.accepted.find? fun a => decide (s < a.1) with
  | some a => rfl
  | none =>
    by_cases hpassed : s < seqNo <;> simp [hpassed]

/-- A number is exposed exactly when it is below the highest one. -/
theorem exposedAt_eq_none : w.exposedAt s = none ↔ w.accepted = [] ∨ w.highest ≤ s := by
  rw [exposedAt, Option.map_eq_none_iff, List.find?_eq_none]
  simp only [decide_eq_true_eq, Nat.not_lt]
  constructor
  · intro all
    by_cases hany : w.accepted = []
    · exact Or.inl hany
    · obtain ⟨a, member, hhighest⟩ := List.mem_map.mp (has_highest hany)
      exact Or.inr (hhighest ▸ all a member)
  · rintro (hnone | hle) a member
    · rw [hnone] at member
      cases member
    · exact Nat.le_trans (le_highest (List.mem_map_of_mem member)) hle

theorem lastReport_report (seqs : List Nat) :
    (w.report seqs nowNs).lastReport s = if s ∈ seqs then some nowNs else w.lastReport s := by
  unfold lastReport report
  rw [List.reverse_append, List.find?_append]
  by_cases hthis : s ∈ seqs
  · have hmember : (s, nowNs) ∈ (seqs.map fun s => (s, nowNs)).reverse :=
      List.mem_reverse.mpr (List.mem_map_of_mem hthis)
    obtain ⟨a, hfound⟩ := Option.isSome_iff_exists.mp
      (List.find?_isSome (p := fun a => decide (a.1 = s)) |>.mpr ⟨_, hmember, decide_eq_true rfl⟩)
    obtain ⟨t, _, rfl⟩ := List.mem_map.mp (List.mem_reverse.mp (List.mem_of_find?_eq_some hfound))
    rw [if_pos hthis, hfound]
    rfl
  · have hnone : (seqs.map fun s => (s, nowNs)).reverse.find? (fun a => decide (a.1 = s)) =
        none := by
      rw [List.find?_eq_none]
      intro a member
      obtain ⟨t, ht, rfl⟩ := List.mem_map.mp (List.mem_reverse.mp member)
      rw [decide_eq_true_eq]
      rintro rfl
      exact hthis ht
    rw [if_neg hthis, hnone]
    rfl

end Watch

/-! ## The timers tell the calls -/

open ReceiverStream

/-- A stream whose arrays agree with the lists from number `b` on.  `b` is the base as it
would be without the end of the word. -/
structure Tracks (w : Watch) (b : Nat) (r : ReceiverStream) : Prop where
  base : r.baseSeqNo = u64 b
  base_le : b ≤ 2 ^ 64
  below : ∀ s < b, w.Has s
  ring : ∀ s, b ≤ s → s < b + kMaxWindow → (r.ringTest s = true ↔ w.Has s)
  inside : ∀ s, w.Has s → s < b + r.windowSize ∧ s < 2 ^ 64
  highest : r.highestReceived = w.highest
  any : r.haveAny = true ↔ w.accepted ≠ []
  first : ∀ s, b ≤ s → s < b + kMaxWindow → ¬ w.Has s →
    r.firstMissingNs (slot s) = (w.exposedAt s).getD 0
  last : ∀ s, b ≤ s → s < b + kMaxWindow → ¬ w.Has s →
    r.lastNackNs (slot s) = (w.lastReport s).getD 0

/-- All numbers of the word have been accepted: nothing is a gap any more. -/
structure Wrapped (w : Watch) (r : ReceiverStream) : Prop where
  all : ∀ s < 2 ^ 64, w.Has s
  inside : ∀ s, w.Has s → s < 2 ^ 64
  highest : r.highestReceived = 2 ^ 64 - 1
  any : r.haveAny = true
  cleared : ∀ i < kMaxWindow, r.firstMissingNs i = 0

/-- The times of the lists are in the past, and what was reported had been passed over. -/
structure Dated (w : Watch) : Prop where
  accepted : ∀ a ∈ w.accepted, 0 < a.2 ∧ a.2 ≤ w.clock
  reported : ∀ a ∈ w.reported, 0 < a.2 ∧ a.2 ≤ w.clock
  passed : ∀ a ∈ w.reported, a.1 < w.highest

variable {s : Nat}

theorem Dated.lastReport_eq_none {w : Watch} (dated : Dated w) (above : w.highest ≤ s) :
    w.lastReport s = none := by
  rw [Watch.lastReport, Option.map_eq_none_iff, List.find?_eq_none]
  intro a member
  have hpassed := dated.passed a (List.mem_reverse.mp member)
  rw [decide_eq_true_eq]
  omega

namespace Tracks

variable {w : Watch} {b : Nat} {r : ReceiverStream}

/-- The base passes a block that has arrived, and its ring position is ready for the number
that takes it next. -/
theorem passBase (dated : Dated w) (tracks : Tracks w b r) (arrived : r.ringTest r.baseSeqNo = true) :
    Tracks w (b + 1) r.passBase := by
  have hsize := r.window_le
  have hslot : slot r.baseSeqNo = slot b := by rw [tracks.base, slot_u64]
  have hhere : w.Has b := by
    refine (tracks.ring b (Nat.le_refl _) (Nat.lt_add_of_pos_right (by decide))).mp ?_
    unfold ringTest at arrived ⊢
    rwa [hslot] at arrived
  have hend := (tracks.inside b hhere).2
  -- The number that takes the position next is beyond all that was accepted or reported.
  have hbeyond : ∀ s, w.Has s → s < b + kMaxWindow := fun s has => by
    have hinside := (tracks.inside s has).1
    omega
  have hhighest : w.highest < b + kMaxWindow :=
    hbeyond _ (Watch.has_highest (Watch.accepted_ne_nil hhere))
  constructor
  case base =>
    change u64 (r.baseSeqNo + 1) = u64 (b + 1)
    rw [tracks.base, u64_add]
  case base_le => omega
  case below =>
    intro s hlt
    rcases Nat.lt_or_eq_of_le (Nat.le_of_lt_succ hlt) with hbefore | heq
    · exact tracks.below s hbefore
    · rw [heq]
      exact hhere
  case ring =>
    intro s habove hbelow
    rw [ringTest_passBase, hslot]
    rcases slot_moved_up habove hbelow with ⟨hlt, hother⟩ | ⟨heq, hsame⟩
    · rw [decide_eq_true hother]
      exact tracks.ring s (by omega) hlt
    · rw [decide_eq_false (not_not.mpr hsame), Bool.false_and]
      refine iff_of_false (by decide) fun has => ?_
      have hlt := hbeyond s has
      omega
  case inside =>
    intro s has
    obtain ⟨hwindow, hword⟩ := tracks.inside s has
    refine ⟨?_, hword⟩
    change s < b + 1 + r.windowSize
    omega
  case highest => exact tracks.highest
  case any => exact tracks.any
  case first =>
    intro s habove hbelow missing
    change Function.update r.firstMissingNs (slot r.baseSeqNo) 0 (slot s) = _
    rw [hslot]
    rcases slot_moved_up habove hbelow with ⟨hlt, hother⟩ | ⟨heq, hsame⟩
    · rw [Function.update_of_ne hother]
      exact tracks.first s (by omega) hlt missing
    · rw [hsame, Function.update_self, Watch.exposedAt_eq_none.mpr (Or.inr (by omega))]
      rfl
  case last =>
    intro s habove hbelow missing
    change Function.update r.lastNackNs (slot r.baseSeqNo) 0 (slot s) = _
    rw [hslot]
    rcases slot_moved_up habove hbelow with ⟨hlt, hother⟩ | ⟨heq, hsame⟩
    · rw [Function.update_of_ne hother]
      exact tracks.last s (by omega) hlt missing
    · rw [hsame, Function.update_self, dated.lastReport_eq_none (by omega)]
      rfl

theorem slideBase (dated : Dated w) (fuel : Nat) (tracks : Tracks w b r) :
    ∃ after, Tracks w after (slideBase fuel r) := by
  induction fuel generalizing b r with
  | zero => exact ⟨b, tracks⟩
  | succ fuel ih =>
    rw [ReceiverStream.slideBase]
    split
    · rename_i arrived
      exact ih (tracks.passBase dated arrived)
    · exact ⟨b, tracks⟩

end Tracks

variable {nowNs : Nat}

/-- Stamping touches the given gaps, and only those that have no time yet. -/
theorem foldl_stamp {low : Nat} {gaps : List Nat} {stamps : Nat → Nat}
    (inside : ∀ g ∈ gaps, low ≤ g ∧ g < low + kMaxWindow) (above : low ≤ s)
    (below : s < low + kMaxWindow) :
    gaps.foldl (fun stamps gap =>
        if stamps (slot gap) = 0 then Function.update stamps (slot gap) nowNs else stamps) stamps
        (slot s) =
      if s ∈ gaps ∧ stamps (slot s) = 0 then nowNs else stamps (slot s) := by
  induction gaps generalizing stamps with
  | nil => simp
  | cons g rest ih =>
    have hrest := fun t member => inside t (List.mem_cons_of_mem g member)
    obtain ⟨hgAbove, hgBelow⟩ := inside g List.mem_cons_self
    rw [List.foldl_cons, ih hrest]
    simp only [List.mem_cons]
    by_cases hsame : s = g
    · subst hsame
      by_cases hunset : stamps (slot s) = 0 <;> simp [hunset]
    · have hplace : slot s ≠ slot g := fun same =>
        hsame (slot_injective above below hgAbove hgBelow same)
      have hkept : (if stamps (slot g) = 0 then Function.update stamps (slot g) nowNs else stamps)
          (slot s) = stamps (slot s) := by
        split
        · exact Function.update_of_ne hplace _ _
        · rfl
      rw [hkept]
      simp only [hsame, false_or]

namespace ReceiverStream

@[simp]
theorem record_lossless (r : ReceiverStream) (seqNo sendTimeNs nowNs : Nat) :
    (r.record seqNo sendTimeNs nowNs).lossless = r.lossless := by
  unfold record
  split <;> rfl

/-- The fields of a recorded arrival that the ring does not hold. -/
theorem record_fields (r : ReceiverStream) (seqNo sendTimeNs nowNs : Nat) :
    (r.record seqNo sendTimeNs nowNs).haveAny = true ∧
    (r.record seqNo sendTimeNs nowNs).lastNackNs = r.lastNackNs ∧
    (r.record seqNo sendTimeNs nowNs).highestReceived =
      (if r.haveAny = false ∨ seqNo > r.highestReceived then seqNo else r.highestReceived) ∧
    (r.record seqNo sendTimeNs nowNs).firstMissingNs =
      (if r.haveAny = false ∨ seqNo > r.highestReceived then
        stampGaps r.firstMissingNs
          (max (if r.haveAny then r.highestReceived + 1 else r.baseSeqNo) r.baseSeqNo) seqNo nowNs
      else r.firstMissingNs) := by
  unfold record
  split <;> exact ⟨rfl, rfl, rfl, rfl⟩

end ReceiverStream

variable {seqNo : Nat}

namespace Tracks

variable {w : Watch} {b : Nat} {r : ReceiverStream}

theorem stampGaps_inside (tracks : Tracks w b r) (low : b < 2 ^ 64) {first : Nat}
    (inside : seqNo < b + r.windowSize) :
    ∀ g ∈ List.range' (max first r.baseSeqNo) (seqNo - max first r.baseSeqNo),
      b ≤ g ∧ g < b + kMaxWindow := by
  intro g member
  have hmember := List.mem_range'_1.mp member
  have hbase : r.baseSeqNo = b := tracks.base.trans (u64_of_lt low)
  have hsize := r.window_le
  omega

/-- The numbers between the old highest one and the new are stamped, and those only. -/
theorem first_record (tracks : Tracks w b r) (low : b < 2 ^ 64)
    (inside : seqNo < b + r.windowSize) (sendTimeNs : Nat) (above : b ≤ s)
    (below : s < b + kMaxWindow) (missing : ¬ w.Has s) :
    (r.record seqNo sendTimeNs nowNs).firstMissingNs (slot s) =
      ((w.accept seqNo nowNs).exposedAt s).getD 0 := by
  have hbase : r.baseSeqNo = b := tracks.base.trans (u64_of_lt low)
  have hbefore := tracks.first s above below missing
  have hnone : w.accepted = [] ↔ r.haveAny = false := by
    rw [← Bool.not_eq_true, tracks.any, not_not]
  have hnever : w.exposedAt s = none ↔ r.haveAny = false ∨ r.highestReceived ≤ s := by
    rw [Watch.exposedAt_eq_none, tracks.highest, hnone]
  have hother : r.haveAny = true → r.highestReceived ≠ s := by
    rintro hany rfl
    rw [tracks.highest] at missing
    exact missing (Watch.has_highest (tracks.any.mp hany))
  rw [(r.record_fields seqNo sendTimeNs nowNs).2.2.2, Watch.exposedAt_accept]
  cases hexposed : w.exposedAt s with
  | none =>
    rw [hexposed] at hbefore
    have hpassed := hnever.mp hexposed
    split
    · have hfrom : max (if r.haveAny then r.highestReceived + 1 else r.baseSeqNo) r.baseSeqNo ≤
          s := by
        cases hany : r.haveAny with
        | true =>
          have hne := hother hany
          rw [hany] at hpassed
          simp only [Bool.true_eq_false, false_or] at hpassed
          simp only [if_true]
          omega
        | false =>
          simp only [Bool.false_eq_true, if_false]
          omega
      rw [stampGaps, foldl_stamp (stampGaps_inside tracks low inside) above below, hbefore]
      by_cases hbelow : s < seqNo
      · rw [if_pos ⟨List.mem_range'_1.mpr ⟨hfrom, by omega⟩, rfl⟩, if_pos hbelow]
        rfl
      · rw [if_neg hbelow, if_neg fun both => hbelow (by
          have hmember := List.mem_range'_1.mp both.1
          omega)]
        rfl
    · rename_i hlower
      rw [not_or, Bool.not_eq_false] at hlower
      rw [hlower.1] at hpassed
      simp only [Bool.true_eq_false, false_or] at hpassed
      rw [hbefore, if_neg (by omega)]
      rfl
  | some t =>
    rw [hexposed] at hbefore
    have hpassed := mt hnever.mpr (by rw [hexposed]; simp)
    rw [not_or, Bool.not_eq_false] at hpassed
    split
    · rw [stampGaps, foldl_stamp (stampGaps_inside tracks low inside) above below, hbefore,
        if_neg]
      · rfl
      · rintro ⟨member, _⟩
        have hmember := List.mem_range'_1.mp member
        rw [hpassed.1] at hmember
        simp only [if_true] at hmember
        omega
    · rw [hbefore]
      rfl

/-- An arrival in the window that is new to the stream is added to the list. -/
theorem record (tracks : Tracks w b r) (low : b < 2 ^ 64) (above : b ≤ seqNo)
    (inside : seqNo < b + r.windowSize) (fits : seqNo < 2 ^ 64) (sendTimeNs nowNs : Nat) :
    Tracks (w.accept seqNo nowNs) b (r.record seqNo sendTimeNs nowNs) := by
  have hsize := r.window_le
  obtain ⟨hany, hlast, hhighest, _⟩ := r.record_fields seqNo sendTimeNs nowNs
  constructor
  case base => rw [record_baseSeqNo]; exact tracks.base
  case base_le => exact tracks.base_le
  case below => exact fun s hlt => Watch.has_accept.mpr (Or.inl (tracks.below s hlt))
  case ring =>
    intro s hlow hhigh
    rw [ringTest_record, Bool.or_eq_true, decide_eq_true_eq, tracks.ring s hlow hhigh,
      Watch.has_accept, or_comm]
    refine or_congr_right ⟨fun same => ?_, fun same => by rw [same]⟩
    exact slot_injective hlow hhigh above (by omega) same
  case inside =>
    intro s has
    rw [record_windowSize]
    rcases Watch.has_accept.mp has with hold | rfl
    · exact tracks.inside s hold
    · exact ⟨inside, fits⟩
  case highest =>
    rw [hhighest, Watch.highest_accept, ← tracks.highest]
    split
    · rename_i hhigher
      rcases hhigher with hnone | hhigher
      · have hempty : w.accepted = [] :=
          not_not.mp (mt tracks.any.mpr (by rw [hnone]; decide))
        have hzero : w.highest = 0 := by rw [Watch.highest, hempty]; rfl
        rw [tracks.highest, hzero, Nat.zero_max]
      · exact (Nat.max_eq_right (Nat.le_of_lt hhigher)).symm
    · rename_i hlower
      rw [not_or, Nat.not_lt] at hlower
      exact (Nat.max_eq_left hlower.2).symm
  case any =>
    exact iff_of_true hany (Watch.accepted_ne_nil (Watch.has_accept.mpr (Or.inr rfl)))
  case first =>
    intro s hlow hhigh missing
    exact tracks.first_record low inside sendTimeNs hlow hhigh
      fun has => missing (Watch.has_accept.mpr (Or.inl has))
  case last =>
    intro s hlow hhigh missing
    rw [hlast]
    exact tracks.last s hlow hhigh fun has => missing (Watch.has_accept.mpr (Or.inl has))

/-- A base at the end of the word has passed every number. -/
theorem wrapped (tracks : Tracks w (2 ^ 64) r) : Wrapped w r := by
  have hend : w.Has (2 ^ 64 - 1) := tracks.below _ (by decide)
  have hsome := Watch.accepted_ne_nil hend
  have hle := Watch.le_highest hend
  have hlt := (tracks.inside _ (Watch.has_highest hsome)).2
  refine ⟨tracks.below, fun s has => (tracks.inside s has).2, ?_, tracks.any.mpr hsome, ?_⟩
  · rw [tracks.highest]
    omega
  · intro i hi
    have hslot : slot (2 ^ 64 + i) = i := by
      unfold slot kMaxWindow at *
      omega
    have hbefore := tracks.first (2 ^ 64 + i) (by omega) (by omega) fun has => by
      have hinside := (tracks.inside _ has).2
      omega
    rw [hslot, Watch.exposedAt_eq_none.mpr (Or.inr (by omega))] at hbefore
    exact hbefore

/-- Up to the end of the word the base tells where the stream is. -/
theorem either (tracks : Tracks w b r) : (∃ b < 2 ^ 64, Tracks w b r) ∨ Wrapped w r := by
  rcases Nat.lt_or_eq_of_le tracks.base_le with hlow | hend
  · exact Or.inl ⟨b, hlow, tracks⟩
  · exact Or.inr (hend ▸ tracks).wrapped

end Tracks

/-! ## Reports -/

section Reports

variable {w : Watch} {b : Nat} {r : ReceiverStream} {nowNs : Nat}

theorem Dated.exposedAt (dated : Dated w) {t : Nat} (exposed : w.exposedAt s = some t) :
    0 < t ∧ t ≤ w.clock := by
  obtain ⟨a, hfound, rfl⟩ := Option.map_eq_some_iff.mp exposed
  exact dated.accepted a (List.mem_of_find?_eq_some hfound)

theorem Dated.lastReport (dated : Dated w) {t : Nat} (reported : w.lastReport s = some t) :
    0 < t ∧ t ≤ w.clock := by
  obtain ⟨a, hfound, rfl⟩ := Option.map_eq_some_iff.mp reported
  exact dated.reported a (List.mem_reverse.mp (List.mem_of_find?_eq_some hfound))

/-- The stream's check of a gap reads the times of the calls. -/
theorem Tracks.reportable_iff (tracks : Tracks w b r) (dated : Dated w) (timely : w.Timely nowNs)
    (reorderDelayNs renackIntervalNs : Nat) (above : b ≤ s) (below : s < b + kMaxWindow)
    (missing : ¬ w.Has s) :
    r.Reportable nowNs reorderDelayNs renackIntervalNs s ↔
      w.due nowNs reorderDelayNs renackIntervalNs s = true := by
  obtain ⟨hclock, _, hfits⟩ := timely
  unfold Reportable Watch.due
  rw [tracks.first s above below missing, tracks.last s above below missing, Bool.and_eq_true]
  refine and_congr ?_ ?_
  · cases hexposed : w.exposedAt s with
    | none => simp
    | some t =>
      obtain ⟨hpos, hpast⟩ := dated.exposedAt hexposed
      rw [Option.getD_some, u64Sub_of_le (by omega) hfits]
      simp only [Option.any_some, decide_eq_true_eq]
      omega
  · cases hreported : w.lastReport s with
    | none => simp
    | some t =>
      obtain ⟨hpos, hpast⟩ := dated.lastReport hreported
      rw [Option.getD_some, u64Sub_of_le (by omega) hfits]
      simp only [Option.all_some, decide_eq_true_eq]
      omega

theorem Tracks.unset (tracks : Tracks w b r) (low : b < 2 ^ 64) (any : r.haveAny = true)
    (reached : r.baseSeqNo ≤ r.highestReceived) :
    r.unset = (List.range' b (w.highest - b)).filter fun s => !decide (w.Has s) := by
  have hsize := r.window_le
  have hbase : r.baseSeqNo = b := tracks.base.trans (u64_of_lt low)
  have hhas := Watch.has_highest (tracks.any.mp any)
  have hend := (tracks.inside _ hhas).1
  refine r.unset_sorted.eq_of_mem_iff (List.Pairwise.filter _ List.pairwise_lt_range') fun s => ?_
  rw [r.mem_unset, List.mem_filter, List.mem_range'_1, hbase, tracks.highest, Bool.not_eq_true',
    decide_eq_false_iff_not]
  rw [tracks.highest] at reached
  constructor
  · rintro ⟨habove, hinside, hspan, hclear⟩
    have hmissing : ¬ w.Has s := by
      intro has
      rw [(tracks.ring s habove (by omega)).mpr has, Bool.and_true, decide_eq_false_iff_not] at hclear
      omega
    have hother : s ≠ w.highest := fun same => hmissing (same ▸ hhas)
    exact ⟨⟨habove, by omega⟩, hmissing⟩
  · rintro ⟨⟨habove, hbelow⟩, hmissing⟩
    have hring : r.ringTest s = false := by
      rw [← Bool.not_eq_true, tracks.ring s habove (by omega)]
      exact hmissing
    refine ⟨habove, by omega, by omega, ?_⟩
    rw [hring, Bool.and_false]

/-- A stream that tracks the calls reports the gaps that are due. -/
theorem Tracks.reports_eq (tracks : Tracks w b r) (low : b < 2 ^ 64) (dated : Dated w)
    (timely : w.Timely nowNs) (active : r.lossless = true) (reorderDelayNs renackIntervalNs : Nat) :
    r.reports nowNs reorderDelayNs renackIntervalNs =
      (List.range' b (w.highest - b)).filter fun s =>
        !decide (w.Has s) && w.due nowNs reorderDelayNs renackIntervalNs s := by
  have hsize := r.window_le
  have hbase : r.baseSeqNo = b := tracks.base.trans (u64_of_lt low)
  unfold reports
  split
  · rename_i hidle
    have hempty : w.highest - b = 0 := by
      rcases hidle with hlossy | hnone | hbehind
      · rw [active] at hlossy
        cases hlossy
      · have hnil : w.accepted = [] := not_not.mp (mt tracks.any.mpr (by rw [hnone]; decide))
        rw [Watch.highest, hnil]
        exact Nat.zero_sub _
      · rw [tracks.highest] at hbehind
        omega
    rw [hempty]
    rfl
  · rename_i hbusy
    rw [not_or, not_or, Bool.not_eq_false, Bool.not_eq_false, Nat.not_lt] at hbusy
    obtain ⟨_, hany, hreached⟩ := hbusy
    have hend := (tracks.inside _ (Watch.has_highest (tracks.any.mp hany))).1
    rw [tracks.unset low hany hreached, List.filter_filter]
    refine List.filter_congr fun s member => ?_
    have hrange := List.mem_range'_1.mp member
    by_cases hhas : w.Has s
    · simp [hhas]
    · have hiff := tracks.reportable_iff dated timely reorderDelayNs renackIntervalNs hrange.1
        (by omega) hhas
      rw [Bool.and_comm]
      congr 1
      rw [Bool.eq_iff_iff, decide_eq_true_eq]
      exact hiff

/-- After the end of the word nothing is stamped any more. -/
theorem Wrapped.reports_eq (wrapped : Wrapped w r) (reorderDelayNs renackIntervalNs : Nat) :
    r.reports nowNs reorderDelayNs renackIntervalNs = [] := by
  unfold reports
  split
  · rfl
  · refine List.filter_eq_nil_iff.mpr fun s _ => ?_
    rw [decide_eq_true_eq]
    exact fun reportable => reportable.1 (Or.inl (wrapped.cleared _ (slot_lt s)))

end Reports

/-! ## Whole runs -/

namespace Wrapped

variable {w : Watch} {r : ReceiverStream}

theorem slideBase (fuel : Nat) (wrapped : Wrapped w r) : Wrapped w (slideBase fuel r) := by
  induction fuel generalizing r with
  | zero => exact wrapped
  | succ fuel ih =>
    rw [ReceiverStream.slideBase]
    split
    · refine ih ⟨wrapped.all, wrapped.inside, wrapped.highest, wrapped.any, fun i hi => ?_⟩
      change Function.update r.firstMissingNs (slot r.baseSeqNo) 0 i = 0
      by_cases hplace : i = slot r.baseSeqNo
      · rw [hplace, Function.update_self]
      · rw [Function.update_of_ne hplace]
        exact wrapped.cleared i hi
    · exact wrapped

theorem record (wrapped : Wrapped w r) (fits : seqNo < 2 ^ 64) (sendTimeNs nowNs : Nat) :
    Wrapped (w.accept seqNo nowNs) (r.record seqNo sendTimeNs nowNs) := by
  obtain ⟨hany, _, hhighest, hfirst⟩ := r.record_fields seqNo sendTimeNs nowNs
  have hlower : ¬ (r.haveAny = false ∨ seqNo > r.highestReceived) := by
    rw [wrapped.any, wrapped.highest]
    simp only [Bool.true_eq_false, false_or]
    omega
  rw [if_neg hlower] at hhighest hfirst
  refine ⟨fun s hs => Watch.has_accept.mpr (Or.inl (wrapped.all s hs)), ?_,
    hhighest.trans wrapped.highest, hany, by rw [hfirst]; exact wrapped.cleared⟩
  intro s has
  rcases Watch.has_accept.mp has with hold | rfl
  · exact wrapped.inside s hold
  · exact fits

end Wrapped

namespace Watch

structure Inv (lossless : Bool) (w : Watch) : Prop where
  dated : Dated w
  lossless : w.stream.lossless = lossless
  tracks : (∃ b < 2 ^ 64, Tracks w b w.stream) ∨ Wrapped w w.stream

variable {w w' : Watch} {lossless : Bool}

theorem watch_inv (streamId windowSize : Nat) (lossless : Bool) :
    (watch streamId windowSize lossless).Inv lossless where
  dated := ⟨by simp [watch], by simp [watch], by simp [watch]⟩
  lossless := rfl
  tracks := by
    have hnone : ∀ s, ¬ (watch streamId windowSize lossless).Has s := by
      intro s has
      cases has
    refine Or.inl ⟨0, by decide, ?_⟩
    constructor
    case base => rfl
    case base_le => decide
    case below => exact fun s below => absurd below (Nat.not_lt_zero s)
    case ring =>
      intro s _ _
      refine iff_of_false ?_ (hnone s)
      change ¬ (0 : BitVec 64).getLsbD _ = true
      simp
    case inside => exact fun s has => absurd has (hnone s)
    case highest => rfl
    case any => exact iff_of_false (by simp [watch, ReceiverStream.create]) (by simp [watch])
    case first => exact fun s _ _ _ => rfl
    case last => exact fun s _ _ _ => rfl

section

variable (holds : w.Inv lossless)
include holds

/-- Between calls only the clock moves on. -/
theorem Inv.refused (timely : w.Timely nowNs) (count : Nat) :
    Inv lossless { w with
      stream := { w.stream with windowOverflowCount := count }, clock := nowNs } where
  dated := by
    refine ⟨fun a member => ?_, fun a member => ?_, holds.dated.passed⟩
    · obtain ⟨hpos, hpast⟩ := holds.dated.accepted a member
      exact ⟨hpos, Nat.le_trans hpast timely.1⟩
    · obtain ⟨hpos, hpast⟩ := holds.dated.reported a member
      exact ⟨hpos, Nat.le_trans hpast timely.1⟩
  lossless := holds.lossless
  tracks := by
    rcases holds.tracks with ⟨b, low, tracks⟩ | wrapped
    · exact Or.inl ⟨b, low, tracks.base, tracks.base_le, tracks.below, tracks.ring, tracks.inside,
        tracks.highest, tracks.any, tracks.first, tracks.last⟩
    · exact Or.inr ⟨wrapped.all, wrapped.inside, wrapped.highest, wrapped.any, wrapped.cleared⟩

theorem Inv.accepted {sendTimeNs : Nat} (timely : w.Timely nowNs) (fits : seqNo < 2 ^ 64)
    {after : ReceiverStream}
    (taken : w.stream.onReceive seqNo sendTimeNs nowNs = (after, .accepted)) :
    Inv lossless { w.accept seqNo nowNs with stream := after, clock := nowNs } := by
  have hafter := onReceive_of_accepted taken
  have hfresh := (onReceive_accepted_iff w.stream seqNo sendTimeNs nowNs).mp (by rw [taken])
  simp only [ReceiverStream.fresh, Bool.and_eq_true, decide_eq_true_eq] at hfresh
  have hdated : Dated { w.accept seqNo nowNs with stream := after, clock := nowNs } := by
    refine ⟨fun a member => ?_, fun a member => ?_, fun a member => ?_⟩
    · rcases List.mem_append.mp member with hold | hnew
      · obtain ⟨hpos, hpast⟩ := holds.dated.accepted a hold
        exact ⟨hpos, Nat.le_trans hpast timely.1⟩
      · rw [List.mem_singleton.mp hnew]
        exact ⟨timely.2.1, Nat.le_refl _⟩
    · obtain ⟨hpos, hpast⟩ := holds.dated.reported a member
      exact ⟨hpos, Nat.le_trans hpast timely.1⟩
    · have hpassed := holds.dated.passed a member
      change a.1 < (w.accept seqNo nowNs).highest
      rw [highest_accept]
      omega
  refine ⟨hdated, ?_, ?_⟩
  · obtain ⟨_, _, _, _, hframe⟩ :=
      slideBase_frame kMaxWindow (w.stream.record seqNo sendTimeNs nowNs)
    rw [hafter, hframe]
    rw [record_lossless]
    exact holds.lossless
  · rcases holds.tracks with ⟨b, low, tracks⟩ | wrapped
    · have hbase : w.stream.baseSeqNo = b := tracks.base.trans (u64_of_lt low)
      rw [hbase] at hfresh
      have hrecord := tracks.record low hfresh.1.1 hfresh.1.2 fits sendTimeNs nowNs
      have hnoted : Tracks { w.accept seqNo nowNs with stream := after, clock := nowNs } b
          (w.stream.record seqNo sendTimeNs nowNs) :=
        ⟨hrecord.base, hrecord.base_le, hrecord.below, hrecord.ring, hrecord.inside,
          hrecord.highest, hrecord.any, hrecord.first, hrecord.last⟩
      obtain ⟨b', hslid⟩ := hnoted.slideBase hdated kMaxWindow
      rw [← hafter] at hslid
      exact hslid.either
    · have hslid := (wrapped.record fits sendTimeNs nowNs).slideBase kMaxWindow
      rw [← hafter] at hslid
      exact Or.inr ⟨hslid.all, hslid.inside, hslid.highest, hslid.any, hslid.cleared⟩

/-- What a pass reports, in terms of the calls. -/
theorem Inv.reports_eq (timely : w.Timely nowNs) (reorderDelayNs renackIntervalNs : Nat) :
    w.stream.reports nowNs reorderDelayNs renackIntervalNs =
      if lossless then w.overdue nowNs reorderDelayNs renackIntervalNs else [] := by
  split
  · rename_i hactive
    rcases holds.tracks with ⟨b, low, tracks⟩ | wrapped
    · rw [tracks.reports_eq low holds.dated timely (holds.lossless.trans hactive), overdue,
        tracks.base.trans (u64_of_lt low)]
    · rw [wrapped.reports_eq]
      refine (List.filter_eq_nil_iff.mpr fun s member => ?_).symm
      have hlt : s < 2 ^ 64 := by
        have hrange := List.mem_range'_1.mp member
        have hend := wrapped.inside _ (has_highest (accepted_ne_nil (wrapped.all 0 (by decide))))
        omega
      simp [wrapped.all s hlt]
  · rename_i hlossy
    rw [reports, if_pos (Or.inl (holds.lossless.trans (Bool.eq_false_iff.mpr hlossy)))]

theorem Inv.collected (timely : w.Timely nowNs) (reorderDelayNs renackIntervalNs : Nat) :
    Inv lossless { w.report (w.stream.reports nowNs reorderDelayNs renackIntervalNs) nowNs with
      stream := { w.stream with lastNackNs := fun j =>
        if j ∈ (w.stream.reports nowNs reorderDelayNs renackIntervalNs).map slot then nowNs
        else w.stream.lastNackNs j }
      clock := nowNs } := by
  have hreports := holds.reports_eq timely reorderDelayNs renackIntervalNs
  refine ⟨⟨fun a member => ?_, fun a member => ?_, fun a member => ?_⟩, holds.lossless, ?_⟩
  · obtain ⟨hpos, hpast⟩ := holds.dated.accepted a member
    exact ⟨hpos, Nat.le_trans hpast timely.1⟩
  · rcases List.mem_append.mp member with hold | hnew
    · obtain ⟨hpos, hpast⟩ := holds.dated.reported a hold
      exact ⟨hpos, Nat.le_trans hpast timely.1⟩
    · obtain ⟨s, _, rfl⟩ := List.mem_map.mp hnew
      exact ⟨timely.2.1, Nat.le_refl _⟩
  · rcases List.mem_append.mp member with hold | hnew
    · exact holds.dated.passed a hold
    · obtain ⟨s, hs, rfl⟩ := List.mem_map.mp hnew
      rw [hreports] at hs
      split at hs
      · have hrange := List.mem_range'_1.mp (List.mem_filter.mp hs).1
        change s < w.highest
        omega
      · cases hs
  · rcases holds.tracks with ⟨b, low, tracks⟩ | wrapped
    · refine Or.inl ⟨b, low, ⟨tracks.base, tracks.base_le, tracks.below, tracks.ring, tracks.inside,
        tracks.highest, tracks.any, tracks.first, ?_⟩⟩
      intro s above below missing
      have hbase : w.stream.baseSeqNo = b := tracks.base.trans (u64_of_lt low)
      have hplace : slot s ∈ (w.stream.reports nowNs reorderDelayNs renackIntervalNs).map slot ↔
          s ∈ w.stream.reports nowNs reorderDelayNs renackIntervalNs := by
        refine ⟨fun member => ?_, List.mem_map_of_mem⟩
        obtain ⟨t, ht, hsame⟩ := List.mem_map.mp member
        obtain ⟨htAbove, htInside, _⟩ := (w.stream.mem_unset t).mp (mem_unset_of_mem_reports ht)
        rw [hbase] at htAbove htInside
        exact slot_injective htAbove (by omega) above below hsame ▸ ht
      change (if slot s ∈ _ then nowNs else w.stream.lastNackNs (slot s)) =
        ((w.report _ nowNs).lastReport s).getD 0
      rw [lastReport_report, if_congr hplace rfl rfl, tracks.last s above below missing]
      split <;> rfl
    · exact Or.inr ⟨wrapped.all, wrapped.inside, wrapped.highest, wrapped.any, wrapped.cleared⟩

theorem Inv.step {call : ReceiverCall} (called : w.step call = some w') : w'.Inv lossless := by
  cases call with
  | onReceive seqNo sendTimeNs nowNs =>
    obtain ⟨hguard, called⟩ := Option.ite_none_right_eq_some.mp called
    rw [← Option.some.inj called]
    by_cases hanswer : (w.stream.onReceive seqNo sendTimeNs nowNs).2 = .accepted
    · rw [if_pos hanswer]
      exact holds.accepted hguard.1 hguard.2 (Prod.ext rfl hanswer)
    · obtain ⟨count, hcount⟩ := onReceive_refused hanswer
      rw [if_neg hanswer, hcount]
      exact holds.refused hguard.1 count
  | collectNacks nowNs reorderDelayNs renackIntervalNs =>
    obtain ⟨htimely, called⟩ := Option.ite_none_right_eq_some.mp called
    rw [← Option.some.inj called, collectNacks_eq]
    exact holds.collected htimely reorderDelayNs renackIntervalNs

end

end Watch

/-- In every run with a positive clock that does not run backwards, a lossless stream reports
exactly the gaps that are due, lowest first, and another stream reports none. -/
theorem nacks_exact {streamId windowSize : Nat} {lossless : Bool} {w : Watch}
    (reached : Reachable Watch.step (Watch.watch streamId windowSize lossless) w) {nowNs : Nat}
    (timely : w.Timely nowNs) (reorderDelayNs renackIntervalNs : Nat) :
    (w.stream.collectNacks nowNs reorderDelayNs renackIntervalNs).2.missing =
      if lossless then w.overdue nowNs reorderDelayNs renackIntervalNs else [] := by
  have holds : w.Inv lossless :=
    reached.invariant (fun _ _ _ before called => Watch.Inv.step before called)
      (Watch.watch_inv streamId windowSize lossless)
  rw [ReceiverStream.collectNacks_eq]
  exact holds.reports_eq timely reorderDelayNs renackIntervalNs

/-- Blocks 0, 3 and 5 arrive; at 20 the gaps below 3 have waited for long enough. -/
def gapCalls : List ReceiverCall := [.onReceive 0 1 1, .onReceive 3 1 5, .onReceive 5 1 15]

theorem nacks_exact_gapCalls :
    ∃ w, replay Watch.step (Watch.watch 0 64 true) gapCalls = some w ∧
      w.overdue 20 10 50 = [1, 2] ∧ (w.stream.collectNacks 20 10 50).2.missing = [1, 2] := by
  obtain ⟨w, hreplay, htimely, hoverdue⟩ : ∃ w,
      replay Watch.step (Watch.watch 0 64 true) gapCalls = some w ∧ w.Timely 20 ∧
        w.overdue 20 10 50 = [1, 2] := by decide +kernel
  refine ⟨w, hreplay, hoverdue, ?_⟩
  rw [nacks_exact ⟨_, hreplay⟩ htimely, if_pos rfl, hoverdue]

end FuseTransport.Proto
