import Mathlib.Data.List.Sort
import FuseTransport.Proto.Receiver

/-!
# One pass over the gaps

Collecting the gaps walks the unset bits of the window word by word and checks each
against two arrays of times, which it changes as it goes.  The pass is a filter of the
unset positions: no two of them share a place in the arrays, and there are never more of
them than the report has room for.
-/

namespace FuseTransport.Proto

open Foundation Foundation.SetBits

namespace ReceiverStream

variable {r : ReceiverStream}

theorem mem_missingInWord (r : ReceiverStream) (span w s : Nat) (reached : 64 * w ≤ span) :
    s ∈ r.missingInWord span w ↔
      ∃ b < 64, s = r.baseSeqNo + 64 * w + b ∧ 64 * w + b ≤ span ∧
        (decide (64 * w + b < r.windowSize) && r.ringTest s) = false := by
  unfold missingInWord
  rw [List.mem_map]
  constructor
  · rintro ⟨b, hset, rfl⟩
    rw [mem_setBits_iff] at hset
    have hbit : b < 64 := BitVec.lt_of_getLsbD hset
    refine ⟨b, hbit, rfl, ?_⟩
    split at hset
    · rename_i hpartial
      rw [BitVec.getLsbD_and, BitVec.getLsbD_not, getLsbD_relativeWord r w b hbit,
        getLsbD_upTo _ _ hpartial] at hset
      simp only [Bool.and_eq_true, Bool.not_eq_true', decide_eq_true_eq] at hset
      exact ⟨by omega, hset.1.2⟩
    · rw [BitVec.getLsbD_not, getLsbD_relativeWord r w b hbit] at hset
      simp only [Bool.and_eq_true, Bool.not_eq_true'] at hset
      exact ⟨by omega, hset.2⟩
  · rintro ⟨b, hbit, rfl, hspan, hclear⟩
    refine ⟨b, ?_, rfl⟩
    rw [mem_setBits_iff]
    split
    · rename_i hpartial
      rw [BitVec.getLsbD_and, BitVec.getLsbD_not, getLsbD_relativeWord r w b hbit, hclear,
        getLsbD_upTo _ _ hpartial]
      simp only [Bool.and_eq_true, Bool.not_false, decide_eq_true_eq, and_true]
      exact ⟨hbit, by omega⟩
    · rw [BitVec.getLsbD_not, getLsbD_relativeWord r w b hbit, hclear]
      simp [hbit]

/-- The positions from the base up to the highest number that are not set, lowest first. -/
def unset (r : ReceiverStream) : List Nat :=
  ((List.range kMaskWords).takeWhile fun w =>
    decide (w * 64 ≤ r.highestReceived - r.baseSeqNo)).flatMap
      (r.missingInWord (r.highestReceived - r.baseSeqNo))

theorem mem_words {span w : Nat} :
    w ∈ (List.range kMaskWords).takeWhile (fun w => decide (w * 64 ≤ span)) ↔
      w < kMaskWords ∧ 64 * w ≤ span := by
  constructor
  · intro member
    have hspan := List.mem_takeWhile_imp (p := fun w => decide (w * 64 ≤ span)) member
    rw [decide_eq_true_eq] at hspan
    exact ⟨List.mem_range.mp ((List.takeWhile_sublist _).subset member), by omega⟩
  · rintro ⟨hword, hspan⟩
    refine mem_takeWhile_of_sorted List.pairwise_lt_range (List.mem_range.mpr hword) ?_
    intro j _ hle
    rw [decide_eq_true_eq]
    omega

theorem unset_sorted (r : ReceiverStream) : r.unset.Pairwise (· < ·) := by
  unfold unset
  rw [List.pairwise_flatMap]
  constructor
  · intro w _
    refine List.Pairwise.map _ (fun b c hlt => ?_) (setBits_sorted _)
    omega
  · refine (List.pairwise_lt_range.sublist (List.takeWhile_sublist _)).imp_of_mem ?_
    intro w v hw hv hlt s hs t ht
    obtain ⟨b, hb, rfl, _⟩ := (mem_missingInWord r _ w s (mem_words.mp hw).2).mp hs
    obtain ⟨c, hc, rfl, _⟩ := (mem_missingInWord r _ v t (mem_words.mp hv).2).mp ht
    omega

theorem mem_unset (r : ReceiverStream) (s : Nat) :
    s ∈ r.unset ↔ r.baseSeqNo ≤ s ∧ s - r.baseSeqNo < kMaxWindow ∧
      s - r.baseSeqNo ≤ r.highestReceived - r.baseSeqNo ∧
      (decide (s - r.baseSeqNo < r.windowSize) && r.ringTest s) = false := by
  unfold unset
  rw [List.mem_flatMap]
  constructor
  · rintro ⟨w, hw, hs⟩
    obtain ⟨hword, hspan⟩ := mem_words.mp hw
    obtain ⟨b, hb, rfl, hend, hclear⟩ := (mem_missingInWord r _ w s hspan).mp hs
    have hrel : r.baseSeqNo + 64 * w + b - r.baseSeqNo = 64 * w + b := by omega
    rw [hrel]
    unfold kMaskWords kMaxWindow at hword
    refine ⟨by omega, ?_, hend, hclear⟩
    unfold kMaxWindow
    omega
  · rintro ⟨habove, hinside, hend, hclear⟩
    unfold kMaxWindow at hinside
    have hsplit : 64 * ((s - r.baseSeqNo) / 64) + (s - r.baseSeqNo) % 64 = s - r.baseSeqNo :=
      Nat.div_add_mod _ _
    refine ⟨(s - r.baseSeqNo) / 64, mem_words.mpr ⟨?_, by omega⟩, ?_⟩
    · unfold kMaskWords kMaxWindow
      omega
    · refine (mem_missingInWord r _ _ s (by omega)).mpr
        ⟨(s - r.baseSeqNo) % 64, Nat.mod_lt _ (by decide), by omega, by omega, ?_⟩
      rw [hsplit]
      exact hclear

/-! ## One pass over the gaps -/

def Reportable (r : ReceiverStream) (nowNs reorderDelayNs renackIntervalNs s : Nat) : Prop :=
  ¬ (r.firstMissingNs (slot s) = 0 ∨
      u64Sub nowNs (r.firstMissingNs (slot s)) < reorderDelayNs) ∧
    ¬ (r.lastNackNs (slot s) ≠ 0 ∧ u64Sub nowNs (r.lastNackNs (slot s)) < renackIntervalNs)

instance (r : ReceiverStream) (nowNs reorderDelayNs renackIntervalNs s : Nat) :
    Decidable (r.Reportable nowNs reorderDelayNs renackIntervalNs s) :=
  inferInstanceAs (Decidable (_ ∧ _))

theorem collectNack_eq (nowNs reorderDelayNs renackIntervalNs s : Nat) (found : List Nat)
    (room : found.length < kMaxWindow) :
    collectNack nowNs reorderDelayNs renackIntervalNs (r, found) s =
      if r.Reportable nowNs reorderDelayNs renackIntervalNs s then
        ({ r with lastNackNs := Function.update r.lastNackNs (slot s) nowNs }, found ++ [s])
      else (r, found) := by
  unfold collectNack
  dsimp only
  split
  · rename_i hearly
    rw [if_neg fun reportable => reportable.1 hearly]
  · rename_i hlate
    split
    · rename_i hrecent
      rw [if_neg fun reportable => reportable.2 hrecent]
    · rename_i hold
      rw [if_pos ⟨hlate, hold⟩]

/-- Over gaps at different ring positions, each is checked against the times before the
pass. -/
theorem foldl_collectNack (nowNs reorderDelayNs renackIntervalNs : Nat) {seqs : List Nat}
    (found : List Nat) (distinct : (seqs.map slot).Nodup) (room : found.length + seqs.length ≤ kMaxWindow) :
    seqs.foldl (collectNack nowNs reorderDelayNs renackIntervalNs) (r, found) =
      ({ r with lastNackNs := fun j =>
          if j ∈ (seqs.filter (r.Reportable nowNs reorderDelayNs renackIntervalNs ·)).map slot then
            nowNs
          else r.lastNackNs j },
        found ++ seqs.filter (r.Reportable nowNs reorderDelayNs renackIntervalNs ·)) := by
  induction seqs generalizing r found with
  | nil => simp
  | cons s rest ih =>
    rw [List.map_cons, List.nodup_cons] at distinct
    rw [List.length_cons] at room
    rw [List.foldl_cons, collectNack_eq _ _ _ _ _ (by omega)]
    by_cases hreport : r.Reportable nowNs reorderDelayNs renackIntervalNs s
    · rw [if_pos hreport,
        ih _ distinct.2 (by rw [List.length_append, List.length_singleton]; omega),
        List.filter_cons, if_pos (decide_eq_true hreport)]
      have hsame : rest.filter (Reportable { r with
            lastNackNs := Function.update r.lastNackNs (slot s) nowNs } nowNs reorderDelayNs
            renackIntervalNs ·) =
          rest.filter (r.Reportable nowNs reorderDelayNs renackIntervalNs ·) := by
        refine List.filter_congr fun t member => decide_eq_decide.mpr ?_
        have hplace : slot t ≠ slot s := fun same =>
          distinct.1 (same ▸ List.mem_map_of_mem member)
        unfold Reportable
        dsimp only
        rw [Function.update_of_ne hplace]
      rw [hsame, List.append_assoc, Prod.mk.injEq]
      refine ⟨?_, rfl⟩
      congr 1
      funext j
      simp only [List.map_cons, List.mem_cons]
      by_cases hplace : j = slot s
      · simp [hplace]
      · simp only [hplace, false_or, Function.update_of_ne hplace]
    · rw [if_neg hreport, ih _ distinct.2 (by omega),
        List.filter_cons, if_neg (by simpa using hreport)]

theorem unset_slots_nodup (r : ReceiverStream) : (r.unset.map slot).Nodup := by
  refine List.Nodup.map_on ?_ r.unset_sorted.nodup
  intro s hs t ht same
  obtain ⟨hsAbove, hsInside, _⟩ := (r.mem_unset s).mp hs
  obtain ⟨htAbove, htInside, _⟩ := (r.mem_unset t).mp ht
  exact slot_injective hsAbove (by omega) htAbove (by omega) same

theorem length_unset_le (r : ReceiverStream) : r.unset.length ≤ kMaxWindow := by
  have hsubset : r.unset ⊆ List.range' r.baseSeqNo kMaxWindow := by
    intro s member
    obtain ⟨habove, hinside, _⟩ := (r.mem_unset s).mp member
    exact List.mem_range'_1.mpr ⟨habove, by omega⟩
  have hlength := (List.subperm_of_subset r.unset_sorted.nodup hsubset).length_le
  rwa [List.length_range'] at hlength

def reports (r : ReceiverStream) (nowNs reorderDelayNs renackIntervalNs : Nat) : List Nat :=
  if r.lossless = false ∨ r.haveAny = false ∨ r.highestReceived < r.baseSeqNo then []
  else r.unset.filter (r.Reportable nowNs reorderDelayNs renackIntervalNs ·)

theorem mem_unset_of_mem_reports {nowNs reorderDelayNs renackIntervalNs s : Nat}
    (member : s ∈ r.reports nowNs reorderDelayNs renackIntervalNs) : s ∈ r.unset := by
  unfold reports at member
  split at member
  · cases member
  · exact (List.mem_filter.mp member).1

theorem collectNacks_eq (r : ReceiverStream) (nowNs reorderDelayNs renackIntervalNs : Nat) :
    r.collectNacks nowNs reorderDelayNs renackIntervalNs =
      ({ r with lastNackNs := fun j =>
          if j ∈ (r.reports nowNs reorderDelayNs renackIntervalNs).map slot then nowNs
          else r.lastNackNs j },
        { streamId := r.streamId, missing := r.reports nowNs reorderDelayNs renackIntervalNs }) := by
  unfold collectNacks reports
  split
  · rfl
  · have hpass := foldl_collectNack (r := r) nowNs reorderDelayNs renackIntervalNs []
      r.unset_slots_nodup (by
        rw [List.length_nil, Nat.zero_add]
        exact r.length_unset_le)
    rw [List.nil_append] at hpass
    dsimp only
    rw [← unset, hpass]

end ReceiverStream

end FuseTransport.Proto
