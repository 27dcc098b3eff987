import Mathlib.Algebra.BigOperators.Group.Finset.Basic
import Mathlib.Algebra.Order.BigOperators.Group.Finset
import Mathlib.Data.List.GetD

/-!
# Adding up the marked entries of a list

Some positions of a list of sizes are marked.  The tally of the marked ones grows by a size
when one more is marked, does not see a new entry that is not marked, and reaches the total
only when every entry that is not zero is marked.
-/

namespace FuseTransport.Foundation.Tally

/-- The sizes at the marked positions, together. -/
def tally (Marked : Nat → Prop) [DecidablePred Marked] (sizes : List Nat) : Nat :=
  ∑ k ∈ (Finset.range sizes.length).filter Marked, sizes.getD k 0

def total (sizes : List Nat) : Nat := ∑ k ∈ Finset.range sizes.length, sizes.getD k 0

variable {Marked Marked' : Nat → Prop} [DecidablePred Marked] [DecidablePred Marked']
variable {sizes : List Nat}

theorem tally_of_unmarked (unmarked : ∀ k, ¬ Marked k) : tally Marked sizes = 0 := by
  rw [tally, Finset.filter_false_of_mem fun k _ => unmarked k, Finset.sum_empty]

theorem sum_append {positions : Finset Nat} (inside : positions ⊆ Finset.range sizes.length)
    (size : Nat) :
    ∑ k ∈ positions, (sizes ++ [size]).getD k 0 = ∑ k ∈ positions, sizes.getD k 0 := by
  apply Finset.sum_congr rfl
  intro k member
  exact List.getD_append sizes [size] 0 k (Finset.mem_range.mp (inside member))

theorem total_append (sizes : List Nat) (size : Nat) :
    total (sizes ++ [size]) = total sizes + size := by
  have hlast : (sizes ++ [size]).getD sizes.length 0 = size := by
    rw [List.getD_append_right _ _ _ _ (Nat.le_refl _), Nat.sub_self, List.getD_cons_zero]
  rw [total, List.length_append, List.length_singleton, Finset.sum_range_succ, hlast,
    sum_append (Finset.Subset.refl _)]
  rfl

/-- A new entry that is not marked does not count. -/
theorem tally_append (unmarked : ¬ Marked sizes.length) (size : Nat) :
    tally Marked (sizes ++ [size]) = tally Marked sizes := by
  rw [tally, List.length_append, List.length_singleton, Finset.range_add_one, Finset.filter_insert,
    if_neg unmarked, sum_append (Finset.filter_subset _ _)]
  rfl

theorem tally_mark {position : Nat} (inside : position < sizes.length)
    (unmarked : ¬ Marked position) (marks : ∀ k, Marked' k ↔ Marked k ∨ k = position) :
    tally Marked' sizes = tally Marked sizes + sizes.getD position 0 := by
  have hmarked : (Finset.range sizes.length).filter Marked' =
      insert position ((Finset.range sizes.length).filter Marked) := by
    ext k
    rw [Finset.mem_filter, Finset.mem_insert, Finset.mem_filter, marks]
    constructor
    · rintro ⟨hinside, hold | hnew⟩
      · exact Or.inr ⟨hinside, hold⟩
      · exact Or.inl hnew
    · rintro (rfl | ⟨hinside, hold⟩)
      · exact ⟨Finset.mem_range.mpr inside, Or.inr rfl⟩
      · exact ⟨hinside, Or.inl hold⟩
  have hnew : position ∉ (Finset.range sizes.length).filter Marked := fun member =>
    unmarked (Finset.mem_filter.mp member).2
  rw [tally, hmarked, Finset.sum_insert hnew, Nat.add_comm]
  rfl

theorem tally_add_rest (Marked : Nat → Prop) [DecidablePred Marked] (sizes : List Nat) :
    tally Marked sizes + ∑ k ∈ (Finset.range sizes.length).filter (¬ Marked ·), sizes.getD k 0 =
      total sizes :=
  Finset.sum_filter_add_sum_filter_not _ _ _

theorem tally_le_total : tally Marked sizes ≤ total sizes := by
  have hsplit := tally_add_rest Marked sizes
  omega

/-- When the marked entries are all there is, the others are zero. -/
theorem marked_of_full (full : total sizes ≤ tally Marked sizes) {position : Nat}
    (some_size : sizes.getD position 0 ≠ 0) : Marked position := by
  have hsplit := tally_add_rest Marked sizes
  have hrest : ∑ k ∈ (Finset.range sizes.length).filter (¬ Marked ·), sizes.getD k 0 = 0 := by omega
  by_contra hunmarked
  have hinside : position < sizes.length := by
    by_contra houtside
    exact some_size (List.getD_eq_default _ _ (Nat.not_lt.mp houtside))
  have hmember : position ∈ (Finset.range sizes.length).filter (¬ Marked ·) :=
    Finset.mem_filter.mpr ⟨Finset.mem_range.mpr hinside, hunmarked⟩
  exact some_size (Finset.sum_eq_zero_iff.mp hrest position hmember)

end FuseTransport.Foundation.Tally
