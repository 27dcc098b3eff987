import Mathlib.Order.MinMax

/-!
# The largest of a list

A running maximum depends only on which elements there are, not on their order or on how
often they come.
-/

namespace FuseTransport.Foundation.Largest

universe u

variable {α : Type u} [LinearOrder α]

variable {members : List α}

theorem foldl_max_le_iff {start bound : α} :
    members.foldl max start ≤ bound ↔ start ≤ bound ∧ ∀ m ∈ members, m ≤ bound := by
  induction members generalizing start with
  | nil => simp
  | cons first rest ih =>
    rw [List.foldl_cons, ih, max_le_iff, List.forall_mem_cons, and_assoc]

theorem le_foldl_max (members : List α) (start : α) : start ≤ members.foldl max start :=
  (foldl_max_le_iff.mp (le_refl _)).1

theorem le_foldl_max_of_mem {m : α} (member : m ∈ members) (start : α) :
    m ≤ members.foldl max start :=
  (foldl_max_le_iff.mp (le_refl _)).2 m member

theorem foldl_max_mem (members : List α) (start : α) :
    members.foldl max start = start ∨ members.foldl max start ∈ members := by
  induction members generalizing start with
  | nil => exact Or.inl rfl
  | cons first rest ih =>
    rw [List.foldl_cons]
    rcases ih (max start first) with hstart | hlater
    · rw [hstart]
      rcases max_choice start first with hold | hnew
      · exact Or.inl hold
      · rw [hnew]
        exact Or.inr List.mem_cons_self
    · exact Or.inr (List.mem_cons_of_mem first hlater)

/-- Lists with the same elements have the same largest one. -/
theorem foldl_max_congr {others : List α} (same : ∀ m, m ∈ members ↔ m ∈ others) (start : α) :
    members.foldl max start = others.foldl max start := by
  refine le_antisymm ?_ ?_
  · refine foldl_max_le_iff.mpr ⟨le_foldl_max others start, fun m member => ?_⟩
    exact le_foldl_max_of_mem ((same m).mp member) start
  · refine foldl_max_le_iff.mpr ⟨le_foldl_max members start, fun m member => ?_⟩
    exact le_foldl_max_of_mem ((same m).mpr member) start

end FuseTransport.Foundation.Largest
