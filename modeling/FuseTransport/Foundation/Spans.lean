import Mathlib.Algebra.BigOperators.Group.List.Basic
import Mathlib.Algebra.GroupWithZero.Nat
import Mathlib.Order.Interval.Finset.Nat

/-!
# Counting spans that do not overlap

A list of spans of numbers, no two of which have a number in common, covers as many
numbers as its spans are long together.
-/

namespace FuseTransport.Foundation.Spans

structure Span where
  first : Nat
  last : Nat
  deriving DecidableEq, Repr

namespace Span

def Has (span : Span) (p : Nat) : Prop := span.first ≤ p ∧ p < span.last

instance (span : Span) (p : Nat) : Decidable (span.Has p) :=
  inferInstanceAs (Decidable (_ ∧ _))

def Apart (span other : Span) : Prop := ∀ p, span.Has p → ¬ other.Has p

end Span

def Covers (spans : List Span) (p : Nat) : Prop := ∃ span ∈ spans, span.Has p

def extent (spans : List Span) : Nat := (spans.map fun span => span.last - span.first).sum

/-- The numbers some span has. -/
def spots : List Span → Finset Nat
  | [] => ∅
  | span :: rest => Finset.Ico span.first span.last ∪ spots rest

variable {spans : List Span} {low high : Nat}

theorem mem_spots {p : Nat} : p ∈ spots spans ↔ Covers spans p := by
  induction spans with
  | nil => simp [spots, Covers]
  | cons span rest ih =>
    rw [spots, Finset.mem_union, ih]
    simp [Covers, Span.Has]

theorem card_spots (apart : spans.Pairwise Span.Apart) : (spots spans).card = extent spans := by
  induction spans with
  | nil => rfl
  | cons span rest ih =>
    obtain ⟨hfirst, hrest⟩ := List.pairwise_cons.mp apart
    have hdisjoint : Disjoint (Finset.Ico span.first span.last) (spots rest) := by
      refine Finset.disjoint_left.mpr fun p hspan hother => ?_
      obtain ⟨other, member, hhas⟩ := mem_spots.mp hother
      exact hfirst other member p (Finset.mem_Ico.mp hspan) hhas
    rw [spots, Finset.card_union_of_disjoint hdisjoint, ih hrest]
    simp [extent]

theorem spots_subset (inside : ∀ span ∈ spans, ∀ p, span.Has p → low ≤ p ∧ p < high) :
    spots spans ⊆ Finset.Ico low high := by
  intro p member
  obtain ⟨span, hspan, hhas⟩ := mem_spots.mp member
  exact Finset.mem_Ico.mpr (inside span hspan p hhas)

theorem extent_le (apart : spans.Pairwise Span.Apart)
    (inside : ∀ span ∈ spans, ∀ p, span.Has p → low ≤ p ∧ p < high) :
    extent spans ≤ high - low := by
  rw [← card_spots apart, ← Nat.card_Ico]
  exact Finset.card_le_card (spots_subset inside)

/-- Spans of one range are as long as the range exactly when they leave nothing out. -/
theorem extent_full_iff (apart : spans.Pairwise Span.Apart)
    (inside : ∀ span ∈ spans, ∀ p, span.Has p → low ≤ p ∧ p < high) :
    high - low ≤ extent spans ↔ ∀ p, low ≤ p → p < high → Covers spans p := by
  rw [← card_spots apart, ← Nat.card_Ico]
  constructor
  · intro hfull p habove hbelow
    have hall := Finset.eq_of_subset_of_card_le (spots_subset inside) hfull
    rw [← mem_spots, hall]
    exact Finset.mem_Ico.mpr ⟨habove, hbelow⟩
  · intro hcovers
    refine Finset.card_le_card fun p member => ?_
    obtain ⟨habove, hbelow⟩ := Finset.mem_Ico.mp member
    exact mem_spots.mpr (hcovers p habove hbelow)

end FuseTransport.Foundation.Spans
