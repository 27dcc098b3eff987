import Mathlib.Data.List.Basic

/-!
# Cutting a buffer into pieces of one size

A buffer is cut from the front into pieces of `size` entries; the last piece may be
shorter.  Pieces of that size that were put one behind the other come out again as they
were, and so does a single piece that is not larger.
-/

namespace FuseTransport.Foundation.Cuts

universe u

variable {α : Type u} {size limit : Nat}

def cut (size : Nat) : Nat → List α → List (List α)
  | 0, _ => []
  | _ + 1, [] => []
  | limit + 1, x :: rest =>
    (x :: rest).take size :: cut size limit ((x :: rest).drop size)

theorem cut_cons (limit : Nat) {buf : List α} (some_left : buf ≠ []) :
    cut size (limit + 1) buf = buf.take size :: cut size limit (buf.drop size) := by
  cases buf with
  | nil => exact absurd rfl some_left
  | cons x rest => rfl

@[simp]
theorem cut_nil (limit : Nat) : cut size limit ([] : List α) = [] := by
  cases limit with
  | zero | succ limit => rfl

/-- Pieces of one size come out as they were put in. -/
theorem cut_flatten {pieces : List (List α)} (positive : 0 < size)
    (uniform : ∀ piece ∈ pieces, piece.length = size) (enough : pieces.length ≤ limit) :
    cut size limit pieces.flatten = pieces := by
  induction pieces generalizing limit with
  | nil => exact cut_nil limit
  | cons piece rest ih =>
    have hsize := uniform piece List.mem_cons_self
    have hsome : (piece :: rest).flatten ≠ [] := by
      intro none
      have hpiece : piece = [] := (List.append_eq_nil_iff.mp none).1
      rw [hpiece, List.length_nil] at hsize
      omega
    cases limit with
    | zero => exact absurd enough (Nat.not_succ_le_zero _)
    | succ limit =>
      rw [cut_cons limit hsome, List.flatten_cons, List.take_left' hsize, List.drop_left' hsize,
        ih (fun other member => uniform other (List.mem_cons_of_mem _ member))
          (Nat.le_of_succ_le_succ enough)]

/-- A single piece that is not larger comes out as it is. -/
theorem cut_single {piece : List α} (some_left : piece ≠ []) (small : piece.length ≤ size)
    (enough : 0 < limit) : cut size limit piece = [piece] := by
  cases limit with
  | zero => exact absurd enough (Nat.lt_irrefl 0)
  | succ limit =>
    rw [cut_cons limit some_left, List.take_of_length_le small, List.drop_eq_nil_of_le small,
      cut_nil]

end FuseTransport.Foundation.Cuts
