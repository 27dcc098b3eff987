import Mathlib.Data.List.Count
import Mathlib.Logic.Function.Basic
import FuseTransport.Foundation.Residues

/-!
# A queue with a table of marks

Beside a queue of numbers stands a table, indexed by the remainder modulo its size, of the
numbers that wait in the queue.  A number joins the queue when its mark is not there.  The mark
always tells the truth about being there; it is missing for a number of the current range only
after an older number of the same remainder has taken its place.
-/

namespace FuseTransport.Foundation.MarkedQueue

/-- A number that is marked waits; `blank` stands for no number. -/
def Truthful (size blank : Nat) (items : List Nat) (marks : Nat → Nat) : Prop :=
  ∀ x, x ≠ blank → marks (x % size) = x → x ∈ items

/-- The numbers from `low` to `high` that wait are marked, and wait once. -/
structure Tidy (size low high : Nat) (items : List Nat) (marks : Nat → Nat) : Prop where
  known : ∀ x ∈ items, x < high
  marked : ∀ x ∈ items, low ≤ x → marks (x % size) = x
  once : ∀ x, low ≤ x → items.count x ≤ 1

def unmark (size blank : Nat) (marks : Nat → Nat) (x : Nat) : Nat → Nat :=
  if marks (x % size) = x then Function.update marks (x % size) blank else marks

variable {size blank low high : Nat} {items rest : List Nat} {marks : Nat → Nat} {x : Nat}

theorem unmark_of_ne (unmarked : marks (x % size) ≠ x) : unmark size blank marks x = marks :=
  if_neg unmarked

theorem unmark_of_eq (marked : marks (x % size) = x) :
    unmark size blank marks x = Function.update marks (x % size) blank :=
  if_pos marked

theorem truthful_nil : Truthful size blank [] fun _ => blank :=
  fun _ some_number marked => absurd marked.symm some_number

theorem Truthful.join (truthful : Truthful size blank items marks) (x : Nat) :
    Truthful size blank (items ++ [x]) (Function.update marks (x % size) x) := by
  intro y hy hmarked
  by_cases hsame : y % size = x % size
  · rw [hsame, Function.update_self] at hmarked
    rw [hmarked]
    exact List.mem_append_right _ (List.mem_singleton_self _)
  · rw [Function.update_of_ne hsame] at hmarked
    exact List.mem_append_left _ (truthful y hy hmarked)

theorem Truthful.take (truthful : Truthful size blank (x :: rest) marks) :
    Truthful size blank rest (unmark size blank marks x) := by
  have hothers : ∀ y, y ≠ blank → y ≠ x → marks (y % size) = y → y ∈ rest := by
    intro y hy hother hmarked
    exact (List.mem_cons.mp (truthful y hy hmarked)).resolve_left hother
  intro y hy hmarked
  by_cases hown : marks (x % size) = x
  · rw [unmark_of_eq hown] at hmarked
    by_cases hsame : y % size = x % size
    · rw [hsame, Function.update_self] at hmarked
      exact absurd hmarked.symm hy
    · rw [Function.update_of_ne hsame] at hmarked
      exact hothers y hy (fun equal => hsame (by rw [equal])) hmarked
  · rw [unmark_of_ne hown] at hmarked
    exact hothers y hy (fun equal => hown (equal ▸ hmarked)) hmarked

theorem tidy_nil (size low high : Nat) (marks : Nat → Nat) : Tidy size low high [] marks :=
  ⟨nofun, nofun, fun _ _ => Nat.zero_le _⟩

theorem Tidy.raise (tidy : Tidy size low high items marks) {low' high' : Nat} (lower : low ≤ low')
    (upper : high ≤ high') : Tidy size low' high' items marks where
  known := fun x member => Nat.lt_of_lt_of_le (tidy.known x member) upper
  marked := fun x member current => tidy.marked x member (Nat.le_trans lower current)
  once := fun x current => tidy.once x (Nat.le_trans lower current)

theorem Tidy.take (tidy : Tidy size low high (x :: rest) marks) :
    Tidy size low high rest (unmark size blank marks x) where
  known := fun y member => tidy.known y (List.mem_cons_of_mem x member)
  marked := by
    intro y member current
    have hmarked := tidy.marked y (List.mem_cons_of_mem x member) current
    by_cases hown : marks (x % size) = x
    · -- another number with the mark of `x` would be `x` itself, waiting twice
      have hother : y % size ≠ x % size := by
        intro hsame
        have hequal : y = x := by rw [← hmarked, hsame, hown]
        have honce := tidy.once x (hequal ▸ current)
        rw [List.count_cons_self] at honce
        have htwice := List.count_pos_iff.mpr (hequal ▸ member)
        omega
      rw [unmark_of_eq hown, Function.update_of_ne hother, hmarked]
    · rw [unmark_of_ne hown, hmarked]
  once := by
    intro y current
    exact Nat.le_trans (List.count_le_count_cons ..) (tidy.once y current)

/-- A number that is not marked joins.  If it is older than the range, its place must not be
that of a number of the range. -/
theorem Tidy.join (tidy : Tidy size low high items marks) (span : high ≤ low + size)
    (unmarked : marks (x % size) ≠ x) (known : x < high)
    (free : x < low → ¬ (low ≤ marks (x % size) ∧ marks (x % size) < high)) :
    Tidy size low high (items ++ [x]) (Function.update marks (x % size) x) where
  known := by
    intro y member
    rcases List.mem_append.mp member with hold | hnew
    · exact tidy.known y hold
    · rw [List.mem_singleton.mp hnew]
      exact known
  marked := by
    intro y member current
    by_cases hsame : y % size = x % size
    · rw [hsame, Function.update_self]
      rcases List.mem_append.mp member with hold | hnew
      · have hmarked := tidy.marked y hold current
        have hknown := tidy.known y hold
        rcases Nat.lt_or_ge x low with hbefore | hcurrent
        · rw [hsame] at hmarked
          exact absurd ⟨hmarked ▸ current, hmarked ▸ hknown⟩ (free hbefore)
        · exact Residues.eq_of_mod_eq hcurrent (by omega) current (by omega) hsame.symm
      · exact (List.mem_singleton.mp hnew).symm
    · rw [Function.update_of_ne hsame]
      rcases List.mem_append.mp member with hold | hnew
      · exact tidy.marked y hold current
      · exact absurd (by rw [List.mem_singleton.mp hnew]) hsame
  once := by
    intro y current
    rw [List.count_append]
    have honce := tidy.once y current
    by_cases hequal : x = y
    · subst hequal
      have hfirst : items.count x = 0 := by
        apply List.count_eq_zero_of_not_mem
        intro member
        exact unmarked (tidy.marked x member current)
      rw [hfirst, List.count_singleton_self]
    · rw [List.count_singleton, if_neg (by simpa using hequal)]
      exact honce

end FuseTransport.Foundation.MarkedQueue
