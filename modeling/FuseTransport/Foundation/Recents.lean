import FuseTransport.Foundation.Residues
import Mathlib.Order.Interval.Finset.Nat

/-!
# A ring of the latest entries

A ring that is overwritten at one position after the other holds the latest
entries of everything that was put into it.  Who only puts in what it does not
hold keeps equal entries apart.
-/

namespace FuseTransport.Foundation.Recents

variable {α : Type} {size next : Nat} {ring : Nat → Option α} {log : List α} {x : α}

/-- An entry among the last `size`. -/
def Recent (size : Nat) (log : List α) (x : α) : Prop :=
  ∃ j, log.length ≤ j + size ∧ log[j]? = some x

/-- Equal entries have `size` others between them. -/
def Spaced (size : Nat) (log : List α) : Prop :=
  ∀ i j x, i < j → log[i]? = some x → log[j]? = some x → i + size < j

theorem Spaced.push (spaced : Spaced size log) (fresh : ¬ Recent size log x) :
    Spaced size (log ++ [x]) := by
  intro i j y before first second
  have hj : j < log.length + 1 := by
    simpa using (List.getElem?_eq_some_iff.mp second).1
  rw [List.getElem?_append_left (by omega)] at first
  rcases Nat.lt_or_eq_of_le (Nat.le_of_lt_succ hj) with hold | rfl
  · rw [List.getElem?_append_left hold] at second
    exact spaced i j y before first second
  · rw [List.getElem?_concat_length] at second
    cases second
    exact Nat.lt_of_not_le fun recent => fresh ⟨i, recent, first⟩

/-- The ring holds the last `size` entries, and nothing where there are fewer. -/
structure Recalls (size next : Nat) (ring : Nat → Option α) (log : List α) : Prop where
  next : next = log.length % size
  held : ∀ k, log.length ≤ k → k < log.length + size →
    ring (k % size) = if k < size then none else log[k - size]?

namespace Recalls

theorem empty (size : Nat) : Recalls size 0 (fun _ => none) ([] : List α) :=
  ⟨(Nat.zero_mod size).symm, fun k _ inside => by rw [if_pos (by simpa using inside)]⟩

theorem push (recalls : Recalls size next ring log) :
    Recalls size ((next + 1) % size) (Function.update ring next (some x)) (log ++ [x]) := by
  refine ⟨by rw [recalls.next, List.length_append, List.length_singleton, Nat.mod_add_mod], ?_⟩
  intro k above inside
  rw [List.length_append, List.length_singleton] at above inside
  rcases @Residues.moved_up size _ _ above (by omega) with ⟨hbefore, hapart⟩ | ⟨rfl, hsame⟩
  · rw [Function.update_of_ne (recalls.next ▸ hapart), recalls.held k (by omega) hbefore]
    exact ite_congr rfl (fun _ => rfl) fun _ => (List.getElem?_append_left (by omega)).symm
  · rw [hsame, ← recalls.next, Function.update_self, if_neg (by omega), Nat.add_sub_cancel,
      List.getElem?_concat_length]

theorem holds_iff (recalls : Recalls size next ring log) :
    (∃ i < size, ring i = some x) ↔ Recent size log x := by
  constructor
  · rintro ⟨i, inside, hring⟩
    rw [← Finset.mem_range, ← Nat.image_Ico_mod log.length size, Finset.mem_image] at inside
    obtain ⟨k, hk, rfl⟩ := inside
    obtain ⟨above, below⟩ := Finset.mem_Ico.mp hk
    rw [recalls.held k above below] at hring
    split at hring
    · cases hring
    · exact ⟨k - size, by omega, hring⟩
  · rintro ⟨j, recent, found⟩
    have hj := (List.getElem?_eq_some_iff.mp found).1
    refine ⟨(j + size) % size, Nat.mod_lt _ (by omega), ?_⟩
    rw [recalls.held _ recent (Nat.add_lt_add_right hj size), if_neg (by omega),
      Nat.add_sub_cancel, found]

end Recalls

end FuseTransport.Foundation.Recents
