import FuseTransport.Foundation.Residues

/-!
# A ring of marks over a sliding window

A ring of `size` positions marks the numbers of a window that were taken.  The low end of the
window passes a marked number by clearing its position, which then stands for the number that
enters at the high end.
-/

namespace FuseTransport.Foundation.MarkRing

variable {size low number : Nat} {mark after : Nat → Prop} {taken : List Nat}

/-- Everything below the window was taken, nothing beyond it, and in it what is marked. -/
structure Mirrors (size : Nat) (mark : Nat → Prop) (low : Nat) (taken : List Nat) : Prop where
  below : ∀ n, n < low → n ∈ taken
  within : ∀ n ∈ taken, n < low + size
  marks : ∀ n, low ≤ n → n < low + size → (mark n ↔ n ∈ taken)

namespace Mirrors

theorem empty (size : Nat) (unmarked : ∀ n, ¬ mark n) : Mirrors size mark 0 [] where
  below := fun _ impossible => absurd impossible (Nat.not_lt_zero _)
  within := fun _ impossible => absurd impossible List.not_mem_nil
  marks := fun n _ _ => ⟨fun marked => absurd marked (unmarked n), fun impossible =>
    absurd impossible List.not_mem_nil⟩

section

variable (mirrors : Mirrors size mark low taken)
include mirrors

/-- A number of the window is taken and marked. -/
theorem take (inside : number < low + size)
    (sets : ∀ n, low ≤ n → n < low + size → (after n ↔ n = number ∨ mark n)) :
    Mirrors size after low (taken ++ [number]) where
  below := fun n hbelow => List.mem_append_left _ (mirrors.below n hbelow)
  within := by
    intro n member
    rcases List.mem_append.mp member with hold | hnew
    · exact mirrors.within n hold
    · rw [List.mem_singleton.mp hnew]
      exact inside
  marks := by
    intro n habove hinside
    rw [sets n habove hinside, mirrors.marks n habove hinside, List.mem_append, List.mem_singleton]
    exact or_comm

theorem pass (positive : 0 < size) (marked : mark low)
    (clears : ∀ n, low < n → n ≤ low + size → (after n ↔ n % size ≠ low % size ∧ mark n)) :
    Mirrors size after (low + 1) taken where
  below := by
    intro n hbelow
    rcases Nat.lt_or_eq_of_le (Nat.le_of_lt_succ hbelow) with hlower | rfl
    · exact mirrors.below n hlower
    · exact (mirrors.marks n (Nat.le_refl n) (Nat.lt_add_of_pos_right positive)).mp marked
  within := by
    intro n member
    have hwithin := mirrors.within n member
    omega
  marks := by
    intro n habove hinside
    have hlast : n ≤ low + size := by omega
    rw [clears n habove hlast]
    rcases Residues.moved_up habove hlast with ⟨hwindow, hother⟩ | ⟨rfl, hsame⟩
    · rw [← mirrors.marks n (by omega) hwindow]
      exact ⟨And.right, fun hmark => ⟨hother, hmark⟩⟩
    · constructor
      · intro hboth
        exact absurd hsame hboth.1
      · intro member
        exact absurd (mirrors.within _ member) (Nat.lt_irrefl _)

/-- The low end itself is taken and passed at once. -/
theorem take_low (positive : 0 < size) (unmarked : ¬ mark (low + size)) :
    Mirrors size mark (low + 1) (taken ++ [low]) := by
  have htaken := mirrors.take (Nat.lt_add_of_pos_right positive)
    (fun n _ _ => Iff.rfl : ∀ n, _ → _ → ((n = low ∨ mark n) ↔ _))
  refine htaken.pass positive (Or.inl rfl) ?_
  intro n habove hinside
  rcases Residues.moved_up habove hinside with ⟨_, hother⟩ | ⟨rfl, hsame⟩
  · constructor
    · exact fun hmark => ⟨hother, Or.inr hmark⟩
    · rintro ⟨_, hlow | hmark⟩
      · omega
      · exact hmark
  · constructor
    · exact fun hmark => absurd hmark unmarked
    · exact fun hboth => absurd hsame hboth.1

/-- An unmarked low end was not taken: it is the least number missing. -/
theorem low_missing (positive : 0 < size) (unmarked : ¬ mark low) : low ∉ taken := fun member =>
  unmarked ((mirrors.marks low (Nat.le_refl low) (Nat.lt_add_of_pos_right positive)).mpr member)

end

end Mirrors

end FuseTransport.Foundation.MarkRing
