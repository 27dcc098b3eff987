import Mathlib.Data.Nat.ModEq

/-!
# Residues inside one window

A ring of `size` positions indexed by remainder holds at most `size` consecutive
numbers without a collision.
-/

namespace FuseTransport.Foundation.Residues

/-- Two numbers of one window of `size` consecutive numbers share a ring
position only when they are equal. -/
theorem eq_of_mod_eq {size low first second : Nat}
    (hfirst : low ≤ first) (hfirstEnd : first < low + size)
    (hsecond : low ≤ second) (hsecondEnd : second < low + size)
    (same : first % size = second % size) : first = second := by
  rcases Nat.le_total first second with hle | hle
  · have hdvd : size ∣ second - first := (Nat.modEq_iff_dvd' hle).mp same
    have hzero := Nat.eq_zero_of_dvd_of_lt hdvd (by omega)
    omega
  · have hdvd : size ∣ first - second := (Nat.modEq_iff_dvd' hle).mp same.symm
    have hzero := Nat.eq_zero_of_dvd_of_lt hdvd (by omega)
    omega

/-- When a window moves up by one number, its numbers keep away from the position of the
number it leaves, except the last one, which takes that position. -/
theorem moved_up {size low number : Nat} (above : low < number) (inside : number ≤ low + size) :
    (number < low + size ∧ number % size ≠ low % size) ∨
      (number = low + size ∧ number % size = low % size) := by
  rcases Nat.lt_or_eq_of_le inside with hbefore | hlast
  · refine Or.inl ⟨hbefore, fun same => ?_⟩
    have hequal := eq_of_mod_eq (Nat.le_of_lt above) hbefore (Nat.le_refl low) (by omega) same
    omega
  · exact Or.inr ⟨hlast, by rw [hlast, Nat.add_mod_right]⟩

end FuseTransport.Foundation.Residues
