import Mathlib.Data.List.Basic
import Mathlib.Data.Nat.Bitwise
import Mathlib.Logic.Function.Basic
import Mathlib.Order.Basic
import Mathlib.Tactic.Ring

/-!
# Scanning the set bits of a word

The usual scan reads the lowest set bit, clears it with `bits &&& (bits - 1)` and
repeats until the word is zero.  It visits exactly the set bits, in ascending
order.
-/

namespace FuseTransport.Foundation.SetBits

variable {width : Nat}

def clearLowest (bits : BitVec width) : BitVec width := bits &&& (bits - 1)

def scan : Nat → BitVec width → List Nat
  | 0, _ => []
  | fuel + 1, bits =>
    if bits = 0 then [] else bits.ctz.toNat :: scan fuel (clearLowest bits)

def setBits (bits : BitVec width) : List Nat := scan width bits

variable {bits : BitVec width}

theorem ctz_lt (nonzero : bits ≠ 0) : bits.ctz.toNat < width :=
  BitVec.lt_of_getLsbD (BitVec.getLsbD_true_ctz_of_ne_zero nonzero)

/-- A nonzero word is an odd number shifted past its trailing zeros. -/
theorem toNat_eq_shifted_odd (nonzero : bits ≠ 0) :
    ∃ half, bits.toNat = 2 ^ bits.ctz.toNat * (2 * half + 1) := by
  have hset : bits.toNat.testBit bits.ctz.toNat = true :=
    BitVec.getLsbD_true_ctz_of_ne_zero nonzero
  have hlow : bits.toNat % 2 ^ bits.ctz.toNat = 0 := by
    apply Nat.eq_of_testBit_eq
    intro i
    rcases Nat.lt_or_ge i bits.ctz.toNat with hlt | hge
    · have hclear : bits.toNat.testBit i = false := BitVec.getLsbD_false_of_lt_ctz hlt
      simp [hclear]
    · simp [Nat.not_lt.mpr hge]
  have hodd : bits.toNat / 2 ^ bits.ctz.toNat % 2 = 1 := by
    rw [Nat.testBit_eq_decide_div_mod_eq] at hset
    exact of_decide_eq_true hset
  refine ⟨bits.toNat / 2 ^ bits.ctz.toNat / 2, ?_⟩
  have hwhole := Nat.div_add_mod bits.toNat (2 ^ bits.ctz.toNat)
  have hhalf := Nat.div_add_mod (bits.toNat / 2 ^ bits.ctz.toNat) 2
  rw [hlow, Nat.add_zero] at hwhole
  rw [hodd] at hhalf
  rw [hhalf, hwhole]

/-- Clearing the lowest set bit removes that bit and no other. -/
theorem getLsbD_clearLowest (nonzero : bits ≠ 0) (i : Nat) :
    (clearLowest bits).getLsbD i = (bits.getLsbD i && decide (i ≠ bits.ctz.toNat)) := by
  obtain ⟨half, hvalue⟩ := toNat_eq_shifted_odd nonzero
  have hpos : 0 < 2 ^ bits.ctz.toNat := Nat.two_pow_pos _
  have hpred : (bits - 1).toNat = 2 ^ (bits.ctz.toNat + 1) * half + (2 ^ bits.ctz.toNat - 1) := by
    have hwidth : 0 < width := Nat.lt_of_le_of_lt (Nat.zero_le _) (ctz_lt nonzero)
    have hone : (1 : BitVec width).toNat = 1 :=
      Nat.mod_eq_of_lt (Nat.one_lt_two_pow (by omega))
    have hle : (1 : BitVec width) ≤ bits := by
      rw [BitVec.le_def, hone, hvalue]
      exact Nat.mul_pos hpos (by omega)
    rw [BitVec.toNat_sub_of_le hle, pow_succ]
    have hexpand : 2 ^ bits.ctz.toNat * (2 * half + 1) =
        2 ^ bits.ctz.toNat * 2 * half + 2 ^ bits.ctz.toNat := by ring
    omega
  have hbits : bits.getLsbD i = (2 ^ bits.ctz.toNat * (2 * half + 1)).testBit i := by
    rw [← hvalue]; rfl
  have hbelow : (bits - 1).getLsbD i =
      (2 ^ (bits.ctz.toNat + 1) * half + (2 ^ bits.ctz.toNat - 1)).testBit i := by
    rw [← hpred]; rfl
  have hsmall : 2 ^ bits.ctz.toNat - 1 < 2 ^ (bits.ctz.toNat + 1) := by
    rw [pow_succ]; omega
  rw [clearLowest, BitVec.getLsbD_and, hbelow, Nat.testBit_two_pow_mul_add _ hsmall, hbits,
    Nat.testBit_two_pow_mul]
  rcases Nat.lt_trichotomy i bits.ctz.toNat with hlt | heq | hgt
  · simp [Nat.not_le.mpr hlt]
  · subst heq
    simp
  · have hsplit : i - bits.ctz.toNat = (i - (bits.ctz.toNat + 1)) + 1 := by omega
    have hshift : (2 * half + 1).testBit (i - bits.ctz.toNat) =
        half.testBit (i - (bits.ctz.toNat + 1)) := by
      rw [hsplit, Nat.testBit_succ]
      congr 1
      omega
    have hne : i ≠ bits.ctz.toNat := Nat.ne_of_gt hgt
    simp [hshift, hne, show ¬ i < bits.ctz.toNat + 1 by omega]

/-- With every set bit at `low` or above, `fuel + low` rounds visit them all. -/
theorem mem_scan_iff (fuel low : Nat) (bits : BitVec width) (enough : width ≤ fuel + low)
    (above : ∀ i, bits.getLsbD i = true → low ≤ i) (i : Nat) :
    i ∈ scan fuel bits ↔ bits.getLsbD i = true := by
  induction fuel generalizing bits low with
  | zero =>
    constructor
    · intro impossible
      cases impossible
    · intro hset
      have hlow := above i hset
      have hlt := BitVec.lt_of_getLsbD hset
      omega
  | succ fuel ih =>
    rw [scan]
    by_cases hzero : bits = 0
    · simp [hzero]
    · rw [if_neg hzero, List.mem_cons]
      have hlowest := BitVec.getLsbD_true_ctz_of_ne_zero hzero
      have habove := above _ hlowest
      have hrest : ∀ j, (clearLowest bits).getLsbD j = true → low + 1 ≤ j := by
        intro j hj
        rw [getLsbD_clearLowest hzero, Bool.and_eq_true, decide_eq_true_eq] at hj
        have hge : ¬ j < bits.ctz.toNat := by
          intro hlt
          rw [BitVec.getLsbD_false_of_lt_ctz hlt] at hj
          exact Bool.false_ne_true hj.1
        omega
      rw [ih (low + 1) (clearLowest bits) (by omega) hrest, getLsbD_clearLowest hzero,
        Bool.and_eq_true, decide_eq_true_eq]
      constructor
      · rintro (rfl | ⟨hset, _⟩)
        · exact hlowest
        · exact hset
      · intro hset
        by_cases heq : i = bits.ctz.toNat
        · exact Or.inl heq
        · exact Or.inr ⟨hset, heq⟩

/-- The scan visits exactly the set bits. -/
theorem mem_setBits_iff (bits : BitVec width) (i : Nat) :
    i ∈ setBits bits ↔ bits.getLsbD i = true :=
  mem_scan_iff width 0 bits (by omega) (fun _ _ => Nat.zero_le _) i

/-- The scan visits the set bits in ascending order. -/
theorem scan_sorted (fuel : Nat) (bits : BitVec width) : (scan fuel bits).Pairwise (· < ·) := by
  induction fuel generalizing bits with
  | zero => exact List.Pairwise.nil
  | succ fuel ih =>
    rw [scan]
    by_cases hzero : bits = 0
    · rw [if_pos hzero]
      exact List.Pairwise.nil
    · rw [if_neg hzero]
      refine List.Pairwise.cons ?_ (ih _)
      intro j hj
      have hset : (clearLowest bits).getLsbD j = true := scan_sound fuel _ j hj
      rw [getLsbD_clearLowest hzero, Bool.and_eq_true, decide_eq_true_eq] at hset
      rcases Nat.lt_trichotomy j bits.ctz.toNat with hlt | heq | hgt
      · rw [BitVec.getLsbD_false_of_lt_ctz hlt] at hset
        exact absurd hset.1 Bool.false_ne_true
      · exact absurd heq hset.2
      · exact hgt
where
  scan_sound (fuel : Nat) (bits : BitVec width) (i : Nat) (visited : i ∈ scan fuel bits) :
      bits.getLsbD i = true := by
    induction fuel generalizing bits with
    | zero => cases visited
    | succ fuel ih =>
      rw [scan] at visited
      by_cases hzero : bits = 0
      · rw [if_pos hzero] at visited
        cases visited
      · rw [if_neg hzero] at visited
        rcases List.mem_cons.mp visited with rfl | hrest
        · exact BitVec.getLsbD_true_ctz_of_ne_zero hzero
        · have hset := ih _ hrest
          rw [getLsbD_clearLowest hzero, Bool.and_eq_true] at hset
          exact hset.1

theorem setBits_sorted (bits : BitVec width) : (setBits bits).Pairwise (· < ·) :=
  scan_sorted width bits

/-- In an ascending list, taking while a condition holds keeps every element up
to which the condition never fails. -/
theorem mem_takeWhile_of_sorted {Meets : Nat → Bool} {positions : List Nat} {i : Nat}
    (sorted : positions.Pairwise (· < ·)) (member : i ∈ positions)
    (below : ∀ j ∈ positions, j ≤ i → Meets j = true) : i ∈ positions.takeWhile Meets := by
  induction positions with
  | nil => cases member
  | cons first rest ih =>
    rw [List.pairwise_cons] at sorted
    have hfirst : first ≤ i := by
      rcases List.mem_cons.mp member with rfl | hrest
      · exact Nat.le_refl _
      · exact Nat.le_of_lt (sorted.1 i hrest)
    rw [List.takeWhile_cons, if_pos (below first (List.mem_cons_self ..) hfirst)]
    rcases List.mem_cons.mp member with rfl | hrest
    · exact List.mem_cons_self ..
    · exact List.mem_cons_of_mem _
        (ih sorted.2 hrest fun j hj => below j (List.mem_cons_of_mem _ hj))

theorem getLsbD_one_shiftLeft (position i : Nat) (inside : position < 64) :
    (1#64 <<< position).getLsbD i = decide (i = position) := by
  by_cases hsame : i = position
  · subst hsame
    simp [inside]
  · have hfar : ¬ (¬ i < position ∧ i - position = 0) := by omega
    by_cases hbelow : i < position
    · simp [hsame, hbelow]
    · have hrest : i - position ≠ 0 := fun hzero => hfar ⟨hbelow, hzero⟩
      simp [hsame, hrest]

/-- The mask of the lowest `count` bits. -/
theorem getLsbD_lowMask (count i : Nat) (inside : count < 64) :
    ((1#64 <<< count) - 1).getLsbD i = decide (i < count) := by
  have hpow : 2 ^ count < 2 ^ 64 := Nat.pow_lt_pow_right (by decide) inside
  have hone : 1 ≤ 2 ^ count := Nat.one_le_two_pow
  have hshift : (1#64 <<< count).toNat = 2 ^ count := by
    rw [BitVec.toNat_shiftLeft, BitVec.toNat_one (by decide), Nat.one_shiftLeft,
      Nat.mod_eq_of_lt hpow]
  have hvalue : ((1#64 <<< count) - 1).toNat = 2 ^ count - 1 := by
    rw [BitVec.toNat_sub_of_le (by rw [BitVec.le_def, hshift]; exact hone), hshift]
    rfl
  rw [BitVec.getLsbD, hvalue, Nat.testBit_two_pow_sub_one]

/-- The mask of the positions up to `count`. -/
theorem getLsbD_upTo (count i : Nat) (inside : count < 63) :
    ((2#64 <<< count) - 1).getLsbD i = decide (i ≤ count) := by
  have hdouble : 2#64 <<< count = 1#64 <<< (count + 1) := by
    rfl
  rw [hdouble, getLsbD_lowMask (count + 1) i (by omega)]
  exact decide_eq_decide.mpr Nat.lt_succ_iff

/-! ## Words as one row of bits -/

def bitAt (words : Nat → BitVec 64) (position : Nat) : Bool :=
  (words (position / 64)).getLsbD (position % 64)

theorem position_eq_iff {first second : Nat} :
    first = second ↔ first / 64 = second / 64 ∧ first % 64 = second % 64 := by
  omega

/-- Setting a bit sets that position and no other. -/
theorem bitAt_set (words : Nat → BitVec 64) (position other : Nat) :
    bitAt (Function.update words (position / 64)
        (words (position / 64) ||| (1#64 <<< (position % 64)))) other =
      (decide (other = position) || bitAt words other) := by
  have hbit : position % 64 < 64 := Nat.mod_lt _ (by decide)
  rw [bitAt, bitAt]
  by_cases hword : other / 64 = position / 64
  · rw [hword, Function.update_self, BitVec.getLsbD_or, getLsbD_one_shiftLeft _ _ hbit,
      Bool.or_comm]
    congr 1
    exact decide_eq_decide.mpr ⟨fun h => position_eq_iff.mpr ⟨hword, h⟩, fun h => by rw [h]⟩
  · have hne : other ≠ position := fun h => hword (by rw [h])
    rw [Function.update_of_ne hword, decide_eq_false hne, Bool.false_or]

/-- Clearing a bit clears that position and no other. -/
theorem bitAt_clear (words : Nat → BitVec 64) (position other : Nat) :
    bitAt (Function.update words (position / 64)
        (words (position / 64) &&& ~~~(1#64 <<< (position % 64)))) other =
      (decide (other ≠ position) && bitAt words other) := by
  have hbit : position % 64 < 64 := Nat.mod_lt _ (by decide)
  have hother : other % 64 < 64 := Nat.mod_lt _ (by decide)
  rw [bitAt, bitAt]
  by_cases hword : other / 64 = position / 64
  · have hsame : other % 64 = position % 64 ↔ other = position :=
      ⟨fun h => position_eq_iff.mpr ⟨hword, h⟩, fun h => by rw [h]⟩
    rw [hword, Function.update_self, BitVec.getLsbD_and, BitVec.getLsbD_not,
      getLsbD_one_shiftLeft _ _ hbit, decide_eq_true hother, Bool.true_and, Bool.and_comm,
      decide_eq_decide.mpr hsame, decide_not]
  · have hne : other ≠ position := fun h => hword (by rw [h])
    rw [Function.update_of_ne hword, decide_eq_true hne, Bool.true_and]

end FuseTransport.Foundation.SetBits
