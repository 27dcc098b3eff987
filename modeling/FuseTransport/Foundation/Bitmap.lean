import Mathlib.Data.List.Basic

/-!
# Bitmaps in bytes

Bit `i` of a list of bytes is bit `i % 8` of byte `i / 8`, the lowest first.
-/

namespace FuseTransport.Foundation.Bitmap

/-- The byte with only the bit of position `i`. -/
def bit (i : Nat) : UInt8 := 1 <<< UInt8.ofNat (i % 8)

def hasBit (byte : UInt8) (i : Nat) : Bool := byte &&& bit i ≠ 0

/-- Whether bit `i` is set; there are none past the end. -/
def marked (bytes : List UInt8) (i : Nat) : Bool :=
  match bytes[i / 8]? with
  | some byte => hasBit byte i
  | none => false

def mark (bytes : List UInt8) (i : Nat) : List UInt8 :=
  bytes.modify (i / 8) fun byte => byte ||| bit i

def fill (complete : Nat → Bool) (count : Nat) (bytes : List UInt8) : List UInt8 :=
  (List.range count).foldl (fun b i => if complete i then mark b i else b) bytes

theorem hasBit_bit (i j : Nat) : hasBit (bit i) j = decide (i % 8 = j % 8) := by
  have hsmall : ∀ a b : Fin 8,
      decide ((1 <<< UInt8.ofNat a) &&& (1 <<< UInt8.ofNat b) ≠ (0 : UInt8)) =
        decide (a.val = b.val) := by decide
  exact hsmall ⟨i % 8, Nat.mod_lt i (by decide)⟩ ⟨j % 8, Nat.mod_lt j (by decide)⟩

theorem hasBit_or (first second : UInt8) (i : Nat) :
    hasBit (first ||| second) i = (hasBit first i || hasBit second i) := by
  have hdistrib : (first ||| second) &&& bit i = first &&& bit i ||| second &&& bit i := by
    apply UInt8.eq_of_toBitVec_eq
    ext k
    simp [Bool.and_or_distrib_right]
  rw [Bool.eq_iff_iff, Bool.or_eq_true]
  unfold hasBit
  rw [decide_eq_true_iff, decide_eq_true_iff, decide_eq_true_iff, hdistrib, Ne,
    UInt8.or_eq_zero_iff, not_and_or]

@[simp]
theorem length_mark (bytes : List UInt8) (i : Nat) : (mark bytes i).length = bytes.length :=
  List.length_modify ..

theorem marked_mark {bytes : List UInt8} {i : Nat} (inside : i / 8 < bytes.length) (j : Nat) :
    marked (mark bytes i) j = (marked bytes j || decide (j = i)) := by
  unfold marked mark
  rw [List.getElem?_modify]
  by_cases hsame : i / 8 = j / 8
  · have hbyte : bytes[j / 8]? = some bytes[i / 8] := by
      rw [← hsame, List.getElem?_eq_getElem inside]
    have hplace : (i % 8 = j % 8) ↔ j = i := by omega
    simp only [hbyte, if_pos hsame, Option.map_eq_map, Option.map_some, hasBit_or, hasBit_bit,
      decide_eq_decide.mpr hplace]
  · have hne : j ≠ i := fun h => hsame (by rw [h])
    simp only [if_neg hsame, decide_eq_false hne, Bool.or_false, Option.map_eq_map, Option.map_id']

theorem marked_replicate (count i : Nat) : marked (List.replicate count 0) i = false := by
  unfold marked
  rw [List.getElem?_replicate]
  split
  · rename_i byte hbyte
    split at hbyte
    · cases hbyte
      exact decide_eq_false (fun h => h UInt8.zero_and)
    · cases hbyte
  · rfl

theorem fill_succ (complete : Nat → Bool) (count : Nat) (bytes : List UInt8) :
    fill complete (count + 1) bytes =
      if complete count then mark (fill complete count bytes) count
      else fill complete count bytes := by
  rw [fill, List.range_succ, List.foldl_append]
  rfl

theorem fill_congr {complete other : Nat → Bool} {count : Nat}
    (same : ∀ i, i < count → complete i = other i) (bytes : List UInt8) :
    fill complete count bytes = fill other count bytes := by
  induction count with
  | zero => rfl
  | succ count ih =>
    rw [fill_succ, fill_succ, same count (Nat.lt_succ_self _),
      ih fun i hi => same i (Nat.lt_succ_of_lt hi)]

@[simp]
theorem length_fill (complete : Nat → Bool) (count : Nat) (bytes : List UInt8) :
    (fill complete count bytes).length = bytes.length := by
  induction count with
  | zero => rfl
  | succ count ih =>
    rw [fill_succ]
    split
    · rw [length_mark, ih]
    · exact ih

/-- The bitmap after the first `count` positions have been looked at. -/
theorem marked_fill {bytes : List UInt8} (complete : Nat → Bool) {count : Nat}
    (inside : (count + 7) / 8 ≤ bytes.length) (i : Nat) :
    marked (fill complete count bytes) i = (marked bytes i || (decide (i < count) && complete i)) := by
  induction count with
  | zero => simp [fill]
  | succ count ih =>
    rw [fill_succ]
    cases hcomplete : complete count with
    | false =>
      rw [if_neg (by decide), ih (by omega)]
      rcases Nat.lt_trichotomy i count with hless | rfl | hmore
      · simp [hless, Nat.lt_succ_of_lt hless]
      · simp [hcomplete]
      · simp [show ¬ i < count by omega, show ¬ i < count + 1 by omega]
    | true =>
      rw [if_pos rfl, marked_mark (by rw [length_fill]; omega), ih (by omega)]
      rcases Nat.lt_trichotomy i count with hless | rfl | hmore
      · simp [hless, Nat.lt_succ_of_lt hless, Nat.ne_of_lt hless]
      · simp [hcomplete]
      · simp [show ¬ i < count by omega, show ¬ i < count + 1 by omega,
          show ¬ i = count by omega]

end FuseTransport.Foundation.Bitmap
