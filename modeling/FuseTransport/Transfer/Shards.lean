import Mathlib.Data.List.Basic
import Mathlib.Data.Nat.Basic

/-!
# The lanes' parts of a buffer

The sending call cuts the buffer into as many parts as it has lanes, all but the
last ones of one size.
-/

namespace FuseTransport.Transfer

def shardSize (len lanes : Nat) : Nat := (len + lanes - 1) / lanes

def shardOffset (len lanes i : Nat) : Nat := min (i * shardSize len lanes) len

def shardLength (len lanes i : Nat) : Nat :=
  min (shardSize len lanes) (len - shardOffset len lanes i)

theorem shard_inside (len lanes i : Nat) :
    shardOffset len lanes i + shardLength len lanes i ≤ len := by
  have hoffset : shardOffset len lanes i ≤ len := Nat.min_le_right _ _
  have hlength : shardLength len lanes i ≤ len - shardOffset len lanes i := Nat.min_le_right _ _
  omega

variable {lanes : Nat}

theorem le_lanes_mul_shardSize (len : Nat) (positive : 0 < lanes) :
    len ≤ lanes * shardSize len lanes := by
  have hbound := Nat.lt_mul_div_succ (len + lanes - 1) positive
  rw [Nat.mul_succ] at hbound
  unfold shardSize
  omega

/-- Every byte of the buffer is in some lane's part. -/
theorem shards_cover {len : Nat} (positive : 0 < lanes) {p : Nat} (inside : p < len) :
    ∃ i < lanes, shardOffset len lanes i ≤ p ∧
      p < shardOffset len lanes i + shardLength len lanes i := by
  have hall : p < lanes * shardSize len lanes :=
    Nat.lt_of_lt_of_le inside (le_lanes_mul_shardSize len positive)
  have hsize : 0 < shardSize len lanes := Nat.pos_of_ne_zero fun zero => by
    rw [zero] at hall
    omega
  have hbelow : p / shardSize len lanes * shardSize len lanes ≤ p := Nat.div_mul_le_self _ _
  have habove : p < p / shardSize len lanes * shardSize len lanes + shardSize len lanes := by
    have hnext := Nat.lt_mul_div_succ p hsize
    rwa [Nat.mul_succ, Nat.mul_comm] at hnext
  refine ⟨p / shardSize len lanes, (Nat.div_lt_iff_lt_mul hsize).mpr hall, ?_⟩
  unfold shardLength shardOffset
  omega

/-- Each part begins where the one before it ends. -/
theorem shardOffset_succ (len lanes i : Nat) :
    shardOffset len lanes (i + 1) = shardOffset len lanes i + shardLength len lanes i := by
  unfold shardLength shardOffset
  rw [Nat.succ_mul]
  omega

/-- The parts one behind the other are the buffer. -/
theorem shards_join {α : Type} (data : List α) (positive : 0 < lanes) :
    (List.range lanes).flatMap (fun i =>
      (data.drop (shardOffset data.length lanes i)).take (shardLength data.length lanes i)) =
        data := by
  have hfirst : ∀ count, (List.range count).flatMap (fun i =>
      (data.drop (shardOffset data.length lanes i)).take (shardLength data.length lanes i)) =
        data.take (shardOffset data.length lanes count) := by
    intro count
    induction count with
    | zero => simp [shardOffset]
    | succ count ih =>
      rw [List.range_succ, List.flatMap_append, ih, List.flatMap_singleton, shardOffset_succ,
        List.take_add]
  have hlast : shardOffset data.length lanes lanes = data.length :=
    Nat.min_eq_right (le_lanes_mul_shardSize data.length positive)
  rw [hfirst lanes, hlast, List.take_length]

end FuseTransport.Transfer
