import Mathlib.Data.List.Basic
import Mathlib.Data.List.Perm.Basic
import Mathlib.Data.List.Nodup
import Mathlib.Logic.Function.Basic

/-!
# Families of queues

A family of `count` queues seen as one collection.  Whatever a change takes from
one queue, and puts there, it takes from and puts into the collection; the order
of the queues does not matter.
-/

namespace FuseTransport.Foundation.Channels

variable {α : Type}

/-- Everything in the first `count` queues. -/
def contents (count : Nat) (queues : Nat → List α) : List α :=
  (List.range count).flatMap queues

variable {count : Nat}

theorem mem_contents {queues : Nat → List α} {item : α} :
    item ∈ contents count queues ↔ ∃ k < count, item ∈ queues k := by
  simp [contents]

theorem contents_empty (count : Nat) : contents count (fun _ => ([] : List α)) = [] := by
  simp [contents]

variable {k : Nat}

theorem contents_split (inside : k < count) (queues : Nat → List α) :
    (contents count queues).Perm (queues k ++ ((List.range count).erase k).flatMap queues) := by
  have hperm := List.perm_cons_erase (List.mem_range.mpr inside)
  exact (hperm.flatMap_right queues).trans (List.Perm.of_eq (List.flatMap_cons))

/-- The other queues do not see a change of one. -/
theorem flatMap_erase_update (queues : Nat → List α) (changed : List α) :
    ((List.range count).erase k).flatMap (Function.update queues k changed) =
      ((List.range count).erase k).flatMap queues := by
  apply List.flatMap_congr
  intro other member
  have hne : other ≠ k := (List.nodup_range.mem_erase_iff.mp member).1
  exact Function.update_of_ne hne _ _

/-- Two lists behind a third may change places. -/
theorem append_right_comm (first second third : List α) :
    (first ++ second ++ third).Perm (first ++ third ++ second) := by
  rw [List.append_assoc, List.append_assoc]
  exact List.perm_append_comm.append_left first

/-- A change of one queue, up to the order in which the items are listed. -/
theorem contents_update (inside : k < count) {queues : Nat → List α} {changed gone added : List α}
    (change : (changed ++ gone).Perm (queues k ++ added)) :
    (contents count (Function.update queues k changed) ++ gone).Perm
      (contents count queues ++ added) := by
  have hafter := contents_split inside (Function.update queues k changed)
  rw [Function.update_self, flatMap_erase_update] at hafter
  have hbefore := (contents_split inside queues).append_right added
  have hchange := change.append_right (((List.range count).erase k).flatMap queues)
  refine (hafter.append_right gone).trans ?_
  refine (append_right_comm _ _ _).trans (hchange.trans ?_)
  exact (append_right_comm _ _ _).trans hbefore.symm

end FuseTransport.Foundation.Channels
