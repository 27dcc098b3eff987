import Mathlib.Data.List.Basic
import Mathlib.Logic.Relation

/-!
# A bounded first-in first-out queue

The queue as it is specified: items enter at the end, several at a time and never more
than there is room for, and leave at the front.  Everything that ever entered and left
is remembered.
-/

namespace FuseTransport.Foundation

universe u

variable {α : Type u}

structure Fifo (α : Type u) where
  queue : List α
  accepted : List α
  delivered : List α

namespace Fifo

def empty : Fifo α := ⟨[], [], []⟩

def push (fifo : Fifo α) (items : List α) : Fifo α where
  queue := fifo.queue ++ items
  accepted := fifo.accepted ++ items
  delivered := fifo.delivered

def pop (fifo : Fifo α) (count : Nat) : Fifo α where
  queue := fifo.queue.drop count
  accepted := fifo.accepted
  delivered := fifo.delivered ++ fifo.queue.take count

inductive Step (cap : Nat) : Fifo α → Fifo α → Prop where
  | push (fifo : Fifo α) (items : List α) (room : fifo.queue.length + items.length ≤ cap) :
      Step cap fifo (fifo.push items)
  | pop (fifo : Fifo α) (count : Nat) (held : count ≤ fifo.queue.length) :
      Step cap fifo (fifo.pop count)

/-- The runs of a queue of capacity `cap`. -/
def Runs (cap : Nat) (first last : Fifo α) : Prop := Relation.ReflTransGen (Step cap) first last

/-- What entered has left or is held, in this order, and no more than fits is held. -/
def Conserved (cap : Nat) (fifo : Fifo α) : Prop :=
  fifo.accepted = fifo.delivered ++ fifo.queue ∧ fifo.queue.length ≤ cap

theorem Step.conserved {cap : Nat} {first last : Fifo α} (step : Step cap first last)
    (conserved : first.Conserved cap) : last.Conserved cap := by
  obtain ⟨haccepted, hbounded⟩ := conserved
  cases step with
  | push items room =>
    constructor
    · change first.accepted ++ items = first.delivered ++ (first.queue ++ items)
      rw [haccepted, List.append_assoc]
    · change (first.queue ++ items).length ≤ cap
      rw [List.length_append]
      exact room
  | pop count held =>
    constructor
    · change first.accepted = first.delivered ++ first.queue.take count ++ first.queue.drop count
      rw [List.append_assoc, List.take_append_drop, haccepted]
    · change (first.queue.drop count).length ≤ cap
      rw [List.length_drop]
      exact Nat.le_trans (Nat.sub_le _ _) hbounded

theorem Runs.conserved {cap : Nat} {first last : Fifo α} (runs : Runs cap first last)
    (conserved : first.Conserved cap) : last.Conserved cap := by
  induction runs with
  | refl => exact conserved
  | tail _ step ih => exact step.conserved ih

theorem empty_conserved (cap : Nat) : (empty : Fifo α).Conserved cap :=
  ⟨rfl, Nat.zero_le _⟩

end Fifo

end FuseTransport.Foundation
