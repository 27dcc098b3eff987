import FuseTransport.Foundation.Fifo
import FuseTransport.Foundation.Residues
import FuseTransport.Foundation.Runs
import FuseTransport.Proto.Wire

/-!
# The ring between two threads

One producer and one consumer share an array of slots.  Each side owns a counter that
only it moves, and keeps a copy of the other's, which it renews only when the ring looks
full or empty.  The counters are machine words and wrap around.  A method touches at most
one word of the other side, so a thread's methods are its steps.
-/

namespace FuseTransport.Proto

open Foundation Foundation.Runs

def roundUpFrom : Nat → Nat → Nat → Option Nat
  | 0, _, _ => none
  | rounds + 1, p, v => if p < v then roundUpFrom rounds (u64 (p <<< 1)) v else some p

def roundUpPow2 (v : Nat) : Option Nat := roundUpFrom 65 1 v

theorem u64_double {k : Nat} (small : k < 63) : u64 (2 ^ k <<< 1) = 2 ^ (k + 1) := by
  rw [Nat.shiftLeft_eq, ← Nat.pow_succ]
  exact u64_of_lt (Nat.pow_lt_pow_right (by decide) (by omega))

variable {v : Nat}

theorem roundUpFrom_pow (fits : v ≤ 2 ^ 63) (rounds k : Nat) (small : k ≤ 63)
    (enough : 64 ≤ rounds + k) :
    ∃ j ≤ 63, roundUpFrom rounds (2 ^ k) v = some (2 ^ j) ∧ v ≤ 2 ^ j := by
  induction rounds generalizing k with
  | zero => omega
  | succ rounds ih =>
    rw [roundUpFrom]
    split
    · rename_i hbelow
      have hk : k < 63 := by
        rcases Nat.lt_or_ge k 63 with hlt | hge
        · exact hlt
        · rw [Nat.le_antisymm small hge] at hbelow
          exact absurd hbelow (Nat.not_lt.mpr fits)
      rw [u64_double hk]
      exact ih (k + 1) hk (by omega)
    · rename_i hreached
      exact ⟨k, small, rfl, Nat.not_lt.mp hreached⟩

/-- A larger size is never reached. -/
theorem roundUpFrom_none (large : 2 ^ 63 < v) (rounds p : Nat)
    (word : p = 0 ∨ ∃ k ≤ 63, p = 2 ^ k) : roundUpFrom rounds p v = none := by
  induction rounds generalizing p with
  | zero => rfl
  | succ rounds ih =>
    have hbelow : p < v := by
      rcases word with rfl | ⟨k, hk, rfl⟩
      · omega
      · exact Nat.lt_of_le_of_lt (Nat.pow_le_pow_right (by decide) hk) large
    rw [roundUpFrom, if_pos hbelow]
    apply ih
    rcases word with rfl | ⟨k, hk, rfl⟩
    · exact Or.inl rfl
    · rcases Nat.lt_or_eq_of_le hk with hlt | rfl
      · exact Or.inr ⟨k + 1, hlt, u64_double hlt⟩
      · exact Or.inl (by decide)

theorem roundUpPow2_eq_some {cap : Nat} (rounded : roundUpPow2 v = some cap) :
    v ≤ cap ∧ ∃ k ≤ 63, cap = 2 ^ k := by
  rcases Nat.lt_or_ge (2 ^ 63) v with hlarge | hfits
  · rw [roundUpPow2, roundUpFrom_none hlarge 65 1 (Or.inr ⟨0, Nat.zero_le _, rfl⟩)] at rounded
    cases rounded
  · obtain ⟨j, hj, hrounded, hle⟩ := roundUpFrom_pow hfits 65 0 (Nat.zero_le _) (by decide)
    rw [roundUpPow2, show 1 = 2 ^ 0 from rfl, hrounded] at rounded
    cases rounded
    exact ⟨hle, j, hj, rfl⟩

structure SpscRing (α : Type) where
  cap : Nat
  mask : Nat
  head : Nat := 0
  tailCache : Nat := 0
  tail : Nat := 0
  headCache : Nat := 0
  slots : Nat → α
  cap_pow : ∃ k ≤ 63, cap = 2 ^ k
  mask_eq : mask = cap - 1

variable {minCapacity : Nat}

namespace SpscRing

variable {α : Type}

/-- `memory` is what the slots hold when they are allocated. -/
def create (minCapacity : Nat) (memory : Nat → α) : Option (SpscRing α) :=
  match rounded : roundUpPow2 (if minCapacity < 2 then 2 else minCapacity) with
  | some cap =>
    some
      { cap := cap
        mask := cap - 1
        slots := memory
        cap_pow := (roundUpPow2_eq_some rounded).2
        mask_eq := rfl }
  | none => none

variable (ring : SpscRing α)

def writable : SpscRing α × Nat :=
  let seen :=
    if u64Sub ring.tail ring.headCache = ring.cap then { ring with headCache := ring.head } else ring
  (seen, u64Sub seen.cap (u64Sub seen.tail seen.headCache))

def slotForWrite (i : Nat) : Nat := u64 (ring.tail + i) &&& ring.mask

def fill (i : Nat) (item : α) : SpscRing α :=
  { ring with slots := Function.update ring.slots (ring.slotForWrite i) item }

def commit (n : Nat) : SpscRing α := { ring with tail := u64 (ring.tail + n) }

def readable : SpscRing α × Nat :=
  let seen := if ring.head = ring.tailCache then { ring with tailCache := ring.tail } else ring
  (seen, u64Sub seen.tailCache seen.head)

/-- The slot the consumer gets for its `i`-th item. -/
def slotForRead (i : Nat) : Nat := u64 (ring.head + i) &&& ring.mask

def consume (n : Nat) : SpscRing α := { ring with head := u64 (ring.head + n) }

theorem create_some {memory : Nat → α} {ring : SpscRing α}
    (made : create minCapacity memory = some ring) :
    minCapacity ≤ ring.cap ∧ 2 ≤ ring.cap ∧ ring.head = 0 ∧ ring.tailCache = 0 ∧ ring.tail = 0 ∧
      ring.headCache = 0 := by
  unfold create at made
  split at made
  · rename_i cap hrounded
    cases made
    have hle := (roundUpPow2_eq_some hrounded).1
    refine ⟨?_, ?_, rfl, rfl, rfl, rfl⟩
    · change minCapacity ≤ cap
      split at hle
      · omega
      · exact hle
    · change 2 ≤ cap
      split at hle
      · exact hle
      · omega
  · cases made

/-- Both sides find the slot of a counter by its remainder. -/
theorem place (count i : Nat) : u64 (u64 count + i) &&& ring.mask = (count + i) % ring.cap := by
  obtain ⟨k, hk, hcap⟩ := ring.cap_pow
  have hdvd : 2 ^ k ∣ 2 ^ 64 := Nat.pow_dvd_pow 2 (by omega)
  rw [u64_add, ring.mask_eq, hcap, Nat.and_two_pow_sub_one_eq_mod]
  exact Nat.mod_mod_of_dvd _ hdvd

theorem cap_lt : ring.cap < 2 ^ 64 := by
  obtain ⟨k, hk, hcap⟩ := ring.cap_pow
  rw [hcap]
  exact Nat.pow_lt_pow_right (by decide) (by omega)

end SpscRing

/-- A step of the producer or of the consumer. -/
inductive RingEvent (α : Type) where
  | writable
  | fill (i : Nat) (item : α)
  | commit (n : Nat)
  | readable
  | read (i : Nat)
  | consume (n : Nat)

/-- A ring in use.  `room` and `ready` are what is left of the last answers of `writable`
and `readable`.  The ring does not keep the rest: what the producer has put into its
slots since, what it has committed and what the consumer has given back, and what the
consumer read, each with its place among the committed items. -/
structure RingUse (α : Type) where
  ring : SpscRing α
  room : Nat := 0
  ready : Nat := 0
  staged : Nat → Option α := fun _ => none
  pushed : List α := []
  popped : List α := []
  reads : List (Nat × α) := []

variable {i n : Nat}

namespace RingUse

variable {α : Type}

def create (ring : SpscRing α) : RingUse α where
  ring := ring

variable (use : RingUse α)

/-- The items a commit publishes: what was put into the slots, or what they held. -/
def batch (n : Nat) : List α :=
  (List.range n).map fun i => (use.staged i).getD (use.ring.slots (use.ring.slotForWrite i))

def front (n : Nat) : List α :=
  (List.range n).map fun i => use.ring.slots (use.ring.slotForRead i)

/-- The threads use no more than what was answered. -/
def step : RingEvent α → Option (RingUse α)
  | .writable => some { use with ring := use.ring.writable.1, room := use.ring.writable.2 }
  | .fill i item =>
    if i < use.room then
      some { use with
        ring := use.ring.fill i item
        staged := Function.update use.staged i (some item) }
    else none
  | .commit n =>
    if n ≤ use.room then
      some { use with
        ring := use.ring.commit n
        room := use.room - n
        staged := fun i => use.staged (i + n)
        pushed := use.pushed ++ use.batch n }
    else none
  | .readable => some { use with ring := use.ring.readable.1, ready := use.ring.readable.2 }
  | .read i =>
    if i < use.ready then
      some { use with
        reads := use.reads ++ [(use.popped.length + i, use.ring.slots (use.ring.slotForRead i))] }
    else none
  | .consume n =>
    if n ≤ use.ready then
      some { use with
        ring := use.ring.consume n
        ready := use.ready - n
        popped := use.popped ++ use.front n }
    else none

/-- The queue a ring in use stands for, read off its counters and slots. -/
def fifo : Fifo α where
  queue := use.front (u64Sub use.ring.tail use.ring.head)
  accepted := use.pushed
  delivered := use.popped

/-! ## The invariant -/

/-- `seenHead` and `seenTail` are the counts each side last saw of the other. -/
structure Inv (seenHead seenTail : Nat) (use : RingUse α) : Prop where
  head : use.ring.head = u64 use.popped.length
  tail : use.ring.tail = u64 use.pushed.length
  headCache : use.ring.headCache = u64 seenHead
  tailCache : use.ring.tailCache = u64 seenTail
  seenHead_le : seenHead ≤ use.popped.length
  le_seenTail : use.popped.length + use.ready ≤ seenTail
  seenTail_le : seenTail ≤ use.pushed.length
  bounded : use.pushed.length + use.room ≤ seenHead + use.ring.cap
  held : ∀ j, use.popped.length ≤ j → j < use.pushed.length →
    use.pushed[j]? = some (use.ring.slots (j % use.ring.cap))
  ordered : use.popped <+: use.pushed
  staged : ∀ i item, use.staged i = some item →
    i < use.room ∧ use.ring.slots ((use.pushed.length + i) % use.ring.cap) = item
  reads : ∀ position item, (position, item) ∈ use.reads → use.pushed[position]? = some item

namespace Inv

variable {seenHead seenTail : Nat} {use : RingUse α}

section

variable (inv : use.Inv seenHead seenTail)
include inv

theorem slotForWrite (i : Nat) :
    use.ring.slotForWrite i = (use.pushed.length + i) % use.ring.cap := by
  rw [SpscRing.slotForWrite, inv.tail, SpscRing.place]

theorem slotForRead (i : Nat) :
    use.ring.slotForRead i = (use.popped.length + i) % use.ring.cap := by
  rw [SpscRing.slotForRead, inv.head, SpscRing.place]

theorem popped_le : use.popped.length ≤ use.pushed.length :=
  inv.ordered.length_le

theorem fill_eq : u64Sub use.ring.tail use.ring.head = use.pushed.length - use.popped.length := by
  have hbounded := inv.bounded
  have hseen := inv.seenHead_le
  have hcap := use.ring.cap_lt
  rw [inv.tail, inv.head]
  exact u64Sub_counters inv.popped_le (by omega)

/-- The producer's view of the fill, which may be too large. -/
theorem seenFill_eq : u64Sub use.ring.tail use.ring.headCache = use.pushed.length - seenHead := by
  have hbounded := inv.bounded
  have hcap := use.ring.cap_lt
  rw [inv.tail, inv.headCache]
  exact u64Sub_counters (Nat.le_trans inv.seenHead_le inv.popped_le) (by omega)

/-- The slots in front of the consumer hold what comes next. -/
theorem front_eq (inside : use.popped.length + n ≤ use.pushed.length) :
    use.front n = (use.pushed.drop use.popped.length).take n := by
  apply List.ext_getElem?
  intro i
  rcases Nat.lt_or_ge i n with hlt | hge
  · rw [List.getElem?_take_of_lt hlt, List.getElem?_drop,
      inv.held _ (Nat.le_add_right _ _) (by omega), front, List.getElem?_map, List.getElem?_range hlt, Option.map_some, inv.slotForRead]
  · have hlength : (use.front n).length ≤ i := by simpa [front] using hge
    rw [List.getElem?_eq_none_iff.mpr hlength, List.getElem?_take_eq_none hge]

theorem queue_eq : use.fifo.queue = use.pushed.drop use.popped.length := by
  have hpopped := inv.popped_le
  change use.front _ = _
  rw [inv.fill_eq, inv.front_eq (by omega)]
  exact List.take_of_length_le (Nat.le_of_eq List.length_drop)

theorem queue_length : use.fifo.queue.length = use.pushed.length - use.popped.length := by
  rw [inv.queue_eq, List.length_drop]

/-- The producer's copy is renewed when it shows a full ring. -/
theorem writable_eq :
    ∃ seen, seenHead ≤ seen ∧ seen ≤ use.popped.length ∧
      (use.pushed.length - seen = use.ring.cap → seen = use.popped.length) ∧
      use.ring.writable = ({ use.ring with headCache := u64 seen },
        use.ring.cap - (use.pushed.length - seen)) := by
  have hseen := inv.seenHead_le
  have hbounded := inv.bounded
  unfold SpscRing.writable
  rw [inv.seenFill_eq]
  split
  · refine ⟨use.popped.length, hseen, Nat.le_refl _, fun _ => rfl, ?_⟩
    dsimp only
    rw [inv.fill_eq, ← inv.head, u64Sub_of_le (by omega) use.ring.cap_lt]
  · rename_i hnotFull
    refine ⟨seenHead, Nat.le_refl _, hseen, fun full => absurd full hnotFull, ?_⟩
    dsimp only
    rw [inv.seenFill_eq, ← inv.headCache, u64Sub_of_le (by omega) use.ring.cap_lt]

/-- The consumer's copy is renewed when it shows an empty ring. -/
theorem readable_eq :
    ∃ seen, seenTail ≤ seen ∧ seen ≤ use.pushed.length ∧
      (seen = use.popped.length → seen = use.pushed.length) ∧
      use.ring.readable = ({ use.ring with tailCache := u64 seen }, seen - use.popped.length) := by
  have hseen := inv.le_seenTail
  have hbelow := inv.seenTail_le
  have hhead := inv.seenHead_le
  have hbounded := inv.bounded
  have hcap := use.ring.cap_lt
  unfold SpscRing.readable
  split
  · refine ⟨use.pushed.length, hbelow, Nat.le_refl _, fun _ => rfl, ?_⟩
    dsimp only
    rw [inv.fill_eq, ← inv.tail]
  · rename_i hnotEmpty
    refine ⟨seenTail, Nat.le_refl _, hbelow, ?_, ?_⟩
    · intro same
      rw [inv.head, inv.tailCache, same] at hnotEmpty
      exact absurd rfl hnotEmpty
    · have hready : u64Sub use.ring.tailCache use.ring.head = seenTail - use.popped.length := by
        rw [inv.tailCache, inv.head]
        exact u64Sub_counters (by omega) (by omega)
      dsimp only
      rw [hready, ← inv.tailCache]

/-- A commit publishes what the slots hold. -/
theorem batch_eq (n : Nat) :
    use.batch n =
      (List.range n).map fun i => use.ring.slots ((use.pushed.length + i) % use.ring.cap) := by
  apply List.map_congr_left
  intro i _
  rw [inv.slotForWrite]
  cases hstaged : use.staged i with
  | none => rfl
  | some item => exact (inv.staged i item hstaged).2.symm

end

theorem batch_length (use : RingUse α) (n : Nat) : (use.batch n).length = n := by
  simp [batch]

theorem writable (inv : use.Inv seenHead seenTail) :
    ∃ seen, ({ use with ring := use.ring.writable.1, room := use.ring.writable.2 } :
      RingUse α).Inv seen seenTail := by
  obtain ⟨seen, hgrown, hseen, _, hwritable⟩ := inv.writable_eq
  have hbounded := inv.bounded
  have hpopped := inv.popped_le
  rw [hwritable]
  refine ⟨seen, { inv with headCache := rfl, seenHead_le := hseen, bounded := ?_, staged := ?_ }⟩
  · change use.pushed.length + (use.ring.cap - (use.pushed.length - seen)) ≤ seen + use.ring.cap
    omega
  · intro i item hstaged
    obtain ⟨hi, hslot⟩ := inv.staged i item hstaged
    refine ⟨?_, hslot⟩
    change i < use.ring.cap - (use.pushed.length - seen)
    omega

/-- Filling a free slot touches neither a published one nor another free one. -/
theorem fill (inv : use.Inv seenHead seenTail) (item : α) (inside : i < use.room) :
    ({ use with
      ring := use.ring.fill i item
      staged := Function.update use.staged i (some item) } : RingUse α).Inv seenHead seenTail := by
  have hbounded := inv.bounded
  have hseen := inv.seenHead_le
  have hpopped := inv.popped_le
  have hother : ∀ j, use.popped.length ≤ j → j < use.popped.length + use.ring.cap →
      j ≠ use.pushed.length + i →
      (use.ring.fill i item).slots (j % use.ring.cap) = use.ring.slots (j % use.ring.cap) := by
    intro j above below differs
    refine Function.update_of_ne ?_ _ _
    rw [inv.slotForWrite]
    intro same
    exact differs (Residues.eq_of_mod_eq above below (by omega) (by omega) same)
  refine { inv with held := ?_, staged := ?_ }
  · intro j above below
    change j < use.pushed.length at below
    change _ = some ((use.ring.fill i item).slots (j % use.ring.cap))
    rw [hother j above (by omega) (by omega)]
    exact inv.held j above below
  · intro k other hstaged
    change Function.update use.staged i (some item) k = some other at hstaged
    by_cases hk : k = i
    · subst hk
      rw [Function.update_self] at hstaged
      cases hstaged
      refine ⟨inside, ?_⟩
      change Function.update use.ring.slots _ _ ((use.pushed.length + k) % use.ring.cap) = _
      rw [inv.slotForWrite, Function.update_self]
    · rw [Function.update_of_ne hk] at hstaged
      obtain ⟨hroom, hslot⟩ := inv.staged k other hstaged
      refine ⟨hroom, ?_⟩
      change (use.ring.fill i item).slots ((use.pushed.length + k) % use.ring.cap) = other
      rw [hother _ (by omega) (by omega) (by omega)]
      exact hslot

theorem commit (inv : use.Inv seenHead seenTail) (inside : n ≤ use.room) :
    ({ use with
      ring := use.ring.commit n
      room := use.room - n
      staged := fun i => use.staged (i + n)
      pushed := use.pushed ++ use.batch n } : RingUse α).Inv seenHead seenTail := by
  have hbounded := inv.bounded
  have hlength : (use.pushed ++ use.batch n).length = use.pushed.length + n := by
    rw [List.length_append, batch_length]
  constructor
  case head => exact inv.head
  case tail =>
    change u64 (use.ring.tail + n) = u64 (use.pushed ++ use.batch n).length
    rw [inv.tail, u64_add, hlength]
  case headCache => exact inv.headCache
  case tailCache => exact inv.tailCache
  case seenHead_le => exact inv.seenHead_le
  case le_seenTail => exact inv.le_seenTail
  case seenTail_le =>
    rw [hlength]
    exact Nat.le_trans inv.seenTail_le (Nat.le_add_right _ _)
  case bounded =>
    change (use.pushed ++ use.batch n).length + (use.room - n) ≤ seenHead + use.ring.cap
    omega
  case held =>
    intro j above below
    change j < (use.pushed ++ use.batch n).length at below
    change (use.pushed ++ use.batch n)[j]? = some (use.ring.slots (j % use.ring.cap))
    rcases Nat.lt_or_ge j use.pushed.length with hold | hnew
    · rw [List.getElem?_append_left hold]
      exact inv.held j above hold
    · obtain ⟨i, rfl⟩ := Nat.exists_eq_add_of_le hnew
      rw [List.getElem?_append_right hnew, Nat.add_sub_cancel_left, inv.batch_eq, List.getElem?_map,
        List.getElem?_range (by omega), Option.map_some]
  case ordered => exact inv.ordered.trans (List.prefix_append _ _)
  case staged =>
    intro i item hstaged
    obtain ⟨hroom, hslot⟩ := inv.staged (i + n) item hstaged
    change i < use.room - n ∧
      use.ring.slots (((use.pushed ++ use.batch n).length + i) % use.ring.cap) = item
    rw [hlength, Nat.add_assoc, Nat.add_comm n i]
    exact ⟨by omega, hslot⟩
  case reads =>
    intro position item member
    have hread := inv.reads position item member
    have hinside := (List.getElem?_eq_some_iff.mp hread).1
    rw [List.getElem?_append_left hinside]
    exact hread

section

variable (inv : use.Inv seenHead seenTail)
include inv

theorem readable :
    ∃ seen, ({ use with ring := use.ring.readable.1, ready := use.ring.readable.2 } :
      RingUse α).Inv seenHead seen := by
  obtain ⟨seen, hgrown, hseen, _, hreadable⟩ := inv.readable_eq
  have hahead := inv.le_seenTail
  rw [hreadable]
  refine ⟨seen, { inv with tailCache := rfl, seenTail_le := hseen, le_seenTail := ?_ }⟩
  change use.popped.length + (seen - use.popped.length) ≤ seen
  omega

/-- What the next slots of the consumer hold. -/
theorem read_eq (inside : i < use.ready) :
    use.pushed[use.popped.length + i]? = some (use.ring.slots (use.ring.slotForRead i)) := by
  have hahead := inv.le_seenTail
  have hbelow := inv.seenTail_le
  rw [inv.slotForRead]
  exact inv.held _ (Nat.le_add_right _ _) (by omega)

theorem read (inside : i < use.ready) :
    ({ use with
      reads := use.reads ++ [(use.popped.length + i, use.ring.slots (use.ring.slotForRead i))] } :
        RingUse α).Inv seenHead seenTail := by
  refine { inv with reads := ?_ }
  intro position item member
  rcases List.mem_append.mp member with hold | hnew
  · exact inv.reads position item hold
  · obtain ⟨rfl, rfl⟩ := Prod.mk.inj (List.mem_singleton.mp hnew)
    exact inv.read_eq inside

theorem consume (inside : n ≤ use.ready) :
    ({ use with
      ring := use.ring.consume n
      ready := use.ready - n
      popped := use.popped ++ use.front n } : RingUse α).Inv seenHead seenTail := by
  have hahead := inv.le_seenTail
  have hbelow := inv.seenTail_le
  have hlength : (use.popped ++ use.front n).length = use.popped.length + n := by
    simp [front]
  constructor
  case head =>
    change u64 (use.ring.head + n) = u64 (use.popped ++ use.front n).length
    rw [inv.head, u64_add, hlength]
  case tail => exact inv.tail
  case headCache => exact inv.headCache
  case tailCache => exact inv.tailCache
  case seenHead_le =>
    rw [hlength]
    exact Nat.le_trans inv.seenHead_le (Nat.le_add_right _ _)
  case le_seenTail =>
    change (use.popped ++ use.front n).length + (use.ready - n) ≤ seenTail
    omega
  case seenTail_le => exact inv.seenTail_le
  case bounded => exact inv.bounded
  case held =>
    intro j above below
    change (use.popped ++ use.front n).length ≤ j at above
    exact inv.held j (by omega) below
  case ordered =>
    obtain ⟨rest, hrest⟩ := inv.ordered
    rw [inv.front_eq (by omega), ← hrest, List.drop_left, List.prefix_append_right_inj]
    exact List.take_prefix n rest
  case staged => exact inv.staged
  case reads => exact inv.reads

end

end Inv

/-! ## Refinement -/

theorem create_inv {memory : Nat → α} {ring : SpscRing α}
    (made : SpscRing.create minCapacity memory = some ring) : (create ring).Inv 0 0 := by
  obtain ⟨_, _, hhead, htailCache, htail, hheadCache⟩ := SpscRing.create_some made
  constructor
  case head => exact hhead
  case tail => exact htail
  case headCache => exact hheadCache
  case tailCache => exact htailCache
  case seenHead_le => exact Nat.le_refl _
  case le_seenTail => exact Nat.le_refl _
  case seenTail_le => exact Nat.le_refl _
  case bounded => exact Nat.zero_le _
  case held => exact fun j _ below => absurd below (Nat.not_lt_zero j)
  case ordered => exact List.prefix_rfl
  case staged => exact nofun
  case reads => exact nofun

namespace Inv

variable {seenHead seenTail : Nat} {use use' : RingUse α}

section

variable (inv : use.Inv seenHead seenTail)
include inv

theorem fifo_eq : use.fifo = ⟨use.pushed.drop use.popped.length, use.pushed, use.popped⟩ := by
  rw [← inv.queue_eq]
  rfl

theorem fifo_commit (inv' : use'.Inv seenHead seenTail)
    (pushed : use'.pushed = use.pushed ++ use.batch n) (popped : use'.popped = use.popped) :
    use'.fifo = use.fifo.push (use.batch n) := by
  rw [inv'.fifo_eq, inv.fifo_eq, pushed, popped, Fifo.push,
    List.drop_append_of_le_length inv.popped_le]

theorem fifo_consume (inside : n ≤ use.ready) (inv' : use'.Inv seenHead seenTail)
    (pushed : use'.pushed = use.pushed) (popped : use'.popped = use.popped ++ use.front n) :
    use'.fifo = use.fifo.pop n := by
  have hahead := inv.le_seenTail
  have hbelow := inv.seenTail_le
  rw [inv'.fifo_eq, inv.fifo_eq, pushed, popped, Fifo.pop, inv.front_eq (by omega)]
  simp only [List.length_append, List.length_take, List.length_drop, List.drop_drop, Fifo.mk.injEq,
    and_true]
  congr 1
  omega

/-- A step keeps the invariant, and is a step of the queue or none. -/
theorem step {e : RingEvent α} (moved : use.step e = some use') :
    (∃ seen seen', use'.Inv seen seen') ∧ use'.ring.cap = use.ring.cap ∧
      (use'.fifo = use.fifo ∨ Fifo.Step use.ring.cap use.fifo use'.fifo) := by
  cases e with
  | writable =>
    cases moved
    obtain ⟨seen, hinv⟩ := inv.writable
    obtain ⟨_, _, _, _, hwritable⟩ := inv.writable_eq
    refine ⟨⟨seen, seenTail, hinv⟩, ?_, Or.inl ?_⟩
    · rw [hwritable]
    · rw [hinv.fifo_eq, inv.fifo_eq]
  | fill i item =>
    rw [RingUse.step] at moved
    split at moved
    · rename_i hinside
      cases moved
      have hinv := inv.fill item hinside
      refine ⟨⟨seenHead, seenTail, hinv⟩, rfl, Or.inl ?_⟩
      rw [hinv.fifo_eq, inv.fifo_eq]
    · cases moved
  | commit n =>
    rw [RingUse.step] at moved
    split at moved
    · rename_i hinside
      cases moved
      have hinv := inv.commit hinside
      refine ⟨⟨seenHead, seenTail, hinv⟩, rfl, Or.inr ?_⟩
      rw [inv.fifo_commit hinv rfl rfl]
      refine Fifo.Step.push _ _ ?_
      have hbounded := inv.bounded
      have hseen := inv.seenHead_le
      have hpopped := inv.popped_le
      rw [inv.queue_length, batch_length]
      omega
    · cases moved
  | readable =>
    cases moved
    obtain ⟨seen, hinv⟩ := inv.readable
    obtain ⟨_, _, _, _, hreadable⟩ := inv.readable_eq
    refine ⟨⟨seenHead, seen, hinv⟩, ?_, Or.inl ?_⟩
    · rw [hreadable]
    · rw [hinv.fifo_eq, inv.fifo_eq]
  | read i =>
    rw [RingUse.step] at moved
    split at moved
    · rename_i hinside
      cases moved
      have hinv := inv.read hinside
      refine ⟨⟨seenHead, seenTail, hinv⟩, rfl, Or.inl ?_⟩
      rw [hinv.fifo_eq, inv.fifo_eq]
    · cases moved
  | consume n =>
    rw [RingUse.step] at moved
    split at moved
    · rename_i hinside
      cases moved
      have hinv := inv.consume hinside
      refine ⟨⟨seenHead, seenTail, hinv⟩, rfl, Or.inr ?_⟩
      rw [inv.fifo_consume hinside hinv rfl rfl]
      refine Fifo.Step.pop _ _ ?_
      have hahead := inv.le_seenTail
      have hbelow := inv.seenTail_le
      rw [inv.queue_length]
      omega
    · cases moved

end

end Inv

/-- A run of the threads is a run of the queue. -/
theorem replay_refines {first last : RingUse α} {run : List (RingEvent α)}
    (replayed : replay RingUse.step first run = some last)
    (inv : ∃ seen seen', first.Inv seen seen') :
    (∃ seen seen', last.Inv seen seen') ∧ last.ring.cap = first.ring.cap ∧
      Fifo.Runs first.ring.cap first.fifo last.fifo := by
  induction run generalizing first with
  | nil =>
    cases replayed
    exact ⟨inv, rfl, Relation.ReflTransGen.refl⟩
  | cons e rest ih =>
    obtain ⟨next, hnext, onward⟩ := Option.bind_eq_some_iff.mp replayed
    obtain ⟨_, _, hinv⟩ := inv
    obtain ⟨hkept, hcap, hstep⟩ := hinv.step hnext
    obtain ⟨hlast, hcap', hruns⟩ := ih onward hkept
    rw [hcap] at hruns
    refine ⟨hlast, hcap'.trans hcap, ?_⟩
    rcases hstep with hsame | hstep
    · rwa [hsame] at hruns
    · exact Relation.ReflTransGen.head hstep hruns

end RingUse

/-- The ring is a bounded queue: what the consumer reads and gives back is what was
committed, in order, and the answers of both sides are safe and not needlessly zero. -/
theorem ring_refines_fifo {α : Type} {minCapacity : Nat} {memory : Nat → α} {ring : SpscRing α}
    {run : List (RingEvent α)} {use : RingUse α}
    (made : SpscRing.create minCapacity memory = some ring)
    (reached : replay RingUse.step (RingUse.create ring) run = some use) :
    (minCapacity ≤ ring.cap ∧ Fifo.Runs ring.cap Fifo.empty use.fifo) ∧
    (use.pushed = use.popped ++ use.fifo.queue ∧ use.fifo.queue.length ≤ ring.cap) ∧
    (∀ i < use.ready, use.fifo.queue[i]? = some (use.ring.slots (use.ring.slotForRead i))) ∧
    (∀ position item, (position, item) ∈ use.reads → use.pushed[position]? = some item) ∧
    (use.ring.writable.2 ≤ ring.cap - use.fifo.queue.length ∧
      (use.ring.writable.2 = 0 → use.fifo.queue.length = ring.cap)) ∧
    (use.ring.readable.2 ≤ use.fifo.queue.length ∧
      (use.ring.readable.2 = 0 → use.fifo.queue = [])) := by
  have hinitial := RingUse.create_inv made
  have hempty : (RingUse.create ring).fifo = Fifo.empty := hinitial.fifo_eq
  obtain ⟨⟨seenHead, seenTail, inv⟩, hcap, hruns⟩ :=
    RingUse.replay_refines reached ⟨0, 0, hinitial⟩
  rw [hempty] at hruns
  change use.ring.cap = ring.cap at hcap
  have hbounded := inv.bounded
  have hlength := inv.queue_length
  refine ⟨⟨(SpscRing.create_some made).1, hruns⟩, hruns.conserved (Fifo.empty_conserved _), ?_,
    inv.reads, ?_, ?_⟩
  · intro i inside
    rw [inv.queue_eq, List.getElem?_drop]
    exact inv.read_eq inside
  · obtain ⟨seen, _, hseen, hfull, hwritable⟩ := inv.writable_eq
    rw [hwritable]
    constructor
    · omega
    · intro zero
      omega
  · obtain ⟨seen, hgrown, hseen, hdrained, hreadable⟩ := inv.readable_eq
    rw [hreadable, ← List.length_eq_zero_iff]
    constructor
    · omega
    · intro zero
      have hahead := inv.le_seenTail
      omega

/-- A ring of two slots that is filled, emptied and filled across its end. -/
def wrapRun : List (RingEvent Nat) :=
  [.writable, .fill 0 7, .fill 1 8, .commit 2, .writable, .readable, .read 0, .consume 1, .writable,
    .fill 0 9, .commit 1, .read 0, .consume 1, .readable, .read 0]

theorem ring_refines_fifo_wrapRun :
    ∃ ring use, SpscRing.create 0 (fun _ => 0) = some ring ∧
      replay RingUse.step (RingUse.create ring) wrapRun = some use ∧
      use.pushed = [7, 8, 9] ∧ use.popped = [7, 8] ∧ use.fifo.queue = [9] := by
  obtain ⟨ring, made, use, reached, hpushed, hpopped⟩ :
      ∃ ring, SpscRing.create 0 (fun _ => 0) = some ring ∧
        ∃ use, replay RingUse.step (RingUse.create ring) wrapRun = some use ∧
          use.pushed = [7, 8, 9] ∧ use.popped = [7, 8] := by decide +kernel
  obtain ⟨_, ⟨hconserved, _⟩, _⟩ := ring_refines_fifo made reached
  rw [hpushed, hpopped] at hconserved
  change [7, 8] ++ [9] = [7, 8] ++ use.fifo.queue at hconserved
  exact ⟨ring, use, made, reached, hpushed, hpopped, (List.append_cancel_left hconserved).symm⟩

end FuseTransport.Proto
