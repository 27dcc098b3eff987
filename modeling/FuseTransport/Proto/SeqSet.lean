import Mathlib.Data.Finset.Max
import Mathlib.Data.Fintype.EquivFin
import FuseTransport.Foundation.Machines
import FuseTransport.Proto.Receiver

/-!
# The receiver's window as a set

What a receiver stream is for: it keeps the set of the sequence numbers it has accepted.
The base is the least number that is missing from the set, and the set decides every
answer.  The ring of bits, its rotation and its clearing refine this.
-/

namespace FuseTransport.Proto

open Foundation Foundation.Machines Foundation.Runs

/-- The accepted numbers, with the send time each came with. -/
structure SeqSet where
  window : Nat
  accepted : Finset Nat := ∅
  sentAt : Nat → Nat := fun _ => 0

namespace SeqSet

variable (m : SeqSet)

theorem exists_missing : ∃ s, s ∉ m.accepted := Infinite.exists_notMem_finset m.accepted

/-- The least number that has not been accepted. -/
def base : Nat := Nat.find m.exists_missing

def onReceive (seqNo sendTimeNs : Nat) : SeqSet × ReceiveResult :=
  if seqNo < m.base ∨ seqNo ∈ m.accepted then (m, .duplicate)
  else if seqNo - m.base ≥ m.window then (m, .outOfWindow)
  else
    ({ m with
      accepted := insert seqNo m.accepted
      sentAt := Function.update m.sentAt seqNo sendTimeNs }, .accepted)

/-- The send time of the highest accepted number. -/
def echo : Nat :=
  if some_accepted : m.accepted.Nonempty then m.sentAt (m.accepted.max' some_accepted) else 0

theorem base_eq_iff (b : Nat) : m.base = b ↔ b ∉ m.accepted ∧ ∀ s < b, s ∈ m.accepted := by
  rw [base, Nat.find_eq_iff]
  simp only [not_not]

end SeqSet

inductive ReceiverCall where
  | onReceive (seqNo sendTimeNs nowNs : Nat)
  | collectNacks (nowNs reorderDelayNs renackIntervalNs : Nat)

/-- A call of the stream, with the answer to an arrival. -/
def ReceiverStream.serves (r : ReceiverStream) : ReceiverCall → ReceiverStream × Option ReceiveResult
  | .onReceive seqNo sendTimeNs nowNs =>
    ((r.onReceive seqNo sendTimeNs nowNs).1, some (r.onReceive seqNo sendTimeNs nowNs).2)
  | .collectNacks nowNs reorderDelayNs renackIntervalNs =>
    ((r.collectNacks nowNs reorderDelayNs renackIntervalNs).1, none)

/-- The same call of the set; reporting gaps does not concern it. -/
def SeqSet.serves (m : SeqSet) : ReceiverCall → SeqSet × Option ReceiveResult
  | .onReceive seqNo sendTimeNs _ =>
    ((m.onReceive seqNo sendTimeNs).1, some (m.onReceive seqNo sendTimeNs).2)
  | .collectNacks _ _ _ => (m, none)

theorem SeqSet.serves_window (m : SeqSet) (call : ReceiverCall) :
    (m.serves call).1.window = m.window := by
  cases call with
  | onReceive seqNo sendTimeNs nowNs =>
    rw [serves, onReceive]
    split
    · rfl
    · split <;> rfl
  | collectNacks => rfl

/-- The window ends before the numbers do. -/
def ReceiverStream.Low (r : ReceiverStream) (_ : ReceiverCall) : Prop :=
  r.baseSeqNo < 2 ^ 64 - kMaxWindow

instance (r : ReceiverStream) (call : ReceiverCall) : Decidable (r.Low call) :=
  inferInstanceAs (Decidable (_ < _))

/-! ## The ring refines the set -/

structure Refines (r : ReceiverStream) (m : SeqSet) : Prop where
  inv : r.Inv
  window : r.windowSize = m.window
  accepted : ∀ s, r.Accepted s ↔ s ∈ m.accepted
  base : m.base = r.baseSeqNo
  any : r.haveAny = true ↔ m.accepted.Nonempty
  highest : r.haveAny = true → r.highestReceived ∈ m.accepted
  above : ∀ s ∈ m.accepted, s ≤ r.highestReceived
  sent : r.lastSendTime = if r.haveAny then m.sentAt r.highestReceived else 0

namespace Refines

variable {r : ReceiverStream} {m : SeqSet}

theorem create (streamId windowSize : Nat) (lossless : Bool) :
    Refines (ReceiverStream.create streamId windowSize lossless)
      { window := clampWindow windowSize } where
  inv := ReceiverStream.create_inv streamId windowSize lossless
  window := rfl
  accepted := fun s =>
    iff_of_false (ReceiverStream.create_accepted streamId windowSize lossless s) (by simp)
  base := (SeqSet.base_eq_iff _ _).mpr ⟨by simp, fun s below => absurd below (Nat.not_lt_zero s)⟩
  any := iff_of_false (by simp [ReceiverStream.create]) (by simp)
  highest := fun any => by simp [ReceiverStream.create] at any
  above := by simp
  sent := rfl

section

variable (refines : Refines r m)
include refines

/-- The set's highest number is the one the stream remembers. -/
theorem echo : r.lastSendTime = m.echo := by
  rw [refines.sent, SeqSet.echo]
  by_cases hany : r.haveAny = true
  · have hsome := refines.any.mp hany
    have hmax : m.accepted.max' hsome = r.highestReceived :=
      Nat.le_antisymm (refines.above _ (m.accepted.max'_mem hsome))
        (m.accepted.le_max' _ (refines.highest hany))
    rw [if_pos hany, dif_pos hsome, hmax]
  · rw [if_neg hany, dif_neg (mt refines.any.mpr hany)]

/-- A change of the timers and the counter leaves what the ring stands for. -/
theorem idle {r' : ReceiverStream} (same : ∃ count stamps, r' =
      { r with windowOverflowCount := count, lastNackNs := stamps }) : Refines r' m := by
  obtain ⟨count, stamps, rfl⟩ := same
  exact ⟨⟨refines.inv.confined, refines.inv.base_lt⟩, refines.window, refines.accepted, refines.base,
    refines.any, refines.highest, refines.above, refines.sent⟩

theorem insert {after : ReceiverStream} {seqNo sendTimeNs nowNs : Nat}
    (taken : r.onReceive seqNo sendTimeNs nowNs = (after, .accepted))
    (admits : r.Admits after seqNo) :
    Refines after { m with
      accepted := Insert.insert seqNo m.accepted
      sentAt := Function.update m.sentAt seqNo sendTimeNs } := by
  obtain ⟨hany, hhighest, htime⟩ := ReceiverStream.onReceive_newest taken
  have haccepted : ∀ s, after.Accepted s ↔ s ∈ Insert.insert seqNo m.accepted := by
    intro s
    rw [admits.accepted, refines.accepted, Finset.mem_insert, or_comm]
  constructor
  case inv => exact admits.inv
  case window => exact admits.window.trans refines.window
  case accepted => exact haccepted
  case base =>
    refine (SeqSet.base_eq_iff _ _).mpr ⟨mt (haccepted _).mpr admits.missing, fun s below => ?_⟩
    exact (haccepted s).mp (Or.inl below)
  case any => exact iff_of_true hany (Finset.insert_nonempty _ _)
  case highest =>
    intro _
    rw [hhighest]
    split
    · exact Finset.mem_insert_self _ _
    · rename_i hlower
      rw [not_or, Bool.not_eq_false] at hlower
      exact Finset.mem_insert_of_mem (refines.highest hlower.1)
  case above =>
    intro s member
    rw [hhighest]
    rcases Finset.mem_insert.mp member with rfl | hold
    · split
      · exact Nat.le_refl _
      · omega
    · have hbefore := refines.above s hold
      split
      · rename_i hnew
        rcases hnew with hnone | hhigher
        · rw [refines.any.mpr ⟨s, hold⟩] at hnone
          cases hnone
        · omega
      · exact hbefore
  case sent =>
    rw [if_pos hany, htime, hhighest]
    change _ = Function.update m.sentAt seqNo sendTimeNs _
    split
    · rw [Function.update_self]
    · rename_i hlower
      rw [not_or, Bool.not_eq_false] at hlower
      -- The new number is missing from the set, so it is not the highest of the old ones.
      have hother : r.highestReceived ≠ seqNo := by
        intro same
        have hfresh := (ReceiverStream.not_accepted_of_fresh
          ((ReceiverStream.onReceive_accepted_iff r seqNo sendTimeNs nowNs).mp (by rw [taken]))).1
        exact hfresh ((refines.accepted seqNo).mpr (same ▸ refines.highest hlower.1))
      rw [refines.sent, if_pos hlower.1, Function.update_of_ne hother]

/-- Stream and set give the same answer and go on standing for each other. -/
theorem onReceive (low : r.baseSeqNo < 2 ^ 64 - kMaxWindow) (seqNo sendTimeNs nowNs : Nat) :
    (r.onReceive seqNo sendTimeNs nowNs).2 = (m.onReceive seqNo sendTimeNs).2 ∧
      Refines (r.onReceive seqNo sendTimeNs nowNs).1 (m.onReceive seqNo sendTimeNs).1 := by
  have hknown : seqNo < m.base ∨ seqNo ∈ m.accepted ↔ r.Accepted seqNo := by
    rw [refines.base, ← refines.accepted]
    exact or_iff_right_of_imp Or.inl
  have hwindow := refines.window
  rw [SeqSet.onReceive, if_congr hknown rfl rfl, refines.base]
  by_cases haccepted : r.Accepted seqNo
  · rw [if_pos haccepted, ReceiverStream.onReceive_duplicate haccepted]
    exact ⟨rfl, refines⟩
  · have habove : r.baseSeqNo ≤ seqNo := Nat.le_of_not_lt fun below => haccepted (Or.inl below)
    rw [if_neg haccepted]
    rcases Nat.lt_or_ge seqNo (r.baseSeqNo + r.windowSize) with hinside | hpast
    · have hsize := r.window_le
      obtain ⟨after, hafter, hadmits⟩ := ReceiverStream.onReceive_fresh refines.inv
        (by omega) haccepted hinside sendTimeNs nowNs
      rw [if_neg (by omega), hafter]
      exact ⟨rfl, refines.insert hafter hadmits⟩
    · rw [if_pos (by omega), ReceiverStream.onReceive_outOfWindow hpast]
      exact ⟨rfl, refines.idle ⟨_, _, rfl⟩⟩

theorem serves (call : ReceiverCall) (low : r.Low call) :
    (r.serves call).2 = (m.serves call).2 ∧ Refines (r.serves call).1 (m.serves call).1 := by
  cases call with
  | onReceive seqNo sendTimeNs nowNs =>
    obtain ⟨hanswer, hnext⟩ := refines.onReceive low seqNo sendTimeNs nowNs
    exact ⟨congrArg some hanswer, hnext⟩
  | collectNacks nowNs reorderDelayNs renackIntervalNs =>
    obtain ⟨stamps, hframe⟩ := r.collectNacks_frame nowNs reorderDelayNs renackIntervalNs
    exact ⟨rfl, refines.idle ⟨_, stamps, hframe⟩⟩

end

/-- The ring has a position for each number of the window. -/
theorem ringTest (refines : Refines r m) (rel : Nat) :
    (decide (rel < r.windowSize) && r.ringTest (r.baseSeqNo + rel)) =
      decide (m.base + rel ∈ m.accepted) := by
  rw [Bool.eq_iff_iff, decide_eq_true_eq, refines.base, ← refines.accepted]
  simp [ReceiverStream.Accepted]

theorem isReceived (refines : Refines r m) (rel : Nat) :
    r.isReceived rel = decide (m.base + rel ∈ m.accepted) := by
  rw [← refines.ringTest, ReceiverStream.isReceived]
  congr 1
  unfold ReceiverStream.ringTest
  rw [ReceiverStream.slot_u64]

/-- A bit of the mask, counted from the base. -/
theorem mask (refines : Refines r m) (w : Fin kMaskWords) (b : Nat) (inside : b < 64) :
    (r.buildAck.receivedBitmask w).getLsbD b = decide (m.base + (64 * w.val + b) ∈ m.accepted) := by
  rw [← refines.ringTest]
  change (r.relativeWord w.val).getLsbD b = _
  rw [ReceiverStream.getLsbD_relativeWord r w.val b inside, Nat.add_assoc]

end Refines

/-- Over every list of calls that keeps the base low, the stream and the set give the same
answers, and in the end everything that can be read off the stream is read off the set. -/
theorem receiver_refines_set (streamId windowSize : Nat) (lossless : Bool)
    {calls : List ReceiverCall} {r : ReceiverStream} {m : SeqSet}
    {answers wanted : List (Option ReceiveResult)}
    (served : serve ReceiverStream.serves (.create streamId windowSize lossless) calls = (r, answers))
    (intended : serve SeqSet.serves { window := clampWindow windowSize } calls = (m, wanted))
    (low : Along (steps ReceiverStream.serves) ReceiverStream.Low
      (.create streamId windowSize lossless) calls) :
    answers = wanted ∧ r.baseSeqNo = m.base ∧
    (∀ rel, r.isReceived rel = decide (m.base + rel ∈ m.accepted)) ∧
    (∀ (w : Fin kMaskWords) (b : Nat), b < 64 →
      (r.buildAck.receivedBitmask w).getLsbD b =
        decide (m.base + (64 * w.val + b) ∈ m.accepted)) ∧
    (∀ (w : Fin kMaskWords) (b : Nat), b < 64 → clampWindow windowSize ≤ 64 * w.val + b →
      (r.buildAck.receivedBitmask w).getLsbD b = false) ∧
    r.buildAck.echoedSendTime = m.echo := by
  have hstep : ∀ (r : ReceiverStream) (m : SeqSet) call,
      (Refines r m ∧ m.window = clampWindow windowSize) → r.Low call →
      (r.serves call).2 = (m.serves call).2 ∧ Refines (r.serves call).1 (m.serves call).1 ∧
        (m.serves call).1.window = clampWindow windowSize := by
    rintro r m call ⟨refines, hwindow⟩ low
    obtain ⟨hanswer, hnext⟩ := refines.serves call low
    exact ⟨hanswer, hnext, (m.serves_window call).trans hwindow⟩
  have hboth := serve_simulates hstep ⟨Refines.create streamId windowSize lossless, rfl⟩ low
  rw [served, intended] at hboth
  obtain ⟨hanswers, refines, hwindow⟩ := hboth
  refine ⟨hanswers, refines.base.symm, refines.isReceived, refines.mask, ?_, refines.echo⟩
  intro w b inside past
  change (r.relativeWord w.val).getLsbD b = false
  rw [ReceiverStream.getLsbD_relativeWord r w.val b inside, refines.window, hwindow,
    decide_eq_false (Nat.not_lt.mpr past), Bool.false_and]

/-- Blocks out of order, one that came before and one too far ahead. -/
def mixedArrivals : List ReceiverCall :=
  [.onReceive 1 50 1, .collectNacks 5 1 1, .onReceive 0 40 6, .onReceive 3 70 7, .onReceive 1 90 8,
    .onReceive 99 90 9]

theorem receiver_refines_set_mixedArrivals :
    (serve SeqSet.serves { window := clampWindow 64 } mixedArrivals).2 =
      [some .accepted, none, some .accepted, some .accepted, some .duplicate, some .outOfWindow] ∧
    (serve SeqSet.serves { window := clampWindow 64 } mixedArrivals).1.base = 2 ∧
    (serve SeqSet.serves { window := clampWindow 64 } mixedArrivals).1.echo = 70 := by
  have hserved : (serve ReceiverStream.serves (.create 0 64 true) mixedArrivals).2 =
      [some .accepted, none, some .accepted, some .accepted, some .duplicate, some .outOfWindow] ∧
    (serve ReceiverStream.serves (.create 0 64 true) mixedArrivals).1.baseSeqNo = 2 ∧
    (serve ReceiverStream.serves (.create 0 64 true) mixedArrivals).1.buildAck.echoedSendTime = 70 := by
    decide +kernel
  have hlow : Along (steps ReceiverStream.serves) ReceiverStream.Low (.create 0 64 true)
      mixedArrivals := by decide +kernel
  obtain ⟨hanswers, hbase, _, _, _, hecho⟩ := receiver_refines_set 0 64 true rfl rfl hlow
  exact ⟨hanswers.symm.trans hserved.1, hbase.symm.trans hserved.2.1, hecho.symm.trans hserved.2.2⟩

end FuseTransport.Proto
