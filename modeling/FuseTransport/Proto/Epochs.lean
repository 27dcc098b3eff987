import Mathlib.Logic.Function.Iterate
import FuseTransport.Foundation.Runs
import FuseTransport.Proto.Congestion

/-!
# Epochs of the congestion window

A poll applies one decision for each round trip that has passed since the window started.
With a clock that does not run back, the decisions are those of the elapsed time and do not
depend on how often the controller is polled.
-/

namespace FuseTransport.Proto

open Foundation.Runs

variable {cc : CongestionController} {nowNs : Nat}

namespace CongestionController

/-- The calls a controller takes. -/
inductive Call where
  | enableSlowStart (initial : Nat)
  | sample (sampleNs : Nat)
  | loss
  | timeout
  | progress
  | poll (nowNs : Nat)
  deriving DecidableEq, Repr

def call (cc : CongestionController) : Call → CongestionController
  | .enableSlowStart initial => cc.enableSlowStart initial
  | .sample sampleNs => cc.onRttSample sampleNs
  | .loss => cc.onLoss
  | .timeout => cc.onTimeout
  | .progress => cc.onProgress
  | .poll nowNs => cc.poll nowNs

def step (cc : CongestionController) (made : Call) : Option CongestionController :=
  some (cc.call made)

structure SameSettings (before after : CongestionController) : Prop where
  enabled : after.enabled = before.enabled
  srttNs : after.srttNs = before.srttNs
  rttvarNs : after.rttvarNs = before.rttvarNs
  backoff : after.backoff = before.backoff
  floor : after.floor = before.floor
  maxWindow : after.maxWindow = before.maxWindow
  growStep : after.growStep = before.growStep

theorem epoch_same (cc : CongestionController) : SameSettings cc cc.epoch := by
  simp only [epoch]
  repeat' split
  all_goals exact ⟨rfl, rfl, rfl, rfl, rfl, rfl, rfl⟩

theorem iterate_same (cc : CongestionController) (count : Nat) :
    SameSettings cc (epoch^[count] cc) := by
  induction count with
  | zero => exact ⟨rfl, rfl, rfl, rfl, rfl, rfl, rfl⟩
  | succ count ih =>
    rw [Function.iterate_succ_apply']
    have hlast := epoch_same (epoch^[count] cc)
    exact ⟨hlast.enabled.trans ih.enabled, hlast.srttNs.trans ih.srttNs,
      hlast.rttvarNs.trans ih.rttvarNs, hlast.backoff.trans ih.backoff, hlast.floor.trans ih.floor,
      hlast.maxWindow.trans ih.maxWindow, hlast.growStep.trans ih.growStep⟩

@[simp]
theorem epoch_windowStartNs (cc : CongestionController) :
    cc.epoch.windowStartNs = u64 (cc.windowStartNs + cc.srttNs) := by
  simp only [epoch]
  repeat' split
  all_goals rfl

/-- An epoch settles the loss it was charged with. -/
@[simp]
theorem epoch_lossInWindow (cc : CongestionController) : cc.epoch.lossInWindow = false := by
  simp only [epoch]
  repeat' split
  all_goals rfl

/-- A loss is charged: the window is halved down to the floor and slow start is left. -/
structure Halves (before after : CongestionController) : Prop where
  window : after.window = max before.floor (before.window / 2)
  cleanStreak : after.cleanStreak = 0
  slowStart : after.slowStart = false

/-- A clean epoch: the window doubles in slow start, and grows by a step after enough clean
epochs, up to the cap. -/
structure Grows (before after : CongestionController) : Prop where
  window : after.window =
    if before.slowStart then min before.maxWindow (before.window * 2)
    else if before.cleanStreak + 1 ≥ before.cleanWindowsToGrow then
      min before.maxWindow (before.window + before.growStep)
    else before.window
  cleanStreak : after.cleanStreak =
    if before.slowStart then before.cleanStreak
    else if before.cleanStreak + 1 ≥ before.cleanWindowsToGrow then 0
    else before.cleanStreak + 1
  slowStart : after.slowStart = (before.slowStart && after.window != before.maxWindow)

theorem epoch_halves (lossy : cc.lossInWindow = true) : Halves cc cc.epoch := by
  have hmax : (if cc.window / 2 < cc.floor then cc.floor else cc.window / 2) =
      max cc.floor (cc.window / 2) := by
    split <;> omega
  constructor
  · simp only [epoch, lossy, if_true, hmax]
  · simp only [epoch, lossy, if_true]
  · simp only [epoch, lossy, if_true]

theorem epoch_grows (clean : cc.lossInWindow = false) (fits : cc.window + cc.growStep < 2 ^ 32) :
    Grows cc cc.epoch := by
  have hcapped : ∀ size, (if size > cc.maxWindow then cc.maxWindow else size) =
      min cc.maxWindow size := by
    intro size
    split <;> omega
  cases hslow : cc.slowStart with
  | true =>
    constructor
    · simp only [epoch, clean, hslow, if_true, Bool.false_eq_true, if_false, hcapped]
    · simp only [epoch, clean, hslow, if_true, Bool.false_eq_true, if_false]
    · simp only [epoch, clean, hslow, if_true, Bool.false_eq_true, if_false, Bool.true_and]
  | false =>
    by_cases hdue : cc.cleanStreak + 1 ≥ cc.cleanWindowsToGrow
    · constructor
      · simp only [epoch, clean, hslow, hdue, if_true, Bool.false_eq_true, if_false, hcapped,
          Nat.mod_eq_of_lt fits]
      · simp only [epoch, clean, hslow, hdue, if_true, Bool.false_eq_true, if_false]
      · simp only [epoch, clean, hslow, hdue, if_true, Bool.false_eq_true, if_false,
          Bool.false_and]
    · constructor
      · simp only [epoch, clean, hslow, hdue, Bool.false_eq_true, if_false]
      · simp only [epoch, clean, hslow, hdue, Bool.false_eq_true, if_false]
      · simp only [epoch, clean, hslow, hdue, Bool.false_eq_true, if_false, Bool.false_and]

/-! ## The epochs of one poll -/

def epochCount (nowNs : Nat) : Nat → CongestionController → Nat
  | 0, _ => 0
  | guard + 1, cc =>
    if u64Sub nowNs cc.windowStartNs < cc.srttNs then 0 else epochCount nowNs guard cc.epoch + 1

/-- The epochs a poll applies. -/
def epochsOfPoll (cc : CongestionController) (nowNs : Nat) : Nat :=
  if cc.enabled = false ∨ cc.srttNs = 0 then 0
  else if cc.windowStartNs = 0 then 0
  else epochCount nowNs 4096 cc

theorem pollEpochs_eq_iterate (nowNs guard : Nat) (cc : CongestionController) :
    pollEpochs nowNs guard cc = epoch^[epochCount nowNs guard cc] cc := by
  induction guard generalizing cc with
  | zero => rfl
  | succ guard ih =>
    rw [pollEpochs, epochCount]
    split
    · rfl
    · exact ih cc.epoch

/-- A poll starts the window, or applies its epochs and nothing else. -/
theorem poll_eq_iterate (cc : CongestionController) (nowNs : Nat) :
    cc.poll nowNs =
      if cc.enabled = true ∧ cc.srttNs ≠ 0 ∧ cc.windowStartNs = 0 then
        { cc with windowStartNs := nowNs }
      else epoch^[cc.epochsOfPoll nowNs] cc := by
  rw [poll, epochsOfPoll]
  by_cases hoff : cc.enabled = false ∨ cc.srttNs = 0
  · rw [if_pos hoff, if_pos hoff, if_neg]
    · rfl
    · rintro ⟨henabled, hsampled, _⟩
      rcases hoff with hdisabled | hunsampled
      · exact Bool.false_ne_true (hdisabled.symm.trans henabled)
      · exact hsampled hunsampled
  · obtain ⟨henabled, hsampled⟩ := not_or.mp hoff
    rw [if_neg hoff, if_neg hoff]
    by_cases hstart : cc.windowStartNs = 0
    · rw [if_pos hstart, if_pos ⟨eq_true_of_ne_false henabled, hsampled, hstart⟩]
    · rw [if_neg hstart, if_neg hstart, if_neg fun hboth => hstart hboth.2.2]
      exact pollEpochs_eq_iterate nowNs 4096 cc

/-- The wrapped difference after an epoch. -/
theorem u64Sub_epoch (startWord : cc.windowStartNs < 2 ^ 64)
    (long : cc.srttNs ≤ u64Sub nowNs cc.windowStartNs) :
    u64Sub nowNs cc.epoch.windowStartNs = u64Sub nowNs cc.windowStartNs - cc.srttNs := by
  rw [epoch_windowStartNs]
  unfold u64Sub u64 at *
  omega

/-- The rounds are the round trips in the wrapped difference between the reading and the
start. -/
theorem epochCount_eq (nowNs guard : Nat) (startWord : cc.windowStartNs < 2 ^ 64)
    (sampled : cc.srttNs ≠ 0) :
    epochCount nowNs guard cc = min guard (u64Sub nowNs cc.windowStartNs / cc.srttNs) := by
  have hpositive : 0 < cc.srttNs := Nat.pos_of_ne_zero sampled
  induction guard generalizing cc with
  | zero => rw [epochCount, Nat.zero_min]
  | succ guard ih =>
    rw [epochCount]
    split
    · rename_i hshort
      rw [Nat.div_eq_of_lt hshort, Nat.min_zero]
    · rename_i hlong
      have hsame : cc.epoch.srttNs = cc.srttNs := (epoch_same cc).srttNs
      have hword : cc.epoch.windowStartNs < 2 ^ 64 := by
        rw [epoch_windowStartNs]
        exact Nat.mod_lt _ (by decide)
      have hrest := ih hword (hsame ▸ sampled) (hsame ▸ hpositive)
      rw [hrest, u64Sub_epoch startWord (Nat.le_of_not_lt hlong), hsame,
        Nat.div_eq_sub_div hpositive (Nat.le_of_not_lt hlong), Nat.add_min_add_right]

/-- The epochs of a poll once there is an estimate and the window has started. -/
theorem epochsOfPoll_started (nowNs : Nat) (enabled : cc.enabled = true) (sampled : cc.srttNs ≠ 0)
    (started : cc.windowStartNs ≠ 0) (startWord : cc.windowStartNs < 2 ^ 64) :
    cc.epochsOfPoll nowNs = min 4096 (u64Sub nowNs cc.windowStartNs / cc.srttNs) := by
  rw [epochsOfPoll, if_neg (by simp [enabled, sampled]), if_neg started,
    epochCount_eq nowNs 4096 startWord sampled]

theorem iterate_windowStartNs {count : Nat} (fits : cc.windowStartNs + count * cc.srttNs < 2 ^ 64) :
    (epoch^[count] cc).windowStartNs = cc.windowStartNs + count * cc.srttNs := by
  induction count with
  | zero => rw [Nat.zero_mul, Nat.add_zero, Function.iterate_zero, id]
  | succ count ih =>
    rw [Nat.succ_mul] at fits
    rw [Function.iterate_succ_apply', epoch_windowStartNs, (iterate_same cc count).srttNs, ih (by omega),
      Nat.add_assoc, ← Nat.succ_mul]
    exact Nat.mod_eq_of_lt (by rw [Nat.succ_mul]; exact fits)

theorem iterate_lossInWindow (cc : CongestionController) {count : Nat} (some : 0 < count) :
    (epoch^[count] cc).lossInWindow = false := by
  obtain ⟨before, rfl⟩ := Nat.exists_eq_add_one_of_ne_zero (Nat.ne_of_gt some)
  rw [Function.iterate_succ_apply', epoch_lossInWindow]

/-- A poll of a started window applies exactly the round trips that have passed, up to its
guard. -/
theorem poll_elapsed (enabled : cc.enabled = true) (sampled : cc.srttNs ≠ 0)
    (started : cc.windowStartNs ≠ 0) (passed : cc.windowStartNs ≤ nowNs) (word : nowNs < 2 ^ 64)
    (spans : (nowNs - cc.windowStartNs) / cc.srttNs ≤ 4096) :
    cc.poll nowNs = epoch^[(nowNs - cc.windowStartNs) / cc.srttNs] cc := by
  have hcount : cc.epochsOfPoll nowNs = (nowNs - cc.windowStartNs) / cc.srttNs := by
    rw [epochsOfPoll_started nowNs enabled sampled started (Nat.lt_of_le_of_lt passed word),
      u64Sub_of_le passed word, Nat.min_eq_right spans]
  rw [poll_eq_iterate, if_neg fun hboth => started hboth.2.2, hcount]

/-- Polling in between changes nothing. -/
theorem poll_poll {first second : Nat} (enabled : cc.enabled = true) (sampled : cc.srttNs ≠ 0)
    (started : cc.windowStartNs ≠ 0) (passed : cc.windowStartNs ≤ first) (later : first ≤ second)
    (word : second < 2 ^ 64) (spans : (second - cc.windowStartNs) / cc.srttNs ≤ 4096) :
    (cc.poll first).poll second = cc.poll second := by
  have hfewer : (first - cc.windowStartNs) / cc.srttNs ≤ (second - cc.windowStartNs) / cc.srttNs :=
    Nat.div_le_div_right (by omega)
  have hreach : (first - cc.windowStartNs) / cc.srttNs * cc.srttNs ≤ first - cc.windowStartNs :=
    Nat.div_mul_le_self _ _
  rw [poll_elapsed enabled sampled started passed (by omega) (Nat.le_trans hfewer spans),
    poll_elapsed enabled sampled started (Nat.le_trans passed later) word spans]
  generalize (first - cc.windowStartNs) / cc.srttNs = rounds at hfewer hreach
  have hsame := iterate_same cc rounds
  have hstart : (epoch^[rounds] cc).windowStartNs = cc.windowStartNs + rounds * cc.srttNs :=
    iterate_windowStartNs (by omega)
  have hrest : (second - (cc.windowStartNs + rounds * cc.srttNs)) / cc.srttNs =
      (second - cc.windowStartNs) / cc.srttNs - rounds := by
    rw [Nat.sub_add_eq, Nat.mul_comm, Nat.sub_mul_div]
  have hpassed : (epoch^[rounds] cc).windowStartNs ≤ second := by
    omega
  have hspans : (second - (epoch^[rounds] cc).windowStartNs) / (epoch^[rounds] cc).srttNs ≤
      4096 := by
    rw [hstart, hsame.srttNs, hrest]
    exact Nat.le_trans (Nat.sub_le _ _) spans
  have hsplit := poll_elapsed (hsame.enabled.trans enabled) (hsame.srttNs.symm ▸ sampled)
    (by rw [hstart]; omega) hpassed word hspans
  rw [hsplit, hstart, hsame.srttNs, hrest, ← Function.iterate_add_apply,
    Nat.sub_add_cancel hfewer]

/-! ## Every run of calls -/

/-- Only an enabled controller has an estimate, and its window lies between the floor and
the cap unless the growth step can wrap. -/
structure Sound (cc : CongestionController) : Prop where
  measured : cc.srttNs ≠ 0 → cc.enabled = true
  floor_le : cc.floor ≤ cc.maxWindow
  inRange : cc.maxWindow + cc.growStep < 2 ^ 32 → cc.floor ≤ cc.window ∧ cc.window ≤ cc.maxWindow

namespace Sound

variable {cc : CongestionController}

theorem create (maxWindow : Nat) (enabled : Bool) (cleanWindowsToGrow growStep : Nat) :
    (create maxWindow enabled cleanWindowsToGrow growStep).Sound := by
  have hfloor : ∀ cap : Nat, (if cap < 2 then cap else 2) ≤ cap := by
    intro cap
    split <;> omega
  refine ⟨fun impossible => absurd rfl impossible, hfloor _, ?_⟩
  intro _
  dsimp only [CongestionController.create]
  generalize (if maxWindow < 1 then 1 else maxWindow) = cap
  have hcap := hfloor cap
  generalize (if cap < 2 then cap else 2) = floor at hcap
  split
  · exact ⟨hcap, Nat.le_refl _⟩
  · split
    · exact ⟨Nat.le_refl _, hcap⟩
    · exact ⟨by omega, Nat.div_le_self _ _⟩

section

variable (sound : cc.Sound)
include sound

/-- A call that keeps the settings and the window keeps a controller sound. -/
theorem of_same {after : CongestionController}
    (measured : after.srttNs ≠ 0 → after.enabled = true) (floor : after.floor = cc.floor)
    (maxWindow : after.maxWindow = cc.maxWindow) (growStep : after.growStep = cc.growStep)
    (window : after.window = cc.window) : after.Sound where
  measured := measured
  floor_le := by
    rw [floor, maxWindow]
    exact sound.floor_le
  inRange := by
    rw [floor, maxWindow, growStep, window]
    exact sound.inRange

theorem enableSlowStart (initial : Nat) : (cc.enableSlowStart initial).Sound := by
  have hfloor := sound.floor_le
  rw [CongestionController.enableSlowStart]
  split
  · exact sound
  · refine ⟨sound.measured, hfloor, ?_⟩
    intro _
    dsimp only
    split
    · exact ⟨Nat.le_refl _, hfloor⟩
    · split
      · exact ⟨hfloor, Nat.le_refl _⟩
      · omega

theorem onRttSample (sampleNs : Nat) : (cc.onRttSample sampleNs).Sound := by
  rw [CongestionController.onRttSample]
  split
  · exact sound
  · rename_i htaken
    have henabled : cc.enabled = true := eq_true_of_ne_false fun hoff => htaken (Or.inl hoff)
    split <;> exact sound.of_same (fun _ => henabled) rfl rfl rfl rfl

theorem onLoss : cc.onLoss.Sound := by
  rw [CongestionController.onLoss]
  split
  · exact sound.of_same sound.measured rfl rfl rfl rfl
  · exact sound

theorem onTimeout : cc.onTimeout.Sound := by
  have hlossy : (if cc.backoff = 0 then cc.onLoss else cc).Sound := by
    split
    · exact sound.onLoss
    · exact sound
  rw [CongestionController.onTimeout]
  generalize (if cc.backoff = 0 then cc.onLoss else cc) = lossy at hlossy
  split
  · exact hlossy.of_same hlossy.measured rfl rfl rfl rfl
  · exact hlossy

theorem epoch : cc.epoch.Sound := by
  have hsame := epoch_same cc
  have hfloor := sound.floor_le
  refine ⟨?_, ?_, ?_⟩
  · rw [hsame.srttNs, hsame.enabled]
    exact sound.measured
  · rw [hsame.floor, hsame.maxWindow]
    exact hfloor
  · rw [hsame.floor, hsame.maxWindow, hsame.growStep]
    intro hfits
    obtain ⟨hlower, hupper⟩ := sound.inRange hfits
    cases hloss : cc.lossInWindow with
    | true =>
      rw [(epoch_halves hloss).window]
      omega
    | false =>
      rw [(epoch_grows hloss (by omega)).window]
      split
      · omega
      · split
        · omega
        · exact ⟨hlower, hupper⟩

theorem iterate (count : Nat) : (CongestionController.epoch^[count] cc).Sound := by
  induction count with
  | zero => exact sound
  | succ count ih =>
    rw [Function.iterate_succ_apply']
    exact ih.epoch

theorem poll (nowNs : Nat) : (cc.poll nowNs).Sound := by
  rw [poll_eq_iterate]
  split
  · exact sound.of_same sound.measured rfl rfl rfl rfl
  · exact sound.iterate _

theorem call (made : Call) : (cc.call made).Sound := by
  cases made with
  | enableSlowStart initial => exact sound.enableSlowStart initial
  | sample sampleNs => exact sound.onRttSample sampleNs
  | loss => exact sound.onLoss
  | timeout => exact sound.onTimeout
  | progress => exact sound.of_same sound.measured rfl rfl rfl rfl
  | poll nowNs => exact sound.poll nowNs

end

theorem reached {maxWindow : Nat} {enabled : Bool} {cleanWindowsToGrow growStep : Nat}
    (reached : Reachable step
      (CongestionController.create maxWindow enabled cleanWindowsToGrow growStep) cc) :
    cc.Sound := by
  refine reached.invariant ?_ (Sound.create maxWindow enabled cleanWindowsToGrow growStep)
  intro before made after sound henabled
  cases henabled
  exact sound.call made

end Sound

theorem iterate_inRange (sound : cc.Sound) (fits : cc.maxWindow + cc.growStep < 2 ^ 32)
    (round : Nat) :
    cc.floor ≤ (epoch^[round] cc).window ∧ (epoch^[round] cc).window ≤ cc.maxWindow := by
  have hsame := iterate_same cc round
  have hround := (sound.iterate round).inRange
  rw [hsame.maxWindow, hsame.growStep, hsame.floor] at hround
  exact hround fits

theorem iterate_grows (sound : cc.Sound) (fits : cc.maxWindow + cc.growStep < 2 ^ 32)
    {round : Nat} (clean : 0 < round ∨ cc.lossInWindow = false) :
    Grows (epoch^[round] cc) (epoch^[round + 1] cc) := by
  rw [Function.iterate_succ_apply']
  apply epoch_grows
  · rcases clean with hlater | hclean
    · exact iterate_lossInWindow cc hlater
    · cases round with
      | zero => exact hclean
      | succ round => exact iterate_lossInWindow cc (Nat.succ_pos round)
  · rw [(iterate_same cc round).growStep]
    have hupper := (iterate_inRange sound fits round).2
    omega

/-- Epochs without a loss never shrink the window. -/
theorem iterate_window_le (sound : cc.Sound) (fits : cc.maxWindow + cc.growStep < 2 ^ 32)
    (clean : cc.lossInWindow = false) {first second : Nat} (later : first ≤ second) :
    (epoch^[first] cc).window ≤ (epoch^[second] cc).window := by
  have grows : ∀ round, Grows (epoch^[round] cc) (epoch^[round + 1] cc) := fun round =>
    iterate_grows sound fits (Or.inr clean)
  induction later with
  | refl => exact Nat.le_refl _
  | @step second _ ih =>
    have hwindow := (grows second).window
    have hupper := (iterate_inRange sound fits second).2
    rw [(iterate_same cc second).maxWindow] at hwindow
    refine Nat.le_trans ih ?_
    rw [hwindow]
    split
    · omega
    · split
      · omega
      · exact Nat.le_refl _

/-- Once the window has started, the epochs up to a time do not depend on polls before it:
they are the round trips that have passed, a pending loss is charged to the first only, and unless
the growth step can wrap the others only grow the window, which stays within its bounds. -/
theorem poll_independent {maxWindow : Nat} {enabled : Bool} {cleanWindowsToGrow growStep : Nat}
    {cc : CongestionController}
    (reached : Reachable step (create maxWindow enabled cleanWindowsToGrow growStep) cc)
    (sampled : cc.srttNs ≠ 0) (started : cc.windowStartNs ≠ 0) (first second : Nat)
    (passed : cc.windowStartNs ≤ first) (later : first ≤ second) (word : second < 2 ^ 64)
    (spans : (second - cc.windowStartNs) / cc.srttNs ≤ 4096) :
    let count := (second - cc.windowStartNs) / cc.srttNs
    (cc.poll first).poll second = cc.poll second ∧
      cc.poll second = epoch^[count] cc ∧
      (cc.lossInWindow = true → Halves cc (epoch^[1] cc)) ∧
      (∀ round, 0 < round → (epoch^[round] cc).lossInWindow = false) ∧
      (cc.maxWindow + cc.growStep < 2 ^ 32 →
        (∀ round, (0 < round ∨ cc.lossInWindow = false) →
          Grows (epoch^[round] cc) (epoch^[round + 1] cc)) ∧
        (∀ round, cc.floor ≤ (epoch^[round] cc).window ∧
          (epoch^[round] cc).window ≤ cc.maxWindow)) := by
  intro count
  have hsound := Sound.reached reached
  have henabled := hsound.measured sampled
  refine ⟨poll_poll henabled sampled started passed later word spans,
    poll_elapsed henabled sampled started (Nat.le_trans passed later) word spans,
    epoch_halves, fun _ => iterate_lossInWindow cc, ?_⟩
  intro hfits
  exact ⟨fun _ => iterate_grows hsound hfits, iterate_inRange hsound hfits⟩

/-- A controller that has an estimate, a started window and a loss. -/
def lossyStart : List Call := [.sample 1000, .poll 5, .loss]

/-- Three round trips after a loss, polled once or twice. -/
theorem poll_independent_lossy :
    ∃ cc, replay step (create 64 true 3 2) lossyStart = some cc ∧
      (cc.poll 1505).poll 3005 = cc.poll 3005 ∧ (cc.poll 3005).window = 4 := by
  obtain ⟨cc, hcc, hsrtt, hstart, hwindow⟩ : ∃ cc,
      replay step (create 64 true 3 2) lossyStart = some cc ∧ cc.srttNs = 1000 ∧
        cc.windowStartNs = 5 ∧ (cc.poll 3005).window = 4 := by decide +kernel
  refine ⟨cc, hcc, (poll_independent ⟨_, hcc⟩ ?_ ?_ 1505 3005 ?_ ?_ ?_ ?_).1, hwindow⟩
  · omega
  · omega
  · omega
  · decide
  · decide
  · rw [hsrtt, hstart]
    decide

/-- Before the window has started, a poll in between starts it earlier.  A growth step near
the end of its word takes the window below the floor. -/
theorem poll_before_start :
    let cc := (create 64 true 3 2).onRttSample 1000
    let wide := ((create 16 true 1 (2 ^ 32 - 2)).onRttSample 1000).poll 1
    cc.windowStartNs ≤ 1 ∧ (5001 - cc.windowStartNs) / cc.srttNs ≤ 4096 ∧
      ((cc.poll 1).poll 5001).window = 10 ∧ (cc.poll 5001).window = 8 ∧
      (wide.poll 1001).window < wide.floor := by
  decide +kernel

/-- A poll applies no epoch before the window's start, and no more than have passed since. -/
def Timely (cc : CongestionController) (nowNs : Nat) : Prop :=
  (nowNs < cc.windowStartNs → cc.epochsOfPoll nowNs = 0) ∧
    (cc.windowStartNs ≤ nowNs →
      cc.epochsOfPoll nowNs ≤ (nowNs - cc.windowStartNs) / cc.srttNs)

/-- A poll that applies no epoch leaves the window alone. -/
theorem poll_window (idle : cc.epochsOfPoll nowNs = 0) : (cc.poll nowNs).window = cc.window := by
  rw [poll_eq_iterate, idle]
  split <;> rfl

/-- A reading before the start wraps: the difference counts as time that has passed. -/
theorem epochsOfPoll_behind (enabled : cc.enabled = true) (sampled : cc.srttNs ≠ 0)
    (behind : nowNs < cc.windowStartNs) (startWord : cc.windowStartNs < 2 ^ 64) :
    cc.epochsOfPoll nowNs = 0 ↔ 2 ^ 64 + nowNs < cc.windowStartNs + cc.srttNs := by
  have helapsed : u64Sub nowNs cc.windowStartNs = nowNs + (2 ^ 64 - cc.windowStartNs) :=
    Nat.mod_eq_of_lt (by omega)
  rw [epochsOfPoll_started nowNs enabled sampled (by omega) startWord,
    Nat.min_eq_zero_iff, Nat.div_eq_zero_iff]
  omega

theorem epochsOfPoll_passed (passed : cc.windowStartNs ≤ nowNs) (word : nowNs < 2 ^ 64) :
    cc.epochsOfPoll nowNs ≤ (nowNs - cc.windowStartNs) / cc.srttNs := by
  by_cases hon : cc.enabled = true ∧ cc.srttNs ≠ 0 ∧ cc.windowStartNs ≠ 0
  · rw [epochsOfPoll_started nowNs hon.1 hon.2.1 hon.2.2 (Nat.lt_of_le_of_lt passed word),
      u64Sub_of_le passed word]
    exact Nat.min_le_right _ _
  · rw [epochsOfPoll]
    split
    · exact Nat.zero_le _
    · rename_i hactive
      obtain ⟨henabled, hsampled⟩ := not_or.mp hactive
      split
      · exact Nat.zero_le _
      · rename_i hstarted
        exact absurd ⟨eq_true_of_ne_false henabled, hsampled, hstarted⟩ hon

/-- A poll is timely, and a reading from before the window's start leaves the window alone. -/
def Harmless (cc : CongestionController) (nowNs : Nat) : Prop :=
  cc.Timely nowNs ∧ (nowNs < cc.windowStartNs → (cc.poll nowNs).window = cc.window)

/-- The reading is not before the start, or so long before it that the wrapped difference is
less than a round trip. -/
def InOrder (cc : CongestionController) (nowNs : Nat) : Prop :=
  cc.enabled = false ∨ cc.srttNs = 0 ∨ cc.windowStartNs = 0 ∨ cc.windowStartNs ≤ nowNs ∨
    2 ^ 64 + nowNs < cc.windowStartNs + cc.srttNs

instance (cc : CongestionController) (nowNs : Nat) : Decidable (cc.InOrder nowNs) :=
  inferInstanceAs (Decidable (_ ∨ _))

theorem harmless_iff (word : nowNs < 2 ^ 64) (startWord : cc.windowStartNs < 2 ^ 64) :
    cc.Harmless nowNs ↔ cc.InOrder nowNs := by
  have hpassed : cc.windowStartNs ≤ nowNs →
      cc.epochsOfPoll nowNs ≤ (nowNs - cc.windowStartNs) / cc.srttNs :=
    fun passed => epochsOfPoll_passed passed word
  rcases Nat.lt_or_ge nowNs cc.windowStartNs with hbehind | hreached
  · have hidle : cc.epochsOfPoll nowNs = 0 ↔ (cc.enabled = false ∨ cc.srttNs = 0 ∨
        2 ^ 64 + nowNs < cc.windowStartNs + cc.srttNs) := by
      by_cases hoff : cc.enabled = false ∨ cc.srttNs = 0
      · rw [epochsOfPoll, if_pos hoff]
        refine ⟨fun _ => ?_, fun _ => rfl⟩
        exact hoff.imp_right Or.inl
      · obtain ⟨henabled, hsampled⟩ := not_or.mp hoff
        rw [epochsOfPoll_behind (eq_true_of_ne_false henabled) hsampled hbehind startWord]
        simp [henabled, hsampled]
    constructor
    · rintro ⟨⟨hnone, _⟩, _⟩
      rcases hidle.mp (hnone hbehind) with hdisabled | hunsampled | hfar
      · exact Or.inl hdisabled
      · exact Or.inr (Or.inl hunsampled)
      · exact Or.inr (Or.inr (Or.inr (Or.inr hfar)))
    · intro hcondition
      have hnone : cc.epochsOfPoll nowNs = 0 := by
        apply hidle.mpr
        rcases hcondition with hdisabled | hunsampled | hunstarted | hlate | hfar
        · exact Or.inl hdisabled
        · exact Or.inr (Or.inl hunsampled)
        · omega
        · omega
        · exact Or.inr (Or.inr hfar)
      exact ⟨⟨fun _ => hnone, hpassed⟩, fun _ => poll_window hnone⟩
  · have hnot : ¬ nowNs < cc.windowStartNs := Nat.not_lt.mpr hreached
    constructor
    · intro _
      exact Or.inr (Or.inr (Or.inr (Or.inl hreached)))
    · intro _
      exact ⟨⟨fun behind => absurd behind hnot, hpassed⟩, fun behind => absurd behind hnot⟩

theorem call_startWord (startWord : cc.windowStartNs < 2 ^ 64) {made : Call}
    (word : ∀ nowNs, made = .poll nowNs → nowNs < 2 ^ 64) :
    (cc.call made).windowStartNs < 2 ^ 64 := by
  cases made with
  | poll nowNs =>
    rw [call, poll_eq_iterate]
    split
    · exact word nowNs rfl
    · cases cc.epochsOfPoll nowNs with
      | zero => exact startWord
      | succ count =>
        rw [Function.iterate_succ_apply', epoch_windowStartNs]
        exact Nat.mod_lt _ (by decide)
  | _ =>
    simp only [call, enableSlowStart, onRttSample, onLoss, onTimeout]
    repeat' split
    all_goals exact startWord

/-- What holds of the polls among the calls. -/
def AtPoll (P : CongestionController → Nat → Prop) (cc : CongestionController) : Call → Prop
  | .poll nowNs => P cc nowNs
  | _ => True

instance (cc : CongestionController) : (made : Call) → Decidable (AtPoll InOrder cc made)
  | .poll nowNs => inferInstanceAs (Decidable (cc.InOrder nowNs))
  | .enableSlowStart _ | .sample _ | .loss | .timeout | .progress => isTrue trivial

theorem along_harmless_iff (startWord : cc.windowStartNs < 2 ^ 64) (calls : List Call)
    (words : ∀ nowNs, .poll nowNs ∈ calls → nowNs < 2 ^ 64) :
    Along step (AtPoll Harmless) cc calls ↔ Along step (AtPoll InOrder) cc calls := by
  induction calls generalizing cc with
  | nil => exact Iff.rfl
  | cons made rest ih =>
    have hword : ∀ nowNs, made = .poll nowNs → nowNs < 2 ^ 64 :=
      fun nowNs same => words nowNs (same ▸ List.mem_cons_self)
    have honward := ih (call_startWord startWord hword)
      fun nowNs member => words nowNs (List.mem_cons_of_mem _ member)
    have hnow : AtPoll Harmless cc made ↔ AtPoll InOrder cc made := by
      cases made with
      | poll nowNs => exact harmless_iff (hword nowNs rfl) startWord
      | _ => exact Iff.rfl
    refine and_congr hnow (forall_congr' fun next => forall_congr' fun stepped => ?_)
    cases stepped
    exact honward

/-- The polls of a sequence of calls do no harm exactly when each reading is in order when it
is polled; and so it is with one poll in any state. -/
theorem timely_iff (maxWindow : Nat) (enabled : Bool) (cleanWindowsToGrow growStep : Nat)
    (calls : List Call) (words : ∀ nowNs, .poll nowNs ∈ calls → nowNs < 2 ^ 64) :
    (Along step (AtPoll Harmless) (create maxWindow enabled cleanWindowsToGrow growStep) calls ↔
      Along step (AtPoll InOrder) (create maxWindow enabled cleanWindowsToGrow growStep) calls) ∧
    ∀ (cc : CongestionController) (nowNs : Nat), nowNs < 2 ^ 64 → cc.windowStartNs < 2 ^ 64 →
      (cc.Harmless nowNs ↔ cc.InOrder nowNs) :=
  ⟨along_harmless_iff (Nat.two_pow_pos 64) calls words, fun _ _ => harmless_iff⟩

/-- Readings in order, one of them inside a round trip. -/
theorem timely_iff_fourCalls :
    Along step (AtPoll Harmless) (create 64 true 3 2)
      [.sample 1000, .poll 1000000, .poll 1000600, .poll 1001500] :=
  (timely_iff 64 true 3 2 _ (by simp)).1.mpr (by decide +kernel)

/-- Two threads read the clock at 1001500 and 1000900, and the older reading is polled last:
it applies 4096 epochs, changes the window and moves its start ahead of the clock. -/
theorem old_reading_acts :
    let cc := (((create 64 true 3 2).onRttSample 1000).poll 1000000).poll 1001500
    cc.windowStartNs = 1001000 ∧ cc.epochsOfPoll 1000900 = 4096 ∧
      cc.window < (cc.poll 1000900).window ∧ (cc.poll 1000900).windowStartNs = 5097000 := by
  intro cc
  have hsound : cc.Sound :=
    (((Sound.create 64 true 3 2).onRttSample 1000).poll 1000000).poll 1001500
  have hstate : cc = { create 64 true 3 2 with
      srttNs := 1000, rttvarNs := 500, windowStartNs := 1001000, cleanStreak := 1 } := by
    decide +kernel
  clear_value cc
  have hstart : cc.windowStartNs = 1001000 := by rw [hstate]
  have hsrtt : cc.srttNs = 1000 := by rw [hstate]
  have hfits : cc.maxWindow + cc.growStep < 2 ^ 32 := by
    rw [hstate]
    decide
  have hgrown : cc.window < (epoch^[2] cc).window := by
    rw [hstate]
    decide +kernel
  have hcount : cc.epochsOfPoll 1000900 = 4096 := by
    rw [epochsOfPoll_started 1000900 (by rw [hstate]; rfl) (by omega) (by omega) (by omega), hsrtt, hstart]
    decide +kernel
  have hpoll : cc.poll 1000900 = epoch^[4096] cc := by
    rw [poll_eq_iterate, hcount, if_neg (by omega)]
  refine ⟨hstart, hcount, ?_, ?_⟩
  · rw [hpoll]
    exact Nat.lt_of_lt_of_le hgrown (iterate_window_le hsound hfits (by rw [hstate]; rfl)
      (by decide))
  · rw [hpoll, iterate_windowStartNs (by omega), hstart, hsrtt]

end CongestionController

end FuseTransport.Proto
