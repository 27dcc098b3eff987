import FuseTransport.Proto.Wire

/-!
# Congestion control

Each lossless stream carries its own controller: additive increase and
multiplicative decrease of a window, decided once per round trip, with an
optional slow start.  Times are machine words in nanoseconds.
-/

namespace FuseTransport.Proto

/-- A round-trip sample from an echoed send time; zero when it is not plausibly
one of ours. -/
def rttSampleFromEcho (wireNow echoed : Nat) : Nat :=
  if u64Sub wireNow echoed < 60000000000 then u64Sub wireNow echoed else 0

structure CongestionController where
  enabled : Bool
  cleanWindowsToGrow : Nat
  growStep : Nat
  maxWindow : Nat
  floor : Nat
  window : Nat
  cleanStreak : Nat := 0
  srttNs : Nat := 0
  rttvarNs : Nat := 0
  backoff : Nat := 0
  windowStartNs : Nat := 0
  lossInWindow : Bool := false
  slowStart : Bool := false
  deriving DecidableEq, Repr

namespace CongestionController

def kMaxBackoff : Nat := 6

def create (maxWindow : Nat) (enabled : Bool) (cleanWindowsToGrow growStep : Nat) :
    CongestionController :=
  let cap := if maxWindow < 1 then 1 else maxWindow
  let floor := if cap < 2 then cap else 2
  { enabled := enabled
    cleanWindowsToGrow := cleanWindowsToGrow
    growStep := growStep
    maxWindow := cap
    floor := floor
    window := if enabled = false then cap else if cap / 8 < floor then floor else cap / 8 }

variable (cc : CongestionController)

def enableSlowStart (initial : Nat) : CongestionController :=
  if cc.enabled = false then cc
  else { cc with
    slowStart := true
    window := if initial < cc.floor then cc.floor
      else if initial > cc.maxWindow then cc.maxWindow else initial }

def onRttSample (sampleNs : Nat) : CongestionController :=
  if cc.enabled = false ∨ sampleNs = 0 then cc
  else if cc.srttNs = 0 then { cc with srttNs := sampleNs, rttvarNs := sampleNs / 2 }
  else
    let dev := if cc.srttNs > sampleNs then cc.srttNs - sampleNs else sampleNs - cc.srttNs
    { cc with
      rttvarNs := u64 (cc.rttvarNs * 3 + dev) / 4
      srttNs := u64 (cc.srttNs * 7 + sampleNs) / 8 }

def backOff (maxNs : Nat) : Nat → Nat → Nat
  | 0, rto => rto
  | rounds + 1, rto => if rto < maxNs then backOff maxNs rounds (u64 (rto * 2)) else rto

def rtoNs (minNs maxNs initialNs : Nat) : Nat :=
  let var := if u64 (cc.rttvarNs * 4) > 1000000 then u64 (cc.rttvarNs * 4) else 1000000
  let estimate := u64 (cc.srttNs + var)
  let floored := if estimate < u64 (2 * cc.srttNs) then u64 (2 * cc.srttNs) else estimate
  let rto := if cc.srttNs ≠ 0 then floored else initialNs
  let clamped := if rto < minNs then minNs else if rto > maxNs then maxNs else rto
  let backed := backOff maxNs cc.backoff clamped
  if backed > maxNs then maxNs else backed

def onLoss : CongestionController :=
  if cc.enabled then { cc with lossInWindow := true } else cc

def onTimeout : CongestionController :=
  let lossy := if cc.backoff = 0 then cc.onLoss else cc
  if lossy.backoff < kMaxBackoff then { lossy with backoff := lossy.backoff + 1 } else lossy

def onProgress : CongestionController := { cc with backoff := 0 }

/-- The decision at the end of one round trip. -/
def epoch : CongestionController :=
  let opened := { cc with
    windowStartNs := u64 (cc.windowStartNs + cc.srttNs), lossInWindow := false }
  if cc.lossInWindow then
    { opened with
      window := if cc.window / 2 < cc.floor then cc.floor else cc.window / 2
      cleanStreak := 0
      slowStart := false }
  else if cc.slowStart then
    let doubled := if cc.window * 2 > cc.maxWindow then cc.maxWindow else cc.window * 2
    { opened with window := doubled, slowStart := doubled != cc.maxWindow }
  else if cc.cleanStreak + 1 ≥ cc.cleanWindowsToGrow then
    -- the sum is a 32-bit word
    let grown := (cc.window + cc.growStep) % 2 ^ 32
    { opened with
      window := if grown > cc.maxWindow then cc.maxWindow else grown
      cleanStreak := 0 }
  else { opened with cleanStreak := cc.cleanStreak + 1 }

def pollEpochs (nowNs : Nat) : Nat → CongestionController → CongestionController
  | 0, cc => cc
  | guard + 1, cc =>
    if u64Sub nowNs cc.windowStartNs < cc.srttNs then cc else pollEpochs nowNs guard cc.epoch

def poll (nowNs : Nat) : CongestionController :=
  if cc.enabled = false ∨ cc.srttNs = 0 then cc
  else if cc.windowStartNs = 0 then { cc with windowStartNs := nowNs }
  else pollEpochs nowNs 4096 cc

/-! ## The window stays within its cap -/

/-- A controller whose window is at most `limit`, whatever it is told. -/
structure Capped (limit : Nat) (cc : CongestionController) : Prop where
  cap : cc.maxWindow ≤ limit
  floor : cc.floor ≤ cc.maxWindow
  window : cc.window ≤ cc.maxWindow

section Capped

variable {limit : Nat} {cc : CongestionController}

theorem create_capped {maxWindow : Nat} (positive : 1 ≤ maxWindow) (within : maxWindow ≤ limit)
    (enabled : Bool) (cleanWindowsToGrow growStep : Nat) :
    (create maxWindow enabled cleanWindowsToGrow growStep).Capped limit := by
  unfold create
  rw [if_neg (Nat.not_lt.mpr positive)]
  have hfloor : (if maxWindow < 2 then maxWindow else 2) ≤ maxWindow := by
    split
    · exact Nat.le_refl _
    · omega
  dsimp only
  generalize (if maxWindow < 2 then maxWindow else 2) = floor at hfloor
  refine ⟨within, hfloor, ?_⟩
  split
  · exact Nat.le_refl _
  · split
    · exact hfloor
    · exact Nat.div_le_self _ _

section

variable (capped : cc.Capped limit)
include capped

theorem Capped.enableSlowStart (initial : Nat) : (cc.enableSlowStart initial).Capped limit := by
  unfold CongestionController.enableSlowStart
  split
  · exact capped
  · refine ⟨capped.cap, capped.floor, ?_⟩
    dsimp only
    split
    · exact capped.floor
    · split
      · exact Nat.le_refl _
      · omega

theorem Capped.onRttSample (sampleNs : Nat) : (cc.onRttSample sampleNs).Capped limit := by
  unfold CongestionController.onRttSample
  split
  · exact capped
  · split <;> exact ⟨capped.cap, capped.floor, capped.window⟩

theorem Capped.onLoss : cc.onLoss.Capped limit := by
  unfold CongestionController.onLoss
  split
  · exact ⟨capped.cap, capped.floor, capped.window⟩
  · exact capped

theorem Capped.onTimeout : cc.onTimeout.Capped limit := by
  have hlossy : (if cc.backoff = 0 then cc.onLoss else cc).Capped limit := by
    split
    · exact capped.onLoss
    · exact capped
  unfold CongestionController.onTimeout
  generalize (if cc.backoff = 0 then cc.onLoss else cc) = lossy at hlossy
  dsimp only
  split
  · exact ⟨hlossy.cap, hlossy.floor, hlossy.window⟩
  · exact hlossy

theorem Capped.onProgress : cc.onProgress.Capped limit :=
  ⟨capped.cap, capped.floor, capped.window⟩

theorem Capped.epoch : cc.epoch.Capped limit := by
  have hwindow := capped.window
  unfold CongestionController.epoch
  split
  · refine ⟨capped.cap, capped.floor, ?_⟩
    dsimp only
    split
    · exact capped.floor
    · omega
  · split
    · refine ⟨capped.cap, capped.floor, ?_⟩
      dsimp only
      split
      · exact Nat.le_refl _
      · omega
    · split
      · refine ⟨capped.cap, capped.floor, ?_⟩
        dsimp only
        split
        · exact Nat.le_refl _
        · omega
      · exact ⟨capped.cap, capped.floor, capped.window⟩

theorem Capped.pollEpochs (nowNs guard : Nat) : (pollEpochs nowNs guard cc).Capped limit := by
  induction guard generalizing cc with
  | zero => exact capped
  | succ guard ih =>
    rw [CongestionController.pollEpochs]
    split
    · exact capped
    · exact ih capped.epoch

theorem Capped.poll (nowNs : Nat) : (cc.poll nowNs).Capped limit := by
  unfold CongestionController.poll
  split
  · exact capped
  · split
    · exact ⟨capped.cap, capped.floor, capped.window⟩
    · exact capped.pollEpochs nowNs 4096

end

end Capped

end CongestionController

end FuseTransport.Proto
