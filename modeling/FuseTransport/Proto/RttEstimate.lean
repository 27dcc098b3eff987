import Mathlib.Data.List.Induction
import FuseTransport.Proto.Epochs

/-!
# The round-trip estimate and the retransmission timeout

The estimate is an integer moving average of the samples taken so far, so it stays between
the smallest and the largest of them.  The timeout is computed from it without a wrap, held
within its bounds and doubled for each timeout in a row.
-/

namespace FuseTransport.Proto

theorem rttSampleFromEcho_lt (wireNow echoed : Nat) :
    rttSampleFromEcho wireNow echoed < 60000000000 := by
  rw [rttSampleFromEcho]
  split
  · assumption
  · decide

variable {cc : CongestionController} {maxNs : Nat}

namespace CongestionController

/-- A sample that the controller was told came from an echo. -/
def Call.FromEcho : Call → Prop
  | .sample sampleNs => ∃ wireNow echoed, sampleNs = rttSampleFromEcho wireNow echoed
  | _ => True

/-- The samples a call adds: none from a disabled controller, and none that is zero. -/
def Call.taken (enabled : Bool) : Call → List Nat
  | .sample sampleNs => if enabled = false ∨ sampleNs = 0 then [] else [sampleNs]
  | _ => []

def samplesTaken (enabled : Bool) (calls : List Call) : List Nat :=
  calls.flatMap (Call.taken enabled)

/-- Timeouts since the last progress. -/
def timeoutsInRow (calls : List Call) : Nat :=
  calls.foldl
    (fun count made =>
      match made with
      | .timeout => count + 1
      | .progress => 0
      | _ => count) 0

/-! ## The estimate -/

/-- The estimate lies among the samples, and the backoff counts the timeouts in a row. -/
structure Estimates (cc : CongestionController) (samples : List Nat) (timeouts : Nat) :
    Prop where
  genuine : ∀ sample ∈ samples, 0 < sample ∧ sample < 60000000000
  unsampled : samples = [] → cc.srttNs = 0 ∧ cc.rttvarNs = 0
  within : samples ≠ [] → ∀ low high, (∀ sample ∈ samples, low ≤ sample ∧ sample ≤ high) →
    low ≤ cc.srttNs ∧ cc.srttNs ≤ high ∧ cc.rttvarNs ≤ high
  backoff : cc.backoff = min kMaxBackoff timeouts

namespace Estimates

variable {cc : CongestionController} {samples : List Nat} {timeouts : Nat}

theorem create (maxWindow : Nat) (enabled : Bool) (cleanWindowsToGrow growStep : Nat) :
    (create maxWindow enabled cleanWindowsToGrow growStep).Estimates [] 0 where
  genuine := fun _ impossible => absurd impossible List.not_mem_nil
  unsampled := fun _ => ⟨rfl, rfl⟩
  within := fun impossible => absurd rfl impossible
  backoff := rfl

section

variable (estimates : cc.Estimates samples timeouts)
include estimates

theorem srtt_pos (sampled : samples ≠ []) : 0 < cc.srttNs :=
  (estimates.within sampled 1 60000000000 fun sample member =>
    ⟨(estimates.genuine sample member).1, Nat.le_of_lt (estimates.genuine sample member).2⟩).1

theorem below_minute : cc.srttNs ≤ 60000000000 ∧ cc.rttvarNs ≤ 60000000000 := by
  by_cases hsampled : samples = []
  · obtain ⟨hsrtt, hrttvar⟩ := estimates.unsampled hsampled
    omega
  · exact (estimates.within hsampled 0 60000000000 fun sample member =>
      ⟨Nat.zero_le _, Nat.le_of_lt (estimates.genuine sample member).2⟩).2

theorem of_same {after : CongestionController} {later : Nat} (srtt : after.srttNs = cc.srttNs)
    (rttvar : after.rttvarNs = cc.rttvarNs) (backoff : after.backoff = min kMaxBackoff later) :
    after.Estimates samples later where
  genuine := estimates.genuine
  unsampled := by
    rw [srtt, rttvar]
    exact estimates.unsampled
  within := by
    rw [srtt, rttvar]
    exact estimates.within
  backoff := backoff

/-- The steps of both averages: neither leaves the range of the values it averages. -/
theorem onRttSample {sampleNs : Nat} (enabled : cc.enabled = true) (positive : sampleNs ≠ 0)
    (recent : sampleNs < 60000000000) :
    (cc.onRttSample sampleNs).Estimates (samples ++ [sampleNs]) timeouts := by
  have hgenuine : ∀ sample ∈ samples ++ [sampleNs], 0 < sample ∧ sample < 60000000000 := by
    intro sample member
    rcases List.mem_append.mp member with hold | hnew
    · exact estimates.genuine sample hold
    · rw [List.mem_singleton.mp hnew]
      exact ⟨Nat.pos_of_ne_zero positive, recent⟩
  have hnonempty : samples ++ [sampleNs] = [] → False := by simp
  rw [CongestionController.onRttSample, if_neg (by simp [enabled, positive])]
  split
  · have hnone : samples = [] := by
      by_contra hsampled
      have hpositive := estimates.srtt_pos hsampled
      omega
    subst hnone
    refine ⟨hgenuine, fun impossible => (hnonempty impossible).elim, ?_, estimates.backoff⟩
    intro _ low high hbounds
    obtain ⟨hlow, hhigh⟩ := hbounds sampleNs List.mem_cons_self
    exact ⟨hlow, hhigh, Nat.le_trans (Nat.div_le_self _ _) hhigh⟩
  · rename_i hlater
    obtain ⟨hsrttSmall, hrttvarSmall⟩ := estimates.below_minute
    refine ⟨hgenuine, fun impossible => (hnonempty impossible).elim, ?_, estimates.backoff⟩
    intro _ low high hbounds
    have hsampled : samples ≠ [] := fun hnone => hlater (estimates.unsampled hnone).1
    obtain ⟨hlow, hhigh, hvar⟩ := estimates.within hsampled low high fun sample member =>
      hbounds sample (List.mem_append_left _ member)
    obtain ⟨hlowNew, hhighNew⟩ := hbounds sampleNs (List.mem_append_right _ List.mem_cons_self)
    have hdev : (if cc.srttNs > sampleNs then cc.srttNs - sampleNs else sampleNs - cc.srttNs) ≤
        high := by
      split <;> omega
    have hdevSmall : (if cc.srttNs > sampleNs then cc.srttNs - sampleNs
        else sampleNs - cc.srttNs) ≤ 60000000000 := by
      split <;> omega
    dsimp only
    rw [u64, u64, Nat.mod_eq_of_lt (by omega), Nat.mod_eq_of_lt (by omega)]
    omega

theorem onTimeout : cc.onTimeout.Estimates samples (timeouts + 1) := by
  have hlossy : (if cc.backoff = 0 then cc.onLoss else cc).srttNs = cc.srttNs ∧
      (if cc.backoff = 0 then cc.onLoss else cc).rttvarNs = cc.rttvarNs ∧
      (if cc.backoff = 0 then cc.onLoss else cc).backoff = cc.backoff := by
    rw [onLoss]
    repeat' split
    all_goals exact ⟨rfl, rfl, rfl⟩
  rw [CongestionController.onTimeout]
  generalize (if cc.backoff = 0 then cc.onLoss else cc) = lossy at hlossy
  obtain ⟨hsrtt, hrttvar, hbackoff⟩ := hlossy
  have hcount := estimates.backoff
  split
  · refine estimates.of_same hsrtt hrttvar ?_
    change lossy.backoff + 1 = _
    omega
  · refine estimates.of_same hsrtt hrttvar ?_
    omega

/-- Epochs leave the estimates and the backoff alone. -/
theorem poll (nowNs : Nat) : (cc.poll nowNs).Estimates samples timeouts := by
  rw [poll_eq_iterate]
  split
  · exact estimates.of_same rfl rfl estimates.backoff
  · have hsame := iterate_same cc (cc.epochsOfPoll nowNs)
    exact estimates.of_same hsame.srttNs hsame.rttvarNs (hsame.backoff.trans estimates.backoff)

theorem enableSlowStart (initial : Nat) :
    (cc.enableSlowStart initial).Estimates samples timeouts := by
  rw [CongestionController.enableSlowStart]
  split
  · exact estimates
  · exact estimates.of_same rfl rfl estimates.backoff

theorem onLoss : cc.onLoss.Estimates samples timeouts := by
  rw [CongestionController.onLoss]
  split
  · exact estimates.of_same rfl rfl estimates.backoff
  · exact estimates

end

end Estimates

/-- No call switches a controller on or off. -/
theorem call_enabled (cc : CongestionController) (made : Call) :
    (cc.call made).enabled = cc.enabled := by
  cases made with
  | enableSlowStart initial =>
    rw [call, enableSlowStart]
    split <;> rfl
  | sample sampleNs =>
    rw [call, onRttSample]
    repeat' split
    all_goals rfl
  | loss =>
    rw [call, onLoss]
    split <;> rfl
  | timeout =>
    rw [call, onTimeout, onLoss]
    repeat' split
    all_goals rfl
  | progress => rfl
  | poll nowNs =>
    rw [call, poll_eq_iterate]
    split
    · rfl
    · exact (iterate_same cc _).enabled

/-- The state after a list of calls. -/
def calls (cc : CongestionController) (made : List Call) : CongestionController :=
  made.foldl call cc

theorem calls_enabled (cc : CongestionController) (made : List Call) :
    (cc.calls made).enabled = cc.enabled := by
  induction made generalizing cc with
  | nil => rfl
  | cons first rest ih => exact (ih (cc.call first)).trans (call_enabled cc first)

theorem calls_concat (cc : CongestionController) (made : List Call) (last : Call) :
    cc.calls (made ++ [last]) = (cc.calls made).call last := by
  simp [calls]

theorem samplesTaken_concat (enabled : Bool) (made : List Call) (last : Call) :
    samplesTaken enabled (made ++ [last]) = samplesTaken enabled made ++ last.taken enabled := by
  simp [samplesTaken]

theorem timeoutsInRow_concat (made : List Call) (last : Call) :
    timeoutsInRow (made ++ [last]) =
      match last with
      | .timeout => timeoutsInRow made + 1
      | .progress => 0
      | _ => timeoutsInRow made := by
  simp [timeoutsInRow]

theorem Estimates.call {enabled : Bool} {made : List Call} {last : Call}
    (estimates : cc.Estimates (samplesTaken enabled made) (timeoutsInRow made))
    (same : cc.enabled = enabled) (echoed : last.FromEcho) :
    (cc.call last).Estimates (samplesTaken enabled (made ++ [last]))
      (timeoutsInRow (made ++ [last])) := by
  subst same
  rw [samplesTaken_concat, timeoutsInRow_concat]
  cases last with
  | enableSlowStart initial =>
    simp only [Call.taken, List.append_nil]
    exact estimates.enableSlowStart initial
  | sample sampleNs =>
    obtain ⟨wireNow, echo, hsample⟩ := echoed
    rw [Call.taken]
    split
    · rename_i hignored
      rw [List.append_nil, CongestionController.call, CongestionController.onRttSample,
        if_pos hignored]
      exact estimates
    · rename_i htaken
      obtain ⟨henabled, hpositive⟩ := not_or.mp htaken
      exact estimates.onRttSample (eq_true_of_ne_false henabled) hpositive
        (hsample ▸ rttSampleFromEcho_lt wireNow echo)
  | loss =>
    simp only [Call.taken, List.append_nil]
    exact estimates.onLoss
  | timeout =>
    simp only [Call.taken, List.append_nil]
    exact estimates.onTimeout
  | progress =>
    simp only [Call.taken, List.append_nil]
    exact estimates.of_same rfl rfl rfl
  | poll nowNs =>
    simp only [Call.taken, List.append_nil]
    exact estimates.poll nowNs

/-- The estimates of every run of a new controller. -/
theorem estimates_calls (maxWindow : Nat) (enabled : Bool) (cleanWindowsToGrow growStep : Nat)
    {made : List Call} (echoed : ∀ call ∈ made, call.FromEcho) :
    ((create maxWindow enabled cleanWindowsToGrow growStep).calls made).Estimates
      (samplesTaken enabled made) (timeoutsInRow made) := by
  induction made using List.reverseRecOn with
  | nil => exact Estimates.create maxWindow enabled cleanWindowsToGrow growStep
  | append_singleton made last ih =>
    have hbefore := ih fun call member => echoed call (List.mem_append_left _ member)
    rw [calls_concat]
    exact hbefore.call (calls_enabled _ made)
      (echoed last (List.mem_append_right _ List.mem_cons_self))

/-- The timeout without backoff, in exact arithmetic. -/
def unbackedRto (cc : CongestionController) (minNs maxNs initialNs : Nat) : Nat :=
  min maxNs (max minNs
    (if cc.srttNs = 0 then initialNs
      else max (2 * cc.srttNs) (cc.srttNs + max 1000000 (4 * cc.rttvarNs))))

/-- The doubling loop in closed form: under the cap it is a shift. -/
theorem min_backOff (small : maxNs ≤ 2 ^ 62) (rounds rto : Nat) :
    min maxNs (backOff maxNs rounds rto) = min maxNs (rto * 2 ^ rounds) := by
  induction rounds generalizing rto with
  | zero => rw [backOff, Nat.pow_zero, Nat.mul_one]
  | succ rounds ih =>
    rw [backOff]
    split
    · have hword : u64 (rto * 2) = rto * 2 := Nat.mod_eq_of_lt (by omega)
      rw [ih, hword, Nat.mul_assoc, ← Nat.pow_succ']
    · have hgrown : rto ≤ rto * 2 ^ (rounds + 1) :=
        Nat.le_mul_of_pos_right rto (Nat.two_pow_pos _)
      omega

/-- The timeout is the exact one, doubled for each step of backoff up to the cap. -/
theorem rtoNs_eq {minNs initialNs : Nat} (srttSmall : cc.srttNs ≤ 60000000000)
    (rttvarSmall : cc.rttvarNs ≤ 60000000000) (ordered : minNs ≤ maxNs) (small : maxNs ≤ 2 ^ 62) :
    cc.rtoNs minNs maxNs initialNs =
      min maxNs (cc.unbackedRto minNs maxNs initialNs * 2 ^ cc.backoff) := by
  have hfour : u64 (cc.rttvarNs * 4) = cc.rttvarNs * 4 := Nat.mod_eq_of_lt (by omega)
  have htwice : u64 (2 * cc.srttNs) = 2 * cc.srttNs := Nat.mod_eq_of_lt (by omega)
  have hvar : (if cc.rttvarNs * 4 > 1000000 then cc.rttvarNs * 4 else 1000000) =
      max 1000000 (4 * cc.rttvarNs) := by
    split <;> omega
  have hestimate : u64 (cc.srttNs + max 1000000 (4 * cc.rttvarNs)) =
      cc.srttNs + max 1000000 (4 * cc.rttvarNs) := Nat.mod_eq_of_lt (by omega)
  have hcap : ∀ rto : Nat, (if rto > maxNs then maxNs else rto) = min maxNs rto := by
    intro rto
    split <;> omega
  have hclamp : ∀ rto : Nat, (if rto < minNs then minNs else min maxNs rto) =
      min maxNs (max minNs rto) := by
    intro rto
    split <;> omega
  have hfloor : (if cc.srttNs + max 1000000 (4 * cc.rttvarNs) < 2 * cc.srttNs then
      2 * cc.srttNs else cc.srttNs + max 1000000 (4 * cc.rttvarNs)) =
        max (2 * cc.srttNs) (cc.srttNs + max 1000000 (4 * cc.rttvarNs)) := by
    split <;> omega
  simp only [rtoNs, hfour, hvar, hestimate, htwice, hfloor, hcap, hclamp, min_backOff small,
    unbackedRto, ite_not]

theorem unbackedRto_bounds (cc : CongestionController) {minNs : Nat} (initialNs : Nat)
    (ordered : minNs ≤ maxNs) :
    minNs ≤ cc.unbackedRto minNs maxNs initialNs ∧
      (cc.srttNs ≠ 0 → min maxNs (2 * cc.srttNs) ≤ cc.unbackedRto minNs maxNs initialNs) := by
  rw [unbackedRto]
  constructor
  · omega
  · intro hsampled
    rw [if_neg hsampled]
    omega

/-- Every sum and product of the estimator and of the timeout fits its word. -/
structure Fits (cc : CongestionController) (maxNs : Nat) : Prop where
  deviation : ∀ sampleNs, sampleNs < 60000000000 →
    cc.rttvarNs * 3 +
      (if cc.srttNs > sampleNs then cc.srttNs - sampleNs else sampleNs - cc.srttNs) < 2 ^ 64
  average : ∀ sampleNs, sampleNs < 60000000000 → cc.srttNs * 7 + sampleNs < 2 ^ 64
  variance : cc.rttvarNs * 4 < 2 ^ 64
  estimate : cc.srttNs + max (cc.rttvarNs * 4) 1000000 < 2 ^ 64
  twice : 2 * cc.srttNs < 2 ^ 64
  doubled : ∀ rto, rto < maxNs → rto * 2 < 2 ^ 64

theorem Estimates.fits {samples : List Nat} {timeouts : Nat}
    (estimates : cc.Estimates samples timeouts) (small : maxNs ≤ 2 ^ 62) :
    cc.Fits maxNs := by
  obtain ⟨hsrtt, hrttvar⟩ := estimates.below_minute
  constructor
  · intro sampleNs hrecent
    split <;> omega
  · intro sampleNs hrecent
    omega
  · omega
  · omega
  · omega
  · intro rto hroom
    omega

/-- The estimator and the timeout of every run with echoed samples: nothing wraps, the
estimates lie among the samples taken, and the timeout is the exact one doubled for each
timeout in a row, within its bounds. -/
theorem estimator_bounds (maxWindow : Nat) (enabled : Bool) (cleanWindowsToGrow growStep : Nat)
    (made : List Call) (echoed : ∀ call ∈ made, call.FromEcho) (minNs maxNs initialNs : Nat)
    (ordered : minNs ≤ maxNs) (small : maxNs ≤ 2 ^ 62) :
    let cc := (create maxWindow enabled cleanWindowsToGrow growStep).calls made
    let samples := samplesTaken enabled made
    let rto := cc.rtoNs minNs maxNs initialNs
    cc.Fits maxNs ∧
      (∀ smallest largest, samples.min? = some smallest → samples.max? = some largest →
        smallest ≤ cc.srttNs ∧ cc.srttNs ≤ largest ∧ cc.rttvarNs ≤ largest) ∧
      (cc.srttNs = 0 ↔ samples = []) ∧
      (minNs ≤ rto ∧ rto ≤ maxNs) ∧
      rto = min maxNs (cc.unbackedRto minNs maxNs initialNs * 2 ^ cc.backoff) ∧
      cc.backoff = min 6 (timeoutsInRow made) ∧
      (samples ≠ [] → min maxNs (2 * cc.srttNs) ≤ rto) := by
  intro cc samples rto
  have hestimates : cc.Estimates samples (timeoutsInRow made) :=
    estimates_calls maxWindow enabled cleanWindowsToGrow growStep echoed
  obtain ⟨hsrtt, hrttvar⟩ := hestimates.below_minute
  have hrto : rto = min maxNs (cc.unbackedRto minNs maxNs initialNs * 2 ^ cc.backoff) :=
    rtoNs_eq hsrtt hrttvar ordered small
  obtain ⟨hlower, htwice⟩ := cc.unbackedRto_bounds initialNs ordered
  have hdoubled : cc.unbackedRto minNs maxNs initialNs ≤
      cc.unbackedRto minNs maxNs initialNs * 2 ^ cc.backoff :=
    Nat.le_mul_of_pos_right _ (Nat.two_pow_pos _)
  refine ⟨hestimates.fits small, ?_, ?_, ?_, hrto, hestimates.backoff, ?_⟩
  · intro smallest largest hsmallest hlargest
    have hsampled : samples ≠ [] := by
      intro hnone
      rw [hnone] at hsmallest
      cases hsmallest
    exact hestimates.within hsampled smallest largest fun sample member =>
      ⟨(List.min?_eq_some_iff.mp hsmallest).2 sample member,
        (List.max?_eq_some_iff.mp hlargest).2 sample member⟩
  · constructor
    · intro hzero
      by_contra hsampled
      have hpositive := hestimates.srtt_pos hsampled
      omega
    · exact fun hnone => (hestimates.unsampled hnone).1
  · omega
  · intro hsampled
    omega

/-- One sample of four microseconds and two timeouts: the timeout is doubled twice. -/
theorem estimator_bounds_two_timeouts :
    let made : List Call := [.sample (rttSampleFromEcho 5000 1000), .timeout, .timeout]
    let cc := (create 64 true 3 2).calls made
    cc.rtoNs 1000000 2000000000 1000000000 =
        min 2000000000 (cc.unbackedRto 1000000 2000000000 1000000000 * 2 ^ cc.backoff) ∧
      cc.rtoNs 1000000 2000000000 1000000000 = 4016000 := by
  intro made cc
  have hechoed : ∀ call ∈ made, call.FromEcho := by
    intro call member
    rcases List.mem_cons.mp member with rfl | hrest
    · exact ⟨5000, 1000, rfl⟩
    · rcases List.mem_cons.mp hrest with rfl | hlast
      · trivial
      · rw [List.mem_singleton.mp hlast]
        trivial
  have hbounds := estimator_bounds 64 true 3 2 made hechoed 1000000 2000000000 1000000000
    (by decide) (by decide)
  exact ⟨hbounds.2.2.2.2.1, by decide +kernel⟩

end CongestionController

end FuseTransport.Proto
