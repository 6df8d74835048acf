import Mathlib.Algebra.Order.Field.Rat

/-!
# Variable difficulty

`pool-core/src/difficulty.rs`: the tracker that adjusts one miner's difficulty to a desired share
rate.  Times are seconds of the monotonic clock; times and rates are exact rationals.  The text of
a retarget's reason is left out.

* `VardiffTracker.recordShare`, `forceRetarget` — the two ways a share reaches the tracker; each
  returns the new difficulty when it retargets.
* `computeRetarget` — the shared calculation.
-/

set_option autoImplicit false

namespace ZcashMiningPool

structure VardiffTracker where
  sharesInWindow : ℕ
  windowStart : ℚ
  targetSharesPerMinute : ℚ
  retargetIntervalSecs : ℚ
  currentDifficulty : ℚ
  minDifficulty : ℚ
  maxDifficulty : ℚ
  smoothedRatio : ℚ
  lastWentUp : Option Bool
  lastRetargetAt : ℚ
  lastEarlyRetargetAt : Option ℚ
  deriving DecidableEq, Repr

/-- Minimum elapsed time between any two successful retargets. -/
def minRetargetInterval : ℚ := 1 / 2

/-- Minimum time after an early-trigger retarget before another early-trigger may fire. -/
def earlyTriggerCooldown : ℚ := 12

/-- `x.clamp(lo, hi)`. -/
def clamp (x lo hi : ℚ) : ℚ := min (max x lo) hi

/-- What made the tracker compute a retarget. -/
inductive RetargetTrigger where
  | earlyTrigger
  | interval
  | rateLimit
  deriving DecidableEq, Repr

namespace VardiffTracker

def new (targetSharesPerMinute retargetIntervalSecs initialDifficulty now : ℚ) :
    VardiffTracker where
  sharesInWindow := 0
  windowStart := now
  targetSharesPerMinute := targetSharesPerMinute
  retargetIntervalSecs := retargetIntervalSecs
  currentDifficulty := initialDifficulty
  minDifficulty := min initialDifficulty 1
  maxDifficulty := 10000000000
  smoothedRatio := 1
  lastWentUp := none
  lastRetargetAt := now
  lastEarlyRetargetAt := none

/-- A new measuring window. -/
def resetWindow (v : VardiffTracker) (now : ℚ) : VardiffTracker :=
  { v with sharesInWindow := 0, windowStart := now }

def sharesPerMinute (v : VardiffTracker) (now : ℚ) : ℚ :=
  v.sharesInWindow / max (now - v.windowStart) (1 / 100) * 60

/-- `None` in the dead zone of the smoothed ratio; else the proposed difficulty.  The smoothed
    ratio is updated in either case. -/
def proposeDifficulty (v : VardiffTracker) (ratio : ℚ) : Option ℚ × VardiffTracker :=
  if 4 < ratio ∨ ratio < 1 / 4 then
    -- far off target: step by at most a factor of two
    (some (clamp (v.currentDifficulty * clamp ratio (1 / 2) 2) v.minDifficulty v.maxDifficulty),
      { v with smoothedRatio := 1 })
  else
    let smoothed := 15 / 100 * ratio + (1 - 15 / 100) * v.smoothedRatio
    let v := { v with smoothedRatio := smoothed }
    if 6 / 10 < smoothed ∧ smoothed < 15 / 10 then (none, v)
    else
      (some (clamp (v.currentDifficulty * clamp smoothed (8 / 10) (125 / 100)) v.minDifficulty
        v.maxDifficulty), v)

/-- A proposal that reverses the last direction is cut to the midpoint. -/
def dampReversal (v : VardiffTracker) (newDifficulty : ℚ) : ℚ :=
  match v.lastWentUp with
  | some lastUp =>
    if lastUp ≠ decide (v.currentDifficulty < newDifficulty) then
      (v.currentDifficulty + newDifficulty) / 2
    else newDifficulty
  | none => newDifficulty

/-- Shared retarget calculation used by both `recordShare` and `forceRetarget`. -/
def computeRetarget (v : VardiffTracker) (trigger : RetargetTrigger) (now : ℚ) :
    Option ℚ × VardiffTracker :=
  if now - v.lastRetargetAt < minRetargetInterval then (none, v)
  else
    let spm := v.sharesPerMinute now
    if 10 ≤ spm ∧ spm ≤ 50 then (none, v.resetWindow now)
    else match v.proposeDifficulty (spm / v.targetSharesPerMinute) with
      | (none, v) => (none, v.resetWindow now)
      | (some newDifficulty, v) =>
        let final := v.dampReversal newDifficulty
        (some final,
          { v.resetWindow now with
            lastWentUp := some (decide (v.currentDifficulty < final))
            currentDifficulty := final
            lastRetargetAt := now
            lastEarlyRetargetAt :=
              if trigger = .earlyTrigger then some now else v.lastEarlyRetargetAt })

/-- One more share in the window; the count is a `u32`. -/
def countShare (v : VardiffTracker) : VardiffTracker :=
  { v with sharesInWindow := (v.sharesInWindow + 1) % 2 ^ 32 }

/-- More than four times the expected shares after at least three seconds, and no early trigger
    shortly before. -/
def earlyTrigger (v : VardiffTracker) (now : ℚ) : Bool :=
  let elapsed := now - v.windowStart
  let expectedInElapsed := v.targetSharesPerMinute * elapsed / 60
  let inEarlyCooldown := match v.lastEarlyRetargetAt with
    | some t => decide (now - t < earlyTriggerCooldown)
    | none => false
  decide (expectedInElapsed * 4 < v.sharesInWindow) && decide (3 ≤ elapsed) && !inEarlyCooldown

/-- Record a share submission. -/
def recordShare (v : VardiffTracker) (now : ℚ) : Option ℚ × VardiffTracker :=
  let v := v.countShare
  let earlyTrigger := v.earlyTrigger now
  if !earlyTrigger && decide (now - v.windowStart < v.retargetIntervalSecs) then (none, v)
  else v.computeRetarget (if earlyTrigger then .earlyTrigger else .interval) now

/-- Force an immediate retarget, bypassing the interval and early-trigger gates. -/
def forceRetarget (v : VardiffTracker) (now : ℚ) : Option ℚ × VardiffTracker :=
  v.countShare.computeRetarget .rateLimit now

end VardiffTracker

end ZcashMiningPool
