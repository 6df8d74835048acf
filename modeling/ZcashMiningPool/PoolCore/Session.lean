import ZcashMiningPool.Library.BoundedFifo
import ZcashMiningPool.PoolCore.Difficulty
import ZcashMiningPool.PoolCore.Target

/-!
# Sessions

What the validator keeps for one session: its difficulty, the targets it still honours, its
submission rate and the fingerprints of its recent shares.  What only the live page shows
(names, addresses, adjustment history) is left out.

* `SessionDifficulty` — the record.
* `checkRate` — the three tiers of the submission rate.
* `creditDifficulty` — the session target, else the newest fresh grace target that the hash meets.
* `remember` — the duplicate check and its history.
* `retarget`, `resetDifficulty` — a new target; the old one joins the grace window.
-/

set_option autoImplicit false

namespace ZcashMiningPool

open BoundedFifo

/-- The monotonic clock in seconds, and the system time in whole seconds. -/
structure Clock where
  instant : ℚ
  unix : ℕ
  deriving DecidableEq, Repr

structure VardiffConfig where
  initialDifficulty : ℚ
  targetSharesPerMinute : ℚ
  retargetIntervalSecs : ℚ
  deriving DecidableEq, Repr

/-- A previous target that is still accepted for a while. -/
structure GraceTarget where
  target : Bytes32
  difficulty : ℚ
  setAt : ℚ
  deriving DecidableEq

def graceTargetHistory : ℕ := 8

def graceTargetMaxAge : ℚ := 60

/-- Per-session bounded history of share fingerprints. -/
def shareDedupHistory : ℕ := 1024

/-- Shares/sec above which a retarget is forced. -/
def vardiffTriggerRate : ℚ := 100

/-- Shares/sec above which shares are rejected outright. -/
def maxSharesPerSec : ℚ := 500

structure SessionDifficulty where
  vardiff : VardiffTracker
  target : Bytes32
  recentTargets : List GraceTarget
  rateWindowStart : ℚ
  rateWindowShares : ℕ
  lowDiffStreak : ℕ
  connectedAt : ℚ
  sharesAccepted : ℕ
  sharesRejectedLowDiff : ℕ
  sharesRejectedJobNotFound : ℕ
  sharesRejectedOther : ℕ
  /-- Oldest first. -/
  recentShareFps : List UInt64
  deriving DecidableEq

inductive RateStatus where
  | ok
  | warn
  | reject
  deriving DecidableEq, Repr

/-- Target and tracker of a difficulty. -/
def makeTargetForDifficulty (config : VardiffConfig) (defaultTarget : Bytes32)
    (difficulty now : ℚ) : Bytes32 × VardiffTracker :=
  ((parseTarget (difficultyToTargetHex difficulty)).toOption.getD defaultTarget,
    VardiffTracker.new config.targetSharesPerMinute config.retargetIntervalSecs difficulty now)

namespace SessionDifficulty

/-- The record of a worker that just connected. -/
def new (target : Bytes32) (vardiff : VardiffTracker) (now : ℚ) : SessionDifficulty where
  vardiff := vardiff
  target := target
  recentTargets := []
  rateWindowStart := now
  rateWindowShares := 0
  lowDiffStreak := 0
  connectedAt := now
  sharesAccepted := 0
  sharesRejectedLowDiff := 0
  sharesRejectedJobNotFound := 0
  sharesRejectedOther := 0
  recentShareFps := []

/-- Check the session's share submission rate; the counter restarts every second. -/
def checkRate (sd : SessionDifficulty) (now : ℚ) : RateStatus × SessionDifficulty :=
  let elapsed := now - sd.rateWindowStart
  if 1 ≤ elapsed then (.ok, { sd with rateWindowStart := now, rateWindowShares := 1 })
  else
    let sd := { sd with rateWindowShares := sd.rateWindowShares + 1 }
    let rate := sd.rateWindowShares / max elapsed (1 / 100)
    (if maxSharesPerSec < rate then .reject
      else if vardiffTriggerRate < rate then .warn
      else .ok, sd)

theorem checkRate_frame (sd : SessionDifficulty) (now : ℚ) :
    (sd.checkRate now).2.target = sd.target ∧
      (sd.checkRate now).2.recentShareFps = sd.recentShareFps := by
  unfold checkRate
  simp only
  split <;> exact ⟨rfl, rfl⟩

/-- Save the current target to the grace window, right before it is replaced. -/
def pushGraceTarget (sd : SessionDifficulty) (now : ℚ) : SessionDifficulty :=
  { sd with
    recentTargets := push graceTargetHistory sd.recentTargets
      ⟨sd.target, targetToDifficulty sd.target, now⟩ }

/-- A grace target that is recent enough and that the hash meets. -/
def GraceMet (hash : Bytes32) (now : ℚ) (gt : GraceTarget) : Bool :=
  decide (now - gt.setAt ≤ graceTargetMaxAge) && meetsTarget hash gt.target

/-- A share seen before is refused; a new one enters the history. -/
def remember (sd : SessionDifficulty) (fp : UInt64) : Option SessionDifficulty :=
  if fp ∈ sd.recentShareFps then none
  else some { sd with recentShareFps := push shareDedupHistory sd.recentShareFps fp }

/-- Enforce the target of a new difficulty. -/
def retarget (sd : SessionDifficulty) (target : Bytes32) (now : ℚ) : SessionDifficulty :=
  { sd.pushGraceTarget now with target := target }

/-- Start over with the tracker of another difficulty. -/
def resetDifficulty (sd : SessionDifficulty) (target : Bytes32) (vardiff : VardiffTracker)
    (now : ℚ) : SessionDifficulty :=
  { sd.pushGraceTarget now with vardiff := vardiff, target := target }

end SessionDifficulty

/-- What a share is held against: the session's target, difficulty and grace targets, or the
    fallback of a session without a record. -/
def sessionTargets (defaultTarget : Bytes32) :
    Option SessionDifficulty → Bytes32 × ℚ × List GraceTarget
  | some sd => (sd.target, sd.vardiff.currentDifficulty, sd.recentTargets)
  | none => (defaultTarget, 1, [])

/-- The difficulty a hash is credited at; grace targets are tried newest first. -/
def creditDifficulty (defaultTarget : Bytes32) (session : Option SessionDifficulty)
    (hash : Bytes32) (now : ℚ) : Option ℚ :=
  let (poolTarget, currentDifficulty, graceTargets) := sessionTargets defaultTarget session
  if meetsTarget hash poolTarget then some currentDifficulty
  else (graceTargets.reverse.find? (SessionDifficulty.GraceMet hash now)).map (·.difficulty)

/-- The hash meets the session target or a fresh grace target. -/
def MeetsSession (defaultTarget : Bytes32) (session : Option SessionDifficulty) (hash : Bytes32)
    (now : ℚ) : Prop :=
  meetsTarget hash (sessionTargets defaultTarget session).1 = true ∨
    ∃ gt ∈ (sessionTargets defaultTarget session).2.2,
      now - gt.setAt ≤ graceTargetMaxAge ∧ meetsTarget hash gt.target = true

theorem creditDifficulty_isSome_iff {defaultTarget : Bytes32} {session : Option SessionDifficulty}
    {hash : Bytes32} {now : ℚ} :
    (∃ d, creditDifficulty defaultTarget session hash now = some d) ↔
      MeetsSession defaultTarget session hash now := by
  unfold creditDifficulty MeetsSession
  by_cases hpool : meetsTarget hash (sessionTargets defaultTarget session).1 = true
  · simp [hpool]
  · simp only [hpool, if_false, false_or, Bool.false_eq_true]
    rw [← Option.isSome_iff_exists, Option.isSome_map, List.find?_isSome]
    constructor
    · rintro ⟨gt, hgt, hmet⟩
      simp only [SessionDifficulty.GraceMet, Bool.and_eq_true, decide_eq_true_eq] at hmet
      exact ⟨gt, List.mem_reverse.1 hgt, hmet⟩
    · rintro ⟨gt, hgt, hmet⟩
      refine ⟨gt, List.mem_reverse.2 hgt, ?_⟩
      simpa [SessionDifficulty.GraceMet] using hmet

end ZcashMiningPool
