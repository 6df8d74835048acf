import ZcashMiningPool.Library.Pacing
import ZcashMiningPool.PoolCore.Vardiff

/-!
# Range, step and pace of the variable difficulty

A tracker whose difficulty starts inside its range stays there over any run, moves by at most a
factor of two at a time, and spaces its retargets.  The spacing needs no such start.  The range
ends at ten billion whatever the start is: `new` lowers the lower bound to the starting difficulty,
but does not raise the upper one, and a higher start leaves the range at once and then falls to
the upper bound in one retarget.

* `RetargetEvent`, `retargets` — the retargets that the calls of a run return.
* `paced`, `earlyPaced` — the spacing.
* `bounded_and_paced_iff` — everything together, exactly for a start of at most ten billion.
-/

set_option autoImplicit false

namespace ZcashMiningPool

open Machine

/-- A retarget that a call returned. -/
structure RetargetEvent where
  time : ℚ
  trigger : RetargetTrigger
  before : ℚ
  after : ℚ
  deriving DecidableEq, Repr

/-- Calls at non-decreasing times from `began` on. -/
def CalledInOrder (began : ℚ) (is : List VardiffInput) : Prop :=
  (began :: is.map (·.now)).Pairwise (· ≤ ·)

instance (began : ℚ) (is : List VardiffInput) : Decidable (CalledInOrder began is) :=
  inferInstanceAs (Decidable (List.Pairwise _ _))

namespace VardiffTracker

def retargetOf (v : VardiffTracker) (i : VardiffInput) : Option RetargetEvent :=
  (v.answer i).1.map (fun d => ⟨i.now, v.trigger i, v.currentDifficulty, d⟩)

/-- The retargets of a run, in order. -/
def retargets (v : VardiffTracker) (is : List VardiffInput) : List RetargetEvent :=
  outputs step retargetOf v is

/-- What a returned retarget says of the call, and what it does to the timers. -/
theorem retargetOf_some {v : VardiffTracker} {i : VardiffInput} {r : RetargetEvent}
    (h : v.retargetOf i = some r) :
    r.time = i.now ∧ r.trigger = v.trigger i ∧
      v.lastRetargetAt + minRetargetInterval ≤ i.now ∧ (v.step i).lastRetargetAt = i.now ∧
      (v.step i).lastEarlyRetargetAt =
        if v.trigger i = .earlyTrigger then some i.now else v.lastEarlyRetargetAt := by
  obtain ⟨d, hd, rfl⟩ := Option.map_eq_some_iff.1 h
  obtain ⟨hclose, f, smoothed, -, -, -, hstep⟩ := retarget_cases hd
  have hlast : minRetargetInterval ≤ i.now - v.lastRetargetAt := hclose.1
  rw [hstep]
  exact ⟨rfl, rfl, by linarith, rfl, rfl⟩

theorem retargetOf_none {v : VardiffTracker} {i : VardiffInput} (h : v.retargetOf i = none) :
    (v.step i).currentDifficulty = v.currentDifficulty ∧
      (v.step i).lastRetargetAt = v.lastRetargetAt ∧
      (v.step i).lastEarlyRetargetAt = v.lastEarlyRetargetAt :=
  quiet_frame (Option.map_eq_none_iff.1 h)

/-! ## Pace -/

/-- Any two retargets are at least the minimum interval apart. -/
theorem paced (v : VardiffTracker) (is : List VardiffInput) :
    (v.retargets is).Pairwise (fun r r' => r.time + minRetargetInterval ≤ r'.time) := by
  have hfree : ∀ (v : VardiffTracker) (i : VardiffInput) (r : RetargetEvent),
      v.retargetOf i = some r → v.lastRetargetAt + minRetargetInterval ≤ r.time := by
    intro v i r hr
    obtain ⟨htime, -, hlast, -⟩ := retargetOf_some hr
    rw [htime]
    exact hlast
  have hshut : ∀ (v : VardiffTracker) (i : VardiffInput) (r : RetargetEvent),
      (v.step i).lastRetargetAt + minRetargetInterval ≤ r.time →
      v.lastRetargetAt + minRetargetInterval ≤ r.time := by
    intro v i r hr
    cases hout : v.retargetOf i with
    | none => rwa [(retargetOf_none hout).2.1] at hr
    | some r₀ =>
      obtain ⟨-, -, hlast, hnow, -⟩ := retargetOf_some hout
      have hpos : 0 ≤ minRetargetInterval := by norm_num [minRetargetInterval]
      rw [hnow] at hr
      linarith
  have hnext : ∀ (v : VardiffTracker) (i : VardiffInput) (r r' : RetargetEvent),
      v.retargetOf i = some r → (v.step i).lastRetargetAt + minRetargetInterval ≤ r'.time →
      r.time + minRetargetInterval ≤ r'.time := by
    intro v i r r' hr hr'
    obtain ⟨htime, -, -, hnow, -⟩ := retargetOf_some hr
    rwa [hnow, ← htime] at hr'
  exact pairwise_outputs hfree hshut hnext v is

/-- An early trigger waits for the end of the cooldown. -/
def Cooled (v : VardiffTracker) (r : RetargetEvent) : Prop :=
  r.trigger = .earlyTrigger → ∀ t, v.lastEarlyRetargetAt = some t → t + earlyTriggerCooldown ≤ r.time

theorem cooled_of_earlyTrigger {v : VardiffTracker} {now t : ℚ} (h : v.earlyTrigger now = true)
    (ht : v.lastEarlyRetargetAt = some t) : t + earlyTriggerCooldown ≤ now := by
  unfold earlyTrigger at h
  rw [ht] at h
  simp only [Bool.and_eq_true, Bool.not_eq_true', decide_eq_false_iff_not, not_lt] at h
  linarith [h.2]

theorem cooled_of_retargetOf {v : VardiffTracker} {i : VardiffInput} {r : RetargetEvent}
    (h : v.retargetOf i = some r) : v.Cooled r := by
  obtain ⟨htime, htrigger, -⟩ := retargetOf_some h
  intro hearly t ht
  rw [htime]
  rw [htrigger] at hearly
  unfold trigger at hearly
  split at hearly
  · split at hearly
    · rename_i hearly'
      exact cooled_of_earlyTrigger hearly' ht
    · cases hearly
  · cases hearly

/-- Any two early-trigger retargets are at least the cooldown apart. -/
theorem earlyPaced (v : VardiffTracker) (is : List VardiffInput) :
    (v.retargets is).Pairwise (fun r r' => r.trigger = .earlyTrigger →
      r'.trigger = .earlyTrigger → r.time + earlyTriggerCooldown ≤ r'.time) := by
  have hshut : ∀ (v : VardiffTracker) (i : VardiffInput) (r : RetargetEvent),
      (v.step i).Cooled r → v.Cooled r := by
    intro v i r hr hearly t ht
    cases hout : v.retargetOf i with
    | none => exact hr hearly t ((retargetOf_none hout).2.2.trans ht)
    | some r₀ =>
      obtain ⟨htime, htrigger, -, -, hset⟩ := retargetOf_some hout
      by_cases h₀ : v.trigger i = .earlyTrigger
      · have hpos : 0 ≤ earlyTriggerCooldown := by norm_num [earlyTriggerCooldown]
        have hbefore := cooled_of_retargetOf hout (htrigger.trans h₀) t ht
        have hafter := hr hearly i.now (hset.trans (if_pos h₀))
        rw [htime] at hbefore
        linarith
      · exact hr hearly t (hset.trans ((if_neg h₀).trans ht))
  have hnext : ∀ (v : VardiffTracker) (i : VardiffInput) (r r' : RetargetEvent),
      v.retargetOf i = some r → (v.step i).Cooled r' → r.trigger = .earlyTrigger →
      r'.trigger = .earlyTrigger → r.time + earlyTriggerCooldown ≤ r'.time := by
    intro v i r r' hr hr' hearly hearly'
    obtain ⟨htime, htrigger, -, -, hset⟩ := retargetOf_some hr
    rw [htime]
    exact hr' hearly' i.now (hset.trans (if_pos (htrigger.symm.trans hearly)))
  have hfree : ∀ (v : VardiffTracker) (i : VardiffInput) (r : RetargetEvent),
      v.retargetOf i = some r → v.Cooled r := fun v i r hr => cooled_of_retargetOf hr
  exact pairwise_outputs hfree hshut hnext v is

/-! ## Range and step -/

/-- A tracker in its range moves by at most a factor of two. -/
theorem retarget_within {v : VardiffTracker} (h : v.InRange) (is : List VardiffInput) :
    ∀ r ∈ v.retargets is, r.before / 2 ≤ r.after ∧ r.after ≤ 2 * r.before := by
  have hstep : ∀ (v : VardiffTracker) (i : VardiffInput), v.InRange → (v.step i).InRange :=
    fun v i hv => inRange_step i hv
  refine forall_outputs hstep ?_ h is
  intro v i r hv hr
  obtain ⟨d, hd, rfl⟩ := Option.map_eq_some_iff.1 hr
  obtain ⟨-, f, smoothed, hlo, hhi, rfl, -⟩ := retarget_cases hd
  exact ⟨half_le_moved hv hlo, moved_le_double hv hhi⟩

/-- The bounds that the settings put around the difficulty hold over the run. -/
theorem always_inRange {v : VardiffTracker} (h : v.InRange) (is : List VardiffInput) :
    Always step (fun v' => v.minDifficulty ≤ v'.currentDifficulty ∧
      v'.currentDifficulty ≤ v.maxDifficulty) v is := by
  have hstep : ∀ (v' : VardiffTracker) (i : VardiffInput),
      (v'.InRange ∧ v'.minDifficulty = v.minDifficulty ∧ v'.maxDifficulty = v.maxDifficulty) →
      True → ((v'.step i).InRange ∧ (v'.step i).minDifficulty = v.minDifficulty ∧
        (v'.step i).maxDifficulty = v.maxDifficulty) := by
    intro v' i ⟨hin, hmin, hmax⟩ _
    obtain ⟨hmin', hmax', -⟩ := v'.step_settings i
    exact ⟨inRange_step i hin, hmin'.trans hmin, hmax'.trans hmax⟩
  refine (always_of_allowed hstep ⟨h, rfl, rfl⟩ (allowed_of_forall (fun _ _ => trivial) v is)).imp ?_
  intro v' ⟨hin, hmin, hmax⟩
  exact ⟨hmin ▸ hin.lower, hmax ▸ hin.upper⟩

/-- Range, step and pace of a run from the starting difficulty `start`. -/
structure BoundedAndPaced (start : ℚ) (v : VardiffTracker) (is : List VardiffInput) : Prop where
  range : Always step (fun v => min start 1 ≤ v.currentDifficulty ∧
    v.currentDifficulty ≤ 10000000000) v is
  within : ∀ r ∈ v.retargets is, r.before / 2 ≤ r.after ∧ r.after ≤ 2 * r.before
  paced : (v.retargets is).Pairwise (fun r r' => r.time + 1 / 2 ≤ r'.time)
  earlyPaced : (v.retargets is).Pairwise (fun r r' => r.trigger = .earlyTrigger →
    r'.trigger = .earlyTrigger → r.time + 12 ≤ r'.time)

/-- **Bounds and pace of the variable difficulty** hold over all runs exactly when the starting
    difficulty is not above the upper bound. -/
theorem bounded_and_paced_iff {start : ℚ} (hstart : 0 < start) (target interval began : ℚ) :
    (∀ is, CalledInOrder began is →
      BoundedAndPaced start (new target interval start began) is) ↔ start ≤ 10000000000 := by
  constructor
  · intro h
    exact (h [] (List.pairwise_singleton _ _)).range.head.2
  · intro hmax is _
    have hin := inRange_new hstart hmax target interval began
    exact ⟨always_inRange hin is, retarget_within hin is, paced _ is, earlyPaced _ is⟩

/-- A flood that starts the ramp early, then two forced retargets of which the first comes too
    soon. -/
def floodCalls : List VardiffInput :=
  List.replicate 5 ⟨.recordShare, 31 / 10⟩ ++ [⟨.forceRetarget, 32 / 10⟩, ⟨.forceRetarget, 4⟩]

theorem bounded_and_paced_iff_flood :
    (new 20 30 1000 0).retargets floodCalls
        = [⟨31 / 10, .earlyTrigger, 1000, 2000⟩, ⟨4, .rateLimit, 2000, 4000⟩] ∧
      BoundedAndPaced 1000 (new 20 30 1000 0) floodCalls :=
  ⟨by decide +kernel, (bounded_and_paced_iff (by norm_num) 20 30 0).2 (by norm_num) floodCalls
    (by decide +kernel)⟩

/-- A miner that asks for the difficulty 10^12 in its password and sends one share after 31
    seconds: it starts above the upper bound and falls to a hundredth. -/
theorem huge_start_not_bounded :
    CalledInOrder 0 [⟨.recordShare, 31⟩] ∧
      (new 20 30 1000000000000 0).retargets [⟨.recordShare, 31⟩]
        = [⟨31, .interval, 1000000000000, 10000000000⟩] ∧
      ¬ BoundedAndPaced 1000000000000 (new 20 30 1000000000000 0) [⟨.recordShare, 31⟩] := by
  refine ⟨by decide +kernel, by decide +kernel, fun h => ?_⟩
  have hstart : (1000000000000 : ℚ) ≤ 10000000000 := h.range.head.2
  norm_num at hstart

end VardiffTracker

end ZcashMiningPool
