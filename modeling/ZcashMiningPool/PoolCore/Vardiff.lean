import ZcashMiningPool.Library.Run
import ZcashMiningPool.PoolCore.Difficulty
import Mathlib.Tactic.Linarith
import Mathlib.Tactic.Ring

/-!
# The calls of a difficulty tracker

A share reaches the tracker through one of two calls.  What a call does falls into five cases, and
a difficulty that is returned is the old one times a factor between one half and two, kept inside
the tracker's range and cut to the midpoint when it reverses the last direction.

* `VardiffInput`, `answer`, `step` — a call at a time, what it returns, the tracker after it.
* `Outcome`, `outcome` — the five cases.
* `InRange`, `inRange_step` — the difficulty stays between the tracker's bounds.
* `le_moved`, `moved_le`, `half_le_moved`, `moved_le_double` — where a retarget leads.
-/

set_option autoImplicit false

namespace ZcashMiningPool

/-! ## Clamping -/

theorem le_clamp {x lo hi y : ℚ} (hx : y ≤ max x lo) (hhi : y ≤ hi) : y ≤ clamp x lo hi :=
  le_min hx hhi

theorem clamp_le {x lo hi y : ℚ} (hx : x ≤ y) (hlo : lo ≤ y) : clamp x lo hi ≤ y :=
  (min_le_left _ _).trans (max_le hx hlo)

theorem clamp_mem (x : ℚ) {lo hi : ℚ} (h : lo ≤ hi) : lo ≤ clamp x lo hi ∧ clamp x lo hi ≤ hi :=
  ⟨le_clamp (le_max_right _ _) h, min_le_right _ _⟩

/-! ## The two calls -/

/-- The ways a share reaches the tracker. -/
inductive VardiffCall where
  | recordShare
  | forceRetarget
  deriving DecidableEq, Repr

structure VardiffInput where
  call : VardiffCall
  now : ℚ
  deriving DecidableEq, Repr

namespace VardiffTracker

def answer (v : VardiffTracker) (i : VardiffInput) : Option ℚ × VardiffTracker :=
  match i.call with
  | .recordShare => v.recordShare i.now
  | .forceRetarget => v.forceRetarget i.now

/-- The tracker after a call. -/
def step (v : VardiffTracker) (i : VardiffInput) : VardiffTracker := (v.answer i).2

/-- What a retarget by this call would be put down to. -/
def trigger (v : VardiffTracker) (i : VardiffInput) : RetargetTrigger :=
  match i.call with
  | .recordShare => if v.countShare.earlyTrigger i.now then .earlyTrigger else .interval
  | .forceRetarget => .rateLimit

/-- The call closes the measuring window: the last retarget is long enough ago, and a share that
    is merely recorded comes early or at the end of the interval. -/
def Closes (v : VardiffTracker) (i : VardiffInput) : Prop :=
  minRetargetInterval ≤ i.now - v.lastRetargetAt ∧
    (v.trigger i = .interval → v.retargetIntervalSecs ≤ i.now - v.windowStart)

instance (v : VardiffTracker) (i : VardiffInput) : Decidable (v.Closes i) :=
  inferInstanceAs (Decidable (_ ∧ (_ → _)))

/-- The shares per minute of the window that the call closes. -/
def measured (v : VardiffTracker) (i : VardiffInput) : ℚ := v.countShare.sharesPerMinute i.now

/-- The measured rate as a multiple of the target rate. -/
def ratio (v : VardiffTracker) (i : VardiffInput) : ℚ := v.measured i / v.targetSharesPerMinute

/-- The smoothed ratio with the new sample. -/
def average (v : VardiffTracker) (i : VardiffInput) : ℚ :=
  15 / 100 * v.ratio i + (1 - 15 / 100) * v.smoothedRatio

/-- The hard stable zone of shares per minute. -/
def Stable (spm : ℚ) : Prop := 10 ≤ spm ∧ spm ≤ 50

instance (spm : ℚ) : Decidable (Stable spm) := inferInstanceAs (Decidable (_ ∧ _))

/-- A ratio far off target. -/
def Ramp (ratio : ℚ) : Prop := 4 < ratio ∨ ratio < 1 / 4

instance (ratio : ℚ) : Decidable (Ramp ratio) := inferInstanceAs (Decidable (_ ∨ _))

/-- Where a retarget by the factor `f` leads. -/
def moved (v : VardiffTracker) (f : ℚ) : ℚ :=
  v.dampReversal (clamp (v.currentDifficulty * f) v.minDifficulty v.maxDifficulty)

/-- The tracker after the call has retargeted to `d`. -/
def retargeted (v : VardiffTracker) (i : VardiffInput) (smoothed d : ℚ) : VardiffTracker :=
  { v.resetWindow i.now with
    smoothedRatio := smoothed
    lastWentUp := some (decide (v.currentDifficulty < d))
    currentDifficulty := d
    lastRetargetAt := i.now
    lastEarlyRetargetAt :=
      if v.trigger i = .earlyTrigger then some i.now else v.lastEarlyRetargetAt }

/-- What a call returns and leaves behind, by cases. -/
inductive Outcome (v : VardiffTracker) (i : VardiffInput) : Option ℚ × VardiffTracker → Prop where
  | held (hclose : ¬ v.Closes i) : Outcome v i (none, v.countShare)
  | stable (hclose : v.Closes i) (hstable : Stable (v.measured i)) :
      Outcome v i (none, v.resetWindow i.now)
  | settled (hclose : v.Closes i) (hstable : ¬ Stable (v.measured i)) (hramp : ¬ Ramp (v.ratio i))
      (hlow : 6 / 10 < v.average i) (hhigh : v.average i < 15 / 10) :
      Outcome v i (none, { v.resetWindow i.now with smoothedRatio := v.average i })
  | ramp (hclose : v.Closes i) (hstable : ¬ Stable (v.measured i)) (hramp : Ramp (v.ratio i))
      {d : ℚ} (hd : d = v.moved (clamp (v.ratio i) (1 / 2) 2)) :
      Outcome v i (some d, v.retargeted i 1 d)
  | steady (hclose : v.Closes i) (hstable : ¬ Stable (v.measured i)) (hramp : ¬ Ramp (v.ratio i))
      (hout : v.average i ≤ 6 / 10 ∨ 15 / 10 ≤ v.average i)
      {d : ℚ} (hd : d = v.moved (clamp (v.average i) (8 / 10) (125 / 100))) :
      Outcome v i (some d, v.retargeted i (v.average i) d)

theorem answer_of_not_closes {v : VardiffTracker} {i : VardiffInput} (h : ¬ v.Closes i) :
    v.answer i = (none, v.countShare) := by
  have hlast : ∀ trigger, i.now - v.lastRetargetAt < minRetargetInterval →
      v.countShare.computeRetarget trigger i.now = (none, v.countShare) :=
    fun trigger hlt => if_pos hlt
  unfold Closes trigger at h
  unfold answer
  cases hcall : i.call with
  | forceRetarget =>
    simp only [hcall, reduceCtorEq, false_implies, and_true, not_le] at h
    exact hlast .rateLimit h
  | recordShare =>
    simp only [hcall] at h
    simp only [recordShare]
    split
    · rfl
    · rename_i hgate
      refine hlast _ (not_le.1 fun hle => h ⟨hle, fun hint => not_lt.1 fun hlt => hgate ?_⟩)
      cases hearly : v.countShare.earlyTrigger i.now with
      | true =>
        rw [hearly] at hint
        cases hint
      | false => exact decide_eq_true hlt

theorem answer_of_closes {v : VardiffTracker} {i : VardiffInput} (h : v.Closes i) :
    v.answer i = v.countShare.computeRetarget (v.trigger i) i.now := by
  obtain ⟨-, h⟩ := h
  unfold trigger at *
  unfold answer
  cases hcall : i.call with
  | forceRetarget => rfl
  | recordShare =>
    simp only [hcall] at h ⊢
    refine if_neg fun hgate => ?_
    rw [Bool.and_eq_true, Bool.not_eq_true', decide_eq_true_eq] at hgate
    obtain ⟨hearly, hlt⟩ := hgate
    rw [hearly] at h
    exact absurd hlt (not_lt.2 (h rfl))

theorem computeRetarget_none {v v' : VardiffTracker} {trigger : RetargetTrigger} {now : ℚ}
    (hlast : minRetargetInterval ≤ now - v.lastRetargetAt)
    (hstable : ¬ Stable (v.sharesPerMinute now))
    (hprop : v.proposeDifficulty (v.sharesPerMinute now / v.targetSharesPerMinute) = (none, v')) :
    v.computeRetarget trigger now = (none, v'.resetWindow now) := by
  refine (if_neg (not_lt.2 hlast)).trans ((if_neg hstable).trans ?_)
  rw [hprop]

theorem computeRetarget_some {v v' : VardiffTracker} {trigger : RetargetTrigger} {now d : ℚ}
    (hlast : minRetargetInterval ≤ now - v.lastRetargetAt)
    (hstable : ¬ Stable (v.sharesPerMinute now))
    (hprop : v.proposeDifficulty (v.sharesPerMinute now / v.targetSharesPerMinute) = (some d, v')) :
    v.computeRetarget trigger now = (some (v'.dampReversal d),
      { v'.resetWindow now with
        lastWentUp := some (decide (v'.currentDifficulty < v'.dampReversal d))
        currentDifficulty := v'.dampReversal d
        lastRetargetAt := now
        lastEarlyRetargetAt :=
          if trigger = .earlyTrigger then some now else v'.lastEarlyRetargetAt }) := by
  refine (if_neg (not_lt.2 hlast)).trans ((if_neg hstable).trans ?_)
  rw [hprop]

theorem outcome (v : VardiffTracker) (i : VardiffInput) : Outcome v i (v.answer i) := by
  by_cases hclose : v.Closes i
  · rw [answer_of_closes hclose]
    by_cases hstable : Stable (v.measured i)
    · have heq : v.countShare.computeRetarget (v.trigger i) i.now = (none, v.resetWindow i.now) :=
        (if_neg (not_lt.2 hclose.1)).trans (if_pos hstable)
      rw [heq]
      exact .stable hclose hstable
    · by_cases hramp : Ramp (v.ratio i)
      · rw [computeRetarget_some (v := v.countShare) hclose.1 hstable (if_pos hramp)]
        exact .ramp hclose hstable hramp rfl
      · by_cases hzone : 6 / 10 < v.average i ∧ v.average i < 15 / 10
        · have hprop : v.countShare.proposeDifficulty (v.ratio i)
              = (none, { v.countShare with smoothedRatio := v.average i }) :=
            (if_neg hramp).trans (if_pos hzone)
          rw [computeRetarget_none (v := v.countShare) hclose.1 hstable hprop]
          exact .settled hclose hstable hramp hzone.1 hzone.2
        · have hprop : v.countShare.proposeDifficulty (v.ratio i)
              = (some (clamp (v.currentDifficulty * clamp (v.average i) (8 / 10) (125 / 100))
                  v.minDifficulty v.maxDifficulty),
                { v.countShare with smoothedRatio := v.average i }) :=
            (if_neg hramp).trans (if_neg hzone)
          rw [computeRetarget_some (v := v.countShare) hclose.1 hstable hprop]
          refine .steady hclose hstable hramp ?_ rfl
          rw [not_and_or, not_lt, not_lt] at hzone
          exact hzone
  · rw [answer_of_not_closes hclose]
    exact .held hclose

/-! ## Where a retarget leads -/

theorem le_dampReversal {v : VardiffTracker} {p y : ℚ} (hcur : y ≤ v.currentDifficulty)
    (hp : y ≤ p) : y ≤ v.dampReversal p := by
  unfold dampReversal
  split
  · split
    · linarith
    · exact hp
  · exact hp

theorem dampReversal_le {v : VardiffTracker} {p y : ℚ} (hcur : v.currentDifficulty ≤ y)
    (hp : p ≤ y) : v.dampReversal p ≤ y := by
  unfold dampReversal
  split
  · split
    · linarith
    · exact hp
  · exact hp

/-- The difficulty lies between the tracker's bounds. -/
structure InRange (v : VardiffTracker) : Prop where
  nonneg : 0 ≤ v.minDifficulty
  lower : v.minDifficulty ≤ v.currentDifficulty
  upper : v.currentDifficulty ≤ v.maxDifficulty

theorem inRange_new {start : ℚ} (hstart : 0 < start) (hmax : start ≤ 10000000000)
    (target interval began : ℚ) : (new target interval start began).InRange where
  nonneg := le_min hstart.le zero_le_one
  lower := min_le_left _ _
  upper := hmax

section Moved

variable {v : VardiffTracker} {f : ℚ}

theorem moved_mem (h : v.InRange) : v.minDifficulty ≤ v.moved f ∧ v.moved f ≤ v.maxDifficulty := by
  obtain ⟨hlo, hhi⟩ := clamp_mem (v.currentDifficulty * f) (h.lower.trans h.upper)
  exact ⟨le_dampReversal h.lower hlo, dampReversal_le h.upper hhi⟩

theorem moved_le (h : v.InRange) (hf : f ≤ 1) : v.moved f ≤ v.currentDifficulty := by
  have hmul : v.currentDifficulty * f ≤ v.currentDifficulty :=
    mul_le_of_le_one_right (h.nonneg.trans h.lower) hf
  exact dampReversal_le le_rfl (clamp_le hmul h.lower)

theorem le_moved (h : v.InRange) (hf : 1 ≤ f) : v.currentDifficulty ≤ v.moved f := by
  have hmul : v.currentDifficulty ≤ v.currentDifficulty * f :=
    le_mul_of_one_le_right (h.nonneg.trans h.lower) hf
  exact le_dampReversal le_rfl (le_clamp (hmul.trans (le_max_left _ _)) h.upper)

theorem half_le_moved (h : v.InRange) (hf : 1 / 2 ≤ f) :
    v.currentDifficulty / 2 ≤ v.moved f := by
  have hcur : 0 ≤ v.currentDifficulty := h.nonneg.trans h.lower
  have hhalf : v.currentDifficulty / 2 ≤ v.currentDifficulty := by linarith
  have hmul : v.currentDifficulty / 2 ≤ v.currentDifficulty * f := by
    calc v.currentDifficulty / 2 = v.currentDifficulty * (1 / 2) := by ring
      _ ≤ v.currentDifficulty * f := mul_le_mul_of_nonneg_left hf hcur
  exact le_dampReversal hhalf (le_clamp (hmul.trans (le_max_left _ _)) (hhalf.trans h.upper))

theorem moved_le_double (h : v.InRange) (hf : f ≤ 2) : v.moved f ≤ 2 * v.currentDifficulty := by
  have hcur : 0 ≤ v.currentDifficulty := h.nonneg.trans h.lower
  have hdouble : v.currentDifficulty ≤ 2 * v.currentDifficulty := by linarith
  have hmul : v.currentDifficulty * f ≤ 2 * v.currentDifficulty := by
    calc v.currentDifficulty * f ≤ v.currentDifficulty * 2 := mul_le_mul_of_nonneg_left hf hcur
      _ = 2 * v.currentDifficulty := by ring
  exact dampReversal_le hdouble (clamp_le hmul (h.lower.trans hdouble))

end Moved

/-! ## Steps -/

/-- A call that returns a difficulty closes the window and moves by a factor between one half and
    two. -/
theorem retarget_cases {v : VardiffTracker} {i : VardiffInput} {d : ℚ}
    (h : (v.answer i).1 = some d) :
    v.Closes i ∧ ∃ f smoothed, 1 / 2 ≤ f ∧ f ≤ 2 ∧ d = v.moved f ∧
      v.step i = v.retargeted i smoothed d := by
  have hout := v.outcome i
  unfold step
  generalize v.answer i = r at h hout
  cases hout with
  | held _ => cases h
  | stable _ _ => cases h
  | settled _ _ _ _ _ => cases h
  | ramp hclose _ _ hd =>
    cases h
    have hbounds : (1 / 2 : ℚ) ≤ 2 := by norm_num
    obtain ⟨hlo, hhi⟩ := clamp_mem (v.ratio i) hbounds
    exact ⟨hclose, _, _, hlo, hhi, hd, rfl⟩
  | steady hclose _ _ _ hd =>
    cases h
    have hbounds : (8 / 10 : ℚ) ≤ 125 / 100 := by norm_num
    obtain ⟨hlo, hhi⟩ := clamp_mem (v.average i) hbounds
    exact ⟨hclose, _, _, le_trans (by norm_num) hlo, hhi.trans (by norm_num), hd, rfl⟩

/-- A call that returns nothing leaves difficulty and timers alone. -/
theorem quiet_frame {v : VardiffTracker} {i : VardiffInput} (h : (v.answer i).1 = none) :
    (v.step i).currentDifficulty = v.currentDifficulty ∧
      (v.step i).lastRetargetAt = v.lastRetargetAt ∧
      (v.step i).lastEarlyRetargetAt = v.lastEarlyRetargetAt := by
  have hout := v.outcome i
  unfold step
  generalize v.answer i = r at h hout
  cases hout with
  | held _ => exact ⟨rfl, rfl, rfl⟩
  | stable _ _ => exact ⟨rfl, rfl, rfl⟩
  | settled _ _ _ _ _ => exact ⟨rfl, rfl, rfl⟩
  | ramp _ _ _ _ => cases h
  | steady _ _ _ _ _ => cases h

/-- The tracker's settings never change. -/
theorem step_settings (v : VardiffTracker) (i : VardiffInput) :
    (v.step i).minDifficulty = v.minDifficulty ∧ (v.step i).maxDifficulty = v.maxDifficulty ∧
      (v.step i).targetSharesPerMinute = v.targetSharesPerMinute := by
  have hout := v.outcome i
  unfold step
  generalize v.answer i = r at hout
  cases hout <;> exact ⟨rfl, rfl, rfl⟩

theorem inRange_step {v : VardiffTracker} (i : VardiffInput) (h : v.InRange) :
    (v.step i).InRange := by
  obtain ⟨hmin, hmax, -⟩ := v.step_settings i
  have hcur : v.minDifficulty ≤ (v.step i).currentDifficulty ∧
      (v.step i).currentDifficulty ≤ v.maxDifficulty := by
    cases hd : (v.answer i).1 with
    | none =>
      rw [(quiet_frame hd).1]
      exact ⟨h.lower, h.upper⟩
    | some d =>
      obtain ⟨-, f, smoothed, -, -, rfl, hstep⟩ := retarget_cases hd
      rw [hstep]
      exact moved_mem h
  exact ⟨hmin ▸ h.nonneg, hmin ▸ hcur.1, hmax ▸ hcur.2⟩

end VardiffTracker

end ZcashMiningPool
