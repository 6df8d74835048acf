import ZcashMiningPool.Library.Smoothing
import ZcashMiningPool.PoolCore.Vardiff

/-!
# Which way the difficulty moves

Far off target a retarget follows the rate of the closing window.  Nearer to the target it follows
the exponential average of all ratios measured since the last ramp, of which the closing window is
15 %, so that a window on one side of the target may come with a move to the other side.

* `MeasuredTracker` — a tracker with the ratios that its average is made of.
* `smoothedRatio_run` — the smoothed ratio is their exponential average.
* `moves_with_average` — the direction of every retarget of every run.
-/

set_option autoImplicit false

namespace ZcashMiningPool

open Machine Smoothing

/-- Not higher below the target rate, and not lower above it. -/
def MovesWithRate (target spm d d' : ℚ) : Prop :=
  (spm < target → d' ≤ d) ∧ (target < spm → d ≤ d')

/-- A tracker together with the ratios measured since the last ramp, newest first. -/
structure MeasuredTracker where
  tracker : VardiffTracker
  ratios : List ℚ

namespace MeasuredTracker

/-- A window that is closed outside of the stable zone is a new sample, or starts the average
    over. -/
def step (m : MeasuredTracker) (i : VardiffInput) : MeasuredTracker where
  tracker := m.tracker.step i
  ratios :=
    if m.tracker.Closes i ∧ ¬ VardiffTracker.Stable (m.tracker.measured i) then
      if VardiffTracker.Ramp (m.tracker.ratio i) then [] else m.tracker.ratio i :: m.ratios
    else m.ratios

/-- The tracker's smoothed ratio is the average of the samples, and its difficulty is in range. -/
structure Averages (m : MeasuredTracker) : Prop where
  inRange : m.tracker.InRange
  smoothed : m.tracker.smoothedRatio = ema (15 / 100) 1 m.ratios

theorem Averages.average {m : MeasuredTracker} (h : m.Averages) (i : VardiffInput) :
    m.tracker.average i = ema (15 / 100) 1 (m.tracker.ratio i :: m.ratios) := by
  unfold VardiffTracker.average
  rw [ema_cons, h.smoothed]

theorem averages_step {m : MeasuredTracker} (i : VardiffInput) (h : m.Averages) :
    (m.step i).Averages := by
  refine ⟨VardiffTracker.inRange_step i h.inRange, ?_⟩
  have havg := h.average i
  have hout := m.tracker.outcome i
  unfold step VardiffTracker.step
  dsimp only
  generalize m.tracker.answer i = r at hout
  cases hout with
  | held hclose =>
    rw [if_neg fun hc => hclose hc.1]
    exact h.smoothed
  | stable _ hstable =>
    rw [if_neg fun hc => hc.2 hstable]
    exact h.smoothed
  | settled hclose hstable hramp _ _ =>
    rw [if_pos ⟨hclose, hstable⟩, if_neg hramp]
    exact havg
  | ramp hclose hstable hramp _ =>
    rw [if_pos ⟨hclose, hstable⟩, if_pos hramp]
    rfl
  | steady hclose hstable hramp _ _ =>
    rw [if_pos ⟨hclose, hstable⟩, if_neg hramp]
    exact havg

theorem tracker_run (m : MeasuredTracker) (is : List VardiffInput) :
    (run step m is).tracker = run VardiffTracker.step m.tracker is := by
  induction is generalizing m with
  | nil => rfl
  | cons i is ih => exact ih (m.step i)

theorem averages_run {m : MeasuredTracker} (h : m.Averages) (is : List VardiffInput) :
    (run step m is).Averages := by
  induction is generalizing m with
  | nil => exact h
  | cons i is ih => exact ih (averages_step i h)

end MeasuredTracker

namespace VardiffTracker

/-- The ratios that a run has measured since its last ramp, newest first. -/
def samples (v : VardiffTracker) (is : List VardiffInput) : List ℚ :=
  (run MeasuredTracker.step ⟨v, []⟩ is).ratios

theorem target_run (v : VardiffTracker) (is : List VardiffInput) :
    (run step v is).targetSharesPerMinute = v.targetSharesPerMinute := by
  induction is generalizing v with
  | nil => rfl
  | cons i is ih => exact (ih (v.step i)).trans (v.step_settings i).2.2

/-- A run keeps the difficulty in range, and smooths the ratios it measures. -/
theorem smoothedRatio_run {v : VardiffTracker} (h : v.InRange) (hone : v.smoothedRatio = 1)
    (is : List VardiffInput) (i : VardiffInput) :
    (run step v is).InRange ∧ (run step v is).average i
      = ema (15 / 100) 1 ((run step v is).ratio i :: v.samples is) := by
  have havg : (run MeasuredTracker.step ⟨v, []⟩ is).Averages :=
    MeasuredTracker.averages_run ⟨h, hone⟩ is
  have htracker := MeasuredTracker.tracker_run ⟨v, []⟩ is
  exact ⟨htracker ▸ havg.inRange, htracker ▸ havg.average i⟩

/-! ## The direction of a retarget -/

/-- Far off target the retarget follows the rate; nearer to it, it follows the average of the
    `ratios` measured since the last ramp and that of the closing window.  The two agree when all
    of these are on one side of the target. -/
structure MovesWithAverage (target spm d d' : ℚ) (ratios : List ℚ) : Prop where
  ramp : Ramp (spm / target) → MovesWithRate target spm d d'
  steady : ¬ Ramp (spm / target) →
    (ema (15 / 100) 1 (spm / target :: ratios) ≤ 6 / 10 ∧ d' ≤ d) ∨
      (15 / 10 ≤ ema (15 / 100) 1 (spm / target :: ratios) ∧ d ≤ d')
  down : spm < target → (∀ x ∈ ratios, x ≤ 1) → d' ≤ d
  up : target < spm → (∀ x ∈ ratios, 1 ≤ x) → d ≤ d'

/-- The two clauses for samples on one side of the target follow from the others. -/
theorem movesWithAverage_of {target spm d d' : ℚ} {ratios : List ℚ} (htarget : 0 < target)
    (hramp : Ramp (spm / target) → MovesWithRate target spm d d')
    (hsteady : ¬ Ramp (spm / target) →
      (ema (15 / 100) 1 (spm / target :: ratios) ≤ 6 / 10 ∧ d' ≤ d) ∨
        (15 / 10 ≤ ema (15 / 100) 1 (spm / target :: ratios) ∧ d ≤ d')) :
    MovesWithAverage target spm d d' ratios where
  ramp := hramp
  steady := hsteady
  down := by
    intro hlt hratios
    by_cases hr : Ramp (spm / target)
    · exact (hramp hr).1 hlt
    · have hle : ema (15 / 100) 1 (spm / target :: ratios) ≤ 1 := by
        refine ema_le (by norm_num) (by norm_num) le_rfl (List.forall_mem_cons.2 ⟨?_, hratios⟩)
        exact ((div_lt_one htarget).2 hlt).le
      rcases hsteady hr with ⟨-, hd⟩ | ⟨hhigh, -⟩
      · exact hd
      · linarith
  up := by
    intro hlt hratios
    by_cases hr : Ramp (spm / target)
    · exact (hramp hr).2 hlt
    · have hle : 1 ≤ ema (15 / 100) 1 (spm / target :: ratios) := by
        refine le_ema (by norm_num) (by norm_num) le_rfl (List.forall_mem_cons.2 ⟨?_, hratios⟩)
        exact ((one_lt_div htarget).2 hlt).le
      rcases hsteady hr with ⟨hlow, -⟩ | ⟨-, hd⟩
      · linarith
      · exact hd

/-- One call: the factor of a retarget is on the side of the ratio in a ramp, and on the side of
    the average otherwise. -/
theorem retarget_direction {v : VardiffTracker} (h : v.InRange) {i : VardiffInput} {d : ℚ}
    (hd : (v.answer i).1 = some d) :
    (Ramp (v.ratio i) ∧ (v.ratio i < 1 / 4 ∧ d ≤ v.currentDifficulty ∨
        4 < v.ratio i ∧ v.currentDifficulty ≤ d)) ∨
      (¬ Ramp (v.ratio i) ∧ (v.average i ≤ 6 / 10 ∧ d ≤ v.currentDifficulty ∨
        15 / 10 ≤ v.average i ∧ v.currentDifficulty ≤ d)) := by
  have hout := v.outcome i
  generalize v.answer i = r at hd hout
  cases hout with
  | held _ => cases hd
  | stable _ _ => cases hd
  | settled _ _ _ _ _ => cases hd
  | ramp _ _ hramp hmoved =>
    cases hd
    refine .inl ⟨hramp, ?_⟩
    rw [hmoved]
    rcases hramp with hhigh | hlow
    · exact .inr ⟨hhigh, le_moved h (le_clamp (le_max_of_le_left (by linarith)) (by norm_num))⟩
    · exact .inl ⟨hlow, moved_le h (clamp_le (by linarith) (by norm_num))⟩
  | steady _ _ hramp hzone hmoved =>
    cases hd
    refine .inr ⟨hramp, ?_⟩
    rw [hmoved]
    rcases hzone with hlow | hhigh
    · exact .inl ⟨hlow, moved_le h (clamp_le (by linarith) (by norm_num))⟩
    · exact .inr ⟨hhigh, le_moved h (le_clamp (le_max_of_le_left (by linarith)) (by norm_num))⟩

/-- **Direction.**  In every run from a starting difficulty in range, every retarget moves with
    the average. -/
theorem moves_with_average {target start : ℚ} (htarget : 0 < target) (hstart : 0 < start)
    (hmax : start ≤ 10000000000) (interval began : ℚ) (is : List VardiffInput) (i : VardiffInput)
    {d : ℚ} :
    let v := run step (new target interval start began) is
    (v.answer i).1 = some d →
      MovesWithAverage target (v.measured i) v.currentDifficulty d
        ((new target interval start began).samples is) := by
  intro v hd
  have htgt : v.targetSharesPerMinute = target := target_run _ is
  obtain ⟨hin, havg⟩ := smoothedRatio_run (inRange_new hstart hmax target interval began) rfl is i
  have hratio : v.ratio i = v.measured i / target := congrArg (v.measured i / ·) htgt
  have hdir := retarget_direction hin hd
  rw [havg, hratio] at hdir
  refine movesWithAverage_of htarget (fun hramp => ?_) (fun hsteady => ?_)
  · rcases hdir with ⟨-, ⟨hlow, hle⟩ | ⟨hhigh, hle⟩⟩ | ⟨hno, -⟩
    · have hlt : v.measured i < target := (div_lt_one htarget).1 (by linarith)
      exact ⟨fun _ => hle, fun hgt => absurd hgt (not_lt.2 hlt.le)⟩
    · have hlt : target < v.measured i := (one_lt_div htarget).1 (by linarith)
      exact ⟨fun hgt => absurd hgt (not_lt.2 hlt.le), fun _ => hle⟩
    · exact absurd hramp hno
  · rcases hdir with ⟨hramp, -⟩ | ⟨-, hmove⟩
    · exact absurd hramp hsteady
    · exact hmove

/-- Two busy windows of 80 shares per minute, of which the second moves the difficulty up, and
    three shares of a slow window. -/
def busyThenSlow : List VardiffInput :=
  List.replicate 39 ⟨.recordShare, 1⟩ ++ ⟨.recordShare, 30⟩ ::
    (List.replicate 39 ⟨.recordShare, 31⟩ ++ ⟨.recordShare, 60⟩ ::
      List.replicate 3 ⟨.recordShare, 70⟩)

theorem moves_with_average_busyThenSlow :
    ((run step (new 20 30 1000 0) busyThenSlow).answer ⟨.recordShare, 90⟩).1 = some (3125 / 2) ∧
      MovesWithAverage 20 ((run step (new 20 30 1000 0) busyThenSlow).measured ⟨.recordShare, 90⟩)
        (run step (new 20 30 1000 0) busyThenSlow).currentDifficulty (3125 / 2)
        ((new 20 30 1000 0).samples busyThenSlow) := by
  have hd : ((run step (new 20 30 1000 0) busyThenSlow).answer ⟨.recordShare, 90⟩).1
      = some (3125 / 2) := by decide +kernel
  exact ⟨hd, moves_with_average (by norm_num) (by norm_num) (by norm_num) 30 0 busyThenSlow
    ⟨.recordShare, 90⟩ hd⟩

/-- The slow window measures 8 shares per minute where 20 are wanted, and the difficulty rises. -/
theorem rises_below_target :
    ((run step (new 20 30 1000 0) busyThenSlow).answer ⟨.recordShare, 90⟩).1 = some (3125 / 2) ∧
      (run step (new 20 30 1000 0) busyThenSlow).measured ⟨.recordShare, 90⟩ = 8 ∧
      (run step (new 20 30 1000 0) busyThenSlow).currentDifficulty = 1250 ∧
      ¬ MovesWithRate 20 ((run step (new 20 30 1000 0) busyThenSlow).measured ⟨.recordShare, 90⟩)
        (run step (new 20 30 1000 0) busyThenSlow).currentDifficulty (3125 / 2) := by
  have hspm : (run step (new 20 30 1000 0) busyThenSlow).measured ⟨.recordShare, 90⟩ = 8 := by
    decide +kernel
  have hcur : (run step (new 20 30 1000 0) busyThenSlow).currentDifficulty = 1250 := by
    decide +kernel
  refine ⟨by decide +kernel, hspm, hcur, fun h => ?_⟩
  rw [hspm, hcur] at h
  have hle : (3125 / 2 : ℚ) ≤ 1250 := h.1 (by norm_num)
  norm_num at hle

end VardiffTracker

end ZcashMiningPool
