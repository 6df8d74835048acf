import ZcashMiningPool.Library.BoundedFifo
import ZcashMiningPool.Library.Ranks
import ZcashMiningPool.PoolCore.JobManager

/-!
# Template-to-notify lag

`pool-core/src/lag.rs`: the time between a long poll that returned a new tip and its announcement.

* `TemplateLagTracker.record`, `TemplateLagTracker.snapshot` — the last samples and their figures.
* `samples_recordAll` — the window is the end of everything that was recorded.

Lags are exact; the source keeps milliseconds as 64-bit floats, in the same order.
-/

set_option autoImplicit false

namespace ZcashMiningPool

/-- Cap on retained samples. -/
def maxSamples : ℕ := 200

inductive LagKind where
  | emptyBlock
  | fullTemplate
  deriving DecidableEq, Repr

structure Sample where
  recordedAt : ℚ
  lag : ℚ
  height : ℕ
  kind : LagKind
  deriving DecidableEq

structure TemplateLagTracker where
  samples : List Sample
  samplesTotal : ℕ

structure TemplateLagSnapshot where
  samplesTotal : ℕ
  samplesWindow : ℕ
  lastSampleAgeSecs : Option ℕ
  lastHeight : Option ℕ
  lastEmptyMs : Option ℚ
  p50EmptyMs : Option ℚ
  p95EmptyMs : Option ℚ
  lastFullMs : Option ℚ
  p50FullMs : Option ℚ
  p95FullMs : Option ℚ

/-- The lags of one kind in milliseconds, oldest first. -/
def lagsOf (kind : LagKind) (samples : List Sample) : List ℚ :=
  (samples.filter (·.kind == kind)).map (·.lag * 1000)

/-- Nearest-rank percentile, clamped to `[0, 1]`. -/
def percentile (values : List ℚ) (pct : ℚ) : Option ℚ :=
  Ranks.quantile values (max 0 (min pct 1))

namespace TemplateLagTracker

def new : TemplateLagTracker := ⟨[], 0⟩

/-- The oldest samples leave while there are too many. -/
def record (t : TemplateLagTracker) (sample : Sample) : TemplateLagTracker :=
  ⟨(t.samples ++ [sample]).rtake maxSamples, bumpCounter t.samplesTotal⟩

def snapshot (t : TemplateLagTracker) (now : ℚ) : TemplateLagSnapshot where
  samplesTotal := t.samplesTotal
  samplesWindow := t.samples.length
  lastSampleAgeSecs := t.samples.getLast?.map fun s => ⌊now - s.recordedAt⌋.toNat
  lastHeight := t.samples.getLast?.map (·.height)
  lastEmptyMs := (lagsOf .emptyBlock t.samples).getLast?
  p50EmptyMs := percentile (lagsOf .emptyBlock t.samples) (50 / 100)
  p95EmptyMs := percentile (lagsOf .emptyBlock t.samples) (95 / 100)
  lastFullMs := (lagsOf .fullTemplate t.samples).getLast?
  p50FullMs := percentile (lagsOf .fullTemplate t.samples) (50 / 100)
  p95FullMs := percentile (lagsOf .fullTemplate t.samples) (95 / 100)

def recordAll (t : TemplateLagTracker) (samples : List Sample) : TemplateLagTracker :=
  samples.foldl record t

@[simp] theorem record_samples (t : TemplateLagTracker) (s : Sample) :
    (t.record s).samples = (t.samples ++ [s]).rtake maxSamples := by
  rw [record]

@[simp] theorem record_samplesTotal (t : TemplateLagTracker) (s : Sample) :
    (t.record s).samplesTotal = bumpCounter t.samplesTotal := by
  rw [record]

@[simp] theorem recordAll_cons (t : TemplateLagTracker) (s : Sample) (more : List Sample) :
    t.recordAll (s :: more) = (t.record s).recordAll more := by
  rw [recordAll, recordAll, List.foldl_cons]

/-- The tracker after `samples` since the start. -/
structure Holds (t : TemplateLagTracker) (samples : List Sample) : Prop where
  window : t.samples = samples.rtake maxSamples
  total : t.samplesTotal = samples.length % 2 ^ 64

theorem holds_new : new.Holds [] := ⟨rfl, rfl⟩

variable {t : TemplateLagTracker} {samples : List Sample}

theorem Holds.record (h : t.Holds samples) (s : Sample) :
    (t.record s).Holds (samples ++ [s]) where
  window := by
    rw [record_samples, h.window]
    exact BoundedFifo.rtake_rtake_concat (by unfold maxSamples; omega) samples s
  total := by
    rw [record_samplesTotal, h.total, bumpCounter, List.length_append, List.length_singleton]
    omega

theorem Holds.recordAll (h : t.Holds samples) (more : List Sample) :
    (t.recordAll more).Holds (samples ++ more) := by
  induction more generalizing t samples with
  | nil =>
    rw [List.append_nil]
    exact h
  | cons s more ih =>
    rw [recordAll_cons, List.append_cons]
    exact ih (h.record s)

/-- What a reader of the figures may rely on, for one kind of lag. -/
structure Figures (lags : List ℚ) (last p50 p95 : Option ℚ) : Prop where
  last : last = lags.getLast?
  none : lags = [] → p50 = none ∧ p95 = none
  some : lags ≠ [] → ∃ a b, p50 = some a ∧ p95 = some b ∧ a ≤ b ∧ a ∈ lags ∧ b ∈ lags ∧
    ((lags.length : ℚ) / 2) ≤ lags.countP (· ≤ a) ∧ ((lags.length : ℚ) / 2) ≤ lags.countP (a ≤ ·) ∧
    (95 * lags.length - 45 : ℚ) / 100 ≤ lags.countP (· ≤ b)

theorem figures (lags : List ℚ) :
    Figures lags lags.getLast? (percentile lags (50 / 100)) (percentile lags (95 / 100)) := by
  have h50 : max (0 : ℚ) (min (50 / 100) 1) = 1 / 2 := by norm_num
  have h95 : max (0 : ℚ) (min (95 / 100) 1) = 19 / 20 := by norm_num
  unfold percentile
  rw [h50, h95]
  refine ⟨rfl, ?_, fun hne => ?_⟩
  · rintro rfl
    exact ⟨rfl, rfl⟩
  · obtain ⟨a, ha⟩ := Option.ne_none_iff_exists'.1
      (mt (Ranks.quantile_eq_none_iff (by norm_num : (1 / 2 : ℚ) ≤ 1)).1 hne)
    obtain ⟨b, hb⟩ := Option.ne_none_iff_exists'.1
      (mt (Ranks.quantile_eq_none_iff (by norm_num : (19 / 20 : ℚ) ≤ 1)).1 hne)
    obtain ⟨hmem, hle, hge⟩ := Ranks.quantile_spec ha (by norm_num)
    obtain ⟨hmem', hle', -⟩ := Ranks.quantile_spec hb (by norm_num)
    refine ⟨a, b, ha, hb, Ranks.quantile_mono (by norm_num) ha hb, hmem, hmem', ?_, ?_, ?_⟩
    · linarith
    · linarith
    · linarith

end TemplateLagTracker

end ZcashMiningPool
