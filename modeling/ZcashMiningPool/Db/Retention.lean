import Mathlib.Algebra.Order.Ring.Rat
import Mathlib.Data.List.MinMax
import ZcashMiningPool.Db.Op
import ZcashMiningPool.Db.Shares

/-!
# Retention of shares

`rollup_and_prune_shares` of `pool-db/src/queries.rs` and the hourly task of the dashboard that
calls it, with everything else that happens to the database between its statements.

* `ShareStore` — the database with its table `shares_rollup`, keyed by the first second of a UTC
  hour.
* `oldestAgedHour`, `archiveHour` — the query that picks an hour, and the transaction that
  aggregates and deletes it; `rollupAndPruneShares` — a pass nothing interrupts.
* `Retention` — the machine: shares being recorded, the clock being set, other operations, and
  one pass at a time, which may fail or be cut off at each statement.

Main result: `Retention.shares_countedOnce` — over every run the all-time count and difficulty
change by the recorded shares alone, every share is a raw row or in the bucket of its own hour,
and every archived hour takes at least one row away.
-/

set_option autoImplicit false

namespace ZcashMiningPool

open Table Machine

/-- A row of `shares_rollup`. -/
structure RollupRow where
  cnt : ℤ
  diffSum : ℚ
  deriving DecidableEq, Repr

/-- The database with the table of the archived hours. -/
structure ShareStore where
  db : PoolDb
  sharesRollup : Keyed ℕ RollupRow

/-- `strftime('%Y-%m-%d %H:00:00', t)`. -/
def hourOf (t : ℕ) : ℕ := t - t % 3600

/-- `created_at >= b AND created_at < datetime(b, '+1 hour')`. -/
def inHour (b : ℕ) (s : Share) : Bool := decide (b ≤ s.createdAt) && decide (s.createdAt < b + 3600)

namespace RollupRow

def zero : RollupRow := ⟨0, 0⟩

/-- `COUNT(*), COALESCE(SUM(difficulty), 0.0)`. -/
def ofShares (shares : List Share) : RollupRow :=
  ⟨shares.length, (shares.map (·.difficulty)).sum⟩

def add (x y : RollupRow) : RollupRow := ⟨x.cnt + y.cnt, x.diffSum + y.diffSum⟩

@[simp] theorem cnt_add (x y : RollupRow) : (x.add y).cnt = x.cnt + y.cnt := rfl

@[simp] theorem diffSum_add (x y : RollupRow) : (x.add y).diffSum = x.diffSum + y.diffSum := rfl

theorem add_zero (x : RollupRow) : x.add zero = x := by
  simp [add, zero]

theorem add_left_comm (x y z : RollupRow) : x.add (y.add z) = (y.add x).add z := by
  simp only [add, RollupRow.mk.injEq]
  constructor <;> ring

theorem ofShares_append (l l' : List Share) :
    ofShares (l ++ l') = (ofShares l).add (ofShares l') := by
  simp [ofShares, add]

end RollupRow

namespace ShareStore

/-- `created_at < datetime('now', '-' || days || ' days')`.  A negative `days` makes the modifier
    malformed, and no row compares with the `NULL` it yields. -/
def aged (st : ShareStore) (olderThanDays : ℤ) (s : Share) : Bool :=
  decide (0 ≤ olderThanDays) && decide ((s.createdAt : ℤ) + 86400 * olderThanDays < st.db.now)

/-- The hour of the oldest share past the age limit. -/
def oldestAgedHour (st : ShareStore) (olderThanDays : ℤ) : Option ℕ :=
  (((st.db.shares.values.filter (st.aged olderThanDays)).map (·.createdAt)).min?).map hourOf

/-- The row of an hour after the aggregate of more shares went in. -/
def bucket (st : ShareStore) (b : ℕ) : RollupRow := (st.sharesRollup.get? b).getD .zero

/-- The transaction of one hour: aggregate, upsert, delete.  Returns the number of rows deleted. -/
def archiveHour (st : ShareStore) (b : ℕ) : ℤ × ShareStore :=
  let rows := st.db.shares.values.filter (inHour b)
  (rows.length,
    { db := { st.db with shares := st.db.shares.filter (fun s => !inHour b s) }
      sharesRollup := st.sharesRollup.upsert b ((RollupRow.ofShares rows).add (st.bucket b)) })

/-- The loop, with the number of hours it may still take. -/
def rollupHours (olderThanDays : ℤ) : ℕ → ShareStore → (ℤ × ℤ) × ShareStore
  | 0, st => ((0, 0), st)
  | n + 1, st =>
    match st.oldestAgedHour olderThanDays with
    | none => ((0, 0), st)
    | some b =>
      let deleted := (st.archiveHour b).1
      let rest := rollupHours olderThanDays n (st.archiveHour b).2
      ((1 + rest.1.1, deleted + rest.1.2), rest.2)

/-- Archives up to `maxHours` hours; the hours and the rows they held. -/
def rollupAndPruneShares (st : ShareStore) (olderThanDays maxHours : ℤ) :
    (ℤ × ℤ) × ShareStore :=
  rollupHours olderThanDays maxHours.toNat st

/-- All-time total: the archived hours and the remaining raw rows. -/
def getTotalSharesCount (st : ShareStore) : ℤ :=
  st.sharesRollup.sum (fun _ r => r.cnt) + st.db.shares.values.length

/-- All-time difficulty. -/
def totalDifficulty (st : ShareStore) : ℚ :=
  st.sharesRollup.sum (fun _ r => r.diffSum) + (st.db.shares.values.map (·.difficulty)).sum

/-! ## One hour -/

theorem ofShares_perm {l l' : List Share} (h : l.Perm l') :
    RollupRow.ofShares l = RollupRow.ofShares l' := by
  unfold RollupRow.ofShares
  rw [h.length_eq, (h.map (·.difficulty)).sum_eq]

/-- The rows of an hour and the others are all rows. -/
theorem inHour_perm (b : ℕ) (l : List Share) :
    (l.filter (inHour b) ++ l.filter (fun s => !inHour b s)).Perm l :=
  List.filter_append_perm (inHour b) l

/-- The range of an hour holds the shares of that hour. -/
theorem inHour_hourOf_iff (t : ℕ) (s : Share) :
    inHour (hourOf t) s = true ↔ hourOf s.createdAt = hourOf t := by
  have ht := Nat.mod_lt t (show 0 < 3600 by omega)
  have hs := Nat.mod_lt s.createdAt (show 0 < 3600 by omega)
  have hdt := Nat.div_add_mod t 3600
  have hds := Nat.div_add_mod s.createdAt 3600
  rw [inHour, Bool.and_eq_true, decide_eq_true_eq, decide_eq_true_eq]
  unfold hourOf
  omega

/-- Rows of one hour all go to one bucket. -/
theorem filter_inHour (t b : ℕ) (l : List Share) :
    (l.filter (inHour (hourOf t))).filter (fun s => hourOf s.createdAt == b)
      = if b = hourOf t then l.filter (inHour (hourOf t)) else [] := by
  have hmem : ∀ s ∈ l.filter (inHour (hourOf t)), hourOf s.createdAt = hourOf t := fun s hs =>
    (inHour_hourOf_iff t s).1 (List.mem_filter.1 hs).2
  split
  · rename_i hb
    rw [List.filter_eq_self]
    intro s hs
    rw [beq_iff_eq, hmem s hs, hb]
  · rename_i hb
    rw [List.filter_eq_nil_iff]
    intro s hs
    rw [beq_iff_eq, hmem s hs]
    exact fun h => hb h.symm

/-- The picked hour is that of a share past the age limit. -/
theorem oldestAgedHour_eq_some {st : ShareStore} {days : ℤ} {b : ℕ}
    (h : st.oldestAgedHour days = some b) :
    ∃ s ∈ st.db.shares.values, st.aged days s = true ∧ hourOf s.createdAt = b ∧
      ∀ s' ∈ st.db.shares.values, st.aged days s' = true → s.createdAt ≤ s'.createdAt := by
  obtain ⟨t, ht, rfl⟩ := Option.map_eq_some_iff.1 h
  obtain ⟨hmem, hmin⟩ := List.min?_eq_some_iff.1 ht
  obtain ⟨s, hs, rfl⟩ := List.mem_map.1 hmem
  obtain ⟨hs₁, hs₂⟩ := List.mem_filter.1 hs
  refine ⟨s, hs₁, hs₂, rfl, fun s' hs' ha => hmin _ (List.mem_map.2 ⟨s', ?_, rfl⟩)⟩
  exact List.mem_filter.2 ⟨hs', ha⟩

/-- No hour is picked exactly when no share is past the age limit. -/
theorem oldestAgedHour_eq_none_iff {st : ShareStore} {days : ℤ} :
    st.oldestAgedHour days = none ↔ ∀ s ∈ st.db.shares.values, st.aged days s = false := by
  unfold oldestAgedHour
  rw [Option.map_eq_none_iff, List.min?_eq_none_iff, List.map_eq_nil_iff, List.filter_eq_nil_iff]
  simp

@[simp] theorem values_archiveHour (st : ShareStore) (b : ℕ) :
    (st.archiveHour b).2.db.shares.values
      = st.db.shares.values.filter (fun s => !inHour b s) :=
  Auto.values_filter _ _

theorem bucket_archiveHour (st : ShareStore) (b b' : ℕ) :
    (st.archiveHour b).2.bucket b' =
      if b' = b then
        (RollupRow.ofShares (st.db.shares.values.filter (inHour b))).add (st.bucket b)
      else st.bucket b' := by
  unfold archiveHour bucket
  simp only [Keyed.get?_upsert]
  split <;> simp

/-- All-time count and difficulty. -/
def allTime (st : ShareStore) : RollupRow := ⟨st.getTotalSharesCount, st.totalDifficulty⟩

theorem allTime_eq (st : ShareStore) :
    st.allTime = RollupRow.add
      ⟨st.sharesRollup.sum (fun _ r => r.cnt), st.sharesRollup.sum (fun _ r => r.diffSum)⟩
      (RollupRow.ofShares st.db.shares.values) := rfl

/-- The archived rows are counted in the bucket instead. -/
theorem allTime_archiveHour (st : ShareStore) (b : ℕ) :
    (st.archiveHour b).2.allTime = st.allTime := by
  have hrows := ofShares_perm (inHour_perm b st.db.shares.values)
  rw [RollupRow.ofShares_append] at hrows
  have hcnt : ((st.sharesRollup.get? b).map (fun r => r.cnt)).getD 0 = (st.bucket b).cnt := by
    unfold bucket
    cases st.sharesRollup.get? b <;> rfl
  have hdiff : ((st.sharesRollup.get? b).map (fun r => r.diffSum)).getD 0
      = (st.bucket b).diffSum := by
    unfold bucket
    cases st.sharesRollup.get? b <;> rfl
  rw [allTime_eq, allTime_eq, values_archiveHour, ← hrows]
  unfold archiveHour
  simp only [Keyed.sum_upsert, hcnt, hdiff, RollupRow.add, RollupRow.mk.injEq]
  constructor
  · omega
  · ring

/-- The deleted rows are the ones the table no longer has. -/
theorem deleted_archiveHour (st : ShareStore) (b : ℕ) :
    (st.archiveHour b).1 + (st.archiveHour b).2.db.shares.values.length
      = st.db.shares.values.length := by
  rw [values_archiveHour, ← (inHour_perm b st.db.shares.values).length_eq, List.length_append]
  push_cast
  rfl

/-- An hour with a row in it loses that row. -/
theorem deleted_archiveHour_pos {st : ShareStore} {s : Share} (hs : s ∈ st.db.shares.values) :
    1 ≤ (st.archiveHour (hourOf s.createdAt)).1 := by
  have hmem : s ∈ st.db.shares.values.filter (inHour (hourOf s.createdAt)) :=
    List.mem_filter.2 ⟨hs, (inHour_hourOf_iff _ _).2 rfl⟩
  have hpos := List.length_pos_of_mem hmem
  show (1 : ℤ) ≤ ((st.db.shares.values.filter (inHour (hourOf s.createdAt))).length : ℤ)
  omega

end ShareStore

/-! ## The retention task -/

/-- A pass between two statements: its arguments, its counters, the hour it has picked. -/
structure RetentionPass where
  olderThanDays : ℤ
  maxHours : ℤ
  hours : ℤ
  deleted : ℤ
  picked : Option ℕ
  deriving DecidableEq, Repr

/-- The store, the running pass, and (for the statements) every share recorded so far. -/
structure Retention where
  store : ShareStore
  pass : Option RetentionPass
  recorded : List Share

inductive RetentionOp where
  | recordShare (workerId : WorkerId) (jobId : String) (difficulty : ℚ) (isBlock : Bool)
      (sessionId : String)
  /-- The clock shows `now`, which need not be later than before. -/
  | setClock (now : ℕ)
  /-- Any other operation of the pool. -/
  | query (op : Op)
  | startPass (olderThanDays maxHours : ℤ)
  /-- The query for the next hour. -/
  | pickHour (fails : Bool)
  /-- The transaction of the picked hour, which rolls back when a statement fails. -/
  | archive (fails : Bool)
  | crash
  deriving DecidableEq, Repr

namespace Retention

def start (st : ShareStore) : Retention := ⟨st, none, []⟩

/-- Statements of one pass follow one another; the task starts a pass when the last one is
    over. -/
def step (m : Retention) : RetentionOp → Retention
  | .recordShare workerId jobId difficulty isBlock sessionId =>
    match m.store.db.recordShare workerId jobId difficulty isBlock sessionId with
    | .ok (_, db) =>
      { m with
        store := { m.store with db := db }
        recorded := m.recorded
          ++ [⟨workerId, jobId, difficulty, isBlock, sessionId, m.store.db.now⟩] }
    | .error _ => m
  | .setClock now => { m with store := { m.store with db := { m.store.db with now := now } } }
  | .query op => { m with store := { m.store with db := m.store.db.step op } }
  | .startPass days maxHours =>
    match m.pass with
    | none => { m with pass := some ⟨days, maxHours, 0, 0, none⟩ }
    | some _ => m
  | .pickHour fails =>
    match m.pass with
    | some ⟨days, maxHours, hours, deleted, none⟩ =>
      if maxHours ≤ hours ∨ fails then { m with pass := none }
      else match m.store.oldestAgedHour days with
        | none => { m with pass := none }
        | some b => { m with pass := some ⟨days, maxHours, hours, deleted, some b⟩ }
    | _ => m
  | .archive fails =>
    match m.pass with
    | some ⟨days, maxHours, hours, deleted, some b⟩ =>
      if fails then { m with pass := none }
      else
        { m with
          store := (m.store.archiveHour b).2
          pass := some ⟨days, maxHours, hours + 1, deleted + (m.store.archiveHour b).1, none⟩ }
    | _ => m
  | .crash => { m with pass := none }

/-- Every share, those of the first state included, is counted once: as a raw row, or in the
    bucket of its own hour; and the totals have grown by the recorded shares alone. -/
def CountedOnce (st : ShareStore) (m : Retention) : Prop :=
  (∃ archived : List Share,
    (st.db.shares.values ++ m.recorded).Perm (archived ++ m.store.db.shares.values) ∧
    ∀ b, m.store.bucket b =
      (RollupRow.ofShares (archived.filter (fun s => hourOf s.createdAt == b))).add
        (st.bucket b)) ∧
  m.store.getTotalSharesCount = st.getTotalSharesCount + m.recorded.length ∧
  m.store.totalDifficulty = st.totalDifficulty + (m.recorded.map (·.difficulty)).sum

/-- An hour that is archived successfully takes at least one row out of the table. -/
def Progresses (m : Retention) (op : RetentionOp) : Prop :=
  ∀ p b, m.pass = some p → p.picked = some b → op = .archive false →
    (m.step op).store.db.shares.values.length < m.store.db.shares.values.length

/-- Only the pass itself deletes shares, so the picked hour still holds the row it was picked
    for. -/
def PickedHourHolds (m : Retention) : Prop :=
  ∀ p b, m.pass = some p → p.picked = some b →
    ∃ s ∈ m.store.db.shares.values, hourOf s.createdAt = b

/-! ## What a step does -/

/-- No other operation of the pool writes the shares. -/
theorem shares_query (db : PoolDb) (op : Op) : (db.step op).shares = db.shares := by
  have hw : op.writes .shares = false := by cases op <;> rfl
  exact PoolDb.step_same db op hw

/-- A step records a share, archives the picked hour, or leaves shares and buckets alone; in the
    last case an hour that is newly picked holds a share. -/
theorem step_cases (m : Retention) (op : RetentionOp) :
    (∃ s, (m.step op).store.db.shares.values = m.store.db.shares.values ++ [s] ∧
      (m.step op).store.sharesRollup = m.store.sharesRollup ∧
      (m.step op).recorded = m.recorded ++ [s] ∧ (m.step op).pass = m.pass) ∨
    (∃ p b, m.pass = some p ∧ p.picked = some b ∧ op = .archive false ∧
      (m.step op).store = (m.store.archiveHour b).2 ∧ (m.step op).recorded = m.recorded ∧
      ∃ p', (m.step op).pass = some p' ∧ p'.picked = none) ∨
    ((m.step op).store.db.shares = m.store.db.shares ∧
      (m.step op).store.sharesRollup = m.store.sharesRollup ∧
      (m.step op).recorded = m.recorded ∧
      ∀ p b, (m.step op).pass = some p → p.picked = some b →
        m.pass = some p ∨ ∃ s ∈ m.store.db.shares.values, hourOf s.createdAt = b) := by
  cases op with
  | recordShare workerId jobId difficulty isBlock sessionId =>
    simp only [step]
    split
    · rename_i n db' hr
      rw [PoolDb.recordShare_ok hr]
      exact .inl ⟨_, Auto.values_insert _ _, rfl, rfl, rfl⟩
    · exact .inr (.inr ⟨rfl, rfl, rfl, fun p b hp _ => .inl hp⟩)
  | setClock now => exact .inr (.inr ⟨rfl, rfl, rfl, fun p b hp _ => .inl hp⟩)
  | query op =>
    exact .inr (.inr ⟨shares_query _ _, rfl, rfl, fun p b hp _ => .inl hp⟩)
  | startPass days maxHours =>
    simp only [step]
    split
    · refine .inr (.inr ⟨rfl, rfl, rfl, fun p b hp hb => ?_⟩)
      cases hp
      cases hb
    · exact .inr (.inr ⟨rfl, rfl, rfl, fun p b hp _ => .inl hp⟩)
  | pickHour fails =>
    simp only [step]
    split
    · rename_i days maxHours hours deleted hpass
      split
      · refine .inr (.inr ⟨rfl, rfl, rfl, fun p b hp _ => ?_⟩)
        cases hp
      · split
        · refine .inr (.inr ⟨rfl, rfl, rfl, fun p b hp _ => ?_⟩)
          cases hp
        · rename_i b' hb'
          refine .inr (.inr ⟨rfl, rfl, rfl, fun p b hp hb => ?_⟩)
          cases hp
          cases hb
          obtain ⟨s, hs, -, hh, -⟩ := ShareStore.oldestAgedHour_eq_some hb'
          exact .inr ⟨s, hs, hh⟩
    · exact .inr (.inr ⟨rfl, rfl, rfl, fun p b hp _ => .inl hp⟩)
  | archive fails =>
    simp only [step]
    split
    · rename_i days maxHours hours deleted b hpass
      cases fails with
      | true =>
        refine .inr (.inr ⟨rfl, rfl, rfl, fun p b hp _ => ?_⟩)
        cases hp
      | false => exact .inr (.inl ⟨_, b, hpass, rfl, rfl, rfl, rfl, _, rfl, rfl⟩)
    · exact .inr (.inr ⟨rfl, rfl, rfl, fun p b hp _ => .inl hp⟩)
  | crash =>
    refine .inr (.inr ⟨rfl, rfl, rfl, fun p b hp _ => ?_⟩)
    cases hp

theorem pickedHourHolds_step {m : Retention} (h : m.PickedHourHolds) (op : RetentionOp) :
    (m.step op).PickedHourHolds := by
  intro p b hp hb
  rcases step_cases m op with ⟨s, hv, -, -, hpass⟩ | ⟨q, c, -, -, -, -, -, p', hp', hnone⟩ |
      ⟨hv, -, -, hpass⟩
  · obtain ⟨s', hs', hh⟩ := h p b (hpass ▸ hp) hb
    exact ⟨s', hv ▸ List.mem_append_left _ hs', hh⟩
  · rw [hp'] at hp
    cases hp
    rw [hnone] at hb
    cases hb
  · rw [hv]
    rcases hpass p b hp hb with hold | hnew
    · exact h p b hold hb
    · exact hnew

theorem progresses_of_pickedHourHolds {m : Retention} (h : m.PickedHourHolds) (op : RetentionOp) :
    Progresses m op := by
  rintro ⟨days, maxHours, hours, deleted, picked⟩ b hp hb rfl
  obtain ⟨s, hs, rfl⟩ := h _ b hp hb
  cases hb
  have hstep : (m.step (.archive false)).store = (m.store.archiveHour (hourOf s.createdAt)).2 := by
    simp [step, hp]
  rw [hstep]
  have hdel := ShareStore.deleted_archiveHour m.store (hourOf s.createdAt)
  have hpos := ShareStore.deleted_archiveHour_pos hs
  omega

theorem countedOnce_start (st : ShareStore) : CountedOnce st (start st) := by
  refine ⟨⟨[], ?_, fun b => ?_⟩, ?_, ?_⟩
  · simp [start]
  · simp [start, RollupRow.ofShares, RollupRow.add]
  · simp [start]
  · simp [start]

theorem countedOnce_step {st : ShareStore} {m : Retention} (h : CountedOnce st m)
    (hp : m.PickedHourHolds) (op : RetentionOp) : CountedOnce st (m.step op) := by
  obtain ⟨⟨archived, hperm, hbuckets⟩, hcnt, hdiff⟩ := h
  rcases step_cases m op with ⟨s, hv, hr, hrec, -⟩ | ⟨p, b, hpass, hb, -, hst, hrec, -⟩ |
      ⟨hv, hr, hrec, -⟩
  · -- one more raw row, one more recorded share
    refine ⟨⟨archived, ?_, fun b => ?_⟩, ?_, ?_⟩
    · rw [hv, hrec, ← List.append_assoc, ← List.append_assoc]
      exact hperm.append_right [s]
    · rw [← hbuckets b, ShareStore.bucket, ShareStore.bucket, hr]
    · rw [ShareStore.getTotalSharesCount, hv, hr, hrec]
      rw [ShareStore.getTotalSharesCount] at hcnt
      simp only [List.length_append, List.length_singleton]
      push_cast
      omega
    · rw [ShareStore.totalDifficulty, hv, hr, hrec]
      rw [ShareStore.totalDifficulty] at hdiff
      simp only [List.map_append, List.sum_append, List.map_cons, List.map_nil, List.sum_cons,
        List.sum_nil]
      linarith
  · -- the rows of the hour move from the table to its bucket
    obtain ⟨s, -, rfl⟩ := hp p b hpass hb
    have hall := ShareStore.allTime_archiveHour m.store (hourOf s.createdAt)
    rw [ShareStore.allTime, ShareStore.allTime, RollupRow.mk.injEq] at hall
    have hrows := ShareStore.inHour_perm (hourOf s.createdAt) m.store.db.shares.values
    refine ⟨⟨archived ++ m.store.db.shares.values.filter (inHour (hourOf s.createdAt)), ?_,
      fun b => ?_⟩, ?_, ?_⟩
    · rw [hst, hrec, ShareStore.values_archiveHour, List.append_assoc]
      exact hperm.trans (hrows.symm.append_left archived)
    · rw [hst, ShareStore.bucket_archiveHour, List.filter_append, ShareStore.filter_inHour]
      split
      · rename_i hb'
        rw [hb', hbuckets, RollupRow.ofShares_append, RollupRow.add_left_comm]
      · rw [List.append_nil, hbuckets]
    · rw [hst, hrec, hall.1, hcnt]
    · rw [hst, hrec, hall.2, hdiff]
  · refine ⟨⟨archived, ?_, fun b => ?_⟩, ?_, ?_⟩
    · rw [hv, hrec]
      exact hperm
    · rw [← hbuckets b, ShareStore.bucket, ShareStore.bucket, hr]
    · rw [ShareStore.getTotalSharesCount, hv, hr, hrec]
      exact hcnt
    · rw [ShareStore.totalDifficulty, hv, hr, hrec]
      exact hdiff

/-- **Retention counts every share once.**  However shares are recorded, clocks set and passes
    started, failed or cut off: the totals change by the recorded shares alone, each share is a
    raw row or in the bucket of its hour, and every archived hour takes a row away. -/
theorem shares_countedOnce (st : ShareStore) (ops : List RetentionOp) :
    Always step (CountedOnce st) (start st) ops ∧ Allowed step Progresses (start st) ops := by
  have hrun : Always step (fun m => CountedOnce st m ∧ m.PickedHourHolds) (start st) ops := by
    have hkeep : ∀ m op, CountedOnce st m ∧ m.PickedHourHolds → True →
        CountedOnce st (m.step op) ∧ (m.step op).PickedHourHolds :=
      fun m op h _ => ⟨countedOnce_step h.1 h.2 op, pickedHourHolds_step h.2 op⟩
    refine always_of_allowed hkeep ⟨countedOnce_start st, fun p b hp _ => ?_⟩
      (allowed_of_forall (fun _ _ => trivial) _ _)
    cases hp
  exact ⟨hrun.imp fun _ h => h.1,
    allowed_of_always (fun m op h => progresses_of_pickedHourHolds h.2 op) hrun⟩

/-! ## A pass nothing interrupts -/

/-- The statements of the loop when `n` hours may still be taken. -/
def passOps : ℕ → List RetentionOp
  | 0 => [.pickHour false]
  | n + 1 => .pickHour false :: .archive false :: passOps n

theorem run_passOps_idle {m : Retention} (h : m.pass = none) (n : ℕ) :
    run step m (passOps n) = m := by
  induction n with
  | zero => simp [passOps, step, h]
  | succ n ih => simp [passOps, step, h, ih]

theorem run_passOps_running (n : ℕ) {m : Retention} {days maxHours hours deleted : ℤ}
    (h : m.pass = some ⟨days, maxHours, hours, deleted, none⟩)
    (hn : (maxHours - hours).toNat = n) :
    run step m (passOps n) =
      { m with store := (ShareStore.rollupHours days n m.store).2, pass := none } := by
  induction n generalizing m hours deleted with
  | zero =>
    have hle : maxHours ≤ hours := by omega
    simp [passOps, step, h, hle, ShareStore.rollupHours]
  | succ n ih =>
    have hgt : ¬ maxHours ≤ hours := by omega
    cases hb : m.store.oldestAgedHour days with
    | none =>
      have hpick : m.step (.pickHour false) = { m with pass := none } := by
        simp [step, h, hgt, hb]
      rw [passOps, run_cons, hpick, run_cons, ShareStore.rollupHours, hb]
      exact run_passOps_idle rfl n
    | some b =>
      have hpick : m.step (.pickHour false) =
          { m with pass := some ⟨days, maxHours, hours, deleted, some b⟩ } := by
        simp [step, h, hgt, hb]
      rw [passOps, run_cons, hpick, run_cons, ShareStore.rollupHours, hb]
      exact ih rfl (by omega)

/-- A pass nothing interrupts is `rollupAndPruneShares`. -/
theorem run_pass {m : Retention} (h : m.pass = none) (days maxHours : ℤ) :
    run step m (.startPass days maxHours :: passOps maxHours.toNat) =
      { m with store := (m.store.rollupAndPruneShares days maxHours).2 } := by
  have hstart : m.step (.startPass days maxHours) =
      { m with pass := some ⟨days, maxHours, 0, 0, none⟩ } := by
    simp [step, h]
  rw [run_cons, hstart, run_passOps_running maxHours.toNat rfl (by omega), ← h]
  rfl

end Retention

end ZcashMiningPool
