import Mathlib.Data.List.Sort
import ZcashMiningPool.Db.Credits

/-!
# Shares

The share queries of `pool-db/src/queries.rs` and the window a block is distributed over.

* `recordShare` — one credited share.
* `getPplnsShares` — the last `windowSize` shares, summed per miner, largest first.
* `getMinerIdForWorker` — whose worker it is; `touchWorker`, `updateWorkerDifficulty`.
* `recordBlockSubmission`, `resolveBlockSubmission` — the breadcrumb around a submission.
* `getRecentBlocksMissingCredits` — the blocks whose distribution has to be repeated.
-/

set_option autoImplicit false

namespace ZcashMiningPool

open Table

structure PplnsShareEntry where
  minerId : MinerId
  totalDifficulty : ℚ
  deriving DecidableEq, Repr

namespace PoolDb

def recordShare (db : PoolDb) (workerId : WorkerId) (jobId : String) (difficulty : ℚ)
    (isBlock : Bool) (sessionId : String) : Except DbError (ℕ × PoolDb) :=
  if db.workers.has workerId then
    .ok (db.shares.next,
      { db with
        shares := db.shares.insert ⟨workerId, jobId, difficulty, isBlock, sessionId, db.now⟩ })
  else .error (.sqlx .foreignKey)

def getMinerIdForWorker (db : PoolDb) (workerId : WorkerId) : Except DbError MinerId :=
  match db.workers.get? workerId with
  | some w => .ok w.minerId
  | none => .error (.sqlx .rowNotFound)

def touchWorker (db : PoolDb) (workerId : WorkerId) : PoolDb :=
  { db with workers := db.workers.modify workerId (fun r => { r with lastSeen := db.now }) }

def updateWorkerDifficulty (db : PoolDb) (workerId : WorkerId) (difficulty : ℚ) : PoolDb :=
  { db with
    workers := db.workers.modify workerId (fun r => { r with lastDifficulty := some difficulty }) }

def recordBlockSubmission (db : PoolDb) (height : ℤ) (hash : String) (workerId : WorkerId)
    (reward : ℤ) (actualReward : Option ℤ) : ℕ × PoolDb :=
  (db.blockSubmissions.next,
    { db with
      blockSubmissions := db.blockSubmissions.insert
        ⟨height, hash, workerId, reward, actualReward, false, none, db.now⟩ })

def resolveBlockSubmission (db : PoolDb) (id : ℕ) (outcome : String) : PoolDb :=
  { db with
    blockSubmissions := db.blockSubmissions.modify id (fun r =>
      { r with resolved := true, outcome := some outcome }) }

/-- `SELECT * FROM shares ORDER BY id DESC LIMIT n`; a negative limit is no limit. -/
def lastShares (db : PoolDb) (n : ℤ) : List Share :=
  if n < 0 then db.shares.values.reverse else db.shares.values.reverse.take n.toNat

/-- The window's shares joined with their workers: whose share, and how difficult. -/
def windowShares (db : PoolDb) (windowSize : ℤ) : List (MinerId × ℚ) :=
  (db.lastShares windowSize).filterMap (fun s =>
    (db.workers.get? s.workerId).map (fun w => (w.minerId, s.difficulty)))

/-- `ORDER BY total_difficulty DESC, miner_id ASC`. -/
def pplnsOrder (x y : PplnsShareEntry) : Prop :=
  y.totalDifficulty < x.totalDifficulty ∨
    (x.totalDifficulty = y.totalDifficulty ∧ x.minerId ≤ y.minerId)

instance : DecidableRel pplnsOrder := fun x y =>
  inferInstanceAs (Decidable (y.totalDifficulty < x.totalDifficulty ∨
    (x.totalDifficulty = y.totalDifficulty ∧ x.minerId ≤ y.minerId)))

/-- `SUM(difficulty) … GROUP BY miner_id`. -/
def groupByMiner (shares : List (MinerId × ℚ)) : List PplnsShareEntry :=
  (shares.map Prod.fst).dedup.map (fun m =>
    ⟨m, ((shares.filter (fun e => e.1 == m)).map Prod.snd).sum⟩)

def getPplnsShares (db : PoolDb) (windowSize : ℤ) : List PplnsShareEntry :=
  (groupByMiner (db.windowShares windowSize)).insertionSort pplnsOrder

/-- What a block pays out: `COALESCE(actual_reward, reward)`. -/
def distributionBasis (b : Block) : ℤ := b.actualReward.getD b.reward

/-- Recent blocks that are not orphaned and have no credit rows: id, height, basis, finder. -/
def getRecentBlocksMissingCredits (db : PoolDb) (days : ℕ) :
    List (BlockId × ℤ × ℤ × WorkerId) :=
  (db.blocks.rows.filter (fun e =>
      (e.2.status == .pending || e.2.status == .confirmed) &&
        decide (db.now < e.2.createdAt + 86400 * days) && (db.creditsOf e.1).isEmpty)).map
    (fun e => (e.1, e.2.height, distributionBasis e.2, e.2.foundBy))

/-! ## What the window holds -/

theorem recordShare_ok {db db' : PoolDb} {workerId : WorkerId} {jobId : String} {difficulty : ℚ}
    {isBlock : Bool} {sessionId : String} {n : ℕ}
    (h : db.recordShare workerId jobId difficulty isBlock sessionId = .ok (n, db')) :
    db' = { db with
      shares := db.shares.insert ⟨workerId, jobId, difficulty, isBlock, sessionId, db.now⟩ } := by
  unfold recordShare at h
  split at h
  · cases h
    rfl
  · cases h

theorem mem_lastShares {db : PoolDb} {n : ℤ} {s : Share} (h : s ∈ db.lastShares n) :
    s ∈ db.shares.values := by
  unfold lastShares at h
  split at h
  · exact List.mem_reverse.1 h
  · exact List.mem_reverse.1 (List.mem_of_mem_take h)

/-- No miner of the window weighs less than nothing. -/
theorem pplnsShares_nonneg {db : PoolDb} (h : ∀ s ∈ db.shares.values, 0 ≤ s.difficulty) (n : ℤ) :
    ∀ e ∈ db.getPplnsShares n, 0 ≤ e.totalDifficulty := by
  intro e he
  have hg : e ∈ groupByMiner (db.windowShares n) :=
    (List.perm_insertionSort pplnsOrder _).mem_iff.1 he
  obtain ⟨m, -, rfl⟩ := List.mem_map.1 hg
  apply List.sum_nonneg
  intro x hx
  obtain ⟨p, hp, rfl⟩ := List.mem_map.1 hx
  obtain ⟨s, hs, hw⟩ := List.mem_filterMap.1 (List.mem_of_mem_filter hp)
  obtain ⟨w, -, rfl⟩ := Option.map_eq_some_iff.1 hw
  exact h s (mem_lastShares hs)

end PoolDb

end ZcashMiningPool
