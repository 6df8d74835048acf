import Mathlib.Data.Rat.Defs
import ZcashMiningPool.Library.Buckets
import ZcashMiningPool.Library.Table

/-!
# The pool database

The tables of `pool-db/migrations` that the settlement code reads and writes, the errors it
returns, and the two shapes every statement on `balances` has.

* Amounts are zatoshis, and integers here.  The columns are 64 bits wide: `Db/Stored` has the
  balances as SQLite keeps them, and `StoredDb.step_of` says that they are the ones of this module
  as long as nobody holds more than `i64::MAX`; the whole supply is below `2^51`.  Row ids are
  natural numbers; a `datetime` is its second.
* `PoolDb` — one database file together with its clock.  The rows of a table with a primary or
  a `UNIQUE` key carry their uniqueness (`Table.Keyed`, `Table.Auto`).
* An operation is `PoolDb → Except DbError (result × PoolDb)`: an error returns no new state,
  which is what `ROLLBACK` leaves.
* `transfer` — the guarded `UPDATE balances SET src = src - a, dst = dst + a WHERE src >= a` of
  `reserve`, `confirm`, `refund`, `create` and `void`.
* Miners are never deleted and a balance is only created for a recorded miner, so the foreign
  keys on `miner_id` are checked where a balance is created, and hold everywhere else on books that
  these operations wrote.  `Db/Stored` checks them at every insertion, on any books.
-/

set_option autoImplicit false

namespace ZcashMiningPool

open Table Buckets

abbrev MinerId := ℕ
abbrev WorkerId := ℕ
abbrev BlockId := ℕ
abbrev AttemptId := ℕ

/-! ## Rows -/

structure Miner where
  address : String
  createdAt : ℕ
  deriving DecidableEq, Repr

structure Worker where
  minerId : MinerId
  name : String
  lastSeen : ℕ
  lastDifficulty : Option ℚ
  deriving DecidableEq, Repr

structure Share where
  workerId : WorkerId
  jobId : String
  difficulty : ℚ
  isBlock : Bool
  sessionId : String
  createdAt : ℕ
  deriving DecidableEq, Repr

/-- `blocks.status`. -/
inductive BlockStatus where
  | pending
  | confirmed
  | orphaned
  deriving DecidableEq, Repr

structure Block where
  height : ℤ
  hash : String
  reward : ℤ
  actualReward : Option ℤ
  status : BlockStatus
  foundBy : WorkerId
  luckPercent : Option ℚ
  /-- What the distribution of this block recovered from `pool_tx_costs`. -/
  costsRecovered : ℤ
  createdAt : ℕ
  deriving DecidableEq, Repr

/-- The columns of `balances` that hold funds. -/
inductive Bucket where
  | pending
  | paying
  | paid
  deriving DecidableEq, Repr

instance : Fintype Bucket := ⟨{.pending, .paying, .paid}, fun b => by cases b <;> decide⟩

structure Balance where
  pending : ℤ
  paying : ℤ
  paid : ℤ
  deriving DecidableEq, Repr

structure OrphanClawback where
  blockId : BlockId
  minerId : MinerId
  amount : ℤ
  acknowledged : Bool
  ackNote : Option String
  createdAt : ℕ
  deriving DecidableEq, Repr

/-- `pool_tx_costs.kind`. -/
inductive TxCostKind where
  | shield
  | payout
  | reorphaned
  deriving DecidableEq, Repr

structure PoolTxCost where
  kind : TxCostKind
  ref : String
  fee : ℤ
  recovered : Bool
  deriving DecidableEq, Repr

/-- `payout_attempts.status`. -/
inductive AttemptStatus where
  | queued
  | submitting
  | sent
  | confirmed
  | failed
  deriving DecidableEq, Repr

structure PayoutAttempt where
  opid : Option String
  txid : Option String
  status : AttemptStatus
  minerCount : ℤ
  totalZatoshis : ℤ
  source : String
  errorMessage : Option String
  createdAt : ℕ
  updatedAt : ℕ
  deriving DecidableEq, Repr

structure PayoutItem where
  attemptId : AttemptId
  minerId : MinerId
  amount : ℤ
  deriving DecidableEq, Repr

structure Payout where
  minerId : MinerId
  txid : String
  amount : ℤ
  createdAt : ℕ
  deriving DecidableEq, Repr

/-- The breadcrumb of a block that is being submitted. -/
structure BlockSubmission where
  height : ℤ
  hash : String
  workerId : WorkerId
  reward : ℤ
  actualReward : Option ℤ
  resolved : Bool
  outcome : Option String
  createdAt : ℕ
  deriving DecidableEq, Repr

/-! ## Errors -/

/-- The `sqlx::Error` values the queries can return for a reason the model sees. -/
inductive SqlxError where
  | rowNotFound
  | foreignKey
  | uniqueKey
  /-- A `REAL` was read as an `i64`. -/
  | columnDecode
  /-- A `SUM` of integers left the 64-bit range. -/
  | integerOverflow
  /-- The connection or the file failed. -/
  | io
  | protocol (message : String)
  deriving DecidableEq, Repr

inductive DbError where
  | sqlx (e : SqlxError)
  | insufficientPending (minerId : MinerId) (amount : ℤ)
  deriving DecidableEq, Repr

/-! ## The database -/

/-- The database file and its clock. -/
structure PoolDb where
  now : ℕ
  miners : Auto Miner
  workers : Auto Worker
  shares : Auto Share
  blocks : Auto Block
  balances : Keyed MinerId Balance
  blockCredits : Keyed (BlockId × MinerId) ℤ
  orphanClawbacks : Auto OrphanClawback
  poolTxCosts : Auto PoolTxCost
  payoutAttempts : Auto PayoutAttempt
  payoutItems : Auto PayoutItem
  payouts : Auto Payout
  blockSubmissions : Auto BlockSubmission

namespace PoolDb

/-- A freshly migrated database. -/
def empty : PoolDb where
  now := 0
  miners := Auto.empty
  workers := Auto.empty
  shares := Auto.empty
  blocks := Auto.empty
  balances := Keyed.empty
  blockCredits := Keyed.empty
  orphanClawbacks := Auto.empty
  poolTxCosts := Auto.empty
  payoutAttempts := Auto.empty
  payoutItems := Auto.empty
  payouts := Auto.empty
  blockSubmissions := Auto.empty

/-- `created_at > datetime('now', '-' || minutes || ' minutes')`. -/
def youngerThan (db : PoolDb) (createdAt : ℕ) (minutes : ℕ) : Bool :=
  db.now < createdAt + 60 * minutes

/-- `created_at < datetime('now', '-' || minutes || ' minutes')`. -/
def olderThan (db : PoolDb) (createdAt : ℕ) (minutes : ℕ) : Bool :=
  createdAt + 60 * minutes < db.now

end PoolDb

/-! ## Balances -/

namespace Balance

/-- The column defaults. -/
def zero : Balance := ⟨0, 0, 0⟩

def get (b : Balance) : Bucket → ℤ
  | .pending => b.pending
  | .paying => b.paying
  | .paid => b.paid

def set (b : Balance) (a : ℤ) : Bucket → Balance
  | .pending => { b with pending := a }
  | .paying => { b with paying := a }
  | .paid => { b with paid := a }

/-- `src = src - a, dst = dst + a`; both right-hand sides read the old row. -/
def move (b : Balance) (src dst : Bucket) (a : ℤ) : Balance :=
  (b.set (b.get src - a) src).set (b.get dst + a) dst

@[simp] theorem get_zero (k : Bucket) : zero.get k = 0 := by cases k <;> rfl

@[simp] theorem get_set (b : Balance) (a : ℤ) (k k' : Bucket) :
    (b.set a k).get k' = if k' = k then a else b.get k' := by
  cases k <;> cases k' <;> rfl

theorem get_move (b : Balance) {src dst : Bucket} (h : src ≠ dst) (a : ℤ) (k : Bucket) :
    (b.move src dst a).get k
      = b.get k + ((if k = dst then a else 0) - (if k = src then a else 0)) := by
  unfold move
  rw [get_set, get_set]
  by_cases hd : k = dst
  · subst hd
    rw [if_pos rfl, if_pos rfl, if_neg (Ne.symm h)]
    omega
  · rw [if_neg hd, if_neg hd]
    split
    · rename_i hs
      subst hs
      omega
    · omega

end Balance

namespace PoolDb

/-- What every miner holds; no row counts as zero. -/
def books (db : PoolDb) : Books MinerId Bucket := fun m b =>
  ((db.balances.get? m).map (·.get b)).getD 0

/-- `INSERT OR IGNORE INTO balances (miner_id) VALUES (m)`. -/
def insertBalance (db : PoolDb) (m : MinerId) : Except DbError PoolDb :=
  if db.miners.has m then
    .ok { db with balances := db.balances.insertIgnore m Balance.zero }
  else .error (.sqlx .foreignKey)

/-- `UPDATE balances SET pending = f(pending) WHERE miner_id = m`. -/
def updatePending (db : PoolDb) (m : MinerId) (f : ℤ → ℤ) : PoolDb :=
  { db with balances := db.balances.modify m (fun b => { b with pending := f b.pending }) }

/-- `UPDATE balances SET src = src - a, dst = dst + a WHERE miner_id = m AND src >= a`;
    `none` when no row was affected. -/
def transfer (db : PoolDb) (src dst : Bucket) (m : MinerId) (a : ℤ) : Option PoolDb :=
  (db.balances.modifyIf m (fun b => decide (a ≤ b.get src)) (fun b => b.move src dst a)).map
    (fun t => { db with balances := t })

theorem books_eq_of_balances {db db' : PoolDb} (h : db'.balances = db.balances) :
    db'.books = db.books := by
  unfold books
  rw [h]

@[simp] theorem books_empty : empty.books = fun _ _ => 0 := rfl

theorem insertBalance_ok {db db' : PoolDb} {m : MinerId} (h : db.insertBalance m = .ok db') :
    db' = { db with balances := db.balances.insertIgnore m Balance.zero } := by
  unfold insertBalance at h
  split at h
  · cases h
    rfl
  · cases h

/-- A new balance starts at zero, so the books do not move. -/
theorem books_insertBalance {db db' : PoolDb} {m : MinerId} (h : db.insertBalance m = .ok db') :
    db'.books = db.books := by
  rw [insertBalance_ok h]
  funext m' b
  simp only [books, Keyed.get?_insertIgnore]
  split
  · rename_i he
    subst he
    cases db.balances.get? m' <;> simp
  · rfl

theorem balances_insertBalance {db db' : PoolDb} {m : MinerId} (h : db.insertBalance m = .ok db') :
    db'.balances.get? m ≠ none := by
  rw [insertBalance_ok h]
  simp

/-- `pending` of `m` changes by `f`, every other figure stays. -/
theorem books_updatePending (db : PoolDb) (m : MinerId) (f : ℤ → ℤ)
    (hm : db.balances.get? m ≠ none) (m' : MinerId) (b : Bucket) :
    (db.updatePending m f).books m' b =
      if m' = m ∧ b = .pending then f (db.books m .pending) else db.books m' b := by
  obtain ⟨r, hr⟩ := Option.ne_none_iff_exists'.1 hm
  simp only [books, updatePending, Keyed.get?_modify]
  by_cases he : m' = m
  · subst he
    cases b <;> simp [hr, Balance.get]
  · simp [he]

theorem transfer_frame {db db' : PoolDb} {src dst : Bucket} {m : MinerId} {a : ℤ}
    (h : db.transfer src dst m a = some db') :
    ∃ t, db.balances.get? m ≠ none ∧ db' = { db with balances := t } := by
  obtain ⟨t, ht, rfl⟩ := Option.map_eq_some_iff.1 h
  obtain ⟨r, hr, -, -⟩ := Keyed.modifyIf_eq_some_iff.1 ht
  exact ⟨t, by simp [hr], rfl⟩

/-- A guarded `UPDATE` that touched its row is a guarded move of the books. -/
theorem books_transfer {db db' : PoolDb} {src dst : Bucket} {m : MinerId} {a : ℤ}
    (hne : src ≠ dst) (h : db.transfer src dst m a = some db') :
    a ≤ db.books m src ∧ db'.books = move db.books src dst m a := by
  obtain ⟨t, ht, rfl⟩ := Option.map_eq_some_iff.1 h
  obtain ⟨r, hr, hcov, rfl⟩ := Keyed.modifyIf_eq_some_iff.1 ht
  refine ⟨by simpa [books, hr] using hcov, ?_⟩
  funext m' b
  simp only [books, move, Keyed.get?_modify]
  by_cases he : m' = m
  · subst he
    simp [hr, Balance.get_move _ hne]
  · simp [he]

/-- A guarded `UPDATE` of a positive amount touches no row exactly when the books do not
    cover it. -/
theorem transfer_eq_none_iff {db : PoolDb} {src dst : Bucket} {m : MinerId} {a : ℤ}
    (ha : 0 < a) : db.transfer src dst m a = none ↔ db.books m src < a := by
  unfold transfer Keyed.modifyIf books
  cases hr : db.balances.get? m with
  | none => simpa [hr] using ha
  | some r =>
    by_cases hcov : a ≤ r.get src
    · simp [hcov]
    · simp [hcov, not_le.1 hcov]

end PoolDb

end ZcashMiningPool
