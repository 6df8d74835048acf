import ZcashMiningPool.Db.Op
import ZcashMiningPool.Library.SqlNumber

/-!
# The balances as SQLite keeps them

`PoolDb` counts in integers.  Here the columns of `balances` hold what SQLite computes, 64-bit
integers that turn into reals past their range, and every foreign key is checked where a row is
inserted.

* `StoredDb` — the other tables, and the stored balances.
* The operations of `pool-db/src/queries.rs` that read or write a balance, statement by statement.
* `step` — all operations; those that touch no balance are those of `PoolDb`.
* `of`, `exact` — the stored form of integer books, and the integers that a stored form shows.
-/

set_option autoImplicit false

namespace ZcashMiningPool

open Table Buckets SqlNumber

structure StoredBalance where
  pending : Number
  paying : Number
  paid : Number
  deriving DecidableEq

namespace StoredBalance

/-- The column defaults. -/
def zero : StoredBalance := ⟨.integer 0, .integer 0, .integer 0⟩

def get (b : StoredBalance) : Bucket → Number
  | .pending => b.pending
  | .paying => b.paying
  | .paid => b.paid

/-- An assignment, with the affinity of the column. -/
def set (b : StoredBalance) (x : Number) : Bucket → StoredBalance
  | .pending => { b with pending := x.store }
  | .paying => { b with paying := x.store }
  | .paid => { b with paid := x.store }

/-- `src = src - a, dst = dst + a`; both right-hand sides read the old row. -/
def move (b : StoredBalance) (src dst : Bucket) (a : ℤ) : StoredBalance :=
  (b.set ((b.get src).sub (.integer a)) src).set ((b.get dst).add (.integer a)) dst

def ofBalance (b : Balance) : StoredBalance :=
  ⟨.integer b.pending, .integer b.paying, .integer b.paid⟩

/-- A real shows its whole part. -/
def toBalance (b : StoredBalance) : Balance :=
  ⟨⌊b.pending.value⌋, ⌊b.paying.value⌋, ⌊b.paid.value⌋⟩

end StoredBalance

structure StoredDb where
  /-- Every table but `balances`, which is empty here. -/
  tables : PoolDb
  balances : Keyed MinerId StoredBalance

namespace StoredDb

def empty : StoredDb := ⟨PoolDb.empty, Keyed.empty⟩

/-- A balance column of `m`; no row counts as zero. -/
def column (s : StoredDb) (m : MinerId) (b : Bucket) : Number :=
  ((s.balances.get? m).map (·.get b)).getD (.integer 0)

/-! ## Statements on `balances` -/

/-- `INSERT OR IGNORE INTO balances (miner_id) VALUES (m)`: a row that is there hides the foreign
    key. -/
def insertBalance (s : StoredDb) (m : MinerId) : Except DbError StoredDb :=
  if s.balances.has m then .ok s
  else if s.tables.miners.has m then
    .ok { s with balances := s.balances.insertIgnore m .zero }
  else .error (.sqlx .foreignKey)

/-- `UPDATE balances SET pending = f(pending) WHERE miner_id = m`. -/
def updatePending (s : StoredDb) (m : MinerId) (f : Number → Number) : StoredDb :=
  { s with balances := s.balances.modify m (fun b => b.set (f b.pending) .pending) }

/-- `SELECT pending FROM balances WHERE miner_id = m`, as an `i64`. -/
def readPending (s : StoredDb) (m : MinerId) : Except DbError ℤ :=
  match (s.column m .pending).asI64 with
  | some n => .ok n
  | none => .error (.sqlx .columnDecode)

/-- `UPDATE balances SET src = src - a, dst = dst + a WHERE miner_id = m AND src >= a`;
    `none` when no row was affected. -/
def transfer (s : StoredDb) (src dst : Bucket) (m : MinerId) (a : ℤ) : Option StoredDb :=
  (s.balances.modifyIf m (fun b => decide ((a : ℚ) ≤ (b.get src).value))
    (fun b => b.move src dst a)).map (fun t => { s with balances := t })

/-! ## Crediting -/

/-- `INSERT INTO block_credits (block_id, miner_id, amount)`. -/
def insertBlockCredit (s : StoredDb) (blockId : BlockId) (m : MinerId) (amount : ℤ) :
    Except DbError StoredDb :=
  if s.tables.miners.has m then
    (s.tables.insertBlockCredit blockId m amount).map (fun t => { s with tables := t })
  else .error (.sqlx .foreignKey)

def distributeBlockCredits (blockId : BlockId) :
    StoredDb → List (MinerId × ℤ) → Except DbError StoredDb
  | s, [] => .ok s
  | s, (m, amount) :: credits => do
    let s₁ ← s.insertBalance m
    let s₂ ← s₁.insertBlockCredit blockId m amount
    distributeBlockCredits blockId (s₂.updatePending m (·.add (.integer amount))) credits

def creditBalance (s : StoredDb) (m : MinerId) (amount : ℤ) : Except DbError StoredDb := do
  let s₁ ← s.insertBalance m
  .ok (s₁.updatePending m (·.add (.integer amount)))

/-- The update stays when its result cannot be read back. -/
def adjustMinerBalance (s : StoredDb) (m : MinerId) (delta : ℤ) : Except DbError ℤ × StoredDb :=
  match s.insertBalance m with
  | .error e => (.error e, s)
  | .ok s₁ =>
    let s₂ := s₁.updatePending m (fun pending => (pending.add (.integer delta)).maxZero)
    (s₂.readPending m, s₂)

/-! ## Reversal -/

/-- The debit of one reversed credit. -/
def debitRecovered (s : StoredDb) (m : MinerId) (recovered : ℤ) : StoredDb :=
  if 0 < recovered then s.updatePending m (·.sub (.integer recovered)) else s

/-- One credit row: debit what `pending` covers, claw back the rest. -/
def reverseCredit (blockId : BlockId) (acc : StoredDb × ℤ × ℤ) (credit : MinerId × ℤ) :
    Except DbError (StoredDb × ℤ × ℤ) := do
  let (s, reversed, clawback) := acc
  let (m, amount) := credit
  let pending ← s.readPending m
  let recovered := PoolDb.recoverable amount pending
  let shortfall := amount - recovered
  let s₁ := s.debitRecovered m recovered
  .ok ({ s₁ with tables := s₁.tables.insertClawback blockId m shortfall },
    if 0 < recovered then reversed + recovered else reversed,
    if 0 < shortfall then clawback + shortfall else clawback)

/-- `None` when the block has no credit rows, else (reversed, clawed back). -/
def reverseBlockCreditsPrecise (s : StoredDb) (blockId : BlockId) :
    Except DbError (Option (ℤ × ℤ) × StoredDb) :=
  if s.tables.creditsByMiner blockId = [] then .ok (none, s)
  else do
    let (s₁, reversed, clawback) ←
      (s.tables.creditsByMiner blockId).foldlM (reverseCredit blockId) (s, 0, 0)
    let t := s₁.tables.deleteBlockCredits blockId
    match t.blocks.get? blockId with
    | none => .error (.sqlx .rowNotFound)
    | some b =>
      .ok (some (reversed, clawback), { s₁ with tables := t.requeueCosts blockId b.costsRecovered })

/-- The positive `pending` columns. -/
def positivePending (s : StoredDb) : List Number :=
  (s.balances.rows.map (·.2.pending)).filter (fun x => decide (0 < x.value))

/-- `SELECT COALESCE(SUM(pending), 0) FROM balances WHERE pending > 0`, as an `i64`. -/
def totalPending (s : StoredDb) : Except DbError ℤ :=
  match SqlNumber.sum s.positivePending with
  | .ok total => .ok total
  | .error .overflow => .error (.sqlx .integerOverflow)
  | .error .notInteger => .error (.sqlx .columnDecode)

/-- `CAST(pending * 1.0 * reversal / total AS INTEGER)`. -/
def proportionalShare (pending : Number) (reversal total : ℤ) : ℤ :=
  toInteger (PoolDb.real
    (PoolDb.real (pending.toReal * PoolDb.real reversal) / PoolDb.real total))

/-- What one balance row keeps of its `pending` when `reversal` of `total` is taken back. -/
def proportionalDebit (reversal total : ℤ) (b : StoredBalance) : StoredBalance :=
  if 0 < b.pending.value then
    b.set ((b.pending.sub (.integer (proportionalShare b.pending reversal total))).maxZero) .pending
  else b

/-- Legacy reversal over all miners with pending balance. -/
def reverseProportionally (s : StoredDb) (blockReward : ℤ) : Except DbError StoredDb := do
  let total ← s.totalPending
  if 0 < total then
    .ok { s with
      balances := s.balances.modifyAll
        (fun _ => proportionalDebit (min blockReward total) total) }
  else .ok s

/-- Reverse the block's credits and flip its status, atomically. -/
def orphanBlock (s : StoredDb) (blockId : BlockId) (blockReward : ℤ) :
    Except DbError (Option (ℤ × ℤ) × StoredDb) := do
  let (outcome, s₁) ← s.reverseBlockCreditsPrecise blockId
  let s₂ ← match outcome with
    | none => s₁.reverseProportionally blockReward
    | some _ => .ok s₁
  .ok (outcome, { s₂ with tables := s₂.tables.updateBlockStatus blockId .orphaned })

/-! ## Payouts -/

/-- `INSERT INTO payouts (miner_id, txid, amount)`. -/
def insertPayout (s : StoredDb) (m : MinerId) (txid : String) (amount : ℤ) :
    Except DbError StoredDb :=
  if s.tables.miners.has m then .ok { s with tables := s.tables.insertPayout m txid amount }
  else .error (.sqlx .foreignKey)

/-- `INSERT INTO payout_items (attempt_id, miner_id, amount)`. -/
def insertItem (s : StoredDb) (attemptId : AttemptId) (m : MinerId) (amount : ℤ) :
    Except DbError StoredDb :=
  if s.tables.miners.has m then
    (s.tables.insertItem attemptId m amount).map (fun t => { s with tables := t })
  else .error (.sqlx .foreignKey)

/-- Record a payout and move the amount from pending to paid. -/
def createPayout (s : StoredDb) (m : MinerId) (amount : ℤ) (txid : String) :
    Except DbError (ℕ × StoredDb) :=
  match s.transfer .pending .paid m amount with
  | none => .error (.insufficientPending m amount)
  | some s₁ => (s₁.insertPayout m txid amount).map (fun s₂ => (s₁.tables.payouts.next, s₂))

/-- Reserve funds for an in-flight payout; returns the pairs actually reserved. -/
def reservePayout (attemptId : AttemptId) :
    StoredDb → List (MinerId × ℤ) → Except DbError (List (MinerId × ℤ) × StoredDb)
  | s, [] => .ok ([], s)
  | s, (m, amount) :: items =>
    if amount ≤ 0 then reservePayout attemptId s items
    else
      match s.transfer .pending .paying m amount with
      | none => reservePayout attemptId s items
      | some s₁ => do
        let s₂ ← s₁.insertItem attemptId m amount
        let (reserved, s₃) ← reservePayout attemptId s₂ items
        .ok ((m, amount) :: reserved, s₃)

/-- One guarded transfer per row, each followed by `record`; a row the source bucket does not
    cover aborts with its message. -/
def settleItems (src dst : Bucket) (message : MinerId → ℤ → String)
    (record : MinerId → ℤ → StoredDb → Except DbError StoredDb) :
    StoredDb → List (MinerId × ℤ) → Except DbError StoredDb
  | s, [] => .ok s
  | s, (m, amount) :: items =>
    match s.transfer src dst m amount with
    | none => .error (.sqlx (.protocol (message m amount)))
    | some s₁ => do
      let s₂ ← record m amount s₁
      settleItems src dst message record s₂ items

/-- Finalize a payout that is on chain: `paying → paid` and a `payouts` row per item. -/
def confirmPayout (s : StoredDb) (attemptId : AttemptId) (txid : String) :
    Except DbError (ℕ × StoredDb) := do
  let items := s.tables.itemsOf attemptId
  let s₁ ← settleItems .paying .paid
    (fun m amount => s!"confirm_payout attempt {attemptId}: miner {m} has paying < {amount} " ++
      "zatoshis — refusing to settle; investigate before retry")
    (fun m amount s => s.insertPayout m txid amount) s items
  .ok (items.length, { s₁ with tables := s₁.tables.deleteItems attemptId })

/-- Refund a reservation that never reached the chain: `paying → pending`. -/
def refundPayout (s : StoredDb) (attemptId : AttemptId) : Except DbError (ℕ × StoredDb) := do
  let items := s.tables.itemsOf attemptId
  let s₁ ← settleItems .paying .pending
    (fun m amount => s!"refund_payout attempt {attemptId}: miner {m} has paying < {amount} " ++
      "zatoshis — refusing to refund; investigate before retry")
    (fun _ _ s => .ok s) s items
  .ok (items.length, { s₁ with tables := s₁.tables.deleteItems attemptId })

/-- Auto-void a recorded payout whose transaction was reorged out and expired: `paid → pending`.
    Nothing happens while a row is younger than an hour, or when there is none. -/
def voidReorgedPayout (s : StoredDb) (txid : String) : Except DbError ((ℕ × ℤ) × StoredDb) :=
  if s.tables.payouts.rows.any
      (fun e => e.2.txid == txid && s.tables.youngerThan e.2.createdAt 60) then
    .ok ((0, 0), s)
  else if s.tables.payoutsOf txid = [] then .ok ((0, 0), s)
  else do
    let rows := s.tables.payoutsOf txid
    let s₁ ← settleItems .paid .pending
      (fun m amount => s!"auto-void aborted: miner {m} paid < {amount} for txid {txid}")
      (fun _ _ s => .ok s) s rows
    .ok ((rows.length, (rows.map (·.2)).sum),
      { s₁ with tables := (s₁.tables.deletePayouts txid).failVoided txid })

/-! ## The machine -/

/-- What a transaction leaves: an error rolls back. -/
def commit (s : StoredDb) : Except DbError StoredDb → StoredDb
  | .ok s' => s'
  | .error _ => s

def step (s : StoredDb) : Op → StoredDb
  | .distributeBlockCredits b credits => s.commit (distributeBlockCredits b s credits)
  | .reverseBlockCreditsPrecise b => s.commit ((s.reverseBlockCreditsPrecise b).map (·.2))
  | .orphanBlock b reward => s.commit ((s.orphanBlock b reward).map (·.2))
  | .creditBalance m amount => s.commit (s.creditBalance m amount)
  | .adjustMinerBalance m delta => (s.adjustMinerBalance m delta).2
  | .getOrCreateBalance m => s.commit (s.insertBalance m)
  | .createPayout m amount txid => s.commit ((s.createPayout m amount txid).map (·.2))
  | .reservePayout a items => s.commit ((reservePayout a s items).map (·.2))
  | .confirmPayout a txid => s.commit ((s.confirmPayout a txid).map (·.2))
  | .refundPayout a => s.commit ((s.refundPayout a).map (·.2))
  | .voidReorgedPayout txid => s.commit ((s.voidReorgedPayout txid).map (·.2))
  | op => { s with tables := s.tables.step op }

/-! ## Integer books -/

end StoredDb

namespace PoolDb

/-- Every table but `balances`. -/
def others (db : PoolDb) : PoolDb := { db with balances := Keyed.empty }

end PoolDb

namespace StoredDb

/-- Integer books, stored. -/
def of (db : PoolDb) : StoredDb := ⟨db.others, db.balances.map StoredBalance.ofBalance⟩

/-- The integers that the columns show. -/
def exact (s : StoredDb) : PoolDb :=
  { s.tables with balances := s.balances.map StoredBalance.toBalance }

theorem exact_of (db : PoolDb) : (of db).exact = db := by
  have hrow : (fun b => (StoredBalance.ofBalance b).toBalance) = fun b => b := by
    funext b
    simp [StoredBalance.ofBalance, StoredBalance.toBalance, Number.value]
  have hbal : (db.balances.map StoredBalance.ofBalance).map StoredBalance.toBalance
      = db.balances := by
    rw [Keyed.map_map, hrow, Keyed.map_id]
  unfold exact of PoolDb.others
  rw [hbal]

theorem column_of (db : PoolDb) (m : MinerId) (b : Bucket) :
    (of db).column m b = .integer (db.books m b) := by
  unfold column of PoolDb.books
  rw [Keyed.get?_map]
  cases db.balances.get? m with
  | none => rfl
  | some r => cases b <;> rfl

end StoredDb

end ZcashMiningPool
