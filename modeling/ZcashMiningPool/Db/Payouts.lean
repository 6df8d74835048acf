import Mathlib.Data.List.Sort
import ZcashMiningPool.Db.Credits

/-!
# Payouts

The payout queries of `pool-db/src/queries.rs`: the attempt log, the payable listing, and the
reserve → confirm | refund saga.

* `createPayoutAttempt`, `updatePayoutAttempt`, `getReservedAttempts` — the attempt log.
* `getPendingPayouts` — who may be paid; without `includeImmature`, credits of pending blocks
  are withheld.  `getImmatureExposure` — all of these credits.
* `reservePayout` — `pending → paying` per item, skipping what the balance no longer covers.
* `settleItems` — the loop `confirmPayout`, `refundPayout` and `voidReorgedPayout` share: a
  guarded transfer per row, and one miss aborts the transaction.
-/

set_option autoImplicit false

namespace ZcashMiningPool

open Table Buckets

namespace PoolDb

/-! ## The attempt log -/

def createPayoutAttempt (db : PoolDb) (minerCount totalZatoshis : ℤ) (source : String) :
    AttemptId × PoolDb :=
  (db.payoutAttempts.next,
    { db with
      payoutAttempts := db.payoutAttempts.insert
        ⟨none, none, .queued, minerCount, totalZatoshis, source, none, db.now, db.now⟩ })

/-- `opid`, `txid` and `error_message` are only overwritten by a value. -/
def updatePayoutAttempt (db : PoolDb) (id : AttemptId) (status : AttemptStatus)
    (opid txid errorMessage : Option String) : PoolDb :=
  { db with
    payoutAttempts := db.payoutAttempts.modify id (fun r =>
      { r with
        status := status
        opid := opid.or r.opid
        txid := txid.or r.txid
        errorMessage := errorMessage.or r.errorMessage
        updatedAt := db.now }) }

/-- `SELECT miner_id, amount FROM payout_items WHERE attempt_id = ?`. -/
def itemsOf (db : PoolDb) (attemptId : AttemptId) : List (MinerId × ℤ) :=
  (db.payoutItems.rows.filter (fun e => e.2.attemptId == attemptId)).map
    (fun e => (e.2.minerId, e.2.amount))

/-- `DELETE FROM payout_items WHERE attempt_id = ?`. -/
def deleteItems (db : PoolDb) (attemptId : AttemptId) : PoolDb :=
  { db with payoutItems := db.payoutItems.filter (fun r => r.attemptId != attemptId) }

/-- One row of `get_reserved_attempts`. -/
structure ReservedAttempt where
  id : AttemptId
  status : AttemptStatus
  opid : Option String
  txid : Option String
  total : ℤ
  createdAt : ℕ
  deriving DecidableEq, Repr

/-- Attempts that still hold payout items, oldest id first. -/
def getReservedAttempts (db : PoolDb) (olderThanMinutes : Option ℕ) : List ReservedAttempt :=
  (db.payoutAttempts.rows.filter (fun e =>
      (db.itemsOf e.1 != []) &&
      (match olderThanMinutes with
       | some minutes => db.olderThan e.2.createdAt minutes
       | none => true))).map
    (fun e => ⟨e.1, e.2.status, e.2.opid, e.2.txid, ((db.itemsOf e.1).map (·.2)).sum,
      e.2.createdAt⟩)

/-! ## Who may be paid -/

/-- One row of `get_pending_payouts`. -/
structure PendingPayout where
  minerId : MinerId
  address : String
  amount : ℤ
  createdAt : ℕ
  deriving DecidableEq, Repr

/-- Credits of miner `m` on blocks that have not matured. -/
def immature (db : PoolDb) (m : MinerId) : ℤ :=
  db.blockCredits.sum (fun k amount =>
    if k.2 = m ∧ db.statusOf k.1 = some .pending then amount else 0)

/-- Total credits of pending blocks, whoever they belong to. -/
def getImmatureExposure (db : PoolDb) : ℤ :=
  db.blockCredits.sum (fun k amount => if db.statusOf k.1 = some .pending then amount else 0)

/-- The coalescing clause: no cooldown, a large balance, or no recent payout. -/
def cooledDown (db : PoolDb) (m : MinerId) (payable cooldownSecs overrideAmount : ℤ) : Bool :=
  cooldownSecs ≤ 0 || overrideAmount ≤ payable ||
    !(db.payouts.rows.any (fun e =>
      e.2.minerId == m && decide ((db.now : ℤ) - cooldownSecs ≤ e.2.createdAt)))

/-- Miners whose payable balance reaches `minAmount`, largest first. -/
def getPendingPayouts (db : PoolDb) (minAmount : ℤ) (includeImmature : Bool)
    (cooldownSecs overrideAmount : ℤ) : List PendingPayout :=
  (db.balances.rows.filterMap (fun e =>
      (db.miners.get? e.1).bind (fun miner =>
        let payable := if includeImmature then e.2.pending
          else e.2.pending - db.immature e.1
        if minAmount ≤ payable && db.cooledDown e.1 payable cooldownSecs overrideAmount then
          some ⟨e.1, miner.address, payable, miner.createdAt⟩
        else none))).insertionSort (fun a b => b.amount ≤ a.amount)

/-- Transactions of payout rows of the last `hours`, each with its total. -/
def getRecentPayoutTxids (db : PoolDb) (hours : ℕ) : List (String × ℤ) :=
  let recent := db.payouts.values.filter (fun r => db.youngerThan r.createdAt (60 * hours))
  (recent.map (·.txid)).dedup.map (fun txid =>
    (txid, ((recent.filter (fun r => r.txid == txid)).map (·.amount)).sum))

/-! ## Moving funds -/

/-- `INSERT INTO payouts (miner_id, txid, amount)`. -/
def insertPayout (db : PoolDb) (m : MinerId) (txid : String) (amount : ℤ) : PoolDb :=
  { db with payouts := db.payouts.insert ⟨m, txid, amount, db.now⟩ }

/-- `INSERT INTO payout_items (attempt_id, miner_id, amount)`. -/
def insertItem (db : PoolDb) (attemptId : AttemptId) (m : MinerId) (amount : ℤ) :
    Except DbError PoolDb :=
  if db.payoutAttempts.has attemptId then
    .ok { db with payoutItems := db.payoutItems.insert ⟨attemptId, m, amount⟩ }
  else .error (.sqlx .foreignKey)

/-- Record a payout and move the amount from pending to paid. -/
def createPayout (db : PoolDb) (m : MinerId) (amount : ℤ) (txid : String) :
    Except DbError (ℕ × PoolDb) :=
  match db.transfer .pending .paid m amount with
  | none => .error (.insufficientPending m amount)
  | some db₁ => .ok (db₁.payouts.next, db₁.insertPayout m txid amount)

/-- Reserve funds for an in-flight payout; returns the pairs actually reserved. -/
def reservePayout (attemptId : AttemptId) :
    PoolDb → List (MinerId × ℤ) → Except DbError (List (MinerId × ℤ) × PoolDb)
  | db, [] => .ok ([], db)
  | db, (m, amount) :: items =>
    if amount ≤ 0 then reservePayout attemptId db items
    else
      match db.transfer .pending .paying m amount with
      | none => reservePayout attemptId db items
      | some db₁ => do
        let db₂ ← db₁.insertItem attemptId m amount
        let (reserved, db₃) ← reservePayout attemptId db₂ items
        .ok ((m, amount) :: reserved, db₃)

/-- One guarded transfer per row, each followed by `record`; a row the source bucket does not
    cover aborts with its message. -/
def settleItems (src dst : Bucket) (message : MinerId → ℤ → String)
    (record : MinerId → ℤ → PoolDb → PoolDb) :
    PoolDb → List (MinerId × ℤ) → Except DbError PoolDb
  | db, [] => .ok db
  | db, (m, amount) :: items =>
    match db.transfer src dst m amount with
    | none => .error (.sqlx (.protocol (message m amount)))
    | some db₁ => settleItems src dst message record (record m amount db₁) items

/-- Finalize a payout that is on chain: `paying → paid` and a `payouts` row per item. -/
def confirmPayout (db : PoolDb) (attemptId : AttemptId) (txid : String) :
    Except DbError (ℕ × PoolDb) := do
  let items := db.itemsOf attemptId
  let db₁ ← settleItems .paying .paid
    (fun m amount => s!"confirm_payout attempt {attemptId}: miner {m} has paying < {amount} " ++
      "zatoshis — refusing to settle; investigate before retry")
    (fun m amount db => db.insertPayout m txid amount) db items
  .ok (items.length, db₁.deleteItems attemptId)

/-- Refund a reservation that never reached the chain: `paying → pending`. -/
def refundPayout (db : PoolDb) (attemptId : AttemptId) : Except DbError (ℕ × PoolDb) := do
  let items := db.itemsOf attemptId
  let db₁ ← settleItems .paying .pending
    (fun m amount => s!"refund_payout attempt {attemptId}: miner {m} has paying < {amount} " ++
      "zatoshis — refusing to refund; investigate before retry")
    (fun _ _ db => db) db items
  .ok (items.length, db₁.deleteItems attemptId)

/-- `SELECT miner_id, amount FROM payouts WHERE txid = ?`. -/
def payoutsOf (db : PoolDb) (txid : String) : List (MinerId × ℤ) :=
  (db.payouts.rows.filter (fun e => e.2.txid == txid)).map (fun e => (e.2.minerId, e.2.amount))

/-- The attempt a voided transaction belonged to is marked failed. -/
def failVoided (db : PoolDb) (txid : String) : PoolDb :=
  { db with
    payoutAttempts := db.payoutAttempts.modifyAll (fun _ r =>
      if r.txid = some txid ∧ r.status = .confirmed then
        { r with
          status := .failed
          updatedAt := db.now
          errorMessage := some
            "auto-void: tx reorged out and expired (-5); funds returned to pending" }
      else r) }

/-- `DELETE FROM payouts WHERE txid = ?`. -/
def deletePayouts (db : PoolDb) (txid : String) : PoolDb :=
  { db with payouts := db.payouts.filter (fun r => r.txid != txid) }

/-- Auto-void a recorded payout whose transaction was reorged out and expired: `paid → pending`.
    Nothing happens while a row is younger than an hour, or when there is none. -/
def voidReorgedPayout (db : PoolDb) (txid : String) : Except DbError ((ℕ × ℤ) × PoolDb) :=
  if db.payouts.rows.any (fun e => e.2.txid == txid && db.youngerThan e.2.createdAt 60) then
    .ok ((0, 0), db)
  else if db.payoutsOf txid = [] then .ok ((0, 0), db)
  else do
    let rows := db.payoutsOf txid
    let db₁ ← settleItems .paid .pending
      (fun m amount => s!"auto-void aborted: miner {m} paid < {amount} for txid {txid}")
      (fun _ _ db => db) db rows
    .ok ((rows.length, (rows.map (·.2)).sum), (db₁.deletePayouts txid).failVoided txid)

/-! ## What the operations do -/

/-- Sum of the payout items of miner `m` over all attempts. -/
def reserved (db : PoolDb) (m : MinerId) : ℤ :=
  db.payoutItems.sum (fun r => if r.minerId = m then r.amount else 0)

/-- Sum of the payout rows of miner `m`. -/
def paidOut (db : PoolDb) (m : MinerId) : ℤ :=
  db.payouts.sum (fun r => if r.minerId = m then r.amount else 0)

/-- Reserving is a batch of guarded transfers over the pairs it returns, with an item for each;
    the pairs are the requested ones, in order, without those it skipped. -/
theorem reservePayout_spec {attemptId : AttemptId} {items : List (MinerId × ℤ)} {db db' : PoolDb}
    {pairs : List (MinerId × ℤ)} (h : reservePayout attemptId db items = .ok (pairs, db')) :
    ∃ bal its, db' = { db with balances := bal, payoutItems := its } ∧
      its.values = db.payoutItems.values ++ pairs.map (fun e => ⟨attemptId, e.1, e.2⟩) ∧
      moveAll? .pending .paying db.books pairs = some db'.books ∧
      pairs.Sublist items ∧ ∀ e ∈ pairs, 0 < e.2 := by
  induction items generalizing db pairs with
  | nil =>
    cases h
    exact ⟨_, _, rfl, by simp, rfl, List.Sublist.refl _, by simp⟩
  | cons e items ih =>
    obtain ⟨m, amount⟩ := e
    simp only [reservePayout] at h
    split at h
    · obtain ⟨bal, its, hdb, hits, hmove, hsub, hpos⟩ := ih h
      exact ⟨bal, its, hdb, hits, hmove, hsub.cons _, hpos⟩
    · rename_i hamount
      split at h
      · obtain ⟨bal, its, hdb, hits, hmove, hsub, hpos⟩ := ih h
        exact ⟨bal, its, hdb, hits, hmove, hsub.cons _, hpos⟩
      · rename_i db₁ htr
        simp only [insertItem, bind, Except.bind] at h
        split at h
        · cases h
        · rename_i db₂ hins
          split at hins
          · cases hins
            split at h
            · cases h
            · rename_i r hr
              cases h
              obtain ⟨bal, its, hdb, hits, hmove, hsub, hpos⟩ := ih hr
              obtain ⟨hcov, hbooks⟩ := books_transfer (by decide) htr
              obtain ⟨t, -, rfl⟩ := transfer_frame htr
              refine ⟨bal, its, hdb, ?_, ?_, hsub.cons_cons _, ?_⟩
              · rw [hits]
                simp
              · simp only [moveAll?, move?, if_pos hcov, Option.bind_some, ← hbooks]
                exact hmove
              · intro e he
                rcases List.mem_cons.1 he with rfl | he
                · exact not_le.1 hamount
                · exact hpos e he
          · cases hins

section SettleItems

variable {src dst : Bucket} {message : MinerId → ℤ → String}
  {record : MinerId → ℤ → PoolDb → PoolDb}

/-- The settlement loop is a batch of guarded transfers, with `record` run for every row. -/
theorem settleItems_spec (hne : src ≠ dst)
    (hcomm : ∀ m a (db : PoolDb) bal,
      record m a { db with balances := bal } = { record m a db with balances := bal })
    {items : List (MinerId × ℤ)} {db db' : PoolDb}
    (h : settleItems src dst message record db items = .ok db') :
    moveAll? src dst db.books items = some db'.books ∧
      ∃ bal, db' = { items.foldl (fun db e => record e.1 e.2 db) db with balances := bal } := by
  have hbal : ∀ m a (db : PoolDb), (record m a db).books = db.books := by
    intro m a db
    apply books_eq_of_balances
    have := congrArg PoolDb.balances (hcomm m a db db.balances)
    exact this
  have hfold : ∀ (l : List (MinerId × ℤ)) (db : PoolDb) bal,
      l.foldl (fun db e => record e.1 e.2 db) { db with balances := bal }
        = { l.foldl (fun db e => record e.1 e.2 db) db with balances := bal } := by
    intro l
    induction l with
    | nil => exact fun _ _ => rfl
    | cons e l ih =>
      intro db bal
      rw [List.foldl_cons, List.foldl_cons, hcomm, ih]
  induction items generalizing db with
  | nil =>
    cases h
    exact ⟨rfl, _, rfl⟩
  | cons e items ih =>
    obtain ⟨m, amount⟩ := e
    simp only [settleItems] at h
    split at h
    · cases h
    · rename_i db₁ htr
      obtain ⟨hcov, hbooks⟩ := books_transfer hne htr
      obtain ⟨hmove, bal, hdb⟩ := ih h
      obtain ⟨t, -, rfl⟩ := transfer_frame htr
      rw [hbal, hbooks] at hmove
      refine ⟨?_, bal, ?_⟩
      · simp only [moveAll?, move?, if_pos hcov, Option.bind_some]
        exact hmove
      · rw [hdb, hcomm, hfold]
        rfl

/-- It succeeds exactly when every miner it names covers its rows. -/
theorem settleItems_ok_iff (hne : src ≠ dst)
    (hbal : ∀ m a (db : PoolDb), (record m a db).balances = db.balances)
    {items : List (MinerId × ℤ)} {db : PoolDb} (hpos : ∀ e ∈ items, 0 < e.2) :
    (∃ db', settleItems src dst message record db items = .ok db') ↔
      ∀ e ∈ items, demand items e.1 ≤ db.books e.1 src := by
  rw [← moveAll?_isSome hne fun e he => (hpos e he).le]
  induction items generalizing db with
  | nil => simp [settleItems, moveAll?]
  | cons e items ih =>
    obtain ⟨m, amount⟩ := e
    have hamount : 0 < amount := hpos (m, amount) List.mem_cons_self
    simp only [settleItems, moveAll?, move?]
    split
    · rename_i htr
      rw [transfer_eq_none_iff hamount] at htr
      rw [if_neg (by omega)]
      simp
    · rename_i db₁ htr
      obtain ⟨hcov, hbooks⟩ := books_transfer hne htr
      rw [if_pos hcov, Option.bind_some, ← hbooks, ih fun x hx => hpos x (List.mem_cons_of_mem _ hx),
        books_eq_of_balances (hbal m amount db₁)]

end SettleItems

theorem foldl_insertPayout (txid : String) (items : List (MinerId × ℤ)) (db : PoolDb) :
    ∃ pays, items.foldl (fun db e => db.insertPayout e.1 txid e.2) db
        = { db with payouts := pays } ∧
      pays.values = db.payouts.values ++ items.map (fun e => ⟨e.1, txid, e.2, db.now⟩) := by
  induction items generalizing db with
  | nil => exact ⟨_, rfl, by simp⟩
  | cons e items ih =>
    obtain ⟨pays, hdb, hpays⟩ := ih (db.insertPayout e.1 txid e.2)
    refine ⟨pays, by rw [List.foldl_cons, hdb]; rfl, ?_⟩
    rw [hpays]
    simp [insertPayout]

theorem foldl_record_nothing (items : List (MinerId × ℤ)) (db : PoolDb) :
    items.foldl (fun db _ => db) db = db := by
  induction items with
  | nil => rfl
  | cons _ _ ih => exact ih

/-- **What a confirmation does.** -/
theorem confirmPayout_spec {db db' : PoolDb} {attemptId : AttemptId} {txid : String} {n : ℕ}
    (h : db.confirmPayout attemptId txid = .ok (n, db')) :
    n = (db.itemsOf attemptId).length ∧ ∃ bal pays,
      db' = { db with
        balances := bal
        payouts := pays
        payoutItems := db.payoutItems.filter (fun r => r.attemptId != attemptId) } ∧
      pays.values = db.payouts.values ++
        (db.itemsOf attemptId).map (fun e => ⟨e.1, txid, e.2, db.now⟩) ∧
      moveAll? .paying .paid db.books (db.itemsOf attemptId) = some db'.books := by
  simp only [confirmPayout, bind, Except.bind] at h
  split at h
  · cases h
  · rename_i db₁ h₁
    cases h
    obtain ⟨hmove, bal, hdb⟩ := settleItems_spec (by decide) (fun _ _ _ _ => rfl) h₁
    obtain ⟨pays, hfold, hpays⟩ := foldl_insertPayout txid (db.itemsOf attemptId) db
    rw [hfold] at hdb
    subst hdb
    exact ⟨rfl, bal, pays, rfl, hpays, hmove⟩

/-- **What a refund does.** -/
theorem refundPayout_spec {db db' : PoolDb} {attemptId : AttemptId} {n : ℕ}
    (h : db.refundPayout attemptId = .ok (n, db')) :
    n = (db.itemsOf attemptId).length ∧ ∃ bal,
      db' = { db with
        balances := bal
        payoutItems := db.payoutItems.filter (fun r => r.attemptId != attemptId) } ∧
      moveAll? .paying .pending db.books (db.itemsOf attemptId) = some db'.books := by
  simp only [refundPayout, bind, Except.bind] at h
  split at h
  · cases h
  · rename_i db₁ h₁
    cases h
    obtain ⟨hmove, bal, hdb⟩ := settleItems_spec (by decide) (fun _ _ _ _ => rfl) h₁
    rw [foldl_record_nothing] at hdb
    subst hdb
    exact ⟨rfl, bal, rfl, hmove⟩

/-- **What an auto-void does**: nothing, or the return of every payout row of the transaction. -/
theorem voidReorgedPayout_cases {db db' : PoolDb} {txid : String} {out : ℕ × ℤ}
    (h : db.voidReorgedPayout txid = .ok (out, db')) :
    (out = (0, 0) ∧ db' = db) ∨
    (db.payouts.rows.any (fun e => e.2.txid == txid && db.youngerThan e.2.createdAt 60) = false ∧
      ∃ bal, db' = PoolDb.failVoided { db with
          balances := bal
          payouts := db.payouts.filter (fun r => r.txid != txid) } txid ∧
        moveAll? .paid .pending db.books (db.payoutsOf txid) = some db'.books) := by
  unfold voidReorgedPayout at h
  split at h
  · cases h
    exact .inl ⟨rfl, rfl⟩
  · rename_i hfresh
    split at h
    · cases h
      exact .inl ⟨rfl, rfl⟩
    · simp only [bind, Except.bind] at h
      split at h
      · cases h
      · rename_i db₁ h₁
        cases h
        obtain ⟨hmove, bal, hdb⟩ := settleItems_spec (by decide) (fun _ _ _ _ => rfl) h₁
        rw [foldl_record_nothing] at hdb
        subst hdb
        exact .inr ⟨by simpa using hfresh, bal, rfl, hmove⟩

/-- **What a direct payout does.** -/
theorem createPayout_spec {db db' : PoolDb} {m : MinerId} {amount : ℤ} {txid : String} {n : ℕ}
    (h : db.createPayout m amount txid = .ok (n, db')) :
    amount ≤ db.books m .pending ∧ ∃ bal,
      db' = { db with balances := bal, payouts := db.payouts.insert ⟨m, txid, amount, db.now⟩ } ∧
      db'.books = move db.books .pending .paid m amount := by
  unfold createPayout at h
  split at h
  · cases h
  · rename_i db₁ htr
    cases h
    obtain ⟨hcov, hbooks⟩ := books_transfer (by decide) htr
    obtain ⟨t, -, rfl⟩ := transfer_frame htr
    exact ⟨hcov, t, rfl, hbooks⟩

/-! ### When they succeed -/

theorem exists_bind_ok {α β : Type} {x : Except DbError α} {f : α → β} :
    (∃ r, (x >>= fun a => Except.ok (f a)) = Except.ok r) ↔ ∃ a, x = .ok a := by
  cases x <;> simp [bind, Except.bind]

/-- A confirmation settles exactly when every miner's `paying` covers the attempt's items. -/
theorem confirmPayout_ok_iff {db : PoolDb} {attemptId : AttemptId}
    (hpos : ∀ e ∈ db.itemsOf attemptId, 0 < e.2) (txid : String) :
    (∃ r, db.confirmPayout attemptId txid = .ok r) ↔
      ∀ e ∈ db.itemsOf attemptId,
        demand (db.itemsOf attemptId) e.1 ≤ db.books e.1 .paying := by
  have hne : Bucket.paying ≠ Bucket.paid := by decide
  unfold confirmPayout
  rw [exists_bind_ok]
  apply settleItems_ok_iff hne _ hpos
  intro _ _ _
  rfl

/-- A refund goes through under the same condition. -/
theorem refundPayout_ok_iff {db : PoolDb} {attemptId : AttemptId}
    (hpos : ∀ e ∈ db.itemsOf attemptId, 0 < e.2) :
    (∃ r, db.refundPayout attemptId = .ok r) ↔
      ∀ e ∈ db.itemsOf attemptId,
        demand (db.itemsOf attemptId) e.1 ≤ db.books e.1 .paying := by
  have hne : Bucket.paying ≠ Bucket.pending := by decide
  unfold refundPayout
  rw [exists_bind_ok]
  apply settleItems_ok_iff hne _ hpos
  intro _ _ _
  rfl

theorem voidReorgedPayout_ok {db : PoolDb} {txid : String}
    (hpos : ∀ e ∈ db.payoutsOf txid, 0 < e.2)
    (hcov : ∀ e ∈ db.payoutsOf txid, demand (db.payoutsOf txid) e.1 ≤ db.books e.1 .paid) :
    ∃ r, db.voidReorgedPayout txid = .ok r := by
  unfold voidReorgedPayout
  split
  · exact ⟨_, rfl⟩
  · split
    · exact ⟨_, rfl⟩
    · rw [exists_bind_ok]
      have hne : Bucket.paid ≠ Bucket.pending := by decide
      apply (settleItems_ok_iff hne _ hpos).2 hcov
      intro _ _ _
      rfl

/-! ### Sums over the deleted rows -/

theorem reserved_filter (db : PoolDb) (attemptId : AttemptId) (m : MinerId) :
    (db.payoutItems.filter (fun r => r.attemptId != attemptId)).sum
        (fun r => if r.minerId = m then r.amount else 0) + demand (db.itemsOf attemptId) m
      = db.reserved m := by
  have hitems : db.itemsOf attemptId
      = (db.payoutItems.values.filter (fun r => r.attemptId == attemptId)).map
          (fun r => (r.minerId, r.amount)) := by
    simp [itemsOf, Auto.values, List.filter_map, Function.comp_def]
  rw [hitems, Auto.sum_values, reserved, Auto.sum_values, Auto.values_filter]
  exact sum_filter_not_add_demand _ (fun r : PayoutItem => r.attemptId == attemptId) _ _ _

theorem paidOut_filter (db : PoolDb) (txid : String) (m : MinerId) :
    (db.payouts.filter (fun r => r.txid != txid)).sum
        (fun r => if r.minerId = m then r.amount else 0) + demand (db.payoutsOf txid) m
      = db.paidOut m := by
  have hrows : db.payoutsOf txid
      = (db.payouts.values.filter (fun r => r.txid == txid)).map
          (fun r => (r.minerId, r.amount)) := by
    simp [payoutsOf, Auto.values, List.filter_map, Function.comp_def]
  rw [hrows, Auto.sum_values, paidOut, Auto.sum_values, Auto.values_filter]
  exact sum_filter_not_add_demand _ (fun r : Payout => r.txid == txid) _ _ _

theorem demand_itemsOf_le {db : PoolDb} (h : ∀ r ∈ db.payoutItems.values, 0 < r.amount)
    (attemptId : AttemptId) (m : MinerId) : demand (db.itemsOf attemptId) m ≤ db.reserved m := by
  rw [← reserved_filter db attemptId m]
  have : 0 ≤ (db.payoutItems.filter (fun r => r.attemptId != attemptId)).sum
      (fun r => if r.minerId = m then r.amount else 0) := by
    refine Auto.sum_nonneg fun e he => ?_
    have := h e.2 (Auto.mem_values.2 ⟨e.1, List.mem_of_mem_filter he⟩)
    split <;> omega
  omega

theorem demand_payoutsOf_le {db : PoolDb} (h : ∀ r ∈ db.payouts.values, 0 < r.amount)
    (txid : String) (m : MinerId) : demand (db.payoutsOf txid) m ≤ db.paidOut m := by
  rw [← paidOut_filter db txid m]
  have : 0 ≤ (db.payouts.filter (fun r => r.txid != txid)).sum
      (fun r => if r.minerId = m then r.amount else 0) := by
    refine Auto.sum_nonneg fun e he => ?_
    have := h e.2 (Auto.mem_values.2 ⟨e.1, List.mem_of_mem_filter he⟩)
    split <;> omega
  omega

end PoolDb

end ZcashMiningPool
