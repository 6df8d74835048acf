import Mathlib.Data.List.Sort
import ZcashMiningPool.Db.Schema
import ZcashMiningPool.Library.Rounding

/-!
# Miners, blocks and credits

The identity, block and credit queries of `pool-db/src/queries.rs`.

* `getOrCreateMiner`, `getOrCreateWorker`, `recordBlock`, `updateBlockStatus`.
* `distributeBlockCredits` — credit rows and pending balances in one transaction.
* `reverseBlockCreditsPrecise` — the reversal of exactly the credited amounts; what `pending`
  cannot cover becomes an `orphan_clawbacks` row.
* `orphanBlock` — the precise reversal, or the proportional one when the block has no credit
  rows, together with the status flip.
* `creditBalance`, `adjustMinerBalance`, `getOrCreateBalance` — the unledgered adjustments.

Each loop has one spec lemma that says which tables it writes and what it does to the books.
-/

set_option autoImplicit false

namespace ZcashMiningPool

open Table Buckets

namespace PoolDb

/-! ## Miners and workers -/

/-- The miner with this address, created if there is none. -/
def getOrCreateMiner (db : PoolDb) (address : String) : MinerId × PoolDb :=
  match db.miners.find? (fun r => r.address == address) with
  | some (id, _) => (id, db)
  | none => (db.miners.next, { db with miners := db.miners.insert ⟨address, db.now⟩ })

/-- The worker with this name, created if there is none; its `last_seen` is refreshed. -/
def getOrCreateWorker (db : PoolDb) (minerId : MinerId) (name : String) :
    Except DbError ((WorkerId × Worker) × PoolDb) :=
  match db.workers.find? (fun r => r.minerId == minerId && r.name == name) with
  | some (id, w) =>
    .ok ((id, { w with lastSeen := db.now }),
      { db with workers := db.workers.modify id (fun r => { r with lastSeen := db.now }) })
  | none =>
    if db.miners.has minerId then
      .ok ((db.workers.next, ⟨minerId, name, db.now, none⟩),
        { db with workers := db.workers.insert ⟨minerId, name, db.now, none⟩ })
    else .error (.sqlx .foreignKey)

/-! ## Blocks -/

def recordBlock (db : PoolDb) (height : ℤ) (hash : String) (reward : ℤ)
    (actualReward : Option ℤ) (foundBy : WorkerId) (luckPercent : Option ℚ) :
    Except DbError (BlockId × PoolDb) :=
  if (db.blocks.find? (fun r => r.hash == hash)).isSome then .error (.sqlx .uniqueKey)
  else if db.workers.has foundBy then
    .ok (db.blocks.next,
      { db with
        blocks := db.blocks.insert
          ⟨height, hash, reward, actualReward, .pending, foundBy, luckPercent, 0, db.now⟩ })
  else .error (.sqlx .foreignKey)

/-- `UPDATE blocks SET status = ? WHERE id = ?`. -/
def updateBlockStatus (db : PoolDb) (blockId : BlockId) (status : BlockStatus) : PoolDb :=
  { db with blocks := db.blocks.modify blockId (fun r => { r with status := status }) }

/-- The block's status, if it is recorded. -/
def statusOf (db : PoolDb) (blockId : BlockId) : Option BlockStatus :=
  (db.blocks.get? blockId).map (·.status)

/-! ## Crediting -/

/-- `INSERT INTO block_credits (block_id, miner_id, amount)`. -/
def insertBlockCredit (db : PoolDb) (blockId : BlockId) (m : MinerId) (amount : ℤ) :
    Except DbError PoolDb :=
  if db.blocks.has blockId then
    match db.blockCredits.insert? (blockId, m) amount with
    | some t => .ok { db with blockCredits := t }
    | none => .error (.sqlx .uniqueKey)
  else .error (.sqlx .foreignKey)

def distributeBlockCredits (blockId : BlockId) :
    PoolDb → List (MinerId × ℤ) → Except DbError PoolDb
  | db, [] => .ok db
  | db, (m, amount) :: credits => do
    let db₁ ← db.insertBalance m
    let db₂ ← db₁.insertBlockCredit blockId m amount
    distributeBlockCredits blockId (db₂.updatePending m (· + amount)) credits

/-- The credit rows of a block. -/
def creditsOf (db : PoolDb) (blockId : BlockId) : List (MinerId × ℤ) :=
  (db.blockCredits.rows.filter (fun e => e.1.1 == blockId)).map (fun e => (e.1.2, e.2))

/-- `SELECT miner_id, amount FROM block_credits WHERE block_id = ?`: along the primary key, miner by
    miner. -/
def creditsByMiner (db : PoolDb) (blockId : BlockId) : List (MinerId × ℤ) :=
  (db.creditsOf blockId).insertionSort (fun a b => a.1 ≤ b.1)

/-! ## Reversal -/

/-- How much of a credit `pending` can give back. -/
def recoverable (amount pending : ℤ) : ℤ := max (min amount pending) 0

/-- The debit of one reversed credit. -/
def debitRecovered (db : PoolDb) (m : MinerId) (recovered : ℤ) : PoolDb :=
  if 0 < recovered then db.updatePending m (· - recovered) else db

/-- `INSERT INTO orphan_clawbacks`, when something is missing. -/
def insertClawback (db : PoolDb) (blockId : BlockId) (m : MinerId) (shortfall : ℤ) : PoolDb :=
  if 0 < shortfall then
    { db with
      orphanClawbacks := db.orphanClawbacks.insert ⟨blockId, m, shortfall, false, none, db.now⟩ }
  else db

/-- One credit row: debit what `pending` covers, claw back the rest. -/
def reverseCredit (blockId : BlockId) (s : PoolDb × ℤ × ℤ) (credit : MinerId × ℤ) :
    PoolDb × ℤ × ℤ :=
  let (db, reversed, clawback) := s
  let (m, amount) := credit
  let recovered := recoverable amount (db.books m .pending)
  let shortfall := amount - recovered
  ((db.debitRecovered m recovered).insertClawback blockId m shortfall,
    if 0 < recovered then reversed + recovered else reversed,
    if 0 < shortfall then clawback + shortfall else clawback)

/-- `DELETE FROM block_credits WHERE block_id = ?`. -/
def deleteBlockCredits (db : PoolDb) (blockId : BlockId) : PoolDb :=
  { db with blockCredits := db.blockCredits.filter (fun k _ => k.1 != blockId) }

/-- The costs the block absorbed go back into the queue, and its stamp is cleared. -/
def requeueCosts (db : PoolDb) (blockId : BlockId) (recovered : ℤ) : PoolDb :=
  if 0 < recovered then
    { db with
      poolTxCosts := db.poolTxCosts.insert ⟨.reorphaned, s!"block:{blockId}", recovered, false⟩
      blocks := db.blocks.modify blockId (fun r => { r with costsRecovered := 0 }) }
  else db

/-- `None` when the block has no credit rows, else (reversed, clawed back). -/
def reverseBlockCreditsPrecise (db : PoolDb) (blockId : BlockId) :
    Except DbError (Option (ℤ × ℤ) × PoolDb) :=
  if db.creditsByMiner blockId = [] then .ok (none, db)
  else
    let (db₁, reversed, clawback) :=
      (db.creditsByMiner blockId).foldl (reverseCredit blockId) (db, 0, 0)
    let db₂ := db₁.deleteBlockCredits blockId
    match db₂.blocks.get? blockId with
    | none => .error (.sqlx .rowNotFound)
    | some b =>
      .ok (some (reversed, clawback), db₂.requeueCosts blockId b.costsRecovered)

/-! ## The proportional reversal -/

/-- An SQLite `REAL` is a binary64. -/
def real (x : ℚ) : ℚ := Rounding.round 52 x

/-- `CAST(pending * 1.0 * reversal / total AS INTEGER)`. -/
def proportionalShare (pending reversal total : ℤ) : ℤ :=
  Rounding.trunc (real (real (real pending * real reversal) / real total))

/-- `SELECT COALESCE(SUM(pending), 0) FROM balances WHERE pending > 0`. -/
def totalPending (db : PoolDb) : ℤ :=
  db.balances.sum (fun _ b => if 0 < b.pending then b.pending else 0)

/-- What one balance row keeps of its `pending` when `reversal` of `total` is taken back. -/
def proportionalDebit (reversal total : ℤ) (b : Balance) : Balance :=
  if 0 < b.pending then
    { b with pending := max 0 (b.pending - proportionalShare b.pending reversal total) }
  else b

/-- Legacy reversal over all miners with pending balance. -/
def reverseProportionally (db : PoolDb) (blockReward : ℤ) : PoolDb :=
  if 0 < db.totalPending then
    { db with
      balances := db.balances.modifyAll
        (fun _ => proportionalDebit (min blockReward db.totalPending) db.totalPending) }
  else db

/-- Reverse the block's credits and flip its status, atomically. -/
def orphanBlock (db : PoolDb) (blockId : BlockId) (blockReward : ℤ) :
    Except DbError (Option (ℤ × ℤ) × PoolDb) := do
  let (outcome, db₁) ← db.reverseBlockCreditsPrecise blockId
  let db₂ := match outcome with
    | none => db₁.reverseProportionally blockReward
    | some _ => db₁
  .ok (outcome, db₂.updateBlockStatus blockId .orphaned)

/-! ## Clawbacks -/

/-- Record the operator's decision for all unacknowledged clawbacks. -/
def acknowledgeClawbacks (db : PoolDb) (note : String) : PoolDb :=
  { db with
    orphanClawbacks := db.orphanClawbacks.modifyAll (fun _ r =>
      if r.acknowledged then r else { r with acknowledged := true, ackNote := some note }) }

/-- Acknowledge only the clawbacks of one block. -/
def acknowledgeClawbacksForBlock (db : PoolDb) (blockId : BlockId) (note : String) : PoolDb :=
  { db with
    orphanClawbacks := db.orphanClawbacks.modifyAll (fun _ r =>
      if !r.acknowledged && r.blockId == blockId then
        { r with acknowledged := true, ackNote := some note } else r) }

/-! ## Unledgered adjustments -/

def creditBalance (db : PoolDb) (m : MinerId) (amount : ℤ) : Except DbError PoolDb := do
  let db₁ ← db.insertBalance m
  .ok (db₁.updatePending m (· + amount))

/-- Adjust pending by a delta, clamped at zero; returns the new pending. -/
def adjustMinerBalance (db : PoolDb) (m : MinerId) (delta : ℤ) : Except DbError (ℤ × PoolDb) := do
  let db₁ ← db.insertBalance m
  let db₂ := db₁.updatePending m (fun pending => max 0 (pending + delta))
  .ok (db₂.books m .pending, db₂)

def getOrCreateBalance (db : PoolDb) (m : MinerId) : Except DbError (Balance × PoolDb) := do
  let db₁ ← db.insertBalance m
  .ok ((db₁.balances.get? m).getD Balance.zero, db₁)

/-! ## What the operations do

`clawed` and the books are the two figures a reversal moves. -/

/-- Sum of the clawback rows of miner `m`. -/
def clawed (db : PoolDb) (m : MinerId) : ℤ :=
  db.orphanClawbacks.sum (fun r => if r.minerId = m then r.amount else 0)

theorem insertBlockCredit_ok {db db' : PoolDb} {blockId : BlockId} {m : MinerId} {amount : ℤ}
    (h : db.insertBlockCredit blockId m amount = .ok db') :
    ∃ t, db.blocks.has blockId = true ∧ db' = { db with blockCredits := t } ∧
      t.rows = db.blockCredits.rows ++ [((blockId, m), amount)] := by
  unfold insertBlockCredit at h
  split at h
  · rename_i hb
    split at h
    · rename_i t ht
      cases h
      exact ⟨t, hb, rfl, (Keyed.insert?_eq_some_rows ht).2⟩
    · cases h
  · cases h

/-- **What one credit does**: a credit row, and its amount in `pending`. -/
theorem credit_spec {db db₁ db₂ : PoolDb} {blockId : BlockId} {m : MinerId} {amount : ℤ}
    (h₁ : db.insertBalance m = .ok db₁) (h₂ : db₁.insertBlockCredit blockId m amount = .ok db₂) :
    ∃ bal cr, db₂.updatePending m (· + amount) = { db with balances := bal, blockCredits := cr } ∧
      cr.rows = db.blockCredits.rows ++ [((blockId, m), amount)] ∧
      (∀ m' k, (db₂.updatePending m (· + amount)).books m' k
        = db.books m' k + if m' = m ∧ k = .pending then amount else 0) ∧
      db.blocks.has blockId = true := by
  obtain ⟨t, hb, rfl, hrows⟩ := insertBlockCredit_ok h₂
  have hm : db₁.balances.get? m ≠ none := balances_insertBalance h₁
  have hbooks : ({ db₁ with blockCredits := t } : PoolDb).books = db.books :=
    Eq.trans (b := db₁.books) (books_eq_of_balances rfl) (books_insertBalance h₁)
  have hmove := books_updatePending { db₁ with blockCredits := t } m (· + amount) hm
  rw [hbooks] at hmove
  obtain rfl := insertBalance_ok h₁
  refine ⟨_, t, rfl, hrows, fun m' k => ?_, hb⟩
  rw [hmove]
  split
  · rename_i he
    rw [he.1, he.2]
  · omega

theorem distributeBlockCredits_spec {blockId : BlockId} {credits : List (MinerId × ℤ)}
    {db db' : PoolDb} (h : distributeBlockCredits blockId db credits = .ok db') :
    ∃ bal cr, db' = { db with balances := bal, blockCredits := cr } ∧
      cr.rows = db.blockCredits.rows ++ credits.map (fun e => ((blockId, e.1), e.2)) ∧
      (∀ m k, db'.books m k = db.books m k + if k = .pending then demand credits m else 0) ∧
      (credits ≠ [] → db.blocks.has blockId = true) := by
  induction credits generalizing db with
  | nil =>
    cases h
    exact ⟨_, _, rfl, by simp, by simp, fun hne => absurd rfl hne⟩
  | cons credit credits ih =>
    obtain ⟨m, amount⟩ := credit
    simp only [distributeBlockCredits, bind, Except.bind] at h
    split at h
    · cases h
    · rename_i db₁ h₁
      split at h
      · cases h
      · rename_i db₂ h₂
        obtain ⟨bal, cr, hdb, hrow, hcredit, hb⟩ := credit_spec h₁ h₂
        obtain ⟨bal', cr', hdb', hrows, hbooks, -⟩ := ih h
        rw [hdb] at hdb' hrows
        refine ⟨bal', cr', hdb', ?_, fun m' k => ?_, fun _ => hb⟩
        · rw [hrows]
          simp [hrow]
        · rw [hbooks, hcredit, demand_cons]
          simp only [eq_comm (a := m)]
          by_cases hk : k = .pending
          · simp only [hk, and_true, if_true]
            omega
          · simp only [hk, and_false, if_false]
            omega

/-- The rows a distribution adds are its credits. -/
theorem creditsOf_distribute {db db' : PoolDb} {blockId : BlockId} {credits : List (MinerId × ℤ)}
    (h : distributeBlockCredits blockId db credits = .ok db') (b : BlockId) :
    db'.creditsOf b = db.creditsOf b ++ if b = blockId then credits else [] := by
  obtain ⟨bal, cr, rfl, hrows, -⟩ := distributeBlockCredits_spec h
  unfold creditsOf
  rw [hrows, List.filter_append, List.map_append]
  congr 1
  split
  · rename_i hb
    subst hb
    simp [List.filter_map, Function.comp_def]
  · rename_i hb
    simp [List.filter_map, Function.comp_def, Ne.symm hb]

theorem creditsOf_congr {db db' : PoolDb} (h : db'.blockCredits = db.blockCredits)
    (b : BlockId) : db'.creditsOf b = db.creditsOf b := by
  unfold creditsOf
  rw [h]

theorem creditsOf_filter {db db' : PoolDb} {blockId : BlockId}
    (h : db'.blockCredits = db.blockCredits.filter (fun k _ => k.1 != blockId)) (b : BlockId) :
    db'.creditsOf b = if b = blockId then [] else db.creditsOf b := by
  unfold creditsOf
  rw [h]
  simp only [Keyed.filter, List.filter_filter]
  split
  · rename_i he
    subst he
    rw [List.map_eq_nil_iff, List.filter_eq_nil_iff]
    intro e _
    simp
  · rename_i hne
    congr 1
    apply List.filter_congr
    intro e _
    by_cases hb : e.1.1 = b
    · simp [hb, hne]
    · simp [hb]

/-! ### Reversal -/

theorem recoverable_nonneg (amount pending : ℤ) : 0 ≤ recoverable amount pending :=
  le_max_right _ _

theorem recoverable_le_amount {amount : ℤ} (h : 0 ≤ amount) (pending : ℤ) :
    recoverable amount pending ≤ amount := max_le (min_le_left _ _) h

theorem recoverable_le_pending {pending : ℤ} (h : 0 ≤ pending) (amount : ℤ) :
    recoverable amount pending ≤ pending := max_le (min_le_right _ _) h

theorem recoverable_eq_amount {amount pending : ℤ} (h₀ : 0 ≤ amount) (h : amount ≤ pending) :
    recoverable amount pending = amount := by
  unfold recoverable
  rw [min_eq_left h, max_eq_left h₀]

theorem debitRecovered_spec {db : PoolDb} {m : MinerId} {x : ℤ} (hx : 0 ≤ x)
    (hm : 0 < x → db.balances.get? m ≠ none) :
    ∃ bal, db.debitRecovered m x = { db with balances := bal } ∧
      ∀ m' k, (db.debitRecovered m x).books m' k
        = db.books m' k - if m' = m ∧ k = .pending then x else 0 := by
  unfold debitRecovered
  split
  · rename_i hpos
    refine ⟨_, rfl, fun m' k => ?_⟩
    rw [books_updatePending _ _ _ (hm hpos)]
    split
    · rename_i he
      rw [he.1, he.2]
    · omega
  · refine ⟨_, rfl, fun m' k => ?_⟩
    split <;> omega

theorem insertClawback_spec (db : PoolDb) (blockId : BlockId) (m : MinerId) (x : ℤ) :
    ∃ cl, db.insertClawback blockId m x = { db with orphanClawbacks := cl } ∧
      (∀ m', (db.insertClawback blockId m x).clawed m'
        = db.clawed m' + if m' = m then max 0 x else 0) ∧
      (x ≤ 0 → cl = db.orphanClawbacks) := by
  unfold insertClawback
  split
  · refine ⟨_, rfl, fun m' => ?_, fun h => by omega⟩
    simp only [clawed, Auto.sum_insert, eq_comm (a := m)]
    split <;> omega
  · refine ⟨_, rfl, fun m' => ?_, fun _ => rfl⟩
    split <;> omega

/-- **What one credit row does in reverse**: `pending` gives back what it can, the rest is
    clawed back. -/
theorem reverseCredit_spec (blockId : BlockId) (db : PoolDb) (r c : ℤ) (e : MinerId × ℤ) :
    ∃ bal cl, (reverseCredit blockId (db, r, c) e).1
        = { db with balances := bal, orphanClawbacks := cl } ∧
      (∀ m k, (reverseCredit blockId (db, r, c) e).1.books m k = db.books m k -
        if m = e.1 ∧ k = .pending then recoverable e.2 (db.books e.1 .pending) else 0) ∧
      (∀ m, (reverseCredit blockId (db, r, c) e).1.clawed m = db.clawed m +
        if m = e.1 then max 0 (e.2 - recoverable e.2 (db.books e.1 .pending)) else 0) ∧
      (e.2 ≤ recoverable e.2 (db.books e.1 .pending) → cl = db.orphanClawbacks) := by
  -- a positive recovery needs a balance row
  have hrow : 0 < recoverable e.2 (db.books e.1 .pending) → db.balances.get? e.1 ≠ none := by
    intro hpos hn
    have h0 : db.books e.1 .pending = 0 := by simp [books, hn]
    rw [h0] at hpos
    unfold recoverable at hpos
    omega
  obtain ⟨bal, hbal, hbooks⟩ := debitRecovered_spec (recoverable_nonneg _ _) hrow
  obtain ⟨cl, hcl, hclawed, hnone⟩ := insertClawback_spec
    (db.debitRecovered e.1 (recoverable e.2 (db.books e.1 .pending))) blockId e.1
    (e.2 - recoverable e.2 (db.books e.1 .pending))
  have hdb : (reverseCredit blockId (db, r, c) e).1
      = (db.debitRecovered e.1 (recoverable e.2 (db.books e.1 .pending))).insertClawback blockId
        e.1 (e.2 - recoverable e.2 (db.books e.1 .pending)) := rfl
  rw [hdb]
  refine ⟨bal, cl, ?_, fun m k => ?_, fun m => ?_, fun h => ?_⟩
  · rw [hcl, hbal]
  · rw [← hbooks m k, hcl]
    rfl
  · rw [hclawed m, hbal]
    rfl
  · rw [hnone (by omega), hbal]

/-- The database after the reversal loop over the rows `l`. -/
def reverseRows (blockId : BlockId) (db : PoolDb) (l : List (MinerId × ℤ)) : PoolDb :=
  (l.foldl (reverseCredit blockId) (db, 0, 0)).1

section ReverseRows

variable {blockId : BlockId}

/-- The loop's totals do not feed back into the database. -/
theorem foldl_reverseCredit_fst (l : List (MinerId × ℤ)) (db : PoolDb) (r c : ℤ) :
    (l.foldl (reverseCredit blockId) (db, r, c)).1 = reverseRows blockId db l := by
  unfold reverseRows
  suffices h : ∀ (l : List (MinerId × ℤ)) (s t : PoolDb × ℤ × ℤ), s.1 = t.1 →
      (l.foldl (reverseCredit blockId) s).1 = (l.foldl (reverseCredit blockId) t).1 by
    exact h l _ _ rfl
  intro l
  induction l with
  | nil => exact fun _ _ h => h
  | cons e l ih =>
    rintro ⟨db, r, c⟩ ⟨db', r', c'⟩ h
    cases h
    exact ih _ _ rfl

theorem reverseRows_cons (db : PoolDb) (e : MinerId × ℤ) (l : List (MinerId × ℤ)) :
    reverseRows blockId db (e :: l)
      = reverseRows blockId (reverseCredit blockId (db, 0, 0) e).1 l := by
  rw [← foldl_reverseCredit_fst l _ (reverseCredit blockId (db, 0, 0) e).2.1
    (reverseCredit blockId (db, 0, 0) e).2.2]
  rfl

theorem reverseRows_frame (blockId : BlockId) (db : PoolDb) (l : List (MinerId × ℤ)) :
    ∃ bal cl, reverseRows blockId db l = { db with balances := bal, orphanClawbacks := cl } := by
  induction l generalizing db with
  | nil => exact ⟨_, _, rfl⟩
  | cons e l ih =>
    obtain ⟨bal, cl, hdb, -⟩ := reverseCredit_spec blockId db 0 0 e
    obtain ⟨bal', cl', hrest⟩ := ih (reverseCredit blockId (db, 0, 0) e).1
    rw [reverseRows_cons, hrest]
    exact ⟨bal', cl', by rw [hdb]⟩

/-- Only `pending` of the credited miners moves. -/
theorem reverseRows_other (db : PoolDb) (l : List (MinerId × ℤ)) {m : MinerId} {k : Bucket}
    (h : k ≠ .pending ∨ ∀ e ∈ l, e.1 ≠ m) :
    (reverseRows blockId db l).books m k = db.books m k := by
  induction l generalizing db with
  | nil => rfl
  | cons e l ih =>
    obtain ⟨-, -, -, hbooks, -⟩ := reverseCredit_spec blockId db 0 0 e
    have hrest : k ≠ .pending ∨ ∀ x ∈ l, x.1 ≠ m :=
      h.imp_right fun h x hx => h x (List.mem_cons_of_mem _ hx)
    rw [reverseRows_cons, ih _ hrest, hbooks, if_neg, sub_zero]
    rintro ⟨rfl, rfl⟩
    rcases h with h | h
    · exact h rfl
    · exact h e List.mem_cons_self rfl

theorem reverseRows_pending_nonneg {db : PoolDb} (l : List (MinerId × ℤ))
    (h : ∀ m, 0 ≤ db.books m .pending) (m : MinerId) :
    0 ≤ (reverseRows blockId db l).books m .pending := by
  induction l generalizing db with
  | nil => exact h m
  | cons e l ih =>
    obtain ⟨-, -, -, hbooks, -⟩ := reverseCredit_spec blockId db 0 0 e
    rw [reverseRows_cons]
    refine ih fun m' => ?_
    have hle := recoverable_le_pending (h e.1) e.2
    have hm' := h m'
    rw [hbooks]
    split
    · rename_i he
      rw [he.1]
      omega
    · omega

/-- The debits stay between nothing and the rows' demand. -/
theorem reverseRows_bounds (db : PoolDb) {l : List (MinerId × ℤ)} (hl : ∀ e ∈ l, 0 ≤ e.2)
    (m : MinerId) :
    db.books m .pending - demand l m ≤ (reverseRows blockId db l).books m .pending ∧
      (reverseRows blockId db l).books m .pending ≤ db.books m .pending := by
  induction l generalizing db with
  | nil => simp [reverseRows]
  | cons e l ih =>
    obtain ⟨-, -, -, hbooks, -⟩ := reverseCredit_spec blockId db 0 0 e
    obtain ⟨hlo, hhi⟩ := ih (reverseCredit blockId (db, 0, 0) e).1
      fun x hx => hl x (List.mem_cons_of_mem _ hx)
    have hrec := recoverable_nonneg e.2 (db.books e.1 .pending)
    have hamt := recoverable_le_amount (hl e List.mem_cons_self) (db.books e.1 .pending)
    have hstep := hbooks m .pending
    rw [reverseRows_cons, demand_cons]
    simp only [and_true, eq_comm (a := m)] at hstep
    split_ifs at hstep ⊢ <;> omega

/-- What leaves `pending` and what is clawed back make up the rows' demand. -/
theorem reverseRows_conserves (blockId : BlockId) (db : PoolDb) {l : List (MinerId × ℤ)}
    (hl : ∀ e ∈ l, 0 ≤ e.2) (m : MinerId) :
    (reverseRows blockId db l).books m .pending - (reverseRows blockId db l).clawed m
      = db.books m .pending - db.clawed m - demand l m := by
  induction l generalizing db with
  | nil => simp [reverseRows]
  | cons e l ih =>
    obtain ⟨-, -, -, hbooks, hclawed, -⟩ := reverseCredit_spec blockId db 0 0 e
    have hrest := ih (reverseCredit blockId (db, 0, 0) e).1
      fun x hx => hl x (List.mem_cons_of_mem _ hx)
    have hamt := recoverable_le_amount (hl e List.mem_cons_self) (db.books e.1 .pending)
    have hstep := hbooks m .pending
    have hclaw := hclawed m
    rw [max_eq_right (by omega)] at hclaw
    rw [reverseRows_cons, demand_cons, hrest]
    simp only [and_true, eq_comm (a := m)] at hstep hclaw
    split_ifs at hstep hclaw ⊢ <;> omega

/-- When `pending` covers the demand, it is debited in full and nothing is clawed back. -/
theorem reverseRows_covered (db : PoolDb) {l : List (MinerId × ℤ)} (hl : ∀ e ∈ l, 0 ≤ e.2)
    (hcov : ∀ m, demand l m ≤ db.books m .pending) :
    (∀ m, (reverseRows blockId db l).books m .pending = db.books m .pending - demand l m) ∧
      (reverseRows blockId db l).orphanClawbacks = db.orphanClawbacks := by
  induction l generalizing db with
  | nil => simp [reverseRows]
  | cons e l ih =>
    obtain ⟨bal, cl, hdb, hbooks, -, hnone⟩ := reverseCredit_spec blockId db 0 0 e
    have hl' : ∀ x ∈ l, 0 ≤ x.2 := fun x hx => hl x (List.mem_cons_of_mem _ hx)
    have he := hl e List.mem_cons_self
    have hfull : recoverable e.2 (db.books e.1 .pending) = e.2 := by
      have := hcov e.1
      have := demand_nonneg hl' e.1
      rw [demand_cons, if_pos rfl] at *
      exact recoverable_eq_amount he (by omega)
    simp only [hfull] at hbooks hnone
    have hstep : ∀ m, (reverseCredit blockId (db, 0, 0) e).1.books m .pending
        = db.books m .pending - if e.1 = m then e.2 else 0 := by
      intro m
      rw [hbooks]
      simp only [and_true, eq_comm (a := m)]
    obtain ⟨hpending, hcl⟩ := ih (reverseCredit blockId (db, 0, 0) e).1 hl' fun m => by
      have := hcov m
      rw [demand_cons] at this
      rw [hstep]
      omega
    rw [reverseRows_cons]
    refine ⟨fun m => ?_, ?_⟩
    · rw [hpending, hstep, demand_cons]
      omega
    · rw [hcl, hdb, hnone le_rfl]

end ReverseRows

theorem creditsOf_nonneg {db : PoolDb} (h : ∀ e ∈ db.blockCredits.rows, 0 ≤ e.2)
    (blockId : BlockId) : ∀ e ∈ db.creditsOf blockId, 0 ≤ e.2 := by
  intro e he
  obtain ⟨x, hx, rfl⟩ := List.mem_map.1 he
  exact h x (List.mem_of_mem_filter hx)

theorem creditsByMiner_perm (db : PoolDb) (blockId : BlockId) :
    (db.creditsByMiner blockId).Perm (db.creditsOf blockId) := List.perm_insertionSort _ _

theorem creditsByMiner_eq_nil {db : PoolDb} {blockId : BlockId} :
    db.creditsByMiner blockId = [] ↔ db.creditsOf blockId = [] := by
  rw [← List.length_eq_zero_iff, (db.creditsByMiner_perm blockId).length_eq,
    List.length_eq_zero_iff]

theorem creditsByMiner_nonneg {db : PoolDb} (h : ∀ e ∈ db.blockCredits.rows, 0 ≤ e.2)
    (blockId : BlockId) : ∀ e ∈ db.creditsByMiner blockId, 0 ≤ e.2 := fun e he =>
  creditsOf_nonneg h blockId e ((db.creditsByMiner_perm blockId).mem_iff.1 he)

@[simp] theorem demand_creditsByMiner (db : PoolDb) (blockId : BlockId) (m : MinerId) :
    demand (db.creditsByMiner blockId) m = demand (db.creditsOf blockId) m :=
  demand_perm (db.creditsByMiner_perm blockId) m

/-- **What a precise reversal does.**  Without credit rows nothing; else the loop, the deletion
    of the rows and the re-queueing of the block's stamp. -/
theorem reverseBlockCreditsPrecise_cases {db db' : PoolDb} {blockId : BlockId}
    {out : Option (ℤ × ℤ)} (h : db.reverseBlockCreditsPrecise blockId = .ok (out, db')) :
    (db.creditsOf blockId = [] ∧ out = none ∧ db' = db) ∨
    (db.creditsOf blockId ≠ [] ∧ out ≠ none ∧ ∃ b, db.blocks.get? blockId = some b ∧
      db' = ((reverseRows blockId db (db.creditsByMiner blockId)).deleteBlockCredits
        blockId).requeueCosts blockId b.costsRecovered) := by
  unfold reverseBlockCreditsPrecise at h
  split at h
  · rename_i hnil
    cases h
    exact .inl ⟨creditsByMiner_eq_nil.1 hnil, rfl, rfl⟩
  · rename_i hne
    simp only at h
    obtain ⟨bal, cl, hframe⟩ := reverseRows_frame blockId db (db.creditsByMiner blockId)
    split at h
    · cases h
    · rename_i b hb
      cases h
      refine .inr ⟨fun hnil => hne (creditsByMiner_eq_nil.2 hnil), by simp, b, ?_, rfl⟩
      rw [foldl_reverseCredit_fst, hframe] at hb
      exact hb

/-- **What orphaning does**: one of the two reversals, and the status. -/
theorem orphanBlock_cases {db db' : PoolDb} {blockId : BlockId} {reward : ℤ}
    {out : Option (ℤ × ℤ)} (h : db.orphanBlock blockId reward = .ok (out, db')) :
    (db.creditsOf blockId = [] ∧
      db' = (db.reverseProportionally reward).updateBlockStatus blockId .orphaned) ∨
    (db.creditsOf blockId ≠ [] ∧ ∃ db₁, db.reverseBlockCreditsPrecise blockId = .ok (out, db₁) ∧
      db' = db₁.updateBlockStatus blockId .orphaned) := by
  simp only [orphanBlock, bind, Except.bind] at h
  split at h
  · cases h
  · rename_i r hr
    obtain ⟨out₁, db₁⟩ := r
    rcases reverseBlockCreditsPrecise_cases hr with ⟨hnil, rfl, rfl⟩ | ⟨hne, hsome, -⟩
    · cases h
      exact .inl ⟨hnil, rfl⟩
    · cases out₁ with
      | none => exact absurd rfl hsome
      | some v =>
        cases h
        exact .inr ⟨hne, _, hr, rfl⟩

/-! ### The tables after an orphaning with credit rows -/

theorem statusOf_updateBlockStatus (db : PoolDb) (b : BlockId) (status : BlockStatus)
    (b' : BlockId) : (db.updateBlockStatus b status).statusOf b' =
      if b' = b then (db.statusOf b').map (fun _ => status) else db.statusOf b' := by
  simp only [statusOf, updateBlockStatus, Auto.get?_modify]
  split <;> simp [Function.comp_def]

theorem statusOf_requeueCosts (db : PoolDb) (b : BlockId) (x : ℤ) (b' : BlockId) :
    (db.requeueCosts b x).statusOf b' = db.statusOf b' := by
  unfold requeueCosts
  split
  · simp only [statusOf, Auto.get?_modify]
    split <;> simp [Function.comp_def]
  · rfl

theorem requeueCosts_tables (db : PoolDb) (b : BlockId) (x : ℤ) :
    (db.requeueCosts b x).balances = db.balances ∧
      (db.requeueCosts b x).blockCredits = db.blockCredits ∧
      (db.requeueCosts b x).orphanClawbacks = db.orphanClawbacks ∧
      (db.requeueCosts b x).payoutItems = db.payoutItems ∧
      (db.requeueCosts b x).payouts = db.payouts := by
  unfold requeueCosts
  split <;> exact ⟨rfl, rfl, rfl, rfl, rfl⟩

/-- **An orphaning with credit rows**, table by table. -/
theorem orphanBlock_precise {db db' : PoolDb} {blockId : BlockId} {reward : ℤ}
    {out : Option (ℤ × ℤ)} (hne : db.creditsOf blockId ≠ [])
    (h : db.orphanBlock blockId reward = .ok (out, db')) :
    db'.books = (reverseRows blockId db (db.creditsByMiner blockId)).books ∧
      db'.blockCredits = db.blockCredits.filter (fun k _ => k.1 != blockId) ∧
      db'.orphanClawbacks = (reverseRows blockId db (db.creditsByMiner blockId)).orphanClawbacks ∧
      ∀ b, db'.statusOf b =
        if b = blockId then (db.statusOf b).map (fun _ => .orphaned) else db.statusOf b := by
  rcases orphanBlock_cases h with ⟨hnil, -⟩ | ⟨-, db₁, h₁, rfl⟩
  · exact absurd hnil hne
  · rcases reverseBlockCreditsPrecise_cases h₁ with ⟨hnil, -⟩ | ⟨-, -, b, -, rfl⟩
    · exact absurd hnil hne
    · obtain ⟨bal, cl, hframe⟩ := reverseRows_frame blockId db (db.creditsByMiner blockId)
      obtain ⟨hbal, hcr, hcl, -⟩ := requeueCosts_tables
        ((reverseRows blockId db (db.creditsByMiner blockId)).deleteBlockCredits blockId) blockId
        b.costsRecovered
      refine ⟨books_eq_of_balances hbal, ?_, hcl, fun b' => ?_⟩
      · have hdel : ((reverseRows blockId db (db.creditsByMiner blockId)).deleteBlockCredits
            blockId).blockCredits = db.blockCredits.filter (fun k _ => k.1 != blockId) := by
          rw [hframe]
          rfl
        exact hcr.trans hdel
      · have hst : ((reverseRows blockId db (db.creditsByMiner blockId)).deleteBlockCredits
            blockId).statusOf b' = db.statusOf b' := by
          rw [hframe]
          rfl
        rw [statusOf_updateBlockStatus, statusOf_requeueCosts, hst]

/-- An orphaning whose credits are all still pending claws nothing back. -/
theorem orphanClawbacks_of_covered {db db' : PoolDb}
    (hcredits : ∀ e ∈ db.blockCredits.rows, 0 ≤ e.2) {blockId : BlockId} {reward : ℤ}
    {out : Option (ℤ × ℤ)} (hne : db.creditsOf blockId ≠ [])
    (h : db.orphanBlock blockId reward = .ok (out, db'))
    (hcov : ∀ m, demand (db.creditsOf blockId) m ≤ db.books m .pending) :
    db'.orphanClawbacks = db.orphanClawbacks := by
  obtain ⟨-, -, hcl, -⟩ := orphanBlock_precise hne h
  refine hcl.trans (reverseRows_covered db (creditsByMiner_nonneg hcredits blockId) fun m => ?_).2
  rw [demand_creditsByMiner]
  exact hcov m

end PoolDb

end ZcashMiningPool
