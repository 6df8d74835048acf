import ZcashMiningPool.Db.Costs
import ZcashMiningPool.Db.Payouts
import ZcashMiningPool.Library.Run

/-!
# The database as a machine

Every writing query of the settlement code as one input of a machine on `PoolDb`.

* `Op` — the call with its arguments; `elapse` lets the clock run.
* `exec` — its effect, or the error it returns.
* `step` — an error rolls back, so it leaves the state as it was.
* `step_same` — the frame law: an operation leaves the tables it does not write alone.

A ledger law holds along the runs of `step` whose calls keep to what their callers promise.
-/

set_option autoImplicit false

namespace ZcashMiningPool

open Table

inductive Op where
  | elapse (seconds : ℕ)
  | getOrCreateMiner (address : String)
  | getOrCreateWorker (minerId : MinerId) (name : String)
  | recordBlock (height : ℤ) (hash : String) (reward : ℤ) (actualReward : Option ℤ)
      (foundBy : WorkerId) (luckPercent : Option ℚ)
  | updateBlockStatus (blockId : BlockId) (status : BlockStatus)
  | distributeBlockCredits (blockId : BlockId) (credits : List (MinerId × ℤ))
  | reverseBlockCreditsPrecise (blockId : BlockId)
  | orphanBlock (blockId : BlockId) (blockReward : ℤ)
  | acknowledgeClawbacks (note : String)
  | acknowledgeClawbacksForBlock (blockId : BlockId) (note : String)
  | recordTxCost (kind : TxCostKind) (reference : String) (fee : ℤ)
  | takeCostsForBlock (blockId : BlockId) (cap : ℤ)
  | creditBalance (minerId : MinerId) (amount : ℤ)
  | adjustMinerBalance (minerId : MinerId) (delta : ℤ)
  | getOrCreateBalance (minerId : MinerId)
  | createPayoutAttempt (minerCount totalZatoshis : ℤ) (source : String)
  | updatePayoutAttempt (attemptId : AttemptId) (status : AttemptStatus)
      (opid txid errorMessage : Option String)
  | createPayout (minerId : MinerId) (amount : ℤ) (txid : String)
  | reservePayout (attemptId : AttemptId) (items : List (MinerId × ℤ))
  | confirmPayout (attemptId : AttemptId) (txid : String)
  | refundPayout (attemptId : AttemptId)
  | voidReorgedPayout (txid : String)
  deriving DecidableEq, Repr

/-- The tables, by name. -/
inductive TableName where
  | miners
  | workers
  | shares
  | blocks
  | balances
  | blockCredits
  | orphanClawbacks
  | poolTxCosts
  | payoutAttempts
  | payoutItems
  | payouts
  deriving DecidableEq, Repr

/-- The tables an operation may write. -/
def Op.writes : Op → TableName → Bool
  | .getOrCreateMiner _, .miners => true
  | .getOrCreateWorker _ _, .workers => true
  | .recordBlock .., .blocks => true
  | .updateBlockStatus _ _, .blocks => true
  | .distributeBlockCredits _ _, t => t = .balances ∨ t = .blockCredits
  | .reverseBlockCreditsPrecise _, t => t ∈ reversalTables
  | .orphanBlock _ _, t => t ∈ reversalTables
  | .acknowledgeClawbacks _, .orphanClawbacks => true
  | .acknowledgeClawbacksForBlock _ _, .orphanClawbacks => true
  | .recordTxCost .., .poolTxCosts => true
  | .takeCostsForBlock _ _, t => t = .poolTxCosts ∨ t = .blocks
  | .creditBalance _ _, .balances => true
  | .adjustMinerBalance _ _, .balances => true
  | .getOrCreateBalance _, .balances => true
  | .createPayoutAttempt .., .payoutAttempts => true
  | .updatePayoutAttempt .., .payoutAttempts => true
  | .createPayout .., t => t = .balances ∨ t = .payouts
  | .reservePayout _ _, t => t = .balances ∨ t = .payoutItems
  | .confirmPayout _ _, t => t = .balances ∨ t = .payoutItems ∨ t = .payouts
  | .refundPayout _, t => t = .balances ∨ t = .payoutItems
  | .voidReorgedPayout _, t => t = .balances ∨ t = .payouts ∨ t = .payoutAttempts
  | _, _ => false
where
  reversalTables : List TableName :=
    [.balances, .blockCredits, .orphanClawbacks, .poolTxCosts, .blocks]

namespace PoolDb

/-- Table `t` is the same in both databases. -/
def Same (db db' : PoolDb) : TableName → Prop
  | .miners => db'.miners = db.miners
  | .workers => db'.workers = db.workers
  | .shares => db'.shares = db.shares
  | .blocks => db'.blocks = db.blocks
  | .balances => db'.balances = db.balances
  | .blockCredits => db'.blockCredits = db.blockCredits
  | .orphanClawbacks => db'.orphanClawbacks = db.orphanClawbacks
  | .poolTxCosts => db'.poolTxCosts = db.poolTxCosts
  | .payoutAttempts => db'.payoutAttempts = db.payoutAttempts
  | .payoutItems => db'.payoutItems = db.payoutItems
  | .payouts => db'.payouts = db.payouts

/-- The state after a successful call; the results are dropped. -/
def exec (db : PoolDb) : Op → Except DbError PoolDb
  | .elapse seconds => .ok { db with now := db.now + seconds }
  | .getOrCreateMiner address => .ok (db.getOrCreateMiner address).2
  | .getOrCreateWorker m name => (db.getOrCreateWorker m name).map (·.2)
  | .recordBlock height hash reward actual foundBy luck =>
    (db.recordBlock height hash reward actual foundBy luck).map (·.2)
  | .updateBlockStatus b status => .ok (db.updateBlockStatus b status)
  | .distributeBlockCredits b credits => distributeBlockCredits b db credits
  | .reverseBlockCreditsPrecise b => (db.reverseBlockCreditsPrecise b).map (·.2)
  | .orphanBlock b reward => (db.orphanBlock b reward).map (·.2)
  | .acknowledgeClawbacks note => .ok (db.acknowledgeClawbacks note)
  | .acknowledgeClawbacksForBlock b note => .ok (db.acknowledgeClawbacksForBlock b note)
  | .recordTxCost kind reference fee => .ok (db.recordTxCost kind reference fee)
  | .takeCostsForBlock b cap => .ok (db.takeCostsForBlock b cap).2
  | .creditBalance m amount => db.creditBalance m amount
  | .adjustMinerBalance m delta => (db.adjustMinerBalance m delta).map (·.2)
  | .getOrCreateBalance m => (db.getOrCreateBalance m).map (·.2)
  | .createPayoutAttempt n total source => .ok (db.createPayoutAttempt n total source).2
  | .updatePayoutAttempt a status opid txid err => .ok (db.updatePayoutAttempt a status opid txid err)
  | .createPayout m amount txid => (db.createPayout m amount txid).map (·.2)
  | .reservePayout a items => (PoolDb.reservePayout a db items).map (·.2)
  | .confirmPayout a txid => (db.confirmPayout a txid).map (·.2)
  | .refundPayout a => (db.refundPayout a).map (·.2)
  | .voidReorgedPayout txid => (db.voidReorgedPayout txid).map (·.2)

/-- One call; a failed call rolls back. -/
def step (db : PoolDb) (op : Op) : PoolDb :=
  match db.exec op with
  | .ok db' => db'
  | .error _ => db

theorem step_ok {db db' : PoolDb} {op : Op} (h : db.exec op = .ok db') : db.step op = db' := by
  unfold step
  rw [h]

theorem step_error {db : PoolDb} {op : Op} {e : DbError} (h : db.exec op = .error e) :
    db.step op = db := by
  unfold step
  rw [h]

/-- What holds of the old state and of every successful outcome holds after a step. -/
theorem step_induction {P : PoolDb → Prop} {db : PoolDb} {op : Op} (h₀ : P db)
    (h : ∀ db', db.exec op = .ok db' → P db') : P (db.step op) := by
  cases hx : db.exec op with
  | ok db' => rw [step_ok hx]; exact h db' hx
  | error e => rw [step_error hx]; exact h₀

theorem Same.refl (db : PoolDb) (t : TableName) : Same db db t := by
  cases t <;> rfl

theorem Same.trans {db db₁ db₂ : PoolDb} {t : TableName} (h : Same db db₁ t)
    (h' : Same db₁ db₂ t) : Same db db₂ t := by
  cases t <;> exact Eq.trans h' h

theorem map_snd_ok {α : Type} {x : Except DbError (α × PoolDb)} {db' : PoolDb}
    (h : x.map (·.2) = .ok db') : ∃ r, x = .ok (r, db') := by
  cases x with
  | error e => cases h
  | ok r =>
    cases h
    exact ⟨r.1, rfl⟩

/-! ## The frame law -/

theorem same_reverse {db db' : PoolDb} {blockId : BlockId} {out : Option (ℤ × ℤ)}
    (h : db.reverseBlockCreditsPrecise blockId = .ok (out, db')) {t : TableName}
    (ht : (Op.reverseBlockCreditsPrecise blockId).writes t = false) : Same db db' t := by
  rcases reverseBlockCreditsPrecise_cases h with ⟨-, -, rfl⟩ | ⟨-, -, b, -, rfl⟩
  · exact Same.refl _ t
  · obtain ⟨bal, cl, hframe⟩ := reverseRows_frame blockId db (db.creditsByMiner blockId)
    unfold requeueCosts
    rw [hframe]
    split <;>
    · cases t <;> first | rfl | cases ht

theorem same_reverseProportionally (db : PoolDb) (reward : ℤ) {t : TableName}
    (ht : t ≠ .balances) : Same db (db.reverseProportionally reward) t := by
  unfold reverseProportionally
  split
  · cases t <;> first | rfl | exact absurd rfl ht
  · exact Same.refl db t

theorem same_insertBalance {db db' : PoolDb} {m : MinerId} (h : db.insertBalance m = .ok db')
    {t : TableName} (ht : t ≠ .balances) : Same db db' t := by
  rw [insertBalance_ok h]
  cases t <;> first | rfl | exact absurd rfl ht

theorem same_updatePending (db : PoolDb) (m : MinerId) (f : ℤ → ℤ) {t : TableName}
    (ht : t ≠ .balances) : Same db (db.updatePending m f) t := by
  cases t <;> first | rfl | exact absurd rfl ht

/-- **Frame law**: an operation leaves the tables it does not write alone. -/
theorem step_same (db : PoolDb) (op : Op) {t : TableName} (ht : op.writes t = false) :
    Same db (db.step op) t := by
  refine step_induction (P := fun db' => Same db db' t) (Same.refl db t) fun db' hx => ?_
  cases op with
  | getOrCreateMiner address =>
    cases hx
    unfold getOrCreateMiner
    split <;> cases t <;> first | rfl | cases ht
  | getOrCreateWorker m name =>
    obtain ⟨r, hr⟩ := map_snd_ok hx
    unfold getOrCreateWorker at hr
    split at hr
    · cases hr
      cases t <;> first | rfl | cases ht
    · split at hr <;> cases hr
      cases t <;> first | rfl | cases ht
  | recordBlock height hash reward actual foundBy luck =>
    obtain ⟨r, hr⟩ := map_snd_ok hx
    unfold recordBlock at hr
    split at hr
    · cases hr
    · split at hr <;> cases hr
      cases t <;> first | rfl | cases ht
  | distributeBlockCredits b credits =>
    obtain ⟨bal, cr, rfl, -⟩ := distributeBlockCredits_spec hx
    cases t <;> first | rfl | cases ht
  | reverseBlockCreditsPrecise b =>
    obtain ⟨r, hr⟩ := map_snd_ok hx
    exact same_reverse hr ht
  | orphanBlock b reward =>
    obtain ⟨r, hr⟩ := map_snd_ok hx
    have hflip : ∀ db₁ : PoolDb, Same db db₁ t →
        Same db (db₁.updateBlockStatus b .orphaned) t := by
      intro db₁ h₁
      cases t <;> first | exact h₁ | cases ht
    rcases orphanBlock_cases hr with ⟨-, rfl⟩ | ⟨-, db₁, h₁, rfl⟩
    · apply hflip
      apply same_reverseProportionally
      rintro rfl
      cases ht
    · exact hflip _ (same_reverse h₁ ht)
  | takeCostsForBlock b cap =>
    cases hx
    rw [(takeCostsForBlock_spec db b cap).2]
    cases t <;> first | rfl | cases ht
  | creditBalance m amount =>
    simp only [exec, creditBalance, bind, Except.bind] at hx
    split at hx <;> cases hx
    rename_i h₁
    have hne : t ≠ .balances := by
      rintro rfl
      cases ht
    exact (same_insertBalance h₁ hne).trans (same_updatePending _ _ _ hne)
  | adjustMinerBalance m delta =>
    obtain ⟨r, hr⟩ := map_snd_ok hx
    simp only [adjustMinerBalance, bind, Except.bind] at hr
    split at hr <;> cases hr
    rename_i h₁
    have hne : t ≠ .balances := by
      rintro rfl
      cases ht
    exact (same_insertBalance h₁ hne).trans (same_updatePending _ _ _ hne)
  | getOrCreateBalance m =>
    obtain ⟨r, hr⟩ := map_snd_ok hx
    simp only [getOrCreateBalance, bind, Except.bind] at hr
    split at hr <;> cases hr
    rename_i h₁
    apply same_insertBalance h₁
    rintro rfl
    cases ht
  | createPayout m amount txid =>
    obtain ⟨n, hr⟩ := map_snd_ok hx
    obtain ⟨-, bal, rfl, -⟩ := createPayout_spec hr
    cases t <;> first | rfl | cases ht
  | reservePayout a items =>
    obtain ⟨pairs, hr⟩ := map_snd_ok hx
    obtain ⟨bal, its, rfl, -⟩ := reservePayout_spec hr
    cases t <;> first | rfl | cases ht
  | confirmPayout a txid =>
    obtain ⟨n, hr⟩ := map_snd_ok hx
    obtain ⟨-, bal, pays, rfl, -⟩ := confirmPayout_spec hr
    cases t <;> first | rfl | cases ht
  | refundPayout a =>
    obtain ⟨n, hr⟩ := map_snd_ok hx
    obtain ⟨-, bal, rfl, -⟩ := refundPayout_spec hr
    cases t <;> first | rfl | cases ht
  | voidReorgedPayout txid =>
    obtain ⟨r, hr⟩ := map_snd_ok hx
    rcases voidReorgedPayout_cases hr with ⟨-, rfl⟩ | ⟨-, bal, rfl, -⟩
    · exact Same.refl _ t
    · cases t <;> first | rfl | cases ht
  | _ =>
    cases hx
    cases t <;> first | rfl | cases ht

end PoolDb

end ZcashMiningPool
