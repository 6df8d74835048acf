import ZcashMiningPool.Db.Op
import ZcashMiningPool.Library.Postings

/-!
# The ledger behind the database

What the database says about one miner, as seven accounts, and what every operation does to
them, as postings of nine movements.

* `Account`, `Movement`, `Movement.unit` — the chart: the three balance columns, the two ledgers
  that must mirror them (`reserved`, `paidOut`), the credit rows and the clawback rows.
* `PoolDb.accounts` — the abstraction of a database.
* `RowsOk` — what the row amounts and the foreign keys guarantee along a run.
* `movements` — which movements an operation may post.
* `step_posts` — **the database refines the ledger**: every operation posts only its movements.
* `law_step` — a figure every allowed movement leaves alone is an invariant.
-/

set_option autoImplicit false

namespace ZcashMiningPool

open Table Buckets Postings

/-! ## The chart of accounts -/

inductive Account where
  | pending
  | paying
  | paid
  | reserved
  | paidOut
  | credited
  | clawed
  deriving DecidableEq

instance : Fintype Account :=
  ⟨{.pending, .paying, .paid, .reserved, .paidOut, .credited, .clawed},
    fun a => by cases a <;> decide⟩

inductive Movement where
  | credit
  | adjust
  | reserve
  | confirm
  | refund
  | payDirect
  | void
  | recover
  | clawBack
  deriving DecidableEq

/-- What one zatoshi of a movement does to an account. -/
def Movement.unit : Movement → Account → ℤ
  | .credit, .pending => 1
  | .credit, .credited => 1
  | .adjust, .pending => 1
  | .reserve, .pending => -1
  | .reserve, .paying => 1
  | .reserve, .reserved => 1
  | .confirm, .paying => -1
  | .confirm, .paid => 1
  | .confirm, .reserved => -1
  | .confirm, .paidOut => 1
  | .refund, .paying => -1
  | .refund, .pending => 1
  | .refund, .reserved => -1
  | .payDirect, .pending => -1
  | .payDirect, .paid => 1
  | .payDirect, .paidOut => 1
  | .void, .paid => -1
  | .void, .pending => 1
  | .void, .paidOut => -1
  | .recover, .pending => -1
  | .recover, .credited => -1
  | .clawBack, .credited => -1
  | .clawBack, .clawed => 1
  | _, _ => 0

attribute [grind =] Movement.unit

namespace PoolDb

/-- Sum of the credit rows of miner `m`. -/
def credited (db : PoolDb) (m : MinerId) : ℤ :=
  db.blockCredits.sum (fun k amount => if k.2 = m then amount else 0)

/-- What the database says about miner `m`. -/
def accounts (db : PoolDb) (m : MinerId) : Account → ℤ
  | .pending => db.books m .pending
  | .paying => db.books m .paying
  | .paid => db.books m .paid
  | .reserved => db.reserved m
  | .paidOut => db.paidOut m
  | .credited => db.credited m
  | .clawed => db.clawed m

/-! ## Row amounts and references -/

/-- Row amounts have their sign, and a credit row names a recorded block. -/
structure RowsOk (db : PoolDb) : Prop where
  credits_nonneg : ∀ e ∈ db.blockCredits.rows, 0 ≤ e.2
  credits_block : ∀ e ∈ db.blockCredits.rows, db.blocks.has e.1.1 = true
  items_pos : ∀ r ∈ db.payoutItems.values, 0 < r.amount
  payouts_pos : ∀ r ∈ db.payouts.values, 0 < r.amount

theorem rowsOk_empty : RowsOk empty :=
  ⟨by simp [empty, Keyed.empty], by simp [empty, Keyed.empty], by simp [empty], by simp [empty]⟩

end PoolDb

/-- The callers credit non-negative amounts and record positive payouts. -/
def Op.Lawful : Op → Prop
  | .distributeBlockCredits _ credits => ∀ e ∈ credits, 0 ≤ e.2
  | .createPayout _ amount _ => 0 < amount
  | _ => True

namespace PoolDb

theorem RowsOk.of_frame {db db' : PoolDb} (h : RowsOk db)
    (hc : db'.blockCredits = db.blockCredits)
    (hb : ∀ b, db.blocks.has b = true → db'.blocks.has b = true)
    (hi : db'.payoutItems = db.payoutItems) (hp : db'.payouts = db.payouts) : RowsOk db' :=
  ⟨hc ▸ h.credits_nonneg, fun e he => hb _ (h.credits_block e (hc ▸ he)), hi ▸ h.items_pos,
    hp ▸ h.payouts_pos⟩

theorem has_requeueCosts (db : PoolDb) (blockId : BlockId) (x : ℤ) {b : BlockId}
    (hb : db.blocks.has b = true) : (db.requeueCosts blockId x).blocks.has b = true := by
  unfold requeueCosts
  split
  · simpa using hb
  · exact hb

theorem accounts_requeueCosts (db : PoolDb) (blockId : BlockId) (x : ℤ) :
    (db.requeueCosts blockId x).accounts = db.accounts := by
  unfold requeueCosts
  split <;> rfl

theorem rowsOk_reverse {db db' : PoolDb} (h : RowsOk db) {blockId : BlockId}
    {out : Option (ℤ × ℤ)} (hx : db.reverseBlockCreditsPrecise blockId = .ok (out, db')) :
    RowsOk db' := by
  rcases reverseBlockCreditsPrecise_cases hx with ⟨-, -, rfl⟩ | ⟨-, -, b, -, rfl⟩
  · exact h
  · obtain ⟨bal, cl, hframe⟩ := reverseRows_frame blockId db (db.creditsByMiner blockId)
    have hdel : RowsOk ((reverseRows blockId db (db.creditsByMiner blockId)).deleteBlockCredits
        blockId) := by
      rw [hframe]
      exact ⟨fun e he => h.credits_nonneg e (List.mem_of_mem_filter he),
        fun e he => h.credits_block e (List.mem_of_mem_filter he), h.items_pos, h.payouts_pos⟩
    obtain ⟨-, hc, -, hi, hp⟩ := requeueCosts_tables
      ((reverseRows blockId db (db.creditsByMiner blockId)).deleteBlockCredits blockId) blockId
      b.costsRecovered
    exact hdel.of_frame hc (fun _ => has_requeueCosts _ _ _) hi hp

theorem rowsOk_step {db : PoolDb} {op : Op} (h : RowsOk db) (hop : op.Lawful) :
    RowsOk (db.step op) := by
  refine step_induction h fun db' hx => ?_
  cases op with
  | getOrCreateMiner address =>
    cases hx
    unfold getOrCreateMiner
    split <;> exact h.of_frame rfl (fun _ hb => hb) rfl rfl
  | getOrCreateWorker m name =>
    obtain ⟨r, hr⟩ := map_snd_ok hx
    unfold getOrCreateWorker at hr
    split at hr
    · cases hr
      exact h.of_frame rfl (fun _ hb => hb) rfl rfl
    · split at hr <;> cases hr
      exact h.of_frame rfl (fun _ hb => hb) rfl rfl
  | recordBlock height hash reward actual foundBy luck =>
    obtain ⟨r, hr⟩ := map_snd_ok hx
    unfold recordBlock at hr
    split at hr
    · cases hr
    · split at hr <;> cases hr
      exact h.of_frame rfl (fun b hb => Auto.has_insert hb _) rfl rfl
  | updateBlockStatus b status =>
    cases hx
    exact h.of_frame rfl (fun b hb => by simpa [updateBlockStatus] using hb) rfl rfl
  | distributeBlockCredits b credits =>
    obtain ⟨bal, cr, rfl, hrows, -, hb⟩ := distributeBlockCredits_spec hx
    refine ⟨fun e he => ?_, fun e he => ?_, h.items_pos, h.payouts_pos⟩
    · rcases List.mem_append.1 (hrows ▸ he) with he | he
      · exact h.credits_nonneg e he
      · obtain ⟨x, hx, rfl⟩ := List.mem_map.1 he
        exact hop x hx
    · rcases List.mem_append.1 (hrows ▸ he) with he | he
      · exact h.credits_block e he
      · obtain ⟨x, hx, rfl⟩ := List.mem_map.1 he
        exact hb (List.ne_nil_of_mem hx)
  | reverseBlockCreditsPrecise b =>
    obtain ⟨r, hr⟩ := map_snd_ok hx
    exact rowsOk_reverse h hr
  | orphanBlock b reward =>
    obtain ⟨r, hr⟩ := map_snd_ok hx
    have hstatus : ∀ db : PoolDb, RowsOk db → RowsOk (db.updateBlockStatus b .orphaned) :=
      fun db hdb => hdb.of_frame rfl (fun b hb => by simpa [updateBlockStatus] using hb) rfl rfl
    rcases orphanBlock_cases hr with ⟨-, rfl⟩ | ⟨-, db₁, h₁, rfl⟩
    · refine hstatus _ ?_
      unfold reverseProportionally
      split
      · exact h.of_frame rfl (fun _ hb => hb) rfl rfl
      · exact h
    · exact hstatus _ (rowsOk_reverse h h₁)
  | takeCostsForBlock b cap =>
    cases hx
    unfold takeCostsForBlock
    simp only
    split
    · exact h.of_frame rfl (fun b hb => by simpa using hb) rfl rfl
    · exact h.of_frame rfl (fun _ hb => hb) rfl rfl
  | creditBalance m amount =>
    simp only [exec, creditBalance, bind, Except.bind] at hx
    split at hx <;> cases hx
    rename_i db₁ h₁
    obtain rfl := insertBalance_ok h₁
    exact h.of_frame rfl (fun _ hb => hb) rfl rfl
  | adjustMinerBalance m delta =>
    obtain ⟨r, hr⟩ := map_snd_ok hx
    simp only [adjustMinerBalance, bind, Except.bind] at hr
    split at hr <;> cases hr
    rename_i db₁ h₁
    obtain rfl := insertBalance_ok h₁
    exact h.of_frame rfl (fun _ hb => hb) rfl rfl
  | getOrCreateBalance m =>
    obtain ⟨r, hr⟩ := map_snd_ok hx
    simp only [getOrCreateBalance, bind, Except.bind] at hr
    split at hr <;> cases hr
    rename_i h₁
    obtain rfl := insertBalance_ok h₁
    exact h.of_frame rfl (fun _ hb => hb) rfl rfl
  | createPayout m amount txid =>
    obtain ⟨n, hr⟩ := map_snd_ok hx
    obtain ⟨-, bal, rfl, -⟩ := createPayout_spec hr
    refine ⟨h.credits_nonneg, h.credits_block, h.items_pos, fun r hr => ?_⟩
    rcases List.mem_append.1 (Auto.values_insert _ _ ▸ hr) with hr | hr
    · exact h.payouts_pos r hr
    · rw [List.mem_singleton.1 hr]
      exact hop
  | reservePayout a items =>
    obtain ⟨pairs, hr⟩ := map_snd_ok hx
    obtain ⟨bal, its, rfl, hits, -, -, hpos⟩ := reservePayout_spec hr
    refine ⟨h.credits_nonneg, h.credits_block, fun r hr => ?_, h.payouts_pos⟩
    rcases List.mem_append.1 (hits ▸ hr) with hr | hr
    · exact h.items_pos r hr
    · obtain ⟨e, he, rfl⟩ := List.mem_map.1 hr
      exact hpos e he
  | confirmPayout a txid =>
    obtain ⟨n, hr⟩ := map_snd_ok hx
    obtain ⟨-, bal, pays, rfl, hpays, -⟩ := confirmPayout_spec hr
    refine ⟨h.credits_nonneg, h.credits_block, fun r hr => ?_, fun r hr => ?_⟩
    · rw [Auto.values_filter] at hr
      exact h.items_pos r (List.mem_of_mem_filter hr)
    · rcases List.mem_append.1 (hpays ▸ hr) with hr | hr
      · exact h.payouts_pos r hr
      · -- the new rows carry the amounts of the attempt's items
        obtain ⟨e, he, rfl⟩ := List.mem_map.1 hr
        obtain ⟨x, hx, rfl⟩ := List.mem_map.1 he
        exact h.items_pos x.2 (Auto.mem_values.2 ⟨x.1, List.mem_of_mem_filter hx⟩)
  | refundPayout a =>
    obtain ⟨n, hr⟩ := map_snd_ok hx
    obtain ⟨-, bal, rfl, -⟩ := refundPayout_spec hr
    refine ⟨h.credits_nonneg, h.credits_block, fun r hr => ?_, h.payouts_pos⟩
    rw [Auto.values_filter] at hr
    exact h.items_pos r (List.mem_of_mem_filter hr)
  | voidReorgedPayout txid =>
    obtain ⟨r, hr⟩ := map_snd_ok hx
    rcases voidReorgedPayout_cases hr with ⟨-, rfl⟩ | ⟨-, bal, rfl, -⟩
    · exact h
    · refine ⟨h.credits_nonneg, h.credits_block, h.items_pos, fun r hr => ?_⟩
      simp only [failVoided, Auto.values_filter] at hr
      exact h.payouts_pos r (List.mem_of_mem_filter hr)
  | _ =>
    cases hx
    exact h.of_frame rfl (fun _ hb => hb) rfl rfl

/-! ## Postings -/

/-- `db'` is `db` after postings of the movements `ks`, miner by miner. -/
def Posts (db db' : PoolDb) (ks : List Movement) : Prop :=
  ∃ j : MinerId → List (Movement × ℤ),
    (∀ m, db'.accounts m = post Movement.unit (db.accounts m) (j m)) ∧ ∀ m, ∀ e ∈ j m, e.1 ∈ ks

theorem posts_nothing {db db' : PoolDb} {ks : List Movement} (h : db'.accounts = db.accounts) :
    Posts db db' ks :=
  ⟨fun _ => [], fun m => by rw [h, post_nil], by simp⟩

theorem posts_single {db db' : PoolDb} {ks : List Movement} {k : Movement} (d : MinerId → ℤ)
    (h : ∀ m a, db'.accounts m a = db.accounts m a + d m * k.unit a) (hk : k ∈ ks) :
    Posts db db' ks := by
  refine ⟨fun m => [(k, d m)], fun m => ?_, fun m e he => ?_⟩
  · funext a
    rw [h, post_single]
  · rw [List.mem_singleton.1 he]
    exact hk

/-- A change of `pending` alone is an adjustment. -/
theorem posts_adjust {db db' : PoolDb} {ks : List Movement} (hk : .adjust ∈ ks)
    (h : ∀ m a, a ≠ .pending → db'.accounts m a = db.accounts m a) : Posts db db' ks := by
  apply posts_single (fun m => db'.accounts m .pending - db.accounts m .pending) _ hk
  intro m a
  cases a with
  | pending =>
    simp only [Movement.unit]
    omega
  | _ =>
    rw [h m _ (by decide)]
    simp only [Movement.unit]
    omega

theorem accounts_of_tables {db db' : PoolDb} (hb : db'.balances = db.balances)
    (hi : db'.payoutItems = db.payoutItems) (hp : db'.payouts = db.payouts)
    (hc : db'.blockCredits = db.blockCredits) (hw : ∀ m, db'.clawed m = db.clawed m) :
    db'.accounts = db.accounts := by
  funext m a
  cases a with
  | pending => exact congrFun (congrFun (books_eq_of_balances hb) m) .pending
  | paying => exact congrFun (congrFun (books_eq_of_balances hb) m) .paying
  | paid => exact congrFun (congrFun (books_eq_of_balances hb) m) .paid
  | reserved => simp only [accounts, reserved, hi]
  | paidOut => simp only [accounts, paidOut, hp]
  | credited => simp only [accounts, credited, hc]
  | clawed => exact hw m

/-! ### Effects of the single operations -/

theorem credited_append {db : PoolDb} {t : Keyed (BlockId × MinerId) ℤ} {blockId : BlockId}
    {credits : List (MinerId × ℤ)}
    (h : t.rows = db.blockCredits.rows ++ credits.map (fun e => ((blockId, e.1), e.2)))
    (m : MinerId) :
    t.sum (fun k amount => if k.2 = m then amount else 0) = db.credited m + demand credits m := by
  unfold Keyed.sum credited
  rw [h]
  simp [Keyed.sum, demand, Function.comp_def]

theorem credited_delete (db : PoolDb) (blockId : BlockId) (m : MinerId) :
    (db.deleteBlockCredits blockId).credited m + demand (db.creditsOf blockId) m
      = db.credited m :=
  sum_filter_not_add_demand db.blockCredits.rows (fun e => e.1.1 == blockId) (fun e => e.1.2)
    (fun e => e.2) m

theorem posts_distribute {db db' : PoolDb} {blockId : BlockId} {credits : List (MinerId × ℤ)}
    (h : distributeBlockCredits blockId db credits = .ok db') : Posts db db' [.credit] := by
  obtain ⟨bal, cr, rfl, hrows, hbooks, -⟩ := distributeBlockCredits_spec h
  apply posts_single (k := .credit) (fun m => demand credits m) _ (by simp)
  intro m a
  cases a with
  | pending => simp only [accounts, hbooks, Movement.unit, if_true]; omega
  | paying => simp [accounts, hbooks, Movement.unit]
  | paid => simp [accounts, hbooks, Movement.unit]
  | credited =>
    simp only [accounts, Movement.unit, mul_one]
    exact credited_append hrows m
  | _ => simp only [Movement.unit, mul_zero, add_zero]; rfl

theorem posts_reverse {db db' : PoolDb} (hrows : RowsOk db) {blockId : BlockId}
    {out : Option (ℤ × ℤ)} (h : db.reverseBlockCreditsPrecise blockId = .ok (out, db')) :
    Posts db db' [.recover, .clawBack] := by
  rcases reverseBlockCreditsPrecise_cases h with ⟨-, -, rfl⟩ | ⟨-, -, b, -, rfl⟩
  · exact posts_nothing rfl
  · have hcr := creditsByMiner_nonneg hrows.credits_nonneg blockId
    obtain ⟨bal, cl, hframe⟩ := reverseRows_frame blockId db (db.creditsByMiner blockId)
    -- the debit of `pending` and the clawback make up the deleted credits
    refine ⟨fun m => [(.recover, db.books m .pending -
        (reverseRows blockId db (db.creditsByMiner blockId)).books m .pending),
      (.clawBack, (reverseRows blockId db (db.creditsByMiner blockId)).clawed m - db.clawed m)],
      fun m => ?_, fun m e he => ?_⟩
    · have hcons := reverseRows_conserves blockId db hcr m
      rw [demand_creditsByMiner] at hcons
      have hdel := credited_delete db blockId m
      have hcredited : ((reverseRows blockId db (db.creditsByMiner blockId)).deleteBlockCredits
          blockId).credited m = (db.deleteBlockCredits blockId).credited m := by
        rw [hframe]
        rfl
      have hother : ∀ k, k ≠ .pending →
          (reverseRows blockId db (db.creditsByMiner blockId)).books m k = db.books m k :=
        fun k hk => reverseRows_other db _ (.inl hk)
      rw [accounts_requeueCosts]
      funext a
      cases a with
      | pending =>
        simp only [post, List.map_cons, List.map_nil, List.sum_cons, List.sum_nil, Movement.unit]
        show (reverseRows blockId db (db.creditsByMiner blockId)).books m .pending
          = db.books m .pending + _
        omega
      | paying =>
        simp only [post, List.map_cons, List.map_nil, List.sum_cons, List.sum_nil, Movement.unit]
        show (reverseRows blockId db (db.creditsByMiner blockId)).books m .paying
          = db.books m .paying + _
        rw [hother _ (by decide)]
        omega
      | paid =>
        simp only [post, List.map_cons, List.map_nil, List.sum_cons, List.sum_nil, Movement.unit]
        show (reverseRows blockId db (db.creditsByMiner blockId)).books m .paid
          = db.books m .paid + _
        rw [hother _ (by decide)]
        omega
      | credited =>
        simp only [post, List.map_cons, List.map_nil, List.sum_cons, List.sum_nil, Movement.unit]
        show ((reverseRows blockId db (db.creditsByMiner blockId)).deleteBlockCredits
          blockId).credited m = db.credited m + _
        rw [hcredited]
        omega
      | clawed =>
        simp only [post, List.map_cons, List.map_nil, List.sum_cons, List.sum_nil, Movement.unit]
        show (reverseRows blockId db (db.creditsByMiner blockId)).clawed m = db.clawed m + _
        omega
      | reserved =>
        simp only [post, List.map_cons, List.map_nil, List.sum_cons, List.sum_nil, Movement.unit]
        rw [hframe]
        simp only [mul_zero, add_zero]
        rfl
      | paidOut =>
        simp only [post, List.map_cons, List.map_nil, List.sum_cons, List.sum_nil, Movement.unit]
        rw [hframe]
        simp only [mul_zero, add_zero]
        rfl
    · simp only [List.mem_cons, List.not_mem_nil, or_false] at he ⊢
      rcases he with rfl | rfl
      · exact .inl rfl
      · exact .inr rfl

/-- The proportional reversal only touches `pending`. -/
theorem reverseProportionally_other (db : PoolDb) (reward : ℤ) (m : MinerId) {k : Bucket}
    (hk : k ≠ .pending) : (db.reverseProportionally reward).books m k = db.books m k := by
  have hrow : ∀ r t b, (proportionalDebit r t b).get k = b.get k := by
    intro r t b
    unfold proportionalDebit
    split
    · cases k
      · exact absurd rfl hk
      · rfl
      · rfl
    · rfl
  unfold reverseProportionally
  split
  · simp only [books, Keyed.get?_modifyAll, Option.map_map]
    congr 2
    funext b
    exact hrow _ _ b
  · rfl

theorem posts_orphan {db db' : PoolDb} (hrows : RowsOk db) {blockId : BlockId} {reward : ℤ}
    {out : Option (ℤ × ℤ)} (h : db.orphanBlock blockId reward = .ok (out, db')) :
    Posts db db' (if db.creditsOf blockId = [] then [.adjust] else [.recover, .clawBack]) := by
  have hstatus : ∀ (db : PoolDb), (db.updateBlockStatus blockId .orphaned).accounts
      = db.accounts := fun _ => rfl
  rcases orphanBlock_cases h with ⟨hnil, rfl⟩ | ⟨hne, db₁, h₁, rfl⟩
  · rw [if_pos hnil]
    apply posts_adjust (by simp)
    intro m a ha
    rw [hstatus]
    cases a with
    | pending => exact absurd rfl ha
    | paying => exact reverseProportionally_other db reward m (by decide)
    | paid => exact reverseProportionally_other db reward m (by decide)
    | _ =>
      unfold reverseProportionally
      split <;> rfl
  · rw [if_neg hne]
    obtain ⟨j, hj, hk⟩ := posts_reverse hrows h₁
    exact ⟨j, fun m => by rw [hstatus, hj], hk⟩

theorem posts_reserve {db db' : PoolDb} {attemptId : AttemptId} {items pairs : List (MinerId × ℤ)}
    (h : reservePayout attemptId db items = .ok (pairs, db')) : Posts db db' [.reserve] := by
  obtain ⟨bal, its, rfl, hits, hmove, -, -⟩ := reservePayout_spec h
  have hbooks := moveAll?_some hmove
  apply posts_single (k := .reserve) (fun m => demand pairs m) _ (by simp)
  intro m a
  cases a with
  | pending => simp [accounts, hbooks, moveDemand, Movement.unit]
  | paying => simp [accounts, hbooks, moveDemand, Movement.unit]
  | paid => simp [accounts, hbooks, moveDemand, Movement.unit]
  | reserved =>
    simp only [accounts, reserved, Auto.sum_values, hits, Movement.unit, mul_one]
    simp [demand, Function.comp_def]
  | _ => simp only [Movement.unit, mul_zero, add_zero]; rfl

theorem posts_confirm {db db' : PoolDb} {attemptId : AttemptId} {txid : String} {n : ℕ}
    (h : db.confirmPayout attemptId txid = .ok (n, db')) : Posts db db' [.confirm] := by
  obtain ⟨-, bal, pays, rfl, hpays, hmove⟩ := confirmPayout_spec h
  have hbooks := moveAll?_some hmove
  apply posts_single (k := .confirm) (fun m => demand (db.itemsOf attemptId) m) _ (by simp)
  intro m a
  cases a with
  | pending => simp [accounts, hbooks, moveDemand, Movement.unit]
  | paying => simp [accounts, hbooks, moveDemand, Movement.unit]
  | paid => simp [accounts, hbooks, moveDemand, Movement.unit]
  | reserved =>
    have hdel := reserved_filter db attemptId m
    show (db.payoutItems.filter (fun r => r.attemptId != attemptId)).sum
        (fun r => if r.minerId = m then r.amount else 0)
      = db.reserved m + demand (db.itemsOf attemptId) m * (-1)
    omega
  | paidOut =>
    simp only [accounts, paidOut, Auto.sum_values, hpays, Movement.unit, mul_one]
    simp [demand, Function.comp_def]
  | _ => simp only [Movement.unit, mul_zero, add_zero]; rfl

theorem posts_refund {db db' : PoolDb} {attemptId : AttemptId} {n : ℕ}
    (h : db.refundPayout attemptId = .ok (n, db')) : Posts db db' [.refund] := by
  obtain ⟨-, bal, rfl, hmove⟩ := refundPayout_spec h
  have hbooks := moveAll?_some hmove
  apply posts_single (k := .refund) (fun m => demand (db.itemsOf attemptId) m) _ (by simp)
  intro m a
  cases a with
  | pending => simp [accounts, hbooks, moveDemand, Movement.unit]
  | paying => simp [accounts, hbooks, moveDemand, Movement.unit]
  | paid => simp [accounts, hbooks, moveDemand, Movement.unit]
  | reserved =>
    have hdel := reserved_filter db attemptId m
    show (db.payoutItems.filter (fun r => r.attemptId != attemptId)).sum
        (fun r => if r.minerId = m then r.amount else 0)
      = db.reserved m + demand (db.itemsOf attemptId) m * (-1)
    omega
  | _ => simp only [Movement.unit, mul_zero, add_zero]; rfl

theorem posts_void {db db' : PoolDb} {txid : String} {out : ℕ × ℤ}
    (h : db.voidReorgedPayout txid = .ok (out, db')) : Posts db db' [.void] := by
  rcases voidReorgedPayout_cases h with ⟨-, rfl⟩ | ⟨-, bal, rfl, hmove⟩
  · exact posts_nothing rfl
  · have hbooks := moveAll?_some hmove
    apply posts_single (k := .void) (fun m => demand (db.payoutsOf txid) m) _ (by simp)
    intro m a
    cases a with
    | pending => simp [accounts, hbooks, moveDemand, Movement.unit]
    | paying => simp [accounts, hbooks, moveDemand, Movement.unit]
    | paid => simp [accounts, hbooks, moveDemand, Movement.unit]
    | paidOut =>
      have hdel := paidOut_filter db txid m
      show (db.payouts.filter (fun r => r.txid != txid)).sum
          (fun r => if r.minerId = m then r.amount else 0)
        = db.paidOut m + demand (db.payoutsOf txid) m * (-1)
      omega
    | _ => simp only [Movement.unit, mul_zero, add_zero]; rfl

theorem posts_createPayout {db db' : PoolDb} {m₀ : MinerId} {amount : ℤ} {txid : String} {n : ℕ}
    (h : db.createPayout m₀ amount txid = .ok (n, db')) : Posts db db' [.payDirect] := by
  obtain ⟨-, bal, rfl, hbooks⟩ := createPayout_spec h
  apply posts_single (k := .payDirect) (fun m => if m = m₀ then amount else 0) _ (by simp)
  intro m a
  cases a with
  | pending => simp only [accounts, hbooks, move, Movement.unit]; split <;> simp
  | paying => simp only [accounts, hbooks, move, Movement.unit]; split <;> simp
  | paid => simp only [accounts, hbooks, move, Movement.unit]; split <;> simp
  | paidOut =>
    simp only [accounts, paidOut, Auto.sum_insert, Movement.unit, mul_one, eq_comm (a := m₀)]
  | _ => simp only [Movement.unit, mul_zero, add_zero]; rfl

theorem posts_pending {db db₁ : PoolDb} {m₀ : MinerId} (h : db.insertBalance m₀ = .ok db₁)
    (f : ℤ → ℤ) : Posts db (db₁.updatePending m₀ f) [.adjust] := by
  have hm := balances_insertBalance h
  have hb := books_insertBalance h
  apply posts_adjust (by simp)
  intro m a ha
  have hbooks : ∀ k, k ≠ .pending → (db₁.updatePending m₀ f).books m k = db.books m k := by
    intro k hk
    rw [books_updatePending _ _ _ hm, if_neg fun he => hk he.2, hb]
  obtain rfl := insertBalance_ok h
  cases a with
  | pending => exact absurd rfl ha
  | paying => exact hbooks _ (by decide)
  | paid => exact hbooks _ (by decide)
  | _ => rfl

/-! ### Every operation -/

/-- The movements an operation may post. -/
def movements (db : PoolDb) : Op → List Movement
  | .distributeBlockCredits _ _ => [.credit]
  | .reverseBlockCreditsPrecise _ => [.recover, .clawBack]
  | .orphanBlock b _ => if db.creditsOf b = [] then [.adjust] else [.recover, .clawBack]
  | .creditBalance _ _ => [.adjust]
  | .adjustMinerBalance _ _ => [.adjust]
  | .createPayout _ _ _ => [.payDirect]
  | .reservePayout _ _ => [.reserve]
  | .confirmPayout _ _ => [.confirm]
  | .refundPayout _ => [.refund]
  | .voidReorgedPayout _ => [.void]
  | _ => []

/-- **The database refines the ledger**: an operation posts only its own movements. -/
theorem step_posts {db : PoolDb} (h : RowsOk db) (op : Op) :
    Posts db (db.step op) (db.movements op) := by
  refine step_induction (P := fun db' => Posts db db' (db.movements op)) (posts_nothing rfl)
    fun db' hx => ?_
  cases op with
  | getOrCreateMiner address =>
    cases hx
    unfold getOrCreateMiner
    split <;> exact posts_nothing rfl
  | getOrCreateWorker m name =>
    obtain ⟨r, hr⟩ := map_snd_ok hx
    unfold getOrCreateWorker at hr
    split at hr
    · cases hr
      exact posts_nothing rfl
    · split at hr <;> cases hr
      exact posts_nothing rfl
  | recordBlock height hash reward actual foundBy luck =>
    obtain ⟨r, hr⟩ := map_snd_ok hx
    unfold recordBlock at hr
    split at hr
    · cases hr
    · split at hr <;> cases hr
      exact posts_nothing rfl
  | distributeBlockCredits b credits => exact posts_distribute hx
  | reverseBlockCreditsPrecise b =>
    obtain ⟨r, hr⟩ := map_snd_ok hx
    exact posts_reverse h hr
  | orphanBlock b reward =>
    obtain ⟨r, hr⟩ := map_snd_ok hx
    exact posts_orphan h hr
  | acknowledgeClawbacks note =>
    cases hx
    refine posts_nothing (accounts_of_tables rfl rfl rfl rfl fun m => ?_)
    simp only [clawed, acknowledgeClawbacks, Auto.sum_modifyAll]
    refine Keyed.sum_congr fun e _ => ?_
    split <;> rfl
  | acknowledgeClawbacksForBlock b note =>
    cases hx
    refine posts_nothing (accounts_of_tables rfl rfl rfl rfl fun m => ?_)
    simp only [clawed, acknowledgeClawbacksForBlock, Auto.sum_modifyAll]
    refine Keyed.sum_congr fun e _ => ?_
    split <;> rfl
  | takeCostsForBlock b cap =>
    cases hx
    unfold takeCostsForBlock
    simp only
    split <;> exact posts_nothing rfl
  | creditBalance m amount =>
    simp only [exec, creditBalance, bind, Except.bind] at hx
    split at hx <;> cases hx
    exact posts_pending ‹_› _
  | adjustMinerBalance m delta =>
    obtain ⟨r, hr⟩ := map_snd_ok hx
    simp only [adjustMinerBalance, bind, Except.bind] at hr
    split at hr <;> cases hr
    exact posts_pending ‹_› _
  | getOrCreateBalance m =>
    obtain ⟨r, hr⟩ := map_snd_ok hx
    simp only [getOrCreateBalance, bind, Except.bind] at hr
    split at hr <;> cases hr
    rename_i h₁
    have hb := books_insertBalance h₁
    obtain rfl := insertBalance_ok h₁
    apply posts_nothing
    funext m' a
    cases a with
    | pending => exact congrFun (congrFun hb m') .pending
    | paying => exact congrFun (congrFun hb m') .paying
    | paid => exact congrFun (congrFun hb m') .paid
    | _ => rfl
  | createPayout m amount txid =>
    obtain ⟨n, hr⟩ := map_snd_ok hx
    exact posts_createPayout hr
  | reservePayout a items =>
    obtain ⟨pairs, hr⟩ := map_snd_ok hx
    exact posts_reserve hr
  | confirmPayout a txid =>
    obtain ⟨n, hr⟩ := map_snd_ok hx
    exact posts_confirm hr
  | refundPayout a =>
    obtain ⟨n, hr⟩ := map_snd_ok hx
    exact posts_refund hr
  | voidReorgedPayout txid =>
    obtain ⟨r, hr⟩ := map_snd_ok hx
    exact posts_void hr
  | _ =>
    cases hx
    exact posts_nothing rfl

/-- **A figure that every movement of the operation leaves alone does not change.** -/
theorem law_step {db : PoolDb} (h : RowsOk db) (op : Op) (w : Account → ℤ)
    (hw : ∀ k ∈ db.movements op, weigh w k.unit = 0) (m : MinerId) :
    weigh w ((db.step op).accounts m) = weigh w (db.accounts m) := by
  obtain ⟨j, hj, hk⟩ := step_posts h op
  rw [hj m, weigh_post_of_balanced fun e he => hw e.1 (hk m e he)]

end PoolDb

end ZcashMiningPool
