import ZcashMiningPool.Ledger.Accounts

/-!
# The payout ledger

`paying` mirrors the open payout items and `paid` mirrors the payout rows, along every run of the
settlement operations.

* `Op.SettlementOk` — what the callers promise: credits are not negative, a direct payout is
  positive.  Reservations may list anything.
* `SettlementInv` — the invariant; `settlementInv_step` its step lemma.
* `payout_ledger_invariant` — every reachable state has it, so the guards of confirm, refund and
  auto-void never miss.  `Ledger/StoredRuns` carries it to the stored columns.
-/

set_option autoImplicit false

namespace ZcashMiningPool

open Table Buckets Postings Machine

/-- A figure over the seven accounts, written out. -/
theorem weigh_accounts (w s : Account → ℤ) :
    weigh w s = w .pending * s .pending + w .paying * s .paying + w .paid * s .paid +
      w .reserved * s .reserved + w .paidOut * s .paidOut + w .credited * s .credited +
      w .clawed * s .clawed := by
  have huniv : (Finset.univ : Finset Account)
      = {.pending, .paying, .paid, .reserved, .paidOut, .credited, .clawed} := rfl
  unfold weigh
  rw [huniv]
  simp only [Finset.sum_insert, Finset.sum_singleton, Finset.mem_insert, Finset.mem_singleton,
    reduceCtorEq, or_self, not_false_eq_true]
  ring

/-- `paying` less the open items. -/
def payingLaw : Account → ℤ
  | .paying => 1
  | .reserved => -1
  | _ => 0

/-- `paid` less the payout rows. -/
def paidLaw : Account → ℤ
  | .paid => 1
  | .paidOut => -1
  | _ => 0

theorem payingLaw_unit (k : Movement) : weigh payingLaw k.unit = 0 := by
  cases k <;> rfl

theorem paidLaw_unit (k : Movement) : weigh paidLaw k.unit = 0 := by
  cases k <;> rfl

/-- What the callers of the settlement operations promise. -/
def Op.SettlementOk : Op → Prop
  | .creditBalance _ amount => 0 ≤ amount
  | op => op.Lawful

theorem Op.SettlementOk.lawful {op : Op} (h : op.SettlementOk) : op.Lawful := by
  cases op with
  | creditBalance m amount => trivial
  | _ => exact h

namespace PoolDb

/-- **The payout ledger invariant.** -/
structure SettlementInv (db : PoolDb) : Prop where
  rows : RowsOk db
  pending_nonneg : ∀ m, 0 ≤ db.books m .pending
  paying_eq : ∀ m, db.books m .paying = db.reserved m
  paid_eq : ∀ m, db.books m .paid = db.paidOut m

theorem settlementInv_empty : SettlementInv empty :=
  ⟨rowsOk_empty, fun _ => le_rfl, fun _ => rfl, fun _ => rfl⟩

/-! ## `pending` never goes negative -/

theorem itemsOf_pos {db : PoolDb} (h : ∀ r ∈ db.payoutItems.values, 0 < r.amount)
    (attemptId : AttemptId) : ∀ e ∈ db.itemsOf attemptId, 0 < e.2 := by
  intro e he
  obtain ⟨x, hx, rfl⟩ := List.mem_map.1 he
  exact h x.2 (Auto.mem_values.2 ⟨x.1, List.mem_of_mem_filter hx⟩)

theorem payoutsOf_pos {db : PoolDb} (h : ∀ r ∈ db.payouts.values, 0 < r.amount)
    (txid : String) : ∀ e ∈ db.payoutsOf txid, 0 < e.2 := by
  intro e he
  obtain ⟨x, hx, rfl⟩ := List.mem_map.1 he
  exact h x.2 (Auto.mem_values.2 ⟨x.1, List.mem_of_mem_filter hx⟩)

/-- A batch out of a bucket leaves it non-negative. -/
theorem moveAll?_src_nonneg {s t : Books MinerId Bucket} {src dst : Bucket} (hne : src ≠ dst)
    {l : List (MinerId × ℤ)} (hl : ∀ e ∈ l, 0 ≤ e.2) (h : moveAll? src dst s l = some t)
    (h₀ : ∀ m, 0 ≤ s m src) (m : MinerId) : 0 ≤ t m src := by
  obtain ⟨hcov, rfl⟩ := (moveAll?_eq_some_iff hne hl).1 h
  have hm := h₀ m
  simp only [moveDemand, if_neg hne, if_true]
  by_cases hin : ∃ e ∈ l, e.1 = m
  · obtain ⟨e, he, rfl⟩ := hin
    have := hcov e he
    omega
  · rw [demand_eq_zero fun e he hem => hin ⟨e, he, hem⟩]
    omega

/-- A batch into a bucket does not lower it. -/
theorem moveAll?_dst_mono {s t : Books MinerId Bucket} {src dst : Bucket} (hne : src ≠ dst)
    {l : List (MinerId × ℤ)} (hl : ∀ e ∈ l, 0 ≤ e.2) (h : moveAll? src dst s l = some t)
    (m : MinerId) : s m dst ≤ t m dst := by
  have hd := demand_nonneg hl m
  rw [moveAll?_some h]
  simp only [moveDemand, if_neg hne.symm, if_true]
  omega

theorem pending_reverseProportionally {db : PoolDb} (h : ∀ m, 0 ≤ db.books m .pending)
    (reward : ℤ) (m : MinerId) : 0 ≤ (db.reverseProportionally reward).books m .pending := by
  unfold reverseProportionally
  split
  · have hm := h m
    simp only [books, Keyed.get?_modifyAll] at hm ⊢
    cases hr : db.balances.get? m with
    | none => simp
    | some b =>
      simp only [hr, Option.map_some, Option.getD_some, Balance.get] at hm ⊢
      unfold proportionalDebit
      split
      · exact le_max_left _ _
      · exact hm
  · exact h m

theorem pending_reverse {db db' : PoolDb} (h : ∀ m, 0 ≤ db.books m .pending) {blockId : BlockId}
    {out : Option (ℤ × ℤ)} (hx : db.reverseBlockCreditsPrecise blockId = .ok (out, db'))
    (m : MinerId) : 0 ≤ db'.books m .pending := by
  rcases reverseBlockCreditsPrecise_cases hx with ⟨-, -, rfl⟩ | ⟨-, -, b, -, rfl⟩
  · exact h m
  · obtain ⟨hbal, -⟩ := requeueCosts_tables
      ((reverseRows blockId db (db.creditsByMiner blockId)).deleteBlockCredits blockId) blockId
      b.costsRecovered
    rw [books_eq_of_balances hbal]
    exact reverseRows_pending_nonneg _ h m

theorem pending_step {db : PoolDb} (h : SettlementInv db) {op : Op} (hop : op.SettlementOk)
    (m : MinerId) : 0 ≤ (db.step op).books m .pending := by
  have h₀ := h.pending_nonneg
  refine step_induction (P := fun db' => 0 ≤ db'.books m .pending) (h₀ m) fun db' hx => ?_
  cases op with
  | getOrCreateMiner address =>
    cases hx
    unfold getOrCreateMiner
    split <;> exact h₀ m
  | getOrCreateWorker m' name =>
    obtain ⟨r, hr⟩ := map_snd_ok hx
    unfold getOrCreateWorker at hr
    split at hr
    · cases hr
      exact h₀ m
    · split at hr <;> cases hr
      exact h₀ m
  | recordBlock height hash reward actual foundBy luck =>
    obtain ⟨r, hr⟩ := map_snd_ok hx
    unfold recordBlock at hr
    split at hr
    · cases hr
    · split at hr <;> cases hr
      exact h₀ m
  | distributeBlockCredits b credits =>
    obtain ⟨bal, cr, -, -, hbooks, -⟩ := distributeBlockCredits_spec hx
    have hm := h₀ m
    have hd : 0 ≤ demand credits m := demand_nonneg hop m
    rw [hbooks, if_pos rfl]
    omega
  | reverseBlockCreditsPrecise b =>
    obtain ⟨r, hr⟩ := map_snd_ok hx
    exact pending_reverse h₀ hr m
  | orphanBlock b reward =>
    obtain ⟨r, hr⟩ := map_snd_ok hx
    rcases orphanBlock_cases hr with ⟨-, rfl⟩ | ⟨-, db₁, h₁, rfl⟩
    · exact pending_reverseProportionally h₀ reward m
    · exact pending_reverse h₀ h₁ m
  | takeCostsForBlock b cap =>
    cases hx
    unfold takeCostsForBlock
    simp only
    split <;> exact h₀ m
  | creditBalance m' amount =>
    simp only [exec, creditBalance, bind, Except.bind] at hx
    split at hx <;> cases hx
    rename_i db₁ h₁
    have hm := h₀ m
    have hm' := h₀ m'
    have hamount : 0 ≤ amount := hop
    rw [books_updatePending _ _ _ (balances_insertBalance h₁), books_insertBalance h₁]
    split <;> omega
  | adjustMinerBalance m' delta =>
    obtain ⟨r, hr⟩ := map_snd_ok hx
    simp only [adjustMinerBalance, bind, Except.bind] at hr
    split at hr <;> cases hr
    rename_i db₁ h₁
    have hm := h₀ m
    rw [books_updatePending _ _ _ (balances_insertBalance h₁), books_insertBalance h₁]
    split
    · exact le_max_left _ _
    · exact hm
  | getOrCreateBalance m' =>
    obtain ⟨r, hr⟩ := map_snd_ok hx
    simp only [getOrCreateBalance, bind, Except.bind] at hr
    split at hr <;> cases hr
    rename_i h₁
    rw [books_insertBalance h₁]
    exact h₀ m
  | createPayout m' amount txid =>
    obtain ⟨n, hr⟩ := map_snd_ok hx
    obtain ⟨hcov, bal, -, hbooks⟩ := createPayout_spec hr
    have hm := h₀ m
    rw [hbooks]
    simp only [move, reduceCtorEq, if_false, if_true]
    split
    · rename_i he
      subst he
      omega
    · omega
  | reservePayout a items =>
    obtain ⟨pairs, hr⟩ := map_snd_ok hx
    obtain ⟨bal, its, -, -, hmove, -, hpos⟩ := reservePayout_spec hr
    exact moveAll?_src_nonneg (by decide) (fun e he => (hpos e he).le) hmove h₀ m
  | confirmPayout a txid =>
    obtain ⟨n, hr⟩ := map_snd_ok hx
    obtain ⟨-, bal, pays, -, -, hmove⟩ := confirmPayout_spec hr
    rw [moveAll?_some hmove]
    simpa [moveDemand] using h₀ m
  | refundPayout a =>
    obtain ⟨n, hr⟩ := map_snd_ok hx
    obtain ⟨-, bal, -, hmove⟩ := refundPayout_spec hr
    have hle := moveAll?_dst_mono (by decide)
      (fun e he => (itemsOf_pos h.rows.items_pos a e he).le) hmove m
    exact (h₀ m).trans hle
  | voidReorgedPayout txid =>
    obtain ⟨r, hr⟩ := map_snd_ok hx
    rcases voidReorgedPayout_cases hr with ⟨-, rfl⟩ | ⟨-, bal, -, hmove⟩
    · exact h₀ m
    · have hle := moveAll?_dst_mono (by decide)
        (fun e he => (payoutsOf_pos h.rows.payouts_pos txid e he).le) hmove m
      exact (h₀ m).trans hle
  | _ =>
    cases hx
    exact h₀ m

/-! ## The invariant -/

theorem settlementInv_step {db : PoolDb} (h : SettlementInv db) {op : Op}
    (hop : op.SettlementOk) : SettlementInv (db.step op) := by
  refine ⟨rowsOk_step h.rows hop.lawful, pending_step h hop, fun m => ?_, fun m => ?_⟩
  · have hlaw := law_step h.rows op payingLaw (fun k _ => payingLaw_unit k) m
    have h₀ := h.paying_eq m
    simp only [weigh_accounts, payingLaw, accounts] at hlaw
    omega
  · have hlaw := law_step h.rows op paidLaw (fun k _ => paidLaw_unit k) m
    have h₀ := h.paid_eq m
    simp only [weigh_accounts, paidLaw, accounts] at hlaw
    omega

theorem SettlementInv.reserved_nonneg {db : PoolDb} (h : SettlementInv db) (m : MinerId) :
    0 ≤ db.reserved m := by
  refine Auto.sum_nonneg fun e he => ?_
  have := h.rows.items_pos e.2 (Auto.mem_values.2 ⟨e.1, he⟩)
  split <;> omega

theorem SettlementInv.paidOut_nonneg {db : PoolDb} (h : SettlementInv db) (m : MinerId) :
    0 ≤ db.paidOut m := by
  refine Auto.sum_nonneg fun e he => ?_
  have := h.rows.payouts_pos e.2 (Auto.mem_values.2 ⟨e.1, he⟩)
  split <;> omega

/-- `paying` covers every attempt. -/
theorem SettlementInv.items_covered {db : PoolDb} (h : SettlementInv db) (attemptId : AttemptId) :
    ∀ e ∈ db.itemsOf attemptId,
      demand (db.itemsOf attemptId) e.1 ≤ db.books e.1 .paying := by
  intro e _
  rw [h.paying_eq]
  exact demand_itemsOf_le h.rows.items_pos attemptId e.1

/-- `paid` covers every transaction. -/
theorem SettlementInv.payouts_covered {db : PoolDb} (h : SettlementInv db) (txid : String) :
    ∀ e ∈ db.payoutsOf txid, demand (db.payoutsOf txid) e.1 ≤ db.books e.1 .paid := by
  intro e _
  rw [h.paid_eq]
  exact demand_payoutsOf_le h.rows.payouts_pos txid e.1

end PoolDb

/-- **Payout ledger invariant**, in integers.  In every state the settlement operations reach, the
    three balance columns are non-negative, `paying` is the sum of the open payout items and `paid` the
    sum of the payout rows; and confirm, refund and auto-void of anything succeed. -/
theorem payout_ledger_invariant {db : PoolDb}
    (h : Reachable PoolDb.step (fun _ op => op.SettlementOk) PoolDb.empty db) :
    (∀ m, 0 ≤ db.books m .pending ∧ 0 ≤ db.books m .paying ∧ 0 ≤ db.books m .paid ∧
      db.books m .paying = db.reserved m ∧ db.books m .paid = db.paidOut m) ∧
    (∀ attemptId txid, ∃ r, db.confirmPayout attemptId txid = .ok r) ∧
    (∀ attemptId, ∃ r, db.refundPayout attemptId = .ok r) ∧
    (∀ txid, ∃ r, db.voidReorgedPayout txid = .ok r) := by
  have hinv : PoolDb.SettlementInv db := h.invariant PoolDb.settlementInv_empty
    fun _ _ hI hop => PoolDb.settlementInv_step hI hop
  refine ⟨fun m => ⟨hinv.pending_nonneg m, ?_, ?_, hinv.paying_eq m, hinv.paid_eq m⟩,
    fun a txid => ?_, fun a => ?_, fun txid => ?_⟩
  · rw [hinv.paying_eq]
    exact hinv.reserved_nonneg m
  · rw [hinv.paid_eq]
    exact hinv.paidOut_nonneg m
  · exact (PoolDb.confirmPayout_ok_iff (PoolDb.itemsOf_pos hinv.rows.items_pos a) txid).2
      (hinv.items_covered a)
  · exact (PoolDb.refundPayout_ok_iff (PoolDb.itemsOf_pos hinv.rows.items_pos a)).2
      (hinv.items_covered a)
  · exact PoolDb.voidReorgedPayout_ok (PoolDb.payoutsOf_pos hinv.rows.payouts_pos txid)
      (hinv.payouts_covered txid)

end ZcashMiningPool
