import ZcashMiningPool.Ledger.StoredBooks

/-!
# Runs of the stored books

* `InBounds` — what the callers promise, and that no sum leaves the 64-bit range.
* `reachable_follows` — the run lemma: a stored state reached in bounds stores integer books.
* `Follows.settleAll` — sequences of confirmations and refunds stay in bounds by themselves, so
  what `Ledger/SettleOnce` says of them holds of the stored books.
* `stored_payout_ledger_invariant` — the payout ledger.
* `payout_ledger_overflow` — what happens past the range.
-/

set_option autoImplicit false

namespace ZcashMiningPool

open Table Buckets Machine SqlNumber

namespace StoredDb

open PoolDb

/-! ## Runs -/

/-- What the callers promise, and that no sum leaves the 64-bit range: counted in integers, no
    miner holds more than `i64::MAX` afterwards. -/
def InBounds (s : StoredDb) (op : Op) : Prop :=
  op.SettlementOk ∧ ∀ m, (s.exact.step op).holdings m ≤ maxInteger

theorem nonneg_of_inv {db : PoolDb} (h : db.SettlementInv) (m : MinerId) (b : Bucket) :
    0 ≤ db.books m b := by
  cases b with
  | pending => exact h.pending_nonneg m
  | paying =>
    rw [h.paying_eq]
    exact h.reserved_nonneg m
  | paid =>
    rw [h.paid_eq]
    exact h.paidOut_nonneg m

theorem settlementInv_of_reachable {db : PoolDb}
    (h : Reachable PoolDb.step (fun _ op => op.SettlementOk) PoolDb.empty db) :
    db.SettlementInv :=
  h.invariant settlementInv_empty fun _ _ hI hop => settlementInv_step hI hop

/-- The integer books that `s` stores: reached, and with all holdings in range. -/
structure Follows (s : StoredDb) (db : PoolDb) : Prop where
  stored : s = of db
  known : db.Known
  bounded : db.Bounded
  reachable : Reachable PoolDb.step (fun _ op => op.SettlementOk) PoolDb.empty db

theorem Follows.inv {s : StoredDb} {db : PoolDb} (h : Follows s db) : db.SettlementInv :=
  settlementInv_of_reachable h.reachable

theorem follows_empty : Follows empty PoolDb.empty where
  stored := rfl
  known := fun _ hne => absurd rfl hne
  bounded := ⟨fun _ _ => le_rfl, fun _ => (by decide : (0 : ℤ) ≤ maxInteger)⟩
  reachable := .init

theorem Follows.step {s : StoredDb} {db : PoolDb} (h : Follows s db) {op : Op}
    (hok : InBounds s op) : ∃ db', Follows (s.step op) db' := by
  obtain ⟨rfl, hk, hb, hr⟩ := h
  obtain ⟨hop, hle⟩ := hok
  rw [exact_of] at hle
  have hr' := hr.step hop
  have hfit : (db.step op).Bounded := ⟨nonneg_of_inv (settlementInv_of_reachable hr'), hle⟩
  rcases step_of hk hb (settlementInv_of_reachable hr) hop hfit with hs | hs
  · exact ⟨db.step op, hs, known_step hk op, hfit, hr'⟩
  · exact ⟨db, hs, hk, hb, hr⟩

/-- **The run lemma**: every stored state reached in bounds stores integer books. -/
theorem reachable_follows {s : StoredDb} (h : Reachable step InBounds empty s) :
    ∃ db, Follows s db := by
  induction h with
  | init => exact ⟨_, follows_empty⟩
  | step _ hok ih =>
    obtain ⟨db, hf⟩ := ih
    exact hf.step hok

/-! ## Settlement calls -/

/-- Confirmation and refund move funds within one holding. -/
theorem holdings_settle {db : PoolDb} (h : db.SettlementInv) (c : SettleCall) (m : MinerId) :
    (db.settle c).holdings m = db.holdings m := by
  obtain ⟨r, hr⟩ : ∃ r, db.call c = .ok r := by
    cases c with
    | confirm a txid =>
      exact (confirmPayout_ok_iff (itemsOf_pos h.rows.items_pos a) txid).2 (h.items_covered a)
    | refund a =>
      exact (refundPayout_ok_iff (itemsOf_pos h.rows.items_pos a)).2 (h.items_covered a)
  obtain ⟨n, db'⟩ := r
  obtain ⟨-, -, hbooks, -⟩ := call_spec hr
  rw [settle_of_call hr]
  unfold holdings
  rw [hbooks, hbooks, hbooks]
  cases c <;> simp only [SettleCall.effect] <;> omega

/-- A settlement call needs no bound: the stored books follow it, and every sequence of them. -/
theorem Follows.settleAll {s : StoredDb} {db : PoolDb} (h : Follows s db)
    (calls : List SettleCall) :
    Follows (run (fun s c => s.step c.op) s calls) (db.settleAll calls) := by
  induction calls generalizing s db with
  | nil => exact h
  | cons c calls ih =>
    have hinv := h.inv
    have hop : c.op.SettlementOk := by cases c <;> trivial
    have hr' := h.reachable.step hop
    have hfit : (db.settle c).Bounded :=
      ⟨nonneg_of_inv (settlementInv_of_reachable hr'), fun m => by
        rw [holdings_settle hinv]
        exact h.bounded.holdings_le m⟩
    have hstored : s.step c.op = of (db.settle c) := by
      rw [h.stored]
      exact settle_of h.known h.bounded hinv c
    exact ih ⟨hstored, known_step h.known c.op, hfit, hr'⟩

/-! ## The ledger -/

/-- The holdings are those of the rows. -/
theorem inBounds_of_rows {s : StoredDb} {op : Op} (hop : op.SettlementOk)
    (h : ∀ e ∈ (s.exact.step op).balances.rows,
      e.2.pending + e.2.paying + e.2.paid ≤ maxInteger) : InBounds s op := by
  refine ⟨hop, fun m => ?_⟩
  unfold holdings books
  cases hm : (s.exact.step op).balances.get? m with
  | none => exact (by decide : (0 : ℤ) ≤ maxInteger)
  | some r => exact h (m, r) (Keyed.get?_eq_some_iff.1 hm)

end StoredDb

open StoredDb

/-- **Payout ledger invariant.**  In every state the settlement operations reach while no holding
    leaves the 64-bit range, the balance columns are integers and not negative, `paying` is the sum
    of the open payout items and `paid` the sum of the payout rows; and confirm, refund and
    auto-void of anything succeed. -/
theorem stored_payout_ledger_invariant {s : StoredDb}
    (h : Reachable StoredDb.step InBounds StoredDb.empty s) :
    (∀ m, ∃ pending paying paid : ℤ, s.column m .pending = .integer pending ∧
      s.column m .paying = .integer paying ∧ s.column m .paid = .integer paid ∧
      0 ≤ pending ∧ 0 ≤ paying ∧ 0 ≤ paid ∧
      paying = s.tables.reserved m ∧ paid = s.tables.paidOut m) ∧
    (∀ attemptId txid, ∃ r, s.confirmPayout attemptId txid = .ok r) ∧
    (∀ attemptId, ∃ r, s.refundPayout attemptId = .ok r) ∧
    (∀ txid, ∃ r, s.voidReorgedPayout txid = .ok r) := by
  obtain ⟨db, rfl, hk, hb, hr⟩ := reachable_follows h
  obtain ⟨hbooks, hconfirm, hrefund, hvoid⟩ := payout_ledger_invariant hr
  have hinv := settlementInv_of_reachable hr
  have hlow : ∀ m b, -2 ^ 63 ≤ db.books m b := fun m b => le_trans (by norm_num) (hb.nonneg m b)
  refine ⟨fun m => ?_, fun a txid => ?_, fun a => ?_, fun txid => ?_⟩
  · obtain ⟨hp, hq, hpd, hq', hpd'⟩ := hbooks m
    exact ⟨_, _, _, column_of db m _, column_of db m _, column_of db m _, hp, hq, hpd, hq', hpd'⟩
  · obtain ⟨r, hr⟩ := hconfirm a txid
    rw [confirmPayout_of (PoolDb.itemsOf_pos hinv.rows.items_pos a) (fun e _ hrow => hk e.1 hrow)
      (fun m => hb.le_max m .paying) (fun m => hlow m .paid)
      (hb.room_of_covered (by decide) (hinv.items_covered a)) txid, hr]
    exact ⟨_, rfl⟩
  · obtain ⟨r, hr⟩ := hrefund a
    rw [refundPayout_of (PoolDb.itemsOf_pos hinv.rows.items_pos a) (fun m => hb.le_max m .paying)
      (fun m => hlow m .pending) (hb.room_of_covered (by decide) (hinv.items_covered a)), hr]
    exact ⟨_, rfl⟩
  · obtain ⟨r, hr⟩ := hvoid txid
    rw [voidReorgedPayout_of (PoolDb.payoutsOf_pos hinv.rows.payouts_pos txid)
      (fun m => hb.le_max m .paid) (fun m => hlow m .pending)
      (hb.room_of_covered (by decide) (hinv.payouts_covered txid)), hr]
    exact ⟨_, rfl⟩

/-- A reservation that lists a miner twice and a negative amount, half way through settlement. -/
def settlementRun : List Op :=
  [.getOrCreateMiner "t1miner", .creditBalance 1 100, .createPayoutAttempt 1 70 "loop",
    .reservePayout 1 [(1, 40), (1, -5), (1, 30), (1, 50)], .confirmPayout 1 "aa",
    .createPayout 1 10 "bb"]

theorem stored_payout_ledger_invariant_settlementRun :
    (∀ attemptId txid, ∃ r,
      (run StoredDb.step StoredDb.empty settlementRun).confirmPayout attemptId txid = .ok r) ∧
    (run StoredDb.step StoredDb.empty settlementRun).column 1 .paid = .integer 80 := by
  have hallowed : Allowed StoredDb.step InBounds StoredDb.empty settlementRun :=
    ⟨inBounds_of_rows trivial (by decide +kernel),
      inBounds_of_rows (show (0 : ℤ) ≤ 100 by decide) (by decide +kernel),
      inBounds_of_rows trivial (by decide +kernel), inBounds_of_rows trivial (by decide +kernel),
      inBounds_of_rows trivial (by decide +kernel),
      inBounds_of_rows (show (0 : ℤ) < 10 by decide) (by decide +kernel), trivial⟩
  exact ⟨(stored_payout_ledger_invariant (hallowed.reachable .init)).2.1, by decide +kernel⟩

/-- The whole 64-bit range reserved, and then a little more. -/
def overflowRun : List Op :=
  [.getOrCreateMiner "t1miner", .createPayoutAttempt 1 0 "loop", .createPayoutAttempt 1 0 "loop",
    .adjustMinerBalance 1 (2 ^ 63 - 1), .reservePayout 1 [(1, 2 ^ 63 - 1)],
    .adjustMinerBalance 1 1000, .reservePayout 2 [(1, 1000)]]

/-- **Counterexample.**  Past the range `paying` is a real and no longer the sum of the items, and
    the second attempt is refused. -/
theorem payout_ledger_overflow :
    (∀ op ∈ overflowRun, op.SettlementOk) ∧
    (run StoredDb.step StoredDb.empty overflowRun).column 1 .paying = .real (2 ^ 63) ∧
    (run StoredDb.step StoredDb.empty overflowRun).tables.reserved 1 = 2 ^ 63 + 999 ∧
    ∃ e, (run StoredDb.step StoredDb.empty
      (overflowRun ++ [.confirmPayout 1 "aa"])).confirmPayout 2 "bb" = .error e := by
  refine ⟨by simp [overflowRun, Op.SettlementOk, Op.Lawful], by decide +kernel,
    by decide +kernel, ?_⟩
  have hrefused : ((run StoredDb.step StoredDb.empty
      (overflowRun ++ [.confirmPayout 1 "aa"])).confirmPayout 2 "bb").isOk = false := by
    decide +kernel
  cases hx : (run StoredDb.step StoredDb.empty
      (overflowRun ++ [.confirmPayout 1 "aa"])).confirmPayout 2 "bb" with
  | error e => exact ⟨e, rfl⟩
  | ok r =>
    rw [hx] at hrefused
    cases hrefused

end ZcashMiningPool
