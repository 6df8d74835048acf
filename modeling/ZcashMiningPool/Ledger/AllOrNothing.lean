import ZcashMiningPool.Ledger.StoredBooks
import ZcashMiningPool.Library.Transaction

/-!
# All or nothing

`confirm_payout` and `refund_payout` statement by statement, inside the transaction that makes them
atomic, on any stored books: no operation need have written them.

* `SettleCall.settleRow` — the guarded `UPDATE` of one item, and the row a confirmation inserts,
  whose foreign key is checked.
* `SettleCall.body`, `StoredDb.execute` — the loop with its `DELETE`, and the whole transaction; a
  commit may fail.
* `execute_eq` — without such a failure that is what the two calls compute.
* `settleRows_ok_iff`, `settleRows_spec` — when the loop goes through, and what it leaves.

Main result: `settles_all_or_nothing`.
-/

set_option autoImplicit false

namespace ZcashMiningPool

open Table Buckets Machine Transaction SqlNumber

namespace SettleCall

/-- Where the reserved funds go. -/
def target : SettleCall → Bucket
  | .confirm _ _ => .paid
  | .refund _ => .pending

/-- `paying < amount`: the call refuses to go on. -/
def refusal (c : SettleCall) (m : MinerId) (amount : ℤ) : String :=
  match c with
  | .confirm attemptId _ =>
    s!"confirm_payout attempt {attemptId}: miner {m} has paying < {amount} " ++
      "zatoshis — refusing to settle; investigate before retry"
  | .refund attemptId =>
    s!"refund_payout attempt {attemptId}: miner {m} has paying < {amount} " ++
      "zatoshis — refusing to refund; investigate before retry"

/-- A confirmation inserts a payout row for every item. -/
def record (c : SettleCall) (m : MinerId) (amount : ℤ) (s : StoredDb) : Except DbError StoredDb :=
  match c with
  | .confirm _ txid => s.insertPayout m txid amount
  | .refund _ => .ok s

/-- The statements for one item. -/
def settleRow (c : SettleCall) (item : MinerId × ℤ) : Body StoredDb DbError Unit := fun s =>
  match s.transfer .paying c.target item.1 item.2 with
  | none => (.error (.sqlx (.protocol (c.refusal item.1 item.2))), s)
  | some s₁ =>
    match c.record item.1 item.2 s₁ with
    | .error e => (.error e, s₁)
    | .ok s₂ => (.ok (), s₂)

/-- `confirm_payout_txn`, `refund_payout_txn`: the items in the order of their rows, then
    `DELETE FROM payout_items`. -/
def body (c : SettleCall) : Body StoredDb DbError ℕ := fun s =>
  match forEach c.settleRow (s.tables.itemsOf c.attempt) s with
  | (.error e, s') => (.error e, s')
  | (.ok finalized, s') => (.ok finalized, { s' with tables := s'.tables.deleteItems c.attempt })

end SettleCall

namespace StoredDb

/-- `confirm_payout`, `refund_payout`: `BEGIN IMMEDIATE`, the body, `COMMIT` or `ROLLBACK`. -/
def execute (commit : Option DbError) (c : SettleCall) (s : StoredDb) :
    Except DbError ℕ × StoredDb := atomic commit c.body s

/-! ## The transaction and the call -/

def call (s : StoredDb) : SettleCall → Except DbError (ℕ × StoredDb)
  | .confirm a txid => s.confirmPayout a txid
  | .refund a => s.refundPayout a

/-- The loop of `c` over `items`. -/
def settleRows (c : SettleCall) (s : StoredDb) (items : List (MinerId × ℤ)) :
    Except DbError StoredDb :=
  settleItems .paying c.target c.refusal c.record s items

/-- The rows of a settlement are the guarded transfers of `settleItems`. -/
theorem foldRows_settleRow (c : SettleCall) (items : List (MinerId × ℤ)) (s : StoredDb) :
    foldRows c.settleRow items s = s.settleRows c items := by
  unfold settleRows
  induction items generalizing s with
  | nil => rfl
  | cons e items ih =>
    obtain ⟨m, amount⟩ := e
    simp only [foldRows, settleItems, SettleCall.settleRow]
    cases s.transfer .paying c.target m amount with
    | none => rfl
    | some s₁ =>
      simp only [bind, Except.bind]
      cases c.record m amount s₁ with
      | error e => rfl
      | ok s₂ => exact ih s₂

theorem bind_ok_eq_map {α β : Type} (x : Except DbError α) (f : α → β) :
    (x >>= fun a => Except.ok (f a)) = x.map f := by
  cases x <;> rfl

/-- The call, its two members read as one. -/
theorem call_eq (c : SettleCall) (s : StoredDb) :
    s.call c = (s.settleRows c (s.tables.itemsOf c.attempt)).map
      (fun s₁ => ((s.tables.itemsOf c.attempt).length,
        { s₁ with tables := s₁.tables.deleteItems c.attempt })) := by
  cases c with
  | confirm a txid => exact bind_ok_eq_map _ _
  | refund a => exact bind_ok_eq_map _ _

/-- **A transaction that can commit is the call**, and leaves the state of a failed one. -/
theorem execute_eq (c : SettleCall) (s : StoredDb) :
    s.execute none c = match s.call c with
      | .ok (n, s') => (.ok n, s')
      | .error e => (.error e, s) := by
  unfold execute atomic SettleCall.body
  rw [call_eq, ← foldRows_settleRow]
  cases h : foldRows c.settleRow (s.tables.itemsOf c.attempt) s with
  | ok s₁ => simp only [forEach_of_ok h, Except.map]
  | error e =>
    have herror := forEach_of_error h
    cases hloop : forEach c.settleRow (s.tables.itemsOf c.attempt) s with
    | mk result s' =>
      rw [hloop] at herror
      cases herror
      rfl

theorem execute_ok_iff {c : SettleCall} {s s' : StoredDb} {n : ℕ} :
    s.execute none c = (.ok n, s') ↔ s.call c = .ok (n, s') := by
  rw [execute_eq]
  cases s.call c with
  | ok r => simp [Prod.ext_iff]
  | error e => simp

/-! ## One row -/

/-- What a guarded `UPDATE` does to the columns. -/
theorem transfer_spec {s s' : StoredDb} {src dst : Bucket} (hne : src ≠ dst) {m : MinerId} {a : ℤ}
    (h : s.transfer src dst m a = some s') :
    (a : ℚ) ≤ (s.column m src).value ∧ s'.tables = s.tables ∧
      (∀ m', m' ≠ m → s'.balances.get? m' = s.balances.get? m') ∧
      s'.column m src = ((s.column m src).sub (.integer a)).store ∧
      s'.column m dst = ((s.column m dst).add (.integer a)).store ∧
      ∀ b, b ≠ src → b ≠ dst → s'.column m b = s.column m b := by
  obtain ⟨t, ht, rfl⟩ := Option.map_eq_some_iff.1 h
  obtain ⟨r, hr, hcov, rfl⟩ := Keyed.modifyIf_eq_some_iff.1 ht
  have hcol : ∀ b, s.column m b = r.get b := fun b => by simp [column, hr]
  have hcol' : ∀ b, ({ s with balances := s.balances.modify m (·.move src dst a) } :
      StoredDb).column m b = (r.move src dst a).get b := fun b => by simp [column, hr]
  have hset : ∀ (q : StoredBalance) (x : Number) (k b : Bucket),
      (q.set x k).get b = if b = k then x.store else q.get b := fun q x k b => by
    cases k <;> cases b <;> rfl
  refine ⟨?_, rfl, fun m' hm => ?_, ?_, ?_, fun b hs hd => ?_⟩
  · rw [hcol]
    exact of_decide_eq_true hcov
  · simp only [Keyed.get?_modify, if_neg hm]
  · rw [hcol', hcol, StoredBalance.move, hset, hset, if_neg hne, if_pos rfl]
  · rw [hcol', hcol, StoredBalance.move, hset, if_pos rfl]
  · rw [hcol', hcol, StoredBalance.move, hset, hset, if_neg hd, if_neg hs]

/-- A positive amount is refused exactly when the column does not cover it. -/
theorem transfer_eq_none_iff {s : StoredDb} {src dst : Bucket} {m : MinerId} {a : ℤ} (ha : 0 < a) :
    s.transfer src dst m a = none ↔ (s.column m src).value < a := by
  unfold transfer Keyed.modifyIf column
  cases hr : s.balances.get? m with
  | none => simpa [hr, Number.value] using ha
  | some r =>
    by_cases hcov : (a : ℚ) ≤ (r.get src).value
    · simp [hcov]
    · simp [hcov, not_le.1 hcov]

theorem column_congr {s s' : StoredDb} {m : MinerId}
    (h : s'.balances.get? m = s.balances.get? m) (b : Bucket) : s'.column m b = s.column m b := by
  unfold column
  rw [h]

/-- A payout row needs the miner it names. -/
theorem record_ok_iff {c : SettleCall} {m : MinerId} {a : ℤ} {s : StoredDb} :
    (∃ s', c.record m a s = .ok s') ↔ (c.paidWith ≠ none → s.tables.miners.has m = true) := by
  cases c with
  | confirm attemptId txid =>
    simp only [SettleCall.record, insertPayout, SettleCall.paidWith]
    split
    · rename_i hm
      simp [hm]
    · rename_i hm
      simp [hm]
  | refund attemptId => simp [SettleCall.record, SettleCall.paidWith]

theorem record_spec {c : SettleCall} {m : MinerId} {a : ℤ} {s s' : StoredDb}
    (h : c.record m a s = .ok s') :
    s'.balances = s.balances ∧ s'.tables.miners = s.tables.miners ∧
      s'.tables.payoutItems = s.tables.payoutItems ∧
      s'.tables.payoutRows = s.tables.payoutRows ++
        (c.paidWith.map (fun txid => (m, txid, a))).toList := by
  cases c with
  | confirm attemptId txid =>
    simp only [SettleCall.record, insertPayout] at h
    split at h <;> cases h
    refine ⟨rfl, rfl, rfl, ?_⟩
    simp [PoolDb.payoutRows, PoolDb.insertPayout, SettleCall.paidWith]
  | refund attemptId =>
    cases h
    exact ⟨rfl, rfl, rfl, by simp [SettleCall.paidWith]⟩

/-! ## The loop -/

theorem target_ne (c : SettleCall) : Bucket.paying ≠ c.target := by
  cases c <;> simp [SettleCall.target]

/-- `paying` holds the integers of `t`, which are 64-bit ones. -/
def PayingIs (s : StoredDb) (t : Books MinerId Bucket) : Prop :=
  ∀ m, s.column m .paying = .integer (t m .paying) ∧ InRange (t m .paying)

/-- One item: the guard reads `paying`, and the insertion its foreign key. -/
theorem payingIs_transfer {s s₁ s₂ : StoredDb} {c : SettleCall} {t : Books MinerId Bucket}
    (h : s.PayingIs t) {m : MinerId} {a : ℤ} (ha : 0 < a)
    (h₁ : s.transfer .paying c.target m a = some s₁) (h₂ : c.record m a s₁ = .ok s₂) :
    a ≤ t m .paying ∧ s₂.PayingIs (move t .paying c.target m a) := by
  obtain ⟨hcov, -, hothers, hsrc, -, -⟩ := transfer_spec (target_ne c) h₁
  obtain ⟨hbal, -⟩ := record_spec h₂
  have hsame : ∀ m' b, s₂.column m' b = s₁.column m' b := fun m' b =>
    column_congr (by rw [hbal]) b
  obtain ⟨hcol, hlow, hhigh⟩ := h m
  rw [hcol, Number.value, Int.cast_le] at hcov
  refine ⟨hcov, fun m' => ?_⟩
  rw [hsame]
  by_cases hm : m' = m
  · subst hm
    have hroom : InRange (t m' .paying - a) := ⟨by omega, by unfold maxInteger at *; omega⟩
    have hmove : move t .paying c.target m' a m' .paying = t m' .paying - a := by
      simp only [move, if_true, if_neg (target_ne c)]
      omega
    rw [hmove, hsrc, hcol, Number.sub_integer hroom]
    exact ⟨rfl, hroom⟩
  · have hmove : move t .paying c.target m a m' .paying = t m' .paying := by
      simp only [move, if_neg hm, add_zero]
    rw [hmove, column_congr (hothers m' hm)]
    exact h m'

/-- **When the loop goes through**: the items can be moved one after the other, and every payout
    row finds its miner. -/
theorem settleRows_ok_iff {c : SettleCall} {items : List (MinerId × ℤ)} {s : StoredDb}
    {t : Books MinerId Bucket} (h : s.PayingIs t) (hpos : ∀ e ∈ items, 0 < e.2) :
    (∃ s', s.settleRows c items = .ok s') ↔
      (∀ e ∈ items, demand items e.1 ≤ t e.1 .paying) ∧
        (c.paidWith ≠ none → ∀ e ∈ items, s.tables.miners.has e.1 = true) := by
  rw [← moveAll?_isSome (target_ne c) fun e he => (hpos e he).le]
  unfold settleRows
  induction items generalizing s t with
  | nil => simp [settleItems, moveAll?]
  | cons e items ih =>
    obtain ⟨m, a⟩ := e
    have ha : 0 < a := hpos (m, a) List.mem_cons_self
    simp only [settleItems, moveAll?, move?]
    obtain ⟨hcol, -⟩ := h m
    cases htr : s.transfer .paying c.target m a with
    | none =>
      have hlt := (transfer_eq_none_iff ha).1 htr
      rw [hcol, Number.value, Int.cast_lt] at hlt
      rw [if_neg (by omega)]
      simp
    | some s₁ =>
      obtain ⟨hcov, htables, -⟩ := transfer_spec (target_ne c) htr
      rw [hcol, Number.value, Int.cast_le] at hcov
      simp only [bind, Except.bind, if_pos hcov, Option.bind_some, List.forall_mem_cons]
      cases hrec : c.record m a s₁ with
      | error e =>
        have hno : ¬ (c.paidWith ≠ none → s₁.tables.miners.has m = true) := fun hyes => by
          obtain ⟨s₂, h₂⟩ := record_ok_iff.2 hyes
          rw [hrec] at h₂
          cases h₂
        rw [htables] at hno
        simp only [reduceCtorEq, exists_false, false_iff]
        exact fun hall => hno fun hp => (hall.2 hp).1
      | ok s₂ =>
        obtain ⟨-, hmin, -⟩ := record_spec hrec
        have hyes := record_ok_iff.1 ⟨s₂, hrec⟩
        rw [htables] at hyes
        obtain ⟨-, hnext⟩ := payingIs_transfer h ha htr hrec
        simp only
        rw [ih hnext fun x hx => hpos x (List.mem_cons_of_mem _ hx), hmin, htables]
        exact and_congr_right fun _ =>
          ⟨fun hrest hp => ⟨hyes hp, hrest hp⟩, fun hall hp => (hall hp).2⟩

/-- **What the loop leaves.** -/
theorem settleRows_spec {c : SettleCall} {items : List (MinerId × ℤ)} {s s' : StoredDb}
    (hpos : ∀ e ∈ items, 0 < e.2) (h : s.settleRows c items = .ok s') :
    s'.tables.payoutItems = s.tables.payoutItems ∧
      s'.tables.payoutRows = s.tables.payoutRows ++ items.filterMap (fun e =>
        c.paidWith.map (fun txid => (e.1, txid, e.2))) ∧
      (∀ m, m ∉ items.map Prod.fst → s'.balances.get? m = s.balances.get? m) ∧
      (∀ m p, s.column m .paying = .integer p → InRange p →
        s'.column m .paying = .integer (p - demand items m)) ∧
      (∀ m x, s.column m c.target = .integer x → InRange x → x + demand items m ≤ maxInteger →
        s'.column m c.target = .integer (x + demand items m)) ∧
      ∀ m b, b ≠ .paying → b ≠ c.target → s'.column m b = s.column m b := by
  unfold settleRows at h
  induction items generalizing s with
  | nil =>
    cases h
    exact ⟨rfl, by simp, fun _ _ => rfl, fun m p hp _ => by simpa using hp,
      fun m x hx _ _ => by simpa using hx, fun _ _ _ _ => rfl⟩
  | cons e items ih =>
    obtain ⟨m, a⟩ := e
    have ha : 0 < a := hpos (m, a) List.mem_cons_self
    have hrest := demand_nonneg fun e he => (hpos e (List.mem_cons_of_mem _ he)).le
    simp only [settleItems] at h
    split at h
    · cases h
    · rename_i s₁ htr
      obtain ⟨hcov, htables, hothers, hsrc, hdst, hkeep⟩ := transfer_spec (target_ne c) htr
      simp only [bind, Except.bind] at h
      split at h
      · cases h
      · rename_i s₂ hrec
        obtain ⟨hbal, -, hitems₂, hrows₂⟩ := record_spec hrec
        obtain ⟨hitems, hrows, hmiss, hpay, htgt, hother⟩ :=
          ih (fun x hx => hpos x (List.mem_cons_of_mem _ hx)) h
        have hcol : ∀ m' b, s₂.column m' b = s₁.column m' b := fun m' b =>
          column_congr (by rw [hbal]) b
        refine ⟨?_, ?_, fun m' hm => ?_, fun m' p hp hr => ?_, fun m' x hx hr hroom => ?_,
          fun m' b hb hb' => ?_⟩
        · rw [hitems, hitems₂, htables]
        · rw [hrows, hrows₂, htables, List.append_assoc]
          cases c.paidWith <;> rfl
        · rw [List.map_cons, List.mem_cons, not_or] at hm
          rw [hmiss m' hm.2, hbal, hothers m' hm.1]
        · rw [demand_cons]
          by_cases hm : m = m'
          · subst hm
            rw [hp, Number.value, Int.cast_le] at hcov
            have hin : InRange (p - a) := ⟨by omega, by have := hr.2; omega⟩
            have hnext : s₂.column m .paying = .integer (p - a) := by
              rw [hcol, hsrc, hp, Number.sub_integer hin]
              rfl
            rw [hpay m _ hnext hin, if_pos rfl, sub_sub]
          · have hnext : s₂.column m' .paying = .integer p := by
              rw [hcol, column_congr (hothers m' (Ne.symm hm)), hp]
            rw [hpay m' _ hnext hr, if_neg hm, zero_add]
        · rw [demand_cons] at hroom ⊢
          by_cases hm : m = m'
          · subst hm
            rw [if_pos rfl] at hroom ⊢
            have hdm := hrest m
            have hin : InRange (x + a) := ⟨by have := hr.1; omega, by omega⟩
            have hnext : s₂.column m c.target = .integer (x + a) := by
              rw [hcol, hdst, hx, Number.add_integer hin]
              rfl
            rw [htgt m _ hnext hin (by omega), add_assoc]
          · rw [if_neg hm, zero_add] at hroom ⊢
            have hnext : s₂.column m' c.target = .integer x := by
              rw [hcol, column_congr (hothers m' (Ne.symm hm)), hx]
            exact htgt m' _ hnext hr hroom
        · rw [hother m' b hb hb', hcol]
          by_cases hm : m' = m
          · subst hm
            exact hkeep b hb hb'
          · exact column_congr (hothers m' hm) b

/-! ## What a settlement does -/

/-- The items of the attempt moved from `paying` to where `c` sends them, and nothing else did. -/
structure Settles (c : SettleCall) (s s' : StoredDb) : Prop where
  paying : ∀ m p, s.column m .paying = .integer p → InRange p →
    s'.column m .paying = .integer (p - demand (s.tables.itemsOf c.attempt) m)
  /-- As long as the sum is a 64-bit integer. -/
  target : ∀ m x, s.column m c.target = .integer x → InRange x →
    x + demand (s.tables.itemsOf c.attempt) m ≤ maxInteger →
    s'.column m c.target = .integer (x + demand (s.tables.itemsOf c.attempt) m)
  otherBucket : ∀ m b, b ≠ .paying → b ≠ c.target → s'.column m b = s.column m b
  otherMiners : ∀ m, m ∉ (s.tables.itemsOf c.attempt).map Prod.fst →
    s'.balances.get? m = s.balances.get? m
  gone : s'.tables.itemsOf c.attempt = []
  otherAttempts : ∀ a, a ≠ c.attempt → s'.tables.itemsOf a = s.tables.itemsOf a
  payouts : s'.tables.payoutRows = s.tables.payoutRows ++
    (s.tables.itemsOf c.attempt).filterMap (fun e =>
      c.paidWith.map (fun txid => (e.1, txid, e.2)))

theorem itemsOf_of_deleted {db db' : PoolDb} {a : AttemptId}
    (h : db'.payoutItems = db.payoutItems.filter (fun r => r.attemptId != a)) (b : AttemptId) :
    db'.itemsOf b = if b = a then [] else db.itemsOf b := by
  rw [PoolDb.itemsOf_eq, PoolDb.itemsOf_eq, h, Auto.values_filter, List.filter_filter]
  split
  · rename_i hb
    subst hb
    rw [List.filter_eq_nil_iff.2, List.map_nil]
    intro r _
    simp
  · rename_i hb
    congr 1
    apply List.filter_congr
    intro r _
    by_cases hr : r.attemptId = b
    · simp [hr, hb]
    · simp [hr]

theorem settles_of_call {c : SettleCall} {s s' : StoredDb} {n : ℕ}
    (hpos : ∀ e ∈ s.tables.itemsOf c.attempt, 0 < e.2) (h : s.call c = .ok (n, s')) :
    n = (s.tables.itemsOf c.attempt).length ∧ Settles c s s' := by
  rw [call_eq] at h
  cases hloop : s.settleRows c (s.tables.itemsOf c.attempt) with
  | error e =>
    rw [hloop] at h
    cases h
  | ok s₁ =>
    rw [hloop] at h
    cases h
    obtain ⟨hitems, hrows, hmiss, hpay, htgt, hother⟩ := settleRows_spec hpos hloop
    have hdeleted : (s₁.tables.deleteItems c.attempt).payoutItems
        = s.tables.payoutItems.filter (fun r => r.attemptId != c.attempt) := by
      unfold PoolDb.deleteItems
      rw [hitems]
    exact ⟨rfl, hpay, htgt, hother, hmiss,
      by rw [itemsOf_of_deleted hdeleted, if_pos rfl],
      fun a ha => by rw [itemsOf_of_deleted hdeleted, if_neg ha], hrows⟩

end StoredDb

open StoredDb

/-- **Confirm and refund are all-or-nothing on any books.**  They succeed exactly when `paying`
    covers, for every miner of the attempt, the sum of its items, and, for a confirmation, every
    such miner is recorded; then exactly these sums move and the items are gone; a call that fails,
    also at its commit, leaves the database as it was. -/
theorem settles_all_or_nothing (c : SettleCall) (s : StoredDb) (t : Books MinerId Bucket)
    (hpaying : s.PayingIs t) (hpos : ∀ e ∈ s.tables.itemsOf c.attempt, 0 < e.2) :
    ((∃ n s', s.execute none c = (.ok n, s')) ↔
      (∀ m ∈ (s.tables.itemsOf c.attempt).map Prod.fst,
        demand (s.tables.itemsOf c.attempt) m ≤ t m .paying) ∧
      (c.paidWith ≠ none → ∀ m ∈ (s.tables.itemsOf c.attempt).map Prod.fst,
        s.tables.miners.has m = true)) ∧
    (∀ n s', s.execute none c = (.ok n, s') →
      n = (s.tables.itemsOf c.attempt).length ∧ Settles c s s') ∧
    (∀ commit e s', s.execute commit c = (.error e, s') → s' = s) := by
  refine ⟨?_, fun n s' h => settles_of_call hpos (execute_ok_iff.1 h), fun commit e s' h => ?_⟩
  · rw [List.forall_mem_map, List.forall_mem_map, ← settleRows_ok_iff hpaying hpos]
    constructor
    · rintro ⟨n, s', h⟩
      rw [execute_ok_iff, call_eq] at h
      cases hloop : s.settleRows c (s.tables.itemsOf c.attempt) with
      | error e =>
        rw [hloop] at h
        cases h
      | ok s₁ => exact ⟨s₁, rfl⟩
    · rintro ⟨s₁, h⟩
      have hcall : s.call c = .ok ((s.tables.itemsOf c.attempt).length,
          { s₁ with tables := s₁.tables.deleteItems c.attempt }) := by
        rw [call_eq, h]
        rfl
      exact ⟨_, _, execute_ok_iff.2 hcall⟩
  · have herror : (s.execute commit c).1 = .error e := by rw [h]
    have hsame := atomic_error herror
    rw [← execute, h] at hsame
    exact hsame

/-- Two items of one miner, of which `paying` covers the first only. -/
def halfCoveredBooks : PoolDb :=
  { run PoolDb.step PoolDb.empty sharedMinerRun with
    payoutItems := (Auto.empty.insert ⟨1, 1, 40⟩).insert ⟨1, 1, 50⟩ }

/-- Stored integer books hold what the integer books hold. -/
theorem payingIs_of {db : PoolDb}
    (h : ∀ e ∈ db.balances.rows, InRange e.2.paying) : (of db).PayingIs db.books := by
  intro m
  refine ⟨column_of db m .paying, ?_⟩
  unfold PoolDb.books
  cases hm : db.balances.get? m with
  | none => exact (by decide : InRange 0)
  | some r => exact h (m, r) (Keyed.get?_eq_some_iff.1 hm)

theorem settles_all_or_nothing_halfCovered :
    (¬ ∃ n s', (of halfCoveredBooks).execute none (.confirm 1 "aa") = (.ok n, s')) ∧
      ∀ commit e s', (of halfCoveredBooks).execute commit (.confirm 1 "aa") = (.error e, s') →
        s' = of halfCoveredBooks := by
  have hpos : ∀ e ∈ (of halfCoveredBooks).tables.itemsOf 1, 0 < e.2 := by decide +kernel
  have hpaying : (of halfCoveredBooks).PayingIs halfCoveredBooks.books :=
    payingIs_of (by decide +kernel)
  obtain ⟨hiff, -, hfailed⟩ := settles_all_or_nothing (.confirm 1 "aa") _ _ hpaying hpos
  refine ⟨fun h => ?_, hfailed⟩
  have hcovered := (hiff.1 h).1
  exact absurd hcovered (by decide +kernel)

/-- One item that `paying` covers, of a miner without its row. -/
def forgottenMinerBooks : PoolDb :=
  { PoolDb.empty with
    balances := Keyed.empty.insertIgnore 1 ⟨0, 50, 0⟩
    payoutItems := Auto.empty.insert ⟨1, 1, 50⟩ }

/-- The same item, of a miner that was paid all there can be. -/
def fullyPaidBooks : PoolDb :=
  { forgottenMinerBooks with
    miners := Auto.empty.insert ⟨"t1miner", 0⟩
    balances := Keyed.empty.insertIgnore 1 ⟨0, 50, 2 ^ 63 - 1⟩ }

/-- **Counterexample.**  On corrupt books a covered confirmation fails on the foreign key of the
    payout row, or makes a real of `paid`, which then is not the sum. -/
theorem covered_not_settled :
    ((∀ e ∈ forgottenMinerBooks.itemsOf 1,
        demand (forgottenMinerBooks.itemsOf 1) e.1 ≤ forgottenMinerBooks.books e.1 .paying) ∧
      (of forgottenMinerBooks).execute none (.confirm 1 "aa")
        = (.error (.sqlx .foreignKey), of forgottenMinerBooks)) ∧
    ∃ s', (of fullyPaidBooks).execute none (.confirm 1 "aa") = (.ok 1, s') ∧
      s'.column 1 .paid = .real (2 ^ 63) := by
  refine ⟨⟨by decide +kernel, rfl⟩, _, rfl, by decide +kernel⟩

end ZcashMiningPool
