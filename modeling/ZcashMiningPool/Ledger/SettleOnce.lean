import ZcashMiningPool.Ledger.Settlement

/-!
# Reservations settle once

The payout loop, the startup pass and the sweep may all try to settle the same attempt.  This
module runs any sequence of `confirm_payout` and `refund_payout` calls from a reachable state.

* `SettleCall`, `settleAll` — one call, and the state after a sequence of them.
* `firstCall` — which call came first for each attempt.
* `Outcome` — the books, items and payout rows that follow from the first calls alone.
* `Outcome.settleAll` — every sequence has the outcome of its first calls.

Main result: `settled_once`.  `StoredDb.Follows.settleAll` carries it to the stored columns: while
no holding has left the 64-bit range, the calls do to them what they do here.
-/

set_option autoImplicit false

namespace ZcashMiningPool

open Table Buckets Machine

/-- One try to settle a reservation. -/
inductive SettleCall where
  | confirm (attemptId : AttemptId) (txid : String)
  | refund (attemptId : AttemptId)
  deriving DecidableEq, Repr

namespace SettleCall

def attempt : SettleCall → AttemptId
  | .confirm a _ => a
  | .refund a => a

def op : SettleCall → Op
  | .confirm a txid => .confirmPayout a txid
  | .refund a => .refundPayout a

/-- What becomes of a reserved zatoshi. -/
def effect : SettleCall → Bucket → ℤ
  | _, .paying => -1
  | .confirm _ _, .paid => 1
  | .refund _, .pending => 1
  | _, _ => 0

/-- The transaction of the payout rows the call writes. -/
def paidWith : SettleCall → Option String
  | .confirm _ txid => some txid
  | .refund _ => none

end SettleCall

/-- The call that comes first for an attempt. -/
def firstCall (calls : List SettleCall) (a : AttemptId) : Option SettleCall :=
  calls.find? (fun c => c.attempt == a)

namespace PoolDb

def call (db : PoolDb) : SettleCall → Except DbError (ℕ × PoolDb)
  | .confirm a txid => db.confirmPayout a txid
  | .refund a => db.refundPayout a

/-- The state after one call, and after a sequence of calls. -/
def settle (db : PoolDb) (c : SettleCall) : PoolDb := db.step c.op

def settleAll (db : PoolDb) (calls : List SettleCall) : PoolDb := run settle db calls

/-- What the first calls move into a column of a miner. -/
def shift (db : PoolDb) (first : AttemptId → Option SettleCall) (m : MinerId) (b : Bucket) : ℤ :=
  db.payoutItems.sum (fun r =>
    if r.minerId = m then ((first r.attemptId).elim 0 (·.effect b)) * r.amount else 0)

/-- The payout rows the first calls write: miner, transaction, amount. -/
def paidItems (db : PoolDb) (first : AttemptId → Option SettleCall) :
    List (MinerId × String × ℤ) :=
  db.payoutItems.values.filterMap (fun r =>
    ((first r.attemptId).bind (·.paidWith)).map (fun txid => (r.minerId, txid, r.amount)))

/-- The payout rows without their ids and times. -/
def payoutRows (db : PoolDb) : List (MinerId × String × ℤ) :=
  db.payouts.values.map (fun r => (r.minerId, r.txid, r.amount))

/-- What the tables hold when each attempt was settled by its first call. -/
structure Outcome (db : PoolDb) (first : AttemptId → Option SettleCall) (db' : PoolDb) : Prop where
  books : ∀ m b, db'.books m b = db.books m b + db.shift first m b
  known : ∀ m, (db'.balances.get? m).isSome = (db.balances.get? m).isSome
  items : db'.payoutItems = db.payoutItems.filter (fun r => (first r.attemptId).isNone)
  payouts : db'.payoutRows.Perm (db.payoutRows ++ db.paidItems first)

/-- Balances, items and the multiset of payout rows agree. -/
structure SameSettlement (db db' : PoolDb) : Prop where
  balances : ∀ m, db'.balances.get? m = db.balances.get? m
  items : db'.payoutItems = db.payoutItems
  payouts : db'.payoutRows.Perm db.payoutRows

/-! ## One call -/

theorem itemsOf_eq (db : PoolDb) (a : AttemptId) :
    db.itemsOf a = (db.payoutItems.values.filter (fun r => r.attemptId == a)).map
      (fun r => (r.minerId, r.amount)) := by
  simp [itemsOf, Auto.values, List.filter_map, Function.comp_def]

/-- Settled attempts hold no items, the others hold what they held. -/
theorem Outcome.itemsOf {db db' : PoolDb} {first : AttemptId → Option SettleCall}
    (h : Outcome db first db') (a : AttemptId) :
    db'.itemsOf a = if (first a).isNone then db.itemsOf a else [] := by
  rw [itemsOf_eq, itemsOf_eq, h.items, Auto.values_filter, List.filter_filter]
  split
  · rename_i ha
    rw [List.filter_congr]
    intro r _
    rw [Bool.eq_iff_iff, Bool.and_eq_true, beq_iff_eq]
    constructor
    · exact fun hr => hr.1
    · rintro rfl
      exact ⟨rfl, ha⟩
  · rename_i ha
    rw [List.filter_eq_nil_iff.2, List.map_nil]
    intro r _ hr
    rw [Bool.and_eq_true, beq_iff_eq] at hr
    exact ha (hr.1 ▸ hr.2)

theorem deleteItems_of_none {db : PoolDb} {a : AttemptId} (h : db.itemsOf a = []) :
    db.deleteItems a = db := by
  have hrows : db.payoutItems.rows.filter (fun e => e.2.attemptId != a) = db.payoutItems.rows := by
    rw [List.filter_eq_self]
    intro e he
    rw [PoolDb.itemsOf, List.map_eq_nil_iff, List.filter_eq_nil_iff] at h
    simpa [bne] using h e he
  have htable : db.payoutItems.filter (fun r => r.attemptId != a) = db.payoutItems :=
    Auto.ext_rows hrows rfl
  unfold deleteItems
  rw [htable]

/-- A call on an attempt without items returns 0 and changes nothing. -/
theorem call_of_none {db : PoolDb} {c : SettleCall} (h : db.itemsOf c.attempt = []) :
    db.call c = .ok (0, db) := by
  cases c with
  | confirm a txid =>
    simp only [SettleCall.attempt] at h
    simp [call, confirmPayout, h, settleItems, bind, Except.bind, deleteItems_of_none h]
  | refund a =>
    simp only [SettleCall.attempt] at h
    simp [call, refundPayout, h, settleItems, bind, Except.bind, deleteItems_of_none h]

theorem settle_of_call {db db' : PoolDb} {c : SettleCall} {n : ℕ}
    (h : db.call c = .ok (n, db')) : db.settle c = db' := by
  cases c with
  | confirm a txid =>
    apply step_ok
    simp only [SettleCall.op, exec]
    rw [show db.confirmPayout a txid = .ok (n, db') from h]
    rfl
  | refund a =>
    apply step_ok
    simp only [SettleCall.op, exec]
    rw [show db.refundPayout a = .ok (n, db') from h]
    rfl

/-- Settling moves amounts between the columns of the rows there are. -/
theorem settleItems_known {src dst : Bucket} {message : MinerId → ℤ → String}
    {record : MinerId → ℤ → PoolDb → PoolDb}
    (hbal : ∀ m a (db : PoolDb), (record m a db).balances = db.balances)
    {items : List (MinerId × ℤ)} {db db' : PoolDb}
    (h : settleItems src dst message record db items = .ok db') (m : MinerId) :
    (db'.balances.get? m).isSome = (db.balances.get? m).isSome := by
  induction items generalizing db with
  | nil =>
    cases h
    rfl
  | cons e items ih =>
    obtain ⟨k, amount⟩ := e
    simp only [settleItems] at h
    split at h
    · cases h
    · rename_i db₁ htr
      obtain ⟨t, ht, rfl⟩ := Option.map_eq_some_iff.1 htr
      obtain ⟨r, hr, -, rfl⟩ := Keyed.modifyIf_eq_some_iff.1 ht
      rw [ih h, hbal, Keyed.get?_modify]
      split
      · rename_i he
        simp [he, hr]
      · rfl

theorem call_known {db db' : PoolDb} {c : SettleCall} {n : ℕ} (h : db.call c = .ok (n, db'))
    (m : MinerId) : (db'.balances.get? m).isSome = (db.balances.get? m).isSome := by
  cases c with
  | confirm a txid =>
    simp only [call, confirmPayout, bind, Except.bind] at h
    split at h
    · cases h
    · rename_i db₁ h₁
      cases h
      have hknown := settleItems_known (by intros; rfl) h₁ m
      exact hknown
  | refund a =>
    simp only [call, refundPayout, bind, Except.bind] at h
    split at h
    · cases h
    · rename_i db₁ h₁
      cases h
      have hknown := settleItems_known (by intros; rfl) h₁ m
      exact hknown

/-- **What a call does**, confirmation and refund alike. -/
theorem call_spec {db db' : PoolDb} {c : SettleCall} {n : ℕ} (h : db.call c = .ok (n, db')) :
    n = (db.itemsOf c.attempt).length ∧
    db'.payoutItems = db.payoutItems.filter (fun r => r.attemptId != c.attempt) ∧
    (∀ m b, db'.books m b = db.books m b + c.effect b * demand (db.itemsOf c.attempt) m) ∧
    db'.payoutRows = db.payoutRows ++ (db.itemsOf c.attempt).filterMap (fun e =>
      c.paidWith.map (fun txid => (e.1, txid, e.2))) := by
  cases c with
  | confirm a txid =>
    obtain ⟨hn, bal, pays, rfl, hpays, hmove⟩ := confirmPayout_spec h
    refine ⟨hn, rfl, fun m b => ?_, ?_⟩
    · rw [moveAll?_some hmove, moveDemand]
      cases b <;> simp [SettleCall.effect, SettleCall.attempt]
    · simp only [payoutRows, hpays, List.map_append, List.map_map, SettleCall.paidWith,
        Option.map_some, SettleCall.attempt]
      rw [List.filterMap_eq_map']
      rfl
  | refund a =>
    obtain ⟨hn, bal, rfl, hmove⟩ := refundPayout_spec h
    refine ⟨hn, rfl, fun m b => ?_, ?_⟩
    · rw [moveAll?_some hmove, moveDemand]
      cases b <;> simp [SettleCall.effect, SettleCall.attempt]
    · simp [payoutRows, SettleCall.paidWith]

/-- In a state of the payout ledger every call succeeds. -/
theorem SettlementInv.call_ok {db : PoolDb} (h : SettlementInv db) (c : SettleCall) :
    ∃ r, db.call c = .ok r := by
  cases c with
  | confirm a txid =>
    exact (confirmPayout_ok_iff (itemsOf_pos h.rows.items_pos a) txid).2 (h.items_covered a)
  | refund a => exact (refundPayout_ok_iff (itemsOf_pos h.rows.items_pos a)).2 (h.items_covered a)

theorem SettlementInv.settle {db : PoolDb} (h : SettlementInv db) (c : SettleCall) :
    SettlementInv (db.settle c) := by
  have hop : c.op.SettlementOk := by cases c <;> trivial
  exact settlementInv_step h hop

/-! ## Sequences of calls -/

theorem outcome_refl (db : PoolDb) : Outcome db (fun _ => none) db := by
  refine ⟨fun m b => ?_, fun _ => rfl, ?_, ?_⟩
  · simp [shift, Auto.sum_eq]
  · have hall : db.payoutItems.filter (fun _ => true) = db.payoutItems :=
      Auto.ext_rows (List.filter_eq_self.2 fun _ _ => rfl) rfl
    exact hall.symm
  · simp [paidItems]

/-- A figure of the items of one attempt. -/
theorem demand_itemsOf (db : PoolDb) (a : AttemptId) (m : MinerId) :
    demand (db.itemsOf a) m = db.payoutItems.sum (fun r =>
      if r.attemptId = a then (if r.minerId = m then r.amount else 0) else 0) := by
  rw [itemsOf_eq, Auto.sum_values, demand, List.map_map]
  induction db.payoutItems.values with
  | nil => rfl
  | cons r l ih =>
    by_cases ha : r.attemptId = a
    · simp [ha, ih]
    · simp [ha, ih]

/-- The first call on an attempt adds its part to the figures. -/
theorem shift_update {db : PoolDb} {first : AttemptId → Option SettleCall} {c : SettleCall}
    (hfirst : first c.attempt = none) (m : MinerId) (b : Bucket) :
    db.shift (Function.update first c.attempt (some c)) m b
      = db.shift first m b + c.effect b * demand (db.itemsOf c.attempt) m := by
  rw [demand_itemsOf]
  simp only [shift, Auto.sum_values]
  induction db.payoutItems.values with
  | nil => simp
  | cons r l ih =>
    simp only [List.map_cons, List.sum_cons, ih]
    by_cases ha : r.attemptId = c.attempt
    · by_cases hm : r.minerId = m
      · simp only [ha, hm, Function.update_self, hfirst, Option.elim_some, Option.elim_none,
          if_true]
        ring
      · simp [hm, ha]
    · rw [Function.update_of_ne ha, if_neg ha]
      ring

/-- The rows it writes join those of the earlier calls. -/
theorem paidItems_update {db : PoolDb} {first : AttemptId → Option SettleCall} {c : SettleCall}
    (hfirst : first c.attempt = none) :
    (db.paidItems first ++ (db.itemsOf c.attempt).filterMap (fun e =>
        c.paidWith.map (fun txid => (e.1, txid, e.2)))).Perm
      (db.paidItems (Function.update first c.attempt (some c))) := by
  rw [itemsOf_eq]
  simp only [paidItems]
  induction db.payoutItems.values with
  | nil => rfl
  | cons r l ih =>
    by_cases ha : r.attemptId = c.attempt
    · rw [List.filter_cons_of_pos (by simpa using ha), List.map_cons]
      simp only [List.filterMap_cons, ha, hfirst, Function.update_self, Option.bind_none,
        Option.bind_some, Option.map_none]
      cases hpaid : c.paidWith with
      | none =>
        rw [hpaid] at ih
        exact ih
      | some txid =>
        rw [hpaid] at ih
        exact List.perm_middle.trans (ih.cons _)
    · rw [List.filter_cons_of_neg (by simpa using ha)]
      simp only [List.filterMap_cons, Function.update_of_ne ha]
      cases ((first r.attemptId).bind (·.paidWith)).map
          (fun txid => (r.minerId, txid, r.amount)) with
      | none => exact ih
      | some row => exact ih.cons row

/-- **The first call on an attempt** settles the items it had from the start. -/
theorem Outcome.call {db db₁ db₂ : PoolDb} {first : AttemptId → Option SettleCall}
    {c : SettleCall} {n : ℕ} (h : Outcome db first db₁) (hfirst : first c.attempt = none)
    (hc : db₁.call c = .ok (n, db₂)) :
    n = (db.itemsOf c.attempt).length ∧
      Outcome db (Function.update first c.attempt (some c)) db₂ := by
  obtain ⟨hn, hitems, hbooks, hrows⟩ := call_spec hc
  have hsame : db₁.itemsOf c.attempt = db.itemsOf c.attempt := by
    rw [h.itemsOf, if_pos (by rw [hfirst]; rfl)]
  rw [hsame] at hn hbooks hrows
  refine ⟨hn, fun m b => ?_, fun m => (call_known hc m).trans (h.known m), ?_, ?_⟩
  · rw [hbooks, h.books, shift_update hfirst]
    ring
  · rw [hitems, h.items]
    refine Auto.ext_rows ?_ rfl
    simp only [Auto.filter, List.filter_filter]
    apply List.filter_congr
    intro e _
    by_cases ha : e.2.attemptId = c.attempt
    · simp [ha]
    · simp [ha]
  · rw [hrows]
    refine (h.payouts.append_right _).trans ?_
    rw [List.append_assoc]
    exact (paidItems_update hfirst).append_left _

theorem firstCall_append (calls : List SettleCall) (c : SettleCall) :
    firstCall (calls ++ [c]) =
      if firstCall calls c.attempt = none then
        Function.update (firstCall calls) c.attempt (some c)
      else firstCall calls := by
  funext a
  have happend : firstCall (calls ++ [c]) a
      = (firstCall calls a).or (if c.attempt = a then some c else none) := by
    unfold firstCall
    rw [List.find?_append]
    by_cases ha : c.attempt = a
    · simp [ha]
    · simp [ha]
  rw [happend]
  by_cases ha : c.attempt = a
  · subst ha
    cases hf : firstCall calls c.attempt with
    | none => simp
    | some c' => simp [hf]
  · rw [if_neg ha, Option.or_none]
    split
    · rw [Function.update_of_ne (Ne.symm ha)]
    · rfl

/-- After one more successful call the outcome is that of the first calls again. -/
theorem Outcome.settle {db db₁ db₂ : PoolDb} {calls : List SettleCall} {c : SettleCall} {n : ℕ}
    (h : Outcome db (firstCall calls) db₁) (hc : db₁.call c = .ok (n, db₂)) :
    Outcome db (firstCall (calls ++ [c])) db₂ := by
  rw [firstCall_append]
  split
  · rename_i hfirst
    exact (h.call hfirst hc).2
  · rename_i hfirst
    have hnone : db₁.itemsOf c.attempt = [] := by
      rw [h.itemsOf, if_neg (by simpa using hfirst)]
    rw [call_of_none hnone] at hc
    cases hc
    exact h

/-- **Every sequence of calls has the outcome of its first calls.** -/
theorem Outcome.settleAll {db db₁ : PoolDb} {before : List SettleCall} (hinv : SettlementInv db₁)
    (h : Outcome db (firstCall before) db₁) (calls : List SettleCall) :
    SettlementInv (db₁.settleAll calls) ∧
      Outcome db (firstCall (before ++ calls)) (db₁.settleAll calls) := by
  induction calls generalizing db₁ before with
  | nil =>
    rw [List.append_nil]
    exact ⟨hinv, h⟩
  | cons c calls ih =>
    obtain ⟨⟨n, db₂⟩, hc⟩ := hinv.call_ok c
    have hnext : Outcome db (firstCall (before ++ [c])) (db₁.settle c) := by
      rw [settle_of_call hc]
      exact h.settle hc
    have hrest := ih (hinv.settle c) hnext
    rw [List.append_assoc] at hrest
    exact hrest

theorem outcome_settleAll {db : PoolDb} (h : SettlementInv db) (calls : List SettleCall) :
    SettlementInv (db.settleAll calls) ∧ Outcome db (firstCall calls) (db.settleAll calls) := by
  have hrefl : Outcome db (firstCall []) db := outcome_refl db
  exact hrefl.settleAll h calls

/-- Rows are their three columns. -/
theorem get?_balances_of_books {db db' : PoolDb} {m : MinerId}
    (hknown : (db'.balances.get? m).isSome = (db.balances.get? m).isSome)
    (hbooks : ∀ b, db'.books m b = db.books m b) :
    db'.balances.get? m = db.balances.get? m := by
  simp only [books] at hbooks
  cases hr : db.balances.get? m with
  | none =>
    rw [hr] at hknown
    exact Option.isNone_iff_eq_none.1 (by simpa using hknown)
  | some r =>
    rw [hr] at hknown
    obtain ⟨r', hr'⟩ := Option.isSome_iff_exists.1 hknown
    simp only [hr, hr', Option.map_some, Option.getD_some] at hbooks
    have hpending := hbooks .pending
    have hpaying := hbooks .paying
    have hpaid := hbooks .paid
    simp only [Balance.get] at hpending hpaying hpaid
    rw [hr']
    cases r
    cases r'
    simp only at hpending hpaying hpaid
    rw [hpending, hpaying, hpaid]

/-- The first calls determine balances, items and payout rows. -/
theorem Outcome.same {db db₁ db₂ : PoolDb} {first : AttemptId → Option SettleCall}
    (h₁ : Outcome db first db₁) (h₂ : Outcome db first db₂) : SameSettlement db₁ db₂ := by
  refine ⟨fun m => ?_, ?_, h₂.payouts.trans h₁.payouts.symm⟩
  · apply get?_balances_of_books
    · rw [h₁.known, h₂.known]
    · intro b
      rw [h₁.books, h₂.books]
  · rw [h₁.items, h₂.items]

end PoolDb

open PoolDb

/-- **Reservations settle exactly once and independently.**  From a reachable state, whatever
    confirmations and refunds came before: the first call on an attempt settles all its items,
    every later one returns 0 and changes nothing, and sequences with the same first calls leave
    the same balances, items and payout rows. -/
theorem settled_once {db : PoolDb}
    (h : Reachable PoolDb.step (fun _ op => op.SettlementOk) PoolDb.empty db) :
    (∀ calls c, firstCall calls c.attempt = none →
      ∃ db', (db.settleAll calls).call c = .ok ((db.itemsOf c.attempt).length, db') ∧
        db'.itemsOf c.attempt = [] ∧
        Outcome db (Function.update (firstCall calls) c.attempt (some c)) db') ∧
    (∀ calls c, firstCall calls c.attempt ≠ none →
      (db.settleAll calls).call c = .ok (0, db.settleAll calls)) ∧
    (∀ calls calls', firstCall calls = firstCall calls' →
      SameSettlement (db.settleAll calls) (db.settleAll calls')) := by
  have hinv : SettlementInv db := h.invariant settlementInv_empty
    fun _ _ hI hop => settlementInv_step hI hop
  refine ⟨fun calls c hfirst => ?_, fun calls c hfirst => ?_, fun calls calls' heq => ?_⟩
  · obtain ⟨hI, hout⟩ := outcome_settleAll hinv calls
    obtain ⟨⟨n, db'⟩, hc⟩ := hI.call_ok c
    obtain ⟨rfl, hout'⟩ := hout.call hfirst hc
    refine ⟨db', hc, ?_, hout'⟩
    rw [hout'.itemsOf, Function.update_self]
    rfl
  · apply call_of_none
    rw [(outcome_settleAll hinv calls).2.itemsOf, if_neg (by simpa using hfirst)]
  · have h' := (outcome_settleAll hinv calls').2
    rw [← heq] at h'
    exact (outcome_settleAll hinv calls).2.same h'

/-- Two attempts that share a miner. -/
def sharedMinerRun : List Op :=
  [.getOrCreateMiner "t1miner", .getOrCreateMiner "t1other", .creditBalance 1 100,
    .creditBalance 2 50, .createPayoutAttempt 1 40 "loop", .createPayoutAttempt 2 80 "loop",
    .reservePayout 1 [(1, 40)], .reservePayout 2 [(1, 30), (2, 50)]]

theorem settled_once_sharedMinerRun :
    SameSettlement
      ((run PoolDb.step PoolDb.empty sharedMinerRun).settleAll
        [.confirm 1 "aa", .refund 2, .refund 1, .confirm 2 "bb"])
      ((run PoolDb.step PoolDb.empty sharedMinerRun).settleAll [.refund 2, .confirm 1 "aa"]) ∧
    ((run PoolDb.step PoolDb.empty sharedMinerRun).settleAll
      [.refund 2, .confirm 1 "aa"]).books 1 .pending = 60 := by
  refine ⟨(settled_once (Allowed.reachable Reachable.init ?_)).2.2 _ _ ?_, by decide +kernel⟩
  · simp [sharedMinerRun, Allowed, Op.SettlementOk, Op.Lawful]
  · -- attempts 1, 2 and all others
    funext a
    rcases a with _ | _ | _ | a <;> rfl

end ZcashMiningPool
