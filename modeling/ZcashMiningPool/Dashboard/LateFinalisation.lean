import ZcashMiningPool.Dashboard.SharedSend
import ZcashMiningPool.Ledger.SettleOnce

/-!
# Late and live finalisation

A payout that was sent is finalised by the payout loop (`record_tx_cost`, then `confirm_payout`)
or, when the loop stopped before it confirmed, by the reconciler (`confirm_payout`).  This module
compares the two from the moment the request is out.

* `liveLabels` — the loop runs through.
* `Finalising` — what may happen instead: any answers and failures, crashes, time, any number of
  passes over the reserved attempts, and the rest of the pool as far as it leaves balances and
  payout costs alone.
* `RecordsCost` — the loop's `record_tx_cost` succeeds.
* `Agrees` — the late state is the live one, up to the settlement of other attempts.

Main result: `late_agrees_iff`.
-/

set_option autoImplicit false

namespace ZcashMiningPool

open Table Machine

namespace PoolDb

/-- Rows of kind `payout` for a transaction. -/
def payoutCosts (db : PoolDb) (txid : String) : ℕ :=
  db.poolTxCosts.values.countP (fun r => r.kind == .payout && r.ref == txid)

/-- Balances, items, payout rows and payout costs are the same. -/
structure SameTables (db db' : PoolDb) : Prop where
  balances : db'.balances = db.balances
  items : db'.payoutItems = db.payoutItems
  payouts : db'.payouts = db.payouts
  costs : db'.payoutCosts = db.payoutCosts

theorem SameTables.refl (db : PoolDb) : SameTables db db := ⟨rfl, rfl, rfl, rfl⟩

theorem sameTables_update (db : PoolDb) (a : AttemptId) (status : AttemptStatus)
    (opid txid errorMessage : Option String) :
    SameTables db (db.updatePayoutAttempt a status opid txid errorMessage) := ⟨rfl, rfl, rfl, rfl⟩

theorem payoutCosts_record (db : PoolDb) (txid ref : String) (fee : ℤ) :
    (db.recordTxCost .payout ref fee).payoutCosts txid
      = db.payoutCosts txid + if ref = txid then 1 else 0 := by
  unfold payoutCosts recordTxCost
  rw [Auto.values_insert, List.countP_append]
  by_cases h : ref = txid
  · simp [h]
  · simp [h]

/-- Settling an attempt records no cost. -/
theorem payoutCosts_call {db db' : PoolDb} {c : SettleCall} {n : ℕ}
    (h : db.call c = .ok (n, db')) : db'.payoutCosts = db.payoutCosts := by
  cases c with
  | confirm a txid =>
    obtain ⟨-, bal, pays, rfl, -⟩ := confirmPayout_spec h
    rfl
  | refund a =>
    obtain ⟨-, bal, rfl, -⟩ := refundPayout_spec h
    rfl

theorem Outcome.congr {db db₁ db₂ : PoolDb} {first : AttemptId → Option SettleCall}
    (h : Outcome db first db₁) (hbalances : db₂.balances = db₁.balances)
    (hitems : db₂.payoutItems = db₁.payoutItems) (hpayouts : db₂.payouts = db₁.payouts) :
    Outcome db first db₂ := by
  refine ⟨fun m b => ?_, fun m => ?_, hitems.trans h.items, ?_⟩
  · rw [books_eq_of_balances hbalances]
    exact h.books m b
  · rw [hbalances]
    exact h.known m
  · unfold payoutRows
    rw [hpayouts]
    exact h.payouts

end PoolDb

/-- How far a round is; 8 is past `record_tx_cost`, by whatever way. -/
def LoopPc.stage : LoopPc → ℕ
  | .created _ => 0
  | .reserved _ => 1
  | .submitting _ => 2
  | .sending _ => 3
  | .accepted _ _ => 4
  | .waiting _ _ => 5
  | .verifying _ _ _ => 6
  | .costing _ _ => 7
  | _ => 8

/-- The reconciler is at its reserved attempts, not at the payouts of the last day. -/
def SweepPc.AtReserved : SweepPc → Prop
  | .phantoms _ | .askPhantom _ _ | .void _ _ _ => False
  | _ => True

namespace Saga

/-- The rest of the live loop. -/
def liveLabels (opid txid : String) : List Label :=
  [.sendAnswer (.accepted opid), .loopDb .ok,
    .loopStatus (.statuses (some (.success ⟨some (.text txid), none⟩))), .loopNode .found,
    .loopDb .ok, .loopDb .ok, .loopDb .ok]

/-- What may happen between the send and the end. -/
def Finalising (s : Saga) : Label → Prop
  | .world other _ => other.balances = s.db.balances ∧ other.payoutCosts = s.db.payoutCosts
  | .startRound _ _ => False
  | .checkPhantoms _ => False
  | _ => True

/-- `record_tx_cost` succeeds for the transaction. -/
def RecordsCost (txid : String) (s : Saga) (l : Label) : Prop :=
  ∃ p c, s.loop = .costing p txid ∧ l = .loopDb c ∧ c.fails = false

/-- The database the loop leaves and the one reached late: the same balances, items and payout
    rows, up to calls on other attempts, and one cost row for the transaction. -/
structure Agrees (a : AttemptId) (txid : String) (live late : PoolDb) : Prop where
  settlement : ∃ others : List SettleCall, (∀ c ∈ others, c.attempt ≠ a) ∧
    PoolDb.SameSettlement (live.settleAll others) late
  cost : late.payoutCosts txid = 1

variable {w : Wallet} {v : Bool} {s : Saga} {l : Label}

/-! ## Where the counters go -/

theorem refund?_loop {c : DbCall} {a : AttemptId} {s' : Saga} (h : s.refund? c a = some s') :
    s'.loop = s.loop ∧ s'.sweep = s.sweep := by
  obtain ⟨r, -, rfl⟩ := Option.map_eq_some_iff.1 h
  exact ⟨rfl, rfl⟩

theorem confirm?_loop {c : DbCall} {a : AttemptId} {txid : String} {s' : Saga}
    (h : s.confirm? c a txid = some s') : s'.loop = s.loop ∧ s'.sweep = s.sweep := by
  obtain ⟨r, -, rfl⟩ := Option.map_eq_some_iff.1 h
  exact ⟨rfl, rfl⟩

theorem stage_loopDb (c : DbCall) : s.loop.stage ≤ (s.loopDb c).loop.stage := by
  unfold loopDb
  split
  · rename_i p hpc
    rw [hpc]
    split <;> exact Nat.zero_le _
  · rename_i p hpc
    rw [hpc]
    split <;> simp [LoopPc.stage]
  · rename_i p note hpc
    rw [hpc]
    exact le_rfl
  · rename_i p note hpc
    rw [hpc]
    exact le_rfl
  · rename_i p opid hpc
    rw [hpc]
    simp [LoopPc.stage]
  · rename_i p opid txid note hpc
    rw [hpc]
    exact le_rfl
  · rename_i p txid hpc
    rw [hpc]
    split <;> simp [LoopPc.stage]
  · rename_i p txid hpc
    rw [hpc]
    split <;> exact le_rfl
  · rename_i p txid hpc
    rw [hpc]
    exact le_rfl
  · exact le_rfl

theorem stage_sendAnswer (answer : SendAnswer) :
    s.loop.stage ≤ (s.sendAnswer answer).loop.stage := by
  unfold sendAnswer
  split
  · rename_i p hpc
    rw [hpc]
    cases answer <;> simp [LoopPc.stage]
  · exact le_rfl

theorem stage_loopStatus (answer : StatusAnswer) :
    s.loop.stage ≤ (s.loopStatus w answer).loop.stage := by
  unfold loopStatus
  split
  · rename_i p opid hpc
    rw [hpc]
    split <;> simp [LoopPc.stage, hpc]
  · exact le_rfl

theorem stage_loopNode (answer : NodeAnswer) :
    s.loop.stage ≤ (s.loopNode w answer).loop.stage := by
  unfold loopNode
  simp only
  split
  · rename_i p txid tries hpc
    rw [hpc]
    cases answer with
    | found => simp [LoopPc.stage]
    | notFound message => simp only; split <;> simp [LoopPc.stage]
    | error message => simp only; split <;> simp [LoopPc.stage]
  · exact le_rfl

theorem loop_sweepDb (c : DbCall) : (s.sweepDb c).loop = s.loop := by
  unfold sweepDb
  split
  · split
    · rfl
    · rename_i s' hs'
      exact (refund?_loop hs').1
  · unfold update
    split <;> rfl
  · split
    · rfl
    · rename_i s' hs'
      exact (confirm?_loop hs').1
  · unfold update
    split <;> rfl
  · rename_i txid at_ rest hpc
    unfold void?
    cases c.result (s.db.voidReorgedPayout txid) <;> rfl
  · rfl

/-- A round does not go back. -/
theorem stage_step (hl : s.Finalising l) : s.loop.stage ≤ (s.step w v l).loop.stage := by
  cases l with
  | world other seconds => exact le_rfl
  | crash =>
    show s.loop.stage ≤ 8
    cases s.loop <;> simp [LoopPc.stage]
  | tx attempt state => exact le_rfl
  | startRound payoutList c => exact hl.elim
  | loopDb c => exact stage_loopDb c
  | sendmany =>
    simp only [step, sendmany]
    split
    · rename_i p hpc
      simp [hpc, LoopPc.stage]
    · exact le_rfl
  | sendAnswer answer => exact stage_sendAnswer answer
  | loopStatus answer => exact stage_loopStatus answer
  | loopTimeout =>
    simp only [step, loopTimeout]
    split
    · rename_i p opid hpc
      simp [hpc, LoopPc.stage]
    · exact le_rfl
  | loopNode answer => exact stage_loopNode answer
  | reconcile minutes c =>
    simp only [step, reconcile]
    split
    · split <;> exact le_rfl
    · exact le_rfl
  | checkPhantoms c => exact hl.elim
  | sweepNext =>
    simp only [step, sweepNext]
    split <;> first | exact le_rfl | (split <;> exact le_rfl)
  | sweepStatus answer =>
    simp only [step, sweepStatus]
    split
    · split
      · split <;> exact le_rfl
      · exact le_rfl
      · exact le_rfl
    · exact le_rfl
  | sweepNode answer =>
    simp only [step, sweepNode]
    split
    · split <;> exact le_rfl
    · split <;> exact le_rfl
    · exact le_rfl
  | sweepDb c =>
    show s.loop.stage ≤ (s.sweepDb c).loop.stage
    rw [loop_sweepDb]

theorem sweep_loopDb (c : DbCall) : (s.loopDb c).sweep = s.sweep := by
  unfold loopDb
  split
  · split <;> rfl
  · split
    · rfl
    · unfold update
      split <;> rfl
  · unfold refund?
    cases c.result (s.db.refundPayout _) <;> rfl
  · unfold update
    split <;> rfl
  · unfold update
    split <;> rfl
  · unfold update
    split <;> rfl
  · split <;> rfl
  · split
    · rfl
    · rename_i s' hs'
      exact (confirm?_loop hs').2
  · unfold update
    split <;> rfl
  · rfl

theorem atReserved_sweepDb (h : s.sweep.AtReserved) (c : DbCall) :
    (s.sweepDb c).sweep.AtReserved := by
  unfold sweepDb
  split
  · split <;> trivial
  · trivial
  · split <;> trivial
  · trivial
  · rename_i txid at_ rest hpc
    rw [hpc] at h
    exact h.elim
  · exact h

theorem atReserved_sweepNode (h : s.sweep.AtReserved) (answer : NodeAnswer) :
    (s.sweepNode w v answer).sweep.AtReserved := by
  unfold sweepNode
  split
  · split <;> trivial
  · rename_i txid rest hpc
    rw [hpc] at h
    exact h.elim
  · exact h

theorem atReserved_classify (now : ℕ) (r : PoolDb.ReservedAttempt)
    (rest : List PoolDb.ReservedAttempt) : (classify now r rest).AtReserved := by
  unfold classify
  split
  · trivial
  · trivial
  · split
    · trivial
    · split <;> trivial

theorem atReserved_sweepNext (h : s.sweep.AtReserved) : s.sweepNext.sweep.AtReserved := by
  unfold sweepNext
  split
  · trivial
  · exact atReserved_classify _ _ _
  · split <;> trivial
  · trivial
  · rename_i txid n rest hpc
    rw [hpc] at h
    exact h.elim
  · exact h

/-- The reconciler stays at its reserved attempts. -/
theorem atReserved_step (hl : s.Finalising l) (h : s.sweep.AtReserved) :
    (s.step w v l).sweep.AtReserved := by
  cases l with
  | world other seconds => exact h
  | crash => trivial
  | tx attempt state => exact h
  | startRound payoutList c => exact hl.elim
  | loopDb c =>
    show (s.loopDb c).sweep.AtReserved
    rw [sweep_loopDb]
    exact h
  | sendmany =>
    simp only [step, sendmany]
    split <;> exact h
  | sendAnswer answer =>
    simp only [step, sendAnswer]
    split
    · split <;> exact h
    · exact h
  | loopStatus answer =>
    simp only [step, loopStatus]
    split
    · split <;> exact h
    · exact h
  | loopTimeout =>
    simp only [step, loopTimeout]
    split <;> exact h
  | loopNode answer =>
    simp only [step, loopNode]
    split
    · split
      · exact h
      · split <;> exact h
      · split <;> exact h
    · exact h
  | reconcile minutes c =>
    simp only [step, reconcile]
    split
    · split
      · exact h
      · trivial
    · exact h
  | checkPhantoms c => exact hl.elim
  | sweepNext => exact atReserved_sweepNext h
  | sweepStatus answer =>
    simp only [step, sweepStatus]
    split
    · split
      · split <;> trivial
      · trivial
      · trivial
    · exact h
  | sweepNode answer => exact atReserved_sweepNode h answer
  | sweepDb c => exact atReserved_sweepDb h c

/-! ## What a step does to the tables -/

/-- How a step of the finalisation touches the tables: not at all, by one settling call, or by
    the cost row. -/
inductive Effect (s : Saga) (l : Label) (s' : Saga) : Prop where
  | quiet (tables : PoolDb.SameTables s.db s'.db) (settled : s'.settled = s.settled)
      (noCost : ∀ txid, ¬ RecordsCost txid s l)
  | call (c : SettleCall) (n : ℕ) (result : s.db.call c = .ok (n, s'.db))
      (settled : ∀ b u, (b, u) ∈ s'.settled →
        (b, u) ∈ s.settled ∨ (c = .confirm b u ∧ s.db.itemsOf b ≠ []))
      (noCost : ∀ txid, ¬ RecordsCost txid s l)
  | cost (p : PayoutRound) (txid : String) (loop : s.loop = .costing p txid)
      (db : s'.db = s.db.recordTxCost .payout txid p.fee) (settled : s'.settled = s.settled)
      (loop' : s'.loop = .confirming p txid) (records : RecordsCost txid s l)

theorem sameTables_update (c : DbCall) (a : AttemptId) (status : AttemptStatus)
    (opid txid errorMessage : Option String) :
    PoolDb.SameTables s.db (s.update c a status opid txid errorMessage).db ∧
      (s.update c a status opid txid errorMessage).settled = s.settled := by
  unfold update
  split
  · exact ⟨PoolDb.SameTables.refl _, rfl⟩
  · exact ⟨PoolDb.sameTables_update _ _ _ _ _ _, rfl⟩

/-- Only the loop records costs, and only at that call. -/
theorem not_recordsCost_of_stage {txid : String} (h : s.loop.stage ≠ 7) :
    ¬ RecordsCost txid s l := by
  rintro ⟨p, c, hpc, -, -⟩
  rw [hpc] at h
  exact h rfl

theorem not_recordsCost_of_label {txid : String} (h : ∀ c, l ≠ .loopDb c) :
    ¬ RecordsCost txid s l := by
  rintro ⟨p, c, -, hl, -⟩
  exact h c hl

theorem effect_refund {c : DbCall} {a : AttemptId} {s' t : Saga}
    (h : s.refund? c a = some s') (hdb : t.db = s'.db) (hset : t.settled = s'.settled)
    (hno : ∀ txid, ¬ RecordsCost txid s l) : Effect s l t := by
  obtain ⟨⟨n, db'⟩, hr, rfl⟩ := Option.map_eq_some_iff.1 h
  have hcall : s.db.call (.refund a) = .ok (n, db') := DbCall.result_eq_some hr
  refine .call (.refund a) n (hdb ▸ hcall) (fun b u hb => ?_) hno
  rw [hset] at hb
  exact .inl hb

theorem effect_confirm {c : DbCall} {a : AttemptId} {txid : String} {s' t : Saga}
    (h : s.confirm? c a txid = some s') (hdb : t.db = s'.db) (hset : t.settled = s'.settled)
    (hno : ∀ txid, ¬ RecordsCost txid s l) : Effect s l t := by
  obtain ⟨⟨n, db'⟩, hr, rfl⟩ := Option.map_eq_some_iff.1 h
  have hcall : s.db.call (.confirm a txid) = .ok (n, db') := DbCall.result_eq_some hr
  refine .call (.confirm a txid) n (hdb ▸ hcall) (fun b u hb => ?_) hno
  rw [hset] at hb
  simp only at hb
  split at hb
  · exact .inl hb
  · rename_i hitems
    rcases List.mem_cons.1 hb with he | hb
    · cases he
      exact .inr ⟨rfl, hitems⟩
    · exact .inl hb

theorem effect_loopDb (h : 3 ≤ s.loop.stage) (c : DbCall) :
    Effect s (.loopDb c) (s.loopDb c) := by
  unfold loopDb
  split
  · rename_i p hpc
    rw [hpc] at h
    exact absurd h (by simp [LoopPc.stage])
  · rename_i p hpc
    rw [hpc] at h
    exact absurd h (by simp [LoopPc.stage])
  · rename_i p note hpc
    have hno : ∀ txid, ¬ RecordsCost txid s (.loopDb c) := fun _ =>
      not_recordsCost_of_stage (by simp [hpc, LoopPc.stage])
    cases hr : s.refund? c p.attempt with
    | none => exact .quiet (PoolDb.SameTables.refl _) rfl hno
    | some s' => exact effect_refund hr rfl rfl hno
  · rename_i p note hpc
    obtain ⟨htables, hset⟩ := sameTables_update (s := s) c p.attempt .failed none none (some note)
    exact .quiet htables hset fun _ =>
      not_recordsCost_of_stage (by simp [hpc, LoopPc.stage])
  · rename_i p opid hpc
    obtain ⟨htables, hset⟩ := sameTables_update (s := s) c p.attempt .sent (some opid) none none
    exact .quiet htables hset fun _ =>
      not_recordsCost_of_stage (by simp [hpc, LoopPc.stage])
  · rename_i p opid txid note hpc
    obtain ⟨htables, hset⟩ := sameTables_update (s := s) c p.attempt .sent opid txid (some note)
    exact .quiet htables hset fun _ =>
      not_recordsCost_of_stage (by simp [hpc, LoopPc.stage])
  · rename_i p txid hpc
    split
    · rename_i hfails
      refine .quiet (PoolDb.SameTables.refl _) rfl ?_
      rintro txid' ⟨p', c', -, hl, hok⟩
      cases hl
      rw [hfails] at hok
      cases hok
    · rename_i hfails
      exact .cost p txid hpc rfl rfl rfl ⟨p, c, hpc, rfl, by simpa using hfails⟩
  · rename_i p txid hpc
    have hno : ∀ txid, ¬ RecordsCost txid s (.loopDb c) := fun _ =>
      not_recordsCost_of_stage (by simp [hpc, LoopPc.stage])
    split
    · exact .quiet (PoolDb.SameTables.refl _) rfl hno
    · rename_i s' hr
      exact effect_confirm hr rfl rfl hno
  · rename_i p txid hpc
    obtain ⟨htables, hset⟩ :=
      sameTables_update (s := s) c p.attempt .confirmed none (some txid) none
    exact .quiet htables hset fun _ =>
      not_recordsCost_of_stage (by simp [hpc, LoopPc.stage])
  · rename_i hcosting _ _
    refine .quiet (PoolDb.SameTables.refl _) rfl ?_
    rintro txid ⟨p, c', hloop, -, -⟩
    exact hcosting p txid hloop

theorem effect_sweepDb (h : s.sweep.AtReserved) (c : DbCall) :
    Effect s (.sweepDb c) (s.sweepDb c) := by
  have hno : ∀ txid, ¬ RecordsCost txid s (.sweepDb c) := fun _ =>
    not_recordsCost_of_label fun _ hl => by cases hl
  unfold sweepDb
  split
  · split
    · exact .quiet (PoolDb.SameTables.refl _) rfl hno
    · rename_i s' hr
      exact effect_refund hr rfl rfl hno
  · obtain ⟨htables, hset⟩ := sameTables_update (s := s) c _ .failed none none _
    exact .quiet htables hset hno
  · split
    · exact .quiet (PoolDb.SameTables.refl _) rfl hno
    · rename_i s' hr
      exact effect_confirm hr rfl rfl hno
  · obtain ⟨htables, hset⟩ := sameTables_update (s := s) c _ .confirmed none _ _
    exact .quiet htables hset hno
  · rename_i txid at_ rest hpc
    rw [hpc] at h
    exact h.elim
  · exact .quiet (PoolDb.SameTables.refl _) rfl hno

/-- A step that asks somebody, or moves a counter, leaves database and records alone. -/
theorem effect_of_same {t : Saga} (hdb : t.db = s.db) (hset : t.settled = s.settled)
    (hl : ∀ c, l ≠ .loopDb c) : Effect s l t :=
  .quiet (hdb ▸ PoolDb.SameTables.refl _) hset fun _ => not_recordsCost_of_label hl

/-- **What a step of the finalisation does.** -/
theorem effect_step (hl : s.Finalising l) (hloop : 3 ≤ s.loop.stage) (hsweep : s.sweep.AtReserved) :
    Effect s l (s.step w v l) := by
  cases l with
  | world other seconds =>
    refine .quiet ⟨hl.1, rfl, rfl, hl.2⟩ rfl fun _ => not_recordsCost_of_label fun _ h => ?_
    cases h
  | startRound payoutList c => exact hl.elim
  | checkPhantoms c => exact hl.elim
  | loopDb c => exact effect_loopDb hloop c
  | sweepDb c => exact effect_sweepDb hsweep c
  | crash => exact effect_of_same rfl rfl fun _ h => by cases h
  | tx attempt state => exact effect_of_same rfl rfl fun _ h => by cases h
  | sendmany =>
    refine effect_of_same ?_ ?_ fun _ h => by cases h
    all_goals
      simp only [step, sendmany]
      split <;> rfl
  | sendAnswer answer =>
    refine effect_of_same ?_ ?_ fun _ h => by cases h
    all_goals
      simp only [step, sendAnswer]
      split
      · split <;> rfl
      · rfl
  | loopStatus answer =>
    refine effect_of_same ?_ ?_ fun _ h => by cases h
    all_goals
      simp only [step, loopStatus]
      split
      · split <;> rfl
      · rfl
  | loopTimeout =>
    refine effect_of_same ?_ ?_ fun _ h => by cases h
    all_goals
      simp only [step, loopTimeout]
      split <;> rfl
  | loopNode answer =>
    refine effect_of_same ?_ ?_ fun _ h => by cases h
    all_goals
      simp only [step, loopNode]
      split
      · split
        · rfl
        · split <;> rfl
        · split <;> rfl
      · rfl
  | reconcile minutes c =>
    refine effect_of_same ?_ ?_ fun _ h => by cases h
    all_goals
      simp only [step, reconcile]
      split
      · split <;> rfl
      · rfl
  | sweepNext =>
    refine effect_of_same ?_ ?_ fun _ h => by cases h
    all_goals
      simp only [step, sweepNext]
      split <;> first | rfl | (split <;> rfl)
  | sweepStatus answer =>
    refine effect_of_same ?_ ?_ fun _ h => by cases h
    all_goals
      simp only [step, sweepStatus]
      split
      · split
        · split <;> rfl
        · rfl
        · rfl
      · rfl
  | sweepNode answer =>
    refine effect_of_same ?_ ?_ fun _ h => by cases h
    all_goals
      simp only [step, sweepNode]
      split
      · split <;> rfl
      · split <;> rfl
      · rfl

/-! ## Runs -/

/-- What every step keeps: the tables are the outcome of the first calls on the database at the
    send, and an attempt is recorded as settled only by its first call. -/
structure LateInv (s₀ s : Saga) : Prop where
  stage : 3 ≤ s.loop.stage
  sweep : s.sweep.AtReserved
  calls : ∃ calls, PoolDb.Outcome s₀.db (firstCall calls) s.db ∧
    ∀ b u, (b, u) ∈ s.settled → (b, u) ∈ s₀.settled ∨ firstCall calls b = some (.confirm b u)

theorem lateInv_start {p : PayoutRound} (hsend : s.loop = .sending p)
    (hsweep : s.sweep.AtReserved) : LateInv s s := by
  refine ⟨?_, hsweep, [], PoolDb.outcome_refl s.db, fun b u hb => .inl hb⟩
  rw [hsend]
  exact le_rfl

theorem firstCall_append_of_some {calls : List SettleCall} {b : AttemptId} {x c : SettleCall}
    (h : firstCall calls b = some x) : firstCall (calls ++ [c]) b = some x := by
  unfold firstCall at h ⊢
  rw [List.find?_append, h]
  rfl

theorem lateInv_step {s₀ : Saga} (h : LateInv s₀ s) (hl : s.Finalising l) :
    LateInv s₀ (s.step w v l) := by
  obtain ⟨calls, hout, hset⟩ := h.calls
  refine ⟨h.stage.trans (stage_step hl), atReserved_step hl h.sweep, ?_⟩
  cases effect_step (w := w) (v := v) hl h.stage h.sweep with
  | quiet tables settled _ =>
    exact ⟨calls, hout.congr tables.balances tables.items tables.payouts,
      fun b u hb => hset b u (settled ▸ hb)⟩
  | call c n result settled _ =>
    refine ⟨calls ++ [c], hout.settle result, fun b u hb => ?_⟩
    rcases settled b u hb with hold | ⟨rfl, hitems⟩
    · exact (hset b u hold).imp id firstCall_append_of_some
    · -- the attempt still held items, so no call came before this one
      right
      have hnone : firstCall calls b = none := by
        by_contra hne
        rw [hout.itemsOf, if_neg (by simpa using hne)] at hitems
        exact hitems rfl
      have hfirst := PoolDb.firstCall_append calls (.confirm b u)
      rw [SettleCall.attempt, if_pos hnone] at hfirst
      rw [hfirst]
      exact Function.update_self _ _ _
  | cost p txid _ db settled _ _ =>
    refine ⟨calls, hout.congr ?_ ?_ ?_, fun b u hb => hset b u (settled ▸ hb)⟩
    all_goals
      rw [db]
      rfl

theorem payoutCosts_stay {s₀ : Saga} {txid : String} (h : LateInv s₀ s) (hl : s.Finalising l)
    (hno : ¬ RecordsCost txid s l) :
    (s.step w v l).db.payoutCosts txid = s.db.payoutCosts txid := by
  cases effect_step (w := w) (v := v) hl h.stage h.sweep with
  | quiet tables _ _ => rw [tables.costs]
  | call c n result _ _ => rw [PoolDb.payoutCosts_call result]
  | cost p ref _ db _ _ records =>
    have hne : ref ≠ txid := by
      rintro rfl
      exact hno records
    rw [db, PoolDb.payoutCosts_record, if_neg hne, add_zero]

theorem payoutCosts_grow {s₀ : Saga} {txid : String} (h : LateInv s₀ s) (hl : s.Finalising l)
    (hcost : RecordsCost txid s l) :
    (s.step w v l).db.payoutCosts txid = s.db.payoutCosts txid + 1 ∧
      (s.step w v l).loop.stage = 8 := by
  cases effect_step (w := w) (v := v) hl h.stage h.sweep with
  | quiet _ _ noCost => exact absurd hcost (noCost txid)
  | call _ _ _ _ noCost => exact absurd hcost (noCost txid)
  | cost p ref loop db _ loop' _ =>
    obtain ⟨p', c, hloop, -, -⟩ := hcost
    rw [loop] at hloop
    cases hloop
    rw [db, PoolDb.payoutCosts_record, if_pos rfl, loop']
    exact ⟨rfl, rfl⟩

/-- Past the cost no cost is recorded any more. -/
theorem stage_spent {txid : String} (h : s.loop.stage = 8) (hl : s.Finalising l) :
    ¬ RecordsCost txid s l ∧ (s.step w v l).loop.stage = 8 := by
  refine ⟨not_recordsCost_of_stage (by omega), ?_⟩
  have hle := stage_step (w := w) (v := v) hl
  have hmax : (s.step w v l).loop.stage ≤ 8 := by
    cases (s.step w v l).loop <;> simp [LoopPc.stage]
  omega

/-- One row more for the transaction, exactly when the loop's call records it. -/
theorem payoutCosts_run {s₀ : Saga} {txid : String} {ls : List Label} (h : LateInv s₀ s)
    (hrun : Allowed (step w v) Finalising s ls) :
    (run (step w v) s ls).db.payoutCosts txid = s.db.payoutCosts txid + 1 ↔
      Meets (step w v) (RecordsCost txid) s ls :=
  @count_of_meets _ _ (step w v) Finalising (LateInv s₀) (RecordsCost txid)
    (fun s => s.loop.stage = 8) (fun s => s.db.payoutCosts txid)
    (fun _ _ hI hl => lateInv_step hI hl) (fun _ _ hI hl hno => payoutCosts_stay hI hl hno)
    (fun _ _ hI hl hcost => payoutCosts_grow hI hl hcost) (fun _ _ hs hl => stage_spent hs hl)
    _ _ h hrun

/-! ## The live loop -/

/-- The database when the live loop confirms. -/
def liveBooked (s : Saga) (p : PayoutRound) (opid txid : String) : PoolDb :=
  (s.db.updatePayoutAttempt p.attempt .sent (some opid) none none).recordTxCost .payout txid p.fee

/-- Up to the confirmation: the operation id and the cost are written. -/
theorem live_confirming {p : PayoutRound} (hsend : s.loop = .sending p) (opid txid : String) :
    run (step w v) s ((liveLabels opid txid).take 5) =
      { s with db := s.liveBooked p opid txid, loop := .confirming p txid } := by
  simp [liveBooked, liveLabels, run, step, sendAnswer, hsend, loopDb, update, DbCall.ok,
    loopStatus, loopNode, OperationResult.readTxid, JsonValue.asStr]

/-- Confirmation and last mark. -/
theorem live_finishing {p : PayoutRound} {txid : String} {n : ℕ} {db' : PoolDb}
    (hloop : s.loop = .confirming p txid)
    (hc : s.db.confirmPayout p.attempt txid = .ok (n, db')) :
    (run (step w v) s [.loopDb .ok, .loopDb .ok]).db
      = db'.updatePayoutAttempt p.attempt .confirmed none (some txid) none := by
  obtain ⟨s', hs', hdb⟩ : ∃ s', s.confirm? .ok p.attempt txid = some s' ∧ s'.db = db' := by
    simp [confirm?, DbCall.result_ok, hc, Except.toOption]
  have hstep : s.loopDb .ok = { s' with loop := .finishing p txid } := by
    simp [loopDb, hloop, hs']
  rw [run_cons, run_cons, run_nil, ← hdb]
  simp only [step]
  rw [hstep]
  rfl

/-- From a state of the payout ledger the live loop runs through. -/
theorem live_db {p : PayoutRound} (hsend : s.loop = .sending p) (hinv : s.db.SettlementInv)
    (opid txid : String) :
    ∃ n db', (s.liveBooked p opid txid).call (.confirm p.attempt txid) = .ok (n, db') ∧
      (run (step w v) s (liveLabels opid txid)).db
        = db'.updatePayoutAttempt p.attempt .confirmed none (some txid) none ∧
      (run (step w v) s (liveLabels opid txid)).db.SettlementInv := by
  have hmark : (Op.updatePayoutAttempt p.attempt .sent (some opid) none none).SettlementOk :=
    trivial
  have hcost : (Op.recordTxCost .payout txid p.fee).SettlementOk := trivial
  have hlast : (Op.updatePayoutAttempt p.attempt .confirmed none (some txid) none).SettlementOk :=
    trivial
  have hbooked : (s.liveBooked p opid txid).SettlementInv :=
    PoolDb.settlementInv_step (PoolDb.settlementInv_step hinv hmark) hcost
  obtain ⟨⟨n, db'⟩, hc⟩ := hbooked.call_ok (.confirm p.attempt txid)
  have hinv' : db'.SettlementInv := by
    rw [← PoolDb.settle_of_call hc]
    exact hbooked.settle _
  have hsplit : liveLabels opid txid
      = (liveLabels opid txid).take 5 ++ [.loopDb .ok, .loopDb .ok] := rfl
  have hlive : (run (step w v) s (liveLabels opid txid)).db
      = db'.updatePayoutAttempt p.attempt .confirmed none (some txid) none := by
    rw [hsplit, run_append, live_confirming hsend]
    exact live_finishing rfl hc
  refine ⟨n, db', hc, hlive, ?_⟩
  rw [hlive]
  exact PoolDb.settlementInv_step hinv' hlast

/-- The live loop settles the attempt, and nothing else. -/
theorem live_outcome {p : PayoutRound} (hsend : s.loop = .sending p) (hinv : s.db.SettlementInv)
    (opid txid : String) :
    PoolDb.Outcome s.db (firstCall [.confirm p.attempt txid])
        (run (step w v) s (liveLabels opid txid)).db ∧
      (run (step w v) s (liveLabels opid txid)).db.SettlementInv := by
  obtain ⟨n, db', hc, hlive, hinv'⟩ := live_db (w := w) (v := v) hsend hinv opid txid
  have hstart : PoolDb.Outcome s.db (firstCall []) (s.liveBooked p opid txid) :=
    (PoolDb.outcome_refl s.db).congr rfl rfl rfl
  have hout := hstart.settle hc
  refine ⟨?_, hinv'⟩
  rw [hlive]
  exact hout.congr rfl rfl rfl

/-! ## Late and live -/

/-- The calls that are not about attempt `a`, after the first one about it. -/
theorem firstCall_others {calls : List SettleCall} {a : AttemptId} {txid : String}
    (h : firstCall calls a = some (.confirm a txid)) :
    firstCall ([.confirm a txid] ++ calls.filter (fun c => c.attempt != a)) = firstCall calls := by
  funext b
  by_cases hb : a = b
  · subst hb
    rw [h]
    simp [firstCall, SettleCall.attempt]
  · have hhead : firstCall ([.confirm a txid] ++ calls.filter (fun c => c.attempt != a)) b
        = firstCall (calls.filter (fun c => c.attempt != a)) b := by
      simp [firstCall, SettleCall.attempt, hb]
    rw [hhead]
    unfold firstCall
    rw [List.find?_filter]
    congr 1
    funext c
    by_cases hc : c.attempt = b
    · simp [hc, Ne.symm hb]
    · simp [hc]

/-- The tables agree whatever the loop and the reconciler did: both confirm. -/
theorem late_settlement {p : PayoutRound} {txid : String} {ls : List Label}
    (hsend : s.loop = .sending p) (hsweep : s.sweep.AtReserved) (hinv : s.db.SettlementInv)
    (hopen : (p.attempt, txid) ∉ s.settled) (hrun : Allowed (step w v) Finalising s ls)
    (hconfirmed : (p.attempt, txid) ∈ (run (step w v) s ls).settled) (opid : String) :
    ∃ others : List SettleCall, (∀ c ∈ others, c.attempt ≠ p.attempt) ∧
      PoolDb.SameSettlement ((run (step w v) s (liveLabels opid txid)).db.settleAll others)
        (run (step w v) s ls).db := by
  have hstart := lateInv_start hsend hsweep
  have hlast : LateInv s (run (step w v) s ls) :=
    (always_of_allowed (fun _ _ hI hl => lateInv_step hI hl) hstart hrun).last
  obtain ⟨calls, hout, hset⟩ := hlast.calls
  have hfirst := (hset _ _ hconfirmed).resolve_left hopen
  obtain ⟨hlive, hinv'⟩ := live_outcome (w := w) (v := v) hsend hinv opid txid
  refine ⟨calls.filter (fun c => c.attempt != p.attempt), fun c hc => ?_, ?_⟩
  · simpa using (List.mem_filter.1 hc).2
  · have hboth := (hlive.settleAll hinv' (calls.filter (fun c => c.attempt != p.attempt))).2
    rw [firstCall_others hfirst] at hboth
    exact hboth.same hout

/-- **Late and live finalisation.**  From the moment the request is out, however the loop is
    stopped and whatever the reconciler is told: once the attempt is confirmed, balances, items
    and payout rows are those the live loop would have left; the cost row is there exactly when
    the loop's own `record_tx_cost` succeeded before it stopped. -/
theorem late_agrees_iff {p : PayoutRound} {txid : String} {ls : List Label}
    (hsend : s.loop = .sending p) (hsweep : s.sweep.AtReserved) (hinv : s.db.SettlementInv)
    (hfresh : s.db.payoutCosts txid = 0) (hopen : (p.attempt, txid) ∉ s.settled)
    (hrun : Allowed (step w v) Finalising s ls)
    (hconfirmed : (p.attempt, txid) ∈ (run (step w v) s ls).settled) (opid : String) :
    Agrees p.attempt txid (run (step w v) s (liveLabels opid txid)).db
        (run (step w v) s ls).db ↔
      Meets (step w v) (RecordsCost txid) s ls := by
  have hstart := lateInv_start hsend hsweep
  rw [← payoutCosts_run hstart hrun, hfresh]
  exact ⟨Agrees.cost, fun hcost =>
    ⟨late_settlement hsend hsweep hinv hopen hrun hconfirmed opid, hcost⟩⟩

end Saga

/-- A round of 100 zatoshis whose request is out. -/
def sentRound : PayoutRound := ⟨1, [⟨1, 100, "t1miner"⟩]⟩

def sentOps : List Op :=
  [.getOrCreateMiner "t1miner", .creditBalance 1 100, .createPayoutAttempt 1 100 "loop",
    .reservePayout 1 [(1, 100)], .updatePayoutAttempt 1 .submitting none none none]

def sentSaga : Saga :=
  { Saga.start with db := run PoolDb.step PoolDb.empty sentOps, loop := .sending sentRound }

theorem settlementInv_sentSaga : sentSaga.db.SettlementInv :=
  settlementInv_run PoolDb.settlementInv_empty
    (by simp [sentOps, Op.SettlementOk, Op.Lawful])

/-- The pass over the reserved attempt, which the node knows. -/
def lateConfirm : List Label :=
  [.reconcile none .ok, .sweepNext, .sweepStatus (.statuses (some (.success
    ⟨some (.text "tx"), none⟩))), .sweepNode .found, .sweepDb .ok, .sweepDb .ok]

/-- The process dies while the loop waits for the operation. -/
def crashedRun : List Label :=
  [.sendAnswer (.accepted "op"), .loopDb .ok, .crash] ++ lateConfirm

/-- The loop's confirmation fails after its cost row is written. -/
def confirmFailedRun : List Label :=
  [.sendAnswer (.accepted "op"), .loopDb .ok,
    .loopStatus (.statuses (some (.success ⟨some (.text "tx"), none⟩))), .loopNode .found,
    .loopDb .ok, .loopDb ⟨true, "disk I/O error"⟩, .loopDb .ok, .reconcile none .ok, .sweepNext,
    .sweepNode .found, .sweepDb .ok, .sweepDb .ok]

theorem late_agrees_iff_confirmFailedRun :
    Saga.Agrees 1 "tx" (run (Saga.step namingWallet true) sentSaga
        (Saga.liveLabels "op" "tx")).db
      (run (Saga.step namingWallet true) sentSaga confirmFailedRun).db ∧
    (run (Saga.step namingWallet true) sentSaga confirmFailedRun).db.books 1 .paid = 100 := by
  refine ⟨(Saga.late_agrees_iff (s := sentSaga) (p := sentRound) rfl trivial
    settlementInv_sentSaga (by decide +kernel) (by decide +kernel) ?_ (by decide +kernel) "op").2 ?_,
    by decide +kernel⟩
  · simp [confirmFailedRun, Allowed, Saga.Finalising]
  · refine .inr (.inr (.inr (.inr (.inl ⟨sentRound, .ok, ?_, rfl, rfl⟩))))
    decide +kernel

/-- A crash before the cost row is written: the reconciler confirms the payout, and its fee is
    never recovered. -/
theorem crashed_payout_uncosted :
    Allowed (Saga.step namingWallet true) Saga.Finalising sentSaga crashedRun ∧
    (1, "tx") ∈ (run (Saga.step namingWallet true) sentSaga crashedRun).settled ∧
    (run (Saga.step namingWallet true) sentSaga
      (Saga.liveLabels "op" "tx")).db.payoutCosts "tx" = 1 ∧
    (run (Saga.step namingWallet true) sentSaga crashedRun).db.payoutCosts "tx" = 0 ∧
    ¬ Saga.Agrees 1 "tx" (run (Saga.step namingWallet true) sentSaga
        (Saga.liveLabels "op" "tx")).db
      (run (Saga.step namingWallet true) sentSaga crashedRun).db := by
  have hcost : (run (Saga.step namingWallet true) sentSaga crashedRun).db.payoutCosts "tx" = 0 := by
    decide +kernel
  refine ⟨?_, by decide +kernel, by decide +kernel, hcost, fun h => ?_⟩
  · simp [crashedRun, lateConfirm, Allowed, Saga.Finalising]
  · have hone := h.cost
    rw [hcost] at hone
    cases hone

end ZcashMiningPool
