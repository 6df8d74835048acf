import ZcashMiningPool.Dashboard.LateFinalisation
import ZcashMiningPool.Library.Twins

/-!
# What the saga reads of its attempt rows

The rows of attempts without funds can say anything: loop and reconciler do the same.

* `PoolDb.withAttempts` — another attempt table; the payout queries write the same to the others.
* `Saga.Alike` — sagas that agree off the rows of some attempts; `Alike.step` — as long as these
  hold no funds, every step keeps it.
* `Saga.Idle` — an attempt without funds whose reservation does not come next; `calm_step` — it
  stays so, as no step forgets an attempt or funds another one than that.
-/

set_option autoImplicit false

namespace ZcashMiningPool

open Table Machine

/-! ## The same database with other attempt rows -/

namespace PoolDb

def withAttempts (db : PoolDb) (t : Auto PayoutAttempt) : PoolDb := { db with payoutAttempts := t }

variable {db : PoolDb} {t : Auto PayoutAttempt}

theorem transfer_withAttempts (src dst : Bucket) (m : MinerId) (amount : ℤ) :
    (db.withAttempts t).transfer src dst m amount
      = (db.transfer src dst m amount).map (·.withAttempts t) := by
  unfold transfer
  rw [Option.map_map]
  rfl

theorem settleItems_withAttempts {src dst : Bucket} {message : MinerId → ℤ → String}
    {record : MinerId → ℤ → PoolDb → PoolDb}
    (hrecord : ∀ m a (db : PoolDb), record m a (db.withAttempts t) = (record m a db).withAttempts t)
    (items : List (MinerId × ℤ)) (db : PoolDb) :
    settleItems src dst message record (db.withAttempts t) items
      = (settleItems src dst message record db items).map (·.withAttempts t) := by
  induction items generalizing db with
  | nil => rfl
  | cons e items ih =>
    obtain ⟨m, amount⟩ := e
    simp only [settleItems]
    rw [transfer_withAttempts]
    cases db.transfer src dst m amount with
    | none => rfl
    | some db₁ =>
      simp only [Option.map_some]
      rw [hrecord, ih]

theorem confirmPayout_withAttempts (a : AttemptId) (txid : String) :
    (db.withAttempts t).confirmPayout a txid
      = (db.confirmPayout a txid).map fun r => (r.1, r.2.withAttempts t) := by
  have hitems : (db.withAttempts t).itemsOf a = db.itemsOf a := rfl
  simp only [confirmPayout, hitems, bind, Except.bind]
  rw [settleItems_withAttempts fun _ _ _ => rfl]
  generalize settleItems .paying .paid _ _ db (db.itemsOf a) = result
  cases result <;> rfl

theorem refundPayout_withAttempts (a : AttemptId) :
    (db.withAttempts t).refundPayout a
      = (db.refundPayout a).map fun r => (r.1, r.2.withAttempts t) := by
  have hitems : (db.withAttempts t).itemsOf a = db.itemsOf a := rfl
  simp only [refundPayout, hitems, bind, Except.bind]
  rw [settleItems_withAttempts fun _ _ _ => rfl]
  generalize settleItems .paying .pending _ _ db (db.itemsOf a) = result
  cases result <;> rfl

theorem insertItem_withAttempts {a : AttemptId} (hhas : t.has a = db.payoutAttempts.has a)
    (m : MinerId) (amount : ℤ) :
    (db.withAttempts t).insertItem a m amount
      = (db.insertItem a m amount).map (·.withAttempts t) := by
  unfold insertItem
  have hhas' : (db.withAttempts t).payoutAttempts.has a = db.payoutAttempts.has a := hhas
  rw [hhas']
  split <;> rfl

theorem reservePayout_withAttempts {a : AttemptId} (items : List (MinerId × ℤ)) {db : PoolDb}
    (hhas : t.has a = db.payoutAttempts.has a) :
    reservePayout a (db.withAttempts t) items
      = (reservePayout a db items).map fun r => (r.1, r.2.withAttempts t) := by
  induction items generalizing db with
  | nil => rfl
  | cons e items ih =>
    obtain ⟨m, amount⟩ := e
    simp only [reservePayout]
    split
    · exact ih hhas
    · rw [transfer_withAttempts]
      cases htr : db.transfer .pending .paying m amount with
      | none => exact ih hhas
      | some db₁ =>
        have hhas₁ : t.has a = db₁.payoutAttempts.has a := by
          obtain ⟨bal, -, rfl⟩ := transfer_frame htr
          exact hhas
        simp only [Option.map_some, bind, Except.bind]
        rw [insertItem_withAttempts hhas₁]
        cases hins : db₁.insertItem a m amount with
        | error e => rfl
        | ok db₂ =>
          have hhas₂ : t.has a = db₂.payoutAttempts.has a := by
            unfold insertItem at hins
            split at hins
            · cases hins
              exact hhas₁
            · cases hins
          simp only [Except.map]
          rw [ih hhas₂]
          cases reservePayout a db₂ items <;> rfl

/-- The row that `update_payout_attempt` writes. -/
def updatedRow (now : ℕ) (status : AttemptStatus) (opid txid errorMessage : Option String)
    (r : PayoutAttempt) : PayoutAttempt :=
  { r with
    status := status
    opid := opid.or r.opid
    txid := txid.or r.txid
    errorMessage := errorMessage.or r.errorMessage
    updatedAt := now }

/-- The row of an attempt whose transaction was voided. -/
def voidRow (now : ℕ) (txid : String) (r : PayoutAttempt) : PayoutAttempt :=
  if r.txid = some txid ∧ r.status = .confirmed then
    { r with
      status := .failed
      updatedAt := now
      errorMessage := some
        "auto-void: tx reorged out and expired (-5); funds returned to pending" }
  else r

theorem createdAt_voidRow (now : ℕ) (txid : String) (r : PayoutAttempt) :
    (voidRow now txid r).createdAt = r.createdAt := by
  unfold voidRow
  split <;> rfl

theorem voidReorgedPayout_withAttempts (txid : String) :
    (db.withAttempts t).voidReorgedPayout txid = (db.voidReorgedPayout txid).map fun r =>
      (r.1, r.2.withAttempts
        (if r.1.1 = 0 then t else t.modifyAll fun _ => voidRow db.now txid)) := by
  have hrows : (db.withAttempts t).payoutsOf txid = db.payoutsOf txid := rfl
  have hfresh : ((db.withAttempts t).payouts.rows.any fun e =>
      e.2.txid == txid && (db.withAttempts t).youngerThan e.2.createdAt 60)
    = db.payouts.rows.any fun e => e.2.txid == txid && db.youngerThan e.2.createdAt 60 := rfl
  unfold voidReorgedPayout
  rw [hrows, hfresh]
  split
  · rfl
  · split
    · rfl
    · rename_i hsome
      simp only [bind, Except.bind]
      rw [settleItems_withAttempts fun _ _ _ => rfl]
      cases hsettle : settleItems .paid .pending
          (fun m amount => s!"auto-void aborted: miner {m} paid < {amount} for txid {txid}")
          (fun _ _ db => db) db (db.payoutsOf txid) with
      | error e => rfl
      | ok db₁ =>
        have hlength : (db.payoutsOf txid).length ≠ 0 := mt List.eq_nil_of_length_eq_zero hsome
        have hnow : db₁.now = db.now := by
          obtain ⟨-, bal, hdb⟩ := settleItems_spec (by decide) (fun _ _ _ _ => rfl) hsettle
          rw [hdb, foldl_record_nothing]
        simp only [Except.map, if_neg hlength]
        rw [← hnow]
        rfl

end PoolDb

theorem DbCall.result_map {α β : Type} (c : DbCall) (x : Except DbError α) (f : α → β) :
    c.result (x.map f) = (c.result x).map f := by
  unfold DbCall.result
  split
  · rfl
  · cases x <;> rfl

namespace Saga

/-! ## The saga on such databases -/

def withAttempts (s : Saga) (t : Auto PayoutAttempt) : Saga := { s with db := s.db.withAttempts t }

/-- The same saga, but for the rows of `W`. -/
def Alike (W : AttemptId → Prop) (s s' : Saga) : Prop :=
  ∃ t, s' = s.withAttempts t ∧ Auto.Twin W PayoutAttempt.createdAt s.db.payoutAttempts t

variable {W : AttemptId → Prop} {s s' : Saga} {w : Wallet} {v : Bool}

protected theorem Alike.refl (W : AttemptId → Prop) (s : Saga) : Alike W s s :=
  ⟨s.db.payoutAttempts, rfl, .refl W _ _⟩

theorem Alike.mono {W' : AttemptId → Prop} (h : Alike W s s') (hW : ∀ a, W a → W' a) :
    Alike W' s s' := by
  obtain ⟨t, rfl, ht⟩ := h
  exact ⟨t, rfl, ht.mono hW⟩

theorem Alike.update (h : Alike W s s') (c : DbCall) (a : AttemptId) (status : AttemptStatus)
    (opid txid errorMessage : Option String) :
    Alike W (s.update c a status opid txid errorMessage)
      (s'.update c a status opid txid errorMessage) := by
  obtain ⟨t, rfl, ht⟩ := h
  unfold Saga.update
  split
  · exact ⟨t, rfl, ht⟩
  · exact ⟨_, rfl,
      ht.modify a (f := PoolDb.updatedRow s.db.now status opid txid errorMessage) fun _ => rfl⟩

/-- A write to a row of `W` on one side. -/
theorem Alike.update_left (h : Alike W s s') (c : DbCall) {a : AttemptId} (ha : W a)
    (status : AttemptStatus) (opid txid errorMessage : Option String) :
    Alike W (s.update c a status opid txid errorMessage) s' := by
  obtain ⟨t, rfl, ht⟩ := h
  unfold Saga.update
  split
  · exact ⟨t, rfl, ht⟩
  · exact ⟨t, rfl, ht.modify_left ha
      (f := PoolDb.updatedRow s.db.now status opid txid errorMessage) fun _ => rfl⟩

/-- A call that does not look at the attempt rows. -/
theorem Alike.call {f : Saga → Option Saga}
    (hf : ∀ (s : Saga) (t : Auto PayoutAttempt),
      f (s.withAttempts t) = (f s).map (·.withAttempts t))
    (h : Alike W s s') : f s = none ∧ f s' = none ∨
      ∃ u u', f s = some u ∧ f s' = some u' ∧ Alike W u u' := by
  obtain ⟨t, rfl, ht⟩ := h
  have hself := hf s s.db.payoutAttempts
  have hother := hf s t
  cases hu : f s with
  | none =>
    rw [hu] at hother
    exact .inl ⟨rfl, hother⟩
  | some u =>
    rw [hu] at hother hself
    have hrows : u.db.payoutAttempts = s.db.payoutAttempts := by
      have hsame : f (s.withAttempts s.db.payoutAttempts) = some u := hu
      rw [hsame] at hself
      have hself' := congrArg (fun u : Saga => u.db.payoutAttempts) (Option.some.inj hself)
      exact hself'
    exact .inr ⟨u, _, rfl, hother, t, rfl, hrows ▸ ht⟩

theorem Alike.refund? (h : Alike W s s') (c : DbCall) (a : AttemptId) :
    s.refund? c a = none ∧ s'.refund? c a = none ∨
      ∃ u u', s.refund? c a = some u ∧ s'.refund? c a = some u' ∧ Alike W u u' := by
  refine h.call (f := (Saga.refund? · c a)) fun s t => ?_
  have hdb : (s.withAttempts t).db.refundPayout a
      = (s.db.refundPayout a).map fun r => (r.1, r.2.withAttempts t) :=
    PoolDb.refundPayout_withAttempts a
  simp only [Saga.refund?]
  rw [hdb, DbCall.result_map, Option.map_map, Option.map_map]
  rfl

theorem Alike.confirm? (h : Alike W s s') (c : DbCall) (a : AttemptId) (txid : String) :
    s.confirm? c a txid = none ∧ s'.confirm? c a txid = none ∨
      ∃ u u', s.confirm? c a txid = some u ∧ s'.confirm? c a txid = some u' ∧ Alike W u u' := by
  refine h.call (f := (Saga.confirm? · c a txid)) fun s t => ?_
  have hdb : (s.withAttempts t).db.confirmPayout a txid
      = (s.db.confirmPayout a txid).map fun r => (r.1, r.2.withAttempts t) :=
    PoolDb.confirmPayout_withAttempts a txid
  simp only [Saga.confirm?]
  rw [hdb, DbCall.result_map, Option.map_map, Option.map_map]
  rfl

theorem Alike.void? (h : Alike W s s') (c : DbCall) (txid : String) :
    s.void? c txid = none ∧ s'.void? c txid = none ∨
      ∃ u u', s.void? c txid = some u ∧ s'.void? c txid = some u' ∧ Alike W u u' := by
  obtain ⟨t, rfl, ht⟩ := h
  have hdb : ∀ t, (s.withAttempts t).db.voidReorgedPayout txid
      = (s.db.voidReorgedPayout txid).map fun r => (r.1, r.2.withAttempts
        (if r.1.1 = 0 then t else t.modifyAll fun _ => PoolDb.voidRow s.db.now txid)) :=
    fun t => PoolDb.voidReorgedPayout_withAttempts txid
  have hself := hdb s.db.payoutAttempts
  have hsame : (s.withAttempts s.db.payoutAttempts).db = s.db := rfl
  rw [hsame] at hself
  unfold Saga.void?
  rw [hdb t, DbCall.result_map]
  cases hr : c.result (s.db.voidReorgedPayout txid) with
  | none => exact .inl ⟨rfl, rfl⟩
  | some r =>
    have hok : s.db.voidReorgedPayout txid = .ok r := DbCall.result_eq_some hr
    rw [hok] at hself
    have hrows : r.2.payoutAttempts = if r.1.1 = 0 then s.db.payoutAttempts
        else s.db.payoutAttempts.modifyAll fun _ => PoolDb.voidRow s.db.now txid := by
      have hself' := congrArg (fun r : (ℕ × ℤ) × PoolDb => r.2.payoutAttempts) (Except.ok.inj hself)
      exact hself'
    refine .inr ⟨_, _, rfl, rfl, _, rfl, ?_⟩
    show Auto.Twin W _ r.2.payoutAttempts _
    rw [hrows]
    split
    · exact ht
    · exact ht.modifyAll fun _ => PoolDb.createdAt_voidRow _ _

/-- A move that does not look at the attempt rows. -/
theorem Alike.map {g : Saga → Saga}
    (hg : ∀ (s : Saga) (t : Auto PayoutAttempt), g (s.withAttempts t) = (g s).withAttempts t)
    (h : Alike W s s') : Alike W (g s) (g s') := by
  obtain ⟨t, rfl, ht⟩ := h
  have hself := congrArg (fun u : Saga => u.db.payoutAttempts) (hg s s.db.payoutAttempts)
  have hrows : (g s).db.payoutAttempts = s.db.payoutAttempts := hself
  exact ⟨t, hg s t, hrows ▸ ht⟩

theorem Alike.loop_eq (h : Alike W s s') : s'.loop = s.loop := by
  obtain ⟨t, rfl, -⟩ := h
  rfl

theorem Alike.sweep_eq (h : Alike W s s') : s'.sweep = s.sweep := by
  obtain ⟨t, rfl, -⟩ := h
  rfl

theorem Alike.gotoLoop (h : Alike W s s') (pc : LoopPc) :
    Alike W { s with loop := pc } { s' with loop := pc } :=
  h.map (g := fun s => { s with loop := pc }) fun _ _ => rfl

theorem Alike.gotoSweep (h : Alike W s s') (pc : SweepPc) :
    Alike W { s with sweep := pc } { s' with sweep := pc } :=
  h.map (g := fun s => { s with sweep := pc }) fun _ _ => rfl

theorem Alike.failOperation (h : Alike W s s') (w : Wallet) (opid : String) :
    Alike W (failOperation w s opid) (failOperation w s' opid) := by
  obtain ⟨t, rfl, ht⟩ := h
  refine ⟨t, ?_, ht⟩
  have hhas : ∀ a, (s.withAttempts t).db.payoutAttempts.has a = s.db.payoutAttempts.has a :=
    fun a => (ht.has_eq a).symm
  simp only [Saga.failOperation, hhas]
  rfl

theorem Alike.agedAt_iff (h : Alike W s s') (time : ℕ) (a : AttemptId) :
    s'.AgedAt time a ↔ s.AgedAt time a := by
  obtain ⟨t, rfl, ht⟩ := h
  have hcol : ((s.withAttempts t).db.payoutAttempts.get? a).map PayoutAttempt.createdAt
      = (s.db.payoutAttempts.get? a).map PayoutAttempt.createdAt := (ht.col_get? a).symm
  have hany : ∀ o : Option PayoutAttempt, o.any (fun r => olderThanRefund time r.createdAt)
      = (o.map PayoutAttempt.createdAt).any (olderThanRefund time) := by
    rintro (_ | r) <;> rfl
  unfold AgedAt
  rw [hany, hany, hcol]

theorem Alike.expire (h : Alike W s s') (w : Wallet) (txid : String) :
    Alike W (expire w s txid) (expire w s' txid) := by
  have haged := h.agedAt_iff
  obtain ⟨t, rfl, ht⟩ := h
  refine ⟨t, ?_, ht⟩
  have hnow : (s.withAttempts t).db.now = s.db.now := rfl
  simp only [Saga.expire, hnow, haged]
  rfl

/-! ### Steps of the loop -/

theorem Alike.startRound (h : Alike W s s') (payoutList : List Destination) (c : DbCall) :
    Alike W (s.startRound payoutList c) (s'.startRound payoutList c) := by
  obtain ⟨t, rfl, ht⟩ := h
  have hnext : (s.withAttempts t).db.payoutAttempts.next = s.db.payoutAttempts.next := ht.next.symm
  cases hpc : s.loop with
  | idle =>
    have hpc' : (s.withAttempts t).loop = .idle := hpc
    simp only [Saga.startRound, hpc, hpc']
    split
    · exact ⟨t, rfl, ht⟩
    · simp only [PoolDb.createPayoutAttempt, hnext]
      exact ⟨_, rfl, ht.insert _⟩
  | _ =>
    have hpc' := hpc
    change (s.withAttempts t).loop = _ at hpc'
    simp only [Saga.startRound, hpc, hpc']
    exact ⟨t, rfl, ht⟩

theorem Alike.reserve (h : Alike W s s') (c : DbCall) {p : PayoutRound}
    (hpc : s.loop = .created p) :
    Alike W (s.loopDb c) (s'.loopDb c) := by
  obtain ⟨t, rfl, ht⟩ := h
  have hpc' : (s.withAttempts t).loop = .created p := hpc
  have hreserve : PoolDb.reservePayout p.attempt (s.withAttempts t).db p.items
      = (PoolDb.reservePayout p.attempt s.db p.items).map fun r => (r.1, r.2.withAttempts t) :=
    PoolDb.reservePayout_withAttempts p.items (ht.has_eq _).symm
  simp only [Saga.loopDb, hpc, hpc']
  rw [hreserve, DbCall.result_map]
  cases hr : c.result (PoolDb.reservePayout p.attempt s.db p.items) with
  | none => exact ⟨t, rfl, ht⟩
  | some r =>
    obtain ⟨reserved, db⟩ := r
    obtain ⟨bal, its, hdb, -⟩ := PoolDb.reservePayout_spec (DbCall.result_eq_some hr)
    have hrows : db.payoutAttempts = s.db.payoutAttempts := by rw [hdb]
    cases reserved with
    | nil => exact ⟨t, rfl, hrows ▸ ht⟩
    | cons e reserved => exact ⟨t, rfl, hrows ▸ ht⟩

theorem Alike.loopDb (h : Alike W s s') (c : DbCall) : Alike W (s.loopDb c) (s'.loopDb c) := by
  cases hpc : s.loop with
  | created p => exact h.reserve c hpc
  | reserved p =>
    simp only [Saga.loopDb, h.loop_eq, hpc]
    split
    · exact h.gotoLoop _
    · exact (h.update c p.attempt .submitting none none none).gotoLoop _
  | refunding p note =>
    simp only [Saga.loopDb, h.loop_eq, hpc]
    obtain ⟨hu, hu'⟩ | ⟨u, u', hu, hu', hrel⟩ := h.refund? c p.attempt
    · rw [hu, hu']
      exact h.gotoLoop _
    · rw [hu, hu']
      exact hrel.gotoLoop _
  | failing p note =>
    simp only [Saga.loopDb, h.loop_eq, hpc]
    exact (h.update c p.attempt .failed none none (some note)).gotoLoop _
  | accepted p opid =>
    simp only [Saga.loopDb, h.loop_eq, hpc]
    exact (h.update c p.attempt .sent (some opid) none none).gotoLoop _
  | leaving p opid txid note =>
    simp only [Saga.loopDb, h.loop_eq, hpc]
    exact (h.update c p.attempt .sent opid txid (some note)).gotoLoop _
  | costing p txid =>
    simp only [Saga.loopDb, h.loop_eq, hpc]
    split
    · exact h.gotoLoop _
    · exact h.map (g := fun s =>
        { s with db := s.db.recordTxCost .payout txid p.fee, loop := .confirming p txid })
        fun _ _ => rfl
  | confirming p txid =>
    simp only [Saga.loopDb, h.loop_eq, hpc]
    obtain ⟨hu, hu'⟩ | ⟨u, u', hu, hu', hrel⟩ := h.confirm? c p.attempt txid
    · rw [hu, hu']
      exact h.gotoLoop _
    · rw [hu, hu']
      exact hrel.gotoLoop _
  | finishing p txid =>
    simp only [Saga.loopDb, h.loop_eq, hpc]
    exact (h.update c p.attempt .confirmed none (some txid) none).gotoLoop _
  | idle | submitting p | sending p | waiting p opid | verifying p txid tries =>
    simp only [Saga.loopDb, h.loop_eq, hpc]
    exact h

theorem Alike.sendmany (h : Alike W s s') : Alike W s.sendmany s'.sendmany := by
  refine h.map (g := Saga.sendmany) fun s t => ?_
  cases hpc : s.loop with
  | submitting p =>
    have hpc' : (s.withAttempts t).loop = .submitting p := hpc
    simp only [Saga.sendmany, hpc, hpc']
    rfl
  | _ =>
    have hpc' := hpc
    change (s.withAttempts t).loop = _ at hpc'
    simp only [Saga.sendmany, hpc, hpc']

theorem Alike.sendAnswer (h : Alike W s s') (answer : SendAnswer) :
    Alike W (s.sendAnswer answer) (s'.sendAnswer answer) := by
  refine h.map (g := (Saga.sendAnswer · answer)) fun s t => ?_
  cases hpc : s.loop with
  | sending p =>
    have hpc' : (s.withAttempts t).loop = .sending p := hpc
    simp only [Saga.sendAnswer, hpc, hpc']
    cases answer <;> rfl
  | _ =>
    have hpc' := hpc
    change (s.withAttempts t).loop = _ at hpc'
    simp only [Saga.sendAnswer, hpc, hpc']

theorem Alike.loopStatus (h : Alike W s s') (w : Wallet) (answer : StatusAnswer) :
    Alike W (s.loopStatus w answer) (s'.loopStatus w answer) := by
  cases hpc : s.loop with
  | waiting p opid =>
    simp only [Saga.loopStatus, h.loop_eq, hpc]
    cases answer with
    | error message => exact h.gotoLoop _
    | statuses first =>
      cases first with
      | none => exact h
      | some status =>
        cases status with
        | success result => exact h.gotoLoop _
        | failed message => exact (h.failOperation w opid).gotoLoop _
        | inFlight => exact h
  | _ =>
    simp only [Saga.loopStatus, h.loop_eq, hpc]
    exact h

theorem Alike.loopTimeout (h : Alike W s s') : Alike W s.loopTimeout s'.loopTimeout := by
  cases hpc : s.loop with
  | waiting p opid =>
    simp only [Saga.loopTimeout, h.loop_eq, hpc]
    exact h.gotoLoop _
  | _ =>
    simp only [Saga.loopTimeout, h.loop_eq, hpc]
    exact h

theorem Alike.loopNode (h : Alike W s s') (w : Wallet) (answer : NodeAnswer) :
    Alike W (s.loopNode w answer) (s'.loopNode w answer) := by
  cases hpc : s.loop with
  | verifying p txid tries =>
    simp only [Saga.loopNode, h.loop_eq, hpc]
    cases answer with
    | found => exact h.gotoLoop _
    | notFound message =>
      dsimp only
      split
      · exact (h.expire w txid).gotoLoop _
      · exact (h.expire w txid).gotoLoop _
    | error message =>
      dsimp only
      split
      · exact h.gotoLoop _
      · exact h.gotoLoop _
  | _ =>
    simp only [Saga.loopNode, h.loop_eq, hpc]
    exact h

/-! ### Steps of the reconciler -/

/-- Without funds, an attempt is not listed. -/
theorem Alike.getReservedAttempts (h : Alike W s s') (hW : ∀ a, W a → s.db.itemsOf a = [])
    (minutes : Option ℕ) :
    s'.db.getReservedAttempts minutes = s.db.getReservedAttempts minutes := by
  obtain ⟨t, rfl, ht⟩ := h
  cases minutes with
  | none =>
    refine (ht.select (p := fun a _ => (s.db.itemsOf a != []) && true) (fun a _ ha => ?_) _).symm
    rw [hW a ha]
    rfl
  | some minutes =>
    refine (ht.select (p := fun a createdAt =>
      (s.db.itemsOf a != []) && s.db.olderThan createdAt minutes) (fun a _ ha => ?_) _).symm
    rw [hW a ha]
    rfl

theorem Alike.reconcile (h : Alike W s s') (hW : ∀ a, W a → s.db.itemsOf a = [])
    (minutes : Option ℕ) (c : DbCall) :
    Alike W (s.reconcile minutes c) (s'.reconcile minutes c) := by
  cases hpc : s.sweep with
  | idle =>
    simp only [Saga.reconcile, h.sweep_eq, hpc, h.getReservedAttempts hW]
    split
    · exact h
    · exact h.gotoSweep _
  | _ =>
    simp only [Saga.reconcile, h.sweep_eq, hpc]
    exact h

theorem Alike.checkPhantoms (h : Alike W s s') (c : DbCall) :
    Alike W (s.checkPhantoms c) (s'.checkPhantoms c) := by
  refine h.map (g := (Saga.checkPhantoms · c)) fun s t => ?_
  cases hpc : s.sweep with
  | idle =>
    have hpc' : (s.withAttempts t).sweep = .idle := hpc
    simp only [Saga.checkPhantoms, hpc, hpc']
    split <;> rfl
  | _ =>
    have hpc' := hpc
    change (s.withAttempts t).sweep = _ at hpc'
    simp only [Saga.checkPhantoms, hpc, hpc']

theorem Alike.sweepNext (h : Alike W s s') : Alike W s.sweepNext s'.sweepNext := by
  have hnow : s'.db.now = s.db.now := by
    obtain ⟨t, rfl, -⟩ := h
    rfl
  cases hpc : s.sweep with
  | rows rest =>
    cases rest <;>
    · simp only [Saga.sweepNext, h.sweep_eq, hpc, hnow]
      exact h.gotoSweep _
  | missing r repliedAt rest =>
    simp only [Saga.sweepNext, h.sweep_eq, hpc, hnow]
    split
    · exact h.gotoSweep _
    · exact h.gotoSweep _
  | phantoms rest =>
    cases rest <;>
    · simp only [Saga.sweepNext, h.sweep_eq, hpc]
      exact h.gotoSweep _
  | _ =>
    simp only [Saga.sweepNext, h.sweep_eq, hpc]
    exact h

theorem Alike.sweepStatus (h : Alike W s s') (w : Wallet) (answer : StatusAnswer) :
    Alike W (s.sweepStatus w answer) (s'.sweepStatus w answer) := by
  cases hpc : s.sweep with
  | askWallet r opid rest =>
    simp only [Saga.sweepStatus, h.sweep_eq, hpc]
    cases answer with
    | error message => exact h.gotoSweep _
    | statuses first =>
      cases first with
      | none => exact h.gotoSweep _
      | some status =>
        cases status with
        | success result =>
          dsimp only
          split
          · exact h.gotoSweep _
          · exact h.gotoSweep _
        | failed message => exact (h.failOperation w opid).gotoSweep _
        | inFlight => exact h.gotoSweep _
  | _ =>
    simp only [Saga.sweepStatus, h.sweep_eq, hpc]
    exact h

theorem Alike.sweepNode (h : Alike W s s') (w : Wallet) (v : Bool) (answer : NodeAnswer) :
    Alike W (s.sweepNode w v answer) (s'.sweepNode w v answer) := by
  have hnow : s'.db.now = s.db.now := by
    obtain ⟨t, rfl, -⟩ := h
    rfl
  cases hpc : s.sweep with
  | askNode r txid rest =>
    simp only [Saga.sweepNode, h.sweep_eq, hpc, hnow]
    cases answer with
    | found => exact h.gotoSweep _
    | notFound message => exact (h.expire w txid).gotoSweep _
    | error message => exact h.gotoSweep _
  | askPhantom txid rest =>
    simp only [Saga.sweepNode, h.sweep_eq, hpc, hnow]
    cases answer with
    | found => exact h.gotoSweep _
    | notFound message => exact (h.expire w txid).gotoSweep _
    | error message => exact h.gotoSweep _
  | _ =>
    simp only [Saga.sweepNode, h.sweep_eq, hpc]
    exact h

theorem Alike.sweepDb (h : Alike W s s') (c : DbCall) : Alike W (s.sweepDb c) (s'.sweepDb c) := by
  cases hpc : s.sweep with
  | refund r why rest =>
    simp only [Saga.sweepDb, h.sweep_eq, hpc]
    obtain ⟨hu, hu'⟩ | ⟨u, u', hu, hu', hrel⟩ := h.refund? c r.id
    · rw [hu, hu']
      exact h.gotoSweep _
    · rw [hu, hu']
      exact hrel.gotoSweep _
  | markFailed r why rest =>
    simp only [Saga.sweepDb, h.sweep_eq, hpc]
    exact (h.update c r.id .failed none none (some s!"reconciled: refunded ({why})")).gotoSweep _
  | confirm r txid rest =>
    simp only [Saga.sweepDb, h.sweep_eq, hpc]
    obtain ⟨hu, hu'⟩ | ⟨u, u', hu, hu', hrel⟩ := h.confirm? c r.id txid
    · rw [hu, hu']
      exact h.gotoSweep _
    · rw [hu, hu']
      exact hrel.gotoSweep _
  | markConfirmed r txid rest =>
    simp only [Saga.sweepDb, h.sweep_eq, hpc]
    exact (h.update c r.id .confirmed none (some txid)
      (some "reconciled: confirmed via chain lookup")).gotoSweep _
  | void txid repliedAt rest =>
    simp only [Saga.sweepDb, h.sweep_eq, hpc]
    obtain ⟨hu, hu'⟩ | ⟨u, u', hu, hu', hrel⟩ := h.void? c txid
    · rw [hu, hu']
      exact h.gotoSweep _
    · rw [hu, hu']
      exact hrel.gotoSweep _
  | _ =>
    simp only [Saga.sweepDb, h.sweep_eq, hpc]
    exact h

/-- **One step.** -/
theorem Alike.step (h : Alike W s s') (hW : ∀ a, W a → s.db.itemsOf a = []) (w : Wallet) (v : Bool)
    (l : Label) : Alike W (s.step w v l) (s'.step w v l) := by
  cases l with
  | world other seconds =>
    obtain ⟨t, rfl, ht⟩ := h
    exact ⟨t, rfl, ht⟩
  | crash => exact (h.gotoLoop .idle).gotoSweep .idle
  | tx attempt state => exact h.map (g := (Saga.setTx · attempt state)) fun _ _ => rfl
  | startRound payoutList c => exact h.startRound payoutList c
  | loopDb c => exact h.loopDb c
  | sendmany => exact h.sendmany
  | sendAnswer answer => exact h.sendAnswer answer
  | loopStatus answer => exact h.loopStatus w answer
  | loopTimeout => exact h.loopTimeout
  | loopNode answer => exact h.loopNode w answer
  | reconcile minutes c => exact h.reconcile hW minutes c
  | checkPhantoms c => exact h.checkPhantoms c
  | sweepNext => exact h.sweepNext
  | sweepStatus answer => exact h.sweepStatus w answer
  | sweepNode answer => exact h.sweepNode w v answer
  | sweepDb c => exact h.sweepDb c

/-! ## Attempts nobody will act on -/

/-- An attempt without funds whose reservation does not come next. -/
structure Idle (s : Saga) (a : AttemptId) : Prop where
  known : s.db.payoutAttempts.has a = true
  items : s.db.itemsOf a = []
  loop : ∀ p, s.loop = .created p → p.attempt ≠ a

variable {a : AttemptId}

/-- No attempt is forgotten, and none but the one whose reservation comes next is funded. -/
structure Calm (s s' : Saga) : Prop where
  has : ∀ a, s.db.payoutAttempts.has a = true → s'.db.payoutAttempts.has a = true
  items : ∀ a, s.db.itemsOf a = [] → (∀ p, s.loop = .created p → p.attempt ≠ a) →
    s'.db.itemsOf a = []
  loop : ∀ p, s'.loop = .created p → s.loop = .created p ∨ s.db.payoutAttempts.has p.attempt = false

theorem Idle.later (h : Idle s a) (hcalm : Calm s s') : Idle s' a where
  known := hcalm.has a h.known
  items := hcalm.items a h.items h.loop
  loop p hp := by
    rintro rfl
    rcases hcalm.loop p hp with hloop | hnew
    · exact h.loop p hloop rfl
    · rw [h.known] at hnew
      cases hnew

/-- What neither forgets nor funds an attempt. -/
structure Inert (s s' : Saga) : Prop where
  has : ∀ a, s.db.payoutAttempts.has a = true → s'.db.payoutAttempts.has a = true
  items : ∀ a, s.db.itemsOf a = [] → s'.db.itemsOf a = []

protected theorem Inert.refl (s : Saga) : Inert s s := ⟨fun _ => id, fun _ => id⟩

theorem Inert.calm (h : Inert s s') (hloop : ∀ p, s'.loop = .created p → s.loop = .created p) :
    Calm s s' := ⟨h.has, fun a ha _ => h.items a ha, fun p hp => .inl (hloop p hp)⟩

/-- An inert move to a counter that is not before a reservation. -/
theorem Inert.goto {u : Saga} (h : Inert s u) {pc : LoopPc} (hpc : ∀ p, pc ≠ .created p) :
    Calm s { u with loop := pc } :=
  ⟨h.has, fun a ha _ => h.items a ha, fun p hp => absurd hp (hpc p)⟩

theorem inert_update (s : Saga) (c : DbCall) (a : AttemptId) (status : AttemptStatus)
    (opid txid errorMessage : Option String) :
    Inert s (s.update c a status opid txid errorMessage) := by
  unfold Saga.update
  split
  · exact .refl s
  · exact ⟨fun b hb => (Auto.has_modify _ _ _ _).trans hb, fun _ => id⟩

theorem itemsOf_filter (db db' : PoolDb) (b : AttemptId)
    (h : db'.payoutItems = db.payoutItems.filter fun r => r.attemptId != b) (a : AttemptId)
    (ha : db.itemsOf a = []) : db'.itemsOf a = [] := by
  unfold PoolDb.itemsOf at ha ⊢
  rw [h]
  rw [List.map_eq_nil_iff, List.filter_eq_nil_iff] at ha ⊢
  exact fun e he => ha e (List.mem_of_mem_filter he)

theorem inert_refund {c : DbCall} {u : Saga} (h : s.refund? c a = some u) : Inert s u := by
  obtain ⟨r, hr, rfl⟩ := Option.map_eq_some_iff.1 h
  obtain ⟨-, bal, hdb, -⟩ := PoolDb.refundPayout_spec (DbCall.result_eq_some hr)
  refine ⟨fun b hb => ?_, fun b hb => itemsOf_filter s.db r.2 a (by rw [hdb]) b hb⟩
  show r.2.payoutAttempts.has b = true
  rw [hdb]
  exact hb

theorem inert_confirm {c : DbCall} {txid : String} {u : Saga} (h : s.confirm? c a txid = some u) :
    Inert s u := by
  obtain ⟨r, hr, rfl⟩ := Option.map_eq_some_iff.1 h
  obtain ⟨-, bal, pays, hdb, -⟩ := PoolDb.confirmPayout_spec (DbCall.result_eq_some hr)
  refine ⟨fun b hb => ?_, fun b hb => itemsOf_filter s.db r.2 a (by rw [hdb]) b hb⟩
  show r.2.payoutAttempts.has b = true
  rw [hdb]
  exact hb

theorem inert_void {c : DbCall} {txid : String} {u : Saga} (h : s.void? c txid = some u) :
    Inert s u := by
  obtain ⟨r, hr, rfl⟩ := Option.map_eq_some_iff.1 h
  obtain ⟨-, hdb⟩ | ⟨-, bal, hdb, -⟩ := PoolDb.voidReorgedPayout_cases (DbCall.result_eq_some hr)
  · exact ⟨fun b hb => hdb ▸ hb, fun b hb => hdb ▸ hb⟩
  · refine ⟨fun b hb => ?_, fun b hb => ?_⟩
    · show r.2.payoutAttempts.has b = true
      rw [hdb]
      unfold Auto.has at hb ⊢
      simp only [PoolDb.failVoided, Auto.get?_modifyAll, Option.isSome_map]
      exact hb
    · show r.2.itemsOf b = []
      rw [hdb]
      exact hb

theorem calm_startRound (payoutList : List Destination) (c : DbCall) :
    Calm s (s.startRound payoutList c) := by
  unfold Saga.startRound
  split
  · split
    · exact (Inert.refl s).calm fun _ => id
    · refine ⟨fun a ha => Auto.has_insert ha _, fun _ ha _ => ha, fun p hp => .inr ?_⟩
      cases hp
      show s.db.payoutAttempts.has s.db.payoutAttempts.next = false
      unfold Auto.has
      rw [Auto.get?_next]
      rfl
  · exact (Inert.refl s).calm fun _ => id

theorem calm_reserve (c : DbCall) {p : PayoutRound} (hpc : s.loop = .created p) :
    Calm s (s.loopDb c) := by
  have hfunded : ∀ {db : PoolDb} {bal its} {pairs : List (MinerId × ℤ)},
      db = { s.db with balances := bal, payoutItems := its } →
      its.values = s.db.payoutItems.values ++ pairs.map (fun e => ⟨p.attempt, e.1, e.2⟩) →
      ∀ a, s.db.itemsOf a = [] → (∀ p, s.loop = .created p → p.attempt ≠ a) →
        db.itemsOf a = [] := by
    rintro _ bal its pairs rfl hits a ha hne
    have hold : ∀ r ∈ s.db.payoutItems.values, r.attemptId ≠ a := fun r hr heq => by
      obtain ⟨i, hi⟩ := Auto.mem_values.1 hr
      unfold PoolDb.itemsOf at ha
      rw [List.map_eq_nil_iff, List.filter_eq_nil_iff] at ha
      exact ha _ hi (beq_iff_eq.2 heq)
    unfold PoolDb.itemsOf
    rw [List.map_eq_nil_iff, List.filter_eq_nil_iff]
    intro e he heq
    have hmem : e.2 ∈ its.values := Auto.mem_values.2 ⟨e.1, he⟩
    rw [hits, List.mem_append] at hmem
    rcases hmem with hmem | hmem
    · exact hold _ hmem (beq_iff_eq.1 heq)
    · obtain ⟨x, -, hx⟩ := List.mem_map.1 hmem
      rw [← hx] at heq
      exact hne p hpc (beq_iff_eq.1 heq)
  simp only [Saga.loopDb, hpc]
  cases hr : c.result (PoolDb.reservePayout p.attempt s.db p.items) with
  | none => exact (Inert.refl s).goto fun _ hp => by cases hp
  | some r =>
    obtain ⟨reserved, db⟩ := r
    obtain ⟨bal, its, hdb, hits, -⟩ := PoolDb.reservePayout_spec (DbCall.result_eq_some hr)
    have hhas : ∀ a, s.db.payoutAttempts.has a = true → db.payoutAttempts.has a = true :=
      fun a ha => hdb ▸ ha
    cases reserved with
    | nil => exact ⟨hhas, hfunded hdb hits, fun _ hp => by cases hp⟩
    | cons e reserved => exact ⟨hhas, hfunded hdb hits, fun _ hp => by cases hp⟩

theorem calm_loopDb (c : DbCall) : Calm s (s.loopDb c) := by
  cases hpc : s.loop with
  | created p => exact calm_reserve c hpc
  | reserved p =>
    simp only [Saga.loopDb, hpc]
    split
    · exact (Inert.refl s).goto fun _ hp => by cases hp
    · exact (inert_update s c p.attempt .submitting none none none).goto fun _ hp => by cases hp
  | refunding p note =>
    simp only [Saga.loopDb, hpc]
    cases hu : s.refund? c p.attempt with
    | none => exact (Inert.refl s).goto fun _ hp => by cases hp
    | some u => exact (inert_refund hu).goto fun _ hp => by cases hp
  | failing p note =>
    simp only [Saga.loopDb, hpc]
    exact (inert_update s c p.attempt .failed none none (some note)).goto fun _ hp => by cases hp
  | accepted p opid =>
    simp only [Saga.loopDb, hpc]
    exact (inert_update s c p.attempt .sent (some opid) none none).goto fun _ hp => by cases hp
  | leaving p opid txid note =>
    simp only [Saga.loopDb, hpc]
    exact (inert_update s c p.attempt .sent opid txid (some note)).goto fun _ hp => by cases hp
  | costing p txid =>
    simp only [Saga.loopDb, hpc]
    split
    · exact (Inert.refl s).goto fun _ hp => by cases hp
    · have hcost : Inert s { s with db := s.db.recordTxCost .payout txid p.fee } :=
        ⟨fun _ => id, fun _ => id⟩
      exact hcost.goto fun _ hp => by cases hp
  | confirming p txid =>
    simp only [Saga.loopDb, hpc]
    cases hu : s.confirm? c p.attempt txid with
    | none => exact (Inert.refl s).goto fun _ hp => by cases hp
    | some u => exact (inert_confirm hu).goto fun _ hp => by cases hp
  | finishing p txid =>
    simp only [Saga.loopDb, hpc]
    exact (inert_update s c p.attempt .confirmed none (some txid) none).goto fun _ hp => by cases hp
  | idle | submitting p | sending p | waiting p opid | verifying p txid tries =>
    simp only [Saga.loopDb, hpc]
    exact (Inert.refl s).calm fun _ => id

/-- A step that leaves the database alone and does not come before a reservation. -/
theorem calm_of_db (hdb : s'.db = s.db) (hloop : ∀ p, s'.loop = .created p → s.loop = .created p) :
    Calm s s' :=
  Inert.calm ⟨fun _ ha => hdb ▸ ha, fun _ ha => hdb ▸ ha⟩ hloop

theorem calm_sendmany : Calm s s.sendmany := by
  unfold Saga.sendmany
  split
  · exact calm_of_db rfl fun _ hp => by cases hp
  · exact calm_of_db rfl fun _ => id

theorem calm_sendAnswer (answer : SendAnswer) : Calm s (s.sendAnswer answer) := by
  unfold Saga.sendAnswer
  split
  · cases answer <;> exact calm_of_db rfl fun _ hp => by cases hp
  · exact calm_of_db rfl fun _ => id

theorem calm_loopStatus (answer : StatusAnswer) : Calm s (s.loopStatus w answer) := by
  unfold Saga.loopStatus
  split
  · split
    · exact calm_of_db rfl fun _ hp => by cases hp
    · exact calm_of_db rfl fun _ hp => by cases hp
    · exact calm_of_db rfl fun _ hp => by cases hp
    · exact calm_of_db rfl fun _ => id
  · exact calm_of_db rfl fun _ => id

theorem calm_loopTimeout : Calm s s.loopTimeout := by
  unfold Saga.loopTimeout
  split
  · exact calm_of_db rfl fun _ hp => by cases hp
  · exact calm_of_db rfl fun _ => id

theorem calm_loopNode (answer : NodeAnswer) : Calm s (s.loopNode w answer) := by
  unfold Saga.loopNode
  dsimp only
  split
  · cases answer with
    | found => exact calm_of_db rfl fun _ hp => by cases hp
    | notFound message =>
      dsimp only
      split
      · exact calm_of_db rfl fun _ hp => by cases hp
      · exact calm_of_db rfl fun _ hp => by cases hp
    | error message =>
      dsimp only
      split
      · exact calm_of_db rfl fun _ hp => by cases hp
      · exact calm_of_db rfl fun _ hp => by cases hp
  · exact calm_of_db rfl fun _ => id

theorem inert_sweepDb (c : DbCall) : Inert s (s.sweepDb c) := by
  unfold Saga.sweepDb
  split
  · rename_i r why rest hpc
    cases hu : s.refund? c r.id with
    | none => exact ⟨fun _ => id, fun _ => id⟩
    | some u =>
      have hrefund := inert_refund hu
      exact ⟨hrefund.has, hrefund.items⟩
  · rename_i r why rest hpc
    have hupdate := inert_update s c r.id .failed none none (some s!"reconciled: refunded ({why})")
    exact ⟨hupdate.has, hupdate.items⟩
  · rename_i r txid rest hpc
    cases hu : s.confirm? c r.id txid with
    | none => exact ⟨fun _ => id, fun _ => id⟩
    | some u =>
      have hconfirm := inert_confirm hu
      exact ⟨hconfirm.has, hconfirm.items⟩
  · rename_i r txid rest hpc
    have hupdate := inert_update s c r.id .confirmed none (some txid)
      (some "reconciled: confirmed via chain lookup")
    exact ⟨hupdate.has, hupdate.items⟩
  · rename_i txid repliedAt rest hpc
    cases hu : s.void? c txid with
    | none => exact ⟨fun _ => id, fun _ => id⟩
    | some u =>
      have hvoid := inert_void hu
      exact ⟨hvoid.has, hvoid.items⟩
  · exact .refl s

/-- **One step.** -/
theorem calm_step (w : Wallet) (v : Bool) (l : Label) : Calm s (s.step w v l) := by
  cases l with
  | world other seconds => exact Inert.calm ⟨fun _ => id, fun _ => id⟩ fun _ => id
  | crash => exact calm_of_db rfl fun _ hp => by cases hp
  | tx attempt state => exact calm_of_db rfl fun _ => id
  | startRound payoutList c => exact calm_startRound payoutList c
  | loopDb c => exact calm_loopDb c
  | sendmany => exact calm_sendmany
  | sendAnswer answer => exact calm_sendAnswer answer
  | loopStatus answer => exact calm_loopStatus answer
  | loopTimeout => exact calm_loopTimeout
  | loopNode answer => exact calm_loopNode answer
  | reconcile minutes c =>
    show Calm s (s.reconcile minutes c)
    unfold Saga.reconcile
    split
    · split <;> exact calm_of_db rfl fun _ => id
    · exact calm_of_db rfl fun _ => id
  | checkPhantoms c =>
    show Calm s (s.checkPhantoms c)
    unfold Saga.checkPhantoms
    split
    · split <;> exact calm_of_db rfl fun _ => id
    · exact calm_of_db rfl fun _ => id
  | sweepNext =>
    show Calm s s.sweepNext
    unfold Saga.sweepNext
    split
    · exact calm_of_db rfl fun _ => id
    · exact calm_of_db rfl fun _ => id
    · split <;> exact calm_of_db rfl fun _ => id
    · exact calm_of_db rfl fun _ => id
    · exact calm_of_db rfl fun _ => id
    · exact calm_of_db rfl fun _ => id
  | sweepStatus answer =>
    show Calm s (s.sweepStatus w answer)
    unfold Saga.sweepStatus
    split
    · split
      · split <;> exact calm_of_db rfl fun _ => id
      · exact calm_of_db rfl fun _ => id
      · exact calm_of_db rfl fun _ => id
    · exact calm_of_db rfl fun _ => id
  | sweepNode answer =>
    show Calm s (s.sweepNode w v answer)
    unfold Saga.sweepNode
    split
    · cases answer <;> exact calm_of_db rfl fun _ => id
    · cases answer <;> exact calm_of_db rfl fun _ => id
    · exact calm_of_db rfl fun _ => id
  | sweepDb c => exact (inert_sweepDb c).calm fun _ hp => (loop_sweepDb c).symm.trans hp

end Saga

end ZcashMiningPool
