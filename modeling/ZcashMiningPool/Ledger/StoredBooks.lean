import ZcashMiningPool.Db.Stored
import ZcashMiningPool.Ledger.Holdings

/-!
# The stored books follow the integer books

As long as no holding leaves the 64-bit range, what SQLite stores are the integers of `PoolDb`,
operation by operation.

* `transfer_of`, `updatePending_of`, … — the statements.
* `confirmPayout_of`, `distribute_of`, `orphanBlock_of`, … — the operations; a distribution that
  fails, fails here too.
* `step_of` — the step lemma: the stored operation writes the integers of the exact one, or fails
  and leaves everything as it was.
-/

set_option autoImplicit false

namespace ZcashMiningPool

open Table Buckets SqlNumber

namespace StoredBalance

theorem get_ofBalance (b : Balance) (k : Bucket) : (ofBalance b).get k = .integer (b.get k) := by
  cases k <;> rfl

theorem set_ofBalance (b : Balance) (n : ℤ) (k : Bucket) :
    (ofBalance b).set (.integer n) k = ofBalance (b.set n k) := by
  cases k <;> rfl

/-- Within the range, the transfer of a row is integer arithmetic. -/
theorem move_ofBalance {b : Balance} {src dst : Bucket} {a : ℤ} (hs : InRange (b.get src - a))
    (hd : InRange (b.get dst + a)) :
    (ofBalance b).move src dst a = ofBalance (b.move src dst a) := by
  unfold move Balance.move
  rw [get_ofBalance, get_ofBalance, Number.sub_integer hs, Number.add_integer hd, set_ofBalance,
    set_ofBalance]

end StoredBalance

namespace StoredDb

open PoolDb

/-! ## Statements -/

theorem insertIgnore_of_has {κ ρ : Type} [DecidableEq κ] {t : Keyed κ ρ} {k : κ}
    (h : t.has k = true) (r : ρ) : t.insertIgnore k r = t := by
  have hne : ¬ t.get? k = none := by
    intro hnone
    rw [Keyed.has, hnone] at h
    cases h
  unfold Keyed.insertIgnore Keyed.insert?
  rw [dif_neg hne]
  rfl

theorem insertBalance_of {db : PoolDb} (h : db.Known) (m : MinerId) :
    (of db).insertBalance m = (db.insertBalance m).map of := by
  unfold insertBalance PoolDb.insertBalance
  have hhas : (of db).balances.has m = db.balances.has m := Keyed.has_map _ _ _
  have hminers : (of db).tables.miners = db.miners := rfl
  rw [hhas, hminers]
  by_cases hb : db.balances.has m = true
  · have hm : db.miners.has m = true := h m fun hnone => by
      rw [Keyed.has, hnone] at hb
      cases hb
    rw [if_pos hb, if_pos hm, insertIgnore_of_has hb]
    rfl
  · rw [if_neg hb]
    split
    · have hins := Keyed.insertIgnore_map db.balances StoredBalance.ofBalance m Balance.zero
      exact congrArg (fun t => Except.ok (⟨db.others, t⟩ : StoredDb)) hins
    · rfl

theorem updatePending_of {db : PoolDb} {m : MinerId} {f : ℤ → ℤ} {f' : Number → Number}
    (h : db.balances.get? m ≠ none →
      f' (.integer (db.books m .pending)) = .integer (f (db.books m .pending))) :
    (of db).updatePending m f' = of (db.updatePending m f) := by
  unfold updatePending PoolDb.updatePending
  have hmap : (db.balances.map StoredBalance.ofBalance).modify m
      (fun b => b.set (f' b.pending) .pending)
        = (db.balances.modify m fun b => { b with pending := f b.pending }).map
          StoredBalance.ofBalance := by
    refine Keyed.modify_map fun r hr => ?_
    have hf := h (by simp [hr])
    have hp : db.books m .pending = r.pending := by simp [books, hr, Balance.get]
    rw [hp] at hf
    have hpend : (StoredBalance.ofBalance r).pending = .integer r.pending := rfl
    rw [hpend, hf]
    rfl
  exact congrArg (fun t => (⟨db.others, t⟩ : StoredDb)) hmap

theorem transfer_of {db : PoolDb} {src dst : Bucket} {m : MinerId} {a : ℤ}
    (h : a ≤ db.books m src →
      InRange (db.books m src - a) ∧ InRange (db.books m dst + a)) :
    (of db).transfer src dst m a = (db.transfer src dst m a).map of := by
  unfold transfer PoolDb.transfer
  have hmap : (db.balances.map StoredBalance.ofBalance).modifyIf m
      (fun b => decide ((a : ℚ) ≤ (b.get src).value)) (fun b => b.move src dst a)
        = (db.balances.modifyIf m (fun b => decide (a ≤ b.get src))
            (fun b => b.move src dst a)).map (fun t => t.map StoredBalance.ofBalance) := by
    refine Keyed.modifyIf_map (fun r => ?_) fun r hr hcov => ?_
    · rw [StoredBalance.get_ofBalance]
      simp only [Number.value, Int.cast_le]
    · have hbooks : ∀ b, db.books m b = r.get b := fun b => by simp [books, hr]
      rw [hbooks, hbooks] at h
      obtain ⟨hs, hd⟩ := h (of_decide_eq_true hcov)
      exact StoredBalance.move_ofBalance hs hd
  have hbal : (of db).balances = db.balances.map StoredBalance.ofBalance := rfl
  rw [hbal, hmap, Option.map_map, Option.map_map]
  rfl

theorem readPending_of (db : PoolDb) (m : MinerId) :
    (of db).readPending m = .ok (db.books m .pending) := by
  unfold readPending
  rw [column_of]
  rfl

/-! ## Crediting -/

theorem insertBlockCredit_of {db : PoolDb} {m : MinerId} (hm : db.miners.has m = true)
    (blockId : BlockId) (amount : ℤ) :
    (of db).insertBlockCredit blockId m amount
      = (db.insertBlockCredit blockId m amount).map of := by
  have hminers : (of db).tables.miners = db.miners := rfl
  unfold insertBlockCredit
  rw [hminers, if_pos hm]
  have htables : (of db).tables.insertBlockCredit blockId m amount
      = (db.insertBlockCredit blockId m amount).map others := by
    unfold PoolDb.insertBlockCredit
    have hb : (of db).tables.blocks = db.blocks := rfl
    have hc : (of db).tables.blockCredits = db.blockCredits := rfl
    rw [hb, hc]
    split
    · split <;> rfl
    · rfl
  rw [htables]
  unfold PoolDb.insertBlockCredit
  split
  · split <;> rfl
  · rfl

theorem distribute_of {blockId : BlockId} {credits : List (MinerId × ℤ)} {db : PoolDb}
    (hk : db.Known) (hpos : ∀ e ∈ credits, 0 ≤ e.2) (h₀ : ∀ m, 0 ≤ db.books m .pending)
    (hroom : ∀ m, db.books m .pending + demand credits m ≤ maxInteger) :
    distributeBlockCredits blockId (of db) credits
      = (PoolDb.distributeBlockCredits blockId db credits).map of := by
  induction credits generalizing db with
  | nil => rfl
  | cons credit credits ih =>
    obtain ⟨m, amount⟩ := credit
    simp only [distributeBlockCredits, PoolDb.distributeBlockCredits, bind, Except.bind]
    rw [insertBalance_of hk]
    cases h₁ : db.insertBalance m with
    | error e => rfl
    | ok db₁ =>
      obtain ⟨hk₁, hm⟩ := hk.insertBalance h₁
      have hm₁ : db₁.miners.has m = true := by
        rw [insertBalance_ok h₁]
        exact hm
      simp only [Except.map]
      rw [insertBlockCredit_of hm₁]
      cases h₂ : db₁.insertBlockCredit blockId m amount with
      | error e => rfl
      | ok db₂ =>
        obtain ⟨t, -, rfl, -⟩ := insertBlockCredit_ok h₂
        simp only [Except.map]
        have hb₁ : ({ db₁ with blockCredits := t } : PoolDb).books = db.books :=
          Eq.trans (b := db₁.books) (books_eq_of_balances rfl) (books_insertBalance h₁)
        have hrow : db₁.balances.get? m ≠ none := balances_insertBalance h₁
        have hamount : 0 ≤ amount := hpos _ List.mem_cons_self
        have hrest := demand_nonneg fun e he => hpos e (List.mem_cons_of_mem _ he)
        have hadd : InRange (db.books m .pending + amount) := by
          have h0 := h₀ m
          have hr := hroom m
          have hd := hrest m
          rw [demand_cons, if_pos rfl] at hr
          unfold InRange maxInteger at *
          omega
        rw [updatePending_of (f := (· + amount)) fun _ => by
          rw [hb₁]
          exact Number.add_integer hadd]
        have hbooks := books_updatePending { db₁ with blockCredits := t } m (· + amount) hrow
        rw [hb₁] at hbooks
        refine ih (hk₁.of_same rfl (isSome_updatePending _ m _))
          (fun e he => hpos e (List.mem_cons_of_mem _ he)) (fun m' => ?_) fun m' => ?_
        · rw [hbooks]
          have := h₀ m'
          have := h₀ m
          split <;> omega
        · have hr := hroom m'
          rw [demand_cons] at hr
          rw [hbooks]
          by_cases hmm : m' = m
          · subst hmm
            rw [if_pos rfl] at hr
            rw [if_pos ⟨rfl, rfl⟩]
            omega
          · rw [if_neg fun hh => hmm hh.symm] at hr
            rw [if_neg fun hh => hmm hh.1]
            omega

/-- The same rows, whatever the columns of the balances hold. -/
structure SameRows (s : StoredDb) (db : PoolDb) : Prop where
  tables : s.tables = db.others
  has : ∀ m, s.balances.has m = db.balances.has m

theorem sameRows_of (db : PoolDb) : SameRows (of db) db :=
  ⟨rfl, fun _ => Keyed.has_map _ _ _⟩

theorem SameRows.insertBalance_error {s : StoredDb} {db : PoolDb} (h : SameRows s db)
    (hk : db.Known) {m : MinerId} {e : DbError} (hx : db.insertBalance m = .error e) :
    s.insertBalance m = .error (.sqlx .foreignKey) := by
  have hno : db.miners.has m ≠ true := by
    intro hm
    unfold PoolDb.insertBalance at hx
    rw [if_pos hm] at hx
    cases hx
  have hnorow : s.balances.has m ≠ true := by
    rw [h.has]
    intro hrow
    refine hno (hk m fun hnone => ?_)
    rw [Keyed.has, hnone] at hrow
    cases hrow
  have hminers : s.tables.miners = db.miners := by
    rw [h.tables]
    rfl
  unfold insertBalance
  rw [if_neg hnorow, hminers, if_neg hno]

theorem SameRows.insertBalance_ok {s : StoredDb} {db db₁ : PoolDb} (h : SameRows s db)
    {m : MinerId} (hm : db.miners.has m = true) (hx : db.insertBalance m = .ok db₁) :
    ∃ s₁, s.insertBalance m = .ok s₁ ∧ SameRows s₁ db₁ := by
  have hminers : s.tables.miners = db.miners := by
    rw [h.tables]
    rfl
  rw [PoolDb.insertBalance_ok hx]
  unfold insertBalance
  by_cases hrow : s.balances.has m = true
  · rw [if_pos hrow]
    have hrow' : db.balances.has m = true := by rw [← h.has, hrow]
    refine ⟨s, rfl, h.tables, fun m' => ?_⟩
    rw [insertIgnore_of_has hrow']
    exact h.has m'
  · rw [if_neg hrow, hminers, if_pos hm]
    refine ⟨_, rfl, h.tables, fun m' => ?_⟩
    have hm' := h.has m'
    unfold Keyed.has at hm' ⊢
    simp only [Keyed.get?_insertIgnore]
    split
    · rfl
    · exact hm'

theorem SameRows.insertBlockCredit {s : StoredDb} {db : PoolDb} (h : SameRows s db) {m : MinerId}
    (hm : db.miners.has m = true) (blockId : BlockId) (amount : ℤ) :
    s.insertBlockCredit blockId m amount
      = (db.insertBlockCredit blockId m amount).map (fun d => ⟨d.others, s.balances⟩) := by
  have hm' : s.tables.miners.has m = true := by
    rw [h.tables]
    exact hm
  have hblocks : db.others.blocks = db.blocks := rfl
  have hcredits : db.others.blockCredits = db.blockCredits := rfl
  unfold StoredDb.insertBlockCredit
  rw [if_pos hm', h.tables]
  unfold PoolDb.insertBlockCredit
  rw [hblocks, hcredits]
  cases db.blocks.has blockId with
  | false => rfl
  | true => cases db.blockCredits.insert? (blockId, m) amount <;> rfl

theorem SameRows.updatePending {s : StoredDb} {db : PoolDb} (h : SameRows s db) (m : MinerId)
    (f : Number → Number) (g : ℤ → ℤ) :
    SameRows (s.updatePending m f) (db.updatePending m g) := by
  refine ⟨h.tables, fun m' => ?_⟩
  have hm' := h.has m'
  unfold Keyed.has at hm' ⊢
  simp only [StoredDb.updatePending, PoolDb.updatePending, Keyed.get?_modify]
  split
  · rw [Option.isSome_map, Option.isSome_map]
    exact hm'
  · exact hm'

/-- A distribution that fails, fails on the stored books too: no sum decides it. -/
theorem distribute_error {blockId : BlockId} {credits : List (MinerId × ℤ)} {db : PoolDb}
    {s : StoredDb} {e : DbError} (hk : db.Known) (h : SameRows s db)
    (hx : PoolDb.distributeBlockCredits blockId db credits = .error e) :
    ∃ e', distributeBlockCredits blockId s credits = .error e' := by
  induction credits generalizing db s with
  | nil => cases hx
  | cons credit credits ih =>
    obtain ⟨m, amount⟩ := credit
    simp only [distributeBlockCredits, PoolDb.distributeBlockCredits, bind, Except.bind] at hx ⊢
    cases h₁ : db.insertBalance m with
    | error e₁ =>
      rw [h.insertBalance_error hk h₁]
      exact ⟨_, rfl⟩
    | ok db₁ =>
      obtain ⟨hk₁, hm⟩ := hk.insertBalance h₁
      obtain ⟨s₁, hs₁, hrows⟩ := h.insertBalance_ok hm h₁
      have hm₁ : db₁.miners.has m = true := by
        rw [PoolDb.insertBalance_ok h₁]
        exact hm
      rw [h₁] at hx
      simp only at hx
      rw [hs₁]
      simp only
      rw [hrows.insertBlockCredit hm₁]
      cases h₂ : db₁.insertBlockCredit blockId m amount with
      | error e₂ => exact ⟨e₂, rfl⟩
      | ok db₂ =>
        rw [h₂] at hx
        simp only at hx
        obtain ⟨t, -, rfl, -⟩ := insertBlockCredit_ok h₂
        have hcredited : SameRows ⟨({ db₁ with blockCredits := t } : PoolDb).others, s₁.balances⟩
            { db₁ with blockCredits := t } := ⟨rfl, hrows.has⟩
        have hknown : Known ({ db₁ with blockCredits := t }.updatePending m (· + amount)) :=
          hk₁.of_same rfl (isSome_updatePending _ m (· + amount))
        exact ih hknown (hcredited.updatePending m _ (· + amount)) hx

/-! ## Settling -/

/-- The stored settlement loop, as long as the destination has room for what is moved. -/
theorem settleItems_of {src dst : Bucket} (hne : src ≠ dst) {message : MinerId → ℤ → String}
    {record : MinerId → ℤ → PoolDb → PoolDb}
    {record' : MinerId → ℤ → StoredDb → Except DbError StoredDb}
    (hkeep : ∀ m a (db : PoolDb), (record m a db).balances = db.balances ∧
      (record m a db).miners = db.miners)
    {items : List (MinerId × ℤ)} {db : PoolDb} (hpos : ∀ e ∈ items, 0 < e.2)
    (hrec : ∀ e ∈ items, db.balances.get? e.1 ≠ none → ∀ db' : PoolDb, db'.miners = db.miners →
      record' e.1 e.2 (of db') = .ok (of (record e.1 e.2 db')))
    (hsrc : ∀ m, db.books m src ≤ maxInteger) (hdst : ∀ m, -2 ^ 63 ≤ db.books m dst)
    (hroom : ∀ e ∈ items, db.books e.1 dst + demand items e.1 ≤ maxInteger) :
    settleItems src dst message record' (of db) items
      = (PoolDb.settleItems src dst message record db items).map of := by
  induction items generalizing db with
  | nil => rfl
  | cons e items ih =>
    obtain ⟨m, amount⟩ := e
    have hamount : 0 < amount := hpos _ List.mem_cons_self
    have hrest := demand_nonneg fun e he => (hpos e (List.mem_cons_of_mem _ he)).le
    simp only [settleItems, PoolDb.settleItems]
    have hfit : amount ≤ db.books m src →
        InRange (db.books m src - amount) ∧ InRange (db.books m dst + amount) := by
      intro hcov
      have hs := hsrc m
      have hd := hdst m
      have hr : db.books m dst + demand ((m, amount) :: items) m ≤ maxInteger :=
        hroom (m, amount) List.mem_cons_self
      have hdm := hrest m
      rw [demand_cons, if_pos rfl] at hr
      unfold InRange maxInteger at *
      constructor <;> omega
    rw [transfer_of hfit]
    cases htr : db.transfer src dst m amount with
    | none => rfl
    | some db₁ =>
      obtain ⟨t, hrow, hdb₁⟩ := transfer_frame htr
      have hminers : db₁.miners = db.miners := by rw [hdb₁]
      have hmade : record' m amount (of db₁) = .ok (of (record m amount db₁)) :=
        hrec (m, amount) List.mem_cons_self hrow db₁ hminers
      simp only [Option.map_some, bind, Except.bind, hmade]
      obtain ⟨hbal, hmin⟩ := hkeep m amount db₁
      obtain ⟨hcov, hbooks⟩ := books_transfer hne htr
      have hb : (record m amount db₁).books = move db.books src dst m amount :=
        (books_eq_of_balances hbal).trans hbooks
      refine ih (fun e he => hpos e (List.mem_cons_of_mem _ he)) (fun e he hrow' db' hdb' => ?_)
        (fun m' => ?_) (fun m' => ?_) fun e he => ?_
      · refine hrec e (List.mem_cons_of_mem _ he) (fun hnone => hrow' ?_) db'
          (hdb'.trans (hmin.trans hminers))
        have hsome := isSome_transfer htr e.1
        rw [hnone] at hsome
        rw [hbal]
        exact Option.not_isSome_iff_eq_none.1 (by simp [hsome])
      · have := hsrc m'
        rw [hb]
        unfold move
        by_cases hmm : m' = m
        · rw [if_pos hmm, if_neg hne, if_pos rfl]
          omega
        · rw [if_neg hmm]
          omega
      · have := hdst m'
        rw [hb]
        unfold move
        by_cases hmm : m' = m
        · rw [if_pos hmm, if_pos rfl, if_neg hne.symm]
          omega
        · rw [if_neg hmm]
          omega
      · have hr := hroom e (List.mem_cons_of_mem _ he)
        rw [demand_cons] at hr
        rw [hb]
        unfold move
        by_cases hmm : e.1 = m
        · rw [if_pos hmm, if_pos rfl, if_neg hne.symm]
          rw [if_pos hmm.symm] at hr
          omega
        · rw [if_neg hmm]
          rw [if_neg fun hh => hmm hh.symm] at hr
          omega

theorem insertPayout_of {db : PoolDb} {m : MinerId} (hm : db.miners.has m = true) (txid : String)
    (amount : ℤ) :
    (of db).insertPayout m txid amount = .ok (of (db.insertPayout m txid amount)) := by
  have hminers : (of db).tables.miners = db.miners := rfl
  unfold insertPayout
  rw [hminers, if_pos hm]
  rfl

/-- An attempt, as long as the destination has room for its items. -/
theorem confirmPayout_of {db : PoolDb} {attemptId : AttemptId}
    (hpos : ∀ e ∈ db.itemsOf attemptId, 0 < e.2)
    (hknown : ∀ e ∈ db.itemsOf attemptId,
      db.balances.get? e.1 ≠ none → db.miners.has e.1 = true)
    (hsrc : ∀ m, db.books m .paying ≤ maxInteger) (hdst : ∀ m, -2 ^ 63 ≤ db.books m .paid)
    (hroom : ∀ e ∈ db.itemsOf attemptId,
      db.books e.1 .paid + demand (db.itemsOf attemptId) e.1 ≤ maxInteger) (txid : String) :
    (of db).confirmPayout attemptId txid
      = (db.confirmPayout attemptId txid).map (fun r => (r.1, of r.2)) := by
  have hitems : (of db).tables.itemsOf attemptId = db.itemsOf attemptId := rfl
  simp only [confirmPayout, PoolDb.confirmPayout, hitems, bind, Except.bind]
  have hkeep : ∀ m a (db : PoolDb), (db.insertPayout m txid a).balances = db.balances ∧
      (db.insertPayout m txid a).miners = db.miners := fun _ _ _ => ⟨rfl, rfl⟩
  have hloop : ∀ message, settleItems .paying .paid message
      (fun m amount s => s.insertPayout m txid amount) (of db) (db.itemsOf attemptId)
        = (PoolDb.settleItems .paying .paid message
            (fun m amount db => db.insertPayout m txid amount) db (db.itemsOf attemptId)).map of :=
    fun message => settleItems_of (by decide) hkeep hpos
      (fun e he hrow db' hdb' => insertPayout_of (by rw [hdb']; exact hknown e he hrow) txid e.2)
      hsrc hdst hroom
  rw [hloop]
  cases PoolDb.settleItems .paying .paid _ _ db (db.itemsOf attemptId) with
  | error e => rfl
  | ok db₁ => rfl

/-- A settlement that records nothing. -/
theorem moveItems_of {src dst : Bucket} (hne : src ≠ dst) {items : List (MinerId × ℤ)}
    {db : PoolDb} (hpos : ∀ e ∈ items, 0 < e.2) (hsrc : ∀ m, db.books m src ≤ maxInteger)
    (hdst : ∀ m, -2 ^ 63 ≤ db.books m dst)
    (hroom : ∀ e ∈ items, db.books e.1 dst + demand items e.1 ≤ maxInteger)
    (message : MinerId → ℤ → String) :
    settleItems src dst message (fun _ _ s => .ok s) (of db) items
      = (PoolDb.settleItems src dst message (fun _ _ db => db) db items).map of :=
  settleItems_of hne (fun _ _ _ => ⟨rfl, rfl⟩) hpos (fun _ _ _ _ _ => rfl) hsrc hdst hroom

theorem refundPayout_of {db : PoolDb} {attemptId : AttemptId}
    (hpos : ∀ e ∈ db.itemsOf attemptId, 0 < e.2)
    (hsrc : ∀ m, db.books m .paying ≤ maxInteger) (hdst : ∀ m, -2 ^ 63 ≤ db.books m .pending)
    (hroom : ∀ e ∈ db.itemsOf attemptId,
      db.books e.1 .pending + demand (db.itemsOf attemptId) e.1 ≤ maxInteger) :
    (of db).refundPayout attemptId
      = (db.refundPayout attemptId).map (fun r => (r.1, of r.2)) := by
  have hitems : (of db).tables.itemsOf attemptId = db.itemsOf attemptId := rfl
  simp only [refundPayout, PoolDb.refundPayout, hitems, bind, Except.bind]
  rw [moveItems_of (by decide) hpos hsrc hdst hroom]
  cases PoolDb.settleItems .paying .pending _ _ db (db.itemsOf attemptId) with
  | error e => rfl
  | ok db₁ => rfl

theorem voidReorgedPayout_of {db : PoolDb} {txid : String}
    (hpos : ∀ e ∈ db.payoutsOf txid, 0 < e.2)
    (hsrc : ∀ m, db.books m .paid ≤ maxInteger) (hdst : ∀ m, -2 ^ 63 ≤ db.books m .pending)
    (hroom : ∀ e ∈ db.payoutsOf txid,
      db.books e.1 .pending + demand (db.payoutsOf txid) e.1 ≤ maxInteger) :
    (of db).voidReorgedPayout txid
      = (db.voidReorgedPayout txid).map (fun r => (r.1, of r.2)) := by
  have hrows : (of db).tables.payoutsOf txid = db.payoutsOf txid := rfl
  have hpayouts : (of db).tables.payouts = db.payouts := rfl
  have hyoung : ∀ c, (of db).tables.youngerThan c 60 = db.youngerThan c 60 := fun _ => rfl
  unfold voidReorgedPayout PoolDb.voidReorgedPayout
  rw [hrows, hpayouts]
  simp only [hyoung]
  split
  · rfl
  · split
    · rfl
    · simp only [bind, Except.bind]
      rw [moveItems_of (by decide) hpos hsrc hdst hroom]
      cases PoolDb.settleItems .paid .pending _ _ db (db.payoutsOf txid) with
      | error e => rfl
      | ok db₁ => rfl

theorem createPayout_of {db : PoolDb} (hk : db.Known) (hb : db.Bounded) {m : MinerId} {amount : ℤ}
    (ha : 0 < amount) (txid : String) :
    (of db).createPayout m amount txid
      = (db.createPayout m amount txid).map (fun r => (r.1, of r.2)) := by
  unfold createPayout PoolDb.createPayout
  rw [transfer_of fun hcov => hb.room (by decide) ha.le hcov]
  cases htr : db.transfer .pending .paid m amount with
  | none => rfl
  | some db₁ =>
    have hm : db₁.miners.has m = true := by
      obtain ⟨t, -, rfl⟩ := transfer_frame htr
      exact (hk.transfer htr).2
    simp only [Option.map_some]
    rw [insertPayout_of hm]
    rfl

theorem insertItem_of {db : PoolDb} {m : MinerId} (hm : db.miners.has m = true)
    (attemptId : AttemptId) (amount : ℤ) :
    (of db).insertItem attemptId m amount = (db.insertItem attemptId m amount).map of := by
  have hminers : (of db).tables.miners = db.miners := rfl
  have hattempts : (of db).tables.payoutAttempts = db.payoutAttempts := rfl
  unfold insertItem PoolDb.insertItem
  rw [hminers, if_pos hm, hattempts]
  split <;> rfl

theorem insertItem_ok {db db' : PoolDb} {attemptId : AttemptId} {m : MinerId} {amount : ℤ}
    (h : db.insertItem attemptId m amount = .ok db') :
    db'.balances = db.balances ∧ db'.miners = db.miners := by
  unfold PoolDb.insertItem at h
  split at h <;> cases h
  exact ⟨rfl, rfl⟩

theorem reservePayout_of {attemptId : AttemptId} {items : List (MinerId × ℤ)} {db : PoolDb}
    (hk : db.Known) (hb : db.Bounded) :
    reservePayout attemptId (of db) items
      = (PoolDb.reservePayout attemptId db items).map (fun r => (r.1, of r.2)) := by
  induction items generalizing db with
  | nil => rfl
  | cons e items ih =>
    obtain ⟨m, amount⟩ := e
    simp only [reservePayout, PoolDb.reservePayout]
    split
    · exact ih hk hb
    · rename_i hamount
      have ha : 0 < amount := not_le.1 hamount
      rw [transfer_of fun hcov => hb.room (by decide) ha.le hcov]
      cases htr : db.transfer .pending .paying m amount with
      | none => exact ih hk hb
      | some db₁ =>
        obtain ⟨hk₁, hm⟩ := hk.transfer htr
        have hm₁ : db₁.miners.has m = true := by
          obtain ⟨t, -, rfl⟩ := transfer_frame htr
          exact hm
        have hb₁ := hb.transfer (by decide) ha.le htr
        simp only [Option.map_some, bind, Except.bind]
        rw [insertItem_of hm₁]
        cases hins : db₁.insertItem attemptId m amount with
        | error e => rfl
        | ok db₂ =>
          obtain ⟨hbal, hmin⟩ := insertItem_ok hins
          have hrest := ih (hk₁.of_same hmin fun _ => by rw [hbal])
            (hb₁.congr (books_eq_of_balances hbal))
          simp only [Except.map]
          rw [hrest]
          cases PoolDb.reservePayout attemptId db₂ items with
          | error e => rfl
          | ok r => rfl

/-! ## Adjustments -/

theorem creditBalance_of {db : PoolDb} (hk : db.Known) {m : MinerId} {amount : ℤ}
    (hfit : InRange (db.books m .pending + amount)) :
    (of db).creditBalance m amount = (db.creditBalance m amount).map of := by
  simp only [creditBalance, PoolDb.creditBalance, bind, Except.bind]
  rw [insertBalance_of hk]
  cases h₁ : db.insertBalance m with
  | error e => rfl
  | ok db₁ =>
    simp only [Except.map]
    rw [updatePending_of (f := (· + amount)) fun _ => by
      rw [books_insertBalance h₁]
      exact Number.add_integer hfit]

/-- What the adjustment leaves, whether its result is read back or not. -/
theorem adjustMinerBalance_of {db : PoolDb} (hk : db.Known) {m : MinerId} {delta : ℤ}
    (h₀ : 0 ≤ db.books m .pending) (hmax : db.books m .pending ≤ maxInteger)
    (hfit : (db.step (.adjustMinerBalance m delta)).books m .pending ≤ maxInteger) :
    ((of db).adjustMinerBalance m delta).2 = of (db.step (.adjustMinerBalance m delta)) := by
  unfold adjustMinerBalance
  rw [insertBalance_of hk]
  cases h₁ : db.insertBalance m with
  | error e =>
    have herr : db.exec (.adjustMinerBalance m delta) = .error e := by
      simp only [exec, PoolDb.adjustMinerBalance, h₁, bind, Except.bind]
      rfl
    rw [step_error herr]
    rfl
  | ok db₁ =>
    have hok : db.exec (.adjustMinerBalance m delta)
        = .ok (db₁.updatePending m (fun pending => max 0 (pending + delta))) := by
      simp only [exec, PoolDb.adjustMinerBalance, h₁, bind, Except.bind]
      rfl
    rw [step_ok hok] at hfit ⊢
    rw [books_updatePending _ _ _ (balances_insertBalance h₁), if_pos ⟨rfl, rfl⟩,
      books_insertBalance h₁] at hfit
    simp only [Except.map]
    refine updatePending_of fun _ => ?_
    rw [books_insertBalance h₁]
    by_cases hr : InRange (db.books m .pending + delta)
    · rw [Number.add_integer hr, Number.maxZero_integer]
    · -- only a huge debit leaves the range
      have hneg : db.books m .pending + delta < -2 ^ 63 := by
        unfold InRange at hr
        omega
      rw [max_eq_left (by omega)]
      rw [Number.maxZero_add_of_lt h₀ hmax hneg]

/-! ## Reversal -/

theorem insertClawback_others (db : PoolDb) (blockId : BlockId) (m : MinerId) (x : ℤ) :
    db.others.insertClawback blockId m x = (db.insertClawback blockId m x).others := by
  unfold insertClawback
  split <;> rfl

theorem reverseCredit_of {blockId : BlockId} {db : PoolDb} (hb : db.Bounded) (r c : ℤ)
    (e : MinerId × ℤ) :
    reverseCredit blockId (of db, r, c) e
        = .ok (of (PoolDb.reverseCredit blockId (db, r, c) e).1,
            (PoolDb.reverseCredit blockId (db, r, c) e).2) ∧
      (PoolDb.reverseCredit blockId (db, r, c) e).1.Bounded := by
  obtain ⟨m, amount⟩ := e
  have h₀ := hb.nonneg m .pending
  have hle := recoverable_le_pending h₀ amount
  have hrec := recoverable_nonneg amount (db.books m .pending)
  constructor
  · have hdebit : (of db).debitRecovered m (recoverable amount (db.books m .pending))
        = of (db.debitRecovered m (recoverable amount (db.books m .pending))) := by
      unfold debitRecovered PoolDb.debitRecovered
      split
      · refine updatePending_of fun _ => Number.sub_integer ?_
        have := hb.le_max m .pending
        unfold InRange maxInteger at *
        omega
      · rfl
    simp only [reverseCredit, readPending_of, bind, Except.bind]
    rw [hdebit]
    have hclaw := insertClawback_others
      (db.debitRecovered m (recoverable amount (db.books m .pending))) blockId m
      (amount - recoverable amount (db.books m .pending))
    have htables : ∀ d : PoolDb, (of d).tables = d.others := fun _ => rfl
    rw [htables, hclaw]
    have hbal : ∀ d : PoolDb, ∀ x, (d.insertClawback blockId m x).balances = d.balances := by
      intro d x
      unfold insertClawback
      split <;> rfl
    simp only [PoolDb.reverseCredit, of, hbal]
  · obtain ⟨-, -, -, hbooks, -⟩ := reverseCredit_spec blockId db r c (m, amount)
    refine ⟨fun m' b => ?_, fun m' => ?_⟩
    · have := hb.nonneg m' b
      rw [hbooks]
      split
      · rename_i hh
        rw [hh.1, hh.2]
        exact sub_nonneg.2 hle
      · omega
    · have hle' := hb.holdings_le m'
      unfold holdings at hle' ⊢
      rw [hbooks, hbooks, hbooks]
      simp only [reduceCtorEq, and_false, if_false, and_true, sub_zero]
      split <;> omega

theorem foldlM_reverseCredit_of {blockId : BlockId} (l : List (MinerId × ℤ)) {db : PoolDb}
    (hb : db.Bounded) (r c : ℤ) :
    l.foldlM (reverseCredit blockId) (of db, r, c)
      = .ok (of (l.foldl (PoolDb.reverseCredit blockId) (db, r, c)).1,
          (l.foldl (PoolDb.reverseCredit blockId) (db, r, c)).2) := by
  induction l generalizing db r c with
  | nil => rfl
  | cons e l ih =>
    obtain ⟨hstep, hb'⟩ := @reverseCredit_of blockId db hb r c e
    rw [List.foldlM_cons, hstep]
    exact ih hb' _ _

theorem requeueCosts_others (db : PoolDb) (blockId : BlockId) (x : ℤ) :
    db.others.requeueCosts blockId x = (db.requeueCosts blockId x).others := by
  unfold requeueCosts
  split <;> rfl

theorem reverseBlockCreditsPrecise_of {db : PoolDb} (hb : db.Bounded) (blockId : BlockId) :
    (of db).reverseBlockCreditsPrecise blockId
      = (db.reverseBlockCreditsPrecise blockId).map (fun r => (r.1, of r.2)) := by
  have hcredits : (of db).tables.creditsByMiner blockId = db.creditsByMiner blockId := rfl
  unfold reverseBlockCreditsPrecise PoolDb.reverseBlockCreditsPrecise
  rw [hcredits]
  split
  · rfl
  · simp only [bind, Except.bind]
    rw [foldlM_reverseCredit_of _ hb]
    obtain ⟨db₁, r, c⟩ :=
      (db.creditsByMiner blockId).foldl (PoolDb.reverseCredit blockId) (db, 0, 0)
    have hblocks : ((of db₁).tables.deleteBlockCredits blockId).blocks
        = (db₁.deleteBlockCredits blockId).blocks := rfl
    simp only [hblocks]
    cases (db₁.deleteBlockCredits blockId).blocks.get? blockId with
    | none => rfl
    | some b =>
      have hothers := requeueCosts_others (db₁.deleteBlockCredits blockId) blockId b.costsRecovered
      have hbal := (requeueCosts_tables (db₁.deleteBlockCredits blockId) blockId
        b.costsRecovered).1
      have htables : (of db₁).tables.deleteBlockCredits blockId
          = (db₁.deleteBlockCredits blockId).others := rfl
      simp only [htables, hothers, Except.map]
      unfold of
      rw [hbal]
      rfl

/-! ## The proportional reversal -/

theorem positivePending_of (db : PoolDb) : (of db).positivePending
    = ((db.balances.rows.map (·.2.pending)).filter (fun n => decide (0 < n))).map .integer := by
  unfold positivePending of
  simp only [Keyed.map, List.map_map]
  induction db.balances.rows with
  | nil => rfl
  | cons e l ih =>
    have hpos : decide (0 < (Number.integer e.2.pending).value) = decide (0 < e.2.pending) := by
      simp only [Number.value, Int.cast_pos]
    simp only [List.map_cons, Function.comp_apply, StoredBalance.ofBalance, List.filter_cons, hpos]
    split
    · rw [List.map_cons]
      exact congrArg _ ih
    · exact ih

theorem totalPending_of (db : PoolDb) : (of db).totalPending =
    if InRange db.totalPending then .ok db.totalPending else .error (.sqlx .integerOverflow) := by
  have hsum : ((db.balances.rows.map (·.2.pending)).filter (fun n => decide (0 < n))).sum
      = db.totalPending := by
    have hite := sum_filter_ite (db.balances.rows.map (·.2.pending))
      (fun n => decide (0 < n)) (fun n : ℤ => n)
    rw [List.map_id', List.map_map] at hite
    rw [hite]
    unfold PoolDb.totalPending Keyed.sum
    simp only [Function.comp_def, decide_eq_true_eq]
  unfold totalPending
  rw [positivePending_of, sum_integers, hsum]
  by_cases hr : InRange db.totalPending
  · rw [if_pos hr, if_pos hr]
  · rw [if_neg hr, if_neg hr]

/-- What one row keeps, as long as nothing grows out of the range. -/
theorem proportionalDebit_ofBalance {reversal total : ℤ} {b : Balance}
    (hle : b.pending ≤ maxInteger)
    (hfit : (PoolDb.proportionalDebit reversal total b).pending ≤ maxInteger) :
    proportionalDebit reversal total (StoredBalance.ofBalance b)
      = StoredBalance.ofBalance (PoolDb.proportionalDebit reversal total b) := by
  unfold proportionalDebit PoolDb.proportionalDebit at *
  have hpos : (0 : ℚ) < (StoredBalance.ofBalance b).pending.value ↔ 0 < b.pending := by
    simp only [StoredBalance.ofBalance, Number.value, Int.cast_pos]
  by_cases hp : 0 < b.pending
  · rw [if_pos (hpos.2 hp), if_pos hp]
    rw [if_pos hp] at hfit
    simp only at hfit
    have hshare : proportionalShare (StoredBalance.ofBalance b).pending reversal total
        = max (-2 ^ 63) (min maxInteger (PoolDb.proportionalShare b.pending reversal total)) := rfl
    rw [hshare]
    generalize PoolDb.proportionalShare b.pending reversal total = share at hfit ⊢
    have hpend : (StoredBalance.ofBalance b).pending = .integer b.pending := rfl
    have hroom : InRange (b.pending - max (-2 ^ 63) (min maxInteger share)) := by
      unfold InRange maxInteger at *
      omega
    have hsame : max 0 (b.pending - max (-2 ^ 63) (min maxInteger share))
        = max 0 (b.pending - share) := by
      unfold maxInteger at *
      omega
    rw [hpend, Number.sub_integer hroom, Number.maxZero_integer, hsame]
    rfl
  · rw [if_neg fun h => hp (hpos.1 h), if_neg hp]

theorem reverseProportionally_of {db : PoolDb} (hb : db.Bounded) {reward : ℤ}
    (hfit : ∀ m, (db.reverseProportionally reward).books m .pending ≤ maxInteger)
    (hr : InRange db.totalPending) :
    (of db).reverseProportionally reward = .ok (of (db.reverseProportionally reward)) := by
  simp only [reverseProportionally, totalPending_of, if_pos hr, bind, Except.bind]
  unfold PoolDb.reverseProportionally at hfit ⊢
  split
  · rename_i hpos
    rw [if_pos hpos] at hfit
    have hmap := Keyed.modifyAll_map (t := db.balances) (f := StoredBalance.ofBalance)
      (g := fun _ => PoolDb.proportionalDebit (min reward db.totalPending) db.totalPending)
      (fun m r hget => by
        have hbooks := hfit m
        have hp := hb.le_max m .pending
        simp only [books, Keyed.get?_modifyAll, hget, Option.map_some, Option.getD_some,
          Balance.get] at hbooks hp
        exact proportionalDebit_ofBalance hp hbooks)
    exact congrArg (fun t => Except.ok (⟨db.others, t⟩ : StoredDb)) hmap
  · rfl

theorem orphanBlock_of {db : PoolDb} (hb : db.Bounded) {blockId : BlockId} {reward : ℤ}
    (hfit : ∀ m, (db.step (.orphanBlock blockId reward)).books m .pending ≤ maxInteger) :
    (of db).orphanBlock blockId reward
        = (db.orphanBlock blockId reward).map (fun r => (r.1, of r.2)) ∨
      ∃ e, (of db).orphanBlock blockId reward = .error e := by
  simp only [orphanBlock, bind, Except.bind]
  rw [reverseBlockCreditsPrecise_of hb]
  cases hx : db.reverseBlockCreditsPrecise blockId with
  | error e => exact .inr ⟨e, rfl⟩
  | ok r =>
    obtain ⟨out, db₁⟩ := r
    rcases reverseBlockCreditsPrecise_cases hx with ⟨hnil, rfl, rfl⟩ | ⟨hne, hsome, -⟩
    · by_cases hr : InRange db₁.totalPending
      · refine .inl ?_
        have hx' : db₁.exec (.orphanBlock blockId reward)
            = .ok ((db₁.reverseProportionally reward).updateBlockStatus blockId .orphaned) := by
          simp only [exec, PoolDb.orphanBlock, hx, bind, Except.bind]
          rfl
        rw [step_ok hx'] at hfit
        simp only [Except.map, PoolDb.orphanBlock, hx, bind, Except.bind]
        rw [reverseProportionally_of hb hfit hr]
        rfl
      · refine .inr ⟨.sqlx .integerOverflow, ?_⟩
        simp only [Except.map, reverseProportionally, totalPending_of, if_neg hr, bind,
          Except.bind]
    · refine .inl ?_
      simp only [Except.map, PoolDb.orphanBlock, hx, bind, Except.bind]
      cases out with
      | none => exact absurd rfl hsome
      | some x => rfl

/-! ## The step lemma -/

theorem commit_map {s : StoredDb} {α : Type} {db : PoolDb} {x : Except DbError (α × StoredDb)}
    {y : Except DbError (α × PoolDb)} (hs : s = of db)
    (h : x = y.map (fun r => (r.1, of r.2))) :
    s.commit (x.map (·.2)) = of (match y.map (·.2) with
      | .ok db' => db'
      | .error _ => db) := by
  subst h
  cases y with
  | ok r => rfl
  | error e => exact hs

/-- The operations that touch no balance. -/
theorem others_step {db : PoolDb} {op : Op} (hop : op.writes .balances = false) :
    db.others.step op = (db.step op).others := by
  cases op with
  | getOrCreateMiner address =>
    simp only [PoolDb.step, exec, getOrCreateMiner, others]
    split <;> rfl
  | getOrCreateWorker m name =>
    have hworkers : db.others.workers = db.workers := rfl
    have hminers : db.others.miners = db.miners := rfl
    simp only [PoolDb.step, exec, getOrCreateWorker, hworkers, hminers]
    cases db.workers.find? (fun r => r.minerId == m && r.name == name) with
    | some x => rfl
    | none => cases db.miners.has m <;> rfl
  | recordBlock height hash reward actual foundBy luck =>
    have hblocks : db.others.blocks = db.blocks := rfl
    have hworkers : db.others.workers = db.workers := rfl
    simp only [PoolDb.step, exec, recordBlock, hblocks, hworkers]
    cases (db.blocks.find? (fun r => r.hash == hash)).isSome with
    | true => rfl
    | false => cases db.workers.has foundBy <;> rfl
  | takeCostsForBlock b cap =>
    have hqueue : db.others.unrecovered = db.unrecovered := rfl
    simp only [PoolDb.step, exec, takeCostsForBlock, hqueue]
    split <;> rfl
  | updateBlockStatus b status => rfl
  | acknowledgeClawbacks note => rfl
  | acknowledgeClawbacksForBlock b note => rfl
  | recordTxCost kind reference fee => rfl
  | createPayoutAttempt n total source => rfl
  | updatePayoutAttempt a status opid txid err => rfl
  | elapse seconds => rfl
  | _ => cases hop

/-- Confirmation and refund. -/
theorem settle_of {db : PoolDb} (hk : db.Known) (hb : db.Bounded) (hinv : db.SettlementInv)
    (c : SettleCall) : (of db).step c.op = of (db.settle c) := by
  have hlow : ∀ m b, -2 ^ 63 ≤ db.books m b := fun m b => le_trans (by norm_num) (hb.nonneg m b)
  cases c with
  | confirm a txid =>
    have hpos := itemsOf_pos hinv.rows.items_pos a
    exact commit_map rfl (confirmPayout_of hpos (fun e _ hrow => hk e.1 hrow)
      (fun m => hb.le_max m .paying) (fun m => hlow m .paid)
      (hb.room_of_covered (by decide) (hinv.items_covered a)) txid)
  | refund a =>
    have hpos := itemsOf_pos hinv.rows.items_pos a
    exact commit_map rfl (refundPayout_of hpos (fun m => hb.le_max m .paying)
      (fun m => hlow m .pending) (hb.room_of_covered (by decide) (hinv.items_covered a)))

/-- **The stored books follow the integer books**: while no holding leaves the 64-bit range, a
    stored operation writes the integers of the exact one, or fails and changes nothing. -/
theorem step_of {db : PoolDb} (hk : db.Known) (hb : db.Bounded) (hinv : db.SettlementInv) {op : Op}
    (hop : op.SettlementOk) (hfit : (db.step op).Bounded) :
    (of db).step op = of (db.step op) ∨ (of db).step op = of db := by
  have hquiet : ∀ op : Op, op.writes .balances = false →
      (⟨(of db).tables.step op, (of db).balances⟩ : StoredDb) = of (db.step op) := by
    intro op hw
    have hbal : (db.step op).balances = db.balances := step_same db op hw
    have hothers : (of db).tables.step op = (db.step op).others := others_step hw
    rw [hothers]
    unfold of
    rw [hbal]
  have hlow : ∀ m b, -2 ^ 63 ≤ db.books m b := fun m b => le_trans (by norm_num) (hb.nonneg m b)
  cases op with
  | distributeBlockCredits b credits =>
    left
    simp only [step]
    cases hx : PoolDb.distributeBlockCredits b db credits with
    | error e =>
      obtain ⟨e', he'⟩ := distribute_error hk (sameRows_of db) hx
      have hexec : db.exec (.distributeBlockCredits b credits) = .error e := hx
      rw [he', step_error hexec]
      rfl
    | ok db' =>
      have hstep : db.step (.distributeBlockCredits b credits) = db' := step_ok hx
      rw [hstep] at hfit ⊢
      obtain ⟨bal, cr, -, -, hbooks, -⟩ := distributeBlockCredits_spec hx
      rw [distribute_of hk hop (fun m => hb.nonneg m .pending) fun m => ?_, hx]
      · rfl
      · have hle := hfit.le_max m .pending
        rwa [hbooks, if_pos rfl] at hle
  | reverseBlockCreditsPrecise b =>
    exact .inl (commit_map rfl (reverseBlockCreditsPrecise_of hb b))
  | orphanBlock b reward =>
    rcases orphanBlock_of hb (fun m => hfit.le_max m .pending) with h | ⟨e, h⟩
    · exact .inl (commit_map rfl h)
    · right
      simp only [step]
      rw [h]
      rfl
  | creditBalance m amount =>
    left
    simp only [step]
    cases h₁ : db.insertBalance m with
    | error e =>
      have hx : db.exec (.creditBalance m amount) = .error e := by
        simp only [exec, PoolDb.creditBalance, h₁, bind, Except.bind]
      rw [step_error hx]
      simp only [creditBalance, insertBalance_of hk, h₁, Except.map, bind, Except.bind, commit]
    | ok db₁ =>
      have hx : db.exec (.creditBalance m amount)
          = .ok (db₁.updatePending m (· + amount)) := by
        simp only [exec, PoolDb.creditBalance, h₁, bind, Except.bind]
      rw [step_ok hx] at hfit ⊢
      have hle := hfit.le_max m .pending
      rw [books_updatePending _ _ _ (balances_insertBalance h₁), if_pos ⟨rfl, rfl⟩,
        books_insertBalance h₁] at hle
      have h₀ := hb.nonneg m .pending
      have hamount : 0 ≤ amount := hop
      have hx' : db.creditBalance m amount = .ok (db₁.updatePending m (· + amount)) := hx
      rw [creditBalance_of hk (by unfold InRange; omega), hx']
      rfl
  | adjustMinerBalance m delta =>
    left
    simp only [step]
    exact adjustMinerBalance_of hk (hb.nonneg m .pending) (hb.le_max m .pending)
      (hfit.le_max m .pending)
  | getOrCreateBalance m =>
    left
    simp only [step]
    rw [insertBalance_of hk]
    cases h₁ : db.insertBalance m with
    | error e =>
      have hx : db.exec (.getOrCreateBalance m) = .error e := by
        simp only [exec, PoolDb.getOrCreateBalance, h₁, bind, Except.bind]
        rfl
      rw [step_error hx]
      rfl
    | ok db₁ =>
      have hx : db.exec (.getOrCreateBalance m) = .ok db₁ := by
        simp only [exec, PoolDb.getOrCreateBalance, h₁, bind, Except.bind]
        rfl
      rw [step_ok hx]
      rfl
  | createPayout m amount txid => exact .inl (commit_map rfl (createPayout_of hk hb hop txid))
  | reservePayout a items => exact .inl (commit_map rfl (reservePayout_of hk hb))
  | confirmPayout a txid => exact .inl (settle_of hk hb hinv (.confirm a txid))
  | refundPayout a => exact .inl (settle_of hk hb hinv (.refund a))
  | voidReorgedPayout txid =>
    have hpos := payoutsOf_pos hinv.rows.payouts_pos txid
    exact .inl (commit_map rfl (voidReorgedPayout_of hpos (fun m => hb.le_max m .paid)
      (fun m => hlow m .pending) (hb.room_of_covered (by decide) (hinv.payouts_covered txid))))
  | _ => exact .inl (hquiet _ rfl)

end StoredDb

end ZcashMiningPool
