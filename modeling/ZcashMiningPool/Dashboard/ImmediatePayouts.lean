import ZcashMiningPool.Dashboard.Selection
import ZcashMiningPool.Ledger.Maturity

/-!
# Immediate payouts

With `pay_immature`, a round pays credits of blocks that may still be orphaned, and the reserve
stands in for them.  The round asks for the exposure, then lists, then reserves; the pool process
records and credits blocks in between.

* `orphanLoss` — what the reserve would lose if every pending block were orphaned now.
* `ImmediateRounds` — the database with the payout round; `step` — one call of the round, or
  anything the pool does.
* `Fits` — the loss fits the reserve even after the round has reserved what it holds; no operation
  of the pool breaks it (`fits_step`).
* `ListsWithin` — the exposure is within the reserve when the round lists without the maturity
  gate, not only when it was asked for.
* `orphanLoss_le_reserve` — then the loss never exceeds the reserve, along every run.
* `block_credited_after_the_check` — a run in which it does.
-/

set_option autoImplicit false

namespace ZcashMiningPool

open Table Buckets

/-! ## The loss -/

namespace PoolDb

/-- What a miner has been paid of credits that are still immature. -/
def lossOf (db : PoolDb) (m : MinerId) : ℤ := max 0 (db.immature m - db.books m .pending)

/-- The worst case: every pending block is orphaned. -/
def orphanLoss (db : PoolDb) : ℤ := (db.miners.rows.map (fun e => db.lossOf e.1)).sum

end PoolDb

/-! ## The round -/

/-- Where the payout loop stands, until its reservation. -/
inductive RoundPc where
  | idle
  /-- The exposure was asked for; next the listing. -/
  | checked (includeImmature : Bool)
  /-- Next the wallet's balance. -/
  | listed (pending : List PoolDb.PendingPayout)
  /-- Next the attempt row. -/
  | selected (payouts : List Destination)
  /-- Next the reservation. -/
  | attempted (attemptId : AttemptId) (payouts : List Destination)
  deriving DecidableEq, Repr

structure ImmediateRounds where
  db : PoolDb
  round : RoundPc

inductive ImmediateOp where
  /-- What the pool, and the dashboard elsewhere, do to the database. -/
  | pool (op : Op)
  /-- The process ends, or a call of the round fails. -/
  | crash
  | exposure
  /-- The coalescing settings are read anew in every round. -/
  | list (cooldownSecs overrideAmount : ℤ)
  | balance (privateBalance : ℚ)
  | attempt
  | reserve

/-- The pairs a round reserves. -/
def reserveItems (payouts : List Destination) : List (MinerId × ℤ) :=
  payouts.map (fun d => (d.minerId, d.amount))

namespace ImmediateRounds

def start : ImmediateRounds := ⟨PoolDb.empty, .idle⟩

def step (cfg : PayoutConfig) (bs58 : String → Option (List UInt8)) (s : ImmediateRounds) :
    ImmediateOp → ImmediateRounds
  | .pool op => { s with db := s.db.step op }
  | .crash => { s with round := .idle }
  | .exposure =>
    match s.round with
    | .idle => { s with round := .checked (cfg.includeImmature s.db) }
    | _ => s
  | .list cooldownSecs overrideAmount =>
    match s.round with
    | .checked includeImmature =>
      let pending := s.db.getPendingPayouts cfg.minPayoutZatoshis includeImmature cooldownSecs
        overrideAmount
      { s with round := if pending = [] then .idle else .listed pending }
    | _ => s
  | .balance privateBalance =>
    match s.round with
    | .listed pending =>
      let payouts := cfg.payoutList bs58 s.db.now privateBalance pending
      { s with round := if payouts = [] then .idle else .selected payouts }
    | _ => s
  | .attempt =>
    match s.round with
    | .selected payouts =>
      let created := s.db.createPayoutAttempt payouts.length (payouts.map (·.amount)).sum "loop"
      ⟨created.2, .attempted created.1 payouts⟩
    | _ => s
  | .reserve =>
    match s.round with
    -- What follows, the send and its settlement, are operations of the pool.
    | .attempted attemptId payouts =>
      ⟨s.db.step (.reservePayout attemptId (reserveItems payouts)), .idle⟩
    | _ => s

/-- What else may happen: blocks are recorded, credited, confirmed, and orphaned while pending and
    credited; payouts are confirmed, refunded and voided. -/
def Legal (s : ImmediateRounds) : ImmediateOp → Prop
  | .pool op => Payroll.poolOk s.db op
  | _ => True

/-- The exposure is within the reserve when the round lists without the maturity gate. -/
def ListsWithin (cfg : PayoutConfig) (s : ImmediateRounds) : ImmediateOp → Prop
  | .list _ _ => s.round = .checked true → s.db.getImmatureExposure ≤ cfg.reserveMinZatoshis
  | _ => True

/-- Immediate payouts never risk more than the reserve. -/
def RiskWithin (cfg : PayoutConfig) (s : ImmediateRounds) : Prop :=
  s.db.orphanLoss ≤ cfg.reserveMinZatoshis

end ImmediateRounds

/-! ## What a reservation takes -/

/-- The demand of the positive amounts; the others are skipped. -/
def due (items : List (MinerId × ℤ)) (m : MinerId) : ℤ :=
  demand (items.filter (fun e => decide (0 < e.2))) m

@[simp] theorem due_nil (m : MinerId) : due [] m = 0 := rfl

theorem due_cons (e : MinerId × ℤ) (items : List (MinerId × ℤ)) (m : MinerId) :
    due (e :: items) m = (if e.1 = m then max 0 e.2 else 0) + due items m := by
  unfold due
  by_cases hpos : 0 < e.2
  · rw [List.filter_cons_of_pos (by simpa using hpos), demand_cons, max_eq_right hpos.le]
  · rw [List.filter_cons_of_neg (by simpa using hpos), max_eq_left (not_lt.1 hpos)]
    simp

theorem due_nonneg (items : List (MinerId × ℤ)) (m : MinerId) : 0 ≤ due items m := by
  apply demand_nonneg
  intro e he
  have hpos := (List.mem_filter.1 he).2
  simp only [decide_eq_true_eq] at hpos
  exact hpos.le

/-- One entry per miner: what is due is that entry. -/
theorem due_le_of_nodup {items : List (MinerId × ℤ)} (hn : (items.map Prod.fst).Nodup)
    {m : MinerId} {bound : ℤ} (hbound : 0 ≤ bound)
    (h : ∀ e ∈ items, e.1 = m → e.2 ≤ bound) : due items m ≤ bound := by
  induction items with
  | nil => exact hbound
  | cons e items ih =>
    simp only [List.map_cons, List.nodup_cons] at hn
    have hrest := ih hn.2 fun x hx => h x (List.mem_cons_of_mem _ hx)
    rw [due_cons]
    split
    · rename_i hm
      have he := h e List.mem_cons_self hm
      have hnone : due items m = 0 := by
        unfold due
        apply demand_eq_zero
        intro x hx hxm
        apply hn.1
        rw [hm, ← hxm]
        exact List.mem_map_of_mem (List.mem_of_mem_filter hx)
      omega
    · omega

theorem reservePayout_filter (attemptId : AttemptId) (items : List (MinerId × ℤ)) (db : PoolDb) :
    PoolDb.reservePayout attemptId db (items.filter (fun e => decide (0 < e.2)))
      = PoolDb.reservePayout attemptId db items := by
  induction items generalizing db with
  | nil => rfl
  | cons e items ih =>
    obtain ⟨m, amount⟩ := e
    by_cases hpos : 0 < amount
    · rw [List.filter_cons_of_pos (by simpa using hpos), PoolDb.reservePayout,
        PoolDb.reservePayout, if_neg (not_le.2 hpos), if_neg (not_le.2 hpos)]
      simp only [ih]
    · rw [List.filter_cons_of_neg (by simpa using hpos), ih, PoolDb.reservePayout,
        if_pos (not_lt.1 hpos)]

/-- A reservation lowers the slack by what is due, at most. -/
theorem slack_reserve_due (db : PoolDb) (attemptId : AttemptId) (items : List (MinerId × ℤ))
    (m : MinerId) :
    db.slack m - due items m ≤ (db.step (.reservePayout attemptId items)).slack m := by
  have hpos : ∀ e ∈ items.filter (fun e => decide (0 < e.2)), 0 ≤ e.2 := by
    intro e he
    have hpos := (List.mem_filter.1 he).2
    simp only [decide_eq_true_eq] at hpos
    exact hpos.le
  have hsame : db.step (.reservePayout attemptId (items.filter (fun e => decide (0 < e.2))))
      = db.step (.reservePayout attemptId items) := by
    unfold PoolDb.step PoolDb.exec
    simp only [reservePayout_filter]
  have h := (PoolDb.slack_reserve db attemptId hpos m).1
  rw [hsame] at h
  exact h

/-! ## The selection takes no more than the listing -/

namespace PayoutConfig

variable {cfg : PayoutConfig} {bs58 : String → Option (List UInt8)}

/-- A scaled amount is no more than the amount, as far as it is positive. -/
theorem scaled_le (a : ℤ) {scale : ℚ} (h₀ : 0 ≤ scale) (h₁ : scale ≤ 1) :
    max 0 ⌊(a : ℚ) * scale⌋ ≤ max 0 a := by
  rcases le_total 0 a with ha | ha
  · have hle : (a : ℚ) * scale ≤ a := mul_le_of_le_one_right (by exact_mod_cast ha) h₁
    have hfloor : ⌊(a : ℚ) * scale⌋ ≤ a := by
      rw [← Int.floor_intCast (R := ℚ) a]
      exact Int.floor_le_floor hle
    exact max_le_max le_rfl hfloor
  · have hle : (a : ℚ) * scale ≤ 0 := mul_nonpos_of_nonpos_of_nonneg (by exact_mod_cast ha) h₀
    have hfloor : ⌊(a : ℚ) * scale⌋ ≤ 0 := by
      rw [← Int.floor_zero (R := ℚ)]
      exact Int.floor_le_floor hle
    rw [max_eq_left hfloor]
    exact le_max_left _ _

/-- What is listed, as pairs. -/
def listedItems (pending : List PoolDb.PendingPayout) : List (MinerId × ℤ) :=
  pending.map (fun p => (p.minerId, p.amount))

theorem due_destinations {now : ℕ} {scale : ℚ} (h₀ : 0 ≤ scale) (h₁ : scale ≤ 1)
    (pending : List PoolDb.PendingPayout) (m : MinerId) :
    due (reserveItems (pending.filterMap (cfg.destination? bs58 now scale))) m
      ≤ due (listedItems pending) m := by
  induction pending with
  | nil => exact le_rfl
  | cons p pending ih =>
    have hp := scaled_le p.amount h₀ h₁
    have hlisted : due (listedItems (p :: pending)) m
        = (if p.minerId = m then max 0 p.amount else 0) + due (listedItems pending) m :=
      due_cons _ _ _
    rw [List.filterMap_cons, hlisted]
    cases hd : cfg.destination? bs58 now scale p with
    | none =>
      have hamount : 0 ≤ if p.minerId = m then max 0 p.amount else 0 := by
        split
        · exact le_max_left _ _
        · exact le_rfl
      simp only
      omega
    | some d =>
      obtain ⟨address, -, hdest⟩ := Option.bind_eq_some_iff.1 hd
      simp only [Option.ite_none_right_eq_some] at hdest
      obtain ⟨-, hdest⟩ := hdest
      cases hdest
      show due ((p.minerId, ⌊(p.amount : ℚ) * scale⌋) ::
        reserveItems (pending.filterMap (cfg.destination? bs58 now scale))) m ≤ _
      rw [due_cons]
      split
      · omega
      · omega

theorem due_payoutList (now : ℕ) (privateBalance : ℚ) (pending : List PoolDb.PendingPayout)
    (m : MinerId) :
    due (reserveItems (cfg.payoutList bs58 now privateBalance pending)) m
      ≤ due (listedItems pending) m := by
  unfold payoutList
  split
  · exact due_nonneg _ _
  · exact due_destinations (scale_nonneg _ _ _) (scale_le_one _ _ _) pending m

end PayoutConfig

/-! ## The listing -/

namespace PoolDb

variable {db : PoolDb} {minAmount cooldownSecs overrideAmount : ℤ} {includeImmature : Bool}

theorem due_listed {m : MinerId} {bound : ℤ} (hbound : 0 ≤ bound)
    (h : ∀ b, db.balances.get? m = some b → db.payable includeImmature m b ≤ bound) :
    due (PayoutConfig.listedItems
      (db.getPendingPayouts minAmount includeImmature cooldownSecs overrideAmount)) m ≤ bound := by
  apply due_le_of_nodup _ hbound
  · intro e he hem
    obtain ⟨p, hp, rfl⟩ := List.mem_map.1 he
    obtain ⟨b, miner, hb, -, -, -, hpe⟩ := mem_getPendingPayouts.1 hp
    have hm : p.minerId = m := hem
    rw [hm] at hb hpe
    rw [hpe]
    exact h b hb
  · unfold PayoutConfig.listedItems
    rw [List.map_map]
    exact getPendingPayouts_nodup

theorem pending_of_get? {m : MinerId} {b : Balance} (h : db.balances.get? m = some b) :
    b.pending = db.books m .pending := by
  simp [books, h, Balance.get]

theorem immature_nonneg (h : RowsOk db) (m : MinerId) : 0 ≤ db.immature m := by
  apply Keyed.sum_nonneg
  intro e he
  have := h.credits_nonneg e he
  split <;> omega

/-- The immature credits of different miners are parts of the exposure. -/
theorem sum_immature_le_exposure (h : RowsOk db) {l : List MinerId} (hl : l.Nodup) :
    (l.map db.immature).sum ≤ db.getImmatureExposure := by
  have hsum : (l.map db.immature).sum = db.blockCredits.sum (fun k amount =>
      if k.2 ∈ l ∧ db.statusOf k.1 = some .pending then amount else 0) := by
    induction l with
    | nil => simp [Keyed.sum]
    | cons m l ih =>
      rw [List.nodup_cons] at hl
      rw [List.map_cons, List.sum_cons, ih hl.2, immature, ← Keyed.sum_add]
      apply Keyed.sum_congr
      intro e _
      by_cases hm : e.1.2 = m
      · have hnot : e.1.2 ∉ l := hm ▸ hl.1
        simp only [hm, true_and, List.mem_cons, true_or]
        rw [← hm] at *
        simp [hnot]
      · simp [hm]
  rw [hsum]
  unfold getImmatureExposure Keyed.sum
  apply List.sum_le_sum
  intro e he
  have := h.credits_nonneg e he
  by_cases hp : db.statusOf e.1.1 = some .pending
  · simp only [hp, and_true, if_true]
    split <;> omega
  · simp [hp]

end PoolDb

/-! ## The loss fits the reserve -/

/-- The loss of different miners, once `items` are reserved, is at most `reserve`. -/
def Fits (reserve : ℤ) (db : PoolDb) (items : List (MinerId × ℤ)) : Prop :=
  ∀ l : List MinerId, l.Nodup → (l.map (fun m => max 0 (due items m - db.slack m))).sum ≤ reserve

section Fits

variable {db db' : PoolDb} {items items' : List (MinerId × ℤ)} {reserve : ℤ}

/-- More slack and less to reserve: the loss still fits. -/
theorem Fits.mono (h : Fits reserve db items)
    (hle : ∀ m, max 0 (due items' m - db'.slack m) ≤ max 0 (due items m - db.slack m)) :
    Fits reserve db' items' :=
  fun l hl => (List.sum_le_sum fun m _ => hle m).trans (h l hl)

theorem Fits.nothing (h : Fits reserve db items) : Fits reserve db [] := by
  refine h.mono fun m => ?_
  have := due_nonneg items m
  rw [due_nil]
  omega

theorem Fits.orphanLoss_le (h : Fits reserve db items) : db.orphanLoss ≤ reserve := by
  have hids : (db.miners.rows.map Prod.fst).Nodup := db.miners.keyed.nodup
  have hfits := h.nothing _ hids
  rw [List.map_map] at hfits
  unfold PoolDb.orphanLoss
  refine le_trans (le_of_eq ?_) hfits
  congr 1
  apply List.map_congr_left
  intro e _
  simp only [Function.comp_apply, due_nil, PoolDb.lossOf, PoolDb.slack]
  congr 1
  omega

/-- **No operation of the pool breaks it.** -/
theorem fits_step (h : Fits reserve db items) (hrows : PoolDb.RowsOk db) {op : Op}
    (hop : Payroll.poolOk db op) : Fits reserve (db.step op) items := by
  refine h.mono fun m => ?_
  have := PoolDb.slack_step hrows hop m
  omega

/-- The reservation realises what was due. -/
theorem fits_reserve (h : Fits reserve db items) (attemptId : AttemptId) :
    Fits reserve (db.step (.reservePayout attemptId items)) [] := by
  refine h.mono fun m => ?_
  have := slack_reserve_due db attemptId items m
  rw [due_nil]
  omega

/-- A listing without the maturity gate: every miner's loss is at most what is immature. -/
theorem fits_listed_immature (hinv : PoolDb.SettlementInv db)
    (hexposure : db.getImmatureExposure ≤ reserve) {minAmount cooldownSecs overrideAmount : ℤ} :
    Fits reserve db (PayoutConfig.listedItems
      (db.getPendingPayouts minAmount true cooldownSecs overrideAmount)) := by
  intro l hl
  refine (List.sum_le_sum fun m _ => ?_).trans
    ((PoolDb.sum_immature_le_exposure hinv.rows hl).trans hexposure)
  have himm := PoolDb.immature_nonneg hinv.rows m
  have hdue : due (PayoutConfig.listedItems
      (db.getPendingPayouts minAmount true cooldownSecs overrideAmount)) m
        ≤ db.books m .pending := by
    apply PoolDb.due_listed (hinv.pending_nonneg m)
    intro b hb
    rw [PoolDb.payable, if_pos rfl, PoolDb.pending_of_get? hb]
  unfold PoolDb.slack
  omega

/-- A listing with the maturity gate: nobody's loss grows. -/
theorem fits_listed_mature (h : Fits reserve db [])
    {minAmount cooldownSecs overrideAmount : ℤ} :
    Fits reserve db (PayoutConfig.listedItems
      (db.getPendingPayouts minAmount false cooldownSecs overrideAmount)) := by
  refine h.mono fun m => ?_
  have hdue : due (PayoutConfig.listedItems
      (db.getPendingPayouts minAmount false cooldownSecs overrideAmount)) m
        ≤ max 0 (db.slack m) := by
    apply PoolDb.due_listed (le_max_left _ _)
    intro b hb
    have hpayable : db.payable false m b = db.slack m := by
      simp only [PoolDb.payable, Bool.false_eq_true, if_false, PoolDb.slack,
        PoolDb.pending_of_get? hb]
    rw [hpayable]
    exact le_max_right _ _
  rw [due_nil]
  omega

end Fits

/-! ## Whole runs -/

namespace ImmediateRounds

variable {cfg : PayoutConfig} {bs58 : String → Option (List UInt8)}

/-- What the round is about to reserve. -/
def heldItems : RoundPc → List (MinerId × ℤ)
  | .idle => []
  | .checked _ => []
  | .listed pending => PayoutConfig.listedItems pending
  | .selected payouts => reserveItems payouts
  | .attempted _ payouts => reserveItems payouts

structure ReserveInv (cfg : PayoutConfig) (s : ImmediateRounds) : Prop where
  ledger : PoolDb.SettlementInv s.db
  fits : Fits cfg.reserveMinZatoshis s.db (heldItems s.round)

theorem settlementOk_of_poolOk {db : PoolDb} {op : Op} (h : Payroll.poolOk db op) :
    op.SettlementOk := by
  cases op with
  | creditBalance m amount => exact h.elim
  | _ => exact Payroll.poolOk.lawful h

theorem reserveInv_pool {db : PoolDb} {round : RoundPc} (h : ReserveInv cfg ⟨db, round⟩) {op : Op}
    (hop : Payroll.poolOk db op) : ReserveInv cfg ⟨db.step op, round⟩ :=
  ⟨PoolDb.settlementInv_step h.ledger (settlementOk_of_poolOk hop),
    fits_step h.fits h.ledger.rows hop⟩

theorem heldItems_ite {p : Prop} [Decidable p] (pc : RoundPc) :
    heldItems (if p then .idle else pc) = if p then [] else heldItems pc := by
  split <;> rfl

/-- What is listed fits, with and without the maturity gate. -/
theorem fits_list {db : PoolDb} {reserve : ℤ} {includeImmature : Bool}
    (hledger : PoolDb.SettlementInv db) (hfits : Fits reserve db [])
    (hexposure : includeImmature = true → db.getImmatureExposure ≤ reserve)
    (minAmount cooldownSecs overrideAmount : ℤ) :
    Fits reserve db (PayoutConfig.listedItems
      (db.getPendingPayouts minAmount includeImmature cooldownSecs overrideAmount)) := by
  cases includeImmature with
  | true => exact fits_listed_immature hledger (hexposure rfl)
  | false => exact fits_listed_mature hfits

/-- The selection is no larger than the listing. -/
theorem fits_balance {db : PoolDb} {reserve : ℤ} {pending : List PoolDb.PendingPayout}
    (hfits : Fits reserve db (PayoutConfig.listedItems pending)) (privateBalance : ℚ) :
    Fits reserve db (reserveItems (cfg.payoutList bs58 db.now privateBalance pending)) := by
  refine hfits.mono fun m => ?_
  have hdue := @PayoutConfig.due_payoutList cfg bs58 db.now privateBalance pending m
  omega

/-- **Step lemma.** -/
theorem reserveInv_step {s : ImmediateRounds} (op : ImmediateOp) (h : ReserveInv cfg s)
    (hlegal : s.Legal op) (hlists : s.ListsWithin cfg op) :
    ReserveInv cfg (s.step cfg bs58 op) := by
  obtain ⟨db, round⟩ := s
  have hledger := h.ledger
  have hfits := h.fits
  cases op with
  | pool op => exact reserveInv_pool h hlegal
  | crash => exact ⟨hledger, hfits.nothing⟩
  | exposure =>
    cases round with
    | idle => exact ⟨hledger, hfits⟩
    | _ => exact h
  | list cooldownSecs overrideAmount =>
    cases round with
    | checked includeImmature =>
      have hexposure : includeImmature = true →
          db.getImmatureExposure ≤ cfg.reserveMinZatoshis := by
        intro himm
        exact hlists (by rw [himm])
      refine ⟨hledger, ?_⟩
      simp only [step, heldItems_ite]
      split
      · exact hfits
      · exact fits_list hledger hfits hexposure _ _ _
    | _ => exact h
  | balance privateBalance =>
    cases round with
    | listed pending =>
      refine ⟨hledger, ?_⟩
      simp only [step, heldItems_ite]
      split
      · exact hfits.nothing
      · exact fits_balance hfits privateBalance
    | _ => exact h
  | attempt =>
    cases round with
    | selected payouts =>
      have hop : Payroll.poolOk db
          (.createPayoutAttempt payouts.length (payouts.map (·.amount)).sum "loop") := trivial
      have hcreated : db.step
          (.createPayoutAttempt payouts.length (payouts.map (·.amount)).sum "loop")
            = (db.createPayoutAttempt payouts.length (payouts.map (·.amount)).sum "loop").2 := rfl
      have hnext := reserveInv_pool h hop
      rw [hcreated] at hnext
      exact ⟨hnext.ledger, hnext.fits⟩
    | _ => exact h
  | reserve =>
    cases round with
    | attempted attemptId payouts =>
      exact ⟨PoolDb.settlementInv_step hledger trivial, fits_reserve hfits attemptId⟩
    | _ => exact h

theorem reserveInv_start (h : 0 ≤ cfg.reserveMinZatoshis) : ReserveInv cfg start := by
  refine ⟨PoolDb.settlementInv_empty, fun l _ => ?_⟩
  have hzero : ∀ m, max 0 (due (heldItems start.round) m - start.db.slack m) = 0 := fun _ => rfl
  rw [List.map_congr_left fun m _ => hzero m]
  simpa using h

/-- **Immediate payouts never risk more than the reserve**, along every run in which the exposure
    is still within the reserve when a round lists without the maturity gate. -/
theorem orphanLoss_le_reserve (cfg : PayoutConfig) (bs58 : String → Option (List UInt8))
    (hreserve : 0 ≤ cfg.reserveMinZatoshis) {ops : List ImmediateOp}
    (hlegal : Machine.Allowed (step cfg bs58) Legal start ops)
    (hlists : Machine.Allowed (step cfg bs58) (ListsWithin cfg) start ops) :
    Machine.Always (step cfg bs58) (RiskWithin cfg) start ops := by
  have hstep : ∀ s op, ReserveInv cfg s → Legal s op ∧ ListsWithin cfg s op →
      ReserveInv cfg (s.step cfg bs58 op) :=
    fun _ op hs hop => reserveInv_step op hs hop.1 hop.2
  have hrun := Machine.always_of_allowed hstep (reserveInv_start hreserve) (hlegal.and hlists)
  apply hrun.imp
  intro s hs
  exact hs.fits.orphanLoss_le

/-! ## A block credited after the check -/

/-- A reserve of 100 zatoshis. -/
def smallReserve : PayoutConfig where
  miningAddress := "t1pool"
  minPayoutZatoshis := 1
  reserveMinZatoshis := 100
  balanceMargin := 1
  network := "mainnet"
  payImmature := true
  coalesceCooldownSecs := 0
  coalesceOverrideZatoshis := 0

/-- Every address is a pay-to-public-key-hash one. -/
def anyTransparent : String → Option (List UInt8) :=
  fun _ => some (List.replicate 22 0)

/-- One block of 80 zatoshis is credited when the round asks for the exposure. -/
def askedForExposure : List ImmediateOp :=
  [.pool (.getOrCreateMiner "t1miner"), .pool (.getOrCreateWorker 1 "rig"),
    .pool (.recordBlock 7 "00aa" 100 none 1 none), .pool (.distributeBlockCredits 1 [(1, 80)]),
    .exposure]

def secondBlock : List ImmediateOp :=
  [.pool (.recordBlock 8 "00bb" 100 none 1 none), .pool (.distributeBlockCredits 2 [(1, 80)])]

def listAndReserve : List ImmediateOp := [.list 0 0, .balance 1, .attempt, .reserve]

theorem credits_nonneg_80 : ∀ e ∈ [((1 : MinerId), (80 : ℤ))], 0 ≤ e.2 := by
  intro e he
  rw [List.mem_singleton.1 he]
  decide

/-- **Counterexample.**  A second block is credited between the exposure query and the listing;
    both are paid, out of a reserve that covers one. -/
theorem block_credited_after_the_check :
    Machine.Allowed (step smallReserve anyTransparent) Legal start
        (askedForExposure ++ secondBlock ++ listAndReserve) ∧
      ¬ Machine.Always (step smallReserve anyTransparent) (RiskWithin smallReserve) start
        (askedForExposure ++ secondBlock ++ listAndReserve) := by
  have hloss : (Machine.run (step smallReserve anyTransparent) start
      (askedForExposure ++ secondBlock ++ listAndReserve)).db.orphanLoss = 160 := by
    decide +kernel
  refine ⟨⟨trivial, trivial, trivial, credits_nonneg_80, trivial, trivial, credits_nonneg_80,
    trivial, trivial, trivial, trivial, trivial⟩, fun hrisk => ?_⟩
  have hwithin := Machine.Always.last hrisk
  unfold RiskWithin at hwithin
  rw [hloss] at hwithin
  revert hwithin
  decide

/-- The second block is credited after the listing instead: the round pays the first one. -/
theorem orphanLoss_le_reserve_listed_first :
    Machine.Always (step smallReserve anyTransparent) (RiskWithin smallReserve) start
        (askedForExposure ++ listAndReserve ++ secondBlock) ∧
      (Machine.run (step smallReserve anyTransparent) start
        (askedForExposure ++ listAndReserve ++ secondBlock)).db.orphanLoss = 80 := by
  have hlisted : (Machine.run (step smallReserve anyTransparent) start
      askedForExposure).db.getImmatureExposure ≤ smallReserve.reserveMinZatoshis := by
    decide +kernel
  refine ⟨orphanLoss_le_reserve smallReserve anyTransparent (by decide)
    ⟨trivial, trivial, trivial, credits_nonneg_80, trivial, trivial, trivial, trivial, trivial,
      trivial, credits_nonneg_80, trivial⟩
    ⟨trivial, trivial, trivial, trivial, trivial, fun _ => hlisted, trivial, trivial, trivial,
      trivial, trivial, trivial⟩, by decide +kernel⟩

end ImmediateRounds

end ZcashMiningPool
