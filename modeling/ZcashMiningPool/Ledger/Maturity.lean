import ZcashMiningPool.Ledger.Credits

/-!
# The maturity gate

A payout round lists the miners whose pending exceeds their immature credits, lets anything else
happen, and then reserves up to what it listed.  The reservation only checks `pending`; that it
never touches an immature credit is an invariant of the whole pool.

* `Payroll` — the database with the listing a round still holds; `PayrollOp` — its inputs.
* `slack` — pending less immature credits; `slack_step`: no operation of the pool lowers it.
* `MaturityInv` — the slack covers whatever is listed, and nothing was ever clawed back.
* `maturity_gate` — every reachable payroll has it.
-/

set_option autoImplicit false

namespace ZcashMiningPool

open Table Buckets Machine

/-- The database, and the listing of the current payout round until it reserves. -/
structure Payroll where
  db : PoolDb
  listing : Option (List PoolDb.PendingPayout)

inductive PayrollOp where
  | op (op : Op)
  | list (minAmount cooldownSecs overrideAmount : ℤ)
  | reserve (attemptId : AttemptId) (items : List (MinerId × ℤ))

namespace Payroll

def empty : Payroll := ⟨PoolDb.empty, none⟩

/-- A round reserves once per listing. -/
def step (s : Payroll) : PayrollOp → Payroll
  | .op op => { s with db := s.db.step op }
  | .list minAmount cooldownSecs overrideAmount =>
    { s with
      listing := some (s.db.getPendingPayouts minAmount false cooldownSecs overrideAmount) }
  | .reserve attemptId items => ⟨s.db.step (.reservePayout attemptId items), none⟩

/-- The operations that may run besides the payout round: blocks are recorded, distributed,
    confirmed, and orphaned while pending and credited; payouts are confirmed, refunded, voided. -/
def poolOk (db : PoolDb) : Op → Prop
  | .creditBalance _ _ => False
  | .adjustMinerBalance _ _ => False
  | .createPayout _ _ _ => False
  | .reservePayout _ _ => False
  | .reverseBlockCreditsPrecise _ => False
  | .updateBlockStatus _ status => status = .confirmed
  | .orphanBlock b _ => db.statusOf b = some .pending ∧ db.creditsOf b ≠ []
  | .distributeBlockCredits _ credits => ∀ e ∈ credits, 0 ≤ e.2
  | _ => True

/-- A round reserves one positive amount per listed miner, at most the listed payable. -/
def ok (s : Payroll) : PayrollOp → Prop
  | .op op => poolOk s.db op
  | .list _ _ _ => True
  | .reserve _ items =>
    (items.map Prod.fst).Nodup ∧
      ∀ e ∈ items, 0 < e.2 ∧ ∃ l, s.listing = some l ∧ ∃ p ∈ l, p.minerId = e.1 ∧ e.2 ≤ p.amount

theorem poolOk.lawful {db : PoolDb} {op : Op} (h : poolOk db op) : op.Lawful := by
  cases op with
  | distributeBlockCredits b credits => exact h
  | createPayout m amount txid => exact h.elim
  | _ => trivial

end Payroll

namespace PoolDb

/-! ## Immature credits -/

/-- Pending funds that no immature credit stands behind. -/
def slack (db : PoolDb) (m : MinerId) : ℤ := db.books m .pending - db.immature m

/-- Fewer pending blocks under the same credits: less is immature. -/
theorem immature_mono {db db' : PoolDb} (h : RowsOk db) (hc : db'.blockCredits = db.blockCredits)
    (hs : ∀ e ∈ db.blockCredits.rows, db'.statusOf e.1.1 = some .pending →
      db.statusOf e.1.1 = some .pending) (m : MinerId) : db'.immature m ≤ db.immature m := by
  unfold immature Keyed.sum
  rw [hc]
  apply List.sum_le_sum
  intro e he
  have hamount := h.credits_nonneg e he
  have hst := hs e he
  by_cases hm : e.1.2 = m
  · by_cases hp' : db'.statusOf e.1.1 = some .pending
    · simp [hm, hp', hst hp']
    · by_cases hp : db.statusOf e.1.1 = some .pending <;> simp [hm, hp', hp, hamount]
  · simp [hm]

theorem slack_of_tables {db db' : PoolDb} (h : RowsOk db) (hb : db'.books = db.books)
    (hc : db'.blockCredits = db.blockCredits)
    (hs : ∀ b, db.blocks.has b = true → db'.statusOf b = some .pending →
      db.statusOf b = some .pending) (m : MinerId) : db.slack m ≤ db'.slack m := by
  have := immature_mono h hc (fun e he => hs _ (h.credits_block e he)) m
  unfold slack
  rw [hb]
  omega

theorem slack_of_pending {db db' : PoolDb} {m : MinerId} (hb : db.books m .pending
    ≤ db'.books m .pending) (hi : db'.immature m = db.immature m) : db.slack m ≤ db'.slack m := by
  unfold slack
  omega

/-- Distributed credits are immature at most in full. -/
theorem immature_distribute {db : PoolDb} (bal : Keyed MinerId Balance)
    {cr : Keyed (BlockId × MinerId) ℤ} {blockId : BlockId} {credits : List (MinerId × ℤ)}
    (hl : ∀ e ∈ credits, 0 ≤ e.2)
    (hrows : cr.rows = db.blockCredits.rows ++ credits.map (fun e => ((blockId, e.1), e.2)))
    (m : MinerId) :
    ({ db with balances := bal, blockCredits := cr } : PoolDb).immature m
      ≤ db.immature m + demand credits m := by
  have hnew : (credits.map (fun e =>
      if e.1 = m ∧ db.statusOf blockId = some .pending then e.2 else 0)).sum
        ≤ demand credits m := by
    unfold demand
    apply List.sum_le_sum
    intro e he
    have := hl e he
    by_cases hm : e.1 = m
    · by_cases hp : db.statusOf blockId = some .pending <;> simp [hm, hp, this]
    · simp [hm]
  have hsplit : ({ db with balances := bal, blockCredits := cr } : PoolDb).immature m
      = db.immature m + (credits.map (fun e =>
          if e.1 = m ∧ db.statusOf blockId = some .pending then e.2 else 0)).sum := by
    show (cr.rows.map (fun e =>
        if e.1.2 = m ∧ db.statusOf e.1.1 = some .pending then e.2 else 0)).sum = _
    rw [hrows]
    simp [immature, Keyed.sum, Function.comp_def]
  omega

/-- The credits of a pending block are immature. -/
theorem immature_split {db : PoolDb} {blockId : BlockId}
    (hp : db.statusOf blockId = some .pending) (m : MinerId) :
    ((db.blockCredits.rows.filter (fun e => !(e.1.1 == blockId))).map (fun e =>
        if e.1.2 = m then if db.statusOf e.1.1 = some .pending then e.2 else 0 else 0)).sum
      + demand (db.creditsOf blockId) m = db.immature m := by
  have hsplit := sum_filter_not_add_demand db.blockCredits.rows (fun e => e.1.1 == blockId)
    (fun e => e.1.2) (fun e => if db.statusOf e.1.1 = some .pending then e.2 else 0) m
  have hcredits : db.creditsOf blockId
      = (db.blockCredits.rows.filter (fun e => e.1.1 == blockId)).map (fun e =>
          (e.1.2, if db.statusOf e.1.1 = some .pending then e.2 else 0)) := by
    unfold creditsOf
    apply List.map_congr_left
    intro e he
    have hb : e.1.1 = blockId := by simpa using (List.mem_filter.1 he).2
    rw [hb, if_pos hp]
  rw [hcredits, hsplit]
  unfold immature Keyed.sum
  congr 1
  apply List.map_congr_left
  intro e _
  by_cases hm : e.1.2 = m <;> simp [hm]

theorem demand_creditsOf_le_immature {db : PoolDb} (h : RowsOk db) {blockId : BlockId}
    (hp : db.statusOf blockId = some .pending) (m : MinerId) :
    demand (db.creditsOf blockId) m ≤ db.immature m := by
  rw [← immature_split hp m]
  have : 0 ≤ ((db.blockCredits.rows.filter (fun e => !(e.1.1 == blockId))).map (fun e =>
      if e.1.2 = m then if db.statusOf e.1.1 = some .pending then e.2 else 0 else 0)).sum := by
    apply List.sum_nonneg
    intro x hx
    obtain ⟨e, he, rfl⟩ := List.mem_map.1 hx
    have := h.credits_nonneg e (List.mem_of_mem_filter he)
    split_ifs <;> omega
  omega

/-- Orphaning a pending, credited block takes its credits out of what is immature. -/
theorem immature_orphan {db db' : PoolDb} {blockId : BlockId} {reward : ℤ} {out : Option (ℤ × ℤ)}
    (hp : db.statusOf blockId = some .pending) (hne : db.creditsOf blockId ≠ [])
    (hx : db.orphanBlock blockId reward = .ok (out, db')) (m : MinerId) :
    db'.immature m + demand (db.creditsOf blockId) m = db.immature m := by
  obtain ⟨-, hcr, -, hst⟩ := orphanBlock_precise hne hx
  have himm : db'.immature m
      = ((db.blockCredits.rows.filter (fun e => !(e.1.1 == blockId))).map (fun e =>
          if e.1.2 = m then if db.statusOf e.1.1 = some .pending then e.2 else 0 else 0)).sum := by
    unfold immature
    rw [hcr]
    show ((db.blockCredits.rows.filter (fun e => e.1.1 != blockId)).map (fun e =>
      if e.1.2 = m ∧ db'.statusOf e.1.1 = some .pending then e.2 else 0)).sum = _
    congr 1
    apply List.map_congr_left
    intro e he
    have hb : e.1.1 ≠ blockId := by simpa using (List.mem_filter.1 he).2
    rw [hst, if_neg hb]
    by_cases hm : e.1.2 = m <;> simp [hm]
  rw [himm, immature_split hp m]

/-- What an orphaning takes back is at most what was immature. -/
theorem slack_orphan {db db' : PoolDb} (h : RowsOk db) {blockId : BlockId} {reward : ℤ}
    {out : Option (ℤ × ℤ)} (hp : db.statusOf blockId = some .pending)
    (hne : db.creditsOf blockId ≠ []) (hx : db.orphanBlock blockId reward = .ok (out, db'))
    (m : MinerId) : db.slack m ≤ db'.slack m := by
  have himm := immature_orphan hp hne hx m
  obtain ⟨hbooks, -⟩ := orphanBlock_precise hne hx
  have hback := (@reverseRows_bounds blockId db _
    (creditsByMiner_nonneg h.credits_nonneg blockId) m).1
  rw [demand_creditsByMiner] at hback
  unfold slack
  rw [hbooks]
  omega

/-- Where `pending` covers what is immature, an orphaning claws nothing back. -/
theorem unclawed_orphan {db db' : PoolDb} (h : RowsOk db)
    (hbound : ∀ m, db.immature m ≤ db.books m .pending) {blockId : BlockId} {reward : ℤ}
    {out : Option (ℤ × ℤ)} (hp : db.statusOf blockId = some .pending)
    (hne : db.creditsOf blockId ≠ []) (hx : db.orphanBlock blockId reward = .ok (out, db')) :
    db'.orphanClawbacks = db.orphanClawbacks :=
  orphanClawbacks_of_covered h.credits_nonneg hne hx fun m =>
    (demand_creditsOf_le_immature h hp m).trans (hbound m)

/-! ## The pool's own operations -/

/-- **No operation of the pool lowers the slack.** -/
theorem slack_step {db : PoolDb} (h : RowsOk db) {op : Op} (hop : Payroll.poolOk db op) :
    ∀ m, db.slack m ≤ (db.step op).slack m := by
  have hstatus : ∀ (blocks : Auto Block) (i : BlockId) (f : Block → Block),
      (∀ r, (f r).status = r.status) → ∀ b, ((blocks.modify i f).get? b).map (·.status)
        = (blocks.get? b).map (·.status) := by
    intro blocks i f hf b
    rw [Auto.get?_modify]
    split <;> simp [Function.comp_def, hf]
  refine step_induction (P := fun db' => ∀ m, db.slack m ≤ db'.slack m) (fun _ => le_rfl)
    fun db' hx => ?_
  cases op with
  | getOrCreateMiner address =>
    cases hx
    unfold getOrCreateMiner
    split <;> exact fun _ => le_rfl
  | getOrCreateWorker m name =>
    obtain ⟨r, hr⟩ := map_snd_ok hx
    unfold getOrCreateWorker at hr
    split at hr
    · cases hr
      exact fun _ => le_rfl
    · split at hr <;> cases hr
      exact fun _ => le_rfl
  | recordBlock height hash reward actual foundBy luck =>
    obtain ⟨r, hr⟩ := map_snd_ok hx
    unfold recordBlock at hr
    split at hr
    · cases hr
    · split at hr <;> cases hr
      -- the new block has no credits yet
      refine slack_of_tables h rfl rfl fun b hb => ?_
      obtain ⟨r, hr⟩ := Auto.has_iff.1 hb
      have hlt := db.blocks.fresh _ hr
      simp only [statusOf, Auto.get?_insert]
      rw [if_neg (Nat.ne_of_lt hlt)]
      exact id
  | updateBlockStatus b status =>
    have hconf : status = .confirmed := hop
    cases hx
    refine slack_of_tables h rfl rfl fun b' _ => ?_
    rw [statusOf_updateBlockStatus, hconf]
    split
    · cases db.statusOf b' <;> simp
    · exact id
  | distributeBlockCredits b credits =>
    have hl : ∀ e ∈ credits, 0 ≤ e.2 := hop
    obtain ⟨bal, cr, rfl, hrows, hbooks, -⟩ := distributeBlockCredits_spec hx
    intro m
    have himm := immature_distribute bal hl hrows m
    unfold slack
    rw [hbooks, if_pos rfl]
    omega
  | orphanBlock b reward =>
    obtain ⟨out, hr⟩ := map_snd_ok hx
    exact slack_orphan h hop.1 hop.2 hr
  | takeCostsForBlock b cap =>
    cases hx
    unfold takeCostsForBlock
    simp only
    split
    · refine slack_of_tables h rfl rfl fun b' _ => ?_
      have hst := hstatus db.blocks b (fun r => { r with
        costsRecovered := (takeable cap 0 db.unrecovered).1 }) (fun _ => rfl) b'
      unfold statusOf
      rw [hst]
      exact id
    · exact fun _ => le_rfl
  | getOrCreateBalance m =>
    obtain ⟨r, hr⟩ := map_snd_ok hx
    simp only [getOrCreateBalance, bind, Except.bind] at hr
    split at hr <;> cases hr
    rename_i h₁
    have hb := books_insertBalance h₁
    obtain rfl := insertBalance_ok h₁
    exact slack_of_tables h hb rfl fun _ _ => id
  | confirmPayout a txid =>
    obtain ⟨n, hr⟩ := map_snd_ok hx
    obtain ⟨-, bal, pays, rfl, -, hmove⟩ := confirmPayout_spec hr
    refine fun m => slack_of_pending ?_ rfl
    rw [moveAll?_some hmove]
    simp [moveDemand]
  | refundPayout a =>
    obtain ⟨n, hr⟩ := map_snd_ok hx
    obtain ⟨-, bal, rfl, hmove⟩ := refundPayout_spec hr
    refine fun m => slack_of_pending ?_ rfl
    exact moveAll?_dst_mono (by decide)
      (fun e he => (itemsOf_pos h.items_pos a e he).le) hmove m
  | voidReorgedPayout txid =>
    obtain ⟨r, hr⟩ := map_snd_ok hx
    rcases voidReorgedPayout_cases hr with ⟨-, rfl⟩ | ⟨-, bal, rfl, hmove⟩
    · exact fun _ => le_rfl
    · refine fun m => slack_of_pending ?_ rfl
      exact moveAll?_dst_mono (by decide)
        (fun e he => (payoutsOf_pos h.payouts_pos txid e he).le) hmove m
  | creditBalance m amount => exact hop.elim
  | adjustMinerBalance m delta => exact hop.elim
  | createPayout m amount txid => exact hop.elim
  | reservePayout a items => exact hop.elim
  | reverseBlockCreditsPrecise b => exact hop.elim
  | _ =>
    cases hx
    exact fun _ => le_rfl

/-- While `pending` covers what is immature, no operation of the pool writes a clawback. -/
theorem unclawed_step {db : PoolDb} (h : RowsOk db)
    (hbound : ∀ m, db.immature m ≤ db.books m .pending) (hclaw : db.orphanClawbacks.values = [])
    {op : Op} (hop : Payroll.poolOk db op) : (db.step op).orphanClawbacks.values = [] := by
  by_cases hw : op.writes .orphanClawbacks = false
  · have hsame : (db.step op).orphanClawbacks = db.orphanClawbacks := step_same db op hw
    rw [hsame]
    exact hclaw
  · refine step_induction (P := fun db' => db'.orphanClawbacks.values = []) hclaw fun db' hx => ?_
    cases op with
    | orphanBlock b reward =>
      obtain ⟨out, hr⟩ := map_snd_ok hx
      rw [unclawed_orphan h hbound hop.1 hop.2 hr]
      exact hclaw
    | acknowledgeClawbacks note =>
      cases hx
      simpa [acknowledgeClawbacks, Auto.modifyAll, Auto.values] using hclaw
    | acknowledgeClawbacksForBlock b note =>
      cases hx
      simpa [acknowledgeClawbacksForBlock, Auto.modifyAll, Auto.values] using hclaw
    | reverseBlockCreditsPrecise b => exact hop.elim
    | _ => exact absurd rfl hw

/-! ## The payout round -/

/-- What is listed is the miner's slack. -/
theorem amount_of_listed {db : PoolDb} {minAmount cooldownSecs overrideAmount : ℤ}
    {p : PendingPayout}
    (h : p ∈ db.getPendingPayouts minAmount false cooldownSecs overrideAmount) :
    p.amount = db.slack p.minerId := by
  unfold getPendingPayouts at h
  rw [List.mem_insertionSort] at h
  obtain ⟨e, he, hp⟩ := List.mem_filterMap.1 h
  obtain ⟨miner, -, hp⟩ := Option.bind_eq_some_iff.1 hp
  simp only [Bool.false_eq_true, if_false] at hp
  split at hp
  · cases hp
    have hrow : db.balances.get? e.1 = some e.2 := Keyed.get?_eq_some_iff.2 he
    simp [slack, books, hrow, Balance.get]
  · cases hp

/-- A reservation lowers the slack by what it reserved, which is at most what was asked. -/
theorem slack_reserve (db : PoolDb) (attemptId : AttemptId) {items : List (MinerId × ℤ)}
    (hpos : ∀ e ∈ items, 0 ≤ e.2) (m : MinerId) :
    db.slack m - demand items m ≤ (db.step (.reservePayout attemptId items)).slack m ∧
      (db.step (.reservePayout attemptId items)).orphanClawbacks = db.orphanClawbacks := by
  have hd := demand_nonneg hpos m
  refine step_induction (P := fun db' => db.slack m - demand items m ≤ db'.slack m ∧
    db'.orphanClawbacks = db.orphanClawbacks) ⟨by omega, rfl⟩ fun db' hx => ?_
  obtain ⟨pairs, hr⟩ := map_snd_ok hx
  obtain ⟨bal, its, rfl, -, hmove, hsub, -⟩ := reservePayout_spec hr
  have hle := demand_le_of_sublist hsub hpos m
  have hbooks := congrFun (congrFun (moveAll?_some hmove) m) .pending
  simp only [moveDemand, reduceCtorEq, if_false, if_true] at hbooks
  refine ⟨?_, rfl⟩
  have himm : ({ db with balances := bal, payoutItems := its } : PoolDb).immature m
      = db.immature m := rfl
  unfold slack
  rw [hbooks, himm]
  omega

end PoolDb

namespace Payroll

/-- **The maturity invariant**: the slack of every miner is non-negative and covers what the
    current round listed, and nothing was ever clawed back. -/
structure MaturityInv (s : Payroll) : Prop where
  rows : PoolDb.RowsOk s.db
  bound : ∀ m, s.db.immature m ≤ s.db.books m .pending
  listed : ∀ l, s.listing = some l → ∀ p ∈ l, p.amount ≤ s.db.slack p.minerId
  unclawed : s.db.orphanClawbacks.values = []

theorem maturityInv_empty : MaturityInv empty :=
  ⟨PoolDb.rowsOk_empty, fun _ => le_rfl, (fun _ h => by cases h), rfl⟩

theorem maturityInv_step {s : Payroll} (h : MaturityInv s) {i : PayrollOp} (hi : s.ok i) :
    MaturityInv (s.step i) := by
  cases i with
  | op op =>
    have hop : poolOk s.db op := hi
    have hslack := PoolDb.slack_step h.rows hop
    have hclaw := PoolDb.unclawed_step h.rows h.bound h.unclawed hop
    refine ⟨PoolDb.rowsOk_step h.rows hop.lawful, fun m => ?_, fun l hl p hp => ?_, hclaw⟩
    · have := hslack m
      have := h.bound m
      unfold PoolDb.slack at *
      show (s.db.step op).immature m ≤ (s.db.step op).books m .pending
      omega
    · exact (h.listed l hl p hp).trans (hslack p.minerId)
  | list minAmount cooldownSecs overrideAmount =>
    refine ⟨h.rows, h.bound, fun l hl p hp => ?_, h.unclawed⟩
    cases hl
    exact (PoolDb.amount_of_listed hp).le
  | reserve attemptId items =>
    obtain ⟨hnodup, hitems⟩ := hi
    have hpos : ∀ e ∈ items, 0 ≤ e.2 := fun e he => (hitems e he).1.le
    refine ⟨PoolDb.rowsOk_step h.rows trivial, fun m => ?_, (fun _ hl => by cases hl), ?_⟩
    · have hslack := (PoolDb.slack_reserve s.db attemptId hpos m).1
      -- a reserved miner was listed with at least that amount
      have hcov : demand items m ≤ s.db.slack m := by
        by_cases hin : ∃ e ∈ items, e.1 = m
        · obtain ⟨e, he, rfl⟩ := hin
          obtain ⟨-, l, hl, p, hp, hpe, hle⟩ := hitems e he
          rw [PoolDb.demand_of_nodup hnodup he]
          exact hpe ▸ hle.trans (h.listed l hl p hp)
        · rw [demand_eq_zero fun e he hem => hin ⟨e, he, hem⟩]
          have := h.bound m
          unfold PoolDb.slack
          omega
      show (s.db.step _).immature m ≤ (s.db.step _).books m .pending
      unfold PoolDb.slack at *
      omega
    · show (s.db.step (.reservePayout attemptId items)).orphanClawbacks.values = []
      rw [(PoolDb.slack_reserve s.db attemptId hpos 0).2]
      exact h.unclawed

/-- One matured and one immature block; the immature one is orphaned between the listing and the
    reservation. -/
def gatedRun : List PayrollOp :=
  [.op (.getOrCreateMiner "t1miner"), .op (.getOrCreateWorker 1 "rig"),
    .op (.recordBlock 7 "00aa" 100 none 1 none), .op (.distributeBlockCredits 1 [(1, 90)]),
    .op (.updateBlockStatus 1 .confirmed), .op (.recordBlock 8 "00bb" 100 none 1 none),
    .op (.distributeBlockCredits 2 [(1, 80)]), .op (.createPayoutAttempt 1 90 "loop"),
    .list 1 0 0, .op (.orphanBlock 2 100), .reserve 1 [(1, 90)]]

theorem gatedRun_allowed : Allowed step ok empty gatedRun := by
  have horphan : (run step empty (gatedRun.take 9)).db.statusOf 2 = some .pending ∧
      (run step empty (gatedRun.take 9)).db.creditsOf 2 ≠ [] := by decide +kernel
  have hlisted : (run step empty (gatedRun.take 10)).listing
      = some [⟨1, "t1miner", 90, 0⟩] := by decide +kernel
  have hcredit : ∀ a : ℤ, 0 ≤ a → ∀ e ∈ [((1 : MinerId), a)], 0 ≤ e.2 := by
    intro a ha e he
    rw [List.mem_singleton.1 he]
    exact ha
  refine ⟨trivial, trivial, trivial, hcredit 90 (by decide), rfl, trivial,
    hcredit 80 (by decide), trivial, trivial, horphan, ⟨by decide, fun e he => ?_⟩, trivial⟩
  rw [List.mem_singleton.1 he]
  exact ⟨by decide, _, hlisted, _, List.mem_cons_self, rfl, le_rfl⟩

end Payroll

end ZcashMiningPool
