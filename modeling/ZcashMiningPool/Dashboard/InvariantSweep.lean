import ZcashMiningPool.Dashboard.InvariantDrift

/-!
# The invariant between the other tasks

`get_accounting_invariant` is three SELECTs outside a transaction, so the pool process and the
payout loop may write between them.

* `InvariantRead`, `SweepOp` — how far `check_invariant` is, and its SELECTs among the other tasks.
* `pays`, `clawsBack` — which steps the figures cannot agree over; `undisturbed` — a step that is
  none of these, or comes where it does no harm.
* `SweepInv` — the invariant: what is still to be read is as the first SELECT would have read it.

Main results: `drift_counts_reversal` and `drift_measures_rounding`.
-/

set_option autoImplicit false

namespace ZcashMiningPool

open Table Buckets Postings Machine

/-! ## The SELECTs among the other tasks -/

/-- Which SELECTs were made, and of what. -/
inductive InvariantRead where
  | idle
  | reward (atReward : DistributionLog)
  | balances (atReward : DistributionLog) (atBalances : PoolDb)

/-- The reconciler beside the pool and the payout loop. -/
structure InvariantSweep where
  log : DistributionLog
  read : InvariantRead
  /-- What `check_invariant` reported, and the state its first SELECT read. -/
  reports : List (DistributionLog × InvariantReport)

inductive SweepOp where
  /-- The other tasks. -/
  | work (e : DistributorOp)
  | selectReward
  | selectBalances
  /-- The last SELECT, and the report. -/
  | selectClawbacks (previous : Option ℤ)
  /-- A SELECT fails, or the process stops. -/
  | giveUp
  deriving DecidableEq, Repr

namespace InvariantSweep

def start : InvariantSweep := ⟨DistributionLog.start, .idle, []⟩

/-- The figures, when the SELECTs that are left read this state. -/
def figures (s : InvariantSweep) : ℤ × ℤ × ℤ :=
  let db := s.log.books.db
  match s.read with
  | .idle => PoolDb.getAccountingInvariant db db db
  | .reward atReward => PoolDb.getAccountingInvariant atReward.books.db db db
  | .balances atReward atBalances =>
    PoolDb.getAccountingInvariant atReward.books.db atBalances db

def step (c : PplnsCalculator) (s : InvariantSweep) : SweepOp → InvariantSweep
  | .work e => { s with log := s.log.step c e }
  | .selectReward => { s with read := .reward s.log }
  | .selectBalances =>
    match s.read with
    | .reward atReward => { s with read := .balances atReward s.log.books.db }
    | _ => s
  | .selectClawbacks previous =>
    match s.read with
    | .balances atReward _ =>
      { s with
        read := .idle
        reports := (atReward, checkInvariant c.poolFee s.figures previous) :: s.reports }
    | _ => s
  | .giveUp => { s with read := .idle }

def ok (s : InvariantSweep) : SweepOp → Prop
  | .work e => s.log.ok e
  | _ => True

end InvariantSweep

namespace DistributionLog

/-- The rest of the call for block `b` credits something. -/
def pays (c : PplnsCalculator) (s : DistributionLog) (b : BlockId) : Bool :=
  match s.books.tasks.get? b with
  | none => false
  | some t => settles c s.books b && decide (0 < c.owed t.basis t.costs)

/-- A credit of block `b` is no longer covered by the `pending` of its miner. -/
def clawsBack (s : DistributionLog) (b : BlockId) : Prop :=
  ∃ m, s.books.db.books m .pending < demand (s.books.db.creditsOf b) m

/-- No distribution and no reversal. -/
def keepsBalances (c : PplnsCalculator) (s : DistributionLog) : DistributorOp → Prop
  | .credit b => s.pays c b = false
  | .query (.orphanBlock _ _) => False
  | _ => True

/-- No reversal of a credit that was paid out. -/
def keepsClawbacks (s : DistributionLog) : DistributorOp → Prop
  | .query (.orphanBlock b _) => ¬ s.clawsBack b
  | _ => True

end DistributionLog

namespace InvariantSweep

/-- Between the first and the second SELECT no block is distributed or reversed, and between the
    second and the third nothing is clawed back. -/
def undisturbed (c : PplnsCalculator) (s : InvariantSweep) : SweepOp → Prop
  | .work e =>
    match s.read with
    | .idle => True
    | .reward _ => s.log.keepsBalances c e
    | .balances _ _ => s.log.keepsClawbacks e
  | _ => True

end InvariantSweep

/-! ## What the other tasks do to the figures -/

namespace PplnsCalculator

variable {c : PplnsCalculator}

/-- Without takers nobody is rewarded. -/
theorem rewards_of_noTakers {db : PoolDb} (htakers : c.hasTakers db = false) {net : ℤ}
    {worker : WorkerId} {rs : List PplnsReward} (h : c.rewards db net worker = .ok rs) :
    rs = [] := by
  cases hm : c.mode with
  | solo => simp [hasTakers, hm] at htakers
  | pplns =>
    have hnil : db.getPplnsShares c.windowSize = [] := by simpa [hasTakers, hm] using htakers
    simp only [rewards, hm, hnil, if_true] at h
    cases h
    rfl

/-- Credits are positive, so they cannot add up to nothing. -/
theorem credits_eq_nil_of_sum {rs : List PplnsReward}
    (h : ((credits rs).map Prod.snd).sum ≤ 0) : credits rs = [] := by
  by_contra hne
  refine absurd h (not_le.2 (List.sum_pos _ ?_ (by simpa using hne)))
  intro x hx
  obtain ⟨e, he, rfl⟩ := List.mem_map.1 hx
  obtain ⟨r, hr, rfl⟩ := List.mem_map.1 he
  simpa using (List.mem_filter.1 hr).2

end PplnsCalculator

namespace DistributionLog

open PoolDb

variable {c : PplnsCalculator} {s : DistributionLog}

/-- A call with nothing to credit leaves the database alone. -/
theorem credit_of_not_pays (h : LogInv c s) {b : BlockId} (hpays : s.pays c b = false) :
    (step c s (.credit b)).books.db = s.books.db := by
  show (Distributor.step c s.books (.credit b)).db = s.books.db
  cases ht : s.books.tasks.get? b with
  | none => simp only [Distributor.step, ht]
  | some t =>
    cases hx : c.settle none s.books.db (t.basis - t.costs) b t.foundBy with
    | error e =>
      simp only [Distributor.step, ht, hx]
      rfl
    | ok out =>
      obtain ⟨rs, db'⟩ := out
      obtain ⟨hrs, hdist⟩ := PplnsCalculator.settle_distributes hx
      obtain ⟨-, hnet, -⟩ := h.books.task b t ht
      have hnil : PplnsCalculator.credits rs = [] := by
        cases htakers : c.hasTakers s.books.db with
        | false =>
          rw [PplnsCalculator.rewards_of_noTakers htakers hrs]
          rfl
        | true =>
          have hsum := PplnsCalculator.sum_credits_of_takers h.positive hnet htakers hrs
          have howed : ¬ 0 < c.owed t.basis t.costs := by
            simpa [pays, settles, ht, hx, htakers, Except.isOk, Except.toBool] using hpays
          refine PplnsCalculator.credits_eq_nil_of_sum ?_
          rw [hsum]
          simpa [PplnsCalculator.owed] using howed
      rw [hnil] at hdist
      cases hdist
      simp only [Distributor.step, ht, hx]
      rfl

/-- Only queries and credits touch the accounts. -/
theorem accounts_quiet {e : DistributorOp} (hquery : ∀ op, e ≠ .query op)
    (hcredit : ∀ b, e ≠ .credit b) : (step c s e).books.db.accounts = s.books.db.accounts := by
  cases e with
  | query op => exact absurd rfl (hquery op)
  | credit b => exact absurd rfl (hcredit b)
  | recordShare workerId jobId difficulty isBlock sessionId =>
    cases hx : s.books.db.recordShare workerId jobId difficulty isBlock sessionId with
    | error e => simp only [step, Distributor.step, hx]
    | ok out =>
      simp only [step, Distributor.step, hx, recordShare_ok hx]
      rfl
  | take b =>
    show (Distributor.step c s.books (.take b)).db.accounts = s.books.db.accounts
    rcases Distributor.take_cases c s.books b with heq | ⟨r, tasks, -, -, heq⟩
    · rw [heq]
    · rw [heq, (takeCostsForBlock_spec _ _ _).2]
      rfl
  | fail b => rfl
  | restart => rfl

/-- A query that neither credits nor reverses moves funds between the buckets of a miner. -/
theorem units_query {op : Op} (hok : s.ok (.query op))
    (horphan : ∀ b reward, op ≠ .orphanBlock b reward) :
    ∀ k ∈ s.books.db.movements op, weigh ownedLaw k.unit = 0 ∧ weigh clawedLaw k.unit = 0 := by
  obtain ⟨hop, hcons, hprecise⟩ := hok
  intro k hk
  cases op with
  | distributeBlockCredits b credits => exact hop.elim
  | reverseBlockCreditsPrecise b => exact hprecise.elim
  | orphanBlock b reward => exact absurd rfl (horphan b reward)
  | creditBalance m amount => exact hcons.elim
  | adjustMinerBalance m delta => exact hcons.elim
  | createPayout m amount txid => rw [List.mem_singleton.1 hk]; decide
  | reservePayout a items => rw [List.mem_singleton.1 hk]; decide
  | confirmPayout a txid => rw [List.mem_singleton.1 hk]; decide
  | refundPayout a => rw [List.mem_singleton.1 hk]; decide
  | voidReorgedPayout txid => rw [List.mem_singleton.1 hk]; decide
  | _ => cases hk

/-- **Balances move only with a distribution or a reversal.** -/
theorem balancesTotal_work (h : LogInv c s) {e : DistributorOp} (hok : s.ok e)
    (hkeep : s.keepsBalances c e) :
    (step c s e).books.db.balancesTotal = s.books.db.balancesTotal := by
  cases e with
  | query op =>
    have horphan : ∀ b reward, op ≠ .orphanBlock b reward := by
      rintro b reward rfl
      exact hkeep
    exact balancesTotal_step h.rows fun k hk => (units_query hok horphan k hk).1
  | credit b => rw [credit_of_not_pays h hkeep]
  | _ =>
    refine balancesTotal_congr fun m => ?_
    rw [accounts_quiet (by simp) (by simp)]

theorem clawbackTotal_orphan (h : LogInv c s) {b : BlockId} {reward : ℤ}
    (hok : s.ok (.query (.orphanBlock b reward))) (hkeep : ¬ s.clawsBack b) :
    (s.books.db.step (.orphanBlock b reward)).clawbackTotal = s.books.db.clawbackTotal := by
  have hne : s.books.db.creditsOf b ≠ [] := hok.2.1
  have hcov : ∀ m, demand (s.books.db.creditsOf b) m ≤ s.books.db.books m .pending :=
    fun m => not_lt.1 fun hlt => hkeep ⟨m, hlt⟩
  refine step_induction (P := fun db' => db'.clawbackTotal = s.books.db.clawbackTotal)
    rfl fun db' hx => ?_
  obtain ⟨out, hr⟩ := map_snd_ok hx
  unfold clawbackTotal
  rw [orphanClawbacks_of_covered h.rows.credits_nonneg hne hr hcov]

/-- **Clawbacks are written only by a reversal of what was paid out.** -/
theorem clawbackTotal_work (h : LogInv c s) {e : DistributorOp} (hok : s.ok e)
    (hkeep : s.keepsClawbacks e) :
    (step c s e).books.db.clawbackTotal = s.books.db.clawbackTotal := by
  cases e with
  | query op =>
    by_cases horphan : ∃ b reward, op = .orphanBlock b reward
    · obtain ⟨b, reward, rfl⟩ := horphan
      exact clawbackTotal_orphan h hok hkeep
    · refine clawbackTotal_step h.rows fun k hk => (units_query hok ?_ k hk).2
      intro b reward heq
      exact horphan ⟨b, reward, heq⟩
  | credit b =>
    show (Distributor.step c s.books (.credit b)).db.clawbackTotal = s.books.db.clawbackTotal
    rcases Distributor.credit_cases (c := c) h.books.shares fun t ht => (h.books.task b t ht).2.1
      with heq | heq | ⟨t, db', credits, -, hdist, -, heq⟩
    · rw [heq]
    · rw [heq]
      rfl
    · rw [heq]
      obtain ⟨bal, cr, rfl, -⟩ := distributeBlockCredits_spec hdist
      rfl
  | _ =>
    refine clawbackTotal_congr fun m => ?_
    rw [accounts_quiet (by simp) (by simp)]

end DistributionLog

/-! ## The invariant -/

namespace InvariantSweep

open DistributionLog PoolDb

variable {c : PplnsCalculator} {s : InvariantSweep}

/-- Balances and clawbacks are as they were when the first SELECT was made. -/
def ReadsAgree (c : PplnsCalculator) (s : InvariantSweep) : Prop :=
  match s.read with
  | .idle => True
  | .reward atReward => LogInv c atReward ∧
      s.log.books.db.balancesTotal = atReward.books.db.balancesTotal ∧
      s.log.books.db.clawbackTotal = atReward.books.db.clawbackTotal
  | .balances atReward atBalances => LogInv c atReward ∧
      atBalances.balancesTotal = atReward.books.db.balancesTotal ∧
      s.log.books.db.clawbackTotal = atReward.books.db.clawbackTotal

/-- The drift is what `n` floors lose. -/
def Measured (r : DistributionLog × InvariantReport) : Prop :=
  r.1.AllDistributed →
    -(r.1.books.db.creditedBlocks.length : ℤ) ≤ r.2.drift ∧ r.2.drift ≤ 0

structure SweepInv (c : PplnsCalculator) (s : InvariantSweep) : Prop where
  log : LogInv c s.log
  reads : s.ReadsAgree c
  reports : ∀ r ∈ s.reports, Measured r

theorem sweepInv_start (c : PplnsCalculator) : SweepInv c start where
  log := logInv_start c
  reads := trivial
  reports r hr := by cases hr

/-- A distribution or reversal is a step that could claw back as well. -/
theorem keepsClawbacks_of_keepsBalances {l : DistributionLog} {e : DistributorOp}
    (h : l.keepsBalances c e) : l.keepsClawbacks e := by
  cases e with
  | query op =>
    cases op with
    | orphanBlock b reward => exact h.elim
    | _ => trivial
  | _ => trivial

theorem readsAgree_work (h : SweepInv c s) {e : DistributorOp} (hok : s.log.ok e)
    (hquiet : s.undisturbed c (.work e)) : (step c s (.work e)).ReadsAgree c := by
  have hreads := h.reads
  unfold undisturbed at hquiet
  unfold ReadsAgree at hreads ⊢
  simp only [step]
  cases hread : s.read with
  | idle => trivial
  | reward atReward =>
    simp only [hread] at hquiet hreads
    obtain ⟨hlog, hbalances, hclawbacks⟩ := hreads
    exact ⟨hlog, (balancesTotal_work h.log hok hquiet).trans hbalances,
      (clawbackTotal_work h.log hok (keepsClawbacks_of_keepsBalances hquiet)).trans hclawbacks⟩
  | balances atReward atBalances =>
    simp only [hread] at hquiet hreads
    obtain ⟨hlog, hbalances, hclawbacks⟩ := hreads
    exact ⟨hlog, hbalances, (clawbackTotal_work h.log hok hquiet).trans hclawbacks⟩

/-- The last SELECT completes figures that one state could have given. -/
theorem measured_report (h : SweepInv c s) {atReward : DistributionLog} {atBalances : PoolDb}
    (hread : s.read = .balances atReward atBalances) (previous : Option ℤ) :
    Measured (atReward, checkInvariant c.poolFee s.figures previous) := by
  have hreads := h.reads
  unfold ReadsAgree at hreads
  simp only [hread] at hreads
  obtain ⟨hlog, hbalances, hclawbacks⟩ := hreads
  intro hall
  refine hlog.drift_bounds hall ?_ ?_ previous
  · simp only [hread, getAccountingInvariant]
  · simp only [hread, getAccountingInvariant, hbalances, hclawbacks, held]

theorem sweepInv_step (h : SweepInv c s) {e : SweepOp} (hok : s.ok e)
    (hquiet : s.undisturbed c e) : SweepInv c (step c s e) := by
  cases e with
  | work e =>
    exact ⟨logInv_step e h.log hok, readsAgree_work h hok hquiet, h.reports⟩
  | selectReward => exact ⟨h.log, ⟨h.log, rfl, rfl⟩, h.reports⟩
  | selectBalances =>
    have hreads := h.reads
    unfold ReadsAgree at hreads
    simp only [step]
    split
    · rename_i atReward hread
      simp only [hread] at hreads
      exact ⟨h.log, hreads, h.reports⟩
    · exact h
  | selectClawbacks previous =>
    simp only [step]
    split
    · rename_i atReward atBalances hread
      refine ⟨h.log, trivial, fun r hr => ?_⟩
      rcases List.mem_cons.1 hr with rfl | hr
      · exact measured_report h hread previous
      · exact h.reports r hr
    · exact h
  | giveUp => exact ⟨h.log, trivial, h.reports⟩

/-- Wherever the sweep is, moving funds changes none of its figures. -/
theorem figures_work_movesFunds (h : LogInv c s.log) {op : Op} (hop : op.MovesFunds) :
    (step c s (.work (.query op))).figures = s.figures := by
  obtain ⟨hreward, hbalances, hclawbacks⟩ := figures_movesFunds h.rows hop
  have hdb : (step c s (.work (.query op))).log.books.db = s.log.books.db.step op := rfl
  unfold figures
  rw [hdb]
  have hread : (step c s (.work (.query op))).read = s.read := rfl
  rw [hread]
  cases s.read with
  | idle => simp only [getAccountingInvariant, hreward, hbalances, hclawbacks]
  | reward atReward => simp only [getAccountingInvariant, hbalances, hclawbacks]
  | balances atReward atBalances => simp only [getAccountingInvariant, hclawbacks]

/-! ## The drift -/

/-- A window of a hundred shares, and a fee of one percent. -/
def onePercent : PplnsCalculator := .new 100 (1 / 100) .pplns

/-- Two blocks are distributed, the first one with a cost of 10, and part of the credits is
    reserved. -/
def paidBlocks : List SweepOp :=
  [.work (.query (.getOrCreateMiner "t1a")), .work (.query (.getOrCreateWorker 1 "rig")),
    .work (.recordShare 1 "job" 8 true "s1"),
    .work (.query (.recordBlock 100 "00ab" 1011 none 1 none)),
    .work (.query (.recordBlock 101 "00ac" 999 none 1 none)),
    .work (.query (.recordTxCost .shield "opid-1" 10)), .work (.take 1), .work (.credit 1),
    .work (.take 2), .work (.credit 2), .work (.query (.createPayoutAttempt 1 1500 "loop")),
    .work (.query (.reservePayout 1 [(1, 1500)]))]

/-- The second block is orphaned between the first two SELECTs. -/
def tornSweep : List SweepOp :=
  paidBlocks ++ [.selectReward, .work (.query (.orphanBlock 2 999)), .selectBalances,
    .selectClawbacks none]

/-- The payout is confirmed within a sweep, and the second block orphaned before the next one. -/
def wholeSweeps : List SweepOp :=
  paidBlocks ++ [.selectReward, .work (.query (.confirmPayout 1 "aa")), .selectBalances,
    .selectClawbacks none, .work (.query (.orphanBlock 2 999)), .selectReward, .selectBalances,
    .selectClawbacks (some (-1))]

theorem allowed_paidBlocks {Q : InvariantSweep → SweepOp → Prop}
    (hQ : ∀ s e, s.read = .idle → s.ok e → Q s e) {es : List SweepOp}
    (h : Allowed (step onePercent) Q (run (step onePercent) start paidBlocks) es) :
    Allowed (step onePercent) Q start (paidBlocks ++ es) := by
  have hfirst : 1 ∉ (run (step onePercent) start (paidBlocks.take 6)).log.called := by
    decide +kernel
  have hsecond : 2 ∉ (run (step onePercent) start (paidBlocks.take 8)).log.called := by
    decide +kernel
  refine ⟨hQ _ _ rfl ⟨trivial, trivial, trivial⟩, hQ _ _ rfl ⟨trivial, trivial, trivial⟩,
    hQ _ _ rfl ?_, hQ _ _ rfl ⟨?_, trivial, trivial⟩, hQ _ _ rfl ⟨?_, trivial, trivial⟩,
    hQ _ _ rfl ⟨?_, trivial, trivial⟩, hQ _ _ rfl hfirst, hQ _ _ rfl trivial,
    hQ _ _ rfl hsecond, hQ _ _ rfl trivial, hQ _ _ rfl ⟨trivial, trivial, trivial⟩,
    hQ _ _ rfl ⟨trivial, trivial, trivial⟩, h⟩
  · show (0 : ℚ) < 8
    decide
  · show (0 : ℤ) ≤ 1011
    decide
  · show (0 : ℤ) ≤ 999
    decide
  · show (0 : ℤ) ≤ 10
    decide

/-- **A reversal between the SELECTs is in the drift.**  The rewards still count the orphaned
    block, the balances no longer do: 990 zatoshis for two blocks. -/
theorem drift_counts_reversal :
    Allowed (step onePercent) ok start tornSweep ∧
      (∀ r ∈ (run (step onePercent) start tornSweep).reports, r.1.AllDistributed) ∧
      (run (step onePercent) start tornSweep).log.AllDistributed ∧
      (run (step onePercent) start tornSweep).reports.map
        (fun r => (r.1.books.db.creditedBlocks.length, r.2.drift)) = [(2, -990)] := by
  have hcredited : (run (step onePercent) start paidBlocks).log.books.db.creditsOf 2 ≠ [] := by
    decide +kernel
  refine ⟨allowed_paidBlocks (fun _ _ _ hok => hok)
    ⟨trivial, ⟨trivial, hcredited, trivial⟩, trivial, trivial, trivial⟩, ?_, ?_, ?_⟩
  · unfold AllDistributed
    decide +kernel
  · unfold AllDistributed
    decide +kernel
  · decide +kernel

/-- **The reconciler's invariant measures only rounding** while nothing is distributed or reversed
    between the SELECTs.  One distribution for every block, blocks orphaned precisely and any
    settlement in between: where every block that is not orphaned has been distributed, the drift
    lies within the number of these blocks below zero; and at any point of any sweep, moving funds
    leaves it as it is. -/
theorem drift_measures_rounding (c : PplnsCalculator) {es : List SweepOp}
    (h : Allowed (step c) (fun s e => s.ok e ∧ s.undisturbed c e) start es) :
    Always (step c) (fun s =>
      (∀ r ∈ s.reports, r.1.AllDistributed →
        -(r.1.books.db.creditedBlocks.length : ℤ) ≤ r.2.drift ∧ r.2.drift ≤ 0) ∧
      ∀ op, op.MovesFunds → ∀ previous,
        (checkInvariant c.poolFee (step c s (.work (.query op))).figures previous).drift
          = (checkInvariant c.poolFee s.figures previous).drift) start es := by
  have hrun : Always (step c) (SweepInv c) start es :=
    always_of_allowed (fun _ _ hs hok => sweepInv_step hs hok.1 hok.2) (sweepInv_start c) h
  refine hrun.imp fun s hs => ⟨hs.reports, fun op hop previous => ?_⟩
  rw [figures_work_movesFunds hs.log hop]

/-- Two floors lose a zatoshi; after the orphaning one floor loses none. -/
theorem drift_measures_rounding_wholeSweeps :
    (run (step onePercent) start wholeSweeps).reports.map (·.2.drift) = [0, -1] ∧
      Always (step onePercent) (fun s =>
        (∀ r ∈ s.reports, r.1.AllDistributed →
          -(r.1.books.db.creditedBlocks.length : ℤ) ≤ r.2.drift ∧ r.2.drift ≤ 0) ∧
        ∀ op, op.MovesFunds → ∀ previous,
          (checkInvariant onePercent.poolFee (step onePercent s (.work (.query op))).figures
            previous).drift
            = (checkInvariant onePercent.poolFee s.figures previous).drift) start wholeSweeps := by
  have hcredited : (run (step onePercent) start (wholeSweeps.take 16)).log.books.db.creditsOf 2
      ≠ [] := by
    decide +kernel
  refine ⟨by decide +kernel, drift_measures_rounding onePercent (allowed_paidBlocks ?_ ?_)⟩
  · intro s e hidle hok
    refine ⟨hok, ?_⟩
    cases e with
    | work e =>
      unfold undisturbed
      rw [hidle]
      trivial
    | _ => trivial
  · exact ⟨⟨trivial, trivial⟩, ⟨⟨trivial, trivial, trivial⟩, trivial⟩, ⟨trivial, trivial⟩,
      ⟨trivial, trivial⟩, ⟨⟨trivial, hcredited, trivial⟩, trivial⟩, ⟨trivial, trivial⟩,
      ⟨trivial, trivial⟩, ⟨trivial, trivial⟩, trivial⟩

end InvariantSweep

end ZcashMiningPool
