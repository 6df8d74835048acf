import ZcashMiningPool.Ledger.Costs
import ZcashMiningPool.Rewards.Pplns

/-!
# The books of distributed blocks

A block's distribution is two transactions, and a call that ends after the first one is repeated
later.  What the block pays out and what is stamped on it come from different calls then.

* `Distributor` — the database with the distributions under way; `DistributorOp` — its inputs: a
  distribution takes costs, then credits or fails; the process may stop at any time.
* `distribute_run` — a call of `distribute` is two such inputs.
* `BooksBalance` — credits are the floor of basis less stamp, after the fee.
* `rewritesStamp` — a distribution either takes some cost or meets a stamp the floor does not see.
* `books_balance` — the balance holds along every run whose distributions are like that.
* `rewritesStamp_of_balance` — a call that credits and balances met that condition.
* `repeatedRun` — a repeated distribution pays out what the first one recovered.
-/

set_option autoImplicit false

namespace ZcashMiningPool

open Table Machine

/-! ## The machine -/

/-- A distribution that has taken its costs and has not credited yet. -/
structure DistributionTask where
  basis : ℤ
  foundBy : WorkerId
  costs : ℤ
  deriving DecidableEq, Repr

structure Distributor where
  db : PoolDb
  tasks : Keyed BlockId DistributionTask

inductive DistributorOp where
  /-- Any other query. -/
  | query (op : Op)
  | recordShare (workerId : WorkerId) (jobId : String) (difficulty : ℚ) (isBlock : Bool)
      (sessionId : String)
  /-- `distribute` is called for a recorded block, and its cost recovery commits. -/
  | take (blockId : BlockId)
  /-- The rest of the call. -/
  | credit (blockId : BlockId)
  /-- A later database call fails, and the call returns its error. -/
  | fail (blockId : BlockId)
  /-- The process stops. -/
  | restart
  deriving DecidableEq, Repr

namespace PplnsCalculator

/-- `floor((basis - costs_recovered) * (1 - pool_fee))`. -/
def owed (c : PplnsCalculator) (basis stamp : ℤ) : ℤ :=
  ⌊((basis - stamp : ℤ) : ℚ) * (1 - c.poolFee)⌋

end PplnsCalculator

namespace Distributor

def empty : Distributor := ⟨PoolDb.empty, Keyed.empty⟩

def finish (s : Distributor) (blockId : BlockId) : Distributor :=
  { s with tasks := s.tasks.filter (fun b _ => b != blockId) }

/-- One input.  A block is distributed by one task at a time. -/
def step (c : PplnsCalculator) (s : Distributor) : DistributorOp → Distributor
  | .query op => { s with db := s.db.step op }
  | .recordShare workerId jobId difficulty isBlock sessionId =>
    match s.db.recordShare workerId jobId difficulty isBlock sessionId with
    | .ok (_, db') => { s with db := db' }
    | .error _ => s
  | .take b =>
    match s.db.blocks.get? b with
    | none => s
    | some r =>
      let basis := PoolDb.distributionBasis r
      let (costs, db') := s.db.takeCostsForBlock b (basis.tdiv 50)
      match s.tasks.insert? b ⟨basis, r.foundBy, costs⟩ with
      | some tasks => ⟨db', tasks⟩
      | none => s
  | .credit b =>
    match s.tasks.get? b with
    | none => s
    | some t =>
      match c.settle none s.db (t.basis - t.costs) b t.foundBy with
      | .ok (_, db') => finish { s with db := db' } b
      | .error _ => finish s b
  | .fail b => finish s b
  | .restart => { s with tasks := Keyed.empty }

/-- Only `distribute` takes costs and writes credits; amounts and fees are not negative. -/
def queryOk : Op → Prop
  | .takeCostsForBlock _ _ => False
  | .distributeBlockCredits _ _ => False
  | .recordTxCost _ _ fee => 0 ≤ fee
  | .recordBlock _ _ reward actual _ _ => 0 ≤ actual.getD reward
  | _ => True

/-- A block is distributed when it has no credit rows; a share has a difficulty. -/
def ok (s : Distributor) : DistributorOp → Prop
  | .query op => queryOk op
  | .recordShare _ _ difficulty _ _ => 0 ≤ difficulty
  | .take b => s.db.creditsOf b = []
  | _ => True

/-- The costs recovered now replace the block's stamp, or the stamp an earlier call left on it
    does not change the floor. -/
def rewritesStamp (c : PplnsCalculator) (s : Distributor) : DistributorOp → Prop
  | .take b => ∀ r ∈ s.db.blocks.get? b,
      0 < (PoolDb.takeable ((PoolDb.distributionBasis r).tdiv 50) 0 s.db.unrecovered).1 ∨
        c.owed (PoolDb.distributionBasis r) r.costsRecovered
          = c.owed (PoolDb.distributionBasis r) 0
  | _ => True

/-- Whenever a block has credit rows, they add up to the floor. -/
def BooksBalance (c : PplnsCalculator) (s : Distributor) : Prop :=
  ∀ b r, s.db.blocks.get? b = some r → s.db.creditsOf b ≠ [] →
    ((s.db.creditsOf b).map Prod.snd).sum = c.owed (PoolDb.distributionBasis r) r.costsRecovered

/-- The inputs a call of `distribute` amounts to. -/
def callOf (fault : Option DistributeCall) (b : BlockId) : List DistributorOp :=
  match fault with
  | none => [.take b, .credit b]
  | some .takeCosts => []
  | some .lookup => [.take b, .fail b]
  | some .credit => [.take b, .fail b]

end Distributor

namespace PoolDb

/-! ## What the other queries leave -/

/-- The two figures of a block that its books depend on: basis and stamp. -/
def stampOf (db : PoolDb) (b : BlockId) : Option (ℤ × ℤ) :=
  (db.blocks.get? b).map (fun r => (distributionBasis r, r.costsRecovered))

/-- Block `b` keeps its books, or ends up without credit rows. -/
def BookKept (db db' : PoolDb) (b : BlockId) : Prop :=
  (db'.creditsOf b = db.creditsOf b ∧ db'.stampOf b = db.stampOf b) ∨
    (db'.creditsOf b = [] ∧ (db.creditsOf b ≠ [] ∨ db.stampOf b = none))

theorem stampOf_congr {db db' : PoolDb} (h : db'.blocks = db.blocks) (b : BlockId) :
    db'.stampOf b = db.stampOf b := by
  unfold stampOf
  rw [h]

/-- A status flip is not in the books. -/
theorem stampOf_updateBlockStatus (db : PoolDb) (blockId : BlockId) (status : BlockStatus)
    (b : BlockId) : (db.updateBlockStatus blockId status).stampOf b = db.stampOf b := by
  simp only [stampOf, updateBlockStatus, Auto.get?_modify]
  split
  · cases db.blocks.get? b <;> rfl
  · rfl

/-- Re-queueing clears the stamp of its block. -/
theorem stampOf_requeueCosts (db : PoolDb) (blockId : BlockId) (x : ℤ) (b : BlockId) :
    (db.requeueCosts blockId x).stampOf b
      = if 0 < x ∧ b = blockId then (db.stampOf b).map (fun p => (p.1, 0)) else db.stampOf b := by
  unfold requeueCosts
  by_cases hx : 0 < x
  · rw [if_pos hx]
    by_cases hb : b = blockId
    · simp only [stampOf, Auto.get?_modify, hx, hb, and_self, if_true]
      cases db.blocks.get? blockId <;> rfl
    · simp only [stampOf, Auto.get?_modify, hb, and_false, if_false]
  · simp only [hx, false_and, if_false]

theorem bookKept_reverse {db db' : PoolDb} {blockId : BlockId} {out : Option (ℤ × ℤ)}
    (h : db.reverseBlockCreditsPrecise blockId = .ok (out, db')) (b : BlockId) :
    BookKept db db' b := by
  rcases reverseBlockCreditsPrecise_cases h with ⟨-, -, rfl⟩ | ⟨hne, -, r, -, rfl⟩
  · exact .inl ⟨rfl, rfl⟩
  · obtain ⟨bal, cl, hframe⟩ := reverseRows_frame blockId db (db.creditsByMiner blockId)
    have htable : (((reverseRows blockId db (db.creditsByMiner blockId)).deleteBlockCredits
        blockId).requeueCosts blockId r.costsRecovered).blockCredits
          = db.blockCredits.filter (fun k _ => k.1 != blockId) := by
      rw [(requeueCosts_tables _ _ _).2.1, hframe]
      rfl
    have hcr := creditsOf_filter htable b
    by_cases hb : b = blockId
    · rw [if_pos hb] at hcr
      exact .inr ⟨hcr, .inl (hb ▸ hne)⟩
    · rw [if_neg hb] at hcr
      refine .inl ⟨hcr, ?_⟩
      rw [stampOf_requeueCosts, if_neg (fun h => hb h.2), hframe]
      rfl

/-- **Other queries keep the books**, or remove the credit rows altogether. -/
theorem bookKept_step {db : PoolDb} {op : Op} (hop : Distributor.queryOk op)
    (hrec : ∀ b, db.creditsOf b ≠ [] → db.stampOf b ≠ none) (b : BlockId) :
    BookKept db (db.step op) b := by
  by_cases hw : op.writes .blocks = false ∧ op.writes .blockCredits = false
  · exact .inl ⟨creditsOf_congr (step_same db op hw.2) b, stampOf_congr (step_same db op hw.1) b⟩
  refine step_induction (P := fun db' => BookKept db db' b) (.inl ⟨rfl, rfl⟩) fun db' hx => ?_
  cases op with
  | recordBlock height hash reward actual foundBy luck =>
    obtain ⟨n, hr⟩ := map_snd_ok hx
    obtain ⟨r, -, -, -, rfl⟩ := costs_recordBlock hr
    by_cases hb : b = db.blocks.next
    · -- the id is new, so no credit row names it
      have hnone : db.stampOf b = none := by
        unfold stampOf
        rw [hb, Auto.get?_next]
        rfl
      refine .inr ⟨?_, .inr hnone⟩
      by_contra hne
      exact hrec b hne hnone
    · refine .inl ⟨rfl, ?_⟩
      simp only [stampOf, Auto.get?_insert, if_neg hb]
  | updateBlockStatus blockId status =>
    cases hx
    exact .inl ⟨rfl, stampOf_updateBlockStatus db blockId status b⟩
  | distributeBlockCredits blockId credits => cases hop
  | takeCostsForBlock blockId cap => cases hop
  | reverseBlockCreditsPrecise blockId =>
    obtain ⟨out, hr⟩ := map_snd_ok hx
    exact bookKept_reverse hr b
  | orphanBlock blockId reward =>
    obtain ⟨out, hr⟩ := map_snd_ok hx
    have hflip : ∀ db₁ : PoolDb, BookKept db db₁ b →
        BookKept db (db₁.updateBlockStatus blockId .orphaned) b := by
      intro db₁ h₁
      unfold BookKept
      rw [stampOf_updateBlockStatus]
      exact h₁
    rcases orphanBlock_cases hr with ⟨-, rfl⟩ | ⟨-, db₁, h₁, rfl⟩
    · apply hflip
      refine .inl ⟨creditsOf_congr ?_ b, stampOf_congr ?_ b⟩
      · exact same_reverseProportionally (t := .blockCredits) db reward (by decide)
      · exact same_reverseProportionally (t := .blocks) db reward (by decide)
    · exact hflip _ (bookKept_reverse h₁ b)
  | _ => exact absurd ⟨rfl, rfl⟩ hw

/-- What is re-queued was recovered, so it is positive. -/
theorem fees_requeueCosts {db : PoolDb} (h : ∀ r ∈ db.poolTxCosts.values, 0 ≤ r.fee)
    (blockId : BlockId) (x : ℤ) :
    ∀ r ∈ (db.requeueCosts blockId x).poolTxCosts.values, 0 ≤ r.fee := by
  unfold requeueCosts
  split
  · rename_i hpos
    intro r hr
    rcases List.mem_append.1 (Auto.values_insert _ _ ▸ hr) with hr | hr
    · exact h r hr
    · rw [List.mem_singleton.1 hr]
      exact hpos.le
  · exact h

theorem fees_reverse {db db' : PoolDb} (h : ∀ r ∈ db.poolTxCosts.values, 0 ≤ r.fee)
    {blockId : BlockId} {out : Option (ℤ × ℤ)}
    (hx : db.reverseBlockCreditsPrecise blockId = .ok (out, db')) :
    ∀ r ∈ db'.poolTxCosts.values, 0 ≤ r.fee := by
  rcases costs_reverse hx with ⟨-, rfl⟩ | ⟨b, -, hcosts, -⟩
  · exact h
  · rw [hcosts]
    exact fees_requeueCosts h blockId b.costsRecovered

theorem fees_step {db : PoolDb} {op : Op} (hop : Distributor.queryOk op)
    (h : ∀ r ∈ db.poolTxCosts.values, 0 ≤ r.fee) :
    ∀ r ∈ (db.step op).poolTxCosts.values, 0 ≤ r.fee := by
  by_cases hw : op.writes .poolTxCosts = false
  · have hsame : (db.step op).poolTxCosts = db.poolTxCosts := step_same db op hw
    rw [hsame]
    exact h
  refine step_induction (P := fun db' => ∀ r ∈ db'.poolTxCosts.values, 0 ≤ r.fee) h
    fun db' hx => ?_
  cases op with
  | recordTxCost kind reference fee =>
    cases hx
    intro r hr
    rcases List.mem_append.1 (Auto.values_insert _ _ ▸ hr) with hr | hr
    · exact h r hr
    · rw [List.mem_singleton.1 hr]
      exact hop
  | takeCostsForBlock blockId cap => cases hop
  | reverseBlockCreditsPrecise blockId =>
    obtain ⟨out, hr⟩ := map_snd_ok hx
    exact fees_reverse h hr
  | orphanBlock blockId reward =>
    obtain ⟨out, hr⟩ := map_snd_ok hx
    rcases orphanBlock_cases hr with ⟨-, rfl⟩ | ⟨-, db₁, h₁, rfl⟩
    · show ∀ r ∈ (db.reverseProportionally reward).poolTxCosts.values, 0 ≤ r.fee
      rw [(costs_reverseProportionally db reward).1]
      exact h
    · have hfees := fees_reverse h h₁
      exact hfees
  | distributeBlockCredits blockId credits => cases hop
  | _ => exact absurd rfl hw

theorem basis_reverse {db db' : PoolDb} (h : ∀ b x, db.stampOf b = some x → 0 ≤ x.1)
    {blockId : BlockId} {out : Option (ℤ × ℤ)}
    (hx : db.reverseBlockCreditsPrecise blockId = .ok (out, db')) :
    ∀ b x, db'.stampOf b = some x → 0 ≤ x.1 := by
  rcases costs_reverse hx with ⟨-, rfl⟩ | ⟨r, -, -, hblocks⟩
  · exact h
  · intro b x hst
    rw [stampOf_congr hblocks, stampOf_requeueCosts] at hst
    split at hst
    · obtain ⟨y, hy, rfl⟩ := Option.map_eq_some_iff.1 hst
      exact h b y hy
    · exact h b x hst

/-- No block pays out less than nothing. -/
theorem basis_step {db : PoolDb} {op : Op} (hop : Distributor.queryOk op)
    (h : ∀ b x, db.stampOf b = some x → 0 ≤ x.1) :
    ∀ b x, (db.step op).stampOf b = some x → 0 ≤ x.1 := by
  by_cases hw : op.writes .blocks = false
  · have hsame : (db.step op).blocks = db.blocks := step_same db op hw
    intro b x hst
    rw [stampOf_congr hsame] at hst
    exact h b x hst
  refine step_induction (P := fun db' => ∀ b x, db'.stampOf b = some x → 0 ≤ x.1) h
    fun db' hx => ?_
  cases op with
  | recordBlock height hash reward actual foundBy luck =>
    obtain ⟨n, hr⟩ := map_snd_ok hx
    obtain ⟨r, -, -, hbasis, rfl⟩ := costs_recordBlock hr
    intro b x hst
    simp only [stampOf, Auto.get?_insert] at hst
    split at hst
    · obtain rfl := Option.some.inj hst
      show 0 ≤ r.actualReward.getD r.reward
      rw [hbasis]
      exact hop
    · exact h b x hst
  | updateBlockStatus blockId status =>
    cases hx
    intro b x hst
    rw [stampOf_updateBlockStatus] at hst
    exact h b x hst
  | takeCostsForBlock blockId cap => cases hop
  | reverseBlockCreditsPrecise blockId =>
    obtain ⟨out, hr⟩ := map_snd_ok hx
    exact basis_reverse h hr
  | orphanBlock blockId reward =>
    obtain ⟨out, hr⟩ := map_snd_ok hx
    intro b x hst
    rcases orphanBlock_cases hr with ⟨-, rfl⟩ | ⟨-, db₁, h₁, rfl⟩
    · rw [stampOf_updateBlockStatus,
        stampOf_congr (costs_reverseProportionally db reward).2] at hst
      exact h b x hst
    · rw [stampOf_updateBlockStatus] at hst
      have hbasis := basis_reverse h h₁
      exact hbasis b x hst
  | _ => exact absurd rfl hw

/-! ## What a distribution does -/

/-- A take replaces the stamp when it took something. -/
theorem stampOf_take (db : PoolDb) (blockId : BlockId) (cap : ℤ) (b : BlockId) :
    (db.takeCostsForBlock blockId cap).2.stampOf b =
      if b = blockId ∧ 0 < (takeable cap 0 db.unrecovered).1 then
        (db.stampOf b).map (fun p => (p.1, (takeable cap 0 db.unrecovered).1))
      else db.stampOf b := by
  rw [(takeCostsForBlock_spec db blockId cap).2]
  by_cases ht : 0 < (takeable cap 0 db.unrecovered).1
  · simp only [stampOf, ht, and_true, if_true, Auto.get?_modify]
    split
    · cases db.blocks.get? b <;> rfl
    · rfl
  · simp only [stampOf, ht, and_false, if_false]

theorem take_tables (db : PoolDb) (blockId : BlockId) (cap : ℤ) :
    (db.takeCostsForBlock blockId cap).2.blockCredits = db.blockCredits ∧
      (db.takeCostsForBlock blockId cap).2.shares = db.shares := by
  rw [(takeCostsForBlock_spec db blockId cap).2]
  exact ⟨rfl, rfl⟩

theorem fees_take {db : PoolDb} (h : ∀ r ∈ db.poolTxCosts.values, 0 ≤ r.fee) (blockId : BlockId)
    (cap : ℤ) : ∀ r ∈ (db.takeCostsForBlock blockId cap).2.poolTxCosts.values, 0 ≤ r.fee := by
  rw [(takeCostsForBlock_spec db blockId cap).2]
  intro r hr
  obtain ⟨i, r₀, hr₀, rfl⟩ := Auto.mem_values_modifyAll hr
  have := h r₀ (Auto.mem_values_of_get? hr₀)
  split <;> exact this

/-- A take never exceeds the reward it is recovered from. -/
theorem taken_le (db : PoolDb) {basis : ℤ} (h : 0 ≤ basis) :
    (takeable (basis.tdiv 50) 0 db.unrecovered).1 ≤ basis := by
  have hcap : 0 ≤ basis.tdiv 50 := Int.tdiv_nonneg h (by decide)
  have hle := takeable_le hcap db.unrecovered
  have : basis.tdiv 50 ≤ basis := Int.tdiv_le_self 50 h
  omega

end PoolDb

namespace PplnsCalculator

variable {c : PplnsCalculator}

/-- **What the rest of a call does**: nothing, or credit rows that add up to the floor. -/
theorem settle_spec {db db' : PoolDb} (hshares : ∀ s ∈ db.shares.values, 0 ≤ s.difficulty)
    {net : ℤ} (hnet : 0 ≤ net) {b : BlockId} {worker : WorkerId} {rs : List PplnsReward}
    (h : c.settle none db net b worker = .ok (rs, db')) :
    db' = db ∨ ∃ credits, PoolDb.distributeBlockCredits b db credits = .ok db' ∧
      (credits.map Prod.snd).sum = ⌊(net : ℚ) * (1 - c.poolFee)⌋ := by
  simp only [settle, reduceCtorEq, if_false, bind, Except.bind] at h
  split at h
  · cases h
  · rename_i rs' hrs
    split at h
    · cases h
    · rename_i db₁ hcommit
      cases h
      unfold commit at hcommit
      split at hcommit
      · cases hcommit
        exact .inl rfl
      · rename_i hne
        rcases sum_credits_rewards hshares hnet hrs with hnil | hsum
        · exact absurd hnil hne
        · exact .inr ⟨_, hcommit, by rw [hsum, distributable_eq_floor c hnet]⟩

end PplnsCalculator

namespace Distributor

variable {c : PplnsCalculator}

/-! ## The invariant -/

/-- Figures have their sign, credit rows name recorded blocks and balance, and a task under way
    holds costs that leave the same floor as the stamp. -/
structure BooksInv (c : PplnsCalculator) (s : Distributor) : Prop where
  fees : ∀ r ∈ s.db.poolTxCosts.values, 0 ≤ r.fee
  basis : ∀ b x, s.db.stampOf b = some x → 0 ≤ x.1
  shares : ∀ r ∈ s.db.shares.values, 0 ≤ r.difficulty
  recorded : ∀ b, s.db.creditsOf b ≠ [] → s.db.stampOf b ≠ none
  balance : ∀ b x, s.db.creditsOf b ≠ [] → s.db.stampOf b = some x →
    ((s.db.creditsOf b).map Prod.snd).sum = c.owed x.1 x.2
  task : ∀ b t, s.tasks.get? b = some t → s.db.creditsOf b = [] ∧ 0 ≤ t.basis - t.costs ∧
    ∃ x, s.db.stampOf b = some x ∧ t.basis = x.1 ∧ c.owed t.basis t.costs = c.owed x.1 x.2

theorem BooksInv.booksBalance {s : Distributor} (h : BooksInv c s) : BooksBalance c s := by
  intro b r hr hne
  have hst : s.db.stampOf b = some (PoolDb.distributionBasis r, r.costsRecovered) := by
    simp [PoolDb.stampOf, hr]
  exact h.balance b _ hne hst

theorem booksInv_empty (c : PplnsCalculator) : BooksInv c empty := by
  refine ⟨?_, ?_, ?_, ?_, ?_, ?_⟩
  · intro r hr
    cases hr
  · intro b x hx
    cases hx
  · intro r hr
    cases hr
  · intro b hne
    exact absurd rfl hne
  · intro b x hne
    exact absurd rfl hne
  · intro b t ht
    cases ht

/-- Databases that keep every book, under the same tasks or fewer. -/
theorem BooksInv.of_kept {s s' : Distributor} (h : BooksInv c s)
    (hfees : ∀ r ∈ s'.db.poolTxCosts.values, 0 ≤ r.fee)
    (hbasis : ∀ b x, s'.db.stampOf b = some x → 0 ≤ x.1)
    (hshares : ∀ r ∈ s'.db.shares.values, 0 ≤ r.difficulty)
    (hkept : ∀ b, PoolDb.BookKept s.db s'.db b)
    (htasks : ∀ b t, s'.tasks.get? b = some t → s.tasks.get? b = some t) : BooksInv c s' := by
  refine ⟨hfees, hbasis, hshares, fun b hne => ?_, fun b x hne hst => ?_, fun b t ht => ?_⟩
  · rcases hkept b with ⟨hcr, hst⟩ | ⟨hnil, -⟩
    · rw [hst]
      exact h.recorded b (hcr ▸ hne)
    · exact absurd hnil hne
  · rcases hkept b with ⟨hcr, hst'⟩ | ⟨hnil, -⟩
    · rw [hcr]
      exact h.balance b x (hcr ▸ hne) (hst' ▸ hst)
    · exact absurd hnil hne
  · obtain ⟨hnil, hnet, x, hx, hrest⟩ := h.task b t (htasks b t ht)
    rcases hkept b with ⟨hcr, hst⟩ | ⟨-, hne | hnone⟩
    · exact ⟨hcr.trans hnil, hnet, x, hst.trans hx, hrest⟩
    · exact absurd hnil hne
    · rw [hnone] at hx
      cases hx

theorem BooksInv.finish {s : Distributor} (h : BooksInv c s) (b : BlockId) :
    BooksInv c (s.finish b) := by
  refine h.of_kept h.fees h.basis h.shares (fun _ => .inl ⟨rfl, rfl⟩) fun b' t ht => ?_
  simp only [Distributor.finish, Keyed.get?_filter] at ht
  exact (Option.filter_eq_some_iff.1 ht).1

/-- **What a take does**: nothing, or the costs go with the new task. -/
theorem take_cases (c : PplnsCalculator) (s : Distributor) (b : BlockId) :
    step c s (.take b) = s ∨ ∃ r tasks, s.db.blocks.get? b = some r ∧
      s.tasks.insert? b ⟨PoolDb.distributionBasis r, r.foundBy,
        (PoolDb.takeable ((PoolDb.distributionBasis r).tdiv 50) 0 s.db.unrecovered).1⟩
          = some tasks ∧
      step c s (.take b)
        = ⟨(s.db.takeCostsForBlock b ((PoolDb.distributionBasis r).tdiv 50)).2, tasks⟩ := by
  cases hr : s.db.blocks.get? b with
  | none =>
    left
    simp only [step, hr]
  | some r =>
    cases ht : s.tasks.insert? b ⟨PoolDb.distributionBasis r, r.foundBy,
        (PoolDb.takeable ((PoolDb.distributionBasis r).tdiv 50) 0 s.db.unrecovered).1⟩ with
    | none =>
      left
      simp only [step, hr, (PoolDb.takeCostsForBlock_spec _ _ _).1, ht]
    | some tasks =>
      refine .inr ⟨r, tasks, rfl, ht, ?_⟩
      simp only [step, hr, (PoolDb.takeCostsForBlock_spec _ _ _).1, ht]

/-- **What the rest of a call does**: nothing, the end of the task, or its credits. -/
theorem credit_cases {s : Distributor} (hshares : ∀ r ∈ s.db.shares.values, 0 ≤ r.difficulty)
    {b : BlockId} (hnet : ∀ t, s.tasks.get? b = some t → 0 ≤ t.basis - t.costs) :
    step c s (.credit b) = s ∨ step c s (.credit b) = s.finish b ∨
      ∃ t db' credits, s.tasks.get? b = some t ∧
        PoolDb.distributeBlockCredits b s.db credits = .ok db' ∧
        (credits.map Prod.snd).sum = c.owed t.basis t.costs ∧
        step c s (.credit b) = finish { s with db := db' } b := by
  cases ht : s.tasks.get? b with
  | none =>
    left
    simp only [step, ht]
  | some t =>
    right
    cases hx : c.settle none s.db (t.basis - t.costs) b t.foundBy with
    | error e =>
      left
      simp only [step, ht, hx]
    | ok out =>
      obtain ⟨rs, db'⟩ := out
      rcases PplnsCalculator.settle_spec hshares (hnet t ht) hx with rfl | ⟨credits, hdist, hsum⟩
      · left
        simp only [step, ht, hx]
      · refine .inr ⟨t, db', credits, rfl, hdist, hsum, ?_⟩
        simp only [step, ht, hx]

/-- A distribution that takes its costs leaves a stamp with the same floor. -/
theorem booksInv_take {s : Distributor} (h : BooksInv c s) {b : BlockId}
    (hok : s.db.creditsOf b = []) (hgood : rewritesStamp c s (.take b)) :
    BooksInv c (step c s (.take b)) := by
  rcases take_cases c s b with heq | ⟨r, tasks, hr, htasks, heq⟩
  · rw [heq]
    exact h
  have hst : s.db.stampOf b = some (PoolDb.distributionBasis r, r.costsRecovered) := by
    simp [PoolDb.stampOf, hr]
  have hrewrites := hgood r hr
  have hnonneg := PoolDb.taken_nonneg h.fees ((PoolDb.distributionBasis r).tdiv 50)
  have hbasis : 0 ≤ PoolDb.distributionBasis r := h.basis b _ hst
  have hle := PoolDb.taken_le s.db hbasis
  have hstamp := PoolDb.stampOf_take s.db b ((PoolDb.distributionBasis r).tdiv 50)
  obtain ⟨hcredits, hshares⟩ := PoolDb.take_tables s.db b ((PoolDb.distributionBasis r).tdiv 50)
  have hfees := PoolDb.fees_take h.fees b ((PoolDb.distributionBasis r).tdiv 50)
  have hcr := PoolDb.creditsOf_congr hcredits
  rw [heq]
  generalize (s.db.takeCostsForBlock b ((PoolDb.distributionBasis r).tdiv 50)).2 = db' at *
  generalize (PoolDb.takeable ((PoolDb.distributionBasis r).tdiv 50) 0 s.db.unrecovered).1
    = taken at *
  have hother : ∀ b', b' ≠ b → db'.stampOf b' = s.db.stampOf b' := by
    intro b' hb
    rw [hstamp, if_neg (fun hx => hb hx.1)]
  refine ⟨hfees, fun b' x hx => ?_, hshares ▸ h.shares, fun b' hne => ?_, fun b' x hne hx => ?_,
    fun b' t ht => ?_⟩
  · rw [hstamp] at hx
    split at hx
    · obtain ⟨y, hy, rfl⟩ := Option.map_eq_some_iff.1 hx
      exact h.basis b' y hy
    · exact h.basis b' x hx
  · rw [hcr] at hne
    have hb : b' ≠ b := by
      rintro rfl
      exact hne hok
    rw [hother b' hb]
    exact h.recorded b' hne
  · rw [hcr] at hne ⊢
    have hb : b' ≠ b := by
      rintro rfl
      exact hne hok
    rw [hother b' hb] at hx
    exact h.balance b' x hne hx
  · rw [Keyed.get?_insert? htasks] at ht
    rw [hcr]
    split at ht
    · rename_i hb
      subst hb
      cases ht
      refine ⟨hok, by simp only; omega, ?_⟩
      rw [hstamp, hst]
      by_cases hpos : 0 < taken
      · exact ⟨_, if_pos ⟨rfl, hpos⟩, rfl, rfl⟩
      · -- nothing was taken, and the stamp of earlier calls stays
        refine ⟨_, if_neg (fun hx => hpos hx.2), rfl, ?_⟩
        have hzero : taken = 0 := by omega
        rcases hrewrites with htook | hfloor
        · exact absurd htook hpos
        · simp only [hzero]
          exact hfloor.symm
    · rename_i hb
      rw [hother b' hb]
      exact h.task b' t ht

/-- Credits are written under a stamp with their own floor. -/
theorem booksInv_credit {s : Distributor} (h : BooksInv c s) (b : BlockId) :
    BooksInv c (step c s (.credit b)) := by
  rcases credit_cases h.shares fun t ht => (h.task b t ht).2.1 with
    heq | heq | ⟨t, db', credits, ht, hdist, hsum, heq⟩
  · rw [heq]
    exact h
  · rw [heq]
    exact h.finish b
  obtain ⟨hnil, hnet, x, hx, hbasis, howed⟩ := h.task b t ht
  have hcr := PoolDb.creditsOf_distribute hdist
  obtain ⟨bal, cr, hdb, -⟩ := PoolDb.distributeBlockCredits_spec hdist
  have hst : ∀ b', db'.stampOf b' = s.db.stampOf b' := by
    rw [hdb]
    exact fun _ => rfl
  rw [heq]
  refine ⟨?_, fun b' y hy => h.basis b' y (hst b' ▸ hy), ?_, fun b' hne => ?_,
    fun b' y hne hy => ?_, fun b' t' ht' => ?_⟩
  · show ∀ r ∈ db'.poolTxCosts.values, 0 ≤ r.fee
    rw [hdb]
    exact h.fees
  · show ∀ r ∈ db'.shares.values, 0 ≤ r.difficulty
    rw [hdb]
    exact h.shares
  · show db'.stampOf b' ≠ none
    rw [hst]
    by_cases hb : b' = b
    · rw [hb, hx]
      simp
    · have hne' : db'.creditsOf b' ≠ [] := hne
      rw [hcr, if_neg hb, List.append_nil] at hne'
      exact h.recorded b' hne'
  · have hne' : db'.creditsOf b' ≠ [] := hne
    have hy' : db'.stampOf b' = some y := hy
    show ((db'.creditsOf b').map Prod.snd).sum = c.owed y.1 y.2
    rw [hst] at hy'
    rw [hcr] at hne' ⊢
    by_cases hb : b' = b
    · subst hb
      rw [hx] at hy'
      cases hy'
      rw [if_pos rfl, hnil, List.nil_append, hsum, howed]
    · rw [if_neg hb, List.append_nil] at hne' ⊢
      exact h.balance b' y hne' hy'
  · simp only [finish, Keyed.get?_filter] at ht'
    obtain ⟨ht', hb⟩ := Option.filter_eq_some_iff.1 ht'
    have hb : b' ≠ b := by simpa using hb
    have htask := h.task b' t' ht'
    show db'.creditsOf b' = [] ∧ 0 ≤ t'.basis - t'.costs ∧ ∃ x, db'.stampOf b' = some x ∧ _
    rw [hcr, hst, if_neg hb, List.append_nil]
    exact htask

theorem booksInv_step {s : Distributor} {e : DistributorOp} (h : BooksInv c s) (hok : ok s e)
    (hgood : rewritesStamp c s e) : BooksInv c (step c s e) := by
  cases e with
  | query op =>
    have hshares : (s.db.step op).shares = s.db.shares := by
      refine PoolDb.step_same s.db op (t := .shares) ?_
      cases op <;> rfl
    refine h.of_kept (PoolDb.fees_step hok h.fees) (PoolDb.basis_step hok h.basis) ?_
      (PoolDb.bookKept_step hok h.recorded) fun _ _ ht => ht
    show ∀ r ∈ (s.db.step op).shares.values, 0 ≤ r.difficulty
    rw [hshares]
    exact h.shares
  | recordShare workerId jobId difficulty isBlock sessionId =>
    unfold step
    simp only
    split
    · rename_i n db' hx
      obtain rfl := PoolDb.recordShare_ok hx
      refine h.of_kept h.fees h.basis ?_ (fun _ => .inl ⟨rfl, rfl⟩) fun _ _ ht => ht
      intro r hr
      rcases List.mem_append.1 (Auto.values_insert _ _ ▸ hr) with hr | hr
      · exact h.shares r hr
      · rw [List.mem_singleton.1 hr]
        exact hok
    · exact h
  | take b => exact booksInv_take h hok hgood
  | credit b => exact booksInv_credit h b
  | fail b => exact h.finish b
  | restart =>
    refine h.of_kept h.fees h.basis h.shares (fun _ => .inl ⟨rfl, rfl⟩) fun b t ht => ?_
    cases ht

/-! ## Runs -/

/-- **Books balance along every run** in which each distribution recovers some cost or meets a
    stamp that does not change the floor. -/
theorem books_balance (c : PplnsCalculator) (es : List DistributorOp)
    (hok : Allowed (step c) ok empty es) (hgood : Allowed (step c) (rewritesStamp c) empty es) :
    Always (step c) (BooksBalance c) empty es := by
  have hrun : Always (step c) (BooksInv c) empty es := by
    have hboth := hok.and hgood
    exact always_of_allowed (fun s e h hse => booksInv_step h hse.1 hse.2) (booksInv_empty c) hboth
  exact hrun.imp fun _ h => h.booksBalance

/-- The condition is exact for a call that credits: with credit rows that balance after it, the
    call recovered some cost or met a stamp with the same floor. -/
theorem rewritesStamp_of_balance {s : Distributor} (h : BooksInv c s) {b : BlockId}
    (hok : s.db.creditsOf b = []) (hfree : s.tasks.get? b = none)
    (hcredited : (run (step c) s [.take b, .credit b]).db.creditsOf b ≠ [])
    (hbal : BooksBalance c (run (step c) s [.take b, .credit b])) :
    rewritesStamp c s (.take b) := by
  intro r hr
  by_cases hpos : 0 < (PoolDb.takeable ((PoolDb.distributionBasis r).tdiv 50) 0
      s.db.unrecovered).1
  · exact .inl hpos
  right
  have hget : s.db.blocks.get? b = some r := hr
  have hst : s.db.stampOf b = some (PoolDb.distributionBasis r, r.costsRecovered) := by
    simp [PoolDb.stampOf, hget]
  have hbasis : 0 ≤ PoolDb.distributionBasis r := h.basis b _ hst
  have hnonneg := PoolDb.taken_nonneg h.fees ((PoolDb.distributionBasis r).tdiv 50)
  simp only [run_cons, run_nil] at hcredited hbal
  rcases take_cases c s b with heq | ⟨r', tasks, hr', htasks, heq⟩
  · -- without a task the rest of the call does nothing
    rw [heq] at hcredited
    simp only [step, hfree] at hcredited
    exact absurd hok hcredited
  rw [hget] at hr'
  cases hr'
  have htake := PoolDb.take_tables s.db b ((PoolDb.distributionBasis r).tdiv 50)
  have hstamp := PoolDb.stampOf_take s.db b ((PoolDb.distributionBasis r).tdiv 50) b
  rw [if_neg (fun hx => hpos hx.2), hst] at hstamp
  have hnil := PoolDb.creditsOf_congr htake.1 b
  rw [hok] at hnil
  have htask := Keyed.get?_insert? htasks b
  rw [if_pos rfl] at htask
  rw [heq] at hcredited hbal
  have hnet : ∀ t, tasks.get? b = some t → 0 ≤ t.basis - t.costs := by
    intro t ht
    rw [htask] at ht
    cases ht
    simp only
    omega
  rcases credit_cases (c := c) (s := ⟨_, tasks⟩) (htake.2 ▸ h.shares) hnet with
    hc | hc | ⟨t, db', credits, ht, hdist, hsum, hc⟩
  · rw [hc] at hcredited
    exact absurd hnil hcredited
  · rw [hc] at hcredited
    exact absurd hnil hcredited
  · rw [hc] at hcredited hbal
    have hcr := PoolDb.creditsOf_distribute hdist b
    rw [if_pos rfl, hnil, List.nil_append] at hcr
    obtain ⟨bal, cr, hdb, -⟩ := PoolDb.distributeBlockCredits_spec hdist
    have hst' : db'.stampOf b = some (PoolDb.distributionBasis r, r.costsRecovered) := by
      rw [hdb]
      exact hstamp
    obtain ⟨r₁, hr₁, hfig⟩ := Option.map_eq_some_iff.1 hst'
    have hfloor := hbal b r₁ hr₁ hcredited
    have htask' : tasks.get? b = some t := ht
    rw [htask] at htask'
    cases htask'
    have hzero : (PoolDb.takeable ((PoolDb.distributionBasis r).tdiv 50) 0
        s.db.unrecovered).1 = 0 := by omega
    simp only [Prod.mk.injEq] at hfig
    have hrows : ((finish { db := db', tasks := tasks } b).db.creditsOf b) = credits := hcr
    rw [hrows, hsum, hfig.1, hfig.2] at hfloor
    rw [← hfloor, hzero]

/-- A call of `distribute` is a take and the rest of the call. -/
theorem distribute_run (c : PplnsCalculator) (fault : Option DistributeCall) (s : Distributor)
    {b : BlockId} {r : Block} (hr : s.db.blocks.get? b = some r) (hfree : s.tasks.get? b = none) :
    (c.distribute fault s.db (PoolDb.distributionBasis r) b r.foundBy).2
      = (run (step c) s (callOf fault b)).db := by
  have hinsert : ∃ tasks, s.tasks.insert? b ⟨PoolDb.distributionBasis r, r.foundBy,
      (s.db.takeCostsForBlock b ((PoolDb.distributionBasis r).tdiv 50)).1⟩ = some tasks := by
    rw [← Option.ne_none_iff_exists']
    intro hn
    exact Keyed.insert?_eq_none_iff.1 hn hfree
  obtain ⟨tasks, htasks⟩ := hinsert
  have htask := Keyed.get?_insert? htasks b
  rw [if_pos rfl] at htask
  cases fault with
  | none =>
    simp only [PplnsCalculator.distribute, callOf, run_cons, run_nil, step, hr, htasks, htask,
      reduceCtorEq, if_false]
    cases c.settle none (s.db.takeCostsForBlock b ((PoolDb.distributionBasis r).tdiv 50)).2
        (PoolDb.distributionBasis r -
          (s.db.takeCostsForBlock b ((PoolDb.distributionBasis r).tdiv 50)).1) b r.foundBy with
    | ok out => rfl
    | error e => rfl
  | some call =>
    cases call with
    | takeCosts => rfl
    | lookup =>
      simp [PplnsCalculator.distribute, callOf, step, hr, htasks, PplnsCalculator.settle, finish]
    | credit =>
      simp only [PplnsCalculator.distribute, callOf, run_cons, run_nil, step, hr, htasks,
        PplnsCalculator.settle, finish, reduceCtorEq, if_false, Option.some.injEq, if_true]
      cases hx : c.rewards (s.db.takeCostsForBlock b ((PoolDb.distributionBasis r).tdiv 50)).2
        (PoolDb.distributionBasis r -
          (s.db.takeCostsForBlock b ((PoolDb.distributionBasis r).tdiv 50)).1) r.foundBy <;> rfl

/-- A window of a hundred shares and no fee. -/
def feeless : PplnsCalculator := .new 100 0 .pplns

/-- A found block with a queued cost, distributed by one call. -/
def distributedRun : List DistributorOp :=
  [.query (.getOrCreateMiner "t1a"), .query (.getOrCreateWorker 1 "rig"),
   .recordShare 1 "job" 8 true "s1", .query (.recordBlock 100 "00ab" 1000 none 1 none),
   .query (.recordTxCost .shield "opid-1" 10), .take 1, .credit 1]

theorem books_balance_distributedRun :
    (run (step feeless) empty distributedRun).db.creditsOf 1 = [(1, 990)] ∧
      Always (step feeless) (BooksBalance feeless) empty
        distributedRun := by
  have hok : Allowed (step feeless) ok empty distributedRun := by
    refine ⟨trivial, trivial, ?_, ?_, ?_, ?_, trivial, trivial⟩
    · show (0 : ℚ) ≤ 8
      decide
    · show (0 : ℤ) ≤ 1000
      decide
    · show (0 : ℤ) ≤ 10
      decide
    · show (run (step feeless) empty (distributedRun.take 5)).db.creditsOf 1 = []
      decide +kernel
  have hgood : Allowed (step feeless) (rewritesStamp feeless) empty
      distributedRun := by
    refine ⟨trivial, trivial, trivial, trivial, trivial, ?_, trivial, trivial⟩
    intro r hr
    left
    have hcap : PoolDb.distributionBasis r = 1000 := by
      have h : ∀ r ∈ (run (step feeless) empty (distributedRun.take 5)).db.blocks.get? 1,
          PoolDb.distributionBasis r = 1000 := by decide +kernel
      exact h r hr
    rw [hcap]
    decide +kernel
  exact ⟨by decide +kernel, books_balance _ distributedRun hok hgood⟩

/-- The process stops after the first distribution took a cost of 10; the startup sweep distributes
    the block again. -/
def repeatedRun : List DistributorOp :=
  [.query (.getOrCreateMiner "t1a"), .query (.getOrCreateWorker 1 "rig"),
   .recordShare 1 "job" 8 true "s1", .query (.recordBlock 100 "00ab" 1000 none 1 none),
   .query (.recordTxCost .shield "opid-1" 10), .take 1, .restart, .take 1, .credit 1]

/-- The block pays out 1000 under a stamp of 10: the recovered cost is paid to the miners. -/
theorem repeated_distribution_pays_recovered_cost :
    Allowed (step feeless) ok empty repeatedRun ∧
      (run (step feeless) empty repeatedRun).db.creditsOf 1 = [(1, 1000)] ∧
      ((run (step feeless) empty repeatedRun).db.blocks.get? 1).map
        (·.costsRecovered) = some 10 ∧
      ¬ Always (step feeless) (BooksBalance feeless) empty
        repeatedRun := by
  have hcredits : (run (step feeless) empty repeatedRun).db.creditsOf 1
      = [(1, 1000)] := by decide +kernel
  have hstamp : (run (step feeless) empty repeatedRun).db.stampOf 1
      = some (1000, 10) := by decide +kernel
  refine ⟨?_, hcredits, by decide +kernel, fun hA => ?_⟩
  · refine ⟨trivial, trivial, ?_, ?_, ?_, ?_, trivial, ?_, trivial, trivial⟩
    · show (0 : ℚ) ≤ 8
      decide
    · show (0 : ℤ) ≤ 1000
      decide
    · show (0 : ℤ) ≤ 10
      decide
    · show (run (step feeless) empty (repeatedRun.take 5)).db.creditsOf 1 = []
      decide +kernel
    · show (run (step feeless) empty (repeatedRun.take 7)).db.creditsOf 1 = []
      decide +kernel
  · obtain ⟨r, hr, hfig⟩ := Option.map_eq_some_iff.1 hstamp
    have hbal := hA.last 1 r hr (by rw [hcredits]; decide)
    simp only [Prod.mk.injEq] at hfig
    rw [hcredits, hfig.1, hfig.2] at hbal
    exact absurd hbal (by decide +kernel)

end Distributor

end ZcashMiningPool
