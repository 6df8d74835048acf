import ZcashMiningPool.Db.Blocks
import ZcashMiningPool.Ledger.Credits
import ZcashMiningPool.Rewards.Books
import ZcashMiningPool.Rewards.Window

/-!
# The accounting invariant

`check_invariant` of the reconciler compares what the miners hold with what the blocks pay out in
one sum, over the figures of `get_accounting_invariant`.  A distribution rounds block by block.

* `getAccountingInvariant`, `checkInvariant` — the three figures, and the drift.
* `figures_movesFunds` — reserve, confirm, refund and void are in none of the figures.
* `held_eq_credits` — balances less clawbacks are the credit rows, over all miners.
* `DistributionLog` — the distributor beside a record of its calls; `ok` — one call a block, and
  blocks are orphaned with the precise reversal.
* `BlockBooks`, `LogInv` — the invariant: a distributed block holds the floor of what it pays out.

Main result: `LogInv.drift_bounds`, for figures that agree.
-/

set_option autoImplicit false

namespace ZcashMiningPool

open Table Buckets Postings Machine

/-! ## The check -/

namespace PoolDb

/-- `status IN ('pending', 'confirmed')`. -/
def creditedBlocks (db : PoolDb) : List (BlockId × Block) :=
  db.blocks.rows.filter (fun e => e.2.status == .pending || e.2.status == .confirmed)

/-- The rewards of these blocks, less the costs recovered from them. -/
def creditedReward (db : PoolDb) : ℤ :=
  (db.creditedBlocks.map (fun e => distributionBasis e.2 - e.2.costsRecovered)).sum

/-- All balances, in all three buckets. -/
def balancesTotal (db : PoolDb) : ℤ :=
  db.balances.sum (fun _ b => b.pending) + db.balances.sum (fun _ b => b.paying) +
    db.balances.sum (fun _ b => b.paid)

def clawbackTotal (db : PoolDb) : ℤ := db.orphanClawbacks.sum (·.amount)

/-- Three SELECTs outside a transaction: each reads the state it finds. -/
def getAccountingInvariant (atReward atBalances atClawbacks : PoolDb) : ℤ × ℤ × ℤ :=
  (atReward.creditedReward, atBalances.balancesTotal, atClawbacks.clawbackTotal)

end PoolDb

/-- `INVARIANT_DRIFT_DELTA_ALERT_ZATOSHIS`. -/
def invariantDriftDeltaAlertZatoshis : ℤ := 10000000

/-- What a sweep reports of the invariant. -/
structure InvariantReport where
  drift : ℤ
  /-- How far it moved since the previous sweep, when that is worth an alert. -/
  moved : Option ℤ
  deriving DecidableEq, Repr

/-- `previous` is the drift of the previous sweep, when it was computed by the same formula. -/
def checkInvariant (poolFee : ℚ) (figures : ℤ × ℤ × ℤ) (previous : Option ℤ) : InvariantReport :=
  let (reward, balances, clawbacks) := figures
  let distributable := Rounding.trunc ((reward : ℚ) * (1 - poolFee))
  let drift := balances - clawbacks - distributable
  ⟨drift, previous.bind fun prev =>
    if invariantDriftDeltaAlertZatoshis < |drift - prev| then some (drift - prev) else none⟩

/-! ## What all miners hold -/

/-- Reserve, confirm, refund and void. -/
def Op.MovesFunds : Op → Prop
  | .reservePayout _ _ => True
  | .confirmPayout _ _ => True
  | .refundPayout _ => True
  | .voidReorgedPayout _ => True
  | _ => False

/-- What a miner has in its three buckets. -/
def ownedLaw : Account → ℤ
  | .pending => 1
  | .paying => 1
  | .paid => 1
  | _ => 0

/-- What was clawed back from a miner. -/
def clawedLaw : Account → ℤ
  | .clawed => 1
  | _ => 0

namespace PoolDb

/-- Balances less clawbacks. -/
def held (db : PoolDb) : ℤ := db.balancesTotal - db.clawbackTotal

/-- The miners with a row. -/
def holders (db : PoolDb) : List MinerId :=
  db.balances.rows.map Prod.fst ++ db.orphanClawbacks.values.map (·.minerId) ++
    db.blockCredits.rows.map (·.1.2)

theorem sum_books (db : PoolDb) {S : List MinerId} (hS : S.Nodup) (hmem : db.holders ⊆ S)
    (k : Bucket) : (S.map (fun m => db.books m k)).sum = db.balances.sum (fun _ b => b.get k) := by
  have hkey : ∀ m, db.books m k = db.balances.sum (fun m' b => if m' = m then b.get k else 0) :=
    fun m => (Keyed.sum_key db.balances m (fun b => b.get k)).symm
  simp only [hkey]
  refine Keyed.sum_groups db.balances (fun m _ => m) (fun _ b => b.get k) hS fun e he => hmem ?_
  exact List.mem_append_left _ (List.mem_append_left _ (List.mem_map_of_mem he))

theorem sum_clawed (db : PoolDb) {S : List MinerId} (hS : S.Nodup) (hmem : db.holders ⊆ S) :
    (S.map db.clawed).sum = db.orphanClawbacks.sum (·.amount) := by
  refine Keyed.sum_groups db.orphanClawbacks.keyed (fun _ r => r.minerId) (fun _ r => r.amount) hS
    fun e he => hmem ?_
  have hvalue : e.2 ∈ db.orphanClawbacks.values := Auto.mem_values.2 ⟨e.1, he⟩
  exact List.mem_append_left _ (List.mem_append_right _ (List.mem_map_of_mem hvalue))

theorem sum_credited (db : PoolDb) {S : List MinerId} (hS : S.Nodup) (hmem : db.holders ⊆ S) :
    (S.map db.credited).sum = db.blockCredits.sum (fun _ amount => amount) := by
  refine Keyed.sum_groups db.blockCredits (fun k _ => k.2) (fun _ amount => amount) hS
    fun e he => hmem ?_
  exact List.mem_append_right _ (List.mem_map_of_mem (f := fun e => e.1.2) he)

/-- **Miner by miner**: the balances are the sum of what each miner has in its buckets. -/
theorem balancesTotal_eq_sum (db : PoolDb) {S : List MinerId} (hS : S.Nodup)
    (hmem : db.holders ⊆ S) :
    db.balancesTotal = (S.map (fun m => weigh ownedLaw (db.accounts m))).sum := by
  have hone : ∀ m, weigh ownedLaw (db.accounts m)
      = db.books m .pending + db.books m .paying + db.books m .paid := by
    intro m
    simp only [weigh_accounts, ownedLaw, accounts]
    ring
  simp only [hone, List.sum_map_add]
  rw [sum_books db hS hmem, sum_books db hS hmem, sum_books db hS hmem]
  rfl

theorem clawbackTotal_eq_sum (db : PoolDb) {S : List MinerId} (hS : S.Nodup)
    (hmem : db.holders ⊆ S) :
    db.clawbackTotal = (S.map (fun m => weigh clawedLaw (db.accounts m))).sum := by
  have hone : ∀ m, weigh clawedLaw (db.accounts m) = db.clawed m := by
    intro m
    simp only [weigh_accounts, clawedLaw, accounts]
    ring
  simp only [hone]
  exact (sum_clawed db hS hmem).symm

/-- A step that moves funds within the buckets of each miner. -/
theorem balancesTotal_congr {db db' : PoolDb}
    (h : ∀ m, weigh ownedLaw (db'.accounts m) = weigh ownedLaw (db.accounts m)) :
    db'.balancesTotal = db.balancesTotal := by
  have hS : (db.holders ++ db'.holders).dedup.Nodup := List.nodup_dedup _
  rw [balancesTotal_eq_sum db hS fun m hm => List.mem_dedup.2 (List.mem_append_left _ hm),
    balancesTotal_eq_sum db' hS fun m hm => List.mem_dedup.2 (List.mem_append_right _ hm)]
  simp only [h]

/-- A step that claws nothing back. -/
theorem clawbackTotal_congr {db db' : PoolDb}
    (h : ∀ m, weigh clawedLaw (db'.accounts m) = weigh clawedLaw (db.accounts m)) :
    db'.clawbackTotal = db.clawbackTotal := by
  have hS : (db.holders ++ db'.holders).dedup.Nodup := List.nodup_dedup _
  rw [clawbackTotal_eq_sum db hS fun m hm => List.mem_dedup.2 (List.mem_append_left _ hm),
    clawbackTotal_eq_sum db' hS fun m hm => List.mem_dedup.2 (List.mem_append_right _ hm)]
  simp only [h]

theorem balancesTotal_step {db : PoolDb} (h : db.RowsOk) {op : Op}
    (hop : ∀ k ∈ db.movements op, weigh ownedLaw k.unit = 0) :
    (db.step op).balancesTotal = db.balancesTotal :=
  balancesTotal_congr fun m => law_step h op ownedLaw hop m

theorem clawbackTotal_step {db : PoolDb} (h : db.RowsOk) {op : Op}
    (hop : ∀ k ∈ db.movements op, weigh clawedLaw k.unit = 0) :
    (db.step op).clawbackTotal = db.clawbackTotal :=
  clawbackTotal_congr fun m => law_step h op clawedLaw hop m

/-- **Moving funds is in none of the figures.** -/
theorem figures_movesFunds {db : PoolDb} (h : db.RowsOk) {op : Op} (hop : op.MovesFunds) :
    (db.step op).creditedReward = db.creditedReward ∧
      (db.step op).balancesTotal = db.balancesTotal ∧
      (db.step op).clawbackTotal = db.clawbackTotal := by
  have hunit : ∀ k ∈ db.movements op, weigh ownedLaw k.unit = 0 ∧ weigh clawedLaw k.unit = 0 := by
    intro k hk
    cases op with
    | reservePayout a items => rw [List.mem_singleton.1 hk]; decide
    | confirmPayout a txid => rw [List.mem_singleton.1 hk]; decide
    | refundPayout a => rw [List.mem_singleton.1 hk]; decide
    | voidReorgedPayout txid => rw [List.mem_singleton.1 hk]; decide
    | _ => exact hop.elim
  have hblocks : (db.step op).blocks = db.blocks := by
    refine step_same db op (t := .blocks) ?_
    cases op <;> first | rfl | exact hop.elim
  refine ⟨?_, balancesTotal_step h fun k hk => (hunit k hk).1,
    clawbackTotal_step h fun k hk => (hunit k hk).2⟩
  unfold creditedReward creditedBlocks
  rw [hblocks]

/-- **Balances less clawbacks are the credit rows**, over all miners. -/
theorem held_eq_credits {db : PoolDb} (h : ∀ m, weigh creditLaw (db.accounts m) = 0) :
    db.held = db.blockCredits.sum (fun _ amount => amount) := by
  have hmem : db.holders ⊆ db.holders.dedup := fun m hm => List.mem_dedup.2 hm
  have hS : db.holders.dedup.Nodup := List.nodup_dedup _
  have hone : ∀ m, weigh ownedLaw (db.accounts m)
      = weigh clawedLaw (db.accounts m) + db.credited m := by
    intro m
    have hm := h m
    simp only [weigh_accounts, creditLaw, ownedLaw, clawedLaw, accounts] at hm ⊢
    omega
  unfold held
  rw [balancesTotal_eq_sum db hS hmem, clawbackTotal_eq_sum db hS hmem, ← sum_credited db hS hmem]
  simp only [hone, List.sum_map_add, add_sub_cancel_left]

/-! ## The credit rows, block by block -/

theorem sum_creditsOf (db : PoolDb) (b : BlockId) :
    ((db.creditsOf b).map Prod.snd).sum
      = db.blockCredits.sum (fun k amount => if k.1 = b then amount else 0) := by
  unfold creditsOf Keyed.sum
  rw [List.map_map, sum_filter_ite]
  simp only [beq_iff_eq, Function.comp_apply]

/-- Every credit row belongs to a recorded block; orphaned blocks have none. -/
theorem sum_credits_eq {db : PoolDb} (hrows : db.RowsOk)
    (horphan : ∀ b, db.statusOf b = some .orphaned → db.creditsOf b = []) :
    db.blockCredits.sum (fun _ amount => amount)
      = (db.creditedBlocks.map (fun e => ((db.creditsOf e.1).map Prod.snd).sum)).sum := by
  have hblocks : (db.blocks.rows.map Prod.fst).Nodup := db.blocks.keyed.nodup
  have hall : ((db.blocks.rows.map Prod.fst).map
      (fun b => ((db.creditsOf b).map Prod.snd).sum)).sum
        = db.blockCredits.sum (fun _ amount => amount) := by
    simp only [sum_creditsOf]
    refine Keyed.sum_groups db.blockCredits (fun k _ => k.1) (fun _ amount => amount) hblocks
      fun e he => ?_
    obtain ⟨r, hr⟩ := Auto.has_iff.1 (hrows.credits_block e he)
    exact List.mem_map.2 ⟨(e.1.1, r), hr, rfl⟩
  rw [← hall, List.map_map]
  unfold creditedBlocks
  rw [sum_filter_ite]
  congr 1
  apply List.map_congr_left
  intro e he
  split
  · rfl
  · rename_i hstatus
    have horphaned : e.2.status = .orphaned := by
      cases hs : e.2.status <;> simp [hs] at hstatus ⊢
    have hget : db.blocks.get? e.1 = some e.2 := Keyed.get?_eq_some_iff.2 he
    have hnil : db.creditsOf e.1 = [] := by
      apply horphan
      simp only [statusOf, hget, Option.map_some, horphaned]
    show ((db.creditsOf e.1).map Prod.snd).sum = 0
    rw [hnil]
    rfl

end PoolDb

/-! ## Runs of distributions -/

namespace PoolDb

/-- A block is orphaned by `orphan_block`, in one transaction with the reversal of its credits, and
    stays so; nothing else calls the reversal. -/
def orphansPrecisely (db : PoolDb) : Op → Prop
  | .updateBlockStatus b status => status ≠ .orphaned ∧ db.statusOf b ≠ some .orphaned
  | .reverseBlockCreditsPrecise _ => False
  | _ => True

end PoolDb

namespace PplnsCalculator

/-- Solo, or a window with shares in it. -/
def hasTakers (c : PplnsCalculator) (db : PoolDb) : Bool :=
  c.mode == .solo || !(db.getPplnsShares c.windowSize).isEmpty

end PplnsCalculator

/-- The distributor beside a record of its calls. -/
structure DistributionLog where
  books : Distributor
  /-- The blocks `distribute` was called for. -/
  called : List BlockId
  /-- The blocks whose call found takers and returned without an error. -/
  distributed : List BlockId

namespace DistributionLog

def start : DistributionLog := ⟨Distributor.empty, [], []⟩

/-- The rest of the call for block `b` returns without an error, and there are takers. -/
def settles (c : PplnsCalculator) (s : Distributor) (b : BlockId) : Bool :=
  match s.tasks.get? b with
  | none => false
  | some t =>
    c.hasTakers s.db && (c.settle none s.db (t.basis - t.costs) b t.foundBy).isOk

def step (c : PplnsCalculator) (s : DistributionLog) (e : DistributorOp) : DistributionLog where
  books := s.books.step c e
  called :=
    match e with
    | .take b => b :: s.called
    | _ => s.called
  distributed :=
    match e with
    | .credit b => if settles c s.books b then b :: s.distributed else s.distributed
    | _ => s.distributed

/-- `distribute` is called once for a block; blocks are orphaned precisely. -/
def ok (s : DistributionLog) : DistributorOp → Prop
  | .query op =>
    Distributor.queryOk op ∧ s.books.db.conservationOk op ∧ s.books.db.orphansPrecisely op
  | .recordShare _ _ difficulty _ _ => 0 < difficulty
  | .take b => b ∉ s.called
  | _ => True

/-- Every block that is not orphaned has been distributed. -/
def AllDistributed (s : DistributionLog) : Prop :=
  ∀ e ∈ s.books.db.creditedBlocks, e.1 ∈ s.distributed

end DistributionLog

/-! ## What a query does to one block -/

namespace PoolDb

/-- What a query may do to the books of a block. -/
inductive BlockEffect (db db' : PoolDb) (b : BlockId) : Prop where
  | same (credits : db'.creditsOf b = db.creditsOf b) (stamp : db'.stampOf b = db.stampOf b)
      (orphaned : db'.statusOf b = some .orphaned ↔ db.statusOf b = some .orphaned)
  | reversed (had : db.creditsOf b ≠ []) (credits : db'.creditsOf b = [])
      (orphaned : db'.statusOf b = some .orphaned)
      (stamp : ∃ x y, db.stampOf b = some x ∧ db'.stampOf b = some y ∧ y.1 = x.1 ∧
        (y.2 = x.2 ∨ y.2 = 0))
  | recorded (fresh : db.stampOf b = none) (credits : db'.creditsOf b = db.creditsOf b)
      (pending : db'.statusOf b = some .pending)
      (stamp : ∃ basis, 0 ≤ basis ∧ db'.stampOf b = some (basis, 0))

theorem BlockEffect.refl (db : PoolDb) (b : BlockId) : BlockEffect db db b :=
  .same rfl rfl Iff.rfl

theorem statusOf_congr {db db' : PoolDb} (h : db'.blocks = db.blocks) (b : BlockId) :
    db'.statusOf b = db.statusOf b := by
  unfold statusOf
  rw [h]

/-- The precise reversal of `blockId`, with its status. -/
theorem blockEffect_orphan {db db' : PoolDb} {blockId : BlockId} {reward : ℤ}
    {out : Option (ℤ × ℤ)} (hne : db.creditsOf blockId ≠ [])
    (h : db.orphanBlock blockId reward = .ok (out, db')) (b : BlockId) : BlockEffect db db' b := by
  obtain ⟨-, hcredits, -, hstatus⟩ := orphanBlock_precise hne h
  have hcr := creditsOf_filter hcredits b
  obtain ⟨r, hr, hstamp⟩ : ∃ r, db.blocks.get? blockId = some r ∧ ∀ b, db'.stampOf b =
      if 0 < r.costsRecovered ∧ b = blockId then (db.stampOf b).map (fun p => (p.1, 0))
      else db.stampOf b := by
    rcases orphanBlock_cases h with ⟨hnil, -⟩ | ⟨-, db₁, h₁, rfl⟩
    · exact absurd hnil hne
    rcases reverseBlockCreditsPrecise_cases h₁ with ⟨hnil, -⟩ | ⟨-, -, r, hr, rfl⟩
    · exact absurd hnil hne
    refine ⟨r, hr, fun b => ?_⟩
    obtain ⟨bal, cl, hframe⟩ := reverseRows_frame blockId db (db.creditsByMiner blockId)
    rw [stampOf_updateBlockStatus, stampOf_requeueCosts, hframe]
    rfl
  have hstamp := hstamp b
  have hstatus := hstatus b
  by_cases hb : b = blockId
  · subst hb
    have hold : db.stampOf b = some (distributionBasis r, r.costsRecovered) := by
      simp only [stampOf, hr, Option.map_some]
    have hold' : db.statusOf b = some r.status := by
      simp only [statusOf, hr, Option.map_some]
    rw [if_pos rfl] at hcr
    rw [if_pos rfl, hold'] at hstatus
    refine .reversed hne hcr hstatus ?_
    by_cases hpos : 0 < r.costsRecovered
    · rw [if_pos ⟨hpos, rfl⟩, hold] at hstamp
      exact ⟨_, _, hold, hstamp, rfl, .inr rfl⟩
    · rw [if_neg (fun h => hpos h.1), hold] at hstamp
      exact ⟨_, _, hold, hstamp, rfl, .inl rfl⟩
  · rw [if_neg hb] at hcr hstatus
    rw [if_neg (fun h => hb h.2)] at hstamp
    exact .same hcr hstamp (by rw [hstatus])

/-- **What a query does to one block**, when blocks are orphaned precisely. -/
theorem blockEffect_step {db : PoolDb} {op : Op} (hop : Distributor.queryOk op)
    (hcons : db.conservationOk op) (hprecise : db.orphansPrecisely op) (b : BlockId) :
    BlockEffect db (db.step op) b := by
  by_cases hw : op.writes .blocks = false ∧ op.writes .blockCredits = false
  · have hblocks : (db.step op).blocks = db.blocks := step_same db op hw.1
    exact .same (creditsOf_congr (step_same db op hw.2) b) (stampOf_congr hblocks b)
      (by rw [statusOf_congr hblocks])
  refine step_induction (P := fun db' => BlockEffect db db' b) (.refl db b) fun db' hx => ?_
  cases op with
  | recordBlock height hash reward actual foundBy luck =>
    obtain ⟨n, hr⟩ := map_snd_ok hx
    obtain ⟨r, hstatus, hstamp, hbasis, rfl⟩ := costs_recordBlock hr
    by_cases hb : b = db.blocks.next
    · refine .recorded ?_ rfl ?_ ⟨actual.getD reward, hop, ?_⟩
      · simp only [stampOf, hb, Auto.get?_next, Option.map_none]
      · simp only [statusOf, Auto.get?_insert, if_pos hb, Option.map_some, hstatus]
      · simp only [stampOf, Auto.get?_insert, if_pos hb, Option.map_some, distributionBasis, hbasis,
          hstamp]
    · refine .same rfl ?_ ?_
      · simp only [stampOf, Auto.get?_insert, if_neg hb]
      · simp only [statusOf, Auto.get?_insert, if_neg hb]
  | updateBlockStatus blockId status =>
    cases hx
    refine .same rfl (stampOf_updateBlockStatus db blockId status b) ?_
    rw [statusOf_updateBlockStatus]
    split
    · rename_i hb
      rw [hb]
      constructor
      · intro h
        obtain ⟨x, -, hx⟩ := Option.map_eq_some_iff.1 h
        exact absurd hx hprecise.1
      · intro h
        exact absurd h hprecise.2
    · exact Iff.rfl
  | orphanBlock blockId reward =>
    obtain ⟨out, hr⟩ := map_snd_ok hx
    exact blockEffect_orphan hcons hr b
  | reverseBlockCreditsPrecise blockId => exact hprecise.elim
  | distributeBlockCredits blockId credits => exact hop.elim
  | takeCostsForBlock blockId cap => exact hop.elim
  | _ => exact absurd ⟨rfl, rfl⟩ hw

end PoolDb

/-! ## What a call pays out -/

namespace PplnsCalculator

variable {c : PplnsCalculator}

/-- With takers, all of the net reward that is left after the fee is credited. -/
theorem sum_credits_of_takers {db : PoolDb} (hpos : ∀ r ∈ db.shares.values, 0 < r.difficulty)
    {net : ℤ} (hnet : 0 ≤ net) (htakers : c.hasTakers db = true) {worker : WorkerId}
    {rs : List PplnsReward} (h : c.rewards db net worker = .ok rs) :
    ((credits rs).map Prod.snd).sum = c.owed net 0 := by
  have hD := distributable_nonneg c hnet
  have howed : c.owed net 0 = c.distributable net := by
    rw [distributable_eq_floor c hnet, owed, sub_zero]
  rw [howed]
  cases hm : c.mode with
  | solo =>
    simp only [rewards, hm, bind, Except.bind] at h
    split at h
    · cases h
    · cases h
      rw [sum_credits (by simpa using hD)]
      simp
  | pplns =>
    have hne : db.getPplnsShares c.windowSize ≠ [] := by
      simpa [hasTakers, hm] using htakers
    have hw : ∀ e ∈ db.getPplnsShares c.windowSize, 0 < e.totalDifficulty := by
      intro e he
      obtain ⟨hmem, hweight⟩ := PoolDb.mem_getPplnsShares.1 he
      rw [hweight]
      refine weightOf_pos (fun x hx => ?_) hmem
      rw [PoolDb.windowShares_eq] at hx
      obtain ⟨r, hr, -, hd⟩ := PoolDb.mem_windowOf hx
      exact hd ▸ hpos r hr
    rw [rewards_pplns hm hpos] at h
    cases h
    refine sum_credits_shareOut hD hne (fun e he => (hw e he).le) ?_
    apply List.sum_pos
    · intro x hx
      obtain ⟨e, he, rfl⟩ := List.mem_map.1 hx
      exact hw e he
    · simpa using hne

/-- The rest of a call is one transaction of its credits. -/
theorem settle_distributes {db db' : PoolDb} {net : ℤ} {b : BlockId} {worker : WorkerId}
    {rs : List PplnsReward} (h : c.settle none db net b worker = .ok (rs, db')) :
    c.rewards db net worker = .ok rs ∧
      PoolDb.distributeBlockCredits b db (credits rs) = .ok db' := by
  simp only [settle, reduceCtorEq, if_false, bind, Except.bind] at h
  split at h
  · cases h
  · rename_i rs' hrs
    split at h
    · cases h
    · rename_i db₁ hcommit
      cases h
      refine ⟨hrs, ?_⟩
      unfold commit at hcommit
      split at hcommit
      · rename_i hnil
        cases hcommit
        rw [hnil]
        rfl
      · exact hcommit

theorem credits_nonneg (rs : List PplnsReward) : ∀ e ∈ credits rs, 0 ≤ e.2 := by
  intro e he
  obtain ⟨r, hr, rfl⟩ := List.mem_map.1 he
  have hpos : 0 < r.amountZatoshis := by simpa using (List.mem_filter.1 hr).2
  exact hpos.le

end PplnsCalculator

/-! ## The invariant -/

namespace DistributionLog

open PoolDb

variable {c : PplnsCalculator} {s : DistributionLog}

/-- Before its call a block has neither credits nor a stamp, after it the floor of what it pays out
    — until it is orphaned. -/
structure BlockBooks (c : PplnsCalculator) (s : DistributionLog) (b : BlockId) : Prop where
  net : ∀ x, s.books.db.stampOf b = some x → x.2 ≤ x.1
  uncalled : b ∉ s.called → s.books.db.creditsOf b = [] ∧
    (∀ x, s.books.db.stampOf b = some x → x.2 = 0) ∧ s.books.db.statusOf b ≠ some .orphaned
  underway : ∀ t, s.books.tasks.get? b = some t →
    b ∈ s.called ∧ b ∉ s.distributed ∧ s.books.db.statusOf b ≠ some .orphaned
  reversed : s.books.db.statusOf b = some .orphaned → s.books.db.creditsOf b = []
  paid : b ∈ s.distributed → b ∈ s.called ∧ ∃ x, s.books.db.stampOf b = some x ∧
    (s.books.db.statusOf b ≠ some .orphaned →
      ((s.books.db.creditsOf b).map Prod.snd).sum = c.owed x.1 x.2)

structure LogInv (c : PplnsCalculator) (s : DistributionLog) : Prop where
  books : Distributor.BooksInv c s.books
  rows : s.books.db.RowsOk
  law : ∀ m, weigh creditLaw (s.books.db.accounts m) = 0
  positive : ∀ r ∈ s.books.db.shares.values, 0 < r.difficulty
  block : ∀ b, BlockBooks c s b

/-- A step that leaves the block's credits, stamp and status alone, and starts no task for it. -/
theorem BlockBooks.keep {s' : DistributionLog} {b : BlockId} (h : BlockBooks c s b)
    (hcredits : s'.books.db.creditsOf b = s.books.db.creditsOf b)
    (hstamp : s'.books.db.stampOf b = s.books.db.stampOf b)
    (hstatus : s'.books.db.statusOf b = some .orphaned ↔ s.books.db.statusOf b = some .orphaned)
    (htasks : ∀ t, s'.books.tasks.get? b = some t → s.books.tasks.get? b = some t)
    (hcalled : b ∈ s.called → b ∈ s'.called)
    (hdistributed : b ∈ s'.distributed ↔ b ∈ s.distributed) : BlockBooks c s' b where
  net := by
    rw [hstamp]
    exact h.net
  uncalled hb := by
    rw [hcredits, hstamp, ne_eq, hstatus]
    exact h.uncalled fun hmem => hb (hcalled hmem)
  underway t ht := by
    obtain ⟨hmem, hnot, horphan⟩ := h.underway t (htasks t ht)
    rw [hdistributed, ne_eq, hstatus]
    exact ⟨hcalled hmem, hnot, horphan⟩
  reversed hb := by
    rw [hcredits]
    exact h.reversed (hstatus.1 hb)
  paid hb := by
    obtain ⟨hmem, hpaid⟩ := h.paid (hdistributed.1 hb)
    rw [hcredits, hstamp, ne_eq, hstatus]
    exact ⟨hcalled hmem, hpaid⟩

theorem logInv_start (c : PplnsCalculator) : LogInv c start where
  books := Distributor.booksInv_empty c
  rows := rowsOk_empty
  law _ := rfl
  positive r hr := by cases hr
  block b := by
    refine ⟨?_, fun _ => ⟨rfl, ?_, ?_⟩, ?_, fun _ => rfl, ?_⟩
    · intro x hx
      cases hx
    · intro x hx
      cases hx
    · intro horphan
      cases horphan
    · intro t ht
      cases ht
    · intro hb
      cases hb

/-- A step that leaves credits, blocks and accounts alone, and starts no task. -/
theorem LogInv.keep {s' : DistributionLog} (h : LogInv c s)
    (hbooks : Distributor.BooksInv c s'.books) (hrows : s'.books.db.RowsOk)
    (hcredits : s'.books.db.blockCredits = s.books.db.blockCredits)
    (hblocks : s'.books.db.blocks = s.books.db.blocks)
    (haccounts : s'.books.db.accounts = s.books.db.accounts)
    (hpos : ∀ r ∈ s'.books.db.shares.values, 0 < r.difficulty)
    (htasks : ∀ b t, s'.books.tasks.get? b = some t → s.books.tasks.get? b = some t)
    (hcalled : s.called ⊆ s'.called) (hdistributed : s'.distributed = s.distributed) :
    LogInv c s' := by
  refine ⟨hbooks, hrows, ?_, hpos, fun b => ?_⟩
  · rw [haccounts]
    exact h.law
  · refine (h.block b).keep (creditsOf_congr hcredits b) (stampOf_congr hblocks b) ?_ (htasks b)
      (fun hmem => hcalled hmem) ?_
    · rw [statusOf_congr hblocks]
    · rw [hdistributed]

/-! ### Queries -/

theorem blockBooks_query {op : Op} {b : BlockId} (h : LogInv c s)
    (heffect : BlockEffect s.books.db (s.books.db.step op) b) :
    BlockBooks c (step c s (.query op)) b := by
  have hb := h.block b
  cases heffect with
  | same credits stamp orphaned =>
    exact hb.keep credits stamp orphaned (fun _ ht => ht) id Iff.rfl
  | reversed had credits orphaned stamp =>
    obtain ⟨x, y, hx, hy, hbasis, hstamp⟩ := stamp
    refine ⟨?_, ?_, ?_, fun _ => credits, ?_⟩
    · intro z hz
      have hz : (s.books.db.step op).stampOf b = some z := hz
      rw [hy] at hz
      cases hz
      have hnet := hb.net x hx
      have hnonneg := h.books.basis b x hx
      omega
    · intro hmem
      exact absurd (hb.uncalled hmem).1 had
    · -- a block under way has no credits to reverse
      intro t ht
      exact absurd (h.books.task b t ht).1 had
    · intro hmem
      exact ⟨(hb.paid hmem).1, y, hy, fun hstatus => absurd orphaned hstatus⟩
  | recorded fresh credits pending stamp =>
    obtain ⟨basis, hbasis, hstamp⟩ := stamp
    have hstatus : (step c s (.query op)).books.db.statusOf b ≠ some .orphaned := by
      show (s.books.db.step op).statusOf b ≠ some .orphaned
      rw [pending]
      simp
    have hstampEq : ∀ x, (step c s (.query op)).books.db.stampOf b = some x → x = (basis, 0) := by
      intro x hx
      exact Option.some.inj (hx.symm.trans hstamp)
    refine ⟨?_, ?_, ?_, fun horphan => absurd horphan hstatus, ?_⟩
    · intro x hx
      rw [hstampEq x hx]
      exact hbasis
    · intro hmem
      exact ⟨credits.trans (hb.uncalled hmem).1, fun x hx => by rw [hstampEq x hx], hstatus⟩
    · intro t ht
      exact ⟨(hb.underway t ht).1, (hb.underway t ht).2.1, hstatus⟩
    · intro hmem
      obtain ⟨-, x, hx, -⟩ := hb.paid hmem
      rw [fresh] at hx
      cases hx

theorem logInv_query {op : Op} (h : LogInv c s) (hok : s.ok (.query op)) :
    LogInv c (step c s (.query op)) := by
  obtain ⟨hop, hcons, hprecise⟩ := hok
  have hshares : (s.books.db.step op).shares = s.books.db.shares := by
    refine step_same s.books.db op (t := .shares) ?_
    cases op <;> rfl
  refine ⟨Distributor.booksInv_step (e := .query op) h.books hop trivial,
    rowsOk_step h.rows hcons.lawful, ?_, ?_,
    fun b => blockBooks_query h (blockEffect_step hop hcons hprecise b)⟩
  · intro m
    show weigh creditLaw ((s.books.db.step op).accounts m) = 0
    rw [law_step h.rows op creditLaw (fun k hk => creditLaw_unit ?_) m]
    · exact h.law m
    · rintro rfl
      exact hcons.no_adjust hk
  · show ∀ r ∈ (s.books.db.step op).shares.values, 0 < r.difficulty
    rw [hshares]
    exact h.positive

theorem logInv_recordShare {workerId : WorkerId} {jobId : String} {difficulty : ℚ} {isBlock : Bool}
    {sessionId : String} (h : LogInv c s) (hpos : 0 < difficulty) :
    LogInv c (step c s (.recordShare workerId jobId difficulty isBlock sessionId)) := by
  have hbooks : Distributor.BooksInv c
      (step c s (.recordShare workerId jobId difficulty isBlock sessionId)).books :=
    Distributor.booksInv_step (e := .recordShare workerId jobId difficulty isBlock sessionId)
      h.books hpos.le trivial
  cases hx : s.books.db.recordShare workerId jobId difficulty isBlock sessionId with
  | error e =>
    have hsame : step c s (.recordShare workerId jobId difficulty isBlock sessionId) = s := by
      simp only [step, Distributor.step, hx]
    rw [hsame]
    exact h
  | ok out =>
    obtain ⟨n, db'⟩ := out
    have hdb : (step c s (.recordShare workerId jobId difficulty isBlock sessionId)).books.db
        = db' := by
      simp only [step, Distributor.step, hx]
    have htasks : (step c s (.recordShare workerId jobId difficulty isBlock sessionId)).books.tasks
        = s.books.tasks := by
      simp only [step, Distributor.step, hx]
    rw [recordShare_ok hx] at hdb
    refine h.keep hbooks ?_ (by rw [hdb]) (by rw [hdb]) (by rw [hdb]; rfl) ?_
      (fun _ _ ht => htasks ▸ ht) (List.Subset.refl _) rfl
    · rw [hdb]
      exact h.rows.of_frame rfl (fun _ hb => hb) rfl rfl
    · intro r hr
      rw [hdb] at hr
      rcases List.mem_append.1 (Auto.values_insert _ _ ▸ hr) with hr | hr
      · exact h.positive r hr
      · rw [List.mem_singleton.1 hr]
        exact hpos

/-! ### Distributions -/

/-- A call begins with a block that has neither credits nor a stamp. -/
theorem logInv_take {b : BlockId} (h : LogInv c s) (hfirst : b ∉ s.called) :
    LogInv c (step c s (.take b)) := by
  obtain ⟨hnil, hzero, hstatus⟩ := (h.block b).uncalled hfirst
  have hgood : Distributor.rewritesStamp c s.books (.take b) := by
    intro r hr
    have hget : s.books.db.blocks.get? b = some r := hr
    have hstamp := hzero (distributionBasis r, r.costsRecovered) (by simp [stampOf, hget])
    right
    rw [show r.costsRecovered = 0 from hstamp]
  have hbooks : Distributor.BooksInv c (step c s (.take b)).books :=
    Distributor.booksInv_take h.books hnil hgood
  rcases Distributor.take_cases c s.books b with heq | ⟨r, tasks, hr, htasks, heq⟩
  · have hsame : (step c s (.take b)).books = s.books := heq
    exact h.keep hbooks (hsame ▸ h.rows) (by rw [hsame]) (by rw [hsame]) (by rw [hsame])
      (hsame ▸ h.positive) (fun _ _ ht => hsame ▸ ht) (List.subset_cons_self b s.called) rfl
  have hst : s.books.db.stampOf b = some (distributionBasis r, r.costsRecovered) := by
    simp [stampOf, hr]
  have hle := taken_le s.books.db (h.books.basis b _ hst)
  have hstamps := stampOf_take s.books.db b ((distributionBasis r).tdiv 50)
  have hrows : RowsOk (s.books.db.step
      (.takeCostsForBlock b ((distributionBasis r).tdiv 50))) := rowsOk_step h.rows trivial
  have hlaw := law_step h.rows (.takeCostsForBlock b ((distributionBasis r).tdiv 50)) creditLaw
    (fun k hk => by cases hk)
  obtain ⟨hcredits, hshares⟩ := take_tables s.books.db b ((distributionBasis r).tdiv 50)
  have hfate := fateOf_takeCostsForBlock s.books.db b ((distributionBasis r).tdiv 50)
  have hdb : s.books.db.step (.takeCostsForBlock b ((distributionBasis r).tdiv 50))
      = (s.books.db.takeCostsForBlock b ((distributionBasis r).tdiv 50)).2 := rfl
  have hstep : (step c s (.take b)).books
      = ⟨(s.books.db.takeCostsForBlock b ((distributionBasis r).tdiv 50)).2, tasks⟩ := heq
  rw [hdb] at hrows hlaw
  generalize (s.books.db.takeCostsForBlock b ((distributionBasis r).tdiv 50)).2 = db' at *
  generalize (takeable ((distributionBasis r).tdiv 50) 0 s.books.db.unrecovered).1 = taken at *
  have hstatuses : ∀ b', db'.statusOf b' = s.books.db.statusOf b' := by
    intro b'
    rw [statusOf_eq, statusOf_eq, hfate]
  refine ⟨hbooks, ?_, ?_, ?_, fun b' => ?_⟩
  · rw [hstep]
    exact hrows
  · intro m
    rw [hstep, hlaw m]
    exact h.law m
  · rw [hstep]
    show ∀ x ∈ db'.shares.values, 0 < x.difficulty
    rw [hshares]
    exact h.positive
  by_cases hb : b' = b
  · subst hb
    have hstatus' : (step c s (.take b')).books.db.statusOf b' ≠ some .orphaned := by
      rw [hstep]
      show db'.statusOf b' ≠ some .orphaned
      rw [hstatuses]
      exact hstatus
    refine ⟨?_, fun hmem => absurd List.mem_cons_self hmem, ?_,
      fun horphan => absurd horphan hstatus', fun hmem => absurd ((h.block b').paid hmem).1 hfirst⟩
    · intro x hx
      rw [hstep] at hx
      have hx : db'.stampOf b' = some x := hx
      rw [hstamps] at hx
      split at hx
      · rw [hst] at hx
        cases hx
        exact hle
      · exact (h.block b').net x hx
    · intro t _
      exact ⟨List.mem_cons_self, fun hmem => hfirst ((h.block b').paid hmem).1, hstatus'⟩
  · refine (h.block b').keep ?_ ?_ ?_ ?_ (List.mem_cons_of_mem b) Iff.rfl
    · rw [hstep]
      exact creditsOf_congr hcredits b'
    · rw [hstep]
      show db'.stampOf b' = _
      rw [hstamps, if_neg (fun hx => hb hx.1)]
    · rw [hstep]
      show db'.statusOf b' = _ ↔ _
      rw [hstatuses]
    · intro t ht
      rw [hstep, Keyed.get?_insert? htasks, if_neg hb] at ht
      exact ht

/-- A call that ends without a transaction of credits. -/
theorem LogInv.finish (h : LogInv c s) {b : BlockId} {s' : DistributionLog}
    (hbooks : s'.books = s.books.finish b) (hcalled : s'.called = s.called)
    (hdistributed : s'.distributed = s.distributed) : LogInv c s' := by
  refine h.keep (hbooks ▸ h.books.finish b) (hbooks ▸ h.rows) (by rw [hbooks]; rfl)
    (by rw [hbooks]; rfl) (by rw [hbooks]; rfl) (hbooks ▸ h.positive) ?_ ?_ hdistributed
  · intro b' t ht
    rw [hbooks] at ht
    simp only [Distributor.finish, Keyed.get?_filter] at ht
    exact (Option.filter_eq_some_iff.1 ht).1
  · rw [hcalled]
    exact List.Subset.refl _

/-- The credits of a call are one transaction, and the task ends. -/
theorem logInv_settle {b : BlockId} {t : DistributionTask} {rs : List PplnsReward} {db' : PoolDb}
    (h : LogInv c s) (ht : s.books.tasks.get? b = some t)
    (hx : c.settle none s.books.db (t.basis - t.costs) b t.foundBy = .ok (rs, db')) :
    LogInv c (step c s (.credit b)) := by
  obtain ⟨hcalled, hnot, hstatus⟩ := (h.block b).underway t ht
  obtain ⟨hnil, hnet, x, hst, hbasis, howed⟩ := h.books.task b t ht
  obtain ⟨hrs, hdist⟩ := PplnsCalculator.settle_distributes hx
  have hstep : (step c s (.credit b)).books
      = ({ s.books with db := db' } : Distributor).finish b := by
    show Distributor.step c s.books (.credit b) = _
    simp only [Distributor.step, ht, hx]
  have hdone : (step c s (.credit b)).distributed =
      if c.hasTakers s.books.db = true then b :: s.distributed else s.distributed := by
    simp only [step, settles, ht, hx, Except.isOk, Except.toBool, Bool.and_true]
  have hdb : s.books.db.step (.distributeBlockCredits b (PplnsCalculator.credits rs)) = db' :=
    step_ok hdist
  have hop : (Op.distributeBlockCredits b (PplnsCalculator.credits rs)).Lawful :=
    PplnsCalculator.credits_nonneg rs
  have hcr := creditsOf_distribute hdist
  obtain ⟨bal, cr, hframe, -⟩ := distributeBlockCredits_spec hdist
  have hstamps : ∀ b', db'.stampOf b' = s.books.db.stampOf b' := by
    rw [hframe]
    exact fun _ => rfl
  have hstatuses : ∀ b', db'.statusOf b' = s.books.db.statusOf b' := by
    rw [hframe]
    exact fun _ => rfl
  have hdb' : (step c s (.credit b)).books.db = db' := by
    rw [hstep]
    rfl
  refine ⟨Distributor.booksInv_credit h.books b, ?_, ?_, ?_, fun b' => ?_⟩
  · rw [hdb', ← hdb]
    exact rowsOk_step h.rows hop
  · intro m
    rw [hdb', ← hdb, law_step h.rows _ creditLaw (fun k hk => creditLaw_unit ?_) m]
    · exact h.law m
    · rintro rfl
      simp [movements] at hk
  · rw [hdb', hframe]
    exact h.positive
  have hcr' := hcr b'
  by_cases hb : b' = b
  · subst hb
    rw [if_pos rfl, hnil, List.nil_append] at hcr'
    have hstatus' : (step c s (.credit b')).books.db.statusOf b' ≠ some .orphaned := by
      rw [hdb', hstatuses]
      exact hstatus
    refine ⟨?_, fun hmem => absurd hcalled hmem, ?_, fun horphan => absurd horphan hstatus', ?_⟩
    · intro y hy
      rw [hdb', hstamps] at hy
      exact (h.block b').net y hy
    · -- the task has ended
      intro t' ht'
      rw [hstep] at ht'
      simp only [Distributor.finish, Keyed.get?_filter] at ht'
      have hne := (Option.filter_eq_some_iff.1 ht').2
      simp at hne
    · intro hmem
      rw [hdone] at hmem
      rw [hdb', hstamps, hcr']
      refine ⟨hcalled, x, hst, fun _ => ?_⟩
      split at hmem
      · -- there were takers, so all of the net reward after the fee is credited
        rename_i htakers
        rw [PplnsCalculator.sum_credits_of_takers h.positive hnet htakers hrs, ← howed,
          PplnsCalculator.owed, PplnsCalculator.owed, sub_zero]
      · exact absurd hmem hnot
  · rw [if_neg hb, List.append_nil] at hcr'
    refine (h.block b').keep ?_ ?_ ?_ ?_ id ?_
    · rw [hdb', hcr']
    · rw [hdb', hstamps]
    · rw [hdb', hstatuses]
    · intro t' ht'
      rw [hstep] at ht'
      simp only [Distributor.finish, Keyed.get?_filter] at ht'
      exact (Option.filter_eq_some_iff.1 ht').1
    · rw [hdone]
      split
      · rw [List.mem_cons, or_iff_right hb]
      · exact Iff.rfl

theorem logInv_credit (b : BlockId) (h : LogInv c s) : LogInv c (step c s (.credit b)) := by
  cases ht : s.books.tasks.get? b with
  | none =>
    have hsame : step c s (.credit b) = s := by
      simp [step, settles, Distributor.step, ht]
    rw [hsame]
    exact h
  | some t =>
    cases hx : c.settle none s.books.db (t.basis - t.costs) b t.foundBy with
    | error e =>
      refine h.finish (b := b) ?_ rfl ?_
      · simp only [step, Distributor.step, ht, hx]
      · simp [step, settles, ht, hx, Except.isOk, Except.toBool]
    | ok out => exact logInv_settle h ht hx

theorem logInv_step (e : DistributorOp) (h : LogInv c s) (hok : s.ok e) :
    LogInv c (step c s e) := by
  cases e with
  | query op => exact logInv_query h hok
  | recordShare workerId jobId difficulty isBlock sessionId => exact logInv_recordShare h hok
  | take b => exact logInv_take h hok
  | credit b => exact logInv_credit b h
  | fail b => exact h.finish (b := b) rfl rfl rfl
  | restart =>
    have hbooks : Distributor.BooksInv c (step c s .restart).books :=
      Distributor.booksInv_step (e := .restart) h.books trivial trivial
    refine h.keep hbooks h.rows rfl rfl rfl h.positive ?_ (List.Subset.refl _) rfl
    intro b t ht
    cases ht

/-! ## The drift -/

/-- **The drift measures rounding** where the figures are those of one state, in which every block
    has been distributed: each block's floor loses less than one zatoshi. -/
theorem LogInv.drift_bounds (h : LogInv c s) (hall : s.AllDistributed) {figures : ℤ × ℤ × ℤ}
    (hreward : figures.1 = s.books.db.creditedReward)
    (hheld : figures.2.1 - figures.2.2 = s.books.db.held) (previous : Option ℤ) :
    -(s.books.db.creditedBlocks.length : ℤ) ≤ (checkInvariant c.poolFee figures previous).drift ∧
      (checkInvariant c.poolFee figures previous).drift ≤ 0 := by
  have hfee : 0 ≤ 1 - c.poolFee := sub_nonneg.2 c.fee_le_one
  generalize hl : s.books.db.creditedBlocks.map
    (fun e => ((distributionBasis e.2 - e.2.costsRecovered : ℤ) : ℚ) * (1 - c.poolFee)) = l
  have hlength : s.books.db.creditedBlocks.length = l.length := by
    rw [← hl, List.length_map]
  have hcredits : s.books.db.held = (l.map (fun x => ⌊x⌋)).sum := by
    rw [held_eq_credits h.law, sum_credits_eq h.rows fun b => (h.block b).reversed, ← hl,
      List.map_map]
    congr 1
    apply List.map_congr_left
    intro e he
    obtain ⟨hmem, hpass⟩ := List.mem_filter.1 he
    have hget : s.books.db.blocks.get? e.1 = some e.2 := Keyed.get?_eq_some_iff.2 hmem
    have hstatus : s.books.db.statusOf e.1 ≠ some .orphaned := by
      simp only [statusOf, hget, Option.map_some]
      rintro horphan
      rw [Option.some.inj horphan] at hpass
      exact absurd hpass (by decide)
    obtain ⟨-, x, hx, hsum⟩ := (h.block e.1).paid (hall e he)
    have hfig : x = (distributionBasis e.2, e.2.costsRecovered) := by
      simp only [stampOf, hget, Option.map_some] at hx
      exact (Option.some.inj hx).symm
    rw [hsum hstatus, hfig]
    rfl
  have hsum : (figures.1 : ℚ) * (1 - c.poolFee) = l.sum := by
    rw [hreward, creditedReward, ← hl, List.sum_map_mul_right, Int.cast_list_sum, List.map_map]
    rfl
  have hnonneg : 0 ≤ l.sum := by
    apply List.sum_nonneg
    intro x hx
    rw [← hl] at hx
    obtain ⟨e, he, rfl⟩ := List.mem_map.1 hx
    have hget : s.books.db.blocks.get? e.1 = some e.2 :=
      Keyed.get?_eq_some_iff.2 (List.mem_of_mem_filter he)
    have hnet := (h.block e.1).net (distributionBasis e.2, e.2.costsRecovered)
      (by simp [stampOf, hget])
    exact mul_nonneg (by exact_mod_cast sub_nonneg.2 hnet) hfee
  have hdrift : (checkInvariant c.poolFee figures previous).drift
      = (l.map (fun x => ⌊x⌋)).sum - ⌊l.sum⌋ := by
    rw [← hcredits, ← hheld]
    show figures.2.1 - figures.2.2 - Rounding.trunc ((figures.1 : ℚ) * (1 - c.poolFee)) = _
    rw [hsum, Rounding.trunc, if_pos hnonneg]
  have hlow := Rounding.floor_sum_le l
  have hhigh := Rounding.sum_floor_le l
  rw [hdrift, hlength]
  omega

end DistributionLog

end ZcashMiningPool
