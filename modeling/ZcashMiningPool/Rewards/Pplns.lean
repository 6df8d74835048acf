import ZcashMiningPool.Db.Costs
import ZcashMiningPool.Db.Shares
import ZcashMiningPool.Library.Apportion

/-!
# The reward calculator

`rewards/src/pplns.rs`: a block's reward, less recovered costs and the pool fee, is credited to
the finder or split over the miners of the share window.

* `PplnsCalculator` — its configuration; the fee is a fraction by construction.
* `distribute` — the call with its database calls, any one of which may fail (`fault`).
* `distributable` — the floor of the net reward after the fee.
* `sum_creditsOf` — whatever is credited adds up to `distributable`, in both modes.

Fees and weights are exact rationals.
-/

set_option autoImplicit false

namespace ZcashMiningPool

open Table

/-- Reward distribution mode. -/
inductive RewardMode where
  | pplns
  | solo
  deriving DecidableEq, Repr

structure PplnsCalculator where
  windowSize : ℤ
  poolFee : ℚ
  mode : RewardMode
  fee_nonneg : 0 ≤ poolFee
  fee_le_one : poolFee ≤ 1

structure PplnsReward where
  minerId : MinerId
  shareFraction : ℚ
  amountZatoshis : ℤ
  deriving DecidableEq, Repr

/-- The database calls of `distribute`, in order. -/
inductive DistributeCall where
  | takeCosts
  | lookup
  | credit
  deriving DecidableEq, Repr

namespace PplnsCalculator

/-- `pool_fee.clamp(0.0, 1.0)`. -/
def new (windowSize : ℤ) (poolFee : ℚ) (mode : RewardMode) : PplnsCalculator where
  windowSize := windowSize
  poolFee := max 0 (min poolFee 1)
  mode := mode
  fee_nonneg := le_max_left _ _
  fee_le_one := max_le zero_le_one (min_le_right _ _)

/-- `((net_reward as f64) * (1.0 - pool_fee)) as i64`. -/
def distributable (c : PplnsCalculator) (netReward : ℤ) : ℤ :=
  Rounding.trunc ((netReward : ℚ) * (1 - c.poolFee))

/-- The loop over the window: the last miner gets whatever is left. -/
def shareOut (distributable : ℤ) (totalDifficulty : ℚ) : ℤ → List PplnsShareEntry → List PplnsReward
  | _, [] => []
  | distributedTotal, [entry] =>
    [⟨entry.minerId, entry.totalDifficulty / totalDifficulty, distributable - distributedTotal⟩]
  | distributedTotal, entry :: next :: shares =>
    let fraction := entry.totalDifficulty / totalDifficulty
    let amount := ⌊(distributable : ℚ) * fraction⌋
    ⟨entry.minerId, fraction, amount⟩ ::
      shareOut distributable totalDifficulty (distributedTotal + amount) (next :: shares)

/-- Who gets how much of the net reward. -/
def rewards (c : PplnsCalculator) (db : PoolDb) (netReward : ℤ) (foundByWorkerId : WorkerId) :
    Except DbError (List PplnsReward) :=
  match c.mode with
  | .solo => do
    let minerId ← db.getMinerIdForWorker foundByWorkerId
    .ok [⟨minerId, 1, c.distributable netReward⟩]
  | .pplns =>
    let shares := db.getPplnsShares c.windowSize
    let totalDifficulty := (shares.map (·.totalDifficulty)).sum
    if shares = [] then .ok []
    else if totalDifficulty ≤ 0 then .ok []
    else .ok (shareOut (c.distributable netReward) totalDifficulty 0 shares)

/-- The credits a list of rewards commits: the positive amounts. -/
def credits (rewards : List PplnsReward) : List (MinerId × ℤ) :=
  (rewards.filter (fun r => decide (0 < r.amountZatoshis))).map
    (fun r => (r.minerId, r.amountZatoshis))

/-- Commit every credit in one transaction; without credits there is none. -/
def commit (db : PoolDb) (blockId : BlockId) (rewards : List PplnsReward) :
    Except DbError PoolDb :=
  if credits rewards = [] then .ok db
  else PoolDb.distributeBlockCredits blockId db (credits rewards)

/-- What follows the cost recovery. -/
def settle (c : PplnsCalculator) (fault : Option DistributeCall) (db : PoolDb) (netReward : ℤ)
    (blockId : BlockId) (foundByWorkerId : WorkerId) : Except DbError (List PplnsReward × PoolDb) :=
  if fault = some .lookup then .error (.sqlx .io)
  else do
    let rs ← c.rewards db netReward foundByWorkerId
    if fault = some .credit then .error (.sqlx .io)
    else
      let db' ← commit db blockId rs
      .ok (rs, db')

/-- Distribute a block reward.  The cost recovery is a transaction of its own: when a later call
    fails, what it took stays taken. -/
def distribute (c : PplnsCalculator) (fault : Option DistributeCall) (db : PoolDb)
    (blockReward : ℤ) (blockId : BlockId) (foundByWorkerId : WorkerId) :
    Except DbError (List PplnsReward) × PoolDb :=
  if fault = some .takeCosts then (.error (.sqlx .io), db)
  else
    let (costs, db₁) := db.takeCostsForBlock blockId (blockReward.tdiv 50)
    match c.settle fault db₁ (blockReward - costs) blockId foundByWorkerId with
    | .ok (rs, db₂) => (.ok rs, db₂)
    | .error e => (.error e, db₁)

/-! ## What is credited -/

section Credits

variable {c : PplnsCalculator}

theorem distributable_eq_floor (c : PplnsCalculator) {netReward : ℤ} (h : 0 ≤ netReward) :
    c.distributable netReward = ⌊(netReward : ℚ) * (1 - c.poolFee)⌋ := by
  have hfee : 0 ≤ 1 - c.poolFee := by
    have := c.fee_le_one
    linarith
  have hx : 0 ≤ (netReward : ℚ) * (1 - c.poolFee) := mul_nonneg (by exact_mod_cast h) hfee
  unfold distributable Rounding.trunc
  rw [if_pos hx]

theorem distributable_nonneg (c : PplnsCalculator) {netReward : ℤ} (h : 0 ≤ netReward) :
    0 ≤ c.distributable netReward := by
  have hfee : 0 ≤ 1 - c.poolFee := by
    have := c.fee_le_one
    linarith
  rw [distributable_eq_floor c h]
  exact Int.floor_nonneg.2 (mul_nonneg (by exact_mod_cast h) hfee)

/-- The loop apportions over the weights of the window. -/
theorem shareOut_amounts (amount : ℤ) (total : ℚ) (given : ℤ) (shares : List PplnsShareEntry) :
    (shareOut amount total given shares).map (·.amountZatoshis)
      = Apportion.split amount total given (shares.map (·.totalDifficulty)) := by
  induction shares generalizing given with
  | nil => rfl
  | cons entry shares ih =>
    cases shares with
    | nil => rfl
    | cons next shares =>
      simp only [shareOut, List.map_cons, Apportion.split] at ih ⊢
      rw [ih]

/-- Dropping the amounts that are not positive drops nothing when none is negative. -/
theorem sum_credits {rs : List PplnsReward} (h : ∀ r ∈ rs, 0 ≤ r.amountZatoshis) :
    ((credits rs).map Prod.snd).sum = (rs.map (·.amountZatoshis)).sum := by
  unfold credits
  induction rs with
  | nil => rfl
  | cons r rs ih =>
    have hr := h r List.mem_cons_self
    have hrest := ih fun x hx => h x (List.mem_cons_of_mem _ hx)
    by_cases hpos : 0 < r.amountZatoshis
    · simp only [List.filter_cons, hpos, decide_true, if_true, List.map_cons, List.sum_cons, hrest]
    · simp only [List.filter_cons, hpos, decide_false, Bool.false_eq_true, if_false, List.map_cons,
        List.sum_cons, hrest]
      omega

/-- Over a window that weighs something, the credits are all that is shared out. -/
theorem sum_credits_shareOut {amount : ℤ} (hamount : 0 ≤ amount) {shares : List PplnsShareEntry}
    (hne : shares ≠ []) (hw : ∀ e ∈ shares, 0 ≤ e.totalDifficulty)
    (htotal : 0 < (shares.map (·.totalDifficulty)).sum) :
    ((credits (shareOut amount (shares.map (·.totalDifficulty)).sum 0 shares)).map Prod.snd).sum
      = amount := by
  have hamounts := shareOut_amounts amount (shares.map (·.totalDifficulty)).sum 0 shares
  have hweights : ∀ w ∈ shares.map (·.totalDifficulty), 0 ≤ w := by
    intro w hmem
    obtain ⟨e, he, rfl⟩ := List.mem_map.1 hmem
    exact hw e he
  rw [sum_credits, hamounts, Apportion.sum_split _ _ _ (by simpa using hne), sub_zero]
  intro r hr
  refine Apportion.split_nonneg_of_sum hamount hweights htotal _ ?_
  rw [← hamounts]
  exact List.mem_map_of_mem hr

/-- **Whatever is credited adds up**: nothing, or all that is distributable. -/
theorem sum_credits_rewards {db : PoolDb} (hshares : ∀ s ∈ db.shares.values, 0 ≤ s.difficulty)
    {netReward : ℤ} (hnet : 0 ≤ netReward) {worker : WorkerId} {rs : List PplnsReward}
    (h : c.rewards db netReward worker = .ok rs) :
    credits rs = [] ∨ ((credits rs).map Prod.snd).sum = c.distributable netReward := by
  have hD := distributable_nonneg c hnet
  unfold rewards at h
  cases hm : c.mode with
  | solo =>
    rw [hm] at h
    simp only [bind, Except.bind] at h
    split at h
    · cases h
    · cases h
      right
      rw [sum_credits (by simpa using hD)]
      simp
  | pplns =>
    rw [hm] at h
    simp only at h
    split at h
    · cases h
      exact .inl rfl
    · rename_i hne
      split at h
      · cases h
        exact .inl rfl
      · rename_i htotal
        cases h
        right
        exact sum_credits_shareOut hD hne (PoolDb.pplnsShares_nonneg hshares c.windowSize)
          (not_le.1 htotal)

end Credits

end PplnsCalculator

end ZcashMiningPool
