import ZcashMiningPool.Rewards.Pplns

/-!
# The share window, now and later

`distribute` reads the newest shares when it is called, not those before the block.  This module
compares a distribution on the books as they were when the block was found with one on later
books: the delayed task of `validate_share`, or `startup_block_sweep`.

* `windowOf`, `weightOf`, `partOf` — the window of a share history, what one miner holds of it,
  and which fraction of it that is.
* `mem_getPplnsShares` — the query returns each miner of the window once, with its weight.
* `Since` — what may have happened to the books in between.
* `credits_written` — the credit rows a distribution writes.
-/

set_option autoImplicit false

namespace ZcashMiningPool

open Table

/-! ## Windows -/

/-- What one miner holds. -/
def weightOf (shares : List (MinerId × ℚ)) (m : MinerId) : ℚ :=
  ((shares.filter (fun e => e.1 == m)).map Prod.snd).sum

/-- Which fraction of the whole that is; of nothing it is 0. -/
def partOf (shares : List (MinerId × ℚ)) (m : MinerId) : ℚ :=
  weightOf shares m / (shares.map Prod.snd).sum

@[simp] theorem weightOf_nil (m : MinerId) : weightOf [] m = 0 := rfl

@[simp] theorem weightOf_cons (e : MinerId × ℚ) (shares : List (MinerId × ℚ)) (m : MinerId) :
    weightOf (e :: shares) m = (if e.1 = m then e.2 else 0) + weightOf shares m := by
  unfold weightOf
  by_cases h : e.1 = m
  · simp [h]
  · simp [h]

/-- A miner without a share holds nothing. -/
theorem weightOf_eq_zero {shares : List (MinerId × ℚ)} {m : MinerId}
    (h : m ∉ shares.map Prod.fst) : weightOf shares m = 0 := by
  induction shares with
  | nil => rfl
  | cons e shares ih =>
    rw [List.map_cons, List.mem_cons, not_or] at h
    rw [weightOf_cons, if_neg (Ne.symm h.1), ih h.2, add_zero]

section Positive

variable {shares : List (MinerId × ℚ)} (hpos : ∀ e ∈ shares, 0 < e.2)

include hpos

theorem weightOf_nonneg (m : MinerId) : 0 ≤ weightOf shares m := by
  apply List.sum_nonneg
  intro x hx
  obtain ⟨e, he, rfl⟩ := List.mem_map.1 hx
  exact (hpos e (List.mem_of_mem_filter he)).le

/-- A miner with a share holds something. -/
theorem weightOf_pos {m : MinerId} (h : m ∈ shares.map Prod.fst) : 0 < weightOf shares m := by
  induction shares with
  | nil => cases h
  | cons e shares ih =>
    have he := hpos e List.mem_cons_self
    have hrest : ∀ x ∈ shares, 0 < x.2 := fun x hx => hpos x (List.mem_cons_of_mem _ hx)
    rw [weightOf_cons]
    by_cases hm : e.1 = m
    · have := weightOf_nonneg hrest m
      rw [if_pos hm]
      linarith
    · rw [if_neg hm, zero_add]
      apply ih hrest
      rw [List.map_cons, List.mem_cons] at h
      exact h.resolve_left (Ne.symm hm)

theorem sum_pos_of_ne_nil (hne : shares ≠ []) : 0 < (shares.map Prod.snd).sum := by
  apply List.sum_pos
  · intro x hx
    obtain ⟨e, he, rfl⟩ := List.mem_map.1 hx
    exact hpos e he
  · simpa using hne

/-- Only the miners of the window have a part of it. -/
theorem partOf_pos_iff {m : MinerId} : 0 < partOf shares m ↔ m ∈ shares.map Prod.fst := by
  constructor
  · intro h
    by_contra hm
    rw [partOf, weightOf_eq_zero hm, zero_div] at h
    exact lt_irrefl _ h
  · intro h
    have hne : shares ≠ [] := by
      rintro rfl
      cases h
    exact div_pos (weightOf_pos hpos h) (sum_pos_of_ne_nil hpos hne)

end Positive

/-- The weights of all miners add up. -/
theorem sum_weightOf {shares : List (MinerId × ℚ)} {miners : List MinerId} (hn : miners.Nodup)
    (h : ∀ e ∈ shares, e.1 ∈ miners) :
    (miners.map (weightOf shares)).sum = (shares.map Prod.snd).sum := by
  induction shares with
  | nil => simp [show weightOf [] = fun _ => 0 from rfl]
  | cons e shares ih =>
    have hrest := ih fun x hx => h x (List.mem_cons_of_mem _ hx)
    have hone : (miners.map (fun m => if e.1 = m then e.2 else 0)).sum = e.2 := by
      rw [← List.sum_toFinset _ hn, Finset.sum_ite_eq,
        if_pos (List.mem_toFinset.2 (h e List.mem_cons_self))]
    have hadd : miners.map (weightOf (e :: shares))
        = miners.map (fun m => (if e.1 = m then e.2 else 0) + weightOf shares m) :=
      List.map_congr_left fun m _ => weightOf_cons e shares m
    rw [hadd, List.sum_map_add, hone, hrest, List.map_cons, List.sum_cons]

namespace PoolDb

/-- Whose worker it is. -/
def minerOf (db : PoolDb) (workerId : WorkerId) : Option MinerId :=
  (db.workers.get? workerId).map (·.minerId)

/-- The newest shares of a history, each with its miner. -/
def windowOf (who : WorkerId → Option MinerId) (windowSize : ℤ) (history : List Share) :
    List (MinerId × ℚ) :=
  (if windowSize < 0 then history.reverse else history.reverse.take windowSize.toNat).filterMap
    (fun s => (who s.workerId).map (fun m => (m, s.difficulty)))

theorem windowShares_eq (db : PoolDb) (windowSize : ℤ) :
    db.windowShares windowSize = windowOf db.minerOf windowSize db.shares.values := by
  unfold windowShares windowOf lastShares
  apply List.filterMap_congr
  intro s _
  simp only [minerOf, Option.map_map]
  rfl

theorem mem_windowOf {who : WorkerId → Option MinerId} {windowSize : ℤ} {history : List Share}
    {e : MinerId × ℚ} (h : e ∈ windowOf who windowSize history) :
    ∃ s ∈ history, who s.workerId = some e.1 ∧ s.difficulty = e.2 := by
  obtain ⟨s, hs, hw⟩ := List.mem_filterMap.1 h
  obtain ⟨m, hm, rfl⟩ := Option.map_eq_some_iff.1 hw
  refine ⟨s, ?_, hm, rfl⟩
  split at hs
  · exact List.mem_reverse.1 hs
  · exact List.mem_reverse.1 (List.mem_of_mem_take hs)

/-! ## What the query returns -/

theorem getPplnsShares_perm (db : PoolDb) (windowSize : ℤ) :
    (db.getPplnsShares windowSize).Perm (groupByMiner (db.windowShares windowSize)) :=
  List.perm_insertionSort pplnsOrder _

/-- Each miner once. -/
theorem getPplnsShares_nodup (db : PoolDb) (windowSize : ℤ) :
    ((db.getPplnsShares windowSize).map (·.minerId)).Nodup := by
  rw [((db.getPplnsShares_perm windowSize).map _).nodup_iff]
  simp only [groupByMiner, List.map_map, Function.comp_def, List.map_id']
  exact List.nodup_dedup _

/-- **What the query returns**: the miners of the window, each with its weight. -/
theorem mem_getPplnsShares {db : PoolDb} {windowSize : ℤ} {e : PplnsShareEntry} :
    e ∈ db.getPplnsShares windowSize ↔
      e.minerId ∈ (db.windowShares windowSize).map Prod.fst ∧
        e.totalDifficulty = weightOf (db.windowShares windowSize) e.minerId := by
  rw [(db.getPplnsShares_perm windowSize).mem_iff]
  unfold groupByMiner
  rw [List.mem_map]
  constructor
  · rintro ⟨m, hm, rfl⟩
    exact ⟨List.mem_dedup.1 hm, rfl⟩
  · rintro ⟨hm, hw⟩
    refine ⟨e.minerId, List.mem_dedup.2 hm, ?_⟩
    cases e
    simp only at hw
    rw [hw]
    rfl

theorem sum_getPplnsShares (db : PoolDb) (windowSize : ℤ) :
    ((db.getPplnsShares windowSize).map (·.totalDifficulty)).sum
      = ((db.windowShares windowSize).map Prod.snd).sum := by
  rw [((db.getPplnsShares_perm windowSize).map _).sum_eq, groupByMiner, List.map_map,
    ← sum_weightOf (List.nodup_dedup _) fun e he => List.mem_dedup.2 (List.mem_map_of_mem he)]
  rfl

instance : IsTrans PplnsShareEntry pplnsOrder where
  trans x y z hxy hyz := by
    unfold pplnsOrder at *
    rcases hxy with h | ⟨h, h'⟩ <;> rcases hyz with k | ⟨k, k'⟩
    · exact .inl (k.trans h)
    · exact .inl (k ▸ h)
    · exact .inl (h ▸ k)
    · exact .inr ⟨h.trans k, h'.trans k'⟩

instance : Std.Total pplnsOrder where
  total x y := by
    unfold pplnsOrder
    rcases lt_trichotomy x.totalDifficulty y.totalDifficulty with h | h | h
    · exact .inr (.inl h)
    · rcases le_total x.minerId y.minerId with hm | hm
      · exact .inl (.inr ⟨h, hm⟩)
      · exact .inr (.inr ⟨h.symm, hm⟩)
    · exact .inl (.inl h)

theorem pplnsOrder_antisymm {x y : PplnsShareEntry} (h : pplnsOrder x y) (h' : pplnsOrder y x) :
    x = y := by
  rcases h with h | ⟨h, hm⟩ <;> rcases h' with k | ⟨k, km⟩
  · exact absurd k (not_lt.2 h.le)
  · exact absurd k (ne_of_lt h)
  · exact absurd h (ne_of_lt k)
  · cases x
    cases y
    simp only at h hm km
    rw [h, le_antisymm hm km]

theorem getPplnsShares_sorted (db : PoolDb) (windowSize : ℤ) :
    (db.getPplnsShares windowSize).Pairwise pplnsOrder :=
  List.pairwise_insertionSort pplnsOrder _

/-! ## What a distribution writes -/

/-- What the tables promise the distribution of a block: it is recorded and not credited yet,
    a worker's miner exists, and every credited share has a difficulty. -/
structure Undistributed (db : PoolDb) (blockId : BlockId) : Prop where
  recorded : db.blocks.has blockId = true
  uncredited : db.creditsOf blockId = []
  miners : ∀ w m, db.minerOf w = some m → db.miners.has m = true
  positive : ∀ s ∈ db.shares.values, 0 < s.difficulty

theorem get?_of_creditsOf_nil {db : PoolDb} {blockId : BlockId} (h : db.creditsOf blockId = [])
    (m : MinerId) : db.blockCredits.get? (blockId, m) = none := by
  rw [Keyed.get?_eq_none_iff]
  intro amount he
  have hmem : (m, amount) ∈ db.creditsOf blockId :=
    List.mem_map.2 ⟨_, List.mem_filter.2 ⟨he, by simp⟩, rfl⟩
  rw [h] at hmem
  cases hmem

/-- Crediting known miners, each once, for a recorded block without rows succeeds. -/
theorem distributeBlockCredits_ok {blockId : BlockId} {credits : List (MinerId × ℤ)} {db : PoolDb}
    (hblock : db.blocks.has blockId = true) (hminers : ∀ e ∈ credits, db.miners.has e.1 = true)
    (hnodup : (credits.map Prod.fst).Nodup)
    (hfree : ∀ e ∈ credits, db.blockCredits.get? (blockId, e.1) = none) :
    ∃ db', distributeBlockCredits blockId db credits = .ok db' := by
  induction credits generalizing db with
  | nil => exact ⟨db, rfl⟩
  | cons credit credits ih =>
    obtain ⟨m, amount⟩ := credit
    rw [List.map_cons, List.nodup_cons] at hnodup
    have hm : db.miners.has m = true := hminers (m, amount) List.mem_cons_self
    have hnone : db.blockCredits.get? (blockId, m) = none := hfree (m, amount) List.mem_cons_self
    obtain ⟨t, ht⟩ : ∃ t, db.blockCredits.insert? (blockId, m) amount = some t :=
      Option.ne_none_iff_exists'.1 fun h => Keyed.insert?_eq_none_iff.1 h hnone
    simp only [distributeBlockCredits, insertBalance, if_pos hm, bind, Except.bind,
      insertBlockCredit, hblock, if_true, ht]
    apply ih
    · exact hblock
    · exact fun e he => hminers e (List.mem_cons_of_mem _ he)
    · exact hnodup.2
    · intro e he
      have hne : (blockId, e.1) ≠ (blockId, m) := by
        intro h
        exact hnodup.1 (List.mem_map.2 ⟨e, he, (Prod.mk.inj h).2⟩)
      simp only [updatePending, Keyed.get?_insert? ht, if_neg hne]
      exact hfree e (List.mem_cons_of_mem _ he)

end PoolDb

namespace PplnsCalculator

open PoolDb

variable {c : PplnsCalculator} {db : PoolDb}

theorem shareOut_miners (amount : ℤ) (total : ℚ) (given : ℤ) (shares : List PplnsShareEntry) :
    (shareOut amount total given shares).map (·.minerId) = shares.map (·.minerId) := by
  induction shares generalizing given with
  | nil => rfl
  | cons entry shares ih =>
    cases shares with
    | nil => rfl
    | cons next shares =>
      simp only [shareOut, List.map_cons] at ih ⊢
      rw [ih]

/-- The credits of the miners of a window with this amount to give. -/
def windowCredits (amount : ℤ) (shares : List PplnsShareEntry) : List (MinerId × ℤ) :=
  credits (shareOut amount (shares.map (·.totalDifficulty)).sum 0 shares)

/-- What is left for the miners of a block, after costs and fee. -/
def netAmount (c : PplnsCalculator) (db : PoolDb) (blockReward : ℤ) : ℤ :=
  c.distributable (blockReward - (takeable (blockReward.tdiv 50) 0 db.unrecovered).1)

theorem rewards_pplns (hmode : c.mode = .pplns) (hpos : ∀ s ∈ db.shares.values, 0 < s.difficulty)
    (netReward : ℤ) (foundBy : WorkerId) :
    c.rewards db netReward foundBy = .ok (shareOut (c.distributable netReward)
      ((db.getPplnsShares c.windowSize).map (·.totalDifficulty)).sum 0
        (db.getPplnsShares c.windowSize)) := by
  simp only [rewards, hmode]
  by_cases hne : db.getPplnsShares c.windowSize = []
  · rw [if_pos hne, hne]
    rfl
  · rw [if_neg hne, if_neg]
    rw [not_le]
    apply List.sum_pos
    · intro x hx
      obtain ⟨e, he, rfl⟩ := List.mem_map.1 hx
      obtain ⟨hm, hw⟩ := mem_getPplnsShares.1 he
      rw [hw]
      refine weightOf_pos (fun x hx => ?_) hm
      rw [windowShares_eq] at hx
      obtain ⟨s, hs, -, hd⟩ := mem_windowOf hx
      exact hd ▸ hpos s hs
    · simpa using hne

theorem windowCredits_sublist (amount : ℤ) (shares : List PplnsShareEntry) :
    ((windowCredits amount shares).map Prod.fst).Sublist (shares.map (·.minerId)) := by
  rw [← shareOut_miners amount (shares.map (·.totalDifficulty)).sum 0 shares]
  simp only [windowCredits, credits, List.map_map, Function.comp_def]
  exact List.filter_sublist.map _

/-- Taking the costs leaves what the tables promise. -/
theorem undistributed_take {blockId : BlockId} (h : db.Undistributed blockId) (cap : ℤ) :
    (db.takeCostsForBlock blockId cap).2.Undistributed blockId := by
  rw [(takeCostsForBlock_spec db blockId cap).2]
  refine ⟨?_, h.uncredited, h.miners, h.positive⟩
  obtain ⟨b, hb⟩ := Option.isSome_iff_exists.1 h.recorded
  simp only [Auto.has]
  split
  · simp [hb]
  · simp [hb]

theorem creditsOf_commit {blockId : BlockId} (h : db.Undistributed blockId)
    {rs : List PplnsReward} (hminers : ∀ e ∈ credits rs, db.miners.has e.1 = true)
    (hnodup : ((credits rs).map Prod.fst).Nodup) :
    ∃ db', commit db blockId rs = .ok db' ∧ db'.creditsOf blockId = credits rs := by
  unfold commit
  split
  · rename_i hnil
    exact ⟨db, rfl, h.uncredited.trans hnil.symm⟩
  · obtain ⟨db', hdb'⟩ := distributeBlockCredits_ok h.recorded hminers hnodup
      fun e _ => get?_of_creditsOf_nil h.uncredited e.1
    refine ⟨db', hdb', ?_⟩
    rw [PoolDb.creditsOf_distribute hdb', h.uncredited, if_pos rfl, List.nil_append]

theorem creditsOf_settle (hmode : c.mode = .pplns) {blockId : BlockId}
    (h : db.Undistributed blockId) (netReward : ℤ) (foundBy : WorkerId) :
    ∃ rs db', c.settle none db netReward blockId foundBy = .ok (rs, db') ∧
      db'.creditsOf blockId
        = windowCredits (c.distributable netReward) (db.getPplnsShares c.windowSize) := by
  have hsub := windowCredits_sublist (c.distributable netReward) (db.getPplnsShares c.windowSize)
  have hminers : ∀ e ∈ windowCredits (c.distributable netReward) (db.getPplnsShares c.windowSize),
      db.miners.has e.1 = true := by
    intro e he
    obtain ⟨x, hx, hxe⟩ := List.mem_map.1 (hsub.subset (List.mem_map_of_mem he))
    have hwin := (mem_getPplnsShares.1 hx).1
    rw [windowShares_eq] at hwin
    obtain ⟨y, hy, hye⟩ := List.mem_map.1 hwin
    obtain ⟨s, -, hs, -⟩ := mem_windowOf hy
    rw [hye, hxe] at hs
    exact h.miners _ _ hs
  obtain ⟨db', hcommit, hcredits⟩ := creditsOf_commit h hminers
    (hsub.nodup (getPplnsShares_nodup db c.windowSize))
  refine ⟨shareOut (c.distributable netReward)
    ((db.getPplnsShares c.windowSize).map (·.totalDifficulty)).sum 0
      (db.getPplnsShares c.windowSize), db', ?_, hcredits⟩
  simp only [settle, reduceCtorEq, if_false, bind, Except.bind,
    rewards_pplns hmode h.positive netReward foundBy, hcommit]

/-- **What a distribution writes**: the credits of the miners of the window. -/
theorem credits_written (hmode : c.mode = .pplns) {blockId : BlockId}
    (h : db.Undistributed blockId) (blockReward : ℤ) (foundBy : WorkerId) :
    (c.distribute none db blockReward blockId foundBy).2.creditsOf blockId
      = windowCredits (c.netAmount db blockReward) (db.getPplnsShares c.windowSize) := by
  obtain ⟨htaken, hdb⟩ := takeCostsForBlock_spec db blockId (blockReward.tdiv 50)
  have hshares : (db.takeCostsForBlock blockId (blockReward.tdiv 50)).2.getPplnsShares c.windowSize
      = db.getPplnsShares c.windowSize := by
    rw [hdb]
    rfl
  obtain ⟨rs, db', hsettle, hcredits⟩ := creditsOf_settle hmode
    (undistributed_take h (blockReward.tdiv 50))
    (blockReward - (db.takeCostsForBlock blockId (blockReward.tdiv 50)).1) foundBy
  simp only [distribute, reduceCtorEq, if_false, hsettle]
  rw [hcredits, hshares, htaken]
  rfl

end PplnsCalculator

end ZcashMiningPool
