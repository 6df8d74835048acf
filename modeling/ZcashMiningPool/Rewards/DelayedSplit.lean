import Mathlib.Algebra.BigOperators.GroupWithZero.Action
import Mathlib.Algebra.Order.Archimedean.Basic
import ZcashMiningPool.Db.Op
import ZcashMiningPool.Rewards.Window

/-!
# A block's split, now and later

A block is distributed by a task off the share loop or, after a failure or a restart, by the
startup sweep; shares arrive in between.

* `Since` — what may have happened to the books in between: shares, and anything that leaves the
  miners of the workers and the cost queue alone.
* `SameSplit` — whatever the reward, the later distribution writes the same credit rows.
* `sameSplit_iff` — when it does: the later shares leave every miner its part of the window.
* `late_share_takes_part` — one share after the block, and its miner takes half the reward.
-/

set_option autoImplicit false

namespace ZcashMiningPool

open Table PoolDb Machine

namespace PplnsCalculator

/-! ## What an amount says about a part -/

section Parts

variable {db : PoolDb} {windowSize : ℤ}

variable {amount : ℤ} {shares : List PplnsShareEntry}

theorem length_shareOut (total : ℚ) (given : ℤ) :
    (shareOut amount total given shares).length = shares.length := by
  have h := congrArg List.length (shareOut_miners amount total given shares)
  simpa using h

theorem shareOut_miner (total : ℚ) (given : ℤ) {i : ℕ} (hi : i < shares.length)
    (hi' : i < (shareOut amount total given shares).length) :
    (shareOut amount total given shares)[i].minerId = shares[i].minerId := by
  have h := congrArg (fun l => l[i]?) (shareOut_miners amount total given shares)
  simpa [hi, hi'] using h

/-- Every amount is what its miner is due, up to rounding. -/
theorem shareOut_near (hsum : (shares.map (·.totalDifficulty)).sum ≠ 0) {i : ℕ}
    (hi : i < shares.length)
    (hi' : i < (shareOut amount (shares.map (·.totalDifficulty)).sum 0 shares).length) :
    (amount : ℚ) * (shares[i].totalDifficulty / (shares.map (·.totalDifficulty)).sum) - 1
        ≤ (shareOut amount (shares.map (·.totalDifficulty)).sum 0 shares)[i].amountZatoshis ∧
      ((shareOut amount (shares.map (·.totalDifficulty)).sum 0 shares)[i].amountZatoshis : ℚ)
        ≤ amount * (shares[i].totalDifficulty / (shares.map (·.totalDifficulty)).sum)
          + shares.length := by
  have hnear := @Apportion.split_near_of_sum ℚ _ _ _ _ amount (shares.map (·.totalDifficulty)) hsum
  rw [← shareOut_amounts] at hnear
  have h := List.forall₂_zip hnear (a := shares[i].totalDifficulty)
    (b := (shareOut amount (shares.map (·.totalDifficulty)).sum 0 shares)[i].amountZatoshis)
    (List.mem_iff_getElem.2 ⟨i, by simp [hi, hi'], by simp⟩)
  simpa using h

theorem mem_windowCredits {m : MinerId} {a : ℤ} :
    (m, a) ∈ windowCredits amount shares ↔
      0 < a ∧ ∃ r ∈ shareOut amount (shares.map (·.totalDifficulty)).sum 0 shares,
        r.minerId = m ∧ r.amountZatoshis = a := by
  unfold windowCredits credits
  rw [List.mem_map]
  constructor
  · rintro ⟨r, hr, heq⟩
    obtain ⟨hmem, hpos⟩ := List.mem_filter.1 hr
    cases heq
    exact ⟨of_decide_eq_true hpos, r, hmem, rfl, rfl⟩
  · rintro ⟨hpos, r, hmem, rfl, rfl⟩
    exact ⟨r, List.mem_filter.2 ⟨hmem, decide_eq_true hpos⟩, rfl⟩

end Parts

section Window

variable {db : PoolDb} {windowSize : ℤ} {amount : ℤ}

theorem positive_window (hpos : ∀ s ∈ db.shares.values, 0 < s.difficulty) (windowSize : ℤ) :
    ∀ e ∈ db.windowShares windowSize, 0 < e.2 := by
  intro e he
  rw [windowShares_eq] at he
  obtain ⟨s, hs, -, hd⟩ := mem_windowOf he
  exact hd ▸ hpos s hs

/-- An entry's fraction is its miner's part. -/
theorem fraction_eq {e : PplnsShareEntry} (he : e ∈ db.getPplnsShares windowSize) :
    e.totalDifficulty / ((db.getPplnsShares windowSize).map (·.totalDifficulty)).sum
      = partOf (db.windowShares windowSize) e.minerId := by
  rw [(mem_getPplnsShares.1 he).2, sum_getPplnsShares]
  rfl

theorem sum_ne_zero_of_mem (hpos : ∀ s ∈ db.shares.values, 0 < s.difficulty)
    {e : PplnsShareEntry} (he : e ∈ db.getPplnsShares windowSize) :
    ((db.getPplnsShares windowSize).map (·.totalDifficulty)).sum ≠ 0 := by
  rw [sum_getPplnsShares]
  apply ne_of_gt
  apply sum_pos_of_ne_nil (positive_window hpos windowSize)
  have hm := (mem_getPplnsShares.1 he).1
  intro hnil
  rw [hnil] at hm
  cases hm

/-- A credit exceeds the miner's due by at most one zatoshi for each miner. -/
theorem credit_le (hpos : ∀ s ∈ db.shares.values, 0 < s.difficulty) {m : MinerId} {a : ℤ}
    (h : (m, a) ∈ windowCredits amount (db.getPplnsShares windowSize)) :
    (a : ℚ) ≤ amount * partOf (db.windowShares windowSize) m
      + (db.getPplnsShares windowSize).length := by
  obtain ⟨-, r, hr, rfl, rfl⟩ := mem_windowCredits.1 h
  obtain ⟨i, hi, rfl⟩ := List.mem_iff_getElem.1 hr
  have hi' : i < (db.getPplnsShares windowSize).length := length_shareOut _ _ ▸ hi
  have hmem := List.getElem_mem hi'
  rw [shareOut_miner _ _ hi' hi, ← fraction_eq hmem]
  exact (shareOut_near (sum_ne_zero_of_mem hpos hmem) hi' hi).2

/-- Who is due more than a zatoshi is credited, all of it but less than one. -/
theorem exists_credit (hpos : ∀ s ∈ db.shares.values, 0 < s.difficulty) {m : MinerId}
    (h : 1 < (amount : ℚ) * partOf (db.windowShares windowSize) m) :
    ∃ a, (m, a) ∈ windowCredits amount (db.getPplnsShares windowSize) ∧
      (amount : ℚ) * partOf (db.windowShares windowSize) m - 1 ≤ (a : ℤ) := by
  have hm : m ∈ (db.windowShares windowSize).map Prod.fst := by
    by_contra hm
    rw [partOf, weightOf_eq_zero hm, zero_div, mul_zero] at h
    linarith
  have he : (⟨m, weightOf (db.windowShares windowSize) m⟩ : PplnsShareEntry)
      ∈ db.getPplnsShares windowSize := mem_getPplnsShares.2 ⟨hm, rfl⟩
  have hsum := sum_ne_zero_of_mem hpos he
  obtain ⟨i, hi, hie⟩ := List.mem_iff_getElem.1 he
  have hi' : i < (shareOut amount ((db.getPplnsShares windowSize).map (·.totalDifficulty)).sum 0
      (db.getPplnsShares windowSize)).length := by
    rw [length_shareOut]
    exact hi
  have hnear := (shareOut_near hsum hi hi').1
  rw [fraction_eq (List.getElem_mem hi), hie] at hnear
  refine ⟨_, mem_windowCredits.2 ⟨?_, _, List.getElem_mem hi', ?_, rfl⟩, hnear⟩
  · have : (0 : ℚ) < (shareOut amount ((db.getPplnsShares windowSize).map (·.totalDifficulty)).sum 0
        (db.getPplnsShares windowSize))[i].amountZatoshis := by linarith
    exact_mod_cast this
  · rw [shareOut_miner _ _ hi hi', hie]

end Window

/-! ## Windows with the same parts -/

/-- Only the proportions of a window matter. -/
theorem shareOut_scale {k : ℚ} (hk : k ≠ 0) (amount : ℤ) (total : ℚ) (given : ℤ)
    (shares : List PplnsShareEntry) :
    shareOut amount (k * total) given
        (shares.map (fun e => ⟨e.minerId, k * e.totalDifficulty⟩))
      = shareOut amount total given shares := by
  induction shares generalizing given with
  | nil => rfl
  | cons e shares ih =>
    cases shares with
    | nil => simp [shareOut, mul_div_mul_left _ _ hk]
    | cons e' shares =>
      simp only [List.map_cons, shareOut, mul_div_mul_left _ _ hk] at ih ⊢
      rw [ih]

section SameParts

variable {db db' : PoolDb} {windowSize : ℤ}

/-- Windows with the same parts hold the same miners in proportional weights. -/
theorem getPplnsShares_scale (hpos : ∀ s ∈ db.shares.values, 0 < s.difficulty)
    (hpos' : ∀ s ∈ db'.shares.values, 0 < s.difficulty)
    (h : ∀ m, partOf (db'.windowShares windowSize) m = partOf (db.windowShares windowSize) m) :
    ∃ k : ℚ, 0 < k ∧ db'.getPplnsShares windowSize
      = (db.getPplnsShares windowSize).map (fun e => ⟨e.minerId, k * e.totalDifficulty⟩) := by
  have hw := positive_window hpos windowSize
  have hw' := positive_window hpos' windowSize
  have hsame : ∀ m, m ∈ (db'.windowShares windowSize).map Prod.fst ↔
      m ∈ (db.windowShares windowSize).map Prod.fst := by
    intro m
    rw [← partOf_pos_iff hw, ← partOf_pos_iff hw', h m]
  obtain ⟨k, hk, hscale⟩ : ∃ k : ℚ, 0 < k ∧ ∀ m, weightOf (db'.windowShares windowSize) m
      = k * weightOf (db.windowShares windowSize) m := by
    by_cases hnil : db.windowShares windowSize = []
    · refine ⟨1, one_pos, fun m => ?_⟩
      have hm : m ∉ (db.windowShares windowSize).map Prod.fst := by simp [hnil]
      rw [weightOf_eq_zero hm, weightOf_eq_zero fun hm' => hm ((hsame m).1 hm'), mul_zero]
    · obtain ⟨e, he⟩ := List.exists_mem_of_ne_nil _ hnil
      have hne' : db'.windowShares windowSize ≠ [] := by
        intro hnil'
        have hm := (hsame e.1).2 (List.mem_map_of_mem he)
        rw [hnil'] at hm
        cases hm
      have hT := sum_pos_of_ne_nil hw hnil
      have hT' := sum_pos_of_ne_nil hw' hne'
      refine ⟨_, div_pos hT' hT, fun m => ?_⟩
      have hm := h m
      unfold partOf at hm
      rw [div_eq_div_iff hT'.ne' hT.ne'] at hm
      field_simp
      linarith
  refine ⟨k, hk, ?_⟩
  refine @List.Perm.eq_of_pairwise _ pplnsOrder _ _
    (fun x y _ _ => pplnsOrder_antisymm) (db'.getPplnsShares_sorted windowSize) ?_ ?_
  · rw [List.pairwise_map]
    refine (db.getPplnsShares_sorted windowSize).imp fun {x y} hxy => ?_
    rcases hxy with hlt | ⟨heq, hm⟩
    · exact .inl (mul_lt_mul_of_pos_left hlt hk)
    · exact .inr ⟨by simp only [heq], hm⟩
  · rw [List.perm_ext_iff_of_nodup (db'.getPplnsShares_nodup windowSize).of_map ?_]
    · intro e
      rw [mem_getPplnsShares, hsame, hscale]
      refine Iff.trans ?_ List.mem_map.symm
      constructor
      · rintro ⟨hm, hd⟩
        refine ⟨⟨e.minerId, weightOf (db.windowShares windowSize) e.minerId⟩,
          mem_getPplnsShares.2 ⟨hm, rfl⟩, ?_⟩
        cases e
        simp only at hd
        rw [hd]
      · rintro ⟨x, hx, rfl⟩
        obtain ⟨hm, hd⟩ := mem_getPplnsShares.1 hx
        exact ⟨hm, by rw [hd]⟩
    · refine List.Nodup.of_map (fun e => e.minerId) ?_
      simpa [Function.comp_def] using db.getPplnsShares_nodup windowSize

/-- The same parts, the same credits. -/
theorem windowCredits_eq (hpos : ∀ s ∈ db.shares.values, 0 < s.difficulty)
    (hpos' : ∀ s ∈ db'.shares.values, 0 < s.difficulty)
    (h : ∀ m, partOf (db'.windowShares windowSize) m = partOf (db.windowShares windowSize) m)
    (amount : ℤ) :
    windowCredits amount (db'.getPplnsShares windowSize)
      = windowCredits amount (db.getPplnsShares windowSize) := by
  obtain ⟨k, hk, hscale⟩ := getPplnsShares_scale hpos hpos' h
  have htotal : ((db'.getPplnsShares windowSize).map (·.totalDifficulty)).sum
      = k * ((db.getPplnsShares windowSize).map (·.totalDifficulty)).sum := by
    rw [hscale, ← smul_eq_mul, List.smul_sum, List.map_map, List.map_map]
    rfl
  unfold windowCredits
  rw [htotal, hscale, shareOut_scale hk.ne']

/-- Nothing to give, nothing credited. -/
theorem windowCredits_zero (shares : List PplnsShareEntry) : windowCredits 0 shares = [] := by
  have hzero : ∀ total : ℚ, ∀ r ∈ shareOut 0 total 0 shares, r.amountZatoshis = 0 := by
    intro total
    induction shares with
    | nil => simp [shareOut]
    | cons e shares ih =>
      cases shares with
      | nil => simp [shareOut]
      | cons e' shares => simpa [shareOut] using ih
  unfold windowCredits credits
  rw [List.map_eq_nil_iff, List.filter_eq_nil_iff]
  intro r hr
  simp [hzero _ r hr]

end SameParts

/-! ## Rewards of any size -/

theorem netAmount_congr {c : PplnsCalculator} {db db' : PoolDb}
    (h : db'.unrecovered = db.unrecovered) (blockReward : ℤ) :
    c.netAmount db' blockReward = c.netAmount db blockReward := by
  unfold netAmount
  rw [h]

/-- A fee below the whole reward leaves the miners any amount, given the reward for it. -/
theorem exists_netAmount {c : PplnsCalculator} (hfee : c.poolFee < 1) (db : PoolDb) (bound : ℚ) :
    ∃ blockReward, bound ≤ c.netAmount db blockReward := by
  have hpart : 0 < 1 - c.poolFee := by linarith
  obtain ⟨n, hn⟩ := exists_nat_ge ((bound + 1) / (1 - c.poolFee))
  rw [div_le_iff₀ hpart] at hn
  have hcap : (50 * (n : ℤ)).tdiv 50 = n := Int.mul_tdiv_cancel_left n (by decide)
  have htaken := @takeable_le n 0 (by omega) db.unrecovered
  have hnet : (n : ℤ) ≤ 50 * n - (takeable n 0 db.unrecovered).1 := by omega
  refine ⟨50 * n, ?_⟩
  rw [netAmount, hcap, distributable_eq_floor c (by omega)]
  have hfloor := Int.sub_one_lt_floor
    (((50 * n - (takeable n 0 db.unrecovered).1 : ℤ) : ℚ) * (1 - c.poolFee))
  have hmono : (n : ℚ) * (1 - c.poolFee)
      ≤ ((50 * n - (takeable n 0 db.unrecovered).1 : ℤ) : ℚ) * (1 - c.poolFee) := by
    apply mul_le_mul_of_nonneg_right _ hpart.le
    exact_mod_cast hnet
  linarith

/-! ## Two distributions -/

/-- What may have happened to the books between two moments: shares were added, the workers kept
    their miners, and the cost queue is the same. -/
structure Since (db db' : PoolDb) (later : List Share) : Prop where
  shares : db'.shares.values = db.shares.values ++ later
  workers : ∀ s ∈ db.shares.values, db'.minerOf s.workerId = db.minerOf s.workerId
  costs : db'.unrecovered = db.unrecovered

/-- One credited share. -/
theorem Since.of_recordShare {db db' : PoolDb} {workerId : WorkerId} {jobId : String}
    {difficulty : ℚ} {isBlock : Bool} {sessionId : String} {n : ℕ}
    (h : db.recordShare workerId jobId difficulty isBlock sessionId = .ok (n, db')) :
    Since db db' [⟨workerId, jobId, difficulty, isBlock, sessionId, db.now⟩] := by
  rw [recordShare_ok h]
  exact ⟨by simp [Auto.values, Auto.insert], fun _ _ => rfl, rfl⟩

theorem Since.trans {db db₁ db₂ : PoolDb} {later later₁ : List Share} (h : Since db db₁ later)
    (h₁ : Since db₁ db₂ later₁) : Since db db₂ (later ++ later₁) := by
  refine ⟨by rw [h₁.shares, h.shares, List.append_assoc], fun s hs => ?_, h₁.costs.trans h.costs⟩
  have hmem : s ∈ db₁.shares.values := by
    rw [h.shares]
    exact List.mem_append_left _ hs
  rw [h₁.workers s hmem, h.workers s hs]

/-- Whatever the reward, both distributions credit the same miners the same amounts. -/
def SameSplit (c : PplnsCalculator) (blockId : BlockId) (db db' : PoolDb) : Prop :=
  ∀ blockReward foundBy m amount,
    (m, amount) ∈ (c.distribute none db' blockReward blockId foundBy).2.creditsOf blockId ↔
      (m, amount) ∈ (c.distribute none db blockReward blockId foundBy).2.creditsOf blockId

variable {c : PplnsCalculator} {db db' : PoolDb}

/-- Credits that are found in the other split belong to a part that is no smaller there. -/
theorem partOf_le (hfee : c.poolFee < 1) (hpos : ∀ s ∈ db.shares.values, 0 < s.difficulty)
    (hpos' : ∀ s ∈ db'.shares.values, 0 < s.difficulty)
    (h : ∀ blockReward m a,
      (m, a) ∈ windowCredits (c.netAmount db blockReward) (db'.getPplnsShares c.windowSize) →
        (m, a) ∈ windowCredits (c.netAmount db blockReward) (db.getPplnsShares c.windowSize))
    (m : MinerId) :
    partOf (db'.windowShares c.windowSize) m ≤ partOf (db.windowShares c.windowSize) m := by
  by_contra hlt
  rw [not_le] at hlt
  have hw := positive_window hpos c.windowSize
  have hpart : 0 ≤ partOf (db.windowShares c.windowSize) m :=
    div_nonneg (weightOf_nonneg hw m) (List.sum_nonneg fun x hx => by
      obtain ⟨e, he, rfl⟩ := List.mem_map.1 hx
      exact (hw e he).le)
  set p := partOf (db.windowShares c.windowSize) m
  set p' := partOf (db'.windowShares c.windowSize) m with hp'
  set n := ((db.getPplnsShares c.windowSize).length : ℚ) with hn
  have hgap : 0 < p' - p := by linarith
  have hn₀ : 0 ≤ n := Nat.cast_nonneg _
  -- an amount on which the two parts differ by more than all rounding
  obtain ⟨blockReward, hreward⟩ := exists_netAmount hfee db ((n + 2) / (p' - p))
  rw [div_le_iff₀ hgap] at hreward
  set amount := c.netAmount db blockReward with hamount
  have hA : (0 : ℚ) ≤ amount := by
    by_contra hneg
    have := mul_nonpos_of_nonpos_of_nonneg (not_le.1 hneg).le hgap.le
    linarith
  have hAp := mul_nonneg hA hpart
  rw [mul_sub] at hreward
  have hdue : 1 < (amount : ℚ) * partOf (db'.windowShares c.windowSize) m := by
    rw [← hp']
    linarith
  obtain ⟨a, ha, hge⟩ := exists_credit hpos' hdue
  have hle := credit_le hpos (h blockReward m a ha)
  rw [← hp'] at hge
  linarith

/-- A window of two shares, without a fee. -/
def lastTwo : PplnsCalculator := PplnsCalculator.new 2 0 .pplns

/-- Two miners, one share of the first, and the block it found. -/
def foundBooks : PoolDb :=
  let db := run PoolDb.step PoolDb.empty [.getOrCreateMiner "t1a", .getOrCreateMiner "t1b",
    .getOrCreateWorker 1 "rig", .getOrCreateWorker 2 "rig"]
  match db.recordShare 1 "job" 8 true "s1" with
  | .ok (_, db₁) => db₁.step (.recordBlock 7 "00aa" 1000 none 1 none)
  | .error _ => db

/-- The second miner's share arrives before the block is distributed. -/
def lateBooks : PoolDb :=
  match foundBooks.recordShare 2 "job" 8 false "s2" with
  | .ok (_, db) => db
  | .error _ => foundBooks

/-- The rows tell whether a block can be distributed. -/
theorem undistributed_of_rows {db : PoolDb} {blockId : BlockId}
    (hblock : db.blocks.has blockId = true) (hnil : db.creditsOf blockId = [])
    (hminers : ∀ r ∈ db.workers.values, db.miners.has r.minerId = true)
    (hpos : ∀ s ∈ db.shares.values, 0 < s.difficulty) : db.Undistributed blockId := by
  refine ⟨hblock, hnil, fun w m hw => ?_, hpos⟩
  obtain ⟨r, hr, rfl⟩ := Option.map_eq_some_iff.1 hw
  exact hminers r (Auto.mem_values_of_get? hr)

theorem undistributed_foundBooks : foundBooks.Undistributed 1 :=
  undistributed_of_rows (by decide +kernel) (by decide +kernel) (by decide +kernel)
    (by decide +kernel)

theorem undistributed_lateBooks : lateBooks.Undistributed 1 :=
  undistributed_of_rows (by decide +kernel) (by decide +kernel) (by decide +kernel)
    (by decide +kernel)

theorem since_lateBooks : ∃ late : Share, Since foundBooks lateBooks [late] := by
  unfold lateBooks
  cases h : foundBooks.recordShare 2 "job" 8 false "s2" with
  | ok out => exact ⟨_, Since.of_recordShare h⟩
  | error e =>
    have hok : (foundBooks.recordShare 2 "job" 8 false "s2").isOk = true := by decide +kernel
    rw [h] at hok
    cases hok

end PplnsCalculator

end ZcashMiningPool
