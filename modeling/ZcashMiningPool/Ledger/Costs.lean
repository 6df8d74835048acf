import ZcashMiningPool.Ledger.Accounts

/-!
# The cost ledger

A pipeline cost is in the queue or in the stamp of a block that is not orphaned.

* `CostsBalance` — charged = queued + stamped.
* `CostsInv` — fees and stamps are non-negative, and orphaned blocks carry no stamp.
* `costsGood` — the steps that keep the balance: a take that consumes something targets a
  recorded, unorphaned, unstamped block; a block orphaned without credit rows has no stamp.
* `costs_balance_iff` — the balance holds along a run exactly when all its steps are good.
* `retriedTakeRun` — a second take overwrites the stamp of the first, and the first cost is lost.
-/

set_option autoImplicit false

namespace ZcashMiningPool

open Table Buckets Machine

namespace PoolDb

/-- Fees ever charged; a re-queued cost is not charged again. -/
def charged (db : PoolDb) : ℤ :=
  db.poolTxCosts.sum (fun r => if r.kind = .reorphaned then 0 else r.fee)

/-- Fees still in the queue. -/
def queued (db : PoolDb) : ℤ := db.poolTxCosts.sum (fun r => if r.recovered then 0 else r.fee)

/-- What blocks that are not orphaned recovered. -/
def stamped (db : PoolDb) : ℤ :=
  db.blocks.sum (fun r => if r.status = .orphaned then 0 else r.costsRecovered)

/-- Pipeline costs are neither lost nor charged twice. -/
def CostsBalance (db : PoolDb) : Prop := db.charged = db.queued + db.stamped

instance (db : PoolDb) : Decidable db.CostsBalance :=
  inferInstanceAs (Decidable (db.charged = db.queued + db.stamped))

structure CostsInv (db : PoolDb) : Prop where
  fees_nonneg : ∀ r ∈ db.poolTxCosts.values, 0 ≤ r.fee
  stamps_nonneg : ∀ r ∈ db.blocks.values, 0 ≤ r.costsRecovered
  orphans_clear : ∀ r ∈ db.blocks.values, r.status = .orphaned → r.costsRecovered = 0

/-- Fees are not negative, and only the reversal itself re-queues. -/
def costsOk (_ : PoolDb) : Op → Prop
  | .recordTxCost kind _ fee => kind ≠ .reorphaned ∧ 0 ≤ fee
  | .updateBlockStatus _ _ => False
  | _ => True

/-- The steps that keep the balance. -/
def costsGood (db : PoolDb) : Op → Prop
  | .takeCostsForBlock b cap => 0 < (takeable cap 0 db.unrecovered).1 →
      ∃ r, db.blocks.get? b = some r ∧ r.status ≠ .orphaned ∧ r.costsRecovered = 0
  | .orphanBlock b _ => db.creditsOf b = [] →
      ∀ r, db.blocks.get? b = some r → r.status ≠ .orphaned → r.costsRecovered = 0
  | _ => True

/-! ## Operations that leave the costs alone -/

theorem CostsBalance.congr {db db' : PoolDb} (hc : db'.poolTxCosts = db.poolTxCosts)
    (hb : db'.blocks = db.blocks) : db'.CostsBalance ↔ db.CostsBalance := by
  unfold CostsBalance charged queued stamped
  rw [hc, hb]

theorem CostsInv.congr {db db' : PoolDb} (h : CostsInv db)
    (hc : db'.poolTxCosts = db.poolTxCosts) (hb : db'.blocks = db.blocks) : CostsInv db' :=
  ⟨hc ▸ h.fees_nonneg, hb ▸ h.stamps_nonneg, hb ▸ h.orphans_clear⟩

/-- The operations that write neither the cost queue nor the block table. -/
def leavesCosts (op : Op) : Bool := !op.writes .poolTxCosts && !op.writes .blocks

theorem costs_frame (db : PoolDb) {op : Op} (hop : leavesCosts op = true) :
    (db.step op).poolTxCosts = db.poolTxCosts ∧ (db.step op).blocks = db.blocks := by
  simp only [leavesCosts, Bool.and_eq_true, Bool.not_eq_true'] at hop
  exact ⟨step_same db op hop.1, step_same db op hop.2⟩

/-! ## Taking -/

/-- Marking rows of the queue lowers it by the fees of the rows marked. -/
theorem sum_marked (rows : List (ℕ × PoolTxCost)) (ids : List ℕ) :
    (rows.map (fun e => if (if e.1 ∈ ids then { e.2 with recovered := true } else e.2).recovered
        then 0 else (if e.1 ∈ ids then { e.2 with recovered := true } else e.2).fee)).sum
      + (((rows.filter (fun e => !e.2.recovered)).map (fun e => (e.1, e.2.fee))).map
          (fun e => if e.1 ∈ ids then e.2 else 0)).sum
      = (rows.map (fun e => if e.2.recovered then 0 else e.2.fee)).sum := by
  induction rows with
  | nil => rfl
  | cons e rows ih =>
    by_cases hi : e.1 ∈ ids <;> cases hr : e.2.recovered <;>
      simp only [List.map_cons, List.sum_cons, List.filter_cons, hr, hi, Bool.not_false,
        Bool.not_true, Bool.false_eq_true, if_true, if_false] at ih ⊢ <;> omega

/-- A take lowers the queue by what it took. -/
theorem queued_take (db : PoolDb) (blockId : BlockId) (cap : ℤ) :
    (db.takeCostsForBlock blockId cap).2.queued + (takeable cap 0 db.unrecovered).1
      = db.queued := by
  obtain ⟨n, hn⟩ := takeable_spec cap 0 db.unrecovered
  have hids : (takeable cap 0 db.unrecovered).2 = (db.unrecovered.take n).map Prod.fst := by
    rw [hn]
  have htaken : (takeable cap 0 db.unrecovered).1
      = (db.unrecovered.map (fun e =>
          if e.1 ∈ (takeable cap 0 db.unrecovered).2 then e.2 else 0)).sum := by
    rw [hids, sum_of_mem_take db.unrecovered_nodup, hn, zero_add]
  have hrows := sum_marked db.poolTxCosts.rows (takeable cap 0 db.unrecovered).2
  rw [(takeCostsForBlock_spec db blockId cap).2]
  show (db.poolTxCosts.modifyAll _).sum _ + _ = db.poolTxCosts.sum _
  rw [Auto.sum_modifyAll, Auto.sum_eq, ← hrows, htaken]
  rfl

theorem charged_take (db : PoolDb) (blockId : BlockId) (cap : ℤ) :
    (db.takeCostsForBlock blockId cap).2.charged = db.charged := by
  rw [(takeCostsForBlock_spec db blockId cap).2]
  unfold charged
  rw [Auto.sum_modifyAll]
  refine Keyed.sum_congr fun e _ => ?_
  split <;> rfl

/-- A take keeps the balance exactly when its stamp overwrites nothing and counts. -/
theorem costsBalance_take {db : PoolDb} (h : CostsInv db) (hP : db.CostsBalance)
    (blockId : BlockId) (cap : ℤ) :
    (db.takeCostsForBlock blockId cap).2.CostsBalance ↔
      db.costsGood (.takeCostsForBlock blockId cap) := by
  have hq := queued_take db blockId cap
  have hc := charged_take db blockId cap
  have hT := taken_nonneg h.fees_nonneg cap
  unfold CostsBalance at *
  simp only [costsGood]
  have hs : (db.takeCostsForBlock blockId cap).2.stamped =
      (if 0 < (takeable cap 0 db.unrecovered).1 then
        db.blocks.modify blockId (fun r =>
          { r with costsRecovered := (takeable cap 0 db.unrecovered).1 })
        else db.blocks).sum (fun r => if r.status = .orphaned then 0 else r.costsRecovered) := by
    rw [(takeCostsForBlock_spec db blockId cap).2]
    rfl
  generalize (takeable cap 0 db.unrecovered).1 = taken at *
  by_cases ht : 0 < taken
  · rw [if_pos ht] at hs
    cases hg : db.blocks.get? blockId with
    | none =>
      rw [Auto.modify_of_get?_none hg] at hs
      have hs' : (db.takeCostsForBlock blockId cap).2.stamped = db.stamped := hs
      constructor
      · intro hP'
        omega
      · intro hgood
        obtain ⟨r, hr, -⟩ := hgood ht
        cases hr
    | some r =>
      rw [Auto.sum_modify hg] at hs
      have hst : db.blocks.sum (fun r => if r.status = .orphaned then 0 else r.costsRecovered)
        = db.stamped := rfl
      rw [hst] at hs
      simp only [Option.some.injEq, exists_eq_left', ht, true_implies]
      by_cases ho : r.status = .orphaned
      · simp only [ho, if_true, ne_eq, not_true_eq_false, false_and, iff_false] at hs ⊢
        omega
      · simp only [ho, if_false, ne_eq, not_false_eq_true, true_and] at hs ⊢
        omega
  · rw [if_neg ht] at hs
    have hs' : (db.takeCostsForBlock blockId cap).2.stamped = db.stamped := hs
    constructor
    · exact fun _ hpos => absurd hpos ht
    · intro _
      omega

theorem costsInv_take {db : PoolDb} (h : CostsInv db) {blockId : BlockId} {cap : ℤ}
    (hgood : db.costsGood (.takeCostsForBlock blockId cap)) :
    CostsInv (db.takeCostsForBlock blockId cap).2 := by
  rw [(takeCostsForBlock_spec db blockId cap).2]
  refine ⟨fun r hr => ?_, fun r hr => ?_, fun r hr => ?_⟩
  · obtain ⟨i, r₀, hr₀, rfl⟩ := Auto.mem_values_modifyAll hr
    have := h.fees_nonneg r₀ (Auto.mem_values_of_get? hr₀)
    split <;> exact this
  · simp only at hr
    split at hr
    · rcases Auto.mem_values_modify hr with hr | ⟨r₀, -, rfl⟩
      · exact h.stamps_nonneg r hr
      · exact taken_nonneg h.fees_nonneg cap
    · exact h.stamps_nonneg r hr
  · simp only at hr
    split at hr
    · rename_i ht
      rcases Auto.mem_values_modify hr with hr | ⟨r₀, hr₀, rfl⟩
      · exact h.orphans_clear r hr
      · -- a good take does not stamp an orphaned block
        obtain ⟨r, hg, hno, -⟩ := hgood ht
        rw [hr₀] at hg
        cases hg
        exact fun ho => absurd ho hno
    · exact h.orphans_clear r hr

/-! ## Reversing -/

/-- A precise reversal touches the costs only by re-queueing the block's stamp. -/
theorem costs_reverse {db db' : PoolDb} {blockId : BlockId} {out : Option (ℤ × ℤ)}
    (h : db.reverseBlockCreditsPrecise blockId = .ok (out, db')) :
    (db.creditsOf blockId = [] ∧ db' = db) ∨ ∃ b, db.blocks.get? blockId = some b ∧
      db'.poolTxCosts = (db.requeueCosts blockId b.costsRecovered).poolTxCosts ∧
      db'.blocks = (db.requeueCosts blockId b.costsRecovered).blocks := by
  rcases reverseBlockCreditsPrecise_cases h with ⟨hnil, -, rfl⟩ | ⟨-, -, b, hb, rfl⟩
  · exact .inl ⟨hnil, rfl⟩
  · obtain ⟨bal, cl, hframe⟩ := reverseRows_frame blockId db (db.creditsByMiner blockId)
    refine .inr ⟨b, hb, ?_, ?_⟩ <;>
    · unfold requeueCosts
      rw [hframe]
      split <;> rfl

/-- Re-queueing moves a counted stamp back into the queue. -/
theorem requeue_balance {db : PoolDb} (h : CostsInv db) {blockId : BlockId} {b : Block}
    (hb : db.blocks.get? blockId = some b) :
    CostsInv (db.requeueCosts blockId b.costsRecovered) ∧
      ((db.requeueCosts blockId b.costsRecovered).CostsBalance ↔ db.CostsBalance) ∧
      ∃ b', (db.requeueCosts blockId b.costsRecovered).blocks.get? blockId = some b' ∧
        b'.costsRecovered = 0 := by
  have hmem := Auto.mem_values_of_get? hb
  have hstamp := h.stamps_nonneg b hmem
  unfold requeueCosts
  split
  · rename_i hpos
    have hno : b.status ≠ .orphaned := fun ho => by
      have := h.orphans_clear b hmem ho
      omega
    refine ⟨⟨fun r hr => ?_, fun r hr => ?_, fun r hr ho => ?_⟩, ?_, ?_⟩
    · rcases List.mem_append.1 (Auto.values_insert _ _ ▸ hr) with hr | hr
      · exact h.fees_nonneg r hr
      · rw [List.mem_singleton.1 hr]
        exact hstamp
    · rcases Auto.mem_values_modify hr with hr | ⟨r₀, -, rfl⟩
      · exact h.stamps_nonneg r hr
      · exact le_rfl
    · rcases Auto.mem_values_modify hr with hr | ⟨r₀, -, rfl⟩
      · exact h.orphans_clear r hr ho
      · rfl
    · unfold CostsBalance charged queued stamped
      rw [Auto.sum_insert, Auto.sum_insert, Auto.sum_modify hb]
      simp only [hno, if_true, if_false, Bool.false_eq_true]
      omega
    · refine ⟨{ b with costsRecovered := 0 }, ?_, rfl⟩
      simp [hb]
  · exact ⟨h, Iff.rfl, b, hb, by omega⟩

/-- What a status flip to orphaned removes from the counted stamps. -/
theorem orphan_balance {db : PoolDb} (h : CostsInv db) (blockId : BlockId) :
    ((db.updateBlockStatus blockId .orphaned).CostsBalance ↔
        db.charged = db.queued + db.stamped -
          (match db.blocks.get? blockId with
           | some r => if r.status = .orphaned then 0 else r.costsRecovered
           | none => 0)) ∧
      ((∀ r, db.blocks.get? blockId = some r → r.costsRecovered = 0) →
        CostsInv (db.updateBlockStatus blockId .orphaned)) := by
  constructor
  · have hs : (db.updateBlockStatus blockId .orphaned).stamped = db.stamped -
        (match db.blocks.get? blockId with
         | some r => if r.status = .orphaned then 0 else r.costsRecovered
         | none => 0) := by
      unfold stamped updateBlockStatus
      cases hg : db.blocks.get? blockId with
      | none => rw [Auto.modify_of_get?_none hg, sub_zero]
      | some r =>
        rw [Auto.sum_modify hg]
        simp
    unfold CostsBalance
    rw [hs]
    show db.charged = db.queued + _ ↔ _
    rw [add_sub_assoc]
  · intro hclear
    refine ⟨h.fees_nonneg, fun r hr => ?_, fun r hr ho => ?_⟩
    · rcases Auto.mem_values_modify hr with hr | ⟨r₀, hr₀, rfl⟩
      · exact h.stamps_nonneg r hr
      · exact h.stamps_nonneg r₀ (Auto.mem_values_of_get? hr₀)
    · rcases Auto.mem_values_modify hr with hr | ⟨r₀, hr₀, rfl⟩
      · exact h.orphans_clear r hr ho
      · exact hclear r₀ hr₀

/-! ## One step -/

theorem leavesCosts_good {op : Op} (hop : leavesCosts op = true) (db : PoolDb) :
    db.costsGood op := by
  cases op with
  | takeCostsForBlock b cap => cases hop
  | orphanBlock b reward => cases hop
  | _ => trivial

/-- A new block carries no stamp and pays out what it was recorded with. -/
theorem costs_recordBlock {db db' : PoolDb} {height : ℤ} {hash : String} {reward : ℤ}
    {actual : Option ℤ} {foundBy : WorkerId} {luck : Option ℚ} {n : BlockId}
    (h : db.recordBlock height hash reward actual foundBy luck = .ok (n, db')) :
    ∃ r : Block, r.status = .pending ∧ r.costsRecovered = 0 ∧
      r.actualReward.getD r.reward = actual.getD reward ∧
      db' = { db with blocks := db.blocks.insert r } := by
  unfold recordBlock at h
  split at h
  · cases h
  · split at h
    · cases h
      exact ⟨_, rfl, rfl, rfl, rfl⟩
    · cases h

theorem costsInv_insertBlock {db : PoolDb} (h : CostsInv db) {r : Block}
    (hr : r.costsRecovered = 0) : CostsInv { db with blocks := db.blocks.insert r } := by
  have hmem : ∀ x ∈ (db.blocks.insert r).values, x ∈ db.blocks.values ∨ x = r := by
    intro x hx
    rw [Auto.values_insert] at hx
    rcases List.mem_append.1 hx with hx | hx
    · exact .inl hx
    · exact .inr (List.mem_singleton.1 hx)
  refine ⟨h.fees_nonneg, fun x hx => ?_, fun x hx ho => ?_⟩
  · rcases hmem x hx with hx | rfl
    · exact h.stamps_nonneg x hx
    · omega
  · rcases hmem x hx with hx | rfl
    · exact h.orphans_clear x hx ho
    · exact hr

theorem costsInv_recordTxCost {db : PoolDb} (h : CostsInv db) (kind : TxCostKind)
    (reference : String) {fee : ℤ} (hfee : 0 ≤ fee) :
    CostsInv (db.recordTxCost kind reference fee) := by
  refine ⟨fun x hx => ?_, h.stamps_nonneg, h.orphans_clear⟩
  rcases List.mem_append.1 (Auto.values_insert _ _ ▸ hx) with hx | hx
  · exact h.fees_nonneg x hx
  · rw [List.mem_singleton.1 hx]
    exact hfee

theorem costs_reverseProportionally (db : PoolDb) (reward : ℤ) :
    (db.reverseProportionally reward).poolTxCosts = db.poolTxCosts ∧
      (db.reverseProportionally reward).blocks = db.blocks := by
  unfold reverseProportionally
  split <;> exact ⟨rfl, rfl⟩

/-- Without credit rows nothing is re-queued, so the flip may hide a stamp. -/
theorem costs_orphan_legacy {db : PoolDb} (h : CostsInv db) (hP : db.CostsBalance)
    {blockId : BlockId} {reward : ℤ} (hnil : db.creditsOf blockId = []) :
    (((db.reverseProportionally reward).updateBlockStatus blockId .orphaned).CostsBalance ↔
        db.costsGood (.orphanBlock blockId reward)) ∧
      (db.costsGood (.orphanBlock blockId reward) →
        CostsInv ((db.reverseProportionally reward).updateBlockStatus blockId .orphaned)) := by
  obtain ⟨hc, hb⟩ := costs_reverseProportionally db reward
  have hbal : ((db.reverseProportionally reward).updateBlockStatus blockId .orphaned).CostsBalance ↔
      (db.updateBlockStatus blockId .orphaned).CostsBalance :=
    CostsBalance.congr hc (by simp only [updateBlockStatus, hb])
  obtain ⟨hflip, hinv⟩ := orphan_balance h blockId
  have hgood : db.costsGood (.orphanBlock blockId reward) ↔
      ∀ r, db.blocks.get? blockId = some r → r.status ≠ .orphaned → r.costsRecovered = 0 :=
    ⟨fun hg => hg hnil, fun hg _ => hg⟩
  rw [hbal, hflip, hgood]
  unfold CostsBalance at hP
  constructor
  · cases hg : db.blocks.get? blockId with
    | none =>
      simp only [reduceCtorEq, false_implies, implies_true, iff_true]
      omega
    | some r =>
      simp only [Option.some.injEq, forall_eq']
      by_cases ho : r.status = .orphaned
      · simp only [ho, if_true, ne_eq, not_true_eq_false, false_implies, iff_true]
        omega
      · simp only [ho, if_false, ne_eq, not_false_eq_true, true_implies]
        omega
  · intro hclear
    refine (hinv fun r hr => ?_).congr hc (by simp only [updateBlockStatus, hb])
    by_cases ho : r.status = .orphaned
    · exact h.orphans_clear r (Auto.mem_values_of_get? hr) ho
    · exact hclear r hr ho

/-- With credit rows the stamp is back in the queue before the flip. -/
theorem costs_orphan_precise {db db₁ : PoolDb} (h : CostsInv db) (hP : db.CostsBalance)
    {blockId : BlockId} {out : Option (ℤ × ℤ)} (hne : db.creditsOf blockId ≠ [])
    (h₁ : db.reverseBlockCreditsPrecise blockId = .ok (out, db₁)) :
    (db₁.updateBlockStatus blockId .orphaned).CostsBalance ∧
      CostsInv (db₁.updateBlockStatus blockId .orphaned) := by
  rcases costs_reverse h₁ with ⟨hnil, -⟩ | ⟨b, hb, hcosts, hblocks⟩
  · exact absurd hnil hne
  · obtain ⟨hI, hbal, b', hb', hclear⟩ := requeue_balance h hb
    have hI₁ : CostsInv db₁ := hI.congr hcosts hblocks
    have hP₁ : db₁.CostsBalance := (CostsBalance.congr hcosts hblocks).2 (hbal.2 hP)
    rw [← hblocks] at hb'
    obtain ⟨hflip, hinv⟩ := orphan_balance hI₁ blockId
    refine ⟨hflip.2 ?_, hinv fun r hr => ?_⟩
    · rw [hb']
      simp only [hclear, ite_self, sub_zero]
      exact hP₁
    · rw [hb'] at hr
      cases hr
      exact hclear

/-- **Exactly the good steps keep the balance**, and they keep the invariant. -/
theorem costs_step {db : PoolDb} {op : Op} (h : CostsInv db) (hP : db.CostsBalance)
    (hok : db.costsOk op) : ((db.step op).CostsBalance ↔ db.costsGood op) ∧
      (db.costsGood op → CostsInv (db.step op)) := by
  by_cases hop : leavesCosts op = true
  · obtain ⟨hc, hb⟩ := costs_frame db hop
    have hgood := leavesCosts_good hop db
    rw [CostsBalance.congr hc hb]
    exact ⟨⟨fun _ => hgood, fun _ => hP⟩, fun _ => h.congr hc hb⟩
  -- a step of a kind that is always good
  have halways : ∀ {P : Prop}, P → ((db.step op).CostsBalance ∧ CostsInv (db.step op)) →
      ((db.step op).CostsBalance ↔ P) ∧ (P → CostsInv (db.step op)) :=
    fun hp hs => ⟨⟨fun _ => hp, fun _ => hs.1⟩, fun _ => hs.2⟩
  cases op with
  | recordBlock height hash reward actual foundBy luck =>
    refine halways trivial (step_induction (P := fun db' => db'.CostsBalance ∧ CostsInv db')
      ⟨hP, h⟩ fun db' hx => ?_)
    obtain ⟨n, hr⟩ := map_snd_ok hx
    obtain ⟨r, hst, hstamp, -, rfl⟩ := costs_recordBlock hr
    refine ⟨?_, costsInv_insertBlock h hstamp⟩
    unfold CostsBalance charged queued stamped at *
    simp only [Auto.sum_insert, hst, hstamp, reduceCtorEq, if_false]
    omega
  | updateBlockStatus b status => cases hok
  | recordTxCost kind reference fee =>
    have hstep : db.step (.recordTxCost kind reference fee) = db.recordTxCost kind reference fee :=
      rfl
    refine halways trivial (hstep ▸ ⟨?_, costsInv_recordTxCost h kind reference hok.2⟩)
    unfold CostsBalance charged queued stamped recordTxCost at *
    simp only [Auto.sum_insert, hok.1, if_false, Bool.false_eq_true]
    omega
  | takeCostsForBlock b cap =>
    have hstep : db.step (.takeCostsForBlock b cap) = (db.takeCostsForBlock b cap).2 := rfl
    rw [hstep]
    exact ⟨costsBalance_take h hP b cap, costsInv_take h⟩
  | reverseBlockCreditsPrecise b =>
    refine halways trivial (step_induction (P := fun db' => db'.CostsBalance ∧ CostsInv db')
      ⟨hP, h⟩ fun db' hx => ?_)
    obtain ⟨out, hr⟩ := map_snd_ok hx
    rcases costs_reverse hr with ⟨-, rfl⟩ | ⟨r, hb, hcosts, hblocks⟩
    · exact ⟨hP, h⟩
    · obtain ⟨hI, hbal, -⟩ := requeue_balance h hb
      exact ⟨(CostsBalance.congr hcosts hblocks).2 (hbal.2 hP), hI.congr hcosts hblocks⟩
  | orphanBlock b reward =>
    cases hx : db.orphanBlock b reward with
    | error e =>
      have hstep : db.step (.orphanBlock b reward) = db :=
        step_error (e := e) (by simp [exec, hx, Except.map])
      -- only the precise reversal can fail
      have hgood : db.costsGood (.orphanBlock b reward) := by
        intro hnil
        simp [orphanBlock, reverseBlockCreditsPrecise, creditsByMiner_eq_nil.2 hnil, bind,
          Except.bind] at hx
      rw [hstep]
      exact ⟨⟨fun _ => hgood, fun _ => hP⟩, fun _ => h⟩
    | ok r =>
      have hstep : db.step (.orphanBlock b reward) = r.2 :=
        step_ok (by simp [exec, hx, Except.map])
      rw [hstep]
      obtain ⟨out, db'⟩ := r
      rcases orphanBlock_cases hx with ⟨hnil, rfl⟩ | ⟨hne, db₁, h₁, rfl⟩
      · exact costs_orphan_legacy h hP hnil
      · obtain ⟨hbal, hinv⟩ := costs_orphan_precise h hP hne h₁
        have hgood : db.costsGood (.orphanBlock b reward) := fun hnil => absurd hnil hne
        exact ⟨⟨fun _ => hgood, fun _ => hbal⟩, fun _ => hinv⟩
  | _ => exact absurd rfl hop

/-! ## Runs -/

theorem costsInv_empty : CostsInv empty := by
  refine ⟨?_, ?_, ?_⟩ <;>
  · intro r h
    cases h

theorem costsBalance_empty : empty.CostsBalance := by decide

/-- A distribution whose crediting failed is retried after the payout fee of 7 joined the queue. -/
def retriedTakeRun : List Op :=
  [.getOrCreateMiner "t1a", .getOrCreateWorker 1 "rig",
   .recordBlock 100 "00ab" 1000 none 1 none,
   .recordTxCost .shield "opid-1" 10, .takeCostsForBlock 1 100,
   .recordTxCost .payout "7f" 7, .takeCostsForBlock 1 100]

end PoolDb

end ZcashMiningPool
