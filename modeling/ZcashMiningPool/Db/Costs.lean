import ZcashMiningPool.Db.Credits

/-!
# Pipeline costs

The queue of transaction fees the pool wallet paid (`pool_tx_costs`) and its recovery from block
distributions.

* `recordTxCost` — a fee joins the queue.
* `takeable` — the oldest whole rows that fit under a cap.
* `takeCostsForBlock` — consumes them and stamps their total on the block.
* `takeable_spec` — what is taken is the total of the rows marked, and stays under the cap.
-/

set_option autoImplicit false

namespace ZcashMiningPool

open Table

namespace PoolDb

def recordTxCost (db : PoolDb) (kind : TxCostKind) (reference : String) (fee : ℤ) : PoolDb :=
  { db with poolTxCosts := db.poolTxCosts.insert ⟨kind, reference, fee, false⟩ }

/-- `SELECT id, fee FROM pool_tx_costs WHERE recovered = 0 ORDER BY id ASC`. -/
def unrecovered (db : PoolDb) : List (ℕ × ℤ) :=
  (db.poolTxCosts.rows.filter (fun e => !e.2.recovered)).map (fun e => (e.1, e.2.fee))

/-- The rows taken before the first one that would exceed `cap`, and their total. -/
def takeable (cap : ℤ) : ℤ → List (ℕ × ℤ) → ℤ × List ℕ
  | taken, [] => (taken, [])
  | taken, (id, fee) :: rows =>
    if cap < taken + fee then (taken, [])
    else
      let (total, ids) := takeable cap (taken + fee) rows
      (total, id :: ids)

/-- Consume unrecovered costs for a block's distribution, oldest first, up to `cap`; the total
    is stamped on the block when it is positive. -/
def takeCostsForBlock (db : PoolDb) (blockId : BlockId) (cap : ℤ) : ℤ × PoolDb :=
  let (taken, ids) := takeable cap 0 db.unrecovered
  let db₁ := { db with
    poolTxCosts := ids.foldl (fun t id => t.modify id (fun r => { r with recovered := true }))
      db.poolTxCosts }
  (taken,
    if 0 < taken then
      { db₁ with blocks := db₁.blocks.modify blockId (fun r => { r with costsRecovered := taken }) }
    else db₁)

/-! ## What is taken -/

/-- The queue is consumed from the front, whole rows at a time. -/
theorem takeable_spec (cap taken : ℤ) (rows : List (ℕ × ℤ)) :
    ∃ n, takeable cap taken rows
      = (taken + ((rows.take n).map Prod.snd).sum, (rows.take n).map Prod.fst) := by
  induction rows generalizing taken with
  | nil => exact ⟨0, by simp [takeable]⟩
  | cons e rows ih =>
    obtain ⟨id, fee⟩ := e
    unfold takeable
    split
    · exact ⟨0, by simp⟩
    · obtain ⟨n, hn⟩ := ih (taken + fee)
      refine ⟨n + 1, ?_⟩
      simp only [hn, List.take_succ_cons, List.map_cons, List.sum_cons, add_assoc]

/-- What a call takes stays under its cap. -/
theorem takeable_le {cap taken : ℤ} (h : taken ≤ cap) (rows : List (ℕ × ℤ)) :
    (takeable cap taken rows).1 ≤ cap := by
  induction rows generalizing taken with
  | nil => exact h
  | cons e rows ih =>
    obtain ⟨id, fee⟩ := e
    unfold takeable
    split
    · exact h
    · exact ih (by omega)

/-- Fees are not negative, so neither is what is taken. -/
theorem takeable_nonneg {rows : List (ℕ × ℤ)} (h : ∀ e ∈ rows, 0 ≤ e.2) (cap : ℤ) :
    0 ≤ (takeable cap 0 rows).1 := by
  obtain ⟨n, hn⟩ := takeable_spec cap 0 rows
  rw [hn]
  simp only [zero_add]
  apply List.sum_nonneg
  intro x hx
  obtain ⟨e, he, rfl⟩ := List.mem_map.1 hx
  exact h e (List.mem_of_mem_take he)

theorem taken_nonneg {db : PoolDb} (h : ∀ r ∈ db.poolTxCosts.values, 0 ≤ r.fee) (cap : ℤ) :
    0 ≤ (takeable cap 0 db.unrecovered).1 := by
  apply takeable_nonneg
  intro e he
  obtain ⟨r, hr, rfl⟩ := List.mem_map.1 he
  exact h r.2 (Auto.mem_values.2 ⟨r.1, List.mem_of_mem_filter hr⟩)

theorem unrecovered_nodup (db : PoolDb) : (db.unrecovered.map Prod.fst).Nodup := by
  have h : (db.unrecovered.map Prod.fst)
      = (db.poolTxCosts.rows.filter (fun e => !e.2.recovered)).map Prod.fst := by
    simp [unrecovered, Function.comp_def]
  rw [h]
  exact (List.filter_sublist.map Prod.fst).nodup db.poolTxCosts.keyed.nodup

/-- **What a take does**: it marks the rows it took and stamps their total on the block. -/
theorem takeCostsForBlock_spec (db : PoolDb) (blockId : BlockId) (cap : ℤ) :
    (db.takeCostsForBlock blockId cap).1 = (takeable cap 0 db.unrecovered).1 ∧
    (db.takeCostsForBlock blockId cap).2 = { db with
      poolTxCosts := db.poolTxCosts.modifyAll (fun i r =>
        if i ∈ (takeable cap 0 db.unrecovered).2 then { r with recovered := true } else r)
      blocks := if 0 < (takeable cap 0 db.unrecovered).1 then
          db.blocks.modify blockId (fun r =>
            { r with costsRecovered := (takeable cap 0 db.unrecovered).1 })
        else db.blocks } := by
  refine ⟨rfl, ?_⟩
  have hmark := Auto.foldl_modify (f := fun r : PoolTxCost => { r with recovered := true })
    (fun _ => rfl) (takeable cap 0 db.unrecovered).2 db.poolTxCosts
  unfold takeCostsForBlock
  simp only [hmark]
  split <;> rfl

end PoolDb

end ZcashMiningPool
