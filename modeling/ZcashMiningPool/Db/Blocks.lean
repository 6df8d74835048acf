import ZcashMiningPool.Db.Costs
import ZcashMiningPool.Db.Shares

/-!
# Block queries

The queries by which a block's fate is read and written.

* `getOpenBlockSubmissions`, `getBlockIdByHash` — what the startup sweep looks up.
* `getPendingBlocks` — what the maturity check goes through.
* `updateBlockLuck` — the luck figure, which nothing else reads.
* `fateOf` — name and status of a recorded block; `fateOf_recordBlock`,
  `fateOf_updateBlockStatus`, `fateOf_orphanBlock` — what the writers of `blocks` do to it.
* `crumbOf` — whose breadcrumb it is, and whether it is settled.
-/

set_option autoImplicit false

namespace ZcashMiningPool

open Table

namespace PoolDb

/-- `SELECT … FROM block_submissions WHERE resolved = 0 ORDER BY id ASC`. -/
def getOpenBlockSubmissions (db : PoolDb) : List (ℕ × BlockSubmission) :=
  db.blockSubmissions.rows.filter (fun e => !e.2.resolved)

/-- `SELECT id FROM blocks WHERE hash = ?`. -/
def getBlockIdByHash (db : PoolDb) (hash : String) : Option BlockId :=
  (db.blocks.find? (fun r => r.hash == hash)).map (·.1)

/-- `SELECT … FROM blocks WHERE status = 'pending' ORDER BY height ASC`. -/
def getPendingBlocks (db : PoolDb) : List (BlockId × Block) :=
  (db.blocks.rows.filter (fun e => e.2.status == .pending)).insertionSort
    (fun x y => x.2.height ≤ y.2.height)

def updateBlockLuck (db : PoolDb) (blockId : BlockId) (luckPercent : ℚ) : PoolDb :=
  { db with
    blocks := db.blocks.modify blockId (fun r => { r with luckPercent := some luckPercent }) }

end PoolDb

/-! ## The fate of a block -/

/-- What a block is named by, in every table. -/
structure BlockKey where
  height : ℤ
  hash : String
  deriving DecidableEq, Repr

def BlockSubmission.key (c : BlockSubmission) : BlockKey := ⟨c.height, c.hash⟩

namespace PoolDb

/-- A recorded block, and what became of it. -/
structure BlockFate where
  key : BlockKey
  status : BlockStatus
  deriving DecidableEq, Repr

def fate (r : Block) : BlockFate := ⟨⟨r.height, r.hash⟩, r.status⟩

def fateOf (db : PoolDb) (b : BlockId) : Option BlockFate := (db.blocks.get? b).map fate

theorem statusOf_eq (db : PoolDb) (b : BlockId) : db.statusOf b = (db.fateOf b).map (·.status) := by
  simp [statusOf, fateOf, fate, Function.comp_def]

theorem fateOf_congr {db db' : PoolDb} (h : db'.blocks = db.blocks) (b : BlockId) :
    db'.fateOf b = db.fateOf b := by
  unfold fateOf
  rw [h]

/-- An update of other columns. -/
theorem map_fate_modify (t : Auto Block) (i : BlockId) {f : Block → Block}
    (hf : ∀ r, fate (f r) = fate r) (b : BlockId) :
    ((t.modify i f).get? b).map fate = (t.get? b).map fate := by
  rw [Auto.get?_modify]
  split
  · rw [Option.map_map]
    congr 1
    funext r
    exact hf r
  · rfl

theorem fateOf_updateBlockLuck (db : PoolDb) (i : BlockId) (luck : ℚ) (b : BlockId) :
    (db.updateBlockLuck i luck).fateOf b = db.fateOf b := by
  apply map_fate_modify
  intro r
  rfl

theorem fateOf_takeCostsForBlock (db : PoolDb) (i : BlockId) (cap : ℤ) (b : BlockId) :
    (db.takeCostsForBlock i cap).2.fateOf b = db.fateOf b := by
  rw [(takeCostsForBlock_spec db i cap).2]
  unfold fateOf
  by_cases hpos : 0 < (takeable cap 0 db.unrecovered).1
  · simp only [if_pos hpos]
    apply map_fate_modify
    intro r
    rfl
  · simp only [if_neg hpos]

theorem creditsOf_takeCostsForBlock (db : PoolDb) (i : BlockId) (cap : ℤ) (b : BlockId) :
    (db.takeCostsForBlock i cap).2.creditsOf b = db.creditsOf b := by
  apply creditsOf_congr
  rw [(takeCostsForBlock_spec db i cap).2]

theorem fateOf_requeueCosts (db : PoolDb) (i : BlockId) (x : ℤ) (b : BlockId) :
    (db.requeueCosts i x).fateOf b = db.fateOf b := by
  unfold requeueCosts
  split
  · apply map_fate_modify
    intro r
    rfl
  · rfl

theorem fateOf_updateBlockStatus (db : PoolDb) (i : BlockId) (status : BlockStatus) (b : BlockId) :
    (db.updateBlockStatus i status).fateOf b =
      if b = i then (db.fateOf b).map (fun r => { r with status := status }) else db.fateOf b := by
  simp only [fateOf, updateBlockStatus, Auto.get?_modify]
  split
  · simp only [Option.map_map]
    rfl
  · rfl

/-- **What a new row is**: a pending block under a fresh id, whose hash no other row has. -/
theorem fateOf_recordBlock {db db' : PoolDb} {height : ℤ} {hash : String} {reward : ℤ}
    {actualReward : Option ℤ} {foundBy : WorkerId} {luckPercent : Option ℚ} {id : BlockId}
    (h : db.recordBlock height hash reward actualReward foundBy luckPercent = .ok (id, db')) :
    db.fateOf id = none ∧ db'.blockCredits = db.blockCredits ∧
      db'.blockSubmissions = db.blockSubmissions ∧
      (∀ b, db'.fateOf b = if b = id then some ⟨⟨height, hash⟩, .pending⟩ else db.fateOf b) ∧
      ∀ b r, db.fateOf b = some r → r.key.hash ≠ hash := by
  unfold recordBlock at h
  split at h
  · cases h
  · rename_i hfree
    split at h
    · cases h
      refine ⟨by simp [fateOf], rfl, rfl, fun b => ?_, fun b r hr hhash => hfree ?_⟩
      · simp only [fateOf, Auto.get?_insert]
        split <;> rfl
      · obtain ⟨x, hx, rfl⟩ := Option.map_eq_some_iff.1 hr
        exact List.find?_isSome.2 ⟨(b, x), Keyed.get?_eq_some_iff.1 hx, by simpa [fate] using hhash⟩
    · cases h

/-- **What an orphaning is**: no credit rows of the block are left, and its status is flipped. -/
theorem fateOf_orphanBlock {db db' : PoolDb} {i : BlockId} {reward : ℤ} {out : Option (ℤ × ℤ)}
    (h : db.orphanBlock i reward = .ok (out, db')) (b : BlockId) :
    db'.creditsOf b = (if b = i then [] else db.creditsOf b) ∧
      db'.blockSubmissions = db.blockSubmissions ∧
      db'.fateOf b =
        if b = i then (db.fateOf b).map (fun r => { r with status := .orphaned })
        else db.fateOf b := by
  rcases orphanBlock_cases h with ⟨hnil, rfl⟩ | ⟨hne, db₁, h₁, rfl⟩
  · have hcr : ∀ b', (db.reverseProportionally reward).creditsOf b' = db.creditsOf b' := by
      unfold reverseProportionally
      split <;> exact fun _ => rfl
    have hfate : ∀ b', (db.reverseProportionally reward).fateOf b' = db.fateOf b' := by
      unfold reverseProportionally
      split <;> exact fun _ => rfl
    refine ⟨?_, ?_, ?_⟩
    · have hkeep : ((db.reverseProportionally reward).updateBlockStatus i .orphaned).creditsOf b
          = db.creditsOf b := hcr b
      rw [hkeep]
      split
      · rename_i hb
        rw [hb, hnil]
      · rfl
    · unfold reverseProportionally
      split <;> rfl
    · rw [fateOf_updateBlockStatus, hfate]
  · obtain ⟨-, hcr, -, -⟩ := orphanBlock_precise hne h
    refine ⟨creditsOf_filter hcr b, ?_⟩
    rcases reverseBlockCreditsPrecise_cases h₁ with ⟨hnil, -⟩ | ⟨-, -, r, -, rfl⟩
    · exact absurd hnil hne
    · obtain ⟨bal, cl, hframe⟩ := reverseRows_frame i db (db.creditsByMiner i)
      have hfate : ((reverseRows i db (db.creditsByMiner i)).deleteBlockCredits i).fateOf b
          = db.fateOf b := by
        rw [hframe]
        rfl
      have hcrumbs : ((reverseRows i db (db.creditsByMiner i)).deleteBlockCredits
          i).blockSubmissions = db.blockSubmissions := by
        rw [hframe]
        rfl
      constructor
      · refine Eq.trans ?_ hcrumbs
        unfold requeueCosts
        split <;> rfl
      · rw [fateOf_updateBlockStatus, fateOf_requeueCosts, hfate]

/-! ## Breadcrumbs -/

/-- Whose breadcrumb it is, and whether it is settled. -/
def crumbOf (db : PoolDb) (id : ℕ) : Option (BlockKey × Bool) :=
  (db.blockSubmissions.get? id).map (fun c => (c.key, c.resolved))

theorem crumbOf_recordBlockSubmission (db : PoolDb) (height : ℤ) (hash : String)
    (workerId : WorkerId) (reward : ℤ) (actualReward : Option ℤ) (i : ℕ) :
    (db.recordBlockSubmission height hash workerId reward actualReward).2.crumbOf i =
      if i = db.blockSubmissions.next then some (⟨height, hash⟩, false) else db.crumbOf i := by
  simp only [crumbOf, recordBlockSubmission, Auto.get?_insert]
  by_cases h : i = db.blockSubmissions.next
  · rw [if_pos h, if_pos h]
    rfl
  · rw [if_neg h, if_neg h]

theorem crumbOf_resolveBlockSubmission (db : PoolDb) (id : ℕ) (outcome : String) (i : ℕ) :
    (db.resolveBlockSubmission id outcome).crumbOf i =
      if i = id then (db.crumbOf i).map (fun c => (c.1, true)) else db.crumbOf i := by
  simp only [crumbOf, resolveBlockSubmission, Auto.get?_modify]
  split
  · simp only [Option.map_map]
    rfl
  · rfl

theorem mem_getOpenBlockSubmissions {db : PoolDb} {e : ℕ × BlockSubmission} :
    e ∈ db.getOpenBlockSubmissions ↔
      db.blockSubmissions.get? e.1 = some e.2 ∧ e.2.resolved = false := by
  unfold getOpenBlockSubmissions
  rw [List.mem_filter, Bool.not_eq_true']
  exact and_congr_left fun _ =>
    (Keyed.get?_eq_some_iff (t := db.blockSubmissions.keyed) (k := e.1) (r := e.2)).symm

theorem mem_getPendingBlocks {db : PoolDb} {e : BlockId × Block} :
    e ∈ db.getPendingBlocks ↔ db.blocks.get? e.1 = some e.2 ∧ e.2.status = .pending := by
  unfold getPendingBlocks
  rw [(List.perm_insertionSort _ _).mem_iff, List.mem_filter, beq_iff_eq]
  exact and_congr_left fun _ =>
    (Keyed.get?_eq_some_iff (t := db.blocks.keyed) (k := e.1) (r := e.2)).symm

end PoolDb

end ZcashMiningPool
