import ZcashMiningPool.Library.Run
import ZcashMiningPool.PoolCore.PhantomCredits

/-!
# The coinbase check

`check_coinbase_outputs` of the reconciler, which walks the confirmed blocks upwards from a
persisted height, beside the block's life of both processes.

* `paidUs` — what the answers of node and wallet say of one block.
* `CheckPc` — where the sweep stands: the height is read, the rows are queried, each is asked
  about, and the new height is written.
* `CoinbaseCheck` — the machine; `examined` is the record of what was asked about.
* `NoneEscapes` — every confirmed block at or below the persisted height has been examined.
* `InHeightOrder` — blocks become confirmed above what the check has passed.
* `Walk.Covers`, `Covered` — the invariant: what is confirmed above the height a sweep started from
  has been examined, has become confirmed since, or is still ahead.

Main result: `noneEscapes_of_inHeightOrder`.  A block recovered late escapes:
`recovered_block_escapes`.
-/

set_option autoImplicit false

namespace ZcashMiningPool

open Table Machine

/-- `ORDER BY height ASC`. -/
def heightOrder (x y : BlockId × ℤ) : Prop := x.2 ≤ y.2

instance : DecidableRel heightOrder := fun x y => inferInstanceAs (Decidable (x.2 ≤ y.2))

instance : Std.Total heightOrder where
  total x y := le_total x.2 y.2

instance : IsTrans (BlockId × ℤ) heightOrder where
  trans _ _ _ hxy hyz := le_trans hxy hyz

namespace PoolDb

/-- Confirmed blocks above `height`, ascending: id and height. -/
def confirmedAbove (db : PoolDb) (height : ℤ) : List (BlockId × ℤ) :=
  ((db.blocks.rows.filter (fun e => e.2.status == .confirmed && decide (height < e.2.height))).map
    (fun e => (e.1, e.2.height))).insertionSort heightOrder

/-- … `LIMIT ?`. -/
def getConfirmedBlocksAbove (db : PoolDb) (height : ℤ) (limit : ℕ) : List (BlockId × ℤ) :=
  (db.confirmedAbove height).take limit

end PoolDb

/-! ## One block -/

/-- `gettransaction` of the wallet. -/
inductive WalletAnswer where
  | known
  | jsonRpc
  | transport
  deriving DecidableEq, Repr

/-- What node and wallet answer about one height; `none` is an error. -/
structure CoinbaseAnswers where
  blockHash : Option String
  /-- The first transaction id of the block, when it can be read. -/
  block : Option (Option String)
  /-- The addresses of each output. -/
  coinbase : Option (List (List String))
  wallet : WalletAnswer
  deriving DecidableEq, Repr

structure CoinbaseCheckConfig where
  life : BlockLifeConfig
  miningAddress : String
  shieldedCoinbase : Bool

/-- Whether the coinbase pays the pool: an error, nothing readable, or yes or no. -/
def paidUs (cfg : CoinbaseCheckConfig) (a : CoinbaseAnswers) : Option (Option Bool) := do
  let _ ← a.blockHash
  match ← a.block with
  | none => some none
  | some _ =>
    let vouts ← a.coinbase
    let pays := vouts.any (fun addrs => addrs.any (· == cfg.miningAddress))
    if pays || !cfg.shieldedCoinbase then some (some pays)
    else
      match a.wallet with
      | .known => some (some true)
      | .jsonRpc => some (some false)
      | .transport => none

/-! ## The machine -/

/-- A sweep that has its rows. -/
structure Walk where
  last : ℤ
  /-- Rows still to ask about. -/
  rest : List (BlockId × ℤ)
  watermark : ℤ
  /-- The node could not be reached. -/
  stopped : Bool
  /-- The rows the limit cut off. -/
  beyond : List (BlockId × ℤ)
  /-- The blocks that became confirmed since the query. -/
  since : List BlockId
  deriving DecidableEq, Repr

inductive CheckPc where
  | idle
  | read (last : ℤ)
  | walking (w : Walk)
  deriving DecidableEq, Repr

structure CoinbaseCheck where
  life : BlockLife
  /-- `pool_status` under `coinbase_check_height`. -/
  height : Option ℤ
  sweep : CheckPc
  /-- The blocks the node answered for; one without a readable coinbase is alerted, skipped and
      counts. -/
  examined : List BlockId

inductive CheckOp where
  | life (op : BlockLifeOp)
  | readHeight (fails : Bool)
  | queryBlocks (fails : Bool)
  | ask (answers : CoinbaseAnswers)
  | persist (fails : Bool)
  | crash

namespace CoinbaseCheck

def start : CoinbaseCheck := ⟨BlockLife.start, none, .idle, []⟩

/-- The watermark a sweep starts from. -/
def last (s : CoinbaseCheck) : ℤ := s.height.getD 0

/-- The block that becomes confirmed in this step. -/
def confirmingNow (s : CoinbaseCheck) : BlockLifeOp → Option BlockId
  | .maturityDb =>
    match s.life.maturity with
    | .confirming _ blockId _ => some blockId
    | _ => none
  | _ => none

/-- A sweep notes nothing of what becomes confirmed; the record is for the statements. -/
def noteConfirmed (blockId : Option BlockId) : CheckPc → CheckPc
  | .walking w => .walking { w with since := blockId.toList ++ w.since }
  | pc => pc

def step (cfg : CoinbaseCheckConfig) (s : CoinbaseCheck) : CheckOp → CoinbaseCheck
  | .life op =>
    { s with
      life := s.life.step cfg.life op
      sweep := noteConfirmed (s.confirmingNow op) s.sweep }
  | .readHeight fails =>
    match s.sweep with
    | .idle =>
      if cfg.miningAddress = "" ∨ fails = true then s else { s with sweep := .read s.last }
    | _ => s
  | .queryBlocks fails =>
    match s.sweep with
    | .read last =>
      if fails then { s with sweep := .idle }
      else
        { s with
          sweep := .walking ⟨last, s.life.db.getConfirmedBlocksAbove last 20, last, false,
            (s.life.db.confirmedAbove last).drop 20, []⟩ }
    | _ => s
  | .ask answers =>
    match s.sweep with
    | .walking ⟨last, (blockId, height) :: rest, watermark, false, beyond, since⟩ =>
      match paidUs cfg answers with
      | some _ =>
        { s with
          sweep := .walking ⟨last, rest, height, false, beyond, since⟩
          examined := blockId :: s.examined }
      | none =>
        { s with
          sweep := .walking ⟨last, (blockId, height) :: rest, watermark, true, beyond, since⟩ }
    | _ => s
  | .persist fails =>
    match s.sweep with
    | .walking w =>
      if w.rest = [] ∨ w.stopped = true then
        { s with
          height := if w.last < w.watermark ∧ fails = false then some w.watermark else s.height
          sweep := .idle }
      else s
    | _ => s
  | .crash => { s with life := s.life.step cfg.life .crashDashboard, sweep := .idle }

end CoinbaseCheck

/-! ## What must hold, and when -/

/-- A sweep that writes its height has met no block at or below it that became confirmed since its
    query, and its next row, not asked about, is at another height. -/
def Walk.Closes (db : PoolDb) (w : Walk) : Prop :=
  (∀ b ∈ w.since, ∀ r ∈ db.fateOf b, r.status = .confirmed → w.watermark < r.key.height) ∧
    ∀ e ∈ (w.rest ++ w.beyond).head?, e.2 ≠ w.watermark

instance (db : PoolDb) (w : Walk) : Decidable (w.Closes db) :=
  inferInstanceAs (Decidable (
    (∀ b ∈ w.since, ∀ r ∈ db.fateOf b, r.status = .confirmed → w.watermark < r.key.height) ∧
      ∀ e ∈ (w.rest ++ w.beyond).head?, e.2 ≠ w.watermark))

namespace CoinbaseCheck

/-- Every confirmed block at or below the persisted height has been examined. -/
def NoneEscapes (s : CoinbaseCheck) : Prop :=
  ∀ height, s.height = some height → ∀ b r, s.life.db.fateOf b = some r →
    r.status = .confirmed → r.key.height ≤ height → b ∈ s.examined

/-- A block becomes confirmed above the persisted height only; a sweep closes its height. -/
def InHeightOrder (s : CoinbaseCheck) : CheckOp → Prop
  | .life op => ∀ b ∈ s.confirmingNow op, ∀ r ∈ s.life.db.fateOf b, s.last < r.key.height
  | .persist fails =>
    match s.sweep with
    | .walking w => fails = false → w.last < w.watermark → w.Closes s.life.db
    | _ => True
  | _ => True

instance (s : CoinbaseCheck) : ∀ op, Decidable (s.InHeightOrder op)
  | .life op => inferInstanceAs
      (Decidable (∀ b ∈ s.confirmingNow op, ∀ r ∈ s.life.db.fateOf b, s.last < r.key.height))
  | .persist fails =>
    match h : s.sweep with
    | .walking w => decidable_of_iff (fails = false → w.last < w.watermark → w.Closes s.life.db)
        (by simp only [InHeightOrder, h])
    | .idle => .isTrue (by simp only [InHeightOrder, h])
    | .read _ => .isTrue (by simp only [InHeightOrder, h])
  | .readHeight _ => .isTrue trivial
  | .queryBlocks _ => .isTrue trivial
  | .ask _ => .isTrue trivial
  | .crash => .isTrue trivial

end CoinbaseCheck

/-! ## How blocks become confirmed -/

namespace PoolDb

/-- Whatever is confirmed afterwards was so before, under the same name. -/
def KeepsConfirmed (db db' : PoolDb) : Prop :=
  ∀ b r, db'.fateOf b = some r → r.status = .confirmed → db.fateOf b = some r

theorem keepsConfirmed_of_fate {db db' : PoolDb} (h : ∀ b, db'.fateOf b = db.fateOf b) :
    KeepsConfirmed db db' := fun b _ hr _ => h b ▸ hr

theorem keepsConfirmed_recordBlock {db db' : PoolDb} {height : ℤ} {hash : String} {reward : ℤ}
    {actualReward : Option ℤ} {foundBy : WorkerId} {luckPercent : Option ℚ} {id : BlockId}
    (h : db.recordBlock height hash reward actualReward foundBy luckPercent = .ok (id, db')) :
    KeepsConfirmed db db' := by
  obtain ⟨-, -, -, hfate, -⟩ := fateOf_recordBlock h
  intro b r hr hstatus
  rw [hfate] at hr
  split at hr
  · cases hr
    cases hstatus
  · exact hr

theorem keepsConfirmed_flip {db db' : PoolDb} {i : BlockId}
    (hfate : ∀ b, db'.fateOf b =
      if b = i then (db.fateOf b).map (fun r => { r with status := .orphaned })
      else db.fateOf b) : KeepsConfirmed db db' := by
  intro b r hr hstatus
  rw [hfate] at hr
  split at hr
  · obtain ⟨x, -, rfl⟩ := Option.map_eq_some_iff.1 hr
    cases hstatus
  · exact hr

end PoolDb

namespace BlockLife

open PoolDb

variable {cfg : BlockLifeConfig} {s : BlockLife}

theorem keepsConfirmed_credit (db : PoolDb) (blockId : BlockId) (rs : List PplnsReward) :
    KeepsConfirmed db (credit db blockId rs) := by
  rcases credit_cases db blockId rs with hsame | ⟨-, -, hfate, -⟩
  · rw [hsame]
    exact keepsConfirmed_of_fate fun _ => rfl
  · exact keepsConfirmed_of_fate hfate

theorem keepsConfirmed_foundDb : KeepsConfirmed s.db s.foundDb.db := by
  unfold foundDb
  split
  · exact keepsConfirmed_of_fate (fateOf_resolve _ _ _)
  · split
    · rename_i hrec
      exact keepsConfirmed_recordBlock hrec
    · exact keepsConfirmed_of_fate fun _ => rfl
  · exact keepsConfirmed_of_fate (fateOf_resolve _ _ _)
  · exact keepsConfirmed_of_fate fun _ => rfl

theorem keepsConfirmed_taskDb (i : ℕ) : KeepsConfirmed s.db (taskDb cfg.pplns s i).db := by
  unfold taskDb
  split
  · split
    · exact keepsConfirmed_flip (fateOf_updateBlockStatus _ _ _)
    · exact keepsConfirmed_of_fate (fateOf_takeCostsForBlock _ _ _)
    · split <;> exact keepsConfirmed_of_fate fun _ => rfl
    · exact keepsConfirmed_credit _ _ _
    · exact keepsConfirmed_of_fate fun _ => rfl
  · exact keepsConfirmed_of_fate fun _ => rfl

theorem keepsConfirmed_sweepDb : KeepsConfirmed s.db (sweepDb cfg.pplns s).db := by
  unfold sweepDb
  split
  · exact keepsConfirmed_of_fate fun _ => rfl
  · split
    · exact keepsConfirmed_of_fate fun _ => rfl
    · split
      · rename_i hrec
        exact keepsConfirmed_recordBlock hrec
      · exact keepsConfirmed_of_fate fun _ => rfl
  · exact keepsConfirmed_of_fate fun _ => rfl
  · exact keepsConfirmed_of_fate fun _ => rfl
  · exact keepsConfirmed_of_fate (fateOf_takeCostsForBlock _ _ _)
  · split <;> exact keepsConfirmed_of_fate fun _ => rfl
  · exact keepsConfirmed_credit _ _ _
  · exact keepsConfirmed_of_fate fun _ => rfl

theorem keepsConfirmed_maturityDb
    (h : ∀ count blockId rest, s.maturity ≠ .confirming count blockId rest) :
    KeepsConfirmed s.db (maturityDb cfg s).db := by
  unfold maturityDb
  split
  · exact keepsConfirmed_of_fate fun _ => rfl
  · rename_i count blockId rest hpc
    exact absurd hpc (h count blockId rest)
  · split
    · exact keepsConfirmed_of_fate fun _ => rfl
    · rename_i horphan
      exact keepsConfirmed_flip fun b => (fateOf_orphanBlock horphan b).2.2
  · exact keepsConfirmed_of_fate fun _ => rfl
  · exact keepsConfirmed_of_fate fun _ => rfl

/-- **Only the maturity check confirms**, and only the block it has come to. -/
theorem keepsConfirmed_step (op : BlockLifeOp)
    (h : op = .maturityDb → ∀ count blockId rest, s.maturity ≠ .confirming count blockId rest) :
    KeepsConfirmed s.db (s.step cfg op).db := by
  have hsame : ∀ {t : BlockLife}, t.db = s.db → KeepsConfirmed s.db t.db := by
    intro t ht
    rw [ht]
    exact keepsConfirmed_of_fate fun _ => rfl
  cases op with
  | world other => exact keepsConfirmed_of_fate fun _ => rfl
  | foundDb => exact keepsConfirmed_foundDb
  | taskDb i => exact keepsConfirmed_taskDb i
  | sweepDb => exact keepsConfirmed_sweepDb
  | maturityDb => exact keepsConfirmed_maturityDb (h rfl)
  | find b crumbWritten =>
    simp only [step, find]
    split
    · split <;> exact keepsConfirmed_of_fate fun _ => rfl
    · exact keepsConfirmed_of_fate fun _ => rfl
  | taskLuck i luckPercent =>
    simp only [step, taskLuck]
    split
    · split
      · cases luckPercent with
        | none => exact keepsConfirmed_of_fate fun _ => rfl
        | some luck => exact keepsConfirmed_of_fate (fateOf_updateBlockLuck _ _ _)
      · exact keepsConfirmed_of_fate fun _ => rfl
    · exact keepsConfirmed_of_fate fun _ => rfl
  | crash => exact hsame rfl
  | crashDashboard => exact hsame rfl
  | start =>
    apply hsame
    simp only [step, startSweep]
    split <;> rfl
  | submitted accepted =>
    apply hsame
    simp only [step, submitted]
    split <;> rfl
  | foundChecked answer =>
    apply hsame
    simp only [step, foundChecked]
    split
    · split <;> rfl
    · rfl
  | foundFailed =>
    apply hsame
    simp only [step, foundFailed]
    split <;> rfl
  | taskChecked i answer =>
    apply hsame
    simp only [step, taskChecked]
    split
    · split
      · split <;> rfl
      · rfl
    · rfl
  | taskFailed i =>
    apply hsame
    simp only [step, taskFailed]
    split
    · split <;> rfl
    · rfl
  | sweepChecked answer =>
    apply hsame
    simp only [step, sweepChecked]
    split
    · split <;> rfl
    · rfl
  | sweepFailed =>
    apply hsame
    simp only [step, sweepFailed]
    split <;> rfl
  | counted answer =>
    apply hsame
    simp only [step, counted]
    split <;> rfl
  | askedHash answer =>
    apply hsame
    simp only [step, askedHash]
    split
    · split
      · rfl
      · split <;> rfl
    · rfl

end BlockLife

/-! ## The invariant -/

namespace PoolDb

theorem mem_confirmedAbove {db : PoolDb} {height : ℤ} {b : BlockId} {r : BlockFate}
    (hr : db.fateOf b = some r) (hstatus : r.status = .confirmed) (hlt : height < r.key.height) :
    (b, r.key.height) ∈ db.confirmedAbove height := by
  obtain ⟨row, hrow, rfl⟩ := Option.map_eq_some_iff.1 hr
  have hstatus : row.status = .confirmed := hstatus
  have hlt : height < row.height := hlt
  unfold confirmedAbove
  rw [List.mem_insertionSort, List.mem_map]
  refine ⟨(b, row), List.mem_filter.2 ⟨Keyed.get?_eq_some_iff.1 hrow, ?_⟩, rfl⟩
  simp [hstatus, hlt]

theorem lt_of_mem_confirmedAbove {db : PoolDb} {height : ℤ} {e : BlockId × ℤ}
    (h : e ∈ db.confirmedAbove height) : height < e.2 := by
  unfold confirmedAbove at h
  rw [List.mem_insertionSort, List.mem_map] at h
  obtain ⟨row, hrow, rfl⟩ := h
  have hpass := (List.mem_filter.1 hrow).2
  simp only [Bool.and_eq_true, decide_eq_true_eq] at hpass
  exact hpass.2

theorem pairwise_confirmedAbove (db : PoolDb) (height : ℤ) :
    (db.confirmedAbove height).Pairwise heightOrder := List.pairwise_insertionSort heightOrder _

end PoolDb

namespace CoinbaseCheck

open PoolDb

variable {cfg : CoinbaseCheckConfig} {s : CoinbaseCheck}

/-- What a sweep has passed, and what is ahead of it. -/
structure Covers (s : CoinbaseCheck) (w : Walk) : Prop where
  started : w.last = s.last
  passed : w.last ≤ w.watermark
  ahead : ∀ e ∈ w.rest ++ w.beyond, w.watermark ≤ e.2
  ordered : (w.rest ++ w.beyond).Pairwise heightOrder
  rows : ∀ b r, s.life.db.fateOf b = some r → r.status = .confirmed → w.last < r.key.height →
    b ∈ s.examined ∨ b ∈ w.since ∨ (b, r.key.height) ∈ w.rest ++ w.beyond

structure Covered (s : CoinbaseCheck) : Prop where
  below : ∀ b r, s.life.db.fateOf b = some r → r.status = .confirmed → r.key.height ≤ s.last →
    b ∈ s.examined
  read : ∀ last, s.sweep = .read last → last = s.last
  walk : ∀ w, s.sweep = .walking w → Covers s w

theorem Covered.noneEscapes (h : Covered s) : s.NoneEscapes := by
  intro height hheight b r hr hstatus hle
  refine h.below b r hr hstatus ?_
  unfold last
  rw [hheight]
  exact hle

/-- A sweep that ends without a new height. -/
theorem Covered.stop (h : Covered s) : Covered { s with sweep := .idle } where
  below := h.below
  read last hlast := by cases hlast
  walk w hw := by cases hw

/-! ## Steps of the pool and of the maturity check -/

/-- Whatever is confirmed after a step was so before, or it becomes so now. -/
theorem confirmed_before (op : BlockLifeOp) {b : BlockId} {r : BlockFate}
    (hr : (s.life.step cfg.life op).db.fateOf b = some r) (hstatus : r.status = .confirmed) :
    s.life.db.fateOf b = some r ∨
      b ∈ s.confirmingNow op ∧ ∃ x ∈ s.life.db.fateOf b, x.key = r.key := by
  by_cases hnow : op = .maturityDb ∧ ∃ count i rest, s.life.maturity = .confirming count i rest
  · obtain ⟨rfl, count, i, rest, hpc⟩ := hnow
    have hdb : (s.life.step cfg.life .maturityDb).db = s.life.db.updateBlockStatus i .confirmed := by
      simp only [BlockLife.step, BlockLife.maturityDb, hpc]
    rw [hdb, fateOf_updateBlockStatus] at hr
    split at hr
    · rename_i hb
      obtain ⟨x, hx, rfl⟩ := Option.map_eq_some_iff.1 hr
      refine .inr ⟨?_, x, hx, rfl⟩
      simp only [confirmingNow, hpc, hb, Option.mem_def]
    · exact .inl hr
  · refine .inl (BlockLife.keepsConfirmed_step op ?_ b r hr hstatus)
    intro hop count i rest hpc
    exact hnow ⟨hop, count, i, rest, hpc⟩

theorem covered_life (op : BlockLifeOp) (h : Covered s) (hgood : s.InHeightOrder (.life op)) :
    Covered (step cfg s (.life op)) := by
  refine ⟨?_, ?_, ?_⟩
  · intro b r hr hstatus hle
    rcases confirmed_before op hr hstatus with hold | ⟨hnow, x, hx, hkey⟩
    · exact h.below b r hold hstatus hle
    · have hlt := hgood b hnow x hx
      rw [hkey] at hlt
      exact absurd hle (not_le.2 hlt)
  · intro last hlast
    refine h.read last ?_
    change noteConfirmed (s.confirmingNow op) s.sweep = .read last at hlast
    cases hpc : s.sweep with
    | idle => rw [hpc] at hlast; cases hlast
    | read last' => rw [hpc] at hlast; exact hlast
    | walking w => rw [hpc] at hlast; cases hlast
  · intro w' hw'
    change noteConfirmed (s.confirmingNow op) s.sweep = .walking w' at hw'
    cases hpc : s.sweep with
    | idle => rw [hpc] at hw'; cases hw'
    | read last => rw [hpc] at hw'; cases hw'
    | walking w =>
      rw [hpc] at hw'
      cases hw'
      have hw := h.walk w hpc
      refine ⟨hw.started, hw.passed, hw.ahead, hw.ordered, ?_⟩
      intro b r hr hstatus hlt
      rcases confirmed_before op hr hstatus with hold | ⟨hnow, -⟩
      · rcases hw.rows b r hold hstatus hlt with hex | hsince | hrow
        · exact .inl hex
        · exact .inr (.inl (List.mem_append_right _ hsince))
        · exact .inr (.inr hrow)
      · exact .inr (.inl (List.mem_append_left _ (Option.mem_toList.2 hnow)))

/-! ## Steps of the sweep -/

theorem covered_readHeight (fails : Bool) (h : Covered s) :
    Covered (step cfg s (.readHeight fails)) := by
  simp only [step]
  split
  · split
    · exact h
    · refine ⟨h.below, ?_, ?_⟩
      · intro last hlast
        cases hlast
        rfl
      · intro w hw
        cases hw
  · exact h

theorem covered_queryBlocks (fails : Bool) (h : Covered s) :
    Covered (step cfg s (.queryBlocks fails)) := by
  simp only [step]
  split
  · rename_i last hpc
    split
    · exact h.stop
    · refine ⟨h.below, ?_, ?_⟩
      · intro last' hlast
        cases hlast
      · intro w hw
        cases hw
        have hrows : s.life.db.getConfirmedBlocksAbove last 20 ++
            (s.life.db.confirmedAbove last).drop 20 = s.life.db.confirmedAbove last :=
          List.take_append_drop 20 _
        refine ⟨h.read last hpc, le_refl _, ?_, ?_, ?_⟩
        · rw [hrows]
          exact fun e he => le_of_lt (lt_of_mem_confirmedAbove he)
        · rw [hrows]
          exact pairwise_confirmedAbove _ _
        · rw [hrows]
          exact fun b r hr hstatus hlt => .inr (.inr (mem_confirmedAbove hr hstatus hlt))
  · exact h

theorem covered_ask (answers : CoinbaseAnswers) (h : Covered s) :
    Covered (step cfg s (.ask answers)) := by
  simp only [step]
  split
  · rename_i last blockId height rest watermark beyond since hpc
    have hw := h.walk _ hpc
    have hhead : ∀ e ∈ rest ++ beyond, height ≤ e.2 :=
      fun e he => List.rel_of_pairwise_cons hw.ordered he
    split
    · refine ⟨?_, ?_, ?_⟩
      · intro b r hr hstatus hle
        exact List.mem_cons_of_mem _ (h.below b r hr hstatus hle)
      · intro last' hlast
        cases hlast
      · intro w' hw'
        cases hw'
        refine ⟨hw.started, ?_, hhead, hw.ordered.of_cons, ?_⟩
        · exact le_trans hw.passed (hw.ahead (blockId, height) List.mem_cons_self)
        · intro b r hr hstatus hlt
          rcases hw.rows b r hr hstatus hlt with hex | hsince | hrow
          · exact .inl (List.mem_cons_of_mem _ hex)
          · exact .inr (.inl hsince)
          · rcases List.mem_cons.1 hrow with heq | hrow
            · cases heq
              exact .inl List.mem_cons_self
            · exact .inr (.inr hrow)
    · refine ⟨h.below, ?_, ?_⟩
      · intro last' hlast
        cases hlast
      · intro w' hw'
        cases hw'
        exact ⟨hw.started, hw.passed, hw.ahead, hw.ordered, hw.rows⟩
  · exact h

/-- Rows at the watermark begin with the next one. -/
theorem Covers.not_at_watermark {w : Walk} (h : Covers s w)
    (hhead : ∀ e ∈ (w.rest ++ w.beyond).head?, e.2 ≠ w.watermark) {e : BlockId × ℤ}
    (he : e ∈ w.rest ++ w.beyond) : w.watermark < e.2 := by
  have hahead := h.ahead
  have hordered := h.ordered
  cases hl : w.rest ++ w.beyond with
  | nil =>
    rw [hl] at he
    cases he
  | cons x l =>
    rw [hl] at he hhead hahead hordered
    have hx : w.watermark < x.2 :=
      lt_of_le_of_ne (hahead x List.mem_cons_self) (Ne.symm (hhead x rfl))
    rcases List.mem_cons.1 he with rfl | he
    · exact hx
    · exact lt_of_lt_of_le hx (List.rel_of_pairwise_cons hordered he)

theorem covered_persist (fails : Bool) (h : Covered s) (hgood : s.InHeightOrder (.persist fails)) :
    Covered (step cfg s (.persist fails)) := by
  simp only [step]
  split
  · rename_i w hpc
    have hw := h.walk w hpc
    split
    · split
      · rename_i hnew
        simp only [InHeightOrder, hpc] at hgood
        obtain ⟨hsince, hhead⟩ := hgood hnew.2 hnew.1
        refine ⟨?_, ?_, ?_⟩
        · intro b r hr hstatus hle
          have hle : r.key.height ≤ w.watermark := hle
          rcases le_or_gt r.key.height s.last with hlow | hhigh
          · exact h.below b r hr hstatus hlow
          · rcases hw.rows b r hr hstatus (hw.started ▸ hhigh) with hex | hnew | hrow
            · exact hex
            · exact absurd hle (not_le.2 (hsince b hnew r hr hstatus))
            · exact absurd hle (not_le.2 (hw.not_at_watermark hhead hrow))
        · intro last hlast
          cases hlast
        · intro w' hw'
          cases hw'
      · exact h.stop
    · exact h
  · exact h

theorem covered_crash (h : Covered s) : Covered (step cfg s .crash) where
  below := h.below
  read last hlast := by cases hlast
  walk w hw := by cases hw

/-! ## Whole runs -/

theorem covered_step (op : CheckOp) (h : Covered s) (hgood : s.InHeightOrder op) :
    Covered (step cfg s op) := by
  cases op with
  | life op => exact covered_life op h hgood
  | readHeight fails => exact covered_readHeight fails h
  | queryBlocks fails => exact covered_queryBlocks fails h
  | ask answers => exact covered_ask answers h
  | persist fails => exact covered_persist fails h hgood
  | crash => exact covered_crash h

theorem covered_start : Covered start where
  below b r hr := by simp [start, BlockLife.start, fateOf, PoolDb.empty] at hr
  read last hlast := by cases hlast
  walk w hw := by cases hw

/-- **No confirmed block escapes the coinbase check**, along every run in which blocks become
    confirmed above what the check has passed. -/
theorem noneEscapes_of_inHeightOrder (cfg : CoinbaseCheckConfig) {ops : List CheckOp}
    (h : Allowed (step cfg) InHeightOrder start ops) :
    Always (step cfg) NoneEscapes start ops :=
  (always_of_allowed (fun _ op hs hop => covered_step op hs hop) covered_start h).imp
    (fun _ hs => hs.noneEscapes)

/-! ## A block that is recovered late -/

def transparentCheck : CoinbaseCheckConfig := ⟨BlockLife.soloSettings, "t1pool", false⟩

/-- The pool serves; it finds the block and records it. -/
def findBlock (b : WonBlock) : List CheckOp :=
  [.life (.find b true), .life (.submitted true), .life .foundDb, .life .foundDb]

/-- The only pending block is mature, and on the best chain. -/
def maturesAs (hash : String) : List CheckOp :=
  [.life (.counted (some 210)), .life .maturityDb, .life (.askedHash (some hash)),
    .life .maturityDb]

/-- A sweep that meets one new block, which pays the pool. -/
def sweepOne : List CheckOp :=
  [.readHeight false, .queryBlocks false,
    .ask ⟨some "0a0b", some (some "c0"), some [["t1pool"]], .known⟩, .persist false]

def serveSolo : List CheckOp :=
  [.life (.world BlockLife.soloWorld), .life .start, .life .sweepDb, .life .sweepDb]

theorem noneEscapes_of_inHeightOrder_twoBlocks :
    Always (step transparentCheck) NoneEscapes start
      (serveSolo ++ findBlock BlockLife.wonAt100 ++ maturesAs "0a0b" ++ sweepOne ++
        findBlock ⟨110, "0e0f", 1, 125000000, none⟩ ++ maturesAs "0e0f" ++ sweepOne) :=
  noneEscapes_of_inHeightOrder transparentCheck (by decide +kernel)

/-- The process dies over the block at height 90, and the node is out of reach at the restart. -/
def leavesCrumb : List CheckOp :=
  [.life (.find ⟨90, "0c0d", 1, 125000000, none⟩ true), .life .crash, .life .start,
    .life (.sweepChecked none), .life .sweepDb, .life .sweepDb]

/-- The next restart records it. -/
def recoversCrumb : List CheckOp :=
  [.life .crash, .life .start, .life (.sweepChecked (some "0c0d")), .life .sweepDb]

def lateRecovery : List CheckOp :=
  serveSolo ++ leavesCrumb ++ findBlock BlockLife.wonAt100 ++ maturesAs "0a0b" ++ sweepOne ++
    recoversCrumb ++ maturesAs "0c0d"

/-- The block at height 90 is confirmed when the height stands at 100. -/
theorem recovered_block_escapes :
    ¬ Always (step transparentCheck) NoneEscapes start lateRecovery := by
  intro h
  have hrun : (run (step transparentCheck) start lateRecovery).height = some 100 ∧
      (run (step transparentCheck) start lateRecovery).life.db.fateOf 2 =
        some ⟨⟨90, "0c0d"⟩, .confirmed⟩ ∧
      (run (step transparentCheck) start lateRecovery).examined = [1] := by
    decide +kernel
  obtain ⟨hheight, hfate, hexamined⟩ := hrun
  have hmem := h.last 100 hheight 2 _ hfate rfl (by decide)
  rw [hexamined] at hmem
  exact absurd hmem (by decide)

end CoinbaseCheck

end ZcashMiningPool
