import ZcashMiningPool.PoolCore.BlockLife

/-!
# Credits of orphaned blocks

An orphaned block must have no credit rows.  The two decisions meet in the database only: a
distribution reads nothing of the block's status, and an orphaning sees the credits that are
already there.

* `NoPhantom` — what must hold; `Unspoiled` — the invariant that carries it.  A block that is
  recorded and not yet distributed (`openBlocks`) has no credits, so the plain status flip of a
  lost height race leaves none behind.
* `creditingNow` — the one step that can go wrong; `InTime` — no orphan decision has crossed it.
* `noPhantom_of_inTime` — over whole runs, the credits that come in time are the only condition.
* `orphan_decision_overtakes_the_sweep` — a run of both processes in which they do not.
-/

set_option autoImplicit false

namespace ZcashMiningPool

open Table

/-! ## Blocks that await their distribution -/

def FoundPc.openBlock : FoundPc → Option BlockId
  | .recorded _ _ blockId => some blockId
  | _ => none

def TaskPc.openBlock : TaskPc → Option BlockId
  | .checking _ blockId => some blockId
  | .orphaning blockId => some blockId
  | .computing _ blockId => some blockId
  | .taking _ blockId => some blockId
  | .weighing _ blockId _ => some blockId
  | .crediting blockId _ => some blockId
  | .done => none

/-- The blocks a running process has recorded and not yet dealt with. -/
def PoolPc.openBlocks : PoolPc → List BlockId
  | .serving found tasks => found.openBlock.toList ++ tasks.filterMap TaskPc.openBlock
  | _ => []

theorem openBlocks_set {found : FoundPc} {tasks : List TaskPc} {i : ℕ} {pc pc' : TaskPc}
    (h : tasks[i]? = some pc) (hpc : pc'.openBlock = pc.openBlock) :
    (PoolPc.serving found (tasks.set i pc')).openBlocks = (PoolPc.serving found tasks).openBlocks := by
  have htasks : (tasks.set i pc').filterMap TaskPc.openBlock = tasks.filterMap TaskPc.openBlock := by
    induction tasks generalizing i with
    | nil => rfl
    | cons t tasks ih =>
      cases i with
      | zero =>
        cases h
        simp only [List.set_cons_zero, List.filterMap_cons, hpc]
      | succ i =>
        simp only [List.set_cons_succ, List.filterMap_cons, ih h]
  unfold PoolPc.openBlocks
  simp only [htasks]

/-- A task that ends takes its block off the list. -/
theorem openBlocks_done {found : FoundPc} {tasks : List TaskPc} {i : ℕ} {pc : TaskPc}
    {b : BlockId} (h : tasks[i]? = some pc) (hpc : pc.openBlock = some b) :
    (PoolPc.serving found tasks).openBlocks.Perm
      (b :: (PoolPc.serving found (tasks.set i .done)).openBlocks) := by
  have htasks : (tasks.filterMap TaskPc.openBlock).Perm
      (b :: (tasks.set i .done).filterMap TaskPc.openBlock) := by
    induction tasks generalizing i with
    | nil => cases h
    | cons t tasks ih =>
      cases i with
      | zero =>
        cases h
        simp only [List.set_cons_zero, List.filterMap_cons, hpc]
        exact List.Perm.refl _
      | succ i =>
        simp only [List.set_cons_succ, List.filterMap_cons]
        cases t.openBlock with
        | none => exact ih h
        | some x => exact ((ih h).cons x).trans (List.Perm.swap b x _)
  exact (htasks.append_left _).trans List.perm_middle

/-- The task takes over from the submit path. -/
theorem openBlocks_spawn (b : WonBlock) (crumb : Option ℕ) (blockId : BlockId)
    (tasks : List TaskPc) :
    (PoolPc.serving .idle (tasks ++ [.checking b blockId])).openBlocks.Perm
      (PoolPc.serving (.recorded b crumb blockId) tasks).openBlocks := by
  simp only [PoolPc.openBlocks, FoundPc.openBlock, TaskPc.openBlock, List.filterMap_append,
    List.filterMap_cons, List.filterMap_nil, Option.toList_none, Option.toList_some,
    List.nil_append]
  exact List.perm_append_comm

namespace BlockLife

/-! ## The invariant -/

/-- No orphaned block has credit rows. -/
def NoPhantom (s : BlockLife) : Prop :=
  ∀ b, s.db.statusOf b = some .orphaned → s.db.creditsOf b = []

structure Unspoiled (s : BlockLife) : Prop where
  noPhantom : ∀ b r, s.db.fateOf b = some r → r.status = .orphaned → s.db.creditsOf b = []
  /-- Credit rows belong to recorded blocks. -/
  unrecorded : ∀ b, s.db.fateOf b = none → s.db.creditsOf b = []
  waiting : ∀ b ∈ s.pool.openBlocks, s.db.fateOf b ≠ none ∧ s.db.creditsOf b = []
  distinct : s.pool.openBlocks.Nodup

theorem Unspoiled.noPhantom_state {s : BlockLife} (h : Unspoiled s) : s.NoPhantom := by
  intro b hb
  rw [PoolDb.statusOf_eq] at hb
  obtain ⟨r, hr, hstatus⟩ := Option.map_eq_some_iff.1 hb
  exact h.noPhantom b r hr hstatus

/-- A step that touches neither a status nor a credit, and opens no block. -/
theorem Unspoiled.keep {s s' : BlockLife} (h : Unspoiled s)
    (hfate : ∀ b, s'.db.fateOf b = s.db.fateOf b)
    (hcredits : ∀ b, s'.db.creditsOf b = s.db.creditsOf b)
    (hopen : s'.pool.openBlocks.Subperm s.pool.openBlocks) : Unspoiled s' where
  noPhantom b r hr hstatus := by
    rw [hfate] at hr
    rw [hcredits]
    exact h.noPhantom b r hr hstatus
  unrecorded b hb := by
    rw [hfate] at hb
    rw [hcredits]
    exact h.unrecorded b hb
  waiting b hb := by
    rw [hfate, hcredits]
    exact h.waiting b (hopen.subset hb)
  distinct := by
    obtain ⟨l, hperm, hsub⟩ := hopen
    exact hperm.nodup_iff.1 (h.distinct.sublist hsub)

/-- Only the place where the pool process stands changes. -/
theorem Unspoiled.move {s : BlockLife} (h : Unspoiled s) {p p' : PoolPc} (hpool : s.pool = p)
    (hopen : p'.openBlocks.Subperm p.openBlocks) : Unspoiled { s with pool := p' } :=
  h.keep (fun _ => rfl) (fun _ => rfl) (by rw [hpool]; exact hopen)

/-- A new row has no credits yet. -/
theorem Unspoiled.record {s s' : BlockLife} (h : Unspoiled s) {id : BlockId} {r : PoolDb.BlockFate}
    (hnone : s.db.fateOf id = none) (hr : r.status ≠ .orphaned)
    (hfate : ∀ b, s'.db.fateOf b = if b = id then some r else s.db.fateOf b)
    (hcredits : ∀ b, s'.db.creditsOf b = s.db.creditsOf b)
    (hopen : s'.pool.openBlocks.Subperm (id :: s.pool.openBlocks)) : Unspoiled s' where
  noPhantom b x hx hstatus := by
    rw [hcredits]
    rw [hfate] at hx
    split at hx
    · cases hx
      exact absurd hstatus hr
    · exact h.noPhantom b x hx hstatus
  unrecorded b hb := by
    rw [hcredits]
    rw [hfate] at hb
    split at hb
    · cases hb
    · exact h.unrecorded b hb
  waiting b hb := by
    rw [hfate, hcredits]
    rcases List.mem_cons.1 (hopen.subset hb) with rfl | hb
    · rw [if_pos rfl]
      exact ⟨by simp, h.unrecorded b hnone⟩
    · have hw := h.waiting b hb
      refine ⟨?_, hw.2⟩
      split
      · simp
      · exact hw.1
  distinct := by
    have hfresh : id ∉ s.pool.openBlocks := fun hmem => (h.waiting id hmem).1 hnone
    obtain ⟨l, hperm, hsub⟩ := hopen
    exact hperm.nodup_iff.1 ((List.nodup_cons.2 ⟨hfresh, h.distinct⟩).sublist hsub)

/-- A status is written; an orphaned block is left without credits. -/
theorem Unspoiled.flip {s s' : BlockLife} (h : Unspoiled s) {i : BlockId} {status : BlockStatus}
    (hfate : ∀ b, s'.db.fateOf b =
      if b = i then (s.db.fateOf b).map (fun r => { r with status := status }) else s.db.fateOf b)
    (hcredits : ∀ b, s'.db.creditsOf b = s.db.creditsOf b ∨ (b = i ∧ s'.db.creditsOf b = []))
    (horphaned : status = .orphaned → s'.db.creditsOf i = [])
    (hopen : s'.pool.openBlocks.Subperm s.pool.openBlocks) : Unspoiled s' where
  noPhantom b x hx hstatus := by
    rw [hfate] at hx
    split at hx
    · rename_i hb
      obtain ⟨r, -, rfl⟩ := Option.map_eq_some_iff.1 hx
      rw [hb]
      exact horphaned hstatus
    · rename_i hb
      rcases hcredits b with hc | hc
      · rw [hc]
        exact h.noPhantom b x hx hstatus
      · exact absurd hc.1 hb
  unrecorded b hb := by
    have hnone : s.db.fateOf b = none := by
      rw [hfate] at hb
      split at hb
      · exact Option.map_eq_none_iff.1 hb
      · exact hb
    rcases hcredits b with hc | hc
    · rw [hc]
      exact h.unrecorded b hnone
    · exact hc.2
  waiting b hb := by
    have hw := h.waiting b (hopen.subset hb)
    constructor
    · rw [hfate]
      split
      · exact fun hnone => hw.1 (Option.map_eq_none_iff.1 hnone)
      · exact hw.1
    · rcases hcredits b with hc | hc
      · rw [hc]
        exact hw.2
      · exact hc.2
  distinct := by
    obtain ⟨l, hperm, hsub⟩ := hopen
    exact hperm.nodup_iff.1 (h.distinct.sublist hsub)

/-- What the credit transaction writes: the credits, or nothing. -/
theorem credit_cases (db : PoolDb) (blockId : BlockId) (rs : List PplnsReward) :
    credit db blockId rs = db ∨
      (PplnsCalculator.credits rs ≠ [] ∧ db.fateOf blockId ≠ none ∧
        (∀ b, (credit db blockId rs).fateOf b = db.fateOf b) ∧
        ∀ b, (credit db blockId rs).creditsOf b
          = db.creditsOf b ++ if b = blockId then PplnsCalculator.credits rs else []) := by
  unfold credit PplnsCalculator.commit
  by_cases hnil : PplnsCalculator.credits rs = []
  · rw [if_pos hnil]
    exact .inl rfl
  · rw [if_neg hnil]
    cases hd : PoolDb.distributeBlockCredits blockId db (PplnsCalculator.credits rs) with
    | error e => exact .inl rfl
    | ok db' =>
      obtain ⟨bal, cr, hdb, -, -, hhas⟩ := PoolDb.distributeBlockCredits_spec hd
      refine .inr ⟨hnil, ?_, fun b => ?_, PoolDb.creditsOf_distribute hd⟩
      · obtain ⟨r, hr⟩ := Option.isSome_iff_exists.1 (hhas hnil)
        simp [PoolDb.fateOf, hr]
      · simp only [hdb]
        exact PoolDb.fateOf_congr rfl b

/-- Credits may be written to a block that is not orphaned and awaits nothing else. -/
theorem Unspoiled.credit {s s' : BlockLife} (h : Unspoiled s) (i : BlockId)
    (rs : List PplnsReward) (hdb : s'.db = BlockLife.credit s.db i rs)
    (htime : PplnsCalculator.credits rs ≠ [] → s.db.statusOf i ≠ some .orphaned)
    (hi : i ∉ s'.pool.openBlocks) (hopen : s'.pool.openBlocks.Subperm s.pool.openBlocks) :
    Unspoiled s' := by
  rcases credit_cases s.db i rs with hsame | ⟨hne, hrec, hfate, hcredits⟩
  · exact h.keep (fun b => by rw [hdb, hsame]) (fun b => by rw [hdb, hsame]) hopen
  · have hother : ∀ b, b ≠ i → s'.db.creditsOf b = s.db.creditsOf b := by
      intro b hb
      rw [hdb, hcredits, if_neg hb, List.append_nil]
    constructor
    · intro b r hr hstatus
      rw [hdb, hfate] at hr
      have hb : b ≠ i := by
        rintro rfl
        apply htime hne
        rw [PoolDb.statusOf_eq, hr, Option.map_some, hstatus]
      rw [hother b hb]
      exact h.noPhantom b r hr hstatus
    · intro b hnone
      rw [hdb, hfate] at hnone
      have hb : b ≠ i := by
        rintro rfl
        exact hrec hnone
      rw [hother b hb]
      exact h.unrecorded b hnone
    · intro b hb
      rw [hdb, hfate, ← hdb, hother b fun he => hi (he ▸ hb)]
      exact h.waiting b (hopen.subset hb)
    · obtain ⟨l, hperm, hsub⟩ := hopen
      exact hperm.nodup_iff.1 (h.distinct.sublist hsub)

/-! ## Credits in time -/

/-- The credits that the step `op` commits, and to which block. -/
def creditingNow (s : BlockLife) : BlockLifeOp → Option (BlockId × List PplnsReward)
  | .taskDb i =>
    match s.task? i with
    | some (.crediting blockId rewards) => some (blockId, rewards)
    | _ => none
  | .sweepDb =>
    match s.pool with
    | .starting (.crediting blockId rewards _) => some (blockId, rewards)
    | _ => none
  | _ => none

/-- No orphan decision has crossed the distribution whose credits are committed now. -/
def InTime (s : BlockLife) (op : BlockLifeOp) : Prop :=
  ∀ c ∈ s.creditingNow op, PplnsCalculator.credits c.2 ≠ [] → s.db.statusOf c.1 ≠ some .orphaned

instance (s : BlockLife) (op : BlockLifeOp) : Decidable (s.InTime op) :=
  inferInstanceAs (Decidable (∀ c ∈ s.creditingNow op, PplnsCalculator.credits c.2 ≠ [] →
    s.db.statusOf c.1 ≠ some .orphaned))

section Steps

variable {s : BlockLife}

theorem unspoiled_find (h : Unspoiled s) (b : WonBlock) (crumbWritten : Bool) :
    Unspoiled (s.find b crumbWritten) := by
  unfold find
  split
  · rename_i tasks hpool
    have hopen : ∀ crumb, (PoolPc.serving (.submitting b crumb) tasks).openBlocks.Subperm
        s.pool.openBlocks := by
      intro crumb
      rw [hpool]
      exact List.Subperm.refl _
    split
    · exact h.keep (fun _ => rfl) (fun _ => rfl) (hopen _)
    · exact h.keep (fun _ => rfl) (fun _ => rfl) (hopen _)
  · exact h

theorem unspoiled_submitted (h : Unspoiled s) (accepted : Bool) :
    Unspoiled (s.submitted accepted) := by
  unfold submitted
  split
  · rename_i b crumb tasks hpool
    apply h.move hpool
    cases accepted <;> exact List.Subperm.refl _
  · exact h

theorem unspoiled_foundChecked (h : Unspoiled s) (answer : Option String) :
    Unspoiled (s.foundChecked answer) := by
  unfold foundChecked
  split
  · rename_i b crumb tasks hpool
    split
    · exact h.move hpool (List.Subperm.refl _)
    · exact h.move hpool (List.Subperm.refl _)
    · exact h.move hpool (List.Subperm.refl _)
  · exact h

theorem fateOf_resolve (db : PoolDb) (crumb : Option ℕ) (outcome : String) (b : BlockId) :
    (resolve db crumb outcome).fateOf b = db.fateOf b := by
  cases crumb <;> rfl

theorem creditsOf_resolve (db : PoolDb) (crumb : Option ℕ) (outcome : String) (b : BlockId) :
    (resolve db crumb outcome).creditsOf b = db.creditsOf b := by
  cases crumb <;> rfl

theorem unspoiled_foundDb (h : Unspoiled s) : Unspoiled s.foundDb := by
  unfold foundDb
  split
  · rename_i crumb tasks hpool
    apply h.keep (fateOf_resolve _ _ _) (creditsOf_resolve _ _ _)
    rw [hpool]
    exact List.Subperm.refl _
  · rename_i b crumb tasks hpool
    split
    · rename_i blockId db hrec
      obtain ⟨hnone, hcredits, -, hfate, -⟩ := PoolDb.fateOf_recordBlock hrec
      apply h.record hnone (by simp) hfate (PoolDb.creditsOf_congr hcredits)
      rw [hpool]
      exact List.Subperm.refl _
    · exact h.move hpool (List.Subperm.refl _)
  · rename_i b crumb blockId tasks hpool
    apply h.keep (fateOf_resolve _ _ _) (creditsOf_resolve _ _ _)
    rw [hpool]
    exact (openBlocks_spawn b crumb blockId tasks).subperm
  · exact h

theorem unspoiled_foundFailed (h : Unspoiled s) : Unspoiled s.foundFailed := by
  unfold foundFailed
  split
  · rename_i crumb tasks hpool
    exact h.move hpool (List.Subperm.refl _)
  · rename_i b crumb tasks hpool
    exact h.move hpool (List.Subperm.refl _)
  · rename_i b crumb blockId tasks hpool
    exact h.move hpool (openBlocks_spawn b crumb blockId tasks).subperm
  · exact h

/-! ### The task -/

/-- A task that goes on keeps its block. -/
theorem subperm_set {found : FoundPc} {tasks : List TaskPc} {i : ℕ} {pc : TaskPc} (pc' : TaskPc)
    (hpool : s.pool = .serving found tasks) (h : tasks[i]? = some pc)
    (hpc : pc'.openBlock = pc.openBlock) :
    (s.setTask found tasks i pc').pool.openBlocks.Subperm s.pool.openBlocks := by
  unfold setTask
  simp only
  rw [openBlocks_set h hpc, hpool]

/-- A task that ends gives its block up. -/
theorem subperm_done {found : FoundPc} {tasks : List TaskPc} {i : ℕ} {pc : TaskPc} {b : BlockId}
    (hpool : s.pool = .serving found tasks) (h : tasks[i]? = some pc)
    (hpc : pc.openBlock = some b) :
    (s.setTask found tasks i .done).pool.openBlocks.Subperm s.pool.openBlocks := by
  have hperm := @openBlocks_done found tasks i pc b h hpc
  rw [← hpool] at hperm
  exact (List.sublist_cons_self b _).subperm.trans hperm.symm.subperm

/-- The block of a task awaits it. -/
theorem mem_openBlocks {found : FoundPc} {tasks : List TaskPc} {i : ℕ} {pc : TaskPc} {b : BlockId}
    (hpool : s.pool = .serving found tasks) (h : tasks[i]? = some pc)
    (hpc : pc.openBlock = some b) : b ∈ s.pool.openBlocks := by
  rw [hpool]
  exact (openBlocks_done h hpc).mem_iff.2 List.mem_cons_self

theorem unspoiled_taskChecked (h : Unspoiled s) (i : ℕ) (answer : Option String) :
    Unspoiled (s.taskChecked i answer) := by
  unfold taskChecked
  split
  · rename_i found tasks hpool
    split
    · rename_i b blockId htask
      split
      · exact h.keep (fun _ => rfl) (fun _ => rfl) (subperm_set _ hpool htask rfl)
      · exact h.keep (fun _ => rfl) (fun _ => rfl) (subperm_set _ hpool htask rfl)
    · exact h
  · exact h

theorem unspoiled_taskLuck (h : Unspoiled s) (i : ℕ) (luckPercent : Option ℚ) :
    Unspoiled (s.taskLuck i luckPercent) := by
  unfold taskLuck
  split
  · rename_i found tasks hpool
    split
    · rename_i b blockId htask
      refine h.keep (fun x => ?_) (fun x => ?_) 
        (subperm_set (.taking b blockId) hpool htask rfl)
      · cases luckPercent with
        | none => rfl
        | some luck => exact PoolDb.fateOf_updateBlockLuck _ _ _ x
      · cases luckPercent <;> rfl
    · exact h
  · exact h

theorem unspoiled_taskDb {c : PplnsCalculator} (h : Unspoiled s) (i : ℕ)
    (htime : s.InTime (.taskDb i)) : Unspoiled (taskDb c s i) := by
  unfold taskDb
  split
  · rename_i found tasks hpool
    split
    · rename_i blockId htask
      have hw := h.waiting blockId (mem_openBlocks hpool htask rfl)
      exact h.flip (PoolDb.fateOf_updateBlockStatus s.db blockId .orphaned) (fun _ => .inl rfl)
        (fun _ => hw.2) (subperm_done hpool htask rfl)
    · rename_i b blockId htask
      exact h.keep (PoolDb.fateOf_takeCostsForBlock s.db blockId _)
        (PoolDb.creditsOf_takeCostsForBlock s.db blockId _)
        (subperm_set (.weighing b blockId _) hpool htask rfl)
    · rename_i b blockId netReward htask
      split
      · exact h.keep (fun _ => rfl) (fun _ => rfl) (subperm_set _ hpool htask rfl)
      · exact h.keep (fun _ => rfl) (fun _ => rfl) (subperm_done hpool htask rfl)
    · rename_i blockId rewards htask
      have hperm := @openBlocks_done found tasks i _ blockId htask rfl
      have hnodup : (blockId :: (PoolPc.serving found (tasks.set i .done)).openBlocks).Nodup := by
        rw [← hperm.nodup_iff, ← hpool]
        exact h.distinct
      refine h.credit blockId rewards rfl (htime (blockId, rewards) ?_)
        (List.nodup_cons.1 hnodup).1 (subperm_done hpool htask rfl)
      simp only [creditingNow, task?, hpool, htask, Option.mem_some_iff]
    · exact h
  · exact h

theorem unspoiled_taskFailed (h : Unspoiled s) (i : ℕ) : Unspoiled (s.taskFailed i) := by
  unfold taskFailed
  split
  · rename_i found tasks hpool
    split
    iterate 4
      rename_i htask
      exact h.keep (fun _ => rfl) (fun _ => rfl) (subperm_done hpool htask rfl)
    exact h
  · exact h

/-! ### The startup sweep -/

theorem unspoiled_startSweep (h : Unspoiled s) : Unspoiled s.startSweep := by
  unfold startSweep
  split
  · rename_i hpool
    exact h.move hpool (List.Subperm.refl _)
  · exact h

theorem unspoiled_sweepChecked (h : Unspoiled s) (answer : Option String) :
    Unspoiled (s.sweepChecked answer) := by
  unfold sweepChecked
  split
  · rename_i id r rest hpool
    split
    · exact h.move hpool (List.Subperm.refl _)
    · exact h.move hpool (List.Subperm.refl _)
    · exact h.move hpool (List.Subperm.refl _)
  · exact h

theorem unspoiled_sweepDb {c : PplnsCalculator} (h : Unspoiled s) (htime : s.InTime .sweepDb) :
    Unspoiled (sweepDb c s) := by
  unfold sweepDb
  split
  · rename_i hpool
    exact h.move hpool (List.Subperm.refl _)
  · rename_i id r rest hpool
    split
    · exact h.move hpool (List.Subperm.refl _)
    · split
      · rename_i blockId db hrec
        obtain ⟨hnone, hcredits, -, hfate, -⟩ := PoolDb.fateOf_recordBlock hrec
        apply h.record hnone (by simp) hfate (PoolDb.creditsOf_congr hcredits)
        exact List.nil_subperm
      · exact h.move hpool (List.Subperm.refl _)
  · rename_i id outcome rest hpool
    exact h.keep (fun _ => rfl) (fun _ => rfl) List.nil_subperm
  · rename_i hpool
    exact h.move hpool (List.Subperm.refl _)
  · rename_i blockId height basis foundBy rest hpool
    exact h.keep (PoolDb.fateOf_takeCostsForBlock s.db blockId _)
      (PoolDb.creditsOf_takeCostsForBlock s.db blockId _) List.nil_subperm
  · rename_i blockId netReward foundBy rest hpool
    split
    · exact h.move hpool (List.Subperm.refl _)
    · exact h.move hpool (List.Subperm.refl _)
  · rename_i blockId rewards rest hpool
    refine h.credit blockId rewards rfl (htime (blockId, rewards) ?_) ?_
      List.nil_subperm
    · simp only [creditingNow, hpool, Option.mem_some_iff]
    · exact List.not_mem_nil
  · exact h

theorem unspoiled_sweepFailed (h : Unspoiled s) : Unspoiled s.sweepFailed := by
  unfold sweepFailed
  split
  iterate 7
    rename_i hpool
    exact h.move hpool (List.Subperm.refl _)
  exact h

/-! ### The maturity check -/

/-- The dashboard does not move the pool process. -/
theorem Unspoiled.check {m : MaturityPc} (h : Unspoiled s) : Unspoiled { s with maturity := m } :=
  h.keep (fun _ => rfl) (fun _ => rfl) (List.Subperm.refl _)

theorem unspoiled_counted (h : Unspoiled s) (answer : Option ℤ) : Unspoiled (s.counted answer) := by
  unfold counted
  split
  · exact h.check
  · exact h

theorem unspoiled_askedHash (h : Unspoiled s) (answer : Option String) :
    Unspoiled (s.askedHash answer) := by
  unfold askedHash
  split
  · split
    · exact h.check
    · split
      · exact h.check
      · exact h.check
  · exact h

theorem unspoiled_maturityDb {cfg : BlockLifeConfig} (h : Unspoiled s) :
    Unspoiled (maturityDb cfg s) := by
  unfold maturityDb
  split
  · exact h.check
  · rename_i count blockId rest hpc
    exact h.flip (PoolDb.fateOf_updateBlockStatus s.db blockId .confirmed) (fun _ => .inl rfl)
      (fun hc => by cases hc) (List.Subperm.refl _)
  · rename_i count blockId b rest hpc
    split
    · exact h.check
    · rename_i out db horphan
      have hdb := PoolDb.fateOf_orphanBlock horphan
      refine h.flip (i := blockId) (fun x => (hdb x).2.2) (fun x => ?_) (fun _ => ?_)
        (List.Subperm.refl _)
      · by_cases hx : x = blockId
        · exact .inr ⟨hx, by rw [(hdb x).1, if_pos hx]⟩
        · exact .inl (by rw [(hdb x).1, if_neg hx])
      · rw [(hdb blockId).1, if_pos rfl]
  · exact h.keep (fun _ => rfl) (fun _ => rfl) (List.Subperm.refl _)
  · exact h

end Steps

/-! ## Whole runs -/

variable {cfg : BlockLifeConfig}

/-- **Step lemma.**  Every step of either process keeps the invariant, if its credits come in
    time. -/
theorem unspoiled_step {s : BlockLife} (op : BlockLifeOp) (h : Unspoiled s) (htime : s.InTime op) :
    Unspoiled (step cfg s op) := by
  cases op with
  | world other => exact h.keep (fun _ => rfl) (fun _ => rfl) (List.Subperm.refl _)
  | crash => exact h.keep (fun _ => rfl) (fun _ => rfl) List.nil_subperm
  | start => exact unspoiled_startSweep h
  | find b crumbWritten => exact unspoiled_find h b crumbWritten
  | submitted accepted => exact unspoiled_submitted h accepted
  | foundChecked answer => exact unspoiled_foundChecked h answer
  | foundDb => exact unspoiled_foundDb h
  | foundFailed => exact unspoiled_foundFailed h
  | taskChecked i answer => exact unspoiled_taskChecked h i answer
  | taskLuck i luckPercent => exact unspoiled_taskLuck h i luckPercent
  | taskDb i => exact unspoiled_taskDb h i htime
  | taskFailed i => exact unspoiled_taskFailed h i
  | sweepChecked answer => exact unspoiled_sweepChecked h answer
  | sweepDb => exact unspoiled_sweepDb h htime
  | sweepFailed => exact unspoiled_sweepFailed h
  | crashDashboard => exact h.check
  | counted answer => exact unspoiled_counted h answer
  | askedHash answer => exact unspoiled_askedHash h answer
  | maturityDb => exact unspoiled_maturityDb h

theorem unspoiled_start : Unspoiled BlockLife.start where
  noPhantom b r hr := by simp [BlockLife.start, PoolDb.fateOf, PoolDb.empty] at hr
  unrecorded b _ := rfl
  waiting b hb := by simp [BlockLife.start, PoolPc.openBlocks] at hb
  distinct := List.nodup_nil

/-- **No phantom credits**, along every run in which no credits are committed to a block that
    was orphaned in the meantime. -/
theorem noPhantom_of_inTime (cfg : BlockLifeConfig) {ops : List BlockLifeOp}
    (h : Machine.Allowed (step cfg) InTime BlockLife.start ops) :
    Machine.Always (step cfg) NoPhantom BlockLife.start ops :=
  (Machine.always_of_allowed (fun _ op hs hop => unspoiled_step op hs hop) unspoiled_start h).imp
    (fun _ hs => hs.noPhantom_state)

/-! ## An orphan decision that overtakes the sweep -/

/-- One solo miner, who finds the block at height 100. -/
def soloSettings : BlockLifeConfig := ⟨.new 1000 0 .solo, 100, false⟩

def soloWorld : PoolDb :=
  { PoolDb.empty with
    miners := Auto.empty.insert ⟨"t1miner", 0⟩
    workers := Auto.empty.insert ⟨1, "rig", 0, none⟩ }

def wonAt100 : WonBlock := ⟨100, "0a0b", 1, 125000000, none⟩

/-- The process dies before the task has run; the next sweep reads the block as not credited. -/
def untilTheSweep : List BlockLifeOp :=
  [.world soloWorld, .start, .sweepDb, .sweepDb, .find wonAt100 true, .submitted true, .foundDb,
    .foundDb, .crash, .start, .sweepDb]

/-- The maturity check finds another block at this height. -/
def orphanDecision : List BlockLifeOp :=
  [.counted (some 200), .maturityDb, .askedHash (some "0c0d"), .maturityDb]

/-- Costs, lookup and credits. -/
def sweepDistributes : List BlockLifeOp := [.sweepDb, .sweepDb, .sweepDb]

theorem noPhantom_of_inTime_sweepFirst :
    Machine.Always (step soloSettings) NoPhantom BlockLife.start
      (untilTheSweep ++ sweepDistributes ++ orphanDecision) :=
  noPhantom_of_inTime soloSettings (by decide +kernel)

/-- The sweep goes on from what it has read, and credits the orphaned block. -/
theorem orphan_decision_overtakes_the_sweep :
    ¬ Machine.Always (step soloSettings) NoPhantom BlockLife.start
      (untilTheSweep ++ orphanDecision ++ sweepDistributes) := by
  intro h
  have hrun : (Machine.run (step soloSettings) BlockLife.start
        (untilTheSweep ++ orphanDecision ++ sweepDistributes)).db.statusOf 1 = some .orphaned ∧
      (Machine.run (step soloSettings) BlockLife.start
        (untilTheSweep ++ orphanDecision ++ sweepDistributes)).db.creditsOf 1
        = [(1, 125000000)] := by
    decide +kernel
  have hnone := h.last 1 hrun.1
  rw [hrun.2] at hnone
  cases hnone

end BlockLife

end ZcashMiningPool
