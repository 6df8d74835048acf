import ZcashMiningPool.Db.Shares
import ZcashMiningPool.PoolCore.Job
import ZcashMiningPool.PoolCore.Session

/-!
# Share validation

`ShareValidator::validate_share` of `pool-core/src/share.rs`: from the submitted texts to a
credited share and, when the hash meets the network target, to `submit_block`.

* `Primitives` — hashing, Equihash and fingerprinting, which come from other crates.
* `verifyShare` — the checks after the duplicate history that read the validator's state.
* `resolveWorker` — the worker of a share, through the per-session cache.
* `submitFoundBlock` — breadcrumb, submission, fate, record.
* `validateShare` — the whole call; any database call may fail, and the node answers anything.
* `SolvesBlock` — a new, well-formed submission whose hash meets the network target.

Principal results:

* `reachesNode_iff_meetsSession` — with a working database such a submission reaches
  `submit_block` exactly when its hash also meets the session's targets.
* `savesBlock_iff_storesShare` — and with a failing one exactly when worker and share could be
  stored first; else it is refused as a duplicate the next time, `duplicate_after_failed_store`.
-/

set_option autoImplicit false

namespace ZcashMiningPool

open Table

/-! ## What comes from elsewhere -/

structure Primitives where
  sha256d : Bytes → Bytes32
  /-- `equihash::is_valid_solution(200, 9, input, nonce, soln)`. -/
  isValidSolution : Bytes → Bytes → Bytes → Except String Unit
  /-- The `DefaultHasher` of job id, nonce and raw solution. -/
  shareFp : String → Bytes → Bytes → UInt64
  /-- How a database error reads. -/
  dbText : DbError → String

/-- The database calls of the share path. -/
inductive ShareCall where
  | touchWorker
  | getOrCreateMiner
  | getOrCreateWorker
  | recordShare
  | recordBlockSubmission
  | recordBlock
  | resolveBlockSubmission
  | updateWorkerDifficulty
  deriving DecidableEq, Repr

/-- Outcome of post-submit chain-inclusion verification. -/
inductive InclusionCheck where
  | verified
  | mismatch
  | unknown
  deriving DecidableEq, Repr

/-- What the outside world answers during one call: which database calls fail, whether the node
    accepts the block, and what it says about inclusion. -/
structure Answers where
  fails : ShareCall → Bool
  submitOk : Bool
  inclusion : InclusionCheck

/-- A database call that may fail. -/
def attempt {α : Type} (fails : Bool) (x : Except DbError α) : Except DbError α :=
  if fails then .error (.sqlx .io) else x

/-! ## State -/

structure CachedWorker where
  minerId : MinerId
  workerId : WorkerId
  touched : ℚ
  deriving DecidableEq, Repr

/-- How often a cached worker's `last_seen` is bumped. -/
def workerTouchInterval : ℚ := 30

structure ShareValidator where
  db : PoolDb
  jobs : String → Option MiningJob
  defaultTarget : Bytes32
  sessionDifficulty : String → Option SessionDifficulty
  workerCache : Keyed (String × String) CachedWorker
  vardiffConfig : VardiffConfig
  portDifficulty : ℕ → Option ℚ
  sessionWorkerId : String → Option WorkerId
  latestNotify : Option Notify

structure ShareResult where
  isBlock : Bool
  blockHeight : Option ℤ
  deriving DecidableEq, Repr

/-- The off-loop task of a recorded block. -/
structure FoundBlock where
  blockId : BlockId
  height : ℤ
  hash : String
  basis : ℤ
  workerId : WorkerId
  deriving DecidableEq, Repr

/-- What a call leaves behind. -/
structure Outcome where
  validator : ShareValidator
  result : Except StratumError ShareResult
  /-- `record_share` committed. -/
  recorded : Bool
  /-- What was passed to `submit_block`. -/
  submitted : Option String
  task : Option FoundBlock

/-- The call ended before anything was recorded. -/
def Outcome.rejected (v : ShareValidator) (e : StratumError) : Outcome :=
  ⟨v, .error e, false, none, none⟩

namespace ShareValidator

variable (prims : Primitives)

def setSession (v : ShareValidator) (sessionId : String) (sd : Option SessionDifficulty) :
    ShareValidator :=
  { v with sessionDifficulty := Function.update v.sessionDifficulty sessionId sd }

/-! ## The checks -/

/-- The fingerprint is over the canonical raw solution. -/
def fingerprint (sub : Submission) (d : DecodedShare) : UInt64 :=
  prims.shareFp sub.jobId d.nonce d.rawSolution

/-- The duplicate history of the session, if it has a record; `none` for a duplicate. -/
def rememberShare (v : ShareValidator) (sessionId : String) (fp : UInt64) :
    Option ShareValidator :=
  match v.sessionDifficulty sessionId with
  | none => some v
  | some sd => (sd.remember fp).map (fun sd' => v.setSession sessionId (some sd'))

/-- A share that passed every check. -/
structure VerifiedShare where
  header : Bytes
  hash : Bytes32
  difficulty : ℚ
  isBlock : Bool

/-- Time, header, pool targets, Equihash, network target, in this order. -/
def verifyShare (clock : Clock) (v : ShareValidator) (job : MiningJob) (sub : Submission)
    (d : DecodedShare) : Except StratumError VerifiedShare := do
  checkNtime job.template.curtime clock.unix sub.time
  let headerInput ← buildHeaderInput job sub.time
  let header := fullHeader headerInput d
  let hash := prims.sha256d header
  match creditDifficulty v.defaultTarget (v.sessionDifficulty sub.sessionId) hash clock.instant with
  | none => .error StratumError.lowDifficulty
  | some difficulty =>
    match prims.isValidSolution headerInput d.nonce d.rawSolution with
    | .error e => .error (.other s!"Invalid Equihash solution: {e}")
    | .ok () =>
      match parseTarget job.template.target with
      | .error e => .error (.other s!"Bad network target: {e}")
      | .ok networkTarget => .ok ⟨header, hash, difficulty, meetsTarget hash networkTarget⟩

/-! ## The worker -/

/-- `format: "address.worker"`. -/
def minerAddress (workerName : String) : String :=
  (Text.fields '.' workerName).headD workerName

def workerLabel (workerName : String) : String :=
  ((Text.fields '.' workerName)[1]?).getD "default"

/-- `INSERT` into the cache; above 4096 entries the cache is cleared first. -/
def cacheWorker (v : ShareValidator) (key : String × String) (c : CachedWorker) :
    ShareValidator :=
  let cache := if 4096 < v.workerCache.rows.length then Keyed.empty else v.workerCache
  { v with workerCache := cache.upsert key c }

/-- The worker id of a share. -/
def resolveWorker (clock : Clock) (answers : Answers) (v : ShareValidator)
    (sessionId workerName : String) : Except DbError WorkerId × ShareValidator :=
  match v.workerCache.get? (sessionId, workerName) with
  | some c =>
    if clock.instant - c.touched < workerTouchInterval then (.ok c.workerId, v)
    else
      -- the answer of `touch_worker` is ignored
      let db := if answers.fails .touchWorker then v.db else v.db.touchWorker c.workerId
      (.ok c.workerId,
        { v with
          db := db
          workerCache := v.workerCache.upsert (sessionId, workerName)
            { c with touched := clock.instant } })
  | none =>
    if answers.fails .getOrCreateMiner then (.error (.sqlx .io), v)
    else
      let (minerId, db₁) := v.db.getOrCreateMiner (minerAddress workerName)
      match attempt (answers.fails .getOrCreateWorker)
          (db₁.getOrCreateWorker minerId (workerLabel workerName)) with
      | .error e => (.error e, { v with db := db₁ })
      | .ok ((workerId, _), db₂) =>
        (.ok workerId,
          cacheWorker { v with db := db₂ } (sessionId, workerName)
            ⟨minerId, workerId, clock.instant⟩)

/-! ## The block -/

/-- The breadcrumb before the submission; without one the block is submitted all the same. -/
def leaveCrumb (answers : Answers) (db : PoolDb) (height : ℤ) (hash : String) (workerId : WorkerId)
    (reward : ℤ) (actualReward : Option ℤ) : Option ℕ × PoolDb :=
  if answers.fails .recordBlockSubmission then (none, db)
  else
    let (id, db) := db.recordBlockSubmission height hash workerId reward actualReward
    (some id, db)

/-- A call that settles a breadcrumb, if there is one; its answer is ignored. -/
def resolveCrumb (answers : Answers) (db : PoolDb) (crumb : Option ℕ) (outcome : String) :
    PoolDb :=
  match crumb with
  | none => db
  | some id =>
    if answers.fails .resolveBlockSubmission then db else db.resolveBlockSubmission id outcome

/-- The fate of the submitted block: an error of `submit_block` is not a rejection. -/
def blockFate (answers : Answers) : InclusionCheck :=
  if answers.submitOk then .verified else answers.inclusion

/-- Breadcrumb, submission and record of an assembled block. -/
def submitBlock (answers : Answers) (v : ShareValidator) (job : MiningJob) (hash : Bytes32)
    (workerId : WorkerId) (block : Bytes) : Outcome :=
  let blockHex := Text.hexEncode block
  let height : ℤ := job.template.height
  let reward := computeBlockReward height
  let actualReward := reward + collectedFees job.template
  let hashHex := Text.hexEncode hash.bytes
  let (crumb, db₁) := leaveCrumb answers v.db height hashHex workerId reward (some actualReward)
  match blockFate answers with
  | .mismatch =>
    ⟨{ v with db := resolveCrumb answers db₁ crumb "rejected" }, .ok ⟨true, none⟩, true,
      some blockHex, none⟩
  | .unknown => ⟨{ v with db := db₁ }, .ok ⟨true, none⟩, true, some blockHex, none⟩
  | .verified =>
    match attempt (answers.fails .recordBlock)
        (db₁.recordBlock height hashHex reward (some actualReward) workerId none) with
    | .error _ => ⟨{ v with db := db₁ }, .ok ⟨true, none⟩, true, some blockHex, none⟩
    | .ok (blockId, db₂) =>
      ⟨{ v with db := resolveCrumb answers db₂ crumb "recorded" }, .ok ⟨true, some height⟩, true,
        some blockHex, some ⟨blockId, height, hashHex, actualReward, workerId⟩⟩

/-- What follows `record_share`. -/
def finishShare (answers : Answers) (v : ShareValidator) (job : MiningJob) (s : VerifiedShare)
    (workerId : WorkerId) : Outcome :=
  if s.isBlock then
    match assembleFullBlock s.header job.template with
    | .error _ => ⟨v, .ok ⟨true, none⟩, true, none, none⟩
    | .ok block => submitBlock answers v job s.hash workerId block
  else ⟨v, .ok ⟨false, none⟩, true, none, none⟩

/-- Credit a verified share, and submit the block it may be. -/
def creditShare (clock : Clock) (answers : Answers) (v : ShareValidator) (job : MiningJob)
    (sub : Submission) (s : VerifiedShare) : Outcome :=
  match v.resolveWorker clock answers sub.sessionId sub.workerName with
  | (.error e, v₁) => .rejected v₁ (.other s!"DB error: {prims.dbText e}")
  | (.ok workerId, v₁) =>
    match attempt (answers.fails .recordShare)
        (v₁.db.recordShare workerId sub.jobId s.difficulty s.isBlock sub.sessionId) with
    | .error e => .rejected v₁ (.other s!"DB error: {prims.dbText e}")
    | .ok (_, db) => finishShare answers { v₁ with db := db } job s workerId

def validateShare (clock : Clock) (answers : Answers) (v : ShareValidator) (sub : Submission) :
    Outcome :=
  match v.jobs sub.jobId with
  | none => .rejected v StratumError.jobNotFound
  | some job =>
    match decodeSubmission sub with
    | .error e => .rejected v e
    | .ok d =>
      match v.rememberShare sub.sessionId (fingerprint prims sub d) with
      | none => .rejected v StratumError.duplicateShare
      | some v₁ =>
        match verifyShare prims clock v₁ job sub d with
        | .error e => .rejected v₁ e
        | .ok s => creditShare prims clock answers v₁ job sub s

/-! ## What is kept -/

/-- Every cached worker is recorded; workers are never deleted. -/
def WorkersKnown (v : ShareValidator) : Prop :=
  ∀ key c, v.workerCache.get? key = some c → v.db.workers.has c.workerId = true

theorem rememberShare_cases {v v₁ : ShareValidator} {sessionId : String} {fp : UInt64}
    (h : v.rememberShare sessionId fp = some v₁) :
    (v.sessionDifficulty sessionId = none ∧ v₁ = v) ∨
      ∃ sd, v.sessionDifficulty sessionId = some sd ∧ fp ∉ sd.recentShareFps ∧
        v₁ = v.setSession sessionId (some { sd with
          recentShareFps := BoundedFifo.push shareDedupHistory sd.recentShareFps fp }) := by
  unfold rememberShare at h
  split at h
  · rename_i hnone
    cases h
    exact .inl ⟨hnone, rfl⟩
  · rename_i sd hsd
    obtain ⟨sd', hsd', rfl⟩ := Option.map_eq_some_iff.1 h
    unfold SessionDifficulty.remember at hsd'
    split at hsd'
    · cases hsd'
    · rename_i hfresh
      cases hsd'
      exact .inr ⟨sd, hsd, hfresh, rfl⟩

/-- The duplicate history is the only thing that remembering a share changes. -/
theorem rememberShare_frame {v v₁ : ShareValidator} {sessionId : String} {fp : UInt64}
    (h : v.rememberShare sessionId fp = some v₁) :
    v₁.db = v.db ∧ v₁.jobs = v.jobs ∧ v₁.defaultTarget = v.defaultTarget ∧
      v₁.workerCache = v.workerCache ∧
      sessionTargets v₁.defaultTarget (v₁.sessionDifficulty sessionId)
        = sessionTargets v.defaultTarget (v.sessionDifficulty sessionId) := by
  rcases rememberShare_cases h with ⟨-, rfl⟩ | ⟨sd, hsd, -, rfl⟩
  · exact ⟨rfl, rfl, rfl, rfl, rfl⟩
  · refine ⟨rfl, rfl, rfl, rfl, ?_⟩
    simp [setSession, hsd, sessionTargets]

theorem creditDifficulty_congr {t t' : Bytes32} {s s' : Option SessionDifficulty}
    (h : sessionTargets t s = sessionTargets t' s') (hash : Bytes32) (now : ℚ) :
    creditDifficulty t s hash now = creditDifficulty t' s' hash now := by
  unfold creditDifficulty
  rw [h]

theorem attempt_ok {α : Type} {fails : Bool} {x : Except DbError α} {a : α}
    (h : attempt fails x = .ok a) : fails = false ∧ x = .ok a := by
  unfold attempt at h
  split at h
  · cases h
  · rename_i hf
    exact ⟨by simpa using hf, h⟩

theorem workers_getOrCreateMiner (db : PoolDb) (address : String) :
    (db.getOrCreateMiner address).2.workers = db.workers := by
  unfold PoolDb.getOrCreateMiner
  split <;> rfl

theorem workers_getOrCreateWorker {db db' : PoolDb} {minerId : MinerId} {name : String}
    {w : WorkerId × Worker} (h : db.getOrCreateWorker minerId name = .ok (w, db')) :
    db'.workers.has w.1 = true ∧
      ∀ i, db.workers.has i = true → db'.workers.has i = true := by
  unfold PoolDb.getOrCreateWorker at h
  split at h
  · rename_i id r hfind
    cases h
    have hmem : (id, r) ∈ db.workers.rows := List.mem_of_find?_eq_some hfind
    refine ⟨?_, fun i hi => by simpa using hi⟩
    simpa using Auto.has_iff.2 ⟨r, hmem⟩
  · split at h
    · cases h
      refine ⟨?_, fun i hi => Auto.has_insert hi _⟩
      simp [Auto.has, Auto.get?_insert]
    · cases h

/-- A worker that is resolved is recorded, and the cache stays in step with the database. -/
theorem resolveWorker_known {clock : Clock} {answers : Answers} {v v₁ : ShareValidator}
    {sessionId workerName : String} {out : Except DbError WorkerId} (h : WorkersKnown v)
    (hx : v.resolveWorker clock answers sessionId workerName = (out, v₁)) :
    WorkersKnown v₁ ∧ ∀ w, out = .ok w → v₁.db.workers.has w = true := by
  unfold resolveWorker at hx
  split at hx
  · rename_i c hc
    have hknown := h _ c hc
    split at hx
    · cases hx
      exact ⟨h, fun w hw => by cases hw; exact hknown⟩
    · cases hx
      have hkeep : ∀ w, v.db.workers.has w = true →
          (if answers.fails .touchWorker then v.db
            else v.db.touchWorker c.workerId).workers.has w = true := by
        intro w hw
        split
        · exact hw
        · simpa [PoolDb.touchWorker] using hw
      refine ⟨fun key c' hc' => ?_, fun w hw => by cases hw; exact hkeep _ hknown⟩
      rw [Keyed.get?_upsert] at hc'
      split at hc'
      · cases hc'
        exact hkeep _ hknown
      · exact hkeep _ (h key c' hc')
  · split at hx
    · cases hx
      exact ⟨h, fun w hw => by cases hw⟩
    · have hworkers := workers_getOrCreateMiner v.db (minerAddress workerName)
      obtain ⟨minerId, db₁⟩ := v.db.getOrCreateMiner (minerAddress workerName)
      simp only at hx hworkers
      split at hx
      · cases hx
        exact ⟨fun key c hc => hworkers ▸ h key c hc, fun w hw => by cases hw⟩
      · rename_i workerId w db₂ hdb₂
        cases hx
        obtain ⟨hnew, hkeep⟩ := workers_getOrCreateWorker (attempt_ok hdb₂).2
        refine ⟨fun key c hc => ?_, fun w hw => by cases hw; exact hnew⟩
        simp only [cacheWorker, Keyed.get?_upsert] at hc ⊢
        split at hc
        · cases hc
          exact hnew
        · apply hkeep
          rw [hworkers]
          split at hc
          · cases hc
          · exact h key c hc

/-- Looking a worker up does not touch sessions and jobs. -/
theorem resolveWorker_frame (clock : Clock) (answers : Answers) (v : ShareValidator)
    (sessionId workerName : String) :
    (v.resolveWorker clock answers sessionId workerName).2.sessionDifficulty
        = v.sessionDifficulty ∧
      (v.resolveWorker clock answers sessionId workerName).2.jobs = v.jobs := by
  unfold resolveWorker
  split
  · split <;> exact ⟨rfl, rfl⟩
  · split
    · exact ⟨rfl, rfl⟩
    · simp only
      split <;> exact ⟨rfl, rfl⟩

theorem miners_getOrCreateMiner (db : PoolDb) (address : String) :
    (db.getOrCreateMiner address).2.miners.has (db.getOrCreateMiner address).1 = true := by
  unfold PoolDb.getOrCreateMiner
  split
  · rename_i id r hfind
    exact Auto.has_iff.2 ⟨r, List.mem_of_find?_eq_some hfind⟩
  · simp [Auto.has, Auto.get?_insert]

theorem getOrCreateWorker_ok {db : PoolDb} {minerId : MinerId} (h : db.miners.has minerId = true)
    (name : String) : ∃ w db', db.getOrCreateWorker minerId name = .ok (w, db') := by
  unfold PoolDb.getOrCreateWorker
  split
  · exact ⟨_, _, rfl⟩
  · rw [if_pos h]
    exact ⟨_, _, rfl⟩

/-- A worker is found exactly when it is cached or both lookups succeed. -/
theorem resolveWorker_ok_iff (clock : Clock) (answers : Answers) (v : ShareValidator)
    (sessionId workerName : String) :
    (∃ w, (v.resolveWorker clock answers sessionId workerName).1 = .ok w) ↔
      (v.workerCache.get? (sessionId, workerName)).isSome = true ∨
        (answers.fails .getOrCreateMiner = false ∧ answers.fails .getOrCreateWorker = false) := by
  unfold resolveWorker
  cases hc : v.workerCache.get? (sessionId, workerName) with
  | some c =>
    simp only [Option.isSome_some, true_or, iff_true]
    split <;> exact ⟨_, rfl⟩
  | none =>
    simp only [Option.isSome_none, Bool.false_eq_true, false_or]
    cases hm : answers.fails .getOrCreateMiner with
    | true => simp
    | false =>
      have hminer := miners_getOrCreateMiner v.db (minerAddress workerName)
      rcases hr : v.db.getOrCreateMiner (minerAddress workerName) with ⟨minerId, db₁⟩
      rw [hr] at hminer
      cases hw : answers.fails .getOrCreateWorker with
      | true => simp [attempt]
      | false =>
        obtain ⟨w, db₂, hw₂⟩ := getOrCreateWorker_ok hminer (workerLabel workerName)
        simp [attempt, hw₂]

/-- What is passed to `submit_block` does not depend on the node or the database. -/
theorem submitBlock_submitted (answers : Answers) (v : ShareValidator) (job : MiningJob)
    (hash : Bytes32) (workerId : WorkerId) (block : Bytes) :
    (submitBlock answers v job hash workerId block).submitted = some (Text.hexEncode block) ∧
      ∃ r, (submitBlock answers v job hash workerId block).result = .ok r := by
  unfold submitBlock
  simp only
  split
  · exact ⟨rfl, _, rfl⟩
  · exact ⟨rfl, _, rfl⟩
  · split <;> exact ⟨rfl, _, rfl⟩

end ShareValidator

/-! ## Found blocks -/

section FoundBlocks

open ShareValidator

variable (prims : Primitives)

/-- A new, well-formed submission against a live job, with a valid solution and a hash that meets
    the network target. -/
structure SolvesBlock (clock : Clock) (v : ShareValidator) (sub : Submission) (job : MiningJob)
    (d : DecodedShare) (headerInput : Bytes) : Prop where
  live : v.jobs sub.jobId = some job
  decoded : decodeSubmission sub = .ok d
  fresh : ∀ sd, v.sessionDifficulty sub.sessionId = some sd →
    fingerprint prims sub d ∉ sd.recentShareFps
  ntime : checkNtime job.template.curtime clock.unix sub.time = .ok ()
  header : buildHeaderInput job sub.time = .ok headerInput
  solution : prims.isValidSolution headerInput d.nonce d.rawSolution = .ok ()
  network : ∃ t, parseTarget job.template.target = .ok t ∧
    meetsTarget (prims.sha256d (fullHeader headerInput d)) t = true

/-- The verified share of a solving submission. -/
def solvedShare (headerInput : Bytes) (d : DecodedShare) (difficulty : ℚ) : VerifiedShare where
  header := fullHeader headerInput d
  hash := prims.sha256d (fullHeader headerInput d)
  difficulty := difficulty
  isBlock := true

/-- The assembled block is passed to `submit_block`. -/
def SubmitsAssembled (out : Outcome) (header : Bytes) (template : BlockTemplate) : Prop :=
  ∃ block, assembleFullBlock header template = .ok block ∧
    out.submitted = some (Text.hexEncode block)

/-- The template has a coinbase, and its transactions are hexadecimal. -/
def Assembles (header : Bytes) (template : BlockTemplate) : Prop :=
  ∃ block, assembleFullBlock header template = .ok block

/-- Worker and share are stored: the worker is cached or both lookups succeed, and
    `record_share` succeeds. -/
def StoresShare (answers : Answers) (v : ShareValidator) (sub : Submission) : Prop :=
  ((v.workerCache.get? (sub.sessionId, sub.workerName)).isSome = true ∨
    (answers.fails .getOrCreateMiner = false ∧ answers.fails .getOrCreateWorker = false)) ∧
  answers.fails .recordShare = false

variable {prims}

/-- **Up to the worker**, a solving submission only depends on the session's targets. -/
theorem validateShare_solves {clock : Clock} {v : ShareValidator} {sub : Submission}
    {job : MiningJob} {d : DecodedShare} {headerInput : Bytes}
    (h : SolvesBlock prims clock v sub job d headerInput) (answers : Answers) :
    ∃ v₁, v.rememberShare sub.sessionId (fingerprint prims sub d) = some v₁ ∧
      validateShare prims clock answers v sub =
        match creditDifficulty v.defaultTarget (v.sessionDifficulty sub.sessionId)
            (prims.sha256d (fullHeader headerInput d)) clock.instant with
        | none => .rejected v₁ StratumError.lowDifficulty
        | some difficulty => creditShare prims clock answers v₁ job sub
            (solvedShare prims headerInput d difficulty) := by
  have hnew : ∃ v₁, v.rememberShare sub.sessionId (fingerprint prims sub d) = some v₁ := by
    unfold rememberShare
    cases hs : v.sessionDifficulty sub.sessionId with
    | none => exact ⟨v, rfl⟩
    | some sd =>
      simp only [SessionDifficulty.remember, if_neg (h.fresh sd hs)]
      exact ⟨_, rfl⟩
  obtain ⟨v₁, hv₁⟩ := hnew
  obtain ⟨-, -, -, -, htargets⟩ := rememberShare_frame hv₁
  obtain ⟨t, ht, hmeets⟩ := h.network
  refine ⟨v₁, hv₁, ?_⟩
  rw [← creditDifficulty_congr htargets]
  simp only [validateShare, h.live, h.decoded, hv₁, verifyShare, h.ntime, h.header, h.solution, ht,
    hmeets, bind, Except.bind]
  cases creditDifficulty v₁.defaultTarget (v₁.sessionDifficulty sub.sessionId)
    (prims.sha256d (fullHeader headerInput d)) clock.instant <;> rfl

/-- A share that can be stored goes on to the block path. -/
theorem creditShare_stored (prims : Primitives) (clock : Clock) {answers : Answers}
    {v : ShareValidator} {sub : Submission} (hcache : WorkersKnown v)
    (hs : StoresShare answers v sub) (job : MiningJob) (s : VerifiedShare) :
    ∃ v₁ w, creditShare prims clock answers v job sub s = finishShare answers v₁ job s w := by
  obtain ⟨w, hw⟩ := (resolveWorker_ok_iff clock answers v sub.sessionId sub.workerName).2 hs.1
  rcases hx : v.resolveWorker clock answers sub.sessionId sub.workerName with ⟨out, v₁⟩
  rw [hx] at hw
  simp only at hw
  subst hw
  have hknown := (resolveWorker_known hcache hx).2 w rfl
  have hrec : ∃ n db, v₁.db.recordShare w sub.jobId s.difficulty s.isBlock sub.sessionId
      = .ok (n, db) := by
    unfold PoolDb.recordShare
    rw [if_pos hknown]
    exact ⟨_, _, rfl⟩
  obtain ⟨n, db, hrec⟩ := hrec
  refine ⟨{ v₁ with db := db }, w, ?_⟩
  simp only [creditShare, hx, attempt, hs.2, hrec, Bool.false_eq_true, if_false]

/-- A share that cannot be stored ends the call, with the sessions as they were. -/
theorem creditShare_notStored (prims : Primitives) (clock : Clock) {answers : Answers}
    {v : ShareValidator} {sub : Submission} (hs : ¬ StoresShare answers v sub) (job : MiningJob)
    (s : VerifiedShare) :
    ∃ v₁ message, creditShare prims clock answers v job sub s
        = .rejected v₁ (.other message) ∧
      v₁.sessionDifficulty = v.sessionDifficulty ∧ v₁.jobs = v.jobs := by
  obtain ⟨hsession, hjobs⟩ := resolveWorker_frame clock answers v sub.sessionId sub.workerName
  have hok := resolveWorker_ok_iff clock answers v sub.sessionId sub.workerName
  unfold creditShare
  rcases hx : v.resolveWorker clock answers sub.sessionId sub.workerName with ⟨out, v₁⟩
  rw [hx] at hsession hjobs hok
  cases out with
  | error e => exact ⟨v₁, _, rfl, hsession, hjobs⟩
  | ok w =>
    have hfail : answers.fails .recordShare = true := by
      by_contra hf
      exact hs ⟨hok.1 ⟨w, rfl⟩, by simpa using hf⟩
    simp only [attempt, hfail, if_true]
    exact ⟨v₁, _, rfl, hsession, hjobs⟩

/-- The block path submits exactly what can be assembled. -/
theorem finishShare_submits {answers : Answers} {v : ShareValidator} {job : MiningJob}
    {s : VerifiedShare} (hs : s.isBlock = true) (w : WorkerId) :
    (SubmitsAssembled (finishShare answers v job s w) s.header job.template ↔
        Assembles s.header job.template) ∧
      ∃ r, (finishShare answers v job s w).result = .ok r := by
  unfold finishShare SubmitsAssembled Assembles
  rw [if_pos hs]
  cases hb : assembleFullBlock s.header job.template with
  | error e => simp
  | ok block =>
    obtain ⟨hsub, hres⟩ := submitBlock_submitted answers v job s.hash w block
    exact ⟨by simp [hsub], hres⟩

/-- A found block whose share is stored is submitted when it can be assembled. -/
theorem solvedShare_submits (prims : Primitives) (clock : Clock) {answers : Answers}
    {v : ShareValidator} {sub : Submission} (hcache : WorkersKnown v)
    (hs : StoresShare answers v sub) (job : MiningJob) (headerInput : Bytes) (d : DecodedShare)
    (difficulty : ℚ) {out : Outcome} (hout : creditShare prims clock answers v job sub
      (solvedShare prims headerInput d difficulty) = out) :
    (SubmitsAssembled out (fullHeader headerInput d) job.template ↔
        Assembles (fullHeader headerInput d) job.template) ∧ ∃ r, out.result = .ok r := by
  obtain ⟨v₁, w, hfinish⟩ := creditShare_stored prims clock hcache hs job
    (solvedShare prims headerInput d difficulty)
  rw [hfinish] at hout
  subst hout
  exact finishShare_submits (s := solvedShare prims headerInput d difficulty) rfl w

theorem workersKnown_remember {v v₁ : ShareValidator} (h : WorkersKnown v) {sessionId : String}
    {fp : UInt64} (hv₁ : v.rememberShare sessionId fp = some v₁) : WorkersKnown v₁ := by
  obtain ⟨hdb, -, -, hcache, -⟩ := rememberShare_frame hv₁
  intro key c hc
  rw [hdb]
  exact h key c (hcache ▸ hc)

theorem storesShare_remember {answers : Answers} {v v₁ : ShareValidator} {sub : Submission}
    {fp : UInt64} (hv₁ : v.rememberShare sub.sessionId fp = some v₁) :
    StoresShare answers v₁ sub ↔ StoresShare answers v sub := by
  obtain ⟨-, -, -, hcache, -⟩ := rememberShare_frame hv₁
  unfold StoresShare
  rw [hcache]

/-! ## A sample block -/

def sampleTemplate : BlockTemplate where
  version := 4
  previousblockhash := Text.hexEncode (Bytes32.fill 2).bytes
  lightclientroothash := none
  blockcommitmentshash := none
  finalsaplingroothash := none
  defaultroots := none
  transactions := []
  coinbasetxn := some ⟨Text.hexEncode [1], Text.hexEncode (Bytes32.fill 3).bytes, none⟩
  target := Text.hexEncode (Bytes32.fill 255).bytes
  curtime := 0
  bits := Text.hexEncode [5, 5, 5, 5]
  height := 50
  longpollid := none

def sampleJob : MiningJob where
  jobId := "1"
  template := sampleTemplate
  versionHex := Text.hexEncode [4, 0, 0, 0]
  prevHashHex := Text.hexEncode (Bytes32.fill 2).bytes
  merkleRootHex := Text.hexEncode (Bytes32.fill 3).bytes
  reservedHex := Text.hexEncode (Bytes32.fill 4).bytes
  timeHex := Text.hexEncode [0, 0, 0, 0]
  bitsHex := Text.hexEncode [5, 5, 5, 5]

def sampleDecoded : DecodedShare := ⟨[1, 0, 0, 0] ++ List.replicate 28 0, List.replicate 1344 0⟩

def sampleSubmission : Submission where
  sessionId := "s1"
  workerName := "t1miner.rig"
  jobId := "1"
  time := Text.hexEncode [0, 0, 0, 0]
  nonce1 := Text.hexEncode [1, 0, 0, 0]
  nonce2 := Text.hexEncode (List.replicate 28 0)
  equihashSolution := Text.hexEncode sampleDecoded.rawSolution

def sampleHeaderInput : Bytes :=
  [4, 0, 0, 0] ++ ((Bytes32.fill 2).bytes ++ ((Bytes32.fill 3).bytes ++ ((Bytes32.fill 4).bytes ++
    ([0, 0, 0, 0] ++ ([5, 5, 5, 5] ++ [])))))

/-- Every solution is valid, and every header hashes to the same small number. -/
def samplePrims : Primitives where
  sha256d _ := Bytes32.fill 1
  isValidSolution _ _ _ := .ok ()
  shareFp _ _ _ := 7
  dbText _ := "disk I/O error"

def sampleClock : Clock := ⟨1, 60⟩

def sampleConfig : VardiffConfig := ⟨1, 20, 60⟩

/-- A session whose password asked for a difficulty. -/
def sampleSession (difficulty : ℚ) : SessionDifficulty :=
  let (target, tracker) := makeTargetForDifficulty sampleConfig (Bytes32.fill 255) difficulty
    sampleClock.instant
  SessionDifficulty.new target tracker sampleClock.instant

def sampleValidator (difficulty : ℚ) : ShareValidator where
  db := PoolDb.empty
  jobs jobId := if jobId = "1" then some sampleJob else none
  defaultTarget := Bytes32.fill 255
  sessionDifficulty := Function.update (fun _ => none) "s1" (some (sampleSession difficulty))
  workerCache := Keyed.empty
  vardiffConfig := sampleConfig
  portDifficulty _ := none
  sessionWorkerId _ := none
  latestNotify := none

/-- Everything works, except the given database calls. -/
def sampleAnswers (failing : List ShareCall) : Answers where
  fails call := call ∈ failing
  submitOk := true
  inclusion := .verified

theorem sampleSession_target (difficulty : ℚ) (h : 0 < difficulty) :
    (sampleSession difficulty).target.bytes = targetDigits 32 (powLimit / difficulty) := by
  have hread := parseTarget_hexEncode ⟨targetDigits 32 ((powLimit : ℚ) / difficulty),
    length_targetDigits _ _⟩
  simp only at hread
  simp [sampleSession, makeTargetForDifficulty, difficultyToTargetHex, not_le.2 h, hread,
    SessionDifficulty.new, Except.toOption]

theorem sampleValidator_known (difficulty : ℚ) : WorkersKnown (sampleValidator difficulty) := by
  intro key c hc
  cases hc

theorem sampleSubmission_decoded : decodeSubmission sampleSubmission = .ok sampleDecoded :=
  decodeSubmission_hexEncode (Text.hexEncode_append _ _).symm
    (by rw [sampleDecoded, List.length_append, List.length_replicate]; rfl) rfl
    List.length_replicate

theorem sampleSubmission_solves {v : ShareValidator} (hjobs : v.jobs "1" = some sampleJob)
    {sd : SessionDifficulty} (hsd : v.sessionDifficulty "s1" = some sd)
    (hfps : sd.recentShareFps = []) :
    SolvesBlock samplePrims sampleClock v sampleSubmission sampleJob sampleDecoded
      sampleHeaderInput where
  live := hjobs
  decoded := sampleSubmission_decoded
  fresh := by
    intro sd hsd'
    rw [show sampleSubmission.sessionId = "s1" from rfl, hsd] at hsd'
    cases hsd'
    rw [hfps]
    exact List.not_mem_nil
  ntime := by decide
  header := by
    simp [buildHeaderInput, headerFields, concatHex, sampleJob, sampleSubmission,
      sampleHeaderInput, Except.map]
  solution := rfl
  network := ⟨Bytes32.fill 255, parseTarget_hexEncode (Bytes32.fill 255), by decide⟩

theorem sampleTemplate_assembles (header : Bytes) : Assembles header sampleTemplate := by
  simp [Assembles, assembleFullBlock, sampleTemplate, concatHex, Except.map]

/-! ## Which found blocks reach the node -/

/-- The block reaches the node, and the miner is not told that its share is too easy. -/
def ReachesNode (out : Outcome) (header : Bytes) (template : BlockTemplate) : Prop :=
  SubmitsAssembled out header template ∧ out.result ≠ .error StratumError.lowDifficulty

/-- **When a found block is submitted**: with a working database, exactly when its hash meets the
    session target or a fresh grace target, and the template can be assembled. -/
theorem reachesNode_iff_meetsSession {clock : Clock} {answers : Answers} {v : ShareValidator}
    {sub : Submission} {job : MiningJob} {d : DecodedShare} {headerInput : Bytes}
    (hcache : WorkersKnown v) (hdb : ∀ call, answers.fails call = false)
    (h : SolvesBlock prims clock v sub job d headerInput) :
    ReachesNode (validateShare prims clock answers v sub) (fullHeader headerInput d)
        job.template ↔
      MeetsSession v.defaultTarget (v.sessionDifficulty sub.sessionId)
        (prims.sha256d (fullHeader headerInput d)) clock.instant ∧
      Assembles (fullHeader headerInput d) job.template := by
  obtain ⟨v₁, hv₁, hcall⟩ := validateShare_solves h answers
  rw [hcall, ← creditDifficulty_isSome_iff]
  cases hcredit : creditDifficulty v.defaultTarget (v.sessionDifficulty sub.sessionId)
      (prims.sha256d (fullHeader headerInput d)) clock.instant with
  | none =>
    simp only [reduceCtorEq, exists_false, false_and, iff_false]
    intro hreach
    exact hreach.2 rfl
  | some difficulty =>
    obtain ⟨hsubmits, r, hr⟩ := solvedShare_submits prims clock
      (workersKnown_remember hcache hv₁) ⟨.inr ⟨hdb _, hdb _⟩, hdb _⟩ job headerInput d difficulty
      rfl
    simp only [Option.some.injEq, exists_eq', true_and]
    rw [← hsubmits]
    exact ⟨fun hreach => hreach.1, fun hsub => ⟨hsub, by rw [hr]; simp⟩⟩

/-- An easy session: the block reaches the node. -/
theorem reachesNode_iff_meetsSession_easySession :
    ReachesNode (validateShare samplePrims sampleClock (sampleAnswers []) (sampleValidator 1)
        sampleSubmission) (fullHeader sampleHeaderInput sampleDecoded) sampleJob.template :=
  (reachesNode_iff_meetsSession (sampleValidator_known 1) (fun _ => rfl)
    (sampleSubmission_solves rfl rfl rfl)).2
      ⟨.inl (by decide +kernel), sampleTemplate_assembles _⟩

/-- A session whose password asked for difficulty `10^80`: a hash that meets the network target
    is refused as too easy, and the block is not submitted. -/
theorem block_refused_by_hardSession :
    SolvesBlock samplePrims sampleClock (sampleValidator (10 ^ 80)) sampleSubmission sampleJob
        sampleDecoded sampleHeaderInput ∧
      WorkersKnown (sampleValidator (10 ^ 80)) ∧
      (∀ call, (sampleAnswers []).fails call = false) ∧
      (validateShare samplePrims sampleClock (sampleAnswers []) (sampleValidator (10 ^ 80))
        sampleSubmission).result = .error StratumError.lowDifficulty ∧
      (validateShare samplePrims sampleClock (sampleAnswers []) (sampleValidator (10 ^ 80))
        sampleSubmission).submitted = none := by
  have hsolves := sampleSubmission_solves (v := sampleValidator (10 ^ 80)) rfl rfl rfl
  obtain ⟨v₁, -, hcall⟩ := validateShare_solves hsolves (sampleAnswers [])
  have htoo : creditDifficulty (sampleValidator (10 ^ 80)).defaultTarget
      ((sampleValidator (10 ^ 80)).sessionDifficulty sampleSubmission.sessionId)
      (samplePrims.sha256d (fullHeader sampleHeaderInput sampleDecoded)) sampleClock.instant
        = none := by
    have htarget : (sampleSession (10 ^ 80)).target = Bytes32.fill 0 := by
      have hbytes : targetDigits 32 ((powLimit : ℚ) / 10 ^ 80) = (Bytes32.fill 0).bytes := by
        decide +kernel
      have := (sampleSession_target (10 ^ 80) (by positivity)).trans hbytes
      cases hs : (sampleSession (10 ^ 80)).target
      rw [hs] at this
      subst this
      rfl
    have hgrace : (sampleSession (10 ^ 80)).recentTargets = [] := rfl
    have hmiss : meetsTarget (Bytes32.fill 1) (Bytes32.fill 0) = false := by decide
    simp [creditDifficulty, sampleValidator, sampleSubmission, sessionTargets, htarget, hgrace,
      samplePrims, hmiss]
  rw [htoo] at hcall
  exact ⟨hsolves, sampleValidator_known _, fun _ => rfl, by rw [hcall]; rfl, by rw [hcall]; rfl⟩

/-- The block reaches the node; a call that ends with an error before that leaves the share
    unknown to the duplicate check. -/
def SavesBlock (prims : Primitives) (sub : Submission) (out : Outcome) (header : Bytes)
    (template : BlockTemplate) : Prop :=
  SubmitsAssembled out header template ∧
    (out.submitted = none → ∀ e, out.result = .error e → ∀ clock answers,
      (validateShare prims clock answers out.validator sub).result
        ≠ .error StratumError.duplicateShare)

/-- **When bookkeeping failures do not lose a found block**: whatever else fails, exactly when
    the worker is cached or both lookups succeed, `record_share` succeeds, and the template can be
    assembled. -/
theorem savesBlock_iff_storesShare {clock : Clock} {answers : Answers} {v : ShareValidator}
    {sub : Submission} {job : MiningJob} {d : DecodedShare} {headerInput : Bytes}
    (hcache : WorkersKnown v) (h : SolvesBlock prims clock v sub job d headerInput)
    (hmeets : MeetsSession v.defaultTarget (v.sessionDifficulty sub.sessionId)
      (prims.sha256d (fullHeader headerInput d)) clock.instant) :
    SavesBlock prims sub (validateShare prims clock answers v sub) (fullHeader headerInput d)
        job.template ↔
      StoresShare answers v sub ∧ Assembles (fullHeader headerInput d) job.template := by
  obtain ⟨v₁, hv₁, hcall⟩ := validateShare_solves h answers
  obtain ⟨difficulty, hcredit⟩ := creditDifficulty_isSome_iff.2 hmeets
  rw [hcall, hcredit, ← storesShare_remember hv₁]
  by_cases hstores : StoresShare answers v₁ sub
  · obtain ⟨hsubmits, -⟩ := solvedShare_submits prims clock
      (workersKnown_remember hcache hv₁) hstores job headerInput d difficulty rfl
    simp only [hstores, true_and]
    rw [← hsubmits]
    constructor
    · exact fun hsaves => hsaves.1
    · intro hsub
      refine ⟨hsub, fun hnone => ?_⟩
      obtain ⟨block, -, hsome⟩ := hsub
      rw [hnone] at hsome
      cases hsome
  · obtain ⟨v₂, message, hreject, -⟩ := creditShare_notStored prims clock
      hstores job (solvedShare prims headerInput d difficulty)
    simp only [hstores, false_and, iff_false, hreject]
    rintro ⟨⟨block, -, hsome⟩, -⟩
    cases hsome

/-- A block lost to a failed store is refused as a duplicate when it is submitted again. -/
theorem duplicate_after_failed_store {clock : Clock} (answers : Answers) {v : ShareValidator}
    {sub : Submission} {job : MiningJob} {d : DecodedShare} {headerInput : Bytes}
    {sd : SessionDifficulty} (h : SolvesBlock prims clock v sub job d headerInput)
    (hsd : v.sessionDifficulty sub.sessionId = some sd)
    (hmeets : MeetsSession v.defaultTarget (v.sessionDifficulty sub.sessionId)
      (prims.sha256d (fullHeader headerInput d)) clock.instant)
    (hstores : ¬ StoresShare answers v sub) :
    (validateShare prims clock answers v sub).submitted = none ∧
      (∃ e, (validateShare prims clock answers v sub).result = .error e) ∧
      ∀ clock' answers', (validateShare prims clock' answers'
        (validateShare prims clock answers v sub).validator sub).result
          = .error StratumError.duplicateShare := by
  obtain ⟨v₁, hv₁, hcall⟩ := validateShare_solves h answers
  obtain ⟨difficulty, hcredit⟩ := creditDifficulty_isSome_iff.2 hmeets
  rw [← storesShare_remember hv₁] at hstores
  obtain ⟨v₂, message, hreject, hsessions, hjobs⟩ := creditShare_notStored prims clock hstores job
    (solvedShare prims headerInput d difficulty)
  rw [hcall, hcredit]
  simp only [hreject]
  refine ⟨rfl, ⟨_, rfl⟩, fun clock' answers' => ?_⟩
  have hlive : v₂.jobs sub.jobId = some job := by
    rw [hjobs, (rememberShare_frame hv₁).2.1, h.live]
  have hdup : v₂.rememberShare sub.sessionId (fingerprint prims sub d) = none := by
    rcases rememberShare_cases hv₁ with ⟨hnone, -⟩ | ⟨sd', -, -, rfl⟩
    · rw [hnone] at hsd
      cases hsd
    · have hmem := BoundedFifo.mem_push_self (show 0 < shareDedupHistory by decide)
        sd'.recentShareFps (fingerprint prims sub d)
      simp [rememberShare, hsessions, setSession, SessionDifficulty.remember, hmem]
  simp only [Outcome.rejected, validateShare, hlive, h.decoded, hdup]

/-- The breadcrumb fails and the block is recorded late: it still reaches the node. -/
theorem savesBlock_iff_storesShare_noBreadcrumb :
    SavesBlock samplePrims sampleSubmission
      (validateShare samplePrims sampleClock (sampleAnswers [.recordBlockSubmission, .recordBlock])
        (sampleValidator 1) sampleSubmission)
      (fullHeader sampleHeaderInput sampleDecoded) sampleJob.template :=
  (savesBlock_iff_storesShare (sampleValidator_known 1)
    (sampleSubmission_solves rfl rfl rfl) (.inl (by decide +kernel))).2
      ⟨⟨.inr ⟨rfl, rfl⟩, rfl⟩, sampleTemplate_assembles _⟩

/-- `record_share` fails once: the block is not submitted, and when the miner sends it again, with
    everything working, it is refused as a duplicate. -/
theorem block_lost_by_failed_recordShare :
    SolvesBlock samplePrims sampleClock (sampleValidator 1) sampleSubmission sampleJob
        sampleDecoded sampleHeaderInput ∧
      MeetsSession (sampleValidator 1).defaultTarget
        ((sampleValidator 1).sessionDifficulty sampleSubmission.sessionId)
        (samplePrims.sha256d (fullHeader sampleHeaderInput sampleDecoded)) sampleClock.instant ∧
      (validateShare samplePrims sampleClock (sampleAnswers [.recordShare]) (sampleValidator 1)
        sampleSubmission).submitted = none ∧
      (validateShare samplePrims sampleClock (sampleAnswers []) (validateShare samplePrims
        sampleClock (sampleAnswers [.recordShare]) (sampleValidator 1) sampleSubmission).validator
        sampleSubmission).result = .error StratumError.duplicateShare := by
  have hsolves := sampleSubmission_solves (v := sampleValidator 1) rfl rfl rfl
  have hmeets : MeetsSession (sampleValidator 1).defaultTarget
      ((sampleValidator 1).sessionDifficulty sampleSubmission.sessionId)
      (samplePrims.sha256d (fullHeader sampleHeaderInput sampleDecoded)) sampleClock.instant :=
    .inl (by decide +kernel)
  obtain ⟨hnone, -, hdup⟩ := duplicate_after_failed_store
    (sampleAnswers [.recordShare]) hsolves rfl hmeets (fun hstores => by cases hstores.2)
  exact ⟨hsolves, hmeets, hnone, hdup _ _⟩

end FoundBlocks

end ZcashMiningPool
