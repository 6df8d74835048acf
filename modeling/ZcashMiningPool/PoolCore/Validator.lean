import ZcashMiningPool.Library.Run
import ZcashMiningPool.PoolCore.Share
import ZcashMiningPool.Stratum.Server

/-!
# The validator's event loop

`ShareValidator::run` of `pool-core/src/share.rs`: one event after the other, in the order of the
channel.  One reading of the clock serves a whole event, and counters and logs that nothing reads
back are left out.

* `parseDifficultyFromPassword` — the difficulty a miner asks for.
* `checkRate`, `maybeRetarget`, `forceRetargetSession` — rate limit and variable difficulty.
* `handleShare`, `handleWorkerConnected`, `handleEvent` — the events.
* `handleShare_spec` — what a share does to the history of its session.
* `workersKnown_run` — the worker cache only ever names recorded workers.
-/

set_option autoImplicit false

namespace ZcashMiningPool

open Table Machine

/-- Formats: "d=128", "sd=128", "d=128,other_option". -/
def parseDifficultyFromPassword (password : String) : Option ℚ :=
  (Text.splitAt ',' password.toList).findSome? (fun part =>
    let part := Text.trim part
    ((Text.stripPrefix ['d', '='] part).or (Text.stripPrefix ['s', 'd', '='] part)).bind
      (fun val => (Text.parseDecimal val).filter (fun d => decide (0 < d))))

/-- What the loop does with one event: the messages go to the event's session. -/
structure EventOutcome where
  validator : ShareValidator
  sent : List ServerMessage
  /-- The session is disconnected as a bad-share flooder. -/
  disconnected : Bool
  /-- `record_share` committed. -/
  recorded : Bool
  task : Option FoundBlock

namespace ShareValidator

variable (prims : Primitives)

/-! ## Sessions -/

/-- `if let Some(sd) = sessions.get_mut(session_id)`. -/
def modifySession (v : ShareValidator) (sessionId : String)
    (f : SessionDifficulty → SessionDifficulty) : ShareValidator :=
  match v.sessionDifficulty sessionId with
  | none => v
  | some sd => v.setSession sessionId (some (f sd))

/-- Check the session's share submission rate. -/
def checkRate (v : ShareValidator) (sessionId : String) (now : ℚ) : RateStatus × ShareValidator :=
  match v.sessionDifficulty sessionId with
  | none => (.ok, v)
  | some sd => ((sd.checkRate now).1, v.setSession sessionId (some (sd.checkRate now).2))

/-- Apply a retarget; the new difficulty is stored for the session's worker. -/
def applyRetarget (clock : Clock) (answers : Answers) (v : ShareValidator) (sessionId : String)
    (difficulty : ℚ) : List ServerMessage × ShareValidator :=
  let targetHex := difficultyToTargetHex difficulty
  let target := (parseTarget targetHex).toOption.getD v.defaultTarget
  let v := v.modifySession sessionId (fun sd => sd.retarget target clock.instant)
  let db := match v.sessionWorkerId sessionId with
    | none => v.db
    | some workerId =>
      if answers.fails .updateWorkerDifficulty then v.db
      else v.db.updateWorkerDifficulty workerId difficulty
  ([.setDifficulty difficulty, .setTarget targetHex], { v with db := db })

/-- Feed one share to the session's tracker, and apply the retarget it asks for. -/
def retargetWith (record : VardiffTracker → ℚ → Option ℚ × VardiffTracker) (clock : Clock)
    (answers : Answers) (v : ShareValidator) (sessionId : String) :
    List ServerMessage × ShareValidator :=
  match v.sessionDifficulty sessionId with
  | none => ([], v)
  | some sd =>
    let v := v.setSession sessionId
      (some { sd with vardiff := (record sd.vardiff clock.instant).2 })
    match (record sd.vardiff clock.instant).1 with
    | none => ([], v)
    | some difficulty => v.applyRetarget clock answers sessionId difficulty

/-- Check if a session needs retargeting after an accepted share. -/
def maybeRetarget := retargetWith VardiffTracker.recordShare

/-- Force an immediate retarget, bypassing the vardiff interval gate. -/
def forceRetargetSession := retargetWith VardiffTracker.forceRetarget

/-! ## A share -/

def countReject (e : StratumError) (sd : SessionDifficulty) : SessionDifficulty :=
  if e.code = 21 then { sd with sharesRejectedJobNotFound := sd.sharesRejectedJobNotFound + 1 }
  else if e.code = 23 then { sd with sharesRejectedLowDiff := sd.sharesRejectedLowDiff + 1 }
  else { sd with sharesRejectedOther := sd.sharesRejectedOther + 1 }

/-- Zero accepts and 50 rejects, 5 seconds after connecting. -/
def isFlooder (sd : SessionDifficulty) (now : ℚ) : Bool :=
  sd.sharesAccepted == 0 &&
    decide (50 ≤ sd.sharesRejectedLowDiff + sd.sharesRejectedJobNotFound + sd.sharesRejectedOther) &&
    decide (5 ≤ now - sd.connectedAt)

def makeTarget (clock : Clock) (v : ShareValidator) (difficulty : ℚ) : Bytes32 × VardiffTracker :=
  makeTargetForDifficulty v.vardiffConfig v.defaultTarget difficulty clock.instant

/-- A session that has only ever sent low-difficulty shares, ten in a row, starts over. -/
def countLowDiff (clock : Clock) (v : ShareValidator) (sessionId : String) :
    List ServerMessage × ShareValidator :=
  match v.sessionDifficulty sessionId with
  | none => ([], v)
  | some sd =>
    let sd := { sd with lowDiffStreak := sd.lowDiffStreak + 1 }
    if 10 ≤ sd.lowDiffStreak ∧ sd.sharesAccepted = 0 then
      let difficulty := v.vardiffConfig.initialDifficulty
      let (target, tracker) := v.makeTarget clock difficulty
      ([.setDifficulty difficulty, .setTarget (Text.hexEncode target.bytes)],
        v.setSession sessionId
          (some ({ sd with lowDiffStreak := 0 }.resetDifficulty target tracker clock.instant)))
    else ([], v.setSession sessionId (some sd))

/-- After an accepted share; `force` when the rate check warned. -/
def acceptShare (clock : Clock) (answers : Answers) (v : ShareValidator) (sessionId : String)
    (requestId : RequestId) (force : Bool) : List ServerMessage × ShareValidator :=
  let v := v.modifySession sessionId (fun sd =>
    { sd with lowDiffStreak := 0, sharesAccepted := sd.sharesAccepted + 1 })
  let (sent, v) := if force then v.forceRetargetSession clock answers sessionId
    else v.maybeRetarget clock answers sessionId
  (.submitResult requestId true none :: sent, v)

/-- After a refused share; a flooder is disconnected without an answer. -/
def rejectShare (clock : Clock) (v : ShareValidator) (sessionId : String) (requestId : RequestId)
    (e : StratumError) : List ServerMessage × ShareValidator × Bool :=
  let v := v.modifySession sessionId (countReject e)
  if ((v.sessionDifficulty sessionId).map (isFlooder · clock.instant)).getD false then
    ([], v, true)
  else
    let (sent, v) := if e.isLowDifficulty then v.countLowDiff clock sessionId else ([], v)
    (.submitResult requestId false (some e) :: sent, v, false)

/-- The rate is checked before the share. -/
def handleShare (clock : Clock) (answers : Answers) (v : ShareValidator) (requestId : RequestId)
    (sub : Submission) : EventOutcome :=
  let (status, v) := v.checkRate sub.sessionId clock.instant
  if status = .reject then
    let v := v.modifySession sub.sessionId (fun sd =>
      { sd with sharesRejectedOther := sd.sharesRejectedOther + 1 })
    let (sent, v) := v.forceRetargetSession clock answers sub.sessionId
    ⟨v, .submitResult requestId false (some (.other "Share rate limit exceeded")) :: sent, false,
      false, none⟩
  else
    let out := validateShare prims clock answers v sub
    match out.result with
    | .ok _ =>
      let (sent, v) := out.validator.acceptShare clock answers sub.sessionId requestId
        (status = .warn)
      ⟨v, sent, false, out.recorded, out.task⟩
    | .error e =>
      let (sent, v, disconnected) := out.validator.rejectShare clock sub.sessionId requestId e
      ⟨v, sent, disconnected, out.recorded, out.task⟩

/-! ## The other events -/

/-- Register worker in DB; what was stored before a failure stays. -/
def registerWorker (answers : Answers) (db : PoolDb) (workerName : String) :
    Option WorkerId × PoolDb :=
  if answers.fails .getOrCreateMiner then (none, db)
  else
    let (minerId, db₁) := db.getOrCreateMiner (minerAddress workerName)
    match attempt (answers.fails .getOrCreateWorker)
        (db₁.getOrCreateWorker minerId (workerLabel workerName)) with
    | .error _ => (none, db₁)
    | .ok ((workerId, _), db₂) => (some workerId, db₂)

/-- Priority: password-requested > per-port > default. -/
def initialDifficulty (v : ShareValidator) (password : String) (localPort : ℕ) : ℚ :=
  (parseDifficultyFromPassword password).getD
    ((v.portDifficulty localPort).getD v.vardiffConfig.initialDifficulty)

/-- A new record for the session, whatever it had before. -/
def handleWorkerConnected (clock : Clock) (answers : Answers) (v : ShareValidator)
    (sessionId workerName password : String) (localPort : ℕ) : EventOutcome :=
  let (registered, db) := registerWorker answers v.db workerName
  let workerIds := match registered with
    | none => v.sessionWorkerId
    | some workerId => Function.update v.sessionWorkerId sessionId (some workerId)
  let difficulty := v.initialDifficulty password localPort
  let (target, tracker) := v.makeTarget clock difficulty
  let v := { v with db := db, sessionWorkerId := workerIds }.setSession sessionId
    (some (SessionDifficulty.new target tracker clock.instant))
  ⟨v, [.setDifficulty difficulty, .setTarget (Text.hexEncode target.bytes)] ++
    (v.latestNotify.map ServerMessage.notify).toList, false, false, none⟩

def handleEvent (clock : Clock) (answers : Answers) (v : ShareValidator) :
    StratumEvent → EventOutcome
  | .shareSubmitted requestId sub => handleShare prims clock answers v requestId sub
  | .workerConnected sessionId workerName password localPort =>
    v.handleWorkerConnected clock answers sessionId workerName password localPort
  | .sessionDisconnected sessionId =>
    ⟨{ v.setSession sessionId none with
        sessionWorkerId := Function.update v.sessionWorkerId sessionId none }, [], false, false, none⟩
  | .targetSuggested _ _ => ⟨v, [], false, false, none⟩

example : parseDifficultyFromPassword "x, sd=12.5" = some (25 / 2) := by decide +kernel

/-! ## What the loop keeps -/

/-- The duplicate history of a session. -/
def history (v : ShareValidator) (sessionId : String) : Option (List UInt64) :=
  (v.sessionDifficulty sessionId).map (·.recentShareFps)

theorem history_setSession (v : ShareValidator) (sessionId : String) (sd : SessionDifficulty)
    (id : String) : (v.setSession sessionId (some sd)).history id
      = if id = sessionId then some sd.recentShareFps else v.history id := by
  unfold history setSession
  by_cases hid : id = sessionId
  · subst hid
    simp
  · simp [hid]

theorem history_congr {v v' : ShareValidator} (h : v'.sessionDifficulty = v.sessionDifficulty) :
    v'.history = v.history := by
  funext id
  simp only [history, h]

/-- A fingerprint that was not in the history enters it; a session without a record has none. -/
def Remembers (before after : Option (List UInt64)) (fp : UInt64) : Prop :=
  (before = none ∧ after = none) ∨ ∃ fps, before = some fps ∧ fp ∉ fps ∧
    after = some (BoundedFifo.push shareDedupHistory fps fp)

theorem remembers_rememberShare {v v₁ : ShareValidator} {sessionId : String} {fp : UInt64}
    (h : v.rememberShare sessionId fp = some v₁) :
    Remembers (v.history sessionId) (v₁.history sessionId) fp := by
  rcases rememberShare_cases h with ⟨hnone, rfl⟩ | ⟨sd, hsd, hfresh, rfl⟩
  · exact .inl ⟨by simp [history, hnone], by simp [history, hnone]⟩
  · refine .inr ⟨sd.recentShareFps, by simp [history, hsd], hfresh, ?_⟩
    rw [history_setSession, if_pos rfl]

/-- Bookkeeping: rates, counters and difficulties may change, but no history, no share row and no
    cached worker does. -/
structure Kept (v v' : ShareValidator) : Prop where
  history : v'.history = v.history
  shares : v'.db.shares = v.db.shares
  workers : ∀ i, v.db.workers.has i = true → v'.db.workers.has i = true
  cache : v'.workerCache = v.workerCache

theorem Kept.refl (v : ShareValidator) : Kept v v := ⟨rfl, rfl, fun _ h => h, rfl⟩

theorem Kept.trans {v v' v'' : ShareValidator} (h : Kept v v') (h' : Kept v' v'') : Kept v v'' :=
  ⟨h'.history.trans h.history, h'.shares.trans h.shares, fun i hi => h'.workers i (h.workers i hi),
    h'.cache.trans h.cache⟩

theorem Kept.workersKnown {v v' : ShareValidator} (h : Kept v v') (hv : WorkersKnown v) :
    WorkersKnown v' := by
  intro key c hc
  rw [h.cache] at hc
  exact h.workers _ (hv key c hc)

theorem kept_setSession {v : ShareValidator} {sessionId : String} {sd : SessionDifficulty}
    (hsd : v.sessionDifficulty sessionId = some sd) (sd' : SessionDifficulty)
    (hfps : sd'.recentShareFps = sd.recentShareFps) :
    Kept v (v.setSession sessionId (some sd')) := by
  refine ⟨funext fun id => ?_, rfl, fun _ h => h, rfl⟩
  rw [history_setSession]
  split
  · rename_i hid
    subst hid
    rw [history, hsd, Option.map_some, hfps]
  · rfl

theorem kept_modifySession (v : ShareValidator) (sessionId : String)
    {f : SessionDifficulty → SessionDifficulty}
    (hf : ∀ sd, (f sd).recentShareFps = sd.recentShareFps) :
    Kept v (v.modifySession sessionId f) := by
  unfold modifySession
  split
  · exact Kept.refl v
  · rename_i sd hsd
    exact kept_setSession hsd _ (hf sd)

theorem kept_checkRate (v : ShareValidator) (sessionId : String) (now : ℚ) :
    Kept v (v.checkRate sessionId now).2 := by
  unfold checkRate
  split
  · exact Kept.refl v
  · rename_i sd hsd
    exact kept_setSession hsd _ (sd.checkRate_frame now).2

theorem kept_database {v : ShareValidator} {db : PoolDb} (hshares : db.shares = v.db.shares)
    (hworkers : ∀ i, v.db.workers.has i = true → db.workers.has i = true) :
    Kept v { v with db := db } := ⟨rfl, hshares, hworkers, rfl⟩

theorem kept_applyRetarget (clock : Clock) (answers : Answers) (v : ShareValidator)
    (sessionId : String) (difficulty : ℚ) :
    Kept v (v.applyRetarget clock answers sessionId difficulty).2 := by
  unfold applyRetarget
  simp only
  refine (kept_modifySession v sessionId fun sd => ?_).trans (kept_database ?_ ?_)
  · rfl
  · split
    · rfl
    · split <;> rfl
  · intro i hi
    split
    · exact hi
    · split
      · exact hi
      · simpa [PoolDb.updateWorkerDifficulty] using hi

theorem kept_retargetWith (record : VardiffTracker → ℚ → Option ℚ × VardiffTracker) (clock : Clock)
    (answers : Answers) (v : ShareValidator) (sessionId : String) :
    Kept v (v.retargetWith record clock answers sessionId).2 := by
  unfold retargetWith
  split
  · exact Kept.refl v
  · rename_i sd hsd
    have hset := kept_setSession hsd
      { sd with vardiff := (record sd.vardiff clock.instant).2 } rfl
    simp only
    split
    · exact hset
    · exact hset.trans (kept_applyRetarget clock answers _ sessionId _)

theorem kept_countLowDiff (clock : Clock) (v : ShareValidator) (sessionId : String) :
    Kept v (v.countLowDiff clock sessionId).2 := by
  unfold countLowDiff
  split
  · exact Kept.refl v
  · rename_i sd hsd
    simp only
    split
    · exact kept_setSession hsd _ rfl
    · exact kept_setSession hsd _ rfl

theorem kept_acceptShare (clock : Clock) (answers : Answers) (v : ShareValidator)
    (sessionId : String) (requestId : RequestId) (force : Bool) :
    Kept v (v.acceptShare clock answers sessionId requestId force).2 := by
  unfold acceptShare
  simp only
  refine (kept_modifySession v sessionId (f := fun sd =>
    { sd with lowDiffStreak := 0, sharesAccepted := sd.sharesAccepted + 1 }) fun sd => rfl).trans ?_
  split
  · exact kept_retargetWith _ clock answers _ sessionId
  · exact kept_retargetWith _ clock answers _ sessionId

theorem kept_rejectShare (clock : Clock) (v : ShareValidator) (sessionId : String)
    (requestId : RequestId) (e : StratumError) :
    Kept v (v.rejectShare clock sessionId requestId e).2.1 := by
  have hcount : Kept v (v.modifySession sessionId (countReject e)) := by
    refine kept_modifySession v sessionId fun sd => ?_
    unfold countReject
    split
    · rfl
    · split <;> rfl
  unfold rejectShare
  simp only
  split
  · exact hcount
  · split
    · exact hcount.trans (kept_countLowDiff clock _ sessionId)
    · exact hcount

/-! ## What a share leaves behind -/

/-- The ways a call ends: refused before or after its fingerprint entered the history, or on the
    way to credit. -/
theorem validateShare_cases (clock : Clock) (answers : Answers) (v : ShareValidator)
    (sub : Submission) :
    (∃ e, validateShare prims clock answers v sub = .rejected v e) ∨
      ∃ job d v₁, v.jobs sub.jobId = some job ∧ decodeSubmission sub = .ok d ∧
        v.rememberShare sub.sessionId (fingerprint prims sub d) = some v₁ ∧
        ((∃ e, validateShare prims clock answers v sub = .rejected v₁ e) ∨
          ∃ s, validateShare prims clock answers v sub
            = creditShare prims clock answers v₁ job sub s) := by
  cases hjob : v.jobs sub.jobId with
  | none => exact .inl ⟨StratumError.jobNotFound, by simp only [validateShare, hjob]⟩
  | some job =>
    cases hd : decodeSubmission sub with
    | error e => exact .inl ⟨e, by simp only [validateShare, hjob, hd]⟩
    | ok d =>
      cases hv₁ : v.rememberShare sub.sessionId (fingerprint prims sub d) with
      | none =>
        exact .inl ⟨StratumError.duplicateShare, by simp only [validateShare, hjob, hd, hv₁]⟩
      | some v₁ =>
        refine .inr ⟨job, d, v₁, rfl, rfl, hv₁, ?_⟩
        cases hs : verifyShare prims clock v₁ job sub d with
        | error e => exact .inl ⟨e, by simp only [validateShare, hjob, hd, hv₁, hs]⟩
        | ok s => exact .inr ⟨s, by simp only [validateShare, hjob, hd, hv₁, hs]⟩

/-- Shares and workers are as they were. -/
def SameShares (db db' : PoolDb) : Prop := db'.shares = db.shares ∧ db'.workers = db.workers

theorem sameShares_leaveCrumb (answers : Answers) (db : PoolDb) (height : ℤ) (hash : String)
    (workerId : WorkerId) (reward : ℤ) (actualReward : Option ℤ) : SameShares db
      (leaveCrumb answers db height hash workerId reward actualReward).2 := by
  unfold leaveCrumb
  split <;> exact ⟨rfl, rfl⟩

theorem sameShares_resolveCrumb (answers : Answers) (db : PoolDb) (crumb : Option ℕ)
    (outcome : String) : SameShares db (resolveCrumb answers db crumb outcome) := by
  unfold resolveCrumb
  split
  · exact ⟨rfl, rfl⟩
  · split <;> exact ⟨rfl, rfl⟩

theorem sameShares_recordBlock {db db' : PoolDb} {height : ℤ} {hash : String} {reward : ℤ}
    {actualReward : Option ℤ} {foundBy : WorkerId} {luck : Option ℚ} {blockId : BlockId}
    (h : db.recordBlock height hash reward actualReward foundBy luck = .ok (blockId, db')) :
    SameShares db db' := by
  unfold PoolDb.recordBlock at h
  split at h
  · cases h
  · split at h
    · cases h
      exact ⟨rfl, rfl⟩
    · cases h

theorem SameShares.trans {db db' db'' : PoolDb} (h : SameShares db db') (h' : SameShares db' db'') :
    SameShares db db'' := ⟨h'.1.trans h.1, h'.2.trans h.2⟩

/-- The block path only writes blocks and breadcrumbs. -/
theorem submitBlock_frame (answers : Answers) (v : ShareValidator) (job : MiningJob)
    (hash : Bytes32) (workerId : WorkerId) (block : Bytes) :
    (∃ db, (submitBlock answers v job hash workerId block).validator = { v with db := db } ∧
        SameShares v.db db) ∧
      (submitBlock answers v job hash workerId block).recorded = true := by
  have hcrumb := sameShares_leaveCrumb answers v.db job.template.height
    (Text.hexEncode hash.bytes) workerId (computeBlockReward job.template.height)
    (some (computeBlockReward job.template.height + collectedFees job.template))
  unfold submitBlock
  simp only
  split
  · exact ⟨⟨_, rfl, hcrumb.trans (sameShares_resolveCrumb _ _ _ _)⟩, rfl⟩
  · exact ⟨⟨_, rfl, hcrumb⟩, rfl⟩
  · split
    · exact ⟨⟨_, rfl, hcrumb⟩, rfl⟩
    · rename_i blockId db₂ hdb₂
      have hblock := sameShares_recordBlock (attempt_ok hdb₂).2
      exact ⟨⟨_, rfl, (hcrumb.trans hblock).trans (sameShares_resolveCrumb _ _ _ _)⟩, rfl⟩

theorem finishShare_frame (answers : Answers) (v : ShareValidator) (job : MiningJob)
    (s : VerifiedShare) (workerId : WorkerId) :
    (∃ db, (finishShare answers v job s workerId).validator = { v with db := db } ∧
        SameShares v.db db) ∧ (finishShare answers v job s workerId).recorded = true := by
  unfold finishShare
  split
  · split
    · exact ⟨⟨_, rfl, rfl, rfl⟩, rfl⟩
    · exact submitBlock_frame answers v job s.hash workerId _
  · exact ⟨⟨_, rfl, rfl, rfl⟩, rfl⟩

/-- One share row of the submission's session was written, or none. -/
def WritesShare (sub : Submission) (db : PoolDb) (recorded : Bool) (db' : PoolDb) : Prop :=
  if recorded then
    ∃ row : Share, row.jobId = sub.jobId ∧ row.sessionId = sub.sessionId ∧
      db'.shares = db.shares.insert row
  else db'.shares = db.shares

theorem WritesShare.congr {sub : Submission} {db₁ db₂ db₁' db₂' : PoolDb} {recorded : Bool}
    (h : WritesShare sub db₁ recorded db₁') (h₁ : db₂.shares = db₁.shares)
    (h₂ : db₂'.shares = db₁'.shares) : WritesShare sub db₂ recorded db₂' := by
  unfold WritesShare at *
  rw [h₁, h₂]
  exact h

theorem resolveWorker_shares {clock : Clock} {answers : Answers} {v v₁ : ShareValidator}
    {sessionId workerName : String} {out : Except DbError WorkerId}
    (hx : v.resolveWorker clock answers sessionId workerName = (out, v₁)) :
    v₁.db.shares = v.db.shares := by
  unfold resolveWorker at hx
  split at hx
  · split at hx
    · cases hx
      rfl
    · cases hx
      simp only
      split <;> rfl
  · split at hx
    · cases hx
      rfl
    · have hminer : (v.db.getOrCreateMiner (minerAddress workerName)).2.shares = v.db.shares := by
        unfold PoolDb.getOrCreateMiner
        split <;> rfl
      simp only at hx
      split at hx
      · cases hx
        exact hminer
      · rename_i workerId w db₂ hdb₂
        cases hx
        have hworker := (attempt_ok hdb₂).2
        unfold PoolDb.getOrCreateWorker at hworker
        split at hworker
        · cases hworker
          exact hminer
        · split at hworker
          · cases hworker
            exact hminer
          · cases hworker

/-- Crediting writes one row or none, keeps the sessions and the worker cache in order. -/
theorem creditShare_spec (clock : Clock) (answers : Answers) (v : ShareValidator) (job : MiningJob)
    (sub : Submission) (s : VerifiedShare) {out : Outcome}
    (hout : creditShare prims clock answers v job sub s = out) :
    out.validator.sessionDifficulty = v.sessionDifficulty ∧
      WritesShare sub v.db out.recorded out.validator.db ∧
      (WorkersKnown v → WorkersKnown out.validator) := by
  obtain ⟨hsession, -⟩ := resolveWorker_frame clock answers v sub.sessionId sub.workerName
  unfold creditShare at hout
  rcases hx : v.resolveWorker clock answers sub.sessionId sub.workerName with ⟨found, v₁⟩
  rw [hx] at hout hsession
  have hshares := resolveWorker_shares hx
  cases found with
  | error e =>
    simp only at hout
    subst hout
    exact ⟨hsession, hshares, fun hv => (resolveWorker_known hv hx).1⟩
  | ok workerId =>
    simp only at hout
    split at hout
    · subst hout
      exact ⟨hsession, hshares, fun hv => (resolveWorker_known hv hx).1⟩
    · rename_i n db hdb
      have hrow := PoolDb.recordShare_ok (attempt_ok hdb).2
      obtain ⟨⟨db', hv', hsame⟩, hrec⟩ := finishShare_frame answers { v₁ with db := db } job s workerId
      rw [hout] at hv' hrec
      refine ⟨by rw [hv']; exact hsession, ?_, fun hv key c hc => ?_⟩
      · unfold WritesShare
        rw [if_pos hrec, hv', ← hshares]
        refine ⟨⟨workerId, sub.jobId, s.difficulty, s.isBlock, sub.sessionId, v₁.db.now⟩, rfl, rfl, ?_⟩
        rw [show ({ v₁ with db := db' } : ShareValidator).db.shares = db'.shares from rfl, hsame.1,
          hrow]
      · rw [hv'] at hc ⊢
        have hknown := (resolveWorker_known hv hx).1 key c hc
        show db'.workers.has c.workerId = true
        rw [hsame.2, hrow]
        exact hknown

/-- **What one call does to its session**: its history is left alone and nothing is credited, or
    the fingerprint was new to it and entered it. -/
theorem validateShare_spec (clock : Clock) (answers : Answers) (v : ShareValidator)
    (sub : Submission) {out : Outcome} (hout : validateShare prims clock answers v sub = out) :
    WritesShare sub v.db out.recorded out.validator.db ∧
      (WorkersKnown v → WorkersKnown out.validator) ∧
      ((out.recorded = false ∧ out.validator.history = v.history) ∨
        ∃ d, decodeSubmission sub = .ok d ∧ Remembers (v.history sub.sessionId)
          (out.validator.history sub.sessionId) (fingerprint prims sub d)) := by
  rcases validateShare_cases prims clock answers v sub with
    ⟨e, he⟩ | ⟨job, d, v₁, -, hd, hv₁, hend⟩
  · rw [he] at hout
    subst hout
    exact ⟨rfl, id, .inl ⟨rfl, rfl⟩⟩
  · have hdb := (rememberShare_frame hv₁).1
    have hfp := remembers_rememberShare hv₁
    rcases hend with ⟨e, he⟩ | ⟨s, hs⟩
    · rw [he] at hout
      subst hout
      exact ⟨congrArg PoolDb.shares hdb, fun hv => workersKnown_remember hv hv₁, .inr ⟨d, hd, hfp⟩⟩
    · rw [hs] at hout
      obtain ⟨hsession, hwrites, hknown⟩ := creditShare_spec prims clock answers v₁ job sub s hout
      refine ⟨hwrites.congr (congrArg PoolDb.shares hdb.symm) rfl,
        fun hv => hknown (workersKnown_remember hv hv₁), .inr ⟨d, hd, ?_⟩⟩
      rw [history_congr hsession]
      exact hfp

/-- A found block that can be stored is credited as a share, whatever becomes of the block. -/
theorem validateShare_recorded {prims : Primitives} {clock : Clock} {answers : Answers}
    {v : ShareValidator} {sub : Submission} {job : MiningJob} {d : DecodedShare}
    {headerInput : Bytes} (hcache : WorkersKnown v) (hs : StoresShare answers v sub)
    (h : SolvesBlock prims clock v sub job d headerInput)
    (hmeets : MeetsSession v.defaultTarget (v.sessionDifficulty sub.sessionId)
      (prims.sha256d (fullHeader headerInput d)) clock.instant) :
    (validateShare prims clock answers v sub).recorded = true := by
  obtain ⟨v₁, hv₁, hcall⟩ := validateShare_solves h answers
  obtain ⟨difficulty, hcredit⟩ := creditDifficulty_isSome_iff.2 hmeets
  obtain ⟨v₂, w, hfinish⟩ := creditShare_stored prims clock (workersKnown_remember hcache hv₁)
    ((storesShare_remember hv₁).2 hs) job (solvedShare prims headerInput d difficulty)
  rw [hcall, hcredit]
  simp only [hfinish]
  exact (finishShare_frame answers v₂ job _ w).2

/-! ## One event -/

/-- A share over the rate limit is not validated; around a validated one there is only
    bookkeeping. -/
theorem handleShare_cases (clock : Clock) (answers : Answers) (v : ShareValidator)
    (requestId : RequestId) (sub : Submission) {out : EventOutcome}
    (hout : handleShare prims clock answers v requestId sub = out) :
    ((v.checkRate sub.sessionId clock.instant).1 = .reject ∧ Kept v out.validator ∧
        out.recorded = false) ∨
      ∃ v₁, v.checkRate sub.sessionId clock.instant
          = ((v.checkRate sub.sessionId clock.instant).1, v₁) ∧
        Kept (validateShare prims clock answers v₁ sub).validator out.validator ∧
        out.recorded = (validateShare prims clock answers v₁ sub).recorded := by
  have hrate := kept_checkRate v sub.sessionId clock.instant
  unfold handleShare at hout
  rcases hx : v.checkRate sub.sessionId clock.instant with ⟨status, v₁⟩
  rw [hx] at hout hrate
  simp only at hout hrate
  split at hout
  · rename_i hreject
    have hkept := (hrate.trans (kept_modifySession v₁ sub.sessionId (f := fun sd =>
      { sd with sharesRejectedOther := sd.sharesRejectedOther + 1 }) fun sd => rfl)).trans
        (kept_retargetWith VardiffTracker.forceRetarget clock answers _ sub.sessionId)
    subst hout
    exact .inl ⟨hreject, hkept, rfl⟩
  · refine .inr ⟨v₁, rfl, ?_⟩
    rcases hcall : validateShare prims clock answers v₁ sub with ⟨v₂, result, recorded, submitted, task⟩
    rw [hcall] at hout
    cases result with
    | ok r =>
      subst hout
      exact ⟨kept_acceptShare clock answers v₂ sub.sessionId requestId _, rfl⟩
    | error e =>
      subst hout
      exact ⟨kept_rejectShare clock v₂ sub.sessionId requestId e, rfl⟩

/-- **What a share does to its session**: nothing to the history, and nothing is credited; or its
    fingerprint was new to the history and entered it. -/
theorem handleShare_spec (clock : Clock) (answers : Answers) (v : ShareValidator)
    (requestId : RequestId) (sub : Submission) {out : EventOutcome}
    (hout : handleShare prims clock answers v requestId sub = out) :
    WritesShare sub v.db out.recorded out.validator.db ∧
      (WorkersKnown v → WorkersKnown out.validator) ∧
      ((out.recorded = false ∧ out.validator.history = v.history) ∨
        ∃ d, decodeSubmission sub = .ok d ∧ Remembers (v.history sub.sessionId)
          (out.validator.history sub.sessionId) (fingerprint prims sub d)) := by
  rcases handleShare_cases prims clock answers v requestId sub hout with
    ⟨-, hkept, hrec⟩ | ⟨v₁, hx, hkept, hrec⟩
  · rw [hrec]
    exact ⟨hkept.shares, hkept.workersKnown, .inl ⟨rfl, hkept.history⟩⟩
  · have hrate : Kept v v₁ := by
      have hkeep := kept_checkRate v sub.sessionId clock.instant
      rw [hx] at hkeep
      exact hkeep
    obtain ⟨hwrites, hknown, hhist⟩ := validateShare_spec prims clock answers v₁ sub rfl
    rw [hrec, hkept.history, ← hrate.history]
    exact ⟨hwrites.congr hrate.shares.symm hkept.shares,
      fun hv => hkept.workersKnown (hknown (hrate.workersKnown hv)), hhist⟩

theorem registerWorker_frame (answers : Answers) (db : PoolDb) (workerName : String) :
    (registerWorker answers db workerName).2.shares = db.shares ∧
      ∀ i, db.workers.has i = true → (registerWorker answers db workerName).2.workers.has i = true := by
  unfold registerWorker
  split
  · exact ⟨rfl, fun _ h => h⟩
  · have hminer : (db.getOrCreateMiner (minerAddress workerName)).2.shares = db.shares := by
      unfold PoolDb.getOrCreateMiner
      split <;> rfl
    have hworkers := workers_getOrCreateMiner db (minerAddress workerName)
    simp only
    split
    · exact ⟨hminer, fun i hi => hworkers ▸ hi⟩
    · rename_i workerId w db₂ hdb₂
      have hworker := (attempt_ok hdb₂).2
      refine ⟨?_, fun i hi => (workers_getOrCreateWorker hworker).2 i (hworkers ▸ hi)⟩
      unfold PoolDb.getOrCreateWorker at hworker
      split at hworker
      · cases hworker
        exact hminer
      · split at hworker
        · cases hworker
          exact hminer
        · cases hworker

/-- A worker that connects empties the history of its session. -/
theorem handleWorkerConnected_history (clock : Clock) (answers : Answers) (v : ShareValidator)
    (sessionId workerName password : String) (localPort : ℕ) :
    (v.handleWorkerConnected clock answers sessionId workerName password
      localPort).validator.history sessionId = some [] := by
  simp [handleWorkerConnected, history, setSession, SessionDifficulty.new]

theorem workersKnown_handleEvent (clock : Clock) (answers : Answers) {v : ShareValidator}
    (hv : WorkersKnown v) (event : StratumEvent) :
    WorkersKnown (handleEvent prims clock answers v event).validator := by
  cases event with
  | shareSubmitted requestId sub =>
    exact (handleShare_spec prims clock answers v requestId sub rfl).2.1 hv
  | workerConnected sessionId workerName password localPort =>
    intro key c hc
    exact (registerWorker_frame answers v.db workerName).2 _ (hv key c hc)
  | sessionDisconnected sessionId => exact hv
  | targetSuggested sessionId target => exact hv

/-- **The worker cache never names an unknown worker**, along any sequence of events. -/
theorem workersKnown_run {v : ShareValidator} (hv : WorkersKnown v)
    (inputs : List (Clock × Answers × StratumEvent)) :
    WorkersKnown (run (fun v i => (handleEvent prims i.1 i.2.1 v i.2.2).validator) v inputs) := by
  have hrun : Always (fun v i => (handleEvent prims i.1 i.2.1 v i.2.2).validator) WorkersKnown v
      inputs :=
    always_of_allowed (fun v i h _ => workersKnown_handleEvent prims i.1 i.2.1 h i.2.2) hv
      (allowed_of_forall (fun _ _ => trivial) v inputs)
  exact hrun.last

end ShareValidator

end ZcashMiningPool
