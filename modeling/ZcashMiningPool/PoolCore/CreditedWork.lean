import ZcashMiningPool.PoolCore.Retarget

/-!
# Credited work

Along every run of events the difficulty a share is credited at is proved by its hash.

* `validateShare_credits` — the row that a credited share writes.
* `Meter` — the validator, and for every session the targets that were replaced so far.
* `TargetsInStep` — targets belong to difficulties, and the grace window is the end of what was
  replaced.

Principal results:

* `credited_work` — the session target is always that of the current difficulty, and no share is
  credited more than its hash proves.
-/

set_option autoImplicit false

namespace ZcashMiningPool

open Table Machine

/-! ## The credited row -/

namespace ShareValidator

variable (prims : Primitives)

/-- The hash of the header that a submission completes. -/
def HeaderHash (v : ShareValidator) (sub : Submission) (hash : Bytes32) : Prop :=
  ∃ job d input, v.jobs sub.jobId = some job ∧ decodeSubmission sub = .ok d ∧
    buildHeaderInput job sub.time = .ok input ∧ hash = prims.sha256d (fullHeader input d)

theorem verifyShare_ok {clock : Clock} {v : ShareValidator} {job : MiningJob} {sub : Submission}
    {d : DecodedShare} {s : VerifiedShare} (h : verifyShare prims clock v job sub d = .ok s) :
    ∃ input, buildHeaderInput job sub.time = .ok input ∧
      creditDifficulty v.defaultTarget (v.sessionDifficulty sub.sessionId)
        (prims.sha256d (fullHeader input d)) clock.instant = some s.difficulty := by
  unfold verifyShare at h
  cases htime : checkNtime job.template.curtime clock.unix sub.time with
  | error e =>
    rw [htime] at h
    cases h
  | ok u =>
    cases hinput : buildHeaderInput job sub.time with
    | error e =>
      rw [htime, hinput] at h
      cases h
    | ok input =>
      rw [htime, hinput] at h
      simp only [bind, Except.bind] at h
      split at h
      · cases h
      · rename_i difficulty hcredit
        split at h
        · cases h
        · split at h
          · cases h
          · cases h
            exact ⟨input, rfl, hcredit⟩

/-- A share that is credited writes one row, at its difficulty. -/
theorem creditShare_row {clock : Clock} {answers : Answers} {v : ShareValidator} {job : MiningJob}
    {sub : Submission} {s : VerifiedShare}
    (h : (creditShare prims clock answers v job sub s).recorded = true) :
    ∃ row : Share, row.sessionId = sub.sessionId ∧ row.difficulty = s.difficulty ∧
      (creditShare prims clock answers v job sub s).validator.db.shares = v.db.shares.insert row := by
  unfold creditShare at h ⊢
  rcases hx : v.resolveWorker clock answers sub.sessionId sub.workerName with ⟨found, v₁⟩
  have hshares := resolveWorker_shares hx
  rw [hx] at h
  cases found with
  | error e => cases h
  | ok workerId =>
    dsimp only at h ⊢
    split at h
    · cases h
    · rename_i n db hdb
      have hrow := PoolDb.recordShare_ok (attempt_ok hdb).2
      obtain ⟨⟨db', hv', hsame⟩, -⟩ := finishShare_frame answers { v₁ with db := db } job s workerId
      refine ⟨⟨workerId, sub.jobId, s.difficulty, s.isBlock, sub.sessionId, v₁.db.now⟩, rfl, rfl, ?_⟩
      rw [hv', ← hshares]
      exact hsame.1.trans (congrArg PoolDb.shares hrow)

/-- **The row of a credited share**: its difficulty is what the session's targets say of its hash. -/
theorem validateShare_credits {clock : Clock} {answers : Answers} {v : ShareValidator}
    {sub : Submission} (h : (validateShare prims clock answers v sub).recorded = true) :
    ∃ hash, HeaderHash prims v sub hash ∧ ∃ row : Share, row.sessionId = sub.sessionId ∧
      creditDifficulty v.defaultTarget (v.sessionDifficulty sub.sessionId) hash clock.instant
        = some row.difficulty ∧
      (validateShare prims clock answers v sub).validator.db.shares = v.db.shares.insert row := by
  cases hjob : v.jobs sub.jobId with
  | none =>
    simp only [validateShare, hjob] at h
    cases h
  | some job =>
    cases hd : decodeSubmission sub with
    | error e =>
      simp only [validateShare, hjob, hd] at h
      cases h
    | ok d =>
      cases hv₁ : v.rememberShare sub.sessionId (fingerprint prims sub d) with
      | none =>
        simp only [validateShare, hjob, hd, hv₁] at h
        cases h
      | some v₁ =>
        cases hs : verifyShare prims clock v₁ job sub d with
        | error e =>
          simp only [validateShare, hjob, hd, hv₁, hs] at h
          cases h
        | ok s =>
          simp only [validateShare, hjob, hd, hv₁, hs] at h ⊢
          obtain ⟨hdb, -, -, -, htargets⟩ := rememberShare_frame hv₁
          obtain ⟨input, hinput, hcredit⟩ := verifyShare_ok prims hs
          obtain ⟨row, hsession, hdifficulty, hrow⟩ := creditShare_row prims h
          refine ⟨_, ⟨job, d, input, hjob, hd, hinput, rfl⟩, row, hsession, ?_, ?_⟩
          · rw [hdifficulty, ← hcredit]
            exact creditDifficulty_congr htargets.symm _ _
          · rw [hrow, hdb]

/-- The same of the whole event; the rate check before it changes no target. -/
theorem handleShare_credits {clock : Clock} {answers : Answers} {v : ShareValidator}
    {requestId : RequestId} {sub : Submission}
    (h : (handleShare prims clock answers v requestId sub).recorded = true) :
    ∃ hash, HeaderHash prims v sub hash ∧ ∃ row : Share, row.sessionId = sub.sessionId ∧
      creditDifficulty v.defaultTarget (v.sessionDifficulty sub.sessionId) hash clock.instant
        = some row.difficulty ∧
      (handleShare prims clock answers v requestId sub).validator.db.shares
        = v.db.shares.insert row := by
  rcases handleShare_cases prims clock answers v requestId sub rfl with
    ⟨-, -, hrec⟩ | ⟨v₁, hx, hkept, hrec⟩
  · rw [h] at hrec
    cases hrec
  · have hv₁ : v₁ = (v.checkRate sub.sessionId clock.instant).2 := by rw [hx]
    have hframe : v₁.jobs = v.jobs ∧ v₁.db = v.db ∧ v₁.defaultTarget = v.defaultTarget ∧
        sessionTargets v₁.defaultTarget (v₁.sessionDifficulty sub.sessionId)
          = sessionTargets v.defaultTarget (v.sessionDifficulty sub.sessionId) := by
      rw [hv₁]
      unfold checkRate
      split
      · exact ⟨rfl, rfl, rfl, rfl⟩
      · rename_i sd hsd
        refine ⟨rfl, rfl, rfl, ?_⟩
        have hsession : (v.setSession sub.sessionId
            (some (sd.checkRate clock.instant).2)).sessionDifficulty sub.sessionId
              = some (sd.checkRate clock.instant).2 := Function.update_self _ _ _
        rw [hsession, hsd]
        unfold SessionDifficulty.checkRate
        dsimp only
        split <;> rfl
    obtain ⟨hjobs, hdb, -, htargets⟩ := hframe
    obtain ⟨hash, ⟨job, d, input, hjob, hd, hinput, hhash⟩, row, hsession, hcredit, hrow⟩ :=
      validateShare_credits prims (hrec.symm.trans h)
    refine ⟨hash, ⟨job, d, input, hjobs ▸ hjob, hd, hinput, hhash⟩, row, hsession, ?_, ?_⟩
    · rw [← hcredit]
      exact creditDifficulty_congr htargets.symm _ _
    · rw [hkept.shares, hrow, hdb]

end ShareValidator

/-! ## Runs -/

/-- The validator, and for every session the targets that were replaced since its worker connected,
    with the time. -/
structure Meter where
  validator : ShareValidator
  replaced : String → List (Bytes32 × ℚ)

/-- One event, with what the rest of the pool made of the validator before it. -/
structure Turn where
  clock : Clock
  answers : Answers
  event : StratumEvent
  world : ShareValidator → ShareValidator

namespace Meter

variable (prims : Primitives)

/-- No worker is connected yet. -/
def start (v : ShareValidator) : Meter := ⟨{ v with sessionDifficulty := fun _ => none }, fun _ => []⟩

/-- The session records are the validator's own. -/
def meet (m : Meter) (world : ShareValidator → ShareValidator) : ShareValidator :=
  { world m.validator with sessionDifficulty := m.validator.sessionDifficulty }

/-- A target is replaced when another one is announced. -/
def noteReplaced (now : ℚ) (v : ShareValidator) (sent : List ServerMessage)
    (replaced : String → List (Bytes32 × ℚ)) : StratumEvent → String → List (Bytes32 × ℚ)
  | .shareSubmitted _ sub =>
    if targetsIn sent = [] then replaced
    else Function.update replaced sub.sessionId (replaced sub.sessionId ++
      (v.sessionDifficulty sub.sessionId).toList.map (fun sd => (sd.target, now)))
  | .workerConnected sessionId _ _ _ => Function.update replaced sessionId []
  | .sessionDisconnected sessionId => Function.update replaced sessionId []
  | .targetSuggested _ _ => replaced

def outcome (m : Meter) (i : Turn) : EventOutcome :=
  (m.meet i.world).handleEvent prims i.clock i.answers i.event

def step (m : Meter) (i : Turn) : Meter where
  validator := (m.outcome prims i).validator
  replaced := noteReplaced i.clock.instant m.validator (m.outcome prims i).sent m.replaced i.event

/-- Every session's target is the target of its difficulty. -/
def InStep (m : Meter) : Prop :=
  ∀ id sd, m.validator.sessionDifficulty id = some sd →
    parseTarget (difficultyToTargetHex sd.vardiff.currentDifficulty) = .ok sd.target

/-- The difficulty for a hash: the current one if the hash meets the session target, else that of
    the most recently replaced target, of the last eight and of the last 60 seconds, that it
    meets. -/
def CreditedAt (hash : Bytes32) (now : ℚ) (sd : SessionDifficulty)
    (replaced : List (Bytes32 × ℚ)) (difficulty : ℚ) : Prop :=
  if leNat hash.bytes ≤ beNat sd.target.bytes then difficulty = sd.vardiff.currentDifficulty
  else ∃ r, (replaced.rtake 8).reverse.find? (fun r =>
      decide (now - r.2 ≤ 60) && decide (leNat hash.bytes ≤ beNat r.1.bytes)) = some r ∧
    difficulty = targetToDifficulty r.1

/-- A share that the step records is credited what its hash proves. -/
def CreditsWork (m : Meter) (i : Turn) : Prop :=
  ∀ requestId sub sd, i.event = .shareSubmitted requestId sub →
    m.validator.sessionDifficulty sub.sessionId = some sd →
    (m.outcome prims i).recorded = true →
    ∃ hash, (m.meet i.world).HeaderHash prims sub hash ∧ ∃ row : Share,
      (m.step prims i).validator.db.shares = (m.meet i.world).db.shares.insert row ∧
      row.sessionId = sub.sessionId ∧
      (leNat hash.bytes : ℚ) * row.difficulty ≤ 2 ^ 251 - 1 ∧
      CreditedAt hash i.clock.instant sd (m.replaced sub.sessionId) row.difficulty

/-! ### The invariant -/

/-- The grace entry of a replaced target. -/
def graceOf (r : Bytes32 × ℚ) : GraceTarget := ⟨r.1, targetToDifficulty r.1, r.2⟩

/-- Targets belong to difficulties, and the grace window is the end of what was replaced. -/
structure TargetsInStep (m : Meter) : Prop where
  inStep : m.InStep
  grace : ∀ id sd, m.validator.sessionDifficulty id = some sd →
    sd.recentTargets = ((m.replaced id).rtake graceTargetHistory).map graceOf

/-! ### The steps -/

theorem map_rtake {α β : Type} (f : α → β) (l : List α) (n : ℕ) :
    (l.rtake n).map f = (l.map f).rtake n := by
  unfold List.rtake
  rw [List.map_drop, List.length_map]

theorem inStep_meet {m : Meter} (h : TargetsInStep m) (world : ShareValidator → ShareValidator) :
    TargetsInStep ⟨m.meet world, m.replaced⟩ :=
  ⟨h.inStep, h.grace⟩

/-- The session of a share after it was handled. -/
theorem inStep_share {m : Meter} (h : TargetsInStep m) {now : ℚ} {v' : ShareValidator}
    {sub : Submission} {sent : List ServerMessage} (requestId : RequestId)
    (heffect : ShareValidator.Effect now sub.sessionId (targetsIn sent) m.validator v') :
    TargetsInStep ⟨v', noteReplaced now m.validator sent m.replaced
      (.shareSubmitted requestId sub)⟩ := by
  have hother : ∀ id, id ≠ sub.sessionId →
      noteReplaced now m.validator sent m.replaced (.shareSubmitted requestId sub) id
        = m.replaced id := by
    intro id hid
    unfold noteReplaced
    split
    · rfl
    · exact Function.update_of_ne hid _ _
  have hsession : ∀ sd', v'.sessionDifficulty sub.sessionId = some sd' →
      ∃ sd, m.validator.sessionDifficulty sub.sessionId = some sd ∧
        ((targetsIn sent = [] ∧ SameTarget sd sd') ∨ ∃ hex, targetsIn sent = [hex] ∧
          Retargeted now hex sd sd') := by
    intro sd' hsd'
    cases hsd : m.validator.sessionDifficulty sub.sessionId with
    | none =>
      rw [(heffect.absent hsd).2] at hsd'
      cases hsd'
    | some sd =>
      obtain ⟨sd'', hsd'', hcases⟩ := heffect.present sd hsd
      rw [hsd'] at hsd''
      cases hsd''
      exact ⟨sd, rfl, hcases⟩
  constructor
  · intro id sd' hsd'
    by_cases hid : id = sub.sessionId
    · subst hid
      obtain ⟨sd, hsd, ⟨-, hsame⟩ | ⟨hex, -, hnew⟩⟩ := hsession sd' hsd'
      · exact hsame.inStep (h.inStep _ sd hsd)
      · exact hnew.inStep
    · exact h.inStep id sd' ((heffect.others id hid).symm.trans hsd')
  · intro id sd' hsd'
    by_cases hid : id = sub.sessionId
    · subst hid
      obtain ⟨sd, hsd, ⟨hnil, hsame⟩ | ⟨hex, hone, hnew⟩⟩ := hsession sd' hsd'
      · simp only [noteReplaced, hnil, if_true]
        rw [hsame.grace]
        exact h.grace _ sd hsd
      · have hne : targetsIn sent ≠ [] := by
          rw [hone]
          exact List.cons_ne_nil _ _
        simp only [noteReplaced, hne, if_false, Function.update_self, hsd, Option.toList_some,
          List.map_cons, List.map_nil]
        rw [hnew.grace, h.grace _ sd hsd]
        have hcap : 0 < graceTargetHistory := by decide
        have hpush := BoundedFifo.push_rtake hcap ((m.replaced sub.sessionId).map graceOf)
          (graceOf (sd.target, now))
        rw [map_rtake, map_rtake, List.map_append]
        exact hpush
    · have hold := h.grace id sd' ((heffect.others id hid).symm.trans hsd')
      dsimp only
      rw [hother id hid]
      exact hold

/-- A worker that connects gets the target of its difficulty, and an empty grace window. -/
theorem inStep_connected {m : Meter} (h : TargetsInStep m) (clock : Clock) (answers : Answers)
    (sessionId workerName password : String) (localPort : ℕ) :
    TargetsInStep ⟨(m.validator.handleWorkerConnected clock answers sessionId workerName password
      localPort).validator, Function.update m.replaced sessionId []⟩ := by
  set v' := (m.validator.handleWorkerConnected clock answers sessionId workerName password
    localPort).validator with hv'
  have hnew : v'.sessionDifficulty sessionId = some (SessionDifficulty.new
      (m.validator.makeTarget clock (m.validator.initialDifficulty password localPort)).1
      (m.validator.makeTarget clock (m.validator.initialDifficulty password localPort)).2
      clock.instant) := Function.update_self _ _ _
  have hothers : ∀ id, id ≠ sessionId →
      v'.sessionDifficulty id = m.validator.sessionDifficulty id :=
    fun id hid => Function.update_of_ne hid _ _
  constructor
  · intro id sd hsd
    by_cases hid : id = sessionId
    · subst hid
      dsimp only at hsd
      rw [hnew] at hsd
      cases hsd
      exact ShareValidator.targetHex_getD _ _
    · exact h.inStep id sd ((hothers id hid).symm.trans hsd)
  · intro id sd hsd
    by_cases hid : id = sessionId
    · subst hid
      dsimp only at hsd ⊢
      rw [hnew] at hsd
      cases hsd
      rw [Function.update_self]
      rfl
    · have hold := h.grace id sd ((hothers id hid).symm.trans hsd)
      dsimp only
      rw [Function.update_of_ne hid]
      exact hold

theorem inStep_disconnected {m : Meter} (h : TargetsInStep m) (sessionId : String)
    (sessionWorkerId : String → Option WorkerId) :
    TargetsInStep ⟨{ m.validator.setSession sessionId none with
      sessionWorkerId := sessionWorkerId }, Function.update m.replaced sessionId []⟩ := by
  have hback : ∀ id sd, (m.validator.setSession sessionId none).sessionDifficulty id = some sd →
      id ≠ sessionId ∧ m.validator.sessionDifficulty id = some sd := by
    intro id sd hsd
    by_cases hid : id = sessionId
    · subst hid
      simp [ShareValidator.setSession] at hsd
    · refine ⟨hid, ?_⟩
      rw [← hsd]
      exact (Function.update_of_ne hid _ _).symm
  refine ⟨fun id sd hsd => h.inStep id sd (hback id sd hsd).2, ?_⟩
  intro id sd hsd
  obtain ⟨hid, hold⟩ := hback id sd hsd
  dsimp only
  rw [Function.update_of_ne hid]
  exact h.grace id sd hold

/-- **One event** keeps difficulties, targets and grace windows in step. -/
theorem step_inStep {m : Meter} (h : TargetsInStep m) (i : Turn) :
    TargetsInStep (m.step prims i) := by
  obtain ⟨clock, answers, event, world⟩ := i
  have hmeet := inStep_meet h world
  cases event with
  | shareSubmitted requestId sub =>
    exact inStep_share hmeet requestId
      (ShareValidator.handleShare_effect prims clock answers (m.meet world) requestId sub)
  | workerConnected sessionId workerName password localPort =>
    exact inStep_connected hmeet clock answers sessionId workerName password localPort
  | sessionDisconnected sessionId => exact inStep_disconnected hmeet sessionId _
  | targetSuggested sessionId target => exact hmeet

/-! ### Credits -/

theorem meetsTarget_iff_leNat (hash target : Bytes32) :
    meetsTarget hash target = true ↔ leNat hash.bytes ≤ beNat target.bytes := by
  rw [meetsTarget_iff, beNat_reverse]

/-- What the session's targets say of a hash, in terms of what was replaced. -/
theorem creditedAt_of_credit {m : Meter} (h : TargetsInStep m) {id : String}
    {sd : SessionDifficulty} (hsd : m.validator.sessionDifficulty id = some sd)
    {defaultTarget hash : Bytes32} {now difficulty : ℚ}
    (hcredit : creditDifficulty defaultTarget (some sd) hash now = some difficulty) :
    CreditedAt hash now sd (m.replaced id) difficulty := by
  have hiff := meetsTarget_iff_leNat hash
  unfold CreditedAt
  unfold creditDifficulty sessionTargets at hcredit
  dsimp only at hcredit
  by_cases hmeets : meetsTarget hash sd.target = true
  · rw [if_pos hmeets] at hcredit
    rw [if_pos ((hiff _).1 hmeets)]
    exact (Option.some.inj hcredit).symm
  · rw [if_neg hmeets] at hcredit
    rw [if_neg (mt (hiff _).2 hmeets)]
    obtain ⟨gt, hfind, rfl⟩ := Option.map_eq_some_iff.1 hcredit
    rw [h.grace id sd hsd, ← List.map_reverse, List.find?_map] at hfind
    obtain ⟨r, hr, rfl⟩ := Option.map_eq_some_iff.1 hfind
    refine ⟨r, ?_, rfl⟩
    have hsame : (SessionDifficulty.GraceMet hash now ∘ graceOf)
        = fun r => decide (now - r.2 ≤ 60) && decide (leNat hash.bytes ≤ beNat r.1.bytes) := by
      funext r
      have hdec : meetsTarget hash r.1 = decide (leNat hash.bytes ≤ beNat r.1.bytes) := by
        rw [Bool.eq_iff_iff, hiff]
        exact decide_eq_true_iff.symm
      simp only [Function.comp, SessionDifficulty.GraceMet, graceOf, hdec]
      rfl
    rw [hsame] at hr
    exact hr

/-- **A credited difficulty is proved by the hash.** -/
theorem work_of_credit {m : Meter} (h : TargetsInStep m) {id : String} {sd : SessionDifficulty}
    (hsd : m.validator.sessionDifficulty id = some sd) {hash : Bytes32} {now difficulty : ℚ}
    (hcredit : CreditedAt hash now sd (m.replaced id) difficulty) :
    (leNat hash.bytes : ℚ) * difficulty ≤ 2 ^ 251 - 1 := by
  have hlimit : ((powLimit : ℕ) : ℚ) = 2 ^ 251 - 1 := by
    norm_num [powLimit]
  rw [← hlimit, ← beNat_reverse]
  unfold CreditedAt at hcredit
  split at hcredit
  · rename_i hmeets
    rw [hcredit]
    exact hash_mul_difficulty_le (h.inStep id sd hsd) ((meetsTarget_iff_leNat _ _).2 hmeets)
  · obtain ⟨r, hr, rfl⟩ := hcredit
    have hmet := List.find?_some hr
    simp only [Bool.and_eq_true, decide_eq_true_eq] at hmet
    exact hash_mul_targetToDifficulty_le ((meetsTarget_iff_leNat _ _).2 hmet.2)

theorem step_creditsWork {m : Meter} (h : TargetsInStep m) (i : Turn) : CreditsWork prims m i := by
  obtain ⟨clock, answers, event, world⟩ := i
  intro requestId sub sd hevent hsd hrec
  dsimp only at hevent
  subst hevent
  obtain ⟨hash, hhash, row, hsession, hcredit, hrow⟩ :=
    ShareValidator.handleShare_credits prims hrec
  have hcreditedAt := creditedAt_of_credit (inStep_meet h world) hsd
    ((congrArg (creditDifficulty _ · hash clock.instant) hsd).symm.trans hcredit)
  exact ⟨hash, hhash, row, hrow, hsession, work_of_credit h hsd hcreditedAt, hcreditedAt⟩

theorem inStep_start (v : ShareValidator) : TargetsInStep (start v) :=
  ⟨fun _ _ hsd => (by cases hsd), fun _ _ hsd => (by cases hsd)⟩

/-- **Credited work**: along every run of events the session targets are those of the current
    difficulties, and no recorded share is credited more than its hash proves. -/
theorem credited_work (prims : Primitives) (v : ShareValidator) (turns : List Turn) :
    Always (step prims) InStep (start v) turns ∧
      Allowed (step prims) (CreditsWork prims) (start v) turns := by
  have hany : Allowed (step prims) (fun _ _ => True) (start v) turns :=
    allowed_of_forall (fun _ _ => trivial) _ _
  have halways : Always (step prims) TargetsInStep (start v) turns :=
    always_of_allowed (fun m i h _ => step_inStep prims h i) (inStep_start v) hany
  refine ⟨halways.imp fun m h => h.inStep, ?_⟩
  exact allowed_of_always (fun m i h => step_creditsWork prims h i) halways

end Meter

end ZcashMiningPool
