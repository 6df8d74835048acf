import ZcashMiningPool.PoolCore.Validator
import ZcashMiningPool.PoolCore.Vardiff

/-!
# What events do to a session's target

Difficulty, target and grace window of a session change together: a retarget and a reset announce
a new target, put the old one into the grace window and leave the tracker at the difficulty of the
new one.  Everything else leaves the three alone.

* `VardiffTracker.Records` — what a recorded share does to the tracker.
* `Effect` — what a part of the event loop does to the session, by the targets it announces.
* `handleShare_effect` — a share announces at most one target.
-/

set_option autoImplicit false

namespace ZcashMiningPool

open Table

/-! ## The tracker -/

namespace VardiffTracker

/-- What recording a share does: the difficulty that is returned is the current one afterwards, and
    without one the difficulty is as it was. -/
structure Records (v : VardiffTracker) (out : Option ℚ × VardiffTracker) : Prop where
  kept : out.1 = none → out.2.currentDifficulty = v.currentDifficulty
  moved : ∀ d, out.1 = some d → out.2.currentDifficulty = d

theorem records_answer (v : VardiffTracker) (i : VardiffInput) : Records v (v.answer i) where
  kept := fun h => (quiet_frame h).1
  moved := by
    intro d h
    obtain ⟨-, f, smoothed, -, -, -, hstep⟩ := retarget_cases h
    exact congrArg currentDifficulty hstep

theorem records_recordShare (v : VardiffTracker) (now : ℚ) : Records v (v.recordShare now) :=
  v.records_answer ⟨.recordShare, now⟩

theorem records_forceRetarget (v : VardiffTracker) (now : ℚ) : Records v (v.forceRetarget now) :=
  v.records_answer ⟨.forceRetarget, now⟩

end VardiffTracker

/-! ## Sessions -/

/-- The session's target is that of its difficulty. -/
def InStep (sd : SessionDifficulty) : Prop :=
  parseTarget (difficultyToTargetHex sd.vardiff.currentDifficulty) = .ok sd.target

/-- Difficulty, target and grace window are left alone. -/
structure SameTarget (sd sd' : SessionDifficulty) : Prop where
  target : sd'.target = sd.target
  difficulty : sd'.vardiff.currentDifficulty = sd.vardiff.currentDifficulty
  grace : sd'.recentTargets = sd.recentTargets

/-- The target that `hex` announces replaces the old one, which joins the grace window. -/
structure Retargeted (now : ℚ) (hex : String) (sd sd' : SessionDifficulty) : Prop where
  target : parseTarget hex = .ok sd'.target
  inStep : InStep sd'
  grace : sd'.recentTargets = BoundedFifo.push graceTargetHistory sd.recentTargets
    ⟨sd.target, targetToDifficulty sd.target, now⟩

theorem SameTarget.refl (sd : SessionDifficulty) : SameTarget sd sd := ⟨rfl, rfl, rfl⟩

theorem SameTarget.trans {sd sd' sd'' : SessionDifficulty} (h : SameTarget sd sd')
    (h' : SameTarget sd' sd'') : SameTarget sd sd'' :=
  ⟨h'.target.trans h.target, h'.difficulty.trans h.difficulty, h'.grace.trans h.grace⟩

theorem SameTarget.retargeted {now : ℚ} {hex : String} {sd sd' sd'' : SessionDifficulty}
    (h : SameTarget sd sd') (h' : Retargeted now hex sd' sd'') : Retargeted now hex sd sd'' where
  target := h'.target
  inStep := h'.inStep
  grace := by rw [h'.grace, h.grace, h.target]

theorem SameTarget.inStep {sd sd' : SessionDifficulty} (h : SameTarget sd sd') (hs : InStep sd) :
    InStep sd' := by
  unfold InStep at *
  rw [h.difficulty, h.target]
  exact hs

/-- The announced targets. -/
def targetsIn (sent : List ServerMessage) : List String :=
  sent.filterMap (fun m => match m with
    | .setTarget target => some target
    | _ => none)

namespace ShareValidator

variable (prims : Primitives)

/-- A part of the loop that works for one session and announces `targets` to it. -/
structure Effect (now : ℚ) (sessionId : String) (targets : List String)
    (v v' : ShareValidator) : Prop where
  others : ∀ id, id ≠ sessionId → v'.sessionDifficulty id = v.sessionDifficulty id
  absent : v.sessionDifficulty sessionId = none →
    targets = [] ∧ v'.sessionDifficulty sessionId = none
  present : ∀ sd, v.sessionDifficulty sessionId = some sd →
    ∃ sd', v'.sessionDifficulty sessionId = some sd' ∧
      ((targets = [] ∧ SameTarget sd sd') ∨
        ∃ hex, targets = [hex] ∧ Retargeted now hex sd sd')

/-- The same, with nothing announced. -/
abbrev Quiet (now : ℚ) (sessionId : String) (v v' : ShareValidator) : Prop :=
  Effect now sessionId [] v v'

variable {now : ℚ} {sessionId : String} {targets : List String} {v v' v'' : ShareValidator}

theorem Effect.same (h : Quiet now sessionId v v') {sd : SessionDifficulty}
    (hsd : v.sessionDifficulty sessionId = some sd) :
    ∃ sd', v'.sessionDifficulty sessionId = some sd' ∧ SameTarget sd sd' := by
  obtain ⟨sd', hsd', ⟨-, hsame⟩ | ⟨hex, hnil, -⟩⟩ := h.present sd hsd
  · exact ⟨sd', hsd', hsame⟩
  · cases hnil

theorem Effect.then (h : Quiet now sessionId v v') (h' : Effect now sessionId targets v' v'') :
    Effect now sessionId targets v v'' where
  others := fun id hid => (h'.others id hid).trans (h.others id hid)
  absent := fun hnone => h'.absent (h.absent hnone).2
  present := by
    intro sd hsd
    obtain ⟨sd', hsd', hsame⟩ := Effect.same h hsd
    obtain ⟨sd'', hsd'', hcases⟩ := h'.present sd' hsd'
    refine ⟨sd'', hsd'', ?_⟩
    rcases hcases with ⟨hnil, hsame'⟩ | ⟨hex, hone, hnew⟩
    · exact .inl ⟨hnil, hsame.trans hsame'⟩
    · exact .inr ⟨hex, hone, hsame.retargeted hnew⟩

/-- The sessions are as they were. -/
theorem quiet_congr (hsessions : v'.sessionDifficulty = v.sessionDifficulty) :
    Quiet now sessionId v v' where
  others := fun id _ => congrFun hsessions id
  absent := fun hnone => ⟨rfl, (congrFun hsessions sessionId).trans hnone⟩
  present := fun sd hsd => ⟨sd, (congrFun hsessions sessionId).trans hsd, .inl ⟨rfl, .refl sd⟩⟩

theorem quiet_refl (v : ShareValidator) : Quiet now sessionId v v := quiet_congr rfl

/-- A new record for the session that had one. -/
theorem effect_setSession {sd sd' : SessionDifficulty}
    (hsd : v.sessionDifficulty sessionId = some sd)
    (h : (targets = [] ∧ SameTarget sd sd') ∨
      ∃ hex, targets = [hex] ∧ Retargeted now hex sd sd') :
    Effect now sessionId targets v (v.setSession sessionId (some sd')) where
  others := fun id hid => Function.update_of_ne hid _ _
  absent := fun hnone => by
    rw [hsd] at hnone
    cases hnone
  present := fun sd₀ hsd₀ => by
    rw [hsd] at hsd₀
    cases hsd₀
    exact ⟨sd', Function.update_self _ _ _, h⟩

theorem quiet_modifySession {f : SessionDifficulty → SessionDifficulty}
    (hf : ∀ sd, SameTarget sd (f sd)) : Quiet now sessionId v (v.modifySession sessionId f) := by
  unfold modifySession
  split
  · exact quiet_refl v
  · rename_i sd hsd
    exact effect_setSession hsd (.inl ⟨rfl, hf sd⟩)

theorem quiet_checkRate (v : ShareValidator) (sessionId : String) (clock : ℚ) :
    Quiet now sessionId v (v.checkRate sessionId clock).2 := by
  unfold checkRate
  split
  · exact quiet_refl v
  · rename_i sd hsd
    refine effect_setSession hsd (.inl ⟨rfl, ?_⟩)
    unfold SessionDifficulty.checkRate
    dsimp only
    split <;> exact ⟨rfl, rfl, rfl⟩

/-! ### Retargets -/

theorem targetHex_getD (t : Bytes32) (d : ℚ) :
    parseTarget (difficultyToTargetHex d)
      = .ok ((parseTarget (difficultyToTargetHex d)).toOption.getD t) := by
  obtain ⟨target, htarget⟩ := parseTarget_difficulty d
  rw [htarget]
  rfl

/-- The new difficulty is stored for the worker; of the sessions only this one changes. -/
theorem applyRetarget_spec (clock : Clock) (answers : Answers) {v : ShareValidator}
    {sessionId : String} {sd : SessionDifficulty} (hsd : v.sessionDifficulty sessionId = some sd)
    (difficulty : ℚ) :
    ∃ db target, parseTarget (difficultyToTargetHex difficulty) = .ok target ∧
      v.applyRetarget clock answers sessionId difficulty
        = ([.setDifficulty difficulty, .setTarget (difficultyToTargetHex difficulty)],
          { v.setSession sessionId (some (sd.retarget target clock.instant)) with db := db }) := by
  refine ⟨(v.applyRetarget clock answers sessionId difficulty).2.db, _,
    targetHex_getD v.defaultTarget difficulty, ?_⟩
  simp only [applyRetarget, modifySession, hsd]

/-- A share is fed to the tracker; the difficulty that comes back is announced and enforced. -/
theorem retargetWith_effect {record : VardiffTracker → ℚ → Option ℚ × VardiffTracker}
    (hrecord : ∀ t now, VardiffTracker.Records t (record t now)) (clock : Clock)
    (answers : Answers) (v : ShareValidator) (sessionId : String) :
    Effect clock.instant sessionId (targetsIn (v.retargetWith record clock answers sessionId).1) v
      (v.retargetWith record clock answers sessionId).2 := by
  cases hsd : v.sessionDifficulty sessionId with
  | none =>
    simp only [retargetWith, hsd]
    exact quiet_refl v
  | some sd =>
    have hrec := hrecord sd.vardiff clock.instant
    cases hout : (record sd.vardiff clock.instant).1 with
    | none =>
      simp only [retargetWith, hsd, hout]
      exact effect_setSession hsd (.inl ⟨rfl, rfl, hrec.kept hout, rfl⟩)
    | some difficulty =>
      set v₁ := v.setSession sessionId (some { sd with
        vardiff := (record sd.vardiff clock.instant).2 }) with hv₁
      have hsd₁ : v₁.sessionDifficulty sessionId = some { sd with
          vardiff := (record sd.vardiff clock.instant).2 } := Function.update_self _ _ _
      obtain ⟨db, target, htarget, happly⟩ := applyRetarget_spec clock answers hsd₁ difficulty
      simp only [retargetWith, hsd, hout, ← hv₁, happly]
      have hnew : Retargeted clock.instant (difficultyToTargetHex difficulty) sd
          (SessionDifficulty.retarget
            { sd with vardiff := (record sd.vardiff clock.instant).2 } target clock.instant) := by
        refine ⟨htarget, ?_, rfl⟩
        have hmoved := hrec.moved difficulty hout
        unfold InStep SessionDifficulty.retarget SessionDifficulty.pushGraceTarget
        dsimp only
        rw [hmoved]
        exact htarget
      refine ⟨?_, ?_, ?_⟩
      · intro id hid
        rw [hv₁]
        simp only [setSession, Function.update_of_ne hid]
      · intro hnone
        rw [hsd] at hnone
        cases hnone
      · intro sd₀ hsd₀
        rw [hsd] at hsd₀
        cases hsd₀
        exact ⟨_, Function.update_self _ _ _, .inr ⟨_, rfl, hnew⟩⟩

/-- The tenth low share in a row makes a session that was never accepted start over. -/
theorem countLowDiff_effect (clock : Clock) (v : ShareValidator) (sessionId : String) :
    Effect clock.instant sessionId (targetsIn (v.countLowDiff clock sessionId).1) v
      (v.countLowDiff clock sessionId).2 := by
  cases hsd : v.sessionDifficulty sessionId with
  | none =>
    simp only [countLowDiff, hsd]
    exact quiet_refl v
  | some sd =>
    simp only [countLowDiff, hsd]
    split
    · refine effect_setSession hsd (.inr ⟨_, rfl, ?_⟩)
      exact ⟨parseTarget_hexEncode _,
        targetHex_getD v.defaultTarget v.vardiffConfig.initialDifficulty, rfl⟩
    · exact effect_setSession hsd (.inl ⟨rfl, rfl, rfl, rfl⟩)

/-! ### A share -/

theorem acceptShare_effect (clock : Clock) (answers : Answers) (v : ShareValidator)
    (sessionId : String) (requestId : RequestId) (force : Bool) :
    Effect clock.instant sessionId
      (targetsIn (v.acceptShare clock answers sessionId requestId force).1) v
      (v.acceptShare clock answers sessionId requestId force).2 := by
  have hcount : Quiet clock.instant sessionId v (v.modifySession sessionId (fun sd =>
      { sd with lowDiffStreak := 0, sharesAccepted := sd.sharesAccepted + 1 })) :=
    quiet_modifySession fun sd => ⟨rfl, rfl, rfl⟩
  cases force with
  | true =>
    exact hcount.then (retargetWith_effect VardiffTracker.records_forceRetarget clock answers _ _)
  | false =>
    exact hcount.then (retargetWith_effect VardiffTracker.records_recordShare clock answers _ _)

theorem rejectShare_effect (clock : Clock) (v : ShareValidator) (sessionId : String)
    (requestId : RequestId) (e : StratumError) :
    Effect clock.instant sessionId (targetsIn (v.rejectShare clock sessionId requestId e).1) v
      (v.rejectShare clock sessionId requestId e).2.1 := by
  have hcount : Quiet clock.instant sessionId v (v.modifySession sessionId (countReject e)) := by
    refine quiet_modifySession fun sd => ?_
    unfold countReject
    split
    · exact ⟨rfl, rfl, rfl⟩
    · split <;> exact ⟨rfl, rfl, rfl⟩
  unfold rejectShare
  dsimp only
  split
  · exact hcount
  · split
    · exact hcount.then (countLowDiff_effect clock _ sessionId)
    · exact hcount

theorem quiet_creditShare (clock : Clock) (answers : Answers) (v : ShareValidator)
    (job : MiningJob) (sub : Submission) (s : VerifiedShare) (sessionId : String) :
    Quiet now sessionId v (creditShare prims clock answers v job sub s).validator :=
  quiet_congr (creditShare_spec prims clock answers v job sub s rfl).1

theorem quiet_validateShare (clock : Clock) (answers : Answers) (v : ShareValidator)
    (sub : Submission) :
    Quiet now sub.sessionId v (validateShare prims clock answers v sub).validator := by
  have hremember : ∀ {v₁ : ShareValidator} {fp : UInt64},
      v.rememberShare sub.sessionId fp = some v₁ → Quiet now sub.sessionId v v₁ := by
    intro v₁ fp hv₁
    rcases rememberShare_cases hv₁ with ⟨-, rfl⟩ | ⟨sd, hsd, -, rfl⟩
    · exact quiet_refl v₁
    · exact effect_setSession hsd (.inl ⟨rfl, rfl, rfl, rfl⟩)
  rcases validateShare_cases prims clock answers v sub with
    ⟨e, he⟩ | ⟨job, d, v₁, -, -, hv₁, hend⟩
  · rw [he]
    exact quiet_refl v
  · rcases hend with ⟨e, he⟩ | ⟨s, hs⟩
    · rw [he]
      exact hremember hv₁
    · rw [hs]
      exact (hremember hv₁).then (quiet_creditShare prims clock answers v₁ job sub s _)

/-- **A share** announces at most one target, and that is the one that is enforced from then on. -/
theorem handleShare_effect (clock : Clock) (answers : Answers) (v : ShareValidator)
    (requestId : RequestId) (sub : Submission) :
    Effect clock.instant sub.sessionId
      (targetsIn (handleShare prims clock answers v requestId sub).sent) v
      (handleShare prims clock answers v requestId sub).validator := by
  have hrate : Quiet clock.instant sub.sessionId v
      (v.checkRate sub.sessionId clock.instant).2 := quiet_checkRate v sub.sessionId clock.instant
  unfold handleShare
  rcases hx : v.checkRate sub.sessionId clock.instant with ⟨status, v₁⟩
  rw [hx] at hrate
  dsimp only
  split
  · have hcount : Quiet clock.instant sub.sessionId v₁ (v₁.modifySession sub.sessionId (fun sd =>
        { sd with sharesRejectedOther := sd.sharesRejectedOther + 1 })) :=
      quiet_modifySession fun sd => ⟨rfl, rfl, rfl⟩
    exact (hrate.then hcount).then
      (retargetWith_effect VardiffTracker.records_forceRetarget clock answers _ _)
  · have hcall := hrate.then (quiet_validateShare prims clock answers v₁ sub)
    rcases hout : validateShare prims clock answers v₁ sub with
      ⟨v₂, result, recorded, submitted, task⟩
    rw [hout] at hcall
    cases result with
    | ok r => exact hcall.then (acceptShare_effect clock answers v₂ _ requestId _)
    | error e => exact hcall.then (rejectShare_effect clock v₂ _ requestId e)

end ShareValidator

end ZcashMiningPool
