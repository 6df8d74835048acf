import ZcashMiningPool.PoolCore.CreditedWork

/-!
# What a session is judged by

The validator counts the shares of a session since its worker connected: it disconnects a session
that has only ever been refused, and restarts the difficulty of one that is always too low.

* `Counts`, `Counts.add` — the counters of a session record, and what one answer does to them.
* `tally` — the same figures, told from the answers a session has had.
* `handleShare_judged` — one share: its answer, and what becomes of the session.
* `session_accounting` — along every run the records are the tallies, and who is disconnected or
  restarted is told by them.
-/

set_option autoImplicit false

namespace ZcashMiningPool

open Machine

/-- The counters of a session since its worker connected. -/
structure Counts where
  since : ℚ
  accepted : ℕ
  refused : ℕ
  lowDiffStreak : ℕ
  deriving DecidableEq

def SessionDifficulty.counts (sd : SessionDifficulty) : Counts where
  since := sd.connectedAt
  accepted := sd.sharesAccepted
  refused := sd.sharesRejectedLowDiff + sd.sharesRejectedJobNotFound + sd.sharesRejectedOther
  lowDiffStreak := sd.lowDiffStreak

/-- How a share is answered; a dropped one is not. -/
inductive Verdict where
  | accepted
  | refused (lowDifficulty : Bool)
  | dropped
  deriving DecidableEq, Repr

namespace Counts

/-- Zero accepts and 50 refusals, five seconds after connecting. -/
def Flooder (c : Counts) (now : ℚ) : Prop := c.accepted = 0 ∧ 50 ≤ c.refused ∧ 5 ≤ now - c.since

/-- Ten refusals for low difficulty since the last restart, and never an accept. -/
def Restarts (c : Counts) : Prop := 10 ≤ c.lowDiffStreak + 1 ∧ c.accepted = 0

instance (c : Counts) : Decidable c.Restarts := inferInstanceAs (Decidable (_ ∧ _))

def add (c : Counts) : Verdict → Counts
  | .accepted => { c with accepted := c.accepted + 1, lowDiffStreak := 0 }
  | .refused false | .dropped => { c with refused := c.refused + 1 }
  | .refused true =>
    { c with
      refused := c.refused + 1
      lowDiffStreak := if c.Restarts then 0 else c.lowDiffStreak + 1 }

end Counts

/-- The answers to shares. -/
def answersIn (sent : List ServerMessage) : List (RequestId × Bool × Option StratumError) :=
  sent.filterMap fun m => match m with
    | .submitResult id accepted error => some (id, accepted, error)
    | _ => none

/-- The answer to a share over the rate limit. -/
def rateLimited : StratumError := .other "Share rate limit exceeded"

/-- The verdict that an answer tells. -/
def verdictOf (sent : List ServerMessage) : Verdict :=
  match answersIn sent with
  | (_, true, _) :: _ => .accepted
  | (_, false, some e) :: _ => .refused e.isLowDifficulty
  | _ => .dropped

/-- How a share of a session with the counters `before` may be answered. -/
inductive Judged (requestId : RequestId) (now : ℚ) (before : Option Counts) :
    List ServerMessage → Bool → Prop where
  | accepted (sent : List ServerMessage) (answer : answersIn sent = [(requestId, true, none)]) :
      Judged requestId now before sent false
  | limited (sent : List ServerMessage)
      (answer : answersIn sent = [(requestId, false, some rateLimited)]) :
      Judged requestId now before sent false
  /-- the session is spared, and starts over exactly when it is due -/
  | refused (sent : List ServerMessage) (e : StratumError)
      (answer : answersIn sent = [(requestId, false, some e)])
      (spared : ∀ c, before = some c → ¬ (c.add .dropped).Flooder now)
      (restart : targetsIn sent ≠ [] ↔
        e.isLowDifficulty = true ∧ ∃ c, before = some c ∧ c.Restarts) :
      Judged requestId now before sent false
  | dropped (c : Counts) (known : before = some c) (flooder : (c.add .dropped).Flooder now) :
      Judged requestId now before [] true

namespace ShareValidator

variable (prims : Primitives)

/-! ## What the parts of the loop count -/

def countsOf (v : ShareValidator) (id : String) : Option Counts :=
  (v.sessionDifficulty id).map SessionDifficulty.counts

/-- The counters of one session are changed by `f`. -/
structure Counting (sessionId : String) (f : Counts → Counts) (v v' : ShareValidator) : Prop where
  own : v'.countsOf sessionId = (v.countsOf sessionId).map f
  others : ∀ id, id ≠ sessionId → v'.countsOf id = v.countsOf id

variable {sessionId : String} {v v' v'' : ShareValidator} {f g : Counts → Counts}

theorem counting_refl (v : ShareValidator) : Counting sessionId id v v :=
  ⟨(congrFun Option.map_id _).symm, fun _ _ => rfl⟩

theorem Counting.trans (h : Counting sessionId f v v') (h' : Counting sessionId g v' v'') :
    Counting sessionId (g ∘ f) v v'' where
  own := by rw [h'.own, h.own, Option.map_map]
  others := fun id hid => (h'.others id hid).trans (h.others id hid)

theorem Counting.then (h : Counting sessionId f v v') (h' : Counting sessionId id v' v'') :
    Counting sessionId f v v'' := h.trans h'

theorem counting_congr (h : v'.sessionDifficulty = v.sessionDifficulty) :
    Counting sessionId id v v' := by
  have hcounts : v'.countsOf = v.countsOf := by
    funext id
    rw [countsOf, countsOf, h]
  refine ⟨?_, fun id _ => congrFun hcounts id⟩
  rw [hcounts]
  exact (congrFun Option.map_id _).symm

theorem countsOf_setSession (v : ShareValidator) (sessionId : String)
    (o : Option SessionDifficulty) (id : String) :
    (v.setSession sessionId o).countsOf id
      = if sessionId = id then o.map SessionDifficulty.counts else v.countsOf id := by
  have hset : (v.setSession sessionId o).sessionDifficulty
      = Function.update v.sessionDifficulty sessionId o := rfl
  rw [countsOf, countsOf, hset, Function.update_apply]
  split
  · next hid => rw [if_pos hid.symm]
  · next hid => rw [if_neg (Ne.symm hid)]

theorem counting_setSession {sd sd' : SessionDifficulty}
    (hsd : v.sessionDifficulty sessionId = some sd) (h : sd'.counts = f sd.counts) :
    Counting sessionId f v (v.setSession sessionId (some sd')) where
  own := by
    rw [countsOf_setSession, if_pos rfl, countsOf, hsd, Option.map_some, Option.map_some,
      Option.map_some, h]
  others := fun id hid => by rw [countsOf_setSession, if_neg (Ne.symm hid)]

theorem counting_absent (h : v.sessionDifficulty sessionId = none) : Counting sessionId f v v where
  own := by rw [countsOf, h]; rfl
  others := fun _ _ => rfl

theorem counting_modifySession {h : SessionDifficulty → SessionDifficulty}
    (hf : ∀ sd, (h sd).counts = f sd.counts) :
    Counting sessionId f v (v.modifySession sessionId h) := by
  cases hsd : v.sessionDifficulty sessionId with
  | none =>
    simp only [modifySession, hsd]
    exact counting_absent hsd
  | some sd =>
    simp only [modifySession, hsd]
    exact counting_setSession hsd (hf sd)

theorem counting_checkRate (v : ShareValidator) (sessionId : String) (now : ℚ) :
    Counting sessionId id v (v.checkRate sessionId now).2 := by
  unfold checkRate
  split
  · exact counting_refl v
  · next sd hsd =>
    refine counting_setSession hsd ?_
    unfold SessionDifficulty.checkRate
    dsimp only
    split <;> rfl

theorem counting_retargetWith (record : VardiffTracker → ℚ → Option ℚ × VardiffTracker)
    (clock : Clock) (answers : Answers) (v : ShareValidator) (sessionId : String) :
    Counting sessionId id v (v.retargetWith record clock answers sessionId).2 ∧
      answersIn (v.retargetWith record clock answers sessionId).1 = [] := by
  unfold retargetWith
  split
  · exact ⟨counting_refl v, rfl⟩
  · next sd hsd =>
    have hset : Counting sessionId id v (v.setSession sessionId
        (some { sd with vardiff := (record sd.vardiff clock.instant).2 })) :=
      counting_setSession hsd rfl
    dsimp only
    split
    · exact ⟨hset, rfl⟩
    · refine ⟨hset.then ?_, rfl⟩
      refine (counting_modifySession fun sd => ?_).then (counting_congr rfl)
      rfl

theorem counting_validateShare (clock : Clock) (answers : Answers) (v : ShareValidator)
    (sub : Submission) :
    Counting sub.sessionId id v (validateShare prims clock answers v sub).validator := by
  have hremember : ∀ {v₁ : ShareValidator} {fp : UInt64},
      v.rememberShare sub.sessionId fp = some v₁ → Counting sub.sessionId id v v₁ := by
    intro v₁ fp hv₁
    obtain ⟨-, rfl⟩ | ⟨sd, hsd, -, rfl⟩ := rememberShare_cases hv₁
    · exact counting_refl v₁
    · exact counting_setSession hsd rfl
  obtain ⟨e, he⟩ | ⟨job, d, v₁, -, -, hv₁, hend⟩ := validateShare_cases prims clock answers v sub
  · rw [he]
    exact counting_refl v
  · obtain ⟨e, he⟩ | ⟨s, hs⟩ := hend
    · rw [he]
      exact hremember hv₁
    · rw [hs]
      exact (hremember hv₁).then
        (counting_congr (creditShare_spec prims clock answers v₁ job sub s rfl).1)

/-! ## One share -/

theorem acceptShare_counts (clock : Clock) (answers : Answers) (v : ShareValidator)
    (sessionId : String) (requestId : RequestId) (force : Bool) :
    Counting sessionId (·.add .accepted) v
        (v.acceptShare clock answers sessionId requestId force).2 ∧
      answersIn (v.acceptShare clock answers sessionId requestId force).1
        = [(requestId, true, none)] := by
  have hcount : Counting sessionId (·.add .accepted) v (v.modifySession sessionId (fun sd =>
      { sd with lowDiffStreak := 0, sharesAccepted := sd.sharesAccepted + 1 })) :=
    counting_modifySession fun sd => rfl
  cases force with
  | true =>
    obtain ⟨hquiet, hsent⟩ := counting_retargetWith VardiffTracker.forceRetarget clock answers
      (v.modifySession sessionId (fun sd =>
        { sd with lowDiffStreak := 0, sharesAccepted := sd.sharesAccepted + 1 })) sessionId
    exact ⟨hcount.then hquiet, congrArg (List.cons (requestId, true, none)) hsent⟩
  | false =>
    obtain ⟨hquiet, hsent⟩ := counting_retargetWith VardiffTracker.recordShare clock answers
      (v.modifySession sessionId (fun sd =>
        { sd with lowDiffStreak := 0, sharesAccepted := sd.sharesAccepted + 1 })) sessionId
    exact ⟨hcount.then hquiet, congrArg (List.cons (requestId, true, none)) hsent⟩

theorem counts_countReject (e : StratumError) (sd : SessionDifficulty) :
    (countReject e sd).counts = sd.counts.add .dropped := by
  unfold countReject SessionDifficulty.counts Counts.add
  split
  · simp only [Counts.mk.injEq, true_and, and_true]
    omega
  · split
    · simp only [Counts.mk.injEq, true_and, and_true]
      omega
    · rfl

theorem isFlooder_iff (sd : SessionDifficulty) (now : ℚ) :
    isFlooder sd now = true ↔ sd.counts.Flooder now := by
  unfold isFlooder Counts.Flooder SessionDifficulty.counts
  simp only [Bool.and_eq_true, beq_iff_eq, decide_eq_true_iff, and_assoc]

/-- The streak goes on, or the session starts over. -/
theorem countLowDiff_counts (clock : Clock) (v : ShareValidator) (sessionId : String) :
    Counting sessionId
        (fun c => { c with lowDiffStreak := if c.Restarts then 0 else c.lowDiffStreak + 1 }) v
        (v.countLowDiff clock sessionId).2 ∧
      answersIn (v.countLowDiff clock sessionId).1 = [] ∧
      (targetsIn (v.countLowDiff clock sessionId).1 ≠ [] ↔
        ∃ c, v.countsOf sessionId = some c ∧ c.Restarts) := by
  cases hsd : v.sessionDifficulty sessionId with
  | none =>
    simp only [countLowDiff, hsd, countsOf, Option.map_none]
    refine ⟨counting_absent hsd, rfl, ?_⟩
    constructor
    · exact fun h => absurd rfl h
    · rintro ⟨c, h, -⟩
      cases h
  | some sd =>
    have hrestarts : (10 ≤ sd.lowDiffStreak + 1 ∧ sd.sharesAccepted = 0) ↔ sd.counts.Restarts :=
      Iff.rfl
    have hmine : (∃ c, v.countsOf sessionId = some c ∧ c.Restarts) ↔ sd.counts.Restarts := by
      rw [countsOf, hsd, Option.map_some]
      constructor
      · rintro ⟨c, h, hc⟩
        cases h
        exact hc
      · exact fun h => ⟨_, rfl, h⟩
    rw [hmine]
    simp only [countLowDiff, hsd]
    by_cases hdue : sd.counts.Restarts
    · rw [if_pos (hrestarts.2 hdue)]
      refine ⟨counting_setSession hsd ?_, rfl, fun _ => hdue, fun _ h => by cases h⟩
      rw [if_pos hdue]
      rfl
    · rw [if_neg (mt hrestarts.1 hdue)]
      refine ⟨counting_setSession hsd ?_, rfl, fun h => absurd rfl h, fun h => absurd h hdue⟩
      rw [if_neg hdue]
      rfl

theorem flooded_iff (v : ShareValidator) (id : String) (now : ℚ) :
    ((v.sessionDifficulty id).map (isFlooder · now)).getD false = true ↔
      ∃ c, v.countsOf id = some c ∧ c.Flooder now := by
  unfold countsOf
  cases v.sessionDifficulty id with
  | none => simp
  | some sd => simp [isFlooder_iff]

theorem rejectShare_judged (clock : Clock) (v : ShareValidator) (sessionId : String)
    (requestId : RequestId) (e : StratumError) :
    let out := v.rejectShare clock sessionId requestId e
    Counting sessionId (·.add (verdictOf out.1)) v out.2.1 ∧
      Judged requestId clock.instant (v.countsOf sessionId) out.1 out.2.2 := by
  have hcount : Counting sessionId (·.add .dropped) v
      (v.modifySession sessionId (countReject e)) :=
    counting_modifySession (counts_countReject e)
  have hflooder := flooded_iff (v.modifySession sessionId (countReject e)) sessionId clock.instant
  rw [hcount.own] at hflooder
  unfold rejectShare
  dsimp only
  split
  · next hfull =>
    obtain ⟨c', hc', hflood⟩ := hflooder.1 hfull
    obtain ⟨c, hc, rfl⟩ := Option.map_eq_some_iff.1 hc'
    exact ⟨hcount, .dropped c hc hflood⟩
  · next hspared =>
    have hkept : ∀ c, v.countsOf sessionId = some c →
        ¬ (c.add .dropped).Flooder clock.instant := fun c hc hflood =>
      hspared (hflooder.2 ⟨c.add .dropped, by rw [hc]; rfl, hflood⟩)
    cases hlow : e.isLowDifficulty with
    | true =>
      obtain ⟨hstreak, hanswers, htargets⟩ :=
        countLowDiff_counts clock (v.modifySession sessionId (countReject e)) sessionId
      have hverdict : verdictOf (.submitResult requestId false (some e) ::
          ((v.modifySession sessionId (countReject e)).countLowDiff clock sessionId).1)
            = .refused true := congrArg Verdict.refused hlow
      rw [if_pos rfl, hverdict]
      refine ⟨hcount.trans hstreak, .refused _ e ?_ hkept ?_⟩
      · exact congrArg (List.cons (requestId, false, some e)) hanswers
      · show targetsIn ((v.modifySession sessionId (countReject e)).countLowDiff clock
            sessionId).1 ≠ [] ↔ _
        rw [htargets, hcount.own, hlow]
        constructor
        · rintro ⟨c', hc', hdue⟩
          obtain ⟨c, hc, rfl⟩ := Option.map_eq_some_iff.1 hc'
          exact ⟨rfl, c, hc, hdue⟩
        · rintro ⟨-, c, hc, hdue⟩
          exact ⟨c.add .dropped, by rw [hc]; rfl, hdue⟩
    | false =>
      have hverdict : verdictOf [.submitResult requestId false (some e)] = .refused false :=
        congrArg Verdict.refused hlow
      rw [if_neg Bool.false_ne_true]
      refine ⟨?_, .refused _ e rfl hkept ?_⟩
      · rw [hverdict]
        exact hcount
      · rw [hlow]
        exact ⟨fun h => absurd rfl h, fun h => by cases h.1⟩

/-- **One share**: how it is answered, and what becomes of the session's counters. -/
theorem handleShare_judged (clock : Clock) (answers : Answers) (v : ShareValidator)
    (requestId : RequestId) (sub : Submission) :
    let out := handleShare prims clock answers v requestId sub
    Counting sub.sessionId (·.add (verdictOf out.sent)) v out.validator ∧
      Judged requestId clock.instant (v.countsOf sub.sessionId) out.sent out.disconnected := by
  have hrate := counting_checkRate v sub.sessionId clock.instant
  unfold handleShare
  rcases hx : v.checkRate sub.sessionId clock.instant with ⟨status, v₁⟩
  rw [hx] at hrate
  dsimp only
  split
  · have hcount : Counting sub.sessionId (·.add (.refused false)) v₁
        (v₁.modifySession sub.sessionId (fun sd =>
          { sd with sharesRejectedOther := sd.sharesRejectedOther + 1 })) :=
      counting_modifySession fun sd => rfl
    obtain ⟨hquiet, hsent⟩ := counting_retargetWith VardiffTracker.forceRetarget clock answers
      (v₁.modifySession sub.sessionId (fun sd =>
        { sd with sharesRejectedOther := sd.sharesRejectedOther + 1 })) sub.sessionId
    exact ⟨(hrate.trans hcount).then hquiet,
      .limited _ (congrArg (List.cons (requestId, false, some rateLimited)) hsent)⟩
  · have hcall := hrate.then (counting_validateShare prims clock answers v₁ sub)
    have hsame : v.countsOf sub.sessionId
        = (validateShare prims clock answers v₁ sub).validator.countsOf sub.sessionId :=
      (hcall.own.trans (congrFun Option.map_id _)).symm
    rcases hout : validateShare prims clock answers v₁ sub with
      ⟨v₂, result, recorded, submitted, task⟩
    rw [hout] at hcall hsame
    cases result with
    | ok r =>
      obtain ⟨hcount, hanswers⟩ := acceptShare_counts clock answers v₂ sub.sessionId requestId
        (decide (status = .warn))
      have hverdict : verdictOf (v₂.acceptShare clock answers sub.sessionId requestId
          (decide (status = .warn))).1 = .accepted := by
        rw [verdictOf, hanswers]
      dsimp only
      rw [hverdict]
      exact ⟨hcall.trans hcount, .accepted _ hanswers⟩
    | error e =>
      obtain ⟨hcount, hjudged⟩ := rejectShare_judged clock v₂ sub.sessionId requestId e
      dsimp only at hsame ⊢
      rw [hsame]
      exact ⟨hcall.trans hcount, hjudged⟩

end ShareValidator

/-! ## Runs -/

/-- An event as it was served. -/
structure Served where
  now : ℚ
  event : StratumEvent
  sent : List ServerMessage
  disconnected : Bool

/-- What one event does to the counters of a session, as far as its messages tell. -/
def tallyStep (id : String) (c : Option Counts) (s : Served) : Option Counts :=
  match s.event with
  | .shareSubmitted _ sub => if sub.sessionId = id then c.map (·.add (verdictOf s.sent)) else c
  | .workerConnected sessionId _ _ _ => if sessionId = id then some ⟨s.now, 0, 0, 0⟩ else c
  | .sessionDisconnected sessionId => if sessionId = id then none else c
  | .targetSuggested _ _ => c

/-- The counters of a session, told from all that was served. -/
def tally (id : String) (served : List Served) : Option Counts := served.foldl (tallyStep id) none

/-- The validator and what it served. -/
structure Docket where
  validator : ShareValidator
  served : List Served

namespace Docket

variable (prims : Primitives)

def start (v : ShareValidator) : Docket := ⟨{ v with sessionDifficulty := fun _ => none }, []⟩

/-- The session records are the validator's own. -/
def meet (d : Docket) (world : ShareValidator → ShareValidator) : ShareValidator :=
  { world d.validator with sessionDifficulty := d.validator.sessionDifficulty }

def outcome (d : Docket) (i : Turn) : EventOutcome :=
  (d.meet i.world).handleEvent prims i.clock i.answers i.event

def step (d : Docket) (i : Turn) : Docket where
  validator := (d.outcome prims i).validator
  served := d.served ++ [⟨i.clock.instant, i.event, (d.outcome prims i).sent,
    (d.outcome prims i).disconnected⟩]

/-- The records are the tallies, and every share was judged by them. -/
structure Kept (d : Docket) : Prop where
  counts : ∀ id, d.validator.countsOf id = tally id d.served
  judged : ∀ pre s post requestId sub, d.served = pre ++ s :: post →
    s.event = .shareSubmitted requestId sub →
    Judged requestId s.now (tally sub.sessionId pre) s.sent s.disconnected

theorem countsOf_meet (d : Docket) (world : ShareValidator → ShareValidator) (id : String) :
    (d.meet world).countsOf id = d.validator.countsOf id := rfl

theorem tally_step (d : Docket) (i : Turn) (id : String) :
    tally id (d.step prims i).served = tallyStep id (tally id d.served)
      ⟨i.clock.instant, i.event, (d.outcome prims i).sent, (d.outcome prims i).disconnected⟩ := by
  rw [step, tally, List.foldl_append]
  rfl

theorem counts_step {d : Docket} (h : Kept d) (i : Turn) (id : String) :
    (d.step prims i).validator.countsOf id = tally id (d.step prims i).served := by
  have hbefore : (d.meet i.world).countsOf id = tally id d.served := h.counts id
  rw [tally_step, ← hbefore]
  show (d.outcome prims i).validator.countsOf id = _
  unfold outcome tallyStep
  cases hevent : i.event with
  | shareSubmitted requestId sub =>
    obtain ⟨hcount, -⟩ := ShareValidator.handleShare_judged prims i.clock i.answers
      (d.meet i.world) requestId sub
    dsimp only
    split
    · next hid =>
      subst hid
      exact hcount.own
    · next hid => exact hcount.others id (Ne.symm hid)
  | workerConnected sessionId workerName password localPort =>
    exact ShareValidator.countsOf_setSession _ sessionId _ id
  | sessionDisconnected sessionId => exact ShareValidator.countsOf_setSession _ sessionId none id
  | targetSuggested sessionId target => rfl

theorem Kept.step {d : Docket} (h : Kept d) (i : Turn) : Kept (d.step prims i) where
  counts := counts_step prims h i
  judged := by
    intro pre s post requestId sub hserved hevent
    obtain rfl | ⟨post', x, rfl⟩ := post.eq_nil_or_concat
    · obtain ⟨rfl, hlast⟩ := List.append_inj' hserved rfl
      cases hlast
      obtain ⟨-, hjudged⟩ := ShareValidator.handleShare_judged prims i.clock i.answers
        (d.meet i.world) requestId sub
      rw [countsOf_meet, h.counts] at hjudged
      have hout : d.outcome prims i
          = ShareValidator.handleShare prims i.clock i.answers (d.meet i.world) requestId sub := by
        rw [outcome, show i.event = .shareSubmitted requestId sub from hevent]
        rfl
      rw [hout]
      exact hjudged
    · have hsplit : d.served ++ [(⟨i.clock.instant, i.event, (d.outcome prims i).sent,
          (d.outcome prims i).disconnected⟩ : Served)] = (pre ++ s :: post') ++ [x] := by
        rw [List.append_assoc, List.cons_append, ← post'.concat_eq_append]
        exact hserved
      exact h.judged pre s post' requestId sub (List.append_inj' hsplit rfl).1 hevent

theorem kept_start (v : ShareValidator) : Kept (start v) :=
  ⟨fun _ => rfl, fun pre s post _ _ h _ => by simp [start] at h⟩

end Docket

end ZcashMiningPool
