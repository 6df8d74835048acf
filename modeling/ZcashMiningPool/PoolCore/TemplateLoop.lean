import ZcashMiningPool.PoolCore.CleanJobs
import ZcashMiningPool.PoolCore.IssuedJobs
import ZcashMiningPool.PoolCore.Lag

/-!
# The template loop

`JobManager::run`: long polls and regular polls, their failures, and the re-poll schedule after a
new tip without transactions.

* `Wait`, `TemplateLoop.step` — what the loop waits for, and what one answer or one elapsed sleep
  does.
* `Outcome` — what a fetched template does: a new tip, a refresh, or nothing.
* `JobManager.processed_outcome`, `TemplateLoop.step_took` — both calls, by cases.
-/

set_option autoImplicit false

namespace ZcashMiningPool

open Machine Table

/-- Configuration for BIP22 long-polling of block templates. -/
structure LongpollConfig where
  enabled : Bool
  timeout : ℚ

def LongpollConfig.default : LongpollConfig := ⟨false, 60⟩

/-- Re-poll schedule after a new-tip template arrived with no transactions. -/
def emptyTemplateRepollDelaysMs : List ℕ := [100, 200, 400, 800]

/-- What the loop waits for. -/
inductive Wait where
  | poll
  | longpoll (longpollid : String)
  /-- the regular poll after a failed long poll -/
  | fallback
  | pause
  | repollPause (delay : ℕ) (rest : List ℕ)
  | repoll (rest : List ℕ)
  deriving DecidableEq, Repr

/-- What the loop did, request by request. -/
inductive Act where
  | polled
  | longpolled
  | pollFailed
  | longpollFailed
  | slept
  | accepted (longpolled isNewBlock : Bool) (i : TemplateInput)

/-- An answer of the node, with the readings of the clocks that the loop takes on it. -/
structure Reply where
  template : Option TemplateInput
  held : ℚ
  nowMs : ℤ
  /-- when an announcement was recorded, and how long it had taken -/
  early : ℚ × ℚ
  full : ℚ × ℚ

inductive LoopEvent where
  | reply (r : Reply)
  | woke

structure TemplateLoop where
  announcer : Announcer
  lagTracker : TemplateLagTracker
  longpollWakeCount : ℕ
  longpollFailCount : ℕ
  lastLongpollFailAtMs : ℤ
  wait : Wait
  trace : List Act

namespace TemplateLoop

def note (s : TemplateLoop) (act : Act) : TemplateLoop := { s with trace := s.trace ++ [act] }

/-- The request that is sent on taking up a wait. -/
def request : Wait → List Act
  | .poll | .fallback | .repoll _ => [.polled]
  | .longpoll _ => [.longpolled]
  | .pause | .repollPause _ _ => []

def goto (s : TemplateLoop) (w : Wait) : TemplateLoop :=
  { s with wait := w, trace := s.trace ++ request w }

/-- The first request is a regular poll: there is no `longpollid` yet. -/
def start (coinbaseTag : Option Bytes) (now : ℚ) : TemplateLoop where
  announcer := Announcer.start coinbaseTag now
  lagTracker := TemplateLagTracker.new
  longpollWakeCount := 0
  longpollFailCount := 0
  lastLongpollFailAtMs := 0
  wait := .poll
  trace := [.polled]

def manager (s : TemplateLoop) : JobManager := s.announcer.manager

section

variable (sha256d : Bytes → Bytes32) (cfg : LongpollConfig)

/-- The lag samples of a template that a long poll returned. -/
def lagSamples (m : JobManager) (r : Reply) (i : TemplateInput) : List Sample :=
  (m.early sha256d i).1.map (fun _ => ⟨r.early.1, r.early.2, i.template.height, .emptyBlock⟩) ++
    if (m.processed sha256d i).isNewBlock then
      [⟨r.full.1, r.full.2, i.template.height, .fullTemplate⟩]
    else []

/-- A fetched template; lag is measured from a long poll that returned. -/
def processTemplate (s : TemplateLoop) (longpolled : Bool) (r : Reply) (i : TemplateInput) :
    TemplateLoop :=
  { s with
    announcer := s.announcer.step sha256d i
    lagTracker := s.lagTracker.recordAll
      (if longpolled then lagSamples sha256d s.manager r i else [])
    trace := s.trace ++
      [.accepted longpolled (s.manager.processed sha256d i).isNewBlock i] }

/-- Long poll if enabled and we have a `longpollid`, else regular poll. -/
def nextRequest (s : TemplateLoop) : Wait :=
  match if cfg.enabled then s.manager.lastLongpollid else none with
  | some id => .longpoll id
  | none => .poll

/-- A successful long poll blocked until the template changed; regular polls are spaced. -/
def endOfRound (s : TemplateLoop) : Wait :=
  if !cfg.enabled || s.manager.lastLongpollid.isNone then .pause else nextRequest cfg s

def nextRepoll (s : TemplateLoop) : List ℕ → Wait
  | [] => endOfRound cfg s
  | delay :: rest => .repollPause delay rest

def afterRound (s : TemplateLoop) (isNewBlock : Bool) : Wait :=
  if isNewBlock && s.manager.lastBroadcastTxCount == 0 then
    nextRepoll cfg s emptyTemplateRepollDelaysMs
  else endOfRound cfg s

/-- The answer to a regular poll of `run`. -/
def pollReturned (s : TemplateLoop) (r : Reply) : TemplateLoop :=
  match r.template with
  | some i =>
    let isNewBlock := (s.manager.processed sha256d i).isNewBlock
    let s := s.processTemplate sha256d false r i
    s.goto (afterRound cfg s isNewBlock)
  | none => (s.note .pollFailed).goto .pause

/-- A long poll that was held for the whole timeout expired quietly; any other error counts. -/
def longpollReturned (s : TemplateLoop) (r : Reply) : TemplateLoop :=
  match r.template with
  | some i =>
    let isNewBlock := (s.manager.processed sha256d i).isNewBlock
    let s := { s with longpollWakeCount := bumpCounter s.longpollWakeCount }
    let s := s.processTemplate sha256d true r i
    s.goto (afterRound cfg s isNewBlock)
  | none =>
    let s := if max 0 (cfg.timeout - 2) ≤ r.held then s
      else { s with
        longpollFailCount := bumpCounter s.longpollFailCount
        lastLongpollFailAtMs := r.nowMs }
    (s.note .longpollFailed).goto .fallback

/-- The answer to a re-poll; a new block or a job with transactions ends the schedule. -/
def repollReturned (s : TemplateLoop) (rest : List ℕ) (r : Reply) : TemplateLoop :=
  match r.template with
  | some i =>
    let isNewBlock := (s.manager.processed sha256d i).isNewBlock
    let s := s.processTemplate sha256d false r i
    s.goto (if isNewBlock || decide (0 < s.manager.lastBroadcastTxCount) then endOfRound cfg s
      else nextRepoll cfg s rest)
  | none =>
    let s := s.note .pollFailed
    s.goto (nextRepoll cfg s rest)

def step (s : TemplateLoop) : LoopEvent → TemplateLoop
  | .reply r =>
    match s.wait with
    | .poll | .fallback => s.pollReturned sha256d cfg r
    | .longpoll _ => s.longpollReturned sha256d cfg r
    | .repoll rest => s.repollReturned sha256d cfg rest r
    | .pause | .repollPause _ _ => s
  | .woke =>
    match s.wait with
    | .pause => (s.note .slept).goto (nextRequest cfg s)
    | .repollPause _ rest => (s.note .slept).goto (.repoll rest)
    | .poll | .fallback | .longpoll _ | .repoll _ => s

end

/-- An answer comes to a request, and only a sleep elapses. -/
def Enabled (s : TemplateLoop) : LoopEvent → Prop
  | .reply _ => request s.wait ≠ []
  | .woke => request s.wait = []

end TemplateLoop

/-! ## What a fetched template does -/

namespace JobManager

variable (sha256d : Bytes → Bytes32)

/-- The job that miners were sent last is cached, on the last tip. -/
structure Announced (m : JobManager) (job : MiningJob) (cleanJobs : Bool) (txCount : ℕ) : Prop where
  notify : m.latestNotify = some (job.toNotify cleanJobs)
  cached : m.jobs.get? job.jobId = some job
  tip : job.prevHashHex = reverseHex m.lastPrevHash
  transactions : job.template.transactions.length = txCount
  count : m.lastBroadcastTxCount = txCount

/-- A new tip, a refresh of the same tip, or nothing to announce. -/
inductive Outcome (m : JobManager) (i : TemplateInput) (out : Processed) : Prop where
  | quiet (old : m.lastPrevHash = i.template.previousblockhash) (isNew : out.isNewBlock = false)
      (filled : i.template.transactions = [] ∨ m.lastBroadcastTxCount ≠ 0)
      (none : out.broadcasts = [])
      (same : out.manager = { m with lastLongpollid := i.template.longpollid })
  | refresh (job : MiningJob) (upgrade : Bool)
      (old : m.lastPrevHash = i.template.previousblockhash) (isNew : out.isNewBlock = false)
      (due : upgrade = false → (5 : ℚ) ≤ i.now - m.lastNonCleanBroadcast)
      (empty : upgrade = true ↔ i.template.transactions ≠ [] ∧ m.lastBroadcastTxCount = 0)
      (one : out.broadcasts = [(job, upgrade)])
      (tip : out.manager.lastPrevHash = m.lastPrevHash)
      (stamp : out.manager.lastNonCleanBroadcast = i.now)
      (announced : Announced out.manager job upgrade i.template.transactions.length)
  | newTip (early : List MiningJob) (job : MiningJob)
      (new : m.lastPrevHash ≠ i.template.previousblockhash) (isNew : out.isNewBlock = true)
      (few : early.length ≤ 1) (all : out.broadcasts
        = early.map (·, true) ++ [(job, !i.template.transactions.isEmpty)])
      (tip : out.manager.lastPrevHash = i.template.previousblockhash)
      (stamp : out.manager.lastNonCleanBroadcast = m.lastNonCleanBroadcast)
      (announced : Announced out.manager job (!i.template.transactions.isEmpty)
        i.template.transactions.length)

theorem prevHashHex_nextJob (m : JobManager) (template : BlockTemplate) :
    (m.nextJob sha256d template).prevHashHex = reverseHex template.previousblockhash := rfl

theorem announced_announce (m : JobManager) (job : MiningJob) (cleanJobs : Bool)
    (tip : job.prevHashHex = reverseHex m.lastPrevHash) :
    Announced (m.announce job cleanJobs job.template.transactions.length) job cleanJobs
      job.template.transactions.length where
  notify := rfl
  cached := by
    rw [announce, Keyed.get?_upsert, if_pos rfl]
  tip := tip
  transactions := rfl
  count := rfl

/-- The early announcement is at most one, and leaves alone what the full one goes by. -/
theorem early_frame (m : JobManager) (i : TemplateInput) :
    (m.early sha256d i).1.length ≤ 1 ∧
      (m.early sha256d i).2.lastPrevHash = m.lastPrevHash ∧
      (m.early sha256d i).2.lastNonCleanBroadcast = m.lastNonCleanBroadcast := by
  obtain h | ⟨template, h⟩ := m.early_cases sha256d i
  · rw [h]
    exact ⟨Nat.zero_le _, rfl, rfl⟩
  · rw [h]
    exact ⟨le_rfl, rfl, rfl⟩

/-- The job of the full announcement. -/
def fullJob (m : JobManager) (i : TemplateInput) : MiningJob :=
  m.nextJob sha256d ((tagTemplate i.inject m.coinbaseTag i.template).toOption.getD i.template)

theorem fullJob_frame (m : JobManager) (i : TemplateInput) :
    (m.fullJob sha256d i).prevHashHex = reverseHex i.template.previousblockhash ∧
      (m.fullJob sha256d i).template.transactions = i.template.transactions := by
  obtain ⟨htxs, hprev⟩ := taggedOrNot_frame i.inject m.coinbaseTag i.template
  refine ⟨?_, htxs⟩
  rw [fullJob, prevHashHex_nextJob, hprev]

/-- A template that does not change the tip. -/
theorem processed_old (m : JobManager) (i : TemplateInput)
    (h : m.lastPrevHash = i.template.previousblockhash) :
    let upgrade := decide (0 < i.template.transactions.length) && m.lastBroadcastTxCount == 0
    m.processed sha256d i =
      if upgrade || decide (nonCleanJobIntervalSecs ≤ ⌊i.now - m.lastNonCleanBroadcast⌋) then
        let m := { m with lastLongpollid := i.template.longpollid }
        let job := m.fullJob sha256d i
        ⟨false, [(job, upgrade)],
          { m with
            jobCounter := bumpCounter m.jobCounter
            lastNonCleanBroadcast := i.now }.announce job upgrade i.template.transactions.length⟩
      else ⟨false, [], { m with lastLongpollid := i.template.longpollid }⟩ := by
  unfold processed processTemplate
  dsimp only
  simp only [h, ne_eq, not_true_eq_false, decide_false, Bool.false_and, Bool.false_eq_true,
    if_false, Bool.not_false, Bool.true_and, Bool.false_or, List.map_nil, List.nil_append]
  split
  · next hdue =>
    rw [Bool.not_eq_true'] at hdue
    rw [if_neg (by rw [hdue]; exact Bool.false_ne_true)]
  · next hdue =>
    rw [Bool.not_eq_true', Bool.not_eq_false] at hdue
    rw [if_pos hdue]
    rfl

/-- A template that changes the tip. -/
theorem processed_new (m : JobManager) (i : TemplateInput)
    (h : m.lastPrevHash ≠ i.template.previousblockhash) :
    let e := m.early sha256d i
    let job := e.2.fullJob sha256d i
    m.processed sha256d i =
      ⟨true, e.1.map (·, true) ++ [(job, !i.template.transactions.isEmpty)],
        { e.2 with
          jobCounter := bumpCounter e.2.jobCounter
          jobs := keepRecentJobs e.2.jobs
          lastPrevHash := i.template.previousblockhash }.announce job
            (!i.template.transactions.isEmpty) i.template.transactions.length⟩ := by
  unfold processed processTemplate early
  dsimp only
  simp only [h, ne_eq, not_false_eq_true, decide_true, Bool.true_and, Bool.not_true,
    Bool.false_and, Bool.or_false, Bool.true_or, Bool.false_eq_true, if_false]
  rfl

/-- **What `process_template` does.** -/
theorem processed_outcome (m : JobManager) (i : TemplateInput) :
    Outcome m i (m.processed sha256d i) := by
  by_cases hnew : m.lastPrevHash = i.template.previousblockhash
  · have hout := m.processed_old sha256d i hnew
    have hupgrade : (decide (0 < i.template.transactions.length) &&
        m.lastBroadcastTxCount == 0) = true ↔
          i.template.transactions ≠ [] ∧ m.lastBroadcastTxCount = 0 := by
      rw [Bool.and_eq_true, decide_eq_true_iff, beq_iff_eq, List.length_pos_iff]
    dsimp only at hout
    split at hout
    · next hdue =>
      rw [hout]
      obtain ⟨hprev, htxs⟩ := fullJob_frame sha256d { m with lastLongpollid := i.template.longpollid } i
      refine .refresh _ _ hnew rfl ?_ ?_ rfl rfl rfl ?_
      · intro hthrottled
        rw [hthrottled, Bool.false_or, decide_eq_true_iff] at hdue
        have hfloor : ((5 : ℤ) : ℚ) ≤ i.now - m.lastNonCleanBroadcast := Int.le_floor.1 hdue
        exact_mod_cast hfloor
      · exact hupgrade
      · rw [← htxs]
        exact announced_announce _ _ _ (hprev.trans (congrArg reverseHex hnew.symm))
    · next hdue =>
      rw [hout]
      refine .quiet hnew rfl ?_ rfl rfl
      have hnot := mt hupgrade.2 fun h => hdue (by rw [h, Bool.true_or])
      by_cases htxs : i.template.transactions = []
      · exact .inl htxs
      · exact .inr fun hcount => hnot ⟨htxs, hcount⟩
  · have hout := m.processed_new sha256d i hnew
    dsimp only at hout
    rw [hout]
    obtain ⟨hfew, -, hlast⟩ := m.early_frame sha256d i
    obtain ⟨hprev, htxs⟩ := fullJob_frame sha256d (m.early sha256d i).2 i
    refine .newTip _ _ hnew rfl hfew rfl rfl hlast ?_
    have hcount := congrArg List.length htxs
    have hann := announced_announce { (m.early sha256d i).2 with
          jobCounter := bumpCounter (m.early sha256d i).2.jobCounter
          jobs := keepRecentJobs (m.early sha256d i).2.jobs
          lastPrevHash := i.template.previousblockhash } _ (!i.template.transactions.isEmpty) hprev
    rwa [hcount] at hann

end JobManager

namespace TemplateLoop

section

variable {sha256d : Bytes → Bytes32} {cfg : LongpollConfig} {s s' : TemplateLoop}

/-! ## What one event does -/

/-- Where a wait can lead without a template. -/
inductive Moves (cfg : LongpollConfig) (s : TemplateLoop) : Wait → Act → Wait → Prop where
  | poll : Moves cfg s .poll .pollFailed .pause
  | fallback : Moves cfg s .fallback .pollFailed .pause
  | longpoll (id : String) : Moves cfg s (.longpoll id) .longpollFailed .fallback
  | repoll (rest : List ℕ) : Moves cfg s (.repoll rest) .pollFailed (nextRepoll cfg s rest)
  | pause : Moves cfg s .pause .slept (nextRequest cfg s)
  | repollPause (delay : ℕ) (rest : List ℕ) :
      Moves cfg s (.repollPause delay rest) .slept (.repoll rest)

/-- Where a wait leads with a template, after which the loop is in `s'`. -/
inductive Leads (cfg : LongpollConfig) (s' : TemplateLoop) (isNewBlock : Bool) :
    Wait → Bool → Wait → Prop where
  | poll : Leads cfg s' isNewBlock .poll false (afterRound cfg s' isNewBlock)
  | fallback : Leads cfg s' isNewBlock .fallback false (afterRound cfg s' isNewBlock)
  | longpoll (id : String) :
      Leads cfg s' isNewBlock (.longpoll id) true (afterRound cfg s' isNewBlock)
  | repoll (rest : List ℕ) : Leads cfg s' isNewBlock (.repoll rest) false
      (if isNewBlock || decide (0 < s'.manager.lastBroadcastTxCount) then endOfRound cfg s'
        else nextRepoll cfg s' rest)

/-- Nothing, a template, or a failure or a sleep. -/
inductive Took (sha256d : Bytes → Bytes32) (cfg : LongpollConfig) (s s' : TemplateLoop) :
    LoopEvent → Prop where
  | idle (e : LoopEvent) (disabled : ¬ Enabled s e) (same : s' = s) : Took sha256d cfg s s' e
  | accepted (r : Reply) (i : TemplateInput) (longpolled : Bool) (some : r.template = some i)
      (announcer : s'.announcer = s.announcer.step sha256d i)
      (lags : s'.lagTracker = s.lagTracker.recordAll
        (if longpolled then lagSamples sha256d s.manager r i else []))
      (trace : s'.trace = s.trace ++
        .accepted longpolled (s.manager.processed sha256d i).isNewBlock i :: request s'.wait)
      (leads : Leads cfg s' (s.manager.processed sha256d i).isNewBlock s.wait longpolled s'.wait) :
      Took sha256d cfg s s' (.reply r)
  | moved (e : LoopEvent) (act : Act) (announcer : s'.announcer = s.announcer)
      (lags : s'.lagTracker = s.lagTracker) (trace : s'.trace = s.trace ++ act :: request s'.wait)
      (moves : Moves cfg s' s.wait act s'.wait)
      (none : ∀ r, e = .reply r → r.template = none) : Took sha256d cfg s s' e

theorem note_goto_trace (s : TemplateLoop) (act : Act) (w : Wait) :
    ((s.note act).goto w).trace = s.trace ++ act :: request w := by
  rw [goto, note, List.append_assoc]
  rfl

theorem processTemplate_goto_trace (s : TemplateLoop) (longpolled : Bool) (r : Reply)
    (i : TemplateInput) (w : Wait) : ((s.processTemplate sha256d longpolled r i).goto w).trace
      = s.trace ++ .accepted longpolled (s.manager.processed sha256d i).isNewBlock i :: request w := by
  rw [goto, processTemplate, List.append_assoc]
  rfl

variable (sha256d cfg s) in
theorem took_poll (h : s.wait = .poll ∨ s.wait = .fallback) (r : Reply) :
    Took sha256d cfg s (s.pollReturned sha256d cfg r) (.reply r) := by
  unfold pollReturned
  cases hr : r.template with
  | some i =>
    refine .accepted r i false hr rfl rfl (processTemplate_goto_trace s _ r i _) ?_
    obtain hwait | hwait := h
    · rw [hwait]
      exact .poll
    · rw [hwait]
      exact .fallback
  | none =>
    refine .moved _ .pollFailed rfl rfl (note_goto_trace s _ _) ?_ (fun _ h => by cases h; exact hr)
    obtain hwait | hwait := h
    · rw [hwait]
      exact .poll
    · rw [hwait]
      exact .fallback

variable (sha256d cfg s) in
theorem took_longpoll {id : String} (h : s.wait = .longpoll id) (r : Reply) :
    Took sha256d cfg s (s.longpollReturned sha256d cfg r) (.reply r) := by
  unfold longpollReturned
  cases hr : r.template with
  | some i =>
    refine .accepted r i true hr rfl rfl (processTemplate_goto_trace _ _ r i _) ?_
    rw [h]
    exact .longpoll id
  | none =>
    dsimp only
    split
    all_goals
      refine .moved _ .longpollFailed rfl rfl (note_goto_trace _ _ _) ?_
        (fun _ h => by cases h; exact hr)
      rw [h]
      exact .longpoll id

variable (sha256d cfg s) in
theorem took_repoll {rest : List ℕ} (h : s.wait = .repoll rest) (r : Reply) :
    Took sha256d cfg s (s.repollReturned sha256d cfg rest r) (.reply r) := by
  unfold repollReturned
  cases hr : r.template with
  | some i =>
    refine .accepted r i false hr rfl rfl (processTemplate_goto_trace s _ r i _) ?_
    rw [h]
    exact .repoll rest
  | none =>
    refine .moved _ .pollFailed rfl rfl (note_goto_trace s _ _) ?_ (fun _ h => by cases h; exact hr)
    rw [h]
    cases rest with
    | nil => exact .repoll []
    | cons delay rest => exact .repoll (delay :: rest)

variable (sha256d cfg s) in
/-- **What one event does.** -/
theorem step_took (e : LoopEvent) : Took sha256d cfg s (step sha256d cfg s e) e := by
  cases e with
  | reply r =>
    cases hwait : s.wait with
    | poll =>
      have hstep : step sha256d cfg s (.reply r) = s.pollReturned sha256d cfg r := by
        simp only [step, hwait]
      rw [hstep]
      exact took_poll sha256d cfg s (.inl hwait) r
    | fallback =>
      have hstep : step sha256d cfg s (.reply r) = s.pollReturned sha256d cfg r := by
        simp only [step, hwait]
      rw [hstep]
      exact took_poll sha256d cfg s (.inr hwait) r
    | longpoll id =>
      have hstep : step sha256d cfg s (.reply r) = s.longpollReturned sha256d cfg r := by
        simp only [step, hwait]
      rw [hstep]
      exact took_longpoll sha256d cfg s hwait r
    | repoll rest =>
      have hstep : step sha256d cfg s (.reply r) = s.repollReturned sha256d cfg rest r := by
        simp only [step, hwait]
      rw [hstep]
      exact took_repoll sha256d cfg s hwait r
    | pause =>
      refine .idle _ (by rw [Enabled, hwait]; exact fun h => h rfl) ?_
      simp only [step, hwait]
    | repollPause delay rest =>
      refine .idle _ (by rw [Enabled, hwait]; exact fun h => h rfl) ?_
      simp only [step, hwait]
  | woke =>
    cases hwait : s.wait with
    | pause =>
      have hstep : step sha256d cfg s .woke = (s.note .slept).goto (nextRequest cfg s) := by
        simp only [step, hwait]
      rw [hstep]
      refine .moved _ .slept rfl rfl (note_goto_trace s _ _) ?_ (fun _ h => by cases h)
      rw [hwait]
      exact .pause
    | repollPause delay rest =>
      have hstep : step sha256d cfg s .woke = (s.note .slept).goto (.repoll rest) := by
        simp only [step, hwait]
      rw [hstep]
      refine .moved _ .slept rfl rfl (note_goto_trace s _ _) ?_ (fun _ h => by cases h)
      rw [hwait]
      exact .repollPause delay rest
    | poll | fallback | longpoll id | repoll rest =>
      refine .idle _ (by rw [Enabled, hwait]; exact List.cons_ne_nil _ _) ?_
      simp only [step, hwait]

end

end TemplateLoop

end ZcashMiningPool
