import ZcashMiningPool.PoolCore.TemplateLoop

/-!
# Empty templates

A new tip comes before the node's mempool has caught up with it: the job without transactions that
miners are sent, and what replaces it.

* `scheduleWaits`, `Ends` — the sleeps and requests after an empty new tip, and what ends them.
* `empty_tip_repolled` — the schedule runs to its end unless it is filled or the tip changes.
* `announced_job_current` — the announced job is on the tip of the last template, and has
  transactions when that one had.
-/

set_option autoImplicit false

namespace ZcashMiningPool

open Machine Table

namespace TemplateLoop

section

variable {sha256d : Bytes → Bytes32} {cfg : LongpollConfig} {s s' : TemplateLoop}

/-! ## The re-poll schedule -/

/-- The waits of a schedule, a sleep and a request for each delay. -/
def scheduleWaits : List ℕ → List Wait
  | [] => []
  | delay :: rest => .repollPause delay rest :: .repoll rest :: scheduleWaits rest

/-- A template with transactions, or of another tip. -/
def Ends (s : TemplateLoop) : LoopEvent → Prop
  | .reply r => ∃ i, r.template = some i ∧
      (i.template.transactions ≠ [] ∨ s.manager.lastPrevHash ≠ i.template.previousblockhash)
  | .woke => False

/-- The job that was announced last has no transactions. -/
def Empty (s : TemplateLoop) : Prop := s.manager.lastBroadcastTxCount = 0

/-- Another empty template of the tip leaves an empty job. -/
theorem empty_of_empty {i : TemplateInput} (h : s.Empty) (htxs : i.template.transactions = [])
    (hs' : s'.announcer = s.announcer.step sha256d i) : s'.Empty := by
  have hmanager : s'.manager = (s.manager.processed sha256d i).manager := congrArg _ hs'
  have hcount : i.template.transactions.length = 0 := by
    rw [htxs]
    rfl
  unfold Empty at h ⊢
  rw [hmanager]
  cases s.manager.processed_outcome sha256d i with
  | quiet old isNew filled none same => rw [same]; exact h
  | refresh job upgrade old isNew due empty one tip stamp announced =>
    exact announced.count.trans hcount
  | newTip early job new isNew few all tip stamp announced => exact announced.count.trans hcount

/-- The tip stays, so the template is not a new block. -/
theorem isNewBlock_eq_false {i : TemplateInput}
    (h : s.manager.lastPrevHash = i.template.previousblockhash) :
    (s.manager.processed sha256d i).isNewBlock = false := by
  cases s.manager.processed_outcome sha256d i with
  | quiet old isNew => exact isNew
  | refresh job upgrade old isNew => exact isNew
  | newTip early job new => exact absurd h new

theorem isNewBlock_eq_true {i : TemplateInput}
    (h : s.manager.lastPrevHash ≠ i.template.previousblockhash) :
    (s.manager.processed sha256d i).isNewBlock = true := by
  cases s.manager.processed_outcome sha256d i with
  | quiet old => exact absurd old h
  | refresh job upgrade old => exact absurd old h
  | newTip early job new isNew => exact isNew

variable (sha256d cfg) in
/-- A sleep of the schedule leads to its request. -/
theorem step_repollPause {delay : ℕ} {rest : List ℕ} {e : LoopEvent}
    (hwait : s.wait = .repollPause delay rest) (he : Enabled s e) :
    (step sha256d cfg s e).wait = .repoll rest ∧
      (step sha256d cfg s e).announcer = s.announcer := by
  cases step_took sha256d cfg s e with
  | idle _ disabled same => exact absurd he disabled
  | accepted r i longpolled some announcer lags trace leads =>
    rw [hwait] at leads
    cases leads
  | moved _ act announcer lags trace moves none =>
    rw [hwait] at moves
    generalize hw : (step sha256d cfg s e).wait = w at moves
    cases moves with
    | repollPause => exact ⟨rfl, announcer⟩

/-- A request of the schedule leads on, unless its answer ends it. -/
theorem step_repoll {rest : List ℕ} {e : LoopEvent} (hwait : s.wait = .repoll rest)
    (hempty : s.Empty) (he : Enabled s e) (hends : ¬ Ends s e) :
    (step sha256d cfg s e).wait = nextRepoll cfg (step sha256d cfg s e) rest ∧
      (step sha256d cfg s e).Empty := by
  cases step_took sha256d cfg s e with
  | idle _ disabled same => exact absurd he disabled
  | accepted r i longpolled some announcer lags trace leads =>
    have hsame : i.template.transactions = [] ∧
        s.manager.lastPrevHash = i.template.previousblockhash := by
      constructor
      · by_contra h
        exact hends ⟨i, some, .inl h⟩
      · by_contra h
        exact hends ⟨i, some, .inr h⟩
    have hempty' := empty_of_empty hempty hsame.1 announcer
    rw [hwait] at leads
    refine ⟨?_, hempty'⟩
    generalize hw : (step sha256d cfg s (.reply r)).wait = w at leads
    cases leads with
    | repoll =>
      rw [isNewBlock_eq_false hsame.2, hempty']
      rfl
  | moved _ act announcer lags trace moves none =>
    rw [hwait] at moves
    generalize hw : (step sha256d cfg s e).wait = w at moves
    cases moves with
    | repoll =>
      refine ⟨rfl, ?_⟩
      unfold Empty manager
      rw [announcer]
      exact hempty

/-- From a sleep of the schedule on, the loop is where the number of events puts it. -/
theorem schedule_run (l : List ℕ) {es : List LoopEvent} (hwait : s.wait = nextRepoll cfg s l)
    (hempty : s.Empty) (henabled : Allowed (step sha256d cfg) Enabled s es)
    (hends : Allowed (step sha256d cfg) (fun s e => ¬ Ends s e) s es)
    (hlen : es.length ≤ 2 * l.length) :
    (run (step sha256d cfg) s es).wait
        = ((scheduleWaits l)[es.length]?).getD (endOfRound cfg (run (step sha256d cfg) s es)) ∧
      (run (step sha256d cfg) s es).Empty := by
  induction l generalizing s es with
  | nil =>
    obtain rfl : es = [] := List.length_eq_zero_iff.1 (by simpa using hlen)
    exact ⟨hwait, hempty⟩
  | cons delay rest ih =>
    match es with
    | [] => exact ⟨hwait, hempty⟩
    | e :: es =>
      obtain ⟨hwait₁, hsame⟩ := step_repollPause sha256d cfg hwait henabled.1
      have hempty₁ : (step sha256d cfg s e).Empty := by
        unfold Empty manager
        rw [hsame]
        exact hempty
      match es with
      | [] => exact ⟨hwait₁, hempty₁⟩
      | e' :: es =>
        obtain ⟨hwait₂, hempty₂⟩ := step_repoll hwait₁ hempty₁ henabled.2.1 hends.2.1
        rw [List.length_cons, List.length_cons, List.length_cons] at hlen
        exact ih hwait₂ hempty₂ henabled.2.2 hends.2.2 (by omega)

/-- What ends the schedule at one of its requests, ends it at once; transactions for the same tip
    are announced clean. -/
theorem repoll_ends {rest : List ℕ} {r : Reply} {i : TemplateInput} (hwait : s.wait = .repoll rest)
    (hempty : s.Empty) (hr : r.template = some i)
    (hends : i.template.transactions ≠ [] ∨
      s.manager.lastPrevHash ≠ i.template.previousblockhash) :
    (step sha256d cfg s (.reply r)).wait = endOfRound cfg (step sha256d cfg s (.reply r)) ∧
      (s.manager.lastPrevHash = i.template.previousblockhash → ∃ job,
        JobManager.Announced (step sha256d cfg s (.reply r)).manager job true
            i.template.transactions.length ∧
          (step sha256d cfg s (.reply r)).announcer.log
            = s.announcer.log ++ [.sent (job.toNotify true)]) := by
  cases step_took sha256d cfg s (.reply r) with
  | idle _ disabled same =>
    refine absurd ?_ disabled
    rw [Enabled, hwait]
    exact List.cons_ne_nil _ _
  | moved _ act announcer lags trace moves none =>
    rw [none r rfl] at hr
    cases hr
  | accepted r i' longpolled some announcer lags trace leads =>
    obtain rfl : i' = i := Option.some.inj (some.symm.trans hr)
    have hmanager : (step sha256d cfg s (.reply r)).manager
        = (s.manager.processed sha256d i').manager := congrArg Announcer.manager announcer
    rw [hwait] at leads
    generalize hw : (step sha256d cfg s (.reply r)).wait = w at leads
    cases leads with
    | repoll =>
      cases s.manager.processed_outcome sha256d i' with
      | quiet old isNew filled none same =>
        obtain h | h := hends
        · exact absurd hempty (filled.resolve_left h)
        · exact absurd old h
      | newTip early job new isNew few all tip stamp announced =>
        rw [isNew]
        exact ⟨rfl, fun old => absurd old new⟩
      | refresh job upgrade old isNew due empty one tip stamp announced =>
        have htxs : i'.template.transactions ≠ [] := hends.resolve_right fun h => h old
        obtain rfl : upgrade = true := empty.2 ⟨htxs, hempty⟩
        have hcount : 0 < (step sha256d cfg s (.reply r)).manager.lastBroadcastTxCount := by
          rw [hmanager, announced.count]
          exact List.length_pos_iff.2 htxs
        rw [isNew, decide_eq_true hcount]
        refine ⟨rfl, fun _ => ⟨job, hmanager ▸ announced, ?_⟩⟩
        have hlog : (step sha256d cfg s (.reply r)).announcer.log = s.announcer.log ++
            (if s.manager.lastPrevHash = i'.template.previousblockhash then []
              else [.tip i'.template.previousblockhash]) ++
            (s.manager.processed sha256d i').broadcasts.map (fun b => .sent (b.1.toNotify b.2)) :=
          congrArg Announcer.log announcer
        rw [hlog, if_pos old, one, List.append_nil]
        rfl

theorem repoll_of_request {l : List ℕ} {w : Wait} (h : w ∈ scheduleWaits l) (hw : request w ≠ []) :
    ∃ rest, w = .repoll rest := by
  induction l with
  | nil => cases h
  | cons delay rest ih =>
    obtain rfl | h := List.mem_cons.1 h
    · exact absurd rfl hw
    · obtain rfl | h := List.mem_cons.1 h
      · exact ⟨rest, rfl⟩
      · exact ih h

variable (sha256d cfg) in
/-- An empty new tip that is found outside the schedule starts it. -/
theorem step_empty_tip {r : Reply} {i : TemplateInput}
    (hwait : s.wait = .poll ∨ s.wait = .fallback ∨ ∃ id, s.wait = .longpoll id)
    (hr : r.template = some i) (hnew : s.manager.lastPrevHash ≠ i.template.previousblockhash)
    (htxs : i.template.transactions = []) :
    (step sha256d cfg s (.reply r)).wait
        = nextRepoll cfg (step sha256d cfg s (.reply r)) emptyTemplateRepollDelaysMs ∧
      (step sha256d cfg s (.reply r)).Empty := by
  have hasked : Enabled s (.reply r) := by
    rw [Enabled]
    obtain h | h | ⟨id, h⟩ := hwait <;> rw [h] <;> exact List.cons_ne_nil _ _
  cases step_took sha256d cfg s (.reply r) with
  | idle _ disabled same => exact absurd hasked disabled
  | moved _ act announcer lags trace moves none =>
    rw [none r rfl] at hr
    cases hr
  | accepted r i' longpolled some announcer lags trace leads =>
    obtain rfl : i' = i := Option.some.inj (some.symm.trans hr)
    have hempty : (step sha256d cfg s (.reply r)).Empty := by
      have hmanager : (step sha256d cfg s (.reply r)).manager
          = (s.manager.processed sha256d i').manager := congrArg Announcer.manager announcer
      unfold Empty
      rw [hmanager]
      cases s.manager.processed_outcome sha256d i' with
      | quiet old => exact absurd old hnew
      | refresh job upgrade old => exact absurd old hnew
      | newTip early job new isNew few all tip stamp announced =>
        rw [announced.count, htxs]
        rfl
    have hround : (step sha256d cfg s (.reply r)).wait
        = afterRound cfg (step sha256d cfg s (.reply r))
            (s.manager.processed sha256d i').isNewBlock := by
      generalize hw : (step sha256d cfg s (.reply r)).wait = w at leads
      obtain h | h | ⟨id, h⟩ := hwait
      all_goals
        rw [h] at leads
        cases leads
        rfl
    refine ⟨?_, hempty⟩
    unfold Empty at hempty
    rw [hround, isNewBlock_eq_true hnew, afterRound, hempty]
    rfl

end

/-- **The re-poll schedule.**  After a new tip without transactions, found outside the schedule,
    the loop sleeps and asks four times, whatever fails, until an answer has transactions or another
    tip; that answer ends the schedule, and transactions for the tip are announced clean at once. -/
theorem empty_tip_repolled (sha256d : Bytes → Bytes32) (cfg : LongpollConfig) (s : TemplateLoop)
    (r : Reply) (i : TemplateInput) (es : List LoopEvent)
    (hwait : s.wait = .poll ∨ s.wait = .fallback ∨ ∃ id, s.wait = .longpoll id)
    (hr : r.template = some i) (hnew : s.manager.lastPrevHash ≠ i.template.previousblockhash)
    (htxs : i.template.transactions = [])
    (henabled : Allowed (step sha256d cfg) Enabled (step sha256d cfg s (.reply r)) es)
    (hends : Allowed (step sha256d cfg) (fun s e => ¬ Ends s e) (step sha256d cfg s (.reply r)) es)
    (hlen : es.length ≤ 8) :
    let s₁ := run (step sha256d cfg) s (.reply r :: es)
    s₁.wait = ((scheduleWaits emptyTemplateRepollDelaysMs)[es.length]?).getD (endOfRound cfg s₁) ∧
      s₁.manager.lastBroadcastTxCount = 0 ∧
      ∀ (r' : Reply) (i' : TemplateInput), es.length < 8 → Enabled s₁ (.reply r') →
        r'.template = some i' → Ends s₁ (.reply r') →
        (step sha256d cfg s₁ (.reply r')).wait
            = endOfRound cfg (step sha256d cfg s₁ (.reply r')) ∧
          (s₁.manager.lastPrevHash = i'.template.previousblockhash → ∃ job,
            JobManager.Announced (step sha256d cfg s₁ (.reply r')).manager job true
                i'.template.transactions.length ∧
              (step sha256d cfg s₁ (.reply r')).announcer.log
                = s₁.announcer.log ++ [.sent (job.toNotify true)]) := by
  intro s₁
  obtain ⟨hwait₀, hempty₀⟩ := step_empty_tip sha256d cfg hwait hr hnew htxs
  obtain ⟨hwait₁, hempty₁⟩ := schedule_run emptyTemplateRepollDelaysMs hwait₀ hempty₀ henabled hends
    hlen
  refine ⟨hwait₁, hempty₁, fun r' i' hlt hasked hr' hends' => ?_⟩
  have hmem : s₁.wait ∈ scheduleWaits emptyTemplateRepollDelaysMs := by
    have hin : es.length < (scheduleWaits emptyTemplateRepollDelaysMs).length := hlt
    have hget := List.getElem?_eq_getElem hin
    rw [hget, Option.getD_some] at hwait₁
    show (run (step sha256d cfg) (step sha256d cfg s (.reply r)) es).wait ∈ _
    rw [hwait₁]
    exact List.getElem_mem hin
  obtain ⟨rest, hrest⟩ := repoll_of_request hmem hasked
  obtain ⟨i'', hsome, hwhy⟩ := hends'
  obtain rfl : i'' = i' := Option.some.inj (hsome.symm.trans hr')
  exact repoll_ends hrest hempty₁ hr' hwhy

/-! ## The announced job -/

section

variable {sha256d : Bytes → Bytes32} {cfg : LongpollConfig} {s s' : TemplateLoop}

def fetchedBy : Act → Option TemplateInput
  | .accepted _ _ i => some i
  | _ => none

/-- The template that was fetched last. -/
def lastFetched (s : TemplateLoop) : Option TemplateInput :=
  (s.trace.filterMap fetchedBy).getLast?

theorem filterMap_request (w : Wait) : (request w).filterMap fetchedBy = [] := by
  cases w <;> rfl

theorem lastFetched_accepted {longpolled isNewBlock : Bool} {i : TemplateInput} {w : Wait}
    (h : s'.trace = s.trace ++ .accepted longpolled isNewBlock i :: request w) :
    lastFetched s' = some i := by
  unfold lastFetched
  rw [h, List.filterMap_append]
  simp only [List.filterMap_cons, fetchedBy, filterMap_request]
  exact List.getLast?_concat

theorem lastFetched_moved {act : Act} {w : Wait} (hact : fetchedBy act = none)
    (h : s'.trace = s.trace ++ act :: request w) : lastFetched s' = lastFetched s := by
  unfold lastFetched
  rw [h, List.filterMap_append, List.filterMap_cons_none hact, filterMap_request, List.append_nil]

theorem fetchedBy_moves {w w' : Wait} {act : Act} (h : Moves cfg s w act w') :
    fetchedBy act = none := by
  cases h <;> rfl

/-- The announced job follows the last template. -/
structure Current (s : TemplateLoop) : Prop where
  announced : s.manager.lastPrevHash ≠ "" →
    ∃ job cleanJobs, s.manager.Announced job cleanJobs s.manager.lastBroadcastTxCount
  fetched : ∀ i, lastFetched s = some i → s.manager.lastPrevHash = i.template.previousblockhash ∧
    (i.template.transactions ≠ [] → 0 < s.manager.lastBroadcastTxCount)

theorem current_start (coinbaseTag : Option Bytes) (now : ℚ) : Current (start coinbaseTag now) :=
  ⟨fun h => absurd rfl h, fun _ h => by cases h⟩

theorem Current.step (h : Current s) (e : LoopEvent) : Current (step sha256d cfg s e) := by
  cases step_took sha256d cfg s e with
  | idle _ disabled same =>
    rw [same]
    exact h
  | moved _ act announcer lags trace moves none =>
    have hmanager : (TemplateLoop.step sha256d cfg s e).manager = s.manager :=
      congrArg Announcer.manager announcer
    refine ⟨?_, fun i hi => ?_⟩
    · rw [hmanager]
      exact h.announced
    · rw [lastFetched_moved (fetchedBy_moves moves) trace] at hi
      rw [hmanager]
      exact h.fetched i hi
  | accepted r i longpolled some announcer lags trace leads =>
    have hmanager : (TemplateLoop.step sha256d cfg s (.reply r)).manager
        = (s.manager.processed sha256d i).manager := congrArg Announcer.manager announcer
    have hlast : ∀ i', lastFetched (TemplateLoop.step sha256d cfg s (.reply r)) = Option.some i' →
        i' = i := fun i' hi' => by
      rw [lastFetched_accepted trace] at hi'
      exact (Option.some.inj hi').symm
    cases s.manager.processed_outcome sha256d i with
    | quiet old isNew filled none same =>
      refine ⟨fun hne => ?_, fun i' hi' => ?_⟩
      · rw [hmanager, same] at hne ⊢
        obtain ⟨job, cleanJobs, hann⟩ := h.announced hne
        exact ⟨job, cleanJobs, hann.notify, hann.cached, hann.tip, hann.transactions, hann.count⟩
      · obtain rfl := hlast i' hi'
        rw [hmanager, same]
        refine ⟨old, fun htxs => ?_⟩
        exact Nat.pos_of_ne_zero (filled.resolve_left htxs)
    | refresh job upgrade old isNew due empty one tip stamp announced =>
      refine ⟨fun _ => ⟨job, upgrade, ?_⟩, fun i' hi' => ?_⟩
      · rw [hmanager, announced.count]
        exact announced
      · obtain rfl := hlast i' hi'
        rw [hmanager, tip, announced.count]
        exact ⟨old, List.length_pos_iff.2⟩
    | newTip early job new isNew few all tip stamp announced =>
      refine ⟨fun _ => ⟨job, !i.template.transactions.isEmpty, ?_⟩, fun i' hi' => ?_⟩
      · rw [hmanager, announced.count]
        exact announced
      · obtain rfl := hlast i' hi'
        rw [hmanager, tip, announced.count]
        exact ⟨rfl, List.length_pos_iff.2⟩

theorem Current.run (h : Current s) (es : List LoopEvent) :
    Current (run (TemplateLoop.step sha256d cfg) s es) := by
  induction es generalizing s with
  | nil => exact h
  | cons e es ih => exact ih (h.step e)

end

/-- **The announced job is current.**  Whatever requests fail, the job that miners were sent last is
    cached and on the tip of the template that was fetched last, and it has transactions when that
    template had some. -/
theorem announced_job_current (sha256d : Bytes → Bytes32) (cfg : LongpollConfig)
    (coinbaseTag : Option Bytes) (now : ℚ) (es : List LoopEvent) (i : TemplateInput)
    (hfetched : lastFetched (run (step sha256d cfg) (start coinbaseTag now) es) = some i)
    (htip : i.template.previousblockhash ≠ "") :
    ∃ job cleanJobs,
      (run (step sha256d cfg) (start coinbaseTag now) es).manager.latestNotify
          = some (job.toNotify cleanJobs) ∧
        (run (step sha256d cfg) (start coinbaseTag now) es).manager.jobs.get? job.jobId = some job ∧
        job.prevHashHex = reverseHex i.template.previousblockhash ∧
        (i.template.transactions ≠ [] → job.template.transactions ≠ []) := by
  have hcurrent : Current (run (step sha256d cfg) (start coinbaseTag now) es) :=
    (current_start coinbaseTag now).run es
  obtain ⟨hprev, htxs⟩ := hcurrent.fetched i hfetched
  obtain ⟨job, cleanJobs, hann⟩ := hcurrent.announced (by rw [hprev]; exact htip)
  refine ⟨job, cleanJobs, hann.notify, hann.cached, hprev ▸ hann.tip, fun h => ?_⟩
  have hpos := htxs h
  rw [← hann.transactions] at hpos
  exact List.length_pos_iff.1 hpos

/-! ## An empty tip and a failed re-poll -/

/-- A new tip without transactions. -/
def sampleReply : Reply := ⟨some (tipInput "00"), 1, 0, (0, 0), (0, 0)⟩

/-- A request that failed. -/
def sampleFailure : Reply := ⟨none, 0, 0, (0, 0), (0, 0)⟩

def sampleConfig : LongpollConfig := ⟨true, 60⟩

theorem sample_repolled :
    (run (step sampleCoinbasePrims.sha256d sampleConfig) (start none 0)
      [.reply sampleReply, .woke, .reply sampleFailure]).wait = .repollPause 200 [400, 800] := by
  have hschedule := empty_tip_repolled sampleCoinbasePrims.sha256d sampleConfig (start none 0)
    sampleReply (tipInput "00") [.woke, .reply sampleFailure] (.inl rfl) rfl (by decide) rfl
    ⟨rfl, List.cons_ne_nil _ _, trivial⟩
    ⟨id, (by rintro ⟨i, h, -⟩; cases h), trivial⟩ (by decide)
  exact hschedule.1

theorem sample_current :
    ∃ (job : MiningJob) (cleanJobs : Bool),
      (run (step sampleCoinbasePrims.sha256d sampleConfig) (start none 0)
        [.reply sampleReply]).manager.latestNotify = some (job.toNotify cleanJobs) ∧
      job.prevHashHex = reverseHex "00" := by
  obtain ⟨job, cleanJobs, hnotify, -, htip, -⟩ := announced_job_current sampleCoinbasePrims.sha256d
    sampleConfig none 0 [.reply sampleReply] (tipInput "00") rfl (by decide)
  exact ⟨job, cleanJobs, hnotify, htip⟩

end TemplateLoop

end ZcashMiningPool
