import ZcashMiningPool.PoolCore.Repolling

/-!
# What the template loop costs

Announcements and requests of a run, and the lag samples it leaves.

* `announcements_paced` — announcements against new tips and elapsed time.
* `requests_paced` — polls and long polls against sleeps, failures and fetched templates.
* `lag_figures` — what the lag tracker shows of the run.
-/

set_option autoImplicit false

namespace ZcashMiningPool

open Machine Table

namespace TemplateLoop

def isTip : LogEntry → Bool
  | .tip _ => true
  | .sent _ => false

def isSent : LogEntry → Bool
  | .tip _ => false
  | .sent _ => true

def polls (s : TemplateLoop) : ℕ := s.trace.countP fun act => act matches .polled
def longpolls (s : TemplateLoop) : ℕ := s.trace.countP fun act => act matches .longpolled
def longpollFailures (s : TemplateLoop) : ℕ := s.trace.countP fun act => act matches .longpollFailed
def sleeps (s : TemplateLoop) : ℕ := s.trace.countP fun act => act matches .slept
def fetches (s : TemplateLoop) : ℕ := s.trace.countP fun act => act matches .accepted _ _ _

section

variable {sha256d : Bytes → Bytes32} {cfg : LongpollConfig} {s s' : TemplateLoop}

/-- The empty job that an upgrade may still replace counts for one more announcement. -/
def owed (m : JobManager) : ℕ := if m.lastBroadcastTxCount = 0 then 1 else 0

theorem owed_le (m : JobManager) : owed m ≤ 1 := by
  unfold owed
  split <;> omega

/-- After `refreshes` throttled refreshes since `t₀`. -/
structure PacedBy (t₀ : ℚ) (s : Announcer) (refreshes : ℕ) : Prop where
  sent : s.log.countP isSent + owed s.manager ≤ 1 + 3 * s.log.countP isTip + 2 * refreshes
  time : (5 : ℚ) * refreshes ≤ s.manager.lastNonCleanBroadcast - t₀

theorem countP_sent (bs : List (MiningJob × Bool)) :
    (bs.map fun b => LogEntry.sent (b.1.toNotify b.2)).countP isSent = bs.length ∧
      (bs.map fun b => LogEntry.sent (b.1.toNotify b.2)).countP isTip = 0 := by
  constructor
  · rw [List.countP_map]
    exact List.countP_eq_length.2 fun b _ => rfl
  · rw [List.countP_map]
    exact List.countP_eq_zero.2 fun b _ => Bool.false_ne_true

variable (sha256d) in
/-- One template is announced at most twice, and once more when it leaves an empty job. -/
theorem PacedBy.step {t₀ : ℚ} {a : Announcer} {k : ℕ} (h : PacedBy t₀ a k) {i : TemplateInput}
    (hclock : a.manager.lastNonCleanBroadcast ≤ i.now) :
    ∃ k', PacedBy t₀ (a.step sha256d i) k' := by
  obtain ⟨hsent, htime⟩ := h
  have hmanager : (a.step sha256d i).manager = (a.manager.processed sha256d i).manager := rfl
  have hlog : (a.step sha256d i).log = a.log ++
      (if a.manager.lastPrevHash = i.template.previousblockhash then []
        else [.tip i.template.previousblockhash]) ++
      (a.manager.processed sha256d i).broadcasts.map (fun b => .sent (b.1.toNotify b.2)) := rfl
  obtain ⟨hcount, hcount'⟩ := countP_sent (a.manager.processed sha256d i).broadcasts
  cases a.manager.processed_outcome sha256d i with
  | quiet old isNew filled none same =>
    refine ⟨k, ?_, ?_⟩
    · rw [hlog, if_pos old, none, List.append_nil, List.map_nil, List.append_nil, hmanager, same]
      exact hsent
    · rw [hmanager, same]
      exact htime
  | refresh job upgrade old isNew due empty one tip stamp announced =>
    have hlen : (a.step sha256d i).log.countP isSent = a.log.countP isSent + 1 ∧
        (a.step sha256d i).log.countP isTip = a.log.countP isTip := by
      rw [hlog, if_pos old, List.append_nil, List.countP_append, List.countP_append, hcount, hcount',
        one]
      exact ⟨rfl, rfl⟩
    cases upgrade with
    | true =>
      obtain ⟨htxs, hzero⟩ := empty.1 rfl
      have howed : owed a.manager = 1 := if_pos hzero
      have hpaid : owed (a.step sha256d i).manager = 0 := by
        rw [owed, hmanager, announced.count, if_neg]
        exact fun h => htxs (List.length_eq_zero_iff.1 h)
      refine ⟨k, ?_, ?_⟩
      · rw [hlen.1, hlen.2, hpaid]
        omega
      · rw [hmanager, stamp]
        linarith
    | false =>
      have hdue := due rfl
      have howed := owed_le (a.step sha256d i).manager
      refine ⟨k + 1, ?_, ?_⟩
      · rw [hlen.1, hlen.2]
        omega
      · rw [hmanager, stamp]
        push_cast
        linarith
  | newTip early job new isNew few all tip stamp announced =>
    have hlen : (a.step sha256d i).log.countP isSent = a.log.countP isSent + (early.length + 1) ∧
        (a.step sha256d i).log.countP isTip = a.log.countP isTip + 1 := by
      rw [hlog, if_neg new, List.countP_append, List.countP_append, List.countP_append,
        List.countP_append, hcount, hcount', all, List.length_append, List.length_map]
      exact ⟨rfl, rfl⟩
    have howed := owed_le (a.step sha256d i).manager
    refine ⟨k, ?_, ?_⟩
    · rw [hlen.1, hlen.2]
      omega
    · rw [hmanager, stamp]
      exact htime

/-- The clock does not run back, and stays below `deadline`. -/
def Clocked (deadline : ℚ) (s : TemplateLoop) (e : LoopEvent) : Prop :=
  ∀ r i, e = .reply r → r.template = some i →
    s.manager.lastNonCleanBroadcast ≤ i.now ∧ i.now ≤ deadline

theorem lastNonCleanBroadcast_le {deadline : ℚ} {m : JobManager} {i : TemplateInput}
    (hlast : m.lastNonCleanBroadcast ≤ deadline) (hnow : i.now ≤ deadline) :
    (m.processed sha256d i).manager.lastNonCleanBroadcast ≤ deadline := by
  cases m.processed_outcome sha256d i with
  | quiet old isNew filled none same =>
    rw [same]
    exact hlast
  | refresh job upgrade old isNew due empty one tip stamp announced =>
    rw [stamp]
    exact hnow
  | newTip early job new isNew few all tip stamp announced =>
    rw [stamp]
    exact hlast

theorem pacedBy_run {t₀ deadline : ℚ} {k : ℕ} {es : List LoopEvent}
    (h : PacedBy t₀ s.announcer k) (hlast : s.manager.lastNonCleanBroadcast ≤ deadline)
    (hclock : Allowed (step sha256d cfg) (Clocked deadline) s es) :
    ∃ k', PacedBy t₀ (run (step sha256d cfg) s es).announcer k' ∧
      (run (step sha256d cfg) s es).manager.lastNonCleanBroadcast ≤ deadline := by
  induction es generalizing s k with
  | nil => exact ⟨k, h, hlast⟩
  | cons e es ih =>
    have hstep : ∃ k', PacedBy t₀ (step sha256d cfg s e).announcer k' ∧
        (step sha256d cfg s e).manager.lastNonCleanBroadcast ≤ deadline := by
      cases step_took sha256d cfg s e with
      | idle _ disabled same =>
        rw [same]
        exact ⟨k, h, hlast⟩
      | moved _ act announcer lags trace moves none =>
        rw [manager, announcer]
        exact ⟨k, h, hlast⟩
      | accepted r i longpolled some announcer lags trace leads =>
        obtain ⟨hmono, hnow⟩ := hclock.1 r i rfl some
        obtain ⟨k', hk'⟩ := h.step sha256d hmono
        rw [manager, announcer]
        exact ⟨k', hk', lastNonCleanBroadcast_le hlast hnow⟩
    obtain ⟨k', hk', hlast'⟩ := hstep
    exact ih hk' hlast' hclock.2

theorem endOfRound_cases (cfg : LongpollConfig) (s : TemplateLoop) :
    endOfRound cfg s = .pause ∨ ∃ id, endOfRound cfg s = .longpoll id := by
  unfold endOfRound nextRequest
  cases cfg.enabled with
  | false => exact .inl rfl
  | true =>
    cases s.manager.lastLongpollid with
    | none => exact .inl rfl
    | some id => exact .inr ⟨id, rfl⟩

theorem nextRepoll_cases (cfg : LongpollConfig) (s : TemplateLoop) (l : List ℕ) :
    nextRepoll cfg s l = .pause ∨ (∃ id, nextRepoll cfg s l = .longpoll id) ∨
      ∃ delay rest, nextRepoll cfg s l = .repollPause delay rest := by
  cases l with
  | nil => exact (endOfRound_cases cfg s).imp_right .inl
  | cons delay rest => exact .inr (.inr ⟨delay, rest, rfl⟩)

/-- With a template in hand the loop sleeps or long polls. -/
theorem leads_cases {isNewBlock longpolled : Bool} {w w' : Wait}
    (h : Leads cfg s' isNewBlock w longpolled w') :
    w' = .pause ∨ (∃ id, w' = .longpoll id) ∨ ∃ delay rest, w' = .repollPause delay rest := by
  have hround : ∀ b, afterRound cfg s' b = .pause ∨ (∃ id, afterRound cfg s' b = .longpoll id) ∨
      ∃ delay rest, afterRound cfg s' b = .repollPause delay rest := fun b => by
    unfold afterRound
    split
    · exact nextRepoll_cases cfg s' _
    · exact (endOfRound_cases cfg s').imp_right .inl
  cases h with
  | poll => exact hround isNewBlock
  | fallback => exact hround isNewBlock
  | longpoll id => exact hround isNewBlock
  | repoll rest =>
    split
    · exact (endOfRound_cases cfg s').imp_right .inl
    · exact nextRepoll_cases cfg s' rest

def isRepoll : Wait → ℕ
  | .repoll _ => 1
  | _ => 0

/-- Requests against sleeps, failed long polls and fetched templates; the sleep before a re-poll is
    still to be spent. -/
structure Asked (s : TemplateLoop) : Prop where
  polls : polls s ≤ 1 + sleeps s + longpollFailures s
  longpolls : longpolls s + isRepoll s.wait ≤ fetches s + sleeps s

theorem asked_start (coinbaseTag : Option Bytes) (now : ℚ) : Asked (start coinbaseTag now) :=
  ⟨Nat.le_refl 1, Nat.zero_le _⟩

/-- What one entry and the request after it count for. -/
theorem counts_append {act : Act} {w : Wait} (h : s'.trace = s.trace ++ act :: request w) :
    polls s' = polls s + (act :: request w).countP (fun act => act matches .polled) ∧
      longpolls s' = longpolls s + (act :: request w).countP (fun act => act matches .longpolled) ∧
      longpollFailures s' = longpollFailures s
        + (act :: request w).countP (fun act => act matches .longpollFailed) ∧
      sleeps s' = sleeps s + (act :: request w).countP (fun act => act matches .slept) ∧
      fetches s' = fetches s
        + (act :: request w).countP (fun act => act matches .accepted _ _ _) := by
  unfold polls longpolls longpollFailures sleeps fetches
  rw [h]
  simp only [List.countP_append, and_self]

theorem Asked.step (h : Asked s) (e : LoopEvent) : Asked (step sha256d cfg s e) := by
  obtain ⟨hpolls, hlongpolls⟩ := h
  cases step_took sha256d cfg s e with
  | idle _ disabled same =>
    rw [same]
    exact ⟨hpolls, hlongpolls⟩
  | accepted r i longpolled some announcer lags trace leads =>
    obtain ⟨hp, hl, hf, hs, ha⟩ := counts_append trace
    refine ⟨?_, ?_⟩
    · rw [hp, hf, hs]
      obtain hw | ⟨id, hw⟩ | ⟨delay, rest, hw⟩ := leads_cases leads
      all_goals
        rw [hw]
        exact hpolls
    · rw [hl, ha, hs]
      obtain hw | ⟨id, hw⟩ | ⟨delay, rest, hw⟩ := leads_cases leads
      all_goals
        rw [hw]
        simp only [request, isRepoll, List.countP_cons, List.countP_nil]
        simp
        omega
  | moved _ act announcer lags trace moves none =>
    obtain ⟨hp, hl, hf, hs, ha⟩ := counts_append trace
    have hrequest : nextRequest cfg (TemplateLoop.step sha256d cfg s e) = .poll ∨
        ∃ id, nextRequest cfg (TemplateLoop.step sha256d cfg s e) = .longpoll id := by
      unfold nextRequest
      split
      · next id hid => exact .inr ⟨id, rfl⟩
      · exact .inl rfl
    suffices hall : ∀ w w', Moves cfg (TemplateLoop.step sha256d cfg s e) w act w' →
        (act :: request w').countP (fun act => act matches .polled)
          ≤ (act :: request w').countP (fun act => act matches .slept)
            + (act :: request w').countP (fun act => act matches .longpollFailed) ∧
        (act :: request w').countP (fun act => act matches .longpolled) + isRepoll w'
          ≤ isRepoll w + (act :: request w').countP (fun act => act matches .slept) by
      obtain ⟨hmore, hmore'⟩ := hall _ _ moves
      refine ⟨?_, ?_⟩
      · rw [hp, hf, hs]
        omega
      · rw [hl, ha, hs]
        omega
    intro w w' hmoves
    cases hmoves with
    | poll => exact ⟨Nat.zero_le _, Nat.zero_le _⟩
    | fallback => exact ⟨Nat.zero_le _, Nat.zero_le _⟩
    | longpoll id => exact ⟨le_rfl, Nat.zero_le _⟩
    | repollPause delay rest => exact ⟨le_rfl, le_rfl⟩
    | repoll rest =>
      obtain hw | ⟨id, hw⟩ | ⟨delay, rest', hw⟩ :=
        nextRepoll_cases cfg (TemplateLoop.step sha256d cfg s e) rest
      · rw [hw]
        exact ⟨Nat.zero_le _, Nat.zero_le _⟩
      · rw [hw]
        exact ⟨Nat.zero_le _, le_rfl⟩
      · rw [hw]
        exact ⟨Nat.zero_le _, Nat.zero_le _⟩
    | pause =>
      obtain hw | ⟨id, hw⟩ := hrequest
      · rw [hw]
        exact ⟨le_rfl, Nat.zero_le _⟩
      · rw [hw]
        exact ⟨Nat.zero_le _, le_rfl⟩

theorem Asked.run (h : Asked s) (es : List LoopEvent) :
    Asked (run (TemplateLoop.step sha256d cfg) s es) := by
  induction es generalizing s with
  | nil => exact h
  | cons e es ih => exact ih (h.step e)

end

/-- **What the miners are sent.**  A new tip is announced at most three times; besides, at most two
    announcements go out for every five seconds, whatever the node answers. -/
theorem announcements_paced (sha256d : Bytes → Bytes32) (cfg : LongpollConfig)
    (coinbaseTag : Option Bytes) (t₀ deadline : ℚ) (es : List LoopEvent) (ht : t₀ ≤ deadline)
    (hclock : Allowed (step sha256d cfg) (Clocked deadline) (start coinbaseTag t₀) es) :
    let log := (run (step sha256d cfg) (start coinbaseTag t₀) es).announcer.log
    (log.countP isSent : ℚ) ≤ 1 + 3 * log.countP isTip + 2 * ((deadline - t₀) / 5) := by
  intro log
  have hstart : PacedBy t₀ (start coinbaseTag t₀).announcer 0 :=
    ⟨Nat.le_refl 1, by rw [start, Announcer.start, JobManager.new]; norm_num⟩
  obtain ⟨k, hk, hlast⟩ := pacedBy_run hstart ht hclock
  have hsent : log.countP isSent ≤ 1 + 3 * log.countP isTip + 2 * k :=
    (Nat.le_add_right _ _).trans hk.sent
  have hcast : (log.countP isSent : ℚ) ≤ 1 + 3 * log.countP isTip + 2 * k := by
    exact_mod_cast hsent
  have hrefreshes := hk.time
  rw [manager] at hlast
  linarith

/-- **What the node is asked.**  Every regular poll but the first follows a sleep or a failed long
    poll, every long poll a sleep or a fetched template. -/
theorem requests_paced (sha256d : Bytes → Bytes32) (cfg : LongpollConfig)
    (coinbaseTag : Option Bytes) (now : ℚ) (es : List LoopEvent) :
    let s := run (step sha256d cfg) (start coinbaseTag now) es
    polls s ≤ 1 + sleeps s + longpollFailures s ∧ longpolls s ≤ fetches s + sleeps s := by
  have h : Asked (run (step sha256d cfg) (start coinbaseTag now) es) :=
    (asked_start coinbaseTag now).run es
  exact ⟨h.polls, (Nat.le_add_right _ _).trans h.longpolls⟩

/-! ## What the lag tracker shows -/

section

variable {sha256d : Bytes → Bytes32} {cfg : LongpollConfig} {s s' : TemplateLoop}

/-- The height of a new tip that a long poll found. -/
def longpolledTip : Act → Option ℕ
  | .accepted true true i => some i.template.height
  | _ => none

def heightsOf (kind : LagKind) (samples : List Sample) : List ℕ :=
  (samples.filter (·.kind == kind)).map (·.height)

theorem heightsOf_append (kind : LagKind) (l l' : List Sample) :
    heightsOf kind (l ++ l') = heightsOf kind l ++ heightsOf kind l' := by
  rw [heightsOf, List.filter_append, List.map_append]
  rfl

theorem heightsOf_early {β : Type} (r : Reply) (i : TemplateInput) (l : List β) :
    heightsOf .fullTemplate
        (l.map fun _ => ⟨r.early.1, r.early.2, i.template.height, .emptyBlock⟩) = [] ∧
      heightsOf .emptyBlock
        (l.map fun _ => ⟨r.early.1, r.early.2, i.template.height, .emptyBlock⟩)
          = List.replicate l.length i.template.height := by
  induction l with
  | nil => exact ⟨rfl, rfl⟩
  | cons x l ih => exact ⟨ih.1, congrArg (List.cons i.template.height) ih.2⟩

variable (sha256d) in
/-- One full sample for a new tip, and one early sample at most. -/
theorem heightsOf_lagSamples (m : JobManager) (r : Reply) (i : TemplateInput) :
    heightsOf .fullTemplate (lagSamples sha256d m r i)
        = (longpolledTip (.accepted true (m.processed sha256d i).isNewBlock i)).toList ∧
      (heightsOf .emptyBlock (lagSamples sha256d m r i)).Sublist
        (longpolledTip (.accepted true (m.processed sha256d i).isNewBlock i)).toList := by
  obtain ⟨hfull, hearly⟩ := heightsOf_early r i (m.early sha256d i).1
  obtain ⟨hfew, -, -⟩ := m.early_frame sha256d i
  unfold lagSamples
  rw [heightsOf_append, heightsOf_append, hfull, hearly]
  by_cases hnew : m.lastPrevHash = i.template.previousblockhash
  · have hnone : (m.early sha256d i).1 = [] := by
      unfold JobManager.early
      simp only [hnew, ne_eq, not_true_eq_false, decide_false, Bool.false_and,
        Bool.false_eq_true, if_false]
    have hisNew : (m.processed sha256d i).isNewBlock = false := by
      cases m.processed_outcome sha256d i with
      | quiet old isNew => exact isNew
      | refresh job upgrade old isNew => exact isNew
      | newTip early job new => exact absurd hnew new
    rw [hnone, hisNew]
    exact ⟨rfl, List.Sublist.refl _⟩
  · have hisNew : (m.processed sha256d i).isNewBlock = true := by
      cases m.processed_outcome sha256d i with
      | quiet old => exact absurd old hnew
      | refresh job upgrade old => exact absurd old hnew
      | newTip early job new isNew => exact isNew
    rw [hisNew]
    refine ⟨rfl, ?_⟩
    have hcut : heightsOf .emptyBlock (if (true : Bool) = true then
        [(⟨r.full.1, r.full.2, i.template.height, .fullTemplate⟩ : Sample)] else []) = [] := rfl
    rw [hcut, List.append_nil]
    exact List.replicate_sublist_replicate i.template.height |>.2 hfew

/-- The samples since the start, against the tips that long polls found. -/
structure Sampled (s : TemplateLoop) (samples : List Sample) : Prop where
  holds : s.lagTracker.Holds samples
  full : heightsOf .fullTemplate samples = s.trace.filterMap longpolledTip
  early : (heightsOf .emptyBlock samples).Sublist (s.trace.filterMap longpolledTip)

theorem filterMap_longpolledTip_request (w : Wait) : (request w).filterMap longpolledTip = [] := by
  cases w <;> rfl

variable (sha256d cfg) in
theorem Sampled.step {samples : List Sample} (h : Sampled s samples) (e : LoopEvent) :
    ∃ more, Sampled (step sha256d cfg s e) (samples ++ more) := by
  cases step_took sha256d cfg s e with
  | idle _ disabled same =>
    rw [same]
    exact ⟨[], by rw [List.append_nil]; exact h⟩
  | moved _ act announcer lags trace moves none =>
    have hact : longpolledTip act = Option.none := by
      cases act with
      | accepted longpolled isNewBlock i => exact absurd (fetchedBy_moves moves) (by simp [fetchedBy])
      | polled | longpolled | pollFailed | longpollFailed | slept => rfl
    have htrace : (TemplateLoop.step sha256d cfg s e).trace.filterMap longpolledTip
        = s.trace.filterMap longpolledTip := by
      rw [trace, List.filterMap_append, List.filterMap_cons_none hact,
        filterMap_longpolledTip_request, List.append_nil]
    refine ⟨[], ?_, ?_, ?_⟩
    · rw [lags, List.append_nil]
      exact h.holds
    · rw [htrace, List.append_nil]
      exact h.full
    · rw [htrace, List.append_nil]
      exact h.early
  | accepted r i longpolled some announcer lags trace leads =>
    have htrace : (TemplateLoop.step sha256d cfg s (.reply r)).trace.filterMap longpolledTip
        = s.trace.filterMap longpolledTip ++
          (longpolledTip (.accepted longpolled (s.manager.processed sha256d i).isNewBlock i)).toList := by
      rw [trace, List.filterMap_append]
      congr 1
      cases htip : longpolledTip
          (.accepted longpolled (s.manager.processed sha256d i).isNewBlock i) with
      | none => rw [List.filterMap_cons_none htip, filterMap_longpolledTip_request]; rfl
      | some height =>
        rw [List.filterMap_cons_some htip, filterMap_longpolledTip_request]
        rfl
    cases longpolled with
    | false =>
      refine ⟨[], ?_, ?_, ?_⟩
      · rw [lags, List.append_nil]
        exact h.holds
      · rw [htrace, List.append_nil]
        exact h.full.trans (List.append_nil _).symm
      · rw [htrace, List.append_nil]
        exact h.early.trans (List.sublist_append_left _ _)
    | true =>
      obtain ⟨hfull, hearly⟩ := heightsOf_lagSamples sha256d s.manager r i
      refine ⟨lagSamples sha256d s.manager r i, ?_, ?_, ?_⟩
      · rw [lags]
        exact h.holds.recordAll _
      · rw [htrace, heightsOf_append, h.full, hfull]
      · rw [htrace, heightsOf_append]
        exact h.early.append hearly

theorem sampled_start (coinbaseTag : Option Bytes) (now : ℚ) :
    Sampled (start coinbaseTag now) [] :=
  ⟨TemplateLagTracker.holds_new, rfl, List.Sublist.refl _⟩

variable (sha256d cfg) in
theorem Sampled.run {samples : List Sample} (h : Sampled s samples) (es : List LoopEvent) :
    ∃ more, Sampled (run (TemplateLoop.step sha256d cfg) s es) (samples ++ more) := by
  induction es generalizing s samples with
  | nil => exact ⟨[], by rw [List.append_nil]; exact h⟩
  | cons e es ih =>
    obtain ⟨more, hmore⟩ := h.step sha256d cfg e
    obtain ⟨more', hmore'⟩ := ih hmore
    exact ⟨more ++ more', by rw [← List.append_assoc]; exact hmore'⟩

end

theorem sample_paced :
    let log := (run (step sampleCoinbasePrims.sha256d sampleConfig) (start none 0)
      [.reply sampleReply]).announcer.log
    (log.countP isSent : ℚ) ≤ 1 + 3 * log.countP isTip + 2 * ((0 - 0) / 5) :=
  announcements_paced sampleCoinbasePrims.sha256d sampleConfig none 0 0 [.reply sampleReply] le_rfl
    ⟨fun r i he hr => by cases he; cases hr; exact ⟨le_rfl, le_rfl⟩, trivial⟩

end TemplateLoop

end ZcashMiningPool
