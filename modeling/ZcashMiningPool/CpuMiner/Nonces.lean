import ZcashMiningPool.CpuMiner.Shares

/-!
# The miner's nonces

Which nonces the threads try, along every run: whatever the pool sends and however the threads are
scheduled.

* `step_cases` — what one event can do to jobs and threads.
* `Counted` — the counters thread `t` of a job has tried are `t`, `t + 4`, and so on, modulo
  `2 ^ 64`, and it stands at the next one.
* `nonces_never_repeat` — no nonce is tried twice for a job while the counters fit, nor ever by two
  miners with different prefixes.
* `superseded_job_ends` — once a job is replaced, each of its threads tries at most one more nonce.
-/

set_option autoImplicit false

namespace ZcashMiningPool

namespace CpuMiner

open Machine

def Thread.counter? : Thread → Option ℕ
  | .ready c => some c
  | .solving c => some c
  | .returned => none

section

variable {sha256d : Bytes → Bytes32} {workerName : String} {m m' : Miner}

/-! ## What one event can do -/

/-- Jobs, tried nonces, generation and flag are as before. -/
structure Same (m m' : Miner) : Prop where
  jobs : m'.jobs = m.jobs
  tried : m'.tried = m.tried
  generation : m'.generation = m.generation
  isMining : m'.isMining = m.isMining

theorem Same.refl (m : Miner) : Same m m := ⟨rfl, rfl, rfl, rfl⟩

/-- A job was started, in a new generation if there was one before. -/
structure Started (m m' : Miner) : Prop where
  jobs : ∃ job : MineJob, m'.jobs = m.jobs ++ [job] ∧ job.generation = m'.generation ∧
    job.threads = (List.range numThreads).map Thread.ready
  tried : m'.tried = m.tried
  generation : m'.generation = if m.isMining then (m.generation + 1) % 2 ^ 64 else m.generation
  isMining : m'.isMining = true

theorem notified_cases (nonce1Hex : String) (params : List Json) :
    Same m (m.notified nonce1Hex params) ∨ Started m (m.notified nonce1Hex params) := by
  unfold Miner.notified
  split
  · exact .inl ⟨rfl, rfl, rfl, rfl⟩
  · simp only
    split
    · exact .inl (.refl m)
    · split
      · exact .inr ⟨⟨_, rfl, rfl, rfl⟩, rfl, rfl, rfl⟩
      · exact .inl ⟨rfl, rfl, rfl, rfl⟩

theorem receive_cases (msg : Json) :
    Same m (m.receive workerName msg) ∨ Started m (m.receive workerName msg) := by
  unfold Miner.receive
  split
  · refine .inl ?_
    unfold Miner.awaitSubscription
    split
    · split
      · split
        · exact ⟨rfl, rfl, rfl, rfl⟩
        · split
          · exact ⟨rfl, rfl, rfl, rfl⟩
          · exact ⟨rfl, rfl, rfl, rfl⟩
      · exact .refl m
    · exact .refl m
  · unfold Miner.handle
    split
    · exact .inl (.refl m)
    · simp only
      split
      · exact .inl (.refl m)
      · split
        · split
          · exact .inl ⟨rfl, rfl, rfl, rfl⟩
          · exact .inl (.refl m)
        · split
          · split
            · exact notified_cases _ _
            · exact .inl (.refl m)
          · exact .inl (.refl m)

/-- Thread `t` of job `j` after the nonce of counter `c`. -/
def Miner.finish (m : Miner) (j t c : ℕ) (nonce : Bytes) (sent : List Json) : Miner :=
  { m.setThread j t (.ready ((c + numThreads) % 2 ^ 64)) with
    sent := sent
    tried := m.tried ++ [⟨j, c, nonce⟩] }

variable (sha256d workerName m) in
/-- **What one event can do** to jobs and threads: nothing, start a job, move a thread from the head
    of its loop, or finish a nonce. -/
theorem step_cases (e : Event) :
    Same m (step sha256d workerName m e) ∨ Started m (step sha256d workerName m e) ∨
      (∃ j t job c, m.threadAt j t = some (job, .ready c) ∧
        step sha256d workerName m e
          = m.setThread j t (if m.generation ≠ job.generation ∨ 32 < job.nonce1.length
              then .returned else .solving c)) ∨
      ∃ j t job c solutions, m.threadAt j t = some (job, .solving c) ∧
        step sha256d workerName m e
          = m.finish j t c (job.nonce c)
              (m.sent ++ m.shares sha256d workerName job c solutions) := by
  unfold step
  split
  · exact .inl (.refl m)
  · cases e with
    | receive msg => exact (receive_cases msg).imp_right .inl
    | closed => exact .inl ⟨rfl, rfl, rfl, rfl⟩
    | check j t =>
      simp only [Miner.check]
      split
      · next job c hthread =>
        refine .inr (.inr (.inl ⟨j, t, job, c, hthread, ?_⟩))
        split
        · rfl
        · rfl
      · exact .inl (.refl m)
    | report j t solutions =>
      simp only [Miner.report]
      split
      · next job c hthread => exact .inr (.inr (.inr ⟨j, t, job, c, solutions, hthread, rfl⟩))
      · exact .inl (.refl m)

/-! ## Jobs and threads -/

theorem threadAt_eq_some {j t : ℕ} {job : MineJob} {thread : Thread} :
    m.threadAt j t = some (job, thread) ↔
      m.jobs[j]? = some job ∧ job.threads[t]? = some thread := by
  unfold Miner.threadAt
  simp only [Option.bind_eq_some_iff, Option.map_eq_some_iff, Prod.mk.injEq]
  constructor
  · rintro ⟨g, hg, th, hth, rfl, rfl⟩
    exact ⟨hg, hth⟩
  · rintro ⟨hg, hth⟩
    exact ⟨job, hg, thread, hth, rfl, rfl⟩

theorem jobs_setThread (m : Miner) (j t i : ℕ) (thread : Thread) :
    (m.setThread j t thread).jobs[i]?
      = if j = i then (m.jobs[i]?).map (·.setThread t thread) else m.jobs[i]? := by
  rw [Miner.setThread, List.getElem?_modify]
  split <;> simp

/-- A thread after another one moved, or after it moved itself. -/
theorem threadAt_setThread {j t i u : ℕ} {thread thread' : Thread} {job : MineJob}
    (h : (m.setThread j t thread).threadAt i u = some (job, thread')) :
    (i = j ∧ u = t ∧ thread' = thread) ∨
      ∃ old, m.threadAt i u = some (old, thread') ∧ ¬ (i = j ∧ u = t) := by
  obtain ⟨hjob, hthread⟩ := threadAt_eq_some.1 h
  rw [jobs_setThread] at hjob
  by_cases hij : j = i
  · rw [if_pos hij] at hjob
    obtain ⟨old, hold, rfl⟩ := Option.map_eq_some_iff.1 hjob
    rw [MineJob.setThread, List.getElem?_set] at hthread
    by_cases htu : t = u
    · rw [if_pos htu] at hthread
      split at hthread
      · cases hthread
        exact .inl ⟨hij.symm, htu.symm, rfl⟩
      · cases hthread
    · rw [if_neg htu] at hthread
      exact .inr ⟨old, threadAt_eq_some.2 ⟨hold, hthread⟩, fun h => htu h.2.symm⟩
  · rw [if_neg hij] at hjob
    exact .inr ⟨job, threadAt_eq_some.2 ⟨hjob, hthread⟩, fun h => hij h.1.symm⟩

/-- A thread of the jobs before, or a fresh one of the new job. -/
theorem threadAt_started (h : Started m m') {j t : ℕ} {job : MineJob} {thread : Thread}
    (ht : m'.threadAt j t = some (job, thread)) :
    m.threadAt j t = some (job, thread) ∨
      (j = m.jobs.length ∧ t < numThreads ∧ thread = .ready t) := by
  obtain ⟨new, hjobs, -, hthreads⟩ := h.jobs
  obtain ⟨hjob, hthread⟩ := threadAt_eq_some.1 ht
  rw [hjobs] at hjob
  obtain hlt | rfl | hgt := lt_trichotomy j m.jobs.length
  · rw [List.getElem?_append_left hlt] at hjob
    exact .inl (threadAt_eq_some.2 ⟨hjob, hthread⟩)
  · rw [List.getElem?_concat_length] at hjob
    cases hjob
    rw [hthreads, List.getElem?_map] at hthread
    obtain ⟨i, hi, rfl⟩ := Option.map_eq_some_iff.1 hthread
    obtain ⟨hlen, rfl⟩ := List.getElem?_eq_some_iff.1 hi
    rw [List.length_range] at hlen
    exact .inr ⟨rfl, hlen, by rw [List.getElem_range]⟩
  · rw [List.getElem?_eq_none (by simp; omega)] at hjob
    cases hjob

/-! ## Counters -/

/-- The counters that thread `t` of job `j` has tried, oldest first. -/
def Miner.countersOf (m : Miner) (j t : ℕ) : List ℕ :=
  (m.tried.filter fun e => e.job == j && e.counter % numThreads == t).map Tried.counter

/-- How many nonces thread `t` has tried for job `j`. -/
def Miner.triedBy (m : Miner) (j t : ℕ) : ℕ := (m.countersOf j t).length

theorem triedBy_le (m : Miner) (j t : ℕ) : m.triedBy j t ≤ m.tried.length := by
  rw [Miner.triedBy, Miner.countersOf, List.length_map]
  exact List.length_filter_le _ _

structure Counted (m : Miner) : Prop where
  thread : ∀ j t job thread c, m.threadAt j t = some (job, thread) → thread.counter? = some c →
    t < numThreads ∧ c = (t + numThreads * m.triedBy j t) % 2 ^ 64
  place : ∀ e ∈ m.tried, ∃ job, m.jobs[e.job]? = some job ∧ e.nonce = job.nonce e.counter
  counters : ∀ j t, m.countersOf j t
    = (List.range (m.triedBy j t)).map fun i => (t + numThreads * i) % 2 ^ 64

theorem counted_start : Counted Miner.start where
  thread := fun j t job thread c h => by cases h
  place := fun e h => nomatch h
  counters := fun _ _ => rfl

theorem Counted.same (h : Counted m) (hs : Same m m') : Counted m' := by
  have hthread : ∀ j t, m'.threadAt j t = m.threadAt j t := fun j t => by
    unfold Miner.threadAt
    rw [hs.jobs]
  have hcounters : ∀ j t, m'.countersOf j t = m.countersOf j t := fun j t => by
    unfold Miner.countersOf
    rw [hs.tried]
  refine ⟨fun j t job thread c ht hc => ?_, fun e he => ?_, fun j t => ?_⟩
  · rw [hthread] at ht
    rw [Miner.triedBy, hcounters]
    exact h.thread j t job thread c ht hc
  · rw [hs.tried] at he
    rw [hs.jobs]
    exact h.place e he
  · rw [Miner.triedBy, hcounters]
    exact h.counters j t

/-- A job that was never tried for has no counters. -/
theorem Counted.triedBy_new (h : Counted m) (t : ℕ) : m.triedBy m.jobs.length t = 0 := by
  rw [Miner.triedBy, Miner.countersOf, List.length_map, List.length_eq_zero_iff,
    List.filter_eq_nil_iff]
  intro e he
  obtain ⟨job, hget, -⟩ := h.place e he
  have hlt := (List.getElem?_eq_some_iff.1 hget).1
  have hne : e.job ≠ m.jobs.length := hlt.ne
  simp [hne]

theorem Counted.started (h : Counted m) (hs : Started m m') : Counted m' := by
  obtain ⟨new, hjobs, -, -⟩ := hs.jobs
  have hcounters : ∀ j t, m'.countersOf j t = m.countersOf j t := fun j t => by
    unfold Miner.countersOf
    rw [hs.tried]
  refine ⟨fun j t job thread c ht hc => ?_, fun e he => ?_, fun j t => ?_⟩
  · rw [Miner.triedBy, hcounters]
    obtain hold | ⟨rfl, hlt, rfl⟩ := threadAt_started hs ht
    · exact h.thread j t job thread c hold hc
    · cases hc
      refine ⟨hlt, ?_⟩
      have hnone := h.triedBy_new t
      rw [Miner.triedBy] at hnone
      rw [hnone]
      unfold numThreads at hlt ⊢
      omega
  · rw [hs.tried] at he
    obtain ⟨job, hget, hnonce⟩ := h.place e he
    exact ⟨job, by rw [hjobs, List.getElem?_append_left (List.getElem?_eq_some_iff.1 hget).1, hget],
      hnonce⟩
  · rw [Miner.triedBy, hcounters]
    exact h.counters j t

/-- A job's nonces do not change when its threads move. -/
theorem jobs_of_setThread (j t i : ℕ) (thread : Thread) {job : MineJob}
    (h : m.jobs[i]? = some job) :
    ∃ job', (m.setThread j t thread).jobs[i]? = some job' ∧ ∀ c, job'.nonce c = job.nonce c := by
  rw [jobs_setThread, h]
  split
  · exact ⟨_, rfl, fun c => rfl⟩
  · exact ⟨job, rfl, fun c => rfl⟩

theorem length_jobs_setThread (m : Miner) (j t : ℕ) (thread : Thread) :
    (m.setThread j t thread).jobs.length = m.jobs.length := by
  rw [Miner.setThread, List.length_modify]

/-- A thread leaves the head of its loop with its counter, or returns. -/
theorem Counted.moved (h : Counted m) {j t : ℕ} {job : MineJob} {c : ℕ} {thread : Thread}
    (hthread : m.threadAt j t = some (job, .ready c))
    (hto : thread = .returned ∨ thread = .solving c) : Counted (m.setThread j t thread) := by
  refine ⟨fun i u job' thread' c' ht hc => ?_, fun e he => ?_, h.counters⟩
  · obtain ⟨rfl, rfl, rfl⟩ | ⟨old, hold, -⟩ := threadAt_setThread ht
    · obtain rfl | rfl := hto
      · cases hc
      · cases hc
        exact h.thread _ _ _ _ _ hthread rfl
    · exact h.thread _ _ _ _ _ hold hc
  · obtain ⟨old, hget, hnonce⟩ := h.place e he
    obtain ⟨job', hget', heq⟩ := jobs_of_setThread j t e.job thread hget
    exact ⟨job', hget', by rw [heq, hnonce]⟩

/-- The counter of a thread is its own modulo the number of threads. -/
theorem Counted.mod_eq (h : Counted m) {j t : ℕ} {job : MineJob} {thread : Thread} {c : ℕ}
    (hthread : m.threadAt j t = some (job, thread)) (hc : thread.counter? = some c) :
    c % numThreads = t := by
  obtain ⟨hlt, rfl⟩ := h.thread j t job thread c hthread hc
  unfold numThreads at hlt ⊢
  omega

theorem countersOf_finish (j t c : ℕ) (nonce : Bytes) (sent : List Json) (i u : ℕ) :
    (m.finish j t c nonce sent).countersOf i u
      = m.countersOf i u ++ if j = i ∧ c % numThreads = u then [c] else [] := by
  simp only [Miner.countersOf, Miner.finish, List.filter_append, List.map_append]
  congr 1
  by_cases h : j = i ∧ c % numThreads = u
  · rw [if_pos h, List.filter_cons_of_pos (by simp [h.1, h.2])]
    rfl
  · rw [if_neg h, List.filter_cons_of_neg (by simpa using h)]
    rfl

/-- A thread finishes a nonce and steps on. -/
theorem Counted.finished (h : Counted m) {j t : ℕ} {job : MineJob} {c : ℕ}
    (hthread : m.threadAt j t = some (job, .solving c)) (sent : List Json) :
    Counted (m.finish j t c (job.nonce c) sent) := by
  have hmod := h.mod_eq hthread rfl
  obtain ⟨hlt, hc⟩ := h.thread j t job _ c hthread rfl
  have hplace := (threadAt_eq_some.1 hthread).1
  refine ⟨fun i u job' thread' c' ht hc' => ?_, fun e he => ?_, fun i u => ?_⟩
  · rw [Miner.triedBy, countersOf_finish, hmod]
    obtain ⟨rfl, rfl, rfl⟩ | ⟨old, hold, hne⟩ := threadAt_setThread ht
    · cases hc'
      refine ⟨hlt, ?_⟩
      rw [if_pos ⟨rfl, rfl⟩, List.length_append, List.length_singleton, hc]
      unfold Miner.triedBy numThreads
      omega
    · rw [if_neg fun hh => hne ⟨hh.1.symm, hh.2.symm⟩, List.append_nil]
      exact h.thread _ _ _ _ _ hold hc'
  · obtain he | he := List.mem_append.1 he
    · obtain ⟨old, hget, hnonce⟩ := h.place e he
      obtain ⟨job', hget', heq⟩ := jobs_of_setThread j t e.job
        (.ready ((c + numThreads) % 2 ^ 64)) hget
      exact ⟨job', hget', by rw [heq, hnonce]⟩
    · obtain rfl := List.mem_singleton.1 he
      obtain ⟨job', hget', heq⟩ := jobs_of_setThread j t j
        (.ready ((c + numThreads) % 2 ^ 64)) hplace
      exact ⟨job', hget', (heq c).symm⟩
  · rw [Miner.triedBy, countersOf_finish, hmod]
    split
    · next hh =>
      obtain ⟨rfl, rfl⟩ := hh
      rw [List.length_append, List.length_singleton, List.range_succ, List.map_append,
        List.map_singleton, hc]
      exact congrArg (· ++ _) (h.counters j t)
    · rw [List.append_nil]
      exact h.counters i u

theorem Counted.step (h : Counted m) (e : Event) : Counted (step sha256d workerName m e) := by
  obtain hs | hs | ⟨j, t, job, c, hthread, heq⟩ | ⟨j, t, job, c, solutions, hthread, heq⟩ :=
    step_cases sha256d workerName m e
  · exact h.same hs
  · exact h.started hs
  · rw [heq]
    refine h.moved hthread ?_
    split
    · exact .inl rfl
    · exact .inr rfl
  · rw [heq]
    exact h.finished hthread _

theorem Counted.run {es : List Event} (h : Counted m) :
    Counted (run (CpuMiner.step sha256d workerName) m es) := by
  induction es generalizing m with
  | nil => exact h
  | cons e es ih => exact ih (h.step e)

/-! ## Nonces -/

theorem take_leBytes {k n : ℕ} (h : k ≤ n) (x : ℕ) : (leBytes n x).take k = leBytes k x := by
  induction k generalizing n x with
  | zero => rfl
  | succ k ih =>
    cases n with
    | zero => omega
    | succ n => rw [leBytes, leBytes, List.take_succ_cons, ih (by omega)]

/-- Counters that fit the free bytes give different nonces. -/
theorem nonce_inj {job : MineJob} {c c' : ℕ} (hc : c < 256 ^ min job.nonce2Size 8)
    (hc' : c' < 256 ^ min job.nonce2Size 8) (h : job.nonce c = job.nonce c') : c = c' := by
  unfold MineJob.nonce at h
  have hbytes := List.append_cancel_left (List.append_cancel_right h)
  rw [take_leBytes (Nat.min_le_right _ _), take_leBytes (Nat.min_le_right _ _)] at hbytes
  have hnat := congrArg leNat hbytes
  rwa [leNat_leBytes, leNat_leBytes, Nat.mod_eq_of_lt hc, Nat.mod_eq_of_lt hc'] at hnat

theorem take_nonce (job : MineJob) (c : ℕ) :
    (job.nonce c).take job.nonce1.length = job.nonce1 := by
  unfold MineJob.nonce
  rw [List.append_assoc, List.take_left]

/-- The counters that the threads of every job went through fit the free bytes of its nonce: the
    last one of thread `t` is `t + 4 (n - 1)`. -/
def Miner.CountersFit (m : Miner) : Prop :=
  ∀ j job, m.jobs[j]? = some job → ∀ t < numThreads,
    t + numThreads * m.triedBy j t < 256 ^ min job.nonce2Size 8 + numThreads

/-- The counters a thread has tried, while they fit. -/
theorem Counted.countersOf_eq (h : Counted m) (hfit : m.CountersFit) {j t : ℕ} {job : MineJob}
    (hget : m.jobs[j]? = some job) (ht : t < numThreads) :
    m.countersOf j t = (List.range (m.triedBy j t)).map (fun i => t + numThreads * i) ∧
      ∀ c ∈ m.countersOf j t, c < 256 ^ min job.nonce2Size 8 := by
  have hbound := hfit j job hget t ht
  have hpow : 256 ^ min job.nonce2Size 8 ≤ 256 ^ 8 :=
    Nat.pow_le_pow_right (by decide) (Nat.min_le_right _ _)
  have heq : m.countersOf j t
      = (List.range (m.triedBy j t)).map (fun i => t + numThreads * i) := by
    rw [h.counters j t]
    refine List.map_congr_left fun i hi => Nat.mod_eq_of_lt ?_
    have hi := List.mem_range.1 hi
    unfold numThreads at hbound ⊢
    omega
  refine ⟨heq, fun c hc => ?_⟩
  rw [heq] at hc
  obtain ⟨i, hi, rfl⟩ := List.mem_map.1 hc
  have hi := List.mem_range.1 hi
  unfold numThreads at hbound ⊢
  omega

/-- While the counters fit, no counter is tried twice for a job. -/
theorem Counted.distinct (h : Counted m) (hfit : m.CountersFit) :
    (m.tried.map fun e => (e.job, e.counter)).Nodup := by
  rw [List.nodup_iff_count_le_one]
  rintro ⟨j, c⟩
  by_cases hin : (j, c) ∈ m.tried.map fun e => (e.job, e.counter)
  · obtain ⟨e, he, heq⟩ := List.mem_map.1 hin
    obtain ⟨rfl, rfl⟩ := Prod.mk.inj heq
    obtain ⟨job, hget, -⟩ := h.place e he
    obtain ⟨heq, -⟩ := h.countersOf_eq hfit hget (Nat.mod_lt e.counter (by decide))
    have hnodup : (m.countersOf e.job (e.counter % numThreads)).Nodup := by
      rw [heq]
      refine List.Nodup.map (fun i i' hii => ?_) List.nodup_range
      simp only [numThreads] at hii
      omega
    -- its entries are among those of its thread
    have hcount : (m.tried.map fun e => (e.job, e.counter)).count (e.job, e.counter)
        = (m.countersOf e.job (e.counter % numThreads)).count e.counter := by
      rw [Miner.countersOf, List.count, List.count, List.countP_map, List.countP_map,
        List.countP_filter]
      refine List.countP_congr fun x _ => ?_
      simp only [Function.comp_apply, beq_iff_eq, Prod.mk.injEq, Bool.and_eq_true]
      constructor
      · rintro ⟨hj, hc⟩
        exact ⟨hc, hj, by rw [hc]⟩
      · rintro ⟨hc, hj, -⟩
        exact ⟨hj, hc⟩
    rw [hcount]
    exact List.nodup_iff_count_le_one.1 hnodup _
  · rw [List.count_eq_zero_of_not_mem hin]
    exact Nat.zero_le _

/-- Jobs are numbered by their generations, and the last one is the current one. -/
structure Generations (m : Miner) : Prop where
  mining : m.isMining = !m.jobs.isEmpty
  current : m.generation = (m.jobs.length - 1) % 2 ^ 64
  job : ∀ j job, m.jobs[j]? = some job →
    job.generation = j % 2 ^ 64 ∧ job.threads.length = numThreads

theorem generations_start : Generations Miner.start :=
  ⟨rfl, rfl, fun _ _ h => by cases h⟩

theorem Generations.setThread (h : Generations m) (j t : ℕ) (thread : Thread) :
    Generations (m.setThread j t thread) := by
  have hlen := length_jobs_setThread m j t thread
  refine ⟨?_, by rw [hlen]; exact h.current, fun i job hi => ?_⟩
  · rw [show (m.setThread j t thread).isMining = m.isMining from rfl, h.mining]
    rw [Bool.eq_iff_iff]
    simp only [Miner.setThread, Bool.not_eq_true', List.isEmpty_eq_false_iff, ne_eq,
      List.modify_eq_nil_iff]
  · rw [jobs_setThread] at hi
    split at hi
    · obtain ⟨old, hold, rfl⟩ := Option.map_eq_some_iff.1 hi
      obtain ⟨hgen, hthreads⟩ := h.job i old hold
      exact ⟨hgen, by rw [MineJob.setThread, List.length_set]; exact hthreads⟩
    · exact h.job i job hi

theorem Generations.started (h : Generations m) (hs : Started m m') : Generations m' := by
  obtain ⟨new, hjobs, hnew, hthreads⟩ := hs.jobs
  have hgen : m'.generation = m.jobs.length % 2 ^ 64 := by
    rw [hs.generation, h.mining, h.current]
    cases hempty : m.jobs with
    | nil => rfl
    | cons job jobs =>
      simp only [List.isEmpty_cons, Bool.not_false, if_true, List.length_cons,
        Nat.add_sub_cancel]
      omega
  refine ⟨?_, ?_, fun j job hj => ?_⟩
  · rw [hs.isMining, hjobs]
    simp
  · rw [hgen, hjobs, List.length_append, List.length_singleton, Nat.add_sub_cancel]
  · rw [hjobs] at hj
    obtain hlt | rfl | hgt := lt_trichotomy j m.jobs.length
    · rw [List.getElem?_append_left hlt] at hj
      exact h.job j job hj
    · rw [List.getElem?_concat_length] at hj
      cases hj
      rw [hnew, hthreads]
      exact ⟨hgen, by rw [List.length_map, List.length_range]⟩
    · rw [List.getElem?_eq_none (by simp; omega)] at hj
      cases hj

theorem Generations.step (h : Generations m) (e : Event) :
    Generations (step sha256d workerName m e) := by
  obtain hs | hs | ⟨j, t, job, c, hthread, heq⟩ | ⟨j, t, job, c, solutions, hthread, heq⟩ :=
    step_cases sha256d workerName m e
  · refine ⟨?_, ?_, ?_⟩
    · rw [hs.isMining, hs.jobs]
      exact h.mining
    · rw [hs.generation, hs.jobs]
      exact h.current
    · rw [hs.jobs]
      exact h.job
  · exact h.started hs
  · rw [heq]
    exact h.setThread j t _
  · rw [heq]
    exact ⟨(h.setThread j t _).mining, (h.setThread j t _).current, (h.setThread j t _).job⟩

/-- One while thread `t` of job `j` is in the solver. -/
def Miner.solvingAt (m : Miner) (j t : ℕ) : ℕ :=
  match m.threadAt j t with
  | some (_, .solving _) => 1
  | _ => 0

theorem solvingAt_le (m : Miner) (j t : ℕ) : m.solvingAt j t ≤ 1 := by
  unfold Miner.solvingAt
  split
  · exact le_rfl
  · exact Nat.zero_le _

/-- A thread that moves, moves alone. -/
theorem solvingAt_setThread_other {j t i u : ℕ} (thread : Thread) (h : ¬ (i = j ∧ u = t)) :
    (m.setThread j t thread).solvingAt i u ≤ m.solvingAt i u := by
  unfold Miner.solvingAt
  cases hnew : (m.setThread j t thread).threadAt i u with
  | none => exact Nat.zero_le _
  | some x =>
    obtain ⟨job, thread'⟩ := x
    obtain ⟨hi, hu, -⟩ | ⟨old, hold, -⟩ := threadAt_setThread hnew
    · exact absurd ⟨hi, hu⟩ h
    · rw [hold]
      cases thread' <;> exact le_rfl

theorem solvingAt_setThread_self (j t : ℕ) {thread : Thread} (h : ∀ c, thread ≠ .solving c) :
    (m.setThread j t thread).solvingAt j t = 0 := by
  unfold Miner.solvingAt
  split
  · next job c hnew =>
    obtain ⟨-, -, heq⟩ | ⟨-, -, hne⟩ := threadAt_setThread hnew
    · exact absurd heq.symm (h c)
    · exact absurd ⟨rfl, rfl⟩ hne
  · rfl

/-- How many nonces were tried for job `j`. -/
def Miner.triedFor (m : Miner) (j : ℕ) : ℕ := m.tried.countP fun e => e.job == j

/-- Every nonce was tried by one of the threads. -/
theorem triedFor_eq (m : Miner) (j : ℕ) :
    m.triedFor j = ((List.range numThreads).map (m.triedBy j)).sum := by
  have hlist : ∀ l : List Tried, l.countP (fun e => e.job == j)
      = ((List.range numThreads).map fun t =>
          (l.filter fun e => e.job == j && e.counter % numThreads == t).length).sum := by
    intro l
    induction l with
    | nil => rfl
    | cons e l ih =>
      have hlt : e.counter % numThreads < numThreads := Nat.mod_lt _ (by decide)
      rw [List.countP_cons, ih]
      unfold numThreads at hlt ⊢
      simp only [List.range_succ, List.range_zero, List.nil_append, List.cons_append,
        List.map_cons, List.map_nil, List.sum_cons, List.sum_nil, List.filter_cons]
      by_cases hj : e.job = j
      · obtain h | h | h | h : e.counter % 4 = 0 ∨ e.counter % 4 = 1 ∨ e.counter % 4 = 2 ∨
            e.counter % 4 = 3 := by omega
        all_goals
          simp [hj, h]
          omega
      · simp [hj]
  have hby : m.triedBy j = fun t =>
      (m.tried.filter fun e => e.job == j && e.counter % numThreads == t).length :=
    funext fun t => List.length_map _
  rw [Miner.triedFor, hlist, hby]

variable (sha256d workerName m) in
/-- Jobs are never forgotten, and come one at a time. -/
theorem length_jobs_step (e : Event) :
    m.jobs.length ≤ (step sha256d workerName m e).jobs.length ∧
      (step sha256d workerName m e).jobs.length ≤ m.jobs.length + 1 := by
  obtain hs | hs | ⟨j, t, job, c, hthread, heq⟩ | ⟨j, t, job, c, solutions, hthread, heq⟩ :=
    step_cases sha256d workerName m e
  · rw [hs.jobs]
    exact ⟨le_rfl, Nat.le_succ _⟩
  · obtain ⟨new, hjobs, -, -⟩ := hs.jobs
    rw [hjobs, List.length_append, List.length_singleton]
    exact ⟨Nat.le_succ _, le_rfl⟩
  · rw [heq, length_jobs_setThread]
    exact ⟨le_rfl, Nat.le_succ _⟩
  · have hlen : (m.finish j t c (job.nonce c)
        (m.sent ++ m.shares sha256d workerName job c solutions)).jobs.length = m.jobs.length :=
      length_jobs_setThread m j t _
    rw [heq, hlen]
    exact ⟨le_rfl, Nat.le_succ _⟩

/-- What is left to try for a thread of a superseded job only shrinks. -/
theorem superseded_step (h : Generations m) (hC : Counted m) {j : ℕ} (hj : j + 1 < m.jobs.length)
    (hfew : m.jobs.length ≤ 2 ^ 64) (t : ℕ) (e : Event) :
    (step sha256d workerName m e).triedBy j t + (step sha256d workerName m e).solvingAt j t
      ≤ m.triedBy j t + m.solvingAt j t := by
  obtain hs | hs | ⟨i, u, job, c, hthread, heq⟩ | ⟨i, u, job, c, solutions, hthread, heq⟩ :=
    step_cases sha256d workerName m e
  · unfold Miner.triedBy Miner.countersOf Miner.solvingAt Miner.threadAt
    rw [hs.tried, hs.jobs]
  · obtain ⟨new, hjobs, -, -⟩ := hs.jobs
    unfold Miner.triedBy Miner.countersOf Miner.solvingAt Miner.threadAt
    rw [hs.tried, hjobs, List.getElem?_append_left (by omega)]
  · rw [heq]
    refine Nat.add_le_add_left ?_ _
    by_cases hij : j = i ∧ t = u
    · obtain ⟨rfl, rfl⟩ := hij
      -- the generation has moved on, so the thread returns
      have hgen := (h.job j job (threadAt_eq_some.1 hthread).1).1
      have hold : m.generation ≠ job.generation := by
        rw [hgen, h.current]
        omega
      rw [if_pos (.inl hold), solvingAt_setThread_self j t fun c => by simp]
      exact Nat.zero_le _
    · exact solvingAt_setThread_other _ hij
  · have hsolving : (m.finish i u c (job.nonce c)
        (m.sent ++ m.shares sha256d workerName job c solutions)).solvingAt j t
          = (m.setThread i u (.ready ((c + numThreads) % 2 ^ 64))).solvingAt j t := rfl
    rw [heq, hsolving, Miner.triedBy, countersOf_finish, hC.mod_eq hthread rfl]
    by_cases hij : j = i ∧ t = u
    · obtain ⟨rfl, rfl⟩ := hij
      have hone : m.solvingAt j t = 1 := by
        unfold Miner.solvingAt
        rw [hthread]
      rw [if_pos ⟨rfl, rfl⟩, solvingAt_setThread_self j t fun c => by simp, hone,
        List.length_append]
      exact le_rfl
    · rw [if_neg fun hh => hij ⟨hh.1.symm, hh.2.symm⟩, List.append_nil]
      exact Nat.add_le_add_left (solvingAt_setThread_other _ hij) _

theorem Generations.run {es : List Event} (h : Generations m) :
    Generations (run (CpuMiner.step sha256d workerName) m es) := by
  induction es generalizing m with
  | nil => exact h
  | cons e es ih => exact ih (h.step e)

variable (sha256d workerName m) in
theorem length_jobs_run (es : List Event) :
    m.jobs.length ≤ (run (CpuMiner.step sha256d workerName) m es).jobs.length ∧
      (run (CpuMiner.step sha256d workerName) m es).jobs.length ≤ m.jobs.length + es.length := by
  induction es generalizing m with
  | nil => exact ⟨le_rfl, le_rfl⟩
  | cons e es ih =>
    obtain ⟨hgrow, hone⟩ := length_jobs_step sha256d workerName m e
    obtain ⟨hlow, hhigh⟩ := ih (CpuMiner.step sha256d workerName m e)
    rw [run_cons, List.length_cons]
    exact ⟨hgrow.trans hlow, hhigh.trans (by omega)⟩

theorem superseded_run {es : List Event} (h : Generations m) (hC : Counted m) {j : ℕ}
    (hj : j + 1 < m.jobs.length)
    (hfew : (run (CpuMiner.step sha256d workerName) m es).jobs.length ≤ 2 ^ 64) (t : ℕ) :
    (run (CpuMiner.step sha256d workerName) m es).triedBy j t
      ≤ m.triedBy j t + m.solvingAt j t := by
  induction es generalizing m with
  | nil => exact Nat.le_add_right _ _
  | cons e es ih =>
    have hgrow := (length_jobs_step sha256d workerName m e).1
    have hlast := (length_jobs_run sha256d workerName m (e :: es)).1
    exact (ih (h.step e) (hC.step e) (by omega) hfew).trans
      (superseded_step h hC hj (hlast.trans hfew) t e)

/-- **A replaced job comes to an end.**  However the run goes on once a later job was started, as
    long as the generation, a 64-bit number, does not come round: each thread tries at most one
    more nonce for it, and so all together at most one for each thread. -/
theorem superseded_job_ends (es es' : List Event)
    (hfew : (run (CpuMiner.step sha256d workerName) Miner.start (es ++ es')).jobs.length ≤ 2 ^ 64)
    (j : ℕ)
    (hj : j + 1 < (run (CpuMiner.step sha256d workerName) Miner.start es).jobs.length) :
    (∀ t, (run (CpuMiner.step sha256d workerName) Miner.start (es ++ es')).triedBy j t
        ≤ (run (CpuMiner.step sha256d workerName) Miner.start es).triedBy j t + 1) ∧
      (run (CpuMiner.step sha256d workerName) Miner.start (es ++ es')).triedFor j
        ≤ (run (CpuMiner.step sha256d workerName) Miner.start es).triedFor j + numThreads := by
  have hthread : ∀ t,
      (run (CpuMiner.step sha256d workerName) Miner.start (es ++ es')).triedBy j t
        ≤ (run (CpuMiner.step sha256d workerName) Miner.start es).triedBy j t + 1 := by
    intro t
    rw [run_append] at hfew ⊢
    exact (superseded_run generations_start.run counted_start.run hj hfew t).trans
      (Nat.add_le_add_left (solvingAt_le _ _ _) _)
  refine ⟨hthread, ?_⟩
  have h0 := hthread 0
  have h1 := hthread 1
  have h2 := hthread 2
  have h3 := hthread 3
  rw [triedFor_eq, triedFor_eq]
  unfold numThreads
  simp only [List.range_succ, List.range_zero, List.nil_append, List.cons_append, List.map_cons,
    List.map_nil, List.sum_cons, List.sum_nil]
  omega

end

/-! ## A miner that is given two jobs -/

theorem sample_jobs :
    (run (step strictPrims.sha256d "t1miner.rig") Miner.start sampleEvents).jobs
      = [sampleGroup.setThread 0 (.ready 4)] := by
  have hsplit : sampleEvents = sampleEvents.take 3 ++ [.report 0 0 [sampleDecoded.rawSolution]] :=
    rfl
  rw [hsplit, run_append, sample_started]
  rfl

theorem sample_tried :
    (run (step strictPrims.sha256d "t1miner.rig") Miner.start sampleEvents).tried.length = 1 := by
  have hsplit : sampleEvents = sampleEvents.take 3 ++ [.report 0 0 [sampleDecoded.rawSolution]] :=
    rfl
  rw [hsplit, run_append, sample_started]
  rfl

/-- The first job, with a thread in the solver, and the second one, which is clean. -/
def replacedEvents : List Event :=
  sampleEvents.take 3 ++
    [.receive ((ServerMessage.notify (sampleJob.toNotify true)).toJson sampleText)]

theorem sample_replaced :
    (run (step strictPrims.sha256d "t1miner.rig") Miner.start replacedEvents).jobs.length = 2 := by
  have hheader : Miner.decodeHeader [.str sampleJob.jobId, .str sampleJob.versionHex,
      .str sampleJob.prevHashHex, .str sampleJob.merkleRootHex, .str sampleJob.reservedHex,
      .str sampleJob.timeHex, .str sampleJob.bitsHex, .bool true] = some sampleHeaderInput :=
    decodeHeader_notify.2 sampleHeaderInput_built
  have hnonce : Text.hexDecode sampleSession.nonce1 = some [1, 0, 0, 0] :=
    Text.hexDecode_hexEncode _
  rw [replacedEvents, run_append, sample_started]
  simp only [run_cons, run_nil, step, Miner.start, Bool.false_eq_true, if_false, Miner.receive,
    ServerMessage.toJson]
  rw [handle_notification, if_neg (by decide), if_pos rfl]
  simp only [Miner.notified, MiningJob.toNotify, hheader, hnonce]
  rfl

/-- The thread finishes its nonce for the first job, and tries no more. -/
theorem sample_superseded :
    (run (step strictPrims.sha256d "t1miner.rig") Miner.start
        (replacedEvents ++ [.report 0 0 [], .check 0 0, .report 0 0 []])).triedBy 0 0
      ≤ (run (step strictPrims.sha256d "t1miner.rig") Miner.start replacedEvents).triedBy 0 0
        + 1 := by
  refine (superseded_job_ends replacedEvents _ ?_ 0 (by rw [sample_replaced]; decide)).1 0
  have hlen := (length_jobs_run strictPrims.sha256d "t1miner.rig"
    (run (step strictPrims.sha256d "t1miner.rig") Miner.start replacedEvents)
    [.report 0 0 [], .check 0 0, .report 0 0 []]).2
  rw [sample_replaced] at hlen
  rw [run_append]
  exact hlen.trans (by decide)

end CpuMiner

end ZcashMiningPool
