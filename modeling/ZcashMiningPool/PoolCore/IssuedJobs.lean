import Mathlib
import ZcashMiningPool.PoolCore.CleanJobs

/-!
# Issued jobs

The ids that the job manager hands out and the map it looks them up in, along every run of
templates.

* `jobIds` — the keys of the job map; `Caches` — they are the numbers of an interval.
* `keepRecentJobs_caches` — an eviction keeps the three newest.
* `JobsInv` — what holds after `k` jobs: the counter, the cached interval, the announced job.
* `StaysValid` — one template: the announced job is cached after every write, only the oldest ids
  are evicted, and a new tip keeps the three jobs before it.

Main result: `issued_jobs_stay_valid`, while the counter has not wrapped.
-/

set_option autoImplicit false

namespace ZcashMiningPool

open Table Machine

/-! ## The job map -/

def jobIds (jobs : Keyed String MiningJob) : List String := jobs.rows.map Prod.fst

theorem mem_jobIds {jobs : Keyed String MiningJob} {id : String} :
    id ∈ jobIds jobs ↔ ∃ job, jobs.get? id = some job := by
  unfold jobIds
  rw [List.mem_map]
  constructor
  · rintro ⟨e, he, rfl⟩
    exact ⟨e.2, Keyed.get?_eq_some_iff.2 he⟩
  · rintro ⟨job, hjob⟩
    exact ⟨(id, job), Keyed.get?_eq_some_iff.1 hjob, rfl⟩

theorem mem_jobIds_upsert {jobs : Keyed String MiningJob} {id id' : String} {job : MiningJob} :
    id' ∈ jobIds (jobs.upsert id job) ↔ id' = id ∨ id' ∈ jobIds jobs := by
  rw [mem_jobIds, mem_jobIds, Keyed.get?_upsert]
  split <;> simp [*]

theorem mem_jobIds_filter {jobs : Keyed String MiningJob} {p : String → Bool} {id : String} :
    id ∈ jobIds (jobs.filter (fun id _ => p id)) ↔ id ∈ jobIds jobs ∧ p id = true := by
  simp only [mem_jobIds, Keyed.get?_filter, Option.filter_eq_some_iff]
  constructor
  · rintro ⟨job, hjob, hp⟩
    exact ⟨⟨job, hjob⟩, hp⟩
  · rintro ⟨⟨job, hjob⟩, hp⟩
    exact ⟨job, hjob, hp⟩

/-- The map holds the jobs with the numbers from `lo` to `hi - 1`. -/
def Caches (jobs : Keyed String MiningJob) (lo hi : ℕ) : Prop :=
  ∀ id, id ∈ jobIds jobs ↔ ∃ n, lo ≤ n ∧ n < hi ∧ id = toString n

@[simp] theorem jobNumber_toString (n : ℕ) : jobNumber (toString n) = n := by
  unfold jobNumber
  have hparse : (toString n).toNat? = some n := Nat.toNat?_repr n
  rw [hparse]
  rfl

theorem toString_inj {m n : ℕ} : toString m = toString n ↔ m = n := Nat.repr_inj

namespace Caches

variable {jobs : Keyed String MiningJob} {lo hi : ℕ}

theorem mem (h : Caches jobs lo hi) {n : ℕ} : toString n ∈ jobIds jobs ↔ lo ≤ n ∧ n < hi := by
  rw [h]
  constructor
  · rintro ⟨m, hlo, hhi, hm⟩
    rw [toString_inj] at hm
    omega
  · rintro ⟨hlo, hhi⟩
    exact ⟨n, hlo, hhi, rfl⟩

theorem upsert (h : Caches jobs lo hi) (hle : lo ≤ hi) (job : MiningJob) :
    Caches (jobs.upsert (toString hi) job) lo (hi + 1) := by
  intro id
  rw [mem_jobIds_upsert, h]
  constructor
  · rintro (rfl | ⟨n, hlo, hhi, rfl⟩)
    · exact ⟨hi, hle, by omega, rfl⟩
    · exact ⟨n, hlo, by omega, rfl⟩
  · rintro ⟨n, hlo, hhi, rfl⟩
    by_cases hn : n = hi
    · exact .inl (by rw [hn])
    · exact .inr ⟨n, hlo, by omega, rfl⟩

/-- The ids in the order of their numbers. -/
theorem sorted_ids (h : Caches jobs lo hi) :
    (jobIds jobs).insertionSort (fun a b => jobNumber a ≤ jobNumber b)
      = (List.range' lo (hi - lo)).map toString := by
  set sorted := (jobIds jobs).insertionSort (fun a b => jobNumber a ≤ jobNumber b) with hsorted
  have hperm : sorted.Perm (jobIds jobs) := List.perm_insertionSort _ _
  have hback : (sorted.map jobNumber).map toString = sorted := by
    rw [List.map_map]
    conv_rhs => rw [← List.map_id sorted]
    apply List.map_congr_left
    intro id hid
    obtain ⟨n, -, -, rfl⟩ := (h id).1 (hperm.mem_iff.1 hid)
    rw [Function.comp_apply, jobNumber_toString]
    rfl
  have hmem : ∀ n, n ∈ sorted.map jobNumber ↔ n ∈ List.range' lo (hi - lo) := by
    intro n
    rw [List.mem_range'_1, List.mem_map]
    constructor
    · rintro ⟨id, hid, rfl⟩
      obtain ⟨m, hlo, hhi, rfl⟩ := (h id).1 (hperm.mem_iff.1 hid)
      rw [jobNumber_toString]
      omega
    · intro hn
      refine ⟨toString n, hperm.mem_iff.2 (h.mem.2 (by omega)), jobNumber_toString n⟩
  have hnodup : (sorted.map jobNumber).Nodup := by
    apply List.Nodup.of_map toString
    rw [hback]
    exact hperm.nodup_iff.2 jobs.nodup
  have hnumbers : sorted.map jobNumber = List.range' lo (hi - lo) := by
    have hsortedPairs : sorted.Pairwise (fun a b => jobNumber a ≤ jobNumber b) :=
      haveI : Std.Total (fun a b : String => jobNumber a ≤ jobNumber b) :=
        ⟨fun a b => le_total _ _⟩
      haveI : IsTrans String (fun a b => jobNumber a ≤ jobNumber b) := ⟨fun _ _ _ => le_trans⟩
      List.pairwise_insertionSort _ _
    exact List.Perm.eq_of_pairwise (fun a b _ _ => le_antisymm)
      (List.pairwise_map.2 hsortedPairs) (List.pairwise_le_range' 1)
      ((List.perm_ext_iff_of_nodup hnodup List.nodup_range').2 hmem)
  rw [← hback, hnumbers]

/-- The number of cached jobs. -/
theorem length_eq (h : Caches jobs lo hi) : jobs.rows.length = hi - lo := by
  have hlen := congrArg List.length h.sorted_ids
  rw [List.length_insertionSort, List.length_map, List.length_range'] at hlen
  unfold jobIds at hlen
  rwa [List.length_map] at hlen

/-- **An eviction keeps the three newest jobs**, and there is none up to ten jobs. -/
theorem keepRecentJobs (h : Caches jobs lo hi) :
    Caches (keepRecentJobs jobs) (if 10 < hi - lo then hi - 3 else lo) hi := by
  unfold ZcashMiningPool.keepRecentJobs
  rw [h.length_eq]
  split
  · rename_i hmany
    intro id
    have hold : ∀ n, toString n ∈ ((jobs.rows.map (·.1)).insertionSort
        (fun a b => jobNumber a ≤ jobNumber b)).take (((jobs.rows.map (·.1)).insertionSort
          (fun a b => jobNumber a ≤ jobNumber b)).length - 3) ↔ lo ≤ n ∧ n < hi - 3 := by
      intro n
      have hsorted : (jobs.rows.map (·.1)).insertionSort
          (fun a b => jobNumber a ≤ jobNumber b) = (List.range' lo (hi - lo)).map toString :=
        h.sorted_ids
      rw [hsorted, ← List.map_take, List.length_map, List.length_range', List.mem_map]
      have htake : (List.range' lo (hi - lo)).take (hi - lo - 3) = List.range' lo (hi - lo - 3) := by
        rw [List.take_range'_of_length_ge (by omega)]
      rw [htake]
      constructor
      · rintro ⟨m, hm, hmn⟩
        rw [List.mem_range'_1] at hm
        rw [toString_inj] at hmn
        omega
      · intro hn
        exact ⟨n, by rw [List.mem_range'_1]; omega, rfl⟩
    rw [mem_jobIds_filter, h]
    constructor
    · rintro ⟨⟨n, hlo, hhi, rfl⟩, hkept⟩
      have hnot := of_decide_eq_true hkept
      rw [hold] at hnot
      exact ⟨n, by omega, hhi, rfl⟩
    · rintro ⟨n, hlo, hhi, rfl⟩
      refine ⟨⟨n, by omega, hhi, rfl⟩, decide_eq_true ?_⟩
      rw [hold]
      omega
  · exact h

end Caches

/-! ## One template -/

namespace JobManager

variable (sha256d : Bytes → Bytes32) (m : JobManager) (i : TemplateInput)

/-- The call on an input. -/
def processed : Processed := m.processTemplate sha256d i.injectEmpty i.inject i.now i.template

/-- The early announcement of a call, and the manager after it. -/
def early : List MiningJob × JobManager :=
  let m := { m with lastLongpollid := i.template.longpollid }
  if decide (m.lastPrevHash ≠ i.template.previousblockhash) && i.template.transactions.isEmpty then
    m.broadcastEmptyBlock sha256d i.injectEmpty i.template
  else ([], m)

/-- Job map and announced job after every write of a call. -/
def writes : List (Keyed String MiningJob × Option Notify) :=
  let afterEarly := (m.early sha256d i).2
  let out := m.processed sha256d i
  [(afterEarly.jobs, m.latestNotify), (afterEarly.jobs, afterEarly.latestNotify),
    (out.manager.jobs, afterEarly.latestNotify), (out.manager.jobs, out.manager.latestNotify)]

/-- The next job, issued and announced. -/
def issue (template : BlockTemplate) (cleanJobs : Bool) (txCount : ℕ) : JobManager :=
  { m with jobCounter := bumpCounter m.jobCounter }.announce (m.nextJob sha256d template) cleanJobs
    txCount

/-- The early announcement is one job, or none. -/
theorem early_cases :
    m.early sha256d i = ([], { m with lastLongpollid := i.template.longpollid }) ∨
      ∃ template, m.early sha256d i
        = ([nextJob sha256d { m with lastLongpollid := i.template.longpollid } template],
          issue sha256d { m with lastLongpollid := i.template.longpollid } template true 0) := by
  unfold early broadcastEmptyBlock
  dsimp only
  split
  · split
    · exact .inl rfl
    · exact .inr ⟨_, rfl⟩
  · exact .inl rfl

/-- What a call does after the early announcement: nothing, or one job, before which a new tip
    evicts old ones. -/
theorem processed_cases :
    let e := m.early sha256d i
    let out := m.processed sha256d i
    (out.isNewBlock = false ∧ out.broadcasts = e.1.map (·, true) ∧ out.manager = e.2) ∨
      ∃ template cleanJobs txCount prev last,
        let kept := { e.2 with
          jobs := if out.isNewBlock then keepRecentJobs e.2.jobs else e.2.jobs
          lastPrevHash := prev
          lastNonCleanBroadcast := last }
        out.broadcasts = e.1.map (·, true) ++ [(kept.nextJob sha256d template, cleanJobs)] ∧
          out.manager = kept.issue sha256d template cleanJobs txCount := by
  unfold processed processTemplate early
  dsimp only
  generalize (if (decide (m.lastPrevHash ≠ i.template.previousblockhash) &&
    i.template.transactions.isEmpty) = true then _ else _) = e
  obtain ⟨early, m₁⟩ := e
  dsimp only
  split
  · exact .inl ⟨rfl, rfl, rfl⟩
  · right
    cases decide (m.lastPrevHash ≠ i.template.previousblockhash) with
    | true => exact ⟨(tagTemplate i.inject m₁.coinbaseTag i.template).toOption.getD i.template, _,
        _, _, m₁.lastNonCleanBroadcast, rfl, rfl⟩
    | false => exact ⟨(tagTemplate i.inject m₁.coinbaseTag i.template).toOption.getD i.template, _,
        _, m₁.lastPrevHash, i.now, rfl, rfl⟩

end JobManager

/-! ## Runs -/

/-- The manager and the ids of the jobs it issued, in order. -/
structure JobLog where
  manager : JobManager
  issued : List String

namespace JobLog

variable (sha256d : Bytes → Bytes32)

def start (tag : Option Bytes) (now : ℚ) : JobLog := ⟨JobManager.new tag now, []⟩

def step (s : JobLog) (i : TemplateInput) : JobLog :=
  let out := s.manager.processed sha256d i
  ⟨out.manager, s.issued ++ out.broadcasts.map (fun b => b.1.jobId)⟩

end JobLog

/-- The announced job is in the map. -/
def NamesCached (jobs : Keyed String MiningJob) (latest : Option Notify) : Prop :=
  ∀ n, latest = some n → n.jobId ∈ jobIds jobs

/-- What went from the map has a lower number than everything in it. -/
def EvictsOldest (before after : Keyed String MiningJob) : Prop :=
  ∀ id ∈ jobIds before, id ∉ jobIds after → ∀ id' ∈ jobIds after, jobNumber id < jobNumber id'

/-- What one template leaves in the map. -/
structure StaysValid (sha256d : Bytes → Bytes32) (s : JobLog) (i : TemplateInput) : Prop where
  /-- After every write. -/
  announced : ∀ w ∈ s.manager.writes sha256d i, NamesCached w.1 w.2
  evictsEarly : EvictsOldest s.manager.jobs (s.manager.early sha256d i).2.jobs
  evicts : EvictsOldest (s.manager.early sha256d i).2.jobs (s.step sha256d i).manager.jobs
  /-- The new job and the three before it. -/
  newTip : (s.manager.processed sha256d i).isNewBlock = true →
    ∃ before id, (s.step sha256d i).issued = before ++ [id] ∧
      id ∈ jobIds (s.step sha256d i).manager.jobs ∧
      ∀ id' ∈ before.drop (before.length - 3), id' ∈ jobIds (s.step sha256d i).manager.jobs

/-- The ids of the first `k` jobs, whether the counter wraps or not. -/
def issuedIds (k : ℕ) : List String := (List.range k).map (fun j => toString ((j + 1) % 2 ^ 64))

theorem issuedIds_succ (k : ℕ) :
    issuedIds (k + 1) = issuedIds k ++ [toString ((k + 1) % 2 ^ 64)] := by
  unfold issuedIds
  rw [List.range_succ, List.map_append]
  rfl

theorem length_issuedIds (k : ℕ) : (issuedIds k).length = k := by
  unfold issuedIds
  rw [List.length_map, List.length_range]

/-- The last three of the first `k` ids. -/
theorem mem_drop_issuedIds {k : ℕ} (hk : k < 2 ^ 64) {id : String}
    (h : id ∈ (issuedIds k).drop ((issuedIds k).length - 3)) :
    ∃ n, 1 ≤ n ∧ n ≤ k ∧ k < n + 3 ∧ id = toString n := by
  obtain ⟨j, hj, rfl⟩ := List.getElem_of_mem h
  rw [List.length_drop, length_issuedIds] at hj
  refine ⟨k - 3 + j + 1, by omega, by omega, by omega, ?_⟩
  simp only [issuedIds, List.getElem_drop, List.getElem_map, List.getElem_range, List.length_map,
    List.length_range]
  rw [Nat.mod_eq_of_lt (by omega)]

theorem issuedIds_nodup_iff (k : ℕ) : (issuedIds k).Nodup ↔ k ≤ 2 ^ 64 := by
  constructor
  · intro h
    by_contra hlarge
    have hfirst : 0 < (issuedIds k).length := by rw [length_issuedIds]; omega
    have hlast : 2 ^ 64 < (issuedIds k).length := by rw [length_issuedIds]; omega
    have hsame : (issuedIds k)[0] = (issuedIds k)[2 ^ 64] := by
      simp only [issuedIds, List.getElem_map, List.getElem_range]
      rw [Nat.add_mod_left, Nat.zero_add]
    have hindex := (h.getElem_inj_iff).1 hsame
    omega
  · intro h
    unfold issuedIds
    apply List.Nodup.map_on _ List.nodup_range
    intro i hi j hj hij
    rw [List.mem_range] at hi hj
    rw [toString_inj] at hij
    omega

namespace JobManager

variable {sha256d : Bytes → Bytes32} {m : JobManager} {k : ℕ}

/-- One more job takes the number of the counter. -/
theorem issue_numbered (h : m.jobCounter = (k + 1) % 2 ^ 64) (template : BlockTemplate)
    (cleanJobs : Bool) (txCount : ℕ) :
    (m.issue sha256d template cleanJobs txCount).jobCounter = (k + 1 + 1) % 2 ^ 64 ∧
      issuedIds k ++ [(m.nextJob sha256d template).jobId] = issuedIds (k + 1) := by
  constructor
  · show bumpCounter m.jobCounter = _
    rw [h, bumpCounter]
    omega
  · show issuedIds k ++ [toString m.jobCounter] = _
    rw [h, issuedIds_succ]

variable (sha256d) in
theorem early_numbered (i : TemplateInput) (h : m.jobCounter = (k + 1) % 2 ^ 64) :
    (m.early sha256d i).2.jobCounter = (k + (m.early sha256d i).1.length + 1) % 2 ^ 64 ∧
      issuedIds k ++ (m.early sha256d i).1.map (·.jobId)
        = issuedIds (k + (m.early sha256d i).1.length) := by
  rcases m.early_cases sha256d i with hearly | ⟨template, hearly⟩
  · rw [hearly]
    exact ⟨h, List.append_nil _⟩
  · rw [hearly]
    have hsame : { m with lastLongpollid := i.template.longpollid }.jobCounter
        = (k + 1) % 2 ^ 64 := h
    exact issue_numbered hsame template true 0

variable (sha256d) in
/-- **The ids of a call follow the counter**, whether it wraps or not. -/
theorem processed_numbered (i : TemplateInput) (h : m.jobCounter = (k + 1) % 2 ^ 64) :
    (m.processed sha256d i).manager.jobCounter
        = (k + (m.processed sha256d i).broadcasts.length + 1) % 2 ^ 64 ∧
      issuedIds k ++ (m.processed sha256d i).broadcasts.map (fun b => b.1.jobId)
        = issuedIds (k + (m.processed sha256d i).broadcasts.length) := by
  obtain ⟨hcounter, hids⟩ := early_numbered sha256d i h
  have hfirst : ∀ jobs : List MiningJob, (jobs.map (·, true)).map (fun b => b.1.jobId)
      = jobs.map (·.jobId) := fun jobs => by
    rw [List.map_map]
    rfl
  rcases m.processed_cases sha256d i with
    ⟨-, hout, hmanager⟩ | ⟨template, cleanJobs, txCount, prev, last, hout, hmanager⟩
  · rw [hout, hmanager, List.length_map, hfirst]
    exact ⟨hcounter, hids⟩
  · rw [hout, hmanager, List.map_append, hfirst, ← List.append_assoc, hids, List.length_append,
      List.length_map, List.length_singleton]
    exact issue_numbered hcounter template cleanJobs txCount

end JobManager

/-- After `k` jobs, while the counter has not wrapped. -/
structure JobsInv (m : JobManager) (k : ℕ) : Prop where
  counter : m.jobCounter = (k + 1) % 2 ^ 64
  cached : ∃ lo, 1 ≤ lo ∧ lo ≤ k + 1 ∧ (lo = 1 ∨ lo + 3 ≤ k + 1) ∧ Caches m.jobs lo (k + 1)
  latest : ∀ n, m.latestNotify = some n → 1 ≤ k ∧ n.jobId = toString k

namespace JobsInv

variable {sha256d : Bytes → Bytes32} {m m' : JobManager} {k : ℕ}

theorem new (tag : Option Bytes) (now : ℚ) : JobsInv (JobManager.new tag now) 0 where
  counter := rfl
  cached := by
    refine ⟨1, le_rfl, le_rfl, .inl rfl, fun id => ?_⟩
    constructor
    · intro h
      cases h
    · rintro ⟨n, hlo, hhi, -⟩
      omega
  latest := by
    intro n h
    cases h

/-- Map, counter and announcement are all that matters. -/
theorem congr (h : JobsInv m k) (hjobs : m'.jobs = m.jobs) (hcounter : m'.jobCounter = m.jobCounter)
    (hlatest : m'.latestNotify = m.latestNotify) : JobsInv m' k where
  counter := hcounter.trans h.counter
  cached := hjobs ▸ h.cached
  latest := hlatest ▸ h.latest

variable (sha256d) in
/-- The id of the next job, before the counter wraps. -/
theorem nextJob_jobId (h : JobsInv m k) (hk : k + 1 < 2 ^ 64) (template : BlockTemplate) :
    (m.nextJob sha256d template).jobId = toString (k + 1) := by
  show toString m.jobCounter = toString (k + 1)
  rw [h.counter, Nat.mod_eq_of_lt hk]

/-- **One more job.** -/
theorem issue (h : JobsInv m k) (hk : k + 1 < 2 ^ 64) (template : BlockTemplate) (cleanJobs : Bool)
    (txCount : ℕ) : JobsInv (m.issue sha256d template cleanJobs txCount) (k + 1) := by
  have hid := h.nextJob_jobId sha256d hk template
  refine ⟨?_, ?_, ?_⟩
  · show bumpCounter m.jobCounter = _
    rw [h.counter, bumpCounter, Nat.mod_eq_of_lt hk]
  · obtain ⟨lo, hlo, hle, hthree, hcaches⟩ := h.cached
    refine ⟨lo, hlo, by omega, by omega, ?_⟩
    show Caches (m.jobs.upsert (m.nextJob sha256d template).jobId _) lo (k + 1 + 1)
    rw [hid]
    exact hcaches.upsert hle _
  · intro n hn
    cases hn
    exact ⟨by omega, hid⟩

/-- **An eviction** leaves the three newest jobs. -/
theorem evict (h : JobsInv m k) (prev : String) (last : ℚ) :
    JobsInv { m with
      jobs := keepRecentJobs m.jobs
      lastPrevHash := prev
      lastNonCleanBroadcast := last } k where
  counter := h.counter
  cached := by
    obtain ⟨lo, hlo, hle, hthree, hcaches⟩ := h.cached
    refine ⟨_, ?_, ?_, ?_, hcaches.keepRecentJobs⟩
    all_goals
      split <;> omega
  latest := h.latest

/-- Of two maps of this kind, the later one lacks only lower numbers. -/
theorem evictsOldest (h : JobsInv m k) {k' : ℕ} (h' : JobsInv m' k') (hle : k ≤ k') :
    EvictsOldest m.jobs m'.jobs := by
  obtain ⟨lo, -, -, -, hcaches⟩ := h.cached
  obtain ⟨lo', -, -, -, hcaches'⟩ := h'.cached
  intro id hid hgone id' hid'
  obtain ⟨n, hlo, hhi, rfl⟩ := (hcaches id).1 hid
  obtain ⟨n', hlo', -, rfl⟩ := (hcaches' id').1 hid'
  rw [hcaches'.mem] at hgone
  rw [jobNumber_toString, jobNumber_toString]
  omega

/-- The three newest jobs are in the map. -/
theorem mem_recent (h : JobsInv m k) {n : ℕ} (hpos : 1 ≤ n) (hle : n ≤ k) (hrecent : k < n + 3) :
    toString n ∈ jobIds m.jobs := by
  obtain ⟨lo, hlo, -, hthree, hcaches⟩ := h.cached
  rw [hcaches.mem]
  omega

/-- An announcement stays cached for the next two jobs. -/
theorem names_later (h : JobsInv m k) {k' : ℕ} (h' : JobsInv m' k') (hle : k ≤ k')
    (hlt : k' < k + 3) : NamesCached m'.jobs m.latestNotify := by
  intro n hn
  obtain ⟨hk, hid⟩ := h.latest n hn
  rw [hid]
  exact h'.mem_recent hk hle hlt

end JobsInv

namespace JobsInv

variable {sha256d : Bytes → Bytes32} {m : JobManager} {k : ℕ} {i : TemplateInput}

/-- After the early announcement of a call. -/
theorem early (h : JobsInv m k) (hk : k + (m.early sha256d i).1.length < 2 ^ 64) :
    JobsInv (m.early sha256d i).2 (k + (m.early sha256d i).1.length) ∧
      (m.early sha256d i).1.length ≤ 1 := by
  have hsame : JobsInv { m with lastLongpollid := i.template.longpollid } k := h.congr rfl rfl rfl
  rcases m.early_cases sha256d i with hearly | ⟨template, hearly⟩
  · rw [hearly]
    exact ⟨hsame, Nat.zero_le _⟩
  · rw [hearly] at hk ⊢
    exact ⟨hsame.issue hk template true 0, le_rfl⟩

/-- Before the job of the whole template, with or without an eviction. -/
theorem kept (h : JobsInv m k) (isNewBlock : Bool) (prev : String) (last : ℚ) :
    JobsInv { m with
      jobs := if isNewBlock then keepRecentJobs m.jobs else m.jobs
      lastPrevHash := prev
      lastNonCleanBroadcast := last } k := by
  cases isNewBlock with
  | true => exact h.evict prev last
  | false => exact h.congr rfl rfl rfl

/-- What a job issued after an eviction finds in the map. -/
theorem mem_issue {template : BlockTemplate} {cleanJobs : Bool} {txCount : ℕ} {id : String}
    (h : id ∈ jobIds m.jobs) :
    id ∈ jobIds (m.issue sha256d template cleanJobs txCount).jobs := by
  show id ∈ jobIds (m.jobs.upsert _ _)
  exact mem_jobIds_upsert.2 (.inr h)

/-- **One call**: `k₁` jobs after its early announcement, `k₂` at its end. -/
theorem processed {k₂ : ℕ} (h : JobsInv m k)
    (hk₂ : k₂ = k + (m.processed sha256d i).broadcasts.length) (hfew : k₂ < 2 ^ 64) :
    ∃ k₁, k ≤ k₁ ∧ k₁ ≤ k + 1 ∧ k₁ ≤ k₂ ∧ k₂ ≤ k₁ + 1 ∧
      JobsInv (m.early sha256d i).2 k₁ ∧ JobsInv (m.processed sha256d i).manager k₂ ∧
      ((m.processed sha256d i).isNewBlock = true → k₂ = k₁ + 1 ∧ ∀ n, 1 ≤ n → n ≤ k₁ →
        k₁ < n + 3 → toString n ∈ jobIds (m.processed sha256d i).manager.jobs) := by
  rcases m.processed_cases sha256d i with
    ⟨hnew, hout, hmanager⟩ | ⟨template, cleanJobs, txCount, prev, last, hout, hmanager⟩
  · rw [hout, List.length_map] at hk₂
    subst hk₂
    obtain ⟨hearly, hone⟩ := h.early hfew
    refine ⟨_, Nat.le_add_right _ _, by omega, le_rfl, Nat.le_succ _, hearly, ?_, ?_⟩
    · rw [hmanager]
      exact hearly
    · intro hnew'
      rw [hnew] at hnew'
      cases hnew'
  · rw [hout, List.length_append, List.length_map, List.length_singleton, ← Nat.add_assoc] at hk₂
    subst hk₂
    obtain ⟨hearly, hone⟩ := h.early (Nat.lt_of_succ_lt hfew)
    have hkept := hearly.kept (m.processed sha256d i).isNewBlock prev last
    refine ⟨_, Nat.le_add_right _ _, by omega, Nat.le_succ _, le_rfl, hearly, ?_, ?_⟩
    · rw [hmanager]
      exact hkept.issue hfew template cleanJobs txCount
    · intro _
      refine ⟨rfl, fun n hpos hle hrecent => ?_⟩
      rw [hmanager]
      exact mem_issue (hkept.mem_recent hpos hle hrecent)

end JobsInv

namespace JobLog

variable {sha256d : Bytes → Bytes32}

/-- The ids issued so far follow the counter. -/
def Numbered (s : JobLog) : Prop :=
  s.manager.jobCounter = (s.issued.length + 1) % 2 ^ 64 ∧ s.issued = issuedIds s.issued.length

theorem length_issued_step (s : JobLog) (i : TemplateInput) :
    (s.step sha256d i).issued.length
      = s.issued.length + (s.manager.processed sha256d i).broadcasts.length := by
  rw [step, List.length_append, List.length_map]

variable (sha256d) in
theorem numbered_step {s : JobLog} (i : TemplateInput) (h : s.Numbered) :
    (s.step sha256d i).Numbered := by
  obtain ⟨hcounter, hids⟩ := JobManager.processed_numbered sha256d i h.1
  unfold Numbered
  rw [length_issued_step, ← hids, ← h.2]
  exact ⟨hcounter, rfl⟩

/-- **One template**, while the counter does not wrap. -/
theorem staysValid_step {s : JobLog} (i : TemplateInput) (hnumbered : s.Numbered)
    (h : JobsInv s.manager s.issued.length) (hfew : (s.step sha256d i).issued.length < 2 ^ 64) :
    JobsInv (s.step sha256d i).manager (s.step sha256d i).issued.length ∧
      StaysValid sha256d s i := by
  have hissued := (numbered_step sha256d i hnumbered).2
  obtain ⟨k₁, hk₁, hk₁', hk₂, hk₂', hearly, hafter, hnew⟩ :=
    h.processed (length_issued_step s i) hfew
  refine ⟨hafter, ⟨?_, h.evictsOldest hearly hk₁, hearly.evictsOldest hafter hk₂, ?_⟩⟩
  · intro w hw
    simp only [JobManager.writes, List.mem_cons, List.not_mem_nil, or_false] at hw
    rcases hw with rfl | rfl | rfl | rfl
    · exact h.names_later hearly hk₁ (by omega)
    · exact hearly.names_later hearly le_rfl (by omega)
    · exact hearly.names_later hafter hk₂ (by omega)
    · exact hafter.names_later hafter le_rfl (by omega)
  · intro hisNew
    obtain ⟨hone, hrecent⟩ := hnew hisNew
    rw [hone] at hissued hafter hfew
    refine ⟨issuedIds k₁, toString (k₁ + 1), ?_, hafter.mem_recent (by omega) le_rfl (by omega), ?_⟩
    · rw [hissued, issuedIds_succ, Nat.mod_eq_of_lt hfew]
    · intro id hid
      obtain ⟨n, hpos, hle, hlast, rfl⟩ := mem_drop_issuedIds (by omega) hid
      exact hrecent n hpos hle hlast

/-- The counter has not wrapped. -/
def Unwrapped (s : JobLog) : Prop := s.issued.length < 2 ^ 64

/-- Ids are only added. -/
theorem length_issued_run_le (s : JobLog) (is : List TemplateInput) :
    s.issued.length ≤ (run (step sha256d) s is).issued.length := by
  induction is generalizing s with
  | nil => exact le_rfl
  | cons i is ih =>
    refine le_trans ?_ (ih (s.step sha256d i))
    rw [step, List.length_append]
    exact Nat.le_add_right _ _

/-- A run that issues few jobs in all issues few up to every step. -/
theorem allowed_few {s : JobLog} {is : List TemplateInput}
    (h : (run (step sha256d) s is).Unwrapped) :
    Allowed (step sha256d) (fun s i => (s.step sha256d i).Unwrapped) s is := by
  induction is generalizing s with
  | nil => trivial
  | cons i is ih => exact ⟨(length_issued_run_le _ is).trans_lt h, ih h⟩

theorem numbered_start (tag : Option Bytes) (now : ℚ) : (start tag now).Numbered := ⟨rfl, rfl⟩

/-- Along a run, ids follow the counter and the map holds the newest jobs. -/
theorem always_jobsInv (tag : Option Bytes) (now : ℚ) {is : List TemplateInput}
    (h : (run (step sha256d) (start tag now) is).Unwrapped) :
    Always (step sha256d) (fun s => s.Numbered ∧ JobsInv s.manager s.issued.length)
      (start tag now) is :=
  always_of_allowed
    (fun _ i hs hi => ⟨numbered_step sha256d i hs.1, (staysValid_step i hs.1 hs.2 hi).1⟩)
    ⟨numbered_start tag now, .new tag now⟩ (allowed_few h)

theorem allowed_staysValid (tag : Option Bytes) (now : ℚ) {is : List TemplateInput}
    (h : (run (step sha256d) (start tag now) is).Unwrapped) :
    Allowed (step sha256d) (StaysValid sha256d) (start tag now) is := by
  have hstep : ∀ (s : JobLog) (i : TemplateInput),
      s.Numbered ∧ JobsInv s.manager s.issued.length →
        (s.step sha256d i).Unwrapped → StaysValid sha256d s i :=
    fun s i hs hi => (staysValid_step i hs.1 hs.2 hi).2
  have hsteps := allowed_of_always hstep (always_jobsInv tag now h)
  exact (hsteps.and (allowed_few h)).imp fun s i hboth => hboth.1 hboth.2

end JobLog

/-- **Issued jobs stay valid** while fewer than `2 ^ 64` of them were issued: no id is reused, the
    announced job is in the map, an eviction takes the oldest, and a new tip keeps the three jobs
    before it. -/
theorem issued_jobs_stay_valid (sha256d : Bytes → Bytes32) (tag : Option Bytes) (now : ℚ)
    (is : List TemplateInput)
    (hfew : (run (JobLog.step sha256d) (JobLog.start tag now) is).Unwrapped) :
    (run (JobLog.step sha256d) (JobLog.start tag now) is).issued.Nodup ∧
      Always (JobLog.step sha256d) (fun s => NamesCached s.manager.jobs s.manager.latestNotify)
        (JobLog.start tag now) is ∧
      Allowed (JobLog.step sha256d) (StaysValid sha256d) (JobLog.start tag now) is := by
  have halways := JobLog.always_jobsInv tag now hfew
  refine ⟨?_, halways.imp fun s hs => hs.2.names_later hs.2 le_rfl (by omega),
    JobLog.allowed_staysValid tag now hfew⟩
  rw [halways.last.1.2, issuedIds_nodup_iff]
  exact Nat.le_of_lt hfew

/-! ## The counter wraps -/

namespace JobLog

variable {sha256d : Bytes → Bytes32}

variable (sha256d) in
theorem numbered_run {s : JobLog} (h : s.Numbered) (is : List TemplateInput) :
    (run (step sha256d) s is).Numbered := by
  induction is generalizing s with
  | nil => exact h
  | cons i is ih => exact ih (numbered_step sha256d i h)

variable (sha256d) in
/-- A new tip is announced. -/
theorem length_issued_newTip {s : JobLog} {i : TemplateInput}
    (h : s.manager.lastPrevHash ≠ i.template.previousblockhash) :
    s.issued.length + 1 ≤ (s.step sha256d i).issued.length ∧
      (s.step sha256d i).manager.lastPrevHash = i.template.previousblockhash := by
  obtain ⟨-, hprev, -, hnew⟩ := s.manager.processTemplate_spec sha256d i
  rw [length_issued_step]
  refine ⟨?_, hprev⟩
  have hsome : (s.manager.processed sha256d i).broadcasts ≠ [] := by
    rcases hnew h with ⟨-, job, more, hout⟩ | ⟨-, job, hout⟩
    · exact fun hnil => List.cons_ne_nil _ _ (hout.symm.trans hnil)
    · exact fun hnil => List.cons_ne_nil _ _ (hout.symm.trans hnil)
  have hpos := List.length_pos_iff.2 hsome
  omega

variable (sha256d) in
/-- Two tips in turn are announced every time. -/
theorem length_issued_alternating {a b : TemplateInput} (hne : a.template.previousblockhash
    ≠ b.template.previousblockhash) (n : ℕ) {s : JobLog}
    (h : s.manager.lastPrevHash ≠ a.template.previousblockhash) :
    s.issued.length + 2 * n
      ≤ (run (step sha256d) s (List.replicate n [a, b]).flatten).issued.length := by
  induction n generalizing s with
  | zero => exact le_rfl
  | succ n ih =>
    obtain ⟨hfirst, hprev⟩ := length_issued_newTip sha256d h
    obtain ⟨hsecond, hprev'⟩ := length_issued_newTip sha256d
      (s := s.step sha256d a) (i := b) (by rwa [hprev])
    have hrest := ih (s := (s.step sha256d a).step sha256d b) (by rw [hprev']; exact hne.symm)
    rw [List.replicate_succ, List.flatten_cons, run_append]
    show _ ≤ (run (step sha256d) ((s.step sha256d a).step sha256d b) _).issued.length
    omega

end JobLog

/-- A template without coinbase on this tip. -/
def tipInput (previousblockhash : String) : TemplateInput :=
  ⟨{ fullCoinbaseTemplate with previousblockhash := previousblockhash, coinbasetxn := none }, 0,
    injectCoinbaseTag sampleCoinbasePrims, injectCoinbaseTag sampleCoinbasePrims⟩

/-- Two tips in turn. -/
def alternatingTips (n : ℕ) : List TemplateInput :=
  (List.replicate n [tipInput "00", tipInput "01"]).flatten

/-- The wrapped counter gives the first ids again. -/
theorem not_nodup_alternatingTips (sha256d : Bytes → Bytes32) {n : ℕ} (h : 2 ^ 64 < 2 * n) :
    ¬ (run (JobLog.step sha256d) (JobLog.start none 0) (alternatingTips n)).issued.Nodup := by
  have hne : (tipInput "00").template.previousblockhash
      ≠ (tipInput "01").template.previousblockhash := by decide
  have hfirst : (JobLog.start none 0).manager.lastPrevHash
      ≠ (tipInput "00").template.previousblockhash := by decide
  have hmany := JobLog.length_issued_alternating sha256d hne n hfirst
  rw [← alternatingTips] at hmany
  have hnumbered := JobLog.numbered_run sha256d (JobLog.numbered_start none 0)
    (alternatingTips n)
  rw [hnumbered.2, issuedIds_nodup_iff]
  omega

/-- **Counterexample.**  Two tips in turn, `2 ^ 63 + 1` times each. -/
theorem job_id_reused :
    ¬ (run (JobLog.step sampleCoinbasePrims.sha256d) (JobLog.start none 0)
      (alternatingTips (2 ^ 63 + 1))).issued.Nodup :=
  not_nodup_alternatingTips _ (by decide)

/-- Two tips: the empty block and the full one, announced once each. -/
theorem issued_jobs_stay_valid_twoTips :
    (run (JobLog.step sampleCoinbasePrims.sha256d) (JobLog.start none 0)
        [tipInput "00", tipInput "01"]).issued = ["1", "2", "3", "4"] ∧
      (run (JobLog.step sampleCoinbasePrims.sha256d) (JobLog.start none 0)
        [tipInput "00", tipInput "01"]).issued.Nodup ∧
      Allowed (JobLog.step sampleCoinbasePrims.sha256d) (StaysValid sampleCoinbasePrims.sha256d)
        (JobLog.start none 0) [tipInput "00", tipInput "01"] := by
  have hissued : (run (JobLog.step sampleCoinbasePrims.sha256d) (JobLog.start none 0)
      [tipInput "00", tipInput "01"]).issued = ["1", "2", "3", "4"] := by decide +kernel
  obtain ⟨hnodup, -, hsteps⟩ := issued_jobs_stay_valid sampleCoinbasePrims.sha256d none 0
    [tipInput "00", tipInput "01"] (by unfold JobLog.Unwrapped; rw [hissued]; decide)
  exact ⟨hissued, hnodup, hsteps⟩

end ZcashMiningPool
