import ZcashMiningPool.Db.Retention
import ZcashMiningPool.Rewards.Window

/-!
# Retention and the share window

`get_pplns_shares` reads the raw rows only, so an hour that `rollup_and_prune_shares` archives is
lost to the window.

* `agedHours`, `Archives` — the hours with a share past the age limit, and those of them a pass
  takes: the earliest `maxHours`.
* `values_rollupHours` — a pass deletes the rows of these hours and nothing else.
* `SparesWindow` — no share of the window lies in such an hour.
* `RewardsKept` — the window's query returns the same before and after.

Main result: `rewardsKept_iff_sparesWindow`.
-/

set_option autoImplicit false

namespace ZcashMiningPool

open Table

namespace ShareStore

/-- The hours with a share past the age limit. -/
def agedHours (st : ShareStore) (olderThanDays : ℤ) : Finset ℕ :=
  ((st.db.shares.values.filter (st.aged olderThanDays)).map
    (fun s => hourOf s.createdAt)).toFinset

/-- Hour `h` has a share past the age limit, and fewer than `maxHours` earlier hours have one. -/
def Archives (st : ShareStore) (olderThanDays : ℤ) (maxHours h : ℕ) : Prop :=
  h ∈ st.agedHours olderThanDays ∧
    ((st.agedHours olderThanDays).filter (· < h)).card < maxHours

instance (st : ShareStore) (olderThanDays : ℤ) (maxHours h : ℕ) :
    Decidable (st.Archives olderThanDays maxHours h) :=
  inferInstanceAs (Decidable (_ ∧ _))

/-- No share of the window lies in an hour the pass archives. -/
def SparesWindow (st : ShareStore) (olderThanDays maxHours windowSize : ℤ) : Prop :=
  ∀ s ∈ st.db.lastShares windowSize,
    ¬ st.Archives olderThanDays maxHours.toNat (hourOf s.createdAt)

instance (st : ShareStore) (olderThanDays maxHours windowSize : ℤ) :
    Decidable (st.SparesWindow olderThanDays maxHours windowSize) :=
  inferInstanceAs (Decidable (∀ s ∈ _, ¬ _))

/-- The window's query returns the same before and after the pass. -/
def RewardsKept (st : ShareStore) (olderThanDays maxHours windowSize : ℤ) : Prop :=
  (st.rollupAndPruneShares olderThanDays maxHours).2.db.getPplnsShares windowSize
    = st.db.getPplnsShares windowSize

instance (st : ShareStore) (olderThanDays maxHours windowSize : ℤ) :
    Decidable (st.RewardsKept olderThanDays maxHours windowSize) :=
  inferInstanceAs (Decidable (_ = _))

/-! ## What a pass deletes -/

theorem hourOf_mono {t u : ℕ} (h : t ≤ u) : hourOf t ≤ hourOf u := by
  have ht := Nat.mod_lt t (show 0 < 3600 by omega)
  have hu := Nat.mod_lt u (show 0 < 3600 by omega)
  have hdt := Nat.div_add_mod t 3600
  have hdu := Nat.div_add_mod u 3600
  have hdiv : t / 3600 ≤ u / 3600 := Nat.div_le_div_right h
  unfold hourOf
  omega

theorem mem_agedHours {st : ShareStore} {days : ℤ} {h : ℕ} :
    h ∈ st.agedHours days ↔
      ∃ s ∈ st.db.shares.values, st.aged days s = true ∧ hourOf s.createdAt = h := by
  unfold agedHours
  rw [List.mem_toFinset, List.mem_map]
  constructor
  · rintro ⟨s, hs, rfl⟩
    exact ⟨s, (List.mem_filter.1 hs).1, (List.mem_filter.1 hs).2, rfl⟩
  · rintro ⟨s, hs, ha, rfl⟩
    exact ⟨s, List.mem_filter.2 ⟨hs, ha⟩, rfl⟩

/-- The picked hour is the earliest of the aged hours. -/
theorem agedHours_of_oldest {st : ShareStore} {days : ℤ} {b : ℕ}
    (h : st.oldestAgedHour days = some b) :
    b ∈ st.agedHours days ∧ ∀ c ∈ st.agedHours days, b ≤ c := by
  obtain ⟨s, hs, ha, rfl, hmin⟩ := oldestAgedHour_eq_some h
  refine ⟨mem_agedHours.2 ⟨s, hs, ha, rfl⟩, fun c hc => ?_⟩
  obtain ⟨s', hs', ha', rfl⟩ := mem_agedHours.1 hc
  exact hourOf_mono (hmin s' hs' ha')

/-- Archiving an hour takes it out of the aged hours. -/
theorem agedHours_archiveHour (st : ShareStore) (days : ℤ) (t : ℕ) :
    (st.archiveHour (hourOf t)).2.agedHours days = (st.agedHours days).erase (hourOf t) := by
  ext h
  rw [Finset.mem_erase, mem_agedHours, mem_agedHours, values_archiveHour]
  constructor
  · rintro ⟨s, hs, ha, rfl⟩
    obtain ⟨hs, hout⟩ := List.mem_filter.1 hs
    refine ⟨fun heq => ?_, s, hs, ha, rfl⟩
    rw [(inHour_hourOf_iff t s).2 heq] at hout
    cases hout
  · rintro ⟨hne, s, hs, ha, rfl⟩
    refine ⟨s, List.mem_filter.2 ⟨hs, ?_⟩, ha, rfl⟩
    rw [Bool.not_eq_true', Bool.eq_false_iff]
    exact fun hin => hne ((inHour_hourOf_iff t s).1 hin)

/-- One more hour: the earliest aged one, or one the rest of the pass takes. -/
theorem archives_succ_iff {st : ShareStore} {days : ℤ} {b n h : ℕ}
    (hb : st.oldestAgedHour days = some b) :
    st.Archives days (n + 1) h ↔ h = b ∨ (st.archiveHour b).2.Archives days n h := by
  obtain ⟨hmem, hmin⟩ := agedHours_of_oldest hb
  obtain ⟨s, -, -, rfl, -⟩ := oldestAgedHour_eq_some hb
  unfold Archives
  rw [agedHours_archiveHour]
  generalize st.agedHours days = hours at *
  by_cases hh : h = hourOf s.createdAt
  · have hnone : hours.filter (· < h) = ∅ := by
      rw [Finset.filter_eq_empty_iff]
      intro c hc
      have := hmin c hc
      omega
    rw [hnone]
    simp [hh, hmem]
  · by_cases hin : h ∈ hours
    · have hlt : hourOf s.createdAt < h := by
        have := hmin h hin
        omega
      have hcard : ((hours.erase (hourOf s.createdAt)).filter (· < h)).card + 1
          = (hours.filter (· < h)).card := by
        rw [Finset.filter_erase]
        exact Finset.card_erase_add_one (Finset.mem_filter.2 ⟨hmem, hlt⟩)
      rw [← hcard]
      simp [hh, hin]
    · simp [hh, hin]

theorem not_archives_zero (st : ShareStore) (days : ℤ) (h : ℕ) : ¬ st.Archives days 0 h :=
  fun ha => Nat.not_lt_zero _ ha.2

theorem not_archives_of_none {st : ShareStore} {days : ℤ} (hn : st.oldestAgedHour days = none)
    (n h : ℕ) : ¬ st.Archives days n h := by
  rintro ⟨hmem, -⟩
  obtain ⟨s, hs, ha, -⟩ := mem_agedHours.1 hmem
  rw [oldestAgedHour_eq_none_iff.1 hn s hs] at ha
  cases ha

/-- **What a pass deletes**: the rows of the hours it archives. -/
theorem values_rollupHours (days : ℤ) (n : ℕ) (st : ShareStore) :
    (rollupHours days n st).2.db.shares.values = st.db.shares.values.filter
      (fun s => !decide (st.Archives days n (hourOf s.createdAt))) := by
  induction n generalizing st with
  | zero =>
    rw [rollupHours]
    symm
    rw [List.filter_eq_self]
    intro s _
    simpa using not_archives_zero st days _
  | succ n ih =>
    rw [rollupHours]
    cases hb : st.oldestAgedHour days with
    | none =>
      symm
      rw [List.filter_eq_self]
      intro s _
      simpa using not_archives_of_none hb (n + 1) _
    | some b =>
      simp only
      rw [ih, values_archiveHour, List.filter_filter]
      apply List.filter_congr
      intro s _
      obtain ⟨s₀, -, -, rfl, -⟩ := oldestAgedHour_eq_some hb
      have hin := inHour_hourOf_iff s₀.createdAt s
      rw [Bool.eq_iff_iff]
      simp [archives_succ_iff hb, ← hin, and_comm]

/-- Apart from the shares a pass leaves the database alone. -/
theorem db_rollupHours (days : ℤ) (n : ℕ) (st : ShareStore) :
    ∃ t, (rollupHours days n st).2.db = { st.db with shares := t } := by
  induction n generalizing st with
  | zero => exact ⟨st.db.shares, rfl⟩
  | succ n ih =>
    rw [rollupHours]
    cases st.oldestAgedHour days with
    | none => exact ⟨st.db.shares, rfl⟩
    | some b =>
      obtain ⟨t, ht⟩ := ih (st.archiveHour b).2
      exact ⟨t, ht⟩

/-! ## What the window loses -/

section Newest

variable {α : Type} {p : α → Bool} {l : List α}

/-- Deleting rows behind the first `n` does not touch these. -/
theorem take_filter_of_spared (n : ℕ) (h : ∀ x ∈ l.take n, p x = true) :
    (l.filter p).take n = l.take n := by
  induction l generalizing n with
  | nil => rfl
  | cons x l ih =>
    cases n with
    | zero => rfl
    | succ n =>
      rw [List.take_succ_cons] at h
      have hx := h x List.mem_cons_self
      have hrest : ∀ y ∈ l.take n, p y = true := fun y hy => h y (List.mem_cons_of_mem _ hy)
      rw [List.filter_cons_of_pos hx, List.take_succ_cons, List.take_succ_cons, ih n hrest]

/-- Where every row behind a deleted one is deleted too, the first `n` rows are not refilled. -/
theorem take_filter_of_closed (n : ℕ)
    (h : l.Pairwise (fun x y => p x = false → p y = false)) :
    (l.filter p).take n = (l.take n).filter p := by
  induction l generalizing n with
  | nil => simp
  | cons x l ih =>
    obtain ⟨hx, hl⟩ := List.pairwise_cons.1 h
    cases n with
    | zero => simp
    | succ n =>
      rw [List.take_succ_cons]
      cases hp : p x with
      | true =>
        rw [List.filter_cons_of_pos hp, List.filter_cons_of_pos hp, List.take_succ_cons, ih n hl]
      | false =>
        have hnil : ∀ m : List α, (∀ y ∈ m, y ∈ l) → m.filter p = [] := by
          intro m hm
          rw [List.filter_eq_nil_iff]
          intro y hy
          rw [hx y (hm y hy) hp]
          exact Bool.false_ne_true
        have hneg : ¬ p x = true := by
          rw [hp]
          exact Bool.false_ne_true
        rw [List.filter_cons_of_neg hneg, List.filter_cons_of_neg hneg, hnil l fun _ hy => hy,
          hnil (l.take n) fun _ hy => List.mem_of_mem_take hy, List.take_nil]

end Newest

/-- The shares as the pool writes them: each has a difficulty and a known worker, and the clock
    did not run backwards between them. -/
structure Regular (db : PoolDb) : Prop where
  positive : ∀ s ∈ db.shares.values, 0 < s.difficulty
  workers : ∀ s ∈ db.shares.values, db.workers.has s.workerId = true
  ordered : db.shares.values.Pairwise (fun s s' => s.createdAt ≤ s'.createdAt)

/-- Of the hours before an archived one, those with shares are archived too. -/
theorem archives_of_le {st : ShareStore} {days : ℤ} {n : ℕ} {s s' : Share}
    (hs' : s' ∈ st.db.shares.values) (hle : s'.createdAt ≤ s.createdAt)
    (h : st.Archives days n (hourOf s.createdAt)) :
    st.Archives days n (hourOf s'.createdAt) := by
  have hhour := hourOf_mono hle
  obtain heq | hlt := hhour.eq_or_lt
  · rw [heq]
    exact h
  · obtain ⟨hmem, hcard⟩ := h
    refine ⟨?_, ?_⟩
    · -- the hour of `s` has an aged share, and `s'` is older than that whole hour
      obtain ⟨z, -, hz, hzs⟩ := mem_agedHours.1 hmem
      refine mem_agedHours.2 ⟨s', hs', ?_, rfl⟩
      have hcreated : s'.createdAt ≤ z.createdAt := by
        by_contra hgt
        have := hourOf_mono (not_le.1 hgt).le
        omega
      unfold aged at hz ⊢
      rw [Bool.and_eq_true, decide_eq_true_eq, decide_eq_true_eq] at hz ⊢
      exact ⟨hz.1, by omega⟩
    · refine lt_of_le_of_lt (Finset.card_le_card fun c hc => ?_) hcard
      obtain ⟨hc, hlt'⟩ := Finset.mem_filter.1 hc
      exact Finset.mem_filter.2 ⟨hc, hlt'.trans hlt⟩

/-- The rows a pass leaves in the table. -/
def spared (st : ShareStore) (olderThanDays maxHours : ℤ) (s : Share) : Bool :=
  !decide (st.Archives olderThanDays maxHours.toNat (hourOf s.createdAt))

theorem sparesWindow_iff {st : ShareStore} {days maxHours windowSize : ℤ} :
    st.SparesWindow days maxHours windowSize ↔
      ∀ s ∈ st.db.lastShares windowSize, st.spared days maxHours s = true := by
  simp [SparesWindow, spared]

/-- The newest shares after a pass are the newest of the spared ones. -/
theorem lastShares_rollup (st : ShareStore) (days maxHours n : ℤ) :
    (st.rollupAndPruneShares days maxHours).2.db.lastShares n =
      if n < 0 then st.db.shares.values.reverse.filter (st.spared days maxHours)
      else (st.db.shares.values.reverse.filter (st.spared days maxHours)).take n.toNat := by
  have hvalues : (st.rollupAndPruneShares days maxHours).2.db.shares.values
      = st.db.shares.values.filter (st.spared days maxHours) :=
    values_rollupHours days maxHours.toNat st
  rw [PoolDb.lastShares, hvalues, List.filter_reverse]

theorem lastShares_of_sparesWindow {st : ShareStore} {days maxHours n : ℤ}
    (h : st.SparesWindow days maxHours n) :
    (st.rollupAndPruneShares days maxHours).2.db.lastShares n = st.db.lastShares n := by
  rw [sparesWindow_iff] at h
  rw [lastShares_rollup]
  unfold PoolDb.lastShares at h ⊢
  split
  · rename_i hn
    rw [if_pos hn] at h
    exact List.filter_eq_self.2 h
  · rename_i hn
    rw [if_neg hn] at h
    exact take_filter_of_spared n.toNat h

/-- Without a clock that ran backwards, what the window loses is not replaced. -/
theorem lastShares_of_ordered {st : ShareStore} (days maxHours n : ℤ)
    (h : st.db.shares.values.Pairwise (fun s s' => s.createdAt ≤ s'.createdAt)) :
    (st.rollupAndPruneShares days maxHours).2.db.lastShares n
      = (st.db.lastShares n).filter (st.spared days maxHours) := by
  have hclosed : st.db.shares.values.reverse.Pairwise
      (fun x y => st.spared days maxHours x = false → st.spared days maxHours y = false) := by
    rw [List.pairwise_reverse]
    refine h.imp_of_mem fun {s' s} hs' _ hle hs => ?_
    unfold spared at hs ⊢
    rw [Bool.not_eq_false', decide_eq_true_eq] at hs ⊢
    exact archives_of_le hs' hle hs
  rw [lastShares_rollup]
  unfold PoolDb.lastShares
  split
  · rfl
  · exact take_filter_of_closed n.toNat hclosed

theorem windowShares_rollup (st : ShareStore) (days maxHours n : ℤ) :
    (st.rollupAndPruneShares days maxHours).2.db.windowShares n =
      ((st.rollupAndPruneShares days maxHours).2.db.lastShares n).filterMap (fun s =>
        (st.db.workers.get? s.workerId).map (fun w => (w.minerId, s.difficulty))) := by
  obtain ⟨t, ht⟩ := db_rollupHours days maxHours.toNat st
  unfold PoolDb.windowShares rollupAndPruneShares
  rw [ht]

/-- A window that is spared is read as before, whatever the table holds. -/
theorem rewardsKept_of_sparesWindow {st : ShareStore} {days maxHours windowSize : ℤ}
    (h : st.SparesWindow days maxHours windowSize) : st.RewardsKept days maxHours windowSize := by
  unfold RewardsKept PoolDb.getPplnsShares
  rw [windowShares_rollup, lastShares_of_sparesWindow h]
  rfl

/-- The difficulties of known workers' shares all reach the query. -/
theorem map_difficulty {db : PoolDb} (l : List Share)
    (h : ∀ s ∈ l, db.workers.has s.workerId = true) :
    (l.filterMap (fun s => (db.workers.get? s.workerId).map
      (fun w => (w.minerId, s.difficulty)))).map Prod.snd = l.map (·.difficulty) := by
  induction l with
  | nil => rfl
  | cons s l ih =>
    obtain ⟨w, hw⟩ := Option.isSome_iff_exists.1 (h s List.mem_cons_self)
    have hrest := ih fun x hx => h x (List.mem_cons_of_mem _ hx)
    rw [List.filterMap_cons, hw]
    simp [hrest]

/-- Positive terms left out make a sum smaller. -/
theorem sum_filter_lt {l : List Share} {p : Share → Bool} (hpos : ∀ s ∈ l, 0 < s.difficulty)
    {s : Share} (hs : s ∈ l) (hp : p s = false) :
    ((l.filter p).map (·.difficulty)).sum < (l.map (·.difficulty)).sum := by
  have hout : s ∈ l.filter (fun x => !p x) := List.mem_filter.2 ⟨hs, by rw [hp]; rfl⟩
  have hlost : 0 < ((l.filter (fun x => !p x)).map (·.difficulty)).sum := by
    apply List.sum_pos
    · intro d hd
      obtain ⟨x, hx, rfl⟩ := List.mem_map.1 hd
      exact hpos x (List.mem_of_mem_filter hx)
    · intro hnil
      rw [List.map_eq_nil_iff] at hnil
      rw [hnil] at hout
      cases hout
  have hsplit := ((List.filter_append_perm p l).map (·.difficulty)).sum_eq
  rw [List.map_append, List.sum_append] at hsplit
  linarith

theorem sparesWindow_of_rewardsKept {st : ShareStore} {days maxHours windowSize : ℤ}
    (hreg : Regular st.db) (h : st.RewardsKept days maxHours windowSize) :
    st.SparesWindow days maxHours windowSize := by
  rw [sparesWindow_iff]
  intro s hs
  by_contra hp
  rw [Bool.not_eq_true] at hp
  have hwin : ∀ x ∈ st.db.lastShares windowSize, x ∈ st.db.shares.values :=
    fun x hx => PoolDb.mem_lastShares hx
  have hkept := congrArg (fun l => (l.map (·.totalDifficulty)).sum) h
  simp only [PoolDb.sum_getPplnsShares, windowShares_rollup,
    lastShares_of_ordered days maxHours windowSize hreg.ordered] at hkept
  rw [PoolDb.windowShares, map_difficulty _ fun x hx => hreg.workers x (hwin x hx),
    map_difficulty _ fun x hx => hreg.workers x (hwin x (List.mem_of_mem_filter hx))] at hkept
  exact absurd hkept (sum_filter_lt (fun x hx => hreg.positive x (hwin x hx)) hs hp).ne

/-- **When retention keeps the rewards.**  A pass that spares the window leaves it as it was, for
    every table; on a regular table a pass that reaches into the window changes it. -/
theorem rewardsKept_iff_sparesWindow (st : ShareStore) (days maxHours windowSize : ℤ) :
    (st.SparesWindow days maxHours windowSize → st.RewardsKept days maxHours windowSize) ∧
    (Regular st.db →
      (st.RewardsKept days maxHours windowSize ↔ st.SparesWindow days maxHours windowSize)) :=
  ⟨rewardsKept_of_sparesWindow, fun hreg =>
    ⟨sparesWindow_of_rewardsKept hreg, rewardsKept_of_sparesWindow⟩⟩

/-- One miner whose only share is 31 days old. -/
def monthOldShare : ShareStore where
  db :=
    let db := Machine.run PoolDb.step PoolDb.empty
      [.getOrCreateMiner "t1miner", .getOrCreateWorker 1 "rig"]
    { db with shares := db.shares.insert ⟨1, "job", 8, false, "session", 0⟩, now := 31 * 86400 }
  sharesRollup := Keyed.empty

/-- The dashboard's pass (30 days, 200 hours) empties the window of 2000 shares: the next block
    finds nobody to credit. -/
theorem monthOldShare_leaves_window :
    monthOldShare.db.getPplnsShares 2000 = [⟨1, 8⟩] ∧
    (monthOldShare.rollupAndPruneShares 30 200).2.db.getPplnsShares 2000 = [] ∧
    ¬ ∀ (st : ShareStore) (days maxHours windowSize : ℤ),
      st.RewardsKept days maxHours windowSize := by
  refine ⟨by decide +kernel, by decide +kernel, fun h => ?_⟩
  have hkept := h monthOldShare 30 200 2000
  revert hkept
  decide +kernel

end ShareStore

end ZcashMiningPool
