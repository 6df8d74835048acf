import Mathlib.Data.UInt
import ZcashMiningPool.PoolApi.ZebraMetrics

/-!
# Readings

What the lines of a metrics body say, and what the metrics hold after any run of them.

* `Reading`, `readingOf` — at most one metric a line, with its value.
* `record` — the first height stays, a gauge and the version are replaced, a counter is added to;
  `parseLine_eq` — a line is its reading, recorded.
* `readingOf_gauge_append` — a gauge is read in the first line of a text, whatever follows it.
* `heights`, `gaugeValues`, `counts`, `versions` — the values of each metric, in order;
  `foldl_height`, `foldl_gauge`, `foldl_counter`, `foldl_version` — what is left of them.
* `Filled` — every target has a reading; `allTargetsFilled_iff`.
-/

set_option autoImplicit false

namespace ZcashMiningPool

namespace PoolApi

open Text

inductive Reading where
  | height (v : UInt64)
  | gauge (g : Gauge) (v : UInt64)
  | count (c : Counter) (v : UInt64)
  | version (s : String)
  deriving DecidableEq, Repr

def readingOf (line : List Char) : Option Reading :=
  if line = [] ∨ startsWith line "#" then none
  else match verifiedHeightOf line with
  | some v => some (.height v)
  | none => match gaugeOf line with
    | some (g, v) => some (.gauge g v)
    | none =>
      if startsWith line "rpc_requests_total\x7b" then
        (getblocktemplateCount line).map (.count .gbtRequestsTotal)
      else if startsWith line "rpc_errors_total\x7b" then
        (getblocktemplateCount line).map (.count .gbtErrorsTotal)
      else if startsWith line "zebrad_build_info\x7b" || startsWith line "zakura_build_info\x7b" then
        (extractLabel line "version").map (fun ver => .version (String.ofList ver))
      else none

def record (m : ZebraMetrics) : Reading → ZebraMetrics
  | .height v => { m with verifiedHeight := m.verifiedHeight.or (some v) }
  | .gauge g v => m.setGauge v g
  | .count c v => m.addCounter v c
  | .version s => { m with zebraVersion := some s }

def readings (ls : List (List Char)) : List Reading := ls.filterMap readingOf

theorem readings_append (ls ls' : List (List Char)) :
    readings (ls ++ ls') = readings ls ++ readings ls' := List.filterMap_append

/-! ## One line -/

theorem line_of_unlabeledU64 {line : List Char} {name : String} {v : UInt64}
    (h : unlabeledU64 line name = some v) : ∃ rest, line = name.toList ++ ' ' :: rest := by
  unfold unlabeledU64 at h
  cases hname : stripPrefix name.toList line with
  | none =>
    rw [hname] at h
    cases h
  | some rest =>
    cases hspace : stripPrefix [' '] rest with
    | none =>
      rw [hname, Option.bind_eq_bind, Option.bind_some, hspace] at h
      cases h
    | some rest' =>
      have hline := eq_append_of_stripPrefix hname
      rw [eq_append_of_stripPrefix hspace] at hline
      exact ⟨rest', hline⟩

/-- A name without a space that a line begins with is a beginning of the line's own name. -/
theorem prefix_name {p name rest : List Char} (hp : ' ' ∉ p) (h : p <+: name ++ ' ' :: rest) :
    p <+: name := by
  rcases List.prefix_or_prefix_of_prefix h (List.prefix_append name (' ' :: rest)) with hle | ⟨q, rfl⟩
  · exact hle
  · rw [List.prefix_append_right_inj] at h
    cases q with
    | nil =>
      exact ⟨[], by rw [List.append_nil, List.append_nil]⟩
    | cons c q =>
      obtain ⟨rfl, -⟩ := List.cons_prefix_cons.1 h
      exact absurd (List.mem_append_right name List.mem_cons_self) hp

def heightNames : List String :=
  ["zcash_chain_verified_block_height", "state_memory_best_committed_block_height"]

/-- What all other lines that mean something begin with. -/
def otherNames : List String :=
  gauges.map Prod.fst ++ ["rpc_requests_total\x7b", "rpc_errors_total\x7b",
    "zebrad_build_info\x7b", "zakura_build_info\x7b"]

theorem other_names_apart : ∀ p ∈ otherNames, ' ' ∉ p.toList ∧
    ∀ name ∈ heightNames, p.toList.isPrefixOf name.toList = false := by
  decide +kernel

theorem height_line {line : List Char} {v : UInt64} (h : verifiedHeightOf line = some v) :
    ∃ name ∈ heightNames, ∃ rest, line = name.toList ++ ' ' :: rest := by
  unfold verifiedHeightOf at h
  split at h
  · rename_i hold
    exact ⟨_, List.mem_cons_self, line_of_unlabeledU64 hold⟩
  · exact ⟨_, List.mem_cons_of_mem _ List.mem_cons_self, line_of_unlabeledU64 h⟩

/-- A line with a height says nothing else. -/
theorem height_line_other {line : List Char} {v : UInt64} (h : verifiedHeightOf line = some v)
    {p : String} (hp : p ∈ otherNames) : startsWith line p = false := by
  obtain ⟨name, hname, rest, rfl⟩ := height_line h
  obtain ⟨hspace, hnot⟩ := other_names_apart p hp
  rw [startsWith, Bool.eq_false_iff]
  intro hpre
  have hshort := prefix_name hspace (List.isPrefixOf_iff_prefix.1 hpre)
  rw [← List.isPrefixOf_iff_prefix, hnot name hname] at hshort
  cases hshort

theorem unlabeledU64_of_startsWith {line : List Char} {name : String}
    (h : startsWith line name = false) : unlabeledU64 line name = none := by
  have hstrip : stripPrefix name.toList line = none := by
    unfold stripPrefix
    rw [startsWith] at h
    rw [h, if_neg Bool.false_ne_true]
  unfold unlabeledU64
  rw [hstrip]
  rfl

theorem gauge_name_mem {entry : String × Gauge} (h : entry ∈ gauges) : entry.1 ∈ otherNames :=
  List.mem_append_left _ (List.mem_map_of_mem h)

theorem gaugeOf_height_line {line : List Char} {v : UInt64} (h : verifiedHeightOf line = some v) :
    gaugeOf line = none := by
  unfold gaugeOf
  rw [List.findSome?_eq_none_iff]
  intro entry hentry
  rw [unlabeledU64_of_startsWith (height_line_other h (gauge_name_mem hentry))]
  rfl

/-- **A line is its reading, recorded.** -/
theorem parseLine_eq (line : List Char) (m : ZebraMetrics) :
    parseLine line m = (readingOf line).elim m (record m) := by
  unfold parseLine readingOf
  by_cases hskip : line = [] ∨ startsWith line "#" = true
  · rw [if_pos hskip, if_pos hskip]
    rfl
  rw [if_neg hskip, if_neg hskip]
  cases hh : verifiedHeightOf line with
  | none =>
    rw [ite_self]
    cases gaugeOf line with
    | some gv => rfl
    | none =>
      dsimp only
      split
      · cases getblocktemplateCount line <;> rfl
      · split
        · cases getblocktemplateCount line <;> rfl
        · split
          · cases extractLabel line "version" <;> rfl
          · rfl
  | some v =>
    by_cases hm : m.verifiedHeight = none
    · rw [if_pos hm]
      unfold record
      rw [hm]
      rfl
    · -- the height stays, and no other branch takes the line
      have hrest : ∀ p ∈ otherNames, startsWith line p = false :=
        fun p hp => height_line_other hh hp
      have hrecord : record m (.height v) = m := by
        obtain ⟨u, hu⟩ := Option.ne_none_iff_exists'.1 hm
        unfold record
        rw [hu]
        cases m
        cases hu
        rfl
      rw [if_neg hm]
      simp only [gaugeOf_height_line hh, hrest "rpc_requests_total\x7b" (by decide +kernel),
        hrest "rpc_errors_total\x7b" (by decide +kernel),
        hrest "zebrad_build_info\x7b" (by decide +kernel),
        hrest "zakura_build_info\x7b" (by decide +kernel), Bool.or_self, Bool.false_eq_true,
        if_false]
      exact hrecord.symm

theorem parseLine_eq_foldl (line : List Char) (m : ZebraMetrics) :
    parseLine line m = (readings [line]).foldl record m := by
  rw [parseLine_eq]
  unfold readings
  rw [List.filterMap_cons]
  cases readingOf line <;> rfl

theorem foldl_parseLine (m : ZebraMetrics) (ls : List (List Char)) :
    ls.foldl (fun m line => parseLine line m) m = (readings ls).foldl record m := by
  induction ls generalizing m with
  | nil => rfl
  | cons line ls ih =>
    rw [List.foldl_cons, ih, parseLine_eq_foldl, ← List.foldl_append, ← readings_append]
    rfl

/-! ## A line with more behind it -/

theorem unlabeledU64_append {line : List Char} {name : String} {v : UInt64}
    (h : unlabeledU64 line name = some v) (more : List Char) :
    unlabeledU64 (line ++ '\n' :: more) name = some v := by
  unfold unlabeledU64 at h ⊢
  simp only [Option.bind_eq_bind, Option.bind_eq_some_iff] at h ⊢
  obtain ⟨rest, hname, rest', hspace, word, hword, hv⟩ := h
  exact ⟨_, stripPrefix_append hname _, _, stripPrefix_append hspace _, word,
    firstWord_append hword more, hv⟩

theorem gauge_names_nodup : (gauges.map Prod.fst).Nodup := by decide +kernel

/-- A line has one name. -/
theorem unlabeledU64_name {line : List Char} {p q : String} (hp : ' ' ∉ p.toList)
    (hq : ' ' ∉ q.toList) {u v : UInt64} (hpline : unlabeledU64 line p = some u)
    (hqline : unlabeledU64 line q = some v) : p = q := by
  obtain ⟨rest, hrest⟩ := line_of_unlabeledU64 hpline
  obtain ⟨rest', hrest'⟩ := line_of_unlabeledU64 hqline
  have hpq : p.toList <+: q.toList ++ ' ' :: rest' := by
    rw [← hrest', hrest]
    exact List.prefix_append _ _
  have hqp : q.toList <+: p.toList ++ ' ' :: rest := by
    rw [← hrest, hrest']
    exact List.prefix_append _ _
  replace hpq := prefix_name hp hpq
  replace hqp := prefix_name hq hqp
  exact String.toList_inj.1 (hpq.eq_of_length (le_antisymm hpq.length_le hqp.length_le))

theorem gaugeOf_append {line : List Char} {g : Gauge} {v : UInt64} (h : gaugeOf line = some (g, v))
    (more : List Char) : gaugeOf (line ++ '\n' :: more) = some (g, v) := by
  unfold gaugeOf at h ⊢
  rw [List.findSome?_eq_some_iff] at h ⊢
  obtain ⟨tried, entry, later, hsplit, hentry, -⟩ := h
  obtain ⟨u, hu, huv⟩ := Option.map_eq_some_iff.1 hentry
  have hlong := unlabeledU64_append hu more
  refine ⟨tried, entry, later, hsplit, ?_, fun other hother => ?_⟩
  · rw [hlong, Option.map_some, huv]
  · -- another name for the same line would be a second entry of the table
    rw [Option.map_eq_none_iff]
    by_contra hsome
    obtain ⟨w, hw⟩ := Option.ne_none_iff_exists'.1 hsome
    have hspace : ∀ e ∈ gauges, ' ' ∉ e.1.toList :=
      fun e he => (other_names_apart e.1 (gauge_name_mem he)).1
    have hname : other.1 = entry.1 :=
      unlabeledU64_name (hspace other (by rw [hsplit]; simp [hother]))
        (hspace entry (by rw [hsplit]; simp)) hw hlong
    have hnodup := gauge_names_nodup
    rw [hsplit, List.map_append, List.map_cons, List.nodup_append] at hnodup
    exact hnodup.2.2 other.1 (List.mem_map_of_mem hother) entry.1 List.mem_cons_self hname

/-- A line with a gauge is no comment, and says nothing of the height. -/
theorem gauge_line {line : List Char} {g : Gauge} {v : UInt64} (h : gaugeOf line = some (g, v)) :
    ¬ (line = [] ∨ startsWith line "#" = true) ∧ verifiedHeightOf line = none := by
  constructor
  · have hnames : ∀ entry ∈ gauges, entry.1.toList ≠ [] ∧ "#".toList.isPrefixOf entry.1.toList = false
      ∧ ' ' ∉ "#".toList := by decide +kernel
    obtain ⟨entry, hentry, hline⟩ := List.exists_of_findSome?_eq_some h
    obtain ⟨u, hu, -⟩ := Option.map_eq_some_iff.1 hline
    obtain ⟨rest, rfl⟩ := line_of_unlabeledU64 hu
    obtain ⟨hne, hnot, hspace⟩ := hnames entry hentry
    rintro (hnil | hcomment)
    · exact hne (List.append_eq_nil_iff.1 hnil).1
    · have hshort := prefix_name hspace (List.isPrefixOf_iff_prefix.1 hcomment)
      rw [← List.isPrefixOf_iff_prefix, hnot] at hshort
      cases hshort
  · cases hheight : verifiedHeightOf line with
    | none => rfl
    | some u =>
      rw [gaugeOf_height_line hheight] at h
      cases h

theorem readingOf_gauge_iff {line : List Char} {g : Gauge} {v : UInt64} :
    readingOf line = some (.gauge g v) ↔ gaugeOf line = some (g, v) := by
  constructor
  · intro h
    have hno : ∀ {c : Counter} {n : Option UInt64}, n.map (Reading.count c) ≠ some (.gauge g v) := by
      rintro c (_ | n) hn <;> cases hn
    unfold readingOf at h
    split at h
    · cases h
    · split at h
      · cases h
      · split at h
        · rename_i hgauge
          cases h
          exact hgauge
        · split at h
          · exact absurd h hno
          · split at h
            · exact absurd h hno
            · split at h
              · cases hver : extractLabel line "version" with
                | none =>
                  rw [hver] at h
                  cases h
                | some ver =>
                  rw [hver] at h
                  cases h
              · cases h
  · intro h
    obtain ⟨hskip, hheight⟩ := gauge_line h
    unfold readingOf
    rw [if_neg hskip, hheight, h]

/-- **A text that begins with the line of a gauge** reads as this line. -/
theorem readingOf_gauge_append {line : List Char} {g : Gauge} {v : UInt64}
    (h : readingOf line = some (.gauge g v)) (more : List Char) :
    readingOf (line ++ '\n' :: more) = some (.gauge g v) := by
  rw [readingOf_gauge_iff] at h ⊢
  exact gaugeOf_append h more

/-! ## What a run of lines leaves -/

def Reading.heightValue : Reading → Option UInt64
  | .height v => some v
  | _ => none

def Reading.gaugeValue (g : Gauge) : Reading → Option UInt64
  | .gauge g' v => if g' = g then some v else none
  | _ => none

def Reading.countValue (c : Counter) : Reading → Option UInt64
  | .count c' v => if c' = c then some v else none
  | _ => none

def Reading.versionValue : Reading → Option String
  | .version s => some s
  | _ => none

def heights (rs : List Reading) : List UInt64 := rs.filterMap Reading.heightValue

def gaugeValues (g : Gauge) (rs : List Reading) : List UInt64 := rs.filterMap (Reading.gaugeValue g)

def counts (c : Counter) (rs : List Reading) : List UInt64 := rs.filterMap (Reading.countValue c)

def versions (rs : List Reading) : List String := rs.filterMap Reading.versionValue

section Step

variable (m : ZebraMetrics)

theorem record_height (r : Reading) :
    (record m r).verifiedHeight = m.verifiedHeight.or r.heightValue := by
  cases r with
  | height v => rfl
  | gauge g v => cases g <;> exact Option.or_none.symm
  | count c v => cases c <;> exact Option.or_none.symm
  | version s => exact Option.or_none.symm

theorem record_gauge (r : Reading) (g : Gauge) :
    (record m r).gauge g = (r.gaugeValue g).or (m.gauge g) := by
  cases r with
  | height v => cases g <;> rfl
  | gauge g' v => cases g' <;> cases g <;> rfl
  | count c v => cases c <;> cases g <;> rfl
  | version s => cases g <;> rfl

theorem record_counter (r : Reading) (c : Counter) :
    (record m r).counter c
      = match r.countValue c with
        | some v => some ((m.counter c).getD 0 + v)
        | none => m.counter c := by
  cases r with
  | height v => cases c <;> rfl
  | gauge g v => cases g <;> cases c <;> rfl
  | count c' v => cases c' <;> cases c <;> rfl
  | version s => cases c <;> rfl

theorem record_version (r : Reading) :
    (record m r).zebraVersion = r.versionValue.or m.zebraVersion := by
  cases r with
  | height v => rfl
  | gauge g v => cases g <;> rfl
  | count c v => cases c <;> rfl
  | version s => rfl

end Step

theorem filterMap_toList {α β : Type} (f : α → Option β) (a : α) (as : List α) :
    (a :: as).filterMap f = (f a).toList ++ as.filterMap f := by
  rw [List.filterMap_cons]
  cases f a <;> rfl

/-- The first height wins. -/
theorem foldl_height (m : ZebraMetrics) (rs : List Reading) :
    (rs.foldl record m).verifiedHeight = m.verifiedHeight.or (heights rs).head? := by
  induction rs generalizing m with
  | nil => exact Option.or_none.symm
  | cons r rs ih =>
    have hcons : heights (r :: rs) = r.heightValue.toList ++ heights rs := filterMap_toList _ r rs
    rw [List.foldl_cons, ih, record_height, hcons, Option.or_assoc]
    cases r.heightValue <;> rfl

/-- The last value of a list, or the one before it. -/
theorem or_getLast? {α : Type} (v : Option α) (old : Option α) (vs : List α) :
    vs.getLast?.or (v.or old) = (v.toList ++ vs).getLast?.or old := by
  cases v with
  | none => rfl
  | some v =>
    rw [List.getLast?_append, Option.or_assoc]
    rfl

/-- The last value of a gauge wins. -/
theorem foldl_gauge (m : ZebraMetrics) (rs : List Reading) (g : Gauge) :
    (rs.foldl record m).gauge g = (gaugeValues g rs).getLast?.or (m.gauge g) := by
  induction rs generalizing m with
  | nil => rfl
  | cons r rs ih =>
    rw [List.foldl_cons, ih, record_gauge, or_getLast?, gaugeValues, gaugeValues, filterMap_toList]

theorem foldl_version (m : ZebraMetrics) (rs : List Reading) :
    (rs.foldl record m).zebraVersion = (versions rs).getLast?.or m.zebraVersion := by
  induction rs generalizing m with
  | nil => rfl
  | cons r rs ih =>
    rw [List.foldl_cons, ih, record_version, or_getLast?, versions, versions, filterMap_toList]

/-- A counter is the sum of its values, if it has any. -/
theorem foldl_counter (m : ZebraMetrics) (rs : List Reading) (c : Counter) :
    (rs.foldl record m).counter c
      = if counts c rs = [] then m.counter c
        else some ((m.counter c).getD 0 + (counts c rs).sum) := by
  induction rs generalizing m with
  | nil => rfl
  | cons r rs ih =>
    have hcons : counts c (r :: rs) = (r.countValue c).toList ++ counts c rs := filterMap_toList _ r rs
    rw [List.foldl_cons, ih, record_counter, hcons]
    cases r.countValue c with
    | none => rfl
    | some v =>
      rw [Option.toList_some, List.singleton_append, if_neg (List.cons_ne_nil v _), List.sum_cons]
      split
      · rename_i hnil
        rw [hnil, List.sum_nil, UInt64.add_zero]
      · rw [Option.getD_some, UInt64.add_assoc]

/-! ## Targets -/

def Gauge.isTarget : Gauge → Bool
  | .verifiedBlocksTotal => false
  | .mempoolBytes => false
  | _ => true

/-- Every target has a reading. -/
structure Filled (rs : List Reading) : Prop where
  height : heights rs ≠ []
  gauge : ∀ g, g.isTarget = true → gaugeValues g rs ≠ []
  count : ∀ c, counts c rs ≠ []
  version : versions rs ≠ []

theorem Filled.append {rs : List Reading} (h : Filled rs) (rs' : List Reading) :
    Filled (rs ++ rs') := by
  have hgrow : ∀ {β : Type} (f : Reading → Option β), rs.filterMap f ≠ [] →
      (rs ++ rs').filterMap f ≠ [] := by
    intro β f hne hnil
    rw [List.filterMap_append, List.append_eq_nil_iff] at hnil
    exact hne hnil.1
  exact ⟨hgrow _ h.height, fun g hg => hgrow _ (h.gauge g hg), fun c => hgrow _ (h.count c),
    hgrow _ h.version⟩

theorem allTargetsFilled_eq_true (m : ZebraMetrics) :
    allTargetsFilled m = true ↔ m.verifiedHeight.isSome = true ∧
      (∀ g : Gauge, g.isTarget = true → (m.gauge g).isSome = true) ∧
      (∀ c, (m.counter c).isSome = true) ∧ m.zebraVersion.isSome = true := by
  unfold allTargetsFilled
  simp only [Bool.and_eq_true]
  constructor
  · rintro ⟨⟨⟨⟨⟨⟨⟨⟨⟨hh, h1⟩, h2⟩, h3⟩, hc1⟩, hc2⟩, h4⟩, h5⟩, h6⟩, hv⟩
    refine ⟨hh, fun g hg => ?_, fun c => ?_, hv⟩
    · cases g <;> first | assumption | cases hg
    · cases c <;> assumption
  · rintro ⟨hh, hg, hc, hv⟩
    exact ⟨⟨⟨⟨⟨⟨⟨⟨⟨hh, hg .networkTipHeight rfl⟩, hg .distanceToTip rfl⟩,
      hg .rpcActiveRequests rfl⟩, hc .gbtRequestsTotal⟩, hc .gbtErrorsTotal⟩,
      hg .gossipQueuedBlocks rfl⟩, hg .peers rfl⟩, hg .mempoolTxs rfl⟩, hv⟩

theorem allTargetsFilled_iff (rs : List Reading) :
    allTargetsFilled (rs.foldl record {}) = true ↔ Filled rs := by
  have hheight : (rs.foldl record {}).verifiedHeight.isSome = true ↔ heights rs ≠ [] := by
    rw [foldl_height, Option.none_or, List.isSome_head?]
  have hgauge : ∀ g : Gauge, ((rs.foldl record {}).gauge g).isSome = true ↔ gaugeValues g rs ≠ [] := by
    intro g
    have hnone : ({} : ZebraMetrics).gauge g = none := by cases g <;> rfl
    rw [foldl_gauge, hnone, Option.or_none, List.getLast?_isSome]
  have hcount : ∀ c, ((rs.foldl record {}).counter c).isSome = true ↔ counts c rs ≠ [] := by
    intro c
    have hnone : ({} : ZebraMetrics).counter c = none := by cases c <;> rfl
    rw [foldl_counter, hnone]
    split
    · rename_i hnil
      exact ⟨fun h => absurd h Bool.false_ne_true, fun h => absurd hnil h⟩
    · rename_i hne
      exact ⟨fun _ => hne, fun _ => rfl⟩
  have hversion : (rs.foldl record {}).zebraVersion.isSome = true ↔ versions rs ≠ [] := by
    rw [foldl_version, Option.or_none, List.getLast?_isSome]
  rw [allTargetsFilled_eq_true, hheight, hversion]
  constructor
  · rintro ⟨hh, hg, hc, hv⟩
    exact ⟨hh, fun g ht => (hgauge g).1 (hg g ht), fun c => (hcount c).1 (hc c), hv⟩
  · rintro ⟨hh, hg, hc, hv⟩
    exact ⟨hh, fun g ht => (hgauge g).2 (hg g ht), fun c => (hcount c).2 (hc c), hv⟩

end PoolApi

end ZcashMiningPool
