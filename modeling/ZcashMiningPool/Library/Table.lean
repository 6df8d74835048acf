import Mathlib.Algebra.BigOperators.Group.List.Lemmas
import Mathlib.Algebra.Order.BigOperators.Group.List
import Mathlib.Algebra.Ring.Int.Defs
import Mathlib.Algebra.Order.Ring.Int
import Mathlib.Tactic.Abel

/-!
# Tables of a relational store

Row tables with the statements a store runs on them, over arbitrary key and row types.

* `Keyed κ ρ` — a table with a primary key: rows in insertion order, no key twice (the field
  `nodup` carries it, so no table with a repeated key can be built).
* `Auto ρ` — an auto-increment table: ids ascend with insertion and are never handed out twice.
* `get?`, `insert?`, `insertIgnore`, `modify`, `modifyIf`, `modifyAll`, `filter` — `SELECT` by
  key, `INSERT`, `INSERT OR IGNORE`, `UPDATE` by key, `UPDATE` by key with a guard, `UPDATE` of
  the whole table, `DELETE` of the rows that fail a test.
* `map` — the table with its rows read as another type.
* `sum` — `SUM` of an expression over the rows.

Principal results: `get?` after every statement, and `sum_modify`, `sum_insert`, `sum_groups` —
what a statement does to an aggregate, and the aggregate group by group.
-/

namespace Table

/-- Over different values, the one that is asked for counts once. -/
theorem sum_map_single {M γ : Type} [AddCommMonoid M] [DecidableEq γ] {S : List γ} (hS : S.Nodup)
    {x : γ} (hx : x ∈ S) (a : M) : (S.map (fun y => if x = y then a else 0)).sum = a := by
  induction S with
  | nil => cases hx
  | cons y S ih =>
    rw [List.nodup_cons] at hS
    rw [List.map_cons, List.sum_cons]
    by_cases hxy : x = y
    · have hrest : S.map (fun z => if x = z then a else 0) = S.map (fun _ => (0 : M)) := by
        apply List.map_congr_left
        intro z hz
        rw [if_neg]
        rintro rfl
        exact hS.1 (hxy ▸ hz)
      rw [if_pos hxy, hrest]
      simp
    · rw [if_neg hxy, zero_add, ih hS.2 ((List.mem_cons.1 hx).resolve_left hxy)]

/-- A sum over the rows that pass a test. -/
theorem sum_filter_ite {M ρ : Type} [AddCommMonoid M] (l : List ρ) (p : ρ → Bool) (f : ρ → M) :
    ((l.filter p).map f).sum = (l.map (fun e => if p e = true then f e else 0)).sum := by
  induction l with
  | nil => rfl
  | cons e l ih =>
    cases hp : p e <;> simp [hp, ih]

/-- Groups that name every row add up to the whole aggregate. -/
theorem sum_map_groups {M ρ γ : Type} [AddCommMonoid M] [DecidableEq γ] (l : List ρ) (g : ρ → γ)
    (f : ρ → M) {S : List γ} (hS : S.Nodup) (hmem : ∀ e ∈ l, g e ∈ S) :
    (S.map (fun x => (l.map (fun e => if g e = x then f e else 0)).sum)).sum = (l.map f).sum := by
  induction l with
  | nil => simp
  | cons e l ih =>
    simp only [List.map_cons, List.sum_cons, List.sum_map_add]
    rw [ih fun x hx => hmem x (List.mem_cons_of_mem _ hx),
      sum_map_single hS (hmem e List.mem_cons_self)]

/-- A table with primary key `κ`. -/
structure Keyed (κ ρ : Type) where
  rows : List (κ × ρ)
  nodup : (rows.map Prod.fst).Nodup

namespace Keyed

variable {κ ρ : Type}

def empty : Keyed κ ρ := ⟨[], List.nodup_nil⟩

theorem ext_rows {t u : Keyed κ ρ} (h : t.rows = u.rows) : t = u := by
  cases t; cases u; cases h; rfl

/-! ## Reading by key -/

section Get

variable [DecidableEq κ]

/-- The row with key `k`. -/
def get? (t : Keyed κ ρ) (k : κ) : Option ρ := (t.rows.find? (fun e => e.1 == k)).map (·.2)

def has (t : Keyed κ ρ) (k : κ) : Bool := (t.get? k).isSome

@[simp] theorem get?_empty (k : κ) : (empty : Keyed κ ρ).get? k = none := rfl

theorem find?_eq_of_mem {l : List (κ × ρ)} (hn : (l.map Prod.fst).Nodup) {k : κ} {r : ρ}
    (h : (k, r) ∈ l) : l.find? (fun e => e.1 == k) = some (k, r) := by
  induction l with
  | nil => cases h
  | cons e l ih =>
    simp only [List.map_cons, List.nodup_cons] at hn
    rcases List.mem_cons.1 h with rfl | h
    · simp
    · have hne : e.1 ≠ k := fun he => hn.1 (he ▸ List.mem_map_of_mem (f := Prod.fst) h)
      rw [List.find?_cons_of_neg (by simpa using hne)]
      exact ih hn.2 h

theorem get?_eq_some_iff {t : Keyed κ ρ} {k : κ} {r : ρ} :
    t.get? k = some r ↔ (k, r) ∈ t.rows := by
  constructor
  · intro h
    obtain ⟨e, he, rfl⟩ := Option.map_eq_some_iff.1 h
    have hk := List.find?_some he
    have : e.1 = k := by simpa using hk
    subst this
    exact List.mem_of_find?_eq_some he
  · intro h
    simp [get?, find?_eq_of_mem t.nodup h]

theorem get?_eq_none_iff {t : Keyed κ ρ} {k : κ} :
    t.get? k = none ↔ ∀ r, (k, r) ∉ t.rows := by
  constructor
  · intro h r hr
    rw [get?_eq_some_iff.2 hr] at h
    cases h
  · intro h
    cases hg : t.get? k with
    | none => rfl
    | some r => exact absurd (get?_eq_some_iff.1 hg) (h r)

theorem key_not_mem_of_get?_none {t : Keyed κ ρ} {k : κ} (h : t.get? k = none) :
    k ∉ t.rows.map Prod.fst := by
  intro hm
  obtain ⟨e, he, rfl⟩ := List.mem_map.1 hm
  exact get?_eq_none_iff.1 h e.2 he

end Get

/-! ## Statements -/

section Statements

variable [DecidableEq κ]

/-- `INSERT`: refused when the key is taken. -/
def insert? (t : Keyed κ ρ) (k : κ) (r : ρ) : Option (Keyed κ ρ) :=
  if h : t.get? k = none then
    some ⟨t.rows ++ [(k, r)], by
      rw [List.map_append, List.nodup_append]
      refine ⟨t.nodup, by simp, ?_⟩
      intro a ha b hb hab
      simp only [List.map_cons, List.map_nil, List.mem_singleton] at hb
      exact key_not_mem_of_get?_none h (hb ▸ hab ▸ ha)⟩
  else none

/-- `INSERT OR IGNORE`. -/
def insertIgnore (t : Keyed κ ρ) (k : κ) (r : ρ) : Keyed κ ρ := (t.insert? k r).getD t

/-- `UPDATE` of every row. -/
def modifyAll (t : Keyed κ ρ) (f : κ → ρ → ρ) : Keyed κ ρ :=
  ⟨t.rows.map (fun e => (e.1, f e.1 e.2)), by rw [List.map_map]; exact t.nodup⟩

/-- `UPDATE … WHERE key = k`. -/
def modify (t : Keyed κ ρ) (k : κ) (f : ρ → ρ) : Keyed κ ρ :=
  t.modifyAll (fun k' r => if k' = k then f r else r)

/-- `INSERT … ON CONFLICT DO UPDATE`: the row of a key, whether it was there or not. -/
def upsert (t : Keyed κ ρ) (k : κ) (r : ρ) : Keyed κ ρ :=
  (t.insert? k r).getD (t.modify k (fun _ => r))

/-- `UPDATE … WHERE key = k AND p`: `none` when no row was touched. -/
def modifyIf (t : Keyed κ ρ) (k : κ) (p : ρ → Bool) (f : ρ → ρ) : Option (Keyed κ ρ) :=
  match t.get? k with
  | some r => if p r then some (t.modify k f) else none
  | none => none

/-- `DELETE` of the rows that fail `p`. -/
def filter (t : Keyed κ ρ) (p : κ → ρ → Bool) : Keyed κ ρ :=
  ⟨t.rows.filter (fun e => p e.1 e.2), (List.filter_sublist.map Prod.fst).nodup t.nodup⟩

@[simp] theorem get?_modifyAll (t : Keyed κ ρ) (f : κ → ρ → ρ) (k : κ) :
    (t.modifyAll f).get? k = (t.get? k).map (f k) := by
  cases hg : t.get? k with
  | none =>
    refine get?_eq_none_iff.2 fun r hr => ?_
    obtain ⟨e, he, heq⟩ := List.mem_map.1 hr
    cases heq
    exact get?_eq_none_iff.1 hg e.2 he
  | some r =>
    exact get?_eq_some_iff.2 (List.mem_map.2 ⟨(k, r), get?_eq_some_iff.1 hg, rfl⟩)

@[simp] theorem get?_modify (t : Keyed κ ρ) (k k' : κ) (f : ρ → ρ) :
    (t.modify k f).get? k' = if k' = k then (t.get? k').map f else t.get? k' := by
  unfold modify
  rw [get?_modifyAll]
  split <;> simp

theorem get?_insert? {t u : Keyed κ ρ} {k : κ} {r : ρ} (h : t.insert? k r = some u) (k' : κ) :
    u.get? k' = if k' = k then some r else t.get? k' := by
  unfold insert? at h
  split at h
  · rename_i hn
    cases h
    split
    · rename_i he
      subst he
      exact get?_eq_some_iff.2 (by simp)
    · rename_i hne
      cases hg : t.get? k' with
      | some x => exact get?_eq_some_iff.2 (by simp [get?_eq_some_iff.1 hg])
      | none =>
        refine get?_eq_none_iff.2 fun x hx => ?_
        rcases List.mem_append.1 hx with hx | hx
        · exact get?_eq_none_iff.1 hg x hx
        · simp only [List.mem_singleton, Prod.mk.injEq] at hx
          exact hne hx.1
  · cases h

theorem insert?_eq_some_rows {t u : Keyed κ ρ} {k : κ} {r : ρ} (h : t.insert? k r = some u) :
    t.get? k = none ∧ u.rows = t.rows ++ [(k, r)] := by
  unfold insert? at h
  split at h
  · rename_i hn
    cases h
    exact ⟨hn, rfl⟩
  · cases h

theorem insert?_eq_none_iff {t : Keyed κ ρ} {k : κ} {r : ρ} :
    t.insert? k r = none ↔ t.get? k ≠ none := by
  unfold insert?
  split <;> simp_all

@[simp] theorem get?_insertIgnore (t : Keyed κ ρ) (k k' : κ) (r : ρ) :
    (t.insertIgnore k r).get? k' = if k' = k then some ((t.get? k).getD r) else t.get? k' := by
  unfold insertIgnore
  cases hi : t.insert? k r with
  | none =>
    obtain ⟨x, hx⟩ := Option.ne_none_iff_exists'.1 (insert?_eq_none_iff.1 hi)
    simp only [Option.getD_none, hx, Option.getD_some]
    split
    · rename_i he; rw [he, hx]
    · rfl
  | some u =>
    rw [Option.getD_some, get?_insert? hi k', (insert?_eq_some_rows hi).1]
    rfl

@[simp] theorem get?_upsert (t : Keyed κ ρ) (k k' : κ) (r : ρ) :
    (t.upsert k r).get? k' = if k' = k then some r else t.get? k' := by
  unfold upsert
  cases hi : t.insert? k r with
  | none =>
    obtain ⟨x, hx⟩ := Option.ne_none_iff_exists'.1 (insert?_eq_none_iff.1 hi)
    rw [Option.getD_none, get?_modify]
    split
    · rename_i he
      rw [he, hx]
      rfl
    · rfl
  | some u => rw [Option.getD_some, get?_insert? hi k']

theorem get?_filter (t : Keyed κ ρ) (p : κ → ρ → Bool) (k : κ) :
    (t.filter p).get? k = (t.get? k).filter (p k) := by
  cases hg : t.get? k with
  | none =>
    refine get?_eq_none_iff.2 fun r hr => ?_
    exact get?_eq_none_iff.1 hg r (List.mem_filter.1 hr).1
  | some r =>
    cases hp : p k r with
    | false =>
      rw [Option.filter_some_neg (by simp [hp])]
      refine get?_eq_none_iff.2 fun x hx => ?_
      obtain ⟨hm, hpx⟩ := List.mem_filter.1 hx
      have : x = r := by
        have h1 := get?_eq_some_iff.2 hm
        rw [hg] at h1
        exact (Option.some.inj h1).symm
      subst this
      simp [hp] at hpx
    | true =>
      rw [Option.filter_some_pos hp]
      exact get?_eq_some_iff.2 (List.mem_filter.2 ⟨get?_eq_some_iff.1 hg, hp⟩)

theorem modifyIf_eq_some_iff {t u : Keyed κ ρ} {k : κ} {p : ρ → Bool} {f : ρ → ρ} :
    t.modifyIf k p f = some u ↔ ∃ r, t.get? k = some r ∧ p r = true ∧ u = t.modify k f := by
  unfold modifyIf
  constructor
  · intro h
    split at h
    · rename_i r hr
      split at h
      · rename_i hp
        cases h
        exact ⟨r, hr, hp, rfl⟩
      · cases h
    · cases h
  · rintro ⟨r, hr, hp, rfl⟩
    simp only [hr, hp, if_true]

end Statements

/-! ## Another row type -/

section Map

variable {σ : Type}

/-- The rows read as another type. -/
def map (t : Keyed κ ρ) (f : ρ → σ) : Keyed κ σ :=
  ⟨t.rows.map (fun e => (e.1, f e.2)), by rw [List.map_map]; exact t.nodup⟩

theorem map_map {τ : Type} (t : Keyed κ ρ) (f : ρ → σ) (g : σ → τ) :
    (t.map f).map g = t.map (fun r => g (f r)) :=
  ext_rows (by simp [map])

theorem map_id (t : Keyed κ ρ) : t.map (fun r => r) = t := ext_rows (by simp [map])

variable [DecidableEq κ]

@[simp] theorem get?_map (t : Keyed κ ρ) (f : ρ → σ) (k : κ) :
    (t.map f).get? k = (t.get? k).map f := by
  cases hg : t.get? k with
  | none =>
    refine get?_eq_none_iff.2 fun r hr => ?_
    obtain ⟨e, he, heq⟩ := List.mem_map.1 hr
    cases heq
    exact get?_eq_none_iff.1 hg e.2 he
  | some r =>
    exact get?_eq_some_iff.2 (List.mem_map.2 ⟨(k, r), get?_eq_some_iff.1 hg, rfl⟩)

@[simp] theorem has_map (t : Keyed κ ρ) (f : ρ → σ) (k : κ) : (t.map f).has k = t.has k := by
  simp [has]

theorem insertIgnore_map (t : Keyed κ ρ) (f : ρ → σ) (k : κ) (r : ρ) :
    (t.map f).insertIgnore k (f r) = (t.insertIgnore k r).map f := by
  unfold insertIgnore insert?
  by_cases h : t.get? k = none
  · rw [dif_pos h, dif_pos (by simp [h])]
    exact ext_rows (by simp [map])
  · rw [dif_neg h, dif_neg (by simp [h])]
    rfl

/-- An `UPDATE` of every row, read as the other type. -/
theorem modifyAll_map {t : Keyed κ ρ} {f : ρ → σ} {g : κ → ρ → ρ} {g' : κ → σ → σ}
    (h : ∀ k r, t.get? k = some r → g' k (f r) = f (g k r)) :
    (t.map f).modifyAll g' = (t.modifyAll g).map f := by
  refine ext_rows ?_
  simp only [map, modifyAll, List.map_map]
  refine List.map_congr_left fun e he => ?_
  simp only [Function.comp_apply, h e.1 e.2 (get?_eq_some_iff.2 he)]

theorem modify_map {t : Keyed κ ρ} {f : ρ → σ} {k : κ} {g : ρ → ρ} {g' : σ → σ}
    (h : ∀ r, t.get? k = some r → g' (f r) = f (g r)) :
    (t.map f).modify k g' = (t.modify k g).map f := by
  refine modifyAll_map fun k' r hr => ?_
  by_cases hk : k' = k
  · subst hk
    simp only [if_true, h r hr]
  · simp only [if_neg hk]

theorem modifyIf_map {t : Keyed κ ρ} {f : ρ → σ} {k : κ} {p : ρ → Bool} {p' : σ → Bool}
    {g : ρ → ρ} {g' : σ → σ} (hp : ∀ r, p' (f r) = p r)
    (h : ∀ r, t.get? k = some r → p r = true → g' (f r) = f (g r)) :
    (t.map f).modifyIf k p' g' = (t.modifyIf k p g).map (fun t => t.map f) := by
  unfold modifyIf
  rw [get?_map]
  cases hr : t.get? k with
  | none => rfl
  | some r =>
    simp only [Option.map_some, hp]
    split
    · rename_i hpr
      rw [Option.map_some, modify_map fun r' hr' => h r' hr' ?_]
      rw [hr] at hr'
      exact Option.some.inj hr' ▸ hpr
    · rfl

end Map

/-! ## Aggregates -/

section Sum

variable {M : Type} [AddCommGroup M]

/-- `SUM(f)` over the rows. -/
def sum (t : Keyed κ ρ) (f : κ → ρ → M) : M := (t.rows.map (fun e => f e.1 e.2)).sum

@[simp] theorem sum_empty (f : κ → ρ → M) : (empty : Keyed κ ρ).sum f = 0 := rfl

theorem sum_congr {t : Keyed κ ρ} {f g : κ → ρ → M} (h : ∀ e ∈ t.rows, f e.1 e.2 = g e.1 e.2) :
    t.sum f = t.sum g := by
  unfold sum
  rw [List.map_congr_left h]

theorem sum_add (t : Keyed κ ρ) (f g : κ → ρ → M) :
    t.sum (fun k r => f k r + g k r) = t.sum f + t.sum g := by
  simp [sum, List.sum_map_add]

theorem sum_modifyAll (t : Keyed κ ρ) (g : κ → ρ → ρ) (f : κ → ρ → M) :
    (t.modifyAll g).sum f = t.sum (fun k r => f k (g k r)) := by
  simp [sum, modifyAll, List.map_map, Function.comp_def]

theorem sum_groups {γ : Type} [DecidableEq γ] (t : Keyed κ ρ) (g : κ → ρ → γ) (f : κ → ρ → M)
    {S : List γ} (hS : S.Nodup) (hmem : ∀ e ∈ t.rows, g e.1 e.2 ∈ S) :
    (S.map (fun x => t.sum (fun k r => if g k r = x then f k r else 0))).sum = t.sum f :=
  sum_map_groups t.rows (fun e => g e.1 e.2) (fun e => f e.1 e.2) hS hmem

variable [DecidableEq κ]

/-- The term of one key. -/
theorem sum_key (t : Keyed κ ρ) (k : κ) (f : ρ → M) :
    t.sum (fun k' r => if k' = k then f r else 0) = ((t.get? k).map f).getD 0 := by
  unfold sum get?
  have hn := t.nodup
  generalize t.rows = l at hn
  show (l.map (fun e => if e.1 = k then f e.2 else 0)).sum = _
  induction l with
  | nil => rfl
  | cons e l ih =>
    rw [List.map_cons, List.nodup_cons] at hn
    rw [List.map_cons, List.sum_cons]
    by_cases hk : e.1 = k
    · have hrest : l.map (fun x => if x.1 = k then f x.2 else 0) = l.map (fun _ => (0 : M)) := by
        apply List.map_congr_left
        intro x hx
        rw [if_neg]
        rintro rfl
        exact hn.1 (hk ▸ List.mem_map_of_mem (f := Prod.fst) hx)
      rw [if_pos hk, hrest, List.find?_cons_of_pos (by simpa using hk)]
      simp
    · rw [if_neg hk, zero_add, List.find?_cons_of_neg (by simpa using hk), ih hn.2]

theorem sum_insert {t u : Keyed κ ρ} {k : κ} {r : ρ} (h : t.insert? k r = some u)
    (f : κ → ρ → M) : u.sum f = t.sum f + f k r := by
  simp [sum, (insert?_eq_some_rows h).2]

theorem sum_rows_replace {l : List (κ × ρ)} (hn : (l.map Prod.fst).Nodup) {k : κ} {r : ρ}
    (hr : (k, r) ∈ l) (g : ρ → ρ) (f : κ → ρ → M) :
    (l.map (fun e => f e.1 (if e.1 = k then g e.2 else e.2))).sum
      = (l.map (fun e => f e.1 e.2)).sum - f k r + f k (g r) := by
  induction l with
  | nil => cases hr
  | cons e l ih =>
    simp only [List.map_cons, List.nodup_cons] at hn
    simp only [List.map_cons, List.sum_cons]
    rcases List.mem_cons.1 hr with rfl | hr
    · have hrest : l.map (fun e => f e.1 (if e.1 = k then g e.2 else e.2))
          = l.map (fun e => f e.1 e.2) := by
        refine List.map_congr_left fun e he => ?_
        have hk : e.1 ≠ k := by
          rintro rfl
          have := List.mem_map_of_mem (f := Prod.fst) he
          exact hn.1 this
        rw [if_neg hk]
      rw [hrest]
      simp only [if_true]
      abel
    · have hk : e.1 ≠ k := fun hk => hn.1 (hk ▸ List.mem_map_of_mem (f := Prod.fst) hr)
      rw [ih hn.2 hr, if_neg hk]
      abel

/-- A keyed update replaces one term of the aggregate. -/
theorem sum_modify {t : Keyed κ ρ} {k : κ} {r : ρ} (h : t.get? k = some r) (g : ρ → ρ)
    (f : κ → ρ → M) : (t.modify k g).sum f = t.sum f - f k r + f k (g r) := by
  unfold modify
  rw [sum_modifyAll]
  exact sum_rows_replace t.nodup (get?_eq_some_iff.1 h) g f

theorem modify_of_get?_none {t : Keyed κ ρ} {k : κ} (h : t.get? k = none) (g : ρ → ρ) :
    t.modify k g = t := by
  refine ext_rows ?_
  unfold modify modifyAll
  simp only
  rw [List.map_congr_left (g := id), List.map_id]
  intro e he
  have hk : e.1 ≠ k := by
    rintro rfl
    exact key_not_mem_of_get?_none h (List.mem_map_of_mem (f := Prod.fst) he)
  simp [hk]

/-- Replacing or adding a row replaces its term of the aggregate; a missing row counts as zero. -/
theorem sum_upsert (t : Keyed κ ρ) (k : κ) (r : ρ) (f : κ → ρ → M) :
    (t.upsert k r).sum f = t.sum f - ((t.get? k).map (f k)).getD 0 + f k r := by
  unfold upsert
  cases hk : t.get? k with
  | none =>
    cases hu : t.insert? k r with
    | none => exact absurd hk (insert?_eq_none_iff.1 hu)
    | some u => simp [sum_insert hu]
  | some r₀ =>
    have hu : t.insert? k r = none := insert?_eq_none_iff.2 (by simp [hk])
    simp [hu, sum_modify hk]

end Sum

theorem sum_nonneg {t : Keyed κ ρ} {f : κ → ρ → ℤ} (h : ∀ e ∈ t.rows, 0 ≤ f e.1 e.2) :
    0 ≤ t.sum f := by
  refine List.sum_nonneg fun x hx => ?_
  obtain ⟨e, he, rfl⟩ := List.mem_map.1 hx
  exact h e he

/-- One row is at most a sum of non-negative rows. -/
theorem le_sum [DecidableEq κ] {t : Keyed κ ρ} {f : κ → ρ → ℤ}
    (h : ∀ e ∈ t.rows, 0 ≤ f e.1 e.2) {k : κ} {r : ρ} (hr : t.get? k = some r) :
    f k r ≤ t.sum f := by
  refine List.single_le_sum (fun x hx => ?_) _ (List.mem_map.2 ⟨(k, r), get?_eq_some_iff.1 hr, rfl⟩)
  obtain ⟨e, he, rfl⟩ := List.mem_map.1 hx
  exact h e he

end Keyed

/-! ## Auto-increment tables -/

/-- A table whose ids ascend with insertion; `next` is above every id ever handed out. -/
structure Auto (ρ : Type) where
  rows : List (ℕ × ρ)
  next : ℕ
  sorted : (rows.map Prod.fst).Pairwise (· < ·)
  fresh : ∀ e ∈ rows, e.1 < next

namespace Auto

variable {ρ : Type}

/-- The first id is 1. -/
def empty : Auto ρ := ⟨[], 1, List.Pairwise.nil, fun _ h => by cases h⟩

/-- The table read by its id. -/
def keyed (t : Auto ρ) : Keyed ℕ ρ := ⟨t.rows, t.sorted.imp Nat.ne_of_lt⟩

def get? (t : Auto ρ) (i : ℕ) : Option ρ := t.keyed.get? i

def has (t : Auto ρ) (i : ℕ) : Bool := (t.get? i).isSome

/-- The oldest row that passes `p`, with its id. -/
def find? (t : Auto ρ) (p : ρ → Bool) : Option (ℕ × ρ) := t.rows.find? (fun e => p e.2)

/-- `INSERT`: the new row gets id `t.next`. -/
def insert (t : Auto ρ) (r : ρ) : Auto ρ where
  rows := t.rows ++ [(t.next, r)]
  next := t.next + 1
  sorted := by
    rw [List.map_append, List.pairwise_append]
    refine ⟨t.sorted, by simp, ?_⟩
    intro a ha b hb
    obtain ⟨e, he, rfl⟩ := List.mem_map.1 ha
    simp only [List.map_cons, List.map_nil, List.mem_singleton] at hb
    exact hb ▸ t.fresh e he
  fresh := by
    intro e he
    rcases List.mem_append.1 he with he | he
    · exact Nat.lt_succ_of_lt (t.fresh e he)
    · simp only [List.mem_singleton] at he
      exact he ▸ Nat.lt_succ_self _

/-- `UPDATE` of every row. -/
def modifyAll (t : Auto ρ) (f : ℕ → ρ → ρ) : Auto ρ where
  rows := t.rows.map (fun e => (e.1, f e.1 e.2))
  next := t.next
  sorted := by rw [List.map_map]; exact t.sorted
  fresh := by
    intro e he
    obtain ⟨e', he', rfl⟩ := List.mem_map.1 he
    exact t.fresh e' he'

/-- `UPDATE … WHERE id = i`. -/
def modify (t : Auto ρ) (i : ℕ) (f : ρ → ρ) : Auto ρ :=
  t.modifyAll (fun j r => if j = i then f r else r)

/-- `DELETE` of the rows that fail `p`. -/
def filter (t : Auto ρ) (p : ρ → Bool) : Auto ρ where
  rows := t.rows.filter (fun e => p e.2)
  next := t.next
  sorted := t.sorted.sublist (List.filter_sublist.map Prod.fst)
  fresh := fun e he => t.fresh e (List.mem_filter.1 he).1

theorem ext_rows {t u : Auto ρ} (h : t.rows = u.rows) (hn : t.next = u.next) : t = u := by
  cases t; cases u; cases h; cases hn; rfl

/-- Updates of single rows by one idempotent function are an update of the whole table. -/
theorem foldl_modify {f : ρ → ρ} (hf : ∀ r, f (f r) = f r) (ids : List ℕ) (t : Auto ρ) :
    ids.foldl (fun t i => t.modify i f) t = t.modifyAll (fun i r => if i ∈ ids then f r else r) := by
  induction ids generalizing t with
  | nil => exact ext_rows (by simp [modifyAll]) rfl
  | cons j ids ih =>
    rw [List.foldl_cons, ih]
    refine ext_rows ?_ (by rfl)
    simp only [modify, modifyAll, List.map_map]
    apply List.map_congr_left
    intro e _
    by_cases hj : e.1 = j
    · by_cases hi : j ∈ ids <;> simp [hj, hi, hf]
    · simp [hj]

/-- The rows without their ids, oldest first. -/
def values (t : Auto ρ) : List ρ := t.rows.map (·.2)

@[simp] theorem values_empty : (empty : Auto ρ).values = [] := rfl

@[simp] theorem values_insert (t : Auto ρ) (r : ρ) : (t.insert r).values = t.values ++ [r] := by
  simp [values, insert]

@[simp] theorem values_filter (t : Auto ρ) (p : ρ → Bool) :
    (t.filter p).values = t.values.filter p := by
  simp [values, filter, List.filter_map, Function.comp_def]

theorem mem_values {t : Auto ρ} {r : ρ} : r ∈ t.values ↔ ∃ i, (i, r) ∈ t.rows := by
  simp [values]

@[simp] theorem keyed_modifyAll (t : Auto ρ) (f : ℕ → ρ → ρ) :
    (t.modifyAll f).keyed = t.keyed.modifyAll f := rfl

@[simp] theorem keyed_modify (t : Auto ρ) (i : ℕ) (f : ρ → ρ) :
    (t.modify i f).keyed = t.keyed.modify i f := rfl

@[simp] theorem keyed_filter (t : Auto ρ) (p : ρ → Bool) :
    (t.filter p).keyed = t.keyed.filter (fun _ r => p r) := rfl

@[simp] theorem get?_empty (i : ℕ) : (empty : Auto ρ).get? i = none := rfl

theorem get?_lt_next {t : Auto ρ} {i : ℕ} {r : ρ} (h : t.get? i = some r) : i < t.next :=
  t.fresh _ (Keyed.get?_eq_some_iff.1 h)

@[simp] theorem get?_next (t : Auto ρ) : t.get? t.next = none := by
  cases h : t.get? t.next with
  | none => rfl
  | some r => exact absurd (get?_lt_next h) (Nat.lt_irrefl _)

theorem get?_insert (t : Auto ρ) (r : ρ) (i : ℕ) :
    (t.insert r).get? i = if i = t.next then some r else t.get? i := by
  split
  · rename_i h
    subst h
    exact Keyed.get?_eq_some_iff.2 (by simp [keyed, insert])
  · rename_i hne
    cases hg : t.get? i with
    | some x =>
      exact Keyed.get?_eq_some_iff.2 (List.mem_append_left _ (Keyed.get?_eq_some_iff.1 hg))
    | none =>
      refine Keyed.get?_eq_none_iff.2 fun x hx => ?_
      rcases List.mem_append.1 hx with hx | hx
      · exact Keyed.get?_eq_none_iff.1 hg x hx
      · simp only [List.mem_singleton, Prod.mk.injEq] at hx
        exact hne hx.1

@[simp] theorem get?_modifyAll (t : Auto ρ) (f : ℕ → ρ → ρ) (i : ℕ) :
    (t.modifyAll f).get? i = (t.get? i).map (f i) := Keyed.get?_modifyAll t.keyed f i

@[simp] theorem get?_modify (t : Auto ρ) (i j : ℕ) (f : ρ → ρ) :
    (t.modify i f).get? j = if j = i then (t.get? j).map f else t.get? j :=
  Keyed.get?_modify t.keyed i j f

theorem has_iff {t : Auto ρ} {i : ℕ} : t.has i = true ↔ ∃ r, (i, r) ∈ t.rows := by
  unfold has
  rw [Option.isSome_iff_exists]
  exact exists_congr fun r => Keyed.get?_eq_some_iff

@[simp] theorem has_modify (t : Auto ρ) (i j : ℕ) (f : ρ → ρ) :
    (t.modify i f).has j = t.has j := by
  unfold has
  rw [get?_modify]
  split <;> simp

theorem has_insert {t : Auto ρ} {i : ℕ} (h : t.has i = true) (r : ρ) :
    (t.insert r).has i = true := by
  obtain ⟨x, hx⟩ := has_iff.1 h
  exact has_iff.2 ⟨x, List.mem_append_left _ hx⟩

theorem mem_values_of_get? {t : Auto ρ} {i : ℕ} {r : ρ} (h : t.get? i = some r) : r ∈ t.values :=
  mem_values.2 ⟨i, Keyed.get?_eq_some_iff.1 h⟩

theorem mem_values_modifyAll {t : Auto ρ} {f : ℕ → ρ → ρ} {r : ρ}
    (h : r ∈ (t.modifyAll f).values) : ∃ i r₀, t.get? i = some r₀ ∧ r = f i r₀ := by
  obtain ⟨i, hi⟩ := mem_values.1 h
  obtain ⟨e, he, heq⟩ := List.mem_map.1 hi
  cases heq
  exact ⟨e.1, e.2, Keyed.get?_eq_some_iff.2 he, rfl⟩

/-- A row after a keyed update is an old row or the updated one. -/
theorem mem_values_modify {t : Auto ρ} {i : ℕ} {f : ρ → ρ} {r : ρ}
    (h : r ∈ (t.modify i f).values) : r ∈ t.values ∨ ∃ r₀, t.get? i = some r₀ ∧ r = f r₀ := by
  obtain ⟨j, r₀, hr₀, rfl⟩ := mem_values_modifyAll h
  split
  · rename_i hj
    exact .inr ⟨r₀, hj ▸ hr₀, rfl⟩
  · exact .inl (mem_values_of_get? hr₀)

theorem modify_of_get?_none {t : Auto ρ} {i : ℕ} (h : t.get? i = none) (f : ρ → ρ) :
    t.modify i f = t := by
  have hk := Keyed.modify_of_get?_none h f
  refine ext_rows ?_ rfl
  exact congrArg Keyed.rows hk

section Sum

variable {M : Type} [AddCommGroup M]

/-- `SUM(f)` over the rows. -/
def sum (t : Auto ρ) (f : ρ → M) : M := t.keyed.sum (fun _ r => f r)

theorem sum_eq (t : Auto ρ) (f : ρ → M) : t.sum f = (t.rows.map (fun e => f e.2)).sum := rfl

theorem sum_values (t : Auto ρ) (f : ρ → M) : t.sum f = (t.values.map f).sum := by
  rw [sum_eq, values, List.map_map]
  rfl

@[simp] theorem sum_empty (f : ρ → M) : (empty : Auto ρ).sum f = 0 := rfl

@[simp] theorem sum_insert (t : Auto ρ) (r : ρ) (f : ρ → M) :
    (t.insert r).sum f = t.sum f + f r := by
  simp [sum_eq, insert]

theorem sum_modify {t : Auto ρ} {i : ℕ} {r : ρ} (h : t.get? i = some r) (g : ρ → ρ) (f : ρ → M) :
    (t.modify i g).sum f = t.sum f - f r + f (g r) := Keyed.sum_modify h g _

theorem sum_modifyAll (t : Auto ρ) (g : ℕ → ρ → ρ) (f : ρ → M) :
    (t.modifyAll g).sum f = t.keyed.sum (fun i r => f (g i r)) :=
  Keyed.sum_modifyAll t.keyed g (fun _ r => f r)

theorem sum_congr {t : Auto ρ} {f g : ρ → M} (h : ∀ e ∈ t.rows, f e.2 = g e.2) :
    t.sum f = t.sum g := Keyed.sum_congr h

end Sum

theorem sum_nonneg {t : Auto ρ} {f : ρ → ℤ} (h : ∀ e ∈ t.rows, 0 ≤ f e.2) : 0 ≤ t.sum f :=
  Keyed.sum_nonneg h

end Auto

/-- Over rows with different keys, one that passes a test and shares its key with every other one
    that does is the only one. -/
theorem countP_eq_one {κ ρ : Type} {l : List (κ × ρ)} (hn : (l.map Prod.fst).Nodup)
    {p : κ × ρ → Bool} {e : κ × ρ} (he : e ∈ l) (hp : p e = true)
    (huniq : ∀ x ∈ l, p x = true → x.1 = e.1) : l.countP p = 1 := by
  rw [List.countP_eq_length_filter]
  have hsub : ((l.filter p).map Prod.fst).Nodup := (List.filter_sublist.map Prod.fst).nodup hn
  have hkey : ∀ x ∈ l.filter p, x.1 = e.1 := fun x hx =>
    huniq x (List.mem_filter.1 hx).1 (List.mem_filter.1 hx).2
  have hmem : e ∈ l.filter p := List.mem_filter.2 ⟨he, hp⟩
  cases hl : l.filter p with
  | nil =>
    rw [hl] at hmem
    cases hmem
  | cons x rest =>
    rw [hl] at hsub hkey
    cases rest with
    | nil => rfl
    | cons y rest =>
      have hxy : x.1 = y.1 := (hkey x (by simp)).trans (hkey y (by simp)).symm
      simp [hxy] at hsub

/-- Over rows with different keys, the rows whose key is among the first `n` are the first `n`. -/
theorem sum_of_mem_take {l : List (ℕ × ℤ)} (hn : (l.map Prod.fst).Nodup) (n : ℕ) :
    (l.map (fun e => if e.1 ∈ (l.take n).map Prod.fst then e.2 else 0)).sum
      = ((l.take n).map Prod.snd).sum := by
  induction l generalizing n with
  | nil => simp
  | cons e l ih =>
    simp only [List.map_cons, List.nodup_cons] at hn
    cases n with
    | zero => simp
    | succ n =>
      have hrest : l.map (fun x => if x.1 ∈ ((e :: l).take (n + 1)).map Prod.fst then x.2 else 0)
          = l.map (fun x => if x.1 ∈ (l.take n).map Prod.fst then x.2 else 0) := by
        apply List.map_congr_left
        intro x hx
        have hne : x.1 ≠ e.1 := fun h => hn.1 (h ▸ List.mem_map_of_mem (f := Prod.fst) hx)
        simp only [List.take_succ_cons, List.map_cons, List.mem_cons, hne, false_or]
      rw [List.map_cons, List.sum_cons, hrest, ih hn.2]
      simp

end Table
