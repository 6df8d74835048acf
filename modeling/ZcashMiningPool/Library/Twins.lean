import ZcashMiningPool.Library.Table

/-!
# Tables that agree off some rows

Two tables with the same ids may differ in the rows of `W`, and even there not in the column `col`.

* `Twin` — the relation; `Twin.insert`, `Twin.modifyAll` — the same write on both sides keeps it;
  `Twin.modify_left` — so does any write to a row of `W` on one side.
* `Twin.get?_eq`, `Twin.col_get?`, `Twin.has_eq` — what reads the same on both sides.
* `Twin.select` — so does a query that skips the rows of `W`.
-/

set_option autoImplicit false

namespace Table

namespace Auto

variable {ρ κ : Type} {W : ℕ → Prop} {col : ρ → κ} {t u : Auto ρ}

/-- The same row, or one of `W` with the same column. -/
def TwinRow (W : ℕ → Prop) (col : ρ → κ) (e e' : ℕ × ρ) : Prop :=
  e.1 = e'.1 ∧ col e.2 = col e'.2 ∧ (¬ W e.1 → e = e')

structure Twin (W : ℕ → Prop) (col : ρ → κ) (t u : Auto ρ) : Prop where
  next : t.next = u.next
  rows : List.Forall₂ (TwinRow W col) t.rows u.rows

namespace Twin

protected theorem refl (W : ℕ → Prop) (col : ρ → κ) (t : Auto ρ) : Twin W col t t :=
  ⟨rfl, List.forall₂_same.2 fun _ _ => ⟨rfl, rfl, fun _ => rfl⟩⟩

theorem mono {W' : ℕ → Prop} (h : Twin W col t u) (hW : ∀ i, W i → W' i) : Twin W' col t u :=
  ⟨h.next, h.rows.imp fun _ _ hrow => ⟨hrow.1, hrow.2.1, fun hi => hrow.2.2 (mt (hW _) hi)⟩⟩

/-! ## Reads -/

theorem find? {l l' : List (ℕ × ρ)} (h : List.Forall₂ (TwinRow W col) l l') (i : ℕ) :
    (l.find? fun e => e.1 == i) = none ∧ (l'.find? fun e => e.1 == i) = none ∨
      ∃ e e', (l.find? fun e => e.1 == i) = some e ∧ (l'.find? fun e => e.1 == i) = some e' ∧
        TwinRow W col e e' ∧ e.1 = i := by
  induction h with
  | nil => exact .inl ⟨rfl, rfl⟩
  | @cons e e' l l' hrow hrows ih =>
    rw [List.find?_cons, List.find?_cons, ← hrow.1]
    by_cases hi : e.1 = i
    · rw [beq_iff_eq.2 hi]
      exact .inr ⟨e, e', rfl, rfl, hrow, hi⟩
    · rw [beq_eq_false_iff_ne.2 hi]
      exact ih

theorem get? (h : Twin W col t u) (i : ℕ) :
    t.get? i = none ∧ u.get? i = none ∨
      ∃ r r', t.get? i = some r ∧ u.get? i = some r' ∧ col r = col r' ∧ (¬ W i → r = r') := by
  unfold Auto.get? Keyed.get?
  obtain ⟨hl, hr⟩ | ⟨e, e', hl, hr, hrow, rfl⟩ := find? h.rows i
  · left
    exact ⟨congrArg (Option.map Prod.snd) hl, congrArg (Option.map Prod.snd) hr⟩
  · right
    refine ⟨e.2, e'.2, congrArg (Option.map Prod.snd) hl, congrArg (Option.map Prod.snd) hr,
      hrow.2.1, fun hi => congrArg Prod.snd (hrow.2.2 hi)⟩

theorem get?_eq (h : Twin W col t u) {i : ℕ} (hi : ¬ W i) : t.get? i = u.get? i := by
  obtain ⟨hl, hr⟩ | ⟨r, r', hl, hr, -, hsame⟩ := h.get? i
  · rw [hl, hr]
  · rw [hl, hr, hsame hi]

theorem col_get? (h : Twin W col t u) (i : ℕ) : (t.get? i).map col = (u.get? i).map col := by
  obtain ⟨hl, hr⟩ | ⟨r, r', hl, hr, hcol, -⟩ := h.get? i
  · rw [hl, hr]
  · rw [hl, hr, Option.map_some, Option.map_some, hcol]

theorem has_eq (h : Twin W col t u) (i : ℕ) : t.has i = u.has i := by
  unfold Auto.has
  obtain ⟨hl, hr⟩ | ⟨r, r', hl, hr, -⟩ := h.get? i
  · rw [hl, hr]
  · rw [hl, hr]
    rfl

/-- A query that skips the rows of `W`, by id and column. -/
theorem select {α : Type} (h : Twin W col t u) {p : ℕ → κ → Bool} (hp : ∀ i c, W i → p i c = false)
    (f : ℕ × ρ → α) :
    (t.rows.filter fun e => p e.1 (col e.2)).map f
      = (u.rows.filter fun e => p e.1 (col e.2)).map f := by
  have hrows := h.rows
  generalize t.rows = l at hrows
  generalize u.rows = l' at hrows
  induction hrows with
  | nil => rfl
  | @cons e e' l l' hrow hrows ih =>
    rw [List.filter_cons, List.filter_cons, ← hrow.1, ← hrow.2.1]
    by_cases hkept : p e.1 (col e.2) = true
    · have hsame : e = e' := hrow.2.2 fun hW => by
        rw [hp _ _ hW] at hkept
        cases hkept
      rw [if_pos hkept, if_pos hkept, List.map_cons, List.map_cons, ih, hsame]
    · rw [if_neg hkept, if_neg hkept, ih]

/-! ## Writes -/

theorem insert (h : Twin W col t u) (r : ρ) : Twin W col (t.insert r) (u.insert r) := by
  refine ⟨congrArg (· + 1) h.next, ?_⟩
  refine List.rel_append h.rows (.cons ?_ .nil)
  rw [h.next]
  exact ⟨rfl, rfl, fun _ => rfl⟩

theorem modifyAll (h : Twin W col t u) {f : ℕ → ρ → ρ} (hf : ∀ i r, col (f i r) = col r) :
    Twin W col (t.modifyAll f) (u.modifyAll f) := by
  refine ⟨h.next, ?_⟩
  refine List.forall₂_map_left_iff.2 (List.forall₂_map_right_iff.2 (h.rows.imp ?_))
  rintro e e' ⟨hid, hcol, hsame⟩
  refine ⟨hid, by rw [hf, hf, hcol], fun hW => ?_⟩
  rw [hsame hW]

theorem modify (h : Twin W col t u) (i : ℕ) {f : ρ → ρ} (hf : ∀ r, col (f r) = col r) :
    Twin W col (t.modify i f) (u.modify i f) :=
  h.modifyAll fun j r => by
    split
    · exact hf r
    · rfl

/-- A write to a row of `W` on one side. -/
theorem modify_left (h : Twin W col t u) {i : ℕ} (hi : W i) {f : ρ → ρ}
    (hf : ∀ r, col (f r) = col r) :
    Twin W col (t.modify i f) u := by
  refine ⟨h.next, List.forall₂_map_left_iff.2 (h.rows.imp ?_)⟩
  rintro e e' ⟨hid, hcol, hsame⟩
  dsimp only
  by_cases he : e.1 = i
  · rw [if_pos he]
    exact ⟨hid, (hf _).trans hcol, fun hW => absurd (he ▸ hi) hW⟩
  · rw [if_neg he]
    exact ⟨hid, hcol, hsame⟩

end Twin

end Auto

end Table
