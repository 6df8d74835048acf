import Mathlib.Algebra.BigOperators.Group.Finset.Piecewise
import Mathlib.Algebra.Order.Ring.Int
import Mathlib.Tactic.Ring

/-!
# Guarded transfers between buckets

Every holder `κ` owns an amount in every bucket `β`.  A transfer moves an amount of one holder
between two buckets and is refused when the source bucket cannot cover it; a batch of transfers
is all-or-nothing.

* `move`, `move?`, `moveAll?` — one transfer, the guarded transfer, the guarded batch.
* `demand l k` — what the rows `l` ask of holder `k` in total.
* `moveAll?_eq_some_iff` — a batch of non-negative rows succeeds exactly when every holder it
  names can cover its total demand, and then every holder moves exactly its demand.
-/

namespace Buckets

variable {κ β : Type}

/-- What every holder owns in every bucket. -/
abbrev Books (κ β : Type) := κ → β → ℤ

variable [DecidableEq κ] [DecidableEq β]

/-- Move `a` of holder `k` from `src` to `dst`. -/
def move (s : Books κ β) (src dst : β) (k : κ) (a : ℤ) : Books κ β := fun k' b =>
  s k' b + if k' = k then (if b = dst then a else 0) - (if b = src then a else 0) else 0

/-- The transfer, refused when `src` does not cover it. -/
def move? (s : Books κ β) (src dst : β) (k : κ) (a : ℤ) : Option (Books κ β) :=
  if a ≤ s k src then some (move s src dst k a) else none

/-- A batch of guarded transfers. -/
def moveAll? (src dst : β) : Books κ β → List (κ × ℤ) → Option (Books κ β)
  | s, [] => some s
  | s, e :: l => (move? s src dst e.1 e.2).bind (fun s' => moveAll? src dst s' l)

/-- What the rows ask of holder `k` in total. -/
def demand (l : List (κ × ℤ)) (k : κ) : ℤ := (l.map (fun e => if e.1 = k then e.2 else 0)).sum

/-- Every holder moves its demand. -/
def moveDemand (s : Books κ β) (src dst : β) (l : List (κ × ℤ)) : Books κ β := fun k b =>
  s k b + ((if b = dst then demand l k else 0) - (if b = src then demand l k else 0))

/-! ## Demand -/

@[simp] theorem demand_nil (k : κ) : demand ([] : List (κ × ℤ)) k = 0 := rfl

@[simp] theorem demand_cons (e : κ × ℤ) (l : List (κ × ℤ)) (k : κ) :
    demand (e :: l) k = (if e.1 = k then e.2 else 0) + demand l k := by
  simp [demand]

theorem demand_append (l l' : List (κ × ℤ)) (k : κ) :
    demand (l ++ l') k = demand l k + demand l' k := by
  simp [demand]

theorem demand_nonneg {l : List (κ × ℤ)} (h : ∀ e ∈ l, 0 ≤ e.2) (k : κ) : 0 ≤ demand l k := by
  induction l with
  | nil => simp
  | cons e l ih =>
    have he := h e List.mem_cons_self
    have hl := ih fun x hx => h x (List.mem_cons_of_mem _ hx)
    rw [demand_cons]
    split <;> omega

theorem demand_eq_zero {l : List (κ × ℤ)} {k : κ} (h : ∀ e ∈ l, e.1 ≠ k) : demand l k = 0 := by
  induction l with
  | nil => rfl
  | cons e l ih =>
    rw [demand_cons, if_neg (h e List.mem_cons_self),
      ih fun x hx => h x (List.mem_cons_of_mem _ hx), add_zero]

theorem demand_perm {l l' : List (κ × ℤ)} (h : l.Perm l') (k : κ) : demand l k = demand l' k :=
  (h.map _).sum_eq

/-- Rows are either removed, and then part of a demand, or stay. -/
theorem sum_filter_not_add_demand {ρ : Type} (l : List ρ) (p : ρ → Bool) (holder : ρ → κ)
    (amount : ρ → ℤ) (k : κ) :
    ((l.filter (fun r => !p r)).map (fun r => if holder r = k then amount r else 0)).sum +
        demand ((l.filter p).map (fun r => (holder r, amount r))) k
      = (l.map (fun r => if holder r = k then amount r else 0)).sum := by
  induction l with
  | nil => rfl
  | cons r l ih =>
    cases hp : p r with
    | true =>
      simp only [List.filter_cons, hp, Bool.not_true, Bool.false_eq_true, if_false, if_true,
        List.map_cons, List.sum_cons, demand_cons, ← ih]
      ring
    | false =>
      simp only [List.filter_cons, hp, Bool.not_false, Bool.false_eq_true, if_false, if_true,
        List.map_cons, List.sum_cons, ← ih]
      ring

theorem demand_le_of_sublist {l l' : List (κ × ℤ)} (h : l.Sublist l') (hl : ∀ e ∈ l', 0 ≤ e.2)
    (k : κ) : demand l k ≤ demand l' k := by
  induction h with
  | slnil => exact le_rfl
  | cons e _ ih =>
    have he := hl e List.mem_cons_self
    have := ih fun x hx => hl x (List.mem_cons_of_mem _ hx)
    rw [demand_cons]
    split <;> omega
  | cons_cons e _ ih =>
    have := ih fun x hx => hl x (List.mem_cons_of_mem _ hx)
    rw [demand_cons, demand_cons]
    omega

/-! ## Transfers -/

theorem move_other {s : Books κ β} {src dst : β} {k k' : κ} (h : k' ≠ k) (a : ℤ) :
    move s src dst k a k' = s k' := by
  funext b
  simp [move, h]

theorem move_move (s : Books κ β) (src dst : β) (e : κ × ℤ) (l : List (κ × ℤ)) :
    moveDemand (move s src dst e.1 e.2) src dst l = moveDemand s src dst (e :: l) := by
  funext k b
  simp only [moveDemand, move, demand_cons, eq_comm (a := k) (b := e.1)]
  split_ifs <;> ring

theorem moveAll?_some {src dst : β} : ∀ {l : List (κ × ℤ)} {s t : Books κ β},
    moveAll? src dst s l = some t → t = moveDemand s src dst l
  | [], s, t, h => by
    cases h
    funext k b
    simp [moveDemand]
  | e :: l, s, t, h => by
    obtain ⟨s', hs', ht⟩ := Option.bind_eq_some_iff.1 h
    unfold move? at hs'
    split at hs'
    · cases hs'
      rw [moveAll?_some ht, move_move]
    · cases hs'

theorem moveAll?_isSome {src dst : β} (hne : src ≠ dst) {l : List (κ × ℤ)} {s : Books κ β}
    (hl : ∀ e ∈ l, 0 ≤ e.2) :
    (moveAll? src dst s l).isSome ↔ ∀ e ∈ l, demand l e.1 ≤ s e.1 src := by
  induction l generalizing s with
  | nil => simp [moveAll?]
  | cons e l ih =>
    have hl' : ∀ x ∈ l, 0 ≤ x.2 := fun x hx => hl x (List.mem_cons_of_mem _ hx)
    have he := hl e List.mem_cons_self
    have hsrc : ∀ k, move s src dst e.1 e.2 k src = s k src - if e.1 = k then e.2 else 0 := by
      intro k
      simp only [move, if_neg hne, if_true, eq_comm (a := k)]
      split <;> omega
    simp only [moveAll?, move?]
    constructor
    · intro h x hx
      split at h
      · rename_i hcov
        have hrest := (ih hl').1 (by simpa using h)
        rcases List.mem_cons.1 hx with rfl | hx
        · by_cases hin : ∃ y ∈ l, y.1 = x.1
          · obtain ⟨y, hy, hyx⟩ := hin
            have := hrest y hy
            rw [hsrc, hyx] at this
            simp only [demand_cons, if_true] at this ⊢
            omega
          · have : demand l x.1 = 0 := demand_eq_zero fun y hy hyx => hin ⟨y, hy, hyx⟩
            simp only [demand_cons, if_true, this]
            omega
        · have := hrest x hx
          rw [hsrc] at this
          rw [demand_cons]
          omega
      · simp at h
    · intro h
      have hcov : e.2 ≤ s e.1 src := by
        have h1 := h e List.mem_cons_self
        have h2 := demand_nonneg hl' e.1
        simp only [demand_cons, if_true] at h1
        omega
      rw [if_pos hcov, Option.bind_some]
      refine (ih hl').2 fun x hx => ?_
      have := h x (List.mem_cons_of_mem _ hx)
      rw [hsrc]
      rw [demand_cons] at this
      omega

/-- **A batch is all-or-nothing and per holder**: it succeeds exactly when every holder it names
    covers its total demand, and then every holder moves exactly its demand. -/
theorem moveAll?_eq_some_iff {src dst : β} (hne : src ≠ dst) {l : List (κ × ℤ)} {s t : Books κ β}
    (hl : ∀ e ∈ l, 0 ≤ e.2) :
    moveAll? src dst s l = some t ↔
      (∀ e ∈ l, demand l e.1 ≤ s e.1 src) ∧ t = moveDemand s src dst l := by
  constructor
  · intro h
    exact ⟨(moveAll?_isSome hne hl).1 (by rw [h]; rfl), moveAll?_some h⟩
  · rintro ⟨h, rfl⟩
    obtain ⟨t, ht⟩ := Option.isSome_iff_exists.1 ((moveAll?_isSome hne hl).2 h)
    rw [ht, moveAll?_some ht]

end Buckets
