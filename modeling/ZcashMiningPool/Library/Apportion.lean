import Mathlib.Algebra.Order.BigOperators.Group.List
import Mathlib.Algebra.Order.Floor.Ring
import Mathlib.Tactic.Linarith

/-!
# Apportionment of a whole amount

A whole amount is split over non-negative weights: every share is rounded down, and the last
one takes whatever is left.

* `split` — the loop, with what was given away so far as its accumulator.
* `sum_split` — the shares add up to the amount, whatever the weights are.
* `split_nonneg` — rounding down never gives away more than the amount, so no share is negative.
* `split_near` — every share is what its weight is due, up to one for each weight.
* `split_eq_concat`, `rest_eq` — every share but the last is the floor of its due, and the last
  one is its due and what was cut from the others.
-/

set_option autoImplicit false

namespace Apportion

variable {K : Type} [Field K] [LinearOrder K] [FloorRing K]

/-- One share per weight; `given` is what earlier weights received. -/
def split (amount : ℤ) (total : K) : ℤ → List K → List ℤ
  | _, [] => []
  | given, [_] => [amount - given]
  | given, w :: w' :: ws =>
    ⌊(amount : K) * (w / total)⌋ ::
      split amount total (given + ⌊(amount : K) * (w / total)⌋) (w' :: ws)

theorem sum_split (amount : ℤ) (total : K) (given : ℤ) {ws : List K} (h : ws ≠ []) :
    (split amount total given ws).sum = amount - given := by
  induction ws generalizing given with
  | nil => exact absurd rfl h
  | cons w ws ih =>
    cases ws with
    | nil => simp [split]
    | cons w' ws =>
      rw [split, List.sum_cons, ih _ (by simp)]
      omega

/-- Every share but the last is the floor of what its weight is due. -/
theorem split_eq_concat (amount : ℤ) (total : K) (given : ℤ) {ws : List K} (h : ws ≠ []) :
    split amount total given ws
      = ws.dropLast.map (fun w => ⌊(amount : K) * (w / total)⌋) ++
        [amount - given - (ws.dropLast.map (fun w => ⌊(amount : K) * (w / total)⌋)).sum] := by
  induction ws generalizing given with
  | nil => exact absurd rfl h
  | cons w ws ih =>
    cases ws with
    | nil => simp [split]
    | cons w' ws =>
      rw [split, ih _ (by simp), List.dropLast_cons_cons, List.map_cons, List.cons_append,
        List.sum_cons, sub_add_eq_sub_sub, sub_add_eq_sub_sub]

variable [IsStrictOrderedRing K]

theorem sum_fract_nonneg (xs : List K) : 0 ≤ (xs.map Int.fract).sum := by
  apply List.sum_nonneg
  intro x hx
  obtain ⟨y, -, rfl⟩ := List.mem_map.1 hx
  exact Int.fract_nonneg y

theorem sum_fract_lt {xs : List K} (h : xs ≠ []) : (xs.map Int.fract).sum < xs.length := by
  induction xs with
  | nil => exact absurd rfl h
  | cons x xs ih =>
    have hx := Int.fract_lt_one x
    rw [List.map_cons, List.sum_cons, List.length_cons, Nat.cast_add, Nat.cast_one]
    by_cases hxs : xs = []
    · subst hxs
      simpa using hx
    · linarith [ih hxs]

/-- What is left for the last weight: its due, and what was cut from the others. -/
theorem rest_eq (amount : ℤ) {ws : List K} (h : ws ≠ []) (hsum : ws.sum ≠ 0) :
    ((amount - (ws.dropLast.map (fun w => ⌊(amount : K) * (w / ws.sum)⌋)).sum : ℤ) : K)
      = amount * (ws.getLast h / ws.sum) +
        ((ws.dropLast.map (fun w => (amount : K) * (w / ws.sum))).map Int.fract).sum := by
  have hfloors : ∀ l : List K, ((l.map (fun w => ⌊(amount : K) * (w / ws.sum)⌋)).sum : K)
      + ((l.map (fun w => (amount : K) * (w / ws.sum))).map Int.fract).sum
        = amount * (l.sum / ws.sum) := by
    intro l
    induction l with
    | nil => simp
    | cons w l ih =>
      have hw := Int.floor_add_fract ((amount : K) * (w / ws.sum))
      simp only [List.map_cons, List.sum_cons, Int.cast_add, add_div, mul_add]
      linarith
  have hparts : ws.dropLast.sum + ws.getLast h = ws.sum := by
    have hlast := congrArg List.sum (List.dropLast_append_getLast h)
    rwa [List.sum_append, List.sum_singleton] at hlast
  have hwhole : (amount : K) * (ws.dropLast.sum / ws.sum) + amount * (ws.getLast h / ws.sum)
      = amount := by
    rw [← mul_add, ← add_div, hparts, div_self hsum, mul_one]
  have hcut := hfloors ws.dropLast
  rw [Int.cast_sub]
  linarith

/-- What is still to be given covers the weights still to come. -/
theorem split_nonneg {amount : ℤ} {total : K} (hamount : 0 ≤ amount) (htotal : 0 < total)
    {given : ℤ} {ws : List K} (hw : ∀ w ∈ ws, 0 ≤ w)
    (hgiven : (amount : K) * (ws.sum / total) ≤ amount - given) :
    ∀ x ∈ split amount total given ws, 0 ≤ x := by
  induction ws generalizing given with
  | nil => simp [split]
  | cons w ws ih =>
    have hA : (0 : K) ≤ amount := by exact_mod_cast hamount
    have hw₀ := hw w List.mem_cons_self
    have hwt : 0 ≤ (amount : K) * (w / total) := mul_nonneg hA (div_nonneg hw₀ htotal.le)
    cases ws with
    | nil =>
      intro x hx
      rw [split, List.mem_singleton] at hx
      subst hx
      rw [List.sum_singleton] at hgiven
      have : (0 : K) ≤ ((amount - given : ℤ) : K) := by
        push_cast
        linarith
      exact_mod_cast this
    | cons w' ws =>
      have hfloor := Int.floor_le ((amount : K) * (w / total))
      have hrest : (amount : K) * ((w' :: ws).sum / total)
          ≤ amount - (given + ⌊(amount : K) * (w / total)⌋ : ℤ) := by
        rw [List.sum_cons, add_div, mul_add] at hgiven
        push_cast
        linarith
      intro x hx
      rw [split] at hx
      rcases List.mem_cons.1 hx with rfl | hx
      · exact Int.floor_nonneg.2 hwt
      · exact ih (fun w hw' => hw w (List.mem_cons_of_mem _ hw')) hrest x hx

/-- From the start nothing is given, and the total is the sum of the weights. -/
theorem split_nonneg_of_sum {amount : ℤ} {ws : List K} (hamount : 0 ≤ amount)
    (hw : ∀ w ∈ ws, 0 ≤ w) (hsum : 0 < ws.sum) : ∀ x ∈ split amount ws.sum 0 ws, 0 ≤ x := by
  apply split_nonneg hamount hsum hw
  rw [div_self hsum.ne']
  simp

/-- **How far a share is from its due**: the rounding of every weight before it adds at most one
    to what the last one takes. -/
theorem split_near {amount : ℤ} {total slack : K} {given : ℤ} {ws : List K}
    (hslack : 0 ≤ slack) (hlow : (amount : K) * (ws.sum / total) ≤ amount - given)
    (hhigh : (amount : K) - given ≤ amount * (ws.sum / total) + slack) :
    List.Forall₂ (fun w x => (amount : K) * (w / total) - 1 ≤ (x : ℤ) ∧
      (x : K) ≤ amount * (w / total) + (slack + ws.length)) ws (split amount total given ws) := by
  induction ws generalizing given slack with
  | nil => exact .nil
  | cons w ws ih =>
    cases ws with
    | nil =>
      simp only [List.sum_cons, List.sum_nil, add_zero] at hlow hhigh
      refine .cons ⟨?_, ?_⟩ .nil
      · push_cast
        linarith
      · push_cast
        simp only [List.length_cons, List.length_nil, Nat.cast_add, Nat.cast_one, Nat.cast_zero]
        linarith
    | cons w' ws =>
      have hfloor := Int.floor_le ((amount : K) * (w / total))
      have hfloor' := Int.sub_one_lt_floor ((amount : K) * (w / total))
      rw [List.sum_cons, add_div, mul_add] at hlow hhigh
      have hrest := @ih (slack + 1) (given + ⌊(amount : K) * (w / total)⌋) (by linarith)
        (by push_cast; linarith) (by push_cast; linarith)
      have hlength : (((w :: w' :: ws).length : ℕ) : K) = (w' :: ws).length + 1 := by
        simp
      refine .cons ⟨hfloor'.le, ?_⟩ (hrest.imp fun v x hx => ⟨hx.1, ?_⟩)
      · have : (0 : K) ≤ (w :: w' :: ws).length := Nat.cast_nonneg _
        linarith
      · rw [hlength]
        linarith [hx.2]

/-- From the start nothing is given, and the total is the sum of the weights. -/
theorem split_near_of_sum {amount : ℤ} {ws : List K} (hsum : ws.sum ≠ 0) :
    List.Forall₂ (fun w x => (amount : K) * (w / ws.sum) - 1 ≤ (x : ℤ) ∧
      (x : K) ≤ amount * (w / ws.sum) + ws.length) ws (split amount ws.sum 0 ws) := by
  have h : List.Forall₂ (fun w x => (amount : K) * (w / ws.sum) - 1 ≤ (x : ℤ) ∧
      (x : K) ≤ amount * (w / ws.sum) + (0 + ws.length)) ws (split amount ws.sum 0 ws) :=
    split_near le_rfl (by rw [div_self hsum]; simp) (by rw [div_self hsum]; simp)
  simpa only [zero_add] using h

end Apportion
