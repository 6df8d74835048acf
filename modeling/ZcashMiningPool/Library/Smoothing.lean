import Mathlib.Algebra.Order.Field.Basic
import Mathlib.Tactic.Ring

/-!
# Exponential smoothing

* `ema α s₀ xs` — the exponential moving average of the samples `xs`, newest first, that starts
  at `s₀`; a new sample has the weight `α`.
* `ema_le`, `le_ema` — it stays between bounds of its start and its samples.
-/

namespace Smoothing

variable {𝕜 : Type} [Field 𝕜]

/-- The exponential moving average, newest sample first. -/
def ema (α s₀ : 𝕜) : List 𝕜 → 𝕜
  | [] => s₀
  | x :: xs => α * x + (1 - α) * ema α s₀ xs

@[simp] theorem ema_nil (α s₀ : 𝕜) : ema α s₀ [] = s₀ := rfl

theorem ema_cons (α s₀ x : 𝕜) (xs : List 𝕜) :
    ema α s₀ (x :: xs) = α * x + (1 - α) * ema α s₀ xs := rfl

theorem ema_neg (α s₀ : 𝕜) (xs : List 𝕜) : ema α (-s₀) (xs.map (- ·)) = -ema α s₀ xs := by
  induction xs with
  | nil => rfl
  | cons x xs ih =>
    rw [List.map_cons, ema_cons, ih, ema_cons]
    ring

variable [LinearOrder 𝕜] [IsStrictOrderedRing 𝕜] {α s₀ b : 𝕜} {xs : List 𝕜}

theorem ema_le (h₀ : 0 ≤ α) (h₁ : α ≤ 1) (hs : s₀ ≤ b) (hxs : ∀ x ∈ xs, x ≤ b) :
    ema α s₀ xs ≤ b := by
  induction xs with
  | nil => exact hs
  | cons x xs ih =>
    have hnew : α * x ≤ α * b := mul_le_mul_of_nonneg_left (hxs x List.mem_cons_self) h₀
    have hold : (1 - α) * ema α s₀ xs ≤ (1 - α) * b :=
      mul_le_mul_of_nonneg_left (ih fun y hy => hxs y (List.mem_cons_of_mem x hy))
        (sub_nonneg.2 h₁)
    calc ema α s₀ (x :: xs) ≤ α * b + (1 - α) * b := add_le_add hnew hold
      _ = b := by ring

theorem le_ema (h₀ : 0 ≤ α) (h₁ : α ≤ 1) (hs : b ≤ s₀) (hxs : ∀ x ∈ xs, b ≤ x) :
    b ≤ ema α s₀ xs := by
  have hneg : ema α (-s₀) (xs.map (- ·)) ≤ -b := by
    refine ema_le h₀ h₁ (neg_le_neg hs) fun y hy => ?_
    obtain ⟨x, hx, rfl⟩ := List.mem_map.1 hy
    exact neg_le_neg (hxs x hx)
  rw [ema_neg] at hneg
  exact neg_le_neg_iff.1 hneg

end Smoothing
