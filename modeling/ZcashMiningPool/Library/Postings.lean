import Mathlib.Algebra.BigOperators.Ring.Finset
import Mathlib.Algebra.BigOperators.Ring.List
import Mathlib.Data.Int.Basic
import Mathlib.Tactic.Ring

/-!
# Postings on a chart of accounts

A chart has accounts `α` and kinds of movements `κ`; one unit of movement `k` changes account `a`
by `unit k a`.  A posting is a movement with an amount.

* `post` — the accounts after a list of postings.
* `weigh w` — a linear figure of the accounts, given by the weight of each account.
* `weigh_post_of_balanced` — a figure to which every posted movement adds nothing is conserved.
-/

namespace Postings

variable {α κ : Type}

/-- The accounts after the postings `l`. -/
def post (unit : κ → α → ℤ) (s : α → ℤ) (l : List (κ × ℤ)) : α → ℤ := fun a =>
  s a + (l.map (fun e => e.2 * unit e.1 a)).sum

/-- The figure with weights `w`. -/
def weigh [Fintype α] (w : α → ℤ) (s : α → ℤ) : ℤ := ∑ a, w a * s a

@[simp] theorem post_nil (unit : κ → α → ℤ) (s : α → ℤ) : post unit s [] = s := by
  funext a
  simp [post]

theorem post_append (unit : κ → α → ℤ) (s : α → ℤ) (l l' : List (κ × ℤ)) :
    post unit s (l ++ l') = post unit (post unit s l) l' := by
  funext a
  simp [post, add_assoc]

theorem post_single (unit : κ → α → ℤ) (s : α → ℤ) (k : κ) (x : ℤ) (a : α) :
    post unit s [(k, x)] a = s a + x * unit k a := by
  simp [post]

variable [Fintype α]

theorem weigh_post (unit : κ → α → ℤ) (w : α → ℤ) (s : α → ℤ) (l : List (κ × ℤ)) :
    weigh w (post unit s l) = weigh w s + (l.map (fun e => e.2 * weigh w (unit e.1))).sum := by
  induction l generalizing s with
  | nil => simp
  | cons e l ih =>
    have hcons : e :: l = [e] ++ l := rfl
    rw [hcons, post_append, ih]
    have hone : weigh w (post unit s [e]) = weigh w s + e.2 * weigh w (unit e.1) := by
      unfold weigh
      rw [Finset.mul_sum, ← Finset.sum_add_distrib]
      refine Finset.sum_congr rfl fun a _ => ?_
      rw [show e = (e.1, e.2) from rfl, post_single]
      ring
    rw [hone]
    simp
    ring

/-- **Conservation.**  A figure to which every posted movement adds nothing does not change. -/
theorem weigh_post_of_balanced {unit : κ → α → ℤ} {w : α → ℤ} {l : List (κ × ℤ)}
    (h : ∀ e ∈ l, weigh w (unit e.1) = 0) (s : α → ℤ) :
    weigh w (post unit s l) = weigh w s := by
  rw [weigh_post, List.map_congr_left (g := fun _ => 0) fun e he => by rw [h e he, mul_zero]]
  simp

end Postings
