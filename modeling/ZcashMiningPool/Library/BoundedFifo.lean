import Mathlib.Data.List.DropRight

/-!
# Bounded first-in first-out histories

A history that keeps the last `cap` items: a new item is appended, and the oldest one leaves when
there are too many.

* `push` — one item.
* `Within n x buf` — `x` is among the newest `n` items.
* `mem_push_self`, `within_push_self`, `within_push` — what is pushed is the newest, and every later
  push moves it back by one.
* `push_rtake` — what is kept is the end of everything that was pushed.
* `mem_of_within` — an item is forgotten only after `cap` later ones.
-/

set_option autoImplicit false

namespace BoundedFifo

variable {α : Type}

/-- Oldest first. -/
def push (cap : ℕ) (buf : List α) (x : α) : List α :=
  if cap < (buf ++ [x]).length then (buf ++ [x]).tail else buf ++ [x]

def Within (n : ℕ) (x : α) (buf : List α) : Prop := x ∈ buf.reverse.take n

theorem mem_of_within {n : ℕ} {x : α} {buf : List α} (h : Within n x buf) : x ∈ buf :=
  List.mem_reverse.1 (List.mem_of_mem_take h)

/-- What is pushed is there, however long the history was. -/
theorem mem_push_self {cap : ℕ} (hcap : 0 < cap) (buf : List α) (x : α) : x ∈ push cap buf x := by
  unfold push
  cases buf with
  | nil =>
    have hfits : ¬ cap < ([] ++ [x] : List α).length := by
      simp only [List.nil_append, List.length_singleton]
      omega
    rw [if_neg hfits]
    simp
  | cons y buf => split <;> simp

/-- Newest first, a push is a cons that is cut at the end. -/
theorem reverse_push (cap : ℕ) (buf : List α) (x : α) :
    (push cap buf x).reverse = if cap < buf.length + 1 then (x :: buf.reverse).dropLast
      else x :: buf.reverse := by
  have hrev : (buf ++ [x]).reverse = x :: buf.reverse := by simp
  unfold push
  rw [List.length_append, List.length_singleton]
  split
  · rw [← hrev, List.dropLast_reverse]
  · exact hrev

theorem length_push {cap : ℕ} {buf : List α} (h : buf.length ≤ cap) (x : α) :
    (push cap buf x).length ≤ cap := by
  have hrev := congrArg List.length (reverse_push cap buf x)
  rw [List.length_reverse] at hrev
  rw [hrev]
  split
  · simp only [List.length_dropLast, List.length_cons, List.length_reverse]
    omega
  · simp only [List.length_cons, List.length_reverse]
    omega

/-- The newest `n` items of a history that keeps at least `n` survive a push. -/
theorem take_reverse_push {cap n : ℕ} {buf : List α} (hn : n ≤ cap) (hlen : buf.length ≤ cap)
    (x : α) : (push cap buf x).reverse.take n = (x :: buf.reverse).take n := by
  rw [reverse_push]
  split
  · rename_i hfull
    rw [List.dropLast_eq_take, List.take_take]
    congr 1
    simp only [List.length_cons, List.length_reverse]
    omega
  · rfl

/-- A history that is pushed to since it was empty holds the last items of the whole list. -/
theorem push_rtake {cap : ℕ} (hcap : 0 < cap) (l : List α) (x : α) :
    push cap (l.rtake cap) x = (l ++ [x]).rtake cap := by
  have hbound : (l.rtake cap).length ≤ cap := by
    rw [List.rtake, List.length_drop]
    omega
  have hlast := take_reverse_push (le_refl cap) hbound x
  have hlen : (push cap (l.rtake cap) x).reverse.length ≤ cap := by
    rw [List.length_reverse]
    exact length_push hbound x
  have hcut : ((x :: l.reverse.take cap).take cap) = (x :: l.reverse).take cap := by
    obtain ⟨n, rfl⟩ : ∃ n, cap = n + 1 := ⟨cap - 1, by omega⟩
    rw [List.take_succ_cons, List.take_succ_cons, List.take_take]
    congr 2
    omega
  rw [List.take_of_length_le hlen, List.rtake_eq_reverse_take_reverse, List.reverse_reverse,
    hcut] at hlast
  apply List.reverse_injective
  rw [List.rtake_eq_reverse_take_reverse, hlast, List.rtake_eq_reverse_take_reverse,
    List.reverse_reverse, List.reverse_append]
  rfl

/-- Cutting the end of a list before one more item changes nothing. -/
theorem rtake_rtake_concat {n : ℕ} (hn : 0 < n) (l : List α) (x : α) :
    (l.rtake n ++ [x]).rtake n = (l ++ [x]).rtake n := by
  obtain ⟨n, rfl⟩ : ∃ k, n = k + 1 := ⟨n - 1, by omega⟩
  rw [List.rtake_concat_succ, List.rtake_concat_succ]
  congr 1
  simp only [List.rtake_eq_reverse_take_reverse, List.reverse_reverse, List.take_take]
  rw [min_eq_left (Nat.le_succ n)]

theorem within_push_self {cap : ℕ} {buf : List α} (hcap : 0 < cap) (hlen : buf.length ≤ cap)
    (x : α) : Within 1 x (push cap buf x) := by
  unfold Within
  rw [take_reverse_push hcap hlen]
  simp

theorem within_push {cap n : ℕ} {x : α} {buf : List α} (h : Within n x buf) (hn : n < cap)
    (hlen : buf.length ≤ cap) (y : α) : Within (n + 1) x (push cap buf y) := by
  unfold Within at *
  rw [take_reverse_push hn hlen, List.take_succ_cons]
  exact List.mem_cons_of_mem _ h

end BoundedFifo
