import Mathlib.Data.Nat.Log
import Mathlib.Tactic.Ring

/-!
# Binary hash trees

Roots of lists of leaves under an arbitrary combining function.

* `pairUp` — one level: neighbours are combined, an odd last node stays.
* `collapse` — a level step, repeated while more than one node is left.
* `perfectRoot` — the root of the perfect tree of a given depth, by halves;
  `collapse_pairUp_eq_perfectRoot` — level by level gives the same.
* `pad` — up to the next power of two.
* `evenOut` — an odd level with its last node doubled; `bitcoinRoot` — the root over such levels.
-/

set_option autoImplicit false

namespace MerkleTree

variable {α : Type}

/-! ## Levels -/

/-- Neighbours are combined. -/
def pairUp (node : α → α → α) : List α → List α
  | x :: y :: l => node x y :: pairUp node l
  | l => l

/-- At most `fuel` level steps, while more than one node is left. -/
def collapse (level : List α → List α) : ℕ → List α → List α
  | 0, l => l
  | fuel + 1, l => if 1 < l.length then collapse level fuel (level l) else l

@[simp] theorem pairUp_nil (node : α → α → α) : pairUp node [] = [] := rfl

@[simp] theorem pairUp_singleton (node : α → α → α) (x : α) : pairUp node [x] = [x] := rfl

@[simp] theorem pairUp_cons_cons (node : α → α → α) (x y : α) (l : List α) :
    pairUp node (x :: y :: l) = node x y :: pairUp node l := rfl

theorem length_pairUp (node : α → α → α) (l : List α) :
    (pairUp node l).length = (l.length + 1) / 2 := by
  induction l using pairUp.induct with
  | case1 x y l ih =>
    rw [pairUp_cons_cons, List.length_cons, ih, List.length_cons, List.length_cons]
    omega
  | case2 l hl =>
    match l, hl with
    | [], _ => simp
    | [x], _ => simp
    | x :: y :: l, hl => exact absurd rfl (hl x y l)

/-- An even cut may be made before or after the level step. -/
theorem pairUp_append (node : α → α → α) {l : List α} (h : l.length % 2 = 0) (l' : List α) :
    pairUp node (l ++ l') = pairUp node l ++ pairUp node l' := by
  induction l using pairUp.induct with
  | case1 x y l ih =>
    have hl : l.length % 2 = 0 := by
      rw [List.length_cons, List.length_cons] at h
      omega
    simp only [List.cons_append, pairUp_cons_cons, ih hl]
  | case2 l hl =>
    match l, hl with
    | [], _ => rfl
    | [x], _ => cases h
    | x :: y :: l, hl => exact absurd rfl (hl x y l)

@[simp] theorem collapse_of_length_le_one (level : List α → List α) (fuel : ℕ) {l : List α}
    (h : l.length ≤ 1) : collapse level fuel l = l := by
  cases fuel with
  | zero => rfl
  | succ fuel => rw [collapse, if_neg (by omega)]

/-! ## Perfect trees -/

/-- The root of the perfect tree over the first `2 ^ depth` leaves; `zero` where they end. -/
def perfectRoot (node : α → α → α) (zero : α) : ℕ → List α → α
  | 0, l => l.headD zero
  | depth + 1, l =>
    node (perfectRoot node zero depth (l.take (2 ^ depth)))
      (perfectRoot node zero depth (l.drop (2 ^ depth)))

/-- The tree above one level step. -/
theorem perfectRoot_succ (node : α → α → α) (zero : α) {depth : ℕ} {l : List α}
    (h : l.length = 2 ^ (depth + 1)) :
    perfectRoot node zero (depth + 1) l = perfectRoot node zero depth (pairUp node l) := by
  induction depth generalizing l with
  | zero =>
    match l, h with
    | [x, y], _ => rfl
  | succ depth ih =>
    have hpow : 2 ^ (depth + 1 + 1) = 2 ^ (depth + 1) + 2 ^ (depth + 1) := by ring
    have heven : 2 ^ (depth + 1) % 2 = 0 := by rw [pow_succ, Nat.mul_mod_left]
    have htake : (l.take (2 ^ (depth + 1))).length = 2 ^ (depth + 1) := by
      rw [List.length_take]
      omega
    have hdrop : (l.drop (2 ^ (depth + 1))).length = 2 ^ (depth + 1) := by
      rw [List.length_drop]
      omega
    have hhalf : (pairUp node (l.take (2 ^ (depth + 1)))).length = 2 ^ depth := by
      rw [length_pairUp, htake, pow_succ]
      omega
    have hsplit : pairUp node l
        = pairUp node (l.take (2 ^ (depth + 1))) ++ pairUp node (l.drop (2 ^ (depth + 1))) := by
      rw [← pairUp_append node (by rw [htake]; exact heven), List.take_append_drop]
    rw [perfectRoot, ih htake, ih hdrop, perfectRoot, hsplit,
      List.take_left' hhalf, List.drop_left' hhalf]

/-- **Level by level is half by half**: with enough steps the loop leaves the root of the perfect
    tree. -/
theorem collapse_pairUp_eq_perfectRoot (node : α → α → α) (zero : α) {depth fuel : ℕ}
    (hfuel : depth ≤ fuel) {l : List α} (h : l.length = 2 ^ depth) :
    collapse (pairUp node) fuel l = [perfectRoot node zero depth l] := by
  induction depth generalizing fuel l with
  | zero =>
    obtain ⟨x, rfl⟩ := List.length_eq_one_iff.1 h
    rw [collapse_of_length_le_one _ _ (by simp)]
    rfl
  | succ depth ih =>
    obtain ⟨fuel, rfl⟩ : ∃ n, fuel = n + 1 := ⟨fuel - 1, by omega⟩
    have hone : 1 < l.length := by
      rw [h]
      exact Nat.one_lt_two_pow (Nat.succ_ne_zero depth)
    have hlen : (pairUp node l).length = 2 ^ depth := by
      rw [length_pairUp, h, pow_succ]
      omega
    rw [collapse, if_pos hone, ih (by omega) hlen, perfectRoot_succ node zero h]

/-! ## Padding -/

/-- The smallest power of two that is at least `n`. -/
def nextPowerOfTwo (n : ℕ) : ℕ := 2 ^ Nat.clog 2 n

theorem le_nextPowerOfTwo (n : ℕ) : n ≤ nextPowerOfTwo n := Nat.le_pow_clog (by decide) n

def pad (zero : α) (l : List α) : List α :=
  l ++ List.replicate (nextPowerOfTwo l.length - l.length) zero

theorem length_pad (zero : α) (l : List α) : (pad zero l).length = 2 ^ Nat.clog 2 l.length := by
  have hle := le_nextPowerOfTwo l.length
  unfold pad
  rw [List.length_append, List.length_replicate]
  unfold nextPowerOfTwo at hle ⊢
  omega

/-! ## Trees that double their last node -/

/-- An odd level gets its last node once more. -/
def evenOut (l : List α) : List α := if l.length % 2 = 0 then l else l ++ l.getLast?.toList

/-- One level of the doubling tree. -/
def doublingLevel (node : α → α → α) (l : List α) : List α := pairUp node (evenOut l)

/-- The root of the doubling tree; a list of `n` leaves has at most `n` levels. -/
def bitcoinRoot (node : α → α → α) (l : List α) : Option α :=
  (collapse (doublingLevel node) l.length l).head?

@[simp] theorem bitcoinRoot_singleton (node : α → α → α) (x : α) :
    bitcoinRoot node [x] = some x := rfl

theorem length_evenOut (l : List α) : (evenOut l).length = l.length + l.length % 2 := by
  unfold evenOut
  split
  · omega
  · rename_i h
    cases l with
    | nil => exact absurd rfl h
    | cons x l =>
      rw [List.getLast?_cons]
      simp only [Option.toList_some, List.length_append, List.length_cons, List.length_nil] at h ⊢
      omega

theorem length_doublingLevel (node : α → α → α) (l : List α) :
    (doublingLevel node l).length = (l.length + 1) / 2 := by
  unfold doublingLevel
  rw [length_pairUp, length_evenOut]
  omega

/-- The loop over `n` leaves ends within `n` steps, at one node. -/
theorem length_collapse_doublingLevel (node : α → α → α) {fuel : ℕ} {l : List α} (h : l ≠ [])
    (hfuel : l.length ≤ fuel) : (collapse (doublingLevel node) fuel l).length = 1 := by
  induction fuel generalizing l with
  | zero => exact absurd (List.length_eq_zero_iff.1 (by omega)) h
  | succ fuel ih =>
    have hpos : 0 < l.length := List.length_pos_iff.2 h
    by_cases hone : 1 < l.length
    · have hlen := length_doublingLevel node l
      rw [collapse, if_pos hone]
      apply ih
      · apply List.ne_nil_of_length_pos
        omega
      · omega
    · rw [collapse, if_neg hone]
      omega

/-- Every node above the leaves is a combined one. -/
theorem forall_mem_pairUp {node : α → α → α} {P : α → Prop} (hnode : ∀ x y, P (node x y))
    {l : List α} (h : l.length % 2 = 0) : ∀ x ∈ pairUp node l, P x := by
  induction l using pairUp.induct with
  | case1 x y l ih =>
    have hl : l.length % 2 = 0 := by
      rw [List.length_cons, List.length_cons] at h
      omega
    intro z hz
    rcases List.mem_cons.1 hz with rfl | hz
    · exact hnode x y
    · exact ih hl z hz
  | case2 l hl =>
    match l, hl with
    | [], _ => simp
    | [x], _ => cases h
    | x :: y :: l, hl => exact absurd rfl (hl x y l)

theorem forall_mem_collapse {level : List α → List α} {P : α → Prop}
    (hlevel : ∀ l, ∀ x ∈ level l, P x) (fuel : ℕ) {l : List α} (h : ∀ x ∈ l, P x) :
    ∀ x ∈ collapse level fuel l, P x := by
  induction fuel generalizing l with
  | zero => exact h
  | succ fuel ih =>
    rw [collapse]
    split
    · exact ih (hlevel l)
    · exact h

/-- What holds of every combined node holds of the root above two leaves or more. -/
theorem bitcoinRoot_of_node {node : α → α → α} {P : α → Prop} (hnode : ∀ x y, P (node x y))
    {l : List α} (h : 1 < l.length) {x : α} (hx : bitcoinRoot node l = some x) : P x := by
  have hlevel : ∀ l, ∀ x ∈ doublingLevel node l, P x := by
    intro l
    refine forall_mem_pairUp hnode ?_
    rw [length_evenOut]
    omega
  obtain ⟨n, hn⟩ : ∃ n, l.length = n + 1 := ⟨l.length - 1, by omega⟩
  rw [bitcoinRoot, hn, collapse, if_pos h] at hx
  exact forall_mem_collapse hlevel n (hlevel l) x (List.mem_of_mem_head? hx)

theorem bitcoinRoot_isSome (node : α → α → α) {l : List α} (h : l ≠ []) :
    ∃ x, bitcoinRoot node l = some x := by
  obtain ⟨x, hx⟩ := List.length_eq_one_iff.1
    (length_collapse_doublingLevel node h (le_refl l.length))
  exact ⟨x, by rw [bitcoinRoot, hx]; rfl⟩

end MerkleTree
