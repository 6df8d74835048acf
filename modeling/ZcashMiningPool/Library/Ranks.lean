import Mathlib.Data.List.Sort
import Mathlib.Data.Rat.Floor
import Mathlib.Tactic.Linarith

/-!
# Order statistics of a list

The element that stands at a given rank of the sorted list, and the nearest rank of a quantile.

* `atRank` — the element of rank `k`, counted from zero.
* `atRank_le_count`, `atRank_ge_count` — how many elements lie on either side of it.
* `atRank_mono` — higher ranks have larger elements.
* `nearestRank` — the rank of a quantile `q`, to the nearest, halves up.
* `quantile` — the element at the nearest rank; an empty list has none.
-/

set_option autoImplicit false

namespace Ranks

variable {α : Type} [LinearOrder α]

def sorted (l : List α) : List α := l.insertionSort (· ≤ ·)

def atRank (l : List α) (k : ℕ) : Option α := (sorted l)[k]?

theorem perm_sorted (l : List α) : (sorted l).Perm l := List.perm_insertionSort _ _

theorem pairwise_sorted (l : List α) : (sorted l).Pairwise (· ≤ ·) := List.pairwise_insertionSort _ _

@[simp] theorem length_sorted (l : List α) : (sorted l).length = l.length :=
  (perm_sorted l).length_eq

variable {l : List α} {k k' : ℕ} {x y : α}

theorem atRank_mem (h : atRank l k = some x) : x ∈ l :=
  (perm_sorted l).mem_iff.1 (List.mem_of_getElem? h)

theorem exists_atRank (h : k < l.length) : ∃ x, atRank l k = some x :=
  ⟨_, List.getElem?_eq_getElem (by rwa [length_sorted])⟩

theorem atRank_lt (h : atRank l k = some x) : k < l.length := by
  obtain ⟨hlt, -⟩ := List.getElem?_eq_some_iff.1 h
  rwa [length_sorted] at hlt

theorem atRank_mono (hk : k ≤ k') (hx : atRank l k = some x) (hy : atRank l k' = some y) :
    x ≤ y := by
  obtain ⟨hlt, rfl⟩ := List.getElem?_eq_some_iff.1 hx
  obtain ⟨hlt', rfl⟩ := List.getElem?_eq_some_iff.1 hy
  obtain rfl | hk := hk.eq_or_lt
  · exact le_rfl
  · exact List.pairwise_iff_getElem.1 (pairwise_sorted l) k k' hlt hlt' hk

/-- Up to its rank the elements are at most `x`. -/
theorem atRank_le_count (h : atRank l k = some x) : k + 1 ≤ l.countP (· ≤ x) := by
  obtain ⟨hlt, hx⟩ := List.getElem?_eq_some_iff.1 h
  rw [← (perm_sorted l).countP_eq, ← List.take_append_drop (k + 1) (sorted l), List.countP_append]
  have hall : ((sorted l).take (k + 1)).countP (· ≤ x) = ((sorted l).take (k + 1)).length := by
    refine List.countP_eq_length.2 fun y hy => ?_
    obtain ⟨i, hi, rfl⟩ := List.mem_iff_getElem.1 hy
    rw [List.length_take] at hi
    rw [List.getElem_take]
    exact decide_eq_true (atRank_mono (by omega) (List.getElem?_eq_getElem (by omega)) h)
  rw [hall, List.length_take]
  omega

/-- From its rank on the elements are at least `x`. -/
theorem atRank_ge_count (h : atRank l k = some x) : l.length - k ≤ l.countP (x ≤ ·) := by
  obtain ⟨hlt, hx⟩ := List.getElem?_eq_some_iff.1 h
  rw [← (perm_sorted l).countP_eq, ← List.take_append_drop k (sorted l), List.countP_append]
  have hall : ((sorted l).drop k).countP (x ≤ ·) = ((sorted l).drop k).length := by
    refine List.countP_eq_length.2 fun y hy => ?_
    obtain ⟨i, hi, rfl⟩ := List.mem_iff_getElem.1 hy
    rw [List.length_drop] at hi
    rw [List.getElem_drop]
    exact decide_eq_true (atRank_mono (Nat.le_add_right k i) h
      (List.getElem?_eq_getElem (by omega)))
  rw [hall, List.length_drop, length_sorted]
  omega

/-! ## Quantiles -/

/-- The rank of the quantile `q` among `n` elements. -/
def nearestRank (n : ℕ) (q : ℚ) : ℕ := ⌊(n - 1) * q + 1 / 2⌋₊

theorem nearestRank_mono {n : ℕ} (hn : 0 < n) {p q : ℚ} (h : p ≤ q) :
    nearestRank n p ≤ nearestRank n q := by
  have hpos : (0 : ℚ) ≤ n - 1 := by
    have : (1 : ℚ) ≤ n := by exact_mod_cast hn
    linarith
  have := mul_le_mul_of_nonneg_left h hpos
  exact Nat.floor_le_floor (by linarith)

theorem nearestRank_lt {n : ℕ} (hn : 0 < n) {q : ℚ} (h : q ≤ 1) : nearestRank n q < n := by
  have hmono := nearestRank_mono hn h
  have hone : nearestRank n 1 < n := by
    unfold nearestRank
    rw [mul_one, Nat.floor_lt' (by omega)]
    linarith
  omega

def quantile (l : List α) (q : ℚ) : Option α := atRank l (nearestRank l.length q)

theorem quantile_eq_none_iff {q : ℚ} (h : q ≤ 1) : quantile l q = none ↔ l = [] := by
  constructor
  · intro hnone
    by_contra hne
    obtain ⟨x, hx⟩ := exists_atRank (nearestRank_lt (List.length_pos_of_ne_nil hne) h)
    exact absurd (hnone.symm.trans hx) (by simp)
  · rintro rfl
    rfl

theorem quantile_mono {p q : ℚ} (h : p ≤ q) (hx : quantile l p = some x)
    (hy : quantile l q = some y) : x ≤ y :=
  atRank_mono (nearestRank_mono ((Nat.zero_le _).trans_lt (atRank_lt hx)) h) hx hy

/-- What a quantile says: that share of the list, up to half an element, lies on either side. -/
theorem quantile_spec {q : ℚ} (hx : quantile l q = some x) (h₀ : 0 ≤ q) :
    x ∈ l ∧ ((l.length : ℚ) - 1) * q + 1 / 2 ≤ l.countP (· ≤ x) ∧
      ((l.length : ℚ) - 1) * (1 - q) + 1 / 2 ≤ l.countP (x ≤ ·) := by
  have hlt := atRank_lt hx
  have hpos : (1 : ℚ) ≤ l.length := by exact_mod_cast (Nat.zero_le _).trans_lt hlt
  have hnonneg : (0 : ℚ) ≤ (l.length - 1) * q + 1 / 2 := by
    have := mul_nonneg (sub_nonneg.2 hpos) h₀
    linarith
  refine ⟨atRank_mem hx, ?_, ?_⟩
  · have hcount : ((nearestRank l.length q : ℚ) + 1) ≤ l.countP (· ≤ x) := by
      exact_mod_cast atRank_le_count hx
    have hfloor : (l.length - 1) * q + 1 / 2 < (nearestRank l.length q : ℚ) + 1 :=
      Nat.lt_floor_add_one _
    linarith
  · have hcount : (l.length : ℚ) - nearestRank l.length q ≤ l.countP (x ≤ ·) := by
      have := atRank_ge_count hx
      rw [sub_le_iff_le_add]
      exact_mod_cast (by omega : l.length ≤ l.countP (x ≤ ·) + nearestRank l.length q)
    have hfloor : (nearestRank l.length q : ℚ) ≤ (l.length - 1) * q + 1 / 2 :=
      Nat.floor_le hnonneg
    linarith

end Ranks
