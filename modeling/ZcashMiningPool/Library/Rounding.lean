import Mathlib.Algebra.Order.Field.Power
import Mathlib.Algebra.Order.Floor.Ring
import Mathlib.Data.Int.Log
import Mathlib.Data.Rat.Floor
import Mathlib.Tactic.FieldSimp
import Mathlib.Tactic.Linarith
import Mathlib.Tactic.Positivity
import Mathlib.Tactic.Ring

/-!
# Binary floating-point rounding

Rounding a rational to the nearest number with `p` fraction bits (`p + 1` significant bits),
ties to even, with no limit on the exponent.  `p = 52` is IEEE 754 binary64 away from overflow
and underflow.

* `nearestEven`, `ulp`, `round` — the nearest integer, the unit in the last place, the rounding.
* `Representable p x` — `x` is a whole number of its own ulps; what `round` returns is.
* `le_round`, `round_le` — rounding does not cross a representable number.
* `round_div_lt_one_iff` — a rounded quotient of representable numbers is below one exactly
  when the numerator is below the denominator.
* `trunc` — truncation towards zero.
* `sum_floor_le`, `floor_sum_le` — the floors of a list against the floor of its sum.
-/

namespace Rounding

/-! ## The nearest integer -/

/-- The nearest integer, ties to even. -/
def nearestEven (q : ℚ) : ℤ :=
  if q - ⌊q⌋ < 1 / 2 then ⌊q⌋
  else if 1 / 2 < q - ⌊q⌋ then ⌊q⌋ + 1
  else if 2 ∣ ⌊q⌋ then ⌊q⌋
  else ⌊q⌋ + 1

@[simp] theorem nearestEven_intCast (n : ℤ) : nearestEven n = n := by
  simp [nearestEven]

theorem le_nearestEven {q : ℚ} {n : ℤ} (h : (n : ℚ) ≤ q) : n ≤ nearestEven q := by
  have hf : n ≤ ⌊q⌋ := Int.le_floor.2 h
  unfold nearestEven
  split_ifs <;> omega

theorem nearestEven_le {q : ℚ} {n : ℤ} (h : q ≤ n) : nearestEven q ≤ n := by
  have hf : ⌊q⌋ ≤ n := by
    have := (Int.floor_le q).trans h
    exact_mod_cast this
  rcases hf.lt_or_eq with hlt | heq
  · unfold nearestEven
    split_ifs <;> omega
  · have hq : q = n := le_antisymm h (heq ▸ Int.floor_le q)
    rw [hq, nearestEven_intCast]

theorem nearestEven_neg (q : ℚ) : nearestEven (-q) = -nearestEven q := by
  by_cases hi : (⌊q⌋ : ℚ) = q
  · rw [← hi, ← Int.cast_neg, nearestEven_intCast, nearestEven_intCast]
  · -- off the integers the fractional part of `-q` is one minus that of `q`
    have hlt : (⌊q⌋ : ℚ) < q := lt_of_le_of_ne (Int.floor_le q) hi
    have hfl : ⌊-q⌋ = -⌊q⌋ - 1 := by
      rw [Int.floor_eq_iff]
      push_cast
      constructor
      · have := Int.lt_floor_add_one q
        linarith
      · linarith
    unfold nearestEven
    rw [hfl]
    push_cast
    split_ifs <;> first | omega | linarith

/-! ## The format -/

/-- The unit in the last place of `x`. -/
def ulp (p : ℕ) (x : ℚ) : ℚ := 2 ^ (Int.log 2 |x| - p)

/-- Round to nearest, ties to even. -/
def round (p : ℕ) (x : ℚ) : ℚ := nearestEven (x / ulp p x) * ulp p x

/-- `x` is a whole number of its own ulps. -/
def Representable (p : ℕ) (x : ℚ) : Prop := ∃ n : ℤ, x = n * ulp p x

variable {p : ℕ} {x y : ℚ}

theorem ulp_pos (p : ℕ) (x : ℚ) : 0 < ulp p x := by
  unfold ulp
  positivity

theorem ulp_neg (p : ℕ) (x : ℚ) : ulp p (-x) = ulp p x := by
  unfold ulp
  rw [abs_neg]

@[simp] theorem round_zero (p : ℕ) : round p 0 = 0 := by
  simp [round, nearestEven]

theorem round_neg (p : ℕ) (x : ℚ) : round p (-x) = -round p x := by
  unfold round
  rw [ulp_neg, neg_div, nearestEven_neg]
  push_cast
  ring

theorem Representable.neg (h : Representable p x) : Representable p (-x) := by
  obtain ⟨n, hn⟩ := h
  refine ⟨-n, ?_⟩
  rw [ulp_neg]
  push_cast
  linarith

/-- The binade of a positive number. -/
theorem binade (hx : 0 < x) :
    (2 : ℚ) ^ Int.log 2 |x| ≤ x ∧ x < 2 ^ (Int.log 2 |x| + 1) := by
  rw [abs_of_pos hx]
  exact ⟨by exact_mod_cast Int.zpow_log_le_self (b := 2) (by decide) hx,
    by exact_mod_cast Int.lt_zpow_succ_log_self (b := 2) (by decide) x⟩

theorem log_eq_of_binade {k : ℤ} (hl : (2 : ℚ) ^ k ≤ x) (hu : x < 2 ^ (k + 1)) :
    Int.log 2 |x| = k := by
  have hx : 0 < x := lt_of_lt_of_le (by positivity) hl
  rw [abs_of_pos hx]
  refine le_antisymm ?_ ?_
  · have := (Int.lt_zpow_iff_log_lt (b := 2) (by decide) hx).1 (by exact_mod_cast hu)
    omega
  · exact (Int.zpow_le_iff_le_log (b := 2) (by decide) hx).1 (by exact_mod_cast hl)

theorem zpow_eq_ulp (p : ℕ) (x : ℚ) : (2 : ℚ) ^ Int.log 2 |x| = 2 ^ p * ulp p x := by
  rw [ulp, ← zpow_natCast, ← zpow_add₀ (by norm_num)]
  congr 1
  ring

theorem zpow_succ_eq_ulp (p : ℕ) (x : ℚ) :
    (2 : ℚ) ^ (Int.log 2 |x| + 1) = 2 ^ (p + 1) * ulp p x := by
  rw [zpow_add₀ (by norm_num), zpow_eq_ulp p, pow_succ]
  ring

/-- Powers of two are representable. -/
theorem representable_zpow (p : ℕ) (k : ℤ) : Representable p (2 ^ k) := by
  have hk : Int.log 2 |(2 : ℚ) ^ k| = k :=
    log_eq_of_binade le_rfl (zpow_lt_zpow_right₀ (by norm_num) (by omega))
  refine ⟨2 ^ p, ?_⟩
  have := zpow_eq_ulp p ((2 : ℚ) ^ k)
  rw [hk] at this
  exact_mod_cast this

theorem representable_one (p : ℕ) : Representable p 1 := by
  simpa using representable_zpow p 0

/-! ## Rounding does not cross a representable number -/

theorem le_round (hy : Representable p y) (hy0 : 0 < y) (h : y ≤ x) : y ≤ round p x := by
  have hx0 := hy0.trans_le h
  have hu := ulp_pos p x
  have hbx := binade hx0
  have hlog : Int.log 2 |y| ≤ Int.log 2 |x| := by
    rw [abs_of_pos hy0, abs_of_pos hx0]
    exact Int.log_mono_right hy0 h
  -- `y` lies in the binade of `x` or below its first number
  suffices hn : ∃ n : ℤ, (n : ℚ) * ulp p x ≤ x ∧ y ≤ n * ulp p x by
    obtain ⟨n, hnx, hyn⟩ := hn
    have := le_nearestEven ((le_div_iff₀ hu).2 hnx)
    calc y ≤ n * ulp p x := hyn
      _ ≤ nearestEven (x / ulp p x) * ulp p x :=
        mul_le_mul_of_nonneg_right (by exact_mod_cast this) hu.le
  rcases hlog.eq_or_lt with heq | hlt
  · obtain ⟨n, hn⟩ := hy
    have hule : ulp p y = ulp p x := by
      unfold ulp
      rw [heq]
    rw [hule] at hn
    exact ⟨n, hn ▸ h, hn.le⟩
  · refine ⟨2 ^ p, ?_, ?_⟩
    · push_cast
      rw [← zpow_eq_ulp]
      exact hbx.1
    · push_cast
      rw [← zpow_eq_ulp]
      exact (binade hy0).2.le.trans (zpow_le_zpow_right₀ (by norm_num) (by omega))

theorem round_le (hy : Representable p y) (hx0 : 0 < x) (h : x ≤ y) : round p x ≤ y := by
  have hy0 := hx0.trans_le h
  have hu := ulp_pos p x
  have hlog : Int.log 2 |x| ≤ Int.log 2 |y| := by
    rw [abs_of_pos hx0, abs_of_pos hy0]
    exact Int.log_mono_right hx0 h
  suffices hn : ∃ n : ℤ, x ≤ n * ulp p x ∧ n * ulp p x ≤ y by
    obtain ⟨n, hnx, hny⟩ := hn
    have := nearestEven_le ((div_le_iff₀ hu).2 hnx)
    calc (nearestEven (x / ulp p x) : ℚ) * ulp p x ≤ n * ulp p x :=
        mul_le_mul_of_nonneg_right (by exact_mod_cast this) hu.le
      _ ≤ y := hny
  rcases hlog.eq_or_lt with heq | hlt
  · obtain ⟨n, hn⟩ := hy
    have hule : ulp p y = ulp p x := by
      unfold ulp
      rw [heq]
    rw [hule] at hn
    exact ⟨n, hn ▸ h, hn.ge⟩
  · refine ⟨2 ^ (p + 1), ?_, ?_⟩
    · push_cast
      rw [← zpow_succ_eq_ulp]
      exact (binade hx0).2.le
    · push_cast
      rw [← zpow_succ_eq_ulp]
      exact (zpow_le_zpow_right₀ (by norm_num) (by omega)).trans (binade hy0).1

theorem round_pos (p : ℕ) (hx : 0 < x) : 0 < round p x :=
  lt_of_lt_of_le (by positivity) (le_round (representable_zpow p _) (by positivity) (binade hx).1)

/-- What rounding returns is representable. -/
theorem representable_round (p : ℕ) (x : ℚ) : Representable p (round p x) := by
  suffices hpos : ∀ z : ℚ, 0 < z → Representable p (round p z) by
    rcases lt_trichotomy x 0 with h | h | h
    · have := (hpos (-x) (neg_pos.2 h)).neg
      rwa [round_neg, neg_neg] at this
    · subst h
      exact ⟨0, by simp⟩
    · exact hpos x h
  intro z hz
  have hb := binade hz
  have hlo := le_round (representable_zpow p _) (by positivity) hb.1
  have hhi := round_le (representable_zpow p _) hz hb.2.le
  rcases hhi.eq_or_lt with heq | hlt
  · rw [heq]
    exact representable_zpow p _
  · refine ⟨nearestEven (z / ulp p z), ?_⟩
    have hl := log_eq_of_binade hlo hlt
    have hule : ulp p (round p z) = ulp p z := by
      unfold ulp
      rw [hl]
    rw [hule]
    rfl

/-! ## Quotients -/

/-- A positive representable number stays a relative ulp below the end of its binade. -/
theorem Representable.le_binade (hx : Representable p x) (hx0 : 0 < x) :
    x ≤ 2 ^ (Int.log 2 |x| + 1) - ulp p x := by
  obtain ⟨n, hn⟩ := hx
  have hu := ulp_pos p x
  have hlt := (binade hx0).2
  rw [zpow_succ_eq_ulp p] at hlt ⊢
  have hnlt : n < 2 ^ (p + 1) := by
    have : (n : ℚ) * ulp p x < 2 ^ (p + 1) * ulp p x := hn ▸ hlt
    exact_mod_cast lt_of_mul_lt_mul_right this hu.le
  have hle : (n : ℚ) + 1 ≤ 2 ^ (p + 1) := by exact_mod_cast hnlt
  calc x = n * ulp p x := hn
    _ ≤ (2 ^ (p + 1) - 1) * ulp p x := mul_le_mul_of_nonneg_right (by linarith) hu.le
    _ = 2 ^ (p + 1) * ulp p x - ulp p x := by ring

/-- Two different representable numbers differ by a relative half ulp. -/
theorem Representable.gap (hx : Representable p x) (hy : Representable p y) (hx0 : 0 < x)
    (h : x < y) : x ≤ y * (1 - (2 ^ (p + 1))⁻¹) := by
  have hy0 := hx0.trans h
  have hP : (0 : ℚ) < 2 ^ (p + 1) := by positivity
  have hlog : Int.log 2 |x| ≤ Int.log 2 |y| := by
    rw [abs_of_pos hx0, abs_of_pos hy0]
    exact Int.log_mono_right hx0 h.le
  rcases hlog.eq_or_lt with heq | hlt
  · -- same binade: both are whole numbers of one ulp
    obtain ⟨n, hn⟩ := hx
    obtain ⟨m, hm⟩ := hy
    have hule : ulp p x = ulp p y := by
      unfold ulp
      rw [heq]
    have hu := ulp_pos p y
    rw [hule] at hn
    have hnm : n + 1 ≤ m := by
      have : (n : ℚ) * ulp p y < m * ulp p y := by rw [← hn, ← hm]; exact h
      exact_mod_cast lt_of_mul_lt_mul_right this hu.le
    have hstep : x + ulp p y ≤ y := by
      have : ((n : ℚ) + 1) * ulp p y ≤ m * ulp p y :=
        mul_le_mul_of_nonneg_right (by exact_mod_cast hnm) hu.le
      rw [← hm] at this
      linarith
    have hsmall : y * (2 ^ (p + 1))⁻¹ ≤ ulp p y := by
      have hb := (binade hy0).2
      rw [zpow_succ_eq_ulp p] at hb
      rw [mul_inv_le_iff₀ hP]
      linarith
    linarith
  · -- lower binade: `x` is below the last number before the binade of `y`
    have hx1 := hx.le_binade hx0
    have hule : ulp p x = 2 ^ (Int.log 2 |x| + 1) * (2 ^ (p + 1))⁻¹ := by
      rw [zpow_succ_eq_ulp p]
      field_simp
    have hle : (2 : ℚ) ^ (Int.log 2 |x| + 1) ≤ y :=
      (zpow_le_zpow_right₀ (by norm_num) (by omega)).trans (binade hy0).1
    have hone : (0 : ℚ) ≤ 1 - (2 ^ (p + 1))⁻¹ := by
      rw [sub_nonneg]
      exact inv_le_one_of_one_le₀ (one_le_pow₀ (by norm_num))
    calc x ≤ 2 ^ (Int.log 2 |x| + 1) - ulp p x := hx1
      _ = 2 ^ (Int.log 2 |x| + 1) * (1 - (2 ^ (p + 1))⁻¹) := by rw [hule]; ring
      _ ≤ y * (1 - (2 ^ (p + 1))⁻¹) := mul_le_mul_of_nonneg_right hle hone

/-- The last number below one. -/
theorem representable_pred_one (p : ℕ) : Representable p (1 - (2 ^ (p + 1))⁻¹) := by
  have hP : (0 : ℚ) < 2 ^ (p + 1) := by positivity
  have hlog : Int.log 2 |(1 - (2 ^ (p + 1))⁻¹ : ℚ)| = -1 := by
    refine log_eq_of_binade ?_ ?_
    · have : ((2 : ℚ) ^ (p + 1))⁻¹ ≤ 2⁻¹ :=
        inv_anti₀ (by norm_num) (le_self_pow₀ (by norm_num) (by omega))
      rw [zpow_neg_one]
      linarith
    · have : (0 : ℚ) < (2 ^ (p + 1))⁻¹ := by positivity
      simp
  refine ⟨2 ^ (p + 1) - 1, ?_⟩
  rw [ulp, hlog]
  have : (2 : ℚ) ^ (-1 - (p : ℤ)) = (2 ^ (p + 1))⁻¹ := by
    rw [← zpow_natCast, ← zpow_neg]
    congr 1
    push_cast
    ring
  rw [this]
  push_cast
  field_simp

/-- **A rounded quotient is below one exactly when the numerator is below the denominator.** -/
theorem round_div_lt_one_iff (hx : Representable p x) (hy : Representable p y) (hy0 : 0 < y) :
    round p (x / y) < 1 ↔ x < y := by
  constructor
  · intro h
    by_contra hle
    have h1 : (1 : ℚ) ≤ x / y := (one_le_div hy0).2 (not_lt.1 hle)
    exact absurd (le_round (representable_one p) one_pos h1) (not_le.2 h)
  · intro h
    rcases le_or_gt x 0 with hx0 | hx0
    · have hq : x / y ≤ 0 := div_nonpos_of_nonpos_of_nonneg hx0 hy0.le
      rcases hq.eq_or_lt with h0 | h0
      · rw [h0, round_zero]
        exact one_pos
      · have := round_pos p (neg_pos.2 h0)
        rw [round_neg] at this
        linarith
    · have hgap : x / y ≤ 1 - (2 ^ (p + 1))⁻¹ := by
        rw [div_le_iff₀ hy0, mul_comm]
        exact hx.gap hy hx0 h
      have := round_le (representable_pred_one p) (div_pos hx0 hy0) hgap
      have hP : (0 : ℚ) < (2 ^ (p + 1))⁻¹ := by positivity
      linarith

/-! ## Truncation -/

/-- Truncation towards zero. -/
def trunc (x : ℚ) : ℤ := if 0 ≤ x then ⌊x⌋ else ⌈x⌉

theorem trunc_eq_zero_iff : trunc x = 0 ↔ |x| < 1 := by
  unfold trunc
  rw [abs_lt]
  split
  · rename_i h
    rw [Int.floor_eq_zero_iff, Set.mem_Ico]
    constructor
    · exact fun hx => ⟨by linarith, hx.2⟩
    · exact fun hx => ⟨h, hx.2⟩
  · rename_i h
    rw [Int.ceil_eq_zero_iff, Set.mem_Ioc]
    constructor
    · exact fun hx => ⟨hx.1, by linarith⟩
    · exact fun hx => ⟨hx.1, by linarith⟩

/-- The truncated rounded quotient vanishes exactly when the numerator is the smaller. -/
theorem trunc_round_div_eq_zero_iff (hx : Representable p x) (hy : Representable p y)
    (hy0 : 0 < y) : trunc (round p (x / y)) = 0 ↔ |x| < y := by
  rw [trunc_eq_zero_iff, abs_lt, abs_lt]
  have hneg : -1 < round p (x / y) ↔ -y < x := by
    have := round_div_lt_one_iff hx.neg hy hy0
    rw [neg_div, round_neg] at this
    constructor
    · intro h
      linarith [this.1 (by linarith)]
    · intro h
      linarith [this.2 (by linarith)]
  rw [hneg, round_div_lt_one_iff hx hy hy0]

/-! ## Floors of a sum -/

/-- Floors lose at most one each, and never gain. -/
theorem sum_floor_le (l : List ℚ) : (l.map (fun x => ⌊x⌋)).sum ≤ ⌊l.sum⌋ := by
  induction l with
  | nil => simp
  | cons x l ih =>
    rw [List.map_cons, List.sum_cons, List.sum_cons]
    calc ⌊x⌋ + (l.map (fun x => ⌊x⌋)).sum ≤ ⌊x⌋ + ⌊l.sum⌋ := Int.add_le_add_left ih _
      _ ≤ ⌊x + l.sum⌋ := Int.le_floor_add x l.sum

theorem floor_sum_le (l : List ℚ) : ⌊l.sum⌋ ≤ (l.map (fun x => ⌊x⌋)).sum + l.length := by
  induction l with
  | nil => simp
  | cons x l ih =>
    rw [List.map_cons, List.sum_cons, List.sum_cons, List.length_cons]
    have h := Int.le_floor_add_floor x l.sum
    push_cast
    omega

end Rounding
