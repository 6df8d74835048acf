import ZcashMiningPool.PoolCore.Job

/-!
# What a difficulty accepts

The digits of a target as a number, and the hashes that meet it.

* `targetNumber d` — the power limit over the difficulty, rounded down and cut to 32 bytes.
* `beNat_targetDigits` — the digit loop computes the floor, or all ones when it does not fit.
* `parseTarget_eq_targetNumber` — the target of a difficulty, written out and parsed.

Principal result: `difficulty_accepts` — a share is accepted at a difficulty exactly when its hash
is at most this number.
-/

set_option autoImplicit false

namespace ZcashMiningPool

/-- `min(floor(powLimit / d), 2^256 - 1)`. -/
def targetNumber (d : ℚ) : ℕ := min ⌊(powLimit : ℚ) / d⌋.toNat (2 ^ 256 - 1)

/-! ## The digit loop -/

/-- What one step of the loop leaves to the lower positions, rounded down. -/
theorem floor_rest (x : ℚ) (b i : ℕ) : ⌊x - b * 256 ^ i⌋ = ⌊x⌋ - b * 256 ^ i := by
  have hcast : x - (b : ℚ) * 256 ^ i = x - ((b * 256 ^ i : ℤ) : ℚ) := by push_cast; rfl
  rw [hcast, Int.floor_sub_intCast]

/-- **The loop rounds down**, and saturates to all ones. -/
theorem beNat_targetDigits (n : ℕ) {x : ℚ} (hx : 0 ≤ x) :
    (beNat (targetDigits n x) : ℤ) = min ⌊x⌋ (256 ^ n - 1) := by
  induction n generalizing x with
  | zero =>
    have hfloor : 0 ≤ ⌊x⌋ := Int.floor_nonneg.2 hx
    simp [targetDigits, beNat, hfloor]
  | succ i ih =>
    have hpow : (0 : ℚ) < 256 ^ i := by positivity
    have hpowInt : (0 : ℤ) < 256 ^ i := by positivity
    have hquot : 0 ≤ ⌊x / 256 ^ i⌋ := Int.floor_nonneg.2 (div_nonneg hx hpow.le)
    obtain ⟨b, hb⟩ : ∃ b : ℕ, (b : ℤ) = min ⌊x / 256 ^ i⌋ 255 :=
      ⟨(min ⌊x / 256 ^ i⌋ 255).toNat, by omega⟩
    have hdigit : ⌊min (x / 256 ^ i) 255⌋.toNat = b := by
      have hmin : ⌊min (x / 256 ^ i) 255⌋ = min ⌊x / 256 ^ i⌋ ⌊(255 : ℚ)⌋ :=
        Int.floor_mono.map_min
      have h255 : ⌊(255 : ℚ)⌋ = 255 := by norm_num
      rw [hmin, h255, ← hb]
      rfl
    have hbyte : (UInt8.ofNat b).toNat = b := by
      rw [UInt8.toNat_ofNat']
      omega
    -- the quotient rounded down, at either end of its interval
    have hlow : ⌊x / 256 ^ i⌋ * 256 ^ i ≤ ⌊x⌋ := by
      rw [Int.le_floor]
      push_cast
      exact (le_div_iff₀ hpow).1 (Int.floor_le _)
    have hhigh : ⌊x⌋ < (⌊x / 256 ^ i⌋ + 1) * 256 ^ i := by
      rw [Int.floor_lt]
      push_cast
      exact (div_lt_iff₀ hpow).1 (Int.lt_floor_add_one _)
    have hrest : 0 ≤ x - b * 256 ^ i := by
      have hle : (b : ℤ) * 256 ^ i ≤ ⌊x⌋ :=
        (mul_le_mul_of_nonneg_right (by omega) hpowInt.le).trans hlow
      have hcast : ((b * 256 ^ i : ℤ) : ℚ) ≤ x := Int.le_floor.1 hle
      push_cast at hcast
      linarith
    have htail := ih hrest
    rw [floor_rest] at htail
    rw [targetDigits, hdigit, beNat_cons, length_targetDigits, hbyte]
    push_cast
    rw [htail, pow_succ]
    rcases le_or_gt ⌊x / 256 ^ i⌋ 255 with hsmall | hlarge
    · have hbq : (b : ℤ) = ⌊x / 256 ^ i⌋ := by omega
      rw [← hbq] at hlow hhigh
      have hle : (b : ℤ) * 256 ^ i ≤ 255 * 256 ^ i :=
        mul_le_mul_of_nonneg_right (by omega) hpowInt.le
      rw [add_mul, one_mul] at hhigh
      omega
    · have hb255 : (b : ℤ) = 255 := by omega
      have hle : (256 : ℤ) * 256 ^ i ≤ ⌊x / 256 ^ i⌋ * 256 ^ i :=
        mul_le_mul_of_nonneg_right (by omega) hpowInt.le
      rw [hb255]
      omega

/-! ## The target of a difficulty -/

theorem parseTarget_eq_targetNumber {d : ℚ} (hd : 0 < d) :
    ∃ t, parseTarget (difficultyToTargetHex d) = .ok t ∧ beNat t.bytes = targetNumber d := by
  have hquot : 0 ≤ (powLimit : ℚ) / d := div_nonneg (Nat.cast_nonneg _) hd.le
  have hfloor : 0 ≤ ⌊(powLimit : ℚ) / d⌋ := Int.floor_nonneg.2 hquot
  refine ⟨⟨targetDigits 32 ((powLimit : ℚ) / d), length_targetDigits _ _⟩, ?_, ?_⟩
  · rw [difficultyToTargetHex, if_neg (not_le.2 hd)]
    exact parseTarget_hexEncode ⟨_, length_targetDigits _ _⟩
  · have hnum := beNat_targetDigits 32 hquot
    unfold targetNumber
    show beNat (targetDigits 32 ((powLimit : ℚ) / d)) = _
    omega

theorem targetNumber_anti {d d' : ℚ} (hd' : 0 < d') (h : d' ≤ d) :
    targetNumber d ≤ targetNumber d' := by
  have hquot : (powLimit : ℚ) / d ≤ powLimit / d' :=
    div_le_div_of_nonneg_left (Nat.cast_nonneg _) hd' h
  have hfloor := Int.floor_mono hquot
  unfold targetNumber
  omega

/-- Both roundings lower the target, so it is no easier than its difficulty. -/
theorem le_targetToDifficulty {d : ℚ} (hd : 0 < d) {t : Bytes32}
    (ht : beNat t.bytes = targetNumber d) (hzero : beNat t.bytes ≠ 0) :
    d ≤ targetToDifficulty t := by
  have hfloor : 0 ≤ ⌊(powLimit : ℚ) / d⌋ :=
    Int.floor_nonneg.2 (div_nonneg (Nat.cast_nonneg _) hd.le)
  have hle : (beNat t.bytes : ℤ) ≤ ⌊(powLimit : ℚ) / d⌋ := by
    unfold targetNumber at ht
    omega
  have hcast : (beNat t.bytes : ℚ) ≤ powLimit / d := by exact_mod_cast Int.le_floor.1 hle
  have hpos : (0 : ℚ) < beNat t.bytes := by exact_mod_cast Nat.pos_of_ne_zero hzero
  rw [targetToDifficulty, if_neg hzero, le_div_iff₀ hpos, mul_comm]
  exact (le_div_iff₀ hd).1 hcast

/-- **A share is accepted at a difficulty exactly when its hash is small enough**, so a smaller
    difficulty accepts at least as much, and the target is worth at least its difficulty. -/
theorem difficulty_accepts (d : ℚ) (hd : 0 < d) :
    ∃ t, parseTarget (difficultyToTargetHex d) = .ok t ∧ beNat t.bytes = targetNumber d ∧
      (∀ hash, meetsTarget hash t = true ↔ leNat hash.bytes ≤ targetNumber d) ∧
      (∀ d', 0 < d' → d' ≤ d → ∃ t', parseTarget (difficultyToTargetHex d') = .ok t' ∧
        ∀ hash, meetsTarget hash t = true → meetsTarget hash t' = true) ∧
      (1 / 32 ≤ d → beNat t.bytes ≠ 0 → d ≤ targetToDifficulty t) := by
  obtain ⟨t, hparse, hnum⟩ := parseTarget_eq_targetNumber hd
  refine ⟨t, hparse, hnum, fun hash => ?_, fun d' hd' hle => ?_, fun _ hzero => ?_⟩
  · rw [meetsTarget_iff, beNat_reverse, hnum]
  · obtain ⟨t', hparse', hnum'⟩ := parseTarget_eq_targetNumber hd'
    refine ⟨t', hparse', fun hash hmeets => ?_⟩
    rw [meetsTarget_iff, hnum] at hmeets
    rw [meetsTarget_iff, hnum']
    exact hmeets.trans (targetNumber_anti hd' hle)
  · exact le_targetToDifficulty hd hnum hzero

theorem difficulty_accepts_two :
    ∃ t, parseTarget (difficultyToTargetHex 2) = .ok t ∧ beNat t.bytes = 2 ^ 250 - 1 ∧
      ∀ hash, meetsTarget hash t = true ↔ leNat hash.bytes ≤ 2 ^ 250 - 1 := by
  have hnumber : targetNumber 2 = 2 ^ 250 - 1 := by decide +kernel
  obtain ⟨t, hparse, hnum, hmeets, -, -⟩ := difficulty_accepts 2 two_pos
  rw [hnumber] at hnum hmeets
  exact ⟨t, hparse, hnum, hmeets⟩

end ZcashMiningPool
