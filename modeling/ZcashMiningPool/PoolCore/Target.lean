import Mathlib.Data.Rat.Floor
import Mathlib.Tactic.Linarith
import Mathlib.Tactic.Positivity
import Mathlib.Tactic.Ring
import ZcashMiningPool.Library.Text

/-!
# Targets

32-byte targets of `pool-core/src/share.rs` and their difficulties.

* `Bytes32` — an array of 32 bytes; the length is part of the type.
* `parseTarget` — from hexadecimal, padded on the left.
* `meetsTarget` — a hash, read little-endian, against a target, read big-endian.
* `difficultyToTargetHex`, `targetToDifficulty` — the two conversions, in exact arithmetic.
* `hash_mul_difficulty_le` — a hash that meets the target of a difficulty proves that much work.
-/

set_option autoImplicit false

namespace ZcashMiningPool

abbrev Bytes := List UInt8

structure Bytes32 where
  bytes : Bytes
  length_eq : bytes.length = 32
  deriving DecidableEq

namespace Bytes32

/-- The same byte 32 times. -/
def fill (b : UInt8) : Bytes32 := ⟨List.replicate 32 b, List.length_replicate⟩

end Bytes32

def parseTarget (targetHex : String) : Except String Bytes32 :=
  match Text.hexDecode targetHex with
  | none => .error "Invalid target hex"
  | some bytes =>
    if h : bytes.length ≤ 32 then
      .ok ⟨List.replicate (32 - bytes.length) 0 ++ bytes, by
        rw [List.length_append, List.length_replicate]
        omega⟩
    else .error s!"Target too long: {bytes.length} bytes"

/-- Big-endian comparison, most significant byte first. -/
def beLe : Bytes → Bytes → Bool
  | h :: hs, t :: ts => if h < t then true else if t < h then false else beLe hs ts
  | _, _ => true

/-- Check if hash <= target for PoW validity. -/
def meetsTarget (hash target : Bytes32) : Bool := beLe hash.bytes.reverse target.bytes

/-- `2^251 - 1`. -/
def powLimit : ℕ := 2 ^ 251 - 1

/-- A byte string read big-endian. -/
def beNat (bs : Bytes) : ℕ := bs.foldl (fun n b => 256 * n + b.toNat) 0

/-- `f64::MAX`, for the zero target. -/
def f64Max : ℚ := (2 ^ 53 - 1) * 2 ^ 971

def targetToDifficulty (target : Bytes32) : ℚ :=
  if beNat target.bytes = 0 then f64Max else (powLimit : ℚ) / beNat target.bytes

/-- The loop over the byte positions, high position first; a byte never exceeds 255. -/
def targetDigits : ℕ → ℚ → Bytes
  | 0, _ => []
  | i + 1, remaining =>
    let b := ⌊min (remaining / 256 ^ i) 255⌋.toNat
    UInt8.ofNat b :: targetDigits i (remaining - b * 256 ^ i)

@[simp] theorem length_targetDigits (n : ℕ) (x : ℚ) : (targetDigits n x).length = n := by
  induction n generalizing x with
  | zero => rfl
  | succ n ih => rw [targetDigits, List.length_cons, ih]

/-- Convert a difficulty value to a 256-bit target (big-endian hex string). -/
def difficultyToTargetHex (difficulty : ℚ) : String :=
  if difficulty ≤ 0 then Text.hexEncode (List.replicate 32 0xff)
  else Text.hexEncode (targetDigits 32 ((powLimit : ℚ) / difficulty))

/-- What a 32-byte target is written as reads back as that target. -/
theorem parseTarget_hexEncode (t : Bytes32) : parseTarget (Text.hexEncode t.bytes) = .ok t := by
  obtain ⟨bs, hlen⟩ := t
  simp only [parseTarget, Text.hexDecode_hexEncode]
  rw [dif_pos (by omega)]
  congr 2
  rw [hlen]
  rfl

/-- The target of a difficulty is well formed, so the caller's fallback is never taken. -/
theorem parseTarget_difficulty (d : ℚ) : ∃ t, parseTarget (difficultyToTargetHex d) = .ok t := by
  unfold difficultyToTargetHex
  split
  · exact ⟨_, parseTarget_hexEncode (Bytes32.fill 0xff)⟩
  · exact ⟨_, parseTarget_hexEncode ⟨targetDigits 32 ((powLimit : ℚ) / d), length_targetDigits _ _⟩⟩

/-! ## Targets as numbers -/

theorem foldl_beNat (bs : Bytes) (n : ℕ) :
    bs.foldl (fun n b => 256 * n + b.toNat) n = n * 256 ^ bs.length + beNat bs := by
  induction bs generalizing n with
  | nil => simp [beNat]
  | cons b bs ih =>
    have hcons : beNat (b :: bs) = b.toNat * 256 ^ bs.length + beNat bs := by
      rw [beNat, List.foldl_cons, ih]
      simp
    rw [List.foldl_cons, ih, hcons, List.length_cons, pow_succ]
    ring

theorem beNat_cons (b : UInt8) (bs : Bytes) :
    beNat (b :: bs) = b.toNat * 256 ^ bs.length + beNat bs := by
  rw [beNat, List.foldl_cons, foldl_beNat]
  simp

theorem beNat_lt (bs : Bytes) : beNat bs < 256 ^ bs.length := by
  induction bs with
  | nil => simp [beNat]
  | cons b bs ih =>
    have hb : b.toNat + 1 ≤ 256 := b.toNat_lt
    calc beNat (b :: bs) = b.toNat * 256 ^ bs.length + beNat bs := beNat_cons b bs
      _ < (b.toNat + 1) * 256 ^ bs.length := by rw [Nat.succ_mul]; omega
      _ ≤ 256 * 256 ^ bs.length := Nat.mul_le_mul_right _ hb
      _ = 256 ^ (b :: bs).length := by rw [List.length_cons, pow_succ]; ring

/-- Byte by byte from the high end is the order of the numbers. -/
theorem beLe_iff {bs ts : Bytes} (h : bs.length = ts.length) :
    beLe bs ts = true ↔ beNat bs ≤ beNat ts := by
  induction bs generalizing ts with
  | nil =>
    obtain rfl := List.length_eq_zero_iff.1 h.symm
    simp [beLe]
  | cons b bs ih =>
    cases ts with
    | nil => cases h
    | cons t ts =>
      have hlen : bs.length = ts.length := by simpa using h
      have hbs := beNat_lt bs
      have hts := beNat_lt ts
      rw [beLe, beNat_cons, beNat_cons, hlen]
      rw [hlen] at hbs
      by_cases hlt : b < t
      · have hnat : b.toNat + 1 ≤ t.toNat := UInt8.lt_iff_toNat_lt.1 hlt
        have hle := Nat.mul_le_mul_right (256 ^ ts.length) hnat
        rw [if_pos hlt]
        rw [Nat.succ_mul] at hle
        simp only [true_iff]
        omega
      · rw [if_neg hlt]
        by_cases hgt : t < b
        · have hnat : t.toNat + 1 ≤ b.toNat := UInt8.lt_iff_toNat_lt.1 hgt
          have hle := Nat.mul_le_mul_right (256 ^ ts.length) hnat
          rw [if_pos hgt]
          rw [Nat.succ_mul] at hle
          simp only [Bool.false_eq_true, false_iff]
          omega
        · have hnat : b.toNat = t.toNat := by
            have hge := UInt8.not_lt.1 hlt
            have hle := UInt8.not_lt.1 hgt
            rw [UInt8.le_iff_toNat_le] at hge hle
            omega
          rw [if_neg hgt, ih hlen, hnat]
          omega

theorem meetsTarget_iff (hash target : Bytes32) :
    meetsTarget hash target = true ↔ beNat hash.bytes.reverse ≤ beNat target.bytes :=
  beLe_iff (by rw [List.length_reverse, hash.length_eq, target.length_eq])

/-- The digits are rounded down. -/
theorem beNat_targetDigits_le (n : ℕ) {x : ℚ} (hx : 0 ≤ x) : (beNat (targetDigits n x) : ℚ) ≤ x := by
  induction n generalizing x with
  | zero => simpa [targetDigits, beNat] using hx
  | succ i ih =>
    have hpow : (0 : ℚ) < 256 ^ i := by positivity
    have hquot : 0 ≤ min (x / 256 ^ i) 255 := le_min (div_nonneg hx hpow.le) (by norm_num)
    set b := ⌊min (x / 256 ^ i) 255⌋.toNat with hb
    have hfloor : (b : ℚ) ≤ min (x / 256 ^ i) 255 := by
      have hcast : ((b : ℤ) : ℚ) = ⌊min (x / 256 ^ i) 255⌋ := by
        rw [hb, Int.toNat_of_nonneg (Int.floor_nonneg.2 hquot)]
      rw [← Int.cast_natCast, hcast]
      exact Int.floor_le _
    have hbyte : b ≤ 255 := by
      have h255 := hfloor.trans (min_le_right _ _)
      exact_mod_cast h255
    have hofNat : (UInt8.ofNat b).toNat = b := by
      rw [UInt8.toNat_ofNat']
      omega
    have hrest : 0 ≤ x - b * 256 ^ i := by
      have hmul := (le_div_iff₀ hpow).1 (hfloor.trans (min_le_left _ _))
      linarith
    have htail := ih hrest
    have hcons : beNat (targetDigits (i + 1) x)
        = b * 256 ^ i + beNat (targetDigits i (x - b * 256 ^ i)) := by
      rw [targetDigits, beNat_cons, length_targetDigits, hofNat]
    rw [hcons]
    push_cast
    linarith

/-- **A hash that meets the target of a difficulty proves that much work.** -/
theorem hash_mul_difficulty_le {hash target : Bytes32} {d : ℚ}
    (htarget : parseTarget (difficultyToTargetHex d) = .ok target)
    (hmeets : meetsTarget hash target = true) :
    (beNat hash.bytes.reverse : ℚ) * d ≤ powLimit := by
  rcases le_or_gt d 0 with hd | hd
  · have hneg : (beNat hash.bytes.reverse : ℚ) * d ≤ 0 :=
      mul_nonpos_of_nonneg_of_nonpos (Nat.cast_nonneg _) hd
    exact hneg.trans (Nat.cast_nonneg _)
  · have hdigits : target.bytes = targetDigits 32 ((powLimit : ℚ) / d) := by
      rw [difficultyToTargetHex, if_neg (not_le.2 hd)] at htarget
      have hparse := parseTarget_hexEncode ⟨targetDigits 32 ((powLimit : ℚ) / d),
        length_targetDigits _ _⟩
      rw [hparse] at htarget
      cases htarget
      rfl
    have hle : (beNat hash.bytes.reverse : ℚ) ≤ beNat target.bytes := by
      exact_mod_cast (meetsTarget_iff hash target).1 hmeets
    have hround := beNat_targetDigits_le 32 (x := (powLimit : ℚ) / d) (by positivity)
    rw [← hdigits] at hround
    exact (le_div_iff₀ hd).1 (hle.trans hround)

/-- The same of a target's own difficulty. -/
theorem hash_mul_targetToDifficulty_le {hash target : Bytes32}
    (hmeets : meetsTarget hash target = true) :
    (beNat hash.bytes.reverse : ℚ) * targetToDifficulty target ≤ powLimit := by
  have hle := (meetsTarget_iff hash target).1 hmeets
  unfold targetToDifficulty
  split
  · rename_i hzero
    obtain hhash : beNat hash.bytes.reverse = 0 := by omega
    rw [hhash, Nat.cast_zero, zero_mul]
    positivity
  · rename_i hpos
    have hcast : (beNat hash.bytes.reverse : ℚ) ≤ beNat target.bytes := by exact_mod_cast hle
    have htarget : (0 : ℚ) < beNat target.bytes := by
      have hnat : 0 < beNat target.bytes := by omega
      exact_mod_cast hnat
    rw [mul_div_assoc', div_le_iff₀ htarget, mul_comm]
    exact mul_le_mul_of_nonneg_left hcast (by positivity)

end ZcashMiningPool
