import ZcashMiningPool.Library.Rounding

/-!
# Numbers of an SQL store

The numeric values of a store that keeps 64-bit integers and binary64 reals side by side, as
SQLite does.

* `Number` — an `INTEGER` or a `REAL`.
* `add`, `sub` — integer arithmetic as long as the result is a 64-bit integer; beyond that both
  operands become reals, and the sum is rounded.
* `store` — what a column of `INTEGER` affinity keeps: a real that is a 64-bit integer becomes one.
* `sum`, `toInteger`, `asI64` — `SUM`, `CAST … AS INTEGER`, and a value read as an `i64`.

Principal results: `add_integer`, `sub_integer`, `sum_integers` — within 64 bits all of this is
integer arithmetic.
-/

set_option autoImplicit false

namespace SqlNumber

/-- `i64::MAX`. -/
def maxInteger : ℤ := 2 ^ 63 - 1

/-- A 64-bit integer. -/
def InRange (n : ℤ) : Prop := -2 ^ 63 ≤ n ∧ n ≤ maxInteger

instance (n : ℤ) : Decidable (InRange n) :=
  inferInstanceAs (Decidable (-2 ^ 63 ≤ n ∧ n ≤ maxInteger))

inductive Number where
  | integer (n : ℤ)
  | real (x : ℚ)
  deriving DecidableEq

namespace Number

/-- The exact value; comparisons look at nothing else. -/
def value : Number → ℚ
  | .integer n => n
  | .real x => x

/-- The value as a binary64. -/
def toReal : Number → ℚ
  | .integer n => Rounding.round 52 n
  | .real x => x

def add (x y : Number) : Number :=
  match x, y with
  | .integer a, .integer b =>
    if InRange (a + b) then .integer (a + b)
    else .real (Rounding.round 52 (Rounding.round 52 a + Rounding.round 52 b))
  | x, y => .real (Rounding.round 52 (x.toReal + y.toReal))

def sub (x y : Number) : Number :=
  match x, y with
  | .integer a, .integer b =>
    if InRange (a - b) then .integer (a - b)
    else .real (Rounding.round 52 (Rounding.round 52 a - Rounding.round 52 b))
  | x, y => .real (Rounding.round 52 (x.toReal - y.toReal))

/-- `INTEGER` affinity: the two ends of the range stay reals. -/
def store : Number → Number
  | .integer n => .integer n
  | .real x => if (⌊x⌋ : ℚ) = x ∧ -2 ^ 63 < ⌊x⌋ ∧ ⌊x⌋ < maxInteger then .integer ⌊x⌋ else .real x

/-- `MAX(0, x)`. -/
def maxZero (x : Number) : Number := if x.value < 0 then .integer 0 else x

/-- Read as an `i64`, which a real cannot be. -/
def asI64 : Number → Option ℤ
  | .integer n => some n
  | .real _ => none

theorem add_integer {a b : ℤ} (h : InRange (a + b)) :
    (integer a).add (integer b) = integer (a + b) := if_pos h

theorem sub_integer {a b : ℤ} (h : InRange (a - b)) :
    (integer a).sub (integer b) = integer (a - b) := if_pos h

theorem maxZero_integer (n : ℤ) : (integer n).maxZero = integer (max 0 n) := by
  unfold maxZero
  simp only [value, Int.cast_lt_zero]
  split
  · rw [max_eq_left (by omega)]
  · rw [max_eq_right (by omega)]

/-- A debit that leaves the range downwards leaves less than nothing, also when rounded. -/
theorem round_add_round_neg {a b : ℤ} (ha : 0 ≤ a) (hmax : a ≤ maxInteger)
    (h : a + b < -2 ^ 63) : Rounding.round 52 a + Rounding.round 52 b < 0 := by
  have hb : Rounding.round 52 (b : ℚ) = -Rounding.round 52 ((-b : ℤ) : ℚ) := by
    rw [Int.cast_neg, Rounding.round_neg, neg_neg]
  have hpow : ∀ k : ℕ, Rounding.Representable 52 ((2 : ℚ) ^ k) := fun k => by
    exact_mod_cast Rounding.representable_zpow 52 k
  rw [hb]
  obtain rfl | hpos := ha.eq_or_lt
  · have hlow : (2 : ℚ) ^ 63 ≤ Rounding.round 52 ((-b : ℤ) : ℚ) := by
      refine Rounding.le_round (hpow 63) (by norm_num) ?_
      have hle : (2 ^ 63 : ℤ) ≤ -b := by omega
      exact_mod_cast hle
    rw [Int.cast_zero, Rounding.round_zero]
    linarith
  have hpos' : (0 : ℚ) < a := by exact_mod_cast hpos
  by_cases hsmall : a ≤ 2 ^ 62
  · have hhigh : Rounding.round 52 (a : ℚ) ≤ 2 ^ 62 :=
      Rounding.round_le (hpow 62) hpos' (by exact_mod_cast hsmall)
    have hlow : (2 : ℚ) ^ 63 ≤ Rounding.round 52 ((-b : ℤ) : ℚ) := by
      refine Rounding.le_round (hpow 63) (by norm_num) ?_
      have hle : (2 ^ 63 : ℤ) ≤ -b := by omega
      exact_mod_cast hle
    linarith
  · have hhigh : Rounding.round 52 (a : ℚ) ≤ 2 ^ 63 := by
      refine Rounding.round_le (hpow 63) hpos' ?_
      have hle : a ≤ 2 ^ 63 := by
        unfold maxInteger at hmax
        omega
      exact_mod_cast hle
    have hlow : 3 * (2 : ℚ) ^ 62 ≤ Rounding.round 52 ((-b : ℤ) : ℚ) := by
      refine Rounding.le_round ?_ (by norm_num) ?_
      · have hlog : Int.log 2 |3 * (2 : ℚ) ^ 62| = 63 :=
          Rounding.log_eq_of_binade (by norm_num) (by norm_num)
        refine ⟨3 * 2 ^ 51, ?_⟩
        unfold Rounding.ulp
        rw [hlog]
        norm_num
      · have hle : 3 * 2 ^ 62 ≤ -b := by omega
        exact_mod_cast hle
    linarith

theorem maxZero_add_of_lt {a b : ℤ} (ha : 0 ≤ a) (hmax : a ≤ maxInteger)
    (h : a + b < -2 ^ 63) : ((integer a).add (integer b)).maxZero = integer 0 := by
  have hout : ¬ InRange (a + b) := fun hr => by
    have := hr.1
    omega
  have hneg : Rounding.round 52 (Rounding.round 52 (a : ℚ) + Rounding.round 52 (b : ℚ)) < 0 := by
    have hsum := round_add_round_neg ha hmax h
    have hpos := Rounding.round_pos 52 (neg_pos.2 hsum)
    rw [Rounding.round_neg] at hpos
    linarith
  simp only [add, if_neg hout, maxZero, value, if_pos hneg]

end Number

/-- `CAST(x AS INTEGER)` of a real: towards zero, and no further than the range. -/
def toInteger (x : ℚ) : ℤ := max (-2 ^ 63) (min maxInteger (Rounding.trunc x))

/-- Why a `SUM` cannot be read as an `i64`. -/
inductive SumError where
  /-- All values were integers, and the sum was not. -/
  | overflow
  /-- A value was a real, and so is the sum. -/
  | notInteger
  deriving DecidableEq

/-- `SUM` of positive values, read as an `i64`. -/
def sum (xs : List Number) : Except SumError ℤ :=
  match xs.mapM Number.asI64 with
  | none => .error .notInteger
  | some ns => if InRange ns.sum then .ok ns.sum else .error .overflow

theorem mapM_asI64_integers (ns : List ℤ) :
    (ns.map Number.integer).mapM Number.asI64 = some ns := by
  induction ns with
  | nil => rfl
  | cons n ns ih =>
    rw [List.map_cons, List.mapM_cons, ih]
    rfl

theorem sum_integers (ns : List ℤ) :
    sum (ns.map Number.integer) = if InRange ns.sum then .ok ns.sum else .error .overflow := by
  unfold sum
  rw [mapM_asI64_integers]

end SqlNumber
