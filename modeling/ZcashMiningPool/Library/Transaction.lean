import Mathlib.Data.Nat.Notation
import Mathlib.Logic.Basic

/-!
# Transactions

Statements write as they go; a transaction keeps what they wrote, or nothing of it.

* `Body` — statements on a state of type `σ`: a result, and the state they leave, also when they
  fail.
* `forEach` — one body for every row, until one of them fails; the result counts the rows.
* `atomic` — `BEGIN`, the body, and `COMMIT` or `ROLLBACK`; the commit may fail.
* `forEach_of_ok`, `forEach_of_error` — the loop is the fold of its rows.
-/

set_option autoImplicit false

namespace Transaction

variable {σ ε α ι : Type}

abbrev Body (σ ε α : Type) : Type := σ → Except ε α × σ

/-- What was written stays when a row fails. -/
def forEach (row : ι → Body σ ε Unit) : List ι → Body σ ε ℕ
  | [], s => (.ok 0, s)
  | i :: is, s =>
    match row i s with
    | (.error e, s') => (.error e, s')
    | (.ok (), s') =>
      match forEach row is s' with
      | (.error e, s'') => (.error e, s'')
      | (.ok n, s'') => (.ok (n + 1), s'')

/-- `BEGIN`, `body`, then `COMMIT`, which `commit` may make fail, or `ROLLBACK`. -/
def atomic (commit : Option ε) (body : Body σ ε α) : Body σ ε α := fun s =>
  match body s with
  | (.error e, _) => (.error e, s)
  | (.ok a, s') =>
    match commit with
    | some e => (.error e, s)
    | none => (.ok a, s')

variable {commit : Option ε} {body : Body σ ε α} {row : ι → Body σ ε Unit}

/-- **Nothing of a failed transaction stays.** -/
theorem atomic_error {s : σ} {e : ε} (h : (atomic commit body s).1 = .error e) :
    (atomic commit body s).2 = s := by
  unfold atomic at h ⊢
  split at h
  · rfl
  · split at h
    · rfl
    · cases h

/-- The rows one after the other, without a trace of a failure. -/
def foldRows (row : ι → Body σ ε Unit) : List ι → σ → Except ε σ
  | [], s => .ok s
  | i :: is, s =>
    match row i s with
    | (.error e, _) => .error e
    | (.ok (), s') => foldRows row is s'

theorem forEach_of_ok {is : List ι} {s s' : σ} (h : foldRows row is s = .ok s') :
    forEach row is s = (.ok is.length, s') := by
  induction is generalizing s with
  | nil =>
    cases h
    rfl
  | cons i is ih =>
    simp only [foldRows] at h
    simp only [forEach]
    split at h
    · cases h
    · simp only [ih h, List.length_cons]

theorem forEach_of_error {is : List ι} {s : σ} {e : ε} (h : foldRows row is s = .error e) :
    (forEach row is s).1 = .error e := by
  induction is generalizing s with
  | nil => cases h
  | cons i is ih =>
    simp only [foldRows] at h
    simp only [forEach]
    split at h
    · cases h
      rfl
    · have hrest := ih h
      split
      · rename_i e' s₂ hloop
        rw [hloop] at hrest
        exact hrest
      · rename_i n s₂ hloop
        rw [hloop] at hrest
        cases hrest

end Transaction
