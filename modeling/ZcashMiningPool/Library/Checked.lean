import Mathlib.Algebra.Group.Nat.Defs
import Mathlib.Data.List.Infix
import Mathlib.Data.Nat.Notation

/-!
# Code that may panic

A call returns a value or an error, or it panics: an index or a slice is out of range, a window has
size zero, two lengths differ.  Sums of 64-bit offsets panic or wrap, as the program was built.

* `Exec` — the three ends of a call, as a monad; `Returns` — it does not panic.
* `ofExcept` — a call that cannot panic.
* `collect` — a call for every element.
* `index`, `slice`, `windows`, `copyFrom`, `add`, `checkedAdd` — the operations, each with the
  condition under which it is harmless.
-/

set_option autoImplicit false

namespace Checked

variable {ε α β γ : Type}

inductive Exec (ε α : Type) where
  | ok (a : α)
  | err (e : ε)
  | panic
  deriving DecidableEq, Repr

namespace Exec

def bind : Exec ε α → (α → Exec ε β) → Exec ε β
  | .ok a, f => f a
  | .err e, _ => .err e
  | .panic, _ => .panic

instance : Monad (Exec ε) where
  pure := .ok
  bind := Exec.bind

@[simp] theorem ok_bind (a : α) (f : α → Exec ε β) : (Exec.ok a >>= f) = f a := rfl

@[simp] theorem err_bind (e : ε) (f : α → Exec ε β) : (Exec.err e >>= f) = .err e := rfl

@[simp] theorem panic_bind (f : α → Exec ε β) : (Exec.panic >>= f) = .panic := rfl

@[simp] theorem pure_eq (a : α) : (pure a : Exec ε α) = .ok a := rfl

/-- A call that cannot panic. -/
def ofExcept : Except ε α → Exec ε α
  | .ok a => .ok a
  | .error e => .err e

@[simp] theorem ofExcept_ok (a : α) : ofExcept (.ok a : Except ε α) = .ok a := rfl

@[simp] theorem ofExcept_error (e : ε) : ofExcept (.error e : Except ε α) = .err e := rfl

theorem ofExcept_map (f : α → β) (r : Except ε α) :
    ofExcept (r.map f) = (ofExcept r >>= fun a => .ok (f a)) := by
  cases r <;> rfl

/-- It returns, with a value or with an error. -/
def Returns (o : Exec ε α) : Prop := o ≠ .panic

@[simp] theorem returns_ofExcept (r : Except ε α) : (ofExcept r).Returns := by
  cases r <;> exact fun h => nomatch h

@[simp] theorem not_returns_panic : ¬ (Exec.panic : Exec ε α).Returns := fun h => h rfl

theorem ofExcept_eq_ok {r : Except ε α} {a : α} : ofExcept r = .ok a ↔ r = .ok a := by
  cases r <;> simp

/-- A call for every element, in order; the first failure ends it. -/
def collect (f : α → Exec ε β) : List α → Exec ε (List β)
  | [] => .ok []
  | a :: l => do
    let b ← f a
    let bs ← collect f l
    .ok (b :: bs)

theorem collect_eq {f : α → Exec ε β} {g : α → β} {l : List α}
    (h : ∀ a ∈ l, f a = .ok (g a)) : collect f l = .ok (l.map g) := by
  induction l with
  | nil => rfl
  | cons a l ih =>
    have hrest := ih fun b hb => h b (List.mem_cons_of_mem _ hb)
    simp only [collect, h a List.mem_cons_self, hrest, ok_bind, List.map_cons]

end Exec

/-! ## Slices -/

/-- The most bytes that a slice, a string or a vector holds: `isize::MAX`. -/
def isizeMax : ℕ := 2 ^ 63 - 1

/-- `xs[i]`. -/
def index (xs : List α) (i : ℕ) : Exec ε α :=
  match xs[i]? with
  | some a => .ok a
  | none => .panic

/-- `&xs[start..stop]`. -/
def slice (xs : List α) (start stop : ℕ) : Exec ε (List α) :=
  if start ≤ stop ∧ stop ≤ xs.length then .ok ((xs.take stop).drop start) else .panic

/-- `xs.windows(size)`, as a list. -/
def windows (xs : List α) (size : ℕ) : Exec ε (List (List α)) :=
  if size = 0 then .panic
  else .ok ((List.range (xs.length + 1 - size)).map (fun i => (xs.drop i).take size))

/-- `copy_from_slice` into `n` places. -/
def copyFrom (n : ℕ) (src : List α) : Exec ε (List α) :=
  if src.length = n then .ok src else .panic

theorem index_eq {xs : List α} {i : ℕ} (h : i < xs.length) :
    (index xs i : Exec ε α) = .ok xs[i] := by
  rw [index, List.getElem?_eq_getElem h]

/-- Neighbouring elements, indexed one by one. -/
theorem collect_index {xs : List α} (first n : ℕ) (h : first + n ≤ xs.length) :
    (Exec.collect (index xs) (List.range' first n) : Exec ε (List α))
      = .ok ((xs.drop first).take n) := by
  induction n generalizing first with
  | zero => rfl
  | succ n ih =>
    have hfirst : first < xs.length := by omega
    have hrest : first + 1 + n ≤ xs.length := by omega
    simp only [List.range'_succ, Exec.collect, index_eq hfirst, ih (first + 1) hrest, Exec.ok_bind]
    rw [List.drop_eq_getElem_cons hfirst, List.take_succ_cons]

theorem slice_eq {xs : List α} {start stop : ℕ} (h : start ≤ stop) (h' : stop ≤ xs.length) :
    (slice xs start stop : Exec ε (List α)) = .ok ((xs.take stop).drop start) :=
  if_pos ⟨h, h'⟩

theorem slice_panics {xs : List α} {start stop : ℕ} (h : stop < start) :
    (slice xs start stop : Exec ε (List α)) = .panic :=
  if_neg fun hle => absurd hle.1 (not_le.2 h)

theorem copyFrom_eq {n : ℕ} {src : List α} (h : src.length = n) :
    (copyFrom n src : Exec ε (List α)) = .ok src := if_pos h

/-- **Windows of a positive size are the infixes of that size.** -/
theorem windows_eq {xs : List α} {size : ℕ} (h : 0 < size) :
    ∃ ws, (windows xs size : Exec ε (List (List α))) = .ok ws ∧
      ∀ w : List α, w.length = size → (w ∈ ws ↔ w <:+: xs) := by
  refine ⟨_, if_neg h.ne', fun w hw => ?_⟩
  rw [List.mem_map]
  constructor
  · rintro ⟨i, -, rfl⟩
    exact (List.take_prefix _ _).isInfix.trans (List.drop_suffix _ _).isInfix
  · rintro ⟨before, after, rfl⟩
    refine ⟨before.length, ?_, ?_⟩
    · rw [List.mem_range]
      simp only [List.length_append]
      omega
    · rw [List.append_assoc, List.drop_left, ← hw, List.take_left]

/-! ## Offsets -/

/-- `a + b`: with overflow checks it panics, without them it wraps. -/
def add (overflowChecks : Bool) (a b : ℕ) : Exec ε ℕ :=
  if a + b < 2 ^ 64 then .ok (a + b)
  else if overflowChecks then .panic
  else .ok ((a + b) % 2 ^ 64)

/-- `a.checked_add(b)`. -/
def checkedAdd (a b : ℕ) : Option ℕ := if a + b < 2 ^ 64 then some (a + b) else none

theorem add_eq (overflowChecks : Bool) {a b : ℕ} (h : a + b < 2 ^ 64) :
    (add overflowChecks a b : Exec ε ℕ) = .ok (a + b) := if_pos h

/-- **An end that wraps lies before its start**, so the slice between them panics. -/
theorem slice_of_wrapped (overflowChecks : Bool) {xs : List α} {start size : ℕ}
    (hstart : start < 2 ^ 64) (hsize : size < 2 ^ 64) (h : 2 ^ 64 ≤ start + size)
    (f : ℕ → List α → Exec ε β) (hxs : start ≤ xs.length) (short : ε) :
    (add overflowChecks start size >>= fun stop =>
      if xs.length < stop then .err short
      else slice xs start stop >>= f stop) = .panic := by
  have hwrap : (start + size) % 2 ^ 64 < start := by omega
  rw [add, if_neg (not_lt.2 h)]
  cases overflowChecks with
  | true => rfl
  | false =>
    rw [if_neg (by decide), Exec.ok_bind, if_neg (by omega), slice_panics hwrap]
    rfl

end Checked
