import Mathlib.Data.Fintype.Card
import Mathlib.Data.List.TakeWhile
import Mathlib.Data.Rat.Floor
import Mathlib.Tactic.Linarith
import ZcashMiningPool.Library.Run

/-!
# Throttles that are checked first and charged later

A throttle remembers the times of past charges.  A caller is let in when fewer than `cap` of them are
at most `width` old; only afterwards it is known whether this call is charged too.  Any number of
callers may stand between the two steps.

* `locked` — the check, which forgets what is too old.
* `step` — a check, a charge, or a call that is not charged.
* `locked_iff` — the check counts exactly the charges of the last `width`.
* `charged_in_window` — no more than `cap - 1` charges and one for each caller fit a window.
-/

set_option autoImplicit false

namespace Throttle

open Machine

variable {ι : Type}

/-- Whether the throttle is closed, and what it remembers then; oldest first. -/
def locked (width : ℚ) (cap : ℕ) (recent : List ℚ) (now : ℚ) : Bool × List ℚ :=
  let recent := recent.dropWhile fun t => decide (width < now - t)
  (decide (cap ≤ recent.length), recent)

structure State (ι : Type) where
  recent : List ℚ
  /-- callers that were let in -/
  inside : Finset ι
  /-- all charges, oldest first -/
  charged : List ℚ
  clock : ℚ

inductive Event (ι : Type) where
  | check (i : ι) (now : ℚ)
  | charge (i : ι) (now : ℚ)
  | pass (i : ι)

def initial (now : ℚ) : State ι := ⟨[], ∅, [], now⟩

/-- The clock does not run back, and only who was let in is charged. -/
def Fair (s : State ι) : Event ι → Prop
  | .check _ now => s.clock ≤ now
  | .charge i now => s.clock ≤ now ∧ i ∈ s.inside
  | .pass _ => True

/-- What is forgotten is too old. -/
structure Inv (width : ℚ) (s : State ι) : Prop where
  split : ∃ old, s.charged = old ++ s.recent ∧ ∀ t ∈ old, width < s.clock - t
  sorted : s.charged.Pairwise (· ≤ ·)
  past : ∀ t ∈ s.charged, t ≤ s.clock

variable {width : ℚ} {cap : ℕ} {s : State ι}

theorem inv_initial (width now : ℚ) : Inv width (initial now : State ι) :=
  ⟨⟨[], rfl, by simp⟩, List.Pairwise.nil, by simp [initial]⟩

variable (cap) in
/-- After a check the forgotten charges are too old. -/
theorem Inv.forget (h : Inv width s) {now : ℚ} (hnow : s.clock ≤ now) :
    ∃ old, s.charged = old ++ (locked width cap s.recent now).2 ∧ ∀ t ∈ old, width < now - t := by
  obtain ⟨old, hsplit, hold⟩ := h.split
  refine ⟨old ++ s.recent.takeWhile fun t => decide (width < now - t), ?_, fun t ht => ?_⟩
  · rw [List.append_assoc, locked, List.takeWhile_append_dropWhile]
    exact hsplit
  · obtain ht | ht := List.mem_append.1 ht
    · have := hold t ht
      linarith
    · have himp := List.mem_takeWhile_imp ht
      exact of_decide_eq_true himp

/-- Of sorted charges, what the check keeps is what is recent enough. -/
theorem all_recent {l : List ℚ} (hsorted : l.Pairwise (· ≤ ·)) (now : ℚ) :
    ∀ t ∈ l.dropWhile (fun t => decide (width < now - t)), now - t ≤ width := by
  induction l with
  | nil => simp
  | cons x l ih =>
    obtain ⟨hle, hrest⟩ := List.pairwise_cons.1 hsorted
    rw [List.dropWhile_cons]
    split
    · exact ih hrest
    · next hx =>
      intro t ht
      have hkept : now - x ≤ width := by simpa using hx
      obtain rfl | ht := List.mem_cons.1 ht
      · exact hkept
      · have := hle t ht
        linarith

/-- **The check is exact**: it is closed exactly when `cap` charges are at most `width` old. -/
theorem locked_iff (h : Inv width s) {now : ℚ} (hnow : s.clock ≤ now) :
    (locked width cap s.recent now).1 = true ↔
      cap ≤ s.charged.countP fun t => decide (now - t ≤ width) := by
  obtain ⟨old, hsplit, hold⟩ := h.forget cap hnow
  have hsorted : s.recent.Pairwise (· ≤ ·) := by
    obtain ⟨old', hsplit', -⟩ := h.split
    have hall := h.sorted
    rw [hsplit'] at hall
    exact (List.pairwise_append.1 hall).2.1
  have hgone : old.countP (fun t => decide (now - t ≤ width)) = 0 :=
    List.countP_eq_zero.2 fun t ht hin => absurd (of_decide_eq_true hin) (not_le.2 (hold t ht))
  have hkept : (locked width cap s.recent now).2.countP (fun t => decide (now - t ≤ width))
      = (locked width cap s.recent now).2.length :=
    List.countP_eq_length.2 fun t ht => decide_eq_true (all_recent hsorted now t ht)
  rw [hsplit, List.countP_append, hgone, hkept, Nat.zero_add]
  exact decide_eq_true_iff

/-! ## Windows -/

/-- The charges of the window that begins at `a`. -/
def inWindow (width a : ℚ) (l : List ℚ) : ℕ := l.countP fun t => decide (a ≤ t ∧ t ≤ a + width)

theorem inWindow_append (a : ℚ) (l l' : List ℚ) :
    inWindow width a (l ++ l') = inWindow width a l + inWindow width a l' := List.countP_append

section

variable [Fintype ι]

/-- While the window is open, whoever is inside may still be charged in it. -/
def Bounded (width : ℚ) (cap : ℕ) (a : ℚ) (s : State ι) : Prop :=
  inWindow width a s.charged + (if s.clock ≤ a + width then s.inside.card else 0)
    ≤ cap - 1 + Fintype.card ι

theorem Bounded.count {a : ℚ} (h : Bounded width cap a s) :
    inWindow width a s.charged ≤ cap - 1 + Fintype.card ι := (Nat.le_add_right _ _).trans h

end

/-! ## Steps -/

variable [DecidableEq ι]

def step (width : ℚ) (cap : ℕ) (s : State ι) : Event ι → State ι
  | .check i now =>
    { s with
      recent := (locked width cap s.recent now).2
      inside := if (locked width cap s.recent now).1 then s.inside else insert i s.inside
      clock := now }
  | .charge i now =>
    { s with
      recent := s.recent ++ [now]
      inside := s.inside.erase i
      charged := s.charged ++ [now]
      clock := now }
  | .pass i => { s with inside := s.inside.erase i }

theorem Inv.step (h : Inv width s) {e : Event ι} (he : Fair s e) :
    Inv width (step width cap s e) := by
  cases e with
  | check i now => exact ⟨h.forget cap he, h.sorted, fun t ht => (h.past t ht).trans he⟩
  | charge i now =>
    obtain ⟨old, hsplit, hold⟩ := h.split
    refine ⟨⟨old, ?_, fun t ht => ?_⟩, ?_, fun t ht => ?_⟩
    · show s.charged ++ [now] = old ++ (s.recent ++ [now])
      rw [hsplit, List.append_assoc]
    · exact (hold t ht).trans_le (sub_le_sub_right he.1 t)
    · refine List.pairwise_append.2 ⟨h.sorted, List.pairwise_singleton _ _, fun a ha b hb => ?_⟩
      rw [List.mem_singleton.1 hb]
      exact (h.past a ha).trans he.1
    · obtain ht | ht := List.mem_append.1 ht
      · exact (h.past t ht).trans he.1
      · rw [List.mem_singleton.1 ht]
        exact le_rfl
  | pass i => exact ⟨h.split, h.sorted, h.past⟩

theorem inv_reachable {now : ℚ} (h : Reachable (step width cap) Fair (initial now) s) :
    Inv width s :=
  h.invariant (inv_initial width now) fun _ _ hs he => hs.step he

variable [Fintype ι]

/-- Who is let in finds fewer than `cap` charges in the window. -/
theorem Bounded.check {a : ℚ} (h : Bounded width cap a s) (hI : Inv width s) {i : ι} {now : ℚ}
    (hnow : s.clock ≤ now) : Bounded width cap a (step width cap s (.check i now)) := by
  have hcount := h.count
  show inWindow width a s.charged + (if now ≤ a + width then
    (if (locked width cap s.recent now).1 then s.inside else insert i s.inside).card else 0) ≤ _
  by_cases hopen : now ≤ a + width
  · rw [if_pos hopen]
    by_cases hlocked : (locked width cap s.recent now).1 = true
    · rw [if_pos hlocked]
      unfold Bounded at h
      rwa [if_pos (hnow.trans hopen)] at h
    · rw [if_neg hlocked]
      obtain ⟨old, hsplit, hold⟩ := hI.forget cap hnow
      have hgone : inWindow width a old = 0 := List.countP_eq_zero.2 fun t ht => by
        have := hold t ht
        simp only [decide_eq_true_eq, not_and, not_le]
        intro hat
        linarith
      have hfew : (locked width cap s.recent now).2.length < cap := by
        rw [locked, decide_eq_true_iff] at hlocked
        exact not_le.1 hlocked
      have hlength : inWindow width a (locked width cap s.recent now).2
          ≤ (locked width cap s.recent now).2.length := List.countP_le_length
      have hcard : (insert i s.inside).card ≤ Fintype.card ι := Finset.card_le_univ _
      rw [hsplit, inWindow_append, hgone]
      omega
  · rw [if_neg hopen]
    exact hcount

theorem Bounded.charge {a : ℚ} (h : Bounded width cap a s) {i : ι} {now : ℚ}
    (hnow : s.clock ≤ now) (hi : i ∈ s.inside) :
    Bounded width cap a (step width cap s (.charge i now)) := by
  have hcount := h.count
  have hpos : 0 < s.inside.card := Finset.card_pos.2 ⟨i, hi⟩
  have hone : inWindow width a [now] = if a ≤ now ∧ now ≤ a + width then 1 else 0 := by
    rw [inWindow, List.countP_singleton]
    split
    · next hin => rw [if_pos (of_decide_eq_true hin)]
    · next hout => rw [if_neg fun hin => hout (decide_eq_true hin)]
  show inWindow width a (s.charged ++ [now]) +
    (if now ≤ a + width then (s.inside.erase i).card else 0) ≤ _
  rw [inWindow_append, hone, Finset.card_erase_of_mem hi]
  unfold Bounded at h
  by_cases hopen : now ≤ a + width
  · rw [if_pos (hnow.trans hopen)] at h
    rw [if_pos hopen]
    split <;> omega
  · rw [if_neg hopen, if_neg fun hin => hopen hin.2]
    exact hcount

theorem Bounded.pass {a : ℚ} (h : Bounded width cap a s) (i : ι) :
    Bounded width cap a (step width cap s (.pass i)) := by
  have hcard : (s.inside.erase i).card ≤ s.inside.card := Finset.card_le_card (Finset.erase_subset _ _)
  show inWindow width a s.charged + (if s.clock ≤ a + width then (s.inside.erase i).card else 0) ≤ _
  unfold Bounded at h
  split
  · next hopen =>
    rw [if_pos hopen] at h
    omega
  · next hshut =>
    rw [if_neg hshut] at h
    exact h

/-- **How much can be charged in any window**: what the check allows for, and one charge more for
    each other caller. -/
theorem charged_in_window {now : ℚ} (h : Reachable (step width cap) Fair (initial now) s) (a : ℚ) :
    inWindow width a s.charged ≤ cap - 1 + Fintype.card ι := by
  have hinitial : Inv width (initial now : State ι) ∧ Bounded width cap a (initial now : State ι) := by
    refine ⟨inv_initial width now, ?_⟩
    show 0 + (if now ≤ a + width then 0 else 0) ≤ _
    rw [ite_self]
    exact Nat.zero_le _
  have hstep : ∀ (s : State ι) (e : Event ι), Inv width s ∧ Bounded width cap a s → Fair s e →
      Inv width (step width cap s e) ∧ Bounded width cap a (step width cap s e) := by
    rintro s e ⟨hI, hB⟩ he
    refine ⟨hI.step he, ?_⟩
    cases e with
    | check i now => exact hB.check hI he
    | charge i now => exact hB.charge he.1 he.2
    | pass i => exact hB.pass i
  exact (h.invariant hinitial hstep).2.count

end Throttle
