import Mathlib.Logic.Basic

/-!
# Runs of a deterministic machine under arbitrary inputs

A machine is a step function `σ → ι → σ`; whatever is not determined by the machine (answers of
the environment, the order of requests, faults) is part of the input.  Inputs may be restricted
by a side condition `ok : σ → ι → Prop` on the state they meet.

* `run` — the state after a list of inputs; `Allowed ok` — every input met its condition;
  `Always P` — `P` holds in the first state and in every state reached; `Meets Q` — some input
  met `Q`.
* `Reachable` — the states reached by allowed inputs, with the invariant rule
  `Reachable.invariant`.
* `always_of_allowed` — a step lemma gives a run lemma.
* `always_iff_allowed` — the first-violation law: if, from a state with `P`, a step keeps `P`
  exactly when it is `good`, then `P` holds along the whole run exactly when every step is good.
* `run_related` — a relation that every step keeps, against one step or none of another machine,
  is kept by whole runs.
* `count_of_meets` — a counter of an event that happens at most once.
-/

namespace Machine

variable {σ τ ι κ : Type}

/-- The state after the inputs `is`. -/
def run (step : σ → ι → σ) (s : σ) (is : List ι) : σ := is.foldl step s

@[simp] theorem run_nil (step : σ → ι → σ) (s : σ) : run step s [] = s := rfl

@[simp] theorem run_cons (step : σ → ι → σ) (s : σ) (i : ι) (is : List ι) :
    run step s (i :: is) = run step (step s i) is := rfl

theorem run_append (step : σ → ι → σ) (s : σ) (is js : List ι) :
    run step s (is ++ js) = run step (run step s is) js := List.foldl_append

/-- Every input meets `ok` in the state it arrives at. -/
def Allowed (step : σ → ι → σ) (ok : σ → ι → Prop) : σ → List ι → Prop
  | _, [] => True
  | s, i :: is => ok s i ∧ Allowed step ok (step s i) is

/-- `P` holds in the first state and after every input. -/
def Always (step : σ → ι → σ) (P : σ → Prop) : σ → List ι → Prop
  | s, [] => P s
  | s, i :: is => P s ∧ Always step P (step s i) is

/-- Some input meets `Q` in the state it arrives at. -/
def Meets (step : σ → ι → σ) (Q : σ → ι → Prop) : σ → List ι → Prop
  | _, [] => False
  | s, i :: is => Q s i ∨ Meets step Q (step s i) is

/-- States reached from `s₀` by allowed inputs. -/
inductive Reachable (step : σ → ι → σ) (ok : σ → ι → Prop) (s₀ : σ) : σ → Prop where
  | init : Reachable step ok s₀ s₀
  | step {s : σ} {i : ι} : Reachable step ok s₀ s → ok s i → Reachable step ok s₀ (step s i)

variable {step : σ → ι → σ} {ok good : σ → ι → Prop} {P Inv : σ → Prop}

instance decidableAllowed (step : σ → ι → σ) (ok : σ → ι → Prop)
    [∀ s i, Decidable (ok s i)] : ∀ s is, Decidable (Allowed step ok s is)
  | _, [] => inferInstanceAs (Decidable True)
  | s, i :: is =>
    haveI := decidableAllowed step ok (step s i) is
    inferInstanceAs (Decidable (ok s i ∧ Allowed step ok (step s i) is))

instance decidableMeets (step : σ → ι → σ) (Q : σ → ι → Prop)
    [∀ s i, Decidable (Q s i)] : ∀ s is, Decidable (Meets step Q s is)
  | _, [] => inferInstanceAs (Decidable False)
  | s, i :: is =>
    haveI := decidableMeets step Q (step s i) is
    inferInstanceAs (Decidable (Q s i ∨ Meets step Q (step s i) is))

theorem Reachable.invariant {s₀ s : σ} (h : Reachable step ok s₀ s) (h₀ : Inv s₀)
    (hstep : ∀ s i, Inv s → ok s i → Inv (step s i)) : Inv s := by
  induction h with
  | init => exact h₀
  | step _ hok ih => exact hstep _ _ ih hok

theorem Reachable.imp {ok' : σ → ι → Prop} (himp : ∀ s i, ok s i → ok' s i) {s₀ s : σ}
    (h : Reachable step ok s₀ s) : Reachable step ok' s₀ s := by
  induction h with
  | init => exact .init
  | step _ hok ih => exact .step ih (himp _ _ hok)

theorem Allowed.reachable {s₀ s : σ} {is : List ι} (hs : Reachable step ok s₀ s)
    (h : Allowed step ok s is) : Reachable step ok s₀ (run step s is) := by
  induction is generalizing s with
  | nil => exact hs
  | cons i is ih => exact ih (Reachable.step hs h.1) h.2

theorem Allowed.imp {ok' : σ → ι → Prop} (himp : ∀ s i, ok s i → ok' s i) :
    ∀ {s : σ} {is : List ι}, Allowed step ok s is → Allowed step ok' s is
  | _, [], _ => trivial
  | _, _ :: _, h => ⟨himp _ _ h.1, Allowed.imp himp h.2⟩

theorem allowed_of_forall (h : ∀ s i, ok s i) : ∀ (s : σ) (is : List ι), Allowed step ok s is
  | _, [] => trivial
  | s, i :: is => ⟨h s i, allowed_of_forall h (step s i) is⟩

theorem Allowed.and {ok' : σ → ι → Prop} : ∀ {s : σ} {is : List ι}, Allowed step ok s is →
    Allowed step ok' s is → Allowed step (fun s i => ok s i ∧ ok' s i) s is
  | _, [], _, _ => trivial
  | _, _ :: _, h, h' => ⟨⟨h.1, h'.1⟩, h.2.and h'.2⟩

theorem Always.head {s : σ} : ∀ {is : List ι}, Always step P s is → P s
  | [], h => h
  | _ :: _, h => h.1

theorem Always.imp {Q : σ → Prop} (himp : ∀ s, P s → Q s) :
    ∀ {s : σ} {is : List ι}, Always step P s is → Always step Q s is
  | _, [], h => himp _ h
  | _, _ :: _, h => ⟨himp _ h.1, h.2.imp himp⟩

theorem Always.last {s : σ} {is : List ι} (h : Always step P s is) : P (run step s is) := by
  induction is generalizing s with
  | nil => exact h
  | cons i is ih => exact ih h.2

/-- A step lemma gives a run lemma: what every allowed step keeps holds along the run. -/
theorem always_of_allowed (hstep : ∀ s i, Inv s → ok s i → Inv (step s i)) :
    ∀ {s : σ} {is : List ι}, Inv s → Allowed step ok s is → Always step Inv s is
  | _, [], hs, _ => hs
  | _, _ :: _, hs, h => ⟨hs, always_of_allowed hstep (hstep _ _ hs h.1) h.2⟩

/-- What an invariant says of every step holds of the steps of a run. -/
theorem allowed_of_always (hok : ∀ s i, Inv s → ok s i) :
    ∀ {s : σ} {is : List ι}, Always step Inv s is → Allowed step ok s is
  | _, [], _ => trivial
  | _, _ :: _, h => ⟨hok _ _ h.1, allowed_of_always hok h.2⟩

/-- **First-violation law.**  Along a run of allowed inputs, if good steps keep `Inv`, and a step
    from a state with `P` leads to a state with `P` exactly when it is `good`, then `P` holds
    along the run exactly when all its steps are good. -/
theorem always_iff_allowed (hinv : ∀ s i, Inv s → P s → ok s i → good s i → Inv (step s i))
    (hgood : ∀ s i, Inv s → P s → ok s i → (P (step s i) ↔ good s i)) :
    ∀ {s : σ} {is : List ι}, Inv s → P s → Allowed step ok s is →
      (Always step P s is ↔ Allowed step good s is)
  | _, [], _, hP, _ => ⟨fun _ => trivial, fun _ => hP⟩
  | s, i :: is, hI, hP, h => by
    have hrest : ∀ hg : good s i, (Always step P (step s i) is ↔ Allowed step good (step s i) is) :=
      fun hg => always_iff_allowed hinv hgood (hinv s i hI hP h.1 hg)
        ((hgood s i hI hP h.1).2 hg) h.2
    constructor
    · intro hA
      have hg := (hgood s i hI hP h.1).1 hA.2.head
      exact ⟨hg, (hrest hg).1 hA.2⟩
    · intro hG
      exact ⟨hP, (hrest hG.1).2 hG.2⟩

/-- A figure that stays over every step that is not `Q` stays over a run without `Q`. -/
theorem count_of_not_meets {Q : σ → ι → Prop} {f : σ → Nat}
    (hinv : ∀ s i, Inv s → ok s i → Inv (step s i))
    (hstay : ∀ s i, Inv s → ok s i → ¬ Q s i → f (step s i) = f s) :
    ∀ {s : σ} {is : List ι}, Inv s → Allowed step ok s is → ¬ Meets step Q s is →
      f (run step s is) = f s
  | _, [], _, _, _ => rfl
  | s, i :: is, hI, h, hQ => by
    rw [Meets, not_or] at hQ
    rw [run_cons, count_of_not_meets hinv hstay (hinv s i hI h.1) h.2 hQ.2]
    exact hstay s i hI h.1 hQ.1

/-- After `spent` there is no more `Q`. -/
theorem not_meets_of_spent {Q : σ → ι → Prop} {spent : σ → Prop}
    (hspent : ∀ s i, spent s → ok s i → ¬ Q s i ∧ spent (step s i)) :
    ∀ {s : σ} {is : List ι}, spent s → Allowed step ok s is → ¬ Meets step Q s is
  | _, [], _, _ => id
  | s, i :: is, hs, h => by
    rintro (hQ | hrest)
    · exact (hspent s i hs h.1).1 hQ
    · exact not_meets_of_spent hspent (hspent s i hs h.1).2 h.2 hrest

/-- A counter of an event after which it cannot happen again grows by one exactly when the run
    has the event. -/
theorem count_of_meets {Q : σ → ι → Prop} {spent : σ → Prop} {f : σ → Nat}
    (hinv : ∀ s i, Inv s → ok s i → Inv (step s i))
    (hstay : ∀ s i, Inv s → ok s i → ¬ Q s i → f (step s i) = f s)
    (hcount : ∀ s i, Inv s → ok s i → Q s i → f (step s i) = f s + 1 ∧ spent (step s i))
    (hspent : ∀ s i, spent s → ok s i → ¬ Q s i ∧ spent (step s i)) :
    ∀ {s : σ} {is : List ι}, Inv s → Allowed step ok s is →
      (f (run step s is) = f s + 1 ↔ Meets step Q s is)
  | s, [], _, _ => by
    rw [run_nil]
    exact ⟨fun h => absurd h (Nat.succ_ne_self _).symm, False.elim⟩
  | s, i :: is, hI, h => by
    rw [run_cons]
    by_cases hQ : Q s i
    · obtain ⟨hf, hsp⟩ := hcount s i hI h.1 hQ
      have hno := not_meets_of_spent hspent hsp h.2
      rw [count_of_not_meets hinv hstay (hinv s i hI h.1) h.2 hno, hf]
      exact ⟨fun _ => .inl hQ, fun _ => rfl⟩
    · rw [← hstay s i hI h.1 hQ, count_of_meets hinv hstay hcount hspent (hinv s i hI h.1) h.2]
      exact ⟨.inr, fun hm => hm.resolve_left hQ⟩

/-- A relation of two machines, the second of which takes the inputs that `lab` gives it. -/
theorem run_related {stepA : τ → κ → τ} {lab : ι → Option κ} {R : σ → τ → Prop}
    (hstep : ∀ s t i, R s t → ok s i → R (step s i) ((lab i).elim t (stepA t))) :
    ∀ {s : σ} {t : τ} {is : List ι}, R s t → Allowed step ok s is →
      R (run step s is) (run stepA t (is.filterMap lab))
  | _, _, [], hR, _ => hR
  | s, t, i :: is, hR, h => by
    have hnext := run_related hstep (hstep s t i hR h.1) h.2
    rw [run_cons, List.filterMap_cons]
    cases hlab : lab i with
    | none =>
      rw [hlab] at hnext
      exact hnext
    | some k =>
      rw [hlab] at hnext
      exact hnext

end Machine
