import ZcashMiningPool.Library.Run

/-!
# What a run puts out, and how it is spaced

A machine may put something out at a step.  A guard that decides whether an output may follow all
that went out before is enough for any two of a whole run to be related, provided that it never
opens up again.

* `outputs` — what the steps of a run put out, in order.
* `forall_outputs` — an invariant speaks for every output.
* `pairwise_outputs` — the spacing rule.
-/

namespace Machine

variable {σ ι ω : Type}

/-- What the steps put out, in order. -/
def outputs (step : σ → ι → σ) (out : σ → ι → Option ω) : σ → List ι → List ω
  | _, [] => []
  | s, i :: is => (out s i).toList ++ outputs step out (step s i) is

variable {step : σ → ι → σ} {out : σ → ι → Option ω}

theorem mem_outputs_cons {s : σ} {i : ι} {is : List ι} {o : ω} :
    o ∈ outputs step out s (i :: is) ↔ out s i = some o ∨ o ∈ outputs step out (step s i) is := by
  rw [outputs, List.mem_append, Option.mem_toList]

/-- What holds of the output of a step from a state with the invariant holds of every output. -/
theorem forall_outputs {Inv : σ → Prop} {P : ω → Prop} (hstep : ∀ s i, Inv s → Inv (step s i))
    (hout : ∀ s i o, Inv s → out s i = some o → P o) {s : σ} (hs : Inv s) (is : List ι) :
    ∀ o ∈ outputs step out s is, P o := by
  induction is generalizing s with
  | nil => exact fun o ho => absurd ho List.not_mem_nil
  | cons i is ih =>
    intro o ho
    rcases mem_outputs_cons.1 ho with hnow | hlater
    · exact hout s i o hs hnow
    · exact ih (hstep s i hs) o hlater

section Spacing

variable {free : σ → ω → Prop} {R : ω → ω → Prop}

/-- The guard of the first state lets every output of the run pass. -/
theorem free_of_mem_outputs (hfree : ∀ s i o, out s i = some o → free s o)
    (hshut : ∀ s i o, free (step s i) o → free s o) {s : σ} {is : List ι} {o : ω}
    (ho : o ∈ outputs step out s is) : free s o := by
  induction is generalizing s with
  | nil => exact absurd ho List.not_mem_nil
  | cons i is ih =>
    rcases mem_outputs_cons.1 ho with hnow | hlater
    · exact hfree s i o hnow
    · exact hshut s i o (ih hlater)

/-- **Spacing rule.**  If every output passes the guard, the guard never opens up again, and what
    passes it after an output is related to that output, then any two outputs are related. -/
theorem pairwise_outputs (hfree : ∀ s i o, out s i = some o → free s o)
    (hshut : ∀ s i o, free (step s i) o → free s o)
    (hnext : ∀ s i o o', out s i = some o → free (step s i) o' → R o o') (s : σ) (is : List ι) :
    (outputs step out s is).Pairwise R := by
  induction is generalizing s with
  | nil => exact List.Pairwise.nil
  | cons i is ih =>
    rw [outputs, List.pairwise_append]
    refine ⟨?_, ih _, ?_⟩
    · cases out s i with
      | none => exact List.Pairwise.nil
      | some o => exact List.pairwise_singleton R o
    · intro o ho o' ho'
      rw [Option.mem_toList] at ho
      exact hnext s i o o' ho (free_of_mem_outputs hfree hshut ho')

end Spacing

end Machine
