import Mathlib.Data.Finset.Union
import Mathlib.Logic.Function.Basic
import ZcashMiningPool.Library.Run

/-!
# Scripts that are run again at every start

A script is a list of statements, each of which adds objects to a store that never loses one.
A lenient statement does nothing when it was carried out before; a strict one fails.  The scripts
are run at every start: a script is left at its first failing statement, with what it did until
then, and the next one is taken up; only a required script ends the start.

* `Statement.exec`, `applyScript`, `applyScripts` — one undisturbed start.
* `step` — any number of runners on one store, statement by statement in any order: a statement may
  be lost to a fault, a runner may be killed between two statements and launched again.
* `StuckAt` — a strict statement of the script was carried out, a later one was not.
* `applyScripts_complete_iff` — an undisturbed start completes the store exactly when no script is
  stuck.
* `not_dead_run_iff` — a script is stuck for good exactly when some runner was stopped in it after
  a strict statement.
-/

set_option autoImplicit false
set_option linter.unusedSectionVars false

namespace Scripts

variable {α ι : Type}

/-- `key` tells whether the statement was carried out, `needs` is looked up first, `parts` only
    when there is something to do. -/
structure Statement (α : Type) where
  key : α
  more : List α
  needs : List α
  parts : List α
  strict : Bool
  deriving DecidableEq, Repr

structure Script (α : Type) where
  required : Bool
  statements : List (Statement α)
  deriving DecidableEq, Repr

namespace Statement

def made (st : Statement α) : List α := st.key :: st.more

def requires (st : Statement α) : List α := st.needs ++ st.parts

@[simp] theorem key_mem_made (st : Statement α) : st.key ∈ st.made := List.mem_cons_self

variable [DecidableEq α]

def exec (st : Statement α) (S : Finset α) : Option (Finset α) :=
  if ∀ o ∈ st.needs, o ∈ S then
    if st.key ∈ S then
      if st.strict then none else some S
    else if ∀ o ∈ st.parts, o ∈ S then some (S ∪ st.made.toFinset)
    else none
  else none

/-- What a statement that succeeds did. -/
theorem exec_some {st : Statement α} {S S' : Finset α} (h : st.exec S = some S') :
    (st.key ∈ S ∧ st.strict = false ∧ S' = S) ∨
      (st.key ∉ S ∧ (∀ o ∈ st.requires, o ∈ S) ∧ S' = S ∪ st.made.toFinset) := by
  unfold exec at h
  split at h
  · next hneeds =>
    split at h
    · next hkey =>
      split at h
      · cases h
      · next hstrict =>
        cases h
        exact .inl ⟨hkey, by simpa using hstrict, rfl⟩
    · next hkey =>
      split at h
      · next hparts =>
        cases h
        exact .inr ⟨hkey, fun o ho => (List.mem_append.1 ho).elim (hneeds o) (hparts o), rfl⟩
      · cases h
  · cases h

/-- A statement that fails by itself: it is strict and was carried out, or something it needs is
    missing. -/
theorem exec_none {st : Statement α} {S : Finset α} (h : st.exec S = none) :
    (st.strict = true ∧ st.key ∈ S) ∨ ∃ o ∈ st.requires, o ∉ S := by
  unfold exec at h
  split at h
  · split at h
    · next hkey =>
      split at h
      · next hstrict => exact .inl ⟨hstrict, hkey⟩
      · cases h
    · split at h
      · cases h
      · next hparts =>
        push Not at hparts
        obtain ⟨o, ho, hoS⟩ := hparts
        exact .inr ⟨o, List.mem_append_right _ ho, hoS⟩
  · next hneeds =>
    push Not at hneeds
    obtain ⟨o, ho, hoS⟩ := hneeds
    exact .inr ⟨o, List.mem_append_left _ ho, hoS⟩

variable {st : Statement α} {S S' : Finset α}

theorem exec_subset (h : st.exec S = some S') : S ⊆ S' := by
  obtain ⟨-, -, rfl⟩ | ⟨-, -, rfl⟩ := exec_some h
  · exact Finset.Subset.refl _
  · exact Finset.subset_union_left

theorem exec_key (h : st.exec S = some S') : st.key ∈ S' := by
  obtain ⟨hkey, -, rfl⟩ | ⟨-, -, rfl⟩ := exec_some h
  · exact hkey
  · simp

theorem exec_new {o : α} (h : st.exec S = some S') (ho : o ∈ S') :
    o ∈ S ∨ (o ∈ st.made ∧ ∀ x ∈ st.made ++ st.requires, x ∈ S') := by
  obtain ⟨-, -, rfl⟩ | ⟨-, hreq, rfl⟩ := exec_some h
  · exact .inl ho
  · rw [Finset.mem_union, List.mem_toFinset] at ho
    refine ho.imp_right fun hm => ⟨hm, fun x hx => Finset.mem_union.2 ?_⟩
    obtain hx | hx := List.mem_append.1 hx
    · exact .inr (List.mem_toFinset.2 hx)
    · exact .inl (hreq x hx)

/-- A strict statement succeeds once. -/
theorem exec_strict (h : st.exec S = some S') (hst : st.strict = true) : st.key ∉ S := by
  obtain ⟨-, hlenient, -⟩ | ⟨hkey, -⟩ := exec_some h
  · rw [hst] at hlenient
    cases hlenient
  · exact hkey

end Statement

/-! ## What is asked of the scripts -/

/-- What each statement needs is known, or was made by the statements before it. -/
def Supplied (known : List α) : List (Statement α) → Prop
  | [] => True
  | st :: rest => (∀ o ∈ st.requires, o ∈ known) ∧ Supplied (st.made ++ known) rest

/-- Once a strict statement was carried out, nothing from outside is needed any more. -/
def Contained : List (Statement α) → Prop
  | [] => True
  | st :: rest => (st.strict = true → Supplied (st.made ++ st.requires) rest) ∧ Contained rest

theorem Supplied.split {l r : List (Statement α)} {known : List α}
    (h : Supplied known (l ++ r)) : Supplied known l ∧
      ∃ known', Supplied known' r ∧ ∀ o ∈ known', o ∈ known ∨ ∃ st ∈ l, o ∈ st.made := by
  induction l generalizing known with
  | nil => exact ⟨trivial, known, h, fun o ho => .inl ho⟩
  | cons st l ih =>
    obtain ⟨hl, known', hr, hknown'⟩ := ih h.2
    refine ⟨⟨h.1, hl⟩, known', hr, fun o ho => ?_⟩
    obtain ho | ⟨st', hst', ho⟩ := hknown' o ho
    · exact (List.mem_append.1 ho).elim (fun hm => .inr ⟨st, List.mem_cons_self, hm⟩) .inl
    · exact .inr ⟨st', List.mem_cons_of_mem _ hst', ho⟩

/-- What a statement needs behind a strict one is there when all before it was carried out. -/
theorem Contained.requires {done rest : List (Statement α)} {a st : Statement α} {P : α → Prop}
    (h : Contained (done ++ st :: rest)) (ha : a ∈ done) (hstrict : a.strict = true)
    (hthere : ∀ st' ∈ done, ∀ x ∈ st'.made ++ st'.requires, P x) : ∀ o ∈ st.requires, P o := by
  induction done with
  | nil => cases ha
  | cons st' done ih =>
    obtain rfl | ha := List.mem_cons.1 ha
    · intro o ho
      obtain ⟨-, known', hsup, hknown'⟩ := (h.1 hstrict).split
      obtain ho | ⟨x, hx, ho⟩ := hknown' o (hsup.1 o ho)
      · exact hthere a List.mem_cons_self o ho
      · exact hthere x (List.mem_cons_of_mem _ hx) o (List.mem_append_left _ ho)
    · exact ih h.2 ha fun x hx => hthere x (List.mem_cons_of_mem _ hx)

/-- All statements, in the order of the files. -/
def allStatements (L : List (Script α)) : List (Statement α) := L.flatMap Script.statements

structure Sound (L : List (Script α)) : Prop where
  own : ∀ st ∈ allStatements L, ∀ st' ∈ allStatements L, st.key ∈ st'.made → st = st'
  disjoint : ∀ s ∈ L, ∀ s' ∈ L, ∀ st ∈ s.statements, st ∈ s'.statements → s = s'
  nodup : ∀ s ∈ L, s.statements.Nodup
  supplied : Supplied [] (allStatements L)
  contained : ∀ s ∈ L, Contained s.statements
  lenient : ∀ s ∈ L, s.required = true → ∀ st ∈ s.statements, st.strict = false

instance decidableSupplied [DecidableEq α] :
    ∀ (known : List α) (sts : List (Statement α)), Decidable (Supplied known sts)
  | _, [] => inferInstanceAs (Decidable True)
  | known, st :: rest =>
    haveI := decidableSupplied (st.made ++ known) rest
    inferInstanceAs (Decidable ((∀ o ∈ st.requires, o ∈ known) ∧ Supplied (st.made ++ known) rest))

instance decidableContained [DecidableEq α] :
    ∀ sts : List (Statement α), Decidable (Contained sts)
  | [] => inferInstanceAs (Decidable True)
  | st :: rest =>
    haveI := decidableContained rest
    inferInstanceAs (Decidable ((st.strict = true → Supplied (st.made ++ st.requires) rest) ∧
      Contained rest))

theorem mem_allStatements {L : List (Script α)} {s : Script α} {st : Statement α} (hs : s ∈ L)
    (hst : st ∈ s.statements) : st ∈ allStatements L :=
  List.mem_flatMap.2 ⟨s, hs, hst⟩

/-- `a` stands before `b`. -/
def Before (l : List (Statement α)) (a b : Statement α) : Prop := List.Sublist [a, b] l

theorem before_append {l r : List (Statement α)} {a b : Statement α} :
    Before (l ++ r) a b ↔ Before l a b ∨ (a ∈ l ∧ b ∈ r) ∨ Before r a b := by
  unfold Before
  rw [List.sublist_append_iff]
  constructor
  · rintro ⟨l₁, l₂, h, h₁, h₂⟩
    match l₁, h with
    | [], h =>
      rw [List.nil_append] at h
      exact .inr (.inr (h ▸ h₂))
    | [x], h =>
      obtain ⟨rfl, rfl⟩ : a = x ∧ [b] = l₂ := by simpa using h
      exact .inr (.inl ⟨List.singleton_sublist.1 h₁, List.singleton_sublist.1 h₂⟩)
    | x :: y :: l₁, h =>
      obtain ⟨rfl, rfl, hnil⟩ : a = x ∧ b = y ∧ [] = l₁ ++ l₂ := by simpa using h
      obtain ⟨rfl, rfl⟩ := List.append_eq_nil_iff.1 hnil.symm
      exact .inl h₁
  · rintro (h | ⟨ha, hb⟩ | h)
    · exact ⟨[a, b], [], rfl, h, List.nil_sublist _⟩
    · exact ⟨[a], [b], rfl, List.singleton_sublist.2 ha, List.singleton_sublist.2 hb⟩
    · exact ⟨[], [a, b], rfl, List.nil_sublist _, h⟩

theorem before_cons {st : Statement α} {l : List (Statement α)} {a b : Statement α} :
    Before (st :: l) a b ↔ (a = st ∧ b ∈ l) ∨ Before l a b := by
  have hone : ¬ Before [st] a b := fun h => by simpa using h.length_le
  rw [← List.singleton_append, before_append]
  simp [hone]

theorem Before.left_mem {l : List (Statement α)} {a b : Statement α} (h : Before l a b) : a ∈ l :=
  h.subset (by simp)

theorem Before.right_mem {l : List (Statement α)} {a b : Statement α} (h : Before l a b) : b ∈ l :=
  h.subset (by simp)

/-- Nothing stands before itself in a list without repetition. -/
theorem Before.ne {l : List (Statement α)} {a b : Statement α} (h : Before l a b) (hl : l.Nodup) :
    a ≠ b := by
  rintro rfl
  simpa using h.nodup hl

/-- Without repetition, `st` splits the list. -/
theorem Before.of_mid {done rest : List (Statement α)} {st a : Statement α}
    (hnodup : (done ++ st :: rest).Nodup) (h : Before (done ++ st :: rest) a st) : a ∈ done := by
  obtain ⟨-, hright, hdis⟩ := List.nodup_append.1 hnodup
  have hrest : st ∉ rest := (List.nodup_cons.1 hright).1
  obtain h | ⟨ha, -⟩ | h := before_append.1 h
  · exact absurd rfl (hdis st h.right_mem st List.mem_cons_self)
  · exact ha
  · obtain ⟨-, hmem⟩ | h := before_cons.1 h
    · exact absurd hmem hrest
    · exact absurd h.right_mem hrest

/-! ## Stores -/

/-- What was carried out was carried out whole, on what it needs. -/
def Whole (sts : List (Statement α)) (S : Finset α) : Prop :=
  ∀ st ∈ sts, st.key ∈ S → ∀ o ∈ st.made ++ st.requires, o ∈ S

/-- A strict statement was carried out, one after it was not. -/
def StuckAt (S : Finset α) (s : Script α) : Prop :=
  ∃ a b, Before s.statements a b ∧ a.strict = true ∧ a.key ∈ S ∧ b.key ∉ S

/-- Nothing that a statement makes is missing. -/
def Complete (L : List (Script α)) (S : Finset α) : Prop :=
  ∀ st ∈ allStatements L, ∀ o ∈ st.made, o ∈ S

/-! ## Runners on one store -/

/-- A runner is in the script whose statements are `done ++ rest`. -/
inductive Runner (α : Type) where
  | idle
  | running (required : Bool) (done rest : List (Statement α)) (later : List (Script α))
  | finished
  | failed
  deriving DecidableEq, Repr

namespace Runner

/-- Takes up the next script. -/
def next : List (Script α) → Runner α
  | [] => .finished
  | s :: later => .running s.required [] s.statements later

/-- The script the runner is in, with a strict statement behind it and a statement ahead. -/
def inside (s : Script α) : Runner α → Prop
  | .running required done rest _ =>
    s = ⟨required, done ++ rest⟩ ∧ rest ≠ [] ∧ ∃ st ∈ done, st.strict = true
  | _ => False

end Runner

/-- What becomes of a runner whose statement failed. -/
def Runner.left (required : Bool) (later : List (Script α)) : Runner α :=
  if required then .failed else .next later

variable {L : List (Script α)}

theorem Runner.inside_next {s : Script α} (later : List (Script α)) :
    ¬ (Runner.next later).inside s := by
  cases later with
  | nil => exact id
  | cons s' later =>
    rintro ⟨-, -, st, hst, -⟩
    cases hst

/-- A runner that stands between two scripts, or does not run. -/
def Outside (L : List (Script α)) (r : Runner α) : Prop :=
  r = .idle ∨ r = .failed ∨ ∃ later, (∀ s ∈ later, s ∈ L) ∧ r = .next later

theorem Outside.not_inside {r : Runner α} (h : Outside L r) (s : Script α) : ¬ r.inside s := by
  obtain rfl | rfl | ⟨later, -, rfl⟩ := h
  · exact id
  · exact id
  · exact Runner.inside_next later

theorem outside_left {required : Bool} {later : List (Script α)} (h : ∀ s ∈ later, s ∈ L) :
    Outside L (Runner.left required later) := by
  unfold Runner.left
  split
  · exact .inr (.inl rfl)
  · exact .inr (.inr ⟨later, h, rfl⟩)

section

variable [DecidableEq ι]

structure Config (ι α : Type) where
  objects : Finset α
  runners : ι → Runner α

inductive Event (ι : Type) where
  | launch (i : ι)
  /-- The next statement of the runner; a fault makes it fail without effect. -/
  | statement (i : ι) (fault : Bool)
  | kill (i : ι)
  deriving DecidableEq, Repr

namespace Config

def setRunner (c : Config ι α) (i : ι) (r : Runner α) : Config ι α :=
  { c with runners := Function.update c.runners i r }

@[simp] theorem setRunner_objects (c : Config ι α) (i : ι) (r : Runner α) :
    (c.setRunner i r).objects = c.objects := rfl

@[simp] theorem setRunner_same (c : Config ι α) (i : ι) (r : Runner α) :
    (c.setRunner i r).runners i = r := by
  simp [setRunner]

theorem setRunner_other (c : Config ι α) {i j : ι} (r : Runner α) (h : j ≠ i) :
    (c.setRunner i r).runners j = c.runners j := by
  simp [setRunner, h]

/-- An empty store and nobody at work. -/
def initial : Config ι α := ⟨∅, fun _ => .idle⟩

end Config

end

variable [DecidableEq α] {S S' : Finset α} {st : Statement α}

/-- A statement carries out no other one. -/
theorem Sound.exec_other (hL : Sound L) (hst : st ∈ allStatements L) (h : st.exec S = some S')
    {st' : Statement α} (hst' : st' ∈ allStatements L) (hne : st' ≠ st) (hkey : st'.key ∈ S') :
    st'.key ∈ S := by
  obtain hS | ⟨hm, -⟩ := Statement.exec_new h hkey
  · exact hS
  · exact absurd (hL.own st' hst' st hst hm) hne

theorem Whole.exec (hL : Sound L) (hW : Whole (allStatements L) S) (hst : st ∈ allStatements L)
    (h : st.exec S = some S') : Whole (allStatements L) S' := by
  intro st' hst' hkey o ho
  obtain hS | ⟨hm, hmade⟩ := Statement.exec_new h hkey
  · exact Statement.exec_subset h (hW st' hst' hS o ho)
  · obtain rfl := hL.own st' hst' st hst hm
    exact hmade o ho

/-! ## One undisturbed start -/

/-- The statements of a script up to the first that fails; whether none failed. -/
def applyScript : List (Statement α) → Finset α → Finset α × Bool
  | [], S => (S, true)
  | st :: rest, S =>
    match st.exec S with
    | some S' => applyScript rest S'
    | none => (S, false)

/-- All scripts in their order; a required one that fails ends the start. -/
def applyScripts : List (Script α) → Finset α → Finset α × Bool
  | [], S => (S, true)
  | s :: later, S =>
    match applyScript s.statements S with
    | (S', ok) => if s.required && !ok then (S', false) else applyScripts later S'

theorem applyScript_subset {sts : List (Statement α)} : S ⊆ (applyScript sts S).1 := by
  induction sts generalizing S with
  | nil => exact Finset.Subset.refl _
  | cons st rest ih =>
    unfold applyScript
    split
    · next S' hexec => exact (Statement.exec_subset hexec).trans ih
    · exact Finset.Subset.refl _

theorem applyScript_other (hL : Sound L) {sts : List (Statement α)}
    (hsts : ∀ st ∈ sts, st ∈ allStatements L) {st' : Statement α} (hst' : st' ∈ allStatements L)
    (hnot : st' ∉ sts) : st'.key ∈ (applyScript sts S).1 → st'.key ∈ S := by
  induction sts generalizing S with
  | nil => exact id
  | cons st rest ih =>
    obtain ⟨hne, hrest⟩ := not_or.1 fun h => hnot (List.mem_cons.2 h)
    unfold applyScript
    split
    · next S' hexec =>
      intro h
      exact hL.exec_other (hsts st List.mem_cons_self) hexec hst' hne
        (ih (fun x hx => hsts x (List.mem_cons_of_mem _ hx)) hrest h)
    · exact id

/-- A stuck script is run up to its strict statement at most. -/
theorem applyScript_stuck (hL : Sound L) {sts : List (Statement α)}
    (hsts : ∀ st ∈ sts, st ∈ allStatements L) (hnodup : sts.Nodup) {a b : Statement α}
    (hab : Before sts a b) (ha : a.strict = true) (haS : a.key ∈ S) (hbS : b.key ∉ S) :
    b.key ∉ (applyScript sts S).1 := by
  induction sts generalizing S with
  | nil => cases hab.left_mem
  | cons st rest ih =>
    obtain ⟨hst, hnodup'⟩ := List.nodup_cons.1 hnodup
    unfold applyScript
    split
    · next S' hexec =>
      obtain ⟨rfl, -⟩ | hrest := before_cons.1 hab
      · exact absurd haS (Statement.exec_strict hexec ha)
      · have hne : b ≠ st := fun h => hst (h ▸ hrest.right_mem)
        refine ih (fun x hx => hsts x (List.mem_cons_of_mem _ hx)) hnodup' hrest
          (Statement.exec_subset hexec haS) fun hbS' => hbS ?_
        exact hL.exec_other (hsts st List.mem_cons_self) hexec
          (hsts b (List.mem_cons_of_mem _ hrest.right_mem)) hne hbS'
    · exact hbS

/-- A script that is not stuck is carried out to its end. -/
theorem applyScript_complete (hL : Sound L) {sts : List (Statement α)} {known : List α}
    (hsts : ∀ st ∈ sts, st ∈ allStatements L) (hnodup : sts.Nodup)
    (hW : Whole (allStatements L) S) (hknown : ∀ o ∈ known, o ∈ S) (hsup : Supplied known sts)
    (hfree : ∀ a b, Before sts a b → a.strict = true → a.key ∈ S → b.key ∈ S) :
    Whole (allStatements L) (applyScript sts S).1 ∧ S ⊆ (applyScript sts S).1 ∧
      (∀ st ∈ sts, st.key ∈ (applyScript sts S).1) ∧
      ((∀ st ∈ sts, st.strict = false) → (applyScript sts S).2 = true) := by
  induction sts generalizing S known with
  | nil => exact ⟨hW, Finset.Subset.refl _, by simp, fun _ => rfl⟩
  | cons st rest ih =>
    obtain ⟨hst, hnodup'⟩ := List.nodup_cons.1 hnodup
    have hstL := hsts st List.mem_cons_self
    unfold applyScript
    split
    · next S' hexec =>
      have hW' := hW.exec hL hstL hexec
      have hsub := Statement.exec_subset hexec
      obtain ⟨hWr, hsubr, hall, hok⟩ := ih
        (fun x hx => hsts x (List.mem_cons_of_mem _ hx)) hnodup' hW'
        (by
          show ∀ o ∈ st.made ++ known, o ∈ S'
          intro o ho
          obtain ho | ho := List.mem_append.1 ho
          · exact hW' st hstL (Statement.exec_key hexec) o (List.mem_append_left _ ho)
          · exact hsub (hknown o ho))
        hsup.2
        (by
          intro a b hab ha haS'
          have hane : a ≠ st := fun h => hst (h ▸ hab.left_mem)
          have haS := hL.exec_other hstL hexec
            (hsts a (List.mem_cons_of_mem _ hab.left_mem)) hane haS'
          exact hsub (hfree a b (before_cons.2 (.inr hab)) ha haS))
      refine ⟨hWr, hsub.trans hsubr, ?_, fun hlen => hok fun x hx => ?_⟩
      · intro x hx
        obtain rfl | hx := List.mem_cons.1 hx
        · exact hsubr (Statement.exec_key hexec)
        · exact hall x hx
      · exact hlen x (List.mem_cons_of_mem _ hx)
    · next hexec =>
      obtain ⟨hstrict, hkey⟩ | ⟨o, ho, hoS⟩ := Statement.exec_none hexec
      · refine ⟨hW, Finset.Subset.refl _, ?_, fun hlen => ?_⟩
        · intro x hx
          obtain rfl | hx := List.mem_cons.1 hx
          · exact hkey
          · exact hfree st x (before_cons.2 (.inl ⟨rfl, hx⟩)) hstrict hkey
        · rw [hlen st List.mem_cons_self] at hstrict
          cases hstrict
      · exact absurd (hknown o (hsup.1 o ho)) hoS

/-- What a stuck script still lacks is lacking after the start. -/
theorem applyScripts_stuck (hL : Sound L) {s : Script α} (hs : s ∈ L) {a b : Statement α}
    (hab : Before s.statements a b) (ha : a.strict = true) :
    ∀ {later : List (Script α)} {S : Finset α}, (∀ s' ∈ later, s' ∈ L) → a.key ∈ S →
      b.key ∉ S → b.key ∉ (applyScripts later S).1
  | [], _, _, _, hbS => hbS
  | s' :: later, S, hlater, haS, hbS => by
    have hs' := hlater s' List.mem_cons_self
    have hsts : ∀ st ∈ s'.statements, st ∈ allStatements L :=
      fun st hst => mem_allStatements hs' hst
    have hb' : b.key ∉ (applyScript s'.statements S).1 := by
      by_cases hb : b ∈ s'.statements
      · obtain rfl := hL.disjoint s hs s' hs' b hab.right_mem hb
        exact applyScript_stuck hL hsts (hL.nodup s hs) hab ha haS hbS
      · exact fun h => hbS
          (applyScript_other hL hsts (mem_allStatements hs hab.right_mem) hb h)
    have ha' : a.key ∈ (applyScript s'.statements S).1 := applyScript_subset haS
    unfold applyScripts
    split
    next S' ok hrun =>
    rw [hrun] at ha' hb'
    split
    · exact hb'
    · exact applyScripts_stuck hL hs hab ha
        (fun x hx => hlater x (List.mem_cons_of_mem _ hx)) ha' hb'

theorem applyScripts_complete (hL : Sound L) :
    ∀ {later : List (Script α)} {known : List α} {S : Finset α}, (∀ s ∈ later, s ∈ L) →
      Whole (allStatements L) S → (∀ o ∈ known, o ∈ S) → Supplied known (allStatements later) →
      (∀ s ∈ later, ¬ StuckAt S s) →
      Complete later (applyScripts later S).1 ∧ S ⊆ (applyScripts later S).1 ∧
        (applyScripts later S).2 = true
  | [], _, _, _, _, _, _, _ => ⟨fun _ h => (List.not_mem_nil h).elim, Finset.Subset.refl _, rfl⟩
  | s :: later, known, S, hlater, hW, hknown, hsup, hfree => by
    have hs := hlater s List.mem_cons_self
    have hsts : ∀ st ∈ s.statements, st ∈ allStatements L := fun st hst => mem_allStatements hs hst
    obtain ⟨hsup₁, known', hsup₂, hknown'⟩ := Supplied.split (show Supplied known (s.statements ++ allStatements later) from hsup)
    obtain ⟨hW', hsub, hall, hok⟩ := applyScript_complete hL hsts (hL.nodup s hs) hW hknown hsup₁
      (by
        intro a b hab ha haS
        by_contra hbS
        exact hfree s List.mem_cons_self ⟨a, b, hab, ha, haS, hbS⟩)
    unfold applyScripts
    split
    next S' ok hrun =>
    rw [hrun] at hW' hsub hall hok
    have hnext := applyScripts_complete hL
      (fun x hx => hlater x (List.mem_cons_of_mem _ hx)) hW'
      (by
        intro o ho
        obtain ho | ⟨st, hst, ho⟩ := hknown' o ho
        · exact hsub (hknown o ho)
        · exact hW' st (hsts st hst) (hall st hst) o (List.mem_append_left _ ho))
      hsup₂
      (by
        rintro s' hs' ⟨a, b, hab, ha, haS', hbS'⟩
        have hs'L := hlater s' (List.mem_cons_of_mem _ hs')
        by_cases hb : b ∈ s.statements
        · exact hbS' (hall b hb)
        · have hane : a ∉ s.statements := by
            intro hmem
            obtain rfl := hL.disjoint s hs s' hs'L a hmem hab.left_mem
            exact hb hab.right_mem
          have haS := applyScript_other (S := S) hL hsts (mem_allStatements hs'L hab.left_mem)
            hane (by rw [hrun]; exact haS')
          exact hfree s' (List.mem_cons_of_mem _ hs')
            ⟨a, b, hab, ha, haS, fun h => hbS' (hsub h)⟩)
    have hgo : (s.required && !ok) = false := by
      cases hreq : s.required with
      | false => rfl
      | true =>
        obtain rfl : ok = true := hok (hL.lenient s hs hreq)
        rfl
    rw [if_neg (by rw [hgo]; simp)]
    refine ⟨?_, hsub.trans hnext.2.1, hnext.2.2⟩
    intro st hst o ho
    obtain ⟨s', hs', hmem⟩ := List.mem_flatMap.1 hst
    obtain rfl | hs' := List.mem_cons.1 hs'
    · exact hnext.2.1 (hW' st (hsts st hmem) (hall st hmem) o (List.mem_append_left _ ho))
    · exact hnext.1 st (mem_allStatements hs' hmem) o ho

/-- **An undisturbed start completes the store exactly when no script is stuck.** -/
theorem applyScripts_complete_iff (hL : Sound L) (hW : Whole (allStatements L) S) :
    (Complete L (applyScripts L S).1 ∧ (applyScripts L S).2 = true) ↔
      ∀ s ∈ L, ¬ StuckAt S s := by
  constructor
  · rintro ⟨hC, -⟩ s hs ⟨a, b, hab, ha, haS, hbS⟩
    exact applyScripts_stuck hL hs hab ha (fun _ h => h) haS hbS
      (hC b (mem_allStatements hs hab.right_mem) b.key b.key_mem_made)
  · intro hfree
    obtain ⟨hC, -, hok⟩ := applyScripts_complete hL (fun _ h => h) hW
      (fun o (h : o ∈ []) => (List.not_mem_nil h).elim) hL.supplied hfree
    exact ⟨hC, hok⟩

/-! ## Steps of the runners -/

variable [DecidableEq ι]

def step (L : List (Script α)) (c : Config ι α) : Event ι → Config ι α
  | .launch i =>
    match c.runners i with
    | .running _ _ _ _ => c
    | _ => c.setRunner i (.next L)
  | .statement i fault =>
    match c.runners i with
    | .running _ _ [] later => c.setRunner i (.next later)
    | .running required done (st :: rest) later =>
      match if fault then none else st.exec c.objects with
      | some S' => { c with objects := S' }.setRunner i (.running required (done ++ [st]) rest later)
      | none => c.setRunner i (.left required later)
    | _ => c
  | .kill i => c.setRunner i .idle

/-- The event stops a runner after a strict statement of a script and before its end. -/
def CutsInside (L : List (Script α)) (c : Config ι α) : Event ι → Prop
  | .launch _ => False
  | .statement i fault => fault = true ∧ ∃ s ∈ L, (c.runners i).inside s
  | .kill i => ∃ s ∈ L, (c.runners i).inside s

/-- A stuck script that no runner is in. -/
def Dead (L : List (Script α)) (c : Config ι α) : Prop :=
  ∃ s ∈ L, StuckAt c.objects s ∧ ∀ i, ¬ (c.runners i).inside s

/-- What every step keeps. -/
structure Inv (L : List (Script α)) (c : Config ι α) : Prop where
  whole : Whole (allStatements L) c.objects
  /-- Nothing behind a strict statement is carried out before it. -/
  gated : ∀ s ∈ L, ∀ a b, Before s.statements a b → a.strict = true → b.key ∈ c.objects →
    a.key ∈ c.objects
  script : ∀ i required done rest later, c.runners i = .running required done rest later →
    ⟨required, done ++ rest⟩ ∈ L ∧ (∀ s ∈ later, s ∈ L)
  carried : ∀ i required done rest later, c.runners i = .running required done rest later →
    ∀ st ∈ done, st.key ∈ c.objects
  /-- Behind its strict statement a runner works alone. -/
  ahead : ∀ i required done rest later, c.runners i = .running required done rest later →
    (∃ st ∈ done, st.strict = true) → ∀ st ∈ rest, st.key ∉ c.objects
  alone : ∀ s i j, (c.runners i).inside s → (c.runners j).inside s → i = j

variable {c : Config ι α} {e : Event ι}

/-- A statement behind a strict one never fails by itself. -/
theorem Inv.exec_inside (hL : Sound L) (hI : Inv L c) {i : ι} {required : Bool}
    {done rest : List (Statement α)} {later : List (Script α)}
    (hi : c.runners i = .running required done (st :: rest) later)
    (hstrict : ∃ a ∈ done, a.strict = true) : st.exec c.objects ≠ none := by
  intro hexec
  obtain ⟨hs, -⟩ := hI.script i required done (st :: rest) later hi
  have hcarried := hI.carried i required done (st :: rest) later hi
  obtain ⟨-, hkey⟩ | ⟨o, ho, hoS⟩ := Statement.exec_none hexec
  · exact hI.ahead i required done (st :: rest) later hi hstrict st List.mem_cons_self hkey
  · obtain ⟨a, ha, hastrict⟩ := hstrict
    have hthere : ∀ st' ∈ done, ∀ x ∈ st'.made ++ st'.requires, x ∈ c.objects := fun st' h =>
      hI.whole st' (mem_allStatements hs (List.mem_append_left _ h)) (hcarried st' h)
    exact hoS (Contained.requires (hL.contained _ hs) ha hastrict hthere o ho)

/-- **What one event can do.** -/
theorem step_cases (hL : Sound L) (hI : Inv L c) (e : Event ι) :
    (step L c e = c ∧ ¬ CutsInside L c e) ∨
    (∃ i r, step L c e = c.setRunner i r ∧ Outside L r ∧
      (CutsInside L c e ↔ ∃ s ∈ L, (c.runners i).inside s)) ∨
    (∃ i required done st rest later S',
      c.runners i = .running required done (st :: rest) later ∧
      st.exec c.objects = some S' ∧ ¬ CutsInside L c e ∧
      step L c e =
        { c with objects := S' }.setRunner i (.running required (done ++ [st]) rest later)) := by
  cases e with
  | launch i =>
    simp only [step, CutsInside]
    split
    · exact .inl ⟨rfl, id⟩
    · next hi =>
      refine .inr (.inl ⟨i, _, rfl, .inr (.inr ⟨L, fun _ h => h, rfl⟩), ?_⟩)
      refine ⟨False.elim, ?_⟩
      rintro ⟨s, -, hin⟩
      cases hr : c.runners i with
      | running required done rest later => exact hi _ _ _ _ hr
      | idle => rw [hr] at hin; exact hin
      | finished => rw [hr] at hin; exact hin
      | failed => rw [hr] at hin; exact hin
  | kill i => exact .inr (.inl ⟨i, _, rfl, .inl rfl, Iff.rfl⟩)
  | statement i fault =>
    simp only [step, CutsInside]
    split
    · next required done later hi =>
      obtain ⟨-, hlater⟩ := hI.script i _ _ _ _ hi
      refine .inr (.inl ⟨i, _, rfl, .inr (.inr ⟨later, hlater, rfl⟩), ?_⟩)
      rw [hi]
      simp [Runner.inside]
    · next required done st rest later hi =>
      obtain ⟨hs, hlater⟩ := hI.script i _ _ _ _ hi
      cases fault with
      | true =>
        exact .inr (.inl ⟨i, _, rfl, outside_left hlater, by simp⟩)
      | false =>
        split
        · next S' hexec =>
          exact .inr (.inr ⟨i, required, done, st, rest, later, S', hi, hexec, by simp, rfl⟩)
        · next hexec =>
          refine .inr (.inl ⟨i, _, rfl, outside_left hlater, ?_⟩)
          refine ⟨fun h => absurd h.1 (by simp), ?_⟩
          rintro ⟨s, -, hin⟩
          rw [hi] at hin
          exact absurd hexec (hI.exec_inside hL hi hin.2.2)
    · next hr₁ hr₂ =>
      refine .inl ⟨rfl, ?_⟩
      rintro ⟨-, s, -, hin⟩
      cases hr : c.runners i with
      | running required done rest later =>
        cases rest with
        | nil => exact hr₁ _ _ _ hr
        | cons st rest => exact hr₂ _ _ _ _ _ hr
      | idle => rw [hr] at hin; exact hin
      | finished => rw [hr] at hin; exact hin
      | failed => rw [hr] at hin; exact hin

/-! ## What every event keeps -/

theorem inv_initial : Inv L (Config.initial : Config ι α) where
  whole := fun _ _ h => absurd h (Finset.notMem_empty _)
  gated := fun _ _ _ _ _ _ h => absurd h (Finset.notMem_empty _)
  script := fun _ _ _ _ _ h => nomatch h
  carried := fun _ _ _ _ _ h => nomatch h
  ahead := fun _ _ _ _ _ h => nomatch h
  alone := fun _ _ _ h => h.elim

/-- A runner that leaves its script, or takes up one, changes nothing for the others. -/
theorem Inv.setRunner (hI : Inv L c) {r : Runner α} (i : ι) (hr : Outside L r) :
    Inv L (c.setRunner i r) := by
  have hnot : ∀ s j, ((c.setRunner i r).runners j).inside s →
      j ≠ i ∧ (c.runners j).inside s := by
    intro s j hin
    by_cases hj : j = i
    · subst hj
      rw [Config.setRunner_same] at hin
      exact absurd hin (hr.not_inside s)
    · rw [Config.setRunner_other c r hj] at hin
      exact ⟨hj, hin⟩
  have hstart : ∀ required done rest later, r = .running required done rest later →
      done = [] ∧ ⟨required, rest⟩ ∈ L ∧ ∀ s ∈ later, s ∈ L := by
    rintro required done rest later rfl
    obtain h | h | ⟨scripts, hL', h⟩ := hr
    · cases h
    · cases h
    · cases scripts with
      | nil => cases h
      | cons s scripts =>
        cases h
        exact ⟨rfl, hL' s List.mem_cons_self, fun x hx => hL' x (List.mem_cons_of_mem _ hx)⟩
  have hcase : ∀ j required done rest later,
      (c.setRunner i r).runners j = .running required done rest later →
      c.runners j = .running required done rest later ∨ r = .running required done rest later := by
    intro j required done rest later hj
    by_cases h : j = i
    · subst h
      rw [Config.setRunner_same] at hj
      exact .inr hj
    · rw [Config.setRunner_other c r h] at hj
      exact .inl hj
  refine ⟨hI.whole, hI.gated, ?_, ?_, ?_, ?_⟩
  · intro j required done rest later hj
    obtain h | h := hcase j required done rest later hj
    · exact hI.script j required done rest later h
    · obtain ⟨rfl, hs, hlater⟩ := hstart required done rest later h
      exact ⟨hs, hlater⟩
  · intro j required done rest later hj
    obtain h | h := hcase j required done rest later hj
    · exact hI.carried j required done rest later h
    · obtain ⟨rfl, -, -⟩ := hstart required done rest later h
      exact fun st hst => nomatch hst
  · intro j required done rest later hj
    obtain h | h := hcase j required done rest later hj
    · exact hI.ahead j required done rest later h
    · obtain ⟨rfl, -, -⟩ := hstart required done rest later h
      rintro ⟨st, hst, -⟩
      cases hst
  · intro s j k hj hk
    exact hI.alone s j k (hnot s j hj).2 (hnot s k hk).2

section Exec

/-! Runner `i` carries out the statement `st` of the script `done ++ st :: rest`. -/

variable {i : ι} {required : Bool} {done rest : List (Statement α)} {later : List (Script α)}

/-- The statement of runner `i`, carried out. -/
def Config.carryOut (c : Config ι α) (i : ι) (required : Bool) (done : List (Statement α))
    (st : Statement α) (rest : List (Statement α)) (later : List (Script α)) (S' : Finset α) :
    Config ι α :=
  { c with objects := S' }.setRunner i (.running required (done ++ [st]) rest later)

theorem carryOut_other {j : ι} (h : j ≠ i) :
    (c.carryOut i required done st rest later S').runners j = c.runners j :=
  Config.setRunner_other _ _ h

theorem carryOut_inside_self {s : Script α} :
    ((c.carryOut i required done st rest later S').runners i).inside s ↔
      s = ⟨required, done ++ st :: rest⟩ ∧ rest ≠ [] ∧
        ((∃ a ∈ done, a.strict = true) ∨ st.strict = true) := by
  unfold Config.carryOut
  rw [Config.setRunner_same]
  simp only [Runner.inside, List.append_assoc, List.singleton_append, List.mem_append,
    List.mem_singleton, or_and_right, exists_or, exists_eq_left]

/-- Nobody else is in the script once a strict statement of it is carried out. -/
theorem Inv.sole (hL : Sound L) (hI : Inv L c)
    (hi : c.runners i = .running required done (st :: rest) later)
    (hexec : st.exec c.objects = some S')
    (hstrict : (∃ a ∈ done, a.strict = true) ∨ st.strict = true) {j : ι}
    (hj : (c.runners j).inside ⟨required, done ++ st :: rest⟩) : j = i := by
  have hs := (hI.script _ _ _ _ _ hi).1
  have hdone : (∃ a ∈ done, a.strict = true) → j = i := fun h =>
    hI.alone ⟨required, done ++ st :: rest⟩ j i hj (by rw [hi]; exact ⟨rfl, by simp, h⟩)
  obtain h | h := hstrict
  · exact hdone h
  · have hkey := Statement.exec_strict hexec h
    cases hr : c.runners j with
    | idle => rw [hr] at hj; exact hj.elim
    | finished => rw [hr] at hj; exact hj.elim
    | failed => rw [hr] at hj; exact hj.elim
    | running required' done' rest' later' =>
      rw [hr] at hj
      obtain ⟨heq, -, a, ha, hastrict⟩ := hj
      have hlist : done ++ st :: rest = done' ++ rest' := congrArg Script.statements heq
      have hst : st ∈ done' ++ rest' := hlist ▸ List.mem_append_right _ List.mem_cons_self
      obtain hst | hst := List.mem_append.1 hst
      · exact absurd (hI.carried j _ _ _ _ hr st hst) hkey
      · have hbefore : Before (done ++ st :: rest) a st := by
          rw [hlist]
          exact before_append.2 (.inr (.inl ⟨ha, hst⟩))
        exact hdone ⟨a, hbefore.of_mid (hL.nodup _ hs), hastrict⟩

theorem Inv.carryOut (hL : Sound L) (hI : Inv L c)
    (hi : c.runners i = .running required done (st :: rest) later)
    (hexec : st.exec c.objects = some S') :
    Inv L (c.carryOut i required done st rest later S') := by
  obtain ⟨hs, hlater⟩ := hI.script _ _ _ _ _ hi
  have hnodup := hL.nodup _ hs
  have hstL : st ∈ allStatements L :=
    mem_allStatements hs (List.mem_append_right _ List.mem_cons_self)
  have hsub := Statement.exec_subset hexec
  have hself : (c.carryOut i required done st rest later S').runners i
      = .running required (done ++ [st]) rest later := Config.setRunner_same _ _ _
  refine ⟨hI.whole.exec hL hstL hexec, ?_, ?_, ?_, ?_, ?_⟩
  · intro s hs' a b hab ha hbS'
    by_cases hb : b = st
    · subst hb
      obtain rfl := hL.disjoint s hs' _ hs b hab.right_mem
        (List.mem_append_right _ List.mem_cons_self)
      exact hsub (hI.carried _ _ _ _ _ hi a (hab.of_mid hnodup))
    · exact hsub (hI.gated s hs' a b hab ha
        (hL.exec_other hstL hexec (mem_allStatements hs' hab.right_mem) hb hbS'))
  · intro j required' done' rest' later' hj
    by_cases h : j = i
    · subst h
      rw [hself] at hj
      cases hj
      rw [List.append_assoc]
      exact ⟨hs, hlater⟩
    · rw [carryOut_other h] at hj
      exact hI.script _ _ _ _ _ hj
  · intro j required' done' rest' later' hj
    by_cases h : j = i
    · subst h
      rw [hself] at hj
      cases hj
      intro st' hst'
      obtain hst' | hst' := List.mem_append.1 hst'
      · exact hsub (hI.carried _ _ _ _ _ hi st' hst')
      · obtain rfl := List.mem_singleton.1 hst'
        exact Statement.exec_key hexec
    · rw [carryOut_other h] at hj
      exact fun st' hst' => hsub (hI.carried _ _ _ _ _ hj st' hst')
  · intro j required' done' rest' later' hj hstrict st' hst' hkey'
    by_cases h : j = i
    · subst h
      rw [hself] at hj
      cases hj
      have hne : st' ≠ st := by
        rintro rfl
        exact (List.nodup_cons.1 (List.nodup_append.1 hnodup).2.1).1 hst'
      have hkey := hL.exec_other hstL hexec
        (mem_allStatements hs (List.mem_append_right _ (List.mem_cons_of_mem _ hst'))) hne hkey'
      obtain ⟨a, ha, hastrict⟩ := hstrict
      obtain ha | ha := List.mem_append.1 ha
      · exact hI.ahead _ _ _ _ _ hi ⟨a, ha, hastrict⟩ st' (List.mem_cons_of_mem _ hst') hkey
      · obtain rfl := List.mem_singleton.1 ha
        have hbefore : Before (done ++ a :: rest) a st' :=
          before_append.2 (.inr (.inr (before_cons.2 (.inl ⟨rfl, hst'⟩))))
        exact Statement.exec_strict hexec hastrict (hI.gated _ hs a st' hbefore hastrict hkey)
    · rw [carryOut_other h] at hj
      obtain ⟨hsj, -⟩ := hI.script _ _ _ _ _ hj
      by_cases hne : st' = st
      · subst hne
        -- the other runner is in the same script, behind the same strict statement
        have heq := hL.disjoint _ hsj _ hs st' (List.mem_append_right _ hst')
          (List.mem_append_right _ List.mem_cons_self)
        obtain ⟨a, ha, hastrict⟩ := hstrict
        have hlist : done' ++ rest' = done ++ st' :: rest := congrArg Script.statements heq
        have hbefore : Before (done ++ st' :: rest) a st' := by
          rw [← hlist]
          exact before_append.2 (.inr (.inl ⟨ha, hst'⟩))
        have hin : (c.runners j).inside ⟨required, done ++ st' :: rest⟩ := by
          rw [hj]
          exact ⟨heq.symm, List.ne_nil_of_mem hst', a, ha, hastrict⟩
        exact h (hI.sole hL hi hexec (.inl ⟨a, hbefore.of_mid hnodup, hastrict⟩) hin)
      · exact hI.ahead _ _ _ _ _ hj hstrict st' hst' (hL.exec_other hstL hexec
          (mem_allStatements hsj (List.mem_append_right _ hst')) hne hkey')
  · have hself_in : ∀ s j, ((c.carryOut i required done st rest later S').runners i).inside s →
        ((c.carryOut i required done st rest later S').runners j).inside s → j = i := by
      intro s j hii hj
      by_contra h
      rw [carryOut_other h] at hj
      obtain ⟨rfl, -, hstrict⟩ := carryOut_inside_self.1 hii
      exact h (hI.sole hL hi hexec hstrict hj)
    intro s j k hj hk
    by_cases hji : j = i
    · subst hji
      exact (hself_in s k hj hk).symm
    · by_cases hki : k = i
      · subst hki
        exact hself_in s j hk hj
      · rw [carryOut_other hji] at hj
        rw [carryOut_other hki] at hk
        exact hI.alone s j k hj hk

/-- A statement carried out leaves no script stuck, and frees none. -/
theorem dead_carryOut_iff (hL : Sound L) (hI : Inv L c)
    (hi : c.runners i = .running required done (st :: rest) later)
    (hexec : st.exec c.objects = some S') :
    Dead L (c.carryOut i required done st rest later S') ↔ Dead L c := by
  obtain ⟨hs, -⟩ := hI.script _ _ _ _ _ hi
  have hnodup := hL.nodup _ hs
  have hst : st ∈ done ++ st :: rest := List.mem_append_right _ List.mem_cons_self
  have hstL : st ∈ allStatements L := mem_allStatements hs hst
  have hsub := Statement.exec_subset hexec
  have hback : ∀ {s' : Script α}, s' ∈ L → ∀ x ∈ s'.statements, x ≠ st → x.key ∈ S' →
      x.key ∈ c.objects := fun hs' x hx hne =>
    hL.exec_other hstL hexec (mem_allStatements hs' hx) hne
  constructor
  · rintro ⟨s', hs', ⟨a, b, hab, ha, haS', hbS'⟩, hnone⟩
    have hnone' : ∀ j, j ≠ i → ¬ (c.runners j).inside s' := fun j hj => by
      have := hnone j
      rwa [carryOut_other hj] at this
    by_cases heq : s' = ⟨required, done ++ st :: rest⟩
    · subst heq
      have hno : rest = [] ∨ ¬ ((∃ x ∈ done, x.strict = true) ∨ st.strict = true) := by
        by_contra h
        rw [not_or, not_not] at h
        exact hnone i (carryOut_inside_self.2 ⟨rfl, h.1, h.2⟩)
      obtain rfl | hno := hno
      · -- the script has come to its end
        refine absurd ?_ hbS'
        obtain hb | hb := List.mem_append.1 hab.right_mem
        · exact hsub (hI.carried _ _ _ _ _ hi b hb)
        · obtain rfl := List.mem_singleton.1 hb
          exact Statement.exec_key hexec
      · rw [not_or] at hno
        have hane : a ≠ st := by
          rintro rfl
          exact hno.2 ha
        refine ⟨_, hs, ⟨a, b, hab, ha, hback hs a hab.left_mem hane haS', fun h => hbS' (hsub h)⟩,
          fun j hj => ?_⟩
        by_cases hji : j = i
        · subst hji
          rw [hi] at hj
          exact hno.1 hj.2.2
        · exact hnone' j hji hj
    · have hne : ∀ x ∈ s'.statements, x ≠ st := by
        rintro x hx rfl
        exact heq (hL.disjoint s' hs' _ hs x hx hst)
      refine ⟨s', hs', ⟨a, b, hab, ha, hback hs' a hab.left_mem (hne a hab.left_mem) haS',
        fun h => hbS' (hsub h)⟩, fun j hj => ?_⟩
      by_cases hji : j = i
      · subst hji
        rw [hi] at hj
        exact heq hj.1
      · exact hnone' j hji hj
  · rintro ⟨s', hs', ⟨a, b, hab, ha, haS, hbS⟩, hnone⟩
    have hnone' : ∀ j, j ≠ i →
        ¬ ((c.carryOut i required done st rest later S').runners j).inside s' := fun j hj => by
      rw [carryOut_other hj]
      exact hnone j
    by_cases heq : s' = ⟨required, done ++ st :: rest⟩
    · subst heq
      have hdone : ¬ ∃ x ∈ done, x.strict = true := fun h =>
        hnone i (by rw [hi]; exact ⟨rfl, by simp, h⟩)
      have hlenient : ¬ st.strict = true := by
        intro hstrict
        have hkey := Statement.exec_strict hexec hstrict
        obtain hmem | hmem := List.mem_append.1 hab.left_mem
        · exact hdone ⟨a, hmem, ha⟩
        · obtain rfl | hmem := List.mem_cons.1 hmem
          · exact hkey haS
          · exact hkey (hI.gated _ hs st a
              (before_append.2 (.inr (.inr (before_cons.2 (.inl ⟨rfl, hmem⟩))))) hstrict haS)
      have hbne : b ≠ st := by
        rintro rfl
        exact hdone ⟨a, hab.of_mid hnodup, ha⟩
      refine ⟨_, hs, ⟨a, b, hab, ha, hsub haS, fun h => hbS (hback hs b hab.right_mem hbne h)⟩,
        fun j hj => ?_⟩
      by_cases hji : j = i
      · subst hji
        exact (carryOut_inside_self.1 hj).2.2.elim hdone hlenient
      · exact hnone' j hji hj
    · have hbne : b ≠ st := by
        rintro rfl
        exact heq (hL.disjoint s' hs' _ hs b hab.right_mem hst)
      refine ⟨s', hs', ⟨a, b, hab, ha, hsub haS, fun h => hbS (hback hs' b hab.right_mem hbne h)⟩,
        fun j hj => ?_⟩
      by_cases hji : j = i
      · subst hji
        exact heq (carryOut_inside_self.1 hj).1
      · exact hnone' j hji hj

end Exec

/-- A runner that leaves its script leaves it stuck exactly when it was inside. -/
theorem dead_setRunner_iff (hI : Inv L c) {r : Runner α} (i : ι) (hr : Outside L r) :
    Dead L (c.setRunner i r) ↔ Dead L c ∨ ∃ s ∈ L, (c.runners i).inside s := by
  have hstay : ∀ s j, j ≠ i → (((c.setRunner i r).runners j).inside s ↔ (c.runners j).inside s) :=
    fun s j hj => by rw [Config.setRunner_other c r hj]
  have hself : ∀ s, ¬ ((c.setRunner i r).runners i).inside s := fun s => by
    rw [Config.setRunner_same]
    exact hr.not_inside s
  constructor
  · rintro ⟨s, hs, hstuck, hnone⟩
    by_cases hin : (c.runners i).inside s
    · exact .inr ⟨s, hs, hin⟩
    · refine .inl ⟨s, hs, hstuck, fun j hj => ?_⟩
      by_cases hji : j = i
      · subst hji
        exact hin hj
      · exact hnone j ((hstay s j hji).2 hj)
  · rintro (⟨s, hs, hstuck, hnone⟩ | ⟨s, hs, hin⟩)
    · refine ⟨s, hs, hstuck, fun j hj => ?_⟩
      by_cases hji : j = i
      · subst hji
        exact hself s hj
      · exact hnone j ((hstay s j hji).1 hj)
    · refine ⟨s, hs, ?_, fun j hj => ?_⟩
      · cases hrun : c.runners i with
        | idle => rw [hrun] at hin; exact hin.elim
        | finished => rw [hrun] at hin; exact hin.elim
        | failed => rw [hrun] at hin; exact hin.elim
        | running required done rest later =>
          rw [hrun] at hin
          obtain ⟨rfl, hne, a, ha, hstrict⟩ := hin
          obtain ⟨b, rest, rfl⟩ := List.exists_cons_of_ne_nil hne
          exact ⟨a, b, before_append.2 (.inr (.inl ⟨ha, List.mem_cons_self⟩)), hstrict,
            hI.carried _ _ _ _ _ hrun a ha,
            hI.ahead _ _ _ _ _ hrun ⟨a, ha, hstrict⟩ b List.mem_cons_self⟩
      · by_cases hji : j = i
        · subst hji
          exact hself s hj
        · exact hji (hI.alone s j i ((hstay s j hji).1 hj) hin)

theorem Inv.step (hL : Sound L) (hI : Inv L c) (e : Event ι) : Inv L (step L c e) := by
  obtain ⟨h, -⟩ | ⟨i, r, h, hr, -⟩ | ⟨i, _, _, _, _, _, _, hi, hexec, -, h⟩ := step_cases hL hI e
  · rwa [h]
  · rw [h]
    exact hI.setRunner i hr
  · rw [h]
    exact hI.carryOut hL hi hexec

/-- **What leaves a script stuck**: nothing but stopping a runner inside it; and nothing frees it. -/
theorem dead_step_iff (hL : Sound L) (hI : Inv L c) (e : Event ι) :
    Dead L (step L c e) ↔ Dead L c ∨ CutsInside L c e := by
  obtain ⟨h, hcut⟩ | ⟨i, r, h, hr, hcut⟩ | ⟨i, _, _, _, _, _, _, hi, hexec, hcut, h⟩ :=
    step_cases hL hI e
  · rw [h]
    exact (or_iff_left hcut).symm
  · rw [h, hcut]
    exact dead_setRunner_iff hI i hr
  · rw [h]
    exact (dead_carryOut_iff hL hI hi hexec).trans (or_iff_left hcut).symm

open Machine

/-! ## A runner left alone is one undisturbed start -/

theorem Config.setRunner_twice (c : Config ι α) (i : ι) (r r' : Runner α) (S S' : Finset α) :
    { ({ c with objects := S }.setRunner i r) with objects := S' }.setRunner i r'
      = { c with objects := S' }.setRunner i r' := by
  simp [setRunner]

theorem run_alone_script {i : ι} {required : Bool} {later : List (Script α)}
    {sts done : List (Statement α)} (hi : c.runners i = .running required done sts later) :
    ∃ n, run (step L) c (List.replicate n (.statement i false))
      = { c with objects := (applyScript sts c.objects).1 }.setRunner i
          (if (applyScript sts c.objects).2 then .next later else .left required later) := by
  induction sts generalizing c done with
  | nil =>
    refine ⟨1, ?_⟩
    simp only [List.replicate_one, run_cons, run_nil, step, hi, applyScript, if_true]
  | cons st rest ih =>
    unfold applyScript
    cases hexec : st.exec c.objects with
    | none =>
      refine ⟨1, ?_⟩
      simp [step, hi, hexec]
    | some S' =>
      have hstep : step L c (.statement i false) = c.carryOut i required done st rest later S' := by
        simp [step, hi, hexec, Config.carryOut]
      obtain ⟨n, hn⟩ := ih (c := c.carryOut i required done st rest later S')
        (Config.setRunner_same _ _ _)
      refine ⟨n + 1, ?_⟩
      rw [List.replicate_succ, run_cons, hstep, hn]
      exact Config.setRunner_twice c i _ _ S' _

/-- **The machine refines `applyScripts`.** -/
theorem run_alone {i : ι} {later : List (Script α)} (hi : c.runners i = .next later) :
    ∃ n, run (step L) c (List.replicate n (.statement i false))
      = { c with objects := (applyScripts later c.objects).1 }.setRunner i
          (if (applyScripts later c.objects).2 then .finished else .failed) := by
  induction later generalizing c with
  | nil =>
    refine ⟨0, ?_⟩
    simp only [List.replicate_zero, run_nil, applyScripts, if_true, Config.setRunner]
    rw [show Runner.finished = c.runners i from hi.symm, Function.update_eq_self]
  | cons s later ih =>
    obtain ⟨n, hn⟩ := run_alone_script (L := L) hi
    unfold applyScripts
    split
    next S' ok hrun =>
    rw [hrun] at hn
    split
    · next hfail =>
      obtain ⟨hreq, hok⟩ : s.required = true ∧ ok = false := by simpa using hfail
      refine ⟨n, hn.trans ?_⟩
      simp [hreq, hok, Runner.left]
    · next hgo =>
      have hnext : (if ok = true then Runner.next later else .left s.required later)
          = .next later := by
        cases ok with
        | true => rfl
        | false =>
          have hreq : s.required = false := by simpa using hgo
          simp [hreq, Runner.left]
      simp only [hnext] at hn
      obtain ⟨m, hm⟩ := ih (c := { c with objects := S' }.setRunner i (.next later))
        (Config.setRunner_same _ _ _)
      refine ⟨n + m, ?_⟩
      rw [List.replicate_add, run_append, hn, hm]
      exact Config.setRunner_twice c i _ _ S' _

/-! ## Runs -/

theorem Inv.run (hL : Sound L) {es : List (Event ι)} (hI : Inv L c) :
    Inv L (run (Scripts.step L) c es) := by
  induction es generalizing c with
  | nil => exact hI
  | cons e es ih => exact ih (hI.step hL e)

theorem dead_run_iff (hL : Sound L) {es : List (Event ι)} (hI : Inv L c) :
    Dead L (run (step L) c es) ↔ Dead L c ∨ Meets (step L) (CutsInside L) c es := by
  induction es generalizing c with
  | nil => simp [Meets]
  | cons e es ih =>
    rw [run_cons, ih (hI.step hL e), dead_step_iff hL hI e, Meets, or_assoc]

/-- **A start after the run completes the store exactly when nobody was stopped inside a script**,
    provided that nobody is inside one now. -/
theorem run_complete_iff (hL : Sound L) {es : List (Event ι)}
    (hquiet : ∀ i, ∀ s ∈ L, ¬ ((run (step L) Config.initial es).runners i).inside s) :
    (Complete L (applyScripts L (run (step L) (Config.initial : Config ι α) es).objects).1 ∧
      (applyScripts L (run (step L) (Config.initial : Config ι α) es).objects).2 = true) ↔
      ¬ Meets (step L) (CutsInside L) (Config.initial : Config ι α) es := by
  have hI : Inv L (run (step L) (Config.initial : Config ι α) es) := inv_initial.run hL
  have hfresh : ¬ Dead L (Config.initial : Config ι α) := by
    rintro ⟨s, -, ⟨a, b, -, -, ha, -⟩, -⟩
    exact absurd ha (Finset.notMem_empty _)
  rw [applyScripts_complete_iff hL hI.whole, ← or_iff_right (b := Meets _ _ _ _) hfresh,
    ← dead_run_iff hL inv_initial]
  constructor
  · rintro hfree ⟨s, hs, hstuck, -⟩
    exact hfree s hs hstuck
  · intro hdead s hs hstuck
    exact hdead ⟨s, hs, hstuck, fun i => hquiet i s hs⟩

end Scripts
