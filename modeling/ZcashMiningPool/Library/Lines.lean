import Mathlib.Data.List.Induction
import Mathlib.Order.WellFounded

/-!
# Lines that arrive in pieces

A text is cut into lines at a separator, and arrives in chunks that know nothing of the lines.  A
reader takes the lines one by one, carries the unfinished one over to the next chunk, and may stop
as soon as it has seen enough.

* `terminated`, `unfinished` — the lines that have ended, and what follows the last separator;
  `terminated_append`, `unfinished_append` — what more text adds to them.
* `lines` — the lines of a whole text, the unfinished one too; `lines_complete` — those of the part
  that ends in the last separator.
* `feed` — lines one by one until the reader is full.
* `readChunks` — the reader over chunks; `readChunks_of_never`, `readChunks_of_stop` — what it
  holds at the end, when it never was full and when it stopped in a chunk.
-/

set_option autoImplicit false

namespace Lines

variable {α σ : Type}

/-! ## Lines of a text -/

section Split

variable [DecidableEq α] {nl : α}

/-- The terminated lines and the unfinished one. -/
def split (nl : α) : List α → List (List α) × List α
  | [] => ([], [])
  | a :: as =>
    if a = nl then ([] :: (split nl as).1, (split nl as).2)
    else match split nl as with
      | ([], tail) => ([], a :: tail)
      | (line :: lines, tail) => ((a :: line) :: lines, tail)

def terminated (nl : α) (text : List α) : List (List α) := (split nl text).1

def unfinished (nl : α) (text : List α) : List α := (split nl text).2

theorem split_tail {tail : List α} (h : nl ∉ tail) : split nl tail = ([], tail) := by
  induction tail with
  | nil => rfl
  | cons a tail ih =>
    rw [List.mem_cons, not_or] at h
    rw [split, if_neg (Ne.symm h.1), ih h.2]

theorem terminated_tail {tail : List α} (h : nl ∉ tail) : terminated nl tail = [] := by
  rw [terminated, split_tail h]

theorem unfinished_tail {tail : List α} (h : nl ∉ tail) : unfinished nl tail = tail := by
  rw [unfinished, split_tail h]

theorem split_line {line : List α} (h : nl ∉ line) (rest : List α) :
    split nl (line ++ nl :: rest) = (line :: (split nl rest).1, (split nl rest).2) := by
  induction line with
  | nil => rw [List.nil_append, split, if_pos rfl]
  | cons a line ih =>
    rw [List.mem_cons, not_or] at h
    rw [List.cons_append, split, if_neg (Ne.symm h.1), ih h.2]

/-- A text is an unfinished line, or a line and the rest. -/
theorem tail_or_line (nl : α) (text : List α) :
    nl ∉ text ∨ ∃ line rest, nl ∉ line ∧ text = line ++ nl :: rest := by
  by_cases h : nl ∈ text
  · obtain ⟨line, rest, rfl, hline⟩ := List.eq_append_cons_of_mem h
    exact .inr ⟨line, rest, hline, rfl⟩
  · exact .inl h

/-- Induction over the lines of a text. -/
@[elab_as_elim]
theorem line_induction (nl : α) {P : List α → Prop} (tail : ∀ t, nl ∉ t → P t)
    (line : ∀ l rest, nl ∉ l → P rest → P (l ++ nl :: rest)) (text : List α) : P text := by
  induction hn : text.length using Nat.strong_induction_on generalizing text with
  | _ n ih =>
    rcases tail_or_line nl text with hnone | ⟨l, rest, hl, rfl⟩
    · exact tail text hnone
    · refine line l rest hl (ih rest.length ?_ rest rfl)
      rw [← hn, List.length_append, List.length_cons]
      omega

theorem not_mem_unfinished (text : List α) : nl ∉ unfinished nl text := by
  induction text using line_induction nl with
  | tail t ht =>
    rw [unfinished_tail ht]
    exact ht
  | line l rest hl ih =>
    rw [unfinished, split_line hl]
    exact ih

/-- **More text ends the unfinished line**, and leaves the lines before it alone. -/
theorem split_append (text more : List α) :
    split nl (text ++ more)
      = (terminated nl text ++ terminated nl (unfinished nl text ++ more),
        unfinished nl (unfinished nl text ++ more)) := by
  induction text using line_induction nl with
  | tail t ht =>
    rw [terminated_tail ht, unfinished_tail ht]
    rfl
  | line l rest hl ih =>
    rw [List.append_assoc, List.cons_append, split_line hl (rest ++ more), ih]
    unfold terminated unfinished
    rw [split_line hl rest]
    rfl

theorem terminated_append (text more : List α) :
    terminated nl (text ++ more)
      = terminated nl text ++ terminated nl (unfinished nl text ++ more) := by
  rw [terminated, split_append]

theorem terminated_prefix_append (text more : List α) :
    terminated nl text <+: terminated nl (text ++ more) := by
  rw [terminated_append]
  exact List.prefix_append _ _

theorem unfinished_append (text more : List α) :
    unfinished nl (text ++ more) = unfinished nl (unfinished nl text ++ more) := by
  rw [unfinished, split_append]

/-- A line without a `cr` at its end. -/
def chomp (cr : α) (line : List α) : List α :=
  if line.getLast? = some cr then line.dropLast else line

/-- All lines; what follows the last separator is one unless it is empty, and keeps its `cr`. -/
def lines (nl cr : α) (text : List α) : List (List α) :=
  (terminated nl text).map (chomp cr)
    ++ if unfinished nl text = [] then [] else [unfinished nl text]

/-- Where `nl` stands last. -/
def rfind (nl : α) : List α → Option ℕ
  | [] => none
  | a :: as => match rfind nl as with
    | some i => some (i + 1)
    | none => if a = nl then some 0 else none

theorem rfind_eq_none {text : List α} (h : rfind nl text = none) : nl ∉ text := by
  induction text with
  | nil => exact List.not_mem_nil
  | cons a as ih =>
    rw [rfind] at h
    cases htail : rfind nl as with
    | some i =>
      rw [htail] at h
      cases h
    | none =>
      have ha : a ≠ nl := by
        rintro rfl
        rw [htail] at h
        exact absurd h (by simp)
      rw [List.mem_cons, not_or]
      exact ⟨Ne.symm ha, ih htail⟩

theorem rfind_eq_some {text : List α} {i : ℕ} (h : rfind nl text = some i) :
    ∃ before tail, text = before ++ nl :: tail ∧ before.length = i ∧ nl ∉ tail := by
  induction text generalizing i with
  | nil => cases h
  | cons a as ih =>
    rw [rfind] at h
    cases htail : rfind nl as with
    | some j =>
      obtain ⟨before, tail, rfl, hlen, hnone⟩ := ih htail
      rw [htail] at h
      refine ⟨a :: before, tail, rfl, ?_, hnone⟩
      rw [List.length_cons, hlen]
      exact Option.some.inj h
    | none =>
      rw [htail] at h
      by_cases ha : a = nl
      · rw [if_pos ha] at h
        exact ⟨[], as, by rw [ha, List.nil_append], Option.some.inj h, rfind_eq_none htail⟩
      · rw [if_neg ha] at h
        cases h

theorem split_complete {text : List α} {i : ℕ} (h : rfind nl text = some i) :
    unfinished nl (text.take (i + 1)) = [] ∧
      terminated nl (text.take (i + 1)) = terminated nl text ∧
      text.drop (i + 1) = unfinished nl text := by
  obtain ⟨before, tail, rfl, rfl, htail⟩ := rfind_eq_some h
  have hsplit : before ++ nl :: tail = (before ++ [nl]) ++ tail := by
    rw [List.append_assoc, List.singleton_append]
  have hlen : before.length + 1 = (before ++ [nl]).length := by rw [List.length_append]; rfl
  have hend : unfinished nl (before ++ [nl]) = [] := by
    rw [unfinished_append, unfinished, split_line (not_mem_unfinished before) []]
    rfl
  have hmore : split nl ((before ++ [nl]) ++ tail) = (terminated nl (before ++ [nl]), tail) := by
    rw [split_append (before ++ [nl]), hend, List.nil_append, terminated_tail htail,
      unfinished_tail htail, List.append_nil]
  rw [hsplit, hlen, List.take_left, List.drop_left]
  refine ⟨hend, ?_, ?_⟩
  · exact (congrArg Prod.fst hmore).symm
  · exact (congrArg Prod.snd hmore).symm

/-- The part up to the last separator has the terminated lines and no other. -/
theorem lines_complete (cr : α) {text : List α} {i : ℕ} (h : rfind nl text = some i) :
    lines nl cr (text.take (i + 1)) = (terminated nl text).map (chomp cr) := by
  obtain ⟨hend, hlines, -⟩ := split_complete h
  rw [lines, hend, hlines, if_pos rfl, List.append_nil]

end Split

/-! ## Lines one by one -/

section Feed

variable (step : σ → List α → σ) (full : σ → Bool)

/-- One line after the other, until the reader is full. -/
def feed : σ → List (List α) → σ × Bool
  | s, [] => (s, false)
  | s, l :: ls => if full (step s l) then (step s l, true) else feed (step s l) ls

variable {step full}

theorem feed_append (s : σ) (ls ls' : List (List α)) :
    feed step full s (ls ++ ls')
      = if (feed step full s ls).2 then feed step full s ls
        else feed step full (feed step full s ls).1 ls' := by
  induction ls generalizing s with
  | nil => rfl
  | cons l ls ih =>
    rw [List.cons_append, feed, feed]
    by_cases hfull : full (step s l) = true
    · rw [if_pos hfull, if_pos hfull, if_pos rfl]
    · rw [if_neg hfull, if_neg hfull, ih]

theorem feed_map (f : List α → List α) (s : σ) (ls : List (List α)) :
    feed step full s (ls.map f) = feed (fun s l => step s (f l)) full s ls := by
  induction ls generalizing s with
  | nil => rfl
  | cons l ls ih => rw [List.map_cons, feed, feed, ih]

theorem feed_of_never {s : σ} {ls : List (List α)} (h : (feed step full s ls).2 = false) :
    feed step full s ls = (ls.foldl step s, false) := by
  induction ls generalizing s with
  | nil => rfl
  | cons l ls ih =>
    rw [feed] at h ⊢
    split at h
    · cases h
    · rename_i hfull
      rw [if_neg hfull]
      exact ih h

/-- A reader that stays full once it is stops if and only if it is full after all lines. -/
theorem feed_snd (hstay : ∀ s l, full s = true → full (step s l) = true) {s : σ}
    (hs : full s = false) (ls : List (List α)) :
    (feed step full s ls).2 = full (ls.foldl step s) := by
  have hlater : ∀ (ls : List (List α)) {s : σ}, full s = true → full (ls.foldl step s) = true := by
    intro ls
    induction ls with
    | nil => exact fun h => h
    | cons l ls ih => exact fun h => ih (hstay _ l h)
  induction ls generalizing s with
  | nil => exact hs.symm
  | cons l ls ih =>
    rw [feed, List.foldl_cons]
    by_cases hfull : full (step s l) = true
    · rw [if_pos hfull, hlater ls hfull]
    · rw [if_neg hfull]
      exact ih (Bool.not_eq_true _ ▸ hfull)

/-- It stops after the line that fills it. -/
theorem feed_of_first (hstay : ∀ s l, full s = true → full (step s l) = true) {s : σ}
    (hs : full s = false) {pre : List (List α)} {l : List α} (hpre : full (pre.foldl step s) = false)
    (hl : full (step (pre.foldl step s) l) = true) (post : List (List α)) :
    feed step full s (pre ++ l :: post) = (step (pre.foldl step s) l, true) := by
  have hnever : (feed step full s pre).2 = false := (feed_snd hstay hs pre).trans hpre
  rw [feed_append, feed_of_never hnever, if_neg Bool.false_ne_true, feed, if_pos hl]

/-- What fills it is some line, with the lines before it not enough. -/
theorem exists_first {s : σ} {ls : List (List α)} (h : (feed step full s ls).2 = true) :
    ∃ pre l post, ls = pre ++ l :: post ∧ (feed step full s pre).2 = false ∧
      full (step (pre.foldl step s) l) = true := by
  induction ls generalizing s with
  | nil => cases h
  | cons l ls ih =>
    by_cases hfull : full (step s l) = true
    · exact ⟨[], l, ls, rfl, rfl, hfull⟩
    · rw [feed, if_neg hfull] at h
      obtain ⟨pre, l', post, rfl, hno, hyes⟩ := ih h
      refine ⟨l :: pre, l', post, rfl, ?_, hyes⟩
      rw [feed, if_neg hfull]
      exact hno

end Feed

/-! ## The reader -/

section Reader

variable [DecidableEq α] (nl : α) (step : σ → List α → σ) (full : σ → Bool)

/-- The reader's state and its buffer.  When it is full it leaves the buffer as it is, with the
    lines it has read. -/
def readChunks : σ → List α → List (List α) → σ × List α
  | s, buffer, [] => (s, buffer)
  | s, buffer, chunk :: chunks =>
    let out := feed step full s (terminated nl (buffer ++ chunk))
    if out.2 then (out.1, buffer ++ chunk)
    else readChunks out.1 (unfinished nl (buffer ++ chunk)) chunks

variable {nl step full}

/-- **A reader that is never full** reads all lines, however they are cut. -/
theorem readChunks_of_never {s : σ} {buffer : List α} {chunks : List (List α)} (hbuf : nl ∉ buffer)
    (h : (feed step full s (terminated nl (buffer ++ chunks.flatten))).2 = false) :
    readChunks nl step full s buffer chunks
      = ((terminated nl (buffer ++ chunks.flatten)).foldl step s,
        unfinished nl (buffer ++ chunks.flatten)) := by
  induction chunks generalizing s buffer with
  | nil =>
    rw [List.flatten_nil, List.append_nil, terminated_tail hbuf, unfinished_tail hbuf]
    rfl
  | cons chunk chunks ih =>
    rw [List.flatten_cons, ← List.append_assoc] at h ⊢
    rw [terminated_append, feed_append] at h
    rw [terminated_append (buffer ++ chunk), unfinished_append (buffer ++ chunk),
      List.foldl_append, readChunks]
    split at h
    · rename_i hstop
      rw [hstop] at h
      cases h
    · rename_i hgo
      rw [Bool.not_eq_true] at hgo
      rw [feed_of_never hgo] at h ⊢
      exact ih (not_mem_unfinished _) h

/-- **A reader that stops** does so in the chunk with the line that fills it, with the line that
    was carried over and this chunk in its buffer. -/
theorem readChunks_of_stop {s : σ} {buffer : List α} {before : List (List α)} {chunk : List α}
    (hbuf : nl ∉ buffer) (after : List (List α))
    (h : (feed step full s (terminated nl (buffer ++ before.flatten))).2 = false)
    (hstop : (feed step full s (terminated nl (buffer ++ before.flatten ++ chunk))).2 = true) :
    readChunks nl step full s buffer (before ++ chunk :: after)
      = ((feed step full s (terminated nl (buffer ++ before.flatten ++ chunk))).1,
        unfinished nl (buffer ++ before.flatten) ++ chunk) := by
  induction before generalizing s buffer with
  | nil =>
    rw [List.flatten_nil, List.append_nil] at *
    rw [List.nil_append, readChunks, if_pos hstop, unfinished_tail hbuf]
  | cons c before ih =>
    rw [List.flatten_cons, ← List.append_assoc] at *
    rw [terminated_append, feed_append] at h
    split at h
    · rename_i hfull
      rw [hfull] at h
      cases h
    · rename_i hgo
      rw [Bool.not_eq_true] at hgo
      have hmore : ∀ more, feed step full s (terminated nl (buffer ++ c ++ more))
          = feed step full (feed step full s (terminated nl (buffer ++ c))).1
            (terminated nl (unfinished nl (buffer ++ c) ++ more)) := by
        intro more
        rw [terminated_append, feed_append, if_neg (by rw [hgo]; exact Bool.false_ne_true)]
      rw [List.append_assoc (buffer ++ c)] at hstop ⊢
      rw [hmore] at hstop ⊢
      rw [List.cons_append, readChunks, if_neg (by rw [hgo]; exact Bool.false_ne_true),
        unfinished_append (buffer ++ c)]
      rw [← List.append_assoc] at hstop ⊢
      exact ih (not_mem_unfinished _) h hstop

/-- If all the text fills the reader, it stops in some chunk. -/
theorem exists_stop {s : σ} {chunks : List (List α)}
    (h : (feed step full s (terminated nl chunks.flatten)).2 = true) :
    ∃ before chunk after, chunks = before ++ chunk :: after ∧
      (feed step full s (terminated nl before.flatten)).2 = false ∧
      (feed step full s (terminated nl (before.flatten ++ chunk))).2 = true := by
  induction chunks using List.reverseRecOn with
  | nil => cases h
  | append_singleton chunks chunk ih =>
    cases hbefore : (feed step full s (terminated nl chunks.flatten)).2 with
    | true =>
      obtain ⟨before, c, after, rfl, hno, hyes⟩ := ih hbefore
      exact ⟨before, c, after ++ [chunk], by simp, hno, hyes⟩
    | false =>
      rw [List.flatten_append, List.flatten_singleton] at h
      exact ⟨chunks, chunk, [], rfl, hbefore, h⟩

end Reader

end Lines
