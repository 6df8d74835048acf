import Mathlib.Data.List.Basic
import ZcashMiningPool.Library.Lines
import ZcashMiningPool.PoolCore.Target

/-!
# The codec

`stratum/src/codec.rs` under a framing layer that reads, and after every read decodes until there
is no message.  `parse` is the JSON parser of a line.

* `decode` — one call on the buffer.
* `Framed`, `receive` — buffer, messages delivered and the error that ends the connection.
* `splitLines`, `expected` — the stream line by line: the messages of its non-empty terminated
  lines, up to one that does not parse, or to an unfinished line that is too long.
* `Regular` — no message has a line that is too long, and after an empty line there is nothing but
  empty lines.
* `framingIndependent_iff` — what is delivered does not depend on where the stream was cut, and is
  what was expected, exactly for a regular stream.
* `message_after_empty_line` — a message that stays in the buffer.
-/

set_option autoImplicit false

namespace ZcashMiningPool

namespace StratumCodec

inductive CodecError where
  | json (error : String)
  | lineTooLong (limit : ℕ)
  deriving DecidableEq, Repr

def maxLineLength : ℕ := 64 * 1024

def newline : UInt8 := 10

section Codec

variable {Msg : Type} (parse : Bytes → Except String Msg)

/-! ## Decoding -/

/-- The buffer after one call, and its answer. -/
def decode (src : Bytes) : Bytes × Except CodecError (Option Msg) :=
  match src.findIdx? (fun b => b == newline) with
  | some pos =>
    let line := src.take pos
    let src := src.drop (pos + 1)
    if line = [] then (src, .ok none)
    else match parse line with
      | .error e => (src, .error (.json e))
      | .ok msg => (src, .ok (some msg))
  | none =>
    if maxLineLength < src.length then (src, .error (.lineTooLong maxLineLength))
    else (src, .ok none)

/-- An empty line is answered like an unfinished one. -/
theorem decode_line {line : Bytes} (h : newline ∉ line) (rest : Bytes) :
    decode parse (line ++ newline :: rest) =
      if line = [] then (rest, .ok none)
      else match parse line with
        | .error e => (rest, .error (.json e))
        | .ok msg => (rest, .ok (some msg)) := by
  have hpos : (line ++ newline :: rest).findIdx? (fun b => b == newline) = some line.length := by
    rw [List.findIdx?_append, List.findIdx?_eq_none_iff.2 fun b hb => by
      rw [beq_eq_false_iff_ne]
      exact fun hb' => h (hb' ▸ hb)]
    simp [List.findIdx?_cons]
  have htake : (line ++ newline :: rest).take line.length = line := List.take_left
  have hdrop : (line ++ newline :: rest).drop (line.length + 1) = rest := by
    rw [← List.drop_drop, List.drop_left, List.drop_one, List.tail_cons]
  unfold decode
  simp only [hpos, htake, hdrop]

theorem decode_tail {tail : Bytes} (h : newline ∉ tail) :
    decode parse tail =
      if maxLineLength < tail.length then (tail, .error (.lineTooLong maxLineLength))
      else (tail, .ok none) := by
  have hpos : tail.findIdx? (fun b => b == newline) = none :=
    List.findIdx?_eq_none_iff.2 fun b hb => by
      rw [beq_eq_false_iff_ne]
      exact fun hb' => h (hb' ▸ hb)
  unfold decode
  simp only [hpos]

/-- A call that finds a line shortens the buffer. -/
theorem length_decode {src rest : Bytes} {msg : Msg}
    (h : decode parse src = (rest, .ok (some msg))) : rest.length < src.length := by
  rcases Lines.tail_or_line newline src with hnone | ⟨line, rest', hline, rfl⟩
  · rw [decode_tail parse hnone] at h
    split at h <;> cases h
  · rw [decode_line parse hline] at h
    split at h
    · cases h
    · split at h
      · cases h
      · cases h
        simp only [List.length_append, List.length_cons]
        omega

/-! ## The framing layer -/

structure Framed (Msg : Type) where
  buffer : Bytes
  delivered : List Msg
  error : Option CodecError

/-- Decode until there is no message, or an error. -/
def drain (s : Framed Msg) : Framed Msg :=
  match _h : decode parse s.buffer with
  | (rest, .ok (some msg)) => drain { s with buffer := rest, delivered := s.delivered ++ [msg] }
  | (rest, .ok none) => { s with buffer := rest }
  | (rest, .error e) => { s with buffer := rest, error := some e }
termination_by s.buffer.length
decreasing_by exact length_decode parse _h

/-- One read; after an error the connection is gone. -/
def read (s : Framed Msg) (chunk : Bytes) : Framed Msg :=
  if s.error.isSome then s else drain parse { s with buffer := s.buffer ++ chunk }

def receive (chunks : List Bytes) : Framed Msg := chunks.foldl (read parse) ⟨[], [], none⟩

/-- What was delivered, and whether an error came after it. -/
def Framed.outcome (s : Framed Msg) : List Msg × Bool := (s.delivered, s.error.isSome)

/-! ## The stream line by line -/

/-- The terminated lines, and the unfinished one. -/
def splitLines : Bytes → List Bytes × Bytes
  | [] => ([], [])
  | b :: bs =>
    if b = newline then ([] :: (splitLines bs).1, (splitLines bs).2)
    else match splitLines bs with
      | ([], tail) => ([], b :: tail)
      | (line :: lines, tail) => ((b :: line) :: lines, tail)

/-- The messages of the non-empty lines, and whether there is an error after them: a line that does
    not parse, or an unfinished line that is too long. -/
def expectedOf (tail : Bytes) : List Bytes → List Msg × Bool
  | [] => ([], decide (maxLineLength < tail.length))
  | line :: lines =>
    if line = [] then expectedOf tail lines
    else match parse line with
      | .error _ => ([], true)
      | .ok msg => (msg :: (expectedOf tail lines).1, (expectedOf tail lines).2)

def expected (stream : Bytes) : List Msg × Bool :=
  expectedOf parse (splitLines stream).2 (splitLines stream).1

/-- Nothing but empty lines, and an unfinished one that is not too long. -/
def Quiet (tail : Bytes) (lines : List Bytes) : Prop :=
  (∀ line ∈ lines, line = []) ∧ tail.length ≤ maxLineLength

/-- Up to a line that does not parse, no line is too long, and after an empty one it is quiet. -/
def RegularLines (tail : Bytes) : List Bytes → Prop
  | [] => True
  | line :: lines =>
    if line = [] then Quiet tail lines
    else match parse line with
      | .error _ => True
      | .ok _ => line.length ≤ maxLineLength ∧ RegularLines tail lines

def Regular (stream : Bytes) : Prop :=
  RegularLines parse (splitLines stream).2 (splitLines stream).1

/-- The reads `chunks` deliver `stream`; a read is of one byte at least. -/
def Cuts (chunks : List Bytes) (stream : Bytes) : Prop :=
  chunks.flatten = stream ∧ ∀ chunk ∈ chunks, chunk ≠ []

/-- However the stream is cut, the outcome is the same, and it is the expected one. -/
structure FramingIndependent (stream : Bytes) : Prop where
  same : ∀ chunks chunks', Cuts chunks stream → Cuts chunks' stream →
    (receive parse chunks).outcome = (receive parse chunks').outcome
  lines : ∀ chunks, Cuts chunks stream → (receive parse chunks).outcome = expected parse stream

theorem splitLines_eq (stream : Bytes) : splitLines stream = Lines.split newline stream := by
  induction stream with
  | nil => rfl
  | cons b stream ih =>
    rw [splitLines, Lines.split, ih]
    rcases Lines.split newline stream with ⟨_ | ⟨line, lines⟩, tail⟩ <;> rfl

theorem splitLines_tail {tail : Bytes} (h : newline ∉ tail) : splitLines tail = ([], tail) := by
  rw [splitLines_eq, Lines.split_tail h]

theorem splitLines_line {line : Bytes} (h : newline ∉ line) (rest : Bytes) :
    splitLines (line ++ newline :: rest)
      = (line :: (splitLines rest).1, (splitLines rest).2) := by
  rw [splitLines_eq, splitLines_eq, Lines.split_line h]

variable {parse}

theorem expected_tail {tail : Bytes} (h : newline ∉ tail) :
    expected parse tail = ([], decide (maxLineLength < tail.length)) := by
  unfold expected
  rw [splitLines_tail h]
  rfl

theorem expected_empty (rest : Bytes) : expected parse (newline :: rest) = expected parse rest := by
  have hsplit := splitLines_line List.not_mem_nil rest
  rw [List.nil_append] at hsplit
  unfold expected
  rw [hsplit]
  exact if_pos rfl

theorem expected_error {line : Bytes} (h : newline ∉ line) (hne : line ≠ []) {e : String}
    (hparse : parse line = .error e) (rest : Bytes) :
    expected parse (line ++ newline :: rest) = ([], true) := by
  unfold expected
  rw [splitLines_line h]
  simp only [expectedOf, if_neg hne, hparse]

theorem expected_message {line : Bytes} (h : newline ∉ line) (hne : line ≠ []) {msg : Msg}
    (hparse : parse line = .ok msg) (rest : Bytes) :
    expected parse (line ++ newline :: rest)
      = (msg :: (expected parse rest).1, (expected parse rest).2) := by
  unfold expected
  rw [splitLines_line h]
  simp only [expectedOf, if_neg hne, hparse]

theorem regular_message {line : Bytes} (h : newline ∉ line) (hne : line ≠ []) {msg : Msg}
    (hparse : parse line = .ok msg) (rest : Bytes) :
    Regular parse (line ++ newline :: rest) ↔
      line.length ≤ maxLineLength ∧ Regular parse rest := by
  unfold Regular
  rw [splitLines_line h]
  simp only [RegularLines, if_neg hne, hparse]

theorem regular_empty (rest : Bytes) :
    Regular parse (newline :: rest) ↔ Quiet (splitLines rest).2 (splitLines rest).1 := by
  have hsplit := splitLines_line List.not_mem_nil rest
  rw [List.nil_append] at hsplit
  unfold Regular
  rw [hsplit]
  simp only [RegularLines, if_true]

/-! ## Quiet streams -/

/-- A quiet stream is the one of which nothing is expected. -/
theorem quiet_iff (stream : Bytes) :
    Quiet (splitLines stream).2 (splitLines stream).1 ↔ expected parse stream = ([], false) := by
  induction stream using Lines.line_induction newline with
  | tail t ht =>
    rw [splitLines_tail ht, expected_tail ht]
    simp [Quiet]
  | line l rest hl ih =>
    by_cases hempty : l = []
    · subst hempty
      rw [List.nil_append, expected_empty, ← ih]
      have hsplit := splitLines_line List.not_mem_nil rest
      rw [List.nil_append] at hsplit
      rw [hsplit]
      unfold Quiet
      rw [List.forall_mem_cons]
      simp
    · have hloud : ¬ Quiet (splitLines (l ++ newline :: rest)).2
          (splitLines (l ++ newline :: rest)).1 := by
        rw [splitLines_line hl]
        intro h
        exact hempty (h.1 l List.mem_cons_self)
      refine iff_of_false hloud fun h => ?_
      cases hparse : parse l with
      | error e =>
        rw [expected_error hl hempty hparse] at h
        cases h
      | ok msg =>
        rw [expected_message hl hempty hparse] at h
        cases h

theorem regular_of_quiet {stream : Bytes}
    (h : Quiet (splitLines stream).2 (splitLines stream).1) : Regular parse stream := by
  unfold Regular
  obtain ⟨hlines, htail⟩ := h
  cases hsplit : (splitLines stream).1 with
  | nil => trivial
  | cons line lines =>
    rw [hsplit, List.forall_mem_cons] at hlines
    rw [RegularLines, if_pos hlines.1]
    exact ⟨hlines.2, htail⟩

/-- What has been read of a quiet stream is quiet. -/
theorem quiet_of_append (start rest : Bytes)
    (h : Quiet (splitLines (start ++ rest)).2 (splitLines (start ++ rest)).1) :
    Quiet (splitLines start).2 (splitLines start).1 := by
  induction start using Lines.line_induction newline with
  | tail t ht =>
    rw [splitLines_tail ht]
    refine ⟨fun line hline => (List.not_mem_nil hline).elim, ?_⟩
    rcases Lines.tail_or_line newline rest with hnone | ⟨l, rest', hl, rfl⟩
    · rw [splitLines_tail (by simp [ht, hnone])] at h
      have hlen := h.2
      rw [List.length_append] at hlen
      exact (Nat.le_add_right _ _).trans hlen
    · -- a line would end here, and it is not empty
      rw [← List.append_assoc, splitLines_line (by simp [ht, hl])] at h
      have hempty := h.1 (t ++ l) List.mem_cons_self
      rw [(List.append_eq_nil_iff.1 hempty).1]
      exact Nat.zero_le _
  | line l start hl ih =>
    rw [List.append_assoc, List.cons_append, splitLines_line hl] at h
    rw [splitLines_line hl]
    obtain ⟨hline, hlines⟩ := List.forall_mem_cons.1 h.1
    obtain ⟨hlines', htail⟩ := ih ⟨hlines, h.2⟩
    exact ⟨List.forall_mem_cons.2 ⟨hline, hlines'⟩, htail⟩

/-! ## Draining -/

section Drain

variable {buffer rest : Bytes} {delivered : List Msg} {error : Option CodecError}

theorem drain_error {e : CodecError} (h : decode parse buffer = (rest, .error e)) :
    drain parse ⟨buffer, delivered, error⟩ = ⟨rest, delivered, some e⟩ := by
  rw [drain]
  split <;> rename_i heq <;> rw [h] at heq <;> cases heq
  rfl

theorem drain_none (h : decode parse buffer = (rest, .ok none)) :
    drain parse ⟨buffer, delivered, error⟩ = ⟨rest, delivered, error⟩ := by
  rw [drain]
  split <;> rename_i heq <;> rw [h] at heq <;> cases heq
  rfl

theorem drain_message {msg : Msg} (h : decode parse buffer = (rest, .ok (some msg))) :
    drain parse ⟨buffer, delivered, error⟩ = drain parse ⟨rest, delivered ++ [msg], error⟩ := by
  rw [drain]
  split <;> rename_i heq <;> rw [h] at heq <;> cases heq
  rfl

end Drain

/-- What was delivered before stays in front. -/
theorem drain_delivered (before : List Msg) (buffer : Bytes) (delivered : List Msg)
    (error : Option CodecError) :
    drain parse ⟨buffer, before ++ delivered, error⟩
      = { drain parse ⟨buffer, delivered, error⟩ with
          delivered := before ++ (drain parse ⟨buffer, delivered, error⟩).delivered } := by
  induction buffer using Lines.line_induction newline generalizing delivered with
  | tail t ht =>
    have hdecode := decode_tail parse ht
    split at hdecode
    · rw [drain_error hdecode, drain_error hdecode]
    · rw [drain_none hdecode, drain_none hdecode]
  | line l rest hl ih =>
    have hdecode := decode_line parse hl rest
    split at hdecode
    · rw [drain_none hdecode, drain_none hdecode]
    · split at hdecode
      · rw [drain_error hdecode, drain_error hdecode]
      · rw [drain_message hdecode, drain_message hdecode, List.append_assoc]
        exact ih _

/-- **Draining a regular stream**, `rest` of which is still to come: either the connection ends as
    expected, or what was delivered was expected first, and nothing in the buffer is. -/
theorem drain_regular {rest : Bytes} (buffer : Bytes) (delivered : List Msg)
    (h : Regular parse (buffer ++ rest)) :
    ∃ msgs s, drain parse ⟨buffer, delivered, none⟩ = s ∧ s.delivered = delivered ++ msgs ∧
      (s.error.isSome = true ∧ expected parse (buffer ++ rest) = (msgs, true) ∨
        s.error = none ∧ Regular parse (s.buffer ++ rest) ∧
          expected parse s.buffer = ([], false) ∧
          expected parse (buffer ++ rest) = (msgs ++ (expected parse (s.buffer ++ rest)).1,
            (expected parse (s.buffer ++ rest)).2)) := by
  induction buffer using Lines.line_induction newline generalizing delivered with
  | tail t ht =>
    by_cases hlong : maxLineLength < t.length
    · have hdecode := decode_tail parse ht
      rw [if_pos hlong] at hdecode
      refine ⟨[], _, drain_error hdecode, (List.append_nil _).symm, .inl ⟨rfl, ?_⟩⟩
      rcases Lines.tail_or_line newline rest with hnone | ⟨l, rest', hl, rfl⟩
      · rw [expected_tail (by simp [ht, hnone]), List.length_append]
        simp only [decide_eq_true_eq, Prod.mk.injEq, true_and]
        omega
      · have hline : newline ∉ t ++ l := by simp [ht, hl]
        have hne : t ++ l ≠ [] := by
          intro hnil
          rw [(List.append_eq_nil_iff.1 hnil).1] at hlong
          exact Nat.not_lt_zero _ hlong
        rw [← List.append_assoc] at h ⊢
        cases hparse : parse (t ++ l) with
        | error e => exact expected_error hline hne hparse _
        | ok msg =>
          have hlen := ((regular_message hline hne hparse rest').1 h).1
          rw [List.length_append] at hlen
          omega
    · have hdecode := decode_tail parse ht
      rw [if_neg hlong] at hdecode
      refine ⟨[], _, drain_none hdecode, (List.append_nil _).symm, .inr ⟨rfl, h, ?_, rfl⟩⟩
      rw [expected_tail ht, decide_eq_false hlong]
  | line l buffer hl ih =>
    rw [List.append_assoc, List.cons_append] at h ⊢
    have hdecode := decode_line parse hl buffer
    by_cases hempty : l = []
    · -- the call stops here, but the rest is quiet
      subst hempty
      rw [if_pos rfl] at hdecode
      rw [List.nil_append] at h ⊢
      have hquiet := (regular_empty _).1 h
      refine ⟨[], _, drain_none hdecode, (List.append_nil _).symm,
        .inr ⟨rfl, regular_of_quiet hquiet, (quiet_iff _).1 (quiet_of_append buffer rest hquiet), ?_⟩⟩
      exact expected_empty (buffer ++ rest)
    · rw [if_neg hempty] at hdecode
      cases hparse : parse l with
      | error e =>
        rw [hparse] at hdecode
        exact ⟨[], _, drain_error hdecode, (List.append_nil _).symm,
          .inl ⟨rfl, expected_error hl hempty hparse _⟩⟩
      | ok msg =>
        rw [hparse] at hdecode
        obtain ⟨msgs, s, hs, hdelivered, hcases⟩ :=
          ih (delivered ++ [msg]) ((regular_message hl hempty hparse _).1 h).2
        refine ⟨msg :: msgs, s, (drain_message hdecode).trans hs, by rw [hdelivered]; simp, ?_⟩
        rw [expected_message hl hempty hparse]
        rcases hcases with ⟨herror, hexpected⟩ | ⟨hnone, hregular, hquiet, hexpected⟩
        · exact .inl ⟨herror, by rw [hexpected]⟩
        · exact .inr ⟨hnone, hregular, hquiet, by rw [hexpected]; rfl⟩

/-! ## Reading -/

theorem foldl_read_error (chunks : List Bytes) {s : Framed Msg} (h : s.error.isSome = true) :
    chunks.foldl (read parse) s = s := by
  induction chunks with
  | nil => rfl
  | cons chunk chunks ih =>
    have hstop : read parse s chunk = s := if_pos h
    rw [List.foldl_cons, hstop, ih]

/-- A regular stream is delivered as expected, whatever is read at a time. -/
theorem receive_regular (chunks : List Bytes) (buffer : Bytes) (delivered : List Msg)
    (hquiet : expected parse buffer = ([], false))
    (h : Regular parse (buffer ++ chunks.flatten)) :
    (chunks.foldl (read parse) ⟨buffer, delivered, none⟩).outcome
      = (delivered ++ (expected parse (buffer ++ chunks.flatten)).1,
          (expected parse (buffer ++ chunks.flatten)).2) := by
  induction chunks generalizing buffer delivered with
  | nil =>
    rw [List.flatten_nil, List.append_nil, hquiet]
    simp [Framed.outcome]
  | cons chunk chunks ih =>
    rw [List.flatten_cons, ← List.append_assoc] at h ⊢
    obtain ⟨msgs, s, hs, hdelivered, hcases⟩ := drain_regular (buffer ++ chunk) delivered h
    have hread : read parse ⟨buffer, delivered, none⟩ chunk = s := hs
    rw [List.foldl_cons, hread]
    rcases hcases with ⟨herror, hexpected⟩ | ⟨hnone, hregular, hquiet', hexpected⟩
    · rw [foldl_read_error chunks herror, hexpected]
      unfold Framed.outcome
      rw [hdelivered, herror]
    · obtain ⟨buffer', delivered', error'⟩ := s
      simp only at hdelivered hnone hregular hquiet' hexpected
      subst hdelivered
      subst hnone
      rw [ih buffer' _ hquiet' hregular, hexpected]
      simp

theorem foldl_read_delivered (before : List Msg) (chunks : List Bytes) (s : Framed Msg) :
    chunks.foldl (read parse) { s with delivered := before ++ s.delivered }
      = { chunks.foldl (read parse) s with
          delivered := before ++ (chunks.foldl (read parse) s).delivered } := by
  induction chunks generalizing s with
  | nil => rfl
  | cons chunk chunks ih =>
    have hread : read parse { s with delivered := before ++ s.delivered } chunk
        = { read parse s chunk with delivered := before ++ (read parse s chunk).delivered } := by
      unfold read
      by_cases herror : s.error.isSome = true
      · rw [if_pos herror, if_pos herror]
      · rw [if_neg herror, if_neg herror]
        exact drain_delivered before _ _ _
    rw [List.foldl_cons, List.foldl_cons, hread, ih]

/-! ## Irregular streams -/

/-- **Some cut of an irregular stream shows**: all of it at once, where a message follows an empty
    line, and right before its end in a line that is too long. -/
theorem exists_cut_of_irregular (stream : Bytes) (h : ¬ Regular parse stream) :
    ∃ chunks, Cuts chunks stream ∧ (receive parse chunks).outcome ≠ expected parse stream := by
  induction stream using Lines.line_induction newline with
  | tail t ht =>
    have hregular : Regular parse t := by
      unfold Regular
      rw [splitLines_tail ht]
      trivial
    exact absurd hregular h
  | line l rest hl ih =>
    by_cases hempty : l = []
    · subst hempty
      rw [List.nil_append] at h ⊢
      rw [regular_empty, quiet_iff] at h
      have hdecode := decode_line parse List.not_mem_nil rest
      rw [if_pos rfl] at hdecode
      have hread : receive parse [newline :: rest] = ⟨rest, [], none⟩ := drain_none hdecode
      refine ⟨[newline :: rest], ⟨by simp, by simp⟩, ?_⟩
      rw [hread, expected_empty]
      exact fun heq => h heq.symm
    · cases hparse : parse l with
      | error e =>
        have hregular : Regular parse (l ++ newline :: rest) := by
          unfold Regular
          rw [splitLines_line hl]
          simp only [RegularLines, if_neg hempty, hparse]
        exact absurd hregular h
      | ok msg =>
        rw [regular_message hl hempty hparse, not_and_or, not_le] at h
        rw [expected_message hl hempty hparse]
        by_cases hlong : maxLineLength < l.length
        · have hdecode := decode_tail parse hl
          rw [if_pos hlong] at hdecode
          have hread : receive parse [l, newline :: rest]
              = ⟨l, [], some (.lineTooLong maxLineLength)⟩ := by
            have hfirst : read parse ⟨[], [], none⟩ l
                = ⟨l, [], some (.lineTooLong maxLineLength)⟩ := drain_error hdecode
            unfold receive
            rw [List.foldl_cons, hfirst, foldl_read_error _ rfl]
          refine ⟨[l, newline :: rest], ⟨by simp, by simp [hempty]⟩, ?_⟩
          rw [hread]
          simp [Framed.outcome]
        · obtain ⟨chunks, ⟨hflatten, hne⟩, hwrong⟩ := ih (h.resolve_left hlong)
          have hdecode := decode_line parse hl []
          rw [if_neg hempty, hparse] at hdecode
          have hrest := decode_tail parse (List.not_mem_nil (a := newline))
          rw [if_neg (by simp [maxLineLength])] at hrest
          have hread : read parse ⟨[], [], none⟩ (l ++ [newline]) = ⟨[], [msg] ++ [], none⟩ :=
            (drain_message hdecode).trans (drain_none hrest)
          have hreceive : receive parse ((l ++ [newline]) :: chunks)
              = { receive parse chunks with
                  delivered := [msg] ++ (receive parse chunks).delivered } := by
            unfold receive
            rw [List.foldl_cons, hread]
            exact foldl_read_delivered [msg] chunks ⟨[], [], none⟩
          refine ⟨(l ++ [newline]) :: chunks, ⟨by simp [hflatten], ?_⟩, fun heq => hwrong ?_⟩
          · rw [List.forall_mem_cons]
            exact ⟨by simp, hne⟩
          · rw [hreceive] at heq
            simp only [Framed.outcome, List.singleton_append, Prod.mk.injEq, List.cons.injEq,
              true_and] at heq
            exact Prod.ext heq.1 heq.2

/-- **When framing is independent of packet boundaries**: for the streams in which no line of a
    message is too long, and after an empty line there is nothing but empty lines and an unfinished
    one that is not too long. -/
theorem framingIndependent_iff (parse : Bytes → Except String Msg) (stream : Bytes) :
    FramingIndependent parse stream ↔ Regular parse stream := by
  constructor
  · intro h
    by_contra hirregular
    obtain ⟨chunks, hcuts, hwrong⟩ := exists_cut_of_irregular stream hirregular
    exact hwrong (h.lines chunks hcuts)
  · intro h
    have hlines : ∀ chunks, Cuts chunks stream →
        (receive parse chunks).outcome = expected parse stream := by
      intro chunks hcuts
      have hreceive := receive_regular chunks [] [] (expected_tail List.not_mem_nil)
        (by rwa [List.nil_append, hcuts.1])
      rw [List.nil_append, List.nil_append, hcuts.1] at hreceive
      exact hreceive
    exact ⟨fun chunks chunks' hcuts hcuts' =>
      (hlines chunks hcuts).trans (hlines chunks' hcuts').symm, hlines⟩

end Codec

/-- **Counterexample.**  A message after an empty line, in one read: it stays in the buffer. -/
theorem message_after_empty_line :
    ¬ FramingIndependent (fun line => Except.ok line) [newline, 123, 125, newline] := by
  intro h
  have hone := h.lines [[newline, 123, 125, newline]] ⟨rfl, by simp⟩
  have hexpected : expected (fun line => Except.ok line) [newline, 123, 125, newline]
      = ([[123, 125]], false) := by decide
  have hreceive : receive (fun line => Except.ok line) [[newline, 123, 125, newline]]
      = (⟨[123, 125, newline], [], none⟩ : Framed Bytes) := drain_none (by rfl)
  rw [hexpected, hreceive] at hone
  cases hone

end StratumCodec

end ZcashMiningPool
