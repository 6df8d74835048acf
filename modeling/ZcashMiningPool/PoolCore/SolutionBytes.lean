import ZcashMiningPool.Library.Checked
import ZcashMiningPool.PoolCore.HeaderInput

/-!
# The bytes of a solution

The decoding of a submitted solution, index by index and slice by slice, so that a panic would show:
a panic here unwinds the only validator task.

* `MayPanic.compactPrefix`, `MayPanic.stripCompactSize`, `MayPanic.decodeSolution` — the code.
* `MayPanic.decodeSubmission_eq` — it never panics and decodes what `decodeSubmission` does;
  `MayPanic.header_and_fingerprint_eq` — so header and fingerprint are those of the share path.
* `stripCompactSize_compactSize` — a payload behind its length comes back, whatever follows it.

Main result: `solution_is_canonical`.
-/

set_option autoImplicit false

namespace ZcashMiningPool

open Checked

namespace MayPanic

/-- The match on the first byte. -/
def compactPrefix (data : Bytes) : Exec StratumError (ℕ × ℕ) := do
  let first ← index data 0
  if first = 0xFD then
    if data.length < 3 then .err (.other "Truncated compactSize")
    else do
      let bs ← Exec.collect (index data) [1, 2]
      .ok (3, leNat bs)
  else if first = 0xFE then
    if data.length < 5 then .err (.other "Truncated compactSize")
    else do
      let bs ← Exec.collect (index data) [1, 2, 3, 4]
      .ok (5, leNat bs)
  else if first = 0xFF then
    if data.length < 9 then .err (.other "Truncated compactSize")
    else do
      let bs ← slice data 1 9
      let bs ← copyFrom 8 bs
      .ok (9, leNat bs)
  else .ok (1, first.toNat)

def stripCompactSize (data : Bytes) : Exec StratumError Bytes :=
  if data = [] then .err (.other "Empty solution")
  else do
    let (prefixLen, size) ← compactPrefix data
    match (checkedAdd prefixLen size).filter (· ≤ data.length) with
    | none => .err (.other "Solution shorter than declared size")
    | some stop => slice data prefixLen stop

/-- `raw_solution` and `solution_for_header`. -/
structure DecodedSolution where
  rawSolution : Bytes
  solutionForHeader : Bytes
  deriving DecidableEq, Repr

def decodeSolution (solutionBytes : Bytes) : Exec StratumError DecodedSolution :=
  if solutionBytes.length = rawSolutionSize then
    .ok ⟨solutionBytes, compactSize rawSolutionSize ++ solutionBytes⟩
  else if rawSolutionSize < solutionBytes.length then do
    let raw ← stripCompactSize solutionBytes
    if raw.length ≠ rawSolutionSize then
      .err (.other s!"Bad solution size: {raw.length} (expected {rawSolutionSize})")
    else .ok ⟨raw, compactSize rawSolutionSize ++ raw⟩
  else .err (.other s!"Solution too short: {solutionBytes.length} bytes")

/-- header_input + nonce + solution_with_compactSize. -/
def fullHeader (headerInput nonce : Bytes) (s : DecodedSolution) : Bytes :=
  headerInput ++ nonce ++ s.solutionForHeader

/-- `share_fp`. -/
def fingerprint (prims : Primitives) (jobId : String) (nonce : Bytes) (s : DecodedSolution) :
    UInt64 :=
  prims.shareFp jobId nonce s.rawSolution

/-- Nonce and solution of a submission. -/
def decodeSubmission (sub : Submission) : Exec StratumError (Bytes × DecodedSolution) :=
  match Text.hexDecode (sub.nonce1 ++ sub.nonce2) with
  | none => .err (.other "Invalid nonce hex")
  | some nonce =>
    if nonce.length ≠ 32 then .err (.other "Nonce must be 32 bytes")
    else match Text.hexDecode sub.equihashSolution with
      | none => .err (.other "Invalid solution hex")
      | some solutionBytes => do
        let solution ← decodeSolution solutionBytes
        .ok (nonce, solution)

/-! ## It does not panic -/

theorem compactPrefix_eq {data : Bytes} (h : data ≠ []) :
    compactPrefix data = .ofExcept (ZcashMiningPool.compactPrefix data) := by
  obtain ⟨b, rest, rfl⟩ := List.exists_cons_of_ne_nil h
  have hfirst : (index (b :: rest) 0 : Exec StratumError UInt8) = .ok b := rfl
  simp only [compactPrefix, ZcashMiningPool.compactPrefix, hfirst, Exec.ok_bind]
  split
  · by_cases hlen : (b :: rest).length < 3
    · rw [if_pos hlen, if_pos hlen]
      rfl
    · have hbytes : (Exec.collect (index (b :: rest)) [1, 2] : Exec StratumError Bytes)
          = .ok (((b :: rest).drop 1).take 2) := collect_index 1 2 (by omega)
      rw [if_neg hlen, if_neg hlen, hbytes]
      rfl
  · split
    · by_cases hlen : (b :: rest).length < 5
      · rw [if_pos hlen, if_pos hlen]
        rfl
      · have hbytes : (Exec.collect (index (b :: rest)) [1, 2, 3, 4] :
            Exec StratumError Bytes) = .ok (((b :: rest).drop 1).take 4) :=
          collect_index 1 4 (by omega)
        rw [if_neg hlen, if_neg hlen, hbytes]
        rfl
    · split
      · by_cases hlen : (b :: rest).length < 9
        · rw [if_pos hlen, if_pos hlen]
          rfl
        · have hcut : ((b :: rest).take 9).drop 1 = ((b :: rest).drop 1).take 8 := by
            rw [List.drop_take]
          have height : (((b :: rest).drop 1).take 8).length = 8 := by
            rw [List.length_take, List.length_drop]
            omega
          rw [if_neg hlen, if_neg hlen, slice_eq (by decide) (by omega), Exec.ok_bind, hcut,
            copyFrom_eq height]
          rfl
      · rfl

/-- The prefix is at least one byte. -/
theorem stripCompactSize_eq (data : Bytes) :
    stripCompactSize data = .ofExcept (ZcashMiningPool.stripCompactSize data) := by
  by_cases hempty : data = []
  · subst hempty
    rfl
  · simp only [stripCompactSize, ZcashMiningPool.stripCompactSize, if_neg hempty,
      compactPrefix_eq hempty]
    cases hprefix : ZcashMiningPool.compactPrefix data with
    | error e => rfl
    | ok r =>
      obtain ⟨prefixLen, size⟩ := r
      simp only [Exec.ofExcept_ok, Exec.ok_bind]
      by_cases hfits : prefixLen + size < 2 ^ 64 ∧ prefixLen + size ≤ data.length
      · have hstop : (checkedAdd prefixLen size).filter (· ≤ data.length)
            = some (prefixLen + size) := by
          rw [checkedAdd, if_pos hfits.1, Option.filter_some, if_pos (decide_eq_true hfits.2)]
        simp only [hstop, if_pos hfits]
        rw [slice_eq (Nat.le_add_right _ _) hfits.2, List.drop_take, Nat.add_sub_cancel_left,
          Exec.ofExcept_ok]
      · have hstop : (checkedAdd prefixLen size).filter (· ≤ data.length) = none := by
          rw [checkedAdd]
          split
          · rename_i hsum
            rw [Option.filter_some, if_neg]
            intro hle
            exact hfits ⟨hsum, of_decide_eq_true hle⟩
          · rfl
        simp only [hstop, if_neg hfits, Exec.ofExcept_error]

/-- The header solution is rebuilt from the raw one in both branches. -/
theorem decodeSolution_eq (solutionBytes : Bytes) :
    decodeSolution solutionBytes
      = .ofExcept ((rawSolutionOf solutionBytes).map
          (fun raw => ⟨raw, compactSize rawSolutionSize ++ raw⟩)) := by
  unfold decodeSolution rawSolutionOf
  split
  · rfl
  · split
    · rw [stripCompactSize_eq]
      cases ZcashMiningPool.stripCompactSize solutionBytes with
      | error e => rfl
      | ok raw =>
        simp only [Exec.ofExcept_ok, Exec.ok_bind]
        by_cases hsize : raw.length = rawSolutionSize
        · simp only [if_pos hsize, if_neg (not_not.2 hsize)]
          rfl
        · simp only [if_neg hsize, if_pos hsize]
          rfl
    · rfl

/-- **The decoding never panics**, and gives the nonce and the solutions that the share is checked
    with. -/
theorem decodeSubmission_eq (sub : Submission) :
    decodeSubmission sub = .ofExcept ((ZcashMiningPool.decodeSubmission sub).map
      (fun d => (d.nonce, ⟨d.rawSolution, d.solutionForHeader⟩))) := by
  unfold decodeSubmission ZcashMiningPool.decodeSubmission
  cases Text.hexDecode (sub.nonce1 ++ sub.nonce2) with
  | none => rfl
  | some nonce =>
    by_cases hnonce : nonce.length ≠ 32
    · simp only [if_pos hnonce]
      rfl
    · simp only [if_neg hnonce]
      cases Text.hexDecode sub.equihashSolution with
      | none => rfl
      | some solutionBytes =>
        simp only [decodeSolution_eq]
        cases rawSolutionOf solutionBytes <;> rfl

/-- Header and fingerprint of the share path are those of the decoded solution. -/
theorem header_and_fingerprint_eq (prims : Primitives) {sub : Submission} {d : DecodedShare}
    (h : ZcashMiningPool.decodeSubmission sub = .ok d) :
    ∃ s, decodeSubmission sub = .ok (d.nonce, s) ∧
      ShareValidator.fingerprint prims sub d = fingerprint prims sub.jobId d.nonce s ∧
      ∀ headerInput, ZcashMiningPool.fullHeader headerInput d
        = fullHeader headerInput d.nonce s := by
  refine ⟨⟨d.rawSolution, d.solutionForHeader⟩, ?_, rfl, fun _ => rfl⟩
  rw [decodeSubmission_eq, h]
  rfl

end MayPanic

/-! ## A payload behind its length -/

theorem leNat_leBytes (n x : ℕ) : leNat (leBytes n x) = x % 256 ^ n := by
  induction n generalizing x with
  | zero => simp [leBytes, leNat, Nat.mod_one]
  | succ n ih =>
    have hlow : (UInt8.ofNat (x % 256)).toNat = x % 256 := by
      rw [UInt8.toNat_ofNat']
      exact Nat.mod_mod _ _
    rw [leBytes, leNat, hlow, ih, pow_succ', Nat.mod_mul]

/-- What `compact_size` writes is read as its number. -/
theorem compactPrefix_compactSize {n : ℕ} (hn : n < 2 ^ 64) (rest : Bytes) :
    compactPrefix (compactSize n ++ rest) = .ok ((compactSize n).length, n) := by
  have hwide : ∀ k, ((leBytes k n ++ rest).take k) = leBytes k n := fun k => by
    rw [List.take_left' (length_leBytes k n)]
  unfold compactSize
  split
  · rename_i hsmall
    have htoNat : (UInt8.ofNat n).toNat = n := by
      rw [UInt8.toNat_ofNat']
      omega
    have hne : ∀ b : UInt8, 253 ≤ b.toNat → UInt8.ofNat n ≠ b := by
      rintro b hb rfl
      omega
    simp only [compactPrefix, List.singleton_append, if_neg (hne 0xFD (by decide)),
      if_neg (hne 0xFE (by decide)), if_neg (hne 0xFF (by decide)), htoNat]
    rfl
  · split
    · have hlen : ¬ (0xFD :: leBytes 2 n ++ rest).length < 2 + 1 := by
        simp
      simp only [compactPrefix, List.cons_append, if_true] at hlen ⊢
      rw [if_neg hlen, List.drop_one, List.tail_cons, hwide, leNat_leBytes,
        Nat.mod_eq_of_lt (by omega), List.length_cons, length_leBytes]
    · split
      · have hlen : ¬ (0xFE :: leBytes 4 n ++ rest).length < 4 + 1 := by
          simp
        simp only [compactPrefix, List.cons_append] at hlen ⊢
        rw [if_neg (by decide), if_pos trivial, if_neg hlen, List.drop_one, List.tail_cons, hwide,
          leNat_leBytes, Nat.mod_eq_of_lt (by omega), List.length_cons, length_leBytes]
      · have hlen : ¬ (0xFF :: leBytes 8 n ++ rest).length < 8 + 1 := by
          simp
        simp only [compactPrefix, List.cons_append] at hlen ⊢
        rw [if_neg (by decide), if_neg (by decide), if_pos trivial, if_neg hlen, List.drop_one,
          List.tail_cons, hwide, leNat_leBytes, Nat.mod_eq_of_lt (by omega), List.length_cons,
          length_leBytes]

/-- **A payload behind its length comes back**, whatever follows it, in a byte string whose length
    is a `usize`. -/
theorem stripCompactSize_compactSize {p t : Bytes}
    (h : (compactSize p.length ++ p ++ t).length < 2 ^ 64) :
    stripCompactSize (compactSize p.length ++ p ++ t) = .ok p := by
  have hlen : (compactSize p.length ++ (p ++ t)).length
      = (compactSize p.length).length + p.length + t.length := by
    simp only [List.length_append]
    omega
  rw [List.append_assoc] at h ⊢
  have hsize : p.length < 2 ^ 64 := by omega
  unfold stripCompactSize
  rw [compactPrefix_compactSize hsize]
  simp only
  rw [if_pos ⟨by omega, by omega⟩, List.drop_left, List.take_left]

/-! ## One header for one raw solution -/

theorem length_rawSolutionOf {solutionBytes raw : Bytes}
    (h : rawSolutionOf solutionBytes = .ok raw) : raw.length = rawSolutionSize := by
  unfold rawSolutionOf at h
  split at h
  · cases h
    assumption
  · split at h
    · split at h
      · cases h
      · split at h
        · cases h
          assumption
        · cases h
    · cases h

/-- What an accepted solution is made of. -/
theorem MayPanic.decodeSolution_ok {solutionBytes : Bytes} {s : MayPanic.DecodedSolution}
    (h : MayPanic.decodeSolution solutionBytes = .ok s) :
    s.rawSolution.length = rawSolutionSize ∧
      s.solutionForHeader = compactSize rawSolutionSize ++ s.rawSolution := by
  rw [MayPanic.decodeSolution_eq, Exec.ofExcept_eq_ok] at h
  cases hraw : rawSolutionOf solutionBytes with
  | error e =>
    rw [hraw] at h
    cases h
  | ok raw =>
    rw [hraw] at h
    cases h
    exact ⟨length_rawSolutionOf hraw, rfl⟩

/-- **Padding changes nothing.**  Every solution is refused or decoded without a panic; what is
    hashed and what is remembered depends on the 1344 raw bytes only, and stripping undoes
    `compact_size`. -/
theorem solution_is_canonical (prims : Primitives) :
    (∀ solutionBytes, (MayPanic.decodeSolution solutionBytes).Returns) ∧
    (∀ solutionBytes s, MayPanic.decodeSolution solutionBytes = .ok s →
      s.rawSolution.length = 1344) ∧
    (∀ solutionBytes₁ solutionBytes₂ s₁ s₂, MayPanic.decodeSolution solutionBytes₁ = .ok s₁ →
      MayPanic.decodeSolution solutionBytes₂ = .ok s₂ → s₁.rawSolution = s₂.rawSolution →
      ∀ headerInput nonce jobId,
        MayPanic.fullHeader headerInput nonce s₁ = MayPanic.fullHeader headerInput nonce s₂ ∧
        MayPanic.fingerprint prims jobId nonce s₁ = MayPanic.fingerprint prims jobId nonce s₂) ∧
    (∀ p t : Bytes, (compactSize p.length ++ p ++ t).length < 2 ^ 64 →
      MayPanic.stripCompactSize (compactSize p.length ++ p ++ t) = .ok p) := by
  refine ⟨fun solutionBytes => ?_, fun solutionBytes s h => (MayPanic.decodeSolution_ok h).1,
    fun solutionBytes₁ solutionBytes₂ s₁ s₂ h₁ h₂ hraw headerInput nonce jobId => ?_,
    fun p t h => ?_⟩
  · rw [MayPanic.decodeSolution_eq]
    exact Exec.returns_ofExcept _
  · have hheader : s₁.solutionForHeader = s₂.solutionForHeader := by
      rw [(MayPanic.decodeSolution_ok h₁).2, (MayPanic.decodeSolution_ok h₂).2, hraw]
    constructor
    · unfold MayPanic.fullHeader
      rw [hheader]
    · unfold MayPanic.fingerprint
      rw [hraw]
  · rw [MayPanic.stripCompactSize_eq, stripCompactSize_compactSize h]
    rfl

end ZcashMiningPool
