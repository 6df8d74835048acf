import ZcashMiningPool.PoolCore.Share

/-!
# The bytes of a header

A header input has 108 bytes, and the miner's time is the text it submits.  Two parsers read that
text: `u32::from_str_radix` for the clamp, which takes any number of digits, and `hex::decode` for
the header, which takes as many bytes as there are pairs of digits.

* `WellFormedHex` — the fields of a job have the sizes of a header.
* `GenuineHeader` — 108 bytes with a time in the clamped range, 1487 bytes hashed.
* `parseHexU32_of_hexDecode` — on a text that both accept, the parsers read the same bytes.
* `genuineHeader_iff` — a share that passes gives a genuine header exactly when its time has eight
  digits and the template's time fits a header.
* `short_ntime_hashed` — a time of six digits that passes.
-/

set_option autoImplicit false

namespace ZcashMiningPool

/-! ## Both parsers on one text -/

theorem hexValue_lt {c : Char} {d : UInt8} (h : Text.hexValue c = some d) : d.toNat < 16 := by
  unfold Text.hexValue at h
  split at h
  · rename_i hc
    cases h
    have hle : c.toNat ≤ 57 := hc.2
    rw [UInt8.toNat_ofNat']
    omega
  · split at h
    · rename_i hc
      cases h
      have hge : 97 ≤ c.toNat := hc.1
      have hle : c.toNat ≤ 102 := hc.2
      rw [UInt8.toNat_ofNat']
      omega
    · split at h
      · rename_i hc
        cases h
        have hge : 65 ≤ c.toNat := hc.1
        have hle : c.toNat ≤ 70 := hc.2
        rw [UInt8.toNat_ofNat']
        omega
      · cases h

/-- Two digits are a byte. -/
theorem toNat_pair {h l : UInt8} (hh : h.toNat < 16) (hl : l.toNat < 16) :
    (h * 16 + l).toNat = 16 * h.toNat + l.toNat := by
  have h16 : (16 : UInt8).toNat = 16 := rfl
  rw [UInt8.toNat_add, UInt8.toNat_mul, h16]
  omega

theorem length_of_hexPairs {cs : List Char} {bs : Bytes} (h : Text.hexPairs cs = some bs) :
    cs.length = 2 * bs.length := by
  induction cs using Text.hexPairs.induct generalizing bs with
  | case1 =>
    cases h
    rfl
  | case2 c => cases h
  | case3 hi lo cs h' l bs' hcs hl hh ih =>
    rw [Text.hexPairs, hh, hl, hcs] at h
    cases h
    simp only [List.length_cons, ih hcs]
    omega
  | case4 hi lo cs hne =>
    rw [Text.hexPairs] at h
    split at h
    · rename_i hh hl hcs
      exact absurd hcs (hne _ _ _ hh hl)
    · cases h

/-- The digits of complete bytes, read as one number. -/
theorem hexNumber_of_hexPairs {cs : List Char} {bs : Bytes} (h : Text.hexPairs cs = some bs) :
    Text.hexNumber cs = some (beNat bs) := by
  have hfold : Text.hexNumber cs = cs.foldl
      (fun acc c => acc.bind fun n => (Text.hexValue c).map fun d => 16 * n + d.toNat) (some 0) := by
    unfold Text.hexNumber
    congr 1
    funext acc c
    cases acc <;> cases Text.hexValue c <;> rfl
  rw [hfold]
  clear hfold
  have hgen : ∀ n : ℕ, cs.foldl
      (fun acc c => acc.bind fun n => (Text.hexValue c).map fun d => 16 * n + d.toNat) (some n)
        = some (bs.foldl (fun n b => 256 * n + b.toNat) n) := by
    induction cs using Text.hexPairs.induct generalizing bs with
    | case1 =>
      cases h
      exact fun _ => rfl
    | case2 c => cases h
    | case3 hi lo cs h' l bs' hcs hl hh ih =>
      rw [Text.hexPairs, hh, hl, hcs] at h
      cases h
      intro n
      have hbyte := toNat_pair (hexValue_lt hh) (hexValue_lt hl)
      rw [List.foldl_cons, List.foldl_cons, List.foldl_cons]
      simp only [hh, hl, Option.bind_some, Option.map_some]
      rw [ih hcs, hbyte]
      congr 2
      omega
    | case4 hi lo cs hne =>
      rw [Text.hexPairs] at h
      split at h
      · rename_i hh hl hcs
        exact absurd hcs (hne _ _ _ hh hl)
      · cases h
  exact hgen 0

/-- **Both parsers read the same bytes**, where both accept. -/
theorem parseHexU32_of_hexDecode {s : String} {bs : Bytes} {t : ℕ}
    (hd : Text.hexDecode s = some bs) (hp : Text.parseHexU32 s = some t) :
    t = beNat bs ∧ t < 2 ^ 32 := by
  unfold Text.hexDecode at hd
  unfold Text.parseHexU32 at hp
  simp only at hp
  split at hp
  · rename_i cs hplus
    -- a plus sign is no digit
    rw [hplus] at hd
    cases cs with
    | nil => cases hd
    | cons c cs => simp [Text.hexPairs, Text.hexValue] at hd
  · split at hp
    · cases hp
    · rw [hexNumber_of_hexPairs hd, Option.filter_eq_some_iff] at hp
      obtain ⟨heq, hlt⟩ := hp
      exact ⟨(Option.some.inj heq).symm, of_decide_eq_true hlt⟩

/-! ## Little-endian times -/

@[simp] theorem length_leBytes (n x : ℕ) : (leBytes n x).length = n := by
  induction n generalizing x with
  | zero => rfl
  | succ n ih => rw [leBytes, List.length_cons, ih]

/-- What is read little-endian is written back. -/
theorem leBytes_leNat (bs : Bytes) : leBytes bs.length (leNat bs) = bs := by
  induction bs with
  | nil => rfl
  | cons b bs ih =>
    have hb : b.toNat < 256 := b.toNat_lt
    have hlow : (b.toNat + 256 * leNat bs) % 256 = b.toNat := by omega
    have hhigh : (b.toNat + 256 * leNat bs) / 256 = leNat bs := by omega
    rw [List.length_cons, leNat, leBytes, hlow, hhigh, ih, UInt8.ofNat_toNat]

theorem leNat_lt (bs : Bytes) : leNat bs < 256 ^ bs.length := by
  rw [← beNat_reverse, ← List.length_reverse]
  exact beNat_lt bs.reverse

/-- Four bytes read big-endian and swapped are the bytes read little-endian. -/
theorem swapBytes_beNat {bs : Bytes} (h : bs.length = 4) : swapBytes (beNat bs) = leNat bs := by
  have hrev : leBytes 4 (leNat bs.reverse) = bs.reverse := by
    have hback := leBytes_leNat bs.reverse
    rwa [List.length_reverse, h] at hback
  have hbe : beNat bs = leNat bs.reverse := by
    rw [← beNat_reverse, List.reverse_reverse]
  unfold swapBytes
  rw [hbe, hrev, beNat_reverse]

/-! ## Genuine headers -/

/-- The hex fields of a job have the sizes 4, 32, 32, 32 and 4. -/
structure MiningJob.WellFormedHex (job : MiningJob) : Prop where
  version : ∃ bs, Text.hexDecode job.versionHex = some bs ∧ bs.length = 4
  prevHash : ∃ bs, Text.hexDecode job.prevHashHex = some bs ∧ bs.length = 32
  merkleRoot : ∃ bs, Text.hexDecode job.merkleRootHex = some bs ∧ bs.length = 32
  reserved : ∃ bs, Text.hexDecode job.reservedHex = some bs ∧ bs.length = 32
  bits : ∃ bs, Text.hexDecode job.bitsHex = some bs ∧ bs.length = 4

/-- What the Equihash check and the hash get: 108 bytes, in which bytes 100 to 104 are a time
    between the template's and 90 seconds from now, and 1487 bytes. -/
structure GenuineHeader (job : MiningJob) (now : ℕ) (headerInput : Bytes) (d : DecodedShare) :
    Prop where
  input : headerInput.length = 108
  time : ∃ t < 2 ^ 32, (headerInput.drop 100).take 4 = leBytes 4 t ∧
    job.template.curtime ≤ t ∧ t ≤ now + 90
  full : (fullHeader headerInput d).length = 1487

/-- The decoded nonce has 32 bytes and the decoded solution 1344. -/
theorem decodeSubmission_lengths {sub : Submission} {d : DecodedShare}
    (h : decodeSubmission sub = .ok d) :
    d.nonce.length = 32 ∧ d.rawSolution.length = rawSolutionSize := by
  unfold decodeSubmission at h
  split at h
  · cases h
  · rename_i nonce hnonce
    split at h
    · cases h
    · rename_i hlen
      split at h
      · cases h
      · rename_i solutionBytes hsolution
        cases hraw : rawSolutionOf solutionBytes with
        | error e =>
          rw [hraw] at h
          cases h
        | ok raw =>
          rw [hraw] at h
          cases h
          refine ⟨not_not.1 hlen, ?_⟩
          unfold rawSolutionOf at hraw
          split at hraw
          · rename_i hsize
            cases hraw
            exact hsize
          · split at hraw
            · cases hstrip : stripCompactSize solutionBytes with
              | error e =>
                rw [hstrip] at hraw
                cases hraw
              | ok payload =>
                rw [hstrip] at hraw
                simp only at hraw
                split at hraw
                · rename_i hsize
                  cases hraw
                  exact hsize
                · cases hraw
            · cases hraw

/-- The time takes no part in it. -/
theorem decodeSubmission_time (sub : Submission) (time : String) :
    decodeSubmission { sub with time := time } = decodeSubmission sub := rfl

theorem length_fullHeader {sub : Submission} {d : DecodedShare} (h : decodeSubmission sub = .ok d)
    (headerInput : Bytes) : (fullHeader headerInput d).length = headerInput.length + 1379 := by
  obtain ⟨hnonce, hsolution⟩ := decodeSubmission_lengths h
  have hprefix : (compactSize rawSolutionSize).length = 3 := by decide
  unfold fullHeader DecodedShare.solutionForHeader
  rw [List.length_append, List.length_append, List.length_append, hnonce, hsolution, hprefix]
  unfold rawSolutionSize
  omega

/-- The clamp that a time passed. -/
theorem checkNtime_ok {curtime now : ℕ} {time : String} (h : checkNtime curtime now time = .ok ()) :
    ∃ t, Text.parseHexU32 time = some t ∧ asU32 curtime ≤ swapBytes t ∧
      swapBytes t ≤ now + 90 := by
  unfold checkNtime at h
  split at h
  · cases h
  · rename_i t ht
    simp only at h
    split at h
    · cases h
    · rename_i hrange
      rw [not_or, not_lt, not_lt] at hrange
      have hnow : asU32 now ≤ now := Nat.mod_le _ _
      exact ⟨t, ht, hrange.1, by omega⟩

/-- **When only genuine headers are hashed**: a share with a decodable nonce and solution that
    passes the clamp and the header gives a genuine header exactly when its time has eight digits
    and the template's time fits 32 bits. -/
theorem genuineHeader_iff {job : MiningJob} (hjob : job.WellFormedHex) {sub : Submission}
    {d : DecodedShare} {now : ℕ} {headerInput : Bytes} (hdecoded : decodeSubmission sub = .ok d)
    (hntime : checkNtime job.template.curtime now sub.time = .ok ())
    (hinput : buildHeaderInput job sub.time = .ok headerInput) :
    GenuineHeader job now headerInput d ↔
      sub.time.length = 8 ∧ job.template.curtime < 2 ^ 32 := by
  obtain ⟨t, hparse, hlow, hhigh⟩ := checkNtime_ok hntime
  obtain ⟨version, prev, root, reserved, time, bits, hversion, hprev, hroot, hreserved, htime,
    hbits, rfl⟩ := buildHeaderInput_spec hinput
  obtain ⟨_, hversion', hlenVersion⟩ := hjob.version
  obtain ⟨_, hprev', hlenPrev⟩ := hjob.prevHash
  obtain ⟨_, hroot', hlenRoot⟩ := hjob.merkleRoot
  obtain ⟨_, hreserved', hlenReserved⟩ := hjob.reserved
  obtain ⟨_, hbits', hlenBits⟩ := hjob.bits
  rw [hversion] at hversion'
  rw [hprev] at hprev'
  rw [hroot] at hroot'
  rw [hreserved] at hreserved'
  rw [hbits] at hbits'
  cases hversion'
  cases hprev'
  cases hroot'
  cases hreserved'
  cases hbits'
  have hdigits : sub.time.length = 2 * time.length := by
    rw [← String.length_toList]
    exact length_of_hexPairs htime
  have hlength : (version ++ (prev ++ (root ++ (reserved ++ (time ++ bits))))).length
      = 104 + time.length := by
    simp only [List.length_append, hlenVersion, hlenPrev, hlenRoot, hlenReserved, hlenBits]
    omega
  constructor
  · intro hgenuine
    obtain ⟨time', hlt, -, hcurtime, -⟩ := hgenuine.time
    have hinput108 := hgenuine.input
    rw [hlength] at hinput108
    exact ⟨by omega, by omega⟩
  · rintro ⟨height, hcurtime⟩
    have hfour : time.length = 4 := by omega
    obtain ⟨rfl, -⟩ := parseHexU32_of_hexDecode htime hparse
    rw [swapBytes_beNat hfour] at hlow hhigh
    have hskip : (version ++ (prev ++ (root ++ (reserved ++ (time ++ bits))))).drop 100
        = time ++ bits := by
      rw [← List.append_assoc, ← List.append_assoc, ← List.append_assoc]
      apply List.drop_left'
      simp only [List.length_append, hlenVersion, hlenPrev, hlenRoot, hlenReserved]
    have hbytes : leBytes 4 (leNat time) = time := hfour ▸ leBytes_leNat time
    have hlt : leNat time < 2 ^ 32 := by
      have hbound := leNat_lt time
      rwa [hfour] at hbound
    have hexact : asU32 job.template.curtime = job.template.curtime := Nat.mod_eq_of_lt hcurtime
    refine ⟨by rw [hlength, hfour], ⟨leNat time, hlt, ?_, hexact ▸ hlow, hhigh⟩, ?_⟩
    · rw [hskip, hbytes]
      exact List.take_left' hfour
    · rw [length_fullHeader hdecoded, hlength, hfour]

theorem sampleJob_wellFormedHex : sampleJob.WellFormedHex where
  version := ⟨_, Text.hexDecode_hexEncode _, rfl⟩
  prevHash := ⟨_, Text.hexDecode_hexEncode _, (Bytes32.fill 2).length_eq⟩
  merkleRoot := ⟨_, Text.hexDecode_hexEncode _, (Bytes32.fill 3).length_eq⟩
  reserved := ⟨_, Text.hexDecode_hexEncode _, (Bytes32.fill 4).length_eq⟩
  bits := ⟨_, Text.hexDecode_hexEncode _, rfl⟩

theorem sampleHeaderInput_built :
    buildHeaderInput sampleJob sampleSubmission.time = .ok sampleHeaderInput := by
  simp [buildHeaderInput, headerFields, concatHex, sampleJob, sampleSubmission,
    sampleHeaderInput, Except.map]

theorem genuineHeader_iff_sample :
    GenuineHeader sampleJob 60 sampleHeaderInput sampleDecoded ↔
      sampleSubmission.time.length = 8 ∧ sampleJob.template.curtime < 2 ^ 32 :=
  genuineHeader_iff sampleJob_wellFormedHex sampleSubmission_decoded (by decide)
    sampleHeaderInput_built

/-- A template of 22 March 2026, 00:38:24 UTC, whose time has a zero low byte. -/
def roundTimeJob : MiningJob :=
  { sampleJob with template := { sampleTemplate with curtime := 0x69BF3A00 } }

/-- `003abf69` without its leading zeros. -/
def shortNtime : Submission := { sampleSubmission with time := Text.hexEncode [0x3a, 0xbf, 0x69] }

/-- **Counterexample.**  The template's own time, written without its leading zeros, passes the
    clamp, and 1486 bytes are hashed. -/
theorem short_ntime_hashed :
    roundTimeJob.WellFormedHex ∧ decodeSubmission shortNtime = .ok sampleDecoded ∧
      checkNtime roundTimeJob.template.curtime 0x69BF3A00 shortNtime.time = .ok () ∧
      ∃ headerInput, buildHeaderInput roundTimeJob shortNtime.time = .ok headerInput ∧
        headerInput.length = 107 ∧ (fullHeader headerInput sampleDecoded).length = 1486 ∧
        ¬ GenuineHeader roundTimeJob 0x69BF3A00 headerInput sampleDecoded := by
  have hdecoded : decodeSubmission shortNtime = .ok sampleDecoded :=
    (decodeSubmission_time sampleSubmission _).trans sampleSubmission_decoded
  refine ⟨⟨sampleJob_wellFormedHex.version, sampleJob_wellFormedHex.prevHash,
    sampleJob_wellFormedHex.merkleRoot, sampleJob_wellFormedHex.reserved,
    sampleJob_wellFormedHex.bits⟩, hdecoded, by decide +kernel,
    [4, 0, 0, 0] ++ ((Bytes32.fill 2).bytes ++ ((Bytes32.fill 3).bytes ++ ((Bytes32.fill 4).bytes ++
      ([0x3a, 0xbf, 0x69] ++ [5, 5, 5, 5])))), ?_, by simp [Bytes32.fill], ?_, ?_⟩
  · simp [buildHeaderInput, headerFields, concatHex, roundTimeJob, sampleJob, shortNtime,
      sampleSubmission, Except.map]
  · rw [length_fullHeader hdecoded]
    simp [Bytes32.fill]
  · intro hgenuine
    have hinput := hgenuine.input
    simp [Bytes32.fill] at hinput

end ZcashMiningPool
