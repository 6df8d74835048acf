import ZcashMiningPool.PoolCore.Target
import ZcashMiningPool.Stratum.Messages

/-!
# Jobs, headers and blocks

What a share is checked against and what it becomes: the job's template, the header the miner's
solution completes, and the block that is submitted.

* `MiningJob`, `BlockTemplate` — the fields that jobs, headers and blocks are made of.
* `decodeSubmission` — nonce and solution, the solution without and with its length prefix.
* `checkNtime` — the clamp on the miner's time.
* `buildHeaderInput` — the bytes before the nonce; `buildHeaderInput_spec`.
* `assembleFullBlock` — header, transaction count, transactions.
* `computeBlockReward` — the miner's part of the subsidy.
-/

set_option autoImplicit false

namespace ZcashMiningPool

/-! ## Templates and jobs -/

structure BlockTemplateTransaction where
  data : String
  hash : String
  fee : ℤ
  /-- Authorizing data digest, for transactions that have one. -/
  authdigest : Option String
  deriving DecidableEq, Repr

structure CoinbaseTxn where
  data : String
  hash : String
  fee : Option ℤ
  deriving DecidableEq, Repr

/-- Root hashes computed by the node. -/
structure DefaultRoots where
  merkleroot : Option String
  chainhistoryroot : Option String
  blockcommitmentshash : Option String
  deriving DecidableEq, Repr

structure BlockTemplate where
  version : ℕ
  previousblockhash : String
  lightclientroothash : Option String
  blockcommitmentshash : Option String
  finalsaplingroothash : Option String
  defaultroots : Option DefaultRoots
  transactions : List BlockTemplateTransaction
  coinbasetxn : Option CoinbaseTxn
  target : String
  curtime : ℕ
  bits : String
  height : ℕ
  longpollid : Option String
  deriving DecidableEq, Repr

structure MiningJob where
  jobId : String
  template : BlockTemplate
  versionHex : String
  prevHashHex : String
  merkleRootHex : String
  reservedHex : String
  timeHex : String
  bitsHex : String
  deriving DecidableEq, Repr

/-! ## The submission -/

/-- The submitted texts of a share. -/
structure Submission where
  sessionId : String
  workerName : String
  jobId : String
  time : String
  nonce1 : String
  nonce2 : String
  equihashSolution : String
  deriving DecidableEq, Repr

/-- Equihash(200,9). -/
def rawSolutionSize : ℕ := 1344

/-- The `n` low bytes of `x`, low byte first. -/
def leBytes : ℕ → ℕ → Bytes
  | 0, _ => []
  | n + 1, x => UInt8.ofNat (x % 256) :: leBytes n (x / 256)

/-- A byte string read little-endian. -/
def leNat : Bytes → ℕ
  | [] => 0
  | b :: bs => b.toNat + 256 * leNat bs

theorem beNat_append (bs : Bytes) (b : UInt8) : beNat (bs ++ [b]) = 256 * beNat bs + b.toNat := by
  simp [beNat]

theorem beNat_reverse (bs : Bytes) : beNat bs.reverse = leNat bs := by
  induction bs with
  | nil => rfl
  | cons b bs ih =>
    rw [List.reverse_cons, beNat_append, ih, leNat]
    omega

def compactSize (n : ℕ) : Bytes :=
  if n < 253 then [UInt8.ofNat n]
  else if n ≤ 0xFFFF then 0xFD :: leBytes 2 n
  else if n ≤ 0xFFFFFFFF then 0xFE :: leBytes 4 n
  else 0xFF :: leBytes 8 n

/-- The length prefix of `data`: how many bytes it takes and what it declares. -/
def compactPrefix (data : Bytes) : Except StratumError (ℕ × ℕ) :=
  match data with
  | [] => .error (.other "Empty solution")
  | b :: _ =>
    let wide (n : ℕ) : Except StratumError (ℕ × ℕ) :=
      if data.length < n + 1 then .error (.other "Truncated compactSize")
      else .ok (n + 1, leNat ((data.drop 1).take n))
    if b = 0xFD then wide 2
    else if b = 0xFE then wide 4
    else if b = 0xFF then wide 8
    else .ok (1, b.toNat)

/-- Strip the compactSize prefix from a byte slice, returning the payload; the end of the payload
    must fit a `usize` and the slice. -/
def stripCompactSize (data : Bytes) : Except StratumError Bytes :=
  match compactPrefix data with
  | .error e => .error e
  | .ok (prefixLen, size) =>
    if prefixLen + size < 2 ^ 64 ∧ prefixLen + size ≤ data.length then
      .ok ((data.drop prefixLen).take size)
    else .error (.other "Solution shorter than declared size")

/-- The decoded nonce and solution. -/
structure DecodedShare where
  nonce : Bytes
  rawSolution : Bytes
  deriving DecidableEq, Repr

/-- The canonical solution bytes of the header, rebuilt from the raw solution. -/
def DecodedShare.solutionForHeader (d : DecodedShare) : Bytes :=
  compactSize rawSolutionSize ++ d.rawSolution

/-- The raw solution, sent with or without its length prefix. -/
def rawSolutionOf (solutionBytes : Bytes) : Except StratumError Bytes :=
  if solutionBytes.length = rawSolutionSize then .ok solutionBytes
  else if rawSolutionSize < solutionBytes.length then
    match stripCompactSize solutionBytes with
    | .error e => .error e
    | .ok raw =>
      if raw.length = rawSolutionSize then .ok raw
      else .error (.other s!"Bad solution size: {raw.length} (expected {rawSolutionSize})")
  else .error (.other s!"Solution too short: {solutionBytes.length} bytes")

def decodeSubmission (sub : Submission) : Except StratumError DecodedShare :=
  match Text.hexDecode (sub.nonce1 ++ sub.nonce2) with
  | none => .error (.other "Invalid nonce hex")
  | some nonce =>
    if nonce.length ≠ 32 then .error (.other "Nonce must be 32 bytes")
    else match Text.hexDecode sub.equihashSolution with
      | none => .error (.other "Invalid solution hex")
      | some solutionBytes =>
        match rawSolutionOf solutionBytes with
        | .error e => .error e
        | .ok raw => .ok ⟨nonce, raw⟩

/-- A nonce and a bare solution that are written out read back. -/
theorem decodeSubmission_hexEncode {sub : Submission} {d : DecodedShare}
    (hnonce : sub.nonce1 ++ sub.nonce2 = Text.hexEncode d.nonce) (hlen : d.nonce.length = 32)
    (hsolution : sub.equihashSolution = Text.hexEncode d.rawSolution)
    (hsize : d.rawSolution.length = rawSolutionSize) : decodeSubmission sub = .ok d := by
  have hraw : rawSolutionOf d.rawSolution = .ok d.rawSolution := if_pos hsize
  simp only [decodeSubmission, hnonce, hsolution, Text.hexDecode_hexEncode, hlen, hraw, ne_eq,
    not_true_eq_false, if_false]

/-! ## The header -/

/-- `u32::swap_bytes`. -/
def swapBytes (n : ℕ) : ℕ := beNat (leBytes 4 n)

/-- `x as u32`. -/
def asU32 (n : ℕ) : ℕ := n % 2 ^ 32

/-- The miner's time lies between the template's and 90 seconds from now. -/
def checkNtime (curtime now : ℕ) (time : String) : Except StratumError Unit :=
  match Text.parseHexU32 time with
  | none => .error (.other "Invalid ntime hex")
  | some t =>
    let minerTime := swapBytes t
    let curtime := asU32 curtime
    let maxOk := min (asU32 now + 90) (2 ^ 32 - 1)
    if minerTime < curtime ∨ maxOk < minerTime then
      .error (.other s!"ntime out of range: {minerTime} not in [{curtime}, {maxOk}]")
    else .ok ()

/-- The fields of the header before the nonce, each with the error of its text. -/
def headerFields (job : MiningJob) (timeHex : String) : List (String × String) :=
  [(job.versionHex, "Invalid version hex"), (job.prevHashHex, "Invalid prev_hash hex"),
    (job.merkleRootHex, "Invalid merkle_root hex"), (job.reservedHex, "Invalid reserved hex"),
    (timeHex, "Invalid time hex"), (job.bitsHex, "Invalid bits hex")]

/-- Decoded texts one after the other; the first bad one is the error. -/
def concatHex : List (String × String) → Except StratumError Bytes
  | [] => .ok []
  | (hex, message) :: fields =>
    match Text.hexDecode hex with
    | none => .error (.other message)
    | some bs => (concatHex fields).map (bs ++ ·)

def buildHeaderInput (job : MiningJob) (timeHex : String) : Except StratumError Bytes :=
  concatHex (headerFields job timeHex)

theorem mapM_eq_some_iff {α β : Type} {f : α → Option β} {l : List α} {r : List β} :
    l.mapM f = some r ↔ List.Forall₂ (fun a b => f a = some b) l r := by
  induction l generalizing r with
  | nil =>
    rw [List.mapM_nil, List.forall₂_nil_left_iff]
    exact ⟨fun h => (Option.some.inj h).symm, fun h => congrArg some h.symm⟩
  | cons a l ih =>
    rw [List.mapM_cons, List.forall₂_cons_left_iff]
    constructor
    · intro h
      obtain ⟨b, hb, h⟩ := Option.bind_eq_some_iff.1 h
      obtain ⟨bs, hbs, h⟩ := Option.bind_eq_some_iff.1 h
      cases h
      exact ⟨b, bs, hb, ih.1 hbs, rfl⟩
    · rintro ⟨b, bs, hb, hbs, rfl⟩
      rw [hb, ih.2 hbs]
      rfl

/-- Texts that are put together decode one by one. -/
theorem concatHex_eq_ok {fields : List (String × String)} {bs : Bytes} :
    concatHex fields = .ok bs ↔
      ∃ parts, (fields.map (·.1)).mapM Text.hexDecode = some parts ∧ bs = parts.flatten := by
  induction fields generalizing bs with
  | nil =>
    simp only [concatHex, List.map_nil, List.mapM_nil]
    constructor
    · intro h
      cases h
      exact ⟨[], rfl, rfl⟩
    · rintro ⟨parts, hparts, rfl⟩
      cases hparts
      rfl
  | cons field fields ih =>
    obtain ⟨hex, message⟩ := field
    simp only [concatHex, List.map_cons, List.mapM_cons]
    cases hhex : Text.hexDecode hex with
    | none => simp
    | some first =>
      cases hrest : concatHex fields with
      | error e =>
        constructor
        · intro h
          cases h
        · rintro ⟨parts, hparts, -⟩
          obtain ⟨_, hfirst, hparts⟩ := Option.bind_eq_some_iff.1 hparts
          obtain ⟨others, hothers, -⟩ := Option.bind_eq_some_iff.1 hparts
          have hok := ih.2 ⟨others, hothers, rfl⟩
          rw [hrest] at hok
          cases hok
      | ok rest =>
        obtain ⟨others, hothers, hflat⟩ := ih.1 hrest
        simp only [hothers, Except.map]
        constructor
        · intro h
          cases h
          exact ⟨first :: others, rfl, by rw [hflat, List.flatten_cons]⟩
        · rintro ⟨parts, hparts, rfl⟩
          cases hparts
          rw [hflat, List.flatten_cons]

/-- The header input is the six fields, each of them decoded. -/
theorem buildHeaderInput_spec {job : MiningJob} {timeHex : String} {input : Bytes}
    (h : buildHeaderInput job timeHex = .ok input) :
    ∃ version prev root reserved time bits, Text.hexDecode job.versionHex = some version ∧
      Text.hexDecode job.prevHashHex = some prev ∧ Text.hexDecode job.merkleRootHex = some root ∧
      Text.hexDecode job.reservedHex = some reserved ∧ Text.hexDecode timeHex = some time ∧
      Text.hexDecode job.bitsHex = some bits ∧
      input = version ++ (prev ++ (root ++ (reserved ++ (time ++ bits)))) := by
  obtain ⟨parts, hparts, rfl⟩ := concatHex_eq_ok.1 h
  have hall := mapM_eq_some_iff.1 hparts
  simp only [headerFields, List.map_cons, List.map_nil, List.forall₂_cons_left_iff,
    List.forall₂_nil_left_iff] at hall
  obtain ⟨version, _, hversion, ⟨prev, _, hprev, ⟨root, _, hroot, ⟨reserved, _, hreserved,
    ⟨time, _, htime, ⟨bits, _, hbits, rfl, rfl⟩, rfl⟩, rfl⟩, rfl⟩, rfl⟩, rfl⟩ := hall
  exact ⟨version, prev, root, reserved, time, bits, hversion, hprev, hroot, hreserved, htime, hbits,
    by simp⟩

/-- header_input + nonce + solution_with_compactSize. -/
def fullHeader (headerInput : Bytes) (d : DecodedShare) : Bytes :=
  headerInput ++ d.nonce ++ d.solutionForHeader

/-! ## The block -/

/-- Assemble a full block for submitblock: serialized_header + tx_count + transactions. -/
def assembleFullBlock (serializedHeader : Bytes) (template : BlockTemplate) :
    Except StratumError Bytes :=
  match template.coinbasetxn with
  | none => .error (.other "Block template missing coinbase transaction")
  | some coinbase =>
    (concatHex ((coinbase.data, "Invalid coinbase hex") ::
      template.transactions.map (fun tx => (tx.data, "Invalid transaction hex")))).map
      (fun txs => serializedHeader ++ compactSize (1 + template.transactions.length) ++ txs)

/-- Compute the miner portion of the block reward in zatoshis. -/
def computeBlockReward (height : ℤ) : ℤ :=
  if height < 0 then 0
  else
    let halvings : ℤ :=
      if height < 1046400 then 1
      else if height < 2726400 then 2
      else 3 + (height - 2726400) / 1680000
    if 64 ≤ halvings then 0
    else (1250000000 : ℤ) / 2 ^ halvings.toNat * 80 / 100

/-- BIP22 reports the coinbase fee as minus the collected fees; without it the transaction fees
    are summed. -/
def collectedFees (template : BlockTemplate) : ℤ :=
  max 0 (match template.coinbasetxn.bind (·.fee) with
    | some fee => -fee
    | none => (template.transactions.map (·.fee)).sum)

end ZcashMiningPool
