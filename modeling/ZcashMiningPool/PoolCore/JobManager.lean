import Mathlib.Data.List.Sort
import ZcashMiningPool.Library.Table
import ZcashMiningPool.PoolCore.Coinbase

/-!
# The job manager

`pool-core/src/job.rs`: from a block template to a job and its announcement.

* `computeMerkleRoot`, `MiningJob.fromTemplate`, `MiningJob.toNotify` — the job of a template.
* `tagTemplate` — the template with a tagged coinbase.
* `JobManager.broadcastEmptyBlock` — the early announcement of a new tip.
* `JobManager.processTemplate` — the whole call; the tag may be refused for either announcement.

Stall detection and lag samples are left out: nothing here reads them.
-/

set_option autoImplicit false

namespace ZcashMiningPool

open Table MerkleTree

/-! ## Jobs -/

/-- RPC display order and header order are each other's reverse; a bad text becomes empty. -/
def reverseHex (hexStr : String) : String :=
  Text.hexEncode ((Text.hexDecode hexStr).getD []).reverse

/-- A 32-byte hash in hexadecimal. -/
def decodeHash (hex : String) : Option Bytes32 := (Text.hexDecode hex).bind Bytes32.ofBytes?

/-- The hashes of coinbase and transactions; one that is not a 32-byte hash is skipped. -/
def templateHashes (template : BlockTemplate) : List Bytes32 :=
  template.coinbasetxn.toList.filterMap (fun cb => decodeHash cb.hash) ++
    template.transactions.filterMap (fun tx => decodeHash tx.hash)

def merkleNode (sha256d : Bytes → Bytes32) (a b : Bytes32) : Bytes32 :=
  sha256d (a.bytes ++ b.bytes)

/-- Compute the merkle root from coinbase + transaction hashes in the template. -/
def computeMerkleRoot (sha256d : Bytes → Bytes32) (template : BlockTemplate) : String :=
  match bitcoinRoot (merkleNode sha256d) (templateHashes template) with
  | none => Text.hexEncode (Bytes32.fill 0).bytes
  | some root => Text.hexEncode root.bytes

namespace MiningJob

def fromTemplate (sha256d : Bytes → Bytes32) (template : BlockTemplate) (jobId : String) :
    MiningJob where
  jobId := jobId
  template := template
  versionHex := Text.hexEncode (leBytes 4 template.version)
  prevHashHex := reverseHex template.previousblockhash
  merkleRootHex := reverseHex
    ((template.defaultroots.bind (·.merkleroot)).getD (computeMerkleRoot sha256d template))
  reservedHex := reverseHex
    (((template.defaultroots.bind (·.blockcommitmentshash)).or
      (template.blockcommitmentshash.or
        (template.lightclientroothash.or template.finalsaplingroothash))).getD
      (Text.hexEncode (Bytes32.fill 0).bytes))
  timeHex := Text.hexEncode (leBytes 4 template.curtime)
  bitsHex := reverseHex template.bits

/-- Convert this job into a stratum Notify message. -/
def toNotify (job : MiningJob) (cleanJobs : Bool) : Notify where
  jobId := job.jobId
  version := job.versionHex
  prevHash := job.prevHashHex
  merkleRoot := job.merkleRootHex
  reserved := job.reservedHex
  time := job.timeHex
  bits := job.bitsHex
  cleanJobs := cleanJobs

end MiningJob

/-! ## The tag -/

/-- A call of `inject_coinbase_tag`: coinbase, tag, history root, auth digests. -/
abbrev Inject := String → Bytes → String → List String → Except String InjectionResult

namespace BlockTemplate

/-- The node's history root, or an empty text. -/
def chainHistoryRoot (template : BlockTemplate) : String :=
  (template.defaultroots.bind (·.chainhistoryroot)).getD ""

/-- Collect auth digests from non-coinbase transactions. -/
def txAuthDigests (template : BlockTemplate) : List String :=
  template.transactions.filterMap (·.authdigest)

/-- v4: update txid and clear the cached merkle root. -/
def setTxid (template : BlockTemplate) (cb : CoinbaseTxn) (txid : String) : BlockTemplate :=
  { template with
    coinbasetxn := some { cb with hash := txid }
    defaultroots := template.defaultroots.map (fun dr => { dr with merkleroot := none }) }

/-- v5: update the block commitments. -/
def setCommitments (template : BlockTemplate) (bc : String) : BlockTemplate :=
  { template with
    defaultroots := template.defaultroots.map (fun dr =>
      { dr with blockcommitmentshash := some bc })
    blockcommitmentshash := some bc }

/-- The template with the tagged coinbase and what depends on it. -/
def setInjection (template : BlockTemplate) (cb : CoinbaseTxn) (result : InjectionResult) :
    BlockTemplate :=
  let cb := { cb with data := result.newCoinbaseHex }
  let template := { template with coinbasetxn := some cb }
  let template := match result.newTxid with
    | none => template
    | some txid => template.setTxid cb txid
  match result.newBlockCommitments with
  | none => template
  | some bc => template.setCommitments bc

/-- No mempool transactions, and no root that covers them. -/
def emptied (template : BlockTemplate) : BlockTemplate :=
  { template with
    transactions := []
    defaultroots := template.defaultroots.map (fun dr => { dr with merkleroot := none }) }

end BlockTemplate

/-- Inject the tag if one is configured and there is a coinbase. -/
def tagTemplate (inject : Inject) (tag : Option Bytes) (template : BlockTemplate) :
    Except String BlockTemplate :=
  match tag, template.coinbasetxn with
  | some tag, some cb =>
    (inject cb.data tag template.chainHistoryRoot template.txAuthDigests).map
      (template.setInjection cb)
  | _, _ => .ok template

/-! ## The manager -/

/-- How often to send non-clean job updates to miners (seconds). -/
def nonCleanJobIntervalSecs : ℤ := 5

structure JobManager where
  coinbaseTag : Option Bytes
  jobs : Keyed String MiningJob
  jobCounter : ℕ
  lastPrevHash : String
  lastNonCleanBroadcast : ℚ
  lastLongpollid : Option String
  latestNotify : Option Notify
  lastBroadcastTxCount : ℕ

/-- `fetch_add(1)` of a 64-bit counter. -/
def bumpCounter (n : ℕ) : ℕ := (n + 1) % 2 ^ 64

/-- The number of a job id. -/
def jobNumber (jobId : String) : ℕ := jobId.toNat?.getD 0

/-- The last few jobs, by number. -/
def keepRecentJobs (jobs : Keyed String MiningJob) : Keyed String MiningJob :=
  if 10 < jobs.rows.length then
    let ids := (jobs.rows.map (·.1)).insertionSort (fun a b => jobNumber a ≤ jobNumber b)
    let old := ids.take (ids.length - 3)
    jobs.filter (fun id _ => decide (id ∉ old))
  else jobs

namespace JobManager

variable (sha256d : Bytes → Bytes32)

/-- A manager that has seen no template. -/
def new (coinbaseTag : Option Bytes) (now : ℚ) : JobManager where
  coinbaseTag := coinbaseTag
  jobs := Keyed.empty
  jobCounter := 1
  lastPrevHash := ""
  lastNonCleanBroadcast := now
  lastLongpollid := none
  latestNotify := none
  lastBroadcastTxCount := 0

/-- Cache a job and announce it. -/
def announce (m : JobManager) (job : MiningJob) (cleanJobs : Bool) (txCount : ℕ) : JobManager :=
  { m with
    jobs := m.jobs.upsert job.jobId job
    latestNotify := some (job.toNotify cleanJobs)
    lastBroadcastTxCount := txCount }

/-- The next job, built from `template`. -/
def nextJob (m : JobManager) (template : BlockTemplate) : MiningJob :=
  MiningJob.fromTemplate sha256d template (toString m.jobCounter)

/-- The race-to-tip announcement: a clean job without transactions.  A refused tag skips it. -/
def broadcastEmptyBlock (inject : Inject) (m : JobManager) (template : BlockTemplate) :
    List MiningJob × JobManager :=
  match tagTemplate inject m.coinbaseTag template.emptied with
  | .error _ => ([], m)
  | .ok empty =>
    let job := m.nextJob sha256d empty
    ([job], { m with jobCounter := bumpCounter m.jobCounter }.announce job true 0)

/-- One fetched template: whether it is a new tip, and the announcements with their clean flags. -/
structure Processed where
  isNewBlock : Bool
  broadcasts : List (MiningJob × Bool)
  manager : JobManager

/-- Detect a new block, inject the tag, create the job, announce it. -/
def processTemplate (injectEmpty inject : Inject) (now : ℚ) (m : JobManager)
    (template : BlockTemplate) : Processed :=
  let m := { m with lastLongpollid := template.longpollid }
  let isNewBlock := decide (m.lastPrevHash ≠ template.previousblockhash)
  let sentEmptyBlock := isNewBlock && template.transactions.isEmpty
  let (early, m) := if sentEmptyBlock then m.broadcastEmptyBlock sha256d injectEmpty template
    else ([], m)
  let txCount := template.transactions.length
  let upgradeEmpty := !isNewBlock && decide (0 < txCount) && m.lastBroadcastTxCount == 0
  let shouldBroadcast := isNewBlock || upgradeEmpty ||
    decide (nonCleanJobIntervalSecs ≤ ⌊now - m.lastNonCleanBroadcast⌋)
  if !shouldBroadcast then ⟨false, early.map (·, true), m⟩
  else
    -- a refused tag leaves the node's coinbase
    let tagged := (tagTemplate inject m.coinbaseTag template).toOption.getD template
    let job := m.nextJob sha256d tagged
    let cleanJobs := (isNewBlock && !sentEmptyBlock) || upgradeEmpty
    let m := { m with jobCounter := bumpCounter m.jobCounter }
    let m := if isNewBlock then
        { m with jobs := keepRecentJobs m.jobs, lastPrevHash := template.previousblockhash }
      else { m with lastNonCleanBroadcast := now }
    ⟨isNewBlock, early.map (·, true) ++ [(job, cleanJobs)], m.announce job cleanJobs txCount⟩

end JobManager

/-! ## What the tag leaves alone -/

theorem tagTemplate_cases {inject : Inject} {tag : Option Bytes} {template tagged : BlockTemplate}
    (h : tagTemplate inject tag template = .ok tagged) :
    (tagged = template ∧ (tag = none ∨ template.coinbasetxn = none)) ∨
      ∃ bs cb result, tag = some bs ∧ template.coinbasetxn = some cb ∧
        inject cb.data bs template.chainHistoryRoot template.txAuthDigests = .ok result ∧
        tagged = template.setInjection cb result := by
  cases tag with
  | none =>
    cases h
    exact .inl ⟨rfl, .inl rfl⟩
  | some bs =>
    cases hcb : template.coinbasetxn with
    | none =>
      simp only [tagTemplate, hcb] at h
      cases h
      exact .inl ⟨rfl, .inr rfl⟩
    | some cb =>
      simp only [tagTemplate, hcb] at h
      cases hinj : inject cb.data bs template.chainHistoryRoot template.txAuthDigests with
      | error e =>
        rw [hinj] at h
        cases h
      | ok result =>
        rw [hinj] at h
        cases h
        exact .inr ⟨bs, cb, result, rfl, rfl, hinj, rfl⟩

/-- Transactions and previous hash stay. -/
theorem setInjection_frame (template : BlockTemplate) (cb : CoinbaseTxn)
    (result : InjectionResult) :
    (template.setInjection cb result).transactions = template.transactions ∧
      (template.setInjection cb result).previousblockhash = template.previousblockhash := by
  unfold BlockTemplate.setInjection
  cases result.newTxid <;> cases result.newBlockCommitments <;> exact ⟨rfl, rfl⟩

theorem tagTemplate_frame {inject : Inject} {tag : Option Bytes} {template tagged : BlockTemplate}
    (h : tagTemplate inject tag template = .ok tagged) :
    tagged.transactions = template.transactions ∧
      tagged.previousblockhash = template.previousblockhash := by
  rcases tagTemplate_cases h with ⟨rfl, -⟩ | ⟨bs, cb, result, -, -, -, rfl⟩
  · exact ⟨rfl, rfl⟩
  · exact setInjection_frame template cb result

/-- The template the job is built from when the tag may be refused. -/
theorem taggedOrNot_frame (inject : Inject) (tag : Option Bytes) (template : BlockTemplate) :
    ((tagTemplate inject tag template).toOption.getD template).transactions
        = template.transactions ∧
      ((tagTemplate inject tag template).toOption.getD template).previousblockhash
        = template.previousblockhash := by
  cases h : tagTemplate inject tag template with
  | error e => exact ⟨rfl, rfl⟩
  | ok tagged => exact tagTemplate_frame h

end ZcashMiningPool
