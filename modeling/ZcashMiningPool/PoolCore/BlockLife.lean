import ZcashMiningPool.Db.Blocks
import ZcashMiningPool.Library.Run
import ZcashMiningPool.PoolCore.Share
import ZcashMiningPool.Rewards.Pplns

/-!
# The life of a found block

Four places decide what becomes of a block the pool has found: the path of `validate_share` that
submits and records it, the task this path spawns, `startup_block_sweep`, and the dashboard's
`check_block_maturity`.  They are one machine here: two processes over one database, cut at every
database call and every question to the node; any database call may fail.

* `verifyBlockInclusion`, `maturityMatches` — how the node's answer is read.
* `FoundPc`, `TaskPc`, `StartupPc` — where the pool process stands; the sweep ends before the
  process serves miners, and a crash loses all of it.
* `MaturityPc` — where the dashboard stands.
* `BlockLife.step` — one step; a label that does not fit the counters changes nothing.
-/

set_option autoImplicit false

namespace ZcashMiningPool

open Table

/-! ## Reading the node's answer -/

/-- A hexadecimal text with its bytes in the opposite order; what is not hexadecimal counts as no
    bytes. -/
def reverseHexBytes (s : String) : String :=
  Text.hexEncode ((Text.hexDecode s).getD []).reverse

/-- `answer` is the first answer of three tries at `getblockhash`, or `none` when all failed. -/
def verifyBlockInclusion (answer : Option String) (ourHashHex : String) : InclusionCheck :=
  match answer with
  | none => .unknown
  | some chainHash =>
    if chainHash.toLower = ourHashHex.toLower ∨
        chainHash.toLower = reverseHexBytes ourHashHex.toLower then .verified
    else .mismatch

/-- The comparison of `check_block_maturity`. -/
def maturityMatches (chainHash hash : String) : Bool :=
  chainHash == reverseHexBytes hash || chainHash == hash

/-! ## The pool process -/

/-- What the submit path knows of a block it found. -/
structure WonBlock where
  height : ℤ
  hash : String
  workerId : WorkerId
  reward : ℤ
  actualReward : Option ℤ
  deriving DecidableEq, Repr

/-- What its distribution pays out. -/
def WonBlock.basis (b : WonBlock) : ℤ := b.actualReward.getD b.reward

inductive FoundPc where
  | idle
  /-- The breadcrumb is written, if it could be; next `submitblock`. -/
  | submitting (b : WonBlock) (crumb : Option ℕ)
  /-- `submitblock` failed; next the inclusion check. -/
  | checking (b : WonBlock) (crumb : Option ℕ)
  | rejecting (crumb : Option ℕ)
  /-- Next `record_block`. -/
  | recording (b : WonBlock) (crumb : Option ℕ)
  /-- The row is written; next its breadcrumb, and the task. -/
  | recorded (b : WonBlock) (crumb : Option ℕ) (blockId : BlockId)
  deriving DecidableEq, Repr

/-- The task that is spawned for a recorded block. -/
inductive TaskPc where
  | checking (b : WonBlock) (blockId : BlockId)
  /-- The block lost the height race; next the plain status flip. -/
  | orphaning (blockId : BlockId)
  | computing (b : WonBlock) (blockId : BlockId)
  /-- Next the recovery of costs. -/
  | taking (b : WonBlock) (blockId : BlockId)
  /-- Next the lookup of who is paid. -/
  | weighing (b : WonBlock) (blockId : BlockId) (netReward : ℤ)
  /-- Next the credits. -/
  | crediting (blockId : BlockId) (rewards : List PplnsReward)
  | done
  deriving DecidableEq, Repr

/-- `startup_block_sweep`. -/
inductive StartupPc where
  /-- Open submissions still to settle. -/
  | crumbs (rest : List (ℕ × BlockSubmission))
  /-- On the best chain; next the lookup, and the row if there is none: nobody else inserts one. -/
  | recovering (id : ℕ) (r : BlockSubmission) (rest : List (ℕ × BlockSubmission))
  | settling (id : ℕ) (outcome : String) (rest : List (ℕ × BlockSubmission))
  /-- Blocks without credits still to distribute. -/
  | missing (rest : List (BlockId × ℤ × ℤ × WorkerId))
  | weighing (blockId : BlockId) (netReward : ℤ) (foundBy : WorkerId)
      (rest : List (BlockId × ℤ × ℤ × WorkerId))
  | crediting (blockId : BlockId) (rewards : List PplnsReward)
      (rest : List (BlockId × ℤ × ℤ × WorkerId))
  deriving DecidableEq, Repr

inductive PoolPc where
  | down
  | starting (pc : StartupPc)
  | serving (found : FoundPc) (tasks : List TaskPc)
  deriving DecidableEq, Repr

/-- `check_block_maturity`. -/
inductive MaturityPc where
  | idle
  /-- The node's block count is known; next the pending blocks. -/
  | counted (count : ℤ)
  | blocks (count : ℤ) (rest : List (BlockId × Block))
  | confirming (count : ℤ) (blockId : BlockId) (rest : List (BlockId × Block))
  | orphaning (count : ℤ) (blockId : BlockId) (b : Block) (rest : List (BlockId × Block))
  | acknowledging (count : ℤ) (blockId : BlockId) (rest : List (BlockId × Block))
  deriving DecidableEq, Repr

/-- The settings of both processes. -/
structure BlockLifeConfig where
  pplns : PplnsCalculator
  maturityConfirmations : ℕ
  payImmature : Bool

structure BlockLife where
  db : PoolDb
  pool : PoolPc
  maturity : MaturityPc

inductive BlockLifeOp where
  /-- Everything else the pool does to its database. -/
  | world (other : PoolDb)
  | crash
  | start
  | find (b : WonBlock) (crumbWritten : Bool)
  | submitted (accepted : Bool)
  | foundChecked (answer : Option String)
  | foundDb
  /-- The database call that is next fails. -/
  | foundFailed
  | taskChecked (i : ℕ) (answer : Option String)
  | taskLuck (i : ℕ) (luckPercent : Option ℚ)
  | taskDb (i : ℕ)
  | taskFailed (i : ℕ)
  | sweepChecked (answer : Option String)
  | sweepDb
  | sweepFailed
  /-- The process ends, or a call of the check fails. -/
  | crashDashboard
  | counted (answer : Option ℤ)
  | askedHash (answer : Option String)
  | maturityDb

namespace BlockLife

def start : BlockLife := ⟨PoolDb.empty, .down, .idle⟩

/-! ## The submit path -/

def find (s : BlockLife) (b : WonBlock) (crumbWritten : Bool) : BlockLife :=
  match s.pool with
  | .serving .idle tasks =>
    if crumbWritten then
      let r := s.db.recordBlockSubmission b.height b.hash b.workerId b.reward b.actualReward
      { s with db := r.2, pool := .serving (.submitting b (some r.1)) tasks }
    else { s with pool := .serving (.submitting b none) tasks }
  | _ => s

/-- The reply of `submitblock`; an error is not a rejection. -/
def submitted (s : BlockLife) (accepted : Bool) : BlockLife :=
  match s.pool with
  | .serving (.submitting b crumb) tasks =>
    { s with
      pool := .serving (if accepted then .recording b crumb else .checking b crumb) tasks }
  | _ => s

def foundChecked (s : BlockLife) (answer : Option String) : BlockLife :=
  match s.pool with
  | .serving (.checking b crumb) tasks =>
    match verifyBlockInclusion answer b.hash with
    | .mismatch => { s with pool := .serving (.rejecting crumb) tasks }
    | .unknown => { s with pool := .serving .idle tasks }
    | .verified => { s with pool := .serving (.recording b crumb) tasks }
  | _ => s

/-- A breadcrumb is settled, when there is one. -/
def resolve (db : PoolDb) (crumb : Option ℕ) (outcome : String) : PoolDb :=
  match crumb with
  | some id => db.resolveBlockSubmission id outcome
  | none => db

def foundDb (s : BlockLife) : BlockLife :=
  match s.pool with
  | .serving (.rejecting crumb) tasks =>
    { s with db := resolve s.db crumb "rejected", pool := .serving .idle tasks }
  | .serving (.recording b crumb) tasks =>
    match s.db.recordBlock b.height b.hash b.reward b.actualReward b.workerId none with
    | .ok (blockId, db) => { s with db := db, pool := .serving (.recorded b crumb blockId) tasks }
    -- The breadcrumb stays open.
    | .error _ => { s with pool := .serving .idle tasks }
  | .serving (.recorded b crumb blockId) tasks =>
    { s with
      db := resolve s.db crumb "recorded"
      pool := .serving .idle (tasks ++ [.checking b blockId]) }
  | _ => s

def foundFailed (s : BlockLife) : BlockLife :=
  match s.pool with
  | .serving (.rejecting _) tasks => { s with pool := .serving .idle tasks }
  | .serving (.recording _ _) tasks => { s with pool := .serving .idle tasks }
  | .serving (.recorded b _ blockId) tasks =>
    { s with pool := .serving .idle (tasks ++ [.checking b blockId]) }
  | _ => s

/-! ## The task -/

/-- The task at place `i`. -/
def task? (s : BlockLife) (i : ℕ) : Option TaskPc :=
  match s.pool with
  | .serving _ tasks => tasks[i]?
  | _ => none

def setTask (s : BlockLife) (found : FoundPc) (tasks : List TaskPc) (i : ℕ) (pc : TaskPc) :
    BlockLife :=
  { s with pool := .serving found (tasks.set i pc) }

def taskChecked (s : BlockLife) (i : ℕ) (answer : Option String) : BlockLife :=
  match s.pool with
  | .serving found tasks =>
    match tasks[i]? with
    | some (.checking b blockId) =>
      if verifyBlockInclusion answer b.hash = .mismatch then
        s.setTask found tasks i (.orphaning blockId)
      else s.setTask found tasks i (.computing b blockId)
    | _ => s
  | _ => s

/-- The luck figure, when it could be computed. -/
def taskLuck (s : BlockLife) (i : ℕ) (luckPercent : Option ℚ) : BlockLife :=
  match s.pool with
  | .serving found tasks =>
    match tasks[i]? with
    | some (.computing b blockId) =>
      { s.setTask found tasks i (.taking b blockId) with
        db := match luckPercent with
          | some luck => s.db.updateBlockLuck blockId luck
          | none => s.db }
    | _ => s
  | _ => s

/-- The credits of a distribution; a failure leaves the block to the next sweep. -/
def credit (db : PoolDb) (blockId : BlockId) (rewards : List PplnsReward) : PoolDb :=
  match PplnsCalculator.commit db blockId rewards with
  | .ok db' => db'
  | .error _ => db

def taskDb (c : PplnsCalculator) (s : BlockLife) (i : ℕ) : BlockLife :=
  match s.pool with
  | .serving found tasks =>
    match tasks[i]? with
    | some (.orphaning blockId) =>
      { s.setTask found tasks i .done with db := s.db.updateBlockStatus blockId .orphaned }
    | some (.taking b blockId) =>
      let taken := s.db.takeCostsForBlock blockId (b.basis.tdiv 50)
      { s.setTask found tasks i (.weighing b blockId (b.basis - taken.1)) with db := taken.2 }
    | some (.weighing b blockId netReward) =>
      match c.rewards s.db netReward b.workerId with
      | .ok rewards => s.setTask found tasks i (.crediting blockId rewards)
      | .error _ => s.setTask found tasks i .done
    | some (.crediting blockId rewards) =>
      { s.setTask found tasks i .done with db := credit s.db blockId rewards }
    | _ => s
  | _ => s

def taskFailed (s : BlockLife) (i : ℕ) : BlockLife :=
  match s.pool with
  | .serving found tasks =>
    match tasks[i]? with
    | some (.orphaning _) => s.setTask found tasks i .done
    | some (.taking _ _) => s.setTask found tasks i .done
    | some (.weighing _ _ _) => s.setTask found tasks i .done
    | some (.crediting _ _) => s.setTask found tasks i .done
    | _ => s
  | _ => s

/-! ## The startup sweep -/

def startSweep (s : BlockLife) : BlockLife :=
  match s.pool with
  | .down => { s with pool := .starting (.crumbs s.db.getOpenBlockSubmissions) }
  | _ => s

def sweepChecked (s : BlockLife) (answer : Option String) : BlockLife :=
  match s.pool with
  | .starting (.crumbs ((id, r) :: rest)) =>
    match verifyBlockInclusion answer r.hash with
    | .verified => { s with pool := .starting (.recovering id r rest) }
    | .mismatch => { s with pool := .starting (.settling id "swept-rejected" rest) }
    | .unknown => { s with pool := .starting (.crumbs rest) }
  | _ => s

def sweepDb (c : PplnsCalculator) (s : BlockLife) : BlockLife :=
  match s.pool with
  | .starting (.crumbs []) =>
    { s with pool := .starting (.missing (s.db.getRecentBlocksMissingCredits 7)) }
  | .starting (.recovering id r rest) =>
    if (s.db.getBlockIdByHash r.hash).isSome then
      { s with pool := .starting (.settling id "swept-recorded" rest) }
    else
      match s.db.recordBlock r.height r.hash r.reward r.actualReward r.workerId none with
      | .ok (_, db) =>
        { s with db := db, pool := .starting (.settling id "swept-recorded" rest) }
      | .error _ => { s with pool := .starting (.crumbs rest) }
  | .starting (.settling id outcome rest) =>
    { s with db := s.db.resolveBlockSubmission id outcome, pool := .starting (.crumbs rest) }
  | .starting (.missing []) => { s with pool := .serving .idle [] }
  | .starting (.missing ((blockId, _, basis, foundBy) :: rest)) =>
    let taken := s.db.takeCostsForBlock blockId (basis.tdiv 50)
    { s with
      db := taken.2
      pool := .starting (.weighing blockId (basis - taken.1) foundBy rest) }
  | .starting (.weighing blockId netReward foundBy rest) =>
    match c.rewards s.db netReward foundBy with
    | .ok rewards => { s with pool := .starting (.crediting blockId rewards rest) }
    | .error _ => { s with pool := .starting (.missing rest) }
  | .starting (.crediting blockId rewards rest) =>
    { s with db := credit s.db blockId rewards, pool := .starting (.missing rest) }
  | _ => s

/-- Before the start, it is the query of the open submissions that fails. -/
def sweepFailed (s : BlockLife) : BlockLife :=
  match s.pool with
  | .down => { s with pool := .starting (.crumbs []) }
  | .starting (.crumbs []) => { s with pool := .serving .idle [] }
  | .starting (.recovering _ _ rest) => { s with pool := .starting (.crumbs rest) }
  | .starting (.settling _ _ rest) => { s with pool := .starting (.crumbs rest) }
  | .starting (.missing (_ :: rest)) => { s with pool := .starting (.missing rest) }
  | .starting (.weighing _ _ _ rest) => { s with pool := .starting (.missing rest) }
  | .starting (.crediting _ _ rest) => { s with pool := .starting (.missing rest) }
  | _ => s

/-! ## The maturity check -/

def counted (s : BlockLife) (answer : Option ℤ) : BlockLife :=
  match s.maturity, answer with
  | .idle, some count => { s with maturity := .counted count }
  | _, _ => s

/-- `getblockhash` for the next mature block; an error ends the check. -/
def askedHash (s : BlockLife) (answer : Option String) : BlockLife :=
  match s.maturity with
  | .blocks count ((blockId, b) :: rest) =>
    match answer with
    | none => { s with maturity := .idle }
    | some chainHash =>
      if maturityMatches chainHash b.hash then
        { s with maturity := .confirming count blockId rest }
      else { s with maturity := .orphaning count blockId b rest }
  | _ => s

/-- The next mature block of the list; the others are skipped. -/
def nextMature (cfg : BlockLifeConfig) (count : ℤ) : List (BlockId × Block) → MaturityPc
  | [] => .idle
  | e :: rest =>
    if count - e.2.height < cfg.maturityConfirmations then nextMature cfg count rest
    else .blocks count (e :: rest)

def maturityDb (cfg : BlockLifeConfig) (s : BlockLife) : BlockLife :=
  match s.maturity with
  | .counted count => { s with maturity := nextMature cfg count s.db.getPendingBlocks }
  | .confirming count blockId rest =>
    { s with
      db := s.db.updateBlockStatus blockId .confirmed
      maturity := nextMature cfg count rest }
  | .orphaning count blockId b rest =>
    match s.db.orphanBlock blockId b.reward with
    | .error _ => { s with maturity := .idle }
    | .ok (outcome, db) =>
      { s with
        db := db
        maturity :=
          if cfg.payImmature && outcome.any (fun out => decide (0 < out.2)) then
            .acknowledging count blockId rest
          else nextMature cfg count rest }
  | .acknowledging count blockId rest =>
    { s with
      db := s.db.acknowledgeClawbacksForBlock blockId
        "absorbed from reserve (immediate-payout policy)"
      maturity := nextMature cfg count rest }
  | _ => s

/-! ## The machine -/

/-- Everything but the tables of this module may change. -/
def world (s : BlockLife) (other : PoolDb) : BlockLife :=
  { s with
    db := { other with
      blocks := s.db.blocks
      blockCredits := s.db.blockCredits
      blockSubmissions := s.db.blockSubmissions } }

def step (cfg : BlockLifeConfig) (s : BlockLife) : BlockLifeOp → BlockLife
  | .world other => s.world other
  | .crash => { s with pool := .down }
  | .start => s.startSweep
  | .find b crumbWritten => s.find b crumbWritten
  | .submitted accepted => s.submitted accepted
  | .foundChecked answer => s.foundChecked answer
  | .foundDb => s.foundDb
  | .foundFailed => s.foundFailed
  | .taskChecked i answer => s.taskChecked i answer
  | .taskLuck i luckPercent => s.taskLuck i luckPercent
  | .taskDb i => taskDb cfg.pplns s i
  | .taskFailed i => s.taskFailed i
  | .sweepChecked answer => s.sweepChecked answer
  | .sweepDb => sweepDb cfg.pplns s
  | .sweepFailed => s.sweepFailed
  | .crashDashboard => { s with maturity := .idle }
  | .counted answer => s.counted answer
  | .askedHash answer => s.askedHash answer
  | .maturityDb => maturityDb cfg s

end BlockLife

end ZcashMiningPool
