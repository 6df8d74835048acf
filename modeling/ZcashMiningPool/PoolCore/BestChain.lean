import ZcashMiningPool.PoolCore.BlockLife

/-!
# Found blocks and the best chain

The machine of `BlockLife` beside a node that tells the truth about a best chain.  The chain is
fixed `maturity_confirmations` below its tip and may be reorganised above.

* `Chronicle` — the chain, and what has happened: which blocks were found, and for which an
  inclusion check has answered `Mismatch`.
* `ChainBooks` — the machine with its chronicle; `swept` and `checked` collect the blocks that a
  completed sweep and a completed maturity check have dealt with.
* `Truthful` — what the node may answer; `Legal` — which steps there are.
* `ReturnsNone` — no reorganisation brings a denied block back.
* `Agrees` — what the books must say of a block.
-/

set_option autoImplicit false

namespace ZcashMiningPool

open Table

def WonBlock.key (b : WonBlock) : BlockKey := ⟨b.height, b.hash⟩

/-! ## The chain -/

structure Chronicle where
  /-- The block hashes from height 0 on, with their bytes as the node prints them. -/
  chain : List (List UInt8)
  /-- Up to here the chain is fixed. -/
  final : ℤ
  found : List BlockKey
  /-- An inclusion check has answered `Mismatch`. -/
  denied : List BlockKey

namespace Chronicle

/-- `getblockcount`. -/
def tip (g : Chronicle) : ℤ := g.chain.length - 1

def hashAt (g : Chronicle) (height : ℤ) : Option (List UInt8) :=
  if 0 ≤ height then g.chain[height.toNat]? else none

/-- The hash is on the best chain at its height; the pool and the node write the bytes in
    opposite orders, and both are read. -/
def OnChain (g : Chronicle) (k : BlockKey) : Prop :=
  ∃ bs ∈ g.hashAt k.height, k.hash = Text.hexEncode bs ∨ k.hash = Text.hexEncode bs.reverse

instance (g : Chronicle) (k : BlockKey) : Decidable (g.OnChain k) :=
  inferInstanceAs (Decidable (∃ bs ∈ g.hashAt k.height,
    k.hash = Text.hexEncode bs ∨ k.hash = Text.hexEncode bs.reverse))

/-- `getblockhash`: an outage, or the hash at this height. -/
def Truthful (g : Chronicle) (height : ℤ) (answer : Option String) : Prop :=
  answer = none ∨ answer = (g.hashAt height).map Text.hexEncode

instance (g : Chronicle) (height : ℤ) (answer : Option String) :
    Decidable (g.Truthful height answer) :=
  inferInstanceAs (Decidable (answer = none ∨ answer = (g.hashAt height).map Text.hexEncode))

/-- Another chain is the best one. -/
def reorganise (g : Chronicle) (maturityConfirmations : ℕ) (chain : List (List UInt8)) :
    Chronicle :=
  { g with
    chain := chain
    final := max g.final (chain.length - 1 - maturityConfirmations) }

end Chronicle

/-! ## The machine and its chronicle -/

structure ChainBooks where
  life : BlockLife
  past : Chronicle
  /-- The mature blocks found before the running sweep began; none when it has missed an answer. -/
  sweepCover : Option (List BlockKey)
  swept : List BlockKey
  /-- The blocks the running check must decide. -/
  checkCover : List BlockKey
  checked : List BlockKey

inductive ChainOp where
  /-- The chain grows, or is replaced above what is fixed. -/
  | reorganise (chain : List (List UInt8))
  | life (op : BlockLifeOp)

/-- The answer to `getblockcount`. -/
def BlockLifeOp.countAnswered : BlockLifeOp → Option ℤ
  | .counted answer => answer
  | _ => none

namespace BlockLife

/-- The block that a step finds. -/
def newlyFound (s : BlockLife) : BlockLifeOp → List BlockKey
  | .find b _ =>
    match s.pool with
    | .serving .idle _ => [b.key]
    | _ => []
  | _ => []

/-- The block whose inclusion is checked, and the node's answer. -/
def inclusionAsked (s : BlockLife) : BlockLifeOp → Option (BlockKey × Option String)
  | .foundChecked answer =>
    match s.pool with
    | .serving (.checking b _) _ => some (b.key, answer)
    | _ => none
  | .taskChecked i answer =>
    match s.task? i with
    | some (.checking b _) => some (b.key, answer)
    | _ => none
  | .sweepChecked answer =>
    match s.pool with
    | .starting (.crumbs ((_, c) :: _)) => some (c.key, answer)
    | _ => none
  | _ => none

/-- The height whose block hash the node is asked for, and its answer. -/
def hashAsked (s : BlockLife) (op : BlockLifeOp) : Option (ℤ × Option String) :=
  match op, s.maturity with
  | .askedHash answer, .blocks _ ((_, b) :: _) => some (b.height, answer)
  | op, _ => (s.inclusionAsked op).map (fun q => (q.1.height, q.2))

def newlyDenied (s : BlockLife) (op : BlockLifeOp) : List BlockKey :=
  match s.inclusionAsked op with
  | some (k, answer) => if verifyBlockInclusion answer k.hash = .mismatch then [k] else []
  | none => []

/-- The sweep meets an outage, or a call of it fails. -/
def sweepMisses (c : PplnsCalculator) (s : BlockLife) : BlockLifeOp → Bool
  | .crash => true
  | .sweepChecked answer =>
    match s.pool with
    | .starting (.crumbs ((_, r) :: _)) => verifyBlockInclusion answer r.hash = .unknown
    | _ => false
  | .sweepDb =>
    match s.pool, (sweepDb c s).pool with
    | .starting (.recovering _ _ _), .starting (.crumbs _) => true
    | _, _ => false
  | .sweepFailed => true
  | _ => false

/-- The sweep ends with this step. -/
def sweepEnds (s : BlockLife) : BlockLifeOp → Bool
  | .sweepDb => s.pool = .starting (.missing [])
  | _ => false

/-- The maturity check ends with this step, and not by an error. -/
def checkEnds (cfg : BlockLifeConfig) (s : BlockLife) : BlockLifeOp → Bool
  | .maturityDb =>
    match s.maturity with
    | .idle => false
    | .blocks _ _ => false
    | .orphaning _ blockId b _ =>
      (s.db.orphanBlock blockId b.reward).isOk && (maturityDb cfg s).maturity == .idle
    | _ => (maturityDb cfg s).maturity == .idle
  | _ => false

end BlockLife

namespace ChainBooks

def start (cfg : BlockLifeConfig) (chain : List (List UInt8)) : ChainBooks where
  life := BlockLife.start
  past := ⟨chain, chain.length - 1 - cfg.maturityConfirmations, [], []⟩
  sweepCover := none
  swept := []
  checkCover := []
  checked := []

/-- What a sweep that starts now has to settle: the blocks that are mature. -/
def sweepCoverAfter (cfg : BlockLifeConfig) (s : ChainBooks) (op : BlockLifeOp) :
    Option (List BlockKey) :=
  if s.life.sweepMisses cfg.pplns op then none
  else
    match op, s.life.pool with
    | .start, .down => some (s.past.found.filter (fun k => decide (k.height ≤ s.past.final)))
    | _, _ => s.sweepCover

/-- What a check decides that lists the pending blocks now: the blocks that its count makes
    mature, if their row is there or a sweep has dealt with them.  Another one has to wait for
    the next check. -/
def checkCoverAfter (cfg : BlockLifeConfig) (s : ChainBooks) (op : BlockLifeOp) : List BlockKey :=
  match op, s.life.maturity with
  | .maturityDb, .counted count =>
    s.past.found.filter (fun k => decide (cfg.maturityConfirmations ≤ count - k.height) &&
      ((s.life.db.getBlockIdByHash k.hash).isSome || decide (k ∈ s.swept)))
  | _, _ => s.checkCover

def pastAfter (s : ChainBooks) (op : BlockLifeOp) : Chronicle :=
  { s.past with
    found := s.past.found ++ s.life.newlyFound op
    denied := s.past.denied ++ s.life.newlyDenied op }

def step (cfg : BlockLifeConfig) (s : ChainBooks) : ChainOp → ChainBooks
  | .reorganise chain => { s with past := s.past.reorganise cfg.maturityConfirmations chain }
  | .life op =>
    { life := s.life.step cfg op
      past := s.pastAfter op
      sweepCover := s.sweepCoverAfter cfg op
      swept := s.swept ++ if s.life.sweepEnds op then s.sweepCover.getD [] else []
      checkCover := s.checkCoverAfter cfg op
      checked := s.checked ++ if s.life.checkEnds cfg op then s.checkCoverAfter cfg op else [] }

/-! ## Which steps there are -/

/-- The node answers with the chain as it is, or not at all. -/
def Truthful (s : ChainBooks) (op : BlockLifeOp) : Prop :=
  (∀ q ∈ s.life.hashAsked op, s.past.Truthful q.1 q.2) ∧
    ∀ count ∈ op.countAnswered, count = s.past.tip

/-- A block is found with its breadcrumb; its hash is the text of its bytes, and no two blocks
    of different heights have one hash. -/
def WellFound (s : ChainBooks) : BlockLifeOp → Prop
  | .find b crumbWritten =>
    crumbWritten = true ∧ (Text.hexDecode b.hash).map Text.hexEncode = some b.hash ∧
      ∀ k ∈ s.past.found, k.hash = b.hash → k.height = b.height
  | _ => True

def Legal (s : ChainBooks) : ChainOp → Prop
  | .reorganise chain =>
    chain.take (s.past.final + 1).toNat = s.past.chain.take (s.past.final + 1).toNat
  | .life op => s.Truthful op ∧ s.WellFound op

/-- No block for which an inclusion check has answered `Mismatch` comes onto the best chain. -/
def ReturnsNone (cfg : BlockLifeConfig) (s : ChainBooks) : ChainOp → Prop
  | .reorganise chain =>
    ∀ k ∈ s.past.denied, ¬ (s.past.reorganise cfg.maturityConfirmations chain).OnChain k
  | .life _ => True

instance (s : ChainBooks) (op : BlockLifeOp) : Decidable (s.WellFound op) := by
  unfold WellFound
  cases op <;> exact inferInstance

instance (s : ChainBooks) (op : ChainOp) : Decidable (s.Legal op) := by
  unfold Legal Truthful
  cases op <;> exact inferInstance

instance (cfg : BlockLifeConfig) (s : ChainBooks) (op : ChainOp) :
    Decidable (s.ReturnsNone cfg op) := by
  unfold ReturnsNone
  cases op <;> exact inferInstance

/-! ## What the books must say -/

/-- How many confirmed rows have this hash. -/
def confirmedRows (db : PoolDb) (hash : String) : ℕ :=
  db.blocks.values.countP (fun r => r.hash == hash && r.status == .confirmed)

def Agrees (s : ChainBooks) (k : BlockKey) : Prop :=
  confirmedRows s.life.db k.hash = if s.past.OnChain k then 1 else 0

/-- The books agree with the chain on every block that is swept and checked. -/
def MatureBooks (s : ChainBooks) : Prop :=
  ∀ k ∈ s.past.found, k ∈ s.swept → k ∈ s.checked → s.Agrees k

instance (s : ChainBooks) (k : BlockKey) : Decidable (s.Agrees k) :=
  inferInstanceAs (Decidable (confirmedRows s.life.db k.hash = if s.past.OnChain k then 1 else 0))

instance (s : ChainBooks) : Decidable s.MatureBooks :=
  inferInstanceAs (Decidable (∀ k ∈ s.past.found, k ∈ s.swept → k ∈ s.checked → s.Agrees k))

end ChainBooks

end ZcashMiningPool
