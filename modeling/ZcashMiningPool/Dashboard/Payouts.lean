import ZcashMiningPool.Db.Payouts
import ZcashMiningPool.Db.Costs
import ZcashMiningPool.Library.Run

/-!
# The payout saga

`process_payouts` with `wait_for_operation`, the reconciler's `reconcile_reserved_payouts` and
`check_phantom_payouts`, as one machine: two program counters over one database, cut at every
database call and every request to the wallet or the node.

* `LoopPc`, `SweepPc` — where the payout loop and the reconciler stand; a crash resets both.
* `OperationStatus`, `NodeAnswer`, … — what wallet and node may answer.
* `Fate` — what became of an attempt outside the pool: the request the wallet received and its
  transaction.  The pool never reads it.
* `Saga.step` — one step; a label that does not fit the counters changes nothing.
* `Legal` — what the wallet and the node are trusted for.

Which miners a round pays, and in what amounts, is an input of the round: the selection before
`create_payout_attempt` reads the database and the wallet's balance and writes nothing.
-/

set_option autoImplicit false

namespace ZcashMiningPool

open Table

/-! ## Answers of the wallet and the node -/

/-- A value in a JSON answer, as far as `as_str` sees it. -/
inductive JsonValue where
  | text (s : String)
  | other
  deriving DecidableEq, Repr

def JsonValue.asStr : JsonValue → Option String
  | .text s => some s
  | .other => none

/-- `result` of a successful operation; `none` when the key is absent. -/
structure OperationResult where
  txid : Option JsonValue
  txids : Option (List JsonValue)
  deriving DecidableEq, Repr

namespace OperationResult

/-- What `wait_for_operation` reads: `txid`, and the first of `txids` when that key is absent. -/
def readTxid (r : OperationResult) : Option String :=
  (r.txid.or (r.txids.bind List.head?)).bind JsonValue.asStr

/-- What the reconciler reads: only `txid`. -/
def plainTxid (r : OperationResult) : Option String := r.txid.bind JsonValue.asStr

theorem readTxid_of_plainTxid {r : OperationResult} {t : String} (h : r.plainTxid = some t) :
    r.readTxid = some t := by
  unfold plainTxid at h
  obtain ⟨v, hv, ht⟩ := Option.bind_eq_some_iff.1 h
  simp [readTxid, hv, ht]

end OperationResult

inductive OperationStatus where
  | success (result : OperationResult)
  | failed (message : Option String)
  /-- Executing, queued, or no readable status. -/
  | inFlight
  deriving DecidableEq, Repr

/-- `z_getoperationstatus`: an error, or the first entry of the list if it has one. -/
inductive StatusAnswer where
  | error (message : String)
  | statuses (first : Option OperationStatus)
  deriving DecidableEq, Repr

/-- `z_sendmany`: only a JSON-RPC error is an answer of the wallet. -/
inductive SendAnswer where
  | accepted (opid : String)
  | jsonRpc (message : String)
  | transport (message : String)
  deriving DecidableEq, Repr

/-- `getrawtransaction`; `notFound` is the JSON-RPC error −5. -/
inductive NodeAnswer where
  | found
  | notFound (message : String)
  | error (message : String)
  deriving DecidableEq, Repr

/-- A database call: whether the connection fails, and how an error prints. -/
structure DbCall where
  fails : Bool
  error : String
  deriving DecidableEq, Repr

/-- The result of a call, `none` for any error. -/
def DbCall.result {α : Type} (c : DbCall) (x : Except DbError α) : Option α :=
  if c.fails then none else x.toOption

theorem DbCall.result_eq_some {α : Type} {c : DbCall} {x : Except DbError α} {a : α}
    (h : c.result x = some a) : x = .ok a := by
  unfold result at h
  split at h
  · cases h
  · cases x with
    | error e => cases h
    | ok b => exact congrArg Except.ok (Option.some.inj h)

/-! ## What happens outside -/

/-- The transaction of an attempt. -/
inductive TxState where
  /-- There has been none so far. -/
  | unseen
  | dropped
  | mempool
  | mined
  deriving DecidableEq, Repr

/-- In the node's mempool or best chain. -/
def TxState.known : TxState → Bool
  | .mempool | .mined => true
  | _ => false

structure Fate where
  /-- The `z_sendmany` request, once the wallet has it: zatoshis per address. -/
  request : Option (List (String × ℤ))
  /-- The wallet said that there will be no transaction. -/
  dead : Bool
  /-- The node did not know the transaction when the attempt was an hour old. -/
  expired : Bool
  tx : TxState
  deriving DecidableEq, Repr

namespace Fate

def start : Fate := ⟨none, false, false, .unseen⟩

def Requested (f : Fate) : Prop := f.request.isSome = true

/-- No transaction of the attempt is mined from now on. -/
def Doomed (f : Fate) : Prop := f.dead = true ∨ f.expired = true

instance (f : Fate) : Decidable f.Requested := inferInstanceAs (Decidable (_ = true))

instance (f : Fate) : Decidable f.Doomed := inferInstanceAs (Decidable (_ ∨ _))

end Fate

/-- The names the wallet gives: to the operation of an attempt, and to its transaction. -/
structure Wallet where
  opidOf : AttemptId → String
  txidOf : AttemptId → String

/-! ## The program counters -/

/-- One entry of `payout_list`. -/
structure Destination where
  minerId : MinerId
  amount : ℤ
  address : String
  deriving DecidableEq, Repr

/-- A round with its attempt row. -/
structure PayoutRound where
  attempt : AttemptId
  payoutList : List Destination
  deriving DecidableEq, Repr

namespace PayoutRound

def items (p : PayoutRound) : List (MinerId × ℤ) :=
  p.payoutList.map (fun d => (d.minerId, d.amount))

/-- Send to exactly the miners actually reserved. -/
def restrict (p : PayoutRound) (reserved : List (MinerId × ℤ)) : PayoutRound :=
  { p with payoutList := p.payoutList.filter (fun d => reserved.any (fun e => e.1 == d.minerId)) }

/-- The destinations, each once, in order. -/
def addresses (p : PayoutRound) : List String :=
  (p.payoutList.map (·.address)).dedup.insertionSort (fun a b => a ≤ b)

/-- One amount per destination. -/
def merged (p : PayoutRound) : List (String × ℤ) :=
  p.addresses.map (fun addr =>
    (addr, ((p.payoutList.filter (fun d => d.address == addr)).map (·.amount)).sum))

/-- `estimate_payout_fee`. -/
def fee (p : PayoutRound) : ℤ := 5000 * max (p.addresses.length + 2) 2

end PayoutRound

inductive LoopPc where
  | idle
  /-- The attempt row exists; next `reserve_payout`. -/
  | created (p : PayoutRound)
  /-- Next the durable `submitting` mark. -/
  | reserved (p : PayoutRound)
  /-- Next `z_sendmany`. -/
  | submitting (p : PayoutRound)
  /-- The request is out. -/
  | sending (p : PayoutRound)
  /-- Next the write of the operation id. -/
  | accepted (p : PayoutRound) (opid : String)
  | waiting (p : PayoutRound) (opid : String)
  /-- Next `getrawtransaction`, at most `tries` times. -/
  | verifying (p : PayoutRound) (txid : String) (tries : ℕ)
  | costing (p : PayoutRound) (txid : String)
  | confirming (p : PayoutRound) (txid : String)
  | finishing (p : PayoutRound) (txid : String)
  /-- Leaves the reservation to the reconciler. -/
  | leaving (p : PayoutRound) (opid txid : Option String) (note : String)
  | refunding (p : PayoutRound) (note : String)
  | failing (p : PayoutRound) (note : String)
  deriving DecidableEq, Repr

inductive SweepPc where
  | idle
  | rows (rest : List PoolDb.ReservedAttempt)
  | askWallet (r : PoolDb.ReservedAttempt) (opid : String) (rest : List PoolDb.ReservedAttempt)
  | askNode (r : PoolDb.ReservedAttempt) (txid : String) (rest : List PoolDb.ReservedAttempt)
  /-- The node answered −5 at `repliedAt`; next the look at the attempt's age. -/
  | missing (r : PoolDb.ReservedAttempt) (repliedAt : ℕ) (rest : List PoolDb.ReservedAttempt)
  | refund (r : PoolDb.ReservedAttempt) (why : String) (rest : List PoolDb.ReservedAttempt)
  | markFailed (r : PoolDb.ReservedAttempt) (why : String) (rest : List PoolDb.ReservedAttempt)
  | confirm (r : PoolDb.ReservedAttempt) (txid : String) (rest : List PoolDb.ReservedAttempt)
  | markConfirmed (r : PoolDb.ReservedAttempt) (txid : String) (rest : List PoolDb.ReservedAttempt)
  | phantoms (rest : List (String × ℤ))
  | askPhantom (txid : String) (rest : List (String × ℤ))
  /-- The node answered −5 at `repliedAt`; next `void_reorged_payout`. -/
  | void (txid : String) (repliedAt : ℕ) (rest : List (String × ℤ))
  deriving DecidableEq, Repr

/-- Database, counters, and what happened outside. -/
structure Saga where
  db : PoolDb
  loop : LoopPc
  sweep : SweepPc
  fate : AttemptId → Fate
  /-- Attempts whose reserved funds were moved back to pending. -/
  returned : List AttemptId
  /-- Attempts that were confirmed, with the transaction they were confirmed by. -/
  settled : List (AttemptId × String)

inductive Label where
  /-- Anything else the pool does to its database, and time. -/
  | world (other : PoolDb) (seconds : ℕ)
  | crash
  | tx (attempt : AttemptId) (state : TxState)
  | startRound (payoutList : List Destination) (call : DbCall)
  | loopDb (call : DbCall)
  | sendmany
  | sendAnswer (answer : SendAnswer)
  | loopStatus (answer : StatusAnswer)
  | loopTimeout
  | loopNode (answer : NodeAnswer)
  | reconcile (olderThanMinutes : Option ℕ) (call : DbCall)
  | checkPhantoms (call : DbCall)
  | sweepNext
  | sweepStatus (answer : StatusAnswer)
  | sweepNode (answer : NodeAnswer)
  | sweepDb (call : DbCall)

/-- `RESERVATION_REFUND_MINUTES`, in seconds. -/
def reservationRefundSecs : ℕ := 60 * 60

/-- `PHANTOM_CHECK_HOURS`. -/
def phantomCheckHours : ℕ := 24

/-- The reconciler's `older_than`. -/
def olderThanRefund (now createdAt : ℕ) : Bool := createdAt + reservationRefundSecs ≤ now

namespace Saga

def start : Saga := ⟨PoolDb.empty, .idle, .idle, fun _ => Fate.start, [], []⟩

/-! ## Database calls of both parties -/

/-- `let _ = update_payout_attempt(..)`: an error changes nothing and nobody looks at it. -/
def update (s : Saga) (c : DbCall) (a : AttemptId) (status : AttemptStatus)
    (opid txid errorMessage : Option String) : Saga :=
  if c.fails then s
  else { s with db := s.db.updatePayoutAttempt a status opid txid errorMessage }

/-- `refund_payout`; `none` for an error. -/
def refund? (s : Saga) (c : DbCall) (a : AttemptId) : Option Saga :=
  (c.result (s.db.refundPayout a)).map (fun r =>
    { s with
      db := r.2
      returned := if s.db.itemsOf a = [] then s.returned else a :: s.returned })

/-- `confirm_payout`; `none` for an error. -/
def confirm? (s : Saga) (c : DbCall) (a : AttemptId) (txid : String) : Option Saga :=
  (c.result (s.db.confirmPayout a txid)).map (fun r =>
    { s with
      db := r.2
      settled := if s.db.itemsOf a = [] then s.settled else (a, txid) :: s.settled })

/-- `void_reorged_payout`; every attempt confirmed by the transaction has its funds back. -/
def void? (s : Saga) (c : DbCall) (txid : String) : Option Saga :=
  (c.result (s.db.voidReorgedPayout txid)).map (fun r =>
    { s with
      db := r.2
      returned :=
        if r.1.1 = 0 then s.returned
        else (s.settled.filter (fun e => e.2 == txid)).map (·.1) ++ s.returned })

/-! ## Effects of answers -/

/-- The wallet said of operation `opid` that it failed. -/
def failOperation (w : Wallet) (s : Saga) (opid : String) : Saga :=
  { s with
    fate := fun a =>
      if s.db.payoutAttempts.has a ∧ w.opidOf a = opid then { s.fate a with dead := true }
      else s.fate a }

/-- The row of attempt `a` was written an hour before `time`. -/
def AgedAt (s : Saga) (time : ℕ) (a : AttemptId) : Prop :=
  (s.db.payoutAttempts.get? a).any (fun r => olderThanRefund time r.createdAt) = true

instance (s : Saga) (time : ℕ) (a : AttemptId) : Decidable (s.AgedAt time a) :=
  inferInstanceAs (Decidable (_ = true))

/-- The node does not know `txid` now: an hour-old attempt with that transaction is expired. -/
def expire (w : Wallet) (s : Saga) (txid : String) : Saga :=
  { s with
    fate := fun a =>
      if w.txidOf a = txid ∧ s.AgedAt s.db.now a then { s.fate a with expired := true }
      else s.fate a }

/-! ## The payout loop -/

/-- `create_payout_attempt`; a round without destinations ends before it. -/
def startRound (s : Saga) (payoutList : List Destination) (c : DbCall) : Saga :=
  match s.loop with
  | .idle =>
    if payoutList = [] ∨ c.fails = true then s
    else
      let r := s.db.createPayoutAttempt payoutList.length (payoutList.map (·.amount)).sum "loop"
      { s with db := r.2, loop := .created ⟨r.1, payoutList⟩ }
  | _ => s

/-- The next database call of `process_payouts`. -/
def loopDb (s : Saga) (c : DbCall) : Saga :=
  match s.loop with
  | .created p =>
    match c.result (PoolDb.reservePayout p.attempt s.db p.items) with
    | none => { s with loop := .failing p s!"reserve failed: {c.error}" }
    | some ([], db) =>
      { s with
        db := db
        loop := .failing p "no funds reserved (balances changed since selection)" }
    | some (reserved, db) => { s with db := db, loop := .reserved (p.restrict reserved) }
  | .reserved p =>
    -- Fail closed: nothing has been sent yet.
    if c.fails then
      { s with
        loop := .refunding p s!"could not mark submitting (refunded, nothing sent): {c.error}" }
    else { s.update c p.attempt .submitting none none none with loop := .submitting p }
  | .refunding p note => { (s.refund? c p.attempt).getD s with loop := .failing p note }
  | .failing p note =>
    { s.update c p.attempt .failed none none (some note) with loop := .idle }
  | .accepted p opid =>
    { s.update c p.attempt .sent (some opid) none none with loop := .waiting p opid }
  | .leaving p opid txid note =>
    { s.update c p.attempt .sent opid txid (some note) with loop := .idle }
  | .costing p txid =>
    if c.fails then { s with loop := .confirming p txid }
    else { s with db := s.db.recordTxCost .payout txid p.fee, loop := .confirming p txid }
  | .confirming p txid =>
    match s.confirm? c p.attempt txid with
    | none => { s with loop := .leaving p none (some txid) s!"confirm failed: {c.error}" }
    | some s' => { s' with loop := .finishing p txid }
  | .finishing p txid =>
    { s.update c p.attempt .confirmed none (some txid) none with loop := .idle }
  | _ => s

/-- The `z_sendmany` request reaches the wallet. -/
def sendmany (s : Saga) : Saga :=
  match s.loop with
  | .submitting p =>
    { s with
      loop := .sending p
      fate := fun a =>
        if a = p.attempt then { s.fate a with request := some p.merged } else s.fate a }
  | _ => s

def sendAnswer (s : Saga) (answer : SendAnswer) : Saga :=
  match s.loop with
  | .sending p =>
    match answer with
    | .accepted opid => { s with loop := .accepted p opid }
    | .jsonRpc message =>
      -- The wallet answered, so it queued nothing.
      let msg := "JSON-RPC error: " ++ message
      { s with
        fate := fun a => if a = p.attempt then { s.fate a with dead := true } else s.fate a
        loop := .refunding p
          (if "Insufficient balance".toList <:+: msg.toList then
            s!"deferred: insufficient spendable balance (refunded): {msg}"
          else s!"z_sendmany failed (refunded): {msg}") }
    | .transport message =>
      { s with
        loop := .leaving p none none s!"z_sendmany fate unknown, NOT refunded: {message}" }
  | _ => s

/-- One poll of `wait_for_operation`. -/
def loopStatus (w : Wallet) (s : Saga) (answer : StatusAnswer) : Saga :=
  match s.loop with
  | .waiting p opid =>
    match answer with
    | .error message =>
      { s with
        loop := .leaving p (some opid) none
          s!"wait_for_operation error: z_getoperationstatus failed: {message}" }
    | .statuses (some (.success result)) =>
      { s with loop := .verifying p (result.readTxid.getD "unknown") 6 }
    | .statuses (some (.failed message)) =>
      let msg := message.getD "unknown error"
      { failOperation w s opid with
        loop := .refunding p s!"z_sendmany operation failed: {msg}" }
    | .statuses _ => s
  | _ => s

/-- The deadline of `wait_for_operation`. -/
def loopTimeout (s : Saga) : Saga :=
  match s.loop with
  | .waiting p opid =>
    { s with
      loop := .leaving p (some opid) none
        s!"wait_for_operation error: Timed out waiting for operation {opid} after 120s" }
  | _ => s

/-- One try of the visibility check; every error counts as not visible. -/
def loopNode (w : Wallet) (s : Saga) (answer : NodeAnswer) : Saga :=
  let retry (s : Saga) (p : PayoutRound) (txid : String) (tries : ℕ) (message : String) : Saga :=
    if tries ≤ 1 then
      { s with loop := .leaving p none (some txid) s!"tx not yet visible: {message}" }
    else { s with loop := .verifying p txid (tries - 1) }
  match s.loop with
  | .verifying p txid tries =>
    match answer with
    | .found => { s with loop := .costing p txid }
    | .notFound message => retry (expire w s txid) p txid tries message
    | .error message => retry s p txid tries message
  | _ => s

/-! ## The reconciler -/

def reconcile (s : Saga) (olderThanMinutes : Option ℕ) (c : DbCall) : Saga :=
  match s.sweep with
  | .idle =>
    if c.fails then s else { s with sweep := .rows (s.db.getReservedAttempts olderThanMinutes) }
  | _ => s

def checkPhantoms (s : Saga) (c : DbCall) : Saga :=
  match s.sweep with
  | .idle =>
    if c.fails then s
    else { s with sweep := .phantoms (s.db.getRecentPayoutTxids phantomCheckHours) }
  | _ => s

/-- What a reserved attempt needs: the node when its transaction is known, the wallet when only
    its operation is.  With neither, an attempt that may have been sent stays parked, and one that
    was never submitted is refunded once it is an hour old. -/
def classify (now : ℕ) (r : PoolDb.ReservedAttempt) (rest : List PoolDb.ReservedAttempt) :
    SweepPc :=
  match r.txid, r.opid with
  | some txid, _ => .askNode r txid rest
  | none, some opid => .askWallet r opid rest
  | none, none =>
    if r.status = .sent ∨ r.status = .submitting then .rows rest
    else if olderThanRefund now r.createdAt then
      .refund r "never submitted (no opid) past expiry" rest
    else .rows rest

/-- The steps of the reconciler that ask nobody. -/
def sweepNext (s : Saga) : Saga :=
  match s.sweep with
  | .rows [] => { s with sweep := .idle }
  | .rows (r :: rest) => { s with sweep := classify s.db.now r rest }
  | .missing r _ rest =>
    if olderThanRefund s.db.now r.createdAt then
      { s with sweep := .refund r "txid not on chain (-5) past expiry" rest }
    else { s with sweep := .rows rest }
  | .phantoms [] => { s with sweep := .idle }
  | .phantoms ((txid, _) :: rest) => { s with sweep := .askPhantom txid rest }
  | _ => s

/-- A success without a readable `txid`, like an operation the wallet has forgotten, leaves the
    funds parked. -/
def sweepStatus (w : Wallet) (s : Saga) (answer : StatusAnswer) : Saga :=
  match s.sweep with
  | .askWallet r opid rest =>
    match answer with
    | .statuses (some (.success result)) =>
      match result.plainTxid with
      | some txid => { s with sweep := .askNode r txid rest }
      | none => { s with sweep := .rows rest }
    | .statuses (some (.failed _)) =>
      { failOperation w s opid with sweep := .refund r "operation failed" rest }
    | _ => { s with sweep := .rows rest }
  | _ => s

def sweepNode (w : Wallet) (autoVoidReorged : Bool) (s : Saga) (answer : NodeAnswer) : Saga :=
  match s.sweep with
  | .askNode r txid rest =>
    match answer with
    | .found => { s with sweep := .confirm r txid rest }
    | .notFound _ => { expire w s txid with sweep := .missing r s.db.now rest }
    | .error _ => { s with sweep := .rows rest }
  | .askPhantom txid rest =>
    match answer with
    | .notFound _ =>
      { expire w s txid with
        sweep := if autoVoidReorged then .void txid s.db.now rest else .phantoms rest }
    | _ => { s with sweep := .phantoms rest }
  | _ => s

/-- The next database call of the reconciler. -/
def sweepDb (s : Saga) (c : DbCall) : Saga :=
  match s.sweep with
  | .refund r why rest =>
    match s.refund? c r.id with
    | none => { s with sweep := .rows rest }
    | some s' => { s' with sweep := .markFailed r why rest }
  | .markFailed r why rest =>
    { s.update c r.id .failed none none (some s!"reconciled: refunded ({why})") with
      sweep := .rows rest }
  | .confirm r txid rest =>
    match s.confirm? c r.id txid with
    | none => { s with sweep := .rows rest }
    | some s' => { s' with sweep := .markConfirmed r txid rest }
  | .markConfirmed r txid rest =>
    { s.update c r.id .confirmed none (some txid) (some "reconciled: confirmed via chain lookup")
      with sweep := .rows rest }
  | .void txid _ rest => { (s.void? c txid).getD s with sweep := .phantoms rest }
  | _ => s

/-! ## The machine -/

/-- The rest of the pool: every table but those of the saga may change, and time passes. -/
def world (s : Saga) (other : PoolDb) (seconds : ℕ) : Saga :=
  { s with
    db := { other with
      now := s.db.now + seconds
      payoutAttempts := s.db.payoutAttempts
      payoutItems := s.db.payoutItems
      payouts := s.db.payouts } }

def setTx (s : Saga) (attempt : AttemptId) (state : TxState) : Saga :=
  { s with fate := fun a => if a = attempt then { s.fate a with tx := state } else s.fate a }

def step (w : Wallet) (autoVoidReorged : Bool) (s : Saga) : Label → Saga
  | .world other seconds => s.world other seconds
  | .crash => { s with loop := .idle, sweep := .idle }
  | .tx attempt state => s.setTx attempt state
  | .startRound payoutList c => s.startRound payoutList c
  | .loopDb c => s.loopDb c
  | .sendmany => s.sendmany
  | .sendAnswer answer => s.sendAnswer answer
  | .loopStatus answer => s.loopStatus w answer
  | .loopTimeout => s.loopTimeout
  | .loopNode answer => s.loopNode w answer
  | .reconcile olderThanMinutes c => s.reconcile olderThanMinutes c
  | .checkPhantoms c => s.checkPhantoms c
  | .sweepNext => s.sweepNext
  | .sweepStatus answer => s.sweepStatus w answer
  | .sweepNode answer => s.sweepNode w autoVoidReorged answer
  | .sweepDb c => s.sweepDb c

/-! ## What wallet and node are trusted for -/

/-- The node answers −5 exactly for what is not a transaction it knows. -/
def LegalNode (w : Wallet) (s : Saga) (txid : String) : NodeAnswer → Prop
  | .found => ∃ a < s.db.payoutAttempts.next, w.txidOf a = txid ∧ (s.fate a).tx.known = true
  | .notFound _ => ∀ a < s.db.payoutAttempts.next, w.txidOf a = txid → (s.fate a).tx.known = false
  | .error _ => True

/-- The wallet names the transaction of attempt `a` when it names one, and an operation it
    reports failed has none. -/
def LegalStatus (w : Wallet) (s : Saga) (a : AttemptId) (opid : String) : StatusAnswer → Prop
  | .statuses (some (.success result)) =>
    (result.readTxid.all (fun t => t == w.txidOf a)) = true
  | .statuses (some (.failed _)) =>
    ∀ b < s.db.payoutAttempts.next, w.opidOf b = opid → (s.fate b).tx = .unseen
  | _ => True

/-- A JSON-RPC error means that there is no transaction. -/
def LegalSend (w : Wallet) (s : Saga) (a : AttemptId) : SendAnswer → Prop
  | .accepted opid => opid = w.opidOf a
  | .jsonRpc _ => (s.fate a).tx = .unseen
  | .transport _ => True

/-- One transaction at most per request, none after the wallet denied it, and an expired one is
    not mined. -/
def LegalTx (f : Fate) (state : TxState) : Prop :=
  f.Requested ∧ f.dead = false ∧ state ≠ .unseen ∧ (state = .mined → f.expired = false)

/-- The step is one that the outside may take. -/
def Legal (w : Wallet) (s : Saga) : Label → Prop
  | .tx a state => LegalTx (s.fate a) state
  | .sendAnswer answer =>
    match s.loop with
    | .sending p => LegalSend w s p.attempt answer
    | _ => True
  | .loopStatus answer =>
    match s.loop with
    | .waiting p opid => LegalStatus w s p.attempt opid answer
    | _ => True
  | .loopNode answer =>
    match s.loop with
    | .verifying _ txid _ => LegalNode w s txid answer
    | _ => True
  | .sweepStatus answer =>
    match s.sweep with
    | .askWallet r opid _ => LegalStatus w s r.id opid answer
    | _ => True
  | .sweepNode answer =>
    match s.sweep with
    | .askNode _ txid _ => LegalNode w s txid answer
    | .askPhantom txid _ => LegalNode w s txid answer
    | _ => True
  | _ => True

/-! ## When no funds are paid twice -/

/-- The successful operation the loop waits for comes with a readable transaction id. -/
def ReadsTxid (s : Saga) : Label → Prop
  | .loopStatus (.statuses (some (.success result))) =>
    match s.loop with
    | .waiting _ _ => result.readTxid.isSome = true
    | _ => True
  | _ => True

/-- The `submitting` mark is written before the attempt is an hour old. -/
def MarksInTime (s : Saga) : Label → Prop
  | .loopDb c =>
    match s.loop with
    | .reserved p => c.fails = true ∨ ¬ s.AgedAt s.db.now p.attempt
    | _ => True
  | _ => True

end Saga

/-- Nothing on the row says that the attempt was submitted. -/
def PayoutAttempt.Quiet (r : PayoutAttempt) : Prop :=
  r.opid = none ∧ r.txid = none ∧ r.status ≠ .sent ∧ r.status ≠ .submitting

instance (r : PayoutAttempt) : Decidable r.Quiet := inferInstanceAs (Decidable (_ ∧ _))

namespace Saga

/-- The reconciler acts on what still holds: a row it read as never submitted is still so, and a
    −5 it acts on was given when the attempt was an hour old. -/
def ActsOnCurrent (s : Saga) : Label → Prop
  | .sweepNext =>
    match s.sweep with
    | .rows (r :: rest) =>
      classify s.db.now r rest = .refund r "never submitted (no opid) past expiry" rest →
        (s.db.payoutAttempts.get? r.id).all (fun row => decide row.Quiet) = true
    | .missing r repliedAt _ =>
      olderThanRefund s.db.now r.createdAt = true → olderThanRefund repliedAt r.createdAt = true
    | _ => True
  | .sweepDb _ =>
    match s.sweep with
    | .void txid repliedAt _ => ∀ e ∈ s.settled, e.2 = txid → s.AgedAt repliedAt e.1
    | _ => True
  | _ => True

def Safe (s : Saga) (l : Label) : Prop := s.ReadsTxid l ∧ s.MarksInTime l ∧ s.ActsOnCurrent l

/-- No attempt whose funds went back to pending has a mined transaction. -/
def NoDoublePay (s : Saga) : Prop := ∀ a ∈ s.returned, (s.fate a).tx ≠ .mined

end Saga

end ZcashMiningPool
