import ZcashMiningPool.Library.Run
import ZcashMiningPool.PoolCore.Job
import ZcashMiningPool.Stratum.Wire

/-!
# The CPU miner

`cpu-miner/src/main.rs`: the handshake, the message loop and the threads of `mine_job`, as one
machine.  Its events are the lines it reads and the steps of its threads, in any order.

* `Miner` — what the message loop keeps, the jobs it started, and the lines it wrote.
* `receive` — one line: before the subscription, and after it.
* `check`, `report` — the two halves of a thread's loop: look at the generation and pick a nonce;
  with the solutions of `solve_200_9`, read the target and submit what meets it.

`meets_target` and `parse_target` are the pool's, line for line.  What is printed, and the counters
that only serve this, are left out.
-/

set_option autoImplicit false

namespace ZcashMiningPool

namespace CpuMiner

/-! ## State -/

def numThreads : ℕ := 4

/-- `DEFAULT_TARGET`, parsed. -/
def defaultTarget : Bytes32 := ⟨0x20 :: List.replicate 31 0, rfl⟩

inductive Thread where
  /-- At the head of the loop. -/
  | ready (counter : ℕ)
  /-- In the solver. -/
  | solving (counter : ℕ)
  | returned
  deriving DecidableEq, Repr

/-- The arguments of `mine_job`, and its threads. -/
structure MineJob where
  header : Bytes
  nonce1 : Bytes
  nonce2Size : ℕ
  generation : ℕ
  jobId : String
  timeHex : String
  threads : List Thread
  deriving DecidableEq, Repr

/-- A nonce that a thread has solved for: its job's place, its counter, the nonce. -/
structure Tried where
  job : ℕ
  counter : ℕ
  nonce : Bytes
  deriving DecidableEq, Repr

structure Miner where
  /-- `nonce_1_hex`, once the pool has answered the subscription. -/
  nonce1Hex : Option String
  /-- `main` has returned or panicked, which ends the process. -/
  stopped : Bool
  generation : ℕ
  isMining : Bool
  target : Bytes32
  /-- Every call of `mine_job`, in order. -/
  jobs : List MineJob
  /-- Every line written, in order. -/
  sent : List Json
  /-- Oldest first; nothing reads it. -/
  tried : List Tried

/-! ## Requests -/

def requestJson (id method : String) (params : List Json) : Json :=
  .obj [("id", .number id), ("method", .str method), ("params", .arr params)]

def subscribeRequest : Json :=
  requestJson "1" "mining.subscribe" [.str "cpu-miner/0.1.0", .null, .null, .null]

def authorizeRequest (workerName : String) : Json :=
  requestJson "2" "mining.authorize" [.str workerName, .str "x"]

def submitRequest (workerName jobId timeHex nonce2Hex solutionHex : String) : Json :=
  requestJson "4" "mining.submit"
    [.str workerName, .str jobId, .str timeHex, .str nonce2Hex, .str solutionHex]

/-! ## The message loop -/

namespace Miner

/-- Connected, with the subscription sent. -/
def start : Miner where
  nonce1Hex := none
  stopped := false
  generation := 0
  isMining := false
  target := defaultTarget
  jobs := []
  sent := [subscribeRequest]
  tried := []

def stop (m : Miner) : Miner := { m with stopped := true }

/-- Before the subscription: every line but the answer to request 1 is dropped. -/
def awaitSubscription (workerName : String) (m : Miner) (msg : Json) : Miner :=
  match msg.get "id" with
  | some (.number literal) =>
    if literal = "1" then
      match (msg.get "result").bind Json.asArray with
      | none => m.stop
      | some result =>
        if result.length < 2 then m.stop
        else { m with
          nonce1Hex := some (Json.textAt result 1)
          sent := m.sent ++ [authorizeRequest workerName] }
    else m
  | _ => m

/-- The decoded header fields, one after the other. -/
def decodeHeader (params : List Json) : Option Bytes :=
  (([1, 2, 3, 4, 5, 6].map (Json.textAt params)).mapM Text.hexDecode).map List.flatten

/-- A call of `mine_job` and its threads. -/
def startJob (m : Miner) (generation : ℕ) (params : List Json) (header nonce1 : Bytes) : Miner :=
  { m with
    generation := generation
    isMining := true
    jobs := m.jobs ++ [⟨header, nonce1, 32 - nonce1.length, generation, Json.textAt params 0,
      Json.textAt params 5, (List.range numThreads).map Thread.ready⟩] }

/-- `mining.notify`; an index out of bounds panics. -/
def notified (nonce1Hex : String) (m : Miner) (params : List Json) : Miner :=
  if params.length < 8 then m.stop
  else
    let clean := ((params[7]?).bind Json.asBool).getD false
    if m.isMining && !clean then m
    else
      let generation := if m.isMining then (m.generation + 1) % 2 ^ 64 else m.generation
      match decodeHeader params, Text.hexDecode nonce1Hex with
      | some header, some nonce1 => m.startJob generation params header nonce1
      | _, _ => m.stop

/-- After the subscription; responses are only printed. -/
def handle (nonce1Hex : String) (m : Miner) (msg : Json) : Miner :=
  if !((msg.get "id").getD .null).isNull then m
  else
    let params := (msg.get "params").bind Json.asArray
    match (msg.get "method").bind Json.asStr with
    | none => m
    | some method =>
      if method = "mining.set_target" then
        match ((params.bind (·[0]?)).bind Json.asStr).map parseTarget with
        | some (.ok target) => { m with target := target }
        | _ => m
      else if method = "mining.notify" then
        match params with
        | some params => m.notified nonce1Hex params
        | none => m
      else m

def receive (workerName : String) (m : Miner) (msg : Json) : Miner :=
  match m.nonce1Hex with
  | none => m.awaitSubscription workerName msg
  | some nonce1Hex => m.handle nonce1Hex msg

end Miner

/-! ## The threads -/

/-- The miner's own `compact_size`, which has no eight-byte form. -/
def compactSize (n : ℕ) : Bytes :=
  if n < 253 then [UInt8.ofNat n]
  else if n ≤ 0xFFFF then 0xFD :: leBytes 2 n
  else 0xFE :: leBytes 4 n

namespace MineJob

/-- The counter in the first bytes behind `nonce_1`, at most eight of them; the rest is zero. -/
def nonce (job : MineJob) (counter : ℕ) : Bytes :=
  job.nonce1 ++ (leBytes 8 counter).take (min job.nonce2Size 8) ++
    List.replicate (job.nonce2Size - 8) 0

def fullHeader (job : MineJob) (counter : ℕ) (solution : Bytes) : Bytes :=
  job.header ++ job.nonce counter ++ (compactSize solution.length ++ solution)

def submit (workerName : String) (job : MineJob) (counter : ℕ) (solution : Bytes) : Json :=
  submitRequest workerName job.jobId job.timeHex
    (Text.hexEncode ((job.nonce counter).drop job.nonce1.length)) (Text.hexEncode solution)

def setThread (job : MineJob) (t : ℕ) (thread : Thread) : MineJob :=
  { job with threads := job.threads.set t thread }

end MineJob

namespace Miner

/-- Thread `t` of job `j`. -/
def threadAt (m : Miner) (j t : ℕ) : Option (MineJob × Thread) :=
  (m.jobs[j]?).bind fun job => (job.threads[t]?).map (job, ·)

def setThread (m : Miner) (j t : ℕ) (thread : Thread) : Miner :=
  { m with jobs := m.jobs.modify j (·.setThread t thread) }

/-- The head of the loop; a `nonce_1` that does not fit panics. -/
def check (m : Miner) (j t : ℕ) : Miner :=
  match m.threadAt j t with
  | some (job, .ready counter) =>
    if m.generation ≠ job.generation ∨ 32 < job.nonce1.length then m.setThread j t .returned
    else m.setThread j t (.solving counter)
  | _ => m

/-- The solutions that meet the target, submitted in order. -/
def shares (sha256d : Bytes → Bytes32) (workerName : String) (m : Miner) (job : MineJob)
    (counter : ℕ) (solutions : List Bytes) : List Json :=
  (solutions.filter fun s => meetsTarget (sha256d (job.fullHeader counter s)) m.target).map
    (job.submit workerName counter)

/-- The rest of the loop, when the solver has returned. -/
def report (sha256d : Bytes → Bytes32) (workerName : String) (m : Miner) (j t : ℕ)
    (solutions : List Bytes) : Miner :=
  match m.threadAt j t with
  | some (job, .solving counter) =>
    { m.setThread j t (.ready ((counter + numThreads) % 2 ^ 64)) with
      sent := m.sent ++ m.shares sha256d workerName job counter solutions
      tried := m.tried ++ [⟨j, counter, job.nonce counter⟩] }
  | _ => m

end Miner

/-! ## The machine -/

inductive Event where
  | receive (msg : Json)
  | closed
  | check (j t : ℕ)
  | report (j t : ℕ) (solutions : List Bytes)

def step (sha256d : Bytes → Bytes32) (workerName : String) (m : Miner) (e : Event) : Miner :=
  if m.stopped then m
  else
    match e with
    | .receive msg => m.receive workerName msg
    | .closed => m.stop
    | .check j t => m.check j t
    | .report j t solutions => m.report sha256d workerName j t solutions

end CpuMiner

end ZcashMiningPool
