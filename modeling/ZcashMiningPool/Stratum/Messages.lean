import Mathlib.Data.Rat.Defs

/-!
# Stratum messages

What miner and pool say to each other: `stratum/src/messages.rs` without its JSON layer.  The id
of a request is kept as its JSON text.

* `ClientRequest` — a parsed request.
* `ServerMessage` — a response or notification.
* `StratumError` — the error codes.
-/

set_option autoImplicit false

namespace ZcashMiningPool

abbrev RequestId := String

/-- Stratum error codes per ZIP 301. -/
structure StratumError where
  code : ℤ
  message : String
  deriving DecidableEq, Repr

namespace StratumError

def other (message : String) : StratumError := ⟨20, message⟩

def jobNotFound : StratumError := ⟨21, "Job not found"⟩

def duplicateShare : StratumError := ⟨22, "Duplicate share"⟩

def lowDifficulty : StratumError := ⟨23, "Low difficulty share"⟩

def unauthorized : StratumError := ⟨24, "Unauthorized worker"⟩

def notSubscribed : StratumError := ⟨25, "Not subscribed"⟩

def isLowDifficulty (e : StratumError) : Bool := e.code == 23

end StratumError

/-- Parsed client (miner) request. -/
inductive ClientRequest where
  | subscribe (id : RequestId)
  | authorize (id : RequestId) (workerName workerPassword : String)
  | submit (id : RequestId) (workerName jobId time nonce2 equihashSolution : String)
  | suggestTarget (id : RequestId) (target : String)
  | extranonceSubscribe (id : RequestId)
  | unknown (id : RequestId) (method : String)
  deriving DecidableEq, Repr

/-- A job as it is announced. -/
structure Notify where
  jobId : String
  version : String
  prevHash : String
  merkleRoot : String
  reserved : String
  time : String
  bits : String
  cleanJobs : Bool
  deriving DecidableEq, Repr

/-- Server notification or response to send to a miner. -/
inductive ServerMessage where
  | subscribeResult (id : RequestId) (sessionId nonce1 : String) (nonce2Size : ℕ)
  | authorizeResult (id : RequestId) (authorized : Bool) (error : Option StratumError)
  | setTarget (target : String)
  | setDifficulty (difficulty : ℚ)
  | notify (job : Notify)
  | submitResult (id : RequestId) (accepted : Bool) (error : Option StratumError)
  deriving DecidableEq, Repr

end ZcashMiningPool
