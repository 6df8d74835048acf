import Mathlib.Data.Finset.Insert
import ZcashMiningPool.PoolCore.Job
import ZcashMiningPool.Stratum.Messages

/-!
# The stratum server

One session of `stratum/src/server.rs`: requests of its miner in, responses to it and events for
the validator out.  The peer address, which only logs and the live page use, is left out.

* `MinerSession` — what the server keeps for a connection.
* `StratumEvent` — what reaches the validator.
* `handleRequest` — one request.
* `handleRequest_event` — every event of a session belongs to it, and a share in it comes from an
  authorized worker and carries the session's nonce prefix.
-/

set_option autoImplicit false

namespace ZcashMiningPool

/-- Events sent from stratum sessions up to the pool-core layer. -/
inductive StratumEvent where
  | shareSubmitted (requestId : RequestId) (sub : Submission)
  | workerConnected (sessionId workerName password : String) (localPort : ℕ)
  | sessionDisconnected (sessionId : String)
  | targetSuggested (sessionId target : String)
  deriving DecidableEq, Repr

/-- State for a single connected miner session. -/
structure MinerSession where
  sessionId : String
  nonce1 : String
  authorizedWorkers : Finset String
  subscribed : Bool
  deriving DecidableEq

namespace MinerSession

def new (sessionId nonce1 : String) : MinerSession := ⟨sessionId, nonce1, ∅, false⟩

def authorizeWorker (session : MinerSession) (name : String) : MinerSession :=
  { session with authorizedWorkers := insert name session.authorizedWorkers }

end MinerSession

/-- What the server tells a new subscriber. -/
structure StratumServer where
  nonce1Size : ℕ
  /-- Per listening port: difficulty and target. -/
  portInitial : ℕ → Option (ℚ × String)
  fallbackInitial : ℚ × String
  latestNotify : Option Notify

namespace StratumServer

/-- `is_ascii_alphanumeric`, or one of `.`, `_` and `-`. -/
def isNameChar (c : Char) : Bool :=
  ('a' ≤ c && c ≤ 'z') || ('A' ≤ c && c ≤ 'Z') || ('0' ≤ c && c ≤ '9') ||
    c == '.' || c == '_' || c == '-'

/-- The length is in bytes. -/
def workerNameOk (workerName : String) : Bool :=
  workerName != "" && decide (workerName.utf8ByteSize ≤ 256) && workerName.toList.all isNameChar

def invalidWorkerName : StratumError :=
  .other "Invalid worker name (allowed characters: A-Z a-z 0-9 . _ -)"

def subscribeResult (server : StratumServer) (session : MinerSession) (id : RequestId) :
    ServerMessage :=
  .subscribeResult id session.sessionId session.nonce1 (32 - server.nonce1Size)

/-- Difficulty and target of the port, and the current job, which is clean for a newcomer. -/
def announcement (server : StratumServer) (localPort : ℕ) : List ServerMessage :=
  let (difficulty, target) := (server.portInitial localPort).getD server.fallbackInitial
  [.setDifficulty difficulty, .setTarget target] ++
    (server.latestNotify.map (fun job => ServerMessage.notify { job with cleanJobs := true })).toList

/-- One request: the session after it, the responses, and the event it causes. -/
def handleRequest (server : StratumServer) (localPort : ℕ) (session : MinerSession) :
    ClientRequest → MinerSession × List ServerMessage × Option StratumEvent
  | .subscribe id =>
    if session.subscribed then (session, [server.subscribeResult session id], none)
    else
      ({ session with subscribed := true },
        server.subscribeResult session id :: server.announcement localPort, none)
  | .authorize id workerName workerPassword =>
    if !session.subscribed then
      (session, [.authorizeResult id false (some .notSubscribed)], none)
    else if !workerNameOk workerName then
      (session, [.authorizeResult id false (some invalidWorkerName)], none)
    else
      (session.authorizeWorker workerName, [.authorizeResult id true none],
        some (.workerConnected session.sessionId workerName workerPassword localPort))
  | .submit id workerName jobId time nonce2 equihashSolution =>
    if workerName ∉ session.authorizedWorkers then
      (session, [.submitResult id false (some .unauthorized)], none)
    else
      (session, [], some (.shareSubmitted id ⟨session.sessionId, workerName, jobId, time,
        session.nonce1, nonce2, equihashSolution⟩))
  | .suggestTarget _ target => (session, [], some (.targetSuggested session.sessionId target))
  | .extranonceSubscribe id => (session, [.authorizeResult id true none], none)
  | .unknown id method =>
    (session, [.submitResult id false (some (.other s!"Unknown method: {method}"))], none)

/-- What an event that a request causes says about its session. -/
def EventOf (session : MinerSession) : StratumEvent → Prop
  | .shareSubmitted _ sub => sub.sessionId = session.sessionId ∧ sub.nonce1 = session.nonce1 ∧
      sub.workerName ∈ session.authorizedWorkers
  | .workerConnected sessionId workerName _ _ => sessionId = session.sessionId ∧
      workerName ∈ session.authorizedWorkers ∧ workerNameOk workerName = true
  | .sessionDisconnected _ => False
  | .targetSuggested sessionId _ => sessionId = session.sessionId

/-- What one request does to its session: nothing, a subscription, or the authorization of a worker
    with an acceptable name, which is announced to the validator. -/
theorem handleRequest_cases (server : StratumServer) (localPort : ℕ) (session : MinerSession)
    (request : ClientRequest) :
    (∃ responses event, server.handleRequest localPort session request
        = (session, responses, event) ∧ ∀ e, event = some e → EventOf session e) ∨
      (∃ responses, server.handleRequest localPort session request
        = ({ session with subscribed := true }, responses, none)) ∨
      ∃ responses workerName password, workerNameOk workerName = true ∧
        server.handleRequest localPort session request
          = (session.authorizeWorker workerName, responses,
              some (.workerConnected session.sessionId workerName password localPort)) := by
  cases request with
  | subscribe id =>
    by_cases hsub : session.subscribed = true
    · exact .inl ⟨_, none, if_pos hsub, fun e he => by cases he⟩
    · exact .inr (.inl ⟨_, if_neg hsub⟩)
  | authorize id workerName workerPassword =>
    by_cases hsub : (!session.subscribed) = true
    · exact .inl ⟨_, none, if_pos hsub, fun e he => by cases he⟩
    · by_cases hname : (!workerNameOk workerName) = true
      · exact .inl ⟨_, none, (if_neg hsub).trans (if_pos hname), fun e he => by cases he⟩
      · exact .inr (.inr ⟨_, workerName, workerPassword, by simpa using hname,
          (if_neg hsub).trans (if_neg hname)⟩)
  | submit id workerName jobId time nonce2 equihashSolution =>
    by_cases hauth : workerName ∈ session.authorizedWorkers
    · refine .inl ⟨_, _, if_neg (not_not.2 hauth), ?_⟩
      intro e he
      cases he
      exact ⟨rfl, rfl, hauth⟩
    · exact .inl ⟨_, none, if_pos hauth, fun e he => by cases he⟩
  | suggestTarget id target =>
    exact .inl ⟨_, _, rfl, fun e he => by cases he; rfl⟩
  | extranonceSubscribe id => exact .inl ⟨_, none, rfl, fun e he => by cases he⟩
  | unknown id method => exact .inl ⟨_, none, rfl, fun e he => by cases he⟩

/-- **What reaches the validator**: events of this session only, shares of workers it authorized,
    workers with an acceptable name. -/
theorem handleRequest_event {server : StratumServer} {localPort : ℕ} {session : MinerSession}
    {request : ClientRequest} {event : StratumEvent}
    (h : (server.handleRequest localPort session request).2.2 = some event) :
    EventOf (server.handleRequest localPort session request).1 event := by
  rcases handleRequest_cases server localPort session request with
    ⟨responses, event', heq, hof⟩ | ⟨responses, heq⟩ | ⟨responses, workerName, password, hname, heq⟩
  · rw [heq] at h ⊢
    exact hof event h
  · rw [heq] at h
    cases h
  · rw [heq] at h ⊢
    cases h
    exact ⟨rfl, Finset.mem_insert_self _ _, hname⟩

end StratumServer

end ZcashMiningPool
