import ZcashMiningPool.PoolCore.Validator

/-!
# Replayed shares

One connected miner, from its requests through the server to the validator's event loop, and what
it is credited for.  Everything else the validator holds may be different at every request: other
sessions, jobs, database and caches are part of the input.

* `ShareKey` — what makes two shares the same: job, time, nonce and raw solution.
* `Connection` — session, validator and the shares credited so far; each credit counts the
  fingerprints that entered the history after it.
* `Input` — a request, or the end of the connection, and the world it meets.
* `NotForgotten` — a share that is sent again is still within the last 1024 fingerprints, and no
  worker was authorized since it was credited.

Principal result: `credited_once` — in a run of such requests no share is credited twice.  Without
the condition one is: `share_credited_twice` authorizes again in between.
-/

set_option autoImplicit false

namespace ZcashMiningPool

open Table Machine BoundedFifo ShareValidator

/-! ## The connection -/

structure ShareKey where
  jobId : String
  ntime : Option ℕ
  nonce : Bytes
  rawSolution : Bytes
  deriving DecidableEq, Repr

/-- What a submission is; `none` when it does not decode. -/
def shareKey (sub : Submission) : Option ShareKey :=
  (decodeSubmission sub).toOption.map (fun d =>
    ⟨sub.jobId, Text.parseHexU32 sub.time, d.nonce, d.rawSolution⟩)

def ShareKey.fingerprint (prims : Primitives) (key : ShareKey) : UInt64 :=
  prims.shareFp key.jobId key.nonce key.rawSolution

/-- A share row that was written. -/
structure Credit where
  key : ShareKey
  /-- How many fingerprints entered the session's history after it; `none` once the history was
      emptied. -/
  age : Option ℕ
  deriving DecidableEq, Repr

namespace Credit

def older (e : Credit) : Credit := { e with age := e.age.map (· + 1) }

def forgotten (e : Credit) : Credit := { e with age := none }

/-- The history still holds the share. -/
def Fresh (e : Credit) : Prop := ∃ n, e.age = some n ∧ n < shareDedupHistory

end Credit

/-- One connected miner and the validator. -/
structure Connection where
  session : MinerSession
  localPort : ℕ
  connected : Bool
  validator : ShareValidator
  credited : List Credit

structure Input where
  /-- `none` when the miner disconnects. -/
  request : Option ClientRequest
  server : StratumServer
  clock : Clock
  answers : Answers
  /-- What the rest of the pool made of the validator in the meantime. -/
  world : ShareValidator → ShareValidator

namespace Connection

variable (prims : Primitives)

/-- A new connection; its session id is new. -/
def accept (sessionId nonce1 : String) (localPort : ℕ) (v : ShareValidator) : Connection where
  session := MinerSession.new sessionId nonce1
  localPort := localPort
  connected := true
  validator := v.setSession sessionId none
  credited := []

def history (c : Connection) : Option (List UInt64) := c.validator.history c.session.sessionId

/-- The validator as the next event meets it: only the session's own record is as it was left. -/
def meet (c : Connection) (world : ShareValidator → ShareValidator) : ShareValidator :=
  (world c.validator).setSession c.session.sessionId (c.validator.sessionDifficulty c.session.sessionId)

/-- What the credits become after a share was handled. -/
def noteShare (sub : Submission) (before after : Option (List UInt64)) (recorded : Bool)
    (credited : List Credit) : List Credit :=
  let credited := if before = after then credited else credited.map Credit.older
  if recorded then credited ++ ((shareKey sub).map (⟨·, some 0⟩)).toList else credited

/-- The validator handles one event of the connection. -/
def deliver (i : Input) (v : ShareValidator) (c : Connection) (event : StratumEvent) :
    Connection :=
  let out := v.handleEvent prims i.clock i.answers event
  { c with
    validator := out.validator
    credited := match event with
      | .shareSubmitted _ sub => noteShare sub (v.history c.session.sessionId)
          (out.validator.history c.session.sessionId) out.recorded c.credited
      | .workerConnected _ _ _ _ => c.credited.map Credit.forgotten
      | _ => c.credited }

/-- One request of the miner; the channel to the validator is first in, first out. -/
def step (c : Connection) (i : Input) : Connection :=
  if c.connected then
    match i.request with
    | none =>
      { c.deliver prims i (c.meet i.world) (.sessionDisconnected c.session.sessionId) with
        connected := false }
    | some request =>
      let (session, _, event) := i.server.handleRequest c.localPort c.session request
      match event with
      | none => { c with session := session, validator := c.meet i.world }
      | some event => { c with session := session }.deliver prims i (c.meet i.world) event
  else c

/-- Every share was credited at most once. -/
def CreditedOnce (c : Connection) : Prop := (c.credited.map (·.key)).Nodup

/-- A credited share reaches the validator again only while the history still holds it. -/
def NotForgotten (c : Connection) (i : Input) : Prop :=
  ∀ request, i.request = some request → ∀ requestId sub,
    (i.server.handleRequest c.localPort c.session request).2.2
        = some (.shareSubmitted requestId sub) →
      ∀ e ∈ c.credited, shareKey sub = some e.key → e.Fresh

/-! ## The invariant -/

/-- While the miner is connected: the history is bounded, an authorized worker has one, and it
    holds every credited share for the next 1024 fingerprints. -/
structure HistoryInv (c : Connection) : Prop where
  bounded : ∀ fps, c.history = some fps → fps.length ≤ shareDedupHistory
  known : c.session.authorizedWorkers.Nonempty → ∃ fps, c.history = some fps
  held : ∀ e ∈ c.credited, ∀ n, e.age = some n → n < shareDedupHistory →
    ∃ fps, c.history = some fps ∧ Within (n + 1) (e.key.fingerprint prims) fps

structure ReplayInv (c : Connection) : Prop where
  history : c.connected = true → HistoryInv prims c
  once : c.CreditedOnce

variable {prims}

theorem history_meet (c : Connection) (world : ShareValidator → ShareValidator) :
    (c.meet world).history c.session.sessionId = c.history := by
  simp [meet, ShareValidator.history, history, setSession]

/-- Nothing that matters to the history changed. -/
theorem HistoryInv.congr {c c' : Connection} (h : HistoryInv prims c)
    (hhistory : c'.history = c.history)
    (hworkers : c'.session.authorizedWorkers = c.session.authorizedWorkers)
    (hcredited : c'.credited = c.credited) : HistoryInv prims c' := by
  refine ⟨?_, ?_, ?_⟩
  · rw [hhistory]
    exact h.bounded
  · rw [hhistory, hworkers]
    exact h.known
  · rw [hhistory, hcredited]
    exact h.held

theorem shareKey_of_decoded (prims : Primitives) {sub : Submission} {d : DecodedShare}
    (h : decodeSubmission sub = .ok d) :
    ∃ key, shareKey sub = some key ∧ key.fingerprint prims = fingerprint prims sub d := by
  refine ⟨⟨sub.jobId, Text.parseHexU32 sub.time, d.nonce, d.rawSolution⟩, ?_, rfl⟩
  simp [shareKey, h, Except.toOption]

/-- A new fingerprint moves every credited share back by one. -/
theorem held_older {credited : List Credit} {fps : List UInt64} (fp : UInt64)
    (hlen : fps.length ≤ shareDedupHistory)
    (h : ∀ e ∈ credited, ∀ n, e.age = some n → n < shareDedupHistory →
      Within (n + 1) (e.key.fingerprint prims) fps) :
    ∀ e ∈ credited.map Credit.older, ∀ n, e.age = some n → n < shareDedupHistory →
      Within (n + 1) (e.key.fingerprint prims) (push shareDedupHistory fps fp) := by
  intro e he n hn hlt
  obtain ⟨e₀, he₀, rfl⟩ := List.mem_map.1 he
  obtain ⟨n₀, hn₀, rfl⟩ := Option.map_eq_some_iff.1 hn
  exact within_push (h e₀ he₀ n₀ hn₀ (by omega)) (by omega) hlen fp

/-- A share whose fingerprint is not in the history was not credited lately. -/
theorem not_credited {c : Connection} (h : HistoryInv prims c) {key : ShareKey} {fps : List UInt64}
    (hfps : c.history = some fps) (hnew : key.fingerprint prims ∉ fps)
    (hfresh : ∀ e ∈ c.credited, e.key = key → e.Fresh) : key ∉ c.credited.map (·.key) := by
  intro hmem
  obtain ⟨e, he, rfl⟩ := List.mem_map.1 hmem
  obtain ⟨n, hn, hlt⟩ := hfresh e he rfl
  obtain ⟨fps', hfps', hwithin⟩ := h.held e he n hn hlt
  rw [hfps] at hfps'
  cases hfps'
  exact hnew (mem_of_within hwithin)

theorem keys_older (credited : List Credit) :
    (credited.map Credit.older).map (·.key) = credited.map (·.key) := by
  rw [List.map_map]
  rfl

theorem keys_forgotten (credited : List Credit) :
    (credited.map Credit.forgotten).map (·.key) = credited.map (·.key) := by
  rw [List.map_map]
  rfl

/-- **A share** that is not a forgotten one keeps the invariant. -/
theorem deliver_share {c : Connection} (h : HistoryInv prims c) (i : Input) {v : ShareValidator}
    (hv : v.history c.session.sessionId = c.history) (requestId : RequestId) {sub : Submission}
    (hsid : sub.sessionId = c.session.sessionId)
    (hauth : sub.workerName ∈ c.session.authorizedWorkers)
    (hfresh : ∀ e ∈ c.credited, shareKey sub = some e.key → e.Fresh) :
    HistoryInv prims (c.deliver prims i v (.shareSubmitted requestId sub)) ∧
      (c.CreditedOnce → (c.deliver prims i v (.shareSubmitted requestId sub)).CreditedOnce) := by
  obtain ⟨fps, hfps⟩ := h.known ⟨_, hauth⟩
  rcases hout : handleShare prims i.clock i.answers v requestId sub
    with ⟨v', sent, disconnected, recorded, task⟩
  have hdeliver : c.deliver prims i v (.shareSubmitted requestId sub)
      = { c with
          validator := v'
          credited := noteShare sub c.history (v'.history c.session.sessionId) recorded
            c.credited } := by
    simp only [deliver, handleEvent, hout, hv]
  rw [hdeliver]
  obtain ⟨-, -, hhist⟩ := handleShare_spec prims i.clock i.answers v requestId sub hout
  rcases hhist with ⟨hrec, hsame⟩ | ⟨d, hd, hrem⟩
  · simp only at hrec hsame
    have hcredited : noteShare sub c.history (v'.history c.session.sessionId) recorded c.credited
        = c.credited := by
      simp [noteShare, hsame, hv, hrec]
    rw [hcredited]
    have hhistory : v'.history c.session.sessionId = c.history := by rw [hsame, hv]
    exact ⟨h.congr hhistory rfl rfl, id⟩
  · simp only [hsid, hv, hfps] at hrem
    rcases hrem with ⟨hnone, -⟩ | ⟨fps', hfps', hnew, hafter⟩
    · cases hnone
    · cases hfps'
      obtain ⟨key, hkey, hfp⟩ := shareKey_of_decoded prims hd
      have hlen := h.bounded fps hfps
      have hold : ∀ e ∈ c.credited, ∀ n, e.age = some n → n < shareDedupHistory →
          Within (n + 1) (e.key.fingerprint prims) fps := by
        intro e he n hn hlt
        obtain ⟨fps', hfps', hwithin⟩ := h.held e he n hn hlt
        rw [hfps] at hfps'
        cases hfps'
        exact hwithin
      have hchanged : c.history ≠ v'.history c.session.sessionId := by
        rw [hfps, hafter]
        intro heq
        have hself := mem_push_self (show 0 < shareDedupHistory by decide) fps
          (ZcashMiningPool.ShareValidator.fingerprint prims sub d)
        rw [← Option.some.inj heq] at hself
        exact hnew hself
      have hcredited : noteShare sub c.history (v'.history c.session.sessionId) recorded c.credited
          = c.credited.map Credit.older ++ if recorded then [⟨key, some 0⟩] else [] := by
        cases recorded <;> simp [noteShare, hchanged, hkey]
      rw [hcredited]
      refine ⟨⟨?_, fun _ => ⟨_, hafter⟩, ?_⟩, ?_⟩
      · intro fps' hfps'
        have hsome : v'.history c.session.sessionId = some fps' := hfps'
        rw [hafter] at hsome
        cases hsome
        exact length_push hlen _
      · intro e he n hn hlt
        refine ⟨_, hafter, ?_⟩
        rcases List.mem_append.1 he with hold' | hcredit
        · exact held_older _ hlen hold e hold' n hn hlt
        · split at hcredit
          · rw [List.mem_singleton.1 hcredit] at hn ⊢
            cases hn
            rw [hfp]
            exact within_push_self (by decide) hlen _
          · cases hcredit
      · intro honce
        show ((c.credited.map Credit.older
          ++ if recorded then [(⟨key, some 0⟩ : Credit)] else []).map (·.key)).Nodup
        rw [List.map_append, keys_older]
        split
        · have hkeyNew := not_credited h hfps (hfp ▸ hnew) (fun e he hek =>
            hfresh e he (by rw [hkey, hek]))
          refine List.Nodup.append honce (List.nodup_singleton key) ?_
          intro k hk hk'
          rw [List.mem_singleton.1 hk'] at hk
          exact hkeyNew hk
        · rw [List.map_nil, List.append_nil]
          exact honce

/-- **A worker that connects** empties the history, and every credited share is forgotten. -/
theorem deliver_connected (prims : Primitives) (c : Connection) (i : Input) (v : ShareValidator)
    (workerName password : String) (localPort : ℕ) :
    HistoryInv prims (c.deliver prims i v
        (.workerConnected c.session.sessionId workerName password localPort)) ∧
      (c.CreditedOnce → (c.deliver prims i v
        (.workerConnected c.session.sessionId workerName password localPort)).CreditedOnce) := by
  have hempty := handleWorkerConnected_history i.clock i.answers v c.session.sessionId workerName
    password localPort
  refine ⟨⟨?_, fun _ => ⟨[], hempty⟩, ?_⟩, ?_⟩
  · intro fps hfps
    have hsome : some [] = some fps := hempty.symm.trans hfps
    cases hsome
    simp
  · intro e he n hn hlt
    obtain ⟨e₀, -, rfl⟩ := List.mem_map.1 he
    cases hn
  · intro honce
    show ((c.credited.map Credit.forgotten).map (·.key)).Nodup
    rw [keys_forgotten]
    exact honce

theorem step_silent {c : Connection} {i : Input} {request : ClientRequest} {session : MinerSession}
    {responses : List ServerMessage} (hconnected : c.connected = true)
    (hrequest : i.request = some request)
    (heq : i.server.handleRequest c.localPort c.session request = (session, responses, none)) :
    c.step prims i = { c with session := session, validator := c.meet i.world } := by
  unfold step
  rw [if_pos hconnected, hrequest]
  simp only
  rw [heq]

theorem step_event {c : Connection} {i : Input} {request : ClientRequest} {session : MinerSession}
    {responses : List ServerMessage} {event : StratumEvent} (hconnected : c.connected = true)
    (hrequest : i.request = some request)
    (heq : i.server.handleRequest c.localPort c.session request
      = (session, responses, some event)) :
    c.step prims i = { c with session := session }.deliver prims i (c.meet i.world) event := by
  unfold step
  rw [if_pos hconnected, hrequest]
  simp only
  rw [heq]

/-- **One request** that does not replay a forgotten share keeps the invariant. -/
theorem replayInv_step {c : Connection} (h : ReplayInv prims c) (i : Input)
    (hfresh : c.NotForgotten i) : ReplayInv prims (c.step prims i) := by
  by_cases hconnected : c.connected = true
  · have hinv := h.history hconnected
    have hmeet := history_meet c i.world
    cases hrequest : i.request with
    | none =>
      unfold step
      rw [if_pos hconnected, hrequest]
      exact ⟨fun hc => Bool.noConfusion hc, h.once⟩
    | some request =>
      rcases StratumServer.handleRequest_cases i.server c.localPort c.session request with
        ⟨responses, event, heq, hof⟩ | ⟨responses, heq⟩ |
          ⟨responses, workerName, password, hname, heq⟩
      · cases event with
        | none =>
          rw [step_silent hconnected hrequest heq]
          exact ⟨fun _ => hinv.congr hmeet rfl rfl, h.once⟩
        | some event =>
          rw [step_event hconnected hrequest heq]
          have hev := hof event rfl
          cases event with
          | shareSubmitted requestId sub =>
            obtain ⟨hhist, honce⟩ := deliver_share hinv i hmeet requestId hev.1 hev.2.2
              (hfresh request hrequest requestId sub (by rw [heq]))
            exact ⟨fun _ => hhist, honce h.once⟩
          | workerConnected sessionId workerName password localPort =>
            obtain ⟨rfl, -, -⟩ := hev
            obtain ⟨hhist, honce⟩ := deliver_connected prims c i (c.meet i.world) workerName password
              localPort
            exact ⟨fun _ => hhist, honce h.once⟩
          | sessionDisconnected sessionId => exact hev.elim
          | targetSuggested sessionId target =>
            exact ⟨fun _ => hinv.congr hmeet rfl rfl, h.once⟩
      · rw [step_silent hconnected hrequest heq]
        exact ⟨fun _ => hinv.congr hmeet rfl rfl, h.once⟩
      · rw [step_event hconnected hrequest heq]
        obtain ⟨hhist, honce⟩ := deliver_connected prims
          { c with session := c.session.authorizeWorker workerName } i (c.meet i.world) workerName
          password c.localPort
        exact ⟨fun _ => hhist, honce h.once⟩
  · unfold step
    rw [if_neg hconnected]
    exact h

theorem replayInv_accept (sessionId nonce1 : String) (localPort : ℕ) (v : ShareValidator) :
    ReplayInv prims (accept sessionId nonce1 localPort v) := by
  have hnone : (accept sessionId nonce1 localPort v).history = none := by
    simp [accept, history, ShareValidator.history, setSession, MinerSession.new]
  refine ⟨fun _ => ⟨?_, ?_, ?_⟩, List.nodup_nil⟩
  · intro fps hfps
    rw [hnone] at hfps
    cases hfps
  · rintro ⟨name, hname⟩
    cases hname
  · intro e he
    cases he

/-- **No share is credited twice** in a run of requests that replay no forgotten share. -/
theorem credited_once (prims : Primitives) (sessionId nonce1 : String) (localPort : ℕ)
    (v : ShareValidator) (inputs : List Input)
    (h : Allowed (step prims) NotForgotten (accept sessionId nonce1 localPort v) inputs) :
    Always (step prims) CreditedOnce (accept sessionId nonce1 localPort v) inputs := by
  have hrun : Always (step prims) (ReplayInv prims) (accept sessionId nonce1 localPort v) inputs :=
    always_of_allowed (fun _ i hc hok => replayInv_step hc i hok)
      (replayInv_accept sessionId nonce1 localPort v) h
  exact hrun.imp fun _ hc => hc.once

/-! ## A sample run -/

/-- The same job and the same settings all along; nothing else happens. -/
def sampleInput (request : ClientRequest) : Input where
  request := some request
  server := ⟨4, fun _ => none, (8192, "00"), none⟩
  clock := sampleClock
  answers := sampleAnswers []
  world v :=
    { v with
      jobs := (sampleValidator 1).jobs
      defaultTarget := (sampleValidator 1).defaultTarget
      vardiffConfig := (sampleValidator 1).vardiffConfig
      portDifficulty := (sampleValidator 1).portDifficulty }

def sampleSubscribe : Input := sampleInput (.subscribe "1")

def sampleAuthorize : Input := sampleInput (.authorize "2" "t1miner.rig" "x")

def sampleSubmit : Input :=
  sampleInput (.submit "3" sampleSubmission.workerName sampleSubmission.jobId sampleSubmission.time
    sampleSubmission.nonce2 sampleSubmission.equihashSolution)

def sampleAccept : Connection := accept "s1" sampleSubmission.nonce1 3333 (sampleValidator 1)

def sampleKey : ShareKey where
  jobId := sampleSubmission.jobId
  ntime := Text.parseHexU32 sampleSubmission.time
  nonce := sampleDecoded.nonce
  rawSolution := sampleDecoded.rawSolution

/-- A subscribed session of the sample run. -/
structure SampleState (c : Connection) : Prop where
  sessionId : c.session.sessionId = "s1"
  nonce1 : c.session.nonce1 = sampleSubmission.nonce1
  subscribed : c.session.subscribed = true
  connected : c.connected = true
  workers : WorkersKnown c.validator

theorem sample_subscribe : SampleState (sampleAccept.step samplePrims sampleSubscribe) ∧
    (sampleAccept.step samplePrims sampleSubscribe).credited = [] :=
  ⟨⟨rfl, rfl, rfl, rfl, sampleValidator_known 1⟩, rfl⟩

theorem sample_authorize {c : Connection} (h : SampleState c) :
    SampleState (c.step samplePrims sampleAuthorize) ∧
      "t1miner.rig" ∈ (c.step samplePrims sampleAuthorize).session.authorizedWorkers ∧
      (c.step samplePrims sampleAuthorize).validator.sessionDifficulty "s1"
        = some (sampleSession 1) ∧
      (c.step samplePrims sampleAuthorize).credited = c.credited.map Credit.forgotten := by
  have hname : StratumServer.workerNameOk "t1miner.rig" = true := by decide +kernel
  have hrequest : sampleAuthorize.server.handleRequest c.localPort c.session
      (.authorize "2" "t1miner.rig" "x") = (c.session.authorizeWorker "t1miner.rig",
        [.authorizeResult "2" true none], some (.workerConnected c.session.sessionId "t1miner.rig"
          "x" c.localPort)) := by
    simp only [StratumServer.handleRequest, h.subscribed, hname, Bool.not_true, Bool.false_eq_true,
      if_false]
  rw [step_event h.connected rfl hrequest]
  have hpassword : parseDifficultyFromPassword "x" = none := by decide +kernel
  refine ⟨⟨h.sessionId, h.nonce1, h.subscribed, h.connected, ?_⟩, Finset.mem_insert_self _ _, ?_, rfl⟩
  · exact workersKnown_handleEvent samplePrims sampleClock (sampleAnswers [])
      (v := c.meet sampleAuthorize.world) h.workers
      (.workerConnected c.session.sessionId "t1miner.rig" "x" c.localPort)
  · simp only [deliver, handleEvent, handleWorkerConnected, h.sessionId, initialDifficulty, hpassword]
    simp [setSession, sampleSession, makeTarget, meet, sampleAuthorize, sampleInput, sampleValidator,
      sampleConfig]

/-- A fresh session is credited for the sample share. -/
theorem sample_recorded {v : ShareValidator} (hjobs : v.jobs "1" = some sampleJob)
    (hworkers : WorkersKnown v) (hsd : v.sessionDifficulty "s1" = some (sampleSession 1)) :
    (handleShare samplePrims sampleClock (sampleAnswers []) v "3" sampleSubmission).recorded
      = true := by
  have hok : ((sampleSession 1).checkRate sampleClock.instant).1 = .ok := by decide +kernel
  have hrate : v.checkRate sampleSubmission.sessionId sampleClock.instant
      = (.ok, v.setSession "s1" (some ((sampleSession 1).checkRate sampleClock.instant).2)) := by
    simp only [checkRate, show sampleSubmission.sessionId = "s1" from rfl, hsd, hok]
  rcases handleShare_cases samplePrims sampleClock (sampleAnswers []) v "3" sampleSubmission rfl with
    ⟨hreject, -, -⟩ | ⟨v₁, hx, -, hrec⟩
  · rw [hrate] at hreject
    cases hreject
  · rw [hrate] at hx
    cases hx
    obtain ⟨htarget, hfps⟩ := (sampleSession 1).checkRate_frame sampleClock.instant
    have hkept := kept_checkRate v "s1" sampleClock.instant
    rw [show v.checkRate "s1" sampleClock.instant = _ from hrate] at hkept
    have hsd₁ : (v.setSession "s1" (some ((sampleSession 1).checkRate
        sampleClock.instant).2)).sessionDifficulty "s1"
          = some ((sampleSession 1).checkRate sampleClock.instant).2 := by
      simp [setSession]
    have hmeets : meetsTarget (Bytes32.fill 1) (sampleSession 1).target = true := by
      decide +kernel
    rw [hrec]
    refine validateShare_recorded (hkept.workersKnown hworkers) ⟨.inr ⟨rfl, rfl⟩, rfl⟩
      (sampleSubmission_solves hjobs hsd₁ hfps) (.inl ?_)
    rw [show sampleSubmission.sessionId = "s1" from rfl, hsd₁]
    simp only [sessionTargets, htarget]
    exact hmeets

theorem sample_submit {c : Connection} (h : SampleState c)
    (hauth : "t1miner.rig" ∈ c.session.authorizedWorkers)
    (hrecord : c.validator.sessionDifficulty "s1" = some (sampleSession 1)) :
    SampleState (c.step samplePrims sampleSubmit) ∧
      (c.step samplePrims sampleSubmit).credited
        = c.credited.map Credit.older ++ [⟨sampleKey, some 0⟩] := by
  have hsub : (⟨c.session.sessionId, sampleSubmission.workerName, sampleSubmission.jobId,
      sampleSubmission.time, c.session.nonce1, sampleSubmission.nonce2,
      sampleSubmission.equihashSolution⟩ : Submission) = sampleSubmission := by
    rw [h.sessionId, h.nonce1]
    rfl
  have hrequest : ∃ request, sampleSubmit.request = some request ∧
      sampleSubmit.server.handleRequest c.localPort c.session request
        = (c.session, [], some (.shareSubmitted "3" sampleSubmission)) := by
    refine ⟨_, rfl, ?_⟩
    simp only [StratumServer.handleRequest, hsub]
    exact if_neg (not_not.2 hauth)
  obtain ⟨request, hr, hrequest⟩ := hrequest
  rw [step_event h.connected hr hrequest]
  have hv : (c.meet sampleSubmit.world).sessionDifficulty "s1" = some (sampleSession 1) := by
    simp only [meet, setSession, h.sessionId, Function.update_self, hrecord]
  have hcredit : (handleShare samplePrims sampleClock (sampleAnswers [])
      (c.meet sampleSubmit.world) "3" sampleSubmission).recorded = true := by
    refine sample_recorded rfl ?_ hv
    exact h.workers
  rcases hout : handleShare samplePrims sampleClock (sampleAnswers []) (c.meet sampleSubmit.world)
    "3" sampleSubmission with ⟨v', sent, disconnected, recorded, task⟩
  obtain ⟨-, hknown, hhist⟩ := handleShare_spec samplePrims sampleClock (sampleAnswers [])
    (c.meet sampleSubmit.world) "3" sampleSubmission hout
  rw [hout] at hcredit
  simp only at hcredit
  subst hcredit
  have hbefore : (c.meet sampleSubmit.world).history "s1" = some [] := by
    rw [ShareValidator.history, hv]
    rfl
  have hafter : v'.history "s1" ≠ some [] := by
    rcases hhist with ⟨hrec, -⟩ | ⟨d, -, hrem⟩
    · cases hrec
    · rcases hrem with ⟨hnone, -⟩ | ⟨fps, -, -, hafter⟩
      · rw [show sampleSubmission.sessionId = "s1" from rfl, hbefore] at hnone
        cases hnone
      · have hself := mem_push_self (show 0 < shareDedupHistory by decide) fps
          (ZcashMiningPool.ShareValidator.fingerprint samplePrims sampleSubmission d)
        intro hempty
        rw [show v'.history "s1" = _ from hafter] at hempty
        rw [Option.some.inj hempty] at hself
        cases hself
  have hkey : shareKey sampleSubmission = some sampleKey := by
    simp only [shareKey, sampleSubmission_decoded]
    rfl
  refine ⟨⟨h.sessionId, h.nonce1, h.subscribed, h.connected, ?_⟩, ?_⟩
  · have hworkers := hknown h.workers
    simp only [deliver, handleEvent, sampleSubmit, sampleInput] at hout ⊢
    rw [hout]
    exact hworkers
  · simp only [deliver, handleEvent, sampleSubmit, sampleInput] at hout hbefore ⊢
    rw [hout]
    simp [noteShare, h.sessionId, hbefore, Ne.symm hafter, hkey]

theorem notForgotten_of_fresh {c : Connection} (h : ∀ e ∈ c.credited, e.Fresh) (i : Input) :
    c.NotForgotten i :=
  fun _ _ _ _ _ e he _ => h e he

/-- The miner subscribes, authorizes its worker, and sends the same share twice. -/
def resubmittedRun : List Input := [sampleSubscribe, sampleAuthorize, sampleSubmit, sampleSubmit]

theorem credited_once_resubmittedRun :
    Always (step samplePrims) CreditedOnce sampleAccept resubmittedRun := by
  obtain ⟨h₁, hc₁⟩ := sample_subscribe
  obtain ⟨h₂, hauth, hrecord, hc₂⟩ := sample_authorize h₁
  obtain ⟨-, hc₃⟩ := sample_submit h₂ hauth hrecord
  rw [hc₁] at hc₂
  rw [hc₂] at hc₃
  have hallowed : Allowed (step samplePrims) NotForgotten sampleAccept resubmittedRun := by
    refine ⟨?_, ?_, ?_, ?_, trivial⟩
    · exact notForgotten_of_fresh (fun e he => by cases he) _
    · exact notForgotten_of_fresh (fun e he => by rw [hc₁] at he; cases he) _
    · exact notForgotten_of_fresh (fun e he => by rw [hc₂] at he; cases he) _
    · refine notForgotten_of_fresh (fun e he => ?_) _
      rw [hc₃] at he
      rw [List.mem_singleton.1 he]
      exact ⟨0, rfl, by decide⟩
  exact credited_once samplePrims "s1" _ 3333 _ resubmittedRun hallowed

/-- The miner authorizes its worker again before it sends the share again. -/
def replayedRun : List Input :=
  [sampleSubscribe, sampleAuthorize, sampleSubmit, sampleAuthorize, sampleSubmit]

/-- The share is credited twice. -/
theorem share_credited_twice :
    ((run (step samplePrims) sampleAccept replayedRun).credited.map (·.key))
        = [sampleKey, sampleKey] ∧
      ¬ (run (step samplePrims) sampleAccept replayedRun).CreditedOnce := by
  obtain ⟨h₁, hc₁⟩ := sample_subscribe
  obtain ⟨h₂, hauth₂, hrecord₂, hc₂⟩ := sample_authorize h₁
  obtain ⟨h₃, hc₃⟩ := sample_submit h₂ hauth₂ hrecord₂
  obtain ⟨h₄, hauth₄, hrecord₄, hc₄⟩ := sample_authorize h₃
  obtain ⟨-, hc₅⟩ := sample_submit h₄ hauth₄ hrecord₄
  have hkeys : (run (step samplePrims) sampleAccept replayedRun).credited.map (·.key)
      = [sampleKey, sampleKey] := by
    simp only [replayedRun, run_cons, run_nil]
    rw [hc₅, hc₄, hc₃, hc₂, hc₁]
    rfl
  refine ⟨hkeys, fun honce => ?_⟩
  unfold CreditedOnce at honce
  rw [hkeys] at honce
  simp at honce

end Connection

end ZcashMiningPool
