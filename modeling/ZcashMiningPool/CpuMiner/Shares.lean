import ZcashMiningPool.CpuMiner.Program
import ZcashMiningPool.PoolCore.HeaderInput
import ZcashMiningPool.PoolCore.JobManager
import ZcashMiningPool.PoolCore.SolutionBytes
import ZcashMiningPool.Stratum.Server

/-!
# The miner's shares at the pool

What the miner submits, read by the pool: both programs compute the same header from what they
told each other, so a share that the miner lets pass, passes.

* `Sends` — what the pool says to one session: its prefix, targets of `T`, jobs of `A`.
* `FromPool` — the events of a run against that pool; the solver returns valid solutions.
* `Inv` — the jobs being mined are jobs that were announced, with the header that the pool builds.

Main result: `submitted_share_verifies`.
-/

set_option autoImplicit false

namespace ZcashMiningPool

namespace CpuMiner

open Machine

/-! ## The conversation -/

/-- A job with complete fields, the time of its template, and a network target. -/
structure Announceable (job : MiningJob) : Prop where
  hex : job.WellFormedHex
  time : job.timeHex = Text.hexEncode (leBytes 4 job.template.curtime)
  curtime : job.template.curtime < 2 ^ 32
  target : ∃ t, parseTarget job.template.target = .ok t

section

variable (text : JsonText) (prims : Primitives) (workerName : String) (session : MinerSession)
  (nonce1 : Bytes) (A : Set MiningJob) (T : Set Bytes32)

def Sends : ServerMessage → Prop
  | .subscribeResult _ _ nonce1Hex _ => nonce1Hex = session.nonce1
  | .setTarget target => ∃ t ∈ T, parseTarget target = .ok t
  | .notify n => ∃ job ∈ A, ∃ cleanJobs, n = job.toNotify cleanJobs
  | _ => True

def FromPool (m : Miner) : Event → Prop
  | .receive msg => (∃ sm, Sends session A T sm ∧ msg = sm.toJson text) ∨ msg = pingJson
  | .report j t solutions => ∀ job counter, m.threadAt j t = some (job, .solving counter) →
      ∀ s ∈ solutions, s.length = rawSolutionSize ∧
        prims.isValidSolution job.header (job.nonce counter) s = .ok ()
  | _ => True

/-- `group` mines `job`. -/
structure Mines (job : MiningJob) (group : MineJob) : Prop where
  jobId_eq : group.jobId = job.jobId
  timeHex_eq : group.timeHex = job.timeHex
  built : buildHeaderInput job job.timeHex = .ok group.header
  nonce1_eq : group.nonce1 = nonce1
  nonce2Size_eq : group.nonce2Size = 32 - nonce1.length

/-- A solution of an announced job for a nonce that was tried, meeting a target that the miner
    had. -/
structure Solved (tried : List Tried) (job : MiningJob) (group : MineJob) (counter : ℕ)
    (solution : Bytes) (target : Bytes32) : Prop where
  mines : Mines nonce1 job group
  attempted : ∃ e ∈ tried, e.counter = counter ∧ e.nonce = group.nonce counter
  target_mem : target = defaultTarget ∨ target ∈ T
  size : solution.length = rawSolutionSize
  valid : prims.isValidSolution group.header (group.nonce counter) solution = .ok ()
  meets : meetsTarget (prims.sha256d (group.fullHeader counter solution)) target = true

/-- A line that submits such a solution. -/
def IsShare (tried : List Tried) (line : Json) : Prop :=
  ∃ job ∈ A, ∃ group counter solution target,
    Solved prims nonce1 T tried job group counter solution target ∧
      line = group.submit workerName counter solution

structure Inv (m : Miner) : Prop where
  nonce1Hex : ∀ h, m.nonce1Hex = some h → h = session.nonce1
  target : m.target = defaultTarget ∨ m.target ∈ T
  jobs : ∀ group ∈ m.jobs, ∃ job ∈ A, Mines nonce1 job group
  sent : ∀ line ∈ m.sent, line = subscribeRequest ∨ line = authorizeRequest workerName ∨
    IsShare prims workerName nonce1 A T m.tried line

end

/-! ## What the miner reads -/

section

variable {text : JsonText}

theorem get_notification (method : String) (params : List Json) :
    (ServerMessage.notificationJson method params).get "id" = some .null ∧
      (ServerMessage.notificationJson method params).get "method" = some (.str method) ∧
      (ServerMessage.notificationJson method params).get "params" = some (.arr params) := by
  simp [ServerMessage.notificationJson, Json.get, List.lookup_cons]

theorem get_response (id result error : Json) :
    (ServerMessage.responseJson id result error).get "id" = some id ∧
      (ServerMessage.responseJson id result error).get "method" = none ∧
      (ServerMessage.responseJson id result error).get "result" = some result := by
  simp [ServerMessage.responseJson, Json.get, List.lookup_cons]

/-- A response changes nothing once the miner is subscribed. -/
theorem handle_response (nonce1Hex : String) (m : Miner) (id result error : Json) :
    m.handle nonce1Hex (ServerMessage.responseJson id result error) = m := by
  obtain ⟨hid, hmethod, -⟩ := get_response id result error
  unfold Miner.handle
  rw [hid, hmethod]
  simp

theorem handle_notification (nonce1Hex : String) (m : Miner) (method : String)
    (params : List Json) :
    m.handle nonce1Hex (ServerMessage.notificationJson method params) =
      if method = "mining.set_target" then
        match ((params[0]?).bind Json.asStr).map parseTarget with
        | some (.ok target) => { m with target := target }
        | _ => m
      else if method = "mining.notify" then m.notified nonce1Hex params
      else m := by
  obtain ⟨hid, hmethod, hparams⟩ := get_notification method params
  unfold Miner.handle
  rw [hid, hmethod, hparams]
  rfl

theorem verdictJson_response (id : Json) (ok : Bool) (error : Option StratumError) :
    ∃ result e, ServerMessage.verdictJson id ok error = ServerMessage.responseJson id result e := by
  unfold ServerMessage.verdictJson
  split
  · exact ⟨_, _, rfl⟩
  · exact ⟨_, _, rfl⟩

/-- A verdict is no list. -/
theorem verdictJson_result (id : Json) (ok : Bool) (error : Option StratumError) :
    ((ServerMessage.verdictJson id ok error).get "result").bind Json.asArray = none := by
  unfold ServerMessage.verdictJson
  split
  · rw [(get_response _ _ _).2.2]
    rfl
  · rw [(get_response _ _ _).2.2]
    rfl

/-- The announced fields decode to the header that the pool builds. -/
theorem decodeHeader_notify {job : MiningJob} {header : Bytes} {rest : List Json} :
    Miner.decodeHeader (.str job.jobId :: .str job.versionHex :: .str job.prevHashHex ::
        .str job.merkleRootHex :: .str job.reservedHex :: .str job.timeHex ::
        .str job.bitsHex :: rest) = some header ↔
      buildHeaderInput job job.timeHex = .ok header := by
  unfold buildHeaderInput
  rw [concatHex_eq_ok]
  simp only [Miner.decodeHeader, Option.map_eq_some_iff, List.map_cons, List.map_nil, Json.textAt,
    headerFields]
  constructor
  · rintro ⟨parts, hparts, rfl⟩
    exact ⟨parts, hparts, rfl⟩
  · rintro ⟨parts, hparts, rfl⟩
    exact ⟨parts, hparts, rfl⟩

end

/-! ## What every event keeps -/

section

variable {text : JsonText} {prims : Primitives} {workerName : String} {session : MinerSession}
  {nonce1 : Bytes} {A : Set MiningJob} {T : Set Bytes32} {m : Miner}

theorem inv_start : Inv prims workerName session nonce1 A T Miner.start where
  nonce1Hex := fun _ h => nomatch h
  target := .inl rfl
  jobs := fun _ h => nomatch h
  sent := fun _ h => .inl (List.mem_singleton.1 h)

theorem Inv.stop (h : Inv prims workerName session nonce1 A T m) :
    Inv prims workerName session nonce1 A T m.stop := ⟨h.nonce1Hex, h.target, h.jobs, h.sent⟩

theorem IsShare.mono {tried tried' : List Tried} (hsub : ∀ e ∈ tried, e ∈ tried') {line : Json}
    (h : IsShare prims workerName nonce1 A T tried line) :
    IsShare prims workerName nonce1 A T tried' line := by
  obtain ⟨job, hjob, group, counter, solution, target, hs, hline⟩ := h
  obtain ⟨e, he, hcounter, hnonce⟩ := hs.attempted
  exact ⟨job, hjob, group, counter, solution, target,
    ⟨hs.mines, ⟨e, hsub e he, hcounter, hnonce⟩, hs.target_mem, hs.size, hs.valid, hs.meets⟩,
    hline⟩

/-- The answer to the subscription gives the prefix of the session. -/
theorem Inv.awaitSubscription (h : Inv prims workerName session nonce1 A T m) {msg : Json}
    (hmsg : FromPool text prims session A T m (.receive msg)) :
    Inv prims workerName session nonce1 A T (m.awaitSubscription workerName msg) := by
  unfold Miner.awaitSubscription
  split
  · next literal hid =>
    split
    · split
      · exact h.stop
      · next result hresult =>
        split
        · exact h.stop
        · refine ⟨fun n1 hn1 => ?_, h.target, h.jobs, fun line hline => ?_⟩
          · cases hn1
            -- only the answer to a subscription has an array for its result
            obtain ⟨sm, hsends, rfl⟩ | rfl := hmsg
            · cases sm with
              | subscribeResult id sessionId nonce1Hex size =>
                obtain ⟨-, -, hr⟩ := get_response (text.idOf id) (.arr [.arr [.str "mining.notify",
                  .str sessionId], .str nonce1Hex, .number (toString size)]) .null
                rw [ServerMessage.toJson, hr] at hresult
                cases hresult
                exact hsends
              | authorizeResult id ok error =>
                rw [ServerMessage.toJson, verdictJson_result] at hresult
                cases hresult
              | submitResult id ok error =>
                rw [ServerMessage.toJson, verdictJson_result] at hresult
                cases hresult
              | setTarget target =>
                rw [ServerMessage.toJson, (get_notification _ _).1] at hid
                cases hid
              | setDifficulty difficulty =>
                rw [ServerMessage.toJson, (get_notification _ _).1] at hid
                cases hid
              | notify n =>
                rw [ServerMessage.toJson, (get_notification _ _).1] at hid
                cases hid
            · rw [pingJson, (get_notification _ _).1] at hid
              cases hid
          · obtain hline | hline := List.mem_append.1 hline
            · exact h.sent line hline
            · exact .inr (.inl (List.mem_singleton.1 hline))
    · exact h
  · exact h

/-- An announced job is mined with the header of the pool, or not at all. -/
theorem Inv.notified (h : Inv prims workerName session nonce1 A T m)
    (hsession : session.nonce1 = Text.hexEncode nonce1) {job : MiningJob} (hjob : job ∈ A)
    (cleanJobs : Bool) {nonce1Hex : String} (hnonce : m.nonce1Hex = some nonce1Hex) :
    Inv prims workerName session nonce1 A T (m.notified nonce1Hex [.str job.jobId,
      .str job.versionHex, .str job.prevHashHex, .str job.merkleRootHex, .str job.reservedHex,
      .str job.timeHex, .str job.bitsHex, .bool cleanJobs]) := by
  unfold Miner.notified
  split
  · exact h.stop
  · simp only
    split
    · exact h
    · split
      · next header n1 hheader hn1 =>
        rw [h.nonce1Hex nonce1Hex hnonce, hsession, Text.hexDecode_hexEncode] at hn1
        obtain rfl := Option.some.inj hn1
        refine ⟨h.nonce1Hex, h.target, fun group hgroup => ?_, h.sent⟩
        obtain hgroup | hgroup := List.mem_append.1 hgroup
        · exact h.jobs group hgroup
        · obtain rfl := List.mem_singleton.1 hgroup
          exact ⟨job, hjob, rfl, rfl, decodeHeader_notify.1 hheader, rfl, rfl⟩
      · exact h.stop

theorem Inv.handle (h : Inv prims workerName session nonce1 A T m)
    (hsession : session.nonce1 = Text.hexEncode nonce1) {msg : Json}
    (hmsg : FromPool text prims session A T m (.receive msg)) {nonce1Hex : String}
    (hnonce : m.nonce1Hex = some nonce1Hex) :
    Inv prims workerName session nonce1 A T (m.handle nonce1Hex msg) := by
  obtain ⟨sm, hsends, rfl⟩ | rfl := hmsg
  · cases sm with
    | subscribeResult id sessionId n1 size =>
      rw [ServerMessage.toJson, handle_response]
      exact h
    | authorizeResult id ok error =>
      obtain ⟨result, e, heq⟩ := verdictJson_response (text.idOf id) ok error
      rw [ServerMessage.toJson, heq, handle_response]
      exact h
    | submitResult id ok error =>
      obtain ⟨result, e, heq⟩ := verdictJson_response (text.idOf id) ok error
      rw [ServerMessage.toJson, heq, handle_response]
      exact h
    | setTarget target =>
      obtain ⟨t, ht, hparse⟩ := hsends
      rw [ServerMessage.toJson, handle_notification, if_pos rfl]
      simp only [List.getElem?_cons_zero, Option.bind_some, Json.asStr, Option.map_some, hparse]
      exact ⟨h.nonce1Hex, .inr ht, h.jobs, h.sent⟩
    | setDifficulty difficulty =>
      rw [ServerMessage.toJson, handle_notification, if_neg (by decide), if_neg (by decide)]
      exact h
    | notify n =>
      obtain ⟨job, hjob, cleanJobs, rfl⟩ := hsends
      rw [ServerMessage.toJson, handle_notification, if_neg (by decide), if_pos rfl]
      exact h.notified hsession hjob cleanJobs hnonce
  · rw [pingJson, handle_notification, if_neg (by decide), if_neg (by decide)]
    exact h

theorem Inv.setThread (h : Inv prims workerName session nonce1 A T m) (j t : ℕ)
    (thread : Thread) : Inv prims workerName session nonce1 A T (m.setThread j t thread) := by
  refine ⟨h.nonce1Hex, h.target, fun group hgroup => ?_, h.sent⟩
  obtain ⟨i, hi⟩ := List.mem_iff_getElem?.1 hgroup
  rw [Miner.setThread, List.getElem?_modify] at hi
  cases hold : m.jobs[i]? with
  | none =>
    rw [hold] at hi
    cases hi
  | some old =>
    obtain ⟨job, hjob, hmines⟩ := h.jobs old (List.mem_of_getElem? hold)
    rw [hold] at hi
    by_cases hij : j = i
    · simp only [hij, if_true] at hi
      cases hi
      exact ⟨job, hjob, hmines.1, hmines.2, hmines.3, hmines.4, hmines.5⟩
    · simp only [hij, if_false] at hi
      cases hi
      exact ⟨job, hjob, hmines⟩

theorem threadAt_mem {j t : ℕ} {job : MineJob} {thread : Thread}
    (h : m.threadAt j t = some (job, thread)) : job ∈ m.jobs := by
  unfold Miner.threadAt at h
  obtain ⟨g, hg, h⟩ := Option.bind_eq_some_iff.1 h
  obtain ⟨th, -, heq⟩ := Option.map_eq_some_iff.1 h
  cases heq
  exact List.mem_of_getElem? hg

theorem Inv.step (h : Inv prims workerName session nonce1 A T m)
    (hsession : session.nonce1 = Text.hexEncode nonce1) {e : Event}
    (he : FromPool text prims session A T m e) :
    Inv prims workerName session nonce1 A T (step prims.sha256d workerName m e) := by
  unfold CpuMiner.step
  split
  · exact h
  · cases e with
    | closed => exact h.stop
    | receive msg =>
      simp only [Miner.receive]
      split
      · exact h.awaitSubscription he
      · next nonce1Hex hnonce => exact h.handle hsession he hnonce
    | check j t =>
      simp only [Miner.check]
      split
      · split
        · exact h.setThread j t _
        · exact h.setThread j t _
      · exact h
    | report j t solutions =>
      simp only [Miner.report]
      split
      · next group counter hthread =>
        have hkeep := h.setThread j t (.ready ((counter + numThreads) % 2 ^ 64))
        refine ⟨hkeep.nonce1Hex, hkeep.target, hkeep.jobs, fun line hline => ?_⟩
        obtain hline | hline := List.mem_append.1 hline
        · exact (h.sent line hline).imp_right (.imp_right (.mono fun e => List.mem_append_left _))
        · unfold Miner.shares at hline
          obtain ⟨solution, hsolution, rfl⟩ := List.mem_map.1 hline
          obtain ⟨hmem, hmeets⟩ := List.mem_filter.1 hsolution
          obtain ⟨hlen, hvalid⟩ := he group counter hthread solution hmem
          obtain ⟨job, hjob, hmines⟩ := h.jobs group (threadAt_mem hthread)
          have htried : (⟨j, counter, group.nonce counter⟩ : Tried)
              ∈ m.tried ++ [⟨j, counter, group.nonce counter⟩] := List.mem_concat_self
          exact .inr (.inr ⟨job, hjob, group, counter, solution, m.target,
            ⟨hmines, ⟨_, htried, rfl, rfl⟩, h.target, hlen, hvalid, hmeets⟩, rfl⟩)
      · exact h

/-! ## What the pool reads -/

theorem ofJson_submitRequest (text : JsonText) (workerName jobId timeHex nonce2Hex
    solutionHex : String) :
    ClientRequest.ofJson text (submitRequest workerName jobId timeHex nonce2Hex solutionHex)
      = some (.submit (text.idText (.number "4")) workerName jobId timeHex nonce2Hex
          solutionHex) := rfl

theorem length_nonce {job : MiningJob} {group : MineJob} (h : Mines nonce1 job group)
    (hlen : nonce1.length ≤ 32) (counter : ℕ) : (group.nonce counter).length = 32 := by
  unfold MineJob.nonce
  rw [h.nonce1_eq, h.nonce2Size_eq, List.length_append, List.length_append, List.length_take,
    length_leBytes, List.length_replicate]
  omega

theorem hexDigit_ne_plus {n : ℕ} (h : n < 16) : Text.hexDigit n ≠ '+' := by
  have hall : ∀ i : Fin 16, Text.hexDigit i.1 ≠ '+' := by decide
  exact hall ⟨n, h⟩

/-- A text without a sign. -/
theorem parseHexU32_unsigned {s : String} (hne : s.toList ≠ [])
    (hplus : ∀ cs, s.toList ≠ '+' :: cs) :
    Text.parseHexU32 s = (Text.hexNumber s.toList).filter (fun n => decide (n < 2 ^ 32)) := by
  unfold Text.parseHexU32
  simp only
  split
  · next h => exact absurd h hne
  · rfl

/-- Four bytes in hexadecimal are a `u32`. -/
theorem parseHexU32_hexEncode {bs : Bytes} (h : bs.length = 4) :
    Text.parseHexU32 (Text.hexEncode bs) = some (beNat bs) := by
  have hlt := beNat_lt bs
  rw [h] at hlt
  have hchars : (Text.hexEncode bs).toList = Text.hexDigits bs := String.toList_ofList
  match bs, h with
  | b :: rest, _ =>
    have hcons : Text.hexDigits (b :: rest) = Text.hexDigit (b.toNat / 16) ::
        Text.hexDigit (b.toNat % 16) :: Text.hexDigits rest := rfl
    have hb := b.toNat_lt
    have hplus := hexDigit_ne_plus (n := b.toNat / 16) (by omega)
    rw [parseHexU32_unsigned, hchars, hexNumber_of_hexPairs (Text.hexPairs_hexDigits _),
      Option.filter_some, if_pos]
    · simpa using hlt
    · rw [hchars, hcons]
      exact List.cons_ne_nil _ _
    · intro cs hcs
      rw [hchars, hcons] at hcs
      exact hplus (List.cons.inj hcs).1

/-- The time of the template passes the clamp until the clock is 90 seconds behind it. -/
theorem checkNtime_announced {job : MiningJob} (hjob : Announceable job) {now : ℕ}
    (hnow : now < 2 ^ 32) (hcurtime : job.template.curtime ≤ now + 90) :
    checkNtime job.template.curtime now job.timeHex = .ok () := by
  have hlt := hjob.curtime
  have hswap : swapBytes (beNat (leBytes 4 job.template.curtime)) = job.template.curtime := by
    rw [swapBytes_beNat (length_leBytes 4 _)]
    rw [leNat_leBytes]
    exact Nat.mod_eq_of_lt (by simpa using hlt)
  unfold checkNtime
  rw [hjob.time, parseHexU32_hexEncode (length_leBytes 4 _)]
  simp only [hswap, asU32, Nat.mod_eq_of_lt hlt, Nat.mod_eq_of_lt hnow]
  rw [if_neg]
  omega

/-- The session is held to `target` or to something easier, or was a minute ago. -/
def Honours (v : ShareValidator) (sessionId : String) (target : Bytes32) (now : ℚ) : Prop :=
  beNat target.bytes
      ≤ beNat (sessionTargets v.defaultTarget (v.sessionDifficulty sessionId)).1.bytes ∨
    ∃ gt ∈ (sessionTargets v.defaultTarget (v.sessionDifficulty sessionId)).2.2,
      now - gt.setAt ≤ graceTargetMaxAge ∧ beNat target.bytes ≤ beNat gt.target.bytes

theorem Honours.meetsSession {v : ShareValidator} {sessionId : String} {target : Bytes32} {now : ℚ}
    (h : Honours v sessionId target now) {hash : Bytes32} (hash_meets : meetsTarget hash target) :
    MeetsSession v.defaultTarget (v.sessionDifficulty sessionId) hash now := by
  rw [meetsTarget_iff] at hash_meets
  obtain h | ⟨gt, hgt, hage, h⟩ := h
  · exact .inl ((meetsTarget_iff _ _).2 (hash_meets.trans h))
  · exact .inr ⟨gt, hgt, hage, (meetsTarget_iff _ _).2 (hash_meets.trans h)⟩

variable (workerName) in
/-- A share as the pool decodes it: the nonce and the solution that the miner hashed. -/
theorem decode_share {job : MiningJob} {group : MineJob} (h : Mines nonce1 job group)
    (hsession : session.nonce1 = Text.hexEncode nonce1) (hlen : nonce1.length ≤ 32) (counter : ℕ)
    {solution : Bytes} (hsize : solution.length = rawSolutionSize) :
    decodeSubmission ⟨session.sessionId, workerName, group.jobId, group.timeHex, session.nonce1,
      Text.hexEncode ((group.nonce counter).drop group.nonce1.length), Text.hexEncode solution⟩
        = .ok ⟨group.nonce counter, solution⟩ := by
  apply decodeSubmission_hexEncode
  · have hsplit : nonce1 ++ (group.nonce counter).drop group.nonce1.length
        = group.nonce counter := by
      rw [h.nonce1_eq]
      unfold MineJob.nonce
      rw [h.nonce1_eq, List.append_assoc, List.drop_left]
    rw [hsession, ← Text.hexEncode_append, hsplit]
  · exact length_nonce h hlen counter
  · rfl
  · exact hsize

/-- **Both programs hash the same bytes.** -/
theorem fullHeader_eq (group : MineJob) (counter : ℕ) {solution : Bytes}
    (hsize : solution.length = rawSolutionSize) :
    group.fullHeader counter solution
      = ZcashMiningPool.fullHeader group.header ⟨group.nonce counter, solution⟩ := by
  have hsizes : compactSize rawSolutionSize = ZcashMiningPool.compactSize rawSolutionSize := by
    decide
  unfold MineJob.fullHeader ZcashMiningPool.fullHeader DecodedShare.solutionForHeader
  rw [hsize, hsizes]

/-- A solved nonce as the validator checks it: it has the header and the hash of the miner. -/
theorem Solved.verified {tried : List Tried} {job : MiningJob} {group : MineJob} {counter : ℕ}
    {solution : Bytes} {target : Bytes32}
    (h : Solved prims nonce1 T tried job group counter solution target) (hjob : Announceable job)
    {clock : Clock} {v : ShareValidator} (hnow : clock.unix < 2 ^ 32)
    (hcurtime : job.template.curtime ≤ clock.unix + 90)
    (hhonours : Honours v session.sessionId target clock.instant) (nonce2 solutionHex : String) :
    ∃ s, v.verifyShare prims clock job ⟨session.sessionId, workerName, job.jobId, job.timeHex,
        session.nonce1, nonce2, solutionHex⟩ ⟨group.nonce counter, solution⟩ = .ok s ∧
      s.header = group.fullHeader counter solution ∧
      s.hash = prims.sha256d (group.fullHeader counter solution) := by
  have htime : checkNtime job.template.curtime clock.unix job.timeHex = .ok () :=
    checkNtime_announced hjob hnow hcurtime
  obtain ⟨difficulty, hcredit⟩ := creditDifficulty_isSome_iff.2 (hhonours.meetsSession h.meets)
  obtain ⟨network, hnetwork⟩ := hjob.target
  have hfull := fullHeader_eq group counter h.size
  rw [hfull] at hcredit
  let full := ZcashMiningPool.fullHeader group.header ⟨group.nonce counter, solution⟩
  refine ⟨⟨full, prims.sha256d full, difficulty, meetsTarget (prims.sha256d full) network⟩, ?_,
    hfull.symm, by rw [hfull]⟩
  simp only [ShareValidator.verifyShare, htime, h.mines.built, hcredit, h.valid, hnetwork, bind,
    Except.bind]
  rfl

/-- **What the miner submits, the pool accepts.**  Along every run of the miner against the pool,
    whatever its threads do meanwhile: each line it writes is its subscription, its authorization,
    or reads back as a share of an announced job for a nonce it tried; and that share decodes to
    the nonce and the solution it hashed, and passes the checks of a validator that honours the
    target it was mined for and whose clock is not 90 seconds behind the job, with the header and
    the hash that the miner computed. -/
theorem submitted_share_verifies (hA : ∀ job ∈ A, Announceable job)
    (hsession : session.nonce1 = Text.hexEncode nonce1) (hlen : nonce1.length ≤ 32)
    {es : List Event}
    (hes : Allowed (CpuMiner.step prims.sha256d workerName) (FromPool text prims session A T)
      Miner.start es)
    {line : Json}
    (hline : line ∈ (run (CpuMiner.step prims.sha256d workerName) Miner.start es).sent) :
    line = subscribeRequest ∨ line = authorizeRequest workerName ∨
    ∃ job ∈ A, ∃ group counter solution target,
      line = group.submit workerName counter solution ∧
      Solved prims nonce1 T (run (CpuMiner.step prims.sha256d workerName) Miner.start es).tried
        job group counter solution target ∧
      ∃ id nonce2 solutionHex,
        ClientRequest.ofJson text line
          = some (.submit id workerName job.jobId job.timeHex nonce2 solutionHex) ∧
        decodeSubmission ⟨session.sessionId, workerName, job.jobId, job.timeHex, session.nonce1,
          nonce2, solutionHex⟩ = .ok ⟨group.nonce counter, solution⟩ ∧
        ∀ (clock : Clock) (v : ShareValidator), clock.unix < 2 ^ 32 →
          job.template.curtime ≤ clock.unix + 90 →
          Honours v session.sessionId target clock.instant →
          ∃ s, v.verifyShare prims clock job ⟨session.sessionId, workerName, job.jobId,
              job.timeHex, session.nonce1, nonce2, solutionHex⟩ ⟨group.nonce counter, solution⟩
              = .ok s ∧
            s.header = group.fullHeader counter solution ∧
            s.hash = prims.sha256d (group.fullHeader counter solution) := by
  have hinv : Inv prims workerName session nonce1 A T
      (run (CpuMiner.step prims.sha256d workerName) Miner.start es) :=
    (always_of_allowed (fun _ _ h he => h.step hsession he) inv_start hes).last
  refine (hinv.sent line hline).imp_right (.imp_right ?_)
  rintro ⟨job, hjob, group, counter, solution, target, hs, rfl⟩
  have hdecode := decode_share workerName hs.mines hsession hlen counter hs.size
  rw [hs.mines.jobId_eq, hs.mines.timeHex_eq] at hdecode
  have hread := ofJson_submitRequest text workerName group.jobId group.timeHex
    (Text.hexEncode ((group.nonce counter).drop group.nonce1.length)) (Text.hexEncode solution)
  have hline' : group.submit workerName counter solution = submitRequest workerName group.jobId
      group.timeHex (Text.hexEncode ((group.nonce counter).drop group.nonce1.length))
      (Text.hexEncode solution) := rfl
  rw [← hline', hs.mines.jobId_eq, hs.mines.timeHex_eq] at hread
  exact ⟨job, hjob, group, counter, solution, target, rfl, hs, _, _, _, hread, hdecode,
    fun clock v hnow hcurtime hhonours => hs.verified (hA job hjob) hnow hcurtime hhonours _ _⟩

/-- The responses of the server are of this kind. -/
theorem sends_handleRequest {server : StratumServer}
    (hnotify : ∀ n, server.latestNotify = some n → ∃ job ∈ A, ∃ cleanJobs,
      n = job.toNotify cleanJobs)
    (htargets : ∀ port, ∃ t ∈ T,
      parseTarget ((server.portInitial port).getD server.fallbackInitial).2 = .ok t)
    (port : ℕ) (request : ClientRequest) :
    ∀ sm ∈ (server.handleRequest port session request).2.1, Sends session A T sm := by
  have hannounce : ∀ sm ∈ server.announcement port, Sends session A T sm := by
    intro sm hsm
    unfold StratumServer.announcement at hsm
    obtain hsm | hsm := List.mem_append.1 hsm
    · obtain rfl | hsm := List.mem_cons.1 hsm
      · trivial
      · obtain rfl := List.mem_singleton.1 hsm
        exact htargets port
    · obtain ⟨n, hn, rfl⟩ := Option.map_eq_some_iff.1 (Option.mem_toList.1 hsm)
      obtain ⟨job, hjob, cleanJobs, rfl⟩ := hnotify n hn
      exact ⟨job, hjob, true, rfl⟩
  intro sm hsm
  cases request with
  | subscribe id =>
    simp only [StratumServer.handleRequest] at hsm
    split at hsm
    · obtain rfl := List.mem_singleton.1 hsm
      exact rfl
    · obtain rfl | hsm := List.mem_cons.1 hsm
      · exact rfl
      · exact hannounce sm hsm
  | authorize id name password =>
    simp only [StratumServer.handleRequest] at hsm
    split at hsm
    · obtain rfl := List.mem_singleton.1 hsm
      trivial
    · split at hsm
      · obtain rfl := List.mem_singleton.1 hsm
        trivial
      · obtain rfl := List.mem_singleton.1 hsm
        trivial
  | submit id name jobId time nonce2 solution =>
    simp only [StratumServer.handleRequest] at hsm
    split at hsm
    · obtain rfl := List.mem_singleton.1 hsm
      trivial
    · cases hsm
  | suggestTarget id target => cases hsm
  | extranonceSubscribe id =>
    obtain rfl := List.mem_singleton.1 hsm
    trivial
  | unknown id method =>
    obtain rfl := List.mem_singleton.1 hsm
    trivial

end

/-! ## A share on its way -/

/-- Of all solutions, only the sample one is valid, for the first nonce. -/
def strictPrims : Primitives :=
  { samplePrims with
    isValidSolution := fun input nonce solution =>
      if input = sampleHeaderInput ∧ nonce = sampleDecoded.nonce ∧
          solution = sampleDecoded.rawSolution then .ok ()
      else .error "invalid" }

def sampleText : JsonText where
  idText j := match j with
    | .number literal => literal
    | _ => "null"
  idOf id := .number id
  floatText _ := "1.0"

def sampleSession : MinerSession := ⟨"s1", Text.hexEncode [1, 0, 0, 0], {"t1miner.rig"}, true⟩

/-- Subscribed, one job, and one nonce of the first thread, with a solution. -/
def sampleEvents : List Event :=
  [.receive ((ServerMessage.subscribeResult "1" "s1" sampleSession.nonce1 28).toJson sampleText),
   .receive ((ServerMessage.notify (sampleJob.toNotify true)).toJson sampleText),
   .check 0 0, .report 0 0 [sampleDecoded.rawSolution]]

def sampleGroup : MineJob :=
  ⟨sampleHeaderInput, [1, 0, 0, 0], 28, 0, "1", sampleJob.timeHex,
    [.solving 0, .ready 1, .ready 2, .ready 3]⟩

theorem strictPrims_valid :
    strictPrims.isValidSolution sampleGroup.header (sampleGroup.nonce 0) sampleDecoded.rawSolution
      = .ok () := by
  have hnonce : sampleGroup.nonce 0 = sampleDecoded.nonce := by decide
  have hheader : sampleGroup.header = sampleHeaderInput := rfl
  simp only [strictPrims, hnonce, hheader, and_self, if_true]

theorem sampleJob_announceable : Announceable sampleJob where
  hex := sampleJob_wellFormedHex
  time := rfl
  curtime := by decide
  target := ⟨Bytes32.fill 255, parseTarget_hexEncode _⟩

theorem sample_started :
    run (CpuMiner.step strictPrims.sha256d "t1miner.rig") Miner.start (sampleEvents.take 3)
      = { Miner.start with
          nonce1Hex := some sampleSession.nonce1
          isMining := true
          jobs := [sampleGroup]
          sent := [subscribeRequest, authorizeRequest "t1miner.rig"] } := by
  have hheader : Miner.decodeHeader [.str sampleJob.jobId, .str sampleJob.versionHex,
      .str sampleJob.prevHashHex, .str sampleJob.merkleRootHex, .str sampleJob.reservedHex,
      .str sampleJob.timeHex, .str sampleJob.bitsHex, .bool true] = some sampleHeaderInput :=
    decodeHeader_notify.2 sampleHeaderInput_built
  have hnonce : Text.hexDecode sampleSession.nonce1 = some [1, 0, 0, 0] :=
    Text.hexDecode_hexEncode _
  have hsubscribed : CpuMiner.step strictPrims.sha256d "t1miner.rig" Miner.start
      (.receive ((ServerMessage.subscribeResult "1" "s1" sampleSession.nonce1 28).toJson
        sampleText))
        = { Miner.start with
            nonce1Hex := some sampleSession.nonce1
            sent := [subscribeRequest, authorizeRequest "t1miner.rig"] } := rfl
  have hnotified : CpuMiner.step strictPrims.sha256d "t1miner.rig"
      { Miner.start with
        nonce1Hex := some sampleSession.nonce1
        sent := [subscribeRequest, authorizeRequest "t1miner.rig"] }
      (.receive ((ServerMessage.notify (sampleJob.toNotify true)).toJson sampleText))
        = { Miner.start with
            nonce1Hex := some sampleSession.nonce1
            isMining := true
            jobs := [{ sampleGroup with threads := (List.range 4).map Thread.ready }]
            sent := [subscribeRequest, authorizeRequest "t1miner.rig"] } := by
    simp only [CpuMiner.step, Miner.start, Bool.false_eq_true, if_false, Miner.receive,
      ServerMessage.toJson]
    rw [handle_notification, if_neg (by decide), if_pos rfl]
    simp only [Miner.notified, MiningJob.toNotify, hheader, hnonce]
    rfl
  simp only [sampleEvents, List.take, run_cons, run_nil, hsubscribed, hnotified]
  rfl

theorem sample_sent :
    sampleGroup.submit "t1miner.rig" 0 sampleDecoded.rawSolution
      ∈ (run (CpuMiner.step strictPrims.sha256d "t1miner.rig") Miner.start sampleEvents).sent := by
  have hmeets : meetsTarget (Bytes32.fill 1) defaultTarget = true := by decide
  have hsplit : sampleEvents = sampleEvents.take 3 ++ [.report 0 0 [sampleDecoded.rawSolution]] :=
    rfl
  rw [hsplit, run_append, sample_started]
  simp only [run_cons, run_nil, CpuMiner.step, Miner.start, Bool.false_eq_true, if_false,
    Miner.report, Miner.threadAt, sampleGroup, List.getElem?_cons_zero, Option.bind_some,
    Option.map_some, Miner.shares, strictPrims, samplePrims, hmeets, List.filter_cons,
    List.filter_nil, if_true, List.map_cons, List.map_nil, List.mem_append, List.mem_singleton,
    or_true]

theorem sample_fromPool :
    Allowed (CpuMiner.step strictPrims.sha256d "t1miner.rig")
      (FromPool sampleText strictPrims sampleSession {sampleJob} ∅) Miner.start sampleEvents :=
  ⟨.inl ⟨.subscribeResult "1" "s1" sampleSession.nonce1 28, rfl, rfl⟩,
    .inl ⟨.notify (sampleJob.toNotify true), ⟨sampleJob, rfl, true, rfl⟩, rfl⟩, trivial,
    fun job counter hthread s hs => by
      obtain rfl := List.mem_singleton.1 hs
      have hstarted := sample_started
      simp only [sampleEvents, List.take, run_cons, run_nil] at hstarted
      rw [hstarted] at hthread
      cases hthread
      exact ⟨List.length_replicate, strictPrims_valid⟩, trivial⟩

theorem sample_share_verifies :
    ∃ group counter solution id nonce2 solutionHex,
      ClientRequest.ofJson sampleText
          (sampleGroup.submit "t1miner.rig" 0 sampleDecoded.rawSolution)
        = some (.submit id "t1miner.rig" sampleJob.jobId sampleJob.timeHex nonce2 solutionHex) ∧
      ∀ v : ShareValidator, Honours v "s1" defaultTarget 1 →
        ∃ s, v.verifyShare strictPrims sampleClock sampleJob ⟨"s1", "t1miner.rig",
            sampleJob.jobId, sampleJob.timeHex, sampleSession.nonce1, nonce2, solutionHex⟩
            ⟨MineJob.nonce group counter, solution⟩ = .ok s ∧
          s.hash = strictPrims.sha256d (group.fullHeader counter solution) := by
  obtain h | h | ⟨job, rfl, group, counter, solution, target, -, hs, id, nonce2, solutionHex,
      hread, -, hverify⟩ :=
    submitted_share_verifies (fun job hjob => by cases hjob; exact sampleJob_announceable)
      (show sampleSession.nonce1 = Text.hexEncode [1, 0, 0, 0] from rfl) (by decide)
      sample_fromPool sample_sent
  · have hid : some (Json.number "4") = some (.number "1") := congrArg (Json.get · "id") h
    simp at hid
  · have hid : some (Json.number "4") = some (.number "2") := congrArg (Json.get · "id") h
    simp at hid
  · obtain rfl : target = defaultTarget := hs.target_mem.resolve_right fun h => h
    refine ⟨group, counter, solution, id, nonce2, solutionHex, hread, fun v hhonours => ?_⟩
    obtain ⟨s, hs, -, hhash⟩ := hverify sampleClock v (by decide) (by decide) hhonours
    exact ⟨s, hs, hhash⟩

end CpuMiner

end ZcashMiningPool
