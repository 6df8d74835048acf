import ZcashMiningPool.PoolCore.Share
import ZcashMiningPool.Stratum.Connections

/-!
# Who submits

What the validator learns of a share's origin, over every order of requests on any number of
sessions.

* `AcceptedIn` — the transcript shows a subscription of the session, and after it an accepted
  authorization of the worker.
* `SafeAddress` — letters, digits, `_` and `-`, and at least one of them.
* `Identified` — every share that reached the validator comes from an accepted worker of its
  session, carries the session's prefix and names a miner with a safe address.
* `safeAddress_minerAddress_iff` — an acceptable worker name gives one unless it starts with a dot.
* `identified_iff_namesMiner` — so along every history this is the only way to fail.
* `share_of_nobody` — a history in which it does.
-/

set_option autoImplicit false

namespace ZcashMiningPool

open StratumServer ShareValidator

/-! ## The address in a worker name -/

/-- An ASCII letter, a digit, `_` or `-`. -/
def isAddressChar (c : Char) : Bool :=
  ('a' ≤ c && c ≤ 'z') || ('A' ≤ c && c ≤ 'Z') || ('0' ≤ c && c ≤ '9') || c == '_' || c == '-'

def SafeAddress (address : String) : Prop :=
  address ≠ "" ∧ address.toList.all isAddressChar = true

instance (address : String) : Decidable (SafeAddress address) :=
  inferInstanceAs (Decidable (_ ∧ _))

theorem isNameChar_eq (c : Char) : isNameChar c = (isAddressChar c || c == '.') := by
  unfold isNameChar isAddressChar
  cases h : c == '.' <;> simp

/-- The first part of a text ends before the first separator. -/
theorem head?_splitAt (c : Char) (cs : List Char) :
    (Text.splitAt c cs).head? = some (cs.takeWhile (fun d => d != c)) := by
  induction cs with
  | nil => rfl
  | cons d ds ih =>
    rw [Text.splitAt]
    by_cases hd : d = c
    · rw [if_pos hd, List.takeWhile_cons_of_neg (by simp [hd])]
      rfl
    · rw [if_neg hd, List.takeWhile_cons_of_pos (by simp [hd])]
      cases hparts : Text.splitAt c ds with
      | nil =>
        rw [hparts] at ih
        cases ih
      | cons part parts =>
        rw [hparts] at ih
        simp only [List.head?_cons, Option.some.injEq] at ih ⊢
        rw [ih]

theorem toList_minerAddress (workerName : String) :
    (minerAddress workerName).toList = workerName.toList.takeWhile (fun d => d != '.') := by
  have hhead : (Text.fields '.' workerName).head?
      = some (String.ofList (workerName.toList.takeWhile (fun d => d != '.'))) := by
    unfold Text.fields
    rw [List.head?_map, head?_splitAt, Option.map_some]
  unfold minerAddress
  rw [List.headD_eq_head?_getD, hhead, Option.getD_some, String.toList_ofList]

/-- **Which names have a safe address**: of the acceptable ones, all but those that start with a
    dot. -/
theorem safeAddress_minerAddress_iff {workerName : String} (h : workerNameOk workerName = true) :
    SafeAddress (minerAddress workerName) ↔ workerName.toList.head? ≠ some '.' := by
  unfold workerNameOk at h
  simp only [Bool.and_eq_true, bne_iff_ne] at h
  obtain ⟨⟨hne, -⟩, hchars⟩ := h
  have hsafe : (minerAddress workerName).toList.all isAddressChar = true := by
    rw [toList_minerAddress, List.all_eq_true]
    intro c hc
    have hname := List.all_eq_true.1 hchars c (List.takeWhile_subset _ hc)
    have hdot := List.mem_takeWhile_imp hc
    rw [isNameChar_eq, Bool.or_eq_true] at hname
    rcases hname with hname | hname
    · exact hname
    · rw [bne_iff_ne] at hdot
      exact absurd (beq_iff_eq.1 hname) hdot
  have hempty : minerAddress workerName = "" ↔ workerName.toList.head? = some '.' := by
    rw [← String.toList_inj, toList_minerAddress]
    cases hcs : workerName.toList with
    | nil => exact absurd (String.toList_inj.1 hcs) hne
    | cons c cs =>
      by_cases hc : c = '.'
      · simp [hc]
      · simp [List.takeWhile_cons_of_pos, hc]
  unfold SafeAddress
  rw [ne_eq, hempty]
  exact ⟨fun h => h.1, fun h => ⟨h, hsafe⟩⟩

/-! ## What the transcript shows -/

/-- Session `i` subscribed. -/
def SubscribedIn (transcript : List Exchange) (i : ℕ) : Prop :=
  ∃ e ∈ transcript, e.index = i ∧ ∃ id, e.request = .subscribe id

/-- Session `i` subscribed, and later its worker was accepted. -/
def AcceptedIn (transcript : List Exchange) (i : ℕ) (workerName : String) : Prop :=
  ∃ before e after, transcript = before ++ e :: after ∧ SubscribedIn before i ∧ e.index = i ∧
    ∃ id password, e.request = .authorize id workerName password ∧
      e.responses = [.authorizeResult id true none]

theorem SubscribedIn.append {transcript : List Exchange} {i : ℕ} (h : SubscribedIn transcript i)
    (later : List Exchange) : SubscribedIn (transcript ++ later) i := by
  obtain ⟨e, he, hi⟩ := h
  exact ⟨e, List.mem_append_left _ he, hi⟩

theorem AcceptedIn.append {transcript : List Exchange} {i : ℕ} {workerName : String}
    (h : AcceptedIn transcript i workerName) (later : List Exchange) :
    AcceptedIn (transcript ++ later) i workerName := by
  obtain ⟨before, e, after, rfl, hrest⟩ := h
  exact ⟨before, e, after ++ later, by simp, hrest⟩

/-! ## One request -/

section Request

variable {server : StratumServer} {localPort : ℕ} {session : MinerSession}
  {request : ClientRequest}

/-- Only a subscription subscribes. -/
theorem subscribed_handleRequest
    (h : (server.handleRequest localPort session request).1.subscribed = true) :
    session.subscribed = true ∨ ∃ id, request = .subscribe id := by
  cases request with
  | subscribe id => exact .inr ⟨id, rfl⟩
  | authorize id workerName workerPassword =>
    simp only [handleRequest] at h
    split at h
    · exact .inl h
    · split at h <;> exact .inl h
  | submit id workerName jobId time nonce2 equihashSolution =>
    simp only [handleRequest] at h
    split at h <;> exact .inl h
  | _ => exact .inl h

/-- Only an accepted authorization of a subscriber authorizes. -/
theorem authorized_handleRequest {name : String}
    (h : name ∈ (server.handleRequest localPort session request).1.authorizedWorkers) :
    name ∈ session.authorizedWorkers ∨ session.subscribed = true ∧ workerNameOk name = true ∧
      ∃ id password, request = .authorize id name password ∧
        (server.handleRequest localPort session request).2.1 = [.authorizeResult id true none] := by
  cases request with
  | subscribe id =>
    simp only [handleRequest] at h
    split at h <;> exact .inl h
  | authorize id workerName workerPassword =>
    by_cases hsub : session.subscribed = true
    · by_cases hname : workerNameOk workerName = true
      · have heq : server.handleRequest localPort session (.authorize id workerName workerPassword)
            = (session.authorizeWorker workerName, [.authorizeResult id true none],
              some (.workerConnected session.sessionId workerName workerPassword localPort)) := by
          simp [handleRequest, hsub, hname]
        rw [heq] at h ⊢
        rcases Finset.mem_insert.1 h with rfl | h
        · exact .inr ⟨hsub, hname, id, workerPassword, rfl, rfl⟩
        · exact .inl h
      · simp only [handleRequest, hsub, hname, Bool.not_true, Bool.not_false, Bool.false_eq_true,
          if_false, if_true] at h
        exact .inl h
    · simp only [handleRequest, hsub, Bool.not_false, if_true] at h
      exact .inl h
  | submit id workerName jobId time nonce2 equihashSolution =>
    simp only [handleRequest] at h
    split at h <;> exact .inl h
  | _ => exact .inl h

/-- Which requests put a share before the validator, and what it says. -/
theorem shareSubmitted_handleRequest {id : RequestId} {sub : Submission} :
    (server.handleRequest localPort session request).2.2 = some (.shareSubmitted id sub) ↔
      (∃ jobId time nonce2 equihashSolution,
        request = .submit id sub.workerName jobId time nonce2 equihashSolution ∧
          sub = ⟨session.sessionId, sub.workerName, jobId, time, session.nonce1, nonce2,
            equihashSolution⟩) ∧
        sub.workerName ∈ session.authorizedWorkers := by
  cases request with
  | submit id' workerName jobId time nonce2 equihashSolution =>
    simp only [handleRequest]
    split
    · rename_i hauth
      constructor
      · intro h
        cases h
      · rintro ⟨⟨_, _, _, _, hreq, -⟩, hin⟩
        cases hreq
        exact absurd hin hauth
    · rename_i hauth
      constructor
      · intro h
        cases h
        exact ⟨⟨_, _, _, _, rfl, rfl⟩, not_not.1 hauth⟩
      · rintro ⟨⟨_, _, _, _, hreq, hsub⟩, -⟩
        cases hreq
        rw [hsub]
  | subscribe id' =>
    simp only [handleRequest]
    split <;> simp
  | authorize id' workerName workerPassword =>
    simp only [handleRequest]
    split
    · simp
    · split <;> simp
  | suggestTarget id' target => simp [handleRequest]
  | extranonceSubscribe id' => simp [handleRequest]
  | unknown id' method => simp [handleRequest]

end Request

/-! ## Histories -/

namespace Listener

/-- Every share that reached the validator is of a worker that its own session authorized after
    subscribing, carries the session's prefix, and names a miner. -/
def Identified (s : Listener) : Prop :=
  ∀ before e after, s.transcript = before ++ e :: after →
    ∀ id sub, e.event = some (.shareSubmitted id sub) →
      (∃ c, s.connections[e.index]? = some c ∧ sub.sessionId = c.session.sessionId ∧
        sub.nonce1 = c.session.nonce1) ∧
      AcceptedIn before e.index sub.workerName ∧ SafeAddress (minerAddress sub.workerName)

/-- A share that is let through is not of a worker whose name starts with a dot. -/
def NamesMiner (s : Listener) : ListenerOp → Prop
  | .request index (.submit _ workerName _ _ _ _) => ∀ c, s.connections[index]? = some c →
      c.connected = true → workerName ∈ c.session.authorizedWorkers →
        workerName.toList.head? ≠ some '.'
  | _ => True

/-- What the sessions know is in the transcript, and so are the shares of those who know it. -/
structure IdentityInv (s : Listener) : Prop where
  subscribed : ∀ (i : ℕ) c, s.connections[i]? = some c → c.session.subscribed = true →
    SubscribedIn s.transcript i
  authorized : ∀ (i : ℕ) c, s.connections[i]? = some c → ∀ name ∈ c.session.authorizedWorkers,
    AcceptedIn s.transcript i name ∧ workerNameOk name = true
  shares : ∀ before e after, s.transcript = before ++ e :: after →
    ∀ id sub, e.event = some (.shareSubmitted id sub) →
      (∃ c, s.connections[e.index]? = some c ∧ sub.sessionId = c.session.sessionId ∧
        sub.nonce1 = c.session.nonce1) ∧
      AcceptedIn before e.index sub.workerName ∧ workerNameOk sub.workerName = true

theorem IdentityInv.identified_iff {s : Listener} (h : IdentityInv s) :
    s.Identified ↔ ∀ e ∈ s.transcript, ∀ id sub, e.event = some (.shareSubmitted id sub) →
      sub.workerName.toList.head? ≠ some '.' := by
  constructor
  · intro hall e he id sub hsub
    obtain ⟨before, after, hsplit⟩ := List.append_of_mem he
    obtain ⟨-, -, hname⟩ := h.shares before e after hsplit id sub hsub
    exact (safeAddress_minerAddress_iff hname).1 (hall before e after hsplit id sub hsub).2.2
  · intro hall before e after hsplit id sub hsub
    obtain ⟨hsession, haccepted, hname⟩ := h.shares before e after hsplit id sub hsub
    have hmem : e ∈ s.transcript := hsplit ▸ List.mem_append_right before List.mem_cons_self
    exact ⟨hsession, haccepted, (safeAddress_minerAddress_iff hname).2 (hall e hmem id sub hsub)⟩

/-- The end of a list that is longer by one. -/
theorem append_singleton_eq {α : Type} {l before after : List α} {x e : α}
    (h : l ++ [x] = before ++ e :: after) :
    (before = l ∧ e = x) ∨ ∃ after', l = before ++ e :: after' := by
  rcases List.eq_nil_or_concat after with rfl | ⟨after', y, rfl⟩
  · have hend : l ++ [x] = before ++ [e] := h
    rw [List.append_singleton_inj] at hend
    exact .inl ⟨hend.1.symm, hend.2.symm⟩
  · right
    have hend : l ++ [x] = (before ++ e :: after') ++ [y] := by
      rw [h, List.append_assoc, List.cons_append, List.concat_eq_append]
    exact ⟨after', (List.append_singleton_inj.1 hend).1⟩

section Step

variable {s : Listener} {index : ℕ} {request : ClientRequest} {c : AcceptedConnection}

/-- A request of a connection that is up. -/
theorem step_request (hc : s.connections[index]? = some c) (hconn : c.connected = true) :
    s.step (.request index request) =
      { s with
        connections := s.connections.modify index (fun c' => { c' with
          session := (s.server.handleRequest c.localPort c.session request).1 })
        transcript := s.transcript ++ [⟨index, request,
          (s.server.handleRequest c.localPort c.session request).2.1,
          (s.server.handleRequest c.localPort c.session request).2.2⟩] } := by
  simp only [step, hc, hconn, if_true]

/-- Who a session is does not depend on what it asks. -/
theorem handleRequest_sessionId (server : StratumServer) (localPort : ℕ) (session : MinerSession)
    (request : ClientRequest) :
    (server.handleRequest localPort session request).1.sessionId = session.sessionId := by
  rcases handleRequest_cases server localPort session request with
    ⟨responses, event, heq, -⟩ | ⟨responses, heq⟩ | ⟨responses, workerName, password, -, heq⟩
  · rw [heq]
  · rw [heq]
  · rw [heq]
    rfl

/-- A change of the connections that keeps who they are, what they know and nothing else. -/
theorem IdentityInv.reconnect (h : IdentityInv s) {connections : List AcceptedConnection}
    (allocator : NonceAllocator) (latestNotify : Option Notify)
    (hnew : ∀ (i : ℕ) c, connections[i]? = some c →
      (∃ c₀, s.connections[i]? = some c₀ ∧ c₀.session = c.session) ∨
        c.session.subscribed = false ∧ c.session.authorizedWorkers = ∅)
    (hold : ∀ (i : ℕ) c, s.connections[i]? = some c →
      ∃ c', connections[i]? = some c' ∧ c'.session = c.session) :
    IdentityInv { s with
      allocator := allocator
      latestNotify := latestNotify
      connections := connections } where
  subscribed i c hc hsub := by
    rcases hnew i c hc with ⟨c₀, hc₀, hsame⟩ | ⟨hnot, -⟩
    · exact h.subscribed i c₀ hc₀ (hsame ▸ hsub)
    · rw [hnot] at hsub
      cases hsub
  authorized i c hc name hname := by
    rcases hnew i c hc with ⟨c₀, hc₀, hsame⟩ | ⟨-, hnone⟩
    · exact h.authorized i c₀ hc₀ name (hsame ▸ hname)
    · rw [hnone] at hname
      cases hname
  shares before e after hsplit id sub hsub := by
    obtain ⟨⟨c, hc, hid, hnonce⟩, hrest⟩ := h.shares before e after hsplit id sub hsub
    obtain ⟨c', hc', hsame⟩ := hold e.index c hc
    exact ⟨⟨c', hc', hsame ▸ hid, hsame ▸ hnonce⟩, hrest⟩

theorem identityInv_request (h : IdentityInv s) (hc : s.connections[index]? = some c)
    (hconn : c.connected = true) : IdentityInv (s.step (.request index request)) := by
  rw [step_request hc hconn]
  generalize hout : s.server.handleRequest c.localPort c.session request = out
  have hsession : ∀ (i : ℕ) c', (s.connections.modify index (fun c' => { c' with
      session := out.1 }))[i]? = some c' →
        (i = index ∧ c'.session = out.1) ∨ s.connections[i]? = some c' := by
    intro i c' hc'
    rw [List.getElem?_modify] at hc'
    obtain ⟨c₀, hc₀, rfl⟩ := Option.map_eq_some_iff.1 hc'
    split
    · rename_i hi
      exact .inl ⟨hi.symm, rfl⟩
    · exact .inr hc₀
  have hkept : ∀ (i : ℕ) c₀, s.connections[i]? = some c₀ → ∃ c',
      (s.connections.modify index (fun c' => { c' with session := out.1 }))[i]? = some c' ∧
        c'.session.sessionId = c₀.session.sessionId ∧ c'.session.nonce1 = c₀.session.nonce1 := by
    intro i c₀ hc₀
    rw [List.getElem?_modify, hc₀]
    refine ⟨_, rfl, ?_⟩
    split
    · rename_i hi
      subst hi
      rw [hc] at hc₀
      cases hc₀
      have hid := handleRequest_sessionId s.server c.localPort c.session request
      have hnonce := handleRequest_nonce1 s.server c.localPort c.session request
      rw [hout] at hid hnonce
      exact ⟨hid, hnonce⟩
    · exact ⟨rfl, rfl⟩
  constructor
  · intro i c' hc' hsub
    rcases hsession i c' hc' with ⟨rfl, hsame⟩ | hold
    · rw [hsame, ← hout] at hsub
      rcases subscribed_handleRequest hsub with hbefore | ⟨id, hreq⟩
      · exact (h.subscribed i c hc hbefore).append _
      · exact ⟨_, List.mem_append_right _ (List.mem_singleton_self _), rfl, id, hreq⟩
    · exact (h.subscribed i c' hold hsub).append _
  · intro i c' hc' name hname
    rcases hsession i c' hc' with ⟨rfl, hsame⟩ | hold
    · rw [hsame, ← hout] at hname
      rcases authorized_handleRequest hname with hbefore | ⟨hsub, hok, id, password, hreq, hresp⟩
      · obtain ⟨haccepted, hok⟩ := h.authorized i c hc name hbefore
        exact ⟨haccepted.append _, hok⟩
      · rw [hout] at hresp
        exact ⟨⟨s.transcript, _, [], rfl, h.subscribed i c hc hsub, rfl, id, password, hreq, hresp⟩,
          hok⟩
    · obtain ⟨haccepted, hok⟩ := h.authorized i c' hold name hname
      exact ⟨haccepted.append _, hok⟩
  · intro before e after hsplit id sub hsub
    rcases append_singleton_eq hsplit with ⟨rfl, rfl⟩ | ⟨after', hold⟩
    · rw [← hout] at hsub
      obtain ⟨⟨jobId, time, nonce2, equihashSolution, -, heq⟩, hin⟩ :=
        shareSubmitted_handleRequest.1 hsub
      obtain ⟨c', hc', hid, hnonce⟩ := hkept index c hc
      obtain ⟨haccepted, hok⟩ := h.authorized index c hc sub.workerName hin
      refine ⟨⟨c', hc', ?_, ?_⟩, haccepted, hok⟩
      · rw [hid, heq]
      · rw [hnonce, heq]
    · obtain ⟨⟨c₀, hc₀, hid, hnonce⟩, hrest⟩ := h.shares before e after' hold id sub hsub
      obtain ⟨c', hc', hid', hnonce'⟩ := hkept e.index c₀ hc₀
      exact ⟨⟨c', hc', hid.trans hid'.symm, hnonce.trans hnonce'.symm⟩, hrest⟩

/-- **Step lemma.** -/
theorem identityInv_step (h : IdentityInv s) (op : ListenerOp) : IdentityInv (s.step op) := by
  cases op with
  | connect sessionId localPort =>
    refine h.reconnect _ _ (fun i c hc => ?_) (fun i c hc => ?_)
    · rw [List.getElem?_append] at hc
      split at hc
      · exact .inl ⟨c, hc, rfl⟩
      · rw [List.getElem?_singleton] at hc
        split at hc
        · cases hc
          exact .inr ⟨rfl, rfl⟩
        · cases hc
    · have hlt := (List.getElem?_eq_some_iff.1 hc).1
      exact ⟨c, by rw [List.getElem?_append_left hlt, hc], rfl⟩
  | disconnect index =>
    refine h.reconnect s.allocator s.latestNotify (fun i c hc => ?_) (fun i c hc => ?_)
    · rw [List.getElem?_modify] at hc
      obtain ⟨c₀, hc₀, rfl⟩ := Option.map_eq_some_iff.1 hc
      refine .inl ⟨c₀, hc₀, ?_⟩
      split <;> rfl
    · rw [List.getElem?_modify, hc]
      refine ⟨_, rfl, ?_⟩
      split <;> rfl
  | request index request =>
    cases hc : s.connections[index]? with
    | none =>
      have hsame : s.step (.request index request) = s := by
        simp only [step, hc]
      rw [hsame]
      exact h
    | some c =>
      by_cases hconn : c.connected = true
      · exact identityInv_request h hc hconn
      · have hsame : s.step (.request index request) = s := by
          simp only [step, hc, hconn, if_false, Bool.false_eq_true]
        rw [hsame]
        exact h
  | broadcast job =>
    exact h.reconnect s.allocator _ (fun i c hc => .inl ⟨c, hc, rfl⟩) (fun i c hc => ⟨c, hc, rfl⟩)

/-- Without an exchange nothing is submitted. -/
theorem identified_of_transcript {s' : Listener} (h : IdentityInv s) (h' : IdentityInv s')
    (hsame : s'.transcript = s.transcript) (hs : s.Identified) : s'.Identified := by
  rw [h'.identified_iff, hsame]
  exact h.identified_iff.1 hs

/-- **Only a share of a worker without a miner is not identified.** -/
theorem identified_step_iff (h : IdentityInv s) (hs : s.Identified) (op : ListenerOp) :
    (s.step op).Identified ↔ s.NamesMiner op := by
  have hnext := identityInv_step h op
  cases op with
  | connect sessionId localPort =>
    exact ⟨fun _ => trivial, fun _ => identified_of_transcript h hnext rfl hs⟩
  | disconnect index =>
    exact ⟨fun _ => trivial, fun _ => identified_of_transcript h hnext rfl hs⟩
  | broadcast job =>
    exact ⟨fun _ => trivial, fun _ => identified_of_transcript h hnext rfl hs⟩
  | request index request =>
    by_cases hup : ∃ c, s.connections[index]? = some c ∧ c.connected = true
    · obtain ⟨c, hc, hconn⟩ := hup
      rw [hnext.identified_iff]
      have hold := h.identified_iff.1 hs
      rw [step_request hc hconn]
      constructor
      · intro hall
        cases request with
        | submit id workerName jobId time nonce2 equihashSolution =>
          intro c' hc' _ hauth
          rw [hc] at hc'
          cases hc'
          exact hall _ (List.mem_append_right _ (List.mem_singleton_self _)) id
            ⟨c.session.sessionId, workerName, jobId, time, c.session.nonce1, nonce2,
              equihashSolution⟩
            (shareSubmitted_handleRequest.2 ⟨⟨_, _, _, _, rfl, rfl⟩, hauth⟩)
        | _ => trivial
      · intro hnames e he id sub hsub
        rcases List.mem_append.1 he with he | he
        · exact hold e he id sub hsub
        · rw [List.mem_singleton.1 he] at hsub
          obtain ⟨⟨jobId, time, nonce2, equihashSolution, rfl, -⟩, hauth⟩ :=
            shareSubmitted_handleRequest.1 hsub
          exact hnames c hc hconn hauth
    · have hsame : s.step (.request index request) = s := by
        simp only [step]
        cases hc : s.connections[index]? with
        | none => rfl
        | some c => exact if_neg fun hconn => hup ⟨c, hc, hconn⟩
      rw [hsame]
      refine ⟨fun _ => ?_, fun _ => hs⟩
      cases request with
      | submit id workerName jobId time nonce2 equihashSolution =>
        intro c hc hconn _
        exact absurd ⟨c, hc, hconn⟩ hup
      | _ => trivial

end Step

theorem identityInv_start (allocator : NonceAllocator) (portInitial : ℕ → Option (ℚ × String))
    (fallbackInitial : ℚ × String) : IdentityInv (start allocator portInitial fallbackInitial) where
  subscribed i c hc := by cases hc
  authorized i c hc := by cases hc
  shares before e after hsplit := by
    have hnil : ([] : List Exchange) = before ++ e :: after := hsplit
    exact absurd hnil.symm (by simp)

/-- **When every share is identified**: along every history of any number of sessions, exactly when
    no share that is let through is of a worker whose name starts with a dot. -/
theorem identified_iff_namesMiner (allocator : NonceAllocator)
    (portInitial : ℕ → Option (ℚ × String)) (fallbackInitial : ℚ × String)
    (ops : List ListenerOp) :
    Machine.Always step Identified (start allocator portInitial fallbackInitial) ops ↔
      Machine.Allowed step NamesMiner (start allocator portInitial fallbackInitial) ops := by
  have hstart := identityInv_start allocator portInitial fallbackInitial
  have hnobody : (start allocator portInitial fallbackInitial).Identified := by
    rw [hstart.identified_iff]
    intro e he
    cases he
  have hkeep : ∀ s op, IdentityInv s → s.Identified → True → s.NamesMiner op →
      IdentityInv (s.step op) := fun _ op h _ _ _ => identityInv_step h op
  have hgood : ∀ s op, IdentityInv s → s.Identified → True →
      ((s.step op).Identified ↔ s.NamesMiner op) := fun _ op h hs _ => identified_step_iff h hs op
  exact Machine.always_iff_allowed hkeep hgood hstart hnobody
    (Machine.allowed_of_forall (fun _ _ => trivial) _ _)

/-- A worker `.rig`. -/
def namelessMiner : List ListenerOp :=
  [.connect "s1" 3333, .request 0 (.subscribe "1"), .request 0 (.authorize "2" ".rig" "x"),
    .request 0 (.submit "3" ".rig" "job" "00000000" "00" "00")]

/-- **Counterexample.**  The worker is accepted, and its share reaches the validator with an empty
    miner address. -/
theorem share_of_nobody :
    minerAddress ".rig" = "" ∧
      ¬ Machine.Always step Identified
        (start (NonceAllocator.new 4 (by decide)) (fun _ => none) (1, "ff")) namelessMiner := by
  have haddress : minerAddress ".rig" = "" := by decide
  refine ⟨haddress, fun h => ?_⟩
  have hlast := Machine.Always.last h
  have hshare : ∃ before e after, (Machine.run step
      (start (NonceAllocator.new 4 (by decide)) (fun _ => none) (1, "ff"))
      namelessMiner).transcript = before ++ e :: after ∧ e.event = some (.shareSubmitted "3"
        ⟨"s1", ".rig", "job", "00000000", "01000000", "00", "00"⟩) := by
    refine ⟨_, _, [], (List.dropLast_append_getLast (l := (Machine.run step
      (start (NonceAllocator.new 4 (by decide)) (fun _ => none) (1, "ff"))
      namelessMiner).transcript) (by decide +kernel)).symm, by decide +kernel⟩
  obtain ⟨before, e, after, hsplit, hevent⟩ := hshare
  obtain ⟨-, -, hsafe⟩ := hlast before e after hsplit _ _ hevent
  exact hsafe.1 haddress

end Listener

end ZcashMiningPool
