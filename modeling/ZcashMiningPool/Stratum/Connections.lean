import Mathlib.Data.Nat.ModEq
import ZcashMiningPool.Library.Run
import ZcashMiningPool.Stratum.Server

/-!
# Connections

All connections of `stratum/src/server.rs` in the order in which they were accepted: each takes its
nonce prefix from the allocator, asks, and goes.

* `NonceAllocator` — a wrapping 32-bit counter, cut or padded to the configured size.
* `Listener` — allocator, connections and transcript; `step` — one event of the listener.
* `Disjoint` — no two sessions that are connected have the same nonce prefix.
* `nonceAt_eq_iff` — the prefixes repeat with the period of the allocator.
* `disjoint_iff_fresh` — no prefix is shared along a history exactly when nobody connects while a
  connection made some number of periods earlier is still there.
* `one_byte_nonces_repeat` — a history of 257 connections.
-/

set_option autoImplicit false

namespace ZcashMiningPool

open StratumServer

/-! ## The allocator -/

/-- Allocates NONCE_1 values; `new` asserts the size. -/
structure NonceAllocator where
  nonce1Size : ℕ
  size_ok : 0 < nonce1Size ∧ nonce1Size < 32
  counter : UInt32

namespace NonceAllocator

def new (nonce1Size : ℕ) (size_ok : 0 < nonce1Size ∧ nonce1Size < 32) : NonceAllocator :=
  ⟨nonce1Size, size_ok, 1⟩

/-- The little-endian bytes of `val`, as many as the prefix has; beyond the fourth they are 0. -/
def nonceBytes (nonce1Size : ℕ) (val : UInt32) : Bytes :=
  (List.range nonce1Size).map (fun i => (leBytes 4 val.toNat).getD i 0)

/-- Allocate the next NONCE_1 as a hex string; `fetch_add` wraps. -/
def allocate (a : NonceAllocator) : String × NonceAllocator :=
  (Text.hexEncode (nonceBytes a.nonce1Size a.counter), { a with counter := a.counter + 1 })

end NonceAllocator

/-! ## The listener -/

/-- A connection that was accepted. -/
structure AcceptedConnection where
  session : MinerSession
  localPort : ℕ
  connected : Bool

/-- A request of connection `index`, the responses, and what reached the validator. -/
structure Exchange where
  index : ℕ
  request : ClientRequest
  responses : List ServerMessage
  event : Option StratumEvent
  deriving DecidableEq, Repr

structure Listener where
  allocator : NonceAllocator
  portInitial : ℕ → Option (ℚ × String)
  fallbackInitial : ℚ × String
  latestNotify : Option Notify
  /-- In the order in which they were accepted. -/
  connections : List AcceptedConnection
  /-- Oldest first; nothing reads it. -/
  transcript : List Exchange

inductive ListenerOp where
  /-- `generate_session_id` chose `sessionId`. -/
  | connect (sessionId : String) (localPort : ℕ)
  | disconnect (index : ℕ)
  | request (index : ℕ) (request : ClientRequest)
  | broadcast (job : Notify)

namespace Listener

def start (allocator : NonceAllocator) (portInitial : ℕ → Option (ℚ × String))
    (fallbackInitial : ℚ × String) : Listener :=
  ⟨allocator, portInitial, fallbackInitial, none, [], []⟩

/-- What a session is told. -/
def server (s : Listener) : StratumServer :=
  ⟨s.allocator.nonce1Size, s.portInitial, s.fallbackInitial, s.latestNotify⟩

def step (s : Listener) : ListenerOp → Listener
  | .connect sessionId localPort =>
    let (nonce1, allocator) := s.allocator.allocate
    { s with
      allocator := allocator
      connections := s.connections ++ [⟨MinerSession.new sessionId nonce1, localPort, true⟩] }
  | .disconnect index =>
    { s with connections := s.connections.modify index (fun c => { c with connected := false }) }
  | .request index request =>
    match s.connections[index]? with
    | some c =>
      if c.connected then
        let (session, responses, event) := s.server.handleRequest c.localPort c.session request
        { s with
          connections := s.connections.modify index (fun c => { c with session := session })
          transcript := s.transcript ++ [⟨index, request, responses, event⟩] }
      else s
    | none => s
  | .broadcast job => { s with latestNotify := some job }

/-- Connection `i` is up, with prefix `nonce`. -/
def Holds (s : Listener) (i : ℕ) (nonce : String) : Prop :=
  ∃ c, s.connections[i]? = some c ∧ c.connected = true ∧ c.session.nonce1 = nonce

/-- No two sessions that are connected at the same time have the same prefix. -/
def Disjoint (s : Listener) : Prop :=
  ∀ i j nonce, s.Holds i nonce → s.Holds j nonce → i = j

/-- After how many connections the prefixes repeat. -/
def period (nonce1Size : ℕ) : ℕ := 256 ^ min nonce1Size 4

/-- Whoever connected a number of periods before a new connection is gone. -/
def Fresh (s : Listener) : ListenerOp → Prop
  | .connect _ _ => ∀ i nonce, s.Holds i nonce →
      ¬ period s.allocator.nonce1Size ∣ s.connections.length - i
  | _ => True

/-! ## The prefix of a connection -/

/-- The prefix of the connection that was accepted after `i` others. -/
def nonceAt (nonce1Size i : ℕ) : String :=
  Text.hexEncode (NonceAllocator.nonceBytes nonce1Size (UInt32.ofNat (i + 1)))

end Listener

theorem getElem?_leBytes (n x i : ℕ) :
    (leBytes n x)[i]? = if i < n then some (UInt8.ofNat (x / 256 ^ i % 256)) else none := by
  induction n generalizing x i with
  | zero => rfl
  | succ n ih =>
    cases i with
    | zero => simp [leBytes]
    | succ i =>
      have hdiv : x / 256 / 256 ^ i = x / 256 ^ (i + 1) := by
        rw [Nat.div_div_eq_div_mul, pow_succ, Nat.mul_comm]
      simp only [leBytes, List.getElem?_cons_succ, ih, hdiv, Nat.add_lt_add_iff_right]

/-- Two numbers with the same `n` low bytes. -/
theorem modEq_pow_iff (n x y : ℕ) :
    x % 256 ^ n = y % 256 ^ n ↔ ∀ i < n, x / 256 ^ i % 256 = y / 256 ^ i % 256 := by
  induction n with
  | zero => simp [Nat.mod_one]
  | succ n ih =>
    have hsplit : ∀ z : ℕ, z % 256 ^ (n + 1) = z % 256 ^ n + 256 ^ n * (z / 256 ^ n % 256) := by
      intro z
      rw [pow_succ, Nat.mod_mul]
    have hpos : 0 < 256 ^ n := by positivity
    have hx := Nat.mod_lt x hpos
    have hy := Nat.mod_lt y hpos
    constructor
    · intro h
      have hlow : x % 256 ^ n = y % 256 ^ n := by
        have h' := congrArg (· % 256 ^ n) h
        simpa only [Nat.mod_mod_of_dvd _ (Dvd.intro _ (pow_succ 256 n).symm)] using h'
      intro i hi
      rcases Nat.lt_succ_iff_lt_or_eq.1 hi with hlt | rfl
      · exact ih.1 hlow i hlt
      · rw [hsplit x, hsplit y, hlow] at h
        exact Nat.eq_of_mul_eq_mul_left hpos (Nat.add_left_cancel h)
    · intro h
      rw [hsplit x, hsplit y, ih.2 fun i hi => h i (Nat.lt_succ_of_lt hi), h n (Nat.lt_succ_self n)]

namespace Listener

theorem nonceBytes_eq_iff (nonce1Size : ℕ) (x y : UInt32) :
    NonceAllocator.nonceBytes nonce1Size x = NonceAllocator.nonceBytes nonce1Size y ↔
      x.toNat % period nonce1Size = y.toNat % period nonce1Size := by
  have hbyte : ∀ (z : UInt32) (i : ℕ), i < 4 →
      (leBytes 4 z.toNat).getD i 0 = UInt8.ofNat (z.toNat / 256 ^ i % 256) := by
    intro z i hi
    rw [List.getD_eq_getElem?_getD, getElem?_leBytes, if_pos hi, Option.getD_some]
  have hpad : ∀ (z : UInt32) (i : ℕ), 4 ≤ i → (leBytes 4 z.toNat).getD i 0 = 0 := by
    intro z i hi
    rw [List.getD_eq_getElem?_getD, getElem?_leBytes, if_neg (by omega), Option.getD_none]
  unfold NonceAllocator.nonceBytes period
  rw [modEq_pow_iff, List.map_inj_left]
  constructor
  · intro h i hi
    have hi4 : i < 4 := by omega
    have heq := h i (List.mem_range.2 (by omega))
    rw [hbyte x i hi4, hbyte y i hi4] at heq
    have hnat := congrArg UInt8.toNat heq
    rw [UInt8.toNat_ofNat', UInt8.toNat_ofNat'] at hnat
    omega
  · intro h i hi
    by_cases hi4 : i < 4
    · rw [hbyte x i hi4, hbyte y i hi4, h i (by have := List.mem_range.1 hi; omega)]
    · rw [hpad x i (by omega), hpad y i (by omega)]

theorem period_dvd (nonce1Size : ℕ) : period nonce1Size ∣ 2 ^ 32 := by
  have h4 : (2 ^ 32 : ℕ) = 256 ^ 4 := by norm_num
  rw [h4]
  exact pow_dvd_pow 256 (min_le_right _ _)

/-- **The prefixes repeat with the period.** -/
theorem nonceAt_eq_iff {nonce1Size i j : ℕ} :
    nonceAt nonce1Size i = nonceAt nonce1Size j ↔ i ≡ j [MOD period nonce1Size] := by
  have hmod : ∀ n : ℕ, (UInt32.ofNat n).toNat % period nonce1Size = n % period nonce1Size := by
    intro n
    rw [UInt32.toNat_ofNat', Nat.mod_mod_of_dvd _ (period_dvd nonce1Size)]
  unfold nonceAt
  rw [Text.hexEncode_inj, nonceBytes_eq_iff, hmod, hmod]
  exact Nat.ModEq.add_iff_right (Nat.ModEq.refl 1)

/-! ## Histories -/

/-- The counter counts the connections, and every connection has the prefix of its turn. -/
structure NonceInv (nonce1Size : ℕ) (s : Listener) : Prop where
  size : s.allocator.nonce1Size = nonce1Size
  counter : s.allocator.counter = UInt32.ofNat (s.connections.length + 1)
  nonces : ∀ (i : ℕ) c, s.connections[i]? = some c → c.session.nonce1 = nonceAt nonce1Size i

section Inv

variable {nonce1Size : ℕ} {s : Listener}

theorem NonceInv.holds_iff (h : NonceInv nonce1Size s) {i : ℕ} {nonce : String} :
    s.Holds i nonce ↔ (∃ c, s.connections[i]? = some c ∧ c.connected = true) ∧
      nonce = nonceAt nonce1Size i := by
  constructor
  · rintro ⟨c, hc, hconn, rfl⟩
    exact ⟨⟨c, hc, hconn⟩, h.nonces i c hc⟩
  · rintro ⟨⟨c, hc, hconn⟩, rfl⟩
    exact ⟨c, hc, hconn, h.nonces i c hc⟩

/-- A change of one connection that leaves its prefix alone. -/
theorem NonceInv.modify (h : NonceInv nonce1Size s) (index : ℕ)
    (f : AcceptedConnection → AcceptedConnection)
    (hf : ∀ c, s.connections[index]? = some c → (f c).session.nonce1 = c.session.nonce1)
    (i : ℕ) (c : AcceptedConnection) (hc : (s.connections.modify index f)[i]? = some c) :
    c.session.nonce1 = nonceAt nonce1Size i := by
  rw [List.getElem?_modify] at hc
  obtain ⟨c₀, hc₀, rfl⟩ := Option.map_eq_some_iff.1 hc
  split
  · rename_i hi
    subst hi
    exact (hf c₀ hc₀).trans (h.nonces _ c₀ hc₀)
  · exact h.nonces i c₀ hc₀

theorem handleRequest_nonce1 (server : StratumServer) (localPort : ℕ) (session : MinerSession)
    (request : ClientRequest) :
    (server.handleRequest localPort session request).1.nonce1 = session.nonce1 := by
  rcases handleRequest_cases server localPort session request with
    ⟨responses, event, heq, -⟩ | ⟨responses, heq⟩ | ⟨responses, workerName, password, -, heq⟩
  · rw [heq]
  · rw [heq]
  · rw [heq]
    rfl

/-- **Step lemma.** -/
theorem nonceInv_step (h : NonceInv nonce1Size s) (op : ListenerOp) :
    NonceInv nonce1Size (s.step op) := by
  cases op with
  | connect sessionId localPort =>
    refine ⟨h.size, ?_, ?_⟩
    · show s.allocator.counter + 1 = _
      simp only [step, List.length_append, List.length_singleton]
      rw [h.counter]
      exact (UInt32.ofNat_add _ 1).symm
    · intro i c hc
      rw [show (s.step (.connect sessionId localPort)).connections
        = s.connections ++ [⟨MinerSession.new sessionId s.allocator.allocate.1, localPort, true⟩]
        from rfl, List.getElem?_append] at hc
      split at hc
      · exact h.nonces i c hc
      · rename_i hlen
        rw [List.getElem?_singleton] at hc
        split at hc
        · rename_i hi
          cases hc
          have hlast : i = s.connections.length := by omega
          show Text.hexEncode (NonceAllocator.nonceBytes s.allocator.nonce1Size
            s.allocator.counter) = nonceAt nonce1Size i
          rw [h.size, h.counter, hlast]
          rfl
        · cases hc
  | disconnect index =>
    refine ⟨h.size, ?_, h.modify index _ fun c _ => rfl⟩
    simp only [step, List.length_modify]
    exact h.counter
  | request index request =>
    simp only [step]
    cases hc : s.connections[index]? with
    | none => exact h
    | some c =>
      simp only
      split
      · refine ⟨h.size, ?_, h.modify index _ fun c' hc' => ?_⟩
        · simp only [List.length_modify]
          exact h.counter
        · rw [hc] at hc'
          cases hc'
          exact handleRequest_nonce1 _ _ _ _
      · exact h
  | broadcast job => exact ⟨h.size, h.counter, h.nonces⟩

theorem nonceInv_start (allocator : NonceAllocator) (hcounter : allocator.counter = 1)
    (portInitial : ℕ → Option (ℚ × String)) (fallbackInitial : ℚ × String) :
    NonceInv allocator.nonce1Size (start allocator portInitial fallbackInitial) :=
  ⟨rfl, hcounter, fun _ _ hc => by cases hc⟩

/-- A new connection: who was there is still there, and it has the next prefix. -/
theorem holds_connect (h : NonceInv nonce1Size s) (sessionId : String) (localPort i : ℕ)
    (nonce : String) : (s.step (.connect sessionId localPort)).Holds i nonce ↔
      s.Holds i nonce ∨
        i = s.connections.length ∧ nonce = nonceAt nonce1Size s.connections.length := by
  rw [(nonceInv_step h _).holds_iff, h.holds_iff]
  have hconn : (s.step (.connect sessionId localPort)).connections
      = s.connections ++ [⟨MinerSession.new sessionId s.allocator.allocate.1, localPort, true⟩] := rfl
  rw [hconn, List.getElem?_append]
  by_cases hi : i < s.connections.length
  · rw [if_pos hi]
    constructor
    · exact .inl
    · rintro (hold | ⟨rfl, -⟩)
      · exact hold
      · exact absurd hi (lt_irrefl _)
  · have hold : s.connections[i]? = none := List.getElem?_eq_none (not_lt.1 hi)
    rw [if_neg hi, hold, List.getElem?_singleton]
    by_cases hlast : i = s.connections.length
    · subst hlast
      simp
    · rw [if_neg (by omega)]
      simp [hlast]

/-- Every other event keeps whoever it does not disconnect. -/
theorem holds_of_step (h : NonceInv nonce1Size s) {op : ListenerOp}
    (hop : ∀ sessionId localPort, op ≠ .connect sessionId localPort) {i : ℕ} {nonce : String}
    (hi : (s.step op).Holds i nonce) : s.Holds i nonce := by
  rw [(nonceInv_step h op).holds_iff] at hi
  rw [h.holds_iff]
  obtain ⟨⟨c, hc, hconn⟩, hnonce⟩ := hi
  refine ⟨?_, hnonce⟩
  have hmodify : ∀ (index : ℕ) (f : AcceptedConnection → AcceptedConnection),
      (∀ c, s.connections[index]? = some c → (f c).connected = true → c.connected = true) →
        (s.connections.modify index f)[i]? = some c →
          ∃ c, s.connections[i]? = some c ∧ c.connected = true := by
    intro index f hf hfc
    rw [List.getElem?_modify] at hfc
    obtain ⟨c₀, hc₀, rfl⟩ := Option.map_eq_some_iff.1 hfc
    refine ⟨c₀, hc₀, ?_⟩
    split at hconn
    · rename_i hindex
      subst hindex
      exact hf c₀ hc₀ hconn
    · exact hconn
  cases op with
  | connect sessionId localPort => exact absurd rfl (hop sessionId localPort)
  | disconnect index => exact hmodify index _ (fun _ _ hf => by cases hf) hc
  | request index request =>
    simp only [step] at hc
    cases hat : s.connections[index]? with
    | none =>
      rw [hat] at hc
      exact ⟨c, hc, hconn⟩
    | some c₀ =>
      rw [hat] at hc
      simp only at hc
      split at hc
      · exact hmodify index (fun c => { c with
          session := (s.server.handleRequest c₀.localPort c₀.session request).1 })
          (fun _ _ hf => hf) hc
      · exact ⟨c, hc, hconn⟩
  | broadcast job => exact ⟨c, hc, hconn⟩

theorem Holds.lt_length {i : ℕ} {nonce : String} (h : s.Holds i nonce) :
    i < s.connections.length := by
  obtain ⟨c, hc, -⟩ := h
  exact (List.getElem?_eq_some_iff.1 hc).1

/-- **Step lemma.**  Only a connection can take a prefix that is in use. -/
theorem disjoint_step_iff (h : NonceInv nonce1Size s) (hdisjoint : s.Disjoint) (op : ListenerOp) :
    (s.step op).Disjoint ↔ s.Fresh op := by
  by_cases hop : ∀ sessionId localPort, op ≠ .connect sessionId localPort
  · have hfresh : s.Fresh op := by
      cases op with
      | connect sessionId localPort => exact absurd rfl (hop sessionId localPort)
      | _ => trivial
    refine ⟨fun _ => hfresh, fun _ i j nonce hi hj => ?_⟩
    exact hdisjoint i j nonce (holds_of_step h hop hi) (holds_of_step h hop hj)
  · push Not at hop
    obtain ⟨sessionId, localPort, rfl⟩ := hop
    -- the new prefix is in use by `i` exactly when `i` is a number of periods older
    have htaken : ∀ i nonce, s.Holds i nonce →
        (nonce = nonceAt nonce1Size s.connections.length ↔
          period nonce1Size ∣ s.connections.length - i) := by
      intro i nonce hi
      have hlt := hi.lt_length
      rw [(h.holds_iff.1 hi).2, nonceAt_eq_iff, Nat.modEq_iff_dvd' hlt.le]
    constructor
    · intro hnew i nonce hi hdvd
      rw [h.size] at hdvd
      have hsame := hnew i s.connections.length nonce
        ((holds_connect h sessionId localPort i nonce).2 (.inl hi))
        ((holds_connect h sessionId localPort _ nonce).2 (.inr ⟨rfl, (htaken i nonce hi).2 hdvd⟩))
      exact absurd hi.lt_length (hsame ▸ lt_irrefl _)
    · intro hfresh i j nonce hi hj
      have hold : ∀ k, s.Holds k nonce → nonce ≠ nonceAt nonce1Size s.connections.length := by
        intro k hk heq
        have hdvd := (htaken k nonce hk).1 heq
        rw [← h.size] at hdvd
        exact hfresh k nonce hk hdvd
      rcases (holds_connect h sessionId localPort i nonce).1 hi with hi | ⟨hi, hnonce⟩
      · rcases (holds_connect h sessionId localPort j nonce).1 hj with hj | ⟨-, hnonce⟩
        · exact hdisjoint i j nonce hi hj
        · exact absurd hnonce (hold i hi)
      · rcases (holds_connect h sessionId localPort j nonce).1 hj with hj | ⟨hj, -⟩
        · exact absurd hnonce (hold j hj)
        · rw [hi, hj]

end Inv

/-- **When connected sessions have disjoint nonce spaces**: along every history, exactly when
    nobody connects while a connection made a number of periods earlier is still there. -/
theorem disjoint_iff_fresh (nonce1Size : ℕ) (size_ok : 0 < nonce1Size ∧ nonce1Size < 32)
    (portInitial : ℕ → Option (ℚ × String)) (fallbackInitial : ℚ × String)
    (ops : List ListenerOp) :
    Machine.Always step Disjoint
        (start (NonceAllocator.new nonce1Size size_ok) portInitial fallbackInitial) ops ↔
      Machine.Allowed step Fresh
        (start (NonceAllocator.new nonce1Size size_ok) portInitial fallbackInitial) ops := by
  have hstart := nonceInv_start (NonceAllocator.new nonce1Size size_ok) rfl portInitial
    fallbackInitial
  have hnobody : (start (NonceAllocator.new nonce1Size size_ok) portInitial
      fallbackInitial).Disjoint := by
    rintro i j nonce ⟨c, hc, -⟩
    cases hc
  have hkeep : ∀ s op, NonceInv nonce1Size s → s.Disjoint → True → s.Fresh op →
      NonceInv nonce1Size (s.step op) := fun _ op h _ _ _ => nonceInv_step h op
  have hgood : ∀ s op, NonceInv nonce1Size s → s.Disjoint → True →
      ((s.step op).Disjoint ↔ s.Fresh op) := fun _ op h hd _ => disjoint_step_iff h hd op
  exact Machine.always_iff_allowed hkeep hgood hstart hnobody
    (Machine.allowed_of_forall (fun _ _ => trivial) _ _)

theorem disjoint_iff_fresh_twoMiners :
    Machine.Always step Disjoint
      (start (NonceAllocator.new 4 (by decide)) (fun _ => none) (1, "ff"))
      [.connect "s1" 3333, .connect "s2" 3333] := by
  refine (disjoint_iff_fresh 4 (by decide) _ _ _).2 ⟨fun i nonce hi => ?_, fun i nonce hi => ?_,
    trivial⟩
  · exact absurd hi.lt_length (Nat.not_lt_zero i)
  · have hfirst : i = 0 := Nat.lt_one_iff.1 hi.lt_length
    subst hfirst
    decide

/-- If nobody leaves, everybody holds the prefix of his turn. -/
theorem holds_connects {nonce1Size : ℕ} {s : Listener} (h : NonceInv nonce1Size s)
    (hall : ∀ i < s.connections.length, s.Holds i (nonceAt nonce1Size i)) (sessionId : String)
    (localPort n : ℕ) : ∀ i < s.connections.length + n,
      (Machine.run step s (List.replicate n (.connect sessionId localPort))).Holds i
        (nonceAt nonce1Size i) := by
  induction n generalizing s with
  | zero => exact hall
  | succ n ih =>
    rw [List.replicate_succ, Machine.run_cons]
    have hlen : (s.step (.connect sessionId localPort)).connections.length
        = s.connections.length + 1 := by
      simp [step]
    have hnext : ∀ i < (s.step (.connect sessionId localPort)).connections.length,
        (s.step (.connect sessionId localPort)).Holds i (nonceAt nonce1Size i) := by
      intro i hi
      rw [hlen] at hi
      rw [holds_connect h]
      rcases Nat.lt_succ_iff_lt_or_eq.1 hi with hold | rfl
      · exact .inl (hall i hold)
      · exact .inr ⟨rfl, rfl⟩
    intro i hi
    exact ih (nonceInv_step h _) hnext i (by omega)

/-- **Counterexample.**  With one byte, the 257th connection gets the prefix of the first. -/
theorem one_byte_nonces_repeat :
    ¬ Machine.Always step Disjoint
      (start (NonceAllocator.new 1 (by decide)) (fun _ => none) (1, "ff"))
      (List.replicate 257 (.connect "session" 3333)) := by
  intro h
  have hnonces := holds_connects (nonceInv_start (NonceAllocator.new 1 (by decide)) rfl
    (fun _ => none) (1, "ff")) (fun i hi => absurd hi (Nat.not_lt_zero i)) "session" 3333 257
  have hrepeat : nonceAt 1 256 = nonceAt 1 0 := nonceAt_eq_iff.2 (by decide)
  have hfirst := hnonces 0 (by decide)
  have hagain := hnonces 256 (by decide)
  rw [show (NonceAllocator.new 1 (by decide)).nonce1Size = 1 from rfl, hrepeat] at hagain
  have hsame := Machine.Always.last h 0 256 _ hfirst hagain
  omega

end Listener

end ZcashMiningPool
