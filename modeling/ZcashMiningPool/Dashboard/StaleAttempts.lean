import ZcashMiningPool.Dashboard.AttemptRows

/-!
# Stale payout attempts

`resolve_stale_attempts` of the reconciler: attempt rows that hold no reserved funds and stand
unfinished for ten minutes are closed by what wallet and node say of them.  It runs between
`reconcile_reserved_payouts` and `check_phantom_payouts`, in the same task, while the payout loop
goes on.

* `getStalePayoutAttempts`, `FullSweep.step` — the query and the check, cut at every call.
* `FullSweep.ReservesInTime` — no attempt waits ten minutes for its reservation.
* `FullSweep.Hides` — the relation to the saga without the check: alike off the rows of idle
  attempts, and the check holds only such rows.

Principal result: `stale_check_invisible`.  When a reservation comes ten minutes late, the check may
hide from the reconciler that the attempt was submitted: `late_reservation_refunded`.
-/

set_option autoImplicit false

namespace ZcashMiningPool

open Table Machine

/-! ## The check -/

def AttemptStatus.text : AttemptStatus → String
  | .queued => "queued"
  | .submitting => "submitting"
  | .sent => "sent"
  | .confirmed => "confirmed"
  | .failed => "failed"

namespace PoolDb

/-- Unfinished attempts older than `staleMinutes` without payout items, oldest id first. -/
def getStalePayoutAttempts (db : PoolDb) (staleMinutes : ℕ) : List ReservedAttempt :=
  (db.payoutAttempts.rows.filter (fun e =>
      (e.2.status == .queued || e.2.status == .submitting || e.2.status == .sent) &&
      db.olderThan e.2.createdAt staleMinutes && (db.itemsOf e.1 == []))).map
    (fun e => ⟨e.1, e.2.status, e.2.opid, e.2.txid, e.2.totalZatoshis, e.2.createdAt⟩)

end PoolDb

/-- Attempts younger than this are considered still in flight. -/
def staleAttemptMinutes : ℕ := 10

inductive StalePc where
  | idle
  | rows (rest : List PoolDb.ReservedAttempt)
  | askWallet (r : PoolDb.ReservedAttempt) (opid : String) (rest : List PoolDb.ReservedAttempt)
  | askNode (r : PoolDb.ReservedAttempt) (txid : String) (rest : List PoolDb.ReservedAttempt)
  /-- Next `update_payout_attempt`. -/
  | mark (r : PoolDb.ReservedAttempt) (status : AttemptStatus) (txid : Option String)
    (note : String) (rest : List PoolDb.ReservedAttempt)
  deriving DecidableEq, Repr

/-- The payout loop and the whole reconciler. -/
structure FullSweep where
  saga : Saga
  stale : StalePc

inductive SweepLabel where
  | saga (l : Label)
  | resolveStale (call : DbCall)
  | next
  | status (answer : StatusAnswer)
  | node (answer : NodeAnswer)
  | mark (call : DbCall)

namespace FullSweep

def start : FullSweep := ⟨Saga.start, .idle⟩

/-- No transaction id, and the operation id told nothing. -/
def unresolvable (r : PoolDb.ReservedAttempt) (rest : List PoolDb.ReservedAttempt) : StalePc :=
  .mark r .failed none ("reconciler: unresolvable (status was '" ++ r.status.text ++ "', opid " ++
    r.opid.getD "none" ++ " )") rest

def resolveStale (s : FullSweep) (c : DbCall) : FullSweep :=
  match s.stale with
  | .idle =>
    if c.fails then s
    else { s with stale := .rows (s.saga.db.getStalePayoutAttempts staleAttemptMinutes) }
  | _ => s

def next (s : FullSweep) : FullSweep :=
  match s.stale with
  | .rows [] => { s with stale := .idle }
  | .rows (r :: rest) =>
    { s with
      stale := match r.txid, r.opid with
        | some txid, _ => .askNode r txid rest
        | none, some opid => .askWallet r opid rest
        | none, none => unresolvable r rest }
  | _ => s

/-- An unreachable wallet leaves the row for the next sweep; so does an operation in flight. -/
def status (s : FullSweep) (answer : StatusAnswer) : FullSweep :=
  match s.stale with
  | .askWallet r _ rest =>
    { s with
      stale := match answer with
        | .error _ => .rows rest
        | .statuses none => unresolvable r rest
        | .statuses (some (.success result)) =>
          match result.plainTxid with
          | some txid => .askNode r txid rest
          | none => unresolvable r rest
        | .statuses (some (.failed message)) =>
          .mark r .failed none ("reconciler: op failed: " ++ message.getD "unknown") rest
        | .statuses (some .inFlight) => .rows rest }
  | _ => s

def node (s : FullSweep) (answer : NodeAnswer) : FullSweep :=
  match s.stale with
  | .askNode r txid rest =>
    { s with
      stale := match answer with
        | .found =>
          .mark r .confirmed (some txid) "reconciler: late-confirmed via chain lookup" rest
        | .notFound _ => .mark r .failed none "reconciler: txid not found on chain (-5)" rest
        | .error _ => .rows rest }
  | _ => s

def mark (s : FullSweep) (c : DbCall) : FullSweep :=
  match s.stale with
  | .mark r status txid note rest =>
    { s with
      saga := s.saga.update c r.id status none txid (some note)
      stale := .rows rest }
  | _ => s

/-- A crash stops the reconciler as well. -/
def step (w : Wallet) (autoVoidReorged : Bool) (s : FullSweep) : SweepLabel → FullSweep
  | .saga .crash => ⟨s.saga.step w autoVoidReorged .crash, .idle⟩
  | .saga l => { s with saga := s.saga.step w autoVoidReorged l }
  | .resolveStale c => s.resolveStale c
  | .next => s.next
  | .status answer => s.status answer
  | .node answer => s.node answer
  | .mark c => s.mark c

/-- When the check reads the stale attempts, the one whose reservation comes next is young. -/
def ReservesInTime (s : FullSweep) : SweepLabel → Prop
  | .resolveStale _ =>
    match s.saga.loop with
    | .created p =>
      (s.saga.db.payoutAttempts.get? p.attempt).all
        (fun r => !s.saga.db.olderThan r.createdAt staleAttemptMinutes) = true
    | _ => True
  | _ => True

/-- What of a run concerns the saga alone. -/
def sagaLabel : SweepLabel → Option Label
  | .saga l => some l
  | _ => none

end FullSweep

/-! ## The check beside the saga -/

/-- The rows the check has still to do with. -/
def StalePc.held : StalePc → List PoolDb.ReservedAttempt
  | .idle => []
  | .rows rest => rest
  | .askWallet r _ rest | .askNode r _ rest | .mark r _ _ _ rest => r :: rest

namespace FullSweep

variable {w : Wallet} {v : Bool} {s : FullSweep} {s' : Saga}

/-- `s'` never had the check, whose rows are all idle. -/
structure Hides (s : FullSweep) (s' : Saga) : Prop where
  alike : Saga.Alike s.saga.Idle s.saga s'
  held : ∀ r ∈ s.stale.held, s.saga.Idle r.id

theorem hides_start : Hides start Saga.start := ⟨.refl _ _, fun _ hr => by cases hr⟩

theorem Hides.saga (h : Hides s s') (l : Label) :
    Hides { s with saga := s.saga.step w v l } (s'.step w v l) where
  alike := (h.alike.step (fun _ ha => ha.items) w v l).mono fun _ ha =>
    ha.later (Saga.calm_step w v l)
  held r hr := (h.held r hr).later (Saga.calm_step w v l)

/-- What the check reads is idle. -/
theorem idle_of_stale {db : PoolDb} (hdb : s.saga.db = db) (hyoung : ∀ p, s.saga.loop = .created p →
      (db.payoutAttempts.get? p.attempt).all
        (fun r => !db.olderThan r.createdAt staleAttemptMinutes) = true)
    {r : PoolDb.ReservedAttempt} (hr : r ∈ db.getStalePayoutAttempts staleAttemptMinutes) :
    s.saga.Idle r.id := by
  subst hdb
  obtain ⟨e, he, rfl⟩ := List.mem_map.1 hr
  obtain ⟨hrow, hkept⟩ := List.mem_filter.1 he
  rw [Bool.and_eq_true, Bool.and_eq_true] at hkept
  obtain ⟨⟨-, hold⟩, hitems⟩ := hkept
  refine ⟨Auto.has_iff.2 ⟨e.2, hrow⟩, beq_iff_eq.1 hitems, fun p hp heq => ?_⟩
  have hget : s.saga.db.payoutAttempts.get? p.attempt = some e.2 := by
    rw [heq]
    exact Keyed.get?_eq_some_iff.2 hrow
  have hall := hyoung p hp
  rw [hget, Option.all_some, hold] at hall
  cases hall

theorem Hides.goto (h : Hides s s') {pc : StalePc} (hpc : ∀ r ∈ pc.held, r ∈ s.stale.held) :
    Hides { s with stale := pc } s' :=
  ⟨h.alike, fun r hr => h.held r (hpc r hr)⟩

theorem Hides.resolveStale (h : Hides s s') (c : DbCall)
    (hyoung : s.ReservesInTime (.resolveStale c)) : Hides (s.resolveStale c) s' := by
  unfold FullSweep.resolveStale
  split
  · split
    · exact h
    · refine ⟨h.alike, fun r hr => idle_of_stale rfl (fun p hp => ?_) hr⟩
      have hcreated : s.saga.loop = .created p := hp
      simp only [ReservesInTime, hcreated] at hyoung
      exact hyoung
  · exact h

theorem Hides.next (h : Hides s s') : Hides s.next s' := by
  unfold FullSweep.next
  split
  · exact h.goto fun _ hr => by cases hr
  · rename_i r rest hpc
    refine h.goto fun x hx => ?_
    rw [hpc]
    split at hx <;> exact hx
  · exact h

theorem Hides.status (h : Hides s s') (answer : StatusAnswer) : Hides (s.status answer) s' := by
  unfold FullSweep.status
  split
  · rename_i r opid rest hpc
    refine h.goto fun x hx => ?_
    rw [hpc]
    split at hx
    · exact List.mem_cons_of_mem _ hx
    · exact hx
    · split at hx <;> exact hx
    · exact hx
    · exact List.mem_cons_of_mem _ hx
  · exact h

theorem Hides.node (h : Hides s s') (answer : NodeAnswer) : Hides (s.node answer) s' := by
  unfold FullSweep.node
  split
  · rename_i r txid rest hpc
    refine h.goto fun x hx => ?_
    rw [hpc]
    cases answer with
    | found => exact hx
    | notFound message => exact hx
    | error message => exact List.mem_cons_of_mem _ hx
  · exact h

theorem Hides.mark (h : Hides s s') (c : DbCall) : Hides (s.mark c) s' := by
  unfold FullSweep.mark
  split
  · rename_i r status txid note rest hpc
    have hheld : ∀ x ∈ r :: rest, s.saga.Idle x.id := fun x hx => h.held x (by rw [hpc]; exact hx)
    have hcalm : Saga.Calm s.saga (s.saga.update c r.id status none txid (some note)) :=
      (Saga.inert_update s.saga c r.id status none txid (some note)).calm fun p hp => by
        unfold Saga.update at hp
        split at hp <;> exact hp
    refine ⟨?_, fun x hx => (hheld x (List.mem_cons_of_mem _ hx)).later hcalm⟩
    exact (h.alike.update_left c (hheld r List.mem_cons_self) status none txid (some note)).mono
      fun _ ha => ha.later hcalm
  · exact h

/-- **One step** of the whole is one step of the saga, or none. -/
theorem Hides.step (h : Hides s s') (w : Wallet) (v : Bool) {l : SweepLabel}
    (hl : s.ReservesInTime l) :
    Hides (s.step w v l) ((sagaLabel l).elim s' (Saga.step w v s')) := by
  cases l with
  | saga l =>
    have hsaga := h.saga (w := w) (v := v) l
    cases l with
    | crash => exact ⟨hsaga.alike, fun _ hr => by cases hr⟩
    | _ => exact hsaga
  | resolveStale c => exact h.resolveStale c hl
  | next => exact h.next
  | status answer => exact h.status answer
  | node answer => exact h.node answer
  | mark c => exact h.mark c

end FullSweep

/-- **The check for stale attempts decides nothing about funds.**  Whatever wallet and node answer
    it, loop, reconciler, balances, items and payouts are those of the run without it; only rows of
    attempts without funds differ. -/
theorem stale_check_invisible (w : Wallet) (autoVoidReorged : Bool) (ls : List SweepLabel)
    (h : Allowed (FullSweep.step w autoVoidReorged) FullSweep.ReservesInTime FullSweep.start ls) :
    let s := (run (FullSweep.step w autoVoidReorged) FullSweep.start ls).saga
    let plain := run (Saga.step w autoVoidReorged) Saga.start (ls.filterMap FullSweep.sagaLabel)
    s.withAttempts plain.db.payoutAttempts = plain ∧
      ∀ a, s.db.itemsOf a ≠ [] →
        s.db.payoutAttempts.get? a = plain.db.payoutAttempts.get? a := by
  have hstep : ∀ s t l, FullSweep.Hides s t → s.ReservesInTime l →
      FullSweep.Hides (s.step w autoVoidReorged l)
        ((FullSweep.sagaLabel l).elim t (Saga.step w autoVoidReorged t)) :=
    fun _ _ _ hides hl => hides.step w autoVoidReorged hl
  obtain ⟨t, hplain, ht⟩ := (run_related hstep FullSweep.hides_start h).alike
  intro s plain
  have hplain' : plain = s.withAttempts t := hplain
  rw [hplain']
  exact ⟨rfl, fun a ha => ht.get?_eq fun hidle => ha hidle.items⟩

instance (s : FullSweep) (l : SweepLabel) : Decidable (s.ReservesInTime l) := by
  unfold FullSweep.ReservesInTime
  split <;> first | infer_instance | (split <;> infer_instance)

/-- A crash before the reservation; the check closes the attempt. -/
def closedStale : List SweepLabel :=
  [.saga (.startRound sentRound.payoutList .ok), .saga .crash, .saga (.world PoolDb.empty 660),
    .resolveStale .ok, .next, .mark .ok, .next]

theorem stale_check_invisible_closedStale :
    (run (FullSweep.step namingWallet true) FullSweep.start closedStale).saga.withAttempts
        (run (Saga.step namingWallet true) Saga.start
          (closedStale.filterMap FullSweep.sagaLabel)).db.payoutAttempts
      = run (Saga.step namingWallet true) Saga.start (closedStale.filterMap FullSweep.sagaLabel) ∧
    ((run (FullSweep.step namingWallet true) FullSweep.start
      closedStale).saga.db.payoutAttempts.get? 1).map (·.status) = some .failed :=
  ⟨(stale_check_invisible namingWallet true closedStale (by decide +kernel)).1, by decide +kernel⟩

/-- The check reads the attempt before its reservation, and writes after it was submitted. -/
def lateReservation : List SweepLabel :=
  [.saga (.world (run PoolDb.step PoolDb.empty (sentOps.take 2)) 0),
    .saga (.startRound sentRound.payoutList .ok),
    .saga (.world (run PoolDb.step PoolDb.empty (sentOps.take 2)) 660), .resolveStale .ok, .next,
    .saga (.loopDb .ok), .saga (.loopDb .ok), .mark .ok, .saga .sendmany,
    .saga (.world sentSaga.db 3600), .saga (.reconcile none .ok), .saga .sweepNext,
    .saga (.sweepDb .ok)]

/-- The reconciler refunds an attempt whose request is out; without the check it leaves it alone. -/
theorem late_reservation_refunded :
    (run (FullSweep.step namingWallet true) FullSweep.start lateReservation).saga.returned = [1] ∧
    ((run (FullSweep.step namingWallet true) FullSweep.start
      lateReservation).saga.fate 1).Requested ∧
    (run (Saga.step namingWallet true) Saga.start
      (lateReservation.filterMap FullSweep.sagaLabel)).returned = [] := by
  refine ⟨?_, ?_, ?_⟩ <;> decide +kernel

end ZcashMiningPool
