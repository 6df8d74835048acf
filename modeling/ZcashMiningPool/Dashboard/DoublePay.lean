import ZcashMiningPool.Dashboard.Payouts

/-!
# No double pay

Over every run of the payout saga: an attempt whose funds went back to pending has no mined
transaction.

* `Finished` — nothing of the attempt is mined any more: wallet or node ruled it out, or it was
  never requested and the loop cannot request it now.
* `Live` — it may have been requested, and nothing rules its transaction out; its row is not
  `Quiet`.
* `Later` — what every step leaves true: rows stay, time passes, what is ruled out stays so.
* `Inv` — the invariant; `Inv.setDb`, `Inv.setFate`, `Inv.gotoLoop` and `Inv.gotoSweep` say under
  which side condition a change of one part keeps it.

Principal result: `returned_never_mined`.  Without a readable transaction id an attempt is paid
twice: `unreadable_txid_paid_twice`.
-/

set_option autoImplicit false

namespace ZcashMiningPool

open Table Machine

/-- The ids on the row are those of the attempt. -/
def PayoutAttempt.Named (w : Wallet) (a : AttemptId) (r : PayoutAttempt) : Prop :=
  (∀ o, r.opid = some o → o = w.opidOf a) ∧ ∀ t, r.txid = some t → t = w.txidOf a

theorem PayoutAttempt.named_of_none {w : Wallet} {a : AttemptId} {r : PayoutAttempt}
    (ho : r.opid = none) (ht : r.txid = none) : r.Named w a := by
  constructor
  · intro o hr
    rw [ho] at hr
    cases hr
  · intro t hr
    rw [ht] at hr
    cases hr

/-- The attempt of a round that may still send. -/
def LoopPc.Sends : LoopPc → AttemptId → Prop
  | .created p, a | .reserved p, a | .submitting p, a => p.attempt = a
  | _, _ => False

/-- The attempt whose request is next. -/
def LoopPc.Submits : LoopPc → AttemptId → Prop
  | .submitting p, a => p.attempt = a
  | _, _ => False

theorem LoopPc.Submits.sends {pc : LoopPc} {a : AttemptId} (h : pc.Submits a) : pc.Sends a := by
  cases pc <;> first | exact h | cases h

namespace Saga

variable {w : Wallet} {s s' : Saga} {a : AttemptId}

def Known (s : Saga) (a : AttemptId) : Prop := s.db.payoutAttempts.has a = true

def Requested (s : Saga) (a : AttemptId) : Prop := (s.fate a).Requested

def Doomed (s : Saga) (a : AttemptId) : Prop := (s.fate a).Doomed

/-- With the loop at `pc`, `a` may be sent later: it is next, or not yet an hour old. -/
def CanSend (s : Saga) (pc : LoopPc) (a : AttemptId) : Prop :=
  pc.Submits a ∨ pc.Sends a ∧ ¬ s.AgedAt s.db.now a

def Unsent (s : Saga) (a : AttemptId) : Prop := s.Doomed a ∨ s.Known a ∧ ¬ s.Requested a

def Finished (s : Saga) (a : AttemptId) : Prop :=
  s.Doomed a ∨ (s.Known a ∧ ¬ s.Requested a) ∧ ¬ s.CanSend s.loop a

def Live (s : Saga) (a : AttemptId) : Prop :=
  (s.Requested a ∨ s.loop.Submits a) ∧ ¬ s.Doomed a

theorem Finished.unsent (h : s.Finished a) : s.Unsent a := h.imp id And.left

theorem Unsent.finished (h : s.Unsent a) (hpc : ¬ s.loop.Sends a) : s.Finished a :=
  h.imp id (fun hu => ⟨hu, fun hc => hc.elim (fun hs => hpc hs.sends) (fun hs => hpc hs.1)⟩)

theorem Finished.not_live (h : s.Finished a) : ¬ s.Live a := by
  rintro ⟨hreq, hdoomed⟩
  rcases h with h | ⟨⟨-, hr⟩, hc⟩
  · exact hdoomed h
  · exact hreq.elim hr (fun hs => hc (.inl hs))

theorem known_of_get? {r : PayoutAttempt} (h : s.db.payoutAttempts.get? a = some r) :
    s.Known a := by
  unfold Known Auto.has
  rw [h]
  rfl

theorem Known.row (h : s.Known a) : ∃ r, s.db.payoutAttempts.get? a = some r :=
  Option.isSome_iff_exists.1 h

theorem agedAt_iff {time : ℕ} :
    s.AgedAt time a ↔ ∃ r, s.db.payoutAttempts.get? a = some r ∧
      r.createdAt + reservationRefundSecs ≤ time := by
  unfold AgedAt olderThanRefund
  rw [Option.any_eq_true]
  simp

/-! ## What every step leaves true -/

structure Later (s s' : Saga) : Prop where
  now : s.db.now ≤ s'.db.now
  row : ∀ a r, s.db.payoutAttempts.get? a = some r →
    ∃ r', s'.db.payoutAttempts.get? a = some r' ∧ r'.createdAt = r.createdAt
  fresh : ∀ a r', s'.db.payoutAttempts.get? a = some r' → s.Known a ∨ s.db.now ≤ r'.createdAt
  dead : ∀ a, (s.fate a).dead = true → (s'.fate a).dead = true
  expired : ∀ a, (s.fate a).expired = true → (s'.fate a).expired = true
  requested : ∀ a, s'.Requested a → s.Requested a ∨ s.loop.Submits a
  canSend : ∀ a, s.Known a → s'.CanSend s'.loop a → s.CanSend s.loop a

namespace Later

theorem known (h : Later s s') (ha : s.Known a) : s'.Known a := by
  obtain ⟨r, hr⟩ := ha.row
  obtain ⟨r', hr', -⟩ := h.row a r hr
  exact known_of_get? hr'

theorem doomed (h : Later s s') (ha : s.Doomed a) : s'.Doomed a :=
  ha.imp (h.dead a) (h.expired a)

theorem aged (h : Later s s') {time : ℕ} (ha : s.AgedAt time a) : s'.AgedAt time a := by
  obtain ⟨r, hr, hage⟩ := agedAt_iff.1 ha
  obtain ⟨r', hr', hc⟩ := h.row a r hr
  exact agedAt_iff.2 ⟨r', hr', hc ▸ hage⟩

/-- No attempt becomes an hour old in retrospect. -/
theorem agedAt_old (h : Later s s') {time : ℕ} (htime : time ≤ s.db.now)
    (ha : s'.AgedAt time a) : s.AgedAt time a := by
  obtain ⟨r', hr', hage⟩ := agedAt_iff.1 ha
  rcases h.fresh a r' hr' with hk | hnew
  · obtain ⟨r, hr⟩ := hk.row
    obtain ⟨r'', hr'', hc⟩ := h.row a r hr
    rw [hr'] at hr''
    cases hr''
    exact agedAt_iff.2 ⟨r, hr, hc ▸ hage⟩
  · unfold reservationRefundSecs at hage
    omega

/-- What is finished stays finished. -/
theorem finished (h : Later s s') (ha : s.Finished a) : s'.Finished a := by
  rcases ha with hd | ⟨⟨hk, hr⟩, hc⟩
  · exact .inl (h.doomed hd)
  · refine .inr ⟨⟨h.known hk, fun hr' => ?_⟩, fun hc' => hc (h.canSend a hk hc')⟩
    exact (h.requested a hr').elim hr (fun hs => hc (.inl hs))

end Later

/-! ## The invariant -/

/-- What the loop knows of its attempt. -/
def LoopOk (w : Wallet) (s : Saga) : LoopPc → Prop
  | .idle => True
  | .created p | .reserved p => s.Known p.attempt ∧ ¬ s.Requested p.attempt
  | .submitting p | .sending p => s.Known p.attempt
  | .accepted p opid | .waiting p opid => s.Known p.attempt ∧ opid = w.opidOf p.attempt
  | .verifying p txid _ | .costing p txid | .confirming p txid | .finishing p txid =>
    s.Known p.attempt ∧ txid = w.txidOf p.attempt
  | .leaving p opid txid _ =>
    (∀ o, opid = some o → o = w.opidOf p.attempt) ∧ ∀ t, txid = some t → t = w.txidOf p.attempt
  | .refunding p _ | .failing p _ => s.Unsent p.attempt

/-- What a row that was read says of its attempt for good. -/
def RowRead (w : Wallet) (s : Saga) (r : PoolDb.ReservedAttempt) : Prop :=
  (∃ row, s.db.payoutAttempts.get? r.id = some row ∧ row.createdAt = r.createdAt) ∧
    (∀ o, r.opid = some o → o = w.opidOf r.id) ∧ ∀ t, r.txid = some t → t = w.txidOf r.id

/-- What the reconciler knows of the row it handles. -/
def SweepOk (w : Wallet) (s : Saga) : SweepPc → Prop
  | .idle | .phantoms _ | .askPhantom _ _ => True
  | .rows rest => ∀ r ∈ rest, RowRead w s r
  | .askWallet r opid rest => (∀ x ∈ r :: rest, RowRead w s x) ∧ opid = w.opidOf r.id
  | .askNode r txid rest => (∀ x ∈ r :: rest, RowRead w s x) ∧ txid = w.txidOf r.id
  | .missing r repliedAt rest =>
    (∀ x ∈ r :: rest, RowRead w s x) ∧
      (olderThanRefund repliedAt r.createdAt = true → s.Doomed r.id)
  | .refund r _ rest | .markFailed r _ rest => (∀ x ∈ r :: rest, RowRead w s x) ∧ s.Finished r.id
  | .confirm r txid rest | .markConfirmed r txid rest =>
    (∀ x ∈ r :: rest, RowRead w s x) ∧ txid = w.txidOf r.id
  | .void txid repliedAt _ =>
    repliedAt ≤ s.db.now ∧
      ∀ a, s.AgedAt repliedAt a → w.txidOf a = txid → (s.fate a).expired = true

/-- A transaction was requested and not denied; a mined one is not expired. -/
def FateOk (f : Fate) : Prop :=
  (f.tx ≠ .unseen → f.Requested ∧ f.dead = false) ∧ (f.tx = .mined → f.expired = false)

structure Inv (w : Wallet) (s : Saga) : Prop where
  fate : ∀ a, FateOk (s.fate a)
  known : ∀ a, s.Requested a → s.Known a
  named : ∀ a r, s.db.payoutAttempts.get? a = some r → r.Named w a
  rows : ∀ a r, s.db.payoutAttempts.get? a = some r → s.Live a → ¬ r.Quiet
  loop : LoopOk w s s.loop
  sweep : SweepOk w s s.sweep
  returned : ∀ a ∈ s.returned, s.Finished a
  settled : ∀ e ∈ s.settled, s.Known e.1 ∧ e.2 = w.txidOf e.1

theorem inv_start (w : Wallet) : Inv w start where
  fate _ := ⟨fun h => absurd rfl h, fun _ => rfl⟩
  known _ h := by cases h
  named _ _ h := by cases h
  rows _ _ h := by cases h
  loop := trivial
  sweep := trivial
  returned _ h := by cases h
  settled _ h := by cases h

theorem Inv.noDoublePay (h : Inv w s) : s.NoDoublePay := by
  intro a ha hmined
  obtain ⟨htx, hexp⟩ := h.fate a
  obtain ⟨hreq, hdead⟩ := htx (by rw [hmined]; decide)
  rcases h.returned a ha with (hd | he) | ⟨⟨-, hr⟩, -⟩
  · rw [hdead] at hd
    cases hd
  · rw [hexp hmined] at he
    cases he
  · exact hr hreq

/-! ### It is stable under what others do -/

theorem Later.loopOk (h : Later s s') (hl : LoopOk w s s.loop) : LoopOk w s' s.loop := by
  have hreq : ∀ {a}, ¬ s.loop.Submits a → ¬ s.Requested a → ¬ s'.Requested a :=
    fun hs hr hr' => (h.requested _ hr').elim hr hs
  have hunsent : ∀ {a}, ¬ s.loop.Submits a → s.Unsent a → s'.Unsent a :=
    fun hs hu => hu.imp h.doomed (fun hu => ⟨h.known hu.1, hreq hs hu.2⟩)
  cases hpc : s.loop <;> rw [hpc] at hl hreq hunsent
  case idle => trivial
  case created p => exact ⟨h.known hl.1, hreq id hl.2⟩
  case reserved p => exact ⟨h.known hl.1, hreq id hl.2⟩
  case submitting p => exact h.known hl
  case sending p => exact h.known hl
  case leaving p opid txid note => exact hl
  case refunding p note => exact hunsent id hl
  case failing p note => exact hunsent id hl
  all_goals exact ⟨h.known hl.1, hl.2⟩

theorem Later.rowRead (h : Later s s') {r : PoolDb.ReservedAttempt} (hr : RowRead w s r) :
    RowRead w s' r := by
  obtain ⟨⟨row, hrow, hcreated⟩, hnames⟩ := hr
  obtain ⟨row', hrow', hc⟩ := h.row _ _ hrow
  exact ⟨⟨row', hrow', hc.trans hcreated⟩, hnames⟩

theorem Later.sweepOk (h : Later s s') {pc : SweepPc} (hs : SweepOk w s pc) :
    SweepOk w s' pc := by
  have hrows : ∀ {rest : List PoolDb.ReservedAttempt}, (∀ r ∈ rest, RowRead w s r) →
      ∀ r ∈ rest, RowRead w s' r := fun hrest r hr => h.rowRead (hrest r hr)
  cases pc
  case idle => trivial
  case phantoms rest => trivial
  case askPhantom txid rest => trivial
  case rows rest => exact hrows hs
  case missing r repliedAt rest => exact ⟨hrows hs.1, fun hage => h.doomed (hs.2 hage)⟩
  case refund r why rest => exact ⟨hrows hs.1, h.finished hs.2⟩
  case markFailed r why rest => exact ⟨hrows hs.1, h.finished hs.2⟩
  case void txid repliedAt rest =>
    refine ⟨hs.1.trans h.now, fun a ha htxid => ?_⟩
    exact h.expired a (hs.2 a (h.agedAt_old hs.1 ha) htxid)
  all_goals exact ⟨hrows hs.1, hs.2⟩

/-! ### Changes of one part -/

/-- With the loop where it was, an attempt does not become sendable by ageing. -/
theorem canSend_of_loop_eq (hloop : s'.loop = s.loop) (hnow : s.db.now ≤ s'.db.now)
    (hrow : ∀ a r, s.db.payoutAttempts.get? a = some r →
      ∃ r', s'.db.payoutAttempts.get? a = some r' ∧ r'.createdAt = r.createdAt)
    (h : s'.CanSend s'.loop a) : s.CanSend s.loop a := by
  rw [hloop] at h
  refine h.imp id (fun hs => ⟨hs.1, fun hage => hs.2 ?_⟩)
  obtain ⟨r, hr, hle⟩ := agedAt_iff.1 hage
  obtain ⟨r', hr', hc⟩ := hrow a r hr
  exact agedAt_iff.2 ⟨r', hr', by omega⟩

/-- A database call that rewrites attempt rows one by one. -/
theorem Inv.setDb (h : Inv w s) {db : PoolDb} {f : AttemptId → PayoutAttempt → PayoutAttempt}
    {returned : List AttemptId} {settled : List (AttemptId × String)}
    (hnow : s.db.now ≤ db.now)
    (hget : ∀ a, db.payoutAttempts.get? a = (s.db.payoutAttempts.get? a).map (f a))
    (hcreated : ∀ a r, (f a r).createdAt = r.createdAt)
    (hnamed : ∀ a r, r.Named w a → (f a r).Named w a)
    (hquiet : ∀ a r, s.Live a → ¬ r.Quiet → ¬ (f a r).Quiet)
    (hreturned : ∀ a ∈ returned, a ∈ s.returned ∨ s.Finished a)
    (hsettled : ∀ e ∈ settled, e ∈ s.settled ∨ s.Known e.1 ∧ e.2 = w.txidOf e.1) :
    Inv w { s with db := db, returned := returned, settled := settled } ∧
      Later s { s with db := db, returned := returned, settled := settled } := by
  have hrow : ∀ a r, s.db.payoutAttempts.get? a = some r →
      ∃ r', db.payoutAttempts.get? a = some r' ∧ r'.createdAt = r.createdAt := by
    intro a r hr
    exact ⟨f a r, by rw [hget, hr]; rfl, hcreated a r⟩
  have hold : ∀ a r', db.payoutAttempts.get? a = some r' →
      ∃ r, s.db.payoutAttempts.get? a = some r ∧ r' = f a r := by
    intro a r' hr'
    rw [hget] at hr'
    obtain ⟨r, hr, heq⟩ := Option.map_eq_some_iff.1 hr'
    exact ⟨r, hr, heq.symm⟩
  have hlater : Later s { s with db := db, returned := returned, settled := settled } :=
    { now := hnow
      row := hrow
      fresh := by
        intro a r' hr'
        obtain ⟨r, hr, -⟩ := hold a r' hr'
        exact .inl (known_of_get? hr)
      dead := fun _ hd => hd
      expired := fun _ he => he
      requested := fun _ hr => .inl hr
      canSend := by
        intro a _ hc
        refine canSend_of_loop_eq ?_ ?_ ?_ hc
        · rfl
        · exact hnow
        · exact hrow }
  refine ⟨?_, hlater⟩
  exact
    { fate := h.fate
      known := fun a ha => hlater.known (h.known a ha)
      named := by
        intro a r' hr'
        obtain ⟨r, hr, rfl⟩ := hold a r' hr'
        exact hnamed a r (h.named a r hr)
      rows := by
        intro a r' hr' hlive
        obtain ⟨r, hr, rfl⟩ := hold a r' hr'
        exact hquiet a r hlive (h.rows a r hr hlive)
      loop := hlater.loopOk h.loop
      sweep := hlater.sweepOk h.sweep
      returned := by
        intro a ha
        exact hlater.finished ((hreturned a ha).elim (h.returned a) id)
      settled := by
        intro e he
        obtain ⟨hk, ht⟩ := (hsettled e he).elim (h.settled e) id
        exact ⟨hlater.known hk, ht⟩ }

/-- A change of what happened outside. -/
theorem Inv.setFate (h : Inv w s) (fate : AttemptId → Fate)
    (hfate : ∀ a, FateOk (fate a))
    (hdead : ∀ a, (s.fate a).dead = true → (fate a).dead = true)
    (hexpired : ∀ a, (s.fate a).expired = true → (fate a).expired = true)
    (hrequested : ∀ a, (fate a).Requested → s.Requested a ∨ s.loop.Submits a) :
    Inv w { s with fate := fate } ∧ Later s { s with fate := fate } := by
  have hlater : Later s { s with fate := fate } :=
    { now := le_refl _
      row := fun _ r hr => ⟨r, hr, rfl⟩
      fresh := fun _ _ hr => .inl (known_of_get? hr)
      dead := hdead
      expired := hexpired
      requested := hrequested
      canSend := fun _ _ hc => hc }
  refine ⟨?_, hlater⟩
  exact
    { fate := hfate
      known := by
        intro a ha
        rcases hrequested a ha with hr | hs
        · exact h.known a hr
        · have hloop := h.loop
          cases hpc : s.loop <;> rw [hpc] at hs hloop <;> cases hs
          exact hloop
      named := h.named
      rows := by
        intro a r hr hlive
        have hreq : s.Requested a ∨ s.loop.Submits a :=
          hlive.1.elim (hrequested a) Or.inr
        exact h.rows a r hr ⟨hreq, fun hd => hlive.2 (hlater.doomed hd)⟩
      loop := hlater.loopOk h.loop
      sweep := hlater.sweepOk h.sweep
      returned := fun a ha => hlater.finished (h.returned a ha)
      settled := h.settled }

/-- The loop moves on. -/
theorem Inv.gotoLoop (h : Inv w s) (pc : LoopPc) (hok : LoopOk w s pc)
    (hcan : ∀ a, s.CanSend pc a → s.CanSend s.loop a)
    (hrows : ∀ a r, pc.Submits a → s.db.payoutAttempts.get? a = some r → ¬ r.Quiet) :
    Inv w { s with loop := pc } := by
  have hlater : Later s { s with loop := pc } :=
    { now := le_refl _
      row := fun _ r hr => ⟨r, hr, rfl⟩
      fresh := fun _ _ hr => .inl (known_of_get? hr)
      dead := fun _ hd => hd
      expired := fun _ he => he
      requested := fun _ hr => .inl hr
      canSend := fun a _ hc => hcan a hc }
  exact
    { fate := h.fate
      known := h.known
      named := h.named
      rows := by
        rintro a r hr ⟨hreq | hs, hd⟩
        · exact h.rows a r hr ⟨.inl hreq, hd⟩
        · exact hrows a r hs hr
      loop := by cases pc <;> exact hok
      sweep := hlater.sweepOk h.sweep
      returned := fun a ha => hlater.finished (h.returned a ha)
      settled := h.settled }

/-- The loop moves on to where it sends nothing. -/
theorem Inv.gotoQuietLoop (h : Inv w s) (pc : LoopPc) (hok : LoopOk w s pc)
    (hpc : ∀ a, ¬ pc.Sends a) : Inv w { s with loop := pc } := by
  refine h.gotoLoop pc hok (fun a hc => ?_) (fun a r hs => absurd hs.sends (hpc a))
  exact hc.elim (fun hs => absurd hs.sends (hpc a)) (fun hs => absurd hs.1 (hpc a))

/-- The reconciler moves on. -/
theorem Inv.gotoSweep (h : Inv w s) (pc : SweepPc) (hok : SweepOk w s pc) :
    Inv w { s with sweep := pc } :=
  { fate := h.fate
    known := h.known
    named := h.named
    rows := h.rows
    loop := by
      have hloop := h.loop
      cases hpc : s.loop <;> rw [hpc] at hloop <;> exact hloop
    sweep := by cases pc <;> exact hok
    returned := h.returned
    settled := h.settled }

/-! ### Database calls -/

/-- A call that leaves the attempt log alone. -/
theorem Inv.setTables (h : Inv w s) (db : PoolDb) {returned : List AttemptId}
    {settled : List (AttemptId × String)} (hnow : s.db.now ≤ db.now)
    (hattempts : db.payoutAttempts = s.db.payoutAttempts)
    (hreturned : ∀ a ∈ returned, a ∈ s.returned ∨ s.Finished a)
    (hsettled : ∀ e ∈ settled, e ∈ s.settled ∨ s.Known e.1 ∧ e.2 = w.txidOf e.1) :
    Inv w { s with db := db, returned := returned, settled := settled } ∧
      Later s { s with db := db, returned := returned, settled := settled } := by
  refine h.setDb (f := fun _ r => r) hnow ?_ (fun _ _ => rfl) (fun _ _ hn => hn)
    (fun _ _ _ hq => hq) hreturned hsettled
  intro a
  rw [hattempts, Option.map_id']

theorem Inv.update (h : Inv w s) (c : DbCall) (a : AttemptId) (status : AttemptStatus)
    (opid txid errorMessage : Option String)
    (hopid : ∀ o, opid = some o → o = w.opidOf a) (htxid : ∀ t, txid = some t → t = w.txidOf a)
    (hquiet : ¬ s.Live a ∨ status = .sent ∨ status = .submitting ∨ txid ≠ none) :
    Inv w (s.update c a status opid txid errorMessage) ∧
      Later s (s.update c a status opid txid errorMessage) := by
  have hor : ∀ {x y : Option String} {v : String}, (∀ o, x = some o → o = v) →
      (∀ o, y = some o → o = v) → ∀ o, x.or y = some o → o = v := by
    intro x y v hx hy o ho
    cases x with
    | none => exact hy o ho
    | some o' => exact hx o ho
  have hsame := h.setTables _ (le_refl _) rfl (fun _ ha => .inl ha) (fun _ he => .inl he)
  unfold Saga.update
  split
  · exact hsame
  · refine h.setDb (f := fun b r =>
      if b = a then
        { r with
          status := status
          opid := opid.or r.opid
          txid := txid.or r.txid
          errorMessage := errorMessage.or r.errorMessage
          updatedAt := s.db.now }
      else r) (le_refl _) ?_ ?_ ?_ ?_ (fun _ ha => .inl ha) (fun _ he => .inl he)
    · intro b
      simp only [PoolDb.updatePayoutAttempt, Auto.get?_modify]
      by_cases hb : b = a <;> simp [hb]
    · intro b r
      split <;> rfl
    · intro b r hn
      split
      · rename_i hb
        subst hb
        exact ⟨hor hopid hn.1, hor htxid hn.2⟩
      · exact hn
    · intro b r hlive hq
      split
      · rename_i hb
        subst hb
        rintro ⟨-, ht, hsent, hsub⟩
        rcases hquiet with hl | hs | hs | hs
        · exact hl hlive
        · exact hsent hs
        · exact hsub hs
        · cases txid with
          | none => exact hs rfl
          | some t => cases ht
      · exact hq

theorem Inv.refund? (h : Inv w s) {c : DbCall} (ha : s.Finished a)
    (hs : s.refund? c a = some s') : Inv w s' ∧ Later s s' := by
  unfold Saga.refund? at hs
  obtain ⟨r, hr, rfl⟩ := Option.map_eq_some_iff.1 hs
  obtain ⟨-, bal, hdb, -⟩ := PoolDb.refundPayout_spec (DbCall.result_eq_some hr)
  apply h.setTables
  · rw [hdb]
  · rw [hdb]
  · intro b hb
    split at hb
    · exact .inl hb
    · rcases List.mem_cons.1 hb with rfl | hb
      · exact .inr ha
      · exact .inl hb
  · exact fun _ he => .inl he

theorem Inv.confirm? (h : Inv w s) {c : DbCall} {txid : String} (hknown : s.Known a)
    (htxid : txid = w.txidOf a) (hs : s.confirm? c a txid = some s') :
    Inv w s' ∧ Later s s' := by
  unfold Saga.confirm? at hs
  obtain ⟨r, hr, rfl⟩ := Option.map_eq_some_iff.1 hs
  obtain ⟨-, bal, pays, hdb, -⟩ := PoolDb.confirmPayout_spec (DbCall.result_eq_some hr)
  apply h.setTables
  · rw [hdb]
  · rw [hdb]
  · exact fun _ hb => .inl hb
  · intro e he
    split at he
    · exact .inl he
    · rcases List.mem_cons.1 he with rfl | he
      · exact .inr ⟨hknown, htxid⟩
      · exact .inl he

/-- A void returns only attempts whose transaction is expired. -/
theorem Inv.void? (h : Inv w s) {c : DbCall} {txid : String}
    (hexpired : ∀ e ∈ s.settled, e.2 = txid → (s.fate e.1).expired = true)
    (hs : s.void? c txid = some s') : Inv w s' ∧ Later s s' := by
  unfold Saga.void? at hs
  obtain ⟨r, hr, rfl⟩ := Option.map_eq_some_iff.1 hs
  rcases PoolDb.voidReorgedPayout_cases (DbCall.result_eq_some hr) with
    ⟨hout, hdb⟩ | ⟨-, bal, hdb, -⟩
  · rw [hout, hdb]
    exact h.setTables _ (le_refl _) rfl (fun _ ha => .inl ha) (fun _ he => .inl he)
  · refine h.setDb (f := fun _ r =>
      if r.txid = some txid ∧ r.status = .confirmed then
        { r with
          status := .failed
          updatedAt := s.db.now
          errorMessage := some
            "auto-void: tx reorged out and expired (-5); funds returned to pending" }
      else r) ?_ ?_ ?_ ?_ ?_ ?_ (fun _ he => .inl he)
    · rw [hdb]
      exact le_refl _
    · intro b
      rw [hdb]
      exact Auto.get?_modifyAll _ _ b
    · intro b r
      split <;> rfl
    · intro b r hn
      split <;> exact hn
    · intro b r hlive hq
      split
      · rename_i hcond
        rintro ⟨-, ht, -⟩
        rw [hcond.1] at ht
        cases ht
      · exact hq
    · intro b hb
      split at hb
      · exact .inl hb
      · rcases List.mem_append.1 hb with hb | hb
        · obtain ⟨e, he, rfl⟩ := List.mem_map.1 hb
          obtain ⟨hmem, heq⟩ := List.mem_filter.1 he
          exact .inr (.inl (.inr (hexpired e hmem (by simpa using heq))))
        · exact .inl hb

/-! ### Answers -/

theorem Inv.failOperation (h : Inv w s) {opid : String}
    (hunseen : ∀ b < s.db.payoutAttempts.next, w.opidOf b = opid → (s.fate b).tx = .unseen) :
    Inv w (failOperation w s opid) ∧ Later s (failOperation w s opid) := by
  apply h.setFate
  · intro a
    split
    · rename_i hcond
      obtain ⟨r, hr⟩ := Known.row hcond.1
      have htx := hunseen a (Auto.get?_lt_next hr) hcond.2
      exact ⟨fun hne => absurd htx hne, fun hm => by rw [htx] at hm; cases hm⟩
    · exact h.fate a
  · intro a hd
    split
    · rfl
    · exact hd
  · intro a he
    split <;> exact he
  · intro a hr
    split at hr <;> exact .inl hr

theorem doomed_failOperation {opid : String} (hk : s.Known a) (ho : opid = w.opidOf a) :
    (failOperation w s opid).Doomed a := by
  refine .inl ?_
  unfold Saga.failOperation
  dsimp only
  rw [if_pos ⟨hk, ho.symm⟩]

theorem Inv.expire (h : Inv w s) {txid : String}
    (hunknown : ∀ b < s.db.payoutAttempts.next, w.txidOf b = txid → (s.fate b).tx.known = false) :
    Inv w (expire w s txid) ∧ Later s (expire w s txid) := by
  apply h.setFate
  · intro a
    split
    · rename_i hcond
      obtain ⟨r, hr, -⟩ := agedAt_iff.1 hcond.2
      have htx := hunknown a (Auto.get?_lt_next hr) hcond.1
      exact ⟨(h.fate a).1, fun hm => by
        rw [show (s.fate a).tx = .mined from hm] at htx
        cases htx⟩
    · exact h.fate a
  · intro a hd
    split <;> exact hd
  · intro a he
    split
    · rfl
    · exact he
  · intro a hr
    split at hr <;> exact .inl hr

theorem expired_expire {txid : String} (ha : s.AgedAt s.db.now a) (ht : w.txidOf a = txid) :
    ((expire w s txid).fate a).expired = true := by
  unfold Saga.expire
  dsimp only
  rw [if_pos ⟨ht, ha⟩]

/-! ## One step -/

theorem Inv.startRound (h : Inv w s) (payoutList : List Destination) (c : DbCall) :
    Inv w (s.startRound payoutList c) := by
  unfold Saga.startRound
  split
  · rename_i hpc
    split
    · exact h
    · simp only [PoolDb.createPayoutAttempt]
      set row : PayoutAttempt := ⟨none, none, .queued, payoutList.length,
        (payoutList.map (·.amount)).sum, "loop", none, s.db.now, s.db.now⟩ with hrow
      set s' : Saga := { s with
        db := { s.db with payoutAttempts := s.db.payoutAttempts.insert row }
        loop := .created ⟨s.db.payoutAttempts.next, payoutList⟩ } with hs'
      have hold : ∀ a, a ≠ s.db.payoutAttempts.next →
          s'.db.payoutAttempts.get? a = s.db.payoutAttempts.get? a := by
        intro a ha
        simp [hs', Auto.get?_insert, ha]
      have hnew : s'.db.payoutAttempts.get? s.db.payoutAttempts.next = some row := by
        simp [hs', Auto.get?_insert]
      have hfresh : ∀ a, s.Known a → a ≠ s.db.payoutAttempts.next := by
        intro a hk he
        obtain ⟨r, hr⟩ := hk.row
        rw [he, Auto.get?_next] at hr
        cases hr
      have hlater : Later s s' :=
        { now := le_refl _
          row := fun a r hr => ⟨r, by rw [hold a (hfresh a (known_of_get? hr)), hr], rfl⟩
          fresh := by
            intro a r hr
            by_cases ha : a = s.db.payoutAttempts.next
            · rw [ha, hnew] at hr
              cases hr
              exact .inr (le_refl _)
            · rw [hold a ha] at hr
              exact .inl (known_of_get? hr)
          dead := fun _ hd => hd
          expired := fun _ he => he
          requested := fun _ hr => .inl hr
          canSend := by
            intro a hk hc
            have ha : s.db.payoutAttempts.next = a := hc.elim (fun hs => by cases hs) And.left
            exact absurd ha.symm (hfresh a hk) }
      exact
        { fate := h.fate
          known := fun a ha => hlater.known (h.known a ha)
          named := by
            intro a r hr
            by_cases ha : a = s.db.payoutAttempts.next
            · rw [ha, hnew] at hr
              cases hr
              exact PayoutAttempt.named_of_none rfl rfl
            · rw [hold a ha] at hr
              exact h.named a r hr
          rows := by
            rintro a r hr ⟨hreq | hsub, hd⟩
            · have hk := h.known a hreq
              rw [hold a (hfresh a hk)] at hr
              exact h.rows a r hr ⟨.inl hreq, hd⟩
            · cases hsub
          loop := ⟨known_of_get? hnew, fun hr => hfresh _ (h.known _ hr) rfl⟩
          sweep := hlater.sweepOk h.sweep
          returned := fun a ha => hlater.finished (h.returned a ha)
          settled := fun e he => ⟨hlater.known (h.settled e he).1, (h.settled e he).2⟩ }
  · exact h

/-- The loop goes on to send after reserving. -/
theorem Inv.gotoReserved (h : Inv w s) {p : PayoutRound} (hpc : s.loop = .created p)
    (reserved : List (MinerId × ℤ)) : Inv w { s with loop := .reserved (p.restrict reserved) } := by
  have hok := h.loop
  rw [hpc] at hok
  refine h.gotoLoop (.reserved _) hok (fun a hc => ?_) (fun a r hs => by cases hs)
  rw [hpc]
  exact hc.elim (fun hs => by cases hs) (fun hs => .inr hs)

/-- The mark is durable before the request leaves. -/
theorem Inv.gotoSubmitting (h : Inv w s) {p : PayoutRound} (hpc : s.loop = .reserved p)
    (hage : ¬ s.AgedAt s.db.now p.attempt)
    (hmarked : ∀ r, s.db.payoutAttempts.get? p.attempt = some r → r.status = .submitting) :
    Inv w { s with loop := .submitting p } := by
  have hok := h.loop
  rw [hpc] at hok
  refine h.gotoLoop (.submitting _) hok.1 (fun a hc => ?_) (fun a r hs hr hq => ?_)
  · rw [hpc]
    have ha : p.attempt = a := hc.elim id And.left
    exact .inr ⟨ha, ha ▸ hage⟩
  · obtain rfl : p.attempt = a := hs
    exact hq.2.2.2 (hmarked r hr)

theorem agedAt_update {c : DbCall} {b : AttemptId} {status : AttemptStatus}
    {opid txid errorMessage : Option String} {time : ℕ}
    (h : (s.update c a status opid txid errorMessage).AgedAt time b) : s.AgedAt time b := by
  unfold Saga.update at h
  split at h
  · exact h
  · obtain ⟨r', hr', hage⟩ := agedAt_iff.1 h
    simp only [PoolDb.updatePayoutAttempt, Auto.get?_modify] at hr'
    split at hr'
    · obtain ⟨r, hr, rfl⟩ := Option.map_eq_some_iff.1 hr'
      exact agedAt_iff.2 ⟨r, hr, hage⟩
    · exact agedAt_iff.2 ⟨r', hr', hage⟩

theorem status_update {c : DbCall} {status : AttemptStatus}
    {opid txid errorMessage : Option String} (hc : ¬ c.fails = true) {r : PayoutAttempt}
    (h : (s.update c a status opid txid errorMessage).db.payoutAttempts.get? a = some r) :
    r.status = status := by
  unfold Saga.update at h
  rw [if_neg hc] at h
  simp only [PoolDb.updatePayoutAttempt, Auto.get?_modify, if_true] at h
  obtain ⟨r₀, -, rfl⟩ := Option.map_eq_some_iff.1 h
  rfl

theorem update_loop (c : DbCall) (status : AttemptStatus)
    (opid txid errorMessage : Option String) :
    (s.update c a status opid txid errorMessage).loop = s.loop := by
  unfold Saga.update
  split <;> rfl

theorem update_now (c : DbCall) (status : AttemptStatus)
    (opid txid errorMessage : Option String) :
    (s.update c a status opid txid errorMessage).db.now = s.db.now := by
  unfold Saga.update
  split <;> rfl

theorem Inv.loopDb (h : Inv w s) {c : DbCall} (hsafe : s.MarksInTime (.loopDb c)) :
    Inv w (s.loopDb c) := by
  have hok := h.loop
  have hnone : ∀ {v : String} (o : String), (none : Option String) = some o → o = v :=
    fun _ ho => by cases ho
  have hsome : ∀ {u v : String}, u = v → ∀ o, some u = some o → o = v :=
    fun huv o ho => by cases ho; exact huv
  unfold Saga.loopDb
  split
  · -- created: reserving leaves the attempt log alone
    rename_i p hpc
    rw [hpc] at hok
    split
    · exact h.gotoQuietLoop _ (.inr hok) (fun _ => id)
    · rename_i db hres
      obtain ⟨bal, its, hdb, -⟩ := PoolDb.reservePayout_spec (DbCall.result_eq_some hres)
      subst hdb
      obtain ⟨h₁, -⟩ := h.setTables ({ s.db with balances := bal, payoutItems := its })
        (le_refl _) rfl (fun _ ha => .inl ha) (fun _ he => .inl he)
      exact h₁.gotoQuietLoop _ (.inr hok) (fun _ => id)
    · rename_i reserved db hres
      obtain ⟨bal, its, hdb, -⟩ := PoolDb.reservePayout_spec (DbCall.result_eq_some hres)
      subst hdb
      obtain ⟨h₁, -⟩ := h.setTables ({ s.db with balances := bal, payoutItems := its })
        (le_refl _) rfl (fun _ ha => .inl ha) (fun _ he => .inl he)
      exact h₁.gotoReserved hpc _
  · -- reserved: an attempt that is not an hour old is marked
    rename_i p hpc
    rw [hpc] at hok
    split
    · exact h.gotoQuietLoop _ (.inr hok) (fun _ => id)
    · rename_i hc
      have hage : ¬ s.AgedAt s.db.now p.attempt := by
        simp only [MarksInTime, hpc] at hsafe
        exact hsafe.resolve_left hc
      obtain ⟨h₁, -⟩ := h.update c p.attempt .submitting none none none hnone hnone
        (.inr (.inr (.inl rfl)))
      refine h₁.gotoSubmitting ?_ ?_ (fun r hr => status_update hc hr)
      · rw [update_loop]
        exact hpc
      · rw [update_now]
        exact fun ha => hage (agedAt_update ha)
  · -- refunding: the attempt is finished
    rename_i p note hpc
    rw [hpc] at hok
    have hfin : s.Finished p.attempt := Unsent.finished hok (by rw [hpc]; exact id)
    cases hs : s.refund? c p.attempt with
    | none => exact h.gotoQuietLoop _ hok (fun _ => id)
    | some s' =>
      obtain ⟨h₁, hl₁⟩ := h.refund? hfin hs
      exact h₁.gotoQuietLoop _ (hl₁.finished hfin).unsent (fun _ => id)
  · -- failing: the attempt is finished
    rename_i p note hpc
    rw [hpc] at hok
    have hfin : s.Finished p.attempt := Unsent.finished hok (by rw [hpc]; exact id)
    obtain ⟨h₁, -⟩ := h.update c p.attempt .failed none none (some note) hnone hnone
      (.inl hfin.not_live)
    exact h₁.gotoQuietLoop _ trivial (fun _ => id)
  · -- accepted
    rename_i p opid hpc
    rw [hpc] at hok
    obtain ⟨h₁, hl₁⟩ := h.update c p.attempt .sent (some opid) none none (hsome hok.2) hnone
      (.inr (.inl rfl))
    exact h₁.gotoQuietLoop _ ⟨hl₁.known hok.1, hok.2⟩ (fun _ => id)
  · -- leaving
    rename_i p opid txid note hpc
    rw [hpc] at hok
    obtain ⟨h₁, -⟩ := h.update c p.attempt .sent opid txid (some note) hok.1 hok.2
      (.inr (.inl rfl))
    exact h₁.gotoQuietLoop _ trivial (fun _ => id)
  · -- costing
    rename_i p txid hpc
    rw [hpc] at hok
    split
    · exact h.gotoQuietLoop _ hok (fun _ => id)
    · obtain ⟨h₁, -⟩ := h.setTables (s.db.recordTxCost .payout txid p.fee) (le_refl _) rfl
        (fun _ ha => .inl ha) (fun _ he => .inl he)
      exact h₁.gotoQuietLoop _ hok (fun _ => id)
  · -- confirming
    rename_i p txid hpc
    rw [hpc] at hok
    split
    · exact h.gotoQuietLoop _ ⟨hnone, hsome hok.2⟩ (fun _ => id)
    · rename_i s' hs
      obtain ⟨h₁, hl₁⟩ := h.confirm? hok.1 hok.2 hs
      exact h₁.gotoQuietLoop _ ⟨hl₁.known hok.1, hok.2⟩ (fun _ => id)
  · -- finishing
    rename_i p txid hpc
    rw [hpc] at hok
    obtain ⟨h₁, -⟩ := h.update c p.attempt .confirmed none (some txid) none hnone (hsome hok.2)
      (.inr (.inr (.inr (Option.some_ne_none txid))))
    exact h₁.gotoQuietLoop _ trivial (fun _ => id)
  · exact h

theorem Inv.sendmany (h : Inv w s) : Inv w s.sendmany := by
  have hok := h.loop
  unfold Saga.sendmany
  split
  · rename_i p hpc
    rw [hpc] at hok
    obtain ⟨h₁, hl₁⟩ := h.setFate
      (fun a =>
        if a = p.attempt then { s.fate a with request := some p.merged } else s.fate a)
      (by
        intro a
        split
        · exact ⟨fun hne => ⟨rfl, ((h.fate a).1 hne).2⟩, (h.fate a).2⟩
        · exact h.fate a)
      (by intro a hd; split <;> exact hd)
      (by intro a he; split <;> exact he)
      (by
        intro a hr
        split at hr
        · rename_i ha
          rw [hpc]
          exact .inr ha.symm
        · exact .inl hr)
    exact h₁.gotoQuietLoop (.sending p) (hl₁.known hok) (fun _ => id)
  · exact h

theorem Inv.sendAnswer (h : Inv w s) {answer : SendAnswer}
    (hlegal : Legal w s (.sendAnswer answer)) : Inv w (s.sendAnswer answer) := by
  have hok := h.loop
  unfold Saga.sendAnswer
  split
  · rename_i p hpc
    rw [hpc] at hok
    simp only [Legal, hpc] at hlegal
    cases answer with
    | accepted opid => exact h.gotoQuietLoop _ ⟨hok, hlegal⟩ (fun _ => id)
    | transport message =>
      exact h.gotoQuietLoop _ ⟨nofun, nofun⟩ (fun _ => id)
    | jsonRpc message =>
      have hunseen : (s.fate p.attempt).tx = .unseen := hlegal
      obtain ⟨h₁, -⟩ := h.setFate
        (fun a => if a = p.attempt then { s.fate a with dead := true } else s.fate a)
        (by
          intro a
          split
          · rename_i ha
            subst ha
            exact ⟨fun hne => absurd hunseen hne, (h.fate p.attempt).2⟩
          · exact h.fate a)
        (by
          intro a hd
          split
          · rfl
          · exact hd)
        (by intro a he; split <;> exact he)
        (by intro a hr; split at hr <;> exact .inl hr)
      refine h₁.gotoQuietLoop _ (.inl (.inl ?_)) (fun _ => id)
      dsimp only
      rw [if_pos rfl]
  · exact h

theorem Inv.loopStatus (h : Inv w s) {answer : StatusAnswer}
    (hlegal : Legal w s (.loopStatus answer)) (hsafe : s.ReadsTxid (.loopStatus answer)) :
    Inv w (s.loopStatus w answer) := by
  have hok := h.loop
  unfold Saga.loopStatus
  split
  · rename_i p opid hpc
    rw [hpc] at hok
    simp only [Legal, hpc] at hlegal
    split
    · exact h.gotoQuietLoop _ ⟨fun o ho => (Option.some.inj ho) ▸ hok.2, nofun⟩
        (fun _ => id)
    · rename_i result
      have hread : result.readTxid.isSome = true := by
        simpa only [ReadsTxid, hpc] using hsafe
      obtain ⟨t, ht⟩ := Option.isSome_iff_exists.1 hread
      have hname : t = w.txidOf p.attempt := by
        have hall : (result.readTxid.all (fun t => t == w.txidOf p.attempt)) = true := hlegal
        rw [ht] at hall
        simpa using hall
      rw [ht]
      exact h.gotoQuietLoop _ ⟨hok.1, hname⟩ (fun _ => id)
    · obtain ⟨h₁, -⟩ := h.failOperation hlegal
      exact h₁.gotoQuietLoop _ (.inl (doomed_failOperation hok.1 hok.2)) (fun _ => id)
    · exact h
  · exact h

theorem Inv.loopTimeout (h : Inv w s) : Inv w s.loopTimeout := by
  have hok := h.loop
  unfold Saga.loopTimeout
  split
  · rename_i p opid hpc
    rw [hpc] at hok
    exact h.gotoQuietLoop _ ⟨fun o ho => (Option.some.inj ho) ▸ hok.2, nofun⟩
      (fun _ => id)
  · exact h

theorem Inv.loopNode (h : Inv w s) {answer : NodeAnswer}
    (hlegal : Legal w s (.loopNode answer)) : Inv w (s.loopNode w answer) := by
  have hok := h.loop
  unfold Saga.loopNode
  dsimp only
  split
  · rename_i p txid tries hpc
    rw [hpc] at hok
    simp only [Legal, hpc] at hlegal
    have hretry : ∀ (s₁ : Saga) (message : String), Inv w s₁ → s₁.Known p.attempt →
        Inv w (if tries ≤ 1 then
          { s₁ with loop := .leaving p none (some txid) s!"tx not yet visible: {message}" }
        else { s₁ with loop := .verifying p txid (tries - 1) }) := by
      intro s₁ message h₁ hk
      split
      · exact h₁.gotoQuietLoop _ ⟨nofun, fun t ht => (Option.some.inj ht) ▸ hok.2⟩ (fun _ => id)
      · exact h₁.gotoQuietLoop _ ⟨hk, hok.2⟩ (fun _ => id)
    cases answer with
    | found => exact h.gotoQuietLoop _ hok (fun _ => id)
    | notFound message =>
      obtain ⟨h₁, hl₁⟩ := h.expire hlegal
      exact hretry _ message h₁ (hl₁.known hok.1)
    | error message => exact hretry _ message h hok.1
  · exact h

/-! ### The reconciler -/

theorem rowRead_of_reserved (h : Inv w s) {minutes : Option ℕ} {r : PoolDb.ReservedAttempt}
    (hr : r ∈ s.db.getReservedAttempts minutes) : RowRead w s r := by
  unfold PoolDb.getReservedAttempts at hr
  obtain ⟨e, he, rfl⟩ := List.mem_map.1 hr
  have hget : s.db.payoutAttempts.get? e.1 = some e.2 :=
    Keyed.get?_eq_some_iff.2 (List.mem_filter.1 he).1
  exact ⟨⟨e.2, hget, rfl⟩, h.named e.1 e.2 hget⟩

theorem Inv.reconcile (h : Inv w s) (minutes : Option ℕ) (c : DbCall) :
    Inv w (s.reconcile minutes c) := by
  unfold Saga.reconcile
  split
  · split
    · exact h
    · exact h.gotoSweep (.rows _) (fun r hr => rowRead_of_reserved h hr)
  · exact h

theorem Inv.checkPhantoms (h : Inv w s) (c : DbCall) : Inv w (s.checkPhantoms c) := by
  unfold Saga.checkPhantoms
  split
  · split
    · exact h
    · exact h.gotoSweep (.phantoms _) trivial
  · exact h

/-- A row that is quiet now, an hour after it was written, belongs to a finished attempt. -/
theorem Inv.finished_of_quiet (h : Inv w s) {r : PoolDb.ReservedAttempt} {row : PayoutAttempt}
    (hrow : s.db.payoutAttempts.get? r.id = some row) (hcreated : row.createdAt = r.createdAt)
    (hquiet : row.Quiet) (hage : olderThanRefund s.db.now r.createdAt = true) :
    s.Finished r.id := by
  have haged : s.AgedAt s.db.now r.id :=
    agedAt_iff.2 ⟨row, hrow, by rw [hcreated]; simpa [olderThanRefund] using hage⟩
  by_cases hd : s.Doomed r.id
  · exact .inl hd
  · have hdead : ¬ s.Live r.id := fun hl => h.rows r.id row hrow hl hquiet
    refine .inr ⟨⟨known_of_get? hrow, fun hr => hdead ⟨.inl hr, hd⟩⟩, ?_⟩
    rintro (hs | ⟨-, hyoung⟩)
    · exact hdead ⟨.inr hs, hd⟩
    · exact hyoung haged

theorem Inv.sweepNext (h : Inv w s) (hsafe : s.ActsOnCurrent .sweepNext) :
    Inv w s.sweepNext := by
  have hok := h.sweep
  unfold Saga.sweepNext
  split
  · exact h.gotoSweep _ trivial
  · rename_i r rest hpc
    rw [hpc] at hok
    simp only [ActsOnCurrent, hpc] at hsafe
    obtain ⟨⟨row, hrow, hcreated⟩, hopid, htxid⟩ := hok r List.mem_cons_self
    apply h.gotoSweep
    unfold classify at hsafe ⊢
    split
    · rename_i t ht
      exact ⟨hok, htxid t ht⟩
    · rename_i o ht ho
      exact ⟨hok, hopid o ho⟩
    · rename_i ht ho
      rw [ht, ho] at hsafe
      split
      · exact fun x hx => hok x (List.mem_cons_of_mem _ hx)
      · rename_i hstatus
        split
        · rename_i hage
          dsimp only at hsafe
          rw [if_neg hstatus, if_pos hage, hrow] at hsafe
          exact ⟨hok, h.finished_of_quiet hrow hcreated (of_decide_eq_true (hsafe rfl)) hage⟩
        · exact fun x hx => hok x (List.mem_cons_of_mem _ hx)
  · rename_i r repliedAt rest hpc
    rw [hpc] at hok
    simp only [ActsOnCurrent, hpc] at hsafe
    split
    · rename_i hage
      exact h.gotoSweep (.refund _ _ _) ⟨hok.1, .inl (hok.2 (hsafe hage))⟩
    · exact h.gotoSweep (.rows _) (fun x hx => hok.1 x (List.mem_cons_of_mem _ hx))
  · exact h.gotoSweep _ trivial
  · exact h.gotoSweep _ trivial
  · exact h

theorem Inv.sweepStatus (h : Inv w s) {answer : StatusAnswer}
    (hlegal : Legal w s (.sweepStatus answer)) : Inv w (s.sweepStatus w answer) := by
  have hok := h.sweep
  unfold Saga.sweepStatus
  split
  · rename_i r opid rest hpc
    rw [hpc] at hok
    simp only [Legal, hpc] at hlegal
    have hrest : ∀ x ∈ rest, RowRead w s x := fun x hx => hok.1 x (List.mem_cons_of_mem _ hx)
    split
    · rename_i result
      split
      · rename_i t ht
        have hall : (result.readTxid.all (fun t => t == w.txidOf r.id)) = true := hlegal
        rw [OperationResult.readTxid_of_plainTxid ht] at hall
        exact h.gotoSweep (.askNode _ _ _) ⟨hok.1, by simpa using hall⟩
      · exact h.gotoSweep (.rows _) hrest
    · obtain ⟨h₁, hl₁⟩ := h.failOperation hlegal
      obtain ⟨row, hrow, -⟩ := (hok.1 r List.mem_cons_self).1
      refine h₁.gotoSweep (.refund _ _ _) ⟨fun x hx => hl₁.rowRead (hok.1 x hx), ?_⟩
      exact .inl (doomed_failOperation (known_of_get? hrow) hok.2)
    · exact h.gotoSweep (.rows _) hrest
  · exact h

theorem Inv.sweepNode (h : Inv w s) {answer : NodeAnswer} (autoVoidReorged : Bool)
    (hlegal : Legal w s (.sweepNode answer)) : Inv w (s.sweepNode w autoVoidReorged answer) := by
  have hok := h.sweep
  unfold Saga.sweepNode
  split
  · rename_i r txid rest hpc
    rw [hpc] at hok
    simp only [Legal, hpc] at hlegal
    cases answer with
    | found => exact h.gotoSweep (.confirm _ _ _) hok
    | notFound message =>
      obtain ⟨h₁, hl₁⟩ := h.expire hlegal
      refine h₁.gotoSweep (.missing _ _ _)
        ⟨fun x hx => hl₁.rowRead (hok.1 x hx), fun hage => .inr ?_⟩
      obtain ⟨row, hrow, hcreated⟩ := (hok.1 r List.mem_cons_self).1
      refine expired_expire (agedAt_iff.2 ⟨row, hrow, ?_⟩) hok.2.symm
      rw [hcreated]
      simpa [olderThanRefund] using hage
    | error message =>
      exact h.gotoSweep (.rows _) (fun x hx => hok.1 x (List.mem_cons_of_mem _ hx))
  · rename_i txid rest hpc
    simp only [Legal, hpc] at hlegal
    split
    · obtain ⟨h₁, -⟩ := h.expire hlegal
      split
      · exact h₁.gotoSweep (.void _ _ _)
          ⟨le_refl _, fun a ha ht => expired_expire ha ht⟩
      · exact h₁.gotoSweep (.phantoms _) trivial
    · exact h.gotoSweep (.phantoms _) trivial
  · exact h

theorem Inv.sweepDb (h : Inv w s) {c : DbCall} (hsafe : s.ActsOnCurrent (.sweepDb c)) :
    Inv w (s.sweepDb c) := by
  have hok := h.sweep
  unfold Saga.sweepDb
  split
  · -- refund
    rename_i r why rest hpc
    rw [hpc] at hok
    split
    · exact h.gotoSweep (.rows _) (fun x hx => hok.1 x (List.mem_cons_of_mem _ hx))
    · rename_i s' hs
      obtain ⟨h₁, hl₁⟩ := h.refund? hok.2 hs
      exact h₁.gotoSweep (.markFailed _ _ _)
        ⟨fun x hx => hl₁.rowRead (hok.1 x hx), hl₁.finished hok.2⟩
  · -- markFailed
    rename_i r why rest hpc
    rw [hpc] at hok
    obtain ⟨h₁, hl₁⟩ := h.update c r.id .failed none none
      (some s!"reconciled: refunded ({why})") nofun nofun
      (.inl hok.2.not_live)
    exact h₁.gotoSweep (.rows _)
      (fun x hx => hl₁.rowRead (hok.1 x (List.mem_cons_of_mem _ hx)))
  · -- confirm
    rename_i r txid rest hpc
    rw [hpc] at hok
    obtain ⟨row, hrow, -⟩ := (hok.1 r List.mem_cons_self).1
    split
    · exact h.gotoSweep (.rows _) (fun x hx => hok.1 x (List.mem_cons_of_mem _ hx))
    · rename_i s' hs
      obtain ⟨h₁, hl₁⟩ := h.confirm? (known_of_get? hrow) hok.2 hs
      exact h₁.gotoSweep (.markConfirmed _ _ _)
        ⟨fun x hx => hl₁.rowRead (hok.1 x hx), hok.2⟩
  · -- markConfirmed
    rename_i r txid rest hpc
    rw [hpc] at hok
    obtain ⟨h₁, hl₁⟩ := h.update c r.id .confirmed none (some txid)
      (some "reconciled: confirmed via chain lookup")
      nofun (fun t ht => (Option.some.inj ht) ▸ hok.2)
      (.inr (.inr (.inr (Option.some_ne_none txid))))
    exact h₁.gotoSweep (.rows _)
      (fun x hx => hl₁.rowRead (hok.1 x (List.mem_cons_of_mem _ hx)))
  · -- void
    rename_i txid repliedAt rest hpc
    rw [hpc] at hok
    simp only [ActsOnCurrent, hpc] at hsafe
    have hexpired : ∀ e ∈ s.settled, e.2 = txid → (s.fate e.1).expired = true := by
      intro e he ht
      exact hok.2 e.1 (hsafe e he ht) ((h.settled e he).2 ▸ ht)
    cases hs : s.void? c txid with
    | none => exact h.gotoSweep (.phantoms _) trivial
    | some s' => exact (h.void? hexpired hs).1.gotoSweep (.phantoms _) trivial
  · exact h

/-! ## Whole runs -/

/-- One step of wallet, node and world, taken safely, keeps the invariant. -/
theorem Inv.step (h : Inv w s) (autoVoidReorged : Bool) {l : Label} (hlegal : Legal w s l)
    (hsafe : s.Safe l) : Inv w (s.step w autoVoidReorged l) := by
  obtain ⟨hreads, hmarks, hacts⟩ := hsafe
  cases l with
  | world other seconds =>
    have hnow : s.db.now ≤ s.db.now + seconds := Nat.le_add_right _ _
    exact (h.setTables ((s.world other seconds).db) hnow rfl (fun _ ha => .inl ha)
      (fun _ he => .inl he)).1
  | crash => exact (h.gotoQuietLoop .idle trivial (fun _ => id)).gotoSweep _ trivial
  | tx a state =>
    obtain ⟨hreq, hdead, -, hmined⟩ := hlegal
    refine (h.setFate _ ?_ ?_ ?_ ?_).1
    · intro b
      split
      · rename_i hb
        subst hb
        exact ⟨fun _ => ⟨hreq, hdead⟩, hmined⟩
      · exact h.fate b
    · intro b hd
      split <;> exact hd
    · intro b he
      split <;> exact he
    · intro b hr
      split at hr <;> exact .inl hr
  | startRound payoutList c => exact h.startRound payoutList c
  | loopDb c => exact h.loopDb hmarks
  | sendmany => exact h.sendmany
  | sendAnswer answer => exact h.sendAnswer hlegal
  | loopStatus answer => exact h.loopStatus hlegal hreads
  | loopTimeout => exact h.loopTimeout
  | loopNode answer => exact h.loopNode hlegal
  | reconcile minutes c => exact h.reconcile minutes c
  | checkPhantoms c => exact h.checkPhantoms c
  | sweepNext => exact h.sweepNext hacts
  | sweepStatus answer => exact h.sweepStatus hlegal
  | sweepNode answer => exact h.sweepNode autoVoidReorged hlegal
  | sweepDb c => exact h.sweepDb hacts

end Saga

/-- **No double pay**: in a run of the saga whose steps are safe, an attempt whose funds went
    back to pending has no mined transaction, whatever crashes and answers it met. -/
theorem returned_never_mined (w : Wallet) (autoVoidReorged : Bool) (ls : List Label)
    (hlegal : Allowed (Saga.step w autoVoidReorged) (Saga.Legal w) Saga.start ls)
    (hsafe : Allowed (Saga.step w autoVoidReorged) Saga.Safe Saga.start ls) :
    Always (Saga.step w autoVoidReorged) Saga.NoDoublePay Saga.start ls := by
  have hinv : Always (Saga.step w autoVoidReorged) (Saga.Inv w) Saga.start ls :=
    always_of_allowed (fun s l h hok => h.step autoVoidReorged hok.1 hok.2) (Saga.inv_start w)
      (hlegal.and hsafe)
  exact hinv.imp (fun _ h => h.noDoublePay)

/-! ### A readable and an unreadable success -/

namespace Saga

instance (w : Wallet) (s : Saga) (txid : String) (answer : NodeAnswer) :
    Decidable (LegalNode w s txid answer) := by
  unfold LegalNode
  split <;> infer_instance

instance (w : Wallet) (s : Saga) (a : AttemptId) (opid : String) (answer : StatusAnswer) :
    Decidable (LegalStatus w s a opid answer) := by
  unfold LegalStatus
  split <;> infer_instance

instance (w : Wallet) (s : Saga) (a : AttemptId) (answer : SendAnswer) :
    Decidable (LegalSend w s a answer) := by
  unfold LegalSend
  split <;> infer_instance

instance (f : Fate) (state : TxState) : Decidable (LegalTx f state) :=
  inferInstanceAs (Decidable (_ ∧ _))

instance (w : Wallet) (s : Saga) (l : Label) : Decidable (Legal w s l) := by
  unfold Legal
  split <;> first | infer_instance | (split <;> infer_instance)

instance (s : Saga) (l : Label) : Decidable (s.ReadsTxid l) := by
  unfold ReadsTxid
  split <;> first | infer_instance | (split <;> infer_instance)

instance (s : Saga) (l : Label) : Decidable (s.MarksInTime l) := by
  unfold MarksInTime
  split <;> first | infer_instance | (split <;> infer_instance)

instance (s : Saga) (l : Label) : Decidable (s.ActsOnCurrent l) := by
  unfold ActsOnCurrent
  split <;> first | infer_instance | (split <;> infer_instance)

instance (s : Saga) (l : Label) : Decidable (s.Safe l) :=
  inferInstanceAs (Decidable (_ ∧ _))

instance (s : Saga) : Decidable s.NoDoublePay := inferInstanceAs (Decidable (∀ _ ∈ _, _))

end Saga

/-- Attempt `n` is operation `op1…1` and transaction `tx1…1`, with `n` ones. -/
def sampleWallet : Wallet where
  opidOf n := "op" ++ String.ofList (List.replicate n '1')
  txidOf n := "tx" ++ String.ofList (List.replicate n '1')

/-- One miner and its balance. -/
def minerDb (pending paying : ℤ) : PoolDb :=
  { PoolDb.empty with
    miners := Auto.empty.insert ⟨"t1miner", 0⟩
    balances := Keyed.empty.insertIgnore 1 ⟨pending, paying, 0⟩ }

def workingCall : DbCall := ⟨false, ""⟩

/-- A round of 100 zatoshis is sent and mined, and its operation succeeds with `result`. -/
def minedRound (result : OperationResult) : List Label :=
  [.world (minerDb 100 0) 0, .startRound [⟨1, 100, "t1miner"⟩] workingCall, .loopDb workingCall,
    .loopDb workingCall, .sendmany, .sendAnswer (.accepted "op1"), .loopDb workingCall,
    .tx 1 .mempool, .tx 1 .mined, .loopStatus (.statuses (some (.success result)))]

/-- The transaction id is read; the pool crashes before it confirms, and the reconciler does. -/
def readableRun : List Label :=
  minedRound ⟨some (.text "tx1"), none⟩ ++
    [.loopNode .found, .loopDb workingCall, .crash, .world (minerDb 0 100) 1200,
      .reconcile none workingCall, .sweepNext, .sweepStatus (.statuses (some (.success
        ⟨some (.text "tx1"), none⟩))), .sweepNode .found, .sweepDb workingCall,
      .sweepDb workingCall, .sweepNext, .world (minerDb 0 0) 7200, .checkPhantoms workingCall]

/-- The run settles its attempt. -/
theorem returned_never_mined_readableRun :
    Always (Saga.step sampleWallet true) Saga.NoDoublePay Saga.start readableRun ∧
      (run (Saga.step sampleWallet true) Saga.start readableRun).settled = [(1, "tx1")] :=
  ⟨returned_never_mined sampleWallet true readableRun (by decide +kernel) (by decide +kernel),
    by decide +kernel⟩

/-- No transaction id is read: the node is asked for `unknown`, and an hour later so is the
    reconciler. -/
def unreadableRun : List Label :=
  minedRound ⟨none, none⟩ ++ List.replicate 6 (.loopNode (.notFound "")) ++
    [.loopDb workingCall, .world (minerDb 0 100) 3600, .reconcile (some 10) workingCall, .sweepNext,
      .sweepNode (.notFound ""), .sweepNext, .sweepDb workingCall]

/-- A success whose transaction id is not readable is refunded while its transaction is mined;
    nothing else in the run is out of order. -/
theorem unreadable_txid_paid_twice :
    Allowed (Saga.step sampleWallet true) (Saga.Legal sampleWallet) Saga.start unreadableRun ∧
    Allowed (Saga.step sampleWallet true) (fun s l => s.MarksInTime l ∧ s.ActsOnCurrent l)
      Saga.start unreadableRun ∧
    (run (Saga.step sampleWallet true) Saga.start unreadableRun).returned = [1] ∧
    ((run (Saga.step sampleWallet true) Saga.start unreadableRun).fate 1).tx = .mined ∧
    ¬ Always (Saga.step sampleWallet true) Saga.NoDoublePay Saga.start unreadableRun := by
  have hlast : ¬ (run (Saga.step sampleWallet true) Saga.start unreadableRun).NoDoublePay := by
    decide +kernel
  exact ⟨by decide +kernel, by decide +kernel, by decide +kernel, by decide +kernel,
    fun h => hlast h.last⟩

end ZcashMiningPool
