import ZcashMiningPool.Dashboard.Selection
import ZcashMiningPool.Ledger.Settlement

/-!
# One send for everybody

A payout round sends one `z_sendmany` for all of its miners.  This module plays a round against a
wallet that refuses the request as a whole when some recipient does not decode and pays every other
request, and compares the round with the one in which one more miner is pending.

* `respond`, `play` — the answers of such a wallet, and a round played against it.
* `Tally` — what a round reserves, sends and confirms for one miner.
* `roundTally_eq` — the tally, from the list of what is reserved.
* `OneMore` — two databases that differ in one pending miner.
* `oneMore_iff` — when the others do not notice.
-/

set_option autoImplicit false

namespace ZcashMiningPool

open Table Buckets Machine

/-! ## Reserving for distinct miners -/

namespace PoolDb

/-- What a reservation takes: the positive amounts `pending` covers. -/
def reservable (db : PoolDb) (e : MinerId × ℤ) : Bool :=
  decide (0 < e.2 ∧ e.2 ≤ db.books e.1 .pending)

/-- For miners listed once each, a reservation takes exactly these. -/
theorem reservePayout_distinct {attemptId : AttemptId} {items : List (MinerId × ℤ)} {db : PoolDb}
    (hattempt : db.payoutAttempts.has attemptId = true) (hnodup : (items.map Prod.fst).Nodup) :
    ∃ db', reservePayout attemptId db items = .ok (items.filter db.reservable, db') := by
  induction items generalizing db with
  | nil => exact ⟨db, rfl⟩
  | cons e items ih =>
    obtain ⟨m, amount⟩ := e
    rw [List.map_cons, List.nodup_cons] at hnodup
    simp only [reservePayout]
    by_cases hpos : amount ≤ 0
    · obtain ⟨db', h⟩ := ih hattempt hnodup.2
      refine ⟨db', ?_⟩
      rw [if_pos hpos, h, List.filter_cons_of_neg]
      simp only [reservable, decide_eq_true_eq, not_and]
      omega
    · rw [if_neg hpos]
      cases htr : db.transfer .pending .paying m amount with
      | none =>
        obtain ⟨db', h⟩ := ih hattempt hnodup.2
        rw [transfer_eq_none_iff (not_le.1 hpos)] at htr
        refine ⟨db', ?_⟩
        simp only [h]
        rw [List.filter_cons_of_neg]
        simp only [reservable, decide_eq_true_eq, not_and]
        omega
      | some db₁ =>
        obtain ⟨hcov, hbooks⟩ := books_transfer (by decide) htr
        obtain ⟨t, -, rfl⟩ := transfer_frame htr
        obtain ⟨db', h⟩ := @ih { { db with balances := t } with
          payoutItems := db.payoutItems.insert ⟨attemptId, m, amount⟩ } hattempt hnodup.2
        refine ⟨db', ?_⟩
        simp only [insertItem, hattempt, if_true, bind, Except.bind, h]
        rw [List.filter_cons_of_pos (by
          simp only [reservable, decide_eq_true_eq]
          omega)]
        congr 3
        -- the others' balances are as before
        apply List.filter_congr
        intro x hx
        have hne : x.1 ≠ m := by
          intro hm
          have hmem : x.1 ∈ items.map Prod.fst := List.mem_map_of_mem hx
          exact hnodup.1 (hm ▸ hmem)
        have hsame : ({ { db with balances := t } with
            payoutItems := db.payoutItems.insert ⟨attemptId, m, amount⟩ } : PoolDb).books x.1
              = db.books x.1 :=
          (congrFun hbooks x.1).trans (move_other hne amount)
        simp only [reservable, hsame]

end PoolDb

/-! ## A round against such a wallet -/

/-- A database call that goes through. -/
def DbCall.ok : DbCall := ⟨false, ""⟩

theorem DbCall.result_ok {α : Type} (x : Except DbError α) : DbCall.ok.result x = x.toOption := rfl

namespace Saga

/-- What meets the payout loop next: the database answers, the wallet takes a request exactly when
    every recipient decodes, and the node sees the transaction. -/
def respond (w : Wallet) (decodes : String → Bool) : LoopPc → Option Label
  | .idle => none
  | .submitting _ => some .sendmany
  | .sending p =>
    some (.sendAnswer
      (if p.addresses.all decodes then .accepted (w.opidOf p.attempt)
      else .jsonRpc "Invalid recipient"))
  | .waiting p _ =>
    some (.loopStatus (.statuses (some (.success ⟨some (.text (w.txidOf p.attempt)), none⟩))))
  | .verifying _ _ _ => some (.loopNode .found)
  | _ => some (.loopDb DbCall.ok)

/-- The next `n` steps of a round; a finished round stays as it is. -/
def play (w : Wallet) (decodes : String → Bool) : ℕ → Saga → Saga
  | 0, s => s
  | n + 1, s =>
    match respond w decodes s.loop with
    | some label => play w decodes n (s.step w false label)
    | none => s

/-- What the loop has had accepted for a miner. -/
def sentTo : LoopPc → MinerId → ℤ
  | .accepted p _, m => demand p.items m
  | _, _ => 0

end Saga

/-- What a round does for one miner: zatoshis reserved, sent and confirmed. -/
structure Tally where
  reserved : ℤ
  sent : ℤ
  confirmed : ℤ
  deriving DecidableEq, Repr

/-- The round of these settings on this database: it is reserved after one step, sent after four,
    and over after ten. -/
def roundTally (w : Wallet) (decodes : String → Bool) (bs58 : String → Option (List UInt8))
    (cfg : PayoutConfig) (privateBalance : ℚ) (db : PoolDb) (m : MinerId) : Tally :=
  let s := Saga.startRound { Saga.start with db := db }
    (cfg.selectPayouts bs58 privateBalance db) DbCall.ok
  { reserved := (s.play w decodes 1).db.books m .paying - db.books m .paying
    sent := Saga.sentTo (s.play w decodes 4).loop m
    confirmed := (s.play w decodes 10).db.books m .paid - db.books m .paid }

/-! ## What a round does -/

namespace Saga

variable {w : Wallet} {decodes : String → Bool} {s : Saga} {p : PayoutRound}

theorem play_succ {label : Label} (h : respond w decodes s.loop = some label) (n : ℕ) :
    s.play w decodes (n + 1) = (s.step w false label).play w decodes n := by
  rw [play, h]

theorem play_idle (h : s.loop = .idle) (n : ℕ) : s.play w decodes n = s := by
  cases n with
  | zero => rfl
  | succ n => simp [play, h, respond]

/-- One step leads from `s` to `s'` and moves no funds. -/
structure Leads (w : Wallet) (decodes : String → Bool) (s s' : Saga) : Prop where
  play_eq : ∀ n, s.play w decodes (n + 1) = s'.play w decodes n
  balances : s'.db.balances = s.db.balances
  items : s'.db.payoutItems = s.db.payoutItems

theorem leads_submitting (h : s.loop = .reserved p) :
    ∃ s', Leads w decodes s s' ∧ s'.loop = .submitting p := by
  refine ⟨s.loopDb DbCall.ok, ⟨play_succ (by rw [h]; rfl), ?_, ?_⟩, ?_⟩ <;>
    simp [loopDb, h, DbCall.ok, update, PoolDb.updatePayoutAttempt]

theorem leads_sending (h : s.loop = .submitting p) :
    ∃ s', Leads w decodes s s' ∧ s'.loop = .sending p := by
  refine ⟨s.sendmany, ⟨play_succ (by rw [h]; rfl), ?_, ?_⟩, ?_⟩ <;> simp [sendmany, h]

theorem leads_accepted (h : s.loop = .sending p) (hdecodes : p.addresses.all decodes = true) :
    ∃ s', Leads w decodes s s' ∧ s'.loop = .accepted p (w.opidOf p.attempt) := by
  have hrespond : respond w decodes s.loop
      = some (.sendAnswer (.accepted (w.opidOf p.attempt))) := by
    rw [h]
    simp only [respond, hdecodes, if_true]
  refine ⟨s.sendAnswer (.accepted (w.opidOf p.attempt)), ⟨play_succ hrespond, ?_, ?_⟩, ?_⟩ <;>
    simp [sendAnswer, h]

theorem leads_refunding (h : s.loop = .sending p) (hdecodes : p.addresses.all decodes = false) :
    ∃ s' note, Leads w decodes s s' ∧ s'.loop = .refunding p note := by
  have hrespond : respond w decodes s.loop
      = some (.sendAnswer (.jsonRpc "Invalid recipient")) := by
    rw [h]
    simp only [respond, hdecodes, Bool.false_eq_true, if_false]
  obtain ⟨note, hnote⟩ : ∃ note,
      (s.sendAnswer (.jsonRpc "Invalid recipient")).loop = .refunding p note := by
    simp only [sendAnswer, h]
    exact ⟨_, rfl⟩
  refine ⟨s.sendAnswer (.jsonRpc "Invalid recipient"), note, ⟨play_succ hrespond, ?_, ?_⟩, hnote⟩ <;>
    simp only [sendAnswer, h]

theorem leads_waiting {opid : String} (h : s.loop = .accepted p opid) :
    ∃ s', Leads w decodes s s' ∧ s'.loop = .waiting p opid := by
  refine ⟨s.loopDb DbCall.ok, ⟨play_succ (by rw [h]; rfl), ?_, ?_⟩, ?_⟩ <;>
    simp [loopDb, h, DbCall.ok, update, PoolDb.updatePayoutAttempt]

theorem leads_verifying {opid : String} (h : s.loop = .waiting p opid) :
    ∃ s' txid, Leads w decodes s s' ∧ s'.loop = .verifying p txid 6 := by
  refine ⟨s.loopStatus w (.statuses (some (.success ⟨some (.text (w.txidOf p.attempt)), none⟩))),
    w.txidOf p.attempt, ⟨play_succ (by rw [h]; rfl), ?_, ?_⟩, ?_⟩ <;>
    simp [loopStatus, h, OperationResult.readTxid, JsonValue.asStr]

theorem leads_costing {txid : String} {tries : ℕ} (h : s.loop = .verifying p txid tries) :
    ∃ s', Leads w decodes s s' ∧ s'.loop = .costing p txid := by
  refine ⟨s.loopNode w .found, ⟨play_succ (by rw [h]; rfl), ?_, ?_⟩, ?_⟩ <;>
    simp [loopNode, h]

theorem leads_confirming {txid : String} (h : s.loop = .costing p txid) :
    ∃ s', Leads w decodes s s' ∧ s'.loop = .confirming p txid := by
  refine ⟨s.loopDb DbCall.ok, ⟨play_succ (by rw [h]; rfl), ?_, ?_⟩, ?_⟩ <;>
    simp [loopDb, h, DbCall.ok, PoolDb.recordTxCost]

theorem Leads.books {s s' : Saga} (h : Leads w decodes s s') : s'.db.books = s.db.books :=
  PoolDb.books_eq_of_balances h.balances

theorem Leads.itemsOf {s s' : Saga} (h : Leads w decodes s s') (a : AttemptId) :
    s'.db.itemsOf a = s.db.itemsOf a := by
  unfold PoolDb.itemsOf
  rw [h.items]

/-- The confirmation pays what was reserved. -/
theorem play_confirming {txid : String} (h : s.loop = .confirming p txid)
    (hitems : s.db.itemsOf p.attempt = p.items) (hpos : ∀ e ∈ p.items, 0 < e.2)
    (hcov : ∀ e ∈ p.items, demand p.items e.1 ≤ s.db.books e.1 .paying) (m : MinerId) :
    (s.play w decodes 2).db.books m .paid = s.db.books m .paid + demand p.items m := by
  obtain ⟨⟨n, db'⟩, hconfirm⟩ := (PoolDb.confirmPayout_ok_iff (hitems ▸ hpos) txid).2
    (by rw [hitems]; exact hcov)
  obtain ⟨-, bal, pays, -, -, hmove⟩ := PoolDb.confirmPayout_spec hconfirm
  have hstep : (s.step w false (.loopDb DbCall.ok)).db = db' ∧
      (s.step w false (.loopDb DbCall.ok)).loop = .finishing p txid := by
    simp [step, loopDb, h, confirm?, DbCall.result_ok, hconfirm, Except.toOption]
  obtain ⟨hdb, hloop⟩ := hstep
  rw [play_succ (by rw [h]; rfl), play_succ (by rw [hloop]; rfl)]
  have hlast : ((s.step w false (.loopDb DbCall.ok)).step w false (.loopDb DbCall.ok)).db.books
      = db'.books := by
    apply PoolDb.books_eq_of_balances
    rw [← hdb]
    simp only [step] at hloop ⊢
    rw [loopDb.eq_def (s.loopDb DbCall.ok), hloop]
    rfl
  show (play w decodes 0 _).db.books m .paid = _
  rw [play, hlast, moveAll?_some hmove, hitems]
  simp [moveDemand]

/-- A refund confirms nothing. -/
theorem play_refunding {note : String} (h : s.loop = .refunding p note) (n : ℕ) (m : MinerId) :
    (s.play w decodes (n + 2)).db.books m .paid = s.db.books m .paid := by
  have hloop : (s.step w false (.loopDb DbCall.ok)).loop = .failing p note := by
    simp only [step, loopDb, h]
  have hbooks : (s.step w false (.loopDb DbCall.ok)).db.books m .paid = s.db.books m .paid := by
    simp only [step, loopDb, h, refund?, DbCall.result_ok]
    cases hx : s.db.refundPayout p.attempt with
    | error e => rfl
    | ok r =>
      obtain ⟨-, bal, -, hmove⟩ := PoolDb.refundPayout_spec hx
      show r.2.books m .paid = _
      rw [moveAll?_some hmove]
      simp [moveDemand]
  rw [play_succ (by rw [h]; rfl), play_succ (by rw [hloop]; rfl), ← hbooks]
  generalize s.step w false (.loopDb DbCall.ok) = s₁ at hloop
  have hidle : (s₁.step w false (.loopDb DbCall.ok)).loop = .idle := by
    simp only [step, loopDb, hloop]
  rw [play_idle hidle]
  simp only [step, loopDb, hloop]
  rfl

theorem play_failing {note : String} (h : s.loop = .failing p note) (n : ℕ) (m : MinerId) :
    (s.play w decodes (n + 1)).loop = .idle ∧
      (s.play w decodes (n + 1)).db.books m .paid = s.db.books m .paid := by
  have hidle : (s.step w false (.loopDb DbCall.ok)).loop = .idle := by
    simp only [step, loopDb, h]
  rw [play_succ (by rw [h]; rfl), play_idle hidle]
  refine ⟨hidle, ?_⟩
  simp only [step, loopDb, h]
  rfl

/-- **A reserved round** is sent and confirmed in full when every recipient decodes, and not at
    all otherwise. -/
theorem play_reserved (h : s.loop = .reserved p) (hitems : s.db.itemsOf p.attempt = p.items)
    (hpos : ∀ e ∈ p.items, 0 < e.2)
    (hcov : ∀ e ∈ p.items, demand p.items e.1 ≤ s.db.books e.1 .paying) (m : MinerId) :
    sentTo (s.play w decodes 3).loop m
        = (if p.addresses.all decodes then demand p.items m else 0) ∧
      (s.play w decodes 9).db.books m .paid = s.db.books m .paid
        + (if p.addresses.all decodes then demand p.items m else 0) := by
  obtain ⟨s₁, h₁, hloop₁⟩ := leads_submitting h
  obtain ⟨s₂, h₂, hloop₂⟩ := leads_sending hloop₁
  rw [h₁.play_eq, h₁.play_eq, h₂.play_eq, h₂.play_eq, ← h₁.books, ← h₂.books]
  rw [← h₁.itemsOf, ← h₂.itemsOf] at hitems
  rw [← h₁.books, ← h₂.books] at hcov
  by_cases hdecodes : p.addresses.all decodes = true
  · obtain ⟨s₃, h₃, hloop₃⟩ := leads_accepted hloop₂ hdecodes
    obtain ⟨s₄, h₄, hloop₄⟩ := leads_waiting hloop₃
    obtain ⟨s₅, txid, h₅, hloop₅⟩ := leads_verifying hloop₄
    obtain ⟨s₆, h₆, hloop₆⟩ := leads_costing hloop₅
    obtain ⟨s₇, h₇, hloop₇⟩ := leads_confirming hloop₆
    simp only [hdecodes, if_true]
    constructor
    · rw [h₃.play_eq, play, hloop₃]
      rfl
    · rw [h₃.play_eq, h₄.play_eq, h₅.play_eq, h₆.play_eq, h₇.play_eq, ← h₃.books, ← h₄.books,
        ← h₅.books, ← h₆.books, ← h₇.books]
      rw [← h₃.itemsOf, ← h₄.itemsOf, ← h₅.itemsOf, ← h₆.itemsOf, ← h₇.itemsOf] at hitems
      rw [← h₃.books, ← h₄.books, ← h₅.books, ← h₆.books, ← h₇.books] at hcov
      exact play_confirming hloop₇ hitems hpos hcov m
  · obtain ⟨s₃, note, h₃, hloop₃⟩ := leads_refunding hloop₂ (by simpa using hdecodes)
    rw [if_neg hdecodes]
    constructor
    · rw [h₃.play_eq, play, hloop₃]
      rfl
    · rw [h₃.play_eq, ← h₃.books, play_refunding hloop₃, add_zero]

end Saga

/-! ## The tally of a round -/

/-- The destinations a reservation takes. -/
def reservedList (db : PoolDb) (payoutList : List Destination) : List Destination :=
  payoutList.filter (fun d => db.reservable (d.minerId, d.amount))

theorem addresses_all (p : PayoutRound) (decodes : String → Bool) :
    p.addresses.all decodes = p.payoutList.all (fun d => decodes d.address) := by
  rw [Bool.eq_iff_iff, List.all_eq_true, List.all_eq_true]
  simp only [PayoutRound.addresses, (List.perm_insertionSort _ _).mem_iff, List.mem_dedup,
    List.mem_map, forall_exists_index, and_imp, forall_apply_eq_imp_iff₂]

/-- Sending to exactly the miners reserved. -/
theorem restrict_reserved {db : PoolDb} {p : PayoutRound}
    (hnodup : (p.payoutList.map (·.minerId)).Nodup) :
    (p.restrict (p.items.filter db.reservable)).payoutList = reservedList db p.payoutList := by
  unfold PayoutRound.restrict reservedList
  apply List.filter_congr
  intro d hd
  rw [Bool.eq_iff_iff, List.any_eq_true]
  constructor
  · rintro ⟨e, he, hm⟩
    obtain ⟨hmem, hres⟩ := List.mem_filter.1 he
    obtain ⟨d', hd', rfl⟩ := List.mem_map.1 hmem
    have heq : d' = d := List.inj_on_of_nodup_map hnodup hd' hd (by simpa using hm)
    exact heq ▸ hres
  · intro hres
    exact ⟨(d.minerId, d.amount), List.mem_filter.2 ⟨List.mem_map_of_mem hd, hres⟩, by simp⟩

theorem items_reservedList (db : PoolDb) (p : PayoutRound) :
    p.items.filter db.reservable
      = (reservedList db p.payoutList).map (fun d => (d.minerId, d.amount)) := by
  unfold PayoutRound.items reservedList
  rw [List.filter_map]
  rfl

/-- What a database is like between rounds. -/
structure RoundReady (db : PoolDb) : Prop where
  ledger : db.SettlementInv
  /-- The next attempt has no items yet. -/
  fresh : db.itemsOf db.payoutAttempts.next = []

section Tally

variable {w : Wallet} {decodes : String → Bool} {db : PoolDb}

/-- What a round with this payout list does for a miner. -/
def listTally (decodes : String → Bool) (db : PoolDb) (payoutList : List Destination)
    (m : MinerId) : Tally :=
  let kept := reservedList db payoutList
  let amount := demand (kept.map (fun d => (d.minerId, d.amount))) m
  let sent := if kept.all (fun d => decodes d.address) then amount else 0
  ⟨amount, sent, sent⟩

theorem startRound_loop {payoutList : List Destination} (hne : payoutList ≠ []) :
    Saga.startRound { Saga.start with db := db } payoutList DbCall.ok
      = { Saga.start with
          db := (db.createPayoutAttempt payoutList.length (payoutList.map (·.amount)).sum "loop").2
          loop := .created ⟨db.payoutAttempts.next, payoutList⟩ } := by
  simp only [Saga.startRound, Saga.start, hne, DbCall.ok, Bool.false_eq_true, or_self, if_false]
  rfl

/-- What the reservation of a fresh attempt leaves behind. -/
theorem reserve_created (hready : RoundReady db) {payoutList : List Destination}
    (hnodup : (payoutList.map (·.minerId)).Nodup) (total : ℤ) :
    let db₁ := (db.createPayoutAttempt payoutList.length total "loop").2
    let pairs := (reservedList db payoutList).map (fun d => (d.minerId, d.amount))
    ∃ db₂, PoolDb.reservePayout db.payoutAttempts.next db₁
        (payoutList.map (fun d => (d.minerId, d.amount))) = .ok (pairs, db₂) ∧
      db₂.itemsOf db.payoutAttempts.next = pairs ∧
      db₂.books = moveDemand db.books .pending .paying pairs ∧ ∀ e ∈ pairs, 0 < e.2 := by
  intro db₁ pairs
  have hbooks : db₁.books = db.books := PoolDb.books_eq_of_balances rfl
  have hattempt : db₁.payoutAttempts.has db.payoutAttempts.next = true := by
    simp [db₁, PoolDb.createPayoutAttempt, Auto.has, Auto.get?_insert]
  have hminers : ((payoutList.map (fun d => (d.minerId, d.amount))).map Prod.fst).Nodup := by
    simpa [Function.comp_def] using hnodup
  have hreservable : db₁.reservable = db.reservable := by
    funext e
    simp only [PoolDb.reservable, hbooks]
  obtain ⟨db₂, hreserve⟩ := PoolDb.reservePayout_distinct hattempt hminers
  have hpairs : (payoutList.map (fun d => (d.minerId, d.amount))).filter db₁.reservable = pairs := by
    rw [hreservable]
    exact items_reservedList db ⟨0, payoutList⟩
  rw [hpairs] at hreserve
  obtain ⟨bal, its, hdb, hits, hmove, -, hpos⟩ := PoolDb.reservePayout_spec hreserve
  refine ⟨db₂, hreserve, ?_, by rw [moveAll?_some hmove, hbooks], hpos⟩
  have hold : (db.payoutItems.values.filter (fun r => r.attemptId == db.payoutAttempts.next)) = [] := by
    have hfresh := hready.fresh
    simp only [PoolDb.itemsOf, List.map_eq_nil_iff] at hfresh
    simp only [Auto.values, List.filter_map, List.map_eq_nil_iff]
    exact hfresh
  have hvalues : db₂.itemsOf db.payoutAttempts.next
      = (its.values.filter (fun r => r.attemptId == db.payoutAttempts.next)).map
          (fun r => (r.minerId, r.amount)) := by
    rw [hdb]
    simp [PoolDb.itemsOf, Auto.values, List.filter_map, Function.comp_def]
  have hitems₁ : db₁.payoutItems = db.payoutItems := rfl
  rw [hvalues, hits, List.filter_append, hitems₁, hold, List.nil_append, List.filter_eq_self.2]
  · simp [Function.comp_def]
  · intro r hr
    obtain ⟨e, -, rfl⟩ := List.mem_map.1 hr
    simp

/-- **The tally of a round.** -/
theorem play_round (hready : RoundReady db) {payoutList : List Destination}
    (hnodup : (payoutList.map (·.minerId)).Nodup) (m : MinerId) :
    let s := Saga.startRound { Saga.start with db := db } payoutList DbCall.ok
    (s.play w decodes 1).db.books m .paying - db.books m .paying
        = (listTally decodes db payoutList m).reserved ∧
      Saga.sentTo (s.play w decodes 4).loop m = (listTally decodes db payoutList m).sent ∧
      (s.play w decodes 10).db.books m .paid - db.books m .paid
        = (listTally decodes db payoutList m).confirmed := by
  intro s
  by_cases hne : payoutList = []
  · have hidle : s.loop = .idle := by
      simp [s, Saga.startRound, Saga.start, hne]
    have hdb : s.db = db := by
      simp [s, Saga.startRound, Saga.start, hne]
    simp only [Saga.play_idle hidle, hdb, hidle, listTally, reservedList, hne, List.filter_nil,
      List.map_nil, demand_nil, sub_self, Saga.sentTo, ite_self, and_self]
  have hs := @startRound_loop db _ hne
  obtain ⟨db₂, hreserve, hitems, hbooks, hpos⟩ := reserve_created hready hnodup
    (payoutList.map (·.amount)).sum
  have hpaying : db₂.books m .paying - db.books m .paying
      = (listTally decodes db payoutList m).reserved := by
    rw [hbooks]
    simp [moveDemand, listTally]
  have hpaid : db₂.books m .paid = db.books m .paid := by
    rw [hbooks]
    simp [moveDemand]
  have hloop : s.loop = .created ⟨db.payoutAttempts.next, payoutList⟩ := by rw [show s = _ from hs]
  have hdb : s.db
      = (db.createPayoutAttempt payoutList.length (payoutList.map (·.amount)).sum "loop").2 := by
    rw [show s = _ from hs]
  set s₁ := s.step w false (.loopDb DbCall.ok) with hs₁
  have hplay : ∀ n, s.play w decodes (n + 1) = s₁.play w decodes n :=
    Saga.play_succ (by rw [hloop]; rfl)
  rw [hplay, hplay, hplay]
  have hresult : DbCall.ok.result (PoolDb.reservePayout db.payoutAttempts.next s.db
      (PayoutRound.items ⟨db.payoutAttempts.next, payoutList⟩))
        = some ((reservedList db payoutList).map (fun d => (d.minerId, d.amount)), db₂) := by
    rw [DbCall.result_ok, hdb]
    exact congrArg Except.toOption hreserve
  by_cases hkept : reservedList db payoutList = []
  · have hstep : s₁.db = db₂ ∧ ∃ note,
        s₁.loop = .failing ⟨db.payoutAttempts.next, payoutList⟩ note := by
      rw [hkept] at hresult
      simp only [hs₁, Saga.step, Saga.loopDb, hloop, hresult, List.map_nil]
      exact ⟨trivial, _, rfl⟩
    obtain ⟨hdb₁, note, hfailing⟩ := hstep
    obtain ⟨hidle, -⟩ := Saga.play_failing hfailing 2 m
    obtain ⟨-, hpaid₁⟩ := Saga.play_failing hfailing 8 m
    refine ⟨by rw [Saga.play, hdb₁]; exact hpaying, ?_, ?_⟩
    · rw [hidle]
      simp [Saga.sentTo, listTally, hkept]
    · rw [hpaid₁, hdb₁, hpaid]
      simp [listTally, hkept]
  · have hstep : s₁.db = db₂ ∧ s₁.loop = .reserved ⟨db.payoutAttempts.next,
        reservedList db payoutList⟩ := by
      have hrestrict := @restrict_reserved db ⟨db.payoutAttempts.next, payoutList⟩ hnodup
      rw [items_reservedList] at hrestrict
      obtain ⟨d, kept, hcons⟩ := List.exists_cons_of_ne_nil hkept
      rw [hcons, List.map_cons] at hresult hrestrict
      simp only [hs₁, Saga.step, Saga.loopDb, hloop, hresult]
      refine ⟨trivial, ?_⟩
      rw [hcons, ← hrestrict]
      rfl
    obtain ⟨hdb₁, hreserved⟩ := hstep
    have hcov : ∀ e ∈ (reservedList db payoutList).map (fun d => (d.minerId, d.amount)),
        demand ((reservedList db payoutList).map (fun d => (d.minerId, d.amount))) e.1
          ≤ db₂.books e.1 .paying := by
      intro e _
      have hnonneg : 0 ≤ db.books e.1 .paying := by
        rw [hready.ledger.paying_eq]
        exact hready.ledger.reserved_nonneg e.1
      rw [hbooks]
      simp only [moveDemand, reduceCtorEq, if_true, if_false, sub_zero]
      omega
    obtain ⟨hsent, hconfirmed⟩ := Saga.play_reserved hreserved
      (by rw [hdb₁]; exact hitems) hpos (by rw [hdb₁]; exact hcov) m
    rw [addresses_all] at hsent hconfirmed
    refine ⟨by rw [Saga.play, hdb₁]; exact hpaying, hsent, ?_⟩
    rw [hconfirmed, hdb₁, hpaid, add_sub_cancel_left]
    rfl

theorem select_nodup (cfg : PayoutConfig) (bs58 : String → Option (List UInt8))
    (privateBalance : ℚ) (db : PoolDb) :
    ((cfg.selectPayouts bs58 privateBalance db).map (·.minerId)).Nodup := by
  unfold PayoutConfig.selectPayouts PayoutConfig.payoutList
  split
  · exact List.nodup_nil
  · have hlisted := cfg.pending_nodup db
    rw [List.Nodup, List.pairwise_map] at hlisted ⊢
    refine hlisted.filterMap _ fun a b hab x hx y hy => ?_
    have hid : ∀ {p : PoolDb.PendingPayout} {d : Destination} {scale : ℚ},
        cfg.destination? bs58 db.now scale p = some d → d.minerId = p.minerId := by
      intro p d scale hd
      obtain ⟨address, -, hd⟩ := Option.bind_eq_some_iff.1 hd
      simp only [Option.ite_none_right_eq_some] at hd
      exact congrArg Destination.minerId (Option.some.inj hd.2).symm
    rw [hid hx, hid hy]
    exact hab

/-- **The tally of a round**, from its payout list. -/
theorem roundTally_eq (hready : RoundReady db) (bs58 : String → Option (List UInt8))
    (cfg : PayoutConfig) (privateBalance : ℚ) (m : MinerId) :
    roundTally w decodes bs58 cfg privateBalance db m
      = listTally decodes db (cfg.selectPayouts bs58 privateBalance db) m := by
  obtain ⟨hreserved, hsent, hconfirmed⟩ := @play_round w decodes db hready _
    (select_nodup cfg bs58 privateBalance db) m
  simp only [roundTally, hreserved, hsent, hconfirmed]

end Tally

/-! ## One more pending miner -/

/-- Two databases that differ in what belongs to one miner, which is pending in the second one
    only; both rounds take the maturity gate alike. -/
structure OneMore (cfg : PayoutConfig) (db db' : PoolDb) (x : PoolDb.PendingPayout) : Prop where
  now : db'.now = db.now
  miners : ∀ m, m ≠ x.minerId → db'.miners.get? m = db.miners.get? m
  balances : ∀ m, m ≠ x.minerId → db'.balances.get? m = db.balances.get? m
  immature : ∀ m, m ≠ x.minerId → db'.immature m = db.immature m
  cooled : ∀ m, m ≠ x.minerId → ∀ payable cooldownSecs overrideAmount,
    db'.cooledDown m payable cooldownSecs overrideAmount
      = db.cooledDown m payable cooldownSecs overrideAmount
  gate : cfg.includeImmature db' = cfg.includeImmature db
  pending : x ∈ cfg.pending db'
  notPending : ∀ p ∈ cfg.pending db, p.minerId ≠ x.minerId

section OneMore

variable {cfg : PayoutConfig} {db db' : PoolDb} {x : PoolDb.PendingPayout}

theorem OneMore.pending_perm (h : OneMore cfg db db' x) :
    (cfg.pending db').Perm (x :: cfg.pending db) := by
  rw [List.perm_ext_iff_of_nodup (cfg.pending_nodup db').of_map]
  · intro p
    rw [List.mem_cons]
    by_cases hp : p.minerId = x.minerId
    · constructor
      · intro hmem
        exact .inl (List.inj_on_of_nodup_map (cfg.pending_nodup db') hmem h.pending hp)
      · rintro (rfl | hmem)
        · exact h.pending
        · exact absurd hp (h.notPending p hmem)
    · have hsame : p ∈ cfg.pending db' ↔ p ∈ cfg.pending db := by
        simp only [PayoutConfig.pending, PoolDb.mem_getPendingPayouts, PoolDb.payable, h.gate,
          h.balances _ hp, h.miners _ hp, h.immature _ hp, h.cooled _ hp]
      rw [hsame]
      constructor
      · exact .inr
      · rintro (rfl | hmem)
        · exact absurd rfl hp
        · exact hmem
  · refine List.nodup_cons.2 ⟨fun hmem => h.notPending x hmem rfl, (cfg.pending_nodup db).of_map⟩

theorem OneMore.books (h : OneMore cfg db db' x) {m : MinerId} (hm : m ≠ x.minerId) :
    db'.books m = db.books m := by
  funext k
  simp only [PoolDb.books, h.balances m hm]

/-- The wallet's balance covers all that is pending. -/
def Ample (cfg : PayoutConfig) (privateBalance : ℚ) (db : PoolDb) : Prop :=
  PayoutConfig.totalZec (cfg.pending db) ≤ cfg.availableZec privateBalance

variable {bs58 : String → Option (List UInt8)} {privateBalance : ℚ}

/-- With an ample balance everybody is listed in full, or the round does not start. -/
theorem selectPayouts_ample (hample : Ample cfg privateBalance db) :
    cfg.selectPayouts bs58 privateBalance db
      = if cfg.availableZec privateBalance < cfg.minPayoutZatoshis / zatoshisPerZec then []
        else (cfg.pending db).filterMap (fun p =>
          (cfg.payTo bs58 db.now p).map (fun address => ⟨p.minerId, p.amount, address⟩)) := by
  unfold Ample at hample
  unfold PayoutConfig.selectPayouts PayoutConfig.payoutList PayoutConfig.scale
  simp only [if_pos hample]
  split
  · rfl
  · apply List.filterMap_congr
    intro p hp
    exact PayoutConfig.destination?_of_ample (PayoutConfig.min_le_amount hp)

section Extra

variable {l l' extra : List Destination} {m : MinerId}
  (hperm : (reservedList db' l').Perm (extra ++ reservedList db l))
  (hminer : ∀ d ∈ extra, d.minerId ≠ m)

include hperm hminer

/-- What is reserved for others does not count. -/
theorem demand_extra : demand ((reservedList db' l').map (fun d => (d.minerId, d.amount))) m
    = demand ((reservedList db l).map (fun d => (d.minerId, d.amount))) m := by
  have hextra : demand (extra.map (fun d => (d.minerId, d.amount))) m = 0 := by
    apply demand_eq_zero
    intro e he
    obtain ⟨d, hd, rfl⟩ := List.mem_map.1 he
    exact hminer d hd
  have hsum : demand ((reservedList db' l').map (fun d => (d.minerId, d.amount))) m
      = demand ((extra ++ reservedList db l).map (fun d => (d.minerId, d.amount))) m :=
    ((hperm.map _).map _).sum_eq
  rw [hsum, List.map_append, demand_append, hextra, zero_add]

/-- Recipients that decode change nothing for others. -/
theorem listTally_extra {decodes : String → Bool} (hdecodes : ∀ d ∈ extra, decodes d.address = true) :
    listTally decodes db' l' m = listTally decodes db l m := by
  have hdemand := demand_extra hperm hminer
  have hall : (reservedList db' l').all (fun d => decodes d.address)
      = (reservedList db l).all (fun d => decodes d.address) := by
    rw [hperm.all_eq, List.all_append, List.all_eq_true.2 hdecodes, Bool.true_and]
  simp only [listTally, hdemand, hall]

end Extra

/-- What the new miner adds to what is reserved. -/
theorem OneMore.reserved_perm (h : OneMore cfg db db' x) (hready' : RoundReady db') :
    ∃ extra : List Destination,
      (reservedList db' ((cfg.pending db').filterMap (fun p =>
        (cfg.payTo bs58 db'.now p).map (fun address => ⟨p.minerId, p.amount, address⟩)))).Perm
        (extra ++ reservedList db ((cfg.pending db).filterMap (fun p =>
          (cfg.payTo bs58 db.now p).map (fun address => ⟨p.minerId, p.amount, address⟩)))) ∧
      (∀ d ∈ extra, d.minerId = x.minerId ∧ 0 < x.amount ∧
        cfg.payTo bs58 db'.now x = some d.address) ∧
      (0 < x.amount → ∀ address, cfg.payTo bs58 db'.now x = some address →
        (⟨x.minerId, x.amount, address⟩ : Destination) ∈ extra) := by
  rw [← h.now]
  let entry : PoolDb.PendingPayout → Option Destination := fun p =>
    (cfg.payTo bs58 db'.now p).map (fun address => ⟨p.minerId, p.amount, address⟩)
  refine ⟨reservedList db' (entry x).toList, ?_, ?_, ?_⟩
  · have hperm := h.pending_perm.filterMap entry
    have hcons : (x :: cfg.pending db).filterMap entry
        = (entry x).toList ++ (cfg.pending db).filterMap entry := by
      rw [List.filterMap_cons]
      cases entry x <;> rfl
    have hothers : reservedList db' ((cfg.pending db).filterMap entry)
        = reservedList db ((cfg.pending db).filterMap entry) := by
      apply List.filter_congr
      intro d hd
      obtain ⟨p, hp, hpd⟩ := List.mem_filterMap.1 hd
      obtain ⟨address, -, rfl⟩ := Option.map_eq_some_iff.1 hpd
      simp only [PoolDb.reservable, h.books (h.notPending p hp)]
    rw [← hothers]
    unfold reservedList
    rw [← List.filter_append, ← hcons]
    exact hperm.filter _
  · intro d hd
    obtain ⟨hmem, hres⟩ := List.mem_filter.1 hd
    obtain ⟨address, haddress, rfl⟩ := Option.map_eq_some_iff.1 (Option.mem_toList.1 hmem)
    have hpos := (of_decide_eq_true hres).1
    exact ⟨rfl, hpos, haddress⟩
  · intro hpos address haddress
    apply List.mem_filter.2
    refine ⟨Option.mem_toList.2 (Option.map_eq_some_iff.2 ⟨address, haddress, rfl⟩), ?_⟩
    have hcov := PayoutConfig.amount_le_pending hready'.ledger.rows.credits_nonneg h.pending
    exact decide_eq_true ⟨hpos, hcov⟩

/-- Everybody pending is paid in full. -/
def PaysInFull (w : Wallet) (decodes : String → Bool) (bs58 : String → Option (List UInt8))
    (cfg : PayoutConfig) (privateBalance : ℚ) (db : PoolDb) : Prop :=
  ∀ p ∈ cfg.pending db,
    (roundTally w decodes bs58 cfg privateBalance db p.minerId).confirmed = p.amount

/-- **When the others do not notice.**  A round that pays everybody in full does the same for them
    with one more pending miner exactly when the wallet decodes the address that miner is paid to,
    nothing is sent to it, or there is nobody else to pay. -/
theorem oneMore_iff {w : Wallet} {decodes : String → Bool} (h : OneMore cfg db db' x)
    (hready : RoundReady db) (hready' : RoundReady db') (hample : Ample cfg privateBalance db)
    (hample' : Ample cfg privateBalance db')
    (hfull : PaysInFull w decodes bs58 cfg privateBalance db) :
    (∀ m, m ≠ x.minerId →
        roundTally w decodes bs58 cfg privateBalance db' m
          = roundTally w decodes bs58 cfg privateBalance db m) ↔
      (∀ p ∈ cfg.pending db, p.amount ≤ 0) ∨ x.amount ≤ 0 ∨
        ∀ address, cfg.payTo bs58 db'.now x = some address → decodes address = true := by
  unfold PaysInFull at hfull
  simp only [roundTally_eq hready, roundTally_eq hready', selectPayouts_ample hample,
    selectPayouts_ample hample'] at hfull ⊢
  by_cases hgate : cfg.availableZec privateBalance < cfg.minPayoutZatoshis / zatoshisPerZec
  · -- neither round starts, so nothing is due
    simp only [if_pos hgate] at hfull ⊢
    refine ⟨fun _ => .inl fun p hp => ?_, fun _ m _ => rfl⟩
    have := hfull p hp
    simp only [listTally, reservedList, List.filter_nil, List.map_nil, demand_nil, ite_self] at this
    omega
  simp only [if_neg hgate] at hfull ⊢
  obtain ⟨extra, hperm, hextra, hmem⟩ := @OneMore.reserved_perm cfg db db' x bs58 h hready'
  constructor
  · intro hsame
    by_contra hcon
    simp only [not_or, not_forall, not_le] at hcon
    obtain ⟨⟨p, hp, hpos⟩, hx, address, haddress, hbad⟩ := hcon
    have hpaid := hfull p hp
    rw [← hsame p.minerId (h.notPending p hp)] at hpaid
    have hall : (reservedList db' ((cfg.pending db').filterMap (fun p =>
        (cfg.payTo bs58 db'.now p).map (fun address => ⟨p.minerId, p.amount, address⟩)))).all
          (fun d => decodes d.address) = false := by
      rw [List.all_eq_false]
      exact ⟨_, hperm.mem_iff.2 (List.mem_append_left _ (hmem hx address haddress)), hbad⟩
    simp only [listTally, hall, Bool.false_eq_true, if_false] at hpaid
    omega
  · intro hcond m hm
    have hminer : ∀ d ∈ extra, d.minerId ≠ m := by
      intro d hd
      rw [(hextra d hd).1]
      exact Ne.symm hm
    by_cases hnobody : ∀ p ∈ cfg.pending db, p.amount ≤ 0
    · have hnil : reservedList db ((cfg.pending db).filterMap (fun p =>
          (cfg.payTo bs58 db.now p).map (fun address => ⟨p.minerId, p.amount, address⟩))) = [] := by
        rw [reservedList, List.filter_eq_nil_iff]
        intro d hd hres
        obtain ⟨p, hp, hpd⟩ := List.mem_filterMap.1 hd
        obtain ⟨address, -, rfl⟩ := Option.map_eq_some_iff.1 hpd
        have := hnobody p hp
        have hpos : 0 < p.amount := (of_decide_eq_true hres).1
        omega
      simp only [listTally, demand_extra hperm hminer, hnil, List.map_nil, demand_nil, ite_self]
    · apply listTally_extra hperm hminer
      · intro d hd
        obtain ⟨-, hpos, haddress⟩ := hextra d hd
        rcases hcond with hc | hc | hc
        · exact absurd hc hnobody
        · omega
        · exact hc _ haddress

end OneMore

/-! ## A new miner -/

/-- Registering a miner with a new address and crediting it adds one pending miner. -/
theorem oneMore_of_credit {cfg : PayoutConfig} {db db' : PoolDb} {x : PoolDb.PendingPayout}
    {address : String} {amount : ℤ}
    (hnew : db.miners.find? (fun r => r.address == address) = none)
    (hcredit : (db.getOrCreateMiner address).2.creditBalance db.miners.next amount = .ok db')
    (hid : x.minerId = db.miners.next) (hx : x ∈ cfg.pending db') : OneMore cfg db db' x := by
  have hfresh : db.miners.get? db.miners.next = none := Auto.get?_next db.miners
  simp only [PoolDb.getOrCreateMiner, hnew, PoolDb.creditBalance, bind, Except.bind] at hcredit
  split at hcredit
  · cases hcredit
  rename_i db₁ hinsert
  cases hcredit
  obtain rfl := PoolDb.insertBalance_ok hinsert
  refine ⟨rfl, fun m hm => ?_, fun m hm => ?_, fun _ _ => rfl, fun _ _ _ _ _ => rfl, rfl, hx,
    fun p hp hpx => ?_⟩
  · rw [hid] at hm
    show (db.miners.insert _).get? m = _
    rw [Auto.get?_insert, if_neg hm]
  · rw [hid] at hm
    show ((db.balances.insertIgnore _ _).modify _ _).get? m = _
    rw [Keyed.get?_modify, if_neg hm, Keyed.get?_insertIgnore, if_neg hm]
  · obtain ⟨b, miner, -, hminer, -⟩ := PoolDb.mem_getPendingPayouts.1 hp
    rw [hpx, hid, hfresh] at hminer
    cases hminer

/-- A Sapling address by prefix, length and alphabet, with a wrong checksum. -/
def mistypedAddress : String :=
  "zs1qqqqqqqqqqqqqqqqqqqqqqqqqqqqqqqqqqqqqqqqqqqqqqqqqqqqqqqqqqqqqqqqqqqqqqqqqqq"

def knownAddress : String := "t1QBPCZBGNYvWBL5jrTfRwRLs86zi6MzMz3"

/-- Base58check on the addresses of this example. -/
def knownBs58 (addr : String) : Option (List UInt8) :=
  if addr = knownAddress then some (List.replicate 22 0) else none

/-- A wallet that checks what ends an address. -/
def checksumDecodes (addr : String) : Bool :=
  if startsWith addr "t" then (knownBs58 addr).isSome else bech32Holds addr

def payoutSettings : PayoutConfig where
  miningAddress := knownAddress
  minPayoutZatoshis := 1000000
  reserveMinZatoshis := 0
  balanceMargin := 1
  network := "mainnet"
  payImmature := false
  coalesceCooldownSecs := 0
  coalesceOverrideZatoshis := 0

def oneMiner : PoolDb :=
  run PoolDb.step PoolDb.empty [.getOrCreateMiner knownAddress, .creditBalance 1 5000000]

/-- A second miner joins under the mistyped address and earns a payout. -/
def twoMiners : PoolDb :=
  run PoolDb.step oneMiner [.getOrCreateMiner mistypedAddress, .creditBalance 2 3000000]

def namingWallet : Wallet := ⟨fun _ => "op", fun _ => "tx"⟩

theorem settlementInv_run {db : PoolDb} (h : db.SettlementInv) {ops : List Op}
    (hops : ∀ op ∈ ops, op.SettlementOk) : (run PoolDb.step db ops).SettlementInv := by
  induction ops generalizing db with
  | nil => exact h
  | cons op ops ih =>
    exact ih (PoolDb.settlementInv_step h (hops op List.mem_cons_self))
      fun o ho => hops o (List.mem_cons_of_mem _ ho)

theorem roundReady_oneMiner : RoundReady oneMiner :=
  ⟨settlementInv_run PoolDb.settlementInv_empty (by simp [Op.SettlementOk, Op.Lawful]),
    by decide +kernel⟩

theorem roundReady_twoMiners : RoundReady twoMiners :=
  ⟨settlementInv_run roundReady_oneMiner.ledger (by simp [Op.SettlementOk, Op.Lawful]),
    by decide +kernel⟩

def mistypedPayout : PoolDb.PendingPayout := ⟨2, mistypedAddress, 3000000, 0⟩

theorem oneMore_twoMiners : OneMore payoutSettings oneMiner twoMiners mistypedPayout := by
  have hminer : oneMiner.miners.next = 2 := by decide +kernel
  have hcredit : ∃ db', (oneMiner.getOrCreateMiner mistypedAddress).2.creditBalance
      oneMiner.miners.next 3000000 = .ok db' ∧ twoMiners = db' := by
    rw [hminer]
    cases h : (oneMiner.getOrCreateMiner mistypedAddress).2.creditBalance 2 3000000 with
    | ok db' =>
      refine ⟨db', rfl, ?_⟩
      show ((oneMiner.getOrCreateMiner mistypedAddress).2.step (.creditBalance 2 3000000)) = db'
      exact PoolDb.step_ok h
    | error e =>
      have hok : ((oneMiner.getOrCreateMiner mistypedAddress).2.creditBalance 2 3000000).isOk
          = true := by decide +kernel
      rw [h] at hok
      cases hok
  obtain ⟨db', hdb', heq⟩ := hcredit
  rw [heq]
  apply oneMore_of_credit _ hdb' hminer.symm
  · rw [← heq]
    decide +kernel
  · decide +kernel

theorem ample_oneMiner : Ample payoutSettings 1 oneMiner := by
  unfold Ample
  decide +kernel

theorem ample_twoMiners : Ample payoutSettings 1 twoMiners := by
  unfold Ample
  decide +kernel

theorem paysInFull_oneMiner :
    PaysInFull namingWallet checksumDecodes knownBs58 payoutSettings 1 oneMiner := by
  unfold PaysInFull
  decide +kernel

/-- The miner that was paid 5000000 is paid nothing once another one has registered an address
    that the dashboard accepts and the wallet does not. -/
theorem mistyped_address_stops_payouts :
    StratumServer.workerNameOk mistypedAddress = true ∧
      isValidZcashAddress knownBs58 mistypedAddress "mainnet" = true ∧
      checksumDecodes mistypedAddress = false ∧
      OneMore payoutSettings oneMiner twoMiners mistypedPayout ∧
      PaysInFull namingWallet checksumDecodes knownBs58 payoutSettings 1 oneMiner ∧
      Ample payoutSettings 1 twoMiners ∧
      roundTally namingWallet checksumDecodes knownBs58 payoutSettings 1 oneMiner 1
        = ⟨5000000, 5000000, 5000000⟩ ∧
      roundTally namingWallet checksumDecodes knownBs58 payoutSettings 1 twoMiners 1
        = ⟨5000000, 0, 0⟩ :=
  ⟨by decide +kernel, by decide +kernel, by decide +kernel, oneMore_twoMiners,
    paysInFull_oneMiner, ample_twoMiners, by decide +kernel, by decide +kernel⟩

theorem oneMore_iff_twoMiners :
    (∀ m, m ≠ 2 →
        roundTally namingWallet checksumDecodes knownBs58 payoutSettings 1 twoMiners m
          = roundTally namingWallet checksumDecodes knownBs58 payoutSettings 1 oneMiner m) ↔
      (∀ p ∈ payoutSettings.pending oneMiner, p.amount ≤ 0) ∨ (3000000 : ℤ) ≤ 0 ∨
        ∀ address, payoutSettings.payTo knownBs58 twoMiners.now mistypedPayout = some address →
          checksumDecodes address = true :=
  oneMore_iff oneMore_twoMiners roundReady_oneMiner roundReady_twoMiners ample_oneMiner
    ample_twoMiners paysInFull_oneMiner

end ZcashMiningPool
