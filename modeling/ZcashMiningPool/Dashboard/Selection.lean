import Mathlib.Data.Rat.Floor
import ZcashMiningPool.Dashboard.Addresses
import ZcashMiningPool.Dashboard.Payouts

/-!
# Whom a round pays

`process_payouts` up to `create_payout_attempt`: the exposure check, the listing, the balance gate,
the scale, and the destination of every pending payout.

* `PayoutConfig` — the settings of the payout loop.
* `pending` — the listing, with or without the maturity gate.
* `payTo` — the miner's address, the pool's own for an unpayable old one, or nobody.
* `payoutList` — whom to pay from a listing; `selectPayouts` — the payout list of a round.
* `mem_pending`, `pending_nodup` — who is listed, and that nobody is listed twice.

Balances and scale are exact rationals.
-/

set_option autoImplicit false

namespace ZcashMiningPool

open Table

/-- The settings of the payout loop. -/
structure PayoutConfig where
  miningAddress : String
  minPayoutZatoshis : ℤ
  reserveMinZatoshis : ℤ
  balanceMargin : ℚ
  network : String
  payImmature : Bool
  coalesceCooldownSecs : ℤ
  coalesceOverrideZatoshis : ℤ

/-- `ZATOSHIS_PER_ZEC`. -/
def zatoshisPerZec : ℚ := 100000000

namespace PayoutConfig

/-- Immediate payouts only while the immature exposure fits the reserve. -/
def includeImmature (cfg : PayoutConfig) (db : PoolDb) : Bool :=
  cfg.payImmature && decide (db.getImmatureExposure ≤ cfg.reserveMinZatoshis)

def pending (cfg : PayoutConfig) (db : PoolDb) : List PoolDb.PendingPayout :=
  db.getPendingPayouts cfg.minPayoutZatoshis (cfg.includeImmature db) cfg.coalesceCooldownSecs
    cfg.coalesceOverrideZatoshis

/-- What a round may spend: the balance above the reserve, less the margin. -/
def availableZec (cfg : PayoutConfig) (privateBalance : ℚ) : ℚ :=
  max (max (privateBalance - cfg.reserveMinZatoshis / zatoshisPerZec) 0 * cfg.balanceMargin) 0

def totalZec (pending : List PoolDb.PendingPayout) : ℚ :=
  ((pending.map (·.amount)).sum : ℤ) / zatoshisPerZec

def scale (cfg : PayoutConfig) (privateBalance : ℚ) (pending : List PoolDb.PendingPayout) : ℚ :=
  if totalZec pending ≤ cfg.availableZec privateBalance then 1
  else cfg.availableZec privateBalance / totalZec pending

/-- `is_older_than_two_days`. -/
def olderThanTwoDays (now createdAt : ℕ) : Bool := createdAt + 2 * 24 * 60 * 60 ≤ now

/-- Where a payout goes; an unpayable miner younger than two days is skipped. -/
def payTo (cfg : PayoutConfig) (bs58 : String → Option (List UInt8)) (now : ℕ)
    (p : PoolDb.PendingPayout) : Option String :=
  if isValidZcashAddress bs58 p.address cfg.network then some p.address
  else if olderThanTwoDays now p.createdAt then some cfg.miningAddress
  else none

/-- One entry of the payout list. -/
def destination? (cfg : PayoutConfig) (bs58 : String → Option (List UInt8)) (now : ℕ) (scale : ℚ)
    (p : PoolDb.PendingPayout) : Option Destination :=
  (cfg.payTo bs58 now p).bind (fun address =>
    let scaledZatoshis := ⌊(p.amount : ℚ) * scale⌋
    if cfg.minPayoutZatoshis ≤ scaledZatoshis then some ⟨p.minerId, scaledZatoshis, address⟩
    else none)

/-- `process_payouts` after the listing: whom to pay, and how much; nobody when the balance is too
    low for any payout. -/
def payoutList (cfg : PayoutConfig) (bs58 : String → Option (List UInt8)) (now : ℕ)
    (privateBalance : ℚ) (pending : List PoolDb.PendingPayout) : List Destination :=
  if cfg.availableZec privateBalance < cfg.minPayoutZatoshis / zatoshisPerZec then []
  else pending.filterMap (cfg.destination? bs58 now (cfg.scale privateBalance pending))

/-- The payout list of a round. -/
def selectPayouts (cfg : PayoutConfig) (bs58 : String → Option (List UInt8)) (privateBalance : ℚ)
    (db : PoolDb) : List Destination :=
  cfg.payoutList bs58 db.now privateBalance (cfg.pending db)

theorem availableZec_nonneg (cfg : PayoutConfig) (privateBalance : ℚ) :
    0 ≤ cfg.availableZec privateBalance := le_max_right _ _

theorem scale_nonneg (cfg : PayoutConfig) (privateBalance : ℚ)
    (pending : List PoolDb.PendingPayout) : 0 ≤ cfg.scale privateBalance pending := by
  have havailable := availableZec_nonneg cfg privateBalance
  unfold scale
  split
  · exact zero_le_one
  · rename_i hshort
    exact div_nonneg havailable (havailable.trans (not_le.1 hshort).le)

theorem scale_le_one (cfg : PayoutConfig) (privateBalance : ℚ)
    (pending : List PoolDb.PendingPayout) : cfg.scale privateBalance pending ≤ 1 := by
  have havailable := availableZec_nonneg cfg privateBalance
  unfold scale
  split
  · exact le_rfl
  · rename_i hshort
    have hlt := not_le.1 hshort
    exact (div_le_one (lt_of_le_of_lt havailable hlt)).2 hlt.le

end PayoutConfig

/-! ## The listing -/

namespace PoolDb

variable {db : PoolDb} {minAmount : ℤ} {includeImmature : Bool} {cooldownSecs overrideAmount : ℤ}

/-- What a balance can pay out. -/
def payable (db : PoolDb) (includeImmature : Bool) (m : MinerId) (b : Balance) : ℤ :=
  if includeImmature then b.pending else b.pending - db.immature m

/-- Who is listed, and as what. -/
theorem mem_getPendingPayouts {p : PendingPayout} :
    p ∈ db.getPendingPayouts minAmount includeImmature cooldownSecs overrideAmount ↔
      ∃ b miner, db.balances.get? p.minerId = some b ∧ db.miners.get? p.minerId = some miner ∧
        minAmount ≤ db.payable includeImmature p.minerId b ∧
        db.cooledDown p.minerId (db.payable includeImmature p.minerId b) cooldownSecs
          overrideAmount = true ∧
        p = ⟨p.minerId, miner.address, db.payable includeImmature p.minerId b,
          miner.createdAt⟩ := by
  unfold getPendingPayouts
  rw [(List.perm_insertionSort _ _).mem_iff, List.mem_filterMap]
  constructor
  · rintro ⟨e, he, hp⟩
    obtain ⟨miner, hminer, hp⟩ := Option.bind_eq_some_iff.1 hp
    simp only [Option.ite_none_right_eq_some, Bool.and_eq_true, decide_eq_true_eq] at hp
    obtain ⟨⟨hmin, hcool⟩, hp⟩ := hp
    cases hp
    exact ⟨e.2, miner, Keyed.get?_eq_some_iff.2 he, hminer, hmin, hcool, rfl⟩
  · rintro ⟨b, miner, hb, hminer, hmin, hcool, hp⟩
    refine ⟨(p.minerId, b), Keyed.get?_eq_some_iff.1 hb, ?_⟩
    unfold payable at *
    simp only [hminer, Option.bind_some, hmin, hcool, decide_true, Bool.and_self, if_true]
    rw [← hp]

/-- Nobody is listed twice. -/
theorem getPendingPayouts_nodup :
    ((db.getPendingPayouts minAmount includeImmature cooldownSecs overrideAmount).map
      (·.minerId)).Nodup := by
  unfold getPendingPayouts
  rw [((List.perm_insertionSort _ _).map _).nodup_iff, List.Nodup, List.pairwise_map,
    List.pairwise_filterMap]
  have hkeys := db.balances.nodup
  rw [List.Nodup, List.pairwise_map] at hkeys
  have hid : ∀ (e : MinerId × Balance) (p : PendingPayout),
      ((db.miners.get? e.1).bind (fun miner =>
        let payable := if includeImmature then e.2.pending
          else e.2.pending - db.immature e.1
        if minAmount ≤ payable && db.cooledDown e.1 payable cooldownSecs overrideAmount then
          some (⟨e.1, miner.address, payable, miner.createdAt⟩ : PendingPayout)
        else none)) = some p → p.minerId = e.1 := by
    intro e p hp
    obtain ⟨miner, -, hp⟩ := Option.bind_eq_some_iff.1 hp
    simp only [Option.ite_none_right_eq_some] at hp
    exact congrArg PendingPayout.minerId (Option.some.inj hp.2).symm
  refine hkeys.imp fun {a b} hab p hp q hq => ?_
  rw [hid a p hp, hid b q hq]
  exact hab

end PoolDb

namespace PayoutConfig

variable {cfg : PayoutConfig} {bs58 : String → Option (List UInt8)}

theorem pending_nodup (cfg : PayoutConfig) (db : PoolDb) :
    ((cfg.pending db).map (·.minerId)).Nodup := PoolDb.getPendingPayouts_nodup

/-- The matured part of a balance is no more than the balance. -/
theorem amount_le_pending {db : PoolDb} (hcredits : ∀ e ∈ db.blockCredits.rows, 0 ≤ e.2)
    {p : PoolDb.PendingPayout} (h : p ∈ cfg.pending db) :
    p.amount ≤ db.books p.minerId .pending := by
  obtain ⟨b, miner, hb, -, -, -, hp⟩ := PoolDb.mem_getPendingPayouts.1 h
  have himmature : 0 ≤ db.immature p.minerId := by
    apply Keyed.sum_nonneg
    intro e he
    have := hcredits e he
    split <;> omega
  have hbooks : db.books p.minerId .pending = b.pending := by
    simp [PoolDb.books, hb, Balance.get]
  rw [hbooks, hp]
  simp only [PoolDb.payable]
  split
  · exact le_rfl
  · omega

/-- A balance that covers everything pending pays everything in full. -/
theorem destination?_of_ample {now : ℕ} {p : PoolDb.PendingPayout}
    (hmin : cfg.minPayoutZatoshis ≤ p.amount) :
    cfg.destination? bs58 now 1 p
      = (cfg.payTo bs58 now p).map (fun address => ⟨p.minerId, p.amount, address⟩) := by
  unfold destination?
  rw [mul_one, Int.floor_intCast]
  cases cfg.payTo bs58 now p with
  | none => rfl
  | some address => simp [hmin]

theorem min_le_amount {db : PoolDb} {p : PoolDb.PendingPayout} (h : p ∈ cfg.pending db) :
    cfg.minPayoutZatoshis ≤ p.amount := by
  obtain ⟨b, miner, -, -, hmin, -, hp⟩ := PoolDb.mem_getPendingPayouts.1 h
  rw [hp]
  exact hmin

end PayoutConfig

end ZcashMiningPool
