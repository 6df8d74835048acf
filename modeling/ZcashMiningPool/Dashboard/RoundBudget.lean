import ZcashMiningPool.Dashboard.SharedSend

/-!
# What a round reserves and what it sends

A payout round from any list of pending payouts: the balance gate and the scale, the reservation on
balances that may have changed since, and the request that goes to the wallet.

* `destOf` — where the money of a miner goes.
* `SendsExactly` — a request sends each destination the amounts reserved for its miners.
* `scaled_sum_le` — scaling and rounding down keep the list within the balance.

Main result: `round_sends_what_it_reserved`.
-/

set_option autoImplicit false

namespace ZcashMiningPool

open Table Buckets Machine

namespace PayoutConfig

variable {cfg : PayoutConfig} {bs58 : String → Option (List UInt8)} {now : ℕ} {privateBalance : ℚ}
  {pending : List PoolDb.PendingPayout}

/-- Where the payout of a miner goes. -/
def destOf (cfg : PayoutConfig) (bs58 : String → Option (List UInt8)) (now : ℕ)
    (pending : List PoolDb.PendingPayout) (m : MinerId) : Option String :=
  (pending.find? (fun p => p.minerId == m)).bind (cfg.payTo bs58 now)

/-! ## The scale -/

/-- What is pending, scaled, is available. -/
theorem totalZec_mul_scale_le (cfg : PayoutConfig) (privateBalance : ℚ)
    (pending : List PoolDb.PendingPayout) :
    totalZec pending * cfg.scale privateBalance pending ≤ cfg.availableZec privateBalance := by
  unfold scale
  split
  · rename_i hample
    rwa [mul_one]
  · rename_i hshort
    have hpos : totalZec pending ≠ 0 :=
      ((availableZec_nonneg cfg privateBalance).trans_lt (not_le.1 hshort)).ne'
    rw [mul_div_cancel₀ _ hpos]

/-- A budget that lets a round start is what the reserve and the margin leave of the balance. -/
theorem availableZec_eq (hmargin : 0 ≤ cfg.balanceMargin)
    (h : 0 < cfg.availableZec privateBalance) :
    cfg.availableZec privateBalance
      = (privateBalance - cfg.reserveMinZatoshis / zatoshisPerZec) * cfg.balanceMargin := by
  unfold availableZec at h ⊢
  rcases le_total (privateBalance - cfg.reserveMinZatoshis / zatoshisPerZec) 0 with hlow | hhigh
  · rw [max_eq_right hlow, zero_mul, max_self] at h
    exact absurd h (lt_irrefl _)
  · rw [max_eq_left hhigh, max_eq_left (mul_nonneg hhigh hmargin)]

/-! ## The payout list -/

/-- One entry of the list. -/
theorem of_destination?_eq_some {scale : ℚ} {p : PoolDb.PendingPayout} {d : Destination}
    (h : cfg.destination? bs58 now scale p = some d) :
    cfg.payTo bs58 now p = some d.address ∧ d.minerId = p.minerId ∧
      d.amount = ⌊(p.amount : ℚ) * scale⌋ ∧ cfg.minPayoutZatoshis ≤ d.amount := by
  obtain ⟨address, hto, hd⟩ := Option.bind_eq_some_iff.1 h
  simp only [Option.ite_none_right_eq_some] at hd
  obtain ⟨hmin, hd⟩ := hd
  cases hd
  exact ⟨hto, rfl, rfl, hmin⟩

theorem mem_payoutList {d : Destination}
    (h : d ∈ cfg.payoutList bs58 now privateBalance pending) :
    cfg.minPayoutZatoshis / zatoshisPerZec ≤ cfg.availableZec privateBalance ∧
      ∃ p ∈ pending, cfg.payTo bs58 now p = some d.address ∧ d.minerId = p.minerId ∧
        d.amount = ⌊(p.amount : ℚ) * cfg.scale privateBalance pending⌋ ∧
        cfg.minPayoutZatoshis ≤ d.amount := by
  unfold payoutList at h
  split at h
  · cases h
  · rename_i havailable
    obtain ⟨p, hp, hd⟩ := List.mem_filterMap.1 h
    exact ⟨not_lt.1 havailable, p, hp, of_destination?_eq_some hd⟩

/-- Every amount of the list is between the minimum and what is payable. -/
theorem amount_of_mem_payoutList (hamounts : ∀ p ∈ pending, 0 ≤ p.amount) {d : Destination}
    (h : d ∈ cfg.payoutList bs58 now privateBalance pending) :
    ∃ p ∈ pending, p.minerId = d.minerId ∧ cfg.minPayoutZatoshis ≤ d.amount ∧
      d.amount ≤ p.amount := by
  obtain ⟨-, p, hp, -, hminer, hamount, hdmin⟩ := mem_payoutList h
  refine ⟨p, hp, hminer.symm, hdmin, ?_⟩
  have hpos : (0 : ℚ) ≤ p.amount := by exact_mod_cast hamounts p hp
  have hle : ((d.amount : ℤ) : ℚ) ≤ p.amount := by
    rw [hamount]
    exact (Int.floor_le _).trans
      (mul_le_of_le_one_right hpos (scale_le_one cfg privateBalance pending))
  exact_mod_cast hle

/-- The list keeps the order of the pending payouts, so it names nobody twice. -/
theorem payoutList_sublist (cfg : PayoutConfig) (bs58 : String → Option (List UInt8)) (now : ℕ)
    (privateBalance : ℚ) (pending : List PoolDb.PendingPayout) :
    ((cfg.payoutList bs58 now privateBalance pending).map (·.minerId)).Sublist
      (pending.map (·.minerId)) := by
  unfold payoutList
  split
  · exact List.nil_sublist _
  · generalize cfg.scale privateBalance pending = scale
    induction pending with
    | nil => exact List.Sublist.refl _
    | cons p pending ih =>
      cases hd : cfg.destination? bs58 now scale p with
      | none =>
        rw [List.filterMap_cons_none hd]
        exact ih.cons _
      | some d =>
        rw [List.filterMap_cons_some hd, List.map_cons, List.map_cons,
          (of_destination?_eq_some hd).2.1]
        exact ih.cons_cons _

/-- The amounts of the list, as far as they were scaled from `pending`. -/
theorem sum_filterMap_le (cfg : PayoutConfig) (bs58 : String → Option (List UInt8)) (now : ℕ)
    {scale : ℚ} (hscale : 0 ≤ scale) (h : ∀ p ∈ pending, 0 ≤ p.amount) :
    ((((pending.filterMap (cfg.destination? bs58 now scale)).map (·.amount)).sum : ℤ) : ℚ)
      ≤ ((pending.map (·.amount)).sum : ℤ) * scale := by
  induction pending with
  | nil => simp
  | cons p pending ih =>
    have hrest := ih fun q hq => h q (List.mem_cons_of_mem _ hq)
    have hp : (0 : ℚ) ≤ p.amount := by exact_mod_cast h p List.mem_cons_self
    have hpay := mul_nonneg hp hscale
    rw [List.map_cons, List.sum_cons, Int.cast_add, add_mul]
    cases hd : cfg.destination? bs58 now scale p with
    | none =>
      rw [List.filterMap_cons_none hd]
      linarith
    | some d =>
      have hfloor : (d.amount : ℚ) ≤ p.amount * scale := by
        rw [(of_destination?_eq_some hd).2.2.1]
        exact Int.floor_le _
      rw [List.filterMap_cons_some hd, List.map_cons, List.sum_cons, Int.cast_add]
      linarith

/-- **Scaling and rounding down keep the list within the balance.** -/
theorem scaled_sum_le (h : ∀ p ∈ pending, 0 ≤ p.amount) :
    ((((cfg.payoutList bs58 now privateBalance pending).map (·.amount)).sum : ℤ) : ℚ)
        / zatoshisPerZec ≤ cfg.availableZec privateBalance := by
  have hzec : 0 < zatoshisPerZec := by norm_num [zatoshisPerZec]
  unfold payoutList
  split
  · simpa using availableZec_nonneg cfg privateBalance
  · have hsum := sum_filterMap_le cfg bs58 now (scale_nonneg cfg privateBalance pending) h
    calc _ ≤ ((pending.map (·.amount)).sum : ℤ) * cfg.scale privateBalance pending
            / zatoshisPerZec := div_le_div_of_nonneg_right hsum hzec.le
      _ = totalZec pending * cfg.scale privateBalance pending := by
          rw [totalZec, div_mul_eq_mul_div]
      _ ≤ cfg.availableZec privateBalance := totalZec_mul_scale_le cfg privateBalance pending

/-- A list that is not empty is within what the reserve and the margin leave of the balance. -/
theorem payoutList_within_budget (hpositive : 0 < cfg.minPayoutZatoshis)
    (hmargin : 0 ≤ cfg.balanceMargin) (hamounts : ∀ p ∈ pending, 0 ≤ p.amount)
    (hne : cfg.payoutList bs58 now privateBalance pending ≠ []) :
    ((((cfg.payoutList bs58 now privateBalance pending).map (·.amount)).sum : ℤ) : ℚ)
        / zatoshisPerZec
      ≤ (privateBalance - cfg.reserveMinZatoshis / zatoshisPerZec) * cfg.balanceMargin := by
  -- something is listed, so the round passed the balance gate
  obtain ⟨d, hd⟩ := List.exists_mem_of_ne_nil _ hne
  have hzec : 0 < zatoshisPerZec := by norm_num [zatoshisPerZec]
  have hgate : 0 < cfg.availableZec privateBalance :=
    lt_of_lt_of_le (div_pos (by exact_mod_cast hpositive) hzec) (mem_payoutList hd).1
  rw [← availableZec_eq hmargin hgate]
  exact scaled_sum_le hamounts

/-- Where a listed miner's money goes. -/
theorem destOf_payoutList (hnodup : (pending.map (·.minerId)).Nodup) {d : Destination}
    (h : d ∈ cfg.payoutList bs58 now privateBalance pending) :
    cfg.destOf bs58 now pending d.minerId = some d.address := by
  obtain ⟨-, p, hp, hto, hminer, -, -⟩ := mem_payoutList h
  have hfind : pending.find? (fun q => q.minerId == d.minerId) = some p := by
    cases hq : pending.find? (fun q => q.minerId == d.minerId) with
    | none =>
      have hnone := List.find?_eq_none.1 hq p hp
      simp [hminer] at hnone
    | some q =>
      have hsame : q.minerId = p.minerId := by simpa [hminer] using List.find?_some hq
      rw [List.inj_on_of_nodup_map hnodup (List.mem_of_find?_eq_some hq) hp hsame]
  rw [destOf, hfind, Option.bind_some, hto]

end PayoutConfig

/-! ## The request -/

/-- The request sends every destination the amounts reserved for its miners, and nothing else. -/
structure SendsExactly (dest : MinerId → Option String) (reserved : List (MinerId × ℤ))
    (request : List (String × ℤ)) : Prop where
  once : (request.map Prod.fst).Nodup
  amounts : ∀ e ∈ request,
    e.2 = ((reserved.filter (fun r => decide (dest r.1 = some e.1))).map Prod.snd).sum
  destinations : ∀ address, address ∈ request.map Prod.fst ↔
    ∃ r ∈ reserved, dest r.1 = some address
  total : (request.map Prod.snd).sum = (reserved.map Prod.snd).sum

namespace PayoutRound

theorem addresses_nodup (p : PayoutRound) : p.addresses.Nodup :=
  (List.perm_insertionSort _ _).nodup_iff.2 (List.nodup_dedup _)

theorem mem_addresses {p : PayoutRound} {address : String} :
    address ∈ p.addresses ↔ ∃ d ∈ p.payoutList, d.address = address := by
  rw [addresses, (List.perm_insertionSort _ _).mem_iff, List.mem_dedup, List.mem_map]

/-- Merging by destination keeps the total. -/
theorem sum_merged (p : PayoutRound) :
    (p.merged.map Prod.snd).sum = (p.payoutList.map (·.amount)).sum := by
  rw [← sum_map_groups p.payoutList (·.address) (·.amount) p.addresses_nodup
    fun d hd => mem_addresses.2 ⟨d, hd, rfl⟩]
  unfold merged
  rw [List.map_map]
  congr 1
  apply List.map_congr_left
  intro address _
  simp only [Function.comp_def, sum_filter_ite, beq_iff_eq]

/-- **The merged request** of a round whose miners have these destinations. -/
theorem sendsExactly_merged {p : PayoutRound} {dest : MinerId → Option String}
    (hdest : ∀ d ∈ p.payoutList, dest d.minerId = some d.address) :
    SendsExactly dest p.items p.merged where
  once := by
    unfold merged
    rw [List.map_map]
    simpa [Function.comp_def] using p.addresses_nodup
  amounts := by
    intro e he
    obtain ⟨address, -, rfl⟩ := List.mem_map.1 he
    unfold items
    rw [List.filter_map, List.map_map]
    simp only [Function.comp_def]
    congr 2
    apply List.filter_congr
    intro d hd
    rw [hdest d hd, Bool.eq_iff_iff, beq_iff_eq, decide_eq_true_eq, Option.some.injEq]
  destinations := by
    intro address
    have hkeys : p.merged.map Prod.fst = p.addresses := by
      unfold merged
      rw [List.map_map]
      simp [Function.comp_def]
    rw [hkeys, mem_addresses]
    unfold items
    constructor
    · rintro ⟨d, hd, rfl⟩
      exact ⟨_, List.mem_map_of_mem hd, hdest d hd⟩
    · rintro ⟨r, hr, hto⟩
      obtain ⟨d, hd, rfl⟩ := List.mem_map.1 hr
      rw [hdest d hd] at hto
      exact ⟨d, hd, Option.some.inj hto⟩
  total := by
    rw [sum_merged, items, List.map_map]
    rfl

end PayoutRound

namespace Saga

/-- A round from its attempt row to the request: reservation, durable mark, `z_sendmany`. -/
def sendRound (s : Saga) : Saga := ((s.loopDb DbCall.ok).loopDb DbCall.ok).sendmany

/-- What was reserved is what the request is made of; without a reservation there is none. -/
theorem sendRound_request {s : Saga} {p : PayoutRound} (hloop : s.loop = .created p)
    {reserved : List (MinerId × ℤ)} {db' : PoolDb}
    (h : PoolDb.reservePayout p.attempt s.db p.items = .ok (reserved, db')) :
    (s.sendRound.fate p.attempt).request
      = if reserved = [] then (s.fate p.attempt).request
        else some (p.restrict reserved).merged := by
  have hresult : DbCall.ok.result (PoolDb.reservePayout p.attempt s.db p.items)
      = some (reserved, db') := by
    rw [DbCall.result_ok, h]
    rfl
  cases reserved with
  | nil =>
    have hfirst : s.loopDb DbCall.ok = { s with
        db := db'
        loop := .failing p "no funds reserved (balances changed since selection)" } := by
      simp only [loopDb, hloop, hresult]
    rw [if_pos rfl]
    unfold sendRound
    rw [hfirst]
    rfl
  | cons e reserved =>
    have hfirst : s.loopDb DbCall.ok
        = { s with db := db', loop := .reserved (p.restrict (e :: reserved)) } := by
      simp only [loopDb, hloop, hresult]
    rw [if_neg (List.cons_ne_nil _ _)]
    unfold sendRound
    rw [hfirst]
    simp [loopDb, sendmany, DbCall.ok, update, PayoutRound.restrict]

end Saga

/-! ## A whole round -/

open PayoutConfig in
/-- **A round sends exactly what it reserved and stays within its budget**, whatever the addresses
    are like and whatever became of the balances since the miners were listed. -/
theorem round_sends_what_it_reserved (cfg : PayoutConfig) (bs58 : String → Option (List UInt8))
    (now : ℕ) (privateBalance : ℚ) (pending : List PoolDb.PendingPayout)
    (hnodup : (pending.map (·.minerId)).Nodup) (hpositive : 0 < cfg.minPayoutZatoshis)
    (hmin : ∀ p ∈ pending, cfg.minPayoutZatoshis ≤ p.amount) (hmargin : 0 ≤ cfg.balanceMargin)
    (s : Saga) (attempt : AttemptId) (hattempt : s.db.payoutAttempts.has attempt = true)
    (hloop : s.loop = .created ⟨attempt, cfg.payoutList bs58 now privateBalance pending⟩) :
    ∃ reserved db', PoolDb.reservePayout attempt s.db
        ((cfg.payoutList bs58 now privateBalance pending).map (fun d => (d.minerId, d.amount)))
          = .ok (reserved, db') ∧
      db'.books = moveDemand s.db.books .pending .paying reserved ∧
      (reserved.map Prod.fst).Nodup ∧
      (∀ e ∈ reserved, ∃ p ∈ pending, p.minerId = e.1 ∧ cfg.minPayoutZatoshis ≤ e.2 ∧
        e.2 ≤ p.amount) ∧
      (cfg.payoutList bs58 now privateBalance pending ≠ [] →
        (((reserved.map Prod.snd).sum : ℤ) : ℚ) / zatoshisPerZec
          ≤ (privateBalance - cfg.reserveMinZatoshis / zatoshisPerZec) * cfg.balanceMargin) ∧
      (reserved = [] → (s.sendRound.fate attempt).request = (s.fate attempt).request) ∧
      (reserved ≠ [] → ∃ request, (s.sendRound.fate attempt).request = some request ∧
        SendsExactly (cfg.destOf bs58 now pending) reserved request) := by
  have hamounts : ∀ p ∈ pending, 0 ≤ p.amount := fun p hp => by
    have := hmin p hp
    omega
  set list := cfg.payoutList bs58 now privateBalance pending with hlist
  have hlistNodup : (list.map (·.minerId)).Nodup :=
    (payoutList_sublist cfg bs58 now privateBalance pending).nodup hnodup
  have hitemsNodup : ((list.map (fun d => (d.minerId, d.amount))).map Prod.fst).Nodup := by
    simpa [Function.comp_def] using hlistNodup
  obtain ⟨db', hreserve⟩ := PoolDb.reservePayout_distinct hattempt hitemsNodup
  obtain ⟨bal, its, -, -, hmove, hsub, -⟩ := PoolDb.reservePayout_spec hreserve
  set reserved := (list.map (fun d => (d.minerId, d.amount))).filter s.db.reservable with hreserved
  have hkept : reserved = (reservedList s.db list).map (fun d => (d.minerId, d.amount)) :=
    items_reservedList s.db ⟨attempt, list⟩
  have hrequest := Saga.sendRound_request hloop hreserve
  refine ⟨reserved, db', hreserve, moveAll?_some hmove, (hsub.map _).nodup hitemsNodup,
    fun e he => ?_, fun hne => ?_, fun hnil => ?_, fun hne => ?_⟩
  · obtain ⟨d, hd, rfl⟩ := List.mem_map.1 (hsub.subset he)
    exact amount_of_mem_payoutList hamounts hd
  · have hsum : (reserved.map Prod.snd).sum ≤ (list.map (·.amount)).sum := by
      have hle := (hsub.map Prod.snd).sum_le_sum fun a ha => by
        obtain ⟨x, hx, rfl⟩ := List.mem_map.1 ha
        obtain ⟨d, hd, rfl⟩ := List.mem_map.1 hx
        obtain ⟨p, -, -, hdmin, -⟩ := amount_of_mem_payoutList hamounts hd
        exact hpositive.le.trans hdmin
      simpa [Function.comp_def] using hle
    have hzec : 0 ≤ zatoshisPerZec := by norm_num [zatoshisPerZec]
    exact (div_le_div_of_nonneg_right (by exact_mod_cast hsum) hzec).trans
      (payoutList_within_budget hpositive hmargin hamounts hne)
  · rw [hrequest, if_pos hnil]
  · refine ⟨_, by rw [hrequest, if_neg hne], ?_⟩
    have hrestrict : (PayoutRound.restrict ⟨attempt, list⟩ reserved).payoutList
        = reservedList s.db list := @restrict_reserved s.db ⟨attempt, list⟩ hlistNodup
    have hitems : (PayoutRound.restrict ⟨attempt, list⟩ reserved).items = reserved := by
      rw [PayoutRound.items, hrestrict, hkept]
    have hdest : ∀ d ∈ (PayoutRound.restrict ⟨attempt, list⟩ reserved).payoutList,
        cfg.destOf bs58 now pending d.minerId = some d.address := by
      intro d hd
      rw [hrestrict] at hd
      exact destOf_payoutList hnodup (List.mem_of_mem_filter hd)
    have hsends := PayoutRound.sendsExactly_merged hdest
    rwa [hitems] at hsends

/-- Three miners were listed; two have unreadable addresses, and the balance of the third has
    fallen since. -/
def listedMiners : List PoolDb.PendingPayout :=
  [⟨1, knownAddress, 5000000, 0⟩, ⟨2, "t1unread", 3000000, 0⟩, ⟨3, "t1unpaid", 4000000, 0⟩]

def listedRound : Saga :=
  let db := run PoolDb.step PoolDb.empty [.getOrCreateMiner knownAddress,
    .getOrCreateMiner "t1unread", .getOrCreateMiner "t1unpaid", .creditBalance 1 5000000,
    .creditBalance 2 3000000, .creditBalance 3 1200000, .createPayoutAttempt 3 4999999 "loop"]
  { Saga.start with
    db := db
    loop := .created ⟨1, payoutSettings.payoutList knownBs58 172800 (1 / 20) listedMiners⟩ }

/-- The first two are paid in one transfer to the pool's address. -/
theorem round_sends_what_it_reserved_listedMiners :
    ∃ reserved db', PoolDb.reservePayout 1 listedRound.db
        [(1, 2083333), (2, 1250000), (3, 1666666)] = .ok (reserved, db') ∧
      reserved = [(1, 2083333), (2, 1250000)] ∧
      ∃ request, (listedRound.sendRound.fate 1).request = some request ∧
        SendsExactly (payoutSettings.destOf knownBs58 172800 listedMiners) reserved request := by
  have hlist : (payoutSettings.payoutList knownBs58 172800 (1 / 20) listedMiners).map
      (fun d => (d.minerId, d.amount)) = [(1, 2083333), (2, 1250000), (3, 1666666)] := by
    decide +kernel
  obtain ⟨reserved, db', hreserve, -, -, -, -, -, hsend⟩ :=
    round_sends_what_it_reserved payoutSettings knownBs58 172800 (1 / 20) listedMiners
      (by decide) (by decide) (by decide) (by decide +kernel) listedRound 1 (by decide +kernel) rfl
  rw [hlist] at hreserve
  have hkept : [(1, 2083333), (2, 1250000), (3, 1666666)].filter listedRound.db.reservable
      = [(1, 2083333), (2, 1250000)] := by decide +kernel
  obtain ⟨db'', hdistinct⟩ : ∃ db'', PoolDb.reservePayout 1 listedRound.db
      [(1, 2083333), (2, 1250000), (3, 1666666)]
        = .ok ([(1, 2083333), (2, 1250000), (3, 1666666)].filter listedRound.db.reservable, db'') :=
    PoolDb.reservePayout_distinct (by decide +kernel) (by decide)
  rw [hkept, hreserve] at hdistinct
  cases hdistinct
  exact ⟨_, _, hreserve, rfl, hsend (List.cons_ne_nil _ _)⟩

end ZcashMiningPool
