import ZcashMiningPool.Ledger.SettleOnce
import ZcashMiningPool.Library.SqlNumber

/-!
# What a miner holds

Two invariants of the integer books that storing them in 64-bit columns rests on.

* `Bounded` — nothing is negative, and nobody holds more than `i64::MAX`.  A covered transfer keeps
  it, since it moves funds within one holding.
* `Known` — only recorded miners have a balance; `known_step` is its step lemma.
-/

set_option autoImplicit false

namespace ZcashMiningPool

open Table Buckets SqlNumber

namespace PoolDb

/-- What miner `m` holds in all three columns. -/
def holdings (db : PoolDb) (m : MinerId) : ℤ :=
  db.books m .pending + db.books m .paying + db.books m .paid

/-- Nothing is negative, and no holding leaves the 64-bit range. -/
structure Bounded (db : PoolDb) : Prop where
  nonneg : ∀ m b, 0 ≤ db.books m b
  holdings_le : ∀ m, db.holdings m ≤ maxInteger

/-- Only recorded miners have a balance. -/
def Known (db : PoolDb) : Prop := ∀ m, db.balances.get? m ≠ none → db.miners.has m = true

theorem Bounded.congr {db db' : PoolDb} (h : db.Bounded) (hb : db'.books = db.books) :
    db'.Bounded := by
  refine ⟨fun m b => ?_, fun m => ?_⟩
  · rw [hb]
    exact h.nonneg m b
  · have := h.holdings_le m
    unfold holdings at this ⊢
    rwa [hb]

/-- No column is larger than the holding. -/
theorem Bounded.le_max {db : PoolDb} (h : db.Bounded) (m : MinerId) (b : Bucket) :
    db.books m b ≤ maxInteger := by
  have hle := h.holdings_le m
  have hp := h.nonneg m .pending
  have hq := h.nonneg m .paying
  have hr := h.nonneg m .paid
  unfold holdings at hle
  cases b <;> omega

/-- A covered transfer moves funds within the holding. -/
theorem Bounded.transfer {db db' : PoolDb} (h : db.Bounded) {src dst : Bucket} (hne : src ≠ dst)
    {m : MinerId} {a : ℤ} (ha : 0 ≤ a) (ht : db.transfer src dst m a = some db') :
    db'.Bounded := by
  obtain ⟨hcov, hbooks⟩ := books_transfer hne ht
  refine ⟨fun m' b => ?_, fun m' => ?_⟩
  · have := h.nonneg m' b
    rw [hbooks]
    unfold move
    by_cases hm : m' = m
    · subst hm
      by_cases hs : b = src
      · subst hs
        rw [if_pos rfl, if_neg hne, if_pos rfl]
        omega
      · rw [if_pos rfl, if_neg hs]
        split <;> omega
    · rw [if_neg hm]
      omega
  · have hle := h.holdings_le m'
    unfold holdings at hle ⊢
    simp only [hbooks, move]
    by_cases hm : m' = m
    · cases src <;> cases dst <;> simp_all <;> omega
    · simp only [if_neg hm, add_zero]
      exact hle

theorem Bounded.room {db : PoolDb} (h : db.Bounded) {src dst : Bucket} (hne : src ≠ dst)
    {m : MinerId} {a : ℤ} (ha : 0 ≤ a) (hcov : a ≤ db.books m src) :
    InRange (db.books m src - a) ∧ InRange (db.books m dst + a) := by
  have hle := h.holdings_le m
  have hp := h.nonneg m .pending
  have hq := h.nonneg m .paying
  have hr := h.nonneg m .paid
  unfold holdings at hle
  unfold InRange maxInteger at *
  cases src <;> cases dst <;> first | exact absurd rfl hne | (constructor <;> omega)

/-- What the source covers, the destination has room for. -/
theorem Bounded.room_of_covered {db : PoolDb} (h : db.Bounded) {src dst : Bucket} (hne : src ≠ dst)
    {items : List (MinerId × ℤ)} (hcov : ∀ e ∈ items, demand items e.1 ≤ db.books e.1 src) :
    ∀ e ∈ items, db.books e.1 dst + demand items e.1 ≤ maxInteger := by
  intro e he
  have hle := h.holdings_le e.1
  have hp := h.nonneg e.1 .pending
  have hq := h.nonneg e.1 .paying
  have hr := h.nonneg e.1 .paid
  have hc := hcov e he
  unfold holdings at hle
  cases src <;> cases dst <;> first | exact absurd rfl hne | omega

/-! ## Miners are known -/

theorem Known.of_same {db db' : PoolDb} (h : db.Known) (hm : db'.miners = db.miners)
    (hb : ∀ m, (db'.balances.get? m).isSome = (db.balances.get? m).isSome) : db'.Known := by
  intro m hne
  rw [hm]
  refine h m fun hnone => hne ?_
  have := hb m
  rw [hnone] at this
  exact Option.not_isSome_iff_eq_none.1 (by simp [this])

theorem Known.insertBalance {db db' : PoolDb} (h : db.Known) {m : MinerId}
    (hx : db.insertBalance m = .ok db') : db'.Known ∧ db.miners.has m = true := by
  unfold PoolDb.insertBalance at hx
  split at hx
  · rename_i hm
    cases hx
    refine ⟨fun m' hne => ?_, hm⟩
    by_cases he : m' = m
    · rw [he]
      exact hm
    · refine h m' fun hnone => hne ?_
      simp only [Keyed.get?_insertIgnore, if_neg he]
      exact hnone
  · cases hx

theorem isSome_updatePending (db : PoolDb) (m : MinerId) (f : ℤ → ℤ) (m' : MinerId) :
    ((db.updatePending m f).balances.get? m').isSome = (db.balances.get? m').isSome := by
  simp only [updatePending, Keyed.get?_modify]
  split
  · rw [Option.isSome_map]
  · rfl

theorem isSome_transfer {db db' : PoolDb} {src dst : Bucket} {m : MinerId} {a : ℤ}
    (h : db.transfer src dst m a = some db') (m' : MinerId) :
    (db'.balances.get? m').isSome = (db.balances.get? m').isSome := by
  obtain ⟨t, ht, rfl⟩ := Option.map_eq_some_iff.1 h
  obtain ⟨r, -, -, rfl⟩ := Keyed.modifyIf_eq_some_iff.1 ht
  simp only [Keyed.get?_modify]
  split
  · rw [Option.isSome_map]
  · rfl

theorem Known.transfer {db db' : PoolDb} (h : db.Known) {src dst : Bucket} {m : MinerId} {a : ℤ}
    (ht : db.transfer src dst m a = some db') : db'.Known ∧ db.miners.has m = true := by
  obtain ⟨t, hrow, rfl⟩ := transfer_frame ht
  exact ⟨h.of_same rfl (isSome_transfer ht), h m hrow⟩

theorem isSome_reverseRows (blockId : BlockId) (db : PoolDb) (l : List (MinerId × ℤ))
    (m : MinerId) :
    ((reverseRows blockId db l).balances.get? m).isSome = (db.balances.get? m).isSome := by
  induction l generalizing db with
  | nil => rfl
  | cons e l ih =>
    rw [reverseRows_cons, ih]
    have hclaw : ∀ (d : PoolDb) (x : ℤ),
        (d.insertClawback blockId e.1 x).balances = d.balances := by
      intro d x
      unfold insertClawback
      split <;> rfl
    simp only [reverseCredit, hclaw]
    unfold debitRecovered
    split
    · exact isSome_updatePending _ _ _ _
    · rfl

theorem Known.reverse {db db' : PoolDb} (h : db.Known) {blockId : BlockId}
    {out : Option (ℤ × ℤ)} (hx : db.reverseBlockCreditsPrecise blockId = .ok (out, db')) :
    db'.Known := by
  rcases reverseBlockCreditsPrecise_cases hx with ⟨-, -, rfl⟩ | ⟨-, -, b, -, rfl⟩
  · exact h
  · obtain ⟨bal, cl, hframe⟩ := reverseRows_frame blockId db (db.creditsByMiner blockId)
    have hsome := isSome_reverseRows blockId db (db.creditsByMiner blockId)
    have htables := (requeueCosts_tables
      ((reverseRows blockId db (db.creditsByMiner blockId)).deleteBlockCredits blockId) blockId
      b.costsRecovered).1
    refine h.of_same ?_ fun m => ?_
    · rw [hframe]
      unfold requeueCosts
      split <;> rfl
    · rw [htables]
      exact hsome m

theorem known_reservePayout {attemptId : AttemptId} {items pairs : List (MinerId × ℤ)}
    {db db' : PoolDb} (h : db.Known)
    (hx : reservePayout attemptId db items = .ok (pairs, db')) : db'.Known := by
  induction items generalizing db pairs with
  | nil =>
    cases hx
    exact h
  | cons e items ih =>
    obtain ⟨m, amount⟩ := e
    simp only [reservePayout] at hx
    split at hx
    · exact ih h hx
    · split at hx
      · exact ih h hx
      · rename_i db₁ htr
        simp only [insertItem, bind, Except.bind] at hx
        split at hx
        · cases hx
        · rename_i db₂ hins
          split at hins
          · cases hins
            split at hx
            · cases hx
            · rename_i r hr
              cases hx
              have hknown : Known { db₁ with
                  payoutItems := db₁.payoutItems.insert ⟨attemptId, m, amount⟩ } :=
                (h.transfer htr).1.of_same rfl fun _ => rfl
              exact ih hknown hr
          · cases hins

theorem known_distribute {blockId : BlockId} {credits : List (MinerId × ℤ)} {db db' : PoolDb}
    (h : db.Known) (hx : distributeBlockCredits blockId db credits = .ok db') : db'.Known := by
  induction credits generalizing db with
  | nil =>
    cases hx
    exact h
  | cons credit credits ih =>
    obtain ⟨m, amount⟩ := credit
    simp only [distributeBlockCredits, bind, Except.bind] at hx
    split at hx
    · cases hx
    · rename_i db₁ h₁
      split at hx
      · cases hx
      · rename_i db₂ h₂
        obtain ⟨t, -, rfl, -⟩ := insertBlockCredit_ok h₂
        have hknown : Known ({ db₁ with blockCredits := t }.updatePending m (· + amount)) :=
          (h.insertBalance h₁).1.of_same rfl (isSome_updatePending _ m (· + amount))
        exact ih hknown hx

theorem known_void {txid : String} {out : ℕ × ℤ} {db db' : PoolDb} (h : db.Known)
    (hx : db.voidReorgedPayout txid = .ok (out, db')) : db'.Known := by
  unfold voidReorgedPayout at hx
  split at hx
  · cases hx
    exact h
  · split at hx
    · cases hx
      exact h
    · simp only [bind, Except.bind] at hx
      split at hx
      · cases hx
      · rename_i db₁ h₁
        cases hx
        obtain ⟨-, bal, hdb⟩ := settleItems_spec (by decide) (fun _ _ _ _ => rfl) h₁
        rw [foldl_record_nothing] at hdb
        have hsome := settleItems_known (by intros; rfl) h₁
        refine h.of_same ?_ hsome
        rw [hdb]
        rfl

/-- An operation gives no balance to a miner that is not recorded. -/
theorem known_step {db : PoolDb} (h : db.Known) (op : Op) : (db.step op).Known := by
  refine step_induction (P := Known) h fun db' hx => ?_
  cases op with
  | getOrCreateMiner address =>
    cases hx
    unfold getOrCreateMiner
    split
    · exact h
    · exact fun m hne => Auto.has_insert (h m hne) _
  | getOrCreateWorker m name =>
    obtain ⟨r, hr⟩ := map_snd_ok hx
    unfold getOrCreateWorker at hr
    split at hr
    · cases hr
      exact h.of_same rfl fun _ => rfl
    · split at hr <;> cases hr
      exact h.of_same rfl fun _ => rfl
  | recordBlock height hash reward actual foundBy luck =>
    obtain ⟨r, hr⟩ := map_snd_ok hx
    unfold recordBlock at hr
    split at hr
    · cases hr
    · split at hr <;> cases hr
      exact h.of_same rfl fun _ => rfl
  | distributeBlockCredits b credits => exact known_distribute h hx
  | reverseBlockCreditsPrecise b =>
    obtain ⟨r, hr⟩ := map_snd_ok hx
    exact h.reverse hr
  | orphanBlock b reward =>
    obtain ⟨r, hr⟩ := map_snd_ok hx
    rcases orphanBlock_cases hr with ⟨-, rfl⟩ | ⟨-, db₁, h₁, rfl⟩
    · refine h.of_same ?_ fun m => ?_
      · unfold reverseProportionally
        split <;> rfl
      · unfold reverseProportionally
        split
        · simp [updateBlockStatus]
        · rfl
    · exact (h.reverse h₁).of_same rfl fun _ => rfl
  | takeCostsForBlock b cap =>
    cases hx
    refine h.of_same ?_ fun m => ?_
    · rw [(takeCostsForBlock_spec db b cap).2]
    · rw [(takeCostsForBlock_spec db b cap).2]
  | creditBalance m amount =>
    simp only [exec, creditBalance, bind, Except.bind] at hx
    split at hx <;> cases hx
    rename_i h₁
    exact (h.insertBalance h₁).1.of_same rfl (isSome_updatePending _ _ _)
  | adjustMinerBalance m delta =>
    obtain ⟨r, hr⟩ := map_snd_ok hx
    simp only [adjustMinerBalance, bind, Except.bind] at hr
    split at hr <;> cases hr
    rename_i h₁
    exact (h.insertBalance h₁).1.of_same rfl (isSome_updatePending _ _ _)
  | getOrCreateBalance m =>
    obtain ⟨r, hr⟩ := map_snd_ok hx
    simp only [getOrCreateBalance, bind, Except.bind] at hr
    split at hr <;> cases hr
    rename_i h₁
    exact (h.insertBalance h₁).1
  | createPayout m amount txid =>
    obtain ⟨n, hr⟩ := map_snd_ok hx
    unfold createPayout at hr
    split at hr <;> cases hr
    rename_i htr
    exact (h.transfer htr).1.of_same rfl fun _ => rfl
  | reservePayout a items =>
    obtain ⟨pairs, hr⟩ := map_snd_ok hx
    exact known_reservePayout h hr
  | confirmPayout a txid =>
    obtain ⟨n, hr⟩ := map_snd_ok hx
    obtain ⟨-, bal, pays, hdb, -⟩ := confirmPayout_spec hr
    exact h.of_same (by rw [hdb]) (call_known (c := .confirm a txid) hr)
  | refundPayout a =>
    obtain ⟨n, hr⟩ := map_snd_ok hx
    obtain ⟨-, bal, hdb, -⟩ := refundPayout_spec hr
    exact h.of_same (by rw [hdb]) (call_known (c := .refund a) hr)
  | voidReorgedPayout txid =>
    obtain ⟨r, hr⟩ := map_snd_ok hx
    exact known_void h hr
  | _ =>
    cases hx
    exact h.of_same rfl fun _ => rfl

end PoolDb

end ZcashMiningPool
