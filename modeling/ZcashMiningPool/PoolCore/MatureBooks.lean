import ZcashMiningPool.PoolCore.BestChain
import ZcashMiningPool.PoolCore.PhantomCredits

/-!
# Mature books agree with the chain

What the sweep and the maturity check leave behind, once both have dealt with a mature block.

* `Gone` — a block that can no longer come back: denied, or mature and not on the best chain.
* `BooksInv` — the rows and breadcrumbs of the database beside the chronicle.  A found block has
  an open breadcrumb, or a row, or is gone; only a gone block is orphaned, and only a mature block
  of the best chain is confirmed.
* `PoolInv`, `CheckInv` — what the two processes hold in hand.  They speak of facts that last
  (`Extends`), so a step of one process leaves the other's alone.
* `matureBooks_of_returnsNone` — the run theorem.
* `lost_height_race_comes_back` — the run in which a denied block returns.
-/

set_option autoImplicit false

namespace ZcashMiningPool

open Table PoolDb

/-! ## Reading the node -/

theorem toLower_hexEncode (bs : List UInt8) :
    (Text.hexEncode bs).toLower = Text.hexEncode bs := by
  have hdigit : ∀ i : Fin 16, (Text.hexDigit i.1).toLower = Text.hexDigit i.1 := by decide
  have hlower : ∀ n, n < 16 → (Text.hexDigit n).toLower = Text.hexDigit n :=
    fun n h => hdigit ⟨n, h⟩
  show (Text.hexEncode bs).map Char.toLower = Text.hexEncode bs
  unfold Text.hexEncode
  rw [← String.toList_inj, String.toList_map, String.toList_ofList]
  unfold Text.hexDigits
  rw [List.map_flatMap]
  apply List.flatMap_congr
  intro b _
  have hlt : b.toNat < 256 := b.toNat_lt
  simp only [List.map_cons, List.map_nil, hlower (b.toNat / 16) (by omega),
    hlower (b.toNat % 16) (by omega)]

theorem reverseHexBytes_hexEncode (bs : List UInt8) :
    reverseHexBytes (Text.hexEncode bs) = Text.hexEncode bs.reverse := by
  simp [reverseHexBytes]

namespace Chronicle

theorem onChain_hexEncode {g : Chronicle} {height : ℤ} {bs : List UInt8} :
    g.OnChain ⟨height, Text.hexEncode bs⟩ ↔ ∃ c ∈ g.hashAt height, c = bs ∨ c = bs.reverse := by
  unfold OnChain
  refine exists_congr fun c => and_congr_right fun _ => ?_
  simp only [Text.hexEncode_inj]
  constructor
  · rintro (h | h)
    · exact .inl h.symm
    · exact .inr (by rw [h, List.reverse_reverse])
  · rintro (h | h)
    · exact .inl h.symm
    · exact .inr (by rw [h, List.reverse_reverse])

/-- `Mismatch` is only answered for a block that is not on the best chain now. -/
theorem not_onChain_of_mismatch {g : Chronicle} {k : BlockKey} {answer : Option String}
    (htruth : g.Truthful k.height answer) (htext : ∃ bs, k.hash = Text.hexEncode bs)
    (h : verifyBlockInclusion answer k.hash = .mismatch) : ¬ g.OnChain k := by
  obtain ⟨height, hash⟩ := k
  obtain ⟨bs, rfl⟩ := htext
  rw [onChain_hexEncode]
  rintro ⟨c, hc, hcbs⟩
  have hc : g.hashAt height = some c := hc
  rcases htruth with rfl | hanswer
  · cases h
  · rw [hanswer, hc, Option.map_some] at h
    simp only [verifyBlockInclusion, toLower_hexEncode, reverseHexBytes_hexEncode,
      Text.hexEncode_inj] at h
    rw [if_pos hcbs] at h
    cases h

/-- The maturity check compares with the chain as it is. -/
theorem maturityMatches_iff {g : Chronicle} {k : BlockKey} {answer : String}
    (htruth : g.Truthful k.height (some answer)) (htext : ∃ bs, k.hash = Text.hexEncode bs) :
    maturityMatches answer k.hash = true ↔ g.OnChain k := by
  obtain ⟨height, hash⟩ := k
  obtain ⟨bs, rfl⟩ := htext
  rcases htruth with hnone | hanswer
  · cases hnone
  · obtain ⟨c, hc, rfl⟩ := Option.map_eq_some_iff.1 hanswer.symm
    have hc : g.hashAt height = some c := hc
    rw [onChain_hexEncode]
    simp only [maturityMatches, reverseHexBytes_hexEncode, Bool.or_eq_true, beq_iff_eq,
      Text.hexEncode_inj, hc, Option.mem_some_iff, exists_eq_left', or_comm]

end Chronicle

namespace ChainBooks

/-! ## What lasts -/

section Facts

variable (db : PoolDb) (g : Chronicle)

def Gone (k : BlockKey) : Prop := k ∈ g.denied ∨ (k.height ≤ g.final ∧ ¬ g.OnChain k)

/-- The row `b` is the block's. -/
def IsRow (b : BlockId) (k : BlockKey) : Prop := ∃ r, db.fateOf b = some r ∧ r.key = k

/-- Nothing more has to come from a breadcrumb. -/
def Settled (k : BlockKey) : Prop := (∃ b, IsRow db b k) ∨ Gone g k

/-- Nothing more has to come from a maturity check. -/
def Decided (k : BlockKey) : Prop :=
  Gone g k ∨ ∃ b r, db.fateOf b = some r ∧ r.key = k ∧ r.status ≠ .pending

/-- The breadcrumb `id` is the block's. -/
def IsCrumb (id : ℕ) (k : BlockKey) : Prop := ∃ resolved, db.crumbOf id = some (k, resolved)

structure BooksInv : Prop where
  rowsFound : ∀ b r, db.fateOf b = some r → r.key ∈ g.found
  rowsUnique : ∀ b b' r r', db.fateOf b = some r → db.fateOf b' = some r' →
    r.key.hash = r'.key.hash → b = b'
  crumbsFound : ∀ id k, IsCrumb db id k → k ∈ g.found
  heights : ∀ k ∈ g.found, ∀ k' ∈ g.found, k.hash = k'.hash → k = k'
  texts : ∀ k ∈ g.found, ∃ bs, k.hash = Text.hexEncode bs
  deniedOff : ∀ k ∈ g.denied, ¬ g.OnChain k
  orphaned : ∀ b r, db.fateOf b = some r → r.status = .orphaned → Gone g r.key
  confirmed : ∀ b r, db.fateOf b = some r → r.status = .confirmed →
    r.key.height ≤ g.final ∧ g.OnChain r.key
  kept : ∀ k ∈ g.found, Settled db g k ∨ ∃ id, db.crumbOf id = some (k, false)

end Facts

/-- What a step leaves standing. -/
structure Extends (db : PoolDb) (g : Chronicle) (db' : PoolDb) (g' : Chronicle) : Prop where
  denied : g.denied ⊆ g'.denied
  final : g.final ≤ g'.final
  onChain : ∀ k, k.height ≤ g.final → (g'.OnChain k ↔ g.OnChain k)
  rows : ∀ b r, db.fateOf b = some r → ∃ r', db'.fateOf b = some r' ∧ r'.key = r.key ∧
    (r.status ≠ .pending → r'.status ≠ .pending)
  crumbs : ∀ id k, IsCrumb db id k → IsCrumb db' id k

section Lasting

variable {db db' : PoolDb} {g g' : Chronicle}

theorem Gone.off {k : BlockKey} (h : Gone g k) (hbooks : BooksInv db g) : ¬ g.OnChain k := by
  rcases h with h | h
  · exact hbooks.deniedOff k h
  · exact h.2

theorem Gone.mono {k : BlockKey} (hext : Extends db g db' g') (h : Gone g k) : Gone g' k := by
  rcases h with h | h
  · exact .inl (hext.denied h)
  · exact .inr ⟨h.1.trans hext.final, fun hon => h.2 ((hext.onChain k h.1).1 hon)⟩

theorem IsRow.mono {b : BlockId} {k : BlockKey} (hext : Extends db g db' g') (h : IsRow db b k) :
    IsRow db' b k := by
  obtain ⟨r, hr, rfl⟩ := h
  obtain ⟨r', hr', hkey, -⟩ := hext.rows b r hr
  exact ⟨r', hr', hkey⟩

theorem Settled.mono {k : BlockKey} (hext : Extends db g db' g') (h : Settled db g k) :
    Settled db' g' k := by
  rcases h with ⟨b, hb⟩ | h
  · exact .inl ⟨b, hb.mono hext⟩
  · exact .inr (h.mono hext)

theorem Decided.mono {k : BlockKey} (hext : Extends db g db' g') (h : Decided db g k) :
    Decided db' g' k := by
  rcases h with h | ⟨b, r, hr, rfl, hstatus⟩
  · exact .inl (h.mono hext)
  · obtain ⟨r', hr', hkey, hkeep⟩ := hext.rows b r hr
    exact .inr ⟨b, r', hr', hkey, hkeep hstatus⟩

/-! ## What the writers do -/

theorem extends_same (hfate : ∀ b, db'.fateOf b = db.fateOf b)
    (hcrumb : ∀ i, db'.crumbOf i = db.crumbOf i) : Extends db g db' g where
  denied := List.Subset.refl _
  final := le_refl _
  onChain _ _ := Iff.rfl
  rows b r hr := ⟨r, (hfate b).trans hr, rfl, id⟩
  crumbs i k hk := by
    obtain ⟨resolved, hk⟩ := hk
    exact ⟨resolved, (hcrumb i).trans hk⟩

theorem BooksInv.same (h : BooksInv db g) (hfate : ∀ b, db'.fateOf b = db.fateOf b)
    (hcrumb : ∀ i, db'.crumbOf i = db.crumbOf i) : BooksInv db' g := by
  have hext : Extends db g db' g := extends_same hfate hcrumb
  constructor
  · intro b r hr
    exact h.rowsFound b r ((hfate b).symm.trans hr)
  · intro b b' r r' hr hr'
    exact h.rowsUnique b b' r r' ((hfate b).symm.trans hr) ((hfate b').symm.trans hr')
  · rintro id k ⟨resolved, hk⟩
    exact h.crumbsFound id k ⟨resolved, (hcrumb id).symm.trans hk⟩
  · exact h.heights
  · exact h.texts
  · exact h.deniedOff
  · intro b r hr
    exact h.orphaned b r ((hfate b).symm.trans hr)
  · intro b r hr
    exact h.confirmed b r ((hfate b).symm.trans hr)
  · intro k hk
    rcases h.kept k hk with hs | ⟨id, hid⟩
    · exact .inl (hs.mono hext)
    · exact .inr ⟨id, (hcrumb id).trans hid⟩

/-- A block is found, and its breadcrumb written. -/
theorem BooksInv.find (h : BooksInv db g) {k : BlockKey} {n : ℕ}
    (hfate : ∀ b, db'.fateOf b = db.fateOf b)
    (hcrumb : ∀ i, db'.crumbOf i = if i = n then some (k, false) else db.crumbOf i)
    (hn : db.crumbOf n = none) (htext : ∃ bs, k.hash = Text.hexEncode bs)
    (hheight : ∀ k' ∈ g.found, k'.hash = k.hash → k'.height = k.height) :
    BooksInv db' { g with found := g.found ++ [k] } ∧
      Extends db g db' { g with found := g.found ++ [k] } := by
  have hext : Extends db g db' { g with found := g.found ++ [k] } := by
    refine ⟨List.Subset.refl _, le_refl _, fun _ _ => Iff.rfl,
      fun b r hr => ⟨r, (hfate b).trans hr, rfl, id⟩, ?_⟩
    rintro i k' ⟨resolved, hk'⟩
    refine ⟨resolved, ?_⟩
    rw [hcrumb, if_neg, hk']
    rintro rfl
    rw [hn] at hk'
    cases hk'
  have hsame : ∀ k' ∈ g.found, k'.hash = k.hash → k' = k := by
    rintro ⟨height, hash⟩ hk' he
    have hh := hheight _ hk' he
    obtain ⟨height', hash'⟩ := k
    simp only at he hh
    rw [he, hh]
  refine ⟨⟨?_, ?_, ?_, ?_, ?_, ?_, ?_, ?_, ?_⟩, hext⟩
  · intro b r hr
    exact List.mem_append_left _ (h.rowsFound b r ((hfate b).symm.trans hr))
  · intro b b' r r' hr hr'
    exact h.rowsUnique b b' r r' ((hfate b).symm.trans hr) ((hfate b').symm.trans hr')
  · rintro i k' ⟨resolved, hk'⟩
    rw [hcrumb] at hk'
    split at hk'
    · cases hk'
      exact List.mem_append_right _ (List.mem_singleton.2 rfl)
    · exact List.mem_append_left _ (h.crumbsFound i k' ⟨resolved, hk'⟩)
  · intro k₁ h₁ k₂ h₂ he
    rcases List.mem_append.1 h₁ with h₁ | h₁ <;> rcases List.mem_append.1 h₂ with h₂ | h₂
    · exact h.heights k₁ h₁ k₂ h₂ he
    · rw [List.mem_singleton.1 h₂] at he ⊢
      exact hsame k₁ h₁ he
    · rw [List.mem_singleton.1 h₁] at he ⊢
      exact (hsame k₂ h₂ he.symm).symm
    · rw [List.mem_singleton.1 h₁, List.mem_singleton.1 h₂]
  · intro k' hk'
    rcases List.mem_append.1 hk' with hk' | hk'
    · exact h.texts k' hk'
    · rw [List.mem_singleton.1 hk']
      exact htext
  · exact h.deniedOff
  · intro b r hr
    exact h.orphaned b r ((hfate b).symm.trans hr)
  · intro b r hr
    exact h.confirmed b r ((hfate b).symm.trans hr)
  · intro k' hk'
    rcases List.mem_append.1 hk' with hk' | hk'
    · rcases h.kept k' hk' with hs | ⟨id, hid⟩
      · exact .inl (hs.mono hext)
      · refine .inr ⟨id, ?_⟩
        rw [hcrumb, if_neg, hid]
        rintro rfl
        rw [hn] at hid
        cases hid
    · rw [List.mem_singleton.1 hk']
      exact .inr ⟨n, by rw [hcrumb, if_pos rfl]⟩

/-- A breadcrumb may be settled when its block is. -/
theorem BooksInv.resolve (h : BooksInv db g) {n : ℕ} (hfate : ∀ b, db'.fateOf b = db.fateOf b)
    (hcrumb : ∀ i, db'.crumbOf i =
      if i = n then (db.crumbOf i).map (fun c => (c.1, true)) else db.crumbOf i)
    (hsettled : ∀ k, IsCrumb db n k → Settled db g k) :
    BooksInv db' g ∧ Extends db g db' g := by
  have hext : Extends db g db' g := by
    refine ⟨List.Subset.refl _, le_refl _, fun _ _ => Iff.rfl,
      fun b r hr => ⟨r, (hfate b).trans hr, rfl, id⟩, ?_⟩
    rintro i k ⟨resolved, hk⟩
    by_cases hi : i = n
    · exact ⟨true, by rw [hcrumb, if_pos hi, hk]; rfl⟩
    · exact ⟨resolved, by rw [hcrumb, if_neg hi, hk]⟩
  refine ⟨⟨?_, ?_, ?_, h.heights, h.texts, h.deniedOff, ?_, ?_, ?_⟩, hext⟩
  · intro b r hr
    exact h.rowsFound b r ((hfate b).symm.trans hr)
  · intro b b' r r' hr hr'
    exact h.rowsUnique b b' r r' ((hfate b).symm.trans hr) ((hfate b').symm.trans hr')
  · rintro i k ⟨resolved, hk⟩
    rw [hcrumb] at hk
    split at hk
    · obtain ⟨c, hc, he⟩ := Option.map_eq_some_iff.1 hk
      cases he
      exact h.crumbsFound i c.1 ⟨c.2, hc⟩
    · exact h.crumbsFound i k ⟨resolved, hk⟩
  · intro b r hr
    exact h.orphaned b r ((hfate b).symm.trans hr)
  · intro b r hr
    exact h.confirmed b r ((hfate b).symm.trans hr)
  · intro k hk
    rcases h.kept k hk with hs | ⟨i, hi⟩
    · exact .inl (hs.mono hext)
    · by_cases hn : i = n
      · subst hn
        exact .inl ((hsettled k ⟨false, hi⟩).mono hext)
      · exact .inr ⟨i, by rw [hcrumb, if_neg hn, hi]⟩

/-- A row is written for a found block that has none. -/
theorem BooksInv.record (h : BooksInv db g) {n : BlockId} {k : BlockKey}
    (hnone : db.fateOf n = none)
    (hfate : ∀ b, db'.fateOf b = if b = n then some ⟨k, .pending⟩ else db.fateOf b)
    (hcrumb : ∀ i, db'.crumbOf i = db.crumbOf i) (hk : k ∈ g.found)
    (hfree : ∀ b r, db.fateOf b = some r → r.key.hash ≠ k.hash) :
    BooksInv db' g ∧ Extends db g db' g ∧ IsRow db' n k := by
  have hold : ∀ b r, db.fateOf b = some r → db'.fateOf b = some r := by
    intro b r hr
    rw [hfate, if_neg, hr]
    rintro rfl
    rw [hnone] at hr
    cases hr
  have hext : Extends db g db' g :=
    ⟨List.Subset.refl _, le_refl _, fun _ _ => Iff.rfl,
      fun b r hr => ⟨r, hold b r hr, rfl, id⟩,
      fun i k ⟨resolved, hk⟩ => ⟨resolved, (hcrumb i).trans hk⟩⟩
  have hcases : ∀ b r, db'.fateOf b = some r → db.fateOf b = some r ∨ b = n ∧ r = ⟨k, .pending⟩ := by
    intro b r hr
    rw [hfate] at hr
    split at hr
    · rename_i hb
      cases hr
      exact .inr ⟨hb, rfl⟩
    · exact .inl hr
  refine ⟨⟨?_, ?_, ?_, h.heights, h.texts, h.deniedOff, ?_, ?_, ?_⟩, hext,
    ⟨_, by rw [hfate, if_pos rfl], rfl⟩⟩
  · intro b r hr
    rcases hcases b r hr with hr | ⟨-, rfl⟩
    · exact h.rowsFound b r hr
    · exact hk
  · intro b b' r r' hr hr' he
    rcases hcases b r hr with hr | ⟨rfl, rfl⟩ <;> rcases hcases b' r' hr' with hr' | ⟨rfl, rfl⟩
    · exact h.rowsUnique b b' r r' hr hr' he
    · exact absurd he (hfree b r hr)
    · exact absurd he.symm (hfree b' r' hr')
    · rfl
  · rintro i k' ⟨resolved, hk'⟩
    exact h.crumbsFound i k' ⟨resolved, (hcrumb i).symm.trans hk'⟩
  · intro b r hr hstatus
    rcases hcases b r hr with hr | ⟨-, rfl⟩
    · exact h.orphaned b r hr hstatus
    · cases hstatus
  · intro b r hr hstatus
    rcases hcases b r hr with hr | ⟨-, rfl⟩
    · exact h.confirmed b r hr hstatus
    · cases hstatus
  · intro k' hk'
    rcases h.kept k' hk' with hs | ⟨i, hi⟩
    · exact .inl (hs.mono hext)
    · exact .inr ⟨i, (hcrumb i).trans hi⟩

/-- A status other than `pending` is written, for a reason that lasts. -/
theorem BooksInv.flip (h : BooksInv db g) {n : BlockId} {status : BlockStatus}
    (hfate : ∀ b, db'.fateOf b =
      if b = n then (db.fateOf b).map (fun r => { r with status := status }) else db.fateOf b)
    (hcrumb : ∀ i, db'.crumbOf i = db.crumbOf i) (hpending : status ≠ .pending)
    (horphaned : status = .orphaned → ∀ k, IsRow db n k → Gone g k)
    (hconfirmed : status = .confirmed → ∀ k, IsRow db n k → k.height ≤ g.final ∧ g.OnChain k) :
    BooksInv db' g ∧ Extends db g db' g := by
  have hcases : ∀ b r, db'.fateOf b = some r →
      ∃ r₀, db.fateOf b = some r₀ ∧ r.key = r₀.key ∧
        (r.status = r₀.status ∨ b = n ∧ r.status = status) := by
    intro b r hr
    rw [hfate] at hr
    split at hr
    · rename_i hb
      obtain ⟨r₀, hr₀, rfl⟩ := Option.map_eq_some_iff.1 hr
      exact ⟨r₀, hr₀, rfl, .inr ⟨hb, rfl⟩⟩
    · exact ⟨r, hr, rfl, .inl rfl⟩
  have hext : Extends db g db' g := by
    refine ⟨List.Subset.refl _, le_refl _, fun _ _ => Iff.rfl, fun b r hr => ?_,
      fun i k ⟨resolved, hk⟩ => ⟨resolved, (hcrumb i).trans hk⟩⟩
    by_cases hb : b = n
    · exact ⟨{ r with status := status }, by rw [hfate, if_pos hb, hr]; rfl, rfl,
        fun _ => hpending⟩
    · exact ⟨r, by rw [hfate, if_neg hb, hr], rfl, id⟩
  refine ⟨⟨?_, ?_, ?_, h.heights, h.texts, h.deniedOff, ?_, ?_, ?_⟩, hext⟩
  · intro b r hr
    obtain ⟨r₀, hr₀, hkey, -⟩ := hcases b r hr
    rw [hkey]
    exact h.rowsFound b r₀ hr₀
  · intro b b' r r' hr hr' he
    obtain ⟨r₀, hr₀, hkey, -⟩ := hcases b r hr
    obtain ⟨r₁, hr₁, hkey', -⟩ := hcases b' r' hr'
    rw [hkey, hkey'] at he
    exact h.rowsUnique b b' r₀ r₁ hr₀ hr₁ he
  · rintro i k ⟨resolved, hk⟩
    exact h.crumbsFound i k ⟨resolved, (hcrumb i).symm.trans hk⟩
  · intro b r hr hstatus
    obtain ⟨r₀, hr₀, hkey, hs | ⟨rfl, hs⟩⟩ := hcases b r hr
    · rw [hkey]
      exact h.orphaned b r₀ hr₀ (hs.symm.trans hstatus)
    · exact horphaned (hs.symm.trans hstatus) r.key ⟨r₀, hr₀, hkey.symm⟩
  · intro b r hr hstatus
    obtain ⟨r₀, hr₀, hkey, hs | ⟨rfl, hs⟩⟩ := hcases b r hr
    · rw [hkey]
      exact h.confirmed b r₀ hr₀ (hs.symm.trans hstatus)
    · exact hconfirmed (hs.symm.trans hstatus) r.key ⟨r₀, hr₀, hkey.symm⟩
  · intro k hk
    rcases h.kept k hk with hs | ⟨i, hi⟩
    · exact .inl (hs.mono hext)
    · exact .inr ⟨i, (hcrumb i).trans hi⟩

/-- The chronicle goes on while the database stands still. -/
theorem BooksInv.goOn (h : BooksInv db g) (hext : Extends db g db g') (hfound : g'.found = g.found)
    (hdenied : ∀ k ∈ g'.denied, ¬ g'.OnChain k) : BooksInv db g' where
  rowsFound b r hr := hfound ▸ h.rowsFound b r hr
  rowsUnique := h.rowsUnique
  crumbsFound id k hk := hfound ▸ h.crumbsFound id k hk
  heights := hfound ▸ h.heights
  texts := hfound ▸ h.texts
  deniedOff := hdenied
  orphaned b r hr hstatus := (h.orphaned b r hr hstatus).mono hext
  confirmed b r hr hstatus := by
    have hc := h.confirmed b r hr hstatus
    exact ⟨hc.1.trans hext.final, (hext.onChain _ hc.1).2 hc.2⟩
  kept k hk := by
    rcases h.kept k (hfound ▸ hk) with hs | hi
    · exact .inl (hs.mono hext)
    · exact .inr hi

/-- An inclusion check answers `Mismatch`. -/
theorem extends_deny (db : PoolDb) (g : Chronicle) (ks : List BlockKey) :
    Extends db g db { g with denied := g.denied ++ ks } :=
  ⟨List.subset_append_left _ _, le_refl _, fun _ _ => Iff.rfl, fun _ r hr => ⟨r, hr, rfl, id⟩,
    fun _ _ hk => hk⟩

theorem hashAt_reorganise {g : Chronicle} {maturityConfirmations : ℕ} {chain : List (List UInt8)}
    (hlegal : chain.take (g.final + 1).toNat = g.chain.take (g.final + 1).toNat) {height : ℤ}
    (h : height ≤ g.final) :
    (g.reorganise maturityConfirmations chain).hashAt height = g.hashAt height := by
  unfold Chronicle.hashAt Chronicle.reorganise
  simp only
  split
  · have hlt : height.toNat < (g.final + 1).toNat := by omega
    have hget := congrArg (fun l => l[height.toNat]?) hlegal
    simpa only [List.getElem?_take, if_pos hlt] using hget
  · rfl

/-- A reorganisation above what is fixed. -/
theorem extends_reorganise (db : PoolDb) {g : Chronicle} (maturityConfirmations : ℕ)
    {chain : List (List UInt8)}
    (hlegal : chain.take (g.final + 1).toNat = g.chain.take (g.final + 1).toNat) :
    Extends db g db (g.reorganise maturityConfirmations chain) := by
  refine ⟨List.Subset.refl _, le_max_left _ _, fun k hk => ?_, fun _ r hr => ⟨r, hr, rfl, id⟩,
    fun _ _ hk => hk⟩
  unfold Chronicle.OnChain
  rw [hashAt_reorganise hlegal hk]

end Lasting

/-! ## What the processes hold -/

section Held

variable (db : PoolDb) (g : Chronicle)

/-- The breadcrumb, if there is one, is the block's. -/
def CrumbIs (crumb : Option ℕ) (k : BlockKey) : Prop := ∀ id ∈ crumb, IsCrumb db id k

/-- The breadcrumb may be settled. -/
def CrumbSettled (id : ℕ) : Prop := ∃ k, IsCrumb db id k ∧ Settled db g k

def FoundInv : FoundPc → Prop
  | .idle => True
  | .submitting b crumb => b.key ∈ g.found ∧ CrumbIs db crumb b.key
  | .checking b crumb => b.key ∈ g.found ∧ CrumbIs db crumb b.key
  | .rejecting crumb => ∀ id ∈ crumb, CrumbSettled db g id
  | .recording b crumb => b.key ∈ g.found ∧ CrumbIs db crumb b.key
  | .recorded b crumb blockId => CrumbIs db crumb b.key ∧ IsRow db blockId b.key

def TaskInv : TaskPc → Prop
  | .checking b blockId => IsRow db blockId b.key
  | .orphaning blockId => ∃ k, IsRow db blockId k ∧ Gone g k
  | _ => True

/-- The open submissions that are left. -/
def Awaited (rest : List (ℕ × BlockSubmission)) : Prop := ∀ e ∈ rest, IsCrumb db e.1 e.2.key

/-- The blocks of the sweep that are not among the awaited ones are settled. -/
def Covers (cover : Option (List BlockKey)) (awaited : List BlockKey) : Prop :=
  ∀ k ∈ cover.getD [], Settled db g k ∨ k ∈ awaited

def StartupInv (cover : Option (List BlockKey)) : StartupPc → Prop
  | .crumbs rest => Awaited db rest ∧ Covers db g cover (rest.map (·.2.key))
  | .recovering id r rest =>
    IsCrumb db id r.key ∧ Awaited db rest ∧ Covers db g cover (r.key :: rest.map (·.2.key))
  | .settling id _ rest =>
    CrumbSettled db g id ∧ Awaited db rest ∧ Covers db g cover (rest.map (·.2.key))
  | .missing _ => Covers db g cover []
  | .weighing _ _ _ _ => Covers db g cover []
  | .crediting _ _ _ => Covers db g cover []

def PoolInv (cover : Option (List BlockKey)) : PoolPc → Prop
  | .down => True
  | .starting pc => StartupInv db g cover pc
  | .serving found tasks => FoundInv db g found ∧ ∀ t ∈ tasks, TaskInv db g t

/-- The pending blocks that are left. -/
def Listed (rest : List (BlockId × Block)) : Prop := ∀ e ∈ rest, IsRow db e.1 (fate e.2).key

/-- The blocks the check must decide are mature, and decided or still on its list. -/
def Decides (maturityConfirmations : ℕ) (cover : List BlockKey) (count : ℤ) (ids : List BlockId) :
    Prop :=
  ∀ k ∈ cover, maturityConfirmations ≤ count - k.height ∧
    (Decided db g k ∨ ∃ b ∈ ids, IsRow db b k)

/-- What the check holds when `ids` and then `rest` are still to be decided. -/
structure Checking (maturityConfirmations : ℕ) (cover : List BlockKey) (count : ℤ)
    (ids : List BlockId) (rest : List (BlockId × Block)) : Prop where
  final : count - maturityConfirmations ≤ g.final
  listed : Listed db rest
  decides : Decides db g maturityConfirmations cover count (ids ++ rest.map (·.1))

def CheckInv (maturityConfirmations : ℕ) (cover : List BlockKey) : MaturityPc → Prop
  | .idle => True
  | .counted count => count - maturityConfirmations ≤ g.final
  | .blocks count rest => Checking db g maturityConfirmations cover count [] rest ∧
      ∀ e ∈ rest.head?, maturityConfirmations ≤ count - e.2.height
  | .confirming count blockId rest =>
    Checking db g maturityConfirmations cover count [blockId] rest ∧
      ∃ k, IsRow db blockId k ∧ k.height ≤ g.final ∧ g.OnChain k
  | .orphaning count blockId _ rest =>
    Checking db g maturityConfirmations cover count [blockId] rest ∧
      ∃ k, IsRow db blockId k ∧ k.height ≤ g.final ∧ ¬ g.OnChain k
  | .acknowledging count _ rest => Checking db g maturityConfirmations cover count [] rest

end Held

section HeldLasting

variable {db db' : PoolDb} {g g' : Chronicle}

theorem IsRow.unique {b : BlockId} {k k' : BlockKey} (h : IsRow db b k) (h' : IsRow db b k') :
    k = k' := by
  obtain ⟨r, hr, rfl⟩ := h
  obtain ⟨r', hr', rfl⟩ := h'
  rw [hr] at hr'
  cases hr'
  rfl

theorem IsCrumb.unique {id : ℕ} {k k' : BlockKey} (h : IsCrumb db id k) (h' : IsCrumb db id k') :
    k = k' := by
  obtain ⟨resolved, hk⟩ := h
  obtain ⟨resolved', hk'⟩ := h'
  rw [hk] at hk'
  cases hk'
  rfl

theorem CrumbSettled.settled {id : ℕ} (h : CrumbSettled db g id) :
    ∀ k, IsCrumb db id k → Settled db g k := by
  intro k hk
  obtain ⟨k', hk', hs⟩ := h
  exact hk'.unique hk ▸ hs

theorem CrumbSettled.mono {id : ℕ} (hext : Extends db g db' g') (h : CrumbSettled db g id) :
    CrumbSettled db' g' id := by
  obtain ⟨k, hk, hs⟩ := h
  exact ⟨k, hext.crumbs id k hk, hs.mono hext⟩

theorem CrumbIs.mono {crumb : Option ℕ} {k : BlockKey} (hext : Extends db g db' g')
    (h : CrumbIs db crumb k) : CrumbIs db' crumb k :=
  fun id hid => hext.crumbs id k (h id hid)

theorem FoundInv.mono {pc : FoundPc} (hext : Extends db g db' g') (hfound : g.found ⊆ g'.found)
    (h : FoundInv db g pc) : FoundInv db' g' pc := by
  cases pc with
  | idle => trivial
  | submitting b crumb => exact ⟨hfound h.1, h.2.mono hext⟩
  | checking b crumb => exact ⟨hfound h.1, h.2.mono hext⟩
  | rejecting crumb => exact fun id hid => (h id hid).mono hext
  | recording b crumb => exact ⟨hfound h.1, h.2.mono hext⟩
  | recorded b crumb blockId => exact ⟨h.1.mono hext, h.2.mono hext⟩

theorem TaskInv.mono {pc : TaskPc} (hext : Extends db g db' g') (h : TaskInv db g pc) :
    TaskInv db' g' pc := by
  cases pc with
  | checking b blockId => exact IsRow.mono hext h
  | orphaning blockId =>
    obtain ⟨k, hk, hgone⟩ := h
    exact ⟨k, hk.mono hext, hgone.mono hext⟩
  | _ => trivial

theorem Awaited.mono {rest : List (ℕ × BlockSubmission)} (hext : Extends db g db' g')
    (h : Awaited db rest) : Awaited db' rest :=
  fun e he => hext.crumbs _ _ (h e he)

theorem Covers.mono {cover : Option (List BlockKey)} {awaited : List BlockKey}
    (hext : Extends db g db' g') (h : Covers db g cover awaited) : Covers db' g' cover awaited :=
  fun k hk => (h k hk).imp (·.mono hext) id

theorem covers_none (awaited : List BlockKey) : Covers db g none awaited := by
  intro k hk
  cases hk

/-- A block that is settled is awaited no longer. -/
theorem Covers.settle {cover : Option (List BlockKey)} {k : BlockKey} {awaited : List BlockKey}
    (h : Covers db g cover (k :: awaited)) (hk : Settled db g k) : Covers db g cover awaited := by
  intro k' hk'
  rcases h k' hk' with hs | hmem
  · exact .inl hs
  · rcases List.mem_cons.1 hmem with rfl | hmem
    · exact .inl hk
    · exact .inr hmem

theorem StartupInv.mono {cover : Option (List BlockKey)} {pc : StartupPc}
    (hext : Extends db g db' g') (h : StartupInv db g cover pc) : StartupInv db' g' cover pc := by
  cases pc with
  | crumbs rest => exact ⟨h.1.mono hext, h.2.mono hext⟩
  | recovering id r rest => exact ⟨hext.crumbs _ _ h.1, h.2.1.mono hext, h.2.2.mono hext⟩
  | settling id outcome rest => exact ⟨h.1.mono hext, h.2.1.mono hext, h.2.2.mono hext⟩
  | missing rest => exact Covers.mono hext h
  | weighing blockId netReward foundBy rest => exact Covers.mono hext h
  | crediting blockId rewards rest => exact Covers.mono hext h

theorem PoolInv.mono {cover : Option (List BlockKey)} {pc : PoolPc} (hext : Extends db g db' g')
    (hfound : g.found ⊆ g'.found) (h : PoolInv db g cover pc) : PoolInv db' g' cover pc := by
  cases pc with
  | down => trivial
  | starting pc => exact StartupInv.mono hext h
  | serving found tasks => exact ⟨h.1.mono hext hfound, fun t ht => (h.2 t ht).mono hext⟩

theorem Checking.mono {maturityConfirmations : ℕ} {cover : List BlockKey} {count : ℤ}
    {ids : List BlockId} {rest : List (BlockId × Block)} (hext : Extends db g db' g')
    (h : Checking db g maturityConfirmations cover count ids rest) :
    Checking db' g' maturityConfirmations cover count ids rest where
  final := h.final.trans hext.final
  listed e he := (h.listed e he).mono hext
  decides k hk := by
    obtain ⟨hmature, hd | ⟨b, hb, hrow⟩⟩ := h.decides k hk
    · exact ⟨hmature, .inl (hd.mono hext)⟩
    · exact ⟨hmature, .inr ⟨b, hb, hrow.mono hext⟩⟩

theorem CheckInv.mono {maturityConfirmations : ℕ} {cover : List BlockKey} {pc : MaturityPc}
    (hext : Extends db g db' g') (h : CheckInv db g maturityConfirmations cover pc) :
    CheckInv db' g' maturityConfirmations cover pc := by
  cases pc with
  | idle => trivial
  | counted count => exact le_trans h hext.final
  | blocks count rest => exact ⟨h.1.mono hext, h.2⟩
  | confirming count blockId rest =>
    obtain ⟨hc, k, hk, hfinal, hon⟩ := h
    exact ⟨hc.mono hext, k, hk.mono hext, hfinal.trans hext.final, (hext.onChain k hfinal).2 hon⟩
  | orphaning count blockId b rest =>
    obtain ⟨hc, k, hk, hfinal, hoff⟩ := h
    exact ⟨hc.mono hext, k, hk.mono hext, hfinal.trans hext.final,
      fun hon => hoff ((hext.onChain k hfinal).1 hon)⟩
  | acknowledging count blockId rest => exact Checking.mono hext h

/-- The check goes on to the next mature block: those it skips are not among the ones it must
    decide. -/
theorem checkInv_nextMature {cfg : BlockLifeConfig} {cover : List BlockKey} {count : ℤ} :
    ∀ {rest : List (BlockId × Block)},
      Checking db g cfg.maturityConfirmations cover count [] rest →
        CheckInv db g cfg.maturityConfirmations cover (BlockLife.nextMature cfg count rest) ∧
          (BlockLife.nextMature cfg count rest = .idle → ∀ k ∈ cover, Decided db g k)
  | [], h => by
    refine ⟨trivial, fun _ k hk => ?_⟩
    rcases (h.decides k hk).2 with hd | ⟨b, hb, -⟩
    · exact hd
    · cases hb
  | e :: rest, h => by
    unfold BlockLife.nextMature
    split
    · rename_i hyoung
      refine checkInv_nextMature
        ⟨h.final, fun x hx => h.listed x (List.mem_cons_of_mem _ hx), fun k hk => ?_⟩
      obtain ⟨hmature, hd | ⟨b, hb, hrow⟩⟩ := h.decides k hk
      · exact ⟨hmature, .inl hd⟩
      · refine ⟨hmature, .inr ?_⟩
        rcases List.mem_cons.1 hb with rfl | hb
        · have hkey := hrow.unique (h.listed e List.mem_cons_self)
          rw [hkey] at hmature
          simp only [fate] at hmature
          omega
        · exact ⟨b, hb, hrow⟩
    · rename_i hold
      refine ⟨⟨h, fun x hx => ?_⟩, fun hidle => by cases hidle⟩
      cases hx
      exact not_lt.1 hold

end HeldLasting

/-! ## The invariant -/

structure Inv (cfg : BlockLifeConfig) (s : ChainBooks) : Prop where
  books : BooksInv s.life.db s.past
  pool : PoolInv s.life.db s.past s.sweepCover s.life.pool
  check : CheckInv s.life.db s.past cfg.maturityConfirmations s.checkCover s.life.maturity
  swept : ∀ k ∈ s.swept, Settled s.life.db s.past k
  checked : ∀ k ∈ s.checked, Decided s.life.db s.past k
  tip : s.past.tip - cfg.maturityConfirmations ≤ s.past.final

/-- What a step of the pool process must show. -/
structure Goes (s : ChainBooks) (life : BlockLife) (g : Chronicle)
    (cover : Option (List BlockKey)) : Prop where
  books : BooksInv life.db g
  lasts : Extends s.life.db s.past life.db g
  pool : PoolInv life.db g cover life.pool

section PoolSteps

variable {cfg : BlockLifeConfig} {s : ChainBooks}

theorem extends_refl (db : PoolDb) (g : Chronicle) : Extends db g db g :=
  extends_same (fun _ => rfl) (fun _ => rfl)

theorem pastAfter_eq {op : BlockLifeOp} (hfound : s.life.newlyFound op = [])
    (hdenied : s.life.newlyDenied op = []) : s.pastAfter op = s.past := by
  unfold pastAfter
  rw [hfound, hdenied, List.append_nil, List.append_nil]

/-- Only the place where the pool process stands changes. -/
theorem Inv.goes_pool (h : Inv cfg s) {pool : PoolPc} {cover : Option (List BlockKey)}
    (hpool : PoolInv s.life.db s.past cover pool) :
    Goes s { s.life with pool := pool } s.past cover :=
  ⟨h.books, extends_refl _ _, hpool⟩

theorem Inv.goes_stay (h : Inv cfg s) : Goes s s.life s.past s.sweepCover :=
  ⟨h.books, extends_refl _ _, h.pool⟩

theorem crumbOf_congr {db db' : PoolDb} (h : db'.blockSubmissions = db.blockSubmissions) (i : ℕ) :
    db'.crumbOf i = db.crumbOf i := by
  unfold PoolDb.crumbOf
  rw [h]

/-! ### The submit path -/

theorem Inv.found (h : Inv cfg s) {found : FoundPc} {tasks : List TaskPc}
    (hpool : s.life.pool = .serving found tasks) :
    FoundInv s.life.db s.past found ∧ ∀ t ∈ tasks, TaskInv s.life.db s.past t := by
  have hp := h.pool
  rw [hpool] at hp
  exact hp

theorem goes_find (h : Inv cfg s) {b : WonBlock} {crumbWritten : Bool}
    (hwell : s.WellFound (.find b crumbWritten)) :
    Goes s (s.life.find b crumbWritten) (s.pastAfter (.find b crumbWritten)) s.sweepCover := by
  unfold BlockLife.find
  split
  · rename_i tasks hpool
    obtain ⟨hcrumb, htext, hheight⟩ := hwell
    have hpast : s.pastAfter (.find b crumbWritten)
        = { s.past with found := s.past.found ++ [b.key] } := by
      simp only [pastAfter, BlockLife.newlyFound, BlockLife.newlyDenied, BlockLife.inclusionAsked,
        hpool, List.append_nil]
    have hhex : ∃ bs, b.key.hash = Text.hexEncode bs := by
      obtain ⟨bs, -, hbs⟩ := Option.map_eq_some_iff.1 htext
      exact ⟨bs, hbs.symm⟩
    have hnew := crumbOf_recordBlockSubmission s.life.db b.height b.hash b.workerId b.reward
      b.actualReward
    have hnone : s.life.db.crumbOf s.life.db.blockSubmissions.next = none := by
      simp [PoolDb.crumbOf]
    have hfate : ∀ i, (s.life.db.recordBlockSubmission b.height b.hash b.workerId b.reward
        b.actualReward).2.fateOf i = s.life.db.fateOf i := fun _ => rfl
    obtain ⟨hbooks, hext⟩ := h.books.find (k := b.key) hfate hnew hnone hhex hheight
    rw [hpast, if_pos hcrumb]
    refine ⟨hbooks, hext, ⟨List.mem_append_right _ (List.mem_singleton.2 rfl), ?_⟩,
      fun t ht => ((h.found hpool).2 t ht).mono hext⟩
    intro id hid
    cases hid
    exact ⟨false, (hnew _).trans (if_pos rfl)⟩
  · rename_i hne
    rw [pastAfter_eq _ rfl]
    · exact h.goes_stay
    · simp only [BlockLife.newlyFound]

theorem goes_submitted (h : Inv cfg s) (accepted : Bool) :
    Goes s (s.life.submitted accepted) s.past s.sweepCover := by
  unfold BlockLife.submitted
  split
  · rename_i b crumb tasks hpool
    have hp := h.found hpool
    apply h.goes_pool
    cases accepted
    · exact hp
    · exact hp
  · exact h.goes_stay

/-- The block an inclusion check is about was found. -/
theorem mem_found_of_asked (h : Inv cfg s) {op : BlockLifeOp} {k : BlockKey}
    {answer : Option String} (hasked : s.life.inclusionAsked op = some (k, answer)) :
    k ∈ s.past.found := by
  unfold BlockLife.inclusionAsked at hasked
  split at hasked
  · split at hasked
    · rename_i b crumb tasks hpool
      cases hasked
      exact (h.found hpool).1.1
    · cases hasked
  · split at hasked
    · rename_i i b blockId htask
      cases hasked
      unfold BlockLife.task? at htask
      split at htask
      · rename_i found tasks hpool
        obtain ⟨r, hr, hkey⟩ := (h.found hpool).2 _ (List.mem_of_getElem? htask)
        exact hkey ▸ h.books.rowsFound _ r hr
      · cases htask
    · cases hasked
  · split at hasked
    · rename_i id c rest hpool
      cases hasked
      have hp := h.pool
      rw [hpool] at hp
      exact h.books.crumbsFound id _ (hp.1 _ List.mem_cons_self)
    · cases hasked
  · cases hasked

/-- **Inclusion checks.**  Whatever the node answers, the chronicle stays sound, and a block that
    is denied is gone. -/
theorem goes_asked (h : Inv cfg s) (op : BlockLifeOp) (hfound : s.life.newlyFound op = [])
    (htruth : s.Truthful op) (hmaturity : ∀ answer, op ≠ .askedHash answer) :
    BooksInv s.life.db (s.pastAfter op) ∧
      Extends s.life.db s.past s.life.db (s.pastAfter op) ∧
      ∀ k answer, s.life.inclusionAsked op = some (k, answer) →
        verifyBlockInclusion answer k.hash = .mismatch → Gone (s.pastAfter op) k := by
  have hext : Extends s.life.db s.past s.life.db (s.pastAfter op) := by
    unfold pastAfter
    rw [hfound, List.append_nil]
    exact extends_deny _ _ _
  have hnew : ∀ k ∈ s.life.newlyDenied op, ¬ s.past.OnChain k := by
    intro k hk
    unfold BlockLife.newlyDenied at hk
    split at hk
    · rename_i k' answer hasked
      split at hk
      · rename_i hmismatch
        rw [List.mem_singleton.1 hk]
        refine Chronicle.not_onChain_of_mismatch ?_
          (h.books.texts k' (mem_found_of_asked h hasked)) hmismatch
        refine htruth.1 (k'.height, answer) ?_
        unfold BlockLife.hashAsked
        split
        · exact absurd rfl (hmaturity _)
        · rw [hasked]
          rfl
      · cases hk
    · cases hk
  refine ⟨h.books.goOn hext ?_ ?_, hext, fun k answer hasked hmismatch => .inl ?_⟩
  · unfold pastAfter
    rw [hfound, List.append_nil]
  · intro k hk
    rcases List.mem_append.1 hk with hk | hk
    · exact h.books.deniedOff k hk
    · exact hnew k hk
  · apply List.mem_append_right
    unfold BlockLife.newlyDenied
    rw [hasked]
    simp only [hmismatch, if_true, List.mem_singleton]

theorem goes_foundChecked (h : Inv cfg s) {answer : Option String}
    (htruth : s.Truthful (.foundChecked answer)) :
    Goes s (s.life.foundChecked answer) (s.pastAfter (.foundChecked answer)) s.sweepCover := by
  obtain ⟨hbooks, hext, hgone⟩ := goes_asked h (.foundChecked answer) rfl htruth
    (fun _ he => by cases he)
  have hsub : s.past.found ⊆ (s.pastAfter (.foundChecked answer)).found :=
    List.subset_append_left _ _
  have hstay := h.pool.mono hext hsub
  unfold BlockLife.foundChecked
  split
  · rename_i b crumb tasks hpool
    rw [hpool] at hstay
    obtain ⟨⟨hfound, hcrumb⟩, htasks⟩ := hstay
    split
    · rename_i hmismatch
      refine ⟨hbooks, hext, fun id hid => ⟨b.key, hcrumb id hid, .inr ?_⟩, htasks⟩
      refine hgone b.key answer ?_ hmismatch
      simp only [BlockLife.inclusionAsked, hpool]
    · exact ⟨hbooks, hext, trivial, htasks⟩
    · exact ⟨hbooks, hext, ⟨hfound, hcrumb⟩, htasks⟩
  · exact ⟨hbooks, hext, hstay⟩

theorem books_resolve {db : PoolDb} {g : Chronicle} (h : BooksInv db g) {crumb : Option ℕ}
    (hcrumb : ∀ id ∈ crumb, CrumbSettled db g id) (outcome : String) :
    BooksInv (BlockLife.resolve db crumb outcome) g ∧
      Extends db g (BlockLife.resolve db crumb outcome) g := by
  cases crumb with
  | none => exact ⟨h, extends_refl db g⟩
  | some id =>
    exact h.resolve (fun _ => rfl) (crumbOf_resolveBlockSubmission db id outcome)
      (hcrumb id rfl).settled

/-- The row of a found block is written. -/
theorem books_record {db db' : PoolDb} {g : Chronicle} (h : BooksInv db g) {k : BlockKey}
    (hk : k ∈ g.found) {reward : ℤ} {actualReward : Option ℤ} {workerId : WorkerId}
    {luckPercent : Option ℚ} {blockId : BlockId}
    (hrec : db.recordBlock k.height k.hash reward actualReward workerId luckPercent
      = .ok (blockId, db')) :
    BooksInv db' g ∧ Extends db g db' g ∧ IsRow db' blockId k := by
  obtain ⟨hnone, -, hcrumbs, hfate, hfree⟩ := fateOf_recordBlock hrec
  exact h.record hnone hfate (crumbOf_congr hcrumbs) hk hfree

theorem goes_foundDb (h : Inv cfg s) : Goes s s.life.foundDb s.past s.sweepCover := by
  unfold BlockLife.foundDb
  split
  · rename_i crumb tasks hpool
    obtain ⟨hcrumb, htasks⟩ := h.found hpool
    obtain ⟨hbooks, hext⟩ := books_resolve h.books hcrumb "rejected"
    exact ⟨hbooks, hext, trivial, fun t ht => (htasks t ht).mono hext⟩
  · rename_i b crumb tasks hpool
    obtain ⟨⟨hfound, hcrumb⟩, htasks⟩ := h.found hpool
    split
    · rename_i blockId db hrec
      obtain ⟨hbooks, hext, hrow⟩ := books_record (k := b.key) h.books hfound hrec
      exact ⟨hbooks, hext, ⟨hcrumb.mono hext, hrow⟩, fun t ht => (htasks t ht).mono hext⟩
    · exact h.goes_pool ⟨trivial, htasks⟩
  · rename_i b crumb blockId tasks hpool
    obtain ⟨⟨hcrumb, hrow⟩, htasks⟩ := h.found hpool
    obtain ⟨hbooks, hext⟩ := books_resolve h.books
      (fun id hid => ⟨b.key, hcrumb id hid, .inl ⟨blockId, hrow⟩⟩) "recorded"
    refine ⟨hbooks, hext, trivial, fun t ht => ?_⟩
    rcases List.mem_append.1 ht with ht | ht
    · exact (htasks t ht).mono hext
    · rw [List.mem_singleton.1 ht]
      exact hrow.mono hext
  · exact h.goes_stay

theorem goes_foundFailed (h : Inv cfg s) : Goes s s.life.foundFailed s.past s.sweepCover := by
  unfold BlockLife.foundFailed
  split
  · rename_i crumb tasks hpool
    exact h.goes_pool ⟨trivial, (h.found hpool).2⟩
  · rename_i b crumb tasks hpool
    exact h.goes_pool ⟨trivial, (h.found hpool).2⟩
  · rename_i b crumb blockId tasks hpool
    obtain ⟨⟨-, hrow⟩, htasks⟩ := h.found hpool
    refine h.goes_pool ⟨trivial, fun t ht => ?_⟩
    rcases List.mem_append.1 ht with ht | ht
    · exact htasks t ht
    · rw [List.mem_singleton.1 ht]
      exact hrow
  · exact h.goes_stay

/-! ### The task -/

/-- One task goes on; the others keep what they hold. -/
theorem poolInv_set {db : PoolDb} {g : Chronicle} {cover : Option (List BlockKey)}
    {found : FoundPc} {tasks : List TaskPc} {i : ℕ} (pc : TaskPc)
    (h : PoolInv db g cover (.serving found tasks)) (hpc : TaskInv db g pc) :
    PoolInv db g cover (.serving found (tasks.set i pc)) := by
  refine ⟨h.1, fun t ht => ?_⟩
  rcases List.mem_or_eq_of_mem_set ht with ht | rfl
  · exact h.2 t ht
  · exact hpc

theorem Inv.task (h : Inv cfg s) {found : FoundPc} {tasks : List TaskPc} {i : ℕ} {pc : TaskPc}
    (hpool : s.life.pool = .serving found tasks) (htask : tasks[i]? = some pc) :
    TaskInv s.life.db s.past pc := (h.found hpool).2 pc (List.mem_of_getElem? htask)

/-- A task goes on while the database and the chronicle stand still. -/
theorem Inv.goes_set (h : Inv cfg s) {found : FoundPc} {tasks : List TaskPc} {i : ℕ} {pc : TaskPc}
    (hpool : s.life.pool = .serving found tasks) (hpc : TaskInv s.life.db s.past pc) :
    Goes s (s.life.setTask found tasks i pc) s.past s.sweepCover :=
  h.goes_pool (poolInv_set pc (hpool ▸ h.pool) hpc)

theorem goes_taskChecked (h : Inv cfg s) {i : ℕ} {answer : Option String}
    (htruth : s.Truthful (.taskChecked i answer)) :
    Goes s (s.life.taskChecked i answer) (s.pastAfter (.taskChecked i answer)) s.sweepCover := by
  obtain ⟨hbooks, hext, hgone⟩ := goes_asked h (.taskChecked i answer) rfl htruth
    (fun _ he => by cases he)
  have hsub : s.past.found ⊆ (s.pastAfter (.taskChecked i answer)).found :=
    List.subset_append_left _ _
  have hstay := h.pool.mono hext hsub
  unfold BlockLife.taskChecked
  split
  · rename_i found tasks hpool
    rw [hpool] at hstay
    split
    · rename_i b blockId htask
      have hrow : IsRow s.life.db blockId b.key := h.task hpool htask
      split
      · rename_i hmismatch
        refine ⟨hbooks, hext, poolInv_set (.orphaning blockId) hstay ⟨b.key, hrow, ?_⟩⟩
        refine hgone b.key answer ?_ hmismatch
        simp only [BlockLife.inclusionAsked, BlockLife.task?, hpool, htask]
      · exact ⟨hbooks, hext, poolInv_set (.computing b blockId) hstay trivial⟩
    · refine ⟨hbooks, hext, ?_⟩
      rw [hpool]
      exact hstay
  · exact ⟨hbooks, hext, hstay⟩

/-- A step that leaves every row and every breadcrumb as it is. -/
theorem Inv.goes_same (h : Inv cfg s) {db : PoolDb} {pool : PoolPc}
    {cover : Option (List BlockKey)} (hfate : ∀ b, db.fateOf b = s.life.db.fateOf b)
    (hcrumb : db.blockSubmissions = s.life.db.blockSubmissions)
    (hpool : PoolInv s.life.db s.past cover pool) :
    Goes s { s.life with db := db, pool := pool } s.past cover := by
  have hext : Extends s.life.db s.past db s.past := extends_same hfate (crumbOf_congr hcrumb)
  exact ⟨h.books.same hfate (crumbOf_congr hcrumb), hext,
    hpool.mono hext (List.Subset.refl _)⟩

theorem goes_taskLuck (h : Inv cfg s) (i : ℕ) (luckPercent : Option ℚ) :
    Goes s (s.life.taskLuck i luckPercent) s.past s.sweepCover := by
  unfold BlockLife.taskLuck
  split
  · rename_i found tasks hpool
    split
    · rename_i b blockId htask
      refine h.goes_same (fun x => ?_) ?_ (poolInv_set (.taking b blockId) (hpool ▸ h.pool) trivial)
      · cases luckPercent with
        | none => rfl
        | some luck => exact fateOf_updateBlockLuck _ _ _ x
      · cases luckPercent <;> rfl
    · exact h.goes_stay
  · exact h.goes_stay

theorem blockSubmissions_takeCostsForBlock (db : PoolDb) (i : BlockId) (cap : ℤ) :
    (db.takeCostsForBlock i cap).2.blockSubmissions = db.blockSubmissions := by
  rw [(takeCostsForBlock_spec db i cap).2]

/-- Credits are neither rows of `blocks` nor breadcrumbs. -/
theorem credit_frame (db : PoolDb) (i : BlockId) (rs : List PplnsReward) :
    (∀ b, (BlockLife.credit db i rs).fateOf b = db.fateOf b) ∧
      (BlockLife.credit db i rs).blockSubmissions = db.blockSubmissions := by
  unfold BlockLife.credit PplnsCalculator.commit
  by_cases hnil : PplnsCalculator.credits rs = []
  · rw [if_pos hnil]
    exact ⟨fun _ => rfl, rfl⟩
  · rw [if_neg hnil]
    cases hd : distributeBlockCredits i db (PplnsCalculator.credits rs) with
    | error e => exact ⟨fun _ => rfl, rfl⟩
    | ok db' =>
      obtain ⟨bal, cr, rfl, -⟩ := distributeBlockCredits_spec hd
      exact ⟨fun _ => rfl, rfl⟩

theorem goes_taskDb (h : Inv cfg s) (i : ℕ) :
    Goes s (BlockLife.taskDb cfg.pplns s.life i) s.past s.sweepCover := by
  unfold BlockLife.taskDb
  split
  · rename_i found tasks hpool
    have hp : PoolInv s.life.db s.past s.sweepCover (.serving found tasks) := hpool ▸ h.pool
    split
    · rename_i blockId htask
      obtain ⟨k, hrow, hgone⟩ := h.task hpool htask
      obtain ⟨hbooks, hext⟩ := h.books.flip
        (fateOf_updateBlockStatus s.life.db blockId .orphaned) (fun _ => rfl) (by decide)
        (fun _ k' hk' => hk'.unique hrow ▸ hgone) (fun he => by cases he)
      exact ⟨hbooks, hext, (poolInv_set .done hp trivial).mono hext (List.Subset.refl _)⟩
    · rename_i b blockId htask
      exact h.goes_same (fateOf_takeCostsForBlock s.life.db blockId _)
        (blockSubmissions_takeCostsForBlock s.life.db blockId _)
        (poolInv_set (.weighing b blockId _) hp trivial)
    · rename_i b blockId netReward htask
      split
      · exact h.goes_set hpool trivial
      · exact h.goes_set hpool trivial
    · rename_i blockId rewards htask
      have hframe := credit_frame s.life.db blockId rewards
      exact h.goes_same hframe.1 hframe.2 (poolInv_set .done hp trivial)
    · exact h.goes_stay
  · exact h.goes_stay

theorem goes_taskFailed (h : Inv cfg s) (i : ℕ) :
    Goes s (s.life.taskFailed i) s.past s.sweepCover := by
  unfold BlockLife.taskFailed
  split
  · rename_i found tasks hpool
    split
    · exact h.goes_set hpool trivial
    · exact h.goes_set hpool trivial
    · exact h.goes_set hpool trivial
    · exact h.goes_set hpool trivial
    · exact h.goes_stay
  · exact h.goes_stay

/-! ### The startup sweep -/

/-- A sweep that has missed something covers nothing. -/
theorem StartupInv.uncovered {db : PoolDb} {g : Chronicle} {cover : Option (List BlockKey)}
    {pc : StartupPc} (h : StartupInv db g cover pc) : StartupInv db g none pc := by
  cases pc with
  | crumbs rest => exact ⟨h.1, covers_none _⟩
  | recovering id r rest => exact ⟨h.1, h.2.1, covers_none _⟩
  | settling id outcome rest => exact ⟨h.1, h.2.1, covers_none _⟩
  | missing rest => exact covers_none _
  | weighing blockId netReward foundBy rest => exact covers_none _
  | crediting blockId rewards rest => exact covers_none _

theorem PoolInv.uncovered {db : PoolDb} {g : Chronicle} {cover : Option (List BlockKey)}
    {pc : PoolPc} (h : PoolInv db g cover pc) : PoolInv db g none pc := by
  cases pc with
  | down => trivial
  | starting pc => exact StartupInv.uncovered h
  | serving found tasks => exact h

/-- But for the start, the sweep keeps its cover or loses it. -/
theorem sweepCoverAfter_cases {op : BlockLifeOp} (hop : op ≠ .start) :
    s.sweepCoverAfter cfg op = s.sweepCover ∨ s.sweepCoverAfter cfg op = none := by
  unfold sweepCoverAfter
  split
  · exact .inr rfl
  · split
    · exact absurd rfl hop
    · exact .inl rfl

theorem Goes.cover {life : BlockLife} {g : Chronicle} {op : BlockLifeOp} (hop : op ≠ .start)
    (h : Goes s life g s.sweepCover) : Goes s life g (s.sweepCoverAfter cfg op) := by
  rcases @sweepCoverAfter_cases cfg s op hop with hc | hc
  · rw [hc]
    exact h
  · rw [hc]
    exact ⟨h.books, h.lasts, h.pool.uncovered⟩

theorem goes_startSweep (h : Inv cfg s) :
    Goes s s.life.startSweep s.past (s.sweepCoverAfter cfg .start) := by
  unfold BlockLife.startSweep
  split
  · rename_i hpool
    have hcover : s.sweepCoverAfter cfg .start
        = some (s.past.found.filter (fun k => decide (k.height ≤ s.past.final))) := by
      simp only [sweepCoverAfter, BlockLife.sweepMisses, hpool, Bool.false_eq_true, if_false]
    rw [hcover]
    refine h.goes_pool ⟨fun e he => ?_, fun k hk => ?_⟩
    · refine ⟨e.2.resolved, ?_⟩
      rw [PoolDb.crumbOf, (mem_getOpenBlockSubmissions.1 he).1]
      rfl
    · have hfound : k ∈ s.past.found := (List.mem_filter.1 hk).1
      rcases h.books.kept k hfound with hs | ⟨id, hid⟩
      · exact .inl hs
      · obtain ⟨c, hc, hkey⟩ := Option.map_eq_some_iff.1 hid
        have hopen : (id, c) ∈ s.life.db.getOpenBlockSubmissions :=
          mem_getOpenBlockSubmissions.2 ⟨hc, congrArg Prod.snd hkey⟩
        have hck : c.key = k := congrArg Prod.fst hkey
        exact .inr (hck ▸ List.mem_map_of_mem hopen)
  · rename_i hne
    have hcover : s.sweepCoverAfter cfg .start = s.sweepCover := by
      simp only [sweepCoverAfter, BlockLife.sweepMisses, Bool.false_eq_true, if_false]
      split
      · rename_i hdown
        exact absurd hdown hne
      · rfl
    rw [hcover]
    exact h.goes_stay

theorem Inv.startup (h : Inv cfg s) {pc : StartupPc} (hpool : s.life.pool = .starting pc) :
    StartupInv s.life.db s.past s.sweepCover pc := by
  have hp := h.pool
  rw [hpool] at hp
  exact hp

theorem goes_sweepChecked (h : Inv cfg s) {answer : Option String}
    (htruth : s.Truthful (.sweepChecked answer)) :
    Goes s (s.life.sweepChecked answer) (s.pastAfter (.sweepChecked answer))
      (s.sweepCoverAfter cfg (.sweepChecked answer)) := by
  obtain ⟨hbooks, hext, hgone⟩ := goes_asked h (.sweepChecked answer) rfl htruth
    (fun _ he => by cases he)
  have hsub : s.past.found ⊆ (s.pastAfter (.sweepChecked answer)).found :=
    List.subset_append_left _ _
  have hstay := h.pool.mono hext hsub
  have hop : BlockLifeOp.sweepChecked answer ≠ .start := fun he => by cases he
  unfold BlockLife.sweepChecked
  split
  · rename_i id r rest hpool
    rw [hpool] at hstay
    obtain ⟨hawaited, hcovers⟩ := hstay
    have hcrumb := hawaited (id, r) List.mem_cons_self
    have hrest : Awaited s.life.db rest := fun e he => hawaited e (List.mem_cons_of_mem _ he)
    split
    · exact Goes.cover hop ⟨hbooks, hext, hcrumb, hrest, hcovers⟩
    · rename_i hmismatch
      have hs : Settled s.life.db (s.pastAfter (.sweepChecked answer)) r.key := by
        refine .inr (hgone r.key answer ?_ hmismatch)
        simp only [BlockLife.inclusionAsked, hpool]
      exact Goes.cover hop ⟨hbooks, hext, ⟨r.key, hcrumb, hs⟩, hrest, hcovers.settle hs⟩
    · rename_i hunknown
      have hcover : s.sweepCoverAfter cfg (.sweepChecked answer) = none := by
        simp only [sweepCoverAfter, BlockLife.sweepMisses, hpool, hunknown, decide_true, if_true]
      rw [hcover]
      exact ⟨hbooks, hext, hrest, covers_none _⟩
  · exact Goes.cover hop ⟨hbooks, hext, hstay⟩

/-- The row that a lookup by hash finds is the block's. -/
theorem isRow_of_getBlockIdByHash {db : PoolDb} {g : Chronicle} (h : BooksInv db g) {k : BlockKey}
    (hk : k ∈ g.found) (hrow : (db.getBlockIdByHash k.hash).isSome = true) : ∃ b, IsRow db b k := by
  unfold getBlockIdByHash at hrow
  rw [Option.isSome_map] at hrow
  obtain ⟨e, he⟩ := Option.isSome_iff_exists.1 hrow
  have hmem : e ∈ db.blocks.rows := List.mem_of_find?_eq_some he
  have hhash : e.2.hash = k.hash := by simpa using List.find?_some he
  have hfate : db.fateOf e.1 = some (fate e.2) := by
    have hget : db.blocks.get? e.1 = some e.2 :=
      (Table.Keyed.get?_eq_some_iff (t := db.blocks.keyed) (k := e.1) (r := e.2)).2 hmem
    rw [fateOf, hget]
    rfl
  exact ⟨e.1, fate e.2, hfate, h.heights _ (h.rowsFound _ _ hfate) k hk hhash⟩

theorem goes_sweepDb (h : Inv cfg s) :
    Goes s (BlockLife.sweepDb cfg.pplns s.life) s.past (s.sweepCoverAfter cfg .sweepDb) := by
  have hop : BlockLifeOp.sweepDb ≠ .start := fun he => by cases he
  have hmiss : s.life.sweepMisses cfg.pplns .sweepDb = true →
      s.sweepCoverAfter cfg .sweepDb = none := by
    intro hm
    unfold sweepCoverAfter
    rw [if_pos hm]
  unfold BlockLife.sweepDb
  split
  · rename_i hpool
    exact Goes.cover hop (h.goes_pool (h.startup hpool).2)
  · rename_i id r rest hpool
    obtain ⟨hcrumb, hrest, hcovers⟩ := h.startup hpool
    have hfound : r.key ∈ s.past.found := h.books.crumbsFound id r.key hcrumb
    split
    · rename_i hlookup
      have hs : Settled s.life.db s.past r.key :=
        .inl (isRow_of_getBlockIdByHash h.books hfound hlookup)
      exact Goes.cover hop (h.goes_pool ⟨⟨r.key, hcrumb, hs⟩, hrest, hcovers.settle hs⟩)
    · rename_i hlookup
      split
      · rename_i blockId db hrec
        obtain ⟨hbooks, hext, hrow⟩ := books_record (k := r.key) h.books hfound hrec
        have hs : Settled db s.past r.key := .inl ⟨blockId, hrow⟩
        exact Goes.cover hop ⟨hbooks, hext, ⟨r.key, hext.crumbs _ _ hcrumb, hs⟩,
          hrest.mono hext, (hcovers.mono hext).settle hs⟩
      · rename_i e hrec
        have hcover : s.sweepCoverAfter cfg .sweepDb = none := by
          apply hmiss
          simp only [BlockLife.sweepMisses, BlockLife.sweepDb, hpool, hrec]
          rw [if_neg hlookup]
        rw [hcover]
        exact h.goes_pool ⟨hrest, covers_none _⟩
  · rename_i id outcome rest hpool
    obtain ⟨hcrumb, hrest, hcovers⟩ := h.startup hpool
    have hone : ∀ i ∈ some id, CrumbSettled s.life.db s.past i := by
      intro i hi
      cases hi
      exact hcrumb
    obtain ⟨hbooks, hext⟩ := books_resolve h.books hone outcome
    exact Goes.cover hop ⟨hbooks, hext, hrest.mono hext, hcovers.mono hext⟩
  · rename_i hpool
    exact Goes.cover hop (h.goes_pool ⟨trivial, fun _ ht => absurd ht List.not_mem_nil⟩)
  · rename_i blockId height basis foundBy rest hpool
    exact Goes.cover hop (h.goes_same (fateOf_takeCostsForBlock s.life.db blockId _)
      (blockSubmissions_takeCostsForBlock s.life.db blockId _) (h.startup hpool))
  · rename_i blockId netReward foundBy rest hpool
    have hcovers : Covers s.life.db s.past s.sweepCover [] := h.startup hpool
    split
    · exact Goes.cover hop (h.goes_pool hcovers)
    · exact Goes.cover hop (h.goes_pool hcovers)
  · rename_i blockId rewards rest hpool
    have hframe := credit_frame s.life.db blockId rewards
    exact Goes.cover hop (h.goes_same hframe.1 hframe.2 (h.startup hpool))
  · exact Goes.cover hop h.goes_stay

theorem goes_sweepFailed (h : Inv cfg s) : Goes s s.life.sweepFailed s.past none := by
  unfold BlockLife.sweepFailed
  split
  · exact h.goes_pool ⟨fun _ he => absurd he List.not_mem_nil, covers_none _⟩
  · exact h.goes_pool ⟨trivial, fun _ ht => absurd ht List.not_mem_nil⟩
  · rename_i id r rest hpool
    exact h.goes_pool ⟨(h.startup hpool).2.1, covers_none _⟩
  · rename_i id outcome rest hpool
    exact h.goes_pool ⟨(h.startup hpool).2.1, covers_none _⟩
  · exact h.goes_pool (covers_none _)
  · exact h.goes_pool (covers_none _)
  · exact h.goes_pool (covers_none _)
  · exact ⟨h.books, extends_refl _ _, h.pool.uncovered⟩

end PoolSteps

/-! ### The maturity check -/

/-- What a step of the dashboard must show. -/
structure Checks (cfg : BlockLifeConfig) (s : ChainBooks) (life : BlockLife)
    (cover : List BlockKey) : Prop where
  books : BooksInv life.db s.past
  lasts : Extends s.life.db s.past life.db s.past
  pool : life.pool = s.life.pool
  check : CheckInv life.db s.past cfg.maturityConfirmations cover life.maturity

section CheckSteps

variable {cfg : BlockLifeConfig} {s : ChainBooks}

/-- Only the place where the check stands changes. -/
theorem Inv.checks (h : Inv cfg s) {maturity : MaturityPc} {cover : List BlockKey}
    (hcheck : CheckInv s.life.db s.past cfg.maturityConfirmations cover maturity) :
    Checks cfg s { s.life with maturity := maturity } cover :=
  ⟨h.books, extends_refl _ _, rfl, hcheck⟩

theorem Inv.checks_stay (h : Inv cfg s) : Checks cfg s s.life s.checkCover :=
  ⟨h.books, extends_refl _ _, rfl, h.check⟩

theorem Inv.checking (h : Inv cfg s) {pc : MaturityPc} (hpc : s.life.maturity = pc) :
    CheckInv s.life.db s.past cfg.maturityConfirmations s.checkCover pc := hpc ▸ h.check

theorem checks_counted (h : Inv cfg s) {answer : Option ℤ} (htruth : s.Truthful (.counted answer)) :
    Checks cfg s (s.life.counted answer) s.checkCover := by
  unfold BlockLife.counted
  split
  · rename_i count hpc
    apply h.checks
    have hcount : count = s.past.tip := htruth.2 count rfl
    rw [hcount]
    exact h.tip
  · exact h.checks_stay

/-- **The maturity check decides by a chain that can no longer change.** -/
theorem checks_askedHash (h : Inv cfg s) {answer : Option String}
    (htruth : s.Truthful (.askedHash answer)) :
    Checks cfg s (s.life.askedHash answer) s.checkCover := by
  unfold BlockLife.askedHash
  split
  · rename_i count blockId b rest hpc
    obtain ⟨hchecking, hmature⟩ := h.checking hpc
    split
    · exact h.checks trivial
    · rename_i chainHash
      have hrow : IsRow s.life.db blockId (fate b).key :=
        hchecking.listed (blockId, b) List.mem_cons_self
      have hfinal : (fate b).key.height ≤ s.past.final := by
        have hconfs := hmature (blockId, b) rfl
        have hcount := hchecking.final
        simp only [fate] at hconfs ⊢
        omega
      have hasked : (b.height, some chainHash) ∈ s.life.hashAsked (.askedHash (some chainHash)) := by
        simp only [BlockLife.hashAsked, hpc, Option.mem_some_iff]
      have hnode := htruth.1 _ hasked
      obtain ⟨r, hr, hkey⟩ := hrow
      have htext := h.books.texts _ (h.books.rowsFound blockId r hr)
      rw [hkey] at htext
      have hiff := Chronicle.maturityMatches_iff (k := (fate b).key) hnode htext
      have hnext : Checking s.life.db s.past cfg.maturityConfirmations s.checkCover count
          [blockId] rest :=
        ⟨hchecking.final, fun e he => hchecking.listed e (List.mem_cons_of_mem _ he),
          hchecking.decides⟩
      split
      · rename_i hmatch
        exact h.checks ⟨hnext, (fate b).key, ⟨r, hr, hkey⟩, hfinal, hiff.1 hmatch⟩
      · rename_i hmatch
        exact h.checks ⟨hnext, (fate b).key, ⟨r, hr, hkey⟩, hfinal, fun hon => hmatch (hiff.2 hon)⟩
  · exact h.checks_stay

/-- What a check has to decide when it has just listed the pending blocks. -/
theorem checking_listed (h : Inv cfg s) {count : ℤ} (hpc : s.life.maturity = .counted count) :
    Checking s.life.db s.past cfg.maturityConfirmations (s.checkCoverAfter cfg .maturityDb) count []
      s.life.db.getPendingBlocks := by
  refine ⟨h.checking hpc, fun e he => ?_, fun k hk => ?_⟩
  · refine ⟨fate e.2, ?_, rfl⟩
    rw [fateOf, (mem_getPendingBlocks.1 he).1]
    rfl
  · simp only [checkCoverAfter, hpc, List.mem_filter, Bool.and_eq_true, Bool.or_eq_true,
      decide_eq_true_eq] at hk
    obtain ⟨hfound, hmature, hready⟩ := hk
    refine ⟨hmature, ?_⟩
    have hsettled : Settled s.life.db s.past k := by
      rcases hready with hrow | hswept
      · exact .inl (isRow_of_getBlockIdByHash h.books hfound hrow)
      · exact h.swept k hswept
    rcases hsettled with ⟨b, r, hr, hkey⟩ | hgone
    · by_cases hpending : r.status = .pending
      · obtain ⟨x, hx, rfl⟩ := Option.map_eq_some_iff.1 hr
        have hmem : (b, x) ∈ s.life.db.getPendingBlocks := mem_getPendingBlocks.2 ⟨hx, hpending⟩
        refine .inr ⟨b, ?_, fate x, hr, hkey⟩
        exact List.mem_map_of_mem (f := Prod.fst) hmem
      · exact .inl (.inr ⟨b, r, hr, hkey, hpending⟩)
    · exact .inl (.inl hgone)

/-- The row the check has just decided is off its list. -/
theorem Checking.decided {db db' : PoolDb} {g : Chronicle} {maturityConfirmations : ℕ}
    {cover : List BlockKey} {count : ℤ} {blockId : BlockId} {rest : List (BlockId × Block)}
    (h : Checking db g maturityConfirmations cover count [blockId] rest)
    (hext : Extends db g db' g)
    (hdone : ∀ r, db'.fateOf blockId = some r → r.status ≠ .pending) :
    Checking db' g maturityConfirmations cover count [] rest := by
  have hm := h.mono hext
  refine ⟨hm.final, hm.listed, fun k hk => ?_⟩
  obtain ⟨hmature, hd | ⟨b, hb, hrow⟩⟩ := hm.decides k hk
  · exact ⟨hmature, .inl hd⟩
  · refine ⟨hmature, ?_⟩
    rcases List.mem_cons.1 hb with rfl | hb
    · obtain ⟨r, hr, hkey⟩ := hrow
      exact .inl (.inr ⟨b, r, hr, hkey, hdone r hr⟩)
    · exact .inr ⟨b, hb, hrow⟩

/-- A row whose status was just written is not pending. -/
theorem not_pending_of_flip {db db' : PoolDb} {i : BlockId} {status : BlockStatus}
    (hfate : ∀ b, db'.fateOf b =
      if b = i then (db.fateOf b).map (fun r => { r with status := status }) else db.fateOf b)
    (hstatus : status ≠ .pending) :
    ∀ r, db'.fateOf i = some r → r.status ≠ .pending := by
  intro r hr
  rw [hfate, if_pos rfl] at hr
  obtain ⟨r₀, -, rfl⟩ := Option.map_eq_some_iff.1 hr
  exact hstatus

theorem checks_maturityDb (h : Inv cfg s) :
    Checks cfg s (BlockLife.maturityDb cfg s.life) (s.checkCoverAfter cfg .maturityDb) ∧
      (s.life.checkEnds cfg .maturityDb = true → ∀ k ∈ s.checkCoverAfter cfg .maturityDb,
        Decided (BlockLife.maturityDb cfg s.life).db s.past k) := by
  have hcover : (∀ count, s.life.maturity ≠ .counted count) →
      s.checkCoverAfter cfg .maturityDb = s.checkCover := by
    intro hne
    unfold checkCoverAfter
    split
    · rename_i count hop hpc
      exact absurd hpc (hne count)
    · rfl
  unfold BlockLife.maturityDb
  split
  · rename_i count hpc
    obtain ⟨hcheck, hdone⟩ := checkInv_nextMature (checking_listed h hpc)
    refine ⟨h.checks hcheck, fun hends => hdone ?_⟩
    simpa only [BlockLife.checkEnds, hpc, BlockLife.maturityDb, beq_iff_eq] using hends
  · rename_i count blockId rest hpc
    rw [hcover (fun c => by rw [hpc]; exact fun he => by cases he)]
    obtain ⟨hchecking, k, hrow, hfinal, hon⟩ := h.checking hpc
    have hfate := fateOf_updateBlockStatus s.life.db blockId .confirmed
    obtain ⟨hbooks, hext⟩ := h.books.flip hfate (fun _ => rfl) (by decide)
      (fun he => by cases he) (fun _ k' hk' => hk'.unique hrow ▸ ⟨hfinal, hon⟩)
    obtain ⟨hcheck, hdone⟩ := checkInv_nextMature
      (hchecking.decided hext (not_pending_of_flip hfate (by decide)))
    refine ⟨⟨hbooks, hext, rfl, hcheck⟩, fun hends => hdone ?_⟩
    simpa only [BlockLife.checkEnds, hpc, BlockLife.maturityDb, beq_iff_eq] using hends
  · rename_i count blockId b rest hpc
    rw [hcover (fun c => by rw [hpc]; exact fun he => by cases he)]
    obtain ⟨hchecking, k, hrow, hfinal, hoff⟩ := h.checking hpc
    split
    · rename_i e horphan
      refine ⟨h.checks trivial, fun hends => ?_⟩
      simp only [BlockLife.checkEnds, hpc, horphan, Except.isOk, Except.toBool, Bool.false_and,
        Bool.false_eq_true] at hends
    · rename_i out db horphan
      have hfate := fun x => (fateOf_orphanBlock horphan x).2.2
      obtain ⟨hbooks, hext⟩ := h.books.flip hfate
        (crumbOf_congr (fateOf_orphanBlock horphan blockId).2.1) (by decide)
        (fun _ k' hk' => hk'.unique hrow ▸ .inr ⟨hfinal, hoff⟩) (fun he => by cases he)
      have hnext := hchecking.decided hext (not_pending_of_flip hfate (by decide))
      obtain ⟨hcheck, hdone⟩ := checkInv_nextMature hnext
      refine ⟨⟨hbooks, hext, rfl, ?_⟩, fun hends => hdone ?_⟩
      · simp only
        split
        · exact hnext
        · exact hcheck
      · simp only [BlockLife.checkEnds, hpc, BlockLife.maturityDb, horphan, Bool.and_eq_true,
          beq_iff_eq] at hends
        have hidle := hends.2
        split at hidle
        · cases hidle
        · exact hidle
  · rename_i count blockId rest hpc
    rw [hcover (fun c => by rw [hpc]; exact fun he => by cases he)]
    have hchecking : Checking s.life.db s.past cfg.maturityConfirmations s.checkCover count []
        rest := h.checking hpc
    obtain ⟨hcheck, hdone⟩ := checkInv_nextMature hchecking
    have hext : Extends s.life.db s.past (s.life.db.acknowledgeClawbacksForBlock blockId
        "absorbed from reserve (immediate-payout policy)") s.past :=
      extends_same (fun _ => rfl) (fun _ => rfl)
    refine ⟨⟨h.books.same (fun _ => rfl) (fun _ => rfl), hext, rfl, hcheck.mono hext⟩,
      fun hends k hk => (hdone ?_ k hk).mono hext⟩
    simpa only [BlockLife.checkEnds, hpc, BlockLife.maturityDb, beq_iff_eq] using hends
  · rename_i hcounted hconfirming horphaning hacknowledging
    rw [hcover hcounted]
    refine ⟨h.checks_stay, fun hends => ?_⟩
    cases hpc : s.life.maturity with
    | idle => simp only [BlockLife.checkEnds, hpc, Bool.false_eq_true] at hends
    | blocks count rest => simp only [BlockLife.checkEnds, hpc, Bool.false_eq_true] at hends
    | counted count => exact absurd hpc (hcounted count)
    | confirming count blockId rest => exact absurd hpc (hconfirming count blockId rest)
    | orphaning count blockId b rest => exact absurd hpc (horphaning count blockId b rest)
    | acknowledging count blockId rest => exact absurd hpc (hacknowledging count blockId rest)

end CheckSteps

/-! ## Whole runs -/

end ChainBooks

/-- The steps of `check_block_maturity`. -/
def BlockLifeOp.ofDashboard : BlockLifeOp → Bool
  | .crashDashboard => true
  | .counted _ => true
  | .askedHash _ => true
  | .maturityDb => true
  | _ => false

/-- The pool process does not move the check. -/
theorem BlockLife.maturity_step (cfg : BlockLifeConfig) (s : BlockLife) {op : BlockLifeOp}
    (hop : op.ofDashboard = false) : (s.step cfg op).maturity = s.maturity := by
  cases op with
  | world other => rfl
  | crash => rfl
  | start =>
    show s.startSweep.maturity = s.maturity
    unfold startSweep
    split <;> rfl
  | find b crumbWritten =>
    show (s.find b crumbWritten).maturity = s.maturity
    unfold find
    split
    · split <;> rfl
    · rfl
  | submitted accepted =>
    show (s.submitted accepted).maturity = s.maturity
    unfold submitted
    split <;> rfl
  | foundChecked answer =>
    show (s.foundChecked answer).maturity = s.maturity
    unfold foundChecked
    split
    · split <;> rfl
    · rfl
  | foundDb =>
    show s.foundDb.maturity = s.maturity
    unfold foundDb
    split
    · rfl
    · split <;> rfl
    · rfl
    · rfl
  | foundFailed =>
    show s.foundFailed.maturity = s.maturity
    unfold foundFailed
    split <;> rfl
  | taskChecked i answer =>
    show (s.taskChecked i answer).maturity = s.maturity
    unfold taskChecked
    split
    · split
      · split <;> rfl
      · rfl
    · rfl
  | taskLuck i luckPercent =>
    show (s.taskLuck i luckPercent).maturity = s.maturity
    unfold taskLuck
    split
    · split <;> rfl
    · rfl
  | taskDb i =>
    show (taskDb cfg.pplns s i).maturity = s.maturity
    unfold taskDb
    split
    · split
      · rfl
      · rfl
      · split <;> rfl
      · rfl
      · rfl
    · rfl
  | taskFailed i =>
    show (s.taskFailed i).maturity = s.maturity
    unfold taskFailed
    split
    · split <;> rfl
    · rfl
  | sweepChecked answer =>
    show (s.sweepChecked answer).maturity = s.maturity
    unfold sweepChecked
    split
    · split <;> rfl
    · rfl
  | sweepDb =>
    show (sweepDb cfg.pplns s).maturity = s.maturity
    unfold sweepDb
    split
    · rfl
    · split
      · rfl
      · split <;> rfl
    · rfl
    · rfl
    · rfl
    · split <;> rfl
    · rfl
    · rfl
  | sweepFailed =>
    show s.sweepFailed.maturity = s.maturity
    unfold sweepFailed
    split <;> rfl
  | crashDashboard => cases hop
  | counted answer => cases hop
  | askedHash answer => cases hop
  | maturityDb => cases hop

namespace ChainBooks

section Runs

variable {cfg : BlockLifeConfig} {s : ChainBooks}

/-- A sweep that ends has settled all it covers. -/
theorem settled_of_sweepEnds (h : Inv cfg s) {op : BlockLifeOp}
    (hends : s.life.sweepEnds op = true) :
    ∀ k ∈ s.sweepCover.getD [], Settled s.life.db s.past k := by
  intro k hk
  unfold BlockLife.sweepEnds at hends
  split at hends
  · have hcovers : Covers s.life.db s.past s.sweepCover [] := h.startup (of_decide_eq_true hends)
    rcases hcovers k hk with hs | hmem
    · exact hs
    · cases hmem
  · cases hends

/-- **A step of the pool process.** -/
theorem Inv.of_goes (h : Inv cfg s) {op : BlockLifeOp} (hop : op.ofDashboard = false)
    (hgoes : Goes s (s.life.step cfg op) (s.pastAfter op) (s.sweepCoverAfter cfg op)) :
    Inv cfg (s.step cfg (.life op)) := by
  have hcover : s.checkCoverAfter cfg op = s.checkCover := by
    unfold checkCoverAfter
    split
    · cases hop
    · rfl
  have hends : s.life.checkEnds cfg op = false := by
    unfold BlockLife.checkEnds
    split
    · cases hop
    · rfl
  refine ⟨hgoes.books, hgoes.pool, ?_, fun k hk => ?_, fun k hk => ?_, h.tip⟩
  · show CheckInv _ _ _ (s.checkCoverAfter cfg op) _
    rw [hcover]
    have hstay := BlockLife.maturity_step cfg s.life hop
    exact hstay ▸ h.check.mono hgoes.lasts
  · rcases List.mem_append.1 hk with hk | hk
    · exact (h.swept k hk).mono hgoes.lasts
    · split at hk
      · rename_i hsweep
        exact (settled_of_sweepEnds h hsweep k hk).mono hgoes.lasts
      · cases hk
  · rcases List.mem_append.1 hk with hk | hk
    · exact (h.checked k hk).mono hgoes.lasts
    · rw [hends] at hk
      cases hk

/-- **A step of the dashboard.** -/
theorem Inv.of_checks (h : Inv cfg s) {op : BlockLifeOp} (hpast : s.pastAfter op = s.past)
    (hcover : s.sweepCoverAfter cfg op = s.sweepCover) (hsweep : s.life.sweepEnds op = false)
    (hchecks : Checks cfg s (s.life.step cfg op) (s.checkCoverAfter cfg op))
    (hdone : s.life.checkEnds cfg op = true → ∀ k ∈ s.checkCoverAfter cfg op,
      Decided (s.life.step cfg op).db s.past k) :
    Inv cfg (s.step cfg (.life op)) := by
  unfold step
  simp only [hpast, hcover, hsweep, Bool.false_eq_true, if_false, List.append_nil]
  refine ⟨hchecks.books, ?_, hchecks.check, fun k hk => ?_, fun k hk => ?_, h.tip⟩
  · show PoolInv _ _ _ (s.life.step cfg op).pool
    rw [hchecks.pool]
    exact h.pool.mono hchecks.lasts (List.Subset.refl _)
  · exact (h.swept k hk).mono hchecks.lasts
  · rcases List.mem_append.1 hk with hk | hk
    · exact (h.checked k hk).mono hchecks.lasts
    · split at hk
      · rename_i hends
        exact hdone hends k hk
      · cases hk

theorem inv_reorganise (h : Inv cfg s) {chain : List (List UInt8)}
    (hlegal : s.Legal (.reorganise chain)) (hreturns : s.ReturnsNone cfg (.reorganise chain)) :
    Inv cfg (s.step cfg (.reorganise chain)) := by
  have hext := extends_reorganise s.life.db cfg.maturityConfirmations hlegal
  refine ⟨h.books.goOn hext rfl hreturns, h.pool.mono hext (List.Subset.refl _),
    h.check.mono hext, fun k hk => (h.swept k hk).mono hext,
    fun k hk => (h.checked k hk).mono hext, ?_⟩
  exact le_max_right _ _

/-- **Step lemma.** -/
theorem inv_step (op : ChainOp) (h : Inv cfg s) (hlegal : s.Legal op)
    (hreturns : s.ReturnsNone cfg op) : Inv cfg (s.step cfg op) := by
  cases op with
  | reorganise chain => exact inv_reorganise h hlegal hreturns
  | life op =>
    obtain ⟨htruth, hwell⟩ := hlegal
    have hquiet : ∀ {o : BlockLifeOp}, s.life.newlyFound o = [] → s.life.newlyDenied o = [] →
        ∀ {life cover}, Goes s life s.past cover → Goes s life (s.pastAfter o) cover := by
      intro o hfound hdenied life cover hgoes
      rw [pastAfter_eq hfound hdenied]
      exact hgoes
    cases op with
    | world other =>
      refine h.of_goes rfl (Goes.cover (fun he => by cases he) (hquiet rfl rfl ?_))
      exact h.goes_same (fun _ => rfl) rfl h.pool
    | crash => exact h.of_goes rfl (hquiet rfl rfl (h.goes_pool trivial))
    | start => exact h.of_goes rfl (hquiet rfl rfl (goes_startSweep h))
    | find b crumbWritten =>
      exact h.of_goes rfl (Goes.cover (fun he => by cases he) (goes_find h hwell))
    | submitted accepted =>
      exact h.of_goes rfl (Goes.cover (fun he => by cases he)
        (hquiet rfl rfl (goes_submitted h accepted)))
    | foundChecked answer =>
      exact h.of_goes rfl (Goes.cover (fun he => by cases he) (goes_foundChecked h htruth))
    | foundDb =>
      exact h.of_goes rfl (Goes.cover (fun he => by cases he) (hquiet rfl rfl (goes_foundDb h)))
    | foundFailed =>
      exact h.of_goes rfl (Goes.cover (fun he => by cases he)
        (hquiet rfl rfl (goes_foundFailed h)))
    | taskChecked i answer =>
      exact h.of_goes rfl (Goes.cover (fun he => by cases he) (goes_taskChecked h htruth))
    | taskLuck i luckPercent =>
      exact h.of_goes rfl (Goes.cover (fun he => by cases he)
        (hquiet rfl rfl (goes_taskLuck h i luckPercent)))
    | taskDb i =>
      exact h.of_goes rfl (Goes.cover (fun he => by cases he) (hquiet rfl rfl (goes_taskDb h i)))
    | taskFailed i =>
      exact h.of_goes rfl (Goes.cover (fun he => by cases he)
        (hquiet rfl rfl (goes_taskFailed h i)))
    | sweepChecked answer => exact h.of_goes rfl (goes_sweepChecked h htruth)
    | sweepDb => exact h.of_goes rfl (hquiet rfl rfl (goes_sweepDb h))
    | sweepFailed => exact h.of_goes rfl (hquiet rfl rfl (goes_sweepFailed h))
    | crashDashboard =>
      refine h.of_checks (pastAfter_eq rfl rfl) rfl rfl (h.checks trivial) fun hends => ?_
      cases hends
    | counted answer =>
      refine h.of_checks (pastAfter_eq rfl rfl) rfl rfl (checks_counted h htruth) fun hends => ?_
      cases hends
    | askedHash answer =>
      refine h.of_checks (pastAfter_eq rfl rfl) rfl rfl (checks_askedHash h htruth) fun hends => ?_
      cases hends
    | maturityDb =>
      obtain ⟨hchecks, hdone⟩ := checks_maturityDb h
      exact h.of_checks (pastAfter_eq rfl rfl) rfl rfl hchecks hdone

theorem inv_start (cfg : BlockLifeConfig) (chain : List (List UInt8)) :
    Inv cfg (start cfg chain) := by
  have hrows : ∀ b, (start cfg chain).life.db.fateOf b = none := fun _ => rfl
  have hcrumbs : ∀ id, (start cfg chain).life.db.crumbOf id = none := fun _ => rfl
  refine ⟨⟨?_, ?_, ?_, ?_, ?_, ?_, ?_, ?_, ?_⟩, trivial, trivial, ?_, ?_, le_refl _⟩
  · intro b r hr
    rw [hrows] at hr
    cases hr
  · intro b b' r r' hr
    rw [hrows] at hr
    cases hr
  · rintro id k ⟨resolved, hk⟩
    rw [hcrumbs] at hk
    cases hk
  · intro k hk
    cases hk
  · intro k hk
    cases hk
  · intro k hk
    cases hk
  · intro b r hr
    rw [hrows] at hr
    cases hr
  · intro b r hr
    rw [hrows] at hr
    cases hr
  · intro k hk
    cases hk
  · intro k hk
    cases hk
  · intro k hk
    cases hk

/-- A decided block is confirmed once if it is on the best chain, and else not at all. -/
theorem Inv.agrees (h : Inv cfg s) {k : BlockKey} (hk : k ∈ s.past.found)
    (hchecked : k ∈ s.checked) : s.Agrees k := by
  have hfate : ∀ e ∈ s.life.db.blocks.rows, s.life.db.fateOf e.1 = some (fate e.2) := by
    intro e he
    have hget : s.life.db.blocks.get? e.1 = some e.2 :=
      (Table.Keyed.get?_eq_some_iff (t := s.life.db.blocks.keyed) (k := e.1) (r := e.2)).2 he
    rw [fateOf, hget]
    rfl
  have hkey : ∀ e ∈ s.life.db.blocks.rows, e.2.hash = k.hash → (fate e.2).key = k :=
    fun e he hhash => h.books.heights _ (h.books.rowsFound _ _ (hfate e he)) k hk hhash
  unfold Agrees confirmedRows Auto.values
  rw [List.countP_map]
  split
  · rename_i hon
    rcases h.checked k hchecked with hgone | ⟨b, r, hr, hrk, hstatus⟩
    · exact absurd hon (hgone.off h.books)
    · obtain ⟨x, hx, rfl⟩ := Option.map_eq_some_iff.1 hr
      have hmem : (b, x) ∈ s.life.db.blocks.rows :=
        (Table.Keyed.get?_eq_some_iff (t := s.life.db.blocks.keyed) (k := b) (r := x)).1 hx
      have hhash : x.hash = k.hash := by
        rw [← hrk]
        rfl
      have hconfirmed : x.status = .confirmed := by
        cases hx' : x.status with
        | pending => exact absurd hx' hstatus
        | confirmed => rfl
        | orphaned =>
          have hgone := h.books.orphaned b (fate x) hr hx'
          rw [hrk] at hgone
          exact absurd hon (hgone.off h.books)
      refine Table.countP_eq_one s.life.db.blocks.keyed.nodup hmem ?_ fun e he hp => ?_
      · simp [hhash, hconfirmed]
      · simp only [Function.comp_apply, Bool.and_eq_true, beq_iff_eq] at hp
        refine h.books.rowsUnique e.1 b _ _ (hfate e he) hr ?_
        rw [hkey e he hp.1, hrk]
  · rename_i hoff
    rw [List.countP_eq_zero]
    intro e he hp
    simp only [Function.comp_apply, Bool.and_eq_true, beq_iff_eq] at hp
    have hc := h.books.confirmed e.1 (fate e.2) (hfate e he) hp.2
    rw [hkey e he hp.1] at hc
    exact hoff hc.2

end Runs

/-- **Mature books agree with the chain**, along every run in which no reorganisation brings back
    a block for which an inclusion check has answered `Mismatch`. -/
theorem matureBooks_of_returnsNone (cfg : BlockLifeConfig) (chain : List (List UInt8))
    {ops : List ChainOp} (hlegal : Machine.Allowed (step cfg) Legal (start cfg chain) ops)
    (hreturns : Machine.Allowed (step cfg) (ReturnsNone cfg) (start cfg chain) ops) :
    Machine.Always (step cfg) MatureBooks (start cfg chain) ops := by
  have hstep : ∀ s op, Inv cfg s → Legal s op ∧ ReturnsNone cfg s op → Inv cfg (s.step cfg op) :=
    fun _ op hs hop => inv_step op hs hop.1 hop.2
  have hrun := Machine.always_of_allowed hstep (inv_start cfg chain) (hlegal.and hreturns)
  apply hrun.imp
  intro s hs k hk _ hchecked
  exact hs.agrees hk hchecked

/-! ## A won block that crashes lose and the sweep recovers -/

/-- Blocks are mature at three confirmations. -/
def threeDeep : BlockLifeConfig := ⟨.new 1000 0 .solo, 3, false⟩

def wonAt5 : WonBlock := ⟨5, "0a0b", 1, 125000000, none⟩

/-- Another block is ahead at height 5. -/
def rivalAhead : List (List UInt8) := [[0], [1], [2], [3], [4], [0x0c, 0x0d]]

/-- Ours is in the chain, and mature. -/
def oursMature : List (List UInt8) := [[0], [1], [2], [3], [4], [0x0b, 0x0a], [6], [7], [8]]

/-- The pool starts with nothing to settle. -/
def served : List ChainOp :=
  [.life (.world BlockLife.soloWorld), .life .start, .life .sweepDb, .life .sweepDb]

/-- The process dies while the block is being submitted. -/
def diesSubmitting : List ChainOp :=
  served ++ [.life (.find wonAt5 true), .life .crash, .reorganise oursMature]

/-- The sweep records and distributes the block. -/
def sweepRecovers : List ChainOp :=
  [.life .start, .life (.sweepChecked (some "0b0a")), .life .sweepDb, .life .sweepDb, .life .sweepDb,
    .life .sweepDb, .life .sweepDb, .life .sweepDb, .life .sweepDb]

def checkConfirms : List ChainOp :=
  [.life (.counted (some 8)), .life .maturityDb, .life (.askedHash (some "0b0a")),
    .life .maturityDb]

theorem matureBooks_of_returnsNone_recovered :
    (Machine.run (step threeDeep) (start threeDeep rivalAhead)
        (diesSubmitting ++ sweepRecovers ++ checkConfirms)).checked = [wonAt5.key] ∧
      Machine.Always (step threeDeep) MatureBooks (start threeDeep rivalAhead)
        (diesSubmitting ++ sweepRecovers ++ checkConfirms) :=
  ⟨by decide +kernel,
    matureBooks_of_returnsNone threeDeep rivalAhead (by decide +kernel) (by decide +kernel)⟩

/-! ## A lost height race that is won after all -/

/-- The block is recorded, and orphaned by its task while the other block is ahead; then the
    chain is reorganised to ours. -/
def losesTheRace : List ChainOp :=
  served ++ [.life (.find wonAt5 true), .life (.submitted true), .life .foundDb, .life .foundDb,
    .life (.taskChecked 0 (some "0c0d")), .life (.taskDb 0), .reorganise oursMature]

/-- A sweep and a check with nothing to do. -/
def sweepsAndChecks : List ChainOp :=
  [.life .crash, .life .start, .life .sweepDb, .life .sweepDb, .life (.counted (some 8)),
    .life .maturityDb]

/-- The block is in the chain for good, and its row stays orphaned. -/
theorem lost_height_race_comes_back :
    Machine.Allowed (step threeDeep) Legal (start threeDeep rivalAhead)
        (losesTheRace ++ sweepsAndChecks) ∧
      ¬ Machine.Always (step threeDeep) MatureBooks (start threeDeep rivalAhead)
        (losesTheRace ++ sweepsAndChecks) := by
  refine ⟨by decide +kernel, fun h => ?_⟩
  have hwrong : ¬ (Machine.run (step threeDeep) (start threeDeep rivalAhead)
      (losesTheRace ++ sweepsAndChecks)).MatureBooks := by
    decide +kernel
  exact hwrong h.last

end ChainBooks

end ZcashMiningPool
