import ZcashMiningPool.PoolCore.JobManager

/-!
# What a header commits to

The two roots a job puts into the header, against the block that is assembled from the same job.

* `authDataMerkleRoot_eq_perfectRoot` — the loop over the digests builds the padded perfect tree.
* `CommitsToEvery` — the block commitments cover the coinbase and every transaction.

Principal results:

* `commitsToEvery_iff` — after a version 5 injection the commitments cover the whole block exactly
  when every transaction of the template carries its digest.
-/

set_option autoImplicit false

namespace ZcashMiningPool

open MerkleTree

section Commitments

variable (prims : CoinbasePrimitives)

/-! ## The block commitments -/

/-- The root of the perfect tree, padded with zero leaves to the next power of two. -/
def authTreeRoot (leaves : List Bytes32) : Bytes32 :=
  perfectRoot (authNode prims) (Bytes32.fill 0) (Nat.clog 2 leaves.length)
    (pad (Bytes32.fill 0) leaves)

/-- The loop over the levels ends at the root of the tree. -/
theorem authDataMerkleRoot_eq_perfectRoot {leaves : List Bytes32} (h : leaves ≠ []) :
    authDataMerkleRoot prims leaves = authTreeRoot prims leaves := by
  have hlen := length_pad (Bytes32.fill 0) leaves
  have hfuel : Nat.clog 2 leaves.length ≤ (pad (Bytes32.fill 0) leaves).length := by
    rw [hlen]
    exact (Nat.lt_two_pow_self).le
  unfold authDataMerkleRoot authTreeRoot
  rw [if_neg h]
  dsimp only
  rw [collapse_pairUp_eq_perfectRoot (authNode prims) (Bytes32.fill 0) hfuel hlen]
  rfl

/-- The leaves are the digests in their order, each turned around. -/
theorem authLeaves_spec {tail : String} {i : ℕ} {digests : List String} {leaves : List Bytes32}
    (h : authLeaves prims tail i digests = .ok leaves) :
    List.Forall₂ (fun digest leaf => Text.hexDecode digest = some (Bytes32.reverse leaf).bytes)
      digests leaves := by
  induction digests generalizing i leaves with
  | nil =>
    cases h
    exact .nil
  | cons digest digests ih =>
    unfold authLeaves at h
    split at h
    · cases h
    · rename_i bs hbs
      split at h
      · cases h
      · rename_i b hb
        cases hrest : authLeaves prims tail (i + 1) digests with
        | error e =>
          rw [hrest] at h
          cases h
        | ok leaves' =>
          rw [hrest] at h
          cases h
          refine .cons ?_ (ih hrest)
          rw [Bytes32.reverse_reverse, hbs, Bytes32.ofBytes?_eq_some hb]

theorem blockCommitments_spec {digestTail : String} {rootMessage : ℕ → String}
    {coinbaseAuth : Bytes32} {digests : List String} {rootHex bc : String}
    (h : blockCommitments prims digestTail rootMessage coinbaseAuth digests rootHex = .ok bc) :
    ∃ leaves root,
      List.Forall₂ (fun digest leaf => Text.hexDecode digest = some (Bytes32.reverse leaf).bytes)
        digests leaves ∧
      Text.hexDecode rootHex = some (Bytes32.reverse root).bytes ∧
      bc = Text.hexEncode (blockCommitmentsHash prims root
        (authTreeRoot prims (coinbaseAuth :: leaves))).reverse.bytes := by
  unfold blockCommitments at h
  split at h
  · cases h
  · rename_i leaves hleaves
    split at h
    · cases h
    · rename_i bs hbs
      split at h
      · cases h
      · rename_i b hb
        cases h
        refine ⟨leaves, b.reverse, authLeaves_spec prims hleaves, ?_, ?_⟩
        · rw [Bytes32.reverse_reverse, hbs, Bytes32.ofBytes?_eq_some hb]
        · rw [authDataMerkleRoot_eq_perfectRoot prims (List.cons_ne_nil _ _)]

/-! ### The coinbase -/

/-- A compactSize that lies before a common part of two byte strings reads the same. -/
theorem readCompactSize_append {bs rest rest' : Bytes} {offset v n : ℕ}
    (h : readCompactSize (bs ++ rest) offset = .ok (v, n)) (hn : offset + n ≤ bs.length) :
    readCompactSize (bs ++ rest') offset = .ok (v, n) := by
  unfold readCompactSize at h ⊢
  have hpos : 0 < n := by
    by_contra hzero
    obtain rfl : n = 0 := by omega
    split at h
    · cases h
    · dsimp only at h
      repeat' split at h
      all_goals cases h
  have hlt : offset < bs.length := by omega
  rw [List.getElem?_append_left hlt] at h ⊢
  split at h
  · cases h
  · rename_i b hb
    have hwide : ∀ (k : ℕ) (name : String),
        (if (bs ++ rest).length < offset + k + 1 then
          (Except.error s!"Truncated compactSize ({name})" : Except String (ℕ × ℕ))
        else .ok (leNat (((bs ++ rest).drop (offset + 1)).take k), k + 1)) = .ok (v, n) →
        (if (bs ++ rest').length < offset + k + 1 then
          (Except.error s!"Truncated compactSize ({name})" : Except String (ℕ × ℕ))
        else .ok (leNat (((bs ++ rest').drop (offset + 1)).take k), k + 1)) = .ok (v, n) := by
      intro k name hk
      split at hk
      · cases hk
      · have hkn : k + 1 = n := congrArg (fun x => match x with
          | Except.ok (_, m) => m
          | Except.error _ => 0) hk
        have htake : ∀ r : Bytes, ((bs ++ r).drop (offset + 1)).take k
            = (bs.drop (offset + 1)).take k := by
          intro r
          rw [List.drop_append_of_le_length (by omega), List.take_append_of_le_length]
          rw [List.length_drop]
          omega
        rw [if_neg (by rw [List.length_append]; omega)]
        rw [htake] at hk ⊢
        exact hk
    dsimp only at h ⊢
    by_cases h2 : b = 0xFD
    · rw [if_pos h2] at h ⊢
      exact hwide 2 "FD" h
    · rw [if_neg h2] at h ⊢
      by_cases h4 : b = 0xFE
      · rw [if_pos h4] at h ⊢
        exact hwide 4 "FE" h
      · rw [if_neg h4] at h ⊢
        by_cases h8 : b = 0xFF
        · rw [if_pos h8] at h ⊢
          exact hwide 8 "FF" h
        · rw [if_neg h8] at h ⊢
          exact h

/-- What the parse of a coinbase says of the bytes before its scriptSig. -/
theorem locateScriptSig_spec {data : Bytes} {headerLen : ℕ} {place : ScriptSigPlace}
    (h : locateScriptSig data headerLen = .ok place) :
    ∃ csLen, readCompactSize data headerLen = .ok (1, csLen) ∧
      place.lenOffset = headerLen + csLen + 36 ∧ place.lenOffset < data.length := by
  unfold locateScriptSig at h
  split at h
  · cases h
  · split at h
    · cases h
    · rename_i count csLen hcount
      split at h
      · cases h
      · rename_i hone
        dsimp only at h
        split at h
        · cases h
        · rename_i hlen
          split at h
          · cases h
          · split at h
            · cases h
            · cases h
              obtain rfl : count = 1 := not_not.1 hone
              have hbound : headerLen + csLen + 36 < data.length := by omega
              exact ⟨csLen, hcount, rfl, hbound⟩

/-- The place of a scriptSig that was put in, behind a length of one byte. -/
def newPlace (place : ScriptSigPlace) (scriptSig : Bytes) : ScriptSigPlace :=
  ⟨place.lenOffset, place.lenOffset + 1, place.lenOffset + 1 + scriptSig.length⟩

/-- The parts of a rewritten coinbase: what stood before the length, the new length, the new
    scriptSig, and what followed the old one. -/
theorem setScriptSig_eq (data : Bytes) (place : ScriptSigPlace) (scriptSig : Bytes) :
    setScriptSig data place scriptSig = data.take place.lenOffset ++
      (UInt8.ofNat scriptSig.length :: (scriptSig ++ data.drop place.stop)) := by
  simp [setScriptSig]

/-- A rewritten coinbase parses, and its scriptSig starts behind the one byte of its length. -/
theorem locateScriptSig_setScriptSig {data scriptSig : Bytes} {headerLen : ℕ}
    {place : ScriptSigPlace} (h : locateScriptSig data headerLen = .ok place)
    (hlen : scriptSig.length < 253) :
    locateScriptSig (setScriptSig data place scriptSig) headerLen
      = .ok (newPlace place scriptSig) := by
  obtain ⟨csLen, hcount, hoffset, hbound⟩ := locateScriptSig_spec h
  rw [setScriptSig_eq]
  set head := data.take place.lenOffset with hhead
  set rest := scriptSig ++ data.drop place.stop with hrest
  have hheadLen : head.length = place.lenOffset := by
    rw [hhead, List.length_take]
    omega
  have hcount' : readCompactSize (head ++ (UInt8.ofNat scriptSig.length :: rest)) headerLen
      = .ok (1, csLen) := by
    rw [← List.take_append_drop place.lenOffset data] at hcount
    exact readCompactSize_append hcount (by omega)
  have hget : (head ++ (UInt8.ofNat scriptSig.length :: rest))[place.lenOffset]?
      = some (UInt8.ofNat scriptSig.length) := by
    rw [List.getElem?_append_right (by omega), hheadLen, Nat.sub_self]
    rfl
  have hbyte : (UInt8.ofNat scriptSig.length).toNat = scriptSig.length := by
    rw [UInt8.toNat_ofNat']
    omega
  have hsmall : ∀ k : UInt8, 253 ≤ k.toNat → UInt8.ofNat scriptSig.length ≠ k := by
    rintro k hk rfl
    omega
  have hsigLen : readCompactSize (head ++ (UInt8.ofNat scriptSig.length :: rest)) place.lenOffset
      = .ok (scriptSig.length, 1) := by
    simp only [readCompactSize, hget]
    rw [if_neg (hsmall 0xFD (by decide)), if_neg (hsmall 0xFE (by decide)),
      if_neg (hsmall 0xFF (by decide)), hbyte]
  have htotal : (head ++ (UInt8.ofNat scriptSig.length :: rest)).length
      = place.lenOffset + 1 + rest.length := by
    rw [List.length_append, List.length_cons, hheadLen]
    omega
  have hrestLen : scriptSig.length ≤ rest.length := by
    rw [hrest, List.length_append]
    omega
  simp only [locateScriptSig, hcount', ← hoffset, hsigLen, htotal, ne_eq, not_true_eq_false,
    if_false]
  rw [if_neg (by omega), if_neg (by omega), if_neg (by omega)]
  rfl

theorem scriptSigOf_setScriptSig {data scriptSig : Bytes} {place : ScriptSigPlace}
    (h : place.lenOffset ≤ data.length) :
    scriptSigOf (setScriptSig data place scriptSig) (newPlace place scriptSig) = scriptSig := by
  have hcons : setScriptSig data place scriptSig
      = (data.take place.lenOffset ++ [UInt8.ofNat scriptSig.length]) ++
        (scriptSig ++ data.drop place.stop) := by simp [setScriptSig]
  have hpre : (data.take place.lenOffset ++ [UInt8.ofNat scriptSig.length]).length
      = place.lenOffset + 1 := by simp [h]
  unfold scriptSigOf newPlace
  dsimp only
  rw [hcons, ← hpre, List.take_length_add_append, List.drop_left]
  exact List.take_left' rfl

/-- The authorizing data digest of a serialised version 5 coinbase. -/
def coinbaseAuthDigest? (data : Bytes) : Option Bytes32 :=
  (locateScriptSig data 20).toOption.map (fun place =>
    let scriptSig := scriptSigOf data place
    computeCoinbaseAuthDigest prims ((data.drop 8).take 4) (UInt8.ofNat scriptSig.length) scriptSig)

/-- A version 5 injection with new commitments: the new coinbase, and what they are made of. -/
theorem injectCoinbaseTag_v5 {coinbaseHex rootHex bc : String} {tag data : Bytes}
    {digests : List String} {result : InjectionResult}
    (hdata : Text.hexDecode coinbaseHex = some data) (hv5 : data.take 4 = v5Version)
    (h : injectCoinbaseTag prims coinbaseHex tag rootHex digests = .ok result)
    (hbc : result.newBlockCommitments = some bc) :
    ∃ newData coinbaseAuth, result.newCoinbaseHex = Text.hexEncode newData ∧
      coinbaseAuthDigest? prims newData = some coinbaseAuth ∧
      blockCommitments prims ", expected 32"
        (fun n => s!"chain_history_root must be 32 bytes, got {n}") coinbaseAuth digests rootHex
          = .ok bc := by
  have hlen : ¬ data.length < 4 := by
    intro hlt
    have := congrArg List.length hv5
    rw [List.length_take, v5Version] at this
    simp only [List.length_cons, List.length_nil] at this
    omega
  have hv6 : v5Version ≠ v6Version := by decide
  simp only [injectCoinbaseTag, hdata, hv5] at h
  rw [if_neg hlen, if_neg hv6, if_pos trivial] at h
  unfold injectInline at h
  split at h
  · cases h
  · rename_i place hplace
    rw [if_pos rfl] at hplace
    split at h
    · cases h
      cases hbc
    · dsimp only at h
      split at h
      · cases h
      · rename_i hfits
        unfold injectInto at h
        dsimp only at h
        rw [if_pos rfl] at h
        set scriptSig := scriptSigOf data place ++ tag with hsig
        have hsmall : scriptSig.length < 253 := by
          rw [hsig, List.length_append]
          unfold maxScriptSigLen at hfits
          omega
        obtain ⟨csLen, -, hoffset, hbound⟩ := locateScriptSig_spec hplace
        have hbranch : ((setScriptSig data place scriptSig).drop 8).take 4
            = (data.drop 8).take 4 := by
          have htake : ∀ rest : Bytes, ((data.take place.lenOffset ++ rest).drop 8).take 4
              = ((data.take place.lenOffset).drop 8).take 4 := by
            intro rest
            have hhead : (data.take place.lenOffset).length = place.lenOffset := by
              rw [List.length_take]
              omega
            rw [List.drop_append_of_le_length (by omega), List.take_append_of_le_length]
            rw [List.length_drop]
            omega
          have hold := htake (data.drop place.lenOffset)
          rw [List.take_append_drop] at hold
          unfold setScriptSig
          rw [List.append_assoc, List.append_assoc, htake, hold]
        cases hcommit : blockCommitments prims ", expected 32"
            (fun n => s!"chain_history_root must be 32 bytes, got {n}")
            (computeCoinbaseAuthDigest prims ((data.drop 8).take 4)
              (UInt8.ofNat scriptSig.length) scriptSig) digests rootHex with
        | error e =>
          rw [hcommit] at h
          cases h
        | ok bc' =>
          rw [hcommit] at h
          cases h
          cases hbc
          refine ⟨setScriptSig data place scriptSig, _, rfl, ?_, hcommit⟩
          unfold coinbaseAuthDigest?
          rw [locateScriptSig_setScriptSig hplace hsmall]
          simp only [Except.toOption, Option.map_some, scriptSigOf_setScriptSig hbound.le, hbranch]

/-- The commitments are the hash over history root, auth data root and 32 zero bytes, with one leaf
    for the coinbase and one for every transaction, in block order. -/
def CommitsToEvery (template : BlockTemplate) (coinbaseData : Bytes) (commitments : Bytes32) :
    Prop :=
  ∃ coinbaseAuth leaves root,
    coinbaseAuthDigest? prims coinbaseData = some coinbaseAuth ∧
    List.Forall₂ (fun (tx : BlockTemplateTransaction) leaf =>
      tx.authdigest.bind Text.hexDecode = some (Bytes32.reverse leaf).bytes)
      template.transactions leaves ∧
    Text.hexDecode template.chainHistoryRoot = some (Bytes32.reverse root).bytes ∧
    commitments = blockCommitmentsHash prims root (authTreeRoot prims (coinbaseAuth :: leaves))

/-- The header's reserved field of a job with new commitments is their hash in header order. -/
theorem reservedHex_setInjection {sha256d : Bytes → Bytes32} {template : BlockTemplate}
    {cb : CoinbaseTxn} {result : InjectionResult} {commitments : Bytes32} {jobId : String}
    (h : result.newBlockCommitments = some (Text.hexEncode commitments.reverse.bytes)) :
    (MiningJob.fromTemplate sha256d (template.setInjection cb result) jobId).reservedHex
      = Text.hexEncode commitments.bytes := by
  have hrev : reverseHex (Text.hexEncode commitments.reverse.bytes)
      = Text.hexEncode commitments.bytes := by
    unfold reverseHex Bytes32.reverse
    rw [Text.hexDecode_hexEncode, Option.getD_some, List.reverse_reverse]
  rw [← hrev]
  unfold MiningJob.fromTemplate BlockTemplate.setInjection
  dsimp only
  rw [h]
  cases result.newTxid <;> cases template.defaultroots <;> rfl

theorem exists_right_of_forall₂ {α β : Type} {R : α → β → Prop} {l : List α} {l' : List β}
    (h : List.Forall₂ R l l') {x : α} (hx : x ∈ l) : ∃ y, R x y := by
  induction h with
  | nil => cases hx
  | cons hxy _ ih =>
    rcases List.mem_cons.1 hx with rfl | hx
    · exact ⟨_, hxy⟩
    · exact ih hx

/-- When every transaction has a digest, none is left out of the list of digests. -/
theorem forall₂_authdigest {txs : List BlockTemplateTransaction} {leaves : List Bytes32}
    (hall : ∀ tx ∈ txs, tx.authdigest ≠ none)
    (h : List.Forall₂ (fun digest leaf => Text.hexDecode digest = some (Bytes32.reverse leaf).bytes)
      (txs.filterMap (·.authdigest)) leaves) :
    List.Forall₂ (fun (tx : BlockTemplateTransaction) leaf =>
      tx.authdigest.bind Text.hexDecode = some (Bytes32.reverse leaf).bytes) txs leaves := by
  induction txs generalizing leaves with
  | nil =>
    cases h
    exact .nil
  | cons tx txs ih =>
    obtain ⟨digest, hdigest⟩ := Option.ne_none_iff_exists'.1 (hall tx List.mem_cons_self)
    rw [List.filterMap_cons_some hdigest] at h
    cases h with
    | cons hhead htail =>
      refine .cons ?_ (ih (fun x hx => hall x (List.mem_cons_of_mem _ hx)) htail)
      rw [hdigest]
      exact hhead

/-- **The commitments of a tagged block**: after a version 5 injection that returns them, they
    cover the coinbase and every transaction, and stand in the job's header, exactly when every
    transaction of the template carries its digest. -/
theorem commitsToEvery_iff (template : BlockTemplate) {cb : CoinbaseTxn} {tag data : Bytes}
    {result : InjectionResult} {bc : String} (jobId : String)
    (hcb : template.coinbasetxn = some cb) (hdata : Text.hexDecode cb.data = some data)
    (hv5 : data.take 4 = v5Version)
    (hinj : injectCoinbaseTag prims cb.data tag template.chainHistoryRoot template.txAuthDigests
      = .ok result)
    (hbc : result.newBlockCommitments = some bc) :
    (∃ newData commitments,
      tagTemplate (injectCoinbaseTag prims) (some tag) template
        = .ok (template.setInjection cb result) ∧
      result.newCoinbaseHex = Text.hexEncode newData ∧
      bc = Text.hexEncode commitments.reverse.bytes ∧
      (MiningJob.fromTemplate prims.sha256d (template.setInjection cb result) jobId).reservedHex
        = Text.hexEncode commitments.bytes ∧
      CommitsToEvery prims template newData commitments) ↔
    ∀ tx ∈ template.transactions, tx.authdigest ≠ none := by
  constructor
  · rintro ⟨newData, commitments, -, -, -, -, coinbaseAuth, leaves, root, -, hleaves, -⟩
    intro tx htx hnone
    obtain ⟨leaf, hleaf⟩ := exists_right_of_forall₂ hleaves htx
    rw [hnone] at hleaf
    cases hleaf
  · intro hall
    obtain ⟨newData, coinbaseAuth, hnew, hauth, hcommit⟩ :=
      injectCoinbaseTag_v5 prims hdata hv5 hinj hbc
    obtain ⟨leaves, root, hleaves, hroot, hbc'⟩ := blockCommitments_spec prims hcommit
    have htag : tagTemplate (injectCoinbaseTag prims) (some tag) template
        = .ok (template.setInjection cb result) := by
      simp only [tagTemplate, hcb, hinj]
      rfl
    refine ⟨newData, _, htag, hnew, hbc', ?_, coinbaseAuth, leaves, root, hauth, ?_, hroot, rfl⟩
    · rw [hbc'] at hbc
      exact reservedHex_setInjection hbc
    · exact forall₂_authdigest hall hleaves

end Commitments

/-! ### A template with and without its digests -/

/-- A version 5 coinbase and two transactions, the second with the digest `digest`. -/
def twoTransactionTemplate (digest : Option String) : BlockTemplate where
  version := 4
  previousblockhash := Text.hexEncode (Bytes32.fill 7).bytes
  lightclientroothash := none
  blockcommitmentshash := none
  finalsaplingroothash := none
  defaultroots := some ⟨none, some (Text.hexEncode (Bytes32.fill 9).bytes), none⟩
  transactions :=
    [⟨Text.hexEncode [1], Text.hexEncode (Bytes32.fill 1).bytes, 0,
        some (Text.hexEncode (Bytes32.fill 1).bytes)⟩,
      ⟨Text.hexEncode [2], Text.hexEncode (Bytes32.fill 2).bytes, 0, digest⟩]
  coinbasetxn := some ⟨Text.hexEncode (sampleCoinbase v5Version 20 9),
    Text.hexEncode (Bytes32.fill 3).bytes, none⟩
  target := Text.hexEncode (Bytes32.fill 255).bytes
  curtime := 0
  bits := Text.hexEncode [5, 5, 5, 5]
  height := 50
  longpollid := none

/-- The injection of a tag into the template's coinbase. -/
def injectTwoTransactions (digest : Option String) : Except String InjectionResult :=
  injectCoinbaseTag sampleCoinbasePrims (Text.hexEncode (sampleCoinbase v5Version 20 9))
    (ascii "pool") (twoTransactionTemplate digest).chainHistoryRoot
    (twoTransactionTemplate digest).txAuthDigests

theorem injectTwoTransactions_eq (digest : Option String) :
    injectTwoTransactions digest
      = injectInline sampleCoinbasePrims true (Text.hexEncode (sampleCoinbase v5Version 20 9))
          (sampleCoinbase v5Version 20 9) (ascii "pool")
          (twoTransactionTemplate digest).chainHistoryRoot
          (twoTransactionTemplate digest).txAuthDigests :=
  injectCoinbaseTag_hexEncode sampleCoinbasePrims true (by decide) _ _ _

theorem injectTwoTransactions_ok (digest : Option String)
    (h : (injectTwoTransactions digest).toOption.any (·.newBlockCommitments.isSome) = true) :
    ∃ result bc, injectTwoTransactions digest = .ok result ∧
      result.newBlockCommitments = some bc := by
  cases hinj : injectTwoTransactions digest with
  | error e =>
    rw [hinj] at h
    cases h
  | ok result =>
    rw [hinj] at h
    obtain ⟨bc, hbc⟩ := Option.isSome_iff_exists.1 h
    exact ⟨result, bc, rfl, hbc⟩

theorem commitsToEvery_iff_twoTransactions :
    ∃ result newData commitments,
      injectTwoTransactions (some (Text.hexEncode (Bytes32.fill 2).bytes)) = .ok result ∧
      result.newCoinbaseHex = Text.hexEncode newData ∧
      CommitsToEvery sampleCoinbasePrims
        (twoTransactionTemplate (some (Text.hexEncode (Bytes32.fill 2).bytes))) newData
        commitments := by
  obtain ⟨result, bc, hinj, hbc⟩ := injectTwoTransactions_ok
    (some (Text.hexEncode (Bytes32.fill 2).bytes))
    (by rw [injectTwoTransactions_eq]; decide +kernel)
  have hv5 : (sampleCoinbase v5Version 20 9).take 4 = v5Version := by decide
  have hall : ∀ tx ∈ (twoTransactionTemplate
      (some (Text.hexEncode (Bytes32.fill 2).bytes))).transactions, tx.authdigest ≠ none := by
    simp [twoTransactionTemplate]
  obtain ⟨newData, commitments, -, hnew, -, -, hcommits⟩ :=
    (commitsToEvery_iff sampleCoinbasePrims
      (twoTransactionTemplate (some (Text.hexEncode (Bytes32.fill 2).bytes))) "1" rfl
      (Text.hexDecode_hexEncode _) hv5 hinj hbc).2 hall
  exact ⟨result, newData, commitments, hinj, hnew, hcommits⟩

/-- A transaction without a digest: the injection succeeds all the same, and what it returns
    covers no block with that transaction. -/
theorem commitments_skip_transaction :
    ∃ result bc, injectTwoTransactions none = .ok result ∧ result.newBlockCommitments = some bc ∧
      ¬ ∃ newData commitments,
        CommitsToEvery sampleCoinbasePrims (twoTransactionTemplate none) newData commitments := by
  obtain ⟨result, bc, hinj, hbc⟩ := injectTwoTransactions_ok none
    (by rw [injectTwoTransactions_eq]; decide +kernel)
  refine ⟨result, bc, hinj, hbc, ?_⟩
  rintro ⟨newData, commitments, coinbaseAuth, leaves, root, -, hleaves, -⟩
  obtain ⟨leaf, hleaf⟩ := exists_right_of_forall₂ hleaves
    (List.mem_cons_of_mem _ List.mem_cons_self)
  cases hleaf

end ZcashMiningPool
