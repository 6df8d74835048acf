import ZcashMiningPool.PoolCore.BlockRoots

/-!
# The Merkle root of the header

The root a job puts into its header, against the transactions of the block that is assembled from
the same job.  Transaction ids are shown in display order; the tree of a block is built over the
internal order, the tree of `compute_merkle_root` over the display order.

* `CommitsToBlock` — the root in the header is that of the assembled block.
* `tagTemplate_showsTxids` — what the tag does to the template's hashes and to the node's root.

Principal results:

* `commitsToBlock_iff` — whatever SHA-256d computes, the header commits to the block exactly when
  the node's root is kept or the coinbase is the only transaction.
-/

set_option autoImplicit false

namespace ZcashMiningPool

open MerkleTree

/-! ## Headers and blocks -/

/-- The transactions of the block that is assembled from a template, decoded. -/
def blockTransactions (template : BlockTemplate) : Option (List Bytes) :=
  template.coinbasetxn.bind (fun cb =>
    (cb.data :: template.transactions.map (·.data)).mapM Text.hexDecode)

/-- A block that could be assembled consists of header, count and these transactions. -/
theorem assembleFullBlock_spec {header block : Bytes} {template : BlockTemplate}
    (h : assembleFullBlock header template = .ok block) :
    ∃ txs, blockTransactions template = some txs ∧
      block = header ++ compactSize txs.length ++ txs.flatten := by
  unfold assembleFullBlock at h
  cases hcb : template.coinbasetxn with
  | none =>
    rw [hcb] at h
    cases h
  | some cb =>
    simp only [hcb] at h
    cases hcat : concatHex ((cb.data, "Invalid coinbase hex") ::
        template.transactions.map (fun tx => (tx.data, "Invalid transaction hex"))) with
    | error e =>
      rw [hcat] at h
      cases h
    | ok bs =>
      rw [hcat] at h
      cases h
      obtain ⟨parts, hparts, rfl⟩ := concatHex_eq_ok.1 hcat
      rw [List.map_cons, List.map_map] at hparts
      have hlen : parts.length = 1 + template.transactions.length := by
        have hcount := (mapM_eq_some_iff.1 hparts).length_eq
        rw [List.length_cons, List.length_map] at hcount
        omega
      refine ⟨parts, ?_, by rw [hlen]⟩
      rw [blockTransactions, hcb]
      exact hparts

theorem assembleFullBlock_of_transactions (header : Bytes) {template : BlockTemplate}
    {txs : List Bytes} (h : blockTransactions template = some txs) :
    assembleFullBlock header template = .ok (header ++ compactSize txs.length ++ txs.flatten) := by
  obtain ⟨cb, hcb, hparts⟩ := Option.bind_eq_some_iff.1 h
  have hlen : txs.length = 1 + template.transactions.length := by
    have hcount := (mapM_eq_some_iff.1 hparts).length_eq
    rw [List.length_cons, List.length_map] at hcount
    omega
  have hcat : concatHex ((cb.data, "Invalid coinbase hex") ::
      template.transactions.map (fun tx => (tx.data, "Invalid transaction hex")))
        = .ok txs.flatten := by
    refine concatHex_eq_ok.2 ⟨txs, ?_, rfl⟩
    rw [List.map_cons, List.map_map]
    exact hparts
  unfold assembleFullBlock
  simp only [hcb, hcat, hlen]
  rfl

theorem exists_hexDecode_reverseHex (hex : String) :
    ∃ bs, Text.hexDecode (reverseHex hex) = some bs :=
  ⟨_, Text.hexDecode_hexEncode _⟩

/-- The texts of a job decode. -/
theorem buildHeaderInput_fromTemplate (sha256d : Bytes → Bytes32) (template : BlockTemplate)
    (jobId : String) :
    ∃ input, buildHeaderInput (MiningJob.fromTemplate sha256d template jobId)
      (MiningJob.fromTemplate sha256d template jobId).timeHex = .ok input := by
  obtain ⟨prev, hprev⟩ := exists_hexDecode_reverseHex template.previousblockhash
  obtain ⟨root, hroot⟩ := exists_hexDecode_reverseHex
    ((template.defaultroots.bind (·.merkleroot)).getD (computeMerkleRoot sha256d template))
  obtain ⟨reserved, hreserved⟩ := exists_hexDecode_reverseHex
    (((template.defaultroots.bind (·.blockcommitmentshash)).or
      (template.blockcommitmentshash.or
        (template.lightclientroothash.or template.finalsaplingroothash))).getD
      (Text.hexEncode (Bytes32.fill 0).bytes))
  obtain ⟨bits, hbits⟩ := exists_hexDecode_reverseHex template.bits
  refine ⟨_, concatHex_eq_ok.2 ⟨[leBytes 4 template.version, prev, root, reserved,
    leBytes 4 template.curtime, bits], ?_, rfl⟩⟩
  refine mapM_eq_some_iff.2 ?_
  exact .cons (Text.hexDecode_hexEncode _) (.cons hprev (.cons hroot (.cons hreserved
    (.cons (Text.hexDecode_hexEncode _) (.cons hbits .nil)))))

/-! ## Transaction ids -/

section Ids

variable (sha256d later : Bytes → Bytes32)

/-- Transaction ids in internal order: since version 5 what `later` says, before that the double
    hash of the data. -/
def txid (data : Bytes) : Bytes32 :=
  if data.take 4 = v5Version ∨ data.take 4 = v6Version then later data else sha256d data

/-- The root of a block of these transactions. -/
def txidRoot (txs : List Bytes) : Option Bytes32 :=
  bitcoinRoot (merkleNode sha256d) (txs.map (txid sha256d later))

/-- The root in the header is that of the transactions of the assembled block. -/
def CommitsToBlock (job : MiningJob) : Prop :=
  ∀ timeHex input header block, buildHeaderInput job timeHex = .ok input →
    assembleFullBlock header job.template = .ok block →
    ∃ (version prev rest : Bytes) (root : Bytes32) (txs : List Bytes),
      Text.hexDecode job.versionHex = some version ∧ Text.hexDecode job.prevHashHex = some prev ∧
      input = version ++ prev ++ root.bytes ++ rest ∧
      blockTransactions job.template = some txs ∧
      block = header ++ compactSize txs.length ++ txs.flatten ∧
      txidRoot sha256d later txs = some root

/-- `hash` shows the id of the transaction `data` in display order. -/
def ShowsTxid (hash : String) (data : Bytes) : Prop :=
  Text.hexDecode hash = some (txid sha256d later data).reverse.bytes

/-- The hash texts of a template show the ids of its transactions. -/
structure ShowsTxids (txs : List Bytes) (template : BlockTemplate) : Prop where
  data : blockTransactions template = some txs
  hashes : List.Forall₂ (ShowsTxid sha256d later)
    (template.coinbasetxn.toList.map (·.hash) ++ template.transactions.map (·.hash)) txs

/-- What transaction ids since version 5 leave out: the scriptSig of the coinbase. -/
structure LaterIds (zebra : ZebraChain) : Prop where
  v5 : ∀ data place scriptSig, data.take 4 = v5Version → locateScriptSig data 20 = .ok place →
    scriptSig.length ≤ maxScriptSigLen → later (setScriptSig data place scriptSig) = later data
  v6 : ∀ data tx bs bs' newData, zebra.deserialize data = .ok tx → zebra.isV6 tx →
    zebra.coinbaseData tx = some bs →
    zebra.serialize (zebra.setCoinbaseData tx bs') = .ok newData →
    newData.take 4 = v6Version ∧ later newData = later data

/-- A version 4 coinbase that the tag is put into; its id changes. -/
def TagFits (tag data : Bytes) : Prop :=
  data.take 4 = v4Version ∧ ∃ place, locateScriptSig data 8 = .ok place ∧
    ¬ tag <:+: scriptSigOf data place ∧
    (scriptSigOf data place).length + tag.length ≤ maxScriptSigLen

/-- The tag changes the id of the coinbase. -/
def Retagged (tag : Option Bytes) (coinbase : Bytes) : Prop :=
  ∃ bs, tag = some bs ∧ TagFits bs coinbase

variable {sha256d later}

/-! ### The injection -/

theorem take_setScriptSig {data : Bytes} (scriptSig : Bytes) {headerLen : ℕ}
    {place : ScriptSigPlace} (h : locateScriptSig data headerLen = .ok place) :
    (setScriptSig data place scriptSig).take 4 = data.take 4 := by
  obtain ⟨csLen, -, hoffset, hbound⟩ := locateScriptSig_spec h
  unfold setScriptSig
  rw [List.append_assoc, List.append_assoc, List.take_append_of_le_length, List.take_take]
  · congr 1
    omega
  · rw [List.length_take]
    omega

theorem txid_v4 {data : Bytes} (h : data.take 4 = v4Version) :
    txid sha256d later data = sha256d data := by
  unfold txid
  rw [h, if_neg (by decide)]

theorem txid_later {data : Bytes} (h : data.take 4 = v5Version ∨ data.take 4 = v6Version) :
    txid sha256d later data = later data := if_pos h

theorem exists_of_map_eq_ok {ε α β : Type} {f : α → β} {x : Except ε α} {b : β}
    (h : x.map f = .ok b) : ∃ a, x = .ok a ∧ f a = b := by
  cases x with
  | error e => cases h
  | ok a => exact ⟨a, rfl, Except.ok.inj h⟩

theorem injectV6ViaZebra_txid {prims : CoinbasePrimitives} (hlater : LaterIds later prims.zebra)
    {tag data : Bytes} {rootHex : String} {digests : List String} {result : InjectionResult}
    (hv6 : data.take 4 = v6Version)
    (h : injectV6ViaZebra prims data tag rootHex digests = .ok result) :
    ∃ newData, Text.hexDecode result.newCoinbaseHex = some newData ∧ result.newTxid = none ∧
      txid sha256d later newData = txid sha256d later data := by
  unfold injectV6ViaZebra at h
  dsimp only at h
  split at h
  · cases h
  · rename_i tx htx
    split at h
    · cases h
    · rename_i hisV6
      split at h
      · cases h
      · rename_i bs hbs
        split at h
        · cases h
        · split at h
          · cases h
          · rename_i newData hnew
            obtain ⟨bc, -, rfl⟩ := exists_of_map_eq_ok h
            obtain ⟨hnewVersion, hid⟩ := hlater.v6 _ _ _ _ _ htx (not_not.1 hisV6) hbs hnew
            refine ⟨newData, Text.hexDecode_hexEncode newData, rfl, ?_⟩
            rw [txid_later (.inr hnewVersion), txid_later (.inr hv6), hid]

theorem injectInline_v5_txid {prims : CoinbasePrimitives} (hlater : LaterIds later prims.zebra)
    {coinbaseHex rootHex : String} {tag data : Bytes} {digests : List String}
    {result : InjectionResult} (hdata : Text.hexDecode coinbaseHex = some data)
    (hv5 : data.take 4 = v5Version)
    (h : injectInline prims true coinbaseHex data tag rootHex digests = .ok result) :
    ∃ newData, Text.hexDecode result.newCoinbaseHex = some newData ∧ result.newTxid = none ∧
      txid sha256d later newData = txid sha256d later data := by
  unfold injectInline at h
  rw [if_pos rfl] at h
  split at h
  · cases h
  · rename_i place hplace
    split at h
    · cases h
      exact ⟨data, hdata, rfl, rfl⟩
    · dsimp only at h
      split at h
      · cases h
      · rename_i hlen
        unfold injectInto at h
        dsimp only at h
        rw [if_pos rfl] at h
        obtain ⟨bc, -, rfl⟩ := exists_of_map_eq_ok h
        refine ⟨_, Text.hexDecode_hexEncode _, rfl, ?_⟩
        have htake := take_setScriptSig (scriptSigOf data place ++ tag) hplace
        rw [txid_later (.inl (htake.trans hv5)), txid_later (.inl hv5)]
        apply hlater.v5 data place _ hv5 hplace
        rw [List.length_append]
        omega

/-- A version 4 injection: the id of the new coinbase is its double hash. -/
theorem injectInline_v4_txid (later : Bytes → Bytes32) {prims : CoinbasePrimitives}
    {coinbaseHex rootHex : String} {tag data : Bytes} {digests : List String}
    {result : InjectionResult} (hv4 : data.take 4 = v4Version)
    (h : injectInline prims false coinbaseHex data tag rootHex digests = .ok result) :
    (¬ TagFits tag data ∧ result = ⟨coinbaseHex, none, none⟩) ∨
      (TagFits tag data ∧ ∃ newData id, Text.hexDecode result.newCoinbaseHex = some newData ∧
        result.newTxid = some id ∧ ShowsTxid prims.sha256d later id newData) := by
  unfold injectInline at h
  rw [if_neg Bool.false_ne_true] at h
  split at h
  · cases h
  · rename_i place hplace
    split at h
    · rename_i htag
      cases h
      refine .inl ⟨?_, rfl⟩
      rintro ⟨-, place', hplace', hnot, -⟩
      rw [hplace] at hplace'
      cases hplace'
      exact hnot htag
    · rename_i htag
      dsimp only at h
      split at h
      · cases h
      · rename_i hlen
        unfold injectInto at h
        dsimp only at h
        rw [if_neg Bool.false_ne_true] at h
        cases h
        refine .inr ⟨⟨hv4, place, hplace, htag, by omega⟩, _, _, Text.hexDecode_hexEncode _, rfl,
          ?_⟩
        have htake := take_setScriptSig (scriptSigOf data place ++ tag) hplace
        unfold ShowsTxid
        rw [Text.hexDecode_hexEncode, txid_v4 (htake.trans hv4)]

/-- An injection changes the id of a version 4 coinbase and says so, or it keeps the id. -/
theorem injectCoinbaseTag_txid {prims : CoinbasePrimitives} (hlater : LaterIds later prims.zebra)
    {coinbaseHex rootHex : String} {tag data : Bytes} {digests : List String}
    {result : InjectionResult} (hdata : Text.hexDecode coinbaseHex = some data)
    (h : injectCoinbaseTag prims coinbaseHex tag rootHex digests = .ok result) :
    ∃ newData, Text.hexDecode result.newCoinbaseHex = some newData ∧
      ((¬ TagFits tag data ∧ result.newTxid = none ∧
          txid prims.sha256d later newData = txid prims.sha256d later data) ∨
        (TagFits tag data ∧ ∃ id, result.newTxid = some id ∧
          ShowsTxid prims.sha256d later id newData)) := by
  have hversions : v6Version ≠ v4Version ∧ v5Version ≠ v4Version := by decide
  simp only [injectCoinbaseTag, hdata] at h
  split at h
  · cases h
  split at h
  · rename_i hv6
    obtain ⟨newData, hnew, hnone, hid⟩ := injectV6ViaZebra_txid hlater hv6 h
    exact ⟨newData, hnew, .inl ⟨fun hfits => hversions.1 (hv6.symm.trans hfits.1), hnone, hid⟩⟩
  split at h
  · rename_i hv5
    obtain ⟨newData, hnew, hnone, hid⟩ := injectInline_v5_txid hlater hdata hv5 h
    exact ⟨newData, hnew, .inl ⟨fun hfits => hversions.2 (hv5.symm.trans hfits.1), hnone, hid⟩⟩
  split at h
  · rename_i hv4
    rcases injectInline_v4_txid later hv4 h with
      ⟨hnot, rfl⟩ | ⟨hfits, newData, id, hnew, hid, hshows⟩
    · exact ⟨data, hdata, .inl ⟨hnot, rfl, rfl⟩⟩
    · exact ⟨newData, hnew, .inr ⟨hfits, id, hid, hshows⟩⟩
  · cases h

/-- A tag that fits is not refused. -/
theorem injectCoinbaseTag_of_fits (prims : CoinbasePrimitives) {coinbaseHex : String}
    (rootHex : String) {tag data : Bytes} (digests : List String)
    (hdata : Text.hexDecode coinbaseHex = some data) (h : TagFits tag data) :
    ∃ result, injectCoinbaseTag prims coinbaseHex tag rootHex digests = .ok result := by
  obtain ⟨hv4, place, hplace, htag, hlen⟩ := h
  have hshort : ¬ data.length < 4 := by
    intro hlt
    have hcount := congrArg List.length hv4
    rw [List.length_take, v4Version] at hcount
    simp only [List.length_cons, List.length_nil] at hcount
    omega
  have hv6 : v4Version ≠ v6Version := by decide
  have hv5 : v4Version ≠ v5Version := by decide
  simp only [injectCoinbaseTag, hdata, hv4, injectInline, Bool.false_eq_true, if_false, hplace]
  rw [if_neg hshort, if_neg hv6, if_neg hv5, if_pos trivial, if_neg htag, if_neg (by omega)]
  exact ⟨_, rfl⟩

/-! ### The tagged template -/

/-- The node's root that the job keeps. -/
def nodeRoot (template : BlockTemplate) : Option String :=
  template.defaultroots.bind (·.merkleroot)

theorem setInjection_coinbasetxn (template : BlockTemplate) (cb : CoinbaseTxn)
    (result : InjectionResult) :
    (template.setInjection cb result).coinbasetxn
      = some ⟨result.newCoinbaseHex, result.newTxid.getD cb.hash, cb.fee⟩ := by
  unfold BlockTemplate.setInjection
  cases result.newTxid <;> cases result.newBlockCommitments <;> rfl

theorem nodeRoot_setInjection (template : BlockTemplate) (cb : CoinbaseTxn)
    (result : InjectionResult) :
    nodeRoot (template.setInjection cb result)
      = if result.newTxid.isSome then none else nodeRoot template := by
  unfold BlockTemplate.setInjection nodeRoot
  cases result.newTxid <;> cases result.newBlockCommitments <;> cases template.defaultroots <;> rfl

theorem ShowsTxids.cons {cb : CoinbaseTxn} {template : BlockTemplate} {data : Bytes}
    {txs : List Bytes} (hcb : template.coinbasetxn = some cb)
    (hdata : Text.hexDecode cb.data = some data) (hhash : ShowsTxid sha256d later cb.hash data)
    (htxs : (template.transactions.map (·.data)).mapM Text.hexDecode = some txs)
    (hhashes : List.Forall₂ (ShowsTxid sha256d later) (template.transactions.map (·.hash)) txs) :
    ShowsTxids sha256d later (data :: txs) template where
  data := by
    rw [blockTransactions, hcb, Option.bind_some, List.mapM_cons, hdata, htxs]
    rfl
  hashes := by
    rw [hcb]
    exact .cons hhash hhashes

/-- The coinbase comes first. -/
theorem ShowsTxids.exists_cons {template : BlockTemplate} {txs : List Bytes}
    (h : ShowsTxids sha256d later txs template) :
    ∃ cb data others, txs = data :: others ∧ template.coinbasetxn = some cb ∧
      Text.hexDecode cb.data = some data ∧ ShowsTxid sha256d later cb.hash data ∧
      (template.transactions.map (·.data)).mapM Text.hexDecode = some others ∧
      List.Forall₂ (ShowsTxid sha256d later) (template.transactions.map (·.hash)) others := by
  obtain ⟨cb, hcb, hparts⟩ := Option.bind_eq_some_iff.1 h.data
  have hhashes := h.hashes
  rw [List.mapM_cons] at hparts
  obtain ⟨data, hdata, hparts⟩ := Option.bind_eq_some_iff.1 hparts
  obtain ⟨others, hothers, hcons⟩ := Option.bind_eq_some_iff.1 hparts
  cases hcons
  rw [hcb] at hhashes
  cases hhashes with
  | cons hhash hhashes => exact ⟨cb, data, others, rfl, hcb, hdata, hhash, hothers, hhashes⟩

/-- **What the tag does to the hashes**: they still show the ids, and the node's root goes exactly
    when the coinbase gets another id. -/
theorem tagTemplate_showsTxids (prims : CoinbasePrimitives) (hlater : LaterIds later prims.zebra)
    (tag : Option Bytes) {template : BlockTemplate} {coinbase : Bytes} {txs : List Bytes}
    (h : ShowsTxids prims.sha256d later (coinbase :: txs) template) :
    ∃ coinbase', ShowsTxids prims.sha256d later (coinbase' :: txs)
        ((tagTemplate (injectCoinbaseTag prims) tag template).toOption.getD template) ∧
      ((Retagged tag coinbase ∧
          nodeRoot ((tagTemplate (injectCoinbaseTag prims) tag template).toOption.getD template)
            = none) ∨
        (¬ Retagged tag coinbase ∧
          nodeRoot ((tagTemplate (injectCoinbaseTag prims) tag template).toOption.getD template)
            = nodeRoot template ∧
          txid prims.sha256d later coinbase' = txid prims.sha256d later coinbase)) := by
  obtain ⟨cb, data, others, hcons, hcb, hdata, hhash, htxs, hhashes⟩ := h.exists_cons
  cases hcons
  cases htagged : tagTemplate (injectCoinbaseTag prims) tag template with
  | error e =>
    refine ⟨coinbase, h, .inr ⟨?_, rfl, rfl⟩⟩
    rintro ⟨bs, rfl, hfits⟩
    obtain ⟨result, hok⟩ := injectCoinbaseTag_of_fits prims template.chainHistoryRoot
      template.txAuthDigests hdata hfits
    simp only [tagTemplate, hcb, hok] at htagged
    cases htagged
  | ok tagged =>
    dsimp only [Except.toOption, Option.getD_some]
    rcases tagTemplate_cases htagged with ⟨rfl, hnone⟩ | ⟨bs, cb', result, rfl, hcb', hok, rfl⟩
    · refine ⟨coinbase, h, .inr ⟨?_, rfl, rfl⟩⟩
      rintro ⟨bs, rfl, -⟩
      rcases hnone with hnone | hnone
      · cases hnone
      · rw [hcb] at hnone
        cases hnone
    · rw [hcb] at hcb'
      cases hcb'
      obtain ⟨htransactions, -⟩ := setInjection_frame template cb result
      obtain ⟨newData, hnew, hcases⟩ := injectCoinbaseTag_txid hlater hdata hok
      have hshows : ShowsTxid prims.sha256d later (result.newTxid.getD cb.hash) newData →
          ShowsTxids prims.sha256d later (newData :: txs) (template.setInjection cb result) := by
        intro hid
        refine ShowsTxids.cons (setInjection_coinbasetxn template cb result) hnew hid ?_ ?_
        · rw [htransactions]
          exact htxs
        · rw [htransactions]
          exact hhashes
      rw [nodeRoot_setInjection]
      refine ⟨newData, ?_⟩
      rcases hcases with ⟨hnot, hnone, hid⟩ | ⟨hfits, id, hsome, hid⟩
      · rw [hnone] at hshows ⊢
        refine ⟨hshows ?_, .inr ⟨?_, rfl, hid⟩⟩
        · unfold ShowsTxid
          rw [hid]
          exact hhash
        · rintro ⟨bs', hbs, hfits⟩
          cases hbs
          exact hnot hfits
      · rw [hsome] at hshows ⊢
        exact ⟨hshows hid, .inl ⟨⟨bs, rfl, hfits⟩, rfl⟩⟩

/-! ### The job's root -/

theorem hexDecode_reverseHex {hex : String} {bs : Bytes} (h : Text.hexDecode hex = some bs) :
    Text.hexDecode (reverseHex hex) = some bs.reverse := by
  unfold reverseHex
  rw [h, Option.getD_some, Text.hexDecode_hexEncode]

theorem filterMap_decodeHash {hashes : List String} {txs : List Bytes}
    (h : List.Forall₂ (ShowsTxid sha256d later) hashes txs) :
    hashes.filterMap decodeHash = txs.map (fun tx => (txid sha256d later tx).reverse) := by
  induction h with
  | nil => rfl
  | @cons hash tx hashes txs hshow _ ih =>
    have hdecode : decodeHash hash = some (txid sha256d later tx).reverse := by
      rw [decodeHash, hshow, Option.bind_some, Bytes32.ofBytes?_bytes]
    rw [List.filterMap_cons_some hdecode, ih, List.map_cons]

theorem templateHashes_eq {template : BlockTemplate} {txs : List Bytes}
    (h : ShowsTxids sha256d later txs template) :
    templateHashes template = txs.map (fun tx => (txid sha256d later tx).reverse) := by
  rw [← filterMap_decodeHash h.hashes, List.filterMap_append, List.filterMap_map,
    List.filterMap_map]
  rfl

/-- Without the node's root the header gets the reversed root of the reversed ids. -/
theorem headerRoot_computed {template : BlockTemplate} {txs : List Bytes} (root : Bytes32)
    (jobId : String) (h : ShowsTxids sha256d later txs template)
    (hroot : bitcoinRoot (merkleNode sha256d)
      (txs.map (fun tx => (txid sha256d later tx).reverse)) = some root)
    (hnone : nodeRoot template = none) :
    Text.hexDecode (MiningJob.fromTemplate sha256d template jobId).merkleRootHex
      = some root.reverse.bytes := by
  have hcomputed : computeMerkleRoot sha256d template = Text.hexEncode root.bytes := by
    rw [computeMerkleRoot, templateHashes_eq h, hroot]
  have hjob : (MiningJob.fromTemplate sha256d template jobId).merkleRootHex
      = reverseHex ((nodeRoot template).getD (computeMerkleRoot sha256d template)) := rfl
  rw [hjob, hnone, Option.getD_none, hcomputed]
  exact hexDecode_reverseHex (Text.hexDecode_hexEncode _)

/-- The node's root goes into the header as it is. -/
theorem headerRoot_kept {template : BlockTemplate} {r : String} {root : Bytes32} (jobId : String)
    (hkept : nodeRoot template = some r) (hr : Text.hexDecode r = some root.reverse.bytes) :
    Text.hexDecode (MiningJob.fromTemplate sha256d template jobId).merkleRootHex
      = some root.bytes := by
  have hjob : (MiningJob.fromTemplate sha256d template jobId).merkleRootHex
      = reverseHex ((nodeRoot template).getD (computeMerkleRoot sha256d template)) := rfl
  have hrev := hexDecode_reverseHex hr
  rw [Bytes32.reverse, List.reverse_reverse] at hrev
  rw [hjob, hkept, Option.getD_some, hrev]

theorem commitsToBlock_of_root {job : MiningJob} {root : Bytes32} {txs : List Bytes}
    (hroot : Text.hexDecode job.merkleRootHex = some root.bytes)
    (htxs : blockTransactions job.template = some txs)
    (hids : txidRoot sha256d later txs = some root) : CommitsToBlock sha256d later job := by
  intro timeHex input header block hinput hblock
  obtain ⟨version, prev, root', reserved, time, bits, hversion, hprev, hroot', -, -, -, rfl⟩ :=
    buildHeaderInput_spec hinput
  obtain ⟨txs', htxs', rfl⟩ := assembleFullBlock_spec hblock
  rw [hroot] at hroot'
  cases hroot'
  rw [htxs] at htxs'
  cases htxs'
  refine ⟨version, prev, reserved ++ (time ++ bits), root, txs, hversion, hprev, ?_, htxs, rfl,
    hids⟩
  simp only [List.append_assoc]

/-- The root in the header of a job that commits to its block. -/
theorem CommitsToBlock.root_eq {template : BlockTemplate} {jobId : String} {txs : List Bytes}
    {root : Bytes32}
    (h : CommitsToBlock sha256d later (MiningJob.fromTemplate sha256d template jobId))
    (hroot : Text.hexDecode (MiningJob.fromTemplate sha256d template jobId).merkleRootHex
      = some root.bytes)
    (htxs : blockTransactions template = some txs) :
    txidRoot sha256d later txs = some root := by
  obtain ⟨input, hinput⟩ := buildHeaderInput_fromTemplate sha256d template jobId
  have hblock := assembleFullBlock_of_transactions [] htxs
  obtain ⟨version, prev, rest, root', txs', hversion, hprev, heq, htxs', -, hids⟩ :=
    h _ _ _ _ hinput hblock
  obtain ⟨version', prev', bs, reserved, time, bits, hversion', hprev', hbs, -, -, -, heq'⟩ :=
    buildHeaderInput_spec hinput
  rw [hversion] at hversion'
  rw [hprev] at hprev'
  rw [hroot] at hbs
  cases hversion'
  cases hprev'
  cases hbs
  have htail : root'.bytes ++ rest = root.bytes ++ (reserved ++ (time ++ bits)) := by
    rw [heq'] at heq
    simp only [List.append_assoc] at heq
    exact (List.append_cancel_left (List.append_cancel_left heq)).symm
  have hbytes := (List.append_inj htail (by rw [root.length_eq, root'.length_eq])).1
  have hsame : root' = root := by
    cases root
    cases root'
    cases hbytes
    rfl
  have htxs'' : blockTransactions template = some txs' := htxs'
  rw [htxs] at htxs''
  cases htxs''
  rw [hids, hsame]

end Ids

/-! ## The jobs of a template -/

section Jobs

variable (prims : CoinbasePrimitives)

/-- The template that the full job is made of: with the tag, or as it came if that is refused. -/
def tagged (tag : Option Bytes) (template : BlockTemplate) : BlockTemplate :=
  (tagTemplate (injectCoinbaseTag prims) tag template).toOption.getD template

/-- A job that `process_template` or `broadcast_empty_block` builds. -/
def Built (m : JobManager) (now : ℚ) (template : BlockTemplate) (job : MiningJob) : Prop :=
  job ∈ (m.processTemplate prims.sha256d (injectCoinbaseTag prims) (injectCoinbaseTag prims) now
      template).broadcasts.map (·.1) ∨
    job ∈ (m.broadcastEmptyBlock prims.sha256d (injectCoinbaseTag prims) template).1

theorem broadcastEmptyBlock_job {m : JobManager} {template : BlockTemplate} {job : MiningJob}
    (h : job ∈ (m.broadcastEmptyBlock prims.sha256d (injectCoinbaseTag prims) template).1) :
    ∃ jobId, job = MiningJob.fromTemplate prims.sha256d
      (tagged prims m.coinbaseTag template.emptied) jobId := by
  unfold JobManager.broadcastEmptyBlock at h
  unfold tagged
  cases htag : tagTemplate (injectCoinbaseTag prims) m.coinbaseTag template.emptied with
  | error e =>
    rw [htag] at h
    cases h
  | ok empty =>
    rw [htag] at h
    exact ⟨_, List.mem_singleton.1 h⟩

theorem broadcastEmptyBlock_frame (inject : Inject) (m : JobManager) (template : BlockTemplate) :
    (m.broadcastEmptyBlock prims.sha256d inject template).2.coinbaseTag = m.coinbaseTag ∧
      (m.broadcastEmptyBlock prims.sha256d inject template).2.lastNonCleanBroadcast
        = m.lastNonCleanBroadcast := by
  unfold JobManager.broadcastEmptyBlock
  split <;> exact ⟨rfl, rfl⟩

/-- A call announces the early job, if it makes one, and then at most the full job. -/
theorem processTemplate_broadcasts (m : JobManager) (now : ℚ) (template : BlockTemplate) :
    ∃ (early : List MiningJob) (m' : JobManager),
      (early = [] ∨ ∃ m₀ : JobManager, m₀.coinbaseTag = m.coinbaseTag ∧
        early = (m₀.broadcastEmptyBlock prims.sha256d (injectCoinbaseTag prims) template).1) ∧
      m'.coinbaseTag = m.coinbaseTag ∧
      let out := m.processTemplate prims.sha256d (injectCoinbaseTag prims)
        (injectCoinbaseTag prims) now template
      ((⌊now - m.lastNonCleanBroadcast⌋ < nonCleanJobIntervalSecs ∧
          out.broadcasts = early.map (·, true)) ∨
        ∃ cleanJobs, out.broadcasts = early.map (·, true) ++
          [(m'.nextJob prims.sha256d (tagged prims m'.coinbaseTag template), cleanJobs)]) := by
  unfold JobManager.processTemplate
  dsimp only
  cases decide (m.lastPrevHash ≠ template.previousblockhash) && template.transactions.isEmpty with
  | false =>
    refine ⟨[], { m with lastLongpollid := template.longpollid }, .inl rfl, rfl, ?_⟩
    rw [if_neg Bool.false_ne_true]
    dsimp only
    split
    · rename_i hthrottled
      refine .inl ⟨?_, rfl⟩
      simp only [Bool.not_eq_true', Bool.or_eq_false_iff, decide_eq_false_iff_not] at hthrottled
      exact not_le.1 hthrottled.2
    · exact .inr ⟨_, rfl⟩
  | true =>
    rw [if_pos rfl]
    have hframe := broadcastEmptyBlock_frame prims (injectCoinbaseTag prims)
      { m with lastLongpollid := template.longpollid } template
    refine ⟨_, _, .inr ⟨{ m with lastLongpollid := template.longpollid }, rfl, rfl⟩, hframe.1, ?_⟩
    split
    · rename_i hthrottled
      refine .inl ⟨?_, rfl⟩
      simp only [Bool.not_eq_true', Bool.or_eq_false_iff, decide_eq_false_iff_not, hframe.2]
        at hthrottled
      exact not_le.1 hthrottled.2
    · exact .inr ⟨_, rfl⟩

variable {prims}

/-- Every job is made of the template without its transactions or of the whole template. -/
theorem Built.cases {m : JobManager} {now : ℚ} {template : BlockTemplate} {job : MiningJob}
    (h : Built prims m now template job) :
    (∃ jobId, job = MiningJob.fromTemplate prims.sha256d
        (tagged prims m.coinbaseTag template.emptied) jobId) ∨
      ∃ jobId, job = MiningJob.fromTemplate prims.sha256d
        (tagged prims m.coinbaseTag template) jobId := by
  rcases h with h | h
  · obtain ⟨early, m', hearly, htag, hout⟩ :=
      processTemplate_broadcasts prims m now template
    have hempty : job ∈ early → ∃ jobId, job = MiningJob.fromTemplate prims.sha256d
        (tagged prims m.coinbaseTag template.emptied) jobId := by
      intro hjob
      rcases hearly with rfl | ⟨m₀, htag₀, rfl⟩
      · cases hjob
      · rw [← htag₀]
        exact broadcastEmptyBlock_job prims hjob
    have hfst : early.map (fun job => (job, true).1) = early := List.map_id _
    rcases hout with ⟨-, hout⟩ | ⟨cleanJobs, hout⟩
    · rw [hout, List.map_map] at h
      exact .inl (hempty (hfst ▸ h))
    · rw [hout, List.map_append, List.map_map] at h
      rcases List.mem_append.1 h with h | h
      · exact .inl (hempty (hfst ▸ h))
      · rw [← htag]
        exact .inr ⟨_, List.mem_singleton.1 h⟩
  · exact .inl (broadcastEmptyBlock_job prims h)

/-- A manager that has announced nothing for five seconds builds the full job. -/
theorem built_tagged (prims : CoinbasePrimitives) (tag : Option Bytes) (template : BlockTemplate) :
    ∃ jobId, Built prims (JobManager.new tag 0) 5 template
      (MiningJob.fromTemplate prims.sha256d (tagged prims tag template) jobId) := by
  obtain ⟨early, m', -, htag, hout⟩ :=
    processTemplate_broadcasts prims (JobManager.new tag 0) 5 template
  refine ⟨toString m'.jobCounter, .inl ?_⟩
  rcases hout with ⟨hthrottled, -⟩ | ⟨cleanJobs, hout⟩
  · have hlast : (JobManager.new tag 0).lastNonCleanBroadcast = 0 := rfl
    rw [hlast, sub_zero] at hthrottled
    exact absurd hthrottled (by decide)
  · have htag' : m'.coinbaseTag = tag := htag
    rw [hout, htag', List.map_append]
    exact List.mem_append_right _ List.mem_cons_self

/-- The template of a node: its hash texts show the ids, and its root, when the job keeps it, is
    that of its transactions. -/
structure FromNode (sha256d later : Bytes → Bytes32) (tag : Option Bytes) (coinbase : Bytes)
    (txs : List Bytes) (template : BlockTemplate) : Prop where
  shows : ShowsTxids sha256d later (coinbase :: txs) template
  keptRoot : ∀ r, nodeRoot template = some r → ¬ Retagged tag coinbase →
    ∃ root, txidRoot sha256d later (coinbase :: txs) = some root ∧
      Text.hexDecode r = some root.reverse.bytes

theorem ShowsTxids.emptied {sha256d later : Bytes → Bytes32} {coinbase : Bytes} {txs : List Bytes}
    {template : BlockTemplate} (h : ShowsTxids sha256d later (coinbase :: txs) template) :
    ShowsTxids sha256d later [coinbase] template.emptied := by
  obtain ⟨cb, data, others, hcons, hcb, hdata, hhash, -, -⟩ := h.exists_cons
  cases hcons
  exact ShowsTxids.cons hcb hdata hhash rfl .nil

theorem nodeRoot_emptied (template : BlockTemplate) : nodeRoot template.emptied = none := by
  unfold nodeRoot BlockTemplate.emptied
  cases template.defaultroots <;> rfl

/-- With the coinbase alone the byte order does not matter. -/
theorem commits_coinbase {sha256d later : Bytes → Bytes32} {coinbase : Bytes}
    {template : BlockTemplate} (jobId : String)
    (h : ShowsTxids sha256d later [coinbase] template) (hnone : nodeRoot template = none) :
    CommitsToBlock sha256d later (MiningJob.fromTemplate sha256d template jobId) := by
  have hroot := headerRoot_computed (txid sha256d later coinbase).reverse jobId h
    (bitcoinRoot_singleton _ _) hnone
  rw [Bytes32.reverse_reverse] at hroot
  exact commitsToBlock_of_root hroot h.data (bitcoinRoot_singleton _ _)

theorem commits_of_condition (prims : CoinbasePrimitives) {later : Bytes → Bytes32}
    (hlater : LaterIds later prims.zebra) {m : JobManager} {now : ℚ} {coinbase : Bytes}
    {txs : List Bytes} {template : BlockTemplate} {job : MiningJob}
    (hnode : FromNode prims.sha256d later m.coinbaseTag coinbase txs template)
    (hcond : txs = [] ∨ ((nodeRoot template).isSome ∧ ¬ Retagged m.coinbaseTag coinbase))
    (hjob : Built prims m now template job) : CommitsToBlock prims.sha256d later job := by
  rcases hjob.cases with ⟨jobId, rfl⟩ | ⟨jobId, rfl⟩
  · obtain ⟨coinbase', hshows, hroot⟩ :=
      tagTemplate_showsTxids prims hlater m.coinbaseTag hnode.shows.emptied
    have hnone := nodeRoot_emptied template
    rcases hroot with ⟨-, hroot⟩ | ⟨-, hroot, -⟩
    · exact commits_coinbase jobId hshows hroot
    · exact commits_coinbase jobId hshows (hroot.trans hnone)
  · obtain ⟨coinbase', hshows, hroot⟩ :=
      tagTemplate_showsTxids prims hlater m.coinbaseTag hnode.shows
    have hkept : ¬ Retagged m.coinbaseTag coinbase → ∀ r, nodeRoot template = some r →
        nodeRoot (tagged prims m.coinbaseTag template) = nodeRoot template →
        txid prims.sha256d later coinbase' = txid prims.sha256d later coinbase →
        CommitsToBlock prims.sha256d later (MiningJob.fromTemplate prims.sha256d
          (tagged prims m.coinbaseTag template) jobId) := by
      intro hnot r hr hsame hid
      obtain ⟨root, htxids, hdecode⟩ := hnode.keptRoot r hr hnot
      refine commitsToBlock_of_root (headerRoot_kept jobId (hsame.trans hr) hdecode) hshows.data ?_
      unfold txidRoot at htxids ⊢
      rw [List.map_cons] at htxids ⊢
      rw [hid, htxids]
    rcases hroot with ⟨hretagged, hroot⟩ | ⟨hnot, hroot, hid⟩
    · rcases hcond with rfl | ⟨-, hnot⟩
      · exact commits_coinbase jobId hshows hroot
      · exact absurd hretagged hnot
    · cases hr : nodeRoot template with
      | some r => exact hkept hnot r hr hroot hid
      | none =>
        rcases hcond with rfl | ⟨hsome, -⟩
        · exact commits_coinbase jobId hshows (hroot.trans hr)
        · rw [hr] at hsome
          cases hsome

/-! ### A hash function whose values read differently backwards -/

/-- One, then zeros. -/
def lopsided : Bytes32 := ⟨1 :: List.replicate 31 0, rfl⟩

theorem lopsided_reverse : lopsided.reverse ≠ lopsided := by
  intro h
  exact absurd (congrArg Bytes32.bytes h) (by decide)

/-- Every data has the hash `lopsided`. -/
def lopsidedPrims (prims : CoinbasePrimitives) : CoinbasePrimitives :=
  { prims with sha256d := fun _ => lopsided }

/-- The template of a node with that hash function. -/
def lopsidedTemplate (later : Bytes → Bytes32) (withRoot : Bool) (coinbase : Bytes)
    (txs : List Bytes) : BlockTemplate where
  version := 4
  previousblockhash := Text.hexEncode (Bytes32.fill 7).bytes
  lightclientroothash := none
  blockcommitmentshash := none
  finalsaplingroothash := none
  defaultroots := if withRoot then
    (txidRoot (fun _ => lopsided) later (coinbase :: txs)).map (fun root =>
      ⟨some (Text.hexEncode root.reverse.bytes), none, none⟩) else none
  transactions := txs.map (fun tx =>
    ⟨Text.hexEncode tx, Text.hexEncode (txid (fun _ => lopsided) later tx).reverse.bytes, 0, none⟩)
  coinbasetxn := some ⟨Text.hexEncode coinbase,
    Text.hexEncode (txid (fun _ => lopsided) later coinbase).reverse.bytes, none⟩
  target := Text.hexEncode (Bytes32.fill 255).bytes
  curtime := 0
  bits := Text.hexEncode [5, 5, 5, 5]
  height := 50
  longpollid := none

theorem nodeRoot_lopsidedTemplate (later : Bytes → Bytes32) (withRoot : Bool) (coinbase : Bytes)
    (txs : List Bytes) :
    (nodeRoot (lopsidedTemplate later withRoot coinbase txs)).isSome = withRoot := by
  obtain ⟨root, hroot⟩ := bitcoinRoot_isSome (merkleNode (fun _ => lopsided))
    (l := (coinbase :: txs).map (txid (fun _ => lopsided) later)) (by simp)
  have htxids : txidRoot (fun _ => lopsided) later (coinbase :: txs) = some root := hroot
  unfold nodeRoot lopsidedTemplate
  dsimp only
  rw [htxids]
  cases withRoot <;> rfl

theorem fromNode_lopsidedTemplate (later : Bytes → Bytes32) (tag : Option Bytes) (withRoot : Bool)
    (coinbase : Bytes) (txs : List Bytes) :
    FromNode (fun _ => lopsided) later tag coinbase txs
      (lopsidedTemplate later withRoot coinbase txs) where
  shows := by
    refine ShowsTxids.cons rfl (Text.hexDecode_hexEncode _) (Text.hexDecode_hexEncode _) ?_ ?_
    · rw [mapM_eq_some_iff, lopsidedTemplate, List.map_map, List.forall₂_map_left_iff]
      exact List.forall₂_same.2 (fun tx _ => Text.hexDecode_hexEncode _)
    · rw [lopsidedTemplate, List.map_map, List.forall₂_map_left_iff]
      exact List.forall₂_same.2 (fun tx _ => Text.hexDecode_hexEncode _)
  keptRoot := by
    intro r hr _
    unfold nodeRoot lopsidedTemplate at hr
    dsimp only at hr
    cases withRoot with
    | false => cases hr
    | true =>
      cases hroot : txidRoot (fun _ => lopsided) later (coinbase :: txs) with
      | none =>
        rw [hroot] at hr
        cases hr
      | some root =>
        rw [hroot] at hr
        cases hr
        exact ⟨root, rfl, Text.hexDecode_hexEncode _⟩

/-- The full job of that template does not commit to its block. -/
theorem lopsided_not_commits {later : Bytes → Bytes32} (hlater : LaterIds later prims.zebra)
    {tag : Option Bytes} {withRoot : Bool} {coinbase : Bytes} {txs : List Bytes}
    (htxs : txs ≠ []) (hcond : withRoot = false ∨ Retagged tag coinbase) (jobId : String) :
    ¬ CommitsToBlock (fun _ => lopsided) later (MiningJob.fromTemplate (fun _ => lopsided)
      (tagged (lopsidedPrims prims) tag (lopsidedTemplate later withRoot coinbase txs)) jobId) := by
  intro hcommits
  have hnode := fromNode_lopsidedTemplate later tag withRoot coinbase txs
  obtain ⟨coinbase', hshows, hroot⟩ := tagTemplate_showsTxids (lopsidedPrims prims)
    ⟨hlater.v5, hlater.v6⟩ tag hnode.shows
  have hnone : nodeRoot (tagged (lopsidedPrims prims) tag
      (lopsidedTemplate later withRoot coinbase txs)) = none := by
    rcases hroot with ⟨-, hroot⟩ | ⟨hnot, hroot, -⟩
    · exact hroot
    · rcases hcond with rfl | hretagged
      · have hsome := nodeRoot_lopsidedTemplate later false coinbase txs
        rw [← Option.not_isSome_iff_eq_none, tagged, hroot, hsome]
        exact Bool.false_ne_true
      · exact absurd hretagged hnot
  -- Above two ids or more both roots are the hash of something.
  have hmany : 1 < (coinbase' :: txs).length := by
    have hpos := List.length_pos_iff.2 htxs
    rw [List.length_cons]
    omega
  have hsame : ∀ {l : List Bytes32} {x : Bytes32}, 1 < l.length →
      bitcoinRoot (merkleNode (fun _ => lopsided)) l = some x → x = lopsided := by
    intro l x hl hx
    exact bitcoinRoot_of_node (P := (· = lopsided)) (fun _ _ => rfl) hl hx
  obtain ⟨root, hcomputed⟩ := bitcoinRoot_isSome (merkleNode (fun _ => lopsided))
    (l := (coinbase' :: txs).map (fun tx => (txid (fun _ => lopsided) later tx).reverse)) (by simp)
  obtain rfl := hsame (by rw [List.length_map]; exact hmany) hcomputed
  have hids := hcommits.root_eq (headerRoot_computed _ jobId hshows hcomputed hnone) hshows.data
  exact lopsided_reverse (hsame (by rw [List.length_map]; exact hmany) hids)

end Jobs

/-- **The header's root**: for given transaction data, whatever SHA-256d computes and however the
    node fills in the hashes, every job commits to its block exactly when the coinbase is the only
    transaction, or the node's root is there and the tag leaves the coinbase its id. -/
theorem commitsToBlock_iff (prims : CoinbasePrimitives) {later : Bytes → Bytes32}
    (hlater : LaterIds later prims.zebra) (tag : Option Bytes) (coinbase : Bytes)
    (txs : List Bytes) (withRoot : Bool) :
    (∀ (sha256d : Bytes → Bytes32) (template : BlockTemplate),
      (nodeRoot template).isSome = withRoot →
      FromNode sha256d later tag coinbase txs template →
      ∀ (m : JobManager) (now : ℚ) (job : MiningJob), m.coinbaseTag = tag →
        Built { prims with sha256d := sha256d } m now template job →
        CommitsToBlock sha256d later job) ↔
      txs = [] ∨ (withRoot = true ∧ ¬ Retagged tag coinbase) := by
  constructor
  · intro h
    by_contra hnot
    obtain ⟨htxs, hroot⟩ := not_or.1 hnot
    have hcond : withRoot = false ∨ Retagged tag coinbase := by
      by_cases hw : withRoot = true
      · exact .inr (not_not.1 (fun hretagged => hroot ⟨hw, hretagged⟩))
      · exact .inl (Bool.eq_false_iff.2 hw)
    obtain ⟨jobId, hbuilt⟩ := built_tagged (lopsidedPrims prims) tag
      (lopsidedTemplate later withRoot coinbase txs)
    exact lopsided_not_commits hlater htxs hcond jobId
      (h _ _ (nodeRoot_lopsidedTemplate later withRoot coinbase txs)
        (fromNode_lopsidedTemplate later tag withRoot coinbase txs) _ _ _ rfl hbuilt)
  · rintro hcond sha256d template rfl hnode m now job rfl hjob
    exact commits_of_condition { prims with sha256d := sha256d }
      ⟨hlater.v5, hlater.v6⟩ hnode hcond hjob

/-! ### Two transactions -/

/-- A version 4 coinbase with room for a tag. -/
def roomyCoinbase : Bytes := sampleCoinbase v4Version 8 9

/-- Neither transaction of the samples has a newer id. -/
def noLaterId : Bytes → Bytes32 := fun _ => Bytes32.fill 0

theorem laterIds_noLaterId : LaterIds noLaterId sampleCoinbasePrims.zebra where
  v5 := fun _ _ _ _ _ _ => rfl
  v6 := fun _ _ _ _ _ h => by cases h

/-- Without a tag the node's root is kept. -/
theorem commitsToBlock_iff_keptRoot :
    ∃ job, Built (lopsidedPrims sampleCoinbasePrims) (JobManager.new none 0) 5
        (lopsidedTemplate noLaterId true roomyCoinbase [v4Version]) job ∧
      CommitsToBlock (fun _ => lopsided) noLaterId job := by
  obtain ⟨jobId, hbuilt⟩ := built_tagged (lopsidedPrims sampleCoinbasePrims) none
    (lopsidedTemplate noLaterId true roomyCoinbase [v4Version])
  refine ⟨_, hbuilt, ?_⟩
  have hnot : ¬ Retagged none roomyCoinbase := fun ⟨_, h, _⟩ => by cases h
  exact (commitsToBlock_iff sampleCoinbasePrims laterIds_noLaterId none roomyCoinbase [v4Version]
    true).2 (.inr ⟨rfl, hnot⟩) _ _ (nodeRoot_lopsidedTemplate _ _ _ _)
    (fromNode_lopsidedTemplate _ _ _ _ _) _ _ _ rfl hbuilt

/-- A tag in a version 4 coinbase above one more transaction: the header has another root than the
    block. -/
theorem tagged_v4_root_wrong :
    ∃ job, Built (lopsidedPrims sampleCoinbasePrims) (JobManager.new (some (ascii "pool")) 0) 5
        (lopsidedTemplate noLaterId true roomyCoinbase [v4Version]) job ∧
      FromNode (fun _ => lopsided) noLaterId (some (ascii "pool")) roomyCoinbase [v4Version]
        (lopsidedTemplate noLaterId true roomyCoinbase [v4Version]) ∧
      ¬ CommitsToBlock (fun _ => lopsided) noLaterId job := by
  have hfits : Retagged (some (ascii "pool")) roomyCoinbase :=
    ⟨_, rfl, by decide, ⟨45, 46, 55⟩, by decide +kernel, by decide +kernel, by decide +kernel⟩
  obtain ⟨jobId, hbuilt⟩ := built_tagged (lopsidedPrims sampleCoinbasePrims)
    (some (ascii "pool")) (lopsidedTemplate noLaterId true roomyCoinbase [v4Version])
  exact ⟨_, hbuilt, fromNode_lopsidedTemplate _ _ _ _ _,
    lopsided_not_commits laterIds_noLaterId (List.cons_ne_nil _ _) (.inr hfits) jobId⟩

end ZcashMiningPool
