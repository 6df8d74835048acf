import ZcashMiningPool.Library.Checked
import ZcashMiningPool.PoolCore.BlockRoots
import ZcashMiningPool.PoolCore.HeaderInput

/-!
# Panics of the tag injection

`inject_coinbase_tag` index by index, slice by slice and sum by sum.  The call runs in the only task
that makes jobs.

* `TagCall` — the arguments, no larger than the language allows.
* `MayPanic.injectCoinbaseTag` — the code; version 6 and allocation are left out.
* `DeclaresScriptSig` — which length a coinbase declares for its scriptSig, and where that starts.
* `injectInline_eq` — it panics for a scriptSig that ends beyond 64 bits and for an empty tag in
  front of a complete scriptSig, and otherwise is what `injectInline` computes.

Main result: `tag_returns_iff`.
-/

set_option autoImplicit false

namespace ZcashMiningPool

open Checked MerkleTree

/-- The arguments of a call; strings and slices hold at most `isize::MAX` bytes. -/
structure TagCall where
  coinbaseHex : String
  tag : Bytes
  chainHistoryRootHex : String
  txAuthDigests : List String
  coinbaseHex_fits : coinbaseHex.length ≤ isizeMax
  tag_fits : tag.length ≤ isizeMax
  txAuthDigests_fits : txAuthDigests.length ≤ isizeMax

namespace MayPanic

variable (prims : CoinbasePrimitives) (overflowChecks : Bool)

/-- The bytes at these distances behind `offset`, low byte first. -/
def leBehind (data : Bytes) (offset : ℕ) (places : List ℕ) : Exec String ℕ := do
  let places ← Exec.collect (add overflowChecks offset) places
  let bs ← Exec.collect (index data) places
  .ok (leNat bs)

/-- Read a compactSize integer: value and bytes consumed. -/
def readCompactSize (data : Bytes) (offset : ℕ) : Exec String (ℕ × ℕ) :=
  if data.length ≤ offset then .err "read_compact_size: offset beyond data"
  else do
    let first ← index data offset
    if first = 0xFD then do
      let stop ← add overflowChecks offset 3
      if data.length < stop then .err "Truncated compactSize (FD)"
      else do
        let value ← leBehind overflowChecks data offset [1, 2]
        .ok (value, 3)
    else if first = 0xFE then do
      let stop ← add overflowChecks offset 5
      if data.length < stop then .err "Truncated compactSize (FE)"
      else do
        let value ← leBehind overflowChecks data offset [1, 2, 3, 4]
        .ok (value, 5)
    else if first = 0xFF then do
      let stop ← add overflowChecks offset 9
      if data.length < stop then .err "Truncated compactSize (FF)"
      else do
        let start ← add overflowChecks offset 1
        let bs ← slice data start stop
        let bs ← copyFrom 8 bs
        .ok (leNat bs, 9)
    else .ok (first.toNat, 1)

def compactSizeByte (n : ℕ) : Exec String UInt8 :=
  if 253 ≤ n then .err s!"compact_size_byte: value {n} too large for 1 byte"
  else .ok (UInt8.ofNat n)

/-- The hasher takes 16 bytes of personalization. -/
def blake2b256 (personalization data : Bytes) : Exec String Bytes32 :=
  if 16 < personalization.length then .panic
  else .ok (prims.blake2b256 personalization data)

def computeCoinbaseAuthDigest (consensusBranchId : Bytes) (scriptSigCs : UInt8)
    (newScriptSig : Bytes) : Exec String Bytes32 := do
  let transparentScriptsDigest ←
    blake2b256 prims (ascii "ZTxAuthTransHash") (scriptSigCs :: newScriptSig)
  let saplingAuthDigest ← blake2b256 prims (ascii "ZTxAuthSapliHash") []
  let orchardAuthDigest ← blake2b256 prims (ascii "ZTxAuthOrchaHash") []
  let name ← copyFrom 12 (ascii "ZTxAuthHash_")
  let branch ← copyFrom 4 consensusBranchId
  blake2b256 prims (name ++ branch)
    (transparentScriptsDigest.bytes ++ saplingAuthDigest.bytes ++ orchardAuthDigest.bytes)

/-- One level of the tree; `chunks(2)` of an odd level ends in a chunk without `pair[1]`. -/
def treeLevel : List Bytes32 → Exec String (List Bytes32)
  | [] => .ok []
  | [_] => .panic
  | a :: b :: current => do
    let node ← blake2b256 prims (ascii "ZcashAuthDatHash") (a.bytes ++ b.bytes)
    let next ← treeLevel current
    .ok (node :: next)

/-- `while current.len() > 1`, at most `fuel` times. -/
def treeLoop : ℕ → List Bytes32 → Exec String (List Bytes32)
  | 0, current => .ok current
  | fuel + 1, current =>
    if 1 < current.length then do
      let next ← treeLevel prims current
      treeLoop fuel next
    else .ok current

/-- `usize::next_power_of_two`; without overflow checks it wraps to zero. -/
def nextPowerOfTwo (n : ℕ) : Exec String ℕ :=
  if n ≤ 2 ^ 63 then .ok (MerkleTree.nextPowerOfTwo n)
  else if overflowChecks then .panic
  else .ok 0

def authDataMerkleRoot (leaves : List Bytes32) : Exec String Bytes32 :=
  if leaves = [] then .ok (Bytes32.fill 0)
  else do
    let n ← nextPowerOfTwo overflowChecks leaves.length
    let current := leaves.take n ++ List.replicate (n - leaves.length) (Bytes32.fill 0)
    let current ← treeLoop prims current.length current
    index current 0

/-- `copy_from_slice` into 32 bytes. -/
def copyInto32 (bs : Bytes) : Exec String Bytes32 :=
  match Bytes32.ofBytes? bs with
  | some b => .ok b
  | none => .panic

/-- One digest of the other transactions. -/
def authLeaf (e : String × ℕ) : Exec String Bytes32 :=
  match Text.hexDecode e.1 with
  | none => .err s!"Invalid authdigest hex for tx {e.2}: {prims.hexText e.1}"
  | some bs =>
    if bs.length ≠ 32 then .err s!"authdigest for tx {e.2} is {bs.length} bytes, expected 32"
    else do
      let arr ← copyInto32 bs
      .ok arr.reverse

/-- The block commitments of a version 5 coinbase with this digest. -/
def blockCommitments (coinbaseAuth : Bytes32) (txAuthDigests : List String)
    (chainHistoryRootHex : String) : Exec String String := do
  let _ ← add overflowChecks 1 txAuthDigests.length
  let leaves ← Exec.collect (authLeaf prims) txAuthDigests.zipIdx
  let authDataRoot ← authDataMerkleRoot prims overflowChecks (coinbaseAuth :: leaves)
  match Text.hexDecode chainHistoryRootHex with
  | none => .err s!"Invalid chain_history_root hex: {prims.hexText chainHistoryRootHex}"
  | some bs =>
    if bs.length ≠ 32 then .err s!"chain_history_root must be 32 bytes, got {bs.length}"
    else do
      let root ← copyInto32 bs.reverse
      let hash ← blake2b256 prims (ascii "ZcashBlockCommit")
        (root.bytes ++ authDataRoot.bytes ++ (Bytes32.fill 0).bytes)
      .ok (Text.hexEncode hash.reverse.bytes)

/-- Where the length of the scriptSig stands, where the scriptSig starts, and that length. -/
def declaredScriptSig (data : Bytes) (headerLen : ℕ) : Exec String (ℕ × ℕ × ℕ) := do
  let least ← add overflowChecks headerLen 1
  if data.length < least then .err "Coinbase too short for header"
  else do
    let (txInCount, csLen) ← readCompactSize overflowChecks data headerLen
    if txInCount ≠ 1 then .err s!"Expected 1 txin in coinbase, got {txInCount}"
    else do
      let prevoutOffset ← add overflowChecks headerLen csLen
      let lenOffset ← add overflowChecks prevoutOffset 36
      let least ← add overflowChecks lenOffset 1
      if data.length < least then .err "Coinbase too short for prevout"
      else do
        let (sigLen, sigCsLen) ← readCompactSize overflowChecks data lenOffset
        let start ← add overflowChecks lenOffset sigCsLen
        .ok (lenOffset, start, sigLen)

/-- The new transaction and what follows from it. -/
def injectInto (isV5 : Bool) (data : Bytes) (lenOffset start stop newLen : ℕ) (tag : Bytes)
    (chainHistoryRootHex : String) (txAuthDigests : List String) :
    Exec String InjectionResult := do
  let oldScriptSig ← slice data start stop
  let newScriptSig := oldScriptSig ++ tag
  let newCs ← compactSizeByte newLen
  let _ ← add overflowChecks data.length tag.length
  let before ← slice data 0 lenOffset
  let after ← slice data stop data.length
  let newData := before ++ [newCs] ++ newScriptSig ++ after
  if isV5 then do
    let consensusBranchId ← slice data 8 12
    let coinbaseAuth ← computeCoinbaseAuthDigest prims consensusBranchId newCs newScriptSig
    let commitments ← blockCommitments prims overflowChecks coinbaseAuth txAuthDigests
      chainHistoryRootHex
    .ok ⟨Text.hexEncode newData, none, some commitments⟩
  else
    .ok ⟨Text.hexEncode newData, some (Text.hexEncode (prims.sha256d newData).reverse.bytes), none⟩

/-- The tag is appended unless the scriptSig already contains it. -/
def appendTag (isV5 : Bool) (coinbaseHex : String) (data : Bytes) (lenOffset start stop sigLen : ℕ)
    (tag : Bytes) (chainHistoryRootHex : String) (txAuthDigests : List String) :
    Exec String InjectionResult := do
  let existingSig ← slice data start stop
  let ws ← windows existingSig tag.length
  if tag ∈ ws then .ok ⟨coinbaseHex, none, none⟩
  else do
    let newLen ← add overflowChecks sigLen tag.length
    if maxScriptSigLen < newLen then
      .err s!"scriptSig would be {newLen} bytes (max {maxScriptSigLen})"
    else
      injectInto prims overflowChecks isV5 data lenOffset start stop newLen tag
        chainHistoryRootHex txAuthDigests

/-- Version 4 and 5. -/
def injectInline (isV5 : Bool) (coinbaseHex : String) (data tag : Bytes)
    (chainHistoryRootHex : String) (txAuthDigests : List String) :
    Exec String InjectionResult := do
  let (lenOffset, start, sigLen) ← declaredScriptSig overflowChecks data (if isV5 then 20 else 8)
  let stop ← add overflowChecks start sigLen
  if data.length < stop then .err "Coinbase too short for scriptSig"
  else
    appendTag prims overflowChecks isV5 coinbaseHex data lenOffset start stop sigLen tag
      chainHistoryRootHex txAuthDigests

/-- Version 6 goes to zebra-chain. -/
def injectCoinbaseTag (call : TagCall) : Exec String InjectionResult :=
  match Text.hexDecode call.coinbaseHex with
  | none => .err s!"Invalid coinbase hex: {prims.hexText call.coinbaseHex}"
  | some data =>
    if data.length < 4 then .err "Coinbase too short"
    else do
      let version ← slice data 0 4
      if version = v6Version then
        .ofExcept (injectV6ViaZebra prims data call.tag call.chainHistoryRootHex
          call.txAuthDigests)
      else if version = v5Version then
        injectInline prims overflowChecks true call.coinbaseHex data call.tag
          call.chainHistoryRootHex call.txAuthDigests
      else if version = v4Version then
        injectInline prims overflowChecks false call.coinbaseHex data call.tag
          call.chainHistoryRootHex call.txAuthDigests
      else .err s!"Unknown tx version: {Text.hexEncode version}"

/-! ## What does not panic -/

variable {prims overflowChecks}

theorem leBehind_eq {data : Bytes} (hdata : data.length ≤ isizeMax) {offset n : ℕ}
    (h : offset + n + 1 ≤ data.length) :
    leBehind overflowChecks data offset (List.range' 1 n)
      = .ok (leNat ((data.drop (offset + 1)).take n)) := by
  unfold isizeMax at hdata
  have hplaces : (Exec.collect (add overflowChecks offset) (List.range' 1 n) : Exec String _)
      = .ok (List.range' (offset + 1) n) := by
    rw [← List.map_add_range']
    apply Exec.collect_eq
    intro i hi
    rw [List.mem_range'_1] at hi
    exact add_eq _ (by omega)
  rw [leBehind, hplaces, Exec.ok_bind, collect_index _ _ (by omega), Exec.ok_bind]

/-- An index within the data and its prefix fit 64 bits. -/
theorem readCompactSize_eq {data : Bytes} (hdata : data.length ≤ isizeMax) (offset : ℕ) :
    readCompactSize overflowChecks data offset
      = .ofExcept (ZcashMiningPool.readCompactSize data offset) := by
  unfold readCompactSize ZcashMiningPool.readCompactSize
  by_cases hoffset : data.length ≤ offset
  · rw [if_pos hoffset, List.getElem?_eq_none hoffset]
    rfl
  · have hlt : offset < data.length := not_le.1 hoffset
    have hsum : ∀ k, k ≤ 9 → offset + k < 2 ^ 64 := by
      intro k hk
      unfold isizeMax at hdata
      omega
    have hwide : ∀ n, n + 1 ≤ data.length - offset → leBehind overflowChecks data offset
        (List.range' 1 n) = .ok (leNat ((data.drop (offset + 1)).take n)) :=
      fun n hn => leBehind_eq hdata (by omega)
    rw [if_neg hoffset, index_eq hlt, List.getElem?_eq_getElem hlt, Exec.ok_bind]
    dsimp only
    split
    · rw [add_eq _ (hsum 3 (by omega)), Exec.ok_bind]
      by_cases hshort : data.length < offset + 3
      · rw [if_pos hshort, if_pos hshort]
        rfl
      · rw [if_neg hshort, if_neg hshort]
        have hvalue := hwide 2 (by omega)
        simp only [show List.range' 1 2 = [1, 2] from rfl] at hvalue
        rw [hvalue]
        rfl
    · split
      · rw [add_eq _ (hsum 5 (by omega)), Exec.ok_bind]
        by_cases hshort : data.length < offset + 5
        · rw [if_pos hshort, if_pos hshort]
          rfl
        · rw [if_neg hshort, if_neg hshort]
          have hvalue := hwide 4 (by omega)
          simp only [show List.range' 1 4 = [1, 2, 3, 4] from rfl] at hvalue
          rw [hvalue]
          rfl
      · split
        · rw [add_eq _ (hsum 9 (by omega)), Exec.ok_bind]
          by_cases hshort : data.length < offset + 9
          · rw [if_pos hshort, if_pos hshort]
            rfl
          · have hcut : (data.take (offset + 9)).drop (offset + 1)
                = (data.drop (offset + 1)).take 8 := by
              rw [List.drop_take]
              congr 1
              omega
            have height : ((data.drop (offset + 1)).take 8).length = 8 := by
              rw [List.length_take, List.length_drop]
              omega
            rw [if_neg hshort, if_neg hshort, add_eq _ (hsum 1 (by omega)), Exec.ok_bind,
              slice_eq (by omega) (by omega), Exec.ok_bind, hcut, copyFrom_eq height]
            rfl
        · rfl

/-! ### The block commitments -/

theorem blake2b256_eq {personalization : Bytes} (h : personalization.length ≤ 16) (data : Bytes) :
    blake2b256 prims personalization data = .ok (prims.blake2b256 personalization data) :=
  if_neg (not_lt.2 h)

theorem copyInto32_eq {bs : Bytes} (h : bs.length = 32) : copyInto32 bs = .ok ⟨bs, h⟩ := by
  rw [copyInto32, Bytes32.ofBytes?, dif_pos h]

theorem computeCoinbaseAuthDigest_eq {consensusBranchId : Bytes} (h : consensusBranchId.length = 4)
    (scriptSigCs : UInt8) (newScriptSig : Bytes) :
    computeCoinbaseAuthDigest prims consensusBranchId scriptSigCs newScriptSig
      = .ok (ZcashMiningPool.computeCoinbaseAuthDigest prims consensusBranchId scriptSigCs
          newScriptSig) := by
  have hname : (ascii "ZTxAuthHash_").length = 12 := by decide
  have hperso : (ascii "ZTxAuthHash_" ++ consensusBranchId).length ≤ 16 := by
    rw [List.length_append, hname, h]
  rw [computeCoinbaseAuthDigest, blake2b256_eq (by decide), blake2b256_eq (by decide),
    blake2b256_eq (by decide), copyFrom_eq hname, copyFrom_eq h]
  simp only [Exec.ok_bind]
  rw [blake2b256_eq hperso]
  rfl

/-- Every chunk of an even level is a pair. -/
theorem treeLevel_eq {l : List Bytes32} (h : l.length % 2 = 0) :
    treeLevel prims l = .ok (pairUp (authNode prims) l) := by
  induction l using treeLevel.induct with
  | case1 => rfl
  | case2 a => cases h
  | case3 a b l ih =>
    have hl : l.length % 2 = 0 := by
      rw [List.length_cons, List.length_cons] at h
      omega
    rw [treeLevel, blake2b256_eq (by decide), Exec.ok_bind, ih hl, Exec.ok_bind]
    rfl

theorem treeLoop_eq {fuel depth : ℕ} {l : List Bytes32} (h : l.length = 2 ^ depth) :
    treeLoop prims fuel l = .ok (collapse (pairUp (authNode prims)) fuel l) := by
  induction fuel generalizing depth l with
  | zero => rfl
  | succ fuel ih =>
    simp only [treeLoop, collapse]
    by_cases hmore : 1 < l.length
    · cases depth with
      | zero => omega
      | succ depth =>
        have heven : l.length % 2 = 0 := by rw [h, pow_succ, Nat.mul_mod_left]
        have hnext : (pairUp (authNode prims) l).length = 2 ^ depth := by
          rw [length_pairUp, h, pow_succ]
          omega
        rw [if_pos hmore, if_pos hmore, treeLevel_eq heven, Exec.ok_bind, ih hnext]
    · rw [if_neg hmore, if_neg hmore]

theorem authDataMerkleRoot_eq {leaves : List Bytes32} (h : leaves.length ≤ 2 ^ 63) :
    authDataMerkleRoot prims overflowChecks leaves
      = .ok (ZcashMiningPool.authDataMerkleRoot prims leaves) := by
  unfold authDataMerkleRoot ZcashMiningPool.authDataMerkleRoot
  by_cases hempty : leaves = []
  · rw [if_pos hempty, if_pos hempty]
  · have hpower : nextPowerOfTwo overflowChecks leaves.length
        = .ok (MerkleTree.nextPowerOfTwo leaves.length) := if_pos h
    have htake : leaves.take (MerkleTree.nextPowerOfTwo leaves.length) = leaves :=
      List.take_of_length_le (le_nextPowerOfTwo _)
    have hpad : leaves ++ List.replicate (MerkleTree.nextPowerOfTwo leaves.length - leaves.length)
        (Bytes32.fill 0) = pad (Bytes32.fill 0) leaves := rfl
    have hlen := length_pad (Bytes32.fill 0) leaves
    have hroot := collapse_pairUp_eq_perfectRoot (authNode prims) (Bytes32.fill 0)
      (hlen ▸ Nat.lt_two_pow_self.le) hlen
    rw [if_neg hempty, if_neg hempty, hpower, Exec.ok_bind, htake, hpad]
    dsimp only
    rw [treeLoop_eq hlen, Exec.ok_bind, hroot]
    rfl

theorem collect_authLeaf (i : ℕ) (digests : List String) :
    Exec.collect (authLeaf prims) (digests.zipIdx i)
      = .ofExcept (authLeaves prims ", expected 32" i digests) := by
  induction digests generalizing i with
  | nil => rfl
  | cons digest digests ih =>
    rw [List.zipIdx_cons, Exec.collect, authLeaves, authLeaf]
    cases Text.hexDecode digest with
    | none => rfl
    | some bs =>
      by_cases hlen : bs.length = 32
      · simp only [copyInto32_eq hlen, Bytes32.ofBytes?, dif_pos hlen, if_neg (not_not.2 hlen),
          Exec.ok_bind, ih]
        cases authLeaves prims ", expected 32" (i + 1) digests <;> rfl
      · have htext : ∀ text : String, text ++ " bytes" ++ ", expected 32"
            = text ++ " bytes, expected 32" := fun text => by
          rw [String.append_assoc]
          rfl
        simp only [Bytes32.ofBytes?, dif_neg hlen]
        rw [if_pos hlen]
        exact congrArg Exec.err (htext _).symm

theorem blockCommitments_eq {digests : List String} (h : digests.length ≤ isizeMax)
    (coinbaseAuth : Bytes32) (rootHex : String) :
    blockCommitments prims overflowChecks coinbaseAuth digests rootHex
      = .ofExcept (ZcashMiningPool.blockCommitments prims ", expected 32"
          (fun n => s!"chain_history_root must be 32 bytes, got {n}") coinbaseAuth digests
          rootHex) := by
  unfold isizeMax at h
  have hcount : 1 + digests.length < 2 ^ 64 := by omega
  unfold blockCommitments ZcashMiningPool.blockCommitments
  rw [add_eq _ hcount, Exec.ok_bind, collect_authLeaf]
  cases hleaves : authLeaves prims ", expected 32" 0 digests with
  | error e => rfl
  | ok leaves =>
    have hlen : leaves.length = digests.length := (authLeaves_spec prims hleaves).length_eq.symm
    have hroot := @authDataMerkleRoot_eq prims overflowChecks (coinbaseAuth :: leaves) (by
      rw [List.length_cons, hlen]
      omega)
    simp only [Exec.ofExcept_ok, Exec.ok_bind, hroot]
    cases Text.hexDecode rootHex with
    | none => rfl
    | some bs =>
      by_cases h32 : bs.length = 32
      · have hrev : bs.reverse.length = 32 := by rw [List.length_reverse, h32]
        simp only [if_neg (not_not.2 h32), copyInto32_eq hrev, Exec.ok_bind, Bytes32.ofBytes?,
          dif_pos h32]
        rw [blake2b256_eq (by decide)]
        rfl
      · simp only [Bytes32.ofBytes?, dif_neg h32, if_pos h32]
        rfl

/-! ### The transaction -/

theorem injectInto_eq (isV5 : Bool) {data tag : Bytes} {lenOffset start stop newLen : ℕ}
    {digests : List String} (rootHex : String) (hdata : data.length ≤ isizeMax)
    (hdigests : digests.length ≤ isizeMax) (hlenOffset : lenOffset ≤ data.length)
    (hbranch : 12 ≤ data.length) (hstart : start ≤ stop) (hstop : stop ≤ data.length)
    (hnewLen : newLen = stop - start + tag.length) (hmax : newLen ≤ maxScriptSigLen) :
    injectInto prims overflowChecks isV5 data lenOffset start stop newLen tag rootHex digests
      = .ofExcept (ZcashMiningPool.injectInto prims isV5 data ⟨lenOffset, start, stop⟩ tag rootHex
          digests) := by
  unfold maxScriptSigLen at hmax
  have hsum : data.length + tag.length < 2 ^ 64 := by
    unfold isizeMax at hdata
    omega
  have hbyte : compactSizeByte newLen = .ok (UInt8.ofNat newLen) := if_neg (by omega)
  have hlen : (scriptSigOf data ⟨lenOffset, start, stop⟩ ++ tag).length = newLen := by
    rw [scriptSigOf, List.length_append, List.length_drop, List.length_take, hnewLen]
    dsimp only
    omega
  have hcut : (data.take data.length).drop stop = data.drop stop := by rw [List.take_length]
  have hbranchId : (data.take 12).drop 8 = (data.drop 8).take 4 := by rw [List.drop_take]
  have hfour : ((data.drop 8).take 4).length = 4 := by
    rw [List.length_take, List.length_drop]
    omega
  unfold injectInto ZcashMiningPool.injectInto setScriptSig
  rw [slice_eq hstart hstop, Exec.ok_bind, hbyte, Exec.ok_bind, add_eq _ hsum, Exec.ok_bind,
    slice_eq (Nat.zero_le _) hlenOffset, Exec.ok_bind, slice_eq hstop le_rfl, Exec.ok_bind, hcut]
  simp only [List.drop_zero, hlen]
  cases isV5 with
  | false => rfl
  | true =>
    simp only [if_true]
    rw [slice_eq (by decide) hbranch, Exec.ok_bind, hbranchId,
      computeCoinbaseAuthDigest_eq hfour, Exec.ok_bind, blockCommitments_eq hdigests]
    simp only [Exec.ofExcept_map]
    rfl

end MayPanic

/-! ## The declared scriptSig -/

/-- The bytes of a compactSize integer; any width may hold a small number. -/
inductive IsCompactSize : Bytes → ℕ → Prop
  | one (b : UInt8) : b.toNat < 253 → IsCompactSize [b] b.toNat
  | two (bs : Bytes) : bs.length = 2 → IsCompactSize (0xFD :: bs) (leNat bs)
  | four (bs : Bytes) : bs.length = 4 → IsCompactSize (0xFE :: bs) (leNat bs)
  | eight (bs : Bytes) : bs.length = 8 → IsCompactSize (0xFF :: bs) (leNat bs)

/-- Header, one input with its prevout, and a length of `len` for the scriptSig, which starts at
    `start`; whether it is all there does not matter. -/
def DeclaresScriptSig (isV5 : Bool) (data : Bytes) (start len : ℕ) : Prop :=
  ∃ header count prevout length rest, data = header ++ count ++ prevout ++ length ++ rest ∧
    header.length = (if isV5 then 20 else 8) ∧ IsCompactSize count 1 ∧ prevout.length = 36 ∧
    IsCompactSize length len ∧ start = (header ++ count ++ prevout ++ length).length

theorem IsCompactSize.ne_nil {bs : Bytes} {v : ℕ} (h : IsCompactSize bs v) : bs ≠ [] := by
  cases h <;> simp

theorem IsCompactSize.lt {bs : Bytes} {v : ℕ} (h : IsCompactSize bs v) : v < 2 ^ 64 := by
  have hwide : ∀ (bs : Bytes) (n : ℕ), bs.length = n → n ≤ 8 → leNat bs < 2 ^ 64 := by
    intro bs n hn hle
    calc leNat bs < 256 ^ bs.length := leNat_lt bs
      _ ≤ 256 ^ 8 := Nat.pow_le_pow_right (by decide) (hn ▸ hle)
      _ = 2 ^ 64 := by decide
  cases h with
  | one b hb => omega
  | two bs hbs => exact hwide bs 2 hbs (by decide)
  | four bs hbs => exact hwide bs 4 hbs (by decide)
  | eight bs hbs => exact hwide bs 8 hbs (by decide)

/-- The reader at a byte and what follows it. -/
theorem readCompactSize_of_drop {data tail : Bytes} {offset : ℕ} {b : UInt8}
    (h : data.drop offset = b :: tail) :
    readCompactSize data offset
      = if b = 0xFD then
          if tail.length < 2 then .error "Truncated compactSize (FD)"
          else .ok (leNat (tail.take 2), 3)
        else if b = 0xFE then
          if tail.length < 4 then .error "Truncated compactSize (FE)"
          else .ok (leNat (tail.take 4), 5)
        else if b = 0xFF then
          if tail.length < 8 then .error "Truncated compactSize (FF)"
          else .ok (leNat (tail.take 8), 9)
        else .ok (b.toNat, 1) := by
  have hb : data[offset]? = some b := by
    have hzero := congrArg (fun l => l[0]?) h
    simpa using hzero
  have htail : data.drop (offset + 1) = tail := by
    rw [← List.drop_drop, h, List.drop_one, List.tail_cons]
  have hlen : data.length = offset + 1 + tail.length := by
    have hdrop := congrArg List.length h
    rw [List.length_drop, List.length_cons] at hdrop
    omega
  have hshort : ∀ n, data.length < offset + n + 1 ↔ tail.length < n := by
    intro n
    omega
  simp only [readCompactSize, hb, htail, hshort]
  rfl

/-- The three first bytes that stand for a wider number. -/
theorem wide_of_le {b : UInt8} (h : 253 ≤ b.toNat) : b = 0xFD ∨ b = 0xFE ∨ b = 0xFF := by
  have hlt := b.toNat_lt
  have hcases : b.toNat = 253 ∨ b.toNat = 254 ∨ b.toNat = 255 := by omega
  rcases hcases with hb | hb | hb
  · exact .inl (UInt8.toNat_inj.1 hb)
  · exact .inr (.inl (UInt8.toNat_inj.1 hb))
  · exact .inr (.inr (UInt8.toNat_inj.1 hb))

theorem isCompactSize_of_read {data : Bytes} {offset v n : ℕ}
    (h : readCompactSize data offset = .ok (v, n)) :
    ∃ cs rest, data.drop offset = cs ++ rest ∧ IsCompactSize cs v ∧ cs.length = n := by
  cases hdrop : data.drop offset with
  | nil =>
    rw [readCompactSize, List.getElem?_eq_none (List.drop_eq_nil_iff.1 hdrop)] at h
    cases h
  | cons b tail =>
    rw [readCompactSize_of_drop hdrop] at h
    have hsplit : ∀ k, b :: tail = (b :: tail.take k) ++ tail.drop k := fun k => by
      rw [List.cons_append, List.take_append_drop]
    have htake : ∀ k, ¬ tail.length < k → (tail.take k).length = k := fun k hk => by
      rw [List.length_take]
      omega
    split at h
    · rename_i hb
      split at h
      · cases h
      · rename_i hlen
        cases h
        subst hb
        exact ⟨_, _, hsplit 2, .two _ (htake 2 hlen), congrArg (· + 1) (htake 2 hlen)⟩
    · split at h
      · rename_i hb
        split at h
        · cases h
        · rename_i hlen
          cases h
          subst hb
          exact ⟨_, _, hsplit 4, .four _ (htake 4 hlen), congrArg (· + 1) (htake 4 hlen)⟩
      · split at h
        · rename_i hb
          split at h
          · cases h
          · rename_i hlen
            cases h
            subst hb
            exact ⟨_, _, hsplit 8, .eight _ (htake 8 hlen), congrArg (· + 1) (htake 8 hlen)⟩
        · rename_i h2 h4 h8
          cases h
          have hsmall : b.toNat < 253 := by
            by_contra hbig
            rcases wide_of_le (not_lt.1 hbig) with hb | hb | hb
            · exact h2 hb
            · exact h4 hb
            · exact h8 hb
          exact ⟨[b], tail, rfl, .one b hsmall, rfl⟩

theorem readCompactSize_of_isCompactSize {data cs : Bytes} {offset v : ℕ} (rest : Bytes)
    (hdrop : data.drop offset = cs ++ rest) (h : IsCompactSize cs v) :
    readCompactSize data offset = .ok (v, cs.length) := by
  have hlong : ∀ {bs : Bytes} {n : ℕ}, bs.length = n → ¬ (bs ++ rest).length < n := by
    intro bs n hbs
    rw [List.length_append]
    omega
  cases h with
  | one b hb =>
    have hne : ∀ k : UInt8, 253 ≤ k.toNat → b ≠ k := by
      rintro k hk rfl
      omega
    rw [readCompactSize_of_drop hdrop, if_neg (hne 0xFD (by decide)),
      if_neg (hne 0xFE (by decide)), if_neg (hne 0xFF (by decide))]
    rfl
  | two bs hbs =>
    rw [List.cons_append] at hdrop
    rw [readCompactSize_of_drop hdrop, if_pos rfl, if_neg (hlong hbs), List.take_left' hbs,
      List.length_cons, hbs]
  | four bs hbs =>
    rw [List.cons_append] at hdrop
    rw [readCompactSize_of_drop hdrop, if_neg (by decide), if_pos rfl, if_neg (hlong hbs),
      List.take_left' hbs, List.length_cons, hbs]
  | eight bs hbs =>
    rw [List.cons_append] at hdrop
    rw [readCompactSize_of_drop hdrop, if_neg (by decide), if_neg (by decide), if_pos rfl,
      if_neg (hlong hbs), List.take_left' hbs, List.length_cons, hbs]

/-- A parse up to the length of the scriptSig; `locateScriptSig` goes on from here. -/
def declaredScriptSig (data : Bytes) (headerLen : ℕ) : Except String (ℕ × ℕ × ℕ) :=
  if data.length < headerLen + 1 then .error "Coinbase too short for header"
  else
    match readCompactSize data headerLen with
    | .error e => .error e
    | .ok (txInCount, csLen) =>
      if txInCount ≠ 1 then .error s!"Expected 1 txin in coinbase, got {txInCount}"
      else
        let lenOffset := headerLen + csLen + 36
        if data.length < lenOffset + 1 then .error "Coinbase too short for prevout"
        else
          match readCompactSize data lenOffset with
          | .error e => .error e
          | .ok (sigLen, sigCsLen) => .ok (lenOffset, lenOffset + sigCsLen, sigLen)

theorem locateScriptSig_eq (data : Bytes) (headerLen : ℕ) :
    locateScriptSig data headerLen = (declaredScriptSig data headerLen).bind (fun r =>
      if data.length < r.2.1 + r.2.2 then .error "Coinbase too short for scriptSig"
      else .ok ⟨r.1, r.2.1, r.2.1 + r.2.2⟩) := by
  unfold locateScriptSig declaredScriptSig
  by_cases hshort : data.length < headerLen + 1
  · rw [if_pos hshort, if_pos hshort]
    rfl
  · rw [if_neg hshort, if_neg hshort]
    cases readCompactSize data headerLen with
    | error e => rfl
    | ok r =>
      obtain ⟨txInCount, csLen⟩ := r
      by_cases hone : txInCount ≠ 1
      · simp only [if_pos hone]
        rfl
      · simp only [if_neg hone]
        by_cases hprevout : data.length < headerLen + csLen + 36 + 1
        · simp only [if_pos hprevout]
          rfl
        · simp only [if_neg hprevout]
          cases readCompactSize data (headerLen + csLen + 36) with
          | error e => rfl
          | ok r' => rfl

/-- The bytes a successful read consumed are there. -/
theorem read_le_length {data : Bytes} {offset v n : ℕ}
    (h : readCompactSize data offset = .ok (v, n)) : offset + n ≤ data.length := by
  obtain ⟨cs, rest, hdrop, hcs, rfl⟩ := isCompactSize_of_read h
  have hpos := List.length_pos_iff.2 hcs.ne_nil
  have hlen := congrArg List.length hdrop
  rw [List.length_drop, List.length_append] at hlen
  omega

theorem declaredScriptSig_spec {data : Bytes} {headerLen lenOffset start len : ℕ}
    (h : declaredScriptSig data headerLen = .ok (lenOffset, start, len)) :
    ∃ csLen sigCsLen, readCompactSize data headerLen = .ok (1, csLen) ∧
      lenOffset = headerLen + csLen + 36 ∧
      readCompactSize data lenOffset = .ok (len, sigCsLen) ∧ start = lenOffset + sigCsLen := by
  unfold declaredScriptSig at h
  split at h
  · cases h
  · split at h
    · cases h
    · rename_i txInCount csLen hcount
      split at h
      · cases h
      · rename_i hone
        obtain rfl : txInCount = 1 := not_not.1 hone
        dsimp only at h
        split at h
        · cases h
        · split at h
          · cases h
          · rename_i sigLen sigCsLen hlen
            cases h
            exact ⟨csLen, sigCsLen, hcount, rfl, hlen, rfl⟩

/-- **The declared scriptSig**, read off the bytes. -/
theorem declaredScriptSig_iff {isV5 : Bool} {data : Bytes} {start len : ℕ} :
    (∃ lenOffset, declaredScriptSig data (if isV5 then 20 else 8) = .ok (lenOffset, start, len)) ↔
      DeclaresScriptSig isV5 data start len := by
  set headerLen := if isV5 then 20 else 8 with hheaderLen
  constructor
  · rintro ⟨lenOffset, h⟩
    obtain ⟨csLen, sigCsLen, hcount, hlenOffset, hlength, hstart⟩ := declaredScriptSig_spec h
    obtain ⟨count, rest, hcountDrop, hcountSize, rfl⟩ := isCompactSize_of_read hcount
    obtain ⟨length, rest', hlengthDrop, hlengthSize, rfl⟩ := isCompactSize_of_read hlength
    have hle := read_le_length hcount
    have hle' := read_le_length hlength
    have hrest : rest = rest.take 36 ++ (length ++ rest') := by
      have hskip : rest.drop 36 = length ++ rest' := by
        rw [← hlengthDrop, hlenOffset, Nat.add_assoc, ← List.drop_drop, hcountDrop,
          ← List.drop_drop, List.drop_left]
      rw [← hskip, List.take_append_drop]
    have hprevout : (rest.take 36).length = 36 := by
      have hrestLen := congrArg List.length hcountDrop
      rw [List.length_drop, List.length_append] at hrestLen
      rw [List.length_take]
      omega
    refine ⟨data.take headerLen, count, rest.take 36, length, rest', ?_, ?_, hcountSize, hprevout,
      hlengthSize, ?_⟩
    · rw [List.append_assoc, List.append_assoc, List.append_assoc, ← hrest, ← hcountDrop,
        List.take_append_drop]
    · rw [List.length_take]
      omega
    · simp only [List.length_append, List.length_take, hprevout]
      omega
  · rintro ⟨header, count, prevout, length, rest, rfl, hheader, hcount, hprevout, hlength, rfl⟩
    rw [← hheaderLen] at hheader
    have hpos := List.length_pos_iff.2 hlength.ne_nil
    have hreadCount : readCompactSize (header ++ count ++ prevout ++ length ++ rest) headerLen
        = .ok (1, count.length) := by
      apply readCompactSize_of_isCompactSize (prevout ++ length ++ rest) _ hcount
      rw [← hheader]
      simp only [List.append_assoc, List.drop_left]
    have hreadLength : readCompactSize (header ++ count ++ prevout ++ length ++ rest)
        (headerLen + count.length + 36) = .ok (len, length.length) := by
      apply readCompactSize_of_isCompactSize rest _ hlength
      have hskip : headerLen + count.length + 36 = (header ++ count ++ prevout).length := by
        simp only [List.length_append, hheader, hprevout]
      rw [hskip, List.append_assoc (header ++ count ++ prevout), List.drop_left]
    refine ⟨headerLen + count.length + 36, ?_⟩
    have htotal : (header ++ count ++ prevout ++ length ++ rest).length
        = headerLen + count.length + 36 + length.length + rest.length := by
      simp only [List.length_append, hheader, hprevout]
    have hstart : (header ++ count ++ prevout ++ length).length
        = headerLen + count.length + 36 + length.length := by
      simp only [List.length_append, hheader, hprevout]
    simp only [declaredScriptSig, hreadCount, hreadLength, htotal, hstart, ne_eq,
      not_true_eq_false, if_false]
    rw [if_neg (by omega), if_neg (by omega)]

/-! ## When it panics -/

namespace MayPanic

variable {prims : CoinbasePrimitives} {overflowChecks : Bool}

theorem declaredScriptSig_eq {data : Bytes} (hdata : data.length ≤ isizeMax) {headerLen : ℕ}
    (hheader : headerLen ≤ 20) :
    declaredScriptSig overflowChecks data headerLen
      = .ofExcept (ZcashMiningPool.declaredScriptSig data headerLen) := by
  have hbound := hdata
  unfold isizeMax at hbound
  unfold declaredScriptSig ZcashMiningPool.declaredScriptSig
  rw [add_eq _ (by omega), Exec.ok_bind]
  by_cases hshort : data.length < headerLen + 1
  · rw [if_pos hshort, if_pos hshort]
    rfl
  · rw [if_neg hshort, if_neg hshort, readCompactSize_eq hdata]
    cases hcount : ZcashMiningPool.readCompactSize data headerLen with
    | error e => rfl
    | ok r =>
      obtain ⟨txInCount, csLen⟩ := r
      have hle := read_le_length hcount
      simp only [Exec.ofExcept_ok, Exec.ok_bind]
      by_cases hone : txInCount ≠ 1
      · simp only [if_pos hone]
        rfl
      · simp only [if_neg hone]
        rw [add_eq _ (by omega), Exec.ok_bind, add_eq _ (by omega), Exec.ok_bind,
          add_eq _ (by omega), Exec.ok_bind]
        by_cases hprevout : data.length < headerLen + csLen + 36 + 1
        · simp only [if_pos hprevout]
          rfl
        · simp only [if_neg hprevout]
          rw [readCompactSize_eq hdata]
          cases hlength : ZcashMiningPool.readCompactSize data (headerLen + csLen + 36) with
          | error e => rfl
          | ok r' =>
            obtain ⟨sigLen, sigCsLen⟩ := r'
            have hle' := read_le_length hlength
            simp only [Exec.ofExcept_ok, Exec.ok_bind]
            rw [add_eq _ (by omega), Exec.ok_bind]

theorem appendTag_nil (isV5 : Bool) (coinbaseHex : String) {data : Bytes}
    {lenOffset start stop sigLen : ℕ} (rootHex : String) (digests : List String)
    (hstart : start ≤ stop) (hstop : stop ≤ data.length) :
    appendTag prims overflowChecks isV5 coinbaseHex data lenOffset start stop sigLen [] rootHex
      digests = .panic := by
  rw [appendTag, slice_eq hstart hstop, Exec.ok_bind]
  rfl

/-- A complete scriptSig and a tag that is not empty. -/
theorem appendTag_eq (isV5 : Bool) (coinbaseHex : String) {data tag : Bytes}
    {lenOffset start sigLen : ℕ} (rootHex : String) {digests : List String} (hne : tag ≠ [])
    (hdata : data.length ≤ isizeMax) (htag : tag.length ≤ isizeMax)
    (hdigests : digests.length ≤ isizeMax) (hlenOffset : lenOffset ≤ data.length)
    (hbranch : 12 ≤ data.length) (hstop : start + sigLen ≤ data.length)
    (hplace : locateScriptSig data (if isV5 then 20 else 8)
      = .ok ⟨lenOffset, start, start + sigLen⟩) :
    appendTag prims overflowChecks isV5 coinbaseHex data lenOffset start (start + sigLen) sigLen tag
        rootHex digests
      = .ofExcept (ZcashMiningPool.injectInline prims isV5 coinbaseHex data tag rootHex digests) := by
  obtain ⟨ws, hws, hmem⟩ := @windows_eq String _ ((data.take (start + sigLen)).drop start) _
    (List.length_pos_iff.2 hne)
  have hsigLength : (scriptSigOf data ⟨lenOffset, start, start + sigLen⟩).length = sigLen := by
    rw [scriptSigOf, List.length_drop, List.length_take]
    dsimp only
    omega
  have hsum : sigLen + tag.length < 2 ^ 64 := by
    unfold isizeMax at hdata htag
    omega
  rw [appendTag, slice_eq (by omega) hstop, Exec.ok_bind, hws, Exec.ok_bind,
    ZcashMiningPool.injectInline, hplace]
  dsimp only
  by_cases hpresent : tag <:+: scriptSigOf data ⟨lenOffset, start, start + sigLen⟩
  · rw [if_pos ((hmem tag rfl).2 hpresent), if_pos hpresent]
    rfl
  · rw [if_neg fun h => hpresent ((hmem tag rfl).1 h), if_neg hpresent, add_eq _ hsum,
      Exec.ok_bind, hsigLength]
    by_cases hlong : maxScriptSigLen < sigLen + tag.length
    · rw [if_pos hlong, if_pos hlong]
      rfl
    · rw [if_neg hlong, if_neg hlong]
      exact injectInto_eq isV5 rootHex hdata hdigests hlenOffset hbranch (by omega) hstop
        (by omega) (not_lt.1 hlong)

/-- **When the injection panics.**  The scriptSig ends beyond 64 bits, or it is all there and the
    tag is empty; in every other case the call is `injectInline`. -/
theorem injectInline_eq (isV5 : Bool) {data tag : Bytes} {digests : List String}
    (coinbaseHex rootHex : String) (hdata : data.length ≤ isizeMax) (htag : tag.length ≤ isizeMax)
    (hdigests : digests.length ≤ isizeMax) :
    injectInline prims overflowChecks isV5 coinbaseHex data tag rootHex digests
      = (Exec.ofExcept (ZcashMiningPool.declaredScriptSig data (if isV5 then 20 else 8)) >>= fun r =>
          if 2 ^ 64 ≤ r.2.1 + r.2.2 ∨ r.2.1 + r.2.2 ≤ data.length ∧ tag = [] then .panic
          else .ofExcept (ZcashMiningPool.injectInline prims isV5 coinbaseHex data tag rootHex
            digests)) := by
  have hheader : (if isV5 then 20 else 8) ≤ 20 := by split <;> decide
  have hheader' : 8 ≤ (if isV5 then 20 else 8) := by split <;> decide
  unfold injectInline
  rw [declaredScriptSig_eq hdata hheader]
  cases hdeclared : ZcashMiningPool.declaredScriptSig data (if isV5 then 20 else 8) with
  | error e => rfl
  | ok r =>
    obtain ⟨lenOffset, start, sigLen⟩ := r
    obtain ⟨csLen, sigCsLen, hcount, hlenOffset, hlength, hstart⟩ := declaredScriptSig_spec hdeclared
    have hplain := locateScriptSig_eq data (if isV5 then 20 else 8)
    rw [hdeclared] at hplain
    have hle := read_le_length hlength
    have hsigLen : sigLen < 2 ^ 64 := by
      obtain ⟨cs, rest, -, hcs, -⟩ := isCompactSize_of_read hlength
      exact hcs.lt
    simp only [Exec.ofExcept_ok, Exec.ok_bind]
    by_cases hwrap : 2 ^ 64 ≤ start + sigLen
    · have hstart64 : start < 2 ^ 64 := by
        unfold isizeMax at hdata
        omega
      rw [if_pos (.inl hwrap)]
      exact slice_of_wrapped overflowChecks hstart64 hsigLen hwrap _ (by omega) _
    · rw [add_eq _ (not_le.1 hwrap), Exec.ok_bind]
      by_cases hshort : data.length < start + sigLen
      · have herror : locateScriptSig data (if isV5 then 20 else 8)
            = .error "Coinbase too short for scriptSig" := by
          rw [hplain]
          exact if_pos hshort
        have hreturns : ¬ (2 ^ 64 ≤ start + sigLen ∨ start + sigLen ≤ data.length ∧ tag = []) := by
          omega
        rw [if_pos hshort, if_neg hreturns, ZcashMiningPool.injectInline, herror]
        rfl
      · have hplace : locateScriptSig data (if isV5 then 20 else 8)
            = .ok ⟨lenOffset, start, start + sigLen⟩ := by
          rw [hplain]
          exact if_neg hshort
        rw [if_neg hshort]
        by_cases hempty : tag = []
        · subst hempty
          rw [if_pos (.inr ⟨not_lt.1 hshort, rfl⟩),
            appendTag_nil isV5 coinbaseHex rootHex digests (by omega) (not_lt.1 hshort)]
        · have hreturns : ¬ (2 ^ 64 ≤ start + sigLen ∨
              start + sigLen ≤ data.length ∧ tag = []) := fun h =>
            h.elim hwrap fun h => hempty h.2
          rw [if_neg hreturns]
          exact appendTag_eq isV5 coinbaseHex rootHex hempty hdata htag hdigests (by omega)
            (by omega) (not_lt.1 hshort) hplace

/-- A coinbase of version 4 or 5 goes to the inline injection. -/
theorem injectCoinbaseTag_eq (isV5 : Bool) {call : TagCall} {data : Bytes}
    (hdecode : Text.hexDecode call.coinbaseHex = some data)
    (hversion : data.take 4 = if isV5 then v5Version else v4Version) :
    injectCoinbaseTag prims overflowChecks call
      = injectInline prims overflowChecks isV5 call.coinbaseHex data call.tag
          call.chainHistoryRootHex call.txAuthDigests := by
  have hlen : 4 ≤ data.length := by
    have htake := congrArg List.length hversion
    rw [List.length_take] at htake
    cases isV5 <;> simp [v4Version, v5Version] at htake <;> omega
  simp only [injectCoinbaseTag, hdecode]
  rw [if_neg (not_lt.2 hlen), slice_eq (Nat.zero_le _) hlen, Exec.ok_bind, List.drop_zero, hversion]
  cases isV5 <;> rfl

theorem length_le_of_hexDecode {call : TagCall} {data : Bytes}
    (hdecode : Text.hexDecode call.coinbaseHex = some data) : data.length ≤ isizeMax := by
  have hpairs := length_of_hexPairs hdecode
  have hfits := call.coinbaseHex_fits
  rw [String.length_toList] at hpairs
  omega

/-- **A call that returns, returns what `injectCoinbaseTag` computes.** -/
theorem injectCoinbaseTag_of_returns (isV5 : Bool) {call : TagCall} {data : Bytes}
    (hdecode : Text.hexDecode call.coinbaseHex = some data)
    (hversion : data.take 4 = if isV5 then v5Version else v4Version)
    (h : (injectCoinbaseTag prims overflowChecks call).Returns) :
    injectCoinbaseTag prims overflowChecks call
      = .ofExcept (ZcashMiningPool.injectCoinbaseTag prims call.coinbaseHex call.tag
          call.chainHistoryRootHex call.txAuthDigests) := by
  rw [injectCoinbaseTag_eq isV5 hdecode hversion, injectInline_eq isV5 _ _
    (length_le_of_hexDecode hdecode) call.tag_fits call.txAuthDigests_fits] at h ⊢
  rw [injectCoinbaseTag_eq_inline prims isV5 hdecode hversion]
  cases hdeclared : ZcashMiningPool.declaredScriptSig data (if isV5 then 20 else 8) with
  | error e =>
    have hlocate := locateScriptSig_eq data (if isV5 then 20 else 8)
    rw [hdeclared] at hlocate
    rw [ZcashMiningPool.injectInline, hlocate]
    rfl
  | ok r =>
    rw [hdeclared] at h
    simp only [Exec.ofExcept_ok, Exec.ok_bind] at h ⊢
    split at h
    · exact absurd rfl h
    · rename_i hno
      rw [if_neg hno]

end MayPanic

/-- **The injection returns** exactly when the declared scriptSig ends within 64 bits and the tag
    of a complete one is not empty. -/
theorem tag_returns_iff (prims : CoinbasePrimitives) (overflowChecks isV5 : Bool) (call : TagCall)
    (data : Bytes) (hdecode : Text.hexDecode call.coinbaseHex = some data)
    (hversion : data.take 4 = if isV5 then v5Version else v4Version) :
    (MayPanic.injectCoinbaseTag prims overflowChecks call).Returns ↔
      ∀ start len, DeclaresScriptSig isV5 data start len →
        start + len < 2 ^ 64 ∧ (start + len ≤ data.length → call.tag ≠ []) := by
  rw [MayPanic.injectCoinbaseTag_eq isV5 hdecode hversion, MayPanic.injectInline_eq isV5 _ _
    (MayPanic.length_le_of_hexDecode hdecode) call.tag_fits call.txAuthDigests_fits]
  simp only [← declaredScriptSig_iff]
  cases hdeclared : declaredScriptSig data (if isV5 then 20 else 8) with
  | error e =>
    constructor
    · rintro - start len ⟨lenOffset, h⟩
      cases h
    · intro _ h
      cases h
  | ok r =>
    obtain ⟨lenOffset, start, len⟩ := r
    simp only [Exec.ofExcept_ok, Exec.ok_bind]
    constructor
    · rintro hreturns start' len' ⟨lenOffset', h⟩
      cases h
      split at hreturns
      · exact absurd rfl hreturns
      · rename_i hno
        rw [not_or, not_and] at hno
        exact ⟨not_le.1 hno.1, hno.2⟩
    · intro h
      obtain ⟨hfits, htag⟩ := h start len ⟨lenOffset, rfl⟩
      rw [if_neg]
      · exact Exec.returns_ofExcept _
      · rintro (hwrap | ⟨hcomplete, hempty⟩)
        · exact absurd hwrap (not_le.2 hfits)
        · exact htag hcomplete hempty

/-! ### Calls that panic -/

/-- The call for a coinbase and a tag, without other transactions. -/
def TagCall.ofCoinbase (data tag : Bytes) (hdata : 2 * data.length ≤ isizeMax)
    (htag : tag.length ≤ isizeMax) : TagCall where
  coinbaseHex := Text.hexEncode data
  tag := tag
  chainHistoryRootHex := ""
  txAuthDigests := []
  coinbaseHex_fits := by
    have hpairs := length_of_hexPairs (Text.hexDecode_hexEncode data)
    rw [String.length_toList] at hpairs
    omega
  tag_fits := htag
  txAuthDigests_fits := Nat.zero_le _

/-- A complete scriptSig of nine bytes, and no tag. -/
def emptyTagCall : TagCall :=
  .ofCoinbase (sampleCoinbase v5Version 20 9) [] (by decide) (by decide)

/-- A scriptSig of `2 ^ 64 - 1` bytes is announced, and none of them follows. -/
def hugeCoinbase : Bytes :=
  v4Version ++ List.replicate 4 0 ++ [1] ++ List.replicate 36 0 ++ List.replicate 9 0xFF

def hugeLengthCall : TagCall := .ofCoinbase hugeCoinbase (ascii "pool") (by decide) (by decide)

theorem MayPanic.not_returns_of_declared {prims : CoinbasePrimitives} {overflowChecks : Bool}
    (isV5 : Bool) {call : TagCall} {data : Bytes} {lenOffset start len : ℕ}
    (hdecode : Text.hexDecode call.coinbaseHex = some data)
    (hversion : data.take 4 = if isV5 then v5Version else v4Version)
    (hdeclared : ZcashMiningPool.declaredScriptSig data (if isV5 then 20 else 8)
      = .ok (lenOffset, start, len))
    (h : 2 ^ 64 ≤ start + len ∨ start + len ≤ data.length ∧ call.tag = []) :
    ¬ (injectCoinbaseTag prims overflowChecks call).Returns := by
  rw [injectCoinbaseTag_eq isV5 hdecode hversion, injectInline_eq isV5 _ _
    (length_le_of_hexDecode hdecode) call.tag_fits call.txAuthDigests_fits, hdeclared,
    Exec.ofExcept_ok, Exec.ok_bind, if_pos h]
  exact Exec.not_returns_panic

/-- An empty tag panics in front of an ordinary scriptSig, and any tag behind a length that wraps,
    with and without overflow checks. -/
theorem empty_tag_panics :
    Text.hexDecode emptyTagCall.coinbaseHex = some (sampleCoinbase v5Version 20 9) ∧
      (sampleCoinbase v5Version 20 9).take 4 = v5Version ∧
      Text.hexDecode hugeLengthCall.coinbaseHex = some hugeCoinbase ∧
      hugeCoinbase.take 4 = v4Version ∧
      ∀ overflowChecks,
        ¬ (MayPanic.injectCoinbaseTag sampleCoinbasePrims overflowChecks emptyTagCall).Returns ∧
        ¬ (MayPanic.injectCoinbaseTag sampleCoinbasePrims overflowChecks hugeLengthCall).Returns := by
  have hempty : Text.hexDecode emptyTagCall.coinbaseHex = some (sampleCoinbase v5Version 20 9) :=
    Text.hexDecode_hexEncode _
  have hhuge : Text.hexDecode hugeLengthCall.coinbaseHex = some hugeCoinbase :=
    Text.hexDecode_hexEncode _
  have hdeclared : declaredScriptSig (sampleCoinbase v5Version 20 9) 20 = .ok (57, 58, 9) := by
    decide +kernel
  have hdeclared' : declaredScriptSig hugeCoinbase 8 = .ok (45, 54, 2 ^ 64 - 1) := by
    decide +kernel
  refine ⟨hempty, by decide, hhuge, by decide, fun overflowChecks => ⟨?_, ?_⟩⟩
  · exact MayPanic.not_returns_of_declared true hempty (by decide) hdeclared
      (.inr ⟨by decide, rfl⟩)
  · exact MayPanic.not_returns_of_declared false hhuge (by decide) hdeclared' (.inl (by decide))

/-- A tag of four bytes and a complete scriptSig. -/
theorem tag_returns_iff_pool :
    (MayPanic.injectCoinbaseTag sampleCoinbasePrims true
        (.ofCoinbase (sampleCoinbase v5Version 20 9) (ascii "pool") (by decide)
          (by decide))).Returns ↔
      ∀ start len, DeclaresScriptSig true (sampleCoinbase v5Version 20 9) start len →
        start + len < 2 ^ 64 ∧
          (start + len ≤ (sampleCoinbase v5Version 20 9).length → ascii "pool" ≠ []) :=
  tag_returns_iff sampleCoinbasePrims true true _ _ (Text.hexDecode_hexEncode _) (by decide)

end ZcashMiningPool
