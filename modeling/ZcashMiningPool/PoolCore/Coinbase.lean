import Mathlib.Data.UInt
import ZcashMiningPool.Library.MerkleTree
import ZcashMiningPool.PoolCore.Job

/-!
# The coinbase tag

`pool-core/src/coinbase.rs`: the tag is appended to the coinbase's scriptSig, and what depends on
it is computed anew — the transaction id of a version 4 coinbase, the block commitments of a
version 5 or 6 one.

* `CoinbasePrimitives` — SHA-256d and BLAKE2b, zebra-chain's transactions, and how an error of
  the hexadecimal crate reads.
* `authDataMerkleRoot` — the tree over the authorizing data digests.
* `injectCoinbaseTag` — the call, with its errors.

A slice that would be out of bounds is an error here; the program stops there.
-/

set_option autoImplicit false

namespace ZcashMiningPool

open MerkleTree

/-- A zebra-chain transaction, as far as the tag needs it. -/
structure ZebraChain where
  Tx : Type
  deserialize : Bytes → Except String Tx
  isV6 : Tx → Bool
  /-- The data of the first input, if that is a coinbase input. -/
  coinbaseData : Tx → Option Bytes
  setCoinbaseData : Tx → Bytes → Tx
  serialize : Tx → Except String Bytes
  /-- In internal byte order. -/
  authDigest : Tx → Bytes32

structure CoinbasePrimitives where
  sha256d : Bytes → Bytes32
  /-- Personalization and data. -/
  blake2b256 : Bytes → Bytes → Bytes32
  zebra : ZebraChain
  /-- What `hex::decode` says of a text it refuses. -/
  hexText : String → String

/-- The bytes of an ASCII text. -/
def ascii (s : String) : Bytes := s.toList.map (fun c => UInt8.ofNat c.toNat)

namespace Bytes32

/-- The other byte order. -/
def reverse (b : Bytes32) : Bytes32 := ⟨b.bytes.reverse, by rw [List.length_reverse, b.length_eq]⟩

@[simp] theorem reverse_reverse (b : Bytes32) : b.reverse.reverse = b := by
  simp [reverse]

/-- 32 bytes from a slice. -/
def ofBytes? (bs : Bytes) : Option Bytes32 := if h : bs.length = 32 then some ⟨bs, h⟩ else none

theorem ofBytes?_bytes (b : Bytes32) : ofBytes? b.bytes = some b := dif_pos b.length_eq

theorem ofBytes?_eq_some {bs : Bytes} {b : Bytes32} (h : ofBytes? bs = some b) : b.bytes = bs := by
  unfold ofBytes? at h
  split at h
  · cases h
    rfl
  · cases h

end Bytes32

structure InjectionResult where
  newCoinbaseHex : String
  /-- For v4. -/
  newTxid : Option String
  /-- For v5 and v6, in RPC byte order. -/
  newBlockCommitments : Option String
  deriving DecidableEq, Repr

/-- Maximum scriptSig length we allow after tag injection. -/
def maxScriptSigLen : ℕ := 100

variable (prims : CoinbasePrimitives)

/-! ## The block commitments -/

/-- BLAKE2b over two nodes. -/
def authNode (a b : Bytes32) : Bytes32 :=
  prims.blake2b256 (ascii "ZcashAuthDatHash") (a.bytes ++ b.bytes)

/-- Perfect binary tree padded with zero leaves; for one leaf the root is the leaf. -/
def authDataMerkleRoot (leaves : List Bytes32) : Bytes32 :=
  if leaves = [] then Bytes32.fill 0
  else
    let current := pad (Bytes32.fill 0) leaves
    (collapse (pairUp (authNode prims)) current.length current).headD (Bytes32.fill 0)

/-- The digests of the other transactions, turned to internal order; `tail` ends the message
    about a wrong length. -/
def authLeaves (tail : String) : ℕ → List String → Except String (List Bytes32)
  | _, [] => .ok []
  | i, digest :: digests =>
    match Text.hexDecode digest with
    | none => .error s!"Invalid authdigest hex for tx {i}: {prims.hexText digest}"
    | some bs =>
      match Bytes32.ofBytes? bs with
      | none => .error s!"authdigest for tx {i} is {bs.length} bytes{tail}"
      | some b => (authLeaves tail (i + 1) digests).map (b.reverse :: ·)

/-- `hashBlockCommitments` of a history root and the auth data root, in internal order. -/
def blockCommitmentsHash (chainHistoryRoot authDataRoot : Bytes32) : Bytes32 :=
  prims.blake2b256 (ascii "ZcashBlockCommit")
    (chainHistoryRoot.bytes ++ authDataRoot.bytes ++ (Bytes32.fill 0).bytes)

/-- `block_commitments_from_auth`; the version 5 path has the same steps and other messages. -/
def blockCommitments (digestTail : String) (rootMessage : ℕ → String) (coinbaseAuth : Bytes32)
    (txAuthDigests : List String) (chainHistoryRootHex : String) : Except String String :=
  match authLeaves prims digestTail 0 txAuthDigests with
  | .error e => .error e
  | .ok leaves =>
    let authDataRoot := authDataMerkleRoot prims (coinbaseAuth :: leaves)
    match Text.hexDecode chainHistoryRootHex with
    | none => .error s!"Invalid chain_history_root hex: {prims.hexText chainHistoryRootHex}"
    | some bs =>
      match Bytes32.ofBytes? bs with
      | none => .error (rootMessage bs.length)
      | some root =>
        .ok (Text.hexEncode (blockCommitmentsHash prims root.reverse authDataRoot).reverse.bytes)

/-- The auth digest of a version 5 coinbase, which has no shielded bundles. -/
def computeCoinbaseAuthDigest (consensusBranchId : Bytes) (scriptSigCs : UInt8)
    (newScriptSig : Bytes) : Bytes32 :=
  let transparentScriptsDigest :=
    prims.blake2b256 (ascii "ZTxAuthTransHash") (scriptSigCs :: newScriptSig)
  let saplingAuthDigest := prims.blake2b256 (ascii "ZTxAuthSapliHash") []
  let orchardAuthDigest := prims.blake2b256 (ascii "ZTxAuthOrchaHash") []
  prims.blake2b256 (ascii "ZTxAuthHash_" ++ consensusBranchId)
    (transparentScriptsDigest.bytes ++ saplingAuthDigest.bytes ++ orchardAuthDigest.bytes)

/-! ## The transaction -/

/-- Read a compactSize integer: value and bytes consumed. -/
def readCompactSize (data : Bytes) (offset : ℕ) : Except String (ℕ × ℕ) :=
  match data[offset]? with
  | none => .error "read_compact_size: offset beyond data"
  | some b =>
    let wide (n : ℕ) (name : String) : Except String (ℕ × ℕ) :=
      if data.length < offset + n + 1 then .error s!"Truncated compactSize ({name})"
      else .ok (leNat ((data.drop (offset + 1)).take n), n + 1)
    if b = 0xFD then wide 2 "FD"
    else if b = 0xFE then wide 4 "FE"
    else if b = 0xFF then wide 8 "FF"
    else .ok (b.toNat, 1)

/-- Where the length of the scriptSig stands, and the scriptSig. -/
structure ScriptSigPlace where
  lenOffset : ℕ
  start : ℕ
  stop : ℕ
  deriving DecidableEq, Repr

/-- Skip the header, the input count and the prevout. -/
def locateScriptSig (data : Bytes) (headerLen : ℕ) : Except String ScriptSigPlace :=
  if data.length < headerLen + 1 then .error "Coinbase too short for header"
  else
    match readCompactSize data headerLen with
    | .error e => .error e
    | .ok (txInCount, csLen) =>
      if txInCount ≠ 1 then .error s!"Expected 1 txin in coinbase, got {txInCount}"
      else
        let lenOffset := headerLen + csLen + 36
        if data.length < lenOffset + 1 then .error "Coinbase too short for prevout"
        else
          match readCompactSize data lenOffset with
          | .error e => .error e
          | .ok (sigLen, sigCsLen) =>
            let start := lenOffset + sigCsLen
            if data.length < start + sigLen then .error "Coinbase too short for scriptSig"
            else .ok ⟨lenOffset, start, start + sigLen⟩

def scriptSigOf (data : Bytes) (place : ScriptSigPlace) : Bytes :=
  (data.take place.stop).drop place.start

/-- The transaction with another scriptSig of at most 252 bytes. -/
def setScriptSig (data : Bytes) (place : ScriptSigPlace) (scriptSig : Bytes) : Bytes :=
  data.take place.lenOffset ++ [UInt8.ofNat scriptSig.length] ++ scriptSig ++
    data.drop place.stop

/-- What follows from the new scriptSig. -/
def injectInto (isV5 : Bool) (data : Bytes) (place : ScriptSigPlace) (tag : Bytes)
    (chainHistoryRootHex : String) (txAuthDigests : List String) :
    Except String InjectionResult :=
  let newScriptSig := scriptSigOf data place ++ tag
  let newData := setScriptSig data place newScriptSig
  if isV5 then
    let coinbaseAuth := computeCoinbaseAuthDigest prims ((data.drop 8).take 4)
      (UInt8.ofNat newScriptSig.length) newScriptSig
    (blockCommitments prims ", expected 32"
      (fun n => s!"chain_history_root must be 32 bytes, got {n}") coinbaseAuth txAuthDigests
      chainHistoryRootHex).map (fun bc => ⟨Text.hexEncode newData, none, some bc⟩)
  else
    .ok ⟨Text.hexEncode newData, some (Text.hexEncode (prims.sha256d newData).reverse.bytes), none⟩

/-- Version 4 and 5: the tag is appended unless the scriptSig already contains it. -/
def injectInline (isV5 : Bool) (coinbaseHex : String) (data tag : Bytes)
    (chainHistoryRootHex : String) (txAuthDigests : List String) :
    Except String InjectionResult :=
  match locateScriptSig data (if isV5 then 20 else 8) with
  | .error e => .error e
  | .ok place =>
    if tag <:+: scriptSigOf data place then .ok ⟨coinbaseHex, none, none⟩
    else
      let newLen := (scriptSigOf data place).length + tag.length
      if maxScriptSigLen < newLen then
        .error s!"scriptSig would be {newLen} bytes (max {maxScriptSigLen})"
      else injectInto prims isV5 data place tag chainHistoryRootHex txAuthDigests

/-- Version 6, through zebra-chain. -/
def injectV6ViaZebra (data tag : Bytes) (chainHistoryRootHex : String)
    (txAuthDigests : List String) : Except String InjectionResult :=
  let zebra := prims.zebra
  match zebra.deserialize data with
  | .error e => .error s!"zebra-chain failed to parse v6 coinbase: {e}"
  | .ok tx =>
    if ¬ zebra.isV6 tx then .error "expected a V6 transaction"
    else
      match zebra.coinbaseData tx with
      | none => .error "first input is not a coinbase input"
      | some coinbaseData =>
        if maxScriptSigLen - 6 < coinbaseData.length + tag.length then
          .error (s!"coinbase data would exceed limit: {coinbaseData.length} + " ++
            s!"{tag.length}")
        else
          let tx := zebra.setCoinbaseData tx (coinbaseData ++ tag)
          match zebra.serialize tx with
          | .error e => .error s!"re-serialize failed: {e}"
          | .ok newData =>
            (blockCommitments prims "" (fun _ => "chain_history_root must be 32 bytes")
              (zebra.authDigest tx) txAuthDigests chainHistoryRootHex).map
              (fun bc => ⟨Text.hexEncode newData, none, some bc⟩)

def v4Version : Bytes := [0x04, 0x00, 0x00, 0x80]

def v5Version : Bytes := [0x05, 0x00, 0x00, 0x80]

def v6Version : Bytes := [0x06, 0x00, 0x00, 0x80]

/-- Inject a tag into the coinbase transaction's scriptSig. -/
def injectCoinbaseTag (coinbaseHex : String) (tag : Bytes) (chainHistoryRootHex : String)
    (txAuthDigests : List String) : Except String InjectionResult :=
  match Text.hexDecode coinbaseHex with
  | none => .error s!"Invalid coinbase hex: {prims.hexText coinbaseHex}"
  | some data =>
    if data.length < 4 then .error "Coinbase too short"
    else if data.take 4 = v6Version then
      injectV6ViaZebra prims data tag chainHistoryRootHex txAuthDigests
    else if data.take 4 = v5Version then
      injectInline prims true coinbaseHex data tag chainHistoryRootHex txAuthDigests
    else if data.take 4 = v4Version then
      injectInline prims false coinbaseHex data tag chainHistoryRootHex txAuthDigests
    else .error s!"Unknown tx version: {Text.hexEncode (data.take 4)}"

/-- A coinbase of version 4 or 5 goes to the inline injection. -/
theorem injectCoinbaseTag_eq_inline (isV5 : Bool) {coinbaseHex : String} {data : Bytes}
    (hdecode : Text.hexDecode coinbaseHex = some data)
    (hv : data.take 4 = if isV5 then v5Version else v4Version) (tag : Bytes) (rootHex : String)
    (digests : List String) :
    injectCoinbaseTag prims coinbaseHex tag rootHex digests
      = injectInline prims isV5 coinbaseHex data tag rootHex digests := by
  have hlen : ¬ data.length < 4 := by
    have htake := congrArg List.length hv
    rw [List.length_take] at htake
    cases isV5 <;> simp [v4Version, v5Version] at htake <;> omega
  cases isV5 with
  | false =>
    have hv4 : data.take 4 = v4Version := hv
    simp only [injectCoinbaseTag, hdecode, if_neg hlen, hv4]
    simp [v4Version, v5Version, v6Version]
  | true =>
    have hv5 : data.take 4 = v5Version := hv
    simp only [injectCoinbaseTag, hdecode, if_neg hlen, hv5]
    simp [v5Version, v6Version]

theorem injectCoinbaseTag_hexEncode (isV5 : Bool) {data : Bytes}
    (hv : data.take 4 = if isV5 then v5Version else v4Version) (tag : Bytes) (rootHex : String)
    (digests : List String) :
    injectCoinbaseTag prims (Text.hexEncode data) tag rootHex digests
      = injectInline prims isV5 (Text.hexEncode data) data tag rootHex digests :=
  injectCoinbaseTag_eq_inline prims isV5 (Text.hexDecode_hexEncode data) hv tag rootHex digests

/-! ## Samples -/

/-- Toy hashes that add their bytes up, and a zebra-chain that parses nothing. -/
def sampleCoinbasePrims : CoinbasePrimitives where
  sha256d data := Bytes32.fill data.sum
  blake2b256 personal data := Bytes32.fill (personal.sum + data.sum)
  zebra := ⟨Unit, fun _ => .error "unknown", fun _ => false, fun _ => none, fun _ _ => (),
    fun _ => .ok [], fun _ => Bytes32.fill 0⟩
  hexText _ := ""

/-- A version 4 or 5 coinbase up to its scriptSig, with `n` bytes in it. -/
def sampleCoinbase (version : Bytes) (headerLen n : ℕ) : Bytes :=
  version ++ List.replicate (headerLen - 4) 0 ++ [1] ++ List.replicate 36 0 ++ [UInt8.ofNat n] ++
    List.replicate n 0x51 ++ List.replicate 8 0

end ZcashMiningPool
