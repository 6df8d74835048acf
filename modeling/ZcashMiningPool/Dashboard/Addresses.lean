import Mathlib.Data.String.Basic
import ZcashMiningPool.Stratum.Server

/-!
# Payable addresses

`is_valid_zcash_address` of the dashboard decides which registered addresses a payout round sends
to.  A wallet decodes an address in full; this function does so only for transparent ones.

* `isValidZcashAddress` — the three address kinds; the base58check decoder is a parameter.
* `bech32Holds` — the checksum that ends a Sapling address, which the function does not compute.
* `sapling_accepted` — any text of the right prefix, length and alphabet is accepted.
-/

set_option autoImplicit false

namespace ZcashMiningPool

/-! ## The dashboard's check -/

/-- `starts_with`. -/
def startsWith (addr p : String) : Bool := p.toList.isPrefixOf addr.toList

/-- The bech32 alphabet, in the order of its values. -/
def bech32Charset : List Char := "qpzry9x8gf2tvdw0s3jn54khce6mua7l".toList

/-- `&addr[addr.rfind('1') + 1..]`. -/
def afterLastOne (addr : String) : List Char :=
  (addr.toList.reverse.takeWhile (· != '1')).reverse

/-- `&addr[addr.find('1') + 1..]`. -/
def afterFirstOne (addr : String) : List Char := (addr.toList.dropWhile (· != '1')).tail

def inCharset (data : List Char) : Bool := data.all (fun c => bech32Charset.contains c)

/-- `is_valid_zcash_address`.  `bs58` is `bs58::decode(..).with_check(None)`; lengths are in
    bytes. -/
def isValidZcashAddress (bs58 : String → Option (List UInt8)) (addr network : String) : Bool :=
  let mainnet := network == "mainnet"
  if startsWith addr "t" then
    (if mainnet then startsWith addr "t1" || startsWith addr "t3"
      else startsWith addr "tm" || startsWith addr "t2") &&
    (match bs58 addr with
      | some bytes => bytes.length == 22
      | none => false)
  else if startsWith addr "z" then
    startsWith addr (if mainnet then "zs1" else "ztestsapling1") &&
      inCharset (afterLastOne addr) && addr.utf8ByteSize == (if mainnet then 78 else 88)
  else if startsWith addr "u" then
    (if mainnet then startsWith addr "u1" && !startsWith addr "utest"
      else startsWith addr "utest1") &&
    inCharset (afterFirstOne addr) && decide (50 ≤ (afterFirstOne addr).length) &&
      decide (addr.utf8ByteSize ≤ 320)
  else false

/-! ## What it leaves out -/

/-- One step of the bech32 checksum over 30 bits. -/
def bech32Step (check value : ℕ) : ℕ :=
  let top := check / 2 ^ 25
  [0x3b6a57b2, 0x26508e6d, 0x1ea119fa, 0x3d4233dd, 0x2a1462b3].zipIdx.foldl
    (fun c g => if top.testBit g.2 then c ^^^ g.1 else c) ((check % 2 ^ 25) * 32 ^^^ value)

/-- The checksum of a bech32 text: its prefix expanded, then its data. -/
def bech32Holds (addr : String) : Bool :=
  let data := afterLastOne addr
  let hrp := addr.toList.take (addr.toList.length - data.length - 1)
  let values := hrp.map (fun c => c.toNat / 32) ++ [0] ++ hrp.map (fun c => c.toNat % 32) ++
    data.map (fun c => bech32Charset.idxOf c)
  inCharset data && values.foldl bech32Step 1 == 1

example : bech32Holds "a12uel5l" = true := by decide +kernel

theorem charset_char {c : Char} (h : bech32Charset.contains c = true) :
    c ≠ '1' ∧ c.utf8Size = 1 := by
  have hall : bech32Charset.all (fun c => c != '1' && c.utf8Size == 1) = true := by
    decide +kernel
  have hc := List.all_eq_true.1 hall c (List.contains_iff_mem.1 h)
  rw [Bool.and_eq_true, bne_iff_ne, beq_iff_eq] at hc
  exact hc

theorem utf8ByteSize_of_charset {data : List Char} (h : inCharset data = true) :
    (String.ofList data).utf8ByteSize = data.length := by
  rw [String.utf8ByteSize_ofList]
  induction data with
  | nil => rfl
  | cons c data ih =>
    simp only [inCharset, List.all_cons, Bool.and_eq_true] at h
    rw [String.utf8Len, ih h.2, (charset_char h.1).2, List.length_cons]

/-- Prefix, alphabet and length are all that is asked of a Sapling address. -/
theorem sapling_accepted (bs58 : String → Option (List UInt8)) {data : List Char}
    (hdata : inCharset data = true) (hlength : data.length = 75) :
    isValidZcashAddress bs58 (String.ofList ("zs1".toList ++ data)) "mainnet" = true := by
  have hone : ∀ c ∈ data, c ≠ '1' := fun c hc => (charset_char (List.all_eq_true.1 hdata c hc)).1
  have hsize : (String.ofList ("zs1".toList ++ data)).utf8ByteSize = 78 := by
    rw [String.ofList_append, String.utf8ByteSize_append, utf8ByteSize_of_charset hdata, hlength]
    rfl
  have hlist : (String.ofList ("zs1".toList ++ data)).toList = 'z' :: 's' :: '1' :: data := by
    rw [String.toList_ofList]
    rfl
  generalize String.ofList ("zs1".toList ++ data) = addr at *
  have hafter : afterLastOne addr = data := by
    rw [afterLastOne, hlist]
    show ((['z', 's', '1'] ++ data).reverse.takeWhile (· != '1')).reverse = data
    rw [List.reverse_append, List.takeWhile_append_of_pos]
    · simp
    · intro c hc
      simpa using hone c (List.mem_reverse.1 hc)
  simp [isValidZcashAddress, startsWith, hlist, hafter, hdata, hsize]

end ZcashMiningPool
