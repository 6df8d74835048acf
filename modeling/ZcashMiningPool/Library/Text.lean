import Mathlib.Data.Rat.Defs
import Mathlib.Algebra.Order.Field.Rat

/-!
# Texts

Hexadecimal and decimal texts, as command lines and line protocols carry them.

* `hexDecode`, `hexEncode` — two digits a byte, high half first; `hexDecode_hexEncode`.
* `parseHexU32` — a 32-bit number in hexadecimal, with an optional plus sign.
* `fromUtf8Lossy` — bytes as UTF-8, every maximal invalid run one U+FFFD;
  `fromUtf8Lossy_of_ascii`.
* `fields` — the parts between separators, empty ones included.
* `splitOnce`, `rsplitOnce`, `firstWord` — around the first or the last separator, and up to white
  space; `stripPrefix_append`, `firstWord_append` — with more text behind.
* `trim` — without the white space around.
* `parseU64` — decimal digits of a 64-bit number, with an optional plus sign.
* `parseDecimal` — a floating-point literal as an exact number; an infinite one becomes `2^1024`.
-/

set_option autoImplicit false

namespace Text

/-! ## Hexadecimal -/

def hexValue (c : Char) : Option UInt8 :=
  if '0' ≤ c ∧ c ≤ '9' then some (UInt8.ofNat (c.toNat - 48))
  else if 'a' ≤ c ∧ c ≤ 'f' then some (UInt8.ofNat (c.toNat - 87))
  else if 'A' ≤ c ∧ c ≤ 'F' then some (UInt8.ofNat (c.toNat - 55))
  else none

/-- Pairs of digits; an odd digit at the end is an error. -/
def hexPairs : List Char → Option (List UInt8)
  | [] => some []
  | [_] => none
  | hi :: lo :: cs =>
    match hexValue hi, hexValue lo, hexPairs cs with
    | some h, some l, some bs => some ((h * 16 + l) :: bs)
    | _, _, _ => none

def hexDecode (s : String) : Option (List UInt8) := hexPairs s.toList

def hexDigit (n : ℕ) : Char := Char.ofNat (if n < 10 then 48 + n else 87 + n)

def hexDigits (bs : List UInt8) : List Char :=
  bs.flatMap (fun b => [hexDigit (b.toNat / 16), hexDigit (b.toNat % 16)])

def hexEncode (bs : List UInt8) : String := String.ofList (hexDigits bs)

theorem hexValue_hexDigit {n : ℕ} (h : n < 16) : hexValue (hexDigit n) = some (UInt8.ofNat n) := by
  have hall : ∀ i : Fin 16, hexValue (hexDigit i.1) = some (UInt8.ofNat i.1) := by decide
  exact hall ⟨n, h⟩

theorem hexPairs_hexDigits (bs : List UInt8) : hexPairs (hexDigits bs) = some bs := by
  induction bs with
  | nil => rfl
  | cons b bs ih =>
    have hlt : b.toNat < 256 := b.toNat_lt
    have hhi := hexValue_hexDigit (n := b.toNat / 16) (by omega)
    have hlo := hexValue_hexDigit (n := b.toNat % 16) (by omega)
    have hbyte : UInt8.ofNat (b.toNat / 16) * 16 + UInt8.ofNat (b.toNat % 16) = b := by
      apply UInt8.toNat.inj
      rw [UInt8.toNat_add, UInt8.toNat_mul, UInt8.toNat_ofNat', UInt8.toNat_ofNat']
      have h16 : (16 : UInt8).toNat = 16 := rfl
      rw [h16]
      omega
    have hcons : hexDigits (b :: bs)
        = hexDigit (b.toNat / 16) :: hexDigit (b.toNat % 16) :: hexDigits bs := rfl
    rw [hcons, hexPairs, hhi, hlo, ih]
    simp only [hbyte]

/-- What was written reads back. -/
@[simp] theorem hexDecode_hexEncode (bs : List UInt8) : hexDecode (hexEncode bs) = some bs := by
  unfold hexDecode hexEncode
  rw [String.toList_ofList, hexPairs_hexDigits]

theorem hexEncode_inj {as bs : List UInt8} : hexEncode as = hexEncode bs ↔ as = bs := by
  constructor
  · intro h
    have hd := congrArg hexDecode h
    rw [hexDecode_hexEncode, hexDecode_hexEncode] at hd
    exact Option.some.inj hd
  · exact congrArg hexEncode

theorem hexEncode_append (as bs : List UInt8) :
    hexEncode (as ++ bs) = hexEncode as ++ hexEncode bs := by
  unfold hexEncode hexDigits
  rw [List.flatMap_append, String.ofList_append]

/-- The value of a run of digits, high digit first. -/
def hexNumber : List Char → Option ℕ :=
  List.foldl (fun acc c => match acc, hexValue c with
    | some n, some d => some (16 * n + d.toNat)
    | _, _ => none) (some 0)

def parseHexU32 (s : String) : Option ℕ :=
  let cs := match s.toList with
    | '+' :: cs => cs
    | cs => cs
  if cs = [] then none
  else (hexNumber cs).filter (fun n => decide (n < 2 ^ 32))

/-- A number in lower-case digits, without leading zeros. -/
def hexNat (n : ℕ) : List Char :=
  if n < 16 then [hexDigit n] else hexNat (n / 16) ++ [hexDigit (n % 16)]
termination_by n

theorem hexNumber_concat {cs : List Char} {n d : ℕ} (h : hexNumber cs = some n) (hd : d < 16) :
    hexNumber (cs ++ [hexDigit d]) = some (16 * n + d) := by
  have hlt : d < 256 := by omega
  unfold hexNumber at h ⊢
  rw [List.foldl_append, h]
  simp only [List.foldl_cons, List.foldl_nil, hexValue_hexDigit hd, UInt8.toNat_ofNat']
  rw [Nat.mod_eq_of_lt hlt]

/-- What was written reads back. -/
theorem hexNumber_hexNat (n : ℕ) : hexNumber (hexNat n) = some n := by
  induction n using Nat.strongRecOn with
  | ind n ih =>
    rw [hexNat]
    split
    · next hlt =>
      have hone : hexNumber ([] ++ [hexDigit n]) = some (16 * 0 + n) := hexNumber_concat rfl hlt
      rwa [Nat.mul_zero, Nat.zero_add] at hone
    · next hge =>
      rw [hexNumber_concat (ih (n / 16) (by omega)) (by omega)]
      congr 1
      omega

theorem mem_hexNat {n : ℕ} {c : Char} (h : c ∈ hexNat n) : ∃ d < 16, c = hexDigit d := by
  induction n using Nat.strongRecOn with
  | ind n ih =>
    rw [hexNat] at h
    split at h
    · next hlt => exact ⟨n, hlt, List.mem_singleton.1 h⟩
    · next hge =>
      obtain h | h := List.mem_append.1 h
      · exact ih (n / 16) (by omega) h
      · exact ⟨n % 16, by omega, List.mem_singleton.1 h⟩

theorem hexNat_ne_nil (n : ℕ) : hexNat n ≠ [] := by
  rw [hexNat]
  split
  · exact List.cons_ne_nil _ _
  · exact List.append_ne_nil_of_right_ne_nil _ (List.cons_ne_nil _ _)

/-- A digit is none of the characters that texts are cut at. -/
theorem hexDigit_plain {d : ℕ} (h : d < 16) : hexDigit d ∉ [':', ';', '=', '+', '-', ' '] := by
  have hall : ∀ i : Fin 16, hexDigit i.1 ∉ [':', ';', '=', '+', '-', ' '] := by decide
  exact hall ⟨d, h⟩

/-! ## Bytes as text -/

/-- A character begun: its bits so far, the bytes it still needs, and the range of the next one. -/
structure Pending where
  bits : ℕ
  owed : ℕ
  low : ℕ
  high : ℕ

def replacement : Char := Char.ofNat 0xFFFD

/-- A byte between characters: one of its own, the first of several, or neither. -/
def lead (b : UInt8) : List Char × Option Pending :=
  let n := b.toNat
  if n < 0x80 then ([Char.ofNat n], none)
  else if 0xC2 ≤ n ∧ n ≤ 0xDF then ([], some ⟨n - 0xC0, 1, 0x80, 0xBF⟩)
  else if n = 0xE0 then ([], some ⟨0, 2, 0xA0, 0xBF⟩)
  else if n = 0xED then ([], some ⟨0xD, 2, 0x80, 0x9F⟩)
  else if 0xE1 ≤ n ∧ n ≤ 0xEF then ([], some ⟨n - 0xE0, 2, 0x80, 0xBF⟩)
  else if n = 0xF0 then ([], some ⟨0, 3, 0x90, 0xBF⟩)
  else if 0xF1 ≤ n ∧ n ≤ 0xF3 then ([], some ⟨n - 0xF0, 3, 0x80, 0xBF⟩)
  else if n = 0xF4 then ([], some ⟨4, 3, 0x80, 0x8F⟩)
  else ([replacement], none)

def decodeLossy : Option Pending → List UInt8 → List Char
  | none, [] => []
  | some _, [] => [replacement]
  | none, b :: bs => (lead b).1 ++ decodeLossy (lead b).2 bs
  | some p, b :: bs =>
    let n := b.toNat
    if p.low ≤ n ∧ n ≤ p.high then
      let bits := 64 * p.bits + (n - 0x80)
      if p.owed = 1 then Char.ofNat bits :: decodeLossy none bs
      else decodeLossy (some ⟨bits, p.owed - 1, 0x80, 0xBF⟩) bs
    -- the byte that does not fit begins anew
    else replacement :: (lead b).1 ++ decodeLossy (lead b).2 bs

def fromUtf8Lossy (bs : List UInt8) : List Char := decodeLossy none bs

theorem fromUtf8Lossy_of_ascii {bs : List UInt8} (h : ∀ b ∈ bs, b < 128) :
    fromUtf8Lossy bs = bs.map (fun b => Char.ofNat b.toNat) := by
  induction bs with
  | nil => rfl
  | cons b bs ih =>
    have hb : b.toNat < 0x80 := UInt8.lt_iff_toNat_lt.mp (h b List.mem_cons_self)
    have hlead : lead b = ([Char.ofNat b.toNat], none) := if_pos hb
    have hbs := ih (fun c hc => h c (List.mem_cons_of_mem b hc))
    unfold fromUtf8Lossy at hbs ⊢
    rw [decodeLossy, hlead, hbs]
    rfl

/-! ## Parts of a text -/

def splitAt (c : Char) : List Char → List (List Char)
  | [] => [[]]
  | d :: ds =>
    if d = c then [] :: splitAt c ds
    else match splitAt c ds with
      | [] => [[d]]
      | part :: parts => (d :: part) :: parts

def fields (c : Char) (s : String) : List String := (splitAt c s.toList).map String.ofList

/-- The characters with the Unicode property `White_Space`. -/
def isSpace (c : Char) : Bool :=
  let n := c.toNat
  (9 ≤ n && n ≤ 13) || n == 32 || n == 0x85 || n == 0xA0 || n == 0x1680 ||
    (0x2000 ≤ n && n ≤ 0x200A) || n == 0x2028 || n == 0x2029 || n == 0x202F || n == 0x205F ||
    n == 0x3000

def trim (cs : List Char) : List Char :=
  ((cs.dropWhile isSpace).reverse.dropWhile isSpace).reverse

def stripPrefix (p cs : List Char) : Option (List Char) :=
  if p.isPrefixOf cs then some (cs.drop p.length) else none

/-- What stands before and after the first `c`. -/
def splitOnce (c : Char) : List Char → Option (List Char × List Char)
  | [] => none
  | d :: ds =>
    if d = c then some ([], ds) else (splitOnce c ds).map (fun p => (d :: p.1, p.2))

/-- What stands before and after the last `c`. -/
def rsplitOnce (c : Char) (cs : List Char) : Option (List Char × List Char) :=
  (splitOnce c cs.reverse).map (fun p => (p.2.reverse, p.1.reverse))

def firstWord (cs : List Char) : Option (List Char) :=
  let word := (cs.dropWhile isSpace).takeWhile (fun c => !isSpace c)
  if word = [] then none else some word

def trimMatches (c : Char) (cs : List Char) : List Char :=
  ((cs.dropWhile (· == c)).reverse.dropWhile (· == c)).reverse

theorem splitOnce_append {c : Char} {cs : List Char} (h : c ∉ cs) (rest : List Char) :
    splitOnce c (cs ++ c :: rest) = some (cs, rest) := by
  induction cs with
  | nil =>
    rw [List.nil_append, splitOnce, if_pos rfl]
  | cons d cs ih =>
    rw [List.mem_cons, not_or] at h
    rw [List.cons_append, splitOnce, if_neg (Ne.symm h.1), ih h.2]
    rfl

theorem eq_append_of_splitOnce {c : Char} {cs before after : List Char}
    (h : splitOnce c cs = some (before, after)) : cs = before ++ c :: after := by
  induction cs generalizing before after with
  | nil => cases h
  | cons d cs ih =>
    rw [splitOnce] at h
    split at h
    · next hd =>
      cases h
      rw [hd, List.nil_append]
    · obtain ⟨p, hp, hout⟩ := Option.map_eq_some_iff.1 h
      cases hout
      rw [ih hp, List.cons_append]

/-- A text without the separator is one part. -/
theorem splitAt_of_not_mem {c : Char} {cs : List Char} (h : c ∉ cs) : splitAt c cs = [cs] := by
  induction cs with
  | nil => rfl
  | cons d cs ih =>
    rw [List.mem_cons, not_or] at h
    rw [splitAt, if_neg (Ne.symm h.1), ih h.2]

theorem splitAt_append {c : Char} {cs : List Char} (h : c ∉ cs) (rest : List Char) :
    splitAt c (cs ++ c :: rest) = cs :: splitAt c rest := by
  induction cs with
  | nil =>
    rw [List.nil_append, splitAt, if_pos rfl]
  | cons d cs ih =>
    rw [List.mem_cons, not_or] at h
    rw [List.cons_append, splitAt, if_neg (Ne.symm h.1), ih h.2]

theorem trim_cons_space (cs : List Char) : trim (' ' :: cs) = trim cs := by
  have hspace : isSpace ' ' = true := rfl
  unfold trim
  rw [List.dropWhile_cons, if_pos hspace]

/-- A text that begins and ends with other characters keeps its spaces. -/
theorem trim_of_ends {cs : List Char} (hfirst : ∀ c, cs.head? = some c → isSpace c = false)
    (hlast : ∀ c, cs.getLast? = some c → isSpace c = false) : trim cs = cs := by
  have hdrop : ∀ l : List Char, (∀ c, l.head? = some c → isSpace c = false) →
      l.dropWhile isSpace = l := fun l hl => by
    cases l with
    | nil => rfl
    | cons c l => rw [List.dropWhile_cons, if_neg (by rw [hl c rfl]; exact Bool.false_ne_true)]
  unfold trim
  rw [hdrop cs hfirst, hdrop cs.reverse (by rwa [List.head?_reverse]), List.reverse_reverse]

theorem eq_append_of_stripPrefix {p cs rest : List Char} (h : stripPrefix p cs = some rest) :
    cs = p ++ rest := by
  unfold stripPrefix at h
  split at h
  · rename_i hp
    obtain ⟨r, rfl⟩ := List.isPrefixOf_iff_prefix.1 hp
    rw [List.drop_left] at h
    rw [Option.some.inj h]
  · cases h

/-- A name before the separator is found exactly if it is the one asked for. -/
theorem stripPrefix_key {c : Char} {name key : List Char} (hname : c ∉ name) (hkey : c ∉ key)
    (value : List Char) :
    stripPrefix (name ++ [c]) (key ++ c :: value) = if key = name then some value else none := by
  have happend : key ++ c :: value = (key ++ [c]) ++ value := by simp
  unfold stripPrefix
  by_cases heq : key = name
  · rw [if_pos heq, heq, if_pos, ← heq, happend, List.drop_left]
    rw [List.isPrefixOf_iff_prefix, ← heq, happend]
    exact List.prefix_append _ _
  · rw [if_neg heq, if_neg]
    rw [List.isPrefixOf_iff_prefix]
    rintro ⟨rest, hrest⟩
    have hsplit := splitOnce_append hkey value
    rw [← hrest, List.append_assoc, List.singleton_append, splitOnce_append hname] at hsplit
    exact heq (Prod.mk.inj (Option.some.inj hsplit)).1.symm

theorem stripPrefix_append {p cs rest : List Char} (h : stripPrefix p cs = some rest)
    (more : List Char) : stripPrefix p (cs ++ more) = some (rest ++ more) := by
  have hcs := eq_append_of_stripPrefix h
  have hp : p.isPrefixOf (cs ++ more) = true := by
    rw [List.isPrefixOf_iff_prefix, hcs, List.append_assoc]
    exact List.prefix_append p (rest ++ more)
  rw [stripPrefix, if_pos hp, hcs, List.append_assoc, List.drop_left]

theorem firstWord_append {cs word : List Char} (h : firstWord cs = some word) (more : List Char) :
    firstWord (cs ++ '\n' :: more) = some word := by
  unfold firstWord at h ⊢
  dsimp only at h ⊢
  have hdrop : (cs ++ '\n' :: more).dropWhile isSpace
      = cs.dropWhile isSpace ++ '\n' :: more := by
    rw [List.dropWhile_append]
    split
    · rename_i hnil
      rw [List.isEmpty_iff] at hnil
      rw [hnil, List.takeWhile_nil, if_pos rfl] at h
      cases h
    · rfl
  have htake : ((cs.dropWhile isSpace) ++ '\n' :: more).takeWhile (fun c => !isSpace c)
      = (cs.dropWhile isSpace).takeWhile (fun c => !isSpace c) := by
    have hnewline : (!isSpace '\n') = false := rfl
    rw [List.takeWhile_append]
    split
    · rename_i hall
      rw [List.takeWhile_cons, hnewline, if_neg Bool.false_ne_true, List.append_nil]
      exact (List.Sublist.eq_of_length (List.takeWhile_sublist _) hall).symm
    · rfl
  rw [hdrop, htake]
  exact h

/-! ## Decimal -/

def isDigit (c : Char) : Bool := '0' ≤ c && c ≤ '9'

def decimalNumber (cs : List Char) : ℕ := cs.foldl (fun n c => 10 * n + (c.toNat - 48)) 0

def parseU64 (cs : List Char) : Option UInt64 :=
  let ds := match cs with
    | '+' :: ds => ds
    | ds => ds
  if ds ≠ [] ∧ ds.all isDigit ∧ decimalNumber ds < 2 ^ 64 then
    some (UInt64.ofNat (decimalNumber ds))
  else none

def signed : List Char → ℤ × List Char
  | '-' :: cs => (-1, cs)
  | '+' :: cs => (1, cs)
  | cs => (1, cs)

/-- What may follow the digits: nothing, or `e` and a signed number. -/
def exponent : List Char → Option ℤ
  | [] => some 0
  | c :: cs =>
    if c = 'e' ∨ c = 'E' then
      let (sign, ds) := signed cs
      if ds ≠ [] ∧ ds.all isDigit then some (sign * decimalNumber ds) else none
    else none

/-- Digits around an optional point, and an exponent. -/
def decimalLiteral (cs : List Char) : Option ℚ :=
  let whole := cs.takeWhile isDigit
  let rest := cs.dropWhile isDigit
  let (fraction, rest) := match rest with
    | '.' :: ds => (ds.takeWhile isDigit, ds.dropWhile isDigit)
    | ds => ([], ds)
  if whole = [] ∧ fraction = [] then none
  else (exponent rest).map (fun e =>
    (decimalNumber (whole ++ fraction) : ℚ) * 10 ^ (e - (fraction.length : ℤ)))

def parseDecimal (cs : List Char) : Option ℚ :=
  let (sign, ds) := signed cs
  let name := String.ofList (ds.map Char.toLower)
  if name = "inf" ∨ name = "infinity" then some (sign * 2 ^ 1024)
  else (decimalLiteral ds).map (sign * ·)

end Text
