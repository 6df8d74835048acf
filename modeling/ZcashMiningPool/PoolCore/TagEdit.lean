import ZcashMiningPool.PoolCore.HeaderRoot

/-!
# What the tag changes

A coinbase before and after the injection, both read by the same parser.

* `ScriptSigEdit` — two byte strings that differ in the scriptSig and its length only.
* `injectInline_edits` — an injection that changes the coinbase is such an edit.
* `injectInline_again` — the tag is not injected twice.

Main result: `tag_edits_only_scriptSig`.
-/

set_option autoImplicit false

namespace ZcashMiningPool

/-- The offset of the input count. -/
def headerLenOf (isV5 : Bool) : ℕ := if isV5 then 20 else 8

/-- `newData` is `data` with `scriptSig` for the old one: the bytes before the length are the same,
    those behind the scriptSig too, and the length takes one byte. -/
structure ScriptSigEdit (headerLen : ℕ) (data newData scriptSig : Bytes)
    (place place' : ScriptSigPlace) : Prop where
  parses : locateScriptSig data headerLen = .ok place
  parses' : locateScriptSig newData headerLen = .ok place'
  scriptSig_eq : scriptSigOf newData place' = scriptSig
  lenOffset_eq : place'.lenOffset = place.lenOffset
  oneByte : place'.start = place'.lenOffset + 1
  before : newData.take place'.lenOffset = data.take place.lenOffset
  after : newData.drop place'.stop = data.drop place.stop

/-- Putting in a scriptSig of at most 252 bytes is an edit of this kind. -/
theorem scriptSigEdit_setScriptSig {headerLen : ℕ} {data scriptSig : Bytes}
    {place : ScriptSigPlace} (h : locateScriptSig data headerLen = .ok place)
    (hlen : scriptSig.length < 253) :
    ScriptSigEdit headerLen data (setScriptSig data place scriptSig) scriptSig place
      (newPlace place scriptSig) where
  parses := h
  parses' := locateScriptSig_setScriptSig h hlen
  scriptSig_eq := by
    obtain ⟨csLen, -, -, hbound⟩ := locateScriptSig_spec h
    exact scriptSigOf_setScriptSig hbound.le
  lenOffset_eq := rfl
  oneByte := rfl
  before := by
    obtain ⟨csLen, -, -, hbound⟩ := locateScriptSig_spec h
    have hhead : (data.take place.lenOffset).length = place.lenOffset := by
      rw [List.length_take]
      omega
    rw [setScriptSig_eq, newPlace]
    exact List.take_left' hhead
  after := by
    obtain ⟨csLen, -, -, hbound⟩ := locateScriptSig_spec h
    have hfront : (data.take place.lenOffset ++ [UInt8.ofNat scriptSig.length] ++ scriptSig).length
        = place.lenOffset + 1 + scriptSig.length := by
      simp only [List.length_append, List.length_take, List.length_singleton]
      omega
    rw [setScriptSig, newPlace]
    exact List.drop_left' hfront

variable {prims : CoinbasePrimitives}

theorem injectInto_newCoinbaseHex {isV5 : Bool} {data tag : Bytes} {place : ScriptSigPlace}
    {rootHex : String} {digests : List String} {result : InjectionResult}
    (h : injectInto prims isV5 data place tag rootHex digests = .ok result) :
    result.newCoinbaseHex
      = Text.hexEncode (setScriptSig data place (scriptSigOf data place ++ tag)) := by
  unfold injectInto at h
  dsimp only at h
  split at h
  · obtain ⟨bc, -, rfl⟩ := exists_of_map_eq_ok h
    rfl
  · cases h
    rfl

/-- An injection that changes the coinbase appends the tag to its scriptSig. -/
theorem injectInline_edits {isV5 : Bool} {coinbaseHex rootHex : String} {data tag : Bytes}
    {digests : List String} {result : InjectionResult}
    (h : injectInline prims isV5 coinbaseHex data tag rootHex digests = .ok result)
    (hchanged : result.newCoinbaseHex ≠ coinbaseHex) :
    ∃ place, locateScriptSig data (headerLenOf isV5) = .ok place ∧
      (scriptSigOf data place ++ tag).length ≤ maxScriptSigLen ∧
      result.newCoinbaseHex
        = Text.hexEncode (setScriptSig data place (scriptSigOf data place ++ tag)) := by
  unfold injectInline at h
  split at h
  · cases h
  · rename_i place hplace
    split at h
    · cases h
      exact absurd rfl hchanged
    · dsimp only at h
      split at h
      · cases h
      · rename_i hlen
        refine ⟨place, hplace, ?_, injectInto_newCoinbaseHex h⟩
        rw [List.length_append]
        omega

/-- A coinbase whose scriptSig ends in the tag is returned as it is. -/
theorem injectInline_again (isV5 : Bool) (coinbaseHex rootHex : String) {data tag before : Bytes}
    (digests : List String) {place : ScriptSigPlace}
    (hplace : locateScriptSig data (headerLenOf isV5) = .ok place)
    (hsig : scriptSigOf data place = before ++ tag) :
    injectInline prims isV5 coinbaseHex data tag rootHex digests
      = .ok ⟨coinbaseHex, none, none⟩ := by
  have hpresent : tag <:+: scriptSigOf data place := by
    rw [hsig]
    exact (List.suffix_append before tag).isInfix
  unfold headerLenOf at hplace
  simp only [injectInline, hplace, if_pos hpresent]

/-- **The tag edits the scriptSig and nothing else**, and a second injection changes nothing. -/
theorem tag_edits_only_scriptSig (prims : CoinbasePrimitives) (isV5 : Bool)
    (coinbaseHex rootHex : String) (data tag : Bytes) (digests : List String)
    (result : InjectionResult) (hdecode : Text.hexDecode coinbaseHex = some data)
    (hversion : data.take 4 = if isV5 then v5Version else v4Version)
    (h : injectCoinbaseTag prims coinbaseHex tag rootHex digests = .ok result)
    (hchanged : result.newCoinbaseHex ≠ coinbaseHex) :
    ∃ newData place place', Text.hexDecode result.newCoinbaseHex = some newData ∧
      ScriptSigEdit (headerLenOf isV5) data newData (scriptSigOf data place ++ tag) place place' ∧
      (scriptSigOf newData place').length ≤ 100 ∧
      ∀ rootHex' digests', injectCoinbaseTag prims result.newCoinbaseHex tag rootHex' digests'
        = .ok ⟨result.newCoinbaseHex, none, none⟩ := by
  rw [injectCoinbaseTag_eq_inline prims isV5 hdecode hversion] at h
  obtain ⟨place, hplace, hmax, hhex⟩ := injectInline_edits h hchanged
  have hlen : (scriptSigOf data place ++ tag).length < 253 := by
    unfold maxScriptSigLen at hmax
    omega
  have hedit := scriptSigEdit_setScriptSig hplace hlen
  have hversion' := (take_setScriptSig (scriptSigOf data place ++ tag) hplace).trans hversion
  have hdecode' : Text.hexDecode result.newCoinbaseHex
      = some (setScriptSig data place (scriptSigOf data place ++ tag)) := by
    rw [hhex, Text.hexDecode_hexEncode]
  refine ⟨_, place, _, hdecode', hedit, ?_, fun rootHex' digests' => ?_⟩
  · rw [hedit.scriptSig_eq]
    exact hmax
  · rw [injectCoinbaseTag_eq_inline prims isV5 hdecode' hversion']
    exact injectInline_again isV5 _ _ digests' hedit.parses' hedit.scriptSig_eq

/-- A version 4 coinbase of nine scriptSig bytes and a tag of four. -/
theorem tag_edits_only_scriptSig_roomyCoinbase :
    ∃ result newData place place',
      injectCoinbaseTag sampleCoinbasePrims (Text.hexEncode roomyCoinbase) (ascii "pool") "" []
        = .ok result ∧
      Text.hexDecode result.newCoinbaseHex = some newData ∧
      ScriptSigEdit 8 roomyCoinbase newData (scriptSigOf roomyCoinbase place ++ ascii "pool") place
        place' ∧
      (scriptSigOf newData place').length ≤ 100 ∧
      injectCoinbaseTag sampleCoinbasePrims result.newCoinbaseHex (ascii "pool") "" []
        = .ok ⟨result.newCoinbaseHex, none, none⟩ := by
  have hversion : roomyCoinbase.take 4 = v4Version := by decide
  have hok : injectCoinbaseTag sampleCoinbasePrims (Text.hexEncode roomyCoinbase) (ascii "pool") ""
      [] = injectInto sampleCoinbasePrims false roomyCoinbase ⟨45, 46, 55⟩ (ascii "pool") "" [] := by
    have hplace : locateScriptSig roomyCoinbase 8 = .ok ⟨45, 46, 55⟩ := by decide +kernel
    rw [injectCoinbaseTag_hexEncode sampleCoinbasePrims false hversion]
    simp only [injectInline, Bool.false_eq_true, if_false, hplace]
    rw [if_neg (by decide +kernel), if_neg (by decide +kernel)]
  have hchanged : Text.hexEncode (setScriptSig roomyCoinbase ⟨45, 46, 55⟩
      (scriptSigOf roomyCoinbase ⟨45, 46, 55⟩ ++ ascii "pool")) ≠ Text.hexEncode roomyCoinbase := by
    rw [Ne, Text.hexEncode_inj]
    decide +kernel
  obtain ⟨newData, place, place', hnew, hedit, hmax, hagain⟩ :=
    tag_edits_only_scriptSig sampleCoinbasePrims false _ "" roomyCoinbase (ascii "pool") [] _
      (Text.hexDecode_hexEncode _) hversion hok hchanged
  exact ⟨_, newData, place, place', hok, hnew, hedit, hmax, hagain "" []⟩

end ZcashMiningPool
