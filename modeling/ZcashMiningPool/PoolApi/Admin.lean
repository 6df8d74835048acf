import ZcashMiningPool.Library.Throttle
import ZcashMiningPool.PoolCore.Target

/-!
# Logins and sessions of the admin server

`pool-api/src/admin.rs`: two surfaces with a password each, one throttle for failed logins, and
cookies that carry a time and a MAC.  Password hash and MAC are parameters.

* `makeSessionCookie`, `verifySessionCookie`, `extractCookie` — cookies;
  `extractCookie_cookieHeader`, `verify_makeSessionCookie` — what a browser keeps is read back.
* `AdminServer.step` — login forms and requests, served by any number of threads: between the check
  of the throttle and the note of a failure other threads may do anything.

Pages and what an authenticated request does are left out.
-/

set_option autoImplicit false

namespace ZcashMiningPool

open Machine

/-! ## Cookies -/

inductive Surface where
  | admin
  | ops
  deriving DecidableEq, Repr

def Surface.cookieName : Surface → String
  | .admin => "admin_session"
  | .ops => "ops_session"

/-- `derive_signing_key` and the hash of `compute_mac`. -/
structure AdminCrypto where
  deriveSigningKey : String → Bytes32
  keyedHash : Bytes32 → String → Bytes32

/-- 24 hours -/
def sessionMaxAgeSecs : ℤ := 86400

/-- `{ts:x}` of a 64-bit number: two's complement. -/
def formatHexI64 (ts : ℤ) : String := String.ofList (Text.hexNat (ts % 2 ^ 64).toNat)

def parseHexI64 (s : String) : Option ℤ :=
  let (sign, ds) := Text.signed s.toList
  if ds = [] then none
  else (Text.hexNumber ds).bind fun n =>
    if -2 ^ 63 ≤ sign * (n : ℤ) ∧ sign * (n : ℤ) < 2 ^ 63 then some (sign * n) else none

theorem Bytes32.bytes_injective : Function.Injective Bytes32.bytes := by
  rintro ⟨bytes, hlength⟩ ⟨bytes', hlength'⟩ rfl
  rfl

namespace AdminCrypto

def computeMac (c : AdminCrypto) (key : Bytes32) (message : String) : String :=
  Text.hexEncode (c.keyedHash key message).bytes

def makeSessionCookie (c : AdminCrypto) (key : Bytes32) (ts : ℤ) : String :=
  formatHexI64 ts ++ ":" ++ c.computeMac key (formatHexI64 ts)

def verifySessionCookie (c : AdminCrypto) (key : Bytes32) (cookieValue : String) (now : ℤ) : Bool :=
  match Text.splitOnce ':' cookieValue.toList with
  | none => false
  | some (tsHex, mac) =>
    if String.ofList mac ≠ c.computeMac key (String.ofList tsHex) then false
    else match parseHexI64 (String.ofList tsHex) with
      | none => false
      | some ts => decide (now - ts < sessionMaxAgeSecs)

end AdminCrypto

/-- The first cookie of that name in the `cookie` headers. -/
def extractCookie (headers : List String) (name : String) : Option String :=
  (headers.flatMap fun h => Text.splitAt ';' h.toList).findSome? fun pair =>
    (Text.stripPrefix (name ++ "=").toList (Text.trim pair)).map String.ofList

/-! ### What was made is read -/

theorem parseHexI64_formatHexI64 {ts : ℤ} (h₀ : 0 ≤ ts) (h : ts < 2 ^ 63) :
    parseHexI64 (formatHexI64 ts) = some ts := by
  obtain ⟨n, rfl⟩ := Int.eq_ofNat_of_zero_le h₀
  have hmod : (((n : ℤ) % 2 ^ 64).toNat) = n := by omega
  have hsigned : Text.signed (Text.hexNat n) = (1, Text.hexNat n) := by
    cases hcs : Text.hexNat n with
    | nil => rfl
    | cons c cs =>
      obtain ⟨d, hd, rfl⟩ := Text.mem_hexNat (n := n) (c := c) (by rw [hcs]; exact List.mem_cons_self)
      have hplain := Text.hexDigit_plain hd
      simp only [List.mem_cons, List.not_mem_nil, or_false, not_or] at hplain
      unfold Text.signed
      split
      · next heq => exact absurd (List.cons.inj heq).1 hplain.2.2.2.2.1
      · next heq => exact absurd (List.cons.inj heq).1 hplain.2.2.2.1
      · rfl
  unfold parseHexI64 formatHexI64
  rw [String.toList_ofList, hmod, hsigned]
  dsimp only
  rw [if_neg (Text.hexNat_ne_nil n), Text.hexNumber_hexNat, Option.bind_some, one_mul,
    if_pos ⟨by omega, h⟩]

theorem not_mem_formatHexI64 {c : Char} (hc : c ∈ [':', ';', '=', '+', '-', ' ']) (ts : ℤ) :
    c ∉ (formatHexI64 ts).toList := by
  intro hmem
  rw [formatHexI64, String.toList_ofList] at hmem
  obtain ⟨d, hd, rfl⟩ := Text.mem_hexNat hmem
  exact Text.hexDigit_plain hd hc

theorem mem_hexEncode {c : Char} {bs : Bytes} (h : c ∈ (Text.hexEncode bs).toList) :
    ∃ d < 16, c = Text.hexDigit d := by
  rw [Text.hexEncode, String.toList_ofList, Text.hexDigits, List.mem_flatMap] at h
  obtain ⟨b, -, hb⟩ := h
  have hlt : b.toNat < 256 := b.toNat_lt
  simp only [List.mem_cons, List.not_mem_nil, or_false] at hb
  obtain rfl | rfl := hb
  · exact ⟨b.toNat / 16, by omega, rfl⟩
  · exact ⟨b.toNat % 16, by omega, rfl⟩

/-! ### Headers -/

/-- The `cookie` header of a browser with these cookies. -/
def cookieHeader (jar : List (String × String)) : String :=
  "; ".intercalate (jar.map fun p => p.1 ++ "=" ++ p.2)

/-- Names and values that a browser takes. -/
structure PlainCookie (p : String × String) : Prop where
  name_plain : ∀ c ∈ p.1.toList, c ≠ ';' ∧ c ≠ '=' ∧ Text.isSpace c = false
  value_plain : ∀ c ∈ p.2.toList, c ≠ ';' ∧ Text.isSpace c = false

theorem Surface.plain_cookieName (surface : Surface) :
    ∀ c ∈ surface.cookieName.toList, c ≠ ';' ∧ c ≠ '=' ∧ Text.isSpace c = false := by
  cases surface with
  | admin =>
    have hname : Surface.admin.cookieName.toList
        = ['a', 'd', 'm', 'i', 'n', '_', 's', 'e', 's', 's', 'i', 'o', 'n'] := rfl
    rw [hname]
    simp [Text.isSpace]
  | ops =>
    have hname : Surface.ops.cookieName.toList
        = ['o', 'p', 's', '_', 's', 'e', 's', 's', 'i', 'o', 'n'] := rfl
    rw [hname]
    simp [Text.isSpace]

theorem PlainCookie.trim {p : String × String} (h : PlainCookie p) :
    Text.trim (p.1.toList ++ '=' :: p.2.toList) = p.1.toList ++ '=' :: p.2.toList := by
  have hall : ∀ c ∈ p.1.toList ++ '=' :: p.2.toList, Text.isSpace c = false := fun c hc => by
    obtain hc | hc := List.mem_append.1 hc
    · exact (h.name_plain c hc).2.2
    · obtain rfl | hc := List.mem_cons.1 hc
      · rfl
      · exact (h.value_plain c hc).2
  exact Text.trim_of_ends (fun c hc => hall c (List.mem_of_head? hc))
    fun c hc => hall c (List.mem_of_getLast? hc)

theorem PlainCookie.not_mem {p : String × String} (h : PlainCookie p) :
    ';' ∉ p.1.toList ++ '=' :: p.2.toList := by
  intro hmem
  obtain hc | hc := List.mem_append.1 hmem
  · exact (h.name_plain _ hc).1 rfl
  · obtain hc | hc := List.mem_cons.1 hc
    · exact absurd hc (by decide)
    · exact (h.value_plain _ hc).1 rfl

/-- The parts of a header, trimmed, are the cookies. -/
theorem trim_cookieHeader {p : String × String} {jar : List (String × String)}
    (h : ∀ q ∈ p :: jar, PlainCookie q) :
    ((Text.splitAt ';' (cookieHeader (p :: jar)).toList).map Text.trim)
      = (p :: jar).map fun q => q.1.toList ++ '=' :: q.2.toList := by
  induction jar generalizing p with
  | nil =>
    have hp := h p List.mem_cons_self
    have hone : (cookieHeader [p]).toList = p.1.toList ++ '=' :: p.2.toList := by
      simp [cookieHeader]
    rw [hone, Text.splitAt_of_not_mem hp.not_mem, List.map_singleton, hp.trim]
    rfl
  | cons q jar ih =>
    have hp := h p List.mem_cons_self
    have hrest := ih fun r hr => h r (List.mem_cons_of_mem _ hr)
    have hcons : (cookieHeader (p :: q :: jar)).toList
        = (p.1.toList ++ '=' :: p.2.toList) ++ ';' :: ' ' :: (cookieHeader (q :: jar)).toList := by
      simp [cookieHeader]
    -- the blank after the semicolon belongs to the next part
    have hblank : (Text.splitAt ';' (' ' :: (cookieHeader (q :: jar)).toList)).map Text.trim
        = (Text.splitAt ';' (cookieHeader (q :: jar)).toList).map Text.trim := by
      rw [Text.splitAt, if_neg (by decide)]
      cases hparts : Text.splitAt ';' (cookieHeader (q :: jar)).toList with
      | nil => rw [hparts] at hrest; cases hrest
      | cons part parts => rw [List.map_cons, List.map_cons, Text.trim_cons_space]
    rw [hcons, Text.splitAt_append hp.not_mem, List.map_cons, hp.trim, hblank, hrest]
    rfl

theorem toList_name_eq (name : String) : (name ++ "=").toList = name.toList ++ ['='] := by
  rw [String.toList_append]
  rfl

theorem stripPrefix_cookie {p : String × String} (hp : PlainCookie p) {name : String}
    (hname : '=' ∉ name.toList) :
    (Text.stripPrefix (name ++ "=").toList (p.1.toList ++ '=' :: p.2.toList)).map String.ofList
      = if p.1 = name then some p.2 else none := by
  have hkey : '=' ∉ p.1.toList := fun hmem => (hp.name_plain _ hmem).2.1 rfl
  rw [toList_name_eq, Text.stripPrefix_key hname hkey]
  by_cases heq : p.1 = name
  · rw [if_pos heq, if_pos (congrArg String.toList heq), Option.map_some, String.ofList_toList]
  · rw [if_neg heq, if_neg fun hl => heq (String.toList_inj.1 hl), Option.map_none]

theorem findSome_cookies {jar : List (String × String)} (h : ∀ p ∈ jar, PlainCookie p)
    {name : String} (hname : '=' ∉ name.toList) :
    (jar.map fun q => q.1.toList ++ '=' :: q.2.toList).findSome? (fun pair =>
      (Text.stripPrefix (name ++ "=").toList pair).map String.ofList)
    = (jar.find? fun p => p.1 = name).map (·.2) := by
  induction jar with
  | nil => rfl
  | cons p jar ih =>
    have hrest := ih fun q hq => h q (List.mem_cons_of_mem _ hq)
    rw [List.map_cons, List.findSome?_cons, stripPrefix_cookie (h p List.mem_cons_self) hname,
      List.find?_cons]
    by_cases heq : p.1 = name
    · rw [if_pos heq, decide_eq_true heq]
      rfl
    · rw [if_neg heq, decide_eq_false heq]
      exact hrest

/-- **A cookie is found under its name**: the first one of that name that the browser has. -/
theorem extractCookie_cookieHeader {jar : List (String × String)} (h : ∀ p ∈ jar, PlainCookie p)
    {name : String} (hname : '=' ∉ name.toList) :
    extractCookie [cookieHeader jar] name = (jar.find? fun p => p.1 = name).map (·.2) := by
  have hparts : extractCookie [cookieHeader jar] name
      = ((Text.splitAt ';' (cookieHeader jar).toList).map Text.trim).findSome? fun pair =>
        (Text.stripPrefix (name ++ "=").toList pair).map String.ofList := by
    unfold extractCookie
    rw [List.flatMap_singleton, List.findSome?_map]
    rfl
  rw [hparts]
  cases jar with
  | nil =>
    have hempty : Text.stripPrefix (name ++ "=").toList [] = none := by
      rw [toList_name_eq, Text.stripPrefix, if_neg]
      cases name.toList <;> exact Bool.false_ne_true
    show List.findSome? _ [[]] = none
    rw [List.findSome?_cons, hempty]
    rfl
  | cons p jar => rw [trim_cookieHeader h, findSome_cookies h hname]

namespace AdminCrypto

variable (crypto : AdminCrypto)

theorem toList_makeSessionCookie (key : Bytes32) (ts : ℤ) :
    (crypto.makeSessionCookie key ts).toList
      = (formatHexI64 ts).toList ++ ':' :: (crypto.computeMac key (formatHexI64 ts)).toList := by
  unfold makeSessionCookie
  rw [String.toList_append, String.toList_append, List.append_assoc]
  rfl

theorem length_computeMac (key : Bytes32) (message : String) :
    (crypto.computeMac key message).toList.length = 64 := by
  have hlength : ∀ bs : Bytes, (Text.hexDigits bs).length = 2 * bs.length := fun bs => by
    induction bs with
    | nil => rfl
    | cons b bs ih =>
      have hcons : Text.hexDigits (b :: bs)
          = Text.hexDigit (b.toNat / 16) :: Text.hexDigit (b.toNat % 16) :: Text.hexDigits bs := rfl
      rw [hcons, List.length_cons, List.length_cons, List.length_cons, ih]
      omega
  rw [computeMac, Text.hexEncode, String.toList_ofList, hlength, (crypto.keyedHash key message).length_eq]

/-- What the server makes a browser takes. -/
theorem plain_makeSessionCookie (surface : Surface) (key : Bytes32) (ts : ℤ) :
    PlainCookie (surface.cookieName, crypto.makeSessionCookie key ts) := by
  have hdigit : ∀ c : Char, (∃ d < 16, c = Text.hexDigit d) → c ≠ ';' ∧ Text.isSpace c = false := by
    rintro c ⟨d, hd, rfl⟩
    have hall : ∀ i : Fin 16, Text.hexDigit i.1 ≠ ';' ∧ Text.isSpace (Text.hexDigit i.1) = false := by
      decide
    exact hall ⟨d, hd⟩
  refine ⟨surface.plain_cookieName, fun c hc => ?_⟩
  rw [toList_makeSessionCookie, List.mem_append] at hc
  obtain hc | hc := hc
  · rw [formatHexI64, String.toList_ofList] at hc
    exact hdigit c (Text.mem_hexNat hc)
  · obtain rfl | hc := List.mem_cons.1 hc
    · decide
    · exact hdigit c (mem_hexEncode hc)

/-- A cookie is good for 24 hours. -/
theorem verify_makeSessionCookie (key : Bytes32) {ts : ℤ} (h₀ : 0 ≤ ts) (h : ts < 2 ^ 63)
    (now : ℤ) : crypto.verifySessionCookie key (crypto.makeSessionCookie key ts) now
      = decide (now - ts < sessionMaxAgeSecs) := by
  unfold verifySessionCookie
  rw [toList_makeSessionCookie, Text.splitOnce_append (not_mem_formatHexI64 (by simp) ts)]
  dsimp only
  rw [String.ofList_toList, String.ofList_toList, if_neg (not_not.2 rfl),
    parseHexI64_formatHexI64 h₀ h]

/-- What a verified cookie is made of. -/
theorem verifySessionCookie_eq_true {key : Bytes32} {value : String} {now : ℤ}
    (h : crypto.verifySessionCookie key value now = true) :
    ∃ tsHex ts, value = tsHex ++ ":" ++ crypto.computeMac key tsHex ∧
      parseHexI64 tsHex = some ts ∧ now - ts < sessionMaxAgeSecs := by
  unfold verifySessionCookie at h
  split at h
  · cases h
  · next tsHex mac hsplit =>
    split at h
    · cases h
    · next hmac =>
      rw [ne_eq, not_not] at hmac
      split at h
      · cases h
      · next ts hts =>
        refine ⟨String.ofList tsHex, ts, ?_, hts, of_decide_eq_true h⟩
        rw [← hmac]
        apply String.toList_inj.1
        rw [Text.eq_append_of_splitOnce hsplit, String.toList_append, String.toList_append,
          String.toList_ofList, String.toList_ofList, List.append_assoc]
        simp

end AdminCrypto

/-! ## The server -/

/-- Keys of the two surfaces; without a password the ops surface is off. -/
structure AdminState where
  signingKey : Bytes32
  opsSigningKey : Option Bytes32

def AdminState.keyOf (a : AdminState) : Surface → Option Bytes32
  | .admin => some a.signingKey
  | .ops => a.opsSigningKey

/-- The admin password opens the ops surface as well. -/
def AdminState.opens (crypto : AdminCrypto) (a : AdminState) (surface : Surface)
    (password : String) : Bool :=
  let submitted := crypto.deriveSigningKey password
  match surface with
  | .admin => submitted == a.signingKey
  | .ops => some submitted == a.opsSigningKey || submitted == a.signingKey

/-- 15 minutes -/
def loginFailWindow : ℚ := 900

def loginFailMax : ℕ := 5

/-- What the server answered. -/
inductive AdminReply where
  | notConfigured
  | rateLimited (now : ℚ)
  | loginFailed (now : ℚ)
  | loggedIn (surface : Surface) (password : String) (ts : ℤ) (cookie : String)
  | served (surface : Surface) (cookie : String) (now : ℤ)
  | turnedAway
  deriving DecidableEq

/-- The throttle, the login forms that passed its check, thread by thread, and all answers. -/
structure AdminServer (ι : Type) where
  failures : List ℚ
  tasks : ι → Option (Surface × String)
  clock : ℚ
  log : List AdminReply

namespace AdminServer

variable {ι : Type} [DecidableEq ι]

inductive Event (ι : Type) where
  /-- a thread takes up a login form -/
  | login (i : ι) (surface : Surface) (password : String) (now : ℚ)
  /-- the thread compares the password -/
  | compare (i : ι) (now : ℚ) (ts : ℤ)
  | request (surface : Surface) (headers : List String) (now : ℤ)

def start (now : ℚ) : AdminServer ι := ⟨[], fun _ => none, now, []⟩

section

variable (crypto : AdminCrypto) (a : AdminState)

/-- `handle_login` and `handle_ops_login` up to the check of the throttle. -/
def login (s : AdminServer ι) (i : ι) (surface : Surface) (password : String) (now : ℚ) :
    AdminServer ι :=
  match s.tasks i, a.keyOf surface with
  | some _, _ => s
  | none, none => { s with log := s.log ++ [.notConfigured] }
  | none, some _ =>
    let (locked, failures) := Throttle.locked loginFailWindow loginFailMax s.failures now
    if locked then
      { s with failures := failures, clock := now, log := s.log ++ [.rateLimited now] }
    else
      { s with
        failures := failures
        clock := now
        tasks := Function.update s.tasks i (some (surface, password)) }

/-- From the comparison on. -/
def comparePassword (s : AdminServer ι) (i : ι) (now : ℚ) (ts : ℤ) : AdminServer ι :=
  match s.tasks i with
  | none => s
  | some (surface, password) =>
    let s := { s with tasks := Function.update s.tasks i none }
    match a.opens crypto surface password, a.keyOf surface with
    | true, some key =>
      { s with
        log := s.log ++ [.loggedIn surface password ts (crypto.makeSessionCookie key ts)] }
    | _, _ =>
      { s with
        failures := s.failures ++ [now]
        clock := now
        log := s.log ++ [.loginFailed now] }

/-- `auth_middleware` and `ops_auth_middleware`. -/
def request (s : AdminServer ι) (surface : Surface) (headers : List String) (now : ℤ) :
    AdminServer ι :=
  match a.keyOf surface with
  | none => { s with log := s.log ++ [.notConfigured] }
  | some key =>
    match extractCookie headers surface.cookieName with
    | none => { s with log := s.log ++ [.turnedAway] }
    | some cookie =>
      if crypto.verifySessionCookie key cookie now then
        { s with log := s.log ++ [.served surface cookie now] }
      else { s with log := s.log ++ [.turnedAway] }

def step (s : AdminServer ι) : Event ι → AdminServer ι
  | .login i surface password now => s.login a i surface password now
  | .compare i now ts => s.comparePassword crypto a i now ts
  | .request surface headers now => s.request crypto a surface headers now

/-- A cookie with a MAC under one of the keys is one that the server gave out. -/
def Unforged (log : List AdminReply) (cookie : String) : Prop :=
  ∀ surface key tsHex, a.keyOf surface = some key →
    cookie = tsHex ++ ":" ++ crypto.computeMac key tsHex →
    ∃ surface' password ts, .loggedIn surface' password ts cookie ∈ log ∧
      a.keyOf surface' = some key ∧ formatHexI64 ts = tsHex

/-- Only the server makes MACs, and nobody shows a cookie from before its start. -/
def NoForgery (s : AdminServer ι) : Event ι → Prop
  | .request surface headers _ =>
    ∀ cookie, extractCookie headers surface.cookieName = some cookie →
      Unforged crypto a s.log cookie
  | _ => True

end

/-- The monotonic clock does not run back, and the other one stands after 1970. -/
def Fair (s : AdminServer ι) : Event ι → Prop
  | .login _ _ _ now => s.clock ≤ now
  | .compare _ now ts => s.clock ≤ now ∧ 0 ≤ ts ∧ ts < 2 ^ 63
  | .request _ _ _ => True

/-- The times of the failed logins. -/
def failureTimes (s : AdminServer ι) : List ℚ :=
  s.log.filterMap fun r => match r with
    | .loginFailed now => some now
    | _ => none

end AdminServer

end ZcashMiningPool
