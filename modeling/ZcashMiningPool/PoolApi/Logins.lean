import ZcashMiningPool.PoolApi.Admin

/-!
# What logins and sessions guarantee

* `reachable_throttle` — the server runs one throttle, whatever its threads do.
* `guesses_in_window` — how many wrong passwords are looked at in any 15 minutes.
* `lockout_exact` — a login form is turned away exactly after five failures in 15 minutes.
* `session_authentic` — whoever is served logged in with a password of the surface, less than a day
  ago.
* `session_lasts` — and whoever did is served for a day.
-/

set_option autoImplicit false

namespace ZcashMiningPool

open Machine

namespace AdminServer

variable {ι : Type} {crypto : AdminCrypto} {a : AdminState} {s : AdminServer ι}

/-! ## A sample login -/

/-- Stand-ins for the two hashes. -/
def sampleAdminCrypto : AdminCrypto where
  deriveSigningKey password := ⟨List.replicate 32 (UInt8.ofNat password.length), List.length_replicate⟩
  keyedHash key message :=
    ⟨key.bytes.map (· + UInt8.ofNat message.length), by rw [List.length_map, key.length_eq]⟩

theorem injective_sampleAdminCrypto (key key' : Bytes32) (message : String)
    (h : sampleAdminCrypto.keyedHash key message = sampleAdminCrypto.keyedHash key' message) :
    key = key' := by
  have hadd : Function.Injective (· + UInt8.ofNat message.length) := fun b b' hb => by
    have hsub := congrArg (· - UInt8.ofNat message.length) hb
    simpa using hsub
  exact Bytes32.bytes_injective (List.map_injective_iff.2 hadd (congrArg Bytes32.bytes h))

def sampleAdmin : AdminState where
  signingKey := sampleAdminCrypto.deriveSigningKey "correct horse"
  opsSigningKey := some (sampleAdminCrypto.deriveSigningKey "battery")

def sampleForm : List (Event (Fin 2)) := [.login 0 .admin "correct horse" 0, .compare 0 1 5]

def sampleGuess : List (Event (Fin 2)) := [.login 1 .ops "staple" 0, .compare 1 1 5]

theorem allowed_sampleForm :
    Allowed (step sampleAdminCrypto sampleAdmin) Fair (start 0)
      sampleForm :=
  ⟨le_refl (0 : ℚ), ⟨zero_le_one, by decide, by decide⟩, trivial⟩

theorem allowed_sampleGuess :
    Allowed (step sampleAdminCrypto sampleAdmin) Fair (start 0)
      sampleGuess :=
  ⟨le_refl (0 : ℚ), ⟨zero_le_one, by decide, by decide⟩, trivial⟩

def sampleCookie : String := sampleAdminCrypto.makeSessionCookie sampleAdmin.signingKey 5

theorem log_sampleForm :
    (run (step sampleAdminCrypto sampleAdmin) (start 0) sampleForm).log
      = [.loggedIn .admin "correct horse" 5 sampleCookie] := rfl

/-! ## The throttle -/

theorem failureTimes_append (s : AdminServer ι) (r : AdminReply) (failures : List ℚ)
    (tasks : ι → Option (Surface × String)) (clock : ℚ) :
    failureTimes ⟨failures, tasks, clock, s.log ++ [r]⟩
      = s.failureTimes ++ (match r with
        | .loginFailed now => [now]
        | _ => []) := by
  unfold failureTimes
  rw [List.filterMap_append]
  cases r <;> rfl

section

variable [Fintype ι]

/-- The server as a throttle: who is between the two steps, and all failures. -/
def throttle (s : AdminServer ι) : Throttle.State ι where
  recent := s.failures
  inside := Finset.univ.filter fun i => (s.tasks i).isSome
  charged := s.failureTimes
  clock := s.clock

/-- A request leaves the throttle alone. -/
theorem throttle_request (s : AdminServer ι) (surface : Surface) (headers : List String) (now : ℤ) :
    (s.request crypto a surface headers now).throttle = s.throttle := by
  unfold request
  split
  · simp only [throttle, failureTimes_append, List.append_nil]
  · split
    · simp only [throttle, failureTimes_append, List.append_nil]
    · split <;> simp only [throttle, failureTimes_append, List.append_nil]

variable [DecidableEq ι]

theorem inside_update_some (tasks : ι → Option (Surface × String)) (i : ι)
    (task : Surface × String) :
    (Finset.univ.filter fun j => (Function.update tasks i (some task) j).isSome)
      = insert i (Finset.univ.filter fun j => (tasks j).isSome) := by
  ext j
  by_cases hj : j = i
  · subst hj
    simp
  · simp [hj]

theorem inside_update_none (tasks : ι → Option (Surface × String)) (i : ι) :
    (Finset.univ.filter fun j => (Function.update tasks i none j).isSome)
      = (Finset.univ.filter fun j => (tasks j).isSome).erase i := by
  ext j
  by_cases hj : j = i
  · subst hj
    simp
  · simp [hj]

theorem throttle_login {i : ι} {surface : Surface} {password : String} {now : ℚ}
    (hclock : s.clock ≤ now) :
    (s.login a i surface password now).throttle = s.throttle ∨
      ∃ ev, Throttle.Fair s.throttle ev ∧ (s.login a i surface password now).throttle
        = Throttle.step loginFailWindow loginFailMax s.throttle ev := by
  cases htask : s.tasks i with
  | some task =>
    simp only [login, htask]
    exact .inl trivial
  | none =>
    cases hkey : a.keyOf surface with
    | none =>
      simp only [login, htask, hkey]
      left
      simp only [throttle, failureTimes_append, List.append_nil]
    | some key =>
      simp only [login, htask, hkey]
      refine .inr ⟨.check i now, hclock, ?_⟩
      cases hlocked : (Throttle.locked loginFailWindow loginFailMax s.failures now).1 with
      | true =>
        simp only [if_true, throttle, Throttle.step, failureTimes_append, List.append_nil, hlocked]
      | false =>
        simp only [Bool.false_eq_true, if_false, throttle, Throttle.step, hlocked,
          inside_update_some]
        rfl

theorem throttle_comparePassword {i : ι} {now : ℚ} {ts : ℤ} (hclock : s.clock ≤ now) :
    (s.comparePassword crypto a i now ts).throttle = s.throttle ∨
      ∃ ev, Throttle.Fair s.throttle ev ∧ (s.comparePassword crypto a i now ts).throttle
        = Throttle.step loginFailWindow loginFailMax s.throttle ev := by
  cases htask : s.tasks i with
  | none =>
    simp only [comparePassword, htask]
    exact .inl trivial
  | some task =>
    obtain ⟨surface, password⟩ := task
    have hinside : i ∈ s.throttle.inside := by
      simp only [throttle, Finset.mem_filter, Finset.mem_univ, true_and, htask, Option.isSome_some]
    simp only [comparePassword, htask]
    right
    split
    · refine ⟨.pass i, trivial, ?_⟩
      simp only [throttle, Throttle.step, failureTimes_append, List.append_nil, inside_update_none]
    · refine ⟨.charge i now, ⟨hclock, hinside⟩, ?_⟩
      simp only [throttle, Throttle.step, failureTimes_append, inside_update_none]

/-- What one event is to the throttle. -/
theorem throttle_step {e : Event ι} (he : s.Fair e) :
    (s.step crypto a e).throttle = s.throttle ∨
      ∃ ev, Throttle.Fair s.throttle ev ∧ (s.step crypto a e).throttle
        = Throttle.step loginFailWindow loginFailMax s.throttle ev := by
  cases e with
  | login i surface password now => exact throttle_login he
  | compare i now ts => exact throttle_comparePassword he.1
  | request surface headers now => exact .inl (s.throttle_request surface headers now)

/-- **The server runs one throttle.** -/
theorem reachable_throttle {now : ℚ}
    (h : Reachable (step crypto a) Fair (start now) s) :
    Reachable (Throttle.step loginFailWindow loginFailMax) Throttle.Fair (Throttle.initial now)
      s.throttle := by
  induction h with
  | init =>
    have hstart : (start now : AdminServer ι).throttle = Throttle.initial now := by
      simp [throttle, start, failureTimes, Throttle.initial]
    rw [hstart]
    exact .init
  | step _ he ih =>
    obtain hsame | ⟨ev, hfair, heq⟩ := throttle_step he
    · rw [hsame]
      exact ih
    · rw [heq]
      exact .step ih hfair

/-- **Guesses are few**: in no 15 minutes are more than four wrong passwords compared, and one more
    for each thread. -/
theorem guesses_in_window {now : ℚ}
    (h : Reachable (step crypto a) Fair (start now) s) (t₀ : ℚ) :
    (s.failureTimes.countP fun t => decide (t₀ ≤ t ∧ t ≤ t₀ + 900)) ≤ 4 + Fintype.card ι :=
  Throttle.charged_in_window (reachable_throttle h) t₀

theorem sample_guesses :
    ((run (step sampleAdminCrypto sampleAdmin) (start 0) sampleGuess).failureTimes.countP
      fun t => decide (0 ≤ t ∧ t ≤ 0 + 900)) ≤ 4 + Fintype.card (Fin 2) :=
  guesses_in_window (allowed_sampleGuess.reachable .init) 0

/-- The check of a login form counts the failures of the last 15 minutes. -/
theorem locked_iff {start₀ : ℚ} (h : Reachable (step crypto a) Fair (start start₀) s)
    {now : ℚ} (hclock : s.clock ≤ now) :
    (Throttle.locked loginFailWindow loginFailMax s.failures now).1 = true ↔
      loginFailMax ≤ s.failureTimes.countP fun t => decide (now - t ≤ loginFailWindow) :=
  Throttle.locked_iff (Throttle.inv_reachable (reachable_throttle h)) hclock

end

/-! ## One form from the check to the answer -/

/-- The thread that an event belongs to. -/
def Event.thread : Event ι → Option ι
  | .login i _ _ _ => some i
  | .compare i _ _ => some i
  | .request _ _ _ => none

section

variable [DecidableEq ι]

/-- Nobody else touches a form that passed the check. -/
theorem tasks_step {i : ι} {e : Event ι} (he : e.thread ≠ some i) :
    (s.step crypto a e).tasks i = s.tasks i := by
  cases e with
  | login j surface password now =>
    have hij : i ≠ j := fun heq => he (by rw [heq]; rfl)
    simp only [step, login]
    split
    · rfl
    · rfl
    · split
      · rfl
      · exact Function.update_of_ne hij _ _
  | compare j now ts =>
    have hij : i ≠ j := fun heq => he (by rw [heq]; rfl)
    simp only [step, comparePassword]
    split
    · rfl
    · split <;> exact Function.update_of_ne hij _ _
  | request surface headers now =>
    simp only [step, request]
    split
    · rfl
    · split
      · rfl
      · split <;> rfl

theorem tasks_run {i : ι} {es : List (Event ι)} (hes : ∀ e ∈ es, e.thread ≠ some i) :
    (run (step crypto a) s es).tasks i = s.tasks i := by
  induction es generalizing s with
  | nil => rfl
  | cons e es ih =>
    rw [run_cons, ih fun e' he' => hes e' (List.mem_cons_of_mem _ he'),
      tasks_step (hes e List.mem_cons_self)]

/-- The answer to a form depends on its password only. -/
theorem log_comparePassword {i : ι} {surface : Surface} {password : String} {key : Bytes32}
    (htask : s.tasks i = some (surface, password)) (hkey : a.keyOf surface = some key) (now : ℚ)
    (ts : ℤ) : (s.comparePassword crypto a i now ts).log = s.log ++
      [if a.opens crypto surface password
        then .loggedIn surface password ts (crypto.makeSessionCookie key ts)
        else .loginFailed now] := by
  simp only [comparePassword, htask, hkey]
  cases a.opens crypto surface password <;> rfl

variable [Fintype ι]

/-- **The throttle is exact**: a form is turned away, the right password or not, exactly if five
    failures are at most 15 minutes old; otherwise its password decides, whatever the other threads
    do meanwhile. -/
theorem lockout_exact {start₀ : ℚ}
    (h : Reachable (step crypto a) Fair (start start₀) s) {i : ι} {surface : Surface}
    {key : Bytes32} {now : ℚ} (hidle : s.tasks i = none) (hkey : a.keyOf surface = some key)
    (hclock : s.clock ≤ now) (password : String) {es : List (Event ι)}
    (hes : ∀ e ∈ es, e.thread ≠ some i) (now' : ℚ) (ts : ℤ) :
    let failed := s.failureTimes.countP fun t => decide (now - t ≤ loginFailWindow)
    let s' := s.login a i surface password now
    let met := run (step crypto a) s' es
    (loginFailMax ≤ failed → s'.log = s.log ++ [.rateLimited now] ∧ s'.tasks = s.tasks) ∧
    (failed < loginFailMax → s'.log = s.log ∧ (met.comparePassword crypto a i now' ts).log = met.log ++
      [if a.opens crypto surface password
        then .loggedIn surface password ts (crypto.makeSessionCookie key ts)
        else .loginFailed now']) := by
  intro failed s' met
  have hlocked := locked_iff h hclock
  have hs' : s' = s.login a i surface password now := rfl
  simp only [login, hidle, hkey] at hs'
  constructor
  · intro hmany
    rw [if_pos (hlocked.2 hmany)] at hs'
    rw [hs']
    exact ⟨rfl, rfl⟩
  · intro hfew
    rw [if_neg fun hshut => absurd (hlocked.1 hshut) (not_le.2 hfew)] at hs'
    have htask : met.tasks i = some (surface, password) := by
      rw [tasks_run hes, hs']
      exact Function.update_self _ _ _
    refine ⟨by rw [hs'], log_comparePassword htask hkey now' ts⟩

theorem sample_lockout :
    let s := run (step sampleAdminCrypto sampleAdmin) (start 0) sampleGuess
    let s' := s.login sampleAdmin 0 .admin "correct horse" 2
    let met := run (step sampleAdminCrypto sampleAdmin) s' [.request .ops [] 0]
    s'.log = s.log ∧ (met.comparePassword sampleAdminCrypto sampleAdmin 0 3 5).log
      = met.log ++ [.loggedIn .admin "correct horse" 5 sampleCookie] :=
  (lockout_exact (allowed_sampleGuess.reachable .init) rfl rfl (by decide) "correct horse"
    (by simp [Event.thread]) 3 5).2 (List.countP_le_length.trans_lt (by decide))

end

/-! ## Sessions -/

theorem log_request {surface : Surface} {key : Bytes32} {ts : ℤ} (hkey : a.keyOf surface = some key)
    (h₀ : 0 ≤ ts) (hlt : ts < 2 ^ 63) {jar : List (String × String)} (hjar : ∀ p ∈ jar, PlainCookie p)
    (hfind : (jar.find? fun p => p.1 = surface.cookieName)
      = some (surface.cookieName, crypto.makeSessionCookie key ts)) (now : ℤ) :
    (s.request crypto a surface [cookieHeader jar] now).log = s.log ++
      [if now - ts < sessionMaxAgeSecs then .served surface (crypto.makeSessionCookie key ts) now
        else .turnedAway] := by
  have hname : '=' ∉ surface.cookieName.toList := fun hmem =>
    (surface.plain_cookieName _ hmem).2.1 rfl
  have hextract := extractCookie_cookieHeader hjar hname
  rw [hfind, Option.map_some] at hextract
  have hverify := crypto.verify_makeSessionCookie key h₀ hlt now
  simp only [request, hkey, hextract, hverify]
  by_cases hfresh : now - ts < sessionMaxAgeSecs
  · simp only [if_pos hfresh, decide_eq_true hfresh, if_true]
  · simp only [if_neg hfresh, decide_eq_false hfresh, Bool.false_eq_true, if_false]

variable (crypto a) in
/-- What an answer says about the form or the request. -/
def Sound : AdminReply → Prop
  | .loggedIn surface password ts cookie =>
    a.opens crypto surface password = true ∧ 0 ≤ ts ∧ ts < 2 ^ 63 ∧
      ∃ key, a.keyOf surface = some key ∧ cookie = crypto.makeSessionCookie key ts
  | .served surface cookie now =>
    ∃ key, a.keyOf surface = some key ∧ crypto.verifySessionCookie key cookie now = true
  | _ => True

variable (crypto a) in
/-- Whoever is served shows a cookie that was given out. -/
def Genuine (log : List AdminReply) : AdminReply → Prop
  | .served _ cookie _ => Unforged crypto a log cookie
  | _ => True

variable [DecidableEq ι]

/-- One event adds at most one answer, and a sound one; a genuine one, when nothing is forged. -/
theorem log_step {e : Event ι} (he : s.Fair e) :
    (s.step crypto a e).log = s.log ∨
      ∃ r, (s.step crypto a e).log = s.log ++ [r] ∧ Sound crypto a r ∧
        (s.NoForgery crypto a e → Genuine crypto a s.log r) := by
  cases e with
  | login i surface password now =>
    simp only [step, login]
    split
    · exact .inl rfl
    · exact .inr ⟨.notConfigured, rfl, trivial, fun _ => trivial⟩
    · split
      · exact .inr ⟨.rateLimited now, rfl, trivial, fun _ => trivial⟩
      · exact .inl rfl
  | compare i now ts =>
    simp only [step, comparePassword]
    split
    · exact .inl rfl
    · next surface password htask =>
      split
      · next key hopens hkey =>
        exact .inr ⟨_, rfl, ⟨hopens, he.2.1, he.2.2, key, hkey, rfl⟩, fun _ => trivial⟩
      · exact .inr ⟨.loginFailed now, rfl, trivial, fun _ => trivial⟩
  | request surface headers now =>
    simp only [step, request]
    split
    · exact .inr ⟨.notConfigured, rfl, trivial, fun _ => trivial⟩
    · next key hkey =>
      split
      · exact .inr ⟨.turnedAway, rfl, trivial, fun _ => trivial⟩
      · next cookie hcookie =>
        split
        · next hverify =>
          exact .inr ⟨_, rfl, ⟨key, hkey, hverify⟩, fun hgenuine => hgenuine cookie hcookie⟩
        · exact .inr ⟨.turnedAway, rfl, trivial, fun _ => trivial⟩

/-- What every new answer satisfies, every answer of the log does. -/
theorem log_reachable {ok : AdminServer ι → Event ι → Prop}
    {P : List AdminReply → AdminReply → Prop}
    (hstep : ∀ s e, ok s e → (step crypto a s e).log = s.log ∨
      ∃ r, (step crypto a s e).log = s.log ++ [r] ∧ P s.log r) {start₀ : ℚ}
    (h : Reachable (step crypto a) ok (start start₀) s) {before after : List AdminReply}
    {r : AdminReply} (hlog : s.log = before ++ r :: after) : P before r := by
  induction h generalizing before after r with
  | init => exact absurd hlog (by simp [start])
  | step _ he ih =>
    obtain hsame | ⟨r', happend, hnew⟩ := hstep _ _ he
    · exact ih (hsame.symm.trans hlog)
    · rw [hlog] at happend
      obtain rfl | ⟨after', last, rfl⟩ := List.eq_nil_or_concat after
      · obtain ⟨hbefore, hr⟩ := List.append_inj' happend rfl
        rw [hbefore, List.singleton_inj.1 hr]
        exact hnew
      · rw [List.concat_eq_append, ← List.cons_append, ← List.append_assoc] at happend
        exact ih (List.append_inj' happend rfl).1.symm

theorem reachable_log {start₀ : ℚ} (h : Reachable (step crypto a) Fair (start start₀) s)
    {before after : List AdminReply} {r : AdminReply} (hlog : s.log = before ++ r :: after) :
    Sound crypto a r := by
  refine log_reachable (P := fun _ r => Sound crypto a r) (fun s e he => ?_) h hlog
  refine (log_step he).imp_right ?_
  rintro ⟨r, happend, hsound, -⟩
  exact ⟨r, happend, hsound⟩

theorem reachable_genuine {start₀ : ℚ}
    (h : Reachable (step crypto a) (fun s e => s.Fair e ∧ s.NoForgery crypto a e) (start start₀) s)
    {before after : List AdminReply} {r : AdminReply} (hlog : s.log = before ++ r :: after) :
    Genuine crypto a before r := by
  refine log_reachable (fun s e he => ?_) h hlog
  refine (log_step he.1).imp_right ?_
  rintro ⟨r, happend, -, hgenuine⟩
  exact ⟨r, happend, hgenuine he.2⟩

theorem reachable_loggedIn {start₀ : ℚ} (h : Reachable (step crypto a) Fair (start start₀) s)
    {surface : Surface} {password cookie : String} {ts : ℤ}
    (hmem : .loggedIn surface password ts cookie ∈ s.log) :
    a.opens crypto surface password = true ∧ 0 ≤ ts ∧ ts < 2 ^ 63 ∧
      ∃ key, a.keyOf surface = some key ∧ cookie = crypto.makeSessionCookie key ts := by
  obtain ⟨before, after, hlog⟩ := List.append_of_mem hmem
  exact reachable_log h hlog

/-- With a MAC that tells keys apart, a cookie that was given out is not forged. -/
theorem unforged_makeSessionCookie {log : List AdminReply} {surface : Surface} {password : String}
    {key : Bytes32} {ts : ℤ}
    (hinj : ∀ key key' message, crypto.keyedHash key message = crypto.keyedHash key' message →
      key = key') (hkey : a.keyOf surface = some key)
    (hmem : .loggedIn surface password ts (crypto.makeSessionCookie key ts) ∈ log) :
    Unforged crypto a log (crypto.makeSessionCookie key ts) := by
  intro surface' key' tsHex hkey' hcookie
  have hlist := congrArg String.toList hcookie
  rw [crypto.toList_makeSessionCookie, String.toList_append, String.toList_append,
    List.append_assoc] at hlist
  have hlength : (':' :: (crypto.computeMac key (formatHexI64 ts)).toList).length
      = (":".toList ++ (crypto.computeMac key' tsHex).toList).length := by
    rw [List.length_cons, List.length_append, crypto.length_computeMac, crypto.length_computeMac]
    rfl
  obtain ⟨htime, hmac⟩ := List.append_inj' hlist hlength
  have hmac' := String.toList_inj.1 (List.cons.inj hmac).2
  rw [← String.toList_inj.1 htime] at hmac'
  have hkeys : key = key' :=
    hinj key key' _ (Bytes32.bytes_injective (Text.hexEncode_inj.1 hmac'))
  exact ⟨surface, password, ts, hmem, hkeys ▸ hkey, String.toList_inj.1 htime⟩

/-- **Sessions are authentic**: whoever is served showed a cookie that the server gave out less than
    a day ago, for a password that opens a surface with the key of this one. -/
theorem session_authentic {start₀ : ℚ}
    (h : Reachable (step crypto a) (fun s e => s.Fair e ∧ s.NoForgery crypto a e) (start start₀) s)
    {before after : List AdminReply} {surface : Surface} {cookie : String} {now : ℤ}
    (hlog : s.log = before ++ .served surface cookie now :: after) :
    ∃ surface' password ts, .loggedIn surface' password ts cookie ∈ before ∧
      a.keyOf surface' = a.keyOf surface ∧ a.opens crypto surface' password = true ∧
      now - ts < sessionMaxAgeSecs := by
  have hfair : Reachable (step crypto a) Fair (start start₀) s := h.imp fun _ _ he => he.1
  have hunforged : Unforged crypto a before cookie := reachable_genuine h hlog
  obtain ⟨key, hkey, hverify⟩ := reachable_log hfair hlog
  obtain ⟨tsHex, ts, hcookie, hparse, hfresh⟩ := crypto.verifySessionCookie_eq_true hverify
  obtain ⟨surface', password, ts', hmem, hkey', hts'⟩ := hunforged surface key tsHex hkey hcookie
  have hmemlog : .loggedIn surface' password ts' cookie ∈ s.log := by
    rw [hlog]
    exact List.mem_append_left _ hmem
  obtain ⟨hopens, h₀, hlt, -⟩ := reachable_loggedIn hfair hmemlog
  have hsame : ts' = ts := by
    rw [← hts', parseHexI64_formatHexI64 h₀ hlt] at hparse
    exact Option.some.inj hparse
  rw [hkey]
  exact ⟨surface', password, ts', hmem, hkey', hopens, by rwa [hsame]⟩

/-- The sample login, and a request with its cookie. -/
def sampleVisit : List (Event (Fin 2)) :=
  sampleForm ++ [.request .admin [cookieHeader [("admin_session", sampleCookie)]] 100]

theorem sample_plain : ∀ p ∈ [("admin_session", sampleCookie)], PlainCookie p := by
  intro p hp
  rw [List.mem_singleton.1 hp]
  exact sampleAdminCrypto.plain_makeSessionCookie .admin _ _

theorem log_sampleVisit :
    (run (step sampleAdminCrypto sampleAdmin) (start 0) sampleVisit).log
      = [.loggedIn .admin "correct horse" 5 sampleCookie, .served .admin sampleCookie 100] := by
  have hkey : sampleAdmin.keyOf .admin = some sampleAdmin.signingKey := rfl
  rw [sampleVisit, run_append, run_cons, run_nil]
  refine (log_request hkey (by decide) (by decide) sample_plain rfl 100).trans ?_
  rw [log_sampleForm]
  rfl

theorem reachable_sampleVisit :
    Reachable (step sampleAdminCrypto sampleAdmin)
      (fun s e => s.Fair e ∧ s.NoForgery sampleAdminCrypto sampleAdmin e) (start 0)
      (run (step sampleAdminCrypto sampleAdmin) (start 0) sampleVisit) := by
  have hform : Allowed (step sampleAdminCrypto sampleAdmin)
      (fun s e => s.NoForgery sampleAdminCrypto sampleAdmin e) (start 0) sampleForm :=
    ⟨trivial, trivial, trivial⟩
  rw [sampleVisit, run_append, run_cons, run_nil]
  refine .step ((allowed_sampleForm.and hform).reachable .init) ⟨trivial, ?_⟩
  intro cookie hcookie
  rw [extractCookie_cookieHeader sample_plain
    fun hmem => (Surface.admin.plain_cookieName _ hmem).2.1 rfl] at hcookie
  obtain rfl : sampleCookie = cookie := Option.some.inj hcookie
  have hkey : sampleAdmin.keyOf .admin = some sampleAdmin.signingKey := rfl
  have hmem : AdminReply.loggedIn .admin "correct horse" 5 sampleCookie
      ∈ (run (step sampleAdminCrypto sampleAdmin) (start 0) sampleForm).log := by
    rw [log_sampleForm]
    exact List.mem_singleton.2 rfl
  exact unforged_makeSessionCookie injective_sampleAdminCrypto hkey hmem

theorem sample_authentic :
    ∃ surface' password ts, AdminReply.loggedIn surface' password ts sampleCookie
        ∈ [AdminReply.loggedIn .admin "correct horse" 5 sampleCookie] ∧
      sampleAdmin.keyOf surface' = sampleAdmin.keyOf .admin ∧
      sampleAdmin.opens sampleAdminCrypto surface' password = true ∧ 100 - ts < sessionMaxAgeSecs :=
  session_authentic reachable_sampleVisit log_sampleVisit

theorem plain_theme : PlainCookie ("theme", "dark") := by
  have hname : "theme".toList = ['t', 'h', 'e', 'm', 'e'] := rfl
  have hvalue : "dark".toList = ['d', 'a', 'r', 'k'] := rfl
  constructor
  · rw [hname]
    simp [Text.isSpace]
  · rw [hvalue]
    simp [Text.isSpace]

end AdminServer

end ZcashMiningPool
