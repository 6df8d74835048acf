import ZcashMiningPool.Stratum.Messages

/-!
# Messages on the wire

`RawMessage`, `ClientRequest::parse` and `ServerMessage::to_json` of `stratum/src/messages.rs`, on
JSON values; the text of a value is the business of `serde_json`.

* `Json` — a value; a number is its literal.
* `RawMessage.ofJson` — the derived `Deserialize`: absent and `null` are the same, a field given
  twice is an error, five values in a row are accepted for the five fields.
* `JsonText` — how an id, which the session keeps as its text, is written and read back.

The optional parameters of `mining.subscribe` and `client.reconnect`, which the pool never sends,
are left out.
-/

set_option autoImplicit false

namespace ZcashMiningPool

inductive Json where
  | null
  | bool (b : Bool)
  | number (literal : String)
  | str (s : String)
  | arr (items : List Json)
  | obj (fields : List (String × Json))
  deriving Repr

namespace Json

def asStr : Json → Option String
  | .str s => some s
  | _ => none

def asBool : Json → Option Bool
  | .bool b => some b
  | _ => none

def asArray : Json → Option (List Json)
  | .arr items => some items
  | _ => none

/-- `Value::get`: of an object, where a key given twice has its last value. -/
def get (j : Json) (key : String) : Option Json :=
  match j with
  | .obj fields => fields.reverse.lookup key
  | _ => none

/-- `as_str().unwrap_or("")`, of an item that may be missing. -/
def textAt (items : List Json) (i : ℕ) : String := ((items[i]?).bind asStr).getD ""

def isNull : Json → Bool
  | .null => true
  | _ => false

end Json

/-- How `serde_json` writes an id and reads it back, and how it writes a floating-point number. -/
structure JsonText where
  idText : Json → RequestId
  idOf : RequestId → Json
  floatText : ℚ → String

/-! ## Requests -/

structure RawMessage where
  id : Option Json
  method : Option String
  params : Option Json
  result : Option Json
  error : Option Json

namespace RawMessage

/-- A field of type `Option<Value>`: `none` for an error. -/
def field (fields : List (String × Json)) (key : String) : Option (Option Json) :=
  match fields.filter (·.1 == key) with
  | [] => some none
  | [(_, v)] => some (if v.isNull then none else some v)
  | _ => none

/-- A field of type `Option<String>`. -/
def textField : Option Json → Option (Option String)
  | none => some none
  | some (.str s) => some (some s)
  | some _ => none

def ofJson : Json → Option RawMessage
  | .obj fields => do
    let id ← field fields "id"
    let method ← (field fields "method").bind textField
    let params ← field fields "params"
    let result ← field fields "result"
    let error ← field fields "error"
    pure ⟨id, method, params, result, error⟩
  | .arr [id, method, params, result, error] => do
    let some? (j : Json) : Option Json := if j.isNull then none else some j
    let method ← textField (some? method)
    pure ⟨some? id, method, some? params, some? result, some? error⟩
  | _ => none

end RawMessage

/-- `ClientRequest::parse` -/
def ClientRequest.parse (text : JsonText) (raw : RawMessage) : Option ClientRequest := do
  let method ← raw.method
  let id := text.idText (raw.id.getD .null)
  let items := (raw.params.getD (.arr [])).asArray
  if method = "mining.subscribe" then pure (.subscribe id)
  else if method = "mining.authorize" then do
    let items ← items
    pure (.authorize id (Json.textAt items 0) (Json.textAt items 1))
  else if method = "mining.submit" then do
    let items ← items
    pure (.submit id (Json.textAt items 0) (Json.textAt items 1) (Json.textAt items 2)
      (Json.textAt items 3) (Json.textAt items 4))
  else if method = "mining.suggest_target" then do
    let items ← items
    pure (.suggestTarget id (Json.textAt items 0))
  else if method = "mining.extranonce.subscribe" then pure (.extranonceSubscribe id)
  else pure (.unknown id method)

/-- A request as the connection reads it. -/
def ClientRequest.ofJson (text : JsonText) (j : Json) : Option ClientRequest :=
  (RawMessage.ofJson j).bind (ClientRequest.parse text)

/-! ## Responses and notifications -/

namespace ServerMessage

def errorJson (e : StratumError) : Json := .arr [.number (toString e.code), .str e.message, .null]

def responseJson (id result error : Json) : Json :=
  .obj [("id", id), ("result", result), ("error", error)]

def notificationJson (method : String) (params : List Json) : Json :=
  .obj [("id", .null), ("method", .str method), ("params", .arr params)]

/-- The answer to `authorize` and to `submit`: `true`, or `null` with the error. -/
def verdictJson (id : Json) (ok : Bool) (error : Option StratumError) : Json :=
  if ok then responseJson id (.bool true) .null
  else responseJson id .null ((error.map errorJson).getD .null)

/-- `to_json` -/
def toJson (text : JsonText) : ServerMessage → Json
  | .subscribeResult id sessionId nonce1 nonce2Size =>
    responseJson (text.idOf id) (.arr [.arr [.str "mining.notify", .str sessionId], .str nonce1,
      .number (toString nonce2Size)]) .null
  | .authorizeResult id authorized error => verdictJson (text.idOf id) authorized error
  | .setTarget target => notificationJson "mining.set_target" [.str target]
  | .setDifficulty difficulty =>
    notificationJson "mining.set_difficulty" [.number (text.floatText difficulty)]
  | .notify job => notificationJson "mining.notify" [.str job.jobId, .str job.version,
      .str job.prevHash, .str job.merkleRoot, .str job.reserved, .str job.time, .str job.bits,
      .bool job.cleanJobs]
  | .submitResult id accepted error => verdictJson (text.idOf id) accepted error

end ServerMessage

/-- What a connection sends every 30 seconds. -/
def pingJson : Json := ServerMessage.notificationJson "mining.ping" []

end ZcashMiningPool
