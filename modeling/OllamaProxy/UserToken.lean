/-
# User tokens

`UserToken` is a row of `user_tokens`. A token is created, changed, revoked and
deleted through the admin API and through the dashboard; the dashboard's
handlers parse a form, then call the same service functions. `TokenOp` is one
such request, or one to the proxy itself, which counts the token's use;
`TokenOp.perform` is what it makes of the table. A request that is refused
leaves the table as it was.

SQLite stores what a datetime's clock shows and drops the offset. Every path
that writes an expiry converts it to UTC first, and `authenticate` reads it
back as UTC.

Key definitions: `TokenOp.perform`, `authenticate`, `requireUserToken`.
-/
import OllamaProxy.Lib.Table
import OllamaProxy.Python

namespace OllamaProxy

open Kit

inductive UserTokenStatus
  | active
  | revoked
deriving DecidableEq, Repr

structure UserToken where
  keyHash : String
  keyPrefix : String
  label : String
  status : UserTokenStatus
  expiresAt : Option DateTime
  lastUsedAt : Option ℤ
  totalRequests : ℕ
  createdAt : ℤ
  updatedAt : ℤ
deriving DecidableEq

abbrev TokenTable := Table UserToken

/-- The functions of Python's library and of fastapi that the handlers call:
`hash_key` (the SHA-256 of the token), `str.lower`, `repr`,
`datetime.fromisoformat` with the message of its `ValueError`, and
`get_authorization_scheme_param`. -/
structure Library where
  hashKey : String → String
  lower : String → String
  repr : String → String
  fromisoformat : String → Except String DateTime
  schemeParam : String → String × String

/-- How a handler or a service function fails: an exception that the handlers
catch, a request that a pydantic model rejects, an error answer, a redirect
with a flash message, or an exception that becomes a 500. -/
inductive TokenError
  | valueError (message : String)
  | lookupError (message : String)
  | invalid (field message : String)
  | http (statusCode : ℕ) (detail : String)
  | flash (message : String)
  | multipleResultsFound
  | raised (e : PyError)
deriving DecidableEq

/-! ### The service -/

/-- The column defaults of a new row. -/
def UserToken.new (keyHash keyPrefix label : String) (expiresAt : Option DateTime) (now : ℤ) :
    UserToken where
  keyHash := keyHash
  keyPrefix := keyPrefix
  label := label
  status := .active
  expiresAt := expiresAt.map (·.stored)
  lastUsedAt := none
  totalRequests := 0
  createdAt := now
  updatedAt := now

def prefixOf (rawKey : String) : String := (rawKey.take 12).toString

/-- `rawKey` is what `generate_raw_key` returns. -/
def createToken (lib : Library) (t : TokenTable) (label : String) (expiresAt : Option DateTime)
    (rawKey : String) (now : ℤ) : Except TokenError TokenTable :=
  let past : Except PyError Bool := expiresAt.elim (.ok false) fun e => e.leNow now
  match past with
  | .error e => .error (.raised e)
  | .ok true => .error (.valueError "expires_at must be in the future")
  | .ok false =>
    if t.rows.any fun r => r.2.keyHash = lib.hashKey rawKey then
      .error (.valueError "could not create user token (duplicate hash)")
    else .ok (t.insert (.new (lib.hashKey rawKey) (prefixOf rawKey) label expiresAt now))

/-- What the flush of `update_token` writes; `updated_at` moves with any column. -/
def UserToken.update (label : Option String) (expiresAt : Option DateTime) (clearExpiresAt : Bool)
    (status : Option UserTokenStatus) (now : ℤ) (token : UserToken) : UserToken :=
  let new := { token with
    label := label.getD token.label
    expiresAt :=
      if clearExpiresAt then none else expiresAt.elim token.expiresAt fun e => some e.stored
    status := status.getD token.status }
  -- a naive value that was loaded never equals the aware one that replaces it
  let expiryChanges := if clearExpiresAt then token.expiresAt.isSome else expiresAt.isSome
  if new.label ≠ token.label ∨ new.status ≠ token.status ∨ expiryChanges then
    { new with updatedAt := now }
  else new

def updateToken (t : TokenTable) (id : ℕ) (label : Option String) (expiresAt : Option DateTime)
    (clearExpiresAt : Bool) (status : Option UserTokenStatus) (now : ℤ) : TokenTable :=
  t.modify id (.update label expiresAt clearExpiresAt status now)

def revokeToken (t : TokenTable) (id : ℕ) (now : ℤ) : TokenTable :=
  t.modify id (.update none none false (some .revoked) now)

def hardDeleteUserToken (t : TokenTable) (id : ℕ) : Except TokenError TokenTable :=
  match t.get? id with
  | none => .error (.lookupError ("user token " ++ toString id ++ " not found"))
  | some _ => .ok (t.erase id)

/-! ### Authentication -/

/-- `_as_utc`. -/
def asUtc (dt : DateTime) : Except PyError DateTime := dt.toUtc

def hasAnyActiveToken (t : TokenTable) : Bool := t.rows.any fun r => r.2.status = .active

/-- `token.expires_at is not None and _as_utc(token.expires_at) <= datetime.now(UTC)`. -/
def UserToken.expired (token : UserToken) (now : ℤ) : Except PyError Bool :=
  token.expiresAt.elim (.ok false) fun e => (asUtc e).bind fun e => e.leNow now

def UserToken.bump (now : ℤ) (token : UserToken) : UserToken :=
  { token with
    totalRequests := token.totalRequests + 1
    lastUsedAt := some now
    updatedAt := now }

/-- The token that `raw_key` is, with its use counted. -/
def authenticate (lib : Library) (t : TokenTable) (rawKey : String) (now : ℤ) :
    Except TokenError (Option (TokenTable × ℕ × UserToken)) :=
  if rawKey = "" then .error (.valueError "raw_key must be a non-empty string")
  else
    match t.select (·.keyHash = lib.hashKey rawKey) with
    | [] => .ok none
    | [(id, token)] =>
      if token.status ≠ .active then .ok none
      else
        match token.expired now with
        | .error e => .error (.raised e)
        | .ok true => .ok none
        | .ok false =>
          .ok (some (t.modify id fun _ => token.bump now, id, token.bump now))
    | _ => .error .multipleResultsFound

/-- The bearer token of an `Authorization` header. -/
def extractBearer (lib : Library) (auth : Option String) : Option String :=
  match auth with
  | none => none
  | some auth =>
    if auth = "" then none
    else
      let (scheme, param) := lib.schemeParam auth
      if lib.lower scheme ≠ "bearer" ∨ param = "" then none else some param

/-- The token that the request is admitted with; `none` where the proxy is open. -/
def requireUserToken (lib : Library) (t : TokenTable) (auth : Option String) (now : ℤ) :
    Except TokenError (TokenTable × Option (ℕ × UserToken)) :=
  match extractBearer lib auth with
  | none =>
    if hasAnyActiveToken t then .error (.http 401 "missing Authorization: Bearer <opk_…>")
    else .ok (t, none)
  | some presented =>
    match authenticate lib t presented now with
    | .error (.valueError _) => .error (.http 401 "invalid bearer token")
    | .error e => .error e
    | .ok none => .error (.http 401 "invalid or expired bearer token")
    | .ok (some (t', token)) => .ok (t', some token)

/-! ### Requests that change tokens -/

/-- The body of a `POST`; pydantic has parsed the datetime. -/
structure UserTokenCreate where
  label : String
  expiresAt : Option DateTime := none

/-- The body of a `PATCH`. The outer `none` is a field that the body leaves out
(it is not in `model_fields_set`), the inner one an explicit `null`. -/
structure UserTokenUpdate where
  label : Option (Option String) := none
  expiresAt : Option (Option DateTime) := none
  status : Option (Option UserTokenStatus) := none

def UserTokenUpdate.fieldsSet (payload : UserTokenUpdate) : Bool :=
  payload.label.isSome || payload.expiresAt.isSome || payload.status.isSome

/-- A request to the admin API or the dashboard, the service function
`revoke_token`, which no route calls, or a request to the proxy with an
`Authorization` header. -/
inductive TokenOp
  | createUserToken (payload : UserTokenCreate) (rawKey : String)
  | patchUserToken (id : ℕ) (payload : UserTokenUpdate)
  | revokeUserToken (id : ℕ)
  | createUserTokenSubmit (label expiresAt : String) (rawKey : String)
  | updateUserTokenSubmit (id : ℕ) (method : Option String) (label expiresAt clearExpiresAt : String)
    (status : String)
  | deleteUserTokenSubmit (id : ℕ)
  | revokeToken (id : ℕ)
  | request (auth : Option String)

/-- `_normalise_expires_at`, of both models. -/
def normaliseExpiresAt (v : Option DateTime) : Except TokenError (Option DateTime) :=
  match v with
  | none => .ok none
  | some dt => (dt.toUtc.map some).mapError .raised

/-- `_strip_label`, with the length check of the field before it. -/
def stripLabel (minLength : ℕ) (message v : String) : Except TokenError String :=
  if v.length < minLength then
    .error (.invalid "label" "String should have at least 1 character")
  else if 255 < v.length then
    .error (.invalid "label" "String should have at most 255 characters")
  else if strip v = "" then .error (.invalid "label" message)
  else .ok (strip v)

/-- The fields are checked in their order and all errors are reported, but an
`OverflowError` of the second leaves at once. -/
def UserTokenCreate.validate (payload : UserTokenCreate) :
    Except TokenError UserTokenCreate := do
  let expiresAt ← normaliseExpiresAt payload.expiresAt
  let label ← stripLabel 1 "label must not be blank" payload.label
  return { label, expiresAt }

def UserTokenUpdate.validate (payload : UserTokenUpdate) :
    Except TokenError UserTokenUpdate := do
  let expiresAt ← payload.expiresAt.elim (.ok none) fun v => (normaliseExpiresAt v).map some
  let label ← payload.label.elim (.ok none) fun v =>
    (v.elim (.ok none) fun v =>
      (stripLabel 0 "label must not be blank when provided" v).map some).map some
  return { payload with label, expiresAt }

/-- `Path(..., ge=1)`. -/
def pathId (id : ℕ) : Except TokenError Unit :=
  if id = 0 then .error (.invalid "token_id" "Input should be greater than or equal to 1") else .ok ()

/-- The admin API answers 422 to a `ValueError` of the service. -/
def TokenError.toHttp : TokenError → TokenError
  | .valueError message => .http 422 message
  | e => e

/-- The dashboard shows `DashboardClientError.short`. -/
def TokenError.toFlash : TokenError → TokenError
  | .valueError message => .flash ("in-process error 422: " ++ message)
  | .lookupError _ => .flash "in-process error 404: user token not found"
  | e => e

/-- `_parse_user_token_expiry`. -/
def parseUserTokenExpiry (lib : Library) (raw : String) : Except TokenError (Option DateTime) :=
  let s := strip raw
  if s = "" then .ok none
  else
    match lib.fromisoformat s with
    | .error message => .error (.valueError message)
    | .ok dt => (dt.toUtc.map some).mapError .raised

/-- The form's `expires_at`; a `ValueError` becomes a flash message. -/
def formExpiry (lib : Library) (raw : String) : Except TokenError (Option DateTime) :=
  (parseUserTokenExpiry lib raw).mapError fun
    | .valueError message =>
      .flash ("invalid expires_at (" ++ message ++ "); expected YYYY-MM-DDTHH:MM[:SS]")
    | e => e

/-- The form's `status`: blank is none. -/
def formStatus (lib : Library) (raw : String) : Except TokenError (Option UserTokenStatus) :=
  let status := lib.lower (strip raw)
  if status = "" then .ok none
  else if status = "active" then .ok (some .active)
  else if status = "revoked" then .ok (some .revoked)
  else .error (.flash ("invalid status " ++ lib.repr status ++ "; expected one of ['active', 'revoked']"))

def clearFlag (lib : Library) (raw : String) : Bool :=
  lib.lower (strip raw) ∈ ["1", "true", "on", "yes"]

namespace TokenOp

/-- What the request makes of the table, or how it is refused. -/
def perform (lib : Library) (now : ℤ) (t : TokenTable) : TokenOp → Except TokenError TokenTable
  | createUserToken payload rawKey => do
    let payload ← payload.validate
    (createToken lib t payload.label payload.expiresAt rawKey now).mapError .toHttp
  | patchUserToken id payload => do
    let payload ← payload.validate
    pathId id
    match t.get? id with
    | none => .error (.http 404 "user token not found")
    | some _ =>
      if !payload.fieldsSet then .ok t
      else
        let clearExpiry := payload.expiresAt = some none
        .ok (updateToken t id payload.label.join payload.expiresAt.join clearExpiry payload.status.join now)
  | revokeUserToken id => do
    pathId id
    match t.get? id with
    | none => .error (.http 404 "user token not found")
    | some _ => hardDeleteUserToken t id
  | createUserTokenSubmit label expiresAt rawKey => do
    if strip label = "" then .error (.flash "label is required")
    else
      let expiresAt ← formExpiry lib expiresAt
      (createToken lib t (strip label) expiresAt rawKey now).mapError .toFlash
  | updateUserTokenSubmit id method label expiresAt clearExpiresAt status => do
    if method.getD "patch" ≠ "patch" then
      .error (.flash ("unsupported method: " ++ method.getD "patch"))
    else
      let label := if strip label = "" then none else some (strip label)
      let status ← formStatus lib status
      let expiresAt ← formExpiry lib expiresAt
      let clear := clearFlag lib clearExpiresAt
      match t.get? id with
      | none => .error (.flash "in-process error 404: user token not found")
      | some _ => .ok (updateToken t id label (if clear then none else expiresAt) clear status now)
  | deleteUserTokenSubmit id => (hardDeleteUserToken t id).mapError .toFlash
  | revokeToken id =>
    match t.get? id with
    | none => .error (.lookupError ("user token " ++ toString id ++ " not found"))
    | some _ => .ok (OllamaProxy.revokeToken t id now)
  | request auth => (requireUserToken lib t auth now).map (·.1)

end TokenOp

end OllamaProxy
