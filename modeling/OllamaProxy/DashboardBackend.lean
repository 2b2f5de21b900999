/-
# The dashboard's operations on keys, and the admin API's

`InProcessDashboardBackend` does what the routes under `/admin/keys` do, in code
of its own. This module has both: `KeyOp.backend` and `KeyOp.admin`, for an
operation that a form of the dashboard lets through (`KeyForm.submit`).

They have the same outcome if they finish with the same status code, or both
without an error, and leave the same rows up to the ciphertexts and timestamps.
The routes check that a label has at most 255 characters, the dashboard checks it
nowhere; and a probe looks for its model first in the dashboard, last in the route.

The two calls have their own clocks. A cooldown that ends after the year 9999 is
an error, so it has to end before by both clocks or by neither.

Key definitions: `KeyOp.backend`, `KeyOp.admin`, `SameOutcome`, `KeyOp.SameService`.
Key theorems: `backend_isAdminOp`, `same_service_iff`.
-/
import OllamaProxy.Probe
import OllamaProxy.UserToken

namespace OllamaProxy

open Kit

/-- How an operation fails: a form or a body that is rejected, a redirect with a
flash message, an `HTTPException`, a `DashboardClientError`, or an exception that
becomes a 500. -/
inductive KeyOpError
  | invalid (field message : String)
  | flash (message : String)
  | http (statusCode : ℕ) (detail : String)
  | client (statusCode : ℕ) (detail endpoint : String)
  | raised
deriving DecidableEq

def KeyOpError.statusCode : KeyOpError → ℕ
  | .invalid _ _ => 422
  | .flash _ => 303
  | .http statusCode _ => statusCode
  | .client statusCode _ _ => statusCode
  | .raised => 500

def ApiKeyStatus.value : ApiKeyStatus → String
  | .active => "active"
  | .depleted => "depleted"
  | .disabled => "disabled"

def ApiKeyStatus.ofValue (s : String) : Option ApiKeyStatus :=
  [ApiKeyStatus.active, .depleted, .disabled].find? (·.value = s)

theorem ApiKeyStatus.ofValue_value (s : ApiKeyStatus) : ofValue s.value = some s := by
  cases s <;> rfl

/-- A call of the backend. -/
inductive KeyOp
  | createKey (label : Option String) (key : String)
  | updateKey (keyId : ℤ) (label : Option String) (status : Option ApiKeyStatus)
  | deleteKey (keyId : ℤ)
  | testKey (keyId : ℤ)
  | resetStates
deriving DecidableEq

/-! ### Forms -/

/-- A post of the dashboard; `method` is the field `_method`, if it is there. -/
inductive KeyForm
  | createKeySubmit (label key : String)
  | updateKeySubmit (keyId : ℤ) (method : Option String) (label status : String)
  | deleteKeySubmit (keyId : ℤ)
  | testKeySubmit (keyId : ℤ)
  | resetStatesSubmit

/-- `label.strip() or None`. -/
def formLabel (raw : String) : Option String :=
  if strip raw = "" then none else some (strip raw)

def formKeyStatus (lib : Library) (raw : String) : Except KeyOpError (Option ApiKeyStatus) :=
  let status := lib.lower (strip raw)
  if status = "" then .ok none
  else
    match ApiKeyStatus.ofValue status with
    | some s => .ok (some s)
    | none =>
      .error (.flash ("invalid status " ++ lib.repr status ++
        "; expected one of ['active', 'depleted', 'disabled']"))

/-- The length check of a field. -/
def checkLength (field : String) (minLength maxLength : ℕ) (v : String) : Except KeyOpError Unit :=
  if v.length < minLength then .error (.invalid field "String should have at least 1 character")
  else if maxLength < v.length then
    .error (.invalid field ("String should have at most " ++ toString maxLength ++ " characters"))
  else .ok ()

/-- What the handler calls the backend with. An empty field that is required is
a missing one. -/
def KeyForm.submit (lib : Library) : KeyForm → Except KeyOpError KeyOp
  | createKeySubmit label key => do
    if key = "" then .error (.invalid "key" "Field required")
    else
      checkLength "key" 1 512 key
      return .createKey (formLabel label) key
  | updateKeySubmit keyId method label status => do
    if method.getD "patch" ≠ "patch" then
      .error (.flash ("unsupported method: " ++ method.getD "patch"))
    else
      let status ← formKeyStatus lib status
      return .updateKey keyId (formLabel label) status
  | deleteKeySubmit keyId => .ok (.deleteKey keyId)
  | testKeySubmit keyId => .ok (.testKey keyId)
  | resetStatesSubmit => .ok .resetStates

/-! ### Both services -/

/-- What both services share: the library, the vault (`decrypt` fails with the
text of its exception), `float`, the setting `probe_model`, and upstream's answer
to a probe of a secret with a model. -/
structure KeyService where
  lib : Library
  decrypt : String → Except String String
  pyFloat : String → Option PyFloat
  probeModel : Option String
  upstream : String → String → Upstream

/-- What one call has of its own: the time, and the ciphertexts of `encrypt`. -/
structure KeyCall where
  now : ℤ
  encrypt : String → String

def keyPrefixOf (rawKey : String) : String := (rawKey.take 8).toString

/-- `require_probe_model`. -/
def KeyService.requireProbeModel (s : KeyService) : Option String :=
  let model := strip (s.probeModel.getD "")
  if model = "" then none else some model

/-- `session.get`: SQLite's integers have 64 bits. -/
def getKey (t : KeyTable) (keyId : ℤ) : Except KeyOpError (Option (ℕ × ApiKey)) :=
  if keyId < -2 ^ 63 ∨ 2 ^ 63 ≤ keyId then .error .raised
  else if keyId < 0 then .ok none
  else .ok ((t.get? keyId.toNat).map fun key => (keyId.toNat, key))

/-- `ProbeClassifier.classify`, with its commit. -/
def classifyKey (s : KeyService) (now : ℤ) (t : KeyTable) (id : ℕ) (key : ApiKey) (probe : ApiKeyTestResult) :
    Except KeyOpError KeyTable :=
  match probe.classify s.pyFloat now with
  | .error _ => .error .raised
  | .ok none => .ok t
  | .ok (some v) => ((Recorder.update v).commit id key t).elim (.error .raised) .ok

def probeModelDetail : String :=
  "probe_model is not configured; set PROBE_MODEL env var to a model that the upstream accounts have access to"

def duplicateDetail : String := "API key with the same value already exists"

def notFoundDetail : String := "API key not found"

def decryptDetail (inner : String) : String := "cannot decrypt stored key: " ++ inner

/-! ### The dashboard -/

namespace InProcessDashboardBackend

variable (s : KeyService) (c : KeyCall) (t : KeyTable)

def createKey (label : Option String) (key : String) : Except KeyOpError KeyTable :=
  (OllamaProxy.createKey t (s.lib.hashKey key) (keyPrefixOf key) (c.encrypt key) label c.now).elim
    (.error (.client 409 duplicateDetail "POST /admin/keys")) .ok

def updateKey (keyId : ℤ) (label : Option String) (status : Option ApiKeyStatus) : Except KeyOpError KeyTable := do
  match ← getKey t keyId with
  | none => .error (.client 404 notFoundDetail ("PATCH /admin/keys/" ++ toString keyId))
  | some (id, key) => (OllamaProxy.updateKey t id key label status c.now).elim (.error .raised) .ok

def deleteKey (keyId : ℤ) : Except KeyOpError KeyTable := do
  match ← getKey t keyId with
  | none => .error (.client 404 notFoundDetail ("DELETE /admin/keys/" ++ toString keyId))
  | some (id, _) => (OllamaProxy.deleteKey t id).elim (.error .raised) .ok

def testKey (keyId : ℤ) : Except KeyOpError KeyTable := do
  match s.requireProbeModel with
  | none => .error (.client 503 probeModelDetail "probe")
  | some probeModel =>
    match ← getKey t keyId with
    | none => .error (.client 404 notFoundDetail ("POST /admin/keys/" ++ toString keyId ++ "/test"))
    | some (id, key) =>
      match s.decrypt key.keyEncrypted with
      | .error inner => .error (.client 500 (decryptDetail inner) ("POST /admin/keys/" ++ toString keyId ++ "/test"))
      | .ok rawKey =>
        match probe (s.upstream rawKey probeModel) with
        | .error _ => .error .raised
        | .ok probe => classifyKey s c.now t id key probe

def resetStates : Except KeyOpError KeyTable := .ok (resetKeyStates t c.now)

end InProcessDashboardBackend

def KeyOp.backend (s : KeyService) (c : KeyCall) (t : KeyTable) : KeyOp → Except KeyOpError KeyTable
  | createKey label key => InProcessDashboardBackend.createKey s c t label key
  | updateKey keyId label status => InProcessDashboardBackend.updateKey c t keyId label status
  | deleteKey keyId => InProcessDashboardBackend.deleteKey t keyId
  | testKey keyId => InProcessDashboardBackend.testKey s c t keyId
  | resetStates => InProcessDashboardBackend.resetStates c t

/-! ### The admin API -/

namespace AdminApi

variable (s : KeyService) (c : KeyCall) (t : KeyTable)

/-- The checks of `ApiKeyCreate`. -/
def validateCreate (label : Option String) (key : String) : Except KeyOpError Unit := do
  label.elim (.ok ()) (checkLength "label" 0 255)
  checkLength "key" 1 512 key

/-- The checks of `ApiKeyUpdate`. -/
def validateUpdate (label status : Option String) : Except KeyOpError (Option ApiKeyStatus) := do
  label.elim (.ok ()) (checkLength "label" 0 255)
  match status with
  | none => return none
  | some status =>
    match ApiKeyStatus.ofValue status with
    | none => .error (.invalid "status" "Input should be 'active', 'depleted' or 'disabled'")
    | some status => return some status

/-- `load_or_404`, with the answer of the routes. -/
def loadOr404 (keyId : ℤ) : Except KeyOpError (ℕ × ApiKey) := do
  match ← getKey t keyId with
  | none => .error (.http 404 notFoundDetail)
  | some row => return row

def createKey (label : Option String) (key : String) : Except KeyOpError KeyTable := do
  validateCreate label key
  (OllamaProxy.createKey t (s.lib.hashKey key) (keyPrefixOf key) (c.encrypt key) label c.now).elim
    (.error (.http 409 duplicateDetail)) .ok

def updateKey (keyId : ℤ) (label status : Option String) : Except KeyOpError KeyTable := do
  let status ← validateUpdate label status
  let (id, key) ← loadOr404 t keyId
  (OllamaProxy.updateKey t id key label status c.now).elim (.error .raised) .ok

def deleteKey (keyId : ℤ) : Except KeyOpError KeyTable := do
  let (id, _) ← loadOr404 t keyId
  (OllamaProxy.deleteKey t id).elim (.error .raised) .ok

def testOneKey (keyId : ℤ) : Except KeyOpError KeyTable := do
  let (id, key) ← loadOr404 t keyId
  match s.decrypt key.keyEncrypted with
  | .error inner => .error (.http 500 (decryptDetail inner))
  | .ok rawKey =>
    match s.requireProbeModel with
    | none => .error (.http 503 probeModelDetail)
    | some probeModel =>
      match probe (s.upstream rawKey probeModel) with
      | .error _ => .error .raised
      | .ok probe => classifyKey s c.now t id key probe

def resetKeyStates : Except KeyOpError KeyTable := .ok (OllamaProxy.resetKeyStates t c.now)

end AdminApi

/-- The route that corresponds to the call, with the same values. -/
def KeyOp.admin (s : KeyService) (c : KeyCall) (t : KeyTable) : KeyOp → Except KeyOpError KeyTable
  | createKey label key => AdminApi.createKey s c t label key
  | updateKey keyId label status => AdminApi.updateKey c t keyId label (status.map (·.value))
  | deleteKey keyId => AdminApi.deleteKey t keyId
  | testKey keyId => AdminApi.testOneKey s c t keyId
  | resetStates => AdminApi.resetKeyStates c t

/-! ### When they are alike -/

/-- The row without its ciphertext; of a timestamp it says only whether it is set. -/
def ApiKey.shown (k : ApiKey) : ApiKey :=
  { k with
    keyEncrypted := ""
    lastUsedAt := k.lastUsedAt.map fun _ => 0
    cooldownUntil := k.cooldownUntil.map fun _ => 0
    createdAt := 0
    updatedAt := 0
    sessionWindowStartedAt := k.sessionWindowStartedAt.map fun _ => 0
    weeklyWindowStartedAt := k.weeklyWindowStartedAt.map fun _ => 0
    lastTokenAt := k.lastTokenAt.map fun _ => 0 }

/-- The status code of a failure. -/
def errorCode : Except KeyOpError KeyTable → Option ℕ
  | .error e => some e.statusCode
  | .ok _ => none

/-- An operation that fails leaves the rows. -/
def rowsAfter (t : KeyTable) (r : Except KeyOpError KeyTable) : KeyTable := r.toOption.getD t

/-- Both finish with the same status code, or both succeed, and they leave the
same rows. -/
structure SameOutcome (t : KeyTable) (r r' : Except KeyOpError KeyTable) : Prop where
  errorCode : errorCode r = errorCode r'
  rows : (rowsAfter t r).map ApiKey.shown = (rowsAfter t r').map ApiKey.shown

section Alike

variable {t u u' : KeyTable} {e e' : KeyOpError} {r r' : Except KeyOpError KeyTable}

theorem SameOutcome.refl (t : KeyTable) (r : Except KeyOpError KeyTable) : SameOutcome t r r := ⟨rfl, rfl⟩

theorem sameOutcome_error_iff : SameOutcome t (.error e) (.error e') ↔ e.statusCode = e'.statusCode :=
  ⟨fun h => Option.some.inj h.errorCode, fun h => ⟨congrArg some h, rfl⟩⟩

theorem sameOutcome_ok (h : u.map ApiKey.shown = u'.map ApiKey.shown) : SameOutcome t (.ok u) (.ok u') := ⟨rfl, h⟩

theorem not_sameOutcome_ok_error : ¬ SameOutcome t (.ok u) (.error e) := fun h => Option.some_ne_none _ h.errorCode.symm

theorem not_sameOutcome_error_ok : ¬ SameOutcome t (.error e) (.ok u) := fun h => Option.some_ne_none _ h.errorCode

end Alike

/-- The result of a probe that was answered. -/
def Response.probed (r : Response) : ApiKeyTestResult :=
  ⟨r.isSuccess, some r.statusCode, extractRatelimitHeaders r.headers⟩

/-- The time until which upstream asks to wait is before the year 10000. -/
def CooldownFits (s : KeyService) (now : ℤ) (r : Response) : Prop :=
  ∀ retryAfter, extractRetryAfter s.pyFloat (.httpx r.headers) = .ok retryAfter →
    now + seconds (max 1 retryAfter) ≤ maxInstant

/-- The key exists, and its ciphertext opens to this secret. -/
def KeyService.Opens (s : KeyService) (t : KeyTable) (keyId : ℤ) (rawKey : String) : Prop :=
  ∃ id key, getKey t keyId = .ok (some (id, key)) ∧ s.decrypt key.keyEncrypted = .ok rawKey

/-- The dashboard's call is the admin API's. `now` and `now'` are the times of
the two calls. -/
def KeyOp.SameService (s : KeyService) (now now' : ℤ) (t : KeyTable) : KeyOp → Prop
  | createKey label _ | updateKey _ label _ => ∀ l ∈ label, l.length ≤ 255
  | testKey keyId =>
    match s.requireProbeModel with
    | none => ∃ rawKey, s.Opens t keyId rawKey
    | some probeModel =>
      ∀ rawKey, s.Opens t keyId rawKey → ∀ r, s.upstream rawKey probeModel = .response r → r.statusCode = 429 →
        (CooldownFits s now r ↔ CooldownFits s now' r)
  | deleteKey _ | resetStates => True

/-! ### The rows up to ciphertexts and timestamps -/

/-- The values without their timestamps. -/
def KeyValues.shown (v : KeyValues) : KeyValues :=
  { v with
    lastUsedAt := v.lastUsedAt.map fun _ => 0
    cooldownUntil := v.cooldownUntil.map fun c => c.map fun _ => 0
    updatedAt := 0 }

theorem KeyValues.write_shown (v : KeyValues) (key : ApiKey) :
    (v.shown.write key key).shown = (v.write key key).shown := by
  have hused : ((v.lastUsedAt.map fun _ => (0 : ℤ)).elim key.lastUsedAt some).map (fun _ => (0 : ℤ)) =
      (v.lastUsedAt.elim key.lastUsedAt some).map fun _ => 0 := by
    cases v.lastUsedAt <;> rfl
  have hcooldown : ((v.cooldownUntil.map fun c => c.map fun _ => (0 : ℤ)).elim key.cooldownUntil fun c =>
        netChangeSome key.cooldownUntil c key.cooldownUntil).map (fun _ => (0 : ℤ)) =
      (v.cooldownUntil.elim key.cooldownUntil fun c =>
        netChangeSome key.cooldownUntil c key.cooldownUntil).map fun _ => 0 := by
    obtain _ | _ | c := v.cooldownUntil
    · rfl
    · rfl
    · simp
  simp only [KeyValues.shown, KeyValues.write, ApiKey.shown, ApiKey.mk.injEq, true_and, and_true]
  exact ⟨hused, hcooldown⟩

section Services

variable {s : KeyService} {c c' : KeyCall} {t : KeyTable} {lib : Library} {label : Option String} {keyId : ℤ}

theorem createKey_shown (keyHash keyPrefix keyEncrypted keyEncrypted' : String) (now now' : ℤ) :
    (createKey t keyHash keyPrefix keyEncrypted label now).map (·.map ApiKey.shown) =
      (createKey t keyHash keyPrefix keyEncrypted' label now').map (·.map ApiKey.shown) := by
  unfold createKey
  split_ifs
  · rfl
  · have hnew : (ApiKey.new keyHash keyPrefix keyEncrypted label now).shown =
        (ApiKey.new keyHash keyPrefix keyEncrypted' label now').shown := rfl
    rw [Option.map_some, Option.map_some, Table.map_insert, Table.map_insert, hnew]

theorem updateKey_shown (id : ℕ) (key : ApiKey) (status : Option ApiKeyStatus) (now now' : ℤ) :
    (updateKey t id key label status now).map (·.map ApiKey.shown) =
      (updateKey t id key label status now').map (·.map ApiKey.shown) := by
  unfold updateKey
  cases t.get? id with
  | none => rfl
  | some row => exact congrArg some (Table.map_modify_congr _ fun _ _ => rfl)

theorem resetKeyStates_shown (now now' : ℤ) :
    (resetKeyStates t now).map ApiKey.shown = (resetKeyStates t now').map ApiKey.shown :=
  Table.map_mapRows_congr _ fun _ _ => rfl

/-- Where the tables that two services leave look alike, so do the outcomes. -/
theorem sameOutcome_elim {x x' : Option KeyTable} {e e' : KeyOpError} (he : e.statusCode = e'.statusCode)
    (h : x.map (·.map ApiKey.shown) = x'.map (·.map ApiKey.shown)) :
    SameOutcome t (x.elim (.error e) .ok) (x'.elim (.error e') .ok) := by
  cases x with
  | none =>
    cases x' with
    | none => exact sameOutcome_error_iff.mpr he
    | some u' => cases h
  | some u =>
    cases x' with
    | none => cases h
    | some u' => exact sameOutcome_ok (Option.some.inj h)

theorem commit_shown {id : ℕ} {key : ApiKey} {v v' : KeyValues} (hrow : t.get? id = some key) (h : v.shown = v'.shown) :
    ((Recorder.update v).commit id key t).map (·.map ApiKey.shown) =
      ((Recorder.update v').commit id key t).map (·.map ApiKey.shown) := by
  have hcommit : ∀ v : KeyValues, (Recorder.update v).commit id key t = some (t.modify id (v.write key)) := fun v =>
    Recorder.commit_eq_some rfl hrow
  rw [hcommit, hcommit]
  refine congrArg some (Table.map_modify_congr _ fun row hget => ?_)
  obtain rfl : key = row := Option.some.inj (hrow.symm.trans hget)
  calc (v.write key key).shown = (v.shown.write key key).shown := (v.write_shown key).symm
    _ = (v'.shown.write key key).shown := by rw [h]
    _ = (v'.write key key).shown := v'.write_shown key

/-! ### What a probe leaves -/

section Probe

variable {now now' : ℤ} {id : ℕ} {key : ApiKey} {r : Response} {result : ApiKeyTestResult}

theorem classify_shown_of_ne (h : result.statusCode ≠ some 429) :
    (result.classify s.pyFloat now).map (·.map KeyValues.shown) =
      (result.classify s.pyFloat now').map (·.map KeyValues.shown) := by
  unfold ApiKeyTestResult.classify
  cases hcode : result.statusCode with
  | none => rfl
  | some code =>
    have h429 : code ≠ 429 := fun hc => h (by rw [hcode, hc])
    simp only [if_neg h429]
    split_ifs <;> rfl

theorem sameOutcome_classifyKey (hrow : t.get? id = some key)
    (h : (result.classify s.pyFloat now).map (·.map KeyValues.shown) =
      (result.classify s.pyFloat now').map (·.map KeyValues.shown)) :
    SameOutcome t (classifyKey s now t id key result) (classifyKey s now' t id key result) := by
  unfold classifyKey
  cases hc : result.classify s.pyFloat now with
  | error e =>
    cases hc' : result.classify s.pyFloat now' with
    | error e' => exact .refl t _
    | ok v' => simp [hc, hc', Except.map] at h
  | ok v =>
    cases hc' : result.classify s.pyFloat now' with
    | error e' => simp [hc, hc', Except.map] at h
    | ok v' =>
      have hv : v.map KeyValues.shown = v'.map KeyValues.shown := by simpa [hc, hc', Except.map] using h
      cases v with
      | none =>
        cases v' with
        | none => exact .refl t _
        | some v' => cases hv
      | some v =>
        cases v' with
        | none => cases hv
        | some v' => exact sameOutcome_elim rfl (commit_shown hrow (Option.some.inj hv))

theorem cooldownFits_iff {retryAfter : ℤ} (h : extractRetryAfter s.pyFloat (.httpx r.headers) = .ok retryAfter) :
    CooldownFits s now r ↔ now + seconds (max 1 retryAfter) ≤ maxInstant := by
  constructor
  · intro hfits
    exact hfits retryAfter h
  · intro hle retryAfter' h'
    obtain rfl : retryAfter = retryAfter' := Except.ok.inj (h.symm.trans h')
    exact hle

theorem classify_probed {retryAfter : ℤ} (h429 : r.statusCode = 429)
    (h : extractRetryAfter s.pyFloat (.httpx r.headers) = .ok retryAfter) (now : ℤ) :
    r.probed.classify s.pyFloat now = (recordRateLimited now 429 retryAfter).map some := by
  simp [ApiKeyTestResult.classify, Response.probed, h429, extractRetryAfter_ratelimitHeaders, h]

theorem classifyKey_of_fits {retryAfter : ℤ} (hrow : t.get? id = some key) (h429 : r.statusCode = 429)
    (h : extractRetryAfter s.pyFloat (.httpx r.headers) = .ok retryAfter) (hfits : CooldownFits s now r) :
    ∃ u, classifyKey s now t id key r.probed = .ok u := by
  have hle := (cooldownFits_iff h).mp hfits
  obtain ⟨v, hv⟩ : ∃ v, r.probed.classify s.pyFloat now = .ok (some v) := by
    rw [classify_probed h429 h, recordRateLimited, addSeconds, if_pos hle]
    exact ⟨_, rfl⟩
  obtain ⟨u, hu, -⟩ := commit_fresh (.update v) rfl hrow
  exact ⟨u, by simp [classifyKey, hv, hu]⟩

theorem classifyKey_of_not_fits {retryAfter : ℤ} (h429 : r.statusCode = 429)
    (h : extractRetryAfter s.pyFloat (.httpx r.headers) = .ok retryAfter) (hfits : ¬ CooldownFits s now r) :
    classifyKey s now t id key r.probed = .error .raised := by
  have hle : ¬ now + seconds (max 1 retryAfter) ≤ maxInstant := fun hle => hfits ((cooldownFits_iff h).mpr hle)
  simp [classifyKey, classify_probed h429 h, recordRateLimited, addSeconds, hle, Except.map]

/-- An answer is recorded alike, but for a cooldown that ends too late by one of
the clocks. -/
theorem sameOutcome_probed_iff (hrow : t.get? id = some key) :
    SameOutcome t (classifyKey s now t id key r.probed) (classifyKey s now' t id key r.probed) ↔
      (r.statusCode = 429 → (CooldownFits s now r ↔ CooldownFits s now' r)) := by
  by_cases h429 : r.statusCode = 429
  · cases h : extractRetryAfter s.pyFloat (.httpx r.headers) with
    | error e =>
      have hfits : ∀ now, CooldownFits s now r := fun now retryAfter hok => by rw [h] at hok; cases hok
      have hraised : ∀ now, classifyKey s now t id key r.probed = .error .raised := fun now => by
        simp [classifyKey, ApiKeyTestResult.classify, Response.probed, h429, extractRetryAfter_ratelimitHeaders, h]
      rw [hraised, hraised]
      exact ⟨fun _ _ => iff_of_true (hfits now) (hfits now'), fun _ => .refl t _⟩
    | ok retryAfter =>
      by_cases hfits : CooldownFits s now r
      · by_cases hfits' : CooldownFits s now' r
        · have hle := (cooldownFits_iff h).mp hfits
          have hle' := (cooldownFits_iff h).mp hfits'
          refine ⟨fun _ _ => iff_of_true hfits hfits', fun _ => sameOutcome_classifyKey hrow ?_⟩
          rw [classify_probed h429 h, classify_probed h429 h]
          simp [recordRateLimited, addSeconds, hle, hle', Except.map, KeyValues.shown]
        · obtain ⟨u, hu⟩ := classifyKey_of_fits hrow h429 h hfits
          rw [hu, classifyKey_of_not_fits h429 h hfits']
          exact iff_of_false not_sameOutcome_ok_error fun hiff => hfits' ((hiff h429).mp hfits)
      · by_cases hfits' : CooldownFits s now' r
        · obtain ⟨u, hu⟩ := classifyKey_of_fits hrow h429 h hfits'
          rw [hu, classifyKey_of_not_fits h429 h hfits]
          exact iff_of_false not_sameOutcome_error_ok fun hiff => hfits ((hiff h429).mpr hfits')
        · rw [classifyKey_of_not_fits h429 h hfits, classifyKey_of_not_fits h429 h hfits']
          exact ⟨fun _ _ => iff_of_false hfits hfits', fun _ => .refl t _⟩
  · have hne : r.probed.statusCode ≠ some 429 := fun hc => h429 (Option.some.inj hc)
    exact ⟨fun _ hc => absurd hc h429, fun _ => sameOutcome_classifyKey hrow (classify_shown_of_ne hne)⟩

end Probe

/-! ### The operations -/

theorem getKey_cases (t : KeyTable) (keyId : ℤ) :
    getKey t keyId = .error .raised ∨ getKey t keyId = .ok none ∨
      ∃ id key, getKey t keyId = .ok (some (id, key)) ∧ t.get? id = some key := by
  unfold getKey
  split_ifs
  · exact .inl rfl
  · exact .inr (.inl rfl)
  · cases hrow : t.get? keyId.toNat with
    | none => exact .inr (.inl rfl)
    | some key => exact .inr (.inr ⟨keyId.toNat, key, rfl, hrow⟩)

theorem checkLabel_ok (h : ∀ l ∈ label, l.length ≤ 255) :
    label.elim (.ok ()) (checkLength "label" 0 255) = .ok () := by
  cases label with
  | none => rfl
  | some l =>
    have hle : l.length ≤ 255 := h l rfl
    simp [checkLength, hle]

theorem checkLabel_error (h : ¬ ∀ l ∈ label, l.length ≤ 255) :
    ∃ message, label.elim (.ok ()) (checkLength "label" 0 255) = .error (.invalid "label" message) := by
  cases label with
  | none => simp at h
  | some l =>
    have hlt : 255 < l.length := by simpa using h
    exact ⟨_, by simp [checkLength, hlt]; rfl⟩

theorem admin_createKey_invalid (s : KeyService) (c : KeyCall) (t : KeyTable) (key : String)
    (h : ¬ ∀ l ∈ label, l.length ≤ 255) :
    ∃ message, AdminApi.createKey s c t label key = .error (.invalid "label" message) := by
  obtain ⟨message, hmessage⟩ := checkLabel_error h
  exact ⟨message, by simp only [AdminApi.createKey, AdminApi.validateCreate, hmessage, error_bind]⟩

/-- The form has checked the secret. -/
theorem checkLength_of_submit {form : KeyForm} {key : String} (h : form.submit lib = .ok (.createKey label key)) :
    checkLength "key" 1 512 key = .ok () := by
  cases form with
  | createKeySubmit label' key' =>
    simp only [KeyForm.submit] at h
    split_ifs at h
    obtain ⟨u, hcheck, hop⟩ := bind_eq_ok.mp h
    cases hop
    exact hcheck
  | updateKeySubmit keyId method label' status =>
    simp only [KeyForm.submit] at h
    split_ifs at h
    obtain ⟨status', -, hop⟩ := bind_eq_ok.mp h
    cases hop
  | deleteKeySubmit keyId => cases h
  | testKeySubmit keyId => cases h
  | resetStatesSubmit => cases h

theorem createKey_same_iff {key : String} (hkey : checkLength "key" 1 512 key = .ok ()) :
    SameOutcome t (InProcessDashboardBackend.createKey s c t label key) (AdminApi.createKey s c' t label key) ↔
      ∀ l ∈ label, l.length ≤ 255 := by
  by_cases hlabel : ∀ l ∈ label, l.length ≤ 255
  · have hadmin : AdminApi.createKey s c' t label key =
        (createKey t (s.lib.hashKey key) (keyPrefixOf key) (c'.encrypt key) label c'.now).elim
          (.error (.http 409 duplicateDetail)) .ok := by
      simp only [AdminApi.createKey, AdminApi.validateCreate, checkLabel_ok hlabel, hkey, ok_bind]
    rw [hadmin]
    exact iff_of_true (sameOutcome_elim rfl (createKey_shown _ _ _ _ _ _)) hlabel
  · obtain ⟨message, hadmin⟩ := admin_createKey_invalid s c' t key hlabel
    rw [hadmin]
    refine iff_of_false (fun hsame => ?_) hlabel
    unfold InProcessDashboardBackend.createKey at hsame
    cases hcreate : createKey t (s.lib.hashKey key) (keyPrefixOf key) (c.encrypt key) label c.now with
    | none =>
      rw [hcreate] at hsame
      exact absurd (sameOutcome_error_iff.mp hsame) (by simp [KeyOpError.statusCode])
    | some u =>
      rw [hcreate] at hsame
      exact not_sameOutcome_ok_error hsame

theorem updateKey_same_iff {status : Option ApiKeyStatus} :
    SameOutcome t (InProcessDashboardBackend.updateKey c t keyId label status)
        (AdminApi.updateKey c' t keyId label (status.map (·.value))) ↔ ∀ l ∈ label, l.length ≤ 255 := by
  by_cases hlabel : ∀ l ∈ label, l.length ≤ 255
  · have hvalid : AdminApi.validateUpdate label (status.map (·.value)) = .ok status := by
      cases status with
      | none => simp [AdminApi.validateUpdate, checkLabel_ok hlabel, ok_bind, pure, Except.pure]
      | some status =>
        simp [AdminApi.validateUpdate, checkLabel_ok hlabel, ApiKeyStatus.ofValue_value, ok_bind, pure, Except.pure]
    refine iff_of_true ?_ hlabel
    obtain hget | hget | ⟨id, key, hget, -⟩ := getKey_cases t keyId
    · simp only [InProcessDashboardBackend.updateKey, AdminApi.updateKey, AdminApi.loadOr404, hvalid, hget, ok_bind,
        error_bind]
      exact .refl t _
    · simp only [InProcessDashboardBackend.updateKey, AdminApi.updateKey, AdminApi.loadOr404, hvalid, hget, ok_bind,
        error_bind]
      exact sameOutcome_error_iff.mpr rfl
    · simp only [InProcessDashboardBackend.updateKey, AdminApi.updateKey, AdminApi.loadOr404, hvalid, hget, ok_bind,
        pure_bind]
      exact sameOutcome_elim rfl (updateKey_shown id key status c.now c'.now)
  · obtain ⟨message, hmessage⟩ := checkLabel_error hlabel
    have hadmin : AdminApi.updateKey c' t keyId label (status.map (·.value)) = .error (.invalid "label" message) := by
      simp only [AdminApi.updateKey, AdminApi.validateUpdate, hmessage, error_bind]
    rw [hadmin]
    refine iff_of_false (fun hsame => ?_) hlabel
    obtain hget | hget | ⟨id, key, hget, hrow⟩ := getKey_cases t keyId
    · simp only [InProcessDashboardBackend.updateKey, hget, error_bind, sameOutcome_error_iff] at hsame
      exact absurd hsame (by simp [KeyOpError.statusCode])
    · simp only [InProcessDashboardBackend.updateKey, hget, ok_bind, sameOutcome_error_iff] at hsame
      exact absurd hsame (by simp [KeyOpError.statusCode])
    · simp only [InProcessDashboardBackend.updateKey, hget, ok_bind, updateKey, hrow, Option.map_some,
        Option.elim_some] at hsame
      exact not_sameOutcome_ok_error hsame

theorem deleteKey_same :
    SameOutcome t (InProcessDashboardBackend.deleteKey t keyId) (AdminApi.deleteKey t keyId) := by
  simp only [InProcessDashboardBackend.deleteKey, AdminApi.deleteKey, AdminApi.loadOr404]
  obtain hget | hget | ⟨id, key, hget, -⟩ := getKey_cases t keyId
  · simp only [hget, error_bind]
    exact .refl t _
  · simp only [hget, ok_bind, error_bind]
    exact sameOutcome_error_iff.mpr rfl
  · simp only [hget, ok_bind, pure_bind]
    exact .refl t _

theorem opens_iff {id : ℕ} {key : ApiKey} {rawKey : String} (hget : getKey t keyId = .ok (some (id, key))) :
    s.Opens t keyId rawKey ↔ s.decrypt key.keyEncrypted = .ok rawKey := by
  simp [KeyService.Opens, hget]

/-- Without a probe model the dashboard answers so before it looks for the key. -/
theorem testKey_same_iff_of_none (hmodel : s.requireProbeModel = none) :
    SameOutcome t (InProcessDashboardBackend.testKey s c t keyId) (AdminApi.testOneKey s c' t keyId) ↔
      ∃ rawKey, s.Opens t keyId rawKey := by
  simp only [InProcessDashboardBackend.testKey, AdminApi.testOneKey, AdminApi.loadOr404, hmodel]
  obtain hget | hget | ⟨id, key, hget, -⟩ := getKey_cases t keyId
  · simp [hget, error_bind, sameOutcome_error_iff, KeyOpError.statusCode, KeyService.Opens]
  · simp [hget, ok_bind, error_bind, sameOutcome_error_iff, KeyOpError.statusCode, KeyService.Opens]
  · simp only [hget, ok_bind, pure_bind, opens_iff hget]
    cases hraw : s.decrypt key.keyEncrypted with
    | error inner => simp [sameOutcome_error_iff, KeyOpError.statusCode]
    | ok rawKey => simp [sameOutcome_error_iff, KeyOpError.statusCode]

theorem testKey_same_iff_of_some {probeModel : String} (hmodel : s.requireProbeModel = some probeModel) :
    SameOutcome t (InProcessDashboardBackend.testKey s c t keyId) (AdminApi.testOneKey s c' t keyId) ↔
      ∀ rawKey, s.Opens t keyId rawKey → ∀ r, s.upstream rawKey probeModel = .response r → r.statusCode = 429 →
        (CooldownFits s c.now r ↔ CooldownFits s c'.now r) := by
  simp only [InProcessDashboardBackend.testKey, AdminApi.testOneKey, AdminApi.loadOr404, hmodel]
  obtain hget | hget | ⟨id, key, hget, hrow⟩ := getKey_cases t keyId
  · simp [hget, error_bind, SameOutcome.refl, KeyService.Opens]
  · simp [hget, ok_bind, error_bind, sameOutcome_error_iff, KeyOpError.statusCode, KeyService.Opens]
  simp only [hget, ok_bind, pure_bind, opens_iff hget]
  cases hraw : s.decrypt key.keyEncrypted with
  | error inner => simp [sameOutcome_error_iff, KeyOpError.statusCode]
  | ok rawKey =>
    cases hup : s.upstream rawKey probeModel with
    | raised => simp [hup, probe, SameOutcome.refl]
    | transport =>
      have hsame : SameOutcome t (classifyKey s c.now t id key .failed) (classifyKey s c'.now t id key .failed) :=
        sameOutcome_classifyKey hrow rfl
      simp [hup, probe, hsame]
    | response r =>
      have hsame : SameOutcome t (classifyKey s c.now t id key r.probed) (classifyKey s c'.now t id key r.probed) ↔
          (r.statusCode = 429 → (CooldownFits s c.now r ↔ CooldownFits s c'.now r)) := sameOutcome_probed_iff hrow
      simpa [hup, probe, Response.probed] using hsame

/-! ### The operations of the world

What the dashboard leaves is what one of the world's admin operations leaves. -/

theorem elim_eq_ok {x : Option KeyTable} {e : KeyOpError} {u : KeyTable} :
    x.elim (.error e) .ok = (.ok u : Except KeyOpError KeyTable) ↔ x = some u := by
  cases x <;> simp

/-- The operation leaves the table, or does what an admin operation does. -/
def IsAdminOp (s : KeyService) (now : ℤ) (t t' : KeyTable) : Prop :=
  t' = t ∨ ∃ a : AdminOp, t' = a.apply s.pyFloat now t

variable {now : ℤ} {id : ℕ} {key : ApiKey} {t' : KeyTable}

theorem classify_eq_some {result : ApiKeyTestResult} {v : KeyValues}
    (h : result.classify s.pyFloat now = .ok (some v)) :
    ∃ code, classify s.pyFloat now code (.dict result.ratelimitHeaders) = some v := by
  unfold ApiKeyTestResult.classify at h
  cases hcode : result.statusCode with
  | none => simp [hcode] at h
  | some code =>
    refine ⟨code, ?_⟩
    simp only [hcode] at h
    unfold classify
    split_ifs at h ⊢
    · simpa using h
    · simpa using h
    · cases hretry : extractRetryAfter s.pyFloat (.dict result.ratelimitHeaders) with
      | error e => simp [hretry] at h
      | ok retryAfter =>
        simp only [hretry] at h ⊢
        cases hvalues : recordRateLimited now code retryAfter with
        | error e => simp [hvalues, Except.map] at h
        | ok v' => simpa [hvalues, Except.map, Except.toOption] using h
    · simpa using h
    · simp at h

theorem classifyKey_isAdminOp {result : ApiKeyTestResult} (h : classifyKey s now t id key result = .ok t') :
    IsAdminOp s now t t' := by
  unfold classifyKey at h
  split at h
  · cases h
  · cases h
    exact .inl rfl
  · next v hv =>
    obtain ⟨code, hcode⟩ := classify_eq_some hv
    have hcommit := elim_eq_ok.mp h
    exact .inr ⟨.probe id key code (.dict result.ratelimitHeaders), by
      rw [AdminOp.apply, hcode, Option.bind_some, hcommit, Option.getD_some]⟩

theorem backend_isAdminOp {op : KeyOp} (h : op.backend s c t = .ok t') : IsAdminOp s c.now t t' := by
  cases op with
  | createKey label key =>
    have hcreate := elim_eq_ok.mp h
    exact .inr ⟨.createKey _ _ _ _, by rw [AdminOp.apply, hcreate, Option.getD_some]⟩
  | updateKey keyId label status =>
    obtain hget | hget | ⟨id, key, hget, -⟩ := getKey_cases t keyId
    · simp [KeyOp.backend, InProcessDashboardBackend.updateKey, hget, error_bind] at h
    · simp [KeyOp.backend, InProcessDashboardBackend.updateKey, hget, ok_bind] at h
    · simp only [KeyOp.backend, InProcessDashboardBackend.updateKey, hget, ok_bind, elim_eq_ok] at h
      exact .inr ⟨.updateKey id key label status, by rw [AdminOp.apply, h, Option.getD_some]⟩
  | deleteKey keyId =>
    obtain hget | hget | ⟨id, key, hget, -⟩ := getKey_cases t keyId
    · simp [KeyOp.backend, InProcessDashboardBackend.deleteKey, hget, error_bind] at h
    · simp [KeyOp.backend, InProcessDashboardBackend.deleteKey, hget, ok_bind] at h
    · simp only [KeyOp.backend, InProcessDashboardBackend.deleteKey, hget, ok_bind, elim_eq_ok] at h
      exact .inr ⟨.deleteKey id, by rw [AdminOp.apply, h, Option.getD_some]⟩
  | testKey keyId =>
    simp only [KeyOp.backend, InProcessDashboardBackend.testKey] at h
    split at h
    · cases h
    obtain hget | hget | ⟨id, key, hget, -⟩ := getKey_cases t keyId
    · simp [hget, error_bind] at h
    · simp [hget, ok_bind] at h
    simp only [hget, ok_bind] at h
    split at h
    · cases h
    split at h
    · cases h
    exact classifyKey_isAdminOp h
  | resetStates =>
    cases h
    exact .inr ⟨.resetKeyStates, rfl⟩

end Services

/-- The dashboard's call finishes like the admin API's exactly under
`SameService`: the label is not too long, and a test does not find two errors of
which each service looks for another one first. -/
theorem same_service_iff {s : KeyService} {c c' : KeyCall} {t : KeyTable} {form : KeyForm} {op : KeyOp}
    (h : form.submit s.lib = .ok op) :
    SameOutcome t (op.backend s c t) (op.admin s c' t) ↔ op.SameService s c.now c'.now t := by
  cases op with
  | createKey label key => exact createKey_same_iff (checkLength_of_submit h)
  | updateKey keyId label status => exact updateKey_same_iff
  | deleteKey keyId => exact iff_of_true deleteKey_same trivial
  | testKey keyId =>
    simp only [KeyOp.SameService]
    split
    · next hmodel => exact testKey_same_iff_of_none hmodel
    · next probeModel hmodel => exact testKey_same_iff_of_some hmodel
  | resetStates => exact iff_of_true (sameOutcome_ok (resetKeyStates_shown c.now c'.now)) trivial

namespace KeyOp.Sample

/-- The library and the vault on the strings of the sample calls. -/
def service (probeModel : Option String) : KeyService where
  lib :=
    { hashKey := fun s =>
        if s = "sk" then "32b56ed53348a8587f30c90e5c6406df95d3b8ab1130b1da62bcf492a8ed8a63" else s
      lower := fun s => s
      repr := fun s => "'" ++ s ++ "'"
      fromisoformat := fun s => .error ("Invalid isoformat string: '" ++ s ++ "'")
      schemeParam := fun s => (s, "") }
  decrypt := fun blob =>
    if blob = "0:sk" then .ok "sk" else .error "encrypted blob cannot be decrypted (wrong master key?)"
  pyFloat := OllamaProxy.Sample.float
  probeModel := probeModel
  upstream := fun _ _ => OllamaProxy.Sample.reply 429

def dashboard : KeyCall := ⟨0, ("0:" ++ ·)⟩

def admin : KeyCall := ⟨seconds 5, ("1:" ++ ·)⟩

theorem same_service_create :
    SameOutcome Table.empty ((createKey (some "ci") "sk").backend (service none) dashboard Table.empty)
      ((createKey (some "ci") "sk").admin (service none) admin Table.empty) := by
  have hsubmit : (KeyForm.createKeySubmit "ci" "sk").submit (service none).lib = .ok (createKey (some "ci") "sk") := by
    decide
  have hlabel : ∀ l ∈ some "ci", l.length ≤ 255 := by decide
  exact (same_service_iff hsubmit).mpr hlabel

def longLabel (n : ℕ) : String := String.ofList (List.replicate n 'a')

theorem length_longLabel (n : ℕ) : (longLabel n).length = n := by
  rw [longLabel, String.length_ofList, List.length_replicate]

def longOp : KeyOp := createKey (some (longLabel 256)) "sk"

/-- With a label of 256 characters the dashboard creates the key, and the route
answers 422. -/
theorem long_label_not_same :
    (KeyForm.createKeySubmit (longLabel 256) "sk").submit (service none).lib = .ok longOp ∧
      errorCode (longOp.backend (service none) dashboard Table.empty) = none ∧
      errorCode (longOp.admin (service none) admin Table.empty) = some 422 ∧
      ¬ SameOutcome Table.empty (longOp.backend (service none) dashboard Table.empty)
        (longOp.admin (service none) admin Table.empty) := by
  have hne : longLabel 256 ≠ "" := by
    intro h
    have hlength := length_longLabel 256
    rw [h] at hlength
    cases hlength
  have hkey : checkLength "key" 1 512 "sk" = .ok () := rfl
  refine ⟨?_, ?_, ?_, fun hsame => ?_⟩
  · have hstrip : strip (longLabel 256) = longLabel 256 := strip_eq_self fun c hc => by
      rw [longLabel, String.toList_ofList] at hc
      rw [List.eq_of_mem_replicate hc]
      rfl
    have hlabel : formLabel (longLabel 256) = some (longLabel 256) := by rw [formLabel, hstrip, if_neg hne]
    simp [KeyForm.submit, hlabel, hkey, ok_bind, pure, Except.pure, longOp]
  · simp [longOp, KeyOp.backend, InProcessDashboardBackend.createKey, OllamaProxy.createKey, Table.empty, errorCode]
  · have hlong : ¬ ∀ l ∈ some (longLabel 256), l.length ≤ 255 := by simp [length_longLabel]
    obtain ⟨message, hadmin⟩ := admin_createKey_invalid (service none) admin Table.empty "sk" hlong
    rw [longOp, KeyOp.admin, hadmin]
    rfl
  · have hshort := (createKey_same_iff hkey).mp hsame (longLabel 256) rfl
    rw [length_longLabel] at hshort
    omega

end KeyOp.Sample

end OllamaProxy
