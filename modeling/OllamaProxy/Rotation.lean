/-
# Rotation: one attempt and the verdict

`dispatchOne` and `fetchModels` say what the chat path and the model-list path
make of an upstream outcome: a recorder to await and the value to return after
it, or an exception. `verdict` is the proxy's own answer once the loop gives
up. The loop itself is in `System` (every interleaving) and in `Solo` (one
request with the store to itself).
-/
import OllamaProxy.Http

namespace OllamaProxy

/-- What a `Rotation` is built from: `vault` is `Vault.decrypt` (`none` is a
`VaultDecryptError`), `safetyMargin` the setting
`max_rotation_iterations_safety_margin`, `pyFloat` Python's `float(s)`. -/
structure Rotation where
  vault : String → Option String
  safetyMargin : ℤ
  pyFloat : String → Option PyFloat

structure DispatchOutcome where
  response : Option Response := none
  terminal : Option ClientResponse := none
  rotate : Bool := false
  all404Hint : Bool := false

/-- What a request returns once its outcome is recorded: the chat path a
`_DispatchOutcome`, the model-list path `(ok, ids)`. -/
inductive Return
  | outcome (o : DispatchOutcome)
  | models (ok : Bool) (ids : List String)

/-- What follows an upstream outcome. -/
inductive Dispatch
  | record (rec : Recorder) (ret : Return)
  | done (ret : Return)
  | raised (e : PyError)

def deadKeyCodes : List ℕ := [401, 403]

/-- The chat path rotates to the next key. -/
def rotateTo (all404Hint : Bool) : Return := .outcome { rotate := true, all404Hint := all404Hint }

/-- Recording a 429: its `Retry-After` may be too large for a datetime. -/
def recordRetryAfter (pyFloat : String → Option PyFloat) (now : ℤ) (r : Response) (ret : Return) :
    Dispatch :=
  match extractRetryAfter pyFloat (.httpx r.headers) with
  | .error e => .raised e
  | .ok retryAfter =>
    match recordRateLimited now r.statusCode retryAfter with
    | .error e => .raised e
    | .ok v => .record (.update v) ret

/-- The 2xx branch of `_dispatch_one`. -/
def recordChatSuccess (stream : Bool) (now : ℤ) (r : Response) : Dispatch :=
  let ret := Return.outcome { response := some r }
  match if stream then .ok (none, none) else parseUsageFromResponse r with
  | .error e => .raised e
  | .ok (promptTokens, completionTokens) =>
    if promptTokens.isSome || completionTokens.isSome then
      .record (.usage ⟨r.statusCode, promptTokens, completionTokens, now⟩) ret
    else .record (.update (recordSuccess now r.statusCode)) ret

/-- `_dispatch_one` after the upstream call. -/
def dispatchOne (rot : Rotation) (stream : Bool) (now : ℤ) : Upstream → Dispatch
  | .transport => .record (.update (recordServerError now 0)) (rotateTo false)
  | .raised => .raised .typeError
  | .response r =>
    if r.isSuccess then recordChatSuccess stream now r
    else if r.statusCode ∈ deadKeyCodes then
      .record (.update (recordUnauthorized now r.statusCode)) (rotateTo false)
    else if r.statusCode = 404 then .done (rotateTo true)
    else if r.statusCode = 429 then recordRetryAfter rot.pyFloat now r (rotateTo false)
    else if 500 ≤ r.statusCode then
      .record (.update (recordServerError now r.statusCode)) (rotateTo false)
    else .done (.outcome { terminal := some (buildSuccessResponse r stream) })

/-- `_fetch_models_via_rotation` after the upstream call. -/
def fetchModels (rot : Rotation) (now : ℤ) : Upstream → Dispatch
  | .transport => .record (.update (recordServerError now 0)) (.models false [])
  | .raised => .raised .typeError
  | .response r =>
    if r.isSuccess then
      match listModelsV1 r with
      | .error e => .raised e
      | .ok ids => .record (.update (recordSuccess now 200)) (.models true ids)
    else if r.statusCode ∈ deadKeyCodes then
      .record (.update (recordUnauthorized now r.statusCode)) (.models false [])
    else if r.statusCode = 429 then recordRetryAfter rot.pyFloat now r (.models false [])
    else if 500 ≤ r.statusCode then
      .record (.update (recordServerError now r.statusCode)) (.models false [])
    else .done (.models false [])

/-! ### Answers -/

/-- How a request ends. `error` is an exception that leaves the handler. -/
inductive Answer
  | upstream (r : ClientResponse)
  | proxy (statusCode : ℕ) (detail : String)
  | models (ok : Bool) (ids : List String)
  | error
  | cancelled
deriving DecidableEq

/-- `range(max_iter)`. -/
def maxIter (rot : Rotation) (initialCount : ℕ) : ℕ :=
  (((max 1 initialCount : ℕ) : ℤ) + rot.safetyMargin).toNat

/-- The end of `execute_with_rotation`. -/
def verdict (requestedModel : Option String) (initialCount : ℕ) (anyAttempt all404 : Bool) : Answer :=
  if !anyAttempt then
    if initialCount = 0 then .proxy 503 "no active keys configured"
    else .proxy 503 "all backends busy, retry shortly"
  else
    match requestedModel with
    | some model =>
      if all404 && model ≠ "" then
        .proxy 404 ("model '" ++ model ++ "' is not available for any active key")
      else .proxy 503 "all backends failed"
    | none => .proxy 503 "all backends failed"

theorem verdict_eq_proxy (requestedModel : Option String) (n : ℕ) (anyAttempt all404 : Bool) :
    ∃ statusCode detail, verdict requestedModel n anyAttempt all404 = .proxy statusCode detail := by
  unfold verdict
  split_ifs
  · exact ⟨_, _, rfl⟩
  · exact ⟨_, _, rfl⟩
  · split
    · split_ifs <;> exact ⟨_, _, rfl⟩
    · exact ⟨_, _, rfl⟩

end OllamaProxy
