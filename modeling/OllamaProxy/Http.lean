/-
# Upstream responses and what the proxy reads of them

`Response` is what `httpx` hands over: the items of its headers (each name
once, in lower case) and the body, with what `.json()` makes of it. From it
come the answer passed through to the client (`buildSuccessResponse`), the
token counts (`parseUsageFromResponse`) and the model list (`listModelsV1`).
-/
import OllamaProxy.KeyManager

namespace OllamaProxy

structure Response where
  statusCode : ℕ
  headers : List (String × String)
  content : String
  json : Except PyError Json

def Response.isSuccess (r : Response) : Bool := 200 ≤ r.statusCode && r.statusCode < 300

/-- What an upstream call ends with; `transport` stands for a timeout, a
`RequestError` or an `OSError`. -/
inductive Upstream
  | response (r : Response)
  | transport
  | raised

/-! ### Passing an answer through -/

def blockedUpstreamHeaders : List String :=
  ["server", "x-powered-by", "x-aspnet-version", "x-aspnetmvc-version"]

def transportHeaders : List String := ["content-length", "content-encoding", "transfer-encoding"]

def safeHeaders (upstreamHeaders : List (String × String)) : List (String × String) :=
  upstreamHeaders.filter fun h =>
    h.1.toLower ∉ blockedUpstreamHeaders && h.1.toLower ∉ transportHeaders

/-- What the client receives. -/
structure ClientResponse where
  statusCode : ℕ
  headers : List (String × String)
  mediaType : String
  content : String
deriving DecidableEq

def buildSuccessResponse (r : Response) (stream : Bool) : ClientResponse where
  statusCode := r.statusCode
  headers := safeHeaders r.headers
  mediaType := (r.headers.lookup "content-type").getD
    (if stream then "text/event-stream" else "application/json")
  content := r.content

/-! ### Token counts -/

/-- The counts of the OpenAI shape, else those of the Ollama shape. Only a
`ValueError` of `.json()` is caught. -/
def parseUsageFromResponse (r : Response) : Except PyError (Option ℤ × Option ℤ) :=
  match r.json with
  | .error .valueError => .ok (none, none)
  | .error e => .error e
  | .ok (.dict payload) =>
    let native := (Json.asInt (payload.lookup "prompt_eval_count"), Json.asInt (payload.lookup "eval_count"))
    match payload.lookup "usage" with
    | some (.dict usage) =>
      let promptTokens := Json.asInt (usage.lookup "prompt_tokens")
      let completionTokens := Json.asInt (usage.lookup "completion_tokens")
      if promptTokens.isSome || completionTokens.isSome then .ok (promptTokens, completionTokens)
      else .ok native
    | _ => .ok native
  | .ok _ => .ok (none, none)

/-! ### Model lists -/

/-- The entry of `data` as a model id, if it is one. -/
def modelId : Json → Option String
  | .dict entry =>
    match entry.lookup "id" with
    | some (.str s) => if s ≠ "" then some s else none
    | _ => none
  | .str s => if s ≠ "" then some s else none
  | _ => none

/-- `for entry in data`; a truthy number is not iterable. -/
def Json.entries : Json → Except PyError (List Json)
  | .list xs => .ok xs
  | .dict items => .ok (items.map fun i => .str i.1)
  | .str s => .ok (s.toList.map fun c => .str (String.singleton c))
  | _ => .error .typeError

/-- The body of `list_models_v1` after `raise_for_status`. -/
def listModelsV1 (r : Response) : Except PyError (List String) :=
  match r.json with
  | .error e => .error e
  | .ok (.dict payload) =>
    let data := (payload.lookup "data").getD .null
    if data.truthy then (data.entries).map (List.filterMap modelId) else .ok []
  | .ok _ => .ok []

end OllamaProxy
