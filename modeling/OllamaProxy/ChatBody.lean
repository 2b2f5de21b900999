/-
# The body of a chat request

`chat_completions` reads the body with `json.loads`, validates what comes out,
and passes the dump of the validated request on. Of what `json.loads` raises it
expects a `JSONDecodeError` only, and the dump is outside of its handlers
(`answers_iff`).

Key definitions: `ChatCompletionRequest`, `modelValidate`, `chatCompletions`,
`Answers`.
Key theorems: `answers_iff`, `chatKind_modelDump`.
-/
import OllamaProxy.System
import OllamaProxy.UsageParse

namespace OllamaProxy

/-- What `json.loads` raises for bytes. A `UnicodeDecodeError` and the error for
an integer of too many digits are other `ValueError`s. -/
inductive LoadsError
  | jsonDecode (message : String)
  | unicodeDecode
  | valueError
  | recursionError

/-- What pydantic has validated. `extra` has the fields that the schema does not
name. -/
structure ChatCompletionRequest where
  model : String
  messages : List Payload
  stream : Bool
  temperature : Option PyFloat
  topP : Option PyFloat
  maxTokens : Option ℤ
  stop : Option (List String ⊕ String)
  presencePenalty : Option PyFloat
  frequencyPenalty : Option PyFloat
  user : Option String
  extra : Payload
  model_ne : model ≠ ""
  messages_ne : messages ≠ []

/-- `json.loads` and `json.dumps`, and pydantic: its conversions to `bool`,
`float` and `int`, the text of a `ValidationError`, and the dump of a value of
any type, `none` where it raises (a value that is nested too deep). -/
structure ChatLibrary where
  loads : List UInt8 → Except LoadsError Json
  dumps : String → String
  bool : Json → Option Bool
  float : Json → Option PyFloat
  int : Json → Option ℤ
  validationError : Json → String
  dumpAny : Json → Option Json

/-- Why the handler raises. -/
inductive ChatFault
  | loads (e : LoadsError)
  | dump

section

variable (lib : ChatLibrary)

/-! ### The schema -/

def Json.isNull : Json → Bool
  | .null => true
  | _ => false

def Json.asStr : Json → Option String
  | .str s => some s
  | _ => none

def Json.asMessages : Json → Option (List Payload)
  | .list xs => xs.mapM fun
    | .dict items => some items
    | _ => none
  | _ => none

def Json.asStop : Json → Option (List String ⊕ String)
  | .list xs => (xs.mapM Json.asStr).map .inl
  | .str s => some (.inr s)
  | _ => none

/-- A field of type `α | None`, with the default `None`. -/
def optionalField {α : Type} (payload : Payload) (key : String) (read : Json → Option α) : Option (Option α) :=
  match getItem payload key with
  | .null => some none
  | v => (read v).map some

def chatFields : List String :=
  ["model", "messages", "stream", "temperature", "top_p", "max_tokens", "stop", "presence_penalty",
    "frequency_penalty", "user"]

/-- `ChatCompletionRequest.model_validate`, `none` where it raises. -/
def modelValidate : Json → Option ChatCompletionRequest
  | .dict payload => do
    let model ← (payload.lookup "model").bind Json.asStr
    let messages ← (payload.lookup "messages").bind Json.asMessages
    let stream ← (payload.lookup "stream").elim (some false) lib.bool
    let temperature ← optionalField payload "temperature" lib.float
    let topP ← optionalField payload "top_p" lib.float
    let maxTokens ← optionalField payload "max_tokens" lib.int
    let stop ← optionalField payload "stop" Json.asStop
    let presencePenalty ← optionalField payload "presence_penalty" lib.float
    let frequencyPenalty ← optionalField payload "frequency_penalty" lib.float
    let user ← optionalField payload "user" Json.asStr
    if h : model ≠ "" ∧ messages ≠ [] then
      some {
        model, messages, stream, temperature, topP, maxTokens, stop, presencePenalty, frequencyPenalty, user
        extra := payload.filter (·.1 ∉ chatFields)
        model_ne := h.1
        messages_ne := h.2 }
    else none
  | _ => none

def dumpItems (items : Payload) : Option Payload := items.mapM fun item => (lib.dumpAny item.2).map (item.1, ·)

def dumpStop : List String ⊕ String → Json
  | .inl xs => .list (xs.map .str)
  | .inr s => .str s

/-- `validated.model_dump(exclude_none=True)`. -/
def modelDump (request : ChatCompletionRequest) : Option Payload := do
  let messages ← request.messages.mapM (dumpItems lib)
  let extra ← dumpItems lib (request.extra.filter fun item => !item.2.isNull)
  let fields : List (String × Option Json) :=
    [("model", some (.str request.model)), ("messages", some (.list (messages.map .dict))),
      ("stream", some (.bool request.stream)), ("temperature", request.temperature.map .float),
      ("top_p", request.topP.map .float), ("max_tokens", request.maxTokens.map .int),
      ("stop", request.stop.map dumpStop), ("presence_penalty", request.presencePenalty.map .float),
      ("frequency_penalty", request.frequencyPenalty.map .float), ("user", request.user.map .str)]
  return fields.filterMap (fun field => field.2.map (field.1, ·)) ++ extra

/-! ### The handler -/

/-- `Response(content=json.dumps({"detail": detail}).encode(), ...)`. -/
def detailResponse (statusCode : ℕ) (detail : String) : ClientResponse where
  statusCode := statusCode
  headers := []
  mediaType := "application/json"
  content := "\x7b\"detail\": " ++ lib.dumps detail ++ "\x7d"

/-- `execute` is `execute_with_rotation`, an error the text of what it raises. -/
def chatCompletions (execute : Payload → Except String ClientResponse) (rawBody : List UInt8) :
    Except ChatFault ClientResponse :=
  let loaded := if rawBody = [] then .ok (.dict []) else lib.loads rawBody
  match loaded with
  | .error (.jsonDecode message) => .ok (detailResponse lib 400 ("invalid JSON: " ++ message))
  | .error e => .error (.loads e)
  | .ok parsed =>
    match modelValidate lib parsed with
    | none => .ok (detailResponse lib 422 (lib.validationError parsed))
    | some validated =>
      match modelDump lib validated with
      | none => .error .dump
      | some body =>
        match execute body with
        | .ok response => .ok response
        | .error _ => .ok (detailResponse lib 503 "all backends failed")

/-- The handler answers 400 or 422, or passes a validated request on and answers
what comes back. -/
def Answers (execute : Payload → Except String ClientResponse) (rawBody : List UInt8) : Prop :=
  (∃ statusCode detail, (statusCode = 400 ∨ statusCode = 422) ∧
    chatCompletions lib execute rawBody = .ok (detailResponse lib statusCode detail)) ∨
  ∃ parsed validated body response, lib.loads rawBody = .ok parsed ∧ modelValidate lib parsed = some validated ∧
    modelDump lib validated = some body ∧ chatCompletions lib execute rawBody = .ok response ∧
      ∀ answer, execute body = .ok answer → response = answer

/-- The body is empty, is no JSON, or is read, with a request that is dumped if it
is valid. -/
def BodyReadable (rawBody : List UInt8) : Prop :=
  rawBody = [] ∨
    match lib.loads rawBody with
    | .ok parsed => ∀ validated, modelValidate lib parsed = some validated → (modelDump lib validated).isSome = true
    | .error e => ∃ message, e = .jsonDecode message

end

variable {lib : ChatLibrary} {rawBody : List UInt8} (execute : Payload → Except String ClientResponse)

theorem chatCompletions_empty (lib : ChatLibrary) : chatCompletions lib execute [] =
    .ok (detailResponse lib 422 (lib.validationError (.dict []))) := rfl

theorem chatCompletions_error (hbody : rawBody ≠ []) {e : LoadsError} (h : lib.loads rawBody = .error e) :
    chatCompletions lib execute rawBody =
      match e with
      | .jsonDecode message => .ok (detailResponse lib 400 ("invalid JSON: " ++ message))
      | e => .error (.loads e) := by
  simp only [chatCompletions, if_neg hbody, h]
  cases e <;> rfl

theorem chatCompletions_invalid (hbody : rawBody ≠ []) {parsed : Json} (h : lib.loads rawBody = .ok parsed)
    (hvalid : modelValidate lib parsed = none) :
    chatCompletions lib execute rawBody = .ok (detailResponse lib 422 (lib.validationError parsed)) := by
  simp only [chatCompletions, if_neg hbody, h, hvalid]

/-- What becomes of a valid request. -/
theorem chatCompletions_valid (hbody : rawBody ≠ []) {parsed : Json} {validated : ChatCompletionRequest}
    (h : lib.loads rawBody = .ok parsed) (hvalid : modelValidate lib parsed = some validated) :
    (modelDump lib validated = none ∧ chatCompletions lib execute rawBody = .error .dump) ∨
      ∃ body response, modelDump lib validated = some body ∧ chatCompletions lib execute rawBody = .ok response ∧
        ∀ answer, execute body = .ok answer → response = answer := by
  simp only [chatCompletions, if_neg hbody, h, hvalid]
  cases hdump : modelDump lib validated with
  | none => exact Or.inl ⟨rfl, rfl⟩
  | some body =>
    cases hexecute : execute body with
    | ok response =>
      refine Or.inr ⟨body, response, rfl, by simp only [hexecute], fun answer hanswer => ?_⟩
      rw [hexecute] at hanswer
      exact Except.ok.inj hanswer
    | error e =>
      refine Or.inr ⟨body, detailResponse lib 503 "all backends failed", rfl, by simp only [hexecute], ?_⟩
      intro answer hanswer
      rw [hexecute] at hanswer
      cases hanswer

/-- A body whose handler raises is not answered. -/
theorem not_answers_of_error {execute : Payload → Except String ClientResponse} {fault : ChatFault} (h : chatCompletions lib execute rawBody = .error fault) :
    ¬ Answers lib execute rawBody := by
  unfold Answers
  rw [h]
  rintro (⟨statusCode, detail, -, hok⟩ | ⟨parsed, validated, body, response, -, -, -, hok, -⟩)
  · cases hok
  · cases hok

/-- The body is answered exactly if it is empty, or `json.loads` reads it or says
that it is no JSON, and a valid request can be dumped. -/
theorem answers_iff (lib : ChatLibrary) (execute : Payload → Except String ClientResponse) (rawBody : List UInt8) :
    Answers lib execute rawBody ↔ BodyReadable lib rawBody := by
  unfold BodyReadable
  by_cases hbody : rawBody = []
  · subst hbody
    exact iff_of_true (Or.inl ⟨422, _, Or.inr rfl, chatCompletions_empty execute lib⟩) (Or.inl rfl)
  · rw [or_iff_right hbody]
    cases hloads : lib.loads rawBody with
    | error e =>
      have herror := chatCompletions_error execute hbody hloads
      cases e with
      | jsonDecode message => exact iff_of_true (Or.inl ⟨400, _, Or.inl rfl, herror⟩) ⟨message, rfl⟩
      | unicodeDecode => exact iff_of_false (not_answers_of_error herror) (by simp)
      | valueError => exact iff_of_false (not_answers_of_error herror) (by simp)
      | recursionError => exact iff_of_false (not_answers_of_error herror) (by simp)
    | ok parsed =>
      show _ ↔ ∀ validated, modelValidate lib parsed = some validated → (modelDump lib validated).isSome = true
      cases hvalid : modelValidate lib parsed with
      | none =>
        have hanswer := chatCompletions_invalid execute hbody hloads hvalid
        exact iff_of_true (Or.inl ⟨422, _, Or.inr rfl, hanswer⟩) fun validated h => by cases h
      | some validated =>
        rcases chatCompletions_valid execute hbody hloads hvalid with
          ⟨hdump, hraised⟩ | ⟨body, response, hdump, hok, hresponse⟩
        · refine iff_of_false (not_answers_of_error hraised) fun h => ?_
          have hsome := h validated rfl
          rw [hdump] at hsome
          cases hsome
        · refine iff_of_true (Or.inr ⟨parsed, validated, body, response, hloads, hvalid, hdump, hok, hresponse⟩) ?_
          intro validated' h
          cases h
          rw [hdump]
          rfl

/-! ### The request that is passed on -/

/-- What `execute_with_rotation` reads of the body. -/
def chatKind (body : Payload) : Kind :=
  .chat ((body.lookup "model").bind Json.asStr) (getItem body "stream").truthy

/-- The rotation gets the model and the stream flag that were validated. -/
theorem chatKind_modelDump {validated : ChatCompletionRequest} {body : Payload}
    (h : modelDump lib validated = some body) : chatKind body = .chat (some validated.model) validated.stream := by
  obtain ⟨messages, -, h⟩ := Option.bind_eq_some_iff.mp h
  obtain ⟨extra, -, h⟩ := Option.bind_eq_some_iff.mp h
  cases h
  rfl

namespace Sample

/-- `json.loads` of a body that is not UTF-8. -/
def latin : ChatLibrary where
  loads rawBody := if rawBody = [0xff] then .error .unicodeDecode else .error (.jsonDecode "")
  dumps s := s
  bool _ := none
  float _ := none
  int _ := none
  validationError _ := ""
  dumpAny := some

theorem undecodable_raises :
    chatCompletions latin (fun _ => .error "") [0xff] = .error (.loads .unicodeDecode) ∧
      ¬ Answers latin (fun _ => .error "") [0xff] := by
  have hraised : chatCompletions latin (fun _ => .error "") [0xff] = .error (.loads .unicodeDecode) := rfl
  exact ⟨hraised, not_answers_of_error hraised⟩

end Sample

end OllamaProxy
