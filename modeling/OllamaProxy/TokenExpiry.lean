/-
# The expiry that a client sends, and the one that is shown

Every input of `expires_at` is read as a datetime and converted to UTC by one of
three normalisers. The handlers around them expect a `ValueError`; `astimezone`
raises an `OverflowError` where the UTC year is not between 1 and 9999
(`clean_iff`).

The edit page of the dashboard formats the expiry that the backend hands over.
The backend hands over a JSON dump, whose datetimes are texts, and the formatter
expects a datetime (`edit_keeps_expiry_iff`).

Key definitions: `ExpiryRequest.perform`, `Clean`, `editUserTokenForm`.
Key theorems: `perform_clean_iff`, `clean_iff`, `edit_keeps_expiry_iff`.
-/
import OllamaProxy.Admission

namespace OllamaProxy

open Kit

/-! ### Requests with an expiry -/

/-- A request that can set an expiry, as the client sends it: a JSON value to the
admin API, a text to the dashboard. -/
inductive ExpiryRequest
  | createUserToken (label : String) (expiresAt : Json) (rawKey : String)
  | patchUserToken (id : ℕ) (label : Option (Option String)) (expiresAt : Json)
    (status : Option (Option UserTokenStatus))
  | createUserTokenSubmit (label expiresAt : String) (rawKey : String)
  | updateUserTokenSubmit (id : ℕ) (method : Option String) (label expiresAt clearExpiresAt : String)
    (status : String)

/-- What pydantic makes of a JSON value for a field `datetime | None`, an error
the message of its validation error. -/
abbrev DatetimeField := Json → Except String (Option DateTime)

section

variable (lib : Library) (datetime : DatetimeField)

/-- The field is read before the validators of the model run. -/
def readExpiry (v : Json) : Except TokenError (Option DateTime) := (datetime v).mapError (.invalid "expires_at")

namespace ExpiryRequest

/-- The request that the handlers get. -/
def op : ExpiryRequest → Except TokenError TokenOp
  | createUserToken label expiresAt rawKey =>
    (readExpiry datetime expiresAt).map fun expiresAt => .createUserToken { label, expiresAt } rawKey
  | patchUserToken id label expiresAt status =>
    (readExpiry datetime expiresAt).map fun expiresAt => .patchUserToken id { label, expiresAt := some expiresAt, status }
  | createUserTokenSubmit label expiresAt rawKey => .ok (.createUserTokenSubmit label expiresAt rawKey)
  | updateUserTokenSubmit id method label expiresAt clearExpiresAt status =>
    .ok (.updateUserTokenSubmit id method label expiresAt clearExpiresAt status)

def perform (now : ℤ) (t : TokenTable) (r : ExpiryRequest) : Except TokenError TokenTable :=
  r.op datetime >>= TokenOp.perform lib now t

end ExpiryRequest

/-- The datetime of a form's text, if it is one. -/
def formDatetime (raw : String) : Option DateTime :=
  if strip raw = "" then none else (lib.fromisoformat (strip raw)).toOption

/-- The datetime that the request's handler converts to UTC, if it comes to it. -/
def TokenOp.expiry : TokenOp → Option DateTime
  | createUserToken payload _ => payload.expiresAt
  | patchUserToken _ payload => payload.expiresAt.join
  | createUserTokenSubmit label expiresAt _ => if strip label = "" then none else formDatetime lib expiresAt
  | updateUserTokenSubmit _ method _ expiresAt _ status =>
    if method.getD "patch" = "patch" ∧ (formStatus lib status).isOk = true then formDatetime lib expiresAt else none
  | _ => none

def ExpiryRequest.expiry (r : ExpiryRequest) : Option DateTime := (r.op datetime).toOption.bind (TokenOp.expiry lib)

end

/-- An answer of the admin API or a redirect of the dashboard with a message. -/
def TokenError.isAnswer : TokenError → Bool
  | .invalid _ _ | .http _ _ | .flash _ => true
  | _ => false

/-- The request is accepted, with the instants that it asked for, or answered. -/
def Clean (lib : Library) (now : ℤ) (t : TokenTable) (change : Option Change) : Except TokenError TokenTable → Prop
  | .ok t' => TokenStep lib now t change t'
  | .error e => e.isAnswer = true

/-- The instant is in the years 1 to 9999. -/
def DateTime.InUtcYears (d : DateTime) : Prop := minInstant ≤ d.instant ∧ d.instant ≤ maxInstant

instance (d : DateTime) : Decidable d.InUtcYears := inferInstanceAs (Decidable (_ ∧ _))

theorem DateTime.toUtc_cases (d : DateTime) :
    (d.InUtcYears ∧ ∃ d', d.toUtc = .ok d') ∨ (¬ d.InUtcYears ∧ d.toUtc = .error .overflowError) := by
  unfold toUtc InUtcYears instant
  cases d.offset with
  | none =>
    refine Or.inl ⟨?_, _, rfl⟩
    simpa using d.inYears
  | some offset =>
    simp only [Option.getD_some, astimezoneUtc]
    by_cases h : minInstant ≤ d.wall - offset ∧ d.wall - offset ≤ maxInstant
    · rw [dif_pos h]
      exact Or.inl ⟨h, _, rfl⟩
    · rw [dif_neg h]
      exact Or.inr ⟨h, rfl⟩

/-! ### What is answered -/

section

variable {α β : Type}

/-- It fails with an answer only. -/
def Answered (x : Except TokenError α) : Prop := ∀ e, x = .error e → e.isAnswer = true

theorem answered_ok (a : α) : Answered (.ok a : Except TokenError α) := fun e he => by cases he

theorem answered_error_iff {e : TokenError} : Answered (.error e : Except TokenError α) ↔ e.isAnswer = true :=
  ⟨fun h => h e rfl, fun h e' he => by cases he; exact h⟩

theorem answered_bind {x : Except TokenError α} {f : α → Except TokenError β} :
    Answered (x >>= f) ↔ Answered x ∧ ∀ a, x = .ok a → Answered (f a) := by
  cases x with
  | error e =>
    rw [error_bind, answered_error_iff, answered_error_iff]
    exact ⟨fun h => ⟨h, fun a ha => by cases ha⟩, fun h => h.1⟩
  | ok a =>
    rw [ok_bind]
    exact ⟨fun h => ⟨answered_ok a, fun a' ha => by cases ha; exact h⟩, fun h => h.2 a rfl⟩

theorem answered_map {x : Except TokenError α} {f : α → β} : Answered (x.map f) ↔ Answered x := by
  cases x with
  | error e => exact answered_error_iff.trans answered_error_iff.symm
  | ok a => exact iff_of_true (answered_ok _) (answered_ok _)

end

variable {lib : Library} {now : ℤ} {t : TokenTable}

theorem normaliseExpiresAt_answered_iff (v : Option DateTime) :
    Answered (normaliseExpiresAt v) ↔ ∀ d, v = some d → d.InUtcYears := by
  cases v with
  | none => exact iff_of_true (answered_ok none) fun d hd => by cases hd
  | some d =>
    rcases d.toUtc_cases with ⟨hyears, d', hd'⟩ | ⟨hyears, herror⟩
    · simp only [normaliseExpiresAt, hd']
      refine iff_of_true (answered_ok _) fun d' hd' => ?_
      cases hd'
      exact hyears
    · simp only [normaliseExpiresAt, herror]
      refine iff_of_false (fun h => ?_) fun h => hyears (h d rfl)
      cases h _ rfl

theorem stripLabel_answered (minLength : ℕ) (message v : String) : Answered (stripLabel minLength message v) := by
  unfold stripLabel
  split_ifs
  · exact answered_error_iff.mpr rfl
  · exact answered_error_iff.mpr rfl
  · exact answered_error_iff.mpr rfl
  · exact answered_ok _

theorem UserTokenCreate.validate_answered_iff (payload : UserTokenCreate) :
    Answered (payload.validate) ↔ ∀ d, payload.expiresAt = some d → d.InUtcYears := by
  rw [validate, answered_bind, normaliseExpiresAt_answered_iff]
  refine and_iff_left fun v hv => ?_
  rw [answered_bind]
  exact ⟨stripLabel_answered 1 "label must not be blank" payload.label, fun label _ => answered_ok _⟩

theorem UserTokenUpdate.validate_answered_iff (payload : UserTokenUpdate) :
    Answered (payload.validate) ↔ ∀ d, payload.expiresAt.join = some d → d.InUtcYears := by
  have hlabel : Answered (payload.label.elim (.ok none) fun v => (v.elim (.ok none) fun v =>
      (stripLabel 0 "label must not be blank when provided" v).map some).map some) := by
    cases payload.label with
    | none => exact answered_ok none
    | some v =>
      cases v with
      | none => exact answered_ok _
      | some v => exact answered_map.mpr (answered_map.mpr (stripLabel_answered 0 _ v))
  have hexpiry : Answered (payload.expiresAt.elim (.ok none) fun v => (normaliseExpiresAt v).map some) ↔
      ∀ d, payload.expiresAt.join = some d → d.InUtcYears := by
    cases payload.expiresAt with
    | none => exact iff_of_true (answered_ok none) fun d hd => by cases hd
    | some v => exact answered_map.trans (normaliseExpiresAt_answered_iff v)
  rw [validate, answered_bind, hexpiry]
  refine and_iff_left fun v hv => ?_
  rw [answered_bind]
  exact ⟨hlabel, fun label _ => answered_ok _⟩

/-- The service refuses an expiry in UTC with a `ValueError` only. -/
theorem createToken_error {label rawKey : String} {expiresAt : Option DateTime} (hutc : Utc expiresAt) {e : TokenError}
    (h : createToken lib t label expiresAt rawKey now = .error e) : ∃ message, e = .valueError message := by
  unfold createToken at h
  simp only at h
  split at h
  · rename_i e' hpast
    cases expiresAt with
    | none => cases hpast
    | some d =>
      have hoff : d.offset = some 0 := hutc d rfl
      simp [DateTime.leNow, hoff] at hpast
  · cases h
    exact ⟨_, rfl⟩
  · split_ifs at h
    cases h
    exact ⟨_, rfl⟩

theorem createToken_answered {label rawKey : String} {expiresAt : Option DateTime} (hutc : Utc expiresAt)
    {f : TokenError → TokenError} (hf : ∀ message, (f (.valueError message)).isAnswer = true) :
    Answered ((createToken lib t label expiresAt rawKey now).mapError f) := by
  cases hcreate : createToken lib t label expiresAt rawKey now with
  | ok t' => exact answered_ok t'
  | error e =>
    obtain ⟨message, rfl⟩ := createToken_error hutc hcreate
    exact answered_error_iff.mpr (hf message)

theorem formStatus_answered (raw : String) : Answered (formStatus lib raw) := by
  unfold formStatus
  simp only
  split_ifs
  · exact answered_ok _
  · exact answered_ok _
  · exact answered_ok _
  · exact answered_error_iff.mpr rfl

theorem formExpiry_answered_iff (raw : String) :
    Answered (formExpiry lib raw) ↔ ∀ d, formDatetime lib raw = some d → d.InUtcYears := by
  unfold formExpiry parseUserTokenExpiry formDatetime
  simp only
  split_ifs with hblank
  · exact iff_of_true (answered_ok none) fun d hd => by cases hd
  · cases hiso : lib.fromisoformat (strip raw) with
    | error message => exact iff_of_true (answered_error_iff.mpr rfl) fun d hd => by cases hd
    | ok d =>
      rcases d.toUtc_cases with ⟨hyears, d', hd'⟩ | ⟨hyears, herror⟩
      · simp only [hd']
        refine iff_of_true (answered_ok _) fun d' hd' => ?_
        cases hd'
        exact hyears
      · simp only [herror]
        refine iff_of_false (fun h => ?_) fun h => hyears (h d rfl)
        cases h _ rfl

/-! ### Every request -/

theorem clean_iff_answered {op : TokenOp} :
    Clean lib now t (op.change lib) (op.perform lib now t) ↔ Answered (op.perform lib now t) := by
  cases hperform : op.perform lib now t with
  | error e => exact answered_error_iff.symm
  | ok t' => exact iff_of_true (perform_step hperform) (answered_ok t')

theorem createUserToken_answered_iff (payload : UserTokenCreate) (rawKey : String) :
    Answered ((TokenOp.createUserToken payload rawKey).perform lib now t) ↔
      ∀ d, payload.expiresAt = some d → d.InUtcYears := by
  rw [← UserTokenCreate.validate_answered_iff, TokenOp.perform, answered_bind]
  refine and_iff_left fun p hp => ?_
  exact createToken_answered (UserTokenCreate.validate_eq_ok hp).1 fun message => rfl

theorem patchUserToken_answered_iff (id : ℕ) (payload : UserTokenUpdate) :
    Answered ((TokenOp.patchUserToken id payload).perform lib now t) ↔
      ∀ d, payload.expiresAt.join = some d → d.InUtcYears := by
  rw [← UserTokenUpdate.validate_answered_iff, TokenOp.perform, answered_bind]
  refine and_iff_left fun p hp => ?_
  rw [answered_bind]
  refine ⟨?_, fun _ _ => ?_⟩
  · unfold pathId
    split_ifs
    · exact answered_error_iff.mpr rfl
    · exact answered_ok _
  · split
    · exact answered_error_iff.mpr rfl
    · split_ifs
      · exact answered_ok t
      · exact answered_ok _

theorem createUserTokenSubmit_answered_iff (label expiresAt rawKey : String) :
    Answered ((TokenOp.createUserTokenSubmit label expiresAt rawKey).perform lib now t) ↔
      ∀ d, (TokenOp.createUserTokenSubmit label expiresAt rawKey).expiry lib = some d → d.InUtcYears := by
  simp only [TokenOp.perform, TokenOp.expiry]
  split_ifs
  · exact iff_of_true (answered_error_iff.mpr rfl) fun d hd => by cases hd
  · rw [← formExpiry_answered_iff, answered_bind]
    refine and_iff_left fun v hv => ?_
    exact createToken_answered (formExpiry_eq_ok hv).1 fun message => rfl

theorem updateUserTokenSubmit_answered_iff (id : ℕ) (method : Option String)
    (label expiresAt clearExpiresAt status : String) :
    Answered ((TokenOp.updateUserTokenSubmit id method label expiresAt clearExpiresAt status).perform lib now t) ↔
      ∀ d, (TokenOp.updateUserTokenSubmit id method label expiresAt clearExpiresAt status).expiry lib = some d →
        d.InUtcYears := by
  simp only [TokenOp.perform, TokenOp.expiry]
  by_cases hmethod : method.getD "patch" = "patch"
  · rw [if_neg (not_not.mpr hmethod), answered_bind]
    cases hstatus : formStatus lib status with
    | error e =>
      have he : e.isAnswer = true := formStatus_answered status e hstatus
      simp only [Except.isOk, Except.toBool, Bool.false_eq_true, and_false, if_false]
      exact iff_of_true ⟨answered_error_iff.mpr he, fun s hs => by cases hs⟩ fun d hd => by cases hd
    | ok s =>
      simp only [hmethod, Except.isOk, Except.toBool, and_self, if_true]
      rw [← formExpiry_answered_iff, and_iff_right (answered_ok s)]
      simp only [Except.ok.injEq, forall_eq', answered_bind]
      refine and_iff_left fun v hv => ?_
      split
      · exact answered_error_iff.mpr rfl
      · exact answered_ok _
  · rw [if_pos hmethod, if_neg fun h => hmethod h.1]
    exact iff_of_true (answered_error_iff.mpr rfl) fun d hd => by cases hd

theorem op_answered (datetime : DatetimeField) (r : ExpiryRequest) : Answered (r.op datetime) := by
  have hread : ∀ v, Answered (readExpiry datetime v) := by
    intro v
    unfold readExpiry
    cases datetime v with
    | error message => exact answered_error_iff.mpr rfl
    | ok d => exact answered_ok d
  cases r with
  | createUserToken label expiresAt rawKey => exact answered_map.mpr (hread expiresAt)
  | patchUserToken id label expiresAt status => exact answered_map.mpr (hread expiresAt)
  | createUserTokenSubmit label expiresAt rawKey => exact answered_ok _
  | updateUserTokenSubmit id method label expiresAt clearExpiresAt status => exact answered_ok _

theorem perform_answered_iff {datetime : DatetimeField} {r : ExpiryRequest} {op : TokenOp}
    (h : r.op datetime = .ok op) :
    Answered (op.perform lib now t) ↔ ∀ d, op.expiry lib = some d → d.InUtcYears := by
  cases r with
  | createUserToken label expiresAt rawKey =>
    obtain ⟨v, -, rfl⟩ := map_eq_ok.mp h
    exact createUserToken_answered_iff _ rawKey
  | patchUserToken id label expiresAt status =>
    obtain ⟨v, -, rfl⟩ := map_eq_ok.mp h
    exact patchUserToken_answered_iff id _
  | createUserTokenSubmit label expiresAt rawKey =>
    cases h
    exact createUserTokenSubmit_answered_iff label expiresAt rawKey
  | updateUserTokenSubmit id method label expiresAt clearExpiresAt status =>
    cases h
    exact updateUserTokenSubmit_answered_iff id method label expiresAt clearExpiresAt status

namespace Sample

/-- The library, as it behaves on the first hour of the year 1 on a clock that is
an hour ahead of UTC. -/
def hourAhead : Library where
  hashKey := id
  lower := id
  repr := id
  fromisoformat raw :=
    if raw = "0001-01-01T00:00:00+01:00" then .ok ⟨minInstant, some (seconds 3600), by decide⟩
    else .error "Invalid isoformat string"
  schemeParam _ := ("", "")

def yearOne : ExpiryRequest := .createUserTokenSubmit "ci" "0001-01-01T00:00:00+01:00" "opk_a"

end Sample

/-! ### The edit page -/

/-- What a helper is given for a datetime. -/
inductive ExpiryValue
  | missing
  | datetime (d : DateTime)
  | text (s : String)

/-- `dump` and `dumpInstant` are what `model_dump(mode="json")` makes of a
datetime. -/
structure FormLibrary extends Library where
  dump : DateTime → String
  dumpInstant : ℤ → String
  strftime : String → DateTime → String

/-- `UserTokenOut.model_dump(mode="json")`. -/
structure UserTokenOut where
  id : ℕ
  label : String
  keyPreview : String
  status : UserTokenStatus
  expiresAt : Option String
  lastUsedAt : Option String
  totalRequests : ℕ
  createdAt : String
  updatedAt : String

/-- What the template of the edit page is rendered with. -/
structure EditPage where
  token : UserTokenOut
  validStatuses : List String
  expiresAtValue : String

def UserToken.keyPreview (token : UserToken) : String :=
  if token.keyPrefix = "" then "" else token.keyPrefix ++ "…"

section

variable (lib : FormLibrary)

/-- `UserTokenOut.from_orm_token`, and the dump. -/
def UserToken.toOut (id : ℕ) (token : UserToken) : UserTokenOut where
  id := id
  label := token.label
  keyPreview := token.keyPreview
  status := token.status
  expiresAt := token.expiresAt.map lib.dump
  lastUsedAt := token.lastUsedAt.map lib.dumpInstant
  totalRequests := token.totalRequests
  createdAt := lib.dumpInstant token.createdAt
  updatedAt := lib.dumpInstant token.updatedAt

/-- The backend's `get_user_token`, and the redirect where it finds none. -/
def getUserToken (t : TokenTable) (id : ℕ) : Except TokenError UserTokenOut :=
  match t.get? id with
  | none => .error (.flash "in-process error 404: user token not found")
  | some token => .ok (token.toOut lib id)

/-- `_format_user_token_expiry`; a text has no `tzinfo`. -/
def formatUserTokenExpiry : ExpiryValue → Except PyError String
  | .missing => .ok ""
  | .text _ => .error .attributeError
  | .datetime d => d.toUtc.map (lib.strftime "%Y-%m-%dT%H:%M")

def editUserTokenForm (t : TokenTable) (id : ℕ) : Except TokenError EditPage := do
  let token ← getUserToken lib t id
  let expiresAtValue ← (formatUserTokenExpiry lib (token.expiresAt.elim .missing .text)).mapError .raised
  return { token, validStatuses := ["active", "revoked"], expiresAtValue }

/-- The page renders, its text for the expiry is read as the stored instant, and
posting it back unticked, with whatever else, leaves that instant. -/
def KeepsExpiry (t : TokenTable) (id : ℕ) (token : UserToken) : Prop :=
  ∃ page, editUserTokenForm lib t id = .ok page ∧
    (∃ expiresAt, parseUserTokenExpiry lib.toLibrary page.expiresAtValue = .ok expiresAt ∧
      expiresAt.map (·.instant) = token.expiresAt.map (·.instant)) ∧
    ∀ (method : Option String) (label clearExpiresAt status : String) (now : ℤ) (t' : TokenTable),
      clearFlag lib.toLibrary clearExpiresAt = false →
      (TokenOp.updateUserTokenSubmit id method label page.expiresAtValue clearExpiresAt status).perform
        lib.toLibrary now t = .ok t' →
      (t'.get? id).map (fun token => token.expiresAt.map (·.instant)) = some (token.expiresAt.map (·.instant))

end

/-- Posting no expiry, unticked, leaves the instant that is stored. -/
theorem updateUserTokenSubmit_blank {id : ℕ} {token : UserToken} {method : Option String}
    {label raw clearExpiresAt status : String} {t' : TokenTable} (hrow : t.get? id = some token)
    (hblank : strip raw = "") (hclear : clearFlag lib clearExpiresAt = false)
    (h : (TokenOp.updateUserTokenSubmit id method label raw clearExpiresAt status).perform lib now t = .ok t') :
    (t'.get? id).map (fun token => token.expiresAt.map (·.instant)) = some (token.expiresAt.map (·.instant)) := by
  have hchange : (TokenOp.updateUserTokenSubmit id method label raw clearExpiresAt status).change lib =
      some (.amend id (formStatus lib status).toOption.join none) := by
    simp [TokenOp.change, formInstant, hblank, hclear]
  have hgrants := (perform_step h).grants
  rw [hchange] at hgrants
  have hgrant : (t'.get? id).map UserToken.grant =
      some (token.grant.amend (formStatus lib status).toOption.join none) := by
    have hget := congrArg (Table.get? · id) hgrants
    simp only [grants, Table.get?_map, Option.toList_some, List.foldl_cons, List.foldl_nil, Change.apply,
      Table.get?_modify_self, hrow, Option.map_some] at hget
    exact hget
  calc (t'.get? id).map (fun token => token.expiresAt.map (·.instant))
      = ((t'.get? id).map UserToken.grant).map Grant.expiry := by rw [Option.map_map]; rfl
    _ = some (token.expiresAt.map (·.instant)) := by rw [hgrant]; rfl

/-- Editing a token keeps its expiry exactly if it has none. -/
theorem edit_keeps_expiry_iff {lib : FormLibrary} {id : ℕ} {token : UserToken} (hrow : t.get? id = some token) :
    KeepsExpiry lib t id token ↔ token.expiresAt = none := by
  have hstrip : strip "" = "" := rfl
  have hget : getUserToken lib t id = .ok (token.toOut lib id) := by rw [getUserToken, hrow]
  have hpage : editUserTokenForm lib t id =
      ((formatUserTokenExpiry lib ((token.expiresAt.map lib.dump).elim .missing .text)).mapError .raised).map
        fun value => ⟨token.toOut lib id, ["active", "revoked"], value⟩ := by
    rw [editUserTokenForm, hget]
    rfl
  unfold KeepsExpiry
  rw [hpage]
  cases hexpiry : token.expiresAt with
  | some d =>
    refine iff_of_false ?_ (by simp)
    rintro ⟨page, hpage, -⟩
    cases hpage
  | none =>
    refine iff_of_true ⟨_, rfl, ⟨none, ?_, rfl⟩, ?_⟩ rfl
    · simp [parseUserTokenExpiry, hstrip]
    · intro method label clearExpiresAt status now t' hclear h
      have hkept := updateUserTokenSubmit_blank hrow hstrip hclear h
      rw [hexpiry] at hkept
      exact hkept

namespace Sample

def form : FormLibrary where
  toLibrary := hourAhead
  dump _ := "2030-01-01T00:00:00"
  dumpInstant _ := ""
  strftime _ _ := ""

/-- A table with one token. -/
def tokens (expiresAt : Option DateTime) : TokenTable :=
  .insert .empty (.new "opk_a" "opk_a" "ci" expiresAt 0)

theorem edit_keeps_expiry_iff_unlimited : KeepsExpiry form (tokens none) 1 (.new "opk_a" "opk_a" "ci" none 0) :=
  (edit_keeps_expiry_iff (by decide)).mpr rfl

/-- The page of a token that expires in 2030. -/
theorem limited_raises :
    (tokens (some ⟨1893456000000000, some 0, by decide⟩)).get? 1 =
        some (.new "opk_a" "opk_a" "ci" (some ⟨1893456000000000, some 0, by decide⟩) 0) ∧
      editUserTokenForm form (tokens (some ⟨1893456000000000, some 0, by decide⟩)) 1 =
        .error (.raised .attributeError) ∧
      ¬ KeepsExpiry form (tokens (some ⟨1893456000000000, some 0, by decide⟩)) 1
        (.new "opk_a" "opk_a" "ci" (some ⟨1893456000000000, some 0, by decide⟩) 0) := by
  have hraised : editUserTokenForm form (tokens (some ⟨1893456000000000, some 0, by decide⟩)) 1 =
      .error (.raised .attributeError) := rfl
  refine ⟨by decide, hraised, ?_⟩
  rintro ⟨page, hpage, -⟩
  rw [hraised] at hpage
  cases hpage

end Sample

end OllamaProxy
