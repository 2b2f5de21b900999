/-
# Flash messages and the created pages

A post ends with a redirect and a flash message in a signed cookie, the JSON text
of its level and text, which the next page reads once. `key_created` and
`user_token_created` show a new secret that way: the message of the creation is
the secret behind a mark, and any other message is none.

No other message starts with a mark, so whatever cookies the visitors put
together, the pages show to a visitor who is logged in the secrets that were
created in the last 61 seconds, and nothing else (`shown_created`). And the page
shows just the secret that was created, whatever its characters
(`created_shown`).

Key definitions: `flashText`, `readFlashText`, `Submit.backend`,
`shownSecret`, `Pages.step`.
Key theorems: `flashRead_eq`, `Submit.of_mark`, `shown_created`,
`created_shown`.
-/
import OllamaProxy.DashboardAuth
import OllamaProxy.Lib.JsonText

namespace OllamaProxy

open Kit JsonText

/-! ### The text of a message -/

def FlashLevel.text : FlashLevel → String
  | .ok => "ok"
  | .error => "error"

def FlashLevel.ofText (s : List Char) : Option FlashLevel :=
  if s = "ok".toList then some .ok else if s = "error".toList then some .error else none

/-- `json.dumps({"level": level, "msg": msg})`. -/
def flashText (level : FlashLevel) (msg : String) : String :=
  dumps true (.dict [("level".toList, .str level.text.toList), ("msg".toList, .str msg.toList)])

/-- `flash_read`, after the signature is checked. -/
def readFlashText (raw : String) : Option (FlashLevel × String) :=
  match loads raw with
  | some (.dict items) =>
    match items.lookup "level".toList, items.lookup "msg".toList with
    | some (.str level), some (.str msg) =>
      (FlashLevel.ofText level).bind fun level =>
        if strip (String.ofList msg) = "" then none else some (level, String.ofList msg)
    | _, _ => none
  | _ => none

/-- A message reads back from its text, unless it is blank. -/
theorem readFlashText_flashText (level : FlashLevel) (msg : String) :
    readFlashText (flashText level msg) = if strip msg = "" then none else some (level, msg) := by
  have hread : loads (flashText level msg) =
      some (.dict [("level".toList, .str level.text.toList), ("msg".toList, .str msg.toList)]) := by
    refine (loads_dumps_iff _ _).mpr ⟨?_, trivial, trivial, trivial⟩
    simp only [List.map_cons, List.map_nil]
    decide
  have hlevel : FlashLevel.ofText level.text.toList = some level := by cases level <;> rfl
  unfold readFlashText
  rw [hread]
  simp [List.lookup, hlevel]

/-- `flash_read` reads the text that `flash_put` has signed. -/
theorem DashboardAuth.flashRead_eq {ω : Type} (auth : DashboardAuth ω) (now : ℤ) (value : Option ω) :
    auth.flashRead now value =
      match value.bind (auth.signer.accept flashMaxAge now flashSalt) with
      | some (.flash level msg) => readFlashText (flashText level msg)
      | _ => none := by
  unfold flashRead
  cases value.bind (auth.signer.accept flashMaxAge now flashSalt) with
  | none => rfl
  | some blob =>
    cases blob with
    | flash level msg => exact (readFlashText_flashText _ _).symm
    | text sid => rfl
    | token sid t => rfl

/-! ### The handlers' messages -/

/-- A `DashboardClientError`, with the detail of its body if it has one. -/
structure ClientError where
  statusCode : ℕ
  detail : Option String
  inProcess : Bool := true

def ClientError.short (e : ClientError) : String :=
  let start := if e.inProcess then "in-process error" else "proxy returned"
  match e.detail with
  | some detail => start ++ " " ++ toString e.statusCode ++ ": " ++ detail
  | none => start ++ " " ++ toString e.statusCode

/-- What the backend's `health` and `reset_states` return. -/
structure Health where
  status : String
  activeKeys : ℕ
  depletedKeys : ℕ
  disabledKeys : ℕ

def Health.level (h : Health) : FlashLevel := if h.status = "ok" then .ok else .error

/-- `str(x)`, of a bool and of an int that may be `None`. -/
def pyBool (b : Bool) : String := if b then "True" else "False"
def pyOptional (n : Option ℕ) : String := n.elim "None" toString

/-- `sorted(...)` of the status values, as it is formatted. -/
def keyStatuses : String := "['active', 'depleted', 'disabled']"
def tokenStatuses : String := "['active', 'revoked']"

/-- How an edit form ends before the call of the backend. -/
inductive EditFault
  | method (m : String)
  | status (repr : String)
  | expiry (exc : String)

def EditFault.text (statuses : String) : EditFault → String
  | .method m => "unsupported method: " ++ m
  | .status repr => "invalid status " ++ repr ++ "; expected one of " ++ statuses
  | .expiry exc => "invalid expires_at (" ++ exc ++ "); expected YYYY-MM-DDTHH:MM[:SS]"

def refreshHealth : Except ClientError Health → Backend
  | .error e => .flash "/dashboard" .error ("health check failed: " ++ e.short)
  | .ok h => .flash "/dashboard" h.level
      ("health: " ++ h.status ++ " (active=" ++ toString h.activeKeys ++ ", depleted=" ++ toString h.depletedKeys ++
        ", disabled=" ++ toString h.disabledKeys ++ ")")

/-- With the `raw_key` of the backend's answer. -/
def createKeySubmit : Except ClientError String → Backend
  | .error e => .flash "/dashboard/keys/new" .error e.short
  | .ok rawKey =>
    if rawKey = "" then
      .flash "/dashboard" .error "key created, but proxy did not return raw_key — recreate and check logs"
    else .flash "/dashboard/keys/created" .ok ("NEW_KEY::" ++ rawKey)

/-- With the number of the results, and of those that are `ok`. -/
def testAllSubmit : Except ClientError (ℕ × ℕ) → Backend
  | .error e => .flash "/dashboard" .error e.short
  | .ok (total, okCount) =>
    .flash "/dashboard" (if total - okCount = 0 then .ok else .error)
      ("test-all: total=" ++ toString total ++ " ok=" ++ toString okCount ++ " fail=" ++ toString (total - okCount))

def resetStatesSubmit : Except ClientError Health → Backend
  | .error e => .flash "/dashboard" .error e.short
  | .ok h => .flash "/dashboard" h.level
      ("reset: status=" ++ h.status ++ " active=" ++ toString h.activeKeys ++ " depleted=" ++ toString h.depletedKeys ++
        " disabled=" ++ toString h.disabledKeys)

def updateKeySubmit (keyId : ℤ) : Except (EditFault ⊕ ClientError) Unit → Backend
  | .error (.inl fault) => .flash ("/dashboard/keys/" ++ toString keyId) .error (fault.text keyStatuses)
  | .error (.inr e) => .flash ("/dashboard/keys/" ++ toString keyId) .error e.short
  | .ok () => .flash "/dashboard" .ok ("key " ++ toString keyId ++ " updated")

def deleteKeySubmit (keyId : ℤ) : Except ClientError Unit → Backend
  | .error e => .flash "/dashboard" .error e.short
  | .ok () => .flash "/dashboard" .ok ("key " ++ toString keyId ++ " deleted")

/-- With the `ok`, `status_code` and `error` of the result. -/
def testKeySubmit (keyId : ℤ) : Except ClientError (Bool × Option ℕ × String) → Backend
  | .error e => .flash "/dashboard" .error e.short
  | .ok (ok, code, error) =>
    .flash "/dashboard" (if ok then .ok else .error)
      ("key " ++ toString keyId ++ ": ok=" ++ pyBool ok ++ " status_code=" ++ pyOptional code ++
        if error = "" then "" else " error=" ++ error)

/-- With the `upstream_status` and `upstream_error` of the snapshot. -/
def keyUsageRefreshSubmit (keyId : ℤ) : Except ClientError (String × String) → Backend
  | .error e => .flash ("/dashboard/keys/" ++ toString keyId ++ "/usage") .error e.short
  | .ok (status, error) =>
    if status = "ok" then
      .flash ("/dashboard/keys/" ++ toString keyId ++ "/usage") .ok ("key " ++ toString keyId ++ ": usage refreshed")
    else
      .flash ("/dashboard/keys/" ++ toString keyId ++ "/usage") .error
        (strip ("key " ++ toString keyId ++ ": refresh failed (" ++ (if status = "" then "unknown" else status) ++
          ") " ++ error))

/-- With the number of the results, and of those that are not `ok`. -/
def usageRefreshAllSubmit : Except ClientError (ℕ × ℕ) → Backend
  | .error e => .flash "/dashboard" .error e.short
  | .ok (total, failures) =>
    if total = 0 then .flash "/dashboard" .ok "no active keys to refresh"
    else if failures = 0 then .flash "/dashboard" .ok ("refreshed " ++ toString total ++ " active keys")
    else
      .flash "/dashboard" .error ("refreshed " ++ toString (total - failures) ++ "/" ++ toString total ++
        " active keys (" ++ toString failures ++ " failed)")

/-- How the form of a new token ends before the call of the backend. -/
inductive TokenFault
  | label
  | expiry (exc : String)

def createUserTokenSubmit : Except (TokenFault ⊕ ClientError) String → Backend
  | .error (.inl .label) => .flash "/dashboard/user-tokens/new" .error "label is required"
  | .error (.inl (.expiry exc)) =>
    .flash "/dashboard/user-tokens/new" .error ((EditFault.expiry exc).text tokenStatuses)
  | .error (.inr e) => .flash "/dashboard/user-tokens/new" .error e.short
  | .ok rawKey =>
    if rawKey = "" then
      .flash "/dashboard/user-tokens" .error
        "token created, but proxy did not return raw_key — recreate and check logs"
    else .flash "/dashboard/user-tokens/created" .ok ("NEW_TOKEN::" ++ rawKey)

def updateUserTokenSubmit (tokenId : ℤ) : Except (EditFault ⊕ ClientError) Unit → Backend
  | .error (.inl fault) => .flash ("/dashboard/user-tokens/" ++ toString tokenId) .error (fault.text tokenStatuses)
  | .error (.inr e) => .flash ("/dashboard/user-tokens/" ++ toString tokenId) .error e.short
  | .ok () => .flash "/dashboard/user-tokens" .ok ("token " ++ toString tokenId ++ " updated")

def deleteUserTokenSubmit (tokenId : ℤ) : Except ClientError Unit → Backend
  | .error e => .flash "/dashboard/user-tokens" .error e.short
  | .ok () => .flash "/dashboard/user-tokens" .ok ("token " ++ toString tokenId ++ " deleted")

/-- A post's handler, with what its call of the backend has given; `raises` is an
exception of another type. -/
inductive Submit
  | refreshHealth (r : Except ClientError Health)
  | createKey (r : Except ClientError String)
  | testAll (r : Except ClientError (ℕ × ℕ))
  | resetStates (r : Except ClientError Health)
  | updateKey (keyId : ℤ) (r : Except (EditFault ⊕ ClientError) Unit)
  | deleteKey (keyId : ℤ) (r : Except ClientError Unit)
  | testKey (keyId : ℤ) (r : Except ClientError (Bool × Option ℕ × String))
  | keyUsageRefresh (keyId : ℤ) (r : Except ClientError (String × String))
  | usageRefreshAll (r : Except ClientError (ℕ × ℕ))
  | createUserToken (r : Except (TokenFault ⊕ ClientError) String)
  | updateUserToken (tokenId : ℤ) (r : Except (EditFault ⊕ ClientError) Unit)
  | deleteUserToken (tokenId : ℤ) (r : Except ClientError Unit)
  | raises (statusCode : ℕ) (detail : String)

def Submit.backend : Submit → Backend
  | .refreshHealth r => OllamaProxy.refreshHealth r
  | .createKey r => createKeySubmit r
  | .testAll r => testAllSubmit r
  | .resetStates r => resetStatesSubmit r
  | .updateKey keyId r => updateKeySubmit keyId r
  | .deleteKey keyId r => deleteKeySubmit keyId r
  | .testKey keyId r => testKeySubmit keyId r
  | .keyUsageRefresh keyId r => keyUsageRefreshSubmit keyId r
  | .usageRefreshAll r => usageRefreshAllSubmit r
  | .createUserToken r => createUserTokenSubmit r
  | .updateUserToken tokenId r => updateUserTokenSubmit tokenId r
  | .deleteUserToken tokenId r => deleteUserTokenSubmit tokenId r
  | .raises statusCode detail => .raises statusCode detail

/-- The handler is one for the post; `refresh_health` does not rotate the CSRF
token, and any handler may raise. -/
def Submit.Fits (post : Post) : Submit → Prop
  | .refreshHealth _ => post = .refreshHealth
  | .raises _ _ => True
  | _ => post = .submit

instance (post : Post) (sub : Submit) : Decidable (sub.Fits post) := by
  cases sub <;> unfold Submit.Fits <;> infer_instance

/-! ### Marks -/

/-- The two created pages. -/
inductive CreatedPage
  | key
  | token
deriving DecidableEq

/-- `NEW_KEY::` and `NEW_TOKEN::`. -/
def CreatedPage.mark : CreatedPage → List Char
  | .key => ['N', 'E', 'W', '_', 'K', 'E', 'Y', ':', ':']
  | .token => ['N', 'E', 'W', '_', 'T', 'O', 'K', 'E', 'N', ':', ':']

/-- What the page takes a message for. -/
def CreatedPage.secret (page : CreatedPage) (msg : String) : Option String :=
  if page.mark.isPrefixOf msg.toList then some (String.ofList (msg.toList.drop page.mark.length)) else none

/-- The secret that the post has created, and the page that shows it. -/
def Submit.created : Submit → Option (CreatedPage × String)
  | .createKey (.ok rawKey) => if rawKey = "" then none else some (.key, rawKey)
  | .createUserToken (.ok rawKey) => if rawKey = "" then none else some (.token, rawKey)
  | _ => none

/-! ### No other message has a mark -/

def Starts (c : Char) (s : String) : Prop := s.toList.head? = some c

theorem Starts.append {c : Char} {a : String} (h : Starts c a) (b : String) : Starts c (a ++ b) := by
  unfold Starts at *
  rw [String.toList_append, List.head?_append, h]
  rfl

/-- A text that starts with no space is not stripped of its start. -/
theorem Starts.strip {c : Char} {s : String} (h : Starts c s) (hc : isSpace c = false) : Starts c (strip s) := by
  obtain ⟨rest, hs⟩ : ∃ rest, s.toList = c :: rest := List.head?_eq_some_iff.mp h
  have hdrop : s.toList.dropWhile isSpace = c :: rest := by rw [hs, List.dropWhile_cons_of_neg (by simp [hc])]
  have hstarts : (c :: rest).rdropWhile isSpace <+: c :: rest := List.rdropWhile_prefix isSpace _
  have hne : (c :: rest).rdropWhile isSpace ≠ [] := by
    rw [Ne, List.rdropWhile_eq_nil_iff]
    intro hall
    have hspace := hall c List.mem_cons_self
    rw [hc] at hspace
    cases hspace
  rw [Starts, OllamaProxy.strip, String.toList_ofList, hdrop]
  change ((c :: rest).rdropWhile isSpace).head? = some c
  cases hkept : (c :: rest).rdropWhile isSpace with
  | nil => exact absurd hkept hne
  | cons d ds =>
    rw [hkept, List.cons_prefix_cons] at hstarts
    rw [hstarts.1]
    rfl

/-- The text starts with something else than the marks. -/
def Unmarked (s : String) : Prop := ∃ c, Starts c s ∧ c ≠ 'N'

theorem Unmarked.append {a : String} (h : Unmarked a) (b : String) : Unmarked (a ++ b) := by
  obtain ⟨c, ha, hc⟩ := h
  exact ⟨c, ha.append b, hc⟩

theorem Unmarked.secret_eq_none {msg : String} (h : Unmarked msg) (page : CreatedPage) : page.secret msg = none := by
  obtain ⟨c, hmsg, hc⟩ := h
  obtain ⟨rest, hmsg⟩ := List.head?_eq_some_iff.mp hmsg
  have hne : ('N' == c) = false := beq_false_of_ne (Ne.symm hc)
  unfold CreatedPage.secret
  rw [hmsg]
  cases page <;> simp [CreatedPage.mark, List.isPrefixOf, hne]

theorem ClientError.short_unmarked (e : ClientError) : Unmarked e.short := by
  have hstart : Unmarked (if e.inProcess then "in-process error" else "proxy returned") := by
    split_ifs
    · exact ⟨'i', by simp [Starts], by decide⟩
    · exact ⟨'p', by simp [Starts], by decide⟩
  unfold short
  cases e.detail with
  | none => exact (hstart.append _).append _
  | some detail => exact (((hstart.append _).append _).append _).append _

theorem EditFault.text_unmarked (statuses : String) (fault : EditFault) : Unmarked (fault.text statuses) := by
  have hmethod : Unmarked "unsupported method: " := ⟨'u', by simp [Starts], by decide⟩
  have hstatus : Unmarked "invalid status " := ⟨'i', by simp [Starts], by decide⟩
  have hexpiry : Unmarked "invalid expires_at (" := ⟨'i', by simp [Starts], by decide⟩
  cases fault with
  | method m => exact hmethod.append m
  | status repr => exact ((hstatus.append repr).append _).append _
  | expiry exc => exact (hexpiry.append exc).append _

theorem CreatedPage.secret_mark (page page' : CreatedPage) (raw : String) :
    page'.secret (String.ofList page.mark ++ raw) = if page' = page then some raw else none := by
  unfold secret
  rw [String.toList_append, String.toList_ofList]
  cases page <;> cases page' <;> simp [mark, List.isPrefixOf]

/-- The message, if there is one, starts with something else than the marks. -/
def Backend.Unmarked : Backend → Prop
  | .flash _ _ msg => OllamaProxy.Unmarked msg
  | .raises _ _ => True

section Handlers

variable (keyId tokenId : ℤ)

theorem refreshHealth_unmarked (r : Except ClientError Health) : (refreshHealth r).Unmarked := by
  have hhealth : Unmarked "health: " := ⟨'h', by simp [Starts], by decide⟩
  have hfailed : Unmarked "health check failed: " := ⟨'h', by simp [Starts], by decide⟩
  cases r with
  | error e => exact hfailed.append _
  | ok h =>
    unfold refreshHealth
    simp only [String.append_assoc]
    exact hhealth.append _

theorem testAllSubmit_unmarked (r : Except ClientError (ℕ × ℕ)) : (testAllSubmit r).Unmarked := by
  have htest : Unmarked "test-all: total=" := ⟨'t', by simp [Starts], by decide⟩
  cases r with
  | error e => exact e.short_unmarked
  | ok counts =>
    unfold testAllSubmit
    simp only [String.append_assoc]
    exact htest.append _

theorem resetStatesSubmit_unmarked (r : Except ClientError Health) : (resetStatesSubmit r).Unmarked := by
  have hreset : Unmarked "reset: status=" := ⟨'r', by simp [Starts], by decide⟩
  cases r with
  | error e => exact e.short_unmarked
  | ok h =>
    unfold resetStatesSubmit
    simp only [String.append_assoc]
    exact hreset.append _

theorem key_unmarked (rest : String) : Unmarked ("key " ++ rest) :=
  .append ⟨'k', by simp [Starts], by decide⟩ rest

theorem token_unmarked (rest : String) : Unmarked ("token " ++ rest) :=
  .append ⟨'t', by simp [Starts], by decide⟩ rest

theorem updateKeySubmit_unmarked (r : Except (EditFault ⊕ ClientError) Unit) :
    (updateKeySubmit keyId r).Unmarked := by
  rcases r with (fault | e) | ⟨⟩
  · exact fault.text_unmarked _
  · exact e.short_unmarked
  · exact (key_unmarked _).append _

theorem deleteKeySubmit_unmarked (r : Except ClientError Unit) : (deleteKeySubmit keyId r).Unmarked := by
  rcases r with e | ⟨⟩
  · exact e.short_unmarked
  · exact (key_unmarked _).append _

theorem testKeySubmit_unmarked (r : Except ClientError (Bool × Option ℕ × String)) :
    (testKeySubmit keyId r).Unmarked := by
  rcases r with e | ⟨ok, code, error⟩
  · exact e.short_unmarked
  · unfold testKeySubmit
    simp only [String.append_assoc]
    exact key_unmarked _

theorem keyUsageRefreshSubmit_unmarked (r : Except ClientError (String × String)) :
    (keyUsageRefreshSubmit keyId r).Unmarked := by
  rcases r with e | ⟨status, error⟩
  · exact e.short_unmarked
  · have hkey : Starts 'k' "key " := by simp [Starts]
    unfold keyUsageRefreshSubmit
    simp only [String.append_assoc]
    by_cases hok : status = "ok"
    · rw [if_pos hok]
      exact key_unmarked _
    · rw [if_neg hok]
      exact ⟨'k', (hkey.append _).strip (by decide), by decide⟩

theorem usageRefreshAllSubmit_unmarked (r : Except ClientError (ℕ × ℕ)) : (usageRefreshAllSubmit r).Unmarked := by
  have hrefreshed : Unmarked "refreshed " := ⟨'r', by simp [Starts], by decide⟩
  rcases r with e | ⟨total, failures⟩
  · exact e.short_unmarked
  · unfold usageRefreshAllSubmit
    simp only [String.append_assoc]
    split_ifs
    · exact ⟨'n', by simp [Starts], by decide⟩
    · exact hrefreshed.append _
    · exact hrefreshed.append _

theorem updateUserTokenSubmit_unmarked (r : Except (EditFault ⊕ ClientError) Unit) :
    (updateUserTokenSubmit tokenId r).Unmarked := by
  rcases r with (fault | e) | ⟨⟩
  · exact fault.text_unmarked _
  · exact e.short_unmarked
  · exact (token_unmarked _).append _

theorem deleteUserTokenSubmit_unmarked (r : Except ClientError Unit) :
    (deleteUserTokenSubmit tokenId r).Unmarked := by
  rcases r with e | ⟨⟩
  · exact e.short_unmarked
  · exact (token_unmarked _).append _

end Handlers

/-- A post creates a secret, and says so with its mark, or its message has none. -/
theorem Submit.cases_created (sub : Submit) :
    (∃ page raw location, sub.created = some (page, raw) ∧
      sub.backend = .flash location .ok (String.ofList page.mark ++ raw)) ∨
    (sub.created = none ∧ sub.backend.Unmarked) := by
  cases sub with
  | refreshHealth r => exact Or.inr ⟨rfl, refreshHealth_unmarked r⟩
  | createKey r =>
    cases r with
    | error e => exact Or.inr ⟨rfl, e.short_unmarked⟩
    | ok rawKey =>
      by_cases hraw : rawKey = ""
      · exact Or.inr ⟨by simp [created, hraw], by
          simp only [backend, createKeySubmit, hraw, if_true]
          exact ⟨'k', by simp [Starts], by decide⟩⟩
      · exact Or.inl ⟨.key, rawKey, "/dashboard/keys/created", by simp [created, hraw], by
          simp only [backend, createKeySubmit, hraw, if_false]
          rfl⟩
  | testAll r => exact Or.inr ⟨rfl, testAllSubmit_unmarked r⟩
  | resetStates r => exact Or.inr ⟨rfl, resetStatesSubmit_unmarked r⟩
  | updateKey keyId r => exact Or.inr ⟨rfl, updateKeySubmit_unmarked keyId r⟩
  | deleteKey keyId r => exact Or.inr ⟨rfl, deleteKeySubmit_unmarked keyId r⟩
  | testKey keyId r => exact Or.inr ⟨rfl, testKeySubmit_unmarked keyId r⟩
  | keyUsageRefresh keyId r => exact Or.inr ⟨rfl, keyUsageRefreshSubmit_unmarked keyId r⟩
  | usageRefreshAll r => exact Or.inr ⟨rfl, usageRefreshAllSubmit_unmarked r⟩
  | createUserToken r =>
    rcases r with (fault | e) | rawKey
    · cases fault with
      | label => exact Or.inr ⟨rfl, 'l', by simp [Starts], by decide⟩
      | expiry exc => exact Or.inr ⟨rfl, (EditFault.expiry exc).text_unmarked _⟩
    · exact Or.inr ⟨rfl, e.short_unmarked⟩
    · by_cases hraw : rawKey = ""
      · exact Or.inr ⟨by simp [created, hraw], by
          simp only [backend, createUserTokenSubmit, hraw, if_true]
          exact ⟨'t', by simp [Starts], by decide⟩⟩
      · exact Or.inl ⟨.token, rawKey, "/dashboard/user-tokens/created", by simp [created, hraw], by
          simp only [backend, createUserTokenSubmit, hraw, if_false]
          rfl⟩
  | updateUserToken tokenId r => exact Or.inr ⟨rfl, updateUserTokenSubmit_unmarked tokenId r⟩
  | deleteUserToken tokenId r => exact Or.inr ⟨rfl, deleteUserTokenSubmit_unmarked tokenId r⟩
  | raises statusCode detail => exact Or.inr ⟨rfl, trivial⟩

/-- No other message is taken for a new secret. -/
theorem Submit.of_mark {sub : Submit} {location msg : String} {level : FlashLevel} {page : CreatedPage} {raw : String}
    (h : sub.backend = .flash location level msg) (hsecret : page.secret msg = some raw) :
    sub.created = some (page, raw) := by
  rcases sub.cases_created with ⟨page', raw', location', hcreated, hbackend⟩ | ⟨-, hunmarked⟩
  · cases hbackend.symm.trans h
    rw [page'.secret_mark] at hsecret
    split_ifs at hsecret with hpage
    cases hsecret
    rw [hpage]
    exact hcreated
  · rw [h] at hunmarked
    rw [OllamaProxy.Unmarked.secret_eq_none hunmarked] at hsecret
    cases hsecret

/-! ### The created pages -/

/-- What `key_created` and `user_token_created` put on the page as `raw_key`. -/
def shownSecret {ω : Type} (auth : DashboardAuth ω) (now : ℤ) (page : CreatedPage) (cookies : Cookies ω) :
    Option String :=
  (auth.flashRead now cookies.flash).bind fun flash => page.secret flash.2

/-- A secret that a post has created. -/
structure Creation where
  page : CreatedPage
  rawKey : String
  time : ℤ
deriving DecidableEq

/-- The dashboard, and the secrets that were created. -/
structure Pages (ω : Type) where
  dashboard : Dashboard ω
  created : List Creation

namespace Pages

/-- `view` is the end of one of the other pages, which may fail with a redirect or
an exception, `show` the end of a created page, and `finish` the end of a post. -/
inductive Action (ω : Type)
  | login (p : ℕ) (password raw token : String)
  | loginForm (p : ℕ) (cookies : Cookies ω)
  | get (p : ℕ) (cookies : Cookies ω)
  | view (p : ℕ) (token : String) (fault : Option (String × ClientError ⊕ ℕ × String))
  | created (p : ℕ) (token : String) (page : CreatedPage)
  | post (p : ℕ) (kind : Post) (cookies : Cookies ω) (form : CsrfForm ω)
  | readForm (p : ℕ)
  | submit (p : ℕ)
  | finish (p : ℕ) (token : String) (sub : Submit)
  | tick (d : ℕ)

variable {ω : Type}

/-- What the dashboard does. -/
def Action.base : Action ω → Dashboard.Action ω
  | .login p password raw token => .login p password raw token
  | .loginForm p cookies => .loginForm p cookies
  | .get p cookies => .get p cookies
  | .view p token none => .render p token none
  | .view p token (some (.inl (location, e))) => .render p token (some (.flash location .error e.short))
  | .view p token (some (.inr (statusCode, detail))) => .render p token (some (.raises statusCode detail))
  | .created p token _ => .render p token none
  | .post p kind cookies form => .post p kind cookies form
  | .readForm p => .readForm p
  | .submit p => .submit p
  | .finish p token sub => .finish p token sub.backend
  | .tick d => .tick d

/-- The post that ends is one for the handler. -/
def Action.admits (s : Pages ω) : Action ω → Prop
  | .finish p _ sub => sub.Fits (s.dashboard.visits p).post
  | _ => True

instance (s : Pages ω) (a : Action ω) : Decidable (a.admits s) := by
  cases a <;> unfold Action.admits <;> infer_instance

def Action.creation (now : ℤ) : Action ω → List Creation
  | .finish _ _ sub => sub.created.toList.map fun c => ⟨c.1, c.2, now⟩
  | _ => []

variable [DecidableEq ω] (auth : DashboardAuth ω) (expected : Option String)

def step (s : Pages ω) (a : Action ω) : Option (Pages ω) :=
  if a.admits s then
    (s.dashboard.step auth expected a.base).map fun d => ⟨d, s.created ++ a.creation s.dashboard.now⟩
  else none

/-- What the page that is rendered shows. -/
def shows (s : Pages ω) : Action ω → Option (CreatedPage × String)
  | .created p _ page =>
    match (s.dashboard.visits p).pc with
    | .viewing _ => (shownSecret auth s.dashboard.now page (s.dashboard.visits p).cookies).map fun raw => (page, raw)
    | _ => none
  | _ => none

def NoForgery (s : Pages ω) (a : Action ω) : Prop := s.dashboard.NoForgery auth a.base

/-- A flash message with a mark is of a creation, and was signed then. -/
def Marked (s : Pages ω) : Prop :=
  ∀ e ∈ s.dashboard.signed, ∀ level msg, e.message = .flash level msg →
    ∀ page raw, page.secret msg = some raw → ⟨page, raw, e.time⟩ ∈ s.created

end Pages

/-! ### What is signed for a flash message -/

namespace DashboardAuth

variable {ω : Type} {auth : DashboardAuth ω} {now : ℤ} {sid token : String} {e : Issue} {level : FlashLevel}
  {msg : String}

theorem reissue_message {cookies : Cookies ω} (h : auth.reissue now cookies = some e) : ∃ s, e.message = .text s := by
  unfold reissue reissueSession at h
  split_ifs at h
  cases h
  exact ⟨_, rfl⟩

theorem issueCsrf_message (h : issueCsrf now sid token = .ok e) : e.message = .token sid token := by
  rw [(issueCsrf_eq_ok h).2]

/-- A session id and a CSRF token are no flash message. -/
theorem no_flash {cookies : Cookies ω} (he : e.message = .flash level msg) :
    auth.reissue now cookies ≠ some e ∧ issueCsrf now sid token ≠ .ok e := by
  constructor
  · intro h
    obtain ⟨s, hs⟩ := reissue_message h
    rw [hs] at he
    cases he
  · intro h
    rw [issueCsrf_message h] at he
    cases he

theorem page_flash {cookies : Cookies ω} (h : e ∈ (auth.page now cookies sid token).signed) :
    e.message ≠ .flash level msg := by
  intro he
  have hno : auth.reissue now cookies ≠ some e ∧ issueCsrf now sid token ≠ .ok e := no_flash he
  unfold page at h
  split at h
  · cases h
  · next csrf hcsrf =>
    rcases Reply.mem_signed.mp h with h | h | h | h <;> simp only [Option.some.injEq, reduceCtorEq] at h
    · exact hno.1 h
    · exact hno.2 (h ▸ hcsrf)
    · exact hno.2 (h ▸ hcsrf)

theorem view_flash {cookies : Cookies ω} {backend : Option Backend}
    (h : e ∈ (auth.view now cookies sid token backend).signed) (he : e.message = .flash level msg) :
    ∃ location, backend = some (.flash location level msg) ∧ e.time = now := by
  unfold view at h
  split at h
  · exact absurd he (page_flash h)
  · cases h
  · rcases Reply.mem_signed.mp h with h | h | h | h <;> cases h
    cases he
    exact ⟨_, rfl, rfl⟩

theorem logout_flash (h : e ∈ (logout now).signed) (he : e.message = .flash level msg) : msg = "Logged out." := by
  rcases Reply.mem_signed.mp h with h | h | h | h <;> cases h
  cases he
  rfl

theorem finish_flash {v : Visit ω} {backend : Backend} (h : e ∈ (auth.finish now v sid token backend).signed)
    (he : e.message = .flash level msg) : ∃ location, backend = .flash location level msg ∧ e.time = now := by
  have hno : auth.reissue now v.cookies ≠ some e ∧ issueCsrf now sid token ≠ .ok e := no_flash he
  cases backend with
  | raises statusCode detail => cases h
  | flash location level' msg' =>
    have hput : flashPut now level' msg' = e → ∃ location', Backend.flash location level' msg' =
        .flash location' level msg ∧ e.time = now := by
      rintro rfl
      cases he
      exact ⟨location, rfl, rfl⟩
    simp only [finish] at h
    split at h
    · rcases Reply.mem_signed.mp h with h | h | h | h <;> simp only [redirect, Option.some.injEq, reduceCtorEq] at h
      · exact absurd h hno.1
      · exact hput h
    · rcases Reply.mem_signed.mp h with h | h | h | h <;> simp only [redirect, Option.some.injEq, reduceCtorEq] at h
      · exact absurd h hno.1
      · exact hput h
    · split at h
      · cases h
      · next csrf hcsrf =>
        rcases Reply.mem_signed.mp h with h | h | h | h <;> simp only [redirect, Option.some.injEq, reduceCtorEq] at h
        · exact absurd h hno.1
        · exact absurd (h ▸ hcsrf) hno.2
        · exact hput h

theorem loginForm_flash {cookies : Cookies ω} (h : e ∈ (auth.loginForm now cookies).signed) : False := by
  unfold loginForm at h
  split at h <;> cases h

theorem refuseCsrf_flash [DecidableEq ω] {v : Visit ω} {r : Reply} (hr : auth.refuseCsrf now sid v = some r)
    (h : e ∈ r.signed) : False := by
  unfold refuseCsrf at hr
  split at hr
  · cases hr
    cases h
  · split_ifs at hr <;> cases hr <;> cases h

theorem loginSubmit_flash {password raw : String} {expected : Option String}
    (h : e ∈ (auth.loginSubmit now expected password raw token).1.signed) (he : e.message = .flash level msg) :
    msg = "Invalid password." ∨ msg = "Logged in." := by
  unfold loginSubmit at h
  split_ifs at h
  · cases h
  split at h
  · cases h
  split_ifs at h
  · cases h
  · rcases Reply.mem_signed.mp h with h | h | h | h <;> cases h
    cases he
    exact Or.inl rfl
  simp only at h
  split at h
  · cases h
  · next csrf hcsrf =>
    rcases Reply.mem_signed.mp h with h | h | h | h <;> simp only [redirect, Option.some.injEq, reduceCtorEq] at h
    · rw [← h] at he
      cases he
    · rw [← h, issueCsrf_message hcsrf] at he
      cases he
    · rw [← h] at he
      cases he
      exact Or.inr rfl

end DashboardAuth

namespace Dashboard

variable {ω : Type} [DecidableEq ω] {auth : DashboardAuth ω} {expected : Option String} {s s' : Dashboard ω}
  {a : Action ω} {e : Issue} {level : FlashLevel} {msg : String}

omit [DecidableEq ω] in
theorem requireSession_signed {p : ℕ} {v : Visit ω} : (s.requireSession auth p v).signed = s.signed := by
  unfold requireSession
  split
  · exact List.append_nil _
  · split
    · exact List.append_nil _
    · rfl

omit [DecidableEq ω] in
theorem checkSession_signed {p : ℕ} {v : Visit ω} (next : String → VisitPc) :
    (s.checkSession auth p v next).signed = s.signed := by
  unfold checkSession
  split
  · exact List.append_nil _
  · rfl

/-- A step signs a flash message for a login, a logout, or the end of a page or
a post that has the message. -/
inductive Says (now : ℤ) (e : Issue) (level : FlashLevel) (msg : String) : Action ω → Prop
  | login (p : ℕ) (password raw token : String) (hmsg : msg = "Invalid password." ∨ msg = "Logged in.") :
    Says now e level msg (.login p password raw token)
  | logout (p : ℕ) (hmsg : msg = "Logged out.") : Says now e level msg (.submit p)
  | render (p : ℕ) (token location : String) (htime : e.time = now) :
    Says now e level msg (.render p token (some (.flash location level msg)))
  | finish (p : ℕ) (token location : String) (htime : e.time = now) :
    Says now e level msg (.finish p token (.flash location level msg))

theorem step_flash (h : s.step auth expected a = some s') (he : e ∈ s'.signed) (hmsg : e.message = .flash level msg) :
    e ∈ s.signed ∨ Says s.now e level msg a := by
  have hanswer : ∀ {r : Reply}, e ∈ s.signed ++ r.signed → e ∈ s.signed ∨ e ∈ r.signed := List.mem_append.mp
  cases a with
  | login p password raw token =>
    simp only [step, Option.ite_none_right_eq_some, Option.some.injEq] at h
    obtain ⟨-, rfl⟩ := h
    rcases hanswer he with he | he
    · exact Or.inl he
    · exact Or.inr (.login p password raw token (DashboardAuth.loginSubmit_flash he hmsg))
  | loginForm p cookies =>
    simp only [step, Option.ite_none_right_eq_some, Option.some.injEq] at h
    obtain ⟨-, rfl⟩ := h
    exact (hanswer he).imp_right fun he => (DashboardAuth.loginForm_flash he).elim
  | get p cookies =>
    simp only [step, Option.ite_none_right_eq_some, Option.some.injEq] at h
    obtain ⟨-, rfl⟩ := h
    rw [checkSession_signed] at he
    exact Or.inl he
  | render p token backend =>
    simp only [step] at h
    split at h <;> cases h
    rcases hanswer he with he | he
    · exact Or.inl he
    · obtain ⟨location, rfl, htime⟩ := DashboardAuth.view_flash he hmsg
      exact Or.inr (.render p token location htime)
  | post p kind cookies form =>
    simp only [step, Option.ite_none_right_eq_some, Option.some.injEq] at h
    obtain ⟨-, rfl⟩ := h
    rw [requireSession_signed] at he
    exact Or.inl he
  | readForm p =>
    simp only [step] at h
    split at h
    · split at h <;> cases h
      · next r hr => exact (hanswer he).imp_right fun he => (DashboardAuth.refuseCsrf_flash hr he).elim
      · exact Or.inl he
    · cases h
  | submit p =>
    simp only [step] at h
    split at h <;> cases h
    unfold handle at he
    split at he
    · rcases hanswer he with he | he
      · exact Or.inl he
      · exact Or.inr (.logout p (DashboardAuth.logout_flash he hmsg))
    · rw [checkSession_signed] at he
      exact Or.inl he
    · rw [checkSession_signed] at he
      exact Or.inl he
  | finish p token backend =>
    simp only [step] at h
    split at h <;> cases h
    rcases hanswer he with he | he
    · exact Or.inl he
    · obtain ⟨location, rfl, htime⟩ := DashboardAuth.finish_flash he hmsg
      exact Or.inr (.finish p token location htime)
  | tick d =>
    cases h
    exact Or.inl he

end Dashboard

namespace Pages

variable {ω : Type} [DecidableEq ω] {auth : DashboardAuth ω} {expected : Option String} {s s' : Pages ω} {a : Action ω}

theorem step_eq (h : s.step auth expected a = some s') : ∃ d, s.dashboard.step auth expected a.base = some d ∧
    s' = ⟨d, s.created ++ a.creation s.dashboard.now⟩ := by
  unfold step at h
  split_ifs at h
  obtain ⟨d, hd, rfl⟩ := Option.map_eq_some_iff.mp h
  exact ⟨d, hd, rfl⟩

omit [DecidableEq ω] in
/-- A message that a step signs is of the creation that the step is, or has no
mark. -/
theorem says_marked {e : Issue} {level : FlashLevel} {msg raw : String} {page : CreatedPage}
    (h : Dashboard.Says s.dashboard.now e level msg a.base) (hsecret : page.secret msg = some raw) :
    ⟨page, raw, e.time⟩ ∈ a.creation s.dashboard.now := by
  have hnot : ¬ Unmarked msg := by
    intro hmsg
    rw [hmsg.secret_eq_none page] at hsecret
    cases hsecret
  generalize hb : a.base = b at h
  cases h with
  | login p password rawId token hmsg =>
    rcases hmsg with rfl | rfl
    · exact absurd ⟨'I', by simp [Starts], by decide⟩ hnot
    · exact absurd ⟨'L', by simp [Starts], by decide⟩ hnot
  | logout p hmsg =>
    subst hmsg
    exact absurd ⟨'L', by simp [Starts], by decide⟩ hnot
  | render p token location htime =>
    cases a with
    | view q token' fault =>
      rcases fault with _ | (⟨location', error⟩ | ⟨statusCode, detail⟩) <;> cases hb
      exact absurd error.short_unmarked hnot
    | _ => cases hb
  | finish p token location htime =>
    cases a with
    | finish q token' sub =>
      injection hb with hp htoken hbackend
      have hcreated := Submit.of_mark hbackend hsecret
      simp [Action.creation, hcreated, htime]
    | view q token' fault => rcases fault with _ | (⟨location', error⟩ | ⟨statusCode, detail⟩) <;> cases hb
    | _ => cases hb

theorem step_marked (hs : s.Marked) (h : s.step auth expected a = some s') : s'.Marked := by
  obtain ⟨d, hd, rfl⟩ := step_eq h
  intro e he level msg hmsg page raw hsecret
  rcases Dashboard.step_flash hd he hmsg with hold | hsays
  · exact List.mem_append_left _ (hs e hold level msg hmsg page raw hsecret)
  · exact List.mem_append_right _ (says_marked hsays hsecret)

/-! ### Runs -/

theorem run_base {s₀ : Pages ω} {as : List (Action ω)} (hrun : run (step auth expected) s₀ as = some s) :
    run (Dashboard.step auth expected) s₀.dashboard (as.map Action.base) = some s.dashboard := by
  induction as generalizing s₀ with
  | nil =>
    cases hrun
    rfl
  | cons a as ih =>
    obtain ⟨s1, h1, h2⟩ := run_cons_iff.mp hrun
    obtain ⟨d, hd, rfl⟩ := step_eq h1
    exact run_cons_iff.mpr ⟨d, hd, ih h2⟩

/-- A secret in the list is one that a post of the run has created. -/
theorem created_of_mem {s₀ : Pages ω} {as : List (Action ω)} (hrun : run (step auth expected) s₀ as = some s)
    {c : Creation} (hc : c ∈ s.created) :
    c ∈ s₀.created ∨ ∃ p token sub, Action.finish p token sub ∈ as ∧ sub.created = some (c.page, c.rawKey) := by
  induction as generalizing s₀ with
  | nil =>
    cases hrun
    exact Or.inl hc
  | cons a as ih =>
    obtain ⟨s1, h1, h2⟩ := run_cons_iff.mp hrun
    obtain ⟨d, -, rfl⟩ := step_eq h1
    rcases ih h2 with hmem | ⟨p, token, sub, hmem, hsub⟩
    · rcases List.mem_append.mp hmem with hmem | hmem
      · exact Or.inl hmem
      · cases a with
        | finish p token sub =>
          obtain ⟨x, hx, rfl⟩ := List.mem_map.mp hmem
          exact Or.inr ⟨p, token, sub, List.mem_cons_self, Option.mem_toList.mp hx⟩
        | _ => cases hmem
    · exact Or.inr ⟨p, token, sub, List.mem_cons_of_mem a hmem, hsub⟩

omit [DecidableEq ω] in
theorem shows_eq_some {page : CreatedPage} {raw : String} (h : s.shows auth a = some (page, raw)) :
    ∃ p token sid, a = .created p token page ∧ (s.dashboard.visits p).pc = .viewing sid ∧
      shownSecret auth s.dashboard.now page (s.dashboard.visits p).cookies = some raw := by
  cases a with
  | created p token page' =>
    simp only [shows] at h
    split at h
    · next sid hpc =>
      obtain ⟨raw', hraw, hpair⟩ := Option.map_eq_some_iff.mp h
      cases hpair
      exact ⟨p, token, sid, rfl, hpc, hraw⟩
    · cases h
  | _ => cases h

/-- **The created pages show new secrets and nothing else.** Whatever cookies
the visitors put together from values they have seen, a page shows to a visitor
with the session cookie of a login a secret that a post of the run has created,
for this page, less than 61 seconds ago. -/
theorem shown_created {s₀ : Pages ω} {as : List (Action ω)} (h0 : s₀.dashboard.Start) (hnone : s₀.created = [])
    (hrun : run (step auth expected) s₀ as = some s) (hforge : Along (step auth expected) (NoForgery auth) s₀ as)
    {page : CreatedPage} {raw : String} (h : s.shows auth a = some (page, raw)) :
    (∃ time, ⟨page, raw, time⟩ ∈ s.created ∧ time ≤ s.dashboard.now ∧ s.dashboard.now - time < seconds 61) ∧
      (∃ p token sub, Action.finish p token sub ∈ as ∧ sub.created = some (page, raw)) ∧
      ∃ p token sid q password token', a = .created p token page ∧
        auth.Carries (s.dashboard.visits p).cookies.session sid ∧
        Action.login q password sid token' ∈ as ∧ password ≠ "" ∧ expected = some password := by
  obtain ⟨p, token, sid, rfl, hpc, hshown⟩ := shows_eq_some h
  have hs : s.dashboard.Sound auth ∧ s.Marked := by
    refine run_inv (I := fun s => s.dashboard.Sound auth ∧ s.Marked) (fun s a s' hI ha hstep => ?_)
      ⟨h0.sound, fun e he => absurd he (by simp [h0.signed])⟩ hforge hrun
    obtain ⟨d, hd, rfl⟩ := step_eq hstep
    exact ⟨Dashboard.step_sound hI.1 ha hd, step_marked hI.2 hstep⟩
  -- the flash cookie was signed with its message
  obtain ⟨⟨level, msg⟩, hread, hsecret⟩ := Option.bind_eq_some_iff.mp hshown
  obtain ⟨w, hw, haccept⟩ : ∃ w, (s.dashboard.visits p).cookies.flash = some w ∧
      auth.signer.accept flashMaxAge s.dashboard.now flashSalt w = some (.flash level msg) := by
    unfold DashboardAuth.flashRead at hread
    split at hread
    · next level' msg' hbind =>
      split_ifs at hread
      cases hread
      exact Option.bind_eq_some_iff.mp hbind
    · cases hread
  have hpresents : w ∈ (s.dashboard.visits p).presents := by
    simp [Visit.presents, Cookies.values, hw]
  obtain ⟨e, he, -, hmessage, -, hage⟩ := (hs.1.unforged p w hpresents).of_accept haccept
  have hcreated := hs.2 e he level msg hmessage page raw hsecret
  have hpost := created_of_mem hrun hcreated
  rw [hnone] at hpost
  -- the page has checked the session
  have hcarries : auth.Carries (s.dashboard.visits p).cookies.session sid := hs.1.carried p sid (by rw [hpc]; rfl)
  have hlogin := Dashboard.login_of_mem (run_base hrun) (hs.1.login hcarries)
  rw [h0.logins] at hlogin
  obtain ⟨q, password, token', hmem, hne, hexpected⟩ := hlogin.resolve_left List.not_mem_nil
  obtain ⟨b, hb, hbase⟩ := List.mem_map.mp hmem
  have hb' : b = .login q password sid token' := by
    cases b with
    | login q' password' raw' token'' =>
      cases hbase
      rfl
    | view q' token'' fault => rcases fault with _ | (⟨location, error⟩ | ⟨statusCode, detail⟩) <;> cases hbase
    | _ => cases hbase
  exact ⟨⟨e.time, hcreated, (hs.1.issued e he).time_le, DashboardAuth.age_lt hage⟩,
    hpost.resolve_left List.not_mem_nil, p, token, sid, q, password, token', rfl, hcarries, hb' ▸ hb, hne, hexpected⟩

/-- The answer to a post. -/
theorem finish_reply {p : ℕ} {token : String} {sub : Submit}
    (h : s.step auth expected (.finish p token sub) = some s') :
    sub.Fits (s.dashboard.visits p).post ∧ ∃ sid, (s.dashboard.visits p).pc = .submitting sid ∧
      (s'.dashboard.visits p).pc =
        .done (auth.finish s.dashboard.now (s.dashboard.visits p) sid token sub.backend) := by
  unfold step at h
  split_ifs at h with hadmits
  obtain ⟨d, hd, rfl⟩ := Option.map_eq_some_iff.mp h
  simp only [Action.base, Dashboard.step] at hd
  split at hd <;> cases hd
  next sid hpc => exact ⟨hadmits, sid, hpc, by simp [Dashboard.answer, Dashboard.goOn]⟩

omit [DecidableEq ω] in
/-- The flash cookie of an answer with a message. -/
theorem finish_cookie {now : ℤ} {v : Visit ω} {sid token location msg : String} {level : FlashLevel} {e : Issue}
    (h : (auth.finish now v sid token (.flash location level msg)).flash = some (some e)) :
    e = DashboardAuth.flashPut now level msg := by
  simp only [DashboardAuth.finish] at h
  split at h
  · cases h
    rfl
  · cases h
    rfl
  · split at h <;> cases h
    rfl

/-- **A new secret is shown as it is.** Within a minute the flash cookie that a
post has set for the secret it created makes the page for it show just this
secret, and the other page none. -/
theorem created_shown {p : ℕ} {token : String} {sub : Submit} {page : CreatedPage}
    {raw : String} (hsub : sub.created = some (page, raw)) (h : s.step auth expected (.finish p token sub) = some s')
    {reply : Reply} {e : Issue} (hreply : (s'.dashboard.visits p).pc = .done reply) (he : reply.flash = some (some e))
    {t : Pages ω} (hnow : s.dashboard.now ≤ t.dashboard.now ∧ t.dashboard.now ≤ s.dashboard.now + seconds 60)
    {q : ℕ} {sid token' : String} (hview : (t.dashboard.visits q).pc = .viewing sid)
    (hcookie : (t.dashboard.visits q).cookies.flash = some (auth.signer.value e)) (page' : CreatedPage) :
    t.shows auth (.created q token' page') = if page' = page then some (page, raw) else none := by
  obtain ⟨-, sid', -, hdone⟩ := finish_reply h
  have hreply' : reply = auth.finish s.dashboard.now (s.dashboard.visits p) sid' token sub.backend :=
    VisitPc.done.inj (hreply.symm.trans hdone)
  obtain ⟨location, hbackend⟩ : ∃ location,
      sub.backend = .flash location .ok (String.ofList page.mark ++ raw) := by
    rcases sub.cases_created with ⟨page₁, raw₁, location, hcreated, hbackend⟩ | ⟨hnone, -⟩
    · cases hsub.symm.trans hcreated
      exact ⟨location, hbackend⟩
    · cases hsub.symm.trans hnone
  rw [hreply', hbackend] at he
  obtain rfl := finish_cookie he
  have haccept : auth.signer.accept flashMaxAge t.dashboard.now flashSalt
      (auth.signer.value (DashboardAuth.flashPut s.dashboard.now .ok (String.ofList page.mark ++ raw))) =
        some (.flash .ok (String.ofList page.mark ++ raw)) := by
    refine Signer.accept_eq_some_iff.mpr ⟨_, auth.signer.loads_sign _ _ _, ?_, ?_⟩ <;>
      simp only [DashboardAuth.flashPut, auth.stamp_eq, seconds, flashMaxAge] at hnow ⊢ <;> omega
  have hblank : strip (String.ofList page.mark ++ raw) ≠ "" := by
    have hstarts : Starts 'N' (String.ofList page.mark ++ raw) :=
      Starts.append (by cases page <;> simp [Starts, CreatedPage.mark]) raw
    intro hempty
    have hhead := hstarts.strip (by decide)
    rw [hempty] at hhead
    cases hhead
  have hread : auth.flashRead t.dashboard.now (t.dashboard.visits q).cookies.flash =
      some (.ok, String.ofList page.mark ++ raw) := by
    simp [DashboardAuth.flashRead, hcookie, haccept, hblank]
  simp only [shows, hview, shownSecret, hread, Option.bind_some, CreatedPage.secret_mark]
  split_ifs with hpage
  · rw [hpage]
    rfl
  · rfl

end Pages

namespace Pages.Sample

open Dashboard.Sample (Value auth cookies)

def init : Pages Value := ⟨Dashboard.Sample.init, []⟩

abbrev steps := step auth (some "hunter2")

/-- The cookies of the redirect to the created page. -/
def redirected : Cookies Value :=
  { cookies with flash := some (auth.signer.value (DashboardAuth.flashPut 0 .ok "NEW_KEY::sk-1")) }

/-- A login, and a post that creates a key. -/
def creation : List (Pages.Action Value) :=
  [.login 0 "hunter2" "sid" "t", .post 1 .submit cookies { field := cookies.csrf }, .readForm 1, .submit 1]

def finish : Pages.Action Value := .finish 1 "t2" (.createKey (.ok "sk-1"))

/-- A look at the page for it, a minute later. -/
def look : List (Pages.Action Value) := [.tick 60000000, .get 2 redirected]

/-- The action presents values that were signed. -/
def Seen (s : Pages Value) (a : Pages.Action Value) : Prop :=
  ∀ v ∈ a.base.presents, v ∈ s.dashboard.signed.map auth.signer.value

instance (s : Pages Value) (a : Pages.Action Value) : Decidable (Seen s a) := inferInstanceAs (Decidable (∀ _ ∈ _, _))

theorem noForgery_of_seen {as : List (Pages.Action Value)} (h : Along steps Seen init as) :
    Along steps (NoForgery auth) init as := by
  refine along_mono (I := fun _ => True) (fun _ _ _ _ _ _ => trivial) (fun s a _ ha w hw => ?_) trivial h
  obtain ⟨e, he, rfl⟩ := List.mem_map.mp (ha w hw)
  exact Signer.unforged_value he

theorem shown_created_look :
    ∃ s, run steps init (creation ++ finish :: look) = some s ∧
      s.shows auth (.created 2 "t3" .key) = some (.key, "sk-1") ∧
      ∃ time, ⟨.key, "sk-1", time⟩ ∈ s.created ∧ s.dashboard.now - time < seconds 61 := by
  obtain ⟨s, hrun⟩ := Option.isSome_iff_exists.mp
    (by decide +kernel : (run steps init (creation ++ finish :: look)).isSome = true)
  have hshows : ((run steps init (creation ++ finish :: look)).bind fun s => s.shows auth (.created 2 "t3" .key)) =
      some (.key, "sk-1") := by decide +kernel
  rw [hrun, Option.bind_some] at hshows
  have hforge : Along steps (NoForgery auth) init (creation ++ finish :: look) :=
    noForgery_of_seen (by decide +kernel)
  obtain ⟨⟨time, hmem, -, hage⟩, -⟩ := shown_created Dashboard.Sample.init_start rfl hrun hforge hshows
  exact ⟨s, hrun, hshows, time, hmem, hage⟩

theorem created_shown_look :
    ∃ s s' t, run steps init creation = some s ∧ steps s finish = some s' ∧ run steps s' look = some t ∧
      ∀ page, t.shows auth (.created 2 "t3" page) = if page = .key then some (.key, "sk-1") else none := by
  let s := (run steps init creation).get (by decide +kernel)
  let s' := (steps s finish).get (by decide +kernel)
  let t := (run steps s' look).get (by decide +kernel)
  have hrun : run steps init creation = some s := (Option.some_get _).symm
  have hstep : steps s finish = some s' := (Option.some_get _).symm
  have hlook : run steps s' look = some t := (Option.some_get _).symm
  have hpc : (s.dashboard.visits 1).pc = .submitting "sid" := by decide +kernel
  have hflash : (auth.finish s.dashboard.now (s.dashboard.visits 1) "sid" "t2"
      (Submit.createKey (.ok "sk-1")).backend).flash =
        some (some (DashboardAuth.flashPut 0 .ok "NEW_KEY::sk-1")) := by decide +kernel
  have hview : (t.dashboard.visits 2).pc = .viewing "sid" := by decide +kernel
  have hcookie : (t.dashboard.visits 2).cookies.flash =
      some (auth.signer.value (DashboardAuth.flashPut 0 .ok "NEW_KEY::sk-1")) := by decide +kernel
  have hnow : s.dashboard.now ≤ t.dashboard.now ∧ t.dashboard.now ≤ s.dashboard.now + seconds 60 := by
    decide +kernel
  have hcreated : (Submit.createKey (.ok "sk-1")).created = some (.key, "sk-1") := by decide +kernel
  obtain ⟨-, sid, hsid, hdone⟩ := finish_reply hstep
  obtain rfl : "sid" = sid := VisitPc.submitting.inj (hpc.symm.trans hsid)
  exact ⟨s, s', t, hrun, hstep, hlook, fun page =>
    created_shown hcreated hstep hdone hflash hnow hview hcookie page⟩

end Pages.Sample

end OllamaProxy
