/-
# The dashboard's sessions

The dashboard keeps no session on the server. A login signs a random session id
for the session cookie, `issue_csrf` signs it again with a random token for the
CSRF cookie, and flash messages are signed too, each with a salt of its own.
Every page and every post signs the session id anew.

A `Dashboard` is the clock, the session ids of the logins, everything that was
signed, and the requests. A request presents whatever cookies and form values it
likes, as long as they are not forged (`Dashboard.NoForgery`); it goes on to its
next await at each of its actions. The invariant is that only the session ids of
logins are ever signed (`Dashboard.Sound`).

itsdangerous stamps whole seconds, so a token is accepted up to a second longer
than its maximal age.

Key definitions: `DashboardAuth`, `Dashboard.step`, `Dashboard.Sound`.
Key theorems: `step_sound`, `admitted_from_login`.
-/
import OllamaProxy.Python
import OllamaProxy.Lib.Run
import OllamaProxy.Lib.Signing

namespace OllamaProxy

open Kit

inductive FlashLevel
  | ok
  | error
deriving DecidableEq

/-- What is signed: a string, the dict `{"sid": sid, "t": t}`, and the JSON text
of `{"level": level, "msg": msg}`. -/
inductive Blob
  | text (s : String)
  | token (sid t : String)
  | flash (level : FlashLevel) (msg : String)
deriving DecidableEq

/-- A value that was signed. -/
abbrev Issue := Signed String Blob

def sessionSalt : String := "dashboard-session-v1"
def csrfSalt : String := "dashboard-csrf-v1"
def flashSalt : String := "dashboard-flash-v1"

def csrfCookieMaxAge : ℤ := 24 * 3600
def flashMaxAge : ℤ := 60

/-- `signer` is itsdangerous with the secret; it signs whole seconds. `ω` are
the strings but the empty one, for which `none` stands. -/
structure DashboardAuth (ω : Type) where
  signer : Signer String Blob ω
  stamp_eq : ∀ t, signer.stamp t = t / seconds 1
  sessionTtlSeconds : ℤ
  ttl_pos : 0 < sessionTtlSeconds

namespace DashboardAuth

variable {ω : Type} (auth : DashboardAuth ω) (now : ℤ)

def issueSession (raw : String) : Issue := ⟨sessionSalt, .text raw, now⟩

/-- Only strings are signed with the salt of the sessions. -/
def verifySession (value : Option ω) : Option String :=
  match value.bind (auth.signer.accept auth.sessionTtlSeconds now sessionSalt) with
  | some (.text sid) => some sid
  | _ => none

def reissueSession (sessionId : String) : Option Issue :=
  if sessionId = "" then none else some ⟨sessionSalt, .text sessionId, now⟩

def issueCsrf (sessionId token : String) : Except PyError Issue :=
  if sessionId = "" then .error .valueError else .ok ⟨csrfSalt, .token sessionId token, now⟩

def verifyCsrf (sessionId : String) (token : Option ω) : Bool :=
  if sessionId = "" then false
  else
    match token.bind (auth.signer.accept csrfCookieMaxAge now csrfSalt) with
    | some (.token sid _) => sid = sessionId
    | _ => false

def flashPut (level : FlashLevel) (msg : String) : Issue := ⟨flashSalt, .flash level msg, now⟩

def flashRead (value : Option ω) : Option (FlashLevel × String) :=
  match value.bind (auth.signer.accept flashMaxAge now flashSalt) with
  | some (.flash level msg) => if strip msg = "" then none else some (level, msg)
  | _ => none

/-- The cookie's value was signed for the session id, however long ago. -/
def Carries (value : Option ω) (sessionId : String) : Prop :=
  ∃ v t, value = some v ∧ auth.signer.loads sessionSalt v = some (.text sessionId, t)

variable {auth now}

theorem verifySession_eq_some {value : Option ω} {sid : String} (h : auth.verifySession now value = some sid) :
    ∃ v, value = some v ∧
      auth.signer.accept auth.sessionTtlSeconds now sessionSalt v = some (.text sid) := by
  unfold verifySession at h
  split at h
  · next hv =>
    cases h
    exact Option.bind_eq_some_iff.mp hv
  · cases h

theorem carries_of_verifySession {value : Option ω} {sid : String} (h : auth.verifySession now value = some sid) :
    auth.Carries value sid := by
  obtain ⟨v, rfl, hv⟩ := verifySession_eq_some h
  obtain ⟨t, ht, -⟩ := Signer.accept_eq_some_iff.mp hv
  exact ⟨v, t, rfl, ht⟩

theorem verifySession_issueSession (raw : String) :
    auth.verifySession now (some (auth.signer.value (issueSession now raw))) = some raw := by
  have hpos := auth.ttl_pos
  have haccept : auth.signer.accept auth.sessionTtlSeconds now sessionSalt
      (auth.signer.value (issueSession now raw)) = some (.text raw) := Signer.accept_dumps (by omega)
  simp [verifySession, haccept]

theorem issueCsrf_eq_ok {sid token : String} {e : Issue} (h : issueCsrf now sid token = .ok e) :
    sid ≠ "" ∧ e = ⟨csrfSalt, .token sid token, now⟩ := by
  unfold issueCsrf at h
  split at h
  · cases h
  · next hsid =>
    cases h
    exact ⟨hsid, rfl⟩

theorem verifyCsrf_eq_true {sid : String} {value : Option ω} (h : auth.verifyCsrf now sid value = true) :
    sid ≠ "" ∧ ∃ v token, value = some v ∧
      auth.signer.accept csrfCookieMaxAge now csrfSalt v = some (.token sid token) := by
  unfold verifyCsrf at h
  split at h
  · cases h
  next hsid =>
  split at h
  · next sid' token hv =>
    obtain ⟨v, hvalue, hv⟩ := Option.bind_eq_some_iff.mp hv
    obtain rfl := of_decide_eq_true h
    exact ⟨hsid, v, token, hvalue, hv⟩
  · cases h

/-- What was signed for something else is no session, no CSRF token, and no
flash message. -/
theorem verifySession_of_ne {e : Issue} (h : e.purpose ≠ sessionSalt) :
    auth.verifySession now (some (auth.signer.value e)) = none := by
  simp [verifySession, Signer.accept_value_of_ne h]

theorem verifyCsrf_of_ne {e : Issue} (h : e.purpose ≠ csrfSalt) (sid : String) :
    auth.verifyCsrf now sid (some (auth.signer.value e)) = false := by
  simp [verifyCsrf, Signer.accept_value_of_ne h]

theorem flashRead_of_ne {e : Issue} (h : e.purpose ≠ flashSalt) :
    auth.flashRead now (some (auth.signer.value e)) = none := by
  simp [flashRead, Signer.accept_value_of_ne h]

/-- The stamps are seconds, so a stamp's age is less than a second short. -/
theorem age_lt {time maxAge : ℤ} (h : auth.signer.stamp now - auth.signer.stamp time ≤ maxAge) :
    now - time < seconds (maxAge + 1) := by
  rw [auth.stamp_eq, auth.stamp_eq] at h
  simp only [seconds] at h ⊢
  omega

end DashboardAuth

/-! ### What is signed -/

/-- A value that was signed for the session with one of the ids, or for a flash
message. -/
structure Issue.From (logins : List String) (now : ℤ) (e : Issue) : Prop where
  time_le : e.time ≤ now
  session : e.purpose = sessionSalt → ∃ sid ∈ logins, e.message = .text sid
  csrf : e.purpose = csrfSalt → ∃ sid ∈ logins, ∃ token, DashboardAuth.issueCsrf e.time sid token = .ok e

theorem sessionSalt_ne_csrfSalt : sessionSalt ≠ csrfSalt := by decide

theorem sessionSalt_ne_flashSalt : sessionSalt ≠ flashSalt := by decide

theorem csrfSalt_ne_flashSalt : csrfSalt ≠ flashSalt := by decide

namespace Issue

variable {logins logins' : List String} {now now' : ℤ} {sid : String} {e : Issue}

theorem From.mono (h : From logins now e) (hlogins : logins ⊆ logins') (hnow : now ≤ now') : From logins' now' e where
  time_le := h.time_le.trans hnow
  session := fun hp => by
    obtain ⟨sid, hsid, he⟩ := h.session hp
    exact ⟨sid, hlogins hsid, he⟩
  csrf := fun hp => by
    obtain ⟨sid, hsid, he⟩ := h.csrf hp
    exact ⟨sid, hlogins hsid, he⟩

theorem from_session (h : sid ∈ logins) : From logins now ⟨sessionSalt, .text sid, now⟩ where
  time_le := le_rfl
  session := fun _ => ⟨sid, h, rfl⟩
  csrf := fun hp => absurd hp sessionSalt_ne_csrfSalt

theorem from_issueCsrf {token : String} (h : sid ∈ logins) (he : DashboardAuth.issueCsrf now sid token = .ok e) :
    From logins now e := by
  obtain ⟨-, rfl⟩ := DashboardAuth.issueCsrf_eq_ok he
  exact
    { time_le := le_rfl
      session := fun hp => absurd hp.symm sessionSalt_ne_csrfSalt
      csrf := fun _ => ⟨sid, h, token, he⟩ }

theorem from_flashPut (level : FlashLevel) (msg : String) :
    From logins now (DashboardAuth.flashPut now level msg) where
  time_le := le_rfl
  session := fun hp => absurd hp.symm sessionSalt_ne_flashSalt
  csrf := fun hp => absurd hp.symm csrfSalt_ne_flashSalt

end Issue

/-! ### Requests -/

/-- A cookie that is absent is the empty string. -/
structure Cookies (ω : Type) where
  session : Option ω := none
  csrf : Option ω := none
  flash : Option ω := none

def Cookies.values {ω : Type} (c : Cookies ω) : List ω := c.session.toList ++ c.csrf.toList ++ c.flash.toList

/-- The cookies that the answer sets (`some none` deletes one), and the token in
the forms of its page. -/
structure Reply where
  statusCode : ℕ
  detail : String := ""
  location : Option String := none
  session : Option (Option Issue) := none
  csrf : Option (Option Issue) := none
  flash : Option (Option Issue) := none
  csrfToken : Option Issue := none
deriving DecidableEq

/-- What was signed for the answer. -/
def Reply.signed (r : Reply) : List Issue :=
  r.session.join.toList ++ r.csrf.join.toList ++ r.flash.join.toList ++ r.csrfToken.toList

def redirect (location : String) : Reply := { statusCode := 303, location := some location }

def internalError : Reply := { statusCode := 500, detail := "Internal Server Error" }

/-- The posts other than the login: `submit` is any handler that rotates the CSRF
token. -/
inductive Post
  | logout
  | refreshHealth
  | submit
deriving DecidableEq

/-- How the backend call of a handler ends: with a message for the next page, or
with an answer of its own (an exception). -/
inductive Backend
  | flash (location : String) (level : FlashLevel) (msg : String)
  | raises (statusCode : ℕ) (detail : String)

/-- The form field `csrf_token`, and the header `X-CSRF-Token` if there is one. -/
structure CsrfForm (ω : Type) where
  field : Option ω := none
  header : Option (Option ω) := none

/-- The header counts where the field is absent or empty. -/
def CsrfForm.token {ω : Type} (f : CsrfForm ω) : Option (Option ω) := if f.field.isSome then some f.field else f.header

def CsrfForm.values {ω : Type} (f : CsrfForm ω) : List ω := f.field.toList ++ f.header.join.toList

/-- The await a request is suspended at. `admitted` is the return of
`require_dashboard_csrf`. -/
inductive VisitPc
  | idle
  | viewing (sessionId : String)
  | reading (sessionId : String)
  | admitted (sessionId : String)
  | submitting (sessionId : String)
  | done (reply : Reply)
deriving DecidableEq

/-- The session id that the request goes on with. -/
def VisitPc.sessionId : VisitPc → Option String
  | .viewing sessionId | .reading sessionId | .admitted sessionId | .submitting sessionId => some sessionId
  | .idle | .done _ => none

structure Visit (ω : Type) where
  cookies : Cookies ω := {}
  form : CsrfForm ω := {}
  post : Post := .submit
  pc : VisitPc := .idle

/-- The cookies and form values that the request came with. -/
def Visit.presents {ω : Type} (v : Visit ω) : List ω := v.cookies.values ++ v.form.values

namespace DashboardAuth

variable {ω : Type} [DecidableEq ω] (auth : DashboardAuth ω) (now : ℤ)

/-- `login_submit`, with the session id of a login that succeeds. -/
def loginSubmit (expected : Option String) (password raw token : String) : Reply × Option String :=
  if password = "" ∨ 512 < password.length then ({ statusCode := 422 }, none)
  else
    match expected with
    | none => ({ statusCode := 503, detail := "dashboard password is not configured" }, none)
    | some expected =>
      if expected = "" then ({ statusCode := 503, detail := "dashboard password is not configured" }, none)
      else if password ≠ expected then
        ({ redirect "/dashboard/login" with flash := some (some (flashPut now .error "Invalid password.")) }, none)
      else
        let sessionCookie := issueSession now raw
        let sessionId := (auth.verifySession now (some (auth.signer.value sessionCookie))).getD ""
        match issueCsrf now sessionId token with
        | .error _ => (internalError, none)
        | .ok csrf =>
          ({ redirect "/dashboard" with
              session := some (some sessionCookie)
              csrf := some (some csrf)
              flash := some (some (flashPut now .ok "Logged in.")) }, some sessionId)

/-- `login_form`. -/
def loginForm (cookies : Cookies ω) : Reply :=
  match auth.verifySession now cookies.session with
  | some _ => redirect "/dashboard"
  | none => { statusCode := 200, flash := some none }

/-- `_reissue_session`. -/
def reissue (cookies : Cookies ω) : Option Issue :=
  reissueSession now ((auth.verifySession now cookies.session).getD "")

/-- The end of a page: the forms and the CSRF cookie have the same new token. -/
def page (cookies : Cookies ω) (sessionId token : String) : Reply :=
  match issueCsrf now sessionId token with
  | .error _ => internalError
  | .ok csrf =>
    { statusCode := 200
      session := some (auth.reissue now cookies)
      csrf := some (some csrf)
      flash := some none
      csrfToken := some csrf }

/-- The end of a get. -/
def view (cookies : Cookies ω) (sessionId token : String) : Option Backend → Reply
  | none => auth.page now cookies sessionId token
  | some (.raises statusCode detail) => { statusCode, detail }
  | some (.flash location level msg) => { redirect location with flash := some (some (flashPut now level msg)) }

/-- The last part of `require_dashboard_csrf`, after the form has been read: the
refusal, if there is one. -/
def refuseCsrf (sessionId : String) (v : Visit ω) : Option Reply :=
  match v.form.token with
  | none => some { statusCode := 403, detail := "missing csrf_token" }
  | some formToken =>
    if v.cookies.csrf = none then some { statusCode := 403, detail := "missing csrf cookie" }
    else if formToken ≠ v.cookies.csrf then some { statusCode := 403, detail := "csrf token mismatch" }
    else if auth.verifyCsrf now sessionId formToken then none
    else some { statusCode := 403, detail := "invalid csrf token" }

def logout : Reply :=
  { redirect "/dashboard/login" with
    session := some none
    csrf := some none
    flash := some (some (flashPut now .ok "Logged out.")) }

/-- The end of a post. -/
def finish (v : Visit ω) (sessionId token : String) : Backend → Reply
  | .raises statusCode detail => { statusCode, detail }
  | .flash location level msg =>
    match v.post with
    | .logout | .refreshHealth =>
      { redirect location with
        session := some (auth.reissue now v.cookies)
        flash := some (some (flashPut now level msg)) }
    | .submit =>
      match issueCsrf now sessionId token with
      | .error _ => internalError
      | .ok csrf =>
        { redirect location with
          session := some (auth.reissue now v.cookies)
          csrf := some (some csrf)
          flash := some (some (flashPut now level msg)) }

end DashboardAuth

/-! ### What an answer signs -/

/-- The answer signs nothing but for the session ids. -/
def Reply.From (logins : List String) (now : ℤ) (r : Reply) : Prop := ∀ e ∈ r.signed, Issue.From logins now e

theorem Reply.mem_signed {r : Reply} {e : Issue} :
    e ∈ r.signed ↔ r.session = some (some e) ∨ r.csrf = some (some e) ∨ r.flash = some (some e) ∨
      r.csrfToken = some e := by
  simp [Reply.signed, Option.join_eq_some_iff]

theorem Reply.from_of_signed_nil {logins : List String} {now : ℤ} {r : Reply} (h : r.signed = []) :
    r.From logins now := by
  intro e he
  rw [h] at he
  exact absurd he List.not_mem_nil

theorem Reply.from_of_forall {logins : List String} {now : ℤ} {r : Reply}
    (hsession : ∀ e, r.session = some (some e) → Issue.From logins now e)
    (hcsrf : ∀ e, r.csrf = some (some e) → Issue.From logins now e)
    (hflash : ∀ e, r.flash = some (some e) → Issue.From logins now e)
    (htoken : ∀ e, r.csrfToken = some e → Issue.From logins now e) : r.From logins now := by
  intro e he
  obtain h | h | h | h := Reply.mem_signed.mp he
  · exact hsession e h
  · exact hcsrf e h
  · exact hflash e h
  · exact htoken e h

namespace DashboardAuth

variable {ω : Type} {auth : DashboardAuth ω} {now : ℤ} {logins : List String} {sid token : String}

/-- Only the session of the cookie is signed again. -/
theorem reissue_from {cookies : Cookies ω} {e : Issue} (hc : ∀ sid, auth.Carries cookies.session sid → sid ∈ logins)
    (h : auth.reissue now cookies = some e) : Issue.From logins now e := by
  unfold reissue reissueSession at h
  split at h
  · cases h
  next hne =>
  cases h
  cases hv : auth.verifySession now cookies.session with
  | none => simp [hv] at hne
  | some sid => exact Issue.from_session (hc sid (carries_of_verifySession hv))

theorem page_from {cookies : Cookies ω} (hc : ∀ sid, auth.Carries cookies.session sid → sid ∈ logins)
    (hsid : sid ∈ logins) : (auth.page now cookies sid token).From logins now := by
  unfold page
  split
  · exact Reply.from_of_signed_nil rfl
  · next csrf hcsrf =>
    have hfrom : Issue.From logins now csrf := Issue.from_issueCsrf hsid hcsrf
    exact Reply.from_of_forall (fun e he => reissue_from hc (by simpa using he)) (by simpa using hfrom) (by simp)
      (by simpa using hfrom)

theorem view_from {cookies : Cookies ω} (hc : ∀ sid, auth.Carries cookies.session sid → sid ∈ logins)
    (hsid : sid ∈ logins) (backend : Option Backend) : (auth.view now cookies sid token backend).From logins now := by
  cases backend with
  | none => exact page_from hc hsid
  | some b =>
    cases b with
    | raises statusCode detail => exact Reply.from_of_signed_nil rfl
    | flash location level msg =>
      exact Reply.from_of_forall nofun nofun (by simp [view, Issue.from_flashPut]) nofun

theorem logout_from : (logout now).From logins now :=
  Reply.from_of_forall (by simp [logout]) (by simp [logout]) (by simp [logout, Issue.from_flashPut])
    (by simp [logout, redirect])

theorem finish_from {v : Visit ω} (hc : ∀ sid, auth.Carries v.cookies.session sid → sid ∈ logins)
    (hsid : sid ∈ logins) (backend : Backend) : (auth.finish now v sid token backend).From logins now := by
  cases backend with
  | raises statusCode detail => exact Reply.from_of_signed_nil rfl
  | flash location level msg =>
    have hsession : ∀ e, some (auth.reissue now v.cookies) = some (some e) → Issue.From logins now e :=
      fun e he => reissue_from hc (by simpa using he)
    simp only [finish]
    split
    · exact Reply.from_of_forall hsession (by simp [redirect]) (by simp [Issue.from_flashPut]) (by simp [redirect])
    · exact Reply.from_of_forall hsession (by simp [redirect]) (by simp [Issue.from_flashPut]) (by simp [redirect])
    · split
      · exact Reply.from_of_signed_nil rfl
      · next csrf hcsrf =>
        have hfrom : Issue.From logins now csrf := Issue.from_issueCsrf hsid hcsrf
        exact Reply.from_of_forall hsession (by simpa using hfrom) (by simp [Issue.from_flashPut]) (by simp [redirect])

theorem loginForm_from (cookies : Cookies ω) : (auth.loginForm now cookies).From logins now := by
  unfold loginForm
  split
  · exact Reply.from_of_signed_nil rfl
  · exact Reply.from_of_signed_nil rfl

theorem refuseCsrf_from [DecidableEq ω] {v : Visit ω} {r : Reply}
    (h : auth.refuseCsrf now sid v = some r) : r.From logins now := by
  unfold refuseCsrf at h
  split at h
  · cases h
    exact Reply.from_of_signed_nil rfl
  · split_ifs at h <;> cases h <;> exact Reply.from_of_signed_nil rfl

/-- What the last part of `require_dashboard_csrf` lets through. -/
theorem refuseCsrf_eq_none [DecidableEq ω] {v : Visit ω} (h : auth.refuseCsrf now sid v = none) :
    ∃ w, v.form.token = some (some w) ∧ v.cookies.csrf = some w ∧ auth.verifyCsrf now sid (some w) = true := by
  unfold refuseCsrf at h
  split at h
  · cases h
  next formToken hform =>
  split_ifs at h with hcookie hne hverify
  obtain ⟨w, hw⟩ := Option.ne_none_iff_exists'.mp hcookie
  obtain rfl : formToken = some w := (not_not.mp hne).trans hw
  exact ⟨w, hform, hw, hverify⟩

/-- A login signs nothing but for its own session id, and the password was right. -/
theorem loginSubmit_cases (auth : DashboardAuth ω) (now : ℤ) (logins : List String) (expected : Option String)
    (password raw token : String) :
    ((auth.loginSubmit now expected password raw token).2 = none ∧
      (auth.loginSubmit now expected password raw token).1.From logins now) ∨
    (password ≠ "" ∧ expected = some password ∧
      (auth.loginSubmit now expected password raw token).2 = some raw ∧
      (auth.loginSubmit now expected password raw token).1.From (logins ++ [raw]) now) := by
  unfold loginSubmit
  split_ifs with hlen
  · exact .inl ⟨rfl, Reply.from_of_signed_nil rfl⟩
  split
  · exact .inl ⟨rfl, Reply.from_of_signed_nil rfl⟩
  next expected =>
  split_ifs with hempty hpassword
  · exact .inl ⟨rfl, Reply.from_of_signed_nil rfl⟩
  · exact .inl ⟨rfl, Reply.from_of_forall (by simp [redirect]) (by simp [redirect]) (by simp [Issue.from_flashPut])
      (by simp [redirect])⟩
  obtain rfl : password = expected := not_not.mp hpassword
  simp only [verifySession_issueSession, Option.getD_some]
  split
  · exact .inl ⟨rfl, Reply.from_of_signed_nil rfl⟩
  next csrf hcsrf =>
  have hmem : raw ∈ logins ++ [raw] := List.mem_append_right logins (List.mem_singleton_self raw)
  have hsession : Issue.From (logins ++ [raw]) now (issueSession now raw) := Issue.from_session hmem
  have hfrom : Issue.From (logins ++ [raw]) now csrf := Issue.from_issueCsrf hmem hcsrf
  exact .inr ⟨hempty, trivial, rfl, Reply.from_of_forall (by simpa using hsession) (by simpa using hfrom)
    (by simp [Issue.from_flashPut]) (by simp [redirect])⟩

end DashboardAuth

/-! ### Runs -/

/-- `logins` are the session ids of the logins, and `signed` is all that was
signed for the answers so far. -/
structure Dashboard (ω : Type) where
  now : ℤ
  logins : List String
  signed : List Issue
  visits : ℕ → Visit ω

namespace Dashboard

/-- `raw` and `token` are what `secrets` returns. The other actions but `tick`
begin a request or take it to its next await. -/
inductive Action (ω : Type)
  | login (p : ℕ) (password raw token : String)
  | loginForm (p : ℕ) (cookies : Cookies ω)
  | get (p : ℕ) (cookies : Cookies ω)
  | render (p : ℕ) (token : String) (backend : Option Backend)
  | post (p : ℕ) (kind : Post) (cookies : Cookies ω) (form : CsrfForm ω)
  | readForm (p : ℕ)
  | submit (p : ℕ)
  | finish (p : ℕ) (token : String) (backend : Backend)
  | tick (d : ℕ)

def Action.presents {ω : Type} : Action ω → List ω
  | .loginForm _ cookies => cookies.values
  | .get _ cookies => cookies.values
  | .post _ _ cookies form => cookies.values ++ form.values
  | _ => []

variable {ω : Type}

def goOn (s : Dashboard ω) (p : ℕ) (v : Visit ω) : Dashboard ω := { s with visits := Function.update s.visits p v }

def answer (s : Dashboard ω) (p : ℕ) (r : Reply) : Dashboard ω :=
  { s.goOn p { s.visits p with pc := .done r } with signed := s.signed ++ r.signed }

section Step

variable [DecidableEq ω] (auth : DashboardAuth ω) (expected : Option String)

/-- The first part of `require_dashboard_csrf`. -/
def requireSession (s : Dashboard ω) (p : ℕ) (v : Visit ω) : Dashboard ω :=
  match auth.verifySession s.now v.cookies.session with
  | none => s.answer p { statusCode := 401, detail := "no session" }
  | some sessionId =>
    if sessionId = "" then s.answer p { statusCode := 401, detail := "no session" }
    else s.goOn p { v with pc := .reading sessionId }

/-- A page's own check of the session, with what comes after it. -/
def checkSession (s : Dashboard ω) (p : ℕ) (v : Visit ω) (next : String → VisitPc) : Dashboard ω :=
  match auth.verifySession s.now v.cookies.session with
  | none => s.answer p (redirect "/dashboard/login")
  | some sessionId => s.goOn p { v with pc := next sessionId }

/-- The handler of a post that was admitted. -/
def handle (s : Dashboard ω) (p : ℕ) (v : Visit ω) : Dashboard ω :=
  match v.post with
  | .logout => s.answer p (DashboardAuth.logout s.now)
  | .refreshHealth | .submit => s.checkSession auth p v .submitting

def step (s : Dashboard ω) : Action ω → Option (Dashboard ω)
  | .login p password raw token =>
    let r := auth.loginSubmit s.now expected password raw token
    if (s.visits p).pc = .idle then some { s.answer p r.1 with logins := s.logins ++ r.2.toList } else none
  | .loginForm p cookies =>
    if (s.visits p).pc = .idle then some (s.answer p (auth.loginForm s.now cookies)) else none
  | .get p cookies =>
    if (s.visits p).pc = .idle then some (s.checkSession auth p { cookies } .viewing) else none
  | .render p token backend =>
    match (s.visits p).pc with
    | .viewing sessionId => some (s.answer p (auth.view s.now (s.visits p).cookies sessionId token backend))
    | _ => none
  | .post p kind cookies form =>
    if (s.visits p).pc = .idle then some (s.requireSession auth p { cookies, form, post := kind }) else none
  | .readForm p =>
    match (s.visits p).pc with
    | .reading sessionId =>
      match auth.refuseCsrf s.now sessionId (s.visits p) with
      | some r => some (s.answer p r)
      | none => some (s.goOn p { s.visits p with pc := .admitted sessionId })
    | _ => none
  | .submit p =>
    match (s.visits p).pc with
    | .admitted _ => some (s.handle auth p (s.visits p))
    | _ => none
  | .finish p token backend =>
    match (s.visits p).pc with
    | .submitting sessionId => some (s.answer p (auth.finish s.now (s.visits p) sessionId token backend))
    | _ => none
  | .tick d => some { s with now := s.now + d }

end Step

/-- Nobody forges what the requests of the action present. -/
def NoForgery (auth : DashboardAuth ω) (s : Dashboard ω) (a : Action ω) : Prop :=
  ∀ v ∈ a.presents, auth.signer.Unforged s.signed v

/-- No request has begun. -/
structure Start (s : Dashboard ω) : Prop where
  logins : s.logins = []
  signed : s.signed = []
  visits : ∀ p, s.visits p = {}

/-! ### The invariant -/

structure Sound (auth : DashboardAuth ω) (s : Dashboard ω) : Prop where
  issued : ∀ e ∈ s.signed, Issue.From s.logins s.now e
  unforged : ∀ p, ∀ v ∈ (s.visits p).presents, auth.signer.Unforged s.signed v
  carried : ∀ p sid, (s.visits p).pc.sessionId = some sid → auth.Carries (s.visits p).cookies.session sid

variable {auth : DashboardAuth ω} {expected : Option String} {s s' : Dashboard ω} {p : ℕ} {v : Visit ω} {sid : String}

theorem Start.sound (h : s.Start) : s.Sound auth where
  issued := fun e he => absurd he (by simp [h.signed])
  unforged := fun p v hv => absurd hv (by simp [h.visits, Visit.presents, Cookies.values, CsrfForm.values])
  carried := fun p sid hsid => by simp [h.visits, VisitPc.sessionId] at hsid

theorem mem_presents_of_session {w : ω} (h : v.cookies.session = some w) : w ∈ v.presents := by
  simp [Visit.presents, Cookies.values, h]

theorem mem_presents_of_csrf {w : ω} (h : v.cookies.csrf = some w) : w ∈ v.presents := by
  simp [Visit.presents, Cookies.values, h]

/-- A session cookie that is not forged is the cookie of a login. -/
theorem login_of_carries (hissued : ∀ e ∈ s.signed, Issue.From s.logins s.now e)
    (hv : ∀ w ∈ v.presents, auth.signer.Unforged s.signed w) (h : auth.Carries v.cookies.session sid) :
    sid ∈ s.logins := by
  obtain ⟨w, t, hw, hloads⟩ := h
  obtain ⟨e, he, hpurpose, hmessage, -⟩ := hv w (mem_presents_of_session hw) _ _ _ hloads
  obtain ⟨sid', hsid', hmessage'⟩ := (hissued e he).session hpurpose
  rw [hmessage, Blob.text.injEq] at hmessage'
  exact hmessage' ▸ hsid'

theorem Sound.login (hs : s.Sound auth) (h : auth.Carries (s.visits p).cookies.session sid) : sid ∈ s.logins :=
  login_of_carries hs.issued (hs.unforged p) h

/-- A CSRF token that is accepted was made by `issue_csrf` for the same session. -/
theorem Sound.issued_csrf {w : ω} (hs : s.Sound auth) (hw : w ∈ (s.visits p).presents)
    (h : auth.verifyCsrf s.now sid (some w) = true) :
    ∃ e ∈ s.signed, ∃ token, DashboardAuth.issueCsrf e.time sid token = .ok e ∧
      auth.signer.loads csrfSalt w = some (e.message, auth.signer.stamp e.time) ∧
      auth.signer.stamp s.now - auth.signer.stamp e.time ≤ csrfCookieMaxAge := by
  obtain ⟨-, v, token, hv, haccept⟩ := DashboardAuth.verifyCsrf_eq_true h
  cases hv
  obtain ⟨e, he, hpurpose, hmessage, hloads, hage⟩ := (hs.unforged p w hw).of_accept haccept
  obtain ⟨sid', -, token', hissue⟩ := (hs.issued e he).csrf hpurpose
  have hentry : e.message = .token sid' token' := congrArg Signed.message (DashboardAuth.issueCsrf_eq_ok hissue).2
  obtain ⟨rfl, rfl⟩ : sid = sid' ∧ token = token' := Blob.token.inj (hmessage.symm.trans hentry)
  exact ⟨e, he, token, hissue, hmessage ▸ hloads, hage⟩

/-- The answer of a request. -/
theorem answer_sound {logins : List String} {r : Reply} (hs : s.Sound auth) (hlogins : s.logins ⊆ logins)
    (hr : r.From logins s.now) : Sound auth { s.answer p r with logins := logins } where
  issued := fun e he => by
    obtain he | he := List.mem_append.mp he
    · exact (hs.issued e he).mono hlogins le_rfl
    · exact hr e he
  unforged := fun q w hw => by
    have hold : w ∈ (s.visits q).presents := by
      by_cases hq : q = p
      · subst hq
        simpa [answer, goOn, Visit.presents] using hw
      · simpa [answer, goOn, hq] using hw
    exact (hs.unforged q w hold).mono (List.subset_append_left _ _)
  carried := fun q sid hsid => by
    by_cases hq : q = p
    · subst hq
      simp [answer, goOn, VisitPc.sessionId] at hsid
    · simp only [answer, goOn, Function.update_of_ne hq] at hsid ⊢
      exact hs.carried q sid hsid

/-- A request goes on with the session of its cookie. -/
theorem goOn_sound (hs : s.Sound auth) (hv : ∀ w ∈ v.presents, auth.signer.Unforged s.signed w)
    (hc : ∀ sid, v.pc.sessionId = some sid → auth.Carries v.cookies.session sid) : (s.goOn p v).Sound auth where
  issued := hs.issued
  unforged := fun q w hw => by
    by_cases hq : q = p
    · subst hq
      exact hv w (by simpa [goOn] using hw)
    · exact hs.unforged q w (by simpa [goOn, hq] using hw)
  carried := fun q sid hsid => by
    by_cases hq : q = p
    · subst hq
      simp only [goOn, Function.update_self] at hsid ⊢
      exact hc sid hsid
    · simp only [goOn, Function.update_of_ne hq] at hsid ⊢
      exact hs.carried q sid hsid

theorem requireSession_sound (hs : s.Sound auth) (hv : ∀ w ∈ v.presents, auth.signer.Unforged s.signed w) :
    (s.requireSession auth p v).Sound auth := by
  unfold requireSession
  split
  · exact answer_sound hs (List.Subset.refl _) (Reply.from_of_signed_nil rfl)
  next sid hsid =>
  split
  · exact answer_sound hs (List.Subset.refl _) (Reply.from_of_signed_nil rfl)
  · refine goOn_sound hs hv fun sid' h => ?_
    cases h
    exact DashboardAuth.carries_of_verifySession hsid

theorem checkSession_sound {next : String → VisitPc} (hs : s.Sound auth)
    (hv : ∀ w ∈ v.presents, auth.signer.Unforged s.signed w) (hnext : ∀ sid, (next sid).sessionId = some sid) :
    (s.checkSession auth p v next).Sound auth := by
  unfold checkSession
  split
  · exact answer_sound hs (List.Subset.refl _) (Reply.from_of_signed_nil rfl)
  next sid hsid =>
  refine goOn_sound hs hv fun sid' h => ?_
  obtain rfl : sid = sid' := Option.some.inj ((hnext sid).symm.trans h)
  exact DashboardAuth.carries_of_verifySession hsid

theorem handle_sound (hs : s.Sound auth) : (s.handle auth p (s.visits p)).Sound auth := by
  unfold handle
  split
  · exact answer_sound hs (List.Subset.refl _) DashboardAuth.logout_from
  · exact checkSession_sound hs (hs.unforged p) fun _ => rfl
  · exact checkSession_sound hs (hs.unforged p) fun _ => rfl

theorem requireSession_logins : (s.requireSession auth p v).logins = s.logins := by
  unfold requireSession
  split
  · rfl
  · split <;> rfl

theorem checkSession_logins (next : String → VisitPc) : (s.checkSession auth p v next).logins = s.logins := by
  unfold checkSession
  split <;> rfl

theorem handle_logins : (s.handle auth p v).logins = s.logins := by
  unfold handle
  split
  · rfl
  · exact checkSession_logins _
  · exact checkSession_logins _

section Steps

variable [DecidableEq ω] {a : Action ω} {as : List (Action ω)}

theorem step_sound (hs : s.Sound auth) (ha : s.NoForgery auth a) (h : s.step auth expected a = some s') :
    s'.Sound auth := by
  cases a with
  | login p password raw token =>
    simp only [step, Option.ite_none_right_eq_some, Option.some.injEq] at h
    obtain ⟨-, rfl⟩ := h
    obtain ⟨hnone, hr⟩ | ⟨-, -, hraw, hr⟩ :=
      DashboardAuth.loginSubmit_cases auth s.now s.logins expected password raw token
    · rw [hnone]
      exact answer_sound hs (List.subset_append_left _ _) (by simpa using hr)
    · rw [hraw]
      exact answer_sound hs (List.subset_append_left _ _) hr
  | loginForm p cookies =>
    simp only [step, Option.ite_none_right_eq_some, Option.some.injEq] at h
    obtain ⟨-, rfl⟩ := h
    exact answer_sound hs (List.Subset.refl _) (DashboardAuth.loginForm_from cookies)
  | get p cookies =>
    simp only [step, Option.ite_none_right_eq_some, Option.some.injEq] at h
    obtain ⟨-, rfl⟩ := h
    have hpresents : Visit.presents { cookies } = (Action.get p cookies).presents := by
      simp [Visit.presents, CsrfForm.values, Action.presents]
    exact checkSession_sound hs (fun w hw => ha w (hpresents ▸ hw)) fun _ => rfl
  | render p token backend =>
    simp only [step] at h
    split at h <;> cases h
    next sid hpc =>
    have hsid : sid ∈ s.logins := hs.login (hs.carried p sid (by rw [hpc]; rfl))
    exact answer_sound hs (List.Subset.refl _) (DashboardAuth.view_from (fun _ => hs.login) hsid backend)
  | post p kind cookies form =>
    simp only [step, Option.ite_none_right_eq_some, Option.some.injEq] at h
    obtain ⟨-, rfl⟩ := h
    exact requireSession_sound hs ha
  | readForm p =>
    simp only [step] at h
    split at h
    · next sid hpc =>
      split at h <;> cases h
      · next r hr => exact answer_sound hs (List.Subset.refl _) (DashboardAuth.refuseCsrf_from hr)
      · refine goOn_sound hs (hs.unforged p) fun sid' hsid' => ?_
        exact hs.carried p sid' (by rw [hpc]; exact hsid')
    · cases h
  | submit p =>
    simp only [step] at h
    split at h <;> cases h
    exact handle_sound hs
  | finish p token backend =>
    simp only [step] at h
    split at h <;> cases h
    next sid hpc =>
    have hsid : sid ∈ s.logins := hs.login (hs.carried p sid (by rw [hpc]; rfl))
    exact answer_sound hs (List.Subset.refl _) (DashboardAuth.finish_from (fun _ => hs.login) hsid backend)
  | tick d =>
    cases h
    have hle : s.now ≤ s.now + (d : ℤ) := by omega
    exact
      { issued := fun e he => (hs.issued e he).mono (List.Subset.refl _) hle
        unforged := hs.unforged
        carried := hs.carried }

/-! ### Logins -/

theorem step_logins (h : s.step auth expected a = some s') :
    s'.logins = s.logins ∨ ∃ q password raw token, a = .login q password raw token ∧ password ≠ "" ∧
      expected = some password ∧ s'.logins = s.logins ++ [raw] := by
  cases a with
  | login q password raw token =>
    simp only [step, Option.ite_none_right_eq_some, Option.some.injEq] at h
    obtain ⟨-, rfl⟩ := h
    obtain ⟨hnone, -⟩ | ⟨hne, hexpected, hraw, -⟩ :=
      DashboardAuth.loginSubmit_cases auth s.now s.logins expected password raw token
    · exact .inl (by simp [hnone])
    · exact .inr ⟨q, password, raw, token, rfl, hne, hexpected, by simp [hraw]⟩
  | loginForm q cookies =>
    simp only [step, Option.ite_none_right_eq_some, Option.some.injEq] at h
    obtain ⟨-, rfl⟩ := h
    exact .inl rfl
  | get q cookies =>
    simp only [step, Option.ite_none_right_eq_some, Option.some.injEq] at h
    obtain ⟨-, rfl⟩ := h
    exact .inl (checkSession_logins _)
  | render q token backend =>
    simp only [step] at h
    split at h <;> cases h
    exact .inl rfl
  | post q kind cookies form =>
    simp only [step, Option.ite_none_right_eq_some, Option.some.injEq] at h
    obtain ⟨-, rfl⟩ := h
    exact .inl requireSession_logins
  | readForm q =>
    simp only [step] at h
    split at h
    · split at h <;> cases h <;> exact .inl rfl
    · cases h
  | submit q =>
    simp only [step] at h
    split at h <;> cases h
    exact .inl handle_logins
  | finish q token backend =>
    simp only [step] at h
    split at h <;> cases h
    exact .inl rfl
  | tick d =>
    cases h
    exact .inl rfl

/-- A session id is there from the start, or a login with the password made it. -/
theorem login_of_mem (hrun : run (step auth expected) s as = some s') (hsid : sid ∈ s'.logins) :
    sid ∈ s.logins ∨ ∃ q password token, Action.login q password sid token ∈ as ∧ password ≠ "" ∧
      expected = some password := by
  induction as generalizing s with
  | nil =>
    cases hrun
    exact .inl hsid
  | cons a as ih =>
    obtain ⟨s1, h1, h2⟩ := run_cons_iff.mp hrun
    obtain hmem | ⟨q, password, token, hmem, hpassword⟩ := ih h2
    · obtain heq | ⟨q, password, raw, token, rfl, hne, hexpected, heq⟩ := step_logins h1
      · exact .inl (heq ▸ hmem)
      · rw [heq, List.mem_append, List.mem_singleton] at hmem
        obtain hmem | rfl := hmem
        · exact .inl hmem
        · exact .inr ⟨q, password, token, List.mem_cons_self, hne, hexpected⟩
    · exact .inr ⟨q, password, token, List.mem_cons_of_mem a hmem, hpassword⟩

/-! ### Admission -/

theorem readForm_admitted (h : s.step auth expected (.readForm p) = some s')
    (hadm : (s'.visits p).pc = .admitted sid) :
    (s.visits p).pc = .reading sid ∧ auth.refuseCsrf s.now sid (s.visits p) = none := by
  simp only [step] at h
  split at h
  · next sid' hpc =>
    split at h <;> cases h
    · simp [answer, goOn] at hadm
    · next hrefuse =>
      simp only [goOn, Function.update_self, VisitPc.admitted.injEq] at hadm
      subst hadm
      exact ⟨hpc, hrefuse⟩
  · cases h

/-- A post is let through only with the session cookie of a login, and with a
CSRF token of that session that `issue_csrf` made: not more than 24 hours ago in
the seconds of the stamps, and less than a second longer by the clock. A value
that was signed for one purpose is never accepted for another one. -/
theorem admitted_from_login {s₀ : Dashboard ω} (h0 : s₀.Start) (hrun : run (step auth expected) s₀ as = some s)
    (hforge : Along (step auth expected) (NoForgery auth) s₀ as) :
    (∀ p s' sid, s.step auth expected (.readForm p) = some s' → (s'.visits p).pc = .admitted sid →
      (∃ q password token, Action.login q password sid token ∈ as ∧ password ≠ "" ∧ expected = some password) ∧
      auth.Carries (s.visits p).cookies.session sid ∧
      ∃ w, (s.visits p).form.token = some (some w) ∧ (s.visits p).cookies.csrf = some w ∧
        ∃ e ∈ s.signed, ∃ token, DashboardAuth.issueCsrf e.time sid token = .ok e ∧
          auth.signer.loads csrfSalt w = some (e.message, auth.signer.stamp e.time) ∧ e.time ≤ s.now ∧
          auth.signer.stamp s.now - auth.signer.stamp e.time ≤ csrfCookieMaxAge ∧
          s.now - e.time < seconds (csrfCookieMaxAge + 1)) ∧
    ∀ e ∈ s.signed, ∀ now,
      (e.purpose ≠ sessionSalt → auth.verifySession now (some (auth.signer.value e)) = none) ∧
      (e.purpose ≠ csrfSalt → ∀ sid, auth.verifyCsrf now sid (some (auth.signer.value e)) = false) ∧
      (e.purpose ≠ flashSalt → auth.flashRead now (some (auth.signer.value e)) = none) := by
  have hs : s.Sound auth := run_inv (fun _ _ _ => step_sound) h0.sound hforge hrun
  refine ⟨fun p s' sid hstep hadm => ?_, fun e _ now => ⟨?_, ?_, ?_⟩⟩
  · obtain ⟨hpc, hrefuse⟩ := readForm_admitted hstep hadm
    have hcarries : auth.Carries (s.visits p).cookies.session sid := hs.carried p sid (by rw [hpc]; rfl)
    have hlogin := login_of_mem hrun (hs.login hcarries)
    rw [h0.logins] at hlogin
    obtain ⟨w, hform, hcookie, hverify⟩ := DashboardAuth.refuseCsrf_eq_none hrefuse
    obtain ⟨e, he, token, hissue, hloads, hage⟩ := hs.issued_csrf (mem_presents_of_csrf hcookie) hverify
    exact ⟨hlogin.resolve_left List.not_mem_nil, hcarries, w, hform, hcookie, e, he, token, hissue, hloads,
      (hs.issued e he).time_le, hage, DashboardAuth.age_lt hage⟩
  · exact DashboardAuth.verifySession_of_ne
  · exact fun h sid => DashboardAuth.verifyCsrf_of_ne h sid
  · exact DashboardAuth.flashRead_of_ne

end Steps

end Dashboard

namespace Dashboard.Sample

/-- A value is what was signed, or a string that nobody signed. -/
inductive Value
  | signed (salt : String) (blob : Blob) (stamp : ℤ)
  | other (s : String)
deriving DecidableEq

def loads (salt : String) : Value → Option (Blob × ℤ)
  | .signed salt' blob stamp => if salt' = salt then some (blob, stamp) else none
  | .other _ => none

def auth : DashboardAuth Value where
  signer :=
    { stamp := fun t => t / seconds 1
      sign := .signed
      loads := loads
      loads_sign := fun _ _ _ => if_pos rfl
      loads_sign_of_ne := fun _ _ hne => if_neg hne }
  stamp_eq := fun _ => rfl
  sessionTtlSeconds := 86400
  ttl_pos := by decide

def init : Dashboard Value where
  now := 0
  logins := []
  signed := []
  visits := fun _ => {}

theorem init_start : init.Start := ⟨rfl, rfl, fun _ => rfl⟩

/-- A browser that keeps the cookies of its login. -/
def cookies : Cookies Value where
  session := some (auth.signer.value (DashboardAuth.issueSession 0 "sid"))
  csrf := some (auth.signer.value ⟨csrfSalt, .token "sid" "t", 0⟩)

def login : Action Value := .login 0 "hunter2" "sid" "t"

def post : Action Value := .post 1 .submit cookies { field := cookies.csrf }

/-- The post comes some time after the login. -/
def late (d : ℕ) : List (Action Value) := [login, .tick d, post]

abbrev steps := step auth (some "hunter2")

theorem late_noForgery (d : ℕ) : Along steps (NoForgery auth) init (late d) := by
  let s₁ := (steps init login).get (by decide)
  have h₁ : steps init login = some s₁ := (Option.some_get _).symm
  have h₂ : steps s₁ (.tick d) = some { s₁ with now := s₁.now + d } := rfl
  rw [late, along_cons h₁, along_cons h₂]
  refine ⟨nofun, nofun, fun w hw => ?_, ?_⟩
  · have hmem : w ∈ s₁.signed.map auth.signer.value := by
      have hsub : post.presents ⊆ s₁.signed.map auth.signer.value := by decide
      exact hsub hw
    obtain ⟨e, he, rfl⟩ := List.mem_map.mp hmem
    exact Signer.unforged_value he
  · split <;> trivial

/-- An hour after the login. -/
theorem admitted_hour_later :
    ∃ s s', run steps init (late 3600000000) = some s ∧ steps s (.readForm 1) = some s' ∧
      (s'.visits 1).pc = .admitted "sid" ∧
      ((∃ q password token, Action.login q password "sid" token ∈ late 3600000000 ∧ password ≠ "" ∧
          some "hunter2" = some password) ∧
        auth.Carries (s.visits 1).cookies.session "sid") := by
  let s := (run steps init (late 3600000000)).get (by decide)
  let s' := (steps s (.readForm 1)).get (by decide)
  have hrun : run steps init (late 3600000000) = some s := (Option.some_get _).symm
  have hstep : steps s (.readForm 1) = some s' := (Option.some_get _).symm
  have hadm : (s'.visits 1).pc = .admitted "sid" := by decide
  obtain ⟨hlogin, hcarries, -⟩ := (admitted_from_login init_start hrun (late_noForgery _)).1 1 s' "sid" hstep hadm
  exact ⟨s, s', hrun, hstep, hadm, hlogin, hcarries⟩

/-- Half a second more than 24 hours after the login. -/
theorem admitted_day_later :
    ∃ s s', run steps init (late 86400500000) = some s ∧ Along steps (NoForgery auth) init (late 86400500000) ∧
      steps s (.readForm 1) = some s' ∧ (s'.visits 1).pc = .admitted "sid" ∧
      ∀ e ∈ s.signed, e.purpose = csrfSalt → seconds csrfCookieMaxAge < s.now - e.time := by
  let s := (run steps init (late 86400500000)).get (by decide)
  let s' := (steps s (.readForm 1)).get (by decide)
  have hrun : run steps init (late 86400500000) = some s := (Option.some_get _).symm
  have hstep : steps s (.readForm 1) = some s' := (Option.some_get _).symm
  exact ⟨s, s', hrun, late_noForgery _, hstep, by decide, by decide⟩

end Dashboard.Sample

end OllamaProxy
