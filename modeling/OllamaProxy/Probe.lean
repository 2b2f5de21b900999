/-
# Probes, and what the three users of a key record

An upstream key is called by the chat path, by the model-list path and by the
admin's probes: `testOneKey` for one key, `probeAllActive` for every active
key at once. Each sorts the upstream outcome on its own: `dispatchOne`,
`fetchModels`, `ApiKeyTestResult.classify`. This module has the probes, and
says when the three leave a key's row alike (`Alike`).

They do for every answer of the server, but `OllamaClient.probe` catches a
transport failure itself and returns a result without a status code. Of that
the classifier records nothing, and the branch of `_run` that would count the
failure is never taken. A batch stops at the first classification that raises.
And only the chat path records the usage of a 2xx, which raises if it cannot be
read or would take a count of the row beyond 64 bits (`Recordable`).

Key definitions: `ApiKeyTestResult.classify`, `probeAllActive`, `User.leaves`,
`Recordable`, `Alike`.
Key theorems: `extractRetryAfter_ratelimitHeaders`, `classifyAll_get?_of_mem`,
`alike_iff`.
-/
import OllamaProxy.Recorders

namespace OllamaProxy

open Kit

/-! ### The probe of a key -/

def ratelimitHeaderNames : List String :=
  ["x-ratelimit-limit", "x-ratelimit-remaining", "x-ratelimit-reset", "x-ratelimit-policy",
    "x-ratelimit-account", "ratelimit-limit", "ratelimit-remaining", "ratelimit-reset", "retry-after"]

/-- `_extract_ratelimit_headers`. -/
def extractRatelimitHeaders (headers : List (String × String)) : List (String × String) :=
  ratelimitHeaderNames.filterMap fun name => (headers.lookup name).map fun value => (name, value)

/-- Its latency and the text of its error are left out. -/
structure ApiKeyTestResult where
  ok : Bool
  statusCode : Option ℕ
  ratelimitHeaders : List (String × String)

def ApiKeyTestResult.failed : ApiKeyTestResult := ⟨false, none, []⟩

/-- An exception of an upstream call: one that the proxy takes for a transport
failure, or another. -/
inductive CallError
  | transport
  | other

/-- `OllamaClient.probe`. -/
def probe : Upstream → Except CallError ApiKeyTestResult
  | .response r => .ok ⟨r.isSuccess, some r.statusCode, extractRatelimitHeaders r.headers⟩
  | .transport => .ok .failed
  | .raised => .error .other

/-- `ProbeClassifier.classify`: what it records, if anything. -/
def ApiKeyTestResult.classify (pyFloat : String → Option PyFloat) (now : ℤ) (result : ApiKeyTestResult) :
    Except PyError (Option KeyValues) :=
  match result.statusCode with
  | none => .ok none
  | some code =>
    if 200 ≤ code ∧ code < 300 then .ok (some (recordSuccess now code))
    else if code = 401 ∨ code = 403 ∨ code = 404 then .ok (some (recordUnauthorized now code))
    else if code = 429 then
      match extractRetryAfter pyFloat (.dict result.ratelimitHeaders) with
      | .error e => .error e
      | .ok retryAfter => (recordRateLimited now code retryAfter).map some
    else if 500 ≤ code then .ok (some (recordServerError now code))
    else .ok none

/-- `test_one_key`, where nothing else writes meanwhile. -/
def testOneKey (rot : Rotation) (now : ℤ) (u : Upstream) (t : KeyTable) (id : ℕ) : KeyTable :=
  match t.get? id with
  | none => t
  | some row =>
    match rot.vault row.keyEncrypted, probe u with
    | some _, .ok result =>
      match result.classify rot.pyFloat now with
      | .ok (some v) => ((Recorder.update v).commit id row t).getD t
      | .ok none | .error _ => t
    | _, _ => t

/-! ### The probe of every active key

`answers id` is what upstream answers to key `id`, `clock id` the time at which
that is recorded. -/

section

variable (rot : Rotation) (clock : ℕ → ℤ) (answers : ℕ → Upstream)

/-- `_run`. -/
def probeRun (id : ℕ) (k : ApiKey) (t : KeyTable) : Except CallError ApiKeyTestResult × KeyTable :=
  match rot.vault k.keyEncrypted with
  | none => (.ok .failed, t)
  | some _ =>
    match probe (answers id) with
    | .ok result => (.ok result, t)
    | .error .transport =>
      match (Recorder.update (recordServerError (clock id) 0)).commit id k t with
      | some t' => (.ok .failed, t')
      | none => (.error .other, t)
    | .error .other => (.error .other, t)

/-- `asyncio.gather`: every call runs to its end; an exception of one is the
outcome of all. -/
def gather : List (ℕ × ApiKey) → KeyTable → Except CallError (List (ℕ × ApiKey × ApiKeyTestResult)) × KeyTable
  | [], t => (.ok [], t)
  | (id, k) :: rest, t =>
    let run := probeRun rot clock answers id k t
    let others := gather rest run.2
    match run.1, others.1 with
    | .error e, _ | .ok _, .error e => (.error e, others.2)
    | .ok result, .ok results => (.ok ((id, k, result) :: results), others.2)

/-- The loop over the results. -/
def classifyAll : List (ℕ × ApiKey × ApiKeyTestResult) → KeyTable → KeyTable
  | [], t => t
  | (id, k, result) :: rest, t =>
    match result.classify rot.pyFloat (clock id) with
    | .error _ => t
    | .ok none => classifyAll rest t
    | .ok (some v) =>
      match (Recorder.update v).commit id k t with
      | none => t
      | some t' => classifyAll rest t'

/-- `probe_all_active`, where nothing else writes meanwhile. -/
def probeAllActive (t : KeyTable) : KeyTable :=
  match gather rot clock answers (loadActive t) t with
  | (.error _, t') => t'
  | (.ok results, t') => classifyAll rot clock results t'

end

/-! ### The three users of a key -/

/-- The columns a verdict is compared on. Cooldowns that were set at one time
have the same length exactly if they are equal. -/
structure Standing where
  status : ApiKeyStatus
  cooldownUntil : Option ℤ
  totalRequests : ℕ
  totalFailures : ℕ
deriving DecidableEq

def ApiKey.standing (k : ApiKey) : Standing :=
  ⟨k.status, k.cooldownUntil, k.totalRequests, k.totalFailures⟩

def standing (t : KeyTable) (id : ℕ) : Option Standing := (t.get? id).map ApiKey.standing

/-- What is recorded of an outcome with the row as it is in the table. -/
def Dispatch.leaves (d : Dispatch) (id : ℕ) (row : ApiKey) (t : KeyTable) : KeyTable :=
  match d with
  | .record rec _ => (rec.commit id row t).getD t
  | .done _ | .raised _ => t

def Upstream.withJson (u : Upstream) (json : Except PyError Json) : Upstream :=
  match u with
  | .response r => .response { r with json := json }
  | .transport => .transport
  | .raised => .raised

/-- It is what a request does with the answer on its turns. -/
theorem Turn.leaves_of_answer {rot : Rotation} {now now' : ℤ} {p : ℕ} {x x' x'' : Turn} {u : Upstream} {copy : Copy}
    (hkey : x.request.key = some copy) (hmove : AnswerMove rot now x copy (.answer u) x') :
    ((∃ rec ret, x'.request.pc = .commit rec ret) → x'.resume rot now' p .ok = some x'' →
        x''.table = (x.request.dispatch rot now u).leaves copy.id copy.row x.table) ∧
      ((¬ ∃ rec ret, x'.request.pc = .commit rec ret) →
        x'.table = (x.request.dispatch rot now u).leaves copy.id copy.row x.table) := by
  cases hmove with
  | answered u rec ret hd =>
    refine ⟨fun _ h => ?_, fun hno => absurd ⟨rec, ret, rfl⟩ hno⟩
    have hheard : (x.heard copy u).key = some copy := hkey
    simp only [resume, onCommit, hheard, Option.map_some, Option.some.injEq] at h
    simp only [hd, Dispatch.leaves]
    cases hc : rec.commit copy.id copy.row x.table with
    | none =>
      rw [hc] at h
      cases h
      rfl
    | some t =>
      rw [hc] at h
      cases rec <;> cases h <;> rfl
  | unrecorded u ret hd =>
    refine ⟨?_, fun _ => by rw [hd]; rfl⟩
    rintro ⟨rec, ret', hpc⟩
    cases (Request.returned_rests _ _).not_holds hpc rfl
  | unread u e hd =>
    refine ⟨?_, fun _ => by rw [hd]; rfl⟩
    rintro ⟨rec, ret', hpc⟩
    cases hpc

inductive User
  | chat (stream : Bool)
  | modelList
  | testOne
  | testAll

/-- Whether the user calls the key `row` at all: a batch leaves out the keys
that are not active. -/
def User.Calls (row : ApiKey) : User → Prop
  | .testAll => row.status = .active
  | .chat _ | .modelList | .testOne => True

/-- The table after the user called key `id`, whose row is `row`; `json` is the
body the chat path or the model-list path gets. -/
def User.leaves (rot : Rotation) (clock : ℕ → ℤ) (answers : ℕ → Upstream) (json : Except PyError Json)
    (t : KeyTable) (id : ℕ) (row : ApiKey) : User → KeyTable
  | .chat stream =>
    (dispatchOne rot stream (clock id) ((answers id).withJson json)).leaves id row t
  | .modelList => (fetchModels rot (clock id) ((answers id).withJson json)).leaves id row t
  | .testOne => testOneKey rot (clock id) (answers id) t id
  | .testAll => probeAllActive rot clock answers t

/-- All users that call key `id` leave it the same standing. -/
def Alike (rot : Rotation) (clock : ℕ → ℤ) (answers : ℕ → Upstream) (json : User → Except PyError Json)
    (t : KeyTable) (id : ℕ) (row : ApiKey) : Prop :=
  ∀ user user' : User, user.Calls row → user'.Calls row →
    standing (user.leaves rot clock answers (json user) t id row) id =
      standing (user'.leaves rot clock answers (json user') t id row) id

/-! ### What a verdict leaves -/

/-- The standing after the values are written over the row they were made for. -/
def Standing.after (s : Standing) (v : KeyValues) : Standing where
  status := v.status.getD s.status
  cooldownUntil := v.cooldownUntil.getD s.cooldownUntil
  totalRequests := s.totalRequests + v.totalRequests
  totalFailures := s.totalFailures + v.totalFailures

/-- What an outcome says of a key. -/
def Upstream.verdict (pyFloat : String → Option PyFloat) (now : ℤ) : Upstream → Option KeyValues
  | .response r => classify pyFloat now r.statusCode (.httpx r.headers)
  | .transport => some (recordServerError now 0)
  | .raised => none

/-- The standing of a key of which `v` is recorded, if it is anything. -/
def ApiKey.marked (row : ApiKey) (v : Option KeyValues) : Standing :=
  v.elim row.standing row.standing.after

section

variable {t : KeyTable} {id : ℕ} {row : ApiKey}

theorem standing_of_get? (hrow : t.get? id = some row) : standing t id = some row.standing := by
  rw [standing, hrow, Option.map_some]

theorem write_standing (v : KeyValues) (row : ApiKey) :
    ((Recorder.update v).write row row).standing = row.standing.after v := by
  have hstatus : (v.status.elim row.status fun s => netChange row.status s row.status) =
      v.status.getD row.status := by
    cases v.status <;> simp
  have hcool : (v.cooldownUntil.elim row.cooldownUntil fun c =>
      netChangeSome row.cooldownUntil c row.cooldownUntil) = v.cooldownUntil.getD row.cooldownUntil := by
    rcases v.cooldownUntil with _ | _ | c
    · rfl
    · cases row.cooldownUntil <;> rfl
    · simp
  simp only [Recorder.write, KeyValues.write, ApiKey.standing, Standing.after, hstatus, hcool]

theorem commit_fresh (rec : Recorder) (hfits : rec.fits row = true) (hrow : t.get? id = some row) :
    ∃ t', rec.commit id row t = some t' ∧ t'.get? id = some (rec.write row row) := by
  refine ⟨t.modify id (rec.write row), Recorder.commit_eq_some hfits hrow, ?_⟩
  rw [Table.get?_modify_self, hrow, Option.map_some]

/-- A recorder with a fresh copy. -/
theorem standing_commit (rec : Recorder) (hfits : rec.fits row = true) (hrow : t.get? id = some row) :
    standing ((rec.commit id row t).getD t) id = some (rec.write row row).standing := by
  obtain ⟨t', ht', hrow'⟩ := commit_fresh rec hfits hrow
  rw [ht', Option.getD_some, standing_of_get? hrow']

theorem leaves_update (v : KeyValues) (ret : Return) (hrow : t.get? id = some row) :
    standing ((Dispatch.record (.update v) ret).leaves id row t) id = some (row.marked (some v)) := by
  rw [Dispatch.leaves, standing_commit _ rfl hrow, write_standing]
  rfl

/-- `record_success_with_usage` leaves the standing that `record_success` does,
or raises and leaves the row. -/
theorem leaves_usage (u : UsageCall) (ret : Return) (hrow : t.get? id = some row) :
    standing ((Dispatch.record (.usage u) ret).leaves id row t) id =
      some (row.marked (if u.fits row then some (recordSuccess u.now u.statusCode) else none)) := by
  cases hfits : u.fits row with
  | true =>
    rw [Dispatch.leaves, standing_commit (.usage u) hfits hrow]
    rfl
  | false =>
    have hraised : (Recorder.usage u).commit id row t = none := Recorder.commit_eq_none (.usage u) hfits id t
    rw [Dispatch.leaves, hraised, Option.getD_none]
    exact standing_of_get? hrow

theorem leaves_done (ret : Return) (hrow : t.get? id = some row) :
    standing ((Dispatch.done ret).leaves id row t) id = some (row.marked none) := standing_of_get? hrow

theorem leaves_raised (e : PyError) (hrow : t.get? id = some row) :
    standing ((Dispatch.raised e).leaves id row t) id = some (row.marked none) := standing_of_get? hrow

end

/-! ### The chat path and the model-list path -/

theorem isSuccess_iff {r : Response} : r.isSuccess = true ↔ 200 ≤ r.statusCode ∧ r.statusCode < 300 := by
  simp [Response.isSuccess]

theorem mem_deadKeyCodes {code : ℕ} : code ∈ deadKeyCodes ↔ code = 401 ∨ code = 403 := by
  simp [deadKeyCodes]

/-- `.json()` raises nothing but a `ValueError`, which the chat path catches. -/
def Readable (json : Except PyError Json) : Prop := ∀ e, json = .error e → e = .valueError

theorem readable_iff {r : Response} : Readable r.json ↔ ∃ counts, parseUsageFromResponse r = .ok counts := by
  unfold Readable parseUsageFromResponse
  cases hj : r.json with
  | error e => cases e <;> simp
  | ok body =>
    refine iff_of_true (by simp) ?_
    cases body with
    | dict payload =>
      simp only
      split
      · split_ifs <;> exact ⟨_, rfl⟩
      · exact ⟨_, rfl⟩
    | null | bool b | int n | float x | str s | list xs => exact ⟨_, rfl⟩

/-- The usage of a 2xx can be read, and its counts with those of the row are
integers of SQLite. -/
def Recordable (now : ℤ) (row : ApiKey) (r : Response) : Prop :=
  Readable r.json ∧ ∀ promptTokens completionTokens,
    parseUsageFromResponse r = .ok (promptTokens, completionTokens) →
    (promptTokens.isSome || completionTokens.isSome) = true →
      UsageCall.fits ⟨r.statusCode, promptTokens, completionTokens, now⟩ row = true

section

variable {rot : Rotation} {now : ℤ} {t : KeyTable} {id : ℕ} {row : ApiKey} {r : Response}

theorem verdict_success (pyFloat : String → Option PyFloat) (h : r.isSuccess = true) :
    (Upstream.response r).verdict pyFloat now = some (recordSuccess now r.statusCode) :=
  if_pos (isSuccess_iff.mp h)

/-- What a response other than a 2xx and a 404 says, by the tests of the chat
path. -/
theorem verdict_failure (pyFloat : String → Option PyFloat) (h : r.isSuccess = false) (h404 : r.statusCode ≠ 404) :
    (Upstream.response r).verdict pyFloat now =
      if r.statusCode ∈ deadKeyCodes then some (recordUnauthorized now r.statusCode)
      else if r.statusCode = 429 then
        match extractRetryAfter pyFloat (.httpx r.headers) with
        | .error _ => none
        | .ok retryAfter => (recordRateLimited now r.statusCode retryAfter).toOption
      else if 500 ≤ r.statusCode then some (recordServerError now r.statusCode)
      else none := by
  have hsuccess : ¬ (200 ≤ r.statusCode ∧ r.statusCode < 300) := by
    rw [← isSuccess_iff, h]
    simp
  have hdead : (r.statusCode = 401 ∨ r.statusCode = 403 ∨ r.statusCode = 404) ↔
      r.statusCode ∈ deadKeyCodes := by
    rw [mem_deadKeyCodes]
    omega
  rw [Upstream.verdict, classify, if_neg hsuccess]
  by_cases hd : r.statusCode ∈ deadKeyCodes
  · rw [if_pos hd, if_pos (hdead.mpr hd)]
  · exact (if_neg (mt hdead.mp hd)).trans (if_neg hd).symm

theorem leaves_retryAfter (pyFloat : String → Option PyFloat) (ret : Return) (hrow : t.get? id = some row) :
    standing ((recordRetryAfter pyFloat now r ret).leaves id row t) id =
      some (row.marked
        (match extractRetryAfter pyFloat (.httpx r.headers) with
        | .error _ => none
        | .ok retryAfter => (recordRateLimited now r.statusCode retryAfter).toOption)) := by
  unfold recordRetryAfter
  cases extractRetryAfter pyFloat (.httpx r.headers) with
  | error e => exact leaves_raised e hrow
  | ok retryAfter =>
    simp only
    cases recordRateLimited now r.statusCode retryAfter with
    | error e => exact leaves_raised e hrow
    | ok v => exact leaves_update v ret hrow

theorem leaves_chatSuccess {stream : Bool} (hread : stream = true ∨ Recordable now row r)
    (hrow : t.get? id = some row) :
    standing ((recordChatSuccess stream now r).leaves id row t) id =
      some (row.marked (some (recordSuccess now r.statusCode))) := by
  cases stream with
  | true => exact leaves_update _ _ hrow
  | false =>
    obtain ⟨hread, hfits⟩ := hread.resolve_left Bool.false_ne_true
    obtain ⟨⟨promptTokens, completionTokens⟩, hcounts⟩ := readable_iff.mp hread
    simp only [recordChatSuccess, hcounts, Bool.false_eq_true, if_false]
    split_ifs with hsome
    · rw [leaves_usage _ _ hrow, hfits _ _ hcounts hsome]
      rfl
    · exact leaves_update _ _ hrow

/-- A 2xx whose usage cannot be recorded leaves the key unmarked. -/
theorem leaves_chatUnrecorded (hread : ¬ Recordable now row r) (hrow : t.get? id = some row) :
    standing ((recordChatSuccess false now r).leaves id row t) id = some (row.marked none) := by
  simp only [recordChatSuccess, Bool.false_eq_true, if_false]
  cases hcounts : parseUsageFromResponse r with
  | error e => exact leaves_raised e hrow
  | ok counts =>
    obtain ⟨promptTokens, completionTokens⟩ := counts
    simp only [Recordable, hcounts, readable_iff.mpr ⟨_, hcounts⟩, true_and] at hread
    push Not at hread
    obtain ⟨promptTokens', completionTokens', hsame, hsome, hover⟩ := hread
    cases hsame
    simp only [hsome, if_true]
    rw [leaves_usage _ _ hrow, if_neg hover]

theorem chat_standing {stream : Bool} {u : Upstream} (h404 : ∀ r, u = .response r → r.statusCode ≠ 404)
    (hread : ∀ r, u = .response r → r.isSuccess = true → stream = true ∨ Recordable now row r)
    (hrow : t.get? id = some row) :
    standing ((dispatchOne rot stream now u).leaves id row t) id =
      some (row.marked (u.verdict rot.pyFloat now)) := by
  cases u with
  | transport => exact leaves_update _ _ hrow
  | raised => exact leaves_raised _ hrow
  | response r =>
    by_cases hsuccess : r.isSuccess = true
    · rw [verdict_success _ hsuccess, dispatchOne, if_pos hsuccess]
      exact leaves_chatSuccess (hread r rfl hsuccess) hrow
    · rw [verdict_failure _ (Bool.eq_false_iff.mpr hsuccess) (h404 r rfl), dispatchOne, if_neg hsuccess,
        if_neg (h404 r rfl)]
      split_ifs with hdead h429 h500
      · exact leaves_update _ _ hrow
      · exact leaves_retryAfter rot.pyFloat _ hrow
      · exact leaves_update _ _ hrow
      · exact leaves_done _ hrow

theorem models_standing {u : Upstream} (h404 : ∀ r, u = .response r → r.statusCode ≠ 404)
    (hbody : ∀ r, u = .response r → r.isSuccess = true → ∃ ids, listModelsV1 r = .ok ids)
    (hrow : t.get? id = some row) :
    standing ((fetchModels rot now u).leaves id row t) id =
      some (row.marked (u.verdict rot.pyFloat now)) := by
  cases u with
  | transport => exact leaves_update _ _ hrow
  | raised => exact leaves_raised _ hrow
  | response r =>
    by_cases hsuccess : r.isSuccess = true
    · obtain ⟨ids, hids⟩ := hbody r rfl hsuccess
      rw [verdict_success _ hsuccess, fetchModels, if_pos hsuccess, hids]
      -- The code recorded is always 200; the standing does not show it.
      exact leaves_update _ _ hrow
    · rw [verdict_failure _ (Bool.eq_false_iff.mpr hsuccess) (h404 r rfl), fetchModels, if_neg hsuccess]
      split_ifs with hdead h429 h500
      · exact leaves_update _ _ hrow
      · exact leaves_retryAfter rot.pyFloat _ hrow
      · exact leaves_update _ _ hrow
      · exact leaves_done _ hrow

end

/-! ### The probes -/

/-- The classifier finds a `Retry-After` among the headers that the probe kept
exactly if it is among those of the response. -/
theorem lookup_ratelimitHeaders (headers : List (String × String)) (name : String) :
    (extractRatelimitHeaders headers).lookup name =
      if name ∈ ratelimitHeaderNames then headers.lookup name else none := by
  unfold extractRatelimitHeaders
  induction ratelimitHeaderNames with
  | nil => rfl
  | cons n names ih =>
    by_cases hn : name = n
    · subst hn
      cases hv : headers.lookup name with
      | none =>
        rw [List.filterMap_cons_none (by rw [hv]; rfl), ih, hv]
        simp
      | some value =>
        rw [List.filterMap_cons_some (by rw [hv]; rfl)]
        simp
    · have hmem : (name ∈ n :: names) ↔ name ∈ names := by simp [hn]
      rw [if_congr hmem rfl rfl, ← ih]
      cases hv : headers.lookup n with
      | none => rw [List.filterMap_cons_none (by rw [hv]; rfl)]
      | some value =>
        rw [List.filterMap_cons_some (by rw [hv]; rfl), List.lookup_cons, beq_false_of_ne hn]

theorem extractRetryAfter_ratelimitHeaders (pyFloat : String → Option PyFloat)
    (headers : List (String × String)) :
    extractRetryAfter pyFloat (.dict (extractRatelimitHeaders headers)) =
      extractRetryAfter pyFloat (.httpx headers) := by
  have hlookup := lookup_ratelimitHeaders headers
  have hlow : (extractRatelimitHeaders headers).lookup "retry-after" = headers.lookup "retry-after" := by
    rw [hlookup, if_pos (by decide)]
  have hother : ∀ name ∈ ["Retry-After", "RETRY-AFTER"], (extractRatelimitHeaders headers).lookup name = none := by
    intro name hname
    rw [hlookup, if_neg]
    fin_cases hname <;> decide
  simp only [extractRetryAfter, List.findSome?_cons, List.findSome?_nil, hlow,
    hother "Retry-After" (by simp), hother "RETRY-AFTER" (by simp)]
  cases hv : headers.lookup "retry-after" with
  | some raw => rfl
  | none =>
    rw [hv] at hlow
    have hfind : findRetryAfter (extractRatelimitHeaders headers) = none := by
      unfold findRetryAfter
      rw [Option.map_eq_none_iff, List.find?_eq_none]
      intro h hmem
      obtain ⟨name, hname, hval⟩ := List.mem_filterMap.mp hmem
      obtain ⟨value, hvalue, rfl⟩ := Option.map_eq_some_iff.mp hval
      have hne : name ≠ "retry-after" := by
        rintro rfl
        rw [hv] at hvalue
        cases hvalue
      have hlower : ∀ n ∈ ratelimitHeaderNames, n ≠ "retry-after" →
          n.toList.map Char.toLower ≠ "retry-after".toList := by decide
      rw [decide_eq_true_eq, ← String.toList_inj, String.toLower, String.toList_map]
      exact hlower name hname hne
    simp only [hfind]

/-- A 429 whose `Retry-After` ends beyond the year 9999, or never. -/
def Response.Endless (pyFloat : String → Option PyFloat) (now : ℤ) (r : Response) : Prop :=
  r.statusCode = 429 ∧ ∀ retryAfter, extractRetryAfter pyFloat (.httpx r.headers) = .ok retryAfter →
    maxInstant < now + seconds (max 1 retryAfter)

theorem recordRateLimited_error_iff {now retryAfter : ℤ} {code : ℕ} :
    (∃ e, recordRateLimited now code retryAfter = .error e) ↔
      maxInstant < now + seconds (max 1 retryAfter) := by
  unfold recordRateLimited addSeconds
  split_ifs with h
  · exact iff_of_false ok_ne_error (not_lt.mpr h)
  · exact iff_of_true ⟨_, rfl⟩ (not_le.mp h)

/-- What the proxy makes of a response of which it records nothing. -/
def Upstream.Unrecorded (pyFloat : String → Option PyFloat) (now : ℤ) : Upstream → Prop
  | .response r =>
    r.isSuccess = false ∧ r.statusCode ∉ deadKeyCodes ∧ r.statusCode ≠ 429 ∧ r.statusCode < 500 ∨
      r.Endless pyFloat now
  | .transport => False
  | .raised => True

section

variable {pyFloat : String → Option PyFloat} {now : ℤ} {r : Response}

/-- The classification of a probe, as far as it depends on the response. -/
theorem classify_probe (pyFloat : String → Option PyFloat) (now : ℤ) {result : ApiKeyTestResult}
    (h : probe (.response r) = .ok result) :
    (result.classify pyFloat now).toOption.join = (Upstream.response r).verdict pyFloat now ∧
      ((∃ e, result.classify pyFloat now = .error e) ↔ r.Endless pyFloat now) := by
  cases h
  simp only [ApiKeyTestResult.classify, Upstream.verdict, classify, extractRetryAfter_ratelimitHeaders,
    Response.Endless]
  split_ifs with hsuccess hdead h429 h500
  · exact ⟨rfl, iff_of_false exists_false (by omega)⟩
  · exact ⟨rfl, iff_of_false exists_false (by omega)⟩
  · cases extractRetryAfter pyFloat (.httpx r.headers) with
    | error e => exact ⟨rfl, iff_of_true ⟨e, rfl⟩ ⟨h429, fun _ he => by cases he⟩⟩
    | ok retryAfter =>
      have herror : (∃ e, recordRateLimited now r.statusCode retryAfter = .error e) ↔
          maxInstant < now + seconds (max 1 retryAfter) := recordRateLimited_error_iff
      simp only
      cases hv : recordRateLimited now r.statusCode retryAfter with
      | error e =>
        rw [hv] at herror
        exact ⟨rfl, iff_of_true ⟨e, rfl⟩ ⟨h429, fun _ he => by cases he; exact herror.mp ⟨e, rfl⟩⟩⟩
      | ok v =>
        rw [hv] at herror
        refine ⟨rfl, iff_of_false ok_ne_error fun hend => ?_⟩
        obtain ⟨e, he⟩ := herror.mpr (hend.2 _ rfl)
        cases he
  · exact ⟨rfl, iff_of_false exists_false (by omega)⟩
  · exact ⟨rfl, iff_of_false exists_false (by omega)⟩

/-- An outcome that says something of the key counts as a request or as a
failure. -/
theorem verdict_counts {u : Upstream} {v : KeyValues} (h : u.verdict pyFloat now = some v) :
    0 < v.totalRequests + v.totalFailures := by
  have hcalls : ∃ m, (Recorder.update v).Calls m := by
    cases u with
    | response r => exact classify_calls now pyFloat h
    | transport =>
      cases h
      exact ⟨_, .serverError now 0⟩
    | raised => cases h
  obtain ⟨m, hm⟩ := hcalls
  cases hm with
  | success _ code => exact Nat.one_pos
  | unauthorized _ code => exact Nat.one_pos
  | rateLimited _ code retryAfter _ hv =>
    obtain ⟨hreq, hfail⟩ := recordRateLimited_counts hv
    omega
  | serverError _ code => exact Nat.one_pos

theorem Standing.after_ne (s : Standing) {v : KeyValues} (hpos : 0 < v.totalRequests + v.totalFailures) :
    s.after v ≠ s := by
  intro h
  have hreq := congrArg Standing.totalRequests h
  have hfail := congrArg Standing.totalFailures h
  simp only [Standing.after] at hreq hfail
  omega

theorem marked_eq_none_iff {u : Upstream} (row : ApiKey) :
    row.marked (u.verdict pyFloat now) = row.marked none ↔ u.verdict pyFloat now = none := by
  refine ⟨fun h => ?_, fun h => by rw [h]⟩
  cases hv : u.verdict pyFloat now with
  | none => rfl
  | some v =>
    rw [hv] at h
    exact absurd h (row.standing.after_ne (verdict_counts hv))

theorem verdict_eq_none_iff {u : Upstream} (h404 : ∀ r, u = .response r → r.statusCode ≠ 404) :
    u.verdict pyFloat now = none ↔ u.Unrecorded pyFloat now := by
  cases u with
  | transport => exact iff_of_false (fun h => by cases h) id
  | raised => exact iff_of_true rfl trivial
  | response r =>
    obtain ⟨hverdict, hendless⟩ := classify_probe pyFloat now (rfl : probe (.response r) = _)
    by_cases hsuccess : r.isSuccess = true
    · rw [verdict_success _ hsuccess]
      have h2xx := isSuccess_iff.mp hsuccess
      refine iff_of_false (fun h => by cases h) ?_
      rintro (h | h)
      · rw [hsuccess] at h
        cases h.1
      · have := h.1
        omega
    · have hfail := Bool.eq_false_iff.mpr hsuccess
      by_cases hend : r.Endless pyFloat now
      · obtain ⟨e, he⟩ := hendless.mpr hend
        rw [← hverdict, he]
        exact iff_of_true rfl (Or.inr hend)
      · rw [verdict_failure _ hfail (h404 r rfl)]
        simp only [Upstream.Unrecorded, hend, or_false, hfail, true_and]
        split_ifs with hdead h429 h500
        · exact iff_of_false (fun h => by cases h) fun h => h.1 hdead
        · refine iff_of_false (fun h => hend ⟨h429, fun retryAfter hretry => ?_⟩) fun h => h.2.1 h429
          simp only [hretry] at h
          cases hv : recordRateLimited now r.statusCode retryAfter with
          | error e => exact recordRateLimited_error_iff.mp ⟨e, hv⟩
          | ok v =>
            rw [hv] at h
            cases h
        · exact iff_of_false (fun h => by cases h) fun h => absurd h.2.2 (not_lt.mpr h500)
        · exact iff_of_true rfl ⟨hdead, h429, not_le.mp h500⟩

end

/-! ### The batch -/

section

variable (rot : Rotation) (clock : ℕ → ℤ) (answers : ℕ → Upstream)

/-- The result of one call of the batch. -/
def probed (id : ℕ) (k : ApiKey) : Except CallError ApiKeyTestResult :=
  match rot.vault k.keyEncrypted with
  | none => .ok .failed
  | some _ => probe (answers id)

/-- The branch of `_run` that counts a transport failure is never taken. -/
theorem probeRun_eq (id : ℕ) (k : ApiKey) (t : KeyTable) :
    probeRun rot clock answers id k t = (probed rot answers id k, t) := by
  unfold probeRun probed
  cases rot.vault k.keyEncrypted with
  | none => rfl
  | some raw => cases answers id <;> rfl

theorem gather_table : ∀ (ks : List (ℕ × ApiKey)) (t : KeyTable), (gather rot clock answers ks t).2 = t
  | [], t => rfl
  | (id, k) :: rest, t => by
    have ih := gather_table rest t
    simp only [gather, probeRun_eq]
    cases probed rot answers id k <;> cases (gather rot clock answers rest t).1 <;> exact ih

variable {rot answers}

theorem gather_error {t : KeyTable} : ∀ {ks : List (ℕ × ApiKey)},
    (∃ x ∈ ks, ∃ e, probed rot answers x.1 x.2 = .error e) → ∃ e, gather rot clock answers ks t = (.error e, t)
  | [], h => by
    obtain ⟨x, hx, -⟩ := h
    cases hx
  | (id, k) :: rest, ⟨x, hx, e, he⟩ => by
    have htable := gather_table rot clock answers rest t
    simp only [gather, probeRun_eq]
    cases hrun : probed rot answers id k with
    | error e' => exact ⟨e', Prod.ext rfl htable⟩
    | ok result =>
      have hrest : x ∈ rest := by
        rcases List.mem_cons.mp hx with rfl | hrest
        · rw [hrun] at he
          cases he
        · exact hrest
      obtain ⟨e', he'⟩ := gather_error (t := t) ⟨x, hrest, e, he⟩
      rw [he']
      exact ⟨e', rfl⟩

theorem gather_ok {t : KeyTable} : ∀ {ks : List (ℕ × ApiKey)},
    (∀ x ∈ ks, ∃ result, probed rot answers x.1 x.2 = .ok result) →
      gather rot clock answers ks t =
        (.ok (ks.map fun x => (x.1, x.2, (probed rot answers x.1 x.2).toOption.getD .failed)), t)
  | [], _ => rfl
  | (id, k) :: rest, h => by
    obtain ⟨result, hrun⟩ := h (id, k) List.mem_cons_self
    have ih := gather_ok (t := t) fun x hx => h x (List.mem_cons_of_mem _ hx)
    simp only [gather, probeRun_eq, hrun, ih, List.map_cons]
    rfl

variable {clock} {t : KeyTable} {id : ℕ}

theorem classifyAll_get?_of_notMem : ∀ {results : List (ℕ × ApiKey × ApiKeyTestResult)} {t : KeyTable},
    id ∉ results.map (·.1) → (classifyAll rot clock results t).get? id = t.get? id
  | [], _, _ => rfl
  | (i, k, result) :: rest, t, h => by
    rw [List.map_cons, List.mem_cons, not_or] at h
    obtain ⟨hi, hrest⟩ := h
    unfold classifyAll
    split
    · rfl
    · exact classifyAll_get?_of_notMem hrest
    · split
      · rfl
      · rename_i t' ht'
        rw [classifyAll_get?_of_notMem hrest, Recorder.commit_get? ht', if_neg hi]

/-- The loop ends at a result: its classification raises, or the row it is
recorded for is gone. -/
def Stops (rot : Rotation) (clock : ℕ → ℤ) (t : KeyTable) (x : ℕ × ApiKey × ApiKeyTestResult) : Prop :=
  (∃ e, x.2.2.classify rot.pyFloat (clock x.1) = .error e) ∨
    (∃ v, x.2.2.classify rot.pyFloat (clock x.1) = .ok (some v)) ∧ t.get? x.1 = none

theorem Stops.congr {x : ℕ × ApiKey × ApiKeyTestResult} {t' : KeyTable} (h : t'.get? x.1 = t.get? x.1) :
    Stops rot clock t' x ↔ Stops rot clock t x := by
  unfold Stops
  rw [h]

/-- A result at which the loop ends leaves the keys after it as they were. -/
theorem classifyAll_get?_of_stops : ∀ {results : List (ℕ × ApiKey × ApiKeyTestResult)} {t : KeyTable},
    (results.map (·.1)).Pairwise (· < ·) → (∃ x ∈ results, x.1 < id ∧ Stops rot clock t x) →
      (classifyAll rot clock results t).get? id = t.get? id
  | [], _, _, ⟨x, hx, _⟩ => by cases hx
  | (i, k, result) :: rest, t, hsorted, ⟨x, hx, hlt, hstops⟩ => by
    rw [List.map_cons] at hsorted
    obtain ⟨hhead, hsorted'⟩ := List.pairwise_cons.mp hsorted
    have hi : i < id := by
      rcases List.mem_cons.mp hx with rfl | hrest
      · exact hlt
      · exact (hhead x.1 (List.mem_map_of_mem hrest)).trans hlt
    have hrest : ¬ Stops rot clock t (i, k, result) → x ∈ rest := fun hgoes => by
      rcases List.mem_cons.mp hx with rfl | hrest
      · exact absurd hstops hgoes
      · exact hrest
    unfold classifyAll
    split
    · rfl
    · rename_i hnone
      exact classifyAll_get?_of_stops hsorted' ⟨x, hrest (by simp [Stops, hnone]), hlt, hstops⟩
    · rename_i v hv
      split
      · rfl
      · rename_i t' ht'
        have hrow : t.get? i ≠ none := Option.isSome_iff_ne_none.mp ((Recorder.commit_eq_some_iff.mp ht').2.1 rfl)
        have hx' : x ∈ rest := hrest (by simp [Stops, hv, hrow])
        have hstops' : Stops rot clock t' x := by
          rw [Stops.congr]
          · exact hstops
          · rw [Recorder.commit_get? ht', if_neg (ne_of_gt (hhead x.1 (List.mem_map_of_mem hx')))]
        rw [classifyAll_get?_of_stops hsorted' ⟨x, hx', hlt, hstops'⟩, Recorder.commit_get? ht', if_neg (ne_of_gt hi)]

/-- Where it does not end before, the loop records the result of a key. -/
theorem classifyAll_get?_of_mem {k : ApiKey} {result : ApiKeyTestResult} :
    ∀ {results : List (ℕ × ApiKey × ApiKeyTestResult)} {t : KeyTable},
      (results.map (·.1)).Pairwise (· < ·) → t.get? id = some k →
      (∀ x ∈ results, x.1 < id → ¬ Stops rot clock t x) → (id, k, result) ∈ results →
      (classifyAll rot clock results t).get? id =
        some ((result.classify rot.pyFloat (clock id)).toOption.join.elim k fun v =>
          (Recorder.update v).write k k)
  | [], _, _, _, _, hmem => by cases hmem
  | (i, k', result') :: rest, t, hsorted, hrow, hgoes, hmem => by
    rw [List.map_cons] at hsorted
    obtain ⟨hlt, hsorted'⟩ := List.pairwise_cons.mp hsorted
    rcases List.mem_cons.mp hmem with heq | hrest
    · -- The key itself: every other key of the list comes later.
      cases heq
      have hout : id ∉ rest.map (·.1) := fun hin => lt_irrefl _ (hlt id hin)
      unfold classifyAll
      split
      · rename_i e he
        rw [hrow, he]
        rfl
      · rename_i hnone
        rw [classifyAll_get?_of_notMem hout, hrow, hnone]
        rfl
      · rename_i v hv
        obtain ⟨t', ht', hrow'⟩ := commit_fresh (.update v) rfl hrow
        rw [ht', hv]
        simp only
        rw [classifyAll_get?_of_notMem hout, hrow']
        rfl
    · have hi : i < id := hlt _ (List.mem_map_of_mem hrest)
      have hhead : ¬ Stops rot clock t (i, k', result') := hgoes _ List.mem_cons_self hi
      have hgoes' := fun x hx => hgoes x (List.mem_cons_of_mem _ hx)
      unfold classifyAll
      split
      · rename_i e he
        exact absurd (Or.inl ⟨e, he⟩) hhead
      · exact classifyAll_get?_of_mem hsorted' hrow hgoes' hrest
      · rename_i v hv
        split
        · rename_i hgone
          have hnone : t.get? i = none := by
            simpa [Recorder.commit, Recorder.fits, Recorder.flushes] using hgone
          exact absurd (Or.inr ⟨⟨v, hv⟩, hnone⟩) hhead
        · rename_i t' ht'
          refine classifyAll_get?_of_mem hsorted' ?_ (fun x hx hlt' => ?_) hrest
          · rw [Recorder.commit_get? ht', if_neg (ne_of_gt hi), hrow]
          · rw [Stops.congr]
            · exact hgoes' x hx hlt'
            · rw [Recorder.commit_get? ht', if_neg (ne_of_gt (hlt x.1 (List.mem_map_of_mem hx)))]

end

/-! ### The probes leave what the verdict says -/

theorem marked_write (k : ApiKey) (v : Option KeyValues) :
    (v.elim k fun v => (Recorder.update v).write k k).standing = k.marked v := by
  cases v with
  | none => rfl
  | some v => exact write_standing v k

/-- Something ends the batch before key `id` is classified: a call that raised,
or the classification of an earlier key. -/
def CutShort (rot : Rotation) (clock : ℕ → ℤ) (answers : ℕ → Upstream) (t : KeyTable) (id : ℕ) : Prop :=
  ∃ j k, t.get? j = some k ∧ k.status = .active ∧ (rot.vault k.keyEncrypted).isSome = true ∧
    (answers j = .raised ∨
      j < id ∧ ∃ r, answers j = .response r ∧ r.Endless rot.pyFloat (clock j))

section

variable {rot : Rotation} {clock : ℕ → ℤ} {answers : ℕ → Upstream} {now : ℤ} {u : Upstream}
  {t : KeyTable} {id : ℕ} {row : ApiKey} {raw : String}

theorem testOne_transport (hrow : t.get? id = some row) :
    standing (testOneKey rot now .transport t id) id = some (row.marked none) := by
  simp only [testOneKey, hrow, probe]
  cases rot.vault row.keyEncrypted <;> exact standing_of_get? hrow

theorem testOne_standing (hrow : t.get? id = some row) (hkey : rot.vault row.keyEncrypted = some raw)
    (hu : u ≠ .transport) :
    standing (testOneKey rot now u t id) id = some (row.marked (u.verdict rot.pyFloat now)) := by
  simp only [testOneKey, hrow, hkey]
  cases hp : probe u with
  | error e =>
    cases u with
    | response r => cases hp
    | transport => cases hp
    | raised => exact standing_of_get? hrow
  | ok result =>
    cases u with
    | transport => exact absurd rfl hu
    | raised => cases hp
    | response r =>
      obtain ⟨hverdict, -⟩ := classify_probe rot.pyFloat now hp
      rw [← hverdict]
      simp only
      rcases result.classify rot.pyFloat now with e | _ | v
      · exact standing_of_get? hrow
      · exact standing_of_get? hrow
      · exact leaves_update v (.models true []) hrow

theorem probed_error {k : ApiKey} (h : (rot.vault k.keyEncrypted).isSome = true) (hraised : answers id = .raised) :
    ∃ e, probed rot answers id k = .error e := by
  obtain ⟨raw, hraw⟩ := Option.isSome_iff_exists.mp h
  refine ⟨.other, ?_⟩
  rw [probed, hraw, hraised]
  rfl

theorem probed_ok {k : ApiKey} (h : (rot.vault k.keyEncrypted).isSome = true → answers id ≠ .raised) :
    ∃ result, probed rot answers id k = .ok result := by
  unfold probed
  cases hk : rot.vault k.keyEncrypted with
  | none => exact ⟨_, rfl⟩
  | some raw =>
    rw [hk] at h
    cases hu : answers id with
    | response r => exact ⟨_, rfl⟩
    | transport => exact ⟨_, rfl⟩
    | raised => exact absurd hu (h rfl)

/-- The classification of a probed key raises exactly for an endless
`Retry-After`. -/
theorem probed_classify_error_iff {k : ApiKey} :
    (∃ e, ((probed rot answers id k).toOption.getD .failed).classify rot.pyFloat now = .error e) ↔
      (rot.vault k.keyEncrypted).isSome = true ∧
        ∃ r, answers id = .response r ∧ r.Endless rot.pyFloat now := by
  have hfailed : ¬ ∃ e, ApiKeyTestResult.failed.classify rot.pyFloat now = .error e := ok_ne_error
  unfold probed
  cases hk : rot.vault k.keyEncrypted with
  | none => exact iff_of_false hfailed (by simp)
  | some raw =>
    cases hu : answers id with
    | transport => exact iff_of_false hfailed (by simp)
    | raised => exact iff_of_false hfailed (by simp)
    | response r =>
      obtain ⟨-, hendless⟩ := classify_probe rot.pyFloat now (rfl : probe (.response r) = _)
      simpa [probe, Except.toOption] using hendless

theorem exists_probed_error {ks : List (ℕ × ApiKey)}
    (h : ¬ ∀ x ∈ ks, ∃ result, probed rot answers x.1 x.2 = .ok result) :
    ∃ x ∈ ks, ∃ e, probed rot answers x.1 x.2 = .error e := by
  by_contra hnone
  refine h fun x hx => ?_
  cases hp : probed rot answers x.1 x.2 with
  | ok result => exact ⟨result, rfl⟩
  | error e => exact absurd ⟨x, hx, e, hp⟩ hnone

/-- The table after a batch none of whose calls raised. -/
theorem probeAllActive_eq (h : ∀ x ∈ loadActive t, ∃ result, probed rot answers x.1 x.2 = .ok result) :
    probeAllActive rot clock answers t = classifyAll rot clock
      ((loadActive t).map fun x => (x.1, x.2, (probed rot answers x.1 x.2).toOption.getD .failed)) t := by
  rw [probeAllActive, gather_ok clock h]

theorem results_sorted (t : KeyTable) (f : ℕ × ApiKey → ApiKeyTestResult) :
    (((loadActive t).map fun x => (x.1, x.2, f x)).map (·.1)).Pairwise (· < ·) := by
  rw [List.map_map]
  exact ids_sorted t

theorem testAll_cutShort (hrow : t.get? id = some row) (hcut : CutShort rot clock answers t id) :
    standing (probeAllActive rot clock answers t) id = some (row.marked none) := by
  have hmarked := standing_of_get? hrow
  obtain ⟨j, k, hk, hactive, hsome, hcause⟩ := hcut
  have hmem : (j, k) ∈ loadActive t := mem_loadActive.mpr ⟨hk, hactive⟩
  by_cases hall : ∀ x ∈ loadActive t, ∃ result, probed rot answers x.1 x.2 = .ok result
  · rcases hcause with hraised | ⟨hlt, hend⟩
    · obtain ⟨e, he⟩ := probed_error hsome hraised
      obtain ⟨result, hok⟩ := hall _ hmem
      rw [he] at hok
      cases hok
    · rw [probeAllActive_eq hall, standing, classifyAll_get?_of_stops (results_sorted t _)]
      · exact hmarked
      · exact ⟨_, List.mem_map_of_mem hmem, hlt, Or.inl (probed_classify_error_iff.mpr ⟨hsome, hend⟩)⟩
  · obtain ⟨e, he⟩ := gather_error clock (t := t) (exists_probed_error hall)
    rw [probeAllActive, he]
    exact hmarked

theorem testAll_standing (hrow : t.get? id = some row) (hkey : rot.vault row.keyEncrypted = some raw)
    (hactive : row.status = .active) (hu : answers id ≠ .transport) (hcut : ¬ CutShort rot clock answers t id) :
    standing (probeAllActive rot clock answers t) id =
      some (row.marked ((answers id).verdict rot.pyFloat (clock id))) := by
  have hmem : (id, row) ∈ loadActive t := mem_loadActive.mpr ⟨hrow, hactive⟩
  have hnot : ∀ x ∈ loadActive t, (rot.vault x.2.keyEncrypted).isSome = true →
      answers x.1 ≠ .raised ∧
        (x.1 < id → ¬ ∃ r, answers x.1 = .response r ∧ r.Endless rot.pyFloat (clock x.1)) := by
    intro x hx hsome
    obtain ⟨hk, hxactive⟩ := mem_loadActive.mp hx
    exact ⟨fun hr => hcut ⟨x.1, x.2, hk, hxactive, hsome, Or.inl hr⟩,
      fun hlt hend => hcut ⟨x.1, x.2, hk, hxactive, hsome, Or.inr ⟨hlt, hend⟩⟩⟩
  have hall : ∀ x ∈ loadActive t, ∃ result, probed rot answers x.1 x.2 = .ok result :=
    fun x hx => probed_ok fun hsome => (hnot x hx hsome).1
  obtain ⟨result, hresult⟩ := hall _ hmem
  rw [probeAllActive_eq hall, standing, classifyAll_get?_of_mem (results_sorted t _) hrow ?_
    (List.mem_map_of_mem hmem), Option.map_some, marked_write, hresult]
  · have hprobe : probe (answers id) = .ok result := by
      rw [probed, hkey] at hresult
      exact hresult
    cases hans : answers id with
    | transport => exact absurd hans hu
    | raised =>
      rw [hans] at hprobe
      cases hprobe
    | response r =>
      rw [hans] at hprobe
      exact congrArg (fun v => some (row.marked v)) (classify_probe rot.pyFloat (clock id) hprobe).1
  · intro y hy hlt hstops
    obtain ⟨x, hx, rfl⟩ := List.mem_map.mp hy
    rcases hstops with hraised | ⟨-, hgone⟩
    · obtain ⟨hsome, hend⟩ := probed_classify_error_iff.mp hraised
      exact (hnot x hx hsome).2 hlt hend
    · rw [(mem_loadActive.mp hx).1] at hgone
      cases hgone

end

/-! ### When they are alike -/

@[simp] theorem withJson_transport {u : Upstream} {json : Except PyError Json} :
    u.withJson json = .transport ↔ u = .transport := by
  cases u <;> simp [Upstream.withJson]

@[simp] theorem verdict_withJson (u : Upstream) (json : Except PyError Json) (pyFloat : String → Option PyFloat)
    (now : ℤ) : (u.withJson json).verdict pyFloat now = u.verdict pyFloat now := by
  cases u <;> rfl

theorem withJson_response {u : Upstream} {json : Except PyError Json} {r : Response}
    (h : u.withJson json = .response r) : ∃ r', u = .response r' ∧ r = { r' with json := json } := by
  cases u with
  | response r' =>
    cases h
    exact ⟨r', rfl, rfl⟩
  | transport | raised => cases h

section

variable {rot : Rotation} {clock : ℕ → ℤ} {answers : ℕ → Upstream} {json : User → Except PyError Json}
  {t : KeyTable} {id : ℕ} {row : ApiKey} {raw : String}

/-- Every user that gets as far as recording leaves what the verdict says. -/
theorem User.leaves_standing (hrow : t.get? id = some row) (hkey : rot.vault row.keyEncrypted = some raw)
    (h404 : ∀ r, answers id = .response r → r.statusCode ≠ 404)
    (hbody : ∀ r, answers id = .response r → r.isSuccess = true →
      ∃ ids, listModelsV1 { r with json := json .modelList } = .ok ids)
    (hu : answers id ≠ .transport)
    (hread : ∀ r, answers id = .response r → r.isSuccess = true →
      Recordable (clock id) row { r with json := json (.chat false) })
    (hcut : row.status = .active → CutShort rot clock answers t id →
      (answers id).Unrecorded rot.pyFloat (clock id))
    (user : User) (huser : user.Calls row) :
    standing (user.leaves rot clock answers (json user) t id row) id =
      some (row.marked ((answers id).verdict rot.pyFloat (clock id))) := by
  have h404' : ∀ json' r, (answers id).withJson json' = .response r → r.statusCode ≠ 404 := by
    intro json' r hr
    obtain ⟨r', hr', rfl⟩ := withJson_response hr
    exact h404 r' hr'
  cases user with
  | chat stream =>
    rw [← verdict_withJson (answers id) (json (.chat stream))]
    refine chat_standing (h404' _) (fun r hr hsuccess => ?_) hrow
    obtain ⟨r', hr', rfl⟩ := withJson_response hr
    cases stream with
    | true => exact Or.inl rfl
    | false => exact Or.inr (hread r' hr' hsuccess)
  | modelList =>
    rw [← verdict_withJson (answers id) (json .modelList)]
    refine models_standing (h404' _) (fun r hr hsuccess => ?_) hrow
    obtain ⟨r', hr', rfl⟩ := withJson_response hr
    exact hbody r' hr' hsuccess
  | testOne => exact testOne_standing hrow hkey hu
  | testAll =>
    by_cases h : CutShort rot clock answers t id
    · rw [(verdict_eq_none_iff h404).mpr (hcut huser h)]
      exact testAll_cutShort hrow h
    · exact testAll_standing hrow hkey huser hu h

/-- The users of a key leave it alike exactly if the outcome is an answer of
the server, the chat path can record the usage of a 2xx, and the batch gets as
far as the key, unless nothing is recorded of the answer anyway. -/
theorem alike_iff (hrow : t.get? id = some row) (hkey : rot.vault row.keyEncrypted = some raw)
    (h404 : ∀ r, answers id = .response r → r.statusCode ≠ 404)
    (hbody : ∀ r, answers id = .response r → r.isSuccess = true →
      ∃ ids, listModelsV1 { r with json := json .modelList } = .ok ids) :
    Alike rot clock answers json t id row ↔
      answers id ≠ .transport ∧
      (∀ r, answers id = .response r → r.isSuccess = true →
        Recordable (clock id) row { r with json := json (.chat false) }) ∧
      (row.status = .active → CutShort rot clock answers t id →
        (answers id).Unrecorded rot.pyFloat (clock id)) := by
  refine ⟨fun h => ?_, fun ⟨hu, hread, hcut⟩ user user' huser huser' => ?_⟩
  · have hu : answers id ≠ .transport := by
      intro hu
      have hsame := h (.chat false) .testOne trivial trivial
      simp only [User.leaves, hu, Upstream.withJson, dispatchOne] at hsame
      rw [leaves_update _ _ hrow, testOne_transport hrow, Option.some.injEq] at hsame
      have hnone : Upstream.transport.verdict rot.pyFloat (clock id) = none := (marked_eq_none_iff row).mp hsame
      cases hnone
    have hone : standing (User.testOne.leaves rot clock answers (json .testOne) t id row) id =
        some (row.marked ((answers id).verdict rot.pyFloat (clock id))) := testOne_standing hrow hkey hu
    refine ⟨hu, fun r hr hsuccess => ?_, fun hactive hcut => ?_⟩
    · by_contra hread
      have hchat : standing ((User.chat false).leaves rot clock answers (json (.chat false)) t id row) id =
          some (row.marked none) := by
        simp only [User.leaves, hr, Upstream.withJson, dispatchOne]
        rw [if_pos (by exact hsuccess)]
        exact leaves_chatUnrecorded hread hrow
      have hsame := h (.chat false) .testOne trivial trivial
      rw [hone, hchat, hr, Option.some.injEq] at hsame
      have hnone := (marked_eq_none_iff row).mp hsame.symm
      rw [verdict_success _ hsuccess] at hnone
      cases hnone
    · have hsame := h .testAll .testOne hactive trivial
      rw [hone] at hsame
      simp only [User.leaves] at hsame
      rw [testAll_cutShort hrow hcut, Option.some.injEq] at hsame
      exact (verdict_eq_none_iff h404).mp ((marked_eq_none_iff row).mp hsame.symm)
  · rw [User.leaves_standing hrow hkey h404 hbody hu hread hcut user huser,
      User.leaves_standing hrow hkey h404 hbody hu hread hcut user' huser']

end

namespace Sample

/-- `.json()` of every body is `{}`. -/
def emptyBody : User → Except PyError Json := fun _ => .ok (.dict [])

/-- The users of key 1 leave it alike where upstream answers 503, whatever it
answers to key 2. -/
theorem alike_iff_unavailable : Alike rotation (fun _ => 0) (fun _ => reply 503) emptyBody pool 1 (key "a") ↔
    reply 503 ≠ .transport ∧
    (∀ r, reply 503 = .response r → r.isSuccess = true →
      Recordable 0 (key "a") { r with json := emptyBody (.chat false) }) ∧
    ((key "a").status = .active → CutShort rotation (fun _ => 0) (fun _ => reply 503) pool 1 →
      (reply 503).Unrecorded float 0) :=
  alike_iff (t := pool) rfl rfl (fun r hr => by cases hr; decide) (fun r hr hs => by cases hr; cases hs)

/-- A timeout: the chat path counts a failure, a probe does not. -/
theorem timeout_not_alike :
    ¬ Alike rotation (fun _ => 0) (fun _ => .transport) emptyBody pool 1 (key "a") := by
  intro h
  have hsame := h (.chat false) .testOne trivial trivial
  revert hsame
  decide

end Sample

end OllamaProxy
