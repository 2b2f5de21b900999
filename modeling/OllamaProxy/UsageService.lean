/-
# The usage service

`fetch_snapshot` returns what `/api/me` and `/api/usage` say about a key, from
its cache or from upstream, with the local counts of the row it was given. The
cache and the locks are kept by the id of the row; a lock is made when it is
first asked for.

`Usage` is one service with its callers, each at one await (`SnapshotPc`). For
each id its fetches are a history of a guard (`Kit.Flight`). The secret noted
with an entry and with a returned snapshot is history: the one that its account
and its official part were fetched with.

Key definitions: `UsageService`, `Usage.step`, `Usage.fetches`.
Key theorems: `step_moves`, `step_follows`, `usage_single_flight`.
-/
import OllamaProxy.ApiKey
import OllamaProxy.UsageParse
import OllamaProxy.Lib.SingleFlight

namespace OllamaProxy

open Kit

/-! ### Snapshots -/

structure UsageSnapshot where
  account : AccountInfo
  official : OfficialUsage
deriving DecidableEq

structure LocalCumsum where
  sessionPromptTokens : ℤ
  sessionCompletionTokens : ℤ
  sessionWindowStartedAt : Option ℤ
  weeklyPromptTokens : ℤ
  weeklyCompletionTokens : ℤ
  weeklyWindowStartedAt : Option ℤ
  lastTokenAt : Option ℤ
  windowKind : String := "rolling_24h_7d"
deriving DecidableEq

inductive UpstreamStatus
  | ok
  | unreachable
  | unauthorised
  | pending
deriving DecidableEq

structure KeyUsageSnapshot where
  id : ℕ
  label : Option String
  keyPreview : String
  account : Option AccountInfo := none
  official : Option OfficialUsage := none
  localCumsum : LocalCumsum
  upstreamStatus : UpstreamStatus
  upstreamError : Option String := none
deriving DecidableEq

def ApiKey.keyPreview (apiKey : ApiKey) : String :=
  if apiKey.keyPrefix = "" then "" else apiKey.keyPrefix ++ "…"

def cumsumFromRow (apiKey : ApiKey) : LocalCumsum where
  sessionPromptTokens := apiKey.sessionPromptTokens
  sessionCompletionTokens := apiKey.sessionCompletionTokens
  sessionWindowStartedAt := apiKey.sessionWindowStartedAt
  weeklyPromptTokens := apiKey.weeklyPromptTokens
  weeklyCompletionTokens := apiKey.weeklyCompletionTokens
  weeklyWindowStartedAt := apiKey.weeklyWindowStartedAt
  lastTokenAt := apiKey.lastTokenAt

/-- A snapshot without the two parts. -/
def bareSnapshot (id : ℕ) (apiKey : ApiKey) (status : UpstreamStatus) (error : Option String) : KeyUsageSnapshot where
  id := id
  label := apiKey.label
  keyPreview := apiKey.keyPreview
  localCumsum := cumsumFromRow apiKey
  upstreamStatus := status
  upstreamError := error

def UsageSnapshot.toResponse (snap : UsageSnapshot) (id : ℕ) (apiKey : ApiKey) (status : UpstreamStatus)
    (error : Option String) : KeyUsageSnapshot :=
  { bareSnapshot id apiKey status error with account := some snap.account, official := some snap.official }

/-! ### Upstream -/

/-- The exceptions of a fetch: a status other than 2xx, a body that `.json()`
does not read, a call without a response, and payloads that do not parse. -/
inductive UsageFault
  | status (code : ℕ)
  | body (e : PyError)
  | transport (text : String)
  | parse (e : PyError) (account usage : Payload)

/-- `vault` is `Vault.decrypt`, an error the text of its exception; `str` is the
text of an exception. -/
structure UsageLibrary where
  vault : String → Except String String
  fromisoformat : String → Option DateTime
  str : UsageFault → String

inductive UsageReply
  | response (r : Response)
  | failed (text : String)

/-- What `get_account` and `get_usage` make of a reply. -/
def UsageReply.payload : UsageReply → Except UsageFault Payload
  | .failed text => .error (.transport text)
  | .response r =>
    if r.isSuccess then
      match r.json with
      | .ok (.dict items) => .ok items
      | .ok _ => .ok []
      | .error e => .error (.body e)
    else .error (.status r.statusCode)

/-- The rest of `_fetch_locked`. -/
def parseSnapshot (lib : UsageLibrary) (account usage : Payload) (fetchedAt : ℤ) : Except UsageFault UsageSnapshot :=
  let snap : Except PyError UsageSnapshot := do
    let account ← parseAccount account fetchedAt
    let official ← parseOfficial lib.fromisoformat usage fetchedAt
    return ⟨account, official⟩
  snap.mapError fun e => .parse e account usage

/-- The exception becomes an `_AuthRejected`. -/
def UsageFault.rejects : UsageFault → Bool
  | .status code => code = 401 || code = 403
  | _ => false

/-! ### The service -/

structure UsageEntry where
  ts : ℤ
  snap : UsageSnapshot
  rawKey : String
deriving DecidableEq

/-- `locks id` is the holder of the lock, if there is a lock. -/
structure UsageService where
  ttlSeconds : ℤ
  cache : ℕ → Option UsageEntry
  locks : ℕ → Option (Option ℕ)

/-- The await a call is suspended at. -/
inductive SnapshotPc
  | idle
  | queued
  | account (rawKey : String)
  | usage (rawKey : String) (account : Payload)
  | done (snap : KeyUsageSnapshot) (source : Option String)
  | cancelled

structure SnapshotCall where
  id : ℕ
  apiKey : ApiKey
  force : Bool
  pc : SnapshotPc

/-- Between the start of the fetch and its end. -/
def SnapshotPc.isFetching : SnapshotPc → Bool
  | .account _ | .usage _ _ => true
  | _ => false

namespace UsageService

def new (ttlSeconds : ℤ) : UsageService := ⟨max 1 ttlSeconds, fun _ => none, fun _ => none⟩

def getLock (s : UsageService) (id : ℕ) : UsageService :=
  match s.locks id with
  | some _ => s
  | none => { s with locks := Function.update s.locks id (some none) }

def cacheFresh (s : UsageService) (id : ℕ) (now : ℤ) : Bool :=
  match s.cache id with
  | none => false
  | some entry => now - entry.ts < seconds s.ttlSeconds

def cachePut (s : UsageService) (id : ℕ) (now : ℤ) (snap : UsageSnapshot) (rawKey : String) : UsageService :=
  { s with cache := Function.update s.cache id (some ⟨now, snap, rawKey⟩) }

def setLock (s : UsageService) (id : ℕ) (holder : Option ℕ) : UsageService :=
  { s with locks := Function.update s.locks id (some holder) }

/-- `if not force and self._cache_fresh(api_key.id)`. -/
def cached (s : UsageService) (c : SnapshotCall) (now : ℤ) : Option SnapshotPc :=
  if !c.force && s.cacheFresh c.id now then
    (s.cache c.id).map fun entry =>
      .done (entry.snap.toResponse c.id c.apiKey .ok none) (some entry.rawKey)
  else none

/-- Inside the lock, up to the first upstream call. -/
def enter (lib : UsageLibrary) (s : UsageService) (c : SnapshotCall) (p : ℕ) (now : ℤ) :
    UsageService × SnapshotPc :=
  match s.cached c now with
  | some pc => (s, pc)
  | none =>
    match lib.vault c.apiKey.keyEncrypted with
    | .error inner => (s, .done (bareSnapshot c.id c.apiKey .unreachable (some ("vault: " ++ inner))) none)
    | .ok rawKey => (s.setLock c.id (some p), .account rawKey)

/-- The two `except` clauses. -/
def failed (lib : UsageLibrary) (s : UsageService) (c : SnapshotCall) (fault : UsageFault) : SnapshotPc :=
  if fault.rejects then
    .done (bareSnapshot c.id c.apiKey .unauthorised (some "upstream returned 401/403")) none
  else
    match s.cache c.id with
    | some stale =>
      .done (stale.snap.toResponse c.id c.apiKey .unreachable (some (lib.str fault))) (some stale.rawKey)
    | none => .done (bareSnapshot c.id c.apiKey .unreachable (some (lib.str fault))) none

/-- The fetch raises. -/
def fail (lib : UsageLibrary) (s : UsageService) (c : SnapshotCall) (fault : UsageFault) :
    UsageService × SnapshotPc :=
  (s.setLock c.id none, s.failed lib c fault)

/-- `get_account` returns. -/
def onAccount (lib : UsageLibrary) (s : UsageService) (c : SnapshotCall) (rawKey : String) (reply : UsageReply) :
    UsageService × SnapshotPc :=
  match reply.payload with
  | .ok account => (s, .usage rawKey account)
  | .error fault => s.fail lib c fault

/-- `get_usage` returns, and the payloads are parsed. -/
def onUsage (lib : UsageLibrary) (s : UsageService) (c : SnapshotCall) (rawKey : String) (account : Payload)
    (reply : UsageReply) (now utcnow : ℤ) : UsageService × SnapshotPc :=
  match reply.payload.bind fun usage => parseSnapshot lib account usage utcnow with
  | .ok snap =>
    ((s.cachePut c.id now snap rawKey).setLock c.id none,
      .done (snap.toResponse c.id c.apiKey .ok none) (some rawKey))
  | .error fault => s.fail lib c fault

end UsageService

/-! ### Callers -/

structure Usage where
  service : UsageService
  now : ℤ
  utcnow : ℤ
  calls : ℕ → SnapshotCall

namespace Usage

/-- A call starts with a row, gets the lock and runs to its next await, gets an
upstream reply, or is cancelled. -/
inductive Action
  | fetch (p id : ℕ) (apiKey : ApiKey) (force : Bool)
  | enter (p : ℕ)
  | reply (p : ℕ) (r : UsageReply)
  | cancel (p : ℕ)
  | tick (d : ℕ)

def init (ttlSeconds now utcnow : ℤ) : Usage where
  service := .new ttlSeconds
  now := now
  utcnow := utcnow
  calls := fun _ => ⟨0, .new "" "" "" none 0, false, .idle⟩

/-- Call `p` goes on to its next await. -/
def put (s : Usage) (p : ℕ) (x : UsageService × SnapshotPc) : Usage :=
  { s with
    service := x.1
    calls := Function.update s.calls p { s.calls p with pc := x.2 } }

def step (lib : UsageLibrary) (s : Usage) : Action → Option Usage
  | .fetch p id apiKey force =>
    match (s.calls p).pc with
    | .idle =>
      let c : SnapshotCall := ⟨id, apiKey, force, .queued⟩
      let s := { s with calls := Function.update s.calls p c }
      match s.service.cached c s.now with
      | some pc => some (s.put p (s.service, pc))
      | none => some (s.put p (s.service.getLock id, .queued))
    | _ => none
  | .enter p =>
    match (s.calls p).pc with
    | .queued =>
      if s.service.locks (s.calls p).id = some none then
        some (s.put p (s.service.enter lib (s.calls p) p s.now))
      else none
    | _ => none
  | .reply p r =>
    match (s.calls p).pc with
    | .account rawKey => some (s.put p (s.service.onAccount lib (s.calls p) rawKey r))
    | .usage rawKey account =>
      some (s.put p (s.service.onUsage lib (s.calls p) rawKey account r s.now s.utcnow))
    | _ => none
  | .cancel p =>
    match (s.calls p).pc with
    | .queued => some (s.put p (s.service, .cancelled))
    | .account _ | .usage _ _ => some (s.put p (s.service.setLock (s.calls p).id none, .cancelled))
    | _ => none
  | .tick d => some { s with now := s.now + d, utcnow := s.utcnow + d }

/-- What the step does to a fetch for the id: a call comes to its first upstream
call, or its fetch ends, with a snapshot or without. -/
def fetches (lib : UsageLibrary) (id : ℕ) (s : Usage) : Action → List (Flight.Event ℕ UsageSnapshot)
  | .enter p =>
    match s.step lib (.enter p) with
    | some s' =>
      if (s.calls p).id = id ∧ (s'.calls p).pc.isFetching = true then
        [⟨s.now, p, .began (s.calls p).force⟩]
      else []
    | none => []
  | .reply p r =>
    if (s.calls p).id = id then
      match (s.calls p).pc with
      | .account _ =>
        match r.payload with
        | .ok _ => []
        | .error _ => [⟨s.now, p, .failed⟩]
      | .usage _ account =>
        match r.payload.bind fun usage => parseSnapshot lib account usage s.utcnow with
        | .ok snap => [⟨s.now, p, .stored snap⟩]
        | .error _ => [⟨s.now, p, .failed⟩]
      | _ => []
    else []
  | .cancel p =>
    if (s.calls p).id = id ∧ (s.calls p).pc.isFetching = true then [⟨s.now, p, .failed⟩] else []
  | _ => []

/-! ### A step -/

/-- The reply ends the fetch of the call with an exception. -/
def Faults (lib : UsageLibrary) (s : Usage) (p : ℕ) (r : UsageReply) (fault : UsageFault) : Prop :=
  (∃ rawKey, (s.calls p).pc = .account rawKey ∧ r.payload = .error fault) ∨
    ∃ rawKey account, (s.calls p).pc = .usage rawKey account ∧
      (r.payload.bind fun usage => parseSnapshot lib account usage s.utcnow) = .error fault

/-- What a step is. -/
inductive Moves (lib : UsageLibrary) (s : Usage) : Action → Usage → Prop
  | served (p id : ℕ) (apiKey : ApiKey) (entry : UsageEntry) (hidle : (s.calls p).pc = .idle)
    (hentry : s.service.cache id = some entry) :
    Moves lib s (.fetch p id apiKey false) { s with
      calls := Function.update s.calls p ⟨id, apiKey, false,
        .done (entry.snap.toResponse id apiKey .ok none) (some entry.rawKey)⟩ }
  | waits (p id : ℕ) (apiKey : ApiKey) (force : Bool) (hidle : (s.calls p).pc = .idle) :
    Moves lib s (.fetch p id apiKey force) { s with
      service := s.service.getLock id
      calls := Function.update s.calls p ⟨id, apiKey, force, .queued⟩ }
  | servedInside (p : ℕ) (entry : UsageEntry) (hqueued : (s.calls p).pc = .queued)
    (hentry : s.service.cache (s.calls p).id = some entry) :
    Moves lib s (.enter p) (s.put p (s.service,
      .done (entry.snap.toResponse (s.calls p).id (s.calls p).apiKey .ok none) (some entry.rawKey)))
  | undecryptable (p : ℕ) (inner : String) (hqueued : (s.calls p).pc = .queued)
    (hvault : lib.vault (s.calls p).apiKey.keyEncrypted = .error inner) :
    Moves lib s (.enter p) (s.put p (s.service,
      .done (bareSnapshot (s.calls p).id (s.calls p).apiKey .unreachable (some ("vault: " ++ inner))) none))
  | begins (p : ℕ) (rawKey : String) (hqueued : (s.calls p).pc = .queued)
    (hlock : s.service.locks (s.calls p).id = some none)
    (hstale : (s.calls p).force = true ∨ s.service.cacheFresh (s.calls p).id s.now = false)
    (hvault : lib.vault (s.calls p).apiKey.keyEncrypted = .ok rawKey) :
    Moves lib s (.enter p) (s.put p (s.service.setLock (s.calls p).id (some p), .account rawKey))
  | goesOn (p : ℕ) (r : UsageReply) (rawKey : String) (account : Payload) (hpc : (s.calls p).pc = .account rawKey)
    (hreply : r.payload = .ok account) :
    Moves lib s (.reply p r) (s.put p (s.service, .usage rawKey account))
  | stores (p : ℕ) (r : UsageReply) (rawKey : String) (account : Payload) (snap : UsageSnapshot)
    (hpc : (s.calls p).pc = .usage rawKey account)
    (hsnap : (r.payload.bind fun usage => parseSnapshot lib account usage s.utcnow) = .ok snap) :
    Moves lib s (.reply p r) (s.put p
      ((s.service.cachePut (s.calls p).id s.now snap rawKey).setLock (s.calls p).id none,
        .done (snap.toResponse (s.calls p).id (s.calls p).apiKey .ok none) (some rawKey)))
  | fails (p : ℕ) (r : UsageReply) (fault : UsageFault) (hfault : s.Faults lib p r fault) :
    Moves lib s (.reply p r) (s.put p (s.service.fail lib (s.calls p) fault))
  | hangsUp (p : ℕ) (hqueued : (s.calls p).pc = .queued) :
    Moves lib s (.cancel p) (s.put p (s.service, .cancelled))
  | aborts (p : ℕ) (hfetching : (s.calls p).pc.isFetching = true) :
    Moves lib s (.cancel p) (s.put p (s.service.setLock (s.calls p).id none, .cancelled))
  | tick (d : ℕ) : Moves lib s (.tick d) { s with now := s.now + d, utcnow := s.utcnow + d }

variable {lib : UsageLibrary} {s s' : Usage} {a : Action} {id : ℕ}

theorem cached_eq (service : UsageService) (c : SnapshotCall) (now : ℤ) :
    (∃ entry, service.cache c.id = some entry ∧ c.force = false ∧ service.cached c now =
      some (.done (entry.snap.toResponse c.id c.apiKey .ok none) (some entry.rawKey))) ∨
    ((c.force = true ∨ service.cacheFresh c.id now = false) ∧ service.cached c now = none) := by
  unfold UsageService.cached
  by_cases hfresh : (!c.force && service.cacheFresh c.id now) = true
  · rw [if_pos hfresh]
    rw [Bool.and_eq_true, Bool.not_eq_true'] at hfresh
    obtain ⟨hforce, hfresh⟩ := hfresh
    cases hentry : service.cache c.id with
    | none =>
      rw [UsageService.cacheFresh, hentry] at hfresh
      cases hfresh
    | some entry => exact Or.inl ⟨entry, rfl, hforce, rfl⟩
  · rw [if_neg hfresh]
    refine Or.inr ⟨?_, rfl⟩
    by_cases hforce : c.force = true
    · exact Or.inl hforce
    · rw [Bool.not_eq_true] at hforce
      rw [hforce, Bool.not_false, Bool.true_and, Bool.not_eq_true] at hfresh
      exact Or.inr hfresh

theorem step_moves (h : s.step lib a = some s') : s.Moves lib a s' := by
  cases a with
  | fetch p id apiKey force =>
    simp only [step] at h
    split at h
    · rename_i hidle
      rcases cached_eq s.service ⟨id, apiKey, force, .queued⟩ s.now with
        ⟨entry, hentry, hforce, hcached⟩ | ⟨-, hcached⟩
      · rw [hcached] at h
        cases h
        cases hforce
        simp only [put, Function.update_self, Function.update_idem]
        exact .served p id apiKey entry hidle hentry
      · rw [hcached] at h
        cases h
        simp only [put, Function.update_self, Function.update_idem]
        exact .waits p id apiKey force hidle
    · cases h
  | enter p =>
    simp only [step] at h
    split at h
    · rename_i hqueued
      simp only [Option.ite_none_right_eq_some] at h
      obtain ⟨hlock, h⟩ := h
      cases h
      unfold UsageService.enter
      rcases cached_eq s.service (s.calls p) s.now with ⟨entry, hentry, hforce, hcached⟩ | ⟨hstale, hcached⟩
      · rw [hcached]
        exact .servedInside p entry hqueued hentry
      · rw [hcached]
        cases hvault : lib.vault (s.calls p).apiKey.keyEncrypted with
        | error inner => exact .undecryptable p inner hqueued hvault
        | ok rawKey => exact .begins p rawKey hqueued hlock hstale hvault
    · cases h
  | reply p r =>
    simp only [step] at h
    split at h
    · rename_i rawKey hpc
      cases h
      unfold UsageService.onAccount
      cases hreply : r.payload with
      | ok account => exact .goesOn p r rawKey account hpc hreply
      | error fault => exact .fails p r fault (Or.inl ⟨rawKey, hpc, hreply⟩)
    · rename_i rawKey account hpc
      cases h
      unfold UsageService.onUsage
      cases hsnap : r.payload.bind fun usage => parseSnapshot lib account usage s.utcnow with
      | ok snap => exact .stores p r rawKey account snap hpc hsnap
      | error fault => exact .fails p r fault (Or.inr ⟨rawKey, account, hpc, hsnap⟩)
    · cases h
  | cancel p =>
    simp only [step] at h
    split at h
    · rename_i hqueued
      cases h
      exact .hangsUp p hqueued
    · rename_i rawKey hpc
      cases h
      exact .aborts p (by rw [hpc]; rfl)
    · rename_i rawKey account hpc
      cases h
      exact .aborts p (by rw [hpc]; rfl)
    · cases h
  | tick d =>
    cases h
    exact .tick d

/-- The lock of an id is with the call whose fetch for the id is in progress. -/
def Sound (s : Usage) : Prop :=
  ∀ id p, s.service.locks id = some (some p) ↔ (s.calls p).id = id ∧ (s.calls p).pc.isFetching = true

theorem init_sound (ttlSeconds now utcnow : ℤ) : (init ttlSeconds now utcnow).Sound := by
  intro id p
  constructor
  · intro h
    cases h
  · rintro ⟨-, h⟩
    cases h

/-- A call goes on without a fetch, and no lock changes hands. -/
theorem Sound.stays (hs : s.Sound) {p : ℕ} {service : UsageService} {c : SnapshotCall}
    (hlocks : ∀ id q, service.locks id = some (some q) ↔ s.service.locks id = some (some q))
    (hold : (s.calls p).pc.isFetching = false) (hc : c.pc.isFetching = false) :
    Sound { s with service := service, calls := Function.update s.calls p c } := by
  intro id q
  rw [hlocks, hs id q]
  show _ ↔ (Function.update s.calls p c q).id = id ∧ (Function.update s.calls p c q).pc.isFetching = true
  by_cases hq : q = p
  · rw [hq, Function.update_self, hold, hc]
    simp
  · rw [Function.update_of_ne hq]

/-- The fetch of a call ends, and its lock is free. -/
theorem Sound.ends (hs : s.Sound) {p : ℕ} {service : UsageService} {pc : SnapshotPc}
    (hlocks : service.locks = Function.update s.service.locks (s.calls p).id (some none))
    (hold : (s.calls p).pc.isFetching = true) (hpc : pc.isFetching = false) :
    (s.put p (service, pc)).Sound := by
  intro id q
  show service.locks id = _ ↔ (Function.update s.calls p { s.calls p with pc := pc } q).id = id ∧
    (Function.update s.calls p { s.calls p with pc := pc } q).pc.isFetching = true
  have hholder := (hs (s.calls p).id p).mpr ⟨rfl, hold⟩
  rw [hlocks]
  by_cases hq : q = p
  · rw [hq, Function.update_self, hpc]
    by_cases hid : id = (s.calls p).id
    · rw [hid, Function.update_self]
      simp
    · rw [Function.update_of_ne hid, hs id p]
      simp [Ne.symm hid]
  · rw [Function.update_of_ne hq]
    by_cases hid : id = (s.calls p).id
    · rw [hid, Function.update_self, ← hs, hholder]
      simp [Ne.symm hq]
    · rw [Function.update_of_ne hid, hs id q]

theorem getLock_join (service : UsageService) (id : ℕ) (id' : ℕ) :
    ((service.getLock id).locks id').join = (service.locks id').join := by
  unfold UsageService.getLock
  split
  · rfl
  · rename_i hnone
    by_cases hid : id' = id
    · rw [hid, hnone]
      simp
    · show (Function.update service.locks id (some none) id').join = _
      rw [Function.update_of_ne hid]

theorem getLock_locks (service : UsageService) (id : ℕ) (id' q : ℕ) :
    (service.getLock id).locks id' = some (some q) ↔ service.locks id' = some (some q) := by
  rw [← Option.join_eq_some_iff, ← Option.join_eq_some_iff, getLock_join]

theorem getLock_cache (service : UsageService) (id : ℕ) : (service.getLock id).cache = service.cache := by
  unfold UsageService.getLock
  split <;> rfl

theorem getLock_ttl (service : UsageService) (id : ℕ) :
    (service.getLock id).ttlSeconds = service.ttlSeconds := by
  unfold UsageService.getLock
  split <;> rfl

/-- A fetch that raises leaves its call with a snapshot. -/
theorem failed_done (lib : UsageLibrary) (service : UsageService) (c : SnapshotCall) (fault : UsageFault) :
    ∃ snap source, service.failed lib c fault = .done snap source := by
  unfold UsageService.failed
  split_ifs
  · exact ⟨_, _, rfl⟩
  · split
    · exact ⟨_, _, rfl⟩
    · exact ⟨_, _, rfl⟩

theorem Faults.isFetching {p : ℕ} {r : UsageReply} {fault : UsageFault} (h : s.Faults lib p r fault) :
    (s.calls p).pc.isFetching = true := by
  rcases h with ⟨rawKey, hpc, -⟩ | ⟨rawKey, account, hpc, -⟩ <;> rw [hpc] <;> rfl

theorem step_sound (hs : s.Sound) (h : s.step lib a = some s') : s'.Sound := by
  cases step_moves h with
  | served p id apiKey entry hidle hentry =>
    exact hs.stays (fun _ _ => Iff.rfl) (by rw [hidle]; rfl) rfl
  | waits p id apiKey force hidle =>
    exact hs.stays (getLock_locks s.service id) (by rw [hidle]; rfl) rfl
  | servedInside p entry hqueued hentry =>
    exact hs.stays (fun _ _ => Iff.rfl) (by rw [hqueued]; rfl) rfl
  | undecryptable p inner hqueued hvault =>
    exact hs.stays (fun _ _ => Iff.rfl) (by rw [hqueued]; rfl) rfl
  | hangsUp p hqueued => exact hs.stays (fun _ _ => Iff.rfl) (by rw [hqueued]; rfl) rfl
  | begins p rawKey hqueued hlock hstale hvault =>
    intro id q
    show Function.update s.service.locks (s.calls p).id (some (some p)) id = some (some q) ↔
      (Function.update s.calls p { s.calls p with pc := .account rawKey } q).id = id ∧
        (Function.update s.calls p { s.calls p with pc := .account rawKey } q).pc.isFetching = true
    by_cases hq : q = p
    · rw [hq, Function.update_self]
      by_cases hid : id = (s.calls p).id
      · rw [hid, Function.update_self]
        simp [SnapshotPc.isFetching]
      · rw [Function.update_of_ne hid, hs id p, hqueued]
        simp [SnapshotPc.isFetching, Ne.symm hid]
    · rw [Function.update_of_ne hq, ← hs]
      by_cases hid : id = (s.calls p).id
      · rw [hid, Function.update_self, hlock]
        simp [Ne.symm hq]
      · rw [Function.update_of_ne hid]
  | goesOn p r rawKey account hpc hreply =>
    intro id q
    show s.service.locks id = some (some q) ↔
      (Function.update s.calls p { s.calls p with pc := .usage rawKey account } q).id = id ∧
        (Function.update s.calls p { s.calls p with pc := .usage rawKey account } q).pc.isFetching = true
    rw [hs id q]
    by_cases hq : q = p
    · rw [hq, Function.update_self, hpc]
      simp [SnapshotPc.isFetching]
    · rw [Function.update_of_ne hq]
  | stores p r rawKey account snap hpc hsnap => exact hs.ends rfl (by rw [hpc]; rfl) rfl
  | fails p r fault hfault =>
    obtain ⟨snap, source, hdone⟩ := failed_done lib s.service (s.calls p) fault
    exact hs.ends rfl hfault.isFetching (by rw [hdone]; rfl)
  | aborts p hfetching => exact hs.ends rfl hfetching rfl
  | tick d => exact hs

/-! ### A run -/

def isFresh (ttl age : ℤ) : Bool := age < seconds ttl

/-- The guard whose fetches are those for the id. -/
structure Follows (ttl : ℤ) (id : ℕ) (s : Usage) (f : Flight ℕ UsageSnapshot) : Prop where
  sound : s.Sound
  ttlSeconds : s.service.ttlSeconds = ttl
  clock : f.clock ≤ s.now
  owner : f.owner = (s.service.locks id).join
  entry : f.entry = (s.service.cache id).map fun entry => (entry.ts, entry.snap)

variable {ttl : ℤ} {f : Flight ℕ UsageSnapshot}

theorem Follows.cacheFresh_eq (hf : Follows ttl id s f) :
    s.service.cacheFresh id s.now = f.isFresh (isFresh ttl) s.now := by
  rw [Flight.isFresh, hf.entry, UsageService.cacheFresh, ← hf.ttlSeconds]
  cases s.service.cache id <;> rfl

/-- The fetches of other ids, and steps that start and end none. -/
theorem Follows.stays (hf : Follows ttl id s f) (hs' : s'.Sound)
    (httl : s'.service.ttlSeconds = s.service.ttlSeconds) (hnow : s.now ≤ s'.now)
    (hlock : (s'.service.locks id).join = (s.service.locks id).join)
    (hcache : s'.service.cache id = s.service.cache id) : Follows ttl id s' f :=
  ⟨hs', httl.trans hf.ttlSeconds, hf.clock.trans hnow, hf.owner.trans hlock.symm, by rw [hf.entry, hcache]⟩

/-- A fetch ends. If it is one for the id, the guard takes note. -/
theorem Follows.ends (hf : Follows ttl id s f) {p : ℕ} {service : UsageService} {pc : SnapshotPc}
    {what : Flight.What UsageSnapshot} (hs' : (s.put p (service, pc)).Sound)
    (hfetching : (s.calls p).pc.isFetching = true) (httl : service.ttlSeconds = s.service.ttlSeconds)
    (hlocks : service.locks = Function.update s.service.locks (s.calls p).id (some none))
    (hwhat : (what = .failed ∧ service.cache = s.service.cache) ∨ ∃ snap rawKey, what = .stored snap ∧
      service.cache = Function.update s.service.cache (s.calls p).id (some ⟨s.now, snap, rawKey⟩)) :
    ∃ f', run (Flight.next (isFresh ttl)) f (if (s.calls p).id = id then [⟨s.now, p, what⟩] else []) = some f' ∧
      Follows ttl id (s.put p (service, pc)) f' := by
  by_cases hid : (s.calls p).id = id
  · rw [if_pos hid]
    have hholder : s.service.locks id = some (some p) := (hf.sound id p).mpr ⟨hid, hfetching⟩
    have howner : f.owner = some p := by rw [hf.owner, hholder, Option.join_some]
    have hfree : (service.locks id).join = none := by rw [hlocks, hid, Function.update_self, Option.join_some]
    rcases hwhat with ⟨rfl, hcache⟩ | ⟨snap, rawKey, rfl, hcache⟩
    · have hnext : f.next (isFresh ttl) ⟨s.now, p, .failed⟩ = some ⟨s.now, none, f.entry⟩ :=
        (Flight.next_failed rfl).mpr ⟨hf.clock, howner, rfl⟩
      refine ⟨⟨s.now, none, f.entry⟩, by rw [run, hnext]; rfl, hs', httl.trans hf.ttlSeconds, le_rfl, hfree.symm, ?_⟩
      show f.entry = (service.cache id).map _
      rw [hcache, hf.entry]
    · have hnext : f.next (isFresh ttl) ⟨s.now, p, .stored snap⟩ = some ⟨s.now, none, some (s.now, snap)⟩ :=
        (Flight.next_stored rfl).mpr ⟨hf.clock, howner, rfl⟩
      refine ⟨⟨s.now, none, some (s.now, snap)⟩, by rw [run, hnext]; rfl, hs', httl.trans hf.ttlSeconds, le_rfl,
        hfree.symm, ?_⟩
      show some (s.now, snap) = (service.cache id).map _
      rw [hcache, hid, Function.update_self]
      rfl
  · rw [if_neg hid]
    refine ⟨f, rfl, hf.stays hs' httl le_rfl ?_ ?_⟩
    · show (service.locks id).join = _
      rw [hlocks, Function.update_of_ne (Ne.symm hid)]
    · show service.cache id = _
      rcases hwhat with ⟨-, hcache⟩ | ⟨snap, rawKey, -, hcache⟩
      · rw [hcache]
      · rw [hcache, Function.update_of_ne (Ne.symm hid)]

/-- What a step does to the fetches for the id is what the guard allows. -/
theorem step_follows (hf : Follows ttl id s f) (h : s.step lib a = some s') :
    ∃ f', run (Flight.next (isFresh ttl)) f (s.fetches lib id a) = some f' ∧ Follows ttl id s' f' := by
  have hs' := step_sound hf.sound h
  cases step_moves h with
  | served p id' apiKey entry hidle hentry => exact ⟨f, rfl, hf.stays hs' rfl le_rfl rfl rfl⟩
  | waits p id' apiKey force hidle =>
    refine ⟨f, rfl, hf.stays hs' (getLock_ttl s.service id') le_rfl ?_ ?_⟩
    · show ((s.service.getLock id').locks id).join = _
      rw [getLock_join]
    · show (s.service.getLock id').cache id = _
      rw [getLock_cache]
  | servedInside p entry hqueued hentry =>
    refine ⟨f, ?_, hf.stays hs' rfl le_rfl rfl rfl⟩
    rw [fetches, h]
    simp [put, SnapshotPc.isFetching, run]
  | undecryptable p inner hqueued hvault =>
    refine ⟨f, ?_, hf.stays hs' rfl le_rfl rfl rfl⟩
    rw [fetches, h]
    simp [put, SnapshotPc.isFetching, run]
  | begins p rawKey hqueued hlock hstale hvault =>
    have hfetches : s.fetches lib id (.enter p) =
        if (s.calls p).id = id then [⟨s.now, p, .began (s.calls p).force⟩] else [] := by
      rw [fetches, h]
      simp [put, SnapshotPc.isFetching]
    rw [hfetches]
    by_cases hid : (s.calls p).id = id
    · rw [if_pos hid]
      rw [hid] at hlock hstale
      have howner : f.owner = none := by rw [hf.owner, hlock, Option.join_some]
      have hfree : ((s.calls p).force || !f.isFresh (isFresh ttl) s.now) = true := by
        rw [hf.cacheFresh_eq] at hstale
        rcases hstale with hforce | hstale
        · rw [hforce, Bool.true_or]
        · rw [hstale, Bool.not_false, Bool.or_true]
      have hnext : f.next (isFresh ttl) ⟨s.now, p, .began (s.calls p).force⟩ = some ⟨s.now, some p, f.entry⟩ :=
        (Flight.next_began rfl).mpr ⟨hf.clock, howner, hfree, rfl⟩
      refine ⟨⟨s.now, some p, f.entry⟩, by rw [run, hnext]; rfl, hs', hf.ttlSeconds, le_rfl, ?_, hf.entry⟩
      show some p = (Function.update s.service.locks (s.calls p).id (some (some p)) id).join
      rw [hid, Function.update_self, Option.join_some]
    · rw [if_neg hid]
      refine ⟨f, rfl, hf.stays hs' rfl le_rfl ?_ rfl⟩
      show (Function.update s.service.locks (s.calls p).id (some (some p)) id).join = _
      rw [Function.update_of_ne (Ne.symm hid)]
  | goesOn p r rawKey account hpc hreply =>
    refine ⟨f, ?_, hf.stays hs' rfl le_rfl rfl rfl⟩
    simp [fetches, hpc, hreply, run]
  | stores p r rawKey account snap hpc hsnap =>
    have hfetches : s.fetches lib id (.reply p r) =
        if (s.calls p).id = id then [⟨s.now, p, .stored snap⟩] else [] := by
      simp only [fetches, hpc, hsnap]
    rw [hfetches]
    exact hf.ends hs' (by rw [hpc]; rfl) rfl rfl (Or.inr ⟨snap, rawKey, rfl, rfl⟩)
  | fails p r fault hfault =>
    have hfetches : s.fetches lib id (.reply p r) = if (s.calls p).id = id then [⟨s.now, p, .failed⟩] else [] := by
      rcases hfault with ⟨rawKey, hpc, hreply⟩ | ⟨rawKey, account, hpc, hreply⟩ <;>
        simp only [fetches, hpc, hreply]
    rw [hfetches]
    exact hf.ends hs' hfault.isFetching rfl rfl (Or.inl ⟨rfl, rfl⟩)
  | hangsUp p hqueued =>
    refine ⟨f, ?_, hf.stays hs' rfl le_rfl rfl rfl⟩
    simp [fetches, hqueued, SnapshotPc.isFetching, run]
  | aborts p hfetching =>
    have hfetches : s.fetches lib id (.cancel p) = if (s.calls p).id = id then [⟨s.now, p, .failed⟩] else [] := by
      simp [fetches, hfetching]
    rw [hfetches]
    exact hf.ends hs' hfetching rfl rfl (Or.inl ⟨rfl, rfl⟩)
  | tick d =>
    refine ⟨f, rfl, hf.stays hs' rfl ?_ rfl rfl⟩
    show s.now ≤ s.now + d
    omega

/-- A step that stores no snapshot for the id leaves its cache entry. -/
theorem step_cache (h : s.step lib a = some s') (hstored : ∀ e ∈ s.fetches lib id a, e.stored? = none) :
    s'.service.cache id = s.service.cache id := by
  cases step_moves h with
  | waits p id' apiKey force hidle =>
    show (s.service.getLock id').cache id = _
    rw [getLock_cache]
  | stores p r rawKey account snap hpc hsnap =>
    show Function.update s.service.cache (s.calls p).id (some ⟨s.now, snap, rawKey⟩) id = _
    by_cases hid : (s.calls p).id = id
    · have hfetches : s.fetches lib id (.reply p r) = [⟨s.now, p, .stored snap⟩] := by
        simp only [fetches, hpc, hsnap, hid, if_true]
      have hnone := hstored ⟨s.now, p, .stored snap⟩ (by rw [hfetches]; exact List.mem_singleton_self _)
      cases hnone
    · rw [Function.update_of_ne (Ne.symm hid)]
  | _ => rfl

/-- However the calls interleave, for each id: one fetch is in progress at a
time, and they end in the order they began; one that is not forced begins only
when none has stored a snapshot within the TTL; and the cache entry is what the
last successful one fetched, since nothing else changes it. -/
theorem usage_single_flight {ttlSeconds now utcnow : ℤ} {as : List Action}
    (hrun : run (step lib) (init ttlSeconds now utcnow) as = some s) (id : ℕ) :
    (∀ p q, (s.calls p).id = id → (s.calls p).pc.isFetching = true → (s.calls q).id = id →
      (s.calls q).pc.isFetching = true → p = q) ∧
    (∃ inProgress : Option ℕ,
      (∀ p, inProgress = some p ↔ (s.calls p).id = id ∧ (s.calls p).pc.isFetching = true) ∧
      (outputs (step lib) (fetches lib id) (init ttlSeconds now utcnow) as).filterMap Flight.Event.began? =
        (outputs (step lib) (fetches lib id) (init ttlSeconds now utcnow) as).filterMap Flight.Event.ended? ++
          inProgress.toList) ∧
    (∀ before e after, outputs (step lib) (fetches lib id) (init ttlSeconds now utcnow) as = before ++ e :: after →
      e.what = .began false → ∀ x ∈ before.filterMap Flight.Event.stored?,
        seconds (max 1 ttlSeconds) ≤ e.now - x.1) ∧
    ((s.service.cache id).map fun entry => (entry.ts, entry.snap)) =
      ((outputs (step lib) (fetches lib id) (init ttlSeconds now utcnow) as).filterMap
        Flight.Event.stored?).getLast? ∧
    ∀ (s0 s1 : Usage) a, s0.step lib a = some s1 → (∀ e ∈ s0.fetches lib id a, e.stored? = none) →
      s1.service.cache id = s0.service.cache id := by
  have h0 : Follows (max 1 ttlSeconds) id (init ttlSeconds now utcnow) ⟨now, none, none⟩ :=
    ⟨init_sound ttlSeconds now utcnow, rfl, le_rfl, rfl, rfl⟩
  have hfollows : ∀ s f a s', Follows (max 1 ttlSeconds) id s f → step lib s a = some s' →
      ∃ f', run (Flight.next (isFresh (max 1 ttlSeconds))) f (fetches lib id s a) = some f' ∧
        Follows (max 1 ttlSeconds) id s' f' := fun _ _ _ _ hf h => step_follows hf h
  obtain ⟨f', hf', hend⟩ := run_follows hfollows h0 hrun
  have hholder : ∀ p, f'.owner = some p ↔ (s.calls p).id = id ∧ (s.calls p).pc.isFetching = true := by
    intro p
    rw [hend.owner, Option.join_eq_some_iff, hend.sound id p]
  refine ⟨fun p q hp hpf hq hqf => ?_, ⟨f'.owner, hholder, ?_⟩, fun before e after hes hwhat x hx => ?_, ?_,
    fun _ _ _ => step_cache⟩
  · have hpq := (hholder p).mpr ⟨hp, hpf⟩
    rw [(hholder q).mpr ⟨hq, hqf⟩] at hpq
    exact (Option.some.inj hpq).symm
  · exact Flight.run_began hf'
  · rw [hes] at hf'
    have hstale := Flight.run_unforced (fun a b hab hb => ?_) rfl hf' hwhat x hx
    · exact not_lt.mp (of_decide_eq_false hstale)
    · have hlt : b < seconds (max 1 ttlSeconds) := of_decide_eq_true hb
      exact decide_eq_true (lt_of_le_of_lt hab hlt)
  · rw [← hend.entry, Flight.run_entry hf', Option.or_none]

/-! ### A service to run -/

namespace Sample

def library : UsageLibrary := ⟨.ok, fun _ => none, fun _ => "unreachable"⟩

def answer : UsageReply := .response ⟨200, [], "", .ok (.dict [])⟩

/-- Two calls for one key; the second one finds what the first one fetched. -/
def shared : List Action :=
  [.fetch 0 1 (.new "a" "a" "a" none 0) false, .fetch 1 1 (.new "a" "a" "a" none 0) false, .enter 0,
    .reply 0 answer, .tick 5, .reply 0 answer, .enter 1]

theorem usage_single_flight_shared :
    let s := (run (step library) (init 300 0 0) shared).get (by decide)
    (outputs (step library) (fetches library 1) (init 300 0 0) shared).filterMap Flight.Event.began? = [0] ∧
      ((s.service.cache 1).map fun entry => (entry.ts, entry.snap)) =
        ((outputs (step library) (fetches library 1) (init 300 0 0) shared).filterMap
          Flight.Event.stored?).getLast? := by
  intro s
  have hrun : run (step library) (init 300 0 0) shared = some s := (Option.some_get _).symm
  exact ⟨by decide, (usage_single_flight hrun 1).2.2.2.1⟩

end Sample

end Usage

end OllamaProxy
