/-
# The key manager

`pickNextKey` is one selection: the active keys, reactivated first if there
are none, scanned from the round-robin pointer for one that is not in flight.
The recorders are what an upstream outcome writes to the key's row. A recorder
works on the copy of the row that the request's session holds, and the session
writes back only the attributes whose value differs from that copy
(`KeyValues.write`); the bulk `UPDATE` of `record_success_with_usage` writes
the columns themselves (`UsageCall.write`). A token count beyond the 64 bits of
its column makes the flush raise (`UsageCall.fits`).

A loaded datetime is naive and a new one aware, so the two never compare
equal: a datetime attribute that is set is always written, unless both are
`None`.

Key definitions: `KeyManager.choose`, `pickNextKey`, `reactivateLocked`,
`Recorder.commit`, `extractRetryAfter`.
Key theorems: `scan_eq_none_iff`, `scan_eq_some`, `choose_cases`,
`hasStatus_reactivateLocked`.
-/
import OllamaProxy.ApiKey
import OllamaProxy.Lib.Cyclic

namespace OllamaProxy

open Kit

/-! ### Selection -/

/-- `lock` is the request that holds `_lock`. -/
structure KeyManager where
  lock : Option ℕ
  nextIdx : ℕ
  inFlight : Finset ℕ

def KeyManager.new : KeyManager := ⟨none, 0, ∅⟩

/-- `release`: `set.discard`. -/
def KeyManager.release (m : KeyManager) (id : ℕ) : KeyManager :=
  { m with inFlight := m.inFlight.erase id }

def loadActive (t : KeyTable) : List (ℕ × ApiKey) := t.select fun k => k.status = .active

/-- The rows `_reactivate_locked` updates at time `now`. -/
def ApiKey.cooledDown (k : ApiKey) (now : ℤ) : Bool :=
  k.status = .depleted && k.cooldownUntil.any (· ≤ now)

theorem ApiKey.depleted_of_cooledDown {k : ApiKey} {now : ℤ} (h : k.cooledDown now = true) :
    k.status = .depleted := by
  rw [cooledDown, Bool.and_eq_true] at h
  exact of_decide_eq_true h.1

def reactivateLocked (t : KeyTable) (now : ℤ) : KeyTable :=
  t.mapRows fun _ k =>
    if k.cooledDown now then { k with status := .active, cooldownUntil := none, updatedAt := now }
    else k

/-- The anti-stacking scan: from `start`, the first key that is not in flight,
with its offset. -/
def scan (active : List (ℕ × ApiKey)) (start : ℕ) (inFlight : Finset ℕ) :
    Option (ℕ × (ℕ × ApiKey)) :=
  (List.range active.length).findSome? fun offset =>
    (active[(start + offset) % active.length]?).bind fun candidate =>
      if candidate.1 ∈ inFlight then none else some (offset, candidate)

/-- The reservation of the key the scan chose. -/
def KeyManager.choose (m : KeyManager) (active : List (ℕ × ApiKey)) :
    Option (ℕ × ApiKey) × KeyManager :=
  match scan active m.nextIdx m.inFlight with
  | none => (none, m)
  | some (offset, chosen) =>
    (some chosen,
      { m with
        inFlight := insert chosen.1 m.inFlight
        nextIdx := (m.nextIdx + offset + 1) % active.length })

def pickNextKey (m : KeyManager) (t : KeyTable) (now : ℤ) :
    Option (ℕ × ApiKey) × KeyManager × KeyTable :=
  if (loadActive t).isEmpty then
    let t' := reactivateLocked t now
    let picked := m.choose (loadActive t')
    (picked.1, picked.2, t')
  else
    let picked := m.choose (loadActive t)
    (picked.1, picked.2, t)

def countActive (t : KeyTable) : ℕ := (loadActive t).length

theorem mem_loadActive {t : KeyTable} {id : ℕ} {k : ApiKey} :
    (id, k) ∈ loadActive t ↔ t.get? id = some k ∧ k.status = .active := by
  simp [loadActive, Table.mem_select]

theorem exists_mem_loadActive {t : KeyTable} {id : ℕ} :
    (∃ k, (id, k) ∈ loadActive t) ↔ HasStatus t id .active := by
  simp only [mem_loadActive, hasStatus_iff]

theorem loadActive_isEmpty_iff {t : KeyTable} :
    (loadActive t).isEmpty = true ↔ ∀ id, ¬ HasStatus t id .active := by
  rw [List.isEmpty_iff, List.eq_nil_iff_forall_not_mem]
  refine ⟨fun h id hid => ?_, fun h r hr => h r.1 (exists_mem_loadActive.mp ⟨r.2, hr⟩)⟩
  obtain ⟨k, hk⟩ := exists_mem_loadActive.mpr hid
  exact h _ hk

/-- The ids of the active keys, in their order. -/
def ids (t : KeyTable) : List ℕ := (loadActive t).map (·.1)

theorem ids_sorted (t : KeyTable) : (ids t).Pairwise (· < ·) := t.select_ids_sorted _

theorem ids_nodup (t : KeyTable) : (ids t).Nodup := t.select_ids_nodup _

theorem mem_ids {t : KeyTable} {id : ℕ} : id ∈ ids t ↔ HasStatus t id .active := by
  rw [← exists_mem_loadActive]
  simp [ids]

theorem length_ids (t : KeyTable) : (ids t).length = countActive t := List.length_map _

theorem ids_eq {t : KeyTable} {l : List ℕ} (hl : l.Pairwise (· < ·))
    (h : ∀ id, id ∈ l ↔ HasStatus t id .active) : ids t = l :=
  List.Perm.eq_of_pairwise (fun _ _ _ _ hab hba => absurd hab (not_lt_of_gt hba)) (ids_sorted t) hl
    ((List.perm_ext_iff_of_nodup (ids_nodup t) (hl.imp ne_of_lt)).mpr fun id => mem_ids.trans (h id).symm)

/-- The key is depleted and its cooldown is over at time `now`. -/
def CooledDown (t : KeyTable) (id : ℕ) (now : ℤ) : Prop :=
  (t.get? id).any (·.cooledDown now) = true

instance (t : KeyTable) (id : ℕ) (now : ℤ) : Decidable (CooledDown t id now) :=
  inferInstanceAs (Decidable (_ = _))

/-- Reactivation makes the keys that have cooled down active and leaves the
others as they are. -/
theorem hasStatus_reactivateLocked {t : KeyTable} {id : ℕ} {now : ℤ} {s : ApiKeyStatus} :
    HasStatus (reactivateLocked t now) id s ↔
      if CooledDown t id now then s = .active else HasStatus t id s := by
  unfold HasStatus reactivateLocked
  rw [Table.get?_mapRows]
  obtain hk | ⟨k, hk⟩ := Option.eq_none_or_eq_some (t.get? id)
  · simp [CooledDown, hk]
  · have hcd : CooledDown t id now ↔ k.cooledDown now = true := by simp [CooledDown, hk]
    by_cases hc : k.cooledDown now = true
    · rw [if_pos (hcd.mpr hc), hk]
      simp only [Option.map_some, hc, if_true, Option.some.injEq]
      exact eq_comm
    · rw [if_neg (hcd.not.mpr hc), hk]
      simp [hc]

/-! ### The scan -/

theorem exists_offset (start : ℕ) {n i : ℕ} (hi : i < n) : ∃ offset < n, (start + offset) % n = i :=
  ⟨ahead n start i, ahead_lt (by omega), add_ahead hi⟩

/-- The scan fails only if every active key is in flight. -/
theorem scan_eq_none_iff {active : List (ℕ × ApiKey)} (start : ℕ) {inFlight : Finset ℕ} :
    scan active start inFlight = none ↔ ∀ k ∈ active, k.1 ∈ inFlight := by
  unfold scan
  rw [List.findSome?_eq_none_iff]
  refine ⟨fun h k hk => ?_, fun h offset hoff => ?_⟩
  · obtain ⟨i, hi, hik⟩ := List.getElem_of_mem hk
    obtain ⟨offset, hlt, hmod⟩ := exists_offset start hi
    have hoff := h offset (List.mem_range.mpr hlt)
    rw [hmod, List.getElem?_eq_getElem hi, hik] at hoff
    by_contra hfree
    simp [hfree] at hoff
  · cases hk : active[(start + offset) % active.length]? with
    | none => rfl
    | some k => simp [h k (List.mem_of_getElem? hk)]

/-- What the scan finds is active, free, and at the offset it says. -/
theorem scan_eq_some {active : List (ℕ × ApiKey)} {start : ℕ} {inFlight : Finset ℕ} {offset : ℕ}
    {k : ℕ × ApiKey} (h : scan active start inFlight = some (offset, k)) :
    offset < active.length ∧ active[(start + offset) % active.length]? = some k ∧
      k ∈ active ∧ k.1 ∉ inFlight := by
  obtain ⟨o, ho, hk⟩ := List.exists_of_findSome?_eq_some h
  rw [Option.bind_eq_some_iff] at hk
  obtain ⟨candidate, hget, hfree⟩ := hk
  split_ifs at hfree with hin
  simp only [Option.some.injEq, Prod.mk.injEq] at hfree
  obtain ⟨rfl, rfl⟩ := hfree
  exact ⟨List.mem_range.mp ho, hget, List.mem_of_getElem? hget, hin⟩

/-- What the scan finds is the first that is free. -/
theorem scan_le {active : List (ℕ × ApiKey)} {start : ℕ} {inFlight : Finset ℕ} {offset : ℕ}
    {k : ℕ × ApiKey} (h : scan active start inFlight = some (offset, k)) {o : ℕ} {c : ℕ × ApiKey}
    (ho : o < active.length) (hc : active[(start + o) % active.length]? = some c) (hfree : c.1 ∉ inFlight) :
    offset ≤ o := by
  obtain ⟨before, a, behind, hrange, ha, hbefore⟩ := List.findSome?_eq_some_iff.mp h
  have hoffset : a = offset := by
    rw [Option.bind_eq_some_iff] at ha
    obtain ⟨candidate, -, hcandidate⟩ := ha
    split_ifs at hcandidate
    cases hcandidate
    rfl
  subst hoffset
  have hsorted : (before ++ a :: behind).Pairwise (· < ·) := hrange ▸ List.pairwise_lt_range
  have hmem : o ∈ before ++ a :: behind := hrange ▸ List.mem_range.mpr ho
  rcases List.mem_append.mp hmem with hmem | hmem
  · have hnone := hbefore o hmem
    simp [hc, hfree] at hnone
  · rcases List.mem_cons.mp hmem with rfl | hmem
    · exact le_rfl
    · exact ((List.pairwise_cons.mp (List.pairwise_append.mp hsorted).2.1).1 o hmem).le

theorem choose_eq_none_iff {m : KeyManager} {active : List (ℕ × ApiKey)} :
    (m.choose active).1 = none ↔ ∀ k ∈ active, k.1 ∈ m.inFlight := by
  rw [← scan_eq_none_iff m.nextIdx]
  unfold KeyManager.choose
  split <;> simp_all

/-- A selection either changes nothing or reserves one active key that was
free. -/
theorem choose_cases (m : KeyManager) (active : List (ℕ × ApiKey)) :
    m.choose active = (none, m) ∨
      ∃ k ∈ active, k.1 ∉ m.inFlight ∧ ∃ next,
        m.choose active = (some k, { m with inFlight := insert k.1 m.inFlight, nextIdx := next }) := by
  unfold KeyManager.choose
  cases h : scan active m.nextIdx m.inFlight with
  | none => exact Or.inl rfl
  | some r =>
    obtain ⟨offset, k⟩ := r
    obtain ⟨-, -, hmem, hfree⟩ := scan_eq_some h
    exact Or.inr ⟨k, hmem, hfree, _, rfl⟩

theorem choose_mem {m m' : KeyManager} {active : List (ℕ × ApiKey)} {k : ℕ × ApiKey}
    (h : m.choose active = (some k, m')) : k ∈ active := by
  rcases choose_cases m active with hc | ⟨k', hmem, -, next, hc⟩ <;> rw [hc] at h <;> cases h
  exact hmem

/-! ### Outcomes -/

/-- The keyword arguments of `_update_key`. `totalRequests` and
`totalFailures` are what the SQL expressions add to the columns. -/
structure KeyValues where
  status : Option ApiKeyStatus := none
  lastUsedAt : Option ℤ := none
  lastStatusCode : ℕ
  cooldownUntil : Option (Option ℤ) := none
  totalRequests : ℕ := 0
  totalFailures : ℕ := 0
  updatedAt : ℤ

def recordSuccess (now : ℤ) (statusCode : ℕ) : KeyValues where
  status := some .active
  lastUsedAt := some now
  lastStatusCode := statusCode
  cooldownUntil := some none
  totalRequests := 1
  updatedAt := now

def recordUnauthorized (now : ℤ) (statusCode : ℕ) : KeyValues where
  status := some .disabled
  lastStatusCode := statusCode
  cooldownUntil := some none
  totalFailures := 1
  updatedAt := now

def recordRateLimited (now : ℤ) (statusCode : ℕ) (retryAfterSeconds : ℤ) : Except PyError KeyValues :=
  (addSeconds now (max 1 retryAfterSeconds)).map fun cooldown =>
    { status := some .depleted
      lastStatusCode := statusCode
      cooldownUntil := some (some cooldown)
      totalFailures := 1
      updatedAt := now }

def recordServerError (now : ℤ) (statusCode : ℕ) : KeyValues where
  lastStatusCode := statusCode
  totalFailures := 1
  updatedAt := now

/-- What the `UPDATE` of `_update_key` makes of the row `db` when the session's
copy is `copy`. -/
def KeyValues.write (v : KeyValues) (copy db : ApiKey) : ApiKey :=
  { db with
    status := v.status.elim db.status fun s => netChange copy.status s db.status
    lastUsedAt := v.lastUsedAt.elim db.lastUsedAt some
    lastStatusCode := netChange copy.lastStatusCode (some v.lastStatusCode) db.lastStatusCode
    cooldownUntil := v.cooldownUntil.elim db.cooldownUntil fun c =>
      netChangeSome copy.cooldownUntil c db.cooldownUntil
    totalRequests := db.totalRequests + v.totalRequests
    totalFailures := db.totalFailures + v.totalFailures
    updatedAt := v.updatedAt }

def sessionWindow : ℤ := seconds (24 * 3600)
def weeklyWindow : ℤ := seconds (7 * 24 * 3600)

/-- The arguments of `record_success_with_usage`. -/
structure UsageCall where
  statusCode : ℕ
  promptTokens : Option ℤ
  completionTokens : Option ℤ
  now : ℤ

/-- `prompt_tokens is not None and prompt_tokens > 0`: the call counts tokens. -/
def UsageCall.counts (u : UsageCall) : Bool := u.promptTokens.any (0 < ·)

/-- The attributes the call sets on the session's copy. -/
def UsageCall.touch (u : UsageCall) (key : ApiKey) : ApiKey :=
  if u.counts then
    let pt := u.promptTokens.getD 0
    let ct := if u.completionTokens.any (0 < ·) then u.completionTokens.getD 0 else 0
    let newSession := key.sessionWindowStartedAt.all fun started => sessionWindow ≤ u.now - started
    let newWeek := key.weeklyWindowStartedAt.all fun started => weeklyWindow ≤ u.now - started
    { key with
      sessionWindowStartedAt := if newSession then some u.now else key.sessionWindowStartedAt
      sessionPromptTokens := (if newSession then 0 else key.sessionPromptTokens) + pt
      sessionCompletionTokens := (if newSession then 0 else key.sessionCompletionTokens) + ct
      weeklyWindowStartedAt := if newWeek then some u.now else key.weeklyWindowStartedAt
      weeklyPromptTokens := (if newWeek then 0 else key.weeklyPromptTokens) + pt
      weeklyCompletionTokens := (if newWeek then 0 else key.weeklyCompletionTokens) + ct
      lastTokenAt := some u.now }
  else key

theorem UsageCall.touch_status (u : UsageCall) (key : ApiKey) : (u.touch key).status = key.status := by
  unfold UsageCall.touch
  split_ifs <;> rfl

theorem UsageCall.touch_keyEncrypted (u : UsageCall) (key : ApiKey) :
    (u.touch key).keyEncrypted = key.keyEncrypted := by
  unfold UsageCall.touch
  split_ifs <;> rfl

/-- What the bulk `UPDATE` makes of the row `db`. -/
def UsageCall.write (u : UsageCall) (copy db : ApiKey) : ApiKey :=
  let key := u.touch copy
  let truthy := u.promptTokens.any (· ≠ 0)
  { db with
    status := .active
    lastUsedAt := some u.now
    lastStatusCode := some u.statusCode
    cooldownUntil := none
    totalRequests := db.totalRequests + 1
    updatedAt := u.now
    sessionWindowStartedAt := if truthy then key.sessionWindowStartedAt else db.sessionWindowStartedAt
    sessionPromptTokens := key.sessionPromptTokens
    sessionCompletionTokens := key.sessionCompletionTokens
    weeklyWindowStartedAt := if truthy then key.weeklyWindowStartedAt else db.weeklyWindowStartedAt
    weeklyPromptTokens := key.weeklyPromptTokens
    weeklyCompletionTokens := key.weeklyCompletionTokens
    lastTokenAt := if truthy then key.lastTokenAt else db.lastTokenAt }

/-- A pending call of a `record_*` method. -/
inductive Recorder
  | update (v : KeyValues)
  | usage (u : UsageCall)

/-- What the recorder makes of the row. -/
def Recorder.write : Recorder → ApiKey → ApiKey → ApiKey
  | .update v, copy, db => v.write copy db
  | .usage u, copy, db => u.write copy db

/-- The counts that its statements bind are integers of SQLite. -/
def UsageCall.fits (u : UsageCall) (copy : ApiKey) : Bool :=
  let key := u.touch copy
  fitsInteger key.sessionPromptTokens && fitsInteger key.sessionCompletionTokens &&
    fitsInteger key.weeklyPromptTokens && fitsInteger key.weeklyCompletionTokens

def Recorder.fits : Recorder → ApiKey → Bool
  | .update _, _ => true
  | .usage u, copy => u.fits copy

/-- Whether the session flushes an object: its `UPDATE` then has to match a
row. A bulk `UPDATE` may match none. -/
def Recorder.flushes : Recorder → Bool
  | .update _ => true
  | .usage u => u.counts

/-- The statements up to the commit. `none`: a count was no integer of SQLite,
or the flush matched no row, and it raised. -/
def Recorder.commit (rec : Recorder) (id : ℕ) (copy : ApiKey) (t : KeyTable) : Option KeyTable :=
  if rec.fits copy && (!rec.flushes || (t.get? id).isSome) then some (t.modify id (rec.write copy)) else none

/-! ### `Retry-After` -/

/-- The argument of `extract_retry_after`: `httpx.Headers` (its items have
lower-case names and `get` ignores case), a dict, or a list of pairs. -/
inductive Headers
  | none
  | httpx (items : List (String × String))
  | dict (items : List (String × String))
  | pairs (items : List (String × String))

section RetryAfter

-- `float(s)`; `none` raises `ValueError`.
variable (pyFloat : String → Option PyFloat)

def parseRetryAfterValue (raw : String) : Except PyError ℤ :=
  match pyFloat raw with
  | none => .ok 60
  | some x =>
    match x.toInt with
    | .ok n => .ok (max 1 n)
    | .error .typeError | .error .valueError => .ok 60
    | .error e => .error e

/-- The value whose name is `retry-after` in any letter case. -/
def findRetryAfter (items : List (String × String)) : Option String :=
  (items.find? fun h => h.1.toLower = "retry-after").map (·.2)

def extractRetryAfter : Headers → Except PyError ℤ
  | .none => .ok 60
  | .httpx items =>
    match items.lookup "retry-after" with
    | some raw => parseRetryAfterValue pyFloat raw
    | none => .ok 60
  | .dict items =>
    match ["retry-after", "Retry-After", "RETRY-AFTER"].findSome? fun name => items.lookup name with
    | some raw => parseRetryAfterValue pyFloat raw
    | none =>
      match findRetryAfter items with
      | some raw => parseRetryAfterValue pyFloat raw
      | none => .ok 60
  | .pairs items =>
    match findRetryAfter items with
    | some raw => parseRetryAfterValue pyFloat raw
    | none => .ok 60

end RetryAfter

end OllamaProxy
