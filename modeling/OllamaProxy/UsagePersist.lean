/-
# Writing the usage of the keys

A refresher loads some rows in its session, fetches a snapshot for each of them
(always forced), waits for all of them, and then writes those that are `ok` in
one commit. `refresh_all_active` does this for all active keys, and
`fetch_snapshot` with `persist_snapshot` for one.

The lock of the service covers a fetch and the cache, not the write. So a
refresher that waits for a slow key holds the snapshots of the others, and
overwrites what another one has fetched and committed meanwhile. The committed
`last_usage_fetch_at` goes back only after a refresher has overtaken another one
in this way (`UsageStore.InOrder`). A commit with a usage beyond 64 bits fails.

Key definitions: `persist`, `KeyUsageSnapshot.fits`, `UsageStore.step`, `UsageStore.Ordered`,
`UsageStore.InOrder`.
Key theorems: `step_fetchedAt`, `step_ordered_iff`, `never_back`.
-/
import OllamaProxy.UsageRejection

namespace OllamaProxy

open Kit

/-! ### The columns -/

/-- The columns of `api_keys` that only the usage service writes. -/
structure UsageColumns where
  accountEmail : Option String := none
  accountName : Option String := none
  accountPlan : Option String := none
  accountId : Option String := none
  lastUsageFetchAt : Option ℤ := none
  lastUsageSession : Option ℤ := none
  lastUsageWeekly : Option ℤ := none
  lastUsageModelsJson : Option String := none
  lastUsageSessionFraction : Option PyFloat := none
  lastUsageWeeklyFraction : Option PyFloat := none
deriving DecidableEq

/-- A row with all its columns. -/
structure KeyRow where
  apiKey : ApiKey
  usage : UsageColumns
deriving DecidableEq

/-- A character of a JSON string, as `json.dumps` writes it with
`ensure_ascii=False`. -/
def dumpChar (c : Char) : String :=
  if c = '"' then "\\\""
  else if c = '\\' then "\\\\"
  else if c = '\n' then "\\n"
  else if c = '\r' then "\\r"
  else if c = '\t' then "\\t"
  else if c.toNat = 8 then "\\b"
  else if c.toNat = 12 then "\\f"
  else if c.toNat < 32 then
    "\\u00" ++ String.ofList [Nat.digitChar (c.toNat / 16), Nat.digitChar (c.toNat % 16)]
  else String.ofList [c]

def dumpString (s : String) : String := "\"" ++ String.join (s.toList.map dumpChar) ++ "\""

def ModelUsageRow.dump (row : ModelUsageRow) : String :=
  "\x7b\"name\": " ++ dumpString row.name ++ ", \"session_request_count\": " ++ toString row.sessionRequestCount ++
    ", \"weekly_request_count\": " ++ toString row.weeklyRequestCount ++ "\x7d"

def dumpModels (rows : List ModelUsageRow) : String := "[" ++ ", ".intercalate (rows.map ModelUsageRow.dump) ++ "]"

/-- `_persist` on the session's copy, and the flush: what it makes of the row. -/
def persist (copy : UsageColumns) (snapshot : KeyUsageSnapshot) (row : UsageColumns) : UsageColumns :=
  let row :=
    match snapshot.account with
    | none => row
    | some account =>
      { row with
        accountEmail := netChange copy.accountEmail account.email row.accountEmail
        accountName := netChange copy.accountName account.name row.accountName
        accountPlan := netChange copy.accountPlan account.plan row.accountPlan
        accountId := netChange copy.accountId account.accountId row.accountId }
  match snapshot.official with
  | none => row
  | some official =>
    { row with
      lastUsageFetchAt := netChangeSome copy.lastUsageFetchAt (some official.fetchedAt) row.lastUsageFetchAt
      lastUsageSession := netChange copy.lastUsageSession (some official.sessionUsage) row.lastUsageSession
      lastUsageWeekly := netChange copy.lastUsageWeekly (some official.weeklyUsage) row.lastUsageWeekly
      lastUsageSessionFraction := official.sessionUsageFraction.elim row.lastUsageSessionFraction fun x =>
        netChange copy.lastUsageSessionFraction (some x) row.lastUsageSessionFraction
      lastUsageWeeklyFraction := official.weeklyUsageFraction.elim row.lastUsageWeeklyFraction fun x =>
        netChange copy.lastUsageWeeklyFraction (some x) row.lastUsageWeeklyFraction
      lastUsageModelsJson :=
        netChange copy.lastUsageModelsJson (some (dumpModels official.models)) row.lastUsageModelsJson }

/-- The integers that the flush binds, those which are not in the copy, are
integers of SQLite. -/
def KeyUsageSnapshot.fits (snapshot : KeyUsageSnapshot) (copy : UsageColumns) : Bool :=
  snapshot.official.all fun official =>
    (copy.lastUsageSession = some official.sessionUsage || fitsInteger official.sessionUsage) &&
      (copy.lastUsageWeekly = some official.weeklyUsage || fitsInteger official.weeklyUsage)

/-- The time of the fetch is written, whatever the copy has. -/
theorem persist_lastUsageFetchAt (copy : UsageColumns) (snapshot : KeyUsageSnapshot) (row : UsageColumns) :
    (persist copy snapshot row).lastUsageFetchAt =
      (snapshot.official.map (·.fetchedAt)).or row.lastUsageFetchAt := by
  unfold persist
  cases snapshot.official with
  | none => cases snapshot.account <;> rfl
  | some official => exact netChangeSome_some _ _ _

example : dumpModels [⟨"a\"b", 1, 0⟩] =
    "[\x7b\"name\": \"a\\\"b\", \"session_request_count\": 1, \"weekly_request_count\": 0\x7d]" := by decide

/-! ### What a call has fetched -/

theorem parseOfficial_fetchedAt {fromisoformat : String → Option DateTime} {payload : Payload} {fetchedAt : ℤ}
    {official : OfficialUsage} (h : parseOfficial fromisoformat payload fetchedAt = .ok official) :
    official.fetchedAt = fetchedAt := by
  obtain ⟨periodStart, periodEnd, session, weekly, rows, -, -, hofficial⟩ := parseOfficial_eq_ok h
  rw [hofficial]

theorem parseSnapshot_fetchedAt {lib : UsageLibrary} {account usage : Payload} {fetchedAt : ℤ} {snap : UsageSnapshot}
    (h : parseSnapshot lib account usage fetchedAt = .ok snap) : snap.official.fetchedAt = fetchedAt := by
  unfold parseSnapshot at h
  simp only at h
  cases hsnap : (do
      let account ← parseAccount account fetchedAt
      let official ← parseOfficial lib.fromisoformat usage fetchedAt
      return ⟨account, official⟩ : Except PyError UsageSnapshot) with
  | error e =>
    rw [hsnap] at h
    cases h
  | ok snap' =>
    rw [hsnap] at h
    cases h
    obtain ⟨account, -, hsnap⟩ := bind_eq_ok.mp hsnap
    obtain ⟨official, hofficial, hsnap⟩ := bind_eq_ok.mp hsnap
    cases hsnap
    exact parseOfficial_fetchedAt hofficial

namespace Usage

/-- The time of the fetch, where the call has returned a snapshot that is
written. -/
def fetchedAt (s : Usage) (p : ℕ) : Option ℤ :=
  match (s.calls p).pc with
  | .done snap _ => if snap.upstreamStatus = .ok then snap.official.map (·.fetchedAt) else none
  | _ => none

variable {lib : UsageLibrary} {s s' : Usage} {a : Action} {p : ℕ} {f : ℤ}

theorem fetchedAt_eq_some_iff : s.fetchedAt p = some f ↔
    ∃ snap source official, (s.calls p).pc = .done snap source ∧ snap.upstreamStatus = .ok ∧
      snap.official = some official ∧ official.fetchedAt = f := by
  unfold fetchedAt
  cases hpc : (s.calls p).pc with
  | done snap source =>
    simp only [Option.ite_none_right_eq_some, Option.map_eq_some_iff, SnapshotPc.done.injEq]
    constructor
    · rintro ⟨hok, official, hofficial, hf⟩
      exact ⟨snap, source, official, ⟨rfl, rfl⟩, hok, hofficial, hf⟩
    · rintro ⟨snap', source', official, ⟨rfl, rfl⟩, hok, hofficial, hf⟩
      exact ⟨hok, official, hofficial, hf⟩
  | _ => simp

/-- A forced call has what it had, or what it fetched just now. -/
theorem step_fetchedAt (h : s.step lib a = some s') (hforce : (s'.calls p).force = true)
    (hf : s'.fetchedAt p = some f) : (s'.calls p = s.calls p ∧ s.fetchedAt p = some f) ∨ f = s.utcnow := by
  obtain ⟨snap, source, official, hpc, hok, hofficial, hf⟩ := fetchedAt_eq_some_iff.mp hf
  have hkeeps : s'.calls p = s.calls p →
      (s'.calls p = s.calls p ∧ s.fetchedAt p = some f) ∨ f = s.utcnow := fun hcall =>
    Or.inl ⟨hcall, fetchedAt_eq_some_iff.mpr ⟨snap, source, official, hcall ▸ hpc, hok, hofficial, hf⟩⟩
  -- a step of call `q` does not touch the other calls
  have hother : ∀ {q x}, s' = s.put q x → (p = q → x.2 = .done snap source →
      (s'.calls p = s.calls p ∧ s.fetchedAt p = some f) ∨ f = s.utcnow) →
        (s'.calls p = s.calls p ∧ s.fetchedAt p = some f) ∨ f = s.utcnow := by
    intro q x hs' hself
    by_cases hq : p = q
    · subst hq
      have hx : (s'.calls p).pc = x.2 := by rw [hs', put_calls_self]
      exact hself rfl (hx.symm.trans hpc)
    · apply hkeeps
      rw [hs']
      exact put_calls_of_ne hq x
  have hput : ∀ {x}, ({ s.calls p with pc := x } : SnapshotCall).force = (s.calls p).force := rfl
  cases step_moves h with
  | served q i apiKey entry hidle hentry =>
    by_cases hq : p = q
    · subst hq
      simp only [Function.update_self] at hforce
      cases hforce
    · exact hkeeps (Function.update_of_ne hq _ _)
  | waits q i apiKey force hidle =>
    by_cases hq : p = q
    · subst hq
      simp only [Function.update_self] at hpc
      cases hpc
    · exact hkeeps (Function.update_of_ne hq _ _)
  | servedInside q entry hqueued hentry =>
    refine hother rfl fun hq hx => ?_
    subst hq
    have hunforced := (of_servedInside h (by rw [put_calls_self]) rfl).1
    rw [put_calls_self, hput, hunforced] at hforce
    cases hforce
  | undecryptable q inner hqueued hvault =>
    refine hother rfl fun _ hx => ?_
    cases hx
    cases hok
  | begins q rawKey hqueued hlock hstale hvault => exact hother rfl fun _ hx => by cases hx
  | goesOn q r rawKey account hpc hreply => exact hother rfl fun _ hx => by cases hx
  | stores q r rawKey account snap' hpc hsnap =>
    refine hother rfl fun _ hx => ?_
    cases hx
    cases hofficial
    obtain ⟨usage, -, hparse⟩ := bind_eq_ok.mp hsnap
    exact Or.inr (hf.symm.trans (parseSnapshot_fetchedAt hparse))
  | fails q r fault hfault =>
    exact hother rfl fun _ hx => absurd hok (failed_ne_ok hx)
  | hangsUp q hqueued => exact hother rfl fun _ hx => by cases hx
  | aborts q hfetching => exact hother rfl fun _ hx => by cases hx
  | tick d => exact hkeeps rfl

/-- A call that has started keeps its arguments. -/
theorem step_started (h : s.step lib a = some s') (hp : (s.calls p).pc ≠ .idle) :
    (s'.calls p).force = (s.calls p).force ∧ (s'.calls p).pc ≠ .idle := by
  cases step_call h p with
  | keeps hcall =>
    rw [hcall]
    exact ⟨rfl, hp⟩
  | starts id apiKey force ha hidle => exact absurd hidle hp
  | begins rawKey hqueued hvault hcall =>
    rw [hcall]
    exact ⟨rfl, by simp⟩
  | goesOn rawKey account hpc hcall =>
    rw [hcall]
    exact ⟨rfl, by simp⟩
  | ends pc hidle hover hpc hcall =>
    rw [hcall]
    refine ⟨rfl, ?_⟩
    rcases hpc with rfl | hreturns
    · simp
    · cases hreturns <;> simp

theorem step_utcnow_le (h : s.step lib a = some s') : s.utcnow ≤ s'.utcnow := by
  cases step_moves h with
  | tick d =>
    show s.utcnow ≤ s.utcnow + d
    omega
  | _ => exact le_rfl

/-- A forced call waits for the lock, whatever the cache has. -/
theorem step_force {id : ℕ} {apiKey : ApiKey} (h : s.step lib (.fetch p id apiKey true) = some s') :
    (s.calls p).pc = .idle ∧ s'.calls = Function.update s.calls p ⟨id, apiKey, true, .queued⟩ ∧
      s'.utcnow = s.utcnow := by
  cases step_moves h with
  | waits _ _ _ _ hidle => exact ⟨hidle, rfl, rfl⟩

end Usage

/-! ### Refreshers -/

/-- A row that a refresher has loaded, and the call that fetches its snapshot. -/
structure KeyRefresh where
  call : ℕ
  id : ℕ
  row : KeyRow

def KeyRefresh.fetch (k : KeyRefresh) : Usage.Action := .fetch k.call k.id k.row.apiKey true

inductive RefresherPc
  | idle
  | fetching (keys : List KeyRefresh)
  | done

structure UsageStore where
  rows : Table KeyRow
  usage : Usage
  refreshers : ℕ → RefresherPc

namespace UsageStore

/-- `refreshAllActive` and `refreshKey` load their rows and start the calls;
`commit` writes what they fetched, once all of them have returned; `fail` is an
exception or a cancellation before that, or a commit that fails. `other` is a
write to the other columns of a row. -/
inductive Action
  | call (a : Usage.Action)
  | refreshAllActive (r : ℕ) (calls : List ℕ)
  | refreshKey (r id call : ℕ)
  | commit (r : ℕ)
  | fail (r : ℕ)
  | other (id : ℕ) (apiKey : ApiKey)

def init (rows : Table KeyRow) (ttlSeconds now utcnow : ℤ) : UsageStore :=
  ⟨rows, .init ttlSeconds now utcnow, fun _ => .idle⟩

def start (lib : UsageLibrary) (s : UsageStore) (r : ℕ) (keys : List KeyRefresh) : Option UsageStore :=
  match s.refreshers r with
  | .idle =>
    (run (Usage.step lib) s.usage (keys.map KeyRefresh.fetch)).map fun u =>
      { s with usage := u, refreshers := Function.update s.refreshers r (.fetching keys) }
  | _ => none

/-- What the commit makes of the row of one key. -/
def persistKey (s : UsageStore) (t : Table KeyRow) (k : KeyRefresh) : Table KeyRow :=
  match (s.usage.calls k.call).pc with
  | .done snap _ =>
    if snap.upstreamStatus = .ok then
      t.modify k.id fun row =>
        ⟨{ row.apiKey with updatedAt := s.usage.utcnow }, persist k.row.usage snap row.usage⟩
    else t
  | _ => t

/-- The call has returned a snapshot. -/
def returned (s : UsageStore) (k : KeyRefresh) : Bool :=
  match (s.usage.calls k.call).pc with
  | .done _ _ => true
  | _ => false

/-- The flush takes what the call has returned. -/
def takes (s : UsageStore) (k : KeyRefresh) : Bool :=
  match (s.usage.calls k.call).pc with
  | .done snap _ => snap.upstreamStatus ≠ .ok || snap.fits k.row.usage
  | _ => true

def step (lib : UsageLibrary) (s : UsageStore) : Action → Option UsageStore
  | .call a => (s.usage.step lib a).map fun u => { s with usage := u }
  | .refreshAllActive r calls =>
    let active := s.rows.select (·.apiKey.status = .active)
    if calls.length = active.length then
      s.start lib r (List.zipWith (fun call (row : ℕ × KeyRow) => ⟨call, row.1, row.2⟩) calls active)
    else none
  | .refreshKey r id call => (s.rows.get? id).bind fun row => s.start lib r [⟨call, id, row⟩]
  | .commit r =>
    match s.refreshers r with
    | .fetching keys =>
      if keys.all s.returned && keys.all s.takes then
        some { s with
          rows := keys.foldl s.persistKey s.rows
          refreshers := Function.update s.refreshers r .done }
      else none
    | _ => none
  | .fail r =>
    match s.refreshers r with
    | .fetching _ => some { s with refreshers := Function.update s.refreshers r .done }
    | _ => none
  | .other id apiKey => some { s with rows := s.rows.modify id fun row => { row with apiKey := apiKey } }

/-! ### What is committed -/

/-- The committed `last_usage_fetch_at` of the row. -/
def committed (rows : Table KeyRow) (id : ℕ) : Option ℤ := (rows.get? id).bind (·.usage.lastUsageFetchAt)

/-- A refresher that has not committed yet holds no snapshot that was fetched
before the committed one. -/
def Ordered (s : UsageStore) : Prop :=
  ∀ r keys, s.refreshers r = .fetching keys → ∀ k ∈ keys, ∀ f, s.usage.fetchedAt k.call = some f →
    ∀ x, committed s.rows k.id = some x → x ≤ f

/-- A refresher commits a snapshot of a key only while no other one holds a
snapshot of the key that was fetched before. -/
def InOrder (s : UsageStore) : Action → Prop
  | .commit r => ∀ keys, s.refreshers r = .fetching keys → ∀ k ∈ keys, ∀ f, s.usage.fetchedAt k.call = some f →
      ∀ r' keys', r' ≠ r → s.refreshers r' = .fetching keys' → ∀ k' ∈ keys', k'.id = k.id →
        ∀ f', s.usage.fetchedAt k'.call = some f' → f ≤ f'
  | _ => True

def Action.isCommit : Action → Bool
  | .commit _ => true
  | _ => false

/-- No committed time goes back, nor is it lost. -/
def NeverBack (s s' : UsageStore) : Prop :=
  ∀ id x, committed s.rows id = some x → ∃ y, committed s'.rows id = some y ∧ x ≤ y

/-- A refresher's call has been made by force, and was not answered after now. -/
structure Fetching (s : UsageStore) (k : KeyRefresh) : Prop where
  force : (s.usage.calls k.call).force = true
  started : (s.usage.calls k.call).pc ≠ .idle
  present : (s.rows.get? k.id).isSome = true
  past : ∀ f, s.usage.fetchedAt k.call = some f → f ≤ s.usage.utcnow

structure Sound (s : UsageStore) : Prop where
  past : ∀ id x, committed s.rows id = some x → x ≤ s.usage.utcnow
  keys : ∀ r keys, s.refreshers r = .fetching keys → (keys.map (·.id)).Nodup ∧ ∀ k ∈ keys, s.Fetching k

variable {lib : UsageLibrary} {s s' : UsageStore} {a : Action}

section

variable {t : Table KeyRow} {k : KeyRefresh} {keys : List KeyRefresh} {id : ℕ}

theorem persistKey_isSome (s : UsageStore) (t : Table KeyRow) (k : KeyRefresh) (id : ℕ) :
    ((s.persistKey t k).get? id).isSome = (t.get? id).isSome := by
  unfold persistKey
  split
  · split_ifs
    · rw [Table.get?_modify]
      split_ifs <;> simp
    · rfl
  · rfl

theorem committed_persistKey_of_ne (s : UsageStore) (t : Table KeyRow) (h : k.id ≠ id) :
    committed (s.persistKey t k) id = committed t id := by
  unfold persistKey committed
  split
  · split_ifs
    · rw [Table.get?_modify_of_ne t (Ne.symm h)]
    · rfl
  · rfl

theorem committed_persistKey (s : UsageStore) (h : (t.get? k.id).isSome = true) :
    committed (s.persistKey t k) k.id = (s.usage.fetchedAt k.call).or (committed t k.id) := by
  obtain ⟨row, hrow⟩ := Option.isSome_iff_exists.mp h
  unfold persistKey Usage.fetchedAt
  split
  · split_ifs
    · rw [committed, Table.get?_modify_self, committed, hrow]
      exact persist_lastUsageFetchAt _ _ _
    · rfl
  · rfl

theorem committed_persistKeys_of_not_mem (h : ∀ k ∈ keys, k.id ≠ id) :
    committed (keys.foldl s.persistKey t) id = committed t id := by
  induction keys generalizing t with
  | nil => rfl
  | cons k keys ih =>
    obtain ⟨hk, hkeys⟩ := List.forall_mem_cons.mp h
    rw [List.foldl_cons, ih hkeys, committed_persistKey_of_ne s t hk]

/-- The commit of a refresher, on one of its keys. -/
theorem committed_persistKeys (hnodup : (keys.map (·.id)).Nodup) (hk : k ∈ keys)
    (hpresent : (t.get? k.id).isSome = true) :
    committed (keys.foldl s.persistKey t) k.id = (s.usage.fetchedAt k.call).or (committed t k.id) := by
  induction keys generalizing t with
  | nil => cases hk
  | cons k' keys ih =>
    rw [List.map_cons, List.nodup_cons] at hnodup
    obtain ⟨hnot, hrest⟩ := hnodup
    rw [List.foldl_cons]
    rcases List.mem_cons.mp hk with rfl | hk
    · have hothers : ∀ k'' ∈ keys, k''.id ≠ k.id := fun k'' hk'' he => hnot (he ▸ List.mem_map_of_mem hk'')
      rw [committed_persistKeys_of_not_mem hothers, committed_persistKey s hpresent]
    · have hne : k'.id ≠ k.id := fun he => hnot (he ▸ List.mem_map_of_mem hk)
      rw [ih hrest hk (by rw [persistKey_isSome]; exact hpresent), committed_persistKey_of_ne s t hne]

/-- After the commit a row has the time of a snapshot of its key, or the time it
had. -/
theorem committed_persistKeys_cases (hnodup : (keys.map (·.id)).Nodup)
    (hpresent : ∀ k ∈ keys, (t.get? k.id).isSome = true) (id : ℕ) :
    (∃ k ∈ keys, ∃ f, k.id = id ∧ s.usage.fetchedAt k.call = some f ∧
      committed (keys.foldl s.persistKey t) id = some f) ∨
      committed (keys.foldl s.persistKey t) id = committed t id := by
  by_cases hid : ∃ k ∈ keys, k.id = id
  · obtain ⟨k, hk, rfl⟩ := hid
    have hwritten : committed (keys.foldl s.persistKey t) k.id = (s.usage.fetchedAt k.call).or (committed t k.id) :=
      committed_persistKeys hnodup hk (hpresent k hk)
    rw [hwritten]
    cases hf : s.usage.fetchedAt k.call with
    | some f => exact Or.inl ⟨k, hk, f, rfl, hf, rfl⟩
    | none => exact Or.inr rfl
  · exact Or.inr (committed_persistKeys_of_not_mem fun k hk he => hid ⟨k, hk, he⟩)

theorem persistKeys_isSome (keys : List KeyRefresh) (t : Table KeyRow) (id : ℕ) :
    ((keys.foldl s.persistKey t).get? id).isSome = (t.get? id).isSome := by
  induction keys generalizing t with
  | nil => rfl
  | cons k keys ih => rw [List.foldl_cons, ih, persistKey_isSome]

end

/-! ### A step -/

/-- The calls that a refresher starts. -/
theorem run_fetch {keys : List KeyRefresh} {u u' : Usage}
    (h : run (Usage.step lib) u (keys.map KeyRefresh.fetch) = some u') :
    (∀ p, (u.calls p).pc ≠ .idle → u'.calls p = u.calls p) ∧
      (∀ k ∈ keys, (u'.calls k.call).force = true ∧ (u'.calls k.call).pc = .queued) ∧ u'.utcnow = u.utcnow := by
  induction keys generalizing u with
  | nil =>
    cases h
    exact ⟨fun _ _ => rfl, fun k hk => (by cases hk), rfl⟩
  | cons k keys ih =>
    obtain ⟨u1, h1, h2⟩ := run_cons_iff.mp h
    obtain ⟨hidle, hcalls, hnow⟩ := Usage.step_force h1
    obtain ⟨hkeeps, hqueued, hnow'⟩ := ih h2
    have hself : u1.calls k.call = ⟨k.id, k.row.apiKey, true, .queued⟩ := by rw [hcalls, Function.update_self]
    refine ⟨fun p hp => ?_, fun k' hk' => ?_, hnow'.trans hnow⟩
    · have hne : p ≠ k.call := fun he => hp (he ▸ hidle)
      have hsame : u1.calls p = u.calls p := by rw [hcalls, Function.update_of_ne hne]
      rw [hkeeps p (by rw [hsame]; exact hp), hsame]
    · rcases List.mem_cons.mp hk' with rfl | hk'
      · rw [hkeeps k'.call (by rw [hself]; simp), hself]
        exact ⟨rfl, rfl⟩
      · exact hqueued k' hk'

/-- What a step is. -/
inductive Moves (lib : UsageLibrary) (s : UsageStore) : Action → UsageStore → Prop
  | call (a : Usage.Action) (u : Usage) (hu : s.usage.step lib a = some u) : Moves lib s (.call a) { s with usage := u }
  | starts {a : Action} (r : ℕ) (keys : List KeyRefresh) (u : Usage) (ha : a.isCommit = false)
    (hnodup : (keys.map (·.id)).Nodup) (hpresent : ∀ k ∈ keys, (s.rows.get? k.id).isSome = true)
    (hu : run (Usage.step lib) s.usage (keys.map KeyRefresh.fetch) = some u) :
    Moves lib s a { s with usage := u, refreshers := Function.update s.refreshers r (.fetching keys) }
  | commits (r : ℕ) (keys : List KeyRefresh) (hr : s.refreshers r = .fetching keys) :
    Moves lib s (.commit r) { s with
      rows := keys.foldl s.persistKey s.rows
      refreshers := Function.update s.refreshers r .done }
  | fails (r : ℕ) : Moves lib s (.fail r) { s with refreshers := Function.update s.refreshers r .done }
  | other (id : ℕ) (apiKey : ApiKey) :
    Moves lib s (.other id apiKey) { s with rows := s.rows.modify id fun row => { row with apiKey := apiKey } }

theorem start_eq {r : ℕ} {keys : List KeyRefresh} (h : s.start lib r keys = some s') :
    ∃ u, run (Usage.step lib) s.usage (keys.map KeyRefresh.fetch) = some u ∧
      s' = { s with usage := u, refreshers := Function.update s.refreshers r (.fetching keys) } := by
  unfold start at h
  split at h
  · obtain ⟨u, hu, rfl⟩ := Option.map_eq_some_iff.mp h
    exact ⟨u, hu, rfl⟩
  · cases h

/-- `refresh_all_active` fetches for the keys it has loaded. -/
theorem zipWith_ids {calls : List ℕ} {rows : List (ℕ × KeyRow)} (h : calls.length = rows.length) :
    (List.zipWith (fun call (row : ℕ × KeyRow) => (⟨call, row.1, row.2⟩ : KeyRefresh)) calls rows).map (·.id) =
      rows.map (·.1) := by
  induction calls generalizing rows with
  | nil =>
    rw [List.length_eq_zero_iff.mp h.symm]
    rfl
  | cons call calls ih =>
    cases rows with
    | nil => cases h
    | cons row rows =>
      rw [List.zipWith_cons_cons, List.map_cons, ih (Nat.succ.inj h)]
      rfl

theorem step_moves (h : s.step lib a = some s') : s.Moves lib a s' := by
  cases a with
  | call a =>
    obtain ⟨u, hu, rfl⟩ := Option.map_eq_some_iff.mp h
    exact .call a u hu
  | refreshAllActive r calls =>
    simp only [step, Option.ite_none_right_eq_some] at h
    obtain ⟨hlen, h⟩ := h
    obtain ⟨u, hu, rfl⟩ := start_eq h
    refine .starts r _ u rfl ?_ (fun k hk => ?_) hu
    · rw [zipWith_ids hlen]
      exact s.rows.select_ids_nodup _
    · have hmem := List.mem_map_of_mem (f := KeyRefresh.id) hk
      rw [zipWith_ids hlen] at hmem
      obtain ⟨row, hrow, hid⟩ := List.mem_map.mp hmem
      rw [← hid, ((s.rows.mem_select _ _ _).mp hrow).1]
      rfl
  | refreshKey r id call =>
    obtain ⟨row, hrow, h⟩ := Option.bind_eq_some_iff.mp h
    obtain ⟨u, hu, rfl⟩ := start_eq h
    refine .starts r _ u rfl (List.nodup_singleton _) (fun k hk => ?_) hu
    rw [List.mem_singleton.mp hk, hrow]
    rfl
  | commit r =>
    simp only [step] at h
    split at h
    · rename_i keys hr
      simp only [Option.ite_none_right_eq_some] at h
      cases h.2
      exact .commits r keys hr
    · cases h
  | fail r =>
    simp only [step] at h
    split at h
    · cases h
      exact .fails r
    · cases h
  | other id apiKey =>
    cases h
    exact .other id apiKey

/-- A write to the other columns. -/
theorem committed_other (rows : Table KeyRow) (i id : ℕ) (apiKey : ApiKey) :
    committed (rows.modify i fun row => { row with apiKey := apiKey }) id = committed rows id := by
  unfold committed
  rw [Table.get?_modify]
  split_ifs
  · cases rows.get? id <;> rfl
  · rfl

theorem other_isSome (rows : Table KeyRow) (i id : ℕ) (apiKey : ApiKey) :
    ((rows.modify i fun row => { row with apiKey := apiKey }).get? id).isSome = (rows.get? id).isSome := by
  rw [Table.get?_modify]
  split_ifs <;> simp

/-- The calls that a refresher waits for, in a state whose calls are the same. -/
theorem Fetching.stays {k : KeyRefresh} (hk : s.Fetching k) (hcall : s'.usage.calls k.call = s.usage.calls k.call)
    (hrows : (s'.rows.get? k.id).isSome = (s.rows.get? k.id).isSome) (hnow : s.usage.utcnow ≤ s'.usage.utcnow) :
    s'.Fetching k where
  force := by rw [hcall]; exact hk.force
  started := by rw [hcall]; exact hk.started
  present := by rw [hrows]; exact hk.present
  past f hf := by
    have hsame : s'.usage.fetchedAt k.call = s.usage.fetchedAt k.call := by
      rw [Usage.fetchedAt, Usage.fetchedAt, hcall]
    exact (hk.past f (hsame ▸ hf)).trans hnow

/-- A refresher that waits after a refresher was set to `pc` did so before, or
is the one that was set. -/
theorem fetching_update {pc : RefresherPc} {r r' : ℕ} {keys : List KeyRefresh}
    (h : Function.update s.refreshers r pc r' = .fetching keys) :
    (r' ≠ r ∧ s.refreshers r' = .fetching keys) ∨ (r' = r ∧ pc = .fetching keys) := by
  by_cases hr : r' = r
  · rw [hr, Function.update_self] at h
    exact Or.inr ⟨hr, h⟩
  · rw [Function.update_of_ne hr] at h
    exact Or.inl ⟨hr, h⟩

theorem step_sound (hs : s.Sound) (h : s.step lib a = some s') : s'.Sound := by
  cases step_moves h with
  | call a u hu =>
    have hnow := Usage.step_utcnow_le hu
    refine ⟨fun id x hx => (hs.past id x hx).trans hnow, fun r keys hr => ?_⟩
    obtain ⟨hnodup, hkeys⟩ := hs.keys r keys hr
    refine ⟨hnodup, fun k hk => ?_⟩
    have hk := hkeys k hk
    obtain ⟨hforce, hstarted⟩ := Usage.step_started hu hk.started
    have hforce' : (u.calls k.call).force = true := hforce.trans hk.force
    refine ⟨hforce', hstarted, hk.present, fun f hf => ?_⟩
    rcases Usage.step_fetchedAt hu hforce' hf with ⟨-, hold⟩ | rfl
    · exact (hk.past f hold).trans hnow
    · exact hnow
  | starts r keys u ha hnodup hpresent hu =>
    obtain ⟨hsame, hqueued, hnow⟩ := run_fetch hu
    refine ⟨fun id x hx => (hs.past id x hx).trans hnow.ge, fun r' keys' hr' => ?_⟩
    rcases fetching_update hr' with ⟨-, hr⟩ | ⟨-, hr⟩
    · obtain ⟨hnodup', hkeys⟩ := hs.keys r' keys' hr
      exact ⟨hnodup', fun k hk => (hkeys k hk).stays (hsame k.call (hkeys k hk).started) rfl hnow.ge⟩
    · cases hr
      refine ⟨hnodup, fun k hk => ?_⟩
      obtain ⟨hforce, hpc⟩ := hqueued k hk
      refine ⟨hforce, by rw [hpc]; simp, hpresent k hk, fun f hf => ?_⟩
      rw [Usage.fetchedAt, hpc] at hf
      cases hf
  | commits r keys hr =>
    obtain ⟨hnodup, hkeys⟩ := hs.keys r keys hr
    refine ⟨fun id x hx => ?_, fun r' keys' hr' => ?_⟩
    · change committed (keys.foldl s.persistKey s.rows) id = some x at hx
      rcases committed_persistKeys_cases hnodup (fun k hk => (hkeys k hk).present) id with
        ⟨k, hk, f, -, hf, hwritten⟩ | hsame
      · rw [hwritten] at hx
        cases hx
        exact (hkeys k hk).past x hf
      · rw [hsame] at hx
        exact hs.past id x hx
    · rcases fetching_update hr' with ⟨-, hr⟩ | ⟨-, hr⟩
      · obtain ⟨hnodup', hkeys'⟩ := hs.keys r' keys' hr
        exact ⟨hnodup', fun k hk => (hkeys' k hk).stays rfl (persistKeys_isSome keys s.rows k.id) le_rfl⟩
      · cases hr
  | fails r =>
    refine ⟨hs.past, fun r' keys' hr' => ?_⟩
    rcases fetching_update hr' with ⟨-, hr⟩ | ⟨-, hr⟩
    · obtain ⟨hnodup, hkeys⟩ := hs.keys r' keys' hr
      exact ⟨hnodup, fun k hk => (hkeys k hk).stays rfl rfl le_rfl⟩
    · cases hr
  | other id apiKey =>
    refine ⟨fun i x hx => hs.past i x (by rwa [← committed_other s.rows id i apiKey]), fun r keys hr => ?_⟩
    obtain ⟨hnodup, hkeys⟩ := hs.keys r keys hr
    exact ⟨hnodup, fun k hk => (hkeys k hk).stays rfl (other_isSome s.rows id k.id apiKey) le_rfl⟩

theorem inOrder_of_not_commit (h : a.isCommit = false) : s.InOrder a := by
  cases a with
  | commit r => cases h
  | _ => trivial

theorem inOrder_alone {r : ℕ} (h : ∀ r' keys, r' ≠ r → s.refreshers r' ≠ .fetching keys) : s.InOrder (.commit r) :=
  fun _ _ _ _ _ _ r' keys' hne hr' => absurd hr' (h r' keys' hne)

/-- A commit: the snapshots it writes are compared with the ones that the other
refreshers hold. -/
theorem commit_ordered_iff (hs : s.Sound) (hq : s.Ordered) {r : ℕ} {keys : List KeyRefresh}
    (hr : s.refreshers r = .fetching keys) :
    Ordered { s with
      rows := keys.foldl s.persistKey s.rows
      refreshers := Function.update s.refreshers r .done } ↔ s.InOrder (.commit r) := by
  obtain ⟨hnodup, hkeys⟩ := hs.keys r keys hr
  constructor
  · intro hq' keys' hr' k hk f hf r' keys'' hne hr'' k' hk' hid f' hf'
    cases hr.symm.trans hr'
    have hstill : Function.update s.refreshers r .done r' = .fetching keys'' := by
      rw [Function.update_of_ne hne]
      exact hr''
    refine hq' r' keys'' hstill k' hk' f' hf' f ?_
    show committed (keys.foldl s.persistKey s.rows) k'.id = some f
    rw [hid, committed_persistKeys hnodup hk (hkeys k hk).present, hf]
    rfl
  · intro hp r' keys' hr' k' hk' f' hf' x hx
    rcases fetching_update hr' with ⟨hne, hr''⟩ | ⟨-, hr''⟩
    · change committed (keys.foldl s.persistKey s.rows) k'.id = some x at hx
      rcases committed_persistKeys_cases hnodup (fun k hk => (hkeys k hk).present) k'.id with
        ⟨k, hk, f, hid, hf, hwritten⟩ | hsame
      · rw [hwritten] at hx
        cases hx
        exact hp keys hr k hk x hf r' keys' hne hr'' k' hk' hid.symm f' hf'
      · rw [hsame] at hx
        exact hq r' keys' hr'' k' hk' f' hf' x hx
    · cases hr''

/-- After a step no refresher holds a snapshot older than the committed one
exactly if the step overtakes none that does. -/
theorem step_ordered_iff (hs : s.Sound) (hq : s.Ordered) (h : s.step lib a = some s') :
    s'.Ordered ↔ s.InOrder a := by
  cases step_moves h with
  | call a u hu =>
    refine iff_of_true (fun r keys hr k hk f hf x hx => ?_) trivial
    have hk' := (hs.keys r keys hr).2 k hk
    have hforce : (u.calls k.call).force = true := (Usage.step_started hu hk'.started).1.trans hk'.force
    rcases Usage.step_fetchedAt hu hforce hf with ⟨-, hold⟩ | rfl
    · exact hq r keys hr k hk f hold x hx
    · exact hs.past k.id x hx
  | starts r keys u ha hnodup hpresent hu =>
    obtain ⟨hsame, hqueued, -⟩ := run_fetch hu
    refine iff_of_true (fun r' keys' hr' k hk f hf x hx => ?_) ?_
    · rcases fetching_update hr' with ⟨-, hr⟩ | ⟨-, hr⟩
      · have hcall := hsame k.call ((hs.keys r' keys' hr).2 k hk).started
        have hold : s.usage.fetchedAt k.call = some f := by
          rw [← hf, Usage.fetchedAt, Usage.fetchedAt, hcall]
        exact hq r' keys' hr k hk f hold x hx
      · cases hr
        rw [Usage.fetchedAt, (hqueued k hk).2] at hf
        cases hf
    · exact inOrder_of_not_commit ha
  | commits r keys hr => exact commit_ordered_iff hs hq hr
  | fails r =>
    refine iff_of_true (fun r' keys' hr' k hk f hf x hx => ?_) trivial
    rcases fetching_update hr' with ⟨-, hr⟩ | ⟨-, hr⟩
    · exact hq r' keys' hr k hk f hf x hx
    · cases hr
  | other id apiKey =>
    refine iff_of_true (fun r keys hr k hk f hf x hx => ?_) trivial
    exact hq r keys hr k hk f hf x (by rwa [← committed_other s.rows id k.id apiKey])

/-- While no refresher holds a snapshot older than the committed one, a step
brings no time back. -/
theorem step_neverBack (hs : s.Sound) (hq : s.Ordered) (h : s.step lib a = some s') : s.NeverBack s' := by
  intro id x hx
  cases step_moves h with
  | commits r keys hr =>
    obtain ⟨hnodup, hkeys⟩ := hs.keys r keys hr
    show ∃ y, committed (keys.foldl s.persistKey s.rows) id = some y ∧ x ≤ y
    rcases committed_persistKeys_cases hnodup (fun k hk => (hkeys k hk).present) id with
      ⟨k, hk, f, rfl, hf, hwritten⟩ | hsame
    · exact ⟨f, hwritten, hq r keys hr k hk f hf x hx⟩
    · exact ⟨x, hsame.trans hx, le_rfl⟩
  | other i apiKey =>
    refine ⟨x, ?_, le_rfl⟩
    show committed (s.rows.modify i _) id = some x
    rw [committed_other]
    exact hx
  | _ => exact ⟨x, hx, le_rfl⟩

theorem init_sound {rows : Table KeyRow} {ttlSeconds now utcnow : ℤ}
    (hpast : ∀ id x, committed rows id = some x → x ≤ utcnow) : (init rows ttlSeconds now utcnow).Sound where
  past := hpast
  keys r keys h := by cases h

/-- In every state of a run no refresher holds a snapshot fetched before the
committed one exactly if refreshers commit the snapshots of a key in the order
they were fetched; then no committed `last_usage_fetch_at` ever goes back. -/
theorem never_back {rows : Table KeyRow} {ttlSeconds now utcnow : ℤ} {as : List Action}
    (hpast : ∀ id x, committed rows id = some x → x ≤ utcnow)
    (hrun : run (step lib) (init rows ttlSeconds now utcnow) as = some s) :
    (Throughout (step lib) Ordered (init rows ttlSeconds now utcnow) as ↔
      Along (step lib) InOrder (init rows ttlSeconds now utcnow) as) ∧
    (Along (step lib) InOrder (init rows ttlSeconds now utcnow) as →
      Along (step lib) (fun s a => ∀ s', s.step lib a = some s' → s.NeverBack s')
        (init rows ttlSeconds now utcnow) as) := by
  have hinit : (init rows ttlSeconds now utcnow).Ordered := fun r keys h => by cases h
  refine ⟨throughout_iff_along (A := fun _ => True) (I := Sound) (fun _ _ _ => step_sound)
    (fun _ _ _ hs hq _ h => step_ordered_iff hs hq h) (init_sound hpast) hinit (fun _ _ => trivial) hrun,
    fun halong => ?_⟩
  exact along_mono (I := fun s => s.Sound ∧ s.Ordered)
    (fun _ _ _ hI hP h => ⟨step_sound hI.1 h, (step_ordered_iff hI.1 hI.2 h).mpr hP⟩)
    (fun _ _ hI _ _ h => step_neverBack hI.1 hI.2 h) ⟨init_sound hpast, hinit⟩ halong

namespace Sample

def row (name : String) : KeyRow := ⟨.new name name name none 0, {}⟩

/-- Keys 1 and 2. -/
def rows : Table KeyRow := (Table.empty.insert (row "a")).insert (row "b")

def replies (p : ℕ) : List Action :=
  [.call (.enter p), .call (.reply p Usage.Sample.answer), .call (.reply p Usage.Sample.answer)]

/-- A refresh of key 1, and another one five ticks later. -/
def first : List Action := .refreshKey 0 1 0 :: replies 0

def second : List Action := .call (.tick 5) :: .refreshKey 1 1 1 :: replies 1

theorem never_back_inTurn :
    Along (step Usage.Sample.library) (fun s a => ∀ s', s.step Usage.Sample.library a = some s' → s.NeverBack s')
      (init rows 300 0 0) (first ++ [.commit 0] ++ (second ++ [.commit 1])) := by
  have hpast : ∀ id x, committed rows id = some x → x ≤ 0 := by
    intro id x hx
    have hnone : committed rows id = none := by
      unfold committed rows
      rw [Table.get?_insert, Table.get?_insert]
      split_ifs <;> rfl
    rw [hnone] at hx
    cases hx
  let s₁ := (run (step Usage.Sample.library) (init rows 300 0 0) first).get (by decide)
  let s₂ := (s₁.step Usage.Sample.library (.commit 0)).get (by decide)
  let s₃ := (run (step Usage.Sample.library) s₂ second).get (by decide)
  have h₁ : run (step Usage.Sample.library) (init rows 300 0 0) first = some s₁ := (Option.some_get _).symm
  have h₂ : run (step Usage.Sample.library) (init rows 300 0 0) (first ++ [.commit 0]) = some s₂ :=
    run_concat_iff.mpr ⟨s₁, h₁, (Option.some_get _).symm⟩
  have h₃ : run (step Usage.Sample.library) s₂ second = some s₃ := (Option.some_get _).symm
  have halone₁ : ∀ r' keys, r' ≠ 0 → s₁.refreshers r' ≠ .fetching keys := by
    intro r' keys hne
    show Function.update (fun _ => RefresherPc.idle) 0 _ r' ≠ _
    rw [Function.update_of_ne hne]
    simp
  have halone₃ : ∀ r' keys, r' ≠ 1 → s₃.refreshers r' ≠ .fetching keys := by
    intro r' keys hne
    show Function.update (Function.update (Function.update (fun _ => RefresherPc.idle) 0 _) 0 .done) 1 _ r' ≠ _
    rw [Function.update_of_ne hne]
    by_cases h0 : r' = 0
    · rw [h0, Function.update_self]
      simp
    · rw [Function.update_of_ne h0, Function.update_of_ne h0]
      simp
  have hcalls : ∀ {as : List Action} (s : UsageStore), as.all (!·.isCommit) = true → ∀ a ∈ as, s.InOrder a :=
    fun s hno a ha => inOrder_of_not_commit (by simpa using List.all_eq_true.mp hno a ha)
  have hinOrder : Along (step Usage.Sample.library) InOrder (init rows 300 0 0)
      (first ++ [.commit 0] ++ (second ++ [.commit 1])) := by
    rw [along_append h₂, along_append h₁, along_append h₃]
    refine ⟨⟨along_of_forall fun s a ha => ?_, inOrder_alone halone₁, ?_⟩,
      along_of_forall fun s a ha => ?_, inOrder_alone halone₃, ?_⟩
    · exact hcalls s (by decide) a ha
    · split <;> trivial
    · exact hcalls s (by decide) a ha
    · split <;> trivial
  exact (never_back hpast (Option.some_get (by decide)).symm).2 hinOrder

/-- Key 2 is slow. Meanwhile key 1 is refreshed again. -/
def overtaken : List Action :=
  .refreshAllActive 0 [0, 1] :: replies 0 ++ [.call (.tick 5), .refreshKey 1 1 2] ++ replies 2 ++ [.commit 1] ++
    replies 1

/-- The first refresher then overwrites what the second one has committed. -/
theorem overtaken_back :
    ∃ s s', run (step Usage.Sample.library) (init rows 300 0 0) overtaken = some s ∧
      s.step Usage.Sample.library (.commit 0) = some s' ∧ committed s.rows 1 = some 5 ∧
      committed s'.rows 1 = some 0 := by
  let s := (run (step Usage.Sample.library) (init rows 300 0 0) overtaken).get (by decide)
  exact ⟨s, (s.step Usage.Sample.library (.commit 0)).get (by decide), (Option.some_get _).symm,
    (Option.some_get _).symm, by decide, by decide⟩

end Sample

end UsageStore

end OllamaProxy
