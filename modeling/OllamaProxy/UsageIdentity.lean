/-
# Whose usage a snapshot shows

The usage service with the key table and the sessions of its callers. A session
loads the row of a key (`load`) and calls the service with it; admin operations
change the table meanwhile. The cache of the service is kept by the id of the
row, survives the row, and is never dropped. An id is used again (a new row gets
the largest id plus one), so an entry may be shown for a key with another
secret.

All goes well as long as the secrets in play under an id are one
(`UsageApi.Attributed`): that of its row, of its cache entry, and of the rows
that calls in progress were given. The only step that breaks this creates a key
under an id with another secret in play (`UsageApi.KeepsSecrets`).

Key definitions: `UsageApi.step`, `UsageApi.InPlay`, `UsageApi.KeepsSecrets`.
Key theorems: `step_attributed_iff`, `step_own`, `snapshot_own`.
-/
import OllamaProxy.Rows
import OllamaProxy.UsageService

namespace OllamaProxy

open Kit

/-- The secret of a row; `none` where it cannot be decrypted. -/
def UsageLibrary.secret (lib : UsageLibrary) (row : ApiKey) : Option String := (lib.vault row.keyEncrypted).toOption

theorem UsageLibrary.secret_eq_some_iff {lib : UsageLibrary} {row : ApiKey} {rawKey : String} :
    lib.secret row = some rawKey ↔ lib.vault row.keyEncrypted = .ok rawKey := by
  unfold secret
  exact toOption_eq_some_iff

/-- The snapshot that the step fetches, with the secret that was sent. -/
def Usage.heard (lib : UsageLibrary) (s : Usage) : Usage.Action → List (String × UsageSnapshot)
  | .reply p r =>
    match (s.calls p).pc with
    | .usage rawKey account =>
      match r.payload.bind fun usage => parseSnapshot lib account usage s.utcnow with
      | .ok snap => [(rawKey, snap)]
      | .error _ => []
    | _ => []
  | _ => []

/-- `loaded p` is the row that the session of call `p` has loaded, and `fetched`
all snapshots fetched so far. -/
structure UsageApi where
  table : KeyTable
  usage : Usage
  loaded : ℕ → Option (ℕ × ApiKey)
  fetched : List (String × UsageSnapshot)

inductive UsageApi.Action
  | load (p id : ℕ)
  | call (a : Usage.Action)
  | admin (op : AdminOp)

/-! ### What a step does to a call -/

/-- The call has returned, or has been cancelled. -/
def SnapshotPc.isOver : SnapshotPc → Bool
  | .done _ _ | .cancelled => true
  | _ => false

/-- The secret that the upstream call sends. -/
def SnapshotPc.rawKey? : SnapshotPc → Option String
  | .account rawKey | .usage rawKey _ => some rawKey
  | _ => none

theorem SnapshotPc.of_isFetching {pc : SnapshotPc} (h : pc.isFetching = true) :
    pc ≠ .idle ∧ pc.isOver = false := by
  cases pc <;> simp_all [isFetching, isOver]

namespace Usage

variable {lib : UsageLibrary} {s s' : Usage} {a : Action}

/-- The call `c` in a state: it has a cache entry to return, or none. -/
inductive Returns (s' : Usage) (c : SnapshotCall) : SnapshotPc → Prop
  | entry (entry : UsageEntry) (status : UpstreamStatus) (error : Option String)
    (hentry : s'.service.cache c.id = some entry) :
    Returns s' c (.done (entry.snap.toResponse c.id c.apiKey status error) (some entry.rawKey))
  | bare (snap : KeyUsageSnapshot) (source : Option String) (haccount : snap.account = none)
    (hofficial : snap.official = none) : Returns s' c (.done snap source)

theorem Returns.rawKey?_eq {c : SnapshotCall} {pc : SnapshotPc} (h : s'.Returns c pc) : pc.rawKey? = none := by
  cases h <;> rfl

theorem Returns.withPc {c : SnapshotCall} {pc : SnapshotPc} (h : s'.Returns c pc) (pc' : SnapshotPc) :
    s'.Returns { c with pc := pc' } pc := by
  cases h with
  | entry entry status error hentry => exact .entry entry status error hentry
  | bare snap source haccount hofficial => exact .bare snap source haccount hofficial

/-- What a step does to one call: nothing, it starts, or it goes on with the row
that it was given. -/
inductive CallStep (lib : UsageLibrary) (s : Usage) (a : Action) (s' : Usage) (q : ℕ) : Prop
  | keeps (hcall : s'.calls q = s.calls q)
  | starts (id : ℕ) (apiKey : ApiKey) (force : Bool) (ha : a = .fetch q id apiKey force)
    (hidle : (s.calls q).pc = .idle) (hid : (s'.calls q).id = id) (hkey : (s'.calls q).apiKey = apiKey)
    (hpc : (s'.calls q).pc = .queued ∨ s'.Returns (s'.calls q) (s'.calls q).pc)
  | begins (rawKey : String) (hqueued : (s.calls q).pc = .queued)
    (hvault : lib.vault (s.calls q).apiKey.keyEncrypted = .ok rawKey)
    (hcall : s'.calls q = { s.calls q with pc := .account rawKey })
  | goesOn (rawKey : String) (account : Payload) (hpc : (s.calls q).pc = .account rawKey)
    (hcall : s'.calls q = { s.calls q with pc := .usage rawKey account })
  | ends (pc : SnapshotPc) (hidle : (s.calls q).pc ≠ .idle) (hover : (s.calls q).pc.isOver = false)
    (hpc : pc = .cancelled ∨ s'.Returns (s.calls q) pc) (hcall : s'.calls q = { s.calls q with pc := pc })

theorem put_calls_of_ne {p q : ℕ} (hq : q ≠ p) (x : UsageService × SnapshotPc) : (s.put p x).calls q = s.calls q :=
  Function.update_of_ne hq _ _

theorem put_calls_self (p : ℕ) (x : UsageService × SnapshotPc) :
    (s.put p x).calls p = { s.calls p with pc := x.2 } := Function.update_self _ _ _

/-- What a fetch that raises returns. -/
theorem failed_returns (lib : UsageLibrary) (service : UsageService) (c : SnapshotCall) (fault : UsageFault)
    (hcache : s'.service.cache = service.cache) : s'.Returns c (service.failed lib c fault) := by
  unfold UsageService.failed
  split_ifs
  · exact .bare _ _ rfl rfl
  · split
    · rename_i stale hstale
      exact .entry stale _ _ (by rw [hcache]; exact hstale)
    · exact .bare _ _ rfl rfl

/-- The turn of call `p`, seen from call `q`. -/
theorem CallStep.put {p q : ℕ} {x : UsageService × SnapshotPc}
    (hself : CallStep lib s a (s.put p x) p) : CallStep lib s a (s.put p x) q := by
  by_cases hq : q = p
  · rw [hq]
    exact hself
  · exact .keeps (put_calls_of_ne hq x)

theorem step_call (h : s.step lib a = some s') (q : ℕ) : CallStep lib s a s' q := by
  cases step_moves h with
  | served p id apiKey entry hidle hentry =>
    by_cases hq : q = p
    · subst hq
      have hcall : Function.update s.calls q ⟨id, apiKey, false,
          .done (entry.snap.toResponse id apiKey .ok none) (some entry.rawKey)⟩ q = _ := Function.update_self _ _ _
      refine .starts id apiKey false rfl hidle (congrArg (·.id) hcall) (congrArg (·.apiKey) hcall) (Or.inr ?_)
      simp only [hcall]
      exact .entry entry _ _ hentry
    · exact .keeps (Function.update_of_ne hq _ _)
  | waits p id apiKey force hidle =>
    by_cases hq : q = p
    · subst hq
      have hcall : Function.update s.calls q ⟨id, apiKey, force, .queued⟩ q = _ := Function.update_self _ _ _
      exact .starts id apiKey force rfl hidle (congrArg (·.id) hcall) (congrArg (·.apiKey) hcall)
        (Or.inl (congrArg (·.pc) hcall))
    · exact .keeps (Function.update_of_ne hq _ _)
  | servedInside p entry hqueued hentry =>
    refine .put (.ends _ (by rw [hqueued]; simp) (by rw [hqueued]; rfl) (Or.inr ?_) (put_calls_self p _))
    exact .entry entry _ _ hentry
  | undecryptable p inner hqueued hvault =>
    refine .put (.ends _ (by rw [hqueued]; simp) (by rw [hqueued]; rfl) (Or.inr ?_) (put_calls_self p _))
    exact .bare _ _ rfl rfl
  | begins p rawKey hqueued hlock hstale hvault => exact .put (.begins rawKey hqueued hvault (put_calls_self p _))
  | goesOn p r rawKey account hpc hreply => exact .put (.goesOn rawKey account hpc (put_calls_self p _))
  | stores p r rawKey account snap hpc hsnap =>
    refine .put (.ends _ (by rw [hpc]; simp) (by rw [hpc]; rfl) (Or.inr ?_) (put_calls_self p _))
    exact .entry ⟨s.now, snap, rawKey⟩ _ _ (Function.update_self _ _ _)
  | fails p r fault hfault =>
    obtain ⟨hidle, hover⟩ := SnapshotPc.of_isFetching hfault.isFetching
    refine .put (.ends _ hidle hover (Or.inr ?_) (put_calls_self p _))
    exact failed_returns lib s.service (s.calls p) fault rfl
  | hangsUp p hqueued =>
    exact .put (.ends _ (by rw [hqueued]; simp) (by rw [hqueued]; rfl) (Or.inl rfl) (put_calls_self p _))
  | aborts p hfetching =>
    obtain ⟨hidle, hover⟩ := SnapshotPc.of_isFetching hfetching
    exact .put (.ends _ hidle hover (Or.inl rfl) (put_calls_self p _))
  | tick d => exact .keeps rfl

/-- A call that is over stays over. -/
theorem step_isOver {q : ℕ} (h : s.step lib a = some s') (hpc : (s'.calls q).pc.isOver = false) :
    (s.calls q).pc.isOver = false := by
  cases step_call h q with
  | keeps hcall =>
    rw [← hcall]
    exact hpc
  | starts id apiKey force ha hidle hid hkey hpc' =>
    rw [hidle]
    rfl
  | begins rawKey hqueued hvault hcall =>
    rw [hqueued]
    rfl
  | goesOn rawKey account hpc' hcall =>
    rw [hpc']
    rfl
  | ends pc hidle hover hpc' hcall => exact hover

/-- An entry of the cache was there before, or is what a call has fetched by this
step. -/
theorem step_entry {id : ℕ} {entry : UsageEntry} (h : s.step lib a = some s')
    (hentry : s'.service.cache id = some entry) :
    s.service.cache id = some entry ∨ ∃ p account, (s.calls p).pc = .usage entry.rawKey account ∧
      (s.calls p).id = id ∧ s.heard lib a = [(entry.rawKey, entry.snap)] := by
  cases step_moves h with
  | waits p id' apiKey force hidle =>
    change (s.service.getLock id').cache id = some entry at hentry
    rw [getLock_cache] at hentry
    exact Or.inl hentry
  | stores p r rawKey account snap hpc hsnap =>
    change Function.update s.service.cache (s.calls p).id (some ⟨s.now, snap, rawKey⟩) id = some entry at hentry
    by_cases hid : (s.calls p).id = id
    · rw [hid, Function.update_self] at hentry
      cases hentry
      exact Or.inr ⟨p, account, hpc, hid, by simp only [heard, hpc, hsnap]⟩
    · rw [Function.update_of_ne (Ne.symm hid)] at hentry
      exact Or.inl hentry
  | _ => exact Or.inl hentry

end Usage

namespace UsageApi

def init (t : KeyTable) (ttlSeconds now utcnow : ℤ) : UsageApi :=
  ⟨t, .init ttlSeconds now utcnow, fun _ => none, []⟩

/-- A call is made with the row that its session has loaded. -/
def admits (s : UsageApi) : Usage.Action → Bool
  | .fetch p id apiKey _ => s.loaded p = some (id, apiKey)
  | _ => true

def step (lib : UsageLibrary) (pyFloat : String → Option PyFloat) (s : UsageApi) : Action → Option UsageApi
  | .load p id =>
    match s.loaded p, s.table.get? id with
    | none, some row => some { s with loaded := Function.update s.loaded p (some (id, row)) }
    | _, _ => none
  | .call a =>
    if s.admits a then
      (s.usage.step lib a).map fun u => { s with usage := u, fetched := s.fetched ++ s.usage.heard lib a }
    else none
  | .admin op => some { s with table := op.apply pyFloat s.usage.utcnow s.table }

/-! ### Secrets in play -/

/-- The secret is that of the id's row or cache entry, or of a row that a call
under way was given for the id. -/
inductive InPlay (lib : UsageLibrary) (s : UsageApi) (id : ℕ) : Option String → Prop
  | row (row : ApiKey) (hrow : s.table.get? id = some row) : InPlay lib s id (lib.secret row)
  | entry (entry : UsageEntry) (hentry : s.usage.service.cache id = some entry) : InPlay lib s id (some entry.rawKey)
  | call (p : ℕ) (apiKey : ApiKey) (hloaded : s.loaded p = some (id, apiKey))
    (hpc : (s.usage.calls p).pc.isOver = false) : InPlay lib s id (lib.secret apiKey)

/-- The secrets in play under an id are one. -/
def Attributed (lib : UsageLibrary) (s : UsageApi) : Prop :=
  ∀ id x y, s.InPlay lib id x → s.InPlay lib id y → x = y

/-- No key is created under an id with another secret in play. -/
def KeepsSecrets (lib : UsageLibrary) (s : UsageApi) : Action → Prop
  | .admin (.createKey keyHash keyPrefix keyEncrypted label) =>
    (createKey s.table keyHash keyPrefix keyEncrypted label s.usage.utcnow).isSome = true →
      ∀ x, s.InPlay lib s.table.nextId x → x = (lib.vault keyEncrypted).toOption
  | _ => True

/-- A call that has started was given the row that its session loaded, its
upstream calls send the secret of this row, and what is in the cache was
fetched. -/
structure Sound (lib : UsageLibrary) (s : UsageApi) : Prop where
  loaded : ∀ p, (s.usage.calls p).pc ≠ .idle → s.loaded p = some ((s.usage.calls p).id, (s.usage.calls p).apiKey)
  sends : ∀ p rawKey, (s.usage.calls p).pc.rawKey? = some rawKey →
    lib.vault (s.usage.calls p).apiKey.keyEncrypted = .ok rawKey
  entries : ∀ id entry, s.usage.service.cache id = some entry → (entry.rawKey, entry.snap) ∈ s.fetched

/-- The parts of the snapshot, if it has them, were fetched with the secret of
the row. -/
def Belongs (lib : UsageLibrary) (fetched : List (String × UsageSnapshot)) (apiKey : ApiKey)
    (snap : KeyUsageSnapshot) : Prop :=
  (snap.account = none ∧ snap.official = none) ∨
    ∃ rawKey account official, snap.account = some account ∧ snap.official = some official ∧
      lib.vault apiKey.keyEncrypted = .ok rawKey ∧ (rawKey, ⟨account, official⟩) ∈ fetched

/-- A returned snapshot belongs to the row that the call was given. -/
def Own (lib : UsageLibrary) (s : UsageApi) : Prop :=
  ∀ p snap source, (s.usage.calls p).pc = .done snap source →
    Belongs lib s.fetched (s.usage.calls p).apiKey snap

theorem init_sound (lib : UsageLibrary) (t : KeyTable) (ttlSeconds now utcnow : ℤ) :
    Sound lib (init t ttlSeconds now utcnow) where
  loaded p h := absurd rfl h
  sends p rawKey h := by cases h
  entries id entry h := by cases h

variable {lib : UsageLibrary} {pyFloat : String → Option PyFloat} {s s' : UsageApi} {a : Action}

theorem Belongs.append {fetched : List (String × UsageSnapshot)} {apiKey : ApiKey} {snap : KeyUsageSnapshot}
    (h : Belongs lib fetched apiKey snap) (more : List (String × UsageSnapshot)) :
    Belongs lib (fetched ++ more) apiKey snap := by
  rcases h with hbare | ⟨rawKey, account, official, haccount, hofficial, hvault, hmem⟩
  · exact Or.inl hbare
  · exact Or.inr ⟨rawKey, account, official, haccount, hofficial, hvault, List.mem_append_left _ hmem⟩

/-- What a call returns belongs to a row with the secret of the cache entry. -/
theorem Belongs.of_returns {u : Usage} {c : SnapshotCall} {snap : KeyUsageSnapshot} {source : Option String}
    {fetched : List (String × UsageSnapshot)} (h : u.Returns c (.done snap source))
    (hentry : ∀ entry, u.service.cache c.id = some entry →
      lib.secret c.apiKey = some entry.rawKey ∧ (entry.rawKey, entry.snap) ∈ fetched) :
    Belongs lib fetched c.apiKey snap := by
  cases h with
  | bare _ _ haccount hofficial => exact Or.inl ⟨haccount, hofficial⟩
  | entry entry status error hcache =>
    obtain ⟨hsecret, hmem⟩ := hentry entry hcache
    exact Or.inr ⟨entry.rawKey, _, _, rfl, rfl, UsageLibrary.secret_eq_some_iff.mp hsecret, hmem⟩

/-! ### A step -/

theorem step_call_eq {b : Usage.Action} (h : s.step lib pyFloat (.call b) = some s') :
    s.admits b = true ∧ ∃ u, s.usage.step lib b = some u ∧
      s' = { s with usage := u, fetched := s.fetched ++ s.usage.heard lib b } := by
  simp only [step, Option.ite_none_right_eq_some] at h
  obtain ⟨hadmits, h⟩ := h
  obtain ⟨u, hu, rfl⟩ := Option.map_eq_some_iff.mp h
  exact ⟨hadmits, u, hu, rfl⟩

theorem step_load_eq {p id : ℕ} (h : s.step lib pyFloat (.load p id) = some s') :
    ∃ row, s.loaded p = none ∧ s.table.get? id = some row ∧
      s' = { s with loaded := Function.update s.loaded p (some (id, row)) } := by
  simp only [step] at h
  split at h
  · rename_i row hnone hrow
    cases h
    exact ⟨row, hnone, hrow, rfl⟩
  · cases h

theorem call_loaded (hs : s.Sound lib) {b : Usage.Action} {u : Usage} (hadmits : s.admits b = true)
    (hu : s.usage.step lib b = some u) {q : ℕ} (hq : (u.calls q).pc ≠ .idle) :
    s.loaded q = some ((u.calls q).id, (u.calls q).apiKey) := by
  cases Usage.step_call hu q with
  | keeps hcall =>
    rw [hcall] at hq ⊢
    exact hs.loaded q hq
  | starts id apiKey force ha hidle hid hkey hpc =>
    subst ha
    rw [hid, hkey]
    exact of_decide_eq_true hadmits
  | begins rawKey hqueued hvault hcall =>
    rw [hcall]
    exact hs.loaded q (by rw [hqueued]; simp)
  | goesOn rawKey account hpc hcall =>
    rw [hcall]
    exact hs.loaded q (by rw [hpc]; simp)
  | ends pc hidle hover hpc hcall =>
    rw [hcall]
    exact hs.loaded q hidle

theorem call_sends (hs : s.Sound lib) {b : Usage.Action} {u : Usage} (hu : s.usage.step lib b = some u) {q : ℕ}
    {rawKey : String} (hpc : (u.calls q).pc.rawKey? = some rawKey) :
    lib.vault (u.calls q).apiKey.keyEncrypted = .ok rawKey := by
  cases Usage.step_call hu q with
  | keeps hcall =>
    rw [hcall] at hpc ⊢
    exact hs.sends q rawKey hpc
  | starts id apiKey force ha hidle hid hkey hpc' =>
    rcases hpc' with hpc' | hpc'
    · rw [hpc'] at hpc
      cases hpc
    · rw [hpc'.rawKey?_eq] at hpc
      cases hpc
  | begins rawKey' hqueued hvault hcall =>
    rw [hcall] at hpc ⊢
    cases hpc
    exact hvault
  | goesOn rawKey' account hpc' hcall =>
    rw [hcall] at hpc ⊢
    cases hpc
    exact hs.sends q rawKey (by rw [hpc']; rfl)
  | ends pc hidle hover hpc' hcall =>
    rw [hcall] at hpc
    rcases hpc' with rfl | hpc'
    · cases hpc
    · rw [hpc'.rawKey?_eq] at hpc
      cases hpc

theorem step_sound (hs : s.Sound lib) (h : s.step lib pyFloat a = some s') : s'.Sound lib := by
  cases a with
  | load p id =>
    obtain ⟨row, hnone, hrow, rfl⟩ := step_load_eq h
    refine ⟨fun q hq => ?_, hs.sends, hs.entries⟩
    show Function.update s.loaded p (some (id, row)) q = _
    have hloaded := hs.loaded q hq
    have hqp : q ≠ p := fun he => by
      rw [he, hnone] at hloaded
      cases hloaded
    rw [Function.update_of_ne hqp]
    exact hloaded
  | admin op =>
    cases h
    exact ⟨hs.loaded, hs.sends, hs.entries⟩
  | call b =>
    obtain ⟨hadmits, u, hu, rfl⟩ := step_call_eq h
    refine ⟨fun q => call_loaded hs hadmits hu, fun q rawKey => call_sends hs hu, fun id entry hentry => ?_⟩
    show (entry.rawKey, entry.snap) ∈ s.fetched ++ s.usage.heard lib b
    rcases Usage.step_entry hu hentry with hold | ⟨p, account, hpc, hid, hheard⟩
    · exact List.mem_append_left _ (hs.entries id entry hold)
    · rw [hheard]
      exact List.mem_append_right _ (List.mem_singleton_self _)

/-- A secret that is in play after a step was so before, or is that of the key
that the step creates. -/
theorem step_inPlay {id : ℕ} {x : Option String} (hs : s.Sound lib) (h : s.step lib pyFloat a = some s')
    (hx : s'.InPlay lib id x) :
    s.InPlay lib id x ∨ ∃ keyHash keyPrefix keyEncrypted label,
      a = .admin (.createKey keyHash keyPrefix keyEncrypted label) ∧ id = s.table.nextId ∧
        (createKey s.table keyHash keyPrefix keyEncrypted label s.usage.utcnow).isSome = true ∧
        x = (lib.vault keyEncrypted).toOption := by
  cases a with
  | load p id' =>
    obtain ⟨row, hnone, hrow, rfl⟩ := step_load_eq h
    refine Or.inl ?_
    cases hx with
    | row row' hrow' => exact .row row' hrow'
    | entry entry hentry => exact .entry entry hentry
    | call q apiKey hloaded hpc =>
      change Function.update s.loaded p (some (id', row)) q = some (id, apiKey) at hloaded
      by_cases hq : q = p
      · rw [hq, Function.update_self] at hloaded
        cases hloaded
        exact .row row hrow
      · rw [Function.update_of_ne hq] at hloaded
        exact .call q apiKey hloaded hpc
  | admin op =>
    cases h
    cases hx with
    | row row' hrow' =>
      rcases op.apply_secret pyFloat s.usage.utcnow s.table hrow' with
        ⟨row, hrow, hsame⟩ | ⟨keyHash, keyPrefix, label, rfl, hid, hcreated⟩
      · refine Or.inl ?_
        have hsecret : lib.secret row' = lib.secret row := by rw [UsageLibrary.secret, ← hsame]; rfl
        rw [hsecret]
        exact .row row hrow
      · exact Or.inr ⟨keyHash, keyPrefix, row'.keyEncrypted, label, rfl, hid, hcreated, rfl⟩
    | entry entry hentry => exact Or.inl (.entry entry hentry)
    | call q apiKey hloaded hpc => exact Or.inl (.call q apiKey hloaded hpc)
  | call b =>
    obtain ⟨hadmits, u, hu, rfl⟩ := step_call_eq h
    refine Or.inl ?_
    cases hx with
    | row row' hrow' => exact .row row' hrow'
    | entry entry hentry =>
      rcases Usage.step_entry hu hentry with hold | ⟨p, account, hpc, hid, -⟩
      · exact .entry entry hold
      · -- The fetch that stored it sent the secret of the row that its call was given.
        have hsecret : lib.secret (s.usage.calls p).apiKey = some entry.rawKey :=
          UsageLibrary.secret_eq_some_iff.mpr (hs.sends p entry.rawKey (by rw [hpc]; rfl))
        rw [← hsecret]
        refine .call p _ ?_ (by rw [hpc]; rfl)
        rw [← hid]
        exact hs.loaded p (by rw [hpc]; simp)
    | call q apiKey hloaded hpc => exact .call q apiKey hloaded (Usage.step_isOver hu hpc)

/-- A step keeps the secrets in play under each id one exactly if it is not the
creation of a key under an id with another one in play. -/
theorem step_attributed_iff (hs : s.Sound lib) (hq : s.Attributed lib) (h : s.step lib pyFloat a = some s') :
    s'.Attributed lib ↔ s.KeepsSecrets lib a := by
  constructor
  · intro hq'
    cases a with
    | admin op =>
      cases op with
      | createKey keyHash keyPrefix keyEncrypted label =>
        intro hcreated x hx
        obtain ⟨t, ht⟩ := Option.isSome_iff_exists.mp hcreated
        obtain rfl : { s with table := t } = s' := by
          rw [← Option.some_inj, ← h]
          simp only [step, AdminOp.apply, ht, Option.getD_some]
        have hplay : InPlay lib { s with table := t } s.table.nextId
            (lib.secret (.new keyHash keyPrefix keyEncrypted label s.usage.utcnow)) := .row _ (createKey_get? ht)
        refine hq' s.table.nextId x (lib.secret (.new keyHash keyPrefix keyEncrypted label s.usage.utcnow)) ?_ hplay
        cases hx with
        | row row hrow =>
          rw [Table.get?_nextId] at hrow
          cases hrow
        | entry entry hentry => exact .entry entry hentry
        | call p apiKey hloaded hpc => exact .call p apiKey hloaded hpc
      | _ => trivial
    | _ => trivial
  · intro hkeeps id x y hx hy
    rcases step_inPlay hs h hx with hx | ⟨keyHash, keyPrefix, keyEncrypted, label, rfl, rfl, hcreated, rfl⟩
    · rcases step_inPlay hs h hy with hy | ⟨keyHash, keyPrefix, keyEncrypted, label, rfl, rfl, hcreated, rfl⟩
      · exact hq id x y hx hy
      · exact hkeeps hcreated x hx
    · rcases step_inPlay hs h hy with hy | ⟨keyHash', keyPrefix', keyEncrypted', label', ha, -, -, rfl⟩
      · exact (hkeeps hcreated y hy).symm
      · cases ha
        rfl

/-- Where the secrets in play are one, a call returns what was fetched with the
secret of its row. -/
theorem step_own (hs : s.Sound lib) (hq : s.Attributed lib) (hown : s.Own lib)
    (h : s.step lib pyFloat a = some s') : s'.Own lib := by
  have hs' := step_sound hs h
  cases a with
  | load p id =>
    obtain ⟨row, -, -, rfl⟩ := step_load_eq h
    exact hown
  | admin op =>
    cases h
    exact hown
  | call b =>
    have hback : ∀ {id x}, s'.InPlay lib id x → s.InPlay lib id x := fun hx => by
      rcases step_inPlay hs h hx with hx | ⟨_, _, _, _, ha, -⟩
      · exact hx
      · cases ha
    obtain ⟨hadmits, u, hu, rfl⟩ := step_call_eq h
    -- A returned entry is in play, and so is the row that the call was given.
    have hreturns : ∀ q, s.InPlay lib (u.calls q).id (lib.secret (u.calls q).apiKey) → ∀ snap source,
        u.Returns (u.calls q) (.done snap source) →
          Belongs lib (s.fetched ++ s.usage.heard lib b) (u.calls q).apiKey snap :=
      fun q hplay snap source hret => .of_returns hret fun entry hentry =>
        ⟨hq _ _ _ hplay (hback (.entry entry hentry)), hs'.entries _ entry hentry⟩
    intro q snap source hpc
    change (u.calls q).pc = .done snap source at hpc
    cases Usage.step_call hu q with
    | keeps hcall =>
      rw [hcall] at hpc
      show Belongs lib (s.fetched ++ s.usage.heard lib b) (u.calls q).apiKey snap
      rw [hcall]
      exact (hown q snap source hpc).append _
    | starts id apiKey force ha hidle hid hkey hpc' =>
      subst ha
      rcases hpc' with hpc' | hpc'
      · cases hpc.symm.trans hpc'
      · rw [hpc] at hpc'
        refine hreturns q ?_ snap source hpc'
        rw [hid, hkey]
        exact .call q apiKey (of_decide_eq_true hadmits) (by rw [hidle]; rfl)
    | begins rawKey hqueued hvault hcall =>
      rw [hcall] at hpc
      cases hpc
    | goesOn rawKey account hpc' hcall =>
      rw [hcall] at hpc
      cases hpc
    | ends pc hidle hover hpc' hcall =>
      rw [hcall] at hpc
      cases hpc
      rcases hpc' with hpc' | hpc'
      · cases hpc'
      · refine hreturns q ?_ snap source ?_
        · rw [hcall]
          exact .call q _ (hs.loaded q hidle) hover
        · rw [hcall]
          exact hpc'.withPc _

/-! ### Runs -/

theorem init_attributed (lib : UsageLibrary) (t : KeyTable) (ttlSeconds now utcnow : ℤ) :
    Attributed lib (init t ttlSeconds now utcnow) := by
  -- Only rows are in play, one for each id.
  have honly : ∀ {id x}, (init t ttlSeconds now utcnow).InPlay lib id x → x = (t.get? id).bind lib.secret := by
    intro id x hx
    cases hx with
    | row row hrow =>
      change t.get? id = some row at hrow
      rw [hrow]
      rfl
    | entry entry hentry => cases hentry
    | call p apiKey hloaded hpc => cases hloaded
  exact fun id x y hx hy => (honly hx).trans (honly hy).symm

/-- The secrets in play under each id are one in every state of a run exactly if
no key is created under an id with another one in play; then what a call returns
was fetched with the secret of its row. -/
theorem snapshot_own {t : KeyTable} {ttlSeconds now utcnow : ℤ} {as : List Action}
    (hrun : run (step lib pyFloat) (init t ttlSeconds now utcnow) as = some s) :
    (Throughout (step lib pyFloat) (Attributed lib) (init t ttlSeconds now utcnow) as ↔
      Along (step lib pyFloat) (KeepsSecrets lib) (init t ttlSeconds now utcnow) as) ∧
    (Along (step lib pyFloat) (KeepsSecrets lib) (init t ttlSeconds now utcnow) as → s.Own lib) := by
  refine ⟨throughout_iff_along (A := fun _ => True) (I := Sound lib) (fun _ _ _ => step_sound)
    (fun _ _ _ hs hq _ h => step_attributed_iff hs hq h) (init_sound lib t ttlSeconds now utcnow)
    (init_attributed lib t ttlSeconds now utcnow) (fun _ _ => trivial) hrun, fun hkeeps => ?_⟩
  have hinv : s.Sound lib ∧ s.Attributed lib ∧ s.Own lib :=
    run_inv (I := fun s => s.Sound lib ∧ s.Attributed lib ∧ s.Own lib)
      (fun _ _ _ hI hP h =>
        ⟨step_sound hI.1 h, (step_attributed_iff hI.1 hI.2.1 h).mpr hP, step_own hI.1 hI.2.1 hI.2.2 h⟩)
      ⟨init_sound lib t ttlSeconds now utcnow, init_attributed lib t ttlSeconds now utcnow,
        fun p snap source hpc => by cases hpc⟩ hkeeps hrun
  exact hinv.2.2

namespace Sample

/-- A key is created, and a call fetches its usage. -/
def fetches : List Action :=
  [.admin (.createKey "a" "a" "a" none), .load 0 1, .call (.fetch 0 1 (.new "a" "a" "a" none 0) false),
    .call (.enter 0), .call (.reply 0 Usage.Sample.answer), .call (.reply 0 Usage.Sample.answer)]

theorem snapshot_own_fetches :
    let s := (run (step Usage.Sample.library fun _ => none) (init Table.empty 300 0 0) fetches).get (by decide)
    s.fetched.map (·.1) = ["a"] ∧ s.Own Usage.Sample.library := by
  intro s
  have hrun : run (step Usage.Sample.library fun _ => none) (init Table.empty 300 0 0) fetches = some s :=
    (Option.some_get _).symm
  have hkeeps : Along (step Usage.Sample.library fun _ => none) (KeepsSecrets Usage.Sample.library)
      (init Table.empty 300 0 0) fetches := by
    refine (along_cons rfl).mpr ⟨fun _ x hx => ?_, along_of_forall fun s a ha => ?_⟩
    · cases hx with
      | row row hrow => cases hrow
      | entry entry hentry => cases hentry
      | call p apiKey hloaded hpc => cases hloaded
    · simp only [List.mem_cons, List.not_mem_nil, or_false] at ha
      rcases ha with rfl | rfl | rfl | rfl | rfl <;> trivial
  exact ⟨by decide, (snapshot_own hrun).2 hkeeps⟩

/-- The key is deleted, and another one gets its id within the TTL. -/
def replaced : List Action :=
  fetches ++ [.admin (.deleteKey 1), .admin (.createKey "b" "b" "b" none), .load 1 1,
    .call (.fetch 1 1 (.new "b" "b" "b" none 0) false)]

/-- It is shown what was fetched with the secret of the deleted one. -/
theorem replaced_shown :
    ∃ s snap, run (step Usage.Sample.library fun _ => none) (init Table.empty 300 0 0) replaced = some s ∧
      (s.usage.calls 1).pc = .done snap (some "a") ∧ snap.account.isSome = true ∧ snap.official.isSome = true ∧
      Usage.Sample.library.vault (s.usage.calls 1).apiKey.keyEncrypted = .ok "b" ∧ ∀ x ∈ s.fetched, x.1 = "a" := by
  let s := (run (step Usage.Sample.library fun _ => none) (init Table.empty 300 0 0) replaced).get (by decide)
  have hpc : ∃ snap, (s.usage.calls 1).pc = .done snap (some "a") ∧ snap.account.isSome = true ∧
      snap.official.isSome = true := ⟨_, rfl, rfl, rfl⟩
  obtain ⟨snap, hpc, haccount, hofficial⟩ := hpc
  exact ⟨s, snap, (Option.some_get _).symm, hpc, haccount, hofficial, by decide, by decide⟩

end Sample

end UsageApi

end OllamaProxy
