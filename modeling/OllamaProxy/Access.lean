/-
# Who changes the keys and the tokens

The routes under `/admin` ask for the admin token, the posts of the dashboard for
a session and its CSRF token, and a request to the proxy for a user token. A
request to the proxy changes counters, statuses and windows, but no key and no
token comes, goes or is another one by it: that takes the admin token, or the
password of the dashboard (`change_authorised`).

`require_admin_token` lets every request through where no token is configured,
whatever the comment in `config.py` says. So outsiders leave the register as it
is exactly if one is (`register_kept_iff`).

Key definitions: `requireAdminToken`, `Site.step`, `Site.register`,
`Site.Action.Outside`.
Key theorems: `step_register`, `change_authorised`, `register_kept_iff`.
-/
import OllamaProxy.KeyIdentity
import OllamaProxy.Admission
import OllamaProxy.DashboardAuth

namespace OllamaProxy

open Kit

/-- `require_admin_token`. -/
def requireAdminToken (lib : Library) (adminToken : Option String) (auth : Option String) : Except TokenError Unit :=
  let configured := adminToken.getD ""
  if configured = "" then .ok ()
  else
    match extractBearer lib auth with
    | none => .error (.http 401 "missing Authorization: Bearer <ADMIN_TOKEN>")
    | some presented => if presented ≠ configured then .error (.http 401 "invalid admin token") else .ok ()

theorem requireAdminToken_eq_ok_iff {lib : Library} {adminToken auth : Option String} :
    requireAdminToken lib adminToken auth = .ok () ↔
      adminToken.getD "" = "" ∨ extractBearer lib auth = some (adminToken.getD "") := by
  unfold requireAdminToken
  by_cases hset : adminToken.getD "" = ""
  · simp [hset]
  · cases extractBearer lib auth with
    | none => simp [hset]
    | some presented => by_cases hsame : presented = adminToken.getD "" <;> simp [hset, hsame]

/-- What an admitted request has the services do. -/
inductive Order
  | key (op : AdminOp)
  | token (op : TokenOp)

/-- The routes under `/admin`. -/
def Order.isAdmin : Order → Bool
  | .key _ | .token (.createUserToken ..) | .token (.patchUserToken ..) | .token (.revokeUserToken _) => true
  | .token _ => false

/-- The posts of the dashboard. -/
def Order.isDashboard : Order → Bool
  | .key _ | .token (.createUserTokenSubmit ..) | .token (.updateUserTokenSubmit ..)
  | .token (.deleteUserTokenSubmit _) => true
  | .token _ => false

structure SiteConfig (ω : Type) where
  rot : Rotation
  lib : Library
  adminToken : Option String
  auth : DashboardAuth ω
  dashboardPassword : Option String

/-- The whole app: the proxy with its keys, the user tokens, and the dashboard. -/
structure Site (ω : Type) where
  world : World
  tokens : TokenTable
  dashboard : Dashboard ω

namespace Site

variable {ω : Type}

/-- `proxy` is the start of a request to the proxy, with its `Authorization`
header. `finish` is the end of a post of the dashboard, with what its handler had
the backend do, if it called it. `dashboard` is any other step of the dashboard
but its clock. -/
inductive Action (ω : Type)
  | proxy (auth : Option String) (p : ℕ) (kind : Kind)
  | resume (p : ℕ) (ev : Event)
  | admin (auth : Option String) (order : Order)
  | dashboard (a : Dashboard.Action ω)
  | finish (p : ℕ) (token : String) (backend : Backend) (order : Option Order)
  | tick (d : ℕ)

/-- A request that is refused leaves the tables. -/
def perform (c : SiteConfig ω) (s : Site ω) : Order → Site ω
  | .key op => { s with world := { s.world with table := op.apply c.rot.pyFloat s.world.now s.world.table } }
  | .token op => { s with tokens := (op.perform c.lib s.world.now s.tokens).toOption.getD s.tokens }

variable [DecidableEq ω]

def step (c : SiteConfig ω) (s : Site ω) : Action ω → Option (Site ω)
  | .proxy auth p kind =>
    match requireUserToken c.lib s.tokens auth s.world.now with
    | .error _ => some s
    | .ok (tokens, _) => (s.world.step c.rot (.start p kind)).map fun w => { s with world := w, tokens }
  | .resume p ev => (s.world.step c.rot (.resume p ev)).map fun w => { s with world := w }
  | .admin auth order =>
    match requireAdminToken c.lib c.adminToken auth with
    | .error _ => some s
    | .ok _ => if order.isAdmin then some (s.perform c order) else none
  | .dashboard a =>
    match a with
    | .finish _ _ _ | .tick _ => none
    | a => (s.dashboard.step c.auth c.dashboardPassword a).map fun d => { s with dashboard := d }
  | .finish p token backend order =>
    -- `refresh_health` only reads
    if order.all (·.isDashboard) ∧ ((s.dashboard.visits p).post = .submit ∨ order = none) then
      (s.dashboard.step c.auth c.dashboardPassword (.finish p token backend)).map fun d =>
        { order.elim s (s.perform c) with dashboard := d }
    else none
  | .tick d =>
    some { s with
      world := { s.world with now := s.world.now + d }
      dashboard := { s.dashboard with now := s.dashboard.now + d } }

end Site

/-! ### The register -/

/-- What a row says of its key, whatever becomes of the key's use. -/
structure KeyEntry where
  keyHash : String
  keyPrefix : String
  keyEncrypted : String
  label : Option String
  createdAt : ℤ

def ApiKey.entry (row : ApiKey) : KeyEntry := ⟨row.keyHash, row.keyPrefix, row.keyEncrypted, row.label, row.createdAt⟩

/-- What a row says of its token but the count of its uses. -/
structure TokenEntry where
  keyHash : String
  keyPrefix : String
  label : String
  status : UserTokenStatus
  expiresAt : Option DateTime
  createdAt : ℤ

def UserToken.entry (row : UserToken) : TokenEntry :=
  ⟨row.keyHash, row.keyPrefix, row.label, row.status, row.expiresAt, row.createdAt⟩

def keyEntries (t : KeyTable) (id : ℕ) : Option KeyEntry := (t.get? id).map ApiKey.entry

theorem Recorder.write_entry (rec : Recorder) (copy db : ApiKey) : (rec.write copy db).entry = db.entry := by
  cases rec with
  | update v => rfl
  | usage u => rfl

/-- A hash that no row has. -/
theorem exists_not_registered (t : KeyTable) : ∃ keyHash, ¬ Registered t keyHash := by
  have hinf : Infinite String :=
    Infinite.of_injective (fun n => String.ofList (List.replicate n 'a')) fun m n h => by
      simpa using congrArg String.length h
  obtain ⟨keyHash, hnot⟩ := Infinite.exists_notMem_finset (t.rows.map (·.2.keyHash)).toFinset
  refine ⟨keyHash, fun ⟨id, row, hrow, hhash⟩ => hnot ?_⟩
  rw [List.mem_toFinset, List.mem_map]
  exact ⟨(id, row), (t.get?_eq_some_iff id row).mp hrow, hhash⟩

/-- A request to the proxy leaves the keys what they are. -/
theorem World.step_keyEntries {rot : Rotation} {w w' : World} {a : OllamaProxy.Action} (hw : w.Sound)
    (h : w.step rot a = some w') (ha : a.isAdmin = false) : keyEntries w'.table = keyEntries w.table := by
  funext id
  have hrow := step_row hw h ha id
  unfold keyEntries
  generalize w'.table.get? id = r at hrow ⊢
  cases hrow with
  | keeps => rfl
  | reactivates p updateNow row hturn hpc hrow hcool =>
    rw [hrow]
    rfl
  | commits p rec ret copy row hturn hpc hkey hid hrow =>
    rw [hrow, Option.map_some, Option.map_some, rec.write_entry]

/-- An admitted request is counted, or the proxy is open. -/
theorem requireUserToken_entries {lib : Library} {t t' : TokenTable} {auth : Option String} {now : ℤ}
    {token : Option (ℕ × UserToken)} (h : requireUserToken lib t auth now = .ok (t', token)) :
    t'.map UserToken.entry = t.map UserToken.entry := by
  have hop : (TokenOp.request auth).perform lib now t = .ok t' := by
    rw [TokenOp.perform, h]
    rfl
  have hstep := perform_step hop
  generalize hchange : (TokenOp.request auth).change lib = change at hstep
  cases hstep with
  | counted id row hrow =>
    have hbump : (t.modify id fun _ => row.bump now).map UserToken.entry =
        (t.map UserToken.entry).modify id fun _ => row.entry := t.map_modify UserToken.entry id fun _ => rfl
    refine hbump.trans (Table.modify_eq_self fun e he => ?_)
    rw [Table.get?_map, hrow] at he
    exact Option.some.inj he
  | passed => rfl
  | _ => cases hchange

namespace Site

variable {ω : Type}

/-- The keys and the tokens that there are. -/
def register (s : Site ω) : (ℕ → Option KeyEntry) × Table TokenEntry :=
  (keyEntries s.world.table, s.tokens.map UserToken.entry)

/-- The action as one of the dashboard. -/
def Action.dashboard? : Action ω → Option (Dashboard.Action ω)
  | .dashboard a => some a
  | .finish p token backend _ => some (.finish p token backend)
  | .tick d => some (.tick d)
  | _ => none

/-- Nobody forges what the visitors present. -/
def NoForgery (c : SiteConfig ω) (s : Site ω) (a : Action ω) : Prop :=
  ∀ a', a.dashboard? = some a' → s.dashboard.NoForgery c.auth a'

/-- Nothing has happened yet. -/
structure Start (s : Site ω) : Prop where
  world : ∃ t now, s.world = .init t now
  dashboard : s.dashboard.Start

structure Sound (c : SiteConfig ω) (s : Site ω) : Prop where
  world : s.world.Sound
  dashboard : s.dashboard.Sound c.auth

variable {c : SiteConfig ω} {s s' : Site ω} {a : Action ω} {as : List (Action ω)}

theorem perform_dashboard (order : Order) : (s.perform c order).dashboard = s.dashboard := by
  cases order <;> rfl

theorem perform_sound (order : Order) (h : s.world.Sound) : (s.perform c order).world.Sound := by
  cases order with
  | key op =>
    have hstep : s.world.step c.rot (.admin op) = some (s.perform c (.key op)).world := rfl
    exact World.step_sound h hstep
  | token op => exact h

theorem Start.sound (h : s.Start) : s.Sound c := by
  obtain ⟨t, now, hworld⟩ := h.world
  exact ⟨hworld ▸ World.init_sound t now, h.dashboard.sound⟩

/-- The request has the admin token, if there is one, or the session cookie of a
login. -/
def Authorised (c : SiteConfig ω) (s : Site ω) : Action ω → Prop
  | .admin auth _ => requireAdminToken c.lib c.adminToken auth = .ok ()
  | .finish p _ _ _ => ∃ sid ∈ s.dashboard.logins, c.auth.Carries (s.dashboard.visits p).cookies.session sid
  | _ => False

/-- The request comes from someone with neither the admin token nor the password. -/
def Action.Outside (c : SiteConfig ω) : Action ω → Prop
  | .admin auth _ => ∀ t, c.adminToken = some t → extractBearer c.lib auth ≠ some t
  | .dashboard (.login _ password _ _) => c.dashboardPassword ≠ some password
  | _ => True

/-- With an admin token, outsiders have no authorised step. -/
theorem not_authorised_of_outside (hset : c.adminToken.getD "" ≠ "") (hlogins : s.dashboard.logins = [])
    (ha : a.Outside c) : ¬ Authorised c s a := by
  intro hauth
  cases a with
  | admin auth order =>
    have hbearer := (requireAdminToken_eq_ok_iff.mp hauth).resolve_left hset
    cases htoken : c.adminToken with
    | none => exact hset (by rw [htoken]; rfl)
    | some t =>
      rw [htoken] at hbearer
      exact ha t htoken hbearer
  | finish p token backend order =>
    obtain ⟨sid, hsid, -⟩ := hauth
    rw [hlogins] at hsid
    cases hsid
  | _ => cases hauth

/-- A new key is seen in the register. -/
theorem perform_createKey_register {keyHash : String} (hnew : ¬ Registered s.world.table keyHash) :
    (s.perform c (.key (.createKey keyHash "" "" none))).register ≠ s.register := by
  intro hsame
  have hid := congrFun (congrArg Prod.fst hsame) s.world.table.nextId
  have hcreate := createKey_eq_some_iff.mpr (And.intro hnew
    (Eq.refl (s.world.table.insert (.new keyHash "" "" none s.world.now))))
  simp only [register, perform, AdminOp.apply, hcreate, Option.getD_some, keyEntries, Table.get?_insert, if_true,
    Table.get?_nextId, Option.map_some, Option.map_none, reduceCtorEq] at hid

variable [DecidableEq ω]

/-- The dashboard goes its own way. -/
theorem step_dashboard (h : s.step c a = some s') :
    run (Dashboard.step c.auth c.dashboardPassword) s.dashboard a.dashboard?.toList = some s'.dashboard := by
  cases a with
  | proxy auth p kind =>
    simp only [step] at h
    split at h
    · cases h
      rfl
    · obtain ⟨w, -, rfl⟩ := Option.map_eq_some_iff.mp h
      rfl
  | resume p ev =>
    obtain ⟨w, -, rfl⟩ := Option.map_eq_some_iff.mp h
    rfl
  | admin auth order =>
    simp only [step] at h
    split at h
    · cases h
      rfl
    · rw [Option.ite_none_right_eq_some] at h
      cases h.2
      rw [perform_dashboard]
      rfl
  | dashboard a =>
    simp only [step] at h
    split at h
    · cases h
    · cases h
    · obtain ⟨d, hd, rfl⟩ := Option.map_eq_some_iff.mp h
      exact run_cons_iff.mpr ⟨d, hd, rfl⟩
  | finish p token backend order =>
    simp only [step, Option.ite_none_right_eq_some] at h
    obtain ⟨d, hd, rfl⟩ := Option.map_eq_some_iff.mp h.2
    exact run_cons_iff.mpr ⟨d, hd, rfl⟩
  | tick d =>
    cases h
    rfl

theorem step_sound (hs : s.Sound c) (ha : s.NoForgery c a) (h : s.step c a = some s') : s'.Sound c where
  world := by
    cases a with
    | proxy auth p kind =>
      simp only [step] at h
      split at h
      · cases h
        exact hs.world
      · obtain ⟨w, hw, rfl⟩ := Option.map_eq_some_iff.mp h
        exact World.step_sound hs.world hw
    | resume p ev =>
      obtain ⟨w, hw, rfl⟩ := Option.map_eq_some_iff.mp h
      exact World.step_sound hs.world hw
    | admin auth order =>
      simp only [step] at h
      split at h
      · cases h
        exact hs.world
      · rw [Option.ite_none_right_eq_some] at h
        cases h.2
        exact perform_sound order hs.world
    | dashboard a =>
      simp only [step] at h
      split at h
      · cases h
      · cases h
      · obtain ⟨d, -, rfl⟩ := Option.map_eq_some_iff.mp h
        exact hs.world
    | finish p token backend order =>
      simp only [step, Option.ite_none_right_eq_some] at h
      obtain ⟨d, -, rfl⟩ := Option.map_eq_some_iff.mp h.2
      cases order with
      | none => exact hs.world
      | some order => exact perform_sound order hs.world
    | tick d =>
      cases h
      have hstep : s.world.step c.rot (.tick d) = some { s.world with now := s.world.now + d } := rfl
      exact World.step_sound hs.world hstep
  dashboard := by
    have hrun := step_dashboard h
    cases ha' : a.dashboard? with
    | none =>
      rw [ha'] at hrun
      have hsame : s.dashboard = s'.dashboard := Option.some.inj hrun
      exact hsame ▸ hs.dashboard
    | some a' =>
      rw [ha'] at hrun
      obtain ⟨d, hd, hnil⟩ := run_cons_iff.mp hrun
      cases hnil
      exact Dashboard.step_sound hs.dashboard (ha a' ha') hd

/-- A step that is not authorised leaves the register. -/
theorem step_register (hs : s.Sound c) (h : s.step c a = some s') :
    s'.register = s.register ∨ Authorised c s a := by
  cases a with
  | proxy auth p kind =>
    left
    simp only [step] at h
    split at h
    · cases h
      rfl
    · next tokens token htoken =>
      obtain ⟨w, hw, rfl⟩ := Option.map_eq_some_iff.mp h
      exact Prod.ext (World.step_keyEntries hs.world hw rfl) (requireUserToken_entries htoken)
  | resume p ev =>
    left
    obtain ⟨w, hw, rfl⟩ := Option.map_eq_some_iff.mp h
    exact Prod.ext (World.step_keyEntries hs.world hw rfl) rfl
  | admin auth order =>
    simp only [step] at h
    split at h
    · cases h
      exact .inl rfl
    · next hadmin => exact .inr hadmin
  | dashboard a =>
    left
    simp only [step] at h
    split at h
    · cases h
    · cases h
    · obtain ⟨d, -, rfl⟩ := Option.map_eq_some_iff.mp h
      rfl
  | finish p token backend order =>
    right
    simp only [step, Option.ite_none_right_eq_some] at h
    obtain ⟨d, hd, -⟩ := Option.map_eq_some_iff.mp h.2
    simp only [Dashboard.step] at hd
    split at hd
    · next sid hpc =>
      have hcarries := hs.dashboard.carried p sid (by rw [hpc]; rfl)
      exact ⟨sid, hs.dashboard.login hcarries, hcarries⟩
    · cases hd
  | tick d =>
    cases h
    exact .inl rfl

theorem run_sound (h0 : s.Start) (hforge : Along (step c) (NoForgery c) s as) (hrun : run (step c) s as = some s') :
    s'.Sound c :=
  run_inv (fun _ _ _ hs ha h => step_sound hs ha h) h0.sound hforge hrun

/-- A session id was made by a login with the password. -/
theorem run_login (h0 : s.Start) (hrun : run (step c) s as = some s') {sid : String}
    (hsid : sid ∈ s'.dashboard.logins) :
    ∃ q password token, Action.dashboard (.login q password sid token) ∈ as ∧ password ≠ "" ∧
      c.dashboardPassword = some password := by
  have hdash : run (Dashboard.step c.auth c.dashboardPassword) s.dashboard
      (outputs (step c) (fun _ a => a.dashboard?.toList) s as) = some s'.dashboard :=
    run_outputs (μ := Site.dashboard) (I := fun _ => True) (P := fun _ _ => True) (fun _ _ _ _ _ _ => trivial)
      (fun _ _ _ _ _ h => step_dashboard h) trivial (along_of_forall fun _ _ _ => trivial) hrun
  rcases Dashboard.login_of_mem hdash hsid with hmem | ⟨q, password, token, hmem, hpassword⟩
  · rw [h0.dashboard.logins] at hmem
    cases hmem
  · obtain ⟨-, a, ha, hout⟩ := exists_of_mem_outputs hmem
    refine ⟨q, password, token, ?_, hpassword⟩
    cases a with
    | dashboard a =>
      cases List.mem_singleton.mp hout
      exact ha
    | finish p token backend order => cases List.mem_singleton.mp hout
    | tick d => cases List.mem_singleton.mp hout
    | _ => cases hout

/-- **A key or a token comes, goes or changes only by who may do it**: by a
request under `/admin` with the admin token, if one is configured, or by a post
with the session cookie of a login with the password. -/
theorem change_authorised (h0 : s.Start) {s₁ : Site ω} (hrun : run (step c) s as = some s₁)
    (hforge : Along (step c) (NoForgery c) s as) (h : s₁.step c a = some s') (hchange : s'.register ≠ s₁.register) :
    (∃ auth order, a = .admin auth order ∧
      (c.adminToken.getD "" = "" ∨ extractBearer c.lib auth = some (c.adminToken.getD ""))) ∨
    ∃ p token backend order sid, a = .finish p token backend order ∧
      c.auth.Carries (s₁.dashboard.visits p).cookies.session sid ∧
      ∃ q password token', Action.dashboard (.login q password sid token') ∈ as ∧ password ≠ "" ∧
        c.dashboardPassword = some password := by
  have hauth := (step_register (run_sound h0 hforge hrun) h).resolve_left hchange
  cases a with
  | admin auth order => exact .inl ⟨auth, order, rfl, requireAdminToken_eq_ok_iff.mp hauth⟩
  | finish p token backend order =>
    obtain ⟨sid, hsid, hcarries⟩ := hauth
    exact .inr ⟨p, token, backend, order, sid, rfl, hcarries, run_login h0 hrun hsid⟩
  | _ => cases hauth

/-- An outsider does not log in. -/
theorem step_logins (hlogins : s.dashboard.logins = []) (ha : a.Outside c) (h : s.step c a = some s') :
    s'.dashboard.logins = [] := by
  have hrun := step_dashboard h
  cases ha' : a.dashboard? with
  | none =>
    rw [ha'] at hrun
    have hsame : s.dashboard = s'.dashboard := Option.some.inj hrun
    exact hsame ▸ hlogins
  | some a' =>
    rw [ha'] at hrun
    obtain ⟨d, hd, hnil⟩ := run_cons_iff.mp hrun
    cases hnil
    rcases Dashboard.step_logins hd with hsame | ⟨q, password, raw, token, rfl, -, hpassword, -⟩
    · exact hsame.trans hlogins
    · cases a with
      | dashboard a =>
        cases ha'
        exact absurd hpassword ha
      | finish p token backend order => cases ha'
      | tick d => cases ha'
      | _ => cases ha'

/-- **Outsiders leave the register exactly if an admin token is configured**,
whatever they send and in whatever order. -/
theorem register_kept_iff (h0 : s.Start) :
    (∀ as s', run (step c) s as = some s' → Along (step c) (NoForgery c) s as → (∀ a ∈ as, a.Outside c) →
      s'.register = s.register) ↔ c.adminToken.getD "" ≠ "" := by
  constructor
  · intro hkept hempty
    obtain ⟨keyHash, hnew⟩ := exists_not_registered s.world.table
    have hopen : requireAdminToken c.lib c.adminToken none = .ok () :=
      requireAdminToken_eq_ok_iff.mpr (.inl hempty)
    have hs : s.step c (.admin none (.key (.createKey keyHash "" "" none))) =
        some (s.perform c (.key (.createKey keyHash "" "" none))) := by
      simp [step, hopen, Order.isAdmin]
    refine perform_createKey_register hnew (hkept [_] _ (run_cons_iff.mpr ⟨_, hs, rfl⟩) ?_ ?_)
    · rw [along_cons hs]
      exact ⟨nofun, trivial⟩
    · intro a ha
      cases List.mem_singleton.mp ha
      exact fun _ _ => nofun
  · intro hset as s' hrun hforge hout
    have hall : s'.Sound c ∧ s'.dashboard.logins = [] ∧ s'.register = s.register := by
      refine run_inv (P := fun s a => NoForgery c s a ∧ a.Outside c)
        (I := fun s₁ => s₁.Sound c ∧ s₁.dashboard.logins = [] ∧ s₁.register = s.register) ?_
        ⟨h0.sound, h0.dashboard.logins, rfl⟩ (hforge.and (along_of_forall fun _ a ha => hout a ha)) hrun
      rintro s₁ a s₂ ⟨hs, hlogins, hsame⟩ ⟨hforge, hout⟩ h
      have hkept := (step_register hs h).resolve_right (not_authorised_of_outside hset hlogins hout)
      exact ⟨step_sound hs hforge h, step_logins hlogins hout h, hkept.trans hsame⟩
    exact hall.2.2

end Site

namespace Site.Sample

open Dashboard.Sample (Value auth cookies)

def config : SiteConfig Value where
  rot := OllamaProxy.Sample.rotation
  lib := OllamaProxy.Sample.library
  adminToken := some "top"
  auth := auth
  dashboardPassword := some "hunter2"

def init : Site Value := ⟨.init OllamaProxy.Sample.pool 0, .empty, Dashboard.Sample.init⟩

theorem init_start : init.Start := ⟨⟨_, _, rfl⟩, Dashboard.Sample.init_start⟩

/-- A wrong token, a wrong password, a post without a session, and the proxy,
which is open. -/
def guesses : List (Action Value) :=
  [.admin (some "Bearer opk_a") (.key (.deleteKey 1)), .dashboard (.login 0 "hunter3" "sid" "t"),
    .dashboard (.post 1 .submit {} {}), .proxy none 0 OllamaProxy.Sample.chat, .admin none (.key .resetKeyStates)]

theorem guesses_outside : ∀ a ∈ guesses, a.Outside config := by
  have hwrong : extractBearer config.lib (some "Bearer opk_a") ≠ some "top" := by decide +kernel
  have hnone : extractBearer config.lib none ≠ some "top" := by decide +kernel
  simp only [guesses, List.forall_mem_cons, Action.Outside, List.not_mem_nil, false_imp_iff, implies_true, and_true,
    true_and]
  refine ⟨fun t ht => ?_, by decide, fun t ht => ?_⟩
  · cases ht
    exact hwrong
  · cases ht
    exact hnone

theorem register_kept_iff_guesses :
    (run (step config) init guesses).isSome = true ∧
      ∀ s', run (step config) init guesses = some s' → s'.register = init.register := by
  refine ⟨by decide +kernel, fun s' hrun =>
    (register_kept_iff init_start).mpr (by decide) guesses s' hrun ?_ guesses_outside⟩
  refine along_of_forall fun s a ha a' ha' v hv => ?_
  fin_cases ha <;> cases ha' <;> cases hv

/-- A login, and a post up to the call of the backend. -/
def posted : List (Action Value) :=
  [.dashboard Dashboard.Sample.login, .dashboard Dashboard.Sample.post, .dashboard (.readForm 1),
    .dashboard (.submit 1)]

theorem posted_noForgery : Along (step config) (NoForgery config) init posted := by
  let s₁ := (step config init (.dashboard Dashboard.Sample.login)).get (by decide +kernel)
  have h₁ : step config init (.dashboard Dashboard.Sample.login) = some s₁ := (Option.some_get _).symm
  rw [posted, along_cons h₁]
  refine ⟨?_, ?_, ?_⟩
  · rintro a' ⟨⟩ w hw
    cases hw
  · rintro a' ⟨⟩ w hw
    have hsub : Dashboard.Sample.post.presents ⊆ s₁.dashboard.signed.map auth.signer.value := by decide +kernel
    obtain ⟨e, he, rfl⟩ := List.mem_map.mp (hsub hw)
    exact Signer.unforged_value he
  · split
    · refine along_of_forall fun s a ha a' ha' v hv => ?_
      fin_cases ha <;> cases ha' <;> cases hv
    · trivial

/-- The post deletes key 1. -/
theorem change_authorised_posted :
    ∃ s₁ s', run (step config) init posted = some s₁ ∧
      s₁.step config (.finish 1 "t2" (.flash "/dashboard" .ok "key 1: deleted")
        (some (.key (.deleteKey 1)))) = some s' ∧
      ∃ q password sid token', Action.dashboard (.login q password sid token') ∈ posted ∧ password ≠ "" ∧
        some "hunter2" = some password := by
  let s₁ := (run (step config) init posted).get (by decide +kernel)
  let s' := (s₁.step config (.finish 1 "t2" (.flash "/dashboard" .ok "key 1: deleted")
    (some (.key (.deleteKey 1))))).get (by decide +kernel)
  have hrun : run (step config) init posted = some s₁ := (Option.some_get _).symm
  have hstep : s₁.step config (.finish 1 "t2" (.flash "/dashboard" .ok "key 1: deleted")
      (some (.key (.deleteKey 1)))) = some s' := (Option.some_get _).symm
  have hchange : s'.register ≠ s₁.register := by
    have hgone : (s'.register.1 1).isSome = false := by decide +kernel
    have hthere : (s₁.register.1 1).isSome = true := by decide +kernel
    intro hsame
    rw [hsame, hthere] at hgone
    cases hgone
  refine ⟨s₁, s', hrun, hstep, ?_⟩
  rcases change_authorised init_start hrun posted_noForgery hstep hchange with
    ⟨_, _, ha, -⟩ | ⟨_, _, _, _, sid, -, -, q, password, token', hlogin⟩
  · cases ha
  · exact ⟨q, password, sid, token', hlogin⟩

end Site.Sample

end OllamaProxy
