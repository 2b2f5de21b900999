/-
# The lifespan of the app

`lifespan` makes the vault, the engine, the http client and the usage service,
and starts `_usage_refresh_loop`; after the last request it cancels the loop,
waits for it, and only then closes the client and disposes the engine. So
whatever happens, a loop that is not over has an open client and the engine, and
there is never a second one (`loop_ready`).

Two paths of the source leave something behind. A start that finds the dashboard
without its variables raises past the `try`, and nothing closes what it made
(`released_iff`). And a cycle that answers the cancellation with another error is
logged as a failed one: the loop sleeps and goes on, and the shutdown waits for
it for ever (`shutdown_ends_iff`).

Key definitions: `Loop.step`, `App.start`, `App.step`, `App.Ready`.
Key theorems: `Inv.step`, `loop_ready`, `released_iff`, `shutdown_ends_iff`, `cycles_paced`.
-/
import OllamaProxy.Lib.Run

namespace OllamaProxy

open Kit

/-- What `lifespan` reads of the settings. -/
structure Settings where
  enableDashboard : Bool
  dashboardPassword : Option String
  dashboardSessionSecret : Option String
  usageRefreshIntervalSeconds : ℤ

namespace Settings

/-- The variables that the dashboard needs and does not have. -/
def missing (c : Settings) : List String :=
  (if c.dashboardPassword.getD "" = "" then ["DASHBOARD_PASSWORD"] else []) ++
    if c.dashboardSessionSecret.getD "" = "" then ["DASHBOARD_SESSION_SECRET"] else []

/-- The `RuntimeError` of a start. -/
def startError (c : Settings) : Option String :=
  if c.enableDashboard && c.missing ≠ [] then
    some ("dashboard cannot start: missing required env vars: " ++ ", ".intercalate c.missing ++
      ". Set them in docker-compose.yml or .env.")
  else none

end Settings

/-! ### The refresh loop -/

/-- How the cycle in flight ends. -/
inductive CycleOutcome
  | returns
  | raises
  | cancelled
deriving DecidableEq

/-- `cycling` and `sleeping` have the engine of the session factory. -/
inductive LoopPc
  | created
  | cycling (engine : ℕ)
  | sleeping (engine : ℕ) (wake : ℤ)
  | ended
deriving DecidableEq

def LoopPc.isCycling : LoopPc → Bool
  | .cycling _ => true
  | _ => false

/-- `cancelled` is a `cancel()` that the task has not been given yet. -/
structure Loop where
  pc : LoopPc := .ended
  cancelled : Bool := false
deriving DecidableEq

namespace Loop

def Alive (l : Loop) : Prop := l.pc ≠ .ended

instance (l : Loop) : Decidable l.Alive := inferInstanceAs (Decidable (_ ≠ _))

/-- `task.cancel()`; a task that is done takes no notice. -/
def cancel (l : Loop) : Loop := if l.Alive then { l with cancelled := true } else l

/-- `_usage_refresh_loop` to its next await. -/
def step (engine : Option ℕ) (now interval : ℤ) (l : Loop) (outcome : CycleOutcome) : Option Loop :=
  match l.pc with
  | .created =>
    if l.cancelled then some {}
    else
      match engine with
      | none => some {} -- `get_session_factory` raises
      | some e => some { pc := .cycling e }
  | .cycling e =>
    match outcome with
    | .cancelled => if l.cancelled then some {} else none
    | .returns | .raises => some { pc := .sleeping e (now + interval) }
  | .sleeping e wake =>
    if l.cancelled then some {} else if wake ≤ now then some { pc := .cycling e } else none
  | .ended => none

end Loop

/-! ### The app -/

/-- Where `lifespan` is: before the start, at `yield`, and at the three awaits of
its `finally`. -/
inductive LifespanPc
  | down
  | up
  | joining
  | closing
  | disposing
deriving DecidableEq

/-- What becomes of a start: what raises, the vault, `init_engine`, which may have
set the module's engine by then, or the http client. -/
inductive StartOutcome
  | vaultRaises
  | engineRaises (isSet : Bool)
  | clientRaises
  | completes
deriving DecidableEq

/-- The starts of the process are numbered: engines, clients and loops go by the
start that made them. -/
structure App where
  now : ℤ
  starts : ℕ
  vault : Bool
  engine : Option ℕ
  stateEngine : Option ℕ
  httpClient : Option ℕ
  openClients : List ℕ
  usageService : Option ℕ
  dashboardAuth : Bool
  templates : Bool
  refreshTask : Option ℕ
  loops : ℕ → Loop
  pc : LifespanPc

namespace App

def init (now : ℤ) : App where
  now := now
  starts := 0
  vault := false
  engine := none
  stateEngine := none
  httpClient := none
  openClients := []
  usageService := none
  dashboardAuth := false
  templates := false
  refreshTask := none
  loops _ := {}
  pc := .down

/-- `lifespan` up to `yield`. -/
def start (c : Settings) (s : App) : StartOutcome → Option App
  | .vaultRaises => some { s with starts := s.starts + 1 }
  | .engineRaises isSet =>
    match s.engine with
    | some _ => none -- `init_engine` returns at once
    | none =>
      some { s with starts := s.starts + 1, vault := true, engine := if isSet then some s.starts else none }
  | .clientRaises =>
    let engine := s.engine.getD s.starts
    some { s with starts := s.starts + 1, vault := true, engine := some engine, stateEngine := some engine }
  | .completes =>
    let n := s.starts
    let engine := s.engine.getD n
    let s := { s with
      starts := n + 1, vault := true, engine := some engine, stateEngine := some engine
      httpClient := some n, openClients := n :: s.openClients, usageService := some n }
    if c.startError.isSome then some s
    else
      let s := { s with
        dashboardAuth := s.dashboardAuth || c.enableDashboard, templates := s.templates || c.enableDashboard
        pc := .up }
      if 0 < c.usageRefreshIntervalSeconds then
        some { s with refreshTask := some n, loops := Function.update s.loops n { pc := .created } }
      else some { s with refreshTask := none }

/-- After the loop: `set_dashboard_auth(None)`, and on to `aclose`. -/
def unset (c : Settings) (s : App) : App :=
  { s with dashboardAuth := s.dashboardAuth && !c.enableDashboard, pc := .closing }

/-- `get_vault`, which makes a vault where there is none. -/
def getVault (s : App) : App := { s with vault := true }

def healthz (s : App) : ℕ × String :=
  let engineReady := s.stateEngine.isSome
  let vaultReady := s.getVault.vault
  if engineReady && vaultReady then (200, "ok") else (503, "starting")

def setLoop (s : App) (i : ℕ) (l : Loop) : App := { s with loops := Function.update s.loops i l }

/-- `refresh` takes a loop to its next await; `closed` and `disposed` say whether
the await returned. -/
inductive Action
  | start (outcome : StartOutcome)
  | refresh (i : ℕ) (outcome : CycleOutcome)
  | shutdown
  | joined
  | closed (ok : Bool)
  | disposed (ok : Bool)
  | tick (d : ℕ)
deriving DecidableEq

def step (c : Settings) (s : App) : Action → Option App
  | .start outcome => if s.pc = .down then s.start c outcome else none
  | .refresh i outcome =>
    ((s.loops i).step s.engine s.now c.usageRefreshIntervalSeconds outcome).map (s.setLoop i)
  | .shutdown =>
    if s.pc = .up then
      match s.refreshTask with
      | some i => some { s.setLoop i (s.loops i).cancel with pc := .joining }
      | none => some (s.unset c)
    else none
  | .joined =>
    match s.refreshTask with
    | some i => if s.pc = .joining ∧ ¬ (s.loops i).Alive then some (s.unset c) else none
    | none => none
  | .closed ok =>
    -- the client counts as closed before its connections are
    if s.pc = .closing then
      some { s with
        openClients := s.openClients.filter (some · ≠ s.httpClient), pc := if ok then .disposing else .down }
    else none
  | .disposed ok =>
    if s.pc = .disposing then some { s with engine := if ok then none else s.engine, pc := .down } else none
  | .tick d => some { s with now := s.now + d }

end App

/-! ### What the loop rests on -/

namespace Loop

variable {engine : Option ℕ} {now interval : ℤ} {l l' : Loop} {outcome : CycleOutcome}

/-- The engine of the loop's session factory. -/
def factory (l : Loop) : Option ℕ :=
  match l.pc with
  | .cycling e | .sleeping e _ => some e
  | .created | .ended => none

theorem not_alive_ended (b : Bool) : ¬ Alive { pc := .ended, cancelled := b } := fun h => h rfl

theorem cancel_pc (l : Loop) : l.cancel.pc = l.pc := by
  unfold cancel
  split <;> rfl

theorem cancel_cancelled (h : l.Alive) : l.cancel.cancelled = true := by rw [cancel, if_pos h]

/-- What the loop does between two awaits. -/
theorem step_cases (h : l.step engine now interval outcome = some l') :
    (l.Alive ∧ l' = {} ∧ (l.cancelled = true ∨ l.pc = .created ∧ engine = none) ∧
      (l.pc.isCycling = true → outcome = .cancelled)) ∨
    (∃ e, l.pc = .created ∧ l.cancelled = false ∧ engine = some e ∧ l' = { pc := .cycling e }) ∨
    (∃ e, l.pc = .cycling e ∧ outcome ≠ .cancelled ∧ l' = { pc := .sleeping e (now + interval) }) ∨
    ∃ e wake, l.pc = .sleeping e wake ∧ l.cancelled = false ∧ wake ≤ now ∧ l' = { pc := .cycling e } := by
  obtain ⟨pc, cancelled⟩ := l
  cases pc with
  | created =>
    cases cancelled <;> cases engine <;> simp_all [step, Alive, LoopPc.isCycling]
  | cycling e =>
    cases outcome <;> cases cancelled <;> simp_all [step, Alive]
  | sleeping e wake =>
    cases cancelled
    · by_cases hwake : wake ≤ now <;> simp_all [step, Alive]
    · simp_all [step, Alive, LoopPc.isCycling]
  | ended => simp [step] at h

/-- A step starts no loop again. -/
theorem alive_of_step (h : l.step engine now interval outcome = some l') : l.Alive := by
  rcases step_cases h with ⟨ha, -⟩ | ⟨e, hpc, -⟩ | ⟨e, hpc, -⟩ | ⟨e, w, hpc, -⟩
  · exact ha
  all_goals simp [Alive, hpc]

/-- The factory stays, and is taken from the module's engine. -/
theorem factory_step (h : l.step engine now interval outcome = some l')
    (hl : ∀ e, l.factory = some e → engine = some e) : ∀ e, l'.factory = some e → engine = some e := by
  rcases step_cases h with ⟨-, rfl, -⟩ | ⟨e, -, -, he, rfl⟩ | ⟨e, hpc, -, rfl⟩ | ⟨e, w, hpc, -, -, rfl⟩
  · exact nofun
  · rintro e' ⟨⟩
    exact he
  all_goals
    rintro e' ⟨⟩
    exact hl e (by simp [factory, hpc])

end Loop

namespace App

variable {c : Settings} {s s' : App} {as : List Action}

@[simp] theorem setLoop_self (s : App) (i : ℕ) (l : Loop) : (s.setLoop i l).loops i = l := Function.update_self _ _ _

theorem setLoop_of_ne {i j : ℕ} (h : j ≠ i) (l : Loop) : (s.setLoop i l).loops j = s.loops j :=
  Function.update_of_ne h _ _

/-- A cancellation takes no loop further. -/
theorem setLoop_cancel_pc (s : App) (i j : ℕ) : ((s.setLoop i (s.loops i).cancel).loops j).pc = (s.loops j).pc := by
  by_cases hji : j = i
  · subst hji
    rw [setLoop_self, Loop.cancel_pc]
  · rw [setLoop_of_ne hji]

/-- From `yield` until the loop is over. -/
def Live (s : App) : Prop := s.pc = .up ∨ s.pc = .joining

instance (s : App) : Decidable s.Live := inferInstanceAs (Decidable (_ ∨ _))

/-- All that a request or a cycle uses is there. -/
structure Ready (c : Settings) (s : App) : Prop where
  vault : s.vault = true
  engine : ∃ e, s.engine = some e ∧ s.stateEngine = some e
  client : ∃ n, s.httpClient = some n ∧ s.usageService = some n ∧ n ∈ s.openClients
  dashboard : c.enableDashboard = true → s.dashboardAuth = true ∧ s.templates = true

structure Inv (c : Settings) (s : App) : Prop where
  alive : ∀ i, (s.loops i).Alive → s.refreshTask = some i ∧ s.Live
  factory : ∀ i e, (s.loops i).factory = some e → s.engine = some e
  ready : s.Live → s.Ready c
  task : s.pc = .up → ∀ i, s.refreshTask = some i → (s.loops i).Alive ∧ (s.loops i).cancelled = false
  joined : s.pc = .joining → ∃ i, s.refreshTask = some i
  interval : s.pc = .up → (s.refreshTask.isSome ↔ 0 < c.usageRefreshIntervalSeconds)
  auth : s.dashboardAuth = (c.enableDashboard && decide s.Live)
  own : s.Live → ∀ i, s.refreshTask = some i → s.httpClient = some i
  clients : c.startError = none →
    if s.Live ∨ s.pc = .closing then ∃ n, s.httpClient = some n ∧ s.openClients = [n] else s.openClients = []
  misconfigured : c.startError.isSome → s.pc = .down

/-- Before the start and after the loop. -/
theorem Inv.of_not_live (hlive : ¬ s.Live) (hover : ∀ i, ¬ (s.loops i).Alive) (hauth : s.dashboardAuth = false)
    (hclients : c.startError = none →
      if s.pc = .closing then ∃ n, s.httpClient = some n ∧ s.openClients = [n] else s.openClients = [])
    (hmis : c.startError.isSome → s.pc = .down) : Inv c s where
  alive i h := absurd h (hover i)
  factory i e h := by
    have hpc : (s.loops i).pc = .ended := not_not.mp (hover i)
    simp [Loop.factory, hpc] at h
  ready h := absurd h hlive
  task h := absurd (.inl h) hlive
  joined h := absurd (.inr h) hlive
  interval h := absurd (.inl h) hlive
  auth := by simp [hauth, hlive]
  own h := absurd h hlive
  clients h := by simpa only [hlive, false_or] using hclients h
  misconfigured := hmis

theorem Inv.init (now : ℤ) : Inv c (init now) :=
  Inv.of_not_live (by simp [Live, App.init]) (fun _ h => h rfl) rfl (fun _ => rfl) fun _ => rfl

theorem Inv.ended (h : Inv c s) (hlive : ¬ s.Live) (i : ℕ) : ¬ (s.loops i).Alive := fun ha => hlive (h.alive i ha).2

/-- What a start does. -/
theorem start_cases {outcome : StartOutcome} (hs : s.start c outcome = some s') : s'.now = s.now ∧
    s'.starts = s.starts + 1 ∧ ((s'.pc = s.pc ∧ s'.loops = s.loops ∧ s'.dashboardAuth = s.dashboardAuth ∧
      (s'.openClients = s.openClients ∨ c.startError.isSome)) ∨
    (c.startError = none ∧ s'.pc = .up ∧ s'.Ready c ∧ s'.httpClient = some s.starts ∧
      s'.openClients = s.starts :: s.openClients ∧ s'.dashboardAuth = (s.dashboardAuth || c.enableDashboard) ∧
      if 0 < c.usageRefreshIntervalSeconds then
        s'.refreshTask = some s.starts ∧ s'.loops = Function.update s.loops s.starts { pc := .created }
      else s'.refreshTask = none ∧ s'.loops = s.loops)) := by
  cases outcome with
  | vaultRaises =>
    cases hs
    exact ⟨rfl, rfl, .inl ⟨rfl, rfl, rfl, .inl rfl⟩⟩
  | engineRaises isSet =>
    simp only [start] at hs
    split at hs
    · cases hs
    · cases hs
      exact ⟨rfl, rfl, .inl ⟨rfl, rfl, rfl, .inl rfl⟩⟩
  | clientRaises =>
    cases hs
    exact ⟨rfl, rfl, .inl ⟨rfl, rfl, rfl, .inl rfl⟩⟩
  | completes =>
    simp only [start] at hs
    cases herr : c.startError with
    | some e =>
      rw [herr] at hs
      cases hs
      exact ⟨rfl, rfl, .inl ⟨rfl, rfl, rfl, .inr rfl⟩⟩
    | none =>
      rw [herr] at hs
      simp only [Option.isSome_none, Bool.false_eq_true, if_false] at hs
      split_ifs at hs with hint
      all_goals
        cases hs
        refine ⟨rfl, rfl, .inr ?_⟩
        simp only [hint, if_true, if_false]
        refine ⟨trivial, trivial, ⟨rfl, ⟨_, rfl, rfl⟩, ⟨_, rfl, rfl, List.mem_cons_self⟩, fun hd => ?_⟩,
          trivial, trivial, trivial, trivial, trivial⟩
        simp [hd]

theorem Inv.start {outcome : StartOutcome} (h : Inv c s) (hpc : s.pc = .down) (hs : s.start c outcome = some s') :
    Inv c s' := by
  have hlive : ¬ s.Live := by simp [Live, hpc]
  have hauth : s.dashboardAuth = false := by simpa [hlive] using h.auth
  rcases (start_cases hs).2.2 with
    ⟨hpc', hloops, hauth', hclients⟩ | ⟨herr, hpc', hready, hclient, hclients, hauth', htask⟩
  · refine Inv.of_not_live (by rwa [Live, hpc']) (fun i => by rw [hloops]; exact h.ended hlive i)
      (hauth'.trans hauth) (fun herr => ?_) fun _ => hpc'.trans hpc
    rcases hclients with hclients | herr'
    · have hc := h.clients herr
      simp only [hlive, hpc, false_or, reduceCtorEq, if_false] at hc
      simp [hclients, hc, hpc', hpc]
    · simp [herr] at herr'
  · have hlive' : s'.Live := .inl hpc'
    have hopen : s'.openClients = [s.starts] := by
      have hc := h.clients herr
      simp only [hlive, hpc, false_or, reduceCtorEq, if_false] at hc
      rw [hclients, hc]
    have halive : ∀ i, (s'.loops i).Alive → s'.refreshTask = some i ∧ s'.loops i = { pc := .created } := by
      intro i hi
      split_ifs at htask with hint
      · rw [htask.2] at hi ⊢
        by_cases hin : i = s.starts
        · subst hin
          exact ⟨htask.1, Function.update_self _ _ _⟩
        · rw [Function.update_of_ne hin] at hi
          exact absurd hi (h.ended hlive i)
      · rw [htask.2] at hi
        exact absurd hi (h.ended hlive i)
    constructor
    case alive => exact fun i hi => ⟨(halive i hi).1, hlive'⟩
    case factory =>
      intro i e he
      by_cases hi : (s'.loops i).Alive
      · rw [(halive i hi).2] at he
        cases he
      · rw [Loop.factory, not_not.mp hi] at he
        cases he
    case ready => exact fun _ => hready
    case task =>
      intro _ i hi
      split_ifs at htask with hint
      · cases htask.1.symm.trans hi
        rw [htask.2, Function.update_self]
        exact ⟨nofun, rfl⟩
      · cases htask.1.symm.trans hi
    case joined => simp [hpc']
    case interval =>
      intro _
      split_ifs at htask with hint <;> simp [htask.1, hint]
    case auth => simp [hauth', hauth, hlive']
    case own =>
      intro _ i hi
      split_ifs at htask with hint
      · cases htask.1.symm.trans hi
        exact hclient
      · cases htask.1.symm.trans hi
    case clients => simp [hclient, hopen, hlive']
    case misconfigured => simp [herr]

/-- While the app is up, its loop does not end. -/
theorem Inv.task_step {i : ℕ} {outcome : CycleOutcome} {l : Loop} (h : Inv c s) (hpc : s.pc = .up)
    (hi : s.refreshTask = some i)
    (hl : (s.loops i).step s.engine s.now c.usageRefreshIntervalSeconds outcome = some l) :
    l.Alive ∧ l.cancelled = false := by
  obtain ⟨e, he, -⟩ := (h.ready (.inl hpc)).engine
  have hc := (h.task hpc i hi).2
  rcases Loop.step_cases hl with
    ⟨-, rfl, hcancel | ⟨-, hnone⟩, -⟩ | ⟨e, -, -, -, rfl⟩ | ⟨e, -, -, rfl⟩ | ⟨e, w, -, -, -, rfl⟩
  · exact absurd (hc.symm.trans hcancel) Bool.false_ne_true
  · cases he.symm.trans hnone
  all_goals exact ⟨nofun, rfl⟩

theorem Inv.refresh {i : ℕ} {outcome : CycleOutcome} {l : Loop} (h : Inv c s)
    (hl : (s.loops i).step s.engine s.now c.usageRefreshIntervalSeconds outcome = some l) :
    Inv c (s.setLoop i l) where
  alive := (Function.forall_update_iff s.loops fun j m => m.Alive → s.refreshTask = some j ∧ s.Live).mpr
    ⟨fun _ => h.alive i (Loop.alive_of_step hl), fun j _ => h.alive j⟩
  factory := (Function.forall_update_iff s.loops fun _ m => ∀ e, m.factory = some e → s.engine = some e).mpr
    ⟨Loop.factory_step hl (h.factory i), fun j _ => h.factory j⟩
  ready hlive := ⟨(h.ready hlive).1, (h.ready hlive).2, (h.ready hlive).3, (h.ready hlive).4⟩
  task hpc := (Function.forall_update_iff s.loops
    fun j m => s.refreshTask = some j → m.Alive ∧ m.cancelled = false).mpr
    ⟨fun hi => h.task_step hpc hi hl, fun j _ => h.task hpc j⟩
  joined := h.joined
  interval := h.interval
  auth := h.auth
  own := h.own
  clients := h.clients
  misconfigured := h.misconfigured

/-- With the loop over, the rest of the `finally` begins. -/
theorem Inv.unset (h : Inv c s) (hlive : s.Live) (hended : ∀ i, ¬ (s.loops i).Alive) : Inv c (s.unset c) := by
  refine Inv.of_not_live (by simp [Live, App.unset]) hended ?_ (fun herr => ?_) fun herr => ?_
  · have hauth := h.auth
    simp only [hlive, decide_true, Bool.and_true] at hauth
    simp [App.unset, hauth]
  · have hc := h.clients herr
    simpa [hlive, App.unset] using hc
  · have hdown := h.misconfigured herr
    simp [Live, hdown] at hlive

theorem Inv.cancel {i : ℕ} (h : Inv c s) (hpc : s.pc = .up) (hi : s.refreshTask = some i) :
    Inv c { s.setLoop i (s.loops i).cancel with pc := .joining } := by
  have hup := h.ready (.inl hpc)
  have hpcs := s.setLoop_cancel_pc i
  constructor
  case alive =>
    intro j hj
    rw [Loop.Alive, hpcs] at hj
    exact ⟨(h.alive j hj).1, .inr rfl⟩
  case factory =>
    intro j e he
    rw [Loop.factory, hpcs] at he
    exact h.factory j e he
  case ready => exact fun _ => ⟨hup.1, hup.2, hup.3, hup.4⟩
  case task => exact nofun
  case joined => exact fun _ => ⟨i, hi⟩
  case interval => exact nofun
  case auth => simpa [Live, hpc, setLoop] using h.auth
  case own => exact fun _ => h.own (.inl hpc)
  case clients =>
    intro herr
    simpa [Live, hpc, setLoop] using h.clients herr
  case misconfigured =>
    intro herr
    cases hpc.symm.trans (h.misconfigured herr)

theorem Inv.step {a : Action} (h : Inv c s) (hs : s.step c a = some s') : Inv c s' := by
  cases a with
  | start outcome =>
    simp only [App.step, Option.ite_none_right_eq_some] at hs
    exact h.start hs.1 hs.2
  | refresh i outcome =>
    obtain ⟨l, hl, rfl⟩ := Option.map_eq_some_iff.mp hs
    exact h.refresh hl
  | shutdown =>
    simp only [App.step, Option.ite_none_right_eq_some] at hs
    obtain ⟨hpc, hs⟩ := hs
    cases htask : s.refreshTask with
    | some i =>
      rw [htask] at hs
      cases hs
      exact h.cancel hpc htask
    | none =>
      rw [htask] at hs
      cases hs
      refine h.unset (.inl hpc) fun i hi => ?_
      cases htask.symm.trans (h.alive i hi).1
  | joined =>
    cases htask : s.refreshTask with
    | none => simp [App.step, htask] at hs
    | some i =>
      simp only [App.step, htask, Option.ite_none_right_eq_some, Option.some.injEq] at hs
      obtain ⟨⟨hpc, hended⟩, rfl⟩ := hs
      refine h.unset (.inr hpc) fun j hj => ?_
      cases htask.symm.trans (h.alive j hj).1
      exact hended hj
  | closed ok =>
    simp only [App.step, Option.ite_none_right_eq_some, Option.some.injEq] at hs
    obtain ⟨hpc, rfl⟩ := hs
    have hlive : ¬ s.Live := by simp [Live, hpc]
    refine Inv.of_not_live (by cases ok <;> simp [Live]) (h.ended hlive) (by simpa [hlive] using h.auth)
      (fun herr => ?_) fun herr => ?_
    · have hc := h.clients herr
      simp only [hpc, or_true, if_true] at hc
      obtain ⟨n, hn, hopen⟩ := hc
      cases ok <;> simp [hn, hopen]
    · cases hpc.symm.trans (h.misconfigured herr)
  | disposed ok =>
    simp only [App.step, Option.ite_none_right_eq_some, Option.some.injEq] at hs
    obtain ⟨hpc, rfl⟩ := hs
    have hlive : ¬ s.Live := by simp [Live, hpc]
    refine Inv.of_not_live (by simp [Live]) (h.ended hlive) (by simpa [hlive] using h.auth)
      (fun herr => ?_) fun _ => rfl
    simpa [hlive, hpc] using h.clients herr
  | tick d =>
    cases hs
    exact ⟨h.alive, h.factory, fun hl => ⟨(h.ready hl).1, (h.ready hl).2, (h.ready hl).3, (h.ready hl).4⟩, h.task,
      h.joined, h.interval, h.auth, h.own, h.clients, h.misconfigured⟩

theorem Inv.run {now : ℤ} (hrun : Kit.run (App.step c) (App.init now) as = some s) : Inv c s :=
  run_inv' (fun _ _ _ h hs => h.step hs) (Inv.init now) hrun

/-- The dashboard with its two variables, and a cycle every five minutes. -/
def dashboardSettings : Settings where
  enableDashboard := true
  dashboardPassword := some "password"
  dashboardSessionSecret := some "secret"
  usageRefreshIntervalSeconds := 300

/-- **What a request or a cycle uses is there as long as it can use it**: while
the app is up it is healthy, with a loop if there is an interval, and a loop that
is not over is the only one, with the client of its own start open and the
module's engine in its session factory. But for a start that cannot come through
there is one open client until the shutdown has closed it, and then none. -/
theorem loop_ready {now : ℤ} (hrun : run (step c) (init now) as = some s) :
    (s.pc = .up → s.Ready c ∧ s.healthz = (200, "ok") ∧
      ((∃ i, (s.loops i).Alive) ↔ 0 < c.usageRefreshIntervalSeconds)) ∧
    (∀ i, (s.loops i).Alive → s.Ready c ∧ s.httpClient = some i ∧ (∀ j, (s.loops j).Alive → j = i) ∧
      ∀ e, (s.loops i).factory = some e → s.engine = some e) ∧
    (c.startError = none → s.openClients.length = if s.Live ∨ s.pc = .closing then 1 else 0) := by
  have h := Inv.run hrun
  refine ⟨fun hpc => ⟨h.ready (.inl hpc), ?_, ?_⟩, fun i hi => ?_, fun herr => ?_⟩
  · obtain ⟨e, -, he⟩ := (h.ready (.inl hpc)).engine
    simp [healthz, he, getVault]
  · rw [← h.interval hpc, Option.isSome_iff_exists]
    exact ⟨fun ⟨i, hi⟩ => ⟨i, (h.alive i hi).1⟩, fun ⟨i, hi⟩ => ⟨i, (h.task hpc i hi).1⟩⟩
  · obtain ⟨htask, hlive⟩ := h.alive i hi
    exact ⟨h.ready hlive, h.own hlive i htask, fun j hj => Option.some.inj ((h.alive j hj).1.symm.trans htask),
      h.factory i⟩
  · have hc := h.clients herr
    split_ifs at hc ⊢ with hheld
    · obtain ⟨n, -, hopen⟩ := hc
      rw [hopen, List.length_singleton]
    · rw [hc, List.length_nil]

/-- The process is stopped in the middle of a cycle and started again. -/
theorem loop_ready_restarted :
    let as : List Action := [.start .completes, .refresh 0 .returns, .refresh 0 .raises, .tick 300, .refresh 0 .returns,
      .shutdown, .refresh 0 .cancelled, .joined, .closed true, .disposed true, .start .completes, .refresh 1 .returns]
    (run (step dashboardSettings) (init 0) as).map (fun s => (s.pc, (s.loops 0).pc, (s.loops 1).pc, s.openClients)) =
      some (.up, .ended, .cycling 1, [1]) ∧
    ∀ s, run (step dashboardSettings) (init 0) as = some s → s.pc = .up → s.healthz = (200, "ok") :=
  ⟨by decide +kernel, fun _ hrun hpc => ((loop_ready hrun).1 hpc).2.1⟩

/-! ### What a stop leaves -/

/-- What the start calls returns, and so do the awaits of the `finally`. -/
def Action.Clean : Action → Prop
  | .start outcome => outcome = .completes
  | .closed ok | .disposed ok => ok = true
  | _ => True

instance : DecidablePred Action.Clean := fun a => by
  cases a <;> unfold Action.Clean <;> infer_instance

/-- Without the variables of the dashboard each start leaves a client, and the
first its engine; with them a stop leaves no engine. -/
structure Left (c : Settings) (s : App) : Prop where
  released : c.startError = none → s.pc = .down → s.engine = none
  clients : c.startError.isSome → s.openClients.length = s.starts
  engine : c.startError.isSome → (s.engine.isSome ↔ s.starts ≠ 0)

/-- A step that is not a start, nor the end of the `finally`. -/
theorem Left.mono (h : Left c s) (hpc : s'.pc = .down → s.pc = .down) (hengine : s'.engine = s.engine)
    (hclients : c.startError.isSome → s'.openClients = s.openClients) (hstarts : s'.starts = s.starts) :
    Left c s' where
  released herr hdown := hengine.trans (h.released herr (hpc hdown))
  clients herr := by rw [hclients herr, hstarts, h.clients herr]
  engine herr := by rw [hengine, hstarts, h.engine herr]

theorem Left.step {a : Action} (hinv : Inv c s) (h : Left c s) (ha : a.Clean) (hs : s.step c a = some s') :
    Left c s' := by
  cases a with
  | start outcome =>
    cases ha
    simp only [App.step, Option.ite_none_right_eq_some, start] at hs
    obtain ⟨-, hs⟩ := hs
    cases herr : c.startError with
    | some e =>
      rw [herr] at hs
      cases hs
      refine ⟨fun h0 => ?_, fun h1 => ?_, fun _ => ?_⟩
      · cases herr.symm.trans h0
      · rw [List.length_cons, h.clients h1]
      · simp
    | none =>
      rw [herr] at hs
      simp only [Option.isSome_none, Bool.false_eq_true, if_false] at hs
      split_ifs at hs <;> cases hs <;> exact ⟨fun _ => nofun, by simp [herr], by simp [herr]⟩
  | refresh i outcome =>
    obtain ⟨l, hl, rfl⟩ := Option.map_eq_some_iff.mp hs
    exact h.mono id rfl (fun _ => rfl) rfl
  | shutdown =>
    simp only [App.step, Option.ite_none_right_eq_some] at hs
    obtain ⟨hpc, hs⟩ := hs
    split at hs <;> cases hs <;> exact h.mono nofun rfl (fun _ => rfl) rfl
  | joined =>
    simp only [App.step] at hs
    split at hs
    · rw [Option.ite_none_right_eq_some] at hs
      cases hs.2
      exact h.mono nofun rfl (fun _ => rfl) rfl
    · cases hs
  | closed ok =>
    cases ha
    simp only [App.step, Option.ite_none_right_eq_some, Option.some.injEq] at hs
    obtain ⟨hpc, rfl⟩ := hs
    refine h.mono nofun rfl (fun herr => ?_) rfl
    cases hpc.symm.trans (hinv.misconfigured herr)
  | disposed ok =>
    cases ha
    simp only [App.step, Option.ite_none_right_eq_some, Option.some.injEq] at hs
    obtain ⟨hpc, rfl⟩ := hs
    refine ⟨fun _ _ => rfl, fun herr => ?_, fun herr => ?_⟩ <;> cases hpc.symm.trans (hinv.misconfigured herr)
  | tick d =>
    cases hs
    exact h.mono id rfl (fun _ => rfl) rfl

/-- **A stop releases all exactly if a start can come through**: where nothing
raises, no loop and no dashboard session outlives it, and the client and the
engine do exactly after a start that found the dashboard without its variables.
Such a start leaves the engine, and each of them one more client open. -/
theorem released_iff {now : ℤ} (hrun : run (step c) (init now) as = some s) (hclean : ∀ a ∈ as, a.Clean)
    (hdown : s.pc = .down) :
    (s.engine = none ∧ s.openClients = [] ↔ c.startError = none ∨ s.starts = 0) ∧
      (c.startError.isSome → (s.engine.isSome ↔ s.starts ≠ 0) ∧ s.openClients.length = s.starts) ∧
      s.dashboardAuth = false ∧
      ∀ i, ¬ (s.loops i).Alive := by
  have hboth : Inv c s ∧ Left c s :=
    run_inv_of (A := Action.Clean) (I := fun s => Inv c s ∧ Left c s)
      (fun _ _ _ h ha hs => ⟨h.1.step hs, h.2.step h.1 ha hs⟩)
      ⟨Inv.init now, fun _ _ => rfl, fun _ => rfl, fun _ => by simp [init]⟩ hclean hrun
  obtain ⟨hinv, hleft⟩ := hboth
  have hlive : ¬ s.Live := by simp [Live, hdown]
  refine ⟨⟨fun hnone => ?_, ?_⟩, fun herr => ⟨hleft.engine herr, hleft.clients herr⟩,
    by simpa [hlive] using hinv.auth, hinv.ended hlive⟩
  · by_contra hnot
    obtain ⟨herr, hstarts⟩ := not_or.mp hnot
    have hsome := (hleft.engine (Option.isSome_iff_ne_none.mpr herr)).mpr hstarts
    simp [hnone.1] at hsome
  · intro hor
    by_cases herr : c.startError = none
    · have hclients := hinv.clients herr
      simp only [hlive, hdown, false_or, reduceCtorEq, if_false] at hclients
      exact ⟨hleft.released herr hdown, hclients⟩
    · have hstarts := hor.resolve_left herr
      have hsome := Option.isSome_iff_ne_none.mpr herr
      refine ⟨?_, List.length_eq_zero_iff.mp ((hleft.clients hsome).trans hstarts)⟩
      simpa [hstarts] using hleft.engine hsome

/-- Two starts without the secret, in one process. -/
theorem released_iff_refused :
    let c := { dashboardSettings with dashboardSessionSecret := none }
    c.startError = some ("dashboard cannot start: missing required env vars: DASHBOARD_SESSION_SECRET" ++
      ". Set them in docker-compose.yml or .env.") ∧
    (run (step c) (init 0) [.start .completes, .start .completes]).map (fun s => (s.pc, s.starts, s.openClients)) =
      some (.down, 2, [1, 0]) ∧
    ∀ s, run (step c) (init 0) [.start .completes, .start .completes] = some s → s.pc = .down →
      (s.engine.isSome ↔ s.starts ≠ 0) ∧ s.openClients.length = s.starts :=
  ⟨by decide +kernel, by decide +kernel, fun _ hrun hpc => (released_iff hrun (by decide) hpc).2.1 (by decide +kernel)⟩

/-! ### Whether the shutdown comes to an end -/

/-- The shutdown can come to its end. -/
def CanStop (c : Settings) (s : App) : Prop := ∃ bs s', run (step c) s bs = some s' ∧ s'.pc = .down

theorem CanStop.cons {a : Action} (hs : s.step c a = some s') (h : CanStop c s') : CanStop c s := by
  obtain ⟨bs, s'', hrun, hpc⟩ := h
  exact ⟨a :: bs, s'', run_cons_iff.mpr ⟨s', hs, hrun⟩, hpc⟩

theorem canStop_disposing (hpc : s.pc = .disposing) : CanStop c s :=
  CanStop.cons (a := .disposed true) (if_pos hpc) ⟨[], _, rfl, rfl⟩

theorem canStop_closing (hpc : s.pc = .closing) : CanStop c s :=
  CanStop.cons (a := .closed true) (if_pos hpc) (canStop_disposing rfl)

theorem canStop_joining (hpc : s.pc = .joining) {i : ℕ} (hi : s.refreshTask = some i)
    (hcancel : (s.loops i).Alive → (s.loops i).cancelled = true) : CanStop c s := by
  have hjoin : ∀ s : App, s.pc = .joining → s.refreshTask = some i → ¬ (s.loops i).Alive → CanStop c s := by
    intro s hpc hi hended
    have hs : s.step c .joined = some (s.unset c) := by simp [step, hi, hpc, hended]
    exact CanStop.cons hs (canStop_closing rfl)
  by_cases halive : (s.loops i).Alive
  · have hl : (s.loops i).step s.engine s.now c.usageRefreshIntervalSeconds .cancelled = some {} := by
      have hc := hcancel halive
      cases hpc : (s.loops i).pc with
      | ended => exact absurd hpc halive
      | _ => simp [Loop.step, hpc, hc]
    have hs : s.step c (.refresh i .cancelled) = some (s.setLoop i {}) := by simp [step, hl]
    refine CanStop.cons hs (hjoin _ hpc hi ?_)
    rw [setLoop_self]
    exact Loop.not_alive_ended false
  · exact hjoin s hpc hi halive

/-- The loop has the cancellation behind it and goes on. -/
def Stuck (s : App) : Prop :=
  s.pc = .joining ∧ ∃ i, s.refreshTask = some i ∧ (s.loops i).Alive ∧ (s.loops i).cancelled = false

theorem Stuck.step {a : Action} (hinv : Inv c s) (h : Stuck s) (hs : s.step c a = some s') : Stuck s' := by
  obtain ⟨hpc, i, hi, halive, hcancel⟩ := h
  cases a with
  | refresh j outcome =>
    obtain ⟨l, hl, rfl⟩ := Option.map_eq_some_iff.mp hs
    refine ⟨hpc, i, hi, ?_⟩
    obtain rfl := Option.some.inj (hi.symm.trans (hinv.alive j (Loop.alive_of_step hl)).1)
    obtain ⟨e, he, -⟩ := (hinv.ready (.inr hpc)).engine
    rw [setLoop_self]
    rcases Loop.step_cases hl with
      ⟨-, rfl, hcancel' | ⟨-, hnone⟩, -⟩ | ⟨e, -, -, -, rfl⟩ | ⟨e, -, -, rfl⟩ | ⟨e, w, -, -, -, rfl⟩
    · exact absurd (hcancel.symm.trans hcancel') Bool.false_ne_true
    · cases he.symm.trans hnone
    all_goals exact ⟨nofun, rfl⟩
  | joined => simp [App.step, hi, hpc, halive] at hs
  | tick d =>
    cases hs
    exact ⟨hpc, i, hi, halive, hcancel⟩
  | _ => simp [App.step, hpc] at hs

/-- The loop that is waited for has its cancellation before it. -/
def Pending (s : App) : Prop := s.pc = .joining → ∀ i, (s.loops i).Alive → (s.loops i).cancelled = true

theorem canStop_iff (h : Inv c s) : CanStop c s ↔ Pending s := by
  constructor
  · rintro ⟨bs, s', hrun, hdown⟩ hpc i halive
    by_contra hcancel
    have hstuck : Stuck s := ⟨hpc, i, (h.alive i halive).1, halive, by simpa using hcancel⟩
    have hboth := run_inv' (I := fun s => Inv c s ∧ Stuck s) (fun _ _ _ h hs => ⟨h.1.step hs, h.2.step h.1 hs⟩)
      ⟨h, hstuck⟩ hrun
    cases hboth.2.1.symm.trans hdown
  · intro hpending
    cases hpc : s.pc with
    | down => exact ⟨[], s, rfl, hpc⟩
    | up =>
      cases htask : s.refreshTask with
      | none =>
        have hs : s.step c .shutdown = some (s.unset c) := by simp [step, hpc, htask]
        exact CanStop.cons hs (canStop_closing rfl)
      | some i =>
        have halive := (h.task hpc i htask).1
        have hs : s.step c .shutdown = some { s.setLoop i (s.loops i).cancel with pc := .joining } := by
          simp [step, hpc, htask]
        refine CanStop.cons hs (canStop_joining rfl htask fun _ => ?_)
        simpa using Loop.cancel_cancelled halive
    | joining =>
      obtain ⟨i, hi⟩ := h.joined hpc
      exact canStop_joining hpc hi (hpending hpc i)
    | closing => exact canStop_closing hpc
    | disposing => exact canStop_disposing hpc

/-- A cycle that is cancelled ends by it. -/
def Prompt (s : App) : Action → Prop
  | .refresh i outcome => (s.loops i).cancelled = true → (s.loops i).pc.isCycling = true → outcome = .cancelled
  | _ => True

instance : ∀ s a, Decidable (Prompt s a) := fun s a => by
  cases a <;> unfold Prompt <;> infer_instance

theorem pending_of_ne (h : s.pc ≠ .joining) : Pending s := fun hpc => absurd hpc h

theorem pending_step_iff {a : Action} (h : Inv c s) (hpending : Pending s) (hs : s.step c a = some s') :
    Pending s' ↔ Prompt s a := by
  cases a with
  | refresh i outcome =>
    obtain ⟨l, hl, rfl⟩ := Option.map_eq_some_iff.mp hs
    have halive := Loop.alive_of_step hl
    obtain ⟨hi, hlive⟩ := h.alive i halive
    rcases hlive with hpc | hpc
    · -- nothing has been cancelled yet
      refine iff_of_true (pending_of_ne (hpc ▸ nofun)) fun hcancel => ?_
      exact absurd ((h.task hpc i hi).2.symm.trans hcancel) Bool.false_ne_true
    · have hcancel := hpending hpc i halive
      rcases Loop.step_cases hl with ⟨-, rfl, -, hout⟩ | ⟨e, -, hc, -⟩ | ⟨e, hpce, hout, rfl⟩ | ⟨e, w, -, hc, -⟩
      · refine iff_of_true (fun _ j hj => ?_) fun _ => hout
        by_cases hji : j = i
        · subst hji
          rw [setLoop_self] at hj
          exact absurd hj (Loop.not_alive_ended false)
        · rw [setLoop_of_ne hji] at hj ⊢
          exact hpending hpc j hj
      · exact absurd (hc.symm.trans hcancel) Bool.false_ne_true
      · refine iff_of_false (fun hnew => ?_) fun hprompt => hout (hprompt hcancel (by rw [hpce]; rfl))
        have hfalse := hnew hpc i (by rw [setLoop_self]; exact nofun)
        rw [setLoop_self] at hfalse
        cases hfalse
      · exact absurd (hc.symm.trans hcancel) Bool.false_ne_true
  | shutdown =>
    refine iff_of_true ?_ trivial
    simp only [App.step, Option.ite_none_right_eq_some] at hs
    obtain ⟨hpc, hs⟩ := hs
    split at hs <;> cases hs
    · rename_i i hi
      intro _ j hj
      rw [Loop.Alive, setLoop_cancel_pc] at hj
      obtain rfl := Option.some.inj (hi.symm.trans (h.alive j hj).1)
      simpa using Loop.cancel_cancelled hj
    · exact pending_of_ne nofun
  | start outcome =>
    refine iff_of_true (pending_of_ne ?_) trivial
    simp only [App.step, Option.ite_none_right_eq_some] at hs
    rcases (start_cases hs.2).2.2 with ⟨hpc, -⟩ | ⟨-, hpc, -⟩
    · rw [hpc, hs.1]
      exact nofun
    · rw [hpc]
      exact nofun
  | joined =>
    refine iff_of_true (pending_of_ne ?_) trivial
    simp only [App.step] at hs
    split at hs
    · rw [Option.ite_none_right_eq_some] at hs
      cases hs.2
      exact nofun
    · cases hs
  | closed ok =>
    refine iff_of_true (pending_of_ne ?_) trivial
    simp only [App.step, Option.ite_none_right_eq_some, Option.some.injEq] at hs
    obtain ⟨-, rfl⟩ := hs
    cases ok <;> exact nofun
  | disposed ok =>
    refine iff_of_true (pending_of_ne ?_) trivial
    simp only [App.step, Option.ite_none_right_eq_some, Option.some.injEq] at hs
    obtain ⟨-, rfl⟩ := hs
    exact nofun
  | tick d =>
    cases hs
    exact iff_of_true hpending trivial

/-- **The shutdown comes to its end exactly if the cycle in flight lets itself be
cancelled**: the app can be stopped from every state that the run passes exactly
if each cycle that was cancelled ended by it. One that ended otherwise leaves a
loop that nobody cancels again, and the shutdown waits for it. -/
theorem shutdown_ends_iff {now : ℤ} (hrun : run (step c) (init now) as = some s) :
    Throughout (step c) (CanStop c) (init now) as ↔ Along (step c) Prompt (init now) as := by
  refine throughout_iff_along (A := fun _ => True) (I := Inv c) (fun _ _ _ h hs => h.step hs) ?_ (Inv.init now)
    ⟨[], _, rfl, rfl⟩ (fun _ _ => trivial) hrun
  intro s a s' h hstop _ hs
  rw [canStop_iff (h.step hs)]
  exact pending_step_iff h ((canStop_iff h).mp hstop) hs

/-- The session of a cancelled cycle cannot be closed, and the loop sleeps. -/
theorem shutdown_ends_iff_swallowed :
    let as : List Action := [.start .completes, .refresh 0 .returns, .shutdown, .refresh 0 .raises]
    (run (step dashboardSettings) (init 0) as).map (fun s => (s.pc, (s.loops 0).pc)) =
      some (.joining, .sleeping 0 300) ∧
    ∀ s, run (step dashboardSettings) (init 0) as = some s →
      ¬ Throughout (step dashboardSettings) (CanStop dashboardSettings) (init 0) as :=
  ⟨by decide +kernel, fun _ hrun hstop => absurd ((shutdown_ends_iff hrun).mp hstop) (by decide +kernel)⟩

/-! ### How often the loop asks -/

/-- The cycle that the action begins, by its loop. -/
def cycles (c : Settings) (s : App) : Action → List ℕ
  | .refresh i outcome =>
    let l := (s.loops i).step s.engine s.now c.usageRefreshIntervalSeconds outcome
    if l.any (·.pc.isCycling) then [i] else []
  | _ => []

/-- The `n` cycles so far are an interval apart, but for the first of each
start; `first` is for a loop that has not begun, `next` for one that sleeps. -/
structure Paced (c : Settings) (t0 : ℤ) (s : App) (n : ℕ) : Prop where
  elapsed : n * c.usageRefreshIntervalSeconds ≤ s.now - t0 + s.starts * c.usageRefreshIntervalSeconds
  first : ∀ i, (s.loops i).pc = .created →
    (n + 1) * c.usageRefreshIntervalSeconds ≤ s.now - t0 + s.starts * c.usageRefreshIntervalSeconds
  next : ∀ i e wake, (s.loops i).pc = .sleeping e wake →
    (n + 1) * c.usageRefreshIntervalSeconds ≤ wake - t0 + s.starts * c.usageRefreshIntervalSeconds

variable {t0 : ℤ} {n : ℕ}

theorem Paced.mono (h : Paced c t0 s n) (hpc : ∀ i, (s'.loops i).pc = (s.loops i).pc) (hnow : s.now ≤ s'.now)
    (hstarts : s'.starts = s.starts) : Paced c t0 s' n where
  elapsed := by
    rw [hstarts]
    linarith [h.elapsed]
  first i hi := by
    rw [hstarts]
    linarith [h.first i ((hpc i).symm.trans hi)]
  next i e wake hi := by
    rw [hstarts]
    exact h.next i e wake ((hpc i).symm.trans hi)

/-- The others are over, so only the loop itself counts. -/
theorem Paced.setLoop {i : ℕ} {l : Loop} (hother : ∀ j, j ≠ i → ¬ (s.loops j).Alive)
    (helapsed : n * c.usageRefreshIntervalSeconds ≤ s.now - t0 + s.starts * c.usageRefreshIntervalSeconds)
    (hfirst : l.pc ≠ .created)
    (hnext : ∀ e wake, l.pc = .sleeping e wake →
      (n + 1) * c.usageRefreshIntervalSeconds ≤ wake - t0 + s.starts * c.usageRefreshIntervalSeconds) :
    Paced c t0 (s.setLoop i l) n where
  elapsed := helapsed
  first j hj := by
    by_cases hji : j = i
    · subst hji
      rw [setLoop_self] at hj
      exact absurd hj hfirst
    · rw [setLoop_of_ne hji, not_not.mp (hother j hji)] at hj
      cases hj
  next j e wake hj := by
    by_cases hji : j = i
    · subst hji
      rw [setLoop_self] at hj
      exact hnext e wake hj
    · rw [setLoop_of_ne hji, not_not.mp (hother j hji)] at hj
      cases hj

theorem Paced.refresh {i : ℕ} {outcome : CycleOutcome} {l : Loop} (hinv : Inv c s) (h : Paced c t0 s n)
    (hl : (s.loops i).step s.engine s.now c.usageRefreshIntervalSeconds outcome = some l) :
    Paced c t0 (s.setLoop i l) (n + (s.cycles c (.refresh i outcome)).length) := by
  have hi := (hinv.alive i (Loop.alive_of_step hl)).1
  have hother : ∀ j, j ≠ i → ¬ (s.loops j).Alive := fun j hji hj =>
    hji (Option.some.inj ((hinv.alive j hj).1.symm.trans hi))
  rcases Loop.step_cases hl with ⟨-, rfl, -⟩ | ⟨e, hpc, -, -, rfl⟩ | ⟨e, hpc, -, rfl⟩ | ⟨e, w, hpc, -, hwake, rfl⟩
  · have hcycles : s.cycles c (.refresh i outcome) = [] := by simp [cycles, hl, LoopPc.isCycling]
    rw [hcycles, List.length_nil, Nat.add_zero]
    exact Paced.setLoop hother h.elapsed nofun nofun
  · have hcycles : s.cycles c (.refresh i outcome) = [i] := by simp [cycles, hl, LoopPc.isCycling]
    rw [hcycles, List.length_singleton]
    refine Paced.setLoop hother ?_ nofun nofun
    push_cast
    exact h.first i hpc
  · have hcycles : s.cycles c (.refresh i outcome) = [] := by simp [cycles, hl, LoopPc.isCycling]
    rw [hcycles, List.length_nil, Nat.add_zero]
    refine Paced.setLoop hother h.elapsed nofun ?_
    rintro _ _ ⟨⟩
    linarith [h.elapsed]
  · have hcycles : s.cycles c (.refresh i outcome) = [i] := by simp [cycles, hl, LoopPc.isCycling]
    rw [hcycles, List.length_singleton]
    refine Paced.setLoop hother ?_ nofun nofun
    push_cast
    linarith [h.next i e w hpc]

theorem Paced.step {a : Action} (hint : 0 ≤ c.usageRefreshIntervalSeconds) (hinv : Inv c s) (h : Paced c t0 s n)
    (hs : s.step c a = some s') : Paced c t0 s' (n + (s.cycles c a).length) := by
  cases a with
  | refresh i outcome =>
    obtain ⟨l, hl, rfl⟩ := Option.map_eq_some_iff.mp hs
    exact h.refresh hinv hl
  | start outcome =>
    simp only [App.step, Option.ite_none_right_eq_some] at hs
    obtain ⟨hpc, hs⟩ := hs
    obtain ⟨hnow, hstarts, hcases⟩ := start_cases hs
    have hloops : s'.loops = s.loops ∨ s'.loops = Function.update s.loops s.starts { pc := .created } := by
      rcases hcases with ⟨-, hloops, -⟩ | ⟨-, -, -, -, -, -, htask⟩
      · exact .inl hloops
      · split_ifs at htask
        · exact .inr htask.2
        · exact .inl htask.2
    have hended : ∀ i, (s'.loops i).pc = .ended ∨ (s'.loops i).pc = .created := by
      intro i
      have hold : (s.loops i).pc = .ended := not_not.mp (hinv.ended (by simp [Live, hpc]) i)
      rcases hloops with hloops | hloops <;> rw [hloops]
      · exact .inl hold
      · by_cases hi : i = s.starts
        · subst hi
          rw [Function.update_self]
          exact .inr rfl
        · rw [Function.update_of_ne hi]
          exact .inl hold
    have hroom := h.elapsed
    refine ⟨?_, fun i _ => ?_, fun i e wake hi => ?_⟩
    · rw [hnow, hstarts]
      push_cast
      simp only [cycles, List.length_nil, Nat.cast_zero]
      linarith
    · rw [hnow, hstarts]
      push_cast
      simp only [cycles, List.length_nil, Nat.cast_zero]
      linarith
    · rcases hended i with hpc | hpc <;> cases hpc.symm.trans hi
  | shutdown =>
    simp only [App.step, Option.ite_none_right_eq_some] at hs
    obtain ⟨-, hs⟩ := hs
    split at hs <;> cases hs
    · exact h.mono (s.setLoop_cancel_pc _) le_rfl rfl
    · exact h.mono (fun _ => rfl) le_rfl rfl
  | joined =>
    simp only [App.step] at hs
    split at hs
    · rw [Option.ite_none_right_eq_some] at hs
      cases hs.2
      exact h.mono (fun _ => rfl) le_rfl rfl
    · cases hs
  | closed ok =>
    simp only [App.step, Option.ite_none_right_eq_some, Option.some.injEq] at hs
    obtain ⟨-, rfl⟩ := hs
    exact h.mono (fun _ => rfl) le_rfl rfl
  | disposed ok =>
    simp only [App.step, Option.ite_none_right_eq_some, Option.some.injEq] at hs
    obtain ⟨-, rfl⟩ := hs
    exact h.mono (fun _ => rfl) le_rfl rfl
  | tick d =>
    cases hs
    exact h.mono (fun _ => rfl) (by simp) rfl

/-- **The loop asks no more often than once an interval**, but for the first cycle
of each start, however long the cycles take and however they end. -/
theorem cycles_paced {now : ℤ} (hint : 0 < c.usageRefreshIntervalSeconds)
    (hrun : run (step c) (init now) as = some s) :
    (outputs (step c) (cycles c) (init now) as).length * c.usageRefreshIntervalSeconds ≤
      s.now - now + s.starts * c.usageRefreshIntervalSeconds := by
  have hstart : Inv c (init now) ∧ Paced c now (init now) ([] : List ℕ).length :=
    ⟨Inv.init now, by simp [init], nofun, nofun⟩
  have hboth : Inv c s ∧ Paced c now s ([] ++ outputs (step c) (cycles c) (init now) as).length :=
    run_history (R := fun s l => Inv c s ∧ Paced c now s l.length) (P := fun _ _ => True)
      (fun s l a s' h _ hs => ⟨h.1.step hs, by rw [List.length_append]; exact h.2.step hint.le h.1 hs⟩) hstart
      (along_of_forall fun _ _ _ => trivial) hrun
  exact hboth.2.elapsed

/-- Two cycles of the first start, and one of the second. -/
theorem cycles_paced_restarted :
    let as : List Action := [.start .completes, .refresh 0 .returns, .tick 20, .refresh 0 .raises, .tick 300,
      .refresh 0 .returns, .shutdown, .refresh 0 .cancelled, .joined, .closed true, .disposed true, .start .completes,
      .refresh 1 .returns]
    outputs (step dashboardSettings) (cycles dashboardSettings) (init 0) as = [0, 0, 1] ∧
    (run (step dashboardSettings) (init 0) as).isSome = true ∧
    ∀ s, run (step dashboardSettings) (init 0) as = some s →
      (outputs (step dashboardSettings) (cycles dashboardSettings) (init 0) as).length * 300 ≤
        s.now - 0 + s.starts * 300 :=
  ⟨by decide +kernel, by decide +kernel, fun _ hrun => cycles_paced (by decide) hrun⟩

end App

end OllamaProxy
