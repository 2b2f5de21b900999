/-
# The model cache

`ModelCache` keeps the model list that upstream returned last, for `ttl`
seconds. `refresh` waits for the lock, looks again whether another caller has
refreshed meanwhile, runs its fetcher and settles what it returned: a list with
names in it is cleaned and stored, anything else leaves the cache.

`Refreshes` is one cache with its callers, each at one await of `refresh`. What
the fetchers do is a history of a guard (`Kit.Flight`), so at most one runs at
a time and none starts while the stored list is fresh.

Key definitions: `ModelCache.settle`, `Refreshes.step`, `Refreshes.fetches`.
Key theorems: `ModelCache.clean_firsts`, `Refreshes.step_follows`,
`Refreshes.refresh_single_flight`.
-/
import OllamaProxy.Python
import OllamaProxy.Lib.Firsts
import OllamaProxy.Lib.SingleFlight

namespace OllamaProxy

open Kit

/-- Times are those of `time.monotonic`. -/
structure ModelCache where
  ttl : ℤ
  lock : Option ℕ
  models : Option (List String)
  lastRefresh : ℤ
deriving DecidableEq

/-- How a fetcher ends: with a list, an `Exception`, or a cancellation. -/
inductive Fetched
  | returned (models : List Json)
  | raised
  | cancelled

namespace ModelCache

def new (ttlSeconds : ℤ) : ModelCache := ⟨max 1 ttlSeconds, none, none, 0⟩

def get (c : ModelCache) (now : ℤ) : Option (List String) :=
  match c.models with
  | none => none
  | some models =>
    if models = [] then none
    else if seconds c.ttl < now - c.lastRefresh then none
    else some models

def getStale (c : ModelCache) : Option (List String) := c.models

/-- The re-check inside the lock. -/
def recheck (c : ModelCache) (now : ℤ) : Option (List String) :=
  match c.models with
  | none => none
  | some models =>
    if models ≠ [] ∧ now - c.lastRefresh ≤ seconds c.ttl then some models else none

/-- `for name in models`. -/
def cleanLoop (seen : Finset String) (cleaned : List String) : List Json → List String
  | [] => cleaned
  | .str name :: models =>
    if name ≠ "" ∧ name ∉ seen then cleanLoop (insert name seen) (cleaned ++ [name]) models
    else cleanLoop seen cleaned models
  | _ :: models => cleanLoop seen cleaned models

def clean (models : List Json) : List String := cleanLoop ∅ [] models

/-- The cache after the fetch, and what `refresh` returns; `none` where an
exception leaves it. -/
def settle (c : ModelCache) (now : ℤ) : Fetched → ModelCache × Option (List String)
  | .returned models =>
    let cleaned := clean models
    if cleaned = [] then (c, some (c.models.getD []))
    else ({ c with models := some cleaned, lastRefresh := now }, some cleaned)
  | .raised => (c, some (c.models.getD []))
  | .cancelled => (c, none)

theorem settle_named {c : ModelCache} {now : ℤ} {models : List Json} (h : clean models ≠ []) :
    c.settle now (.returned models) =
      ({ c with models := some (clean models), lastRefresh := now }, some (clean models)) := if_neg h

theorem settle_blank {c : ModelCache} {now : ℤ} {models : List Json} (h : clean models = []) :
    c.settle now (.returned models) = (c, some (c.models.getD [])) := if_pos h

/-! ### What is stored -/

/-- The name that an entry of a fetched list gives, if it gives one. -/
def name? : Json → Option String
  | .str name => if name = "" then none else some name
  | _ => none

/-- The names that a fetched list gives. -/
def names (models : List Json) : List String := models.filterMap name?

theorem cleanLoop_firsts {before : List String} (models : List Json) :
    ∀ {seen : Finset String} {cleaned : List String}, (∀ name, name ∈ seen ↔ name ∈ cleaned) →
      Firsts before cleaned → Firsts (before ++ models.filterMap name?) (cleanLoop seen cleaned models) := by
  induction models generalizing before with
  | nil =>
    intro seen cleaned _ h
    rw [List.filterMap_nil, List.append_nil]
    exact h
  | cons model models ih =>
    intro seen cleaned hseen h
    cases model with
    | str name =>
      by_cases hblank : name = ""
      · have hnone : name? (.str name) = none := if_pos hblank
        rw [List.filterMap_cons_none hnone, cleanLoop, if_neg (fun hc => hc.1 hblank)]
        exact ih hseen h
      · have hsome : name? (.str name) = some name := if_neg hblank
        rw [List.filterMap_cons_some hsome, cleanLoop, List.append_cons]
        by_cases hname : name ∈ seen
        · rw [if_neg (fun hc => hc.2 hname)]
          exact ih hseen (h.skip ((hseen name).mp hname))
        · rw [if_pos ⟨hblank, hname⟩]
          refine ih (fun x => ?_) (h.keep fun hmem => hname ((hseen name).mpr hmem))
          rw [Finset.mem_insert, hseen, List.mem_append, List.mem_singleton, or_comm]
    | _ => exact ih hseen h

/-- The cleaned list has the names of the fetched one, each where it occurs
first. -/
theorem clean_firsts (models : List Json) : Firsts (names models) (clean models) :=
  cleanLoop_firsts models (by simp) Firsts.nil

theorem name?_ne_empty {model : Json} {name : String} (h : name? model = some name) : name ≠ "" := by
  unfold name? at h
  split at h
  · split_ifs at h with hblank
    cases h
    exact hblank
  · cases h

/-- A cleaned list is not changed by cleaning it again. -/
theorem clean_map_str {models : List String} (hnodup : models.Nodup) (hblank : "" ∉ models) :
    clean (models.map .str) = models := by
  have hloop : ∀ (rest : List String) {seen : Finset String} {cleaned : List String},
      (∀ name, name ∈ seen ↔ name ∈ cleaned) → (cleaned ++ rest).Nodup → "" ∉ rest →
        cleanLoop seen cleaned (rest.map .str) = cleaned ++ rest := by
    intro rest
    induction rest with
    | nil =>
      intro seen cleaned _ _ _
      exact (List.append_nil cleaned).symm
    | cons name rest ih =>
      intro seen cleaned hseen hnodup hblank
      have hnew : name ∉ cleaned := fun hmem =>
        (List.nodup_append.mp hnodup).2.2 name hmem name List.mem_cons_self rfl
      have hname : name ≠ "" := fun he => hblank (he ▸ List.mem_cons_self)
      rw [List.append_cons] at hnodup ⊢
      rw [List.map_cons, cleanLoop, if_pos ⟨hname, fun hmem => hnew ((hseen name).mp hmem)⟩]
      refine ih (fun x => ?_) hnodup fun hmem => hblank (List.mem_cons_of_mem name hmem)
      rw [Finset.mem_insert, hseen, List.mem_append, List.mem_singleton, or_comm]
  exact hloop models (by simp) hnodup hblank

theorem clean_ne_empty {models : List Json} {name : String} (h : name ∈ clean models) : name ≠ "" := by
  obtain ⟨model, -, hname⟩ := List.mem_filterMap.mp (((clean_firsts models).mem name).mp h)
  exact name?_ne_empty hname

theorem recheck_eq_get (c : ModelCache) (now : ℤ) : c.recheck now = c.get now := by
  unfold recheck get
  cases c.models with
  | none => rfl
  | some models =>
    by_cases hnil : models = []
    · simp [hnil]
    · by_cases hage : now - c.lastRefresh ≤ seconds c.ttl
      · simp only [hnil, hage, ne_eq, not_false_eq_true, and_self, if_true, if_false]
        rw [if_neg (by omega)]
      · simp only [hnil, hage, and_false, if_false]
        rw [if_pos (by omega)]

theorem get_eq_some_iff {c : ModelCache} {now : ℤ} {models : List String} :
    c.get now = some models ↔
      c.models = some models ∧ models ≠ [] ∧ now - c.lastRefresh ≤ seconds c.ttl := by
  unfold get
  cases hmodels : c.models with
  | none => simp
  | some names =>
    by_cases hnil : names = []
    · simp only [hnil, if_true, reduceCtorEq, false_iff, Option.some.injEq]
      rintro ⟨rfl, hne, -⟩
      exact hne rfl
    · simp only [hnil, if_false, Option.ite_none_left_eq_some, Option.some.injEq, not_lt]
      constructor
      · rintro ⟨hage, rfl⟩
        exact ⟨rfl, hnil, hage⟩
      · rintro ⟨rfl, -, hage⟩
        exact ⟨hage, rfl⟩

/-- What is not fresh stays so. -/
theorem get_later {c : ModelCache} {now : ℤ} (h : c.get now = none) (d : ℕ) : c.get (now + d) = none := by
  rw [Option.eq_none_iff_forall_ne_some] at h ⊢
  intro models hmodels
  obtain ⟨hc, hne, hage⟩ := get_eq_some_iff.mp hmodels
  exact h models (get_eq_some_iff.mpr ⟨hc, hne, by omega⟩)

end ModelCache

/-! ### Callers -/

/-- The await a caller of `refresh` is suspended at. -/
inductive Refresh
  | idle
  | queued
  | fetching
  | done (models : Option (List String))
deriving DecidableEq

structure Refreshes where
  cache : ModelCache
  now : ℤ
  calls : ℕ → Refresh

namespace Refreshes

/-- A caller calls `refresh`, gets the lock and runs to its next await, its
fetcher ends, or it is cancelled while it waits for the lock. -/
inductive Action
  | refresh (p : ℕ)
  | enter (p : ℕ)
  | fetched (p : ℕ) (result : Fetched)
  | cancel (p : ℕ)
  | tick (d : ℕ)

def init (ttlSeconds now : ℤ) : Refreshes := ⟨.new ttlSeconds, now, fun _ => .idle⟩

def step (s : Refreshes) : Action → Option Refreshes
  | .refresh p =>
    if s.calls p = .idle then some { s with calls := Function.update s.calls p .queued } else none
  | .enter p =>
    if s.calls p = .queued ∧ s.cache.lock = none then
      match s.cache.recheck s.now with
      | some models => some { s with calls := Function.update s.calls p (.done (some models)) }
      | none =>
        some { s with
          cache := { s.cache with lock := some p }
          calls := Function.update s.calls p .fetching }
    else none
  | .fetched p result =>
    if s.calls p = .fetching then
      let r := s.cache.settle s.now result
      some { s with
        cache := { r.1 with lock := none }
        calls := Function.update s.calls p (.done r.2) }
    else none
  | .cancel p =>
    if s.calls p = .queued then some { s with calls := Function.update s.calls p (.done none) } else none
  | .tick d => some { s with now := s.now + d }

/-- What the step does to a fetch: a caller comes to run its fetcher, or the
fetcher ends, with names or without. -/
def fetches (s : Refreshes) : Action → List (Flight.Event ℕ (List String))
  | .enter p =>
    match s.step (.enter p) with
    | some s' => if s'.calls p = .fetching then [⟨s.now, p, .began false⟩] else []
    | none => []
  | .fetched p (.returned models) =>
    if ModelCache.names models = [] then [⟨s.now, p, .failed⟩]
    else [⟨s.now, p, .stored (ModelCache.clean models)⟩]
  | .fetched p _ => [⟨s.now, p, .failed⟩]
  | _ => []

/-- The lists that fetchers return. -/
def returned : Action → List (List Json)
  | .fetched _ (.returned models) => [models]
  | _ => []

/-! ### A step -/

/-- The lock is with the caller whose fetcher runs, `get` finds nothing
meanwhile, and a stored list has names, each once and none of them blank. -/
structure Sound (s : Refreshes) : Prop where
  lock : ∀ p, s.cache.lock = some p ↔ s.calls p = .fetching
  expired : ∀ p, s.calls p = .fetching → s.cache.get s.now = none
  models : ∀ models, s.cache.models = some models → models ≠ [] ∧ models.Nodup ∧ "" ∉ models

theorem init_sound (ttlSeconds now : ℤ) : (init ttlSeconds now).Sound where
  lock p := by
    constructor
    · intro h
      cases h
    · intro h
      cases h
  expired p h := by cases h
  models models h := by cases h

/-- What a step is. -/
inductive Moves (s : Refreshes) : Action → Refreshes → Prop
  | refresh (p : ℕ) (hidle : s.calls p = .idle) :
      Moves s (.refresh p) { s with calls := Function.update s.calls p .queued }
  | served (p : ℕ) (models : List String) (hqueued : s.calls p = .queued) (hlock : s.cache.lock = none)
      (hget : s.cache.get s.now = some models) :
      Moves s (.enter p) { s with calls := Function.update s.calls p (.done (some models)) }
  | begins (p : ℕ) (hqueued : s.calls p = .queued) (hlock : s.cache.lock = none)
      (hget : s.cache.get s.now = none) :
      Moves s (.enter p) { s with
        cache := { s.cache with lock := some p }
        calls := Function.update s.calls p .fetching }
  | stores (p : ℕ) (models : List Json) (hfetching : s.calls p = .fetching)
      (hnames : ModelCache.names models ≠ []) :
      Moves s (.fetched p (.returned models)) { s with
        cache :=
          ⟨s.cache.ttl, none, some (ModelCache.clean models), s.now⟩
        calls := Function.update s.calls p (.done (some (ModelCache.clean models))) }
  | leaves (p : ℕ) (result : Fetched) (answer : Option (List String)) (hfetching : s.calls p = .fetching)
      (hnames : ∀ models, result = .returned models → ModelCache.names models = []) :
      Moves s (.fetched p result) { s with
        cache := { s.cache with lock := none }
        calls := Function.update s.calls p (.done answer) }
  | cancel (p : ℕ) (hqueued : s.calls p = .queued) :
      Moves s (.cancel p) { s with calls := Function.update s.calls p (.done none) }
  | tick (d : ℕ) : Moves s (.tick d) { s with now := s.now + d }

variable {s s' : Refreshes} {a : Action}

theorem step_moves (h : s.step a = some s') : s.Moves a s' := by
  cases a with
  | refresh p =>
    simp only [step, Option.ite_none_right_eq_some] at h
    obtain ⟨hidle, h⟩ := h
    cases h
    exact .refresh p hidle
  | enter p =>
    simp only [step, Option.ite_none_right_eq_some] at h
    obtain ⟨⟨hqueued, hlock⟩, h⟩ := h
    rw [ModelCache.recheck_eq_get] at h
    cases hget : s.cache.get s.now with
    | none =>
      rw [hget] at h
      cases h
      exact .begins p hqueued hlock hget
    | some models =>
      rw [hget] at h
      cases h
      exact .served p models hqueued hlock hget
  | fetched p result =>
    simp only [step, Option.ite_none_right_eq_some] at h
    obtain ⟨hfetching, h⟩ := h
    cases h
    by_cases hnames : ∃ models, result = .returned models ∧ ModelCache.names models ≠ []
    · obtain ⟨models, rfl, hnames⟩ := hnames
      have hclean : ModelCache.clean models ≠ [] :=
        fun hc => hnames ((ModelCache.clean_firsts models).eq_nil_iff.mp hc)
      rw [ModelCache.settle_named hclean]
      exact .stores p models hfetching hnames
    · have hleft : (s.cache.settle s.now result).1 = s.cache := by
        cases result with
        | returned models =>
          have hclean : ModelCache.clean models = [] := by
            refine (ModelCache.clean_firsts models).eq_nil_iff.mpr ?_
            by_contra hc
            exact hnames ⟨models, rfl, hc⟩
          rw [ModelCache.settle_blank hclean]
        | _ => rfl
      rw [hleft]
      refine .leaves p result _ hfetching fun models hmodels => ?_
      by_contra hc
      exact hnames ⟨models, hmodels, hc⟩
  | cancel p =>
    simp only [step, Option.ite_none_right_eq_some] at h
    obtain ⟨hqueued, h⟩ := h
    cases h
    exact .cancel p hqueued
  | tick d =>
    cases h
    exact .tick d

theorem step_ttl (h : s.step a = some s') : s'.cache.ttl = s.cache.ttl := by
  cases step_moves h <;> rfl

/-- A caller that comes to wait, to look again or to give up leaves the list and
its time. -/
theorem step_waits (h : s.step a = some s') (ha : ∀ p result, a ≠ .fetched p result) (hd : ∀ d, a ≠ .tick d) :
    s'.cache.models = s.cache.models ∧ s'.cache.lastRefresh = s.cache.lastRefresh ∧ s'.now = s.now := by
  cases step_moves h with
  | stores p models hfetching hnames => exact absurd rfl (ha _ _)
  | leaves p result answer hfetching hnames => exact absurd rfl (ha _ _)
  | tick d => exact absurd rfl (hd d)
  | _ => exact ⟨rfl, rfl, rfl⟩

/-- A call goes from one await to another, neither of them its fetcher's. -/
theorem Sound.waits (hs : s.Sound) {p : ℕ} {x : Refresh} (hold : s.calls p ≠ .fetching) (hx : x ≠ .fetching) :
    Sound { s with calls := Function.update s.calls p x } := by
  have hcalls : ∀ q, Function.update s.calls p x q = .fetching ↔ s.calls q = .fetching := by
    intro q
    by_cases hq : q = p
    · rw [hq, Function.update_self]
      exact ⟨fun h => absurd h hx, fun h => absurd h hold⟩
    · rw [Function.update_of_ne hq]
  exact ⟨fun q => (hs.lock q).trans (hcalls q).symm, fun q hq => hs.expired q ((hcalls q).mp hq), hs.models⟩

/-- The only fetcher that runs ends. -/
theorem Sound.ended (hs : s.Sound) {p : ℕ} {x : Refresh} (hfetching : s.calls p = .fetching)
    (hx : x ≠ .fetching) (q : ℕ) : Function.update s.calls p x q ≠ .fetching := by
  by_cases hq : q = p
  · rw [hq, Function.update_self]
    exact hx
  · rw [Function.update_of_ne hq, ne_eq, ← hs.lock, (hs.lock p).mpr hfetching, Option.some.injEq]
    exact Ne.symm hq

theorem step_sound (hs : s.Sound) (h : s.step a = some s') : s'.Sound := by
  cases step_moves h with
  | refresh p hidle => exact hs.waits (by simp [hidle]) (by simp)
  | served p models hqueued hlock hget => exact hs.waits (by simp [hqueued]) (by simp)
  | cancel p hqueued => exact hs.waits (by simp [hqueued]) (by simp)
  | begins p hqueued hlock hget =>
    refine ⟨fun q => ?_, fun q _ => hget, hs.models⟩
    show some p = some q ↔ Function.update s.calls p .fetching q = .fetching
    by_cases hq : q = p
    · rw [hq, Function.update_self]
      simp
    · rw [Function.update_of_ne hq, ← hs.lock, hlock]
      simp [Ne.symm hq]
  | stores p models hfetching hnames =>
    have hfirsts := ModelCache.clean_firsts models
    refine ⟨fun q => ?_, fun q hq => absurd hq (hs.ended hfetching (by simp) q), fun models' hmodels' => ?_⟩
    · exact ⟨fun hlock => (by cases hlock), fun hq => absurd hq (hs.ended hfetching (by simp) q)⟩
    · cases hmodels'
      exact ⟨fun hnil => hnames (hfirsts.eq_nil_iff.mp hnil), hfirsts.nodup,
        fun hblank => ModelCache.clean_ne_empty hblank rfl⟩
  | leaves p result answer hfetching hnames =>
    refine ⟨fun q => ?_, fun q hq => absurd hq (hs.ended hfetching (by simp) q), hs.models⟩
    exact ⟨fun hlock => (by cases hlock), fun hq => absurd hq (hs.ended hfetching (by simp) q)⟩
  | tick d => exact ⟨hs.lock, fun q hq => ModelCache.get_later (hs.expired q hq) d, hs.models⟩

/-! ### A run -/

/-- What is stored, with its time. -/
def entry (s : Refreshes) : Option (ℤ × List String) :=
  s.cache.models.map fun models => (s.cache.lastRefresh, models)

def isFresh (ttl age : ℤ) : Bool := age ≤ seconds ttl

/-- The guard whose fetches those of the cache are. -/
structure Follows (ttl : ℤ) (s : Refreshes) (f : Flight ℕ (List String)) : Prop where
  sound : s.Sound
  ttl : s.cache.ttl = ttl
  clock : f.clock ≤ s.now
  owner : f.owner = s.cache.lock
  entry : f.entry = s.entry

/-- `get` finds nothing exactly where the stored list is not fresh. -/
theorem Follows.get_eq_none_iff {ttl : ℤ} {f : Flight ℕ (List String)} (h : Follows ttl s f) :
    s.cache.get s.now = none ↔ f.isFresh (isFresh ttl) s.now = false := by
  rw [Flight.isFresh, h.entry, Refreshes.entry, Option.eq_none_iff_forall_ne_some]
  cases hmodels : s.cache.models with
  | none => simp [ModelCache.get_eq_some_iff, hmodels]
  | some models =>
    have hne := (h.sound.models models hmodels).1
    rw [Option.map_some, Option.any_some, isFresh, decide_eq_false_iff_not, ← h.ttl]
    simp only [ne_eq, ModelCache.get_eq_some_iff, hmodels, Option.some.injEq, not_and, not_le]
    constructor
    · intro hget
      exact hget models rfl hne
    · rintro hage models' rfl -
      exact hage

/-- What a step does to the fetches is what the guard allows. -/
theorem step_follows {ttl : ℤ} {f : Flight ℕ (List String)} (hf : Follows ttl s f) (h : s.step a = some s') :
    ∃ f', run (Flight.next (isFresh ttl)) f (s.fetches a) = some f' ∧ Follows ttl s' f' := by
  have hs' := step_sound hf.sound h
  have httl' := (step_ttl h).trans hf.ttl
  cases step_moves h with
  | refresh p hidle => exact ⟨f, rfl, hs', httl', hf.clock, hf.owner, hf.entry⟩
  | served p models hqueued hlock hget =>
    have hfetches : s.fetches (.enter p) = [] := by
      rw [fetches, h]
      simp
    exact ⟨f, by rw [hfetches]; rfl, hs', httl', hf.clock, hf.owner, hf.entry⟩
  | begins p hqueued hlock hget =>
    have hfetches : s.fetches (.enter p) = [⟨s.now, p, .began false⟩] := by
      rw [fetches, h]
      simp
    have hstale := hf.get_eq_none_iff.mp hget
    refine ⟨⟨s.now, some p, f.entry⟩, ?_, hs', httl', le_rfl, rfl, hf.entry⟩
    have hnext : f.next (isFresh ttl) ⟨s.now, p, .began false⟩ = some ⟨s.now, some p, f.entry⟩ :=
      (Flight.next_began rfl).mpr ⟨hf.clock, hf.owner.trans hlock, by simp [hstale], rfl⟩
    rw [hfetches, run, hnext]
    rfl
  | stores p models hfetching hnames =>
    have hfetches : s.fetches (.fetched p (.returned models)) =
        [⟨s.now, p, .stored (ModelCache.clean models)⟩] := if_neg hnames
    have howner : f.owner = some p := hf.owner.trans ((hf.sound.lock p).mpr hfetching)
    refine ⟨⟨s.now, none, some (s.now, ModelCache.clean models)⟩, ?_, hs', httl', le_rfl, rfl, rfl⟩
    have hnext : f.next (isFresh ttl) ⟨s.now, p, .stored (ModelCache.clean models)⟩ =
        some ⟨s.now, none, some (s.now, ModelCache.clean models)⟩ :=
      (Flight.next_stored rfl).mpr ⟨hf.clock, howner, rfl⟩
    rw [hfetches, run, hnext]
    rfl
  | leaves p result answer hfetching hnames =>
    have hfetches : s.fetches (.fetched p result) = [⟨s.now, p, .failed⟩] := by
      cases result with
      | returned models => exact if_pos (hnames models rfl)
      | _ => rfl
    have howner : f.owner = some p := hf.owner.trans ((hf.sound.lock p).mpr hfetching)
    refine ⟨⟨s.now, none, f.entry⟩, ?_, hs', httl', le_rfl, rfl, hf.entry⟩
    have hnext : f.next (isFresh ttl) ⟨s.now, p, .failed⟩ = some ⟨s.now, none, f.entry⟩ :=
      (Flight.next_failed rfl).mpr ⟨hf.clock, howner, rfl⟩
    rw [hfetches, run, hnext]
    rfl
  | cancel p hqueued => exact ⟨f, rfl, hs', httl', hf.clock, hf.owner, hf.entry⟩
  | tick d =>
    refine ⟨f, rfl, hs', httl', ?_, hf.owner, hf.entry⟩
    show f.clock ≤ s.now + d
    have hclock := hf.clock
    omega

/-- The last list with names in it that a fetcher returned. -/
def lastNamed (as : List Action) : Option (List Json) :=
  ((as.flatMap returned).filter fun models => ModelCache.names models ≠ []).getLast?

theorem lastNamed_concat (as : List Action) (a : Action) :
    lastNamed (as ++ [a]) = ((returned a).filter fun models =>
      ModelCache.names models ≠ []).getLast?.or (lastNamed as) := by
  simp [lastNamed]

/-- What is stored is the last list with names in it, cleaned. -/
theorem run_models {ttlSeconds now : ℤ} {as : List Action}
    (hrun : run step (init ttlSeconds now) as = some s) :
    s.cache.models = (lastNamed as).map ModelCache.clean := by
  induction as using List.reverseRecOn generalizing s with
  | nil =>
    cases hrun
    rfl
  | append_singleton as a ih =>
    obtain ⟨s1, h1, h2⟩ := run_concat_iff.mp hrun
    rw [lastNamed_concat]
    have hrest := ih h1
    cases step_moves h2 with
    | stores p models hfetching hnames => simp [returned, hnames]
    | leaves p result answer hfetching hnames =>
      cases result with
      | returned models => simpa [returned, hnames models rfl] using hrest
      | _ => simpa [returned] using hrest
    | _ => simpa [returned] using hrest

/-- A fetch that raises, or yields no names, leaves the list and its time. -/
theorem step_leaves {p : ℕ} {result : Fetched} (h : s.step (.fetched p result) = some s')
    (hnames : ∀ models, result = .returned models → ModelCache.names models = []) :
    s'.cache.models = s.cache.models ∧ s'.cache.lastRefresh = s.cache.lastRefresh := by
  generalize ha : Action.fetched p result = a at h
  cases step_moves h with
  | stores q models hfetching hnames' =>
    cases ha
    exact absurd (hnames models rfl) hnames'
  | leaves q result' answer hfetching hnames' => exact ⟨rfl, rfl⟩
  | _ => cases ha

theorem fetches_unforced {e : Flight.Event ℕ (List String)} (he : e ∈ s.fetches a) :
    e.began?.isSome = true → e.what = .began false := by
  intro hbegan
  unfold fetches at he
  split at he
  · split at he
    · split_ifs at he
      · rw [List.mem_singleton.mp he]
      · cases he
    · cases he
  · split_ifs at he <;> rw [List.mem_singleton.mp he] at hbegan <;> cases hbegan
  · rw [List.mem_singleton.mp he] at hbegan
    cases hbegan
  · cases he

/-- However the callers interleave: what is stored is what the last fetch that
yielded a name yielded, each name once; one fetcher runs at a time, and none
starts while the stored list is fresh; and a fetch that yields none leaves the
cache. -/
theorem refresh_single_flight {ttlSeconds now : ℤ} {as : List Action}
    (hrun : run step (init ttlSeconds now) as = some s) :
    (match s.cache.models with
      | none => lastNamed as = none
      | some names => ∃ models, lastNamed as = some models ∧ names ≠ [] ∧ "" ∉ names ∧ names.Nodup ∧
          Firsts (ModelCache.names models) names) ∧
    (∀ p q, s.calls p = .fetching → s.calls q = .fetching → p = q) ∧
    (∀ before e after, outputs step fetches (init ttlSeconds now) as = before ++ e :: after →
      e.began?.isSome = true → ∀ x ∈ before.filterMap Flight.Event.stored?,
        seconds (max 1 ttlSeconds) < e.now - x.1) ∧
    (∀ (s0 s1 : Refreshes) p result, s0.step (.fetched p result) = some s1 →
      (∀ models, result = .returned models → ModelCache.names models = []) →
        s1.cache.models = s0.cache.models ∧ s1.cache.lastRefresh = s0.cache.lastRefresh) := by
  have hsound : s.Sound := run_inv' (fun _ _ _ => step_sound) (init_sound ttlSeconds now) hrun
  refine ⟨?_, fun p q hp hq => ?_, fun before e after hes hbegan x hx => ?_, fun _ _ _ _ => step_leaves⟩
  · have hmodels := run_models hrun
    cases hstored : s.cache.models with
    | none =>
      rw [hstored] at hmodels
      exact Option.map_eq_none_iff.mp hmodels.symm
    | some names =>
      rw [hstored] at hmodels
      obtain ⟨models, hlast, hclean⟩ := Option.map_eq_some_iff.mp hmodels.symm
      obtain ⟨hne, hnodup, hblank⟩ := hsound.models names hstored
      exact ⟨models, hlast, hne, hblank, hnodup, hclean ▸ ModelCache.clean_firsts models⟩
  · have hlock := (hsound.lock p).mpr hp
    rw [(hsound.lock q).mpr hq] at hlock
    exact (Option.some.inj hlock).symm
  · have h0 : Follows (max 1 ttlSeconds) (init ttlSeconds now) ⟨now, none, none⟩ :=
      ⟨init_sound ttlSeconds now, rfl, le_rfl, rfl, rfl⟩
    have hfollows : ∀ s f a s', Follows (max 1 ttlSeconds) s f → step s a = some s' →
        ∃ f', run (Flight.next (isFresh (max 1 ttlSeconds))) f (fetches s a) = some f' ∧
          Follows (max 1 ttlSeconds) s' f' := fun _ _ _ _ hf h => step_follows hf h
    obtain ⟨f', hf', -⟩ := run_follows hfollows h0 hrun
    have hunforced : e.what = .began false :=
      forall_mem_outputs (fun _ _ _ => fetches_unforced) e (by rw [hes]; simp) hbegan
    rw [hes] at hf'
    have hstale := Flight.run_unforced (fun a b hab hb => ?_) rfl hf' hunforced x hx
    · exact not_le.mp (of_decide_eq_false hstale)
    · have hle : b ≤ seconds (max 1 ttlSeconds) := of_decide_eq_true hb
      exact decide_eq_true (hab.trans hle)

/-- Two callers want the list; the second one finds what the first one got. -/
def shared : List Action :=
  [.refresh 0, .refresh 1, .enter 0, .tick 5,
    .fetched 0 (.returned [.str "b", .str "", .null, .str "a", .str "b"]), .enter 1]

theorem refresh_single_flight_shared :
    let s := (run step (init 300 0) shared).get (by decide)
    s.calls 1 = .done (some ["b", "a"]) ∧
      ∃ models, lastNamed shared = some models ∧ Firsts (ModelCache.names models) ["b", "a"] := by
  intro s
  have hrun : run step (init 300 0) shared = some s := (Option.some_get _).symm
  obtain ⟨models, hlast, -, -, -, hfirsts⟩ := (refresh_single_flight hrun).1
  exact ⟨by decide, models, hlast, hfirsts⟩

end Refreshes

end OllamaProxy
