/-
# Served model lists

The two model-list routes on the world and the cache. A route that finds
nothing fresh in the cache refreshes it with a fetcher that runs
`_fetch_models_via_rotation`, a request of the world; where that fails the
fetcher falls back on the stored list, stale as it is.

The cache cannot tell: it stores what it gets, with the time at which it gets
it (`fallenBack_serves`). `heard`, `answeredAt` and `got` are history: what
upstream returned, when it answered a request, and the fetches that have got a
list. Upstream returns the list and the fetch records this as a success before it
ends, so a list is stored as of a little later than upstream returned it.

Key definitions: `Listing.step`, `Listing.ends`, `Listing.Renews`,
`Listing.Current`.
Key theorems: `Turn.Move.listed`, `step_current_iff`, `served_recently`.
-/
import OllamaProxy.Withdrawal
import OllamaProxy.ModelCache

namespace OllamaProxy

open Kit

/-! ### The fetch in the world -/

/-- The list that upstream returns. -/
def Upstream.models? : Upstream → Option (List String)
  | .response r => if r.isSuccess then (listModelsV1 r).toOption else none
  | _ => none

/-- `ok` is true. -/
def Return.models? : Return → Option (List String)
  | .models true ids => some ids
  | _ => none

def Answer.models? : Answer → Option (List String)
  | .models true ids => some ids
  | _ => none

/-- The list that the request has got and will return. -/
def Pc.models? : Pc → Option (List String)
  | .commit _ ret | .refresh ret => ret.models?
  | .done answer => answer.models?
  | _ => none

namespace Request

theorem failed_models? (q : Request) : q.failed.models? = none := by
  unfold failed
  split <;> rfl

theorem giveUp_models? (q : Request) : q.giveUp.pc.models? = none := by
  unfold giveUp
  split
  · show (verdict _ _ _ _).models? = none
    unfold verdict
    split_ifs
    · rfl
    · rfl
    · split
      · split_ifs <;> rfl
      · rfl
  · rfl

theorem nextIteration_models? (q : Request) : q.nextIteration.pc.models? = none := by
  unfold nextIteration
  split
  · exact q.giveUp_models?
  · rfl

theorem noKey_models? (q : Request) (now : ℤ) : (q.noKey now).pc.models? = none := by
  unfold noKey
  simp only
  split
  · rfl
  · split_ifs
    · exact giveUp_models? _
    · rfl

theorem returned_models? (q : Request) (ret : Return) : (q.returned ret).pc.models? = ret.models? := by
  cases ret with
  | models ok ids => cases ok <;> rfl
  | outcome o =>
    simp only [returned]
    split_ifs
    · exact nextIteration_models? _
    · split
      · rfl
      · rfl
      · exact failed_models? q

theorem undecryptable_models? (q : Request) : q.undecryptable.models? = none := by
  unfold undecryptable
  split <;> rfl

end Request

/-- What a dispatch returns. -/
def Dispatch.models? : Dispatch → Option (List String)
  | .record _ ret | .done ret => ret.models?
  | .raised _ => none

section

variable {rot : Rotation} {now : ℤ} {u : Upstream}

theorem recordRetryAfter_models? (pyFloat : String → Option PyFloat) (r : Response) (ret : Return)
    (h : ret.models? = none) : (recordRetryAfter pyFloat now r ret).models? = none := by
  unfold recordRetryAfter
  split
  · rfl
  · split
    · rfl
    · exact h

theorem dispatchOne_models? (stream : Bool) : (dispatchOne rot stream now u).models? = none := by
  cases u with
  | response r =>
    simp only [dispatchOne]
    split_ifs
    · unfold recordChatSuccess
      simp only
      split
      · rfl
      · split_ifs <;> rfl
    · rfl
    · rfl
    · exact recordRetryAfter_models? _ _ _ rfl
    · rfl
    · rfl
  | _ => rfl

theorem fetchModels_models? : (fetchModels rot now u).models? = u.models? := by
  cases u with
  | response r =>
    simp only [fetchModels, Upstream.models?]
    split_ifs
    · cases listModelsV1 r <;> rfl
    · rfl
    · exact recordRetryAfter_models? _ _ _ rfl
    · rfl
    · rfl
  | _ => rfl

/-- A request has a list to return only if it is one for a list and upstream
returned it. -/
theorem dispatch_models? {q : Request} {ids : List String} (h : (q.dispatch rot now u).models? = some ids) :
    q.kind = .models ∧ u.models? = some ids := by
  unfold Request.dispatch at h
  split at h
  · rw [dispatchOne_models?] at h
    cases h
  · rename_i hkind
    rw [fetchModels_models?] at h
    exact ⟨hkind, h⟩

end

namespace Turn

variable {rot : Rotation} {now : ℤ} {p : ℕ} {x x' : Turn} {ev : Event} {ids : List String}

theorem aborted_models? {q : Request} {answer : Answer} (h : Aborted q answer) : answer.models? = none := by
  rcases h with rfl | rfl
  · exact q.failed_models?
  · rfl

/-- A request that has a list to return had it before the turn, or the turn is
the upstream answer that has it. -/
theorem Move.listed (h : Move rot now p x ev x') (hids : x'.request.pc.models? = some ids) :
    (x.request.pc.models? = some ids ∧ ∀ u, ev ≠ .answer u) ∨
      ∃ u, ev = .answer u ∧ x.request.kind = .models ∧ u.models? = some ids := by
  cases h with
  | counted hpc =>
    rw [Request.nextIteration_models?] at hids
    cases hids
  | quit answer hpc hev ha =>
    have hnone := aborted_models? ha
    cases hnone.symm.trans hids
  | acquired hpc hlock => cases hids
  | pick h =>
    cases h with
    | emptied hpc hempty => cases hids
    | reactivated updateNow hpc => cases hids
    | left answer t hpc hev ht ha =>
      have hnone := aborted_models? ha
      cases hnone.symm.trans hids
    | missed hpc hall =>
      rw [Request.noKey_models?] at hids
      cases hids
    | skipped id row m hpc hchoose hvault =>
      rw [Request.returned_models?, Request.undecryptable_models?] at hids
      cases hids
    | attempted id row m rawKey hpc hchoose hvault => cases hids
  | slept deadline hpc => exact Or.inl ⟨hids, by simp⟩
  | woke deadline hpc =>
    rw [Request.nextIteration_models?] at hids
    cases hids
  | answer rawKey copy hpc hkey h =>
    cases h with
    | answered u rec ret hd =>
      have hdisp : (x.request.dispatch rot now u).models? = some ids := by
        rw [hd]
        exact hids
      exact Or.inr ⟨u, rfl, dispatch_models? hdisp⟩
    | unrecorded u ret hd =>
      rw [Request.returned_models?] at hids
      have hdisp : (x.request.dispatch rot now u).models? = some ids := by
        rw [hd]
        exact hids
      exact Or.inr ⟨u, rfl, dispatch_models? hdisp⟩
    | unread u e hd =>
      have hnone := x.request.failed_models?
      cases hnone.symm.trans hids
    | hungUp written expired => cases hids
  | record copy hpc hkey h =>
    refine Or.inl ?_
    cases h with
    | recorded v ret t hpc hcommit =>
      rw [hpc]
      exact ⟨hids, by simp⟩
    | recordedUsage u ret t hpc hcommit =>
      rw [Request.returned_models?] at hids
      rw [hpc]
      exact ⟨hids, by simp⟩
    | refreshed ret row hpc hrow =>
      rw [Request.returned_models?] at hids
      rw [hpc]
      exact ⟨hids, by simp⟩
    | cancelled written rec ret t hpc ht => cases hids
    | leaked t hev ht =>
      have hnone := x.request.failed_models?
      cases hnone.symm.trans hids

end Turn

theorem World.step_listed {rot : Rotation} {w w' : World} {a : Action} (hs : w.Sound)
    (h : w.step rot a = some w') {p : ℕ} {ids : List String} (hids : (w'.requests p).pc.models? = some ids) :
    ((w.requests p).pc.models? = some ids ∧ ∀ u, a ≠ .resume p (.answer u)) ∨
      ∃ u, a = .resume p (.answer u) ∧ (w.requests p).kind = .models ∧ u.models? = some ids := by
  cases step_request hs h p with
  | keeps hturn hreq =>
    rw [hreq] at hids
    refine Or.inl ⟨hids, fun u ha => ?_⟩
    rw [ha, Action.isTurnOf, decide_eq_false_iff_not] at hturn
    exact hturn rfl
  | starts kind hturn hpc htable hreq =>
    rw [hreq] at hids
    cases kind <;> cases hids
  | turns ev x' ha hw' hm =>
    rw [hw', put_requests_self] at hids
    rcases hm.listed hids with ⟨hold, hev⟩ | ⟨u, hu, hkind, hmodels⟩
    · refine Or.inl ⟨hold, fun u hau => ?_⟩
      rw [ha] at hau
      cases hau
      exact hev u rfl
    · exact Or.inr ⟨u, by rw [ha, hu], hkind, hmodels⟩

/-! ### The routes -/

/-- A fetch that has got a list with names in it. -/
structure ListFetch where
  heardAt : ℤ
  endedAt : ℤ
  ids : List String
deriving DecidableEq

structure Listing where
  world : World
  refreshes : Refreshes
  heard : List (ℤ × List String)
  answeredAt : ℕ → ℤ
  got : List ListFetch

/-- A request for the list arrives, gets the lock of the cache, or is cancelled
while it waits for it; or the world takes a step. -/
inductive Listing.Action
  | get (p : ℕ)
  | enter (p : ℕ)
  | hangUp (p : ℕ)
  | run (a : OllamaProxy.Action)

/-- What `_fetch` of the route ends with. -/
def fetched (stale : Option (List String)) : Answer → Fetched
  | .models true ids => .returned (ids.map .str)
  | .models false _ => .returned ((stale.getD []).map .str)
  | .cancelled => .cancelled
  | _ => .raised

namespace Listing

def init (t : KeyTable) (ttlSeconds utcnow now : ℤ) : Listing where
  world := .init t utcnow
  refreshes := .init ttlSeconds now
  heard := []
  answeredAt := fun _ => now
  got := []

/-- A number is one request: of the routes for the list, or of another kind. -/
def admits (s : Listing) : OllamaProxy.Action → Bool
  | .start p (.chat _ _) => s.refreshes.calls p = .idle
  | .start _ .models => false
  | _ => true

/-- The clock of the cache moves on with that of the world, and an upstream
answer is noted. -/
def notes (s : Listing) : OllamaProxy.Action → Listing
  | .tick d => { s with refreshes := { s.refreshes with now := s.refreshes.now + d } }
  | .resume p (.answer u) =>
    match (s.world.requests p).kind, u.models? with
    | .models, some ids =>
      { s with
        heard := s.heard ++ [(s.refreshes.now, ids)]
        answeredAt := Function.update s.answeredAt p s.refreshes.now }
    | _, _ => s
  | _ => s

/-- The fetch that the step to `w` ends. -/
def fetchEnds (s : Listing) (w : World) : OllamaProxy.Action → Option (ℕ × Answer)
  | .resume p _ =>
    if s.refreshes.calls p = .fetching then (w.requests p).answer?.map fun answer => (p, answer) else none
  | _ => none

/-- The fetcher of `p` returns, and the cache settles it. -/
def settle (s : Listing) (p : ℕ) (answer : Answer) : Option Listing :=
  (s.refreshes.step (.fetched p (fetched s.refreshes.cache.getStale answer))).map fun r =>
    { s with
      refreshes := r
      got :=
        match answer.models? with
        | some ids =>
          if ModelCache.clean (ids.map .str) = [] then s.got
          else s.got ++ [⟨s.answeredAt p, s.refreshes.now, ids⟩]
        | none => s.got }

def step (rot : Rotation) (s : Listing) : Action → Option Listing
  | .get p =>
    match s.refreshes.cache.get s.refreshes.now with
    | some _ => some s
    | none =>
      match (s.world.requests p).pc with
      | .idle => (s.refreshes.step (.refresh p)).map fun r => { s with refreshes := r }
      | _ => none
  | .enter p =>
    (s.refreshes.step (.enter p)).bind fun r =>
      if r.calls p = .fetching then
        (s.world.step rot (.start p .models)).map fun w => { s with world := w, refreshes := r }
      else some { s with refreshes := r }
  | .hangUp p => (s.refreshes.step (.cancel p)).map fun r => { s with refreshes := r }
  | .run a =>
    if s.admits a then
      (s.world.step rot a).bind fun w =>
        match s.fetchEnds w a with
        | none => some { s.notes a with world := w }
        | some (p, answer) => settle { s.notes a with world := w } p answer
    else none

/-- The fetch that the step ends. -/
def ends (rot : Rotation) (s : Listing) : Action → Option (ℕ × Answer)
  | .run a => (s.world.step rot a).bind fun w => s.fetchEnds w a
  | _ => none

/-- The fetch does not fall back on a list that is stored. -/
def Renewed (s : Listing) : Answer → Prop
  | .models false _ => s.refreshes.cache.models = none
  | _ => True

/-- The step ends no fetch, or one that renews what is stored. -/
def Renews (rot : Rotation) (s : Listing) (a : Action) : Prop :=
  match a with
  | .run b => ∀ x ∈ s.ends rot a, (s.notes b).Renewed x.2
  | _ => True

/-- The time of the cache is the end of the last fetch that got a list. -/
def Current (s : Listing) : Prop := ∀ f ∈ s.got.getLast?, f.endedAt = s.refreshes.cache.lastRefresh

instance (s : Listing) (answer : Answer) : Decidable (s.Renewed answer) := by
  unfold Renewed
  split <;> infer_instance

instance (rot : Rotation) (s : Listing) (a : Action) : Decidable (s.Renews rot a) :=
  match a with
  | .run b => inferInstanceAs (Decidable (∀ x ∈ s.ends rot (.run b), (s.notes b).Renewed x.2))
  | .get _ | .enter _ | .hangUp _ => inferInstanceAs (Decidable True)

/-! ### What a step keeps -/

/-- Upstream has returned every list that a request will return, and every one
that was got, at the time noted; the stored list was got last. -/
structure Sound (ttl : ℤ) (s : Listing) : Prop where
  world : s.world.Sound
  refreshes : s.refreshes.Sound
  cacheTtl : s.refreshes.cache.ttl = ttl
  pos : 1 ≤ ttl
  listed : ∀ p ids, (s.world.requests p).pc.models? = some ids → (s.answeredAt p, ids) ∈ s.heard
  past : ∀ p, s.answeredAt p ≤ s.refreshes.now
  honest : ∀ f ∈ s.got, (f.heardAt, f.ids) ∈ s.heard ∧ f.heardAt ≤ f.endedAt
  stored : ∀ models, s.refreshes.cache.models = some models → ∃ f, s.got.getLast? = some f ∧
    f.endedAt ≤ s.refreshes.cache.lastRefresh ∧ ModelCache.clean (f.ids.map .str) = models

theorem init_sound (t : KeyTable) (ttlSeconds utcnow now : ℤ) :
    Sound (max 1 ttlSeconds) (init t ttlSeconds utcnow now) where
  world := World.init_sound t utcnow
  refreshes := Refreshes.init_sound ttlSeconds now
  cacheTtl := rfl
  pos := le_max_left _ _
  listed p ids h := by cases h
  past p := le_rfl
  honest f h := by cases h
  stored models h := by cases h

variable {rot : Rotation} {ttl : ℤ} {s s' : Listing}

/-- An answer that has a list for a request that wants one is noted; otherwise
only the clock can move. -/
theorem notes_cases (s : Listing) (a : OllamaProxy.Action) :
    (∃ p u ids, a = .resume p (.answer u) ∧ (s.world.requests p).kind = .models ∧ u.models? = some ids ∧
      s.notes a = { s with
        heard := s.heard ++ [(s.refreshes.now, ids)]
        answeredAt := Function.update s.answeredAt p s.refreshes.now }) ∨
    ((∀ p u ids, a = .resume p (.answer u) → (s.world.requests p).kind = .models → u.models? ≠ some ids) ∧
      ∃ d : ℕ, s.notes a = { s with refreshes := { s.refreshes with now := s.refreshes.now + d } }) := by
  cases a with
  | resume p ev =>
    cases ev with
    | answer u =>
      by_cases hheard : (s.world.requests p).kind = .models ∧ ∃ ids, u.models? = some ids
      · obtain ⟨hkind, ids, hids⟩ := hheard
        exact Or.inl ⟨p, u, ids, rfl, hkind, hids, by simp [notes, hkind, hids]⟩
      · refine Or.inr ⟨fun p' u' ids ha hkind hids => ?_, 0, ?_⟩
        · cases ha
          exact hheard ⟨hkind, ids, hids⟩
        · simp only [notes]
          split
          · rename_i hkind hids
            exact absurd ⟨hkind, _, hids⟩ hheard
          · simp
    | _ => exact Or.inr ⟨by simp, 0, by simp [notes]⟩
  | tick d => exact Or.inr ⟨by simp, d, rfl⟩
  | _ => exact Or.inr ⟨by simp, 0, by simp [notes]⟩

/-- The world takes a step, and what it heard is noted. -/
theorem Sound.notes (hs : s.Sound ttl) {a : OllamaProxy.Action} {w : World} (hw : s.world.step rot a = some w) :
    Sound ttl { s.notes a with world := w } := by
  have hw' := World.step_sound hs.world hw
  rcases s.notes_cases a with ⟨p, u, ids, rfl, hkind, hids, hnotes⟩ | ⟨hnot, d, hnotes⟩
  · rw [hnotes]
    refine ⟨hw', hs.refreshes, hs.cacheTtl, hs.pos, fun q ids' hids' => ?_, fun q => ?_, fun f hf => ?_, hs.stored⟩
    · show (Function.update s.answeredAt p s.refreshes.now q, ids') ∈ s.heard ++ [(s.refreshes.now, ids)]
      rcases World.step_listed hs.world hw hids' with ⟨hold, hev⟩ | ⟨u', ha, -, hu'⟩
      · have hq : q ≠ p := fun he => hev u (by rw [he])
        rw [Function.update_of_ne hq]
        exact List.mem_append_left _ (hs.listed q ids' hold)
      · cases ha
        cases hids.symm.trans hu'
        rw [Function.update_self]
        exact List.mem_append_right _ List.mem_cons_self
    · show Function.update s.answeredAt p s.refreshes.now q ≤ s.refreshes.now
      by_cases hq : q = p
      · rw [hq, Function.update_self]
      · rw [Function.update_of_ne hq]
        exact hs.past q
    · obtain ⟨hmem, hle⟩ := hs.honest f hf
      exact ⟨List.mem_append_left _ hmem, hle⟩
  · rw [hnotes]
    have htick : s.refreshes.step (.tick d) = some { s.refreshes with now := s.refreshes.now + d } := rfl
    refine ⟨hw', Refreshes.step_sound hs.refreshes htick, hs.cacheTtl, hs.pos, fun q ids hids => ?_, fun q => ?_,
      hs.honest, hs.stored⟩
    · rcases World.step_listed hs.world hw hids with ⟨hold, -⟩ | ⟨u, ha, hkind, hu⟩
      · exact hs.listed q ids hold
      · exact absurd hu (hnot q u ids ha hkind)
    · show s.answeredAt q ≤ s.refreshes.now + d
      have hpast := hs.past q
      omega

theorem notes_current (s : Listing) (a : OllamaProxy.Action) (w : World) :
    Current { s.notes a with world := w } ↔ s.Current := by
  rcases s.notes_cases a with ⟨p, u, ids, -, -, -, hnotes⟩ | ⟨-, d, hnotes⟩ <;> rw [hnotes] <;> exact Iff.rfl

theorem notes_calls (s : Listing) (a : OllamaProxy.Action) :
    (s.notes a).refreshes.calls = s.refreshes.calls := by
  rcases s.notes_cases a with ⟨p, u, ids, -, -, -, hnotes⟩ | ⟨-, d, hnotes⟩ <;> rw [hnotes]

/-- The cache takes a step that settles no fetch, and with it a fetch may start. -/
theorem Sound.waits (hs : s.Sound ttl) {b : Refreshes.Action} {r : Refreshes} {w : World}
    (hw : w = s.world ∨ ∃ p, s.world.step rot (.start p .models) = some w)
    (hr : s.refreshes.step b = some r) (hcache : r.cache.models = s.refreshes.cache.models ∧
      r.cache.lastRefresh = s.refreshes.cache.lastRefresh ∧ r.now = s.refreshes.now) :
    Sound ttl { s with world := w, refreshes := r } := by
  obtain ⟨hmodels, hlast, hnow⟩ := hcache
  have hr' := Refreshes.step_sound hs.refreshes hr
  have hworld : w.Sound ∧ ∀ q ids, (w.requests q).pc.models? = some ids →
      (s.world.requests q).pc.models? = some ids := by
    rcases hw with rfl | ⟨p, hw⟩
    · exact ⟨hs.world, fun q ids h => h⟩
    · refine ⟨World.step_sound hs.world hw, fun q ids h => ?_⟩
      rcases World.step_listed hs.world hw h with ⟨hold, -⟩ | ⟨u, ha, -, -⟩
      · exact hold
      · cases ha
  refine ⟨hworld.1, hr', (Refreshes.step_ttl hr).trans hs.cacheTtl, hs.pos,
    fun q ids hids => hs.listed q ids (hworld.2 q ids hids), fun q => ?_, hs.honest, fun models h => ?_⟩
  · show s.answeredAt q ≤ r.now
    rw [hnow]
    exact hs.past q
  · show ∃ f, s.got.getLast? = some f ∧ f.endedAt ≤ r.cache.lastRefresh ∧ _
    rw [hlast]
    exact hs.stored models (hmodels.symm.trans h)

/-- What the end of a fetch is to the cache: it renews what is stored, stores it
again, or leaves it. -/
inductive Settles (s : Listing) (p : ℕ) : Answer → Listing → Prop
  | renews (ids : List String) (r : Refreshes) (hclean : ModelCache.clean (ids.map .str) ≠ [])
    (hmodels : r.cache.models = some (ModelCache.clean (ids.map .str)))
    (hlast : r.cache.lastRefresh = s.refreshes.now) (hnow : r.now = s.refreshes.now) :
    Settles s p (.models true ids)
      { s with refreshes := r, got := s.got ++ [⟨s.answeredAt p, s.refreshes.now, ids⟩] }
  | restores (ids models : List String) (r : Refreshes) (hstored : s.refreshes.cache.models = some models)
    (hmodels : r.cache.models = some models) (hlast : r.cache.lastRefresh = s.refreshes.now)
    (hnow : r.now = s.refreshes.now) :
    Settles s p (.models false ids) { s with refreshes := r }
  | leaves (answer : Answer) (r : Refreshes)
    (hclean : ∀ ids, answer.models? = some ids → ModelCache.clean (ids.map .str) = [])
    (hfailed : ∀ ids, answer = .models false ids → s.refreshes.cache.models = none)
    (hmodels : r.cache.models = s.refreshes.cache.models)
    (hlast : r.cache.lastRefresh = s.refreshes.cache.lastRefresh) (hnow : r.now = s.refreshes.now) :
    Settles s p answer { s with refreshes := r }

theorem Sound.settles (hs : s.Sound ttl) {p : ℕ} {answer : Answer} (h : s.settle p answer = some s') :
    s.refreshes.step (.fetched p (fetched s.refreshes.cache.getStale answer)) = some s'.refreshes ∧
      Settles s p answer s' := by
  unfold Listing.settle at h
  obtain ⟨r, hr, rfl⟩ := Option.map_eq_some_iff.mp h
  refine ⟨hr, ?_⟩
  simp only [Refreshes.step, Option.ite_none_right_eq_some] at hr
  obtain ⟨-, hr⟩ := hr
  cases hr
  cases answer with
  | models ok ids =>
    cases ok with
    | true =>
      by_cases hclean : ModelCache.clean (ids.map .str) = []
      · have hnil : ∀ ids', Answer.models? (.models true ids) = some ids' →
            ModelCache.clean (ids'.map .str) = [] := fun ids' h => by
          cases h
          exact hclean
        simp only [fetched, ModelCache.settle_blank hclean, Answer.models?, hclean, if_true]
        exact .leaves _ _ hnil (by simp) rfl rfl rfl
      · simp only [fetched, ModelCache.settle_named hclean, Answer.models?, hclean, if_false]
        exact .renews ids _ hclean rfl rfl rfl
    | false =>
      have hnone : ∀ ids', Answer.models? (.models false ids) = some ids' →
          ModelCache.clean (ids'.map .str) = [] := fun ids' h => by cases h
      cases hstored : s.refreshes.cache.models with
      | none =>
        have hclean : ModelCache.clean ((s.refreshes.cache.getStale.getD []).map .str) = [] := by
          rw [ModelCache.getStale, hstored]
          rfl
        simp only [fetched, ModelCache.settle_blank hclean, Answer.models?]
        exact .leaves _ _ hnone (fun _ _ => hstored) rfl rfl rfl
      | some models =>
        obtain ⟨hne, hnodup, hblank⟩ := hs.refreshes.models models hstored
        have hsame : ModelCache.clean ((s.refreshes.cache.getStale.getD []).map .str) = models := by
          rw [ModelCache.getStale, hstored]
          exact ModelCache.clean_map_str hnodup hblank
        have hclean : ModelCache.clean ((s.refreshes.cache.getStale.getD []).map .str) ≠ [] := by
          rw [hsame]
          exact hne
        simp only [fetched, ModelCache.settle_named hclean, Answer.models?]
        exact .restores ids models _ hstored (congrArg some hsame) rfl rfl
  | _ => exact .leaves _ _ (fun ids h => by cases h) (fun ids h => by cases h) rfl rfl rfl

theorem Settles.keeps {p : ℕ} {answer : Answer} (h : s.Settles p answer s') : s'.world = s.world ∧
    s'.heard = s.heard ∧ s'.answeredAt = s.answeredAt ∧ s'.refreshes.now = s.refreshes.now := by
  cases h with
  | renews ids r hclean hmodels hlast hnow => exact ⟨rfl, rfl, rfl, hnow⟩
  | restores ids models r hstored hmodels hlast hnow => exact ⟨rfl, rfl, rfl, hnow⟩
  | leaves answer r hclean hfailed hmodels hlast hnow => exact ⟨rfl, rfl, rfl, hnow⟩

/-- During a fetch nothing that is stored is fresh. -/
theorem Sound.stale (hs : s.Sound ttl) {p : ℕ} (hcall : s.refreshes.calls p = .fetching) {models : List String}
    (hstored : s.refreshes.cache.models = some models) : s.refreshes.cache.lastRefresh < s.refreshes.now := by
  have hage : seconds ttl < s.refreshes.now - s.refreshes.cache.lastRefresh := by
    by_contra hfresh
    have hne := (hs.refreshes.models models hstored).1
    have hget : s.refreshes.cache.get s.refreshes.now = some models :=
      ModelCache.get_eq_some_iff.mpr ⟨hstored, hne, by rw [hs.cacheTtl]; omega⟩
    rw [hs.refreshes.expired p hcall] at hget
    cases hget
  have hpos : 0 ≤ seconds ttl := by
    have h1 := hs.pos
    unfold seconds
    omega
  omega

theorem Sound.settled (hs : s.Sound ttl) {p : ℕ} {answer : Answer} (hcall : s.refreshes.calls p = .fetching)
    (hdone : (s.world.requests p).pc = .done answer) (hr : s'.refreshes.Sound)
    (httl : s'.refreshes.cache.ttl = ttl) (h : s.Settles p answer s') : s'.Sound ttl := by
  obtain ⟨hworld, hheard, hanswered, hnow⟩ := h.keeps
  refine ⟨?_, hr, httl, hs.pos, fun q ids hids => ?_, fun q => ?_, fun f hf => ?_, fun models hmodels' => ?_⟩
  · rw [hworld]
    exact hs.world
  · rw [hworld] at hids
    rw [hanswered, hheard]
    exact hs.listed q ids hids
  · rw [hanswered, hnow]
    exact hs.past q
  · cases h with
    | renews ids r hclean hmodels hlast hnow =>
      rcases List.mem_append.mp hf with hf | hf
      · exact hs.honest f hf
      · cases List.mem_singleton.mp hf
        exact ⟨hs.listed p ids (by rw [hdone]; rfl), hs.past p⟩
    | restores ids models r hstored hmodels hlast hnow => exact hs.honest f hf
    | leaves answer r hclean hfailed hmodels hlast hnow => exact hs.honest f hf
  · cases h with
    | renews ids r hclean hmodels hlast hnow =>
      exact ⟨_, List.getLast?_concat, hlast.ge, Option.some.inj (hmodels.symm.trans hmodels')⟩
    | restores ids models' r hstored hmodels hlast hnow =>
      obtain ⟨f, hf, hle, hids⟩ := hs.stored models' hstored
      have hstale := hs.stale hcall hstored
      refine ⟨f, hf, ?_, hids.trans (Option.some.inj (hmodels.symm.trans hmodels'))⟩
      show f.endedAt ≤ r.cache.lastRefresh
      omega
    | leaves answer r hclean hfailed hmodels hlast hnow =>
      show ∃ f, s.got.getLast? = some f ∧ f.endedAt ≤ r.cache.lastRefresh ∧ _
      rw [hlast]
      exact hs.stored models (hmodels.symm.trans hmodels')

/-- What is stored again gets a time that is not its own. -/
theorem Settles.current_iff {p : ℕ} {answer : Answer} (h : s.Settles p answer s') (hs : s.Sound ttl)
    (hcall : s.refreshes.calls p = .fetching) (hcur : s.Current) : s'.Current ↔ s.Renewed answer := by
  cases h with
  | renews ids r hclean hmodels hlast hnow =>
    refine iff_of_true (fun f hf => ?_) trivial
    rw [List.getLast?_concat] at hf
    cases hf
    exact hlast.symm
  | restores ids models r hstored hmodels hlast hnow =>
    obtain ⟨f, hf, hle, -⟩ := hs.stored models hstored
    have hstale := hs.stale hcall hstored
    refine iff_of_false (fun hcur' => ?_) fun hnone => by cases hstored.symm.trans hnone
    have hended : f.endedAt = r.cache.lastRefresh := hcur' f hf
    omega
  | leaves answer r hclean hfailed hmodels hlast hnow =>
    refine iff_of_true (fun f hf => (hcur f hf).trans hlast.symm) ?_
    unfold Renewed
    split
    · rename_i ids
      exact hfailed ids rfl
    · trivial

theorem Settles.get_eq_none {p : ℕ} {answer : Answer} (h : s.Settles p answer s')
    (hexpired : s.refreshes.cache.get s.refreshes.now = none)
    (httl : s'.refreshes.cache.ttl = s.refreshes.cache.ttl) (hre : s.Renewed answer)
    (hnil : ∀ ids, answer.models? = some ids → ModelCache.clean (ids.map .str) = []) :
    s'.refreshes.cache.get s'.refreshes.now = none := by
  cases h with
  | renews ids r hclean hmodels hlast hnow => exact absurd (hnil ids rfl) hclean
  | restores ids models r hstored hmodels hlast hnow => cases hstored.symm.trans hre
  | leaves answer r hclean hfailed hmodels hlast hnow =>
    have hget : r.cache.get r.now = s.refreshes.cache.get s.refreshes.now := by
      have hsame : r.cache.ttl = s.refreshes.cache.ttl := httl
      simp only [ModelCache.get, hmodels, hlast, hnow, hsame]
    exact hget.trans hexpired

/-- The end of a fetch. -/
theorem Sound.settle (hs : s.Sound ttl) {p : ℕ} {answer : Answer} (hcall : s.refreshes.calls p = .fetching)
    (hdone : (s.world.requests p).pc = .done answer) (h : s.settle p answer = some s') :
    s'.Sound ttl ∧ (s.Current → (s'.Current ↔ s.Renewed answer)) ∧
      (s.Renewed answer → (∀ ids, answer.models? = some ids → ModelCache.clean (ids.map .str) = []) →
        s'.refreshes.cache.get s'.refreshes.now = none) := by
  obtain ⟨hr, hcases⟩ := hs.settles h
  have hsound := Refreshes.step_sound hs.refreshes hr
  have httl := Refreshes.step_ttl hr
  exact ⟨hs.settled hcall hdone hsound (httl.trans hs.cacheTtl) hcases, hcases.current_iff hs hcall,
    hcases.get_eq_none (hs.refreshes.expired p hcall) httl⟩

/-- A step, in terms of what it does to the cache. -/
theorem step_cases {a : Action} (hs : s.Sound ttl) (h : s.step rot a = some s') :
    (s'.Sound ttl ∧ (s'.Current ↔ s.Current) ∧ s.ends rot a = none) ∨
      ∃ b w p answer, a = .run b ∧ s.world.step rot b = some w ∧ s.ends rot a = some (p, answer) ∧
        s.refreshes.calls p = .fetching ∧ (w.requests p).pc = .done answer ∧
        settle { s.notes b with world := w } p answer = some s' := by
  have hwaits : ∀ {b : Refreshes.Action} {r : Refreshes} {w : World},
      (w = s.world ∨ ∃ p, s.world.step rot (.start p .models) = some w) → s.refreshes.step b = some r →
      (∀ p result, b ≠ .fetched p result) → (∀ d, b ≠ .tick d) →
      Sound ttl { s with world := w, refreshes := r } ∧
        (Current { s with world := w, refreshes := r } ↔ s.Current) := by
    intro b r w hw hr hb hd
    obtain ⟨hmodels, hlast, hnow⟩ := Refreshes.step_waits hr hb hd
    refine ⟨hs.waits hw hr ⟨hmodels, hlast, hnow⟩, ?_⟩
    show (∀ f ∈ s.got.getLast?, f.endedAt = r.cache.lastRefresh) ↔ _
    rw [hlast]
    exact Iff.rfl
  cases a with
  | get p =>
    refine Or.inl ?_
    simp only [step] at h
    split at h
    · cases h
      exact ⟨hs, Iff.rfl, rfl⟩
    · split at h
      · obtain ⟨r, hr, rfl⟩ := Option.map_eq_some_iff.mp h
        obtain ⟨hs', hcur⟩ := hwaits (Or.inl rfl) hr (by simp) (by simp)
        exact ⟨hs', hcur, rfl⟩
      · cases h
  | enter p =>
    refine Or.inl ?_
    obtain ⟨r, hr, h⟩ := Option.bind_eq_some_iff.mp h
    split_ifs at h with hcall
    · obtain ⟨w, hw, rfl⟩ := Option.map_eq_some_iff.mp h
      obtain ⟨hs', hcur⟩ := hwaits (Or.inr ⟨p, hw⟩) hr (by simp) (by simp)
      exact ⟨hs', hcur, rfl⟩
    · cases h
      obtain ⟨hs', hcur⟩ := hwaits (Or.inl rfl) hr (by simp) (by simp)
      exact ⟨hs', hcur, rfl⟩
  | hangUp p =>
    refine Or.inl ?_
    obtain ⟨r, hr, rfl⟩ := Option.map_eq_some_iff.mp h
    obtain ⟨hs', hcur⟩ := hwaits (Or.inl rfl) hr (by simp) (by simp)
    exact ⟨hs', hcur, rfl⟩
  | run b =>
    simp only [step, Option.ite_none_right_eq_some] at h
    obtain ⟨-, h⟩ := h
    obtain ⟨w, hw, h⟩ := Option.bind_eq_some_iff.mp h
    have hends : s.ends rot (.run b) = s.fetchEnds w b := by rw [ends, hw, Option.bind_some]
    rw [hends]
    cases hfetch : s.fetchEnds w b with
    | none =>
      rw [hfetch] at h
      cases h
      exact Or.inl ⟨hs.notes hw, s.notes_current b w, rfl⟩
    | some x =>
      obtain ⟨p, answer⟩ := x
      rw [hfetch] at h
      refine Or.inr ⟨b, w, p, answer, rfl, hw, rfl, ?_⟩
      unfold fetchEnds at hfetch
      split at hfetch
      · split_ifs at hfetch with hcall
        obtain ⟨answer', hanswer, hpair⟩ := Option.map_eq_some_iff.mp hfetch
        cases hpair
        exact ⟨hcall, Request.answer?_eq_some_iff.mp hanswer, h⟩
      · cases hfetch

theorem step_sound {a : Action} (hs : s.Sound ttl) (h : s.step rot a = some s') : s'.Sound ttl := by
  rcases step_cases hs h with ⟨hs', -, -⟩ | ⟨b, w, p, answer, rfl, hw, hends, hcall, hdone, hsettle⟩
  · exact hs'
  · exact ((hs.notes hw).settle (by rw [s.notes_calls b]; exact hcall) hdone hsettle).1

/-- A step keeps the two times together exactly if it ends no fetch that falls
back on what is stored. -/
theorem step_current_iff {a : Action} (hs : s.Sound ttl) (hq : s.Current) (h : s.step rot a = some s') :
    s'.Current ↔ s.Renews rot a := by
  rcases step_cases hs h with ⟨-, hcur, hends⟩ | ⟨b, w, p, answer, rfl, hw, hends, hcall, hdone, hsettle⟩
  · refine iff_of_true (hcur.mpr hq) ?_
    unfold Renews
    rw [hends]
    split
    · exact fun x hx => by cases hx
    · trivial
  · obtain ⟨-, hiff, -⟩ := (hs.notes hw).settle (by rw [s.notes_calls b]; exact hcall) hdone hsettle
    rw [hiff ((s.notes_current b w).mpr hq), Renews, hends]
    simp only [Option.mem_def, Option.some.injEq, forall_eq']
    exact Iff.rfl

/-- A fetch that yields nothing leaves the cache with nothing fresh. -/
theorem step_failed {a : Action} {p : ℕ} {answer : Answer} (hs : s.Sound ttl) (h : s.step rot a = some s')
    (hends : s.ends rot a = some (p, answer)) (hre : s.Renews rot a)
    (hfailed : ∀ ids, answer.models? = some ids → ModelCache.clean (ids.map .str) = []) :
    s'.refreshes.cache.get s'.refreshes.now = none := by
  rcases step_cases hs h with ⟨-, -, hnone⟩ | ⟨b, w, p', answer', rfl, hw, hends', hcall, hdone, hsettle⟩
  · cases hnone.symm.trans hends
  · cases hends.symm.trans hends'
    obtain ⟨-, -, hget⟩ := (hs.notes hw).settle (by rw [s.notes_calls b]; exact hcall) hdone hsettle
    exact hget (hre _ hends) hfailed

/-! ### A run -/

/-- The time of the cache is the end of the fetch that got the stored list, in
every state of a run, exactly if no fetch of the run falls back on what is stored.
Then `get` returns only what upstream has returned to a fetch that ended at most
`ttl` seconds before, and after a fetch that yields nothing it returns nothing. -/
theorem served_recently {t : KeyTable} {ttlSeconds utcnow now : ℤ} {as : List Action}
    (hrun : run (step rot) (init t ttlSeconds utcnow now) as = some s) :
    (Throughout (step rot) Current (init t ttlSeconds utcnow now) as ↔
      Along (step rot) (Renews rot) (init t ttlSeconds utcnow now) as) ∧
    (Along (step rot) (Renews rot) (init t ttlSeconds utcnow now) as →
      (∀ models, s.refreshes.cache.get s.refreshes.now = some models → ∃ f ∈ s.got, (f.heardAt, f.ids) ∈ s.heard ∧
        ModelCache.clean (f.ids.map .str) = models ∧ f.heardAt ≤ f.endedAt ∧
        s.refreshes.now - f.endedAt ≤ seconds (max 1 ttlSeconds)) ∧
      ∀ before a after s0 s1 p answer, as = before ++ a :: after →
        run (step rot) (init t ttlSeconds utcnow now) before = some s0 → s0.step rot a = some s1 →
        s0.ends rot a = some (p, answer) →
        (∀ ids, answer.models? = some ids → ModelCache.clean (ids.map .str) = []) →
        s1.refreshes.cache.get s1.refreshes.now = none) := by
  have hinit := init_sound t ttlSeconds utcnow now
  have hsound : ∀ {as s}, run (step rot) (init t ttlSeconds utcnow now) as = some s →
      s.Sound (max 1 ttlSeconds) := fun hrun =>
    run_inv' (I := fun s => Sound (max 1 ttlSeconds) s) (fun _ _ _ hs h => step_sound hs h) hinit hrun
  have hiff : Throughout (step rot) Current (init t ttlSeconds utcnow now) as ↔
      Along (step rot) (Renews rot) (init t ttlSeconds utcnow now) as :=
    throughout_iff_along (A := fun _ => True) (I := fun s => Sound (max 1 ttlSeconds) s)
      (fun _ _ _ hs h => step_sound hs h) (fun _ _ _ hs hq _ h => step_current_iff hs hq h) hinit
      (fun f hf => by cases hf) (fun _ _ => trivial) hrun
  refine ⟨hiff, fun hre => ⟨fun models hget => ?_, ?_⟩⟩
  · have hs := hsound hrun
    have hcur : s.Current := (hiff.mpr hre).last hrun
    obtain ⟨hmodels, -, hage⟩ := ModelCache.get_eq_some_iff.mp hget
    obtain ⟨f, hf, -, hclean⟩ := hs.stored models hmodels
    have hmem := List.mem_of_getLast? hf
    obtain ⟨hheard, hle⟩ := hs.honest f hmem
    refine ⟨f, hmem, hheard, hclean, hle, ?_⟩
    rw [hcur f hf, ← hs.cacheTtl]
    exact hage
  · intro before a after s0 s1 p answer has h0 h1 hends hfailed
    rw [has, along_append h0, along_cons h1] at hre
    exact step_failed (hsound h0) h1 hends hre.2.1 hfailed

/-- Upstream returns a list with one model in it. -/
def llama : Upstream :=
  .response ⟨200, [], "", .ok (.dict [("data", .list [.dict [("id", .str "llama")]])])⟩

/-- Request `p` finds nothing fresh and fetches the list with the only key; the
outcome is recorded. -/
def fetchedBy (p : ℕ) (u : Upstream) : List Action :=
  [.get p, .enter p, .run (.resume p .ok), .run (.resume p .ok), .run (.resume p (.answer u)),
    .run (.resume p .ok), .run (.resume p .ok)]

/-- The outcome takes a microsecond to record. The list is served for five
minutes from then. -/
def recorded : List Action :=
  [.get 0, .enter 0, .run (.resume 0 .ok), .run (.resume 0 .ok), .run (.resume 0 (.answer llama)), .run (.tick 1),
    .run (.resume 0 .ok), .run (.resume 0 .ok), .run (.tick 300000000)]

theorem served_recently_recorded :
    let s := (run (step Sample.rotation) (init World.soleKey 300 0 0) recorded).get (by decide)
    s.got = [⟨0, 1, ["llama"]⟩] ∧ ∃ f ∈ s.got, (f.heardAt, f.ids) ∈ s.heard ∧
      ModelCache.clean (f.ids.map .str) = ["llama"] ∧ f.heardAt ≤ f.endedAt ∧
        s.refreshes.now - f.endedAt ≤ seconds 300 := by
  intro s
  have hrun : run (step Sample.rotation) (init World.soleKey 300 0 0) recorded = some s := (Option.some_get _).symm
  exact ⟨by decide, ((served_recently hrun).2 (by decide)).1 ["llama"] (by decide)⟩

/-- The list has expired, and the fetch that should renew it gets a 500. -/
def fallenBack : List Action :=
  fetchedBy 0 llama ++ .run (.tick 301000000) :: fetchedBy 1 (Sample.reply 500) ++ [.run (.tick 300000000)]

/-- The failed fetch has made the list fresh again: it is served ten minutes
after upstream returned it. -/
theorem fallenBack_serves :
    ∃ s, run (step Sample.rotation) (init World.soleKey 300 0 0) fallenBack = some s ∧
      s.refreshes.cache.get s.refreshes.now = some ["llama"] ∧ s.heard = [(0, ["llama"])] ∧
      seconds 300 < s.refreshes.now - 0 := by
  let s := (run (step Sample.rotation) (init World.soleKey 300 0 0) fallenBack).get (by decide)
  exact ⟨s, (Option.some_get _).symm, by decide, by decide, by decide⟩

end Listing

end OllamaProxy
