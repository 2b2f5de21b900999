/-
# A rejected key is shown as healthy

A fetch that upstream rejects with 401 or 403 returns `unauthorised` and leaves
the cache as it is: `_cache_drop` exists, but nothing calls it. An entry from
before the rejection that is still fresh then answers the next call that is not
forced, with the status `ok`. So a key is reported as it should be as long as no
fetch is rejected while the cache has a fresh entry (`UsageLog.RejectsStale`);
only a forced fetch can be.

Key definitions: `UsageEvent`, `Rejected`, `Honest`, `UsageLog.Withheld`,
`UsageLog.RejectsStale`.
Key theorems: `step_withheld_iff`, `step_honest`, `not_ok_while_rejected`.
-/
import OllamaProxy.UsageIdentity

namespace OllamaProxy

open Kit

/-! ### What is seen of a key -/

/-- How a fetch ends upstream. -/
inductive Contact
  | succeeded
  | rejected
  | failed
deriving DecidableEq

def UsageFault.contact (fault : UsageFault) : Contact := if fault.rejects then .rejected else .failed

/-- A fetch for the id ends, or a call for the id returns a snapshot. -/
inductive UsageEvent
  | contact (id : ℕ) (result : Contact)
  | returned (id : ℕ) (status : UpstreamStatus)
deriving DecidableEq

/-- Upstream has rejected the key, and no fetch has succeeded since. -/
def Rejected (id : ℕ) (log : List UsageEvent) : Prop :=
  ∃ before after, log = before ++ .contact id .rejected :: after ∧ .contact id .succeeded ∉ after

/-- No snapshot with the status `ok` is returned for a key that is rejected. -/
def Honest (id : ℕ) (log : List UsageEvent) : Prop :=
  ∀ before after, log = before ++ .returned id .ok :: after → ¬ Rejected id before

section

variable {id : ℕ} {log : List UsageEvent} {e : UsageEvent}

theorem not_rejected_nil : ¬ Rejected id [] := by
  rintro ⟨before, after, h, -⟩
  cases before <;> cases h

theorem rejected_concat_iff : Rejected id (log ++ [e]) ↔
    e = .contact id .rejected ∨ (e ≠ .contact id .succeeded ∧ Rejected id log) := by
  constructor
  · rintro ⟨before, after, h, hno⟩
    rcases List.eq_nil_or_concat after with rfl | ⟨init, last, rfl⟩
    · exact Or.inl (List.singleton_inj.mp (List.append_inj' h rfl).2)
    · have hsplit : log ++ [e] = (before ++ .contact id .rejected :: init) ++ [last] := by simp [h]
      obtain ⟨hlog, hlast⟩ := List.append_inj' hsplit rfl
      have he : e = last := List.singleton_inj.mp hlast
      rw [List.concat_eq_append, List.mem_append, not_or] at hno
      exact Or.inr ⟨fun hs => hno.2 (by rw [← he, hs]; exact List.mem_singleton_self _), before, init, hlog, hno.1⟩
  · rintro (rfl | ⟨hs, before, after, rfl, hno⟩)
    · exact ⟨log, [], rfl, List.not_mem_nil⟩
    · refine ⟨before, after ++ [e], by simp, ?_⟩
      rw [List.mem_append, List.mem_singleton, not_or]
      exact ⟨hno, Ne.symm hs⟩

theorem honest_nil : Honest id [] := by
  intro before after h
  cases before <;> cases h

theorem honest_concat_iff : Honest id (log ++ [e]) ↔
    Honest id log ∧ (e = .returned id .ok → ¬ Rejected id log) := by
  constructor
  · intro h
    refine ⟨fun before after hlog => h before (after ++ [e]) (by simp [hlog]), ?_⟩
    rintro rfl
    exact h log [] rfl
  · rintro ⟨hlog, he⟩ before after h
    rcases List.eq_nil_or_concat after with rfl | ⟨init, last, rfl⟩
    · obtain ⟨rfl, hlast⟩ := List.append_inj' h rfl
      exact he (List.singleton_inj.mp hlast)
    · have hsplit : log ++ [e] = (before ++ .returned id .ok :: init) ++ [last] := by simp [h]
      exact hlog before init (List.append_inj' hsplit rfl).1

end

namespace Usage

/-- The call that the step is about. -/
def Action.caller : Action → Option ℕ
  | .fetch p _ _ _ | .enter p | .reply p _ | .cancel p => some p
  | .tick _ => none

/-- The end of a fetch by the step. -/
def contact (lib : UsageLibrary) (s : Usage) : Action → List UsageEvent
  | .reply p r =>
    match (s.calls p).pc with
    | .account _ =>
      match r.payload with
      | .ok _ => []
      | .error fault => [.contact (s.calls p).id fault.contact]
    | .usage _ account =>
      match r.payload.bind fun usage => parseSnapshot lib account usage s.utcnow with
      | .ok _ => [.contact (s.calls p).id .succeeded]
      | .error fault => [.contact (s.calls p).id fault.contact]
    | _ => []
  | _ => []

/-- The return of a call by the step. -/
def returned (lib : UsageLibrary) (s : Usage) (a : Action) : List UsageEvent :=
  match a.caller, s.step lib a with
  | some p, some s' =>
    match (s'.calls p).pc with
    | .done snap _ => [.returned (s'.calls p).id snap.upstreamStatus]
    | _ => []
  | _, _ => []

variable {lib : UsageLibrary} {s s' : Usage} {a : Action} {id : ℕ}

theorem returned_eq {p : ℕ} (h : s.step lib a = some s') (hp : a.caller = some p) {c : SnapshotCall}
    (hc : s'.calls p = c) :
    s.returned lib a =
      match c.pc with
      | .done snap _ => [.returned c.id snap.upstreamStatus]
      | _ => [] := by
  rw [returned, hp, h, ← hc]

theorem put_returned {p : ℕ} {x : UsageService × SnapshotPc} (h : s.step lib a = some (s.put p x))
    (hp : a.caller = some p) : s.returned lib a =
      match x.2 with
      | .done snap _ => [.returned (s.calls p).id snap.upstreamStatus]
      | _ => [] :=
  returned_eq h hp (put_calls_self p x)

/-- Only a fresh entry is returned from the cache, and only to a call that is not
forced. -/
theorem of_cached {service : UsageService} {c : SnapshotCall} {now : ℤ} {pc : SnapshotPc}
    (h : service.cached c now = some pc) : c.force = false ∧ service.cacheFresh c.id now = true := by
  rw [UsageService.cached, Option.ite_none_right_eq_some] at h
  simpa using h.1

theorem of_served {p i : ℕ} {apiKey : ApiKey} {force : Bool} {snap : KeyUsageSnapshot} {source : Option String}
    (h : s.step lib (.fetch p i apiKey force) = some s') (hdone : (s'.calls p).pc = .done snap source) :
    force = false ∧ s.service.cacheFresh i s.now = true := by
  simp only [step] at h
  split at h
  · cases hcached : s.service.cached ⟨i, apiKey, force, .queued⟩ s.now with
    | some pc => exact of_cached hcached
    | none =>
      rw [hcached] at h
      cases h
      rw [put_calls_self] at hdone
      cases hdone
  · cases h

theorem of_servedInside {p : ℕ} {snap : KeyUsageSnapshot} {source : Option String}
    (h : s.step lib (.enter p) = some s') (hdone : (s'.calls p).pc = .done snap source)
    (hok : snap.upstreamStatus = .ok) :
    (s.calls p).force = false ∧ s.service.cacheFresh (s.calls p).id s.now = true := by
  simp only [step] at h
  split at h
  · simp only [Option.ite_none_right_eq_some] at h
    obtain ⟨-, h⟩ := h
    cases h
    rw [put_calls_self] at hdone
    cases hcached : s.service.cached (s.calls p) s.now with
    | some pc => exact of_cached hcached
    | none =>
      simp only [UsageService.enter, hcached] at hdone
      cases hvault : lib.vault (s.calls p).apiKey.keyEncrypted with
      | error inner =>
        rw [hvault] at hdone
        cases hdone
        cases hok
      | ok rawKey =>
        rw [hvault] at hdone
        cases hdone
  · cases h

/-- What a fetch that raises returns is not `ok`. -/
theorem failed_ne_ok {service : UsageService} {c : SnapshotCall} {fault : UsageFault} {snap : KeyUsageSnapshot}
    {source : Option String} (h : service.failed lib c fault = .done snap source) : snap.upstreamStatus ≠ .ok := by
  unfold UsageService.failed at h
  split_ifs at h
  · cases h
    simp [bareSnapshot]
  · split at h
    · cases h
      simp [UsageSnapshot.toResponse, bareSnapshot]
    · cases h
      simp [bareSnapshot]

theorem contact_ne_succeeded (fault : UsageFault) : fault.contact ≠ .succeeded := by
  unfold UsageFault.contact
  split_ifs <;> simp

/-- What is seen of a step: no fetch ends, and `ok` is returned from a fresh
entry only; a fetch succeeds and stores its entry; or a fetch does not. -/
inductive Seen (lib : UsageLibrary) (s : Usage) (a : Action) (s' : Usage) : Prop
  | quiet (hcontact : s.contact lib a = []) (hcache : s'.service.cache = s.service.cache)
    (hreturned : ∀ id, .returned id .ok ∈ s.returned lib a → s.service.cacheFresh id s.now = true)
  | succeeds (i : ℕ) (hcontact : s.contact lib a = [.contact i .succeeded])
    (hcache : ∀ id, id ≠ i → s'.service.cache id = s.service.cache id)
    (hreturned : ∀ id, .returned id .ok ∈ s.returned lib a → id = i)
  | fails (i : ℕ) (result : Contact) (hresult : result ≠ .succeeded) (hcontact : s.contact lib a = [.contact i result])
    (hcache : s'.service.cache = s.service.cache) (hnow : s'.now = s.now)
    (hreturned : ∀ id, .returned id .ok ∉ s.returned lib a)

theorem step_seen (h : s.step lib a = some s') : Seen lib s a s' := by
  cases step_moves h with
  | served p i apiKey entry hidle hentry =>
    refine .quiet rfl rfl fun id hmem => ?_
    rw [returned_eq h rfl (Function.update_self _ _ _)] at hmem
    cases List.mem_singleton.mp hmem
    have hcall : Function.update s.calls p ⟨i, apiKey, false,
        .done (entry.snap.toResponse i apiKey .ok none) (some entry.rawKey)⟩ p = _ := Function.update_self _ _ _
    exact (of_served h (congrArg SnapshotCall.pc hcall)).2
  | waits p i apiKey force hidle =>
    refine .quiet rfl (getLock_cache s.service i) fun id hmem => ?_
    rw [returned_eq h rfl (Function.update_self _ _ _)] at hmem
    cases hmem
  | servedInside p entry hqueued hentry =>
    refine .quiet rfl rfl fun id hmem => ?_
    rw [put_returned h rfl] at hmem
    cases List.mem_singleton.mp hmem
    exact (of_servedInside h (congrArg SnapshotCall.pc (put_calls_self p _)) rfl).2
  | undecryptable p inner hqueued hvault =>
    refine .quiet rfl rfl fun id hmem => ?_
    rw [put_returned h rfl] at hmem
    cases List.mem_singleton.mp hmem
  | begins p rawKey hqueued hlock hstale hvault =>
    refine .quiet rfl rfl fun id hmem => ?_
    rw [put_returned h rfl] at hmem
    cases hmem
  | goesOn p r rawKey account hpc hreply =>
    refine .quiet (by simp [contact, hpc, hreply]) rfl fun id hmem => ?_
    rw [put_returned h rfl] at hmem
    cases hmem
  | stores p r rawKey account snap hpc hsnap =>
    refine .succeeds (s.calls p).id ?_ (fun id hid => Function.update_of_ne hid _ _) fun id hmem => ?_
    · simp only [contact, hpc, hsnap]
    · rw [put_returned h rfl] at hmem
      cases List.mem_singleton.mp hmem
      rfl
  | fails p r fault hfault =>
    refine .fails (s.calls p).id fault.contact (contact_ne_succeeded fault) ?_ rfl rfl fun id hmem => ?_
    · rcases hfault with ⟨rawKey, hpc, hreply⟩ | ⟨rawKey, account, hpc, hreply⟩ <;> simp only [contact, hpc, hreply]
    · obtain ⟨snap, source, hdone⟩ := failed_done lib s.service (s.calls p) fault
      have hreturned := put_returned h rfl
      simp only [UsageService.fail, hdone] at hreturned
      rw [hreturned] at hmem
      have hok := List.mem_singleton.mp hmem
      simp only [UsageEvent.returned.injEq] at hok
      exact failed_ne_ok hdone hok.2.symm
  | hangsUp p hqueued =>
    refine .quiet rfl rfl fun id hmem => ?_
    rw [put_returned h rfl] at hmem
    cases hmem
  | aborts p hfetching =>
    refine .quiet rfl rfl fun id hmem => ?_
    rw [put_returned h rfl] at hmem
    cases hmem
  | tick d =>
    refine .quiet rfl rfl fun id hmem => ?_
    cases hmem

theorem step_ttl (h : s.step lib a = some s') : s'.service.ttlSeconds = s.service.ttlSeconds := by
  cases step_moves h with
  | waits p i apiKey force hidle => exact getLock_ttl s.service i
  | _ => rfl

theorem step_now_le (h : s.step lib a = some s') : s.now ≤ s'.now := by
  cases step_moves h with
  | tick d =>
    show s.now ≤ s.now + d
    omega
  | _ => exact le_rfl

end Usage

/-- The service with a log of what is seen of its keys. -/
structure UsageLog where
  usage : Usage
  log : List UsageEvent

namespace UsageLog

def init (ttlSeconds now utcnow : ℤ) : UsageLog := ⟨.init ttlSeconds now utcnow, []⟩

def step (lib : UsageLibrary) (s : UsageLog) (a : Usage.Action) : Option UsageLog :=
  (s.usage.step lib a).map fun u => ⟨u, s.log ++ s.usage.contact lib a ++ s.usage.returned lib a⟩

/-- A rejected key has no fresh entry, with which a call could be answered. -/
def Withheld (id : ℕ) (s : UsageLog) : Prop :=
  Rejected id s.log → s.usage.service.cacheFresh id s.usage.now = false

/-- A fetch is rejected only while the cache has no fresh entry. -/
def RejectsStale (lib : UsageLibrary) (id : ℕ) (s : UsageLog) (a : Usage.Action) : Prop :=
  .contact id .rejected ∈ s.usage.contact lib a → s.usage.service.cacheFresh id s.usage.now = false

instance (lib : UsageLibrary) (id : ℕ) (s : UsageLog) (a : Usage.Action) : Decidable (s.RejectsStale lib id a) :=
  inferInstanceAs (Decidable (_ → _))

variable {lib : UsageLibrary} {s s' : UsageLog} {a : Usage.Action} {id : ℕ}

theorem step_eq (h : s.step lib a = some s') :
    ∃ u, s.usage.step lib a = some u ∧
      s' = ⟨u, s.log ++ s.usage.contact lib a ++ s.usage.returned lib a⟩ := by
  obtain ⟨u, hu, rfl⟩ := Option.map_eq_some_iff.mp h
  exact ⟨u, hu, rfl⟩

/-- A call returns at most one snapshot. -/
theorem returned_cases (lib : UsageLibrary) (s : Usage) (a : Usage.Action) :
    s.returned lib a = [] ∨ ∃ i status, s.returned lib a = [.returned i status] := by
  unfold Usage.returned
  split
  · split
    · exact Or.inr ⟨_, _, rfl⟩
    · exact Or.inl rfl
  · exact Or.inl rfl

/-- A return is no contact. -/
theorem rejected_append_returned (lib : UsageLibrary) (s : Usage) (a : Usage.Action) (log : List UsageEvent) :
    Rejected id (log ++ s.returned lib a) ↔ Rejected id log := by
  rcases returned_cases lib s a with hr | ⟨i, status, hr⟩
  · rw [hr, List.append_nil]
  · rw [hr, rejected_concat_iff]
    simp

/-- An entry that is kept does not become fresh again. -/
theorem fresh_of_step {s s' : Usage} (h : s.step lib a = some s')
    (hcache : s'.service.cache id = s.service.cache id) (hfresh : s'.service.cacheFresh id s'.now = true) :
    s.service.cacheFresh id s.now = true := by
  have httl := Usage.step_ttl h
  have hnow := Usage.step_now_le h
  unfold UsageService.cacheFresh at hfresh ⊢
  rw [hcache, httl] at hfresh
  cases hentry : s.service.cache id with
  | none =>
    rw [hentry] at hfresh
    cases hfresh
  | some entry =>
    rw [hentry] at hfresh
    simp only [decide_eq_true_eq] at hfresh ⊢
    omega

theorem stale_of_step {s s' : Usage} (h : s.step lib a = some s')
    (hcache : s'.service.cache id = s.service.cache id) (hstale : s.service.cacheFresh id s.now = false) :
    s'.service.cacheFresh id s'.now = false := by
  rw [Bool.eq_false_iff] at hstale ⊢
  exact fun hfresh => hstale (fresh_of_step h hcache hfresh)

/-- A rejected key has no fresh entry after a step exactly if the step rejects
none that has one. -/
theorem step_withheld_iff (hq : s.Withheld id) (h : s.step lib a = some s') :
    s'.Withheld id ↔ s.RejectsStale lib id a := by
  obtain ⟨u, hu, rfl⟩ := step_eq h
  unfold Withheld RejectsStale
  simp only
  rw [rejected_append_returned]
  cases Usage.step_seen hu with
  | quiet hcontact hcache hreturned =>
    rw [hcontact, List.append_nil]
    exact iff_of_true (fun hr => stale_of_step hu (congrFun hcache id) (hq hr)) (fun hmem => by cases hmem)
  | succeeds i hcontact hcache hreturned =>
    rw [hcontact, rejected_concat_iff]
    refine iff_of_true ?_ (fun hmem => by cases List.mem_singleton.mp hmem)
    rintro (he | ⟨hne, hr⟩)
    · cases he
    · have hid : id ≠ i := fun hid => hne (by rw [hid])
      exact stale_of_step hu (hcache id hid) (hq hr)
  | fails i result hresult hcontact hcache hnow hreturned =>
    rw [hcontact, rejected_concat_iff, List.mem_singleton]
    have hfresh : u.service.cacheFresh id u.now = s.usage.service.cacheFresh id s.usage.now := by
      rw [UsageService.cacheFresh, UsageService.cacheFresh, hcache, hnow, Usage.step_ttl hu]
    rw [hfresh]
    constructor
    · exact fun h' he => h' (Or.inl he.symm)
    · rintro h' (he | ⟨-, hr⟩)
      · exact h' he.symm
      · exact hq hr

/-- While a rejected key has no fresh entry, it is not reported as healthy. -/
theorem step_honest (hq : s.Withheld id) (hh : Honest id s.log) (h : s.step lib a = some s') : Honest id s'.log := by
  obtain ⟨u, hu, rfl⟩ := step_eq h
  have hcontact : Honest id (s.log ++ s.usage.contact lib a) := by
    cases Usage.step_seen hu with
    | quiet hcontact hcache hreturned => rwa [hcontact, List.append_nil]
    | succeeds i hcontact hcache hreturned =>
      rw [hcontact, honest_concat_iff]
      exact ⟨hh, fun he => by cases he⟩
    | fails i result hresult hcontact hcache hnow hreturned =>
      rw [hcontact, honest_concat_iff]
      exact ⟨hh, fun he => by cases he⟩
  rcases returned_cases lib s.usage a with hr | ⟨i, status, hr⟩
  · rwa [hr, List.append_nil]
  · rw [hr, honest_concat_iff]
    refine ⟨hcontact, ?_⟩
    intro he
    have hmem : .returned id .ok ∈ s.usage.returned lib a := by
      rw [hr, he]
      exact List.mem_singleton_self _
    cases Usage.step_seen hu with
    | quiet hcontact hcache hreturned =>
      rw [hcontact, List.append_nil]
      intro hrejected
      have hstale := hq hrejected
      rw [hreturned id hmem] at hstale
      cases hstale
    | succeeds j hcontact hcache hreturned =>
      rw [hcontact, rejected_concat_iff, hreturned id hmem]
      rintro (he' | ⟨hne, -⟩)
      · cases he'
      · exact hne rfl
    | fails j result hresult hcontact hcache hnow hreturned => exact absurd hmem (hreturned id)

theorem init_withheld (ttlSeconds now utcnow : ℤ) : (init ttlSeconds now utcnow).Withheld id :=
  fun h => absurd h not_rejected_nil

/-- In every state of a run a rejected key has no fresh entry exactly if no fetch
for it is rejected while the cache has one; then no snapshot returned between a
rejection and the next success is `ok`. -/
theorem not_ok_while_rejected {ttlSeconds now utcnow : ℤ} {as : List Usage.Action}
    (hrun : run (step lib) (init ttlSeconds now utcnow) as = some s) (id : ℕ) :
    (Throughout (step lib) (Withheld id) (init ttlSeconds now utcnow) as ↔
      Along (step lib) (RejectsStale lib id) (init ttlSeconds now utcnow) as) ∧
    (Along (step lib) (RejectsStale lib id) (init ttlSeconds now utcnow) as → Honest id s.log) := by
  refine ⟨throughout_iff_along (A := fun _ => True) (I := fun _ => True) (fun _ _ _ _ _ => trivial)
    (fun _ _ _ _ hq _ h => step_withheld_iff hq h) trivial (init_withheld ttlSeconds now utcnow)
    (fun _ _ => trivial) hrun, fun hstale => ?_⟩
  have hinv : s.Withheld id ∧ Honest id s.log :=
    run_inv (I := fun s => s.Withheld id ∧ Honest id s.log)
      (fun _ _ _ hI hP h => ⟨(step_withheld_iff hI.1 h).mpr hP, step_honest hI.1 hI.2 h⟩)
      ⟨init_withheld ttlSeconds now utcnow, honest_nil⟩ hstale hrun
  exact hinv.2

namespace Sample

/-- One call for key 1. -/
def call (p : ℕ) (force : Bool) (replies : List UsageReply) : List Usage.Action :=
  .fetch p 1 (.new "a" "a" "a" none 0) force :: .enter p :: replies.map (.reply p)

def rejection : UsageReply := .response ⟨401, [], "", .ok (.dict [])⟩

/-- Upstream rejects the key, and then accepts it again. -/
def accepted : List Usage.Action :=
  call 0 false [rejection] ++ [.tick 1000000] ++ call 1 false [Usage.Sample.answer, Usage.Sample.answer]

theorem not_ok_while_rejected_accepted :
    let s := (run (step Usage.Sample.library) (init 300 0 0) accepted).get (by decide)
    s.log = [.contact 1 .rejected, .returned 1 .unauthorised, .contact 1 .succeeded, .returned 1 .ok] ∧
      Honest 1 s.log := by
  intro s
  have hrun : run (step Usage.Sample.library) (init 300 0 0) accepted = some s := (Option.some_get _).symm
  exact ⟨by decide, (not_ok_while_rejected hrun 1).2 (by decide)⟩

/-- A second after a success a forced fetch is rejected, and a second later the
next call is answered from the cache. -/
def forced : List Usage.Action :=
  call 0 false [Usage.Sample.answer, Usage.Sample.answer] ++ [.tick 1000000] ++ call 1 true [rejection] ++
    [.tick 1000000, .fetch 2 1 (.new "a" "a" "a" none 0) false]

theorem forced_not_honest :
    ∃ s, run (step Usage.Sample.library) (init 300 0 0) forced = some s ∧ ¬ Honest 1 s.log := by
  refine ⟨(run (step Usage.Sample.library) (init 300 0 0) forced).get (by decide), (Option.some_get _).symm, ?_⟩
  have hlog : ((run (step Usage.Sample.library) (init 300 0 0) forced).get (by decide)).log =
      [.contact 1 .succeeded, .returned 1 .ok, .contact 1 .rejected, .returned 1 .unauthorised] ++
        [.returned 1 .ok] := by decide
  rw [hlog, honest_concat_iff]
  rintro ⟨-, hno⟩
  exact hno rfl ⟨[.contact 1 .succeeded, .returned 1 .ok], [.returned 1 .unauthorised], rfl, by decide⟩

end Sample

end UsageLog

end OllamaProxy
