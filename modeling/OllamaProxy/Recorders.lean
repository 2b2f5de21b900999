/-
# The recorders that a request calls

A pending commit is a call of one of the five `record_*` methods
(`Recorder.Calls`): the chat path, the model-list path and the probes make no
other. In a run every pending commit is such a call (`step_calling`), and it
belongs to the upstream answer that the request got on its last turn
(`Move.dispatched`).

`commitsOn` is the recorder whose commit a step lets take effect on a row, and
`RowChange` what else a step may do to it.

Key definitions: `Method`, `Recorder.Calls`, `World.commitsOn`, `RowChange`,
`World.reselects`.
Key theorems: `dispatch_calls`, `classify_calls`, `Move.dispatched`,
`step_calling`, `step_change`, `step_selects`, `step_keyUse`.
-/
import OllamaProxy.Withdrawal

namespace OllamaProxy

open Kit

/-- The methods `record_success`, `record_success_with_usage` and so on. -/
inductive Method
  | success
  | successWithUsage
  | unauthorized
  | rateLimited
  | serverError
deriving DecidableEq

/-- The recorder is a call of the method. -/
inductive Recorder.Calls : Recorder → Method → Prop
  | success (now : ℤ) (code : ℕ) : Calls (.update (recordSuccess now code)) .success
  | successWithUsage (u : UsageCall) : Calls (.usage u) .successWithUsage
  | unauthorized (now : ℤ) (code : ℕ) : Calls (.update (recordUnauthorized now code)) .unauthorized
  | rateLimited (now : ℤ) (code : ℕ) (retryAfter : ℤ) (v : KeyValues)
    (hv : recordRateLimited now code retryAfter = .ok v) : Calls (.update v) .rateLimited
  | serverError (now : ℤ) (code : ℕ) : Calls (.update (recordServerError now code)) .serverError

theorem recordRateLimited_counts {now retryAfter : ℤ} {code : ℕ} {v : KeyValues}
    (h : recordRateLimited now code retryAfter = .ok v) : v.totalRequests = 0 ∧ v.totalFailures = 1 := by
  unfold recordRateLimited at h
  cases hc : addSeconds now (max 1 retryAfter) with
  | error e =>
    rw [hc] at h
    cases h
  | ok cooldown =>
    rw [hc] at h
    cases h
    exact ⟨rfl, rfl⟩

section

variable (rot : Rotation) (now : ℤ)

theorem recordRetryAfter_calls (pyFloat : String → Option PyFloat) {r : Response} {ret ret' : Return}
    {rec : Recorder} (h : recordRetryAfter pyFloat now r ret = .record rec ret') :
    ∃ m, rec.Calls m := by
  unfold recordRetryAfter at h
  split at h
  · cases h
  · rename_i retryAfter hretry
    cases hv : recordRateLimited now r.statusCode retryAfter with
    | error e =>
      rw [hv] at h
      cases h
    | ok v =>
      rw [hv] at h
      cases h
      exact ⟨_, .rateLimited now r.statusCode retryAfter v hv⟩

theorem recordChatSuccess_calls {stream : Bool} {r : Response} {ret : Return} {rec : Recorder}
    (h : recordChatSuccess stream now r = .record rec ret) : ∃ m, rec.Calls m := by
  unfold recordChatSuccess at h
  simp only at h
  split at h
  · cases h
  · split_ifs at h
    · cases h
      exact ⟨_, .successWithUsage _⟩
    · cases h
      exact ⟨_, .success now r.statusCode⟩

theorem dispatchOne_calls {stream : Bool} {u : Upstream} {ret : Return} {rec : Recorder}
    (h : dispatchOne rot stream now u = .record rec ret) : ∃ m, rec.Calls m := by
  cases u with
  | transport =>
    cases h
    exact ⟨_, .serverError now 0⟩
  | raised => cases h
  | response r =>
    simp only [dispatchOne] at h
    split_ifs at h with hsuccess hdead h404 h429 h500
    · exact recordChatSuccess_calls now h
    · cases h
      exact ⟨_, .unauthorized now r.statusCode⟩
    · exact recordRetryAfter_calls now rot.pyFloat h
    · cases h
      exact ⟨_, .serverError now r.statusCode⟩

theorem fetchModels_calls {u : Upstream} {ret : Return} {rec : Recorder}
    (h : fetchModels rot now u = .record rec ret) : ∃ m, rec.Calls m := by
  cases u with
  | transport =>
    cases h
    exact ⟨_, .serverError now 0⟩
  | raised => cases h
  | response r =>
    simp only [fetchModels] at h
    split_ifs at h with hsuccess hdead h429 h500
    · split at h
      · cases h
      · cases h
        exact ⟨_, .success now 200⟩
    · cases h
      exact ⟨_, .unauthorized now r.statusCode⟩
    · exact recordRetryAfter_calls now rot.pyFloat h
    · cases h
      exact ⟨_, .serverError now r.statusCode⟩

theorem dispatch_calls {q : Request} {u : Upstream} {ret : Return} {rec : Recorder}
    (h : q.dispatch rot now u = .record rec ret) : ∃ m, rec.Calls m := by
  unfold Request.dispatch at h
  split at h
  · exact dispatchOne_calls rot now h
  · exact fetchModels_calls rot now h

theorem classify_calls (pyFloat : String → Option PyFloat) {code : ℕ} {headers : Headers} {v : KeyValues}
    (h : classify pyFloat now code headers = some v) : ∃ m, (Recorder.update v).Calls m := by
  unfold classify at h
  split_ifs at h with hsuccess hdead h429 h500
  · cases h
    exact ⟨_, .success now code⟩
  · cases h
    exact ⟨_, .unauthorized now code⟩
  · split at h
    · cases h
    · rename_i retryAfter hretry
      cases hv : recordRateLimited now code retryAfter with
      | error e =>
        rw [hv] at h
        cases h
      | ok v' =>
        rw [hv] at h
        cases h
        exact ⟨_, .rateLimited now code retryAfter v hv⟩
  · cases h
    exact ⟨_, .serverError now code⟩

end

namespace Turn

variable {rot : Rotation} {now : ℤ} {p : ℕ} {x x' : Turn} {ev : Event}

theorem Move.of_upstream {rawKey : String} (h : Move rot now p x ev x')
    (hpc : x.request.pc = .upstream rawKey) :
    ∃ copy, x.request.key = some copy ∧ AnswerMove rot now x copy ev x' := by
  cases h with
  | answer rawKey' copy hpc' hkey h => exact ⟨copy, hkey, h⟩
  | quit answer hpc' hev ha =>
    rcases hpc' with hpc' | hpc' | ⟨deadline, hpc'⟩ <;> rw [hpc'] at hpc <;> cases hpc
  | pick h =>
    have hheld := h.holdsLock
    rw [hpc] at hheld
    cases hheld
  | record copy hpc' hkey h =>
    rw [hpc] at hpc'
    cases hpc'
  | counted hpc' | acquired hpc' | slept _ hpc' | woke _ hpc' =>
    rw [hpc'] at hpc
    cases hpc

/-- A request goes to a commit by an upstream answer, with the key it called. -/
theorem Move.dispatched (h : Move rot now p x ev x') {rec : Recorder} {ret : Return}
    (hpc : x'.request.pc = .commit rec ret) :
    ∃ rawKey u, x.request.pc = .upstream rawKey ∧ ev = .answer u ∧
      x.request.dispatch rot now u = .record rec ret ∧ x'.request.key = x.request.key ∧
      x'.table = x.table := by
  cases h.reaches with
  | commits rawKey rec' ret' hold hpc' hkey ht =>
    obtain ⟨copy, -, hmove⟩ := h.of_upstream hold
    cases hmove with
    | answered u rec'' ret'' hd =>
      cases hpc
      exact ⟨rawKey, u, hold, rfl, hd, rfl, rfl⟩
    | unrecorded u ret'' hd =>
      cases (Request.returned_rests _ _).not_holds hpc rfl
    | unread u e hd => cases hpc
    | hungUp written expired => cases hpc
  | rests hpc' => rcases hpc' with hc | ⟨answer, hc⟩ <;> rw [hc] at hpc <;> cases hpc
  | waits _ hpc' | loads hpc' | reactivates hpc' | reloads hpc' | calls _ _ hpc' | refreshes _ hpc' =>
    rw [hpc'] at hpc
    cases hpc

end Turn

namespace World

variable {rot : Rotation} {w w' : World} {a : Action}

/-- Every pending commit is a call of a `record_*` method. -/
def Calling (w : World) : Prop :=
  ∀ p rec ret, (w.requests p).pc = .commit rec ret → ∃ m, rec.Calls m

theorem step_calling (hs : w.Sound) (hw : w.Calling) (h : w.step rot a = some w') : w'.Calling := by
  intro r rec ret hpc
  cases step_request hs h r with
  | keeps hturn hreq =>
    rw [hreq] at hpc
    exact hw r rec ret hpc
  | starts kind hturn hidle htable hreq =>
    rw [hreq] at hpc
    cases kind <;> cases hpc
  | turns ev x' ha hw' hm =>
    rw [hw', put_requests_self] at hpc
    obtain ⟨-, u, -, -, hd, -⟩ := hm.dispatched hpc
    exact dispatch_calls rot w.now hd

theorem init_calling (t : KeyTable) (now : ℤ) : (init t now).Calling := by
  intro p rec ret hpc
  cases hpc

end World

/-! ### What a step does to a row -/

def Action.deletes : Action → Bool
  | .admin (.deleteKey _) => true
  | _ => false

/-- The recorder whose commit takes effect on the row of key `id`. -/
def World.commitsOn (rot : Rotation) (id : ℕ) (w : World) : Action → Option Recorder
  | .resume p ev =>
    match (w.requests p).pc, (w.requests p).key with
    | .commit rec _, some copy =>
      if (ev.writes && rec.fits copy.row) = true ∧ copy.id = id ∧ (w.table.get? id).isSome = true then some rec
      else none
    | _, _ => none
  | .admin (.probe i _ code headers) =>
    if i = id ∧ (w.table.get? id).isSome = true then
      (classify rot.pyFloat w.now code headers).map .update
    else none
  | _ => none

/-- A step on the row of one key. -/
inductive RowChange (rot : Rotation) (w : World) (a : Action) (id : ℕ) : Option ApiKey → Prop
  | keeps (hoff : w.commitsOn rot id a = none) (ha : a ≠ .admin .resetKeyStates) :
    RowChange rot w a id (w.table.get? id)
  | restates (row : ApiKey) (label : Option String) (status : ApiKeyStatus) (cooldownUntil : Option ℤ)
    (updatedAt : ℤ) (hoff : w.commitsOn rot id a = none) (ha : a ≠ .admin .resetKeyStates)
    (hrow : w.table.get? id = some row) :
    RowChange rot w a id (some { row with
      label := label
      status := status
      cooldownUntil := cooldownUntil
      updatedAt := updatedAt })
  | creates (keyHash keyPrefix keyEncrypted : String) (label : Option String)
    (ha : a = .admin (.createKey keyHash keyPrefix keyEncrypted label)) (hid : id = w.table.nextId) :
    RowChange rot w a id (some (.new keyHash keyPrefix keyEncrypted label w.now))
  | deletes (ha : a.deletes = true) : RowChange rot w a id none
  | resets (ha : a = .admin .resetKeyStates) : RowChange rot w a id ((w.table.get? id).map fun row =>
      { row with
        status := .active
        cooldownUntil := none
        lastStatusCode := none
        totalFailures := 0
        updatedAt := w.now })
  | commits (rec : Recorder) (m : Method) (copy row : ApiKey) (hon : w.commitsOn rot id a = some rec)
    (hcalls : rec.Calls m) (hrow : w.table.get? id = some row)
    (hcopy : (∃ v, rec = .update v) ∨ ∃ p ret c, a.isTurnOf p = true ∧ (w.requests p).pc = .commit rec ret ∧
      (w.requests p).key = some c ∧ c.id = id ∧ c.row = copy) :
    RowChange rot w a id (some (rec.write copy row))

namespace World

variable {rot : Rotation} {w w' : World} {a : Action} {id : ℕ}

theorem commitsOn_resume {p : ℕ} {ev : Event} {rec : Recorder} (h : w.commitsOn rot id (.resume p ev) = some rec) :
    ∃ ret copy row, (w.requests p).pc = .commit rec ret ∧ (w.requests p).key = some copy ∧ copy.id = id ∧
      w.table.get? id = some row := by
  simp only [commitsOn] at h
  split at h
  · rename_i rec' ret copy hpc hkey
    split_ifs at h with hon
    cases h
    obtain ⟨row, hrow⟩ := Option.isSome_iff_exists.mp hon.2.2
    exact ⟨ret, copy, row, hpc, hkey, hon.2.1, hrow⟩
  · cases h

/-- An operation that leaves the row commits nothing on it. -/
theorem commitsOn_of_misses {op : AdminOp} (h : op.Misses rot.pyFloat w.now w.table id) :
    w.commitsOn rot id (.admin op) = none := by
  cases op with
  | createKey keyHash keyPrefix keyEncrypted label => rfl
  | updateKey i seen label status => rfl
  | deleteKey i => rfl
  | resetKeyStates => rfl
  | probe i seen code headers =>
    simp only [commitsOn]
    split_ifs with hi
    · rcases h hi.1 with hc | hrow
      · rw [hc, Option.map_none]
      · rw [hrow] at hi
        cases hi.2
    · rfl

theorem admin_change (op : AdminOp) :
    RowChange rot w (.admin op) id ((op.apply rot.pyFloat w.now w.table).get? id) := by
  have hrow := op.apply_row rot.pyFloat w.now w.table id
  generalize (op.apply rot.pyFloat w.now w.table).get? id = row' at hrow
  cases hrow with
  | keeps _ hmiss =>
    refine .keeps (commitsOn_of_misses hmiss) ?_
    rintro h
    cases h
    exact hmiss
  | creates keyHash keyPrefix keyEncrypted label hid => exact .creates _ _ _ _ rfl hid
  | updates seen row label status hrow => exact .restates row _ _ row.cooldownUntil _ rfl (by simp) hrow
  | deletes => exact .deletes rfl
  | resets => exact .resets rfl
  | records seen row code headers v hv hrow =>
    have hon : w.commitsOn rot id (.admin (.probe id seen code headers)) = some (.update v) := by
      simp [commitsOn, hrow, hv]
    obtain ⟨m, hm⟩ := classify_calls w.now rot.pyFloat hv
    exact .commits _ m seen row hon hm hrow (Or.inl ⟨v, rfl⟩)

/-- The turn of a request that has no commit pending on the key. -/
theorem turn_change {p : ℕ} {ev : Event} (hs : w.Sound) (h : w.step rot (.resume p ev) = some w')
    (hno : ∀ rec ret copy, (w.requests p).pc = .commit rec ret → (w.requests p).key = some copy →
      copy.id = id → w.table.get? id = none) :
    RowChange rot w (.resume p ev) id (w'.table.get? id) := by
  have hoff : w.commitsOn rot id (.resume p ev) = none := by
    simp only [commitsOn]
    split
    · rename_i rec ret copy hpc hkey
      refine if_neg fun hon => ?_
      rw [hno rec ret copy hpc hkey hon.2.1] at hon
      cases hon.2.2
    · rfl
  have hrow := step_row hs h rfl id
  generalize w'.table.get? id = row' at hrow
  cases hrow with
  | keeps => exact .keeps hoff (by simp)
  | reactivates q updateNow row hturn hpc hrow hcool =>
    exact .restates row row.label _ _ _ hoff (by simp) hrow
  | commits q rec ret copy row hturn hpc hkey hid hrow =>
    have hq : p = q := of_decide_eq_true hturn
    subst hq
    cases (hno rec ret copy hpc hkey hid).symm.trans hrow

theorem step_change (hs : w.Sound) (hw : w.Calling) (h : w.step rot a = some w') (id : ℕ) :
    RowChange rot w a id (w'.table.get? id) := by
  cases a with
  | start p kind =>
    obtain ⟨-, rfl⟩ := step_start h
    exact .keeps rfl (by simp)
  | tick d =>
    cases h
    exact .keeps rfl (by simp)
  | admin op =>
    cases h
    exact admin_change op
  | resume p ev =>
    by_cases hpending : ∃ rec ret copy row, (w.requests p).pc = .commit rec ret ∧
        (w.requests p).key = some copy ∧ copy.id = id ∧ w.table.get? id = some row
    · obtain ⟨rec, ret, copy, row, hpc, hkey, rfl, hrow⟩ := hpending
      rw [commit_row hpc hkey hrow h]
      by_cases hev : (ev.writes && rec.fits copy.row) = true
      · have hon : w.commitsOn rot copy.id (.resume p ev) = some rec := by
          simp only [commitsOn, hpc, hkey, hev, hrow]
          rfl
        obtain ⟨m, hm⟩ := hw p rec ret hpc
        rw [if_pos hev]
        exact .commits rec m copy.row row hon hm hrow
          (Or.inr ⟨p, ret, copy, by simp [Action.isTurnOf], hpc, hkey, rfl, rfl⟩)
      · have hoff : w.commitsOn rot copy.id (.resume p ev) = none := by
          simp only [commitsOn, hpc, hkey]
          exact if_neg fun hon => hev hon.1
        rw [if_neg hev, ← hrow]
        exact .keeps hoff (by simp)
    · refine turn_change hs h fun rec ret copy hpc hkey hid => ?_
      rw [Option.eq_none_iff_forall_ne_some]
      exact fun row hrow => hpending ⟨rec, ret, copy, row, hpc, hkey, hid, hrow⟩

/-! ### The copy a request goes to its call with -/

/-- A selection returns a key of which the session already has a copy: this
copy, and the row. -/
def reselects (w : World) (p : ℕ) : Option (Copy × ApiKey) :=
  match (w.requests p).pc with
  | .load | .reload =>
    match (w.manager.choose (loadActive w.table)).1, (w.requests p).key with
    | some (id, row), some copy => if copy.id = id ∧ copy.expired = false then some (copy, row) else none
    | _, _ => none
  | _ => none

theorem reselects_eq {p : ℕ} (hpc : (w.requests p).pc = .load ∨ (w.requests p).pc = .reload) :
    w.reselects p = (w.manager.choose (loadActive w.table)).1.bind fun x => (w.requests p).key.bind fun copy =>
      if copy.id = x.1 ∧ copy.expired = false then some (copy, x.2) else none := by
  unfold reselects
  rcases hpc with hpc | hpc <;> rw [hpc] <;>
    cases (w.manager.choose (loadActive w.table)).1 <;> cases (w.requests p).key <;> rfl

theorem copyOf_eq {p id : ℕ} {row : ApiKey} {m : KeyManager} (hpc : (w.turn p).Selects)
    (hchoose : w.manager.choose (loadActive w.table) = (some (id, row), m)) :
    (w.requests p).copyOf id row = ⟨id, row, false⟩ ∨
      w.reselects p = some ((w.requests p).copyOf id row, row) := by
  have hpc' : (w.requests p).pc = .load ∨ (w.requests p).pc = .reload := hpc.imp_left And.left
  rw [reselects_eq hpc', hchoose, Option.bind_some]
  cases hkey : (w.requests p).key with
  | none => exact Or.inl (by simp only [Request.copyOf, hkey])
  | some copy =>
    have hcopy : (w.requests p).copyOf id row =
        if copy.id = id ∧ copy.expired = false then copy else ⟨id, row, false⟩ := by
      simp only [Request.copyOf, hkey]
    rw [hcopy, Option.bind_some]
    by_cases hc : copy.id = id ∧ copy.expired = false
    · rw [if_pos hc, if_pos hc]
      exact Or.inr rfl
    · exact Or.inl (if_neg hc)

end World

namespace Turn

variable {rot : Rotation} {now : ℤ} {p : ℕ} {x x' : Turn} {ev : Event} {rawKey : String}

theorem PickMove.selected (h : PickMove rot now x ev x') (hpc : x'.request.pc = .upstream rawKey) :
    ev = .ok ∧ x'.table = x.table ∧ ∃ id row m, x.Selects ∧
      x.manager.choose (loadActive x.table) = (some (id, row), m) ∧
      rot.vault (x.request.copyOf id row).row.keyEncrypted = some rawKey ∧
      x'.request.key = some (x.request.copyOf id row) := by
  cases h with
  | attempted id row m rawKey' hsel hchoose hvault =>
    cases hpc
    exact ⟨rfl, rfl, id, row, m, hsel, hchoose, hvault, rfl⟩
  | missed hsel hall =>
    rcases Request.noKey_pc x.request now with ⟨answer, hc⟩ | hc <;> rw [hc] at hpc <;> cases hpc
  | skipped id row m hsel hchoose hvault =>
    cases (Request.returned_rests _ _).not_holds hpc rfl
  | emptied hpc' hempty => cases hpc
  | reactivated updateNow hpc' => cases hpc
  | left answer t hpc' hev ht ha => cases hpc

/-- A request goes to its call by a selection. -/
theorem Move.selected (h : Move rot now p x ev x') (hpc : x'.request.pc = .upstream rawKey) :
    PickMove rot now x ev x' := by
  cases h with
  | pick h => exact h
  | counted hpc' =>
    cases (Request.nextIteration_rests _).not_holds hpc rfl
  | woke deadline hpc' =>
    cases (Request.nextIteration_rests _).not_holds hpc rfl
  | quit answer hpc' hev ha => cases hpc
  | acquired hpc' hlock => cases hpc
  | slept deadline hpc' => cases hpc'.symm.trans hpc
  | answer rawKey' copy hpc' hkey h =>
    cases h with
    | unrecorded u ret hd =>
      cases (Request.returned_rests _ _).not_holds hpc rfl
    | answered u rec ret hd => cases hpc
    | unread u e hd => cases hpc
    | hungUp written expired => cases hpc
  | record copy hpc' hkey h =>
    cases h with
    | recordedUsage u ret t hc hcommit =>
      cases (Request.returned_rests _ _).not_holds hpc rfl
    | refreshed ret row hc hrow =>
      cases (Request.returned_rests _ _).not_holds hpc rfl
    | recorded v ret t hc hcommit => cases hpc
    | cancelled written rec ret t hc ht => cases hpc
    | leaked t hev ht => cases hpc

end Turn

namespace World

variable {rot : Rotation} {w w' : World} {a : Action}

/-- It has a copy of the row that it has just loaded or had before. -/
theorem step_selects (hs : w.Sound) (h : w.step rot a = some w') {p : ℕ} {rawKey : String}
    (hpc : (w'.requests p).pc = .upstream rawKey) :
    (a.isTurnOf p = false ∧ w'.requests p = w.requests p) ∨
      a = .resume p .ok ∧ w'.table = w.table ∧ ∃ copy row, (w'.requests p).key = some copy ∧
        w.table.get? copy.id = some row ∧ rot.vault copy.row.keyEncrypted = some rawKey ∧
        (copy.row = row ∨ w.reselects p = some (copy, row)) := by
  cases step_request hs h p with
  | keeps hturn hreq => exact Or.inl ⟨hturn, hreq⟩
  | starts kind hturn hidle htable hreq =>
    rw [hreq] at hpc
    cases kind <;> cases hpc
  | turns ev x' ha hw' hm =>
    rw [hw', put_requests_self] at hpc
    obtain ⟨rfl, htable, id, row, m, hsel, hchoose, hvault, hkey⟩ := (hm.selected hpc).selected hpc
    refine Or.inr ⟨ha, by rw [hw', put_table, htable]; rfl, _, row, ?_, ?_, hvault, ?_⟩
    · rw [hw', put_requests_self, hkey]
    · rw [Request.copyOf_id]
      exact (mem_loadActive.mp (choose_mem hchoose)).1
    · rcases copyOf_eq hsel hchoose with hnew | hre
      · exact Or.inl (congrArg Copy.row hnew)
      · exact Or.inr hre

/-- How the request `p` comes to use the key of its copy in a step. -/
inductive KeyUse (rot : Rotation) (w : World) (a : Action) (w' : World) (p : ℕ) (copy : Copy) : Prop
  | stays (hturn : a.isTurnOf p = false) (hreq : w'.requests p = w.requests p)
  | selects (row : ApiKey) (ha : a = .resume p .ok) (htable : w'.table = w.table)
    (hrow : w.table.get? copy.id = some row) (hvault : (rot.vault copy.row.keyEncrypted).isSome = true)
    (hnew : copy.row = row ∨ w.reselects p = some (copy, row))
  | answers (huse : (w.requests p).pc.usesKey = true) (hkey : (w.requests p).key = some copy)
    (htable : w'.table = w.table)

theorem step_keyUse (hs : w.Sound) (h : w.step rot a = some w') {p : ℕ} {copy : Copy}
    (huse : (w'.requests p).pc.usesKey = true) (hkey : (w'.requests p).key = some copy) :
    KeyUse rot w a w' p copy := by
  cases step_request hs h p with
  | keeps hturn hreq => exact .stays hturn hreq
  | starts kind hturn hidle htable hreq =>
    rw [hreq] at huse
    cases kind <;> cases huse
  | turns ev x' ha hw' hm =>
    cases hpc : (w'.requests p).pc with
    | upstream rawKey =>
      rcases step_selects hs h hpc with ⟨hturn, hreq⟩ | ⟨ha', htable, copy', row, hkey', hrow, hvault, hnew⟩
      · exact .stays hturn hreq
      · cases hkey.symm.trans hkey'
        exact .selects row ha' htable hrow (by rw [hvault]; rfl) hnew
    | commit rec ret =>
      rw [hw', put_requests_self] at hpc hkey
      obtain ⟨rawKey, u, hold, -, -, hkeep, htable⟩ := hm.dispatched hpc
      rw [hkeep] at hkey
      refine .answers ?_ hkey (by rw [hw', put_table, htable]; rfl)
      rw [← turn_request, hold]
      rfl
    | _ =>
      rw [hpc] at huse
      cases huse

end World

end OllamaProxy
