/-
# Withdrawn keys

Two questions about the status of a key over a run.

A disabled key, while operators leave it alone: it stays disabled exactly if no
request commits an outcome that writes another status over it. The recorders
do not look at the row's status: `record_success_with_usage` always writes
`active`, and `_update_key` writes the status it is given unless the session's
copy of the row has that status already.

A key whose withdrawal was recorded, while no admin operation runs: after a 401
or 403 it is never called again. After a 429 it is not called before the end of
its cooldown, if the copy of the session that recorded it was not `depleted`
already; with such a copy the status is not written at all.

Key theorems: `step_disabled_iff`, `disabled_throughout_iff`,
`Unattended.sidelined_stays`, `withdrawn_not_called`.
-/
import OllamaProxy.Rows
import OllamaProxy.Delivery

namespace OllamaProxy

open Kit

/-- The await of a commit ends with its statements in effect, if they succeed. -/
def Event.writes : Event → Bool
  | .ok | .cancel true _ => true
  | _ => false

namespace Turn

theorem onCommit_table {rec : Recorder} {ret : Return} {x x' : Turn} {ev : Event} {copy : Copy}
    (hkey : x.request.key = some copy) (h : x.onCommit rec ret ev = some x') :
    x'.table = if ev.writes then (rec.commit copy.id copy.row x.table).getD x.table else x.table := by
  cases ev with
  | ok =>
    simp only [onCommit, hkey, Option.map_some, Option.some.injEq] at h
    subst h
    cases rec.commit copy.id copy.row x.table with
    | none => rfl
    | some t => cases rec <;> rfl
  | fail => cases h; rfl
  | cancel written expired =>
    simp only [onCommit, hkey, Option.map_some, Option.some.injEq] at h
    subst h
    cases written <;> rfl
  | answer u => cases h

end Turn

namespace World

variable {rot : Rotation} {w w' : World} {a : Action} {id p : ℕ} {ev : Event}

/-- What the turn of a request that is about to commit does to its key's row. -/
theorem commit_row {rec : Recorder} {ret : Return} {copy : Copy}
    (hpc : (w.requests p).pc = .commit rec ret) (hkey : (w.requests p).key = some copy)
    {row : ApiKey} (hrow : w.table.get? copy.id = some row)
    (h : w.step rot (.resume p ev) = some w') :
    w'.table.get? copy.id = some (if ev.writes && rec.fits copy.row then rec.write copy.row row else row) := by
  simp only [step, Turn.resume, turn_request, hpc, Option.map_eq_some_iff] at h
  obtain ⟨x', hx', rfl⟩ := h
  rw [put_table, Turn.onCommit_table (x := w.turn p) hkey hx']
  cases ev.writes with
  | false => exact hrow
  | true =>
    cases hfits : rec.fits copy.row with
    | false => simp [Recorder.commit_eq_none rec hfits, hrow]
    | true => simp [Recorder.commit_eq_some hfits hrow, hrow]

end World

/-! ### A disabled key -/

/-- The operation does not set the status of the key. -/
def AdminOp.Spares (id : ℕ) : AdminOp → Prop
  | .createKey _ _ _ _ => True
  | .updateKey i _ _ status => i = id → status = none
  | .deleteKey i => i ≠ id
  | .resetKeyStates => False
  | .probe i _ _ _ => i ≠ id

def Action.Spares (id : ℕ) : Action → Prop
  | .admin op => op.Spares id
  | _ => True

/-- A row operation that leaves the row of `id` leaves its status. -/
theorem HasStatus.of_get? {t t' : KeyTable} {id : ℕ} {s : ApiKeyStatus} (h : HasStatus t id s)
    (hrow : (t'.get? id).map (·.status) = (t.get? id).map (·.status)) : HasStatus t' id s :=
  hrow.trans h

theorem AdminOp.apply_spares {op : AdminOp} {id : ℕ} (hop : op.Spares id)
    (pyFloat : String → Option PyFloat) (now : ℤ) {t : KeyTable} {s : ApiKeyStatus}
    (h : HasStatus t id s) : HasStatus (op.apply pyFloat now t) id s := by
  refine h.of_get? ?_
  cases op with
  | createKey keyHash keyPrefix keyEncrypted label =>
    simp only [apply, OllamaProxy.createKey]
    split_ifs
    · rfl
    · have hne : id ≠ t.nextId := fun he => by
        rw [he, HasStatus, t.get?_nextId] at h
        cases h
      simp [Table.get?_insert, hne]
  | updateKey i seen label status =>
    simp only [apply, OllamaProxy.updateKey]
    cases hi : t.get? i with
    | none => rfl
    | some k =>
      simp only [Option.map_some, Option.getD_some, Table.get?_modify]
      split_ifs with hid
      · rw [hop hid.symm]
        cases t.get? id <;> rfl
      · rfl
  | deleteKey i =>
    simp only [apply, OllamaProxy.deleteKey]
    cases t.get? i with
    | none => rfl
    | some k => simp [Table.get?_erase, hop.symm]
  | resetKeyStates => exact hop.elim
  | probe i seen code headers =>
    simp only [apply]
    cases hc : (classify pyFloat now code headers).bind fun v => (Recorder.update v).commit i seen t with
    | none => rfl
    | some t' =>
      obtain ⟨v, -, hv⟩ := Option.bind_eq_some_iff.mp hc
      simp [Recorder.commit_get? hv, hop.symm]

namespace World

variable {rot : Rotation} {w w' : World} {a : Action} {id p : ℕ} {ev : Event}

/-- The action does not commit an outcome on the key `id` that changes the
status `disabled`. -/
def LeavesDisabled (id : ℕ) (w : World) : Action → Prop
  | .resume p ev => ∀ rec ret copy, (w.requests p).pc = .commit rec ret →
    (w.requests p).key = some copy → copy.id = id → ev.writes = true → rec.fits copy.row = true →
      rec.Leaves copy.row .disabled
  | _ => True

theorem step_disabled_iff (hw : w.Sound) (hd : HasStatus w.table id .disabled) (ha : a.Spares id)
    (h : w.step rot a = some w') : HasStatus w'.table id .disabled ↔ LeavesDisabled id w a := by
  cases a with
  | start p kind =>
    refine iff_of_true (disabled_of_no_commit hw h rfl ?_ hd) trivial
    intro q rec ret copy hturn
    cases hturn
  | admin op => cases h; exact iff_of_true (op.apply_spares ha _ _ hd) trivial
  | tick d => cases h; exact iff_of_true hd trivial
  | resume p ev =>
    by_cases hc : ∃ rec ret copy, (w.requests p).pc = .commit rec ret ∧
        (w.requests p).key = some copy ∧ copy.id = id
    · obtain ⟨rec, ret, copy, hpc, hkey, rfl⟩ := hc
      obtain ⟨row, hrow, hs⟩ := hasStatus_iff.mp hd
      have hrow' := commit_row hpc hkey hrow h
      have hleaves : LeavesDisabled copy.id w (.resume p ev) ↔
          (ev.writes = true → rec.fits copy.row = true → rec.Leaves copy.row .disabled) := by
        refine ⟨fun hl => hl rec ret copy hpc hkey rfl, fun hl rec' ret' copy' hpc' hkey' _ => ?_⟩
        cases hpc.symm.trans hpc'
        cases hkey.symm.trans hkey'
        exact hl
      rw [hleaves, hasStatus_iff]
      simp only [hrow', Option.some.injEq, exists_eq_left']
      cases ev.writes with
      | false => simp [hs]
      | true =>
        cases rec.fits copy.row with
        | false => simp [hs]
        | true =>
          have hw := rec.write_status_iff copy.row row
          rw [hs] at hw
          simpa using hw
    · refine iff_of_true (disabled_of_no_commit hw h rfl ?_ hd) ?_
      · intro q rec ret copy hturn hpc hkey hid
        have hqp : p = q := by simpa [Action.isTurnOf] using hturn
        subst hqp
        exact hc ⟨rec, ret, copy, hpc, hkey, hid⟩
      · intro rec ret copy hpc hkey hid
        exact absurd ⟨rec, ret, copy, hpc, hkey, hid⟩ hc

/-- From a state in which the key is disabled, and while no operator sets its
status: the key stays disabled exactly if no commit on it writes another status. -/
theorem disabled_throughout_iff {t : KeyTable} {now : ℤ} {as0 as : List Action}
    (h : run (step rot) (init t now) as0 = some w) (hd : HasStatus w.table id .disabled)
    (hop : ∀ a ∈ as, a.Spares id) (hrun : run (step rot) w as = some w') :
    Throughout (step rot) (fun s => HasStatus s.table id .disabled) w as ↔
      Along (step rot) (LeavesDisabled id) w as :=
  throughout_iff_along (P := LeavesDisabled id) (fun _ _ _ => step_sound)
    (fun _ _ _ hs hd ha h => step_disabled_iff hs hd ha h) (run_sound h) hd hop hrun

/-- A chat request is at its upstream call with key 1 when an operator disables
the key. -/
def disabledInUse : List Action :=
  calling ++ [.admin (.updateKey 1 (Sample.key "a") none (some .disabled))]

/-- A 2xx answer with a token count. -/
def counted : Upstream :=
  .response ⟨200, [], "{}", .ok (.dict [("usage", .dict [("prompt_tokens", .int 5)])])⟩

theorem disabled_throughout_iff_disabledInUse :
    let w := (run (step Sample.rotation) (init Sample.pool 0) disabledInUse).get (by decide)
    let as : List Action := [.resume 0 (.answer (Sample.reply 200)), .resume 0 .ok]
    Throughout (step Sample.rotation) (fun s => HasStatus s.table 1 .disabled) w as ↔
      Along (step Sample.rotation) (LeavesDisabled 1) w as :=
  disabled_throughout_iff (Option.some_get _).symm (by decide)
    (fun a ha => by simp at ha; rcases ha with rfl | rfl <;> trivial) (Option.some_get (by decide)).symm

/-- The answer, with a token count, puts the key back into rotation. -/
theorem disabledInUse_reactivated :
    ∃ w w', run (step Sample.rotation) (init Sample.pool 0) disabledInUse = some w ∧
      HasStatus w.table 1 .disabled ∧
      run (step Sample.rotation) w [.resume 0 (.answer counted), .resume 0 .ok] = some w' ∧
      HasStatus w'.table 1 .active :=
  ⟨(run (step Sample.rotation) (init Sample.pool 0) disabledInUse).get (by decide),
    (run (step Sample.rotation) (init Sample.pool 0)
      (disabledInUse ++ [.resume 0 (.answer counted), .resume 0 .ok])).get (by decide),
    (Option.some_get _).symm, by decide, by
      rw [Option.some_get, run_append]
      rfl, by decide⟩

/-! ### A sidelined key -/

/-- Request `p` is at an upstream call with the key `id`. -/
def Calls (w : World) (p id : ℕ) : Prop :=
  ∃ rawKey copy, (w.requests p).pc = .upstream rawKey ∧ (w.requests p).key = some copy ∧ copy.id = id

/-- Before time `c` the key is depleted, with a cooldown of at least `c`. -/
def Sidelined (id : ℕ) (c : ℤ) (w : World) : Prop :=
  c ≤ w.now ∨ ∃ row c', w.table.get? id = some row ∧ row.status = .depleted ∧
    row.cooldownUntil = some c' ∧ c ≤ c'

theorem Unattended.sidelined_stays {c : ℤ} (hw : w.Unattended) (h : w.step rot a = some w')
    (ha : a.isAdmin = false) (hs : w.Sidelined id c) : w'.Sidelined id c := by
  have hnow := step_now_le h
  rcases hs with hc | ⟨row, c', hrow, hst, hcool, hc⟩
  · exact Or.inl (hc.trans hnow)
  · have hna : ¬ HasStatus w.table id .active := fun hact => by
      obtain ⟨row', hrow', hact'⟩ := hasStatus_iff.mp hact
      cases hrow.symm.trans hrow'
      rw [hst] at hact'
      cases hact'
    rcases hw.row_of_not_active (step_row hw.sound h ha id) hna with
      hsame | ⟨p, u, row', hpc, hrow', hcooled, -⟩
    · exact Or.inr ⟨row, c', hsame.trans hrow, hst, hcool, hc⟩
    · cases hrow.symm.trans hrow'
      have hu : c' ≤ u := by simpa [ApiKey.cooledDown, hst, hcool] using hcooled
      have hpast := hw.past p u hpc
      exact Or.inl (by omega)

/-- A sidelined key is called only after its cooldown. -/
theorem Unattended.le_now_of_calls {c : ℤ} (hw : w.Unattended) (hs : w.Sidelined id c)
    (hcall : w.Calls p id) : c ≤ w.now := by
  obtain ⟨rawKey, copy, hpc, hkey, rfl⟩ := hcall
  rcases hs with hc | ⟨row, c', hrow, hst, -, -⟩
  · exact hc
  · obtain ⟨row', hrow', hact⟩ := hasStatus_iff.mp (hw.active p copy (by rw [hpc]; rfl) hkey)
    cases hrow.symm.trans hrow'
    rw [hst] at hact
    cases hact

theorem Unattended.not_calls_of_disabled (hw : w.Unattended) (hd : HasStatus w.table id .disabled) :
    ¬ w.Calls p id := by
  rintro ⟨rawKey, copy, hpc, hkey, rfl⟩
  have hact := hw.active p copy (by rw [hpc]; rfl) hkey
  cases hact.unique hd

end World

theorem recordRateLimited_eq_ok {now retryAfter : ℤ} {code : ℕ} {v : KeyValues}
    (h : recordRateLimited now code retryAfter = .ok v) : v.status = some .depleted ∧
      v.cooldownUntil = some (some (now + seconds (max 1 retryAfter))) := by
  unfold recordRateLimited at h
  cases hc : addSeconds now (max 1 retryAfter) with
  | error e => rw [hc] at h; cases h
  | ok cooldown =>
    rw [hc] at h
    cases h
    exact ⟨rfl, by rw [addSeconds_ok hc]⟩

namespace World

variable {rot : Rotation} {w w' : World} {a : Action} {id p : ℕ} {ev : Event}

/-- The state after a 429 or a 401 was recorded. -/
theorem Unattended.recorded (hw : w.Unattended) {v : KeyValues} {ret : Return} {copy : Copy}
    (hpc : (w.requests p).pc = .commit (.update v) ret) (hkey : (w.requests p).key = some copy)
    (hev : ev.writes = true) (h : w.step rot (.resume p ev) = some w') :
    ∃ row, row.status = .active ∧ w'.table.get? copy.id = some (v.write copy.row row) := by
  obtain ⟨row, hrow, hact⟩ := hasStatus_iff.mp (hw.active p copy (by rw [hpc]; rfl) hkey)
  have hrow' := commit_row hpc hkey hrow h
  rw [hev] at hrow'
  exact ⟨row, hact, hrow'⟩

/-- Recording a 429 sidelines the key, unless the session's copy of the row is
`depleted` already: then the status is not written. -/
theorem Unattended.depleted_iff (hw : w.Unattended) {v : KeyValues} {ret : Return} {copy : Copy}
    {time retryAfter : ℤ} {code : ℕ} (hv : recordRateLimited time code retryAfter = .ok v)
    (hpc : (w.requests p).pc = .commit (.update v) ret) (hkey : (w.requests p).key = some copy)
    (hev : ev.writes = true) (h : w.step rot (.resume p ev) = some w') :
    HasStatus w'.table copy.id .depleted ↔ copy.row.status ≠ .depleted := by
  obtain ⟨row, hact, hrow'⟩ := hw.recorded hpc hkey hev h
  obtain ⟨hst, -⟩ := recordRateLimited_eq_ok hv
  have hwrite : (v.write copy.row row).status = netChange copy.row.status .depleted row.status := by
    simp [KeyValues.write, hst]
  rw [hasStatus_iff]
  simp only [hrow', Option.some.injEq, exists_eq_left', hwrite, netChange]
  split_ifs with hcopy
  · simp [hact, ← hcopy]
  · simp [Ne.symm hcopy]

theorem Unattended.sidelined (hw : w.Unattended) {v : KeyValues} {ret : Return} {copy : Copy}
    {time retryAfter : ℤ} {code : ℕ} (hv : recordRateLimited time code retryAfter = .ok v)
    (hpc : (w.requests p).pc = .commit (.update v) ret) (hkey : (w.requests p).key = some copy)
    (hev : ev.writes = true) (h : w.step rot (.resume p ev) = some w')
    (hcopy : copy.row.status ≠ .depleted) :
    w'.Sidelined copy.id (time + seconds (max 1 retryAfter)) := by
  obtain ⟨row, -, hrow'⟩ := hw.recorded hpc hkey hev h
  obtain ⟨row', hrow'', hdep⟩ := hasStatus_iff.mp ((hw.depleted_iff hv hpc hkey hev h).mpr hcopy)
  cases hrow'.symm.trans hrow''
  obtain ⟨-, hcool⟩ := recordRateLimited_eq_ok hv
  exact Or.inr ⟨_, _, hrow', hdep, by simp [KeyValues.write, hcool], le_rfl⟩

theorem Unattended.disabled_recorded (hw : w.Unattended) {ret : Return} {copy : Copy} {time : ℤ}
    {code : ℕ} (hpc : (w.requests p).pc = .commit (.update (recordUnauthorized time code)) ret)
    (hkey : (w.requests p).key = some copy) (hev : ev.writes = true)
    (h : w.step rot (.resume p ev) = some w') : HasStatus w'.table copy.id .disabled := by
  obtain ⟨row, hact, hrow'⟩ := hw.recorded hpc hkey hev h
  obtain ⟨copy', hkey', hexp, -⟩ := (hw.sound p).held (by rw [hpc]; rfl)
  cases hkey.symm.trans hkey'
  have hne : ApiKeyStatus.disabled ≠ copy.row.status := fun hs => by
    have hdis := hw.disabled p copy hkey hexp hs.symm
    cases (hw.active p copy (by rw [hpc]; rfl) hkey).unique hdis
  exact hasStatus_iff.mpr ⟨_, hrow', netChange_of_ne hne _⟩

theorem run_unattended {as : List Action} {s : World} (hs : s.Unattended)
    (has : ∀ a ∈ as, a.isAdmin = false) (h : run (step rot) s as = some w) : w.Unattended :=
  run_inv_of (A := fun a => a.isAdmin = false) (fun _ _ _ hI ha h => hI.step h ha) hs has h

/-- A turn of request `p` records an outcome for its key. If the outcome is a
429, and the session's copy was not `depleted` already, the key is not called
before the end of the cooldown; if it is a 401 or 403, it is never called. -/
theorem withdrawn_not_called {t : KeyTable} {now : ℤ} {as0 as : List Action} {w'' : World}
    {v : KeyValues} {ret : Return} {copy : Copy}
    (h : run (step rot) (init t now) as0 = some w) (h0 : ∀ a ∈ as0, a.isAdmin = false)
    (hpc : (w.requests p).pc = .commit (.update v) ret) (hkey : (w.requests p).key = some copy)
    (hev : ev.writes = true) (hrec : w.step rot (.resume p ev) = some w')
    (hrun : run (step rot) w' as = some w'') (has : ∀ a ∈ as, a.isAdmin = false) :
    (∀ time code retryAfter, recordRateLimited time code retryAfter = .ok v →
      copy.row.status ≠ .depleted →
        ∀ q, w''.Calls q copy.id → time + seconds (max 1 retryAfter) ≤ w''.now) ∧
    (∀ time code, v = recordUnauthorized time code → ∀ q, ¬ w''.Calls q copy.id) := by
  have hw := run_unattended (init_unattended t now) h0 h
  have hw' := hw.step hrec rfl
  have hw'' := run_unattended hw' has hrun
  constructor
  · intro time code retryAfter hv hcopy q hcall
    have hside := run_inv_of (A := fun a => a.isAdmin = false)
      (I := fun s => s.Unattended ∧ s.Sidelined copy.id (time + seconds (max 1 retryAfter)))
      (fun _ _ _ hI ha h => ⟨hI.1.step h ha, hI.1.sidelined_stays h ha hI.2⟩)
      ⟨hw', hw.sidelined hv hpc hkey hev hrec hcopy⟩ has hrun
    exact hw''.le_now_of_calls hside.2 hcall
  · intro time code hv q
    subst hv
    have hdis := run_inv_of (A := fun a => a.isAdmin = false)
      (I := fun s => s.Unattended ∧ HasStatus s.table copy.id .disabled)
      (fun _ _ _ hI ha h => ⟨hI.1.step h ha, hI.1.disabled_stays h ha hI.2⟩)
      ⟨hw', hw.disabled_recorded hpc hkey hev hrec⟩ has hrun
    exact hw''.not_calls_of_disabled hdis.2

/-- A 429 with this `Retry-After`. -/
def limited (retryAfter : String) : Upstream :=
  .response ⟨429, [("retry-after", retryAfter)], "{}", .ok (.dict [])⟩

/-- One key, and a chat request that may try it three times. -/
def patient : Rotation := { Sample.rotation with safetyMargin := 2 }

def soleKey : KeyTable := Table.empty.insert (Sample.key "a")

/-- The request's first attempt, up to the commit of a 429 for one second. -/
def limitedOnce : List Action := calling ++ [.resume 0 (.answer (limited "1"))]

theorem withdrawn_not_called_limitedOnce :
    let w := (run (step patient) (init soleKey 0) limitedOnce).get (by decide)
    let w' := (w.step patient (.resume 0 .ok)).get (by decide)
    let w'' := (run (step patient) w' [.tick 1000000]).get (by decide)
    ∀ q, w''.Calls q 1 → 1000000 ≤ w''.now := by
  intro w w' w''
  have h : run (step patient) (init soleKey 0) limitedOnce = some w := (Option.some_get _).symm
  have hrec : w.step patient (.resume 0 .ok) = some w' := (Option.some_get _).symm
  have hrun : run (step patient) w' [.tick 1000000] = some w'' := (Option.some_get _).symm
  have h0 : ∀ a ∈ limitedOnce, a.isAdmin = false := by decide
  have has : ∀ a ∈ ([.tick 1000000] : List Action), a.isAdmin = false := by decide
  have hcopy : ApiKeyStatus.active ≠ .depleted := by decide
  exact (withdrawn_not_called h h0 rfl rfl rfl hrec hrun has).1 0 429 1 rfl hcopy

/-- A second later the same request takes the key again; this 429 is for a
minute. Then another request calls the key at once. -/
def limitedTwice : List Action :=
  limitedOnce ++ Sample.oks 0 2 ++ [.tick 1000000] ++ Sample.oks 0 4 ++
    [.resume 0 (.answer (limited "60"))] ++ Sample.oks 0 2 ++ [.start 1 .models] ++ Sample.oks 1 2

theorem limitedTwice_calls :
    ∃ w, run (step patient) (init soleKey 0) limitedTwice = some w ∧
      (w.table.get? 1).map (·.cooldownUntil) = some (some 61000000) ∧
      w.Calls 1 1 ∧ w.now = 1000000 :=
  ⟨(run (step patient) (init soleKey 0) limitedTwice).get (by decide), (Option.some_get _).symm,
    by decide, ⟨_, _, rfl, rfl, rfl⟩, by decide⟩

end World

end OllamaProxy
