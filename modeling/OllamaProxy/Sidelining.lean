/-
# A failing verdict takes the key out of rotation

`record_rate_limited` and `record_unauthorized` set a status and a cooldown on
the copy of the row that the request's session holds. `session.get` returns the
copy without a `SELECT`, and the commit writes what differs from it, so a copy
that already has the status leaves the row as it is (`sidelines_iff`).

The rest is about a 429 of the chat path, from the header to the head of the
loop. `int()` of an infinity raises an `OverflowError`, which the handler of
`_parse_retry_after_value` does not catch, and so does a cooldown that ends
after the year 9999. The request then fails (`rate_limit_iff`).

Key definitions: `Recorder.leaves`, `Headers.retryAfter`, `Headers.asks`,
`Request.Sidelines`.
Key theorems: `sidelines_iff`, `extractRetryAfter_eq_ok_iff`, `rate_limit_iff`.
-/
import OllamaProxy.Withdrawal

namespace OllamaProxy

open Kit

/-- The row of the key after the recorder's commit. -/
def Recorder.leaves (rec : Recorder) (id : ℕ) (copy : ApiKey) (t : KeyTable) : Option ApiKey :=
  (rec.commit id copy t).bind (·.get? id)

/-- The key has this status and this cooldown. -/
def ApiKey.Stands (k : ApiKey) (status : ApiKeyStatus) (cooldownUntil : Option ℤ) : Prop :=
  k.status = status ∧ k.cooldownUntil = cooldownUntil

instance (k : ApiKey) (status : ApiKeyStatus) (cooldownUntil : Option ℤ) :
    Decidable (k.Stands status cooldownUntil) :=
  inferInstanceAs (Decidable (_ ∧ _))

section

variable {t : KeyTable} {id : ℕ} {row : ApiKey} {now : ℤ}

theorem leaves_eq (hrow : t.get? id = some row) (v : KeyValues) (copy : ApiKey) :
    (Recorder.update v).leaves id copy t = some (v.write copy row) := by
  rw [Recorder.leaves, Recorder.commit_eq_some rfl hrow, Option.bind_some, Table.get?_modify_self, hrow]
  rfl

/-- The new status is stored, unless the copy has it already and the row has
not. -/
theorem netChange_eq_iff {s copy db : ApiKeyStatus} :
    netChange copy s db = s ↔ copy ≠ s ∨ db = s := by
  by_cases h : s = copy
  · subst h
    simp [netChange]
  · rw [netChange_of_ne h]
    exact iff_of_true rfl (Or.inl fun hc => h hc.symm)

theorem netChangeSome_none_iff {copy db : Option ℤ} :
    netChangeSome copy none db = none ↔ copy ≠ none ∨ db = none := by
  cases copy <;> simp [netChangeSome]

theorem write_rateLimited_stands_iff {retryAfter : ℤ} {code : ℕ} {v : KeyValues}
    (hv : recordRateLimited now code retryAfter = .ok v) (copy row : ApiKey) :
    (v.write copy row).Stands .depleted (some (now + seconds (max 1 retryAfter))) ↔
      copy.status ≠ .depleted ∨ row.status = .depleted := by
  obtain ⟨hstatus, hcooldown⟩ := recordRateLimited_eq_ok hv
  simp only [ApiKey.Stands, KeyValues.write, hstatus, hcooldown, Option.elim_some, netChangeSome_some,
    netChange_eq_iff, and_true]

theorem write_unauthorized_stands_iff (now : ℤ) (code : ℕ) (copy row : ApiKey) :
    ((recordUnauthorized now code).write copy row).Stands .disabled none ↔
      (copy.status ≠ .disabled ∨ row.status = .disabled) ∧
        (copy.cooldownUntil ≠ none ∨ row.cooldownUntil = none) := by
  simp only [ApiKey.Stands, KeyValues.write, recordUnauthorized, Option.elim_some, netChange_eq_iff,
    netChangeSome_none_iff]

/-- After a 429 an active key is depleted with the new cooldown exactly if the
copy was not depleted; after a 401 or 403 it is disabled without a cooldown
exactly if the copy was not disabled and had a cooldown where the row has one. -/
theorem sidelines_iff (hrow : t.get? id = some row) (hactive : row.status = .active) (copy : ApiKey)
    (now : ℤ) (code : ℕ) :
    (∀ retryAfter v, recordRateLimited now code retryAfter = .ok v →
      ((∃ k, (Recorder.update v).leaves id copy t = some k ∧
          k.Stands .depleted (some (now + seconds (max 1 retryAfter)))) ↔ copy.status ≠ .depleted)) ∧
    ((∃ k, (Recorder.update (recordUnauthorized now code)).leaves id copy t = some k ∧
        k.Stands .disabled none) ↔
      copy.status ≠ .disabled ∧ (copy.cooldownUntil ≠ none ∨ row.cooldownUntil = none)) := by
  constructor
  · intro retryAfter v hv
    have hstands := write_rateLimited_stands_iff hv copy row
    simp only [leaves_eq hrow, Option.some.injEq, exists_eq_left', hstands, hactive]
    simp
  · have hstands := write_unauthorized_stands_iff now code copy row
    simp only [leaves_eq hrow, Option.some.injEq, exists_eq_left', hstands, hactive]
    simp

end

namespace Sample

/-- Key 1 is depleted until second 1; key 2 is active. -/
def cooling : KeyTable := pool.modify 1 fun k => { k with status := .depleted, cooldownUntil := some 1000000 }

theorem sidelines_iff_pool :
    ∃ k, (Recorder.update (recordUnauthorized 0 401)).leaves 1 (key "a") pool = some k ∧
      k.Stands .disabled none := by
  have hrow : pool.get? 1 = some (key "a") := rfl
  exact (sidelines_iff hrow rfl (key "a") 0 401).2.mpr (by decide)

/-- A session that saw key 1 depleted records a 429 after its reactivation. -/
theorem cooled_stays :
    ∃ copy row k v, cooling.get? 1 = some copy ∧ (reactivateLocked cooling 1000000).get? 1 = some row ∧
      row.status = .active ∧ recordRateLimited 2000000 429 60 = .ok v ∧
      (Recorder.update v).leaves 1 copy (reactivateLocked cooling 1000000) = some k ∧
      ¬ k.Stands .depleted (some 62000000) :=
  ⟨_, _, _, _, rfl, rfl, rfl, rfl, rfl, by decide⟩

end Sample

/-! ### What `Retry-After` asks for -/

/-- The items of the headers. -/
def Headers.items : Headers → List (String × String)
  | .none => []
  | .httpx items | .dict items | .pairs items => items

/-- The value that `extract_retry_after` parses. -/
def retryAfterValue : Headers → Option String
  | .none => none
  | .httpx items => items.lookup "retry-after"
  | .dict items =>
    (["retry-after", "Retry-After", "RETRY-AFTER"].findSome? fun name => items.lookup name).or
      (findRetryAfter items)
  | .pairs items => findRetryAfter items

/-- The seconds that the headers ask for: 60 without a value, or with one that is
not a number. An infinity is no number of seconds. -/
def retryAfterSeconds (pyFloat : String → Option PyFloat) (h : Headers) : Option ℤ :=
  match (retryAfterValue h).bind pyFloat with
  | none | some .nan => some 60
  | some (.finite q) => some (q.num.tdiv q.den)
  | some .inf | some .negInf => none

theorem toLower_spellings :
    ∀ name ∈ ["retry-after", "Retry-After", "RETRY-AFTER"], name.toLower = "retry-after" := by
  have hlower : ∀ name ∈ ["retry-after", "Retry-After", "RETRY-AFTER"],
      name.toList.map Char.toLower = "retry-after".toList := by decide
  intro name hname
  rw [← String.toList_inj, String.toLower, String.toList_map]
  exact hlower name hname

/-- The value is one that the headers have under the name in some letter case. -/
theorem mem_of_retryAfterValue {h : Headers} {raw : String} (hraw : retryAfterValue h = some raw) :
    ∃ name, (name, raw) ∈ h.items ∧ name.toLower = "retry-after" := by
  have hfind : ∀ items, findRetryAfter items = some raw →
      ∃ name, (name, raw) ∈ items ∧ name.toLower = "retry-after" := by
    intro items hitems
    obtain ⟨x, hx, rfl⟩ := Option.map_eq_some_iff.mp hitems
    exact ⟨x.1, List.mem_of_find?_eq_some hx, by simpa using List.find?_some hx⟩
  cases h with
  | none => cases hraw
  | httpx items => exact ⟨_, mem_of_lookup hraw, toLower_spellings _ List.mem_cons_self⟩
  | pairs items => exact hfind items hraw
  | dict items =>
    rcases Option.or_eq_some_iff.mp hraw with hspelled | ⟨-, hother⟩
    · obtain ⟨name, hname, hlookup⟩ := List.exists_of_findSome?_eq_some hspelled
      exact ⟨name, mem_of_lookup hlookup, toLower_spellings name hname⟩
    · exact hfind items hother

/-- There is none only if the headers have none under the name in any letter
case; the names of `httpx.Headers` are in lower case. -/
theorem retryAfterValue_eq_none {h : Headers}
    (hlower : ∀ items, h = .httpx items → ∀ x ∈ items, x.1.toLower = x.1) (hnone : retryAfterValue h = none) :
    ∀ x ∈ h.items, x.1.toLower ≠ "retry-after" := by
  have hfind : ∀ items, findRetryAfter items = none → ∀ x ∈ items, x.1.toLower ≠ "retry-after" := by
    intro items hitems x hx
    have hx' := List.find?_eq_none.mp (Option.map_eq_none_iff.mp hitems) x hx
    simpa using hx'
  cases h with
  | none => exact fun x hx => by cases hx
  | pairs items => exact hfind items hnone
  | dict items => exact hfind items (Option.or_eq_none_iff.mp hnone).2
  | httpx items =>
    intro x hx
    rw [hlower items rfl x hx]
    exact (bne_iff_ne.mp (List.lookup_eq_none_iff.mp hnone x hx)).symm

section

variable {pyFloat : String → Option PyFloat}

theorem extractRetryAfter_eq (pyFloat : String → Option PyFloat) (h : Headers) :
    extractRetryAfter pyFloat h = (retryAfterValue h).elim (.ok 60) (parseRetryAfterValue pyFloat) := by
  cases h with
  | none => rfl
  | httpx items =>
    simp only [extractRetryAfter, retryAfterValue]
    cases items.lookup "retry-after" <;> rfl
  | dict items =>
    simp only [extractRetryAfter, retryAfterValue]
    cases ["retry-after", "Retry-After", "RETRY-AFTER"].findSome? fun name => items.lookup name with
    | some raw => rfl
    | none => cases hfind : findRetryAfter items <;> simp
  | pairs items =>
    simp only [extractRetryAfter, retryAfterValue]
    cases findRetryAfter items <;> rfl

/-- It returns at least 1, and returns unless the value is infinite. -/
theorem extractRetryAfter_eq_ok_iff {h : Headers} {n : ℤ} :
    extractRetryAfter pyFloat h = .ok n ↔ ∃ a, retryAfterSeconds pyFloat h = some a ∧ n = max 1 a := by
  rw [extractRetryAfter_eq, retryAfterSeconds]
  cases retryAfterValue h with
  | none => simp [eq_comm]
  | some raw =>
    simp only [Option.elim_some, Option.bind_some, parseRetryAfterValue]
    cases pyFloat raw with
    | none => simp [eq_comm]
    | some x => cases x <;> simp [PyFloat.toInt, eq_comm]

/-- The cooldown that the headers ask for ends in the years up to 9999. -/
def Headers.Fits (pyFloat : String → Option PyFloat) (now : ℤ) (h : Headers) : Prop :=
  ∃ a, retryAfterSeconds pyFloat h = some a ∧ now + seconds (max 1 a) ≤ maxInstant

/-- Either the 429 is recorded or the attempt raises. -/
theorem recordRetryAfter_cases (pyFloat : String → Option PyFloat) (now : ℤ) (r : Response) (ret : Return) :
    ((Headers.httpx r.headers).Fits pyFloat now ∧ ∃ n v, recordRateLimited now r.statusCode n = .ok v ∧
      recordRetryAfter pyFloat now r ret = .record (.update v) ret) ∨
    (¬ (Headers.httpx r.headers).Fits pyFloat now ∧ ∃ e, recordRetryAfter pyFloat now r ret = .raised e) := by
  unfold recordRetryAfter
  cases hretry : extractRetryAfter pyFloat (.httpx r.headers) with
  | error e =>
    refine Or.inr ⟨?_, e, rfl⟩
    rintro ⟨a, ha, -⟩
    have hok := extractRetryAfter_eq_ok_iff.mpr ⟨a, ha, rfl⟩
    rw [hretry] at hok
    cases hok
  | ok n =>
    obtain ⟨a, ha, rfl⟩ := extractRetryAfter_eq_ok_iff.mp hretry
    have hclamp : max 1 (max 1 a) = max 1 a := max_eq_right (le_max_left _ _)
    by_cases hfits : now + seconds (max 1 a) ≤ maxInstant
    · obtain ⟨v, hv⟩ : ∃ v, recordRateLimited now r.statusCode (max 1 a) = .ok v := by
        rw [recordRateLimited, addSeconds, hclamp, if_pos hfits]
        exact ⟨_, rfl⟩
      simp only [hv]
      exact Or.inl ⟨⟨a, ha, hfits⟩, _, v, hv, rfl⟩
    · obtain ⟨e, he⟩ : ∃ e, recordRateLimited now r.statusCode (max 1 a) = .error e := by
        rw [recordRateLimited, addSeconds, hclamp, if_neg hfits]
        exact ⟨_, rfl⟩
      simp only [he]
      refine Or.inr ⟨?_, e, rfl⟩
      rintro ⟨a', ha', hfits'⟩
      rw [ha] at ha'
      cases ha'
      exact hfits hfits'

end

/-! ### A 429 of the chat path -/

namespace World

/-- The turn of the request `q` in this world. -/
def meets (w : World) (rot : Rotation) (p : ℕ) (q : Request) (ev : Event) : Option Turn :=
  Turn.resume rot w.now p ⟨w.table, w.manager, q⟩ ev

theorem step_resume_meets (w : World) (rot : Rotation) (p : ℕ) (ev : Event) :
    w.step rot (.resume p ev) = (w.meets rot p (w.requests p) ev).map (w.put p) := rfl

end World

/-- The request gets the response to its call, its recorder commits, and its copy
is refreshed; each turn meets the world as the others have left it. The commit
leaves the key depleted until later than now, and the request goes on at the
head of the loop. -/
def Request.RidesOut (rot : Rotation) (p : ℕ) (q : Request) (copy : Copy) (r : Response)
    (w₁ w₂ w₃ : World) : Prop :=
  ∃ x₁ x₂ x₃ row c fresh, w₁.meets rot p q (.answer (.response r)) = some x₁ ∧
    w₂.meets rot p x₁.request .ok = some x₂ ∧ x₂.table.get? copy.id = some row ∧
    row.Stands .depleted (some c) ∧ w₁.now < c ∧
    w₃.meets rot p x₂.request .ok = some x₃ ∧ x₃.request = { q with
      key := some ⟨copy.id, fresh, false⟩
      reserved := none
      all404 := false
      answered := q.answered ++ [(copy.id, Upstream.response r)] }.nextIteration

section

variable {rot : Rotation} {p : ℕ} {q : Request} {copy : Copy} {r : Response} {w : World}

theorem dispatchOne_429 (stream : Bool) (now : ℤ) (h429 : r.statusCode = 429) :
    dispatchOne rot stream now (.response r) = recordRetryAfter rot.pyFloat now r (rotateTo false) := by
  have hsuccess : r.isSuccess = false := by simp [Response.isSuccess, h429]
  simp [dispatchOne, hsuccess, h429, deadKeyCodes]

theorem dispatch_429 {model : Option String} {stream : Bool} (hkind : q.kind = .chat model stream)
    (now : ℤ) (h429 : r.statusCode = 429) :
    q.dispatch rot now (.response r) = recordRetryAfter rot.pyFloat now r (rotateTo false) := by
  rw [Request.dispatch, hkind]
  exact dispatchOne_429 stream now h429

section

variable {rawKey : String} {model : Option String} {stream : Bool} {rec : Recorder} {ret : Return}

theorem meets_recorded (hkind : q.kind = .chat model stream) (hpc : q.pc = .upstream rawKey)
    (hkey : q.key = some copy) (h429 : r.statusCode = 429)
    (hrecord : recordRetryAfter rot.pyFloat w.now r (rotateTo false) = .record rec ret) :
    w.meets rot p q (.answer (.response r)) = some ⟨w.table, w.manager,
      { q with answered := q.answered ++ [(copy.id, Upstream.response r)], pc := .commit rec ret }⟩ := by
  have hdispatch : ({ q with
      key := some copy, answered := q.answered ++ [(copy.id, Upstream.response r)] } : Request).dispatch rot w.now
        (.response r) = .record rec ret := (dispatch_429 hkind w.now h429).trans hrecord
  rw [World.meets, Turn.resume, hpc]
  simp only [Turn.onUpstream, hkey, Option.map_some, Option.toList_some, hdispatch]

/-- An exception inside the `try` ends the request, whether its copy is expired or
not. -/
theorem raised_pc (x : Turn) : x.raised.request.pc = .done x.request.failed := by
  unfold Turn.raised Turn.release Request.release
  cases x.request.key with
  | none => rfl
  | some copy =>
    simp only
    split_ifs <;> rfl

theorem meets_raised {e : PyError} (hkind : q.kind = .chat model stream) (hpc : q.pc = .upstream rawKey)
    (hkey : q.key = some copy) (h429 : r.statusCode = 429)
    (hraised : recordRetryAfter rot.pyFloat w.now r (rotateTo false) = .raised e) :
    ∃ x, w.meets rot p q (.answer (.response r)) = some x ∧ x.request.pc = .done q.failed := by
  have hdispatch : ({ q with
      key := some copy, answered := q.answered ++ [(copy.id, Upstream.response r)] } : Request).dispatch rot w.now
        (.response r) = .raised e := (dispatch_429 hkind w.now h429).trans hraised
  rw [World.meets, Turn.resume, hpc]
  simp only [Turn.onUpstream, hkey, Option.map_some, Option.toList_some, hdispatch]
  exact ⟨_, rfl, raised_pc _⟩

variable (rot p) in
theorem meets_commit {v : KeyValues} (hpc : q.pc = .commit (.update v) ret) (hkey : q.key = some copy)
    {row : ApiKey} (hrow : w.table.get? copy.id = some row) :
    w.meets rot p q .ok = some ⟨w.table.modify copy.id (v.write copy.row), w.manager,
      { q with pc := .refresh ret }⟩ := by
  have hcommit : (Recorder.update v).commit copy.id copy.row w.table =
      some (w.table.modify copy.id (v.write copy.row)) := Recorder.commit_eq_some rfl hrow
  rw [World.meets, Turn.resume, hpc]
  simp only [Turn.onCommit, hkey, Option.map_some, hcommit]

variable (rot p) in
theorem meets_commit_deleted {v : KeyValues} (hpc : q.pc = .commit (.update v) ret)
    (hkey : q.key = some copy) (hrow : w.table.get? copy.id = none) :
    ∃ x, w.meets rot p q .ok = some x ∧ x.table.get? copy.id = none := by
  have hcommit : (Recorder.update v).commit copy.id copy.row w.table = none := by
    rw [Recorder.commit, hrow]
    rfl
  rw [World.meets, Turn.resume, hpc]
  simp only [Turn.onCommit, hkey, Option.map_some, hcommit]
  refine ⟨_, rfl, ?_⟩
  rw [Turn.dbFailed_held (x := ⟨w.table, w.manager, q⟩) hkey]
  exact hrow

variable (rot p) in
theorem meets_refresh (hpc : q.pc = .refresh ret) (hkey : q.key = some copy) {row : ApiKey}
    (hrow : w.table.get? copy.id = some row) :
    w.meets rot p q .ok = some ⟨w.table, w.manager.release copy.id,
      ({ q with pc := .refresh ret, key := some ⟨copy.id, row, false⟩, reserved := none } : Request).returned
        ret⟩ := by
  rw [World.meets, Turn.resume, hpc]
  simp only [Turn.onRefresh, hkey, Option.map_some, hrow]
  rw [Turn.release_held (x := ⟨w.table, w.manager, { q with key := some ⟨copy.id, row, false⟩ }⟩) rfl rfl]
  rfl

variable (rot p) in
theorem meets_refresh_deleted (hpc : q.pc = .refresh ret) (hkey : q.key = some copy)
    (hrow : w.table.get? copy.id = none) :
    ∃ x, w.meets rot p q .ok = some x ∧ x.request.key = some { copy with expired := true } := by
  rw [World.meets, Turn.resume, hpc]
  simp only [Turn.onRefresh, hkey, Option.map_some, hrow]
  refine ⟨_, rfl, ?_⟩
  rw [Turn.dbFailed_held (x := ⟨w.table, w.manager, q⟩) hkey]
  simp [Request.expire, Request.stop, hkey]

/-- A commit after which the key has a row found the row that it wrote. -/
theorem meets_commit_row {v : KeyValues} {x : Turn} {row : ApiKey} (hpc : q.pc = .commit (.update v) ret)
    (hkey : q.key = some copy) (hx : w.meets rot p q .ok = some x) (hrow : x.table.get? copy.id = some row) :
    ∃ row₂, w.table.get? copy.id = some row₂ ∧ row = v.write copy.row row₂ ∧
      x.request = { q with pc := .refresh ret } := by
  cases hrow₂ : w.table.get? copy.id with
  | none =>
    obtain ⟨x', hx', hnone⟩ := meets_commit_deleted rot p hpc hkey hrow₂
    rw [hx'] at hx
    cases hx
    rw [hnone] at hrow
    cases hrow
  | some row₂ =>
    rw [meets_commit rot p hpc hkey hrow₂] at hx
    cases hx
    rw [Table.get?_modify_self, hrow₂] at hrow
    cases hrow
    exact ⟨row₂, rfl, rfl, rfl⟩

/-- A refresh that leaves a live copy found the row. -/
theorem meets_refresh_row {x : Turn} {fresh : ApiKey} {id : ℕ} (hpc : q.pc = .refresh ret) (hkey : q.key = some copy)
    (hx : w.meets rot p q .ok = some x) (hlive : x.request.key = some ⟨id, fresh, false⟩) :
    (w.table.get? copy.id).isSome = true := by
  cases hrow : w.table.get? copy.id with
  | some row => rfl
  | none =>
    obtain ⟨x', hx', hexpired⟩ := meets_refresh_deleted rot p hpc hkey hrow
    rw [hx'] at hx
    cases hx
    rw [hlive] at hexpired
    cases hexpired

end

/-- A request at its upstream call, with its copy of the key, gets a 429. Headers
with the same value say at least one second, and the request rides the answer
out, exactly if the cooldown fits, the key is still there to record it and to
reload the copy, and the copy was not depleted where the row is not. -/
theorem rate_limit_iff {rawKey : String} {model : Option String} {stream : Bool} {w₁ w₂ w₃ : World}
    {h : Headers} (hkind : q.kind = .chat model stream) (hpc : q.pc = .upstream rawKey)
    (hkey : q.key = some copy) (h429 : r.statusCode = 429)
    (hvalue : retryAfterValue h = retryAfterValue (.httpx r.headers)) :
    ((∃ n, extractRetryAfter rot.pyFloat h = .ok n ∧ 1 ≤ n) ∧ q.RidesOut rot p copy r w₁ w₂ w₃) ↔
      h.Fits rot.pyFloat w₁.now ∧
        (∃ row, w₂.table.get? copy.id = some row ∧
          (copy.row.status ≠ .depleted ∨ row.status = .depleted)) ∧
        (w₃.table.get? copy.id).isSome = true := by
  have hfits : h.Fits rot.pyFloat w₁.now ↔ (Headers.httpx r.headers).Fits rot.pyFloat w₁.now := by
    simp only [Headers.Fits, retryAfterSeconds, hvalue]
  rcases recordRetryAfter_cases rot.pyFloat w₁.now r (rotateTo false) with
    ⟨hfit, n, v, hv, hrecord⟩ | ⟨hfit, e, hraised⟩
  · have h₁ := meets_recorded (p := p) hkind hpc hkey h429 hrecord
    obtain ⟨a, ha, -⟩ := hfits.mpr hfit
    have hn : ∃ n, extractRetryAfter rot.pyFloat h = .ok n ∧ 1 ≤ n :=
      ⟨_, extractRetryAfter_eq_ok_iff.mpr ⟨a, ha, rfl⟩, le_max_left _ _⟩
    have hlater : w₁.now < w₁.now + seconds (max 1 n) := by
      have : 1 ≤ max 1 n := le_max_left _ _
      unfold seconds
      omega
    simp only [hn, hfits.mpr hfit, true_and]
    constructor
    · rintro ⟨x₁, x₂, x₃, row, c, fresh, hx₁, hx₂, hrow, hstands, -, hx₃, hend⟩
      rw [h₁] at hx₁
      cases hx₁
      obtain ⟨row₂, hrow₂, rfl, hrequest⟩ := meets_commit_row (q := { q with
        answered := q.answered ++ [(copy.id, Upstream.response r)]
        pc := .commit (.update v) (rotateTo false) }) rfl hkey hx₂ hrow
      have hc : c = w₁.now + seconds (max 1 n) := by
        have hcooldown := hstands.2
        rw [KeyValues.write, (recordRateLimited_eq_ok hv).2] at hcooldown
        simpa using hcooldown.symm
      rw [hc] at hstands
      refine ⟨⟨row₂, hrow₂, (write_rateLimited_stands_iff hv copy.row row₂).mp hstands⟩, ?_⟩
      rw [hrequest] at hx₃
      have hfresh : x₃.request.key = some ⟨copy.id, fresh, false⟩ := by
        rw [hend, (Request.nextIteration_rests _).key]
      exact meets_refresh_row (q := { q with
        answered := q.answered ++ [(copy.id, Upstream.response r)]
        pc := .refresh (rotateTo false) }) rfl hkey hx₃ hfresh
    · rintro ⟨⟨row₂, hrow₂, hcopy⟩, hrow₃⟩
      obtain ⟨row₃, hrow₃⟩ := Option.isSome_iff_exists.mp hrow₃
      refine ⟨_, _, _, v.write copy.row row₂, w₁.now + seconds (max 1 n), row₃, h₁,
        meets_commit rot p rfl hkey hrow₂, ?_, (write_rateLimited_stands_iff hv copy.row row₂).mpr hcopy, hlater,
        meets_refresh rot p (q := { q with
          answered := q.answered ++ [(copy.id, Upstream.response r)]
          pc := .refresh (rotateTo false) }) rfl hkey hrow₃, ?_⟩
      · rw [Table.get?_modify_self, hrow₂]
        rfl
      · simp [Request.returned, rotateTo, Request.nextIteration, Request.giveUp, Request.stop]
  · refine iff_of_false ?_ fun h => hfit (hfits.mp h.1)
    rintro ⟨-, x₁, x₂, x₃, row, c, fresh, hx₁, hx₂, -⟩
    obtain ⟨x, hx, hdone⟩ := meets_raised (p := p) hkind hpc hkey h429 hraised
    rw [hx] at hx₁
    cases hx₁
    rw [World.meets, Turn.resume, hdone] at hx₂
    cases hx₂

end

namespace Sample

def limitReply (retryAfter : String) : Response :=
  ⟨429, [("retry-after", retryAfter)], "{}", .ok (.dict [])⟩

/-- A chat request at its upstream call with key 1, in its first iteration of
two. -/
def atUpstream : Request :=
  { Request.idle with
    kind := chat
    pc := .upstream "a"
    initialCount := 2
    left := 1
    anyAttempt := true
    key := some ⟨1, key "a", false⟩
    reserved := some 1 }

theorem rate_limit_iff_minute :
    atUpstream.RidesOut rotation 0 ⟨1, key "a", false⟩ (limitReply "60") (World.init pool 0)
      (World.init pool 5) (World.init pool 6) :=
  ((rate_limit_iff (h := .dict [("Retry-After", "60")]) rfl rfl rfl rfl (by decide)).mpr
    ⟨⟨60, by decide, by decide⟩, ⟨key "a", rfl, Or.inl (by decide)⟩, by decide⟩).2

/-- `float("inf")` is an infinity. -/
def unbounded : Rotation := { rotation with pyFloat := fun s => if s = "inf" then some .inf else float s }

/-- The first of two keys answers a chat request 429 with an infinite
`Retry-After`. -/
def endless : List Action := .start 0 chat :: oks 0 3 ++ [.resume 0 (.answer (.response (limitReply "inf")))]

theorem endless_fails :
    extractRetryAfter unbounded.pyFloat (.httpx (limitReply "inf").headers) = .error .overflowError ∧
    ∃ w, run (World.step unbounded) (World.init pool 0) endless = some w ∧
      (w.requests 0).answer? = some (.proxy 503 "all backends failed") ∧
      (∀ id ∈ [1, 2], HasStatus w.table id .active) ∧ w.manager.inFlight = ∅ :=
  ⟨rfl, (run (World.step unbounded) (World.init pool 0) endless).get (by decide),
    (Option.some_get _).symm, by decide, by decide, by decide⟩

end Sample

end OllamaProxy
