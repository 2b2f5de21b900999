/-
# A request's bookkeeping balances

One chat request runs while nothing else touches the store, and its attempts
end as they may. `Accrued` says what it has made of the table since it began: a
key has one more failure for each of its attempts that failed and was recorded,
the requests of all keys together are one more if a success was recorded, and a
key it has not called is as it was, or was reactivated. Each turn keeps this
(`Move.balanced`), so it holds of the table that the request leaves.

Key definitions: `Upstream.fails`, `ApiKey.Kept`, `Accrued`, `Turn.Balanced`,
`RunsAlone`.
Key theorems: `dispatchOne_posts`, `Move.balanced`, `books_balance`.
-/
import OllamaProxy.Budget
import OllamaProxy.Delivery
import OllamaProxy.Rows

namespace OllamaProxy

open Kit

/-! ### What an outcome posts -/

/-- The attempt ends with a transport failure or a status that counts as a
failure of the key. -/
def Upstream.fails : Upstream → Bool
  | .response r => r.statusCode ∈ deadKeyCodes || r.statusCode = 429 || 500 ≤ r.statusCode
  | .transport => true
  | .raised => false

def Recorder.failures : Recorder → ℕ
  | .update v => v.totalFailures
  | .usage _ => 0

def Recorder.requests : Recorder → ℕ
  | .update v => v.totalRequests
  | .usage _ => 1

theorem Recorder.write_totalFailures (rec : Recorder) (copy row : ApiKey) :
    (rec.write copy row).totalFailures = row.totalFailures + rec.failures := by
  cases rec <;> rfl

theorem Recorder.write_totalRequests (rec : Recorder) (copy row : ApiKey) :
    (rec.write copy row).totalRequests = row.totalRequests + rec.requests := by
  cases rec <;> rfl

/-- The answer is an upstream 2xx. -/
def Answer.isSuccess : Answer → Bool
  | .upstream r => 200 ≤ r.statusCode && r.statusCode < 300
  | _ => false

/-- What the chat path returns after an attempt. -/
inductive ChatReturn : Return → Bool → Prop
  | rotates (all404Hint : Bool) : ChatReturn (rotateTo all404Hint) false
  | ends (r : ClientResponse) (hr : (Answer.upstream r).isSuccess = false) :
    ChatReturn (.outcome { terminal := some r }) false
  | delivers (r : Response) (hr : r.isSuccess = true) : ChatReturn (delivered r) true

theorem recordChatSuccess_posts {stream : Bool} {now : ℤ} {r : Response} {rec : Recorder} {ret : Return}
    (h : recordChatSuccess stream now r = .record rec ret) :
    ret = delivered r ∧ rec.failures = 0 ∧ rec.requests = 1 := by
  unfold recordChatSuccess at h
  simp only at h
  split at h
  · cases h
  · split_ifs at h <;> cases h <;> exact ⟨rfl, rfl, rfl⟩

theorem recordRetryAfter_posts {pyFloat : String → Option PyFloat} {now : ℤ} {r : Response} {rec : Recorder}
    {ret ret' : Return} (h : recordRetryAfter pyFloat now r ret = .record rec ret') :
    ret' = ret ∧ rec.failures = 1 ∧ rec.requests = 0 := by
  unfold recordRetryAfter at h
  split at h
  · cases h
  · split at h
    · cases h
    · rename_i v hv
      cases h
      unfold recordRateLimited at hv
      cases hc : addSeconds now _ with
      | error e =>
        rw [hc] at hv
        cases hv
      | ok cooldown =>
        rw [hc] at hv
        cases hv
        exact ⟨rfl, rfl, rfl⟩

/-- A recorder posts one failure for an attempt that failed, one request for a
2xx. -/
theorem dispatchOne_posts {rot : Rotation} {stream : Bool} {now : ℤ} {u : Upstream} {rec : Recorder}
    {ret : Return} (h : dispatchOne rot stream now u = .record rec ret) :
    ∃ success, ChatReturn ret success ∧ rec.failures = (if u.fails then 1 else 0) ∧
      rec.requests = if success then 1 else 0 := by
  cases u with
  | transport =>
    cases h
    exact ⟨false, .rotates false, rfl, rfl⟩
  | raised => cases h
  | response r =>
    simp only [dispatchOne] at h
    split_ifs at h with hsuccess hdead h404 h429 h500
    · obtain ⟨rfl, hfail, hreq⟩ := recordChatSuccess_posts h
      have hfails : (Upstream.response r).fails = false := by
        simp only [Response.isSuccess, Bool.and_eq_true, decide_eq_true_eq] at hsuccess
        simp only [Upstream.fails, deadKeyCodes, List.mem_cons, List.not_mem_nil, or_false,
          Bool.or_eq_false_iff, decide_eq_false_iff_not]
        omega
      exact ⟨true, .delivers r hsuccess, by rw [hfails, hfail]; rfl, hreq⟩
    · cases h
      have hfails : (Upstream.response r).fails = true := by simp [Upstream.fails, hdead]
      exact ⟨false, .rotates false, by rw [hfails]; rfl, rfl⟩
    · obtain ⟨rfl, hfail, hreq⟩ := recordRetryAfter_posts h
      have hfails : (Upstream.response r).fails = true := by simp [Upstream.fails, h429]
      exact ⟨false, .rotates false, by rw [hfails, hfail]; rfl, hreq⟩
    · cases h
      have hfails : (Upstream.response r).fails = true := by simp [Upstream.fails, h500]
      exact ⟨false, .rotates false, by rw [hfails]; rfl, rfl⟩

/-- What is not recorded is no failure. -/
theorem dispatchOne_unposted {rot : Rotation} {stream : Bool} {now : ℤ} {u : Upstream} {ret : Return}
    (h : dispatchOne rot stream now u = .done ret) : ChatReturn ret false ∧ u.fails = false := by
  cases u with
  | transport => cases h
  | raised => cases h
  | response r =>
    simp only [dispatchOne] at h
    split_ifs at h with hsuccess hdead h404 h429 h500
    · unfold recordChatSuccess at h
      simp only at h
      split at h
      · cases h
      · split_ifs at h
    · cases h
      exact ⟨.rotates true, by simp [Upstream.fails, deadKeyCodes, h404]⟩
    · unfold recordRetryAfter at h
      split at h
      · cases h
      · split at h <;> cases h
    · cases h
      have hfail : (Answer.upstream (buildSuccessResponse r stream)).isSuccess = false :=
        Bool.eq_false_iff.mpr hsuccess
      exact ⟨.ends _ hfail, by simp [Upstream.fails, hdead, h429, h500]⟩

/-! ### What has accrued in the table -/

/-- The row is as it was, or was depleted with its cooldown over and has been
reactivated. -/
def ApiKey.Kept (row₀ row : ApiKey) : Prop :=
  row = row₀ ∨ ∃ now, row₀.cooledDown now = true ∧
    row = { row₀ with status := .active, cooldownUntil := none, updatedAt := now }

/-- The attempt with the key failed. -/
def failedOn (id : ℕ) (a : ℕ × Upstream) : Bool := a.1 = id && a.2.fails

/-- The sum of `total_requests` over all keys. -/
def allRequests (t : KeyTable) : ℕ := t.total (·.totalRequests)

/-- The table after the attempts `answered`, of which `posted` are recorded, a
success among them or not. -/
structure Accrued (t₀ t : KeyTable) (answered posted : List (ℕ × Upstream)) (success : Bool) : Prop where
  absent : ∀ id, t₀.get? id = none → t.get? id = none
  row : ∀ id row₀, t₀.get? id = some row₀ → ∃ row, t.get? id = some row ∧
    row.totalFailures = row₀.totalFailures + posted.countP (failedOn id) ∧
    ((∀ a ∈ answered, a.1 ≠ id) → row₀.Kept row)
  requests : allRequests t = allRequests t₀ + if success then 1 else 0

section

variable {t₀ t : KeyTable} {answered posted : List (ℕ × Upstream)} {success : Bool} {id : ℕ} {u : Upstream}

theorem Accrued.init (t : KeyTable) : Accrued t t [] [] false where
  absent _ h := h
  row _ row₀ hrow := ⟨row₀, hrow, rfl, fun _ => Or.inl rfl⟩
  requests := rfl

theorem Accrued.isSome (h : Accrued t₀ t answered posted success) (id : ℕ) :
    (t.get? id).isSome = (t₀.get? id).isSome := by
  cases hrow₀ : t₀.get? id with
  | none => rw [h.absent id hrow₀]
  | some row₀ =>
    obtain ⟨row, hrow, -⟩ := h.row id row₀ hrow₀
    rw [hrow]
    rfl

/-- A kept row stays kept when the keys that have cooled down are reactivated. -/
theorem Accrued.reactivate (h : Accrued t₀ t answered posted success) (now : ℤ) :
    Accrued t₀ (reactivateLocked t now) answered posted success := by
  refine ⟨fun id hid => ?_, fun id row₀ hrow₀ => ?_, ?_⟩
  · rw [reactivateLocked, Table.get?_mapRows, h.absent id hid]
    rfl
  · obtain ⟨row, hrow, hfailures, hkept⟩ := h.row id row₀ hrow₀
    by_cases hcool : row.cooledDown now = true
    · have hget : (reactivateLocked t now).get? id =
          some { row with status := .active, cooldownUntil := none, updatedAt := now } := by
        rw [reactivateLocked, Table.get?_mapRows, hrow, Option.map_some, if_pos hcool]
      refine ⟨_, hget, hfailures, fun hnone => ?_⟩
      rcases hkept hnone with rfl | ⟨before, -, rfl⟩
      · exact Or.inr ⟨now, hcool, rfl⟩
      · cases ApiKey.depleted_of_cooledDown hcool
    · have hget : (reactivateLocked t now).get? id = some row := by
        rw [reactivateLocked, Table.get?_mapRows, hrow, Option.map_some, if_neg hcool]
      exact ⟨row, hget, hfailures, hkept⟩
  · have hcolumn : ∀ (_ : ℕ) (k : ApiKey), (if k.cooledDown now then
        { k with status := .active, cooldownUntil := none, updatedAt := now } else k).totalRequests =
          k.totalRequests := by
      intro _ k
      split_ifs <;> rfl
    rw [allRequests, reactivateLocked, Table.total_mapRows hcolumn]
    exact h.requests

/-- An answer that waits for its recorder. -/
theorem Accrued.hear (h : Accrued t₀ t answered posted success) (a : ℕ × Upstream) :
    Accrued t₀ t (answered ++ [a]) posted success where
  absent := h.absent
  row id row₀ hrow₀ := by
    obtain ⟨row, hrow, hfailures, hkept⟩ := h.row id row₀ hrow₀
    exact ⟨row, hrow, hfailures, fun hnone => hkept fun b hb => hnone b (List.mem_append_left _ hb)⟩
  requests := h.requests

/-- An answer of which nothing is recorded. -/
theorem Accrued.pass (h : Accrued t₀ t answered posted success) (hu : u.fails = false) :
    Accrued t₀ t answered (posted ++ [(id, u)]) success where
  absent := h.absent
  row i row₀ hrow₀ := by
    obtain ⟨row, hrow, hfailures, hkept⟩ := h.row i row₀ hrow₀
    refine ⟨row, hrow, ?_, hkept⟩
    rw [hfailures, List.countP_append, List.countP_singleton, failedOn, hu, Bool.and_false]
    rfl
  requests := h.requests

/-- A recorder's commit, for an attempt that was answered. -/
theorem Accrued.commit (h : Accrued t₀ t answered posted false) {rec : Recorder} {copy : ApiKey}
    (hmem : (id, u) ∈ answered) (hpresent : (t.get? id).isSome = true)
    (hfailures : rec.failures = if u.fails then 1 else 0) (hrequests : rec.requests = if success then 1 else 0) :
    Accrued t₀ (t.modify id (rec.write copy)) answered (posted ++ [(id, u)]) success := by
  refine ⟨fun i hi => ?_, fun i row₀ hrow₀ => ?_, ?_⟩
  · rw [Table.get?_modify, h.absent i hi]
    split_ifs <;> rfl
  · obtain ⟨row, hrow, hcount, hkept⟩ := h.row i row₀ hrow₀
    rw [List.countP_append, List.countP_singleton]
    by_cases hi : i = id
    · subst hi
      refine ⟨rec.write copy row, by rw [Table.get?_modify_self, hrow]; rfl, ?_, fun hnone => ?_⟩
      · have hfailed : failedOn i (i, u) = u.fails := by simp [failedOn]
        rw [rec.write_totalFailures, hcount, hfailures, hfailed, Nat.add_assoc]
      · exact absurd rfl (hnone _ hmem)
    · refine ⟨row, by rw [Table.get?_modify_of_ne _ hi, hrow], ?_, hkept⟩
      have hother : failedOn i (id, u) = false := by
        rw [failedOn, decide_eq_false (Ne.symm hi)]
        rfl
      rw [hcount, hother]
      rfl
  · obtain ⟨row, hrow⟩ := Option.isSome_iff_exists.mp hpresent
    have hgrows : (rec.write copy row).totalRequests = row.totalRequests + rec.requests :=
      rec.write_totalRequests copy row
    rw [allRequests, Table.total_modify hrow hgrows, hrequests]
    exact congrArg (· + _) h.requests

end

/-! ### One turn -/

namespace Request

/-- The attempts that are recorded, if they are to be, and whether a success is
among them. -/
inductive Phase (q : Request) : List (ℕ × Upstream) → Bool → Prop
  | looping (hpc : q.pc.holdsKey = false) (hdone : q.pc.isDone = false) : Phase q q.answered false
  | calling (rawKey : String) (hpc : q.pc = .upstream rawKey) : Phase q q.answered false
  | committing (rec : Recorder) (ret : Return) (success : Bool) (copy : Copy) (u : Upstream)
    (posted : List (ℕ × Upstream)) (hpc : q.pc = .commit rec ret) (hkey : q.key = some copy)
    (hanswered : q.answered = posted ++ [(copy.id, u)]) (hret : ChatReturn ret success)
    (hfailures : rec.failures = if u.fails then 1 else 0) (hrequests : rec.requests = if success then 1 else 0) :
    Phase q posted false
  | refreshing (ret : Return) (success : Bool) (hpc : q.pc = .refresh ret) (hret : ChatReturn ret success) :
    Phase q q.answered success
  | ended (answer : Answer) (hpc : q.pc = .done answer) : Phase q q.answered answer.isSuccess

section

variable {q : Request} {posted : List (ℕ × Upstream)} {success : Bool}

/-- Outside the recorders everything is recorded, and before the answer there is
no success. -/
theorem Phase.of_not_recording (h : q.Phase posted success) (hpc : q.pc.isRecording = false)
    (hdone : q.pc.isDone = false) : posted = q.answered ∧ success = false := by
  cases h with
  | looping => exact ⟨rfl, rfl⟩
  | calling => exact ⟨rfl, rfl⟩
  | committing rec ret success copy u posted hk => rw [hk] at hpc; cases hpc
  | refreshing ret success hk => rw [hk] at hpc; cases hpc
  | ended answer hk => rw [hk] at hdone; cases hdone

theorem Phase.of_commit {rec : Recorder} {ret : Return} (h : q.Phase posted success) (hpc : q.pc = .commit rec ret) :
    success = false ∧ ∃ copy u success', q.key = some copy ∧ q.answered = posted ++ [(copy.id, u)] ∧
      ChatReturn ret success' ∧ rec.failures = (if u.fails then 1 else 0) ∧
      rec.requests = if success' then 1 else 0 := by
  cases h with
  | committing rec' ret' success' copy u posted hk hkey hanswered hret hfailures hrequests =>
    cases hpc.symm.trans hk
    exact ⟨rfl, copy, u, success', hkey, hanswered, hret, hfailures, hrequests⟩
  | looping hk => rw [hpc] at hk; cases hk
  | calling rawKey hk => rw [hpc] at hk; cases hk
  | refreshing ret success hk => rw [hpc] at hk; cases hk
  | ended answer hk => rw [hpc] at hk; cases hk

theorem Phase.of_refresh {ret : Return} (h : q.Phase posted success) (hpc : q.pc = .refresh ret) :
    posted = q.answered ∧ ChatReturn ret success := by
  cases h with
  | refreshing ret' success hk hret =>
    cases hpc.symm.trans hk
    exact ⟨rfl, hret⟩
  | looping hk => rw [hpc] at hk; cases hk
  | calling rawKey hk => rw [hpc] at hk; cases hk
  | committing rec ret success copy u posted hk => rw [hpc] at hk; cases hk
  | ended answer hk => rw [hpc] at hk; cases hk

theorem Phase.of_done {answer : Answer} (h : q.Phase posted success) (hpc : q.pc = .done answer) :
    posted = q.answered ∧ success = answer.isSuccess := by
  cases h with
  | ended answer' hk =>
    cases hpc.symm.trans hk
    exact ⟨rfl, rfl⟩
  | looping hk hdone => rw [hpc] at hdone; cases hdone
  | calling rawKey hk => rw [hpc] at hk; cases hk
  | committing rec ret success copy u posted hk => rw [hpc] at hk; cases hk
  | refreshing ret success hk => rw [hpc] at hk; cases hk

end

/-- The request `q` goes on without a key, as `q'`. -/
structure GoesOn (q q' : Request) (success : Bool) : Prop where
  kind : q'.kind = q.kind
  initialCount : q'.initialCount = q.initialCount
  answered : q'.answered = q.answered
  free : q'.pc.holdsKey = false
  counted : q'.pc ≠ .count
  phase : q'.Phase q'.answered success

section

variable (q : Request)

theorem stop_goesOn (answer : Answer) : q.GoesOn (q.stop answer) answer.isSuccess :=
  ⟨rfl, rfl, rfl, rfl, fun h => (by cases h), .ended answer rfl⟩

theorem verdict_isSuccess (requestedModel : Option String) (n : ℕ) (anyAttempt all404 : Bool) :
    (verdict requestedModel n anyAttempt all404).isSuccess = false := by
  obtain ⟨code, detail, h⟩ := verdict_eq_proxy requestedModel n anyAttempt all404
  rw [h]
  rfl

theorem giveUp_goesOn : q.GoesOn q.giveUp false := by
  unfold giveUp
  split
  · rw [← verdict_isSuccess]
    exact q.stop_goesOn _
  · exact q.stop_goesOn (.models false [])

theorem nextIteration_goesOn : q.GoesOn q.nextIteration false := by
  unfold nextIteration
  split
  · exact q.giveUp_goesOn
  · exact ⟨rfl, rfl, rfl, rfl, fun h => (by cases h), .looping rfl rfl⟩

theorem noKey_goesOn (now : ℤ) : q.GoesOn (q.noKey now) false := by
  have hgiveUp : q.GoesOn ({ q with key := none } : Request).giveUp false := by
    have h := ({ q with key := none } : Request).giveUp_goesOn
    exact ⟨h.kind, h.initialCount, h.answered, h.free, h.counted, h.phase⟩
  unfold noKey
  simp only
  split
  · exact ⟨rfl, rfl, rfl, rfl, fun h => (by cases h), .ended (.models false []) rfl⟩
  · split_ifs
    · exact hgiveUp
    · exact ⟨rfl, rfl, rfl, rfl, fun h => (by cases h), .looping rfl rfl⟩

variable {q}

theorem returned_goesOn (hchat : q.IsChat) {ret : Return} {success : Bool} (h : ChatReturn ret success) :
    q.GoesOn (q.returned ret) success := by
  cases h with
  | rotates all404Hint =>
    have h := ({ q with all404 := q.all404 && all404Hint } : Request).nextIteration_goesOn
    exact ⟨h.kind, h.initialCount, h.answered, h.free, h.counted, h.phase⟩
  | ends r hr =>
    have h := q.stop_goesOn (.upstream r)
    rw [hr] at h
    exact h
  | delivers r hr =>
    obtain ⟨requestedModel, stream, hkind⟩ := hchat
    have hreturned : q.returned (delivered r) =
        ({ q with all404 := false } : Request).stop (.upstream (buildSuccessResponse r stream)) := by
      simp [returned, delivered, hkind]
    have hsuccess : (Answer.upstream (buildSuccessResponse r stream)).isSuccess = true := hr
    rw [hreturned, ← hsuccess]
    exact ⟨rfl, rfl, rfl, rfl, fun h => (by cases h), .ended _ rfl⟩

/-- Whether an upstream call is under way. -/
def atCall (q : Request) : ℕ :=
  match q.pc with
  | .upstream _ => 1
  | _ => 0

theorem atCall_eq_zero (h : ∀ rawKey, q.pc ≠ .upstream rawKey) : q.atCall = 0 := by
  unfold atCall
  split
  · next rawKey hpc => exact absurd hpc (h rawKey)
  · rfl

theorem GoesOn.atCall {q' : Request} {success : Bool} (h : q.GoesOn q' success) : q'.atCall = 0 := by
  have hfree := h.free
  refine atCall_eq_zero fun rawKey hpc => ?_
  rw [hpc] at hfree
  cases hfree

end

end Request

namespace Turn

/-- What a chat request has made of the table `t₀` it began with, and of the
iterations it has spent. -/
structure Balanced (t₀ : KeyTable) (x : Turn) (l : List Spent) : Prop where
  chat : x.request.IsChat
  counting : x.request.pc = .count → x.table = t₀
  counted : x.request.pc ≠ .count → x.request.initialCount = countActive t₀
  present : x.request.pc.holdsKey = true → ∀ copy, x.request.key = some copy → (t₀.get? copy.id).isSome = true
  calls : l.count .attempt = x.request.answered.length + x.request.atCall
  accrued : ∃ posted success, x.request.Phase posted success ∧
    Accrued t₀ x.table x.request.answered posted success

section

variable {rot : Rotation} {now : ℤ} {p : ℕ} {x x' : Turn} {ev : Event} {l : List Spent} {t₀ : KeyTable}

/-- A request that goes on without a key from `q`. -/
theorem Balanced.of_goesOn {q q' : Request} {success : Bool} {t : KeyTable} {m : KeyManager}
    (h : q.GoesOn q' success) (hchat : q.IsChat) (hcount : q.initialCount = countActive t₀)
    (hcalls : l.count .attempt = q.answered.length) (ha : Accrued t₀ t q.answered q.answered success) :
    (⟨t, m, q'⟩ : Turn).Balanced t₀ l where
  chat := by rwa [Request.IsChat, h.kind]
  counting hpc := absurd hpc h.counted
  counted _ := h.initialCount.trans hcount
  present hpc := by
    rw [h.free] at hpc
    cases hpc
  calls := by
    show l.count .attempt = q'.answered.length + q'.atCall
    rw [h.atCall, h.answered]
    exact hcalls
  accrued := by
    rw [← h.answered] at ha
    exact ⟨_, _, h.phase, ha⟩

/-- Between two attempts everything is recorded. -/
theorem Balanced.between (h : x.Balanced t₀ l) (hkey : x.request.pc.holdsKey = false)
    (hdone : x.request.pc.isDone = false) :
    l.count .attempt = x.request.answered.length ∧
      Accrued t₀ x.table x.request.answered x.request.answered false := by
  obtain ⟨posted, success, hphase, ha⟩ := h.accrued
  have hcall : x.request.atCall = 0 := Request.atCall_eq_zero fun rawKey hpc => by
    rw [hpc] at hkey
    cases hkey
  have hrecording : x.request.pc.isRecording = false := by
    by_contra hrec
    rw [Pc.holdsKey_of_isRecording (Bool.not_eq_false _ ▸ hrec)] at hkey
    cases hkey
  obtain ⟨rfl, rfl⟩ := hphase.of_not_recording hrecording hdone
  have hcalls := h.calls
  rw [hcall, Nat.add_zero] at hcalls
  exact ⟨hcalls, ha⟩

theorem PickMove.balanced (h : PickMove rot now x ev x') (hx : x.Balanced t₀ l)
    (hev : ev.interrupts = false) : x'.Balanced t₀ (l ++ x.spends rot ev) := by
  obtain ⟨hkey, -, hdone⟩ := Pc.not_holdsKey_of_holdsLock h.holdsLock
  obtain ⟨hcalls, ha⟩ := hx.between hkey hdone
  have hcount : x.request.initialCount = countActive t₀ := hx.counted fun hpc => by
    have := h.holdsLock
    rw [hpc] at this
    cases this
  obtain ⟨requestedModel, stream, hkind⟩ := hx.chat
  cases h with
  | emptied hpc hempty =>
    have hno : ¬ x.Selects := by
      rintro (⟨-, hne⟩ | hpc')
      · exact hne hempty
      · rw [hpc] at hpc'
        cases hpc'
    rw [spends_of_not_selects hno, List.append_nil]
    apply Balanced.of_goesOn (q := x.request) _ hx.chat hcount hcalls ha
    exact ⟨rfl, rfl, rfl, rfl, fun h => (by cases h), .looping rfl rfl⟩
  | reactivated updateNow hpc =>
    have hno : ¬ x.Selects := not_selects_of_pc (by rw [hpc]; nofun) (by rw [hpc]; nofun)
    rw [spends_of_not_selects hno, List.append_nil]
    apply Balanced.of_goesOn (q := x.request) _ hx.chat hcount hcalls (ha.reactivate updateNow)
    exact ⟨rfl, rfl, rfl, rfl, fun h => (by cases h), .looping rfl rfl⟩
  | left answer t hpc hev' ht hab =>
    rw [hev] at hev'
    cases hev'
  | missed hpc hall =>
    have hnone : (x.manager.choose (loadActive x.table)).1 = none := choose_eq_none_iff.mpr hall
    have hspent : (x.spends rot .ok).count .attempt = 0 := by
      rw [spends_of_selects hpc, spent, hnone]
      simp only
      split_ifs <;> rfl
    have hcalls' : (l ++ x.spends rot .ok).count .attempt = x.request.answered.length := by
      rw [List.count_append, hspent]
      exact hcalls
    exact .of_goesOn (x.request.noKey_goesOn now) hx.chat hcount hcalls' ha
  | skipped id row m hpc hchoose hvault =>
    have hspent : x.spends rot .ok = [.undecryptable] := by
      rw [spends_of_selects hpc, spent, hchoose]
      simp only [hvault]
    have hcalls' : (l ++ x.spends rot .ok).count .attempt = x.request.answered.length := by
      rw [hspent, List.count_append]
      exact hcalls
    have hret : ChatReturn x.request.undecryptable false := by
      rw [Request.undecryptable, hkind]
      exact .rotates false
    have hgo := Request.returned_goesOn (q := { x.picked id row with reserved := none }) hx.chat hret
    exact .of_goesOn hgo hx.chat hcount hcalls' ha
  | attempted id row m rawKey hpc hchoose hvault =>
    have hspent : x.spends rot .ok = [.attempt] := by
      rw [spends_of_selects hpc, spent, hchoose]
      simp only [hvault]
    have hrow : x.table.get? id = some row := (mem_loadActive.mp (choose_mem hchoose)).1
    refine ⟨hx.chat, fun h => (by cases h), fun _ => hcount, fun _ copy hcopy => ?_, ?_, ?_⟩
    · cases hcopy
      rw [Request.copyOf_id, ← ha.isSome, hrow]
      rfl
    · rw [hspent, List.count_append, hcalls]
      rfl
    · exact ⟨_, _, .calling rawKey rfl, ha⟩

theorem AnswerMove.balanced {copy : Copy} {rawKey : String} (h : AnswerMove rot now x copy ev x')
    (hpc : x.request.pc = .upstream rawKey) (hkey : x.request.key = some copy) (hx : x.Balanced t₀ l)
    (hev : ev.interrupts = false) (hquiet : ∀ u, ev = .answer u → ∀ e, x.request.dispatch rot now u ≠ .raised e) :
    x'.Balanced t₀ l := by
  have hcount : x.request.initialCount = countActive t₀ := hx.counted (by rw [hpc]; nofun)
  have hpresent : (t₀.get? copy.id).isSome = true := hx.present (by rw [hpc]; rfl) copy hkey
  have hcalls : l.count .attempt = x.request.answered.length + 1 := by
    rw [hx.calls, Request.atCall, hpc]
  have ha : Accrued t₀ x.table x.request.answered x.request.answered false := by
    obtain ⟨posted, success, hphase, ha⟩ := hx.accrued
    obtain ⟨rfl, rfl⟩ := hphase.of_not_recording (by rw [hpc]; rfl) (by rw [hpc]; rfl)
    exact ha
  obtain ⟨requestedModel, stream, hkind⟩ := hx.chat
  cases h with
  | answered u rec ret hd =>
    simp only [Request.dispatch, hkind] at hd
    obtain ⟨success, hret, hfailures, hrequests⟩ := dispatchOne_posts hd
    refine ⟨hx.chat, fun h => (by cases h), fun _ => hcount, fun _ c hc => ?_, ?_, ?_⟩
    · have hc' : x.request.key = some c := hc
      rw [hkey] at hc'
      cases hc'
      exact hpresent
    · show l.count .attempt = (x.request.answered ++ [(copy.id, u)]).length + 0
      rw [hcalls, List.length_append]
      rfl
    · exact ⟨_, _, .committing rec ret success copy u x.request.answered rfl hkey rfl hret hfailures hrequests,
        ha.hear (copy.id, u)⟩
  | unrecorded u ret hd =>
    simp only [Request.dispatch, hkind] at hd
    obtain ⟨hret, hfails⟩ := dispatchOne_unposted hd
    have hgo := Request.returned_goesOn (q := { x.heard copy u with reserved := none }) hx.chat hret
    have hcalls' : l.count .attempt = (x.request.answered ++ [(copy.id, u)]).length := by
      rw [hcalls, List.length_append]
      rfl
    exact .of_goesOn hgo hx.chat hcount hcalls' ((ha.hear (copy.id, u)).pass hfails)
  | unread u e hd => exact absurd hd (hquiet u rfl e)
  | hungUp written expired => cases hev

theorem Balanced.isSome {id : ℕ} (hx : x.Balanced t₀ l) (hpresent : (t₀.get? id).isSome = true) :
    (x.table.get? id).isSome = true := by
  obtain ⟨posted, success, -, ha⟩ := hx.accrued
  rw [ha.isSome, hpresent]

/-- A recorder's commit finds the row that the key had at the start. -/
theorem Balanced.committed {copy : Copy} {rec : Recorder} {ret : Return} {t : KeyTable} (hx : x.Balanced t₀ l)
    (hpc : x.request.pc = .commit rec ret) (hkey : x.request.key = some copy)
    (hcommit : rec.commit copy.id copy.row x.table = some t) :
    ∃ success, ChatReturn ret success ∧ Accrued t₀ t x.request.answered x.request.answered success := by
  have hpresent : (t₀.get? copy.id).isSome = true := hx.present (by rw [hpc]; rfl) copy hkey
  obtain ⟨-, -, rfl⟩ := Recorder.commit_eq_some_iff.mp hcommit
  obtain ⟨posted, success, hphase, ha⟩ := hx.accrued
  obtain ⟨rfl, copy', u, success', hkey', hanswered, hret, hfailures, hrequests⟩ := hphase.of_commit hpc
  cases hkey.symm.trans hkey'
  have hmem : (copy.id, u) ∈ x.request.answered := by simp [hanswered]
  have hposts : Accrued t₀ (x.table.modify copy.id (rec.write copy.row)) _ _ success' :=
    ha.commit hmem (hx.isSome hpresent) hfailures hrequests
  rw [← hanswered] at hposts
  exact ⟨success', hret, hposts⟩

/-- The copy of a row that is there expires by an interruption only, where the
counts to record are integers of SQLite. -/
theorem expires_of_isSome {copy : Copy} (hrow : (x.table.get? copy.id).isSome = true)
    (hfits : ∀ rec ret, ev = .ok → x.request.pc = .commit rec ret → rec.fits copy.row = true)
    (hev : ev.interrupts = false) : x.expires copy ev = false := by
  cases ev with
  | ok =>
    unfold expires
    simp only
    split
    · rename_i rec ret hpc
      have hsome : rec.commit copy.id copy.row x.table = some _ :=
        Recorder.commit_eq_some_iff.mpr ⟨hfits rec ret rfl hpc, fun _ => hrow, rfl⟩
      rw [hsome]
      rfl
    · rw [Option.isNone_eq_false_iff]
      exact hrow
    · rfl
  | answer u => rfl
  | fail => cases hev
  | cancel written expired => cases hev

theorem RecordMove.balanced {copy : Copy} (h : RecordMove x copy ev x')
    (hpc : x.request.pc.isRecording = true) (hkey : x.request.key = some copy) (hx : x.Balanced t₀ l)
    (hev : ev.interrupts = false)
    (hfits : ∀ rec ret, ev = .ok → x.request.pc = .commit rec ret → rec.fits copy.row = true) :
    x'.Balanced t₀ l := by
  have hcount : x.request.initialCount = countActive t₀ := hx.counted fun h => by
    rw [h] at hpc
    cases hpc
  have hpresent : (t₀.get? copy.id).isSome = true := hx.present (Pc.holdsKey_of_isRecording hpc) copy hkey
  have hcalls : l.count .attempt = x.request.answered.length := by
    have hcall : x.request.atCall = 0 := Request.atCall_eq_zero fun rawKey hpc' => by
      rw [hpc'] at hpc
      cases hpc
    have hcalls := hx.calls
    rwa [hcall, Nat.add_zero] at hcalls
  cases h with
  | recorded v ret t hpc' hcommit =>
    obtain ⟨success, hret, hposts⟩ := hx.committed hpc' hkey hcommit
    refine ⟨hx.chat, fun h => (by cases h), fun _ => hcount, fun _ c hc => ?_, hcalls, ?_⟩
    · have hc' : x.request.key = some c := hc
      rw [hkey] at hc'
      cases hc'
      exact hpresent
    · exact ⟨_, _, .refreshing ret success rfl hret, hposts⟩
  | recordedUsage u ret t hpc' hcommit =>
    obtain ⟨success, hret, hposts⟩ := hx.committed hpc' hkey hcommit
    apply Balanced.of_goesOn (Request.returned_goesOn _ hret)
    · exact hx.chat
    · exact hcount
    · exact hcalls
    · exact hposts
    · exact hx.chat
  | refreshed ret row hpc' hrow' =>
    obtain ⟨posted, success, hphase, ha⟩ := hx.accrued
    obtain ⟨rfl, hret⟩ := hphase.of_refresh hpc'
    apply Balanced.of_goesOn (Request.returned_goesOn _ hret)
    · exact hx.chat
    · exact hcount
    · exact hcalls
    · exact ha
    · exact hx.chat
  | cancelled written rec ret t hpc' ht => cases hev
  | leaked t hexp ht =>
    rw [expires_of_isSome (hx.isSome hpresent) hfits hev] at hexp
    cases hexp

/-- One turn that neither fails nor is cancelled. -/
theorem Move.balanced (h : Move rot now p x ev x') (hx : x.Balanced t₀ l) (hev : ev.interrupts = false)
    (hquiet : ∀ u, ev = .answer u → ∀ e, x.request.dispatch rot now u ≠ .raised e)
    (hfits : ∀ rec ret copy, ev = .ok → x.request.pc = .commit rec ret → x.request.key = some copy →
      rec.fits copy.row = true) : x'.Balanced t₀ (l ++ x.spends rot ev) := by
  have hkeeps : ¬ x.Selects → x'.Balanced t₀ l → x'.Balanced t₀ (l ++ x.spends rot ev) :=
    fun hno hx' => by rwa [spends_of_not_selects hno, List.append_nil]
  have hnot : ∀ {pc : Pc}, x.request.pc = pc → pc.holdsLock = false → ¬ x.Selects := fun hpc hlock hsel => by
    have := hsel.holdsLock
    rw [hpc, hlock] at this
    cases this
  cases h with
  | counted hpc =>
    obtain ⟨hcalls, ha⟩ := hx.between (by rw [hpc]; rfl) (by rw [hpc]; rfl)
    have hstart := hx.counting hpc
    apply hkeeps (hnot hpc rfl)
    apply Balanced.of_goesOn (Request.nextIteration_goesOn _)
    · exact hx.chat
    · exact congrArg countActive hstart
    · exact hcalls
    · exact ha
  | quit answer hpc hev' hab =>
    rw [hev] at hev'
    cases hev'
  | acquired hpc hlock =>
    obtain ⟨hcalls, ha⟩ := hx.between (by rw [hpc]; rfl) (by rw [hpc]; rfl)
    apply hkeeps (hnot hpc rfl)
    apply Balanced.of_goesOn (q := x.request) _ hx.chat (hx.counted (by rw [hpc]; nofun)) hcalls ha
    exact ⟨rfl, rfl, rfl, rfl, fun h => (by cases h), .looping rfl rfl⟩
  | pick h => exact h.balanced hx hev
  | slept deadline hpc => exact hkeeps (hnot hpc rfl) hx
  | woke deadline hpc =>
    obtain ⟨hcalls, ha⟩ := hx.between (by rw [hpc]; rfl) (by rw [hpc]; rfl)
    apply hkeeps (hnot hpc rfl)
    exact .of_goesOn (Request.nextIteration_goesOn _) hx.chat (hx.counted (by rw [hpc]; nofun)) hcalls ha
  | answer rawKey copy hpc hkey h => exact hkeeps (hnot hpc rfl) (h.balanced hpc hkey hx hev hquiet)
  | record copy hpc hkey h =>
    have hno : ¬ x.Selects := fun hsel => by
      have := Pc.not_holdsKey_of_holdsLock hsel.holdsLock
      rw [hpc] at this
      cases this.2.1
    exact hkeeps hno (h.balanced hpc hkey hx hev fun rec ret hok hpc => hfits rec ret copy hok hpc hkey)

end

end Turn

/-! ### A run -/

/-- The await returns, and no exception follows. -/
def Request.goesThrough (rot : Rotation) (now : ℤ) (q : Request) : Event → Bool
  | .ok =>
    match q.pc, q.key with
    | .commit rec _, some copy => rec.fits copy.row
    | _, _ => true
  | .answer u =>
    match q.dispatch rot now u with
    | .raised _ => false
    | _ => true
  | .fail | .cancel _ _ => false

/-- Only request `p` runs, up to its answer. -/
def RunsAlone (rot : Rotation) (p : ℕ) (w : World) : Action → Prop
  | .resume q ev => q = p ∧ (w.requests p).goesThrough rot w.now ev = true
  | .tick _ => True
  | .start _ _ | .admin _ => False

instance (rot : Rotation) (p : ℕ) (w : World) (a : Action) : Decidable (RunsAlone rot p w a) :=
  match a with
  | .resume q ev => inferInstanceAs (Decidable (q = p ∧ (w.requests p).goesThrough rot w.now ev = true))
  | .tick _ => inferInstanceAs (Decidable True)
  | .start _ _ | .admin _ => inferInstanceAs (Decidable False)

theorem Request.not_interrupts_of_goesThrough {rot : Rotation} {now : ℤ} {q : Request} {ev : Event}
    (h : q.goesThrough rot now ev = true) : ev.interrupts = false := by
  cases ev <;> first | rfl | cases h

theorem Request.fits_of_goesThrough {rot : Rotation} {now : ℤ} {q : Request} {rec : Recorder} {ret : Return}
    {copy : Copy} (h : q.goesThrough rot now .ok = true) (hpc : q.pc = .commit rec ret) (hkey : q.key = some copy) :
    rec.fits copy.row = true := by
  simpa [goesThrough, hpc, hkey] using h

theorem Request.not_raised_of_goesThrough {rot : Rotation} {now : ℤ} {q : Request} {u : Upstream}
    (h : q.goesThrough rot now (.answer u) = true) (e : PyError) : q.dispatch rot now u ≠ .raised e := by
  intro hd
  simp [goesThrough, hd] at h

/-- What two kinds of iterations take up. -/
theorem count_attempt_add_le (l : List Spent) : l.count .attempt + l.count .undecryptable ≤ l.length := by
  induction l with
  | nil => exact le_rfl
  | cons s l ih =>
    cases s <;> simp only [List.count_cons, List.length_cons, beq_iff_eq, reduceCtorEq, if_true, if_false] <;> omega

namespace World

variable {rot : Rotation} {w w' : World} {a : Action} {p : ℕ} {t₀ : KeyTable} {l : List Spent}

theorem start_balanced (requestedModel : Option String) (stream : Bool) (t : KeyTable) (m : KeyManager) :
    (⟨t, m, .start (.chat requestedModel stream)⟩ : Turn).Balanced t [] where
  chat := ⟨_, _, rfl⟩
  counting _ := rfl
  counted h := absurd rfl h
  present h := by cases h
  calls := rfl
  accrued := ⟨[], false, .looping rfl rfl, .init t⟩

theorem step_balanced (hw : w.Sound) (hb : (w.turn p).Balanced t₀ l) (ha : RunsAlone rot p w a)
    (h : w.step rot a = some w') : (w'.turn p).Balanced t₀ (l ++ w.spends rot p a) := by
  cases a with
  | resume q ev =>
    obtain ⟨rfl, hgoes⟩ := ha
    obtain ⟨x', hm, rfl⟩ := step_resume hw h
    have hspends : w.spends rot q (.resume q ev) = (w.turn q).spends rot ev := if_pos rfl
    rw [hspends, put_turn_self]
    apply hm.balanced hb (Request.not_interrupts_of_goesThrough hgoes)
    · rintro u rfl
      exact Request.not_raised_of_goesThrough hgoes
    · rintro rec ret copy rfl hpc hkey
      exact Request.fits_of_goesThrough hgoes hpc hkey
  | tick d =>
    cases h
    rw [spends_of_not_turn rfl, List.append_nil]
    exact hb
  | start q kind => exact ha.elim
  | admin op => exact ha.elim

/-- A chat request runs alone from any state that a run reaches, and ends with
an answer. The iterations it spends on attempts and on keys that cannot be
decrypted are at most those it was given; every key has one more failure for
each of its attempts that failed; the requests of all keys are one more exactly
if the answer is an upstream 2xx; and a key that was never called is as it was,
or was reactivated. -/
theorem books_balance {t : KeyTable} {now : ℤ} {before as : List Action} {w₀ w₁ w : World}
    {requestedModel : Option String} {stream : Bool} {answer : Answer} (hmargin : 0 ≤ rot.safetyMargin)
    (hbefore : run (step rot) (init t now) before = some w₀)
    (hstart : w₀.step rot (.start p (.chat requestedModel stream)) = some w₁)
    (hrun : run (step rot) w₁ as = some w) (halone : Along (step rot) (RunsAlone rot p) w₁ as)
    (hanswer : (w.requests p).answer? = some answer) :
    (((w.requests p).answered.length + (outputs (step rot) (spends rot p) w₁ as).count .undecryptable : ℕ) : ℤ) ≤
        (max 1 (countActive w₀.table) : ℕ) + rot.safetyMargin ∧
    (∀ id, w₀.table.get? id = none → w.table.get? id = none) ∧
    (∀ id row₀, w₀.table.get? id = some row₀ → ∃ row, w.table.get? id = some row ∧
      row.totalFailures = row₀.totalFailures + (w.requests p).answered.countP (failedOn id) ∧
      ((∀ a ∈ (w.requests p).answered, a.1 ≠ id) → row₀.Kept row)) ∧
    allRequests w.table = allRequests w₀.table + if answer.isSuccess then 1 else 0 := by
  have hsound₀ := run_sound hbefore
  have hsound₁ := step_sound hsound₀ hstart
  have hprefix : run (step rot) (init t now) (before ++ [.start p (.chat requestedModel stream)]) = some w₁ :=
    run_concat_iff.mpr ⟨w₀, hbefore, hstart⟩
  obtain ⟨-, hw₁⟩ := step_start hstart
  have hself : w₁.requests p = .start (.chat requestedModel stream) := by
    rw [hw₁]
    exact Function.update_self _ _ _
  have hbalanced₁ : (w₁.turn p).Balanced w₀.table [] := by
    rw [turn, hself, hw₁]
    exact start_balanced requestedModel stream w₀.table w₀.manager
  have hstep : ∀ (s : World) l a s', (s.Sound ∧ (s.turn p).Balanced w₀.table l) → RunsAlone rot p s a →
      s.step rot a = some s' → s'.Sound ∧ (s'.turn p).Balanced w₀.table (l ++ s.spends rot p a) :=
    fun _ _ _ _ hI ha h => ⟨step_sound hI.1 h, step_balanced hI.1 hI.2 ha h⟩
  obtain ⟨-, hb⟩ := run_history (R := fun s l => s.Sound ∧ (s.turn p).Balanced w₀.table l) hstep
    ⟨hsound₁, hbalanced₁⟩ halone hrun
  rw [List.nil_append] at hb
  have hdone := Request.answer?_eq_some_iff.mp hanswer
  obtain ⟨posted, success, hphase, ha⟩ := hb.accrued
  obtain ⟨rfl, rfl⟩ := hphase.of_done hdone
  refine ⟨?_, ha.absent, ha.row, ha.requests⟩
  -- the request has spent no more than the iterations it was given
  have haccounts₁ := run_accounts hprefix p
  have hcounting : (w₁.requests p).pc = .count := by
    rw [hself]
    rfl
  have hnothing := haccounts₁.entering (Or.inr hcounting)
  have hall := run_accounts (by rw [run_append, hprefix]; exact hrun) p
  rw [outputs_append hprefix, hnothing, List.nil_append] at hall
  have hspent := hall.ended hb.chat (by rw [hdone]; rfl)
  have hcount : (w.requests p).initialCount = countActive w₀.table := hb.counted fun hpc => by
    rw [turn_request, hdone] at hpc
    cases hpc
  have hcalls : (outputs (step rot) (spends rot p) w₁ as).count .attempt = (w.requests p).answered.length := by
    rw [hb.calls, Request.atCall, turn_request, hdone]
    rfl
  have htwo := count_attempt_add_le (outputs (step rot) (spends rot p) w₁ as)
  rw [hcount] at hspent
  unfold maxIter at hspent
  omega

end World

namespace Sample

/-- The first key answers 500, the second one 200. -/
def secondTry : List Action :=
  oks 0 3 ++ .resume 0 (.answer (reply 500)) :: oks 0 4 ++ .resume 0 (.answer (reply 200)) :: oks 0 2

theorem books_balance_secondTry :
    let w₁ := ((World.init pool 0).step rotation (.start 0 chat)).get (by decide)
    let w := (run (World.step rotation) w₁ secondTry).get (by decide)
    (((w.requests 0).answered.length +
        (outputs (World.step rotation) (World.spends rotation 0) w₁ secondTry).count .undecryptable : ℕ) : ℤ) ≤
          (max 1 (countActive pool) : ℕ) + rotation.safetyMargin ∧
      (w.requests 0).answered.length = 2 ∧ allRequests w.table = allRequests pool + 1 := by
  intro w₁ w
  have hbefore : run (World.step rotation) (World.init pool 0) [] = some (World.init pool 0) := rfl
  have hrun : run (World.step rotation) w₁ secondTry = some w := (Option.some_get _).symm
  have hanswer : (w.requests 0).answer? = some (.upstream (buildSuccessResponse (response 200) false)) := by decide
  obtain ⟨hspent, -, -, hrequests⟩ := World.books_balance (by decide) hbefore
    (Option.some_get _).symm hrun (by decide) hanswer
  exact ⟨hspent, by decide, hrequests⟩

end Sample

end OllamaProxy
