/-
# What a key comes to, and the key that ends the rotation

Every attempt with a key has one `Outcome`; `dispatchOne_reports` says what the
loop then makes of it. While nothing else is in flight a selection takes the
key at the pointer, so the attempts are the visits of a round-robin pointer:
a key that is withdrawn leaves the list, and the pointer, which has moved past
it already, passes over the key behind it.

`forecast` is the first key among those visits whose outcome ends the loop.

Key definitions: `Outcome`, `outcomeOf`, `Reports`, `ids`, `forecast`.
Key theorems: `dispatchOne_reports`, `Reports.ids_commit`, `forecast_succ`.
-/
import OllamaProxy.Withdrawal
import OllamaProxy.Lib.RoundRobin

namespace OllamaProxy

open Kit RoundRobin

/-! ### Outcomes -/

/-- What an attempt with a key comes to. A `fault` ends the request too: a
status that is passed through, or bookkeeping that raises. -/
inductive Outcome
  | success
  | unauthorized
  | notFound
  | rateLimited
  | serverError
  | transport
  | undecryptable
  | fault
deriving DecidableEq

/-- The key is withdrawn. -/
def Outcome.drops : Outcome → Bool
  | .unauthorized | .rateLimited => true
  | _ => false

/-- The loop ends. -/
def Outcome.stops : Outcome → Bool
  | .success | .fault => true
  | _ => false

/-- The outcome of an upstream call that ends at time `now`, with the key whose
row the session has as `copy`. -/
def outcomeOf (rot : Rotation) (stream : Bool) (now : ℤ) (copy : ApiKey) : Upstream → Outcome
  | .transport => .transport
  | .raised => .fault
  | .response r =>
    if r.isSuccess then
      match recordChatSuccess stream now r with
      | .record rec _ => if rec.fits copy then .success else .fault
      | _ => .fault
    else if r.statusCode ∈ deadKeyCodes then .unauthorized
    else if r.statusCode = 404 then .notFound
    else if r.statusCode = 429 then
      match recordRetryAfter rot.pyFloat now r (rotateTo false) with
      | .raised _ => .fault
      | _ => .rateLimited
    else if 500 ≤ r.statusCode then .serverError
    else .fault

/-- What a recorder, and then its caller, do for an outcome. A recorder whose
counts are no integers of SQLite raises. -/
inductive Reports (copy : ApiKey) (u : Upstream) : Outcome → Recorder → Return → Prop
  | success (r : Response) (rec : Recorder) (hu : u = .response r) (hr : r.isSuccess = true)
    (hleaves : rec.Leaves copy .active) (hfits : rec.fits copy = true) : Reports copy u .success rec (delivered r)
  | keeps (o : Outcome) (v : KeyValues) (hdrops : o.drops = false) (hstops : o.stops = false)
    (hleaves : (Recorder.update v).Leaves copy .active) : Reports copy u o (.update v) (rotateTo false)
  | drops (o : Outcome) (v : KeyValues) (s : ApiKeyStatus) (hdrops : o.drops = true)
    (hstops : o.stops = false) (hv : v.status = some s) (hs : s ≠ .active) :
    Reports copy u o (.update v) (rotateTo false)
  | overflows (rec : Recorder) (ret : Return) (hfits : rec.fits copy = false) : Reports copy u .fault rec ret

theorem recordChatSuccess_reports (stream : Bool) (now : ℤ) (copy : ApiKey) {r : Response} (hr : r.isSuccess = true) :
    (∃ rec, recordChatSuccess stream now r = .record rec (delivered r) ∧
        Reports copy (.response r) (if rec.fits copy then .success else .fault) rec (delivered r)) ∨
      ∃ e, recordChatSuccess stream now r = .raised e := by
  have hreports : ∀ rec : Recorder, rec.Leaves copy .active →
      Reports copy (.response r) (if rec.fits copy then .success else .fault) rec (delivered r) := by
    intro rec hleaves
    cases hfits : rec.fits copy with
    | true => exact .success r rec rfl hr hleaves hfits
    | false => exact .overflows rec _ hfits
  unfold recordChatSuccess
  simp only
  split
  · exact Or.inr ⟨_, rfl⟩
  · left
    split_ifs
    · exact ⟨_, rfl, hreports _ rfl⟩
    · exact ⟨_, rfl, hreports _ (Or.inr (Or.inl rfl))⟩

theorem recordRetryAfter_reports (pyFloat : String → Option PyFloat) (now : ℤ) (copy : ApiKey) (r : Response) :
    (∃ rec, recordRetryAfter pyFloat now r (rotateTo false) = .record rec (rotateTo false) ∧
        Reports copy (.response r) .rateLimited rec (rotateTo false)) ∨
      ∃ e, recordRetryAfter pyFloat now r (rotateTo false) = .raised e := by
  unfold recordRetryAfter
  split
  · exact Or.inr ⟨_, rfl⟩
  · rename_i retryAfter hretry
    cases hv : recordRateLimited now r.statusCode retryAfter with
    | error e => exact Or.inr ⟨e, rfl⟩
    | ok v =>
      obtain ⟨hstatus, -⟩ := recordRateLimited_eq_ok hv
      exact Or.inl ⟨_, rfl, .drops .rateLimited v .depleted rfl rfl hstatus (by decide)⟩

/-- What the loop makes of an outcome. -/
theorem dispatchOne_reports (rot : Rotation) (stream : Bool) (now : ℤ) (copy : ApiKey) (u : Upstream) :
    (∃ rec ret, dispatchOne rot stream now u = .record rec ret ∧
        Reports copy u (outcomeOf rot stream now copy u) rec ret) ∨
      (outcomeOf rot stream now copy u = .notFound ∧ dispatchOne rot stream now u = .done (rotateTo true)) ∨
      (outcomeOf rot stream now copy u = .fault ∧ ((∃ e, dispatchOne rot stream now u = .raised e) ∨
        ∃ r, r.isSuccess = false ∧
          dispatchOne rot stream now u = .done (.outcome { terminal := some (buildSuccessResponse r stream) }))) := by
  cases u with
  | transport => exact Or.inl ⟨_, _, rfl, .keeps _ _ rfl rfl (Or.inl rfl)⟩
  | raised => exact Or.inr (Or.inr ⟨rfl, Or.inl ⟨_, rfl⟩⟩)
  | response r =>
    simp only [dispatchOne, outcomeOf]
    split_ifs with hsuccess hdead h404 h429 h500
    · rcases recordChatSuccess_reports stream now copy hsuccess with
        ⟨rec, hrec, hreports⟩ | ⟨e, he⟩
      · rw [hrec]
        exact Or.inl ⟨rec, _, rfl, hreports⟩
      · rw [he]
        exact Or.inr (Or.inr ⟨rfl, Or.inl ⟨e, rfl⟩⟩)
    · exact Or.inl ⟨_, _, rfl, .drops _ _ .disabled rfl rfl rfl (by decide)⟩
    · exact Or.inr (Or.inl ⟨rfl, rfl⟩)
    · rcases recordRetryAfter_reports rot.pyFloat now copy r with
        ⟨rec, hrec, hreports⟩ | ⟨e, he⟩
      · rw [hrec]
        exact Or.inl ⟨rec, _, rfl, hreports⟩
      · rw [he]
        exact Or.inr (Or.inr ⟨rfl, Or.inl ⟨e, rfl⟩⟩)
    · exact Or.inl ⟨_, _, rfl, .keeps _ _ rfl rfl (Or.inl rfl)⟩
    · exact Or.inr (Or.inr ⟨rfl, Or.inr ⟨r, by simpa using hsuccess, rfl⟩⟩)

theorem Reports.fault {copy : ApiKey} {u : Upstream} {o : Outcome} {rec : Recorder} {ret : Return}
    (h : Reports copy u o rec ret) (hover : rec.fits copy = false) : o = .fault := by
  cases h with
  | success r rec hu hr hl hfits => cases hfits.symm.trans hover
  | keeps | drops => cases hover
  | overflows => rfl

/-! ### The list of active keys -/

/-- The status that a recorder leaves. -/
theorem Reports.status {u : Upstream} {o : Outcome} {rec : Recorder} {ret : Return} {copy row : ApiKey}
    (h : Reports copy u o rec ret) (hfits : rec.fits copy = true) (hcopy : copy.status = .active)
    (hrow : row.status = .active) : (rec.write copy row).status = .active ↔ o.drops = false := by
  have hleaves : rec.Leaves copy .active → (rec.write copy row).status = .active := by
    intro hl
    rw [← hrow] at hl
    exact ((rec.write_status_iff copy row).mpr hl).trans hrow
  cases h with
  | success r rec hu hr hl => exact iff_of_true (hleaves hl) rfl
  | keeps o v hdrops hstops hl => exact iff_of_true (hleaves hl) hdrops
  | drops o v s hdrops hstops hv hs =>
    have hne : s ≠ copy.status := by rw [hcopy]; exact hs
    have hwrite : (Recorder.write (.update v) copy row).status = s := by
      simp [Recorder.write, KeyValues.write, hv, netChange_of_ne hne]
    rw [hwrite, hdrops]
    exact iff_of_false hs Bool.noConfusion
  | overflows rec ret hover => cases hfits.symm.trans hover

/-- The list after a commit. -/
theorem Reports.ids_commit {u : Upstream} {o : Outcome} {rec : Recorder} {ret : Return} {id : ℕ}
    {copy row : ApiKey} {t t' : KeyTable} (h : Reports copy u o rec ret) (hc : rec.commit id copy t = some t')
    (hrow : t.get? id = some row) (hact : row.status = .active) (hcopy : copy.status = .active) :
    ids t' = if o.drops then (ids t).erase id else ids t := by
  have hstatus : ∀ i, HasStatus t' i .active ↔ HasStatus t i .active ∧ (i = id → o.drops = false) := by
    intro i
    unfold HasStatus
    rw [Recorder.commit_get? hc]
    split_ifs with hi
    · subst hi
      simp [hrow, hact, h.status (Recorder.commit_eq_some_iff.mp hc).1 hcopy hact]
    · simp [hi]
  cases hd : o.drops with
  | false =>
    rw [if_neg Bool.false_ne_true]
    refine ids_eq (ids_sorted t) fun i => ?_
    rw [mem_ids, hstatus, hd]
    simp
  | true =>
    rw [if_pos rfl]
    refine ids_eq ((ids_sorted t).sublist List.erase_sublist) fun i => ?_
    rw [(ids_nodup t).mem_erase_iff, mem_ids, hstatus, hd]
    simp [and_comm]

/-- With nothing in flight, a selection takes the key at the pointer. -/
theorem choose_alone {m : KeyManager} {active : List (ℕ × ApiKey)} (hfree : m.inFlight = ∅)
    {k : ℕ × ApiKey} (hk : active[m.nextIdx % active.length]? = some k) :
    m.choose active =
      (some k, { m with inFlight := {k.1}, nextIdx := (m.nextIdx + 1) % active.length }) := by
  have hpos : 0 < active.length := List.length_pos_of_mem (List.mem_of_getElem? hk)
  obtain ⟨n, hn⟩ : ∃ n, active.length = n + 1 := ⟨active.length - 1, by omega⟩
  have hscan : scan active m.nextIdx m.inFlight = some (0, k) := by
    unfold scan
    rw [hn] at hk ⊢
    rw [List.range_succ_eq_map, List.findSome?_cons, Nat.add_zero, hk, hfree]
    rfl
  unfold KeyManager.choose
  rw [hscan, hfree]
  rfl

/-! ### The forecast -/

section

variable (outcome : ℕ → Outcome)

/-- The first of the next `k` keys that the pointer visits whose outcome ends
the loop. -/
def forecast (k : ℕ) (l : List ℕ) (s : ℕ) : Option ℕ :=
  (visits (fun id => (outcome id).drops) k l s).find? fun id => (outcome id).stops

/-- The forecast while the key `id` is tried. -/
def forecastAt (id k : ℕ) (l : List ℕ) (s : ℕ) : Option ℕ :=
  if (outcome id).stops then some id
  else forecast outcome k (if (outcome id).drops then l.erase id else l) s

variable {outcome}

theorem forecast_succ {k s id : ℕ} {l : List ℕ} (hl : l.Nodup) (h : l[s % l.length]? = some id) :
    forecast outcome (k + 1) l s = forecastAt outcome id k l ((s + 1) % l.length) := by
  obtain ⟨hlt, hget⟩ := List.getElem?_eq_some_iff.mp h
  have herase : l.eraseIdx (s % l.length) = l.erase id := by
    rw [← hget]
    exact (hl.erase_getElem _ hlt).symm
  unfold forecast forecastAt
  rw [visits_cons h, List.find?_cons, herase]
  cases (outcome id).stops <;> rfl

end

end OllamaProxy
