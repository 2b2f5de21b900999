/-
# What the client gets is what upstream said

A chat request that ends with an upstream answer ends with the last answer that
it got itself, as `_build_success_response` passes it on, and every answer
before was one that sends the loop to the next key. A model list that ends well
is what `list_models_v1` reads from the request's only answer. Whatever the
other requests and the admin operations do meanwhile, no answer is kept from an
earlier iteration, is made up, or goes to another client (`relayed`).

Key definitions: `Upstream.rotates`, `Answer.Relays`, `Request.Relays`.
Key theorems: `dispatch_returns`, `returned_relays`, `Move.relays`, `relayed`.
-/
import OllamaProxy.Delivery

namespace OllamaProxy

open Kit

/-- Whether the loop goes on with the next key. -/
def Upstream.rotates : Upstream → Bool
  | .transport => true
  | .raised => false
  | .response r =>
    !r.isSuccess &&
      (r.statusCode ∈ deadKeyCodes || r.statusCode = 404 || r.statusCode = 429 || 500 ≤ r.statusCode)

/-- What an answer says that upstream said, to a request of this kind that got
these answers. -/
def Answer.Relays (kind : Kind) (answered : List (ℕ × Upstream)) : Answer → Prop
  | .upstream c => ∃ requestedModel stream l id r, kind = .chat requestedModel stream ∧
      answered = l ++ [(id, .response r)] ∧ (∀ a ∈ l, a.2.rotates = true) ∧
      (Upstream.response r).rotates = false ∧ c = buildSuccessResponse r stream
  | .models true ids => kind = .models ∧ ∃ id r, answered = [(id, .response r)] ∧ r.isSuccess = true ∧
      listModelsV1 r = .ok ids
  | _ => True

/-- What a request of this kind returns for `u`. -/
def Return.Of (kind : Kind) (u : Upstream) : Return → Prop
  | .models ok ids => kind = .models ∧
      (ok = true → ∃ r, u = .response r ∧ r.isSuccess = true ∧ listModelsV1 r = .ok ids)
  | .outcome o => ∃ requestedModel stream, kind = .chat requestedModel stream ∧ u.rotates = o.rotate ∧
      (o.rotate = false → ∃ r, u = .response r ∧
        (o.terminal = some (buildSuccessResponse r stream) ∨ (o.terminal = none ∧ o.response = some r)))

/-! ### What is made of an outcome -/

section

variable {rot : Rotation} {now : ℤ} {u : Upstream} {ret : Return} {kind : Kind}

/-- The value that a dispatch returns, at once or after its recorder. -/
def Dispatch.returns (d : Dispatch) (ret : Return) : Prop := (∃ rec, d = .record rec ret) ∨ d = .done ret

theorem returns_record {rec : Recorder} {ret' : Return} (h : (Dispatch.record rec ret').returns ret) :
    ret = ret' := by
  rcases h with ⟨rec', h⟩ | h <;> cases h
  rfl

theorem returns_done {ret' : Return} (h : (Dispatch.done ret').returns ret) : ret = ret' := by
  rcases h with ⟨rec', h⟩ | h <;> cases h
  rfl

theorem not_returns_raised {e : PyError} (h : (Dispatch.raised e).returns ret) : False := by
  rcases h with ⟨rec', h⟩ | h <;> cases h

theorem recordRetryAfter_returns {pyFloat : String → Option PyFloat} {r : Response} {ret' : Return}
    (h : (recordRetryAfter pyFloat now r ret').returns ret) : ret = ret' := by
  unfold recordRetryAfter at h
  split at h
  · exact (not_returns_raised h).elim
  · split at h
    · exact (not_returns_raised h).elim
    · exact returns_record h

theorem dispatchOne_returns {requestedModel : Option String} {stream : Bool}
    (h : (dispatchOne rot stream now u).returns ret) : ret.Of (.chat requestedModel stream) u := by
  have hrotate : ∀ {hint : Bool}, u.rotates = true → ret = rotateTo hint →
      ret.Of (.chat requestedModel stream) u := by
    rintro hint hu rfl
    exact ⟨_, _, rfl, hu, nofun⟩
  cases u with
  | transport => exact hrotate rfl (returns_record h)
  | raised => exact (not_returns_raised h).elim
  | response r =>
    simp only [dispatchOne] at h
    split_ifs at h with hok hdead h404 h429 h500
    · have hstays : (Upstream.response r).rotates = false := by simp [Upstream.rotates, hok]
      rcases recordChatSuccess_cases stream now r with ⟨-, rec, hrec⟩ | ⟨-, e, hrec⟩
      · rw [hrec] at h
        rw [returns_record h]
        exact ⟨_, _, rfl, hstays, fun _ => ⟨r, rfl, Or.inr ⟨rfl, rfl⟩⟩⟩
      · rw [hrec] at h
        exact (not_returns_raised h).elim
    · exact hrotate (by simp [Upstream.rotates, hok, hdead]) (returns_record h)
    · exact hrotate (by simp [Upstream.rotates, hok, h404]) (returns_done h)
    · exact hrotate (by simp [Upstream.rotates, hok, h429]) (recordRetryAfter_returns h)
    · exact hrotate (by simp [Upstream.rotates, hok, h500]) (returns_record h)
    · rw [returns_done h]
      have hstays : (Upstream.response r).rotates = false := by
        simp [Upstream.rotates, hdead, h404, h429]
        omega
      exact ⟨_, _, rfl, hstays, fun _ => ⟨r, rfl, Or.inl rfl⟩⟩

theorem fetchModels_returns (h : (fetchModels rot now u).returns ret) : ret.Of .models u := by
  have hfails : ret = .models false [] → ret.Of .models u := by
    rintro rfl
    exact ⟨rfl, nofun⟩
  cases u with
  | transport => exact hfails (returns_record h)
  | raised => exact (not_returns_raised h).elim
  | response r =>
    simp only [fetchModels] at h
    split_ifs at h with hok hdead h429 h500
    · cases hids : listModelsV1 r with
      | error e =>
        rw [hids] at h
        exact (not_returns_raised h).elim
      | ok ids =>
        rw [hids] at h
        rw [returns_record h]
        exact ⟨rfl, fun _ => ⟨r, rfl, hok, hids⟩⟩
    · exact hfails (returns_record h)
    · exact hfails (recordRetryAfter_returns h)
    · exact hfails (returns_record h)
    · exact hfails (returns_done h)

theorem dispatch_returns {q : Request} (h : (q.dispatch rot now u).returns ret) : ret.Of q.kind u := by
  unfold Request.dispatch at h
  split at h
  · next hkind =>
    rw [hkind]
    exact dispatchOne_returns h
  · next hkind =>
    rw [hkind]
    exact fetchModels_returns h

end

/-! ### One turn -/

/-- What a suspended recorder's caller will return. -/
def Pc.returning : Pc → Option Return
  | .commit _ ret | .refresh ret => some ret
  | _ => none

namespace Request

/-- The answers so far sent the loop on; a model list goes through it once. -/
def Rotated (q : Request) : Prop := (∀ a ∈ q.answered, a.2.rotates = true) ∧ (q.kind = .models → q.answered = [])

/-- The last answer is `u`, and the answers before sent the loop on. -/
def Heard (q : Request) (u : Upstream) : Prop :=
  ∃ l id, q.answered = l ++ [(id, u)] ∧ (∀ a ∈ l, a.2.rotates = true) ∧ (q.kind = .models → l = [])

structure Relays (q : Request) : Prop where
  going : q.pc.isRecording = false → q.pc.isDone = false → q.Rotated
  returning : ∀ ret ∈ q.pc.returning, ∃ u, q.Heard u ∧ ret.Of q.kind u
  ended : ∀ answer, q.pc = .done answer → answer.Relays q.kind q.answered

variable {q q' : Request} {u : Upstream} {ret : Return}

theorem Rotated.relays (h : q.Rotated) (hpc : q.pc.isRecording = false) (hdone : q.pc.isDone = false) :
    q.Relays := by
  refine ⟨fun _ _ => h, fun ret hret => ?_, fun answer ha => ?_⟩
  · cases hq : q.pc with
    | commit rec ret' => simp [hq, Pc.isRecording] at hpc
    | refresh ret' => simp [hq, Pc.isRecording] at hpc
    | _ => simp [hq, Pc.returning] at hret
  · rw [ha] at hdone
    cases hdone

theorem stop_relays {answer : Answer} (h : answer.Relays q.kind q.answered) : (q.stop answer).Relays :=
  ⟨nofun, nofun, fun answer' ha => by cases ha; exact h⟩

theorem giveUp_relays (q : Request) : q.giveUp.Relays := by
  unfold giveUp
  split
  · obtain ⟨statusCode, detail, hv⟩ := verdict_eq_proxy _ q.initialCount q.anyAttempt q.all404
    rw [hv]
    exact stop_relays trivial
  · exact stop_relays trivial

theorem Rotated.nextIteration (h : q.Rotated) : q.nextIteration.Relays := by
  unfold Request.nextIteration
  split
  · exact q.giveUp_relays
  · exact Rotated.relays (q := { q with left := _, pc := .lock }) h rfl rfl

theorem failed_relays (q : Request) (kind : Kind) (answered : List (ℕ × Upstream)) :
    q.failed.Relays kind answered := by
  unfold failed
  split <;> trivial

theorem Rotated.noKey {now : ℤ} (h : q.Rotated) : (q.noKey now).Relays := by
  unfold Request.noKey
  simp only
  split
  · exact stop_relays trivial
  · split_ifs
    · exact giveUp_relays _
    · exact Rotated.relays (q := { q with key := none, pc := .wait _ }) h rfl rfl

/-- With its last answer, the request ends or goes on. -/
theorem returned_relays (hu : q.Heard u) (h : ret.Of q.kind u) : (q.returned ret).Relays := by
  obtain ⟨l, id, hanswered, hl, hmodels⟩ := hu
  cases ret with
  | models ok ids =>
    obtain ⟨hkind, hok⟩ := h
    refine stop_relays ?_
    cases ok with
    | false => trivial
    | true =>
      obtain ⟨r, rfl, hr, hids⟩ := hok rfl
      rw [hmodels hkind] at hanswered
      exact ⟨hkind, id, r, hanswered, hr, hids⟩
  | outcome o =>
    obtain ⟨requestedModel, stream, hkind, hrotates, hends⟩ := h
    simp only [returned]
    split
    · next hrot =>
      refine Rotated.nextIteration ⟨?_, fun hm => ?_⟩
      · show ∀ a ∈ q.answered, a.2.rotates = true
        rw [hanswered]
        intro a ha
        rcases List.mem_append.mp ha with ha | ha
        · exact hl a ha
        · rw [List.mem_singleton.mp ha]
          exact hrotates.trans hrot
      · rw [show q.kind = _ from hm] at hkind
        cases hkind
    · next hrot =>
      have hstays : o.rotate = false := by simpa using hrot
      obtain ⟨r, rfl, hr⟩ := hends hstays
      have hrelays : (Answer.upstream (buildSuccessResponse r stream)).Relays q.kind q.answered :=
        ⟨requestedModel, stream, l, id, r, hkind, hanswered, hl, hrotates.trans hstays, rfl⟩
      rcases hr with hr | ⟨hnone, hr⟩
      · simp only [hr]
        exact stop_relays hrelays
      · simp only [hnone, hr, hkind]
        rw [hkind] at hrelays
        exact stop_relays (q := { q with kind := .chat requestedModel stream, all404 := false }) hrelays

/-- A key that cannot be decrypted got no answer. -/
theorem Rotated.undecryptable (h : q.Rotated) (q' : Request) : (q.returned q'.undecryptable).Relays := by
  unfold Request.undecryptable
  split
  · simp only [returned, rotateTo, if_true]
    exact Rotated.nextIteration h
  · exact stop_relays trivial

end Request

namespace Turn

variable {rot : Rotation} {now : ℤ} {p : ℕ} {x x' : Turn} {ev : Event}

theorem Aborted.relays {q : Request} {answer : Answer} (h : Aborted q answer) (kind : Kind)
    (answered : List (ℕ × Upstream)) : answer.Relays kind answered := by
  rcases h with rfl | rfl
  · exact q.failed_relays _ _
  · trivial

theorem PickMove.relays (h : PickMove rot now x ev x') (hx : x.request.Rotated) : x'.request.Relays := by
  cases h with
  | emptied hpc hempty => exact Request.Rotated.relays (q := { x.request with pc := _ }) hx rfl rfl
  | reactivated updateNow hpc =>
    exact Request.Rotated.relays (q := { x.request with pc := _, reactivated := _ }) hx rfl rfl
  | left answer t hpc hev ht ha => exact Request.stop_relays (ha.relays _ _)
  | missed hpc hall => exact hx.noKey
  | skipped id row m hpc hchoose hvault =>
    exact Request.Rotated.undecryptable (q := { x.picked id row with reserved := none }) hx _
  | attempted id row m rawKey hpc hchoose hvault =>
    exact Request.Rotated.relays (q := { x.picked id row with reserved := some id, pc := _ }) hx rfl rfl

/-- The answer comes behind those that sent the loop on. -/
theorem heard_heard (hx : x.request.Rotated) (copy : Copy) (u : Upstream) : (x.heard copy u).Heard u :=
  ⟨x.request.answered, copy.id, rfl, hx⟩

theorem AnswerMove.relays {copy : Copy} (h : AnswerMove rot now x copy ev x') (hx : x.request.Rotated) :
    x'.request.Relays := by
  cases h with
  | answered u rec ret hd =>
    refine ⟨nofun, fun ret' hret => ?_, nofun⟩
    cases hret
    exact ⟨u, heard_heard hx copy u, dispatch_returns (Or.inl ⟨rec, hd⟩)⟩
  | unrecorded u ret hd =>
    exact Request.returned_relays (q := { x.heard copy u with reserved := none }) (heard_heard hx copy u)
      (dispatch_returns (Or.inr hd))
  | unread u e hd => exact Request.stop_relays (x.request.failed_relays _ _)
  | hungUp written expired => exact Request.stop_relays trivial

theorem RecordMove.relays {copy : Copy} (h : RecordMove x copy ev x') (hx : x.request.Relays) :
    x'.request.Relays := by
  cases h with
  | recorded v ret t hpc hcommit =>
    refine ⟨nofun, fun ret' hret => ?_, nofun⟩
    cases hret
    exact hx.returning ret (by rw [hpc]; rfl)
  | recordedUsage u ret t hpc hcommit =>
    obtain ⟨u', hu, hret⟩ := hx.returning ret (by rw [hpc]; rfl)
    exact Request.returned_relays (q := { x.request with key := _, reserved := none }) hu hret
  | refreshed ret row hpc hrow =>
    obtain ⟨u', hu, hret⟩ := hx.returning ret (by rw [hpc]; rfl)
    exact Request.returned_relays (q := { x.request with key := _, reserved := none }) hu hret
  | cancelled written rec ret t hpc ht => exact Request.stop_relays trivial
  | leaked t hev ht => exact Request.stop_relays (x.request.failed_relays _ _)

theorem Move.relays (h : Move rot now p x ev x') (hx : x.request.Relays) : x'.request.Relays := by
  have hrotated : ∀ {pc : Pc}, x.request.pc = pc → pc.isRecording = false → pc.isDone = false →
      x.request.Rotated := by
    rintro pc rfl hrec hdone
    exact hx.going hrec hdone
  cases h with
  | counted hpc =>
    exact Request.Rotated.nextIteration (q := { x.request with initialCount := _, left := _ })
      (hrotated hpc rfl rfl)
  | quit answer hpc hev ha => exact Request.stop_relays (ha.relays _ _)
  | acquired hpc hlock =>
    exact Request.Rotated.relays (q := { x.request with pc := .load }) (hrotated hpc rfl rfl) rfl rfl
  | pick h =>
    have hheld := Pc.not_holdsKey_of_holdsLock h.holdsLock
    exact h.relays (hx.going hheld.2.1 hheld.2.2)
  | slept deadline hpc => exact hx
  | woke deadline hpc => exact (hrotated hpc rfl rfl).nextIteration
  | answer rawKey copy hpc hkey h => exact h.relays (hrotated hpc rfl rfl)
  | record copy hpc hkey h => exact h.relays hx

end Turn

/-! ### A run -/

namespace World

variable {rot : Rotation} {w w' : World} {a : Action} {p : ℕ}

theorem idle_relays : Request.idle.Relays :=
  Request.Rotated.relays (q := .idle) ⟨nofun, fun _ => rfl⟩ rfl rfl

theorem start_relays (kind : Kind) : (Request.start kind).Relays := by
  cases kind <;> exact Request.Rotated.relays ⟨nofun, fun _ => rfl⟩ rfl rfl

/-- What a run keeps. -/
structure Faithful (w : World) : Prop where
  sound : w.Sound
  relays : ∀ p, (w.requests p).Relays

theorem step_faithful (hw : w.Faithful) (h : w.step rot a = some w') : w'.Faithful := by
  refine ⟨step_sound hw.sound h, fun p => ?_⟩
  cases step_request hw.sound h p with
  | keeps hturn hreq =>
    rw [hreq]
    exact hw.relays p
  | starts kind hturn hpc htable hreq =>
    rw [hreq]
    exact start_relays kind
  | turns ev x' ha hw' hm =>
    rw [hw', put_requests_self]
    exact hm.relays (hw.relays p)

/-- **What a client gets as upstream's is what upstream said to its request**,
in every interleaving. -/
theorem relayed {t : KeyTable} {now : ℤ} {as : List Action} {answer : Answer}
    (h : run (step rot) (init t now) as = some w) (hdone : (w.requests p).answer? = some answer) :
    answer.Relays (w.requests p).kind (w.requests p).answered := by
  have hinit : (init t now).Faithful := ⟨init_sound t now, fun _ => idle_relays⟩
  have hw : w.Faithful := run_inv' (fun _ _ _ hs hstep => step_faithful hs hstep) hinit h
  exact (hw.relays p).ended answer (Request.answer?_eq_some_iff.mp hdone)

/-- The first key is answered 500, the second one 200; a second request is
answered in between. -/
def crossed : List Action :=
  [.start 0 Sample.chat, .start 1 Sample.chat] ++ Sample.oks 0 3 ++ [.resume 0 (.answer (Sample.reply 500))] ++
    Sample.oks 1 3 ++ Sample.oks 0 2 ++ Sample.oks 0 2 ++
    [.resume 1 (.answer (Sample.reply 200))] ++ Sample.oks 1 2

theorem relayed_crossed :
    ∃ w, run (step Sample.rotation) (init Sample.pool 0) crossed = some w ∧
      (Answer.upstream (buildSuccessResponse (Sample.response 200) false)).Relays (w.requests 1).kind
        (w.requests 1).answered := by
  let w := (run (step Sample.rotation) (init Sample.pool 0) crossed).get (by decide)
  have hrun : run (step Sample.rotation) (init Sample.pool 0) crossed = some w := (Option.some_get _).symm
  exact ⟨w, hrun, relayed hrun (by decide)⟩

end World

end OllamaProxy
