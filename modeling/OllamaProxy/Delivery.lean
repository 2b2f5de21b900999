/-
# What becomes of an upstream success

Between a 2xx answer and the client stands the recording: a commit, and for
`_update_key` a refresh. If every step of it returns, the client gets the
answer; if one raises, `chat_completions` makes a 503 of it. `Delivers` says
that a step of the request is not one that raises.

Key theorems: `RecordMove.recording`, `run_recording`, `success_delivered_iff`.
-/
import OllamaProxy.Reservations

namespace OllamaProxy

open Kit

/-- What `_dispatch_one` returns for a 2xx answer. -/
def delivered (r : Response) : Return := .outcome { response := some r }

/-- The answer of upstream as the client receives it. -/
def upstreamAnswer (r : Response) (stream : Bool) : Answer := .upstream (buildSuccessResponse r stream)

/-- The usage counts of a 2xx answer can be read. -/
def UsageReadable (r : Response) (stream : Bool) : Prop :=
  stream = true ∨ ∃ counts, parseUsageFromResponse r = .ok counts

theorem recordChatSuccess_cases (stream : Bool) (now : ℤ) (r : Response) :
    (UsageReadable r stream ∧ ∃ rec, recordChatSuccess stream now r = .record rec (delivered r)) ∨
      (¬ UsageReadable r stream ∧ ∃ e, recordChatSuccess stream now r = .raised e) := by
  have hrec : ∀ counts : Option ℤ × Option ℤ,
      (if stream then .ok (none, none) else parseUsageFromResponse r) = Except.ok counts →
      ∃ rec, recordChatSuccess stream now r = .record rec (delivered r) := by
    intro counts hc
    unfold recordChatSuccess
    rw [hc]
    simp only
    split <;> exact ⟨_, rfl⟩
  cases stream with
  | true => exact Or.inl ⟨Or.inl rfl, hrec (none, none) rfl⟩
  | false =>
    cases hp : parseUsageFromResponse r with
    | ok counts => exact Or.inl ⟨Or.inr ⟨counts, hp⟩, hrec counts (by simpa using hp)⟩
    | error e =>
      refine Or.inr ⟨?_, e, by simp [recordChatSuccess, hp]⟩
      rintro (h | ⟨counts, h⟩)
      · cases h
      · rw [hp] at h
        cases h

/-! ### The recording of one request -/

namespace Request

/-- The request has a 2xx answer `r` and is recording it. -/
structure Recording (q : Request) (r : Response) (stream : Bool) : Prop where
  kind : ∃ requestedModel, q.kind = .chat requestedModel stream
  pc : (∃ rec, q.pc = .commit rec (delivered r)) ∨ q.pc = .refresh (delivered r)

/-- The awaits left before the answer. -/
def awaitsLeft (q : Request) : ℕ :=
  match q.pc with
  | .commit (.update _) _ => 2
  | .commit (.usage _) _ | .refresh _ => 1
  | _ => 0

theorem Recording.isRecording {q : Request} {r : Response} {stream : Bool} (h : q.Recording r stream) :
    q.pc.isRecording = true := by
  rcases h.pc with ⟨rec, hpc⟩ | hpc <;> rw [hpc] <;> rfl

theorem Recording.ret_eq {q : Request} {r : Response} {stream : Bool} (h : q.Recording r stream)
    {ret : Return} (hpc : (∃ rec, q.pc = .commit rec ret) ∨ q.pc = .refresh ret) :
    ret = delivered r := by
  rcases h.pc with ⟨rec, hc⟩ | hc <;> rcases hpc with ⟨rec', hpc⟩ | hpc <;> rw [hc] at hpc <;>
    cases hpc <;> rfl

theorem Recording.awaitsLeft_pos {q : Request} {r : Response} {stream : Bool}
    (h : q.Recording r stream) : 1 ≤ q.awaitsLeft := by
  rcases h.pc with ⟨rec, hpc⟩ | hpc
  · cases rec <;> simp [awaitsLeft, hpc]
  · simp [awaitsLeft, hpc]

theorem awaitsLeft_le (q : Request) : q.awaitsLeft ≤ 2 := by
  unfold awaitsLeft
  split <;> omega

theorem Recording.answer?_eq_none {q : Request} {r : Response} {stream : Bool}
    (h : q.Recording r stream) : q.answer? = none := by
  rcases h.pc with ⟨rec, hpc⟩ | hpc <;> simp [answer?, hpc]

theorem returned_delivered {q : Request} {r : Response} {stream : Bool}
    (h : ∃ requestedModel, q.kind = .chat requestedModel stream) :
    (q.returned (delivered r)).pc = .done (upstreamAnswer r stream) := by
  obtain ⟨requestedModel, hk⟩ := h
  simp [returned, delivered, upstreamAnswer, hk, stop]

theorem failed_ne_upstreamAnswer (q : Request) (r : Response) (stream : Bool) :
    q.failed ≠ upstreamAnswer r stream := by
  unfold failed upstreamAnswer
  split <;> simp

end Request

namespace Turn

variable {rot : Rotation} {now : ℤ} {p : ℕ} {x x' : Turn} {ev : Event} {r : Response} {stream : Bool}

/-- The turn returns from its await, and no exception follows. -/
def Returns (x : Turn) (ev : Event) : Prop :=
  ev = .ok ∧ ∀ copy ∈ x.request.key, x.expires copy .ok = false

theorem not_returns_of_expires {copy : Copy} (hkey : x.request.key = some copy)
    (hexp : x.expires copy ev = true) : ¬ x.Returns ev := by
  rintro ⟨rfl, h⟩
  rw [h copy hkey] at hexp
  cases hexp

/-- One turn of the recording. Either it goes on, or the answer is the one from
upstream exactly if the turn returned. -/
theorem RecordMove.recording {copy : Copy} (h : RecordMove x copy ev x')
    (hkey : x.request.key = some copy) (hq : x.request.Recording r stream) :
    (x'.request.Recording r stream ∧ x.Returns ev ∧
        x'.request.awaitsLeft + 1 = x.request.awaitsLeft) ∨
      ∃ answer, x'.request.pc = .done answer ∧ (answer = upstreamAnswer r stream ↔ x.Returns ev) ∧
        1 ≤ x.request.awaitsLeft := by
  have hreturns : ∀ {c}, x.request.key = some c → x.expires c .ok = false → x.Returns .ok := by
    intro c hc hexp
    refine ⟨rfl, fun c' hc' => ?_⟩
    cases hc.symm.trans hc'
    exact hexp
  cases h with
  | recorded v ret t hpc hcommit =>
    have hret := hq.ret_eq (Or.inl ⟨_, hpc⟩)
    subst hret
    refine Or.inl ⟨⟨hq.kind, Or.inr rfl⟩, hreturns hkey (by simp [expires, hpc, hcommit]), ?_⟩
    simp [Request.awaitsLeft, hpc]
  | recordedUsage u ret t hpc hcommit =>
    have hret := hq.ret_eq (Or.inl ⟨_, hpc⟩)
    subst hret
    refine Or.inr ⟨_, Request.returned_delivered hq.kind, iff_of_true rfl ?_, ?_⟩
    · exact hreturns hkey (by simp [expires, hpc, hcommit])
    · simp [Request.awaitsLeft, hpc]
  | refreshed ret row hpc hrow =>
    have hret := hq.ret_eq (Or.inr hpc)
    subst hret
    refine Or.inr ⟨_, Request.returned_delivered hq.kind, iff_of_true rfl ?_, ?_⟩
    · exact hreturns hkey (by simp [expires, hpc, hrow])
    · simp [Request.awaitsLeft, hpc]
  | cancelled written rec ret t hpc ht =>
    refine Or.inr ⟨.cancelled, rfl, iff_of_false (by simp [upstreamAnswer]) (fun h => ?_), ?_⟩
    · cases h.1
    · cases rec <;> simp [Request.awaitsLeft, hpc]
  | leaked t hev ht =>
    refine Or.inr ⟨_, rfl, iff_of_false (Request.failed_ne_upstreamAnswer _ _ _)
      (not_returns_of_expires hkey hev), hq.awaitsLeft_pos⟩

end Turn

theorem Action.eq_of_isTurnOf {p : ℕ} {a : Action} (h : ¬ a.isTurnOf p = false) :
    ∃ ev, a = .resume p ev := by
  cases a with
  | resume q ev =>
    simp only [isTurnOf, decide_eq_false_iff_not, not_not] at h
    exact ⟨ev, by rw [h]⟩
  | _ => exact absurd rfl h

namespace World

variable {rot : Rotation} {w w' : World} {a : Action} {p : ℕ} {r : Response} {stream : Bool}

/-- If the action is a turn of request `p`, then the turn returns. -/
def Delivers (p : ℕ) (w : World) : Action → Prop
  | .resume q ev => q = p → (w.turn p).Returns ev
  | _ => True

/-- How often request `p` runs. -/
def turnsOf (p : ℕ) (as : List Action) : ℕ := as.countP (·.isTurnOf p)

theorem step_other (h : w.step rot a = some w') (hrun : (w.requests p).pc ≠ .idle)
    (ha : a.isTurnOf p = false) : w'.requests p = w.requests p := by
  cases a with
  | start q kind =>
    obtain ⟨hpc, rfl⟩ := step_start h
    have hpq : p ≠ q := fun he => hrun (he ▸ hpc)
    exact Function.update_of_ne hpq _ _
  | resume q ev =>
    have hpq : p ≠ q := fun he => by simp [Action.isTurnOf, he] at ha
    simp only [step, Option.map_eq_some_iff] at h
    obtain ⟨x', -, rfl⟩ := h
    exact put_requests_of_ne w hpq x'
  | admin op => cases h; rfl
  | tick d => cases h; rfl

theorem delivers_of_other (ha : a.isTurnOf p = false) : Delivers p w a := by
  cases a with
  | resume q ev =>
    intro hq
    simp [Action.isTurnOf, hq] at ha
  | _ => trivial

theorem not_turn_of_done (h : w.step rot a = some w') (hp : (w.requests p).pc.isDone = true) :
    a.isTurnOf p = false := by
  by_contra hturn
  obtain ⟨ev, rfl⟩ := Action.eq_of_isTurnOf hturn
  cases hpc : (w.requests p).pc <;> rw [hpc] at hp <;> try cases hp
  simp [step, Turn.resume, hpc] at h

/-- What follows a 2xx answer at once: the recording, or an exception. -/
theorem success_answered (hw : w.Sound) {requestedModel : Option String}
    (hkind : (w.requests p).kind = .chat requestedModel stream) (hr : r.isSuccess = true)
    (h : w.step rot (.resume p (.answer (.response r))) = some w') :
    (UsageReadable r stream ∧ (w'.requests p).Recording r stream) ∨
      (¬ UsageReadable r stream ∧ (w'.requests p).pc = .done (w.requests p).failed) := by
  have hdisp : (w.requests p).dispatch rot w.now (.response r) = recordChatSuccess stream w.now r := by
    simp [Request.dispatch, hkind, dispatchOne, hr]
  obtain ⟨x', hm, rfl⟩ := step_resume hw h
  obtain ⟨copy, hkey, hm⟩ := hm.of_answer
  rw [put_requests_self]
  rcases recordChatSuccess_cases stream w.now r with ⟨hread, rec, hrec⟩ | ⟨hread, e, hrec⟩
  · refine Or.inl ⟨hread, ?_⟩
    cases hm with
    | answered u rec' ret hd =>
      cases hd.symm.trans (hdisp.trans hrec)
      exact ⟨⟨requestedModel, hkind⟩, Or.inl ⟨rec, rfl⟩⟩
    | unrecorded u ret hd => cases hd.symm.trans (hdisp.trans hrec)
    | unread u e hd => cases hd.symm.trans (hdisp.trans hrec)
  · refine Or.inr ⟨hread, ?_⟩
    cases hm with
    | answered u rec' ret hd => cases hd.symm.trans (hdisp.trans hrec)
    | unrecorded u ret hd => cases hd.symm.trans (hdisp.trans hrec)
    | unread u e hd => rfl

theorem run_done {as : List Action} {s : World} (h : run (step rot) s as = some w)
    (hp : (s.requests p).pc.isDone = true) :
    w.requests p = s.requests p ∧ Along (step rot) (Delivers p) s as ∧ turnsOf p as = 0 := by
  induction as generalizing s with
  | nil => cases h; exact ⟨rfl, trivial, rfl⟩
  | cons a as ih =>
    obtain ⟨s1, h1, h2⟩ := run_cons_iff.mp h
    have hsame := step_done h1 hp
    have hother := not_turn_of_done h1 hp
    obtain ⟨hreq, halong, hturns⟩ := ih h2 (by rw [hsame]; exact hp)
    refine ⟨hreq.trans hsame, (along_cons h1).mpr ⟨delivers_of_other hother, halong⟩, ?_⟩
    simp [turnsOf, hother, ← hturns]

/-- The recording of request `p` along a run: it is still under way, or it is
over and the answer is the one from upstream exactly if every turn returned. -/
theorem run_recording {as : List Action} {s : World} (hs : s.Sound)
    (hq : (s.requests p).Recording r stream) (h : run (step rot) s as = some w) :
    ((w.requests p).Recording r stream ∧ Along (step rot) (Delivers p) s as ∧
        (w.requests p).awaitsLeft + turnsOf p as = (s.requests p).awaitsLeft) ∨
      ∃ answer, (w.requests p).pc = .done answer ∧
        (answer = upstreamAnswer r stream ↔ Along (step rot) (Delivers p) s as) ∧
        turnsOf p as ≤ (s.requests p).awaitsLeft := by
  induction as generalizing s with
  | nil => cases h; exact Or.inl ⟨hq, trivial, rfl⟩
  | cons a as ih =>
    obtain ⟨s1, h1, h2⟩ := run_cons_iff.mp h
    have hs1 := step_sound hs h1
    rw [along_cons h1]
    by_cases hother : a.isTurnOf p = false
    · have hne : (s.requests p).pc ≠ .idle := fun he => by
        have := hq.isRecording
        rw [he] at this
        cases this
      have hsame := step_other h1 hne hother
      have hturns : turnsOf p (a :: as) = turnsOf p as := by simp [turnsOf, hother]
      have hd := delivers_of_other (w := s) hother
      have hrest := ih hs1 (by rw [hsame]; exact hq) h2
      rw [hsame] at hrest
      simpa [hturns, hd] using hrest
    · obtain ⟨ev, rfl⟩ := Action.eq_of_isTurnOf hother
      have hturns : turnsOf p (.resume p ev :: as) = turnsOf p as + 1 := by
        simp [turnsOf, Action.isTurnOf]
      have hd : Delivers p s (.resume p ev) ↔ (s.turn p).Returns ev := by simp [Delivers]
      rw [hturns, hd]
      obtain ⟨x', hm, rfl⟩ := step_resume hs h1
      obtain ⟨copy, hkey, hm⟩ := hm.of_isRecording hq.isRecording
      rcases hm.recording hkey hq with ⟨hq', hret, hleft⟩ | ⟨answer, hdone, hiff, hleft⟩
      · have hrest := ih hs1 (by rw [put_requests_self]; exact hq') h2
        rw [put_requests_self] at hrest
        simp only [turn_request] at hleft hret
        rcases hrest with ⟨hrec, halong, hcount⟩ | ⟨answer, hdone, hiff, hcount⟩
        · exact Or.inl ⟨hrec, ⟨hret, halong⟩, by omega⟩
        · exact Or.inr ⟨answer, hdone, by simp [hiff, hret], by omega⟩
      · obtain ⟨hreq, halong, hcount⟩ := run_done h2 (p := p) (by rw [put_requests_self, hdone]; rfl)
        rw [put_requests_self] at hreq
        refine Or.inr ⟨answer, by rw [hreq]; exact hdone, by simp [hiff, halong], ?_⟩
        simp only [turn_request] at hleft
        omega

theorem recording_enabled (hw : w.Sound) (hq : (w.requests p).Recording r stream) :
    (w.step rot (.resume p .ok)).isSome = true := by
  obtain ⟨copy, hkey, -⟩ := (hw p).held (Pc.holdsKey_of_isRecording hq.isRecording)
  rcases hq.pc with ⟨rec, hpc⟩ | hpc
  · simp [step, Turn.resume, Turn.onCommit, hpc, hkey]
  · simp [step, Turn.resume, Turn.onRefresh, hpc, hkey]

/-- A chat request up to its upstream call. -/
def calling : List Action := [.start 0 Sample.chat] ++ Sample.oks 0 3

end World

end OllamaProxy
