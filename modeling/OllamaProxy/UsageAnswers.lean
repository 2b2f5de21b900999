/-
# What a call reports of the answers it got

The actions of one call, in the order of the run, determine what it returns
(`History`): it is `ok` when both answers are read, and `unreachable` when one
of them is not, when upstream gives none, or when the key is not decrypted. So
an answer that is not read counts as an unreachable upstream (`answered_ok_iff`).

Key definitions: `Usage.own`, `Usage.Outcome`, `Usage.Excused`.
Key theorems: `step_history`, `run_history`, `answered_ok_iff`.
-/
import OllamaProxy.UsageFields
import OllamaProxy.UsageRejection

namespace OllamaProxy

open Kit

namespace Usage

/-- The actions of the call. -/
def own (p : ℕ) (as : List Action) : List Action := as.filter (·.caller = some p)

/-- The replies among the actions. -/
def replies (as : List Action) : List UsageReply :=
  as.filterMap fun a =>
    match a with
    | .reply _ r => some r
    | _ => none

/-- What a call reports, and the actions that it has made by then. -/
inductive Outcome (lib : UsageLibrary) (p : ℕ) (c : SnapshotCall) : List Action → UpstreamStatus → Prop
  | cached (as : List Action) (has : replies as = []) : Outcome lib p c as .ok
  | undecryptable (inner : String) (hvault : lib.vault c.apiKey.keyEncrypted = .error inner) :
    Outcome lib p c [.fetch p c.id c.apiKey c.force, .enter p] .unreachable
  | account (r : UsageReply) (fault : UsageFault) (hr : r.payload = .error fault) :
    Outcome lib p c [.fetch p c.id c.apiKey c.force, .enter p, .reply p r]
      (if fault.rejects then .unauthorised else .unreachable)
  | usage (r₁ r₂ : UsageReply) (account : Payload) (fault : UsageFault) (h₁ : r₁.payload = .ok account)
    (h₂ : r₂.payload = .error fault) :
    Outcome lib p c [.fetch p c.id c.apiKey c.force, .enter p, .reply p r₁, .reply p r₂]
      (if fault.rejects then .unauthorised else .unreachable)
  | unread (rawKey : String) (r₁ r₂ : UsageReply) (account usage : Payload)
    (hvault : lib.vault c.apiKey.keyEncrypted = .ok rawKey) (h₁ : r₁.payload = .ok account)
    (h₂ : r₂.payload = .ok usage) (hread : ¬ (AccountReadable account ∧ OfficialReadable usage)) :
    Outcome lib p c [.fetch p c.id c.apiKey c.force, .enter p, .reply p r₁, .reply p r₂] .unreachable
  | read (r₁ r₂ : UsageReply) (account usage : Payload) (h₁ : r₁.payload = .ok account)
    (h₂ : r₂.payload = .ok usage) (hread : AccountReadable account ∧ OfficialReadable usage) :
    Outcome lib p c [.fetch p c.id c.apiKey c.force, .enter p, .reply p r₁, .reply p r₂] .ok

/-- What a call has done so far. -/
def History (lib : UsageLibrary) (p : ℕ) (as : List Action) (c : SnapshotCall) : Prop :=
  match c.pc with
  | .idle => as = []
  | .queued => as = [.fetch p c.id c.apiKey c.force]
  | .account rawKey =>
    as = [.fetch p c.id c.apiKey c.force, .enter p] ∧ lib.vault c.apiKey.keyEncrypted = .ok rawKey
  | .usage rawKey account => lib.vault c.apiKey.keyEncrypted = .ok rawKey ∧
    ∃ r, as = [.fetch p c.id c.apiKey c.force, .enter p, .reply p r] ∧ r.payload = .ok account
  | .done snap _ => Outcome lib p c as snap.upstreamStatus
  | .cancelled => .cancel p ∈ as

variable {lib : UsageLibrary} {s s' : Usage} {a : Action} {p : ℕ} {as : List Action}

theorem failed_status (lib : UsageLibrary) (service : UsageService) (c : SnapshotCall) (fault : UsageFault) :
    ∃ snap source, service.failed lib c fault = .done snap source ∧
      snap.upstreamStatus = if fault.rejects then .unauthorised else .unreachable := by
  unfold UsageService.failed
  by_cases hfault : fault.rejects = true
  · rw [if_pos hfault, if_pos hfault]
    exact ⟨_, _, rfl, rfl⟩
  · rw [if_neg hfault, if_neg hfault]
    split
    · exact ⟨_, _, rfl, rfl⟩
    · exact ⟨_, _, rfl, rfl⟩

/-- Payloads that are not read are no rejection. -/
theorem parseSnapshot_fault {account usage : Payload} {fetchedAt : ℤ} {fault : UsageFault}
    (h : parseSnapshot lib account usage fetchedAt = .error fault) :
    fault.rejects = false ∧ ¬ (AccountReadable account ∧ OfficialReadable usage) := by
  constructor
  · unfold parseSnapshot at h
    revert h
    generalize (do
      let account ← parseAccount account fetchedAt
      let official ← parseOfficial lib.fromisoformat usage fetchedAt
      return (⟨account, official⟩ : UsageSnapshot) : Except PyError UsageSnapshot) = x
    intro h
    cases x with
    | error e =>
      cases h
      rfl
    | ok snap => cases h
  · rw [← parseSnapshot_ok_iff lib account usage fetchedAt, h]
    rintro ⟨snap, hsnap⟩
    cases hsnap

section

variable {c : SnapshotCall} (hh : History lib p as c)

include hh

theorem History.of_idle (hpc : c.pc = .idle) : as = [] := by
  simpa only [History, hpc] using hh

theorem History.of_queued (hpc : c.pc = .queued) : as = [.fetch p c.id c.apiKey c.force] := by
  simpa only [History, hpc] using hh

theorem History.of_account {rawKey : String} (hpc : c.pc = .account rawKey) :
    as = [.fetch p c.id c.apiKey c.force, .enter p] ∧ lib.vault c.apiKey.keyEncrypted = .ok rawKey := by
  simpa only [History, hpc] using hh

theorem History.of_usage {rawKey : String} {account : Payload} (hpc : c.pc = .usage rawKey account) :
    lib.vault c.apiKey.keyEncrypted = .ok rawKey ∧
      ∃ r, as = [.fetch p c.id c.apiKey c.force, .enter p, .reply p r] ∧ r.payload = .ok account := by
  simpa only [History, hpc] using hh

theorem History.of_done {snap : KeyUsageSnapshot} {source : Option String} (hpc : c.pc = .done snap source) :
    Outcome lib p c as snap.upstreamStatus := by
  simpa only [History, hpc] using hh

end

/-- A reply that ends the fetch ends the call. -/
theorem History.of_faults (hh : History lib p as (s.calls p)) {r : UsageReply} {fault : UsageFault}
    (hfault : s.Faults lib p r fault) (pc : SnapshotPc) :
    Outcome lib p { s.calls p with pc := pc } (as ++ [.reply p r])
      (if fault.rejects then .unauthorised else .unreachable) := by
  rcases hfault with ⟨rawKey, hpc, hreply⟩ | ⟨rawKey, account, hpc, hreply⟩
  · obtain ⟨has, -⟩ := hh.of_account hpc
    rw [has]
    exact .account r fault hreply
  · obtain ⟨hvault, r₁, has, h₁⟩ := hh.of_usage hpc
    rw [has]
    cases h₂ : r.payload with
    | error fault' =>
      rw [h₂] at hreply
      cases hreply
      exact .usage r₁ r account fault h₁ h₂
    | ok usage =>
      rw [h₂] at hreply
      obtain ⟨hrejects, hread⟩ := parseSnapshot_fault hreply
      rw [hrejects]
      exact .unread rawKey r₁ r account usage hvault h₁ h₂ hread

theorem own_concat (p : ℕ) (as : List Action) (a : Action) : own p (as ++ [a]) = own p as ++ own p [a] :=
  List.filter_append ..

section

variable (hh : ∀ p, History lib p (own p as) (s.calls p))

include hh

/-- A step that is about one call leaves the others. -/
theorem histories_of_calls {q : ℕ} {c : SnapshotCall} (ha : a.caller = some q)
    (hcalls : s'.calls = Function.update s.calls q c) (hself : History lib q (own q as ++ [a]) c) (p : ℕ) :
    History lib p (own p (as ++ [a])) (s'.calls p) := by
  rw [hcalls, own_concat]
  by_cases hq : p = q
  · have hown : own p [a] = [a] := by simp [own, ha, hq]
    rw [hown, hq, Function.update_self]
    exact hself
  · have hown : own p [a] = [] := by simp [own, ha, Ne.symm hq]
    rw [hown, List.append_nil, Function.update_of_ne hq]
    exact hh p

theorem step_history (h : s.step lib a = some s') : ∀ p, History lib p (own p (as ++ [a])) (s'.calls p) := by
  cases step_moves h with
  | served q id apiKey entry hidle hentry =>
    refine histories_of_calls hh rfl rfl ?_
    rw [(hh q).of_idle hidle]
    exact .cached _ rfl
  | waits q id apiKey force hidle =>
    refine histories_of_calls hh rfl rfl ?_
    rw [(hh q).of_idle hidle]
    rfl
  | servedInside q entry hqueued hentry =>
    refine histories_of_calls hh rfl rfl ?_
    rw [(hh q).of_queued hqueued]
    exact .cached _ rfl
  | undecryptable q inner hqueued hvault =>
    refine histories_of_calls hh rfl rfl ?_
    rw [(hh q).of_queued hqueued]
    exact .undecryptable inner hvault
  | begins q rawKey hqueued hlock hstale hvault =>
    refine histories_of_calls hh rfl rfl ?_
    rw [(hh q).of_queued hqueued]
    exact ⟨rfl, hvault⟩
  | goesOn q r rawKey account hpc hreply =>
    refine histories_of_calls hh rfl rfl ?_
    obtain ⟨has, hvault⟩ := (hh q).of_account hpc
    rw [has]
    exact ⟨hvault, r, rfl, hreply⟩
  | stores q r rawKey account snap hpc hsnap =>
    refine histories_of_calls hh rfl rfl ?_
    obtain ⟨-, r₁, has, h₁⟩ := (hh q).of_usage hpc
    obtain ⟨usage, h₂, hparse⟩ := bind_eq_ok.mp hsnap
    rw [has]
    exact .read r₁ r account usage h₁ h₂ ((parseSnapshot_ok_iff lib account usage s.utcnow).mp ⟨snap, hparse⟩)
  | fails q r fault hfault =>
    obtain ⟨snap, source, hdone, hstatus⟩ := failed_status lib s.service (s.calls q) fault
    refine histories_of_calls hh rfl rfl ?_
    show History lib q _ { s.calls q with pc := s.service.failed lib (s.calls q) fault }
    rw [hdone]
    show Outcome lib q _ (own q as ++ [.reply q r]) snap.upstreamStatus
    rw [hstatus]
    exact (hh q).of_faults hfault _
  | hangsUp q hqueued =>
    refine histories_of_calls hh rfl rfl ?_
    exact List.mem_append_right _ (List.mem_singleton_self _)
  | aborts q hfetching =>
    refine histories_of_calls hh rfl rfl ?_
    exact List.mem_append_right _ (List.mem_singleton_self _)
  | tick d =>
    intro p
    have hown : own p [.tick d] = [] := rfl
    rw [own_concat, hown, List.append_nil]
    exact hh p

end

theorem run_history {ttlSeconds now utcnow : ℤ} (hrun : run (step lib) (init ttlSeconds now utcnow) as = some s) :
    ∀ p, History lib p (own p as) (s.calls p) := by
  induction as using List.reverseRecOn generalizing s with
  | nil =>
    cases hrun
    exact fun p => rfl
  | append_singleton as a ih =>
    obtain ⟨s1, hrun1, hstep⟩ := run_concat_iff.mp hrun
    exact step_history (ih hrun1) hstep

/-! ### Answers that are not read -/

end Usage

/-- No response, one that is no success, or one whose body is not read as JSON. -/
def UsageReply.IsFailure : UsageReply → Prop
  | .failed _ => True
  | .response r => r.isSuccess = false ∨ ∃ e, r.json = .error e

theorem UsageReply.payload_error_iff (r : UsageReply) : (∃ fault, r.payload = .error fault) ↔ r.IsFailure := by
  cases r with
  | failed text => exact iff_of_true ⟨_, rfl⟩ trivial
  | response x =>
    unfold payload IsFailure
    cases hsuccess : x.isSuccess with
    | false => simp [hsuccess]
    | true =>
      cases hjson : x.json with
      | error e => simp [hsuccess, hjson]
      | ok v => cases v <;> simp [hsuccess, hjson]

namespace Usage

/-- The key is not decrypted, or upstream does not answer with JSON. -/
def Excused (lib : UsageLibrary) (as : List Action) : Prop :=
  (∃ p id apiKey force inner, .fetch p id apiKey force ∈ as ∧ lib.vault apiKey.keyEncrypted = .error inner) ∨
    ∃ r ∈ replies as, r.IsFailure

/-- The two answers, if there are two, are read. -/
def AnswersRead (as : List Action) : Prop :=
  ∀ r₁ r₂ account usage, replies as = [r₁, r₂] → r₁.payload = .ok account → r₂.payload = .ok usage →
    AccountReadable account ∧ OfficialReadable usage

theorem Outcome.excused_iff {c : SnapshotCall} {status : UpstreamStatus} (h : Outcome lib p c as status)
    (hstatus : status = .unreachable) : Excused lib as ↔ AnswersRead as := by
  cases h with
  | cached _ has => cases hstatus
  | undecryptable inner hvault =>
    refine iff_of_true (Or.inl ⟨p, c.id, c.apiKey, c.force, inner, List.mem_cons_self, hvault⟩) ?_
    intro r₁ r₂ account usage hreplies
    cases hreplies
  | account r fault hr =>
    refine iff_of_true (Or.inr ⟨r, List.mem_singleton_self r, r.payload_error_iff.mp ⟨fault, hr⟩⟩) ?_
    intro r₁ r₂ account usage hreplies
    cases hreplies
  | usage r₁ r₂ account fault h₁ h₂ =>
    have hmem : r₂ ∈ [r₁, r₂] := List.mem_cons_of_mem _ (List.mem_singleton_self r₂)
    refine iff_of_true (Or.inr ⟨r₂, hmem, r₂.payload_error_iff.mp ⟨fault, h₂⟩⟩) ?_
    intro r₁' r₂' account' usage hreplies _ h₂'
    cases hreplies
    rw [h₂] at h₂'
    cases h₂'
  | unread rawKey r₁ r₂ account usage hvault h₁ h₂ hread =>
    refine iff_of_false ?_ fun h => hread (h r₁ r₂ account usage rfl h₁ h₂)
    rintro (⟨q, id, apiKey, force, inner, hmem, hinner⟩ | ⟨r, hmem, hr⟩)
    · simp only [List.mem_cons, Action.fetch.injEq, reduceCtorEq, List.not_mem_nil, or_false] at hmem
      rw [hmem.2.2.1, hvault] at hinner
      cases hinner
    · obtain ⟨fault, hfault⟩ := r.payload_error_iff.mpr hr
      rcases List.mem_cons.mp hmem with rfl | hmem
      · rw [h₁] at hfault
        cases hfault
      · cases List.mem_singleton.mp hmem
        rw [h₂] at hfault
        cases hfault
  | read r₁ r₂ account usage h₁ h₂ hread => cases hstatus

/-- Of a call that got two answers, what it reports. -/
theorem Outcome.ok_iff {c : SnapshotCall} {status : UpstreamStatus} (h : Outcome lib p c as status)
    {r₁ r₂ : UsageReply} {account usage : Payload} (hreplies : replies as = [r₁, r₂])
    (h₁ : r₁.payload = .ok account) (h₂ : r₂.payload = .ok usage) :
    status = .ok ↔ AccountReadable account ∧ OfficialReadable usage := by
  cases h with
  | cached _ has =>
    rw [has] at hreplies
    cases hreplies
  | undecryptable inner hvault => cases hreplies
  | account r fault hr => cases hreplies
  | usage r₁' r₂' account' fault h₁' h₂' =>
    cases hreplies
    rw [h₂] at h₂'
    cases h₂'
  | unread rawKey r₁' r₂' account' usage' hvault h₁' h₂' hread =>
    cases hreplies
    cases h₁.symm.trans h₁'
    cases h₂.symm.trans h₂'
    exact iff_of_false (by simp) hread
  | read r₁' r₂' account' usage' h₁' h₂' hread =>
    cases hreplies
    cases h₁.symm.trans h₁'
    cases h₂.symm.trans h₂'
    exact iff_of_true rfl hread

theorem History.done_of_answers {c : SnapshotCall} (hh : History lib p as c) {id : ℕ} {apiKey : ApiKey} {force : Bool}
    {r₁ r₂ : UsageReply} (has : as = [.fetch p id apiKey force, .enter p, .reply p r₁, .reply p r₂]) :
    ∃ snap source, c.pc = .done snap source := by
  cases hpc : c.pc with
  | idle => simpa [has] using hh.of_idle hpc
  | queued => simpa [has] using hh.of_queued hpc
  | account rawKey => simpa [has] using (hh.of_account hpc).1
  | usage rawKey account =>
    obtain ⟨-, r, hown, -⟩ := hh.of_usage hpc
    simp [has] at hown
  | done snap source => exact ⟨snap, source, rfl⟩
  | cancelled =>
    have hmem : .cancel p ∈ as := by simpa only [History, hpc] using hh
    simp [has] at hmem

/-- A forced call that got a JSON object from each endpoint reports `ok` exactly
if both are read. And one that reports `unreachable` had no key to send, or no
JSON from upstream, exactly if it did not get two answers of which one is not
read. -/
theorem answered_ok_iff {ttlSeconds now utcnow : ℤ}
    (hrun : run (step lib) (init ttlSeconds now utcnow) as = some s) (p : ℕ) :
    (∀ id apiKey x₁ x₂ account usage,
      own p as = [.fetch p id apiKey true, .enter p, .reply p (.response x₁), .reply p (.response x₂)] →
      x₁.isSuccess = true → x₁.json = .ok (.dict account) → x₂.isSuccess = true → x₂.json = .ok (.dict usage) →
      ∃ snap source, (s.calls p).pc = .done snap source ∧
        (snap.upstreamStatus = .ok ↔ AccountReadable account ∧ OfficialReadable usage)) ∧
    ∀ snap source, (s.calls p).pc = .done snap source → snap.upstreamStatus = .unreachable →
      (Excused lib (own p as) ↔ AnswersRead (own p as)) := by
  have hh := run_history hrun p
  refine ⟨fun id apiKey x₁ x₂ account usage hown hok₁ hjson₁ hok₂ hjson₂ => ?_, fun snap source hdone hstatus => ?_⟩
  · obtain ⟨snap, source, hdone⟩ := hh.done_of_answers hown
    have hreplies : replies (own p as) = [.response x₁, .response x₂] := by rw [hown]; rfl
    have h₁ : (UsageReply.response x₁).payload = .ok account := by simp [UsageReply.payload, hok₁, hjson₁]
    have h₂ : (UsageReply.response x₂).payload = .ok usage := by simp [UsageReply.payload, hok₂, hjson₂]
    exact ⟨snap, source, hdone, (hh.of_done hdone).ok_iff hreplies h₁ h₂⟩
  · exact (hh.of_done hdone).excused_iff hstatus

namespace Sample

/-- A forced call that gets two answers. -/
def asked (account usage : Payload) : List Action :=
  [.fetch 0 1 (.new "a" "a" "a" none 0) true, .enter 0, .reply 0 (.response ⟨200, [], "", .ok (.dict account)⟩),
    .reply 0 (.response ⟨200, [], "", .ok (.dict usage)⟩)]

theorem answered_ok_iff_empty :
    ∃ s snap source, run (step library) (init 300 0 0) (asked [] []) = some s ∧
      (s.calls 0).pc = .done snap source ∧
      (snap.upstreamStatus = .ok ↔ AccountReadable [] ∧ OfficialReadable []) ∧
      (snap.upstreamStatus = .unreachable → (Excused library (own 0 (asked [] [])) ↔ AnswersRead (own 0 (asked [] [])))) := by
  obtain ⟨s, hrun⟩ : ∃ s, run (step library) (init 300 0 0) (asked [] []) = some s :=
    Option.isSome_iff_exists.mp (by decide)
  obtain ⟨hok, hunreachable⟩ := answered_ok_iff hrun 0
  obtain ⟨snap, source, hdone, hiff⟩ := hok 1 (.new "a" "a" "a" none 0) ⟨200, [], "", .ok (.dict [])⟩
    ⟨200, [], "", .ok (.dict [])⟩ [] [] (by rfl) rfl rfl rfl rfl
  exact ⟨s, snap, source, hrun, hdone, hiff, hunreachable snap source hdone⟩

/-- Both answers are JSON objects, and the account's id is a number. -/
theorem numeric_id_unreachable :
    ∃ s snap source, run (step library) (init 300 0 0) (asked [("ID", .int 5)] []) = some s ∧
      (s.calls 0).pc = .done snap source ∧ snap.upstreamStatus = .unreachable ∧
      ¬ Excused library (own 0 (asked [("ID", .int 5)] [])) := by
  refine ⟨(run (step library) (init 300 0 0) (asked [("ID", .int 5)] [])).get (by decide), _, _,
    (Option.some_get _).symm, rfl, by decide, ?_⟩
  rintro (⟨p, id, apiKey, force, inner, -, hinner⟩ | ⟨r, hmem, hr⟩)
  · cases hinner
  · have hreplies : replies (own 0 (asked [("ID", .int 5)] [])) =
        [.response ⟨200, [], "", .ok (.dict [("ID", .int 5)])⟩, .response ⟨200, [], "", .ok (.dict [])⟩] := rfl
    rw [hreplies, List.mem_cons, List.mem_singleton] at hmem
    rcases hmem with rfl | rfl <;> simp [UsageReply.IsFailure, Response.isSuccess] at hr

end Sample

end Usage

end OllamaProxy
