/-
# The proxy's own 404

`execute_with_rotation` answers 404 when every attempt was answered 404 and its
iterations are used up. It counts the pool once, at the start, so the verdict
speaks for every active key only if no iteration was wasted that it could not
afford. `Request.budget` is the iterations left, `untried` the active keys the
request has not tried, and the invariant is that the budget covers them; a
selection that returns a key tried before, or none, has to be affordable
(`Turn.attentive`).

Key definitions: `Request.Doomed`, `untried`, `Pursues`, `World.attentive`.
Key theorems: `Move.pursues`, `Guarded.pursues_step`, `Pursuit.step`,
`verdict_404_sound`.
-/
import OllamaProxy.Lock
import OllamaProxy.Withdrawal

namespace OllamaProxy

open Kit

/-! ### Outcomes that are no 404 -/

def Upstream.is404 : Upstream → Bool
  | .response r => r.statusCode = 404
  | _ => false

/-- The proxy's own 404. -/
def Answer.isOwn404 : Answer → Bool
  | .proxy statusCode _ => statusCode = 404
  | _ => false

/-- `all_404_hint` of an outcome that rotates. -/
def Return.hint : Return → Bool
  | .outcome o => o.rotate && o.all404Hint
  | .models _ _ => false

/-- What a recorder's caller returns after it. -/
def Pc.pending : Pc → Option Return
  | .commit _ ret | .refresh ret => some ret
  | _ => none

/-- Only a 404 gives the hint, and it is not recorded. -/
def Dispatch.HintsAt404 (d : Dispatch) (u : Upstream) : Prop :=
  match d with
  | .record _ ret => ret.hint = false
  | .done ret => ret.hint = true → u.is404 = true
  | .raised _ => True

theorem recordRetryAfter_hint {pyFloat : String → Option PyFloat} {now : ℤ} {r : Response}
    {ret : Return} (h : ret.hint = false) (u : Upstream) :
    (recordRetryAfter pyFloat now r ret).HintsAt404 u := by
  unfold recordRetryAfter
  split
  · trivial
  · split
    · trivial
    · exact h

theorem dispatchOne_hint (rot : Rotation) (stream : Bool) (now : ℤ) (u : Upstream) :
    (dispatchOne rot stream now u).HintsAt404 u := by
  cases u with
  | transport => rfl
  | raised => trivial
  | response r =>
    simp only [dispatchOne]
    split_ifs with h1 h2 h3 h4 h5
    · rcases recordChatSuccess_cases stream now r with ⟨-, rec, hrec⟩ | ⟨-, e, hrec⟩ <;> rw [hrec]
      · rfl
      · trivial
    · rfl
    · exact fun _ => decide_eq_true h3
    · exact recordRetryAfter_hint rfl _
    · rfl
    · exact fun h => by cases h

theorem fetchModels_hint (rot : Rotation) (now : ℤ) (u : Upstream) :
    (fetchModels rot now u).HintsAt404 u := by
  cases u with
  | transport => rfl
  | raised => trivial
  | response r =>
    simp only [fetchModels]
    split_ifs with h1 h2 h3 h4
    · split
      · trivial
      · rfl
    · rfl
    · exact recordRetryAfter_hint rfl _
    · rfl
    · exact fun h => by cases h

namespace Request

theorem failed_not_own404 (q : Request) : q.failed.isOwn404 = false := by
  unfold failed
  split <;> rfl

/-- The request will not end with the proxy's 404. -/
def Doomed (q : Request) : Prop :=
  q.all404 = false ∨ (∃ ret, q.pc.pending = some ret ∧ ret.hint = false) ∨
    ∃ answer, q.pc = .done answer ∧ answer.isOwn404 = false

theorem stop_doomed (q : Request) {answer : Answer} (h : answer.isOwn404 = false) :
    (q.stop answer).Doomed := Or.inr (Or.inr ⟨answer, rfl, h⟩)

theorem noKey_reactivated (q : Request) (now : ℤ) : (q.noKey now).reactivated = q.reactivated := by
  obtain ⟨pc, h, -⟩ := q.noKey_eq now
  rw [h]

theorem noKey_answered (q : Request) (now : ℤ) : (q.noKey now).answered = q.answered := by
  obtain ⟨pc, h, -⟩ := q.noKey_eq now
  rw [h]

theorem returned_doomed (q : Request) {ret : Return} (h : ret.hint = false) :
    (q.returned ret).Doomed := by
  cases ret with
  | models ok ids => exact q.stop_doomed rfl
  | outcome o =>
    simp only [returned]
    split
    · rename_i hrotate
      have hhint : o.all404Hint = false := by simpa [Return.hint, hrotate] using h
      left
      rw [nextIteration_all404, hhint, Bool.and_false]
    · split
      · exact q.stop_doomed rfl
      · exact Or.inl rfl
      · exact q.stop_doomed q.failed_not_own404

/-- With a hint, the loop goes on, or ends if this was the last iteration. -/
theorem returned_hint (q : Request) {ret : Return} (h : ret.hint = true) :
    q.returned ret = q.nextIteration := by
  cases ret with
  | models ok ids => cases h
  | outcome o =>
    obtain ⟨hrotate, hhint⟩ : o.rotate = true ∧ o.all404Hint = true := by simpa [Return.hint] using h
    simp [returned, hrotate, hhint]

theorem undecryptable_hint (q : Request) : q.undecryptable.hint = false := by
  unfold undecryptable
  split <;> rfl

theorem dispatch_hint (rot : Rotation) (now : ℤ) (q : Request) (u : Upstream) :
    (q.dispatch rot now u).HintsAt404 u := by
  unfold dispatch
  split
  · exact dispatchOne_hint rot _ now u
  · exact fetchModels_hint rot now u

/-! ### The budget -/

/-- The request tried the key and was answered 404. -/
def tried (q : Request) (id : ℕ) : Bool := q.answered.any fun a => a.1 = id && a.2.is404

theorem exists_of_tried {q : Request} {id : ℕ} (h : q.tried id = true) :
    ∃ r, (id, .response r) ∈ q.answered ∧ r.statusCode = 404 := by
  obtain ⟨⟨i, u⟩, hmem, ha⟩ := List.any_eq_true.mp h
  obtain ⟨hi, h404⟩ := Bool.and_eq_true_iff.mp ha
  cases of_decide_eq_true hi
  cases u with
  | response r => exact ⟨r, hmem, of_decide_eq_true h404⟩
  | _ => cases h404

/-- The request is at its upstream call with the key. -/
def tries (q : Request) (id : ℕ) : Bool :=
  match q.pc with
  | .upstream _ => q.key.any (·.id = id)
  | _ => false

def covers (q : Request) (id : ℕ) : Bool := q.tried id || q.tries id

/-- The selections that the request has left. -/
def budget (q : Request) : ℕ :=
  match q.pc with
  | .lock | .load | .reactivate _ | .reload => q.left + 1
  | _ => q.left

/-- The request is looking for a key, or at its upstream call. -/
def seeks (q : Request) : Bool :=
  match q.pc with
  | .lock | .load | .reactivate _ | .reload | .wait _ | .upstream _ => true
  | _ => false

end Request

/-- The ids of the active keys. -/
def activeIds (t : KeyTable) : Finset ℕ := (ids t).toFinset

theorem mem_activeIds {t : KeyTable} {id : ℕ} : id ∈ activeIds t ↔ HasStatus t id .active := by
  rw [activeIds, List.mem_toFinset, mem_ids]

theorem card_activeIds (t : KeyTable) : (activeIds t).card = countActive t := by
  rw [activeIds, List.toFinset_card_of_nodup (ids_nodup t), length_ids]

/-- The active keys that the request has not tried. -/
def untried (t : KeyTable) (q : Request) : Finset ℕ :=
  (activeIds t).filter fun id => q.covers id = false

theorem mem_untried {t : KeyTable} {q : Request} {id : ℕ} :
    id ∈ untried t q ↔ HasStatus t id .active ∧ q.covers id = false := by
  rw [untried, Finset.mem_filter, mem_activeIds]

theorem untried_subset {t t' : KeyTable} {q q' : Request}
    (hact : ∀ id, HasStatus t' id .active → HasStatus t id .active)
    (hcov : ∀ id, q.covers id = true → q'.covers id = true) : untried t' q' ⊆ untried t q := by
  intro id hid
  obtain ⟨ha, hc⟩ := mem_untried.mp hid
  refine mem_untried.mpr ⟨hact id ha, ?_⟩
  by_contra hne
  rw [hcov id (by simpa using hne)] at hc
  cases hc

/-- What the key `id` may count on: the request tried it, or will not end with
the proxy's 404, or `id` is active and the budget covers every untried key. -/
def Pursues (t : KeyTable) (q : Request) (id : ℕ) : Prop :=
  q.tried id = true ∨ q.Doomed ∨
    (HasStatus t id .active ∧ (untried t q).card ≤ q.budget ∧ q.seeks = true)

namespace Turn

/-- A selection may return a key that the request tried before, or none, if the
iterations left after it cover the untried keys. With an initial count of 0 the
request gives up where there is none. -/
def affords (x : Turn) : Bool :=
  match (x.manager.choose (loadActive x.table)).1 with
  | some (id, _) => !x.request.covers id || (untried x.table x.request).card ≤ x.request.left
  | none =>
    (untried x.table x.request).card ≤ if x.request.initialCount = 0 then 0 else x.request.left

/-- A turn of the request itself wastes no iteration it cannot afford, and
reactivates no more keys than it has iterations left. -/
def attentive (x : Turn) : Event → Bool
  | .ok =>
    match x.request.pc with
    | .load => (loadActive x.table).isEmpty || x.affords
    | .reload => x.affords
    | .reactivate updateNow => countActive (reactivateLocked x.table updateNow) ≤ x.request.left + 1
    | _ => true
  | _ => true

variable {rot : Rotation} {now : ℤ} {p : ℕ} {x x' : Turn} {ev : Event} {id : ℕ}

theorem Move.not_done (h : Move rot now p x ev x') : x.request.pc.isDone = false := by
  cases h with
  | quit answer hpc hev ha => rcases hpc with hpc | hpc | ⟨deadline, hpc⟩ <;> rw [hpc] <;> rfl
  | pick h => exact (Pc.not_holdsKey_of_holdsLock h.holdsLock).2.2
  | record copy hpc hkey h => cases hc : x.request.pc <;> first | rfl | (rw [hc] at hpc; cases hpc)
  | counted hpc | acquired hpc | slept _ hpc | woke _ hpc | answer _ _ hpc => rw [hpc]; rfl

theorem Move.tried (h : Move rot now p x ev x') (ht : x.request.tried id = true) :
    x'.request.tried id = true := by
  obtain ⟨l, hl⟩ := h.remembers.answered
  unfold Request.tried at ht ⊢
  rw [← hl, List.any_append, ht, Bool.true_or]

theorem Aborted.not_own404 {q : Request} {answer : Answer} (h : Aborted q answer) :
    answer.isOwn404 = false := by
  rcases h with rfl | rfl
  · exact q.failed_not_own404
  · rfl

theorem Move.doomed (h : Move rot now p x ev x') (hx : x.request.Doomed) : x'.request.Doomed := by
  rcases hx with hall | ⟨ret, hpend, hhint⟩ | ⟨answer, hpc, -⟩
  · exact Or.inl (h.remembers.all404 hall)
  · have hrec : x.request.pc.isRecording = true := by
      cases hpc : x.request.pc <;> rw [hpc] at hpend <;> first | rfl | cases hpend
    have hret : ∀ {ret'}, x.request.pc.pending = some ret' → ret'.hint = false := fun hr => by
      cases hpend.symm.trans hr
      exact hhint
    obtain ⟨copy, hkey, h⟩ := h.of_isRecording hrec
    cases h with
    | recorded v ret' t hpc hcommit => exact Or.inr (Or.inl ⟨ret', rfl, hret (by rw [hpc]; rfl)⟩)
    | recordedUsage u ret' t hpc hcommit =>
      exact Request.returned_doomed _ (hret (by rw [hpc]; rfl))
    | refreshed ret' row hpc hrow => exact Request.returned_doomed _ (hret (by rw [hpc]; rfl))
    | cancelled written rec ret' t hpc ht => exact Request.stop_doomed _ rfl
    | leaked t hev ht => exact Request.stop_doomed _ (Request.failed_not_own404 _)
  · have hnd := h.not_done
    rw [hpc] at hnd
    cases hnd

theorem Selects.affords (h : x.Selects) (hatt : x.attentive .ok = true) : x.affords = true := by
  rcases h with ⟨hpc, hne⟩ | hpc <;> simp only [attentive, hpc] at hatt
  · rw [Bool.or_eq_true, List.isEmpty_iff] at hatt
    exact hatt.resolve_left hne
  · exact hatt

end Turn

/-! ### The budget covers what is untried -/

namespace Request

theorem tries_of_holdsLock {q : Request} (h : q.pc.holdsLock = true) (id : ℕ) : q.tries id = false := by
  unfold tries
  cases hpc : q.pc <;> first | rfl | (rw [hpc] at h; cases h)

theorem budget_of_holdsLock {q : Request} (h : q.pc.holdsLock = true) : q.budget = q.left + 1 := by
  unfold budget
  cases hpc : q.pc <;> first | rfl | (rw [hpc] at h; cases h)

theorem Rests.tried {q q' : Request} (h : q.Rests q') (id : ℕ) : q'.tried id = q.tried id := by
  unfold Request.tried
  rw [h.answered]

theorem Rests.covers {q q' : Request} (h : q.Rests q') (id : ℕ) : q'.covers id = q.tried id := by
  have htries : q'.tries id = false := by
    unfold tries
    rcases h.pc with hpc | ⟨answer, hpc⟩ <;> rw [hpc]
  rw [Request.covers, htries, Bool.or_false, h.tried]

end Request

section

variable {t : KeyTable} {q : Request} {id : ℕ}

theorem covers_of_card_eq_zero (hact : HasStatus t id .active) (h : (untried t q).card ≤ 0) :
    q.covers id = true := by
  have hempty := Finset.card_eq_zero.mp (Nat.le_zero.mp h)
  by_contra hc
  have hmem := mem_untried.mpr ⟨hact, by simpa using hc⟩
  rw [hempty] at hmem
  exact absurd hmem (Finset.notMem_empty id)

/-- The next iteration begins with a budget that covers the untried keys, or
there is none left. -/
theorem pursues_nextIteration (hact : HasStatus t id .active)
    (hcard : (untried t q.nextIteration).card ≤ q.left) : Pursues t q.nextIteration id := by
  have hrest := q.nextIteration_rests
  cases hleft : q.left with
  | zero =>
    rw [hleft] at hcard
    left
    rw [hrest.tried, ← hrest.covers]
    exact covers_of_card_eq_zero hact hcard
  | succ left =>
    have hnext : q.nextIteration = { q with left := left, pc := .lock } := by
      simp [Request.nextIteration, hleft]
    rw [hnext, hleft] at hcard
    rw [hnext]
    exact Or.inr (Or.inr ⟨hact, hcard, rfl⟩)

/-- The keys that `q'` has covered are tried by then. -/
theorem pursues_nextIteration_of_covers {q' : Request} (hact : HasStatus t id .active)
    (hcard : (untried t q').card ≤ q.left) (hcov : ∀ i, q'.covers i = true → q.tried i = true) :
    Pursues t q.nextIteration id := by
  have hsubset : untried t q.nextIteration ⊆ untried t q' := untried_subset (fun _ h => h) fun i hi => by
    rw [q.nextIteration_rests.covers]
    exact hcov i hi
  exact pursues_nextIteration hact (le_trans (Finset.card_le_card hsubset) hcard)

theorem pursues_noKey {now : ℤ} (hact : HasStatus t id .active)
    (hcard : (untried t (q.noKey now)).card ≤ if q.initialCount = 0 then 0 else q.left) :
    Pursues t (q.noKey now) id := by
  cases hkind : q.kind with
  | models =>
    have hno : q.noKey now = { q with key := none }.stop (.models false []) := by
      simp [Request.noKey, hkind]
    rw [hno]
    exact Or.inr (Or.inl (Request.stop_doomed _ rfl))
  | chat requestedModel stream =>
    by_cases h0 : q.initialCount = 0
    · have hno : q.noKey now = { q with key := none }.giveUp := by simp [Request.noKey, hkind, h0]
      have hrest := Request.giveUp_rests { q with key := none }
      rw [if_pos h0, hno] at hcard
      rw [hno]
      left
      rw [hrest.tried, ← hrest.covers]
      exact covers_of_card_eq_zero hact hcard
    · have hno : q.noKey now = { q with key := none, pc := .wait (now + seconds 10) } := by
        simp [Request.noKey, hkind, h0]
      rw [if_neg h0, hno] at hcard
      rw [hno]
      exact Or.inr (Or.inr ⟨hact, hcard, rfl⟩)

end

namespace Turn

variable {rot : Rotation} {now : ℤ} {p : ℕ} {x x' : Turn} {ev : Event} {id : ℕ}

/-- A selection pays for itself with the key it returns, or can be afforded. -/
theorem card_attempted {k : ℕ} {row : ApiKey} {m : KeyManager} {q' : Request}
    (hchoose : x.manager.choose (loadActive x.table) = (some (k, row), m))
    (hatt : x.affords = true) (hcard : (untried x.table x.request).card ≤ x.request.left + 1)
    (hcov : ∀ i, q'.covers i = (x.request.covers i || decide (k = i))) :
    (untried x.table q').card ≤ x.request.left := by
  have hsub : untried x.table q' ⊆ untried x.table x.request :=
    untried_subset (fun _ h => h) fun i hi => by rw [hcov, hi, Bool.true_or]
  simp only [affords, hchoose, Bool.or_eq_true, Bool.not_eq_true', decide_eq_true_eq] at hatt
  rcases hatt with hnew | hafford
  · have hmem : k ∈ untried x.table x.request :=
      mem_untried.mpr ⟨exists_mem_loadActive.mp ⟨row, choose_mem hchoose⟩, hnew⟩
    have hnot : k ∉ untried x.table q' := fun hk => by
      have hk' := (mem_untried.mp hk).2
      rw [hcov, decide_eq_true rfl, Bool.or_true] at hk'
      cases hk'
    have hlt := Finset.card_lt_card (Finset.ssubset_iff_of_subset hsub |>.mpr ⟨k, hmem, hnot⟩)
    omega
  · exact (Finset.card_le_card hsub).trans hafford

theorem PickMove.pursues (h : PickMove rot now x ev x') (hatt : x.attentive ev = true)
    (hempty : ∀ updateNow, x.request.pc = .reactivate updateNow → ¬ HasStatus x.table id .active)
    (hact : HasStatus x.table id .active) (hcard : (untried x.table x.request).card ≤ x.request.budget) :
    Pursues x'.table x'.request id := by
  have hheld := h.holdsLock
  rw [Request.budget_of_holdsLock hheld] at hcard
  have htries := Request.tries_of_holdsLock hheld
  cases h with
  | emptied hpc hnone => exact absurd hact (not_active_of_empty hnone id)
  | reactivated updateNow hpc => exact absurd hact (hempty updateNow hpc)
  | left answer t hpc hev ht ha => exact Or.inr (Or.inl (Request.stop_doomed _ ha.not_own404))
  | missed hpc hall =>
    have hafford := hpc.affords hatt
    simp only [affords, choose_eq_none_iff.mpr hall, decide_eq_true_eq] at hafford
    refine pursues_noKey hact (le_trans (Finset.card_le_card ?_) hafford)
    refine untried_subset (fun _ h => h) fun i hi => ?_
    rw [Request.covers, htries, Bool.or_false] at hi
    rw [Request.covers, Request.tried, Request.noKey_answered, Bool.or_eq_true]
    exact Or.inl hi
  | skipped k row m hpc hchoose hvault =>
    exact Or.inr (Or.inl (Request.returned_doomed _ (Request.undecryptable_hint _)))
  | attempted k row m rawKey hpc hchoose hvault =>
    refine Or.inr (Or.inr ⟨hact, ?_, rfl⟩)
    refine card_attempted (x := x) hchoose (hpc.affords hatt) hcard fun i => ?_
    rw [Request.covers, Request.covers, htries, Bool.or_false]
    simp [Request.tried, Request.tries, picked, Request.copyOf_id]

theorem AnswerMove.pursues {copy : Copy} {rawKey : String} (h : AnswerMove rot now x copy ev x')
    (hpc : x.request.pc = .upstream rawKey) (hkey : x.request.key = some copy)
    (hact : HasStatus x.table id .active) (hcard : (untried x.table x.request).card ≤ x.request.budget) :
    Pursues x'.table x'.request id := by
  cases h with
  | answered u rec ret hd =>
    have hhint := Request.dispatch_hint rot now x.request u
    rw [hd] at hhint
    exact Or.inr (Or.inl (Or.inr (Or.inl ⟨ret, rfl, hhint⟩)))
  | unrecorded u ret hd =>
    cases hret : ret.hint with
    | false => exact Or.inr (Or.inl (Request.returned_doomed _ hret))
    | true =>
      have hhint := Request.dispatch_hint rot now x.request u
      rw [hd] at hhint
      have h404 : u.is404 = true := hhint hret
      rw [Request.returned_hint _ hret]
      have hbudget : x.request.budget = x.request.left := by simp [Request.budget, hpc]
      rw [hbudget] at hcard
      refine pursues_nextIteration_of_covers hact hcard fun i hi => ?_
      -- the key at the upstream call has its 404 now
      simpa [Request.covers, Request.tried, Request.tries, heard, hpc, hkey, h404] using hi
  | unread u e hd => exact Or.inr (Or.inl (Request.stop_doomed _ (Request.failed_not_own404 _)))
  | hungUp written expired => exact Or.inr (Or.inl (Request.stop_doomed _ rfl))

/-- One turn of the request itself. -/
theorem Move.pursues (h : Move rot now p x ev x') (hatt : x.attentive ev = true)
    (hempty : ∀ updateNow, x.request.pc = .reactivate updateNow → ¬ HasStatus x.table id .active)
    (hx : Pursues x.table x.request id) : Pursues x'.table x'.request id := by
  rcases hx with ht | hd | ⟨hact, hcard, hseeks⟩
  · exact Or.inl (h.tried ht)
  · exact Or.inr (Or.inl (h.doomed hd))
  · cases h with
    | counted hpc => simp [Request.seeks, hpc] at hseeks
    | quit answer hpc hev ha => exact Or.inr (Or.inl (Request.stop_doomed _ ha.not_own404))
    | acquired hpc hlock =>
      have hbudget : x.request.budget = x.request.left + 1 := by simp [Request.budget, hpc]
      rw [hbudget] at hcard
      refine Or.inr (Or.inr ⟨hact, le_trans (Finset.card_le_card ?_) hcard, rfl⟩)
      refine untried_subset (fun _ h => h) fun i hi => ?_
      simpa [Request.covers, Request.tries, hpc, Request.tried] using hi
    | pick h => exact h.pursues hatt hempty hact hcard
    | slept deadline hpc => exact Or.inr (Or.inr ⟨hact, hcard, hseeks⟩)
    | woke deadline hpc =>
      have hbudget : x.request.budget = x.request.left := by simp [Request.budget, hpc]
      rw [hbudget] at hcard
      refine pursues_nextIteration_of_covers hact hcard fun i hi => ?_
      simpa [Request.covers, Request.tries, hpc] using hi
    | answer rawKey copy hpc hkey h => exact h.pursues hpc hkey hact hcard
    | record copy hpc hkey h =>
      unfold Request.seeks at hseeks
      cases hc : x.request.pc <;> rw [hc] at hpc hseeks <;> first | (cases hpc; done) | cases hseeks

end Turn

/-! ### Runs -/

namespace Request

/-- If the proxy's own 404 is the answer, no attempt had another outcome. -/
def Honest (q : Request) : Prop :=
  ∀ answer, q.pc = .done answer → answer.isOwn404 = true → q.all404 = true

theorem stop_honest (q : Request) {answer : Answer} (h : answer.isOwn404 = false) :
    (q.stop answer).Honest := by
  intro answer' hpc h'
  cases hpc
  rw [h] at h'
  cases h'

theorem giveUp_honest (q : Request) : q.giveUp.Honest := by
  unfold giveUp
  split
  · rename_i requestedModel stream hkind
    intro answer hpc h404
    cases hpc
    show q.all404 = true
    by_contra hall
    have hfalse : q.all404 = false := by simpa using hall
    rw [hfalse] at h404
    unfold verdict at h404
    split_ifs at h404 <;> first | cases h404 | (cases requestedModel <;> cases h404)
  · exact q.stop_honest rfl

theorem nextIteration_honest (q : Request) : q.nextIteration.Honest := by
  unfold nextIteration
  split
  · exact q.giveUp_honest
  · intro answer hpc
    cases hpc

theorem returned_honest (q : Request) (ret : Return) : (q.returned ret).Honest := by
  cases ret with
  | models ok ids => exact q.stop_honest rfl
  | outcome o =>
    simp only [returned]
    split
    · exact nextIteration_honest _
    · split
      · exact stop_honest _ rfl
      · exact stop_honest _ rfl
      · exact stop_honest _ q.failed_not_own404

theorem noKey_honest (q : Request) (now : ℤ) : (q.noKey now).Honest := by
  unfold noKey
  simp only
  split
  · exact stop_honest _ rfl
  · split
    · exact giveUp_honest _
    · intro answer hpc
      cases hpc

theorem Doomed.not_own404 {q : Request} (h : q.Doomed) (hq : q.Honest) {answer : Answer}
    (hpc : q.pc = .done answer) : answer.isOwn404 = false := by
  by_contra h404
  rw [Bool.not_eq_false] at h404
  rcases h with hall | ⟨ret, hpend, -⟩ | ⟨answer', hpc', h'⟩
  · rw [hq answer hpc h404] at hall
    cases hall
  · rw [hpc] at hpend
    cases hpend
  · cases hpc.symm.trans hpc'
    rw [h404] at h'
    cases h'

end Request

namespace Turn

variable {rot : Rotation} {now : ℤ} {p : ℕ} {x x' : Turn} {ev : Event} {id : ℕ}

theorem Move.honest (h : Move rot now p x ev x') : x'.request.Honest := by
  have hgoes : x'.request.pc.isDone = false → x'.request.Honest := by
    intro hd answer hpc
    rw [hpc] at hd
    cases hd
  cases h with
  | counted hpc => exact Request.nextIteration_honest _
  | quit answer hpc hev ha => exact Request.stop_honest _ ha.not_own404
  | acquired hpc hlock => exact hgoes rfl
  | pick h =>
    cases h with
    | emptied hpc hempty => exact hgoes rfl
    | reactivated updateNow hpc => exact hgoes rfl
    | left answer t hpc hev ht ha => exact Request.stop_honest _ ha.not_own404
    | missed hpc hall => exact Request.noKey_honest _ _
    | skipped k row m hpc hchoose hvault => exact Request.returned_honest _ _
    | attempted k row m rawKey hpc hchoose hvault => exact hgoes rfl
  | slept deadline hpc => exact hgoes (by rw [hpc]; rfl)
  | woke deadline hpc => exact Request.nextIteration_honest _
  | answer rawKey copy hpc hkey h =>
    cases h with
    | answered u rec ret hd => exact hgoes rfl
    | unrecorded u ret hd => exact Request.returned_honest _ _
    | unread u e hd => exact Request.stop_honest _ (Request.failed_not_own404 _)
    | hungUp written expired => exact Request.stop_honest _ rfl
  | record copy hpc hkey h =>
    cases h with
    | recorded v ret t hpc' hcommit => exact hgoes rfl
    | recordedUsage u ret t hpc' hcommit => exact Request.returned_honest _ _
    | refreshed ret row hpc' hrow => exact Request.returned_honest _ _
    | cancelled written rec ret t hpc' ht => exact Request.stop_honest _ rfl
    | leaked t hev ht => exact Request.stop_honest _ (Request.failed_not_own404 _)

/-- A request adds to the keys it reactivated by its reactivation alone. -/
theorem Move.reactivated (h : Move rot now p x ev x') :
    x'.request.reactivated = x.request.reactivated ∨
      ∃ updateNow, x.request.pc = .reactivate updateNow ∧ ev = .ok ∧
        x' = { x with
          table := reactivateLocked x.table updateNow
          request := { x.request with
            pc := .reload
            reactivated := x.request.reactivated ++ cooledDownIds x.table updateNow } } := by
  cases h with
  | counted hpc => exact Or.inl (Request.nextIteration_rests _).reactivated
  | quit answer hpc hev ha => exact Or.inl rfl
  | acquired hpc hlock => exact Or.inl rfl
  | pick h =>
    cases h with
    | reactivated updateNow hpc => exact Or.inr ⟨updateNow, hpc, rfl, rfl⟩
    | missed hpc hall => exact Or.inl (Request.noKey_reactivated _ _)
    | skipped k row m hpc hchoose hvault => exact Or.inl (Request.returned_rests _ _).reactivated
    | _ => exact Or.inl rfl
  | slept deadline hpc => exact Or.inl rfl
  | woke deadline hpc => exact Or.inl (Request.nextIteration_rests _).reactivated
  | answer rawKey copy hpc hkey h =>
    cases h with
    | unrecorded u ret hd => exact Or.inl (Request.returned_rests _ _).reactivated
    | _ => exact Or.inl rfl
  | record copy hpc hkey h =>
    cases h with
    | recordedUsage u ret t hpc' hcommit => exact Or.inl (Request.returned_rests _ _).reactivated
    | refreshed ret row hpc' hrow => exact Or.inl (Request.returned_rests _ _).reactivated
    | _ => exact Or.inl rfl

theorem hasStatus_of_mem_cooledDownIds {t : KeyTable} {updateNow : ℤ}
    (h : id ∈ cooledDownIds t updateNow) : HasStatus (reactivateLocked t updateNow) id .active := by
  obtain ⟨⟨i, row⟩, hmem, rfl⟩ := List.mem_map.mp h
  obtain ⟨hrow, hcool⟩ := (Table.mem_select t _ i row).mp hmem
  refine hasStatus_iff.mpr
    ⟨{ row with status := .active, cooldownUntil := none, updatedAt := updateNow }, ?_, rfl⟩
  rw [reactivateLocked, Table.get?_mapRows, hrow, Option.map_some, if_pos hcool]

/-- The keys that a request's own turn reactivated before it, or in it. -/
theorem Move.pursues_reactivated (h : Move rot now p x ev x') (hatt : x.attentive ev = true)
    (hempty : ∀ updateNow, x.request.pc = .reactivate updateNow → ∀ id, ¬ HasStatus x.table id .active)
    (hx : ∀ id ∈ x.request.reactivated, Pursues x.table x.request id) :
    ∀ id ∈ x'.request.reactivated, Pursues x'.table x'.request id := by
  intro id hid
  have hold : id ∈ x.request.reactivated → Pursues x'.table x'.request id := fun hmem =>
    h.pursues hatt (fun updateNow hpc => hempty updateNow hpc id) (hx id hmem)
  rcases h.reactivated with hsame | ⟨updateNow, hpc, rfl, hx'⟩
  · rw [hsame] at hid
    exact hold hid
  · rw [hx'] at hid
    rcases List.mem_append.mp hid with hmem | hnew
    · exact hold hmem
    · simp only [attentive, hpc, decide_eq_true_eq] at hatt
      rw [hx']
      refine Or.inr (Or.inr ⟨hasStatus_of_mem_cooledDownIds hnew, ?_, rfl⟩)
      rw [← card_activeIds] at hatt
      exact (Finset.card_le_card (Finset.filter_subset _ _)).trans hatt

end Turn

namespace World

variable {rot : Rotation} {w w' : World} {a : Action} {p id : ℕ}

/-- Request `r`'s turn leaves active the keys that request `p` reactivated and
has not tried. -/
def spares (p : ℕ) (w : World) (r : ℕ) (ev : Event) : Bool :=
  match (w.requests r).pc, (w.requests r).key with
  | .commit rec _, some copy =>
    copy.id ∉ (w.requests p).reactivated || (w.requests p).covers copy.id || !ev.writes ||
      decide (rec.Leaves copy.row .active)
  | _, _ => true

/-- A step, seen from request `p`. -/
def attentive (p : ℕ) (w : World) : Action → Bool
  | .resume r ev => if r = p then (w.turn p).attentive ev else w.spares p r ev
  | _ => true

/-- A key that request `p` reactivated stays active until it tried it. -/
theorem Guarded.active_of_spares (hw : w.Guarded) (h : w.step rot a = some w')
    (ha : a.isAdmin = false) (hatt : w.attentive p a = true) (hturn : a.isTurnOf p = false)
    (hmem : id ∈ (w.requests p).reactivated) (hact : HasStatus w.table id .active)
    (hnot : (w.requests p).tried id = false) : HasStatus w'.table id .active := by
  cases hcov : (w.requests p).covers id with
  | true =>
    rw [Request.covers, hnot, Bool.false_or] at hcov
    unfold Request.tries at hcov
    split at hcov
    · rename_i rawKey hpc
      obtain ⟨copy, hkey, hid⟩ := Option.any_eq_true _ _ |>.mp hcov
      have hstays := hw.unattended.active_stays h ha (by rw [hpc]; rfl) hkey hturn
      rw [of_decide_eq_true hid] at hstays
      exact hstays
    · cases hcov
  | false =>
    obtain ⟨row, hrow, hs⟩ := hasStatus_iff.mp hact
    have hstep := step_row hw.unattended.sound h ha id
    generalize hrow' : w'.table.get? id = row' at hstep
    cases hstep with
    | keeps =>
      unfold HasStatus
      rw [hrow']
      exact hact
    | reactivates r updateNow row' hturn' hpc hr hcool => exact hasStatus_iff.mpr ⟨_, hrow', rfl⟩
    | commits r rec ret copy row' hturn' hpc hkey hid hr =>
      cases a with
      | resume q ev =>
        have hqr : q = r := by simpa [Action.isTurnOf] using hturn'
        have hqp : q ≠ p := by simpa [Action.isTurnOf] using hturn
        subst hqr hid
        cases hrow.symm.trans hr
        have hcommit := commit_row hpc hkey hrow h
        rw [hasStatus_iff]
        refine ⟨_, hcommit, ?_⟩
        cases hwrites : ev.writes with
        | false => exact hs
        | true =>
          have hleaves : rec.Leaves copy.row .active := by
            simpa [attentive, hqp, spares, hpc, hkey, hmem, hcov, hwrites] using hatt
          rw [← hs] at hleaves
          split_ifs
          · exact ((rec.write_status_iff copy.row row).mpr hleaves).trans hs
          · exact hs
      | start q kind => cases hturn'
      | admin op => cases ha
      | tick d => cases hturn'

/-- One step of the system, where it is not the request that starts. -/
theorem Guarded.pursues_step (hw : w.Guarded) (h : w.step rot a = some w') (ha : a.isAdmin = false)
    (hfresh : (w.requests p).pc.isFresh = false) (hatt : w.attentive p a = true)
    (hstay : a.isTurnOf p = false →
      HasStatus w'.table id .active ∨ id ∈ (w.requests p).reactivated)
    (hx : Pursues w.table (w.requests p) id) : Pursues w'.table (w'.requests p) id := by
  cases step_request hw.unattended.sound h p with
  | keeps hturn hreq =>
    rw [hreq]
    rcases hx with ht | hd | ⟨hact, hcard, hseeks⟩
    · exact Or.inl ht
    · exact Or.inr (Or.inl hd)
    · cases ht : (w.requests p).tried id with
      | true => exact Or.inl ht
      | false =>
        have hact' : HasStatus w'.table id .active :=
          (hstay hturn).elim (fun h => h) fun hmem => hw.active_of_spares h ha hatt hturn hmem hact ht
        refine Or.inr (Or.inr ⟨hact', le_trans (Finset.card_le_card ?_) hcard, hseeks⟩)
        refine untried_subset (fun i hi => ?_) fun _ h => h
        rcases hw.active_of_active h ha hi with hold | ⟨r, updateNow, -, hpc⟩
        · exact hold
        · exact absurd hact (hw.emptied r updateNow hpc id)
  | starts kind hturn hidle htable hreq =>
    rw [hidle] at hfresh
    cases hfresh
  | turns ev x' ha' hw' hm =>
    subst ha' hw'
    rw [put_requests_self, put_table]
    have hown : (w.turn p).attentive ev = true := by simpa [attentive] using hatt
    exact hm.pursues hown (fun updateNow hpc => hw.emptied p updateNow hpc id) hx

/-- Request `p`, from its count on. -/
structure Pursuit (p : ℕ) (w : World) : Prop where
  guarded : w.Guarded
  begun : (w.requests p).pc.isFresh = false
  honest : (w.requests p).Honest
  reactivated : ∀ id ∈ (w.requests p).reactivated, Pursues w.table (w.requests p) id

theorem Pursuit.step (hw : w.Pursuit p) (h : w.step rot a = some w') (ha : a.isAdmin = false)
    (hatt : w.attentive p a = true) : w'.Pursuit p := by
  have hg := hw.guarded.step h ha
  cases step_request hw.guarded.unattended.sound h p with
  | keeps hturn hreq =>
    refine ⟨hg, by rw [hreq]; exact hw.begun, by rw [hreq]; exact hw.honest, fun id hid => ?_⟩
    rw [hreq] at hid
    exact hw.guarded.pursues_step h ha hw.begun hatt (fun _ => Or.inr hid) (hw.reactivated id hid)
  | starts kind hturn hidle htable hreq =>
    have hbegun := hw.begun
    rw [hidle] at hbegun
    cases hbegun
  | turns ev x' ha' hw' hm =>
    subst ha' hw'
    have hown : (w.turn p).attentive ev = true := by simpa [attentive] using hatt
    refine ⟨hg, ?_, ?_, ?_⟩ <;> rw [put_requests_self]
    · exact hm.not_fresh
    · exact hm.honest
    · exact hm.pursues_reactivated hown (fun u hpc => hw.guarded.emptied p u hpc) hw.reactivated

/-- After the count the budget covers every active key. -/
theorem Guarded.counted (hw : w.Guarded) (hmargin : 0 ≤ rot.safetyMargin)
    (hpc : (w.requests p).pc = .count) (h : w.step rot (.resume p .ok) = some w') :
    w'.Pursuit p ∧ w'.table = w.table ∧
      ∀ id, HasStatus w.table id .active → Pursues w'.table (w'.requests p) id := by
  have hg := hw.step h rfl
  simp only [World.step, Turn.resume, turn_request, hpc, Turn.onCount, Option.map_some,
    Option.some.injEq] at h
  have hreq : w'.requests p = { w.requests p with
      initialCount := countActive w.table
      left := maxIter rot (countActive w.table) }.nextIteration := by
    rw [← h, put_requests_self]
    rfl
  have htable : w'.table = w.table := by rw [← h]; rfl
  have hrest := Request.nextIteration_rests { w.requests p with
    initialCount := countActive w.table, left := maxIter rot (countActive w.table) }
  rw [← hreq] at hrest
  refine ⟨⟨hg, ?_, ?_, ?_⟩, htable, ?_⟩
  · rcases hrest.pc with hc | ⟨answer, hc⟩ <;> rw [hc] <;> rfl
  · rw [hreq]
    exact Request.nextIteration_honest _
  · intro id hid
    rw [hrest.reactivated] at hid
    rw [hw.fresh p hpc] at hid
    cases hid
  · intro id hact
    rw [htable, hreq]
    refine pursues_nextIteration hact ?_
    calc (untried w.table _).card ≤ (activeIds w.table).card :=
          Finset.card_le_card (Finset.filter_subset _ _)
      _ = countActive w.table := card_activeIds _
      _ ≤ maxIter rot (countActive w.table) := by unfold maxIter; omega

/-- A step that ends request `p` is its own turn. -/
theorem turn_of_done {detail : String} (hw : w.Sound) (h : w.step rot a = some w')
    (hrun : (w.requests p).pc.isDone = false) (hdone : (w'.requests p).pc = .done (.proxy 404 detail)) :
    a.isTurnOf p = true := by
  cases step_request hw h p with
  | keeps hturn hreq =>
    rw [← hreq, hdone] at hrun
    cases hrun
  | starts kind hturn hidle htable hreq =>
    rw [hreq] at hdone
    cases kind <;> cases hdone
  | turns ev x' ha' hw' hm => rw [ha']; simp [Action.isTurnOf]

/-- A run from the count of request `p` to a state in which it is not done. -/
theorem run_pursuit {as : List Action} (hw : w.Pursuit p) (h : run (step rot) w as = some w')
    (has : ∀ a ∈ as, a.isAdmin = false)
    (hatt : Along (step rot) (fun s a => s.attentive p a = true) w as) : w'.Pursuit p :=
  run_inv (P := fun s a => s.attentive p a = true ∧ a.isAdmin = false)
    (fun _ _ _ hI hP h => hI.step h hP.2 hP.1) hw
    (hatt.and (along_of_forall fun _ => has)) h

theorem run_pursues {as : List Action} (hw : w.Pursuit p)
    (h : run (step rot) w as = some w') (has : ∀ a ∈ as, a.isAdmin = false)
    (hatt : Along (step rot) (fun s a => s.attentive p a = true) w as)
    (hact : Throughout (step rot) (fun s => HasStatus s.table id .active) w as)
    (hx : Pursues w.table (w.requests p) id) : Pursues w'.table (w'.requests p) id :=
  (run_inv (I := fun s : World => s.Pursuit p ∧ Pursues s.table (s.requests p) id)
    (P := fun s a => (s.attentive p a = true ∧ a.isAdmin = false) ∧
      ∀ s', s.step rot a = some s' → HasStatus s'.table id .active)
    (fun _ _ s' hI hP h => ⟨hI.1.step h hP.1.2 hP.1.1,
      hI.1.guarded.pursues_step h hP.1.2 hI.1.begun hP.1.1 (fun _ => Or.inl (hP.2 s' h)) hI.2⟩)
    ⟨hw, hx⟩ ((hatt.and (along_of_forall fun _ => has)).and hact.along) h).2

/-- Request `p` counts the pool, and the step after `as` ends it with the
proxy's own 404. If no turn in between wastes an iteration that the request
cannot afford, it tried, and was answered 404 for, each key that was active all
along and each key that its own picks reactivated. -/
theorem verdict_404_sound {t : KeyTable} {now : ℤ} {as0 as : List Action} {w1 w2 : World}
    {detail : String} (hmargin : 0 ≤ rot.safetyMargin)
    (h0 : run (step rot) (init t now) as0 = some w) (h0a : ∀ a ∈ as0, a.isAdmin = false)
    (hcount : (w.requests p).pc = .count) (h1 : w.step rot (.resume p .ok) = some w1)
    (h2 : run (step rot) w1 as = some w2) (has : ∀ a ∈ as, a.isAdmin = false)
    (h3 : w2.step rot a = some w') (ha : a.isAdmin = false)
    (hatt : Along (step rot) (fun s a => s.attentive p a = true) w1 (as ++ [a]))
    (hrun : (w2.requests p).pc.isDone = false)
    (hdone : (w'.requests p).pc = .done (.proxy 404 detail)) :
    ∀ id, Throughout (step rot) (fun s => HasStatus s.table id .active) w1 as ∨
        id ∈ (w'.requests p).reactivated →
      ∃ r, (id, .response r) ∈ (w'.requests p).answered ∧ r.statusCode = 404 := by
  intro id hid
  have hg : w.Guarded := run_inv_of (A := fun a => a.isAdmin = false)
    (fun _ _ _ hI ha h => hI.step h ha) (init_guarded t now) h0a h0
  obtain ⟨hw1, htable, hcovers⟩ := hg.counted hmargin hcount h1
  obtain ⟨hatt1, hatt2, -⟩ := (along_append h2).mp hatt
  have hw2 := run_pursuit hw1 h2 has hatt1
  have hturn := turn_of_done hw2.guarded.unattended.sound h3 hrun hdone
  have hw' := hw2.step h3 ha hatt2
  have hpursues : Pursues w'.table (w'.requests p) id := by
    rcases hid with hact | hmem
    · have hx := hcovers id (htable ▸ hact.head)
      have hx2 := run_pursues hw1 h2 has hatt1 hact hx
      refine hw2.guarded.pursues_step h3 ha hw2.begun hatt2 (fun hno => ?_) hx2
      rw [hturn] at hno
      cases hno
    · exact hw'.reactivated id hmem
  rcases hpursues with ht | hd | ⟨-, -, hseeks⟩
  · exact Request.exists_of_tried ht
  · cases hd.not_own404 hw'.honest hdone
  · rw [Request.seeks, hdone] at hseeks
    cases hseeks

/-- Both keys of the pool answer 404. -/
def unavailable : List Action :=
  Sample.oks 0 2 ++ [.resume 0 (.answer (Sample.reply 404))] ++ Sample.oks 0 2

theorem verdict_404_sound_unavailable :
    let w := (run (step Sample.rotation) (init Sample.pool 0) [.start 0 Sample.chat]).get (by decide)
    let w1 := (w.step Sample.rotation (.resume 0 .ok)).get (by decide)
    let w2 := (run (step Sample.rotation) w1 unavailable).get (by decide)
    let w' := (w2.step Sample.rotation (.resume 0 (.answer (Sample.reply 404)))).get (by decide)
    ∀ id, Throughout (step Sample.rotation) (fun s => HasStatus s.table id .active) w1 unavailable ∨
        id ∈ (w'.requests 0).reactivated →
      ∃ r, (id, .response r) ∈ (w'.requests 0).answered ∧ r.statusCode = 404 := by
  intro w w1 w2 w'
  have h0 : run (step Sample.rotation) (init Sample.pool 0) [.start 0 Sample.chat] = some w :=
    (Option.some_get _).symm
  have h1 : w.step Sample.rotation (.resume 0 .ok) = some w1 := (Option.some_get _).symm
  have h2 : run (step Sample.rotation) w1 unavailable = some w2 := (Option.some_get _).symm
  have h3 : w2.step Sample.rotation (.resume 0 (.answer (Sample.reply 404))) = some w' :=
    (Option.some_get _).symm
  have hatt : Along (step Sample.rotation) (fun s a => s.attentive 0 a = true) w1
      (unavailable ++ [.resume 0 (.answer (Sample.reply 404))]) := by decide
  have hdone : (w'.requests 0).pc = .done (verdict (some "llama") 2 true true) :=
    Request.answer?_eq_some_iff.mp (by decide)
  exact verdict_404_sound (by decide) h0 (by decide) rfl h1 h2 (by decide) h3 rfl hatt rfl hdone

/-- While another request is at key 1, a chat request tries key 2, twice. -/
def busyKey : List Action :=
  [.start 1 .models] ++ Sample.oks 1 2 ++ [.start 0 Sample.chat]

theorem busyKey_untried :
    ∃ w w1 w2 w', run (step Sample.rotation) (init Sample.pool 0) busyKey = some w ∧
      (w.requests 0).pc = .count ∧ w.step Sample.rotation (.resume 0 .ok) = some w1 ∧
      run (step Sample.rotation) w1 unavailable = some w2 ∧
      w2.step Sample.rotation (.resume 0 (.answer (Sample.reply 404))) = some w' ∧
      (w'.requests 0).answer? =
        some (.proxy 404 "model 'llama' is not available for any active key") ∧
      Throughout (step Sample.rotation) (fun s => HasStatus s.table 1 .active) w1 unavailable ∧
      ∀ a ∈ (w'.requests 0).answered, a.1 = 2 := by
  let w := (run (step Sample.rotation) (init Sample.pool 0) busyKey).get (by decide)
  let w1 := (w.step Sample.rotation (.resume 0 .ok)).get (by decide)
  let w2 := (run (step Sample.rotation) w1 unavailable).get (by decide)
  let w' := (w2.step Sample.rotation (.resume 0 (.answer (Sample.reply 404)))).get (by decide)
  exact ⟨w, w1, w2, w', (Option.some_get _).symm, rfl, (Option.some_get _).symm,
    (Option.some_get _).symm, (Option.some_get _).symm, by decide, by decide, by decide⟩

end World

end OllamaProxy
