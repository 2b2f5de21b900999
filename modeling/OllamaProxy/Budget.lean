/-
# What the iterations of the loop are spent on

A chat request counts the active keys and gives its loop `max(1, n)` iterations
and the margin. An iteration starts with a selection, and what the selection
returns says what the iteration is spent on: a wait, if it returns no key; a key
that cannot be decrypted; or an upstream attempt (`Turn.spends`). What has been
spent and what is left add up to what the loop was given (`Request.Accounts`).

Key definitions: `Spent`, `Turn.spends`, `Request.Accounts`.
Key theorems: `Move.accounts`, `run_accounts`.
-/
import OllamaProxy.EmptyPool

namespace OllamaProxy

open Kit

inductive Spent
  | wait
  | undecryptable
  | attempt
deriving DecidableEq

def allBusy : Answer := .proxy 503 "all backends busy, retry shortly"

/-- What a selection that considers the active keys of the table spends the
iteration on. A request that counted no key ends where it finds none. -/
def Turn.spent (rot : Rotation) (x : Turn) : List Spent :=
  match (x.manager.choose (loadActive x.table)).1 with
  | none => if x.request.initialCount = 0 then [] else [.wait]
  | some (id, row) =>
    match rot.vault (x.request.copyOf id row).row.keyEncrypted with
    | none => [.undecryptable]
    | some _ => [.attempt]

def Turn.spends (rot : Rotation) (x : Turn) : Event → List Spent
  | .ok =>
    match x.request.pc with
    | .load => if (loadActive x.table).isEmpty then [] else x.spent rot
    | .reload => x.spent rot
    | _ => []
  | _ => []

/-- What a step spends of the iterations of request `p`. -/
def World.spends (rot : Rotation) (p : ℕ) (w : World) : Action → List Spent
  | .resume q ev => if q = p then (w.turn p).spends rot ev else []
  | _ => []

namespace Request

def IsChat (q : Request) : Prop := ∃ requestedModel stream, q.kind = .chat requestedModel stream

/-- The iterations that are not spent yet, with the one whose selection has not
returned; inside the loop only. -/
def unspent (q : Request) : Option ℕ :=
  match q.pc with
  | .idle | .count | .done _ => none
  | .lock | .load | .reactivate _ | .reload => some (q.left + 1)
  | .wait _ | .upstream _ | .commit _ _ | .refresh _ => some q.left

/-- The request has spent `l`. -/
structure Accounts (rot : Rotation) (q : Request) (l : List Spent) : Prop where
  entering : q.pc = .idle ∨ q.pc = .count → l = []
  looping : q.IsChat → ∀ n ∈ q.unspent, n + l.length = maxIter rot q.initialCount
  ended : q.IsChat → q.pc.isDone = true → l.length ≤ maxIter rot q.initialCount
  busy : q.answer? = some allBusy → q.IsChat ∧ l.length = maxIter rot q.initialCount ∧ q.anyAttempt = false
  waits : q.anyAttempt = false → ∀ b ∈ l, b = .wait

section

variable {rot : Rotation} {q : Request} {l : List Spent}

theorem verdict_eq_allBusy {requestedModel : Option String} {n : ℕ} {anyAttempt all404 : Bool}
    (h : verdict requestedModel n anyAttempt all404 = allBusy) : n ≠ 0 ∧ anyAttempt = false := by
  unfold verdict allBusy at h
  cases anyAttempt with
  | false =>
    refine ⟨?_, rfl⟩
    rintro rfl
    simp at h
  | true =>
    simp only [Bool.not_true, Bool.false_eq_true, if_false] at h
    cases requestedModel with
    | none => simp at h
    | some model =>
      simp only at h
      split_ifs at h <;> simp at h

theorem failed_ne_allBusy (q : Request) : q.failed ≠ allBusy := by
  unfold failed allBusy
  split <;> simp

theorem upstream_ne_allBusy (r : ClientResponse) : Answer.upstream r ≠ allBusy := by
  simp [allBusy]

theorem cancelled_ne_allBusy : Answer.cancelled ≠ allBusy := by
  simp [allBusy]

theorem Accounts.stop (hlen : q.IsChat → l.length ≤ maxIter rot q.initialCount)
    (hwaits : q.anyAttempt = false → ∀ b ∈ l, b = .wait) {answer : Answer} (h : answer ≠ allBusy) :
    (q.stop answer).Accounts rot l where
  entering hpc := by rcases hpc with hpc | hpc <;> cases hpc
  looping _ n hn := by cases hn
  ended hchat _ := hlen hchat
  busy hbusy := absurd (Option.some.inj hbusy) h
  waits := hwaits

theorem Accounts.giveUp (hlen : q.IsChat → l.length ≤ maxIter rot q.initialCount)
    (hfull : q.IsChat → q.initialCount ≠ 0 → l.length = maxIter rot q.initialCount)
    (hwaits : q.anyAttempt = false → ∀ b ∈ l, b = .wait) : q.giveUp.Accounts rot l := by
  unfold Request.giveUp
  split
  · rename_i requestedModel stream hkind
    have hchat : q.IsChat := ⟨_, _, hkind⟩
    refine ⟨fun hpc => ?_, fun _ n hn => (by cases hn), fun _ _ => hlen hchat, fun hbusy => ?_, hwaits⟩
    · rcases hpc with hpc | hpc <;> cases hpc
    · obtain ⟨hcount, hno⟩ := verdict_eq_allBusy (Option.some.inj hbusy)
      exact ⟨hchat, hfull hchat hcount, hno⟩
  · exact .stop hlen hwaits (by simp [allBusy])

/-- At the head of the loop. -/
theorem Accounts.nextIteration (hlen : q.IsChat → q.left + l.length = maxIter rot q.initialCount)
    (hwaits : q.anyAttempt = false → ∀ b ∈ l, b = .wait) : q.nextIteration.Accounts rot l := by
  unfold Request.nextIteration
  split
  · rename_i hleft
    rw [hleft] at hlen
    exact .giveUp (fun hchat => by have := hlen hchat; omega) (fun hchat _ => by have := hlen hchat; omega) hwaits
  · rename_i left hleft
    refine ⟨fun hpc => ?_, fun hchat n hn => ?_, fun _ hdone => (by cases hdone), fun hbusy => (by cases hbusy),
      hwaits⟩
    · rcases hpc with hpc | hpc <;> cases hpc
    · have := hlen hchat
      cases hn
      show left + 1 + l.length = maxIter rot q.initialCount
      omega

theorem Accounts.returned (hlen : q.IsChat → q.left + l.length = maxIter rot q.initialCount)
    (hattempt : q.anyAttempt = true) (ret : Return) : (q.returned ret).Accounts rot l := by
  have hle : q.IsChat → l.length ≤ maxIter rot q.initialCount := fun hchat => by
    have := hlen hchat
    omega
  have hwaits : q.anyAttempt = false → ∀ b ∈ l, b = .wait := fun hno => by
    rw [hattempt] at hno
    cases hno
  cases ret with
  | models ok ids => exact .stop hle hwaits (by simp [allBusy])
  | outcome o =>
    simp only [Request.returned]
    split
    · exact .nextIteration hlen hwaits
    · split
      · exact .stop hle hwaits (upstream_ne_allBusy _)
      · exact Accounts.stop (q := { q with all404 := false }) hle hwaits (upstream_ne_allBusy _)
      · exact .stop hle hwaits (failed_ne_allBusy q)

/-- Within the loop the request goes on with the same iterations. -/
theorem Accounts.at_pc {q' : Request} (h : q.Accounts rot l) (hunspent : q'.unspent = q.unspent)
    (hloop : q.unspent.isSome = true) (hkind : q'.kind = q.kind) (hcount : q'.initialCount = q.initialCount)
    (hattempt : q'.anyAttempt = q.anyAttempt) : q'.Accounts rot l := by
  have hsome : q'.unspent.isSome = true := hunspent ▸ hloop
  refine ⟨fun hpc => ?_, fun hchat n hn => ?_, fun _ hdone => ?_, fun hbusy => ?_, ?_⟩
  · rcases hpc with hpc | hpc <;> simp [unspent, hpc] at hsome
  · rw [hcount]
    exact h.looping (by rw [IsChat, ← hkind]; exact hchat) n (hunspent ▸ hn)
  · unfold unspent at hsome
    cases hpc : q'.pc <;> simp [hpc, Pc.isDone] at hsome hdone
  · rw [answer?_eq_some_iff] at hbusy
    simp [unspent, hbusy] at hsome
  · rw [hattempt]
    exact h.waits

end

end Request

/-! ### One turn -/

namespace Turn

variable {rot : Rotation} {now : ℤ} {p : ℕ} {x x' : Turn} {ev : Event} {l : List Spent}

theorem spends_of_selects (h : x.Selects) : x.spends rot .ok = x.spent rot := by
  rcases h with ⟨hpc, hload⟩ | hpc
  · have hne : (loadActive x.table).isEmpty = false := by simpa using hload
    rw [spends, hpc]
    simp [hne]
  · rw [spends, hpc]

theorem spends_of_not_selects (h : ¬ x.Selects) (ev : Event) : x.spends rot ev = [] := by
  cases ev with
  | ok =>
    unfold spends
    cases hpc : x.request.pc with
    | load =>
      have hempty : loadActive x.table = [] := by
        by_contra hne
        exact h (Or.inl ⟨hpc, hne⟩)
      simp [hempty]
    | reload => exact absurd (Or.inr hpc) h
    | _ => rfl
  | _ => rfl

theorem spends_of_interrupts (h : ev.interrupts = true) : x.spends rot ev = [] := by
  cases ev <;> first | rfl | cases h

theorem not_selects_of_pc (hload : x.request.pc ≠ .load) (hreload : x.request.pc ≠ .reload) : ¬ x.Selects := by
  rintro (⟨hpc, -⟩ | hpc)
  · exact hload hpc
  · exact hreload hpc

theorem Aborted.ne_allBusy {q : Request} {answer : Answer} (h : Aborted q answer) : answer ≠ allBusy := by
  rcases h with rfl | rfl
  · exact q.failed_ne_allBusy
  · simp [allBusy]

/-- A request inside the loop has not spent more than it was given. -/
theorem accounts_le {q : Request} (h : q.Accounts rot l) {n : ℕ} (hn : q.unspent = some n)
    (hchat : q.IsChat) : l.length ≤ maxIter rot q.initialCount := by
  have := h.looping hchat n hn
  omega

theorem noKey_accounts {q : Request} {now : ℤ} (hn : q.unspent = some (q.left + 1)) (h : q.Accounts rot l) :
    (q.noKey now).Accounts rot (l ++ if q.initialCount = 0 then [] else [.wait]) := by
  have hwaits : q.anyAttempt = false → ∀ b ∈ l ++ if q.initialCount = 0 then [] else [.wait], b = .wait := by
    intro hno b hb
    rcases List.mem_append.mp hb with hb | hb
    · exact h.waits hno b hb
    · split_ifs at hb
      · cases hb
      · exact List.mem_singleton.mp hb
  cases hkind : q.kind with
  | models =>
    have hchat : ¬ q.IsChat := by
      rintro ⟨_, _, hchat⟩
      rw [hkind] at hchat
      cases hchat
    have hnoKey : q.noKey now = ({ q with key := none } : Request).stop (.models false []) := by
      unfold Request.noKey
      simp only [hkind]
    have hmodels : Answer.models false [] ≠ allBusy := by simp [allBusy]
    rw [hnoKey]
    exact Request.Accounts.stop (q := { q with key := none }) (fun hc => absurd hc hchat) hwaits hmodels
  | chat requestedModel stream =>
    have hchat : q.IsChat := ⟨_, _, hkind⟩
    by_cases h0 : q.initialCount = 0
    · have hnoKey : q.noKey now = ({ q with key := none } : Request).giveUp := by
        unfold Request.noKey
        simp only [hkind, h0, if_true]
      have hle := accounts_le h hn hchat
      rw [hnoKey, if_pos h0, List.append_nil]
      exact .giveUp (fun _ => hle) (fun _ hne => absurd h0 hne) h.waits
    · have hnoKey : q.noKey now = { q with key := none, pc := .wait (now + seconds 10) } := by
        unfold Request.noKey
        simp only [hkind, h0, if_false]
      have hlen := h.looping hchat _ hn
      rw [if_neg h0] at hwaits
      rw [hnoKey, if_neg h0]
      refine ⟨fun hpc => ?_, fun _ n hn' => ?_, fun _ hdone => (by cases hdone), fun hbusy => (by cases hbusy), hwaits⟩
      · rcases hpc with hpc | hpc <;> cases hpc
      · cases hn'
        show q.left + (l ++ [Spent.wait]).length = maxIter rot q.initialCount
        rw [List.length_append, List.length_singleton]
        omega

/-- While a selection has not returned, its iteration is unspent. -/
theorem Selects.unspent (h : x.Selects) : x.request.unspent = some (x.request.left + 1) := by
  rcases h with ⟨hpc, -⟩ | hpc <;> rw [Request.unspent, hpc]

theorem unspent_of_holdsLock {q : Request} (h : q.pc.holdsLock = true) : q.unspent = some (q.left + 1) := by
  unfold Request.unspent
  cases hpc : q.pc <;> first | rfl | (rw [hpc] at h; cases h)

theorem unspent_of_holdsKey {q : Request} (h : q.pc.holdsKey = true) : q.unspent = some q.left := by
  unfold Request.unspent
  cases hpc : q.pc <;> first | rfl | (rw [hpc] at h; cases h)

theorem PickMove.accounts (h : PickMove rot now x ev x') (hl : x.request.Accounts rot l) :
    x'.request.Accounts rot (l ++ x.spends rot ev) := by
  cases h with
  | emptied hpc hempty =>
    have hno : ¬ x.Selects := by
      rintro (⟨-, hne⟩ | hpc')
      · exact hne hempty
      · rw [hpc] at hpc'
        cases hpc'
    rw [spends_of_not_selects hno, List.append_nil]
    have hunspent : x.request.unspent = some (x.request.left + 1) := unspent_of_holdsLock (by rw [hpc]; rfl)
    exact hl.at_pc hunspent.symm (by rw [hunspent]; rfl) rfl rfl rfl
  | reactivated updateNow hpc =>
    have hno : ¬ x.Selects := not_selects_of_pc (by rw [hpc]; nofun) (by rw [hpc]; nofun)
    rw [spends_of_not_selects hno, List.append_nil]
    have hunspent : x.request.unspent = some (x.request.left + 1) := unspent_of_holdsLock (by rw [hpc]; rfl)
    exact hl.at_pc hunspent.symm (by rw [hunspent]; rfl) rfl rfl rfl
  | left answer t hpc hev ht ha =>
    rw [spends_of_interrupts hev, List.append_nil]
    exact .stop (accounts_le hl (unspent_of_holdsLock hpc)) hl.waits ha.ne_allBusy
  | missed hpc hall =>
    have hnone : (x.manager.choose (loadActive x.table)).1 = none := choose_eq_none_iff.mpr hall
    rw [spends_of_selects hpc, spent, hnone]
    exact noKey_accounts hpc.unspent hl
  | skipped id row m hpc hchoose hvault =>
    rw [spends_of_selects hpc, spent, hchoose]
    simp only [hvault]
    refine Request.Accounts.returned (fun hchat => ?_) rfl _
    have hlen := hl.looping hchat _ hpc.unspent
    rw [List.length_append, List.length_singleton]
    show x.request.left + (l.length + 1) = maxIter rot x.request.initialCount
    omega
  | attempted id row m rawKey hpc hchoose hvault =>
    rw [spends_of_selects hpc, spent, hchoose]
    simp only [hvault]
    refine ⟨fun hpc => ?_, fun hchat n hn => ?_, fun _ hdone => (by cases hdone), fun hbusy => (by cases hbusy),
      fun hno => (by cases hno)⟩
    · rcases hpc with hpc | hpc <;> cases hpc
    · cases hn
      have hlen := hl.looping hchat _ hpc.unspent
      rw [List.length_append, List.length_singleton]
      show x.request.left + (l.length + 1) = maxIter rot x.request.initialCount
      omega

/-- A request with a key has spent what it is given, but for what it has left. -/
theorem holding_accounts (hkey : x.request.pc.holdsKey = true) (hl : x.request.Accounts rot l) :
    x.request.unspent = some x.request.left ∧ ¬ x.Selects ∧
      (x.request.IsChat → x.request.left + l.length = maxIter rot x.request.initialCount) ∧
      (x.request.IsChat → l.length ≤ maxIter rot x.request.initialCount) := by
  have hunspent : x.request.unspent = some x.request.left := unspent_of_holdsKey hkey
  refine ⟨hunspent, not_selects_of_pc ?_ ?_, fun hchat => hl.looping hchat _ hunspent, accounts_le hl hunspent⟩
  · intro hpc
    rw [hpc] at hkey
    cases hkey
  · intro hpc
    rw [hpc] at hkey
    cases hkey

theorem AnswerMove.accounts {copy : Copy} (h : AnswerMove rot now x copy ev x')
    (hkey : x.request.pc.holdsKey = true) (hx : x.request.Candid) (hl : x.request.Accounts rot l) :
    x'.request.Accounts rot l := by
  obtain ⟨hunspent, -, hlen, hle⟩ := holding_accounts hkey hl
  cases h with
  | answered u rec ret hd => exact hl.at_pc hunspent.symm (by rw [hunspent]; rfl) rfl rfl rfl
  | unrecorded u ret hd =>
    apply Request.Accounts.returned
    · exact hlen
    · exact hx.holding hkey
  | unread u e hd =>
    apply Request.Accounts.stop _ _ x.request.failed_ne_allBusy
    · exact hle
    · exact hl.waits
  | hungUp written expired =>
    apply Request.Accounts.stop _ _ Request.cancelled_ne_allBusy
    · exact hle
    · exact hl.waits

theorem RecordMove.accounts {copy : Copy} (h : RecordMove x copy ev x')
    (hkey : x.request.pc.holdsKey = true) (hx : x.request.Candid) (hl : x.request.Accounts rot l) :
    x'.request.Accounts rot l := by
  obtain ⟨hunspent, -, hlen, hle⟩ := holding_accounts hkey hl
  cases h with
  | recorded v ret t hpc hcommit => exact hl.at_pc hunspent.symm (by rw [hunspent]; rfl) rfl rfl rfl
  | recordedUsage u ret t hpc hcommit =>
    apply Request.Accounts.returned
    · exact hlen
    · exact hx.holding hkey
  | refreshed ret row hpc hrow =>
    apply Request.Accounts.returned
    · exact hlen
    · exact hx.holding hkey
  | cancelled written rec ret t hpc ht =>
    apply Request.Accounts.stop _ _ Request.cancelled_ne_allBusy
    · exact hle
    · exact hl.waits
  | leaked t hev ht =>
    apply Request.Accounts.stop _ _ x.request.failed_ne_allBusy
    · exact hle
    · exact hl.waits

theorem Move.accounts (h : Move rot now p x ev x') (hx : x.request.Candid) (hl : x.request.Accounts rot l) :
    x'.request.Accounts rot (l ++ x.spends rot ev) := by
  have hkeeps : ∀ q : Request, q.Accounts rot l → ¬ x.Selects → q.Accounts rot (l ++ x.spends rot ev) :=
    fun q hq hno => by rwa [spends_of_not_selects hno, List.append_nil]
  cases h with
  | counted hpc =>
    apply hkeeps _ _ (not_selects_of_pc (by rw [hpc]; nofun) (by rw [hpc]; nofun))
    have hnil := hl.entering (Or.inr hpc)
    subst hnil
    exact .nextIteration (fun _ => rfl) (fun _ b hb => by cases hb)
  | quit answer hpc hev ha =>
    rw [spends_of_interrupts hev, List.append_nil]
    refine .stop (fun hchat => ?_) hl.waits ha.ne_allBusy
    rcases hpc with hpc | hpc | ⟨deadline, hpc⟩
    · rw [hl.entering (Or.inr hpc)]
      exact Nat.zero_le _
    · exact accounts_le hl (by rw [Request.unspent, hpc]) hchat
    · exact accounts_le hl (by rw [Request.unspent, hpc]) hchat
  | acquired hpc hlock =>
    apply hkeeps _ _ (not_selects_of_pc (by rw [hpc]; nofun) (by rw [hpc]; nofun))
    have hunspent : x.request.unspent = some (x.request.left + 1) := by rw [Request.unspent, hpc]
    exact hl.at_pc hunspent.symm (by rw [hunspent]; rfl) rfl rfl rfl
  | pick h => exact h.accounts hl
  | slept deadline hpc => exact hkeeps _ hl (not_selects_of_pc (by rw [hpc]; nofun) (by rw [hpc]; nofun))
  | woke deadline hpc =>
    apply hkeeps _ _ (not_selects_of_pc (by rw [hpc]; nofun) (by rw [hpc]; nofun))
    have hunspent : x.request.unspent = some x.request.left := by rw [Request.unspent, hpc]
    exact .nextIteration (fun hchat => hl.looping hchat _ hunspent) hl.waits
  | answer rawKey copy hpc hkey h =>
    have hholds : x.request.pc.holdsKey = true := by rw [hpc]; rfl
    exact hkeeps _ (h.accounts hholds hx hl) (holding_accounts hholds hl).2.1
  | record copy hpc hkey h =>
    have hholds := Pc.holdsKey_of_isRecording hpc
    exact hkeeps _ (h.accounts hholds hx hl) (holding_accounts hholds hl).2.1

end Turn

/-! ### A run -/

theorem Request.Accounts.idle (rot : Rotation) : Request.idle.Accounts rot [] :=
  ⟨fun _ => rfl, fun _ n hn => (by cases hn), fun _ _ => Nat.zero_le _, fun hbusy => (by cases hbusy),
    fun _ b hb => (by cases hb)⟩

theorem Request.Accounts.start (rot : Rotation) (kind : Kind) : (Request.start kind).Accounts rot [] := by
  cases kind with
  | chat requestedModel stream =>
    exact ⟨fun _ => rfl, fun _ n hn => (by cases hn), fun _ _ => Nat.zero_le _, fun hbusy => (by cases hbusy),
      fun _ b hb => (by cases hb)⟩
  | models =>
    have hchat : ¬ (Request.start .models).IsChat := by
      rintro ⟨_, _, hchat⟩
      cases hchat
    exact ⟨fun _ => rfl, fun hc => absurd hc hchat, fun hc => absurd hc hchat, fun hbusy => (by cases hbusy),
      fun _ b hb => (by cases hb)⟩

namespace World

variable {rot : Rotation} {w w' : World} {a : Action} {p : ℕ} {l : List Spent}

theorem spends_of_not_turn (h : a.isTurnOf p = false) (w : World) : w.spends rot p a = [] := by
  cases a with
  | resume q ev => exact if_neg (of_decide_eq_false h)
  | _ => rfl

theorem step_accounts (hw : w.Sound) (hc : (w.requests p).Candid) (hl : (w.requests p).Accounts rot l)
    (h : w.step rot a = some w') : (w'.requests p).Accounts rot (l ++ w.spends rot p a) := by
  cases step_request hw h p with
  | keeps hturn hreq => rwa [hreq, spends_of_not_turn hturn, List.append_nil]
  | starts kind hturn hpc htable hreq =>
    rw [hreq, spends_of_not_turn hturn, List.append_nil, hl.entering (Or.inl hpc)]
    exact .start rot kind
  | turns ev x' ha hw' hm =>
    subst ha hw'
    have hspends : w.spends rot p (.resume p ev) = (w.turn p).spends rot ev := if_pos rfl
    rw [put_requests_self, hspends]
    exact hm.accounts hc hl

/-- What a request has spent, in every state of a run. -/
theorem run_accounts {t : KeyTable} {now : ℤ} {as : List Action} (hrun : run (step rot) (init t now) as = some w)
    (p : ℕ) : (w.requests p).Accounts rot (outputs (step rot) (spends rot p) (init t now) as) := by
  have hstep : ∀ (s : World) l a s', (s.Sound ∧ (∀ q, (s.requests q).Candid) ∧ (s.requests p).Accounts rot l) →
      True → s.step rot a = some s' →
        s'.Sound ∧ (∀ q, (s'.requests q).Candid) ∧ (s'.requests p).Accounts rot (l ++ s.spends rot p a) :=
    fun _ _ _ _ hI _ h => ⟨step_sound hI.1 h, step_candid hI.1 hI.2.1 h, step_accounts hI.1 (hI.2.1 p) hI.2.2 h⟩
  have h := run_history (R := fun s l => s.Sound ∧ (∀ q, (s.requests q).Candid) ∧ (s.requests p).Accounts rot l)
    hstep ⟨init_sound t now, fun _ => Request.Candid.idle, .idle rot⟩ (along_of_forall fun _ _ _ => trivial) hrun
  rw [List.nil_append] at h
  exact h.2.2

end World

end OllamaProxy
