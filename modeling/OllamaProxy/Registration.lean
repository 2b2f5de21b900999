/-
# Registering a key

`create_key`, of the admin API and of the dashboard, is three steps: a `SELECT`
that looks for the hash, the `INSERT` with its commit, which the unique index on
`key_hash` may refuse, and a `refresh` of the new row. Other calls and admin
operations run in between.

Still a call acts at once, at one of its steps: a run leaves the table that the
atomic `createKey` leaves, in the order of these points, and a 201 or a 409 is
what the atomic call says there (`create_atomic`). Of several calls with one
secret one wins (`one_winner`).

Key definitions: `Registration.step`, `points`, `atomic`.
Key theorems: `step_atomic`, `create_atomic`, `one_winner`.
-/
import OllamaProxy.KeyIdentity

namespace OllamaProxy

open Kit

namespace Registration

/-- The columns that the call has computed before its first await. -/
structure Call where
  keyHash : String
  keyPrefix : String
  keyEncrypted : String
  label : Option String

def Call.of (lib : Library) (rawKey keyEncrypted : String) (label : Option String) : Call where
  keyHash := lib.hashKey rawKey
  keyPrefix := keyPrefixOf rawKey
  keyEncrypted := keyEncrypted
  label := label

/-- The await a call is suspended at, `refresh` with the id of its row; a call
that ended has the status code of its answer, 500 for an exception. -/
inductive Pc
  | idle
  | select
  | insert
  | refresh (id : ℕ)
  | answered (statusCode : ℕ)
  | cancelled
deriving DecidableEq

structure Creation where
  pc : Pc
  call : Call

structure State where
  table : KeyTable
  now : ℤ
  creations : ℕ → Creation

inductive Action
  | start (p : ℕ) (rawKey keyEncrypted : String) (label : Option String)
  | resume (p : ℕ) (ev : Event)
  | admin (op : AdminOp)
  | tick (d : ℕ)

def Call.createKey (c : Call) (t : KeyTable) (now : ℤ) : Option KeyTable :=
  OllamaProxy.createKey t c.keyHash c.keyPrefix c.keyEncrypted c.label now

/-- `scalar_one_or_none` raises where there are two rows. -/
def onSelect (t : KeyTable) (c : Call) : Event → Option Pc
  | .ok =>
    match t.select fun row => row.keyHash = c.keyHash with
    | [] => some .insert
    | [_] => some (.answered 409)
    | _ => some (.answered 500)
  | .fail => some (.answered 500)
  | .cancel _ _ => some .cancelled
  | .answer _ => none

/-- The commit; an `IntegrityError` is rolled back. -/
def onInsert (t : KeyTable) (now : ℤ) (c : Call) : Event → Option (KeyTable × Pc)
  | .ok =>
    match c.createKey t now with
    | some t' => some (t', .refresh t.nextId)
    | none => some (t, .answered 409)
  | .fail => some (t, .answered 500)
  | .cancel written _ => some (if written then (c.createKey t now).getD t else t, .cancelled)
  | .answer _ => none

/-- A row that is gone cannot be refreshed. -/
def onRefresh (t : KeyTable) (id : ℕ) : Event → Option Pc
  | .ok => some (.answered (if (t.get? id).isSome then 201 else 500))
  | .fail => some (.answered 500)
  | .cancel _ _ => some .cancelled
  | .answer _ => none

def resume (t : KeyTable) (now : ℤ) (x : Creation) (ev : Event) : Option (KeyTable × Pc) :=
  match x.pc with
  | .idle | .answered _ | .cancelled => none
  | .select => (onSelect t x.call ev).map fun pc => (t, pc)
  | .insert => onInsert t now x.call ev
  | .refresh id => (onRefresh t id ev).map fun pc => (t, pc)

def State.put (s : State) (p : ℕ) (x : Creation) : State := { s with creations := Function.update s.creations p x }

def step (lib : Library) (pyFloat : String → Option PyFloat) (s : State) : Action → Option State
  | .start p rawKey keyEncrypted label =>
    match (s.creations p).pc with
    | .idle => some (s.put p ⟨.select, .of lib rawKey keyEncrypted label⟩)
    | _ => none
  | .resume p ev =>
    (resume s.table s.now (s.creations p) ev).map fun r =>
      { s with table := r.1 }.put p { s.creations p with pc := r.2 }
  | .admin op => some { s with table := op.apply pyFloat s.now s.table }
  | .tick d => some { s with now := s.now + d }

def init (t : KeyTable) (now : ℤ) : State := ⟨t, now, fun _ => ⟨.idle, ⟨"", "", "", none⟩⟩⟩

/-! ### Where a call acts -/

/-- An operation at the point where it acts; a call with what it finds there. -/
inductive Entry
  | create (p : ℕ) (c : Call) (now : ℤ) (accepted : Bool)
  | admin (op : AdminOp) (now : ℤ)

def Entry.isOf (p : ℕ) : Entry → Bool
  | .create q _ _ _ => q = p
  | .admin _ _ => false

/-- A call acts at the `SELECT` that finds its hash, or at the commit. -/
def point (t : KeyTable) (now : ℤ) (p : ℕ) (x : Creation) (ev : Event) : List Entry :=
  match x.pc, ev with
  | .select, .ok =>
    if (t.select fun row => row.keyHash = x.call.keyHash).length = 1 then [.create p x.call now false] else []
  | .insert, .ok | .insert, .cancel true _ => [.create p x.call now (x.call.createKey t now).isSome]
  | _, _ => []

def points (s : State) : Action → List Entry
  | .resume p ev => point s.table s.now p (s.creations p) ev
  | .admin op => [.admin op s.now]
  | .start _ _ _ _ | .tick _ => []

/-- The operations act at once, one after the other. `none` where a call would
find something else. -/
def atomic (pyFloat : String → Option PyFloat) (t : KeyTable) : Entry → Option KeyTable
  | .create _ c now accepted =>
    if (c.createKey t now).isSome = accepted then some ((c.createKey t now).getD t) else none
  | .admin op now => some (op.apply pyFloat now t)

section

variable {lib : Library} {pyFloat : String → Option PyFloat} {s s' : State} {a : Action} {t t' : KeyTable}
  {now : ℤ} {c : Call} {p : ℕ} {x : Creation} {ev : Event} {pc : Pc}

theorem createKey_eq_some_iff : c.createKey t now = some t' ↔
    ¬ Registered t c.keyHash ∧ t.insert (.new c.keyHash c.keyPrefix c.keyEncrypted c.label now) = t' :=
  OllamaProxy.createKey_eq_some_iff

theorem createKey_eq_none_iff : c.createKey t now = none ↔ Registered t c.keyHash := by
  rw [Option.eq_none_iff_forall_ne_some]
  constructor
  · intro h
    by_contra hnew
    exact h _ (createKey_eq_some_iff.mpr ⟨hnew, rfl⟩)
  · intro hreg t' h
    exact (createKey_eq_some_iff.mp h).1 hreg

/-- What a call does at one of its steps. -/
inductive CreateMove (t : KeyTable) (now : ℤ) (p : ℕ) (x : Creation) : List Entry → KeyTable → Pc → Prop
  | clear (hpc : x.pc = .select) : CreateMove t now p x [] t .insert
  | found (hpc : x.pc = .select) (hreg : Registered t x.call.keyHash) :
    CreateMove t now p x [.create p x.call now false] t (.answered 409)
  | inserted (t' : KeyTable) (pc : Pc) (hpc : x.pc = .insert) (ht : x.call.createKey t now = some t')
    (hto : pc = .refresh t.nextId ∨ pc = .cancelled) : CreateMove t now p x [.create p x.call now true] t' pc
  | refused (pc : Pc) (hpc : x.pc = .insert) (hreg : Registered t x.call.keyHash)
    (hto : pc = .answered 409 ∨ pc = .cancelled) : CreateMove t now p x [.create p x.call now false] t pc
  | refreshed (id : ℕ) (hpc : x.pc = .refresh id) : CreateMove t now p x [] t (.answered 201)
  | failed (pc : Pc) (hpc : x.pc = .select ∨ x.pc = .insert ∨ ∃ id, x.pc = .refresh id)
    (hto : pc = .answered 500 ∨ pc = .cancelled) : CreateMove t now p x [] t pc

theorem registered_of_select {r : ℕ × ApiKey} {rs : List (ℕ × ApiKey)}
    (h : (t.select fun row => row.keyHash = c.keyHash) = r :: rs) : Registered t c.keyHash := by
  have hmem : (r.1, r.2) ∈ t.select fun row => row.keyHash = c.keyHash := by
    rw [h]
    exact List.mem_cons_self
  obtain ⟨hrow, hhash⟩ := (t.mem_select _ r.1 r.2).mp hmem
  exact ⟨r.1, r.2, hrow, of_decide_eq_true hhash⟩

theorem onSelect_move (hpc : x.pc = .select) (h : onSelect t x.call ev = some pc) :
    CreateMove t now p x (point t now p x ev) t pc := by
  have hfails : ∀ {pc : Pc}, pc = .answered 500 ∨ pc = .cancelled → CreateMove t now p x [] t pc :=
    fun hto => .failed _ (Or.inl hpc) hto
  unfold point
  rw [hpc]
  cases ev with
  | ok =>
    simp only [onSelect] at h
    cases hsel : t.select fun row => row.keyHash = x.call.keyHash with
    | nil =>
      rw [hsel] at h
      cases h
      exact .clear hpc
    | cons r rs =>
      rw [hsel] at h
      cases rs with
      | nil =>
        cases h
        exact .found hpc (registered_of_select hsel)
      | cons r' rs =>
        cases h
        exact hfails (Or.inl rfl)
  | fail =>
    cases h
    exact hfails (Or.inl rfl)
  | cancel written expired =>
    cases h
    exact hfails (Or.inr rfl)
  | answer u => cases h

theorem onInsert_move (hpc : x.pc = .insert) (h : onInsert t now x.call ev = some (t', pc)) :
    CreateMove t now p x (point t now p x ev) t' pc := by
  have hcommit : ∀ {pc pc' : Pc}, pc = .refresh t.nextId ∨ pc = .cancelled → pc' = .answered 409 ∨ pc' = .cancelled →
      CreateMove t now p x [.create p x.call now (x.call.createKey t now).isSome] ((x.call.createKey t now).getD t)
        (if (x.call.createKey t now).isSome then pc else pc') := by
    intro pc pc' hto hto'
    cases hc : x.call.createKey t now with
    | some u => exact .inserted u pc hpc hc hto
    | none => exact .refused pc' hpc (createKey_eq_none_iff.mp hc) hto'
  unfold point
  rw [hpc]
  cases ev with
  | ok =>
    have hmove := hcommit (Or.inl rfl) (Or.inl rfl)
    simp only [onInsert] at h
    cases hc : x.call.createKey t now <;> rw [hc] at h hmove <;> cases h <;> exact hmove
  | cancel written expired =>
    cases written with
    | true =>
      have hmove := hcommit (Or.inr rfl) (Or.inr rfl)
      rw [ite_self] at hmove
      cases h
      exact hmove
    | false =>
      cases h
      exact .failed _ (Or.inr (Or.inl hpc)) (Or.inr rfl)
  | fail =>
    cases h
    exact .failed _ (Or.inr (Or.inl hpc)) (Or.inl rfl)
  | answer u => cases h

theorem onRefresh_move {id : ℕ} (hpc : x.pc = .refresh id) (h : onRefresh t id ev = some pc) :
    CreateMove t now p x (point t now p x ev) t pc := by
  have hfails : ∀ {pc : Pc}, pc = .answered 500 ∨ pc = .cancelled → CreateMove t now p x [] t pc :=
    fun hto => .failed _ (Or.inr (Or.inr ⟨id, hpc⟩)) hto
  unfold point
  rw [hpc]
  cases ev with
  | ok =>
    cases h
    show CreateMove t now p x [] t _
    by_cases hrow : (t.get? id).isSome = true
    · rw [if_pos hrow]
      exact .refreshed id hpc
    · rw [if_neg hrow]
      exact hfails (Or.inl rfl)
  | fail =>
    cases h
    exact hfails (Or.inl rfl)
  | cancel written expired =>
    cases h
    exact hfails (Or.inr rfl)
  | answer u => cases h

theorem resume_move (h : resume t now x ev = some (t', pc)) : CreateMove t now p x (point t now p x ev) t' pc := by
  unfold resume at h
  cases hpc : x.pc with
  | idle | answered statusCode | cancelled => simp [hpc] at h
  | select =>
    simp only [hpc, Option.map_eq_some_iff, Prod.mk.injEq] at h
    obtain ⟨pc', h, rfl, rfl⟩ := h
    exact onSelect_move hpc h
  | insert =>
    simp only [hpc] at h
    exact onInsert_move hpc h
  | refresh id =>
    simp only [hpc, Option.map_eq_some_iff, Prod.mk.injEq] at h
    obtain ⟨pc', h, rfl, rfl⟩ := h
    exact onRefresh_move hpc h

end

/-! ### A run -/

section

variable {lib : Library} {pyFloat : String → Option PyFloat} {s s' : State} {a : Action} {t : KeyTable} {now : ℤ}
  {l : List Entry} {p : ℕ}

theorem step_resume {ev : Event} (h : step lib pyFloat s (.resume p ev) = some s') :
    ∃ t' pc, s' = { s with table := t' }.put p { s.creations p with pc := pc } ∧
      CreateMove s.table s.now p (s.creations p) (points s (.resume p ev)) t' pc := by
  simp only [step, Option.map_eq_some_iff] at h
  obtain ⟨⟨t', pc⟩, h, rfl⟩ := h
  exact ⟨t', pc, rfl, resume_move h⟩

theorem step_start {rawKey keyEncrypted : String} {label : Option String}
    (h : step lib pyFloat s (.start p rawKey keyEncrypted label) = some s') :
    (s.creations p).pc = .idle ∧ s' = s.put p ⟨.select, .of lib rawKey keyEncrypted label⟩ := by
  simp only [step] at h
  split at h
  · next hpc =>
    cases h
    exact ⟨hpc, rfl⟩
  · cases h

theorem run_atomic_singleton {e : Entry} {t t' : KeyTable} (h : atomic pyFloat t e = some t') :
    run (atomic pyFloat) t [e] = some t' := by
  simp [run, h]

/-- The atomic operations do at its points what a step does. -/
theorem step_atomic (h : step lib pyFloat s a = some s') :
    run (atomic pyFloat) s.table (points s a) = some s'.table := by
  cases a with
  | start p rawKey keyEncrypted label =>
    obtain ⟨-, rfl⟩ := step_start h
    rfl
  | resume p ev =>
    obtain ⟨t', pc, rfl, hm⟩ := step_resume h
    show run (atomic pyFloat) s.table (points s (.resume p ev)) = some t'
    generalize points s (.resume p ev) = l at hm
    cases hm with
    | clear hpc | refreshed id hpc | failed _ hpc hto => rfl
    | inserted _ _ hpc ht hto => exact run_atomic_singleton (by simp [atomic, ht])
    | found hpc hreg | refused _ hpc hreg hto =>
      exact run_atomic_singleton (by simp [atomic, createKey_eq_none_iff.mpr hreg])
  | admin op =>
    cases h
    rfl
  | tick d =>
    cases h
    rfl

/-- The call has not acted yet. -/
def Pc.isPending : Pc → Bool
  | .idle | .select | .insert => true
  | _ => false

/-- The call has created its row. -/
def Pc.isAccepted : Pc → Bool
  | .refresh _ => true
  | .answered statusCode => statusCode = 201
  | _ => false

/-- What has become of call `p`, by its entries so far. -/
structure Answers (l : List Entry) (p : ℕ) (x : Creation) : Prop where
  pending : x.pc.isPending = true → l.countP (·.isOf p) = 0
  once : l.countP (·.isOf p) ≤ 1
  accepted : x.pc.isAccepted = true → ∃ now, .create p x.call now true ∈ l
  refused : x.pc = .answered 409 → ∃ now, .create p x.call now false ∈ l

theorem Answers.other {x : Creation} {es : List Entry} (h : Answers l p x) (hes : es.countP (·.isOf p) = 0) :
    Answers (l ++ es) p x where
  pending hpc := by rw [List.countP_append, h.pending hpc, hes]
  once := by rw [List.countP_append, hes]; exact h.once
  accepted hpc := (h.accepted hpc).imp fun _ hmem => List.mem_append_left es hmem
  refused hpc := (h.refused hpc).imp fun _ hmem => List.mem_append_left es hmem

theorem CreateMove.answers {x : Creation} {es : List Entry} {t t' : KeyTable} {pc : Pc} (hx : Answers l p x)
    (h : CreateMove t now p x es t' pc) : Answers (l ++ es) p { x with pc := pc } := by
  have hentry : ∀ {accepted : Bool}, x.pc.isPending = true →
      (l ++ [Entry.create p x.call now accepted]).countP (·.isOf p) ≤ 1 ∧
        Entry.create p x.call now accepted ∈ l ++ [Entry.create p x.call now accepted] := by
    intro accepted hpc
    rw [List.countP_append, hx.pending hpc]
    exact ⟨by simp [Entry.isOf], by simp⟩
  cases h with
  | clear hpc =>
    rw [List.append_nil]
    exact ⟨fun _ => hx.pending (by rw [hpc]; rfl), hx.once, nofun, nofun⟩
  | found hpc hreg =>
    obtain ⟨honce, hmem⟩ := hentry (by rw [hpc]; rfl)
    exact ⟨nofun, honce, nofun, fun _ => ⟨now, hmem⟩⟩
  | inserted _ _ hpc ht hto =>
    obtain ⟨honce, hmem⟩ := hentry (by rw [hpc]; rfl)
    rcases hto with rfl | rfl <;> exact ⟨nofun, honce, fun _ => ⟨now, hmem⟩, nofun⟩
  | refused _ hpc hreg hto =>
    obtain ⟨honce, hmem⟩ := hentry (by rw [hpc]; rfl)
    rcases hto with rfl | rfl
    · exact ⟨nofun, honce, nofun, fun _ => ⟨now, hmem⟩⟩
    · exact ⟨nofun, honce, nofun, nofun⟩
  | refreshed id hpc =>
    rw [List.append_nil]
    exact ⟨nofun, hx.once, fun _ => hx.accepted (by rw [hpc]; rfl), nofun⟩
  | failed _ hpc hto =>
    rw [List.append_nil]
    rcases hto with rfl | rfl <;> exact ⟨nofun, hx.once, nofun, nofun⟩

theorem step_answers (hs : ∀ p, Answers l p (s.creations p)) (h : step lib pyFloat s a = some s') (p : ℕ) :
    Answers (l ++ points s a) p (s'.creations p) := by
  cases a with
  | start q rawKey keyEncrypted label =>
    obtain ⟨hpc, rfl⟩ := step_start h
    rw [points, List.append_nil]
    by_cases hpq : p = q
    · subst hpq
      have hnone := (hs p).pending (by rw [hpc]; rfl)
      simp only [State.put, Function.update_self]
      exact ⟨fun _ => hnone, (hs p).once, nofun, nofun⟩
    · simp only [State.put, Function.update_of_ne hpq]
      exact hs p
  | resume q ev =>
    obtain ⟨t', pc, rfl, hm⟩ := step_resume h
    by_cases hpq : p = q
    · subst hpq
      simp only [State.put, Function.update_self]
      exact hm.answers (hs p)
    · simp only [State.put, Function.update_of_ne hpq]
      refine (hs p).other ?_
      generalize points s (.resume q ev) = es at hm
      have hqp : q ≠ p := fun he => hpq he.symm
      cases hm <;> simp [Entry.isOf, hqp]
  | admin op =>
    cases h
    exact (hs p).other (by simp [points, Entry.isOf])
  | tick d =>
    cases h
    rw [points, List.append_nil]
    exact hs p

theorem run_answers {as : List Action} (h : run (step lib pyFloat) (init t now) as = some s) (p : ℕ) :
    Answers (outputs (step lib pyFloat) points (init t now) as) p (s.creations p) := by
  have hinit : ∀ p, Answers [] p ((init t now).creations p) := fun p =>
    ⟨fun _ => rfl, Nat.zero_le _, nofun, nofun⟩
  have hall := run_history (P := fun _ _ => True) (R := fun s l => ∀ p, Answers l p (s.creations p))
    (fun _ _ _ _ hs _ hstep => step_answers hs hstep) hinit (along_of_forall fun _ _ _ => trivial) h
  exact hall p

theorem run_follows_atomic {as : List Action} (h : run (step lib pyFloat) (init t now) as = some s) :
    ∃ t', run (atomic pyFloat) t (outputs (step lib pyFloat) points (init t now) as) = some t' ∧ s.table = t' :=
  run_follows (R := fun (s : State) t => s.table = t)
    (fun _ _ _ _ hR hstep => ⟨_, hR ▸ step_atomic hstep, rfl⟩) rfl h

/-- **Every call acts at once at one of its steps**: the atomic operations, in the
order of these points, leave the table of the run, and what a call answers is
what it found at its point. -/
theorem create_atomic {as : List Action} (h : run (step lib pyFloat) (init t now) as = some s) :
    run (atomic pyFloat) t (outputs (step lib pyFloat) points (init t now) as) = some s.table ∧
      ∀ p, (outputs (step lib pyFloat) points (init t now) as).countP (·.isOf p) ≤ 1 ∧
        ((s.creations p).pc = .answered 201 →
          ∃ n, .create p (s.creations p).call n true ∈ outputs (step lib pyFloat) points (init t now) as) ∧
        ((s.creations p).pc = .answered 409 →
          ∃ n, .create p (s.creations p).call n false ∈ outputs (step lib pyFloat) points (init t now) as) := by
  obtain ⟨t', ht', hsame⟩ := run_follows_atomic h
  refine ⟨by rw [ht', hsame], fun p => ?_⟩
  have hp := run_answers h p
  exact ⟨hp.once, fun hpc => hp.accepted (by rw [hpc]; rfl), hp.refused⟩

/-- A key is deleted between two calls with its secret. -/
def again : List Action :=
  [.start 0 "a" "0:a" none, .resume 0 .ok, .resume 0 .ok, .start 1 "a" "1:a" none, .admin (.deleteKey 1),
    .resume 1 .ok, .resume 1 .ok]

theorem create_atomic_again :
    let lib := (KeyOp.Sample.service none).lib
    let out := outputs (step lib OllamaProxy.Sample.float) points (init .empty 0) again
    ∃ s, run (step lib OllamaProxy.Sample.float) (init .empty 0) again = some s ∧
      run (atomic OllamaProxy.Sample.float) .empty out = some s.table ∧
      ∀ p, out.countP (·.isOf p) ≤ 1 ∧
        ((s.creations p).pc = .answered 201 → ∃ n, .create p (s.creations p).call n true ∈ out) ∧
        ((s.creations p).pc = .answered 409 → ∃ n, .create p (s.creations p).call n false ∈ out) := by
  intro lib out
  let s := (run (step lib OllamaProxy.Sample.float) (init .empty 0) again).get (by decide +kernel)
  have hrun : run (step lib OllamaProxy.Sample.float) (init .empty 0) again = some s := (Option.some_get _).symm
  exact ⟨s, hrun, create_atomic hrun⟩

end

/-! ### One of them wins -/

def Entry.deletes : Entry → Bool
  | .admin (.deleteKey _) _ => true
  | _ => false

def Action.deletes : Action → Bool
  | .admin (.deleteKey _) => true
  | _ => false

/-- The entry is a call that has created its row, with this hash. -/
def Entry.Creates (keyHash : String) : Entry → Prop
  | .create _ c _ true => c.keyHash = keyHash
  | _ => False

section

variable {pyFloat : String → Option PyFloat} {t t' : KeyTable} {e : Entry} {l : List Entry} {keyHash : String}

theorem atomic_key (h : atomic pyFloat t e = some t') : ∃ op now,
    (e.deletes = false → ∀ id, op ≠ .deleteKey id) ∧ ∀ id, KeyStep (some op) now t id (t.get? id) (t'.get? id) := by
  cases e with
  | create p c now accepted =>
    simp only [atomic] at h
    split_ifs at h with hsame
    cases h
    exact ⟨.createKey c.keyHash c.keyPrefix c.keyEncrypted c.label, now, fun _ _ => nofun,
      AdminOp.apply_key (.createKey c.keyHash c.keyPrefix c.keyEncrypted c.label) pyFloat now t⟩
  | admin op now =>
    cases h
    refine ⟨op, now, fun hkeeps id hop => ?_, op.apply_key pyFloat now t⟩
    rw [hop] at hkeeps
    cases hkeeps

theorem registered_stays (h : atomic pyFloat t e = some t') (hdel : e.deletes = false)
    (hreg : Registered t keyHash) : Registered t' keyHash := by
  obtain ⟨op, now, hop, hkey⟩ := atomic_key h
  obtain ⟨id, row, hrow, rfl⟩ := hreg
  have hstep := hkey id
  rw [hrow] at hstep
  obtain ⟨row', hrow', hsame⟩ := hstep.stays fun he => hop hdel id (Option.some.inj he)
  exact ⟨id, row', hrow', hsame.keyHash⟩

/-- A call creates its row where its hash is new, and then the hash is there. -/
theorem atomic_creates (h : atomic pyFloat t e = some t') (he : e.Creates keyHash) :
    ¬ Registered t keyHash ∧ Registered t' keyHash := by
  cases e with
  | create p c now accepted =>
    cases accepted with
    | false => exact he.elim
    | true =>
      cases he
      simp only [atomic] at h
      split_ifs at h with hsome
      obtain ⟨u, hu⟩ := Option.isSome_iff_exists.mp hsome
      rw [hu, Option.getD_some] at h
      cases h
      obtain ⟨hnew, rfl⟩ := createKey_eq_some_iff.mp hu
      exact ⟨hnew, t.nextId, _, by rw [Table.get?_insert, if_pos rfl], rfl⟩
  | admin op now => exact he.elim

theorem not_creates_of_registered (hdel : ∀ e ∈ l, e.deletes = false) (hreg : Registered t keyHash)
    (h : run (atomic pyFloat) t l = some t') : ∀ e ∈ l, ¬ e.Creates keyHash := by
  induction l generalizing t with
  | nil =>
    intro e he
    cases he
  | cons e l ih =>
    obtain ⟨t1, h1, h2⟩ := run_cons_iff.mp h
    obtain ⟨he, hl⟩ := List.forall_mem_cons.mp hdel
    exact List.forall_mem_cons.mpr
      ⟨fun hc => (atomic_creates h1 hc).1 hreg, ih hl (registered_stays h1 he hreg) h2⟩

/-- While no key is deleted, each hash is created once. -/
theorem creates_once (hdel : ∀ e ∈ l, e.deletes = false) (h : run (atomic pyFloat) t l = some t') :
    l.Pairwise fun e e' => ∀ keyHash, ¬ (e.Creates keyHash ∧ e'.Creates keyHash) := by
  induction l generalizing t with
  | nil => exact .nil
  | cons e l ih =>
    obtain ⟨t1, h1, h2⟩ := run_cons_iff.mp h
    obtain ⟨he, hl⟩ := List.forall_mem_cons.mp hdel
    refine .cons (fun e' he' keyHash hc => ?_) (ih hl h2)
    exact not_creates_of_registered hl (atomic_creates h1 hc.1).2 h2 e' he' hc.2

variable {lib : Library} {s : State} {now : ℤ} {p q : ℕ} {as : List Action}

theorem points_deletes (hdel : ∀ a ∈ as, a.deletes = false) (he : e ∈ outputs (step lib pyFloat) points s as) :
    e.deletes = false := by
  obtain ⟨s', a, ha, hmem⟩ := exists_of_mem_outputs he
  have hkeeps := hdel a ha
  cases a with
  | start p rawKey keyEncrypted label => cases hmem
  | resume p ev =>
    simp only [points, point] at hmem
    split at hmem
    · split_ifs at hmem
      · cases List.mem_singleton.mp hmem
        rfl
      · cases hmem
    · cases List.mem_singleton.mp hmem
      rfl
    · cases List.mem_singleton.mp hmem
      rfl
    · cases hmem
  | admin op =>
    cases List.mem_singleton.mp hmem
    cases op <;> first | rfl | cases hkeeps
  | tick d => cases hmem

/-- **Of the calls with one secret at most one is answered 201**, while no key is
deleted. -/
theorem one_winner (h : run (step lib pyFloat) (init t now) as = some s) (hdel : ∀ a ∈ as, a.deletes = false)
    (hne : p ≠ q) (hsame : (s.creations p).call.keyHash = (s.creations q).call.keyHash)
    (hp : (s.creations p).pc = .answered 201) : (s.creations q).pc ≠ .answered 201 := by
  intro hq
  obtain ⟨n, hn⟩ := (run_answers h p).accepted (by rw [hp]; rfl)
  obtain ⟨m, hm⟩ := (run_answers h q).accepted (by rw [hq]; rfl)
  obtain ⟨t', ht', -⟩ := run_follows_atomic h
  have honce := creates_once (fun e he => points_deletes hdel he) ht'
  have hsymm : Std.Symm fun e e' : Entry => ∀ keyHash, ¬ (e.Creates keyHash ∧ e'.Creates keyHash) :=
    ⟨fun _ _ hno keyHash hc => hno keyHash hc.symm⟩
  have hdiff : Entry.create p (s.creations p).call n true ≠ .create q (s.creations q).call m true := by
    intro he
    cases he
    exact hne rfl
  exact honce.forall hn hm hdiff (s.creations q).call.keyHash ⟨hsame, rfl⟩

/-- Two calls with one secret look for it before either creates it. -/
def race : List Action :=
  [.start 0 "a" "0:a" none, .start 1 "a" "1:a" none, .resume 0 .ok, .resume 1 .ok, .resume 1 .ok, .resume 0 .ok,
    .resume 1 .ok]

theorem one_winner_race :
    ∃ s, run (step (KeyOp.Sample.service none).lib OllamaProxy.Sample.float) (init .empty 0) race = some s ∧
      (s.creations 0).pc = .answered 409 ∧ (s.creations 0).pc ≠ .answered 201 := by
  let s := (run (step (KeyOp.Sample.service none).lib OllamaProxy.Sample.float) (init .empty 0) race).get
    (by decide +kernel)
  have hrun : run (step (KeyOp.Sample.service none).lib OllamaProxy.Sample.float) (init .empty 0) race = some s :=
    (Option.some_get _).symm
  have hdel : ∀ a ∈ race, a.deletes = false := by simp [race, Action.deletes]
  have hne : 1 ≠ 0 := by decide
  exact ⟨s, hrun, by decide +kernel, one_winner hrun hdel hne (by decide +kernel) (by decide +kernel)⟩

end

end Registration

end OllamaProxy
