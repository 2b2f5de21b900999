/-
# What a step does to a row

`RowStep` lists what a step that is no admin operation can do to the row of one
key: nothing, its reactivation, or the commit of a recorder by the request that
holds the key. `AdminRow` lists what an admin operation can do to it. From
them: what the status of the row can become, and the invariants of the runs
without admin operations (`World.Unattended`).

Key definitions: `Recorder.Leaves`, `RowStep`, `AdminRow`, `World.Unattended`.
Key theorems: `step_row`, `AdminOp.apply_row`, `write_status_iff`,
`Unattended.step`.
-/
import OllamaProxy.Reservations

namespace OllamaProxy

open Kit

/-! ### The writes -/

namespace Recorder

theorem commit_eq_some_iff {rec : Recorder} {id : ℕ} {copy : ApiKey} {t t' : KeyTable} :
    rec.commit id copy t = some t' ↔
      rec.fits copy = true ∧ (rec.flushes = true → (t.get? id).isSome = true) ∧
        t' = t.modify id (rec.write copy) := by
  unfold commit
  cases rec.fits copy <;> cases rec.flushes <;> cases t.get? id <;> simp [eq_comm]

theorem commit_eq_some {rec : Recorder} {id : ℕ} {copy row : ApiKey} {t : KeyTable} (hfits : rec.fits copy = true)
    (hrow : t.get? id = some row) : rec.commit id copy t = some (t.modify id (rec.write copy)) :=
  commit_eq_some_iff.mpr ⟨hfits, fun _ => by rw [hrow]; rfl, rfl⟩

theorem commit_eq_none (rec : Recorder) {copy : ApiKey} (h : rec.fits copy = false) (id : ℕ) (t : KeyTable) :
    rec.commit id copy t = none := by
  unfold commit
  rw [h]
  rfl

theorem commit_get? {rec : Recorder} {id : ℕ} {copy : ApiKey} {t t' : KeyTable}
    (h : rec.commit id copy t = some t') (i : ℕ) :
    t'.get? i = if i = id then (t.get? i).map (rec.write copy) else t.get? i := by
  rw [(commit_eq_some_iff.mp h).2.2, Table.get?_modify]

theorem write_keyEncrypted (rec : Recorder) (copy db : ApiKey) :
    (rec.write copy db).keyEncrypted = db.keyEncrypted := by
  cases rec <;> rfl

/-- Writing the outcome with the copy `copy` leaves a row of status `s` at it. -/
def Leaves (rec : Recorder) (copy : ApiKey) (s : ApiKeyStatus) : Prop :=
  match rec with
  | .update v => v.status = none ∨ v.status = some s ∨ v.status = some copy.status
  | .usage _ => s = .active

instance (rec : Recorder) (copy : ApiKey) (s : ApiKeyStatus) : Decidable (rec.Leaves copy s) :=
  match rec with
  | .update v =>
    inferInstanceAs (Decidable (v.status = none ∨ v.status = some s ∨ v.status = some copy.status))
  | .usage _ => inferInstanceAs (Decidable (s = .active))

theorem write_status_iff (rec : Recorder) (copy db : ApiKey) :
    (rec.write copy db).status = db.status ↔ rec.Leaves copy db.status := by
  cases rec with
  | usage u => exact eq_comm
  | update v =>
    cases hv : v.status with
    | none => simp [write, KeyValues.write, Leaves, hv]
    | some s =>
      simp only [write, KeyValues.write, Leaves, hv, Option.elim_some, netChange, reduceCtorEq,
        Option.some.injEq, false_or]
      by_cases hs : s = copy.status <;> simp [hs]

end Recorder

/-- A step that is no admin operation, on the row of one key. -/
inductive RowStep (w : World) (a : Action) (id : ℕ) : Option ApiKey → Prop
  | keeps : RowStep w a id (w.table.get? id)
  | reactivates (p : ℕ) (updateNow : ℤ) (row : ApiKey) (hturn : a.isTurnOf p = true)
    (hpc : (w.requests p).pc = .reactivate updateNow) (hrow : w.table.get? id = some row)
    (hcool : row.cooledDown updateNow = true) :
    RowStep w a id (some { row with status := .active, cooldownUntil := none, updatedAt := updateNow })
  | commits (p : ℕ) (rec : Recorder) (ret : Return) (copy : Copy) (row : ApiKey)
    (hturn : a.isTurnOf p = true) (hpc : (w.requests p).pc = .commit rec ret) (hkey : (w.requests p).key = some copy)
    (hid : copy.id = id) (hrow : w.table.get? id = some row) :
    RowStep w a id (some (rec.write copy.row row))

namespace World

variable {rot : Rotation} {w w' : World} {a : Action}

/-- Reactivation, on one row. -/
theorem row_reactivateLocked {p : ℕ} {updateNow : ℤ} (hturn : a.isTurnOf p = true)
    (hpc : (w.requests p).pc = .reactivate updateNow) (id : ℕ) :
    RowStep w a id ((reactivateLocked w.table updateNow).get? id) := by
  unfold reactivateLocked
  rw [Table.get?_mapRows]
  obtain hrow | ⟨row, hrow⟩ := Option.eq_none_or_eq_some (w.table.get? id)
  · rw [hrow, Option.map_none, ← hrow]
    exact .keeps
  · rw [hrow, Option.map_some]
    by_cases hcool : row.cooledDown updateNow = true
    · rw [if_pos hcool]
      exact .reactivates p updateNow row hturn hpc hrow hcool
    · rw [if_neg hcool, ← hrow]
      exact .keeps

/-- A recorder's commit, on one row. -/
theorem row_commit {p : ℕ} {rec : Recorder} {ret : Return} {copy : Copy} {t : KeyTable}
    (hturn : a.isTurnOf p = true) (hpc : (w.requests p).pc = .commit rec ret) (hkey : (w.requests p).key = some copy)
    (hc : rec.commit copy.id copy.row w.table = some t) (id : ℕ) : RowStep w a id (t.get? id) := by
  rw [Recorder.commit_get? hc]
  split_ifs with hid
  · obtain hrow | ⟨row, hrow⟩ := Option.eq_none_or_eq_some (w.table.get? id)
    · rw [hrow, Option.map_none, ← hrow]
      exact .keeps
    · rw [hrow, Option.map_some]
      exact .commits p rec ret copy row hturn hpc hkey hid.symm hrow
  · exact .keeps

theorem step_row (hw : w.Sound) (h : w.step rot a = some w') (ha : a.isAdmin = false) (id : ℕ) :
    RowStep w a id (w'.table.get? id) := by
  cases a with
  | start p kind =>
    obtain ⟨-, rfl⟩ := step_start h
    exact .keeps
  | resume p ev =>
    obtain ⟨x', hm, rfl⟩ := step_resume hw h
    have hturn : (Action.resume p ev).isTurnOf p = true := by simp [Action.isTurnOf]
    rw [put_table]
    cases hm.writes with
    | nothing ht => rw [ht]; exact .keeps
    | reactivation updateNow hpc ht => rw [ht]; exact row_reactivateLocked hturn hpc id
    | commit rec ret copy hpc hkey ht => exact row_commit hturn hpc hkey ht id
  | admin op => cases ha
  | tick d => cases h; exact .keeps

/-- Away from commits on the key, a disabled row stays as it is. -/
theorem disabled_of_no_commit {id : ℕ} (hw : w.Sound) (h : w.step rot a = some w') (ha : a.isAdmin = false)
    (hno : ∀ p rec ret copy, a.isTurnOf p = true → (w.requests p).pc = .commit rec ret →
      (w.requests p).key = some copy → copy.id ≠ id)
    (hd : HasStatus w.table id .disabled) : HasStatus w'.table id .disabled := by
  have hrow := step_row hw h ha id
  generalize hrow' : w'.table.get? id = row' at hrow
  cases hrow with
  | keeps =>
    unfold HasStatus
    rw [hrow']
    exact hd
  | reactivates p updateNow row hturn hpc hrow hcool =>
    have hdepleted := hasStatus_iff.mpr ⟨row, hrow, ApiKey.depleted_of_cooledDown hcool⟩
    cases hdepleted.unique hd
  | commits p rec ret copy row hturn hpc hkey hid hrow =>
    exact absurd hid (hno p rec ret copy hturn hpc hkey)

end World

/-! ### Admin operations -/

/-- The operation does nothing to the row of key `id`, as far as it can be told
without the table's other rows. -/
def AdminOp.Misses (pyFloat : String → Option PyFloat) (now : ℤ) (t : KeyTable) (id : ℕ) : AdminOp → Prop
  | .createKey _ _ _ _ => True
  | .updateKey i _ _ _ | .deleteKey i => i = id → t.get? id = none
  | .resetKeyStates => False
  | .probe i _ code headers => i = id → classify pyFloat now code headers = none ∨ t.get? id = none

/-- What the admin operation `op` makes of the row of one key. -/
inductive AdminRow (pyFloat : String → Option PyFloat) (now : ℤ) (t : KeyTable) (id : ℕ) :
    AdminOp → Option ApiKey → Prop
  | keeps (op : AdminOp) (hop : op.Misses pyFloat now t id) : AdminRow pyFloat now t id op (t.get? id)
  | creates (keyHash keyPrefix keyEncrypted : String) (label : Option String) (hid : id = t.nextId) :
    AdminRow pyFloat now t id (.createKey keyHash keyPrefix keyEncrypted label)
      (some (.new keyHash keyPrefix keyEncrypted label now))
  | updates (seen row : ApiKey) (label : Option String) (status : Option ApiKeyStatus)
    (hrow : t.get? id = some row) :
    AdminRow pyFloat now t id (.updateKey id seen label status) (some { row with
      label := label.elim row.label fun l => netChange seen.label (some l) row.label
      status := status.elim row.status fun s => netChange seen.status s row.status
      updatedAt := now })
  | deletes : AdminRow pyFloat now t id (.deleteKey id) none
  | resets : AdminRow pyFloat now t id .resetKeyStates ((t.get? id).map fun row =>
      { row with
        status := .active
        cooldownUntil := none
        lastStatusCode := none
        totalFailures := 0
        updatedAt := now })
  | records (seen row : ApiKey) (code : ℕ) (headers : Headers) (v : KeyValues)
    (hv : classify pyFloat now code headers = some v) (hrow : t.get? id = some row) :
    AdminRow pyFloat now t id (.probe id seen code headers) (some (v.write seen row))

theorem createKey_get? {t t' : KeyTable} {keyHash keyPrefix keyEncrypted : String} {label : Option String} {now : ℤ}
    (h : createKey t keyHash keyPrefix keyEncrypted label now = some t') :
    t'.get? t.nextId = some (.new keyHash keyPrefix keyEncrypted label now) := by
  simp only [createKey] at h
  split_ifs at h
  cases h
  rw [Table.get?_insert, if_pos rfl]

theorem AdminOp.apply_row (op : AdminOp) (pyFloat : String → Option PyFloat) (now : ℤ) (t : KeyTable)
    (id : ℕ) : AdminRow pyFloat now t id op ((op.apply pyFloat now t).get? id) := by
  cases op with
  | createKey keyHash keyPrefix keyEncrypted label =>
    simp only [apply, OllamaProxy.createKey]
    split_ifs
    · exact .keeps _ trivial
    · rw [Option.getD_some, Table.get?_insert]
      split_ifs with hid
      · exact .creates _ _ _ _ hid
      · exact .keeps _ trivial
  | updateKey i seen label status =>
    simp only [apply, OllamaProxy.updateKey]
    cases hi : t.get? i with
    | none => exact .keeps _ fun hid => hid ▸ hi
    | some row =>
      rw [Option.map_some, Option.getD_some, Table.get?_modify]
      split_ifs with hid
      · subst hid
        rw [hi]
        exact .updates seen row label status hi
      · exact .keeps _ fun he => absurd he.symm hid
  | deleteKey i =>
    simp only [apply, OllamaProxy.deleteKey]
    cases hi : t.get? i with
    | none => exact .keeps _ fun hid => hid ▸ hi
    | some row =>
      rw [Option.map_some, Option.getD_some, Table.get?_erase]
      split_ifs with hid
      · rw [hid]
        exact .deletes
      · exact .keeps _ fun he => absurd he.symm hid
  | resetKeyStates =>
    simp only [apply, OllamaProxy.resetKeyStates, Table.get?_mapRows]
    exact .resets
  | probe i seen code headers =>
    simp only [apply]
    cases hv : classify pyFloat now code headers with
    | none => exact .keeps _ fun _ => Or.inl hv
    | some v =>
      rw [Option.bind_some]
      cases hc : (Recorder.update v).commit i seen t with
      | none =>
        refine .keeps _ fun hid => Or.inr ?_
        rw [← hid, ← Option.not_isSome_iff_eq_none]
        intro hrow
        cases hc.symm.trans (Recorder.commit_eq_some_iff.mpr ⟨rfl, fun _ => hrow, rfl⟩)
      | some t' =>
        rw [Option.getD_some, Recorder.commit_get? hc]
        split_ifs with hid
        · subst hid
          obtain ⟨-, hflush, -⟩ := Recorder.commit_eq_some_iff.mp hc
          obtain ⟨row, hrow⟩ := Option.isSome_iff_exists.mp (hflush rfl)
          rw [hrow]
          exact .records seen row code headers v hv hrow
        · exact .keeps _ fun he => absurd he.symm hid

/-- A row that an operation leaves under its id holds the secret it did, or is
new there. -/
theorem AdminOp.apply_secret (op : AdminOp) (pyFloat : String → Option PyFloat) (now : ℤ) (t : KeyTable) {id : ℕ}
    {row' : ApiKey} (hrow' : (op.apply pyFloat now t).get? id = some row') :
    (∃ row, t.get? id = some row ∧ row.keyEncrypted = row'.keyEncrypted) ∨
      ∃ keyHash keyPrefix label, op = .createKey keyHash keyPrefix row'.keyEncrypted label ∧ id = t.nextId ∧
        (OllamaProxy.createKey t keyHash keyPrefix row'.keyEncrypted label now).isSome = true := by
  have hop := op.apply_row pyFloat now t id
  rw [hrow'] at hop
  generalize hr : some row' = r at hop
  cases hop with
  | keeps _ hmisses => exact Or.inl ⟨row', hr.symm, rfl⟩
  | creates keyHash keyPrefix keyEncrypted label hid =>
    cases hr
    refine Or.inr ⟨keyHash, keyPrefix, label, rfl, hid, ?_⟩
    by_contra hrefused
    have hnone : OllamaProxy.createKey t keyHash keyPrefix keyEncrypted label now = none :=
      Option.not_isSome_iff_eq_none.mp hrefused
    have htable : t.get? id = some (.new keyHash keyPrefix keyEncrypted label now) := by
      simpa [AdminOp.apply, hnone] using hrow'
    rw [hid, Table.get?_nextId] at htable
    cases htable
  | updates seen row label status hrow =>
    cases hr
    exact Or.inl ⟨row, hrow, rfl⟩
  | deletes => cases hr
  | resets =>
    obtain ⟨row, hrow, rfl⟩ := Option.map_eq_some_iff.mp hr.symm
    exact Or.inl ⟨row, hrow, rfl⟩
  | records seen row code headers v hv hrow =>
    cases hr
    exact Or.inl ⟨row, hrow, ((Recorder.update v).write_keyEncrypted seen row).symm⟩

/-! ### Runs without admin operations -/

namespace Pc

/-- At the upstream call, or with its outcome not yet written. -/
def usesKey : Pc → Bool
  | .upstream _ | .commit _ _ => true
  | _ => false

theorem holdsKey_of_usesKey {pc : Pc} (h : pc.usesKey = true) : pc.holdsKey = true := by
  cases pc <;> first | rfl | cases h

end Pc

theorem Request.noKey_key (q : Request) (now : ℤ) : (q.noKey now).key = none := by
  obtain ⟨pc, h, -⟩ := q.noKey_eq now
  rw [h]

namespace Turn

variable {rot : Rotation} {now : ℤ} {p : ℕ} {x x' : Turn} {ev : Event}

/-- A key comes into use by a selection, which finds it active. -/
theorem Move.usesKey (h : Move rot now p x ev x') (hpc : x'.request.pc.usesKey = true) {copy : Copy}
    (hkey : x'.request.key = some copy) : x'.table = x.table ∧
      ((x.request.pc.usesKey = true ∧ x.request.key = some copy) ∨
        HasStatus x.table copy.id .active) := by
  cases h.reaches with
  | calls rawKey copy' hpc' hkey' ht hact =>
    have hcopy : copy' = copy := Option.some.inj (hkey'.symm.trans hkey)
    rw [hcopy] at hact
    exact ⟨ht, Or.inr hact⟩
  | commits rawKey rec ret hold hpc' hkey' ht =>
    refine ⟨ht, Or.inl ⟨?_, ?_⟩⟩
    · rw [hold]
      rfl
    · rw [← hkey']
      exact hkey
  | rests hpc' => rcases hpc' with hc | ⟨answer, hc⟩ <;> rw [hc] at hpc <;> cases hpc
  | waits _ hpc' | loads hpc' | reactivates hpc' | reloads hpc' | refreshes _ hpc' =>
    rw [hpc'] at hpc
    cases hpc

/-- Where a copy comes from: the session had it, with this status and this
encrypted key, or it is the row itself. -/
def Derived (x : Turn) (t : KeyTable) (copy : Copy) : Prop :=
  (∃ old, x.request.key = some old ∧ old.expired = false ∧ old.id = copy.id ∧
    old.row.status = copy.row.status ∧ old.row.keyEncrypted = copy.row.keyEncrypted) ∨
  t.get? copy.id = some copy.row

theorem derived_copyOf {id : ℕ} {row : ApiKey} (hrow : x.table.get? id = some row) :
    x.Derived x.table (x.request.copyOf id row) := by
  unfold Request.copyOf
  split
  · rename_i old hkey
    split_ifs with hold
    · exact Or.inl ⟨old, hkey, hold.2, rfl, rfl, rfl⟩
    · exact Or.inr hrow
  · exact Or.inr hrow

theorem Move.derived (h : Move rot now p x ev x') {copy : Copy} (hkey : x'.request.key = some copy)
    (hexp : copy.expired = false) : x.Derived x'.table copy := by
  have hold : x.request.key = some copy → x.Derived x'.table copy :=
    fun hc => Or.inl ⟨copy, hc, hexp, rfl, rfl, rfl⟩
  cases h with
  | counted hpc =>
    rw [(Request.nextIteration_rests _).key] at hkey
    exact hold hkey
  | quit answer hpc hev ha => exact hold hkey
  | acquired hpc hlock => exact hold hkey
  | pick h =>
    cases h with
    | emptied hpc hempty => exact hold hkey
    | reactivated updateNow hpc => exact hold hkey
    | left answer t hpc hev ht ha => exact hold hkey
    | missed hpc hall => rw [Request.noKey_key] at hkey; cases hkey
    | skipped id row m hpc hchoose hvault =>
      cases (Request.returned_rests _ _).key.symm.trans hkey
      exact derived_copyOf (mem_loadActive.mp (choose_mem hchoose)).1
    | attempted id row m rawKey hpc hchoose hvault =>
      cases hkey
      exact derived_copyOf (mem_loadActive.mp (choose_mem hchoose)).1
  | slept deadline hpc => exact hold hkey
  | woke deadline hpc =>
    rw [(Request.nextIteration_rests _).key] at hkey
    exact hold hkey
  | answer rawKey copy' hpc hkey' h =>
    cases h with
    | answered u rec ret hd => exact hold hkey
    | unrecorded u ret hd =>
      rw [(Request.returned_rests _ _).key] at hkey
      exact hold hkey
    | unread u e hd => exact hold hkey
    | hungUp written expired => exact hold hkey
  | record copy' hpc hkey' h =>
    cases h with
    | recorded v ret t hpc hcommit => exact hold hkey
    | recordedUsage u ret t hpc hcommit =>
      cases (Request.returned_rests _ _).key.symm.trans hkey
      exact Or.inl ⟨copy', hkey', hexp, rfl, (u.touch_status copy'.row).symm,
        (u.touch_keyEncrypted copy'.row).symm⟩
    | refreshed ret row hpc hrow =>
      cases (Request.returned_rests _ _).key.symm.trans hkey
      exact Or.inr hrow
    | cancelled written rec ret t hpc ht => exact hold hkey
    | leaked t hev ht =>
      simp only [Request.stop, Request.expire, hkey', Option.map_some, Option.some.injEq] at hkey
      subst hkey
      cases hexp

/-- A request goes to a reactivation from an empty list, and dates it. -/
theorem Move.of_reactivate (h : Move rot now p x ev x') {updateNow : ℤ}
    (hpc : x'.request.pc = .reactivate updateNow) :
    updateNow = now ∧ x'.table = x.table ∧ loadActive x.table = [] := by
  cases h.reaches with
  | reactivates hpc' ht hempty =>
    rw [hpc'] at hpc
    exact ⟨(Pc.reactivate.inj hpc).symm, ht, hempty⟩
  | rests hpc' => rcases hpc' with hc | ⟨answer, hc⟩ <;> rw [hc] at hpc <;> cases hpc
  | waits _ hpc' | loads hpc' | reloads hpc' | calls _ _ hpc' | commits _ _ _ _ hpc'
  | refreshes _ hpc' =>
    rw [hpc'] at hpc
    cases hpc

end Turn

namespace World

variable {rot : Rotation} {w w' : World} {a : Action} {id : ℕ}

/-- Two requests never use one key. -/
theorem user_unique (hs : w.Sound) (he : w.ledger.Exclusive) {p q : ℕ} {c d : Copy}
    (hp : (w.requests p).pc.usesKey = true) (hpk : (w.requests p).key = some c)
    (hq : (w.requests q).pc.usesKey = true) (hqk : (w.requests q).key = some d)
    (hid : c.id = d.id) : p = q := by
  have hrp := (hs p).reserved_eq (Pc.holdsKey_of_usesKey hp) hpk
  have hrq := (hs q).reserved_eq (Pc.holdsKey_of_usesKey hq) hqk
  exact he.unique p q c.id hrp (by rw [hid]; exact hrq)

/-- What holds along a run without admin operations. -/
structure Unattended (w : World) : Prop where
  sound : w.Sound
  exclusive : w.ledger.Exclusive
  active : ∀ p copy, (w.requests p).pc.usesKey = true → (w.requests p).key = some copy →
    HasStatus w.table copy.id .active
  past : ∀ p updateNow, (w.requests p).pc = .reactivate updateNow → updateNow ≤ w.now
  disabled : ∀ p copy, (w.requests p).key = some copy → copy.expired = false →
    copy.row.status = .disabled → HasStatus w.table copy.id .disabled

theorem Unattended.holder_unique (hw : w.Unattended) {p q : ℕ} {c d : Copy}
    (hp : (w.requests p).pc.usesKey = true) (hpk : (w.requests p).key = some c)
    (hq : (w.requests q).pc.usesKey = true) (hqk : (w.requests q).key = some d)
    (hid : c.id = d.id) : p = q :=
  user_unique hw.sound hw.exclusive hp hpk hq hqk hid

/-- Without admin operations, a key that is not active is written by nobody. -/
theorem Unattended.row_of_not_active (hw : w.Unattended) {row' : Option ApiKey}
    (hrow : RowStep w a id row') (hna : ¬ HasStatus w.table id .active) :
    row' = w.table.get? id ∨ ∃ p updateNow row, (w.requests p).pc = .reactivate updateNow ∧
      w.table.get? id = some row ∧ row.cooledDown updateNow = true ∧
      row' = some { row with status := .active, cooldownUntil := none, updatedAt := updateNow } := by
  cases hrow with
  | keeps => exact Or.inl rfl
  | reactivates p updateNow row hturn hpc hrow hcool =>
    exact Or.inr ⟨p, updateNow, row, hpc, hrow, hcool, rfl⟩
  | commits p rec ret copy row hturn hpc hkey hid hrow =>
    have hactive := hw.active p copy (by rw [hpc]; rfl) hkey
    rw [hid] at hactive
    exact absurd hactive hna

/-- A disabled key stays disabled. -/
theorem Unattended.disabled_stays (hw : w.Unattended) (h : w.step rot a = some w')
    (ha : a.isAdmin = false) (hd : HasStatus w.table id .disabled) :
    HasStatus w'.table id .disabled := by
  refine disabled_of_no_commit hw.sound h ha (fun p rec ret copy _ hpc hkey hid => ?_) hd
  have hact := hw.active p copy (by rw [hpc]; rfl) hkey
  rw [hid] at hact
  cases hact.unique hd

/-- The key that a request uses stays active while others run. -/
theorem Unattended.active_stays (hw : w.Unattended) (h : w.step rot a = some w')
    (ha : a.isAdmin = false) {p : ℕ} {copy : Copy} (hpc : (w.requests p).pc.usesKey = true)
    (hkey : (w.requests p).key = some copy) (hother : a.isTurnOf p = false) :
    HasStatus w'.table copy.id .active := by
  have hact := hw.active p copy hpc hkey
  obtain ⟨row, hrow, hs⟩ := hasStatus_iff.mp hact
  have hstep := step_row hw.sound h ha copy.id
  generalize hrow' : w'.table.get? copy.id = row' at hstep
  cases hstep with
  | keeps =>
    unfold HasStatus
    rw [hrow']
    exact hact
  | reactivates q updateNow r hturn hq hr hcool => exact hasStatus_iff.mpr ⟨_, hrow', rfl⟩
  | commits q rec ret c r hturn hq hqk hid hr =>
    have hqp := hw.holder_unique (by rw [hq]; rfl) hqk hpc hkey hid
    rw [hqp, hother] at hturn
    cases hturn

theorem Unattended.step (hw : w.Unattended) (h : w.step rot a = some w') (ha : a.isAdmin = false) :
    w'.Unattended := by
  have hstays : ∀ id, HasStatus w.table id .disabled → HasStatus w'.table id .disabled :=
    fun _ => hw.disabled_stays h ha
  refine ⟨step_sound hw.sound h, hw.exclusive.step (step_ledger hw.sound h), ?_, ?_, ?_⟩ <;> intro r
  · intro copy hpc hkey
    cases step_request hw.sound h r with
    | keeps hturn hreq =>
      rw [hreq] at hpc hkey
      exact hw.active_stays h ha hpc hkey hturn
    | starts kind hturn hidle htable hreq =>
      rw [hreq] at hpc
      cases kind <;> cases hpc
    | turns ev x' ha' hw' hm =>
      rw [hw', put_requests_self] at hpc hkey
      rw [hw', put_table]
      obtain ⟨htable, ⟨hold, hkey'⟩ | hact⟩ := hm.usesKey hpc hkey
      · rw [htable]
        exact hw.active r copy hold hkey'
      · rw [htable]
        exact hact
  · intro updateNow hpc
    have hnow := step_now_le h
    cases step_request hw.sound h r with
    | keeps hturn hreq =>
      rw [hreq] at hpc
      exact (hw.past r updateNow hpc).trans hnow
    | starts kind hturn hidle htable hreq =>
      rw [hreq] at hpc
      cases kind <;> cases hpc
    | turns ev x' ha' hw' hm =>
      rw [hw', put_requests_self] at hpc
      rw [(hm.of_reactivate hpc).1]
      exact hnow
  · intro copy hkey hexp hs
    cases step_request hw.sound h r with
    | keeps hturn hreq =>
      rw [hreq] at hkey
      exact hstays _ (hw.disabled r copy hkey hexp hs)
    | starts kind hturn hidle htable hreq =>
      rw [hreq] at hkey
      cases kind <;> cases hkey
    | turns ev x' ha' hw' hm =>
      have hkey' := hkey
      rw [hw', put_requests_self] at hkey'
      rcases hm.derived hkey' hexp with ⟨old, hold, hoexp, hoid, hos, -⟩ | hrow
      · rw [← hoid]
        exact hstays _ (hw.disabled r old hold hoexp (hos.trans hs))
      · rw [hw', put_table]
        exact hasStatus_iff.mpr ⟨_, hrow, hs⟩

theorem init_unattended (t : KeyTable) (now : ℤ) : (init t now).Unattended where
  sound := init_sound t now
  exclusive := init_exclusive t now
  active _ _ h := by cases h
  past _ _ h := by cases h
  disabled _ _ h := by cases h

end World

end OllamaProxy
