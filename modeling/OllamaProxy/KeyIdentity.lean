/-
# Which secret a row holds

`key_hash`, `key_prefix` and `key_encrypted` are written when a key is created
and by nothing else (`step_key`). `key_hash` is unique, and belongs to the
secret that the row decrypts to. So two rows hold two secrets, and as long as no
key is deleted that a request still has a copy of, two requests never call
upstream with one secret (`secrets_apart`).

Key definitions: `ApiKey.SameKey`, `KeyStep`, `Authentic`, `World.Orderly`.
Key theorems: `AdminOp.apply_key`, `step_key`, `step_authentic`,
`secrets_apart`.
-/
import OllamaProxy.Attribution
import OllamaProxy.DashboardBackend

namespace OllamaProxy

open Kit

/-- The columns that say whose key it is. -/
structure ApiKey.SameKey (row row' : ApiKey) : Prop where
  keyHash : row'.keyHash = row.keyHash
  keyPrefix : row'.keyPrefix = row.keyPrefix
  keyEncrypted : row'.keyEncrypted = row.keyEncrypted
  createdAt : row'.createdAt = row.createdAt

/-- Some row has the hash. -/
def Registered (t : KeyTable) (keyHash : String) : Prop := ∃ id row, t.get? id = some row ∧ row.keyHash = keyHash

/-- The unique index on `key_hash`. -/
def Distinct (t : KeyTable) : Prop :=
  ∀ i j row row', t.get? i = some row → t.get? j = some row' → row.keyHash = row'.keyHash → i = j

/-- What becomes of the row of one key. -/
inductive KeyStep (op : Option AdminOp) (now : ℤ) (t : KeyTable) (id : ℕ) : Option ApiKey → Option ApiKey → Prop
  | absent : KeyStep op now t id none none
  | keeps (row row' : ApiKey) (h : row.SameKey row') : KeyStep op now t id (some row) (some row')
  | creates (keyHash keyPrefix keyEncrypted : String) (label : Option String)
    (hop : op = some (.createKey keyHash keyPrefix keyEncrypted label)) (hid : id = t.nextId)
    (hnew : ¬ Registered t keyHash) :
    KeyStep op now t id none (some (.new keyHash keyPrefix keyEncrypted label now))
  | deletes (row : ApiKey) (hop : op = some (.deleteKey id)) : KeyStep op now t id (some row) none

section

variable {t t' : KeyTable} {now : ℤ} {id : ℕ} {row row' : ApiKey} {op : Option AdminOp}

theorem ApiKey.SameKey.refl (row : ApiKey) : row.SameKey row := ⟨rfl, rfl, rfl, rfl⟩

theorem KeyStep.refl (op : Option AdminOp) (now : ℤ) (t : KeyTable) (id : ℕ) (r : Option ApiKey) :
    KeyStep op now t id r r := by
  cases r with
  | none => exact .absent
  | some row => exact .keeps row row (.refl row)

theorem KeyValues.write_sameKey (v : KeyValues) (copy db : ApiKey) : db.SameKey (v.write copy db) :=
  ⟨rfl, rfl, rfl, rfl⟩

theorem Recorder.write_sameKey (rec : Recorder) (copy db : ApiKey) : db.SameKey (rec.write copy db) := by
  cases rec with
  | update v => exact v.write_sameKey copy db
  | usage u => exact ⟨rfl, rfl, rfl, rfl⟩

theorem any_keyHash_iff {keyHash : String} :
    (t.rows.any fun r => r.2.keyHash = keyHash) = true ↔ Registered t keyHash := by
  simp only [List.any_eq_true, decide_eq_true_eq, Registered, Table.get?_eq_some_iff, Prod.exists]

/-- A key is created where no row has its hash. -/
theorem createKey_eq_some_iff {keyHash keyPrefix keyEncrypted : String} {label : Option String} :
    createKey t keyHash keyPrefix keyEncrypted label now = some t' ↔
      ¬ Registered t keyHash ∧ t.insert (.new keyHash keyPrefix keyEncrypted label now) = t' := by
  unfold createKey
  rw [← any_keyHash_iff]
  split_ifs with h <;> simp [h]

theorem AdminOp.apply_key (op : AdminOp) (pyFloat : String → Option PyFloat) (now : ℤ) (t : KeyTable) (id : ℕ) :
    KeyStep (some op) now t id (t.get? id) ((op.apply pyFloat now t).get? id) := by
  have hrow := op.apply_row pyFloat now t id
  generalize hr : (op.apply pyFloat now t).get? id = r at hrow ⊢
  cases hrow with
  | keeps _ hmisses => exact .refl _ _ _ _ _
  | creates keyHash keyPrefix keyEncrypted label hid =>
    have hnone : t.get? id = none := by rw [hid, Table.get?_nextId]
    rw [hnone]
    refine .creates _ _ _ _ rfl hid fun hreg => ?_
    -- A refused call leaves the table, which has no row under its next id.
    have hrefused : OllamaProxy.createKey t keyHash keyPrefix keyEncrypted label now = none := by
      rw [OllamaProxy.createKey, if_pos (any_keyHash_iff.mpr hreg)]
    rw [AdminOp.apply, hrefused, Option.getD_none, hnone] at hr
    cases hr
  | updates seen row label status hrow =>
    rw [hrow]
    exact .keeps _ _ ⟨rfl, rfl, rfl, rfl⟩
  | deletes =>
    cases hid : t.get? id with
    | none => exact .absent
    | some row => exact .deletes row rfl
  | resets =>
    cases hid : t.get? id with
    | none => exact .absent
    | some row => exact .keeps _ _ ⟨rfl, rfl, rfl, rfl⟩
  | records seen row code headers v hv hrow =>
    rw [hrow]
    exact .keeps _ _ (v.write_sameKey seen row)

end

namespace World

variable {rot : Rotation} {lib : Library} {w w' : World} {a : Action}

def adminOp? : Action → Option AdminOp
  | .admin op => some op
  | _ => none

/-- Requests leave the secrets as they are. -/
theorem step_key (hs : w.Sound) (h : w.step rot a = some w') (id : ℕ) :
    KeyStep (adminOp? a) w.now w.table id (w.table.get? id) (w'.table.get? id) := by
  cases hadmin : a.isAdmin with
  | true =>
    cases a with
    | admin op =>
      cases h
      exact op.apply_key rot.pyFloat w.now w.table id
    | _ => cases hadmin
  | false =>
    have hrow := step_row hs h hadmin id
    generalize w'.table.get? id = r at hrow ⊢
    cases hrow with
    | keeps => exact .refl _ _ _ _ _
    | reactivates p updateNow row hturn hpc hrow hcool =>
      rw [hrow]
      exact .keeps _ _ ⟨rfl, rfl, rfl, rfl⟩
    | commits p rec ret copy row hturn hpc hkey hid hrow =>
      rw [hrow]
      exact .keeps _ _ (rec.write_sameKey copy.row row)

end World

/-! ### Two rows, two secrets -/

/-- The hash and the prefix are those of the secret that the row holds. -/
def Genuine (rot : Rotation) (lib : Library) (keyHash keyPrefix keyEncrypted : String) : Prop :=
  ∃ rawKey, rot.vault keyEncrypted = some rawKey ∧ keyHash = lib.hashKey rawKey ∧ keyPrefix = keyPrefixOf rawKey

structure Authentic (rot : Rotation) (lib : Library) (t : KeyTable) : Prop where
  distinct : Distinct t
  genuine : ∀ id row, t.get? id = some row → Genuine rot lib row.keyHash row.keyPrefix row.keyEncrypted

section

variable {rot : Rotation} {lib : Library} {op : Option AdminOp} {now : ℤ} {t t' : KeyTable}

/-- Where the row of a key comes from. -/
theorem KeyStep.of_some {id : ℕ} {r : Option ApiKey} {row' : ApiKey} (h : KeyStep op now t id r (some row')) :
    (∃ row, r = some row ∧ row.SameKey row') ∨
      ∃ keyHash keyPrefix keyEncrypted label, op = some (.createKey keyHash keyPrefix keyEncrypted label) ∧
        id = t.nextId ∧ ¬ Registered t keyHash ∧ row' = .new keyHash keyPrefix keyEncrypted label now := by
  cases h with
  | keeps row _ hsame => exact Or.inl ⟨row, rfl, hsame⟩
  | creates keyHash keyPrefix keyEncrypted label hop hid hnew =>
    exact Or.inr ⟨keyHash, keyPrefix, keyEncrypted, label, hop, hid, hnew, rfl⟩

/-- A row that is not deleted stays. -/
theorem KeyStep.stays {id : ℕ} {row : ApiKey} {r : Option ApiKey} (h : KeyStep op now t id (some row) r)
    (hop : op ≠ some (.deleteKey id)) : ∃ row', r = some row' ∧ row.SameKey row' := by
  cases h with
  | keeps _ row' hsame => exact ⟨row', rfl, hsame⟩
  | deletes _ hdel => exact absurd hdel hop

theorem Distinct.step (ht : Distinct t) (h : ∀ id, KeyStep op now t id (t.get? id) (t'.get? id)) : Distinct t' := by
  intro i j row row' hi hj hhash
  have hstep := h i
  have hstep' := h j
  rw [hi] at hstep
  rw [hj] at hstep'
  rcases hstep.of_some with ⟨old, hold, hsame⟩ | ⟨keyHash, _, _, _, hop, hid, hnew, rfl⟩ <;>
    rcases hstep'.of_some with ⟨old', hold', hsame'⟩ | ⟨keyHash', _, _, _, hop', hid', hnew', rfl⟩
  · exact ht i j old old' hold hold' (by rw [← hsame.keyHash, ← hsame'.keyHash, hhash])
  · exact absurd ⟨i, old, hold, hsame.keyHash.symm.trans hhash⟩ hnew'
  · exact absurd ⟨j, old', hold', hsame'.keyHash.symm.trans hhash.symm⟩ hnew
  · exact hid.trans hid'.symm

theorem Authentic.step (ht : Authentic rot lib t) (h : ∀ id, KeyStep op now t id (t.get? id) (t'.get? id))
    (hop : ∀ keyHash keyPrefix keyEncrypted label, op = some (.createKey keyHash keyPrefix keyEncrypted label) →
      Genuine rot lib keyHash keyPrefix keyEncrypted) : Authentic rot lib t' := by
  refine ⟨ht.distinct.step h, fun id row' hrow' => ?_⟩
  have hstep := h id
  rw [hrow'] at hstep
  rcases hstep.of_some with ⟨row, hrow, hsame⟩ | ⟨keyHash, keyPrefix, keyEncrypted, label, hcreate, -, -, rfl⟩
  · rw [hsame.keyHash, hsame.keyPrefix, hsame.keyEncrypted]
    exact ht.genuine id row hrow
  · exact hop _ _ _ _ hcreate

end

/-! ### Two requests, two secrets -/

namespace World

variable {rot : Rotation} {lib : Library} {w w' : World} {a : Action} {p q : ℕ}

/-- A key is created with the hash and the prefix of its secret, and none is
deleted of which a request in progress has a copy. -/
def Orderly (rot : Rotation) (lib : Library) (w : World) : Action → Prop
  | .admin (.createKey keyHash keyPrefix keyEncrypted _) => Genuine rot lib keyHash keyPrefix keyEncrypted
  | .admin (.deleteKey id) =>
    ∀ p copy, (w.requests p).isRunning = true → (w.requests p).key = some copy → copy.id ≠ id
  | _ => True

/-- What an orderly run keeps: the copy that a request in progress has is one of
a row that is there. -/
structure Apart (rot : Rotation) (lib : Library) (w : World) : Prop where
  sound : w.Sound
  exclusive : w.ledger.Exclusive
  sends : w.Sends rot
  authentic : Authentic rot lib w.table
  copies : ∀ p copy, (w.requests p).isRunning = true → (w.requests p).key = some copy → copy.expired = false →
    ∃ row, w.table.get? copy.id = some row ∧ row.keyEncrypted = copy.row.keyEncrypted

theorem init_apart {t : KeyTable} (ht : Authentic rot lib t) (now : ℤ) : (init t now).Apart rot lib :=
  ⟨init_sound t now, init_exclusive t now, init_sends rot t now, ht, fun p copy hrun => by cases hrun⟩

/-- A copy that stays has its row still. -/
theorem copy_stays (hw : w.Apart rot lib) (h : w.step rot a = some w') (ha : Orderly rot lib w a) {copy : Copy}
    (hrun : (w.requests p).isRunning = true) (hkey : (w.requests p).key = some copy) (hexp : copy.expired = false) :
    ∃ row, w'.table.get? copy.id = some row ∧ row.keyEncrypted = copy.row.keyEncrypted := by
  obtain ⟨row, hrow, henc⟩ := hw.copies p copy hrun hkey hexp
  have hstep := step_key hw.sound h copy.id
  rw [hrow] at hstep
  have hop : adminOp? a ≠ some (.deleteKey copy.id) := by
    intro hdel
    cases a with
    | admin op =>
      cases hdel
      exact ha p copy hrun hkey rfl
    | _ => cases hdel
  obtain ⟨row', hrow', hsame⟩ := hstep.stays hop
  exact ⟨row', hrow', hsame.keyEncrypted.trans henc⟩

theorem step_apart (hw : w.Apart rot lib) (ha : Orderly rot lib w a) (h : w.step rot a = some w') :
    w'.Apart rot lib where
  sound := step_sound hw.sound h
  exclusive := hw.exclusive.step (step_ledger hw.sound h)
  sends := step_sends hw.sound hw.sends h
  authentic := hw.authentic.step (step_key hw.sound h) fun keyHash keyPrefix keyEncrypted label hcreate => by
    cases a with
    | admin op =>
      cases hcreate
      exact ha
    | _ => cases hcreate
  copies p copy hrun hkey hexp := by
    cases step_request hw.sound h p with
    | keeps hturn hreq =>
      rw [hreq] at hrun hkey
      exact copy_stays hw h ha hrun hkey hexp
    | starts kind hturn hpc htable hreq =>
      rw [hreq] at hkey
      cases kind <;> cases hkey
    | turns ev x' hact hw' hm =>
      have hkey' : x'.request.key = some copy := by
        rw [hw', put_requests_self] at hkey
        exact hkey
      rcases hm.derived hkey' hexp with ⟨old, hold, hexp', hid, -, henc⟩ | hrow
      · obtain ⟨row, hrow, henc'⟩ := copy_stays hw h ha hm.isRunning hold hexp'
        exact ⟨row, by rw [← hid]; exact hrow, henc'.trans henc⟩
      · exact ⟨copy.row, by rw [hw']; exact hrow, rfl⟩

/-- **Two requests never call upstream with one secret**, and the secret of a
call is the one of a row that is there. -/
theorem secrets_apart {t : KeyTable} {now : ℤ} {as : List Action} (ht : Authentic rot lib t)
    (horderly : Along (step rot) (Orderly rot lib) (init t now) as)
    (hrun : run (step rot) (init t now) as = some w) {rawKey : String} (hp : (w.requests p).pc = .upstream rawKey) :
    (∃ id row, w.table.get? id = some row ∧ rot.vault row.keyEncrypted = some rawKey ∧
      row.keyHash = lib.hashKey rawKey) ∧
      ∀ q, (w.requests q).pc = .upstream rawKey → q = p := by
  have hw : w.Apart rot lib := run_inv (fun _ _ _ => step_apart) (init_apart ht now) horderly hrun
  have hcall : ∀ r, (w.requests r).pc = .upstream rawKey →
      ∃ copy row, (w.requests r).key = some copy ∧ (w.requests r).pc.usesKey = true ∧
        w.table.get? copy.id = some row ∧ rot.vault row.keyEncrypted = some rawKey ∧
        row.keyHash = lib.hashKey rawKey := by
    intro r hr
    obtain ⟨copy, hkey, hvault⟩ := hw.sends r rawKey hr
    obtain ⟨held, hheld, hexp, -⟩ := (hw.sound r).held (by rw [hr]; rfl)
    cases hkey.symm.trans hheld
    obtain ⟨row, hrow, henc⟩ := hw.copies r copy (by rw [Request.isRunning, hr]) hkey hexp
    obtain ⟨rawKey', hvault', hhash, -⟩ := hw.authentic.genuine copy.id row hrow
    rw [henc, hvault] at hvault'
    cases hvault'
    exact ⟨copy, row, hkey, by rw [hr]; rfl, hrow, by rw [henc, hvault], hhash⟩
  obtain ⟨c, row, hkey, huse, hrow, hvault, hhash⟩ := hcall p hp
  refine ⟨⟨c.id, row, hrow, hvault, hhash⟩, fun q hq => ?_⟩
  obtain ⟨d, row', hkey', huse', hrow', -, hhash'⟩ := hcall q hq
  have hid : d.id = c.id := hw.authentic.distinct d.id c.id row' row hrow' hrow (hhash'.trans hhash.symm)
  exact user_unique hw.sound hw.exclusive huse' hkey' huse hkey hid

theorem pool_authentic : Authentic Sample.rotation (KeyOp.Sample.service none).lib Sample.pool := by
  refine ⟨fun i j row row' hi hj => ?_, fun id row hrow => ?_⟩
  · have hall : ∀ r ∈ Sample.pool.rows, ∀ r' ∈ Sample.pool.rows, r.2.keyHash = r'.2.keyHash → r.1 = r'.1 := by decide
    exact hall _ ((Sample.pool.get?_eq_some_iff i row).mp hi) _ ((Sample.pool.get?_eq_some_iff j row').mp hj)
  · have hall : ∀ r ∈ Sample.pool.rows, r.2.keyHash = (KeyOp.Sample.service none).lib.hashKey r.2.keyEncrypted ∧
        r.2.keyPrefix = keyPrefixOf r.2.keyEncrypted := by decide +kernel
    obtain ⟨hhash, hprefix⟩ := hall _ ((Sample.pool.get?_eq_some_iff id row).mp hrow)
    exact ⟨row.keyEncrypted, rfl, hhash, hprefix⟩

/-- Both keys are in use. -/
def bothCalling : List Action := [.start 0 .models, .start 1 .models] ++ Sample.oks 0 2 ++ Sample.oks 1 2

theorem secrets_apart_bothCalling :
    ∃ w, run (step Sample.rotation) (init Sample.pool 0) bothCalling = some w ∧
      (∃ id row, w.table.get? id = some row ∧ Sample.rotation.vault row.keyEncrypted = some "a" ∧
        row.keyHash = (KeyOp.Sample.service none).lib.hashKey "a") ∧
      ∀ q, (w.requests q).pc = .upstream "a" → q = 0 := by
  let w := (run (step Sample.rotation) (init Sample.pool 0) bothCalling).get (by decide)
  have hrun : run (step Sample.rotation) (init Sample.pool 0) bothCalling = some w := (Option.some_get _).symm
  have horderly : Along (step Sample.rotation) (Orderly Sample.rotation (KeyOp.Sample.service none).lib)
      (init Sample.pool 0) bothCalling := by
    refine along_of_forall fun w a ha => ?_
    have hrequest : ∀ a ∈ bothCalling, adminOp? a = none := by
      simp [bothCalling, Sample.oks, adminOp?]
    have hno := hrequest a ha
    cases a with
    | admin op => cases hno
    | _ => trivial
  exact ⟨w, hrun, secrets_apart pool_authentic horderly hrun rfl⟩

end World

end OllamaProxy
