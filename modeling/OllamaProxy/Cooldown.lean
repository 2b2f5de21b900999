/-
# Status and cooldown

A key should have a cooldown exactly while it is depleted (`ApiKey.Agrees`):
then every depleted key can be reactivated at some time, and no other key
carries a cooldown. The recorders and the operations write the two columns
separately. `update_key` writes a status alone, and a session that writes a
loaded copy back leaves out the column whose value its copy has already. A
write keeps the agreement exactly if it takes both columns or neither, or does
not move the row into or out of `depleted` (`Recorder.Together`,
`World.Together`).

Key theorems: `write_agrees_iff`, `step_agreeing_iff`, `agreeing_throughout_iff`.
-/
import OllamaProxy.Recorders

namespace OllamaProxy

open Kit

/-- The key has a cooldown exactly if it is depleted. -/
def ApiKey.Agrees (k : ApiKey) : Prop := k.cooldownUntil.isSome = true ↔ k.status = .depleted

instance (k : ApiKey) : Decidable k.Agrees := inferInstanceAs (Decidable (_ ↔ _))

/-- A depleted key that agrees can be reactivated from some time on. -/
theorem ApiKey.Agrees.eligible {k : ApiKey} (h : k.Agrees) (hd : k.status = .depleted) :
    ∃ c, ∀ now, c ≤ now → k.cooledDown now = true := by
  obtain ⟨c, hc⟩ := Option.isSome_iff_exists.mp (h.mpr hd)
  exact ⟨c, fun now hnow => by simp [cooledDown, hd, hc, hnow]⟩

theorem ApiKey.Agrees.no_leftover {k : ApiKey} (h : k.Agrees) (hd : k.status ≠ .depleted) :
    k.cooldownUntil = none := by
  by_contra hc
  exact hd (h.mp (Option.isSome_iff_ne_none.mpr hc))

namespace Recorder

/-- The session writes the status and the cooldown both, or neither, or the
status it records is as good as the row's. -/
def Together (rec : Recorder) (copy row : ApiKey) : Prop :=
  match rec with
  | .usage _ => True
  | .update v => ∀ s ∈ v.status,
    (copy.status ≠ s ↔ copy.cooldownUntil.isSome = true ∨ s = .depleted) ∨
      (row.status = .depleted ↔ s = .depleted)

/-- What raises is no update, and takes nothing apart. -/
theorem together_of_not_fits {rec : Recorder} {copy : ApiKey} (h : rec.fits copy = false) (row : ApiKey) :
    rec.Together copy row := by
  cases rec with
  | usage u => trivial
  | update v => cases h

/-- Two columns that both hold `new` where they are written and `old` where they
are not hold the same exactly if both are written or neither, or it makes no
difference. -/
theorem written_iff {written written' old new : Prop} [Decidable written] [Decidable written'] :
    ((if written' then new else old) ↔ (if written then new else old)) ↔
      (written ↔ written') ∨ (old ↔ new) := by
  by_cases h : written <;> by_cases h' : written' <;> simp [h, h', iff_comm]

theorem update_agrees_iff {v : KeyValues} {s : ApiKeyStatus} {c : Option ℤ} (hs : v.status = some s)
    (hc : v.cooldownUntil = some c) (hcs : c.isSome = true ↔ s = .depleted) (copy : ApiKey)
    {row : ApiKey} (hrow : row.Agrees) :
    (v.write copy row).Agrees ↔ (Recorder.update v).Together copy row := by
  have hstatus : (v.write copy row).status = .depleted ↔
      if copy.status ≠ s then s = .depleted else row.status = .depleted := by
    by_cases hcopy : copy.status = s
    · simp [KeyValues.write, hs, netChange, hcopy]
    · simp [KeyValues.write, hs, netChange, hcopy, Ne.symm hcopy]
  have hcool : (v.write copy row).cooldownUntil.isSome = true ↔
      if copy.cooldownUntil.isSome = true ∨ s = .depleted then s = .depleted
      else row.status = .depleted := by
    cases c with
    | some until' =>
      have hsd := hcs.mp rfl
      simp [KeyValues.write, hc, hsd]
    | none =>
      have hsd : s ≠ .depleted := fun he => by simpa using hcs.mpr he
      have hold : row.cooldownUntil.isSome = true ↔ row.status = .depleted := hrow
      cases hk : copy.cooldownUntil <;> simp [KeyValues.write, hc, netChangeSome, hk, hsd, hold]
  unfold ApiKey.Agrees
  rw [hstatus, hcool, written_iff]
  simp only [Together, hs, Option.mem_def, Option.some.injEq, forall_eq']

/-- A call of a `record_*` method keeps the agreement exactly if it takes both
columns together. -/
theorem write_agrees_iff {rec : Recorder} {m : Method} (h : rec.Calls m) (copy : ApiKey) {row : ApiKey}
    (hrow : row.Agrees) : (rec.write copy row).Agrees ↔ rec.Together copy row := by
  cases h with
  | success now code => exact update_agrees_iff rfl rfl (by simp) copy hrow
  | successWithUsage u => exact iff_of_true (by simp [ApiKey.Agrees, write, UsageCall.write]) trivial
  | unauthorized now code => exact update_agrees_iff rfl rfl (by simp) copy hrow
  | rateLimited now code retryAfter v hv =>
    obtain ⟨hs, hc⟩ := recordRateLimited_eq_ok hv
    exact update_agrees_iff hs hc (by simp) copy hrow
  | serverError now code => exact iff_of_true hrow (by simp [Together, recordServerError])

end Recorder

namespace World

variable {rot : Rotation} {w w' : World} {a : Action} {id : ℕ}

/-- Every key has a cooldown exactly if it is depleted. -/
def Agreeing (w : World) : Prop := ∀ id row, w.table.get? id = some row → row.Agrees

/-- What the step writes to a row, it writes to the status and the cooldown
together: an update moves no row into or out of `depleted`, and a recorder is
`Together`. -/
def Together (rot : Rotation) (w : World) : Action → Prop
  | .resume p ev => ∀ rec ret copy row, (w.requests p).pc = .commit rec ret →
    (w.requests p).key = some copy → ev.writes = true → w.table.get? copy.id = some row →
      rec.Together copy.row row
  | .admin (.updateKey id seen _ status) => ∀ s ∈ status, ∀ row, w.table.get? id = some row →
    seen.status = s ∨ (row.status = .depleted ↔ s = .depleted)
  | .admin (.probe id seen code headers) => ∀ v row, classify rot.pyFloat w.now code headers = some v →
    w.table.get? id = some row → (Recorder.update v).Together seen row
  | _ => True

/-- A row after its reactivation, or as a new or a reset one. -/
theorem agrees_of_active {k : ApiKey} (hs : k.status = .active) (hc : k.cooldownUntil = none) :
    k.Agrees := by
  simp [ApiKey.Agrees, hs, hc]

/-- Where nothing is committed on the key, a step that is no admin operation
keeps the agreement of its row. -/
theorem agrees_of_no_commit (hs : w.Sound) (hq : w.Agreeing) (h : w.step rot a = some w')
    (ha : a.isAdmin = false)
    (hno : ∀ p rec ret copy row, a.isTurnOf p = true → (w.requests p).pc = .commit rec ret →
      (w.requests p).key = some copy → copy.id = id → w.table.get? id ≠ some row)
    {row' : ApiKey} (hrow' : w'.table.get? id = some row') : row'.Agrees := by
  have hstep := step_row hs h ha id
  rw [hrow'] at hstep
  generalize hold : some row' = r at hstep
  cases hstep with
  | keeps => exact hq id row' hold.symm
  | reactivates p updateNow row hturn hpc hrow hcool =>
    cases hold
    exact agrees_of_active rfl rfl
  | commits p rec ret copy row hturn hpc hkey hid hrow =>
    exact absurd hrow (hno p rec ret copy row hturn hpc hkey hid)

/-- An update writes the status alone. -/
theorem updated_agrees_iff {row : ApiKey} (hrow : row.Agrees) (seen : ApiKey) (label : Option String)
    (status : Option ApiKeyStatus) (now : ℤ) :
    ApiKey.Agrees { row with
      label := label.elim row.label fun l => netChange seen.label (some l) row.label
      status := status.elim row.status fun s => netChange seen.status s row.status
      updatedAt := now } ↔
    ∀ s ∈ status, seen.status = s ∨ (row.status = .depleted ↔ s = .depleted) := by
  have hold : row.cooldownUntil.isSome = true ↔ row.status = .depleted := hrow
  unfold ApiKey.Agrees
  cases status with
  | none => simpa using hold
  | some s =>
    simp only [Option.elim_some, netChange, hold, Option.mem_def, Option.some.injEq, forall_eq']
    by_cases hs : s = seen.status
    · simp [hs]
    · simp [hs, Ne.symm hs]

theorem admin_agreeing_iff {op : AdminOp} (hq : w.Agreeing) :
    Agreeing { w with table := op.apply rot.pyFloat w.now w.table } ↔ w.Together rot (.admin op) := by
  have hrow := fun id => op.apply_row rot.pyFloat w.now w.table id
  constructor
  · intro h
    cases op with
    | updateKey i seen label status =>
      intro s hs row hi
      have hi' := hrow i
      generalize hnew : AdminOp.apply _ _ _ _ = t' at hi' h
      generalize hr : t'.get? i = r at hi'
      cases hi' with
      | keeps _ hop => cases hi.symm.trans (hop rfl)
      | updates _ row' _ _ hold =>
        cases hi.symm.trans hold
        exact (updated_agrees_iff (hq i row hi) seen label status w.now).mp (h i _ hr) s hs
    | probe i seen code headers =>
      intro v row hv hi
      have hi' := hrow i
      generalize hnew : AdminOp.apply _ _ _ _ = t' at hi' h
      generalize hr : t'.get? i = r at hi'
      cases hi' with
      | keeps _ hop =>
        rcases hop rfl with hno | hno
        · cases hv.symm.trans hno
        · cases hi.symm.trans hno
      | records _ row' _ _ v' hv' hold =>
        cases hi.symm.trans hold
        cases hv.symm.trans hv'
        obtain ⟨m, hm⟩ := classify_calls w.now rot.pyFloat hv
        exact (Recorder.write_agrees_iff hm seen (hq i row hi)).mp (h i _ hr)
    | _ => trivial
  · intro h id row' hnew
    have hid := hrow id
    rw [show (op.apply rot.pyFloat w.now w.table).get? id = some row' from hnew] at hid
    generalize hr : some row' = r at hid
    cases hid with
    | keeps => exact hq id row' hr.symm
    | creates keyHash keyPrefix keyEncrypted label hnext =>
      cases hr
      exact agrees_of_active rfl rfl
    | updates seen row label status hold =>
      cases hr
      exact (updated_agrees_iff (hq id row hold) seen label status w.now).mpr fun s hs => h s hs row hold
    | deletes => cases hr
    | resets =>
      obtain ⟨row, -, rfl⟩ := Option.map_eq_some_iff.mp hr.symm
      exact agrees_of_active rfl rfl
    | records seen row code headers v hv hold =>
      cases hr
      obtain ⟨m, hm⟩ := classify_calls w.now rot.pyFloat hv
      exact (Recorder.write_agrees_iff hm seen (hq id row hold)).mpr (h v row hv hold)

/-- A step keeps the agreement exactly if it takes status and cooldown together. -/
theorem step_agreeing_iff (hs : w.Sound) (hw : w.Calling) (hq : w.Agreeing) (h : w.step rot a = some w') :
    w'.Agreeing ↔ w.Together rot a := by
  cases a with
  | start p kind =>
    refine iff_of_true (fun id row' hrow' => agrees_of_no_commit hs hq h rfl ?_ hrow') trivial
    intro q rec ret copy row hturn
    cases hturn
  | tick d =>
    cases h
    exact iff_of_true hq trivial
  | admin op =>
    cases h
    exact admin_agreeing_iff hq
  | resume p ev =>
    have hturn : ∀ q, (Action.resume p ev).isTurnOf q = true → q = p := fun q hq => by
      simpa [Action.isTurnOf, eq_comm] using hq
    by_cases hc : ∃ rec ret copy row, (w.requests p).pc = .commit rec ret ∧
        (w.requests p).key = some copy ∧ w.table.get? copy.id = some row
    · obtain ⟨rec, ret, copy, row, hpc, hkey, hrow⟩ := hc
      have hrow' := commit_row hpc hkey hrow h
      obtain ⟨m, hm⟩ := hw p rec ret hpc
      have hwrite := Recorder.write_agrees_iff hm copy.row (hq copy.id row hrow)
      constructor
      · intro hq' rec' ret' copy' row' hpc' hkey' hev hrow''
        cases hpc.symm.trans hpc'
        cases hkey.symm.trans hkey'
        cases hrow.symm.trans hrow''
        cases hfits : rec.fits copy.row with
        | false => exact Recorder.together_of_not_fits hfits row
        | true =>
          rw [hev, hfits] at hrow'
          exact hwrite.mp (hq' copy.id _ hrow')
      · intro ht id row' hid'
        by_cases hid : id = copy.id
        · rw [hid, hrow'] at hid'
          cases hid'
          split_ifs with hev
          · rw [Bool.and_eq_true] at hev
            exact hwrite.mpr (ht rec ret copy row hpc hkey hev.1 hrow)
          · exact hq copy.id row hrow
        · refine agrees_of_no_commit hs hq h rfl ?_ hid'
          intro q rec' ret' copy' row' hq' hpc' hkey' hcid
          rw [hturn q hq'] at hkey'
          cases hkey.symm.trans hkey'
          exact absurd hcid.symm hid
    · refine iff_of_true (fun id row' hid' => agrees_of_no_commit hs hq h rfl ?_ hid') ?_
      · intro q rec ret copy row hq' hpc hkey hid hrow
        rw [hturn q hq'] at hpc hkey
        exact hc ⟨rec, ret, copy, row, hpc, hkey, hid ▸ hrow⟩
      · intro rec ret copy row hpc hkey hev hrow
        exact absurd ⟨rec, ret, copy, row, hpc, hkey, hrow⟩ hc

/-- From a table that agrees: every key has a cooldown exactly while it is
depleted, throughout the run, exactly if every write of it takes status and
cooldown together. Then every depleted key can be reactivated from some time
on, and no other key has a cooldown. -/
theorem agreeing_throughout_iff {t : KeyTable} {now : ℤ} {as : List Action}
    (ht : ∀ id row, t.get? id = some row → row.Agrees)
    (h : run (step rot) (init t now) as = some w) :
    (Throughout (step rot) Agreeing (init t now) as ↔
      Along (step rot) (Together rot) (init t now) as) ∧
    (Along (step rot) (Together rot) (init t now) as →
      ∀ id row, w.table.get? id = some row →
        (row.status = .depleted → ∃ c, ∀ time, c ≤ time → row.cooledDown time = true) ∧
        (row.status ≠ .depleted → row.cooldownUntil = none)) := by
  have hiff : Throughout (step rot) Agreeing (init t now) as ↔
      Along (step rot) (Together rot) (init t now) as :=
    throughout_iff_along (A := fun _ => True) (I := fun s => s.Sound ∧ s.Calling)
      (fun _ _ _ hI h => ⟨step_sound hI.1 h, step_calling hI.1 hI.2 h⟩)
      (fun _ _ _ hI hq _ h => step_agreeing_iff hI.1 hI.2 hq h)
      ⟨init_sound t now, init_calling t now⟩ ht (fun _ _ => trivial) h
  refine ⟨hiff, fun halong id row hrow => ?_⟩
  have hagrees := (hiff.mpr halong).last h id row hrow
  exact ⟨hagrees.eligible, hagrees.no_leftover⟩

theorem pool_agrees : ∀ id row, Sample.pool.get? id = some row → row.Agrees := by
  intro id row hrow
  have hmem := (Sample.pool.get?_eq_some_iff id row).mp hrow
  have hall : ∀ r ∈ Sample.pool.rows, r.2.Agrees := by decide
  exact hall _ hmem

theorem agreeing_throughout_iff_listed :
    let w := (run (step Sample.rotation) (init Sample.pool 0) listed).get (by decide)
    (Throughout (step Sample.rotation) Agreeing (init Sample.pool 0) listed ↔
      Along (step Sample.rotation) (Together Sample.rotation) (init Sample.pool 0) listed) ∧
    (Along (step Sample.rotation) (Together Sample.rotation) (init Sample.pool 0) listed →
      ∀ id row, w.table.get? id = some row →
        (row.status = .depleted → ∃ c, ∀ time, c ≤ time → row.cooledDown time = true) ∧
        (row.status ≠ .depleted → row.cooldownUntil = none)) :=
  agreeing_throughout_iff pool_agrees (Option.some_get _).symm

/-- An operator sets key 1 to depleted. -/
def depletedByHand : List Action :=
  [.admin (.updateKey 1 (Sample.key "a") none (some .depleted))]

theorem depletedByHand_stranded :
    ∃ w, run (step Sample.rotation) (init Sample.pool 0) depletedByHand = some w ∧
      HasStatus w.table 1 .depleted ∧ ¬ w.Agreeing ∧
      ∀ row, w.table.get? 1 = some row → ∀ now, row.cooledDown now = false := by
  let w := (run (step Sample.rotation) (init Sample.pool 0) depletedByHand).get (by decide)
  have hcool : (w.table.get? 1).all (·.cooldownUntil.isNone) = true := by decide
  have hstatus : HasStatus w.table 1 .depleted := by decide
  obtain ⟨row, hrow, hs⟩ := hasStatus_iff.mp hstatus
  have hnone : row.cooldownUntil = none := by simpa [hrow] using hcool
  refine ⟨w, (Option.some_get _).symm, hstatus, fun hag => ?_, fun row' hrow' now => ?_⟩
  · have := (hag 1 row hrow).mpr hs
    rw [hnone] at this
    cases this
  · cases hrow.symm.trans hrow'
    simp [ApiKey.cooledDown, hnone]

end World

end OllamaProxy
