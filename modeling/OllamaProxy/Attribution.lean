/-
# Whose row a verdict changes

A request sends the secret that its session's copy of the key decrypts to, and
the outcome is recorded on the row that has the copy's id by then. The two
belong together as long as the row under that id holds the same secret
(`World.Attributed`). An id is used again: SQLite gives a new row the largest
id plus one, so after the last row is deleted a key with another secret can
take its id while a request still has the deleted one in use.

The steps that break it are these two (`World.KeepsSecrets`): a key is created
under an id that a request is using with another secret, or a request selects a
key of whose id its session has an older copy with another secret.

Key definitions: `World.Attributed`, `World.KeepsSecrets`, `World.Sends`.
Key theorems: `step_sends`, `step_attributed_iff`, `verdict_attributed`.
-/
import OllamaProxy.Recorders

namespace OllamaProxy

open Kit

namespace World

variable {rot : Rotation} {w w' : World} {a : Action} {id : ℕ}

/-- The row under the id of a key in use, if there is one, holds the secret that
the request's copy of it does. -/
def Attributed (rot : Rotation) (w : World) : Prop :=
  ∀ p copy row, (w.requests p).pc.usesKey = true → (w.requests p).key = some copy →
    w.table.get? copy.id = some row → rot.vault row.keyEncrypted = rot.vault copy.row.keyEncrypted

/-- A request at its upstream call sends the secret of its copy. -/
def Sends (rot : Rotation) (w : World) : Prop :=
  ∀ p rawKey, (w.requests p).pc = .upstream rawKey →
    ∃ copy, (w.requests p).key = some copy ∧ rot.vault copy.row.keyEncrypted = some rawKey

/-- No key is created under an id that a request is using with another secret,
and no request selects a key with an older copy that holds another secret. -/
def KeepsSecrets (rot : Rotation) (w : World) : Action → Prop
  | .admin (.createKey keyHash keyPrefix keyEncrypted label) =>
    (createKey w.table keyHash keyPrefix keyEncrypted label w.now).isSome = true →
      ∀ p copy, (w.requests p).pc.usesKey = true → (w.requests p).key = some copy →
        copy.id = w.table.nextId → rot.vault keyEncrypted = rot.vault copy.row.keyEncrypted
  | .resume p .ok => ∀ x ∈ w.reselects p, (rot.vault x.1.row.keyEncrypted).isSome = true →
      rot.vault x.2.keyEncrypted = rot.vault x.1.row.keyEncrypted
  | _ => True

/-- The action is none of the administrator's, and selects no key of which the
request has a copy. -/
def selectsNew (w : World) : Action → Bool
  | .admin _ => false
  | .resume p .ok => (w.reselects p).isNone
  | _ => true

theorem keepsSecrets_of_selectsNew (h : w.selectsNew a = true) : w.KeepsSecrets rot a := by
  cases a with
  | admin op => cases h
  | resume p ev =>
    cases ev with
    | ok =>
      intro x hx
      rw [Option.isNone_iff_eq_none.mp h] at hx
      cases hx
    | _ => trivial
  | _ => trivial

/-! ### The secret that is sent -/

theorem step_sends (hs : w.Sound) (hw : w.Sends rot) (h : w.step rot a = some w') : w'.Sends rot := by
  intro p rawKey hpc
  rcases step_selects hs h hpc with ⟨-, hreq⟩ | ⟨-, -, copy, row, hkey, -, hvault, -⟩
  · rw [hreq] at hpc ⊢
    exact hw p rawKey hpc
  · exact ⟨copy, hkey, hvault⟩

theorem init_sends (rot : Rotation) (t : KeyTable) (now : ℤ) : (init t now).Sends rot := by
  intro p rawKey hpc
  cases hpc

theorem run_other {p : ℕ} {as : List Action} (hother : ∀ a ∈ as, a.isTurnOf p = false)
    (hpc : (w.requests p).pc ≠ .idle) (hrun : run (step rot) w as = some w') :
    w'.requests p = w.requests p := by
  induction as generalizing w with
  | nil =>
    cases hrun
    rfl
  | cons a as ih =>
    obtain ⟨w1, h1, h2⟩ := run_cons_iff.mp hrun
    obtain ⟨ha, has⟩ := List.forall_mem_cons.mp hother
    have hreq := step_other h1 hpc ha
    rw [ih has (by rw [hreq]; exact hpc) h2, hreq]

/-! ### A step -/

/-- A row that stays under its id holds the secret it did. -/
theorem row_secret (hs : w.Sound) (h : w.step rot a = some w') {row' : ApiKey} (hrow' : w'.table.get? id = some row') :
    (∃ row, w.table.get? id = some row ∧ row.keyEncrypted = row'.keyEncrypted) ∨
      ∃ keyHash keyPrefix label, a = .admin (.createKey keyHash keyPrefix row'.keyEncrypted label) ∧
        id = w.table.nextId ∧
        (createKey w.table keyHash keyPrefix row'.keyEncrypted label w.now).isSome = true := by
  cases hadmin : a.isAdmin with
  | true =>
    cases a with
    | admin op =>
      cases h
      rcases op.apply_secret rot.pyFloat w.now w.table hrow' with
        hkept | ⟨keyHash, keyPrefix, label, rfl, hid, hcreated⟩
      · exact Or.inl hkept
      · exact Or.inr ⟨keyHash, keyPrefix, label, rfl, hid, hcreated⟩
    | _ => cases hadmin
  | false =>
    have hstep := step_row hs h hadmin id
    rw [hrow'] at hstep
    generalize hr : some row' = r at hstep
    cases hstep with
    | keeps => exact Or.inl ⟨row', hr.symm, rfl⟩
    | reactivates p updateNow row hturn hpc hrow hcool =>
      cases hr
      exact Or.inl ⟨row, hrow, rfl⟩
    | commits p rec ret copy row hturn hpc hkey hid hrow =>
      cases hr
      exact Or.inl ⟨row, hrow, (rec.write_keyEncrypted copy.row row).symm⟩

theorem reselects_eq_some {p : ℕ} {copy : Copy} {row : ApiKey} (h : w.reselects p = some (copy, row)) :
    ((w.requests p).pc = .load ∨ (w.requests p).pc = .reload) ∧ (w.requests p).key = some copy ∧
      copy.expired = false ∧ ∃ m, w.manager.choose (loadActive w.table) = (some (copy.id, row), m) := by
  have hpc : (w.requests p).pc = .load ∨ (w.requests p).pc = .reload := by
    unfold reselects at h
    split at h
    · exact Or.inl ‹_›
    · exact Or.inr ‹_›
    · cases h
  rw [reselects_eq hpc] at h
  obtain ⟨⟨id, row'⟩, hchoose, h⟩ := Option.bind_eq_some_iff.mp h
  obtain ⟨copy', hkey, h⟩ := Option.bind_eq_some_iff.mp h
  split_ifs at h with hc
  cases h
  refine ⟨hpc, hkey, hc.2, (w.manager.choose (loadActive w.table)).2, ?_⟩
  rw [hc.1, ← hchoose]

/-- A selection of a key of which the session has a copy goes to the call with
this copy. -/
theorem step_reselects {p : ℕ} {copy : Copy} {row : ApiKey} {rawKey : String} (hs : w.Sound)
    (hre : w.reselects p = some (copy, row)) (hvault : rot.vault copy.row.keyEncrypted = some rawKey)
    (h : w.step rot (.resume p .ok) = some w') :
    (w'.requests p).pc = .upstream rawKey ∧ (w'.requests p).key = some copy ∧ w'.table = w.table ∧
      w.table.get? copy.id = some row := by
  obtain ⟨hpc, hkey, hexp, m, hchoose⟩ := reselects_eq_some hre
  have hmem : (copy.id, row) ∈ loadActive w.table := choose_mem hchoose
  have hcopy : (w.requests p).copyOf copy.id row = copy := by
    simp [Request.copyOf, hkey, hexp]
  obtain ⟨x', hm, rfl⟩ := step_resume hs h
  have hlock : ((w.turn p).request.pc).holdsLock = true := by
    rcases hpc with hpc | hpc <;> rw [turn_request, hpc] <;> rfl
  cases hm with
  | pick hpick =>
    cases hpick with
    | attempted id row' m' rawKey' hsel hchoose' hvault' =>
      cases hchoose.symm.trans hchoose'
      rw [turn_request, hcopy, hvault] at hvault'
      cases hvault'
      rw [put_requests_self, put_table]
      exact ⟨rfl, congrArg some hcopy, rfl, (mem_loadActive.mp hmem).1⟩
    | skipped id row' m' hsel hchoose' hvault' =>
      cases hchoose.symm.trans hchoose'
      rw [turn_request, hcopy, hvault] at hvault'
      cases hvault'
    | missed hsel hall =>
      have hnone := choose_eq_none_iff.mpr hall
      rw [turn_manager, turn_table, hchoose] at hnone
      cases hnone
    | emptied hpc' hempty =>
      rw [turn_table] at hempty
      rw [hempty] at hmem
      cases hmem
    | reactivated updateNow hpc' => rcases hpc with hpc | hpc <;> cases hpc.symm.trans hpc'
    | left answer t hpc' hev ht ha => cases hev
  | counted hpc' | acquired hpc' | slept _ hpc' | woke _ hpc' =>
    rw [hpc'] at hlock
    cases hlock
  | quit answer hpc' hev ha => cases hev
  | answer rawKey' copy' hpc' hkey' hmove =>
    rw [hpc'] at hlock
    cases hlock
  | record copy' hpc' hkey' hmove =>
    rcases hpc with hpc | hpc <;> rw [turn_request, hpc] at hpc' <;> cases hpc'

/-- A step keeps the secrets together exactly if it is none of the two that
separate them. -/
theorem step_attributed_iff (hs : w.Sound) (hq : w.Attributed rot) (h : w.step rot a = some w') :
    w'.Attributed rot ↔ w.KeepsSecrets rot a := by
  constructor
  · intro hq'
    cases a with
    | admin op =>
      cases op with
      | createKey keyHash keyPrefix keyEncrypted label =>
        intro hcreated p copy hpc hkey hid
        obtain ⟨t, ht⟩ := Option.isSome_iff_exists.mp hcreated
        cases h
        refine hq' p copy (.new keyHash keyPrefix keyEncrypted label w.now) hpc hkey ?_
        simp only [AdminOp.apply, ht, Option.getD_some]
        rw [hid]
        exact createKey_get? ht
      | _ => trivial
    | resume p ev =>
      cases ev with
      | ok =>
        rintro ⟨copy, row⟩ hre hsome
        obtain ⟨rawKey, hvault⟩ := Option.isSome_iff_exists.mp hsome
        obtain ⟨hpc, hkey, htable, hrow⟩ := step_reselects hs hre hvault h
        exact hq' p copy row (by rw [hpc]; rfl) hkey (by rw [htable]; exact hrow)
      | _ => trivial
    | start p kind => trivial
    | tick d => trivial
  · intro hkeeps p copy row' hpc hkey hrow'
    cases step_keyUse hs h hpc hkey with
    | selects row ha htable hrow hvault hnew =>
      subst ha
      rw [htable] at hrow'
      cases hrow.symm.trans hrow'
      rcases hnew with hnew | hre
      · rw [hnew]
      · exact hkeeps _ hre hvault
    | answers huse hkey' htable =>
      rw [htable] at hrow'
      exact hq p copy row' huse hkey' hrow'
    | stays hturn hreq =>
      -- The row can only be new under the id.
      rw [hreq] at hpc hkey
      rcases row_secret hs h hrow' with ⟨row, hrow, hsame⟩ | ⟨keyHash, keyPrefix, label, rfl, hid, hcreated⟩
      · rw [← hsame]
        exact hq p copy row hpc hkey hrow
      · exact hkeeps hcreated p copy hpc hkey hid

/-! ### A run -/

/-- After the answer the request is at its commit with the key it called, or it
commits nothing before its next turn. -/
theorem answered_commit {p : ℕ} {u : Upstream} {rawKey : String} {rec : Recorder} {ret : Return} (hs : w.Sound)
    (hpc : (w.requests p).pc = .upstream rawKey) (h : w.step rot (.resume p (.answer u)) = some w')
    {w'' : World} {as : List Action} (hother : ∀ a ∈ as, a.isTurnOf p = false)
    (hrun : run (step rot) w' as = some w'') (hcommit : (w''.requests p).pc = .commit rec ret) :
    (w''.requests p).key = (w.requests p).key := by
  obtain ⟨x', hm, rfl⟩ := step_resume hs h
  obtain ⟨copy, hkey, hmove⟩ := hm.of_upstream hpc
  have hidle : ((w.put p x').requests p).pc ≠ .idle := by
    rw [put_requests_self]
    cases hmove with
    | answered u rec ret hd => nofun
    | unrecorded u ret hd =>
      rcases (Request.returned_rests _ _).pc with hc | ⟨answer, hc⟩ <;> rw [hc] <;> nofun
    | unread u e hd => nofun
  have hreq := run_other hother hidle hrun
  rw [put_requests_self] at hreq
  rw [hreq] at hcommit ⊢
  obtain ⟨-, -, -, -, -, hkeep, -⟩ := hm.dispatched hcommit
  exact hkeep

/-- In every state of a run the row under the id of a key in use holds the
secret of the request's copy, exactly if no step of the run separates the two.
Then what a recorder changes on account of an answer is the row with the secret
that was sent. -/
theorem verdict_attributed {t : KeyTable} {now : ℤ} {as : List Action}
    (hrun : run (step rot) (init t now) as = some w) :
    (Throughout (step rot) (Attributed rot) (init t now) as ↔
      Along (step rot) (KeepsSecrets rot) (init t now) as) ∧
    (Along (step rot) (KeepsSecrets rot) (init t now) as →
      ∀ before p u between w0 rawKey id ev rec, as = before ++ .resume p (.answer u) :: between →
        run (step rot) (init t now) before = some w0 → (w0.requests p).pc = .upstream rawKey →
        (∀ a ∈ between, a.isTurnOf p = false) → w.commitsOn rot id (.resume p ev) = some rec →
        ∃ row, w.table.get? id = some row ∧ rot.vault row.keyEncrypted = some rawKey) := by
  have hiff : Throughout (step rot) (Attributed rot) (init t now) as ↔
      Along (step rot) (KeepsSecrets rot) (init t now) as :=
    throughout_iff_along (A := fun _ => True) (I := World.Sound) (fun _ _ _ => step_sound)
      (fun _ _ _ hs hq _ h => step_attributed_iff hs hq h) (init_sound t now)
      (fun p copy row hpc => by cases hpc) (fun _ _ => trivial) hrun
  refine ⟨hiff, fun hkeeps before p u between w0 rawKey id ev rec has hbefore hpc hother hon => ?_⟩
  have hq : w.Attributed rot := (hiff.mpr hkeeps).last hrun
  have hinv : w0.Sound ∧ w0.Sends rot :=
    run_inv' (I := fun w => w.Sound ∧ w.Sends rot)
      (fun _ _ _ hI h => ⟨step_sound hI.1 h, step_sends hI.1 hI.2 h⟩)
      ⟨init_sound t now, init_sends rot t now⟩ hbefore
  rw [has, run_append, hbefore, Option.bind_some] at hrun
  obtain ⟨w1, h1, h2⟩ := run_cons_iff.mp hrun
  obtain ⟨ret, copy, row, hcommit, hkey, hid, hrow⟩ := commitsOn_resume hon
  obtain ⟨copy0, hkey0, hvault⟩ := hinv.2 p rawKey hpc
  have hsame : copy0 = copy :=
    Option.some.inj (hkey0.symm.trans ((answered_commit hinv.1 hpc h1 hother h2 hcommit).symm.trans hkey))
  rw [hsame] at hvault
  refine ⟨row, hrow, ?_⟩
  rw [← hid] at hrow
  rw [hq p copy row (by rw [hcommit]; rfl) hkey hrow, hvault]

/-- A request is at its call with the only key. -/
def inUse : List Action := .start 0 Sample.chat :: Sample.oks 0 3

theorem verdict_attributed_inUse :
    let w := (run (step Sample.rotation) (init soleKey 0) (inUse ++ [.resume 0 (.answer (Sample.reply 401))])).get
      (by decide)
    ∃ row, w.table.get? 1 = some row ∧ Sample.rotation.vault row.keyEncrypted = some "a" := by
  intro w
  have hrun : run (step Sample.rotation) (init soleKey 0) (inUse ++ [.resume 0 (.answer (Sample.reply 401))]) =
      some w := (Option.some_get _).symm
  have hkeeps : Along (step Sample.rotation) (KeepsSecrets Sample.rotation) (init soleKey 0)
      (inUse ++ [.resume 0 (.answer (Sample.reply 401))]) := by
    refine along_mono (I := fun _ => True) (P := fun w a => w.selectsNew a = true) (fun _ _ _ _ _ _ => trivial)
      (fun _ _ _ h => keepsSecrets_of_selectsNew h) trivial ?_
    decide
  exact (verdict_attributed hrun).2 hkeeps inUse 0 (Sample.reply 401) [] _ "a" 1 .ok
    (.update (recordUnauthorized 0 401)) rfl rfl rfl (by simp) rfl

/-- The key is deleted during the call, and another one takes its id. -/
def replaced : List Action :=
  inUse ++ [.admin (.deleteKey 1), .admin (.createKey "b" "b" "b" none), .resume 0 (.answer (Sample.reply 401))]

theorem replaced_disabled :
    ∃ w w', run (step Sample.rotation) (init soleKey 0) replaced = some w ∧
      (w.requests 0).key.map (fun copy => Sample.rotation.vault copy.row.keyEncrypted) = some (some "a") ∧
      w.step Sample.rotation (.resume 0 .ok) = some w' ∧
      (w.table.get? 1).map (fun row => (row.keyEncrypted, row.status)) = some ("b", .active) ∧
      (w'.table.get? 1).map (fun row => (row.keyEncrypted, row.status)) = some ("b", .disabled) := by
  let w := (run (step Sample.rotation) (init soleKey 0) replaced).get (by decide)
  let w' := (w.step Sample.rotation (.resume 0 .ok)).get (by decide)
  exact ⟨w, w', (Option.some_get _).symm, by decide, (Option.some_get _).symm, by decide, by decide⟩

end World

end OllamaProxy
