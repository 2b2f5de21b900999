/-
# The token meters of a key

A key has two meters, one for a session of 24 hours and one for a week.
`record_success_with_usage` reads them from the copy of the row that the
request's session has, adds the counts in Python and writes absolute values
back. While the request holds the key's reservation nobody else moves the
meters, so a copy that was current when the request selected the key is still
current at its commit (`Metered`). A first selection always loads the row; one
that returns to a key the request has tried before gets the old copy
(`reselects`), and what other requests have counted since is lost.

Where every call commits with a copy that fits the row, the meters of every key
read the charges of their window; and a copy that does not fit is one that a
selection returned to (`meters_exact`).

Key definitions: `ApiKey.meter`, `World.charges`, `UsageCall.Fits`,
`World.SelectsCurrent`, `World.Metered`.
Key theorems: `write_meter`, `step_meter`, `Metered.step`, `meters_exact`.
-/
import OllamaProxy.Lib.Meter
import OllamaProxy.Counters

namespace OllamaProxy

open Kit

inductive Window
  | session
  | weekly
deriving DecidableEq

def Window.length : Window → ℤ
  | .session => sessionWindow
  | .weekly => weeklyWindow

def ApiKey.meter (k : ApiKey) : Window → Meter
  | .session => ⟨k.sessionWindowStartedAt, k.sessionPromptTokens, k.sessionCompletionTokens⟩
  | .weekly => ⟨k.weeklyWindowStartedAt, k.weeklyPromptTokens, k.weeklyCompletionTokens⟩

/-- The counts of a call, a completion that is not positive as none. -/
def UsageCall.charge (u : UsageCall) : Charge where
  now := u.now
  prompt := u.promptTokens.getD 0
  completion := if u.completionTokens.any (0 < ·) then u.completionTokens.getD 0 else 0

/-- The charge of a recorder, if it is a call that counts tokens. -/
def Recorder.charges : Recorder → List Charge
  | .usage u => if u.counts then [u.charge] else []
  | .update _ => []

def SameMeters (copy row : ApiKey) : Prop := ∀ win, copy.meter win = row.meter win

instance (copy row : ApiKey) : Decidable (SameMeters copy row) :=
  decidable_of_iff (copy.meter .session = row.meter .session ∧ copy.meter .weekly = row.meter .weekly)
    ⟨fun h win => by cases win <;> simp [h], fun h => ⟨h _, h _⟩⟩

/-- The call adds to the copy what it should add to the row: their meters are the
same, or both start a new window. -/
def UsageCall.Fits (u : UsageCall) (copy row : ApiKey) : Prop :=
  ∀ win, copy.meter win = row.meter win ∨ u.counts = true ∧
    (copy.meter win).expired win.length u.now = true ∧ (row.meter win).expired win.length u.now = true

/-! ### One call -/

theorem touch_meter (u : UsageCall) (k : ApiKey) (win : Window) :
    (u.touch k).meter win =
      if u.counts then (k.meter win).charge win.length u.charge else k.meter win := by
  by_cases hc : u.counts = true
  · rw [if_pos hc, Meter.charge, UsageCall.touch, if_pos hc]
    have hnew : ∀ b, (k.meter win).expired win.length u.charge.now = b →
        match win with
        | .session => (k.sessionWindowStartedAt.all fun started => sessionWindow ≤ u.now - started) = b
        | .weekly => (k.weeklyWindowStartedAt.all fun started => weeklyWindow ≤ u.now - started) = b := by
      intro b hb
      cases win <;> exact hb
    by_cases hexp : (k.meter win).expired win.length u.charge.now = true
    · rw [if_pos hexp]
      have hstarts := hnew true hexp
      cases win <;> simp only at hstarts <;> simp only [hstarts] <;> simp [ApiKey.meter, UsageCall.charge]
    · rw [if_neg hexp]
      have hstays := hnew false (Bool.eq_false_iff.mpr hexp)
      cases win <;> simp only at hstays <;> simp only [hstays] <;> simp [ApiKey.meter, UsageCall.charge]
  · rw [if_neg hc, UsageCall.touch, if_neg hc]

theorem touch_fits {u : UsageCall} {copy row : ApiKey} (h : u.Fits copy row) (win : Window) :
    (u.touch copy).meter win = (u.touch row).meter win := by
  rw [touch_meter, touch_meter]
  rcases h win with hsame | ⟨hc, hcopy, hrow⟩
  · rw [hsame]
  · have hnow : u.charge.now = u.now := rfl
    rw [if_pos hc, if_pos hc, Meter.charge, Meter.charge, hnow, if_pos hcopy, if_pos hrow]

/-- With a copy that fits, the call charges the meters of the row. -/
theorem write_meter {u : UsageCall} {copy row : ApiKey} (h : u.Fits copy row) (win : Window) :
    (u.write copy row).meter win =
      (Recorder.usage u).charges.foldl (Meter.charge win.length) (row.meter win) := by
  have htouch := touch_fits h win
  rw [touch_meter u row] at htouch
  have hwrite : (u.write copy row).meter win = (u.touch copy).meter win := by
    cases htruthy : u.promptTokens.any (· ≠ 0) with
    | true => cases win <;> simp only [ApiKey.meter, UsageCall.write, htruthy, if_true]
    | false =>
      have hc : u.counts = false := by
        unfold UsageCall.counts
        cases hp : u.promptTokens with
        | none => rfl
        | some n => simp_all
      have hstarted : ((u.touch copy).meter win).started = (row.meter win).started := by
        rw [htouch, if_neg (by simp [hc])]
      cases win <;> simp only [ApiKey.meter, UsageCall.write, htruthy] at hstarted ⊢ <;> simp [hstarted]
  rw [hwrite, htouch]
  simp only [Recorder.charges]
  split_ifs <;> rfl

/-- The meter of a key that does not exist yet is empty. -/
def meter (t : KeyTable) (id : ℕ) (win : Window) : Meter :=
  (t.get? id).elim ⟨none, 0, 0⟩ fun k => k.meter win

namespace World

variable {rot : Rotation} {w w' : World} {a : Action} {id : ℕ}

/-- What the step charges to key `id`. -/
def charges (rot : Rotation) (id : ℕ) (w : World) (a : Action) : List Charge :=
  (w.commitsOn rot id a).elim [] Recorder.charges

/-- A call that takes effect has a copy that fits the row. -/
def CommitsCurrent (rot : Rotation) (w : World) (a : Action) : Prop :=
  ∀ id u p ret copy row, w.commitsOn rot id a = some (.usage u) → a.isTurnOf p = true →
    (w.requests p).pc = .commit (.usage u) ret → (w.requests p).key = some copy → copy.id = id →
    w.table.get? id = some row → u.Fits copy.row row

/-- A selection that returns to a key of which the session has a copy finds its
meters as in the copy. -/
def SelectsCurrent (w : World) : Action → Prop
  | .resume p .ok => ∀ x ∈ w.reselects p, SameMeters x.1.row x.2
  | _ => True

instance (w : World) (a : Action) : Decidable (w.SelectsCurrent a) :=
  match a with
  | .resume p .ok => inferInstanceAs (Decidable (∀ x ∈ w.reselects p, SameMeters x.1.row x.2))
  | .resume _ (.answer _) | .resume _ .fail | .resume _ (.cancel _ _) | .start _ _ | .admin _ | .tick _ =>
    inferInstanceAs (Decidable True)

/-- The copies that requests use have the meters of their rows. -/
structure Metered (w : World) : Prop where
  sound : w.Sound
  exclusive : w.ledger.Exclusive
  calling : w.Calling
  current : ∀ p copy, (w.requests p).pc.usesKey = true → (w.requests p).key = some copy →
    ∃ row, w.table.get? copy.id = some row ∧ SameMeters copy.row row

/-- What a step that charges a key nothing does to its meters. -/
theorem row_meter_stays (hs : w.Sound) (hw : w.Calling) (h : w.step rot a = some w')
    (ha : a.deletes = false) (hoff : ∀ u, w.commitsOn rot id a ≠ some (.usage u)) {row : ApiKey}
    (hrow : w.table.get? id = some row) :
    ∃ row', w'.table.get? id = some row' ∧ SameMeters row row' := by
  have hchange := step_change hs hw h id
  generalize w'.table.get? id = row' at hchange
  cases hchange with
  | keeps hno ha => exact ⟨row, hrow, fun _ => rfl⟩
  | restates r label status cooldownUntil updatedAt hno ha hr =>
    cases hrow.symm.trans hr
    exact ⟨_, rfl, fun win => by cases win <;> rfl⟩
  | creates keyHash keyPrefix keyEncrypted label ha hid =>
    rw [hid, Table.get?_nextId] at hrow
    cases hrow
  | deletes hdel =>
    rw [ha] at hdel
    cases hdel
  | resets ha =>
    rw [hrow]
    exact ⟨_, rfl, fun win => by cases win <;> rfl⟩
  | commits rec m copy r hon hcalls hr hcopy =>
    cases hrow.symm.trans hr
    cases rec with
    | update v => exact ⟨_, rfl, fun win => by cases win <;> rfl⟩
    | usage u => exact absurd hon (hoff u)

/-- A recorder that commits on a key is the one of the request that uses it. -/
theorem commitsOn_user {u : UsageCall} (h : w.commitsOn rot id a = some (.usage u)) :
    ∃ p ret copy, a.isTurnOf p = true ∧ (w.requests p).pc = .commit (.usage u) ret ∧
      (w.requests p).key = some copy ∧ copy.id = id := by
  cases a with
  | resume p ev =>
    obtain ⟨ret, copy, row, hpc, hkey, hid, -⟩ := commitsOn_resume h
    exact ⟨p, ret, copy, by simp [Action.isTurnOf], hpc, hkey, hid⟩
  | admin op =>
    cases op with
    | probe i seen code headers =>
      simp only [commitsOn] at h
      split_ifs at h
      obtain ⟨v, -, hv⟩ := Option.map_eq_some_iff.mp h
      cases hv
    | createKey keyHash keyPrefix keyEncrypted label => cases h
    | updateKey i seen label status => cases h
    | deleteKey i => cases h
    | resetKeyStates => cases h
  | start p kind => cases h
  | tick d => cases h

theorem Metered.step (hw : w.Metered) (h : w.step rot a = some w') (ha : a.deletes = false)
    (hsel : w.SelectsCurrent a) : w'.Metered := by
  refine ⟨step_sound hw.sound h, hw.exclusive.step (step_ledger hw.sound h),
    step_calling hw.sound hw.calling h, fun p copy hpc hkey => ?_⟩
  cases step_keyUse hw.sound h hpc hkey with
  | selects row hact htable hrow hvault hnew =>
    subst hact
    refine ⟨row, by rw [htable]; exact hrow, ?_⟩
    rcases hnew with hnew | hre
    · rw [hnew]
      exact fun win => rfl
    · exact hsel _ hre
  | answers huse hkey' htable =>
    obtain ⟨row, hrow, hsame⟩ := hw.current p copy huse hkey'
    exact ⟨row, by rw [htable]; exact hrow, hsame⟩
  | stays hturn hreq =>
    -- The row's meters move only with a commit of the key's user.
    rw [hreq] at hpc hkey
    obtain ⟨row, hrow, hsame⟩ := hw.current p copy hpc hkey
    have hoff : ∀ u, w.commitsOn rot copy.id a ≠ some (.usage u) := by
      intro u hon
      obtain ⟨q, ret, c, hq, hqpc, hqkey, hid⟩ := commitsOn_user hon
      have hpq := user_unique hw.sound hw.exclusive hpc hkey (by rw [hqpc]; rfl) hqkey hid.symm
      rw [hpq, hq] at hturn
      cases hturn
    obtain ⟨row', hrow', hstays⟩ := row_meter_stays hw.sound hw.calling h ha hoff hrow
    exact ⟨row', hrow', fun win => (hsame win).trans (hstays win)⟩

/-- Of a request whose copies are current, the calls fit. -/
theorem Metered.commitsCurrent (hw : w.Metered) : w.CommitsCurrent rot a := by
  intro id u p ret copy row hon hturn hpc hkey hid hrow win
  obtain ⟨row', hrow', hsame⟩ := hw.current p copy (by rw [hpc]; rfl) hkey
  rw [hid] at hrow'
  cases hrow.symm.trans hrow'
  exact Or.inl (hsame win)

/-- A step moves the meters of a key by what it charges. -/
theorem step_meter (hs : w.Sound) (hw : w.Calling) (h : w.step rot a = some w') (ha : a.deletes = false)
    (hcommit : w.CommitsCurrent rot a) (win : Window) :
    meter w'.table id win = (w.charges rot id a).foldl (Meter.charge win.length) (meter w.table id win) := by
  have hchange := step_change hs hw h id
  unfold meter charges
  generalize w'.table.get? id = row' at hchange
  cases hchange with
  | keeps hoff ha =>
    rw [hoff]
    rfl
  | restates row label status cooldownUntil updatedAt hoff ha hrow =>
    rw [hoff, hrow]
    cases win <;> rfl
  | creates keyHash keyPrefix keyEncrypted label ha hid =>
    subst ha
    rw [hid, Table.get?_nextId]
    cases win <;> rfl
  | deletes hdel =>
    rw [ha] at hdel
    cases hdel
  | resets ha =>
    subst ha
    cases w.table.get? id <;> cases win <;> rfl
  | commits rec m copy row hon hcalls hrow hcopy =>
    rw [hon, hrow]
    rcases hcopy with ⟨v, rfl⟩ | ⟨p, ret, c, hturn, hpc, hkey, hid, rfl⟩
    · cases win <;> rfl
    · cases rec with
      | update v => cases win <;> rfl
      | usage u => exact write_meter (hcommit id u p ret c row hon hturn hpc hkey hid hrow) win

theorem init_metered (t : KeyTable) (now : ℤ) : (init t now).Metered where
  sound := init_sound t now
  exclusive := init_exclusive t now
  calling := init_calling t now
  current _ _ h := by cases h

/-- In a run without deletions whose calls all commit with a copy that fits, the
meters of every key read the charges of their window. The calls do so where no
selection returns to a key with an outdated copy. -/
theorem meters_exact {t : KeyTable} {now : ℤ} {as : List Action}
    (hrun : run (step rot) (init t now) as = some w) (hdel : ∀ a ∈ as, a.deletes = false) :
    (Along (step rot) (CommitsCurrent rot) (init t now) as → ∀ id row win, w.table.get? id = some row →
      row.meter win = ((meter t id win).span win.length
        (outputs (step rot) (charges rot id) (init t now) as)).reading (meter t id win)) ∧
    (Along (step rot) SelectsCurrent (init t now) as →
      Along (step rot) (CommitsCurrent rot) (init t now) as) := by
  have hdel' : Along (step rot) (fun _ a => a.deletes = false) (init t now) as :=
    along_of_forall fun _ a ha => hdel a ha
  constructor
  · intro hcommit id row win hrow
    have hstep : ∀ (s : World) a s', s.Sound ∧ s.Calling → (a.deletes = false ∧ s.CommitsCurrent rot a) →
        s.step rot a = some s' →
        run (fun m c => some (Meter.charge win.length m c)) (meter s.table id win) (s.charges rot id a) =
          some (meter s'.table id win) :=
      fun _ _ _ hI hP h => by rw [run_some, step_meter hI.1 hI.2 h hP.1 hP.2 win]
    have hout := run_outputs
      (fun _ _ _ hI _ h => ⟨step_sound hI.1 h, step_calling hI.1 hI.2 h⟩) hstep
      ⟨init_sound t now, init_calling t now⟩ (hdel'.and hcommit) hrun
    rw [run_some, Meter.foldl_charge] at hout
    have hmeter : meter w.table id win = row.meter win := by
      rw [meter, hrow]
      rfl
    rw [← hmeter]
    exact (Option.some.inj hout).symm
  · intro hsel
    exact along_mono (fun _ _ _ hI hP h => hI.step h hP.1 hP.2) (fun _ _ hI _ => hI.commitsCurrent)
      (init_metered t now) (hdel'.and hsel)

end World

namespace Sample

/-- A 200 that used `n` prompt tokens. -/
def used (n : ℤ) : Upstream :=
  .response ⟨200, [], "{}", .ok (.dict [("usage", .dict [("prompt_tokens", .int n)])])⟩

/-- Two chat requests use the two keys at once, and a third one the first key
again. -/
def interleaved : List Action :=
  .start 0 chat :: oks 0 3 ++ .start 1 chat :: oks 1 3 ++ [.resume 1 (.answer (used 7)), .tick 1,
    .resume 0 (.answer (used 5))] ++ oks 1 1 ++ oks 0 1 ++ .start 2 chat :: oks 2 3 ++ [.resume 2 (.answer (used 3))] ++
    oks 2 1

theorem meters_exact_interleaved :
    let w := (run (World.step rotation) (World.init pool 0) interleaved).get (by decide)
    let row := (w.table.get? 1).get (by decide)
    let row' := (w.table.get? 2).get (by decide)
    row.meter .session = ⟨some 1, 8, 0⟩ ∧ row'.meter .weekly = ⟨some 0, 7, 0⟩ := by
  intro w row row'
  have hrun : run (World.step rotation) (World.init pool 0) interleaved = some w := (Option.some_get _).symm
  have hrow : w.table.get? 1 = some row := (Option.some_get _).symm
  have hrow' : w.table.get? 2 = some row' := (Option.some_get _).symm
  obtain ⟨hexact, hcurrent⟩ := World.meters_exact hrun (by decide)
  have hcommits := hcurrent (by decide)
  exact ⟨(hexact hcommits 1 row .session hrow).trans (by decide),
    (hexact hcommits 2 row' .weekly hrow').trans (by decide)⟩

end Sample

namespace World

/-- The request 0 tries the only key in vain. Then another one uses it for five
tokens, and request 0 comes back to it for seven. -/
def retried : List Action :=
  .start 0 Sample.chat :: Sample.oks 0 3 ++ [.resume 0 (.answer (Sample.reply 404))] ++
    .start 1 Sample.chat :: Sample.oks 1 3 ++ [.resume 1 (.answer (Sample.used 5))] ++ Sample.oks 1 1 ++
    Sample.oks 0 2 ++ [.resume 0 (.answer (Sample.used 7))] ++ Sample.oks 0 1

theorem retried_loses :
    ∃ w row, run (step patient) (init soleKey 0) retried = some w ∧ w.table.get? 1 = some row ∧
      outputs (step patient) (charges patient 1) (init soleKey 0) retried = [⟨0, 5, 0⟩, ⟨0, 7, 0⟩] ∧
      row.meter .session = ⟨some 0, 7, 0⟩ ∧
      row.meter .session ≠ ((meter soleKey 1 .session).span sessionWindow
        (outputs (step patient) (charges patient 1) (init soleKey 0) retried)).reading
          (meter soleKey 1 .session) := by
  let w := (run (step patient) (init soleKey 0) retried).get (by decide)
  let row := (w.table.get? 1).get (by decide)
  exact ⟨w, row, (Option.some_get _).symm, (Option.some_get _).symm, by decide, by decide, by decide⟩

end World

end OllamaProxy
