/-
# What is stored of a usage fetch

`_persist` sets the columns of the loaded copy, and the flush writes those whose
value has changed against the copy. A value that the snapshot repeats from the
copy is not written, and stays lost where another refresher has overwritten it
since. So a row may come to hold the time of one fetch and the models of
another one, and does so at a commit exactly if it is not `Undisturbed`. As long
as all commits are, every row holds what one fetch for its key brought
(`stored_whole`), and its text of the models reads back as them.

Key definitions: `ModelUsageRow.data`, `Written`, `Survives`,
`UsageStore.Undisturbed`, `UsageStore.Whole`.
Key theorems: `loads_dumpModels`, `written_persist_iff`, `stored_whole`.
-/
import OllamaProxy.UsagePersist
import OllamaProxy.Lib.JsonText

namespace OllamaProxy

open Kit JsonText

/-! ### The text of the models -/

/-- `m.model_dump()`. -/
def ModelUsageRow.data (row : ModelUsageRow) : Data :=
  .dict [("name".toList, .str row.name.toList), ("session_request_count".toList, .int row.sessionRequestCount),
    ("weekly_request_count".toList, .int row.weeklyRequestCount)]

theorem dumpChar_toList (c : Char) : (dumpChar c).toList = escape false c := by
  by_cases h : c.toNat < 32
  · have hall : ∀ n < 32, (dumpChar (Char.ofNat n)).toList = escape false (Char.ofNat n) := by decide
    rw [← Char.ofNat_toNat c]
    exact hall c.toNat h
  · have hcontrol : ∀ d : Char, d.toNat < 32 → c ≠ d := by
      rintro d hd rfl
      exact h hd
    have hnewline := hcontrol '\n' (by decide)
    have hreturn := hcontrol '\r' (by decide)
    have htab := hcontrol '\t' (by decide)
    have hback : c.toNat ≠ 8 := by omega
    have hfeed : c.toNat ≠ 12 := by omega
    unfold dumpChar escape shortEscape
    by_cases hquote : c = '"'
    · simp [hquote]
    by_cases hslash : c = '\\'
    · simp [hslash]
    simp [h, hnewline, hreturn, htab, hback, hfeed, hquote, hslash]

theorem dumpString_toList (s : String) : (dumpString s).toList = quote false s.toList := by
  have hjoin : ∀ l : List Char, (String.join (l.map dumpChar)).toList = l.flatMap (escape false) := by
    intro l
    induction l with
    | nil => rfl
    | cons c l ih =>
      rw [List.map_cons, String.join_cons, String.toList_append, ih, dumpChar_toList, List.flatMap_cons]
  rw [dumpString, String.toList_append, String.toList_append, hjoin]
  rfl

theorem toString_toList (n : ℤ) : (toString n).toList = decimal n := by
  cases n with
  | ofNat n => exact Nat.toList_repr
  | negSucc n =>
    show ("-" ++ Nat.repr (n + 1)).toList = _
    rw [String.toList_append, Nat.toList_repr]
    rfl

theorem dump_toList (row : ModelUsageRow) : row.dump.toList = render false row.data := by
  simp only [ModelUsageRow.dump, String.toList_append, dumpString_toList, toString_toList, ModelUsageRow.data, render,
    renderMembers, List.intercalate, List.intersperse]
  simp [quote, escape, shortEscape]

/-- The text is what `json.dumps` makes of the models' dicts. -/
theorem dumpModels_eq (rows : List ModelUsageRow) : dumpModels rows = dumps false (.list (rows.map (·.data))) := by
  have hjoin : ∀ ls : List String, (", ".intercalate ls).toList = [',', ' '].intercalate (ls.map String.toList) := by
    intro ls
    simp
  have hrows : rows.map (String.toList ∘ ModelUsageRow.dump) =
      rows.map (render false ∘ fun row => row.data) := List.map_congr_left fun row _ => dump_toList row
  have htext : (dumpModels rows).toList = render false (.list (rows.map (·.data))) := by
    rw [dumpModels, String.toList_append, String.toList_append, hjoin, List.map_map, hrows, render, renderItems_eq,
      List.map_map]
    rfl
  rw [dumps, ← htext, String.ofList_toList]

theorem distinct_data (row : ModelUsageRow) : row.data.Distinct := by
  refine ⟨?_, trivial, trivial, trivial, trivial⟩
  simp only [List.map_cons, List.map_nil]
  decide

/-- `json.loads` of the stored text gives the models. -/
theorem loads_dumpModels (rows : List ModelUsageRow) :
    loads (dumpModels rows) = some (.list (rows.map (·.data))) := by
  rw [dumpModels_eq, loads_dumps_iff]
  refine distinctItems_iff.mpr fun x hx => ?_
  obtain ⟨row, -, rfl⟩ := List.mem_map.mp hx
  exact distinct_data row

/-! ### A flush -/

/-- The copy's value is not repeated, or still in the row. -/
def Survives {β : Type} (copy new row : β) : Prop := new = copy → row = new

theorem netChange_survives_iff {β : Type} [DecidableEq β] {copy new row : β} :
    netChange copy new row = new ↔ Survives copy new row := by
  unfold netChange Survives
  split_ifs with h
  · exact ⟨fun hrow _ => hrow, fun hrow => hrow h⟩
  · exact ⟨fun _ he => absurd he h, fun _ => rfl⟩

/-- The columns hold the snapshot; a fraction that it lacks is left as it was. -/
structure Written (snapshot : KeyUsageSnapshot) (row : UsageColumns) : Prop where
  account : ∀ account, snapshot.account = some account → row.accountEmail = account.email ∧
    row.accountName = account.name ∧ row.accountPlan = account.plan ∧ row.accountId = account.accountId
  fetchAt : ∀ official, snapshot.official = some official → row.lastUsageFetchAt = some official.fetchedAt
  usage : ∀ official, snapshot.official = some official → row.lastUsageSession = some official.sessionUsage ∧
    row.lastUsageWeekly = some official.weeklyUsage ∧ row.lastUsageModelsJson = some (dumpModels official.models)
  fractions : ∀ official, snapshot.official = some official →
    (∀ x, official.sessionUsageFraction = some x → row.lastUsageSessionFraction = some x) ∧
      ∀ x, official.weeklyUsageFraction = some x → row.lastUsageWeeklyFraction = some x

/-- What the flush leaves out, the row has. -/
structure Kept (copy : UsageColumns) (snapshot : KeyUsageSnapshot) (row : UsageColumns) : Prop where
  account : ∀ account, snapshot.account = some account → Survives copy.accountEmail account.email row.accountEmail ∧
    Survives copy.accountName account.name row.accountName ∧ Survives copy.accountPlan account.plan row.accountPlan ∧
      Survives copy.accountId account.accountId row.accountId
  usage : ∀ official, snapshot.official = some official →
    Survives copy.lastUsageSession (some official.sessionUsage) row.lastUsageSession ∧
      Survives copy.lastUsageWeekly (some official.weeklyUsage) row.lastUsageWeekly ∧
        Survives copy.lastUsageModelsJson (some (dumpModels official.models)) row.lastUsageModelsJson
  fractions : ∀ official, snapshot.official = some official →
    (∀ x, official.sessionUsageFraction = some x →
      Survives copy.lastUsageSessionFraction (some x) row.lastUsageSessionFraction) ∧
      ∀ x, official.weeklyUsageFraction = some x →
        Survives copy.lastUsageWeeklyFraction (some x) row.lastUsageWeeklyFraction

/-- Nothing has been written since the copy was loaded. -/
theorem kept_self (snapshot : KeyUsageSnapshot) (row : UsageColumns) : Kept row snapshot row where
  account _ _ := ⟨Eq.symm, Eq.symm, Eq.symm, Eq.symm⟩
  usage _ _ := ⟨Eq.symm, Eq.symm, Eq.symm⟩
  fractions _ _ := ⟨fun _ _ => Eq.symm, fun _ _ => Eq.symm⟩

section

variable {copy : UsageColumns} {snapshot : KeyUsageSnapshot} {row : UsageColumns}

theorem persist_account {account : AccountInfo} (h : snapshot.account = some account) :
    (persist copy snapshot row).accountEmail = netChange copy.accountEmail account.email row.accountEmail ∧
      (persist copy snapshot row).accountName = netChange copy.accountName account.name row.accountName ∧
      (persist copy snapshot row).accountPlan = netChange copy.accountPlan account.plan row.accountPlan ∧
      (persist copy snapshot row).accountId = netChange copy.accountId account.accountId row.accountId := by
  unfold persist
  rw [h]
  cases snapshot.official <;> exact ⟨rfl, rfl, rfl, rfl⟩

theorem persist_usage {official : OfficialUsage} (h : snapshot.official = some official) :
    (persist copy snapshot row).lastUsageSession =
        netChange copy.lastUsageSession (some official.sessionUsage) row.lastUsageSession ∧
      (persist copy snapshot row).lastUsageWeekly =
        netChange copy.lastUsageWeekly (some official.weeklyUsage) row.lastUsageWeekly ∧
      (persist copy snapshot row).lastUsageModelsJson =
        netChange copy.lastUsageModelsJson (some (dumpModels official.models)) row.lastUsageModelsJson := by
  unfold persist
  rw [h]
  cases snapshot.account <;> exact ⟨rfl, rfl, rfl⟩

theorem persist_fractions {official : OfficialUsage} (h : snapshot.official = some official) :
    (∀ x, official.sessionUsageFraction = some x → (persist copy snapshot row).lastUsageSessionFraction =
        netChange copy.lastUsageSessionFraction (some x) row.lastUsageSessionFraction) ∧
      ∀ x, official.weeklyUsageFraction = some x → (persist copy snapshot row).lastUsageWeeklyFraction =
        netChange copy.lastUsageWeeklyFraction (some x) row.lastUsageWeeklyFraction := by
  unfold persist
  rw [h]
  cases snapshot.account <;> exact ⟨fun x hx => by simp [hx], fun x hx => by simp [hx]⟩

/-- A flush leaves the snapshot in the row exactly if what it leaves out is there. -/
theorem written_persist_iff : Written snapshot (persist copy snapshot row) ↔ Kept copy snapshot row := by
  constructor
  · intro h
    refine ⟨fun account ha => ?_, fun official ho => ?_, fun official ho => ⟨fun x hx => ?_, fun x hx => ?_⟩⟩
    · have hcolumns := h.account account ha
      rwa [(persist_account ha).1, (persist_account ha).2.1, (persist_account ha).2.2.1, (persist_account ha).2.2.2,
        netChange_survives_iff, netChange_survives_iff, netChange_survives_iff, netChange_survives_iff] at hcolumns
    · have hcolumns := h.usage official ho
      rwa [(persist_usage ho).1, (persist_usage ho).2.1, (persist_usage ho).2.2, netChange_survives_iff,
        netChange_survives_iff, netChange_survives_iff] at hcolumns
    · have hcolumn := (h.fractions official ho).1 x hx
      rwa [(persist_fractions ho).1 x hx, netChange_survives_iff] at hcolumn
    · have hcolumn := (h.fractions official ho).2 x hx
      rwa [(persist_fractions ho).2 x hx, netChange_survives_iff] at hcolumn
  · intro h
    refine ⟨fun account ha => ?_, fun official ho => ?_, fun official ho => ?_,
      fun official ho => ⟨fun x hx => ?_, fun x hx => ?_⟩⟩
    · rw [(persist_account ha).1, (persist_account ha).2.1, (persist_account ha).2.2.1, (persist_account ha).2.2.2,
        netChange_survives_iff, netChange_survives_iff, netChange_survives_iff, netChange_survives_iff]
      exact h.account account ha
    · rw [persist_lastUsageFetchAt, ho]
      rfl
    · rw [(persist_usage ho).1, (persist_usage ho).2.1, (persist_usage ho).2.2, netChange_survives_iff,
        netChange_survives_iff, netChange_survives_iff]
      exact h.usage official ho
    · rw [(persist_fractions ho).1 x hx, netChange_survives_iff]
      exact (h.fractions official ho).1 x hx
    · rw [(persist_fractions ho).2 x hx, netChange_survives_iff]
      exact (h.fractions official ho).2 x hx

end

/-! ### Answered calls -/

/-- A call that has returned `ok` has both parts of a snapshot. -/
def SnapshotCall.Answered (c : SnapshotCall) : Prop :=
  ∀ snap source, c.pc = .done snap source → snap.upstreamStatus = .ok →
    ∃ account official, snap.account = some account ∧ snap.official = some official

namespace Usage

variable {lib : UsageLibrary} {s s' : Usage} {a : Action}

theorem answered_of_isOver {c : SnapshotCall} (h : c.pc.isOver = false) : c.Answered := by
  intro snap source hpc
  rw [hpc] at h
  cases h

theorem answered_toResponse (id : ℕ) (apiKey : ApiKey) (force : Bool) (snap : UsageSnapshot) (i : ℕ)
    (key : ApiKey) (status : UpstreamStatus) (error source : Option String) :
    (⟨id, apiKey, force, .done (snap.toResponse i key status error) source⟩ : SnapshotCall).Answered := by
  intro snap' source' hpc _
  cases hpc
  exact ⟨snap.account, snap.official, rfl, rfl⟩

theorem step_answered (hs : ∀ p, (s.calls p).Answered) (h : s.step lib a = some s') (p : ℕ) :
    (s'.calls p).Answered := by
  -- a step of call `q` does not touch the other calls
  have hself : ∀ {q x}, (({ s.calls q with pc := x.2 } : SnapshotCall).Answered) → ((s.put q x).calls p).Answered := by
    intro q x hx
    by_cases hq : p = q
    · rw [hq, put_calls_self]
      exact hx
    · rw [put_calls_of_ne hq]
      exact hs p
  have hupdate : ∀ {q} {c : SnapshotCall}, c.Answered → (Function.update s.calls q c p).Answered := by
    intro q c hc
    by_cases hq : p = q
    · rw [hq, Function.update_self]
      exact hc
    · rw [Function.update_of_ne hq]
      exact hs p
  cases step_moves h with
  | served q id apiKey entry hidle hentry => exact hupdate (answered_toResponse _ _ _ _ _ _ _ _ _)
  | waits q id apiKey force hidle => exact hupdate (answered_of_isOver rfl)
  | servedInside q entry hqueued hentry => exact hself (answered_toResponse _ _ _ _ _ _ _ _ _)
  | undecryptable q inner hqueued hvault =>
    refine hself fun snap source hpc hok => ?_
    cases hpc
    cases hok
  | begins q rawKey hqueued hlock hstale hvault => exact hself (answered_of_isOver rfl)
  | goesOn q r rawKey account hpc hreply => exact hself (answered_of_isOver rfl)
  | stores q r rawKey account snap hpc hsnap => exact hself (answered_toResponse _ _ _ _ _ _ _ _ _)
  | fails q r fault hfault => exact hself fun snap source hpc hok => absurd hok (failed_ne_ok hpc)
  | hangsUp q hqueued => exact hself fun snap source hpc => by cases hpc
  | aborts q hfetching => exact hself fun snap source hpc => by cases hpc
  | tick d => exact hs p

/-- A call that has returned stays as it is. -/
theorem step_done {p : ℕ} {snap : KeyUsageSnapshot} {source : Option String} (h : s.step lib a = some s')
    (hpc : (s.calls p).pc = .done snap source) : s'.calls p = s.calls p := by
  cases step_call h p with
  | keeps hcall => exact hcall
  | starts id apiKey force ha hidle => simp [hpc] at hidle
  | begins rawKey hqueued => simp [hpc] at hqueued
  | goesOn rawKey account haccount => simp [hpc] at haccount
  | ends pc hidle hover => simp [hpc, SnapshotPc.isOver] at hover

/-- A call that has started keeps its key. -/
theorem step_id {p : ℕ} (h : s.step lib a = some s') (hp : (s.calls p).pc ≠ .idle) :
    (s'.calls p).id = (s.calls p).id := by
  cases step_call h p with
  | keeps hcall => rw [hcall]
  | starts id apiKey force ha hidle => exact absurd hidle hp
  | begins rawKey hqueued hvault hcall => rw [hcall]
  | goesOn rawKey account hpc hcall => rw [hcall]
  | ends pc hidle hover hpc hcall => rw [hcall]

end Usage

/-! ### A commit -/

namespace UsageStore

/-- The snapshot that is written for a key. -/
def writes (s : UsageStore) (k : KeyRefresh) : Option KeyUsageSnapshot :=
  match (s.usage.calls k.call).pc with
  | .done snap _ => if snap.upstreamStatus = .ok then some snap else none
  | _ => none

/-- A commit leaves in each of its rows what it has fetched for the row. -/
def WritesWhole (s : UsageStore) : Action → Prop
  | .commit r => ∀ keys, s.refreshers r = .fetching keys → ∀ k ∈ keys, ∀ snap, s.writes k = some snap →
      ∀ row, (keys.foldl s.persistKey s.rows).get? k.id = some row → Written snap row.usage
  | _ => True

/-- What a commit repeats from its copies, the rows still have. -/
def Undisturbed (s : UsageStore) : Action → Prop
  | .commit r => ∀ keys, s.refreshers r = .fetching keys → ∀ k ∈ keys, ∀ snap, s.writes k = some snap →
      ∀ row, s.rows.get? k.id = some row → Kept k.row.usage snap row.usage
  | _ => True

/-- A row that has been written holds what one fetch for its key brought, and its
text of the models reads back as them. -/
def Whole (s : UsageStore) : Prop :=
  ∀ id row, s.rows.get? id = some row → row.usage.lastUsageFetchAt ≠ none →
    ∃ p snap source official, (s.usage.calls p).pc = .done snap source ∧ (s.usage.calls p).id = id ∧
      snap.official = some official ∧ Written snap row.usage ∧
        row.usage.lastUsageModelsJson.bind loads = some (.list (official.models.map (·.data)))

/-- The calls of a refresher are for its keys, and those that have returned `ok`
have both parts. -/
structure Bound (s : UsageStore) : Prop where
  answered : ∀ p, (s.usage.calls p).Answered
  ids : ∀ r keys, s.refreshers r = .fetching keys → ∀ k ∈ keys, (s.usage.calls k.call).id = k.id

variable {lib : UsageLibrary} {s s' : UsageStore} {a : Action} {t : Table KeyRow} {k : KeyRefresh}
  {keys : List KeyRefresh} {id : ℕ}

theorem writes_eq_some_iff {snap : KeyUsageSnapshot} : s.writes k = some snap ↔
    ∃ source, (s.usage.calls k.call).pc = .done snap source ∧ snap.upstreamStatus = .ok := by
  unfold writes
  cases hpc : (s.usage.calls k.call).pc with
  | done snap' source =>
    simp only [Option.ite_none_right_eq_some, Option.some.injEq, SnapshotPc.done.injEq]
    constructor
    · rintro ⟨hok, rfl⟩
      exact ⟨source, ⟨rfl, rfl⟩, hok⟩
    · rintro ⟨source', ⟨rfl, rfl⟩, hok⟩
      exact ⟨hok, rfl⟩
  | _ => simp

/-- What the write of a key makes of its row. -/
def persistRow (s : UsageStore) (k : KeyRefresh) (row : KeyRow) : KeyRow :=
  match s.writes k with
  | some snap => ⟨{ row.apiKey with updatedAt := s.usage.utcnow }, persist k.row.usage snap row.usage⟩
  | none => row

theorem get?_persistKey (s : UsageStore) (t : Table KeyRow) (k : KeyRefresh) :
    (s.persistKey t k).get? k.id = (t.get? k.id).map (s.persistRow k) := by
  have hid : (t.get? k.id).map (fun row => row) = t.get? k.id := by simp
  unfold persistKey persistRow writes
  cases (s.usage.calls k.call).pc with
  | done snap source =>
    simp only
    split_ifs
    · exact Table.get?_modify_self _ _ _
    · exact hid.symm
  | _ => exact hid.symm

theorem get?_persistKey_of_ne (s : UsageStore) (t : Table KeyRow) (h : k.id ≠ id) :
    (s.persistKey t k).get? id = t.get? id := by
  unfold persistKey
  split
  · split_ifs
    · exact Table.get?_modify_of_ne t (Ne.symm h) _
    · rfl
  · rfl

theorem get?_persistKeys_of_not_mem (h : ∀ k ∈ keys, k.id ≠ id) :
    (keys.foldl s.persistKey t).get? id = t.get? id := by
  induction keys generalizing t with
  | nil => rfl
  | cons k keys ih =>
    obtain ⟨hk, hkeys⟩ := List.forall_mem_cons.mp h
    rw [List.foldl_cons, ih hkeys, get?_persistKey_of_ne s t hk]

theorem get?_persistKeys (hnodup : (keys.map (·.id)).Nodup) (hk : k ∈ keys) :
    (keys.foldl s.persistKey t).get? k.id = (t.get? k.id).map (s.persistRow k) := by
  induction keys generalizing t with
  | nil => cases hk
  | cons k' keys ih =>
    rw [List.map_cons, List.nodup_cons] at hnodup
    obtain ⟨hnot, hrest⟩ := hnodup
    rw [List.foldl_cons]
    rcases List.mem_cons.mp hk with rfl | hk
    · have hothers : ∀ k'' ∈ keys, k''.id ≠ k.id := fun k'' hk'' he => hnot (he ▸ List.mem_map_of_mem hk'')
      rw [get?_persistKeys_of_not_mem hothers, get?_persistKey]
    · have hne : k'.id ≠ k.id := fun he => hnot (he ▸ List.mem_map_of_mem hk)
      rw [ih hrest hk, get?_persistKey_of_ne s t hne]

/-- A commit leaves what it has fetched exactly if it is undisturbed. -/
theorem writesWhole_iff (hs : s.Sound) : s.WritesWhole a ↔ s.Undisturbed a := by
  cases a with
  | commit r =>
    refine forall_congr' fun keys => forall_congr' fun hr => forall_congr' fun k => forall_congr' fun hk =>
      forall_congr' fun snap => forall_congr' fun hsnap => ?_
    rw [get?_persistKeys (hs.keys r keys hr).1 hk]
    constructor
    · intro h row hrow
      have hwritten := h (s.persistRow k row) (by rw [hrow]; rfl)
      rw [persistRow, hsnap] at hwritten
      exact written_persist_iff.mp hwritten
    · intro h row hrow
      obtain ⟨row', hrow', rfl⟩ := Option.map_eq_some_iff.mp hrow
      rw [persistRow, hsnap]
      exact written_persist_iff.mpr (h row' hrow')
  | _ => exact Iff.rfl

/-! ### Runs -/

theorem run_fetch_id {u u' : Usage} (h : run (Usage.step lib) u (keys.map KeyRefresh.fetch) = some u') (hk : k ∈ keys) :
    (u'.calls k.call).id = k.id := by
  induction keys generalizing u with
  | nil => cases hk
  | cons k' keys ih =>
    obtain ⟨u1, h1, h2⟩ := run_cons_iff.mp h
    rcases List.mem_cons.mp hk with rfl | hk
    · obtain ⟨-, hcalls, -⟩ := Usage.step_force h1
      have hself : u1.calls k.call = ⟨k.id, k.row.apiKey, true, .queued⟩ := by rw [hcalls, Function.update_self]
      rw [(run_fetch h2).1 k.call (by rw [hself]; simp), hself]
    · exact ih h2 hk

theorem step_bound (hs : s.Sound) (hb : s.Bound) (h : s.step lib a = some s') : s'.Bound := by
  cases step_moves h with
  | call a u hu =>
    refine ⟨Usage.step_answered hb.answered hu, fun r keys hr k hk => ?_⟩
    exact (Usage.step_id hu ((hs.keys r keys hr).2 k hk).started).trans (hb.ids r keys hr k hk)
  | starts r keys u ha hnodup hpresent hu =>
    have hanswered : ∀ p, (u.calls p).Answered :=
      run_inv' (I := fun u => ∀ p, (u.calls p).Answered) (fun _ _ _ hI hstep => Usage.step_answered hI hstep)
        hb.answered hu
    refine ⟨hanswered, fun r' keys' hr' k hk => ?_⟩
    rcases fetching_update hr' with ⟨-, hr⟩ | ⟨-, hr⟩
    · show (u.calls k.call).id = k.id
      rw [(run_fetch hu).1 k.call ((hs.keys r' keys' hr).2 k hk).started]
      exact hb.ids r' keys' hr k hk
    · cases hr
      exact run_fetch_id hu hk
  | commits r keys hr =>
    refine ⟨hb.answered, fun r' keys' hr' => ?_⟩
    rcases fetching_update hr' with ⟨-, hr⟩ | ⟨-, hr⟩
    · exact hb.ids r' keys' hr
    · cases hr
  | fails r =>
    refine ⟨hb.answered, fun r' keys' hr' => ?_⟩
    rcases fetching_update hr' with ⟨-, hr⟩ | ⟨-, hr⟩
    · exact hb.ids r' keys' hr
    · cases hr
  | other id apiKey => exact ⟨hb.answered, hb.ids⟩

/-- A row that is whole stays so while its columns and the calls that have
returned stay. -/
theorem Whole.stays (hw : s.Whole)
    (hrows : ∀ id row', s'.rows.get? id = some row' → ∃ row, s.rows.get? id = some row ∧ row.usage = row'.usage)
    (hcalls : ∀ p snap source, (s.usage.calls p).pc = .done snap source → s'.usage.calls p = s.usage.calls p) :
    s'.Whole := by
  intro id row' hrow' hfetch
  obtain ⟨row, hrow, husage⟩ := hrows id row' hrow'
  rw [← husage] at hfetch ⊢
  obtain ⟨p, snap, source, official, hpc, hid, hofficial, hwritten, hread⟩ := hw id row hrow hfetch
  have hcall := hcalls p snap source hpc
  exact ⟨p, snap, source, official, hcall ▸ hpc, hcall ▸ hid, hofficial, hwritten, hread⟩

/-- An undisturbed commit. -/
theorem commit_whole (hs : s.Sound) (hb : s.Bound) (hw : s.Whole) {r : ℕ} (hr : s.refreshers r = .fetching keys)
    (hp : s.Undisturbed (.commit r)) {row : KeyRow} (hrow : (keys.foldl s.persistKey s.rows).get? id = some row)
    (hfetch : row.usage.lastUsageFetchAt ≠ none) :
    ∃ p snap source official, (s.usage.calls p).pc = .done snap source ∧ (s.usage.calls p).id = id ∧
      snap.official = some official ∧ Written snap row.usage ∧
        row.usage.lastUsageModelsJson.bind loads = some (.list (official.models.map (·.data))) := by
  by_cases hid : ∃ k ∈ keys, k.id = id
  · obtain ⟨k, hk, rfl⟩ := hid
    cases hsnap : s.writes k with
    | some snap =>
      have hwritten := (writesWhole_iff hs).mpr hp keys hr k hk snap hsnap row hrow
      obtain ⟨source, hpc, hok⟩ := writes_eq_some_iff.mp hsnap
      obtain ⟨account, official, -, hofficial⟩ := hb.answered k.call snap source hpc hok
      refine ⟨k.call, snap, source, official, hpc, hb.ids r keys hr k hk, hofficial, hwritten, ?_⟩
      rw [(hwritten.usage official hofficial).2.2]
      exact loads_dumpModels official.models
    | none =>
      rw [get?_persistKeys (hs.keys r keys hr).1 hk] at hrow
      obtain ⟨row', hrow', rfl⟩ := Option.map_eq_some_iff.mp hrow
      have hsame : s.persistRow k row' = row' := by rw [persistRow, hsnap]
      rw [hsame] at hfetch ⊢
      exact hw k.id row' hrow' hfetch
  · rw [get?_persistKeys_of_not_mem fun k hk he => hid ⟨k, hk, he⟩] at hrow
    exact hw id row hrow hfetch

theorem step_whole (hs : s.Sound) (hb : s.Bound) (hw : s.Whole) (hp : s.Undisturbed a) (h : s.step lib a = some s') :
    s'.Whole := by
  cases step_moves h with
  | call a u hu => exact hw.stays (fun id row' hrow => ⟨row', hrow, rfl⟩) fun p snap source => Usage.step_done hu
  | starts r keys u ha hnodup hpresent hu =>
    refine hw.stays (fun id row' hrow => ⟨row', hrow, rfl⟩) fun p snap source hpc => ?_
    exact (run_fetch hu).1 p (by rw [hpc]; simp)
  | commits r keys hr => exact fun id row hrow hfetch => commit_whole hs hb hw hr hp hrow hfetch
  | fails r => exact hw.stays (fun id row' hrow => ⟨row', hrow, rfl⟩) fun _ _ _ _ => rfl
  | other i apiKey =>
    refine hw.stays (fun id row' hrow => ?_) fun _ _ _ _ => rfl
    change (s.rows.modify i fun row => { row with apiKey := apiKey }).get? id = some row' at hrow
    rw [Table.get?_modify] at hrow
    split_ifs at hrow with hi
    · obtain ⟨row, hold, rfl⟩ := Option.map_eq_some_iff.mp hrow
      exact ⟨row, hi ▸ hold, rfl⟩
    · exact ⟨row', hrow, rfl⟩

/-- **A stored row is of one fetch.** The commits of a run leave in their rows
what they have fetched for them exactly if what each repeats from its copies is
still in the rows. Then every row that was ever written holds the snapshot of
one fetch for its key, and the models read back from it. -/
theorem stored_whole {rows : Table KeyRow} {ttlSeconds now utcnow : ℤ} {as : List Action}
    (hnew : ∀ id row, rows.get? id = some row → row.usage.lastUsageFetchAt = none)
    (hrun : run (step lib) (init rows ttlSeconds now utcnow) as = some s) :
    (Along (step lib) WritesWhole (init rows ttlSeconds now utcnow) as ↔
      Along (step lib) Undisturbed (init rows ttlSeconds now utcnow) as) ∧
    (Along (step lib) Undisturbed (init rows ttlSeconds now utcnow) as → s.Whole) := by
  have hsound : (init rows ttlSeconds now utcnow).Sound := by
    refine init_sound fun id x hx => ?_
    obtain ⟨row, hrow, hx⟩ := Option.bind_eq_some_iff.mp hx
    rw [hnew id row hrow] at hx
    cases hx
  have hbound : (init rows ttlSeconds now utcnow).Bound :=
    ⟨fun p => Usage.answered_of_isOver rfl, fun r keys hr => by cases hr⟩
  have hwhole : (init rows ttlSeconds now utcnow).Whole := fun id row hrow hfetch => absurd (hnew id row hrow) hfetch
  refine ⟨along_congr (I := Sound) (fun _ _ _ => step_sound) (fun _ _ _ hs _ => writesWhole_iff hs) hsound hrun,
    fun halong => ?_⟩
  exact (run_inv (I := fun s => s.Sound ∧ s.Bound ∧ s.Whole)
    (fun _ _ _ hI hp h => ⟨step_sound hI.1 h, step_bound hI.1 hI.2.1 h, step_whole hI.1 hI.2.1 hI.2.2 hp h⟩)
    ⟨hsound, hbound, hwhole⟩ halong hrun).2.2

theorem undisturbed_of_not_commit (h : a.isCommit = false) : s.Undisturbed a := by
  cases a with
  | commit r => cases h
  | _ => trivial

/-- A commit over the rows as they were loaded. -/
theorem undisturbed_of_loaded {r : ℕ} (hr : s.refreshers r = .fetching keys)
    (h : ∀ k ∈ keys, (s.rows.get? k.id).map (·.usage) = some k.row.usage) : s.Undisturbed (.commit r) := by
  intro keys' hr' k hk snap _ row hrow
  cases hr.symm.trans hr'
  have hloaded := h k hk
  rw [hrow] at hloaded
  rw [← Option.some.inj hloaded]
  exact kept_self snap row.usage

namespace Sample

theorem stored_whole_inTurn :
    ((run (step Usage.Sample.library) (init rows 300 0 0) (first ++ [.commit 0] ++ (second ++ [.commit 1]))).map
        fun s => (s.rows.get? 1).map (·.usage.lastUsageFetchAt)) = some (some (some 5)) ∧
      ∀ s, run (step Usage.Sample.library) (init rows 300 0 0) (first ++ [.commit 0] ++ (second ++ [.commit 1])) =
        some s → s.Whole := by
  have hnew : ∀ id row, rows.get? id = some row → row.usage.lastUsageFetchAt = none := by
    intro id row hrow
    unfold rows at hrow
    rw [Table.get?_insert, Table.get?_insert] at hrow
    split_ifs at hrow
    · cases hrow
      rfl
    · cases hrow
      rfl
    · cases hrow
  let s₁ := (run (step Usage.Sample.library) (init rows 300 0 0) first).get (by decide)
  let s₂ := (s₁.step Usage.Sample.library (.commit 0)).get (by decide)
  let s₃ := (run (step Usage.Sample.library) s₂ second).get (by decide)
  have h₁ : run (step Usage.Sample.library) (init rows 300 0 0) first = some s₁ := (Option.some_get _).symm
  have h₂ : run (step Usage.Sample.library) (init rows 300 0 0) (first ++ [.commit 0]) = some s₂ :=
    run_concat_iff.mpr ⟨s₁, h₁, (Option.some_get _).symm⟩
  have h₃ : run (step Usage.Sample.library) s₂ second = some s₃ := (Option.some_get _).symm
  have hloaded₁ : s₁.Undisturbed (.commit 0) := undisturbed_of_loaded rfl (by decide)
  have hloaded₃ : s₃.Undisturbed (.commit 1) := undisturbed_of_loaded rfl (by decide)
  have hcalls : ∀ {as : List Action} (s : UsageStore), as.all (!·.isCommit) = true → ∀ a ∈ as, s.Undisturbed a :=
    fun s hno a ha => undisturbed_of_not_commit (by simpa using List.all_eq_true.mp hno a ha)
  have hundisturbed : Along (step Usage.Sample.library) Undisturbed (init rows 300 0 0)
      (first ++ [.commit 0] ++ (second ++ [.commit 1])) := by
    rw [along_append h₂, along_append h₁, along_append h₃]
    refine ⟨⟨along_of_forall fun s a ha => ?_, hloaded₁, ?_⟩, along_of_forall fun s a ha => ?_, hloaded₃, ?_⟩
    · exact hcalls s (by decide) a ha
    · split <;> trivial
    · exact hcalls s (by decide) a ha
    · split <;> trivial
  exact ⟨by decide +kernel, fun s hrun => (stored_whole hnew hrun).2 hundisturbed⟩

def email (name : String) : UsageReply := .response ⟨200, [], "", .ok (.dict [("Email", .str name)])⟩

/-- Call `p` is answered for the account. -/
def answered (p : ℕ) (name : String) : List Action :=
  [.call (.enter p), .call (.reply p (email name)), .call (.reply p Usage.Sample.answer)]

/-- Two refreshers load the account x of key 1. One fetches y and commits, then
the other one fetches x again. -/
def torn : List Action :=
  .refreshKey 0 1 0 :: answered 0 "x" ++ [.commit 0, .refreshKey 1 1 1, .refreshKey 2 1 2] ++ answered 2 "y" ++
    [.commit 2, .call (.tick 5)] ++ answered 1 "x"

/-- The later fetch says x; its time is stored with y. -/
theorem torn_email :
    ((run (step Usage.Sample.library) (init rows 300 0 0) torn).bind fun s =>
      (s.step Usage.Sample.library (.commit 1)).map fun s' =>
        ((s.writes ⟨1, 1, row "a"⟩).map fun snap => snap.account.map (·.email),
          (s'.rows.get? 1).map fun row => (row.usage.lastUsageFetchAt, row.usage.accountEmail))) =
      some (some (some (some "x")), some (some 5, some "y")) := by
  decide +kernel

end Sample

end UsageStore

end OllamaProxy
