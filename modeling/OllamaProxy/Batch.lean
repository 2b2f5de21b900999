/-
# Batches, while keys are deleted

`probe_all_active` and `refresh_all_active` load the active rows, wait for the
upstream calls of all of them, and write what came back. An admin operation may
delete keys while they wait. A write to a row that is gone raises and rolls its
transaction back: the loop over the probes ends there, and the refresh has one
transaction for all keys.

A key that is left has the row that it would have alone exactly if no call
raised, and of the keys before it no classification did and none that was
deleted has anything to record (`ProbeKept`); and, for the refresh, if no
deleted key was fetched and no usage is beyond its column
(`batches_isolated_iff`).

Key definitions: `Batch.step`, `probeFinish`, `refreshFinish`, `ProbeKept`.
Key theorems: `Batch.run_pending`, `probes_isolated_iff`,
`refresh_isolated_iff`, `batches_isolated_iff`.
-/
import OllamaProxy.Probe
import OllamaProxy.UsagePersist

namespace OllamaProxy

open Kit

/-! ### A batch -/

/-- A batch with the rows it has loaded, and the keys whose upstream calls it
waits for. -/
structure Batch (ρ α : Type) where
  rows : Table ρ
  keys : List (ℕ × ρ)
  waiting : List ℕ
  answers : ℕ → Option α

namespace Batch

variable {ρ α : Type}

/-- The call for a key returns, or an admin operation deletes a key. -/
inductive Action (α : Type)
  | answer (id : ℕ) (a : α)
  | delete (id : ℕ)

/-- The keys that the actions delete. -/
def deletions (as : List (Action α)) : List ℕ :=
  as.filterMap fun
    | .delete id => some id
    | .answer _ _ => none

/-- What upstream answers. -/
def answersOf (as : List (Action α)) : ℕ → Option α :=
  as.foldl (fun answers a =>
    match a with
    | .answer id x => Function.update answers id (some x)
    | .delete _ => answers) fun _ => none

section

variable (finish : List (ℕ × ρ) → (ℕ → Option α) → Table ρ → Table ρ)

/-- After the last call the batch writes. -/
def settle (s : Batch ρ α) : Batch ρ α :=
  if s.waiting = [] then { s with rows := finish s.keys s.answers s.rows } else s

def start (rows : Table ρ) (keys : List (ℕ × ρ)) (calls : List ℕ) : Batch ρ α :=
  settle finish ⟨rows, keys, calls, fun _ => none⟩

def step (s : Batch ρ α) : Action α → Option (Batch ρ α)
  | .answer id a =>
    if id ∈ s.waiting then
      some (settle finish
        { s with waiting := s.waiting.erase id, answers := Function.update s.answers id (some a) })
    else none
  | .delete id => if s.waiting = [] then none else some { s with rows := s.rows.erase id }

end

/-- The rows without those that were deleted, as long as the batch waits, and what
it makes of them when it does not. -/
structure Pending (finish : List (ℕ × ρ) → (ℕ → Option α) → Table ρ → Table ρ) (rows : Table ρ)
    (keys : List (ℕ × ρ)) (as : List (Action α)) (s : Batch ρ α) (left : Table ρ) : Prop where
  left_eq : ∀ id, left.get? id = if id ∈ deletions as then none else rows.get? id
  keys_eq : s.keys = keys
  answers_eq : s.answers = answersOf as
  rows_eq : s.rows = if s.waiting = [] then finish keys s.answers left else left

variable {finish : List (ℕ × ρ) → (ℕ → Option α) → Table ρ → Table ρ} {rows left : Table ρ} {keys : List (ℕ × ρ)}
  {calls : List ℕ} {as : List (Action α)} {a : Action α} {s s' : Batch ρ α}

theorem settle_rows (s : Batch ρ α) :
    (settle finish s).rows = if (settle finish s).waiting = [] then finish s.keys s.answers s.rows else s.rows := by
  unfold settle
  by_cases h : s.waiting = []
  · rw [if_pos h, if_pos h]
  · rw [if_neg h, if_neg h]

theorem settle_keys (s : Batch ρ α) : (settle finish s).keys = s.keys := by
  unfold settle
  split_ifs <;> rfl

theorem settle_answers (s : Batch ρ α) : (settle finish s).answers = s.answers := by
  unfold settle
  split_ifs <;> rfl

theorem deletions_concat (as : List (Action α)) (a : Action α) :
    deletions (as ++ [a]) = deletions as ++ deletions [a] := List.filterMap_append

theorem answersOf_concat (as : List (Action α)) (a : Action α) : answersOf (as ++ [a]) =
    match a with
    | .answer id x => Function.update (answersOf as) id (some x)
    | .delete _ => answersOf as := by
  unfold answersOf
  rw [List.foldl_append]
  rfl

theorem step_pending (hs : Pending finish rows keys as s left) (h : step finish s a = some s') :
    ∃ left', Pending finish rows keys (as ++ [a]) s' left' := by
  cases a with
  | answer id x =>
    simp only [step, Option.ite_none_right_eq_some] at h
    obtain ⟨hwaits, h⟩ := h
    have hne : s.waiting ≠ [] := List.ne_nil_of_mem hwaits
    have hrows : s.rows = left := by rw [hs.rows_eq, if_neg hne]
    cases h
    refine ⟨left, ?_, ?_, ?_, ?_⟩
    · rw [deletions_concat]
      simpa [deletions] using hs.left_eq
    · rw [settle_keys]
      exact hs.keys_eq
    · rw [settle_answers, answersOf_concat, ← hs.answers_eq]
    · rw [settle_rows, settle_answers]
      simp only [hs.keys_eq, hrows]
  | delete id =>
    simp only [step, Option.ite_none_left_eq_some] at h
    obtain ⟨hne, h⟩ := h
    have hrows : s.rows = left := by rw [hs.rows_eq, if_neg hne]
    cases h
    refine ⟨left.erase id, fun i => ?_, hs.keys_eq, ?_, ?_⟩
    · rw [deletions_concat, Table.get?_erase, hs.left_eq]
      by_cases hi : i = id
      · simp [deletions, hi]
      · simp [deletions, hi]
    · rw [answersOf_concat]
      exact hs.answers_eq
    · rw [if_neg hne, hrows]

theorem run_pending (hrun : run (step finish) (start finish rows keys calls) as = some s) :
    ∃ left, Pending finish rows keys as s left := by
  induction as using List.reverseRecOn generalizing s with
  | nil =>
    cases hrun
    exact ⟨rows, fun id => rfl, settle_keys _, settle_answers _, by rw [start, settle_rows, settle_answers]⟩
  | append_singleton as a ih =>
    obtain ⟨s1, hrun1, hstep⟩ := run_concat_iff.mp hrun
    obtain ⟨left, hs1⟩ := ih hrun1
    exact step_pending hs1 hstep

/-- A batch that is over has written to the rows that were left. -/
theorem run_rows (hrun : run (step finish) (start finish rows keys calls) as = some s) (hdone : s.waiting = []) :
    ∃ left : Table ρ, (∀ id, left.get? id = if id ∈ deletions as then none else rows.get? id) ∧
      s.rows = finish keys (answersOf as) left := by
  obtain ⟨left, hs⟩ := run_pending hrun
  exact ⟨left, hs.left_eq, by rw [hs.rows_eq, if_pos hdone, hs.answers_eq]⟩

end Batch

/-! ### The probes -/

section

variable (rot : Rotation) (clock : ℕ → ℤ)

/-- The upstream outcomes of the keys that were called. -/
def probeAnswers (answers : ℕ → Option Upstream) (id : ℕ) : Upstream := (answers id).getD .transport

/-- `probe_all_active` after it has loaded the keys. -/
def probeFinish (keys : List (ℕ × ApiKey)) (answers : ℕ → Option Upstream) (t : KeyTable) : KeyTable :=
  match gather rot clock (probeAnswers answers) keys t with
  | (.error _, t') => t'
  | (.ok results, t') => classifyAll rot clock results t'

/-- The probes of the active keys; one that is not decrypted is not called. -/
def startProbes (rows : KeyTable) : Batch ApiKey Upstream :=
  .start (probeFinish rot clock) rows (loadActive rows)
    (((loadActive rows).filter fun x => (rot.vault x.2.keyEncrypted).isSome).map (·.1))

/-- What the classifier records of a key's probe. -/
def probeRecords (answers : ℕ → Option Upstream) (id : ℕ) (k : ApiKey) : Except PyError (Option KeyValues) :=
  ((probed rot (probeAnswers answers) id k).toOption.getD .failed).classify rot.pyFloat (clock id)

/-- No call raised, and for the keys before `id` no classification did, nor is
anything recorded of those that were deleted. -/
def ProbeKept (rows : KeyTable) (deleted : List ℕ) (answers : ℕ → Option Upstream) (id : ℕ) : Prop :=
  (∀ x ∈ loadActive rows, ∃ result, probed rot (probeAnswers answers) x.1 x.2 = .ok result) ∧
    ∀ x ∈ loadActive rows, x.1 < id →
      (∀ e, probeRecords rot clock answers x.1 x.2 ≠ .error e) ∧
        (x.1 ∈ deleted → probeRecords rot clock answers x.1 x.2 = .ok none)

/-- Every key that is left has the row that its probe alone would leave. -/
def ProbesIsolated (rows : KeyTable) (deleted : List ℕ) (answers : ℕ → Option Upstream) (t : KeyTable) : Prop :=
  ∀ x ∈ loadActive rows, x.1 ∉ deleted →
    t.get? x.1 = (testOneKey rot (clock x.1) (probeAnswers answers x.1) rows x.1).get? x.1

/-- Every key that is left and of which something is recorded is `ProbeKept`. -/
def ProbesKept (rows : KeyTable) (deleted : List ℕ) (answers : ℕ → Option Upstream) : Prop :=
  ∀ x ∈ loadActive rows, x.1 ∉ deleted → (∃ v, probeRecords rot clock answers x.1 x.2 = .ok (some v)) →
    ProbeKept rot clock rows deleted answers x.1

/-- With no deletions it is the batch. -/
theorem probeFinish_loadActive (answers : ℕ → Upstream) (t : KeyTable) :
    probeFinish rot clock (loadActive t) (fun id => some (answers id)) t = probeAllActive rot clock answers t := rfl

variable {rot clock} {rows left : KeyTable} {deleted : List ℕ} {answers : ℕ → Option Upstream} {id : ℕ} {row : ApiKey}

/-- What is recorded of a key is what the verdict says of upstream's response. -/
theorem probeRecords_verdict {v : KeyValues} (h : probeRecords rot clock answers id row = .ok (some v)) :
    ∃ r, (Upstream.response r).verdict rot.pyFloat (clock id) = some v := by
  unfold probeRecords probed at h
  cases hvault : rot.vault row.keyEncrypted with
  | none =>
    rw [hvault] at h
    cases h
  | some raw =>
    rw [hvault] at h
    cases hu : probeAnswers answers id with
    | transport =>
      rw [hu] at h
      cases h
    | raised =>
      rw [hu] at h
      cases h
    | response r =>
      rw [hu] at h
      have hverdict := (classify_probe rot.pyFloat (clock id) (rfl : probe (.response r) = _)).1
      simp only [probe, Except.toOption, Option.getD_some] at h hverdict
      rw [h] at hverdict
      exact ⟨r, hverdict.symm⟩

/-- It counts, so it changes the row. -/
theorem probeRecords_write {v : KeyValues} (h : probeRecords rot clock answers id row = .ok (some v)) :
    (Recorder.update v).write row row ≠ row := by
  obtain ⟨r, hverdict⟩ := probeRecords_verdict h
  intro hsame
  have hstanding := write_standing v row
  rw [hsame] at hstanding
  exact row.standing.after_ne (verdict_counts hverdict) hstanding.symm

theorem testOneKey_get? (hrow : rows.get? id = some row) :
    (testOneKey rot (clock id) (probeAnswers answers id) rows id).get? id =
      some ((probeRecords rot clock answers id row).toOption.join.elim row fun v =>
        (Recorder.update v).write row row) := by
  unfold testOneKey probeRecords probed
  simp only [hrow]
  cases rot.vault row.keyEncrypted with
  | none => exact hrow
  | some raw =>
    simp only
    cases probe (probeAnswers answers id) with
    | error e => exact hrow
    | ok result =>
      simp only [Except.toOption, Option.getD_some]
      rcases result.classify rot.pyFloat (clock id) with e | _ | v
      · exact hrow
      · exact hrow
      · obtain ⟨t', ht', hrow'⟩ := commit_fresh (.update v) rfl hrow
        simp only [ht']
        exact hrow'

section

variable (hleft : ∀ id, left.get? id = if id ∈ deleted then none else rows.get? id)

include hleft

theorem get?_left (hmem : (id, row) ∈ loadActive rows) (hid : id ∉ deleted) : left.get? id = some row := by
  rw [hleft, if_neg hid]
  exact (mem_loadActive.mp hmem).1

/-- The loop ends at a loaded key. -/
theorem stops_iff {x : ℕ × ApiKey} (hx : x ∈ loadActive rows) :
    Stops rot clock left (x.1, x.2, (probed rot (probeAnswers answers) x.1 x.2).toOption.getD .failed) ↔
      ¬ ((∀ e, probeRecords rot clock answers x.1 x.2 ≠ .error e) ∧
        (x.1 ∈ deleted → probeRecords rot clock answers x.1 x.2 = .ok none)) := by
  have hgone : left.get? x.1 = none ↔ x.1 ∈ deleted := by
    rw [hleft, (mem_loadActive.mp hx).1]
    simp
  unfold Stops
  show (∃ e, probeRecords rot clock answers x.1 x.2 = .error e) ∨
    (∃ v, probeRecords rot clock answers x.1 x.2 = .ok (some v)) ∧ left.get? x.1 = none ↔ _
  rw [hgone]
  rcases probeRecords rot clock answers x.1 x.2 with e | _ | v <;> simp

theorem probeFinish_kept (hmem : (id, row) ∈ loadActive rows) (hid : id ∉ deleted)
    (hkept : ProbeKept rot clock rows deleted answers id) :
    (probeFinish rot clock (loadActive rows) answers left).get? id =
      (testOneKey rot (clock id) (probeAnswers answers id) rows id).get? id := by
  obtain ⟨hall, hearlier⟩ := hkept
  rw [testOneKey_get? (mem_loadActive.mp hmem).1, probeFinish, gather_ok clock hall]
  refine classifyAll_get?_of_mem (results_sorted rows _) (get?_left hleft hmem hid) (fun y hy hlt => ?_)
    (List.mem_map_of_mem hmem)
  obtain ⟨x, hx, rfl⟩ := List.mem_map.mp hy
  rw [stops_iff hleft hx, not_not]
  exact hearlier x hx hlt

theorem probeFinish_lost (hmem : (id, row) ∈ loadActive rows) (hid : id ∉ deleted)
    (hlost : ¬ ProbeKept rot clock rows deleted answers id) :
    (probeFinish rot clock (loadActive rows) answers left).get? id = some row := by
  have hrow := get?_left hleft hmem hid
  by_cases hall : ∀ x ∈ loadActive rows, ∃ result, probed rot (probeAnswers answers) x.1 x.2 = .ok result
  · rw [probeFinish, gather_ok clock hall, ← hrow]
    refine classifyAll_get?_of_stops (results_sorted rows _) ?_
    by_contra hnone
    refine hlost ⟨hall, fun x hx hlt => ?_⟩
    by_contra hstops
    exact hnone ⟨_, List.mem_map_of_mem hx, hlt, (stops_iff hleft hx).mpr hstops⟩
  · obtain ⟨e, he⟩ := gather_error clock (t := left) (exists_probed_error hall)
    rw [probeFinish, he]
    exact hrow

theorem probeFinish_isolated_iff :
    ProbesIsolated rot clock rows deleted answers (probeFinish rot clock (loadActive rows) answers left) ↔
      ProbesKept rot clock rows deleted answers := by
  refine ⟨fun h x hx hid ⟨v, hv⟩ => ?_, fun h x hx hid => ?_⟩
  · by_contra hlost
    have hsame := h x hx hid
    rw [probeFinish_lost hleft hx hid hlost, testOneKey_get? (mem_loadActive.mp hx).1, hv] at hsame
    exact probeRecords_write hv (Option.some.inj hsame).symm
  · by_cases hkept : ProbeKept rot clock rows deleted answers x.1
    · exact probeFinish_kept hleft hx hid hkept
    · rw [probeFinish_lost hleft hx hid hkept, testOneKey_get? (mem_loadActive.mp hx).1]
      -- of the key itself nothing is recorded
      rcases hrecords : probeRecords rot clock answers x.1 x.2 with e | _ | v
      · rfl
      · rfl
      · exact absurd (h x hx hid ⟨v, hrecords⟩) hkept

end

/-- In every run of the batch. -/
theorem probes_isolated_iff {as : List (Batch.Action Upstream)} {s : Batch ApiKey Upstream}
    (hrun : run (Batch.step (probeFinish rot clock)) (startProbes rot clock rows) as = some s)
    (hdone : s.waiting = []) :
    ProbesIsolated rot clock rows (Batch.deletions as) (Batch.answersOf as) s.rows ↔
      ProbesKept rot clock rows (Batch.deletions as) (Batch.answersOf as) := by
  obtain ⟨left, hleft, hrows⟩ := Batch.run_rows hrun hdone
  rw [hrows]
  exact probeFinish_isolated_iff hleft

end

/-! ### The refresh

`fetchedAt id` is the time at which the second answer for key `id` came,
`now id` the time at which its row is written. -/

section

variable (lib : UsageLibrary) (fetchedAt now : ℕ → ℤ)

/-- The snapshot of a key that is `ok`, if there is one. -/
def refreshed (answers : ℕ → Option (UsageReply × UsageReply)) (id : ℕ) (row : KeyRow) : Option UsageSnapshot := do
  let _ ← (lib.vault row.apiKey.keyEncrypted).toOption
  let replies ← answers id
  let account ← replies.1.payload.toOption
  let usage ← replies.2.payload.toOption
  (parseSnapshot lib account usage (fetchedAt id)).toOption

/-- `_persist`, and the flush. -/
def KeyRow.persisted (row : KeyRow) (id : ℕ) (snap : UsageSnapshot) (now : ℤ) (db : KeyRow) : KeyRow :=
  ⟨{ db.apiKey with updatedAt := now }, persist row.usage (snap.toResponse id row.apiKey .ok none) db.usage⟩

/-- The flush takes the integers of the snapshot. -/
def KeyRow.takes (row : KeyRow) (id : ℕ) (snap : UsageSnapshot) : Bool :=
  (snap.toResponse id row.apiKey .ok none).fits row.usage

/-- The one transaction for all keys. `none`: the flush of one matched no row or
did not take an integer, and raised. -/
def persistAll (answers : ℕ → Option (UsageReply × UsageReply)) : List (ℕ × KeyRow) → Table KeyRow →
    Option (Table KeyRow)
  | [], t => some t
  | (id, row) :: rest, t =>
    match refreshed lib fetchedAt answers id row with
    | none => persistAll answers rest t
    | some snap =>
      if (t.get? id).isNone || !row.takes id snap then none
      else persistAll answers rest (t.modify id (row.persisted id snap (now id)))

/-- `refresh_all_active` after it has loaded the keys. -/
def refreshFinish (keys : List (ℕ × KeyRow)) (answers : ℕ → Option (UsageReply × UsageReply)) (t : Table KeyRow) :
    Table KeyRow := (persistAll lib fetchedAt now answers keys t).getD t

def activeRows (rows : Table KeyRow) : List (ℕ × KeyRow) := rows.select (·.apiKey.status = .active)

def startRefresh (rows : Table KeyRow) : Batch KeyRow (UsageReply × UsageReply) :=
  .start (refreshFinish lib fetchedAt now) rows (activeRows rows)
    (((activeRows rows).filter fun x => (lib.vault x.2.apiKey.keyEncrypted).toOption.isSome).map (·.1))

/-- `fetch_snapshot` and `persist_snapshot` for one key. -/
def refreshOne (answers : ℕ → Option (UsageReply × UsageReply)) (id : ℕ) (row : KeyRow) : KeyRow :=
  (refreshed lib fetchedAt answers id row).elim row fun snap =>
    if row.takes id snap then row.persisted id snap (now id) row else row

/-- Every key that is left has the row that its refresh alone would leave. -/
def RefreshIsolated (rows : Table KeyRow) (deleted : List ℕ) (answers : ℕ → Option (UsageReply × UsageReply))
    (t : Table KeyRow) : Prop :=
  ∀ x ∈ activeRows rows, x.1 ∉ deleted → t.get? x.1 = some (refreshOne lib fetchedAt now answers x.1 x.2)

/-- No deleted key was fetched, nor one with an integer beyond its column; or no
key that is left has anything new. -/
def RefreshKept (rows : Table KeyRow) (deleted : List ℕ) (answers : ℕ → Option (UsageReply × UsageReply)) : Prop :=
  (∃ x ∈ activeRows rows, ∃ snap, refreshed lib fetchedAt answers x.1 x.2 = some snap ∧
      (x.1 ∈ deleted ∨ x.2.takes x.1 snap = false)) →
    ∀ x ∈ activeRows rows, x.1 ∉ deleted → ∀ snap, refreshed lib fetchedAt answers x.1 x.2 = some snap →
      x.2.takes x.1 snap = true → x.2.persisted x.1 snap (now x.1) x.2 = x.2

/-- It is what the store's commit makes of a row. -/
theorem persistKey_stored {s : UsageStore} {k : KeyRefresh} {snap : UsageSnapshot} {source : Option String}
    (h : (s.usage.calls k.call).pc = .done (snap.toResponse k.id k.row.apiKey .ok none) source) (t : Table KeyRow) :
    s.persistKey t k = t.modify k.id (k.row.persisted k.id snap s.usage.utcnow) := by
  simp only [UsageStore.persistKey, h]
  rfl

variable {lib fetchedAt now} {rows left t t' : Table KeyRow} {deleted : List ℕ}
  {answers : ℕ → Option (UsageReply × UsageReply)} {keys : List (ℕ × KeyRow)} {id : ℕ} {row : KeyRow}

/-- It is what the service returns for the two answers. -/
theorem onUsage_refreshed {snap : UsageSnapshot} (h : refreshed lib fetchedAt answers id row = some snap) :
    ∃ replies account, answers id = some replies ∧ replies.1.payload = .ok account ∧
      ∀ (s : UsageService) (c : SnapshotCall) (rawKey : String) (now : ℤ),
        (s.onUsage lib c rawKey account replies.2 now (fetchedAt id)).2 =
          .done (snap.toResponse c.id c.apiKey .ok none) (some rawKey) := by
  simp only [refreshed, Option.bind_eq_bind, Option.bind_eq_some_iff, toOption_eq_some_iff] at h
  obtain ⟨-, -, replies, hreplies, account, haccount, usage, husage, hparse⟩ := h
  refine ⟨replies, account, hreplies, haccount, fun s c rawKey now => ?_⟩
  have hsnap : (replies.2.payload.bind fun usage => parseSnapshot lib account usage (fetchedAt id)) = .ok snap := by
    rw [husage]
    exact hparse
  rw [UsageService.onUsage, hsnap]

/-- The transaction is rolled back exactly if a key that was fetched is gone, or
its integers are not taken. -/
theorem persistAll_eq_none_iff : persistAll lib fetchedAt now answers keys t = none ↔
    ∃ x ∈ keys, ∃ snap, refreshed lib fetchedAt answers x.1 x.2 = some snap ∧
      (t.get? x.1 = none ∨ x.2.takes x.1 snap = false) := by
  induction keys generalizing t with
  | nil => simp [persistAll]
  | cons x rest ih =>
    obtain ⟨i, row⟩ := x
    unfold persistAll
    cases hsnap : refreshed lib fetchedAt answers i row with
    | none =>
      simp only [ih, List.exists_mem_cons_iff, hsnap]
      simp
    | some snap =>
      simp only [List.exists_mem_cons_iff, hsnap, Option.some.injEq, exists_eq_left']
      cases hrow : t.get? i with
      | none => simp
      | some db =>
        cases htakes : row.takes i snap with
        | false => simp
        | true =>
          -- a write does not bring a row back
          have hsame : ∀ j, (t.modify i (row.persisted i snap (now i))).get? j = none ↔ t.get? j = none := fun j => by
            rw [Table.get?_modify]
            split_ifs <;> simp
          simp [ih, hsame]

theorem persistAll_get?_of_notMem (h : persistAll lib fetchedAt now answers keys t = some t')
    (hid : id ∉ keys.map (·.1)) : t'.get? id = t.get? id := by
  induction keys generalizing t with
  | nil =>
    cases h
    rfl
  | cons x rest ih =>
    obtain ⟨i, row⟩ := x
    rw [List.map_cons, List.mem_cons, not_or] at hid
    unfold persistAll at h
    split at h
    · exact ih h hid.2
    · split_ifs at h
      rw [ih h hid.2, Table.get?_modify_of_ne t hid.1]

theorem persistAll_get? (hids : (keys.map (·.1)).Nodup) (h : persistAll lib fetchedAt now answers keys t = some t')
    (hmem : (id, row) ∈ keys) (hrow : t.get? id = some row) :
    t'.get? id = some (refreshOne lib fetchedAt now answers id row) := by
  induction keys generalizing t with
  | nil => cases hmem
  | cons x rest ih =>
    obtain ⟨i, row'⟩ := x
    rw [List.map_cons] at hids
    obtain ⟨hi, hids'⟩ := List.nodup_cons.mp hids
    unfold persistAll at h
    rcases List.mem_cons.mp hmem with heq | hrest
    · cases heq
      unfold refreshOne
      split at h
      · rename_i hnone
        rw [persistAll_get?_of_notMem h hi, hrow, hnone]
        rfl
      · rename_i snap hsnap
        split_ifs at h with hraises
        have htakes : row.takes id snap = true := by
          simp only [Bool.or_eq_true, Bool.not_eq_eq_eq_not, Bool.not_true, not_or, Bool.not_eq_false] at hraises
          exact hraises.2
        rw [persistAll_get?_of_notMem h hi, Table.get?_modify_self, hrow, hsnap, Option.elim_some, if_pos htakes]
        rfl
    · have hne : id ≠ i := by
        rintro rfl
        exact hi (List.mem_map.mpr ⟨_, hrest, rfl⟩)
      split at h
      · exact ih hids' h hrest hrow
      · split_ifs at h
        exact ih hids' h hrest (by rw [Table.get?_modify_of_ne t hne, hrow])

theorem mem_activeRows {x : ℕ × KeyRow} (hx : x ∈ activeRows rows) : rows.get? x.1 = some x.2 :=
  ((rows.mem_select _ x.1 x.2).mp hx).1

theorem refreshFinish_isolated_iff (hleft : ∀ id, left.get? id = if id ∈ deleted then none else rows.get? id) :
    RefreshIsolated lib fetchedAt now rows deleted answers
        (refreshFinish lib fetchedAt now (activeRows rows) answers left) ↔
      RefreshKept lib fetchedAt now rows deleted answers := by
  have hkeeps : ∀ x ∈ activeRows rows, x.1 ∉ deleted → left.get? x.1 = some x.2 := fun x hx hid => by
    rw [hleft, if_neg hid, mem_activeRows hx]
  have hgone : persistAll lib fetchedAt now answers (activeRows rows) left = none ↔
      ∃ x ∈ activeRows rows, ∃ snap, refreshed lib fetchedAt answers x.1 x.2 = some snap ∧
        (x.1 ∈ deleted ∨ x.2.takes x.1 snap = false) := by
    rw [persistAll_eq_none_iff]
    refine exists_congr fun x => and_congr_right fun hx => exists_congr fun snap => and_congr_right fun _ => ?_
    rw [hleft, mem_activeRows hx]
    simp
  unfold RefreshKept
  rw [← hgone, refreshFinish]
  cases hall : persistAll lib fetchedAt now answers (activeRows rows) left with
  | none =>
    simp only [Option.getD_none, forall_const]
    refine ⟨fun h x hx hid snap hsnap htakes => ?_, fun h x hx hid => ?_⟩
    · have hsame := h x hx hid
      rw [hkeeps x hx hid, refreshOne, hsnap, Option.elim_some, if_pos htakes] at hsame
      exact (Option.some.inj hsame).symm
    · rw [hkeeps x hx hid, refreshOne]
      cases hsnap : refreshed lib fetchedAt answers x.1 x.2 with
      | none => rfl
      | some snap =>
        rw [Option.elim_some]
        split_ifs with htakes
        · rw [h x hx hid snap hsnap htakes]
        · rfl
  | some t' =>
    refine iff_of_true (fun x hx hid => ?_) fun h => by cases h
    exact persistAll_get? (rows.select_ids_nodup _) hall hx (hkeeps x hx hid)

/-- In every run of the batch. -/
theorem refresh_isolated_iff {as : List (Batch.Action (UsageReply × UsageReply))}
    {s : Batch KeyRow (UsageReply × UsageReply)}
    (hrun : run (Batch.step (refreshFinish lib fetchedAt now)) (startRefresh lib fetchedAt now rows) as = some s)
    (hdone : s.waiting = []) :
    RefreshIsolated lib fetchedAt now rows (Batch.deletions as) (Batch.answersOf as) s.rows ↔
      RefreshKept lib fetchedAt now rows (Batch.deletions as) (Batch.answersOf as) := by
  obtain ⟨left, hleft, hrows⟩ := Batch.run_rows hrun hdone
  rw [hrows]
  exact refreshFinish_isolated_iff hleft

end

/-- Every key that is left has the row that it would have alone exactly if, for
the probes, each of which something is recorded is kept, and for the refresh, no
deleted key was fetched and every integer fits its column. -/
theorem batches_isolated_iff (rot : Rotation) (clock : ℕ → ℤ) (lib : UsageLibrary) (fetchedAt now : ℕ → ℤ) :
    (∀ rows as s, run (Batch.step (probeFinish rot clock)) (startProbes rot clock rows) as = some s → s.waiting = [] →
      (ProbesIsolated rot clock rows (Batch.deletions as) (Batch.answersOf as) s.rows ↔
        ProbesKept rot clock rows (Batch.deletions as) (Batch.answersOf as))) ∧
    ∀ rows as s, run (Batch.step (refreshFinish lib fetchedAt now)) (startRefresh lib fetchedAt now rows) as = some s →
      s.waiting = [] →
      (RefreshIsolated lib fetchedAt now rows (Batch.deletions as) (Batch.answersOf as) s.rows ↔
        RefreshKept lib fetchedAt now rows (Batch.deletions as) (Batch.answersOf as)) :=
  ⟨fun _ _ _ hrun hdone => probes_isolated_iff hrun hdone, fun _ _ _ hrun hdone => refresh_isolated_iff hrun hdone⟩

namespace Sample

/-- Both keys answer, and meanwhile key `id` is deleted. -/
def bothAnswer {α : Type} (a : α) (id : ℕ) : List (Batch.Action α) := [.answer 1 a, .delete id, .answer 2 a]

def probing (id : ℕ) : Option (Batch ApiKey Upstream) :=
  run (Batch.step (probeFinish rotation fun _ => 0)) (startProbes rotation (fun _ => 0) pool)
    (bothAnswer (reply 200) id)

def refreshing (id : ℕ) : Option (Batch KeyRow (UsageReply × UsageReply)) :=
  run (Batch.step (refreshFinish Usage.Sample.library (fun _ => 5) fun _ => 5))
    (startRefresh Usage.Sample.library (fun _ => 5) (fun _ => 5) UsageStore.Sample.rows)
    (bothAnswer (Usage.Sample.answer, Usage.Sample.answer) id)

/-- The later key vanishes. -/
theorem batches_isolated_iff_later :
    (∃ s, probing 2 = some s ∧
      (ProbesIsolated rotation (fun _ => 0) pool [2] (Batch.answersOf (bothAnswer (reply 200) 2)) s.rows ↔
        ProbesKept rotation (fun _ => 0) pool [2] (Batch.answersOf (bothAnswer (reply 200) 2)))) ∧
    ∃ s, refreshing 2 = some s ∧
      (RefreshIsolated Usage.Sample.library (fun _ => 5) (fun _ => 5) UsageStore.Sample.rows [2]
          (Batch.answersOf (bothAnswer (Usage.Sample.answer, Usage.Sample.answer) 2)) s.rows ↔
        RefreshKept Usage.Sample.library (fun _ => 5) (fun _ => 5) UsageStore.Sample.rows [2]
          (Batch.answersOf (bothAnswer (Usage.Sample.answer, Usage.Sample.answer) 2))) := by
  obtain ⟨hprobes, hrefresh⟩ :=
    batches_isolated_iff rotation (fun _ => 0) Usage.Sample.library (fun _ => 5) fun _ => 5
  refine ⟨⟨(probing 2).get (by decide), (Option.some_get _).symm, ?_⟩,
    (refreshing 2).get (by decide), (Option.some_get _).symm, ?_⟩
  · exact hprobes pool (bothAnswer (reply 200) 2) _ (Option.some_get (x := probing 2) (by decide)).symm (by decide)
  · exact hrefresh UsageStore.Sample.rows (bothAnswer (Usage.Sample.answer, Usage.Sample.answer) 2) _
      (Option.some_get (x := refreshing 2) (by decide)).symm (by decide)

/-- Key 1 is deleted while both are probed, or refreshed. Upstream answers 200
for both, and key 2 does not get the row that it would have alone. -/
theorem earlier_deleted_spoils :
    (∃ s, probing 1 = some s ∧ s.waiting = [] ∧
      ¬ ProbesIsolated rotation (fun _ => 0) pool [1] (Batch.answersOf (bothAnswer (reply 200) 1)) s.rows) ∧
    ∃ s, refreshing 1 = some s ∧ s.waiting = [] ∧
      ¬ RefreshIsolated Usage.Sample.library (fun _ => 5) (fun _ => 5) UsageStore.Sample.rows [1]
        (Batch.answersOf (bothAnswer (Usage.Sample.answer, Usage.Sample.answer) 1)) s.rows := by
  refine ⟨⟨(probing 1).get (by decide), (Option.some_get _).symm, by decide, fun h => ?_⟩,
    (refreshing 1).get (by decide), (Option.some_get _).symm, by decide, fun h => ?_⟩
  · have hsame := h (2, key "b") (by decide) (by decide)
    revert hsame
    decide
  · have hsame := h (2, UsageStore.Sample.row "b") (by decide) (by decide)
    revert hsame
    decide

end Sample

end OllamaProxy
