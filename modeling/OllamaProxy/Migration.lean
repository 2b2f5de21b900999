/-
# The migration of `api_keys`

`init_engine` creates the table if it is not there, and else adds the columns of
`_USAGE_COLUMNS` that are missing, one `ALTER TABLE` after the other. Each takes
effect at once, so a start that is interrupted leaves some of them. The next
start looks again, and goes on with the rest: whatever happened before, the start
that comes through leaves what a single migration of the first table leaves, and
one comes through exactly if no missing column is there in another letter case
(`migrates_iff`). Python's set of names tells the cases apart, SQLite does not.

The module's engine is set before the migration. So a call after one that failed
returns the engine without a look at the table (`Database.initEngine`).

Key definitions: `usageColumns`, `SqlTable.addColumn`, `Database.step`,
`SqlTable.Clear`.
Key theorems: `addColumns_eq`, `extend_missing`, `migrates_iff`.
-/
import OllamaProxy.Lib.Run

namespace OllamaProxy

open Kit

inductive SqlValue
  | null
  | integer (n : ℤ)
  | real (q : ℚ)
  | text (s : String)
  | blob (bytes : List UInt8)
deriving DecidableEq

structure Column where
  name : String
  ddl : String
deriving DecidableEq

/-- What the rows that are there get in a new column. -/
def Column.default (c : Column) : SqlValue := if c.ddl = "INTEGER DEFAULT 0 NOT NULL" then .integer 0 else .null

structure SqlTable where
  columns : List Column
  rows : List (List SqlValue)
deriving DecidableEq

/-- `_USAGE_COLUMNS`. -/
def usageColumns : List Column :=
  [⟨"account_email", "VARCHAR(255)"⟩, ⟨"account_name", "VARCHAR(255)"⟩, ⟨"account_plan", "VARCHAR(32)"⟩,
    ⟨"account_id", "VARCHAR(64)"⟩, ⟨"last_usage_fetch_at", "TIMESTAMP"⟩, ⟨"last_usage_session", "INTEGER"⟩,
    ⟨"last_usage_weekly", "INTEGER"⟩, ⟨"last_usage_models_json", "TEXT"⟩,
    ⟨"session_prompt_tokens", "INTEGER DEFAULT 0 NOT NULL"⟩,
    ⟨"session_completion_tokens", "INTEGER DEFAULT 0 NOT NULL"⟩, ⟨"session_window_started_at", "TIMESTAMP"⟩,
    ⟨"weekly_prompt_tokens", "INTEGER DEFAULT 0 NOT NULL"⟩, ⟨"weekly_completion_tokens", "INTEGER DEFAULT 0 NOT NULL"⟩,
    ⟨"weekly_window_started_at", "TIMESTAMP"⟩, ⟨"last_token_at", "TIMESTAMP"⟩,
    ⟨"last_usage_session_fraction", "REAL"⟩, ⟨"last_usage_weekly_fraction", "REAL"⟩]

/-- The columns of `ApiKey`, as `create_all` makes them. -/
def apiKeyColumns : List Column :=
  [⟨"id", "INTEGER NOT NULL"⟩, ⟨"key_hash", "VARCHAR(64) NOT NULL"⟩, ⟨"key_prefix", "VARCHAR(8) NOT NULL"⟩,
    ⟨"key_encrypted", "BLOB NOT NULL"⟩, ⟨"label", "VARCHAR(255)"⟩, ⟨"status", "VARCHAR(16) NOT NULL"⟩,
    ⟨"last_used_at", "DATETIME"⟩, ⟨"last_status_code", "INTEGER"⟩, ⟨"cooldown_until", "DATETIME"⟩,
    ⟨"total_requests", "INTEGER NOT NULL"⟩, ⟨"total_failures", "INTEGER NOT NULL"⟩,
    ⟨"created_at", "DATETIME NOT NULL"⟩, ⟨"updated_at", "DATETIME NOT NULL"⟩, ⟨"account_email", "VARCHAR(255)"⟩,
    ⟨"account_name", "VARCHAR(255)"⟩, ⟨"account_plan", "VARCHAR(32)"⟩, ⟨"account_id", "VARCHAR(64)"⟩,
    ⟨"last_usage_fetch_at", "DATETIME"⟩, ⟨"last_usage_session", "INTEGER"⟩, ⟨"last_usage_weekly", "INTEGER"⟩,
    ⟨"last_usage_models_json", "TEXT"⟩, ⟨"last_usage_session_fraction", "FLOAT"⟩,
    ⟨"last_usage_weekly_fraction", "FLOAT"⟩, ⟨"session_prompt_tokens", "INTEGER NOT NULL"⟩,
    ⟨"session_completion_tokens", "INTEGER NOT NULL"⟩, ⟨"session_window_started_at", "DATETIME"⟩,
    ⟨"weekly_prompt_tokens", "INTEGER NOT NULL"⟩, ⟨"weekly_completion_tokens", "INTEGER NOT NULL"⟩,
    ⟨"weekly_window_started_at", "DATETIME"⟩, ⟨"last_token_at", "DATETIME"⟩]

namespace SqlTable

/-- `ALTER TABLE api_keys ADD COLUMN`; SQLite compares the names without their
letter case. -/
def addColumn (t : SqlTable) (c : Column) : Option SqlTable :=
  if t.columns.any fun d => d.name.toLower = c.name.toLower then none
  else some { columns := t.columns ++ [c], rows := t.rows.map (· ++ [c.default]) }

/-- The statements up to the first that fails, and whether none does. -/
def addColumns : SqlTable → List Column → SqlTable × Bool
  | t, [] => (t, true)
  | t, c :: cs =>
    match t.addColumn c with
    | none => (t, false)
    | some t' => t'.addColumns cs

/-- What `_ensure_usage_columns` finds missing. -/
def missing (t : SqlTable) : List Column := usageColumns.filter fun c => c.name ∉ t.columns.map (·.name)

/-- The table with further columns. -/
def extend (t : SqlTable) (cs : List Column) : SqlTable where
  columns := t.columns ++ cs
  rows := t.rows.map (· ++ cs.map (·.default))

/-- No missing column is there in another letter case. -/
def Clear (t : SqlTable) : Prop := ∀ c ∈ t.missing, ∀ d ∈ t.columns, d.name.toLower ≠ c.name.toLower

instance (t : SqlTable) : Decidable t.Clear := inferInstanceAs (Decidable (∀ _ ∈ _, _))

end SqlTable

/-- How a call of `init_engine` goes: it comes to its end, or is interrupted
before `create_all` or after some of the `ALTER TABLE`s. -/
inductive InitOutcome
  | completes
  | stopsBefore
  | stops (n : ℕ)

/-- The module's engine, and the table in the database file. -/
structure Database where
  engine : Bool
  table : Option SqlTable

namespace Database

/-- `init_engine`, and whether it returns. -/
def initEngine (d : Database) (outcome : InitOutcome) : Database × Bool :=
  if d.engine then (d, true)
  else
    let t := d.table.getD ⟨apiKeyColumns, []⟩
    match outcome with
    | .completes =>
      let r := t.addColumns t.missing
      (⟨true, some r.1⟩, r.2)
    | .stopsBefore => (⟨true, d.table⟩, false)
    | .stops n => (⟨true, some (t.addColumns (t.missing.take n)).1⟩, false)

/-- `dispose_engine`, or the end of the process. -/
def disposeEngine (d : Database) : Database := { d with engine := false }

inductive Action
  | initEngine (outcome : InitOutcome)
  | disposeEngine

def step (d : Database) : Action → Option Database
  | .initEngine outcome => some (d.initEngine outcome).1
  | .disposeEngine => some d.disposeEngine

end Database

namespace SqlTable

variable {t : SqlTable} {c : Column} {cs ds : List Column}

theorem addColumn_eq_some_iff {t' : SqlTable} :
    t.addColumn c = some t' ↔ (∀ d ∈ t.columns, d.name.toLower ≠ c.name.toLower) ∧ t' = t.extend [c] := by
  unfold addColumn extend
  split_ifs with h
  · simp only [List.any_eq_true, decide_eq_true_eq] at h
    obtain ⟨d, hd, hname⟩ := h
    simp only [false_iff]
    rintro ⟨hall, -⟩
    exact hall d hd hname
  · simp only [List.any_eq_true, decide_eq_true_eq, not_exists, not_and] at h
    simp only [Option.some.injEq]
    exact ⟨fun he => ⟨h, he.symm⟩, fun he => he.2.symm⟩

theorem extend_nil (t : SqlTable) : t.extend [] = t := by simp [extend]

theorem extend_extend (t : SqlTable) (cs ds : List Column) : (t.extend cs).extend ds = t.extend (cs ++ ds) := by
  simp [extend, List.map_map, Function.comp_def]

/-- Names that differ from each other and from those of the table. -/
def Fresh (t : SqlTable) (cs : List Column) : Prop :=
  (∀ c ∈ cs, ∀ d ∈ t.columns, d.name.toLower ≠ c.name.toLower) ∧
    cs.Pairwise fun d c => d.name.toLower ≠ c.name.toLower

theorem Fresh.tail (h : t.Fresh (c :: cs)) : (t.extend [c]).Fresh cs := by
  obtain ⟨hnames, hpair⟩ := h
  obtain ⟨hc, hcs⟩ := List.pairwise_cons.mp hpair
  refine ⟨fun e he d hd => ?_, hcs⟩
  rcases List.mem_append.mp hd with hd | hd
  · exact hnames e (List.mem_cons_of_mem c he) d hd
  · rw [List.mem_singleton.mp hd]
    exact hc e he

/-- Fresh columns are added, all of them. -/
theorem addColumns_eq : ∀ (cs : List Column) {t : SqlTable}, t.Fresh cs → t.addColumns cs = (t.extend cs, true)
  | [], t, _ => by rw [addColumns, extend_nil]
  | c :: cs, t, h => by
    have hadd : t.addColumn c = some (t.extend [c]) :=
      addColumn_eq_some_iff.mpr ⟨h.1 c List.mem_cons_self, rfl⟩
    rw [addColumns, hadd]
    simp only
    rw [addColumns_eq cs h.tail, extend_extend]
    rfl

/-- The statements come through only if their columns are fresh. -/
theorem addColumns_stuck : ∀ (cs : List Column) {t : SqlTable} {c d : Column}, c ∈ cs → d ∈ t.columns →
    d.name.toLower = c.name.toLower → (t.addColumns cs).2 = false
  | e :: cs, t, c, d, hc, hd, hname => by
    unfold addColumns
    cases hadd : t.addColumn e with
    | none => rfl
    | some t' =>
      obtain ⟨hfresh, rfl⟩ := addColumn_eq_some_iff.mp hadd
      rcases List.mem_cons.mp hc with rfl | hc
      · exact absurd hname (hfresh d hd)
      · exact addColumns_stuck cs hc (List.mem_append_left _ hd) hname

theorem usageColumns_pairwise : usageColumns.Pairwise fun d c => d.name.toLower ≠ c.name.toLower := by
  decide +kernel

theorem Clear.fresh (h : t.Clear) : t.Fresh t.missing := ⟨h, usageColumns_pairwise.filter _⟩

theorem missing_extend_eq (t : SqlTable) (cs : List Column) :
    (t.extend cs).missing = t.missing.filter fun c => c.name ∉ cs.map (·.name) := by
  unfold missing extend
  rw [List.filter_filter]
  congr 1
  funext c
  simp only [List.map_append, List.mem_append, not_or, Bool.decide_and, Bool.and_comm]

/-- The names of the columns that come first are not those of the others. -/
theorem filter_take_names {l : List Column} (h : l.Pairwise fun d c => d.name ≠ c.name) (n : ℕ) :
    (l.filter fun c => c.name ∉ (l.take n).map (·.name)) = l.drop n := by
  have hsplit : l.take n ++ l.drop n = l := List.take_append_drop n l
  have hcross : ∀ d ∈ l.take n, ∀ c ∈ l.drop n, d.name ≠ c.name := by
    rw [← hsplit] at h
    exact fun d hd c hc => (List.pairwise_append.mp h).2.2 d hd c hc
  calc (l.filter fun c => c.name ∉ (l.take n).map (·.name))
      = ((l.take n ++ l.drop n).filter fun c => c.name ∉ (l.take n).map (·.name)) := by rw [hsplit]
    _ = [] ++ l.drop n := by
      rw [List.filter_append]
      congr 1
      · refine List.filter_eq_nil_iff.mpr fun c hc => ?_
        simp only [decide_not, Bool.not_eq_true', decide_eq_false_iff_not, not_not]
        exact List.mem_map_of_mem hc
      · refine List.filter_eq_self.mpr fun c hc => decide_eq_true fun hmem => ?_
        obtain ⟨d, hd, hname⟩ := List.mem_map.mp hmem
        exact hcross d hd c hc hname
    _ = l.drop n := rfl

theorem missing_pairwise (t : SqlTable) : t.missing.Pairwise fun d c => d.name ≠ c.name :=
  (usageColumns_pairwise.filter _).imp fun hlower hname => hlower (congrArg String.toLower hname)

/-- What is missing after the first of the missing columns are added. -/
theorem missing_extend (t : SqlTable) (n : ℕ) : (t.extend (t.missing.take n)).missing = t.missing.drop n := by
  rw [missing_extend_eq, filter_take_names t.missing_pairwise]

theorem extend_missing (t : SqlTable) : (t.extend t.missing).missing = [] := by
  have h := t.missing_extend t.missing.length
  rwa [List.take_length, List.drop_length] at h

/-- A column that was added is no clash for the others. -/
theorem Clear.extend (h : t.Clear) (n : ℕ) : (t.extend (t.missing.take n)).Clear := by
  intro c hc d hd
  rw [missing_extend] at hc
  rcases List.mem_append.mp hd with hd | hd
  · exact h c (List.mem_of_mem_drop hc) d hd
  · have hpair := usageColumns_pairwise.filter fun c => c.name ∉ t.columns.map (·.name)
    rw [← List.take_append_drop n (usageColumns.filter _)] at hpair
    exact (List.pairwise_append.mp hpair).2.2 d hd c hc

/-- The first `n` of the missing columns, and then the rest. -/
theorem extend_take_drop (t : SqlTable) (n : ℕ) :
    (t.extend (t.missing.take n)).extend (t.missing.drop n) = t.extend t.missing := by
  rw [extend_extend, List.take_append_drop]

/-- `c` is missing, and the table has it in another letter case. -/
def Clashes (t : SqlTable) (c : Column) : Prop :=
  c ∈ t.missing ∧ ∃ d ∈ t.columns, d.name.toLower = c.name.toLower

theorem not_clear_iff : ¬ t.Clear ↔ ∃ c, t.Clashes c := by
  simp only [Clear, Clashes, not_forall, not_not]
  exact ⟨fun ⟨c, hc, d, hd, hname⟩ => ⟨c, hc, d, hd, hname⟩, fun ⟨c, hc, d, hd, hname⟩ => ⟨c, hc, d, hd, hname⟩⟩

/-- A clash stays. -/
theorem Clashes.addColumns : ∀ (cs : List Column) {t : SqlTable}, t.Clashes c → (t.addColumns cs).1.Clashes c
  | [], t, h => h
  | e :: cs, t, h => by
    unfold SqlTable.addColumns
    cases hadd : t.addColumn e with
    | none => exact h
    | some t' =>
      obtain ⟨hfresh, rfl⟩ := addColumn_eq_some_iff.mp hadd
      obtain ⟨hmem, d, hd, hname⟩ := h
      refine Clashes.addColumns cs ⟨?_, d, List.mem_append_left _ hd, hname⟩
      rw [missing_extend_eq, List.mem_filter]
      refine ⟨hmem, decide_eq_true fun hin => ?_⟩
      have hce : c.name = e.name := by simpa using hin
      exact hfresh d hd (by rw [hname, hce])

end SqlTable

namespace Database

variable {t0 : Option SqlTable} {d : Database} {as : List Action}

/-- The table that the first migration finds. -/
def found (t0 : Option SqlTable) : SqlTable := t0.getD ⟨apiKeyColumns, []⟩

/-- What is left of a migration, whole or not. -/
def Partial (t0 : Option SqlTable) (d : Database) : Prop :=
  ∃ n, found d.table = (found t0).extend ((found t0).missing.take n)

theorem Partial.initEngine (hclear : (found t0).Clear) (h : Partial t0 d) (outcome : InitOutcome) :
    Partial t0 (d.initEngine outcome).1 := by
  unfold Database.initEngine
  split_ifs with hengine
  · exact h
  obtain ⟨n, hn⟩ := h
  have hadds : ∀ m, ((found d.table).addColumns ((found d.table).missing.take m)).1 =
      (found t0).extend ((found t0).missing.take (n + m)) := by
    intro m
    have hfresh : (found d.table).Fresh ((found d.table).missing.take m) := by
      rw [hn]
      have hc := (hclear.extend n).fresh
      exact ⟨fun c hc' => hc.1 c (List.mem_of_mem_take hc'), hc.2.sublist (List.take_sublist _ _)⟩
    rw [SqlTable.addColumns_eq _ hfresh, hn, SqlTable.missing_extend, SqlTable.extend_extend, List.take_add]
  cases outcome with
  | completes =>
    refine ⟨n + (found d.table).missing.length, ?_⟩
    have hall := hadds (found d.table).missing.length
    rw [List.take_length] at hall
    exact hall
  | stopsBefore => exact ⟨n, hn⟩
  | stops m => exact ⟨n + m, hadds m⟩

theorem clash_initEngine {c : Column} (h : (found d.table).Clashes c) (outcome : InitOutcome) :
    (found (d.initEngine outcome).1.table).Clashes c := by
  unfold Database.initEngine
  split_ifs with hengine
  · exact h
  · cases outcome with
    | completes => exact h.addColumns _
    | stopsBefore => exact h
    | stops m => exact h.addColumns _

theorem Partial.step (hclear : (found t0).Clear) {d d' : Database} {a : Action} (h : Partial t0 d)
    (hs : step d a = some d') : Partial t0 d' := by
  cases a with
  | initEngine outcome =>
    cases hs
    exact h.initEngine hclear outcome
  | disposeEngine =>
    cases hs
    exact h

/-- With a clear table a start goes on where the others stopped. -/
theorem Partial.completes (hclear : (found t0).Clear) (h : Partial t0 d) (hengine : d.engine = false) :
    d.initEngine .completes = (⟨true, some ((found t0).extend (found t0).missing)⟩, true) := by
  obtain ⟨n, hn⟩ := h
  have hadds := SqlTable.addColumns_eq _ (hclear.extend n).fresh
  rw [SqlTable.missing_extend, SqlTable.extend_take_drop] at hadds
  have hmissing : (found d.table).missing = (found t0).missing.drop n := by rw [hn, SqlTable.missing_extend]
  simp only [Database.initEngine, hengine, Bool.false_eq_true, if_false]
  rw [← found, hmissing, hn, hadds]

theorem clash_step {c : Column} {d d' : Database} {a : Action} (h : (found d.table).Clashes c)
    (hs : step d a = some d') : (found d'.table).Clashes c := by
  cases a with
  | initEngine outcome =>
    cases hs
    exact clash_initEngine h outcome
  | disposeEngine =>
    cases hs
    exact h

/-- With a clash no start comes through. -/
theorem clash_completes {c : Column} (h : (found d.table).Clashes c) (hengine : d.engine = false) :
    (d.initEngine .completes).2 = false := by
  obtain ⟨hmem, e, he, hname⟩ := h
  simp only [Database.initEngine, hengine, Bool.false_eq_true, if_false]
  exact SqlTable.addColumns_stuck _ hmem he hname

/-- **A start comes through exactly if no missing column is there in another
letter case**, and then it leaves what one migration of the first table leaves,
however many were interrupted before and wherever. -/
theorem migrates_iff (hrun : run step ⟨false, t0⟩ as = some d) (hengine : d.engine = false) :
    ((d.initEngine .completes).2 = true ↔ (found t0).Clear) ∧
      ((found t0).Clear → (d.initEngine .completes).1.table = some ((found t0).extend (found t0).missing)) := by
  have hcompletes : (found t0).Clear →
      d.initEngine .completes = (⟨true, some ((found t0).extend (found t0).missing)⟩, true) := by
    intro hclear
    have hstart : Partial t0 ⟨false, t0⟩ := ⟨0, ((found t0).extend_nil).symm⟩
    have hpartial : Partial t0 d := run_inv' (fun _ _ _ h hs => h.step hclear hs) hstart hrun
    exact hpartial.completes hclear hengine
  refine ⟨⟨fun hret => ?_, fun hclear => by rw [hcompletes hclear]⟩, fun hclear => by rw [hcompletes hclear]⟩
  by_contra hnot
  obtain ⟨c, hclash⟩ := SqlTable.not_clear_iff.mp hnot
  have hclash' : (found d.table).Clashes c :=
    run_inv' (I := fun d => (found d.table).Clashes c) (fun _ _ _ h hs => clash_step h hs) hclash hrun
  rw [clash_completes hclash' hengine] at hret
  exact Bool.false_ne_true hret

/-- A table of a version before the usage columns, with one row. -/
def early : SqlTable where
  columns := apiKeyColumns.take 13
  rows := [[.integer 1, .text "hash", .text "sk-12345", .blob [128], .null, .text "active", .null, .null, .null,
    .integer 3, .integer 0, .text "2024-01-01", .text "2024-01-01"]]

/-- The first start stops after two columns, the second after three more. -/
theorem migrates_iff_early : early.Clear ∧
    ((run step ⟨false, some early⟩ [.initEngine (.stops 2), .disposeEngine, .initEngine (.stops 3),
      .disposeEngine]).map fun d => (d.table.map (·.columns.length), (d.initEngine .completes).2,
        (d.initEngine .completes).1.table.map (·.columns.length))) = some (some 18, true, some 30) ∧
    ∀ d, run step ⟨false, some early⟩ [.initEngine (.stops 2), .disposeEngine, .initEngine (.stops 3),
      .disposeEngine] = some d → d.engine = false → (d.initEngine .completes).2 = true :=
  ⟨by decide +kernel, by decide +kernel, fun _ hrun hengine =>
    (migrates_iff hrun hengine).1.mpr (by decide +kernel)⟩

end Database

end OllamaProxy
