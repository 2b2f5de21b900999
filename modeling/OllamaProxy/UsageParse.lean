/-
# Parsing a usage answer

`parseAccount` reads the JSON object of `/api/me`, `parseOfficial` that of
`/api/usage`: the period, and for the session and the weekly window the usage
and the request counts of the models, which are merged into one row a model.
Fields that are missing or of an unexpected type keep their defaults, except
where a conversion or the check of a field raises.

Key definitions: `parseAccount`, `parseModels`, `parseOfficial`.
Key theorem: `parseModels_firsts`.
-/
import OllamaProxy.Http
import OllamaProxy.Lib.Firsts

namespace OllamaProxy

open Kit

/-- The items of a JSON object. -/
abbrev Payload := List (String × Json)

structure AccountInfo where
  accountId : Option String
  email : Option String
  name : Option String
  plan : Option String
  fetchedAt : ℤ
deriving DecidableEq

structure ModelUsageRow where
  name : String
  sessionRequestCount : ℤ := 0
  weeklyRequestCount : ℤ := 0
deriving DecidableEq

structure OfficialUsage where
  sessionUsage : ℤ
  weeklyUsage : ℤ
  sessionUsageFraction : Option PyFloat
  weeklyUsageFraction : Option PyFloat
  models : List ModelUsageRow
  periodType : Option String
  periodStart : Option DateTime
  periodEnd : Option DateTime
  fetchedAt : ℤ
deriving DecidableEq

/-- `payload.get(key)`. -/
def getItem (payload : Payload) (key : String) : Json := (payload.lookup key).getD .null

/-- `a or b`. -/
def Json.or (a b : Json) : Json := if a.truthy then a else b

/-- A field of type `str | None` takes nothing else. -/
def Json.optionalStr : Json → Except PyError (Option String)
  | .null => .ok none
  | .str s => .ok (some s)
  | _ => .error .valueError

/-- `x if isinstance(x, dict) else {}`, of a value from which fields are read. -/
def Json.asDict : Json → Payload
  | .dict items => items
  | _ => []

/-- `float(x)`, if `x` is a number. -/
def Json.asFloat : Json → Except PyError (Option PyFloat)
  | .int n => (floatOfInt n).map some
  | .bool b => (floatOfInt (if b then 1 else 0)).map some
  | .float x => .ok (some x)
  | _ => .ok none

/-- `int(x)`, if `x` is a number, and else 0. -/
def Json.asCount : Json → Except PyError ℤ
  | .int n => .ok n
  | .bool b => .ok (if b then 1 else 0)
  | .float x => x.toInt
  | _ => .ok 0

/-- `_parse_iso`; `fromisoformat` is `none` where it raises a `ValueError`. -/
def parseIso (fromisoformat : String → Option DateTime) (value : Json) : Except PyError (Option DateTime) :=
  if !value.truthy then .ok none
  else
    match value with
    | .str s => .ok (fromisoformat (s.replace "Z" "+00:00"))
    | _ => .error .attributeError

def parseAccount (payload : Payload) (fetchedAt : ℤ) : Except PyError AccountInfo := do
  let accountId ← ((getItem payload "ID").or (getItem payload "id")).optionalStr
  let email ← ((getItem payload "Email").or (getItem payload "email")).optionalStr
  let name ← ((getItem payload "Name").or (getItem payload "name")).optionalStr
  let plan ← ((getItem payload "Plan").or (getItem payload "plan")).optionalStr
  return ⟨accountId, email, name, plan, fetchedAt⟩

/-! ### The two windows -/

inductive UsageWindow
  | session
  | weekly
deriving DecidableEq

def UsageWindow.name : UsageWindow → String
  | .session => "session"
  | .weekly => "weekly"

def ModelUsageRow.setCount (row : ModelUsageRow) (count : ℤ) : UsageWindow → ModelUsageRow
  | .session => { row with sessionRequestCount := count }
  | .weekly => { row with weeklyRequestCount := count }

/-- `models_by_name[name] = row`, of the row that was there or a new one. -/
def countModel (win : UsageWindow) (name : String) (count : ℤ) (rows : List ModelUsageRow) : List ModelUsageRow :=
  if rows.any (·.name = name) then
    rows.map fun row => if row.name = name then row.setCount count win else row
  else rows ++ [ModelUsageRow.setCount { name } count win]

/-- `for entry in window.get("models", []) or []`. -/
def parseModels (win : UsageWindow) (rows : List ModelUsageRow) : List Json → Except PyError (List ModelUsageRow)
  | [] => .ok rows
  | .dict entry :: rest =>
    match getItem entry "name" with
    | .str name =>
      if name = "" then parseModels win rows rest
      else do
        let count ← ((entry.lookup "request_count").getD (.int 0)).asCount
        parseModels win (countModel win name count rows) rest
    | _ => parseModels win rows rest
  | _ :: rest => parseModels win rows rest

/-- What a window adds: its usage as an integer and as it is, and its models. -/
def parseWindow (win : UsageWindow) (limits : Payload) (rows : List ModelUsageRow) :
    Except PyError (Option (ℤ × PyFloat) × List ModelUsageRow) :=
  match getItem limits win.name with
  | .dict window => do
    let usage ←
      match ← (getItem window "usage").asFloat with
      | some x => do
        let n ← x.toInt
        pure (some (n, x))
      | none => pure none
    let models := getItem window "models"
    let entries ← if models.truthy then models.entries else .ok []
    let rows ← parseModels win rows entries
    return (usage, rows)
  | _ => .ok (none, rows)

/-- `period.get("type") if isinstance(period.get("type"), str) else None`. -/
def periodType : Json → Option String
  | .str s => some s
  | _ => none

def parseOfficial (fromisoformat : String → Option DateTime) (payload : Payload) (fetchedAt : ℤ) :
    Except PyError OfficialUsage := do
  let period := (getItem (getItem payload "activity").asDict "period").asDict
  let periodStart ← parseIso fromisoformat (getItem period "starting_at")
  let periodEnd ← parseIso fromisoformat (getItem period "ending_at")
  let limits := (getItem payload "limits").asDict
  let (session, rows) ← parseWindow .session limits []
  let (weekly, rows) ← parseWindow .weekly limits rows
  return {
    sessionUsage := (session.map (·.1)).getD 0
    weeklyUsage := (weekly.map (·.1)).getD 0
    sessionUsageFraction := session.map (·.2)
    weeklyUsageFraction := weekly.map (·.2)
    models := rows
    periodType := periodType (getItem period "type")
    periodStart
    periodEnd
    fetchedAt }

/-- What a usage answer that is read is made of: the weekly window goes on with
the rows of the session window. -/
theorem parseOfficial_eq_ok {fromisoformat : String → Option DateTime} {payload : Payload} {fetchedAt : ℤ}
    {official : OfficialUsage} (h : parseOfficial fromisoformat payload fetchedAt = .ok official) :
    ∃ (periodStart periodEnd : Option DateTime) (session weekly : Option (ℤ × PyFloat)) (rows : List ModelUsageRow),
      parseWindow .session (getItem payload "limits").asDict [] = .ok (session, rows) ∧
      parseWindow .weekly (getItem payload "limits").asDict rows = .ok (weekly, official.models) ∧
      official = {
        sessionUsage := (session.map (·.1)).getD 0
        weeklyUsage := (weekly.map (·.1)).getD 0
        sessionUsageFraction := session.map (·.2)
        weeklyUsageFraction := weekly.map (·.2)
        models := official.models
        periodType := periodType (getItem (getItem (getItem payload "activity").asDict "period").asDict "type")
        periodStart
        periodEnd
        fetchedAt } := by
  simp only [parseOfficial] at h
  obtain ⟨periodStart, -, h⟩ := bind_eq_ok.mp h
  obtain ⟨periodEnd, -, h⟩ := bind_eq_ok.mp h
  obtain ⟨⟨session, rows⟩, hsession, h⟩ := bind_eq_ok.mp h
  obtain ⟨⟨weekly, rows'⟩, hweekly, h⟩ := bind_eq_ok.mp h
  cases h
  exact ⟨periodStart, periodEnd, session, weekly, rows, hsession, hweekly, rfl⟩

/-! ### The rows -/

/-- The model that an entry names, if it names one. -/
def modelName : Json → Option String
  | .dict entry =>
    match getItem entry "name" with
    | .str name => if name = "" then none else some name
    | _ => none
  | _ => none

@[simp] theorem ModelUsageRow.setCount_name (row : ModelUsageRow) (count : ℤ) (win : UsageWindow) :
    (row.setCount count win).name = row.name := by
  cases win <;> rfl

theorem countModel_names (win : UsageWindow) (name : String) (count : ℤ) (rows : List ModelUsageRow) :
    (countModel win name count rows).map (·.name) =
      if name ∈ rows.map (·.name) then rows.map (·.name) else rows.map (·.name) ++ [name] := by
  have hany : rows.any (·.name = name) = true ↔ name ∈ rows.map (·.name) := by simp
  unfold countModel
  by_cases hname : name ∈ rows.map (·.name)
  · rw [if_pos (hany.mpr hname), if_pos hname, List.map_map]
    refine List.map_congr_left fun row _ => ?_
    show (if row.name = name then row.setCount count win else row).name = row.name
    split_ifs <;> simp
  · rw [if_neg (fun h => hname (hany.mp h)), if_neg hname, List.map_append]
    simp

/-- A window's models add to the rows those named for the first time, in order. -/
theorem parseModels_firsts {win : UsageWindow} {entries : List Json} {rows rows' : List ModelUsageRow}
    {names : List String} (h : parseModels win rows entries = .ok rows')
    (hrows : Firsts names (rows.map (·.name))) :
    Firsts (names ++ entries.filterMap modelName) (rows'.map (·.name)) := by
  induction entries generalizing rows names with
  | nil =>
    cases h
    rw [List.filterMap_nil, List.append_nil]
    exact hrows
  | cons entry entries ih =>
    have hskip : modelName entry = none → parseModels win rows entries = .ok rows' →
        Firsts (names ++ (entry :: entries).filterMap modelName) (rows'.map (·.name)) := by
      intro hnone hrest
      rw [List.filterMap_cons_none hnone]
      exact ih hrest hrows
    cases entry with
    | dict items =>
      cases hname : getItem items "name" with
      | str name =>
        simp only [parseModels, hname] at h
        split_ifs at h with hblank
        · exact hskip (by simp [modelName, hname, hblank]) h
        · obtain ⟨count, hcount, hrest⟩ := bind_eq_ok.mp h
          have hsome : modelName (.dict items) = some name := by simp [modelName, hname, hblank]
          rw [List.filterMap_cons_some hsome, List.append_cons]
          refine ih hrest ?_
          rw [countModel_names]
          by_cases hmem : name ∈ rows.map (·.name)
          · rw [if_pos hmem]
            exact hrows.skip hmem
          · rw [if_neg hmem]
            exact hrows.keep hmem
      | _ => exact hskip (by simp [modelName, hname]) (by simpa [parseModels, hname] using h)
    | _ => exact hskip rfl h

end OllamaProxy
