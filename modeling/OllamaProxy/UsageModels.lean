/-
# What a usage answer says of the models

The entries of the session window and those of the weekly window become one row
for each name (`models_merge`): its session count is that of the last session
entry that names it, and its weekly count that of the last weekly one.

Key definitions: `modelEntries`, `lastCount`, `countOf`.
Key theorems: `parseModels_countOf`, `models_merge`.
-/
import OllamaProxy.UsageFields

namespace OllamaProxy

open Kit

/-! ### The entries of a window -/

/-- The entries of a window that is an object with a list of models. -/
def modelEntries (payload : Payload) (win : UsageWindow) : List Json :=
  match getItem (getItem (limitsOf payload) win.name).asDict "models" with
  | .list entries => entries
  | _ => []

/-- The integer part of a number; a bool is one. -/
def Json.integerPart : Json → ℤ
  | .int n => n
  | .bool b => if b then 1 else 0
  | .float (.finite q) => q.num.tdiv q.den
  | _ => 0

/-- The last of the entries that name it. -/
def lastEntry (entries : List Json) (name : String) : Option Json :=
  (entries.filter (modelName · = some name)).getLast?

/-- Its count, and 0 if no entry names it. -/
def lastCount (entries : List Json) (name : String) : ℤ :=
  (lastEntry entries name).elim 0 fun entry => (requestCount entry.asDict).integerPart

theorem asCount_eq {v : Json} {n : ℤ} (h : v.asCount = .ok n) : n = v.integerPart := by
  cases v with
  | float x => cases x <;> cases h; rfl
  | _ => cases h; rfl

/-- The entries that name no model are not looked at. -/
theorem parseModels_filter (win : UsageWindow) (rows : List ModelUsageRow) (entries : List Json) :
    parseModels win rows entries = parseModels win rows (entries.filter fun e => (modelName e).isSome) := by
  induction entries generalizing rows with
  | nil => rfl
  | cons e entries ih =>
    cases hname : modelName e with
    | none => rw [parseModels_skip hname, List.filter_cons_of_neg (by simp [hname]), ih]
    | some name =>
      obtain ⟨items, rfl⟩ := exists_dict_of_modelName hname
      rw [List.filter_cons_of_pos (by simp [hname]), parseModels_count hname, parseModels_count hname]
      exact congrArg _ (funext fun count => ih _)

/-! ### The count in a row -/

def ModelUsageRow.count (row : ModelUsageRow) : UsageWindow → ℤ
  | .session => row.sessionRequestCount
  | .weekly => row.weeklyRequestCount

/-- The count in the row of that name, if there is one. -/
def countOf (rows : List ModelUsageRow) (name : String) (win : UsageWindow) : ℤ :=
  (rows.find? (·.name = name)).elim 0 (·.count win)

theorem ModelUsageRow.setCount_count (row : ModelUsageRow) (count : ℤ) (win win' : UsageWindow) :
    (row.setCount count win).count win' = if win' = win then count else row.count win' := by
  cases win <;> cases win' <;> rfl

/-- The row of a name after another row is set. -/
theorem find?_set (rows : List ModelUsageRow) (name name' : String) (count : ℤ) (win : UsageWindow) :
    (rows.map fun row => if row.name = name then row.setCount count win else row).find? (·.name = name') =
      (rows.find? (·.name = name')).map fun row => if row.name = name then row.setCount count win else row := by
  rw [List.find?_map]
  refine congrArg _ (congrArg (List.find? · rows) (funext fun row => ?_))
  show decide ((if row.name = name then row.setCount count win else row).name = name') = decide (row.name = name')
  split_ifs <;> simp

/-- The row of a name after a count is set: that of the name itself may be new. -/
theorem find?_countModel (win : UsageWindow) (name name' : String) (count : ℤ) (rows : List ModelUsageRow) :
    (countModel win name count rows).find? (·.name = name') =
      if name' = name then some (((rows.find? (·.name = name)).getD { name }).setCount count win)
      else rows.find? (·.name = name') := by
  have hany : rows.any (·.name = name) = (rows.find? (·.name = name)).isSome := List.isSome_find?.symm
  unfold countModel
  rw [hany]
  by_cases hname : name' = name
  · subst hname
    rw [if_pos rfl]
    cases hfind : rows.find? (·.name = name') with
    | none =>
      rw [if_neg (by simp), List.find?_append, hfind]
      simp
    | some row =>
      have hrow : row.name = name' := by simpa using List.find?_some hfind
      rw [Option.isSome_some, if_pos rfl, find?_set, hfind]
      simp [hrow]
  · rw [if_neg hname]
    split_ifs
    · rw [find?_set]
      cases hfind : rows.find? (·.name = name') with
      | none => rfl
      | some row =>
        have hrow : row.name = name' := by simpa using List.find?_some hfind
        rw [Option.map_some, if_neg (by rwa [hrow])]
    · rw [List.find?_append]
      simp [Ne.symm hname]

theorem countOf_countModel (win win' : UsageWindow) (name name' : String) (count : ℤ) (rows : List ModelUsageRow) :
    countOf (countModel win name count rows) name' win' =
      if name' = name ∧ win' = win then count else countOf rows name' win' := by
  have hnew : ModelUsageRow.count { name := name } win' = 0 := by cases win' <;> rfl
  unfold countOf
  rw [find?_countModel]
  by_cases hname : name' = name
  · subst hname
    rw [if_pos rfl, Option.elim_some, ModelUsageRow.setCount_count]
    cases rows.find? (·.name = name') with
    | none => simp [hnew]
    | some row => simp
  · rw [if_neg hname, if_neg fun h => hname h.1]

theorem lastEntry_cons (e : Json) (entries : List Json) (name : String) :
    lastEntry (e :: entries) name = (lastEntry entries name).or (if modelName e = some name then some e else none) := by
  unfold lastEntry
  split_ifs with hname
  · rw [List.filter_cons_of_pos (by simpa using hname), List.getLast?_cons]
    cases (List.filter (fun x => decide (modelName x = some name)) entries).getLast? <;> rfl
  · rw [List.filter_cons_of_neg (by simpa using hname), Option.or_none]

/-- A window sets the counts of the names in its entries, to those of the last
ones, and leaves the others and the counts of the other window. -/
theorem parseModels_countOf {win : UsageWindow} {rows rows' : List ModelUsageRow} {entries : List Json}
    (h : parseModels win rows entries = .ok rows') (name : String) (win' : UsageWindow) :
    countOf rows' name win' =
      if win' = win then (lastEntry entries name).elim (countOf rows name win')
        fun entry => (requestCount entry.asDict).integerPart
      else countOf rows name win' := by
  induction entries generalizing rows with
  | nil =>
    cases h
    simp [lastEntry]
  | cons e entries ih =>
    cases hname : modelName e with
    | none =>
      rw [parseModels_skip hname] at h
      rw [ih h, lastEntry_cons, hname]
      simp
    | some name₀ =>
      obtain ⟨items, rfl⟩ := exists_dict_of_modelName hname
      rw [parseModels_count hname] at h
      obtain ⟨count, hcount, hrest⟩ := bind_eq_ok.mp h
      rw [ih hrest, lastEntry_cons, hname, countOf_countModel, asCount_eq hcount]
      by_cases hwin : win' = win
      · rw [if_pos hwin, if_pos hwin]
        cases lastEntry entries name with
        | some entry => rfl
        | none =>
          by_cases heq : name = name₀
          · simp [heq, hwin, Json.asDict]
          · simp [heq, Ne.symm heq]
      · simp [hwin]

theorem countOf_of_mem {rows : List ModelUsageRow} {row : ModelUsageRow} (hnodup : (rows.map (·.name)).Nodup)
    (hrow : row ∈ rows) (win : UsageWindow) : countOf rows row.name win = row.count win := by
  unfold countOf
  cases hfind : rows.find? (·.name = row.name) with
  | none =>
    rw [List.find?_eq_none] at hfind
    exact absurd (decide_eq_true rfl) (hfind row hrow)
  | some row' =>
    have hname : row'.name = row.name := by simpa using List.find?_some hfind
    rw [List.inj_on_of_nodup_map hnodup (List.mem_of_find?_eq_some hfind) hrow hname]
    rfl

/-! ### A payload -/

/-- The value is the other one, or occurs in it. -/
inductive Json.Occurs (v : Json) : Json → Prop
  | self : v.Occurs v
  | item {x : Json} {xs : List Json} (hx : x ∈ xs) (h : v.Occurs x) : v.Occurs (.list xs)
  | field {key : String} {x : Json} {items : Payload} (hx : (key, x) ∈ items) (h : v.Occurs x) : v.Occurs (.dict items)

/-- All numbers in the value are finite and within a float's range. -/
def Json.NumbersFit (v : Json) : Prop := ∀ w : Json, w.Occurs v → w.InRange

theorem Json.NumbersFit.item {xs : List Json} {x : Json} (h : (Json.list xs).NumbersFit) (hx : x ∈ xs) :
    x.NumbersFit := fun w hw => h w (.item hx hw)

theorem Json.numbersFit_dict {items : Payload} (h : ∀ item ∈ items, item.2.NumbersFit) :
    (Json.dict items).NumbersFit := by
  intro w hw
  cases hw with
  | self => exact trivial
  | field hx hw => exact h _ hx w hw

theorem Json.numbersFit_list {xs : List Json} (h : ∀ x ∈ xs, x.NumbersFit) : (Json.list xs).NumbersFit := by
  intro w hw
  cases hw with
  | self => exact trivial
  | item hx hw => exact h _ hx w hw

theorem Json.NumbersFit.getItem {items : Payload} (h : (Json.dict items).NumbersFit) (key : String) :
    (OllamaProxy.getItem items key).NumbersFit := by
  unfold OllamaProxy.getItem
  cases hv : items.lookup key with
  | none =>
    intro w hw
    cases hw
    exact trivial
  | some v => exact fun w hw => h w (.field (mem_of_lookup hv) hw)

theorem Json.NumbersFit.asDict {v : Json} (h : v.NumbersFit) : (Json.dict v.asDict).NumbersFit := by
  cases v with
  | dict items => exact h
  | _ =>
    intro w hw
    cases hw with
    | self => exact trivial
    | field hx => cases hx

theorem Json.InRange.isCount {v : Json} (h : v.InRange) : v.IsCount := by
  cases v with
  | float x => exact h
  | _ => exact trivial

theorem Json.NumbersFit.entriesReadable {entries : List Json} (h : (Json.list entries).NumbersFit) :
    EntriesReadable entries := by
  intro entry hmem _
  unfold requestCount
  cases hcount : entry.lookup "request_count" with
  | none => exact trivial
  | some v => exact (h v (.item hmem (.field (mem_of_lookup hcount) .self))).isCount

section

variable {payload : Payload}

/-- Each window that is an object carries a list of models. -/
def CarriesLists (payload : Payload) : Prop :=
  ∀ (win : UsageWindow) (window : Payload), getItem (limitsOf payload) win.name = .dict window →
    ∃ entries, getItem window "models" = .list entries

/-- The dates of the period are strings, where there are any. -/
def DatesAreStrings (payload : Payload) : Prop :=
  ∀ key ∈ ["starting_at", "ending_at"], ∀ v, (periodOf payload).lookup key = some v → ∃ s, v = .str s

theorem isDate_of_strings (h : DatesAreStrings payload) {key : String} (hkey : key ∈ ["starting_at", "ending_at"]) :
    (getItem (periodOf payload) key).IsDate := by
  unfold getItem
  cases hv : (periodOf payload).lookup key with
  | none => exact fun htruthy => by cases htruthy
  | some v => exact fun _ => h key hkey v hv

theorem officialReadable_of_fits (hlists : CarriesLists payload) (hnumbers : (Json.dict payload).NumbersFit)
    (hdates : DatesAreStrings payload) : OfficialReadable payload := by
  refine ⟨isDate_of_strings hdates (by simp), isDate_of_strings hdates (by simp), fun win window hwindow => ?_⟩
  have hfits : (Json.dict window).NumbersFit := by
    rw [← hwindow]
    exact ((hnumbers.getItem "limits").asDict).getItem win.name
  obtain ⟨entries, hentries⟩ := hlists win window hwindow
  have hmodels := hfits.getItem "models"
  rw [hentries] at hmodels
  refine ⟨hfits.getItem "usage" _ .self, fun _ => ⟨entries, by rw [hentries]; rfl⟩, fun entries' h => ?_⟩
  rw [hentries] at h
  cases h
  exact hmodels.entriesReadable

theorem parseWindow_models (hlists : CarriesLists payload) {win : UsageWindow} {rows rows' : List ModelUsageRow}
    {usage : Option (ℤ × PyFloat)} (h : parseWindow win (limitsOf payload) rows = .ok (usage, rows')) :
    parseModels win rows (modelEntries payload win) = .ok rows' := by
  unfold modelEntries
  by_cases hdict : ∃ window, getItem (limitsOf payload) win.name = .dict window
  · obtain ⟨window, hwindow⟩ := hdict
    obtain ⟨entries, hentries⟩ := hlists win window hwindow
    have hmodels : modelsOf (.list entries) = .ok entries := by
      cases entries <;> rfl
    rw [parseWindow_dict rows hwindow, hentries, hmodels] at h
    obtain ⟨usage', -, h⟩ := bind_eq_ok.mp h
    rw [ok_bind] at h
    obtain ⟨rows'', hrows, h⟩ := bind_eq_ok.mp h
    cases h
    simp only [hwindow, Json.asDict, hentries]
    exact hrows
  · rw [parseWindow_of_not_dict rows fun window hwindow => hdict ⟨window, hwindow⟩] at h
    cases h
    have hempty : (getItem (limitsOf payload) win.name).asDict = [] := by
      cases hv : getItem (limitsOf payload) win.name with
      | dict window => exact absurd ⟨window, hv⟩ hdict
      | _ => rfl
    rw [hempty]
    rfl

theorem parseOfficial_models (hlists : CarriesLists payload) {fromisoformat : String → Option DateTime}
    {fetchedAt : ℤ} {official : OfficialUsage} (h : parseOfficial fromisoformat payload fetchedAt = .ok official) :
    ∃ rows, parseModels .session [] (modelEntries payload .session) = .ok rows ∧
      parseModels .weekly rows (modelEntries payload .weekly) = .ok official.models := by
  obtain ⟨periodStart, periodEnd, session, weekly, rows, hsession, hweekly, -⟩ := parseOfficial_eq_ok h
  exact ⟨rows, parseWindow_models hlists hsession, parseWindow_models hlists hweekly⟩

/-- A payload whose windows carry lists and whose numbers fit is read, and has
one row for each name in either list, in order of first occurrence, with the
count of the last entry of that name in each list. The other entries change
nothing. -/
theorem models_merge (fromisoformat : String → Option DateTime) (fetchedAt : ℤ) (hlists : CarriesLists payload)
    (hnumbers : (Json.dict payload).NumbersFit) (hdates : DatesAreStrings payload) :
    ∃ official, parseOfficial fromisoformat payload fetchedAt = .ok official ∧
      Firsts ((modelEntries payload .session ++ modelEntries payload .weekly).filterMap modelName)
        (official.models.map (·.name)) ∧
      (∀ row ∈ official.models, row.sessionRequestCount = lastCount (modelEntries payload .session) row.name ∧
        row.weeklyRequestCount = lastCount (modelEntries payload .weekly) row.name) ∧
      ∀ (win : UsageWindow) (rows : List ModelUsageRow), parseModels win rows (modelEntries payload win) =
        parseModels win rows ((modelEntries payload win).filter fun e => (modelName e).isSome) := by
  obtain ⟨official, hofficial⟩ := (parseOfficial_ok_iff fromisoformat payload fetchedAt).mpr
    (officialReadable_of_fits hlists hnumbers hdates)
  obtain ⟨rows, hsession, hweekly⟩ := parseOfficial_models hlists hofficial
  have hfirsts := parseModels_firsts hweekly (parseModels_firsts hsession Firsts.nil)
  rw [List.nil_append, ← List.filterMap_append] at hfirsts
  refine ⟨official, hofficial, hfirsts, fun row hrow => ⟨?_, ?_⟩, fun win rows => parseModels_filter win rows _⟩
  · calc row.sessionRequestCount
        = countOf official.models row.name .session := (countOf_of_mem hfirsts.nodup hrow .session).symm
      _ = countOf rows row.name .session := parseModels_countOf hweekly row.name .session
      _ = lastCount (modelEntries payload .session) row.name := parseModels_countOf hsession row.name .session
  · have hnone : countOf rows row.name .weekly = 0 := parseModels_countOf hsession row.name .weekly
    calc row.weeklyRequestCount
        = countOf official.models row.name .weekly := (countOf_of_mem hfirsts.nodup hrow .weekly).symm
      _ = (lastEntry (modelEntries payload .weekly) row.name).elim (countOf rows row.name .weekly) _ :=
        parseModels_countOf hweekly row.name .weekly
      _ = lastCount (modelEntries payload .weekly) row.name := by rw [hnone]; rfl

end

namespace Sample

/-- The models of the two windows. -/
def withModels (session weekly : List Json) : Payload :=
  [("limits", .dict [("session", .dict [("models", .list session)]), ("weekly", .dict [("models", .list weekly)])])]

def named (name : String) (count : Json) : Json := .dict [("name", .str name), ("request_count", count)]

theorem withModels_carriesLists (session weekly : List Json) : CarriesLists (withModels session weekly) := by
  intro win window hwindow
  cases win with
  | session =>
    cases hwindow
    exact ⟨session, rfl⟩
  | weekly =>
    cases hwindow
    exact ⟨weekly, rfl⟩

theorem withModels_dates (session weekly : List Json) : DatesAreStrings (withModels session weekly) := by
  intro key _ v hv
  cases hv

theorem withModels_numbersFit {session weekly : List Json} (h : ∀ entry ∈ session ++ weekly, entry.NumbersFit) :
    (Json.dict (withModels session weekly)).NumbersFit := by
  have hwindow : ∀ entries : List Json, (∀ entry ∈ entries, entry.NumbersFit) →
      (Json.dict [("models", .list entries)]).NumbersFit := fun entries hentries =>
    Json.numbersFit_dict fun item hitem => by
      cases List.mem_singleton.mp hitem
      exact Json.numbersFit_list hentries
  refine Json.numbersFit_dict fun item hitem => ?_
  cases List.mem_singleton.mp hitem
  refine Json.numbersFit_dict fun item hitem => ?_
  rcases List.mem_cons.mp hitem with rfl | hitem
  · exact hwindow session fun entry hentry => h entry (List.mem_append_left _ hentry)
  · cases List.mem_singleton.mp hitem
    exact hwindow weekly fun entry hentry => h entry (List.mem_append_right _ hentry)

theorem named_numbersFit {name : String} {count : Json} (hcount : count.NumbersFit) :
    (named name count).NumbersFit := by
  refine Json.numbersFit_dict fun item hitem => ?_
  rcases List.mem_cons.mp hitem with rfl | hitem
  · intro w hw
    cases hw
    exact trivial
  · cases List.mem_singleton.mp hitem
    exact hcount

theorem null_numbersFit : Json.null.NumbersFit := by
  intro w hw
  cases hw
  exact trivial

theorem int_numbersFit {n : ℕ} (h : n < 2 ^ 53) : (Json.int n).NumbersFit := by
  intro w hw
  cases hw
  have hsize : n.size - 53 = 0 := Nat.sub_eq_zero_of_le (Nat.size_le.mpr h)
  have hsmall := (h.trans (Nat.pow_lt_pow_right (a := 2) Nat.one_lt_two (show 53 < 1024 by decide))).not_ge
  exact ⟨.finite ((n : ℤ).sign * n), by simp [floatOfInt, hsize, Nat.mod_one, hsmall]⟩

theorem bool_numbersFit (b : Bool) : (Json.bool b).NumbersFit := by
  intro w hw
  cases hw
  exact trivial

/-- Two entries of the session window and one of the weekly window name `a`. -/
def mixed : Payload :=
  withModels [named "a" (.int 1), named "b" (.int 2), named "a" (.int 3), .null]
    [named "c" (.int 4), .str "b", named "a" (.int 5)]

theorem mixed_numbersFit : (Json.dict mixed).NumbersFit := by
  refine withModels_numbersFit ?_
  simp only [List.cons_append, List.nil_append, List.forall_mem_cons, List.not_mem_nil, false_implies, implies_true,
    and_true]
  have hcount : ∀ n : ℕ, n < 2 ^ 53 → ∀ name, (named name (.int n)).NumbersFit := fun n hn name =>
    named_numbersFit (int_numbersFit hn)
  refine ⟨hcount 1 (by decide) "a", hcount 2 (by decide) "b", hcount 3 (by decide) "a", null_numbersFit,
    hcount 4 (by decide) "c", ?_, hcount 5 (by decide) "a"⟩
  intro w hw
  cases hw
  exact trivial

theorem models_merge_named :
    ∃ official, parseOfficial (fun _ => none) mixed 0 = .ok official ∧
      official.models = [⟨"a", 3, 5⟩, ⟨"b", 2, 0⟩, ⟨"c", 0, 4⟩] ∧
      Firsts ["a", "b", "a", "c", "a"] (official.models.map (·.name)) ∧
      ∀ row ∈ official.models, row.sessionRequestCount = lastCount (modelEntries mixed .session) row.name ∧
        row.weeklyRequestCount = lastCount (modelEntries mixed .weekly) row.name := by
  obtain ⟨official, hofficial, hfirsts, hcounts, -⟩ :=
    models_merge (fun _ => none) 0 (withModels_carriesLists _ _) mixed_numbersFit (withModels_dates _ _)
  have hmodels : official.models = [⟨"a", 3, 5⟩, ⟨"b", 2, 0⟩, ⟨"c", 0, 4⟩] := by
    cases hofficial
    decide
  exact ⟨official, hofficial, hmodels, hfirsts, hcounts⟩

/-- A count that is `true` is taken for the number 1. -/
theorem true_counts :
    CarriesLists (withModels [named "a" (.bool true)] []) ∧
      (Json.dict (withModels [named "a" (.bool true)] [])).NumbersFit ∧
      DatesAreStrings (withModels [named "a" (.bool true)] []) ∧
      lastEntry (modelEntries (withModels [named "a" (.bool true)] []) .session) "a" = some (named "a" (.bool true)) ∧
      ∃ official, parseOfficial (fun _ => none) (withModels [named "a" (.bool true)] []) 0 = .ok official ∧
        official.models = [⟨"a", 1, 0⟩] := by
  refine ⟨withModels_carriesLists _ _, withModels_numbersFit fun entry hentry => ?_, withModels_dates _ _, ?_, ?_⟩
  · cases List.mem_singleton.mp hentry
    exact named_numbersFit (bool_numbersFit true)
  · simp [lastEntry, modelEntries, limitsOf, withModels, named, getItem, Json.asDict, UsageWindow.name, modelName]
  · exact ⟨_, rfl, by decide⟩

end Sample

end OllamaProxy
