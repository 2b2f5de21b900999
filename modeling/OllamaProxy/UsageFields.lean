/-
# Which answers are read, and what they say of the models

`parse_account` and `_parse_official` check the types of some fields and not of
others. `AccountReadable` and `OfficialReadable` say of which payloads they return
something: a field they do not check has the type that is expected of it, and
the numbers fit.

Key definitions: `AccountReadable`, `OfficialReadable`.
Key theorems: `parseAccount_ok_iff`, `parseOfficial_ok_iff`, `parseSnapshot_ok_iff`.
-/
import OllamaProxy.UsageService

namespace OllamaProxy

open Kit

/-! ### Fields that a parser reads -/

/-- Null or a string. -/
def Json.IsOptionalStr : Json → Prop
  | .null | .str _ => True
  | _ => False

/-- Falsy or a string. -/
def Json.IsDate (v : Json) : Prop := v.truthy = true → ∃ s, v = .str s

/-- A number is finite and within a float's range. -/
def Json.InRange : Json → Prop
  | .int n => ∃ x, floatOfInt n = .ok x
  | .float x => ∃ q, x = .finite q
  | _ => True

/-- A float is finite. -/
def Json.IsCount : Json → Prop
  | .float x => ∃ q, x = .finite q
  | _ => True

/-- Falsy, or a value that can be iterated over. -/
def Json.IsIterable (v : Json) : Prop := v.truthy = true → ∃ entries, v.entries = .ok entries

/-- `payload.get(upper) or payload.get(lower)`, of the four fields. -/
def AccountReadable (payload : Payload) : Prop :=
  ∀ names ∈ [("ID", "id"), ("Email", "email"), ("Name", "name"), ("Plan", "plan")],
    ((getItem payload names.1).or (getItem payload names.2)).IsOptionalStr

/-- The count of an entry. -/
def requestCount (entry : Payload) : Json := (entry.lookup "request_count").getD (.int 0)

/-- The counts of the entries that name a model. -/
def EntriesReadable (entries : List Json) : Prop :=
  ∀ entry, .dict entry ∈ entries → modelName (.dict entry) ≠ none → (requestCount entry).IsCount

def WindowReadable (window : Payload) : Prop :=
  (getItem window "usage").InRange ∧ (getItem window "models").IsIterable ∧
    ∀ entries, (getItem window "models").entries = .ok entries → EntriesReadable entries

/-- The items of `activity.period`. -/
def periodOf (payload : Payload) : Payload := (getItem (getItem payload "activity").asDict "period").asDict

def limitsOf (payload : Payload) : Payload := (getItem payload "limits").asDict

def OfficialReadable (payload : Payload) : Prop :=
  (getItem (periodOf payload) "starting_at").IsDate ∧ (getItem (periodOf payload) "ending_at").IsDate ∧
    ∀ (win : UsageWindow) (window : Payload), getItem (limitsOf payload) win.name = .dict window →
      WindowReadable window

section

variable {ε α β : Type}

theorem exists_bind_ok_iff {x : Except ε α} {f : α → Except ε β} :
    (∃ b, x >>= f = .ok b) ↔ ∃ a, x = .ok a ∧ ∃ b, f a = .ok b := by
  constructor
  · rintro ⟨b, hb⟩
    obtain ⟨a, ha, hf⟩ := bind_eq_ok.mp hb
    exact ⟨a, ha, b, hf⟩
  · rintro ⟨a, ha, b, hf⟩
    exact ⟨b, bind_eq_ok.mpr ⟨a, ha, hf⟩⟩

/-- Where what follows always returns something. -/
theorem exists_bind_ok_iff_of {x : Except ε α} {f : α → Except ε β} {p : Prop} (hf : ∀ a, (∃ b, f a = .ok b) ↔ p) :
    (∃ b, x >>= f = .ok b) ↔ (∃ a, x = .ok a) ∧ p := by
  rw [exists_bind_ok_iff]
  constructor
  · rintro ⟨a, ha, hb⟩
    exact ⟨⟨a, ha⟩, (hf a).mp hb⟩
  · rintro ⟨⟨a, ha⟩, hp⟩
    exact ⟨a, ha, (hf a).mpr hp⟩

theorem exists_pure_ok (a : α) : (∃ b, (pure a : Except ε α) = .ok b) ↔ True := iff_true_intro ⟨a, rfl⟩

end

theorem optionalStr_ok_iff (v : Json) : (∃ s, v.optionalStr = .ok s) ↔ v.IsOptionalStr := by
  cases v <;> simp [Json.optionalStr, Json.IsOptionalStr]

theorem parseIso_ok_iff (fromisoformat : String → Option DateTime) (v : Json) :
    (∃ d, parseIso fromisoformat v = .ok d) ↔ v.IsDate := by
  unfold parseIso Json.IsDate
  by_cases hv : v.truthy = true
  · rw [hv, if_neg (by simp)]
    cases v <;> simp
  · rw [Bool.not_eq_true] at hv
    rw [hv]
    simp

theorem asCount_ok_iff (v : Json) : (∃ n, v.asCount = .ok n) ↔ v.IsCount := by
  cases v with
  | float x => cases x <;> simp [Json.asCount, Json.IsCount, PyFloat.toInt]
  | _ => simp [Json.asCount, Json.IsCount]

theorem floatOfInt_finite {n : ℤ} {x : PyFloat} (h : floatOfInt n = .ok x) : ∃ q, x = .finite q := by
  unfold floatOfInt at h
  simp only at h
  split_ifs at h
  · cases h
    exact ⟨_, rfl⟩
  · cases h
    exact ⟨_, rfl⟩

theorem floatOfInt_bool (b : Bool) : ∃ q, floatOfInt (if b then 1 else 0) = .ok (.finite q) := by
  have hone : ¬ 2 ^ 1024 ≤ 1 := (Nat.one_lt_two_pow (n := 1024) (by simp)).not_ge
  cases b with
  | true => exact ⟨1, by simp [floatOfInt, Nat.size_one, hone]⟩
  | false => exact ⟨0, by simp [floatOfInt]⟩

/-! ### A window -/

/-- The usage of a window, as an integer and as it is. -/
def usageOf (v : Json) : Except PyError (Option (ℤ × PyFloat)) :=
  v.asFloat >>= fun x =>
    match x with
    | some x => x.toInt >>= fun n => pure (some (n, x))
    | none => pure none

/-- `x or []`. -/
def modelsOf (v : Json) : Except PyError (List Json) := if v.truthy then v.entries else .ok []

theorem parseWindow_dict {win : UsageWindow} {limits window : Payload} (rows : List ModelUsageRow)
    (h : getItem limits win.name = .dict window) :
    parseWindow win limits rows = usageOf (getItem window "usage") >>= fun usage =>
      modelsOf (getItem window "models") >>= fun entries =>
        parseModels win rows entries >>= fun rows => pure (usage, rows) := by
  have hmodels : ∀ usage, (if (getItem window "models").truthy = true then
      (getItem window "models").entries >>= fun entries => parseModels win rows entries >>= fun rows => pure (usage, rows)
      else parseModels win rows [] >>= fun rows => pure (usage, rows)) =
      (modelsOf (getItem window "models") >>= fun entries => parseModels win rows entries >>= fun rows =>
        (pure (usage, rows) : Except PyError (Option (ℤ × PyFloat) × List ModelUsageRow))) := by
    intro usage
    unfold modelsOf
    split_ifs <;> rfl
  simp only [parseWindow, h, usageOf]
  cases hfloat : (getItem window "usage").asFloat with
  | error e => rfl
  | ok x =>
    cases x with
    | none => exact hmodels none
    | some x =>
      simp only [ok_bind]
      cases hint : x.toInt with
      | error e => rfl
      | ok n => exact hmodels (some (n, x))

theorem parseWindow_of_not_dict {win : UsageWindow} {limits : Payload} (rows : List ModelUsageRow)
    (h : ∀ window, getItem limits win.name ≠ .dict window) : parseWindow win limits rows = .ok (none, rows) := by
  unfold parseWindow
  split
  · rename_i window hwindow
    exact absurd hwindow (h window)
  · rfl

theorem usageOf_of_finite {v : Json} {q : ℚ} (h : v.asFloat = .ok (some (.finite q))) :
    ∃ usage, usageOf v = .ok usage := by
  rw [usageOf, h]
  exact ⟨_, rfl⟩

theorem usageOf_ok_iff (v : Json) : (∃ usage, usageOf v = .ok usage) ↔ v.InRange := by
  cases v with
  | int n =>
    cases hn : floatOfInt n with
    | error e =>
      refine iff_of_false ?_ ?_
      · rintro ⟨usage, h⟩
        simp [usageOf, Json.asFloat, hn, Except.map, error_bind] at h
      · rintro ⟨x, hx⟩
        rw [hn] at hx
        cases hx
    | ok x =>
      obtain ⟨q, rfl⟩ := floatOfInt_finite hn
      refine iff_of_true (usageOf_of_finite (q := q) ?_) ⟨_, hn⟩
      rw [Json.asFloat, hn]
      rfl
  | float x =>
    cases x with
    | finite q => exact iff_of_true (usageOf_of_finite rfl) ⟨q, rfl⟩
    | inf => exact iff_of_false (by rintro ⟨usage, h⟩; cases h) (by rintro ⟨q, h⟩; cases h)
    | negInf => exact iff_of_false (by rintro ⟨usage, h⟩; cases h) (by rintro ⟨q, h⟩; cases h)
    | nan => exact iff_of_false (by rintro ⟨usage, h⟩; cases h) (by rintro ⟨q, h⟩; cases h)
  | bool b =>
    obtain ⟨q, hq⟩ := floatOfInt_bool b
    refine iff_of_true (usageOf_of_finite (q := q) ?_) trivial
    rw [Json.asFloat, hq]
    rfl
  | null => exact iff_of_true ⟨none, rfl⟩ trivial
  | str s => exact iff_of_true ⟨none, rfl⟩ trivial
  | list xs => exact iff_of_true ⟨none, rfl⟩ trivial
  | dict items => exact iff_of_true ⟨none, rfl⟩ trivial

theorem modelsOf_ok_iff (v : Json) : (∃ entries, modelsOf v = .ok entries) ↔ v.IsIterable := by
  unfold modelsOf Json.IsIterable
  by_cases hv : v.truthy = true
  · rw [if_pos hv]
    exact ⟨fun h _ => h, fun h => h hv⟩
  · rw [if_neg hv]
    exact iff_of_true ⟨[], rfl⟩ fun h => absurd h hv

theorem EntriesReadable.cons_iff {e : Json} {entries : List Json} : EntriesReadable (e :: entries) ↔
    (∀ entry, e = .dict entry → modelName e ≠ none → (requestCount entry).IsCount) ∧ EntriesReadable entries := by
  constructor
  · intro h
    refine ⟨fun entry he hname => ?_, fun entry hmem => h entry (List.mem_cons_of_mem e hmem)⟩
    subst he
    exact h entry List.mem_cons_self hname
  · rintro ⟨he, hrest⟩ entry hmem hname
    rcases List.mem_cons.mp hmem with rfl | hmem
    · exact he entry rfl hname
    · exact hrest entry hmem hname

/-- An entry that names no model is passed over. -/
theorem parseModels_skip {e : Json} (h : modelName e = none) (win : UsageWindow) (rows : List ModelUsageRow)
    (entries : List Json) : parseModels win rows (e :: entries) = parseModels win rows entries := by
  cases e with
  | dict items =>
    cases hname : getItem items "name" with
    | str name =>
      simp only [modelName, hname, ite_eq_left_iff, reduceCtorEq, imp_false, not_not] at h
      simp [parseModels, hname, h]
    | _ => simp [parseModels, hname]
  | _ => rfl

/-- An entry that names one counts for it. -/
theorem parseModels_count {items : Payload} {name : String} (h : modelName (.dict items) = some name)
    (win : UsageWindow) (rows : List ModelUsageRow) (entries : List Json) :
    parseModels win rows (.dict items :: entries) = (requestCount items).asCount >>= fun count =>
      parseModels win (countModel win name count rows) entries := by
  cases hname : getItem items "name" with
  | str name' =>
    simp only [modelName, hname, Option.ite_none_left_eq_some, Option.some.injEq] at h
    obtain ⟨hblank, rfl⟩ := h
    simp only [parseModels, hname, hblank, if_false]
    rfl
  | _ => simp [modelName, hname] at h

theorem exists_dict_of_modelName {e : Json} {name : String} (h : modelName e = some name) :
    ∃ items, e = .dict items := by
  cases e with
  | dict items => exact ⟨items, rfl⟩
  | _ => cases h

theorem parseModels_ok_iff (win : UsageWindow) (rows : List ModelUsageRow) (entries : List Json) :
    (∃ rows', parseModels win rows entries = .ok rows') ↔ EntriesReadable entries := by
  induction entries generalizing rows with
  | nil => exact iff_of_true ⟨rows, rfl⟩ fun entry h => by cases h
  | cons e entries ih =>
    rw [EntriesReadable.cons_iff]
    cases hname : modelName e with
    | none =>
      rw [parseModels_skip hname, ih]
      simp
    | some name =>
      obtain ⟨items, rfl⟩ := exists_dict_of_modelName hname
      rw [parseModels_count hname, exists_bind_ok_iff_of fun count => ih (countModel win name count rows),
        asCount_ok_iff]
      simp

/-- The models of a window that are read one by one. -/
theorem modelsOf_entries {v : Json} {entries : List Json} (h : modelsOf v = .ok entries) :
    v.entries = .ok entries ∨ entries = [] ∧ ∀ entries', v.entries = .ok entries' → entries' = [] := by
  unfold modelsOf at h
  split_ifs at h with hv
  · exact Or.inl h
  · cases h
    refine Or.inr ⟨rfl, fun entries' h => ?_⟩
    cases v with
    | str s =>
      have hs : s = "" := by simpa [Json.truthy] using hv
      subst hs
      cases h
      rfl
    | list xs =>
      cases h
      simpa [Json.truthy] using hv
    | dict items =>
      cases h
      simpa [Json.truthy] using hv
    | _ => cases h

theorem modelsOf_readable_iff (v : Json) :
    (∃ entries, modelsOf v = .ok entries ∧ EntriesReadable entries) ↔
      v.IsIterable ∧ ∀ entries, v.entries = .ok entries → EntriesReadable entries := by
  have hnil : EntriesReadable [] := fun entry hmem => by cases hmem
  constructor
  · rintro ⟨entries, hmodels, hread⟩
    refine ⟨(modelsOf_ok_iff v).mp ⟨entries, hmodels⟩, fun entries' h => ?_⟩
    rcases modelsOf_entries hmodels with hentries | ⟨-, hfalsy⟩
    · cases hentries.symm.trans h
      exact hread
    · rw [hfalsy entries' h]
      exact hnil
  · rintro ⟨hiter, hread⟩
    obtain ⟨entries, hmodels⟩ := (modelsOf_ok_iff v).mpr hiter
    refine ⟨entries, hmodels, ?_⟩
    rcases modelsOf_entries hmodels with hentries | ⟨rfl, -⟩
    · exact hread entries hentries
    · exact hnil

theorem parseWindow_ok_iff (win : UsageWindow) (limits : Payload) (rows : List ModelUsageRow) :
    (∃ x, parseWindow win limits rows = .ok x) ↔
      ∀ window, getItem limits win.name = .dict window → WindowReadable window := by
  by_cases hdict : ∃ window, getItem limits win.name = .dict window
  · obtain ⟨window, hwindow⟩ := hdict
    have hiff : (∃ x, parseWindow win limits rows = .ok x) ↔ WindowReadable window := by
      have hrows : ∀ (usage : Option (ℤ × PyFloat)) (entries : List Json),
          (∃ x, (parseModels win rows entries >>= fun rows => pure (usage, rows)) =
            (.ok x : Except PyError (Option (ℤ × PyFloat) × List ModelUsageRow))) ↔ EntriesReadable entries := by
        intro usage entries
        rw [exists_bind_ok_iff_of (p := True) fun rows => exists_pure_ok _, and_true]
        exact parseModels_ok_iff win rows entries
      have hmodels : ∀ usage : Option (ℤ × PyFloat),
          (∃ x, (modelsOf (getItem window "models") >>= fun entries =>
            parseModels win rows entries >>= fun rows => pure (usage, rows)) =
              (.ok x : Except PyError (Option (ℤ × PyFloat) × List ModelUsageRow))) ↔
            (getItem window "models").IsIterable ∧
              ∀ entries, (getItem window "models").entries = .ok entries → EntriesReadable entries := by
        intro usage
        rw [exists_bind_ok_iff]
        simp only [hrows]
        exact modelsOf_readable_iff (getItem window "models")
      rw [parseWindow_dict rows hwindow, exists_bind_ok_iff_of hmodels, usageOf_ok_iff]
      rfl
    rw [hiff]
    constructor
    · intro h window' hwindow'
      cases hwindow.symm.trans hwindow'
      exact h
    · exact fun h => h window hwindow
  · rw [parseWindow_of_not_dict rows fun window h => hdict ⟨window, h⟩]
    exact iff_of_true ⟨_, rfl⟩ fun window h => absurd ⟨window, h⟩ hdict

/-! ### The two answers -/

/-- `/api/me` is read exactly when each of the four fields is null or a string. -/
theorem parseAccount_ok_iff (payload : Payload) (fetchedAt : ℤ) :
    (∃ account, parseAccount payload fetchedAt = .ok account) ↔ AccountReadable payload := by
  unfold parseAccount AccountReadable
  simp only [exists_bind_ok_iff, exists_pure_ok, and_true, exists_and_right, optionalStr_ok_iff, List.mem_cons,
    List.not_mem_nil, or_false, forall_eq_or_imp, forall_eq]

/-- `/api/usage` is read exactly when the two dates of the period are null or
strings, and each window that is an object is read. -/
theorem parseOfficial_ok_iff (fromisoformat : String → Option DateTime) (payload : Payload) (fetchedAt : ℤ) :
    (∃ official, parseOfficial fromisoformat payload fetchedAt = .ok official) ↔ OfficialReadable payload := by
  unfold parseOfficial OfficialReadable
  simp only [exists_bind_ok_iff, exists_pure_ok, and_true, exists_and_right, parseIso_ok_iff]
  refine and_congr_right' (and_congr_right' ?_)
  constructor
  · rintro ⟨a, ha, hb⟩ win
    cases win with
    | session => exact (parseWindow_ok_iff .session (limitsOf payload) []).mp ⟨a, ha⟩
    | weekly => exact (parseWindow_ok_iff .weekly (limitsOf payload) a.2).mp hb
  · intro h
    obtain ⟨a, ha⟩ := (parseWindow_ok_iff .session (limitsOf payload) []).mpr (h .session)
    exact ⟨a, ha, (parseWindow_ok_iff .weekly (limitsOf payload) a.2).mpr (h .weekly)⟩

theorem parseSnapshot_ok_iff (lib : UsageLibrary) (account usage : Payload) (fetchedAt : ℤ) :
    (∃ snap, parseSnapshot lib account usage fetchedAt = .ok snap) ↔ AccountReadable account ∧ OfficialReadable usage := by
  rw [← parseAccount_ok_iff account fetchedAt, ← parseOfficial_ok_iff lib.fromisoformat usage fetchedAt]
  unfold parseSnapshot
  cases parseAccount account fetchedAt <;> cases parseOfficial lib.fromisoformat usage fetchedAt <;>
    simp [Except.mapError, bind, Except.bind, pure, Except.pure]

end OllamaProxy
