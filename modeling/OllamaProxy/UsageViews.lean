/-
# The two views of the usage in a row

The integer and the fraction of a window come from one field of the answer
(`parseOfficial_consistent`), and are written by two rules: the integer always,
and the fraction if the answer has one. Sessions load the row, and write back
what differs from their copies; a usage beyond 64 bits makes the flush raise, and
the row stays. A write keeps the two views consistent exactly if it does not
change one of them and leave the other where it does not fit (`WindowKept`).

Key definitions: `Views`, `KeySessions.step`, `KeySessions.Keeps`.
Key theorems: `parseOfficial_consistent`, `windowKept_iff`,
`views_consistent_iff`.
-/
import OllamaProxy.UsagePersist
import OllamaProxy.UsageFields

namespace OllamaProxy

open Kit

/-- A fraction that is set has the integer for its integer part. -/
def Views (usage : Option ℤ) (fraction : Option PyFloat) : Prop :=
  ∀ x, fraction = some x → ∃ n, usage = some n ∧ x.toInt = .ok n

def UsageColumns.session (row : UsageColumns) : Option ℤ × Option PyFloat :=
  (row.lastUsageSession, row.lastUsageSessionFraction)

def UsageColumns.weekly (row : UsageColumns) : Option ℤ × Option PyFloat :=
  (row.lastUsageWeekly, row.lastUsageWeeklyFraction)

def UsageColumns.Consistent (row : UsageColumns) : Prop :=
  Views row.session.1 row.session.2 ∧ Views row.weekly.1 row.weekly.2

def OfficialUsage.Consistent (official : OfficialUsage) : Prop :=
  Views (some official.sessionUsage) official.sessionUsageFraction ∧
    Views (some official.weeklyUsage) official.weeklyUsageFraction

theorem views_none (usage : Option ℤ) : Views usage none := by
  intro x hx
  cases hx

theorem views_some_iff {usage : Option ℤ} {x : PyFloat} :
    Views usage (some x) ↔ ∃ n, usage = some n ∧ x.toInt = .ok n := by
  simp [Views]

/-! ### What is parsed -/

theorem usageOf_some {v : Json} {n : ℤ} {x : PyFloat} (h : usageOf v = .ok (some (n, x))) : x.toInt = .ok n := by
  obtain ⟨y, -, h⟩ := bind_eq_ok.mp h
  cases y with
  | none => cases h
  | some y =>
    obtain ⟨m, hm, h⟩ := bind_eq_ok.mp h
    cases h
    exact hm

theorem parseWindow_views {win : UsageWindow} {limits : Payload} {rows rows' : List ModelUsageRow}
    {usage : Option (ℤ × PyFloat)} (h : parseWindow win limits rows = .ok (usage, rows')) :
    Views (some ((usage.map (·.1)).getD 0)) (usage.map (·.2)) := by
  cases usage with
  | none => exact views_none _
  | some nx =>
    obtain ⟨n, x⟩ := nx
    refine views_some_iff.mpr ⟨n, rfl, ?_⟩
    by_cases hdict : ∃ window, getItem limits win.name = .dict window
    · obtain ⟨window, hwindow⟩ := hdict
      rw [parseWindow_dict rows hwindow] at h
      obtain ⟨usage, husage, h⟩ := bind_eq_ok.mp h
      obtain ⟨entries, -, h⟩ := bind_eq_ok.mp h
      obtain ⟨rows'', -, h⟩ := bind_eq_ok.mp h
      cases h
      exact usageOf_some husage
    · rw [parseWindow_of_not_dict rows fun window hwindow => hdict ⟨window, hwindow⟩] at h
      cases h

/-- The integers of a usage answer are the integer parts of its fractions. -/
theorem parseOfficial_consistent {fromisoformat : String → Option DateTime} {payload : Payload} {fetchedAt : ℤ}
    {official : OfficialUsage} (h : parseOfficial fromisoformat payload fetchedAt = .ok official) :
    official.Consistent := by
  obtain ⟨periodStart, periodEnd, session, weekly, rows, hsession, hweekly, hofficial⟩ := parseOfficial_eq_ok h
  rw [hofficial]
  exact ⟨parseWindow_views hsession, parseWindow_views hweekly⟩

/-! ### One window -/

/-- What a write of the usage `n` and the fraction `x` needs of the two columns.
Where it changes the integer and not the fraction, the fraction has to fit the
new integer; where it changes the fraction and not the integer, the integer has
to be the new one. -/
def WindowKept (copy row : Option ℤ × Option PyFloat) (n : ℤ) (x : Option PyFloat) : Prop :=
  (copy.1 ≠ some n → x = none ∨ copy.2 = x → ∀ y, row.2 = some y → y.toInt = .ok n) ∧
    (copy.1 = some n → x ≠ none → copy.2 ≠ x → row.1 = some n)

section

variable {copy row : Option ℤ × Option PyFloat} {n : ℤ} {x : Option PyFloat}

/-- The fraction of the row after the write. -/
theorem fraction_eq (copy row x : Option PyFloat) :
    (x.elim row fun v => netChange copy (some v) row) = if x = none ∨ copy = x then row else x := by
  cases x with
  | none => simp
  | some v =>
    by_cases hv : copy = some v
    · simp [netChange, hv]
    · simp [netChange, hv, Ne.symm hv]

theorem windowKept_iff (hrow : Views row.1 row.2) (hx : Views (some n) x) :
    Views (netChange copy.1 (some n) row.1) (x.elim row.2 fun v => netChange copy.2 (some v) row.2) ↔
      WindowKept copy row n x := by
  rw [fraction_eq]
  unfold WindowKept
  by_cases hn : copy.1 = some n
  · have hint : netChange copy.1 (some n) row.1 = row.1 := by simp [netChange, hn]
    rw [hint]
    by_cases hkept : x = none ∨ copy.2 = x
    · rw [if_pos hkept]
      refine iff_of_true hrow ⟨fun hne => absurd hn hne, fun _ hsome hne => ?_⟩
      rcases hkept with hnone | heq
      · exact absurd hnone hsome
      · exact absurd heq hne
    · rw [if_neg hkept]
      push Not at hkept
      obtain ⟨v, rfl⟩ := Option.ne_none_iff_exists'.mp hkept.1
      obtain ⟨m, hm, hv⟩ := views_some_iff.mp hx
      cases hm
      rw [views_some_iff]
      constructor
      · rintro ⟨m, hm, hv'⟩
        cases hv.symm.trans hv'
        exact ⟨fun hne => absurd hn hne, fun _ _ _ => hm⟩
      · rintro ⟨-, h⟩
        exact ⟨n, h hn hkept.1 hkept.2, hv⟩
  · have hint : netChange copy.1 (some n) row.1 = some n := netChange_of_ne (Ne.symm hn) row.1
    rw [hint]
    by_cases hkept : x = none ∨ copy.2 = x
    · rw [if_pos hkept]
      constructor
      · intro h
        refine ⟨fun _ _ y hy => ?_, fun h' => absurd h' hn⟩
        obtain ⟨m, hm, hy'⟩ := h y hy
        cases hm
        exact hy'
      · rintro ⟨h, -⟩ y hy
        exact ⟨n, rfl, h hn hkept y hy⟩
    · rw [if_neg hkept]
      exact iff_of_true hx ⟨fun _ h => absurd h hkept, fun h => absurd h hn⟩

/-- On a copy of the row as it is, only a missing fraction is in question. -/
theorem windowKept_fresh_iff (hrow : Views row.1 row.2) (hx : Views (some n) x) :
    WindowKept row row n x ↔ (x = none → ∀ y, row.2 = some y → y.toInt = .ok n) := by
  constructor
  · rintro ⟨h, -⟩ hnone y hy
    by_cases hn : row.1 = some n
    · obtain ⟨m, hm, hy'⟩ := hrow y hy
      cases hn.symm.trans hm
      exact hy'
    · exact h hn (Or.inl hnone) y hy
  · intro h
    refine ⟨fun hn hkept y hy => ?_, fun hn _ _ => hn⟩
    rcases hkept with hnone | heq
    · exact h hnone y hy
    · obtain ⟨m, hm, hy'⟩ := hx y (heq.symm.trans hy)
      cases hm
      exact hy'

end

/-! ### Sessions with a row -/

/-- The row of one key, and the copies of it that the sessions have. A column of
a copy that has expired is the one of the row. -/
structure KeySessions where
  row : UsageColumns
  copies : ℕ → UsageColumns → UsageColumns

namespace KeySessions

/-- A session loads the row, or its copy is passed to `persist_snapshot`. -/
inductive Action
  | load (q : ℕ)
  | persistSnapshot (q : ℕ) (snapshot : KeyUsageSnapshot)

def new : KeySessions := ⟨{}, fun _ _ => {}⟩

/-- What the session has of the row. -/
def copy (s : KeySessions) (q : ℕ) : UsageColumns := s.copies q s.row

/-- The copy has what was assigned, also after the commit. If the flush raises,
the session is rolled back, and its copy has expired. -/
def persistSnapshot (s : KeySessions) (q : ℕ) (snapshot : KeyUsageSnapshot) : KeySessions :=
  if snapshot.upstreamStatus = .ok then
    if snapshot.fits (s.copy q) then
      { row := persist (s.copy q) snapshot s.row
        copies := Function.update s.copies q fun row => persist (s.copies q row) snapshot (s.copies q row) }
    else { s with copies := Function.update s.copies q id }
  else s

def step (s : KeySessions) : Action → Option KeySessions
  | .load q => some { s with copies := Function.update s.copies q fun _ => s.row }
  | .persistSnapshot q snapshot => some (s.persistSnapshot q snapshot)

/-- Its usage, if it has one, was parsed from an answer. -/
def Action.Parsed : Action → Prop
  | .load _ => True
  | .persistSnapshot _ snapshot => ∀ official, snapshot.official = some official → official.Consistent

/-- What is written fits what is left. -/
def Keeps (s : KeySessions) : Action → Prop
  | .load _ => True
  | .persistSnapshot q snapshot =>
    snapshot.upstreamStatus = .ok → snapshot.fits (s.copy q) = true → ∀ official, snapshot.official = some official →
      WindowKept (s.copy q).session s.row.session official.sessionUsage official.sessionUsageFraction ∧
        WindowKept (s.copy q).weekly s.row.weekly official.weeklyUsage official.weeklyUsageFraction

variable {s s' : KeySessions} {a : Action} {as : List Action}

theorem persist_consistent_iff {copy row : UsageColumns} {snapshot : KeyUsageSnapshot} (hrow : row.Consistent)
    (hparsed : ∀ official, snapshot.official = some official → official.Consistent) :
    (persist copy snapshot row).Consistent ↔ ∀ official, snapshot.official = some official →
      WindowKept copy.session row.session official.sessionUsage official.sessionUsageFraction ∧
        WindowKept copy.weekly row.weekly official.weeklyUsage official.weeklyUsageFraction := by
  cases hofficial : snapshot.official with
  | none =>
    refine iff_of_true ?_ fun official h => by cases h
    unfold persist
    rw [hofficial]
    cases snapshot.account <;> exact hrow
  | some official =>
    obtain ⟨hsession, hweekly⟩ := hparsed official hofficial
    simp only [Option.some.injEq, forall_eq']
    rw [← windowKept_iff hrow.1 hsession, ← windowKept_iff hrow.2 hweekly]
    unfold persist
    rw [hofficial]
    cases snapshot.account <;> exact Iff.rfl

theorem step_consistent_iff (hs : s.row.Consistent) (ha : a.Parsed) (h : s.step a = some s') :
    s'.row.Consistent ↔ s.Keeps a := by
  cases a with
  | load q =>
    cases h
    exact iff_of_true hs trivial
  | persistSnapshot q snapshot =>
    cases h
    unfold persistSnapshot Keeps
    by_cases hok : snapshot.upstreamStatus = .ok
    · rw [if_pos hok]
      by_cases hfits : snapshot.fits (s.copy q) = true
      · rw [if_pos hfits]
        exact (persist_consistent_iff hs ha).trans ⟨fun h _ _ => h, fun h => h hok hfits⟩
      · rw [if_neg hfits]
        exact iff_of_true hs fun _ h => absurd h hfits
    · rw [if_neg hok]
      exact iff_of_true hs fun h => absurd h hok

theorem persistSnapshot_of_not_ok {snapshot : KeyUsageSnapshot} (h : snapshot.upstreamStatus ≠ .ok) (s : KeySessions)
    (q : ℕ) : s.persistSnapshot q snapshot = s := if_neg h

theorem new_consistent : new.row.Consistent := ⟨views_none _, views_none _⟩

/-- The two views are consistent in every state of a run exactly if all along it
what is written fits what is left; and a snapshot that is not `ok` changes
nothing. -/
theorem views_consistent_iff (hrun : run step new as = some s) (hparsed : ∀ a ∈ as, a.Parsed) :
    (Throughout step (fun s => s.row.Consistent) new as ↔ Along step Keeps new as) ∧
      ∀ (s : KeySessions) (q : ℕ) (snapshot : KeyUsageSnapshot), snapshot.upstreamStatus ≠ .ok →
        s.step (.persistSnapshot q snapshot) = some s := by
  constructor
  · exact throughout_iff_along (A := Action.Parsed) (I := fun _ => True) (Q := fun s => s.row.Consistent)
      (P := Keeps) (fun _ _ _ _ _ => trivial) (fun _ _ _ _ hs ha h => step_consistent_iff hs ha h) trivial
      new_consistent hparsed hrun
  · exact fun s q snapshot h => congrArg some (persistSnapshot_of_not_ok h s q)

/-- Of a snapshot that is written to the row as it is: where it has no fraction,
the one in the row has to fit. -/
theorem keeps_fresh_iff {q : ℕ} {snapshot : KeyUsageSnapshot} (hs : s.row.Consistent) (hcopy : s.copy q = s.row)
    (hparsed : ∀ official, snapshot.official = some official → official.Consistent) :
    s.Keeps (.persistSnapshot q snapshot) ↔ (snapshot.upstreamStatus = .ok → snapshot.fits s.row = true →
      ∀ official, snapshot.official = some official →
        (official.sessionUsageFraction = none → ∀ y, s.row.lastUsageSessionFraction = some y →
          y.toInt = .ok official.sessionUsage) ∧
        (official.weeklyUsageFraction = none → ∀ y, s.row.lastUsageWeeklyFraction = some y →
          y.toInt = .ok official.weeklyUsage)) := by
  simp only [Keeps, hcopy]
  refine imp_congr_right fun _ => imp_congr_right fun _ => forall_congr' fun official =>
    forall_congr' fun hofficial => ?_
  obtain ⟨hsession, hweekly⟩ := hparsed official hofficial
  rw [windowKept_fresh_iff hs.1 hsession, windowKept_fresh_iff hs.2 hweekly]
  exact Iff.rfl

namespace Sample

/-- An answer with this session window. -/
def payload (window : Payload) : Payload := [("limits", .dict [("session", .dict window)])]

def snapshot (official : OfficialUsage) : KeyUsageSnapshot :=
  { bareSnapshot 1 (.new "a" "a" "a" none 0) .ok none with official := some official }

def full : OfficialUsage := ⟨1, 0, some (.finite 1), none, [], none, none, none, 0⟩

def degraded : OfficialUsage := ⟨0, 0, none, none, [], none, none, none, 0⟩

theorem full_parsed : parseOfficial (fun _ => none) (payload [("usage", .float (.finite 1))]) 0 = .ok full := by
  decide

example : parseOfficial (fun _ => none) (payload []) 0 = .ok degraded := by decide

/-- More than the column takes. -/
def vast : OfficialUsage := ⟨2 ^ 63, 0, some (.finite (2 ^ 63)), none, [], none, none, none, 0⟩

theorem vast_parsed :
    parseOfficial (fun _ => none) (payload [("usage", .float (.finite (2 ^ 63)))]) 0 = .ok vast := by
  decide

/-- The second flush raises, and the row keeps the first answer. -/
theorem views_consistent_iff_full :
    Throughout step (fun s => s.row.Consistent) new
      [.persistSnapshot 0 (snapshot full), .persistSnapshot 0 (snapshot vast)] := by
  have hparsed : ∀ a ∈ [Action.persistSnapshot 0 (snapshot full), .persistSnapshot 0 (snapshot vast)], a.Parsed := by
    simp only [List.forall_mem_cons, List.not_mem_nil, false_implies, implies_true, and_true]
    constructor
    · rintro official ⟨⟩
      exact parseOfficial_consistent full_parsed
    · rintro official ⟨⟩
      exact parseOfficial_consistent vast_parsed
  have hnew : ∀ n x, WindowKept (none, none) (none, none) n x :=
    fun n x => ⟨fun _ _ y hy => (by cases hy), fun h => (by cases h)⟩
  refine (views_consistent_iff (Option.some_get (by rfl)).symm hparsed).1.mpr ⟨?_, fun _ hfits => ?_, trivial⟩
  · rintro - - official ⟨⟩
    exact ⟨hnew _ _, hnew _ _⟩
  · exact absurd hfits (by decide)

/-- An answer with a usage, and then one without. -/
theorem degraded_inconsistent :
    ∃ s, run step new [.persistSnapshot 0 (snapshot full), .load 1, .persistSnapshot 1 (snapshot degraded)] = some s ∧
      s.row.lastUsageSessionFraction = some (.finite 1) ∧ s.row.lastUsageSession = some 0 ∧ ¬ s.row.Consistent := by
  refine ⟨_, rfl, by decide, by decide, ?_⟩
  rintro ⟨h, -⟩
  obtain ⟨n, hn, hx⟩ := h (.finite 1) (by decide)
  cases hn
  cases hx

end Sample

end KeySessions

end OllamaProxy
