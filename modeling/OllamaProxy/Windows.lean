/-
# Usage windows add up

Calls of `record_success_with_usage` on one key, one after another: each is
made by the session of the call before it, which still has its copy of the row,
or by a new session. Both have the token columns of the row, so every call that
returns charges the meters of the row, and they read the calls since the window
started. A call raises if it would take a count beyond the 64 bits of its column
(`UsageBook.Current.returns_iff`); the row stays as it was. The two windows start
on their own, so the session figure is within the weekly one exactly if the
weekly window did not start after it (`session_le_weekly_iff`).

Key definitions: `UsageBook`, `UsageBook.record`, `UsageBook.returned`,
`inWindow`.
Key theorems: `UsageBook.Current.record`, `windows_add_up`,
`session_le_weekly_iff`.
-/
import OllamaProxy.Meters

namespace OllamaProxy

open Kit

/-- The row of the key, and the copy of it that the last session has. -/
structure UsageBook where
  row : ApiKey
  copy : ApiKey

/-- The copy that a call works with; a new session loads the row. -/
def UsageBook.loaded (b : UsageBook) (fresh : Bool) : ApiKey := if fresh then b.row else b.copy

/-- Whether the call returns: its flush takes the counts. -/
def UsageBook.returns (b : UsageBook) (fresh : Bool) (u : UsageCall) : Bool := u.fits (b.loaded fresh)

/-- One call. If it raises, its session is rolled back: it loads the row again. -/
def UsageBook.record (b : UsageBook) (fresh : Bool) (u : UsageCall) : UsageBook :=
  if b.returns fresh u then ⟨u.write (b.loaded fresh) b.row, u.touch (b.loaded fresh)⟩ else ⟨b.row, b.row⟩

/-- The calls, each with whether its session is new. -/
def UsageBook.recordAll (b : UsageBook) (calls : List (Bool × UsageCall)) : UsageBook :=
  calls.foldl (fun b c => b.record c.1 c.2) b

/-- Those of the calls, made one after another, that return. -/
def UsageBook.returned (b : UsageBook) : List (Bool × UsageCall) → List (Bool × UsageCall)
  | [] => []
  | c :: calls =>
    if b.returns c.1 c.2 then c :: (b.record c.1 c.2).returned calls else (b.record c.1 c.2).returned calls

/-- The calls that count tokens and were made since the window of the row
started. -/
def inWindow (row : ApiKey) (win : Window) (calls : List (Bool × UsageCall)) : List UsageCall :=
  (calls.map (·.2)).filter fun u => u.counts && (row.meter win).started.any (· ≤ u.now)

/-- The two have the same token columns. -/
structure SameTokens (copy row : ApiKey) : Prop where
  meters : SameMeters copy row
  lastTokenAt : copy.lastTokenAt = row.lastTokenAt

def UsageBook.Current (b : UsageBook) : Prop := SameTokens b.copy b.row

section

variable {u : UsageCall} {copy row : ApiKey}

theorem SameTokens.refl (row : ApiKey) : SameTokens row row := ⟨fun _ => rfl, rfl⟩

theorem SameTokens.write_meter (h : SameTokens copy row) (win : Window) :
    (u.write copy row).meter win =
      (Recorder.usage u).charges.foldl (Meter.charge win.length) (row.meter win) :=
  OllamaProxy.write_meter (fun w => Or.inl (h.meters w)) win

theorem touch_lastTokenAt (u : UsageCall) (k : ApiKey) :
    (u.touch k).lastTokenAt = if u.counts then some u.now else k.lastTokenAt := by
  unfold UsageCall.touch
  split_ifs <;> rfl

theorem write_lastTokenAt (u : UsageCall) (h : copy.lastTokenAt = row.lastTokenAt) :
    (u.write copy row).lastTokenAt = if u.counts then some u.now else row.lastTokenAt := by
  simp only [UsageCall.write, touch_lastTokenAt, h]
  by_cases hc : u.counts = true
  · have htruthy : u.promptTokens.any (· ≠ 0) = true := by
      unfold UsageCall.counts at hc
      cases hp : u.promptTokens with
      | none => simp [hp] at hc
      | some n =>
        simp only [hp, Option.any_some, decide_eq_true_eq] at hc ⊢
        omega
    rw [if_pos htruthy]
  · rw [if_neg hc, ite_self]

theorem SameTokens.touch_meter (h : SameTokens copy row) (win : Window) :
    (u.touch copy).meter win = (Recorder.usage u).charges.foldl (Meter.charge win.length) (row.meter win) := by
  rw [touch_fits (fun w => Or.inl (h.meters w)), OllamaProxy.touch_meter]
  simp only [Recorder.charges]
  split_ifs <;> rfl

/-- The copy that the call leaves its session has the token columns of the row
that it writes. -/
theorem SameTokens.call (h : SameTokens copy row) (u : UsageCall) :
    SameTokens (u.touch copy) (u.write copy row) where
  meters win := (h.touch_meter win).trans (h.write_meter win).symm
  lastTokenAt := by rw [touch_lastTokenAt, write_lastTokenAt u h.lastTokenAt, h.lastTokenAt]

theorem UsageCall.fits_iff : u.fits copy = true ↔ ∀ win : Window,
    fitsInteger ((u.touch copy).meter win).prompt = true ∧
      fitsInteger ((u.touch copy).meter win).completion = true := by
  simp only [UsageCall.fits, Bool.and_eq_true]
  constructor
  · rintro ⟨⟨⟨hsp, hsc⟩, hwp⟩, hwc⟩ win
    cases win with
    | session => exact ⟨hsp, hsc⟩
    | weekly => exact ⟨hwp, hwc⟩
  · intro h
    exact ⟨⟨⟨(h .session).1, (h .session).2⟩, (h .weekly).1⟩, (h .weekly).2⟩

end

namespace UsageBook

variable {b : UsageBook}

/-- To the row, a call is what the recorder's commit is in a table. -/
theorem record_commit {t : KeyTable} {id : ℕ} (hrow : t.get? id = some b.row) (fresh : Bool) (u : UsageCall) :
    ((Recorder.usage u).commit id (b.loaded fresh) t).elim (some b.row) (·.get? id) =
      some (b.record fresh u).row := by
  unfold record returns
  by_cases hfits : u.fits (b.loaded fresh) = true
  · have hcommit : (Recorder.usage u).commit id (b.loaded fresh) t = _ := Recorder.commit_eq_some hfits hrow
    rw [hcommit, if_pos hfits]
    simp [hrow, Recorder.write]
  · have hraised : (Recorder.usage u).commit id (b.loaded fresh) t = none :=
      Recorder.commit_eq_none (.usage u) (Bool.eq_false_iff.mpr hfits) id t
    rw [hraised, if_neg hfits]
    rfl

theorem Current.loaded (h : b.Current) (fresh : Bool) : SameTokens (b.loaded fresh) b.row := by
  cases fresh with
  | true => exact .refl b.row
  | false => exact h

theorem Current.record (h : b.Current) (fresh : Bool) (u : UsageCall) : (b.record fresh u).Current := by
  unfold UsageBook.record
  split_ifs
  · exact (h.loaded fresh).call u
  · exact .refl b.row

theorem Current.record_meter (h : b.Current) (fresh : Bool) (u : UsageCall) (win : Window) :
    (b.record fresh u).row.meter win =
      if b.returns fresh u then (Recorder.usage u).charges.foldl (Meter.charge win.length) (b.row.meter win)
      else b.row.meter win := by
  unfold UsageBook.record
  split_ifs
  · exact (h.loaded fresh).write_meter win
  · rfl

theorem record_of_raises {fresh : Bool} {u : UsageCall} (h : b.returns fresh u = false) :
    (b.record fresh u).row = b.row := by
  rw [record, h]
  rfl

/-- A call returns if the counts that it makes of the row fit their columns. -/
theorem Current.returns_iff (h : b.Current) (fresh : Bool) (u : UsageCall) :
    b.returns fresh u = true ↔ ∀ win : Window,
      let m := (Recorder.usage u).charges.foldl (Meter.charge win.length) (b.row.meter win)
      fitsInteger m.prompt = true ∧ fitsInteger m.completion = true := by
  rw [returns, UsageCall.fits_iff]
  simp only [(h.loaded fresh).touch_meter]

/-- The calls that return charge the meters of the row. -/
theorem Current.recordAll (h : b.Current) (calls : List (Bool × UsageCall)) (win : Window) :
    (b.recordAll calls).Current ∧ (b.recordAll calls).row.meter win =
      (((b.returned calls).map (·.2)).flatMap fun u => (Recorder.usage u).charges).foldl
        (Meter.charge win.length) (b.row.meter win) := by
  induction calls generalizing b with
  | nil => exact ⟨h, rfl⟩
  | cons c calls ih =>
    obtain ⟨hcurrent, hmeter⟩ := ih (h.record c.1 c.2)
    refine ⟨hcurrent, ?_⟩
    rw [h.record_meter] at hmeter
    unfold returned
    split_ifs at hmeter ⊢
    · rw [List.map_cons, List.flatMap_cons, List.foldl_append]
      exact hmeter
    · exact hmeter

theorem returned_sublist (calls : List (Bool × UsageCall)) : (b.returned calls).Sublist calls := by
  induction calls generalizing b with
  | nil => exact .slnil
  | cons c calls ih =>
    unfold returned
    split_ifs
    · exact ih.cons_cons c
    · exact ih.cons c

/-- A call without prompt tokens leaves the token columns of the row. -/
theorem Current.record_uncounted (h : b.Current) (fresh : Bool) {u : UsageCall} (hu : u.counts = false) :
    SameTokens (b.record fresh u).row b.row where
  meters win := by
    have hcharges : (Recorder.usage u).charges = [] := by simp [Recorder.charges, hu]
    rw [h.record_meter, hcharges, List.foldl_nil, ite_self]
  lastTokenAt := by
    unfold UsageBook.record
    split_ifs
    · have hwrite := write_lastTokenAt u (h.loaded fresh).lastTokenAt
      rw [hu] at hwrite
      exact hwrite
    · rfl

end UsageBook

theorem length_pos (win : Window) : 0 < win.length := by
  cases win <;> decide

theorem flatMap_charges (us : List UsageCall) :
    (us.flatMap fun u => (Recorder.usage u).charges) = (us.filter (·.counts)).map (·.charge) := by
  induction us with
  | nil => rfl
  | cons u us ih =>
    rw [List.flatMap_cons, ih]
    cases hu : u.counts <;> simp [Recorder.charges, hu]

/-- The charges since the meter's window started are those of the calls in it. -/
theorem filter_since (row : ApiKey) (win : Window) (calls : List (Bool × UsageCall)) :
    (((calls.map (·.2)).filter (·.counts)).map (·.charge)).filter (row.meter win).since =
      (inWindow row win calls).map (·.charge) := by
  rw [List.filter_map, List.filter_filter, inWindow]
  congr 1
  apply List.filter_congr
  intro u _
  exact Bool.and_comm _ _

theorem charge_completion (u : UsageCall) : u.charge.completion = max 0 (u.completionTokens.getD 0) := by
  show (if u.completionTokens.any (0 < ·) then u.completionTokens.getD 0 else 0) = _
  cases u.completionTokens with
  | none => rfl
  | some n =>
    simp only [Option.any_some, Option.getD_some, decide_eq_true_eq]
    split_ifs <;> omega

theorem charge_prompt_pos {u : UsageCall} (h : u.counts = true) : 0 < u.charge.prompt := by
  unfold UsageCall.counts at h
  show 0 < u.promptTokens.getD 0
  cases hp : u.promptTokens with
  | none => simp [hp] at h
  | some n => simpa [hp] using h

theorem counts_eq_false {u : UsageCall} (h : ∀ n ∈ u.promptTokens, n ≤ 0) : u.counts = false := by
  unfold UsageCall.counts
  cases hp : u.promptTokens with
  | none => rfl
  | some n =>
    have hn := h n hp
    simpa using hn

theorem pairwise_returned {b : UsageBook} {calls : List (Bool × UsageCall)}
    (hclock : (calls.map (·.2.now)).Pairwise (· ≤ ·)) : ((b.returned calls).map (·.2.now)).Pairwise (· ≤ ·) :=
  hclock.sublist ((UsageBook.returned_sublist calls).map _)

/-- The meter of a row reads the charges of the calls that return, where it began
without. -/
theorem reads_recordAll {row : ApiKey} {win : Window} (hnew : row.meter win = ⟨none, 0, 0⟩)
    {calls : List (Bool × UsageCall)} (hclock : (calls.map (·.2.now)).Pairwise (· ≤ ·)) :
    (((UsageBook.mk row row).recordAll calls).row.meter win).Reads win.length
      (((((UsageBook.mk row row).returned calls).map (·.2)).filter (·.counts)).map (·.charge)) := by
  have hstart : (UsageBook.mk row row).Current := .refl row
  obtain ⟨-, hmeter⟩ := hstart.recordAll calls win
  rw [hnew, flatMap_charges] at hmeter
  have hsorted : (((((UsageBook.mk row row).returned calls).map (·.2)).filter (·.counts)).map (·.charge)).map
      (·.now) |>.Pairwise (· ≤ ·) := by
    rw [List.map_map]
    apply List.Pairwise.sublist ((List.filter_sublist).map _)
    rw [List.map_map]
    exact pairwise_returned hclock
  exact hmeter ▸ Meter.foldl_since (length_pos win) hsorted

/-- From a key without tokens, by a clock that does not go back: after every
call, both meters have the counts of the calls in their window that have returned,
which lie within its length, and a window that has not started has none to count.
The next call returns exactly if the counts that it makes fit their columns. If
it raises, it leaves the row; and a call without prompt tokens leaves the token
columns. -/
theorem windows_add_up {row : ApiKey} (hnew : ∀ win, row.meter win = ⟨none, 0, 0⟩)
    {calls : List (Bool × UsageCall)} (hclock : (calls.map (·.2.now)).Pairwise (· ≤ ·)) :
    let b := (UsageBook.mk row row).recordAll calls
    let done := (UsageBook.mk row row).returned calls
    (∀ win,
      (∀ u ∈ inWindow b.row win done,
        ∃ s, (b.row.meter win).started = some s ∧ s ≤ u.now ∧ u.now - s < win.length) ∧
      (∀ s, (b.row.meter win).started = some s → ∃ u ∈ inWindow b.row win done, u.now = s) ∧
      ((b.row.meter win).started = none → ∀ c ∈ done, c.2.counts = false) ∧
      (b.row.meter win).prompt = ((inWindow b.row win done).map fun u => u.promptTokens.getD 0).sum ∧
      (b.row.meter win).completion =
        ((inWindow b.row win done).map fun u => max 0 (u.completionTokens.getD 0)).sum) ∧
    (∀ fresh u, (b.returns fresh u = true ↔ ∀ win : Window,
        let m := (Recorder.usage u).charges.foldl (Meter.charge win.length) (b.row.meter win)
        fitsInteger m.prompt = true ∧ fitsInteger m.completion = true) ∧
      (b.returns fresh u = false → (b.record fresh u).row = b.row) ∧
      ((∀ n ∈ u.promptTokens, n ≤ 0) → SameTokens (b.record fresh u).row b.row)) := by
  intro b done
  have hstart : (UsageBook.mk row row).Current := .refl row
  have hcurrent : b.Current := (hstart.recordAll calls .session).1
  refine ⟨fun win => ?_, fun fresh u => ⟨hcurrent.returns_iff fresh u, UsageBook.record_of_raises, fun hu =>
    hcurrent.record_uncounted fresh (counts_eq_false hu)⟩⟩
  have hreads := reads_recordAll (hnew win) hclock
  have hmem : ∀ u ∈ inWindow b.row win done,
      u.charge ∈ ((done.map (·.2)).filter (·.counts)).map (·.charge) ∧
        (b.row.meter win).since u.charge = true := by
    intro u hu
    have hcharge := List.mem_map_of_mem (f := UsageCall.charge) hu
    rw [← filter_since] at hcharge
    exact List.mem_filter.mp hcharge
  refine ⟨fun u hu => ?_, fun s hs => ?_, fun hs c hc => ?_, ?_, ?_⟩
  · obtain ⟨hcall, hsince⟩ := hmem u hu
    cases hs : (b.row.meter win).started with
    | none => simp [Meter.since, hs] at hsince
    | some s =>
      have hle : s ≤ u.now := by
        rw [Meter.since, hs] at hsince
        exact of_decide_eq_true hsince
      exact ⟨s, rfl, hle, hreads.within s hs u.charge hcall hle⟩
  · obtain ⟨c, hc, hcs⟩ := hreads.started s hs
    have hc' : c ∈ (((done.map (·.2)).filter (·.counts)).map (·.charge)).filter (b.row.meter win).since :=
      List.mem_filter.mpr ⟨hc, by rw [Meter.since, hs, hcs]; simp⟩
    rw [filter_since] at hc'
    obtain ⟨u, hu, rfl⟩ := List.mem_map.mp hc'
    exact ⟨u, hu, hcs⟩
  · have hnone := List.map_eq_nil_iff.mp (hreads.unstarted hs)
    exact Bool.eq_false_iff.mpr (List.filter_eq_nil_iff.mp hnone c.2 (List.mem_map_of_mem hc))
  · have hprompt := hreads.prompt
    rw [filter_since, List.map_map] at hprompt
    exact hprompt
  · have hcompletion := hreads.completion
    rw [filter_since, List.map_map] at hcompletion
    rw [hcompletion]
    exact congrArg List.sum (List.map_congr_left fun u _ => charge_completion u)

/-- A call, another of the same session within the day, one that is too much for
the columns, and one of a new session after the day. -/
def twoDays : List (Bool × UsageCall) :=
  [(true, ⟨200, some 5, some 2, 0⟩), (false, ⟨200, some 7, none, 1⟩), (false, ⟨200, some (2 ^ 63), none, 2⟩),
    (true, ⟨200, some 1, some (-3), sessionWindow⟩)]

theorem windows_add_up_twoDays :
    let b := (UsageBook.mk (Sample.key "a") (Sample.key "a")).recordAll twoDays
    (b.row.meter .session).prompt = 1 ∧ (b.row.meter .weekly).prompt = 13 := by
  intro b
  have hnew : ∀ win, (Sample.key "a").meter win = ⟨none, 0, 0⟩ := fun win => by cases win <;> rfl
  have hclock : (twoDays.map (·.2.now)).Pairwise (· ≤ ·) := by decide
  obtain ⟨hsums, -⟩ := windows_add_up hnew hclock
  exact ⟨(hsums .session).2.2.2.1.trans (by decide), (hsums .weekly).2.2.2.1.trans (by decide)⟩

/-- Five tokens, and more than the column takes: the flush of the second call
raises, and the row keeps the five, while the two calls of the window are of more
in sum. -/
theorem overflow_not_added :
    let calls : List (Bool × UsageCall) := [(true, ⟨200, some 5, none, 0⟩), (true, ⟨200, some (2 ^ 63), none, 1⟩)]
    let b := (UsageBook.mk (Sample.key "a") (Sample.key "a")).recordAll calls
    (calls.map (·.2.now)).Pairwise (· ≤ ·) ∧ (b.row.meter .session).prompt = 5 ∧
      (b.row.meter .session).prompt ≠ ((inWindow b.row .session calls).map fun u => u.promptTokens.getD 0).sum := by
  decide

/-! ### The two windows

Each window starts anew with the first call after it is over, whatever the other
one does. A week that ends within a day leaves the 24 hours with the more. -/

/-- What the calls of the session window that came before `w` are charged. -/
theorem filter_between {row : ApiKey} {s w : ℤ} (hs : row.sessionWindowStartedAt = some s)
    (calls : List (Bool × UsageCall)) :
    (((calls.map (·.2)).filter (·.counts)).map (·.charge)).filter (fun c => s ≤ c.now ∧ c.now < w) =
      ((inWindow row .session calls).filter (·.now < w)).map (·.charge) := by
  have hsince := filter_since row .session calls
  have hfilter : ∀ us : List UsageCall, (us.map (·.charge)).filter (fun c => decide (c.now < w)) =
      (us.filter (·.now < w)).map (·.charge) := fun us => by
    rw [List.filter_map]
    rfl
  rw [← hfilter, ← hsince, List.filter_filter]
  apply List.filter_congr
  intro c _
  simp [Meter.since, ApiKey.meter, hs, Bool.and_comm]

/-- After every call the counts of the 24 hours are at most those of the 7 days
exactly if the weekly window did not start after the session window. If it did,
they are more by what the calls of the session window that returned before it
recorded. -/
theorem session_le_weekly_iff {row : ApiKey} (hnew : ∀ win, row.meter win = ⟨none, 0, 0⟩)
    {calls : List (Bool × UsageCall)} (hclock : (calls.map (·.2.now)).Pairwise (· ≤ ·)) :
    let k := ((UsageBook.mk row row).recordAll calls).row
    let done := (UsageBook.mk row row).returned calls
    (k.sessionPromptTokens ≤ k.weeklyPromptTokens ∧ k.sessionCompletionTokens ≤ k.weeklyCompletionTokens ↔
      ∀ s, k.sessionWindowStartedAt = some s → ∀ w, k.weeklyWindowStartedAt = some w → w ≤ s) ∧
    ∀ s w, k.sessionWindowStartedAt = some s → k.weeklyWindowStartedAt = some w → s ≤ w →
      k.sessionPromptTokens = k.weeklyPromptTokens +
        (((inWindow k .session done).filter (·.now < w)).map fun u => u.promptTokens.getD 0).sum ∧
      k.sessionCompletionTokens = k.weeklyCompletionTokens +
        (((inWindow k .session done).filter (·.now < w)).map fun u => max 0 (u.completionTokens.getD 0)).sum := by
  intro k done
  have hsession := reads_recordAll (hnew .session) hclock
  have hweekly := reads_recordAll (hnew .weekly) hclock
  have hcharge : ∀ c ∈ ((done.map (·.2)).filter (·.counts)).map (·.charge), 0 < c.prompt ∧ 0 ≤ c.completion := by
    intro c hc
    obtain ⟨u, hu, rfl⟩ := List.mem_map.mp hc
    refine ⟨charge_prompt_pos (List.mem_filter.mp hu).2, ?_⟩
    rw [charge_completion]
    exact le_max_left _ _
  refine ⟨hsession.le_iff hweekly (fun c hc => (hcharge c hc).1) fun c hc => (hcharge c hc).2, ?_⟩
  intro s w hs hw hle
  obtain ⟨hprompt, hcompletion⟩ := hsession.eq_add hweekly hs hw hle
  rw [filter_between hs, List.map_map] at hprompt hcompletion
  refine ⟨hprompt, hcompletion.trans (congrArg (_ + ·) (congrArg List.sum (List.map_congr_left fun u _ => ?_)))⟩
  exact charge_completion u

theorem session_le_weekly_iff_twoDays :
    let k := ((UsageBook.mk (Sample.key "a") (Sample.key "a")).recordAll twoDays).row
    k.sessionPromptTokens ≤ k.weeklyPromptTokens ∧ k.sessionCompletionTokens ≤ k.weeklyCompletionTokens := by
  intro k
  have hnew : ∀ win, (Sample.key "a").meter win = ⟨none, 0, 0⟩ := fun win => by cases win <;> rfl
  have hclock : (twoDays.map (·.2.now)).Pairwise (· ≤ ·) := by decide
  refine (session_le_weekly_iff hnew hclock).1.mpr ?_
  rintro s hs w hw
  have hs' : some (sessionWindow : ℤ) = some s := hs
  have hw' : some (0 : ℤ) = some w := hw
  cases hs'
  cases hw'
  decide

/-- A week after the first call, and half a day after one that started the
session window. -/
def newWeek : List (Bool × UsageCall) :=
  [(true, ⟨200, some 1, some 1, 0⟩), (true, ⟨200, some 5, some 2, weeklyWindow - 43200000000⟩),
    (true, ⟨200, some 4, some 1, weeklyWindow⟩)]

theorem newWeek_session_more :
    let k := ((UsageBook.mk (Sample.key "a") (Sample.key "a")).recordAll newWeek).row
    (newWeek.map (·.2.now)).Pairwise (· ≤ ·) ∧ k.sessionPromptTokens = 9 ∧ k.weeklyPromptTokens = 4 ∧
      ¬ (k.sessionPromptTokens ≤ k.weeklyPromptTokens ∧ k.sessionCompletionTokens ≤ k.weeklyCompletionTokens) := by
  decide

end OllamaProxy
