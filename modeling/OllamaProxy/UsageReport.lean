/-
# What is reported of the windows

Every exit of `fetch_snapshot` reports the token counts as they are in the row
that the call was given. A window starts anew when a call is recorded, not when
it is read. So the counts of a key that has been idle since its window was over
stay in the report until the key is used again.

Key definitions: `Usage.Reported`, `CountsRecent`.
Key theorems: `Usage.step_reported`, `counts_recent_iff`.
-/
import OllamaProxy.Windows
import OllamaProxy.UsageIdentity

namespace OllamaProxy

open Kit

namespace Usage

variable {lib : UsageLibrary} {s s' : Usage} {a : Action}

/-- A snapshot that a call has returned has the counts of the row that it was
given. -/
def Reported (s : Usage) : Prop :=
  ∀ p snap source, (s.calls p).pc = .done snap source → snap.localCumsum = cumsumFromRow (s.calls p).apiKey

theorem init_reported (ttlSeconds now utcnow : ℤ) : (init ttlSeconds now utcnow).Reported :=
  fun _ _ _ hpc => by cases hpc

/-- The turn of call `p`. -/
theorem Reported.put (hs : s.Reported) {p : ℕ} {x : UsageService × SnapshotPc}
    (hx : ∀ snap source, x.2 = .done snap source → snap.localCumsum = cumsumFromRow (s.calls p).apiKey) :
    (s.put p x).Reported := by
  intro q snap source hpc
  by_cases hq : q = p
  · subst hq
    rw [put_calls_self] at hpc ⊢
    exact hx snap source hpc
  · rw [put_calls_of_ne hq] at hpc ⊢
    exact hs q snap source hpc

theorem Reported.starts (hs : s.Reported) {p : ℕ} {service : UsageService} {c : SnapshotCall}
    (hc : ∀ snap source, c.pc = .done snap source → snap.localCumsum = cumsumFromRow c.apiKey) :
    Reported { s with service := service, calls := Function.update s.calls p c } := by
  intro q snap source hpc
  change (Function.update s.calls p c q).pc = .done snap source at hpc
  show snap.localCumsum = cumsumFromRow (Function.update s.calls p c q).apiKey
  by_cases hq : q = p
  · rw [hq, Function.update_self] at hpc ⊢
    exact hc snap source hpc
  · rw [Function.update_of_ne hq] at hpc ⊢
    exact hs q snap source hpc

theorem failed_cumsum {service : UsageService} {c : SnapshotCall} {fault : UsageFault} {snap : KeyUsageSnapshot}
    {source : Option String} (h : service.failed lib c fault = .done snap source) :
    snap.localCumsum = cumsumFromRow c.apiKey := by
  unfold UsageService.failed at h
  split_ifs at h
  · cases h
    rfl
  · split at h <;> cases h <;> rfl

/-- Each exit of a call reports the counts of its row. -/
theorem step_reported (hs : s.Reported) (h : s.step lib a = some s') : s'.Reported := by
  cases step_moves h with
  | served p id apiKey entry hidle hentry =>
    refine hs.starts fun snap source hpc => ?_
    cases hpc
    rfl
  | waits p id apiKey force hidle => exact hs.starts fun snap source hpc => by cases hpc
  | servedInside p entry hqueued hentry =>
    refine hs.put fun snap source hpc => ?_
    cases hpc
    rfl
  | undecryptable p inner hqueued hvault =>
    refine hs.put fun snap source hpc => ?_
    cases hpc
    rfl
  | begins p rawKey hqueued hlock hstale hvault => exact hs.put fun snap source hpc => by cases hpc
  | goesOn p r rawKey account hpc hreply => exact hs.put fun snap source hpc => by cases hpc
  | stores p r rawKey account snap' hpc hsnap =>
    refine hs.put fun snap source hpc => ?_
    cases hpc
    rfl
  | fails p r fault hfault => exact hs.put fun snap source hpc => failed_cumsum hpc
  | hangsUp p hqueued => exact hs.put fun snap source hpc => by cases hpc
  | aborts p hfetching => exact hs.put fun snap source hpc => by cases hpc
  | tick d => exact hs

theorem run_reported {ttlSeconds now utcnow : ℤ} {as : List Action}
    (hrun : run (step lib) (init ttlSeconds now utcnow) as = some s) : s.Reported :=
  run_inv' (fun _ _ _ => step_reported) (init_reported ttlSeconds now utcnow) hrun

end Usage

/-! ### Recent counts -/

/-- The prompt and the completion tokens that are reported of a window. -/
def LocalCumsum.tokens (cumsum : LocalCumsum) : Window → ℤ × ℤ
  | .session => (cumsum.sessionPromptTokens, cumsum.sessionCompletionTokens)
  | .weekly => (cumsum.weeklyPromptTokens, cumsum.weeklyCompletionTokens)

/-- The report counts, for each window, tokens of some of the calls, all of them
recorded less than the window's length before `t`. -/
def CountsRecent (calls : List (Bool × UsageCall)) (t : ℤ) (cumsum : LocalCumsum) : Prop :=
  ∀ win : Window, ∃ us : List UsageCall, us.Sublist ((calls.map (·.2)).filter (·.counts)) ∧
    (∀ u ∈ us, t - u.now < win.length) ∧
    cumsum.tokens win = ((us.map (·.charge.prompt)).sum, (us.map (·.charge.completion)).sum)

theorem tokens_cumsumFromRow (k : ApiKey) (win : Window) :
    (cumsumFromRow k).tokens win = ((k.meter win).prompt, (k.meter win).completion) := by
  cases win <;> rfl

/-- A window of the row, read as its charges. -/
theorem window_recent_iff {row : ApiKey} {win : Window} (hnew : row.meter win = ⟨none, 0, 0⟩)
    {calls : List (Bool × UsageCall)} (hclock : (calls.map (·.2.now)).Pairwise (· ≤ ·)) (t : ℤ) :
    let m := ((UsageBook.mk row row).recordAll calls).row.meter win
    let done := (UsageBook.mk row row).returned calls
    (∃ us : List UsageCall, us.Sublist ((done.map (·.2)).filter (·.counts)) ∧ (∀ u ∈ us, t - u.now < win.length) ∧
        (m.prompt, m.completion) = ((us.map (·.charge.prompt)).sum, (us.map (·.charge.completion)).sum)) ↔
      ∀ started, m.started = some started → t - started < win.length := by
  intro m done
  have hreads := reads_recordAll hnew hclock
  have hpos : ∀ c ∈ ((done.map (·.2)).filter (·.counts)).map (·.charge), 0 < c.prompt := by
    intro c hc
    obtain ⟨u, hu, rfl⟩ := List.mem_map.mp hc
    exact charge_prompt_pos (List.mem_filter.mp hu).2
  rw [← hreads.recent_iff hpos t]
  constructor
  · rintro ⟨us, hsub, hrecent, hsum⟩
    refine ⟨us.map (·.charge), hsub.map _, fun d hd => ?_, ?_, ?_⟩
    · obtain ⟨u, hu, rfl⟩ := List.mem_map.mp hd
      exact hrecent u hu
    · rw [List.map_map]
      exact (Prod.mk.inj hsum).1
    · rw [List.map_map]
      exact (Prod.mk.inj hsum).2
  · rintro ⟨ds, hsub, hrecent, hprompt, hcompletion⟩
    obtain ⟨us, hus, rfl⟩ := List.sublist_map_iff.mp hsub
    rw [List.map_map] at hprompt hcompletion
    exact ⟨us, hus, fun u hu => hrecent u.charge (List.mem_map_of_mem hu), Prod.ext hprompt hcompletion⟩

/-- In any state of a run in which a call that was given the row of a key has
returned, by any exit. What it reports was recorded within the windows' lengths
before (a call that raised has recorded nothing) exactly if neither window of the
row that has started is over. -/
theorem counts_recent_iff {lib : UsageLibrary} {s : Usage} {as : List Usage.Action} {ttlSeconds now utcnow : ℤ}
    (hrun : run (Usage.step lib) (.init ttlSeconds now utcnow) as = some s) {p : ℕ} {snap : KeyUsageSnapshot}
    {source : Option String} (hdone : (s.calls p).pc = .done snap source) {row : ApiKey}
    (hnew : ∀ win, row.meter win = ⟨none, 0, 0⟩) {calls : List (Bool × UsageCall)}
    (hclock : (calls.map (·.2.now)).Pairwise (· ≤ ·))
    (hgiven : SameTokens (s.calls p).apiKey ((UsageBook.mk row row).recordAll calls).row) :
    CountsRecent ((UsageBook.mk row row).returned calls) s.utcnow snap.localCumsum ↔
      ∀ win started, ((s.calls p).apiKey.meter win).started = some started → s.utcnow - started < win.length := by
  rw [Usage.run_reported hrun p snap source hdone]
  apply forall_congr'
  intro win
  rw [tokens_cumsumFromRow, hgiven.meters win]
  exact window_recent_iff (hnew win) hclock s.utcnow

namespace Sample

/-- The key after one call with five prompt tokens, at time 0. -/
def usedKey : ApiKey := ((UsageBook.mk (key "a") (key "a")).recordAll [(true, ⟨200, some 5, none, 0⟩)]).row

/-- A fetch for it at the time `d` that finds upstream down. -/
def unreached (d : ℕ) : List Usage.Action :=
  [.tick d, .fetch 0 1 usedKey false, .enter 0, .reply 0 (.failed "unreachable")]

theorem counts_recent_iff_hour :
    let s := (run (Usage.step Usage.Sample.library) (.init 300 0 0) (unreached 3600000000)).get (by decide)
    ∃ snap source, (s.calls 0).pc = .done snap source ∧
      CountsRecent [(true, ⟨200, some 5, none, 0⟩)] s.utcnow snap.localCumsum := by
  intro s
  have hrun : run (Usage.step Usage.Sample.library) (.init 300 0 0) (unreached 3600000000) = some s :=
    (Option.some_get _).symm
  have hnew : ∀ win, (key "a").meter win = ⟨none, 0, 0⟩ := fun win => by cases win <;> rfl
  have hdone : (s.calls 0).pc = .done (bareSnapshot 1 usedKey .unreachable (some "unreachable")) none := rfl
  refine ⟨_, _, hdone, (counts_recent_iff hrun hdone hnew (by decide) (.refl usedKey)).mpr ?_⟩
  rintro (_ | _) started hstarted
  all_goals
    have hzero : (some 0 : Option ℤ) = some started := hstarted
    cases hzero
    decide

/-- A day later the five tokens are still reported as those of the last 24
hours. -/
theorem idle_day_counts :
    ∃ s snap source, run (Usage.step Usage.Sample.library) (.init 300 0 0) (unreached 86400000000) = some s ∧
      (s.calls 0).pc = .done snap source ∧ snap.localCumsum.sessionPromptTokens = 5 ∧
      ¬ CountsRecent [(true, ⟨200, some 5, none, 0⟩)] s.utcnow snap.localCumsum := by
  refine ⟨(run (Usage.step Usage.Sample.library) (.init 300 0 0) (unreached 86400000000)).get (by decide),
    bareSnapshot 1 usedKey .unreachable (some "unreachable"), none, (Option.some_get _).symm, rfl, by decide, ?_⟩
  intro hrecent
  obtain ⟨us, hsub, hus, hsum⟩ := hrecent .session
  cases us with
  | nil => exact absurd hsum (by decide)
  | cons u us =>
    have hmem : u ∈ [UsageCall.mk 200 (some 5) none 0] := hsub.subset List.mem_cons_self
    have hold := hus u List.mem_cons_self
    rw [List.mem_singleton.mp hmem] at hold
    exact absurd hold (by decide)

end Sample

end OllamaProxy
