/-
# A meter with a window

A `Meter` adds up charges of two kinds from the moment its window started. A
charge that comes when no window has started, or when the one that has is over,
starts a window of its own. `span` says which charges a run of them leaves in
the window, and whether what the meter held before is still in it; the meter
then reads their sum (`foldl_charge`).
-/
import Mathlib

namespace Kit

structure Meter where
  started : Option ℤ
  prompt : ℤ
  completion : ℤ
deriving DecidableEq

structure Charge where
  now : ℤ
  prompt : ℤ
  completion : ℤ
deriving DecidableEq

namespace Meter

variable (window : ℤ)

/-- No window has started, or the window is over. -/
def expired (m : Meter) (now : ℤ) : Bool := m.started.all fun started => window ≤ now - started

def charge (m : Meter) (c : Charge) : Meter :=
  if m.expired window c.now then ⟨some c.now, c.prompt, c.completion⟩
  else ⟨m.started, m.prompt + c.prompt, m.completion + c.completion⟩

/-- The charges in the window, and whether it started after the first meter. -/
structure Span where
  restarted : Bool
  charges : List Charge

/-- The window after the charges `cs`. -/
def span (m : Meter) (cs : List Charge) : Span :=
  (cs.foldl (fun x c =>
    (x.1.charge window c,
      if x.1.expired window c.now then ⟨true, [c]⟩ else ⟨x.2.restarted, x.2.charges ++ [c]⟩))
    (m, (⟨false, []⟩ : Span))).2

/-- The meter that has the charges of the window in it. -/
def Span.reading (s : Span) (m : Meter) : Meter where
  started := if s.restarted then s.charges.head?.map (·.now) else m.started
  prompt := (if s.restarted then 0 else m.prompt) + (s.charges.map (·.prompt)).sum
  completion := (if s.restarted then 0 else m.completion) + (s.charges.map (·.completion)).sum

theorem span_snoc (m : Meter) (cs : List Charge) (c : Charge) :
    m.span window (cs ++ [c]) =
      if (cs.foldl (charge window) m).expired window c.now then ⟨true, [c]⟩
      else ⟨(m.span window cs).restarted, (m.span window cs).charges ++ [c]⟩ := by
  have hfst : ∀ (cs : List Charge) (x : Meter × Span), (cs.foldl (fun x c =>
      (x.1.charge window c,
        if x.1.expired window c.now then (⟨true, [c]⟩ : Span) else ⟨x.2.restarted, x.2.charges ++ [c]⟩)) x).1 =
        cs.foldl (charge window) x.1 := by
    intro cs
    induction cs with
    | nil => exact fun x => rfl
    | cons c cs ih => exact fun x => ih _
  simp only [span, List.foldl_append, List.foldl_cons, List.foldl_nil, hfst]

/-- A window that was started anew has the charge that started it. -/
theorem span_ne_nil (m : Meter) (cs : List Charge) (h : (m.span window cs).restarted = true) :
    (m.span window cs).charges ≠ [] := by
  induction cs using List.reverseRecOn with
  | nil => cases h
  | append_singleton cs c _ =>
    rw [span_snoc]
    split_ifs <;> simp

/-- The meter reads what the window has. -/
theorem foldl_charge (m : Meter) (cs : List Charge) :
    cs.foldl (charge window) m = (m.span window cs).reading m := by
  induction cs using List.reverseRecOn with
  | nil => simp [span, Span.reading]
  | append_singleton cs c ih =>
    rw [List.foldl_append, List.foldl_cons, List.foldl_nil, span_snoc, charge]
    by_cases hexp : (cs.foldl (charge window) m).expired window c.now = true
    · rw [if_pos hexp, if_pos hexp]
      simp [Span.reading]
    · rw [if_neg hexp, if_neg hexp, ih]
      have hhead : (m.span window cs).restarted = true →
          ((m.span window cs).charges ++ [c]).head? = (m.span window cs).charges.head? := fun h =>
        List.head?_append_of_ne_nil _ (span_ne_nil window m cs h)
      simp only [Span.reading, List.map_append, List.sum_append, List.map_cons, List.map_nil,
        List.sum_singleton, mk.injEq]
      refine ⟨?_, by ring, by ring⟩
      by_cases hre : (m.span window cs).restarted = true
      · rw [if_pos hre, if_pos hre, hhead hre]
      · rw [if_neg hre, if_neg hre]

/-- The charge is not from before the window. -/
def since (m : Meter) (c : Charge) : Bool := m.started.any (· ≤ c.now)

/-- The meter has exactly the charges since its window started, and they are
within the window. -/
structure Reads (m : Meter) (cs : List Charge) : Prop where
  started : ∀ s ∈ m.started, ∃ c ∈ cs, c.now = s
  unstarted : m.started = none → cs = []
  within : ∀ s ∈ m.started, ∀ c ∈ cs, s ≤ c.now → c.now - s < window
  prompt : m.prompt = ((cs.filter m.since).map (·.prompt)).sum
  completion : m.completion = ((cs.filter m.since).map (·.completion)).sum

variable {window}

/-- The charges before one that starts a window were made before it. -/
theorem Reads.lt_of_expired (hw : 0 < window) {m : Meter} {cs : List Charge} (h : m.Reads window cs) {now : ℤ}
    (hexp : m.expired window now = true) {d : Charge} (hd : d ∈ cs) (hle : d.now ≤ now) : d.now < now := by
  apply lt_of_le_of_ne hle
  intro heq
  cases hs : m.started with
  | none =>
    rw [h.unstarted hs] at hd
    cases hd
  | some s =>
    have hover : window ≤ now - s := by simpa [expired, hs] using hexp
    have hwithin := h.within s hs d hd (by omega)
    omega

/-- A charge after all the others, in a window of its own. -/
theorem Reads.restart (hw : 0 < window) {cs : List Charge} {c : Charge} (hc : ∀ d ∈ cs, d.now < c.now) :
    Reads window ⟨some c.now, c.prompt, c.completion⟩ (cs ++ [c]) := by
  have hfilter : cs.filter (since ⟨some c.now, c.prompt, c.completion⟩) = [] := by
    rw [List.filter_eq_nil_iff]
    intro d hd
    simpa [since] using hc d hd
  have hself : since ⟨some c.now, c.prompt, c.completion⟩ c = true := by simp [since]
  refine ⟨?_, fun hnone => (by cases hnone), ?_, ?_, ?_⟩
  · rintro s ⟨⟩
    exact ⟨c, List.mem_append_right _ (List.mem_singleton_self c), rfl⟩
  · rintro s ⟨⟩ d hd hle
    rcases List.mem_append.mp hd with hd | hd
    · have := hc d hd
      omega
    · rw [List.mem_singleton.mp hd]
      omega
  · simp [List.filter_append, hfilter, hself]
  · simp [List.filter_append, hfilter, hself]

/-- A charge in the window that has started. -/
theorem Reads.extend {m : Meter} {cs : List Charge} (h : m.Reads window cs) {c : Charge}
    (hc : ∀ d ∈ cs, d.now ≤ c.now) {s : ℤ} (hs : m.started = some s) (hin : c.now - s < window) :
    Reads window ⟨m.started, m.prompt + c.prompt, m.completion + c.completion⟩ (cs ++ [c]) := by
  have hsame : since ⟨m.started, m.prompt + c.prompt, m.completion + c.completion⟩ = m.since := rfl
  have hself : m.since c = true := by
    obtain ⟨d, hd, hds⟩ := h.started s hs
    have := hc d hd
    simp only [since, hs, Option.any_some, decide_eq_true_eq]
    omega
  refine ⟨?_, fun hnone => ?_, ?_, ?_, ?_⟩
  · intro s' hs'
    obtain ⟨d, hd, hds⟩ := h.started s' hs'
    exact ⟨d, List.mem_append_left _ hd, hds⟩
  · rw [hs] at hnone
    cases hnone
  · intro s' hs' d hd hle
    rcases List.mem_append.mp hd with hd | hd
    · exact h.within s' hs' d hd hle
    · rw [List.mem_singleton.mp hd]
      cases hs.symm.trans hs'
      exact hin
  · rw [hsame, List.filter_append, List.map_append, List.sum_append, ← h.prompt]
    simp [hself]
  · rw [hsame, List.filter_append, List.map_append, List.sum_append, ← h.completion]
    simp [hself]

theorem Reads.charge (hw : 0 < window) {m : Meter} {cs : List Charge} (h : m.Reads window cs) {c : Charge}
    (hc : ∀ d ∈ cs, d.now ≤ c.now) : (m.charge window c).Reads window (cs ++ [c]) := by
  unfold Meter.charge
  by_cases hexp : m.expired window c.now = true
  · rw [if_pos hexp]
    exact .restart hw fun d hd => h.lt_of_expired hw hexp hd (hc d hd)
  · rw [if_neg hexp]
    obtain ⟨s, hs, hin⟩ : ∃ s, m.started = some s ∧ c.now - s < window := by
      cases hs : m.started with
      | none => simp [expired, hs] at hexp
      | some s => exact ⟨s, rfl, by simpa [expired, hs] using hexp⟩
    exact h.extend hc hs hin

/-- From the empty meter, with a clock that does not go back. -/
theorem foldl_since (hw : 0 < window) {cs : List Charge} (hclock : (cs.map (·.now)).Pairwise (· ≤ ·)) :
    (cs.foldl (charge window) ⟨none, 0, 0⟩).Reads window cs := by
  induction cs using List.reverseRecOn with
  | nil => exact ⟨fun s hs => (by cases hs), fun _ => rfl, fun s hs => (by cases hs), rfl, rfl⟩
  | append_singleton cs c ih =>
    rw [List.map_append, List.pairwise_append] at hclock
    rw [List.foldl_append, List.foldl_cons, List.foldl_nil]
    exact (ih hclock.1).charge hw fun d hd =>
      hclock.2.2 d.now (List.mem_map_of_mem hd) c.now (List.mem_singleton_self _)

/-- Two meters read the same charges. The one whose window started first has what
the other one has, and what came between the two starts. -/
theorem Reads.eq_add {window' : ℤ} {m m' : Meter} {cs : List Charge} (h : m.Reads window cs)
    (h' : m'.Reads window' cs) {s s' : ℤ} (hs : m.started = some s) (hs' : m'.started = some s') (hle : s ≤ s') :
    m.prompt = m'.prompt + ((cs.filter fun c => s ≤ c.now ∧ c.now < s').map (·.prompt)).sum ∧
      m.completion = m'.completion + ((cs.filter fun c => s ≤ c.now ∧ c.now < s').map (·.completion)).sum := by
  have hsplit : ∀ f : Charge → ℤ, ((cs.filter m.since).map f).sum =
      ((cs.filter m'.since).map f).sum + ((cs.filter fun c => s ≤ c.now ∧ c.now < s').map f).sum := by
    intro f
    have hsince : (cs.filter m.since).filter m'.since = cs.filter m'.since := by
      rw [List.filter_filter]
      apply List.filter_congr
      intro c _
      simp only [since, hs, hs', Option.any_some, Bool.and_eq_left_iff_imp, decide_eq_true_eq]
      omega
    have hbetween : ((cs.filter m.since).filter fun c => ¬ m'.since c = true) =
        cs.filter fun c => s ≤ c.now ∧ c.now < s' := by
      rw [List.filter_filter]
      apply List.filter_congr
      intro c _
      simp [since, hs, hs', Bool.and_comm]
    rw [← List.sum_map_filter_add_sum_map_filter_not (fun c => m'.since c = true) f (cs.filter m.since), hbetween]
    simp only [Bool.decide_eq_true, hsince]
  exact ⟨by rw [h.prompt, h'.prompt, hsplit], by rw [h.completion, h'.completion, hsplit]⟩

/-- A meter that reads charges with prompts has no more than another one exactly
if its window did not start before the other one's. -/
theorem Reads.le_iff {window' : ℤ} {m m' : Meter} {cs : List Charge} (h : m.Reads window cs)
    (h' : m'.Reads window' cs) (hprompt : ∀ c ∈ cs, 0 < c.prompt) (hcompletion : ∀ c ∈ cs, 0 ≤ c.completion) :
    m.prompt ≤ m'.prompt ∧ m.completion ≤ m'.completion ↔
      ∀ s, m.started = some s → ∀ s', m'.started = some s' → s' ≤ s := by
  have hnonneg : ∀ (f : Charge → ℤ) (p : Charge → Bool), (∀ c ∈ cs, 0 ≤ f c) →
      ∀ x ∈ (cs.filter p).map f, 0 ≤ x := by
    intro f p hf x hx
    obtain ⟨c, hc, rfl⟩ := List.mem_map.mp hx
    exact hf c (List.mem_filter.mp hc).1
  cases hs : m.started with
  | none =>
    have hcs := h.unstarted hs
    have hzero := h.prompt
    have hzero' := h'.prompt
    have hzeroc := h.completion
    have hzeroc' := h'.completion
    subst hcs
    simp only [List.filter_nil, List.map_nil, List.sum_nil] at hzero hzero' hzeroc hzeroc'
    exact iff_of_true (by omega) fun s hs' => by cases hs'
  | some s =>
    obtain ⟨c, hc, hcs⟩ := h.started s hs
    cases hs' : m'.started with
    | none =>
      rw [h'.unstarted hs'] at hc
      cases hc
    | some s' =>
      by_cases hle : s' ≤ s
      · obtain ⟨hp, hcomp⟩ := h'.eq_add h hs' hs hle
        have hp0 := List.sum_nonneg (hnonneg (·.prompt) (fun c => s' ≤ c.now ∧ c.now < s) fun c hc => (hprompt c hc).le)
        have hc0 := List.sum_nonneg (hnonneg (·.completion) (fun c => s' ≤ c.now ∧ c.now < s) hcompletion)
        refine iff_of_true (by omega) ?_
        rintro _ ⟨⟩ _ ⟨⟩
        exact hle
      · -- the charge that started the window is not in the other one
        obtain ⟨hp, -⟩ := h.eq_add h' hs hs' (by omega)
        have hmem : c.prompt ∈ (cs.filter fun c => s ≤ c.now ∧ c.now < s').map (·.prompt) := by
          apply List.mem_map_of_mem
          rw [List.mem_filter, decide_eq_true_eq]
          exact ⟨hc, by omega⟩
        have hfirst := List.single_le_sum
          (hnonneg (·.prompt) (fun c => s ≤ c.now ∧ c.now < s') fun c hc => (hprompt c hc).le) _ hmem
        have hpos := hprompt c hc
        exact iff_of_false (by omega) fun hall => hle (hall s rfl s' rfl)

/-- What the meter reads comes from charges within the window's length before `t`
exactly if the window that has started is not over at `t`. -/
theorem Reads.recent_iff {m : Meter} {cs : List Charge} (h : m.Reads window cs) (hprompt : ∀ c ∈ cs, 0 < c.prompt)
    (t : ℤ) : (∃ ds : List Charge, ds.Sublist cs ∧ (∀ d ∈ ds, t - d.now < window) ∧
      m.prompt = (ds.map (·.prompt)).sum ∧ m.completion = (ds.map (·.completion)).sum) ↔
        ∀ s, m.started = some s → t - s < window := by
  constructor
  · rintro ⟨ds, hsub, hrecent, hsum, -⟩ s hs
    by_contra hover
    obtain ⟨first, hfirst, hnow⟩ := h.started s hs
    have hnonneg : ∀ p : Charge → Bool, ∀ x ∈ (cs.filter p).map (·.prompt), 0 ≤ x := by
      intro p x hx
      obtain ⟨c, hc, rfl⟩ := List.mem_map.mp hx
      exact (hprompt c (List.mem_filter.mp hc).1).le
    -- all recent charges are in the window, and the one that started it is not recent
    have hds : ds.Sublist (cs.filter fun c => t - c.now < window) := by
      have hfilter := hsub.filter fun c => decide (t - c.now < window)
      rwa [List.filter_eq_self.mpr fun d hd => decide_eq_true (hrecent d hd)] at hfilter
    have hle := List.Sublist.sum_le_sum (hds.map (·.prompt)) (hnonneg _)
    have hin : (cs.filter m.since).filter (fun c => t - c.now < window) = cs.filter fun c => t - c.now < window := by
      rw [List.filter_filter]
      apply List.filter_congr
      intro c _
      simp only [since, hs, Option.any_some, Bool.and_eq_left_iff_imp, decide_eq_true_eq]
      omega
    have hsplit := List.sum_map_filter_add_sum_map_filter_not (fun c : Charge => t - c.now < window) (·.prompt)
      (cs.filter m.since)
    rw [hin, ← h.prompt] at hsplit
    have hmem : first.prompt ∈ ((cs.filter m.since).filter fun c => ¬ t - c.now < window).map (·.prompt) := by
      apply List.mem_map_of_mem
      rw [List.mem_filter, List.mem_filter, decide_eq_true_eq]
      refine ⟨⟨hfirst, ?_⟩, by omega⟩
      simp [since, hs, hnow]
    have hone := List.single_le_sum (l := ((cs.filter m.since).filter fun c => ¬ t - c.now < window).map (·.prompt))
      (by rw [List.filter_filter]; exact hnonneg _) _ hmem
    have hpos := hprompt first hfirst
    omega
  · intro hfresh
    refine ⟨cs.filter m.since, List.filter_sublist, fun d hd => ?_, h.prompt, h.completion⟩
    obtain ⟨-, hsince⟩ := List.mem_filter.mp hd
    cases hs : m.started with
    | none => simp [since, hs] at hsince
    | some s =>
      have hnot := hfresh s hs
      simp only [since, hs, Option.any_some, decide_eq_true_eq] at hsince
      omega

end Meter

end Kit
