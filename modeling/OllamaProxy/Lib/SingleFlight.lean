/-
# Single flight

A guard on a fetch whose result is kept. A fetch begins, and ends by storing a
value or by failing; `fresh age` says how long a stored value is good. The
history of a guard is a list of events, and `Flight.next` accepts an event if
the guard allows it: a fetch begins only when none is in progress, and unless
it is forced only when the value stored last is not fresh; it is ended by the
caller that began it; and the clock does not go back.

What an accepted history is like: its fetches end in the order they began, with
at most one in progress (`run_began`), the entry is the value stored last
(`run_entry`), and an unforced fetch finds no value stored before that is still
fresh (`run_unforced`).
-/
import OllamaProxy.Lib.Run

namespace Kit

/-- A guard: the caller whose fetch is in progress, and the value stored last
with its time. -/
structure Flight (ι V : Type*) where
  clock : ℤ
  owner : Option ι
  entry : Option (ℤ × V)

namespace Flight

variable {ι V : Type*}

inductive What (V : Type*)
  | began (forced : Bool)
  | stored (v : V)
  | failed

/-- What the caller's fetch does, and when. -/
structure Event (ι V : Type*) where
  now : ℤ
  caller : ι
  what : What V

def Event.began? (e : Event ι V) : Option ι :=
  match e.what with
  | .began _ => some e.caller
  | _ => none

def Event.ended? (e : Event ι V) : Option ι :=
  match e.what with
  | .began _ => none
  | _ => some e.caller

def Event.stored? (e : Event ι V) : Option (ℤ × V) :=
  match e.what with
  | .stored v => some (e.now, v)
  | _ => none

theorem Event.stored?_fst {x : ℤ × V} {e : Event ι V} (h : e.stored? = some x) : x.1 = e.now := by
  unfold stored? at h
  split at h
  · cases h
    rfl
  · cases h

/-- The value stored last is fresh. -/
def isFresh (fresh : ℤ → Bool) (f : Flight ι V) (now : ℤ) : Bool := f.entry.any fun x => fresh (now - x.1)

variable [DecidableEq ι]

/-- `none`: the guard does not allow the event. -/
def next (fresh : ℤ → Bool) (f : Flight ι V) (e : Event ι V) : Option (Flight ι V) :=
  if f.clock ≤ e.now then
    match f.owner, e.what with
    | none, .began forced =>
      if forced || !f.isFresh fresh e.now then some ⟨e.now, some e.caller, f.entry⟩ else none
    | some p, .stored v => if p = e.caller then some ⟨e.now, none, some (e.now, v)⟩ else none
    | some p, .failed => if p = e.caller then some ⟨e.now, none, f.entry⟩ else none
    | _, _ => none
  else none

variable {fresh : ℤ → Bool} {f f' : Flight ι V} {e : Event ι V}

theorem next_began {forced : Bool} (hwhat : e.what = .began forced) :
    f.next fresh e = some f' ↔ f.clock ≤ e.now ∧ f.owner = none ∧
      (forced || !f.isFresh fresh e.now) = true ∧ f' = ⟨e.now, some e.caller, f.entry⟩ := by
  unfold next
  rw [hwhat]
  by_cases hclock : f.clock ≤ e.now
  · rw [if_pos hclock]
    cases howner : f.owner with
    | none =>
      by_cases hfree : (forced || !f.isFresh fresh e.now) = true
      · simp [hfree, hclock, eq_comm]
      · simp [hfree]
    | some q => simp
  · rw [if_neg hclock]
    simp [hclock]

theorem next_stored {v : V} (hwhat : e.what = .stored v) :
    f.next fresh e = some f' ↔ f.clock ≤ e.now ∧ f.owner = some e.caller ∧
      f' = ⟨e.now, none, some (e.now, v)⟩ := by
  unfold next
  rw [hwhat]
  by_cases hclock : f.clock ≤ e.now
  · rw [if_pos hclock]
    cases howner : f.owner with
    | none => simp
    | some q =>
      by_cases hq : q = e.caller
      · simp [hq, hclock, eq_comm]
      · simp [hq]
  · rw [if_neg hclock]
    simp [hclock]

theorem next_failed (hwhat : e.what = .failed) :
    f.next fresh e = some f' ↔ f.clock ≤ e.now ∧ f.owner = some e.caller ∧
      f' = ⟨e.now, none, f.entry⟩ := by
  unfold next
  rw [hwhat]
  by_cases hclock : f.clock ≤ e.now
  · rw [if_pos hclock]
    cases howner : f.owner with
    | none => simp
    | some q =>
      by_cases hq : q = e.caller
      · simp [hq, hclock, eq_comm]
      · simp [hq]
  · rw [if_neg hclock]
    simp [hclock]

/-- An event that the guard allows: the clock, the fetch in progress and the
entry after it. -/
theorem next_some (h : f.next fresh e = some f') :
    f.clock ≤ e.now ∧ f'.clock = e.now ∧
      f.owner.toList ++ e.began?.toList = e.ended?.toList ++ f'.owner.toList ∧
      f'.entry = e.stored?.or f.entry := by
  cases hwhat : e.what with
  | began forced =>
    obtain ⟨hclock, howner, -, rfl⟩ := (next_began hwhat).mp h
    simp [hclock, howner, Event.began?, Event.ended?, Event.stored?, hwhat]
  | stored v =>
    obtain ⟨hclock, howner, rfl⟩ := (next_stored hwhat).mp h
    simp [hclock, howner, Event.began?, Event.ended?, Event.stored?, hwhat]
  | failed =>
    obtain ⟨hclock, howner, rfl⟩ := (next_failed hwhat).mp h
    simp [hclock, howner, Event.began?, Event.ended?, Event.stored?, hwhat]

/-! ### Histories -/

variable {es : List (Event ι V)}

/-- The callers of the fetches that began are those of the fetches that ended,
in the same order, and of the one in progress. -/
theorem run_began (h : run (next fresh) f es = some f') :
    f.owner.toList ++ es.filterMap Event.began? = es.filterMap Event.ended? ++ f'.owner.toList := by
  induction es using List.reverseRecOn generalizing f' with
  | nil =>
    cases h
    simp
  | append_singleton es e ih =>
    obtain ⟨f1, h1, h2⟩ := run_concat_iff.mp h
    obtain ⟨-, -, hstep, -⟩ := next_some h2
    have hsnoc : ∀ g : Event ι V → Option ι, (es ++ [e]).filterMap g = es.filterMap g ++ (g e).toList := fun g => by
      rw [List.filterMap_append]
      cases hg : g e <;> simp [hg]
    calc f.owner.toList ++ (es ++ [e]).filterMap Event.began?
        = es.filterMap Event.ended? ++ (f1.owner.toList ++ e.began?.toList) := by
          rw [hsnoc, ← List.append_assoc, ih h1, List.append_assoc]
      _ = (es ++ [e]).filterMap Event.ended? ++ f'.owner.toList := by
          rw [hstep, hsnoc, List.append_assoc]

/-- The entry is the value stored last. -/
theorem run_entry (h : run (next fresh) f es = some f') :
    f'.entry = (es.filterMap Event.stored?).getLast?.or f.entry := by
  induction es using List.reverseRecOn generalizing f' with
  | nil =>
    cases h
    rfl
  | append_singleton es e ih =>
    obtain ⟨f1, h1, h2⟩ := run_concat_iff.mp h
    obtain ⟨-, -, -, hentry⟩ := next_some h2
    rw [hentry, ih h1, List.filterMap_append]
    cases hs : e.stored? <;> simp [hs]

/-- Nothing was stored after the entry, and the entry not after the clock. -/
theorem run_stored_le (h : run (next fresh) f es = some f') (h0 : ∀ x ∈ f.entry, x.1 ≤ f.clock) :
    (∀ x ∈ f'.entry, x.1 ≤ f'.clock) ∧
      ∀ x ∈ es.filterMap Event.stored?, ∃ y ∈ f'.entry, x.1 ≤ y.1 := by
  induction es using List.reverseRecOn generalizing f' with
  | nil =>
    cases h
    exact ⟨h0, fun x hx => by cases hx⟩
  | append_singleton es e ih =>
    obtain ⟨f1, h1, h2⟩ := run_concat_iff.mp h
    obtain ⟨hle, hclock, -, hentry⟩ := next_some h2
    obtain ⟨hlast, hall⟩ := ih h1
    rw [List.filterMap_append, hentry]
    cases hs : e.stored? with
    | none =>
      rw [Option.none_or, List.filterMap_cons_none hs, List.filterMap_nil, List.append_nil]
      refine ⟨fun x hx => ?_, hall⟩
      have hx := hlast x hx
      omega
    | some y =>
      have hy := Event.stored?_fst hs
      rw [Option.some_or, List.filterMap_cons_some hs, List.filterMap_nil]
      refine ⟨fun x hx => ?_, fun x hx => ⟨y, rfl, ?_⟩⟩
      · cases hx
        omega
      · rcases List.mem_append.mp hx with hx | hx
        · obtain ⟨z, hz, hxz⟩ := hall x hx
          have hz := hlast z hz
          omega
        · rw [List.mem_singleton.mp hx]

/-- An unforced fetch begins only when nothing that was stored is still fresh. -/
theorem run_unforced (hfresh : ∀ a b, a ≤ b → fresh b = true → fresh a = true)
    {before after : List (Event ι V)} (h0 : f.entry = none)
    (h : run (next fresh) f (before ++ e :: after) = some f') (hwhat : e.what = .began false) :
    ∀ x ∈ before.filterMap Event.stored?, fresh (e.now - x.1) = false := by
  intro x hx
  rw [run_append, Option.bind_eq_some_iff] at h
  obtain ⟨f1, h1, h2⟩ := h
  obtain ⟨f2, h2, -⟩ := run_cons_iff.mp h2
  obtain ⟨-, -, hstale, -⟩ := (next_began hwhat).mp h2
  obtain ⟨-, hall⟩ := run_stored_le h1 (fun y hy => by rw [h0] at hy; cases hy)
  obtain ⟨y, hy, hxy⟩ := hall x hx
  rw [isFresh, Option.mem_def.mp hy] at hstale
  by_contra hx
  have hfreshx : fresh (e.now - x.1) = true := by simpa using hx
  have hfreshy := hfresh (e.now - y.1) (e.now - x.1) (by omega) hfreshx
  simp [hfreshy] at hstale

end Flight

end Kit
